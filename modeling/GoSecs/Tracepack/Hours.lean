import GoSecs.Lib.Word
import GoSecs.Tracepack.Summary

-- Hours and periods, on words.

namespace Tracepack.Hours

open Word

variable {m : Type → Type} [Monad m] (op : Int → m Int)

-- The UTC hour of `ts`, as `Tracepack.hourOf` has it on integers.
def hourOf (ts : Int) : m Int :=
  floorDiv op ts hourNs

-- The hour of a period that lies in one.
def periodHour (start stop : Int) : m (Option Int) := do
  if start ≥ stop then
    return none
  let h ← hourOf op start
  let last ← op (stop - 1)
  if h ≠ (← hourOf op last) then
    return none
  return some (← hourOf op start)

-- The first and last time of an hour, inside the words.
def hourBounds (h : Int) : m (Int × Int) := do
  let first ← (if h ≥ minInt64.tdiv hourNs then op (h * hourNs) else pure minInt64)
  let last ← (if h < maxInt64.tdiv hourNs then do
      let next ← op (h + 1)
      let stop ← op (next * hourNs)
      op (stop - 1)
    else pure maxInt64)
  return (first, last)

-- The period of length `f` that holds `ts`.
def periodOf (ts f : Int) : m (Option (Int × Int)) := do
  let q ← floorDiv op ts f
  let least ← op (minInt64.tdiv f)
  if q < least then
    return none
  let start ← op (q * f)
  let greatest ← op (maxInt64 - f)
  if start > greatest then
    return none
  let stop ← op (start + f)
  return some (start, stop)

end Tracepack.Hours
