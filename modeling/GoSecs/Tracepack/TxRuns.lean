import GoSecs.Lib.BinarySearch
import GoSecs.Tracepack.Tlv

-- The run sets of a transaction lookup: the seqs that the read of an hour yielded.

open Run

namespace Tracepack.TxRuns

abbrev TxRun := Tlv.SeqRange

def txRunCharge : Int := 16

-- The bytes charged against the limit of a lookup's state.
structure Budget where
  max  : Int
  used : Int
deriving DecidableEq

def Budget.reserve (b : Budget) (n : Int) : Run Err Budget := do
  failIf (b.max - b.used < n)
    (.wrap "the lookup's state of %d bytes and %d more exceeds MaxStateBytes %d: %w"
      [.int b.used, .int n, .int b.max] (.sentinel .readLimit))
  return { b with used := b.used + n }

def Budget.release (b : Budget) (n : Int) : Budget :=
  { b with used := b.used - n }

-- `slices.BinarySearchFunc` by the last seq of a run
def search (runs : List TxRun) (seq : Nat) : Nat :=
  BinarySearch.search (fun r => r.last < seq) runs runs.length 0 runs.length

-- Whether `seq` follows on the run before the position.
def joinsPrev (runs : List TxRun) (i seq : Nat) : Bool :=
  0 < i && runs[i - 1]?.any fun r => (r.last + 1) % 2 ^ 64 = seq

-- Out of order: `seq` lies at or before the last run.
def insertBefore (runs : List TxRun) (seq : Nat) (b : Budget) :
    Run Err (List TxRun × Budget) := do
  let i := search runs seq
  let r ← index runs i
  if r.first ≤ seq then
    return (runs, b)
  let prev := joinsPrev runs i seq
  let next := (r.first + (2 ^ 64 - 1)) % 2 ^ 64 = seq
  if prev ∧ next then
    return ((runs.modify (i - 1) ({ · with last := r.last })).eraseIdx i, b.release txRunCharge)
  if prev then
    return (runs.modify (i - 1) ({ · with last := seq }), b)
  if next then
    return (runs.set i { r with first := seq }, b)
  let b ← b.reserve txRunCharge
  return (runs.take i ++ ⟨seq, seq⟩ :: runs.drop i, b)

def insert (runs : List TxRun) (seq : Nat) (b : Budget) : Run Err (List TxRun × Budget) := do
  match runs.getLast? with
  | none   =>
    let b ← b.reserve txRunCharge
    return ([⟨seq, seq⟩], b)
  | some r =>
    if seq ≤ r.last then
      insertBefore runs seq b
    else if seq - r.last = 1 then
      return (runs.dropLast ++ [{ r with last := seq }], b)
    else
      let b ← b.reserve txRunCharge
      return (runs ++ [⟨seq, seq⟩], b)

def insertAll (xs : List Nat) (b : Budget) : Run Err (List TxRun × Budget) :=
  xs.foldlM (fun s x => insert s.1 x s.2) ([], b)

-- The run that holds `seq`.
def find (runs : List TxRun) (seq : Nat) : Option TxRun :=
  runs[search runs seq]?.filter (·.first ≤ seq)

def contains (runs : List TxRun) (seq : Nat) : Bool :=
  match runs.head?, runs.getLast? with
  | some f, some l => if seq < f.first ∨ l.last < seq then false else (find runs seq).isSome
  | _, _ => false

def visitedFrom (reads : List (List TxRun)) (seq : Nat) : Option Nat :=
  reads.findSome? fun runs => (find runs seq).map (·.last)

-- The number bounds the rounds.
def firstMissingFrom (reads : List (List TxRun)) (e : Nat) : Nat → Nat → Run Err (Option Nat)
  | 0,     _   => stuck
  | k + 1, cur =>
    match visitedFrom reads cur with
    | none => pure (some cur)
    | some last =>
      if (e + (2 ^ 64 - 1)) % 2 ^ 64 ≤ last then pure none
      else firstMissingFrom reads e k ((last + 1) % 2 ^ 64)

def firstMissing (reads : List (List TxRun)) (p e : Nat) : Run Err (Option Nat) :=
  if (e + (2 ^ 64 - p)) % 2 ^ 64 ≤ 1 then pure none
  else firstMissingFrom reads e (e - p) ((p + 1) % 2 ^ 64)

end Tracepack.TxRuns
