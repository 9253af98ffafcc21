import GoSecs.Lib.Strconv
import GoSecs.Lib.Strings
import GoSecs.Tracepack.Format

-- The walk over the SECS-II items of a message text, by offsets.

open Run

namespace Tracepack.SecsItem

def maxDepth : Nat := 64
def maxLength : Nat := 2 ^ 24 - 1
def listCode : UInt8 := 0o00
def localizedCode : UInt8 := 0o22
def localizedHeaderLen : Nat := 2

def elementSize (code : UInt8) : Option Nat :=
  [(0o10, 1), (0o11, 1), (0o20, 1), (0o21, 1), (0o22, 1), (0o30, 8), (0o31, 1), (0o32, 2), (0o34, 4),
   (0o40, 8), (0o44, 4), (0o50, 8), (0o51, 1), (0o52, 2), (0o54, 4)].lookup code

-- Why a text is not one valid item. A list nested too deeply cannot be screened.
inductive Fault
  | invalid
  | depth (depth : Nat)
deriving DecidableEq

def Fault.err : Fault → Err
  | invalid => .text "secsitem: not one valid item" []
  | depth d => .wrap "%w: a list at depth %d" [.nat d] (.sentinel .itemDepth)

structure Range where
  start : Nat
  stop  : Nat
deriving DecidableEq

structure Header where
  code   : UInt8
  length : Nat
  body   : Nat
deriving DecidableEq

-- The steps of an item path, 0 for every element.
abbrev Pattern := List Nat

structure Selection where
  path : Bytes
  item : Range
deriving DecidableEq

structure Text where
  b : Bytes
  one : Bool := false
  content : Bool := false
deriving DecidableEq

-- A step of a pattern is "*" or a number without leading zeros.
def parseStep (s part : Bytes) : Run Err Nat := do
  let malformed : Err := .wrap "%w: step %q of %q" [.bytes part, .bytes s] (.sentinel .pattern)
  if part = [0x2A] then
    return 0
  else
    failIf (part = [] ∨ part.head? = some 0x30 ∨ part.any fun c => ¬Strconv.isDecimal c) malformed
    let (n, err) := Strconv.parseUint part 10 63
    failIf (err.isSome = true ∨ maxLength < n) malformed
    return n

def parsePattern (s : Bytes) : Run Err Pattern :=
  if s = [] then pure [] else (s.splitOn 0x2F).mapM (parseStep s)

def patternText (p : Pattern) : Bytes :=
  [0x2F].intercalate (p.map fun step => if step = 0 then [0x2A] else Strconv.formatUint step)

-- Two patterns can select items that overlap.
def overlaps : Pattern → Pattern → Bool
  | p :: ps, q :: qs => !(p ≠ 0 ∧ q ≠ 0 ∧ p ≠ q) && overlaps ps qs
  | _,       _ => true

def childPath (path : Bytes) (k : Nat) : Bytes :=
  if path = [] then Strconv.formatUint k else path ++ [0x2F] ++ Strconv.formatUint k

section Walk

variable {ε : Type} (b : Bytes)

def readHeader (off : Nat) : Run ε Header := do
  let first ← index b off
  let n := (first &&& 0x03).toNat
  let lengths ← slice b (off + 1) (off + 1 + n)
  return { code := first >>> 2, length := BigEndian.nat lengths, body := off + 1 + n }

-- The elements of a list, each from where the one before it ends.
def validateItems (item : Nat → Run Fault (Nat × Bool)) : Nat → Nat → Run Fault (Nat × Bool)
  | 0,     off => pure (off, false)
  | n + 1, off => do
    let (next, content) ← item off
    let (stop, content') ← validateItems item n next
    return (stop, content || content')

-- The end of the item at `off`, and whether it has content. The first number counts the levels of
-- nesting that are left.
def validate : Nat → Nat → Run Fault (Nat × Bool)
  | room, off => do
    failIf (b.length ≤ off) .invalid
    let n := ((← index b off) &&& 0x03).toNat
    failIf (n = 0 ∨ b.length < off + 1 + n) .invalid
    let h ← readHeader b off
    if h.code = listCode then
      match room with
      | 0 => fail (.depth (maxDepth + 1))
      | room + 1 => do
        failIf ((b.length - h.body) / 2 < h.length) .invalid
        validateItems (validate room) h.length h.body
    else
      match elementSize h.code with
      | none => fail .invalid
      | some size => do
        failIf (h.length % size ≠ 0 ∨ h.code = localizedCode ∧ h.length = 1 ∨
          b.length - h.body < h.length) .invalid
        let hidden := if h.code = localizedCode then localizedHeaderLen else 0
        return (h.body + h.length, decide (hidden < h.length))

def endItems (item : Nat → Run ε Nat) : Nat → Nat → Run ε Nat
  | 0,     off => pure off
  | n + 1, off => do
    let next ← item off
    endItems item n next

-- The end of the item at `off`. The first number bounds the nesting.
def endOf : Nat → Nat → Run ε Nat
  | 0,        _   => stuck
  | fuel + 1, off => do
    let h ← readHeader b off
    if h.code ≠ listCode then
      return h.body + h.length
    else
      endItems (endOf fuel) h.length h.body

-- The elements of a list from the one with number `k` on that a step selects, none when a path ends in
-- an element that is no list or too short.
def selectItems (item : Nat → Bytes → Run ε (Option (List Selection))) (next : Nat → Run ε Nat)
    (step : Nat) (path : Bytes) : Nat → Nat → Nat → Run ε (Option (List Selection))
  | 0,     _, _ => pure (some [])
  | n + 1, k, child => do
    if step = 0 ∨ step = k then
      match ← item child (childPath path k) with
      | none => pure none
      | some out =>
        if step = k then
          pure (some out)
        else
          let rest ← selectItems item next step path n (k + 1) (← next child)
          return rest.map (out ++ ·)
    else
      selectItems item next step path n (k + 1) (← next child)

def selectAt : Pattern → Nat → Bytes → Run ε (Option (List Selection))
  | [], off, path => do
    return some [⟨path, off, ← endOf b (b.length + 1) off⟩]
  | step :: p, off, path => do
    let h ← readHeader b off
    if h.code ≠ listCode ∨ h.length < step then
      return none
    else
      selectItems (selectAt p) (endOf b (b.length + 1)) step path h.length 1 h.body

def contentItems (item : Nat → List Range → Run ε (List Range)) (next : Nat → Run ε Nat) :
    Nat → Nat → List Range → Run ε (List Range)
  | 0,     _,     dst => pure dst
  | n + 1, child, dst => do
    let dst ← item child dst
    contentItems item next n (← next child) dst

-- A range behind the others, joined with the last one when they touch.
def appendRange (dst : List Range) (r : Range) : List Range :=
  match dst.getLast? with
  | some l => if l.stop = r.start then dst.dropLast ++ [{ l with stop := r.stop }] else dst ++ [r]
  | none   => dst ++ [r]

-- The content ranges of the leaves of the item at `off`, behind those of `dst`.
def appendContent : Nat → Nat → List Range → Run ε (List Range)
  | 0,        _,   _   => stuck
  | fuel + 1, off, dst => do
    let h ← readHeader b off
    if h.code = listCode then
      contentItems (appendContent fuel) (endOf b (b.length + 1)) h.length h.body dst
    else
      let start :=
        if h.code = localizedCode ∧ 0 < h.length then h.body + localizedHeaderLen else h.body
      if h.body + h.length ≤ start then
        return dst
      else
        return appendRange dst ⟨start, h.body + h.length⟩

end Walk

def screen (text : Bytes) : Run Fault Text :=
  if text = [] then
    pure { b := text }
  else
    match validate text maxDepth 0 with
    | .ok (stop, content) => pure { b := text, one := stop = text.length, content }
    | .error (.err (.depth d)) => fail (.depth d)
    | .error (.err .invalid) => pure { b := text }
    | .error .panic => panic
    | .error .stuck => stuck

namespace Text

variable {ε : Type} (t : Text)

def select (p : Pattern) : Run ε (Option (List Selection)) :=
  if t.one then selectAt t.b p 0 [] else pure none

def contentOf (r : Range) : Run ε (List Range) :=
  appendContent t.b (t.b.length + 1) r.start []

end Text
end Tracepack.SecsItem
