import GoSecs.Lib.Prog
import GoSecs.Lib.Strings
import GoSecs.Hsms.Message

open Utf8 Strings Strconv

namespace Sml

open Secs2 (Bytes Item FormatCode)

inductive Arg
  | int (v : Int)
  | text (s : Bytes)
  | rune (r : Option UInt8)
  | err (e : NumErr)
deriving DecidableEq

structure Msg where
  format : String
  args   : List Arg := []
deriving DecidableEq

structure ParseError where
  offset : Nat
  line   : Nat
  col    : Nat
  msg    : Msg
deriving DecidableEq

-- How a run of the parser can end without a result. A `panic` is an index out of range, and
-- `outOfFuel` a loop that does not end.
inductive Fault
  | parse (e : ParseError)
  | wrapped (e : Hsms.Err)
  | noMessage
  | panic
  | outOfFuel

def Fault.IsError : Fault → Prop
  | parse _ | wrapped _ | noMessage => True
  | panic | outOfFuel => False

-- The state of a parser. What is left of the input, `data`, and the input's length, `len`, follow
-- from the other fields.
@[ext]
structure Parser where
  input : Bytes
  pos : Nat
  inBounds : pos ≤ input.length
  listDepth : Nat
  stream : UInt8
  function : UInt8
  wbit : Bool
  strict : Bool

abbrev P := Prog Parser Fault

namespace Parser

def data (p : Parser) : Bytes :=
  p.input.drop p.pos

def len (p : Parser) : Nat :=
  p.input.length

def initInput (p : Parser) (input : Bytes) : Parser :=
  { p with input, pos := 0, inBounds := Nat.zero_le _ }

end Parser

def newParser (strict : Bool) : Parser where
  input := []
  pos := 0
  inBounds := Nat.zero_le _
  listDepth := 0
  stream := 0
  function := 0
  wbit := false
  strict

def lineCol : Nat × Nat → Bytes → Nat × Nat
  | lc,          [] => lc
  | (line, col), b :: bs => lineCol (if b = '\n'.toUInt8 then (line + 1, 1) else (line, col + 1)) bs

def newParseError (input : Bytes) (offset : Nat) (msg : Msg) : ParseError :=
  { offset := min offset input.length
    line := (lineCol (1, 1) (input.take offset)).1
    col := (lineCol (1, 1) (input.take offset)).2
    msg }

section Checked

variable {σ : Type}

-- `s[i]`, `s[:n]` and `s[n:]` of the source, which panic out of bounds.
def byteAt (s : Bytes) (i : Nat) : Prog σ Fault UInt8 :=
  match s[i]? with
  | some b => pure b
  | none   => throw .panic

def sliceTo (s : Bytes) (n : Nat) : Prog σ Fault Bytes :=
  if n ≤ s.length then pure (s.take n) else throw .panic

def sliceFrom (s : Bytes) (n : Nat) : Prog σ Fault Bytes :=
  if n ≤ s.length then pure (s.drop n) else throw .panic

end Checked

namespace Parser

def errfAt {α : Type} (offset : Nat) (format : String) (args : List Arg := []) : P α := do
  throw <| .parse <| newParseError (← get).input offset { format, args }

def errf {α : Type} (format : String) (args : List Arg := []) : P α := do
  errfAt (← get).pos format args

def forward (n : Nat) : P Bool := fun p =>
  if h : p.pos + n ≤ p.len then
    .ok (true, { p with pos := p.pos + n, inBounds := h })
  else
    .ok (false, p)

def backward (n : Nat) : P Unit := fun p =>
  if n ≤ p.pos then
    .ok ((), { p with pos := p.pos - n, inBounds := Nat.le_trans (Nat.sub_le ..) p.inBounds })
  else
    .ok ((), p)

def isBlank (b : UInt8) : Bool :=
  b = ' '.toUInt8 || b = '\t'.toUInt8 || b = '\r'.toUInt8 || b = '\n'.toUInt8

-- The scan over blanks of `skipSpace` and `checkASCIICloseQuote`: the first of the `k` bytes from `i`
-- on that is no blank.
def nonBlank (data : Bytes) : Nat → Nat → P (Option Nat)
  | 0,     _ => pure none
  | k + 1, i => do
    if isBlank (← byteAt data i) then nonBlank data k (i + 1) else pure (some i)

def skipSpace : P Bool := do
  let p ← get
  match ← nonBlank p.data p.data.length 0 with
  | some i => forward i
  | none   => pure false

def skipComment : P Unit := do
  if ← skipSpace then
    let p ← get
    if hasPrefix p.data (ascii "//") then
      match indexByte p.data '\n'.toUInt8 with
      | some i => discard <| forward (i + 1)
      | none   => pure ()
    else if hasPrefix p.data (ascii "/*") then
      match index p.data (ascii "*/") with
      | some i => discard <| forward (i + 2)
      | none   => pure ()

-- The source's runes are single bytes here, or `eof`.
def peekRune : P (Option UInt8) := do
  let p ← get
  if p.data.length = 0 then pure none else some <$> byteAt p.data 0

def peekNonSpaceRune : P (Option UInt8) := do
  if ← skipSpace then peekRune else pure none

def nextRune : P (Option UInt8) := do
  let p ← get
  if p.len ≤ p.pos then
    pure none
  else
    let r ← byteAt p.data 0
    if ← forward 1 then pure (some r) else pure none

def nextNonSpaceRune : P (Option UInt8) := do
  if ← skipSpace then nextRune else pure none

-- The offset of the first rune that is no digit.
def nonDigit : List (Nat × Nat) → Option Nat
  | [] => none
  | (i, r) :: rs => if r < 48 ∨ 57 < r then some i else nonDigit rs

def nextCode : P UInt8 := do
  let p ← get
  if p.len ≤ p.pos then
    errf "invalid sml code"
  else
    match nonDigit (range p.data) with
    | none   => errf "invalid sml code"
    | some i =>
      match parseUint (← sliceTo p.data i) 10 8 with
      | (_, some e) => errf "invalid sml code: %v" [.err e]
      | (code, none) => do
        discard <| forward i
        pure (.ofNat code)

def nextItemSize : P Nat := do
  let p ← get
  if p.len ≤ p.pos then
    errf "invalid item size"
  else
    match nonDigit (range p.data) with
    | none   => errf "invalid item size"
    | some i =>
      match parseUint (← sliceTo p.data i) 10 32 with
      | (_, some e)  => errf "invalid item size: %v" [.err e]
      | (size, none) =>
        if 2 ^ 31 - 1 < size then
          errf "parsed size exceeds maximum int value"
        else do
          discard <| forward i
          pure size

end Parser
end Sml
