import GoSecs.Sml.Cursor

open Utf8 Strings Strconv Ieee754

namespace Sml

open Secs2

inductive QuoteStyle
  | double
  | single
  | none
deriving DecidableEq

inductive BinaryStyle
  | hex
  | literal
deriving DecidableEq

structure Encoder where
  strict : Bool := false
  asciiQuote : QuoteStyle := .double
  binaryStyle : BinaryStyle := .hex
  indent : Bytes := ascii "  "

inductive EncodeErr
  | msg  (m : Msg)
  | item (err : Secs2.Fault)

def hexDigit (n : Nat) : UInt8 :=
  .ofNat (if n < 10 then 48 + n else 55 + n)

-- `0xHH`
def hexToken (b : UInt8) : Bytes :=
  ascii "0x" ++ [hexDigit (b.toNat / 16), hexDigit (b.toNat % 16)]

-- `FormatInt(n, 2)`
def formatBinary (n : Nat) : Bytes :=
  (Nat.toDigits 2 n).map Char.toUInt8

def sep (first : Bool) : Bytes :=
  if first then [] else ascii " "

def isPrintable (c : UInt8) : Bool :=
  0x20 ≤ c && c < 0x7F

-- What is left of a value to be written, in a quoted run or not, and at its start or not.
def strictTokens (quote : UInt8) : Bool → Bool → Bytes → Bytes
  | inRun, _,     [] => if inRun then [quote] else []
  | inRun, first, c :: s =>
    if isPrintable c then
      (if inRun then [] else sep first ++ [quote]) ++
        (if c = quote ∨ c = '\\'.toUInt8 ∨ c = '>'.toUInt8 then ascii "\\" else []) ++
        c :: strictTokens quote true (inRun && first) s
    else
      (if inRun then [quote] else []) ++ sep first ++ hexToken c ++ strictTokens quote false false s

def writeStrictASCII (s : Bytes) (quote : UInt8) : Bytes :=
  if s = [] then [quote, quote] else strictTokens quote false true s

section Localized

-- `unicode.IsPrint`
variable (isPrint : Nat → Bool)

def isPrintRune (r size : Nat) : Bool :=
  (r ≠ runeError || size > 1) && isPrint r

-- The number counts the bytes of the current rune that are still to be written. They go into the run
-- that the rune has opened, or become tokens if it has opened none.
def localizedTokens : Bool → Bool → Nat → Bytes → Bytes
  | inRun, _,     _,     [] => if inRun then ascii "\"" else []
  | inRun, first, k + 1, b :: s =>
    if inRun then b :: localizedTokens true first k s
    else sep first ++ hexToken b ++ localizedTokens false false k s
  | inRun, first, 0,     b :: s =>
    if isPrintRune isPrint (decodeRune b s).1 (decodeRune b s).2 then
      (if inRun then [] else sep first ++ ascii "\"") ++
        (if b = '"'.toUInt8 ∨ b = '\\'.toUInt8 then ascii "\\" else []) ++
        b :: localizedTokens true (inRun && first) ((decodeRune b s).2 - 1) s
    else
      (if inRun then ascii "\"" else []) ++ sep first ++ hexToken b ++
        localizedTokens false false ((decodeRune b s).2 - 1) s

def writeLocalizedStrSML (s : Bytes) : Bytes :=
  if s = [] then ascii "\"\"" else localizedTokens isPrint false true 0 s

-- `LocalizedStrItem.ToSML`
def localizedStrSML (lsh : UInt16) (value : Bytes) (noLSH : Bool) : Bytes :=
  if noLSH then
    ascii "<W[0]>"
  else
    ascii "<W " ++ (if lsh = lshUTF8 then [] else formatUint lsh.toNat ++ ascii " ") ++
      writeLocalizedStrSML isPrint value ++ ascii ">"

end Localized

-- `JIS8Item.ToSML`
def jis8SML (value : Bytes) : Bytes :=
  if value = [] then
    ascii "<J[0] \"\">"
  else
    ascii "<J[" ++ formatUint value.length ++ ascii "] \"" ++ value ++ ascii "\">"

namespace Encoder

variable (e : Encoder)

def quoteByte : UInt8 :=
  if e.asciiQuote = .single then '\''.toUInt8 else '"'.toUInt8

-- `<T[n]`
def head (type : String) (size : Int) : Bytes :=
  ascii "<" ++ ascii type ++ ascii "[" ++ formatInt size ++ ascii "]"

def encodeString (tok : String) (s : Bytes) (strict : Bool) : Bytes :=
  head tok s.length ++ ascii " " ++
    (if strict then writeStrictASCII s e.quoteByte else e.quoteByte :: s ++ [e.quoteByte]) ++
    ascii ">"

def encodeByte (b : UInt8) : Bytes :=
  match e.binaryStyle with
  | .literal => ascii " 0b" ++ formatBinary b.toNat
  | .hex => ascii " " ++ hexToken b

def encodeBool (b : Bool) : Bytes :=
  if b then ascii " True" else ascii " False"

-- The values that a numeric or boolean item yields, which are none if it carries an error.
def values {α : Type} (b : Base) (v : Vec α) : List α :=
  if b.itemErr.isSome then [] else if v.size = 1 then [v.scalar] else v.values

-- `FormatFloat(v, 'G', prec, bits)` and `unicode.IsPrint`
variable (formatFloat : Nat → Nat → F64 → Bytes) (isPrint : Nat → Bool)

-- A string or byte of an item that carries an error is read as the zero value.
def encodeLeaf (b : Base) : Leaf → Bytes
  | .ascii s =>
    e.encodeString "A" (if b.itemErr.isSome then [] else s) e.strict
  | .jis8 s => e.encodeString "J" (if b.itemErr.isSome then [] else s) false
  | .localizedStr lsh s noLSH => localizedStrSML isPrint lsh s noLSH
  | .binary s =>
    head "B" s.length ++ (if b.itemErr.isSome then s.map fun _ => 0 else s).flatMap e.encodeByte ++
      ascii ">"
  | .boolean v =>
    head "BOOLEAN" v.size ++ (values b v).flatMap encodeBool ++ ascii ">"
  | .int w v =>
    if (intFormatCode w).isSome then
      head ("I" ++ toString w) v.size ++ (values b v).flatMap (ascii " " ++ formatInt ·) ++ ascii ">"
    else
      []
  | .uint w v =>
    if (uintFormatCode w).isSome then
      head ("U" ++ toString w) v.size ++ (values b v).flatMap (ascii " " ++ formatUint ·) ++ ascii ">"
    else
      []
  | .float w v =>
    if (floatFormatCode w).isSome then
      head ("F" ++ toString w) v.size ++
        (values b v).flatMap (ascii " " ++ formatFloat (if w = 4 then 9 else 17) (w * 8) ·) ++
        ascii ">"
    else
      []

def isList : Item → Bool
  | .list .. => true
  | _ => false

def indents (level : Nat) : Bytes :=
  (List.replicate level e.indent).flatten

def encodeItem : Item → Nat → Except EncodeErr Bytes
  | .empty,       _ => .ok []
  | .leaf b l,    _ => .ok (e.encodeLeaf formatFloat isPrint b l)
  | .list b _ vs, level =>
    if level ≥ maxListDepth then
      .error (.msg { format := "sml: list nesting depth exceeds maximum allowed: %d",
                     args   := [.int maxListDepth] })
    else if vs.length = 0 then
      .ok (e.indents level ++ ascii "<L[0]>")
    else do
      -- `Items` yields nothing for a list that carries an error itself.
      let children ← if b.itemErr.isSome then .ok [] else encodeItems vs (level + 1)
      .ok (e.indents level ++ head "L" vs.length ++ ascii "\n" ++ children ++ e.indents level ++
        ascii ">")
where
  encodeItems : List Item → Nat → Except EncodeErr Bytes
    | [],      _ => .ok []
    | v :: vs, level => do
      let text ← encodeItem v level
      let rest ← encodeItems vs level
      .ok ((if isList v then [] else e.indents level) ++ text ++ ascii "\n" ++ rest)

end Encoder
end Sml
