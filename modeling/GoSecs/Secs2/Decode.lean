import GoSecs.Secs2.Encode

open BigEndian Ieee754

namespace Secs2

def maxListDepth : Nat :=
  64

-- How a call ends that returns no item: with an error, or with a run-time panic of an index or a
-- slice expression that is out of range.
inductive Fault
  | err (text : String)
  | outOfRange
deriving DecidableEq

-- `s[i]`
def index (s : Bytes) (i : Nat) : Except Fault UInt8 :=
  match s[i]? with
  | some b => .ok b
  | none   => .error .outOfRange

-- `s[i:j]`
def slice (s : Bytes) (i j : Nat) : Except Fault Bytes :=
  if i ≤ j ∧ j ≤ s.length then .ok ((s.drop i).take (j - i)) else .error .outOfRange

structure ItemHeader where
  code   : Nat
  length : Nat
  pos    : Nat

-- The format byte and the length bytes at `pos`. The position of the result is that of the payload.
def decodeHeader (owned : Bytes) (pos : Nat) : Except Fault ItemHeader :=
  if pos ≥ owned.length then
    .error (.err "unexpected end of data: need format byte")
  else do
    let formatByte ← index owned pos
    let lenByteCount := formatByte.toNat % 4
    if lenByteCount = 0 then
      .error (.err "invalid item header: length-byte count is zero")
    else if pos + 1 + lenByteCount > owned.length then
      .error (.err (s!"unexpected end of data: need {lenByteCount} length bytes, " ++
        s!"have {owned.length - (pos + 1)}"))
    else
      let lenBytes ← slice owned (pos + 1) (pos + 1 + lenByteCount)
      .ok { code := formatByte.toNat / 4, length := nat lenBytes, pos := pos + 1 + lenByteCount }

def needBytes (what : String) (owned : Bytes) (pos length : Nat) : Fault :=
  .err s!"unexpected end of data: {what} needs {length} bytes, have {owned.length - pos}"

-- The leaves whose payload is taken as it is: ASCII, JIS-8 and binary.
def decodeVerbatim (what : String) (mk : Bytes → Leaf) (owned : Bytes) (startPos pos length : Nat) :
    Except Fault (Item × Nat) :=
  if pos + length > owned.length then
    .error (needBytes what owned pos length)
  else do
    let s ← slice owned pos (pos + length)
    let raw ← slice owned startPos (pos + length)
    .ok (.leaf { raw := raw } (mk s), pos + length)

def decodeBooleanItem (owned : Bytes) (startPos pos length : Nat) : Except Fault (Item × Nat) :=
  if pos + length > owned.length then
    .error (needBytes "boolean" owned pos length)
  else if length = 1 then do
    let b ← index owned pos
    let raw ← slice owned startPos (pos + 1)
    .ok (.leaf { raw := raw } (.boolean { size := 1, scalar := b ≠ 0, values := [] }), pos + 1)
  else do
    let bools ← (List.range length).mapM fun i => do
      let b ← index owned (pos + i)
      .ok (b ≠ 0 : Bool)
    let raw ← slice owned startPos (pos + length)
    .ok (.leaf { raw := raw }
      (.boolean { size := int32 length, scalar := false, values := bools }), pos + length)

def decodeLocalizedStrItem (owned : Bytes) (startPos pos length : Nat) :
    Except Fault (Item × Nat) :=
  if length = 0 then do
    let raw ← slice owned startPos pos
    .ok (.leaf { raw := raw } (.localizedStr 0 [] true), pos)
  else if length < 2 then
    .error (.err s!"localized string payload too short: {length} bytes (minimum 2 for LSH)")
  else if pos + length > owned.length then
    .error (needBytes "localized string" owned pos length)
  else do
    let hi ← index owned pos
    let lo ← index owned (pos + 1)
    let s ← slice owned (pos + 2) (pos + length)
    let raw ← slice owned startPos (pos + length)
    .ok (.leaf { raw := raw } (.localizedStr (UInt16.ofNat (nat [hi, lo])) s false), pos + length)

def decodeNumeric {α : Type} [Inhabited α] (kind : String) (read : Bytes → α)
    (mk : Nat → Vec α → Leaf) (owned : Bytes) (startPos pos byteSize length : Nat) :
    Except Fault (Item × Nat) :=
  if length % byteSize ≠ 0 then
    .error (.err (s!"invalid payload length {length} for {kind}{byteSize * 8} item: " ++
      s!"not a multiple of {byteSize}"))
  else if pos + length > owned.length then
    .error (needBytes s!"{kind}{byteSize * 8}" owned pos length)
  else if length / byteSize = 1 then do
    let val ← slice owned pos (pos + byteSize)
    let raw ← slice owned startPos (pos + length)
    .ok (.leaf { raw := raw } (mk byteSize { size := 1, scalar := read val, values := [] }),
      pos + length)
  else do
    let vals ← (List.range (length / byteSize)).mapM fun i => do
      let val ← slice owned (pos + i * byteSize) (pos + i * byteSize + byteSize)
      .ok (read val)
    let raw ← slice owned startPos (pos + length)
    .ok (.leaf { raw := raw }
      (mk byteSize { size := int32 (length / byteSize : Nat), scalar := default, values := vals }),
      pos + length)

-- An F4 value is widened as it is read.
def readFloat (byteSize : Nat) (bs : Bytes) : F64 :=
  if byteSize = 4 then widen (.ofNat 32 (nat bs)) else .ofNat 64 (nat bs)

def decodeIntItem := decodeNumeric "I" int Leaf.int

def decodeUintItem := decodeNumeric "U" nat Leaf.uint

def decodeFloatItem (owned : Bytes) (startPos pos byteSize length : Nat) :=
  decodeNumeric "F" (readFloat byteSize) Leaf.float owned startPos pos byteSize length

-- The loop over the children of a list, which `decode` reads one at a time.
def decodeChildren (decode : Nat → Except Fault (Item × Nat)) :
    Nat → Nat → Except Fault (List Item × Nat)
  | 0,     pos => .ok ([], pos)
  | n + 1, pos => do
    let (child, pos)    ← decode pos
    let (children, pos) ← decodeChildren decode n pos
    .ok (child :: children, pos)

def decodeLeaf (fc : FormatCode) (owned : Bytes) (startPos pos length : Nat) :
    Except Fault (Item × Nat) :=
  match fc with
  | .ascii => decodeVerbatim "ASCII" .ascii owned startPos pos length
  | .jis8 => decodeVerbatim "JIS8" .jis8 owned startPos pos length
  | .binary => decodeVerbatim "binary" .binary owned startPos pos length
  | .boolean => decodeBooleanItem owned startPos pos length
  | .localizedStr => decodeLocalizedStrItem owned startPos pos length
  | .int8 => decodeIntItem owned startPos pos 1 length
  | .int16 => decodeIntItem owned startPos pos 2 length
  | .int32 => decodeIntItem owned startPos pos 4 length
  | .int64 => decodeIntItem owned startPos pos 8 length
  | .uint8 => decodeUintItem owned startPos pos 1 length
  | .uint16 => decodeUintItem owned startPos pos 2 length
  | .uint32 => decodeUintItem owned startPos pos 4 length
  | .uint64 => decodeUintItem owned startPos pos 8 length
  | .float32 => decodeFloatItem owned startPos pos 4 length
  | .float64 => decodeFloatItem owned startPos pos 8 length
  | .list => .error (.err "unknown format code: 0")

-- The item at `pos`. `room` is the number of list levels that may still be entered, which is the
-- distance of the source's `depth` from the maximum.
def decodeItem (owned : Bytes) (room startPos : Nat) : Except Fault (Item × Nat) := do
  let header ← decodeHeader owned startPos
  match FormatCode.ofCode header.code with
  | none    => .error (.err s!"unknown format code: {header.code}")
  | some fc =>
    if fc ≠ .list then
      decodeLeaf fc owned startPos header.pos header.length
    else
      match room with
      | 0 =>
        .error (.err s!"list nesting depth exceeds maximum allowed: {maxListDepth}")
      | room + 1 =>
        if header.length * 2 > owned.length - header.pos then
          .error (.err (s!"list child count {header.length} exceeds remaining bytes: " ++
            s!"need at least {header.length * 2}, have {owned.length - header.pos}"))
        else do
          let (children, pos) ← decodeChildren (decodeItem owned room) header.length header.pos
          let raw ← slice owned startPos pos
          .ok (.list { raw := raw } true children, pos)

def decodeFirstItem (data : Bytes) : Except Fault (Item × Nat) :=
  if data.length = 0 then
    .ok (.empty, 0)
  else do
    let (item, endPos) ← decodeItem data maxListDepth 0
    .ok (item, data.length - endPos)

def decode (data : Bytes) : Except Fault Item := do
  let (item, _) ← decodeFirstItem data
  .ok item

end Secs2
