import GoSecs.Lib.Utf8
import GoSecs.Tracepack.Format

open Run LittleEndian

namespace Tracepack.Tlv

open Format (uint UUID)

abbrev ValueType := UInt8

def typeU8    : ValueType := 1
def typeBool  : ValueType := 2
def typeI64   : ValueType := 3
def typeU64   : ValueType := 4
def typeUUID  : ValueType := 5
def typeUTF8  : ValueType := 6
def typeBytes : ValueType := 7
def typeTLV   : ValueType := 8

-- The value length that a type of fixed length requires.
def fixedLen (v : ValueType) : Option Nat :=
  if v = typeU8 ∨ v = typeBool then some 1
  else if v = typeI64 ∨ v = typeU64 then some 8
  else if v = typeUUID then some 16
  else none

def headerLen : Nat := 8
def maxU64    : Nat := 2 ^ 63 - 1

-- An entry. One that the caller builds has offset 0, which is never encoded.
structure Entry where
  tag    : Nat
  type   : ValueType
  value  : Bytes
  offset : Nat := 0
deriving DecidableEq

def Entry.errorf (e : Entry) (err : Err) : Err :=
  .entry e.tag e.offset err

def appendEntry (e : Entry) : Bytes :=
  bytes 2 e.tag ++ [e.type, 0] ++ bytes 4 e.value.length ++ e.value

def u8Entry (tag : Nat) (v : UInt8) : Entry :=
  { tag, type := typeU8, value := [v] }

def i64Entry (tag : Nat) (v : Int) : Entry :=
  { tag, type := typeI64, value := intBytes 8 v }

def u64Entry (tag v : Nat) : Entry :=
  { tag, type := typeU64, value := bytes 8 v }

def boolEntry (tag : Nat) (v : Bool) : Entry :=
  { tag, type := typeBool, value := [if v then 1 else 0] }

def uuidEntry (tag : Nat) (id : UUID) : Entry :=
  { tag, type := typeUUID, value := id.bytes }

def utf8Entry (tag : Nat) (s : Bytes) : Entry :=
  { tag, type := typeUTF8, value := s }

def bytesEntry (tag : Nat) (value : Bytes) : Entry :=
  { tag, type := typeBytes, value }

def nestedEntry (tag : Nat) (entries : List Entry) : Entry :=
  { tag, type := typeTLV, value := entries.flatMap appendEntry }

-- The entry whose header starts at `off`, and the offset of the next entry.
def decodeOne (b : Bytes) (off : Nat) : Run Err (Entry × Nat) := do
  let rest ← slice b off b.length
  if rest.length < headerLen then
    let tag ← (if 2 ≤ rest.length then uint rest 0 2 else pure 0)
    fail (.entry tag off (.sentinel .truncated))
  else
    let tag ← uint rest 0 2
    let type ← index rest 2
    let length ← uint rest 4 8
    failIf (tag = 0) (.entry tag off (.sentinel .zeroTag))
    failIf (rest.length - headerLen < length) (.entry tag off (.sentinel .truncated))
    failIf ((fixedLen type).any (· ≠ length)) (.entry tag off (.sentinel .length))
    let stop := headerLen + length
    let value ← slice rest headerLen stop
    return ({ tag, type, value, offset := off }, off + stop)

-- The loop of `Decode`. The number bounds its rounds.
def decodeFrom (b : Bytes) : Nat → Nat → Run Err (List Entry)
  | 0,     off => if off < b.length then stuck else pure []
  | k + 1, off =>
    if off < b.length then do
      let (e, next) ← decodeOne b off
      let es ← decodeFrom b k next
      return e :: es
    else
      pure []

def decode (b : Bytes) : Run Err (List Entry) :=
  decodeFrom b b.length 0

namespace Entry

variable (e : Entry)

def check (want : ValueType) : Run Err Unit := do
  failIf (e.type ≠ want) (e.errorf (.sentinel .type))
  failIf ((fixedLen want).any (· ≠ e.value.length)) (e.errorf (.sentinel .length))

def checkValue (want : ValueType) : Run Err Unit := do
  e.check want
  when (want = typeBool) do
    failIf (1 < (← index e.value 0)) (e.errorf (.sentinel .bool))
  when (want = typeU64) do
    failIf (maxU64 < (← uint e.value 0 8)) (e.errorf (.sentinel .u64Limit))
  when (want = typeUTF8) do
    failIf (Utf8.valid e.value = false) (e.errorf (.sentinel .utf8))

def u8 : Run Err UInt8 := do
  e.check typeU8
  index e.value 0

def i64 : Run Err Int := do
  e.check typeI64
  return signed 8 (← uint e.value 0 8)

def u64 : Run Err Nat := do
  e.checkValue typeU64
  uint e.value 0 8

def bool : Run Err Bool := do
  e.checkValue typeBool
  return (← index e.value 0) = 1

def uuid : Run Err UUID := do
  e.check typeUUID
  UUID.ofBytes e.value

def utf8 : Run Err Bytes := do
  e.checkValue typeUTF8
  return e.value

def bytes : Run Err Bytes := do
  e.check typeBytes
  return e.value

def nested : Run Err (List Entry) := do
  e.check typeTLV
  mapErr e.errorf (decode e.value)

end Entry

-- A field of a registry. `nested` is the registry of the entries nested in a tlv value, a list of tags
-- with their fields.
inductive Field
  | mk (name : String) (type : ValueType) (repeatable required : Bool) (since : Nat)
    (nested : Option (List (Nat × Field)))

namespace Field

def name : Field → String
  | mk n _ _ _ _ _ => n

def type : Field → ValueType
  | mk _ t _ _ _ _ => t

def repeatable : Field → Bool
  | mk _ _ r _ _ _ => r

def required : Field → Bool
  | mk _ _ _ r _ _ => r

def since : Field → Nat
  | mk _ _ _ _ s _ => s

def nested : Field → Option (List (Nat × Field))
  | mk _ _ _ _ _ n => n

def opt (name : String) (type : ValueType) : Field :=
  mk name type false false 0 none

def req (name : String) (type : ValueType) : Field :=
  mk name type false true 0 none

def many (name : String) (type : ValueType) : Field :=
  mk name type true false 0 none

end Field

-- A map from tags to fields: its items in ascending order of the tags.
abbrev Registry := List (Nat × Field)

def maxNestingDepth : Nat := 32

-- The entries of a known tag are checked in turn, those of a tlv field by `nested`. The result is the
-- list of the known tags seen.
def validateEntries (nested : Registry → Entry → Run Err Unit) (reg : Registry) (minor : Nat) :
    List Entry → List Nat → Run Err (List Nat)
  | [],      seen => pure seen
  | e :: es, seen =>
    match reg.lookup e.tag with
    | none   => validateEntries nested reg minor es seen
    | some f =>
      if minor < f.since then
        validateEntries nested reg minor es seen
      else do
        e.checkValue f.type
        when (f.type = typeTLV) <|
          match f.nested with
          | some reg' => nested reg' e
          | none => pure ()
        failIf (e.tag ∈ seen ∧ f.repeatable = false) (e.errorf (.sentinel .duplicate))
        validateEntries nested reg minor es (e.tag :: seen)

def checkRequired (minor : Nat) (seen : List Nat) : Registry → Run Err Unit
  | [] => pure ()
  | (tag, f) :: r => do
    failIf (tag ∉ seen ∧ f.required = true ∧ f.since ≤ minor)
      (.entry tag (-1) (.sentinel .missing))
    checkRequired minor seen r

-- The number counts the levels of nesting that are left.
def validateAt (minor : Nat) : Nat → Registry → List Entry → Run Err Unit
  | room, reg, entries => do
    let nested (reg' : Registry) (e : Entry) : Run Err Unit :=
      match room with
      | 0 => fail (e.errorf (.sentinel .depth))
      | r + 1 => do
        let entries ← mapErr e.errorf (decode e.value)
        mapErr e.errorf (validateAt minor r reg' entries)
    let seen ← validateEntries nested reg minor entries []
    checkRequired minor seen reg

def validateMinor (entries : List Entry) (reg : Registry) (minor : Nat) : Run Err Unit :=
  validateAt minor maxNestingDepth reg entries

def validate (entries : List Entry) (reg : Registry) : Run Err Unit :=
  validateMinor entries reg (2 ^ 16 - 1)

-- Whether the registry holds a tag of a later minor, within the levels that are left.
def definesAfter (minor : Nat) : Nat → Registry → Bool
  | 0,        _   => false
  | room + 1, reg =>
    reg.any fun (_, f) => minor < f.since || f.nested.any (definesAfter minor room)

mutual

-- The loop of `AtMinor`.
def viewItems (minor : Nat) : Registry → Registry
  | [] => []
  | (tag, f) :: reg =>
    if minor < f.since then viewItems minor reg
    else (tag, viewField minor f) :: viewItems minor reg

def viewField (minor : Nat) : Field → Field
  | .mk name type repeatable required since nested =>
    .mk name type repeatable required since (viewNested minor nested)

-- The view of a nested registry is that of `AtMinor`, which looks for later tags again.
def viewNested (minor : Nat) : Option Registry → Option Registry
  | none => none
  | some reg =>
    if definesAfter minor maxNestingDepth reg then
      some (if definesAfter minor (maxNestingDepth + 1) reg then viewItems minor reg else reg)
    else some reg

end

def atMinor (minor : Nat) (reg : Registry) : Registry :=
  if definesAfter minor (maxNestingDepth + 1) reg then viewItems minor reg else reg

def epoch : Registry :=
  [(0x0001, .req "epoch" typeU64),
   (0x0002, .req "record_count" typeU64),
   (0x0003, .req "seq_first" typeU64),
   (0x0004, .req "seq_last" typeU64),
   (0x0005, .req "ts_min" typeI64),
   (0x0006, .req "ts_max" typeI64),
   (0x0007, .opt "close_seq" typeU64)]

def boundary : Registry :=
  [(0x0001, .req "seq" typeU64),
   (0x0002, .req "boundary_kind" typeU8),
   (0x0003, .req "ts" typeI64),
   (0x0004, .req "epoch" typeU64),
   (0x0005, .opt "gap_start" typeI64),
   (0x0006, .opt "gap_end" typeI64)]

def f3 : Registry :=
  [(0x0001, .req "kind_counts" typeBytes),
   (0x0002, .req "dir_counts" typeBytes),
   (0x0003, .req "decode_status_counts" typeBytes),
   (0x0005, .req "quality_union" typeU64),
   (0x0007, .mk "epoch" typeTLV true true 0 (some epoch)),
   (0x0008, .mk "boundary" typeTLV true false 0 (some boundary)),
   (0x0009, .many "seq_range" typeBytes)]

def f5 : Registry :=
  [(0x0001, .opt "record_count" typeU64),
   (0x0002, .opt "kind_counts" typeBytes),
   (0x0003, .opt "dir_counts" typeBytes),
   (0x0004, .opt "decode_status_counts" typeBytes),
   (0x0005, .opt "ts_min" typeI64),
   (0x0006, .opt "ts_max" typeI64),
   (0x0007, .opt "content_bytes" typeU64),
   (0x0008, .opt "quality_union" typeU64),
   (0x0009, .many "seq_range" typeBytes),
   (0x000A, .mk "epoch" typeTLV true false 0 (some epoch)),
   (0x000B, .mk "boundary" typeTLV true false 0 (some boundary))]

-- `tlv.F3[tag].Name` and its like, empty for an unknown tag.
def Registry.nameOf (reg : Registry) (tag : Nat) : String :=
  (reg.lookup tag).elim "" Field.name

structure SeqRange where
  first : Nat
  last  : Nat
deriving DecidableEq

def appendU32Array (counts : List Nat) : Bytes :=
  counts.flatMap (bytes 4)

def appendU64Array (counts : List Nat) : Bytes :=
  counts.flatMap (bytes 8)

def appendSeqRange (r : SeqRange) : Bytes :=
  bytes 8 r.first ++ bytes 8 r.last

-- The elements of `w` bytes each from element `i` on, of which `n` are left.
def elements (w : Nat) (b : Bytes) : Nat → Nat → Run Err (List Nat)
  | 0,     _ => pure []
  | n + 1, i => do
    let v ← uint b (w * i) (w * i + w)
    return v :: (← elements w b n (i + 1))

def decodeU32Array (b : Bytes) : Run Err (List Nat) := do
  failIf (b.length % 4 ≠ 0) (.wrap "u32 array of %d bytes: %w" [.nat b.length] (.sentinel .length))
  elements 4 b (b.length / 4) 0

def checkElements : List Nat → Nat → Run Err Unit
  | [],      _ => pure ()
  | v :: vs, i => do
    failIf (maxU64 < v) (.wrap "u64 array element %d: %w" [.nat i] (.sentinel .u64Limit))
    checkElements vs (i + 1)

def decodeU64Array (b : Bytes) : Run Err (List Nat) := do
  failIf (b.length % 8 ≠ 0) (.wrap "u64 array of %d bytes: %w" [.nat b.length] (.sentinel .length))
  let out ← elements 8 b (b.length / 8) 0
  checkElements out 0
  return out

def decodeSeqRange (b : Bytes) : Run Err SeqRange := do
  failIf (b.length ≠ 16) (.wrap "seq range of %d bytes: %w" [.nat b.length] (.sentinel .length))
  let r : SeqRange := { first := ← uint b 0 8, last := ← uint b 8 16 }
  failIf (maxU64 < r.first ∨ maxU64 < r.last) (.wrap "seq range: %w" [] (.sentinel .u64Limit))
  return r

end Tracepack.Tlv
