import GoSecs.Secs2.Encode

open Ieee754 Strconv

namespace Secs2

inductive IntKind
  | int
  | int8
  | int16
  | int32
  | int64
  | uint
  | uint8
  | uint16
  | uint32
  | uint64
deriving DecidableEq

namespace IntKind

def signed : IntKind → Bool
  | int | int8 | int16 | int32 | int64 => true
  | _ => false

def bits : IntKind → Nat
  | int | int64 | uint | uint64 => 64
  | int8 | uint8 => 8
  | int16 | uint16 => 16
  | int32 | uint32 => 32

def min (k : IntKind) : Int :=
  if k.signed then -2 ^ (k.bits - 1) else 0

def max (k : IntKind) : Int :=
  if k.signed then 2 ^ (k.bits - 1) - 1 else 2 ^ k.bits - 1

def wide : IntKind → Bool
  | int | int64 | uint | uint64 => true
  | _ => false

end IntKind

structure IntValue (k : IntKind) where
  val    : Int
  min_le : k.min ≤ val
  le_max : val ≤ k.max

-- An argument of type `any`, by its dynamic type.
inductive Arg
  | int      (k : IntKind) (v : IntValue k)
  | ints     (k : IntKind) (vs : List (IntValue k))
  | float32  (v : F32)
  | float32s (vs : List F32)
  | float64  (v : F64)
  | float64s (vs : List F64)
  | string   (s : Bytes)
  | strings  (ss : List Bytes)
  | bool     (b : Bool)
  | bools    (bs : List Bool)
  | other

abbrev Collected (α : Type) := List α × Option Err

-- Appends what each element yields, up to and including the first element with an error.
def collect {α β : Type} (f : β → Collected α) : List β → Collected α
  | [] => ([], none)
  | b :: bs =>
    match (f b).2 with
    | some e => ((f b).1, some e)
    | none   => ((f b).1 ++ (collect f bs).1, (collect f bs).2)

def one {α : Type} (a : α) : Collected α :=
  ([a], none)

def fail {α : Type} (e : Err) : Collected α :=
  ([], some e)

section Integers

def clampInt64 (v minVal maxVal : Int) : Int :=
  if v < minVal then minVal else if v > maxVal then maxVal else v

def clampUint64 (v maxVal : Nat) : Nat :=
  if v > maxVal then maxVal else v

def minInt (byteSize : Nat) : Int :=
  -2 ^ (byteSize * 8 - 1)

def maxInt (byteSize : Nat) : Int :=
  2 ^ (byteSize * 8 - 1) - 1

def maxUint (byteSize : Nat) : Nat :=
  2 ^ (byteSize * 8) - 1

-- A `uint` or `uint64` can exceed the range of int64, so it is compared unsigned.
def toIntValue (byteSize : Nat) {k : IntKind} (v : IntValue k) : Int :=
  match k with
  | .uint | .uint64 => if v.val > maxInt byteSize then maxInt byteSize else v.val
  | _ => clampInt64 v.val (minInt byteSize) (maxInt byteSize)

def intOfString (byteSize : Nat) (s : Bytes) : Collected Int :=
  match parseInt s 0 64 with
  | (_, some .errSyntax) => fail (.num "ParseInt" s .errSyntax)
  | (v, _) => one (clampInt64 v (minInt byteSize) (maxInt byteSize))

def combineIntValue (byteSize : Nat) : Arg → Collected Int
  | .int _ v => one (toIntValue byteSize v)
  | .ints _ vs => collect (fun v => one (toIntValue byteSize v)) vs
  | .string s => intOfString byteSize s
  | .strings ss => collect (intOfString byteSize) ss
  | _ => fail (.msg "input argument contains invalid type for IntItem")

def combineIntValues (byteSize : Nat) (values : List Arg) : Collected Int :=
  collect (combineIntValue byteSize) values

def intScalarFastPath (byteSize : Nat) : List Arg → Option Int
  | [.int _ v] => some (toIntValue byteSize v)
  | _ => none

def toUintValue (byteSize : Nat) {k : IntKind} (v : IntValue k) : Collected Nat :=
  if v.val < 0 then
    fail (.msg "negative value not allowed for UintItem")
  else
    one (clampUint64 v.val.toNat (maxUint byteSize))

def uintOfString (byteSize : Nat) (s : Bytes) : Collected Nat :=
  match parseUint s 0 64 with
  | (_, some .errSyntax) => fail (.num "ParseUint" s .errSyntax)
  | (v, _) => one (clampUint64 v (maxUint byteSize))

def combineUintValue (byteSize : Nat) : Arg → Collected Nat
  | .int _ v => toUintValue byteSize v
  | .ints _ vs => collect (toUintValue byteSize) vs
  | .string s => uintOfString byteSize s
  | .strings ss => collect (uintOfString byteSize) ss
  | _ => fail (.msg "input argument contains invalid type for UintItem")

def combineUintValues (byteSize : Nat) (values : List Arg) : Collected Nat :=
  collect (combineUintValue byteSize) values

end Integers

section Floats

-- The bits of `math.MaxFloat32` as a binary64.
def maxFloat32 : F64 :=
  0x47EFFFFFE0000000

-- Clamps the magnitude of a finite value, which its bits below the sign order.
def clampF4 (v : F64) : F64 :=
  if isFinite v ∧ v.toNat % 2 ^ 63 > maxFloat32.toNat then
    .ofNat 64 (v.toNat / 2 ^ 63 * 2 ^ 63 + maxFloat32.toNat)
  else
    v

def toFloatValue (byteSize : Nat) (v : F64) : F64 :=
  if byteSize = 4 then clampF4 v else v

def floatOfInt {k : IntKind} (v : IntValue k) : Collected F64 :=
  if k.wide ∧ (v.val > 2 ^ 53 ∨ v.val < -2 ^ 53) then
    fail (.msg "value overflow")
  else
    one (ofInt v.val)

-- `strconv.ParseFloat(s, 64)`: the value, or the kind of the error.
variable (parseFloat : Bytes → Except NumErr F64)

def floatOfString (byteSize : Nat) (s : Bytes) : Collected F64 :=
  match parseFloat s with
  | .error e => fail (.num "ParseFloat" s e)
  | .ok v    => one (toFloatValue byteSize v)

def combineFloatValue (byteSize : Nat) : Arg → Collected F64
  | .float32 v => one (widen v)
  | .float64 v => one (toFloatValue byteSize v)
  | .float32s vs => (vs.map widen, none)
  | .float64s vs => (vs.map (toFloatValue byteSize), none)
  | .int _ v => floatOfInt v
  | .ints _ vs => collect floatOfInt vs
  | .string s => floatOfString parseFloat byteSize s
  | .strings ss => collect (floatOfString parseFloat byteSize) ss
  | _ => fail (.msg "input argument contains invalid type for FloatItem")

def combineFloatValues (byteSize : Nat) (values : List Arg) : Collected F64 :=
  collect (combineFloatValue parseFloat byteSize) values

end Floats

def combineBoolValue : Arg → Collected Bool
  | .bool b => one b
  | .bools bs => (bs, none)
  | _ => fail (.msg "input argument contains invalid type for BooleanItem")

def combineBoolValues (values : List Arg) : Collected Bool :=
  collect combineBoolValue values

def toByte (v : Int) : Collected UInt8 :=
  if v < 0 ∨ v > 255 then
    fail (.msg s!"the value {v} out of range, must between [0, 255]")
  else
    one (UInt8.ofNat v.toNat)

def combineBinaryValue : Arg → Collected UInt8
  | .int .int v => toByte v.val
  | .int .uint8 v => one (UInt8.ofNat v.val.toNat)
  | .ints .uint8 vs => (vs.map fun v => UInt8.ofNat v.val.toNat, none)
  | .string s =>
    match parseInt s 0 0 with
    | (_, some e) => fail (.num "ParseInt" s e)
    | (v, none)   => toByte v
  | _ => fail (.msg "input argument contains invalid type for BinaryItem")

def combineBinaryValues (values : List Arg) : Collected UInt8 :=
  collect combineBinaryValue values

-- The size limit is checked on the length that the header would announce.
def limited (l : Leaf) : Item :=
  if l.lengthField > maxByteSize then
    .leaf (Base.setErrorMsg {} "item size limit exceeded") l
  else
    .leaf {} l

-- What the numeric constructors and the boolean one do with their converted arguments.
def ofCollected {α : Type} [Inhabited α] (mk : Vec α → Leaf) : Collected α → Item
  | (vs, some e) => .leaf (Base.setError {} e) (mk (.unsized vs))
  | (vs, none)   => limited (mk (.ofValues vs))

-- `uint32(byteSize)`
def toUint32 (byteSize : Int) : Nat :=
  (byteSize % 2 ^ 32).toNat

def badByteSize {α : Type} [Inhabited α] (mk : Vec α → Leaf) : Item :=
  .leaf (Base.setErrorMsg {} "invalid byte size") (mk (.unsized []))

def newIntItem (byteSize : Int) (values : List Arg) : Item :=
  if byteSize ≠ 1 ∧ byteSize ≠ 2 ∧ byteSize ≠ 4 ∧ byteSize ≠ 8 then
    badByteSize (.int (toUint32 byteSize))
  else
    match intScalarFastPath (toUint32 byteSize) values with
    | some v => limited (.int (toUint32 byteSize) { size := 1, scalar := v, values := [] })
    | none   =>
      ofCollected (.int (toUint32 byteSize)) (combineIntValues (toUint32 byteSize) values)

def newUintItem (byteSize : Int) (values : List Arg) : Item :=
  if byteSize ≠ 1 ∧ byteSize ≠ 2 ∧ byteSize ≠ 4 ∧ byteSize ≠ 8 then
    badByteSize (.uint (toUint32 byteSize))
  else
    ofCollected (.uint (toUint32 byteSize)) (combineUintValues (toUint32 byteSize) values)

def newFloatItem (parseFloat : Bytes → Except NumErr F64) (byteSize : Int) (values : List Arg) :
    Item :=
  if byteSize ≠ 4 ∧ byteSize ≠ 8 then
    badByteSize (.float (toUint32 byteSize))
  else
    ofCollected (.float (toUint32 byteSize))
      (combineFloatValues parseFloat (toUint32 byteSize) values)

def newBooleanItem (values : List Arg) : Item :=
  ofCollected .boolean (combineBoolValues values)

def newBinaryItem (values : List Arg) : Item :=
  match combineBinaryValues values with
  | (vs, some e) => .leaf (Base.setError {} e) (.binary vs)
  | (vs, none)   => limited (.binary vs)

-- The value of an overlong string is dropped.
def newASCIIItem (value : Bytes) : Item :=
  if value.length > maxByteSize then
    .leaf (Base.setErrorMsg {} "string length limit exceeded") (.ascii [])
  else
    .leaf {} (.ascii value)

def newJIS8Item (value : Bytes) : Item :=
  if value.length > maxByteSize then
    .leaf (Base.setErrorMsg {} "string length limit exceeded") (.jis8 [])
  else
    .leaf {} (.jis8 value)

def newLocalizedStrItem (lsh : UInt16) (value : Bytes) : Item :=
  if value.length + 2 > maxByteSize then
    .leaf (Base.setErrorMsg {}
      s!"item string is too long: {value.length + 2} > {maxByteSize}") (.localizedStr 0 [] false)
  else
    .leaf {} (.localizedStr lsh value false)

def newEmptyLocalizedStrItem : Item :=
  .leaf {} (.localizedStr 0 [] true)

def lshUTF8 : UInt16 :=
  2

def newUTF8StrItem (value : Bytes) : Item :=
  newLocalizedStrItem lshUTF8 value

def newEmptyItem : Item :=
  .empty

-- A child keeps its list clean when it carries no error anywhere and can be encoded.
def childClean : Item → Bool
  | .empty => false
  | .leaf b _ => b.itemErr.isNone
  | .list b clean _ => b.itemErr.isNone && clean

-- A nil child is skipped.
def newListItem (values : List (Option Item)) : Item :=
  if values.length > maxByteSize then
    .list (Base.setErrorMsg {} "item size limit exceeded") false []
  else
    .list {} (values.reduceOption.all childClean) values.reduceOption

def newErrorItem (err : Option Err) : Item :=
  .list { itemErr := some (.item (err.getD (.msg "secs2: nil error"))) } false []

end Secs2
