import GoSecs.Lib.BigEndian
import GoSecs.Lib.Ieee754
import GoSecs.Lib.Strconv

namespace Secs2

abbrev Bytes := List UInt8

def maxByteSize : Nat :=
  2 ^ 24 - 1

inductive FormatCode
  | list
  | binary
  | boolean
  | ascii
  | jis8
  | localizedStr
  | int64
  | int8
  | int16
  | int32
  | float64
  | float32
  | uint64
  | uint8
  | uint16
  | uint32
deriving DecidableEq

namespace FormatCode

def code : FormatCode → Nat
  | list => 0o00
  | binary => 0o10
  | boolean => 0o11
  | ascii => 0o20
  | jis8 => 0o21
  | localizedStr => 0o22
  | int64 => 0o30
  | int8 => 0o31
  | int16 => 0o32
  | int32 => 0o34
  | float64 => 0o40
  | float32 => 0o44
  | uint64 => 0o50
  | uint8 => 0o51
  | uint16 => 0o52
  | uint32 => 0o54

def ofCode : Nat → Option FormatCode
  | 0o00 => list
  | 0o10 => binary
  | 0o11 => boolean
  | 0o20 => ascii
  | 0o21 => jis8
  | 0o22 => localizedStr
  | 0o30 => int64
  | 0o31 => int8
  | 0o32 => int16
  | 0o34 => int32
  | 0o40 => float64
  | 0o44 => float32
  | 0o50 => uint64
  | 0o51 => uint8
  | 0o52 => uint16
  | 0o54 => uint32
  | _    => none

-- The type names that `FormatCode.String` and `Item.Type` share.
def string : FormatCode → String
  | list => "list"
  | binary => "binary"
  | boolean => "boolean"
  | ascii => "ascii"
  | jis8 => "jis8"
  | localizedStr => "localized_str"
  | int64 => "i8"
  | int8 => "i1"
  | int16 => "i2"
  | int32 => "i4"
  | float64 => "f8"
  | float32 => "f4"
  | uint64 => "u8"
  | uint8 => "u1"
  | uint16 => "u2"
  | uint32 => "u4"

theorem ofCode_code (fc : FormatCode) : ofCode fc.code = some fc := by
  cases fc <;> rfl

theorem code_lt (fc : FormatCode) : fc.code < 64 := by
  cases fc <;> decide

theorem code_of_ofCode {n : Nat} {fc : FormatCode} (h : ofCode n = some fc) : fc.code = n := by
  unfold ofCode at h
  split at h <;> cases h <;> rfl

end FormatCode

-- An error value. A nil `error` is `none` where an `Option Err` is used.
inductive Err
  | msg  (text : String)
  | num  (func : String) (input : Bytes) (err : Strconv.NumErr)
  | item (err : Err)
  | join (errs : List Err)

-- `errors.Join`
def Err.joined (errs : List (Option Err)) : Option Err :=
  match errs.reduceOption with
  | [] => none
  | e :: es => some (.join (e :: es))

-- A nil raw pointer is an empty `raw`: `setRaw` stores no pointer for an empty slice.
structure Base where
  itemErr : Option Err := none
  raw : Bytes := []

def Base.setError (b : Base) (err : Err) : Base :=
  { b with itemErr := Err.joined [b.itemErr, some (.item err)] }

def Base.setErrorMsg (b : Base) (msg : String) : Base :=
  b.setError (.msg msg)

def Base.typeErr (b : Base) (method : String) : Err :=
  b.itemErr.getD (.item (.msg ("method " ++ method ++ " not supported by this item type")))

-- `int32(n)`
@[irreducible]
def int32 (n : Int) : Int :=
  n.bmod (2 ^ 32)

-- The values of a numeric or boolean item. A lone value is stored in `scalar`, with no slice.
structure Vec (α : Type) where
  size   : Int
  scalar : α
  values : List α
deriving DecidableEq

namespace Vec

variable {α : Type}

def ofValues [Inhabited α] (vs : List α) : Vec α :=
  if int32 vs.length = 1 then
    { size := 1, scalar := vs.headD default, values := [] }
  else
    { size := int32 vs.length, scalar := default, values := vs }

-- What a constructor leaves behind when one of its arguments is not convertible.
def unsized [Inhabited α] (vs : List α) : Vec α :=
  { size := 0, scalar := default, values := vs }

def toList (v : Vec α) : List α :=
  if v.size = 0 then [] else if v.size = 1 then [v.scalar] else v.values

end Vec

-- An item without children, apart from what all of them embed.
inductive Leaf
  | ascii        (value : Bytes)
  | jis8         (value : Bytes)
  | localizedStr (lsh : UInt16) (value : Bytes) (noLSH : Bool)
  | binary       (values : Bytes)
  | boolean      (vec : Vec Bool)
  | int          (byteSize : Nat) (vec : Vec Int)
  | uint         (byteSize : Nat) (vec : Vec Nat)
  | float        (byteSize : Nat) (vec : Vec Ieee754.F64)
deriving DecidableEq

inductive Item
  | empty
  | leaf (base : Base) (value : Leaf)
  | list (base : Base) (clean : Bool) (values : List Item)

def intFormatCode : Nat → Option FormatCode
  | 1 => some .int8
  | 2 => some .int16
  | 4 => some .int32
  | 8 => some .int64
  | _ => none

def uintFormatCode : Nat → Option FormatCode
  | 1 => some .uint8
  | 2 => some .uint16
  | 4 => some .uint32
  | 8 => some .uint64
  | _ => none

def floatFormatCode : Nat → Option FormatCode
  | 4 => some .float32
  | 8 => some .float64
  | _ => none

namespace Leaf

-- Only a numeric item can fail to have a format code: one whose byte size is not a valid one.
def formatCode : Leaf → Option FormatCode
  | ascii .. => some .ascii
  | jis8 .. => some .jis8
  | localizedStr .. => some .localizedStr
  | binary .. => some .binary
  | boolean .. => some .boolean
  | int w _ => intFormatCode w
  | uint w _ => uintFormatCode w
  | float w _ => floatFormatCode w

def type (l : Leaf) : String :=
  match l.formatCode with
  | some fc => fc.string
  | none    => ""

def size : Leaf → Int
  | ascii s | jis8 s | binary s => s.length
  | localizedStr _ s noLSH => if noLSH then 0 else s.length + 2
  | boolean v => v.size
  | int _ v => v.size
  | uint _ v => v.size
  | float _ v => v.size

end Leaf

namespace Item

def isEmpty : Item → Bool
  | empty => true
  | _ => false

def type : Item → String
  | empty => "empty"
  | leaf _ l => l.type
  | list .. => FormatCode.list.string

def size : Item → Int
  | empty => 0
  | leaf _ l => l.size
  | list _ _ vs => vs.length

-- The deferred error of an item. A list that is known to be clean is not traversed.
def error : Item → Option Err
  | empty => none
  | leaf b _ => b.itemErr
  | list b clean vs => if clean then none else errors vs (Err.joined [none, b.itemErr])
where
  errors : List Item → Option Err → Option Err
    | [],      errs => errs
    | v :: vs, errs =>
      errors vs <| Err.joined [errs,
        if v.isEmpty then
          some (.item (.msg "secs2: empty item is not valid as a list child"))
        else
          v.error]

def toList : Item → Except Err (List Item)
  | empty => .error (Base.typeErr {} "ToList")
  | leaf b _ => .error (b.typeErr "ToList")
  | list b _ vs =>
    match b.itemErr with
    | some e => .error e
    | none   => .ok vs

def itemAt : Item → Int → Except Err Item
  | empty,       _ => .error (Base.typeErr {} "ItemAt")
  | leaf b _,    _ => .error (b.typeErr "ItemAt")
  | list b _ vs, i =>
    match b.itemErr with
    | some e => .error e
    | none   =>
      if i < 0 then
        .error (.item (.msg "index out of range"))
      else
        match vs[i.toNat]? with
        | some v => .ok v
        | none   => .error (.item (.msg "index out of range"))

def depth : Item → Nat
  | empty => 0
  | leaf .. => 0
  | list _ _ vs => depths vs + 1
where
  depths : List Item → Nat
    | [] => 0
    | v :: vs => max v.depth (depths vs)

-- Induction over an item, with the hypothesis for every child of a list.
theorem induct {P : Item → Prop} (empty : P .empty) (leaf : ∀ b l, P (.leaf b l))
    (list : ∀ b c vs, (∀ v ∈ vs, P v) → P (.list b c vs)) (x : Item) : P x := by
  refine Item.rec (motive_1 := P) (motive_2 := fun vs => ∀ v ∈ vs, P v) empty leaf
    (fun b c vs => list b c vs) (by simp) ?_ x
  intro v vs hv hvs w hw
  cases hw
  case head    => exact hv
  case tail hw => exact hvs w hw

end Item
end Secs2
