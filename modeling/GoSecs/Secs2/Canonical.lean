import GoSecs.Secs2.Built
import GoSecs.Secs2.Equal

open Ieee754 Strconv

namespace Secs2

-- The item without the bytes that it or a child of it was read from.
def Item.canonical : Item → Item
  | empty => .empty
  | leaf b l => .leaf { b with raw := [] } l
  | list b clean vs => .list { b with raw := [] } clean (canonicals vs)
where
  canonicals : List Item → List Item
    | [] => []
    | v :: vs => v.canonical :: canonicals vs

structure SoundItem (parseFloat : Bytes → Except NumErr F64) where
  item  : Item
  built : Built parseFloat item
  small : item.Small
  error : item.error = none

-- What an item transmits, whatever it was built from.
inductive WireValue
  | empty
  | leaf (fc : FormatCode) (payload : Bytes)
  | list (values : List WireValue)

namespace WireValue

def header (fc : FormatCode) (n : Nat) : Bytes :=
  formatByte fc (lengthBytes n).length :: lengthBytes n

def encode : WireValue → Bytes
  | empty => []
  | leaf fc payload => header fc payload.length ++ payload
  | list vs => header .list vs.length ++ encodes vs
where
  encodes : List WireValue → Bytes
    | [] => []
    | v :: vs => v.encode ++ encodes vs

-- The lengths can be announced, and there is no empty item in a list.
inductive Sized : WireValue → Prop
  | leaf {fc payload} : fc ≠ .list → payload.length ≤ maxByteSize → Sized (.leaf fc payload)
  | list {vs} : vs.length ≤ maxByteSize → (∀ v ∈ vs, Sized v) → Sized (.list vs)

theorem induct {P : WireValue → Prop} (empty : P .empty) (leaf : ∀ fc p, P (.leaf fc p))
    (list : ∀ vs, (∀ v ∈ vs, P v) → P (.list vs)) (x : WireValue) : P x := by
  refine WireValue.rec (motive_1 := P) (motive_2 := fun vs => ∀ v ∈ vs, P v) empty leaf
    (fun vs => list vs) (by simp) ?_ x
  intro v vs hv hvs w hw
  cases hw
  case head    => exact hv
  case tail hw => exact hvs w hw

end WireValue

-- A leaf without a format code transmits nothing.
def Leaf.wireValue (l : Leaf) : WireValue :=
  match l.formatCode with
  | some fc => .leaf fc l.payload
  | none    => .empty

def Item.wireValue : Item → WireValue
  | empty => .empty
  | leaf _ l => l.wireValue
  | list _ _ vs => .list (wireValues vs)
where
  wireValues : List Item → List WireValue
    | [] => []
    | v :: vs => v.wireValue :: wireValues vs

end Secs2
