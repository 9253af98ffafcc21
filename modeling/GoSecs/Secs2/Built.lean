import GoSecs.Secs2.Constructors
import GoSecs.Secs2.Decode

open Ieee754 Strconv

namespace Secs2

-- Items as a program obtains them: from the constructors of the package, from a previous decoding,
-- and as children of such items.
inductive Built (parseFloat : Bytes → Except NumErr F64) : Item → Prop
  | empty : Built parseFloat newEmptyItem
  | int (byteSize values) : Built parseFloat (newIntItem byteSize values)
  | uint (byteSize values) : Built parseFloat (newUintItem byteSize values)
  | float (byteSize values) : Built parseFloat (newFloatItem parseFloat byteSize values)
  | boolean (values) : Built parseFloat (newBooleanItem values)
  | binary (values) : Built parseFloat (newBinaryItem values)
  | ascii (value) : Built parseFloat (newASCIIItem value)
  | jis8 (value) : Built parseFloat (newJIS8Item value)
  | localizedStr (lsh value) : Built parseFloat (newLocalizedStrItem lsh value)
  | emptyLocalizedStr : Built parseFloat newEmptyLocalizedStrItem
  | error (err) : Built parseFloat (newErrorItem err)
  | list {values : List (Option Item)} :
    (∀ v, some v ∈ values → Built parseFloat v) → Built parseFloat (newListItem values)
  | decode {data x} : decode data = .ok x → Built parseFloat x
  | child {x i c} : Built parseFloat x → x.itemAt i = .ok c → Built parseFloat c

inductive Item.Leaves (P : Leaf → Prop) : Item → Prop
  | empty : Item.Leaves P .empty
  | leaf {b l} : P l → Item.Leaves P (.leaf b l)
  | list {b c vs} : (∀ v ∈ vs, Item.Leaves P v) → Item.Leaves P (.list b c vs)

-- The size of a numeric or boolean item is an int32, so it is only meaningful below `2 ^ 31`.
def Leaf.Small : Leaf → Prop
  | .boolean v => v.values.length < 2 ^ 31
  | .int _ v => v.values.length < 2 ^ 31
  | .uint _ v => v.values.length < 2 ^ 31
  | .float _ v => v.values.length < 2 ^ 31
  | _ => True

def Item.Small (x : Item) : Prop :=
  x.Leaves Leaf.Small

end Secs2
