import GoSecs.Secs2.Item

open Ieee754

namespace Secs2

-- A lone value is compared in its own field, any other number of them as slices.
def Vec.equal {α : Type} [DecidableEq α] (a b : Vec α) : Bool :=
  if a.size = 1 then a.scalar = b.scalar else a.values = b.values

-- The bits that go on the wire: those of a binary32 for F4.
def wireBits (byteSize : Nat) (v : F64) : Nat :=
  if byteSize = 4 then (narrow v).toNat else v.toNat

namespace Leaf

def equal : Leaf → Leaf → Bool
  | int _ a,              int _ b => a.equal b
  | uint _ a,             uint _ b => a.equal b
  | float w a,            float _ b => a.toList.map (wireBits w) = b.toList.map (wireBits w)
  | boolean a,            boolean b => a.equal b
  | binary a,             binary b => a = b
  | ascii a,              ascii b => a = b
  | jis8 a,               jis8 b => a = b
  | localizedStr lsh a _, localizedStr lsh' b _ => a = b && lsh = lsh'
  | _,                    _ => false

end Leaf

namespace Item

-- What `Equal` asks of its operands before it compares values.
def comparable (a b : Item) : Bool :=
  a.error.isNone && b.error.isNone && a.type = b.type && a.size = b.size

def equal : Item → Item → Bool
  | empty,           b => comparable empty b && b.isEmpty
  | leaf ba la,      b =>
    comparable (leaf ba la) b &&
      match b with
      | leaf _ lb => la.equal lb
      | _ => false
  | list ba ca xs,   b =>
    comparable (list ba ca xs) b &&
      match b with
      | list bb _ ys =>
        -- `ToList` of an operand yields no children when its own error is set.
        (if ba.itemErr.isSome then [] else xs).length = (if bb.itemErr.isSome then [] else ys).length &&
          (ba.itemErr.isSome || equals xs ys)
      | _ => false
where
  equals : List Item → List Item → Bool
    | [],      _ => true
    | _,       [] => true
    | x :: xs, y :: ys => x.equal y && equals xs ys

end Item
end Secs2
