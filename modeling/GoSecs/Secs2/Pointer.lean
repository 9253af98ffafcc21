import GoSecs.Secs2.Built

open Ieee754 Strconv

namespace Secs2

-- An item whose lists also hold nil pointers of the concrete item types, which are `none`.
inductive Node
  | empty
  | leaf (base : Base) (value : Leaf)
  | list (base : Base) (clean : Bool) (values : List (Option Node))

namespace Node

def isEmpty : Node → Bool
  | empty => true
  | _ => false

def error : Node → Option Err
  | empty => none
  | leaf b _ => b.itemErr
  | list b clean vs => if clean then none else errors vs (Err.joined [none, b.itemErr])
where
  errors : List (Option Node) → Option Err → Option Err
    | [],           errs => errs
    | none :: vs,   errs => errors vs <| Err.joined [errs, some (.msg "secs2: list contains nil item")]
    | some v :: vs, errs =>
      errors vs <| Err.joined [errs,
        if v.isEmpty then
          some (.item (.msg "secs2: empty item is not valid as a list child"))
        else
          v.error]

-- A nil pointer is not clean, so a list that holds one is always traversed for its error.
def childClean : Option Node → Bool
  | none => false
  | some .empty => false
  | some (.leaf b _) => b.itemErr.isNone
  | some (.list b clean _) => b.itemErr.isNone && clean

-- Only a nil interface is skipped.
def newListItem (values : List (Option (Option Node))) : Node :=
  if values.length > maxByteSize then
    .list (Base.setErrorMsg {} "item size limit exceeded") false []
  else
    .list {} (values.reduceOption.all childClean) values.reduceOption

def itemAt : Node → Int → Except Err (Option Node)
  | empty,       _ => .error (Base.typeErr {} "ItemAt")
  | leaf b _,    _ => .error (b.typeErr "ItemAt")
  | list b _ vs, i =>
    match b.itemErr with
    | some e => .error e
    | none   =>
      if i < 0 then
        .error (.item (.msg "index out of range"))
      else
        match vs[i.toNat]? with
        | some v => .ok v
        | none   => .error (.item (.msg "index out of range"))

-- The error that an item carries itself.
def ownError : Node → Option Err
  | empty => none
  | leaf b _ => b.itemErr
  | list b _ _ => b.itemErr

-- What a walk down the children of an item gets to, itself included.
inductive Reaches : Option Node → Option Node → Prop
  | refl {v} : Reaches v v
  | child {b clean vs w v} : w ∈ vs → Reaches w v → Reaches (some (.list b clean vs)) v

end Node

def Item.node : Item → Node
  | empty => .empty
  | leaf b l => .leaf b l
  | list b clean vs => .list b clean (nodes vs)
where
  nodes : List Item → List (Option Node)
    | [] => []
    | v :: vs => some v.node :: nodes vs

-- Item values as a program obtains them, nil pointers included.
inductive Obtained (parseFloat : Bytes → Except NumErr F64) : Option Node → Prop
  | nil : Obtained parseFloat none
  | item {x} : Built parseFloat x → Obtained parseFloat (some x.node)
  | list {values : List (Option (Option Node))} :
    (∀ v, some v ∈ values → Obtained parseFloat v) →
    Obtained parseFloat (some (.newListItem values))
  | child {x i v} : Obtained parseFloat (some x) → x.itemAt i = .ok v → Obtained parseFloat v

end Secs2
