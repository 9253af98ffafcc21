import GoSecs.Secs2.Built
import GoSecs.Sml.Encoder

-- The text that the items of `secs2` give of themselves, next to that of the encoder.

open Utf8 Strings Strconv Ieee754

namespace Secs2

open Sml

def spaced {α : Type} (f : α → Bytes) : List α → Bytes
  | [] => []
  | v :: vs => f v ++ vs.flatMap fun v => ascii " " ++ f v

-- The text of a numeric or boolean item. `Grow` panics on a negative count, which a size that has
-- wrapped around can give.
def Vec.toSML {α : Type} (name : Bytes) (perValue rest : Int) (f : α → Bytes) (v : Vec α) :
    Option Bytes :=
  if v.size = 0 then
    some (ascii "<" ++ name ++ ascii "[0]>")
  else if v.size * perValue + rest < 0 then
    none
  else
    some (ascii "<" ++ name ++ ascii "[" ++ formatInt v.size ++ ascii "] " ++
      (if v.size = 1 then f v.scalar else spaced f v.values) ++ ascii ">")

def boolSML (b : Bool) : Bytes :=
  if b then ascii "True" else ascii "False"

variable (formatFloat : Nat → Nat → F64 → Bytes) (isPrint : Nat → Bool)

def Leaf.toSML : Leaf → Option Bytes
  | .ascii s =>
    some (if s = [] then
      Strings.ascii "<A[0] \"\">"
    else
      Strings.ascii "<A[" ++ formatUint s.length ++ Strings.ascii "] \"" ++ s ++ Strings.ascii "\">")
  | .jis8 s => some (jis8SML s)
  | .localizedStr lsh s noLSH => some (localizedStrSML isPrint lsh s noLSH)
  | .binary s =>
    some (if s = [] then
      Strings.ascii "<B[0]>"
    else
      Strings.ascii "<B[" ++ formatUint s.length ++ Strings.ascii "] " ++ spaced hexToken s ++
        Strings.ascii ">")
  | .boolean v => v.toSML (Strings.ascii "BOOLEAN") 6 12 boolSML
  | .int w v => v.toSML (Strings.ascii "I" ++ formatUint w) 10 10 formatInt
  | .uint w v => v.toSML (Strings.ascii "U" ++ formatUint w) 10 10 formatUint
  | .float w v =>
    v.toSML (Strings.ascii "F" ++ formatUint w) (w * 2 + 3) 10
      (formatFloat (if w = 8 then 17 else 9) (w * 8))

def indentStr (level : Nat) : Bytes :=
  (List.replicate level (ascii "  ")).flatten

-- An item that is not a list, or that carries an error, has no text. Nor has a list with such a child.
def formatListSML : Item → Nat → Option Bytes
  | .empty,            _ => some []
  | .leaf _ _,         _ => some []
  | .list b clean vs, level =>
    if (Item.list b clean vs).error.isSome then
      some []
    else if vs.length = 0 then
      some (indentStr level ++ ascii "<L[0]>")
    else do
      -- `ItemAt` fails on a list that carries an error itself.
      match ← if b.itemErr.isSome then some none else children vs level with
      | none => some []
      | some text =>
        some (indentStr level ++ ascii "<L[" ++ formatUint vs.length ++ ascii "]\n" ++ text ++
          indentStr level ++ ascii ">")
where
  -- The lines of the children, or nothing if one of them makes the list have no text.
  children : List Item → Nat → Option (Option Bytes)
    | [],      _ => some (some [])
    | v :: vs, level =>
      if v.error.isSome then
        some none
      else
        match v with
        | .list b c us => do
          let nested ← formatListSML (.list b c us) (level + 1)
          if nested = [] then some none
          else (children vs level).map (Option.map (nested ++ ascii "\n" ++ ·))
        | .leaf _ l => do
          let text ← l.toSML formatFloat isPrint
          (children vs level).map
            (Option.map (indentStr level ++ ascii "  " ++ text ++ ascii "\n" ++ ·))
        | .empty =>
          (children vs level).map (Option.map (indentStr level ++ ascii "  " ++ ascii "\n" ++ ·))

-- The text of an item, or nothing if building it panics.
def Item.toSML : Item → Option Bytes
  | .empty => some []
  | .leaf _ l => l.toSML formatFloat isPrint
  | .list b c vs => formatListSML formatFloat isPrint (.list b c vs) 0

-- Items as a program composes them: beside those of `Built`, the zero values of the exported types.
inductive Composed (parseFloat : Bytes → Except NumErr F64) : Item → Prop
  | built {x} : Built parseFloat x → Composed parseFloat x
  | zeroInt   : Composed parseFloat (.leaf {} (.int 0 (.unsized [])))
  | zeroUint  : Composed parseFloat (.leaf {} (.uint 0 (.unsized [])))
  | zeroFloat : Composed parseFloat (.leaf {} (.float 0 (.unsized [])))
  | zeroList  : Composed parseFloat (.list {} false [])
  | list {values : List (Option Item)} :
    (∀ v, some v ∈ values → Composed parseFloat v) → Composed parseFloat (newListItem values)
  | child {x i c} : Composed parseFloat x → x.itemAt i = .ok c → Composed parseFloat c

end Secs2

namespace Sml.Encoder

open Secs2

variable (e : Encoder) (formatFloat : Nat → Nat → F64 → Bytes) (isPrint : Nat → Bool)

-- `encodeItem` has no other error.
def encode (it : Item) : Bytes :=
  match e.encodeItem formatFloat isPrint it 0 with
  | .ok text => text
  | .error _ =>
    ascii "<!sml encode error: sml: list nesting depth exceeds maximum allowed: " ++
      formatUint maxListDepth ++ ascii ">"

end Sml.Encoder
