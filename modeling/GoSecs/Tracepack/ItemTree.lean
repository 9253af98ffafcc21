import GoSecs.Tracepack.SecsItem

-- The tree of the items of a text.

namespace Tracepack.SecsItem

inductive Node
  | leaf (code : UInt8) (start body stop : Nat)
  | list (start body stop : Nat) (items : List Node)

def Range.Holds (r : Range) (i : Nat) : Prop :=
  r.start ≤ i ∧ i < r.stop

namespace Node

def start : Node → Nat
  | leaf _ start _ _ => start
  | list start _ _ _ => start

def body : Node → Nat
  | leaf _ _ body _ => body
  | list _ body _ _ => body

def stop : Node → Nat
  | leaf _ _ _ stop => stop
  | list _ _ stop _ => stop

def range (n : Node) : Range :=
  ⟨n.start, n.stop⟩

end Node

def stopOf : Nat → List Node → Nat
  | off, [] => off
  | _,   n :: ns => stopOf n.stop ns

-- The content of a leaf starts behind its header, and that of a localized string behind its encoding.
def leafStart (code : UInt8) (body stop : Nat) : Nat :=
  if code = localizedCode ∧ body < stop then body + localizedHeaderLen else body

mutual

def Node.contents : Node → List Range
  | .leaf code _ body stop =>
    if stop ≤ leafStart code body stop then [] else [⟨leafStart code body stop, stop⟩]
  | .list _ _ _ items => contentsOf items

def contentsOf : List Node → List Range
  | [] => []
  | n :: ns => n.contents ++ contentsOf ns

end

def header? (b : Bytes) (off : Nat) : Option Header :=
  match b[off]? with
  | none => none
  | some first =>
    let n := (first &&& 0x03).toNat
    if n = 0 ∨ b.length < off + 1 + n then
      none
    else
      some {
        code   := first >>> 2
        length := BigEndian.nat ((b.drop (off + 1)).take n)
        body   := off + 1 + n }

def LeafOk (b : Bytes) (h : Header) : Prop :=
  ∃ size ∈ elementSize h.code, h.length % size = 0 ∧ ¬(h.code = localizedCode ∧ h.length = 1) ∧
    h.length ≤ b.length - h.body

instance (b : Bytes) (h : Header) : Decidable (LeafOk b h) :=
  inferInstanceAs (Decidable (∃ _ ∈ elementSize h.code, _))

def treeItems (item : Nat → Option Node) : Nat → Nat → Option (List Node)
  | 0,     _   => some []
  | n + 1, off => do
    let x ← item off
    let xs ← treeItems item n x.stop
    return x :: xs

-- The item at `off` with at most `room` levels of lists.
def tree (b : Bytes) : Nat → Nat → Option Node
  | room, off => do
    let h ← header? b off
    if h.code = listCode then
      match room with
      | 0 => none
      | room + 1 =>
        if (b.length - h.body) / 2 < h.length then
          none
        else do
          let items ← treeItems (tree b room) h.length h.body
          return .list off h.body (stopOf h.body items) items
    else if LeafOk b h then
      some (.leaf h.code off h.body (h.body + h.length))
    else
      none

def selectNodes (item : Node → Bytes → Option (List (Bytes × Node))) (step : Nat) (path : Bytes) :
    Nat → List Node → Option (List (Bytes × Node))
  | _, [] => some []
  | k, n :: ns =>
    if step = 0 ∨ step = k then
      match item n (childPath path k) with
      | none => none
      | some out =>
        if step = k then some out else (selectNodes item step path (k + 1) ns).map (out ++ ·)
    else
      selectNodes item step path (k + 1) ns

-- The nodes that a pattern selects, with their paths.
def Node.select : Pattern → Node → Bytes → Option (List (Bytes × Node))
  | [],        n,                  path => some [(path, n)]
  | _ :: _,    .leaf _ _ _ _,      _    => none
  | step :: p, .list _ _ _ items,  path =>
    if items.length < step then none else selectNodes (select p) step path 1 items

end Tracepack.SecsItem
