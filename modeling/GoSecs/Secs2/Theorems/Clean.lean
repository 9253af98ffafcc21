import GoSecs.Secs2.Pointer
import GoSecs.Secs2.Theorems.Valid

open Ieee754 Strconv List

namespace Secs2

variable {errs : Option Err}

section Embedding

variable {x : Item} {vs : List Item}

theorem Item.nodes_eq_map : Item.node.nodes vs = vs.map fun v => some v.node := by
  induction vs
  case nil => rfl
  case cons v vs hi => rw [node.nodes, hi, map_cons]

theorem Item.isEmpty_node : x.node.isEmpty = x.isEmpty := by
  cases x <;> rfl

theorem Item.errors_nodes (h : ∀ v ∈ vs, v.node.error = v.error) :
    Node.error.errors (node.nodes vs) errs = error.errors vs errs := by
  induction vs generalizing errs
  case nil => rfl
  case cons v vs hi =>
    rw [node.nodes, Node.error.errors, error.errors, h v mem_cons_self, Item.isEmpty_node,
      hi fun w hw => h w (mem_cons_of_mem v hw)]

-- Items without nil pointers are the items of the model that knows none.
theorem Item.error_node : x.node.error = x.error := by
  induction x using Item.induct
  case empty => rfl
  case leaf => rfl
  case list b c vs hi => rw [node, Node.error, error, errors_nodes hi]

theorem Item.childClean_node : Node.childClean (some x.node) = childClean x := by
  cases x <;> rfl

theorem Item.node_newListItem {values : List (Option Item)} :
    (newListItem values).node =
      Node.newListItem (values.map (Option.map fun v => some v.node)) := by
  have hr : (values.map (Option.map fun v => some v.node)).reduceOption =
      values.reduceOption.map fun v => some v.node := by
    rw [reduceOption_map]
  unfold newListItem Node.newListItem
  rw [hr, length_map]
  split
  case isTrue  => rfl
  case isFalse =>
    rw [Item.node, Item.nodes_eq_map, all_map]
    simp only [Function.comp_def, Item.childClean_node]

end Embedding

namespace Node

variable {b : Base} {c : Bool} {x : Node} {v w : Option Node} {vs : List (Option Node)}

theorem induct {P : Node → Prop} (empty : P .empty) (leaf : ∀ b l, P (.leaf b l))
    (list : ∀ b c vs, (∀ v, some v ∈ vs → P v) → P (.list b c vs)) (x : Node) : P x := by
  refine Node.rec (motive_1 := P) (motive_2 := fun vs => ∀ v, some v ∈ vs → P v)
    (motive_3 := fun o => ∀ v, o = some v → P v) empty leaf
    (fun b c vs => list b c vs) (by simp) ?_ (by simp) ?_ x
  case refine_1 =>
    intro o vs ho hvs v hv
    cases hv
    case head    => exact ho v rfl
    case tail hv => exact hvs v hv
  case refine_2 =>
    intro n hn v hv
    exact Option.some.inj hv ▸ hn

theorem Reaches.trans {u : Option Node} (h : Reaches u v) (h' : Reaches v w) : Reaches u w := by
  induction h
  case refl => exact h'
  case child hm _ hi => exact .child hm (hi h')

theorem isEmpty_list : (list b c vs).isEmpty = false :=
  rfl

theorem errors_eq_none :
    error.errors vs errs = none ↔
      errs = none ∧ ∀ v ∈ vs, ∃ n, v = some n ∧ n.isEmpty = false ∧ n.error = none := by
  induction vs generalizing errs
  case nil => simp [error.errors]
  case cons v vs hi =>
    cases v
    case none => simp [error.errors, hi, joined_eq_none]
    case some n =>
      rw [error.errors, hi, joined_eq_none]
      cases hn : n.isEmpty <;> simp [hn, and_assoc]

theorem error_list_eq_none :
    (list b c vs).error = none ↔
      c = true ∨ b.itemErr = none ∧
        ∀ v ∈ vs, ∃ n, v = some n ∧ n.isEmpty = false ∧ n.error = none := by
  rw [error]
  cases c
  case false => simp [errors_eq_none, joined_eq_none]
  case true  => simp

theorem exists_of_childClean (h : childClean v) :
    ∃ n, v = some n ∧ n.isEmpty = false ∧ n.error = none := by
  unfold childClean at h
  split at h
  case h_1 => cases h
  case h_2 => cases h
  case h_3 => exact ⟨_, rfl, rfl, Option.isNone_iff_eq_none.mp h⟩
  case h_4 =>
    have ⟨_, hc⟩ := Bool.and_eq_true_iff.mp h
    exact ⟨_, rfl, rfl, error_list_eq_none.mpr (.inl hc)⟩

def Sound (v : Option Node) : Prop :=
  ∀ w, Reaches v w → ∃ n, w = some n ∧ n.isEmpty = false ∧ n.ownError = none

theorem sound_list :
    Sound (some (.list b c vs)) ↔ b.itemErr = none ∧ ∀ v ∈ vs, Sound v := by
  constructor
  case mp =>
    intro h
    have ⟨n, he, _, hn⟩ := h _ .refl
    cases he
    exact ⟨hn, fun v hv w hw => h w (.child hv hw)⟩
  case mpr =>
    intro ⟨hb, hvs⟩ w hw
    cases hw
    case refl => exact ⟨_, rfl, rfl, hb⟩
    case child hv hw => exact hvs _ hv w hw

theorem sound_leaf {l : Leaf} : Sound (some (.leaf b l)) ↔ b.itemErr = none := by
  constructor
  case mp =>
    intro h
    have ⟨n, he, _, hn⟩ := h _ .refl
    cases he
    exact hn
  case mpr =>
    intro hb w hw
    cases hw
    exact ⟨_, rfl, rfl, hb⟩

-- The flags in the tree are only set where the children are clean.
def Flagged (v : Option Node) : Prop :=
  ∀ b vs, Reaches v (some (.list b true vs)) → b.itemErr = none ∧ ∀ v ∈ vs, childClean v

theorem Flagged.reaches (h : Flagged v) (hw : Reaches v w) : Flagged w :=
  fun b vs hr => h b vs (hw.trans hr)

theorem Flagged.child (h : Flagged (some (.list b c vs))) (hv : v ∈ vs) : Flagged v :=
  h.reaches (.child hv .refl)

theorem flagged_none : Flagged none := by
  intro b vs h
  cases h

theorem flagged_leaf {l : Leaf} : Flagged (some (.leaf b l)) := by
  intro _ _ h
  cases h

theorem flagged_list (hc : c = true → b.itemErr = none ∧ ∀ v ∈ vs, childClean v)
    (hvs : ∀ v ∈ vs, Flagged v) : Flagged (some (.list b c vs)) := by
  intro b' vs' h
  cases h
  case refl => exact hc rfl
  case child hv hr => exact hvs _ hv b' vs' hr

theorem flagged_newListItem {values : List (Option (Option Node))}
    (h : ∀ v, some v ∈ values → Flagged v) : Flagged (some (newListItem values)) := by
  unfold newListItem
  split
  case isTrue  => exact flagged_list nofun nofun
  case isFalse =>
    refine flagged_list (fun hc => ⟨rfl, all_eq_true.mp hc⟩) fun v hv => ?_
    exact h v (reduceOption_mem_iff.mp hv)

theorem reaches_itemAt {i : Int} (h : x.itemAt i = .ok v) : Reaches (some x) v := by
  cases x
  case empty => cases h
  case leaf  => cases h
  case list b c vs =>
    simp only [itemAt] at h
    split at h
    case h_1 => cases h
    case h_2 =>
      split at h
      case isTrue => cases h
      case isFalse =>
        split at h
        case h_1 u hu => cases h; exact .child (mem_of_getElem? hu) .refl
        case h_2 => cases h

-- Where the flags are right, so is an error that is only looked for below unset flags.
theorem Flagged.error_iff (h : Flagged (some x)) :
    x.isEmpty = false ∧ x.error = none ↔ Sound (some x) := by
  induction x using Node.induct
  case empty =>
    refine iff_of_false nofun fun hs => ?_
    have ⟨n, he, hn, _⟩ := hs _ .refl
    cases he
    cases hn
  case leaf b l =>
    rw [sound_leaf]
    exact and_iff_right rfl
  case list b c vs hi =>
    have hchild : ∀ v ∈ vs, (∃ n, v = some n ∧ n.isEmpty = false ∧ n.error = none) ↔ Sound v := by
      intro v hv
      constructor
      case mp =>
        rintro ⟨n, rfl, hn⟩
        exact (hi n hv (h.child hv)).mp hn
      case mpr =>
        intro hs
        have ⟨n, hn, _⟩ := hs _ .refl
        subst hn
        exact ⟨n, rfl, (hi n hv (h.child hv)).mpr hs⟩
    rw [sound_list, error_list_eq_none, and_iff_right isEmpty_list, ← forall₂_congr hchild]
    refine ⟨fun he => ?_, Or.inr⟩
    rcases he with rfl | he
    · have ⟨hb, hvs⟩ := h b vs .refl
      exact ⟨hb, fun v hv => exists_of_childClean (hvs v hv)⟩
    · exact he

end Node

variable {room : Nat} {bs : Bytes} {x : Item}

theorem Denotes.childClean (h : Denotes room bs x) :
    childClean x := by
  cases h <;> rfl

theorem Item.flagged_list {b : Base} {c : Bool} {vs : List Item}
    (hc : c = true → b.itemErr = none ∧ ∀ v ∈ vs, childClean v)
    (hvs : ∀ v ∈ vs, Node.Flagged (some v.node)) :
    Node.Flagged (some (Item.list b c vs).node) := by
  rw [node, nodes_eq_map]
  refine Node.flagged_list (fun h => ⟨(hc h).1, ?_⟩) ?_
  case refine_1 =>
    intro v hv
    obtain ⟨y, hy, rfl⟩ := mem_map.mp hv
    rw [childClean_node]
    exact (hc h).2 y hy
  case refine_2 =>
    intro v hv
    obtain ⟨y, hy, rfl⟩ := mem_map.mp hv
    exact hvs y hy

theorem Denotes.flagged (h : Denotes room bs x) :
    Node.Flagged (some x.node) := by
  induction h
  case leaf => exact Node.flagged_leaf
  case list children _ hcs hi =>
    refine Item.flagged_list (fun _ => ⟨rfl, fun v hv => ?_⟩) fun v hv => ?_
    all_goals obtain ⟨d, hd, rfl⟩ := mem_map.mp hv
    · exact (hcs d hd).childClean
    · exact hi d hd

theorem Item.Shaped.flagged (h : x.Shaped) : Node.Flagged (some x.node) := by
  induction h
  case empty => intro _ _ hr; cases hr
  case leaf => exact Node.flagged_leaf
  case badLeaf => exact Node.flagged_leaf
  case badList => exact Item.flagged_list nofun nofun
  case decoded h => exact h.flagged
  case list hc _ hi => exact Item.flagged_list (fun h => ⟨rfl, hc h⟩) hi

theorem Obtained.flagged {parseFloat : Bytes → Except NumErr F64} {v : Option Node}
    (h : Obtained parseFloat v) : Node.Flagged v := by
  induction h
  case nil => exact Node.flagged_none
  case item h => exact h.shaped.flagged
  case list hi => exact Node.flagged_newListItem hi
  case child h hi => exact hi.reaches (Node.reaches_itemAt h)

-- A list has an error exactly if a full walk finds an item with an error of its own, a nil pointer
-- or an empty item.
theorem list_error_iff (parseFloat : Bytes → Except NumErr F64) {x : Node}
    (h : Obtained parseFloat (some x)) (hx : x.isEmpty = false) :
    x.error = none ↔
      ∀ w, Node.Reaches (some x) w →
        ∃ n, w = some n ∧ n.isEmpty = false ∧ n.ownError = none := by
  have he := h.flagged.error_iff
  rwa [and_iff_right hx] at he

theorem list_error_nilPointer :
    (Node.newListItem [some (some (Node.newListItem [some none]))]).error ≠ none := by
  have hb : Obtained (fun _ => .error .errSyntax)
      (some (Node.newListItem [some (some (Node.newListItem [some none]))])) :=
    .list (by simpa using .list (by simpa using .nil))
  intro he
  have ⟨_, hn, _⟩ := (list_error_iff (fun _ => .error .errSyntax) hb rfl).mp he none
    (.child (.head _) (.child (.head _) .refl))
  cases hn

end Secs2
