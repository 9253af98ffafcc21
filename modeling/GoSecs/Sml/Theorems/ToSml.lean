import GoSecs.Secs2.Theorems.Equal
import GoSecs.Sml.ToSml

open Utf8 Strings Strconv Ieee754 List

namespace Secs2

open Sml

-- A vector as the package stores it: where the values are read, there are values.
def Vec.Stored {α : Type} (v : Vec α) : Prop :=
  v.size ≠ 0 → v.size ≠ 1 → v.values ≠ []

def Leaf.Stored : Leaf → Prop
  | .boolean v => v.Stored
  | .int _ v => v.Stored
  | .uint _ v => v.Stored
  | .float _ v => v.Stored
  | _ => True

-- What holds of every item that a program can compose, with or without errors in it.
inductive Item.Tidy : Item → Prop
  | empty : Item.Tidy .empty
  | leaf {b l} : (b.itemErr = none → l.Stored) → Item.Tidy (.leaf b l)
  | list {b c vs} :
    (c = true → b.itemErr = none ∧ ∀ v ∈ vs, v.isEmpty = false ∧ v.error = none) →
    (∀ v ∈ vs, Item.Tidy v) → Item.Tidy (.list b c vs)

variable {b : Base} {c : Bool}

section Tidy

variable {α : Type} {parseFloat : Bytes → Except NumErr F64} {x : Item}

theorem stored_ofValues [Inhabited α] (vs : List α) : (Vec.ofValues vs).Stored := by
  intro hs hs' hv
  by_cases h : int32 vs.length = 1
  case pos => rw [Vec.ofValues, if_pos h] at hs'; exact hs' rfl
  case neg =>
    rw [ofValues_of_ne h] at hs hv
    have hv : vs = [] := hv
    subst hv
    exact hs (by simp [int32])

theorem stored_of_small [Inhabited α] {v : Vec α}
    (h : v.values.length < 2 ^ 31 → ∃ vs, v = .ofValues vs) : v.Stored := by
  intro hs hs' hv
  have ⟨vs, he⟩ := h (by simp [hv])
  subst he
  exact stored_ofValues vs hs hs' hv

theorem stored_of_valid {l : Leaf} (h : l.Small → l.Valid) : l.Stored := by
  cases l
  case boolean => exact stored_of_small fun hs => (h hs).imp fun _ h => h.1
  case int => exact stored_of_small fun hs => (h hs).2.imp fun _ h => h.1
  case uint => exact stored_of_small fun hs => (h hs).2.imp fun _ h => h.1
  case float => exact stored_of_small fun hs => (h hs).2.imp fun _ h => h.1
  all_goals trivial

theorem Denotes.tidy {room : Nat} {bs : Bytes} (h : Denotes room bs x) : x.Tidy := by
  induction h
  case leaf hh hl =>
    have := hh.length_lt
    exact .leaf fun _ => stored_of_valid fun _ => leafOf_valid (by unfold maxByteSize; omega) hl
  case list children _ hc hi =>
    refine .list (fun _ => ⟨rfl, fun v hv => ?_⟩) fun v hv => ?_
    · have ⟨c, hmem, he⟩ := mem_map.mp hv
      exact he ▸ ⟨(hc c hmem).isEmpty_eq, (hc c hmem).error_eq⟩
    · have ⟨c, hmem, he⟩ := mem_map.mp hv
      exact he ▸ hi c hmem

theorem Item.Shaped.tidy (h : x.Shaped) : x.Tidy := by
  induction h
  case empty => exact .empty
  case leaf h => exact .leaf fun _ => stored_of_valid h
  case badLeaf => exact .leaf nofun
  case badList => exact .list nofun nofun
  case decoded h => exact h.tidy
  case list hc _ hi =>
    exact .list (fun h => ⟨rfl, fun v hv => Item.error_of_childClean (hc h v hv)⟩) hi

theorem tidy_newListItem {values : List (Option Item)} (h : ∀ v, some v ∈ values → v.Tidy) :
    (newListItem values).Tidy := by
  unfold newListItem
  split
  case isTrue  => exact .list nofun nofun
  case isFalse =>
    refine .list (fun hc => ⟨rfl, fun v hv => ?_⟩) fun v hv => ?_
    · exact Item.error_of_childClean (all_eq_true.mp hc v hv)
    · exact h v (reduceOption_mem_iff.mp hv)

theorem tidy_child {c : Item} {i : Int} (hx : x.Tidy) (h : x.itemAt i = .ok c) : c.Tidy := by
  cases hx
  case empty => cases h
  case leaf => cases h
  case list _ hc => exact hc _ (Item.mem_of_itemAt h)

theorem Composed.tidy (h : Composed parseFloat x) : x.Tidy := by
  induction h
  case built h    => exact h.shaped.tidy
  case zeroInt    => exact .leaf fun _ h => absurd rfl h
  case zeroUint   => exact .leaf fun _ h => absurd rfl h
  case zeroFloat  => exact .leaf fun _ h => absurd rfl h
  case zeroList   => exact .list nofun nofun
  case list hi    => exact tidy_newListItem hi
  case child h hi => exact tidy_child hi h

theorem Item.Tidy.children {vs : List Item} (h : (Item.list b c vs).Tidy)
    (he : (Item.list b c vs).error = none) :
    b.itemErr = none ∧ ∀ v ∈ vs, v.Tidy ∧ v.isEmpty = false ∧ v.error = none := by
  cases h
  case list hi hc =>
    have hno : b.itemErr = none ∧ ∀ v ∈ vs, v.isEmpty = false ∧ v.error = none :=
      (Item.error_list_eq_none.mp he).elim hc id
    exact ⟨hno.1, fun v hv => ⟨hi v hv, hno.2 v hv⟩⟩

end Tidy

variable {name : String}

section Texts

variable {α : Type} {a b c d s t u : Bytes}

def Parts (a b : Bytes) : Prop :=
  ∃ s c d t u, a = s ++ c :: t ∧ b = s ++ d :: u ∧ c ≠ d

theorem Parts.ne (h : Parts a b) : a ≠ b := by
  intro he
  have ⟨s, c, d, t, u, ha, hb, hne⟩ := h
  rw [ha, hb] at he
  exact hne (List.cons.inj (append_cancel_left he)).1

theorem Parts.append_left (s : Bytes) (h : Parts a b) : Parts (s ++ a) (s ++ b) := by
  have ⟨s', c, d, t, u, ha, hb, hne⟩ := h
  exact ⟨s ++ s', c, d, t, u, by rw [ha, append_assoc], by rw [hb, append_assoc], hne⟩

theorem Parts.append_right (h : Parts a b) (t u : Bytes) : Parts (a ++ t) (b ++ u) := by
  have ⟨s, c, d, t', u', ha, hb, hne⟩ := h
  exact ⟨s, c, d, t' ++ t, u' ++ u, by simp [ha], by simp [hb], hne⟩

-- A renderer gives the text exactly if a condition holds. Otherwise it panics or parts from it.
def SameIff (p : Prop) (a : Bytes) (r : Option Bytes) : Prop :=
  p ∧ r = some a ∨ ¬p ∧ ∀ b, r = some b → Parts a b

variable {p q : Prop} {r r' : Option Bytes} {f : α → Bytes}

theorem SameIff.iff (h : SameIff p a r) : r = some a ↔ p := by
  rcases h with ⟨hp, he⟩ | ⟨hp, hd⟩
  · exact iff_of_true he hp
  · exact iff_of_false (fun he => (hd a he).ne rfl) hp

theorem SameIff.congr (h : SameIff p a r) (hpq : p ↔ q) : SameIff q a r :=
  propext hpq ▸ h

theorem SameIff.append_left (s : Bytes) (h : SameIff p a r) :
    SameIff p (s ++ a) (r.map (s ++ ·)) := by
  rcases h with ⟨hp, rfl⟩ | ⟨hp, hd⟩
  · exact .inl ⟨hp, rfl⟩
  · refine .inr ⟨hp, fun b hb => ?_⟩
    have ⟨u, hu, he⟩ := Option.map_eq_some_iff.mp hb
    exact he ▸ (hd u hu).append_left s

theorem SameIff.append (h : SameIff p a r) (h' : SameIff q c r') :
    SameIff (p ∧ q) (a ++ c) (r.bind fun b => r'.map (b ++ ·)) := by
  rcases h with ⟨hp, rfl⟩ | ⟨hp, hd⟩
  · exact (h'.append_left a).congr (by simp [hp])
  · refine .inr ⟨fun h => hp h.1, fun b hb => ?_⟩
    have ⟨u, hu, hm⟩ := Option.bind_eq_some_iff.mp hb
    have ⟨t, _, he⟩ := Option.map_eq_some_iff.mp hm
    exact he ▸ (hd u hu).append_right c t

theorem SameIff.append_right (h : SameIff p a r) (s : Bytes) :
    SameIff p (a ++ s) (r.map (· ++ s)) := by
  rcases h with ⟨hp, rfl⟩ | ⟨hp, hd⟩
  · exact .inl ⟨hp, rfl⟩
  · refine .inr ⟨hp, fun b hb => ?_⟩
    have ⟨u, hu, he⟩ := Option.map_eq_some_iff.mp hb
    exact he ▸ (hd u hu).append_right s s

theorem flatMap_blank {vs : List α} (h : vs ≠ []) :
    (vs.flatMap fun v => ascii " " ++ f v) = ascii " " ++ spaced f vs := by
  cases vs
  case nil  => contradiction
  case cons => rw [flatMap_cons, spaced, append_assoc]

theorem formatInt_natCast (n : Nat) : formatInt n = formatUint n := by
  rw [formatInt, if_neg (by omega), Int.natAbs_natCast]

-- The size has not wrapped around to zero, nor below what the text is built from.
def Vec.Counted (low : Int) (v : Vec α) : Prop :=
  low ≤ v.size ∧ (v.size = 0 → v.values = [])

def Vec.encoded (name : String) (f : α → Bytes) (v : Vec α) : Bytes :=
  Encoder.head name v.size ++
    (if v.size = 1 then [v.scalar] else v.values).flatMap (fun x => ascii " " ++ f x) ++ ascii ">"

theorem Vec.encoded_zero {v : Vec α} (h0 : v.size = 0)
    (hv : v.values = []) : v.encoded name f = ascii "<" ++ ascii name ++ ascii "[0]>" := by
  have hzero : ascii "[0]>" = ascii "[" ++ formatInt 0 ++ ascii "]" ++ ascii ">" := by decide
  rw [Vec.encoded, Encoder.head, h0, hv, hzero]
  simp

theorem Vec.encoded_wrapped {v : Vec α} (h0 : v.size = 0) (hv : v.values ≠ []) :
    Parts (v.encoded name f) (ascii "<" ++ ascii name ++ ascii "[0]>") := by
  have hblank : v.values.flatMap (fun x => ascii " " ++ f x) = ascii " " ++ spaced f v.values :=
    flatMap_blank hv
  have h1 : v.size ≠ 1 := by omega
  refine ⟨ascii "<" ++ ascii name ++ ascii "[0]", 32, 62, spaced f v.values ++ ascii ">", [], ?_, ?_,
    by decide⟩
  · have hzero : ascii "[0]" = ascii "[" ++ formatInt 0 ++ ascii "]" := by decide
    have hsp : ascii " " = [32] := rfl
    rw [Vec.encoded, if_neg h1, hblank, h0, Encoder.head]
    simp only [hzero, hsp, append_assoc, cons_append, nil_append]
  · have hzero : ascii "[0]>" = ascii "[0]" ++ [62] := rfl
    rw [hzero]
    simp only [append_assoc]

theorem Vec.encoded_eq {v : Vec α} (hs : v.Stored) (h0 : v.size ≠ 0) :
    v.encoded name f = ascii "<" ++ ascii name ++ ascii "[" ++ formatInt v.size ++ ascii "] " ++
      (if v.size = 1 then f v.scalar else spaced f v.values) ++ ascii ">" := by
  have hclose : ascii "] " = ascii "]" ++ ascii " " := rfl
  unfold Vec.encoded Encoder.head
  by_cases h1 : v.size = 1
  case pos => simp [h1, hclose, append_assoc]
  case neg =>
    rw [if_neg h1, if_neg h1, flatMap_blank (hs h0 h1)]
    simp [hclose, append_assoc]

theorem Vec.encoded_sameIff {v : Vec α} {low k n : Int}
    (hs : v.Stored) (hlow : low ≤ 0) (hgrow : v.size * k + n < 0 ↔ v.size < low) :
    SameIff (v.Counted low) (v.encoded name f) (v.toSML (ascii name) k n f) := by
  unfold Vec.toSML
  by_cases h0 : v.size = 0
  case pos =>
    rw [if_pos h0]
    by_cases hv : v.values = []
    case pos => exact .inl ⟨⟨by omega, fun _ => hv⟩, congrArg some (Vec.encoded_zero h0 hv).symm⟩
    case neg =>
      refine .inr ⟨fun hc => hv (hc.2 h0), fun b hb => ?_⟩
      exact Option.some.inj hb ▸ Vec.encoded_wrapped h0 hv
  case neg =>
    rw [if_neg h0]
    by_cases hneg : v.size * k + n < 0
    case pos =>
      have hsize := hgrow.mp hneg
      rw [if_pos hneg]
      exact .inr ⟨fun hc => absurd hc.1 (by omega), nofun⟩
    case neg =>
      have hsize := mt hgrow.mpr hneg
      rw [if_neg hneg]
      exact .inl ⟨⟨by omega, fun h => absurd h h0⟩, congrArg some (Vec.encoded_eq hs h0).symm⟩

end Texts

section Leaves

variable {formatFloat : Nat → Nat → F64 → Bytes} {isPrint : Nat → Bool} {b : Base} {l : Leaf}
  {w : Nat} {α : Type} {s : Bytes}

-- A leaf that both write alike: no zero value without a byte size, and no size that wrapped around.
def Leaf.Rendered : Leaf → Prop
  | .boolean v => v.Counted (-2)
  | .int w v => (intFormatCode w).isSome ∧ v.Counted (-1)
  | .uint w v => (uintFormatCode w).isSome ∧ v.Counted (-1)
  | .float w v => (floatFormatCode w).isSome ∧ v.Counted 0
  | _ => True

theorem width_of_int (h : (intFormatCode w).isSome) : w = 1 ∨ w = 2 ∨ w = 4 ∨ w = 8 := by
  unfold intFormatCode at h
  split at h <;> simp_all

theorem width_of_uint (h : (uintFormatCode w).isSome) : w = 1 ∨ w = 2 ∨ w = 4 ∨ w = 8 := by
  unfold uintFormatCode at h
  split at h <;> simp_all

theorem width_of_float (h : (floatFormatCode w).isSome) : w = 4 ∨ w = 8 := by
  unfold floatFormatCode at h
  split at h <;> simp_all

theorem encodeLeaf_boolean {v : Vec Bool} (hb : b.itemErr = none) :
    Encoder.encodeLeaf {} formatFloat isPrint b (.boolean v) = v.encoded "BOOLEAN" boolSML := by
  have hf : Encoder.encodeBool = fun x => ascii " " ++ boolSML x := by
    funext x
    cases x <;> rfl
  rw [Encoder.encodeLeaf, Encoder.values, hb, hf, Vec.encoded]
  rfl

theorem encodeLeaf_int {v : Vec Int} (hb : b.itemErr = none) :
    Encoder.encodeLeaf {} formatFloat isPrint b (.int w v) =
      if (intFormatCode w).isSome then v.encoded ("I" ++ toString w) formatInt else [] := by
  rw [Encoder.encodeLeaf, Encoder.values, hb]
  rfl

theorem encodeLeaf_uint {v : Vec Nat} (hb : b.itemErr = none) :
    Encoder.encodeLeaf {} formatFloat isPrint b (.uint w v) =
      if (uintFormatCode w).isSome then v.encoded ("U" ++ toString w) formatUint else [] := by
  rw [Encoder.encodeLeaf, Encoder.values, hb]
  rfl

theorem encodeLeaf_float {v : Vec F64} (hb : b.itemErr = none) :
    Encoder.encodeLeaf {} formatFloat isPrint b (.float w v) =
      if (floatFormatCode w).isSome then
        v.encoded ("F" ++ toString w) (formatFloat (if w = 4 then 9 else 17) (w * 8))
      else [] := by
  rw [Encoder.encodeLeaf, Encoder.values, hb]
  rfl

theorem parts_newline (s : Bytes) : Parts (ascii "\n") (ascii "<" ++ s) :=
  ⟨[], 10, 60, [], s, rfl, rfl, by decide⟩

theorem Vec.toSML_cons {name t : Bytes} {k n : Int} {f : α → Bytes} {v : Vec α}
    (h : v.toSML name k n f = some t) : ∃ s, t = ascii "<" ++ s := by
  unfold Vec.toSML at h
  split at h
  case isTrue  =>
    cases h
    exact ⟨_, append_assoc ..⟩
  case isFalse =>
    split at h
    case isTrue  => cases h
    case isFalse =>
      cases h
      exact ⟨_, by simp only [append_assoc]; rfl⟩

theorem sameIff_numeric {code : Bool} {f g : α → Bytes}
    {v : Vec α} {low k n : Int} (hs : v.Stored) (hlow : low ≤ 0)
    (hcode : code → ascii name = s ∧ f = g ∧ (v.size * k + n < 0 ↔ v.size < low)) :
    SameIff (code ∧ v.Counted low) ((if code then v.encoded name f else []) ++ ascii "\n")
      ((v.toSML s k n g).map (· ++ ascii "\n")) := by
  cases code
  case false =>
    refine .inr ⟨nofun, fun b hb => ?_⟩
    have ⟨u, hu, he⟩ := Option.map_eq_some_iff.mp hb
    have ⟨t, ht⟩ := Vec.toSML_cons hu
    rw [← he, ht, append_assoc]
    exact parts_newline _
  case true =>
    have ⟨hn, hf, hgrow⟩ := hcode rfl
    subst hn hf
    exact ((Vec.encoded_sameIff hs hlow hgrow).append_right _).congr
      ⟨fun hc => ⟨rfl, hc⟩, And.right⟩

theorem encodeString_eq {tok : String} :
    Encoder.encodeString {} tok s false =
      ascii "<" ++ ascii tok ++ ascii "[" ++ formatUint s.length ++ ascii "] \"" ++ s ++
        ascii "\">" := by
  have hopen : ascii "] \"" = ascii "]" ++ ascii " " ++ ascii "\"" := rfl
  have hclose : ascii "\">" = ascii "\"" ++ ascii ">" := rfl
  have hquote : ascii "\"" = [Encoder.quoteByte {}] := rfl
  simp [Encoder.encodeString, Encoder.head, formatInt_natCast, hopen, hclose, hquote]

theorem asciiSML_eq :
    (Leaf.ascii s).toSML formatFloat isPrint = some (Encoder.encodeString {} "A" s false) := by
  by_cases hs : s = []
  case pos => rw [hs]; rfl
  case neg => rw [Leaf.toSML, if_neg hs, encodeString_eq]; rfl

theorem jis8SML_eq : jis8SML s = Encoder.encodeString {} "J" s false := by
  by_cases hs : s = []
  case pos => rw [hs]; rfl
  case neg => rw [jis8SML, if_neg hs, encodeString_eq]; rfl

theorem binarySML_eq :
    (Leaf.binary s).toSML formatFloat isPrint =
      some (Encoder.head "B" s.length ++ s.flatMap (Encoder.encodeByte {}) ++ ascii ">") := by
  by_cases hs : s = []
  case pos => rw [hs]; rfl
  case neg =>
    have hb : Encoder.encodeByte {} = fun b => ascii " " ++ hexToken b := rfl
    have hopen : ascii "] " = ascii "]" ++ ascii " " := rfl
    have hname : ascii "<B[" = ascii "<" ++ ascii "B" ++ ascii "[" := rfl
    rw [Leaf.toSML, if_neg hs, hb, flatMap_blank hs, Encoder.head, formatInt_natCast, hopen, hname]
    simp only [append_assoc]

theorem encodeLeaf_sameIff (hb : b.itemErr = none) (hl : l.Stored) :
    SameIff l.Rendered (Encoder.encodeLeaf {} formatFloat isPrint b l ++ ascii "\n")
      ((l.toSML formatFloat isPrint).map (· ++ ascii "\n")) := by
  cases l
  case ascii s =>
    rw [Encoder.encodeLeaf, hb, asciiSML_eq]
    exact .inl ⟨trivial, rfl⟩
  case jis8 s =>
    rw [Encoder.encodeLeaf, hb, Leaf.toSML, jis8SML_eq]
    exact .inl ⟨trivial, rfl⟩
  case localizedStr => exact .inl ⟨trivial, rfl⟩
  case binary s =>
    rw [Encoder.encodeLeaf, hb, binarySML_eq]
    exact .inl ⟨trivial, rfl⟩
  case boolean v =>
    rw [encodeLeaf_boolean hb]
    exact (Vec.encoded_sameIff hl (by decide) (by omega)).append_right _
  case int w v =>
    rw [encodeLeaf_int hb]
    refine sameIff_numeric hl (by decide) fun h => ⟨?_, rfl, by omega⟩
    rcases width_of_int h with rfl | rfl | rfl | rfl <;> decide
  case uint w v =>
    rw [encodeLeaf_uint hb]
    refine sameIff_numeric hl (by decide) fun h => ⟨?_, rfl, by omega⟩
    rcases width_of_uint h with rfl | rfl | rfl | rfl <;> decide
  case float w v =>
    rw [encodeLeaf_float hb]
    refine sameIff_numeric hl le_rfl fun h => ?_
    rcases width_of_float h with rfl | rfl
    · exact ⟨by decide, rfl, by omega⟩
    · exact ⟨by decide, rfl, by omega⟩

end Leaves

section Trees

variable {formatFloat : Nat → Nat → F64 → Bytes} {isPrint : Nat → Bool}
  {parseFloat : Bytes → Except NumErr F64} {x : Item} {vs : List Item} {level : Nat}
  {r : Option Bytes}

def Item.smlAt (formatFloat : Nat → Nat → F64 → Bytes) (isPrint : Nat → Bool) (level : Nat) :
    Item → Option Bytes
  | .list b c vs => formatListSML formatFloat isPrint (.list b c vs) level
  | x => x.toSML formatFloat isPrint

-- The encoder writes an item as the item itself does exactly if that holds of its leaves.
def Item.Compares (formatFloat : Nat → Nat → F64 → Bytes) (isPrint : Nat → Bool) (level : Nat)
    (x : Item) : Prop :=
  (Encoder.isList x → x.smlAt formatFloat isPrint level ≠ some []) ∧
  ∃ text, Encoder.encodeItem {} formatFloat isPrint x level = .ok text ∧
    SameIff (x.Leaves Leaf.Rendered) (text ++ ascii "\n")
      ((x.smlAt formatFloat isPrint level).map (· ++ ascii "\n"))

theorem indentStr_succ : indentStr (level + 1) = indentStr level ++ ascii "  " := by
  rw [indentStr, replicate_succ', flatten_append]
  rfl

-- What stands before an item in the lines of a list; a nested list indents itself.
def lead (v : Item) (level : Nat) : Bytes :=
  if Encoder.isList v then [] else indentStr (level + 1)

theorem children_cons {v : Item} (hn : v.isEmpty = false) (he : v.error = none)
    (hc : v.Compares formatFloat isPrint (level + 1))
    (hr : formatListSML.children formatFloat isPrint vs level = r.map some) :
    formatListSML.children formatFloat isPrint (v :: vs) level =
      ((((v.smlAt formatFloat isPrint (level + 1)).map (· ++ ascii "\n")).map
        (lead v level ++ ·)).bind fun line => r.map (line ++ ·)).map some := by
  cases v
  case empty => cases hn
  case leaf b l =>
    have hsml : (Item.leaf b l).smlAt formatFloat isPrint (level + 1) =
      l.toSML formatFloat isPrint := rfl
    rw [formatListSML.children, he, hr, hsml, lead, indentStr_succ]
    cases l.toSML formatFloat isPrint <;> cases r <;> simp [Encoder.isList]
  case list b c us =>
    have hne : formatListSML formatFloat isPrint (.list b c us) (level + 1) ≠ some [] := hc.1 rfl
    rw [formatListSML.children, he, hr, Item.smlAt, lead]
    cases ht : formatListSML formatFloat isPrint (.list b c us) (level + 1)
    case none   => rfl
    case some t =>
      have hnil : t ≠ [] := fun h => hne (h ▸ ht)
      cases r <;> simp [hnil, Encoder.isList]

theorem encodeItems_sameIff (h : ∀ v ∈ vs, v.isEmpty = false ∧ v.error = none ∧
      v.Compares formatFloat isPrint (level + 1)) :
    ∃ text r, Encoder.encodeItem.encodeItems {} formatFloat isPrint vs (level + 1) = .ok text ∧
      formatListSML.children formatFloat isPrint vs level = Option.map some r ∧
      SameIff (∀ v ∈ vs, v.Leaves Leaf.Rendered) text r := by
  induction vs
  case nil => exact ⟨[], some [], rfl, rfl, .inl ⟨forall_mem_nil _, rfl⟩⟩
  case cons v vs hi =>
    have ⟨⟨hn, he, hc⟩, hvs⟩ := forall_mem_cons.mp h
    have ⟨rest, r, hr, hr', hs⟩ := hi hvs
    have ⟨text, ht, hsame⟩ := hc.2
    have hline := hsame.append_left (lead v level)
    refine ⟨_, _, ?_, children_cons hn he hc hr', (hline.append hs).congr forall_mem_cons.symm⟩
    rw [Encoder.encodeItem.encodeItems, ht, hr, lead]
    simp only [append_assoc]
    rfl

theorem leaves_list_iff {P : Leaf → Prop} :
    (∀ v ∈ vs, v.Leaves P) ↔ (Item.list b c vs).Leaves P := by
  refine ⟨.list, fun h => ?_⟩
  cases h
  case list h => exact h

theorem formatListSML_eq
    (he : (Item.list b c vs).error = none) (hb : b.itemErr = none) (hn : vs.length ≠ 0)
    (hr : formatListSML.children formatFloat isPrint vs level = r.map some) :
    formatListSML formatFloat isPrint (.list b c vs) level =
      (r.map (indentStr level ++ Encoder.head "L" vs.length ++ ascii "\n" ++ ·)).map
        (· ++ (indentStr level ++ ascii ">")) := by
  have hopen : ascii "<L[" = ascii "<" ++ ascii "L" ++ ascii "[" := rfl
  have hclose : ascii "]\n" = ascii "]" ++ ascii "\n" := rfl
  rw [formatListSML, he, hb, hr, if_neg hn, Encoder.head, formatInt_natCast, hopen, hclose]
  cases r <;> simp

-- By induction on the tree, with the text of the children at the next level.
theorem Item.Tidy.compares (hx : x.Tidy) (he : x.error = none)
    (hd : level + x.depth ≤ maxListDepth) : x.Compares formatFloat isPrint level := by
  induction hx generalizing level
  case empty =>
    exact ⟨nofun, [], rfl, .inl ⟨.empty, rfl⟩⟩
  case leaf b l hl =>
    refine ⟨nofun, _, rfl, (encodeLeaf_sameIff he (hl he)).congr ⟨.leaf, fun h => ?_⟩⟩
    cases h
    case leaf h => exact h
  case list b c vs hclean hvs hi =>
    have ⟨hb, hc⟩ := (Item.Tidy.list hclean hvs).children he
    rw [Item.depth] at hd
    have hlevel : ¬level ≥ maxListDepth := by omega
    have hall : ∀ v ∈ vs, v.isEmpty = false ∧ v.error = none ∧
        v.Compares formatFloat isPrint (level + 1) := by
      intro v hv
      have ⟨_, hn, hev⟩ := hc v hv
      have hdv := Item.depth_le_depths hv
      exact ⟨hn, hev, hi v hv hev (by omega)⟩
    have ⟨text, r, ht, hr, hs⟩ := encodeItems_sameIff hall
    unfold Item.Compares
    rw [Item.smlAt, Encoder.encodeItem, hb, if_neg hlevel]
    by_cases hnil : vs.length = 0
    case pos =>
      have hvs : vs = [] := length_eq_zero_iff.mp hnil
      have hall : ∀ v ∈ vs, v.Leaves Leaf.Rendered := hvs ▸ forall_mem_nil _
      rw [if_pos hnil, formatListSML, he, if_neg nofun, if_pos hnil]
      refine ⟨fun _ h => ?_, _, rfl, .inl ⟨leaves_list_iff.mp hall, rfl⟩⟩
      exact append_ne_nil_of_right_ne_nil _ (by decide) (Option.some.inj h)
    case neg =>
      rw [if_neg hnil, ht, formatListSML_eq he hb hnil hr]
      refine ⟨fun _ h => ?_, _, rfl, ?_⟩
      · have ⟨u, _, hu⟩ := Option.map_eq_some_iff.mp h
        exact append_ne_nil_of_right_ne_nil u
          (append_ne_nil_of_right_ne_nil _ (by decide)) hu
      · have hopen := hs.append_left (indentStr level ++ Encoder.head "L" vs.length ++ ascii "\n")
        have hlist := (hopen.append_right (indentStr level ++ ascii ">")).append_right (ascii "\n")
        simp only [append_assoc] at hlist ⊢
        exact hlist.congr leaves_list_iff

-- The encoder with its default options and the items themselves write the same text of a tree
-- without errors exactly if every leaf is one that both write alike.
theorem toSML_eq_encode_iff (hx : Composed parseFloat x) (hd : x.depth ≤ maxListDepth)
    (he : x.error = none) :
    x.toSML formatFloat isPrint = some (Encoder.encode {} formatFloat isPrint x) ↔
      x.Leaves Leaf.Rendered := by
  have hlevel : 0 + x.depth ≤ maxListDepth := by omega
  have ⟨_, text, ht, hs⟩ : x.Compares formatFloat isPrint 0 := hx.tidy.compares he hlevel
  have htop : x.smlAt formatFloat isPrint 0 = x.toSML formatFloat isPrint := by cases x <;> rfl
  rw [Encoder.encode, ht, ← hs.iff, htop]
  cases x.toSML formatFloat isPrint <;> simp

theorem toSML_eq_encode_iff_nested :
    let x := newListItem [some (newIntItem 2 [.int .int ⟨-7, by decide, by decide⟩]),
      some (newListItem [some (newASCIIItem [72, 105]), some (newListItem [])])]
    x.toSML (fun _ _ _ => []) (fun _ => true) =
        some (Encoder.encode {} (fun _ _ _ => []) (fun _ => true) x) ↔
      x.Leaves Leaf.Rendered := by
  intro x
  have hb : Built (fun _ => .ok 0) x := by
    refine .list fun v hv => ?_
    simp only [List.mem_cons, Option.some.injEq, List.not_mem_nil, or_false] at hv
    rcases hv with rfl | rfl
    · exact .int ..
    · refine .list fun v hv => ?_
      simp only [List.mem_cons, Option.some.injEq, List.not_mem_nil, or_false] at hv
      rcases hv with rfl | rfl
      · exact .ascii _
      · exact .list nofun
  exact toSML_eq_encode_iff (.built hb) (by decide +kernel) (by decide +kernel)

-- Of `2 ^ 32` values the item writes none, and with `2 ^ 31` it panics.
theorem toSML_differs_wrapped_zero :
    (let x := newBooleanItem [.bools (List.replicate (2 ^ 32) false)]
     Composed (fun _ => .ok 0) x ∧ x.error = none ∧
       x.toSML (fun _ _ _ => []) (fun _ => true) = some (ascii "<BOOLEAN[0]>") ∧
       Encoder.encode {} (fun _ _ _ => []) (fun _ => true) x ≠ ascii "<BOOLEAN[0]>") ∧
    (let x := newBooleanItem [.bools (List.replicate (2 ^ 31) false)]
     Composed (fun _ => .ok 0) x ∧ x.error = none ∧
       x.toSML (fun _ _ _ => []) (fun _ => true) = none) ∧
    (let x := Item.leaf {} (.int 0 (.unsized []))
     Composed (fun _ => .ok 0) x ∧ x.error = none ∧
       x.toSML (fun _ _ _ => []) (fun _ => true) = some (ascii "<I0[0]>") ∧
       Encoder.encode {} (fun _ _ _ => []) (fun _ => true) x = []) := by
  have h32 : int32 (List.replicate (2 ^ 32) false).length = 0 := by
    rw [List.length_replicate]
    decide +kernel
  have h31 : int32 (List.replicate (2 ^ 31) false).length = -2 ^ 31 := by
    rw [List.length_replicate]
    decide +kernel
  have hne : List.replicate (2 ^ 32) false ≠ [] := by
    rw [ne_eq, List.replicate_eq_nil_iff]
    omega
  refine ⟨⟨.built (.boolean _), ?_⟩, ⟨.built (.boolean _), ?_⟩, .zeroInt, rfl, by decide, rfl⟩
  · rw [newBooleanItem_wrapped h32.le]
    generalize List.replicate (2 ^ 32) false = bs at h32 hne ⊢
    refine ⟨rfl, ?_, ?_⟩
    · rw [Item.toSML, Leaf.toSML, Vec.toSML, if_pos h32]
      rfl
    · rw [Encoder.encode, Encoder.encodeItem, encodeLeaf_boolean rfl]
      exact (Vec.encoded_wrapped h32 hne).ne
  · rw [newBooleanItem_wrapped (by omega)]
    generalize List.replicate (2 ^ 31) false = bs at h31 ⊢
    refine ⟨rfl, ?_⟩
    rw [Item.toSML, Leaf.toSML, Vec.toSML, if_neg (by simp only; omega), if_pos (by simp only; omega)]

end Trees
end Secs2
