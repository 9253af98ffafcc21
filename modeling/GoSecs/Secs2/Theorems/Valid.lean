import Mathlib.Data.List.ReduceOption
import GoSecs.Secs2.Built
import GoSecs.Secs2.Theorems.Decode

open BigEndian Ieee754 Strconv List

namespace Secs2

def Leaf.Valid : Leaf → Prop
  | .ascii s | .jis8 s | .binary s => s.length ≤ maxByteSize
  | .localizedStr lsh s noLSH => if noLSH then lsh = 0 ∧ s = [] else s.length + 2 ≤ maxByteSize
  | .boolean v => ∃ vs, v = .ofValues vs ∧ vs.length ≤ maxByteSize
  | .int w v =>
    (intFormatCode w).isSome ∧
      ∃ vs, v = .ofValues vs ∧ vs.length * w ≤ maxByteSize ∧ ∀ n ∈ vs, InRange w n
  | .uint w v =>
    (uintFormatCode w).isSome ∧
      ∃ vs, v = .ofValues vs ∧ vs.length * w ≤ maxByteSize ∧ ∀ n ∈ vs, n < 256 ^ w
  | .float w v =>
    (floatFormatCode w).isSome ∧ ∃ vs, v = .ofValues vs ∧ vs.length * w ≤ maxByteSize

-- A tree of valid leaves and lists, in which decoded items keep the bytes they were read from.
inductive Item.Valid : Item → Prop
  | leaf {l} : l.Valid → Item.Valid (.leaf {} l)
  | list {c vs} : vs.length ≤ maxByteSize → (∀ v ∈ vs, Item.Valid v) → Item.Valid (.list {} c vs)
  | decoded {room bs x} : Denotes room bs x → Item.Valid x

-- What holds of every item that a program can obtain, with or without errors in it.
inductive Item.Shaped : Item → Prop
  | empty : Item.Shaped .empty
  | leaf {l : Leaf} : (l.Small → l.Valid) → Item.Shaped (.leaf {} l)
  | badLeaf {e l} : Item.Shaped (.leaf { itemErr := some e } l)
  | list {c vs} :
    vs.length ≤ maxByteSize → (c = true → ∀ v ∈ vs, childClean v) → (∀ v ∈ vs, Item.Shaped v) →
    Item.Shaped (.list {} c vs)
  | badList {e} : Item.Shaped (.list { itemErr := some e } false [])
  | decoded {room bs x} : Denotes room bs x → Item.Shaped x

section Collect

variable {α β : Type} {f : β → Collected α} {P : α → Prop} {bs : List β}

theorem mem_collect {a : α} (h : a ∈ (collect f bs).1) : ∃ b ∈ bs, a ∈ (f b).1 := by
  induction bs
  case nil => cases h
  case cons b bs hi =>
    rw [collect] at h
    split at h
    case h_1 => exact ⟨b, by simp, h⟩
    case h_2 =>
      rcases mem_append.mp h with h | h
      · exact ⟨b, by simp, h⟩
      · have ⟨b, hb, ha⟩ := hi h
        exact ⟨b, by simp [hb], ha⟩

theorem forall_collect (h : ∀ b ∈ bs, ∀ a ∈ (f b).1, P a) :
    ∀ a ∈ (collect f bs).1, P a := by
  intro a ha
  have ⟨b, hb, ha⟩ := mem_collect ha
  exact h b hb a ha

end Collect

section Ranges

variable {w : Nat}

theorem clampInt64_range {v lo hi : Int} (h : lo ≤ hi) :
    lo ≤ clampInt64 v lo hi ∧ clampInt64 v lo hi ≤ hi := by
  unfold clampInt64
  split <;> try split
  all_goals omega

theorem minInt_le_maxInt (w : Nat) : minInt w ≤ maxInt w := by
  have : (0 : Int) < 2 ^ (w * 8 - 1) := by positivity
  unfold minInt maxInt
  omega

theorem inRange_of_le {v : Int} (hw : 0 < w) (h : minInt w ≤ v ∧ v ≤ maxInt w) : InRange w v := by
  have hp : (256 : Nat) ^ w / 2 = 2 ^ (w * 8 - 1) := by
    rw [show (256 : Nat) = 2 ^ 8 by norm_num, ← pow_mul, Nat.mul_comm 8,
      show w * 8 = w * 8 - 1 + 1 by omega, pow_succ, Nat.mul_div_cancel _ (by norm_num)]
    simp
  have hc : ((2 ^ (w * 8 - 1) : Nat) : Int) = 2 ^ (w * 8 - 1) := by push_cast; rfl
  unfold minInt maxInt at h
  constructor <;> rw [hp, hc] <;> omega

theorem toIntValue_range {k : IntKind} (v : IntValue k) :
    minInt w ≤ toIntValue w v ∧ toIntValue w v ≤ maxInt w := by
  have hm := minInt_le_maxInt w
  have hn : minInt w ≤ 0 := by
    have : (0 : Int) < 2 ^ (w * 8 - 1) := by positivity
    unfold minInt
    omega
  cases k
  case uint | uint64 =>
    have h := v.min_le
    simp only [IntKind.min, IntKind.signed, Bool.false_eq_true, if_false] at h
    simp only [toIntValue]
    split <;> omega
  all_goals exact clampInt64_range hm

theorem combineIntValue_range (a : Arg) :
    ∀ v ∈ (combineIntValue w a).1, minInt w ≤ v ∧ v ≤ maxInt w := by
  have hstr (s : Bytes) : ∀ v ∈ (intOfString w s).1, minInt w ≤ v ∧ v ≤ maxInt w := by
    unfold intOfString
    split
    case h_1 => simp [fail]
    case h_2 => simpa [one] using clampInt64_range (minInt_le_maxInt w)
  cases a
  case int k v    => simpa [combineIntValue, one] using toIntValue_range v
  case ints k vs  => exact forall_collect fun v _ => by simpa [one] using toIntValue_range v
  case string s   => exact hstr s
  case strings ss => exact forall_collect fun s _ => hstr s
  all_goals simp [combineIntValue, fail]

theorem clampUint64_lt {v : Nat} : clampUint64 v (maxUint w) < 256 ^ w := by
  have hp : (256 : Nat) ^ w = 2 ^ (w * 8) := by
    rw [show (256 : Nat) = 2 ^ 8 by norm_num, ← pow_mul, Nat.mul_comm 8]
  have : 0 < 2 ^ (w * 8) := by positivity
  unfold clampUint64 maxUint
  rw [hp]
  split <;> omega

theorem combineUintValue_range (a : Arg) : ∀ v ∈ (combineUintValue w a).1, v < 256 ^ w := by
  have hval {k : IntKind} (v : IntValue k) : ∀ u ∈ (toUintValue w v).1, u < 256 ^ w := by
    unfold toUintValue
    split
    case isTrue  => simp [fail]
    case isFalse => simpa [one] using clampUint64_lt
  have hstr (s : Bytes) : ∀ u ∈ (uintOfString w s).1, u < 256 ^ w := by
    unfold uintOfString
    split
    case h_1 => simp [fail]
    case h_2 => simpa [one] using clampUint64_lt
  cases a
  case int k v    => exact hval v
  case ints k vs  => exact forall_collect fun v _ => hval v
  case string s   => exact hstr s
  case strings ss => exact forall_collect fun s _ => hstr s
  all_goals simp [combineUintValue, fail]

end Ranges

section Constructors

variable {α : Type} [Inhabited α] {vs : List α}

theorem ofValues_wrapped {a : α} (h : int32 (a :: vs).length = 1) :
    Vec.ofValues (a :: vs) = { size := 1, scalar := a, values := [] } :=
  if_pos h

theorem ofValues_singleton (a : α) :
    Vec.ofValues [a] = { size := 1, scalar := a, values := [] } :=
  ofValues_wrapped (int32_eq (n := 1) (by decide))

theorem ofValues_of_ne (h : int32 vs.length ≠ 1) :
    Vec.ofValues vs = { size := int32 vs.length, scalar := default, values := vs } :=
  if_neg h

theorem newBooleanItem_wrapped {bs : List Bool} (h : int32 bs.length ≤ 0) :
    newBooleanItem [.bools bs] =
      .leaf {} (.boolean { size := int32 bs.length, scalar := false, values := bs }) := by
  have hc : combineBoolValues [.bools bs] = (bs, none) := by
    rw [combineBoolValues, collect, collect, combineBoolValue]
    simp
  have hne : int32 bs.length ≠ 1 := by omega
  have hsmall : ¬int32 bs.length > maxByteSize := by
    unfold maxByteSize
    omega
  rw [newBooleanItem, hc, ofCollected, ofValues_of_ne hne, limited, Leaf.lengthField, if_neg hsmall]
  rfl

-- Also of a vector built from so many values that their number wrapped around to one.
theorem ofValues_small (h : (Vec.ofValues vs).values.length < 2 ^ 31) :
    ∃ vs', Vec.ofValues vs = .ofValues vs' ∧ (Vec.ofValues vs).size = vs'.length ∧
      ∀ v ∈ vs', v ∈ vs := by
  by_cases hs : int32 vs.length = 1
  case pos =>
    obtain _ | ⟨a, vs⟩ := vs
    · simp [int32] at hs
    · refine ⟨[a], ?_, ?_, by simp⟩
      · rw [ofValues_singleton, ofValues_wrapped hs]
      · simp [ofValues_wrapped hs]
  case neg =>
    have h : vs.length < 2 ^ 31 := by rwa [ofValues_of_ne hs] at h
    refine ⟨vs, rfl, ?_, fun _ h => h⟩
    simp only [ofValues_of_ne hs, int32_eq h]

theorem shaped_limited {l : Leaf} (h : l.Small → l.lengthField ≤ maxByteSize → l.Valid) :
    (limited l).Shaped := by
  unfold limited
  split
  case isTrue => exact .badLeaf
  case isFalse hn => exact .leaf fun hs => h hs (by omega)

theorem shaped_ofCollected {mk : Vec α → Leaf} {r : Collected α}
    (h : (mk (.ofValues r.1)).Small → (mk (.ofValues r.1)).lengthField ≤ maxByteSize →
      (mk (.ofValues r.1)).Valid) :
    (ofCollected mk r).Shaped := by
  unfold ofCollected
  split
  case h_1 => exact .badLeaf
  case h_2 => exact shaped_limited h

theorem toUint32_of_valid {byteSize : Int}
    (h : ¬(byteSize ≠ 1 ∧ byteSize ≠ 2 ∧ byteSize ≠ 4 ∧ byteSize ≠ 8)) :
    toUint32 byteSize = 1 ∨ toUint32 byteSize = 2 ∨ toUint32 byteSize = 4 ∨
      toUint32 byteSize = 8 := by
  unfold toUint32
  omega

theorem shaped_newIntItem (byteSize : Int) (values : List Arg) :
    (newIntItem byteSize values).Shaped := by
  unfold newIntItem
  split
  case isTrue => exact .badLeaf
  case isFalse hb =>
    have hw := toUint32_of_valid hb
    generalize toUint32 byteSize = w at hw
    have hcode : (intFormatCode w).isSome := by rcases hw with rfl | rfl | rfl | rfl <;> rfl
    have hvalid {vs : List Int} (hr : ∀ v ∈ vs, minInt w ≤ v ∧ v ≤ maxInt w)
        (hs : (Leaf.int w (.ofValues vs)).Small)
        (hl : (Leaf.int w (.ofValues vs)).lengthField ≤ maxByteSize) :
        (Leaf.int w (.ofValues vs)).Valid := by
      have ⟨vs', he, hsize, hmem⟩ := ofValues_small hs
      simp only [Leaf.lengthField, hsize] at hl
      refine ⟨hcode, vs', he, by exact_mod_cast hl, ?_⟩
      intro n hn
      exact inRange_of_le (by omega) <| hr n <| hmem n hn
    split
    case h_1 v hv =>
      have hr : minInt w ≤ v ∧ v ≤ maxInt w := by
        unfold intScalarFastPath at hv
        split at hv <;> cases hv
        exact toIntValue_range _
      rw [← ofValues_singleton]
      exact shaped_limited <| hvalid (by simpa using hr)
    case h_2 =>
      exact shaped_ofCollected <| hvalid <| forall_collect fun a _ => combineIntValue_range a

theorem shaped_newUintItem (byteSize : Int) (values : List Arg) :
    (newUintItem byteSize values).Shaped := by
  unfold newUintItem
  split
  case isTrue => exact .badLeaf
  case isFalse hb =>
    have hw := toUint32_of_valid hb
    generalize toUint32 byteSize = w at hw
    apply shaped_ofCollected
    intro hs hl
    have ⟨vs', he, hsize, hmem⟩ := ofValues_small hs
    simp only [Leaf.lengthField, hsize] at hl
    refine ⟨by rcases hw with rfl | rfl | rfl | rfl <;> rfl, vs', he, by exact_mod_cast hl, ?_⟩
    intro n hn
    exact forall_collect (fun a _ => combineUintValue_range a) n (hmem n hn)

theorem shaped_newFloatItem (parseFloat : Bytes → Except NumErr F64) (byteSize : Int)
    (values : List Arg) : (newFloatItem parseFloat byteSize values).Shaped := by
  unfold newFloatItem
  split
  case isTrue => exact .badLeaf
  case isFalse hb =>
    have hw : toUint32 byteSize = 4 ∨ toUint32 byteSize = 8 := by unfold toUint32; omega
    generalize toUint32 byteSize = w at hw
    apply shaped_ofCollected
    intro hs hl
    have ⟨vs', he, hsize, hmem⟩ := ofValues_small hs
    simp only [Leaf.lengthField, hsize] at hl
    exact ⟨by rcases hw with rfl | rfl <;> rfl, vs', he, by exact_mod_cast hl⟩

-- As a rewrite rule, this keeps `Vec.ofValues` from being evaluated.
theorem lengthField_boolean (v : Vec Bool) : (Leaf.boolean v).lengthField = v.size :=
  rfl

theorem shaped_newBooleanItem (values : List Arg) : (newBooleanItem values).Shaped := by
  apply shaped_ofCollected
  intro hs hl
  have ⟨vs', he, hsize, _⟩ := ofValues_small hs
  rw [lengthField_boolean, hsize] at hl
  exact ⟨vs', he, Int.ofNat_le.mp hl⟩

theorem shaped_newBinaryItem (values : List Arg) : (newBinaryItem values).Shaped := by
  unfold newBinaryItem
  split
  case h_1 => exact .badLeaf
  case h_2 =>
    apply shaped_limited
    intro _ hl
    simp only [Leaf.lengthField] at hl
    simp only [Leaf.Valid]
    exact_mod_cast hl

theorem shaped_newASCIIItem (value : Bytes) : (newASCIIItem value).Shaped := by
  unfold newASCIIItem
  split
  case isTrue  => exact .badLeaf
  case isFalse => exact .leaf fun _ => by simp only [Leaf.Valid]; omega

theorem shaped_newJIS8Item (value : Bytes) : (newJIS8Item value).Shaped := by
  unfold newJIS8Item
  split
  case isTrue  => exact .badLeaf
  case isFalse => exact .leaf fun _ => by simp only [Leaf.Valid]; omega

theorem shaped_newLocalizedStrItem (lsh : UInt16) (value : Bytes) :
    (newLocalizedStrItem lsh value).Shaped := by
  unfold newLocalizedStrItem
  split
  case isTrue  => exact .badLeaf
  case isFalse => exact .leaf fun _ => by simp [Leaf.Valid]; omega

theorem shaped_newListItem {values : List (Option Item)}
    (h : ∀ v, some v ∈ values → v.Shaped) : (newListItem values).Shaped := by
  unfold newListItem
  split
  case isTrue => exact .badList
  case isFalse hl =>
    refine .list ?_ ?_ ?_
    · have := values.reduceOption_length_le
      omega
    · intro hc
      exact all_eq_true.mp hc
    · intro v hv
      exact h v (reduceOption_mem_iff.mp hv)

end Constructors

theorem Item.mem_of_itemAt {b : Base} {cl : Bool} {vs : List Item} {c : Item} {i : Int}
    (h : (Item.list b cl vs).itemAt i = .ok c) : c ∈ vs := by
  simp only [Item.itemAt] at h
  split at h
  case h_1 => cases h
  case h_2 =>
    split at h
    case isTrue => cases h
    case isFalse =>
      split at h
      case h_1 v hv => cases h; exact mem_of_getElem? hv
      case h_2 => cases h

variable {x : Item}

theorem shaped_child {c : Item} {i : Int} (hx : x.Shaped) (h : x.itemAt i = .ok c) :
    c.Shaped := by
  cases hx
  case empty   => cases h
  case leaf    => cases h
  case badLeaf => cases h
  case badList => cases h
  case list hc => exact hc c (Item.mem_of_itemAt h)
  case decoded hd =>
    cases hd
    case leaf => cases h
    case list hcs =>
      have ⟨d, hd, he⟩ := mem_map.mp (Item.mem_of_itemAt h)
      exact .decoded (he ▸ hcs d hd)

variable {data : Bytes}

theorem denotes_of_decode (h : decode data = .ok x) :
    x = .empty ∨ ∃ room bs, Denotes room bs x := by
  unfold decode decodeFirstItem at h
  split at h
  case isTrue =>
    cases h
    exact .inl rfl
  case isFalse =>
    match hd : decodeItem data maxListDepth 0 with
    | .error e    => rw [hd] at h; cases h
    | .ok (y, p') =>
      rw [hd] at h
      cases h
      have ⟨_, hy, _⟩ := decodeItem_sound hd
      exact .inr ⟨_, _, hy⟩

theorem shaped_decode (h : decode data = .ok x) : x.Shaped := by
  rcases denotes_of_decode h with rfl | ⟨_, _, hd⟩
  · exact .empty
  · exact .decoded hd

theorem Built.shaped {parseFloat : Bytes → Except NumErr F64}
    (h : Built parseFloat x) : x.Shaped := by
  induction h
  case empty => exact .empty
  case int => exact shaped_newIntItem ..
  case uint => exact shaped_newUintItem ..
  case float => exact shaped_newFloatItem ..
  case boolean => exact shaped_newBooleanItem ..
  case binary => exact shaped_newBinaryItem ..
  case ascii => exact shaped_newASCIIItem ..
  case jis8 => exact shaped_newJIS8Item ..
  case localizedStr => exact shaped_newLocalizedStrItem ..
  case emptyLocalizedStr => exact .leaf fun _ => ⟨rfl, rfl⟩
  case error => exact .badList
  case list hi => exact shaped_newListItem hi
  case decode h => exact shaped_decode h
  case child h hi => exact shaped_child hi h

theorem joined_eq_none {e₁ e₂ : Option Err} : Err.joined [e₁, e₂] = none ↔ e₁ = none ∧ e₂ = none := by
  cases e₁ <;> cases e₂ <;> simp [Err.joined, reduceOption]

namespace Item

variable {b : Base} {c : Bool} {x : Item} {vs : List Item}

theorem errors_eq_none {errs : Option Err} :
    error.errors vs errs = none ↔ errs = none ∧ ∀ v ∈ vs, v.isEmpty = false ∧ v.error = none := by
  induction vs generalizing errs
  case nil => simp [error.errors]
  case cons v vs hi =>
    rw [error.errors, hi, joined_eq_none]
    cases hv : v.isEmpty <;> simp [hv, and_assoc]

theorem error_list_eq_none :
    (list b c vs).error = none ↔
      c = true ∨ (b.itemErr = none ∧ ∀ v ∈ vs, v.isEmpty = false ∧ v.error = none) := by
  rw [error]
  cases c
  case false => simp [errors_eq_none, joined_eq_none]
  case true  => simp

theorem error_of_childClean (h : childClean x) : x.isEmpty = false ∧ x.error = none := by
  cases x <;> simp_all [childClean, isEmpty, error]

theorem Small.child {v : Item} (h : (list b c vs).Small) (hv : v ∈ vs) : v.Small := by
  cases h
  case list h => exact h v hv

theorem Shaped.valid (h : x.Shaped) (hs : x.Small) (he : x.error = none) (hn : x.isEmpty = false) :
    x.Valid := by
  induction h
  case empty => cases hn
  case leaf h => cases hs; exact .leaf (h ‹_›)
  case badLeaf => cases he
  case badList => cases he
  case decoded h => exact .decoded h
  case list c vs hl hc _ hi =>
    refine .list hl fun v hv => ?_
    have ⟨hn, he⟩ : v.isEmpty = false ∧ v.error = none := by
      rcases error_list_eq_none.mp he with rfl | ⟨_, h⟩
      · exact error_of_childClean (hc rfl v hv)
      · exact h v hv
    exact hi v hv (hs.child hv) he hn

theorem Valid.error_eq (h : x.Valid) : x.error = none ∧ x.isEmpty = false := by
  induction h
  case leaf => exact ⟨rfl, rfl⟩
  case decoded h => exact ⟨h.error_eq, h.isEmpty_eq⟩
  case list hi => exact ⟨error_list_eq_none.mpr <| .inr ⟨rfl, fun v hv => (hi v hv).symm⟩, rfl⟩

end Item
end Secs2
