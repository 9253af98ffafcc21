import Mathlib.Data.List.GetD
import GoSecs.Tracepack.Statistics
import GoSecs.Tracepack.Theorems.Aggregate

open List

namespace Tracepack

variable {cs ds : List Nat} {us vs : List UInt8}

theorem ext_getD (hl : cs.length = ds.length) (h : ∀ i, cs.getD i 0 = ds.getD i 0) : cs = ds := by
  refine ext_getElem hl fun i hc hd => ?_
  have := h i
  rwa [getD_eq_getElem _ _ hc, getD_eq_getElem _ _ hd] at this

def width (vs : List UInt8) : Nat :=
  vs.foldr (fun v n => max (v.toNat + 1) n) 0

theorem width_append : width (us ++ vs) = max (width us) (width vs) := by
  induction us
  case nil => simp [width]
  case cons u us hi =>
    simp only [width, cons_append, foldr_cons] at *
    rw [hi, max_assoc]

theorem lt_width {v : UInt8} (h : v ∈ vs) : v.toNat < width vs := by
  induction vs
  case nil => simp at h
  case cons u us hi =>
    simp only [width, foldr_cons] at *
    rcases mem_cons.mp h with rfl | h
    · omega
    · have := hi h
      omega

@[simp]
theorem length_tally : (tally vs).length = width vs := by
  simp [tally, width]

theorem getD_tally (v : Nat) : (tally vs).getD v 0 = vs.countP (·.toNat = v) := by
  by_cases h : v < width vs
  case pos =>
    rw [getD_eq_getElem _ _ (by simpa using h)]
    simp [tally]
  case neg =>
    rw [getD_eq_default _ _ (by simpa using h), eq_comm, countP_eq_zero]
    intro u hu he
    have := lt_width hu
    simp only [decide_eq_true_eq] at he
    omega

theorem length_addCounts : (addCounts exact cs ds).length = max cs.length ds.length := by
  induction ds generalizing cs
  case nil => simp [addCounts]
  case cons d ds hi => cases cs <;> simp [addCounts, hi]

theorem getD_addCounts (i : Nat) :
    (addCounts exact cs ds).getD i 0 = cs.getD i 0 + ds.getD i 0 := by
  induction ds generalizing cs i
  case nil => simp [addCounts]
  case cons d ds hi =>
    cases cs <;> cases i
    case nil.zero => simp [addCounts, exact]
    case nil.succ => simpa [addCounts] using @hi [] _
    case cons.zero => simp [addCounts]
    case cons.succ cs i => simpa [addCounts] using @hi cs i

theorem addCounts_tally : addCounts exact (tally us) (tally vs) = tally (us ++ vs) := by
  apply ext_getD
  · rw [length_addCounts, length_tally, length_tally, length_tally, width_append]
  · intro i
    rw [getD_addCounts, getD_tally, getD_tally, getD_tally, countP_append]

theorem length_countEnum (v : UInt8) : (countEnum cs v).length = max cs.length (v.toNat + 1) := by
  simp only [countEnum, length_modify]
  split
  · simp only [length_append, length_replicate]
    omega
  · omega

theorem getD_append_replicate (n i : Nat) :
    (cs ++ List.replicate n 0).getD i 0 = cs.getD i 0 := by
  simp only [getD_eq_getElem?_getD, getElem?_append, getElem?_replicate]
  split
  · rfl
  · rw [getElem?_eq_none (by omega)]
    split <;> rfl

theorem getD_modify {f : Nat → Nat} {i : Nat} (h : i < cs.length) (j : Nat) :
    (cs.modify i f).getD j 0 = if i = j then f (cs.getD j 0) else cs.getD j 0 := by
  simp only [getD_eq_getElem?_getD, getElem?_modify]
  split
  case isTrue hj =>
    subst hj
    simp [h]
  case isFalse => simp

theorem getD_countEnum (v : UInt8) (i : Nat) :
    (countEnum cs v).getD i 0 = if v.toNat = i then inc32 (cs.getD i 0) else cs.getD i 0 := by
  simp only [countEnum]
  split
  case isTrue h =>
    rw [getD_modify (by simp; omega), getD_append_replicate]
  case isFalse h => rw [getD_modify (by omega)]

-- Counting one more value, as long as no count passes 2^32-1.
theorem countEnum_tally (h : vs.length + 1 < 2 ^ 32) (v : UInt8) :
    countEnum (tally vs) v = tally (vs ++ [v]) := by
  apply ext_getD
  · rw [length_countEnum, length_tally, length_tally, width_append]
    rfl
  · intro i
    have hle : vs.countP (·.toNat = i) ≤ vs.length := countP_le_length
    rw [getD_countEnum, getD_tally, getD_tally, countP_append, countP_singleton]
    split
    case isTrue hv =>
      rw [inc32, Nat.mod_eq_of_lt (by omega)]
      simp [hv]
    case isFalse hv => simp [hv]

end Tracepack
