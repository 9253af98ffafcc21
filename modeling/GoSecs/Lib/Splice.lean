import Mathlib.Tactic

open List

-- Spans of a list: reading the spans one after the other, and writing a list over them.

namespace Splice

variable {α : Type}

structure Span where
  offset : Nat
  length : Nat
deriving DecidableEq

namespace Span

def stop (s : Span) : Nat :=
  s.offset + s.length

def Holds (s : Span) (i : Nat) : Prop :=
  s.offset ≤ i ∧ i < s.stop

instance (s : Span) (i : Nat) : Decidable (s.Holds i) :=
  inferInstanceAs (Decidable (_ ∧ _))

def Disjoint (s t : Span) : Prop :=
  s.stop ≤ t.offset ∨ t.stop ≤ s.offset

end Span

-- The position lies in one of the spans.
def Covered (ss : List Span) (i : Nat) : Prop :=
  ∃ s ∈ ss, s.Holds i

-- All spans lie in a list of `n` elements.
def Inside (ss : List Span) (n : Nat) : Prop :=
  ∀ s ∈ ss, s.stop ≤ n

def total (ss : List Span) : Nat :=
  (ss.map Span.length).sum

def overwrite (b : List α) (off : Nat) (w : List α) : List α :=
  b.take off ++ w ++ b.drop (off + w.length)

def gather (b : List α) (ss : List Span) : List α :=
  ss.flatMap fun s => (b.drop s.offset).take s.length

def scatter : List α → List Span → List α → List α
  | b, [],      _ => b
  | b, s :: ss, w => scatter (overwrite b s.offset (w.take s.length)) ss (w.drop s.length)

variable {b b' w : List α} {s : Span} {ss ts : List Span} {off i n : Nat}

@[simp]
theorem covered_nil : ¬Covered [] i := by
  simp [Covered]

@[simp]
theorem covered_cons : Covered (s :: ss) i ↔ s.Holds i ∨ Covered ss i := by
  simp [Covered]

theorem covered_flatMap {β : Type} {f : β → List Span} {l : List β} :
    Covered (l.flatMap f) i ↔ ∃ x ∈ l, Covered (f x) i := by
  simp only [Covered, mem_flatMap]
  constructor
  · rintro ⟨s, ⟨x, hx, hs⟩, hi⟩
    exact ⟨x, hx, s, hs, hi⟩
  · rintro ⟨x, hx, s, hs, hi⟩
    exact ⟨s, ⟨x, hx, hs⟩, hi⟩

@[simp]
theorem inside_cons : Inside (s :: ss) n ↔ s.stop ≤ n ∧ Inside ss n := by
  simp [Inside]

@[simp]
theorem total_cons : total (s :: ss) = s.length + total ss :=
  rfl

theorem length_overwrite (h : off + w.length ≤ b.length) :
    (overwrite b off w).length = b.length := by
  simp only [overwrite, length_append, length_take, length_drop]
  omega

theorem overwrite_inside (h : off + w.length ≤ b.length) (hl : off ≤ i) (hu : i < off + w.length) :
    (overwrite b off w)[i]? = w[i - off]? := by
  have ht : (b.take off).length = off := by simp; omega
  rw [overwrite, append_assoc, getElem?_append_right (by omega), ht,
    getElem?_append_left (by omega)]

theorem overwrite_outside (h : off + w.length ≤ b.length) (hi : i < off ∨ off + w.length ≤ i) :
    (overwrite b off w)[i]? = b[i]? := by
  have ht : (b.take off).length = off := by simp; omega
  rcases hi with hi | hi
  · rw [overwrite, append_assoc, getElem?_append_left (by omega), getElem?_take,
      if_pos hi]
  · rw [overwrite, getElem?_append_right (by simp [ht]; omega), getElem?_drop]
    simp only [length_append, ht]
    congr 1
    omega

theorem length_gather (h : Inside ss b.length) : (gather b ss).length = total ss := by
  induction ss
  case nil => rfl
  case cons s ss hi =>
    have ⟨hs, hss⟩ := inside_cons.mp h
    have hl : ((b.drop s.offset).take s.length).length = s.length := by
      simp only [Span.stop] at hs
      simp
      omega
    have := hi hss
    simp only [gather] at this
    simp [gather, hl, this]

theorem gather_congr (h : ∀ i, Covered ss i → b[i]? = b'[i]?) : gather b ss = gather b' ss := by
  induction ss
  case nil => rfl
  case cons s ss hi =>
    have hs : (b.drop s.offset).take s.length = (b'.drop s.offset).take s.length := by
      apply ext_getElem?
      intro k
      by_cases hk : k < s.length
      · have hc : Covered (s :: ss) (s.offset + k) :=
          covered_cons.mpr (.inl ⟨by omega, by simp [Span.stop]; omega⟩)
        simp [hk, h _ hc]
      · simp [hk]
    have hr : gather b ss = gather b' ss := hi fun i hc => h i (covered_cons.mpr (.inr hc))
    simp only [gather] at hr
    simp [gather, hs, hr]

theorem length_take_eq (h : total (s :: ss) = w.length) : (w.take s.length).length = s.length := by
  simp only [total_cons] at h
  simp
  omega

theorem total_drop_eq (h : total (s :: ss) = w.length) : total ss = (w.drop s.length).length := by
  simp only [total_cons] at h
  simp
  omega

theorem length_scatter (h : Inside ss b.length) (hc : total ss = w.length) :
    (scatter b ss w).length = b.length := by
  induction ss generalizing b w
  case nil => rfl
  case cons s ss hi =>
    have ⟨hs, hss⟩ := inside_cons.mp h
    have ht := length_take_eq hc
    have hl := @length_overwrite α b (w.take s.length) s.offset (by rw [ht]; exact hs)
    rw [scatter, hi (by rwa [hl]) (total_drop_eq hc), hl]

theorem scatter_outside (h : Inside ss b.length) (hc : total ss = w.length)
    (hi : ¬Covered ss i) : (scatter b ss w)[i]? = b[i]? := by
  induction ss generalizing b w
  case nil => rfl
  case cons s ss ih =>
    have ⟨hs, hss⟩ := inside_cons.mp h
    have ht := length_take_eq hc
    have hin : s.offset + (w.take s.length).length ≤ b.length := by rw [ht]; exact hs
    have hl := length_overwrite hin
    rw [covered_cons, not_or] at hi
    rw [scatter, ih (by rwa [hl]) (total_drop_eq hc) hi.2, overwrite_outside hin]
    have := hi.1
    simp only [Span.Holds, Span.stop] at this
    rw [ht]
    omega

theorem gather_scatter (h : Inside ss b.length) (hc : total ss = w.length)
    (hd : ss.Pairwise Span.Disjoint) : gather (scatter b ss w) ss = w := by
  induction ss generalizing b w
  case nil =>
    simp only [total, map_nil, sum_nil] at hc
    simp [gather, length_eq_zero_iff.mp hc.symm]
  case cons s ss ih =>
    have ⟨hs, hss⟩ := inside_cons.mp h
    have ⟨hsd, hd⟩ := pairwise_cons.mp hd
    have ht := length_take_eq hc
    have hin : s.offset + (w.take s.length).length ≤ b.length := by rw [ht]; exact hs
    have hl := length_overwrite hin
    have hcd := total_drop_eq hc
    -- The later writes leave the first span alone.
    have hfirst : ((scatter b (s :: ss) w).drop s.offset).take s.length = w.take s.length := by
      apply ext_getElem?
      intro k
      by_cases hk : k < s.length
      · have hn : ¬Covered ss (s.offset + k) := by
          rintro ⟨t, ht, hlo, hhi⟩
          have := hsd t ht
          simp only [Span.Disjoint, Span.stop] at this hhi
          omega
        rw [getElem?_take, if_pos hk, getElem?_drop, scatter,
          scatter_outside (by rwa [hl]) hcd hn, overwrite_inside hin (by omega) (by omega)]
        simp
      · simp [hk]
    have hrest := ih (by rwa [hl]) hcd hd
    simp only [scatter] at hfirst
    simp only [gather] at hrest
    simp [gather, scatter, hfirst, hrest]

-- Writing back what another list holds in the spans.
theorem scatter_gather (h : Inside ss b.length) (hl : b'.length = b.length) (hi : Covered ss i) :
    (scatter b' ss (gather b ss))[i]? = b[i]? := by
  induction ss generalizing b'
  case nil => simp at hi
  case cons s ss ih =>
    have ⟨hs, hss⟩ := inside_cons.mp h
    have hlen : ((b.drop s.offset).take s.length).length = s.length := by
      simp only [Span.stop] at hs
      simp
      omega
    have ht : (gather b (s :: ss)).take s.length = (b.drop s.offset).take s.length := by
      rw [gather, flatMap_cons, take_append_of_le_length (by rw [hlen]), take_take,
        min_self]
    have hd : (gather b (s :: ss)).drop s.length = gather b ss := by
      rw [gather, flatMap_cons, drop_append, hlen, drop_eq_nil_of_le (by rw [hlen])]
      simp [gather]
    have hin : s.offset + ((b.drop s.offset).take s.length).length ≤ b'.length := by
      rw [hlen, hl]
      exact hs
    have hl' := (length_overwrite hin).trans hl
    rw [scatter, ht, hd]
    by_cases hr : Covered ss i
    · exact ih hss hl' hr
    · have ⟨hlo, hhi⟩ := (covered_cons.mp hi).resolve_right hr
      simp only [Span.stop] at hhi
      rw [scatter_outside (by rwa [hl']) (length_gather hss).symm hr,
        overwrite_inside hin hlo (by omega), getElem?_take, if_pos (by omega),
        getElem?_drop]
      congr 1
      omega

end Splice
