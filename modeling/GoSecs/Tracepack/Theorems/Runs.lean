import GoSecs.Tracepack.Statistics
import GoSecs.Tracepack.Theorems.SeqSet
import GoSecs.Tracepack.Theorems.Aggregate

open List

namespace Tracepack

open Tlv (SeqRange)

variable {rs qs : List SeqRange} {r q : SeqRange} {prev prev' : Option Nat} {x : Nat}

namespace Separated

theorem ne_empty (h : Separated prev (r :: rs)) : seqSet (r :: rs) ≠ ∅ := by
  have hm : r.first ∈ seqSet (r :: rs) := by simp [h.1]
  exact Finset.ne_empty_of_mem hm

theorem mem_tail (h : Separated prev (r :: rs)) :
    x ∈ seqSet rs ↔ x ∈ seqSet (r :: rs) ∧ r.last < x := by
  constructor
  · intro hx
    have := h.2.2.lt hx
    exact ⟨Finset.mem_union_right _ hx, by omega⟩
  · rintro ⟨hx, hl⟩
    rcases Finset.mem_union.mp hx with hx | hx
    · have := (Finset.mem_Icc.mp hx).2
      omega
    · exact hx

theorem last_le (h : Separated prev (r :: rs)) (hf : q.first = r.first)
    (hs : ∀ x ∈ Finset.Icc q.first q.last, x ∈ seqSet (r :: rs)) : q.last ≤ r.last := by
  by_contra hn
  have hr := h.1
  have hx := hs (r.last + 1) (Finset.mem_Icc.mpr (by omega))
  have := h.2.2.lt (h.mem_tail.mpr ⟨hx, by omega⟩)
  omega

-- The maximal ranges are determined by the seqs in them.
theorem unique (h : Separated prev rs) (h' : Separated prev' qs) (he : seqSet rs = seqSet qs) :
    rs = qs := by
  induction rs generalizing prev prev' qs
  case nil =>
    cases qs
    case nil => rfl
    case cons q _ => exact absurd he.symm h'.ne_empty
  case cons r rs hi =>
    cases qs
    case nil => exact absurd he h.ne_empty
    case cons q qs =>
      have hq : q.first ∈ seqSet (q :: qs) := by simp [h'.1]
      have hr : r.first ∈ seqSet (r :: rs) := by simp [h.1]
      have hf : r.first = q.first :=
        le_antisymm (h.first_le (he ▸ hq)) (h'.first_le (he ▸ hr))
      have hl : r.last = q.last := by
        apply le_antisymm
        · exact h'.last_le hf fun x hx => he ▸ Finset.mem_union_left _ hx
        · exact h.last_le hf.symm fun x hx => he ▸ Finset.mem_union_left _ hx
      have ht : seqSet rs = seqSet qs := by
        ext x
        rw [h.mem_tail, h'.mem_tail, he, hl]
      rw [hi h.2.2 h'.2.2 ht, show r = q by cases r; cases q; simp_all]

end Separated

structure Covers (seqs : Finset Nat) (rs : List SeqRange) : Prop where
  separated : Separated none rs
  seqs : seqSet rs = seqs

theorem covers_runs {seqs : List Nat} (h : seqs.Pairwise (· < ·)) :
    Covers seqs.toFinset (runs seqs) := by
  induction seqs
  case nil => exact ⟨trivial, rfl⟩
  case cons seq seqs hi =>
    have ⟨hlt, hs⟩ := pairwise_cons.mp h
    have ⟨hsep, hset⟩ := hi hs
    simp only [runs]
    cases hr : runs seqs
    case nil =>
      simp only [hr, seqSet_nil] at hset
      exact ⟨⟨le_rfl, by simp, trivial⟩, by simp [← hset]⟩
    case cons r rs =>
      rw [hr] at hsep hset
      have hf : seq < r.first := by
        refine hlt r.first ?_
        rw [← mem_toFinset, ← hset]
        simp [hsep.1]
      have ⟨hrr, _, htail⟩ := hsep
      simp only
      split
      case isTrue he =>
        have hl : seq ≤ r.last := by omega
        refine ⟨⟨hl, by simp, htail⟩, ?_⟩
        have hicc : Finset.Icc seq r.last = insert seq (Finset.Icc r.first r.last) := by
          ext x
          simp only [Finset.mem_insert, Finset.mem_Icc]
          omega
        rw [toFinset_cons, ← hset, seqSet_cons, seqSet_cons, hicc, Finset.insert_union]
      case isFalse he =>
        have hgap : seq + 1 < r.first := by omega
        refine ⟨⟨le_rfl, by simp, hrr, by simpa using hgap, htail⟩, ?_⟩
        rw [toFinset_cons, ← hset, seqSet_cons, Finset.Icc_self, Finset.insert_eq]

namespace Covers

variable {seqs : Finset Nat}

theorem eq_runs {seqs : List Nat} (h : Covers seqs.toFinset rs) (hs : seqs.Pairwise (· < ·)) :
    rs = runs seqs :=
  h.separated.unique (covers_runs hs).separated (h.seqs.trans (covers_runs hs).seqs.symm)

-- A range takes the place of those that it joins with more seqs.
theorem replace {l m t : List SeqRange} {add : Finset Nat} (h : Covers seqs (l ++ m ++ t))
    (hs : Finset.Icc q.first q.last = seqSet m ∪ add) (hq : q.first ≤ q.last)
    (hl : ∀ a ∈ l, a.last + 1 < q.first) (ht : ∀ a ∈ t, q.last + 1 < a.first) :
    Covers (seqs ∪ add) (l ++ [q] ++ t) := by
  have ⟨hle, hp, _⟩ := separated_iff.mp h.separated
  have ⟨hlm, hpt, hlt⟩ := pairwise_append.mp hp
  refine ⟨separated_iff.mpr ⟨?_, ?_, nofun⟩, ?_⟩
  · simp only [mem_append, mem_singleton]
    rintro r ((hr | rfl) | hr)
    exacts [hle r (by simp [hr]), hq, hle r (by simp [hr])]
  · refine pairwise_append.mpr ⟨pairwise_append.mpr
      ⟨(pairwise_append.mp hlm).1, pairwise_singleton .., by simpa using hl⟩, hpt, ?_⟩
    simp only [mem_append, mem_singleton]
    rintro a (ha | rfl) c hc
    exacts [hlt a (mem_append_left _ ha) c hc, ht c hc]
  · rw [← h.seqs]
    simp only [seqSet_append, seqSet_cons, seqSet_nil, Finset.union_empty, hs]
    ext x
    simp only [Finset.mem_union]
    tauto

theorem concat (h : Covers seqs rs) (hq : q.first ≤ q.last) (hs : ∀ x ∈ seqs, x + 1 < q.first) :
    Covers (seqs ∪ Finset.Icc q.first q.last) (rs ++ [q]) := by
  rw [← append_nil (rs ++ [q])]
  refine replace (m := []) (by simpa using h) (by simp) hq (fun a ha => ?_) nofun
  exact hs _ (h.seqs ▸ h.separated.last_mem ha)

theorem extend (h : Covers seqs (rs ++ [r])) (hq : q.first ≤ q.last) (ht : r.last + 1 = q.first) :
    Covers (seqs ∪ Finset.Icc q.first q.last) (rs ++ [{ r with last := q.last }]) := by
  have hr : r.first ≤ r.last := h.separated.first_le_last (by simp)
  rw [← append_nil (rs ++ _)]
  refine replace (m := [r]) (by simpa using h) ?_ (by simp; omega) ?_ nofun
  · ext x
    simp
    omega
  · simpa using (pairwise_append.mp h.separated.pairwise).2.2

theorem union {add : List SeqRange} (h : Covers seqs rs) (ha : Separated prev add)
    (hlt : ∀ x ∈ seqs, ∀ y ∈ seqSet add, x < y) :
    Covers (seqs ∪ seqSet add) (unionSeqRanges exact rs add) := by
  induction add generalizing seqs rs prev
  case nil => simpa [unionSeqRanges] using h
  case cons q add hi =>
    obtain ⟨hq, _, hadd⟩ := ha
    have hqm : q.first ∈ seqSet (q :: add) := by simp [hq]
    -- What is left of the ranges lies above the seqs and above `q`.
    have hlt' : ∀ x ∈ seqs ∪ Finset.Icc q.first q.last, ∀ y ∈ seqSet add, x < y := by
      intro x hx y hy
      rcases Finset.mem_union.mp hx with hx | hx
      · exact hlt x hx y (Finset.mem_union_right _ hy)
      · have := (Finset.mem_Icc.mp hx).2
        have := hadd.lt hy
        omega
    rw [seqSet_cons, ← Finset.union_assoc]
    rcases eq_nil_or_concat rs with rfl | ⟨init, l, rfl⟩
    case inl =>
      simp only [unionSeqRanges, getLast?_nil]
      refine hi (h.concat hq fun x hx => ?_) hadd hlt'
      simp [← h.seqs] at hx
    case inr =>
      rw [concat_eq_append] at *
      have hl : l.first ≤ l.last := h.separated.first_le_last (by simp)
      have hlm : l.last ∈ seqs := by
        rw [← h.seqs, seqSet_append]
        simp [hl]
      have hlq := hlt l.last hlm q.first hqm
      simp only [unionSeqRanges, getLast?_concat, dropLast_concat, exact_add_one]
      split
      case isTrue ht => exact hi (h.extend hq ht) hadd hlt'
      case isFalse ht =>
        refine hi (h.concat hq fun x hx => ?_) hadd hlt'
        have := h.separated.le_last getLast?_concat (h.seqs ▸ hx)
        omega

end Covers

theorem BlockSummary.addSeq_eq {s : BlockSummary} {seq : Nat}
    (h : ∀ r ∈ s.seqRanges, r.last + 1 < 2 ^ 64) :
    s.addSeq seq =
      { s with seqRanges := unionSeqRanges exact s.seqRanges [⟨seq, seq⟩] } := by
  simp only [addSeq, unionSeqRanges]
  cases hg : s.seqRanges.getLast?
  case none => rfl
  case some r =>
    have := h r (mem_of_getLast? hg)
    simp only [inc64, Nat.mod_eq_of_lt this, exact_add_one]
    split <;> rfl

end Tracepack
