import GoSecs.Tracepack.Soundness

open List

namespace Tracepack

open Tlv (SeqRange)

variable {rs : List SeqRange} {r : SeqRange} {prev : Option Nat} {x p : Nat}

@[simp]
theorem seqSet_nil : seqSet [] = ∅ :=
  rfl

@[simp]
theorem seqSet_cons : seqSet (r :: rs) = Finset.Icc r.first r.last ∪ seqSet rs :=
  rfl

theorem mem_seqSet : x ∈ seqSet rs ↔ ∃ r ∈ rs, r.first ≤ x ∧ x ≤ r.last := by
  induction rs
  case nil => simp
  case cons r rs hi => simp [hi]

theorem seqSet_append (rs qs : List SeqRange) : seqSet (rs ++ qs) = seqSet rs ∪ seqSet qs := by
  induction rs
  case nil => simp
  case cons r rs hi => simp [hi, Finset.union_assoc]

def Separated : Option Nat → List SeqRange → Prop
  | _,    [] => True
  | prev, r :: rs =>
    r.first ≤ r.last ∧ (∀ last ∈ prev, last + 1 < r.first) ∧ Separated (some r.last) rs

-- The ranges are not empty, and each lies with a gap above `prev` and above those before it.
theorem separated_iff : Separated prev rs ↔ (∀ r ∈ rs, r.first ≤ r.last) ∧
    (rs.Pairwise fun a b => a.last + 1 < b.first) ∧ ∀ last ∈ prev, ∀ r ∈ rs, last + 1 < r.first := by
  induction rs generalizing prev
  case nil => simp [Separated]
  case cons r rs hi =>
    simp only [Separated, hi, forall_mem_cons, pairwise_cons, Option.mem_some_iff,
      forall_eq']
    constructor
    · rintro ⟨hr, hp, hrs, hpw, hlt⟩
      refine ⟨⟨hr, hrs⟩, ⟨hlt, hpw⟩, fun last hl => ⟨hp last hl, fun q hq => ?_⟩⟩
      have := hp last hl
      have := hlt q hq
      omega
    · rintro ⟨⟨hr, hrs⟩, ⟨hlt, hpw⟩, hp⟩
      exact ⟨hr, fun last hl => (hp last hl).1, hrs, hpw, hlt⟩

namespace Separated

theorem first_le_last (h : Separated prev rs) (hr : r ∈ rs) : r.first ≤ r.last :=
  (separated_iff.mp h).1 r hr

theorem last_mem (h : Separated prev rs) (hr : r ∈ rs) : r.last ∈ seqSet rs :=
  mem_seqSet.mpr ⟨r, hr, h.first_le_last hr, le_rfl⟩

theorem pairwise (h : Separated prev rs) : rs.Pairwise fun a b => a.last + 1 < b.first :=
  (separated_iff.mp h).2.1

theorem lt (h : Separated (some p) rs) (hx : x ∈ seqSet rs) : p + 1 < x := by
  have ⟨r, hr, hf, _⟩ := mem_seqSet.mp hx
  exact ((separated_iff.mp h).2.2 p rfl r hr).trans_le hf

theorem first_le (h : Separated prev (r :: rs)) (hx : x ∈ seqSet (r :: rs)) : r.first ≤ x := by
  have ⟨hr, _, hs⟩ := h
  rcases Finset.mem_union.mp hx with hx | hx
  · exact (Finset.mem_Icc.mp hx).1
  · have := hs.lt hx
    omega

theorem le_last (h : Separated prev rs) (hl : rs.getLast? = some r) (hx : x ∈ seqSet rs) :
    x ≤ r.last := by
  obtain ⟨l, rfl⟩ := getLast?_eq_some_iff.mp hl
  have ⟨q, hq, _, hxl⟩ := mem_seqSet.mp hx
  rcases mem_append.mp hq with hq | hq
  · have := (pairwise_append.mp h.pairwise).2.2 q hq r mem_cons_self
    have := h.first_le_last (r := r) (by simp)
    omega
  · rwa [mem_singleton.mp hq] at hxl

-- The ranges before the position that the search finds end below `x`, and the range there holds it
-- if any does.
theorem search_cases (h : Separated prev rs) (x : Nat) : ∃ l t, rs = l ++ t ∧
    BinarySearch.search (fun r => r.last < x) rs rs.length 0 rs.length = l.length ∧
    (∀ r ∈ l, r.last < x) ∧ (∀ r ∈ t, x ≤ r.last) ∧
    (x ∈ seqSet rs ↔ ∃ r, t.head? = some r ∧ r.first ≤ x) := by
  have hs : rs.Pairwise fun a b => decide (b.last < x) → decide (a.last < x) := by
    refine h.pairwise.imp_of_mem fun _ hb hab => ?_
    have := h.first_le_last hb
    simp only [decide_eq_true_eq]
    omega
  obtain ⟨l, t, rfl, hi, hl, ht⟩ := BinarySearch.exists_search_eq hs
  simp only [decide_eq_true_eq, not_lt] at hl ht
  refine ⟨l, t, rfl, hi, hl, ht, mem_seqSet.trans ⟨?_, ?_⟩⟩
  · rintro ⟨r, hr, hf, hx⟩
    rcases mem_append.mp hr with hr | hr
    · have := hl r hr
      omega
    · obtain ⟨q, t, rfl⟩ := exists_cons_of_ne_nil (ne_nil_of_mem hr)
      refine ⟨q, rfl, ?_⟩
      rcases mem_cons.mp hr with rfl | hr
      · exact hf
      · have := (pairwise_cons.mp (pairwise_append.mp h.pairwise).2.1).1 r hr
        have := ht q mem_cons_self
        omega
  · rintro ⟨r, hr, hf⟩
    have hr := mem_of_mem_head? hr
    exact ⟨r, mem_append_right _ hr, hf, ht r hr⟩

theorem card_cons (h : Separated prev (r :: rs)) :
    (seqSet (r :: rs)).card = r.last - r.first + 1 + (seqSet rs).card := by
  have ⟨hr, _, hs⟩ := h
  have hd : Disjoint (Finset.Icc r.first r.last) (seqSet rs) := by
    refine Finset.disjoint_left.mpr fun x hx hx' => ?_
    have := (Finset.mem_Icc.mp hx).2
    have := hs.lt hx'
    omega
  rw [seqSet_cons, Finset.card_union_of_disjoint hd, Nat.card_Icc]
  omega

end Separated

theorem BlockSummary.mem_seqs_of_inSeqSet {s : BlockSummary} (h : s.inSeqSet x = true) :
    x ∈ s.seqs := by
  have ⟨i, hi⟩ := Option.isSome_iff_exists.mp h
  have ⟨r, hr, hx⟩ := BinarySearch.exists_of_find hi
  simp only [not_lt, decide_eq_true_eq] at hx
  exact mem_seqSet.mpr ⟨r, hr, hx.2, hx.1⟩

end Tracepack
