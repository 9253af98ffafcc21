import GoSecs.Tracepack.Theorems.SeqSet
import GoSecs.Tracepack.Theorems.Aggregate
import GoSecs.Tracepack.Theorems.Tlv

open Run List Option

namespace Tracepack

open Tlv

variable {s : BlockSummary} {want sum total : Nat} {cs : List Nat}

theorem countSum_agree (hw : want < 2 ^ 32) (hs : sum ≤ want) (hc : ∀ c ∈ cs, c < 2 ^ 32) :
    Agree (countSum wrapping want cs sum) (countSum exact want cs sum) (· = sum + cs.sum) := by
  induction cs generalizing sum
  case nil => exact .pure (by simp)
  case cons c cs hi =>
    have ⟨hc, hcs⟩ := forall_mem_cons.mp hc
    simp only [countSum, wrapping_add (show sum + c < 2 ^ 64 by omega), exact_add]
    refine .check fun hn => ?_
    refine (hi (by omega) hcs).mono fun t ht => ?_
    rw [ht, sum_cons, Nat.add_assoc]

theorem checkCountSum_agree (hw : want < 2 ^ 32) (hc : ∀ c ∈ cs, c < 2 ^ 32) :
    Agree (checkCountSum wrapping cs want) (checkCountSum exact cs want) fun _ => cs.sum = want := by
  refine (countSum_agree hw (Nat.zero_le _) hc).bind fun t ht => ?_
  refine (Agree.failIf ..).mono fun _ hn => ?_
  rw [not_not] at hn
  omega

namespace BlockSummary

-- The last range may end at 2^63-1, so the end of a range plus one never wraps, and neither does the
-- number of its seqs.
theorem checkRanges_agree {rs : List SeqRange} {j members : Nat} {prev : Option Nat}
    (hw : s.recordCount < 2 ^ 32) (hm : members ≤ s.recordCount) (hr : ∀ r ∈ rs, r.last ≤ maxU64)
    (hp : ∀ last ∈ prev, last ≤ maxU64) :
    Agree (s.checkRanges wrapping rs j prev members) (s.checkRanges exact rs j prev members)
      fun total =>
        Separated prev rs ∧ total = members + (seqSet rs).card ∧
        (prev = none → ∀ r ∈ rs.head?, r.first = s.firstSeq) := by
  induction rs generalizing j prev members
  case nil => exact .pure ⟨trivial, by simp, by simp⟩
  case cons r rs hi =>
    obtain ⟨hl, hrs⟩ := forall_mem_cons.mp hr
    simp only [maxU64] at hl hp
    have hnext : (prev.any fun last : Nat => r.first ≤ wrapping (last + 1)) =
        prev.any fun last => r.first ≤ last + 1 := by
      cases prev
      case none => rfl
      case some last =>
        have := hp last rfl
        rw [any_some, any_some, wrapping_eq (by omega) (by omega), exact_add_one]
    simp only [checkRanges, hnext, exact_add_one]
    refine .check fun ho => ?_
    refine .check fun hf => ?_
    refine .check fun hg => ?_
    have hspan : exact (r.last - r.first + 1) = r.last - r.first + 1 := by
      simp only [exact]
      omega
    rw [wrapping_eq (v := r.last - r.first + 1) (by omega) (by omega), hspan,
      wrapping_add (by omega), exact_add]
    refine .check fun hn => ?_
    refine (hi (by omega) hrs (by simpa [maxU64] using hl)).mono fun total h => ?_
    obtain ⟨hs, ht, _⟩ := h
    have hsep : Separated prev (r :: rs) := by
      refine ⟨by omega, fun last hlast => ?_, hs⟩
      rw [hlast, any_some, decide_eq_true_eq] at hg
      omega
    refine ⟨hsep, ?_, fun hp q hq => ?_⟩
    · rw [ht, hsep.card_cons]
      omega
    · rw [head?_cons, mem_some_iff] at hq
      subst hq
      by_contra hne
      exact hf ⟨hp, hne⟩

-- The seqs of the block are as many as its records and lie between its first and its last seq.
structure SeqsOk (s : BlockSummary) : Prop where
  card   : s.seqs.card = s.recordCount
  bounds : ∀ seq ∈ s.seqs, s.firstSeq ≤ seq ∧ seq ≤ s.lastSeq
  last   : ∀ r ∈ s.seqRanges, r.last ≤ maxU64
  apart  : Separated none s.seqRanges

theorem checkSeqSet_agree (hw : s.recordCount < 2 ^ 32) (hr : ∀ r ∈ s.seqRanges, r.last ≤ maxU64)
    (hl : s.lastSeq ≤ maxU64) (hf : s.firstSeq ≤ s.lastSeq) :
    Agree (s.checkSeqSet wrapping) (s.checkSeqSet exact) fun t =>
      (∃ rs, t = { s with seqRanges := rs }) ∧ t.SeqsOk := by
  simp only [checkSeqSet]
  cases hg : s.seqRanges.getLast?
  case none =>
    have hspan : exact (s.lastSeq - s.firstSeq + 1) = s.lastSeq - s.firstSeq + 1 := by
      simp only [exact]
      omega
    simp only [maxU64] at hl
    simp only
    rw [wrapping_eq (by omega) (by omega), hspan]
    refine .check fun hn => ?_
    refine .pure ⟨⟨_, rfl⟩, ?_, ?_, ?_, ?_⟩
    · simp only [seqs, seqSet_cons, seqSet_nil, Finset.union_empty, Nat.card_Icc]
      omega
    · simp [seqs]
    · simpa [maxU64] using hl
    · simpa [Separated] using hf
  case some r =>
    refine (checkRanges_agree hw (Nat.zero_le _) hr (by simp)).bind fun members h => ?_
    obtain ⟨hs, hm, hh⟩ := h
    refine .check fun he => ?_
    refine .check fun hn => ?_
    rw [not_not] at he hn
    refine .pure ⟨⟨_, rfl⟩, ?_, fun x hx => ⟨?_, ?_⟩, hr, hs⟩
    · rw [seqs]
      omega
    · obtain ⟨q, rs, hq⟩ : ∃ q rs, s.seqRanges = q :: rs :=
        exists_cons_of_ne_nil (by rintro h; simp [h] at hg)
      rw [seqs, hq] at hx
      rw [hq] at hs hh
      rw [← hh rfl q rfl]
      exact hs.first_le hx
    · rw [← he]
      exact hs.le_last hg hx

theorem checkEpoch_spec (s : BlockSummary) (e : EpochSummary) :
    Spec (s.checkEpoch e) fun _ => ∀ seq ∈ e.closeSeq, seq ∈ s.seqs := by
  refine .check fun _ => ?_
  refine .check fun _ => ?_
  refine .check fun _ => ?_
  refine .check fun _ => ?_
  refine (Agree.failIf ..).mono fun _ hc seq hs => mem_seqs_of_inSeqSet ?_
  rw [hs, any_some, Bool.not_eq_true, Bool.not_eq_false'] at hc
  exact hc

theorem sumEpochs_agree {es : List EpochSummary} (hw : s.recordCount < 2 ^ 32)
    (ht : total ≤ s.recordCount) (he : ∀ e ∈ es, e.recordCount ≤ maxU64) :
    Agree (s.sumEpochs wrapping es total) (s.sumEpochs exact es total) fun t =>
      t = total + epochTotal es ∧ ∀ e ∈ es, ∀ seq ∈ e.closeSeq, seq ∈ s.seqs := by
  induction es generalizing total
  case nil => exact .pure ⟨rfl, by simp⟩
  case cons e es hi =>
    obtain ⟨hc, hes⟩ := forall_mem_cons.mp he
    simp only [maxU64] at hc
    simp only [sumEpochs, wrapping_add (show total + e.recordCount < 2 ^ 64 by omega), exact_add]
    refine (s.checkEpoch_spec e).bind fun _ hclose => ?_
    refine .check fun hn => ?_
    refine (hi (by omega) hes).mono fun t h => ⟨?_, forall_mem_cons.mpr ⟨hclose, h.2⟩⟩
    rw [h.1, epochTotal, epochTotal, map_cons, sum_cons, Nat.add_assoc]

theorem checkUniqueEpochs_spec (es : List EpochSummary) :
    Spec (checkUniqueEpochs es) fun _ => True := by
  unfold checkUniqueEpochs
  split
  · exact .fail _
  · exact .pure trivial

theorem checkEpochs_agree (hw : s.recordCount < 2 ^ 32)
    (he : ∀ e ∈ s.epochs, e.recordCount ≤ maxU64) :
    Agree (s.checkEpochs wrapping) (s.checkEpochs exact) fun _ =>
      epochTotal s.epochs = s.recordCount ∧ ∀ e ∈ s.epochs, ∀ seq ∈ e.closeSeq, seq ∈ s.seqs := by
  refine (checkUniqueEpochs_spec _).bind fun _ _ => ?_
  refine (sumEpochs_agree hw (Nat.zero_le _) he).bind fun t ⟨ht, hc⟩ => ?_
  refine (Agree.failIf ..).mono fun _ hn => ⟨?_, hc⟩
  rw [not_not] at hn
  omega

theorem checkBoundaries_spec (s : BlockSummary) (bs : List BoundarySummary) :
    Spec (s.checkBoundaries bs) fun _ => ∀ b ∈ bs, b.seq ∈ s.seqs := by
  induction bs
  case nil => exact .pure (by simp)
  case cons b bs hi =>
    refine .check fun hb => ?_
    refine hi.mono fun _ hbs => forall_mem_cons.mpr ⟨?_, hbs⟩
    exact mem_seqs_of_inSeqSet (by simpa using hb)

structure Decoded (s : BlockSummary) : Prop where
  recordCount : s.recordCount < 2 ^ 32
  uncompressedLen : s.uncompressedLen < 2 ^ 32
  firstSeq : s.firstSeq ≤ s.lastSeq
  lastSeq : s.lastSeq ≤ maxU64
  kindCounts : ∀ c ∈ s.kindCounts, c < 2 ^ 32
  dirCounts : ∀ c ∈ s.dirCounts, c < 2 ^ 32
  decodeStatusCounts : ∀ c ∈ s.decodeStatusCounts, c < 2 ^ 32
  seqRanges : ∀ r ∈ s.seqRanges, r.last ≤ maxU64
  epochs : ∀ e ∈ s.epochs, e.recordCount ≤ maxU64

theorem checkSummary_agree (h : s.Decoded) :
    Agree (s.checkSummary wrapping) (s.checkSummary exact) fun t =>
      (∃ rs, t = { s with seqRanges := rs }) ∧ t.Sound ∧ t.Bounded ∧ Separated none t.seqRanges := by
  refine (checkCountSum_agree h.recordCount h.kindCounts).mapErr.bind fun _ _ => ?_
  refine (checkCountSum_agree h.recordCount h.dirCounts).mapErr.bind fun _ _ => ?_
  refine (checkCountSum_agree h.recordCount h.decodeStatusCounts).mapErr.bind fun _ _ => ?_
  refine (checkSeqSet_agree h.recordCount h.seqRanges h.lastSeq h.firstSeq).bind fun t ht => ?_
  obtain ⟨⟨rs, rfl⟩, hs⟩ := ht
  refine (checkEpochs_agree (s := { s with seqRanges := rs }) h.recordCount h.epochs).bind
    fun _ ⟨he, hc⟩ => ?_
  refine (checkBoundaries_spec ..).bind fun _ hb => ?_
  refine .pure ⟨⟨_, rfl⟩, ⟨hs.card, hs.bounds, hc, he, hb⟩, ?_, hs.apart⟩
  exact ⟨h.recordCount, h.uncompressedLen, h.kindCounts, h.dirCounts, h.decodeStatusCounts, hs.last,
    he.trans_lt h.recordCount⟩

end BlockSummary
end Tracepack
