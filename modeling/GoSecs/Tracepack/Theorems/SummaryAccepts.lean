import GoSecs.Tracepack.Blocks
import GoSecs.Tracepack.Theorems.AddRecord
import GoSecs.Tracepack.Theorems.StatsRoundTrip

open Run List

namespace Tracepack

open Tlv (SeqRange maxU64)

theorem sum_countP {α : Type} (f : α → Nat) (classes : Finset Nat) (as : List α)
    (h : ∀ a ∈ as, f a ∈ classes) :
    ∑ n ∈ classes, as.countP (fun a => decide (f a = n)) = as.length := by
  induction as
  case nil => simp
  case cons a as hi =>
    have ⟨ha, has⟩ := forall_mem_cons.mp h
    simp [countP_cons, Finset.sum_add_distrib, hi has, ha]

theorem sum_tally (vs : List UInt8) : (tally vs).sum = vs.length := by
  rw [← sum_countP UInt8.toNat (Finset.range (width vs)) vs fun v hv => by simpa using lt_width hv]
  rfl

variable {es : List EpochSummary}

theorem epochTotal_eq {rs : List Row} (h : Epochs (ofEpoch · rs) es) :
    epochTotal es = rs.length := by
  have hcount (n : Nat) : (ofEpoch n rs).length = rs.countP fun r => decide (r.header.epoch = n) :=
    (countP_eq_length_filter ..).symm
  have hmap : es.map (·.recordCount) =
      (es.map (·.epoch)).map fun n => rs.countP fun r => decide (r.header.epoch = n) := by
    rw [map_map]
    refine map_congr_left fun e he => ?_
    rw [(h.entry e he).recordCount, hcount]
    rfl
  rw [epochTotal, hmap, ← sum_toFinset _ h.nodup]
  refine sum_countP (·.header.epoch) _ rs fun r hr => ?_
  rw [mem_toFinset, h.mem]
  exact ne_nil_of_mem (mem_filter.mpr ⟨hr, by simp⟩)

variable {cs : List Nat}

theorem countSum_eq_ok {want sum : Nat} (h : sum + cs.sum ≤ want) :
    countSum exact want cs sum = .ok (sum + cs.sum) := by
  induction cs generalizing sum
  case nil => rfl
  case cons c cs hi =>
    rw [sum_cons, ← Nat.add_assoc] at h ⊢
    have hn : ¬want < sum + c := by omega
    simp [countSum, exact_add, failIf, hn, pure_eq, bind_ok, hi h]

theorem checkCountSum_eq_ok {want : Nat} (h : cs.sum = want) :
    checkCountSum exact cs want = .ok () := by
  rw [checkCountSum, countSum_eq_ok (by omega), bind_ok, failIf, if_neg (by omega)]
  rfl

namespace BlockSummary

variable {s : BlockSummary}

theorem checkRanges_eq_ok {rs : List SeqRange} {j members : Nat} {prev : Option Nat}
    (h : Separated prev rs) (hf : prev = none → ∀ r ∈ rs.head?, r.first = s.firstSeq)
    (hm : members + (seqSet rs).card ≤ s.recordCount) :
    s.checkRanges exact rs j prev members = .ok (members + (seqSet rs).card) := by
  induction rs generalizing j prev members
  case nil => rfl
  case cons r rs hi =>
    have hc := h.card_cons
    obtain ⟨hr, hp, hs⟩ := h
    have hfirst : ¬(prev = none ∧ r.first ≠ s.firstSeq) := fun hn => hn.2 (hf hn.1 r rfl)
    have hgap : (prev.any fun last : Nat => r.first ≤ exact (last + 1)) = false := by
      cases prev
      case none => rfl
      case some last =>
        have := hp last rfl
        simp only [Option.any_some, exact_add_one, decide_eq_false_iff_not]
        omega
    have hspan : exact (r.last - r.first + 1) = r.last - r.first + 1 := by
      simp only [exact]
      omega
    have hle : ¬s.recordCount < members + (r.last - r.first + 1) := by omega
    simp only [checkRanges, failIf, Nat.not_lt.mpr hr, hfirst, hgap, hspan, exact_add, hle, if_false,
      Bool.false_eq_true, pure_eq, bind_ok]
    rw [hi hs (by simp) (by omega), hc, Nat.add_assoc]

theorem inSeqSet_of_mem (h : Separated none s.seqRanges) {x : Nat} (hx : x ∈ s.seqs) :
    s.inSeqSet x = true := by
  have ⟨l, t, he, hi, _, ht, hm⟩ := h.search_cases x
  have ⟨r, hr, hf⟩ := hm.mp hx
  have hl := ht r (mem_of_mem_head? hr)
  have hget : s.seqRanges[l.length]? = some r := by
    rw [he, getElem?_append_right le_rfl, Nat.sub_self, ← head?_eq_getElem?, hr]
  simp [inSeqSet, BinarySearch.find, hi, hget, hf, hl]

end BlockSummary

structure Rows (rs : List Row) : Prop where
  ne_nil    : rs ≠ []
  ascending : (rs.map (·.header.seq)).Pairwise (· < ·)
  inRange   : ∀ r ∈ rs, r.InRange
  length    : rs.length < 2 ^ 32

variable {r : Row}

theorem Row.boundary?_eq_some {b : BoundarySummary} (h : r.boundary? = some b) :
    ∃ ev, r.event = some ev ∧ b.seq = r.header.seq ∧ b.ts = r.header.tsUTCNs ∧
      b.epoch = r.header.epoch ∧ b.gapStart = ev.gapStart ∧ b.gapEnd = ev.gapEnd := by
  cases hev : r.event
  case none => simp [Row.boundary?, hev] at h
  case some ev =>
    simp only [Row.boundary?, hev] at h
    split at h
    case isFalse => simp at h
    case isTrue =>
      obtain rfl := Option.some.inj h
      exact ⟨ev, rfl, rfl, rfl, rfl, rfl, rfl⟩

section Extremes

variable {α : Type} [LinearOrder α] {xs : List α} {m x : α}

theorem le_of_min? (h : ∀ t ∈ xs.min?, m = t) (hx : x ∈ xs) : m ≤ x := by
  cases ht : xs.min?
  case none   => simp [min?_eq_none_iff.mp ht] at hx
  case some t => exact h t ht ▸ (min?_eq_some_iff.mp ht).2 x hx

theorem le_of_max? (h : ∀ t ∈ xs.max?, m = t) (hx : x ∈ xs) : x ≤ m := by
  cases ht : xs.max?
  case none   => simp [max?_eq_none_iff.mp ht] at hx
  case some t => exact h t ht ▸ (max?_eq_some_iff.mp ht).2 x hx

end Extremes

namespace BlockSummary.Summarizes

variable {s : BlockSummary} {rs : List Row}

theorem mem_seqs (h : s.Summarizes rs) {x : Nat} :
    x ∈ s.seqs ↔ ∃ r ∈ rs, r.header.seq = x := by
  rw [seqs, h.seqRanges.seqs, mem_toFinset, mem_map]

theorem firstSeq_le (h : s.Summarizes rs) (hr : Rows rs) (hm : r ∈ rs) :
    s.firstSeq ≤ r.header.seq := by
  cases rs
  case nil => simp at hm
  case cons x xs =>
    rw [h.firstSeq x rfl]
    have hp := hr.ascending
    rw [map_cons, pairwise_cons] at hp
    rcases mem_cons.mp hm with rfl | hm
    · exact le_rfl
    · exact (hp.1 _ (mem_map_of_mem hm)).le

theorem le_lastSeq (h : s.Summarizes rs) (hr : Rows rs) (hm : r ∈ rs) :
    r.header.seq ≤ s.lastSeq := by
  obtain ⟨xs, x, rfl⟩ := (eq_nil_or_concat rs).resolve_left hr.ne_nil
  rw [concat_eq_append] at *
  rw [h.lastSeq x getLast?_concat]
  have hp := hr.ascending
  rw [map_append, pairwise_append] at hp
  rcases mem_append.mp hm with hm | hm
  · exact (hp.2.2 _ (mem_map_of_mem hm) _ (by simp)).le
  · rw [mem_singleton.mp hm]

theorem firstSeq_mem (h : s.Summarizes rs) (hr : Rows rs) : s.firstSeq ∈ s.seqs := by
  cases rs
  case nil => exact absurd rfl hr.ne_nil
  case cons x xs => exact h.mem_seqs.mpr ⟨x, mem_cons_self, (h.firstSeq x rfl).symm⟩

theorem lastSeq_mem (h : s.Summarizes rs) (hr : Rows rs) : s.lastSeq ∈ s.seqs := by
  obtain ⟨xs, x, rfl⟩ := (eq_nil_or_concat rs).resolve_left hr.ne_nil
  rw [concat_eq_append] at *
  exact h.mem_seqs.mpr ⟨x, by simp, (h.lastSeq x getLast?_concat).symm⟩

theorem head_first (h : s.Summarizes rs) (hr : Rows rs) :
    ∀ q ∈ s.seqRanges.head?, q.first = s.firstSeq := by
  intro q hq
  have hsep := h.seqRanges.separated
  obtain ⟨qs, hqs⟩ := head?_eq_some_iff.mp hq
  have hfirst := h.firstSeq_mem hr
  rw [seqs, hqs] at hfirst
  rw [hqs] at hsep
  have hm : q.first ∈ s.seqs := by
    rw [seqs, hqs]
    exact mem_seqSet.mpr ⟨q, mem_cons_self, le_rfl, hsep.1⟩
  obtain ⟨r, hrm, hrq⟩ := h.mem_seqs.mp hm
  exact le_antisymm (hsep.first_le hfirst) (hrq ▸ h.firstSeq_le hr hrm)

theorem last_last (h : s.Summarizes rs) (hr : Rows rs) :
    ∀ q ∈ s.seqRanges.getLast?, q.last = s.lastSeq := by
  intro q hq
  have hsep := h.seqRanges.separated
  have hm : q.last ∈ s.seqs := hsep.last_mem (mem_of_getLast? hq)
  obtain ⟨r, hrm, hrq⟩ := h.mem_seqs.mp hm
  exact le_antisymm (hrq ▸ h.le_lastSeq hr hrm) (hsep.le_last hq (h.lastSeq_mem hr))

theorem card_seqs (h : s.Summarizes rs) (hr : Rows rs) : s.seqs.card = s.recordCount := by
  have hn : (rs.map (·.header.seq)).Nodup := hr.ascending.imp fun hab => Nat.ne_of_lt hab
  rw [seqs, h.seqRanges.seqs, toFinset_card_of_nodup hn, length_map, h.recordCount]

-- A block whose seqs are one range is written without it, and gets it back.
theorem checkSeqSet (h : s.Summarizes rs) (hr : Rows rs) :
    ({ s with seqRanges := if 1 < s.seqRanges.length then s.seqRanges else [] } :
      BlockSummary).checkSeqSet exact = .ok s := by
  have hcard := h.card_seqs hr
  have hsep := h.seqRanges.separated
  split
  case isTrue hlen =>
    obtain ⟨q, hq⟩ : ∃ q, s.seqRanges.getLast? = some q :=
      Option.isSome_iff_exists.mp (getLast?_isSome.mpr (ne_nil_of_length_pos (by omega)))
    simp only [BlockSummary.checkSeqSet, hq]
    rw [checkRanges_eq_ok hsep (fun _ => h.head_first hr) (by rw [seqs] at hcard; omega), bind_ok]
    simp only [failIf, h.last_last hr q hq, ne_eq, not_true, if_false, pure_eq, bind_ok]
    rw [seqs] at hcard
    simp [hcard]
  case isFalse hlen =>
    -- There is exactly one range, and it is the one from the first to the last seq.
    obtain ⟨q, hq⟩ : ∃ q, s.seqRanges = [q] := by
      cases hs : s.seqRanges
      case nil =>
        have := h.firstSeq_mem hr
        simp [seqs, hs] at this
      case cons q qs =>
        cases qs
        case nil  => exact ⟨q, rfl⟩
        case cons => simp [hs] at hlen
    have hfirst := h.head_first hr q (by simp [hq])
    have hlast := h.last_last hr q (by simp [hq])
    have hrange : q = ⟨s.firstSeq, s.lastSeq⟩ := by cases q; simp_all
    have hle : s.firstSeq ≤ s.lastSeq := by
      have := hsep.first_le_last (r := q) (by simp [hq])
      omega
    have hspan : exact (s.lastSeq - s.firstSeq + 1) = s.recordCount := by
      rw [← hcard, seqs, hq, hrange]
      simp only [exact, seqSet_cons, seqSet_nil, Finset.union_empty, Nat.card_Icc]
      omega
    simp only [BlockSummary.checkSeqSet, getLast?_nil, hspan, failIf, ne_eq, not_true, if_false,
      pure_eq, bind_ok]
    rw [← hrange, ← hq]

theorem checkEpoch (h : s.Summarizes rs) (hr : Rows rs) {e : EpochSummary} (he : e ∈ s.epochs) :
    s.checkEpoch e = .ok () := by
  have hs := h.epochs.entry e he
  have hsub {r : Row} (hm : r ∈ ofEpoch e.epoch rs) : r ∈ rs := mem_of_mem_filter hm
  -- The first and the last seq and time of the entry are those of records of the block.
  obtain ⟨x, hx, hxf⟩ := mem_map.mp (min?_eq_some_iff.mp hs.seqFirst).1
  obtain ⟨y, hy, hyl⟩ := mem_map.mp (max?_eq_some_iff.mp hs.seqLast).1
  obtain ⟨u, hu, hut⟩ := mem_map.mp (min?_eq_some_iff.mp hs.tsMin).1
  obtain ⟨v, hv, hvt⟩ := mem_map.mp (max?_eq_some_iff.mp hs.tsMax).1
  have hxe : x.header.epoch = e.epoch := by simpa using (mem_filter.mp hx).2
  have h₁ : ¬(e.epoch < s.epochMin ∨ s.epochMax < e.epoch) := by
    have hmem : e.epoch ∈ rs.map (·.header.epoch) := mem_map.mpr ⟨x, hsub hx, hxe⟩
    have := le_of_min? h.epochMin hmem
    have := le_of_max? h.epochMax hmem
    omega
  have h₂ : e.recordCount ≠ 0 := by
    rw [hs.recordCount]
    exact Nat.ne_of_gt (length_pos_of_mem hx)
  have h₃ : ¬(e.seqLast < e.seqFirst ∨ e.seqFirst < s.firstSeq ∨ s.lastSeq < e.seqLast) := by
    have := (max?_eq_some_iff.mp hs.seqLast).2 _ (mem_map_of_mem hx)
    have := h.firstSeq_le hr (hsub hx)
    have := h.le_lastSeq hr (hsub hy)
    omega
  have h₄ : ¬(e.tsMax < e.tsMin ∨ e.tsMin < s.tsMin ∨ s.tsMax < e.tsMax) := by
    have := (max?_eq_some_iff.mp hs.tsMax).2 _ (mem_map_of_mem hu)
    have := le_of_min? h.tsMin (mem_map_of_mem (hsub hu))
    have := le_of_max? h.tsMax (mem_map_of_mem (hsub hv))
    omega
  have h₅ : (e.closeSeq.any fun seq => !s.inSeqSet seq) = false := by
    cases hc : e.closeSeq
    case none => rfl
    case some seq =>
      have hm := (min?_eq_some_iff.mp (hs.closeSeq.trans hc)).1
      obtain ⟨z, hz, hzs⟩ := mem_map.mp hm
      have hzr : z ∈ rs := hsub (mem_of_mem_filter hz)
      simp [inSeqSet_of_mem h.seqRanges.separated (h.mem_seqs.mpr ⟨z, hzr, hzs⟩)]
  simp [BlockSummary.checkEpoch, failIf, h₁, h₂, h₃, h₄, h₅]

theorem sumEpochs (h : s.Summarizes rs) (hr : Rows rs) {total : Nat}
    (hes : ∀ e ∈ es, e ∈ s.epochs) (ht : total + epochTotal es ≤ s.recordCount) :
    s.sumEpochs exact es total = .ok (total + epochTotal es) := by
  induction es generalizing total
  case nil => rfl
  case cons e es hi =>
    have ⟨he, hes⟩ := forall_mem_cons.mp hes
    have htotal : epochTotal (e :: es) = e.recordCount + epochTotal es := rfl
    rw [htotal, ← Nat.add_assoc] at ht ⊢
    have hn : ¬s.recordCount < total + e.recordCount := by omega
    simp [BlockSummary.sumEpochs, h.checkEpoch hr he, failIf, hn, hi hes ht]

theorem checkEpochs (h : s.Summarizes rs) (hr : Rows rs) : s.checkEpochs exact = .ok () := by
  have htotal : epochTotal s.epochs = s.recordCount := by rw [epochTotal_eq h.epochs, h.recordCount]
  rw [BlockSummary.checkEpochs, checkUniqueEpochs_eq_ok h.epochs.nodup, bind_ok,
    h.sumEpochs hr (fun _ => id) (by omega), bind_ok, failIf, if_neg (by omega)]
  rfl

theorem checkBoundaries (h : s.Summarizes rs) {bs : List BoundarySummary}
    (hb : ∀ b ∈ bs, b.seq ∈ s.seqs) : s.checkBoundaries bs = .ok () := by
  induction bs
  case nil => rfl
  case cons b bs hi =>
    have ⟨hb, hbs⟩ := forall_mem_cons.mp hb
    simp [BlockSummary.checkBoundaries, inSeqSet_of_mem h.seqRanges.separated hb, failIf, hi hbs]

theorem boundary_mem (h : s.Summarizes rs) : ∀ b ∈ s.boundaries, b.seq ∈ s.seqs := by
  intro b hb
  rw [h.boundaries] at hb
  obtain ⟨r, hr, hrb⟩ := mem_filterMap.mp hb
  obtain ⟨_, _, hseq, _⟩ := Row.boundary?_eq_some hrb
  exact h.mem_seqs.mpr ⟨r, hr, hseq.symm⟩

theorem checkSummary (h : s.Summarizes rs) (hr : Rows rs) :
    ({ s with seqRanges := if 1 < s.seqRanges.length then s.seqRanges else [] } :
      BlockSummary).checkSummary exact = .ok s := by
  have hk : checkCountSum exact s.kindCounts s.recordCount = .ok () :=
    checkCountSum_eq_ok (by rw [h.kindCounts, sum_tally, length_map, h.recordCount])
  have hd : checkCountSum exact s.dirCounts s.recordCount = .ok () :=
    checkCountSum_eq_ok (by rw [h.dirCounts, sum_tally, length_map, h.recordCount])
  have hs : checkCountSum exact s.decodeStatusCounts s.recordCount = .ok () :=
    checkCountSum_eq_ok (by rw [h.decodeStatusCounts, sum_tally, length_map, h.recordCount])
  simp only [BlockSummary.checkSummary, hk, hd, hs, mapErr_ok, bind_ok]
  rw [h.checkSeqSet hr, bind_ok, h.checkEpochs hr, bind_ok, h.checkBoundaries h.boundary_mem, bind_ok]
  rfl

end BlockSummary.Summarizes
end Tracepack
