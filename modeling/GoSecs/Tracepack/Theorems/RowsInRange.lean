import GoSecs.Tracepack.Theorems.Direct
import GoSecs.Tracepack.Theorems.SummaryAccepts

open List

namespace Tracepack

open Tlv (SeqRange maxU64)

variable {rs : List Row} {e : EpochSummary}

theorem EpochSummary.Summarizes.inRange (h : e.Summarizes rs)
    (hr : ∀ r ∈ rs, r.InRange ∧ r.header.epoch = e.epoch) (hlen : rs.length ≤ maxU64) :
    e.InRange := by
  obtain ⟨x, hx, hxf⟩ := mem_map.mp (min?_eq_some_iff.mp h.seqFirst).1
  obtain ⟨y, hy, hyl⟩ := mem_map.mp (max?_eq_some_iff.mp h.seqLast).1
  obtain ⟨u, hu, hut⟩ := mem_map.mp (min?_eq_some_iff.mp h.tsMin).1
  obtain ⟨v, hv, hvt⟩ := mem_map.mp (max?_eq_some_iff.mp h.tsMax).1
  exact {
    epoch := (hr x hx).2 ▸ (hr x hx).1.epoch
    recordCount := h.recordCount ▸ hlen
    seqFirst := hxf ▸ (hr x hx).1.seq
    seqLast := hyl ▸ (hr y hy).1.seq
    tsMin := hut ▸ (hr u hu).1.ts
    tsMax := hvt ▸ (hr v hv).1.ts
    closeSeq := by
      intro seq hs
      have hm := (min?_eq_some_iff.mp (h.closeSeq.trans hs)).1
      obtain ⟨z, hz, hzs⟩ := mem_map.mp hm
      exact hzs ▸ (hr z (mem_of_mem_filter hz)).1.seq }

theorem Epochs.inRange {es : List EpochSummary} (h : Epochs (ofEpoch · rs) es)
    (hr : ∀ r ∈ rs, r.InRange) (hlen : rs.length ≤ maxU64) : ∀ e ∈ es, e.InRange := by
  intro e he
  refine (h.entry e he).inRange (fun r hm => ?_) ((length_filter_le ..).trans hlen)
  exact ⟨hr r (mem_of_mem_filter hm), by simpa using (mem_filter.mp hm).2⟩

theorem inRange_boundary {r : Row} {b : BoundarySummary} (hr : r.InRange)
    (h : r.boundary? = some b) : b.InRange := by
  obtain ⟨ev, hev, hseq, hts, hepoch, hstart, hend⟩ := Row.boundary?_eq_some h
  exact ⟨hseq ▸ hr.seq, hts ▸ hr.ts, hepoch ▸ hr.epoch, hstart ▸ hr.gapStart ev hev,
    hend ▸ hr.gapEnd ev hev⟩

theorem inRange_boundaries (hr : ∀ r ∈ rs, r.InRange) :
    ∀ b ∈ rs.filterMap Row.boundary?, b.InRange := by
  intro b hb
  obtain ⟨r, hm, hrb⟩ := mem_filterMap.mp hb
  exact inRange_boundary (hr r hm) hrb

theorem Covers.inRange {qs : List SeqRange} (h : Covers (rs.map (·.header.seq)).toFinset qs)
    (hr : ∀ r ∈ rs, r.InRange) : ∀ q ∈ qs, q.first ≤ maxU64 ∧ q.last ≤ maxU64 := by
  intro q hq
  have hle := h.separated.first_le_last hq
  have hm := h.separated.last_mem hq
  rw [h.seqs, mem_toFinset] at hm
  obtain ⟨r, hrm, hrl⟩ := mem_map.mp hm
  have := hrl ▸ (hr r hrm).seq
  exact ⟨hle.trans this, this⟩

theorem width_le (vs : List UInt8) : width vs ≤ 256 := by
  induction vs
  case nil => simp [width]
  case cons v vs hi =>
    have := v.toNat_lt
    simp only [width, foldr_cons] at *
    omega

theorem le_of_mem_tally {vs : List UInt8} {c : Nat} (h : c ∈ tally vs) : c ≤ vs.length := by
  simp only [tally, mem_map] at h
  obtain ⟨v, _, rfl⟩ := h
  exact countP_le_length

theorem BlockSummary.Summarizes.inRange {s : BlockSummary} (h : s.Summarizes rs) (hr : Rows rs) :
    s.InRange where
  counts := by
    have ht (vs : List UInt8) (hl : vs.length = rs.length) :
        (tally vs).length ≤ 256 ∧ ∀ c ∈ tally vs, c < 2 ^ 32 := by
      refine ⟨length_tally ▸ width_le vs, fun c hc => ?_⟩
      have := le_of_mem_tally hc
      have := hr.length
      omega
    simp only [forall_mem_cons, h.kindCounts, h.dirCounts, h.decodeStatusCounts]
    exact ⟨ht _ (by simp), ht _ (by simp), ht _ (by simp), by simp⟩
  epochs := h.epochs.inRange hr.inRange (hr.length.le.trans (by decide))
  boundaries := h.boundaries ▸ inRange_boundaries hr.inRange
  seqRanges := h.seqRanges.inRange hr.inRange

theorem EpochSummary.summarizes_direct {n : Nat} (h : ofEpoch n rs ≠ []) :
    (EpochSummary.direct rs n).Summarizes (ofEpoch n rs) := by
  have hsome {α : Type} [LinearOrder α] (f : Row → α) :
      (∃ a, ((ofEpoch n rs).map f).min? = some a) ∧ ∃ a, ((ofEpoch n rs).map f).max? = some a := by
    have hne : (ofEpoch n rs).map f ≠ [] := by simpa using h
    exact ⟨Option.ne_none_iff_exists'.mp (mt min?_eq_none_iff.mp hne),
      Option.ne_none_iff_exists'.mp (mt max?_eq_none_iff.mp hne)⟩
  obtain ⟨⟨a, ha⟩, b, hb⟩ := hsome (·.header.seq)
  obtain ⟨⟨c, hc⟩, d, hd⟩ := hsome (·.header.tsUTCNs)
  constructor <;> simp [EpochSummary.direct, ha, hb, hc, hd]

theorem mem_epochNumbers {n : Nat} : n ∈ epochNumbers rs ↔ ∃ r ∈ rs, r.header.epoch = n := by
  rw [epochNumbers, (perm_insertionSort _ _).mem_iff, mem_dedup, mem_map]

theorem epochs_direct (rs : List Row) :
    Epochs (ofEpoch · rs) ((epochNumbers rs).map (EpochSummary.direct rs)) := by
  have hmap : ((epochNumbers rs).map (EpochSummary.direct rs)).map (·.epoch) = epochNumbers rs := by
    rw [map_map]
    exact map_id _
  have hmem (n : Nat) : n ∈ epochNumbers rs ↔ ofEpoch n rs ≠ [] := by
    rw [mem_epochNumbers, ofEpoch, ne_eq, filter_eq_nil_iff]
    simp
  refine ⟨?_, fun n => ?_, fun e he => ?_⟩
  · rw [hmap, epochNumbers, (perm_insertionSort _ _).nodup_iff]
    exact nodup_dedup _
  · rw [hmap, hmem]
  · obtain ⟨n, hn, rfl⟩ := mem_map.mp he
    exact EpochSummary.summarizes_direct ((hmem n).mp hn)

theorem PackStats.direct_inRange (hs : (rs.map (·.header.seq)).Pairwise (· < ·))
    (hr : ∀ r ∈ rs, r.InRange) (hlen : rs.length ≤ maxU64) (hc : (rs.map Row.len).sum ≤ maxU64) :
    (PackStats.direct rs).InRange where
  recordCount := hlen
  counts := by
    have ht (vs : List UInt8) (hl : vs.length = rs.length) :
        (tally vs).length ≤ 256 ∧ ∀ c ∈ tally vs, c ≤ maxU64 :=
      ⟨length_tally ▸ width_le vs, fun c hc => (le_of_mem_tally hc).trans (hl ▸ hlen)⟩
    simp only [forall_mem_cons, direct]
    exact ⟨ht _ (by simp), ht _ (by simp), ht _ (by simp), by simp⟩
  tsMin := by
    simp only [direct]
    cases h : (rs.map (·.header.tsUTCNs)).min?
    case none => decide
    case some t =>
      obtain ⟨r, hm, rfl⟩ := mem_map.mp (min?_eq_some_iff.mp h).1
      exact (hr r hm).ts
  tsMax := by
    simp only [direct]
    cases h : (rs.map (·.header.tsUTCNs)).max?
    case none => decide
    case some t =>
      obtain ⟨r, hm, rfl⟩ := mem_map.mp (max?_eq_some_iff.mp h).1
      exact (hr r hm).ts
  contentBytes := hc
  seqRanges := (covers_runs hs).inRange hr
  epochs := (epochs_direct rs).inRange hr hlen
  boundaries := inRange_boundaries hr

end Tracepack
