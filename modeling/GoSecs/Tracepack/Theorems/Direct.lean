import GoSecs.Tracepack.Theorems.AddRecord

open List

namespace Tracepack

open Tlv (maxU64)

-- The summary is the one of a block with these records.
structure BlockSummary.Carries (b : BlockSummary) (rs : List Row) : Prop where
  summarizes : b.Summarizes rs
  ne_nil : rs ≠ []
  uncompressedLen : b.uncompressedLen = (rs.map Row.len).sum

variable {bs : List BlockSummary} {rss : List (List Row)}

namespace PackStats

-- The statistics of these records, with the epochs in any order.
structure Summarizes (st : PackStats) (rs : List Row) : Prop where
  recordCount : st.recordCount = rs.length
  kindCounts : st.kindCounts = tally (rs.map (·.header.kind))
  dirCounts : st.dirCounts = tally (rs.map (·.header.dir))
  decodeStatusCounts : st.decodeStatusCounts = tally (rs.map (·.header.decodeStatus))
  tsMin : ∀ t ∈ (rs.map (·.header.tsUTCNs)).min?, st.tsMin = t
  tsMax : ∀ t ∈ (rs.map (·.header.tsUTCNs)).max?, st.tsMax = t
  contentBytes : st.contentBytes = (rs.map Row.len).sum
  qualityUnion : st.qualityUnion = (rs.map (·.header.quality)).foldr (· ||| ·) 0
  seqRanges : Covers (rs.map (·.header.seq)).toFinset st.seqRanges
  epochs : Epochs (ofEpoch · rs) st.epochs
  boundaries : st.boundaries = rs.filterMap Row.boundary?

variable {st : PackStats} {b : BlockSummary} {xs ys : List Row} {index : List (Nat × Nat)}
  {α : Type}

theorem foldr_or_append (ps qs : List UInt16) :
    (ps ++ qs).foldr (· ||| ·) 0 = ps.foldr (· ||| ·) 0 ||| qs.foldr (· ||| ·) 0 := by
  induction ps
  case nil => simp
  case cons p ps hi => simp only [cons_append, foldr_cons, hi, UInt16.or_assoc]

theorem min_eq_min? [LinearOrder α] {ts us : List α} {t u : α}
    (ht : ∀ x ∈ ts.min?, t = x) (hu : ∀ x ∈ us.min?, u = x) (hn : us ≠ []) (h : ts = [] → t = u) :
    ∀ x ∈ (ts ++ us).min?, min t u = x := by
  obtain ⟨v, hv⟩ := Option.ne_none_iff_exists'.mp (mt min?_eq_none_iff.mp hn)
  have hv' := hu v hv
  cases hm : ts.min?
  case none =>
    rw [min?_eq_none_iff] at hm
    simp [hm, hv, h hm, hv']
  case some w =>
    rw [min?_append hm hv]
    simp [ht w hm, hv']

theorem max_eq_max? [LinearOrder α] {ts us : List α} {t u : α}
    (ht : ∀ x ∈ ts.max?, t = x) (hu : ∀ x ∈ us.max?, u = x) (hn : us ≠ []) (h : ts = [] → t = u) :
    ∀ x ∈ (ts ++ us).max?, max t u = x :=
  min_eq_min? (α := αᵒᵈ) ht hu hn h

theorem Summarizes.addBlock (h : st.Summarizes xs) (hb : b.Carries ys)
    (hlt : ∀ x ∈ xs, ∀ y ∈ ys, x.header.seq < y.header.seq) (hi : Indexed st.epochs index)
    (hts : xs = [] → st.tsMin = b.tsMin ∧ st.tsMax = b.tsMax) :
    (addBlock exact (st, index) b).1.Summarizes (xs ++ ys) ∧
      Indexed (addBlock exact (st, index) b).1.epochs (addBlock exact (st, index) b).2 := by
  have hs := hb.summarizes
  have ⟨he, hidx⟩ := mergeEpochs_eq hi h.epochs.nodup b.epochs
  simp only [Tracepack.addBlock]
  rw [he]
  refine ⟨?_, hidx⟩
  exact {
    recordCount := by simp [h.recordCount, hs.recordCount]
    kindCounts := by rw [h.kindCounts, hs.kindCounts, addCounts_tally, map_append]
    dirCounts := by rw [h.dirCounts, hs.dirCounts, addCounts_tally, map_append]
    decodeStatusCounts := by
      rw [h.decodeStatusCounts, hs.decodeStatusCounts, addCounts_tally, map_append]
    tsMin := by
      rw [map_append]
      exact min_eq_min? h.tsMin hs.tsMin (by simpa using hb.ne_nil)
        fun hn => (hts (by simpa using hn)).1
    tsMax := by
      rw [map_append]
      exact max_eq_max? h.tsMax hs.tsMax (by simpa using hb.ne_nil)
        fun hn => (hts (by simpa using hn)).2
    contentBytes := by
      rw [h.contentBytes, hb.uncompressedLen, map_append, sum_append]
      exact exact_add ..
    qualityUnion := by rw [h.qualityUnion, hs.qualityUnion, map_append, foldr_or_append]
    seqRanges := by
      have hu := h.seqRanges.union hs.seqRanges.separated (by
        simpa [hs.seqRanges.seqs] using hlt)
      rwa [hs.seqRanges.seqs, ← toFinset_append, ← map_append] at hu
    epochs := by
      refine (h.epochs.foldl_upsert hs.epochs fun n x hx y hy => ?_).congr fun n => ?_
      · exact hlt x (mem_of_mem_filter hx) y (mem_of_mem_filter hy)
      · simp [ofEpoch]
    boundaries := by rw [h.boundaries, hs.boundaries, filterMap_append] }

theorem Summarizes.foldl (h : st.Summarizes xs) (hb : List.Forall₂ BlockSummary.Carries bs rss)
    (hlt : ((xs ++ rss.flatten).map (·.header.seq)).Pairwise (· < ·)) (hi : Indexed st.epochs index)
    (hts : xs = [] → ∀ b ∈ bs.head?, st.tsMin = b.tsMin ∧ st.tsMax = b.tsMax) :
    (bs.foldl (Tracepack.addBlock exact) (st, index)).1.Summarizes (xs ++ rss.flatten) := by
  induction hb generalizing st xs index
  case nil => simpa using h
  case cons b ys bs rss hb _ hrec =>
    rw [flatten_cons, ← append_assoc] at hlt ⊢
    have hxy : ∀ x ∈ xs, ∀ y ∈ ys, x.header.seq < y.header.seq := by
      rw [append_assoc, map_append, pairwise_append] at hlt
      exact fun x hx y hy => hlt.2.2 _ (mem_map_of_mem hx) _
        (mem_map_of_mem (mem_append_left _ hy))
    have ⟨hs, hidx⟩ := h.addBlock hb hxy hi fun hn => hts hn b rfl
    rw [foldl_cons, ← Prod.eta (Tracepack.addBlock exact (st, index) b)]
    refine hrec hs hlt hidx fun hn => ?_
    exact absurd (append_eq_nil_iff.mp hn).2 hb.ne_nil

theorem summarizes_nil (tsMin tsMax : Int) : ({ tsMin, tsMax } : PackStats).Summarizes [] where
  recordCount := rfl
  kindCounts := rfl
  dirCounts := rfl
  decodeStatusCounts := rfl
  tsMin := by simp
  tsMax := by simp
  contentBytes := rfl
  qualityUnion := rfl
  seqRanges := ⟨trivial, rfl⟩
  epochs := ⟨by simp, by simp [ofEpoch], by simp⟩
  boundaries := rfl

theorem Summarizes.eq_direct {rs : List Row} (h : st.Summarizes rs) (hn : rs ≠ [])
    (hs : (rs.map (·.header.seq)).Pairwise (· < ·)) :
    { st with epochs := sortEpochs st.epochs } = direct rs := by
  have hmap : rs.map (·.header.tsUTCNs) ≠ [] := by simpa using hn
  obtain ⟨u, hu⟩ := Option.ne_none_iff_exists'.mp (mt min?_eq_none_iff.mp hmap)
  obtain ⟨v, hv⟩ := Option.ne_none_iff_exists'.mp (mt max?_eq_none_iff.mp hmap)
  simp only [direct, hu, hv, Option.getD_some, PackStats.mk.injEq]
  exact ⟨h.recordCount, h.kindCounts, h.dirCounts, h.decodeStatusCounts, h.tsMin u hu, h.tsMax v hv,
    h.contentBytes, h.qualityUnion, h.seqRanges.eq_runs hs, h.epochs.sortEpochs_eq, h.boundaries⟩

end PackStats

-- The statistics that the blocks give are those of their records.
theorem aggregate_eq_direct (hb : List.Forall₂ BlockSummary.Carries bs rss)
    (hs : (rss.flatten.map (·.header.seq)).Pairwise (· < ·)) :
    aggregate exact bs = PackStats.direct rss.flatten := by
  cases hb
  case nil => rfl
  case cons b ys bs rss hb hbs =>
    have hidx : Indexed [] [] := fun _ => rfl
    have hd := (PackStats.summarizes_nil b.tsMin b.tsMax).foldl (.cons hb hbs) (by simpa using hs)
      hidx (by simp)
    have hn : ([] ++ (ys :: rss).flatten : List Row) ≠ [] := by simp [hb.ne_nil]
    exact hd.eq_direct hn (by simpa using hs)

end Tracepack
