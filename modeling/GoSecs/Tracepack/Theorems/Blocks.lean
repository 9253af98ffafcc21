import GoSecs.Tracepack.Theorems.RowsInRange
import GoSecs.Tracepack.Theorems.FooterSound

open Run List

namespace Tracepack

open Format
open Tlv (maxU64)

variable {rs : List Row} {s : BlockSummary} {d : BlockData} {es : List EpochSummary}

theorem Epochs.perm {rows : Nat → List Row} {ds : List EpochSummary} (h : Epochs rows es)
    (hp : ds.Perm es) : Epochs rows ds where
  nodup := (hp.map _).nodup_iff.mpr h.nodup
  mem   := fun n => (hp.map _).mem_iff.trans (h.mem n)
  entry := fun e he => h.entry e (hp.mem_iff.mp he)

theorem Epochs.ne_nil (h : Epochs (ofEpoch · rs) es) (hn : rs ≠ []) :
    es ≠ [] := by
  obtain ⟨r, hr⟩ := exists_mem_of_ne_nil rs hn
  have hm : r.header.epoch ∈ es.map (·.epoch) :=
    (h.mem _).mpr (ne_nil_of_mem (mem_filter.mpr ⟨hr, by simp⟩))
  rintro rfl
  simp at hm

namespace BlockSummary.Summarizes

theorem sorted (h : s.Summarizes rs) (hi : s.epochIndex = none) : s.sorted.Summarizes rs :=
  { h with
    epochs  := h.epochs.perm (perm_insertionSort ..)
    indexed := by simp [BlockSummary.sorted, hi] }

theorem bounded (h : s.Summarizes rs) (hr : Rows rs) (hu : s.uncompressedLen < 2 ^ 32) :
    s.Bounded where
  recordCount := h.recordCount ▸ hr.length
  uncompressedLen := hu
  kindCounts := ((h.inRange hr).counts _ (by simp)).2
  dirCounts := ((h.inRange hr).counts _ (by simp)).2
  decodeStatusCounts := ((h.inRange hr).counts _ (by simp)).2
  seqRanges := fun r hm => ((h.inRange hr).seqRanges r hm).2
  epochs := by
    rw [epochTotal_eq h.epochs]
    exact hr.length

theorem parseBlockSummary (h : s.Summarizes rs) (hr : Rows rs) (hi : s.epochIndex = none)
    (i off len : Nat) :
    parseBlockSummary exact i (f3ListOf s) (f2EntryOf s off len) = .ok s.sorted := by
  have hlist : f3ListOf s = appendF3 s := by simp [f3ListOf, h.verbatimF3]
  have hcheck : (withF3 (blockSummaryOf (f2EntryOf s off len)) s).checkSummary exact =
      .ok s.sorted := by
    simpa [withF3, blockSummaryOf, f2EntryOf, BlockSummary.sorted, hi, h.verbatimF3] using
      (h.sorted hi).checkSummary hr
  rw [Tracepack.parseBlockSummary, hlist,
    decodeValidated_appendF3 (h.inRange hr) (h.epochs.ne_nil hr.ne_nil), mapErr_ok, bind_ok,
    foldlM_f3Entries _ (h.inRange hr), bind_ok, hcheck]
  rfl

end BlockSummary.Summarizes

theorem length_le_sum_len (rs : List Row) : rs.length ≤ (rs.map Row.len).sum := by
  induction rs
  case nil => simp
  case cons r rs hi =>
    simp only [length_cons, map_cons, sum_cons, Row.len, recordHeaderLen]
    omega

namespace BlockData.Ok

theorem length_lt (h : d.Ok) : d.rows.length < 2 ^ 32 :=
  (length_le_sum_len _).trans_lt (h.uncompressedLen.trans_lt (by decide))

variable (h : d.Ok) (hs : (d.rows.map (·.header.seq)).Pairwise (· < ·))
include h hs

theorem rows : Rows d.rows :=
  ⟨h.ne_nil, hs, h.inRange, h.length_lt⟩

theorem summarizes (offset : Nat) : (d.summary offset).Summarizes d.rows :=
  { BlockSummary.summarizes_foldl hs (fun r hr => (h.inRange r hr).seq) h.length_lt with
    indexed := by simp [summary] }

theorem bounded (offset : Nat) : (d.summary offset).Bounded :=
  (h.summarizes hs offset).bounded (h.rows hs) (h.uncompressedLen.trans_lt (by decide))

theorem carries (offset : Nat) : (d.summary offset).Carries d.rows :=
  ⟨h.summarizes hs offset, h.ne_nil, rfl⟩

theorem carries_sorted (offset : Nat) : (d.summary offset).sorted.Carries d.rows :=
  ⟨(h.summarizes hs offset).sorted rfl, h.ne_nil, rfl⟩

theorem exists_rows (offset : Nat) :
    (∃ r ∈ d.rows, (d.summary offset).firstSeq = r.header.seq) ∧
    (∃ r ∈ d.rows, (d.summary offset).lastSeq = r.header.seq) ∧
    (∃ r ∈ d.rows, (d.summary offset).tsMin = r.header.tsUTCNs) ∧
    (∃ r ∈ d.rows, (d.summary offset).tsMax = r.header.tsUTCNs) ∧
    (∃ r ∈ d.rows, (d.summary offset).epochMin = r.header.epoch) ∧
    (∃ r ∈ d.rows, (d.summary offset).epochMax = r.header.epoch) := by
  have hm := h.summarizes hs offset
  have hmin {α : Type} [LinearOrder α] {f : Row → α} {m : α}
      (hx : ∀ t ∈ (d.rows.map f).min?, m = t) : ∃ r ∈ d.rows, m = f r := by
    have hne : d.rows.map f ≠ [] := by simpa using h.ne_nil
    obtain ⟨t, ht⟩ := Option.ne_none_iff_exists'.mp (mt min?_eq_none_iff.mp hne)
    obtain ⟨r, hr, hrt⟩ := mem_map.mp (min?_eq_some_iff.mp ht).1
    exact ⟨r, hr, (hx t ht).trans hrt.symm⟩
  have hmax {α : Type} [LinearOrder α] {f : Row → α} {m : α}
      (hx : ∀ t ∈ (d.rows.map f).max?, m = t) : ∃ r ∈ d.rows, m = f r := by
    have hne : d.rows.map f ≠ [] := by simpa using h.ne_nil
    obtain ⟨t, ht⟩ := Option.ne_none_iff_exists'.mp (mt max?_eq_none_iff.mp hne)
    obtain ⟨r, hr, hrt⟩ := mem_map.mp (max?_eq_some_iff.mp ht).1
    exact ⟨r, hr, (hx t ht).trans hrt.symm⟩
  obtain ⟨x, hx, hxf⟩ := hm.mem_seqs.mp (hm.firstSeq_mem (h.rows hs))
  obtain ⟨y, hy, hyl⟩ := hm.mem_seqs.mp (hm.lastSeq_mem (h.rows hs))
  exact ⟨⟨x, hx, hxf.symm⟩, ⟨y, hy, hyl.symm⟩, hmin hm.tsMin, hmax hm.tsMax, hmin hm.epochMin,
    hmax hm.epochMax⟩

end BlockData.Ok
end Tracepack
