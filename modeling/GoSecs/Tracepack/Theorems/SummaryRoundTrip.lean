import GoSecs.Tracepack.Soundness
import GoSecs.Tracepack.Theorems.TlvRoundTrip

open Run LittleEndian List

namespace Tracepack

open Tlv

structure EpochSummary.InRange (e : EpochSummary) : Prop where
  epoch : e.epoch < 2 ^ 32
  recordCount : e.recordCount ≤ maxU64
  seqFirst : e.seqFirst ≤ maxU64
  seqLast : e.seqLast ≤ maxU64
  tsMin : LittleEndian.InRange 8 e.tsMin
  tsMax : LittleEndian.InRange 8 e.tsMax
  closeSeq : ∀ seq ∈ e.closeSeq, seq ≤ maxU64

structure BoundarySummary.InRange (b : BoundarySummary) : Prop where
  seq : b.seq ≤ maxU64
  ts : LittleEndian.InRange 8 b.ts
  epoch : b.epoch < 2 ^ 32
  gapStart : ∀ t ∈ b.gapStart, LittleEndian.InRange 8 t
  gapEnd : ∀ t ∈ b.gapEnd, LittleEndian.InRange 8 t

theorem epochNumberOf_u64Entry {tag off n : Nat} (h : n < 2 ^ 32) :
    epochNumberOf ((u64Entry tag n).moved off) = .ok n := by
  have hn : n ≤ maxU64 := by simp only [maxU64]; omega
  have hlt : ¬2 ^ 32 - 1 < n := by omega
  simp only [epochNumberOf, u64_u64Entry tag off hn, bind_ok, failIf, hlt, if_false, pure_eq]

variable {minor room : Nat} {e : EpochSummary} {b : BoundarySummary}

theorem sits_epochEntries (h : e.InRange) :
    ∀ n ∈ epochEntries e, Sits minor room Tlv.epoch n := by
  have hk : Tlv.epoch.Tagged := by decide
  have he : e.epoch ≤ maxU64 := h.epoch.le.trans (by decide)
  intro n hn
  simp only [epochEntries, mem_append, mem_cons, not_mem_nil, or_false,
    Option.mem_toList, Option.map_eq_some_iff] at hn
  rcases hn with (rfl | rfl | rfl | rfl | rfl | rfl) | ⟨seq, hseq, rfl⟩
  · exact .u64 hk rfl rfl rfl he
  · exact .u64 hk rfl rfl rfl h.recordCount
  · exact .u64 hk rfl rfl rfl h.seqFirst
  · exact .u64 hk rfl rfl rfl h.seqLast
  · exact .i64 hk rfl rfl rfl _
  · exact .i64 hk rfl rfl rfl _
  · exact .u64 hk rfl rfl rfl (h.closeSeq seq hseq)

theorem sits_boundaryEntries (h : b.InRange) :
    ∀ n ∈ boundaryEntries b, Sits minor room Tlv.boundary n := by
  have hk : Tlv.boundary.Tagged := by decide
  have he : b.epoch ≤ maxU64 := h.epoch.le.trans (by decide)
  intro n hn
  simp only [boundaryEntries, mem_append, mem_cons, not_mem_nil, or_false,
    Option.mem_toList, Option.map_eq_some_iff] at hn
  rcases hn with ((rfl | rfl | rfl | rfl) | ⟨_, _, rfl⟩) | ⟨_, _, rfl⟩
  · exact .u64 hk rfl rfl rfl h.seq
  · exact .u8 hk rfl rfl rfl _
  · exact .i64 hk rfl rfl rfl _
  · exact .u64 hk rfl rfl rfl he
  · exact .i64 hk rfl rfl rfl _
  · exact .i64 hk rfl rfl rfl _

theorem ok_epochEntries (h : e.InRange) : ∀ n ∈ epochEntries e, n.Ok :=
  fun n hn => (sits_epochEntries h n hn : Sits 0 0 _ n).ok

theorem ok_boundaryEntries (h : b.InRange) : ∀ n ∈ boundaryEntries b, n.Ok :=
  fun n hn => (sits_boundaryEntries h n hn : Sits 0 0 _ n).ok

theorem epochOf_epochEntry (h : e.InRange) (tag off : Nat) :
    epochOf ((epochEntry tag e).moved off) = .ok e := by
  obtain ⟨epoch, recordCount, seqFirst, seqLast, tsMin, tsMax, closeSeq⟩ := e
  rw [epochOf, epochEntry, nested_nestedEntry _ _ (ok_epochEntries h)]
  cases closeSeq
  case none =>
    simp [epochEntries, setEpoch, epochTagEpoch, epochTagRecordCount, epochTagSeqFirst,
      epochTagSeqLast, epochTagTSMin, epochTagTSMax, epochNumberOf_u64Entry h.epoch,
      u64_u64Entry _ _ h.recordCount, u64_u64Entry _ _ h.seqFirst, u64_u64Entry _ _ h.seqLast,
      i64_i64Entry _ _ h.tsMin, i64_i64Entry _ _ h.tsMax]
  case some seq =>
    simp [epochEntries, setEpoch, epochTagEpoch, epochTagRecordCount, epochTagSeqFirst,
      epochTagSeqLast, epochTagTSMin, epochTagTSMax, epochTagCloseSeq,
      epochNumberOf_u64Entry h.epoch,
      u64_u64Entry _ _ h.recordCount, u64_u64Entry _ _ h.seqFirst, u64_u64Entry _ _ h.seqLast,
      i64_i64Entry _ _ h.tsMin, i64_i64Entry _ _ h.tsMax, u64_u64Entry _ _ (h.closeSeq seq rfl)]

theorem boundaryOf_boundaryEntry (h : b.InRange) (tag off : Nat) :
    boundaryOf ((boundaryEntry tag b).moved off) = .ok b := by
  obtain ⟨seq, kind, ts, epoch, gapStart, gapEnd⟩ := b
  have hs := u64_u64Entry boundaryTagSeq (h := h.seq)
  have ht := i64_i64Entry boundaryTagTS (h := h.ts)
  have hstart (t : Int) (hg : gapStart = some t) := i64_i64Entry boundaryTagGapStart (h := h.gapStart t hg)
  have hend (t : Int) (hg : gapEnd = some t) := i64_i64Entry boundaryTagGapEnd (h := h.gapEnd t hg)
  rw [boundaryOf, boundaryEntry, nested_nestedEntry _ _ (ok_boundaryEntries h)]
  simp only [boundaryTagSeq, boundaryTagTS, boundaryTagGapStart, boundaryTagGapEnd] at *
  cases gapStart <;> cases gapEnd <;>
    simp [boundaryEntries, setBoundary, boundaryTagSeq, boundaryTagKind, boundaryTagTS,
      boundaryTagEpoch, boundaryTagGapStart, boundaryTagGapEnd, epochNumberOf_u64Entry h.epoch,
      hs, ht, hstart, hend]

theorem passes_epochEntries (h : e.InRange) :
    Passes minor (room + 1) Tlv.epoch (epochEntries e) := by
  refine passes_succ (sits_epochEntries h) (pairwise_of_nodup ?_) ?_
  · cases hc : e.closeSeq <;> simp [epochEntries, hc] <;> decide
  · have hsub : ∀ n ∈ [1, 2, 3, 4, 5, 6], n ∈ (epochEntries e).map Entry.tag := by
      simp [epochEntries, epochTagEpoch, epochTagRecordCount, epochTagSeqFirst, epochTagSeqLast,
        epochTagTSMin, epochTagTSMax]
    intro p hp hr
    refine hsub p.1 ?_
    revert p
    decide

theorem passes_boundaryEntries (h : b.InRange) :
    Passes minor (room + 1) Tlv.boundary (boundaryEntries b) := by
  refine passes_succ (sits_boundaryEntries h) (pairwise_of_nodup ?_) ?_
  · cases hs : b.gapStart <;> cases he : b.gapEnd <;> simp [boundaryEntries, hs, he] <;> decide
  · have hsub : ∀ n ∈ [1, 2, 3, 4], n ∈ (boundaryEntries b).map Entry.tag := by
      simp [boundaryEntries, boundaryTagSeq, boundaryTagKind, boundaryTagTS, boundaryTagEpoch]
    intro p hp hr
    refine hsub p.1 ?_
    revert p
    decide

structure BlockSummary.InRange (s : BlockSummary) : Prop where
  counts : ∀ cs ∈ [s.kindCounts, s.dirCounts, s.decodeStatusCounts],
    cs.length ≤ 256 ∧ ∀ c ∈ cs, c < 2 ^ 32
  epochs : ∀ e ∈ s.epochs, e.InRange
  boundaries : ∀ b ∈ s.boundaries, b.InRange
  seqRanges : ∀ r ∈ s.seqRanges, r.first ≤ maxU64 ∧ r.last ≤ maxU64

theorem length_epochEntry (tag : Nat) (e : EpochSummary) :
    (epochEntry tag e).value.length < 2 ^ 32 := by
  cases hc : e.closeSeq <;>
    simp [epochEntry, nestedEntry, epochEntries, hc, u64Entry, i64Entry, headerLen]

theorem length_boundaryEntry (tag : Nat) (b : BoundarySummary) :
    (boundaryEntry tag b).value.length < 2 ^ 32 := by
  cases hs : b.gapStart <;> cases he : b.gapEnd <;>
    simp [boundaryEntry, nestedEntry, boundaryEntries, hs, he, u64Entry, i64Entry, u8Entry, headerLen]

section Lists

variable {reg : Registry} {f : Field} {tag : Nat} (hk : reg.Tagged) (hl : reg.lookup tag = some f)
  (hs : f.since = 0)
include hk hl hs

theorem sits_epochEntry (h : e.InRange) (ht : f.type = typeTLV)
    (hn : f.nested = some Tlv.epoch) : Sits minor (room + 1) reg (epochEntry tag e) := by
  refine .nested hk hl ht hs (length_epochEntry tag e) (ok_epochEntries h) fun reg' hr => ?_
  obtain rfl := Option.some.inj (hn.symm.trans hr)
  exact passes_epochEntries h

theorem sits_boundaryEntry (h : b.InRange) (ht : f.type = typeTLV)
    (hn : f.nested = some Tlv.boundary) : Sits minor (room + 1) reg (boundaryEntry tag b) := by
  refine .nested hk hl ht hs (length_boundaryEntry tag b) (ok_boundaryEntries h) fun reg' hr => ?_
  obtain rfl := Option.some.inj (hn.symm.trans hr)
  exact passes_boundaryEntries h

theorem sits_seqRangeEntry (ht : f.type = typeBytes) (r : SeqRange) :
    Sits minor room reg (seqRangeEntry tag r) :=
  .bytes hk hl ht hs (by simp [appendSeqRange])

omit hs in
theorem sits_qualityUnion (ht : f.type = typeU64) (hs : f.since = 0) (q : UInt16) :
    Sits minor room reg (u64Entry tag q.toNat) :=
  .u64 hk hl ht hs (q.toNat_lt.le.trans (by decide))

end Lists

variable {s : BlockSummary}

theorem mem_sortEpochs {es : List EpochSummary} : e ∈ sortEpochs es ↔ e ∈ es :=
  (perm_insertionSort _ _).mem_iff

theorem sits_f3Entries (h : s.InRange) :
    ∀ e ∈ f3Entries s, Sits minor (room + 1) Tlv.f3 e := by
  have hk : Tlv.f3.Tagged := by decide
  have hc (cs : List Nat) (hm : cs ∈ [s.kindCounts, s.dirCounts, s.decodeStatusCounts]) :
      (appendU32Array cs).length < 2 ^ 32 := by
    have := (h.counts cs hm).1
    rw [appendU32Array, length_flatMap_bytes]
    omega
  intro e he
  simp only [f3Entries, mem_append, mem_cons, not_mem_nil, or_false, mem_map]
    at he
  rcases he with (((rfl | rfl | rfl | rfl) | ⟨e, hm, rfl⟩) | ⟨b, hm, rfl⟩) | he
  · exact .bytes hk rfl rfl rfl (hc _ (by simp))
  · exact .bytes hk rfl rfl rfl (hc _ (by simp))
  · exact .bytes hk rfl rfl rfl (hc _ (by simp))
  · exact sits_qualityUnion hk rfl rfl rfl _
  · exact sits_epochEntry hk rfl rfl (h.epochs e (mem_sortEpochs.mp hm)) rfl rfl
  · exact sits_boundaryEntry hk rfl rfl (h.boundaries b hm) rfl rfl
  · split at he
    · obtain ⟨r, _, rfl⟩ := mem_map.mp he
      exact sits_seqRangeEntry hk rfl rfl rfl r
    · simp at he

theorem length_sortEpochs (es : List EpochSummary) : (sortEpochs es).length = es.length :=
  (perm_insertionSort _ _).length_eq

theorem map_tag_map {α : Type} {f : α → Entry} {t : Nat} (h : ∀ a, (f a).tag = t)
    (as : List α) : (as.map f).map Entry.tag = List.replicate as.length t := by
  rw [map_map, eq_replicate_iff]
  simp [h]

theorem tags_f3Entries (s : BlockSummary) :
    ∃ k, (f3Entries s).map Entry.tag =
      [1, 2, 3, 5] ++ (List.replicate s.epochs.length 7 ++
        (List.replicate s.boundaries.length 8 ++ List.replicate k 9)) := by
  refine ⟨if 1 < s.seqRanges.length then s.seqRanges.length else 0, ?_⟩
  have he := map_tag_map (f := epochEntry f3TagEpoch) (fun _ => rfl) (sortEpochs s.epochs)
  have hb := map_tag_map (f := boundaryEntry f3TagBoundary) (fun _ => rfl) s.boundaries
  have hr := map_tag_map (f := seqRangeEntry f3TagSeqRange) (fun _ => rfl) s.seqRanges
  rw [length_sortEpochs] at he
  simp only [f3Entries, map_append, append_assoc, he, hb]
  split
  · rw [hr]
    rfl
  · rfl

theorem passes_f3Entries (h : s.InRange) (hn : s.epochs ≠ []) :
    Passes minor (room + 2) Tlv.f3 (f3Entries s) := by
  refine passes_succ (sits_f3Entries h) ?_ ?_
  · obtain ⟨k, hk⟩ := tags_f3Entries s
    rw [hk]
    refine pairwise_append_repeats (by decide) fun t ht f hf => ?_
    simp only [mem_append, mem_replicate] at ht
    rcases ht with ⟨_, rfl⟩ | ⟨_, rfl⟩ | ⟨_, rfl⟩ <;> (obtain rfl := Option.some.inj hf; rfl)
  · obtain ⟨k, hk⟩ := tags_f3Entries s
    have hsub : ∀ n ∈ [1, 2, 3, 5, 7], n ∈ (f3Entries s).map Entry.tag := by
      rw [hk]
      simp [mem_replicate, hn]
    intro p hp hr
    refine hsub p.1 ?_
    revert p
    decide

theorem decodeValidated_appendF3 (h : s.InRange) (hn : s.epochs ≠ []) :
    decodeValidated (appendF3 s) Tlv.f3 = .ok (placed 0 (f3Entries s)) := by
  have hv : validate (placed 0 (f3Entries s)) Tlv.f3 = .ok () := passes_f3Entries h hn 0
  have hok (e : Entry) (he : e ∈ f3Entries s) := (sits_f3Entries h e he : Sits 0 1 _ e).ok
  rw [decodeValidated, appendF3, decode_flatMap hok, bind_ok, hv]
  rfl

theorem qualityUnionOf_u64Entry (tag off : Nat) (q : UInt16) :
    qualityUnionOf ((u64Entry tag q.toNat).moved off) = .ok q := by
  have hq := q.toNat_lt
  have hle : q.toNat ≤ maxU64 := hq.le.trans (by decide)
  have hn : ¬2 ^ 16 - 1 < q.toNat := by omega
  simp only [qualityUnionOf, u64_u64Entry tag off hle, bind_ok, failIf, hn, if_false, pure_eq,
    UInt16.ofNat_toNat]

-- What the entries of the list of `s` make of a summary `d` without lists.
def withF3 (d s : BlockSummary) : BlockSummary :=
  { d with
    kindCounts := s.kindCounts
    dirCounts := s.dirCounts
    decodeStatusCounts := s.decodeStatusCounts
    qualityUnion := s.qualityUnion
    epochs := d.epochs ++ sortEpochs s.epochs
    boundaries := d.boundaries ++ s.boundaries
    seqRanges := d.seqRanges ++ if 1 < s.seqRanges.length then s.seqRanges else [] }

theorem foldlM_f3Entries {d : BlockSummary} (k : Entry → Err → Err) (h : s.InRange) (off : Nat) :
    (placed off (f3Entries s)).foldlM (fun s e => mapErr (k e) (setF3 s e)) d =
      .ok (withF3 d s) := by
  have hcount (cs : List Nat) (hc : cs ∈ [s.kindCounts, s.dirCounts, s.decodeStatusCounts]) :=
    decodeU32Array_append (h.counts cs hc).2
  have hfour (off : Nat) : (placed off [bytesEntry f3TagKindCounts (appendU32Array s.kindCounts),
      bytesEntry f3TagDirCounts (appendU32Array s.dirCounts),
      bytesEntry f3TagDecodeStatusCounts (appendU32Array s.decodeStatusCounts),
      u64Entry f3TagQualityUnion s.qualityUnion.toNat]).foldlM
        (fun s e => mapErr (k e) (setF3 s e)) d =
      .ok { d with
        kindCounts := s.kindCounts
        dirCounts := s.dirCounts
        decodeStatusCounts := s.decodeStatusCounts
        qualityUnion := s.qualityUnion } := by
    refine foldlM_placed_cons (fun _ => set_eq_ok _ (hcount _ (by simp))) ?_ off
    refine foldlM_placed_cons (fun _ => set_eq_ok _ (hcount _ (by simp))) ?_
    refine foldlM_placed_cons (fun _ => set_eq_ok _ (hcount _ (by simp))) ?_
    exact foldlM_placed_cons (fun _ => set_eq_ok _ (qualityUnionOf_u64Entry ..)) fun _ => rfl
  have h₁ := foldlM_placed_append hfour <|
    foldlM_placed_map (f := epochEntry f3TagEpoch)
      (fun d es => { d with epochs := d.epochs ++ es }) (by simp) (by simp)
      (fun e he _ _ => set_eq_ok _ (epochOf_epochEntry (h.epochs e (mem_sortEpochs.mp he)) _ _)) _
  have h₂ := foldlM_placed_append h₁ <|
    foldlM_placed_map (f := boundaryEntry f3TagBoundary)
      (fun d bs => { d with boundaries := d.boundaries ++ bs }) (by simp) (by simp)
      (fun b hb _ _ => set_eq_ok _ (boundaryOf_boundaryEntry (h.boundaries b hb) _ _)) _
  refine foldlM_placed_append h₂ (fun off => ?_) off
  split
  case isFalse => simp [withF3, *]
  case isTrue =>
    refine .trans (foldlM_placed_map (fun d rs => { d with seqRanges := d.seqRanges ++ rs })
      (by simp) (by simp) (fun r hr _ _ => ?_) _ off) ?_
    · exact set_eq_ok _ (decodeSeqRange_append (h.seqRanges r hr).1 (h.seqRanges r hr).2)
    · simp [withF3, *]

end Tracepack
