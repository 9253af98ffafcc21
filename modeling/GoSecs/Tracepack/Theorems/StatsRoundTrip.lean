import GoSecs.Tracepack.Theorems.SummaryRoundTrip

open Run LittleEndian List

namespace Tracepack

open Tlv

structure PackStats.InRange (st : PackStats) : Prop where
  recordCount : st.recordCount ≤ maxU64
  counts : ∀ cs ∈ [st.kindCounts, st.dirCounts, st.decodeStatusCounts],
    cs.length ≤ 256 ∧ ∀ c ∈ cs, c ≤ maxU64
  tsMin : LittleEndian.InRange 8 st.tsMin
  tsMax : LittleEndian.InRange 8 st.tsMax
  contentBytes : st.contentBytes ≤ maxU64
  seqRanges : ∀ r ∈ st.seqRanges, r.first ≤ maxU64 ∧ r.last ≤ maxU64
  epochs : ∀ e ∈ st.epochs, e.InRange
  boundaries : ∀ b ∈ st.boundaries, b.InRange

variable {st d : PackStats} {hasBlocks : Bool} {minor room : Nat} {es : List EpochSummary}

theorem sits_f5Entries (h : st.InRange) :
    ∀ e ∈ f5Entries st hasBlocks, Sits minor (room + 1) Tlv.f5 e := by
  have hk : Tlv.f5.Tagged := by decide
  have hc (cs : List Nat) (hm : cs ∈ [st.kindCounts, st.dirCounts, st.decodeStatusCounts]) :
      (appendU64Array cs).length < 2 ^ 32 := by
    have := (h.counts cs hm).1
    rw [appendU64Array, length_flatMap_bytes]
    omega
  intro e he
  simp only [f5Entries, f5Singles, mem_append, mem_cons, not_mem_nil, or_false, mem_map]
    at he
  rcases he with (((((rfl | rfl | rfl | rfl) | he) | (rfl | rfl)) | ⟨r, _, rfl⟩) | ⟨e, hm, rfl⟩) |
    ⟨b, hm, rfl⟩
  · exact .u64 hk rfl rfl rfl h.recordCount
  · exact .bytes hk rfl rfl rfl (hc _ (by simp))
  · exact .bytes hk rfl rfl rfl (hc _ (by simp))
  · exact .bytes hk rfl rfl rfl (hc _ (by simp))
  · split at he
    · rcases mem_pair.mp he with rfl | rfl
      · exact .i64 hk rfl rfl rfl _
      · exact .i64 hk rfl rfl rfl _
    · simp at he
  · exact .u64 hk rfl rfl rfl h.contentBytes
  · exact sits_qualityUnion hk rfl rfl rfl _
  · exact sits_seqRangeEntry hk rfl rfl rfl r
  · exact sits_epochEntry hk rfl rfl (h.epochs e hm) rfl rfl
  · exact sits_boundaryEntry hk rfl rfl (h.boundaries b hm) rfl rfl

theorem tags_f5Entries (st : PackStats) (hasBlocks : Bool) :
    (f5Entries st hasBlocks).map Entry.tag =
      ([1, 2, 3, 4] ++ (if hasBlocks then [5, 6] else []) ++ [7, 8]) ++
        (replicate st.seqRanges.length 9 ++ (replicate st.epochs.length 10 ++
          replicate st.boundaries.length 11)) := by
  have hr := map_tag_map (f := seqRangeEntry f5TagSeqRange) (fun _ => rfl) st.seqRanges
  have he := map_tag_map (f := epochEntry f5TagEpoch) (fun _ => rfl) st.epochs
  have hb := map_tag_map (f := boundaryEntry f5TagBoundary) (fun _ => rfl) st.boundaries
  simp only [f5Entries, f5Singles, map_append, append_assoc, he, hb, hr]
  cases hasBlocks <;> rfl

theorem passes_f5Entries (h : st.InRange) :
    Passes minor (room + 2) Tlv.f5 (f5Entries st hasBlocks) := by
  refine passes_succ (sits_f5Entries h) ?_ ?_
  · rw [tags_f5Entries]
    refine pairwise_append_repeats (by cases hasBlocks <;> decide) fun t ht f hf => ?_
    simp only [mem_append, mem_replicate] at ht
    rcases ht with ⟨_, rfl⟩ | ⟨_, rfl⟩ | ⟨_, rfl⟩ <;> (obtain rfl := Option.some.inj hf; rfl)
  · have hno : ∀ p ∈ Tlv.f5, p.2.required = false := by decide
    intro p hp hr
    simp [hno p hp] at hr

theorem decodeValidated_appendF5 (h : st.InRange) :
    decodeValidated (appendF5 st hasBlocks) Tlv.f5 = .ok (placed 0 (f5Entries st hasBlocks)) := by
  have hv : validate (placed 0 (f5Entries st hasBlocks)) Tlv.f5 = .ok () := passes_f5Entries h 0
  have hok (e : Entry) (he : e ∈ f5Entries st hasBlocks) :=
    (sits_f5Entries h e he : Sits 0 1 _ e).ok
  rw [decodeValidated, appendF5, decode_flatMap hok, bind_ok, hv]
  rfl

section SetF5

variable (k : Entry → Err → Err)

theorem foldlM_seqRanges_f5 {rs : List SeqRange}
    (h : ∀ r ∈ rs, r.first ≤ maxU64 ∧ r.last ≤ maxU64) (off : Nat) :
    (placed off (rs.map (seqRangeEntry f5TagSeqRange))).foldlM
      (fun st e => mapErr (k e) (setF5 st e)) d =
      .ok { d with seqRanges := d.seqRanges ++ rs } := by
  refine foldlM_placed_map (fun d rs => { d with seqRanges := d.seqRanges ++ rs }) (by simp)
    (by simp) (fun r hr off d => ?_) d off
  exact mapErr_eq_ok.mpr (bind_eq_ok.mpr ⟨r, decodeSeqRange_append (h r hr).1 (h r hr).2, rfl⟩)

theorem foldlM_epochs_f5 (h : ∀ e ∈ es, e.InRange) (off : Nat) :
    (placed off (es.map (epochEntry f5TagEpoch))).foldlM (fun st e => mapErr (k e) (setF5 st e)) d =
      .ok { d with epochs := d.epochs ++ es } := by
  refine foldlM_placed_map (fun d es => { d with epochs := d.epochs ++ es }) (by simp) (by simp)
    (fun e he off d => ?_) d off
  exact mapErr_eq_ok.mpr (bind_eq_ok.mpr ⟨e, epochOf_epochEntry (h e he) _ _, rfl⟩)

theorem foldlM_boundaries_f5 {bs : List BoundarySummary} (h : ∀ b ∈ bs, b.InRange) (off : Nat) :
    (placed off (bs.map (boundaryEntry f5TagBoundary))).foldlM
      (fun st e => mapErr (k e) (setF5 st e)) d =
      .ok { d with boundaries := d.boundaries ++ bs } := by
  refine foldlM_placed_map (fun d bs => { d with boundaries := d.boundaries ++ bs }) (by simp)
    (by simp) (fun b hb off d => ?_) d off
  exact mapErr_eq_ok.mpr (bind_eq_ok.mpr ⟨b, boundaryOf_boundaryEntry (h b hb) _ _, rfl⟩)

theorem foldlM_f5Entries (h : st.InRange) (hts : hasBlocks = false → st.tsMin = 0 ∧ st.tsMax = 0)
    (off : Nat) :
    (placed off (f5Entries st hasBlocks)).foldlM (fun st e => mapErr (k e) (setF5 st e)) {} =
      .ok st := by
  have hr (d : PackStats) (off : Nat) :
      setF5 d ((u64Entry f5TagRecordCount st.recordCount).moved off) =
        .ok { d with recordCount := st.recordCount } :=
    bind_eq_ok.mpr ⟨_, u64_u64Entry _ _ h.recordCount, rfl⟩
  have hk (d : PackStats) (off : Nat) :
      setF5 d ((bytesEntry f5TagKindCounts (appendU64Array st.kindCounts)).moved off) =
        .ok { d with kindCounts := st.kindCounts } :=
    bind_eq_ok.mpr ⟨_, decodeU64Array_append (h.counts _ (by simp)).2, rfl⟩
  have hd (d : PackStats) (off : Nat) :
      setF5 d ((bytesEntry f5TagDirCounts (appendU64Array st.dirCounts)).moved off) =
        .ok { d with dirCounts := st.dirCounts } :=
    bind_eq_ok.mpr ⟨_, decodeU64Array_append (h.counts _ (by simp)).2, rfl⟩
  have hs (d : PackStats) (off : Nat) :
      setF5 d ((bytesEntry f5TagDecodeStatusCounts
        (appendU64Array st.decodeStatusCounts)).moved off) =
        .ok { d with decodeStatusCounts := st.decodeStatusCounts } :=
    bind_eq_ok.mpr ⟨_, decodeU64Array_append (h.counts _ (by simp)).2, rfl⟩
  have hmin (d : PackStats) (off : Nat) :
      setF5 d ((i64Entry f5TagTSMin st.tsMin).moved off) = .ok { d with tsMin := st.tsMin } :=
    bind_eq_ok.mpr ⟨_, i64_i64Entry _ _ h.tsMin, rfl⟩
  have hmax (d : PackStats) (off : Nat) :
      setF5 d ((i64Entry f5TagTSMax st.tsMax).moved off) = .ok { d with tsMax := st.tsMax } :=
    bind_eq_ok.mpr ⟨_, i64_i64Entry _ _ h.tsMax, rfl⟩
  have hc (d : PackStats) (off : Nat) :
      setF5 d ((u64Entry f5TagContentBytes st.contentBytes).moved off) =
        .ok { d with contentBytes := st.contentBytes } :=
    bind_eq_ok.mpr ⟨_, u64_u64Entry _ _ h.contentBytes, rfl⟩
  have hq (d : PackStats) (off : Nat) :
      setF5 d ((u64Entry f5TagQualityUnion st.qualityUnion.toNat).moved off) =
        .ok { d with qualityUnion := st.qualityUnion } :=
    bind_eq_ok.mpr ⟨_, qualityUnionOf_u64Entry .., rfl⟩
  have hsingles (off : Nat) :
      (placed off (f5Singles st hasBlocks)).foldlM (fun st e => mapErr (k e) (setF5 st e)) {} =
        .ok { st with seqRanges := [], epochs := [], boundaries := [] } := by
    cases hasBlocks
    case true =>
      simp [f5Singles, hr, hk, hd, hs, hmin, hmax, hc, hq]
    case false =>
      simp [f5Singles, hr, hk, hd, hs, hc, hq, hts rfl]
  have h₁ := foldlM_placed_append hsingles fun off => foldlM_seqRanges_f5 k h.seqRanges off
  have h₂ := foldlM_placed_append h₁ fun off => foldlM_epochs_f5 k h.epochs off
  exact foldlM_placed_append h₂ (fun off => foldlM_boundaries_f5 k h.boundaries off) off

end SetF5

theorem twice_eq_none (h : es.Pairwise fun a b => a.epoch ≠ b.epoch) :
    twice es = none := by
  induction es
  case nil => rfl
  case cons a es hi =>
    have ⟨ha, hes⟩ := pairwise_cons.mp h
    cases es
    case nil => rfl
    case cons b es =>
      rw [twice, if_neg (Ne.symm (ha b mem_cons_self))]
      exact hi hes

theorem checkUniqueEpochs_eq_ok (h : (es.map (·.epoch)).Nodup) :
    checkUniqueEpochs es = .ok () := by
  have hn : ((sortEpochs es).map (·.epoch)).Nodup :=
    ((perm_insertionSort _ es).map _).nodup_iff.mpr h
  rw [checkUniqueEpochs, twice_eq_none (pairwise_map.mp hn)]
  rfl

theorem checkPresent_eq_ok {seen tags : List Nat} (h : ∀ t ∈ tags, t ∈ seen) :
    checkPresent seen tags = .ok () := by
  induction tags
  case nil => rfl
  case cons t tags hi =>
    have ⟨ht, hts⟩ := forall_mem_cons.mp h
    simp [checkPresent, failIf, ht, pure_eq, bind_ok, hi hts]

theorem checkTimes_eq_ok {seen tags : List Nat} (h : ∀ t ∈ tags, t ∈ seen ↔ hasBlocks = true) :
    checkTimes seen hasBlocks tags = .ok () := by
  induction tags
  case nil => rfl
  case cons t tags hi =>
    have ⟨ht, hts⟩ := forall_mem_cons.mp h
    have hd : decide (t ∈ seen) = hasBlocks := by
      rw [Bool.eq_iff_iff, decide_eq_true_iff]
      exact ht
    simp [checkTimes, failIf, hd, ne_eq, pure_eq, bind_ok, hi hts]

theorem parsePackStats_appendF5 (h : st.InRange) (hn : (st.epochs.map (·.epoch)).Nodup)
    (hts : hasBlocks = false → st.tsMin = 0 ∧ st.tsMax = 0) :
    parsePackStats (appendF5 st hasBlocks) hasBlocks = .ok st := by
  have htags : ((placed 0 (f5Entries st hasBlocks)).map Entry.tag) =
      ([1, 2, 3, 4] ++ (if hasBlocks then [5, 6] else []) ++ [7, 8]) ++
        (replicate st.seqRanges.length 9 ++ (replicate st.epochs.length 10 ++
          replicate st.boundaries.length 11)) := by
    rw [map_tag_placed, tags_f5Entries]
  have hpresent : checkPresent ((placed 0 (f5Entries st hasBlocks)).map Entry.tag) f5Required =
      .ok () := by
    refine checkPresent_eq_ok fun t ht => ?_
    rw [htags]
    refine mem_append_left _ ?_
    revert t
    cases hasBlocks <;> decide
  have htimes : checkTimes ((placed 0 (f5Entries st hasBlocks)).map Entry.tag) hasBlocks
      [f5TagTSMin, f5TagTSMax] = .ok () := by
    refine checkTimes_eq_ok fun t ht => ?_
    have hrep : t ∉ replicate st.seqRanges.length 9 ++ (replicate st.epochs.length 10 ++
        replicate st.boundaries.length 11) := by
      simp only [mem_append, mem_replicate]
      rcases mem_pair.mp ht with rfl | rfl <;> simp [f5TagTSMin, f5TagTSMax]
    rw [htags, mem_append, or_iff_left hrep]
    clear hrep
    revert t
    cases hasBlocks <;> decide
  rw [parsePackStats, decodeValidated_appendF5 h]
  simp only [mapErr_ok, bind_ok]
  rw [foldlM_f5Entries _ h hts]
  simp only [bind_ok, hpresent, htimes, checkUniqueEpochs_eq_ok hn, mapErr_ok, pure_eq]

end Tracepack
