import GoSecs.Tracepack.Theorems.FooterRead

open Run List

namespace Tracepack

open Tlv
open Format

theorem trimZeros_concat (cs : List Nat) (c : Nat) :
    trimZeros (cs ++ [c]) = if c = 0 then trimZeros cs else cs ++ [c] := by
  unfold trimZeros
  split
  case isTrue h  => rw [rdropWhile_concat_pos _ _ _ (by simpa using h)]
  case isFalse h => rw [rdropWhile_concat_neg _ _ _ (by simpa using h)]

theorem getD_trimZeros (cs : List Nat) (v : Nat) : (trimZeros cs).getD v 0 = cs.getD v 0 := by
  induction cs using List.reverseRecOn
  case nil => rfl
  case append_singleton cs c hi =>
    rw [trimZeros_concat]
    split
    case isFalse => rfl
    case isTrue h =>
      rw [hi, h]
      simp only [getD_eq_getElem?_getD]
      rcases Nat.lt_trichotomy v cs.length with hv | rfl | hv
      · rw [getElem?_append_left hv]
      · simp
      · rw [getElem?_eq_none hv.le, getElem?_eq_none (by simp; omega)]

theorem checkCounts_spec (name : String) (got want : List Nat) :
    Spec (checkCounts name got want) fun _ => ∀ v, got.getD v 0 = want.getD v 0 := by
  refine (Agree.failIf ..).mono fun _ h v => ?_
  rw [not_not] at h
  rw [← getD_trimZeros got, h, getD_trimZeros]

theorem compareOptional_eq {a b : Option Int} (h : compareOptional a b = .eq) : a = b := by
  cases a <;> cases b <;> simp_all [compareOptional]

theorem compareBoundaries_eq {a b : BoundarySummary} (h : compareBoundaries a b = .eq) : a = b := by
  simp only [compareBoundaries, Ordering.then_eq_eq, compare_eq_iff_eq] at h
  obtain ⟨h₁, h₂, h₃, h₄, h₅, h₆⟩ := h
  cases a
  cases b
  simp only [BoundarySummary.mk.injEq]
  exact ⟨h₁, UInt8.toNat_inj.mp h₂, h₃, h₄, compareOptional_eq h₅, compareOptional_eq h₆⟩

theorem eq_of_zip_all {r : α → α → Bool} (hr : ∀ a b, r a b → a = b) {as bs : List α}
    (hl : as.length = bs.length) (h : (as.zip bs).all fun p => r p.1 p.2) : as = bs := by
  induction as generalizing bs
  case nil => exact (length_eq_zero_iff.mp hl.symm).symm
  case cons a as hi =>
    cases bs
    case nil => simp at hl
    case cons b bs =>
      simp only [zip_cons_cons, all_cons, Bool.and_eq_true] at h
      rw [hr a b h.1, hi (by simpa using hl) h.2]

theorem perm_of_equalBoundarySets {got want : List BoundarySummary}
    (h : equalBoundarySets got want = true) : got.Perm want := by
  simp only [equalBoundarySets, Bool.and_eq_true, decide_eq_true_eq] at h
  have hp := perm_insertionSort (compareBoundaries · · ≠ .gt) got
  have hp' := perm_insertionSort (compareBoundaries · · ≠ .gt) want
  have he : sortBoundaries got = sortBoundaries want := by
    refine eq_of_zip_all (r := fun x y => compareBoundaries x y = .eq) ?_ ?_ h.2
    · exact fun a b hab => compareBoundaries_eq (of_decide_eq_true hab)
    · rw [sortBoundaries, sortBoundaries, hp.length_eq, hp'.length_eq, h.1]
  simp only [sortBoundaries] at he
  exact hp.symm.trans (he ▸ hp')

theorem checkPackStats_spec (got want : PackStats) :
    Spec (checkPackStats got want) fun _ => got.normalize.Same want := by
  refine .check fun hr => ?_
  refine .check fun ht => ?_
  refine .check fun hc => ?_
  refine .check fun hq => ?_
  refine .check fun hs => ?_
  refine .check fun he => ?_
  refine .check fun hb => ?_
  refine (checkCounts_spec ..).bind fun _ hk => ?_
  refine (checkCounts_spec ..).bind fun _ hd => ?_
  refine (checkCounts_spec ..).mono fun _ hds => ?_
  rw [not_or] at ht
  exact {
    recordCount := of_not_not hr
    kindCounts := hk
    dirCounts := hd
    decodeStatusCounts := hds
    tsMin := of_not_not ht.1
    tsMax := of_not_not ht.2
    contentBytes := of_not_not hc
    qualityUnion := of_not_not hq
    seqRanges := of_not_not hs
    epochs := by simpa [equalEpochSets, PackStats.normalize] using he
    boundaries :=
      (perm_insertionSort _ _).trans (perm_of_equalBoundarySets (by simpa using hb)) }

theorem checkPrologue_spec (pro : FooterPrologue) (tr : Trailer) :
    Spec (checkPrologue pro tr) fun _ => True := by
  refine .check fun _ => ?_
  refine .check fun _ => ?_
  refine .check fun _ => ?_
  refine .check fun _ => ?_
  exact (Agree.failIf ..).mono fun _ _ => trivial

theorem checkTrailerTotals_spec (st : PackStats) (bs : List BlockSummary) (tr : Trailer) :
    Spec (checkTrailerTotals st bs tr) fun _ => tr.recordCount = st.recordCount := by
  refine .check fun h => ?_
  exact (Agree.failIf ..).mono fun _ _ => of_not_not h

section Blocks

variable {es : List F2Entry} {bs : List BlockSummary} {f3Len next stop p : Nat} {prev : Option Nat}

theorem Chained.tiles (h : Chained f3Len next prev es stop) (hp : List.Forall₂ Parsed es bs) :
    Tiles next bs stop := by
  induction hp generalizing next prev
  case nil => exact h
  case cons e b es bs hb _ hi =>
    have ⟨ho, he, _, hs⟩ := h
    have hx : f2EntryOf b e.summaryOffset e.summaryLen = e := hb.indexes
    have hoff : b.offset = e.offset := congrArg F2Entry.offset hx
    have hlen : b.onDiskLen = e.onDiskLen := congrArg F2Entry.onDiskLen hx
    refine ⟨hoff.trans ho, hlen ▸ he.onDiskLen, ?_⟩
    rw [hlen]
    exact hi hs

theorem Chained.lt_firstSeq (h : Chained f3Len next (some p) es stop)
    (hp : List.Forall₂ Parsed es bs) : ∀ b ∈ bs, p < b.firstSeq := by
  induction hp generalizing next p
  case nil => simp
  case cons e b es bs hb _ hi =>
    have ⟨_, he, hl, hs⟩ := h
    have hfirst : b.firstSeq = e.firstSeq := congrArg F2Entry.firstSeq hb.indexes
    have hlt := hl p rfl
    refine forall_mem_cons.mpr ⟨by omega, fun c hc => ?_⟩
    have := hi hs c hc
    have := he.seqs
    omega

theorem Chained.apart (h : Chained f3Len next prev es stop) (hp : List.Forall₂ Parsed es bs) :
    bs.Pairwise fun a b => a.lastSeq < b.firstSeq := by
  induction hp generalizing next prev
  case nil => exact .nil
  case cons e b es bs hb hbs hi =>
    have ⟨_, _, _, hs⟩ := h
    have hlast : b.lastSeq = e.lastSeq := congrArg F2Entry.lastSeq hb.indexes
    refine .cons (fun c hc => ?_) (hi hs)
    rw [hlast]
    exact hs.lt_firstSeq hbs c hc

theorem exists_parsed (hp : List.Forall₂ Parsed es bs) : ∀ b ∈ bs, ∃ e, Parsed e b := by
  induction hp
  case nil => simp
  case cons hb _ hi => exact forall_mem_cons.mpr ⟨⟨_, hb⟩, hi⟩

theorem ascending_of_apart (h : bs.Pairwise fun a b => a.lastSeq < b.firstSeq)
    (hs : ∀ b ∈ bs, b.Sound) : bs.Pairwise fun a b => ∀ x ∈ a.seqs, ∀ y ∈ b.seqs, x < y := by
  refine h.imp_of_mem fun {a b} ha hb hab x hx y hy => ?_
  have := ((hs a ha).bounds x hx).2
  have := ((hs b hb).bounds y hy).1
  omega

theorem foldl_addBlock_recordCount (st : PackStats) (index : List (Nat × Nat)) :
    (bs.foldl (addBlock exact) (st, index)).1.recordCount =
      st.recordCount + (bs.map (·.recordCount)).sum := by
  induction bs generalizing st index
  case nil => rfl
  case cons b bs hi =>
    rw [foldl_cons, ← Prod.eta (addBlock exact (st, index) b), hi]
    simp only [addBlock, exact_add, map_cons, sum_cons]
    omega

theorem aggregate_recordCount (bs : List BlockSummary) :
    (aggregate exact bs).recordCount = (bs.map (·.recordCount)).sum := by
  simp only [aggregate, foldl_addBlock_recordCount]
  cases bs <;> simp

end Blocks

structure FooterIndex.Ordered (idx : FooterIndex) : Prop where
  blocks  : idx.blocks.Pairwise fun a b => a.lastSeq < b.firstSeq
  ranges  : ∀ b ∈ idx.blocks, Separated none b.seqRanges
  bounded : ∀ b ∈ idx.blocks, b.Bounded

theorem parseFooter_agree (decoded : Bytes) (tr : Trailer) (blocksStart maxF3 : Nat) (keepF3 : Bool) :
    Agree (parseFooter wrapping decoded tr blocksStart maxF3 keepF3)
      (parseFooter exact decoded tr blocksStart maxF3 keepF3)
      fun idx => idx.Sound tr blocksStart ∧ idx.Ordered := by
  refine (unmarshalFooterPrologue_spec decoded).mapErr.bind fun pro hpro => ?_
  refine (checkPrologue_spec pro tr).bind fun _ _ => ?_
  refine (locateSections_agree hpro).bind fun sec ⟨hf2, hf3⟩ => ?_
  refine (parseBlockIndex_agree hf2).bind fun es ⟨hn, hc⟩ => ?_
  have hlen : es.length < 2 ^ 32 := hn ▸ hpro.blockCount
  refine (parseSummaries_agree (Nat.zero_le _) (by omega) (hf3 ▸ hc.entryOk)).bind fun bs hbs => ?_
  refine (parsePackStats_spec ..).bind fun st _ => ?_
  have hparsed := exists_parsed hbs
  have hsound : ∀ b ∈ bs, b.Sound := fun b hb => (hparsed b hb).elim fun _ h => h.sound
  have hbounded : ∀ b ∈ bs, b.Bounded := fun b hb => (hparsed b hb).elim fun _ h => h.bounded
  have hranges : ∀ b ∈ bs, Separated none b.seqRanges := fun b hb =>
    (hparsed b hb).elim fun _ h => h.apart
  have hbslen : bs.length < 2 ^ 32 := hbs.length_eq ▸ hlen
  rw [aggregate_wrapping hbslen.le hbounded]
  refine (checkPackStats_spec ..).bind fun _ hst => ?_
  refine (checkTrailerTotals_spec ..).bind fun _ htr => Agree.pure ?_
  refine ⟨⟨hc.tiles hbs, ascending_of_apart (hc.apart hbs) hsound, ?_, hsound, hst⟩,
    hc.apart hbs, hranges, hbounded⟩
  have hcard : bs.map (·.seqs.card) = bs.map (·.recordCount) :=
    map_congr_left fun b hb => (hsound b hb).card
  calc (bs.map (·.seqs.card)).sum = (aggregate exact bs).recordCount := by
        rw [hcard, aggregate_recordCount]
    _ = tr.recordCount := by
        rw [← hst.recordCount, htr]
        rfl

-- Whatever the bytes, the trailer and the start of the blocks: no slice is out of range, no sum that
-- wraps matters, and an accepted footer is sound.
theorem parseFooter_sound (decoded : Bytes) (tr : Trailer) (blocksStart maxF3 : Nat) (keepF3 : Bool) :
    Safe (parseFooter wrapping decoded tr blocksStart maxF3 keepF3) ∧
    parseFooter wrapping decoded tr blocksStart maxF3 keepF3 =
      parseFooter exact decoded tr blocksStart maxF3 keepF3 ∧
    ∀ idx, parseFooter wrapping decoded tr blocksStart maxF3 keepF3 = .ok idx →
      idx.Sound tr blocksStart := by
  have h := parseFooter_agree decoded tr blocksStart maxF3 keepF3
  exact ⟨h.safe, h.eq, fun idx hi => (h.post idx hi).1⟩

def gapBlock : BlockSummary :=
  let h : RecordHeader := {
    seq := 3, tsUTCNs := -5, monoNs := 0, epoch := 1, payloadLen := 4, trailingBytes := 0
    quality := 4, kind := 1, dir := 1, fidelity := 1, decodeStatus := 0, fieldValidity := 0
    recordFlags := 0 }
  { (({} : BlockSummary).addRecord h none).addRecord { h with seq := 9, epoch := 2 } none with
    offset := 100, onDiskLen := 80, uncompressedLen := 96, recordHeaderLen := 44 }

def gapFooter : Bytes :=
  match buildFooter [gapBlock] (2 ^ 32 - 1) 0 with
  | .ok (footer, _) => footer
  | .error _ => []

def gapTrailer : Trailer where
  footerOffset := 180
  footerLen := 0
  footerUncompressedLen := 0
  blockCount := 1
  footerCRC := 0
  recordCount := 2
  lastSeq := 9
  trailerVersion := 1
  footerCodec := 0
  flags := 0

theorem parseFooter_sound_gapFooter :
    ∃ idx, parseFooter wrapping gapFooter gapTrailer 100 1000 false = .ok idx ∧
      idx.Sound gapTrailer 100 := by
  have hok : (parseFooter wrapping gapFooter gapTrailer 100 1000 false).toBool = true := by
    decide +kernel
  cases h : parseFooter wrapping gapFooter gapTrailer 100 1000 false
  case error e => simp [h, Except.toBool] at hok
  case ok idx  => exact ⟨idx, rfl, (parseFooter_sound gapFooter gapTrailer 100 1000 false).2.2 idx h⟩

end Tracepack
