import GoSecs.Tracepack.Theorems.IndexRoundTrip

open Run List

namespace Tracepack

open Format
open BlockData (place)

variable {ds : List BlockData} {rs : List Row} {off : Nat} {prev : Option Nat} {decoded : Bytes}
  {blockCount f3Len f5Len : Nat} {st : PackStats}

theorem sections_cons {a b c : Bytes} {name : String} {n prevEnd : Nat}
    {ss : List (String × Nat × Nat)} (hd : decoded = a ++ (b ++ c)) (ha : a.length = off)
    (hb : b.length = n) (hp : prevEnd ≤ off) (hu : decoded.length < 2 ^ 64) :
    sections exact decoded ((name, off, n) :: ss) prevEnd =
      (sections exact decoded ss (off + n) >>= fun secs => pure (b :: secs)) := by
  have hlen : decoded.length = off + n + c.length := by
    rw [hd, length_append, length_append]
    omega
  have hfit : ¬(2 ^ 64 ≤ off + n ∨ off < prevEnd ∨ decoded.length < off + n) := by omega
  have hslice : (slice decoded off (off + n) : Run Err Bytes) = .ok b := by
    rw [hd]
    exact slice_middle ha (by omega)
  rw [sections, exact_add, failIf, if_neg hfit, pure_eq, bind_ok, hslice, bind_ok]

theorem prologueOf_inRange (hb : blockCount < 2 ^ 32)
    (h : footerPrologueLen + blockCount * Format.f2EntryLen + f3Len + f5Len ≤ maxU64) :
    (prologueOf blockCount f3Len f5Len).InRange where
  version := rfl
  flags := show footerFlagF3Present < 4 by decide
  blockCount := hb
  entryLen := le_rfl
  entryLen_lt := show Format.f2EntryLen < 2 ^ 32 by decide
  extractionVersion := show 0 < 2 ^ 32 by decide
  offsets := by
    simp only [prologueOf]
    omega
  lens := by
    simp only [prologueOf]
    omega

theorem locateSections_prologueOf {p f2 f3 f5 : Bytes}
    (hp : p.length = footerPrologueLen) (h2 : f2.length = blockCount * Format.f2EntryLen)
    (hu : (p ++ f2 ++ f3 ++ f5).length < 2 ^ 64) :
    locateSections exact (p ++ f2 ++ f3 ++ f5) (prologueOf blockCount f3.length f5.length) =
      .ok ⟨f2, f3, f5⟩ := by
  have hf2 : exact (blockCount * Format.f2EntryLen) = blockCount * Format.f2EntryLen := by
    rw [← Nat.cast_mul]
    rfl
  have hp2 : (p ++ f2).length = footerPrologueLen + blockCount * Format.f2EntryLen := by
    rw [length_append, hp, h2]
  have hp3 : (p ++ f2 ++ f3).length =
      footerPrologueLen + blockCount * Format.f2EntryLen + f3.length := by
    rw [length_append, hp2]
  have hd : p ++ f2 ++ f3 ++ f5 = p ++ (f2 ++ (f3 ++ f5)) := by simp only [append_assoc]
  have h4 : p ++ f2 ++ f3 ++ f5 = p ++ f2 ++ f3 ++ ([] ++ f5) := rfl
  have h5 : p ++ f2 ++ f3 ++ f5 = p ++ f2 ++ f3 ++ (f5 ++ []) := by rw [append_nil]
  simp only [locateSections, prologueOf, hf2]
  rw [sections_cons hd hp h2 le_rfl hu,
    sections_cons (append_assoc ..) hp2 rfl le_rfl hu,
    sections_cons h4 hp3 length_nil le_rfl hu, Nat.add_zero,
    sections_cons h5 hp3 rfl le_rfl hu]
  rfl

theorem compareOptional_self (t : Option Int) : compareOptional t t = .eq := by
  cases t <;> simp [compareOptional]

theorem compareBoundaries_self (b : BoundarySummary) : compareBoundaries b b = .eq := by
  simp [compareBoundaries, compareOptional_self]

theorem checkPackStats_self (h : sortEpochs st.epochs = st.epochs) :
    checkPackStats st st = .ok () := by
  have hb : equalBoundarySets st.boundaries st.boundaries = true := by
    have hz (bs : List BoundarySummary) :
        (bs.zip bs).all fun p => compareBoundaries p.1 p.2 = .eq := by
      induction bs
      case nil => rfl
      case cons b bs hi =>
        rw [zip_cons_cons, all_cons, hi, Bool.and_true, decide_eq_true_eq]
        exact compareBoundaries_self b
    simp [equalBoundarySets, hz]
  simp [checkPackStats, checkCounts, failIf, equalEpochSets, h, hb]

theorem boundaries_ascending (hs : (rs.map (·.header.seq)).Pairwise (· < ·)) :
    (rs.filterMap Row.boundary?).Pairwise (·.seq ≤ ·.seq) := by
  rw [pairwise_map] at hs
  refine List.Pairwise.filterMap _ (fun x y hxy a ha b hb => ?_) hs
  obtain ⟨_, _, hx, _⟩ := Row.boundary?_eq_some ha
  obtain ⟨_, _, hy, _⟩ := Row.boundary?_eq_some hb
  exact hx ▸ hy ▸ hxy.le

theorem PackStats.normalize_direct (hs : (rs.map (·.header.seq)).Pairwise (· < ·)) :
    (PackStats.direct rs).normalize = PackStats.direct rs := by
  have he : sortEpochs (PackStats.direct rs).epochs = (PackStats.direct rs).epochs :=
    (epochs_direct rs).sortEpochs_eq
  have hb : (PackStats.direct rs).boundaries.insertionSort (·.seq ≤ ·.seq) =
      (PackStats.direct rs).boundaries :=
    (boundaries_ascending hs).insertionSort_eq
  rw [PackStats.normalize, he, hb]

namespace Placed

variable (h : Placed off prev ds)
include h

theorem bounded : ∀ s ∈ place off ds, s.Bounded := by
  induction ds generalizing off prev
  case nil => simp [place]
  case cons d ds hi =>
    obtain ⟨hd, hds⟩ := h.head
    exact forall_mem_cons.mpr ⟨hd.bounded hds off, hi h.tail⟩

theorem carries :
    List.Forall₂ BlockSummary.Carries (place off ds) (ds.map (·.rows)) ∧
      List.Forall₂ BlockSummary.Carries ((place off ds).map BlockSummary.sorted)
        (ds.map (·.rows)) := by
  induction ds generalizing off prev
  case nil => exact ⟨.nil, .nil⟩
  case cons d ds hi =>
    obtain ⟨hd, hds⟩ := h.head
    have ⟨h₁, h₂⟩ := hi h.tail
    exact ⟨.cons (hd.carries hds off) h₁, .cons (hd.carries_sorted hds off) h₂⟩

theorem aggregate_eq :
    aggregate exact (place off ds) = PackStats.direct (ds.flatMap (·.rows)) ∧
      aggregate exact ((place off ds).map BlockSummary.sorted) =
        PackStats.direct (ds.flatMap (·.rows)) := by
  have hs := h.ascending
  rw [flatMap_def] at hs ⊢
  exact ⟨aggregate_eq_direct h.carries.1 hs, aggregate_eq_direct h.carries.2 hs⟩

theorem aggregate_wrapping (hn : ds.length < 2 ^ 32) :
    aggregate wrapping (place off ds) = PackStats.direct (ds.flatMap (·.rows)) := by
  have hl : (place off ds).length ≤ 2 ^ 32 := by
    rw [length_place]
    exact hn.le
  rw [Tracepack.aggregate_wrapping hl h.bounded]
  exact h.aggregate_eq.1

theorem sum_len_le :
    ((ds.flatMap (·.rows)).map Row.len).sum ≤ ds.length * maxLen32 := by
  have ho := h.ok
  clear h
  induction ds
  case nil => simp
  case cons d ds hi =>
    have ⟨hd, hds⟩ := forall_mem_cons.mp ho
    have hu := hd.uncompressedLen
    have hr := hi hds
    rw [flatMap_cons, map_append, sum_append, length_cons, Nat.add_mul]
    omega

theorem direct_inRange (hn : ds.length < 2 ^ 32) :
    (PackStats.direct (ds.flatMap (·.rows))).InRange := by
  have hsum : ((ds.flatMap (·.rows)).map Row.len).sum ≤ maxU64 := by
    calc ((ds.flatMap (·.rows)).map Row.len).sum ≤ ds.length * maxLen32 := h.sum_len_le
      _ ≤ 2 ^ 32 * maxLen32 := Nat.mul_le_mul_right _ hn.le
      _ ≤ maxU64 := by decide
  refine PackStats.direct_inRange h.ascending (fun r hr => ?_) ?_ hsum
  · obtain ⟨d, hd, hr⟩ := mem_flatMap.mp hr
    exact (h.ok d hd).inRange r hr
  · exact (length_le_sum_len _).trans hsum

end Placed

theorem checkPrologue_prologueOf {tr : Trailer}
    (hb : tr.blockCount = blockCount) (h0 : blockCount = 0 → f3Len = 0) :
    checkPrologue (prologueOf blockCount f3Len f5Len) tr = .ok () := by
  have hn : ¬(blockCount = 0 ∧ f3Len ≠ 0) := fun ⟨h, hf⟩ => hf (h0 h)
  have hflag : ¬footerFlagF3Present &&& footerFlagF3Present = 0 := by decide
  have hf4 : footerFlagF3Present &&& footerFlagF4Present = 0 := by decide
  simp only [checkPrologue, prologueOf, failIf, hb, hn, hflag, hf4, ne_eq, not_true, if_false, pure_eq,
    bind_ok]

theorem buildFooter_eq_ok {blocks : List BlockSummary} {maxF3ListLen maxLen : Nat}
    (h : buildFooter blocks maxF3ListLen maxLen = .ok (decoded, st)) :
    st = aggregate wrapping blocks ∧ (∀ s ∈ blocks, (f3ListOf s).length < 2 ^ 32) ∧
      decoded =
        appendFooterPrologue (prologueOf blocks.length (blocks.flatMap f3ListOf).length
          (appendF5 st (blocks.length > 0)).length) ++
        (indexFrom 0 blocks).flatMap appendF2Entry ++ blocks.flatMap f3ListOf ++
        appendF5 st (blocks.length > 0) := by
  simp only [buildFooter, bind_eq_ok, failIf_eq_ok] at h
  obtain ⟨r, hr, _, -, hd⟩ := h
  obtain ⟨rfl, hlists⟩ := buildIndex_eq_ok hr
  obtain ⟨rfl, rfl⟩ := Prod.mk.inj (Except.ok.inj hd)
  exact ⟨rfl, hlists, rfl⟩

theorem checkTrailerTotals_finalize {bs : List BlockSummary}
    {offset len uncompressedLen crc codec : Nat} :
    checkTrailerTotals st (bs.map BlockSummary.sorted)
      (finalizeTrailer bs st offset len uncompressedLen crc codec) = .ok () := by
  have hlast : ¬(bs.map BlockSummary.sorted).getLast?.any
      ((finalizeTrailer bs st offset len uncompressedLen crc codec).lastSeq ≠ ·.lastSeq) = true := by
    rw [getLast?_map]
    cases hb : bs.getLast?
    case none   => simp
    case some b => simp [finalizeTrailer, hb, BlockSummary.sorted]
  have hcount : (finalizeTrailer bs st offset len uncompressedLen crc codec).recordCount =
      st.recordCount := rfl
  rw [checkTrailerTotals, failIf, if_neg (not_not.mpr hcount), pure_eq, bind_ok, failIf, if_neg hlast,
    pure_eq]

section RoundTrip

variable {maxF3ListLen maxLen maxF3 len uncompressedLen crc codec : Nat} {decoded : Bytes}
  {st : PackStats}

theorem Placed.parseBlockIndex (h : Placed off none ds)
    (hl : ∀ s ∈ place off ds, (f3ListOf s).length < 2 ^ 32)
    (hf : f3Len = ((place off ds).flatMap f3ListOf).length) (hu : f3Len ≤ maxU64) :
    parseBlockIndex exact ((indexFrom 0 (place off ds)).flatMap appendF2Entry)
      (prologueOf ds.length f3Len f5Len) off (BlockData.stop off ds) =
      .ok (indexFrom 0 (place off ds)) := by
  have hentries : Tracepack.parseEntries exact ((indexFrom 0 (place off ds)).flatMap appendF2Entry) f2EntryLen
      f3Len ds.length 0 off none = .ok (indexFrom 0 (place off ds), BlockData.stop off ds) :=
    h.parseEntries (by simp : ([] : Bytes).length = 0 * f2EntryLen) hl (by omega) hu
  simp [Tracepack.parseBlockIndex, prologueOf, hentries, failIf]

theorem Placed.parseFooter (h : Placed off none ds) (hn : ds.length < 2 ^ 32)
    (hbuild : buildFooter (place off ds) maxF3ListLen maxLen = .ok (decoded, st))
    (hlen : decoded.length ≤ maxU64) (hmax : ((place off ds).flatMap f3ListOf).length ≤ maxF3)
    (keepF3 : Bool) :
    ∃ idx, parseFooter exact decoded
        (finalizeTrailer (place off ds) st (BlockData.stop off ds) len uncompressedLen crc codec) off
        maxF3 keepF3 = .ok idx ∧
      idx.blocks = (place off ds).map BlockSummary.sorted ∧
      idx.stats = PackStats.direct (ds.flatMap (·.rows)) := by
  obtain ⟨hst, hlists, hdecoded⟩ := buildFooter_eq_ok hbuild
  rw [h.aggregate_wrapping hn] at hst
  rw [length_place] at hdecoded
  generalize hf2 : (indexFrom 0 (place off ds)).flatMap appendF2Entry = f2 at hdecoded
  generalize hf3 : (place off ds).flatMap f3ListOf = f3 at hdecoded hmax
  generalize hf5 : appendF5 st (ds.length > 0) = f5 at hdecoded
  generalize hpro : prologueOf ds.length f3.length f5.length = pro at hdecoded
  have hp : (appendFooterPrologue pro).length = footerPrologueLen := length_appendFooterPrologue _
  have h2 : f2.length = ds.length * f2EntryLen := by
    rw [← hf2, length_flatMap_appendF2Entry, length_indexFrom, length_place]
  have htotal : footerPrologueLen + ds.length * f2EntryLen + f3.length + f5.length ≤ maxU64 := by
    simp only [hdecoded, length_append, hp, h2] at hlen
    exact hlen
  have hin : pro.InRange := hpro ▸ prologueOf_inRange hn htotal
  have hprologue : unmarshalFooterPrologue decoded = .ok pro := by
    rw [hdecoded, append_assoc, append_assoc]
    exact unmarshalFooterPrologue_append hin _
  have hcheck : checkPrologue pro (finalizeTrailer (place off ds) st (BlockData.stop off ds) len
      uncompressedLen crc codec) = .ok () := by
    rw [← hpro]
    refine checkPrologue_prologueOf (length_place ..) fun h0 => ?_
    rw [← hf3, length_eq_zero_iff.mp h0]
    rfl
  have hsections : locateSections exact decoded pro = .ok ⟨f2, f3, f5⟩ := by
    rw [hdecoded, ← hpro]
    refine locateSections_prologueOf (hpro ▸ hp) h2 ?_
    rw [hpro, ← hdecoded]
    exact hlen.trans_lt (by decide)
  have hindex : Tracepack.parseBlockIndex exact f2 pro off (BlockData.stop off ds) =
      .ok (indexFrom 0 (place off ds)) := by
    rw [← hf2, ← hpro]
    exact h.parseBlockIndex hlists (by rw [hf3]) (by omega)
  have hsummaries : Tracepack.parseSummaries exact f3 (BlockData.stop off ds) maxF3
      (indexFrom 0 (place off ds)) 0 0 = .ok ((place off ds).map BlockSummary.sorted) := by
    rw [← hf3]
    exact h.parseSummaries (length_nil : ([] : Bytes).length = 0) (by rw [hf3]; omega)
  have hstats : parsePackStats f5 (ds.length > 0) = .ok st := by
    rw [← hf5]
    refine parsePackStats_appendF5 (hst ▸ h.direct_inRange hn) ?_ fun h0 => ?_
    · rw [hst]
      exact (epochs_direct _).nodup
    · have h0 : ds = [] := by simpa using h0
      rw [hst, h0]
      exact ⟨rfl, rfl⟩
  have htotals : checkPackStats st (aggregate exact ((place off ds).map BlockSummary.sorted)) =
      .ok () := by
    rw [h.aggregate_eq.2, hst]
    exact checkPackStats_self (epochs_direct _).sortEpochs_eq
  have hnormal : st.normalize = PackStats.direct (ds.flatMap (·.rows)) := by
    rw [hst]
    exact PackStats.normalize_direct h.ascending
  refine ⟨{
    blocks := (place off ds).map BlockSummary.sorted
    f3 := if keepF3 then some f3 else none
    f3Spans := if keepF3 then
      (indexFrom 0 (place off ds)).map fun e => (e.summaryOffset, e.summaryLen) else []
    stats := st.normalize }, ?_, rfl, hnormal⟩
  have hoffset : (finalizeTrailer (place off ds) st (BlockData.stop off ds) len uncompressedLen crc
      codec).footerOffset = BlockData.stop off ds := rfl
  simp [Tracepack.parseFooter, hprologue, hcheck, hsections, hoffset, hindex, hsummaries, hstats,
    htotals, checkTrailerTotals_finalize]

-- A Go slice has at most 2^63-1 bytes, `finalize` refuses 2^32 blocks, and the reader's budget has to
-- admit the F-3 lists.
theorem parseFooter_buildFooter (hok : ∀ d ∈ ds, d.Ok)
    (hs : ((ds.flatMap (·.rows)).map (·.header.seq)).Pairwise (· < ·))
    (hstop : BlockData.stop off ds ≤ maxU64) (hn : ds.length < 2 ^ 32)
    (hbuild : buildFooter (place off ds) maxF3ListLen maxLen = .ok (decoded, st))
    (hlen : decoded.length ≤ maxU64) (hmax : ((place off ds).flatMap f3ListOf).length ≤ maxF3)
    (keepF3 : Bool) :
    st = PackStats.direct (ds.flatMap (·.rows)) ∧
    ∃ idx, parseFooter wrapping decoded
        (finalizeTrailer (place off ds) st (BlockData.stop off ds) len uncompressedLen crc codec) off
        maxF3 keepF3 = .ok idx ∧
      idx.blocks = (place off ds).map BlockSummary.sorted ∧
      idx.stats = PackStats.direct (ds.flatMap (·.rows)) := by
  have h : Placed off none ds := ⟨hok, hs, nofun, hstop⟩
  refine ⟨(buildFooter_eq_ok hbuild).1.trans (h.aggregate_wrapping hn), ?_⟩
  rw [(parseFooter_agree ..).eq]
  exact h.parseFooter hn hbuild hlen hmax keepF3

end RoundTrip

-- The first closes epoch 2 and meets epoch 1 again after it, with a seq missing between.
def twoBlocks : List BlockData :=
  let row (seq : Nat) (ts : Int) (epoch : Nat) (kind : UInt8) (event : Option TransportEvent) : Row := {
    header := {
      seq, tsUTCNs := ts, monoNs := 0, epoch, payloadLen := 5, trailingBytes := 0, quality := 4, kind
      dir := 1, fidelity := 1, decodeStatus := 0, fieldValidity := 0, recordFlags := 0 }
    event }
  [{ rows := [row 3 100 2 1 none, row 4 90 1 1 none,
      row 9 100 2 3 (some { event := eventCaptureBoundary, boundaryKind := some boundaryKindStop })]
     onDiskLen := 200
     bodyCRC := 7 },
   { rows := [row 10 (-100) 3 1 none]
     onDiskLen := 80
     bodyCRC := 9 }]

theorem parseFooter_buildFooter_twoBlocks :
    ∃ decoded st idx, buildFooter (place 100 twoBlocks) (2 ^ 32 - 1) 0 = .ok (decoded, st) ∧
      parseFooter wrapping decoded (finalizeTrailer (place 100 twoBlocks) st 380 1 1 0 0) 100 1000 false =
        .ok idx ∧
      idx.blocks = (place 100 twoBlocks).map BlockSummary.sorted ∧
      idx.stats = PackStats.direct (twoBlocks.flatMap (·.rows)) := by
  have hbuilt : (buildFooter (place 100 twoBlocks) (2 ^ 32 - 1) 0).toOption.any
      (fun r => decide (r.1.length ≤ maxU64)) = true := by
    decide +kernel
  cases h : buildFooter (place 100 twoBlocks) (2 ^ 32 - 1) 0
  case error e =>
    rw [h] at hbuilt
    exact absurd hbuilt Bool.false_ne_true
  case ok r =>
    rw [h] at hbuilt
    have ⟨_, idx, hidx⟩ := @parseFooter_buildFooter twoBlocks 100 (2 ^ 32 - 1) 0 1000 1 1 0 0 r.1 r.2
      (by decide +kernel) (by decide +kernel) (by decide +kernel) (by decide +kernel) h
      (of_decide_eq_true hbuilt) (by decide +kernel) false
    exact ⟨r.1, r.2, idx, rfl, hidx⟩

end Tracepack
