import GoSecs.Tracepack.Blocks
import GoSecs.Tracepack.Verify
import GoSecs.Tracepack.Theorems.EventCodec
import GoSecs.Tracepack.Theorems.Indexed

open Run List

namespace Tracepack

open Codec (Zstd)
open Format
open Tlv (SeqRange)

section Records

variable (i : Nat) (info : BlockInfo)

theorem eventOf_returns (h : RecordHeader) (payload : Bytes) :
    Returns (eventOf h payload) fun _ => True := by
  refine .ite (fun _ => ?_) fun _ => .pure trivial
  exact (Returns.attempt (parseTransportEvent_spec payload)).bind fun _ _ => .pure trivial

theorem summaryOf_returns (d : DecodedBlock) : Returns (summaryOf d) fun _ => True := by
  refine (Returns.foldlM (I := fun _ => True) trivial fun s r _ _ => ?_).bind
    fun _ _ => .pure trivial
  exact (eventOf_returns r.1 r.2).bind fun _ _ => .pure trivial

theorem checkStatedCounts_spec (cs : List (String × List Nat × List Nat)) :
    Spec (checkStatedCounts cs) fun _ => True := by
  induction cs
  case nil => exact .pure trivial
  case cons c cs hi => exact .check fun _ => hi

theorem checkStated_spec (stated got : BlockSummary) :
    Spec (checkStated stated got) fun _ => True := by
  refine (checkStatedCounts_spec _).bind fun _ _ => ?_
  refine .check fun _ => ?_
  refine .check fun _ => ?_
  refine .check fun _ => ?_
  exact (Agree.failIf ..).mono fun _ _ => trivial

theorem checkEventPayload_spec (kind : UInt8) (payload : Bytes) :
    Spec (checkEventPayload kind payload) fun _ => True := by
  refine .ite (fun _ => ?_) fun _ => ?_
  · exact (parseTransportEvent_spec payload).bind fun _ _ => .pure trivial
  · exact (parseAnnotation_spec payload).bind fun _ _ => .pure trivial

theorem recordDefects_returns (h : RecordHeader) (payload : Bytes) :
    Returns (recordDefects i info h payload) fun _ => True := by
  refine .ite (fun _ => ?_) fun _ => .ite (fun _ => ?_) fun _ => .pure trivial
  · exact .ite (fun _ => .pure trivial) fun _ => .pure trivial
  · refine (Returns.attempt (checkEventPayload_spec h.kind payload)).bind fun res _ => ?_
    cases res
    case error => exact .pure trivial
    case ok    => exact .pure trivial

theorem allRecordDefects_returns (rs : List (RecordHeader × Bytes)) :
    Returns (allRecordDefects i info rs) fun _ => True := by
  induction rs
  case nil => exact .pure trivial
  case cons r rs hi =>
    exact (recordDefects_returns i info r.1 r.2).bind fun _ _ =>
      hi.bind fun _ _ => .pure trivial

theorem writerDefects_returns (d : DecodedBlock) (prevSeq : Option Nat) :
    Returns (writerDefects i info d prevSeq) fun _ => True := by
  unfold writerDefects
  split
  · exact .pure trivial
  · exact (allRecordDefects_returns ..).bind fun _ _ => .pure trivial

end Records

def Validates (z : Zstd) (obj : Bytes) (info : BlockInfo) : Prop :=
  (blockAt z obj info).isSome = true

instance (z : Zstd) (obj : Bytes) : DecidablePred (Validates z obj) :=
  fun info => inferInstanceAs (Decidable ((blockAt z obj info).isSome = true))

def endOf (start : Nat) (infos : List BlockInfo) : Nat :=
  (infos.getLast?.map fun info => info.offset + info.onDiskLen).getD start

def Coverage.seqRange (c : Coverage) : Option SeqRange := do
  return ⟨(← c.seqFirst).toNat, (← c.seqLast).toNat⟩

def VerifyReport.lostRanges (rep : VerifyReport) : List SeqRange :=
  rep.lost.filterMap Coverage.seqRange

-- The report accounts for every record of the pack `p` in `obj` with the trailer `tr`.
structure VerifyReport.Accounts (rep : VerifyReport) (z : Zstd) (obj : Bytes) (p : Pack)
    (tr : TrailerInfo) : Prop where
  blocks : rep.blocks = p.blocks.length
  failed : rep.failed.map (fun f => (f.block, f.offset)) =
    (p.blocks.zipIdx.filter fun b => ¬Validates z obj b.1).map fun b => (some b.2, some b.1.offset)
  validated : rep.validated + rep.failed.length = rep.blocks
  records : rep.records + (seqSet rep.lostRanges).card = tr.recordCount
  ranges : ∀ l ∈ rep.lostRanges, l.first ≤ l.last
  ascending : rep.lostRanges.Pairwise fun l l' => l.last < l'.first
  survivors : ∀ info ∈ p.blocks, ∀ b ∈ blockAt z obj info, ∀ q ∈ b.1.records,
    q.1.seq ∉ seqSet rep.lostRanges
  prefixEnd : rep.prefixEnd = endOf (blocksStart p.hdr) (p.blocks.takeWhile (Validates z obj))
  corrupt : rep.outcome = .corruptMiddle ↔
    ∃ b b', [b, b'].Sublist p.blocks ∧ ¬Validates z obj b ∧ Validates z obj b'
  truncated : rep.outcome = .finalizedTruncated ↔ rep.outcome ≠ .corruptMiddle ∧
    ∃ b ∈ p.blocks, ¬Validates z obj b
  consistent : rep.outcome = .finalizedConsistent ↔ ∀ b ∈ p.blocks, Validates z obj b

variable {fs : List Bool}

theorem scanFailed_eq_none {seen : Bool} :
    scanFailed fs seen = none ↔ (seen = true ∧ false ∈ fs) ∨ [true, false].Sublist fs := by
  induction fs generalizing seen
  case nil => simp [scanFailed]
  case cons f fs hi =>
    cases f
    case true =>
      simp only [scanFailed, hi, sublist_cons_iff, mem_cons]
      simp
      tauto
    case false => cases seen <;> simp [scanFailed, hi, sublist_cons_iff]

theorem scanFailed_eq_some {seen b : Bool} (h : scanFailed fs seen = some b) :
    b = (seen || fs.any id) := by
  induction fs generalizing seen
  case nil => simpa [scanFailed, eq_comm] using h
  case cons f fs hi =>
    cases f
    case true => simpa using hi h
    case false =>
      cases seen
      case true  => simp [scanFailed] at h
      case false => simpa using hi h

theorem classifyOutcome_finalized (fs : List Bool) :
    (classifyOutcome true fs false false = .corruptMiddle ↔ [true, false].Sublist fs) ∧
    (classifyOutcome true fs false false = .finalizedTruncated ↔
      ¬[true, false].Sublist fs ∧ true ∈ fs) ∧
    (classifyOutcome true fs false false = .finalizedConsistent ↔ true ∉ fs) := by
  unfold classifyOutcome
  cases h : scanFailed fs false
  case none =>
    have hs : [true, false].Sublist fs := by simpa using scanFailed_eq_none.mp h
    simp [hs, hs.subset mem_cons_self]
  case some b =>
    have hs : ¬[true, false].Sublist fs := fun hs => by
      simp [scanFailed_eq_none.mpr (.inr hs)] at h
    have hb : b = true ↔ true ∈ fs := by simp [scanFailed_eq_some h]
    cases b <;> simp_all

structure Analysis.Accounted (z : Zstd) (obj : Bytes) (start : Nat) (done : List BlockSummary)
    (a : Analysis) : Prop where
  fails : a.fails = done.map fun b => decide ¬Validates z obj b.blockInfo
  failed : a.failed.map (fun f => (f.block, f.offset)) =
    (done.zipIdx.filter fun b => ¬Validates z obj b.1.blockInfo).map
      fun b => (some b.2, some b.1.offset)
  validated : a.validated = (done.filter fun b => Validates z obj b.blockInfo).length
  records : a.records =
    ((done.filter fun b => Validates z obj b.blockInfo).map (·.recordCount)).sum % 2 ^ 64
  lost : a.lost.map Coverage.seqRange =
    ((done.filter fun b => ¬Validates z obj b.blockInfo).flatMap (·.seqRanges)).map some
  inPrefix : a.inPrefix = true ↔ ∀ b ∈ done, Validates z obj b.blockInfo
  prefixEnd : a.prefixEnd =
    endOf start ((done.takeWhile fun b => Validates z obj b.blockInfo).map (·.blockInfo))
  agreed : a.disagreements = [] → ∀ b ∈ done, ∀ x ∈ blockAt z obj b.blockInfo,
    x.2.Agrees b.blockInfo

variable {d : DecodedBlock} {s : RecordSpan}

section Loop

variable {z : Zstd} {obj : Bytes} {r : Reader} {idx : FooterIndex} {tr : Trailer} {start : Nat}
variable {a : Analysis} {done : List BlockSummary} {b : BlockSummary} {p : α → Prop} {as : List α}
  {fault : Option Defect} {a' : Analysis}

theorem takeWhile_concat_of_all [DecidablePred p] {a : α} (h : ∀ x ∈ as, p x) :
    (as ++ [a]).takeWhile p = if p a then as ++ [a] else as := by
  rw [takeWhile_append_of_pos (by simpa using h), takeWhile_cons]
  split <;> simp_all

theorem takeWhile_concat_of_not_all [DecidablePred p] {a : α}
    (h : ¬∀ x ∈ as, p x) : (as ++ [a]).takeWhile p = as.takeWhile p := by
  rw [takeWhile_append, if_neg]
  intro hl
  have := (List.takeWhile_prefix p (l := as)).eq_of_length hl
  exact h fun x hx => by simpa using takeWhile_eq_self_iff.mp this x hx

theorem endOf_concat (start : Nat) (infos : List BlockInfo) (info : BlockInfo) :
    endOf start (infos ++ [info]) = info.offset + info.onDiskLen := by
  simp [endOf]

theorem Reader.lostOf_returns (hx : r.Indexed obj idx tr) (hb : idx.blocks[i]? = some b) :
    Returns (r.lostOf i) fun ls => ls.map Coverage.seqRange = b.seqRanges.map some := by
  have hmem : b ∈ idx.blocks := mem_of_getElem? hb
  have hidx : index idx.blocks i = (.ok b : Run Err BlockSummary) := by rw [index, hb]; rfl
  simp only [Reader.lostOf, hx.footer, hidx, bind_ok]
  refine .pure ?_
  rw [map_map]
  refine map_congr_left fun l hl => ?_
  have hlast : l.last < 2 ^ 64 :=
    ((hx.ordered.bounded b hmem).seqRanges l hl).trans_lt (by decide)
  have hfirst := (hx.ordered.ranges b hmem).first_le_last hl
  simp [Coverage.seqRange, UInt64.toNat_ofNat_of_lt' hlast,
    UInt64.toNat_ofNat_of_lt' (hfirst.trans_lt hlast)]

theorem Reader.recordFailure_returns {f : Defect} (hx : r.Indexed obj idx tr)
    (ha : a.Accounted z obj start done) (hb : idx.blocks[done.length]? = some b)
    (hn : ¬Validates z obj b.blockInfo) (hf : f.block = some done.length)
    (ho : f.offset = some b.offset) :
    Returns (r.recordFailure done.length a f) (·.Accounted z obj start (done ++ [b])) := by
  refine (r.lostOf_returns hx hb).bind fun ls hls => .pure {
    fails := by simp [ha.fails, hn]
    failed := by simp [ha.failed, hn, hf, ho, zipIdx_append]
    validated := by simp [ha.validated, hn]
    records := by simp [ha.records, hn]
    lost := by simpa [hls, hn] using ha.lost
    inPrefix := by simp [hn]
    prefixEnd := ?_
    agreed := fun hd => ?_ }
  · rw [ha.prefixEnd]
    by_cases hall : ∀ c ∈ done, Validates z obj c.blockInfo
    · rw [takeWhile_concat_of_all hall, if_neg hn,
        takeWhile_eq_self_iff.mpr (by simpa using hall)]
    · rw [takeWhile_concat_of_not_all hall]
  · have hnone : blockAt z obj b.blockInfo = none := by simpa [Validates] using hn
    simpa [or_imp, forall_and, hnone] using ha.agreed hd

theorem Reader.summarize_returns (hx : r.Indexed obj idx tr)
    (hb : idx.blocks[i]? = some b) (info : BlockInfo) :
    Returns (r.summarize i info d) fun _ => True := by
  have hidx : index idx.blocks i = (.ok b : Run Err BlockSummary) := by rw [index, hb]; rfl
  simp only [Reader.summarize, hx.footer, hidx, bind_ok]
  refine (summaryOf_returns d).bind fun got _ => ?_
  refine (Returns.attempt (checkStated_spec b got)).bind fun res _ => ?_
  cases res
  case error => exact .pure trivial
  case ok    => exact .pure trivial

theorem Reader.recordBlock_returns (hx : r.Indexed obj idx tr) (ha : a.Accounted z obj start done)
    (hb : idx.blocks[done.length]? = some b) (hd : blockAt z obj b.blockInfo = some (d, s))
    (hs : fault = none → s.Agrees b.blockInfo) :
    Returns (r.recordBlock done.length b.blockInfo a d fault)
      (·.Accounted z obj start (done ++ [b])) := by
  have hv : Validates z obj b.blockInfo := by simp [Validates, hd]
  have hcount : d.records.length = b.recordCount := (blockIn_records hd).1
  refine .bind (Q := fun fault' => fault' = none → fault = none) ?_ fun fault' hf => ?_
  · cases fault
    case some f => exact .pure (by simp)
    case none   => exact (r.summarize_returns hx hb _).mono fun _ _ _ => rfl
  refine (writerDefects_returns ..).bind fun ds _ => .pure {
    fails := by simp [ha.fails, hv]
    failed := by simp [ha.failed, hv, zipIdx_append]
    validated := by simp [ha.validated, hv]
    records := by simp [ha.records, hv, hcount]
    lost := by simpa [hv] using ha.lost
    inPrefix := by simpa [or_imp, forall_and, hv] using ha.inPrefix
    prefixEnd := ?_
    agreed := fun hn => ?_ }
  · by_cases hall : ∀ c ∈ done, Validates z obj c.blockInfo
    · rw [if_pos (ha.inPrefix.mpr hall), takeWhile_concat_of_all hall, if_pos hv, map_append,
        map_singleton, endOf_concat]
    · rw [if_neg (mt ha.inPrefix.mp hall), takeWhile_concat_of_not_all hall, ha.prefixEnd]
  · have ⟨hn, hf'⟩ := append_eq_nil_iff.mp hn
    have hagree := hs (hf (by simpa using hf'))
    simpa [or_imp, forall_and, hd] using And.intro (ha.agreed hn) hagree

theorem Reader.failVerify_eq_ok {err : Option Err} : failVerify err = .ok () ↔ err = none := by
  cases err <;> simp [failVerify]

theorem Reader.limitErr_eq_none :
    limitErr fault = none ↔ ∀ f ∈ fault, f.reason ≠ .limit := by
  cases fault <;> simp [limitErr]

section Block

variable {n : Nat} {ctx : Nat → Option Err} (ho : r.Opens z obj) (hx : r.Indexed obj idx tr)
  (hb : idx.blocks[n]? = some b)
include ho hx hb

theorem Reader.read_returns : Returns (r.readBlock z n) fun res =>
    (r.Fits b.blockInfo ∧ ReadsAs n b.blockInfo (blockAt z obj b.blockInfo) res) ∨
    (¬r.Fits b.blockInfo ∧ ∃ f, res = (none, some f) ∧ f.reason = .limit) := by
  have hinfo : r.blocks[n]? = some b.blockInfo := by simp [hx.blocks, indexedBlocks, hb]
  have hin := hx.sound.tiles.bounds.2 b (mem_of_getElem? hb)
  exact ho.readBlock hinfo (hin.trans hx.stop)

theorem Reader.analyzeBlock_returns (hn : done.length = n) (ha : a.Accounted z obj start done)
    (hctx : ctx n = none) (hfit : r.Fits b.blockInfo) :
    Returns (r.analyzeBlock z ctx a n) (·.Accounted z obj start (done ++ [b])) := by
  have hinfo : r.blocks[n]? = some b.blockInfo := by simp [hx.blocks, indexedBlocks, hb]
  subst hn
  rw [analyzeBlock, failVerify_eq_ok.mpr hctx, bind_ok, index, hinfo]
  refine .bind (Q := (· = b.blockInfo)) (Returns.pure rfl) fun info hinfo => ?_
  subst hinfo
  refine (r.read_returns ho hx hb).bind fun res hres => ?_
  have hread := (hres.resolve_right fun h => h.1 hfit).2
  rw [failVerify_eq_ok.mpr (limitErr_eq_none.mpr hread.ne_limit), bind_ok]
  generalize hblock : blockAt z obj b.blockInfo = block at hread
  cases hread
  case failed f hi hoff hr =>
    exact r.recordFailure_returns hx ha hb (by simp [Validates, hblock]) hi hoff
  case agreed d s hs =>
    rw [recordRead]
    exact r.recordBlock_returns hx ha hb hblock fun _ => hs rfl
  case differs d s f hi hs hr =>
    rw [recordRead]
    exact r.recordBlock_returns hx ha hb hblock (by simp)

theorem Reader.analyzeBlock_ok (h : r.analyzeBlock z ctx a n = .ok a') :
    ctx n = none ∧ r.Fits b.blockInfo := by
  obtain ⟨_, hctx, h⟩ := bind_eq_ok.mp h
  obtain ⟨info, _, h⟩ := bind_eq_ok.mp h
  obtain ⟨res, hres, h⟩ := bind_eq_ok.mp h
  obtain ⟨_, hlim, h⟩ := bind_eq_ok.mp h
  refine ⟨failVerify_eq_ok.mp hctx, ?_⟩
  rcases (r.read_returns ho hx hb).post hres with ⟨hfit, _⟩ | ⟨_, f, rfl, hf⟩
  · exact hfit
  · exact absurd hf (limitErr_eq_none.mp (failVerify_eq_ok.mp hlim) f rfl)

end Block

section Run

variable {ctx : Nat → Option Err} (ho : r.Opens z obj) (hx : r.Indexed obj idx tr)
include ho hx

theorem Reader.analyzeBlocks_returns {n : Nat} (hn : n ≤ idx.blocks.length)
    (hctx : ∀ i < n, ctx i = none) (hfit : ∀ b ∈ idx.blocks, r.Fits b.blockInfo) :
    Returns ((range n).foldlM (r.analyzeBlock z ctx) { prefixEnd := start })
      (·.Accounted z obj start (idx.blocks.take n)) := by
  induction n
  case zero =>
    refine .pure ⟨rfl, rfl, rfl, rfl, rfl, by simp, rfl, by simp⟩
  case succ n hi =>
    have hlen : (idx.blocks.take n).length = n := length_take_of_le (by omega)
    have hb : idx.blocks[n]? = some idx.blocks[n] := getElem?_eq_getElem (by omega)
    rw [range_succ, foldlM_append, take_add_one, hb, Option.toList_some]
    refine (hi (by omega) fun i hi => hctx i (by omega)).bind fun a ha => ?_
    simp only [foldlM_cons, foldlM_nil, bind_pure]
    exact r.analyzeBlock_returns ho hx hb hlen ha (hctx n (by omega))
      (hfit _ (getElem_mem _))

theorem Reader.analyzeBlocks_ok {n : Nat} (hn : n ≤ idx.blocks.length)
    (h : (range n).foldlM (r.analyzeBlock z ctx) { prefixEnd := start } = .ok a') :
    (∀ i < n, ctx i = none) ∧ ∀ b ∈ idx.blocks.take n, r.Fits b.blockInfo := by
  induction n generalizing a'
  case zero => simp
  case succ n hi =>
    have hb : idx.blocks[n]? = some idx.blocks[n] := getElem?_eq_getElem (by omega)
    rw [range_succ, foldlM_append] at h
    obtain ⟨a, ha, h⟩ := bind_eq_ok.mp h
    simp only [foldlM_cons, foldlM_nil, bind_pure] at h
    have ⟨hctx, hfit⟩ := hi (by omega) ha
    have ⟨hctx', hfit'⟩ := r.analyzeBlock_ok ho hx hb h
    refine ⟨fun i hi => ?_, ?_⟩
    · rcases Nat.lt_succ_iff_lt_or_eq.mp hi with hi | rfl
      · exact hctx i hi
      · exact hctx'
    · rw [take_add_one, hb, Option.toList_some]
      exact BlockSummary.forall_mem_concat hfit hfit'

omit ho in
theorem Reader.checkBootstrapLimits_ok : r.checkBootstrapLimits = .ok () := by
  simp [checkBootstrapLimits, hx.footerErr, hx.walkStop, failVerify, limitErr]

omit ho in
theorem Reader.recordWalk_eq : r.recordWalk a = .ok a := by
  simp [recordWalk, hx.walkStop, checkWalkTotals, hx.footer, attempt]

end Run
end Loop

section Lost

variable {bs : List BlockSummary}

theorem card_seqSet_flatMap (h : bs.Pairwise fun a b => ∀ x ∈ a.seqs, ∀ y ∈ b.seqs, x < y) :
    (seqSet (bs.flatMap (·.seqRanges))).card = (bs.map (·.seqs.card)).sum := by
  induction bs
  case nil => rfl
  case cons b bs hi =>
    have ⟨hb, hbs⟩ := pairwise_cons.mp h
    have hd : Disjoint b.seqs (seqSet (bs.flatMap (·.seqRanges))) := by
      refine Finset.disjoint_left.mpr fun x hx hx' => ?_
      have ⟨l, hl, hlx⟩ := mem_seqSet.mp hx'
      have ⟨c, hc, hlc⟩ := mem_flatMap.mp hl
      exact (hb c hc x hx x (mem_seqSet.mpr ⟨l, hlc, hlx⟩)).false
    rw [flatMap_cons, seqSet_append, map_cons, sum_cons, ← hi hbs]
    exact Finset.card_union_of_disjoint hd

theorem pairwise_flatMap_seqRanges (h : bs.Pairwise fun a b => a.lastSeq < b.firstSeq)
    (hs : ∀ b ∈ bs, b.Sound) (hr : ∀ b ∈ bs, Separated none b.seqRanges) :
    (bs.flatMap (·.seqRanges)).Pairwise fun l l' => l.last < l'.first := by
  refine pairwise_flatMap.mpr ⟨fun b hb => (hr b hb).pairwise.imp Nat.lt_of_succ_lt, ?_⟩
  refine h.imp_of_mem fun {a b} ha hb hab l hl l' hl' => ?_
  have hlast := ((hs a ha).bounds l.last ((hr a ha).last_mem hl)).2
  have hmem : l'.first ∈ b.seqs := mem_seqSet.mpr ⟨l', hl', le_rfl, (hr b hb).first_le_last hl'⟩
  have hfirst := ((hs b hb).bounds l'.first hmem).1
  omega

end Lost

section Report

variable {z : Zstd} {obj : Bytes} {r : Reader} {idx : FooterIndex} {tr : Trailer} {a : Analysis}

def Reader.reportOf (r : Reader) (a : Analysis) : VerifyReport :=
  { a.toFindings with
    outcome := classifyOutcome r.finalized a.fails r.walkStop.isSome
      (r.footerErr.isSome || !a.disagreements.isEmpty)
    finalized := r.finalized
    footerErr := r.footerErr
    blocks := r.blocks.length }

variable (hx : r.Indexed obj idx tr) (ha : a.Accounted z obj (blocksStart r.hdr) idx.blocks)
  {b : BlockSummary}

section

include ha

theorem lostRanges_eq : (r.reportOf a).lostRanges =
    (idx.blocks.filter fun b => ¬Validates z obj b.blockInfo).flatMap (·.seqRanges) := by
  have h := congrArg (filterMap id) ha.lost
  simpa [VerifyReport.lostRanges, Reader.reportOf, filterMap_map] using h

theorem length_failed : a.failed.length =
    (idx.blocks.filter fun b => ¬Validates z obj b.blockInfo).length := by
  have h := congrArg length ha.failed
  have hf := congrArg (fun bs : List BlockSummary =>
    (bs.filter fun b => ¬Validates z obj b.blockInfo).length) (zipIdx_map_fst 0 idx.blocks)
  simp only [filter_map, length_map] at h hf
  exact h.trans hf

theorem validated_add_failed : a.validated + a.failed.length = idx.blocks.length := by
  rw [length_failed ha, ha.validated]
  simpa using (length_eq_length_filter_add
    (l := idx.blocks) fun b => decide (Validates z obj b.blockInfo)).symm

theorem seq_bounds (hd : a.disagreements = []) (hb : b ∈ idx.blocks)
    (h : blockAt z obj b.blockInfo = some (d, s)) :
    ∀ q ∈ d.records, b.firstSeq ≤ q.1.seq ∧ q.1.seq ≤ b.lastSeq := by
  intro q hq
  have hr := (blockIn_records h).2
  have hs := ha.agreed hd b hb _ h
  exact ⟨hr.first q hq, (hr.holds q hq).lastSeq.trans hs.lastSeq.le⟩

end

include hx ha

theorem records_add_lost :
    a.records + (seqSet (r.reportOf a).lostRanges).card = tr.recordCount := by
  have hsum := sum_map_filter_add_sum_map_filter_not
    (fun b : BlockSummary => Validates z obj b.blockInfo) (·.seqs.card) idx.blocks
  rw [hx.sound.total] at hsum
  have hvalid : (idx.blocks.filter fun b => Validates z obj b.blockInfo).map (·.recordCount) =
      (idx.blocks.filter fun b => Validates z obj b.blockInfo).map (·.seqs.card) :=
    map_congr_left fun b hb => (hx.sound.blocks b (mem_of_mem_filter hb)).card.symm
  have hle := hx.total
  simp only [maxU64] at hle
  rw [lostRanges_eq ha, card_seqSet_flatMap (hx.sound.ascending.filter _), ha.records, hvalid,
    Nat.mod_eq_of_lt (by omega), ← hsum]

theorem survivors_not_lost (hd : a.disagreements = []) (hb : b ∈ idx.blocks)
    (h : blockAt z obj b.blockInfo = some (d, s)) :
    ∀ q ∈ d.records, q.1.seq ∉ seqSet (r.reportOf a).lostRanges := by
  intro q hq hlost
  rw [lostRanges_eq ha] at hlost
  have ⟨l, hl, hlq⟩ := mem_seqSet.mp hlost
  have ⟨c, hc, hlc⟩ := mem_flatMap.mp hl
  have ⟨hc, hfail⟩ := mem_filter.mp hc
  have hne : b ≠ c := by
    rintro rfl
    simp [Validates, h] at hfail
  have hqc := (hx.sound.blocks c hc).bounds q.1.seq (mem_seqSet.mpr ⟨l, hlc, hlq⟩)
  have hqb := seq_bounds ha hd hb h q hq
  have hapart := hx.ordered.blocks.imp (S := fun a b : BlockSummary =>
    a.lastSeq < b.firstSeq ∨ b.lastSeq < a.firstSeq) .inl
  have : Std.Symm fun a b : BlockSummary =>
    a.lastSeq < b.firstSeq ∨ b.lastSeq < a.firstSeq := ⟨fun _ _ => Or.symm⟩
  have := hapart.forall hb hc hne
  omega

theorem accounts_of (hd : a.disagreements = []) :
    (r.reportOf a).Accounts z obj r.toPack (.of tr) := by
  have hblocks : r.blocks = idx.blocks.map (·.blockInfo) := hx.blocks
  have hfails : a.fails = r.blocks.map fun b => decide ¬Validates z obj b := by
    rw [ha.fails, hblocks, map_map]
    rfl
  have ⟨hcorrupt, htruncated, hconsistent⟩ := classifyOutcome_finalized a.fails
  have houtcome : (r.reportOf a).outcome = classifyOutcome true a.fails false false := by
    simp [Reader.reportOf, hx.finalized, hx.walkStop, hx.footerErr, hd]
  have hmem : true ∈ a.fails ↔ ∃ b ∈ r.blocks, ¬Validates z obj b := by simp [hfails]
  refine {
    blocks := rfl
    failed := ?_
    validated := by
      rw [Reader.reportOf, validated_add_failed ha, hblocks, length_map]
    records := records_add_lost hx ha
    ranges := ?_
    ascending := ?_
    survivors := ?_
    prefixEnd := ?_
    corrupt := ?_
    truncated := by rw [houtcome, htruncated, Ne, hcorrupt, hmem]
    consistent := by rw [houtcome, hconsistent, hmem]; simp }
  · simp only [Reader.reportOf, ha.failed, hblocks, zipIdx_map, filter_map, map_map]
    rfl
  · rw [lostRanges_eq ha]
    intro l hl
    have ⟨b, hb, hlb⟩ := mem_flatMap.mp hl
    exact (hx.ordered.ranges b (mem_of_mem_filter hb)).first_le_last hlb
  · rw [lostRanges_eq ha]
    refine pairwise_flatMap_seqRanges (hx.ordered.blocks.filter _) (fun b hb => ?_) fun b hb => ?_
    · exact hx.sound.blocks b (mem_of_mem_filter hb)
    · exact hx.ordered.ranges b (mem_of_mem_filter hb)
  · rw [hblocks]
    intro info hinfo x hx' q hq
    obtain ⟨b, hb, rfl⟩ := mem_map.mp hinfo
    exact survivors_not_lost hx ha hd hb hx' q hq
  · rw [hblocks, takeWhile_map]
    exact ha.prefixEnd
  · rw [houtcome, hcorrupt, hfails, sublist_map_iff]
    constructor
    · rintro ⟨bs, hbs, he⟩
      obtain ⟨b, b', rfl⟩ := length_eq_two.mp (by simpa using (congrArg length he).symm)
      simp only [map_cons, cons.injEq] at he
      exact ⟨b, b', hbs, by simpa using he.1, by simpa using he.2.1⟩
    · rintro ⟨b, b', hbs, hb, hb'⟩
      exact ⟨[b, b'], hbs, by simp [hb, hb']⟩

end Report

variable {obj : Bytes} {r : Reader} {idx : FooterIndex} {tr : Trailer} {ctx : Nat → Option Err}

theorem Reader.verify_returns {z : Zstd} (ho : r.Opens z obj) (hx : r.Indexed obj idx tr)
    (hctx : ∀ i < r.blocks.length, ctx i = none) (hfit : ∀ info ∈ r.blocks, r.Fits info) :
    Returns (r.verify z ctx) fun rep =>
      rep.disagreements = [] → rep.Accounts z obj r.toPack (.of tr) := by
  have hblocks : r.blocks = idx.blocks.map (·.blockInfo) := hx.blocks
  rw [hblocks, length_map] at hctx
  rw [hblocks] at hfit
  rw [verify, r.checkBootstrapLimits_ok hx, bind_ok, hblocks, length_map]
  refine (r.analyzeBlocks_returns ho hx le_rfl hctx fun b hb => hfit _ (mem_map_of_mem hb)).bind
    fun a ha => ?_
  rw [take_length] at ha
  rw [r.recordWalk_eq hx, bind_ok]
  refine .pure fun hd => ?_
  have := accounts_of hx ha hd
  rwa [Reader.reportOf, hblocks, length_map] at this

theorem Reader.verify_ok {z : Zstd}
    {rep : VerifyReport} (ho : r.Opens z obj) (hx : r.Indexed obj idx tr)
    (h : r.verify z ctx = .ok rep) :
    (∀ i < r.blocks.length, ctx i = none) ∧ ∀ info ∈ r.blocks, r.Fits info := by
  have hblocks : r.blocks = idx.blocks.map (·.blockInfo) := hx.blocks
  rw [verify, r.checkBootstrapLimits_ok hx, bind_ok, hblocks, length_map] at h
  obtain ⟨a, ha, _⟩ := bind_eq_ok.mp h
  have ⟨hctx, hfit⟩ := r.analyzeBlocks_ok ho hx le_rfl ha
  rw [take_length] at hfit
  rw [hblocks, length_map]
  exact ⟨hctx, by simpa using hfit⟩

-- Where every block fits the limit there is a report, and one without a disagreement accounts for
-- every record that the trailer counts.
theorem verify_accounts {z : Zstd} {obj : Bytes} {o : ReaderOptions} {r : Reader}
    (ho : Reader.open z obj o = .ok r) (hf : r.footer.isSome = true) :
    ((∀ info ∈ r.blocks, r.Fits info) → ∃ rep, r.verify z (fun _ => none) = .ok rep) ∧
    ∀ ctx rep, r.verify z ctx = .ok rep → rep.disagreements = [] →
      ∃ tr, r.trailer = some tr ∧ rep.Accounts z obj r.toPack tr := by
  have hopens := opens_of_open ho
  have ⟨idx, hidx⟩ := Option.isSome_iff_exists.mp hf
  have ⟨tr, hx⟩ := openPack_indexed hopens.pack hidx
  refine ⟨fun hfit => ?_, fun ctx rep h hd => ⟨.of tr, hx.trailer, ?_⟩⟩
  · have ⟨rep, hrep, _⟩ := r.verify_returns hopens hx (fun _ _ => rfl) hfit
    exact ⟨rep, hrep⟩
  · have ⟨hctx, hfit⟩ := r.verify_ok hopens hx h
    exact (r.verify_returns hopens hx hctx hfit).post h hd

set_option maxRecDepth 100000 in
theorem verify_damagedPack_accounts : ∃ r rep tr, Reader.open rawZstd damagedPack {} = .ok r ∧
    r.verify rawZstd (fun _ => none) = .ok rep ∧ rep.outcome = .corruptMiddle ∧
    rep.Accounts rawZstd damagedPack r.toPack tr := by
  have hok : (match Reader.open rawZstd damagedPack {} with
      | .error _ => false
      | .ok r    => r.footer.isSome && match r.verify rawZstd (fun _ => none) with
        | .error _ => false
        | .ok rep  => decide (rep.disagreements = [] ∧ rep.outcome = .corruptMiddle)) = true := by
    decide +kernel
  cases ho : Reader.open rawZstd damagedPack {}
  case error e => simp [ho] at hok
  case ok r =>
    cases hv : r.verify rawZstd (fun _ => none)
    case error e => simp [ho, hv] at hok
    case ok rep =>
      simp only [ho, hv, Bool.and_eq_true, decide_eq_true_eq] at hok
      have ⟨tr, _, h⟩ := (verify_accounts ho hok.1).2 _ rep hv hok.2.1
      exact ⟨r, rep, tr, rfl, hv, hok.2.2, h⟩

end Tracepack
