import GoSecs.Tracepack.Pack
import GoSecs.Tracepack.Theorems.ZstdFrame

open Run LittleEndian List

namespace Tracepack

open Codec (Zstd)
open Format

namespace Format

variable {layout : String} {b : Bytes} {off : Nat}

theorem checkMagic_spec {magic : Bytes}
    (h : off + magic.length ≤ b.length) : Spec (checkMagic layout b off magic) fun _ => True := by
  refine (Agree.slice (by omega) h).bind fun _ _ => ?_
  exact (Agree.failIf ..).mono fun _ _ => trivial

theorem checkCRC_spec {field : String} (h : off + 4 ≤ b.length) :
    Spec (checkCRC layout field b off) fun _ => True := by
  unfold checkCRC
  rw [uint_eq (by omega) h, bind_ok]
  refine (Agree.slice (by omega) (by omega)).bind fun _ _ => ?_
  exact (Agree.failIf ..).mono fun _ _ => trivial

structure BlockEnvelope.Ok (e : BlockEnvelope) : Prop where
  recordHeaderLen : Format.recordHeaderLen ≤ e.recordHeaderLen
  recordCount : 0 < e.recordCount ∧ e.recordCount < 2 ^ 32
  bodyLen : e.bodyLen ≤ maxLen32
  uncompressedLen : e.uncompressedLen ≤ maxLen32
  firstSeq : e.firstSeq ≤ maxU64

theorem BlockEnvelope.validate_spec (e : BlockEnvelope) :
    Spec e.validate fun _ => Format.recordHeaderLen ≤ e.recordHeaderLen ∧ e.recordCount ≠ 0 ∧
      (e.bodyLen ≤ maxLen32 ∧ e.uncompressedLen ≤ maxLen32) ∧ e.firstSeq ≤ maxU64 := by
  refine .check fun hr => ?_
  refine .check fun hc => ?_
  refine (checkLimitFields_spec ..).bind fun _ hl => ?_
  refine (checkLimitFields_spec ..).mono fun _ hf => ?_
  exact ⟨Nat.le_of_not_lt hr, hc, by simpa using hl, by simpa using hf⟩

theorem unmarshalBlockEnvelope_spec (b : Bytes) :
    Spec (unmarshalBlockEnvelope b) fun e => e.Ok ∧ envelopeLen ≤ b.length := by
  refine (checkShort_spec ..).bind fun _ hl => ?_
  have hl' : 40 ≤ b.length := hl
  refine (checkMagic_spec (by simpa [envelopeMagic] using by omega)).bind fun _ _ => ?_
  refine (checkCRC_spec (by omega)).bind fun _ _ => ?_
  simp (disch := omega) only [uint_eq, bind_ok]
  refine (BlockEnvelope.validate_spec _).bind fun _ ⟨hr, hc, hb, hf⟩ => ?_
  exact .pure ⟨⟨hr, ⟨Nat.pos_of_ne_zero hc, field_lt b 16 4⟩, hb.1, hb.2, hf⟩, hl⟩

theorem decodeRecordHeader_spec (h : recordHeaderLen ≤ b.length) :
    Spec (decodeRecordHeader b) fun _ => True := by
  refine (Agree.slice (Nat.zero_le _) h).bind fun b' hb => ?_
  have hl : b'.length = 44 := by
    rw [hb]
    simpa [recordHeaderLen] using h
  simp (disch := omega) only [uint_eq, int64_eq, index_eq, bind_ok]
  exact .pure trivial

theorem unmarshalRecordHeader_spec (b : Bytes) (n : Nat) :
    Spec (unmarshalRecordHeader b n) fun _ => ∀ h, decodeRecordHeader b = .ok h →
      h.seq ≤ maxU64 ∧ h.payloadLen ≤ maxLen32 := by
  refine .check fun hn => ?_
  refine (checkShort_spec ..).bind fun _ hl => ?_
  refine ((decodeRecordHeader_spec (by omega)).and fun _ => id).bind fun h ⟨_, hd⟩ => ?_
  refine (checkLimitFields_spec ..).bind fun _ hs => ?_
  refine (checkLimitFields_spec ..).bind fun _ hp => ?_
  refine (Agree.slice (by omega) hl).bind fun _ _ => .pure fun g hg => ?_
  obtain rfl := Except.ok.inj (hd.symm.trans hg)
  exact ⟨by simpa using hs, by simpa using hp⟩

@[simp]
theorem length_untransposeHeaders (cols : Bytes) (count headerLen : Nat) :
    (untransposeHeaders cols count headerLen).length = count * headerLen := by
  simp [untransposeHeaders]

end Format

theorem Codec.openZstd_spec (z : Zstd) (src : Bytes) (n : Nat) :
    Spec (openZstd z src n) fun _ => True := by
  refine .check fun _ => ?_
  refine (Agree.mapErr (walkZstdFrame_spec src)).bind fun _ _ => ?_
  refine .check fun _ => .check fun _ => ?_
  split
  case h_1 => exact .pure trivial
  case h_2 => exact .fail _

theorem Codec.decodeZstd_spec (z : Zstd) (src : Bytes) (n : Nat) :
    Spec (decodeZstd z src n) (·.length = n) := by
  refine (openZstd_spec z src n).bind fun (data, stop) _ => ?_
  refine .check fun hlo => .check fun hhi => ?_
  cases stop
  case none => exact .pure (by omega)
  case some => exact .fail _

theorem Codec.decode_spec (z : Zstd) (id : Nat) (src : Bytes) (n : Nat) :
    Spec (decode z id src n) (·.length = n) := by
  refine .ite (fun _ => ?_) fun _ => .ite (fun _ => ?_) fun _ => .fail _
  · exact .check fun hl => .pure (of_not_not hl)
  · exact decodeZstd_spec z src n

theorem checkAgree_spec (differ : String → Int → Int → Err) (fs : List (String × Int × Int)) :
    Spec (checkAgree differ fs) fun _ => ∀ f ∈ fs, f.2.1 = f.2.2 := by
  induction fs
  case nil => exact .pure (by simp)
  case cons f fs hi =>
    refine .check fun hf => ?_
    exact hi.mono fun _ hfs => forall_mem_cons.mpr ⟨of_not_not hf, hfs⟩

-- The span of the records is what the F-2 entry states.
structure RecordSpan.Agrees (s : RecordSpan) (info : BlockInfo) : Prop where
  lastSeq  : s.lastSeq = info.lastSeq
  tsMin    : s.tsMin = info.tsMin
  tsMax    : s.tsMax = info.tsMax
  epochMin : s.epochMin = info.epochMin
  epochMax : s.epochMax = info.epochMax

theorem checkAgree_eq_ok {differ : String → Int → Int → Err} {fs : List (String × Int × Int)} :
    checkAgree differ fs = .ok () ↔ ∀ f ∈ fs, f.2.1 = f.2.2 := by
  refine ⟨(checkAgree_spec differ fs).post (), fun h => ?_⟩
  induction fs
  case nil => rfl
  case cons f fs hi =>
    have ⟨hf, hfs⟩ := forall_mem_cons.mp h
    rw [checkAgree, failIf, if_neg (not_not.mpr hf)]
    exact hi hfs

theorem RecordSpan.agrees_spec (s : RecordSpan) (info : BlockInfo) :
    Spec (s.agrees info) fun _ => s.Agrees info := by
  refine (checkAgree_spec ..).mono fun _ h => ?_
  simp only [forall_mem_cons, Nat.cast_inj] at h
  exact ⟨h.1, h.2.1, h.2.2.1, h.2.2.2.1, h.2.2.2.2.1⟩

variable {s : RecordSpan}

theorem RecordSpan.agrees_eq_ok {info : BlockInfo} :
    s.agrees info = .ok () ↔ s.Agrees info := by
  refine ⟨(s.agrees_spec info).post (), fun h => checkAgree_eq_ok.mpr ?_⟩
  simp [h.lastSeq, h.tsMin, h.tsMax, h.epochMin, h.epochMax]

structure Format.BlockEnvelope.Agrees (e : BlockEnvelope) (info : BlockInfo) : Prop where
  recordCount : e.recordCount = info.recordCount
  uncompressedLen : e.uncompressedLen = info.uncompressedLen
  firstSeq : e.firstSeq = info.firstSeq

theorem envelopeAgrees_spec (e : BlockEnvelope) (info : BlockInfo) :
    Spec (envelopeAgrees e info) fun _ => e.Agrees info := by
  refine (checkAgree_spec ..).mono fun _ h => ?_
  simp only [forall_mem_cons, Nat.cast_inj] at h
  exact ⟨h.2.2.1, h.2.1, h.2.2.2.2.1⟩

theorem checkEnvelope_spec (raw : Bytes) (info : BlockInfo) :
    Spec (checkEnvelope raw info) fun e => e.Ok ∧ e.Agrees info ∧ envelopeLen ≤ raw.length := by
  refine (unmarshalBlockEnvelope_spec raw).mapErr.bind fun e ⟨he, hl⟩ => ?_
  refine (envelopeAgrees_spec e info).mapErr.bind fun _ ha => ?_
  refine (Agree.slice hl le_rfl).bind fun _ _ => ?_
  refine .check fun _ => ?_
  exact .check fun _ => .pure ⟨he, ha, hl⟩

section Records

variable {rows body : Bytes} {env : BlockEnvelope} {i : Nat} {h : RecordHeader}

theorem readRow_spec (hh : recordHeaderLen ≤ env.recordHeaderLen)
    (hi : (i + 1) * env.recordHeaderLen ≤ rows.length) :
    Spec (readRow rows env i) fun h => h.seq ≤ maxU64 := by
  have hm : (i + 1) * env.recordHeaderLen = i * env.recordHeaderLen + env.recordHeaderLen := by ring
  refine (Agree.slice (by omega) le_rfl).bind fun b hb => ?_
  have hl : env.recordHeaderLen ≤ b.length := by
    simp only [hb, length_take, length_drop]
    omega
  refine ((decodeRecordHeader_spec (hh.trans hl)).and fun _ => id).bind fun h ⟨_, hd⟩ => ?_
  refine (Agree.when (Q := h.seq ≤ maxU64) fun _ => ?_).bind fun _ hw => ?_
  · exact (unmarshalRecordHeader_spec ..).mapErr.bind fun _ hu => .pure (hu h hd).1
  refine (Agree.slice hh hl).bind fun _ _ => .pure ?_
  by_contra hs
  exact hs (hw (.inl (Nat.lt_of_not_le hs)))

structure RecordSpan.Holds (s : RecordSpan) (h : RecordHeader) : Prop where
  lastSeq  : h.seq ≤ s.lastSeq
  tsMin    : s.tsMin ≤ h.tsUTCNs
  tsMax    : h.tsUTCNs ≤ s.tsMax
  epochMin : s.epochMin ≤ h.epoch
  epochMax : h.epoch ≤ s.epochMax

structure RecordSpan.Extends (s' s : RecordSpan) : Prop where
  lastSeq  : s.lastSeq ≤ s'.lastSeq
  tsMin    : s'.tsMin ≤ s.tsMin
  tsMax    : s.tsMax ≤ s'.tsMax
  epochMin : s'.epochMin ≤ s.epochMin
  epochMax : s.epochMax ≤ s'.epochMax

theorem RecordSpan.Extends.holds {s' : RecordSpan} (he : s'.Extends s)
    (hh : s.Holds h) : s'.Holds h :=
  ⟨hh.lastSeq.trans he.lastSeq, he.tsMin.trans hh.tsMin, hh.tsMax.trans he.tsMax,
   he.epochMin.trans hh.epochMin, hh.epochMax.trans he.epochMax⟩

theorem RecordSpan.add_holds (s : RecordSpan) (i : Nat) (h : RecordHeader) : (s.add i h).Holds h :=
  ⟨le_rfl, min_le_right .., le_max_right .., min_le_right .., le_max_right ..⟩

theorem RecordSpan.add_extends (hi : 0 < i) (hs : s.lastSeq ≤ h.seq) : (s.add i h).Extends s := by
  simp only [RecordSpan.add, if_neg hi.ne']
  exact ⟨hs, min_le_left .., le_max_left .., min_le_left .., le_max_left ..⟩

theorem RecordSpan.Extends.refl (s : RecordSpan) : s.Extends s :=
  ⟨le_rfl, le_rfl, le_rfl, le_rfl, le_rfl⟩

theorem RecordSpan.Extends.trans {s' s'' : RecordSpan} (h : s''.Extends s') (h' : s'.Extends s) :
    s''.Extends s :=
  ⟨h'.lastSeq.trans h.lastSeq, h.tsMin.trans h'.tsMin, h'.tsMax.trans h.tsMax,
   h.epochMin.trans h'.epochMin, h'.epochMax.trans h.epochMax⟩

structure Records (rs : List (RecordHeader × Bytes)) (first : Nat) (s : RecordSpan) : Prop where
  ascending : rs.Pairwise fun a b => a.1.seq < b.1.seq
  first : ∀ r ∈ rs, first ≤ r.1.seq
  holds : ∀ r ∈ rs, s.Holds r.1
  seq : ∀ r ∈ rs, r.1.seq ≤ maxU64

theorem Records.cons {rs : List (RecordHeader × Bytes)} {r : RecordHeader × Bytes} {first : Nat}
    (h : Records rs (r.1.seq + 1) s) (hf : first ≤ r.1.seq) (hs : s.Holds r.1)
    (hm : r.1.seq ≤ maxU64) : Records (r :: rs) first s where
  ascending := .cons h.first h.ascending
  first := forall_mem_cons.mpr ⟨hf, fun q hq => by have := h.first q hq; omega⟩
  holds := forall_mem_cons.mpr ⟨hs, h.holds⟩
  seq := forall_mem_cons.mpr ⟨hm, h.seq⟩

-- The least seq that the record with number `i` may have.
def nextSeq (env : BlockEnvelope) (i : Nat) (s : RecordSpan) : Nat :=
  if i = 0 then env.firstSeq else s.lastSeq + 1

theorem checkBlockSeq_spec (env : BlockEnvelope) (i seq : Nat) (s : RecordSpan) :
    Spec (checkBlockSeq i seq s.lastSeq env.firstSeq) fun _ => nextSeq env i s ≤ seq := by
  refine .check fun h₀ => (Agree.failIf ..).mono fun _ h => ?_
  unfold nextSeq
  split <;> omega

theorem checkRecordsFrom_spec (hh : recordHeaderLen ≤ env.recordHeaderLen)
    (hb : body.length = env.uncompressedLen) {n stop : Nat}
    (hi : (i + n) * env.recordHeaderLen ≤ rows.length) (hs : stop ≤ env.uncompressedLen) :
    Spec (checkRecordsFrom rows body env n i stop s) fun r =>
      r.1.length = n ∧ Records r.1 (nextSeq env i s) r.2 ∧ (0 < i → r.2.Extends s) := by
  induction n generalizing i stop s
  case zero =>
    refine .check fun _ => .pure ⟨rfl, ?_, fun _ => .refl s⟩
    exact ⟨.nil, by simp, by simp, by simp⟩
  case succ n ih =>
    have hrow : (i + 1) * env.recordHeaderLen ≤ rows.length :=
      (Nat.mul_le_mul_right _ (by omega)).trans hi
    refine (readRow_spec hh hrow).bind fun h hm => ?_
    refine (checkBlockSeq_spec env i h.seq s).bind fun _ hf => ?_
    refine .check fun hn => ?_
    refine (Agree.slice (by omega) (by omega)).bind fun payload _ => ?_
    refine (ih (by rwa [add_right_comm, add_assoc]) (by omega)).bind fun r ⟨hl, hr, he⟩ => ?_
    have he := he (by omega)
    refine .pure ⟨by simp [hl], hr.cons hf (he.holds (s.add_holds i h)) hm, fun h₀ => ?_⟩
    refine he.trans (RecordSpan.add_extends h₀ ?_)
    rw [nextSeq, if_neg h₀.ne'] at hf
    omega

end Records

theorem blockHeaderSectionLen_spec (count headerLen uncompressedLen : Nat) :
    Spec (blockHeaderSectionLen count headerLen uncompressedLen) fun n =>
      n = count * headerLen ∧ n ≤ uncompressedLen := by
  refine .bind (Q := (· = count * headerLen)) ?_ fun n hn => ?_
  · exact .check fun _ => .pure rfl
  · exact .check fun h => .pure ⟨hn, Nat.le_of_not_lt h⟩

theorem decodeBlock_spec (z : Zstd) {env : BlockEnvelope} {raw : Bytes} (he : env.Ok)
    (hl : envelopeLen ≤ raw.length) :
    Spec (decodeBlock z env raw) fun r =>
      r.1.records.length = env.recordCount ∧ Records r.1.records env.firstSeq r.2 := by
  refine (blockHeaderSectionLen_spec ..).bind fun n ⟨hn, hle⟩ => ?_
  refine .bind (Q := (·.length = env.uncompressedLen)) ?_ fun body hb => ?_
  · refine .mapErr ((Agree.slice hl le_rfl).bind fun _ _ => ?_)
    exact Codec.decode_spec ..
  refine (Agree.slice (Nat.zero_le _) (by omega)).bind fun cols _ => ?_
  refine (checkRecordsFrom_spec he.recordHeaderLen hb ?_ ?_).bind fun r ⟨hr, hs, _⟩ => ?_
  · simp
  · simpa [← hn] using hle
  · exact .pure ⟨hr, hs⟩

section Blocks

variable {z : Zstd} {i : Nat} {info : BlockInfo} {raw : Bytes} {d : DecodedBlock} {s : RecordSpan}

theorem blockIn_records (h : blockIn z info raw = some (d, s)) :
    d.records.length = info.recordCount ∧ Records d.records info.firstSeq s := by
  unfold blockIn at h
  split at h
  case h_2 => simp at h
  case h_1 env henv =>
    have ⟨he, ha, hl⟩ := (checkEnvelope_spec raw info).post env henv
    cases hd : decodeBlock z env raw
    case error => simp [hd, Except.toOption] at h
    case ok r =>
      obtain rfl : r = (d, s) := by simpa [hd, Except.toOption] using h
      rw [← ha.recordCount, ← ha.firstSeq]
      exact (decodeBlock_spec z he hl).post _ hd

-- How the read of the block with number `i` ends, by what its bytes hold.
inductive ReadsAs (i : Nat) (info : BlockInfo) :
    Option (DecodedBlock × RecordSpan) → Option DecodedBlock × Option Defect → Prop
  | failed (f : Defect) (hb : f.block = some i) (ho : f.offset = some info.offset)
      (hr : f.reason ≠ .limit) : ReadsAs i info none (none, some f)
  | agreed (d : DecodedBlock) (s : RecordSpan) (hs : info.indexed = true → s.Agrees info) :
      ReadsAs i info (some (d, s)) (some d, none)
  | differs (d : DecodedBlock) (s : RecordSpan) (f : Defect) (hi : info.indexed = true)
      (hs : ¬s.Agrees info) (hr : f.reason = .indexMismatch) :
      ReadsAs i info (some (d, s)) (some d, some f)

theorem ReadsAs.ne_limit {b : Option (DecodedBlock × RecordSpan)}
    {res : Option DecodedBlock × Option Defect} (h : ReadsAs i info b res) :
    ∀ f ∈ res.2, f.reason ≠ .limit := by
  cases h
  case failed f _ _ hr => simpa using hr
  case agreed => simp
  case differs f hi hs hr => simp [hr]

theorem checkEnvelope_reason {reason : IncompleteReason} {err : Err}
    (h : checkEnvelope raw info = fail (reason, err)) : reason ≠ .limit := by
  rcases bind_eq_fail.mp h with h | ⟨_, _, h⟩
  · have ⟨_, _, he⟩ := mapErr_eq_fail.mp h
    simp [← (Prod.mk.inj he).1]
  rcases bind_eq_fail.mp h with h | ⟨_, _, h⟩
  · have ⟨_, _, he⟩ := mapErr_eq_fail.mp h
    simp [← (Prod.mk.inj he).1]
  rcases bind_eq_fail.mp h with h | ⟨_, _, h⟩
  · exact absurd h slice_ne_fail
  rcases bind_eq_fail.mp h with h | ⟨_, _, h⟩
  · simp [← (Prod.mk.inj (failIf_eq_fail.mp h).2).1]
  rcases bind_eq_fail.mp h with h | ⟨_, _, h⟩
  · simp [← (Prod.mk.inj (failIf_eq_fail.mp h).2).1]
  · exact absurd h (by simp [fail])

theorem checkAndDecode_returns (z : Zstd) (i : Nat) (info : BlockInfo) (raw : Bytes) :
    Returns (checkAndDecode z i info raw) (ReadsAs i info (blockIn z info raw)) := by
  unfold checkAndDecode blockIn
  refine (Returns.attempt (checkEnvelope_spec raw info)).bind fun env henv => ?_
  cases env
  case error p =>
    rw [henv]
    exact .pure (.failed _ rfl rfl (checkEnvelope_reason henv))
  case ok env =>
    obtain ⟨henv, he, _, hl⟩ := henv
    rw [henv]
    refine (Returns.attempt (decodeBlock_spec z he hl)).bind fun r hd => ?_
    cases r
    case error e =>
      simp only [hd]
      exact .pure (.failed _ rfl rfl (by simp [blockDefect]))
    case ok r =>
      obtain ⟨d, s⟩ := r
      simp only [hd.1, Except.toOption]
      refine .ite (fun hi => ?_) fun hi => .pure (.agreed d s fun h => absurd h hi)
      refine (Returns.attempt (s.agrees_spec info)).bind fun a ha => ?_
      cases a
      case ok    => exact .pure (.agreed d s fun _ => ha.2)
      case error =>
        refine .pure (.differs d s _ hi (fun hs => ?_) rfl)
        rw [s.agrees_eq_ok.mpr hs] at ha
        cases ha

end Blocks
end Tracepack
