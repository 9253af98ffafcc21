import GoSecs.Lib.Sha256
import GoSecs.Tracepack.Theorems.BusNames

open Run Strings

namespace Tracepack.Bus

open Format (UUID RecordHeader recordHeaderLen unmarshalRecordHeader checkShort)

variable {hdr payload bucket object digest : Bytes} {env : Envelope}

theorem unmarshalRecordHeader_append (hh : hdr.length = recordHeaderLen) :
    unmarshalRecordHeader (hdr ++ payload) recordHeaderLen =
      unmarshalRecordHeader hdr recordHeaderLen := by
  have ht : (slice (hdr ++ payload) 0 recordHeaderLen : Run Err _) =
      slice hdr 0 recordHeaderLen := by
    rw [← hh, slice_eq (Nat.zero_le _) (by simp), slice_eq (Nat.zero_le _) le_rfl]
    simp
  have hs : checkShort "record header" (hdr ++ payload) recordHeaderLen =
      checkShort "record header" hdr recordHeaderLen := by
    simp only [checkShort, failIf]
    rw [if_neg (by simp [hh]), if_neg (by simp [hh])]
  have he : (slice (hdr ++ payload) recordHeaderLen recordHeaderLen : Run Err _) =
      slice hdr recordHeaderLen recordHeaderLen := by
    rw [slice_eq le_rfl (by simp [hh]), slice_eq le_rfl hh.ge]
    simp
  simp only [unmarshalRecordHeader, Format.decodeRecordHeader, ht, hs, he]

theorem cutSlash_ref (hb : '/'.toUInt8 ∉ bucket) :
    cutSlash (bucket ++ '/'.toUInt8 :: object) = some (bucket, object) := by
  have hn : indexByte bucket '/'.toUInt8 = none := by
    simp only [indexByte, List.findIdx?_eq_none_iff, beq_eq_false_iff_ne]
    exact fun x hx he => hb (he ▸ hx)
  have hz : indexByte ('/'.toUInt8 :: object) '/'.toUInt8 = some 0 := by
    simp [indexByte, List.findIdx?_cons]
  rw [cutSlash, indexByte_append_of_none hn, hz]
  simp

-- The record without what a claim check says about its object.
def Record.inlined (br : Record) : Record :=
  { br with claimCheck := false, bucket := [], digest := .zero, descriptorHeader := [] }

-- The message of `env` when the payload is put into the bucket.
def Envelope.claim (env : Envelope) (bucket digest : Bytes) : Envelope :=
  { env with payloadRef := bucket ++ '/'.toUInt8 :: env.msgID, payloadDigest := digest }

variable (sha256 : Bytes → Digest)

-- What a consumer does with a claim-check record when it has the object.
def complete (br : Record) (payload : Bytes) : Run Err Record := do
  let (br, checked) := checkPayload sha256 br payload
  checked
  pure br.inlined

theorem checkStart_inlined (br : Record) (header : Bytes) (ev : Option TransportEvent) :
    checkStart br.inlined header ev = checkStart br header ev >>= fun br => pure br.inlined := by
  unfold checkStart
  split
  case isFalse => rfl
  case isTrue =>
    simp only [bind_assoc]
    refine bind_congr rfl fun _ _ => bind_congr rfl fun _ _ => ?_
    split
    case h_1 => rfl
    case h_2 =>
      simp only [bind_assoc]
      exact bind_congr rfl fun _ _ => rfl

theorem complete_eq {br : Record} (hc : br.claimCheck) (hl : payload.length = br.payloadLen)
    (hd : sha256 payload = br.digest) : complete sha256 br payload =
      checkEventPayload br.record.seq br.record.kind payload >>=
        checkStart { br with record.payload := payload }.inlined br.descriptorHeader := by
  rcases br with ⟨r, capture, n, c, bucket, digest, desc, header⟩
  obtain rfl : c = true := hc
  simp only at hl hd
  simp only [complete, checkPayload, failIf, hl, hd, Bool.true_eq_false, ne_eq, not_true_eq_false,
    if_false, pure_eq, bind_ok]
  cases checkEventPayload r.seq r.kind payload
  case error => rfl
  case ok ev =>
    simp only [bind_ok, checkStart_inlined]
    generalize checkStart _ header ev = x
    cases x <;> rfl

-- A payload in the bucket and the same payload in the message come to the same record, or to the
-- same error.
theorem claimCheck_inline (hh : hdr.length = recordHeaderLen) (hr : env.payloadRef = [])
    (hd : env.payloadDigest = []) (hb : bucket ≠ []) (hs : '/'.toUInt8 ∉ bucket)
    (hp : parsePayloadDigest digest = .ok (sha256 payload))
    (hl : ∀ h, unmarshalRecordHeader hdr recordHeaderLen = .ok h → h.payloadLen = payload.length) :
    checkMessage env (hdr ++ payload) =
      checkMessage (env.claim bucket digest) hdr >>= (complete sha256 · payload) := by
  unfold checkMessage
  simp only [bind_assoc]
  refine bind_congr rfl fun _ _ => ?_
  rw [unmarshalRecordHeader_append hh]
  have hi : ¬(hdr ++ payload).length < recordHeaderLen := by simp [hh]
  simp only [failIf, if_neg hi, if_neg hh.not_lt]
  refine bind_congr rfl fun _ _ => bind_congr rfl fun h hu => bind_congr rfl fun _ _ =>
    bind_congr rfl fun _ _ => bind_congr rfl fun _ _ => ?_
  have hl := hl h (mapErr_eq_ok.mp hu)
  have hinline : checkBody env h.payloadLen (hdr ++ payload).length = .ok ([], .zero) := by
    simp [checkBody, hr, hd, failIf, hl, hh]
  have hclaim : checkBody (env.claim bucket digest) h.payloadLen hdr.length =
      .ok (bucket, sha256 payload) := by
    simp [checkBody, Envelope.claim, cutSlash_ref hs, failIf, hh, hb, hp]
  rw [hinline, hclaim]
  have hne : (env.claim bucket digest).payloadRef ≠ [] := by simp [Envelope.claim]
  simp only [bind_ok, hr, hne, ne_eq, not_true_eq_false, decide_false, Bool.false_eq_true, if_false,
    slice_append_right hh, not_false_eq_true, decide_true, if_true, pure_eq]
  rw [complete_eq sha256 rfl hl.symm rfl]
  rfl

section Sample

open Tlv

def sha256Sum (b : Bytes) : Digest :=
  ⟨Sha256.sum b, Sha256.length_sum b⟩

def sampleDescriptor : Bytes :=
  [utf8Entry 0x0002 [0x65], u8Entry 0x0003 0, u8Entry 0x0004 captureMethodRawStream,
   u8Entry 0x0005 0, utf8Entry 0x0006 [0x72], u8Entry 0x0009 timeSourceClock, i64Entry 0x000A 0,
   i64Entry 0x000B 0, u8Entry 0x0012 0, boolEntry 0x0013 false, uuidEntry 0x001B .zero,
   u64Entry 0x0028 0].flatMap appendEntry

-- The payload of a capture's start.
def sampleStart : Bytes :=
  [u8Entry 0x0001 eventCaptureBoundary, u8Entry 0x000D boundaryKindStart].flatMap appendEntry

theorem claimCheck_inline_start :
    let env : Envelope := ⟨layout1, uuidString .zero ++ ascii ".7",
      Base64.encode Base64.std sampleDescriptor, [], []⟩
    let h : RecordHeader :=
      ⟨7, 0, 0, 0, sampleStart.length, 0, 0, kindTransportEvent, 1, 0, 0, 0, 0, []⟩
    let hdr := Format.appendRecordHeader h
    checkMessage env (hdr ++ sampleStart) =
      checkMessage (env.claim (ascii "b") (payloadDigest sha256Sum sampleStart)) hdr >>=
        (complete sha256Sum · sampleStart) ∧
    (checkMessage env (hdr ++ sampleStart)).toOption.map (·.descriptor) =
      some (some sampleDescriptor) := by
  intro env h hdr
  refine ⟨?_, by decide +kernel⟩
  have hu : unmarshalRecordHeader hdr recordHeaderLen = .ok h := by decide +kernel
  refine claimCheck_inline sha256Sum (by decide +kernel) rfl rfl (by decide +kernel)
    (by decide +kernel) (by decide +kernel) fun h' hu' => ?_
  cases hu.symm.trans hu'
  rfl

end Sample

end Tracepack.Bus
