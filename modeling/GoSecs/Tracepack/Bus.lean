import GoSecs.Lib.Base64
import GoSecs.Tracepack.Descriptor
import GoSecs.Tracepack.Keys
import GoSecs.Tracepack.Layout
import GoSecs.Tracepack.Record

-- The messages of the bus, which carry one record each from a producer to its consumers.

open Run Strings Strconv

namespace Tracepack.Bus

open Format (UUID RecordHeader recordHeaderLen maxLen32 appendRecordHeader unmarshalRecordHeader)

def layout1 : Bytes := ascii "1"

def headerLayout : String := "Tpk-Layout"
def headerMsgID : String := "Nats-Msg-Id"
def headerDescriptor : String := "Tpk-Capture-Descriptor"
def headerPayloadRef : String := "Tpk-Payload-Ref"
def headerPayloadDigest : String := "Tpk-Payload-Digest"

def payloadDigestPrefix : Bytes := ascii "SHA-256="

-- The largest seq that a producer assigns.
def maxSeq : Nat := 2 ^ 63 - 2

def isTokenByte (c : UInt8) : Bool :=
  c ≠ '.'.toUInt8 && isUnreserved c

def equipmentToken (equipmentID : Bytes) : Run Err Bytes := do
  mapErr (.mark .malformed) (checkEquipment equipmentID)
  pure (escape isTokenByte equipmentID)

def parseEquipmentToken (token : Bytes) : Run Err Bytes := do
  let equipment ← unescape isTokenByte
    { byte  := fun c i => .wrap
        "%w: equipment token %q: byte %#02x at %d is neither kept nor an escape"
        [.bytes token, .nat c.toNat, .nat i] (.sentinel .malformed)
      short := fun i => .wrap "%w: equipment token %q: escape at %d is cut short"
        [.bytes token, .nat i] (.sentinel .malformed)
      digit := fun i => .wrap
        "%w: equipment token %q: escape at %d is not two uppercase hex digits"
        [.bytes token, .nat i] (.sentinel .malformed)
      kept  := fun c i => .wrap
        "%w: equipment token %q: escape at %d encodes the kept byte %q"
        [.bytes token, .nat i, .bytes [c]] (.sentinel .malformed) }
    0 token
  mapErr (.mark .malformed) (checkEquipment equipment)
  pure equipment

def msgID (capture : UUID) (seq : Nat) : Run Err Bytes := do
  failIf (seq > maxSeq) (.wrap "%w: seq %d is not a producer's (at most %d)"
    [.nat seq, .nat maxSeq] (.sentinel .malformed))
  pure (uuidString capture ++ ascii "." ++ formatUint seq)

def parseMsgID (s : Bytes) : Run Err (UUID × Nat) := do
  failIf (s.length < uuidStringLen + 2 ∨ s[uuidStringLen]? ≠ some '.'.toUInt8)
    (.wrap "%w: %s %q is not <capture_id>.<seq>" [.text headerMsgID, .bytes s]
      (.sentinel .malformed))
  let capture ← mapErr (.tagged "%w: %s %q: %w" [.text headerMsgID, .bytes s] .malformed)
    (parseKeyUUID (← slice s 0 uuidStringLen))
  let digits ← slice s (uuidStringLen + 1) s.length
  let (seq, err) := parseUint digits 10 64
  failIf (err ≠ none ∨ (digits.head? = some '0'.toUInt8 ∧ digits.length > 1))
    (.wrap "%w: %s %q: seq is not decimal without a leading zero" [.text headerMsgID, .bytes s]
      (.sentinel .malformed))
  failIf (seq > maxSeq) (.wrap "%w: %s %q: seq %d is not a producer's"
    [.text headerMsgID, .bytes s, .nat seq] (.sentinel .malformed))
  pure (capture, seq)

section Messages

def boundaryKindStart : UInt8 := 1

structure Digest where
  bytes  : Bytes
  length : bytes.length = 32
deriving DecidableEq

def Digest.zero : Digest :=
  ⟨List.replicate 32 0, rfl⟩

-- The headers of a message, each empty when it is absent.
structure Envelope where
  layout : Bytes
  msgID : Bytes
  descriptor : Bytes
  payloadRef : Bytes
  payloadDigest : Bytes
deriving DecidableEq

-- The record of a message and what the message says about it. A claim-check record has its payload in an
-- object of the bucket.
structure Record where
  record : Tracepack.Record
  captureID : UUID
  payloadLen : Nat
  claimCheck : Bool
  bucket : Bytes
  digest : Digest
  descriptor : Option Bytes
  descriptorHeader : Bytes
deriving DecidableEq

def malformed (format : String) (args : List Arg) : Err :=
  .wrap format args (.sentinel .malformed)

def layout1Kind (k : UInt8) : Bool :=
  k = kindData || k = kindControl || k = kindTransportEvent || k = kindAnnotation

def checkLayout1Kind (seq : Nat) (kind : UInt8) : Run Err Unit :=
  failIf (layout1Kind kind = false) (malformed
    "%w: seq %d: record of kind %s, which layout 1 does not carry" [.nat seq, .nat kind.toNat])

def hasLineBreak (s : Bytes) : Bool :=
  (indexAny s (ascii "\r\n")).isSome

def parsePayloadDigest (s : Bytes) : Run Err Digest := do
  let enc := s.drop payloadDigestPrefix.length
  failIf (hasPrefix s payloadDigestPrefix = false ∨ hasLineBreak enc = true)
    (malformed "%w: %s %q is not %s<digest>"
      [.text headerPayloadDigest, .bytes s, .bytes payloadDigestPrefix])
  match Base64.decode Base64.url enc with
  | .error _ => fail (malformed "%w: %s %q does not decode to 32 bytes"
      [.text headerPayloadDigest, .bytes s])
  | .ok b =>
    if h : b.length = 32 then pure ⟨b, h⟩
    else fail (malformed "%w: %s %q does not decode to 32 bytes"
      [.text headerPayloadDigest, .bytes s])

-- `strings.Cut` at the first slash.
def cutSlash (s : Bytes) : Option (Bytes × Bytes) :=
  (indexByte s '/'.toUInt8).map fun i => (s.take i, s.drop (i + 1))

def checkBody (env : Envelope) (payloadLen bodyLen : Nat) : Run Err (Bytes × Digest) :=
  if env.payloadRef = [] then do
    failIf (env.payloadDigest ≠ []) (malformed "%w: %s without %s"
      [.text headerPayloadDigest, .text headerPayloadRef])
    failIf (bodyLen ≠ recordHeaderLen + payloadLen) (malformed
      "%w: inline body of %d bytes, payload_len %d" [.nat bodyLen, .nat payloadLen])
    pure ([], .zero)
  else do
    failIf (bodyLen ≠ recordHeaderLen) (malformed
      "%w: claim-check body of %d bytes, not the record header alone" [.nat bodyLen])
    match cutSlash env.payloadRef with
    | none => fail refError
    | some (bucket, object) =>
      failIf (bucket = [] ∨ object ≠ env.msgID) refError
      let digest ← parsePayloadDigest env.payloadDigest
      pure (bucket, digest)
where
  refError : Err := malformed "%w: %s %q does not name the object %s/%s"
    [.text headerPayloadRef, .bytes env.payloadRef, .text "<bucket>", .bytes env.msgID]

-- A capture's start is a boundary event of that kind.
def isStart : Option TransportEvent → Bool
  | none    => false
  | some ev => ev.event = eventCaptureBoundary && ev.boundaryKind = some boundaryKindStart

def notAccepted (format : String) (args : List Arg) : Err :=
  .wrap format args (.sentinel .notAccepted)

def checkStart (br : Record) (header : Bytes) (ev : Option TransportEvent) : Run Err Record :=
  if isStart ev then do
    failIf (header = []) (notAccepted "%w: start without %s" [.text headerDescriptor])
    failIf (hasLineBreak header = true)
      (notAccepted "%w: %s holds a line break" [.text headerDescriptor])
    match Base64.decode Base64.std header with
    | .error off => fail (.tagged "%w: %s is not standard base64 with padding: %w"
        [.text headerDescriptor] .notAccepted
        (.text "illegal base64 data at input byte %d" [.nat off]))
    | .ok desc =>
      let _ ← mapErr (.mark .notAccepted) (decodeDescriptor desc)
      pure { br with descriptor := some desc }
  else
    pure br

def checkEventPayload (seq : Nat) (kind : UInt8) (payload : Bytes) :
    Run Err (Option TransportEvent) :=
  mapErr (.tagged "%w: seq %d: %s record payload: %w" [.nat seq, .nat kind.toNat] .malformed) <|
    if kind = kindTransportEvent then do
      pure (some (← unmarshalTransportEvent payload))
    else if kind = kindAnnotation then do
      let _ ← unmarshalAnnotation payload
      pure none
    else
      pure none

-- What a consumer keeps of a record as it was stored.
def normalize (r : Tracepack.Record) : Tracepack.Record :=
  { r with
    decodeStatus := 0
    trailingBytes := 0
    fieldValidity := 0
    quality := r.quality &&& Format.qualityMask }

def checkMessage (env : Envelope) (body : Bytes) : Run Err Record := do
  failIf (env.layout ≠ layout1) (.wrap "%w: %s %q" [.text headerLayout, .bytes env.layout]
    (.sentinel .unsupportedLayout))
  failIf (body.length < recordHeaderLen) (malformed
    "%w: body of %d bytes, shorter than the record header" [.nat body.length])
  let h ← mapErr (.mark .malformed) (unmarshalRecordHeader body recordHeaderLen)
  let (capture, seq) ← parseMsgID env.msgID
  failIf (seq ≠ h.seq) (malformed "%w: %s names seq %d, the record header %d"
    [.text headerMsgID, .nat seq, .nat h.seq])
  checkLayout1Kind h.seq h.kind
  let (bucket, digest) ← checkBody env h.payloadLen body.length
  let br : Record := {
    record := normalize (storedRecord h [])
    captureID := capture
    payloadLen := h.payloadLen
    claimCheck := env.payloadRef ≠ []
    bucket := bucket
    digest := digest
    descriptor := none
    descriptorHeader := [] }
  if br.claimCheck then
    pure { br with descriptorHeader := env.descriptor }
  else do
    let payload ← slice body recordHeaderLen body.length
    let ev ← checkEventPayload h.seq h.kind payload
    checkStart { br with record := normalize (storedRecord h payload) } env.descriptor ev

variable (sha256 : Bytes → Digest)

def payloadDigest (payload : Bytes) : Bytes :=
  payloadDigestPrefix ++ Base64.encode Base64.url (sha256 payload).bytes

-- The record after the check of its object, and how the check ends.
def checkPayload (br : Record) (payload : Bytes) : Record × Run Err Unit :=
  let object : Run Err (Option TransportEvent) := do
    failIf (br.claimCheck = false) (.wrap "%w: bus record is not claim-check" []
      (.sentinel .invalidArgument))
    failIf (payload.length ≠ br.payloadLen) (.wrap "%w: object of %d bytes, payload_len %d"
      [.nat payload.length, .nat br.payloadLen] (.sentinel .payloadMismatch))
    failIf (sha256 payload ≠ br.digest) (.wrap "%w: object digest differs from %s"
      [.text headerPayloadDigest] (.sentinel .payloadMismatch))
    checkEventPayload br.record.seq br.record.kind payload
  match object with
  | .error e => (br, .error e)
  | .ok ev   =>
    let br := { br with record.payload := payload }
    match checkStart br br.descriptorHeader ev with
    | .error e => (br, .error e)
    | .ok br   => (br, pure ())

end Messages

end Tracepack.Bus
