import GoSecs.Secs2.Constructors
import GoSecs.Secs2.Decode
import GoSecs.Secs2.Equal

open BigEndian Secs2

namespace Hsms

inductive MsgType
  | data
  | selectReq
  | selectRsp
  | deselectReq
  | deselectRsp
  | linktestReq
  | linktestRsp
  | rejectReq
  | separateReq
  | undefined
deriving DecidableEq

namespace MsgType

def code : MsgType → UInt8
  | data => 0
  | selectReq => 1
  | selectRsp => 2
  | deselectReq => 3
  | deselectRsp => 4
  | linktestReq => 5
  | linktestRsp => 6
  | rejectReq   => 7
  | separateReq => 9
  | undefined   => 255

-- The type that an SType byte stands for. The sentinel is not a wire value.
def ofSType (b : UInt8) : MsgType :=
  if b = 0 then data
  else if b = 1 then selectReq
  else if b = 2 then selectRsp
  else if b = 3 then deselectReq
  else if b = 4 then deselectRsp
  else if b = 5 then linktestReq
  else if b = 6 then linktestRsp
  else if b = 7 then rejectReq
  else if b = 9 then separateReq
  else undefined

theorem ofSType_code (t : MsgType) : ofSType t.code = t := by
  cases t <;> rfl

end MsgType

inductive Sentinel
  | invalidHeaderLength
  | invalidPType
  | invalidControlMsgSType
  | controlFrameWithBody
  | invalidStreamCode
  | invalidRspMsg
  | invalidRejectReason
deriving DecidableEq

inductive Err
  | sentinel (s : Sentinel)
  | wrapped  (text : String) (s : Sentinel)
  | msg      (text : String)
  | item     (err : Secs2.Err)

structure SysBytes where
  s0 : UInt8
  s1 : UInt8
  s2 : UInt8
  s3 : UInt8
deriving DecidableEq

structure Header where
  h0 : UInt8
  h1 : UInt8
  h2 : UInt8
  h3 : UInt8
  h4 : UInt8
  h5 : UInt8
  h6 : UInt8
  h7 : UInt8
  h8 : UInt8
  h9 : UInt8
deriving DecidableEq

namespace Header

def bytes (h : Header) : Bytes :=
  [h.h0, h.h1, h.h2, h.h3, h.h4, h.h5, h.h6, h.h7, h.h8, h.h9]

def sessionID (h : Header) : UInt16 :=
  UInt16.ofNat (nat [h.h0, h.h1])

def systemBytes (h : Header) : SysBytes :=
  { s0 := h.h6, s1 := h.h7, s2 := h.h8, s3 := h.h9 }

def putSessionID (h : Header) (id : UInt16) : Header :=
  { h with h0 := UInt8.ofNat (id.toNat / 256), h1 := UInt8.ofNat id.toNat }

def putSystemBytes (h : Header) (sb : SysBytes) : Header :=
  { h with h6 := sb.s0, h7 := sb.s1, h8 := sb.s2, h9 := sb.s3 }

def zero : Header :=
  { h0 := 0, h1 := 0, h2 := 0, h3 := 0, h4 := 0, h5 := 0, h6 := 0, h7 := 0, h8 := 0, h9 := 0 }

end Header

section Data

-- A body is the bytes of a received frame, or the item of a message that was built here.
inductive Body
  | raw  (body : Bytes)
  | tree (item : Item)

namespace Body

def len : Body → Int
  | raw b   => b.length
  | tree it => it.encodedLen

def appendTo : Body → Bytes → Bytes
  | raw b,   dst => dst ++ b
  | tree it, dst => dst ++ it.toBytes

end Body

-- What the one decoding of a body has stored.
structure Decoded where
  item : Option Item
  err : Option Fault
  trailing : Nat

-- `dec` is `none` until the body has been decoded.
structure DataMessage where
  header : Header
  body   : Body
  dec    : Option Decoded

namespace DataMessage

def stream (m : DataMessage) : UInt8 :=
  m.header.h2 &&& 0x7F

def function (m : DataMessage) : UInt8 :=
  m.header.h3

def waitBit (m : DataMessage) : Bool :=
  m.header.h2 >>> 7 ≠ 0

def toBytes (m : DataMessage) : Bytes :=
  m.body.appendTo (intBytes 4 (10 + m.body.len) ++ m.header.bytes)

def decode (m : DataMessage) : Decoded :=
  if m.body.len = 0 then
    { item := some newEmptyItem, err := none, trailing := 0 }
  else
    match decodeFirstItem (m.body.appendTo []) with
    | .ok (item, n) => { item := some item, err := none, trailing := n }
    | .error e => { item := none, err := some e, trailing := 0 }

-- The body is decoded at most once. Messages that share a body also share what was decoded from it.
def force (m : DataMessage) : DataMessage :=
  { m with dec := some (m.dec.getD m.decode) }

def decoded (m : DataMessage) : Decoded :=
  m.dec.getD m.decode

def item (m : DataMessage) : Option Item × Option Fault :=
  (m.decoded.item, m.decoded.err)

def trailingBytes (m : DataMessage) : Nat :=
  m.decoded.trailing

def bodyLen (m : DataMessage) : Int :=
  m.body.len

def bodyBytes (m : DataMessage) : Bytes :=
  m.body.appendTo []

def withSessionID (m : DataMessage) (id : UInt16) : DataMessage :=
  { m with header := m.header.putSessionID id }

def withSystemBytes (m : DataMessage) (sb : SysBytes) : DataMessage :=
  { m with header := m.header.putSystemBytes sb }

end DataMessage

def maxStreamCode : UInt8 :=
  127

-- A nil item stands for the empty one.
def newDataMessage (stream function : UInt8) (replyExpected : Bool) (sessionID : UInt16)
    (systemBytes : SysBytes) (item : Option Item) : Except Err DataMessage :=
  if stream > maxStreamCode then
    .error (.sentinel .invalidStreamCode)
  else
    match (item.getD newEmptyItem).error with
    | some e => .error (.item e)
    | none   =>
      if replyExpected ∧ function % 2 = 0 then
        .error (.sentinel .invalidRspMsg)
      else
        .ok {
          header :=
            { (Header.zero.putSessionID sessionID).putSystemBytes systemBytes with
              h2 := (stream &&& 0x7F) ||| (if replyExpected then 0x80 else 0)
              h3 := function }
          body := .tree (item.getD newEmptyItem)
          dec  := some { item := some (item.getD newEmptyItem), err := none, trailing := 0 } }

end Data

section Control

structure ControlMessage where
  header : Header
  replyExpected : Bool
deriving DecidableEq

namespace ControlMessage

def type (m : ControlMessage) : MsgType :=
  .ofSType m.header.h5

def toBytes (m : ControlMessage) : Bytes :=
  [0x00, 0x00, 0x00, 0x0A] ++ m.header.bytes

def withSessionID (m : ControlMessage) (id : UInt16) : ControlMessage :=
  { m with header := m.header.putSessionID id }

def withSystemBytes (m : ControlMessage) (sb : SysBytes) : ControlMessage :=
  { m with header := m.header.putSystemBytes sb }

end ControlMessage

inductive Message
  | data    (m : DataMessage)
  | control (m : ControlMessage)

namespace Message

def type : Message → MsgType
  | data _    => .data
  | control m => m.type

def header : Message → Header
  | data m    => m.header
  | control m => m.header

def toBytes : Message → Bytes
  | data m    => m.toBytes
  | control m => m.toBytes

def withSessionID (id : UInt16) : Message → Message
  | data m    => data (m.withSessionID id)
  | control m => control (m.withSessionID id)

def withSystemBytes (sb : SysBytes) : Message → Message
  | data m    => data (m.withSystemBytes sb)
  | control m => control (m.withSystemBytes sb)

-- A call of `Item`, `DecodeErr` or `TrailingBytes`, which control messages do not have.
def force : Message → Message
  | data m    => data m.force
  | control m => control m

end Message

-- The requests: a session ID, an SType and the system bytes.
def requestHeader (sessionID : UInt16) (t : MsgType) (sb : SysBytes) : Header :=
  { (Header.zero.putSessionID sessionID).putSystemBytes sb with h5 := t.code }

def newSelectReq (sessionID : UInt16) (sb : SysBytes) : ControlMessage :=
  { header := requestHeader sessionID .selectReq sb, replyExpected := true }

def newDeselectReq (sessionID : UInt16) (sb : SysBytes) : ControlMessage :=
  { header := requestHeader sessionID .deselectReq sb, replyExpected := true }

def newLinktestReq (sb : SysBytes) : ControlMessage :=
  { header := requestHeader 0xFFFF .linktestReq sb, replyExpected := true }

def newSeparateReq (sessionID : UInt16) (sb : SysBytes) : ControlMessage :=
  { header := requestHeader sessionID .separateReq sb, replyExpected := false }

-- The responses copy the session ID and the system bytes of the request.
def response (req : ControlMessage) (reqType rspType : MsgType) (status : UInt8) (text : String) :
    Except Err ControlMessage :=
  if req.type ≠ reqType then
    .error (.msg text)
  else
    .ok {
      header := { req.header with h2 := 0, h3 := status, h4 := 0, h5 := rspType.code }
      replyExpected := false }

def newSelectRsp (req : ControlMessage) (selectStatus : UInt8) : Except Err ControlMessage :=
  response req .selectReq .selectRsp selectStatus "expected select.req message"

def newDeselectRsp (req : ControlMessage) (deselectStatus : UInt8) : Except Err ControlMessage :=
  response req .deselectReq .deselectRsp deselectStatus "expected deselect.req message"

-- Linktest has no session: the request's is not copied.
def newLinktestRsp (req : ControlMessage) : Except Err ControlMessage :=
  if req.type ≠ .linktestReq then
    .error (.msg "expected linktest.req message")
  else
    .ok { header := requestHeader 0xFFFF .linktestRsp req.header.systemBytes, replyExpected := false }

def rejectPTypeNotSupported : UInt8 :=
  2

def newRejectReqRaw (sessionID : UInt16) (pType sType : UInt8) (sb : SysBytes)
    (reasonCode : UInt8) : Except Err ControlMessage :=
  if reasonCode = 0 then
    .error (.sentinel .invalidRejectReason)
  else
    .ok {
      header :=
        { requestHeader sessionID .rejectReq sb with
          h2 := if reasonCode = rejectPTypeNotSupported then pType else sType
          h3 := reasonCode }
      replyExpected := false }

-- A rejected data message has neither of its type bytes reported.
def newRejectReq (rejected : Message) (reasonCode : UInt8) : Except Err ControlMessage :=
  if rejected.type = .data then
    newRejectReqRaw rejected.header.sessionID 0 0 rejected.header.systemBytes reasonCode
  else
    newRejectReqRaw rejected.header.sessionID rejected.header.h4 rejected.header.h5
      rejected.header.systemBytes reasonCode

end Control

section Frames

def maxMessageSize : Nat :=
  maxByteSize

-- The type bytes of a header decide whether the rest of a frame is a body or must be absent.
def decodeBody (h : Header) (body : Bytes) : Except Err Message :=
  if h.h4 ≠ 0 then
    .error (.wrapped s!"invalid PType: {h.h4}" .invalidPType)
  else
    match MsgType.ofSType h.h5 with
    | .data => .ok (.data { header := h, body := .raw body, dec := none })
    | .undefined => .error (.wrapped s!"undefined SType: {h.h5}" .invalidControlMsgSType)
    | _ =>
      if body.length ≠ 0 then
        .error (.wrapped (s!"control frame carries a body: message length " ++
          s!"{10 + body.length} (expected 10)") .controlFrameWithBody)
      else
        .ok (.control { header := h, replyExpected := false })

-- The frame without its length prefix.
def decodeOwnedFrame (owned : Bytes) : Except Err Message :=
  match owned with
  | h0 :: h1 :: h2 :: h3 :: h4 :: h5 :: h6 :: h7 :: h8 :: h9 :: body =>
    decodeBody { h0, h1, h2, h3, h4, h5, h6, h7, h8, h9 } body
  | _ =>
    .error (.wrapped s!"hsms frame too short: {owned.length} bytes (minimum 10)"
      .invalidHeaderLength)

def decodeHSMSMessage (data : Bytes) : Except Err Message :=
  if data.length < 14 then
    .error (.wrapped s!"hsms message too short: {data.length} bytes (minimum 14)"
      .invalidHeaderLength)
  else if nat (data.take 4) < 10 then
    .error (.wrapped s!"hsms message length field too small: {nat (data.take 4)} (minimum 10)"
      .invalidHeaderLength)
  else if nat (data.take 4) > maxMessageSize then
    .error (.msg s!"hsms message length exceeds maximum: {nat (data.take 4)} > {maxMessageSize}")
  else if data.length ≠ 4 + nat (data.take 4) then
    .error (.wrapped (s!"hsms message length mismatch, expected: {nat (data.take 4)}, " ++
      s!"actual: {data.length - 4}") .invalidHeaderLength)
  else
    decodeOwnedFrame (data.drop 4)

end Frames
end Hsms
