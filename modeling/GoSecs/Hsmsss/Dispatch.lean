import GoSecs.Hsms.Delivery
import GoSecs.Hsms.Supervisor

open BigEndian Hsms

namespace Hsmsss

-- `live` tells whether the generation is current and has not ended, `systemBytes` are those of the
-- next message.
structure Endpoint where
  opts : Options := {}
  state : ConnState := .notSelected
  live : Bool := true
  reg : ReplyRegistry := {}
  systemBytes : SysBytes := { s0 := 0, s1 := 0, s2 := 0, s3 := 1 }

-- The endpoint after a frame, the answers it has enqueued, and whether it goes on reading.
structure Dispatched where
  endpoint : Endpoint
  answers : List Message := []
  keep : Bool := true

def controlSessionID : UInt16 := 0xFFFF

def rejectSTypeNotSupported : UInt8 := 1
def rejectTransactionNotOpen : UInt8 := 3
def rejectNotSelected : UInt8 := 4

def selectStatusSuccess : UInt8 := 0
def selectStatusAlreadyActive : UInt8 := 1
def deselectStatusSuccess : UInt8 := 0
def deselectStatusNotEstablished : UInt8 := 1

namespace Endpoint

def commitSelected (ep : Endpoint) : Endpoint × Bool :=
  if ep.live ∧ ep.state = .notSelected then ({ ep with state := .selected }, true) else (ep, false)

def selectLost (ep : Endpoint) : Endpoint × Bool :=
  if ep.live ∧ ep.state = .selected then ({ ep with state := .notSelected }, true) else (ep, false)

-- An answer of a generation that is over has nowhere to go.
def sendResponse (ep : Endpoint) : Except Err ControlMessage → List Message
  | .ok msg  => if ep.live then [.control msg] else []
  | .error _ => []

-- A stale generation is reported as a hit, so that the frame is not rejected.
def routeReply (ep : Endpoint) (msg : Message) : Endpoint × Bool :=
  if ep.live then
    match routeReplyOn ep.opts (some ep.reg) msg with
    | (some r, hit) => ({ ep with reg := r }, hit)
    | (none, hit)   => (ep, hit)
  else (ep, true)

def deliverOwnedFrame (ep : Endpoint) (frame : Secs2.Bytes) : Dispatched :=
  if ep.live then
    match deliverOwnedFrameOn ep.opts (some ep.reg) ep.systemBytes frame with
    | .ok (r, effects) =>
      { endpoint := { ep with reg := r.getD ep.reg }
        answers  := effects.filterMap fun | .enqueue m => some (.data m) | _ => none }
    | .error _ => { endpoint := ep }
  else { endpoint := ep }

def sendReject (ep : Endpoint) (h : Header) : Dispatched :=
  { endpoint := ep
    answers  := ep.sendResponse (newRejectReqRaw controlSessionID h.h4 h.h5 h.systemBytes
      (if h.h4 ≠ 0 then rejectPTypeNotSupported else rejectSTypeNotSupported)) }

def sendRejectNotSelected (ep : Endpoint) (h : Header) : Dispatched :=
  { endpoint := ep
    answers  := ep.sendResponse
      (newRejectReqRaw controlSessionID 0 0 h.systemBytes rejectNotSelected) }

def sendRejectTransactionNotOpen (ep : Endpoint) (h : Header) : Dispatched :=
  { endpoint := ep
    answers  := ep.sendResponse
      (newRejectReqRaw controlSessionID 0 h.h5 h.systemBytes rejectTransactionNotOpen) }

-- The commit comes before the response.
def handleSelectReq (ep : Endpoint) (req : ControlMessage) : Dispatched :=
  let (ep, committed) := ep.commitSelected
  { endpoint := ep
    answers  := ep.sendResponse (newSelectRsp req
      (if committed then selectStatusSuccess else selectStatusAlreadyActive)) }

def handleLinktestReq (ep : Endpoint) (req : ControlMessage) : Dispatched :=
  { endpoint := ep, answers := ep.sendResponse (newLinktestRsp req) }

-- The response comes before the commit, and only a link that is selected is deselected.
def handleDeselectReq (ep : Endpoint) (req : ControlMessage) : Dispatched :=
  if ep.state = .selected then
    { endpoint := ep.selectLost.1
      answers  := ep.sendResponse (newDeselectRsp req deselectStatusSuccess) }
  else
    { endpoint := ep
      answers  := ep.sendResponse (newDeselectRsp req deselectStatusNotEstablished) }

def handleControlReq (ep : Endpoint) (req : ControlMessage) : Dispatched :=
  match req.type with
  | .selectReq => ep.handleSelectReq req
  | .linktestReq => ep.handleLinktestReq req
  | .deselectReq => ep.handleDeselectReq req
  | _ => { endpoint := ep }

-- A response or a Reject.req. A select response with status 0 completes the own Select.
def handleControlRsp (ep : Endpoint) (h : Header) (msg : Message) : Dispatched :=
  match ep.routeReply msg with
  | (ep, true) =>
    if msg.type = .selectRsp ∧ msg.header.h3 = selectStatusSuccess then
      { endpoint := ep.commitSelected.1 }
    else { endpoint := ep }
  | (ep, false) =>
    if msg.type ≠ .rejectReq then ep.sendRejectTransactionNotOpen h else { endpoint := ep }

end Endpoint

def decodeControlFrame (frame : Secs2.Bytes) : Except Err Message :=
  decodeHSMSMessage (intBytes 4 frame.length ++ frame)

-- The frame of a header and a body.
def dispatchParts (ep : Endpoint) (h : Header) (body : Secs2.Bytes) : Dispatched :=
  let frame := h.bytes ++ body
  if h.h4 ≠ 0 ∨ MsgType.ofSType h.h5 = .undefined then ep.sendReject h
  else if MsgType.ofSType h.h5 ≠ .data ∧ body ≠ [] then ep.sendReject h
  else
    match MsgType.ofSType h.h5 with
    | .data =>
      if ep.state ≠ .selected then ep.sendRejectNotSelected h else ep.deliverOwnedFrame frame
    | .selectRsp | .deselectRsp | .linktestRsp | .rejectReq =>
      match decodeControlFrame frame with
      | .ok msg  => ep.handleControlRsp h msg
      | .error _ => { endpoint := ep }
    | .selectReq | .deselectReq | .linktestReq =>
      match decodeControlFrame frame with
      | .ok (.control req) => ep.handleControlReq req
      | _ => { endpoint := ep }
    | .separateReq => { endpoint := ep, keep := false }
    | .undefined   => { endpoint := ep }

-- One frame without its length prefix. The reader has checked that it holds a header.
def dispatchFrame (ep : Endpoint) (frame : Secs2.Bytes) : Dispatched :=
  match frame with
  | h0 :: h1 :: h2 :: h3 :: h4 :: h5 :: h6 :: h7 :: h8 :: h9 :: body =>
    dispatchParts ep { h0, h1, h2, h3, h4, h5, h6, h7, h8, h9 } body
  | _ => { endpoint := ep }

-- A message as the peer's reader hands it to the dispatcher.
def wire (msg : Message) : Secs2.Bytes :=
  msg.toBytes.drop 4

end Hsmsss
