import GoSecs.Hsmsss.Dispatch
import GoSecs.Hsms.Theorems.Frame
import GoSecs.Hsms.Theorems.Delivery

open BigEndian Hsms List

namespace Hsmsss

variable {ep : Endpoint} {h : Header} {msg : Message} {frame : Secs2.Bytes}
  {r : Except Err ControlMessage} {id : UInt16} {sb : SysBytes} {m : Message}

def IsControl (t : MsgType) (msg : Message) : Prop :=
  ∃ m, msg = .control m ∧ m.header.h4 = 0 ∧ m.header.h5 = t.code

def IsRsp (msg : Message) : Prop :=
  IsControl .selectRsp msg ∨ IsControl .deselectRsp msg ∨ IsControl .linktestRsp msg

def IsS9F1 (msg : Message) : Prop :=
  ∃ m, msg = .data m ∧ m.header.h4 = 0 ∧ m.header.h5 = MsgType.data.code ∧ m.isS9F1

def AtMostOne (P : Message → Prop) (answers : List Message) : Prop :=
  answers.length ≤ 1 ∧ ∀ m ∈ answers, P m

section AtMostOne

variable {P Q : Message → Prop} {answers : List Message}

theorem AtMostOne.nil : AtMostOne P [] :=
  ⟨Nat.zero_le _, nofun⟩

theorem AtMostOne.mono (h : AtMostOne P answers) (hp : ∀ m, P m → Q m) : AtMostOne Q answers :=
  ⟨h.left, fun m hm => hp m (h.right m hm)⟩

theorem atMostOne_sendResponse
    (h : ∀ m, r = .ok m → P (.control m)) : AtMostOne P (ep.sendResponse r) := by
  unfold Endpoint.sendResponse
  split
  case h_1 m =>
    split
    case isTrue  => exact ⟨Nat.le_refl _, forall_mem_singleton.mpr (h m rfl)⟩
    case isFalse => exact .nil
  case h_2 => exact .nil

end AtMostOne

theorem mem_sendResponse (h : msg ∈ ep.sendResponse r) :
    ∃ m, r = .ok m ∧ msg = .control m :=
  (atMostOne_sendResponse (P := fun msg => ∃ m, r = .ok m ∧ msg = .control m) fun m hm =>
    ⟨m, hm, rfl⟩).right msg h

theorem answers_notSelected (ep : Endpoint) (h : Header) :
    (ep.sendRejectNotSelected h).answers = ep.sendResponse
      (newRejectReqRaw controlSessionID 0 0 h.systemBytes rejectNotSelected) :=
  rfl

theorem answers_transactionNotOpen (ep : Endpoint) (h : Header) :
    (ep.sendRejectTransactionNotOpen h).answers = ep.sendResponse
      (newRejectReqRaw controlSessionID 0 h.h5 h.systemBytes rejectTransactionNotOpen) :=
  rfl

theorem atMostOne_raw {p s reason : UInt8} :
    AtMostOne (IsControl .rejectReq) (ep.sendResponse (newRejectReqRaw id p s sb reason)) := by
  refine atMostOne_sendResponse fun m hm => ?_
  unfold newRejectReqRaw at hm
  split at hm
  case isTrue  => exact nomatch hm
  case isFalse => cases hm; exact ⟨_, rfl, rfl, rfl⟩

theorem atMostOne_response {req : ControlMessage} {t u : MsgType} {status : UInt8}
    {text : String} : AtMostOne (IsControl u) (ep.sendResponse (response req t u status text)) := by
  refine atMostOne_sendResponse fun m hm => ?_
  unfold response at hm
  split at hm
  case isTrue  => exact nomatch hm
  case isFalse => cases hm; exact ⟨_, rfl, rfl, rfl⟩

theorem atMostOne_controlReq (ep : Endpoint) (req : ControlMessage) :
    AtMostOne IsRsp (ep.handleControlReq req).answers := by
  unfold Endpoint.handleControlReq
  split
  case h_1 => exact atMostOne_response.mono fun _ => .inl
  case h_2 =>
    refine atMostOne_sendResponse fun m hm => ?_
    unfold newLinktestRsp at hm
    split at hm
    case isTrue  => exact nomatch hm
    case isFalse => cases hm; exact .inr (.inr ⟨_, rfl, rfl, rfl⟩)
  case h_3 =>
    unfold Endpoint.handleDeselectReq
    split <;> exact atMostOne_response.mono fun _ h => .inr (.inl h)
  case h_4 => exact .nil

theorem atMostOne_controlRsp (ep : Endpoint) (h : Header) (m : Message) :
    AtMostOne (IsControl .rejectReq) (ep.handleControlRsp h m).answers := by
  unfold Endpoint.handleControlRsp
  split
  case h_1 => split <;> exact .nil
  case h_2 =>
    split
    case isTrue  => rw [answers_transactionNotOpen]; exact atMostOne_raw
    case isFalse => exact .nil

theorem s9F1_ok {mhead : Header} {m : DataMessage} (h : s9F1 id sb mhead = .ok m) :
    m.header.h4 = 0 ∧ m.header.h5 = MsgType.data.code ∧ m.isS9F1 := by
  unfold s9F1 newDataMessage at h
  split at h
  case isTrue => exact nomatch h
  case isFalse =>
    split at h
    case h_1 => exact nomatch h
    case h_2 =>
      split at h
      case isTrue  => exact nomatch h
      case isFalse =>
        cases h
        exact ⟨rfl, rfl, decide_eq_true ⟨show (9 &&& 0x7F ||| 0) &&& 0x7F = (9 : UInt8) by decide, rfl⟩⟩

theorem atMostOne_deliverOn (opts : Options) (e : Option ReplyRegistry) (sb : SysBytes)
    (dm : DataMessage) : AtMostOne (fun msg => IsS9F1 msg ∧ ¬dm.isS9F1)
      ((deliverOn opts e sb dm).2.filterMap fun | .enqueue m => some (.data m) | _ => none) := by
  have hd : ((routeDataOn opts dm).filterMap
      fun | .enqueue m => some (Message.data m) | _ => none) = [] := by
    unfold routeDataOn
    split
    case isTrue  => split <;> rfl
    case isFalse => rfl
  unfold deliverOn
  split
  case h_1 effects he =>
    split at he
    case isFalse => exact nomatch he
    case isTrue =>
      unfold checkSessionID at he
      split at he
      case isTrue => exact nomatch he
      case isFalse hn =>
        split at he
        case isTrue =>
          split at he
          case h_1 m hm =>
            cases he
            exact ⟨Nat.le_refl _, forall_mem_singleton.mpr
              ⟨⟨m, rfl, s9F1_ok hm⟩, fun hs => hn (.inl hs)⟩⟩
          case h_2 => cases he; exact .nil
        case isFalse => cases he; exact .nil
  case h_2 =>
    dsimp only
    split
    case isFalse => rw [hd]; exact .nil
    case isTrue =>
      split
      case h_1 => exact .nil
      case h_2 => rw [filterMap_cons_none rfl, hd]; exact .nil

theorem atMostOne_deliver (ep : Endpoint) (frame : Secs2.Bytes) :
    AtMostOne (fun msg => IsS9F1 msg ∧ ∀ dm, decodeOwnedFrame frame = .ok (.data dm) → ¬dm.isS9F1)
      (ep.deliverOwnedFrame frame).answers := by
  unfold Endpoint.deliverOwnedFrame
  split
  case isFalse => exact .nil
  case isTrue =>
    split
    case h_2 => exact .nil
    case h_1 r effects he =>
      unfold deliverOwnedFrameOn at he
      split at he
      case h_1 => exact nomatch he
      case h_2 => exact nomatch he
      case h_3 dm hd =>
        have heff : effects = (deliverOn ep.opts (some ep.reg) ep.systemBytes dm).2 :=
          congrArg Prod.snd (Except.ok.inj he).symm
        rw [heff]
        refine (atMostOne_deliverOn ..).mono fun m ⟨hs, hn⟩ => ⟨hs, fun dm' hd' => ?_⟩
        cases hd.symm.trans hd'
        exact hn

theorem dispatchFrame_bytes (ep : Endpoint) (h : Header) (body : Secs2.Bytes) :
    dispatchFrame ep (h.bytes ++ body) = dispatchParts ep h body :=
  rfl

-- A frame that is answered with more than a Reject.req is a request or a data message.
def Answer (h : Header) (body : Secs2.Bytes) (msg : Message) : Prop :=
  IsControl .rejectReq msg ∨
  IsRsp msg ∧ MsgType.ofSType h.h5 ∈ [.selectReq, .deselectReq, .linktestReq] ∨
  IsS9F1 msg ∧ MsgType.ofSType h.h5 = .data ∧
    ∀ dm, decodeOwnedFrame (h.bytes ++ body) = .ok (.data dm) → ¬dm.isS9F1

theorem atMostOne_answers (ep : Endpoint) (h : Header) (body : Secs2.Bytes) :
    AtMostOne (Answer h body) (dispatchFrame ep (h.bytes ++ body)).answers := by
  have raw {id : UInt16} {p s reason : UInt8} {sb : SysBytes} : AtMostOne (Answer h body)
      (ep.sendResponse (newRejectReqRaw id p s sb reason)) := atMostOne_raw.mono fun _ => .inl
  rw [dispatchFrame_bytes, dispatchParts]
  split
  case isTrue => exact raw
  case isFalse =>
    split
    case isTrue => exact raw
    case isFalse =>
      cases ht : MsgType.ofSType h.h5 <;> dsimp only
      case data =>
        split
        case isTrue  => rw [answers_notSelected]; exact raw
        case isFalse =>
          exact (atMostOne_deliver ..).mono fun _ hs => .inr (.inr ⟨hs.1, ht, hs.2⟩)
      case separateReq => exact .nil
      case undefined   => exact .nil
      case selectReq | deselectReq | linktestReq =>
        split
        case h_1 => exact (atMostOne_controlReq ..).mono fun _ h => .inr (.inl ⟨h, by simp [ht]⟩)
        case h_2 => exact .nil
      all_goals
        split
        case h_1 => exact (atMostOne_controlRsp ..).mono fun _ => .inl
        case h_2 => exact .nil

theorem answer_kind {body : Secs2.Bytes} (hm : msg ∈ (dispatchFrame ep (h.bytes ++ body)).answers) :
    Answer h body msg :=
  (atMostOne_answers ep h body).right msg hm

theorem wire_control (m : ControlMessage) : wire (.control m) = m.header.bytes ++ [] :=
  rfl

theorem wire_data (m : DataMessage) : wire (.data m) = m.header.bytes ++ m.bodyBytes := by
  have happ (dst : Secs2.Bytes) : m.body.appendTo dst = dst ++ m.body.appendTo [] := by
    cases m.body <;> rfl
  have hl : (intBytes 4 (10 + m.body.len)).length = 4 := length_intBytes ..
  show (m.body.appendTo (intBytes 4 (10 + m.body.len) ++ m.header.bytes)).drop 4 = _
  rw [happ, append_assoc, drop_left' hl]
  rfl

theorem dispatch_control {m : ControlMessage} {t : MsgType} (h4 : m.header.h4 = 0)
    (h5 : m.header.h5 = t.code) (hd : t ≠ .data) (hu : t ≠ .undefined) (ep : Endpoint) :
    dispatchFrame ep (wire (.control m)) =
      match MsgType.ofSType m.header.h5 with
      | .selectRsp | .deselectRsp | .linktestRsp | .rejectReq =>
        ep.handleControlRsp m.header (.control { header := m.header, replyExpected := false })
      | .selectReq | .deselectReq | .linktestReq =>
        ep.handleControlReq { header := m.header, replyExpected := false }
      | .separateReq => { endpoint := ep, keep := false }
      | _ => { endpoint := ep } := by
  have ht : MsgType.ofSType m.header.h5 = t := by rw [h5, MsgType.ofSType_code]
  have hdec : decodeControlFrame (m.header.bytes ++ []) =
      .ok (.control { header := m.header, replyExpected := false }) :=
    (@decodeHSMSMessage_frame m.header [] (by decide)).trans (decodeBody_control h4 h5 hd hu)
  rw [wire_control, dispatchFrame_bytes, dispatchParts, hdec, ht, h4, if_neg (by simp [hu]),
    if_neg (by simp)]
  cases t <;> first | rfl | contradiction

theorem dispatch_data {m : DataMessage} (h4 : m.header.h4 = 0)
    (h5 : m.header.h5 = MsgType.data.code) (ep : Endpoint) :
    dispatchFrame ep (wire (.data m)) =
      if ep.state ≠ .selected then ep.sendRejectNotSelected m.header
      else ep.deliverOwnedFrame (m.header.bytes ++ m.bodyBytes) := by
  have ht : MsgType.ofSType m.header.h5 = .data := by rw [h5, MsgType.ofSType_code]
  rw [wire_data, dispatchFrame_bytes, dispatchParts, ht, h4, if_neg (by simp), if_neg (by simp)]

theorem dispatch_selectReq {m : ControlMessage} (h4 : m.header.h4 = 0)
    (h5 : m.header.h5 = MsgType.selectReq.code) (ep : Endpoint) :
    dispatchFrame ep (wire (.control m)) =
      ep.handleSelectReq { header := m.header, replyExpected := false } := by
  have ht : MsgType.ofSType m.header.h5 = .selectReq := by rw [h5]; rfl
  rw [dispatch_control h4 h5 MsgType.noConfusion MsgType.noConfusion, ht]
  dsimp only
  rw [Endpoint.handleControlReq, ControlMessage.type, ht]

theorem reject_silent (hr : IsControl .rejectReq msg) (ep : Endpoint) :
    (dispatchFrame ep (wire msg)).answers = [] := by
  have ⟨m, hm, h4, h5⟩ := hr
  have ht : MsgType.ofSType m.header.h5 = .rejectReq := by rw [h5, MsgType.ofSType_code]
  have htype : (Message.control { header := m.header, replyExpected := false }).type =
      .rejectReq := ht
  rw [hm, dispatch_control h4 h5 MsgType.noConfusion MsgType.noConfusion, ht]
  dsimp only
  unfold Endpoint.handleControlRsp
  split
  case h_1 => rw [if_neg (by rw [htype]; simp)]
  case h_2 => rw [if_neg (by rw [htype]; simp)]

theorem rsp_answer (hr : IsRsp msg) (hm : m ∈ (dispatchFrame ep (wire msg)).answers) :
    IsControl .rejectReq m := by
  have key {t : MsgType} (hc : IsControl t msg) (hq : t ∉ [.selectReq, .deselectReq, .linktestReq])
      (hd : t ≠ .data) : IsControl .rejectReq m := by
    have ⟨c, hmsg, _, h5⟩ := hc
    have ht : MsgType.ofSType c.header.h5 = t := by rw [h5, MsgType.ofSType_code]
    rw [hmsg, wire_control] at hm
    rcases answer_kind hm with h | ⟨_, h⟩ | ⟨_, h, _⟩
    · exact h
    · exact absurd (ht ▸ h) hq
    · exact absurd (ht.symm.trans h) hd
  rcases hr with h | h | h
  · exact key h (by decide) MsgType.noConfusion
  · exact key h (by decide) MsgType.noConfusion
  · exact key h (by decide) MsgType.noConfusion

theorem s9F1_answer (hs : IsS9F1 msg)
    (hm : m ∈ (dispatchFrame ep (wire msg)).answers) : IsControl .rejectReq m := by
  have ⟨d, hmsg, h4, h5, hd⟩ := hs
  have ht : MsgType.ofSType d.header.h5 = .data := by rw [h5]; rfl
  rw [hmsg, wire_data] at hm
  rcases answer_kind hm with h | ⟨_, h⟩ | ⟨_, _, h⟩
  · exact h
  · rw [ht] at h
    exact absurd h (by decide)
  · have hdec := (decodeOwnedFrame_bytes d.header d.bodyBytes).trans (decodeBody_data h4 h5)
    exact (h _ hdec hd).elim

-- The dispatcher of some endpoint answers the first frame with the second.
def Provokes (frame frame' : Secs2.Bytes) : Prop :=
  ∃ ep, ∃ msg ∈ (dispatchFrame ep frame).answers, frame' = wire msg

theorem exists_header (hl : 10 ≤ frame.length) : ∃ (h : Header) (body : Secs2.Bytes),
    frame = h.bytes ++ body := by
  match frame, hl with
  | h0 :: h1 :: h2 :: h3 :: h4 :: h5 :: h6 :: h7 :: h8 :: h9 :: body, _ =>
    exact ⟨{ h0, h1, h2, h3, h4, h5, h6, h7, h8, h9 }, body, rfl⟩

theorem not_provokes_reject (hr : IsControl .rejectReq msg) : ¬Provokes (wire msg) frame := by
  rintro ⟨ep, m, hm, _⟩
  rw [reject_silent hr ep] at hm
  exact nomatch hm

theorem answer_of_answer {ep' : Endpoint} (hl : 10 ≤ frame.length)
    (hmsg : msg ∈ (dispatchFrame ep frame).answers)
    (hm : m ∈ (dispatchFrame ep' (wire msg)).answers) : IsControl .rejectReq m := by
  have ⟨h, body, hf⟩ := exists_header hl
  rw [hf] at hmsg
  rcases answer_kind hmsg with hr | ⟨hr, _⟩ | ⟨hs, _⟩
  · rw [reject_silent hr ep'] at hm
    exact nomatch hm
  · exact rsp_answer hr hm
  · exact s9F1_answer hs hm

theorem chain_length {chain : List Secs2.Bytes} (hl : 10 ≤ frame.length)
    (hc : List.IsChain Provokes (frame :: chain)) : chain.length ≤ 2 := by
  match chain, hc with
  | [], _ | [_], _ | [_, _], _ => simp
  | f₁ :: f₂ :: f₃ :: rest, hc =>
    simp only [isChain_cons_cons] at hc
    have ⟨⟨ep₀, m₁, hm₁, h₁⟩, ⟨ep₁, m₂, hm₂, h₂⟩, h₃, _⟩ := hc
    have hr := answer_of_answer hl hm₁ (h₁ ▸ hm₂)
    exact absurd (h₂ ▸ h₃) (not_provokes_reject hr)

-- A frame is answered with one frame at most, a Reject.req with none, and a chain of answers ends.
theorem automatic_answers_finite (hl : 10 ≤ frame.length) :
    (∀ ep, (dispatchFrame ep frame).answers.length ≤ 1) ∧
    (∀ ep ep' m, .control m ∈ (dispatchFrame ep frame).answers → m.type = .rejectReq →
      (dispatchFrame ep' (wire (.control m))).answers = []) ∧
    (∀ chain, List.IsChain Provokes (frame :: chain) → chain.length ≤ 3) := by
  have ⟨h, body, hf⟩ := exists_header hl
  refine ⟨fun ep => hf ▸ (atMostOne_answers ep h body).left, fun ep ep' m hm ht => ?_, fun chain hc => ?_⟩
  · rw [hf] at hm
    refine reject_silent ?_ ep'
    rcases answer_kind hm with hr | ⟨hr, _⟩ | ⟨⟨_, hs, _⟩, _⟩
    · exact hr
    · have not_rsp {t : MsgType} (hn : t ≠ .rejectReq) (hc : IsControl t (.control m)) : False := by
        have ⟨c, hmc, _, h5⟩ := hc
        cases hmc
        rw [ControlMessage.type, h5, MsgType.ofSType_code] at ht
        exact hn ht
      rcases hr with hr | hr | hr
      · exact (not_rsp MsgType.noConfusion hr).elim
      · exact (not_rsp MsgType.noConfusion hr).elim
      · exact (not_rsp MsgType.noConfusion hr).elim
    · exact nomatch hs
  · exact Nat.le_succ_of_le (chain_length hl hc)

def selectReq : ControlMessage :=
  newSelectReq 0xFFFF { s0 := 0, s1 := 0, s2 := 0, s3 := 1 }

theorem automatic_answers_finite_selectReq :
    (dispatchFrame {} (wire (.control selectReq))).answers.length = 1 ∧
    ∀ chain, List.IsChain Provokes (wire (.control selectReq) :: chain) → chain.length ≤ 3 :=
  ⟨by decide, (automatic_answers_finite (by decide)).right.right⟩

end Hsmsss
