import GoSecs.Hsmsss.Session
import GoSecs.Hsmsss.Theorems.Dispatch

open Hsms List Function

namespace Hsmsss.Session

variable {r : ReplyRegistry} {ep : Endpoint} {msg : Message} {key : SysBytes} {p : Nat}
  {c : Candidate} {key' : SysBytes} {res : ReplyResult} {m : Message}

def Awaits (r : ReplyRegistry) (key : SysBytes) : Prop :=
  ∃ p, r.m key = some p ∧ (r.waiters p).isData = false ∧
    (r.waiters p).state ≠ .replyClaimedByS9

abbrev Granted (c : Candidate) : Prop :=
  ofStatus selectStatusSuccess c

-- A registry after calls that only complete waits, none of them with a granted select.
structure Follows (r r' : ReplyRegistry) : Prop where
  awaits  : ∀ {key}, Awaits r key → Awaits r' key
  results : ∀ {p c}, c ∈ (r'.waiters p).results → Granted c → c ∈ (r.waiters p).results

theorem Follows.refl (r : ReplyRegistry) : Follows r r :=
  ⟨id, fun h _ => h⟩

theorem Follows.trans {r₁ r₂ r₃ : ReplyRegistry} (h : Follows r₁ r₂) (h' : Follows r₂ r₃) :
    Follows r₁ r₃ :=
  ⟨h'.awaits ∘ h.awaits, fun hc hg => h.results (h'.results hc hg) hg⟩

theorem isData_send (w : ReplyWaiter) (c : Candidate) :
    (w.send c).isData = w.isData ∧ (w.send c).state = w.state := by
  unfold ReplyWaiter.send
  split <;> exact ⟨rfl, rfl⟩

theorem Awaits.complete
    (hc : c.claim = .replyClaimedByS9 → (r.waiters p).isData) (h : Awaits r key) :
    Awaits (r.complete p c) key := by
  have ⟨q, hq, hd, hs⟩ := h
  refine ⟨q, hq, ?_⟩
  by_cases hqp : q = p
  · subst hqp
    unfold ReplyRegistry.complete
    rw [Registry.modify_self, (isData_send _ c).left, (isData_send _ c).right]
    exact ⟨hd, fun h9 => absurd (hc h9) (ne_true_of_eq_false hd)⟩
  · unfold ReplyRegistry.complete
    rw [Registry.modify_of_ne hqp]
    exact ⟨hd, hs⟩

theorem results_complete {q : Nat} {d : Candidate}
    (h : d ∈ ((r.complete p c).waiters q).results) : d = c ∨ d ∈ (r.waiters q).results := by
  unfold ReplyRegistry.complete at h
  by_cases hqp : q = p
  · subst hqp
    rw [Registry.modify_self] at h
    exact (Registry.results_send h).imp id id
  · rw [Registry.modify_of_ne hqp] at h
    exact .inr h

theorem route_cases (r : ReplyRegistry) (key : SysBytes) (res : ReplyResult) (strict : Bool) :
    (r.route key res strict).1 = r ∨
    ∃ p, (r.route key res strict).1 = r.complete p (.reply key res strict) ∧
      (r.route key res strict).2.1 := by
  unfold ReplyRegistry.route
  split
  case h_1 => exact .inl rfl
  case h_2 p _ =>
    dsimp only
    split
    case isTrue => exact .inl rfl
    case isFalse =>
      split
      case isTrue => exact .inl rfl
      case isFalse =>
        split
        case isTrue  => split <;> exact .inl rfl
        case isFalse => exact .inr ⟨p, rfl, rfl⟩

theorem failS9_cases (r : ReplyRegistry) (mhead : Header) (policy : MheadPolicy)
    (res : ReplyResult) :
    (r.failS9 mhead policy res).1 = r ∨
    ∃ p, (r.waiters p).isData ∧
      (r.failS9 mhead policy res).1 = r.complete p (.s9 mhead policy res) := by
  unfold ReplyRegistry.failS9
  split
  case h_1 => exact .inl rfl
  case h_2 p _ =>
    dsimp only
    split
    case isTrue => exact .inl rfl
    case isFalse hn =>
      split
      case isTrue  => exact .inl rfl
      case isFalse => exact .inr ⟨p, Bool.eq_true_of_not_eq_false fun h => hn (.inl (by simp [h])), rfl⟩

theorem awaits_route (res : ReplyResult) (strict : Bool) (h : Awaits r key') :
    Awaits (r.route key res strict).1 key' := by
  rcases route_cases r key res strict with hr | ⟨p, hr, _⟩
  · rwa [hr]
  · rw [hr]
    exact h.complete (nomatch ·)

theorem Follows.route (hres : ∀ m, res.msg = some m → m.type ≠ .selectRsp)
    (key : SysBytes) (strict : Bool) : Follows r (r.route key res strict).1 where
  awaits := awaits_route res strict
  results := by
    intro p c hc hg
    rcases route_cases r key res strict with hr | ⟨q, hr, _⟩
    · rwa [hr] at hc
    · rw [hr] at hc
      rcases results_complete hc with rfl | hc
      · have hg : res.msg.any (isSelectRsp selectStatusSuccess) := hg
        cases hm : res.msg <;> rw [hm] at hg
        case none   => exact Bool.noConfusion hg
        case some m => exact absurd (of_decide_eq_true hg).left (hres m hm)
      · exact hc

theorem Follows.failS9 (mhead : Header) (policy : MheadPolicy) (e : ReplyErr) :
    Follows r (r.failS9 mhead policy { err := some e }).1 := by
  rcases failS9_cases r mhead policy { err := some e } with hr | ⟨p, hd, hr⟩
  · rw [hr]
    exact .refl r
  · rw [hr]
    refine ⟨fun h => h.complete fun _ => hd, fun hc hg => ?_⟩
    rcases results_complete hc with rfl | hc
    · exact Bool.noConfusion hg
    · exact hc

theorem Follows.deliver (opts : Options) (sb : SysBytes) (dm : DataMessage) :
    ∃ r', (deliverOn opts (some r) sb dm).1 = some r' ∧ Follows r r' := by
  unfold deliverOn
  split
  case h_1 => exact ⟨r, rfl, .refl r⟩
  case h_2 =>
    have ⟨r₁, h₁, hf⟩ : ∃ r₁, correlateS9On opts (some r) dm = some r₁ ∧ Follows r r₁ := by
      refine ⟨_, rfl, ?_⟩
      split
      case h_1 => exact .refl r
      case h_2 => exact .failS9 ..
    rw [h₁]
    dsimp only
    have hroute : Follows r₁
        (r₁.route dm.header.systemBytes (Message.data dm).result opts.strictReplyMatching).1 :=
      .route (fun m hm => by cases hm; exact MsgType.noConfusion) ..
    split
    case isTrue => split <;> exact ⟨_, congrArg Prod.fst ‹_ = (_, _)›.symm, hf.trans hroute⟩
    case isFalse => exact ⟨r₁, rfl, hf⟩

def Sent : Message → Prop
  | .data m    => m.header.h4 = 0 ∧ m.header.h5 = MsgType.data.code
  | .control m =>
    m.header.h4 = 0 ∧ (m.header.h5 = MsgType.selectReq.code ∨ m.header.h5 = MsgType.selectRsp.code ∨
      m.header.h5 = MsgType.rejectReq.code ∧ m.header.h3 ≠ rejectNotSelected)

abbrev Grants (msg : Message) : Prop :=
  isSelectRsp selectStatusSuccess msg

-- What the receive goroutine makes of a frame of the session.
structure Takes (ep : Endpoint) (msg : Message) (d : Dispatched) : Prop where
  live : d.endpoint.live
  connected : d.endpoint.state ≠ .notConnected
  selected : ep.state = .selected → d.endpoint.state = .selected
  awaits : ∀ {key}, Awaits ep.reg key → Awaits d.endpoint.reg key
  results : ∀ {p c}, c ∈ (d.endpoint.reg.waiters p).results → Granted c →
    d.endpoint.state = .selected ∨ c ∈ (ep.reg.waiters p).results
  commits : d.endpoint.state = .selected →
    ep.state = .selected ∨ msg.type = .selectReq ∨ Grants msg
  answers : ∀ m ∈ d.answers, Sent m ∧ m.type ≠ .selectReq
  grants : ∀ m ∈ d.answers, Grants m →
    msg.type = .selectReq ∧ m.header.systemBytes = msg.header.systemBytes
  responds : msg.type = .selectReq → d.endpoint.state = .selected
  completes : Grants msg → Awaits ep.reg msg.header.systemBytes → d.endpoint.state = .selected

theorem handleSelectReq_eq (req : ControlMessage) (hl : ep.live) (hc : ep.state ≠ .notConnected)
    (ht : req.type = .selectReq) :
    ep.handleSelectReq req = {
      endpoint := { ep with state := .selected }
      answers  := [.control {
        header := { req.header with
          h2 := 0
          h3 := if ep.state = .selected then selectStatusAlreadyActive else selectStatusSuccess
          h4 := 0
          h5 := MsgType.selectRsp.code }
        replyExpected := false }] } := by
  have ⟨opts, state, live, reg, sb⟩ := ep
  cases hl
  cases state
  case notConnected => exact absurd rfl hc
  all_goals
    simp [Endpoint.handleSelectReq, Endpoint.commitSelected, Endpoint.sendResponse, newSelectRsp,
      response, ht]

theorem takes_selectReq {m : ControlMessage} (hl : ep.live) (hc : ep.state ≠ .notConnected)
    (h4 : m.header.h4 = 0) (h5 : m.header.h5 = MsgType.selectReq.code) :
    Takes ep (.control m) (dispatchFrame ep (wire (.control m))) := by
  have ht : MsgType.ofSType m.header.h5 = .selectReq := by rw [h5]; rfl
  rw [dispatch_selectReq h4 h5,
    handleSelectReq_eq { header := m.header, replyExpected := false } hl hc ht]
  exact {
    live := hl
    connected := ConnState.noConfusion
    selected := fun _ => rfl
    awaits := id
    results := fun _ _ => .inl rfl
    commits := fun _ => .inr (.inl ht)
    answers := fun m hm => by
      rw [mem_singleton.mp hm]
      exact ⟨⟨rfl, .inr (.inl rfl)⟩, fun h => nomatch (show MsgType.selectRsp = _ from h)⟩
    grants := fun m hm _ => by
      rw [mem_singleton.mp hm]
      exact ⟨ht, rfl⟩
    responds := fun _ => rfl
    completes := fun _ _ => rfl }

theorem Awaits.hit {strict : Bool} (h : Awaits r key) :
    (r.route key res strict).2.1 := by
  have ⟨p, hp, hd, hs⟩ := h
  have hm : (r.waiters p).mismatched res = false := by
    unfold ReplyWaiter.mismatched
    split <;> simp [hd]
  rw [ReplyRegistry.route, hp]
  dsimp only
  rw [if_neg (by simp [hd]), if_neg (by simp [hm]), if_neg hs]
  split <;> rfl

abbrev routed (ep : Endpoint) (msg : Message) : ReplyRegistry × Bool × Bool :=
  ep.reg.route msg.header.systemBytes msg.result ep.opts.strictReplyMatching

theorem commitSelected_eq (hl : ep.live) (hc : ep.state ≠ .notConnected) :
    ep.commitSelected.1 = { ep with state := .selected } := by
  have ⟨opts, state, live, reg, sb⟩ := ep
  cases hl
  cases state
  case notConnected => exact absurd rfl hc
  all_goals rfl

theorem mem_transactionNotOpen {h : Header}
    (hm : m ∈ (ep.sendRejectTransactionNotOpen h).answers) : Sent m ∧ m.type = .rejectReq := by
  rw [answers_transactionNotOpen] at hm
  have ⟨c, hc, hmc⟩ := mem_sendResponse hm
  rw [newRejectReqRaw, if_neg (by decide)] at hc
  cases hc
  rw [hmc]
  exact ⟨⟨rfl, .inr (.inr ⟨rfl, show rejectTransactionNotOpen ≠ rejectNotSelected by decide⟩)⟩, rfl⟩

theorem handleControlRsp_cases (hl : ep.live) (hc : ep.state ≠ .notConnected) (h : Header) :
    ((routed ep msg).2.1 ∧ Grants msg ∧ ep.handleControlRsp h msg =
      { endpoint := { ep with reg := (routed ep msg).1, state := .selected } }) ∨
    (¬((routed ep msg).2.1 ∧ Grants msg) ∧
      (ep.handleControlRsp h msg).endpoint = { ep with reg := (routed ep msg).1 } ∧
      ∀ m ∈ (ep.handleControlRsp h msg).answers, Sent m ∧ m.type = .rejectReq) := by
  have hroute : ep.routeReply msg = ({ ep with reg := (routed ep msg).1 }, (routed ep msg).2.1) := by
    rw [Endpoint.routeReply, if_pos hl]
    rfl
  rw [Endpoint.handleControlRsp, hroute]
  cases hhit : (routed ep msg).2.1 <;> dsimp only
  case true =>
    by_cases hg : Grants msg
    · have hg' := of_decide_eq_true hg
      have hcommit := @commitSelected_eq { ep with reg := (routed ep msg).1 } hl hc
      rw [if_pos hg', hcommit]
      exact .inl ⟨rfl, hg, rfl⟩
    · rw [if_neg fun h => hg (decide_eq_true h)]
      exact .inr ⟨fun h => hg h.right, rfl, fun _ => (nomatch ·)⟩
  case false =>
    refine .inr ⟨fun h => Bool.noConfusion h.left, ?_⟩
    split
    case isTrue  => exact ⟨rfl, fun _ => mem_transactionNotOpen⟩
    case isFalse => exact ⟨rfl, fun _ => (nomatch ·)⟩

theorem results_routed (hg : Granted c) (hc : c ∈ ((routed ep msg).1.waiters p).results) :
    (routed ep msg).2.1 ∧ Grants msg ∨ c ∈ (ep.reg.waiters p).results := by
  rcases route_cases ep.reg msg.header.systemBytes msg.result ep.opts.strictReplyMatching with
    hr | ⟨q, hr, hhit⟩
  · rw [hr] at hc
    exact .inr hc
  · rw [hr] at hc
    refine (results_complete hc).imp ?_ id
    rintro rfl
    refine ⟨hhit, ?_⟩
    have hg : msg.result.msg.any (isSelectRsp selectStatusSuccess) := hg
    unfold Message.result at hg
    split at hg
    case isTrue  => exact Bool.noConfusion hg
    case isFalse => exact hg

theorem takes_controlRsp (hl : ep.live) (hc : ep.state ≠ .notConnected)
    (hn : msg.type ≠ .selectReq) (h : Header) : Takes ep msg (ep.handleControlRsp h msg) := by
  rcases handleControlRsp_cases hl hc h with ⟨hhit, hg, hd⟩ | ⟨hno, he, ha⟩
  · rw [hd]
    exact {
      live := hl
      connected := ConnState.noConfusion
      selected := fun _ => rfl
      awaits := awaits_route _ _
      results := fun _ _ => .inl rfl
      commits := fun _ => .inr (.inr hg)
      answers := fun _ => (nomatch ·)
      grants := fun _ => (nomatch ·)
      responds := fun h => absurd h hn
      completes := fun _ _ => rfl }
  · have hreject {m : Message} (hm : m ∈ (ep.handleControlRsp h msg).answers) {t : MsgType}
        (ht : m.type = t) : t = .rejectReq := ht.symm.trans (ha m hm).right
    constructor
    case live => rw [he]; exact hl
    case connected => rw [he]; exact hc
    case selected => rw [he]; exact id
    case awaits => rw [he]; exact awaits_route _ _
    case results =>
      rw [he]
      intro p c hmem hgr
      exact .inr ((results_routed hgr hmem).resolve_left hno)
    case commits => rw [he]; exact .inl
    case answers => exact fun m hm => ⟨(ha m hm).left, fun h => nomatch hreject hm h⟩
    case grants => exact fun m hm hg => nomatch hreject hm (of_decide_eq_true hg).left
    case responds => exact fun h => absurd h hn
    case completes => exact fun hg hw => absurd ⟨hw.hit, hg⟩ hno

theorem takes_data {m : DataMessage} (hl : ep.live) (hs : ep.state = .selected)
    (h4 : m.header.h4 = 0) (h5 : m.header.h5 = MsgType.data.code) :
    Takes ep (.data m) (dispatchFrame ep (wire (.data m))) := by
  have hd : dispatchFrame ep (wire (.data m)) =
      ep.deliverOwnedFrame (m.header.bytes ++ m.bodyBytes) := by
    rw [dispatch_data h4 h5, if_neg (not_not_intro hs)]
  obtain ⟨r', hr, hf⟩ : ∃ r', (ep.deliverOwnedFrame (m.header.bytes ++ m.bodyBytes)).endpoint =
      { ep with reg := r' } ∧ Follows ep.reg r' := by
    obtain ⟨r', hr, hf⟩ := @Follows.deliver ep.reg ep.opts ep.systemBytes
      { header := m.header, body := .raw m.bodyBytes, dec := none }
    refine ⟨r', ?_, hf⟩
    rw [Endpoint.deliverOwnedFrame, if_pos hl, deliverOwnedFrameOn, decodeOwnedFrame_bytes,
      decodeBody_data h4 h5]
    dsimp only
    rw [hr]
    rfl
  have ha {x : Message} (hx : x ∈ (ep.deliverOwnedFrame (m.header.bytes ++ m.bodyBytes)).answers) :
      ∃ d, x = .data d ∧ d.header.h4 = 0 ∧ d.header.h5 = MsgType.data.code := by
    obtain ⟨d, hd, h4, h5, _⟩ := ((atMostOne_deliver ..).right _ hx).left
    exact ⟨d, hd, h4, h5⟩
  rw [hd]
  constructor
  case live => rw [hr]; exact hl
  case connected => rw [hr]; exact fun h => by cases hs.symm.trans h
  case selected => rw [hr]; exact id
  case awaits => rw [hr]; exact hf.awaits
  case results => rw [hr]; exact fun hc hg => .inr (hf.results hc hg)
  case commits => exact fun _ => .inl hs
  case answers =>
    intro x hx
    obtain ⟨d, hd, h⟩ := ha hx
    rw [hd]
    exact ⟨h, MsgType.noConfusion⟩
  case grants =>
    intro x hx hg
    obtain ⟨d, hd, _⟩ := ha hx
    rw [hd] at hg
    cases (of_decide_eq_true hg).left
  case responds  => rintro ⟨⟩
  case completes => rw [hr]; exact fun _ _ => hs

theorem takes (hl : ep.live) (hc : ep.state ≠ .notConnected) (hm : Sent msg)
    (hs : isData msg → ep.state = .selected) :
    Takes ep msg (dispatchFrame ep (wire msg)) := by
  cases msg
  case data m => exact takes_data hl (hs rfl) hm.left hm.right
  case control m =>
    have ⟨h4, hm⟩ := hm
    have rsp {t : MsgType} (ht : MsgType.ofSType m.header.h5 = t) (hn : t ≠ .selectReq) :
        Takes ep (.control m) (ep.handleControlRsp m.header
          (.control { header := m.header, replyExpected := false })) := by
      have h := @takes_controlRsp ep (.control { header := m.header, replyExpected := false }) hl hc
        (fun h => hn (ht.symm.trans h)) m.header
      exact { h with }
    rcases hm with h5 | h5 | ⟨h5, _⟩
    · exact takes_selectReq hl hc h4 h5
    · have ht : MsgType.ofSType m.header.h5 = .selectRsp := by rw [h5, MsgType.ofSType_code]
      rw [dispatch_control h4 h5 MsgType.noConfusion MsgType.noConfusion, ht]
      exact rsp ht MsgType.noConfusion
    · have ht : MsgType.ofSType m.header.h5 = .rejectReq := by rw [h5, MsgType.ofSType_code]
      rw [dispatch_control h4 h5 MsgType.noConfusion MsgType.noConfusion, ht]
      exact rsp ht MsgType.noConfusion

variable {x x' y : Side} {a : Step} {i : Nat} {mode : Mode} {rest : List Message}

-- What holds of an endpoint whatever its peer does. Until it is selected, no user has passed the
-- gate and its own Select, if it has begun, is open.
structure Local (x : Side) : Prop where
  live : x.ep.live
  connected : x.ep.state ≠ .notConnected
  sent : ∀ m ∈ x.frames, Sent m
  requests : ∀ m ∈ x.frames, m.type = .selectReq → x.ep.state ≠ .selected →
    Awaits x.ep.reg m.header.systemBytes
  proc : x.proc.isRegistered → x.ep.state ≠ .selected → Awaits x.ep.reg x.selectBytes
  users : ∀ i, (x.users i).isIdle = false → x.ep.state = .selected
  cleared : ∀ i m mode, x.users i = .cleared m mode → Sent (.data m)
  results : ∀ p c, c ∈ (x.ep.reg.waiters p).results → Granted c → x.ep.state = .selected

structure Moves (x : Side) (a : Step) (x' : Side) : Prop where
  state : x'.ep.state = x.ep.state
  live : x'.ep.live = x.ep.live
  frames : ∀ m ∈ x'.frames, m ∈ x.frames ∨ m = x.selectReq ∧ x.proc.isRegistered ∨
    ∃ i dm mode, x.users i = .cleared dm mode ∧ m = .data dm
  out : x'.out = x.out ∧ x.writesData a = false ∨
    ∃ m, x'.out = x.out ++ [m] ∧ x.writesData a = isData m
  awaits : x.ep.state ≠ .selected → ∀ key, Awaits x.ep.reg key → Awaits x'.ep.reg key
  results : ∀ {p c}, c ∈ (x'.ep.reg.waiters p).results → c ∈ (x.ep.reg.waiters p).results
  proc : x'.proc.isRegistered → x.proc.isRegistered ∧ x'.selectBytes = x.selectBytes ∨
    Awaits x'.ep.reg x'.selectBytes
  users : ∀ i, (x'.users i).isIdle = false →
    (x.users i).isIdle = false ∨ x.ep.state = .selected
  cleared : ∀ i m mode, x'.users i = .cleared m mode →
    x.users i = .cleared m mode ∨ Sent (.data m)

theorem Moves.of_ep (hep : x'.ep = x.ep) (hb : x'.selectBytes = x.selectBytes)
    (hp : x'.proc.isRegistered → x.proc.isRegistered)
    (hu : ∀ i, x'.users i = x.users i ∨
      (x'.users i).isCleared = false ∧ (x.users i).isIdle = false)
    (frames : ∀ m ∈ x'.frames, m ∈ x.frames ∨ m = x.selectReq ∧ x.proc.isRegistered ∨
      ∃ i dm mode, x.users i = .cleared dm mode ∧ m = .data dm)
    (out : x'.out = x.out ∧ x.writesData a = false ∨
      ∃ m, x'.out = x.out ++ [m] ∧ x.writesData a = isData m) : Moves x a x' where
  state := congrArg Endpoint.state hep
  live := congrArg Endpoint.live hep
  frames := frames
  out := out
  awaits := by rw [hep]; exact fun _ _ => id
  results := by rw [hep]; exact id
  proc h := .inl ⟨hp h, hb⟩
  users i h := by
    rcases hu i with hi | ⟨_, hi⟩
    · exact .inl (hi ▸ h)
    · exact .inl hi
  cleared i m mode h := by
    rcases hu i with hi | ⟨hi, _⟩
    · exact .inl (hi ▸ h)
    · rw [h] at hi
      exact Bool.noConfusion hi

theorem moves_respond (hg : x.guard .respond) : Moves x .respond (x.next .respond) := by
  have hw : x.writesData .respond = false := by simp [Side.writesData, Side.hasData]
  cases ha : x.answers
  case nil => simp [Side.guard, ha] at hg
  case cons msg rest =>
    have hx : x.next .respond = { x with answers := rest }.enqueueAsync msg := by
      rw [Side.next, ha]
    rw [hx, Side.enqueueAsync]
    split <;> refine .of_ep rfl rfl id (fun _ => .inl rfl) (fun m hm => .inl ?_) (.inl ⟨rfl, hw⟩)
    all_goals
      simp only [Side.frames, ha, mem_append, mem_cons] at hm ⊢
      grind

theorem moves_drain (hg : x.guard .drain) : Moves x .drain (x.next .drain) := by
  have hw : x.writesData .drain = false := by simp [Side.writesData, Side.hasData]
  have ⟨hs, hq⟩ := of_decide_eq_true hg
  cases hc : x.sendCh
  case nil => rw [hc] at hq; exact Bool.noConfusion hq
  case cons msg rest =>
    have hx : x.next .drain = { x with sendCh := rest, sender := some msg } := by
      rw [Side.next, hc]
    rw [hx]
    refine .of_ep rfl rfl id (fun _ => .inl rfl) (fun m hm => .inl ?_) (.inl ⟨rfl, hw⟩)
    simp only [Side.frames, hc, mem_append, mem_cons, Option.mem_toList] at hm ⊢
    grind

theorem moves_flush (hg : x.guard .flush) : Moves x .flush (x.next .flush) := by
  have ⟨msg, hs⟩ := Option.isSome_iff_exists.mp hg
  have hx : x.next .flush = { x with sender := none }.writeFrame msg := by rw [Side.next, hs]
  have hw : x.writesData .flush = decide (x.ep.state = .selected ∧ isData msg) := by
    rw [Side.writesData, Side.hasData, hs]
    rfl
  rw [hx, Side.writeFrame]
  split
  case isTrue ha =>
    refine .of_ep rfl rfl id (fun _ => .inl rfl) (fun m hm => .inl ?_) (.inr ⟨msg, rfl, ?_⟩)
    · simp only [Side.frames, hs, mem_append] at hm ⊢
      grind
    · rw [hw]
      cases hd : isData msg
      case true  => exact decide_eq_true ⟨of_decide_eq_true ha hd, rfl⟩
      case false => exact decide_eq_false fun h => Bool.noConfusion h.right
  case isFalse hn =>
    refine .of_ep rfl rfl id (fun _ => .inl rfl) (fun m hm => .inl ?_) (.inl ⟨rfl, ?_⟩)
    · simp only [Side.frames, hs, mem_append] at hm ⊢
      grind
    · rw [hw]
      exact decide_eq_false fun h => hn (decide_eq_true fun _ => h.left)

theorem Awaits.store {w : ReplyWaiter} (hd : w.isData = false)
    (hs : w.state ≠ .replyClaimedByS9) (h : Awaits r key) :
    Awaits (r.store key' w) key := by
  have ⟨p, hp, hpd, hps⟩ := h
  by_cases hk : key = key'
  · subst hk
    exact ⟨r.size, update_self .., by rw [Registry.store_size]; exact ⟨hd, hs⟩⟩
  · refine ⟨p, (update_of_ne hk ..).trans hp, ?_⟩
    by_cases hps : p = r.size
    · rw [hps, Registry.store_size]
      exact ⟨hd, hs⟩
    · rw [show (r.store key' w).waiters p = r.waiters p from update_of_ne hps ..]
      exact ⟨hpd, ‹_›⟩

theorem awaits_registerControl (r : ReplyRegistry) (key : SysBytes) :
    Awaits (r.registerControl key) key :=
  ⟨r.size, update_self .., by
    rw [ReplyRegistry.registerControl, Registry.store_size]
    exact ⟨rfl, ReplyState.noConfusion⟩⟩

theorem mem_frames_append {m' : Message}
    (h : m ∈ ({ x with out := x.out ++ [m'] } : Side).frames) : m ∈ x.frames ∨ m = m' := by
  simp only [Side.frames, mem_append, mem_singleton] at h ⊢
  exact or_assoc.mpr h

theorem moves_register : Moves x .register (x.next .register) := by
  have hw : x.writesData .register = false := by simp [Side.writesData, Side.hasData]
  refine ⟨rfl, rfl, fun _ => .inl, .inl ⟨rfl, hw⟩, ?_, ?_, ?_, fun _ => .inl, fun _ _ _ => .inl⟩
  · exact fun _ _ h => h.store rfl ReplyState.noConfusion
  · exact Registry.results_store rfl
  · exact fun _ => .inr (awaits_registerControl ..)

theorem moves_request (hg : x.guard .request) : Moves x .request (x.next .request) := by
  cases hp : x.proc
  case registered p =>
    have hx : x.next .request = { x with proc := .waiting p, out := x.out ++ [x.selectReq] } := by
      rw [Side.next, hp]
      exact if_pos rfl
    rw [hx]
    refine .of_ep rfl rfl Bool.noConfusion (fun _ => .inl rfl) (fun m hm => ?_)
      (.inr ⟨_, rfl, by simp [Side.writesData, Side.hasData, Side.selectReq, isData]⟩)
    rcases mem_frames_append hm with hm | hm
    · exact .inl hm
    · exact .inr (.inl ⟨hm, by rw [hp]; rfl⟩)
  all_goals rw [Side.guard, hp] at hg; exact Bool.noConfusion hg

theorem selected_of_concludes (h : Local x) (hc : x.concludes) : x.ep.state = .selected := by
  unfold Side.concludes at hc
  split at hc
  case h_2 => exact Bool.noConfusion hc
  case h_1 p _ =>
    have ⟨c, hc, hs⟩ := any_eq_true.mp hc
    rcases of_decide_eq_true hs with hs | ⟨_, hs⟩
    · exact h.results p c (mem_append_right _ hc) hs
    · exact hs

theorem moves_conclude (h : Local x) (hg : x.guard .conclude) :
    Moves x .conclude (x.next .conclude) :=
  ⟨rfl, rfl, fun _ => .inl, .inl ⟨rfl, by simp [Side.writesData, Side.hasData]⟩,
    fun hn => absurd (selected_of_concludes h hg) hn, id, Bool.noConfusion, fun _ => .inl,
    fun _ _ _ => .inl⟩

theorem users_setUser_of_ne {j : Nat} (h : j ≠ i) (u : User) :
    (x.setUser i u).users j = x.users j :=
  update_of_ne h ..

theorem users_setUser (i : Nat) (u : User) : (x.setUser i u).users i = u :=
  update_self ..

theorem moves_gate {m : DataMessage} (hg : x.guard (.gate i m mode)) :
    Moves x (.gate i m mode) (x.next (.gate i m mode)) := by
  have hw : x.writesData (.gate i m mode) = false := by simp [Side.writesData, Side.hasData]
  have ⟨_, hsent⟩ := of_decide_eq_true hg
  rw [Side.next]
  split
  case isFalse => exact .of_ep rfl rfl id (fun _ => .inl rfl) (fun _ => .inl) (.inl ⟨rfl, hw⟩)
  case isTrue ha =>
    have hs : x.ep.state = .selected := of_decide_eq_true ha rfl
    refine ⟨rfl, rfl, fun _ => .inl, .inl ⟨rfl, hw⟩, fun hn => absurd hs hn, ?_,
      fun h => .inl ⟨h, rfl⟩, fun _ _ => .inr hs, fun j m' mode' hj => ?_⟩
    · show ∀ {p c}, c ∈ (ReplyRegistry.waiters (if mode = .waitReply then _ else _) p).results → _
      split
      case isTrue  => exact Registry.results_store rfl
      case isFalse => exact id
    · by_cases hji : j = i
      · subst hji
        cases (users_setUser j _).symm.trans hj
        exact .inr hsent
      · exact .inl ((users_setUser_of_ne hji _).symm.trans hj)

theorem setUser_quiet {j : Nat} {u : User} (hc : u.isCleared = false)
    (hi : (x.users i).isIdle = false) : (x.setUser i u).users j = x.users j ∨
      ((x.setUser i u).users j).isCleared = false ∧ (x.users j).isIdle = false := by
  by_cases hji : j = i
  · subst hji
    rw [users_setUser]
    exact .inr ⟨hc, hi⟩
  · exact .inl (users_setUser_of_ne hji u)

theorem moves_writeFrame {u : User} {m : DataMessage}
    (hu : x.users i = .cleared m mode) (hc : u.isCleared = false) (hm : mode ≠ .async) :
    Moves x (.write i) ((x.setUser i u).writeFrame (.data m)) := by
  have hq (j : Nat) := setUser_quiet (j := j) hc (by rw [hu]; rfl : (x.users i).isIdle = false)
  have hw : x.writesData (.write i) = decide (x.ep.state = .selected) := by
    rw [Side.writesData, Side.hasData, hu]
    simp [hm]
  rw [Side.writeFrame]
  split
  case isFalse hn =>
    refine .of_ep rfl rfl id hq (fun _ => .inl) (.inl ⟨rfl, ?_⟩)
    rw [hw]
    exact decide_eq_false fun h => hn (decide_eq_true fun _ => h)
  case isTrue ha =>
    refine .of_ep rfl rfl id hq (fun m' hm' => ?_) (.inr ⟨_, rfl, ?_⟩)
    · rcases mem_frames_append hm' with h | h
      · exact .inl h
      · exact .inr (.inr ⟨i, m, mode, hu, h⟩)
    · rw [hw]
      exact decide_eq_true (of_decide_eq_true ha rfl)

theorem moves_write (hg : x.guard (.write i)) :
    Moves x (.write i) (x.next (.write i)) := by
  rw [Side.guard] at hg
  cases hu : x.users i
  case cleared m mode =>
    rw [Side.next, hu]
    cases mode
    case waitReply => exact moves_writeFrame hu rfl Mode.noConfusion
    case noReply   => exact moves_writeFrame hu rfl Mode.noConfusion
    case async =>
      refine .of_ep rfl rfl id (fun j => setUser_quiet rfl (by rw [hu]; rfl)) (fun m' hm' => ?_)
        (.inl ⟨rfl, by simp [Side.writesData, Side.hasData, hu]⟩)
      have hd : m' ∈ x.frames ∨ m' = .data m := by
        simp only [Side.frames, Side.setUser, mem_append] at hm' ⊢
        grind
      exact hd.imp_right fun hd => .inr ⟨i, m, .async, hu, hd⟩
  all_goals rw [hu] at hg; exact Bool.noConfusion hg

theorem moves_finish (h : Local x) (hg : x.guard (.finish i)) :
    Moves x (.finish i) (x.next (.finish i)) := by
  have ⟨hi, hc⟩ := of_decide_eq_true hg
  cases hu : x.users i
  case waiting key =>
    rw [Side.next, hu]
    have hidle : (x.users i).isIdle = false := by rw [hu]; rfl
    have hq (j : Nat) := setUser_quiet (x := x) (u := .idle) (j := j) rfl hidle
    have hw : x.writesData (.finish i) = false := by simp [Side.writesData, Side.hasData]
    refine ⟨rfl, rfl, fun _ => .inl, .inl ⟨rfl, hw⟩, fun hn => absurd (h.users i hidle) hn, id,
      fun h => .inl ⟨h, rfl⟩, fun _ _ => .inr (h.users i hidle), fun j m mode hj => ?_⟩
    rcases hq j with hj' | ⟨hj', _⟩
    · exact .inl (hj'.symm.trans hj)
    · exact nomatch (congrArg User.isCleared hj).symm.trans hj'
  all_goals rw [hu] at hi hc; simp [User.isIdle, User.isCleared] at hi hc

theorem moves (h : Local x) (hg : x.guard a) : Moves x a (x.next a) := by
  cases a
  case respond => exact moves_respond hg
  case drain => exact moves_drain hg
  case flush => exact moves_flush hg
  case register => exact moves_register
  case request => exact moves_request hg
  case conclude => exact moves_conclude h hg
  case gate => exact moves_gate hg
  case write => exact moves_write hg
  case finish => exact moves_finish h hg

theorem Moves.local (hm : Moves x a x') (h : Local x) : Local x' where
  live := hm.live.trans h.live
  connected := by rw [hm.state]; exact h.connected
  sent m hx := by
    rcases hm.frames m hx with hx | ⟨rfl, _⟩ | ⟨i, dm, mode, hu, rfl⟩
    · exact h.sent m hx
    · exact ⟨rfl, .inl rfl⟩
    · exact h.cleared i dm mode hu
  requests m hx ht hn := by
    rw [hm.state] at hn
    rcases hm.frames m hx with hx | ⟨rfl, hp⟩ | ⟨i, dm, mode, hu, rfl⟩
    · exact hm.awaits hn _ (h.requests m hx ht hn)
    · exact hm.awaits hn _ (h.proc hp hn)
    · exact nomatch ht
  proc hp hn := by
    rw [hm.state] at hn
    rcases hm.proc hp with ⟨hp, hb⟩ | hp
    · rw [hb]
      exact hm.awaits hn _ (h.proc hp hn)
    · exact hp
  users i hi := by
    rw [hm.state]
    exact (hm.users i hi).elim (h.users i) id
  cleared i m mode hi := (hm.cleared i m mode hi).elim (h.cleared i m mode) id
  results p c hc hg := by
    rw [hm.state]
    exact h.results p c (hm.results hc) hg

-- Every answer that grants the peer's Select finds it open.
def Replies (x y : Side) : Prop :=
  y.ep.state ≠ .selected → ∀ m ∈ x.frames, Grants m → Awaits y.ep.reg m.header.systemBytes

theorem Moves.replies (hm : Moves x a x') (h : Replies x y) : Replies x' y := by
  intro hn m hx hg
  rcases hm.frames m hx with hx | ⟨rfl, _⟩ | ⟨i, dm, mode, hu, rfl⟩
  · exact h hn m hx hg
  · exact nomatch (of_decide_eq_true hg).left
  · exact nomatch (of_decide_eq_true hg).left

theorem Moves.replies_peer (hm : Moves x a x') (h : Replies y x) : Replies y x' := by
  intro hn m hy hg
  rw [hm.state] at hn
  exact hm.awaits hn _ (h hn m hy hg)

theorem mem_frames_receive (h : m ∈ (x.receive msg).frames) :
    m ∈ (dispatchFrame x.ep (wire msg)).answers ∨ m ∈ x.frames := by
  simp only [Side.frames, Side.receive, mem_append] at h ⊢
  grind

theorem Takes.local (ht : Takes x.ep msg (dispatchFrame x.ep (wire msg))) (h : Local x) :
    Local (x.receive msg) where
  live := ht.live
  connected := ht.connected
  sent m hm := (mem_frames_receive hm).elim (fun hm => (ht.answers m hm).left) (h.sent m)
  requests m hm hq hn := by
    rcases mem_frames_receive hm with hm | hm
    · exact absurd hq (ht.answers m hm).right
    · exact ht.awaits (h.requests m hm hq fun hs => hn (ht.selected hs))
  proc hp hn := ht.awaits (h.proc hp fun hs => hn (ht.selected hs))
  users i hi := ht.selected (h.users i hi)
  cleared := h.cleared
  results p c hc hg := (ht.results hc hg).elim id fun hc => ht.selected (h.results p c hc hg)

section Read

variable {rest : List Message}

theorem mem_frames_read (hout : y.out = msg :: rest)
    (hm : m ∈ ({ y with out := rest } : Side).frames) : m ∈ y.frames := by
  rcases mem_append.mp hm with hm | hm
  · exact mem_append_left _ hm
  · exact mem_append_right _ (by rw [hout]; exact mem_cons_of_mem _ hm)

theorem head_mem_frames (hout : y.out = msg :: rest) : msg ∈ y.frames :=
  mem_append_right _ (by rw [hout]; exact mem_cons_self)

theorem Local.read (h : Local y) (hout : y.out = msg :: rest) : Local { y with out := rest } :=
  { h with
    sent := fun m hm => h.sent m (mem_frames_read hout hm)
    requests := fun m hm => h.requests m (mem_frames_read hout hm) }

theorem Takes.replies (ht : Takes x.ep msg (dispatchFrame x.ep (wire msg))) (h : Replies x y)
    (hy : Local y) (hout : y.out = msg :: rest) :
    Replies (x.receive msg) { y with out := rest } := by
  intro hn m hm hg
  rcases mem_frames_receive hm with hm | hm
  · have ⟨hq, hb⟩ := ht.grants m hm hg
    rw [hb]
    exact hy.requests msg (head_mem_frames hout) hq hn
  · exact h hn m hm hg

theorem Takes.replies_peer (ht : Takes x.ep msg (dispatchFrame x.ep (wire msg)))
    (h : Replies y x) (hout : y.out = msg :: rest) :
    Replies { y with out := rest } (x.receive msg) :=
  fun hn m hm hg =>
    ht.awaits (h (fun hs => hn (ht.selected hs)) m (mem_frames_read hout hm) hg)

end Read

-- No data frame comes before the first frame that selects the peer.
def Ahead : List Message → Prop
  | [] => True
  | m :: rest => ¬isData m ∧ (selects m ∨ Ahead rest)

theorem ahead_snoc {ms : List Message} :
    Ahead (ms ++ [m]) ↔ Ahead ms ∧ (isData m → ms.any selects) := by
  induction ms
  case nil => simp [Ahead]
  case cons x ms ih =>
    simp only [cons_append, Ahead, ih, any_cons, Bool.or_eq_true]
    tauto

-- Every data frame that is on its way finds the peer selected.
def Covered (x y : Side) : Prop :=
  y.ep.state = .selected ∨ Ahead x.out

theorem Moves.covered_iff (hm : Moves x a x') : Covered x' y ↔
    Covered x y ∧ (x.writesData a → y.ep.state = .selected ∨ x.out.any selects) := by
  unfold Covered
  rcases hm.out with ⟨ho, hw⟩ | ⟨m, ho, hw⟩
  · rw [ho, hw]
    exact (and_iff_left Bool.noConfusion).symm
  · rw [ho, hw, ahead_snoc]
    tauto

theorem Takes.selected_iff (ht : Takes x.ep msg (dispatchFrame x.ep (wire msg)))
    (h : Replies y x) (hm : msg ∈ y.frames) :
    (x.receive msg).ep.state = .selected ↔ x.ep.state = .selected ∨ selects msg := by
  constructor
  case mp  => exact fun hs => (ht.commits hs).imp_right decide_eq_true
  case mpr =>
    intro hs
    by_cases hx : x.ep.state = .selected
    case pos => exact ht.selected hx
    case neg =>
      rcases of_decide_eq_true (hs.resolve_left hx) with hq | hg
      · exact ht.responds hq
      · exact ht.completes hg (h hx msg hm hg)

theorem Takes.covered_iff (ht : Takes x.ep msg (dispatchFrame x.ep (wire msg))) (h : Replies y x)
    (hout : y.out = msg :: rest) (hd : isData msg → x.ep.state = .selected) :
    Covered { y with out := rest } (x.receive msg) ↔ Covered y x := by
  unfold Covered
  rw [ht.selected_iff h (head_mem_frames hout), hout, Ahead]
  tauto

variable {s : State} {b : Bool}

-- What every run keeps until a data frame is refused.
structure Inv (s : State) : Prop where
  sides   : ∀ b, Local (s b)
  replies : ∀ b, Replies (s b) (s !b)

theorem forall_sides {P : Side → Side → Prop} (h : P (s b) (s !b)) (h' : P (s !b) (s b)) (c : Bool) :
    P (s c) (s !c) := by
  rcases Bool.eq_or_eq_not c b with rfl | rfl
  · exact h
  · rwa [Bool.not_not]

theorem next_own : next s (.own b a) b = (s b).next a ∧ next s (.own b a) (!b) = s !b :=
  ⟨update_self .., update_of_ne (Bool.not_ne_self b) ..⟩

theorem next_dispatch (hout : (s !b).out = msg :: rest) :
    next s (.dispatch b) b = (s b).receive msg ∧
    next s (.dispatch b) (!b) = { s !b with out := rest } := by
  simp [next, hout]

theorem Inv.peer (h : Inv s) (b : Bool) : Replies (s !b) (s b) := by
  have h := h.replies !b
  rwa [Bool.not_not] at h

theorem inv_own (h : Inv s) (hg : (s b).guard a) : Inv (next s (.own b a)) := by
  have hm := moves (h.sides b) hg
  have ⟨hself, hpeer⟩ := @next_own a s b
  constructor
  case sides =>
    refine forall_sides (P := fun x _ => Local x) (b := b) ?_ ?_
    · rw [hself]; exact hm.local (h.sides b)
    · rw [hpeer]; exact h.sides _
  case replies =>
    refine forall_sides (b := b) ?_ ?_ <;> rw [hself, hpeer]
    · exact hm.replies (h.replies b)
    · exact hm.replies_peer (h.peer b)

theorem Inv.takes (h : Inv s) (hout : (s !b).out = msg :: rest) (hacc : accepts s (.dispatch b)) :
    Takes (s b).ep msg (dispatchFrame (s b).ep (wire msg)) ∧
    (isData msg → (s b).ep.state = .selected) := by
  have hd : isData msg → (s b).ep.state = .selected := by
    have hacc := of_decide_eq_true hacc
    rwa [hout] at hacc
  exact ⟨Session.takes (h.sides b).live (h.sides b).connected
    ((h.sides !b).sent msg (head_mem_frames hout)) hd, hd⟩

theorem exists_head (hg : guard s (.dispatch b)) : ∃ msg rest, (s !b).out = msg :: rest := by
  have ⟨_, ho⟩ := of_decide_eq_true hg
  exact exists_cons_of_ne_nil fun hn => by rw [hn] at ho; exact Bool.noConfusion ho

theorem inv_next {a : Action} (h : Inv s) (hg : guard s a) (hacc : accepts s a) :
    Inv (next s a) := by
  cases a
  case own b a => exact inv_own h hg
  case dispatch b =>
    have ⟨msg, rest, hout⟩ := exists_head hg
    have ⟨ht, _⟩ := h.takes hout hacc
    have ⟨hself, hpeer⟩ := next_dispatch hout
    constructor
    case sides =>
      refine forall_sides (P := fun x _ => Local x) (b := b) ?_ ?_
      · rw [hself]; exact ht.local (h.sides b)
      · rw [hpeer]; exact (h.sides _).read hout
    case replies =>
      refine forall_sides (b := b) ?_ ?_ <;> rw [hself, hpeer]
      · exact ht.replies (h.replies b) (h.sides _) hout
      · exact ht.replies_peer (h.peer b) hout

def AllCovered (s : State) : Prop :=
  ∀ b, Covered (s b) (s !b)

theorem allCovered_iff (b : Bool) :
    AllCovered s ↔ Covered (s b) (s !b) ∧ Covered (s !b) (s b) := by
  constructor
  case mp =>
    intro h
    have h' := h !b
    rw [Bool.not_not] at h'
    exact ⟨h b, h'⟩
  case mpr => exact fun h => forall_sides h.left h.right

theorem allCovered_next {a : Action} (h : Inv s) (hg : guard s a) (hacc : accepts s a) :
    AllCovered (next s a) ↔ AllCovered s ∧ selectedAhead s a := by
  cases a
  case own b a =>
    have hm := moves (h.sides b) hg
    have ⟨hself, hpeer⟩ := @next_own a s b
    have hback : Covered (s !b) ((s b).next a) ↔ Covered (s !b) (s b) := by
      unfold Covered
      rw [hm.state]
    rw [allCovered_iff b, allCovered_iff b, hself, hpeer, hm.covered_iff, hback, selectedAhead,
      decide_eq_true_iff]
    tauto
  case dispatch b =>
    have ⟨msg, rest, hout⟩ := exists_head hg
    have ⟨ht, hd⟩ := h.takes hout hacc
    have ⟨hself, hpeer⟩ := next_dispatch hout
    rw [allCovered_iff b, allCovered_iff b, hself, hpeer, ht.covered_iff (h.peer b) hout hd]
    exact (and_iff_left rfl).symm

theorem accepts_of_covered {a : Action} (h : AllCovered s) : accepts s a := by
  cases a
  case own => rfl
  case dispatch b =>
    refine decide_eq_true fun hd => ((allCovered_iff b).mp h).right.resolve_right fun ha => ?_
    cases hout : (s !b).out <;> rw [hout] at hd ha
    case nil  => exact Bool.noConfusion hd
    case cons => exact ha.left hd

theorem unrefused_of_inv (h : Inv s) : Unrefused s := by
  intro b m hm hr
  have ⟨ht, h3⟩ := of_decide_eq_true hr
  have hs := (h.sides b).sent m hm
  cases m
  case data => exact nomatch ht
  case control m =>
    have ht : MsgType.ofSType m.header.h5 = .rejectReq := ht
    rcases hs.right with h5 | h5 | ⟨_, hn⟩
    · rw [h5] at ht; exact nomatch ht
    · rw [h5] at ht; exact nomatch ht
    · exact hn h3

theorem inv_init (h : session.init s) : Inv s ∧ AllCovered s := by
  have hs (b : Bool) : Local (s b) ∧ (s b).frames = [] ∧ (s b).out = [] := by
    have ⟨opts, active, sb, sb', hb⟩ := h b
    rw [hb]
    refine ⟨?_, rfl, rfl⟩
    exact {
      live := rfl
      connected := ConnState.noConfusion
      sent := fun _ => (nomatch ·)
      requests := fun _ => (nomatch ·)
      proc := (nomatch ·)
      users := fun _ => (nomatch ·)
      cleared := fun _ _ _ => (nomatch ·)
      results := fun _ _ => (nomatch ·) }
  refine ⟨⟨fun b => (hs b).left, fun b _ m hm => ?_⟩, fun b => .inr ?_⟩
  · rw [(hs b).right.left] at hm
    exact nomatch hm
  · rw [(hs b).right.right]
    trivial

-- From a link that just came up: no data frame is refused exactly where each is written behind a
-- frame that selects the peer.
theorem data_accepted_iff {as : List Action} (h : session.init s) (r : session.Run s as) :
    (session.Steps (fun s a => selectedAhead s a) s as →
      session.Steps (fun s a => accepts s a) s as ∧ session.Along Unrefused s as) ∧
    ((∀ b, (session.exec s as b).out = []) → session.Steps (fun s a => accepts s a) s as →
      session.Steps (fun s a => selectedAhead s a) s as) := by
  have ⟨hi, hc⟩ := inv_init h
  have hiff : AllCovered s ∧ session.Steps (fun s a => selectedAhead s a) s as ↔
      session.Steps (fun s a => accepts s a) s as ∧ AllCovered (session.exec s as) :=
    Machine.steps_iff_accepted inv_next (fun _ hP _ => accepts_of_covered hP) allCovered_next hi r
  constructor
  case left =>
    intro hs
    have ⟨hacc, _⟩ := hiff.mp ⟨hc, hs⟩
    exact ⟨hacc, Machine.along_of_steps inv_next unrefused_of_inv hi r hacc⟩
  case right =>
    intro hout hacc
    refine (hiff.mpr ⟨hacc, fun b => .inr ?_⟩).right
    rw [hout b]
    trivial

def linkUp : State :=
  fun b => { active := b }

theorem linkUp_init : session.init linkUp :=
  fun b => ⟨{}, b, _, _, rfl⟩

def areYouThere : DataMessage where
  header := { Header.zero with h2 := 0x01, h3 := 1, h9 := 1 }
  body := .tree .empty
  dec := none

-- The passive endpoint answers the Select before its user writes.
def responseFirst : List Action :=
  [.own true .register, .own true .request, .dispatch false, .own false .respond,
    .own false .drain, .own false (.gate 0 areYouThere .noReply), .own false .flush,
    .own false (.write 0), .dispatch true, .own true .conclude, .dispatch true]

theorem data_accepted_iff_responseFirst :
    session.Run linkUp responseFirst ∧
    session.Steps (fun s a => accepts s a) linkUp responseFirst ∧
    (session.exec linkUp responseFirst true).ep.state = .selected ∧
    session.Steps (fun s a => selectedAhead s a) linkUp responseFirst :=
  have run : session.Run linkUp responseFirst := by decide +kernel
  have ⟨suff, nec⟩ := data_accepted_iff linkUp_init run
  have acc := (suff (by decide +kernel)).left
  ⟨run, acc, rfl, nec (fun b => by cases b <;> rfl) acc⟩

-- The user of the passive endpoint writes as soon as the link is selected, before the response is
-- enqueued.
def dataFirst : List Action :=
  [.own true .register, .own true .request, .dispatch false,
    .own false (.gate 0 areYouThere .noReply), .own false (.write 0), .own false .respond,
    .own false .drain, .own false .flush, .dispatch true]

theorem dataFirst_refused :
    session.init linkUp ∧ session.Run linkUp dataFirst ∧
    ¬session.Steps (fun s a => accepts s a) linkUp dataFirst ∧
    ¬Unrefused (session.exec linkUp dataFirst) :=
  ⟨linkUp_init, by decide +kernel, by decide +kernel,
    fun h => h true _ (List.mem_append_left _ (List.mem_append_left _ (List.mem_append_left _
      (List.mem_singleton_self _)))) (by decide +kernel)⟩

end Hsmsss.Session
