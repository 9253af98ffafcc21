import GoSecs.Hsmsss.Handshake
import GoSecs.Hsmsss.Theorems.Session

open Hsms List Function

namespace Hsmsss.Handshake

variable {sd x y x' y' : Side} {s : State} {b : Bool} {msg : Message} {req : ControlMessage}
  {rest : List Message} {ep : Endpoint}

inductive Token
  | req       (msg : Message)
  | committed (req : ControlMessage)
  | rsp       (msg : Message)

def isReq (msg : Message) : Bool :=
  msg.type = .selectReq

-- The part of a transaction of the peer that the receive goroutine is busy with.
def Recv.peer : Recv → List Token
  | request req => [.req (.control req)]
  | latch req => [.committed req]
  | answer answers => answers.map .rsp
  | _ => []

def Recv.own : Recv → List Token
  | response msg => [.rsp (.control msg)]
  | _ => []

def Side.frames (sd : Side) : List Message :=
  sd.out ++ sd.sender.toList ++ sd.sendCh

def Side.requests (sd : Side) : List Token :=
  (sd.frames.filter isReq).map .req

def Side.responses (sd : Side) : List Token :=
  (sd.frames.filter fun m => !isReq m).map .rsp

-- The transaction of `x` with the responder `y`, from its end to its beginning.
def tokens (x y : Side) : List Token :=
  x.recv.own ++ y.responses ++ y.recv.peer ++ x.requests

structure Waits (sd : Side) (p : Nat) : Prop where
  key  : sd.ep.reg.m sd.selectBytes = some p
  wait : sd.ep.reg.waiters p = {}

structure IsRsp (sd : Side) (status : UInt8) (msg : Message) : Prop where
  type   : msg.type = .selectRsp
  bytes  : msg.header.systemBytes = sd.selectBytes
  status : msg.header.h3 = status

-- The Select procedure has its answer, or will take it, and goes along with it.
inductive Settled (sd : Side) : Prop
  | waiting : sd.proc = .waiting p → (sd.ep.reg.waiters p).ch = [c] →
               grants sd.selectedOnce c.res → Settled sd
  | answered : sd.proc = .answered res → grants sd.selectedOnce res → Settled sd
  | done : sd.proc = .done → Settled sd

abbrev Side.selected (sd : Side) : Prop :=
  sd.ep.state = .selected

def Recv.isGranted : Recv → Bool
  | granted => true
  | _ => false

-- The receive goroutine has routed an own response and is not done with it.
def Recv.isCommitting : Recv → Bool
  | granted | latchOwn => true
  | _ => false

-- The procedure waits for its answer, and `ts` is what there is of the transaction.
structure Open (x y : Side) (p : Nat) (ts : List Token) : Prop where
  proc   : x.proc = .waiting p
  waits  : Waits x p
  free   : x.recv.isCommitting = false
  tokens : tokens x y = ts

-- How far the transaction of `x` with the responder `y` has come. As long as `y` has not handled the
-- request, `y` is selected only by an answer of `x`, which is latched by then.
inductive Stage (x y : Side) : Prop
  | idle : x.proc = .idle → x.recv.isCommitting = false → tokens x y = [] →
                (y.selected → x.selectedOnce) → Stage x y
  | ready : x.proc = .registered p → Waits x p → x.recv.isCommitting = false →
                tokens x y = [] → (y.selected → x.selectedOnce) → Stage x y
  | sent : Open x y p [.req (.control x.selectReq)] → (y.selected → x.selectedOnce) → Stage x y
  | committed : Open x y p [.committed x.selectReq] → y.selected → Stage x y
  | accepted : Open x y p [.rsp m] → IsRsp x selectStatusSuccess m → y.selected →
                y.selectedOnce → Stage x y
  | refused : Open x y p [.rsp m] → IsRsp x selectStatusAlreadyActive m → y.selected →
                x.selectedOnce → Stage x y
  | routed : Settled x → x.recv.isGranted = true → tokens x y = [] → y.selected →
                y.selectedOnce → Stage x y
  | closed : Settled x → x.recv.isGranted = false → tokens x y = [] → y.selected →
                x.selected → Stage x y

-- What holds of one endpoint next to its transaction.
structure Local (x y : Side) : Prop where
  live : x.ep.live
  connected : x.ep.state ≠ .notConnected
  latched : x.selectedOnce → x.selected
  dispatched : 0 < x.dispatched → x.selected ∧ y.selected
  stage : Stage x y

theorem tokens_of_own (x' : Side) (hf : x'.frames = x.frames) (ho : x'.recv.own = x.recv.own) :
    tokens x' y = tokens x y := by
  simp only [tokens, Side.requests, hf, ho]

theorem tokens_of_peer (x' : Side) (hf : x'.frames = x.frames) (hp : x'.recv.peer = x.recv.peer) :
    tokens y x' = tokens y x := by
  simp only [tokens, Side.responses, hf, hp]

theorem tokens_nil (ht : tokens x y = []) (hf : x'.frames = x.frames) (ho : x'.recv.own = []) :
    tokens x' y = [] := by
  have hown : x.recv.own = [] := by simp_all [tokens]
  exact (tokens_of_own x' hf (ho.trans hown.symm)).trans ht

theorem grants_mono {once once' : Bool} {res : ReplyResult} (ho : once → once')
    (h : grants once res) : grants once' res := by
  unfold grants at h ⊢
  split at h
  case h_1 =>
    have ⟨ht, hs⟩ := of_decide_eq_true h
    exact decide_eq_true ⟨ht, hs.imp_right (And.imp_right ho)⟩
  case h_2 => cases h

structure Same (x y x' y' : Side) : Prop where
  proc : x'.proc = x.proc
  reg : x'.ep.reg = x.ep.reg
  bytes : x'.selectBytes = x.selectBytes
  committing : x'.recv.isCommitting = x.recv.isCommitting
  granted : x'.recv.isGranted = x.recv.isGranted
  tokens : tokens x' y' = tokens x y
  once : x.selectedOnce → x'.selectedOnce
  selected : x.selected → x'.selected
  peerOnce : y.selectedOnce → y'.selectedOnce
  peer : y.selected → y'.selected
  unpeer : y'.selected → y.selected ∨ x'.selectedOnce

theorem Waits.same (hs : Same x y x' y') (h : Waits x p) : Waits x' p :=
  ⟨by rw [hs.reg, hs.bytes, h.key], by rw [hs.reg, h.wait]⟩

theorem IsRsp.same (hs : Same x y x' y') (h : IsRsp x code msg) : IsRsp x' code msg :=
  ⟨h.type, h.bytes.trans hs.bytes.symm, h.status⟩

theorem Open.same {ts : List Token} (hs : Same x y x' y') (h : Open x y p ts) : Open x' y' p ts :=
  ⟨hs.proc.trans h.proc, h.waits.same hs, hs.committing.trans h.free, hs.tokens.trans h.tokens⟩

theorem Settled.congr (h : Settled x) (hp : x'.proc = x.proc) (hr : x'.ep.reg = x.ep.reg)
    (ho : x.selectedOnce → x'.selectedOnce) : Settled x' := by
  cases h
  case waiting h hc hg => exact .waiting (hp.trans h) (hr ▸ hc) (grants_mono ho hg)
  case answered h hg => exact .answered (hp.trans h) (grants_mono ho hg)
  case done h => exact .done (hp.trans h)

theorem Settled.same (hs : Same x y x' y') (h : Settled x) : Settled x' :=
  h.congr hs.proc hs.reg hs.once

theorem Stage.same (hs : Same x y x' y') (h : Stage x y) : Stage x' y' := by
  have hreq : x'.selectReq = x.selectReq := by rw [Side.selectReq, hs.bytes, Side.selectReq]
  have hj (h : y.selected → x.selectedOnce) (hy : y'.selected) : x'.selectedOnce :=
    (hs.unpeer hy).elim (fun hy => hs.once (h hy)) id
  cases h
  case idle hp hc ht h =>
    exact .idle (hs.proc.trans hp) (hs.committing.trans hc) (hs.tokens.trans ht) (hj h)
  case ready hp hw hc ht h =>
    exact .ready (hs.proc.trans hp) (hw.same hs) (hs.committing.trans hc) (hs.tokens.trans ht) (hj h)
  case sent ho h => exact .sent (hreq ▸ ho.same hs) (hj h)
  case committed ho hy => exact .committed (hreq ▸ ho.same hs) (hs.peer hy)
  case accepted ho hm hy h => exact .accepted (ho.same hs) (hm.same hs) (hs.peer hy) (hs.peerOnce h)
  case refused ho hm hy h => exact .refused (ho.same hs) (hm.same hs) (hs.peer hy) (hs.once h)
  case routed hx hg ht hy h =>
    exact .routed (hx.same hs) (hs.granted.trans hg) (hs.tokens.trans ht) (hs.peer hy) (hs.peerOnce h)
  case closed hx hg ht hy h =>
    exact .closed (hx.same hs) (hs.granted.trans hg) (hs.tokens.trans ht) (hs.peer hy) (hs.selected h)

theorem Local.same (h : Local x y) (hs : Same x y x' y') (live : x'.ep.live)
    (connected : x'.ep.state ≠ .notConnected) (latched : x'.selectedOnce → x'.selected)
    (hd : x'.dispatched = x.dispatched) : Local x' y' where
  live := live
  connected := connected
  latched := latched
  dispatched := fun h' => (h.dispatched (hd ▸ h')).imp hs.selected hs.peer
  stage := h.stage.same hs

theorem Local.peer (h : Local x y) (ht : tokens x y' = tokens x y) (once : y.selectedOnce → y'.selectedOnce)
    (sel : y.selected → y'.selected) (unsel : y'.selected → y.selected ∨ x.selectedOnce) :
    Local x y' :=
  h.same ⟨rfl, rfl, rfl, rfl, rfl, ht, id, id, once, sel, unsel⟩ h.live h.connected h.latched rfl

theorem Local.moved (h : Local x y) (hep : x'.ep = x.ep) (hb : x'.selectBytes = x.selectBytes)
    (hp : x'.proc = x.proc) (ho : x'.selectedOnce = x.selectedOnce)
    (hc : x'.recv.isCommitting = x.recv.isCommitting) (hg : x'.recv.isGranted = x.recv.isGranted)
    (hd : x'.dispatched = x.dispatched) (ht : tokens x' y' = tokens x y)
    (hy : y'.ep = y.ep) (hy' : y'.selectedOnce = y.selectedOnce) : Local x' y' := by
  have hs : Same x y x' y' := by
    refine ⟨hp, by rw [hep], hb, hc, hg, ht, ?_, ?_, ?_, ?_, ?_⟩
    · exact fun h => ho.trans h
    · exact fun h => (congrArg Endpoint.state hep).trans h
    · exact fun h => hy'.trans h
    · exact fun h => (congrArg Endpoint.state hy).trans h
    · exact fun h => .inl ((congrArg Endpoint.state hy).symm.trans h)
  refine h.same hs (hep ▸ h.live) (hep ▸ h.connected) (fun hx => hs.selected (h.latched ?_)) hd
  exact ho.symm.trans hx

theorem Stage.type_of_rsp (h : Stage x y) (hm : .rsp msg ∈ tokens x y) : msg.type = .selectRsp := by
  cases h
  case accepted ho hr _ _ | refused ho hr _ _ =>
    rw [ho.tokens, mem_singleton] at hm
    cases hm
    exact hr.type
  case sent ho _ | committed ho _ => simp [ho.tokens] at hm
  all_goals simp_all

theorem isReading_iff : x.isReading ↔ x.recv = .idle := by
  unfold Side.isReading
  split <;> simp_all

theorem tokens_read {m : ControlMessage} (hr : x.recv = .idle) (ho : y.out = .control m :: rest) :
    tokens (x.dispatch (.control m)) { y with out := rest } = tokens x y ∧
    tokens { y with out := rest } (x.dispatch (.control m)) = tokens y x := by
  by_cases hm : m.type = .selectReq
  case pos =>
    have hq : isReq (.control m) := decide_eq_true hm
    simp [tokens, Side.dispatch, hm, Recv.own, Recv.peer, Side.responses, Side.requests, Side.frames,
      hr, ho, hq]
  case neg =>
    have hq : isReq (.control m) = false := decide_eq_false hm
    simp [tokens, Side.dispatch, hm, Recv.own, Recv.peer, Side.responses, Side.requests, Side.frames,
      hr, ho, hq]

theorem exists_control (h : Stage x y) (ho : y.out = msg :: rest) :
    ∃ m, msg = .control m := by
  cases msg
  case control m => exact ⟨m, rfl⟩
  case data dm   =>
    have hmem : Token.rsp (.data dm) ∈ tokens x y := by
      simp [tokens, Side.responses, Side.frames, ho, isReq, Message.type]
    have ht := h.type_of_rsp hmem
    cases ht

theorem dispatch_recv {m : ControlMessage} (hr : x.recv = .idle) :
    (x.dispatch (.control m)).recv.isCommitting = x.recv.isCommitting ∧
    (x.dispatch (.control m)).recv.isGranted = x.recv.isGranted := by
  unfold Side.dispatch
  dsimp only
  split <;> simp [hr, Recv.isCommitting, Recv.isGranted]

theorem local_read (hx : Local x y) (hy : Local y x) (hr : x.recv = .idle)
    (ho : y.out = msg :: rest) :
    Local (x.dispatch msg) { y with out := rest } ∧ Local { y with out := rest } (x.dispatch msg) := by
  have ⟨m, hm⟩ := exists_control hx.stage ho
  subst hm
  have ⟨ht, ht'⟩ := tokens_read hr ho
  have ⟨hc, hg⟩ := dispatch_recv (m := m) hr
  have hkeep : (x.dispatch (.control m)).ep = x.ep ∧
      (x.dispatch (.control m)).selectBytes = x.selectBytes ∧
      (x.dispatch (.control m)).proc = x.proc ∧
      (x.dispatch (.control m)).selectedOnce = x.selectedOnce ∧
      (x.dispatch (.control m)).dispatched = x.dispatched := by
    unfold Side.dispatch
    dsimp only
    split <;> exact ⟨rfl, rfl, rfl, rfl, rfl⟩
  have ⟨he, hb, hp, ho', hd⟩ := hkeep
  exact ⟨hx.moved he hb hp ho' hc hg hd ht rfl rfl, hy.moved rfl rfl rfl rfl rfl rfl rfl ht' he ho'⟩

theorem local_frames (hx : Local x y) (hy : Local y x) (hf : x'.frames = x.frames)
    (hep : x'.ep = x.ep) (hb : x'.selectBytes = x.selectBytes) (hp : x'.proc = x.proc)
    (ho : x'.selectedOnce = x.selectedOnce) (hr : x'.recv = x.recv) (hd : x'.dispatched = x.dispatched) :
    Local x' y ∧ Local y x' := by
  have hown := tokens_of_own (y := y) x' hf (by rw [hr])
  have hpeer := tokens_of_peer (y := y) x' hf (by rw [hr])
  exact ⟨hx.moved hep hb hp ho (by rw [hr]) (by rw [hr]) hd hown rfl rfl,
    hy.moved rfl rfl rfl rfl rfl rfl rfl hpeer hep ho⟩

theorem local_answer {answers : List Message} (hx : Local x y) (hy : Local y x)
    (hr : x.recv = .answer answers) :
    Local { x with recv := .idle, sendCh := x.sendCh ++ answers } y ∧
    Local y { x with recv := .idle, sendCh := x.sendCh ++ answers } := by
  have hrsp : ∀ m ∈ answers, isReq m = false := by
    intro m hm
    have hmem : Token.rsp m ∈ tokens y x := by
      simp [tokens, hr, Recv.peer, hm]
    simp [isReq, hy.stage.type_of_rsp hmem]
  have hreq : answers.filter isReq = [] := filter_eq_nil_iff.mpr fun m hm => by simp [hrsp m hm]
  have hall : answers.filter (fun m => !isReq m) = answers :=
    filter_eq_self.mpr fun m hm => by simp [hrsp m hm]
  refine ⟨hx.moved rfl rfl rfl rfl ?_ ?_ rfl ?_ rfl rfl, hy.moved rfl rfl rfl rfl rfl rfl rfl ?_ rfl rfl⟩
  · simp [hr, Recv.isCommitting]
  · simp [hr, Recv.isGranted]
  · simp [tokens, Side.requests, Side.frames, hr, Recv.own, hreq]
  · simp [tokens, Side.responses, Side.frames, hr, Recv.peer, hall]

theorem waits_register : Waits ({ x with proc := .registered x.ep.reg.size }.setReg
    (x.ep.reg.registerControl x.selectBytes)) x.ep.reg.size :=
  ⟨update_self .., update_self ..⟩

theorem Settled.not_idle (h : Settled x) : x.proc ≠ .idle ∧ ∀ p, x.proc ≠ .registered p := by
  cases h
  case waiting hp _ _ => rw [hp]; exact ⟨nofun, nofun⟩
  case answered hp _ => rw [hp]; exact ⟨nofun, nofun⟩
  case done hp => rw [hp]; exact ⟨nofun, nofun⟩

theorem local_register (hx : Local x y) (hy : Local y x) (hp : x.proc = .idle) :
    Local (x.next .register) y ∧ Local y (x.next .register) := by
  refine ⟨⟨hx.live, hx.connected, hx.latched, hx.dispatched, ?_⟩,
    hy.peer rfl id id .inl⟩
  cases hx.stage
  case idle _ hc ht hj => exact .ready rfl waits_register hc ht hj
  case ready h _ _ _ _ => cases hp.symm.trans h
  case sent h _ | committed h _ | accepted h _ _ _ | refused h _ _ _ => cases hp.symm.trans h.proc
  case routed hs _ _ _ _ | closed hs _ _ _ _ => exact absurd hp hs.not_idle.1

theorem tokens_request (ht : tokens x y = []) :
    tokens { x with proc := .waiting p, out := x.out ++ [.control x.selectReq], sent := n } y =
      [.req (.control x.selectReq)] := by
  have hq : isReq (.control x.selectReq) := rfl
  simp only [tokens, append_eq_nil_iff, Side.requests, Side.frames, filter_append,
    map_append] at ht ⊢
  have ⟨⟨⟨h₁, h₂⟩, h₃⟩, ⟨h₄, h₅⟩, h₆⟩ := ht
  simp [h₁, h₂, h₃, h₄, h₅, h₆, hq]

theorem local_request (hx : Local x y) (hy : Local y x) (hp : x.proc = .registered p) :
    Local (x.next .request) y ∧ Local y (x.next .request) := by
  have hn : x.next .request = { x with
      proc := .waiting p, out := x.out ++ [.control x.selectReq], sent := x.sent + 1 } := by
    simp only [Side.next, hp]
  have hq : isReq (.control x.selectReq) := rfl
  rw [hn]
  refine ⟨⟨hx.live, hx.connected, hx.latched, hx.dispatched, ?_⟩, hy.peer ?_ id id .inl⟩
  · cases hx.stage
    case ready h hw hc ht hj =>
      cases hp.symm.trans h
      exact .sent ⟨rfl, ⟨hw.key, hw.wait⟩, hc, tokens_request ht⟩ hj
    case idle h _ _ _ => cases hp.symm.trans h
    case sent h _ | committed h _ | accepted h _ _ _ | refused h _ _ _ => cases hp.symm.trans h.proc
    case routed hs _ _ _ _ | closed hs _ _ _ _ => exact absurd hp (hs.not_idle.2 p)
  · simp [tokens, Side.responses, Side.frames, hq]

theorem isRsp_answer (hl : ep.live) (status : UInt8) :
    ∃ m, ep.sendResponse (newSelectRsp x.selectReq status) = [m] ∧ IsRsp x status m := by
  refine ⟨_, if_pos hl, ?_⟩
  exact ⟨rfl, rfl, rfl⟩

theorem Stage.of_request (h : Stage y x) (hr : x.recv = .request req) :
    ∃ p, Open y x p [.req (.control y.selectReq)] ∧ req = y.selectReq ∧
      (x.selected → y.selectedOnce) := by
  have hmem : Token.req (.control req) ∈ tokens y x := by
    simp [tokens, hr, Recv.peer]
  cases h
  case sent p ho hj =>
    rw [ho.tokens, mem_singleton] at hmem
    cases hmem
    exact ⟨p, ho, rfl, hj⟩
  case committed ho _ | accepted ho _ _ _ | refused ho _ _ _ => simp [ho.tokens] at hmem
  all_goals simp_all

theorem Stage.of_latch (h : Stage y x) (hr : x.recv = .latch req) :
    ∃ p, Open y x p [.committed y.selectReq] ∧ req = y.selectReq ∧ x.selected := by
  have hmem : Token.committed req ∈ tokens y x := by
    simp [tokens, hr, Recv.peer]
  cases h
  case committed p ho hs =>
    rw [ho.tokens, mem_singleton] at hmem
    cases hmem
    exact ⟨p, ho, rfl, hs⟩
  case sent ho _ | accepted ho _ _ _ | refused ho _ _ _ => simp [ho.tokens] at hmem
  all_goals simp_all

theorem Open.handled (h : Open y x p [t']) (hr : x.recv.peer = [t]) (hf : x'.frames = x.frames) :
    Open y x' p x'.recv.peer := by
  have hl := congrArg List.length h.tokens
  simp only [Handshake.tokens, hr, length_append, length_singleton] at hl
  have h₁ : y.recv.own = [] := eq_nil_of_length_eq_zero (by omega)
  have h₂ : x.responses = [] := eq_nil_of_length_eq_zero (by omega)
  have h₃ : y.requests = [] := eq_nil_of_length_eq_zero (by omega)
  have h₂ : x'.responses = [] := by
    rw [Side.responses, hf]
    exact h₂
  exact ⟨h.proc, h.waits, h.free, by simp [Handshake.tokens, h₁, h₂, h₃]⟩

theorem commitSelected_cases (hl : ep.live) (hc : ep.state ≠ .notConnected) :
    (ep.state = .notSelected ∧ ep.commitSelected = ({ ep with state := .selected }, true)) ∨
    (ep.state = .selected ∧ ep.commitSelected = (ep, false)) := by
  have ⟨opts, state, live, reg, sb⟩ := ep
  cases hl
  cases state
  case notConnected => exact absurd rfl hc
  case notSelected => exact .inl ⟨rfl, rfl⟩
  case selected => exact .inr ⟨rfl, rfl⟩

theorem Local.handled (h : Local x y) (hn : x.recv.own = []) (hn' : x'.recv.own = [])
    (hf : x'.frames = x.frames) (hp : x'.proc = x.proc) (hreg : x'.ep.reg = x.ep.reg)
    (hb : x'.selectBytes = x.selectBytes) (hc : x'.recv.isCommitting = x.recv.isCommitting)
    (hg : x'.recv.isGranted = x.recv.isGranted) (ho : x.selectedOnce → x'.selectedOnce)
    (hl : x'.ep.live) (hs : x'.selected) (hd : x'.dispatched = x.dispatched) : Local x' y := by
  have ht : tokens x' y = tokens x y := tokens_of_own x' hf (hn'.trans hn.symm)
  refine h.same ⟨hp, hreg, hb, hc, hg, ht, ho, fun _ => hs, id, id, .inl⟩ hl ?_ (fun _ => hs) hd
  rw [show x'.ep.state = .selected from hs]
  exact ConnState.noConfusion

theorem local_commit (hx : Local x y) (hy : Local y x) (hr : x.recv = .request req) :
    Local (x.commit req) y ∧ Local y (x.commit req) := by
  have ⟨p, ho, hreq, hj⟩ := hy.stage.of_request hr
  have hpeer : x.recv.peer = [.req (.control req)] := by rw [hr]; rfl
  have hown : x.recv.own = [] := by rw [hr]; rfl
  have hfree : x.recv.isCommitting = false := by rw [hr]; rfl
  have hgr : x.recv.isGranted = false := by rw [hr]; rfl
  rcases commitSelected_cases hx.live hx.connected with ⟨hs, he⟩ | ⟨hs, he⟩
  case inl =>
    have hn : x.commit req =
        { x with ep := { x.ep with state := .selected }, recv := .latch req } := by
      rw [Side.commit, he]
    rw [hn]
    refine ⟨hx.handled hown rfl rfl rfl rfl rfl hfree.symm hgr.symm id hx.live rfl rfl,
      hy.live, hy.connected, hy.latched, fun hd => ⟨(hy.dispatched hd).1, rfl⟩, ?_⟩
    subst hreq
    exact .committed (ho.handled hpeer rfl) rfl
  case inr =>
    have ⟨m, ha, hm⟩ := isRsp_answer (x := y) hx.live selectStatusAlreadyActive
    have hn : x.commit req = { x with recv := .answer [m] } := by
      rw [Side.commit, he, hreq]
      dsimp only
      rw [ha]
    rw [hn]
    refine ⟨hx.handled hown rfl rfl rfl rfl rfl hfree.symm hgr.symm id hx.live hs rfl,
      hy.live, hy.connected, hy.latched, fun hd => ⟨(hy.dispatched hd).1, hs⟩, ?_⟩
    exact .refused (ho.handled hpeer rfl) hm hs (hj hs)

theorem local_latch (hx : Local x y) (hy : Local y x) (hr : x.recv = .latch req) :
    Local (x.latch req) y ∧ Local y (x.latch req) := by
  have ⟨p, ho, hreq, hs⟩ := hy.stage.of_latch hr
  have hpeer : x.recv.peer = [.committed req] := by rw [hr]; rfl
  have hown : x.recv.own = [] := by rw [hr]; rfl
  have hfree : x.recv.isCommitting = false := by rw [hr]; rfl
  have hgr : x.recv.isGranted = false := by rw [hr]; rfl
  have ⟨m, ha, hm⟩ := isRsp_answer (x := y) hx.live selectStatusSuccess
  have hn : x.latch req = { x with selectedOnce := true, recv := .answer [m] } := by
    rw [Side.latch, hreq, ha]
  rw [hn]
  refine ⟨hx.handled hown rfl rfl rfl rfl rfl hfree.symm hgr.symm (fun _ => rfl) hx.live hs rfl,
    hy.live, hy.connected, hy.latched, fun hd => ⟨(hy.dispatched hd).1, hs⟩, ?_⟩
  exact .accepted (ho.handled hpeer rfl) hm hs rfl

theorem routeReply_hit {m : ControlMessage} (hl : x.ep.live) (hw : Waits x p)
    (hm : IsRsp x code (.control m)) : ∃ reg c,
    x.ep.routeReply (.control m) = ({ x.ep with reg }, true) ∧ (reg.waiters p).ch = [c] ∧
      c.res = { msg := some (.control m) } := by
  have hres : (Message.control m).result = { msg := some (.control m) } := by
    rw [Message.result, hm.type]
    rfl
  let c := Candidate.reply x.selectBytes { msg := some (.control m) } x.ep.opts.strictReplyMatching
  have hroute : x.ep.reg.route x.selectBytes { msg := some (.control m) }
      x.ep.opts.strictReplyMatching = (x.ep.reg.complete p c, true, false) := by
    rw [ReplyRegistry.route, hw.key]
    dsimp only
    rw [hw.wait]
    rfl
  refine ⟨x.ep.reg.complete p c, c, ?_, ?_, rfl⟩
  · rw [Endpoint.routeReply, if_pos hl]
    unfold routeReplyOn
    dsimp only
    rw [hm.bytes, hres, hroute]
  · rw [ReplyRegistry.complete, ReplyRegistry.modify, hw.wait]
    dsimp only
    rw [update_self]
    rfl

theorem message_of_response {m : ControlMessage} (hr : x.recv = .response m)
    (ht : tokens x y = [.rsp msg]) : msg = .control m := by
  have hown : x.recv.own = [.rsp (.control m)] := by rw [hr]; rfl
  simp only [tokens, hown, cons_append, List.cons.injEq, Token.rsp.injEq] at ht
  exact ht.1.symm

theorem tokens_route {m : ControlMessage} (hr : x.recv = .response m)
    (ht : tokens x y = [.rsp (.control m)]) (hf : x'.frames = x.frames) (hr' : x'.recv.own = []) :
    tokens x' y = [] := by
  have hown : x.recv.own = [.rsp (.control m)] := by rw [hr]; rfl
  simp only [tokens, hown, cons_append, List.cons.injEq, append_eq_nil_iff] at ht
  have ⟨_, ⟨⟨_, h₁⟩, h₂⟩, h₃⟩ := ht
  have h₃ : x'.requests = [] := by
    rw [Side.requests, hf]
    exact h₃
  simp [tokens, hr', h₁, h₂, h₃]

theorem local_route {m : ControlMessage} (hx : Local x y) (hy : Local y x)
    (hr : x.recv = .response m) : Local (x.route m) y ∧ Local y (x.route m) := by
  have hmem : Token.rsp (.control m) ∈ tokens x y := by
    simp [tokens, hr, Recv.own]
  have hpeer : x.recv.peer = [] := by rw [hr]; rfl
  cases hx.stage
  case accepted p msg h hm hs ho =>
    have ⟨hp, hw, hc, ht⟩ := h
    cases message_of_response hr ht
    have ⟨reg, c, he, hch, hres⟩ := routeReply_hit hx.live hw hm
    have hn : x.route m = { x with ep := { x.ep with reg }, recv := .granted } := by
      rw [Side.route, he]
      exact if_pos ⟨hm.type, hm.status⟩
    rw [hn]
    refine ⟨⟨hx.live, hx.connected, hx.latched, hx.dispatched, ?_⟩, hy.peer ?_ id id .inl⟩
    · refine .routed (.waiting hp hch ?_) rfl (tokens_route hr ht rfl rfl) hs ho
      rw [hres]
      exact decide_eq_true ⟨hm.type, .inl hm.status⟩
    · exact tokens_of_peer _ rfl hpeer.symm
  case refused p msg h hm hs ho =>
    have ⟨hp, hw, hc, ht⟩ := h
    cases message_of_response hr ht
    have ⟨reg, c, he, hch, hres⟩ := routeReply_hit hx.live hw hm
    have hne : ¬((Message.control m).type = .selectRsp ∧
        (Message.control m).header.h3 = selectStatusSuccess) := by
      rw [hm.status]
      exact fun h => absurd h.2 (by decide)
    have hn : x.route m = { x with ep := { x.ep with reg } }.dispatchedRsp := by
      rw [Side.route, he]
      exact if_neg hne
    have hsel := hx.latched ho
    rw [hn]
    refine ⟨⟨hx.live, hx.connected, hx.latched, fun _ => ⟨hsel, hs⟩, ?_⟩, hy.peer ?_ id id .inl⟩
    · refine .closed (.waiting hp hch ?_) rfl (tokens_route hr ht rfl rfl) hs hsel
      rw [hres]
      exact decide_eq_true ⟨hm.type, .inr ⟨hm.status, ho⟩⟩
    · exact tokens_of_peer _ rfl hpeer.symm
  case sent h _ | committed h _ => simp [h.tokens] at hmem
  all_goals simp_all

theorem Stage.of_granted (h : Stage x y) (hr : x.recv = .granted) :
    Settled x ∧ tokens x y = [] ∧ y.selected ∧ y.selectedOnce := by
  cases h
  case routed hs _ ht hy ho => exact ⟨hs, ht, hy, ho⟩
  case sent h _ | committed h _ | accepted h _ _ _ | refused h _ _ _ => exact nomatch hr ▸ h.free
  all_goals simp_all [Recv.isCommitting, Recv.isGranted]

theorem Stage.of_latchOwn (h : Stage x y) (hr : x.recv = .latchOwn) :
    Settled x ∧ tokens x y = [] ∧ y.selected ∧ x.selected := by
  cases h
  case closed hs _ ht hy hx => exact ⟨hs, ht, hy, hx⟩
  case sent h _ | committed h _ | accepted h _ _ _ | refused h _ _ _ => exact nomatch hr ▸ h.free
  all_goals simp_all [Recv.isCommitting, Recv.isGranted]

theorem local_commitOwn (hx : Local x y) (hy : Local y x) (hr : x.recv = .granted) :
    Local x.commitOwn y ∧ Local y x.commitOwn := by
  have ⟨hs, ht, hys, hyo⟩ := hx.stage.of_granted hr
  have hpeer : x.recv.peer = [] := by rw [hr]; rfl
  rcases commitSelected_cases hx.live hx.connected with ⟨hn, he⟩ | ⟨hn, he⟩
  case inl =>
    have hn : x.commitOwn = { x with ep := { x.ep with state := .selected }, recv := .latchOwn } := by
      rw [Side.commitOwn, he]
    rw [hn]
    refine ⟨⟨hx.live, ConnState.noConfusion, fun _ => rfl, fun _ => ⟨rfl, hys⟩, ?_⟩,
      hy.peer (tokens_of_peer _ rfl hpeer.symm) id (fun _ => rfl) fun _ => .inr hyo⟩
    exact .closed (hs.congr rfl rfl id) rfl (tokens_nil ht rfl rfl) hys rfl
  case inr =>
    have hc : x.commitOwn = x.dispatchedRsp := by
      rw [Side.commitOwn, he]
    rw [hc]
    refine ⟨⟨hx.live, hx.connected, hx.latched, fun _ => ⟨hn, hys⟩, ?_⟩,
      hy.peer (tokens_of_peer _ rfl hpeer.symm) id id .inl⟩
    exact .closed (hs.congr rfl rfl id) rfl (tokens_nil ht rfl rfl) hys hn

theorem local_latchOwn (hx : Local x y) (hy : Local y x) (hr : x.recv = .latchOwn) :
    Local (x.next .latchOwn) y ∧ Local y (x.next .latchOwn) := by
  have ⟨hs, ht, hys, hxs⟩ := hx.stage.of_latchOwn hr
  have hpeer : x.recv.peer = [] := by rw [hr]; rfl
  refine ⟨⟨hx.live, hx.connected, fun _ => hxs, fun _ => ⟨hxs, hys⟩, ?_⟩,
    hy.peer (tokens_of_peer _ rfl hpeer.symm) (fun _ => rfl) id .inl⟩
  exact .closed (hs.congr rfl rfl fun _ => rfl) rfl (tokens_nil ht rfl rfl) hys hxs

theorem Settled.conclude (h : Settled x) (hp : x.proc = .answered res) :
    x.next .conclude = { x with proc := .done } := by
  cases h
  case answered hp' hg =>
    cases hp.symm.trans hp'
    simp only [Side.next, hp, hg, if_true]
  case waiting hp' _ _ => cases hp.symm.trans hp'
  case done hp' => cases hp.symm.trans hp'

theorem Local.settled (hx : Local x y) (hy : Local y x) (hs : Settled x) (hs' : Settled x')
    (hst : x'.ep.state = x.ep.state) (hl : x'.ep.live = x.ep.live)
    (ho : x'.selectedOnce = x.selectedOnce) (hr : x'.recv = x.recv) (hf : x'.frames = x.frames)
    (hd : x'.dispatched = x.dispatched) (hn : ∀ p, ¬(x.proc = .waiting p ∧ Waits x p)) :
    Local x' y ∧ Local y x' := by
  have hsel : x'.selected ↔ x.selected := by rw [Side.selected, hst]
  have hown : tokens x' y = tokens x y := tokens_of_own x' hf (by rw [hr])
  refine ⟨⟨hl ▸ hx.live, hst ▸ hx.connected, ?_, ?_, ?_⟩,
    hy.peer (tokens_of_peer x' hf (by rw [hr])) (fun h => ho.trans h) hsel.mpr fun h => .inl (hsel.mp h)⟩
  · rw [ho, hsel]
    exact hx.latched
  · rw [hd, hsel]
    exact hx.dispatched
  · cases hx.stage
    case routed _ hg ht hy ho' => exact .routed hs' (hr ▸ hg) (hown.trans ht) hy ho'
    case closed _ hg ht hy hx => exact .closed hs' (hr ▸ hg) (hown.trans ht) hy (hsel.mpr hx)
    case idle h _ _ _ => exact absurd h hs.not_idle.1
    case ready h _ _ _ _ => exact absurd h (hs.not_idle.2 _)
    case sent h _ | committed h _ | accepted h _ _ _ | refused h _ _ _ =>
      exact absurd ⟨h.proc, h.waits⟩ (hn _)

theorem Stage.settled (h : Stage x y) (hi : x.proc ≠ .idle) (hr : ∀ p, x.proc ≠ .registered p)
    (hw : ∀ p, x.proc = .waiting p → ¬Waits x p) : Settled x := by
  cases h
  case idle h _ _ _    => exact absurd h hi
  case ready h _ _ _ _ => exact absurd h (hr _)
  case sent h _ | committed h _ | accepted h _ _ _ | refused h _ _ _ =>
    exact absurd h.waits (hw _ h.proc)
  case routed hs _ _ _ _ | closed hs _ _ _ _ => exact hs

theorem Stage.settled_of_result (h : Stage x y) (hp : x.proc = .waiting p)
    (hc : (x.ep.reg.waiters p).ch ≠ []) : Settled x := by
  refine h.settled (by simp [hp]) (by simp [hp]) fun q hq hw => hc ?_
  cases hp.symm.trans hq
  rw [hw.wait]

theorem Stage.settled_of_answered (h : Stage x y) (hp : x.proc = .answered res) : Settled x :=
  h.settled (by simp [hp]) (by simp [hp]) (by simp [hp])

theorem Stage.not_dropped (h : Stage x y) : x.proc ≠ .dropped := by
  intro hp
  cases h.settled (by simp [hp]) (by simp [hp]) (by simp [hp])
  case waiting h _ _ => cases hp.symm.trans h
  case answered h _ => cases hp.symm.trans h
  case done h => cases hp.symm.trans h

theorem local_reply (hx : Local x y) (hy : Local y x) (hp : x.proc = .waiting p)
    (hc : (x.ep.reg.waiters p).ch ≠ []) : Local (x.reply p) y ∧ Local y (x.reply p) := by
  have hs := hx.stage.settled_of_result hp hc
  have hs' := hs
  cases hs'
  case waiting c hp' hch hg =>
    cases hp.symm.trans hp'
    have hn : x.reply p = { x with proc := .answered c.res }.setReg
        ((x.ep.reg.modify p .receive).deregister x.selectBytes) := by
      rw [Side.reply, hch]
    rw [hn]
    refine hx.settled hy hs (.answered rfl hg) rfl rfl rfl rfl rfl rfl fun q hq => hc ?_
    cases hp.symm.trans hq.1
    rw [hq.2.wait]
  case answered hp' _ => cases hp.symm.trans hp'
  case done hp' => cases hp.symm.trans hp'

theorem local_conclude (hx : Local x y) (hy : Local y x) (hp : x.proc = .answered res) :
    Local (x.next .conclude) y ∧ Local y (x.next .conclude) := by
  have hs := hx.stage.settled_of_answered hp
  rw [hs.conclude hp]
  refine hx.settled hy hs (.done rfl) rfl rfl rfl rfl rfl rfl fun q hq => ?_
  cases hp.symm.trans hq.1

theorem local_next {a : Step} (hx : Local x y) (hy : Local y x) (hg : x.guard a) :
    Local (x.next a) y ∧ Local y (x.next a) := by
  cases a <;> simp only [Side.guard] at hg
  case commit =>
    split at hg
    case h_1 req hr =>
      simp only [Side.next, hr]
      exact local_commit hx hy hr
    case h_2 => cases hg
  case latch =>
    split at hg
    case h_1 req hr =>
      simp only [Side.next, hr]
      exact local_latch hx hy hr
    case h_2 => cases hg
  case answer =>
    split at hg
    case h_1 answers hr =>
      simp only [Side.next, hr]
      exact local_answer hx hy hr
    case h_2 => cases hg
  case route =>
    split at hg
    case h_1 m hr =>
      simp only [Side.next, hr]
      exact local_route hx hy hr
    case h_2 => cases hg
  case commitOwn =>
    split at hg
    case h_1 hr => exact local_commitOwn hx hy hr
    case h_2    => cases hg
  case latchOwn =>
    split at hg
    case h_1 hr => exact local_latchOwn hx hy hr
    case h_2    => cases hg
  case drain =>
    have ⟨hs, hc⟩ := of_decide_eq_true hg
    rcases hch : x.sendCh with _ | ⟨m, rest⟩
    case nil  => simp [hch] at hc
    case cons =>
      simp only [Side.next, hch]
      refine local_frames hx hy ?_ rfl rfl rfl rfl rfl rfl
      simp [Side.frames, Option.isNone_iff_eq_none.mp hs, hch]
  case flush =>
    refine local_frames hx hy ?_ rfl rfl rfl rfl rfl rfl
    simp [Side.next, Side.frames]
  case register =>
    split at hg
    case h_1 hp => exact local_register hx hy hp
    case h_2    => cases hg
  case request =>
    split at hg
    case h_1 p hp => exact local_request hx hy hp
    case h_2 => cases hg
  case reply =>
    split at hg
    case h_1 p hp =>
      simp only [Side.next, hp]
      refine local_reply hx hy hp fun hn => ?_
      simp [hn] at hg
    case h_2 => cases hg
  case conclude =>
    split at hg
    case h_1 res hp => exact local_conclude hx hy hp
    case h_2 => cases hg

def Inv (s : State) : Prop :=
  ∀ b, Local (s b) (s !b)

theorem inv_of_sides (b : Bool) (h : Local (s b) (s !b) ∧ Local (s !b) (s b)) : Inv s := by
  intro c
  cases b <;> cases c
  · exact h.1
  · exact h.2
  · exact h.2
  · exact h.1

theorem Fresh.local (hx : Fresh x) (hy : Fresh y) : Local x y := by
  have ⟨_, _, _, _, hx⟩ := hx
  have ⟨_, _, _, _, hy⟩ := hy
  subst hx hy
  exact ⟨rfl, ConnState.noConfusion, Bool.noConfusion, fun h => absurd h (Nat.lt_irrefl 0),
    .idle rfl rfl rfl ConnState.noConfusion⟩

theorem inv (h : link.Reachable s) : Inv s := by
  refine h.invariant (fun hi b => (hi b).local (hi !b)) fun {s a} _ hi hg => ?_
  cases a
  case read b =>
    have ⟨hr, ho⟩ := of_decide_eq_true hg
    refine inv_of_sides b ?_
    rcases hout : (s !b).out with _ | ⟨m, rest⟩
    case nil  => simp [hout] at ho
    case cons =>
      have hnext : next s (.read b) b = (s b).dispatch m ∧
          next s (.read b) (!b) = { s !b with out := rest } := by
        simp only [next, hout]
        exact ⟨if_pos trivial, if_neg (by cases b <;> decide)⟩
      show Local (next s (.read b) b) (next s (.read b) !b) ∧
        Local (next s (.read b) !b) (next s (.read b) b)
      rw [hnext.1, hnext.2]
      exact local_read (hi b) (by simpa using hi !b) (isReading_iff.mp hr) hout
  case own b a =>
    refine inv_of_sides b ?_
    have hne : (!b) ≠ b := by cases b <;> decide
    show Local (update s b ((s b).next a) b) (update s b ((s b).next a) !b) ∧
      Local (update s b ((s b).next a) !b) (update s b ((s b).next a) b)
    rw [update_self, update_of_ne hne]
    exact local_next (hi b) (by simpa using hi !b) hg

theorem Stage.of_response {m : ControlMessage} (h : Stage x y) (hr : x.recv = .response m)
    (hm : m.header.h3 = selectStatusAlreadyActive) : x.selectedOnce := by
  cases h
  case refused ho => exact ho
  case accepted h hrsp _ _ =>
    cases message_of_response hr h.tokens
    exact absurd (hrsp.status.symm.trans hm) (by decide)
  case sent h _ | committed h _ =>
    have ht := h.tokens
    simp [tokens, hr, Recv.own] at ht
  all_goals simp_all [tokens, Recv.own]

theorem simultaneous_select_converges (h : link.Reachable s) :
    (∀ b, (s b).proc ≠ .dropped) ∧
    (∀ b m, (s b).recv = .response m → m.type = .selectRsp →
      m.header.h3 = selectStatusAlreadyActive → (s b).selectedOnce ∧ (s b).ep.state = .selected) ∧
    ((∃ b, 0 < (s b).sent) → (∀ b, (s b).dispatched = (s b).sent) →
      ∀ b, (s b).ep.state = .selected) := by
  have hi := inv h
  refine ⟨fun b => (hi b).stage.not_dropped, fun b m hr _ hm => ?_, fun ⟨b, hsent⟩ hall c => ?_⟩
  · have ho := (hi b).stage.of_response hr hm
    exact ⟨ho, (hi b).latched ho⟩
  · have ⟨hx, hy⟩ := (hi b).dispatched ((hall b).symm ▸ hsent)
    rcases Bool.eq_or_eq_not c b with hc | hc <;> rw [hc]
    · exact hx
    · exact hy

section Crossing

def bothActive : State :=
  fun _ => { active := true }

-- The second request is written after the first one's response was dispatched, and is refused.
def oneAfterTheOther : List Action :=
  [.own false .register, .own true .register, .own false .request, .read true, .own true .commit,
    .own true .latch, .own true .answer, .own true .drain, .own true .flush, .read false,
    .own false .route, .own false .commitOwn, .own false .latchOwn, .own true .request, .read false,
    .own false .commit, .own false .answer, .own false .drain, .own false .flush, .read true,
    .own true .route, .own true .reply, .own true .conclude]

theorem simultaneous_select_converges_refused :
    (∀ b, (link.exec bothActive oneAfterTheOther b).proc ≠ .dropped) ∧
    ∀ b, (link.exec bothActive oneAfterTheOther b).ep.state = .selected :=
  have run : link.Run bothActive oneAfterTheOther := by decide +kernel
  have hinit : link.init bothActive := fun _ => ⟨{}, true, _, _, rfl⟩
  have ⟨hdrop, _, hsel⟩ := simultaneous_select_converges (.exec (.init hinit) run)
  ⟨hdrop, hsel ⟨true, by decide +kernel⟩ (by decide +kernel)⟩

end Crossing

section Dispatch

def Recv.answers : Recv → List Message
  | answer answers => answers
  | _ => []

def Side.handleRequest (sd : Side) (req : ControlMessage) : Side :=
  let sd := sd.commit req
  match sd.recv with
  | .latch req => sd.latch req
  | _ => sd

def Side.handleResponse (sd : Side) (msg : ControlMessage) : Side :=
  let sd := sd.route msg
  match sd.recv with
  | .granted => sd.commitOwn
  | _ => sd

-- Taken together, the steps are the dispatch of the frame.
theorem handleRequest_eq (h4 : req.header.h4 = 0) (h5 : req.header.h5 = MsgType.selectReq.code) :
    dispatchFrame x.ep (wire (.control req)) =
      { endpoint := (x.handleRequest req).ep, answers := (x.handleRequest req).recv.answers } := by
  rw [dispatch_selectReq h4 h5, Endpoint.handleSelectReq, Side.handleRequest, Side.commit]
  generalize x.ep.commitSelected = res
  rcases res with ⟨ep, _ | _⟩ <;> rfl

theorem handleResponse_eq {m : ControlMessage} (h4 : m.header.h4 = 0)
    (h5 : m.header.h5 = MsgType.selectRsp.code) (hr : m.replyExpected = false) :
    dispatchFrame x.ep (wire (.control m)) =
      { endpoint := (x.handleResponse m).ep, answers := (x.handleResponse m).recv.answers } := by
  have ht : MsgType.ofSType m.header.h5 = .selectRsp := by rw [h5]; rfl
  have ht' : m.type = .selectRsp := ht
  have hm : { header := m.header, replyExpected := false } = m := by rw [← hr]
  rw [dispatch_control h4 h5 MsgType.noConfusion MsgType.noConfusion, ht]
  dsimp only
  rw [hm, Endpoint.handleControlRsp, Side.handleResponse, Side.route]
  generalize x.ep.routeReply (.control m) = res
  rcases res with ⟨ep, _ | _⟩
  case false => simp [ht', Message.type, Recv.answers, Endpoint.sendRejectTransactionNotOpen]
  case true  =>
    by_cases hs : m.header.h3 = selectStatusSuccess
    case pos =>
      simp only [ht', Message.type, Message.header, hs, and_self, if_true, Side.commitOwn]
      generalize ep.commitSelected = res
      rcases res with ⟨ep', _ | _⟩ <;> rfl
    case neg =>
      simp [ht', Message.type, Message.header, hs, Side.dispatchedRsp, Recv.answers]

end Dispatch

end Hsmsss.Handshake
