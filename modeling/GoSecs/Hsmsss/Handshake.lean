import GoSecs.Hsmsss.Dispatch

-- Two endpoints of one connection that select it, with the commit, the latch and the answer as
-- steps of their own.

open Hsms

namespace Hsmsss.Handshake

-- Where the receive goroutine stands. A request is taken from its dispatch over the commit and the latch
-- to the answer, a response from its dispatch over the routing and the commit to the latch.
inductive Recv
  | idle
  | request  (req : ControlMessage)
  | latch    (req : ControlMessage)
  | answer   (answers : List Message)
  | response (msg : ControlMessage)
  | granted
  | latchOwn

-- The Select procedure with the wait that it has registered.
inductive Proc
  | idle
  | registered (p : Nat)
  | waiting    (p : Nat)
  | answered   (res : ReplyResult)
  | done
  | dropped

-- `sender` is the frame that the async sender has taken from the queue and not yet written and
-- `out` are the frames on their way to the peer. `sent` and `dispatched` count the requests written
-- and their responses dispatched.
structure Side where
  ep : Endpoint := {}
  active : Bool := false
  selectBytes : SysBytes := { s0 := 0, s1 := 0, s2 := 0, s3 := 1 }
  selectedOnce : Bool := false
  proc : Proc := .idle
  recv : Recv := .idle
  sendCh : List Message := []
  sender : Option Message := none
  out : List Message := []
  sent : Nat := 0
  dispatched : Nat := 0

inductive Step
  | commit
  | latch
  | answer
  | route
  | commitOwn
  | latchOwn
  | drain
  | flush
  | register
  | request
  | reply
  | conclude

-- The end of `runSelectProcedure`: whether it returns without dropping the link.
def grants (selectedOnce : Bool) (res : ReplyResult) : Bool :=
  match res.err, res.msg with
  | none, some msg =>
    msg.type = .selectRsp ∧ (msg.header.h3 = selectStatusSuccess ∨
      msg.header.h3 = selectStatusAlreadyActive ∧ selectedOnce)
  | _, _ => false

namespace Side

def setReg (sd : Side) (reg : ReplyRegistry) : Side :=
  { sd with ep := { sd.ep with reg } }

def selectReq (sd : Side) : ControlMessage :=
  newSelectReq controlSessionID sd.selectBytes

def dispatch (sd : Side) (msg : Message) : Side :=
  match msg with
  | .control m =>
    if m.type = .selectReq then { sd with recv := .request m } else { sd with recv := .response m }
  | .data _ => sd

def commit (sd : Side) (req : ControlMessage) : Side :=
  match sd.ep.commitSelected with
  | (ep, true)  => { sd with ep, recv := .latch req }
  | (ep, false) =>
    { sd with ep, recv := .answer (ep.sendResponse (newSelectRsp req selectStatusAlreadyActive)) }

def latch (sd : Side) (req : ControlMessage) : Side :=
  { sd with
    selectedOnce := true
    recv := .answer (sd.ep.sendResponse (newSelectRsp req selectStatusSuccess)) }

def dispatchedRsp (sd : Side) : Side :=
  { sd with recv := .idle, dispatched := sd.dispatched + 1 }

def route (sd : Side) (msg : ControlMessage) : Side :=
  match sd.ep.routeReply (.control msg) with
  | (ep, true) =>
    if msg.type = .selectRsp ∧ msg.header.h3 = selectStatusSuccess then
      { sd with ep, recv := .granted }
    else { sd with ep }.dispatchedRsp
  | (ep, false) =>
    if msg.type ≠ .rejectReq then
      { sd with ep, recv := .answer (ep.sendRejectTransactionNotOpen msg.header).answers }
    else { sd with ep, recv := .idle }

def commitOwn (sd : Side) : Side :=
  match sd.ep.commitSelected with
  | (ep, true)  => { sd with ep, recv := .latchOwn }
  | (ep, false) => { sd with ep }.dispatchedRsp

-- The wait is left when its result is taken.
def reply (sd : Side) (p : Nat) : Side :=
  match (sd.ep.reg.waiters p).ch with
  | [] => sd
  | c :: _ => { sd with proc := .answered c.res }.setReg
                ((sd.ep.reg.modify p .receive).deregister sd.selectBytes)

def next (sd : Side) : Step → Side
  | .commit =>
    match sd.recv with
    | .request req => sd.commit req
    | _ => sd
  | .latch =>
    match sd.recv with
    | .latch req => sd.latch req
    | _ => sd
  | .answer =>
    match sd.recv with
    | .answer answers => { sd with recv := .idle, sendCh := sd.sendCh ++ answers }
    | _ => sd
  | .route =>
    match sd.recv with
    | .response msg => sd.route msg
    | _ => sd
  | .commitOwn => sd.commitOwn
  | .latchOwn  => { sd with selectedOnce := true }.dispatchedRsp
  | .drain =>
    match sd.sendCh with
    | [] => sd
    | msg :: rest => { sd with sendCh := rest, sender := some msg }
  | .flush => { sd with sender := none, out := sd.out ++ sd.sender.toList }
  | .register =>
    { sd with proc := .registered sd.ep.reg.size }.setReg
      (sd.ep.reg.registerControl sd.selectBytes)
  | .request =>
    match sd.proc with
    | .registered p =>
      { sd with
        proc := .waiting p, out := sd.out ++ [.control sd.selectReq], sent := sd.sent + 1 }
    | _ => sd
  | .reply =>
    match sd.proc with
    | .waiting p => sd.reply p
    | _ => sd
  | .conclude =>
    match sd.proc with
    | .answered res => { sd with proc := if grants sd.selectedOnce res then .done else .dropped }
    | _ => sd

def guard (sd : Side) : Step → Bool
  | .commit => match sd.recv with | .request _ => true | _ => false
  | .latch => match sd.recv with | .latch _ => true | _ => false
  | .answer => match sd.recv with | .answer _ => true | _ => false
  | .route => match sd.recv with | .response _ => true | _ => false
  | .commitOwn => match sd.recv with | .granted => true | _ => false
  | .latchOwn => match sd.recv with | .latchOwn => true | _ => false
  | .drain => sd.sender.isNone ∧ sd.sendCh.isEmpty = false
  | .flush => sd.sender.isSome
  | .register => match sd.proc with | .idle => sd.active | _ => false
  | .request => match sd.proc with | .registered _ => true | _ => false
  | .reply =>
    match sd.proc with
    | .waiting p => (sd.ep.reg.waiters p).ch.isEmpty = false
    | _ => false
  | .conclude => match sd.proc with | .answered _ => true | _ => false

def isReading (sd : Side) : Bool :=
  match sd.recv with
  | .idle => true
  | _ => false

end Side

abbrev State := Bool → Side

inductive Action
  | read (b : Bool)
  | own  (b : Bool) (a : Step)

def next (s : State) : Action → State
  | .read b =>
    match (s !b).out with
    | [] => s
    | msg :: rest => fun c => if c = b then (s b).dispatch msg else { s c with out := rest }
  | .own b a => Function.update s b ((s b).next a)

def guard (s : State) : Action → Bool
  | .read b  => (s b).isReading ∧ (s !b).out.isEmpty = false
  | .own b a => (s b).guard a

-- An endpoint on a link that just came up.
def Fresh (sd : Side) : Prop :=
  ∃ opts active selectBytes systemBytes, sd = {
    ep := { opts, systemBytes }
    active, selectBytes }

def link : Machine State Action where
  init s := ∀ b, Fresh (s b)
  guard s a := guard s a
  next := next

instance (s : State) (a : Action) : Decidable (link.guard s a) :=
  inferInstanceAs (Decidable (guard s a = true))

end Hsmsss.Handshake
