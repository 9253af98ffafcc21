import GoSecs.Hsmsss.Dispatch

open Hsms

namespace Hsmsss.Session

inductive Mode
  | waitReply
  | noReply
  | async
deriving DecidableEq

-- A user goroutine: it has passed the Selected gate with a message, or waits for its reply.
inductive User
  | idle
  | cleared (m : DataMessage) (mode : Mode)
  | waiting (key : SysBytes)

-- The Select procedure with the wait that it has registered.
inductive Proc
  | idle
  | registered (p : Nat)
  | waiting    (p : Nat)
  | done

-- `answers` are the frames about to be enqueued, `sender` is the frame taken from the queue and not
-- yet written and `out` are the frames on their way to the peer.
structure Side where
  ep : Endpoint := {}
  active : Bool := false
  selectBytes : SysBytes := { s0 := 0, s1 := 0, s2 := 0, s3 := 1 }
  proc : Proc := .idle
  answers : List Message := []
  sendCh : List Message := []
  sender : Option Message := none
  users : Nat → User := fun _ => .idle
  out : List Message := []

inductive Step
  | respond
  | drain
  | flush
  | register
  | request
  | conclude
  | gate   (i : Nat) (m : DataMessage) (mode : Mode)
  | write  (i : Nat)
  | finish (i : Nat)

def isData : Message → Bool
  | .data _    => true
  | .control _ => false

namespace Side

-- A data message passes a gate only on a selected link.
def admits (sd : Side) (msg : Message) : Bool :=
  isData msg → sd.ep.state = .selected

def writeFrame (sd : Side) (msg : Message) : Side :=
  if sd.admits msg then { sd with out := sd.out ++ [msg] } else sd

def enqueueAsync (sd : Side) (msg : Message) : Side :=
  if sd.admits msg then { sd with sendCh := sd.sendCh ++ [msg] } else sd

def setUser (sd : Side) (i : Nat) (u : User) : Side :=
  { sd with users := Function.update sd.users i u }

def setReg (sd : Side) (reg : ReplyRegistry) : Side :=
  { sd with ep := { sd.ep with reg } }

-- The receive goroutine takes a frame up to the point where it enqueues its answer.
def receive (sd : Side) (msg : Message) : Side :=
  { sd with
    ep := (dispatchFrame sd.ep (wire msg)).endpoint
    answers := (dispatchFrame sd.ep (wire msg)).answers }

def selectReq (sd : Side) : Message :=
  .control (newSelectReq controlSessionID sd.selectBytes)

-- A send that waits for its reply opens the wait before it writes.
def next (sd : Side) : Step → Side
  | .respond =>
    match sd.answers with
    | [] => sd
    | msg :: rest => { sd with answers := rest }.enqueueAsync msg
  | .drain =>
    match sd.sendCh with
    | [] => sd
    | msg :: rest => { sd with sendCh := rest, sender := some msg }
  | .flush =>
    match sd.sender with
    | none => sd
    | some msg => { sd with sender := none }.writeFrame msg
  | .register =>
    { sd with proc := .registered sd.ep.reg.size }.setReg
      (sd.ep.reg.registerControl sd.selectBytes)
  | .request =>
    match sd.proc with
    | .registered p => { sd with proc := .waiting p }.writeFrame sd.selectReq
    | _ => sd
  | .conclude => { sd with proc := .done }.setReg (sd.ep.reg.deregister sd.selectBytes)
  | .gate i m mode =>
    if sd.admits (.data m) then
      (sd.setUser i (.cleared m mode)).setReg
        (if mode = .waitReply then sd.ep.reg.registerData m.header else sd.ep.reg)
    else sd
  | .write i =>
    match sd.users i with
    | .cleared m .waitReply => (sd.setUser i (.waiting m.header.systemBytes)).writeFrame (.data m)
    | .cleared m .noReply => (sd.setUser i .idle).writeFrame (.data m)
    | .cleared m .async => { sd.setUser i .idle with sendCh := sd.sendCh ++ [.data m] }
    | _ => sd
  | .finish i =>
    match sd.users i with
    | .waiting key => (sd.setUser i .idle).setReg (sd.ep.reg.deregister key)
    | _ => sd

end Side

def User.isIdle : User → Bool
  | .idle => true
  | _ => false

def User.isCleared : User → Bool
  | .cleared _ _ => true
  | _ => false

def Proc.isIdle : Proc → Bool
  | .idle => true
  | _ => false

def Proc.isRegistered : Proc → Bool
  | .registered _ => true
  | _ => false

def isSelectRsp (status : UInt8) (msg : Message) : Bool :=
  msg.type = .selectRsp ∧ msg.header.h3 = status

def ofStatus (status : UInt8) (c : Candidate) : Bool :=
  c.res.msg.any (isSelectRsp status)

-- The Select procedure returns without a fault: the peer answered with status 0, or with status 1
-- after the link was selected by the peer's own request.
def Side.concludes (sd : Side) : Bool :=
  match sd.proc with
  | .waiting p =>
    (sd.ep.reg.waiters p).ch.any fun c =>
      ofStatus selectStatusSuccess c ∨
        ofStatus selectStatusAlreadyActive c ∧ sd.ep.state = .selected
  | _ => false

def Side.guard (sd : Side) : Step → Bool
  | .respond => sd.answers.isEmpty = false
  | .drain => sd.sender.isNone ∧ sd.sendCh.isEmpty = false
  | .flush => sd.sender.isSome
  | .register => sd.active ∧ sd.proc.isIdle
  | .request => sd.proc.isRegistered
  | .conclude => sd.concludes
  | .gate i m _ => (sd.users i).isIdle ∧ m.header.h4 = 0 ∧ m.header.h5 = MsgType.data.code
  | .write i => (sd.users i).isCleared
  | .finish i => ¬(sd.users i).isIdle ∧ ¬(sd.users i).isCleared

abbrev State := Bool → Side

inductive Action
  | dispatch (b : Bool)
  | own      (b : Bool) (a : Step)

def next (s : State) : Action → State
  | .dispatch b =>
    match (s !b).out with
    | [] => s
    | msg :: rest => fun c => if c = b then (s b).receive msg else { s c with out := rest }
  | .own b a => Function.update s b ((s b).next a)

-- The receive goroutine reads on when it has enqueued its answer.
def guard (s : State) : Action → Bool
  | .dispatch b => (s b).answers.isEmpty ∧ (s !b).out.isEmpty = false
  | .own b a    => (s b).guard a

-- An endpoint on a link that just came up.
def Fresh (sd : Side) : Prop :=
  ∃ opts active selectBytes systemBytes, sd = {
    ep := { opts, systemBytes }
    active, selectBytes }

def session : Machine State Action where
  init s := ∀ b, Fresh (s b)
  guard s a := guard s a
  next := next

instance (s : State) (a : Action) : Decidable (session.guard s a) :=
  inferInstanceAs (Decidable (guard s a = true))

-- The frames of an endpoint that the peer has not taken yet.
def Side.frames (sd : Side) : List Message :=
  sd.answers ++ sd.sendCh ++ sd.sender.toList ++ sd.out

def Side.hasData (sd : Side) : Step → Bool
  | .flush   => sd.sender.any isData
  | .write i =>
    match sd.users i with
    | .cleared _ mode => mode ≠ .async
    | _ => false
  | _ => false

def Side.writesData (sd : Side) (a : Step) : Bool :=
  sd.ep.state = .selected ∧ sd.hasData a

-- The frames that make the peer selected when it takes them.
def selects (msg : Message) : Bool :=
  msg.type = .selectReq ∨ isSelectRsp selectStatusSuccess msg

-- A data frame is written when the peer is selected or a frame that selects it is ahead.
def selectedAhead (s : State) : Action → Bool
  | .dispatch _ => true
  | .own b a    =>
    (s b).writesData a → (s !b).ep.state = .selected ∨ (s b).out.any selects

def accepts (s : State) : Action → Bool
  | .dispatch b => (s !b).out.head?.any isData → (s b).ep.state = .selected
  | .own _ _    => true

def refuses (msg : Message) : Bool :=
  msg.type = .rejectReq ∧ msg.header.h3 = rejectNotSelected

-- No Reject.req with the reason NotSelected was emitted.
def Unrefused (s : State) : Prop :=
  ∀ b, ∀ m ∈ (s b).frames, ¬refuses m

end Hsmsss.Session
