import GoSecs.Hsms.Supervisor

namespace Hsms.Lifecycle

open Supervisor (Epoch)

-- Where a reconnect loop stands. It waits for the generation `prev` to end and publishes the
-- generation `e`.
inductive LoopPc
  | idle
  | awaiting (prev : Nat)
  | barrier  (prev : Nat)
  | sleeping (prev : Nat)
  | checking (prev : Nat)
  | building (prev : Nat)
  | starting (e : Nat)
  | failing  (e : Nat)
  | handing  (e : Nat)
  | done
deriving DecidableEq

def LoopPc.isRunning : LoopPc → Bool
  | idle | done => false
  | _ => true

-- A loop with the fence base and the cancel channel that it was launched with.
structure Loop where
  pc : LoopPc := .idle
  gen : Nat := 0
  cancel : Nat := 0
deriving DecidableEq

-- The call that holds `lifeMu`. The steps from `fencing` on are those of `Close` and of the
-- rollback of an `Open`, which carries the generation whose `Start` failed.
inductive Life
  | free
  | opening
  | bumped
  | reset
  | joined
  | installed
  | starting   (e : Nat)
  | failed     (e : Nat)
  | cold       (e : Nat)
  | closing
  | fencing    (failed : Option Nat)
  | shut       (failed : Option Nat)
  | pinned     (failed : Option Nat) (e : Nat)
  | cancelled  (failed : Option Nat) (e : Nat)
  | requested  (failed : Option Nat) (e : Nat)
  | waited     (failed : Option Nat) (e : Nat)
  | straggling (e : Nat)
  | leaving    (failed : Option Nat)
  | stopped    (failed : Option Nat)
deriving DecidableEq

def Life.holdsPublishMu : Life → Bool
  | fencing _ | shut _ => true
  | _ => false

-- The `evClose` of the call is not injected yet.
def Life.beforeRequest : Life → Bool
  | shut _ | pinned _ _ | cancelled _ _ => true
  | _ => false

-- The connection over all its cycles. `conn` is the supervisor of the current cycle, and `archive`
-- keeps the epochs of earlier ones, up to `base`. `cancel` is the cancel channel installed,
-- `closes` counts how often each was closed, and `spawning` is the epoch that a drop is about to
-- start a loop for.
structure State where
  conn : Supervisor.State := {}
  base : Nat := 0
  archive : Nat → Epoch := fun _ => {}
  opened : Bool := false
  running : Bool := false
  shutdown : Bool := false
  reconnectGen : Nat := 0
  cancel : Nat := 0
  closes : Nat → Nat := fun _ => 0
  done : Nat → Bool := fun _ => false
  startReturned : Nat → Bool := fun _ => false
  spawning : Option Nat := none
  loops : Nat → Loop := fun _ => {}
  loopSeq : Nat := 0
  life : Life := .free

inductive Action
  | openCall
  | publish
  | started
  | startFailed
  | retry
  | closeCall
  | closeReturn
  | fence
  | call
  | supervisor  (a : Supervisor.Action)
  | spawn
  | join        (e : Nat)
  | loop        (l : Nat)
  | loopStopped (l : Nat)
  | loopStarted (l : Nat)
  | loopFailed  (l : Nat)
deriving DecidableEq

namespace State

def epoch (s : State) (e : Nat) : Epoch :=
  if e ≤ s.base then s.archive e else s.conn.epochs e

def isPublished (s : State) (e : Nat) : Bool :=
  0 < e ∧ e ≤ s.conn.genSeq

def onConn (s : State) (a : Supervisor.Action) : State :=
  { s with conn := Supervisor.next s.conn a }

def setLoop (s : State) (l : Nat) (pc : LoopPc) : State :=
  { s with loops := Function.update s.loops l { s.loops l with pc } }

-- Closes the epoch's `startReturned`.
def release (s : State) (e : Nat) : State :=
  { s with startReturned := Function.update s.startReturned e true }

def startConnectLoop (s : State) (prev : Nat) : State :=
  { s with
    loops   := Function.update s.loops s.loopSeq
      { pc := .awaiting prev, gen := s.reconnectGen, cancel := s.cancel }
    loopSeq := s.loopSeq + 1 }

-- The fence that a loop checks.
def stale (s : State) (l : Loop) : Bool :=
  s.shutdown ∨ s.reconnectGen ≠ l.gen

-- `Open` publishes the first epoch of its cycle and makes a fresh supervisor.
def publish (s : State) : State :=
  { s with
    conn := Supervisor.next { genSeq := s.conn.genSeq } .publish
    base := s.conn.genSeq
    archive := s.epoch
    opened := true
    running := true
    life := .starting (s.conn.genSeq + 1) }

-- The next step of the call that holds `lifeMu`, where it has one way to go.
def call (s : State) : State :=
  match s.life with
  | .opening => { s with reconnectGen := s.reconnectGen + 1, life := .bumped }
  | .bumped => { s with shutdown := false, life := .reset }
  | .reset => { s with life := .joined }
  | .joined => { s with cancel := s.cancel + 1, life := .installed }
  | .cold e => { (s.release e).startConnectLoop e with life := .free }
  | .fencing f => { s.onConn .requestClose with shutdown := true, life := .shut f }
  | .shut f => { s with life := .pinned f s.conn.curGen }
  | .pinned f e =>
    { s with
      closes := Function.update s.closes s.cancel (s.closes s.cancel + 1)
      life   := .cancelled f e }
  | .cancelled f e =>
    match f with
    | none    => { s with life := .requested f e }
    | some e' => { s.release e' with life := .requested f e }
  | .requested f e => { s with life := .waited f e }
  | .waited f e    =>
    match f with
    | none    => { s with life := .leaving f }
    | some e' =>
      if e ≠ e' then { s.onConn (.teardown e') with life := .straggling e' }
      else { s with life := .leaving f }
  | .straggling e => { s with life := .leaving (some e) }
  | .leaving f => { s with running := false, life := .stopped f }
  | .stopped _ => { s with life := .free }
  | _ => s

def loop (s : State) (l : Nat) : State :=
  match (s.loops l).pc with
  | .awaiting prev => s.setLoop l (.barrier prev)
  | .barrier prev => s.setLoop l (.sleeping prev)
  | .sleeping prev => s.setLoop l (.checking prev)
  | .checking prev => s.setLoop l (if s.stale (s.loops l) then .done else .building prev)
  | .building _ =>
    if s.stale (s.loops l) then s.setLoop l .done
    else (s.onConn .publish).setLoop l (.starting (s.conn.genSeq + 1))
  | .failing e =>
    (s.release e).setLoop l (if (s.epoch e).tcpUpCommitted then .handing e else .sleeping e)
  | .handing e => (s.onConn (.tcpDown e .unknown)).setLoop l .done
  | _ => s

-- The reaction to a drop starts a loop unless the connection is shut down.
def supervisor (s : State) (a : Supervisor.Action) : State :=
  match a, s.conn.pc with
  | .fsm, .resolved _ _ _ e =>
    { s.onConn .fsm with spawning := if s.conn.shutdown then none else some e }
  | _, _ => s.onConn a

end State

def next (s : State) : Action → State
  | .openCall => { s with life := .opening }
  | .publish => s.publish
  | .started =>
    match s.life with
    | .starting e => { s.release e with life := .free }
    | _ => s
  | .startFailed =>
    match s.life with
    | .starting e => { s.onConn (.markEnded e) with life := .failed e }
    | _ => s
  | .retry =>
    match s.life with
    | .failed e => { s.onConn (.teardown e) with life := .cold e }
    | _ => s
  | .closeCall => { s with life := .closing }
  | .closeReturn => { s with life := .free }
  | .fence =>
    { s with
      reconnectGen := s.reconnectGen + 1
      life := .fencing (match s.life with | .failed e => some e | _ => none) }
  | .call => s.call
  | .supervisor a => s.supervisor a
  | .spawn =>
    match s.spawning with
    | some e => { s.startConnectLoop e with spawning := none }
    | none   => s
  | .join e => { s with done := Function.update s.done e true }
  | .loop l => s.loop l
  | .loopStopped l => s.setLoop l .done
  | .loopStarted l =>
    match (s.loops l).pc with
    | .starting e => (s.release e).setLoop l .done
    | _ => s
  | .loopFailed l  =>
    match (s.loops l).pc with
    | .starting e => (s.onConn (.teardown e)).setLoop l (.failing e)
    | _ => s

namespace State

-- `connectLoopWg` has nothing to wait for.
def loopsDone (s : State) : Bool :=
  ∀ l < s.loopSeq, ¬(s.loops l).pc.isRunning

def callGuard (s : State) : Bool :=
  match s.life with
  | .opening | .bumped | .joined | .fencing _ | .shut _ | .pinned _ _ | .cancelled _ _ => true
  | .reset => s.loopsDone
  | .cold e => s.done e
  | .requested _ e => s.done e
  | .waited f e => f = none ∨ f = some e ∨ s.conn.gate = []
  | .straggling e => s.done e
  | .leaving _ => s.conn.pc = .idle ∧ s.spawning = none
  | .stopped _ => s.loopsDone
  | _ => false

def loopGuard (s : State) (l : Nat) : Bool :=
  match (s.loops l).pc with
  | .awaiting prev => s.done prev
  | .barrier prev => s.startReturned prev
  | .sleeping _ | .checking _ | .handing _ => true
  | .building _ => ¬s.life.holdsPublishMu
  | .failing e => s.done e
  | _ => false

-- What the goroutines other than the calls and the loops do to the connection.
def supervisorGuard (s : State) : Supervisor.Action → Bool
  | .publish | .requestClose | .markEnded _ | .teardown _ => false
  | .enqueue cmd => cmd.ev = .close → ¬s.life.beforeRequest
  | .fsm => s.running ∧ s.spawning = none
  | _ => true

end State

def guard (s : State) : Action → Bool
  | .openCall => s.life = .free ∧ (¬s.opened ∨ s.shutdown)
  | .publish => s.life = .installed
  | .started => match s.life with | .starting _ => true | _ => false
  | .startFailed => match s.life with | .starting _ => s.conn.gate = [] | _ => false
  | .retry =>
    match s.life with
    | .failed e =>
      s.conn.state = .notConnected ∧ ¬(s.conn.epochs e).tcpUpCommitted ∧ s.conn.gate = []
    | _ => false
  | .closeCall => s.life = .free
  | .closeReturn => s.life = .closing ∧ (s.conn.cur = none ∨ ¬s.running)
  | .fence =>
    match s.life with
    | .closing => s.conn.cur ≠ none ∧ s.running
    | .failed _ => true
    | _ => false
  | .call => s.callGuard
  | .supervisor a => s.supervisorGuard a ∧ Supervisor.connection.guard s.conn a
  | .spawn => s.spawning.isSome
  | .join e => s.isPublished e ∧ (s.epoch e).torn
  | .loop l => s.loopGuard l
  | .loopStopped l =>
    match (s.loops l).pc with
    | .barrier _ | .sleeping _ => s.closes (s.loops l).cancel > 0
    | _ => false
  | .loopStarted l => match (s.loops l).pc with | .starting _ => true | _ => false
  | .loopFailed l  => match (s.loops l).pc with | .starting _ => s.conn.gate = [] | _ => false

def lifecycle : Machine State Action where
  init s := s = {}
  guard s a := guard s a
  next := next

instance (s : State) (a : Action) : Decidable (lifecycle.guard s a) :=
  inferInstanceAs (Decidable (guard s a = true))

end Hsms.Lifecycle
