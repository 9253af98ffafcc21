import GoSecs.Lib.Machine

namespace Hsms

inductive ConnState
  | notConnected
  | notSelected
  | selected
deriving DecidableEq

inductive TransitionCause
  | unknown
  | localOpen
  | localClose
  | selectAccepted
  | selectRejected
  | peerSeparate
  | peerDeselect
  | t6Timeout
  | t7Timeout
  | linktestFail
  | ioError
  | handlerExit
deriving DecidableEq

namespace Supervisor

inductive FsmEvent
  | tcpUp
  | selectAccepted
  | selectLost
  | disconnect
  | close
  | t7Timeout
deriving DecidableEq

-- An event on the queue. A generation of 0 means that its site named none.
structure FsmCommand where
  ev    : FsmEvent
  cause : TransitionCause
  gen   : Nat
deriving DecidableEq

-- The state table. An illegal pair yields the state itself and `false`.
def transition (cur : ConnState) : FsmEvent → ConnState × Bool
  | .tcpUp =>
    if cur = .notSelected ∨ cur = .selected then (cur, true) else (cur, false)
  | .selectAccepted =>
    if cur = .notSelected ∨ cur = .selected then (.selected, true) else (cur, false)
  | .selectLost =>
    if cur = .selected ∨ cur = .notSelected then (.notSelected, true) else (cur, false)
  | .disconnect =>
    if cur = .selected ∨ cur = .notSelected then (.notConnected, true) else (cur, false)
  | .t7Timeout =>
    if cur = .notSelected then (.notConnected, true) else (cur, false)
  | .close =>
    (.notConnected, true)

structure StateChange where
  prev   : ConnState
  next   : ConnState
  cause  : TransitionCause
  gen    : Nat
  socket : Nat
deriving DecidableEq

-- What one generation latches. `conn` tells whether it holds a socket, `torn` is its `closeOnce`.
structure Epoch where
  ended : Bool := false
  reachedSelected : Bool := false
  tcpUpAdmitted : Bool := false
  tcpUpCommitted : Bool := false
  commsFailure : Bool := false
  conn : Bool := false
  socket : Nat := 0
  torn : Bool := false

def Epoch.markEnded (e : Epoch) : Epoch :=
  { e with ended := true }

def Epoch.adoptConn (e : Epoch) (socket : Nat) : Epoch :=
  { e with conn := true, socket := socket }

def Epoch.teardown (e : Epoch) : Epoch :=
  if e.torn then e else { e with ended := true, conn := false, torn := true }

-- The three synchronous commits: TCP-up, Select and Select-lost.
inductive Kind
  | connected
  | selected
  | selectLost
deriving DecidableEq

namespace Kind

def old : Kind → ConnState
  | connected  => .notConnected
  | selected   => .notSelected
  | selectLost => .selected

def new : Kind → ConnState
  | connected  => .notSelected
  | selected   => .selected
  | selectLost => .notSelected

def ev : Kind → FsmEvent
  | connected  => .tcpUp
  | selected   => .selectAccepted
  | selectLost => .selectLost

def cause : Kind → TransitionCause
  | connected  => .localOpen
  | selected   => .selectAccepted
  | selectLost => .peerDeselect

end Kind

inductive Phase
  | admitting
  | swapping
  | leaving (committed : Bool)
deriving DecidableEq

-- A commit that was found live and now holds the read side of the generation gate.
structure Commit where
  kind  : Kind
  gen   : Nat
  id    : Nat
  phase : Phase
deriving DecidableEq

inductive Pc
  | idle
  | loading   (cmd : FsmCommand) (closing : Option Nat)
  | matching  (cmd : FsmCommand) (closing : Option Nat) (cur : ConnState)
  | storing   (cmd : FsmCommand) (closing : Option Nat) (cur next : ConnState)
  | firing    (cmd : FsmCommand) (closing : Option Nat) (next left : ConnState)
  | reacting  (cmd : FsmCommand) (closing : Option Nat) (prev : ConnState)
  | resolved  (cmd : FsmCommand) (closing : Option Nat) (prev : ConnState) (e : Nat)
  | tearing   (cmd : FsmCommand) (closing : Option Nat) (e : Nat)
  | finishing (cmd : FsmCommand) (closing : Option Nat)
  | ending    (e : Nat)
deriving DecidableEq

inductive Effect
  | emit             (sc : StateChange)
  | react            (prev next : ConnState) (cause : TransitionCause)
  | farewell         (gen : Nat)
  | startConnectLoop (gen : Nat)
deriving DecidableEq

-- One change of the state: who made it, for which generation, and which generation was current.
structure Change where
  byStep : Bool
  ev : FsmEvent
  named : Nat
  gen : Nat
  old : ConnState
  new : ConnState
  cur : Option Nat
deriving DecidableEq

-- `gate` holds the commits inside the generation gate and `pending` the commands that a goroutine
-- is about to enqueue. `log` and `effects` are histories, the latest entry first.
structure State where
  state : ConnState := .notConnected
  lastReacted : ConnState := .notConnected
  closed : Bool := false
  events : List FsmCommand := []
  closeEpoch : Option Nat := none
  staleGen : Nat := 0
  pc : Pc := .idle
  genSeq : Nat := 0
  cur : Option Nat := none
  epochs : Nat → Epoch := fun _ => {}
  shutdown : Bool := false
  gate : List Commit := []
  pending : List FsmCommand := []
  log : List Change := []
  effects : List Effect := []

def eventsCap : Nat := 16

namespace State

-- `CurrentGeneration`.
def curGen (s : State) : Nat :=
  s.cur.getD 0

def setEpoch (s : State) (e : Nat) (f : Epoch → Epoch) : State :=
  { s with epochs := Function.update s.epochs e (f (s.epochs e)) }

def write (s : State) (byStep : Bool) (ev : FsmEvent) (named gen : Nat) (new : ConnState) :
    State :=
  { s with
    state := new
    log   := if s.state = new then s.log else ⟨byStep, ev, named, gen, s.state, new, s.cur⟩ :: s.log }

-- The epoch that a gate admits a commit or a socket of `gen` to.
def live (s : State) (gen : Nat) : Option Nat :=
  match s.cur with
  | none   => none
  | some e => if ¬(s.epochs e).ended ∧ (gen = 0 ∨ e = gen) then some e else none

def publish (s : State) : State :=
  { s with
    genSeq := s.genSeq + 1
    cur := some (s.genSeq + 1)
    epochs := Function.update s.epochs (s.genSeq + 1) {} }

def publishSocket (s : State) (gen socket : Nat) : State :=
  match if gen = 0 then s.cur else s.live gen with
  | none   => s
  | some e => s.setEpoch e (·.adoptConn socket)

-- `commitFrom` up to the start of its gate's critical section.
def commitFrom (s : State) (k : Kind) (gen : Nat) : State :=
  match s.live gen with
  | none   => { s with staleGen := s.staleGen + 1 }
  | some e =>
    { s with gate := ⟨k, gen, e, if k = .connected then .admitting else .swapping⟩ :: s.gate }

-- What a successful commit latches on its epoch, inside the critical section.
def mark : Kind → Epoch → Epoch
  | .connected,  e => { e with tcpUpCommitted := true }
  | .selected,   e => { e with reachedSelected := true }
  | .selectLost, e => e

def setPhase (s : State) (c : Commit) (p : Phase) : State :=
  { s with gate := { c with phase := p } :: s.gate.erase c }

-- The next atomic operation of a commit inside its gate. On the way out a commit that swapped
-- leaves its follow-up event, which carries the identity that the gate resolved.
def advance (s : State) (c : Commit) : State :=
  match c.phase with
  | .admitting =>
    if (s.epochs c.id).tcpUpAdmitted then s.setPhase c (.leaving false)
    else (s.setEpoch c.id ({ · with tcpUpAdmitted := true })).setPhase c .swapping
  | .swapping =>
    if s.state = c.kind.old then
      ((s.write false c.kind.ev c.gen c.id c.kind.new).setEpoch c.id (mark c.kind)).setPhase c
        (.leaving true)
    else s.setPhase c (.leaving false)
  | .leaving committed =>
    { s with
      gate := s.gate.erase c
      pending := if committed then ⟨c.kind.ev, c.kind.cause, c.id⟩ :: s.pending else s.pending }

def enqueue (s : State) (cmd : FsmCommand) : State :=
  { s with pending := s.pending.erase cmd, events := s.events ++ [cmd] }

def injectDisconnect (s : State) (gen : Nat) (cause : TransitionCause) : State :=
  match s.cur with
  | none   => s
  | some e =>
    if gen ≠ 0 ∧ e ≠ gen then { s with staleGen := s.staleGen + 1 }
    else
      let s := s.setEpoch e ({ · with commsFailure := true })
      { s with pending := ⟨.disconnect, cause, if gen = 0 then e else gen⟩ :: s.pending }

def injectT7Expiry (s : State) (gen : Nat) : State :=
  if gen ≠ 0 then { s with pending := ⟨.t7Timeout, .t7Timeout, gen⟩ :: s.pending }
  else
    match s.cur with
    | none   => s
    | some e => { s with pending := ⟨.t7Timeout, .t7Timeout, e⟩ :: s.pending }

-- The fence of `Close` or of a failed `Open` with the epoch it pins, and its `requestClose`.
def requestClose (s : State) : State :=
  { s with
    shutdown := true
    closeEpoch := s.cur
    pending := ⟨.close, .localClose, 0⟩ :: s.pending }

def transitionIdentity (s : State) (cmd : FsmCommand) (closing : Option Nat) : Nat × Nat :=
  if cmd.ev = .close then
    match closing with
    | none   => (0, 0)
    | some e => (e, (s.epochs e).socket)
  else if cmd.gen = 0 then (0, 0)
  else if s.cur = some cmd.gen then (cmd.gen, (s.epochs cmd.gen).socket)
  else (cmd.gen, 0)

-- A terminal notification is emitted before the reaction, any other one after it.
def fireTransition (s : State) (sc : StateChange) : State :=
  let r := Effect.react sc.prev sc.next sc.cause
  { s with
    effects :=
      if sc.next = .notConnected then r :: .emit sc :: s.effects else .emit sc :: r :: s.effects }

end State

abbrev Dropped (next left : ConnState) : Prop :=
  next = .notConnected ∧ left ≠ .notConnected

-- The cause that `react` is given: a bring-up that a Select overtook counts as a Select.
def reportedCause (cmd : FsmCommand) (next : ConnState) : TransitionCause :=
  if cmd.ev = .tcpUp ∧ next = .selected then .selectAccepted else cmd.cause

namespace State

def stateChange (s : State) (cmd : FsmCommand) (closing : Option Nat) (next left : ConnState) :
    StateChange where
  prev := if Dropped next left then left else s.lastReacted
  next := next
  cause := reportedCause cmd next
  gen := (s.transitionIdentity cmd closing).1
  socket := (s.transitionIdentity cmd closing).2

-- The change from `left` to `next` is reported.
def fired (s : State) (cmd : FsmCommand) (closing : Option Nat) (next left : ConnState) : State :=
  let sc := s.stateChange cmd closing next left
  { s.fireTransition sc with
    lastReacted := next
    pc := if next = .notConnected then .reacting cmd closing sc.prev else .finishing cmd closing }

-- The next atomic operation of the supervisor goroutine: `run`, `step` and, from `reacting` to
-- `tearing`, the connection's `react`.
def fsm (s : State) : State :=
  match s.pc with
  | .idle =>
    match s.events with
    | [] => s
    | cmd :: rest =>
      if s.closed then { s with events := rest }
      else
        { s with
          events := rest
          pc := .loading cmd (if cmd.ev = .close then s.closeEpoch else none) }
  | .loading cmd closing =>
    { s with pc := .matching cmd closing s.state }
  | .matching cmd closing cur =>
    if cmd.gen ≠ 0 ∧ s.curGen ≠ cmd.gen then { s with staleGen := s.staleGen + 1, pc := .idle }
    else if cmd.ev = .selectLost ∧ cur = .selected then { s with pc := .idle }
    else if (transition cur cmd.ev).2 then
      { s with pc := .storing cmd closing cur (transition cur cmd.ev).1 }
    else { s with pc := .finishing cmd closing }
  | .storing cmd closing cur next =>
    if next = cur then { s with pc := .firing cmd closing next cur }
    else if cmd.ev = .t7Timeout ∧ s.state ≠ cur then { s with pc := .idle }
    else { s.write true cmd.ev cmd.gen cmd.gen next with pc := .firing cmd closing next s.state }
  | .firing cmd closing next left =>
    if next ≠ s.lastReacted ∨ Dropped next left then s.fired cmd closing next left
    else { s with pc := .finishing cmd closing }
  | .reacting cmd closing prev =>
    match s.cur with
    | none   => { s with pc := .finishing cmd closing }
    | some e => { s with pc := .resolved cmd closing prev e }
  | .resolved cmd closing prev e =>
    let bye := if prev = .selected ∧ ¬(s.epochs e).commsFailure ∧ (s.epochs e).conn then
      [Effect.farewell e] else []
    let again := if s.shutdown then [] else [Effect.startConnectLoop e]
    { s with effects := again ++ bye ++ s.effects, pc := .tearing cmd closing e }
  | .tearing cmd closing e =>
    { s.setEpoch e Epoch.teardown with pc := .finishing cmd closing }
  | .finishing cmd closing =>
    if cmd.ev = .close then
      match closing with
      | none   => { s with closed := true, pc := .idle }
      | some e => { s with closed := true, pc := .ending e }
    else { s with pc := .idle }
  | .ending e =>
    { s.setEpoch e Epoch.teardown with pc := .idle }

end State

inductive Action
  | publish
  | publishSocket (gen socket : Nat)
  | commitFrom    (k : Kind) (gen : Nat)
  | advance       (c : Commit)
  | enqueue       (cmd : FsmCommand)
  | tcpDown       (gen : Nat) (cause : TransitionCause)
  | t7Expired     (gen : Nat)
  | markEnded     (gen : Nat)
  | teardown      (gen : Nat)
  | requestClose
  | fsm
deriving DecidableEq

open State in
def next (s : State) : Action → State
  | .publish => s.publish
  | .publishSocket g n => s.publishSocket g n
  | .commitFrom k g => s.commitFrom k g
  | .advance c => s.advance c
  | .enqueue cmd => s.enqueue cmd
  | .tcpDown g cause => s.injectDisconnect g cause
  | .t7Expired g => s.injectT7Expiry g
  | .markEnded g => s.setEpoch g Epoch.markEnded
  | .teardown g => s.setEpoch g Epoch.teardown
  | .requestClose => s.requestClose
  | .fsm => s.fsm

def guard (s : State) : Action → Prop
  | .advance c => c ∈ s.gate
  | .enqueue cmd => cmd ∈ s.pending ∧ s.events.length < eventsCap
  | .fsm => s.pc ≠ .idle ∨ s.events ≠ []
  | _ => True

instance decidableGuard (s : State) : ∀ a, Decidable (guard s a)
  | .advance c => inferInstanceAs (Decidable (c ∈ s.gate))
  | .enqueue cmd =>
    inferInstanceAs (Decidable (cmd ∈ s.pending ∧ s.events.length < eventsCap))
  | .fsm => inferInstanceAs (Decidable (s.pc ≠ .idle ∨ s.events ≠ []))
  | .publish => .isTrue trivial
  | .publishSocket _ _ => .isTrue trivial
  | .commitFrom _ _ => .isTrue trivial
  | .tcpDown _ _ => .isTrue trivial
  | .t7Expired _ => .isTrue trivial
  | .markEnded _ => .isTrue trivial
  | .teardown _ => .isTrue trivial
  | .requestClose => .isTrue trivial

-- One supervisor under any interleaving of commits, reports and its own steps.
def supervisor : Machine State Action where
  init s := ∃ n, s = { genSeq := n }
  guard := guard
  next := next

-- The goroutine is about to end an epoch, for which it takes the write side of the gate.
def Pc.locks : Pc → Bool
  | .tearing _ _ _ => true
  | .ending _ => true
  | _ => false

-- What the connection ensures on top: no epoch ends while a commit is inside its gate, and a
-- successor is published only while the connection is not shut down, after its predecessor ended
-- and either never came up or had the reaction to its drop start the loop.
def fenced (s : State) : Action → Prop
  | .publish =>
    s.shutdown = false ∧
      ∀ e ∈ s.cur, (s.epochs e).ended ∧
        ((s.epochs e).tcpUpCommitted = false ∨ .startConnectLoop e ∈ s.effects)
  | .markEnded _ => s.gate = []
  | .teardown _ => s.gate = []
  | .requestClose => s.shutdown = false ∧ s.cur ≠ none
  | .fsm => s.pc.locks → s.gate = []
  | _ => True

instance decidableFenced (s : State) : ∀ a, Decidable (fenced s a)
  | .publish => inferInstanceAs (Decidable (s.shutdown = false ∧ ∀ e ∈ s.cur, _))
  | .markEnded _ => inferInstanceAs (Decidable (s.gate = []))
  | .teardown _ => inferInstanceAs (Decidable (s.gate = []))
  | .requestClose => inferInstanceAs (Decidable (s.shutdown = false ∧ s.cur ≠ none))
  | .fsm => inferInstanceAs (Decidable (s.pc.locks → s.gate = []))
  | .publishSocket _ _ => .isTrue trivial
  | .commitFrom _ _ => .isTrue trivial
  | .advance _ => .isTrue trivial
  | .enqueue _ => .isTrue trivial
  | .tcpDown _ _ => .isTrue trivial
  | .t7Expired _ => .isTrue trivial

def connection : Machine State Action :=
  supervisor.restrict fenced

instance (s : State) (a : Action) : Decidable (supervisor.guard s a) :=
  decidableGuard s a

instance (s : State) (a : Action) : Decidable (connection.guard s a) :=
  inferInstanceAs (Decidable (guard s a ∧ fenced s a))

end Supervisor
end Hsms
