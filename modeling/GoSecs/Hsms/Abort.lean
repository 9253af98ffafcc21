import GoSecs.Lib.Machine

namespace Hsms.Abort

-- A call of `Open` between its critical sections. It holds `lifeMu` from `locked` to `cleared`.
inductive OpenPc
  | idle
  | locked
  | refused
  | published
  | dialing
  | waiting
  | cleared
  | returned
deriving DecidableEq

def OpenPc.holds : OpenPc → Bool
  | idle | returned => false
  | _ => true

-- The token of the call is the one in `openAbort`.
def OpenPc.hasToken : OpenPc → Bool
  | published | dialing | waiting => true
  | _ => false

-- A call of `Close`. It is pending from its registration to the decrement.
inductive ClosePc
  | idle
  | registered
  | locked
  | closing
  | returned
deriving DecidableEq

def ClosePc.holds : ClosePc → Bool
  | locked | closing => true
  | _ => false

def ClosePc.isPending : ClosePc → Bool
  | registered | locked => true
  | _ => false

inductive Call
  | open  (i : Nat)
  | close (j : Nat)
deriving DecidableEq

-- The context of a `Start`: of the generation that an `Open` builds, or of a later one.
inductive StartCtx
  | first     (i : Nat)
  | reconnect (gen : Nat)
deriving DecidableEq

structure FirstDialState where
  epochCtx : StartCtx
  abort    : Nat
deriving DecidableEq

-- A token has the number of the call that made it. `bound` is the abort channel that a dial is
-- bounded by, `cut` tells that it was cut by it, and `aborted` that a call of `Open` saw its token
-- fired.
structure State where
  lifeMu : Option Call := none
  pendingCloses : Int := 0
  openAbort : Option Nat := none
  fired : Nat → Bool := fun _ => false
  opens : Nat → OpenPc := fun _ => .idle
  closes : Nat → ClosePc := fun _ => .idle
  firstDial : Option FirstDialState := none
  bound : StartCtx → Option Nat := fun _ => none
  cut : StartCtx → Bool := fun _ => false
  aborted : Nat → Bool := fun _ => false

inductive OpenStep
  | lock
  | refuse
  | publish
  | start
  | started
  | abort
  | clear
  | unlock
deriving DecidableEq

inductive CloseStep
  | register
  | lock
  | unregister
  | unlock
deriving DecidableEq

inductive Action
  | open  (i : Nat) (a : OpenStep)
  | close (j : Nat) (a : CloseStep)
  | dial  (ctx : StartCtx)
  | cut   (ctx : StartCtx)

def fire (fired : Nat → Bool) (t : Nat) : Nat → Bool :=
  Function.update fired t true

namespace State

def setOpen (s : State) (i : Nat) (pc : OpenPc) : State :=
  { s with opens := Function.update s.opens i pc }

def setClose (s : State) (j : Nat) (pc : ClosePc) : State :=
  { s with closes := Function.update s.closes j pc }

-- A `Close` that registered before could not see the token, so it is fired here.
def publish (s : State) (i : Nat) : State :=
  { s with
    fired := if s.pendingCloses > 0 then fire s.fired i else s.fired
    openAbort := some i }

def register (s : State) : State :=
  { s with
    pendingCloses := s.pendingCloses + 1
    fired := match s.openAbort with
      | some t => fire s.fired t
      | none   => s.fired }

def boundDial (s : State) (startCtx : StartCtx) : Option Nat :=
  match s.firstDial with
  | none    => none
  | some fd => if fd.epochCtx ≠ startCtx then none else some fd.abort

end State

def next (s : State) : Action → State
  | .open i a =>
    match a with
    | .lock    => { s with lifeMu := some (.open i) }.setOpen i .locked
    | .refuse  => s.setOpen i .refused
    | .publish => (s.publish i).setOpen i .published
    | .start   => { s with firstDial := some ⟨.first i, i⟩ }.setOpen i .dialing
    | .started => { s with firstDial := none }.setOpen i .waiting
    | .abort   => { s with aborted := Function.update s.aborted i true }
    | .clear   => { s with openAbort := none }.setOpen i .cleared
    | .unlock  => { s with lifeMu := none }.setOpen i .returned
  | .close j a =>
    match a with
    | .register => s.register.setClose j .registered
    | .lock => { s with lifeMu := some (.close j) }.setClose j .locked
    | .unregister => { s with pendingCloses := s.pendingCloses - 1 }.setClose j .closing
    | .unlock => { s with lifeMu := none }.setClose j .returned
  | .dial ctx => { s with bound := Function.update s.bound ctx (s.boundDial ctx) }
  | .cut ctx  => { s with cut := Function.update s.cut ctx true }

-- The first dial of a call is made in its own `Start`.
def guard (s : State) : Action → Bool
  | .open i a =>
    match a with
    | .lock    => s.opens i = .idle ∧ s.lifeMu = none
    | .refuse  => s.opens i = .locked
    | .publish => s.opens i = .locked
    | .start   => s.opens i = .published
    | .started => s.opens i = .dialing
    | .abort   => s.opens i = .waiting ∧ s.fired i
    | .clear   => s.opens i = .waiting
    | .unlock  => s.opens i = .refused ∨ s.opens i = .cleared
  | .close j a =>
    match a with
    | .register => s.closes j = .idle
    | .lock => s.closes j = .registered ∧ s.lifeMu = none
    | .unregister => s.closes j = .locked
    | .unlock => s.closes j = .closing
  | .dial (.first i) => s.opens i = .dialing
  | .dial (.reconnect _) => true
  | .cut ctx => (s.bound ctx).any s.fired

-- Any number of calls, in any interleaving of their critical sections.
def lifecycle : Machine State Action where
  init s := s = {}
  guard s a := guard s a
  next := next

instance (s : State) (a : Action) : Decidable (lifecycle.guard s a) :=
  inferInstanceAs (Decidable (guard s a = true))

end Hsms.Abort
