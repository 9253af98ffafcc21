import GoSecs.Hsms.Supervisor

-- The notifications of the supervisor: a bounded channel that drops the oldest change when it is
-- full.

namespace Hsms.Notify

open Supervisor (StateChange)

def supervisorNotifyCap : Nat := 16

inductive Pc
  | idle
  | dropping (sc : StateChange)
  | sending  (sc : StateChange)
deriving DecidableEq

def Pc.isDropping : Pc → Bool
  | dropping _ => true
  | _ => false

def Pc.isSending : Pc → Bool
  | sending _ => true
  | _ => false

-- `emitted` and `received` are the changes whose send is done, and those the notifier took.
structure State where
  pc : Pc := .idle
  notify : List StateChange := []
  droppedNotify : Nat := 0
  emitted : List StateChange := []
  received : List StateChange := []
deriving DecidableEq

inductive Action
  | trySend (sc : StateChange)
  | tryDrop
  | send
  | receive
deriving DecidableEq

namespace State

variable (s : State)

def push (sc : StateChange) : State :=
  { s with
    pc := .idle
    notify := s.notify ++ [sc]
    emitted := s.emitted ++ [sc] }

end State

section Channel

variable (cap : Nat)

def next (s : State) : Action → State
  | .trySend sc =>
    if s.notify.length < cap then s.push sc else { s with pc := .dropping sc }
  | .tryDrop =>
    match s.pc with
    | .dropping sc =>
      { s with
        pc := .sending sc
        notify := s.notify.tail
        droppedNotify := s.droppedNotify + 1 }
    | _ => s
  | .send =>
    match s.pc with
    | .sending sc => s.push sc
    | _ => s
  | .receive =>
    match s.notify with
    | [] => s
    | sc :: notify => { s with notify := notify, received := s.received ++ [sc] }

-- A send without a default waits for room, and so does a receive for a change.
def guard (s : State) : Action → Bool
  | .trySend _ => s.pc = .idle
  | .tryDrop => s.pc.isDropping
  | .send => s.pc.isSending && s.notify.length < cap
  | .receive => s.notify ≠ []

-- What the supervisor does next inside `emit`.
def pending (s : State) : Option Action :=
  match s.pc with
  | .idle => none
  | .dropping _ => some .tryDrop
  | .sending _ => some .send

def queue : Machine State Action where
  init s := s = {}
  guard s a := guard cap s a
  next := next cap

instance (s : State) (a : Action) : Decidable ((queue cap).guard s a) :=
  inferInstanceAs (Decidable (guard cap s a = true))

end Channel

end Hsms.Notify
