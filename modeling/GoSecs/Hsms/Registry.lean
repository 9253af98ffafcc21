import GoSecs.Hsms.Message
import GoSecs.Lib.Machine

namespace Hsms

-- A peer's Reject.req, or an S9 message that was correlated to the wait.
inductive ReplyErr
  | reject (reason : UInt8)
  | s9     (function : UInt8) (mhead : Header) (msg : DataMessage)

structure ReplyResult where
  msg : Option Message  := none
  err : Option ReplyErr := none

def ReplyResult.isControl (res : ReplyResult) : Bool :=
  match res.msg with
  | some (.control _) => true
  | _ => false

inductive MheadPolicy
  | mheadExact
  | mheadBlock
deriving DecidableEq

-- A SECS-I peer reports the header of a block: neither the R-bit nor the block number counts.
def MheadPolicy.matches (policy : MheadPolicy) (mhead header : Header) : Bool :=
  match policy with
  | .mheadExact => mhead = header
  | .mheadBlock =>
    mhead.h0 &&& 0x7F = header.h0 &&& 0x7F ∧ mhead.h1 = header.h1 ∧ mhead.h2 = header.h2 ∧
      mhead.h3 = header.h3 ∧ mhead.systemBytes = header.systemBytes

inductive ReplyState
  | replyOpen
  | replyClaimedByReply
  | replyClaimedByS9
deriving DecidableEq

-- A call that may complete a wait: `route` or `failS9` with its arguments.
inductive Candidate
  | reply (key : SysBytes) (res : ReplyResult) (strict : Bool)
  | s9    (mhead : Header) (policy : MheadPolicy) (res : ReplyResult)

namespace Candidate

def key : Candidate → SysBytes
  | reply key _ _ => key
  | s9 mhead _ _  => mhead.systemBytes

def res : Candidate → ReplyResult
  | reply _ res _ => res
  | s9 _ _ res    => res

def claim : Candidate → ReplyState
  | reply _ _ _ => .replyClaimedByReply
  | s9 _ _ _    => .replyClaimedByS9

end Candidate

-- `ch` is the one-slot buffer and `received` what the sender has taken from it. Each result stands
-- with the call that sent it.
structure ReplyWaiter where
  state : ReplyState := .replyOpen
  header : Header := .zero
  stream : UInt8 := 0
  function : UInt8 := 0
  isData : Bool := false
  ch : List Candidate := []
  received : List Candidate := []

namespace ReplyWaiter

def results (w : ReplyWaiter) : List Candidate :=
  w.received ++ w.ch

-- Only a data message is compared, and only with a data primary.
def mismatched (w : ReplyWaiter) (res : ReplyResult) : Bool :=
  match res.msg with
  | some (.data dm) =>
    w.isData ∧ (dm.stream ≠ w.stream ∨ dm.function ≠ w.function + 1 ∧ dm.function ≠ 0)
  | _ => false

-- The non-blocking send: a full buffer drops the result.
def send (w : ReplyWaiter) (c : Candidate) : ReplyWaiter :=
  if w.ch = [] then { w with ch := [c] } else w

def receive (w : ReplyWaiter) : ReplyWaiter :=
  { w with ch := w.ch.tail, received := w.received ++ w.ch.take 1 }

end ReplyWaiter

-- The waiters live on the heap, the map holds pointers to them. `size` of them are allocated.
structure ReplyRegistry where
  m : SysBytes → Option Nat := fun _ => none
  waiters : Nat → ReplyWaiter := fun _ => {}
  size : Nat := 0

namespace ReplyRegistry

def modify (r : ReplyRegistry) (p : Nat) (f : ReplyWaiter → ReplyWaiter) : ReplyRegistry :=
  { r with waiters := Function.update r.waiters p (f (r.waiters p)) }

def store (r : ReplyRegistry) (key : SysBytes) (w : ReplyWaiter) : ReplyRegistry where
  m := Function.update r.m key (some r.size)
  waiters := Function.update r.waiters r.size w
  size := r.size + 1

def registerData (r : ReplyRegistry) (header : Header) : ReplyRegistry :=
  r.store header.systemBytes {
    header   := header
    stream   := header.h2 &&& 0x7F
    function := header.h3
    isData   := true }

def registerControl (r : ReplyRegistry) (key : SysBytes) : ReplyRegistry :=
  r.store key {}

def deregister (r : ReplyRegistry) (key : SysBytes) : ReplyRegistry :=
  { r with m := Function.update r.m key none }

-- The claim and the send of a call that no other call comes between.
def complete (r : ReplyRegistry) (p : Nat) (c : Candidate) : ReplyRegistry :=
  r.modify p fun w => { w with state := c.claim }.send c

-- Whether the result is this registration's to consume, and whether it was a mismatch.
def route (r : ReplyRegistry) (key : SysBytes) (res : ReplyResult) (strict : Bool) :
    ReplyRegistry × Bool × Bool :=
  match r.m key with
  | none   => (r, false, false)
  | some p =>
    let w := r.waiters p
    if w.isData ∧ res.isControl then (r, false, false)
    else if w.mismatched res ∧ strict then (r, false, true)
    else if w.state ≠ .replyOpen then
      if w.state = .replyClaimedByS9 then (r, false, w.mismatched res)
      else (r, true, w.mismatched res)
    else (r.complete p (.reply key res strict), true, w.mismatched res)

def failS9 (r : ReplyRegistry) (mhead : Header) (policy : MheadPolicy) (res : ReplyResult) :
    ReplyRegistry × Bool :=
  match r.m mhead.systemBytes with
  | none   => (r, false)
  | some p =>
    let w := r.waiters p
    if ¬w.isData ∨ ¬policy.matches mhead w.header then (r, false)
    else if w.state ≠ .replyOpen then (r, false)
    else (r.complete p (.s9 mhead policy res), true)

end ReplyRegistry

namespace Registry

-- Where a call stands between its atomic operations, with the waiter it loaded.
inductive Call
  | idle
  | loading  (c : Candidate)
  | claiming (c : Candidate) (p : Nat)
  | lost     (c : Candidate) (p : Nat)
  | sending  (c : Candidate) (p : Nat)
  | returned (c : Candidate) (p : Option Nat) (delivered mismatched : Bool)

end Registry

-- What a call checks of the waiter before it claims the wait.
def ReplyWaiter.admits (w : ReplyWaiter) : Candidate → Bool
  | .reply _ res strict => ¬(w.isData ∧ res.isControl) ∧ ¬(w.mismatched res ∧ strict)
  | .s9 mhead policy _  => w.isData ∧ policy.matches mhead w.header

-- The second result of `route`. `failS9` has none.
def ReplyWaiter.diverges (w : ReplyWaiter) : Candidate → Bool
  | .reply _ res _ => w.mismatched res
  | .s9 _ _ _ => false

namespace Registry

-- The next atomic operation of a call. The fields that are compared never change, so they are read
-- with the load.
def Call.step (r : ReplyRegistry) : Call → ReplyRegistry × Call
  | .idle => (r, .idle)
  | .loading c =>
    match r.m c.key with
    | none   => (r, .returned c none false false)
    | some p =>
      if (r.waiters p).admits c then (r, .claiming c p)
      else (r, .returned c (some p) false ((r.waiters p).diverges c))
  | .claiming c p =>
    if (r.waiters p).state = .replyOpen then
      (r.modify p ({ · with state := c.claim }), .sending c p)
    else
      match c with
      | .reply _ _ _ => (r, .lost c p)
      | .s9 _ _ _    => (r, .returned c (some p) false false)
  | .lost c p =>
    (r, .returned c (some p) ((r.waiters p).state ≠ .replyClaimedByS9) ((r.waiters p).diverges c))
  | .sending c p =>
    (r.modify p (·.send c), .returned c (some p) true ((r.waiters p).diverges c))
  | .returned c p d mm => (r, .returned c p d mm)

structure State (ι : Type) where
  reg   : ReplyRegistry := {}
  calls : ι → Call := fun _ => .idle

inductive Action (ι : Type)
  | registerData    (header : Header)
  | registerControl (key : SysBytes)
  | deregister      (key : SysBytes)
  | receive         (p : Nat)
  | call            (i : ι) (c : Candidate)
  | step            (i : ι)

section Machine

variable {ι : Type} [DecidableEq ι]

def next (s : State ι) : Action ι → State ι
  | .registerData h => { s with reg := s.reg.registerData h }
  | .registerControl k => { s with reg := s.reg.registerControl k }
  | .deregister k => { s with reg := s.reg.deregister k }
  | .receive p => { s with reg := s.reg.modify p ReplyWaiter.receive }
  | .call i c => { s with calls := Function.update s.calls i (.loading c) }
  | .step i =>
    { reg   := ((s.calls i).step s.reg).1
      calls := Function.update s.calls i ((s.calls i).step s.reg).2 }

def Call.isIdle : Call → Bool
  | .idle => true
  | _ => false

def Call.isReturned : Call → Bool
  | .returned _ _ _ _ => true
  | _ => false

def guard (s : State ι) : Action ι → Prop
  | .receive p => (s.reg.waiters p).ch.isEmpty = false
  | .call i _ => (s.calls i).isIdle
  | .step i => ¬(s.calls i).isIdle ∧ ¬(s.calls i).isReturned
  | _ => True

-- Any number of calls on one registry, in any interleaving of their atomic operations.
def registry (ι : Type) [DecidableEq ι] : Machine (State ι) (Action ι) where
  init s := s = {}
  guard  := guard
  next   := next

instance (s : State ι) : ∀ a, Decidable (guard s a)
  | .registerData _ => .isTrue trivial
  | .registerControl _ => .isTrue trivial
  | .deregister _ => .isTrue trivial
  | .receive p => inferInstanceAs (Decidable ((s.reg.waiters p).ch.isEmpty = false))
  | .call i _ => inferInstanceAs (Decidable ((s.calls i).isIdle))
  | .step i =>
    inferInstanceAs (Decidable (¬(s.calls i).isIdle ∧ ¬(s.calls i).isReturned))

instance (s : State ι) (a : Action ι) : Decidable ((registry ι).guard s a) :=
  inferInstanceAs (Decidable (guard s a))

end Machine
end Registry
end Hsms
