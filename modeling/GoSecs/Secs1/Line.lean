import GoSecs.Lib.Machine
import GoSecs.Secs1.Block

open Secs2

-- The two ends of a SECS-I line, joined by a byte channel in each direction.

namespace Secs1.Line

def enq : UInt8 := 0x05
def eot : UInt8 := 0x04
def ack : UInt8 := 0x06
def nak : UInt8 := 0x15

-- The block that `sendBlock` is sending, its count of failed attempts, and the blocks of the
-- request that `runSend` has still to send.
structure Sending where
  blk   : Block
  retry : Nat
  rest  : List Block
deriving DecidableEq

-- Where the engine is. A receiver that yielded to a contending master remembers the send that it
-- postponed.
inductive Pc
  | idle
  | attempt     (s : Sending)
  | awaitEot    (s : Sending)
  | writing     (s : Sending) (left : Bytes)
  | awaitAck    (s : Sending)
  | granting    (postponed : Option Sending)
  | awaitLength (postponed : Option Sending)
  | reading     (postponed : Option Sending) (lengthByte : UInt8) (buf : Bytes)
  | draining    (postponed : Option Sending)
  | acking      (postponed : Option Sending) (blk : Block)
  | sinking     (postponed : Option Sending) (blk : Block)
deriving DecidableEq

def Pc.isDraining : Pc → Bool
  | draining _ => true
  | _ => false

-- One end. Kept are the blocks it was asked to send, whether its `sendBlock` calls returned nil,
-- the blocks that it acknowledged and handed to its sink, and how many bytes of blocks and NAKs it
-- wrote.
structure Side where
  pc : Pc := .idle
  inbox : Bytes := []
  requests : List (List Block) := []
  asked : List Block := []
  returned : List (Block × Bool) := []
  accepted : List Block := []
  sunk : List Block := []
  blockBytes : Nat := 0
  naks : Nat := 0
deriving DecidableEq

namespace Side

def sendNext (me : Side) : List Block → Side
  | [] => { me with pc := .idle }
  | blk :: rest => { me with pc := .attempt { blk := blk, retry := 0, rest := rest } }

def sent (me : Side) (s : Sending) : Side :=
  sendNext { me with returned := me.returned ++ [(s.blk, true)] } s.rest

-- A failed attempt is followed by another one, as long as the limit allows it.
def failed (me : Side) (retryLimit : Nat) (s : Sending) : Side :=
  if s.retry + 1 ≤ retryLimit then
    { me with pc := .attempt { s with retry := s.retry + 1 } }
  else
    { me with returned := me.returned ++ [(s.blk, false)], pc := .idle }

-- A postponed send starts over.
def resume (me : Side) : Option Sending → Side
  | none   => { me with pc := .idle }
  | some s => { me with pc := .attempt { s with retry := 0 } }

-- What the engine does with a byte that it reads.
def read (me : Side) (isEquip : Bool) (retryLimit : Nat) (b : UInt8) : Side :=
  match me.pc with
  | .idle => if b = enq then { me with pc := .granting none } else me
  | .awaitEot s =>
    if b = eot then { me with pc := .writing s (s.blk.appendTo []) }
    else if b = enq ∧ isEquip = false then { me with pc := .granting (some s) }
    else me
  | .awaitAck s => if b = ack then me.sent s else me.failed retryLimit s
  | .awaitLength p =>
    if b.toNat < minBlockLength ∨ b.toNat > maxBlockLength then { me with pc := .draining p }
    else { me with pc := .reading p b [] }
  | .reading p lengthByte buf => { me with pc := .reading p lengthByte (buf ++ [b]) }
  | _ => me

-- What the engine does without reading, and the byte that it writes.
def act (me : Side) : Option (Side × Option UInt8) :=
  match me.pc with
  | .attempt s => some ({ me with pc := .awaitEot s }, some enq)
  | .writing s (b :: left) =>
    some ({ me with
      pc := if left = [] then .awaitAck s else .writing s left
      blockBytes := me.blockBytes + 1 }, some b)
  | .granting p => some ({ me with pc := .awaitLength p }, some eot)
  | .reading p lengthByte buf =>
    if buf.length < lengthByte.toNat + checksumSize then none
    else
      match parseBlock lengthByte buf with
      | .ok blk  => some ({ me with pc := .acking p blk }, none)
      | .error _ => some ({ me with pc := .draining p }, none)
  | .acking p blk =>
    some ({ me with pc := .sinking p blk, accepted := me.accepted ++ [blk] }, some ack)
  | .sinking p blk => some (({ me with sunk := me.sunk ++ [blk] }).resume p, none)
  | _ => none

-- The engine is at a read: it polls, waits for an answer, or receives.
def atRead (me : Side) : Bool :=
  match me.pc with
  | .idle | .awaitEot _ | .awaitAck _ | .awaitLength _ | .draining _ => true
  | .reading _ lengthByte buf => buf.length < lengthByte.toNat + checksumSize
  | _ => false

-- The line has been silent while the rest of a bad block was drained.
def silence (me : Side) (retryLimit : Nat) (p : Option Sending) : Side :=
  match p with
  | none   => { me with naks := me.naks + 1, pc := .idle }
  | some s => { me with naks := me.naks + 1 }.failed retryLimit s

end Side

-- The equipment is the end `true`, the host is the end `false`.
abbrev State := Bool → Side

inductive Step
  | request (blocks : List Block)
  | take
  | read
  | act
  | silence
deriving DecidableEq

structure Action where
  side : Bool
  step : Step
deriving DecidableEq

def State.write (s : State) (k : Bool) (b : UInt8) : State :=
  Function.update s k { s k with inbox := (s k).inbox ++ [b] }

def State.put (s : State) (k : Bool) (me : Side) : State :=
  Function.update s k me

def next (retryLimit : Nat) (s : State) (a : Action) : State :=
  let k := a.side
  let me := s k
  match a.step with
  | .request blocks =>
    s.put k { me with requests := me.requests ++ [blocks], asked := me.asked ++ blocks }
  | .take =>
    match me.requests with
    | [] => s
    | blocks :: requests => s.put k ({ me with requests := requests }.sendNext blocks)
  | .read =>
    match me.inbox with
    | [] => s
    | b :: inbox => s.put k ({ me with inbox := inbox }.read k retryLimit b)
  | .act =>
    match me.act with
    | none => s
    | some (me, none)   => s.put k me
    | some (me, some b) => (s.put k me).write (!k) b
  | .silence =>
    match me.pc with
    | .draining p => (s.put k (me.silence retryLimit p)).write (!k) nak
    | _ => s

-- Nothing but the poll of an idle line times out, and that poll changes nothing. The blocks of a
-- request are as `splitBody` makes them.
def guard (s : State) (a : Action) : Prop :=
  match a.step with
  | .request blocks => ∀ b ∈ blocks, b.body.length ≤ maxBlockBodySize
  | .take => (s a.side).pc = .idle ∧ (s a.side).requests ≠ []
  | .read => (s a.side).atRead = true ∧ (s a.side).inbox ≠ []
  | .act => ((s a.side).act).isSome = true
  | .silence => (s a.side).pc.isDraining = true

instance (s : State) (a : Action) : Decidable (guard s a) :=
  match a with
  | ⟨_, .request blocks⟩ => inferInstanceAs (Decidable (∀ b ∈ blocks, _))
  | ⟨_, .take⟩ => inferInstanceAs (Decidable (_ ∧ _))
  | ⟨_, .read⟩ => inferInstanceAs (Decidable (_ ∧ _))
  | ⟨_, .act⟩ => inferInstanceAs (Decidable (_ = true))
  | ⟨_, .silence⟩ => inferInstanceAs (Decidable (_ = true))

def line (retryLimit : Nat) : Machine State Action where
  init s := ∀ k, s k = {}
  guard  := guard
  next   := next retryLimit

instance (retryLimit : Nat) (s : State) (a : Action) :
    Decidable ((line retryLimit).guard s a) :=
  inferInstanceAs (Decidable (guard s a))

end Secs1.Line
