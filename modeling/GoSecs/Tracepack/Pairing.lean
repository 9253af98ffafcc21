import GoSecs.Lib.Machine
import GoSecs.Tracepack.Format

-- The lookups of an hour's primaries, one after another and on several workers.

namespace Tracepack.Pairing

open Format (UUID)

structure TxKey where
  captureID : UUID
  seq : Nat
  hour : Int

structure TxPairing (ρ : Type) where
  key    : TxKey
  result : ρ

-- How a lookup ends, and how a call of `fn` ends.
inductive Lookup (ρ ν : Type)
  | found (res : ρ)
  | error (err : Err)
  | panic (v : ν)

inductive Call (ν : Type)
  | ok
  | error (err : Err)
  | panic (v : ν)

def Lookup.isPanic {ρ ν : Type} : Lookup ρ ν → Bool
  | panic _ => true
  | _ => false

-- How `pair` ends.
inductive Exit (ν : Type)
  | ok
  | error (err : Err)
  | panic (v : ν)

-- `fn` is told by all pairings it was ever passed, the last of them the one that it is called with.
structure Batch (ρ ν : Type) where
  captureID : UUID
  hour : Int
  keys : List Nat
  lookup : Nat → TxKey → Lookup ρ ν
  fn : List (TxPairing ρ) → Call ν

structure Report (ρ ν : Type) where
  passed : List (TxPairing ρ)
  primaries : Nat
  exit : Exit ν

section

variable {ρ ν : Type} (b : Batch ρ ν)

def Batch.key (seq : Nat) : TxKey where
  captureID := b.captureID
  seq := seq
  hour := b.hour

def Batch.wrapErr (seq : Nat) (err : Err) : Err :=
  .wrap "tracepack: find transactions: primary seq %d of hour %d: %w" [.nat seq, .int b.hour] err

-- The loop of `pair` from the key at `i` on.
def Batch.pairFrom (i : Nat) (passed : List (TxPairing ρ)) (primaries : Nat) :
    List Nat → Report ρ ν
  | [] => { passed, primaries, exit := .ok }
  | seq :: seqs =>
    match b.lookup i (b.key seq) with
    | .panic v   => { passed, primaries, exit := .panic v }
    | .error err => { passed, primaries, exit := .error (b.wrapErr seq err) }
    | .found res =>
      let passed := passed ++ [{ key := b.key seq, result := res }]
      match b.fn passed with
      | .ok => pairFrom (i + 1) passed (primaries + 1) seqs
      | .error err => { passed, primaries := primaries + 1, exit := .error err }
      | .panic v => { passed, primaries := primaries + 1, exit := .panic v }

def Batch.pair : Report ρ ν :=
  b.pairFrom 0 [] 0 b.keys

end

-- The channels with their token and the result. `turn` is the position of the key that the slot is for.
structure TxSlot (ρ ν : Type) where
  free  : Bool := true
  ready : Bool := false
  res   : Option (Lookup ρ ν) := none
  turn  : Nat

-- A worker waits to run the lookup of the key at `i`, runs it, or is about to send that it is ready.
inductive Worker
  | waiting (i : Nat)
  | looking (i : Nat)
  | sending (i : Nat) (panicked : Bool)
  | ended
deriving DecidableEq

-- The calling goroutine takes the next result, passes it on, gives the slot back, or leaves: it
-- cancels the context of the workers and waits for them.
inductive Caller (ρ ν : Type)
  | taking
  | passing (res : ρ)
  | freeing
  | leaving (exit : Exit ν)
  | joining (exit : Exit ν)
  | ended   (exit : Exit ν)

-- `begun` are the positions of the keys whose lookup was started.
structure State (ρ ν : Type) where
  i : Nat := 0
  caller : Caller ρ ν := .taking
  slots : Nat → TxSlot ρ ν := fun s => { turn := s }
  workers : Nat → Worker := .waiting
  stopped : Bool := false
  passed : List (TxPairing ρ) := []
  primaries : Nat := 0
  begun : List Nat := []

inductive Action (ρ ν : Type)
  | take
  | pass
  | free
  | stop
  | join
  | grab (s : Nat)
  | quit (s : Nat)
  | find (s : Nat) (res : Lookup ρ ν)
  | send (s : Nat)

variable {ρ ν : Type} (b : Batch ρ ν) (w : Nat)

namespace State

def setSlot (st : State ρ ν) (s : Nat) (slot : TxSlot ρ ν) : State ρ ν :=
  { st with slots := Function.update st.slots s slot }

def setWorker (st : State ρ ν) (s : Nat) (worker : Worker) : State ρ ν :=
  { st with workers := Function.update st.workers s worker }

end State

def Batch.seq (i : Nat) : Nat :=
  b.keys.getD i 0

-- The worker goes on to its next key, if there is one.
def after (i : Nat) (panicked : Bool) : Worker :=
  if panicked then .ended
  else if i + w < b.keys.length then .waiting (i + w)
  else .ended

def taken (i : Nat) : Option (Lookup ρ ν) → Caller ρ ν
  | some (.panic v) => .leaving (.panic v)
  | some (.error err) => .leaving (.error (b.wrapErr (b.seq i) err))
  | some (.found res) => .passing res
  | none => .taking

def take (st : State ρ ν) : State ρ ν :=
  let slot := st.slots (st.i % w)
  { st.setSlot (st.i % w) { slot with ready := false } with caller := taken b st.i slot.res }

def pass (st : State ρ ν) (res : ρ) : State ρ ν :=
  let passed := st.passed ++ [{ key := b.key (b.seq st.i), result := res }]
  { st with
    passed
    primaries := st.primaries + 1
    caller :=
      match b.fn passed with
      | .ok => .freeing
      | .error err => .leaving (.error err)
      | .panic v => .leaving (.panic v) }

-- The slot is cleared and given back, and the loop goes on.
def free (st : State ρ ν) : State ρ ν :=
  let slot := st.slots (st.i % w)
  { st.setSlot (st.i % w) { slot with free := true, res := none, turn := slot.turn + w } with
    i := st.i + 1
    caller := if st.i + 1 < b.keys.length then .taking else .leaving .ok }

def next (st : State ρ ν) : Action ρ ν → State ρ ν
  | .take => take b w st
  | .pass =>
    match st.caller with
    | .passing res => pass b st res
    | _ => st
  | .free => free b w st
  | .stop =>
    match st.caller with
    | .leaving exit => { st with stopped := true, caller := .joining exit }
    | _ => st
  | .join =>
    match st.caller with
    | .joining exit => { st with caller := .ended exit }
    | _ => st
  | .grab s =>
    match st.workers s with
    | .waiting i =>
      { (st.setSlot s { st.slots s with free := false }).setWorker s (.looking i) with
        begun := st.begun ++ [i] }
    | _ => st
  | .quit s => st.setWorker s .ended
  | .find s res =>
    match st.workers s with
    | .looking i =>
      (st.setSlot s { st.slots s with res := some res }).setWorker s (.sending i res.isPanic)
    | _ => st
  | .send s =>
    match st.workers s with
    | .sending i panicked =>
      (st.setSlot s { st.slots s with ready := true }).setWorker s (after b w i panicked)
    | _ => st

def Guard (st : State ρ ν) : Action ρ ν → Prop
  | .take => st.caller = .taking ∧ st.i < b.keys.length ∧ (st.slots (st.i % w)).ready
  | .pass => ∃ res, st.caller = .passing res
  | .free => st.caller = .freeing ∧ (st.slots (st.i % w)).free = false
  | .stop => ∃ exit, st.caller = .leaving exit
  | .join => (∃ exit, st.caller = .joining exit) ∧ ∀ s < w, st.workers s = .ended
  | .grab s => s < w ∧ (∃ i, st.workers s = .waiting i) ∧ (st.slots s).free
  | .quit s => s < w ∧ (∃ i, st.workers s = .waiting i) ∧ st.stopped
  | .find s res => s < w ∧ ∃ i, st.workers s = .looking i ∧
                     (st.stopped = false → res = b.lookup i (b.key (b.seq i)))
  | .send s => s < w ∧ (∃ i panicked, st.workers s = .sending i panicked) ∧
                     (st.slots s).ready = false

-- `pairParallel` on `w` workers.
def pairParallel : Machine (State ρ ν) (Action ρ ν) where
  init st := st = {}
  guard := Guard b w
  next := next b w

end Tracepack.Pairing
