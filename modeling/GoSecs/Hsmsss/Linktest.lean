import GoSecs.Hsms.Supervisor

-- The linktest loop of a selected session, against everything it reads while it runs.

open Hsms

namespace Hsmsss

-- The new count of failures in a row, the stamp to compare the next one with, and whether the failure
-- was credited.
def linktestFailureStep (suppress : Bool) (recvNow sentAt inflight : Int) (fails : Nat)
    (recvAtLastFail : Int) : Nat × Int × Bool :=
  if suppress ∧ (recvNow > sentAt ∨ inflight > 0) then
    (0, recvAtLastFail, true)
  else if suppress ∧ fails > 0 ∧ recvNow > recvAtLastFail then
    (1, recvNow, false)
  else
    (fails + 1, recvNow, false)

def linktestDisconnectRecheck (suppress : Bool) (inflight recvNow sentAt : Int) : Bool :=
  if suppress then inflight ≤ 0 ∧ recvNow ≤ sentAt else true

namespace Linktest

-- How a probe ends: with its reply, with the end of the session or of the connection, or otherwise.
inductive Reply
  | answered
  | closed
  | failed
deriving DecidableEq

-- What the loop reads in one turn, in this order. `done` tells that the session has ended before the
-- timer fires. `lastRecv`, `recvNow` and `finalRecv` are the receive stamp when the turn begins, when a
-- failure is evaluated and at the re-check.
structure Tick where
  done : Bool := false
  state : ConnState := .selected
  lastSend : Int
  lastRecv : Int
  now : Int
  dataInflight : Int := 0
  sentAt : Int
  reply : Reply
  recvNow : Int
  inflight : Int := 0
  finalInflight : Int := 0
  finalRecv : Int
deriving DecidableEq

def Tick.sinceLastActivity (t : Tick) : Int :=
  t.now - max t.lastSend t.lastRecv

structure Config where
  interval  : Int
  threshold : Nat
  suppress  : Bool

structure Loop where
  fails : Nat := 0
  recvAtLastFail : Int := 0
deriving DecidableEq

-- A failure counted up to the threshold is `rechecked` when the re-check turns it into a credit,
-- and `down` when it drops the connection.
inductive Event
  | left
  | suppressed
  | closed
  | answered
  | credited
  | counted
  | rechecked
  | down
deriving DecidableEq

def Event.isEnd : Event → Bool
  | left | closed | down => true
  | _ => false

variable (cfg : Config)

def failed (s : Loop) (t : Tick) : Event × Loop :=
  let inflight := if cfg.suppress then t.inflight else 0
  let (fails, recvAtLastFail, credited) :=
    linktestFailureStep cfg.suppress t.recvNow t.sentAt inflight s.fails s.recvAtLastFail
  if fails ≥ cfg.threshold then
    let finalInflight := if cfg.suppress then t.finalInflight else 0
    if linktestDisconnectRecheck cfg.suppress finalInflight t.finalRecv t.sentAt then
      (.down, { fails, recvAtLastFail })
    else
      (.rechecked, { fails := 0, recvAtLastFail })
  else
    (if credited then .credited else .counted, { fails, recvAtLastFail })

def step (s : Loop) (t : Tick) : Event × Loop :=
  if t.done ∨ t.state ≠ .selected then (.left, s)
  else if cfg.suppress ∧ t.sinceLastActivity < cfg.interval then (.suppressed, s)
  else if cfg.suppress ∧ t.dataInflight > 0 then (.suppressed, s)
  else
    match t.reply with
    | .answered => (.answered, { s with fails := 0 })
    | .closed   => (.closed, s)
    | .failed   => failed cfg s t

-- The turns of the loop with what becomes of them, until it returns.
def run (s : Loop) : List Tick → List (Tick × Event)
  | [] => []
  | t :: ts =>
    (t, (step cfg s t).1) ::
      if (step cfg s t).1.isEnd then [] else run (step cfg s t).2 ts

def runLinktest (ts : List Tick) : List (Tick × Event) :=
  run cfg {} ts

end Linktest
end Hsmsss
