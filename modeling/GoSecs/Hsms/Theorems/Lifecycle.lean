import GoSecs.Hsms.Lifecycle
import GoSecs.Hsms.Theorems.Close

namespace Hsms.Lifecycle

variable {s t : State} {a : Action} {life : Life} {l : Nat}

namespace State

def isDown (s : State) : Prop :=
  ¬s.opened ∨ s.shutdown

-- Nothing of a cycle is left running.
def Quiet (s : State) : Prop :=
  s.running = false ∧ s.spawning = none ∧ s.loopsDone

def joined (s : State) : Prop :=
  s.done s.conn.curGen

-- What holds where the call that has `lifeMu` stands.
def At (s : State) : Life → Prop
  | .free | .closing =>
    (s.isDown → s.Quiet) ∧ (s.shutdown → s.joined) ∧ (¬s.shutdown → s.closes s.cancel = 0)
  | .opening | .bumped => s.Quiet
  | .reset | .joined => s.Quiet ∧ s.shutdown = false
  | .installed => s.Quiet ∧ s.shutdown = false ∧ s.closes s.cancel = 0
  | .starting _ | .failed _ | .cold _ => s.opened ∧ s.shutdown = false ∧ s.closes s.cancel = 0
  | .fencing _ => s.closes s.cancel = 0
  | .shut _ => s.shutdown ∧ s.closes s.cancel = 0
  | .pinned _ e => s.shutdown ∧ s.closes s.cancel = 0 ∧ s.conn.curGen = e
  | .cancelled _ e | .requested _ e => s.shutdown ∧ s.conn.curGen = e
  | .waited _ e => s.shutdown ∧ s.joined ∧ s.conn.curGen = e
  | .straggling _ | .leaving _ => s.shutdown ∧ s.joined
  | .stopped _ => s.shutdown ∧ s.joined ∧ s.running = false ∧ s.spawning = none

structure Cycle (s : State) : Prop where
  place  : s.At s.life
  beyond : ∀ n, s.cancel < n → s.closes n = 0
  once   : ∀ n, s.closes n ≤ 1

end State

open State

-- A step beside the calls changes neither the flags nor the cancel channels, and behind the fence
-- it publishes nothing.
structure Beside (s t : State) : Prop where
  life : t.life = s.life
  opened : t.opened = s.opened
  shutdown : t.shutdown = s.shutdown
  cancel : t.cancel = s.cancel
  closes : t.closes = s.closes
  done : ∀ e, s.done e → t.done e
  cur : s.shutdown → t.conn.cur = s.conn.cur
  down : s.running = false → s.spawning = none → t.running = false ∧ t.spawning = none
  quiet : s.Quiet → t.Quiet

namespace Beside

theorem curGen (b : Beside s t) (hs : s.shutdown) : t.conn.curGen = s.conn.curGen := by
  rw [Supervisor.State.curGen, b.cur hs, Supervisor.State.curGen]

theorem joined (b : Beside s t) (hs : s.shutdown) (h : s.joined) : t.joined := by
  rw [State.joined, b.curGen hs]
  exact b.done _ h

theorem place (b : Beside s t) (h : s.At life) : t.At life := by
  have hd : t.isDown ↔ s.isDown := by simp only [isDown, b.shutdown, b.opened]
  have hc : t.closes t.cancel = s.closes s.cancel := by rw [b.closes, b.cancel]
  cases life <;> simp only [At, hd, hc, b.shutdown, b.opened] at h ⊢
  case free => exact ⟨fun hd => b.quiet (h.1 hd), fun hs => b.joined hs (h.2.1 hs), h.2.2⟩
  case closing => exact ⟨fun hd => b.quiet (h.1 hd), fun hs => b.joined hs (h.2.1 hs), h.2.2⟩
  case opening => exact b.quiet h
  case bumped => exact b.quiet h
  case reset => exact ⟨b.quiet h.1, h.2⟩
  case joined => exact ⟨b.quiet h.1, h.2⟩
  case installed => exact ⟨b.quiet h.1, h.2⟩
  case pinned => exact ⟨h.1, h.2.1, (b.curGen h.1).trans h.2.2⟩
  case cancelled => exact ⟨h.1, (b.curGen h.1).trans h.2⟩
  case requested => exact ⟨h.1, (b.curGen h.1).trans h.2⟩
  case waited => exact ⟨h.1, b.joined h.1 h.2.1, (b.curGen h.1).trans h.2.2⟩
  case straggling => exact ⟨h.1, b.joined h.1 h.2⟩
  case leaving => exact ⟨h.1, b.joined h.1 h.2⟩
  case stopped => exact ⟨h.1, b.joined h.1 h.2.1, b.down h.2.2.1 h.2.2.2⟩
  all_goals exact h

theorem cycle (b : Beside s t) (h : s.Cycle) : t.Cycle where
  place  := b.life ▸ b.place h.place
  beyond := by rw [b.cancel, b.closes]; exact h.beyond
  once   := by rw [b.closes]; exact h.once

-- A step of the connection, of a barrier or of a join in front of another one.
theorem of_conn {conn : Supervisor.State} {released done : Nat → Bool}
    (hc : s.shutdown → conn.cur = s.conn.cur) (hd : ∀ e, s.done e → done e)
    (h : Beside { s with conn := conn, startReturned := released, done := done } t) : Beside s t where
  life := h.life
  opened := h.opened
  shutdown := h.shutdown
  cancel := h.cancel
  closes := h.closes
  done e := fun he => h.done e (hd e he)
  cur hs := (h.cur hs).trans (hc hs)
  down := h.down
  quiet := h.quiet

theorem refl : Beside s s :=
  ⟨rfl, rfl, rfl, rfl, rfl, fun _ => id, fun _ => rfl, .intro, id⟩

end Beside

theorem beside_supervisor {a : Supervisor.Action} (hg : guard s (.supervisor a)) :
    Beside s (s.supervisor a) := by
  have hc : (s.onConn a).conn.cur = s.conn.cur := by
    refine Supervisor.cur_next ?_
    rintro rfl
    simp [guard, supervisorGuard] at hg
  unfold State.supervisor
  split
  case h_1 hp =>
    have hrun : s.running = true := by simp [guard, supervisorGuard] at hg; exact hg.1.1
    refine ⟨rfl, rfl, rfl, rfl, rfl, fun _ => id, fun _ => hc, fun h => ?_, fun h => ?_⟩
    · exact nomatch hrun.symm.trans h
    · exact nomatch hrun.symm.trans h.1
  case h_2 => exact .of_conn (fun _ => hc) (fun _ => id) .refl

theorem beside_setLoop {pc : LoopPc} (hl : (s.loops l).pc.isRunning) : Beside s (s.setLoop l pc) := by
  refine ⟨rfl, rfl, rfl, rfl, rfl, fun _ => id, fun _ => rfl, .intro, fun q => ⟨q.1, q.2.1, ?_⟩⟩
  have hd := of_decide_eq_true q.2.2
  refine decide_eq_true fun k hk => ?_
  have hne : k ≠ l := fun he => hd k hk (he ▸ hl)
  simpa [setLoop, hne] using hd k hk

theorem beside_loop (hg : guard s (.loop l)) : Beside s (s.loop l) := by
  have hl : (s.loops l).pc.isRunning := by
    revert hg
    simp only [guard, loopGuard]
    cases (s.loops l).pc <;> simp [LoopPc.isRunning]
  unfold State.loop
  split
  case h_5 =>
    split
    case isTrue => exact beside_setLoop hl
    case isFalse hs =>
      refine .of_conn (fun h => ?_) (fun _ => id) (beside_setLoop hl)
      simp [stale, h] at hs
  case h_6 => exact .of_conn (fun _ => rfl) (fun _ => id) (beside_setLoop hl)
  case h_7 e _ =>
    have hc : (s.onConn (.tcpDown e .unknown)).conn.cur = s.conn.cur := Supervisor.cur_next nofun
    exact .of_conn (fun _ => hc) (fun _ => id) (beside_setLoop hl)
  case h_8 => exact .refl
  all_goals exact beside_setLoop hl

theorem beside_spawn : Beside s (next s .spawn) := by
  simp only [next]
  split
  case h_1 e he =>
    refine ⟨rfl, rfl, rfl, rfl, rfl, fun _ => id, fun _ => rfl, fun _ h => ?_, fun q => ?_⟩
    · exact nomatch he.symm.trans h
    · exact nomatch he.symm.trans q.2.1
  case h_2 => exact .refl

theorem At.free_of_open (h : s.opened ∧ s.shutdown = false ∧ s.closes s.cancel = 0) : s.At .free := by
  refine ⟨fun hd => ?_, fun hs => ?_, fun _ => h.2.2⟩
  · simp [isDown, h.1, h.2.1] at hd
  · exact nomatch h.2.1.symm.trans hs

theorem cycle_call (h : s.Cycle) (hg : guard s .call) : s.call.Cycle := by
  have hp := h.place
  simp only [guard, callGuard] at hg
  unfold State.call
  cases hl : s.life <;> simp only [hl, At] at hg hp ⊢
  case opening => exact ⟨hp, h.beyond, h.once⟩
  case bumped => exact ⟨⟨hp, rfl⟩, h.beyond, h.once⟩
  case reset => exact ⟨hp, h.beyond, h.once⟩
  case joined =>
    exact ⟨⟨hp.1, hp.2, h.beyond _ (Nat.lt_succ_self _)⟩,
      fun n hn => h.beyond n (Nat.lt_of_succ_lt hn), h.once⟩
  case cold e => exact ⟨At.free_of_open hp, h.beyond, h.once⟩
  case fencing => exact ⟨⟨rfl, hp⟩, h.beyond, h.once⟩
  case shut => exact ⟨⟨hp.1, hp.2, rfl⟩, h.beyond, h.once⟩
  case pinned =>
    refine ⟨⟨hp.1, hp.2.2⟩, fun n hn => ?_, fun n => ?_⟩
    · exact (Function.update_of_ne (Nat.ne_of_gt hn) ..).trans (h.beyond n hn)
    · by_cases hn : n = s.cancel
      · simp [hn, hp.2.1]
      · simpa [hn] using h.once n
  case cancelled f e => cases f <;> exact ⟨hp, h.beyond, h.once⟩
  case requested  => exact ⟨⟨hp.1, hp.2 ▸ hg, hp.2⟩, h.beyond, h.once⟩
  case waited f e =>
    cases f
    case none    => exact ⟨⟨hp.1, hp.2.1⟩, h.beyond, h.once⟩
    case some e' =>
      dsimp only
      split <;> exact ⟨⟨hp.1, hp.2.1⟩, h.beyond, h.once⟩
  case straggling => exact ⟨hp, h.beyond, h.once⟩
  case leaving    => exact ⟨⟨hp.1, hp.2, rfl, (of_decide_eq_true hg).2⟩, h.beyond, h.once⟩
  case stopped    =>
    exact ⟨⟨fun _ => ⟨hp.2.2.1, hp.2.2.2, hg⟩, fun _ => hp.2.1, fun hs => absurd hp.1 hs⟩, h.beyond,
      h.once⟩
  all_goals contradiction

theorem cycle_next (h : s.Cycle) (hg : guard s a) : (next s a).Cycle := by
  have hp := h.place
  cases a
  case openCall =>
    obtain ⟨hl, hd⟩ : s.life = .free ∧ s.isDown := by simpa [guard, isDown] using hg
    rw [hl] at hp
    exact ⟨hp.1 hd, h.beyond, h.once⟩
  case publish =>
    rw [of_decide_eq_true hg] at hp
    exact ⟨⟨rfl, hp.2⟩, h.beyond, h.once⟩
  case started =>
    cases hl : s.life <;> simp only [guard, next, hl, At] at hg hp ⊢
    case starting e => exact ⟨At.free_of_open hp, h.beyond, h.once⟩
    all_goals contradiction
  case startFailed =>
    cases hl : s.life <;> simp only [guard, next, hl, At] at hg hp ⊢
    case starting => exact ⟨hp, h.beyond, h.once⟩
    all_goals contradiction
  case retry =>
    cases hl : s.life <;> simp only [guard, next, hl, At] at hg hp ⊢
    case failed => exact ⟨hp, h.beyond, h.once⟩
    all_goals contradiction
  case closeCall =>
    rw [of_decide_eq_true hg] at hp
    exact ⟨hp, h.beyond, h.once⟩
  case closeReturn =>
    rw [(of_decide_eq_true hg).1] at hp
    exact ⟨hp, h.beyond, h.once⟩
  case fence =>
    cases hl : s.life <;> simp only [guard, next, hl, At] at hg hp ⊢
    case closing =>
      refine ⟨hp.2.2 fun hs => ?_, h.beyond, h.once⟩
      exact absurd (of_decide_eq_true hg).2 (by simp [(hp.1 (.inr hs)).1])
    case failed => exact ⟨hp.2.2, h.beyond, h.once⟩
    all_goals contradiction
  case call => exact cycle_call h hg
  case supervisor a => exact (beside_supervisor hg).cycle h
  case spawn => exact beside_spawn.cycle h
  case loop l => exact (beside_loop hg).cycle h
  case join e =>
    refine (Beside.of_conn (fun _ => rfl) (fun k hk => ?_) .refl).cycle h
    by_cases hk' : k = e <;> simp [hk', hk]
  case loopStopped l =>
    refine (beside_setLoop ?_).cycle h
    revert hg
    simp only [guard]
    cases (s.loops l).pc <;> simp [LoopPc.isRunning]
  case loopStarted l =>
    cases hp : (s.loops l).pc <;> simp only [guard, next, hp] at hg ⊢
    case starting =>
      exact (Beside.of_conn (fun _ => rfl) (fun _ => id) (beside_setLoop (hp ▸ rfl))).cycle h
    all_goals contradiction
  case loopFailed l =>
    cases hp : (s.loops l).pc <;> simp only [guard, next, hp] at hg ⊢
    case starting e =>
      have hc : (s.onConn (.teardown e)).conn.cur = s.conn.cur := Supervisor.cur_next nofun
      exact (Beside.of_conn (fun _ => hc) (fun _ => id) (beside_setLoop (hp ▸ rfl))).cycle h
    all_goals contradiction

theorem cycle (h : lifecycle.Reachable s) : s.Cycle := by
  refine h.invariant ?_ fun _ h hg => cycle_next h hg
  rintro _ rfl
  exact ⟨⟨fun _ => ⟨rfl, rfl, rfl⟩, nofun, fun _ => rfl⟩, fun _ _ => rfl, fun _ => Nat.zero_le _⟩

-- A `Close` or a rollback tears down the generation that stays current, and when it has returned
-- nothing of the connection runs until the next `Open`.
theorem close_leaves_nothing (h : lifecycle.Reachable s) :
    (∀ f e, s.life = .cancelled f e ∨ s.life = .requested f e ∨ s.life = .waited f e →
      s.conn.curGen = e) ∧
    (s.life = .free → s.shutdown → s.Quiet ∧ s.joined) ∧ ∀ n, s.closes n ≤ 1 := by
  have hp := (cycle h).place
  refine ⟨fun f e hl => ?_, fun hl hs => ?_, (cycle h).once⟩
  · rcases hl with hl | hl | hl <;> rw [hl] at hp
    exacts [hp.2, hp.2, hp.2.2]
  · rw [hl] at hp
    exact ⟨hp.1 (.inr hs), hp.2.1 hs⟩

-- The first generation comes up and is dropped, a loop publishes the second one, and that is closed.
def reconnectThenClose : List Action :=
  [.openCall, .call, .call, .call, .call, .publish, .started] ++
  (Supervisor.bringUp 1).map .supervisor ++ List.replicate 5 (.supervisor .fsm) ++
  [.supervisor (.tcpDown 1 .ioError), .supervisor (.enqueue ⟨.disconnect, .ioError, 1⟩)] ++
  List.replicate 8 (.supervisor .fsm) ++ [.spawn, .supervisor .fsm, .supervisor .fsm, .join 1] ++
  List.replicate 5 (.loop 0) ++ [.loopStarted 0, .closeCall, .fence, .call, .call, .call, .call,
    .supervisor (.enqueue ⟨.close, .localClose, 0⟩)] ++
  List.replicate 7 (.supervisor .fsm) ++ [.join 2, .call, .call, .call, .call]

theorem close_leaves_nothing_reconnected :
    lifecycle.Run {} reconnectThenClose ∧ (lifecycle.exec {} reconnectThenClose).loopSeq = 1 ∧
      (lifecycle.exec {} reconnectThenClose).conn.curGen = 2 ∧
      (lifecycle.exec {} reconnectThenClose).Quiet ∧
      (lifecycle.exec {} reconnectThenClose).joined := by
  have hr : lifecycle.Run {} reconnectThenClose := by decide +kernel
  obtain ⟨_, hq, _⟩ := close_leaves_nothing (Machine.Reachable.exec (.init rfl) hr)
  exact ⟨hr, by decide +kernel, by decide +kernel, hq (by decide +kernel) (by decide +kernel)⟩

end Hsms.Lifecycle
