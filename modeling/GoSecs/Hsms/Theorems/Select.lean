import GoSecs.Hsms.Theorems.Close

open List

namespace Hsms.Supervisor

variable {s : State} {a : Action} {g : Nat} {as : List Action}

-- Neither a close nor a report for the current generation, nor its successor.
def Peaceful (s : State) : Action → Prop
  | .publish => False
  | .requestClose => False
  | .tcpDown gen _ => gen ≠ 0 ∧ s.cur ≠ some gen
  | .t7Expired gen => gen ≠ 0 ∧ s.cur ≠ some gen
  | _ => True

-- The generation was published in this state, and no command names it yet.
structure Published (g : Nat) (s : State) : Prop where
  publish : ∃ s', connection.Reachable s' ∧ connection.guard s' .publish ∧ g = s'.genSeq + 1 ∧
    s = next s' .publish
  fresh   : ∀ cmd, Queued s cmd → cmd.gen ≠ g

def generation (g : Nat) : Machine State Action :=
  (connection.restrict Peaceful).startAt (Published g)

def lastTarget (g : Nat) (log : List Change) : ConnState :=
  match log.find? fun c => c.byStep = false ∧ c.cur = some g with
  | some c => c.new
  | none   => .notConnected

-- The goroutine is about to store a Select over the Deselect that followed it.
def Reselects (s : State) : Action → Prop
  | .fsm =>
    match s.pc with
    | .storing cmd _ cur _ =>
      cmd.ev = .selectAccepted ∧ cur = .notSelected ∧ s.state = .notSelected
    | _ => False
  | _    => False

theorem Published.reachable (h : Published g s) : connection.Reachable s :=
  have ⟨_, hr, hg, _, hs⟩ := h.publish
  hs ▸ hr.step hg

theorem generation_reachable (h : (generation g).Reachable s) : connection.Reachable s :=
  h.of_startAt Published.reachable

-- Only the commits of the current generation have commands that name it.
structure Undisturbed (g : Nat) (s : State) : Prop where
  cur : s.cur = some g
  shutdown : s.shutdown = false
  queued : ∀ cmd, Queued s cmd → cmd.gen = g → ∃ k : Kind, cmd.ev = k.ev

theorem undisturbed_next (hs : Undisturbed g s) (hg : connection.guard s a) (hp : Peaceful s a) :
    Undisturbed g (next s a) where
  cur := by
    rw [cur_next (by rintro rfl; exact hp)]
    exact hs.cur
  shutdown := by
    rw [(shutdown_next (by rintro rfl; exact hp)).left]
    exact hs.shutdown
  queued cmd hq hgen := by
    by_cases ha : a = .fsm
    case pos =>
      subst ha
      exact hs.queued cmd (fsm_queued hq) hgen
    case neg =>
      rcases queued_next ha hg.left hq with hq | hb
      case inl => exact hs.queued cmd hq hgen
      case inr =>
        cases hb
        case echo c _ => exact ⟨c.kind, rfl⟩
        case disconnect e hc hgen' => exact absurd (hgen'.resolve_left hp.left ▸ hc) hp.right
        case expiry => exact absurd (hs.cur.trans (congrArg some hgen.symm)) hp.right
        case expiryBound => exact absurd rfl hp.left
        case close => exact hp.elim

theorem undisturbed (h : (generation g).Reachable s) : Undisturbed g s := by
  refine h.invariant ?_ ?_
  · intro s hs
    have ⟨s', _, hg, hgen, heq⟩ := hs.publish
    refine ⟨?_, ?_, fun cmd hq hc => absurd hc (hs.fresh cmd hq)⟩
    · rw [heq, hgen]; rfl
    · rw [heq]; exact hg.right.left
  · intro s a _ hs hg
    exact undisturbed_next hs hg.left hg.right

theorem Published.state (h : Published g s) : s.state = lastTarget g s.log := by
  have ⟨s', hr, hg, hgen, heq⟩ := h.publish
  have hst : s'.state = .notConnected := by
    by_contra hst
    have ⟨_, hu⟩ := (linked hr).up hst
    exact not_up_of_publish hg.right hu
  have hnone : s'.log.find? (fun c => c.byStep = false ∧ c.cur = some g) = none := by
    refine find?_eq_none.mpr fun c hc hg' => ?_
    have hcur : c.cur = some g := (of_decide_eq_true hg').right
    have hle : c.curGen ≤ s'.curGen := (attributed hr).bound c hc
    have hseq : s'.curGen ≤ s'.genSeq := by
      unfold State.curGen
      cases hc : s'.cur
      case none   => exact Nat.zero_le _
      case some e => exact ((linked hr).bound e hc).right
    rw [Change.curGen, hcur, Option.getD_some] at hle
    omega
  rw [lastTarget, heq]
  show s'.state = match s'.log.find? _ with | some c => c.new | none => _
  rw [hnone]
  exact hst

theorem Swapped.lastTarget {t : State} {c : Commit} (h : Swapped s t c) (hc : s.cur = some g) :
    lastTarget g t.log = c.kind.new := by
  rw [Supervisor.lastTarget, h.log, find?_cons_of_pos (by simp [hc])]

theorem write_lastTarget (ev : FsmEvent) (n gen : Nat) (st : ConnState) :
    lastTarget g (s.write true ev n gen st).log = lastTarget g s.log := by
  show lastTarget g (ite _ _ _) = _
  split
  case isTrue  => rfl
  case isFalse => rw [lastTarget, find?_cons_of_neg (by simp)]; rfl

-- While the generation is undisturbed, all that `step` stores is a Select.
theorem Undisturbed.stores {cmd : FsmCommand} {closing : Option Nat} {cur nxt : ConnState}
    (hs : Undisturbed g s) (hr : connection.Reachable s)
    (hp : s.pc = .storing cmd closing cur nxt) (hne : nxt ≠ cur) :
    (cmd.ev = .selectAccepted ∧ cur = .notSelected) ∧ nxt = .selected ∧ s.state ≠ .notConnected := by
  have ⟨hld, hst⟩ : Loaded s cur ∧ Stores cmd.ev cur nxt := by
    have := (tracks hr.of_restrict).sound
    rwa [hp] at this
  have hq : Queued s cmd := .inr (.inr (by rw [hp]; rfl))
  have hclose : cmd.ev ≠ .close := fun hev =>
    Bool.noConfusion (hs.shutdown.symm.trans ((Supervisor.closing hr).queued cmd hq hev).left)
  have hgen : s.cur = some cmd.gen := by
    have := (linked hr).pc
    rw [hp] at this
    exact this (hst.cur_ne hne) (((echoes hr).queued cmd hq).left hclose)
  have ⟨k, hk⟩ := hs.queued cmd hq (Option.some.inj (hgen.symm.trans hs.cur))
  have hn : nxt ≠ .notConnected := by
    have ht := hst.left
    rw [hk] at ht
    have hc := hst.cur_ne hne
    rintro rfl
    cases k <;> cases cur <;> first | exact hc rfl | exact nomatch ht
  have ⟨hev, hcur, hnext⟩ := hst.eq_selectAccepted hne hn
  rw [Loaded, if_neg (hst.cur_ne hne)] at hld
  exact ⟨⟨hev, hcur⟩, hnext, hld⟩

theorem Reselects.state (hr : connection.Reachable s) (h : Reselects s .fsm) :
    s.state = .notSelected ∧ s.fsm.state = .selected := by
  dsimp only [Reselects] at h
  split at h
  case h_1 cmd closing cur nxt hp =>
    have ⟨hev, hcur, hst⟩ := h
    have hnext : nxt = .selected := by
      have hstores := (tracks hr.of_restrict).sound
      rw [hp] at hstores
      have ht := hstores.2.left
      rw [hev, hcur] at ht
      exact (Prod.mk.inj ht).1.symm
    have hne : nxt ≠ cur := by rw [hcur, hnext]; exact ConnState.noConfusion
    have h7 : ¬(cmd.ev = .t7Timeout ∧ s.state ≠ cur) := fun h7 => h7.right (hst.trans hcur.symm)
    simp only [State.fsm, hp, if_neg hne, if_neg h7]
    exact ⟨hst, hnext⟩
  case h_2 => exact h.elim

theorem follows_iff (hr : (generation g).Reachable s) (hs : s.state = lastTarget g s.log)
    (hg : (generation g).guard s a) :
    (next s a).state = lastTarget g (next s a).log ↔ ¬Reselects s a := by
  have hu := undisturbed hr
  by_cases ha : a = .fsm
  case neg =>
    have hn : ¬Reselects s a := by cases a <;> first | exact id | exact absurd rfl ha
    refine iff_of_true ?_ hn
    rcases next_cases (s := s) ha with h | ⟨c, _, _, h⟩
    · rw [h.state, h.log]; exact hs
    · rw [h.new, h.lastTarget hu.cur]
  case pos =>
    subst ha
    show s.fsm.state = lastTarget g s.fsm.log ↔ _
    rcases fsm_cases s with hc | ⟨cmd, closing, cur, nxt, hp, hne, _, hf⟩ |
      ⟨cmd, closing, nxt, left, hp, _, hf⟩
    · rw [hc.state, hc.log]
      refine iff_of_true hs fun hn => ?_
      have ⟨hold, hnew⟩ := hn.state (generation_reachable hr)
      exact ConnState.noConfusion (hnew.symm.trans (hc.state.trans hold))
    · have ⟨⟨hev, hcur⟩, hnext, hst⟩ := hu.stores (generation_reachable hr) hp hne
      rw [hf]
      show nxt = lastTarget g (s.write true _ _ _ nxt).log ↔ _
      rw [write_lastTarget, ← hs, Reselects, hp]
      simp only [hev, hcur, hnext, true_and]
      cases h : s.state
      case notConnected => exact absurd h hst
      case notSelected => simp
      case selected => simp
    · rw [hf]
      show s.state = lastTarget g s.log ↔ _
      refine iff_of_true hs ?_
      rw [Reselects, hp]
      exact id

-- In a live generation the state is the target of the latest commit exactly as long as no Select
-- event is stored after a Deselect overtook it.
theorem commits_decide_state_iff (h : Published g s) (r : (generation g).Run s as) :
    (generation g).Along (fun s => s.state = lastTarget g s.log) s as ↔
      (generation g).Steps (fun s a => ¬Reselects s a) s as :=
  Machine.along_iff_steps (fun hr hs hg => follows_iff hr hs hg) (.init h) h.state r

def first : State :=
  next {} .publish

theorem first_published : Published 1 first where
  publish := ⟨{}, .init ⟨0, rfl⟩, ⟨trivial, rfl, by simp⟩, rfl, rfl⟩
  fresh   := by simp [Queued, first, next, State.publish, Pc.cmd]

instance (s : State) : ∀ a, Decidable (Peaceful s a)
  | .publish => .isFalse id
  | .requestClose => .isFalse id
  | .tcpDown gen _ => inferInstanceAs (Decidable (gen ≠ 0 ∧ s.cur ≠ some gen))
  | .t7Expired gen => inferInstanceAs (Decidable (gen ≠ 0 ∧ s.cur ≠ some gen))
  | .publishSocket _ _ => .isTrue trivial
  | .commitFrom _ _ => .isTrue trivial
  | .advance _ => .isTrue trivial
  | .enqueue _ => .isTrue trivial
  | .markEnded _ => .isTrue trivial
  | .teardown _ => .isTrue trivial
  | .fsm => .isTrue trivial

instance (s : State) (a : Action) : Decidable ((generation g).guard s a) :=
  inferInstanceAs (Decidable (connection.guard s a ∧ Peaceful s a))

instance (s : State) : ∀ a, Decidable (Reselects s a)
  | .fsm =>
    match h : s.pc with
    | .storing cmd _ cur _ =>
      decidable_of_iff (cmd.ev = .selectAccepted ∧ cur = .notSelected ∧ s.state = .notSelected)
        (by simp only [Reselects, h])
    | .idle | .loading _ _ | .matching _ _ _ | .firing _ _ _ _ | .reacting _ _ _
    | .resolved _ _ _ _ | .tearing _ _ _ | .finishing _ _ | .ending _ =>
      .isFalse (by simp only [Reselects, h, not_false_eq_true])
  | .publish | .publishSocket _ _ | .commitFrom _ _ | .advance _ | .enqueue _ | .tcpDown _ _
  | .t7Expired _ | .markEnded _ | .teardown _ | .requestClose => .isFalse id

def commit (k : Kind) (g : Nat) : List Action :=
  let c : Commit := ⟨k, g, g, .swapping⟩
  [.commitFrom k g, .advance c, .advance { c with phase := .leaving true },
    .enqueue ⟨k.ev, k.cause, g⟩]

-- A Select whose event is processed before the Deselect.
def selectDeselect : List Action :=
  bringUp 1 ++ commit .selected 1 ++ replicate 12 .fsm ++ commit .selectLost 1 ++
    replicate 6 .fsm

theorem commits_decide_state_iff_selectDeselect :
    (generation 1).Run first selectDeselect ∧
    (generation 1).Along (fun s => s.state = lastTarget 1 s.log) first selectDeselect ∧
    ((generation 1).exec first selectDeselect).state = .notSelected :=
  have r : (generation 1).Run first selectDeselect := by decide +kernel
  ⟨r, (commits_decide_state_iff first_published r).mpr (by decide +kernel), by decide +kernel⟩

-- The Deselect is committed while the event of the Select is still on the queue.
def deselectOvertakes : List Action :=
  bringUp 1 ++ commit .selected 1 ++ commit .selectLost 1 ++ replicate 15 .fsm

theorem deselectOvertakes_selected :
    Published 1 first ∧ (generation 1).Run first deselectOvertakes ∧
    lastTarget 1 ((generation 1).exec first deselectOvertakes).log = .notSelected ∧
    ((generation 1).exec first deselectOvertakes).events = [] ∧
    ((generation 1).exec first deselectOvertakes).pc = .idle ∧
    ((generation 1).exec first deselectOvertakes).state = .selected :=
  ⟨first_published, by decide +kernel, by decide +kernel, by decide +kernel, by decide +kernel,
    by decide +kernel⟩

end Hsms.Supervisor
