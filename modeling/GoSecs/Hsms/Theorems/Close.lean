import GoSecs.Hsms.Theorems.Generations

namespace Hsms.Supervisor

variable {s t : State} {a : Action} {n : Nat} {as bs : List Action}

-- A close comes from the one `requestClose` of the cycle, which pinned the current epoch.
structure Closing (s : State) : Prop where
  pinned : s.shutdown → s.cur ≠ none ∧ s.closeEpoch = s.cur
  queued : ∀ cmd, Queued s cmd → cmd.ev = .close → s.shutdown ∧ cmd.gen = 0
  closed : s.closed → s.shutdown ∧ (s.pc = .idle ∨ ∃ e, s.pc = .ending e)

theorem Moves.shutdown (h : Moves s a t) (ha : a ≠ .requestClose) :
    t.shutdown = s.shutdown ∧ t.closeEpoch = s.closeEpoch := by
  cases h <;> first | exact ⟨rfl, rfl⟩ | exact absurd rfl ha

theorem shutdown_next (ha : a ≠ .requestClose) :
    (next s a).shutdown = s.shutdown ∧ (next s a).closeEpoch = s.closeEpoch := by
  by_cases hf : a = .fsm
  case pos =>
    subst hf
    exact ⟨(fsm_turn s).apart.shutdown, (fsm_turn s).apart.closeEpoch⟩
  case neg => exact (next_moves hf).shutdown ha

-- The goroutine latches `closed` only at the end of a close, and then takes no other event.
theorem Turn.closed (h : Turn s t) (hc : t.closed) :
    s.closed ∧ (s.pc = .idle ∨ (∃ e, s.pc = .ending e) → t.pc = .idle) ∨
    ∃ cmd closing, s.pc = .finishing cmd closing ∧ cmd.ev = .close ∧
      (t.pc = .idle ∨ ∃ e, t.pc = .ending e) := by
  cases h
  case rest hp => exact .inl ⟨hc, fun _ => hp⟩
  case drop => exact .inl ⟨hc, fun _ => rfl⟩
  case take hn => exact absurd hc hn
  case finish => exact .inl ⟨hc, fun _ => rfl⟩
  case latch hp hev h => exact .inr ⟨_, _, hp, hev, h⟩
  all_goals
    have hp := ‹s.pc = _›
    refine .inl ⟨hc, fun h => ?_⟩
    rcases h with h | ⟨_, h⟩ <;> exact nomatch hp.symm.trans h

theorem closing_next (hs : Closing s) (h : connection.guard s a) : Closing (next s a) := by
  have ⟨hm, hf⟩ := h
  by_cases hr : a = .requestClose
  case pos =>
    subst hr
    refine ⟨fun _ => ⟨hf.right, rfl⟩, fun cmd hq hc => ⟨rfl, ?_⟩, fun hc => ?_⟩
    · rcases queued_next (a := .requestClose) Action.noConfusion hm hq with hq | hb
      · exact (hs.queued cmd hq hc).right
      · cases hb; rfl
    · exact ⟨rfl, (hs.closed hc).right⟩
  case neg =>
    have ⟨hsd, hep⟩ := shutdown_next (s := s) hr
    refine ⟨fun hsh => ?_, fun cmd hq hc => ?_, fun hc => ?_⟩
    · have hsh : s.shutdown := hsd ▸ hsh
      have hpub : a ≠ .publish := by
        rintro rfl
        exact absurd (hsh.symm.trans hf.left) (by decide)
      rw [hep, cur_next hpub]
      exact hs.pinned hsh
    · rw [hsd]
      by_cases ha : a = .fsm
      case pos =>
        subst ha
        exact hs.queued cmd (fsm_queued hq) hc
      case neg =>
        rcases queued_next ha hm hq with hq | hb
        case inl => exact hs.queued cmd hq hc
        case inr =>
          cases hb
          case echo c _ => exact absurd hc c.kind.ev_ne_close
          case close    => exact absurd rfl hr
          all_goals exact nomatch hc
    · rw [hsd]
      by_cases ha : a = .fsm
      case pos =>
        subst ha
        rcases (fsm_turn s).closed hc with ⟨hc, hi⟩ | ⟨cmd, closing, hp, hev, hpc⟩
        · have ⟨hsh, hpc⟩ := hs.closed hc
          exact ⟨hsh, .inl (hi hpc)⟩
        · exact ⟨(hs.queued cmd (.inr (.inr (hp ▸ rfl))) hev).left, hpc⟩
      case neg =>
        have hpc : (next s a).pc = s.pc ∧ (next s a).closed = s.closed := by
          rcases next_cases (s := s) ha with h | ⟨_, _, _, h⟩
          · exact ⟨h.pc, h.closed⟩
          · exact ⟨h.pc, h.closed⟩
        rw [hpc.left]
        exact hs.closed (hpc.right ▸ hc)

theorem closing (h : connection.Reachable s) : Closing s := by
  refine h.invariant ?_ fun _ => closing_next
  rintro _ ⟨n, rfl⟩
  exact ⟨nofun, by simp [Queued, Pc.cmd], nofun⟩

def Pc.closes : Pc → Bool
  | .matching c _ _ => c.ev = .close
  | .storing c _ _ _ => c.ev = .close
  | .firing c _ _ _ => c.ev = .close
  | .reacting c _ _ => c.ev = .close
  | .resolved c _ _ _ => c.ev = .close
  | .tearing c _ _ => c.ev = .close
  | .finishing c _ => c.ev = .close
  | _ => false

def State.closeLoaded (s : State) : Bool :=
  s.closed || s.pc.closes

-- A TCP-up commits after the step of the close loaded the state.
def Late (s : State) : Action → Prop
  | .advance c => c.kind = .connected ∧ c.phase = .swapping ∧ s.state = .notConnected ∧ s.closeLoaded
  | _ => False

-- The close was processed and the pinned epoch has ended.
def Terminated (s : State) : Prop :=
  s.closed ∧ ∃ e, s.closeEpoch = some e ∧ (s.epochs e).ended

-- The goroutine loaded a state in which the link is up, and did not replace it yet.
def Pc.loadedUp : Pc → Bool
  | .matching _ _ cur => cur ≠ .notConnected
  | .storing _ _ cur _ => cur ≠ .notConnected
  | _ => false

theorem closed_eq_false (hs : Closing s) (hi : s.pc ≠ .idle) (he : ∀ e, s.pc ≠ .ending e) :
    s.closed = false := by
  by_contra hc
  rcases (hs.closed (Bool.of_not_eq_false hc)).right with h | ⟨e, h⟩
  exacts [hi h, he e h]

theorem Turn.closeLoaded (h : Turn s t) (hs : Closing s) (hl : s.closeLoaded) : t.closeLoaded := by
  unfold State.closeLoaded at hl ⊢
  rw [Bool.or_eq_true] at hl ⊢
  rcases hl with hl | hl
  · left
    cases h <;> first | exact hl | rfl
  · have hq : ∀ cmd, s.pc.cmd = some cmd → cmd.ev = .close → cmd.gen = 0 :=
      fun cmd hp hc => (hs.queued cmd (.inr (.inr hp)) hc).right
    cases h
    case rest  => exact .inr hl
    case latch => exact .inl rfl
    all_goals
      have hp := ‹s.pc = _›
      rw [hp] at hl hq
    case skip h =>
      have hc := of_decide_eq_true hl
      rcases h with h | h
      exacts [absurd (hq _ rfl hc) h, nomatch hc.symm.trans h]
    case lapse h => exact nomatch (of_decide_eq_true hl).symm.trans h
    case done hc => exact absurd (of_decide_eq_true hl) hc
    case fire    => right; show Pc.closes (ite _ _ _); split <;> exact hl
    all_goals first | exact Bool.noConfusion hl | exact .inr hl

theorem closeLoaded_next (hs : Closing s) (h : s.closeLoaded) : (next s a).closeLoaded := by
  by_cases ha : a = .fsm
  case pos => exact ha ▸ (fsm_turn s).closeLoaded hs h
  case neg =>
    unfold State.closeLoaded
    rcases next_cases (s := s) ha with hm | ⟨_, _, _, hm⟩ <;> rw [hm.pc, hm.closed] <;> exact h

theorem Turn.loadedUp (h : Turn s t) (hl : t.pc.loadedUp) :
    s.pc.loadedUp ∨ ∃ cmd closing, s.pc = .loading cmd closing := by
  cases h
  case rest => exact .inl hl
  case load hp => exact .inr ⟨_, _, hp⟩
  case accept hp _ _ => exact .inl (hp ▸ hl)
  case fire => dsimp only [State.fired] at hl; split at hl <;> exact Bool.noConfusion hl
  case latch h => rcases h with rfl | ⟨_, rfl⟩ <;> exact Bool.noConfusion hl
  all_goals exact Bool.noConfusion hl

theorem not_loading (hs : Closing s) (h : s.closeLoaded) (cmd : FsmCommand)
    (closing : Option Nat) : s.pc ≠ .loading cmd closing := by
  intro hp
  unfold State.closeLoaded at h
  rw [hp, closed_eq_false hs (hp ▸ Pc.noConfusion) (fun _ => hp ▸ Pc.noConfusion)] at h
  exact Bool.noConfusion h

-- A link that is up behind the close stays up.
structure Doomed (s : State) : Prop where
  loaded : s.closeLoaded
  state : s.state ≠ .notConnected
  pc : s.pc.loadedUp = false

theorem doomed_next (hc : Closing s) (ht : Tracks s) (hs : Doomed s) : Doomed (next s a) := by
  refine ⟨closeLoaded_next hc hs.loaded, ?_, ?_⟩
  · by_cases ha : a = .fsm
    case pos =>
      subst ha
      show s.fsm.state ≠ _
      rcases fsm_cases s with h | ⟨cmd, closing, cur, next, hp, hne, _, _⟩ | ⟨_, _, _, _, _, _, hf⟩
      · exact h.state ▸ hs.state
      · have hcur : cur = .notConnected := by
          have := hs.pc
          rw [hp] at this
          exact not_not.mp (of_decide_eq_false this)
        have hst := ht.sound
        rw [hp] at hst
        exact absurd hcur (hst.right.cur_ne hne)
      · rw [hf]
        exact hs.state
    case neg =>
      rcases next_cases (s := s) ha with h | ⟨c, _, _, h⟩
      · exact h.state ▸ hs.state
      · exact h.new ▸ c.kind.new_ne_notConnected
  · by_cases ha : a = .fsm
    case pos =>
      subst ha
      show s.fsm.pc.loadedUp = false
      by_contra hl
      rcases (fsm_turn s).loadedUp (Bool.of_not_eq_false hl) with h | ⟨cmd, closing, h⟩
      · exact absurd (hs.pc.symm.trans h) Bool.noConfusion
      · exact not_loading hc hs.loaded cmd closing h
    case neg =>
      rcases next_cases (s := s) ha with h | ⟨_, _, _, h⟩ <;> rw [h.pc] <;> exact hs.pc

theorem doomed_of_late (ht : Tracks s) (hc : Closing s) (h : Late s a) : Doomed (next s a) := by
  cases a <;> try exact h.elim
  case advance c =>
    have ⟨hk, hp, hst, hl⟩ := h
    have hsw : Swapped s (s.advance c) c := by
      have hold : s.state = c.kind.old := by rw [hk]; exact hst
      unfold State.advance
      rw [hp]
      dsimp only
      rw [if_pos hold]
      exact swapped_swap hold
    refine ⟨closeLoaded_next (a := .advance c) hc hl, hsw.new ▸ c.kind.new_ne_notConnected, ?_⟩
    show (s.advance c).pc.loadedUp = false
    rw [hsw.pc]
    have hsd := ht.sound
    by_contra hup
    cases hpc : s.pc <;> rw [hpc] at hup hsd <;> try exact hup rfl
    case matching cur =>
      have hcur : cur ≠ .notConnected := of_decide_eq_true (Bool.of_not_eq_false hup)
      rw [Sound, Loaded, if_neg hcur] at hsd
      exact hsd hst
    case storing cur next =>
      have hcur : cur ≠ .notConnected := of_decide_eq_true (Bool.of_not_eq_false hup)
      have hl := hsd.left
      rw [Loaded, if_neg hcur] at hl
      exact hl hst

-- Behind the close the link is down, unless the close is about to take it down.
def TakenDown (s : State) : Prop :=
  s.closeLoaded → s.state = .notConnected ∨ s.pc.loadedUp

theorem Turn.closeLoaded_inv (h : Turn s t) (hl : t.closeLoaded) :
    s.closeLoaded ∨ ∃ cmd closing, t = { s with pc := .matching cmd closing s.state } := by
  unfold State.closeLoaded at hl ⊢
  rw [Bool.or_eq_true] at hl ⊢
  cases h
  case rest => exact .inl hl
  case load => exact .inr ⟨_, _, rfl⟩
  case latch hp hev _ => exact .inl (.inr (hp ▸ decide_eq_true hev))
  all_goals
    have hp := ‹s.pc = _›
    rw [hp]
  case fire => left; dsimp only [State.fired] at hl; split at hl <;> exact hl
  all_goals first | exact .inl hl | exact .inl (hl.imp_right Bool.noConfusion)

theorem Turn.takenDown (h : Turn s t) (hc : Closing s) (ht : Tracks s) (hs : TakenDown s) :
    TakenDown t := by
  intro hl
  have hsd := ht.sound
  rcases h.closeLoaded_inv hl with hload | ⟨cmd, closing, rfl⟩
  case inr =>
    by_cases hst : s.state = .notConnected
    exacts [.inl hst, .inr (decide_eq_true hst)]
  case inl =>
    rcases hs hload with hst | hup
    case inl =>
      left
      cases h
      case store hp hne _ =>
        rw [hp] at hsd
        have := hsd.left
        rw [Loaded, if_neg (hsd.right.cur_ne hne)] at this
        exact absurd hst this
      all_goals exact hst
    case inr =>
      have hcl : s.closed = false := by
        refine closed_eq_false hc ?_ ?_ <;> intros <;> intro hp <;> rw [hp] at hup <;>
          exact Bool.noConfusion hup
      rw [State.closeLoaded, hcl, Bool.false_or] at hload
      have hq : ∀ cmd, s.pc.cmd = some cmd → cmd.ev = .close → cmd.gen = 0 :=
        fun cmd hp hc' => (hc.queued cmd (.inr (.inr hp)) hc').right
      cases h
      case rest => exact .inr hup
      all_goals
        have hp := ‹s.pc = _›
        rw [hp] at hup hload hsd hq
        first | exact Bool.noConfusion hup | have hev := of_decide_eq_true hload
      case skip h =>
        rcases h with h | h
        exacts [absurd (hq _ rfl hev) h, by cases hev.symm.trans h]
      case accept   => exact .inr hup
      case ignore h => rw [hev] at h; cases h
      case lapse h  => cases hev.symm.trans h
      all_goals
        have hnext := hsd.right.left
        rw [hev] at hnext
        have hnext := (congrArg Prod.fst hnext).symm
      case keep  => exact absurd hnext (of_decide_eq_true hup)
      case store => exact .inl hnext

theorem takenDown_next (hc : Closing s) (ht : Tracks s) (hs : TakenDown s) (hl : ¬Late s a) :
    TakenDown (next s a) := by
  by_cases ha : a = .fsm
  case pos => exact ha ▸ (fsm_turn s).takenDown hc ht hs
  case neg =>
    intro hload
    unfold State.closeLoaded at hload
    rcases next_cases (s := s) ha with h | ⟨c, rfl, hp, h⟩ <;> rw [h.pc, h.closed] at hload <;> rw [h.pc]
    · rw [h.state]
      exact hs hload
    · refine .inr ((hs hload).resolve_left fun hst => hl ⟨?_, hp, hst, hload⟩)
      have hold := h.old.symm.trans hst
      cases hk : c.kind <;> rw [hk] at hold <;> first | rfl | exact nomatch hold

structure Epoch.Grows (x y : Epoch) : Prop where
  ended : x.ended → y.ended
  torn : x.torn → y.torn
  tornEnded : (x.torn → x.ended) → y.torn → y.ended
  committed : x.tcpUpCommitted → y.tcpUpCommitted

theorem Epoch.Grows.refl (x : Epoch) : x.Grows x :=
  ⟨id, id, id, id⟩

theorem Epoch.grows_markEnded (x : Epoch) : x.Grows x.markEnded :=
  ⟨fun _ => rfl, id, fun _ _ => rfl, id⟩

theorem Epoch.grows_teardown (x : Epoch) : x.Grows x.teardown := by
  unfold teardown
  split
  case isTrue  => exact .refl x
  case isFalse => exact ⟨fun _ => rfl, fun _ => rfl, fun _ _ => rfl, id⟩

theorem grows_setEpoch {f : Epoch → Epoch} (hf : ∀ x : Epoch, x.Grows (f x)) (e g : Nat) :
    (s.epochs g).Grows ((s.setEpoch e f).epochs g) := by
  rw [setEpoch_eq]
  split
  case isTrue  => exact hf _
  case isFalse => exact .refl _

theorem Moves.grows (h : Moves s a t) (ha : a ≠ .publish) (g : Nat) :
    (s.epochs g).Grows (t.epochs g) := by
  cases h
  case publish => exact absurd rfl ha
  case adopt n e => exact grows_setEpoch (f := (·.adoptConn n)) (fun _ => ⟨id, id, id, id⟩) e g
  case grant c _ _ =>
    exact grows_setEpoch (f := ({ · with tcpUpAdmitted := true })) (fun _ => ⟨id, id, id, id⟩) c.id g
  case swap c _ _ =>
    have hmark (x : Epoch) : x.Grows (State.mark c.kind x) := by
      cases c.kind <;> exact ⟨id, id, id, fun h => by first | rfl | exact h⟩
    exact grows_setEpoch (s := s.write _ _ _ _ _) hmark c.id g
  case disconnect e _ _ =>
    exact grows_setEpoch (f := ({ · with commsFailure := true })) (fun _ => ⟨id, id, id, id⟩) e g
  case markEnded => exact grows_setEpoch Epoch.grows_markEnded _ g
  case teardown => exact grows_setEpoch Epoch.grows_teardown _ g
  all_goals exact .refl _

theorem grows_next (ha : a ≠ .publish) (g : Nat) : (s.epochs g).Grows ((next s a).epochs g) := by
  by_cases hf : a = .fsm
  case pos =>
    subst hf
    show (s.epochs g).Grows (s.fsm.epochs g)
    rcases (fsm_turn s).epochs with he | ⟨_, e, he⟩ <;> rw [he]
    exacts [.refl _, grows_setEpoch Epoch.grows_teardown e g]
  case neg => exact (next_moves hf).grows ha g

theorem terminated_next (hc : Closing s) (hg : Gated s) (h : connection.guard s a)
    (hs : Terminated s ∧ s.state = .notConnected) :
    Terminated (next s a) ∧ (next s a).state = .notConnected := by
  have ⟨⟨hcl, e, hep, hend⟩, hst⟩ := hs
  have ⟨hsh, hpc⟩ := hc.closed hcl
  have hr : a ≠ .requestClose := by
    rintro rfl
    exact absurd (hsh.symm.trans h.right.left) Bool.noConfusion
  have hp : a ≠ .publish := by
    rintro rfl
    exact absurd (hsh.symm.trans h.right.left) Bool.noConfusion
  have hkeep : (next s a).closed ∧ (next s a).state = .notConnected := by
    by_cases ha : a = .fsm
    case pos =>
      subst ha
      show s.fsm.closed ∧ s.fsm.state = _
      unfold State.fsm
      rcases hpc with hpc | ⟨_, hpc⟩ <;> rw [hpc] <;> dsimp only
      · split
        case h_1 => exact ⟨hcl, hst⟩
        case h_2 => rw [if_pos hcl]; exact ⟨hcl, hst⟩
      · exact ⟨hcl, hst⟩
    case neg =>
      rcases next_cases (s := s) ha with hm | ⟨c, rfl, _, hm⟩
      · exact ⟨hm.closed ▸ hcl, hm.state.trans hst⟩
      · have ⟨hid, hlive⟩ := hg.live c h.left
        have hpin := (hc.pinned hsh).right
        cases Option.some.inj (hep.symm.trans (hpin.trans hid))
        exact absurd (hend.symm.trans hlive) Bool.noConfusion
  exact ⟨⟨hkeep.left, e, (shutdown_next hr).right.trans hep, (grows_next hp e).ended hend⟩, hkeep.right⟩

-- Once the close was processed and the pinned epoch has ended, the state is and stays
-- `notConnected` exactly if no TCP-up committed after the close had loaded the state.
theorem close_terminal_iff (r : connection.Run { genSeq := n } (as ++ bs))
    (ht : Terminated (connection.exec { genSeq := n } as)) :
    (connection.exec { genSeq := n } (as ++ bs)).state = .notConnected ↔
      connection.Steps (fun s a => ¬Late s a) { genSeq := n } as := by
  have hinit : connection.Reachable { genSeq := n } := .init ⟨n, rfl⟩
  have ⟨ra, rb⟩ := Machine.steps_append.mp r
  have hreach := hinit.exec ra
  rw [Machine.exec_append]
  constructor
  case mp =>
    intro hst
    by_contra hn
    have hd : Doomed (connection.exec { genSeq := n } as) :=
      hinit.of_violation
        (fun hr _ hl => doomed_of_late (tracks hr.of_restrict) (closing hr) (not_not.mp hl))
        (fun hr hd _ => doomed_next (closing hr) (tracks hr.of_restrict) hd) ra hn
    have hd := hreach.keeps
      (fun hr hd _ => doomed_next (closing hr) (tracks hr.of_restrict) hd) hd rb
    exact hd.state hst
  case mpr =>
    intro hok
    have hdown : TakenDown (connection.exec { genSeq := n } as) :=
      hinit.keeps_of_steps
        (fun hr hs _ hl => takenDown_next (closing hr) (tracks hr.of_restrict) hs hl) nofun ra hok
    have hst := hdown (by rw [State.closeLoaded, ht.left, Bool.true_or])
    have hst := hst.resolve_right fun hup => by
      rcases ((closing hreach).closed ht.left).right with hp | ⟨_, hp⟩ <;> rw [hp] at hup <;>
        exact Bool.noConfusion hup
    exact (hreach.keeps (fun hr hs hg => terminated_next (closing hr) (gated hr) hg hs)
      ⟨ht, hst⟩ rb).right

instance (s : State) : ∀ a, Decidable (Late s a)
  | .advance c => inferInstanceAs (Decidable (c.kind = .connected ∧ c.phase = .swapping ∧
                            s.state = .notConnected ∧ s.closeLoaded))
  | .publish => .isFalse id
  | .publishSocket _ _ => .isFalse id
  | .commitFrom _ _ => .isFalse id
  | .enqueue _ => .isFalse id
  | .tcpDown _ _ => .isFalse id
  | .t7Expired _ => .isFalse id
  | .markEnded _ => .isFalse id
  | .teardown _ => .isFalse id
  | .requestClose => .isFalse id
  | .fsm => .isFalse id

-- A link that is up is closed. A TCP-up for it comes too late.
def closeUp : List Action :=
  .publish :: bringUp 1 ++ List.replicate 6 .fsm ++
    [.requestClose, .enqueue ⟨.close, .localClose, 0⟩] ++ List.replicate 10 .fsm

theorem close_terminal_iff_closeUp :
    Terminated (connection.exec {} closeUp) ∧
    (connection.exec {} (closeUp ++ [.commitFrom .connected 1])).state = .notConnected :=
  have ht : Terminated (connection.exec {} closeUp) :=
    ⟨by decide +kernel, 1, by decide +kernel, by decide +kernel⟩
  ⟨ht, (close_terminal_iff (n := 0) (by decide +kernel) ht).mpr (by decide +kernel)⟩

-- The dial succeeds while the step of the close stands between its load and the latch.
def closeDialing : List Action :=
  let c : Commit := ⟨.connected, 1, 1, .admitting⟩
  [.publish, .requestClose, .enqueue ⟨.close, .localClose, 0⟩, .fsm, .fsm,
    .commitFrom .connected 1, .advance c, .advance { c with phase := .swapping },
    .advance { c with phase := .leaving true }] ++ List.replicate 5 .fsm

theorem closeDialing_notSelected :
    connection.Run {} closeDialing ∧ Terminated (connection.exec {} closeDialing) ∧
    (connection.exec {} closeDialing).pc = .idle ∧
    (connection.exec {} closeDialing).state = .notSelected :=
  ⟨by decide +kernel, ⟨by decide +kernel, 1, by decide +kernel, by decide +kernel⟩,
    by decide +kernel, by decide +kernel⟩

end Hsms.Supervisor
