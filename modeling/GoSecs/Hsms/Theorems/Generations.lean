import GoSecs.Hsms.Theorems.Supervisor

open List Function Option

namespace Hsms.Supervisor

variable {s t : State} {a : Action} {f : Epoch → Epoch} {p : Phase} {g : Nat}

structure Apart (s t : State) : Prop where
  gate : t.gate = s.gate
  cur : t.cur = s.cur
  genSeq : t.genSeq = s.genSeq
  pending : t.pending = s.pending
  shutdown : t.shutdown = s.shutdown
  closeEpoch : t.closeEpoch = s.closeEpoch

theorem Turn.apart (h : Turn s t) : Apart s t := by
  cases h <;> exact ⟨rfl, rfl, rfl, rfl, rfl, rfl⟩

theorem Turn.epochs (h : Turn s t) :
    t.epochs = s.epochs ∨ s.pc.locks ∧ ∃ e, t.epochs = (s.setEpoch e Epoch.teardown).epochs := by
  cases h
  case tear e hp   => exact .inr ⟨hp ▸ rfl, e, rfl⟩
  case finish e hp => exact .inr ⟨hp ▸ rfl, e, rfl⟩
  all_goals exact .inl rfl

def Commit.raises (c : Commit) : Bool :=
  c.kind = .connected ∧ c.phase = .swapping

-- The commits inside the gate are of the current epoch, which has not ended and admits one TCP-up.
structure Gated (s : State) : Prop where
  live : ∀ c ∈ s.gate, s.cur = some c.id ∧ (s.epochs c.id).ended = false
  gen  : ∀ c ∈ s.gate, c.gen = 0 ∨ c.gen = c.id
  once : ∀ g ∈ s.cur, s.gate.countP Commit.raises + (s.epochs g).tcpUpCommitted.toNat ≤
    (s.epochs g).tcpUpAdmitted.toNat

theorem live_eq_some {gen e : Nat} (h : s.live gen = some e) :
    s.cur = some e ∧ (s.epochs e).ended = false ∧ (gen = 0 ∨ gen = e) := by
  unfold State.live at h
  split at h
  case h_1 => exact nomatch h
  case h_2 e' hc =>
    split at h
    case isTrue hl =>
      cases h
      exact ⟨hc, Bool.eq_false_iff.mpr hl.left, hl.right.imp_right Eq.symm⟩
    case isFalse => exact nomatch h

structure SameGate (s t : State) : Prop where
  gate : t.gate = s.gate
  cur : t.cur = s.cur
  ended : ∀ g, (t.epochs g).ended = (s.epochs g).ended
  admitted : ∀ g, (t.epochs g).tcpUpAdmitted = (s.epochs g).tcpUpAdmitted
  committed : ∀ g, (t.epochs g).tcpUpCommitted = (s.epochs g).tcpUpCommitted

theorem Gated.of_same (hs : Gated s) (h : SameGate s t) : Gated t where
  live := by
    intro c hc
    rw [h.cur, h.ended]
    exact hs.live c (h.gate ▸ hc)
  gen  := by rw [h.gate]; exact hs.gen
  once := by
    intro g hg
    rw [h.gate, h.admitted, h.committed]
    exact hs.once g (h.cur ▸ hg)

theorem SameGate.of_epochs (hg : t.gate = s.gate) (hc : t.cur = s.cur) (he : t.epochs = s.epochs) :
    SameGate s t :=
  ⟨hg, hc, fun _ => by rw [he], fun _ => by rw [he], fun _ => by rw [he]⟩

theorem setEpoch_eq (e g : Nat) (f : Epoch → Epoch) :
    (s.setEpoch e f).epochs g = if g = e then f (s.epochs g) else s.epochs g := by
  show update s.epochs e _ g = _
  rw [update_apply]
  split
  case isTrue h => rw [h]
  case isFalse  => rfl

theorem sameGate_setEpoch {e : Nat}
    (h : ∀ x, (f x).ended = x.ended ∧ (f x).tcpUpAdmitted = x.tcpUpAdmitted ∧
      (f x).tcpUpCommitted = x.tcpUpCommitted) : SameGate s (s.setEpoch e f) where
  gate := rfl
  cur := rfl
  ended g := by rw [setEpoch_eq]; split; exacts [(h _).left, rfl]
  admitted g := by rw [setEpoch_eq]; split; exacts [(h _).right.left, rfl]
  committed g := by rw [setEpoch_eq]; split; exacts [(h _).right.right, rfl]

theorem erase_gated {c : Commit} {t : State} (hs : Gated s) (hc : t.cur = s.cur)
    (he : ∀ g, (t.epochs g).ended = (s.epochs g).ended)
    (hg : ∀ d ∈ t.gate, d ∈ s.gate ∨ d.id = c.id ∧ d.gen = c.gen) (hm : c ∈ s.gate)
    (ho : ∀ g ∈ s.cur, t.gate.countP Commit.raises + (t.epochs g).tcpUpCommitted.toNat ≤
      (t.epochs g).tcpUpAdmitted.toNat) : Gated t where
  live d hd := by
    rw [hc, he]
    rcases hg d hd with h | ⟨h, _⟩
    · exact hs.live d h
    · exact h ▸ hs.live c hm
  gen d hd := by
    rcases hg d hd with h | ⟨h, h'⟩
    · exact hs.gen d h
    · exact h ▸ h' ▸ hs.gen c hm
  once g h := ho g (hc ▸ h)

theorem mem_setPhase {c d : Commit} (h : d ∈ (s.setPhase c p).gate) :
    d ∈ s.gate ∨ d.id = c.id ∧ d.gen = c.gen := by
  rcases mem_cons.mp h with rfl | h
  · exact .inr ⟨rfl, rfl⟩
  · exact .inl (mem_of_mem_erase h)

theorem countP_erase_raises {c : Commit} (hm : c ∈ s.gate) :
    s.gate.countP Commit.raises = (s.gate.erase c).countP Commit.raises + c.raises.toNat := by
  rw [(perm_cons_erase hm).countP_eq Commit.raises, countP_cons]
  cases c.raises <;> rfl

theorem countP_setPhase {c : Commit} (hm : c ∈ s.gate) :
    (s.setPhase c p).gate.countP Commit.raises + c.raises.toNat =
      s.gate.countP Commit.raises + Bool.toNat (Commit.raises { c with phase := p }) := by
  rw [countP_erase_raises hm]
  show List.countP _ (_ :: _) + _ = _
  rw [countP_cons]
  cases Commit.raises { c with phase := p } <;> simp [Nat.add_right_comm]

@[simp]
theorem setPhase_epochs (c : Commit) (p : Phase) : (s.setPhase c p).epochs = s.epochs :=
  rfl

@[simp]
theorem write_epochs (b : Bool) (ev : FsmEvent) (n g : Nat) (st : ConnState) :
    (s.write b ev n g st).epochs = s.epochs :=
  rfl

theorem raises_leaving (c : Commit) (b : Bool) :
    Commit.raises { c with phase := .leaving b } = false := by
  simp [Commit.raises]

theorem advance_gated {c : Commit} (h : Moves s (.advance c) t) (hs : Gated s) (hm : c ∈ s.gate) :
    Gated t := by
  have ⟨hid, _⟩ := hs.live c hm
  cases h
  case stale => exact hs.of_same (.of_epochs rfl rfl rfl)
  case grant hp ha =>
    refine erase_gated hs rfl (fun g => ?_) (fun _ => mem_setPhase) hm fun g hg => ?_
    · rw [setPhase_epochs, setEpoch_eq]
      split <;> rfl
    · -- The epoch admitted no TCP-up before, so this is the only one that may raise the link.
      cases some.inj (hid.symm.trans hg)
      have hn : _ + c.raises.toNat = s.gate.countP Commit.raises + _ :=
        countP_setPhase (s := s.setEpoch c.id ({ · with tcpUpAdmitted := true })) (p := .swapping) hm
      have ho := hs.once _ hid
      have hb := Bool.toNat_le (Commit.raises { c with phase := .swapping })
      rw [ha, Bool.toNat_false] at ho
      rw [setPhase_epochs, setEpoch_eq, if_pos rfl, Bool.toNat_true]
      show _ + (s.epochs c.id).tcpUpCommitted.toNat ≤ 1
      omega
  case swap hp _ =>
    refine erase_gated hs rfl (fun g => ?_) (fun _ => mem_setPhase) hm fun g hg => ?_
    · rw [State.swap, setPhase_epochs, setEpoch_eq, write_epochs]
      split
      case isTrue  => cases c.kind <;> rfl
      case isFalse => rfl
    · cases some.inj (hid.symm.trans hg)
      have hn : (s.swap c).gate.countP Commit.raises + _ = s.gate.countP Commit.raises + _ :=
        countP_setPhase (s := (s.write false c.kind.ev c.gen c.id c.kind.new).setEpoch c.id
          (State.mark c.kind)) (p := .leaving true) hm
      have ho := hs.once _ hid
      have hr : c.raises = decide (c.kind = .connected) := by simp [Commit.raises, hp]
      rw [hr, raises_leaving] at hn
      show _ + (Epoch.tcpUpCommitted ((s.swap c).epochs _)).toNat ≤ _
      rw [State.swap, setPhase_epochs, setEpoch_eq, if_pos rfl, write_epochs]
      rw [State.swap] at hn
      cases hk : c.kind <;> rw [hk] at hn <;> simp [State.mark] at hn ⊢ <;> omega
  case refuse =>
    refine erase_gated hs rfl (fun _ => rfl) (fun _ => mem_setPhase) hm fun g hg => ?_
    have hn := countP_setPhase (p := .leaving false) hm
    have := hs.once g hg
    rw [raises_leaving, Bool.toNat_false] at hn
    rw [setPhase_epochs]
    omega
  case leave =>
    refine erase_gated hs rfl (fun _ => rfl) (fun _ h => .inl (mem_of_mem_erase h)) hm
      fun g hg => ?_
    have hn := countP_erase_raises hm
    have := hs.once g hg
    show List.countP _ (s.gate.erase c) + (s.epochs g).tcpUpCommitted.toNat ≤
      (s.epochs g).tcpUpAdmitted.toNat
    omega

theorem gated_of_empty {e : Nat} (hs : Gated s) (hg : s.gate = [])
    (hf : ∀ x, (f x).tcpUpAdmitted = x.tcpUpAdmitted ∧ (f x).tcpUpCommitted = x.tcpUpCommitted) :
    Gated (s.setEpoch e f) where
  live c hc := absurd hc (by rw [show (s.setEpoch e f).gate = [] from hg]; exact not_mem_nil)
  gen c hc  := absurd hc (by rw [show (s.setEpoch e f).gate = [] from hg]; exact not_mem_nil)
  once g hc := by
    rw [setEpoch_eq]
    split
    case isTrue  => rw [(hf _).left, (hf _).right]; exact hs.once g hc
    case isFalse => exact hs.once g hc

theorem Epoch.teardown_flags (x : Epoch) :
    x.teardown.tcpUpAdmitted = x.tcpUpAdmitted ∧ x.teardown.tcpUpCommitted = x.tcpUpCommitted := by
  unfold Epoch.teardown
  split <;> exact ⟨rfl, rfl⟩

theorem Turn.gated (h : Turn s t) (hs : Gated s) (hf : s.pc.locks → s.gate = []) : Gated t := by
  have ha := h.apart
  rcases h.epochs with he | ⟨hl, e, he⟩
  · exact hs.of_same (.of_epochs ha.gate ha.cur he)
  · exact (gated_of_empty (e := e) hs (hf hl) Epoch.teardown_flags).of_same
      (.of_epochs ha.gate ha.cur he)

theorem gate_eq_nil_of_publish (hs : Gated s) (hf : fenced s .publish) : s.gate = [] := by
  by_contra hg
  have ⟨c, hc⟩ := exists_mem_of_ne_nil _ hg
  have ⟨hid, hl⟩ := hs.live c hc
  have ⟨he, _⟩ := hf.right c.id hid
  exact absurd (hl.symm.trans he) (by decide)

theorem publish_gated (hs : Gated s) (hf : fenced s .publish) : Gated s.publish := by
  have hnil : s.publish.gate = [] := show s.gate = [] from gate_eq_nil_of_publish hs hf
  refine ⟨by simp [hnil], by simp [hnil], fun g hc => ?_⟩
  cases hc
  show _ + (update s.epochs _ _ _).tcpUpCommitted.toNat ≤ _
  rw [hnil, update_self]
  exact Nat.zero_le _

theorem Moves.gated (h : Moves s a t) (hs : Gated s) (hm : guard s a) (hf : fenced s a) :
    Gated t := by
  cases h
  case publish => exact publish_gated hs hf
  case adopt => exact hs.of_same (sameGate_setEpoch fun _ => ⟨rfl, rfl, rfl⟩)
  case markEnded => exact gated_of_empty hs hf fun _ => ⟨rfl, rfl⟩
  case teardown => exact gated_of_empty hs hf Epoch.teardown_flags
  case disconnect e _ _ =>
    have h := sameGate_setEpoch (s := s) (e := e) (f := ({ · with commsFailure := true }))
      fun _ => ⟨rfl, rfl, rfl⟩
    exact hs.of_same ⟨rfl, rfl, h.ended, h.admitted, h.committed⟩
  case enter k gen e he =>
    have ⟨hc, hl, hn⟩ := live_eq_some he
    refine ⟨?_, ?_, ?_⟩
    · exact forall_mem_cons.mpr ⟨⟨hc, hl⟩, hs.live⟩
    · exact forall_mem_cons.mpr ⟨hn, hs.gen⟩
    · intro g hg
      rw [countP_cons_of_neg (by cases k <;> simp [Commit.raises])]
      exact hs.once g hg
  case grant hp h  => exact advance_gated (.grant hp h) hs hm
  case swap hp h   => exact advance_gated (.swap hp h) hs hm
  case refuse h    => exact advance_gated (.refuse h) hs hm
  case leave hp    => exact advance_gated (.leave hp) hs hm
  all_goals exact hs.of_same (.of_epochs rfl rfl rfl)

theorem gated_next (hs : Gated s) (hg : connection.guard s a) : Gated (next s a) := by
  by_cases ha : a = .fsm
  case pos =>
    subst ha
    exact (fsm_turn s).gated hs hg.right
  case neg => exact (next_moves ha).gated hs hg.left hg.right

theorem gated (h : connection.Reachable s) : Gated s := by
  refine h.invariant ?_ fun _ => gated_next
  rintro _ ⟨n, rfl⟩
  exact ⟨by simp, by simp, by simp⟩

-- The current generation came up, and the reaction to its drop is still to come.
def Up (s : State) (g : Nat) : Prop :=
  s.cur = some g ∧ (s.epochs g).tcpUpCommitted ∧ .startConnectLoop g ∉ s.effects

-- What the supervisor goroutine relies on between its check of the generation and its reaction.
def Falling (s : State) : Pc → Prop
  | .storing cmd _ cur _ => cur ≠ .notConnected → cmd.gen ≠ 0 → s.cur = some cmd.gen
  | .firing _ _ next left => Dropped next left → s.state = .notConnected ∧ ∃ g, Up s g
  | .reacting _ _ _ => s.state = .notConnected ∧ ∃ g, Up s g
  | .resolved _ _ _ e => s.state = .notConnected ∧ Up s e
  | _ => True

-- While the link is up, the generation that brought it up is current and has no successor.
structure Linked (s : State) : Prop where
  bound : ∀ g ∈ s.cur, 0 < g ∧ g ≤ s.genSeq
  loops : ∀ g, .startConnectLoop g ∈ s.effects → g ≤ s.genSeq
  up    : s.state ≠ .notConnected → ∃ g, Up s g
  down  : ∀ g ∈ s.cur, (s.epochs g).tcpUpCommitted = false → .startConnectLoop g ∉ s.effects
  pc    : Falling s s.pc

structure SameLink (s t : State) : Prop where
  state : t.state = s.state
  pc : t.pc = s.pc
  loops : ∀ g, .startConnectLoop g ∈ t.effects ↔ .startConnectLoop g ∈ s.effects
  cur : t.cur = s.cur
  genSeq : t.genSeq = s.genSeq
  committed : ∀ g, (t.epochs g).tcpUpCommitted = (s.epochs g).tcpUpCommitted

theorem SameLink.up (h : SameLink s t) : Up t g ↔ Up s g := by
  unfold Up
  rw [h.cur, h.committed, h.loops]

theorem Linked.of_same (hs : Linked s) (h : SameLink s t) : Linked t where
  bound := by rw [h.cur, h.genSeq]; exact hs.bound
  loops g := by rw [h.loops, h.genSeq]; exact hs.loops g
  up ht := (hs.up (h.state ▸ ht)).imp fun _ => h.up.mpr
  down g := by rw [h.cur, h.committed, h.loops]; exact hs.down g
  pc := by
    have := hs.pc
    rw [h.pc]
    cases hp : s.pc <;> simp only [Falling, hp, h.state, h.cur, h.up] at this ⊢ <;> exact this

theorem not_up_of_publish (hf : fenced s .publish) : ¬Up s g := by
  intro ⟨hc, hu, hl⟩
  have ⟨_, he⟩ := hf.right g hc
  rcases he with he | he
  · exact absurd (hu.symm.trans he) (by decide)
  · exact hl he

theorem publish_linked (hs : Linked s) (ht : Tracks s) (hf : fenced s .publish) :
    Linked s.publish where
  bound g hg := by cases hg; exact ⟨Nat.succ_pos _, Nat.le_refl _⟩
  loops g hg := Nat.le_succ_of_le (hs.loops g hg)
  up hst := (hs.up hst).elim fun _ hu => absurd hu (not_up_of_publish hf)
  down g hg _ hl := by
    cases hg
    exact absurd (hs.loops _ hl) (Nat.not_succ_le_self _)
  pc := by
    have hsd := ht.sound
    have hpc := hs.pc
    show Falling _ s.pc
    cases hp : s.pc <;> rw [hp] at hsd hpc
    case storing cmd closing cur next =>
      intro hc
      have hst := hsd.left
      rw [Loaded, if_neg hc] at hst
      exact (hs.up hst).elim fun _ hu => absurd hu (not_up_of_publish hf)
    case firing   => exact fun hd => (hpc hd).right.elim fun _ hu => absurd hu (not_up_of_publish hf)
    case reacting => exact hpc.right.elim fun _ hu => absurd hu (not_up_of_publish hf)
    case resolved => exact absurd hpc.right (not_up_of_publish hf)
    all_goals trivial

theorem swap_committed (c : Commit) (g : Nat) : ((s.swap c).epochs g).tcpUpCommitted =
    if g = c.id ∧ c.kind = .connected then true else (s.epochs g).tcpUpCommitted := by
  rw [State.swap, setPhase_epochs, setEpoch_eq, write_epochs]
  by_cases hg : g = c.id
  case pos => cases c.kind <;> simp [hg, State.mark]
  case neg => simp [hg]

theorem swap_linked {c : Commit} (hs : Linked s) (hg : Gated s) (hm : c ∈ s.gate)
    (hp : c.phase = .swapping) (h : Swapped s (s.swap c) c) : Linked (s.swap c) := by
  have hcur : (s.swap c).cur = s.cur := rfl
  have hcom := swap_committed (s := s) c
  have ⟨hid, _⟩ := hg.live c hm
  have hmono {g} (hu : Up s g) : Up (s.swap c) g := by
    refine ⟨hcur.trans hu.left, ?_, h.effects ▸ hu.right.right⟩
    rw [hcom]
    split
    exacts [rfl, hu.right.left]
  -- The only TCP-up of an epoch finds it not yet up.
  have hdown (hk : c.kind = .connected) : (s.epochs c.id).tcpUpCommitted = false := by
    have hr : 0 < s.gate.countP Commit.raises :=
      countP_pos_iff.mpr ⟨c, hm, by simp [Commit.raises, hk, hp]⟩
    have := hg.once _ hid
    have := Bool.toNat_le (s.epochs c.id).tcpUpAdmitted
    rw [← Bool.toNat_eq_zero]
    omega
  have hnot {g} (hst : s.state = .notConnected) (hu : Up s g) : False := by
    have hk : c.kind = .connected := by
      have := h.old.symm.trans hst
      cases hk : c.kind <;> rw [hk] at this <;> first | rfl | exact nomatch this
    cases some.inj (hid.symm.trans hu.left)
    exact absurd ((hdown hk).symm.trans hu.right.left) (by decide)
  refine ⟨?_, ?_, fun _ => ?_, ?_, ?_⟩
  · exact hs.bound
  · rw [h.effects]; exact hs.loops
  · by_cases hk : c.kind = .connected
    case pos =>
      refine ⟨c.id, hcur.trans hid, ?_, h.effects ▸ hs.down _ hid (hdown hk)⟩
      rw [hcom, if_pos ⟨rfl, hk⟩]
    case neg =>
      have hst : s.state ≠ .notConnected := by
        rw [h.old]
        cases hk' : c.kind <;> first | exact absurd hk' hk | decide
      exact (hs.up hst).imp fun _ => hmono
  · intro g hgc hf
    rw [h.effects]
    rw [hcom] at hf
    split at hf
    · exact nomatch hf
    · exact hs.down g (hcur ▸ hgc) hf
  · have hpc := hs.pc
    rw [h.pc]
    cases hp' : s.pc <;> rw [hp'] at hpc
    case storing  => exact fun h₁ h₂ => hcur.trans (hpc h₁ h₂)
    case firing   => exact fun hd => (hpc hd).right.elim fun _ => (hnot (hpc hd).left · |>.elim)
    case reacting => exact hpc.right.elim fun _ => (hnot hpc.left · |>.elim)
    case resolved => exact (hnot hpc.left hpc.right).elim
    all_goals trivial

theorem sameLink_setEpoch {e : Nat}
    (h : ∀ x, (f x).tcpUpCommitted = x.tcpUpCommitted) : SameLink s (s.setEpoch e f) where
  state := rfl
  pc := rfl
  loops _ := Iff.rfl
  cur := rfl
  genSeq := rfl
  committed g := by rw [setEpoch_eq]; split; exacts [h _, rfl]

theorem Moves.sameLink (h : Moves s a t) (ha : a ≠ .publish) (hst : t.state = s.state) :
    SameLink s t := by
  cases h
  case publish => exact absurd rfl ha
  case swap c _ h => exact absurd (h.symm.trans hst.symm) c.kind.old_ne_new
  case adopt => exact sameLink_setEpoch fun _ => rfl
  case markEnded => exact sameLink_setEpoch fun _ => rfl
  case teardown => exact sameLink_setEpoch fun x => x.teardown_flags.right
  case grant c _ _ =>
    exact ⟨rfl, rfl, fun _ => .rfl, rfl, rfl, (sameLink_setEpoch (s := s) (e := c.id)
      (f := ({ · with tcpUpAdmitted := true })) fun _ => rfl).committed⟩
  case disconnect e _ _ =>
    exact ⟨rfl, rfl, fun _ => .rfl, rfl, rfl, (sameLink_setEpoch (s := s) (e := e)
      (f := ({ · with commsFailure := true })) fun _ => rfl).committed⟩
  all_goals exact ⟨rfl, rfl, fun _ => .rfl, rfl, rfl, fun _ => rfl⟩

theorem curGen_eq (h : s.curGen = g) (hg : g ≠ 0) : s.cur = some g := by
  unfold State.curGen at h
  cases hc : s.cur <;> rw [hc] at h
  case none => exact absurd h.symm hg
  case some => exact congrArg some h

theorem mem_fireTransition {sc : StateChange} :
    .startConnectLoop g ∈ (s.fireTransition sc).effects ↔ .startConnectLoop g ∈ s.effects := by
  unfold State.fireTransition
  dsimp only
  split <;> simp

theorem Linked.move (hs : Linked s) (h : SameLink s { t with pc := s.pc }) (hp : Falling t t.pc) :
    Linked t :=
  have hl := hs.of_same h
  ⟨hl.bound, hl.loops, hl.up, hl.down, hp⟩

theorem Turn.linked (h : Turn s t) (hs : Linked s) (ht : Tracks s) : Linked t := by
  have hpc := hs.pc
  have hsd := ht.sound
  have hset (e : Nat) := sameLink_setEpoch (s := s) (e := e) fun x => x.teardown_flags.right
  cases h
  case rest => exact hs
  case accept hg _ =>
    exact hs.move ⟨rfl, rfl, fun _ => .rfl, rfl, rfl, fun _ => rfl⟩ fun _ h0 => curGen_eq (hg h0) h0
  case keep =>
    exact hs.move ⟨rfl, rfl, fun _ => .rfl, rfl, rfl, fun _ => rfl⟩ fun hd => absurd hd.left hd.right
  case store hp hne _ =>
    rw [hp] at hsd
    have hst := hsd.left
    rw [Loaded, if_neg (hsd.right.cur_ne hne)] at hst
    have hup := hs.up hst
    exact ⟨hs.bound, hs.loops, fun _ => hup, hs.down, fun hd => ⟨hd.left, hup⟩⟩
  case fire hp hf =>
    rw [hp] at hpc
    refine hs.move ⟨rfl, rfl, fun _ => mem_fireTransition, rfl, rfl, fun _ => rfl⟩ ?_
    show Falling _ (ite _ _ _)
    split
    case isTrue hn =>
      obtain ⟨hst, g, hu⟩ := hpc (dropped_of_fires ht hp hf hn)
      exact ⟨hst, g, hu.left, hu.right.left, mt mem_fireTransition.mp hu.right.right⟩
    case isFalse => trivial
  case resolve hp he =>
    rw [hp] at hpc
    refine hs.move ⟨rfl, rfl, fun _ => .rfl, rfl, rfl, fun _ => rfl⟩ ⟨hpc.left, ?_⟩
    obtain ⟨g, hg⟩ := hpc.right
    cases some.inj (he.symm.trans hg.left)
    exact hg
  case react e l hp hl =>
    rw [hp] at hpc
    obtain ⟨hst, hc, hu, _⟩ := hpc
    refine ⟨hs.bound, fun g hg => ?_, fun h => absurd hst h, fun g hg hd => ?_, trivial⟩
    · have hg : g = e ∨ .startConnectLoop g ∈ s.effects := by
        rcases hl with rfl | rfl <;> split at hg <;> simp at hg <;> tauto
      rcases hg with rfl | hg
      · exact (hs.bound g hc).right
      · exact hs.loops g hg
    · cases some.inj (hc.symm.trans hg)
      exact absurd (hu.symm.trans hd) (by decide)
  case tear e _   => exact hs.move ⟨rfl, rfl, fun _ => .rfl, rfl, rfl, (hset e).committed⟩ trivial
  case finish e _ => exact hs.move ⟨rfl, rfl, fun _ => .rfl, rfl, rfl, (hset e).committed⟩ trivial
  case latch h =>
    refine hs.move ⟨rfl, rfl, fun _ => .rfl, rfl, rfl, fun _ => rfl⟩ ?_
    rcases h with rfl | ⟨_, rfl⟩ <;> trivial
  all_goals exact hs.move ⟨rfl, rfl, fun _ => .rfl, rfl, rfl, fun _ => rfl⟩ trivial

theorem linked_next (hs : Linked s) (ht : Tracks s) (hg : Gated s) (h : connection.guard s a) :
    Linked (next s a) := by
  by_cases ha : a = .fsm
  case pos =>
    subst ha
    exact (fsm_turn s).linked hs ht
  case neg =>
    have hm := next_moves (s := s) ha
    rcases hm.same_or_swap with hsm | ⟨c, rfl, hp, hst, he⟩
    case inl =>
      by_cases hp : a = .publish
      case pos =>
        subst hp
        exact publish_linked hs ht h.right
      case neg => exact hs.of_same (hm.sameLink hp hsm.state)
    case inr =>
      rw [he]
      exact swap_linked hs hg h.left hp (swapped_swap hst)

theorem linked (h : connection.Reachable s) : Linked s := by
  refine h.invariant ?_ fun hr hs hg => linked_next hs (tracks hr.of_restrict) (gated hr) hg
  rintro _ ⟨n, rfl⟩
  exact ⟨by simp, by simp, by simp, by simp, trivial⟩

def Pc.cmd : Pc → Option FsmCommand
  | .idle => none
  | .loading c _ => some c
  | .matching c _ _ => some c
  | .storing c _ _ _ => some c
  | .firing c _ _ _ => some c
  | .reacting c _ _ => some c
  | .resolved c _ _ _ => some c
  | .tearing c _ _ => some c
  | .finishing c _ => some c
  | .ending _ => none

def Queued (s : State) (cmd : FsmCommand) : Prop :=
  cmd ∈ s.pending ∨ cmd ∈ s.events ∨ s.pc.cmd = some cmd

def Selects (log : List Change) (g : Nat) : Prop :=
  ∃ k ∈ log, k.byStep = false ∧ k.gen = g ∧ k.new = .selected ∧ k.cur = some g

-- Only a close names no generation, and a Select event follows its commit.
def Faithful (log : List Change) (cmd : FsmCommand) : Prop :=
  (cmd.ev ≠ .close → cmd.gen ≠ 0) ∧ (cmd.ev = .selectAccepted → Selects log cmd.gen)

structure Echoes (s : State) : Prop where
  queued : ∀ cmd, Queued s cmd → Faithful s.log cmd
  gate   : ∀ c ∈ s.gate, c.phase = .leaving true → c.kind = .selected → Selects s.log c.id

theorem Faithful.mono {l l' : List Change} {cmd : FsmCommand} (h : Faithful l cmd) (hl : l ⊆ l') :
    Faithful l' cmd :=
  ⟨h.left, fun he => (h.right he).imp fun _ ⟨hk, h⟩ => ⟨hl hk, h⟩⟩

-- Within `step` the goroutine keeps its command. Outside it takes the head of the queue.
theorem Turn.events (h : Turn s t) : t.events ⊆ s.events ∧
    ∀ cmd, t.pc.cmd = some cmd → s.pc.cmd = some cmd ∨ cmd ∈ s.events := by
  have none {p : FsmCommand → Prop} {pc : Pc} (h : pc.cmd = none) (cmd) (hc : pc.cmd = some cmd) :
      p cmd := nomatch h.symm.trans hc
  cases h
  case rest => exact ⟨List.Subset.refl _, fun _ => .inl⟩
  case drop he _ => exact ⟨by rw [he]; exact subset_cons_self .., none rfl⟩
  case take he _ =>
    refine ⟨by rw [he]; exact subset_cons_self .., fun _ hc => .inr ?_⟩
    cases hc
    exact he ▸ mem_cons_self ..
  case latch h =>
    refine ⟨List.Subset.refl _, none ?_⟩
    rcases h with rfl | ⟨_, rfl⟩ <;> rfl
  case fire hp _ =>
    refine ⟨List.Subset.refl _, fun cmd hc => .inl ?_⟩
    rw [hp, ← hc, State.fired]
    dsimp only
    split <;> rfl
  all_goals
    have hp := ‹s.pc = _›
    rw [hp]
    first
    | exact ⟨List.Subset.refl _, fun _ => .inl⟩
    | exact ⟨List.Subset.refl _, none rfl⟩

theorem fsm_queued {cmd : FsmCommand} (h : Queued s.fsm cmd) : Queued s cmd := by
  have ht := fsm_turn s
  have ⟨he, hc⟩ := ht.events
  rcases h with h | h | h
  · exact .inl (ht.apart.pending ▸ h)
  · exact .inr (.inl (he h))
  · exact .inr ((hc cmd h).symm)

theorem log_subset (s : State) (a : Action) : s.log ⊆ (next s a).log := by
  by_cases ha : a = .fsm
  case pos =>
    subst ha
    rcases fsm_cases s with hc | ⟨_, _, _, _, _, _, _, hf⟩ | ⟨_, _, _, _, _, _, hf⟩
    · exact hc.log ▸ List.Subset.refl _
    · show s.log ⊆ s.fsm.log
      rw [hf]
      show s.log ⊆ ite _ _ _
      split
      exacts [List.Subset.refl _, subset_cons_self ..]
    · show s.log ⊆ s.fsm.log
      rw [hf]
      exact List.Subset.refl _
  case neg =>
    rcases next_cases (s := s) ha with h | ⟨c, _, _, h⟩
    · exact h.log ▸ List.Subset.refl _
    · exact h.log ▸ subset_cons_self ..

inductive Brings (s : State) : Action → FsmCommand → Prop
  | echo {c} (h : c.phase = .leaving true) :
    Brings s (.advance c) ⟨c.kind.ev, c.kind.cause, c.id⟩
  | disconnect {gen cause e} (hc : s.cur = some e) (hg : gen = 0 ∨ gen = e) :
    Brings s (.tcpDown gen cause) ⟨.disconnect, cause, e⟩
  | expiry {gen} (hg : gen ≠ 0) :
    Brings s (.t7Expired gen) ⟨.t7Timeout, .t7Timeout, gen⟩
  | expiryBound {e} (hc : s.cur = some e) :
    Brings s (.t7Expired 0) ⟨.t7Timeout, .t7Timeout, e⟩
  | close : Brings s .requestClose ⟨.close, .localClose, 0⟩

theorem queued_next {d : FsmCommand} (ha : a ≠ .fsm) (hg : guard s a)
    (h : Queued (next s a) d) : Queued s d ∨ Brings s a d := by
  have keep {t : State} {b : Action} {cmd : FsmCommand} (h : Queued t d) (hb : Brings s b cmd)
      (hp : t.pending = cmd :: s.pending) (he : t.events = s.events) (hc : t.pc = s.pc) :
      Queued s d ∨ Brings s b d := by
    unfold Queued at h
    rw [hp, he, hc, mem_cons] at h
    rcases h with (rfl | h) | h
    exacts [.inr hb, .inl (.inl h), .inl (.inr h)]
  have hm := next_moves (s := s) ha
  generalize next s a = t at hm h
  cases hm
  case leave c b hp =>
    cases b
    case false => exact .inl h
    case true  => exact keep h (.echo hp) rfl rfl rfl
  case enqueue cmd =>
    left
    rcases h with h | h | h
    · exact .inl (mem_of_mem_erase h)
    · rcases mem_append.mp h with h | h
      · exact .inr (.inl h)
      · exact .inl (mem_singleton.mp h ▸ hg.left)
    · exact .inr (.inr h)
  case disconnect hc hb => exact keep h (.disconnect hc hb) rfl rfl rfl
  case expire he =>
    rcases he with ⟨hn, rfl⟩ | ⟨rfl, hc⟩
    · exact keep h (.expiry hn) rfl rfl rfl
    · exact keep h (.expiryBound hc) rfl rfl rfl
  case close => exact keep h .close rfl rfl rfl
  all_goals exact .inl h

theorem leaving_next {d : Commit} (hd : d ∈ (next s a).gate) (hp : d.phase = .leaving true) :
    d ∈ s.gate ∨ ∃ c, a = .advance c ∧ d = { c with phase := .leaving true } ∧
      Swapped s (next s a) c := by
  by_cases ha : a = .fsm
  case pos =>
    subst ha
    exact .inl ((fsm_turn s).apart.gate ▸ hd)
  case neg =>
    have hm := next_moves (s := s) ha
    generalize next s a = t at hm hd ⊢
    have front {e : Commit} {l : List Commit} (hd : d ∈ e :: l) (hl : l ⊆ s.gate)
        (he : e.phase ≠ .leaving true) : d ∈ s.gate := by
      rcases mem_cons.mp hd with rfl | hd
      exacts [absurd hp he, hl hd]
    cases hm
    case swap c _ h =>
      rcases mem_cons.mp hd with rfl | hd
      · exact .inr ⟨c, rfl, rfl, swapped_swap h⟩
      · exact .inl (mem_of_mem_erase hd)
    case grant  => exact .inl (front hd (erase_subset ..) Phase.noConfusion)
    case refuse => exact .inl (front hd (erase_subset ..) (by simp))
    case enter  =>
      exact .inl (front hd (List.Subset.refl _) (by dsimp only; split <;> exact Phase.noConfusion))
    case leave  => exact .inl (mem_of_mem_erase hd)
    all_goals exact .inl hd

theorem echoes_next (hs : Echoes s) (hl : Linked s) (hg : Gated s) (h : connection.guard s a) :
    Echoes (next s a) := by
  have hsub := log_subset s a
  refine ⟨fun cmd hq => ?_, fun d hd hp hk => ?_⟩
  · by_cases ha : a = .fsm
    case pos =>
      subst ha
      exact (hs.queued cmd (fsm_queued hq)).mono hsub
    case neg =>
      rcases queued_next ha h.left hq with hq | hb
      case inl => exact (hs.queued cmd hq).mono hsub
      case inr =>
        have hpos {e : Nat} (hc : s.cur = some e) : e ≠ 0 :=
          Nat.ne_of_gt (hl.bound e hc).left
        cases hb
        case echo c hp =>
          have hc := (hg.live c h.left).left
          refine ⟨fun _ => hpos hc, fun he => ?_⟩
          have hk : c.kind = .selected := by
            cases hk : c.kind <;> rw [hk] at he <;> first | rfl | exact nomatch he
          exact (hs.gate c h.left hp hk).imp fun _ ⟨hm, h⟩ => ⟨hsub hm, h⟩
        case disconnect hc _ => exact ⟨fun _ => hpos hc, FsmEvent.noConfusion⟩
        case expiry hn => exact ⟨fun _ => hn, FsmEvent.noConfusion⟩
        case expiryBound hc => exact ⟨fun _ => hpos hc, FsmEvent.noConfusion⟩
        case close => exact ⟨(absurd rfl ·), FsmEvent.noConfusion⟩
  · rcases leaving_next hd hp with hd | ⟨c, rfl, rfl, hsw⟩
    · exact (hs.gate d hd hp hk).imp fun _ ⟨hm, h⟩ => ⟨hsub hm, h⟩
    · rw [hsw.log]
      exact ⟨_, mem_cons_self .., rfl, rfl, congrArg Kind.new hk, (hg.live c h.left).left⟩

theorem echoes (h : connection.Reachable s) : Echoes s := by
  refine h.invariant ?_ fun hr hs hg => echoes_next hs (linked hr) (gated hr) hg
  rintro _ ⟨n, rfl⟩
  exact ⟨by simp [Queued, Pc.cmd], by simp⟩

-- A commit of `g` established the state, and only `g` was current at the changes since then.
def Established (log : List Change) (g : Nat) (st : ConnState) : Prop :=
  ∃ l k r, log = l ++ k :: r ∧ k.byStep = false ∧ k.gen = g ∧ k.new = st ∧ ∀ x ∈ l, x.cur = some g

-- A change was made for the generation that was current. Only a close names none.
structure Owned (c : Change) : Prop where
  cur   : ∃ g, 0 < g ∧ c.cur = some g
  gen   : c.ev ≠ .close → c.cur = some c.gen
  named : c.named ≠ 0 → c.cur = some c.named

def Change.curGen (c : Change) : Nat :=
  c.cur.getD 0

-- A drop by a disconnect or a T7 expiry replaced what a commit of its generation established.
def Justified : List Change → Prop
  | [] => True
  | c :: r =>
    (c.byStep → c.ev = .disconnect ∨ c.ev = .t7Timeout → Established r c.gen c.old) ∧ Justified r

structure Attributed (s : State) : Prop where
  owned : ∀ c ∈ s.log, Owned c
  order : s.log.Pairwise fun c d => d.curGen ≤ c.curGen
  bound : ∀ c ∈ s.log, c.curGen ≤ s.curGen
  est : s.state ≠ .notConnected → ∀ g ∈ s.cur, Established s.log g s.state
  justified : Justified s.log

theorem Attributed.of_same (hs : Attributed s) (hl : t.log = s.log) (hst : t.state = s.state)
    (hc : t.cur = s.cur) : Attributed t where
  owned := by rw [hl]; exact hs.owned
  order := by rw [hl]; exact hs.order
  bound := by unfold State.curGen; rw [hl, hc]; exact hs.bound
  est := by rw [hl, hst, hc]; exact hs.est
  justified := by rw [hl]; exact hs.justified

theorem Attributed.change {c : Change} (hs : Attributed s) (hl : t.log = c :: s.log)
    (hc : t.cur = s.cur) (ho : Owned c) (hcur : c.cur = s.cur)
    (he : t.state ≠ .notConnected → ∀ g ∈ s.cur, Established (c :: s.log) g t.state)
    (hj : c.byStep → c.ev = .disconnect ∨ c.ev = .t7Timeout → Established s.log c.gen c.old) :
    Attributed t where
  owned := by rw [hl]; exact forall_mem_cons.mpr ⟨ho, hs.owned⟩
  order := by
    rw [hl]
    refine pairwise_cons.mpr ⟨fun d hd => ?_, hs.order⟩
    unfold Change.curGen
    rw [hcur]
    exact hs.bound d hd
  bound := by
    unfold State.curGen
    rw [hl, hc]
    exact forall_mem_cons.mpr ⟨Nat.le_of_eq (congrArg (·.getD 0) hcur), hs.bound⟩
  est := by rw [hl, hc]; exact he
  justified := by rw [hl]; exact ⟨hj, hs.justified⟩

theorem swap_attributed {c : Commit} (hs : Attributed s) (hl : Linked s) (hg : Gated s)
    (hm : c ∈ s.gate) (h : Swapped s (s.swap c) c) : Attributed (s.swap c) := by
  have ⟨hid, _⟩ := hg.live c hm
  refine hs.change h.log rfl ⟨⟨c.id, (hl.bound _ hid).left, hid⟩, fun _ => hid, fun hn => ?_⟩ rfl
    (fun _ g hgc => ?_) Bool.noConfusion
  · exact (hg.gen c hm).resolve_left hn ▸ hid
  · cases some.inj (hid.symm.trans hgc)
    exact ⟨[], _, s.log, rfl, rfl, rfl, h.new.symm, by simp⟩

theorem established_of_selects (hs : Attributed s) (hc : s.cur = some g)
    (h : Selects s.log g) : Established s.log g .selected := by
  have ⟨k, hk, hb, hkg, hkn, hkc⟩ := h
  have ⟨l, r, hlr⟩ := append_of_mem hk
  refine ⟨l, k, r, hlr, hb, hkg, hkn, fun x hx => ?_⟩
  have hmem : x ∈ s.log := hlr ▸ mem_append_left _ hx
  have ⟨g', _, hg'⟩ := (hs.owned x hmem).cur
  have hle : x.curGen ≤ s.curGen := hs.bound x hmem
  have hge : k.curGen ≤ x.curGen := by
    have := hs.order
    rw [hlr, pairwise_append] at this
    exact this.right.right x hx k (mem_cons_self ..)
  rw [Change.curGen, State.curGen, hg', hc] at hle
  rw [Change.curGen, Change.curGen, hg', hkc] at hge
  exact hg'.trans (congrArg some (Nat.le_antisymm hle hge))

theorem store_attributed {cmd : FsmCommand} {closing : Option Nat} {cur next : ConnState}
    (hs : Attributed s) (ht : Tracks s) (hl : Linked s) (he : Echoes s)
    (hp : s.pc = .storing cmd closing cur next) (hne : next ≠ cur) :
    Attributed { s.write true cmd.ev cmd.gen cmd.gen next with
      pc := .firing cmd closing next s.state } := by
  obtain ⟨hld, hst⟩ : Loaded s cur ∧ Stores cmd.ev cur next := by
    have := ht.sound
    rwa [hp] at this
  have hcur : cmd.gen ≠ 0 → s.cur = some cmd.gen := by
    have := hl.pc
    rw [hp] at this
    exact this (hst.cur_ne hne)
  obtain ⟨hnz, hecho⟩ := he.queued cmd (.inr (.inr (by rw [hp]; rfl)))
  rw [Loaded, if_neg (hst.cur_ne hne)] at hld
  obtain ⟨g, hg, _⟩ := hl.up hld
  by_cases heq : s.state = next
  case pos =>
    exact hs.of_same (if_pos heq) heq.symm rfl
  case neg =>
    refine hs.change (if_neg heq) rfl ⟨⟨g, (hl.bound g hg).left, hg⟩, fun hc => hcur (hnz hc), hcur⟩
      rfl (fun hn g' hg' => ?_) (fun _ hev => ?_)
    · -- The link stays up, so this is the event of a Select.
      obtain ⟨hev, _, hnext⟩ := hst.eq_selectAccepted hne hn
      have hgen := hcur (hnz (hev ▸ FsmEvent.noConfusion))
      cases some.inj (hgen.symm.trans hg')
      obtain ⟨l, k, r, hlr, hb, hk, hkn, hx⟩ := established_of_selects hs hgen (hecho hev)
      exact ⟨_ :: l, k, r, congrArg _ hlr, hb, hk, hkn.trans hnext.symm,
        forall_mem_cons.mpr ⟨hgen, hx⟩⟩
    · have hgen := hcur (hnz (by rintro hc; rcases hev with h | h <;> cases hc.symm.trans h))
      exact hs.est hld _ hgen

theorem publish_attributed (hs : Attributed s) (hl : Linked s) (hf : fenced s .publish) :
    Attributed s.publish where
  owned := hs.owned
  order := hs.order
  bound c hc := by
    have hle : s.curGen ≤ s.genSeq := by
      unfold State.curGen
      cases hc : s.cur
      case none   => exact Nat.zero_le _
      case some g => exact (hl.bound g hc).right
    exact Nat.le_succ_of_le (Nat.le_trans (hs.bound c hc) hle)
  est hst   := (hl.up hst).elim fun _ hu => absurd hu (not_up_of_publish hf)
  justified := hs.justified

theorem Moves.cur (h : Moves s a t) (ha : a ≠ .publish) : t.cur = s.cur ∧ t.genSeq = s.genSeq := by
  cases h <;> first | exact ⟨rfl, rfl⟩ | exact absurd rfl ha

theorem cur_next (ha : a ≠ .publish) : (next s a).cur = s.cur := by
  by_cases hf : a = .fsm
  case pos =>
    subst hf
    exact (fsm_turn s).apart.cur
  case neg => exact ((next_moves hf).cur ha).left

theorem attributed_next (hs : Attributed s) (ht : Tracks s) (hl : Linked s) (hg : Gated s)
    (he : Echoes s) (h : connection.guard s a) : Attributed (next s a) := by
  have ⟨hm, hf⟩ := h
  by_cases ha : a = .fsm
  case pos =>
    subst ha
    rcases fsm_cases s with hc | ⟨_, _, _, _, hp, hne, _, hf⟩ | ⟨_, _, _, _, _, _, hf⟩
    · exact hs.of_same hc.log hc.state (fsm_turn s).apart.cur
    · show Attributed s.fsm
      exact hf ▸ store_attributed hs ht hl he hp hne
    · show Attributed s.fsm
      exact hf ▸ hs.of_same rfl rfl rfl
  case neg =>
    rcases (next_moves (s := s) ha).same_or_swap with h | ⟨c, rfl, hp, hst, he⟩
    case inr =>
      rw [he]
      exact swap_attributed hs hl hg hm (swapped_swap hst)
    case inl =>
      by_cases hpub : a = .publish
      case pos =>
        subst hpub
        exact publish_attributed hs hl hf
      case neg => exact hs.of_same h.log h.state (cur_next hpub)

theorem attributed (h : connection.Reachable s) : Attributed s := by
  refine h.invariant ?_ fun hr hs hg =>
    attributed_next hs (tracks hr.of_restrict) (linked hr) (gated hr) (echoes hr) hg
  rintro _ ⟨n, rfl⟩
  exact ⟨by simp, .nil, by simp, by simp, trivial⟩

theorem Justified.of_append {l r : List Change} {c : Change} (h : Justified (l ++ c :: r)) :
    c.byStep → c.ev = .disconnect ∨ c.ev = .t7Timeout → Established r c.gen c.old := by
  induction l
  case nil => exact h.left
  case cons _ l ih => exact ih h.right

-- A generation changes the state only while it is current, and a disconnect or a T7 expiry drops
-- only what its own generation established.
theorem generation_isolation (h : connection.Reachable s) :
    (∀ c ∈ s.log,
      (c.named ≠ 0 → c.cur = some c.named) ∧ (c.ev ≠ .close → c.cur = some c.gen)) ∧
    ∀ l c r, s.log = l ++ c :: r → c.byStep → c.ev = .disconnect ∨ c.ev = .t7Timeout →
      Established r c.gen c.old :=
  have hs := attributed h
  ⟨fun c hc => ⟨(hs.owned c hc).named, (hs.owned c hc).gen⟩,
    fun _ _ _ hl => (hl ▸ hs.justified).of_append⟩

def bringUp (g : Nat) : List Action :=
  let c : Commit := ⟨.connected, g, g, .admitting⟩
  [.commitFrom .connected g, .advance c, .advance { c with phase := .swapping },
    .advance { c with phase := .leaving true }, .enqueue ⟨.tcpUp, .localOpen, g⟩]

-- Of two disconnects of the first generation the second is enqueued only when its successor is up.
def late : List Action :=
  let down : FsmCommand := ⟨.disconnect, .ioError, 1⟩
  .publish :: bringUp 1 ++ [.tcpDown 1 .ioError, .tcpDown 1 .ioError, .enqueue down] ++
    List.replicate 15 .fsm ++ .publish :: bringUp 2 ++ .enqueue down :: List.replicate 9 .fsm

theorem generation_isolation_late :
    (connection.exec {} late).cur = some 2 ∧ (connection.exec {} late).state = .notSelected ∧
    (connection.exec {} late).log.length = 3 ∧
    ∀ c ∈ (connection.exec {} late).log, c.ev ≠ .close → c.cur = some c.gen :=
  have h : connection.Reachable (connection.exec {} late) :=
    .exec (.init ⟨0, rfl⟩) (by decide +kernel)
  ⟨by decide +kernel, by decide +kernel, by decide +kernel,
    fun c hc => ((generation_isolation h).left c hc).right⟩

end Hsms.Supervisor
