import GoSecs.Hsms.Supervisor

open List

namespace Hsms.Supervisor

variable {s t : State} {a : Action} {cur : ConnState} {ev : FsmEvent} {pc : Pc}
  {closing : Option Nat}

-- The supervisor goroutine's own data, the state and its history are the same.
structure Same (s t : State) : Prop where
  pc : t.pc = s.pc
  lastReacted : t.lastReacted = s.lastReacted
  closed : t.closed = s.closed
  effects : t.effects = s.effects
  state : t.state = s.state
  log : t.log = s.log

-- A commit moved the state, and nothing else changed of these.
structure Swapped (s t : State) (c : Commit) : Prop where
  pc : t.pc = s.pc
  lastReacted : t.lastReacted = s.lastReacted
  closed : t.closed = s.closed
  effects : t.effects = s.effects
  old : s.state = c.kind.old
  new : t.state = c.kind.new
  log : t.log =
    ⟨false, c.kind.ev, c.gen, c.id, c.kind.old, c.kind.new, s.cur⟩ :: s.log

theorem Kind.old_ne_new (k : Kind) : k.old ≠ k.new := by
  cases k <;> decide

theorem Kind.new_ne_notConnected (k : Kind) : k.new ≠ .notConnected := by
  cases k <;> decide

theorem Kind.ev_ne_t7Timeout (k : Kind) : k.ev ≠ .t7Timeout := by
  cases k <;> decide

theorem Kind.ev_ne_close (k : Kind) : k.ev ≠ .close := by
  cases k <;> decide

def State.swap (s : State) (c : Commit) : State :=
  ((s.write false c.kind.ev c.gen c.id c.kind.new).setEpoch c.id (State.mark c.kind)).setPhase c
    (.leaving true)

theorem swapped_swap {c : Commit} (h : s.state = c.kind.old) : Swapped s (s.swap c) c := by
  have hn : s.state ≠ c.kind.new := h ▸ c.kind.old_ne_new
  refine ⟨rfl, rfl, rfl, rfl, h, rfl, ?_⟩
  show (if s.state = c.kind.new then _ else _) = _
  rw [if_neg hn, h]

inductive Moves (s : State) : Action → State → Prop
  | stale {a n} : Moves s a { s with staleGen := n }
  | publish : Moves s .publish s.publish
  | adopt {gen n e} : Moves s (.publishSocket gen n) (s.setEpoch e (·.adoptConn n))
  | enter {k gen e} (h : s.live gen = some e) :
    Moves s (.commitFrom k gen)
      { s with gate := ⟨k, gen, e, if k = .connected then .admitting else .swapping⟩ :: s.gate }
  | grant {c} (hp : c.phase = .admitting) (h : (s.epochs c.id).tcpUpAdmitted = false) :
    Moves s (.advance c) ((s.setEpoch c.id ({ · with tcpUpAdmitted := true })).setPhase c .swapping)
  | swap {c} (hp : c.phase = .swapping) (h : s.state = c.kind.old) :
    Moves s (.advance c) (s.swap c)
  | refuse {c} (h : c.phase = .swapping → s.state ≠ c.kind.old) :
    Moves s (.advance c) (s.setPhase c (.leaving false))
  | leave {c b} (hp : c.phase = .leaving b) :
    Moves s (.advance c)
      { s with
        gate := s.gate.erase c
        pending := if b then ⟨c.kind.ev, c.kind.cause, c.id⟩ :: s.pending else s.pending }
  | enqueue {cmd} : Moves s (.enqueue cmd) (s.enqueue cmd)
  | disconnect {gen cause e} (hc : s.cur = some e) (hg : gen = 0 ∨ gen = e) :
    Moves s (.tcpDown gen cause)
      { s.setEpoch e ({ · with commsFailure := true }) with
        pending := ⟨.disconnect, cause, e⟩ :: s.pending }
  | expire {gen e} (h : gen ≠ 0 ∧ e = gen ∨ gen = 0 ∧ s.cur = some e) :
    Moves s (.t7Expired gen) { s with pending := ⟨.t7Timeout, .t7Timeout, e⟩ :: s.pending }
  | markEnded {g} : Moves s (.markEnded g) (s.setEpoch g Epoch.markEnded)
  | teardown {g} : Moves s (.teardown g) (s.setEpoch g Epoch.teardown)
  | close : Moves s .requestClose s.requestClose

theorem advance_moves (s : State) (c : Commit) : Moves s (.advance c) (s.advance c) := by
  unfold State.advance
  split
  case h_1 hp =>
    split
    case isTrue    => exact .refuse (hp ▸ Phase.noConfusion)
    case isFalse h => exact .grant hp (Bool.eq_false_iff.mpr h)
  case h_2 hp =>
    split
    case isTrue h  => exact .swap hp h
    case isFalse h => exact .refuse fun _ => h
  case h_3 hp => exact .leave hp

theorem next_moves (ha : a ≠ .fsm) : Moves s a (next s a) := by
  cases a
  case fsm => exact absurd rfl ha
  case advance c => exact advance_moves s c
  case publishSocket gen socket =>
    unfold next State.publishSocket
    dsimp only
    split
    exacts [.stale, .adopt]
  case commitFrom k gen =>
    unfold next State.commitFrom
    dsimp only
    split
    case h_1   => exact .stale
    case h_2 h => exact .enter h
  case tcpDown gen cause =>
    unfold next State.injectDisconnect
    dsimp only
    split
    case h_1 => exact .stale
    case h_2 e hc =>
      split
      case isTrue => exact .stale
      case isFalse hn =>
        have hgen : gen = 0 ∨ gen = e := by
          by_contra h
          exact hn ⟨fun h0 => h (.inl h0), fun he => h (.inr he.symm)⟩
        have he : (if gen = 0 then e else gen) = e := by
          rcases hgen with h | h <;> simp [h]
        rw [he]
        exact .disconnect hc hgen
  case t7Expired gen =>
    unfold next State.injectT7Expiry
    dsimp only
    split
    case isTrue hn => exact .expire (.inl ⟨hn, rfl⟩)
    case isFalse hn =>
      split
      case h_1 => exact .stale
      case h_2 e hc => exact .expire (.inr ⟨not_not.mp hn, hc⟩)
  all_goals constructor

-- No other goroutine touches what the supervisor owns, and only a commit's swap moves the state.
theorem Moves.same_or_swap (h : Moves s a t) :
    Same s t ∨ ∃ c, a = .advance c ∧ c.phase = .swapping ∧ s.state = c.kind.old ∧ t = s.swap c := by
  cases h
  case swap c hp h => exact .inr ⟨c, rfl, hp, h, rfl⟩
  all_goals exact .inl ⟨rfl, rfl, rfl, rfl, rfl, rfl⟩

theorem next_cases (ha : a ≠ .fsm) :
    Same s (next s a) ∨
      ∃ c, a = .advance c ∧ c.phase = .swapping ∧ Swapped s (next s a) c := by
  rcases (next_moves (s := s) ha).same_or_swap with h | ⟨c, hc, hp, hst, ht⟩
  · exact .inl h
  · exact .inr ⟨c, hc, hp, ht ▸ swapped_swap hst⟩

namespace State

def emits (s : State) : List StateChange :=
  s.effects.filterMap fun | .emit sc => some sc | _ => none

def reacts (s : State) : List (ConnState × ConnState × TransitionCause) :=
  s.effects.filterMap fun | .react prev next cause => some (prev, next, cause) | _ => none

def drops (s : State) : List ConnState :=
  (s.log.filter fun c => c.byStep ∧ c.new = .notConnected).map (·.old)

-- The drop that the supervisor goroutine has stored and is about to fire.
def unfired (s : State) : List ConnState :=
  match s.pc with
  | .firing _ _ next left => if Dropped next left then [left] else []
  | _ => []

end State

-- The state that a notification leaves behind: initially a supervisor is not connected.
def lastNext : List StateChange → ConnState
  | [] => .notConnected
  | sc :: _ => sc.next

def Loaded (s : State) (cur : ConnState) : Prop :=
  if cur = .notConnected then s.lastReacted = .notConnected else s.state ≠ .notConnected

def Stores (ev : FsmEvent) (cur next : ConnState) : Prop :=
  transition cur ev = (next, true) ∧ ¬(ev = .selectLost ∧ cur = .selected)

inductive Turn (s : State) : State → Prop
  | rest (hp : s.pc = .idle) : Turn s s
  | drop {cmd rest} (hp : s.pc = .idle) (he : s.events = cmd :: rest) (hc : s.closed) :
    Turn s { s with events := rest, pc := .idle }
  | take {cmd rest closing} (hp : s.pc = .idle) (he : s.events = cmd :: rest) (hc : ¬s.closed) :
    Turn s { s with events := rest, pc := .loading cmd closing }
  | load {cmd closing} (hp : s.pc = .loading cmd closing) :
    Turn s { s with pc := .matching cmd closing s.state }
  | skip {cmd closing cur n} (hp : s.pc = .matching cmd closing cur)
    (h : cmd.gen ≠ 0 ∨ cmd.ev = .selectLost) : Turn s { s with staleGen := n, pc := .idle }
  | accept {cmd closing cur next} (hp : s.pc = .matching cmd closing cur)
    (hg : cmd.gen ≠ 0 → s.curGen = cmd.gen) (h : Stores cmd.ev cur next) :
    Turn s { s with pc := .storing cmd closing cur next }
  | ignore {cmd closing cur} (hp : s.pc = .matching cmd closing cur)
    (h : (transition cur cmd.ev).2 = false) : Turn s { s with pc := .finishing cmd closing }
  | keep {cmd closing cur} (hp : s.pc = .storing cmd closing cur cur) :
    Turn s { s with pc := .firing cmd closing cur cur }
  | lapse {cmd closing cur next} (hp : s.pc = .storing cmd closing cur next)
    (h : cmd.ev = .t7Timeout) : Turn s { s with pc := .idle }
  | store {cmd closing cur next} (hp : s.pc = .storing cmd closing cur next) (hn : next ≠ cur)
    (h : cmd.ev = .t7Timeout → s.state = cur) :
    Turn s { s.write true cmd.ev cmd.gen cmd.gen next with pc := .firing cmd closing next s.state }
  | fire {cmd closing next left} (hp : s.pc = .firing cmd closing next left)
    (h : next ≠ s.lastReacted ∨ Dropped next left) :
    Turn s (s.fired cmd closing next left)
  | quiet {cmd closing next left} (hp : s.pc = .firing cmd closing next left)
    (h : ¬Dropped next left) : Turn s { s with pc := .finishing cmd closing }
  | bare {cmd closing prev} (hp : s.pc = .reacting cmd closing prev) :
    Turn s { s with pc := .finishing cmd closing }
  | resolve {cmd closing prev e} (hp : s.pc = .reacting cmd closing prev) (he : s.cur = some e) :
    Turn s { s with pc := .resolved cmd closing prev e }
  | react {cmd closing prev e l} (hp : s.pc = .resolved cmd closing prev e)
    (hl : l = [] ∨ l = [.farewell e]) :
    Turn s
      { s with
        effects := (if s.shutdown then [] else [.startConnectLoop e]) ++ l ++ s.effects
        pc := .tearing cmd closing e }
  | tear {cmd closing e} (hp : s.pc = .tearing cmd closing e) :
    Turn s { s.setEpoch e Epoch.teardown with pc := .finishing cmd closing }
  | latch {cmd closing pc} (hp : s.pc = .finishing cmd closing) (hc : cmd.ev = .close)
    (h : pc = .idle ∨ ∃ e, pc = .ending e) : Turn s { s with closed := true, pc := pc }
  | done {cmd closing} (hp : s.pc = .finishing cmd closing) (hc : cmd.ev ≠ .close) :
    Turn s { s with pc := .idle }
  | finish {e} (hp : s.pc = .ending e) : Turn s { s.setEpoch e Epoch.teardown with pc := .idle }

theorem fsm_turn (s : State) : Turn s s.fsm := by
  unfold State.fsm
  cases hp : s.pc <;> dsimp only
  case idle =>
    split
    case h_1 => exact .rest hp
    case h_2 he =>
      split
      case isTrue hc  => exact .drop hp he hc
      case isFalse hc => exact .take hp he hc
  case loading => exact .load hp
  case matching =>
    split
    case isTrue h => exact .skip hp (.inl h.left)
    case isFalse hg =>
      split
      case isTrue h => exact .skip hp (.inr h.left)
      case isFalse hl =>
        split
        case isTrue h => exact .accept hp (fun h0 => by_contra fun h => hg ⟨h0, h⟩) ⟨Prod.ext rfl h, hl⟩
        case isFalse h => exact .ignore hp (Bool.eq_false_iff.mpr h)
  case storing =>
    split
    case isTrue h => exact h ▸ .keep (h ▸ hp)
    case isFalse hn =>
      split
      case isTrue h  => exact .lapse hp h.left
      case isFalse h => exact .store hp hn fun h7 => by_contra fun hc => h ⟨h7, hc⟩
  case firing =>
    split
    case isTrue h  => exact .fire hp h
    case isFalse h => exact .quiet hp fun hd => h (.inr hd)
  case reacting =>
    split
    case h_1    => exact .bare hp
    case h_2 he => exact .resolve hp he
  case resolved => exact .react hp (by split; exacts [.inr rfl, .inl rfl])
  case tearing  => exact .tear hp
  case finishing =>
    split
    case isTrue hc =>
      split
      case h_1 => exact .latch hp hc (.inl rfl)
      case h_2 => exact .latch hp hc (.inr ⟨_, rfl⟩)
    case isFalse hc => exact .done hp hc
  case ending => exact .finish hp

def Sound (s : State) : Pc → Prop
  | .matching _ _ cur => Loaded s cur
  | .storing cmd _ cur next => Loaded s cur ∧ Stores cmd.ev cur next
  | .firing _ _ next left =>
    if next = .notConnected then left = .notConnected → s.lastReacted = .notConnected
    else s.state ≠ .notConnected
  | _ => True

-- A state of `notConnected` was reported, or the goroutine is about to report it.
structure Tracks (s : State) : Prop where
  sound : Sound s s.pc
  state : s.state = .notConnected → s.lastReacted = .notConnected ∨ s.unfired ≠ []

theorem unfired_eq (h : t.pc = s.pc) : t.unfired = s.unfired := by
  unfold State.unfired
  rw [h]

theorem Same.tracks (h : Same s t) (hs : Tracks s) : Tracks t := by
  have hl {cur} : Loaded s cur → Loaded t cur := by
    unfold Loaded; rw [h.lastReacted, h.state]; exact id
  refine ⟨?_, fun ht => ?_⟩
  · have := hs.sound
    rw [h.pc]
    cases hp : s.pc <;> simp only [Sound, hp] at this ⊢
    case matching => exact hl this
    case storing  => exact ⟨hl this.left, this.right⟩
    case firing   => rw [h.lastReacted, h.state]; exact this
  · rw [unfired_eq h.pc, h.lastReacted]
    exact hs.state (h.state ▸ ht)

theorem Swapped.tracks {c : Commit} (h : Swapped s t c) (hs : Tracks s) : Tracks t := by
  have hn : t.state ≠ .notConnected := h.new ▸ c.kind.new_ne_notConnected
  have hl {cur} : Loaded s cur → Loaded t cur := by
    unfold Loaded
    rw [h.lastReacted]
    split
    case isTrue  => exact id
    case isFalse => exact fun _ => hn
  refine ⟨?_, fun ht => absurd ht hn⟩
  have := hs.sound
  rw [h.pc]
  cases hp : s.pc <;> simp only [Sound, hp] at this ⊢
  case matching => exact hl this
  case storing  => exact ⟨hl this.left, this.right⟩
  case firing   =>
    rw [h.lastReacted]
    split
    case isTrue hc => rwa [if_pos hc] at this
    case isFalse   => exact hn

theorem Stores.eq_selectAccepted {next : ConnState} (h : Stores ev cur next)
    (hne : next ≠ cur) (hn : next ≠ .notConnected) :
    ev = .selectAccepted ∧ cur = .notSelected ∧ next = .selected := by
  have ⟨ht, hl⟩ := h
  cases ev <;> cases cur <;> simp_all [transition]

theorem Stores.cur_ne {next : ConnState} (h : Stores ev cur next)
    (hne : next ≠ cur) : cur ≠ .notConnected := by
  by_cases hn : next = .notConnected
  case pos => exact fun hc => hne (hn.trans hc.symm)
  case neg => exact (h.eq_selectAccepted hne hn).right.left ▸ ConnState.noConfusion

theorem Stores.t7_cur {next : ConnState} (h : Stores .t7Timeout cur next) :
    cur = .notSelected := by
  have ht := h.left
  cases cur <;> simp_all [transition]

theorem Tracks.calm (hs : Tracks s) (hp : s.pc = pc)
    (hu : State.unfired { s with pc := pc } = []) (h : s.state = .notConnected) :
    s.lastReacted = .notConnected :=
  (hs.state h).resolve_right (absurd ((unfired_eq hp).trans hu))

theorem Tracks.of_calm (hs : Tracks s) (hp : s.pc = pc)
    (hu : State.unfired { s with pc := pc } = []) (hst : t.state = s.state)
    (hl : t.lastReacted = s.lastReacted) (ht : Sound t t.pc) : Tracks t where
  sound   := ht
  state h := .inl (hl ▸ hs.calm hp hu (hst ▸ h))

theorem Turn.tracks (h : Turn s t) (hs : Tracks s) : Tracks t := by
  have hsd := hs.sound
  cases h
  case rest => exact hs
  case load cmd closing hp =>
    refine hs.of_calm hp rfl rfl rfl ?_
    show Loaded _ _
    unfold Loaded
    split
    case isTrue h  => exact hs.calm hp rfl h
    case isFalse h => exact h
  case accept hp _ h =>
    rw [hp] at hsd
    exact hs.of_calm hp rfl rfl rfl ⟨hsd, h⟩
  case keep hp =>
    rw [hp] at hsd
    refine hs.of_calm hp rfl rfl rfl ?_
    show if _ then _ else _
    have hl := hsd.left
    unfold Loaded at hl
    split at hl
    case isTrue hn  => rw [if_pos hn]; exact fun _ => hl
    case isFalse hn => rwa [if_neg hn]
  case store cmd closing cur next hp hne _ =>
    rw [hp] at hsd
    by_cases hn : next = .notConnected
    case pos =>
      -- The drop replaces a state that is not `notConnected`, and so it is not yet fired.
      have hst := hsd.left
      rw [Loaded, if_neg (hn ▸ Ne.symm hne)] at hst
      refine ⟨?_, fun _ => .inr ?_⟩
      · show if _ then _ else _
        rw [if_pos hn]
        exact (absurd · hst)
      · show (if Dropped next s.state then _ else _) ≠ []
        rw [if_pos ⟨hn, hst⟩]
        exact cons_ne_nil _ _
    case neg =>
      refine ⟨?_, fun h => absurd h hn⟩
      show if _ then _ else _
      rw [if_neg hn]
      exact hn
  case fire cmd closing next left hp _ =>
    refine ⟨by show Sound _ (ite _ _ _); split <;> trivial, fun hst => .inl ?_⟩
    show next = .notConnected
    by_contra hn
    rw [hp, Sound, if_neg hn] at hsd
    exact hsd hst
  case quiet hp h   => exact hs.of_calm hp (if_neg h) rfl rfl trivial
  case latch hp _ h => rcases h with rfl | ⟨_, rfl⟩ <;> exact hs.of_calm hp rfl rfl rfl trivial
  all_goals exact hs.of_calm ‹_› rfl rfl rfl trivial

theorem tracks (h : supervisor.Reachable s) : Tracks s := by
  refine h.invariant ?_ ?_
  · rintro _ ⟨n, rfl⟩
    exact ⟨trivial, fun _ => .inl rfl⟩
  · intro s a _ hs _
    by_cases ha : a = .fsm
    · exact ha ▸ (fsm_turn s).tracks hs
    · rcases next_cases ha with hm | ⟨c, _, _, hm⟩
      · exact hm.tracks hs
      · exact hm.tracks hs

-- A step of the supervisor goroutine that neither stores nor fires.
structure Calm (s t : State) : Prop where
  state : t.state = s.state
  log : t.log = s.log
  lastReacted : t.lastReacted = s.lastReacted
  emits : t.emits = s.emits
  reacts : t.reacts = s.reacts
  unfired : t.unfired = s.unfired

theorem fsm_cases (s : State) :
    Calm s s.fsm ∨
    (∃ cmd closing cur next, s.pc = .storing cmd closing cur next ∧ next ≠ cur ∧
      (cmd.ev = .t7Timeout → s.state = cur) ∧
      s.fsm = { s.write true cmd.ev cmd.gen cmd.gen next with
        pc := .firing cmd closing next s.state }) ∨
    (∃ cmd closing next left, s.pc = .firing cmd closing next left ∧
      (next ≠ s.lastReacted ∨ Dropped next left) ∧
      s.fsm = s.fired cmd closing next left) := by
  have calm {t : State} {pc : Pc} (hp : s.pc = pc) (hs : t.state = s.state) (hl : t.log = s.log)
      (hr : t.lastReacted = s.lastReacted) (he : t.effects = s.effects)
      (hu : t.unfired = State.unfired { s with pc := pc }) : Calm s t :=
    ⟨hs, hl, hr, by rw [State.emits, he]; rfl, by rw [State.reacts, he]; rfl,
      hu.trans (unfired_eq hp.symm)⟩
  have h := fsm_turn s
  generalize s.fsm = t at h ⊢
  cases h
  case store hp hn h => exact .inr (.inl ⟨_, _, _, _, hp, hn, h, rfl⟩)
  case fire hp h => exact .inr (.inr ⟨_, _, _, _, hp, h, rfl⟩)
  all_goals left
  case rest => exact calm rfl rfl rfl rfl rfl rfl
  case keep hp => exact calm hp rfl rfl rfl rfl (if_neg fun hd => hd.right hd.left)
  case quiet hp h => exact calm hp rfl rfl rfl rfl (if_neg h).symm
  case latch hp _ h => rcases h with rfl | ⟨_, rfl⟩ <;> exact calm hp rfl rfl rfl rfl rfl
  case react hp hl =>
    refine ⟨rfl, rfl, rfl, ?_, ?_, unfired_eq (t := { s with pc := _ }) hp.symm⟩
    · unfold State.emits
      rcases hl with rfl | rfl <;> dsimp only <;> split <;> rfl
    · unfold State.reacts
      rcases hl with rfl | rfl <;> dsimp only <;> split <;> rfl
  all_goals
    have hp := ‹s.pc = _›
    exact calm hp rfl rfl rfl rfl rfl

-- Apart from the drops, each notification enters a state that the one before it did not.
def Alternates : List StateChange → Prop
  | [] => True
  | sc :: r => (sc.next ≠ .notConnected → sc.next ≠ lastNext r) ∧ Alternates r

structure Reported (s : State) : Prop where
  last : s.lastReacted = lastNext s.emits
  drops : s.drops = s.unfired ++ (s.emits.filter (·.next = .notConnected)).map (·.prev)
  reacts : s.reacts = s.emits.map fun sc => (sc.prev, sc.next, sc.cause)
  alternates : Alternates s.emits
  t7 : ∀ c ∈ s.log, c.ev = .t7Timeout → c.old ≠ .selected

theorem Reported.of_eq (hs : Reported s) (hl : t.lastReacted = s.lastReacted)
    (he : t.emits = s.emits) (hr : t.reacts = s.reacts) (hlog : t.log = s.log)
    (hu : t.unfired = s.unfired) : Reported t where
  last := by rw [hl, he]; exact hs.last
  drops := by rw [State.drops, hlog, hu, he]; exact hs.drops
  reacts := by rw [hr, he]; exact hs.reacts
  alternates := by rw [he]; exact hs.alternates
  t7 := by rw [hlog]; exact hs.t7

theorem Same.reported (h : Same s t) (hs : Reported s) : Reported t := by
  refine hs.of_eq h.lastReacted ?_ ?_ h.log ?_
  · rw [State.emits, h.effects]; rfl
  · rw [State.reacts, h.effects]; rfl
  · exact unfired_eq h.pc

theorem Swapped.reported {c : Commit} (h : Swapped s t c) (hs : Reported s) : Reported t := by
  have he : t.emits = s.emits := by rw [State.emits, h.effects]; rfl
  have hd : t.drops = s.drops := by
    rw [State.drops, h.log, filter_cons_of_neg (by simp)]
    rfl
  refine ⟨?_, ?_, ?_, ?_, ?_⟩
  · rw [h.lastReacted, he]; exact hs.last
  · rw [hd, unfired_eq h.pc, he]; exact hs.drops
  · rw [State.reacts, h.effects, he]; exact hs.reacts
  · rw [he]; exact hs.alternates
  · rw [h.log]
    refine forall_mem_cons.mpr ⟨fun ht => ?_, hs.t7⟩
    exact absurd ht c.kind.ev_ne_t7Timeout

theorem store_reported {cmd : FsmCommand} {next : ConnState}
    (ht : Tracks s) (hs : Reported s) (hp : s.pc = .storing cmd closing cur next)
    (hne : next ≠ cur) (h7 : cmd.ev = .t7Timeout → s.state = cur) :
    Reported { s.write true cmd.ev cmd.gen cmd.gen next with
      pc := .firing cmd closing next s.state } := by
  have ⟨hl, htr⟩ : Loaded s cur ∧ Stores cmd.ev cur next := by
    have := ht.sound
    rwa [hp] at this
  have hu : s.unfired = [] := by simp only [State.unfired, hp]
  have hd := hs.drops
  rw [hu, nil_append] at hd
  refine ⟨hs.last, ?_, hs.reacts, hs.alternates, ?_⟩
  · show List.map _ (List.filter _ (ite _ _ _)) = (if Dropped next s.state then _ else _) ++ _
    by_cases hn : next = .notConnected
    case pos =>
      have hst : s.state ≠ .notConnected := by
        rwa [Loaded, if_neg (hn ▸ Ne.symm hne)] at hl
      rw [if_neg (hn ▸ hst), if_pos ⟨hn, hst⟩, filter_cons_of_pos (by simp [hn])]
      exact congrArg (s.state :: ·) hd
    case neg =>
      rw [if_neg (c := Dropped next s.state) fun h => hn h.left]
      split
      case isTrue  => exact hd
      case isFalse => rw [filter_cons_of_neg (by simp [hn])]; exact hd
  · show ∀ c ∈ ite _ _ _, _
    split
    case isTrue => exact hs.t7
    case isFalse =>
      refine forall_mem_cons.mpr ⟨fun hev => ?_, hs.t7⟩
      show s.state ≠ _
      rw [show cmd.ev = .t7Timeout from hev] at htr
      rw [h7 hev, htr.t7_cur]
      exact ConnState.noConfusion

theorem emits_fireTransition (sc : StateChange) : (s.fireTransition sc).emits = sc :: s.emits := by
  unfold State.emits State.fireTransition
  dsimp only
  split <;> rfl

theorem reacts_fireTransition (sc : StateChange) :
    (s.fireTransition sc).reacts = (sc.prev, sc.next, sc.cause) :: s.reacts := by
  unfold State.reacts State.fireTransition
  dsimp only
  split <;> rfl

-- A notification into `notConnected` is a drop: otherwise it would repeat the last one.
theorem dropped_of_fires {cmd : FsmCommand} {next left : ConnState}
    (ht : Tracks s) (hp : s.pc = .firing cmd closing next left)
    (hf : next ≠ s.lastReacted ∨ Dropped next left) (hn : next = .notConnected) :
    Dropped next left := by
  have hsd := ht.sound
  rw [hp, Sound, if_pos hn] at hsd
  by_contra hd
  have hl := hsd (by_contra fun h => hd ⟨hn, h⟩)
  exact (hf.resolve_right hd) (hn.trans hl.symm)

theorem fire_reported {cmd : FsmCommand} {next left : ConnState}
    (ht : Tracks s) (hs : Reported s) (hp : s.pc = .firing cmd closing next left)
    (hf : next ≠ s.lastReacted ∨ Dropped next left) (hpc : ∀ cmd closing next left,
      pc ≠ .firing cmd closing next left) :
    Reported { s.fireTransition (s.stateChange cmd closing next left) with
      lastReacted := next, pc := pc } := by
  have he := emits_fireTransition (s := s) (s.stateChange cmd closing next left)
  have hr := reacts_fireTransition (s := s) (s.stateChange cmd closing next left)
  generalize hsc : s.stateChange cmd closing next left = sc at he hr ⊢
  have hnext : sc.next = next := hsc ▸ rfl
  have hprev : sc.prev = if Dropped next left then left else s.lastReacted := hsc ▸ rfl
  refine ⟨?_, ?_, ?_, ?_, hs.t7⟩
  · show next = lastNext (s.fireTransition sc).emits
    rw [he]
    exact hnext.symm
  · show s.drops = _ ++ List.map _ (List.filter _ (s.fireTransition sc).emits)
    have hu : State.unfired { s.fireTransition sc with lastReacted := next, pc := pc } = [] := by
      unfold State.unfired
      split
      case h_1 h => exact absurd h (hpc _ _ _ _)
      case h_2   => rfl
    have hd := hs.drops
    rw [State.unfired, hp] at hd
    rw [hu, he, nil_append]
    by_cases hdr : Dropped next left
    case pos =>
      rw [if_pos hdr] at hprev
      rw [filter_cons_of_pos (by simp [hnext, hdr.left]), map_cons, hprev]
      exact hd.trans (congrArg (· ++ _) (if_pos hdr))
    case neg =>
      have hn : next ≠ .notConnected := fun hn => hdr (dropped_of_fires ht hp hf hn)
      rw [filter_cons_of_neg (by simp [hnext, hn])]
      exact hd.trans (congrArg (· ++ _) (if_neg hdr))
  · show (s.fireTransition sc).reacts = List.map _ (s.fireTransition sc).emits
    rw [he, hr, hs.reacts]
    rfl
  · show Alternates (s.fireTransition sc).emits
    rw [he]
    refine ⟨fun hn => ?_, hs.alternates⟩
    have hd : ¬Dropped next left := fun h => hn (hnext.trans h.left)
    rw [← hs.last, hnext]
    exact hf.resolve_right hd

theorem fsm_reported (ht : Tracks s) (hs : Reported s) : Reported s.fsm := by
  rcases fsm_cases s with hc | ⟨cmd, closing, cur, next, hp, hne, h7, hf⟩ |
    ⟨cmd, closing, next, left, hp, hn, hf⟩
  · exact hs.of_eq hc.lastReacted hc.emits hc.reacts hc.log hc.unfired
  · exact hf ▸ store_reported ht hs hp hne h7
  · refine hf ▸ fire_reported ht hs hp hn ?_
    intros
    split <;> exact Pc.noConfusion

theorem reported (h : supervisor.Reachable s) : Reported s := by
  refine h.invariant ?_ ?_
  · rintro _ ⟨n, rfl⟩
    exact ⟨rfl, rfl, rfl, trivial, by simp⟩
  · intro s a hr hs _
    by_cases ha : a = .fsm
    · exact ha ▸ fsm_reported (tracks hr) hs
    · rcases next_cases ha with hm | ⟨c, _, _, hm⟩
      · exact hm.reported hs
      · exact hm.reported hs

-- The drops that `step` stored are the notifications into `notConnected`, in order, and each
-- notification comes with one reaction.
theorem drop_reported_once (h : supervisor.Reachable s) :
    s.drops = s.unfired ++ (s.emits.filter (·.next = .notConnected)).map (·.prev) ∧
    s.reacts = s.emits.map (fun sc => (sc.prev, sc.next, sc.cause)) ∧
    Alternates s.emits ∧
    ∀ c ∈ s.log, c.ev = .t7Timeout → c.old ≠ .selected :=
  have hs := reported h
  ⟨hs.drops, hs.reacts, hs.alternates, hs.t7⟩

-- A link that comes up and drops before its bring-up was processed.
def overtaken : List Action :=
  let c : Commit := ⟨.connected, 1, 1, .admitting⟩
  [.publish, .commitFrom .connected 1, .advance c, .advance { c with phase := .swapping },
    .advance { c with phase := .leaving true }, .tcpDown 1 .ioError,
    .enqueue ⟨.disconnect, .ioError, 1⟩, .enqueue ⟨.tcpUp, .localOpen, 1⟩,
    .fsm, .fsm, .fsm, .fsm, .fsm]

theorem drop_reported_once_overtaken :
    (supervisor.exec {} overtaken).drops = [.notSelected] ∧
    (supervisor.exec {} overtaken).emits = [⟨.notSelected, .notConnected, .ioError, 1, 0⟩] ∧
    (supervisor.exec {} overtaken).reacts =
      (supervisor.exec {} overtaken).emits.map (fun sc => (sc.prev, sc.next, sc.cause)) :=
  have h : supervisor.Reachable (supervisor.exec {} overtaken) :=
    .exec (.init ⟨0, rfl⟩) (by decide)
  ⟨by decide, by decide, (drop_reported_once h).right.left⟩

end Hsms.Supervisor
