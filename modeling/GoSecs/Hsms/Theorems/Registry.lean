import GoSecs.Hsms.Registry

open Function

namespace Hsms

namespace ReplyWaiter

variable {w w' : ReplyWaiter} {c : Candidate}

structure Ident (w w' : ReplyWaiter) : Prop where
  header   : w'.header = w.header
  stream   : w'.stream = w.stream
  function : w'.function = w.function
  isData   : w'.isData = w.isData

structure Fits (w : ReplyWaiter) (c : Candidate) : Prop where
  admits : w.admits c
  key    : w.isData → w.header.systemBytes = c.key

theorem Ident.mismatched (h : Ident w w') (res : ReplyResult) :
    w'.mismatched res = w.mismatched res := by
  simp only [ReplyWaiter.mismatched, h.stream, h.function, h.isData]

theorem Ident.fits (h : Ident w w') (hf : w.Fits c) : w'.Fits c where
  admits := by
    have := hf.admits
    cases c
    case reply => simpa only [ReplyWaiter.admits, h.isData, h.mismatched] using this
    case s9    => simpa only [ReplyWaiter.admits, h.isData, h.header] using this
  key hd := by
    rw [h.header]
    exact hf.key (h.isData ▸ hd)

theorem results_receive (w : ReplyWaiter) : w.receive.results = w.results := by
  unfold results receive
  cases w.ch <;> simp

end ReplyWaiter

theorem Candidate.claim_ne_replyOpen (c : Candidate) : c.claim ≠ .replyOpen := by
  cases c <;> exact ReplyState.noConfusion

namespace Registry

open ReplyWaiter

variable {ι : Type} {s : State ι} {r : ReplyRegistry} {call : Call} {p : Nat}
  {f : ReplyWaiter → ReplyWaiter} {k : SysBytes} {w : ReplyWaiter} {c : Candidate}

-- A call at a waiter fits it, one that lost finds it claimed, and one that sends holds the claim.
def Sound (r : ReplyRegistry) : Call → Prop
  | .claiming c p => p < r.size ∧ (r.waiters p).Fits c
  | .lost _ p => p < r.size ∧ (r.waiters p).state ≠ .replyOpen
  | .sending c p => p < r.size ∧ (r.waiters p).Fits c ∧ (r.waiters p).state = c.claim ∧
    (r.waiters p).results = []
  | _ => True

def Call.sends : Call → Option Nat
  | .sending _ p => some p
  | _ => none

structure Once (s : State ι) : Prop where
  heap    : ∀ p, s.reg.size ≤ p → s.reg.waiters p = {}
  keyed   : ∀ k p, s.reg.m k = some p →
    p < s.reg.size ∧ ((s.reg.waiters p).isData → (s.reg.waiters p).header.systemBytes = k)
  primary : ∀ p, (s.reg.waiters p).isData →
    (s.reg.waiters p).stream = (s.reg.waiters p).header.h2 &&& 0x7F ∧
    (s.reg.waiters p).function = (s.reg.waiters p).header.h3
  calls   : ∀ i, Sound s.reg (s.calls i)
  sender  : ∀ i j p, (s.calls i).sends = some p → (s.calls j).sends = some p → i = j
  results : ∀ p, (s.reg.waiters p).results.length ≤ 1 ∧
    ∀ c ∈ (s.reg.waiters p).results, (s.reg.waiters p).Fits c ∧ (s.reg.waiters p).state = c.claim

theorem modify_self (r : ReplyRegistry) (p : Nat) (f : ReplyWaiter → ReplyWaiter) :
    (r.modify p f).waiters p = f (r.waiters p) :=
  update_self ..

theorem modify_of_ne {q : Nat} (h : q ≠ p) (f : ReplyWaiter → ReplyWaiter) :
    (r.modify p f).waiters q = r.waiters q :=
  update_of_ne h ..

structure Keeps (w w' : ReplyWaiter) : Prop where
  ident : Ident w w'
  state : w.state ≠ .replyOpen → w'.state = w.state

theorem Sound.modify (h : Sound r call) (hk : Keeps (r.waiters p) (f (r.waiters p)))
    (hr : ∀ c, call = .sending c p → (f (r.waiters p)).results = (r.waiters p).results) :
    Sound (r.modify p f) call := by
  cases call
  case claiming c q =>
    refine ⟨h.left, ?_⟩
    by_cases hq : q = p
    · subst hq
      exact modify_self r .. ▸ hk.ident.fits h.right
    · rw [modify_of_ne hq]
      exact h.right
  case lost c q =>
    refine ⟨h.left, ?_⟩
    by_cases hq : q = p
    · subst hq
      rw [modify_self, hk.state h.right]
      exact h.right
    · rw [modify_of_ne hq]
      exact h.right
  case sending c q =>
    have ⟨hs, hfit, hst, hres⟩ := h
    by_cases hq : q = p
    · subst hq
      rw [Sound, modify_self, hr c rfl, hk.state (hst ▸ c.claim_ne_replyOpen)]
      exact ⟨hs, hk.ident.fits hfit, hst, hres⟩
    · rw [Sound, modify_of_ne hq]
      exact h
  all_goals trivial

theorem Once.modify (h : Once s) (hp : p < s.reg.size)
    (hk : Keeps (s.reg.waiters p) (f (s.reg.waiters p))) (hr : ∀ i c, s.calls i = .sending c p →
      (f (s.reg.waiters p)).results = (s.reg.waiters p).results)
    (hres : (f (s.reg.waiters p)).results.length ≤ 1 ∧
      ∀ c ∈ (f (s.reg.waiters p)).results,
        (f (s.reg.waiters p)).Fits c ∧ (f (s.reg.waiters p)).state = c.claim) :
    Once { s with reg := s.reg.modify p f } where
  heap q hq := by
    show (s.reg.modify p f).waiters q = _
    rw [modify_of_ne (Nat.ne_of_gt (Nat.lt_of_lt_of_le hp hq))]
    exact h.heap q hq
  keyed k q hq := by
    refine ⟨(h.keyed k q hq).left, ?_⟩
    by_cases hqp : q = p
    · subst hqp
      rw [modify_self, hk.ident.isData, hk.ident.header]
      exact (h.keyed k q hq).right
    · rw [modify_of_ne hqp]
      exact (h.keyed k q hq).right
  primary q := by
    by_cases hqp : q = p
    · subst hqp
      rw [modify_self, hk.ident.isData, hk.ident.header, hk.ident.stream, hk.ident.function]
      exact h.primary q
    · rw [modify_of_ne hqp]
      exact h.primary q
  calls i := (h.calls i).modify hk (hr i)
  sender  := h.sender
  results q := by
    by_cases hqp : q = p
    · subst hqp
      rw [modify_self]
      exact hres
    · rw [modify_of_ne hqp]
      exact h.results q

theorem store_of_lt (h : p < r.size) :
    (r.store k w).waiters p = r.waiters p :=
  update_of_ne (Nat.ne_of_lt h) ..

theorem store_size : (r.store k w).waiters r.size = w :=
  update_self ..

theorem Sound.store (h : Sound r call) :
    Sound (r.store k w) call := by
  cases call
  case claiming c p | lost c p | sending c p =>
    rw [Sound, store_of_lt h.left]
    exact ⟨Nat.lt_succ_of_lt h.left, h.right⟩
  all_goals trivial

-- A registration that is open and, for a data primary, keeps its header.
structure Opens (k : SysBytes) (w : ReplyWaiter) : Prop where
  results : w.results = []
  key : w.isData → w.header.systemBytes = k
  primary : w.isData → w.stream = w.header.h2 &&& 0x7F ∧ w.function = w.header.h3

theorem Once.store (h : Once s) (hw : Opens k w) :
    Once { s with reg := s.reg.store k w } where
  heap p hp := by
    show update s.reg.waiters s.reg.size w p = _
    rw [update_of_ne (Nat.ne_of_gt hp)]
    exact h.heap p (Nat.le_of_succ_le hp)
  keyed k' p hp := by
    change update s.reg.m k (some s.reg.size) k' = some p at hp
    by_cases hk : k' = k
    · subst hk
      rw [update_self] at hp
      cases hp
      rw [store_size]
      exact ⟨Nat.lt_succ_self _, hw.key⟩
    · rw [update_of_ne hk] at hp
      have ⟨hlt, hd⟩ := h.keyed k' p hp
      rw [store_of_lt hlt]
      exact ⟨Nat.lt_succ_of_lt hlt, hd⟩
  primary p := by
    by_cases hp : p = s.reg.size
    · rw [hp, store_size]
      exact hw.primary
    · show (update s.reg.waiters s.reg.size w p).isData → _
      rw [update_of_ne hp, show (s.reg.store k w).waiters p = s.reg.waiters p from
        update_of_ne hp ..]
      exact h.primary p
  calls i := (h.calls i).store
  sender  := h.sender
  results p := by
    by_cases hp : p = s.reg.size
    · rw [hp, store_size, hw.results]
      exact ⟨Nat.zero_le _, fun _ hc => nomatch hc⟩
    · rw [show (s.reg.store k w).waiters p = s.reg.waiters p from update_of_ne hp ..]
      exact h.results p

theorem Once.lt_size (h : Once s) (hw : s.reg.waiters p ≠ {}) : p < s.reg.size :=
  Nat.lt_of_not_le fun hp => hw (h.heap p hp)

-- What a result that a wait received has in common with its primary.
def Entitled (w : ReplyWaiter) : Candidate → Prop
  | .reply key res strict => w.isData → key = w.header.systemBytes ∧ ¬res.isControl ∧
    (strict → ∀ dm, res.msg = some (.data dm) → dm.stream = w.header.h2 &&& 0x7F ∧
      (dm.function = w.header.h3 + 1 ∨ dm.function = 0))
  | .s9 mhead policy _    => w.isData ∧ policy.matches mhead w.header

theorem Once.entitled (h : Once s)
    (hf : (s.reg.waiters p).Fits c) : Entitled (s.reg.waiters p) c := by
  have ha := hf.admits
  cases c
  case s9 =>
    simp only [ReplyWaiter.admits, decide_eq_true_eq] at ha
    exact ha
  case reply key res strict =>
    intro hd
    have ⟨hc, hm⟩ := of_decide_eq_true ha
    refine ⟨(hf.key hd).symm, fun h => hc ⟨hd, h⟩, fun hs dm hmsg => ?_⟩
    have ⟨hstream, hfunction⟩ := h.primary p hd
    have hn : ¬(s.reg.waiters p).mismatched res := fun h => hm ⟨h, hs⟩
    simp only [ReplyWaiter.mismatched, hmsg, hd, true_and, decide_eq_true_eq, not_or, not_and,
      not_not] at hn
    rw [← hstream, ← hfunction]
    exact ⟨hn.left, or_iff_not_imp_left.mpr hn.right⟩

variable [DecidableEq ι] {i : ι} {a : Action ι}

theorem Once.setCall (h : Once s) (i : ι) (hs : Sound s.reg call)
    (hu : ∀ p, call.sends = some p → ∀ j, (s.calls j).sends ≠ some p) :
    Once { s with calls := update s.calls i call } where
  heap := h.heap
  keyed := h.keyed
  primary := h.primary
  results := h.results
  calls j := by
    show Sound s.reg (update s.calls i call j)
    by_cases hj : j = i
    · rw [hj, update_self]
      exact hs
    · rw [update_of_ne hj]
      exact h.calls j
  sender j k p hj hk := by
    change (update s.calls i call j).sends = _ at hj
    change (update s.calls i call k).sends = _ at hk
    by_cases hji : j = i <;> by_cases hki : k = i
    · rw [hji, hki]
    · subst hji
      rw [update_self] at hj
      rw [update_of_ne hki] at hk
      exact absurd hk (hu p hj k)
    · subst hki
      rw [update_self] at hk
      rw [update_of_ne hji] at hj
      exact absurd hj (hu p hk j)
    · rw [update_of_ne hji] at hj
      rw [update_of_ne hki] at hk
      exact h.sender j k p hj hk

theorem Sound.send (h : Sound r (.sending c p)) :
    ((r.waiters p).send c).results = [c] := by
  have ⟨hrec, hch⟩ := List.append_eq_nil_iff.mp h.right.right.right
  rw [ReplyWaiter.send, if_pos hch, results, hrec]
  rfl

theorem keeps_send (w : ReplyWaiter) (c : Candidate) : Keeps w (w.send c) := by
  unfold ReplyWaiter.send
  split <;> exact ⟨⟨rfl, rfl, rfl, rfl⟩, fun _ => rfl⟩

theorem Once.claim (h : Once s) (hi : s.calls i = .claiming c p)
    (ho : (s.reg.waiters p).state = .replyOpen) :
    Once { reg   := s.reg.modify p ({ · with state := c.claim })
           calls := update s.calls i (.sending c p) } := by
  have ⟨hp, hf⟩ : p < s.reg.size ∧ (s.reg.waiters p).Fits c := by
    have := h.calls i
    rwa [hi] at this
  have hnone : ∀ j, (s.calls j).sends ≠ some p := by
    intro j hj
    have hs := h.calls j
    cases hc : s.calls j <;> rw [hc] at hj hs
    case sending d q =>
      cases hj
      exact d.claim_ne_replyOpen (hs.right.right.left.symm.trans ho)
    all_goals exact nomatch hj
  have hres : (s.reg.waiters p).results = [] := by
    refine List.eq_nil_iff_forall_not_mem.mpr fun d hd => ?_
    exact d.claim_ne_replyOpen (((h.results p).right d hd).right.symm.trans ho)
  have hm : Once { s with reg := s.reg.modify p ({ · with state := c.claim }) } := by
    refine h.modify hp ⟨⟨rfl, rfl, rfl, rfl⟩, fun hn => absurd ho hn⟩ (fun _ _ _ => rfl) ?_
    show (s.reg.waiters p).results.length ≤ 1 ∧ ∀ d ∈ (s.reg.waiters p).results, _
    rw [hres]
    exact ⟨Nat.zero_le _, fun _ hc => nomatch hc⟩
  refine hm.setCall i ?_ ?_
  · have hid : Ident (s.reg.waiters p) { s.reg.waiters p with state := c.claim } :=
      ⟨rfl, rfl, rfl, rfl⟩
    rw [Sound, modify_self]
    exact ⟨hp, hid.fits hf, rfl, hres⟩
  · rintro _ ⟨⟩
    exact hnone

theorem Once.send {d mm : Bool} (h : Once s) (hi : s.calls i = .sending c p) :
    Once { reg   := s.reg.modify p (·.send c)
           calls := update s.calls i (.returned c (some p) d mm) } := by
  have hs := h.calls i
  rw [hi] at hs
  have hc : Once { s with calls := update s.calls i (.returned c (some p) d mm) } :=
    h.setCall i trivial fun _ hp => nomatch hp
  refine hc.modify (p := p) hs.left (keeps_send ..) ?_ ?_
  · intro j e hj
    change update s.calls i _ j = _ at hj
    by_cases hji : j = i
    · rw [hji, update_self] at hj
      exact Call.noConfusion hj
    · rw [update_of_ne hji] at hj
      exact absurd (h.sender j i p (hj ▸ rfl) (hi ▸ rfl)) hji
  · have hk := keeps_send (s.reg.waiters p) c
    have hcl := hk.state (hs.right.right.left ▸ c.claim_ne_replyOpen)
    show ((s.reg.waiters p).send c).results.length ≤ 1 ∧
      ∀ d ∈ ((s.reg.waiters p).send c).results, ((s.reg.waiters p).send c).Fits d ∧
        ((s.reg.waiters p).send c).state = d.claim
    rw [hs.send]
    refine ⟨Nat.le_refl _, fun d hd => ?_⟩
    cases List.mem_singleton.mp hd
    exact ⟨hk.ident.fits hs.right.left, hcl.trans hs.right.right.left⟩

theorem next_step (hi : s.calls i = call) :
    next s (.step i) =
      { reg := (call.step s.reg).1, calls := update s.calls i (call.step s.reg).2 } :=
  hi ▸ rfl

theorem Once.step (h : Once s) (i : ι) : Once (next s (.step i)) := by
  have keep (call : Call) (hs : Sound s.reg call) (hn : call.sends = none) :
      Once { s with calls := update s.calls i call } :=
    h.setCall i hs fun p hp => nomatch hn.symm.trans hp
  have hs := h.calls i
  cases hi : s.calls i <;> rw [hi] at hs <;> rw [next_step hi]
  case idle => exact keep .idle trivial rfl
  case returned c p d m => exact keep (.returned c p d m) trivial rfl
  case lost c p => exact keep (.returned c _ _ _) trivial rfl
  case sending => exact h.send hi
  case loading c =>
    dsimp only [Call.step]
    split
    case h_1 => exact keep (.returned c none _ _) trivial rfl
    case h_2 p hp =>
      split
      case isTrue ha =>
        have ⟨hlt, hk⟩ := h.keyed c.key p hp
        exact keep (.claiming c p) ⟨hlt, ha, hk⟩ rfl
      case isFalse => exact keep (.returned c _ _ _) trivial rfl
  case claiming c p =>
    dsimp only [Call.step]
    split
    case isTrue ho => exact h.claim hi ho
    case isFalse ho =>
      cases c
      case reply k res st => exact keep (.lost (.reply k res st) p) ⟨hs.left, ho⟩ rfl
      case s9 mh pol res  => exact keep (.returned (.s9 mh pol res) _ _ _) trivial rfl

theorem once_next (h : Once s) (hg : guard s a) : Once (next s a) := by
  cases a
  case registerData hd =>
    exact h.store ⟨rfl, fun _ => rfl, fun _ => ⟨rfl, rfl⟩⟩
  case registerControl k => exact h.store ⟨rfl, (nomatch ·), (nomatch ·)⟩
  case call i c => exact h.setCall i trivial fun _ hp => nomatch hp
  case step i => exact h.step i
  case deregister k =>
    refine ⟨h.heap, fun k' p hp => h.keyed k' p ?_, h.primary, h.calls, h.sender, h.results⟩
    change update s.reg.m k none k' = some p at hp
    by_cases hk : k' = k
    · rw [hk, update_self] at hp
      exact nomatch hp
    · rwa [update_of_ne hk] at hp
  case receive p =>
    have hp : p < s.reg.size := h.lt_size fun hw => by
      rw [guard, hw] at hg
      exact Bool.noConfusion hg
    have hr := results_receive (s.reg.waiters p)
    refine h.modify hp ⟨⟨rfl, rfl, rfl, rfl⟩, fun _ => rfl⟩ (fun _ _ _ => hr) ?_
    rw [hr]
    refine ⟨(h.results p).left, fun c hc => ?_⟩
    have ⟨hf, hst⟩ := (h.results p).right c hc
    have hid : Ident (s.reg.waiters p) (s.reg.waiters p).receive := ⟨rfl, rfl, rfl, rfl⟩
    exact ⟨hid.fits hf, hst⟩

theorem once (h : (registry ι).Reachable s) : Once s := by
  refine h.invariant ?_ fun _ => once_next
  rintro _ rfl
  exact ⟨fun _ _ => rfl, fun _ _ => (nomatch ·), fun _ => (nomatch ·), fun _ => trivial,
    fun _ _ _ => (nomatch ·), fun _ => ⟨Nat.zero_le _, fun _ => (nomatch ·)⟩⟩

namespace Call

def won : Call → Bool
  | sending _ _ => true
  | returned _ _ d _ => d
  | _ => false

-- The call neither has a claim on the wait nor was it delivered there.
def Misses (p : Nat) : Call → Prop
  | sending _ q => q ≠ p
  | returned _ (some q) d _ => q = p → d = false
  | _ => True

-- Only a call that won writes to a waiter.
theorem won_of_changed (h : (call.step r).1 ≠ r) : (call.step r).2.won := by
  cases call
  case sending => rfl
  case loading c =>
    refine absurd ?_ h
    dsimp only [step]
    split
    case h_1 => rfl
    case h_2 => split <;> rfl
  case claiming c p =>
    dsimp only [step] at h ⊢
    split
    case isTrue => rfl
    case isFalse ho =>
      refine absurd ?_ h
      rw [if_neg ho]
      cases c <;> rfl
  all_goals exact absurd rfl h

theorem won_step (h : call.won) : (call.step r).2.won := by
  cases call
  case sending  => rfl
  case returned => exact h
  all_goals exact Bool.noConfusion h

theorem state_step (hp : (r.waiters p).state ≠ .replyOpen) :
    ((call.step r).1.waiters p).state = (r.waiters p).state := by
  cases call
  case loading c =>
    dsimp only [step]
    split
    case h_1 => rfl
    case h_2 => split <;> rfl
  case claiming c q =>
    dsimp only [step]
    split
    case isTrue ho =>
      rw [modify_of_ne]
      rintro rfl
      exact hp ho
    case isFalse => cases c <;> rfl
  case sending c q =>
    show ((r.modify q (·.send c)).waiters p).state = _
    by_cases hq : p = q
    · subst hq
      rw [modify_self]
      exact (keeps_send _ c).state hp
    · rw [modify_of_ne hq]
  all_goals rfl

theorem misses_of_idle (h : call.isIdle) : call.Misses p := by
  cases call
  case idle => trivial
  all_goals exact Bool.noConfusion h

theorem misses_step (hp : (r.waiters p).state = .replyClaimedByS9)
    (h : call.Misses p) : (call.step r).2.Misses p := by
  cases call
  case idle => trivial
  case returned => exact h
  case sending => exact fun hq => absurd hq h
  case lost c q =>
    intro hq
    exact decide_eq_false (not_not.mpr (hq ▸ hp))
  case loading c =>
    dsimp only [step]
    split
    case h_1 => trivial
    case h_2 =>
      split
      case isTrue  => trivial
      case isFalse => exact fun _ => rfl
  case claiming c q =>
    dsimp only [step]
    split
    case isTrue ho =>
      rintro rfl
      exact ReplyState.noConfusion (ho.symm.trans hp)
    case isFalse =>
      cases c
      case reply => trivial
      case s9    => exact fun _ => rfl

end Call

theorem calls_step (s : State ι) (i : ι) :
    (next s (.step i)).calls i = ((s.calls i).step s.reg).2 :=
  update_self ..

theorem calls_next (s : State ι) (a : Action ι) (i : ι) :
    a = .step i ∨ (∃ c, a = .call i c) ∨ (next s a).calls i = s.calls i := by
  cases a
  case step j =>
    by_cases hj : i = j
    · exact .inl (hj ▸ rfl)
    · exact .inr (.inr (update_of_ne hj ..))
  case call j c =>
    by_cases hj : i = j
    · exact .inr (.inl ⟨c, hj ▸ rfl⟩)
    · exact .inr (.inr (update_of_ne hj ..))
  all_goals exact .inr (.inr rfl)

theorem won_next (h : (s.calls i).won) (hg : guard s a) :
    ((next s a).calls i).won := by
  rcases calls_next s a i with rfl | ⟨c, rfl⟩ | hc
  · rw [calls_step]
    exact Call.won_step h
  · rw [guard] at hg
    cases hi : s.calls i <;> rw [hi] at h hg
    case idle => exact Bool.noConfusion h
    all_goals exact Bool.noConfusion hg
  · rw [hc]
    exact h

theorem steps_of_not_won {as : List (Action ι)} (h : (registry ι).Reachable s)
    (r : (registry ι).Run s as) (hw : (((registry ι).exec s as).calls i).won = false) :
    (registry ι).Steps (fun t a => a = .step i → (next t a).reg = t.reg) s as := by
  by_contra hn
  have hwon := h.of_violation (P := fun s => (s.calls i).won)
    (fun {s a} _ _ hv => by
      have ⟨ha, hr⟩ := Classical.not_imp.mp hv
      subst ha
      show ((next s (.step i)).calls i).won
      rw [calls_step]
      exact Call.won_of_changed hr)
    (fun _ hw hg => won_next hw hg) r hn
  exact Bool.noConfusion (hw.symm.trans hwon)

theorem state_next (h : Once s) (hp : (s.reg.waiters p).state ≠ .replyOpen) :
    ((next s a).reg.waiters p).state = (s.reg.waiters p).state := by
  have hlt : p < s.reg.size := h.lt_size fun hw => hp (hw ▸ rfl)
  cases a
  case registerData => exact congrArg (·.state) (store_of_lt hlt)
  case registerControl => exact congrArg (·.state) (store_of_lt hlt)
  case step i => exact Call.state_step hp
  case receive q =>
    show ((s.reg.modify q receive).waiters p).state = _
    by_cases hq : p = q
    · subst hq
      rw [modify_self]
      rfl
    · rw [modify_of_ne hq]
  all_goals rfl

-- A wait that an S9 message claimed, and a call that has no claim on it.
structure Missing (i : ι) (p : Nat) (s : State ι) : Prop where
  state : (s.reg.waiters p).state = .replyClaimedByS9
  call  : (s.calls i).Misses p

theorem missing_next (hs : Once s) (h : Missing i p s) :
    Missing i p (next s a) where
  state := (state_next hs (h.state ▸ ReplyState.noConfusion)).trans h.state
  call  := by
    rcases calls_next s a i with rfl | ⟨c, rfl⟩ | hc
    · rw [calls_step]
      exact Call.misses_step h.state h.call
    · rw [show (next s (.call i c)).calls i = .loading c from update_self ..]
      trivial
    · rw [hc]
      exact h.call

-- A reply that is reported as delivered leaves the wait claimed by a reply.
theorem Call.step_delivered {key : SysBytes} {res : ReplyResult} {strict mm : Bool}
    (hs : Sound r call) (h : (call.step r).2 = .returned (.reply key res strict) (some p) true mm) :
    call = .returned (.reply key res strict) (some p) true mm ∨
      ((call.step r).1.waiters p).state = .replyClaimedByReply := by
  cases call
  case idle => cases h
  case returned => exact .inl h
  case loading c =>
    dsimp only [step] at h
    split at h
    case h_1 => cases h
    case h_2 => split at h <;> cases h
  case claiming c q =>
    dsimp only [step] at h
    split at h
    case isTrue => cases h
    case isFalse => cases c <;> cases h
  case lost c q =>
    simp only [step, returned.injEq, Option.some.injEq, decide_eq_true_eq] at h
    obtain ⟨-, rfl, hne, -⟩ := h
    have hopen := hs.right
    refine .inr ?_
    show (r.waiters q).state = _
    cases hst : (r.waiters q).state
    case replyClaimedByReply => rfl
    case replyOpen => exact absurd hst hopen
    case replyClaimedByS9 => exact absurd hst hne
  case sending c q =>
    simp only [step, returned.injEq, Option.some.injEq] at h
    obtain ⟨rfl, rfl, -, -⟩ := h
    refine .inr ?_
    show ((r.modify q (·.send _)).waiters q).state = _
    rw [modify_self, (keeps_send _ _).state (hs.2.2.1 ▸ ReplyState.noConfusion)]
    exact hs.2.2.1

theorem delivered {key : SysBytes} {res : ReplyResult} {strict mm : Bool}
    (h : (registry ι).Reachable s)
    (hi : s.calls i = .returned (.reply key res strict) (some p) true mm) :
    (s.reg.waiters p).state = .replyClaimedByReply := by
  refine h.invariant (P := fun s => s.calls i = .returned (.reply key res strict) (some p) true mm →
    (s.reg.waiters p).state = .replyClaimedByReply) ?_ (fun {s a} hr hs _ hi => ?_) hi
  · rintro _ rfl hi
    cases hi
  have keep (hc : s.calls i = .returned (.reply key res strict) (some p) true mm) :
      ((next s a).reg.waiters p).state = .replyClaimedByReply :=
    (state_next (once hr) (hs hc ▸ ReplyState.noConfusion)).trans (hs hc)
  rcases calls_next s a i with rfl | ⟨c, rfl⟩ | hc
  · exact (Call.step_delivered ((once hr).calls i) ((calls_step s i).symm.trans hi)).elim keep id
  · have hl : (next s (.call i c)).calls i = .loading c := update_self ..
    cases hl.symm.trans hi
  · exact keep (hc.symm.trans hi)

def advance (x : ReplyRegistry × Call) : ReplyRegistry × Call :=
  x.2.step x.1

theorem send_of_claim {r : ReplyRegistry} (c : Candidate) :
    (r.modify p ({ · with state := c.claim })).modify p (·.send c) = r.complete p c := by
  unfold ReplyRegistry.complete ReplyRegistry.modify
  simp only [update_self, update_idem]

-- The operations of a call in a row are the call of `route`.
theorem advance_route (r : ReplyRegistry) (key : SysBytes) (res : ReplyResult) (strict : Bool) :
    ∃ p, advance^[4] (r, .loading (.reply key res strict)) =
      ((r.route key res strict).1,
        .returned (.reply key res strict) p (r.route key res strict).2.1
          (r.route key res strict).2.2) := by
  simp only [iterate_succ, iterate_zero, comp_apply, id]
  unfold ReplyRegistry.route
  rw [show advance (r, .loading (.reply key res strict)) =
    (Call.loading (.reply key res strict)).step r from rfl]
  dsimp only [Call.step, Candidate.key]
  split
  case h_1 => exact ⟨none, rfl⟩
  case h_2 p hp =>
    refine ⟨some p, ?_⟩
    by_cases hc : (r.waiters p).isData ∧ res.isControl
    case pos =>
      have hm : (r.waiters p).mismatched res = false := by
        have := hc.right
        unfold ReplyResult.isControl at this
        unfold ReplyWaiter.mismatched
        split at this
        case h_1 h => rw [h]
        case h_2   => exact Bool.noConfusion this
      rw [if_neg (by simp [admits, hc]), if_pos hc]
      exact congrArg (fun b => (r, Call.returned _ _ _ b)) hm
    case neg =>
      rw [if_neg hc]
      by_cases hm : (r.waiters p).mismatched res ∧ strict
      case pos =>
        rw [if_neg (by simp [admits, hm]), if_pos hm]
        exact congrArg (fun b => (r, Call.returned _ _ _ b)) hm.left
      case neg =>
        rw [if_pos (by rw [admits]; exact decide_eq_true ⟨hc, hm⟩), if_neg hm]
        by_cases ho : (r.waiters p).state = .replyOpen
        case pos =>
          rw [if_neg (not_not.mpr ho)]
          dsimp only [advance, Call.step]
          rw [if_pos ho]
          dsimp only [Call.step]
          rw [send_of_claim, modify_self]
          rfl
        case neg =>
          rw [if_pos ho]
          dsimp only [advance, Call.step]
          rw [if_neg ho]
          dsimp only [Call.step]
          split
          case isTrue hs  => rw [decide_eq_false (not_not.mpr hs)]; rfl
          case isFalse hs => rw [decide_eq_true hs]; rfl

theorem advance_failS9 (r : ReplyRegistry) (mhead : Header) (policy : MheadPolicy)
    (res : ReplyResult) :
    ∃ p, advance^[3] (r, .loading (.s9 mhead policy res)) =
      ((r.failS9 mhead policy res).1,
        .returned (.s9 mhead policy res) p (r.failS9 mhead policy res).2 false) := by
  simp only [iterate_succ, iterate_zero, comp_apply, id]
  unfold ReplyRegistry.failS9
  rw [show advance (r, .loading (.s9 mhead policy res)) =
    (Call.loading (.s9 mhead policy res)).step r from rfl]
  dsimp only [Call.step, Candidate.key]
  split
  case h_1 => exact ⟨none, rfl⟩
  case h_2 p hp =>
    refine ⟨some p, ?_⟩
    by_cases hm : (r.waiters p).isData ∧ policy.matches mhead (r.waiters p).header
    case neg =>
      rw [if_neg (by rwa [admits, decide_eq_true_eq]), if_pos (not_and_or.mp hm)]
      rfl
    case pos =>
      rw [if_pos (by rwa [admits, decide_eq_true_eq]), if_neg (by simp [hm])]
      by_cases ho : (r.waiters p).state = .replyOpen
      case pos =>
        rw [if_neg (not_not.mpr ho)]
        dsimp only [advance, Call.step]
        rw [if_pos ho]
        dsimp only [Call.step]
        rw [send_of_claim]
        rfl
      case neg =>
        rw [if_pos ho]
        dsimp only [advance, Call.step]
        rw [if_neg ho]

-- A wait gets at most one result, from a call that is entitled to it. Behind the claim of an S9
-- message every call misses, and so does every reply that was already under way.
theorem wait_completed_once {as : List (Action ι)} (r : (registry ι).Run {} as)
    (hs : s = (registry ι).exec {} as) :
    (∀ p, (s.reg.waiters p).results.length ≤ 1) ∧
    (∀ i c p, s.calls i = .sending c p → (s.reg.waiters p).ch = []) ∧
    (∀ p, ∀ c ∈ (s.reg.waiters p).results, Entitled (s.reg.waiters p) c) ∧
    (∀ i c p mm, s.calls i = .returned c p false mm →
      (registry ι).Steps (fun t a => a = .step i → (next t a).reg = t.reg) {} as) ∧
    (∀ bs cs p i c d mm, as = bs ++ cs →
      (((registry ι).exec {} bs).reg.waiters p).state = .replyClaimedByS9 →
      (((registry ι).exec {} bs).calls i).isIdle →
      s.calls i = .returned c (some p) d mm → d = false) ∧
    (∀ i key res strict p d mm, s.calls i = .returned (.reply key res strict) (some p) d mm →
      (s.reg.waiters p).state = .replyClaimedByS9 → d = false) := by
  have hinit : (registry ι).Reachable {} := .init rfl
  have ho : Once s := once (hs ▸ hinit.exec r)
  refine ⟨fun p => (ho.results p).left, fun i c p hi => ?_, fun p c hc => ?_, ?_, ?_, ?_⟩
  · have := ho.calls i
    rw [hi] at this
    exact (List.append_eq_nil_iff.mp this.right.right.right).right
  · exact ho.entitled ((ho.results p).right c hc).left
  · intro i c p mm hi
    refine steps_of_not_won hinit r ?_
    rw [← hs, hi]
    rfl
  · intro bs cs p i c d mm has hst hidle hi
    subst has
    have ⟨rb, rc⟩ := Machine.steps_append.mp r
    have hend := (hinit.exec rb).keeps (fun hr hm _ => missing_next (once hr) hm)
      ⟨hst, Call.misses_of_idle hidle⟩ rc
    have := hend.call
    rw [← Machine.exec_append, ← hs, hi] at this
    exact this rfl
  · intro i key res strict p d mm hi hst
    cases d
    case false => rfl
    case true =>
      exact ReplyState.noConfusion ((delivered (hs ▸ hinit.exec r) hi).symm.trans hst)

def primary : Header :=
  { Header.zero with h2 := 0x81, h3 := 1, h9 := 1 }

def secondary : DataMessage where
  header := { Header.zero with h2 := 0x01, h3 := 2, h9 := 1 }
  body := .tree .empty
  dec := none

-- An S9 message claims the wait between the load and the claim of its reply.
def s9First : List (Action Bool) :=
  [.registerData primary, .call false (.reply primary.systemBytes { msg := some (.data secondary) } true),
    .step false, .call true (.s9 primary .mheadExact {}), .step true, .step true, .step false,
    .step true, .step false, .deregister primary.systemBytes]

theorem wait_completed_once_s9First :
    (registry Bool).Run {} s9First ∧
    (((registry Bool).exec {} s9First).reg.waiters 0).results.length = 1 ∧
    (((registry Bool).exec {} s9First).calls false).won = false ∧
    (registry Bool).Steps (fun t a => a = .step false → (next t a).reg = t.reg) {} s9First :=
  have r : (registry Bool).Run {} s9First := by decide +kernel
  have h := wait_completed_once r rfl
  ⟨r, rfl, rfl, h.right.right.right.left false _ _ _ rfl⟩

end Registry
end Hsms
