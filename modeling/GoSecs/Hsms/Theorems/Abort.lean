import GoSecs.Hsms.Abort
import Mathlib.Data.Finset.Card

open Function

namespace Hsms.Abort

variable {s s' : State} {a : Action} {i j : Nat} {pc : ClosePc}

-- Who holds `lifeMu`, and whose token is published.
structure Locks (s : State) : Prop where
  opens  : ∀ i, s.lifeMu = some (.open i) ↔ (s.opens i).holds
  closes : ∀ j, s.lifeMu = some (.close j) ↔ (s.closes j).holds
  token  : ∀ i, s.openAbort = some i ↔ (s.opens i).hasToken

theorem Locks.open_step {pc : OpenPc} (h : Locks s) (ho : s'.opens = update s.opens i pc)
    (hc : s'.closes = s.closes)
    (hl : ∀ c, c ≠ .open i → (s'.lifeMu = some c ↔ s.lifeMu = some c))
    (hli : s'.lifeMu = some (.open i) ↔ pc.holds)
    (ht : ∀ j, j ≠ i → (s'.openAbort = some j ↔ s.openAbort = some j))
    (hti : s'.openAbort = some i ↔ pc.hasToken) : Locks s' where
  opens j := by
    rw [ho]
    by_cases hj : j = i
    · rwa [hj, update_self]
    · rw [update_of_ne hj, hl _ fun h => hj (by cases h; rfl)]
      exact h.opens j
  closes j := by
    rw [hc, hl _ Call.noConfusion]
    exact h.closes j
  token j := by
    rw [ho]
    by_cases hj : j = i
    · rwa [hj, update_self]
    · rw [update_of_ne hj, ht j hj]
      exact h.token j

theorem Locks.close_step (h : Locks s)
    (hc : s'.closes = update s.closes j pc) (ho : s'.opens = s.opens)
    (hl : ∀ c, c ≠ .close j → (s'.lifeMu = some c ↔ s.lifeMu = some c))
    (hlj : s'.lifeMu = some (.close j) ↔ pc.holds) (ht : s'.openAbort = s.openAbort) :
    Locks s' where
  opens i := by
    rw [ho, hl _ Call.noConfusion]
    exact h.opens i
  closes i := by
    rw [hc]
    by_cases hi : i = j
    · rwa [hi, update_self]
    · rw [update_of_ne hi, hl _ fun h => hi (by cases h; rfl)]
      exact h.closes i
  token i := by
    rw [ho, ht]
    exact h.token i

theorem OpenPc.holds_of_hasToken {pc : OpenPc} (h : pc.hasToken) : pc.holds := by
  cases pc <;> first | rfl | exact Bool.noConfusion h

theorem Locks.open_unique (h : Locks s) (hi : (s.opens i).holds) (hj : (s.opens j).holds) :
    j = i := by
  cases ((h.opens i).mpr hi).symm.trans ((h.opens j).mpr hj)
  rfl

theorem lock_iff {c d : Call} (hn : s.lifeMu = none) (hc : c ≠ d) :
    some d = some c ↔ s.lifeMu = some c :=
  iff_of_false (fun h => hc (Option.some.inj h).symm) fun h => nomatch hn.symm.trans h

theorem unlock_iff {c d : Call} (hd : s.lifeMu = some d) (hc : c ≠ d) :
    none = some c ↔ s.lifeMu = some c :=
  iff_of_false (nomatch ·) fun h => hc (Option.some.inj (h.symm.trans hd))

theorem locks_open {a : OpenStep} (h : Locks s) (hg : guard s (.open i a)) :
    Locks (next s (.open i a)) := by
  have hold {pc pc' : OpenPc} (hi : s.opens i = pc) (he : pc.holds = pc'.holds) :
      s.lifeMu = some (.open i) ↔ pc'.holds := he ▸ hi ▸ h.opens i
  have tok {pc pc' : OpenPc} (hi : s.opens i = pc) (he : pc.hasToken = pc'.hasToken) :
      s.openAbort = some i ↔ pc'.hasToken := he ▸ hi ▸ h.token i
  cases a
  case lock =>
    have ⟨hi, hn⟩ := of_decide_eq_true hg
    exact h.open_step rfl rfl (fun _ => lock_iff hn) (iff_of_true rfl rfl) (fun _ _ => .rfl) (tok hi rfl)
  case publish =>
    have hi : s.opens i = .locked := of_decide_eq_true hg
    refine h.open_step rfl rfl (fun _ _ => .rfl) (hold hi rfl) (fun j hj => ?_) (iff_of_true rfl rfl)
    refine iff_of_false (fun h => hj (Option.some.inj h).symm) fun ht => hj ?_
    exact h.open_unique (by rw [hi]; rfl) (OpenPc.holds_of_hasToken ((h.token j).mp ht))
  case abort => exact ⟨h.opens, h.closes, h.token⟩
  case clear =>
    have hi : s.opens i = .waiting := of_decide_eq_true hg
    refine h.open_step rfl rfl (fun _ _ => .rfl) (hold hi rfl) (fun j hj => ?_)
      (iff_of_false (nomatch ·) Bool.noConfusion)
    have hti : s.openAbort = some i := (h.token i).mpr (by rw [hi]; rfl)
    exact iff_of_false (nomatch ·) fun h => hj (Option.some.inj (h.symm.trans hti))
  case unlock =>
    rcases of_decide_eq_true hg with hi | hi
    all_goals
      exact h.open_step rfl rfl (fun _ => unlock_iff ((h.opens i).mpr (by rw [hi]; rfl)))
        (iff_of_false (nomatch ·) Bool.noConfusion) (fun _ _ => .rfl) (tok hi rfl)
  -- The other steps change neither the holder nor the token.
  all_goals
    exact h.open_step rfl rfl (fun _ _ => .rfl) (hold (of_decide_eq_true hg) rfl) (fun _ _ => .rfl)
      (tok (of_decide_eq_true hg) rfl)

theorem locks_close {a : CloseStep} (h : Locks s) (hg : guard s (.close j a)) :
    Locks (next s (.close j a)) := by
  have hold {pc pc' : ClosePc} (hj : s.closes j = pc) (he : pc.holds = pc'.holds) :
      s.lifeMu = some (.close j) ↔ pc'.holds := he ▸ hj ▸ h.closes j
  cases a
  case lock =>
    have ⟨_, hn⟩ := of_decide_eq_true hg
    exact h.close_step rfl rfl (fun _ => lock_iff hn) (iff_of_true rfl rfl) rfl
  case unlock =>
    have hj : s.closes j = .closing := of_decide_eq_true hg
    exact h.close_step rfl rfl (fun _ => unlock_iff ((h.closes j).mpr (by rw [hj]; rfl)))
      (iff_of_false (nomatch ·) Bool.noConfusion) rfl
  all_goals
    exact h.close_step rfl rfl (fun _ _ => .rfl) (hold (of_decide_eq_true hg) rfl) rfl

theorem locks_next (h : Locks s) (hg : guard s a) : Locks (next s a) := by
  cases a
  case «open» i a => exact locks_open h hg
  case close j a => exact locks_close h hg
  case dial => exact ⟨h.opens, h.closes, h.token⟩
  case cut => exact ⟨h.opens, h.closes, h.token⟩

def Counted (s : State) : Prop :=
  ∃ pending : Finset Nat, (∀ j, j ∈ pending ↔ (s.closes j).isPending) ∧
    s.pendingCloses = pending.card

theorem Counted.change (pending : Finset Nat) {b : Bool}
    (hc : s'.closes = update s.closes j pc) (hpc : pc.isPending = b)
    (hm : ∀ k, k ≠ j → (k ∈ pending ↔ (s.closes k).isPending)) (hj : j ∈ pending ↔ b)
    (hn : s'.pendingCloses = pending.card) : Counted s' := by
  refine ⟨pending, fun k => ?_, hn⟩
  rw [hc]
  by_cases hk : k = j
  · rw [hk, update_self, hpc, hj]
  · rw [update_of_ne hk]
    exact hm k hk

theorem Counted.keep (h : Counted s)
    (hc : s'.closes = update s.closes j pc) (hp : s'.pendingCloses = s.pendingCloses)
    (hpc : pc.isPending = (s.closes j).isPending) : Counted s' := by
  have ⟨pending, hm, hn⟩ := h
  exact .change pending hc hpc (fun k _ => hm k) (hm j) (hp.trans hn)

theorem counted_close {a : CloseStep} (h : Counted s) (hg : guard s (.close j a)) :
    Counted (next s (.close j a)) := by
  cases a
  case register =>
    have hj : s.closes j = .idle := of_decide_eq_true hg
    have ⟨pending, hm, hn⟩ := h
    have hnot : j ∉ pending := by rw [hm, hj]; exact Bool.noConfusion
    refine .change (insert j pending) rfl rfl (fun k hk => ?_)
      (iff_of_true (Finset.mem_insert_self j pending) rfl) ?_
    · rw [Finset.mem_insert, or_iff_right hk]
      exact hm k
    · show s.pendingCloses + 1 = _
      rw [hn, Finset.card_insert_of_notMem hnot]
      rfl
  case lock =>
    have ⟨hj, _⟩ := of_decide_eq_true hg
    exact h.keep rfl rfl (by rw [hj]; rfl)
  case unregister =>
    have hj : s.closes j = .locked := of_decide_eq_true hg
    have ⟨pending, hm, hn⟩ := h
    have hmem : j ∈ pending := by rw [hm, hj]; rfl
    refine .change (pending.erase j) rfl rfl (fun k hk => ?_)
      (iff_of_false (Finset.notMem_erase j pending) Bool.noConfusion) ?_
    · rw [Finset.mem_erase, and_iff_right hk]
      exact hm k
    · show s.pendingCloses - 1 = _
      rw [hn, ← Finset.card_erase_add_one hmem]
      omega
  case unlock =>
    have hj : s.closes j = .closing := of_decide_eq_true hg
    exact h.keep rfl rfl (by rw [hj]; rfl)

theorem counted_next (h : Counted s) (hg : guard s a) : Counted (next s a) := by
  cases a
  case «open» i a => cases a <;> exact h
  case close j a => exact counted_close h hg
  case dial => exact h
  case cut => exact h

-- The token of a call that has not published one is not fired.
def OpenPc.isEarly : OpenPc → Bool
  | idle | locked | refused => true
  | _ => false

theorem OpenPc.not_hasToken_of_isEarly {pc : OpenPc} (h : pc.isEarly) : ¬pc.hasToken := by
  cases pc <;> first | exact Bool.noConfusion | exact Bool.noConfusion h

structure Fires (s : State) : Prop where
  fires : ∀ i j, (s.opens i).hasToken → s.closes j = .registered → s.fired i
  waits : ∀ i, (s.opens i).holds → s.fired i → ∃ j, s.closes j = .registered
  fresh : ∀ i, (s.opens i).isEarly → s.fired i = false

theorem Fires.open_step {pc : OpenPc} (h : Fires s) (ho : s'.opens = update s.opens i pc)
    (hc : s'.closes = s.closes) (hf : s'.fired = s.fired)
    (ht : pc.hasToken → (s.opens i).hasToken)
    (hh : pc.holds → (s.opens i).holds ∨ s.fired i = false)
    (he : pc.isEarly → (s.opens i).isEarly) : Fires s' := by
  rw [funext_iff] at ho
  have hpc (k : Nat) : s'.opens k = s.opens k ∨ k = i ∧ s'.opens k = pc := by
    rw [ho]
    by_cases hk : k = i
    · exact .inr ⟨hk, by rw [hk, update_self]⟩
    · exact .inl (update_of_ne hk ..)
  constructor
  case fires =>
    intro k j hk hj
    rw [hc] at hj
    rw [hf]
    rcases hpc k with hk' | ⟨rfl, hk'⟩ <;> rw [hk'] at hk
    · exact h.fires k j hk hj
    · exact h.fires k j (ht hk) hj
  case waits =>
    intro k hk hfk
    rw [hf] at hfk
    rw [hc]
    rcases hpc k with hk' | ⟨rfl, hk'⟩ <;> rw [hk'] at hk
    · exact h.waits k hk hfk
    · exact (hh hk).elim (h.waits k · hfk) fun hn => nomatch hn.symm.trans hfk
  case fresh =>
    intro k hk
    rw [hf]
    rcases hpc k with hk' | ⟨rfl, hk'⟩ <;> rw [hk'] at hk
    · exact h.fresh k hk
    · exact h.fresh k (he hk)

theorem Fires.close_step (h : Fires s)
    (hc : s'.closes = update s.closes j pc) (ho : s'.opens = s.opens)
    (hf : s'.fired = s.fired) (hpc : pc ≠ .registered) (hj : s.closes j ≠ .registered) :
    Fires s' := by
  have hreg (k : Nat) : s'.closes k = .registered ↔ s.closes k = .registered := by
    rw [hc]
    by_cases hk : k = j
    · rw [hk, update_self]
      exact iff_of_false hpc hj
    · rw [update_of_ne hk]
  constructor
  case fires => rw [ho, hf]; exact fun i k hi hk => h.fires i k hi ((hreg k).mp hk)
  case waits =>
    rw [ho, hf]
    intro i hi hfi
    have ⟨k, hk⟩ := h.waits i hi hfi
    exact ⟨k, (hreg k).mpr hk⟩
  case fresh => rw [ho, hf]; exact h.fresh

theorem registered_of_pending (hl : Locks s) (hi : (s.opens i).holds)
    (hj : (s.closes j).isPending) : s.closes j = .registered := by
  cases hc : s.closes j <;> rw [hc] at hj
  case locked =>
    have hheld := (hl.closes j).mpr (by rw [hc]; rfl)
    exact nomatch ((hl.opens i).mpr hi).symm.trans hheld
  all_goals exact Bool.noConfusion hj

theorem fires_publish (hl : Locks s) (hc : Counted s) (h : Fires s) (hi : s.opens i = .locked) :
    Fires (next s (.open i .publish)) := by
  have ⟨pending, hm, hn⟩ := hc
  have hhold : (s.opens i).holds := by rw [hi]; rfl
  have hfresh : s.fired i = false := h.fresh i (by rw [hi]; rfl)
  have hfired : (next s (.open i .publish)).fired i = decide (s.pendingCloses > 0) := by
    show (if _ then _ else _ : Nat → Bool) i = _
    by_cases hp : s.pendingCloses > 0
    · rw [if_pos hp, fire, update_self, decide_eq_true hp]
    · rw [if_neg hp, hfresh, decide_eq_false hp]
  have hother {k : Nat} (hk : k ≠ i) : (next s (.open i .publish)).fired k = s.fired k ∧
      (next s (.open i .publish)).opens k = s.opens k := by
    refine ⟨?_, update_of_ne hk ..⟩
    show (if _ then _ else _ : Nat → Bool) k = _
    split
    case isTrue  => exact update_of_ne hk ..
    case isFalse => rfl
  constructor
  case fires =>
    intro k j hk hj
    by_cases hki : k = i
    · subst hki
      rw [hfired]
      have hmem : j ∈ pending := (hm j).mpr (by rw [show s.closes j = _ from hj]; rfl)
      have hpos := Finset.card_pos.mpr ⟨j, hmem⟩
      exact decide_eq_true (by omega)
    · rw [(hother hki).right] at hk
      exact absurd (hl.open_unique hhold (OpenPc.holds_of_hasToken hk)) hki
  case waits =>
    intro k hk hf
    by_cases hki : k = i
    · subst hki
      rw [hfired] at hf
      have hpos := of_decide_eq_true hf
      have ⟨j, hj⟩ := Finset.card_pos.mp (by omega : 0 < pending.card)
      show ∃ j, s.closes j = .registered
      exact ⟨j, registered_of_pending hl hhold ((hm j).mp hj)⟩
    · rw [(hother hki).right] at hk
      exact absurd (hl.open_unique hhold hk) hki
  case fresh =>
    intro k hk
    by_cases hki : k = i
    · subst hki
      rw [show (next s (.open k .publish)).opens k = .published from update_self ..] at hk
      exact Bool.noConfusion hk
    · rw [(hother hki).right] at hk
      rw [(hother hki).left]
      exact h.fresh k hk

theorem fires_open {a : OpenStep} (hl : Locks s) (hc : Counted s) (h : Fires s)
    (hg : guard s (.open i a)) : Fires (next s (.open i a)) := by
  cases a
  case lock =>
    have ⟨hi, _⟩ := of_decide_eq_true hg
    exact h.open_step rfl rfl rfl Bool.noConfusion
      (fun _ => .inr (h.fresh i (by rw [hi]; rfl))) (by rw [hi]; exact fun _ => rfl)
  case publish => exact fires_publish hl hc h (of_decide_eq_true hg)
  case abort   => exact ⟨h.fires, h.waits, h.fresh⟩
  case unlock =>
    exact h.open_step rfl rfl rfl Bool.noConfusion Bool.noConfusion Bool.noConfusion
  all_goals
    have hi := of_decide_eq_true (p := s.opens i = _) hg
    refine h.open_step rfl rfl rfl ?_ (by rw [hi]; exact fun _ => .inl rfl) ?_
    all_goals
      rw [hi]
      decide

theorem fired_register (s : State) (i : Nat) :
    s.register.fired i = (s.fired i || decide (s.openAbort = some i)) := by
  rw [State.register]
  cases s.openAbort
  case none => simp
  case some t =>
    by_cases ht : i = t
    · subst ht
      simp [fire]
    · simp [fire, update_of_ne ht, Ne.symm ht]

theorem fires_close {a : CloseStep} (hl : Locks s) (h : Fires s) (hg : guard s (.close j a)) :
    Fires (next s (.close j a)) := by
  cases a
  case register =>
    constructor
    case fires =>
      intro i k hi _
      show s.register.fired i
      rw [fired_register, decide_eq_true ((hl.token i).mpr hi), Bool.or_true]
    case waits => exact fun _ _ _ => ⟨j, update_self ..⟩
    case fresh =>
      intro i hi
      show s.register.fired i = false
      have hn : s.openAbort ≠ some i := by
        rw [Ne, hl.token]
        exact OpenPc.not_hasToken_of_isEarly hi
      rw [fired_register, h.fresh i hi, decide_eq_false hn]
      rfl
  case lock =>
    -- No `Open` holds the lock that is taken here.
    have ⟨_, hn⟩ := of_decide_eq_true hg
    have hfree {i : Nat} (hi : (s.opens i).holds) : False :=
      nomatch hn.symm.trans ((hl.opens i).mpr hi)
    exact ⟨fun _ _ hi _ => (hfree (OpenPc.holds_of_hasToken hi)).elim,
      fun _ hi _ => (hfree hi).elim, h.fresh⟩
  all_goals
    have hj := of_decide_eq_true (p := s.closes j = _) hg
    exact h.close_step rfl rfl rfl ClosePc.noConfusion (by rw [hj]; exact ClosePc.noConfusion)

theorem fires_next (hl : Locks s) (hc : Counted s) (h : Fires s) (hg : guard s a) :
    Fires (next s a) := by
  cases a
  case «open» i a => exact fires_open hl hc h hg
  case close j a => exact fires_close hl h hg
  case dial => exact ⟨h.fires, h.waits, h.fresh⟩
  case cut => exact ⟨h.fires, h.waits, h.fresh⟩

theorem fired_next (hl : Locks s) (hg : guard s a) :
    (s.fired i → (next s a).fired i) ∧
    ((next s a).fired i → s.fired i ∨ s.lifeMu = some (.open i)) := by
  cases a
  case «open» k a =>
    cases a
    case publish =>
      have hk : s.opens k = .locked := of_decide_eq_true hg
      show (s.fired i → (if _ then _ else _ : Nat → Bool) i) ∧
        ((if _ then _ else _ : Nat → Bool) i → _)
      split
      case isFalse => exact ⟨id, .inl⟩
      case isTrue =>
        by_cases hik : i = k
        · rw [hik, fire, update_self]
          exact ⟨fun _ => rfl, fun _ => .inr ((hl.opens k).mpr (by rw [hk]; rfl))⟩
        · rw [fire, update_of_ne hik]
          exact ⟨id, .inl⟩
    all_goals exact ⟨id, .inl⟩
  case close j a =>
    cases a
    case register =>
      show (s.fired i → s.register.fired i) ∧ (s.register.fired i → _)
      rw [fired_register, Bool.or_eq_true, decide_eq_true_iff]
      refine ⟨.inl, Or.imp_right fun ht => (hl.opens i).mpr ?_⟩
      exact OpenPc.holds_of_hasToken ((hl.token i).mp ht)
    all_goals exact ⟨id, .inl⟩
  case dial => exact ⟨id, .inl⟩
  case cut  => exact ⟨id, .inl⟩

-- A dial is bounded by the token of its own `Open`, if at all.
structure Dials (s : State) : Prop where
  first : ∀ fd, s.firstDial = some fd → fd.epochCtx = .first fd.abort
  bound : ∀ ctx t, s.bound ctx = some t → ctx = .first t
  cut : ∀ ctx, s.cut ctx → ∃ i, ctx = .first i ∧ s.fired i
  aborted : ∀ i, s.aborted i → s.fired i

theorem boundDial_eq_some {ctx : StartCtx} {t : Nat} (h : s.boundDial ctx = some t) :
    ∃ fd, s.firstDial = some fd ∧ fd.epochCtx = ctx ∧ fd.abort = t := by
  unfold State.boundDial at h
  split at h
  case h_1 => exact nomatch h
  case h_2 fd hfd =>
    split at h
    case isTrue => exact nomatch h
    case isFalse hn => exact ⟨fd, hfd, not_not.mp hn, Option.some.inj h⟩

theorem dials_next (hl : Locks s) (h : Dials s) (hg : guard s a) : Dials (next s a) := by
  have hmono (i : Nat) : s.fired i → (next s a).fired i := (fired_next hl hg).left
  have hcut (ctx : StartCtx) (hc : s.cut ctx) : ∃ i, ctx = .first i ∧ (next s a).fired i := by
    have ⟨i, hi, hf⟩ := h.cut ctx hc
    exact ⟨i, hi, hmono i hf⟩
  have habort (i : Nat) (hi : s.aborted i) : (next s a).fired i := hmono i (h.aborted i hi)
  cases a
  case «open» i a =>
    cases a
    case start   => exact ⟨fun fd hfd => by cases hfd; rfl, h.bound, hcut, habort⟩
    case started => exact ⟨fun _ => (nomatch ·), h.bound, hcut, habort⟩
    case abort   =>
      have ⟨_, hf⟩ := of_decide_eq_true hg
      refine ⟨h.first, h.bound, hcut, fun k hk => ?_⟩
      have hk : update s.aborted i true k := hk
      by_cases hki : k = i
      · exact hki ▸ hf
      · rw [update_of_ne hki] at hk
        exact habort k hk
    all_goals exact ⟨h.first, h.bound, hcut, habort⟩
  case close j a => cases a <;> exact ⟨h.first, h.bound, hcut, habort⟩
  case dial ctx =>
    refine ⟨h.first, fun ctx' t ht => ?_, hcut, habort⟩
    have ht : update s.bound ctx (s.boundDial ctx) ctx' = some t := ht
    by_cases hctx : ctx' = ctx
    · rw [hctx, update_self] at ht
      have ⟨fd, hfd, he, ha⟩ := boundDial_eq_some ht
      rw [hctx, ← he, ← ha]
      exact h.first fd hfd
    · rw [update_of_ne hctx] at ht
      exact h.bound ctx' t ht
  case cut ctx =>
    refine ⟨h.first, h.bound, fun ctx' hc => ?_, habort⟩
    have hc : update s.cut ctx true ctx' := hc
    by_cases hctx : ctx' = ctx
    · have hg : (s.bound ctx).any s.fired := hg
      cases hb : s.bound ctx <;> rw [hb] at hg
      case none   => exact Bool.noConfusion hg
      case some t => exact ⟨t, hctx.trans (h.bound ctx t hb), hg⟩
    · rw [update_of_ne hctx] at hc
      exact hcut ctx' hc

structure Inv (s : State) : Prop where
  locks   : Locks s
  counted : Counted s
  fires   : Fires s
  dials   : Dials s

theorem inv (h : lifecycle.Reachable s) : Inv s := by
  refine h.invariant ?_ ?_
  case refine_1 =>
    rintro _ rfl
    exact {
      locks   := ⟨fun _ => iff_of_false (nomatch ·) Bool.noConfusion,
        fun _ => iff_of_false (nomatch ·) Bool.noConfusion,
        fun _ => iff_of_false (nomatch ·) Bool.noConfusion⟩
      counted := ⟨∅, fun _ => iff_of_false (Finset.notMem_empty _) Bool.noConfusion, rfl⟩
      fires   := ⟨fun _ _ => Bool.noConfusion, fun _ => Bool.noConfusion, fun _ _ => rfl⟩
      dials   := ⟨fun _ => (nomatch ·), fun _ _ => (nomatch ·), fun _ => Bool.noConfusion,
        fun _ => Bool.noConfusion⟩ }
  case refine_2 =>
    exact fun _ h hg => ⟨locks_next h.locks hg, counted_next h.counted hg,
      fires_next h.locks h.counted h.fires hg, dials_next h.locks h.dials hg⟩

-- A `Close` that waits behind an `Open`, until that returns.
def Behind (i j : Nat) (s : State) : Prop :=
  (s.opens i).holds ∧ s.closes j = .registered ∨ s.opens i = .returned

theorem opens_next (hg : guard s a) (h : (s.opens i).holds ∨ s.opens i = .returned) :
    ((next s a).opens i).holds ∧ (s.opens i).holds ∨ (next s a).opens i = .returned := by
  have keep (ho : (next s a).opens i = s.opens i) :
      ((next s a).opens i).holds ∧ (s.opens i).holds ∨ (next s a).opens i = .returned := by
    rw [ho]
    exact h.imp_left fun h => ⟨h, h⟩
  cases a
  case «open» k a =>
    by_cases hik : i = k
    · subst hik
      have move {pc pc' : OpenPc} (hpc : s.opens i = pc) (hold : pc.holds) (hnew : pc'.holds) :
          (update s.opens i pc' i).holds ∧ (s.opens i).holds ∨
            update s.opens i pc' i = .returned :=
        .inl ⟨by rwa [update_self], by rwa [hpc]⟩
      cases a
      case lock =>
        have ⟨hi, _⟩ := of_decide_eq_true hg
        rw [hi] at h
        exact h.elim Bool.noConfusion OpenPc.noConfusion
      case refuse  => exact move (of_decide_eq_true hg : s.opens i = .locked) rfl rfl
      case publish => exact move (of_decide_eq_true hg : s.opens i = .locked) rfl rfl
      case start   => exact move (of_decide_eq_true hg : s.opens i = .published) rfl rfl
      case started => exact move (of_decide_eq_true hg : s.opens i = .dialing) rfl rfl
      case abort   => exact keep rfl
      case clear   => exact move (of_decide_eq_true hg : s.opens i = .waiting) rfl rfl
      case unlock  => exact .inr (update_self ..)
    · refine keep ?_
      cases a
      case abort => rfl
      all_goals exact update_of_ne hik ..
  case close j a => cases a <;> exact keep rfl
  case dial => exact keep rfl
  case cut  => exact keep rfl

theorem closes_next (hl : Locks s) (hg : guard s a) (hi : (s.opens i).holds)
    (hj : s.closes j = .registered) : (next s a).closes j = .registered := by
  cases a
  case «open» k a => cases a <;> exact hj
  case dial => exact hj
  case cut => exact hj
  case close k a =>
    by_cases hjk : j = k
    · subst hjk
      cases a
      case register => exact update_self ..
      case lock =>
        have ⟨_, hn⟩ := of_decide_eq_true hg
        exact nomatch hn.symm.trans ((hl.opens i).mpr hi)
      case unregister => exact nomatch hj.symm.trans (of_decide_eq_true hg : s.closes j = .locked)
      case unlock => exact nomatch hj.symm.trans (of_decide_eq_true hg : s.closes j = .closing)
    · cases a <;> exact (update_of_ne hjk ..).trans hj

theorem behind_next (hl : Locks s) (h : Behind i j s) (hg : guard s a) :
    Behind i j (next s a) := by
  refine (opens_next hg (h.imp_left (·.left))).imp_left fun ⟨hnew, hold⟩ => ⟨hnew, ?_⟩
  rcases h with ⟨_, hj⟩ | hr
  · exact closes_next hl hg hold hj
  · rw [hr] at hold
    exact Bool.noConfusion hold

-- A registered `Close` and a published token meet in either order, a fired token has a `Close`
-- waiting behind its `Open`, and no other `Open` is aborted by it.
theorem close_meets_open (h : lifecycle.Reachable s) :
    (∀ i j, (s.opens i).hasToken → s.closes j = .registered → s.fired i) ∧
    (∀ i, s.lifeMu = some (.open i) → s.fired i → ∃ j, s.closes j = .registered ∧
      ∀ as, lifecycle.Run s as → (lifecycle.exec s as).opens i ≠ .returned →
        (lifecycle.exec s as).closes j = .registered) ∧
    ((∀ i, s.aborted i → s.fired i) ∧
      (∀ ctx, s.cut ctx → ∃ i, ctx = .first i ∧ s.fired i) ∧
      (∀ a i, lifecycle.guard s a → (lifecycle.next s a).fired i → s.fired i ∨
        s.lifeMu = some (.open i))) ∧
    ∃ pending : Finset Nat, (∀ j, j ∈ pending ↔ (s.closes j).isPending) ∧
      s.pendingCloses = pending.card := by
  have hi := inv h
  refine ⟨hi.fires.fires, fun i hl hf => ?_, ⟨hi.dials.aborted, hi.dials.cut, ?_⟩, hi.counted⟩
  · have hhold := (hi.locks.opens i).mp hl
    have ⟨j, hj⟩ := hi.fires.waits i hhold hf
    refine ⟨j, hj, fun as r hn => ?_⟩
    have hb : Behind i j (lifecycle.exec s as) :=
      h.keeps (fun hr hb hg => behind_next (inv hr).locks hb hg) (.inl ⟨hhold, hj⟩) r
    exact (hb.resolve_right hn).right
  · exact fun a i hg => (fired_next hi.locks hg).right

-- Of the two calls of `Close` only the second registers behind the token.
def twoCloses : List Action :=
  [.open 0 .lock, .close 0 .register, .open 0 .publish, .close 1 .register, .open 0 .start,
    .dial (.first 0), .cut (.first 0), .open 0 .started, .open 0 .abort]

theorem close_meets_open_twoCloses :
    ((lifecycle.exec {} twoCloses).opens 0).hasToken ∧
    (lifecycle.exec {} twoCloses).fired 0 ∧ (lifecycle.exec {} twoCloses).cut (.first 0) ∧
    (lifecycle.exec {} twoCloses).pendingCloses = 2 ∧
    ∃ j, (lifecycle.exec {} twoCloses).closes j = .registered ∧
      (lifecycle.exec {} (twoCloses ++ [.open 0 .clear])).closes j = .registered :=
  have reach : lifecycle.Reachable (lifecycle.exec {} twoCloses) :=
    Machine.Reachable.exec (.init rfl) (by decide)
  have ⟨fires, waits, _⟩ := close_meets_open reach
  have fired := fires 0 1 (by decide) (by decide)
  have ⟨j, hj, keeps⟩ := waits 0 (by decide) fired
  ⟨by decide, fired, by decide, by decide, j, hj,
    keeps [.open 0 .clear] (by decide) (by decide)⟩

end Hsms.Abort
