import GoSecs.Tracepack.Pairing
import Mathlib.Algebra.BigOperators.Group.Finset.Basic
import Mathlib.Algebra.Order.BigOperators.Group.Finset

open List Function

namespace Tracepack.Pairing

variable {ρ ν : Type} {b : Batch ρ ν} {w s t j : Nat} {st st' : State ρ ν} {c : Caller ρ ν}
  {a : Action ρ ν}

-- A worker that may run the lookup of the key at `j` next, if there is such a key.
def heading (b : Batch ρ ν) (j : Nat) : Worker :=
  if j < b.keys.length then .waiting j else .ended

-- The slot holds the outcome of the lookup of its key.
structure Holds (b : Batch ρ ν) (st : State ρ ν) (s : Nat) (panicked : Bool) : Prop where
  outcome : ∃ res, (st.slots s).res = some res ∧ panicked = res.isPanic ∧ (st.stopped = false →
    res = b.lookup (st.slots s).turn (b.key (b.seq (st.slots s).turn)))
  lt : (st.slots s).turn < b.keys.length

-- Where a slot and its worker stand.
inductive Phase (b : Batch ρ ν) (w : Nat) (st : State ρ ν) (s : Nat) : Prop
  | fresh   : (st.slots s).free = true → (st.slots s).ready = false →
              st.workers s = heading b (st.slots s).turn → (st.slots s).turn ∉ st.begun → Phase b w st s
  | looking : (st.slots s).free = false → (st.slots s).ready = false →
              st.workers s = .looking (st.slots s).turn → (st.slots s).turn < b.keys.length →
              Phase b w st s
  | sending : (st.slots s).free = false → (st.slots s).ready = false →
              st.workers s = .sending (st.slots s).turn p → Holds b st s p → Phase b w st s
  | ready   : (st.slots s).free = false → (st.slots s).ready = true →
              st.workers s = after b w (st.slots s).turn p → Holds b st s p → Phase b w st s
  | taken   : (st.slots s).free = false → (st.slots s).ready = false →
              st.workers s = after b w (st.slots s).turn p → st.caller ≠ .taking →
              (st.slots s).turn = st.i → Phase b w st s
  | quit    : st.workers s = .ended → st.stopped = true → Phase b w st s

-- The slot whose result the calling goroutine has taken and passes on.
structure Passed (b : Batch ρ ν) (w : Nat) (st : State ρ ν) : Prop where
  free   : (st.slots (st.i % w)).free = false
  ready  : (st.slots (st.i % w)).ready = false
  worker : st.workers (st.i % w) = after b w st.i false

def Rest (b : Batch ρ ν) (w : Nat) (st : State ρ ν) : Caller ρ ν → Prop
  | .taking => st.i < b.keys.length ∧ st.stopped = false ∧ st.passed.length = st.i ∧
    b.pair = b.pairFrom st.i st.passed st.primaries (b.keys.drop st.i)
  | .passing res => st.i < b.keys.length ∧ st.stopped = false ∧ st.passed.length = st.i ∧
    b.lookup st.i (b.key (b.seq st.i)) = .found res ∧ Passed b w st ∧
    b.pair = b.pairFrom st.i st.passed st.primaries (b.keys.drop st.i)
  | .freeing => st.i < b.keys.length ∧ st.stopped = false ∧ st.passed.length = st.i + 1 ∧
    Passed b w st ∧ b.pair = b.pairFrom (st.i + 1) st.passed st.primaries (b.keys.drop (st.i + 1))
  | .leaving exit => st.i ≤ st.passed.length ∧ b.pair = ⟨st.passed, st.primaries, exit⟩
  | .joining exit =>
    st.stopped = true ∧ st.i ≤ st.passed.length ∧ b.pair = ⟨st.passed, st.primaries, exit⟩
  | .ended exit   => st.i ≤ st.passed.length ∧ b.pair = ⟨st.passed, st.primaries, exit⟩ ∧
    ∀ s < w, st.workers s = .ended

-- The keys that the slots are for are the next ones, in turn.
structure Turns (w : Nat) (st : State ρ ν) : Prop where
  mod : ∀ s < w, (st.slots s).turn % w = s
  ge  : ∀ s < w, st.i ≤ (st.slots s).turn
  lt  : ∀ s < w, (st.slots s).turn < st.i + w

structure Inv (b : Batch ρ ν) (w : Nat) (st : State ρ ν) : Prop where
  rest  : Rest b w st st.caller
  turns : Turns w st
  phase : ∀ s < w, Phase b w st s
  begun : ∀ j ∈ st.begun, j < st.i + w
  nodup : st.begun.Nodup

theorem sub_eq_zero_of_mod_eq {j k w : Nat} (h : j % w = k % w) (hlt : k < j + w) : k - j = 0 := by
  have hmod : (k - j) % w = 0 := Nat.sub_mod_eq_zero_of_mod_eq h.symm
  rcases Nat.eq_zero_or_pos w with hw | hw
  · omega
  · rwa [Nat.mod_eq_of_lt (by omega)] at hmod

theorem eq_of_mod_eq {i j k w : Nat} (hj : i ≤ j) (hj' : j < i + w) (hk : i ≤ k) (hk' : k < i + w)
    (h : j % w = k % w) : j = k := by
  have hkj := sub_eq_zero_of_mod_eq h (by omega)
  have hjk := sub_eq_zero_of_mod_eq h.symm (by omega)
  omega

theorem Turns.turn_mod (ht : Turns w st) (hw : 0 < w) : (st.slots (st.i % w)).turn = st.i := by
  have hlt := Nat.mod_lt st.i hw
  exact eq_of_mod_eq (ht.ge _ hlt) (ht.lt _ hlt) le_rfl (by omega) (ht.mod _ hlt)

theorem Turns.ne (ht : Turns w st) (hs : s < w) (hs' : t < w) (hne : s ≠ t) :
    (st.slots s).turn ≠ (st.slots t).turn := by
  intro h
  have hmod := congrArg (· % w) h
  simp only [ht.mod s hs, ht.mod t hs'] at hmod
  exact hne hmod

theorem Turns.ne_i (ht : Turns w st) (hs : s < w) (hne : s ≠ st.i % w) : (st.slots s).turn ≠ st.i := by
  intro h
  have hmod := congrArg (· % w) h
  simp only [ht.mod s hs] at hmod
  exact hne hmod

theorem Turns.congr (ht : Turns w st) (hi : st'.i = st.i)
    (hs : ∀ s < w, (st'.slots s).turn = (st.slots s).turn) : Turns w st' where
  mod s h := by rw [hs s h, ht.mod s h]
  ge s h  := by rw [hs s h, hi]; exact ht.ge s h
  lt s h  := by rw [hs s h, hi]; exact ht.lt s h

theorem Phase.congr (h : Phase b w st s) (hs : st'.slots s = st.slots s)
    (hw : st'.workers s = st.workers s)
    (hb : (st.slots s).turn ∉ st.begun → (st.slots s).turn ∉ st'.begun)
    (hstop : st.stopped → st'.stopped)
    (hc : st.caller ≠ .taking → (st.slots s).turn = st.i →
      st'.caller ≠ .taking ∧ (st.slots s).turn = st'.i) : Phase b w st' s := by
  have hold {p} (h : Holds b st s p) : Holds b st' s p := by
    have ⟨⟨res, hr, hp, ho⟩, hlt⟩ := h
    refine ⟨⟨res, by rw [hs, hr], hp, fun hf => ?_⟩, by rw [hs]; exact hlt⟩
    rw [hs]
    refine ho (Bool.eq_false_iff.mpr fun hst => ?_)
    rw [hstop hst] at hf
    cases hf
  cases h
  case fresh h₁ h₂ h₃ h₄ => exact .fresh (hs ▸ h₁) (hs ▸ h₂) (by rw [hw, h₃, hs]) (hs ▸ hb h₄)
  case looking h₁ h₂ h₃ h₄ => exact .looking (hs ▸ h₁) (hs ▸ h₂) (by rw [hw, h₃, hs]) (hs ▸ h₄)
  case sending h₁ h₂ h₃ h₄ => exact .sending (hs ▸ h₁) (hs ▸ h₂) (by rw [hw, h₃, hs]) (hold h₄)
  case ready h₁ h₂ h₃ h₄ => exact .ready (hs ▸ h₁) (hs ▸ h₂) (by rw [hw, h₃, hs]) (hold h₄)
  case taken h₁ h₂ h₃ h₄ h₅ =>
    have ⟨hc, hi⟩ := hc h₄ h₅
    exact .taken (hs ▸ h₁) (hs ▸ h₂) (by rw [hw, h₃, hs]) hc (hs ▸ hi)
  case quit h₁ h₂ => exact .quit (hw.trans h₁) (hstop h₂)

theorem drop_keys (h : j < b.keys.length) : b.keys.drop j = b.seq j :: b.keys.drop (j + 1) := by
  rw [drop_eq_getElem_cons h, Batch.seq, getD_eq_getElem?_getD, getElem?_eq_getElem h]
  rfl

section Caller

theorem Inv.ready (h : Inv b w st) (hw : 0 < w) (hstop : st.stopped = false)
    (hr : (st.slots (st.i % w)).ready = true) :
    (st.slots (st.i % w)).free = false ∧
    (st.slots (st.i % w)).res = some (b.lookup st.i (b.key (b.seq st.i))) ∧
    st.workers (st.i % w) = after b w st.i (b.lookup st.i (b.key (b.seq st.i))).isPanic := by
  have hturn := h.turns.turn_mod hw
  cases h.phase _ (Nat.mod_lt st.i hw)
  case ready p hf _ hwk hh =>
    have ⟨⟨res, hres, hp, ho⟩, _⟩ := hh
    rw [hturn] at ho hwk
    rw [ho hstop] at hres hp
    exact ⟨hf, hres, hp ▸ hwk⟩
  case fresh h₂ _ _ => rw [hr] at h₂; cases h₂
  case looking h₂ _ _ => rw [hr] at h₂; cases h₂
  case sending h₂ _ _ => rw [hr] at h₂; cases h₂
  case taken h₂ _ _ _ => rw [hr] at h₂; cases h₂
  case quit hst => rw [hstop] at hst; cases hst

theorem rest_taken (hi : st.i < b.keys.length) (hstop : st.stopped = false)
    (hlen : st.passed.length = st.i)
    (hpair : b.pair = b.pairFrom st.i st.passed st.primaries (b.keys.drop st.i))
    (hpass : (b.lookup st.i (b.key (b.seq st.i))).isPanic = false → Passed b w st) :
    Rest b w st (taken b st.i (some (b.lookup st.i (b.key (b.seq st.i))))) := by
  have hfrom := hpair
  rw [drop_keys hi, Batch.pairFrom] at hfrom
  cases hl : b.lookup st.i (b.key (b.seq st.i)) <;> rw [hl] at hfrom hpass
  case found res => exact ⟨hi, hstop, hlen, hl, hpass rfl, hpair⟩
  case error err => exact ⟨hlen.ge, hfrom⟩
  case panic v   => exact ⟨hlen.ge, hfrom⟩

theorem taken_ne_taking (i : Nat) (res : Lookup ρ ν) : taken b i (some res) ≠ .taking := by
  cases res <;> nofun

theorem Inv.rest_of (h : Inv b w st) (hc : st.caller = c) : Rest b w st c :=
  hc ▸ h.rest

theorem inv_take (h : Inv b w st) (hw : 0 < w) (hc : st.caller = .taking)
    (hr : (st.slots (st.i % w)).ready = true) : Inv b w (take b w st) := by
  have ⟨hi, hstop, hlen, hpair⟩ := h.rest_of hc
  have ⟨hf, hres, hwk⟩ := h.ready hw hstop hr
  have hslot : (take b w st).slots (st.i % w) = { st.slots (st.i % w) with ready := false } :=
    update_self ..
  have hother {s} (hne : s ≠ st.i % w) : (take b w st).slots s = st.slots s :=
    update_of_ne hne ..
  have hcaller : (take b w st).caller =
      taken b st.i (some (b.lookup st.i (b.key (b.seq st.i)))) := by
    rw [← hres]
    rfl
  have hbusy : (take b w st).caller ≠ .taking := hcaller ▸ taken_ne_taking _ _
  refine ⟨?_, h.turns.congr rfl ?_, ?_, h.begun, h.nodup⟩
  · rw [hcaller]
    refine @rest_taken _ _ b w (take b w st) hi hstop hlen hpair fun hp => ⟨?_, ?_, ?_⟩
    · show ((take b w st).slots (st.i % w)).free = false
      rw [hslot]
      exact hf
    · show ((take b w st).slots (st.i % w)).ready = false
      rw [hslot]
    · exact hwk.trans (congrArg _ hp)
  · intro s _
    by_cases hs : s = st.i % w
    · rw [hs, hslot]
    · rw [hother hs]
  · intro s hs
    by_cases hne : s = st.i % w
    case pos =>
      subst hne
      have hturn : ((take b w st).slots (st.i % w)).turn = st.i := by
        rw [hslot]
        exact h.turns.turn_mod hw
      have hwk' : (take b w st).workers (st.i % w) = after b w
          ((take b w st).slots (st.i % w)).turn (b.lookup st.i (b.key (b.seq st.i))).isPanic := by
        rw [hturn]
        exact hwk
      refine .taken ?_ ?_ hwk' hbusy hturn
      · rw [hslot]
        exact hf
      · rw [hslot]
    case neg =>
      exact (h.phase s hs).congr (hother hne) rfl id id fun hne => absurd hc hne

theorem Inv.caller (h : Inv b w st) (hrest : Rest b w st' st'.caller) (hi : st'.i = st.i)
    (hs : st'.slots = st.slots) (hwk : st'.workers = st.workers) (hb : st'.begun = st.begun)
    (hstop : st.stopped → st'.stopped) (hc : st'.caller ≠ .taking) : Inv b w st' where
  rest  := hrest
  turns := h.turns.congr hi fun s _ => by rw [hs]
  phase s hlt := (h.phase s hlt).congr (by rw [hs]) (by rw [hwk]) (by rw [hb]; exact id) hstop
    fun _ ht => ⟨hc, ht.trans hi.symm⟩
  begun := by rw [hb, hi]; exact h.begun
  nodup := hb ▸ h.nodup

theorem inv_pass (h : Inv b w st) (hc : st.caller = .passing res) : Inv b w (pass b st res) := by
  have ⟨hi, hstop, hlen, hlook, hpass, hpair⟩ := h.rest_of hc
  rw [drop_keys hi, Batch.pairFrom, hlook] at hpair
  have hlen' : (pass b st res).passed.length = st.i + 1 := by
    rw [← hlen]
    exact length_append
  cases hf : b.fn (st.passed ++ [{ key := b.key (b.seq st.i), result := res }]) <;>
    simp only [hf] at hpair
  case ok =>
    have hcaller : (pass b st res).caller = .freeing := by simp only [pass, hf]
    refine h.caller ?_ rfl rfl rfl rfl id (hcaller ▸ nofun)
    rw [hcaller]
    exact ⟨hi, hstop, hlen', ⟨hpass.free, hpass.ready, hpass.worker⟩, hpair⟩
  case error err =>
    have hcaller : (pass b st res).caller = .leaving (.error err) := by simp only [pass, hf]
    refine h.caller ?_ rfl rfl rfl rfl id (hcaller ▸ nofun)
    rw [hcaller]
    exact ⟨hlen' ▸ Nat.le_succ _, hpair⟩
  case panic v =>
    have hcaller : (pass b st res).caller = .leaving (.panic v) := by simp only [pass, hf]
    refine h.caller ?_ rfl rfl rfl rfl id (hcaller ▸ nofun)
    rw [hcaller]
    exact ⟨hlen' ▸ Nat.le_succ _, hpair⟩

theorem inv_stop (h : Inv b w st) (hc : st.caller = .leaving exit) :
    Inv b w { st with stopped := true, caller := .joining exit } := by
  have ⟨hl, hp⟩ := h.rest_of hc
  exact h.caller ⟨rfl, hl, hp⟩ rfl rfl rfl rfl (fun _ => rfl) nofun

theorem inv_join (h : Inv b w st) (hc : st.caller = .joining exit)
    (hall : ∀ s < w, st.workers s = .ended) : Inv b w { st with caller := .ended exit } := by
  have ⟨_, hl, hp⟩ := h.rest_of hc
  exact h.caller ⟨hl, hp, hall⟩ rfl rfl rfl rfl id nofun

theorem rest_free (h : Rest b w st .freeing) : Rest b w (free b w st) (free b w st).caller := by
  have ⟨hi, hstop, hlen, _, hpair⟩ := h
  by_cases hlt : st.i + 1 < b.keys.length
  case pos =>
    rw [show (free b w st).caller = .taking from if_pos hlt]
    exact ⟨hlt, hstop, hlen, hpair⟩
  case neg =>
    rw [show (free b w st).caller = .leaving .ok from if_neg hlt]
    rw [drop_of_length_le (by omega)] at hpair
    exact ⟨hlen.ge, hpair⟩

theorem slots_free (hne : s ≠ st.i % w) : (free b w st).slots s = st.slots s :=
  update_of_ne hne ..

theorem turns_free (h : Turns w st) (hw : 0 < w) : Turns w (free b w st) := by
  have hturn := h.turn_mod hw
  have hslot : ((free b w st).slots (st.i % w)).turn = st.i + w := by
    simp only [free, State.setSlot, update_self, hturn]
  have hi : (free b w st).i = st.i + 1 := rfl
  refine ⟨fun s hs => ?_, fun s hs => ?_, fun s hs => ?_⟩ <;> by_cases hne : s = st.i % w
  · rw [hne, hslot, Nat.add_mod_right]
  · rw [slots_free hne, h.mod s hs]
  · rw [hne, hslot, hi]
    omega
  · have hge := h.ge s hs
    have hni := h.ne_i hs hne
    rw [slots_free hne, hi]
    omega
  · rw [hne, hslot, hi]
    omega
  · have hlt := h.lt s hs
    rw [slots_free hne, hi]
    omega

theorem inv_free (h : Inv b w st) (hw : 0 < w) (hc : st.caller = .freeing) :
    Inv b w (free b w st) := by
  have hrest := h.rest_of hc
  have ⟨hi, _, _, hpass, _⟩ := hrest
  have hturn := h.turns.turn_mod hw
  have hslot : (free b w st).slots (st.i % w) =
      { st.slots (st.i % w) with free := true, res := none, turn := st.i + w } := by
    simp only [free, State.setSlot, update_self, hturn]
  have hbegun : st.i + w ∉ st.begun := fun hm => Nat.lt_irrefl _ (h.begun _ hm)
  refine ⟨rest_free hrest, turns_free h.turns hw, fun s hs => ?_, fun j hj => ?_, h.nodup⟩
  · by_cases hne : s = st.i % w
    case pos =>
      subst hne
      refine .fresh ?_ ?_ ?_ ?_
      · rw [hslot]
      · rw [hslot]
        exact hpass.ready
      · rw [hslot]
        exact hpass.worker
      · rw [hslot]
        exact hbegun
    case neg =>
      refine (h.phase s hs).congr (slots_free hne) rfl id id fun _ ht => ?_
      exact absurd ht (h.turns.ne_i hs hne)
  · exact Nat.lt_of_lt_of_le (h.begun j hj) (Nat.add_le_add_right (Nat.le_succ _) w)

end Caller

section Workers

theorem Rest.worker (h : Rest b w st c) (hi : st'.i = st.i)
    (hstop : st'.stopped = st.stopped) (hp : st'.passed = st.passed)
    (hn : st'.primaries = st.primaries)
    (hpass : st.stopped = false → Passed b w st → Passed b w st')
    (hend : (∀ s < w, st.workers s = .ended) → ∀ s < w, st'.workers s = .ended) :
    Rest b w st' c := by
  cases c <;> simp only [Rest, hi, hstop, hp, hn] at h ⊢
  case passing =>
    have ⟨h₁, h₂, h₃, h₄, h₅, h₆⟩ := h
    exact ⟨h₁, h₂, h₃, h₄, hpass h₂ h₅, h₆⟩
  case freeing =>
    have ⟨h₁, h₂, h₃, h₄, h₅⟩ := h
    exact ⟨h₁, h₂, h₃, hpass h₂ h₄, h₅⟩
  case ended => exact ⟨h.1, h.2.1, hend h.2.2⟩
  all_goals exact h

structure Moves (w t : Nat) (st st' : State ρ ν) : Prop where
  caller : st'.caller = st.caller
  i : st'.i = st.i
  stopped : st'.stopped = st.stopped
  passed : st'.passed = st.passed
  primaries : st'.primaries = st.primaries
  slots : ∀ s, s ≠ t → st'.slots s = st.slots s
  workers : ∀ s, s ≠ t → st'.workers s = st.workers s
  turn : (st'.slots t).turn = (st.slots t).turn

theorem Inv.worker (h : Inv b w st) (ht : t < w) (hm : Moves w t st st')
    (hb : ∀ s < w, s ≠ t → (st.slots s).turn ∉ st.begun → (st.slots s).turn ∉ st'.begun)
    (hpass : st.stopped = false → Passed b w st → st.i % w ≠ t) (hend : st.workers t ≠ .ended)
    (hphase : Phase b w st' t) (hbegun : ∀ j ∈ st'.begun, j < st.i + w) (hnodup : st'.begun.Nodup) :
    Inv b w st' where
  rest := by
    rw [hm.caller]
    refine h.rest.worker hm.i hm.stopped hm.passed hm.primaries (fun hstop hp => ?_) fun hall => ?_
    · have hne := hpass hstop hp
      rw [← hm.i] at hne
      refine ⟨?_, ?_, ?_⟩
      · rw [hm.slots _ hne, hm.i]
        exact hp.free
      · rw [hm.slots _ hne, hm.i]
        exact hp.ready
      · rw [hm.workers _ hne, hm.i]
        exact hp.worker
    · exact absurd (hall t ht) hend
  turns := by
    refine h.turns.congr hm.i fun s _ => ?_
    by_cases hs : s = t
    · rw [hs, hm.turn]
    · rw [hm.slots s hs]
  phase := by
    intro s hs
    by_cases hne : s = t
    · rw [hne]
      exact hphase
    · refine (h.phase s hs).congr (hm.slots s hne) (hm.workers s hne) (hb s hs hne) ?_ ?_
      · rw [hm.stopped]
        exact id
      · rw [hm.caller, hm.i]
        exact And.intro
  begun := by
    rw [hm.i]
    exact hbegun
  nodup := hnodup

theorem of_heading (hw : heading b j = .waiting i) : j = i ∧ j < b.keys.length := by
  rw [heading] at hw
  split at hw
  case isTrue h =>
    cases hw
    exact ⟨rfl, h⟩
  case isFalse => cases hw

theorem after_ne (i : Nat) (p : Bool) :
    (∀ k, after b w i p ≠ .looking k) ∧ ∀ k q, after b w i p ≠ .sending k q := by
  unfold after
  split
  · exact ⟨nofun, nofun⟩
  · split <;> exact ⟨nofun, nofun⟩

theorem heading_ne (j : Nat) :
    (∀ k, heading b j ≠ .looking k) ∧ ∀ k q, heading b j ≠ .sending k q := by
  unfold heading
  split <;> exact ⟨nofun, nofun⟩

theorem Phase.of_free (h : Phase b w st s) (hf : (st.slots s).free = true)
    (hw : st.workers s = .waiting i) : (st.slots s).ready = false ∧ (st.slots s).turn = i ∧
    i < b.keys.length ∧ i ∉ st.begun := by
  cases h
  case fresh _ hr hh hb =>
    have ⟨he, hlt⟩ := of_heading (hh.symm.trans hw)
    exact ⟨hr, he, he ▸ hlt, he ▸ hb⟩
  case quit hw' _ => cases hw.symm.trans hw'
  case looking hf' _ _ _ => cases hf.symm.trans hf'
  case sending hf' _ _ _ => cases hf.symm.trans hf'
  case ready hf' _ _ _ => cases hf.symm.trans hf'
  case taken hf' _ _ _ _ => cases hf.symm.trans hf'

theorem Phase.of_looking (h : Phase b w st s) (hw : st.workers s = .looking i) :
    (st.slots s).free = false ∧ (st.slots s).ready = false ∧ (st.slots s).turn = i ∧
    i < b.keys.length := by
  cases h
  case looking hf hr hw' hlt =>
    cases hw.symm.trans hw'
    exact ⟨hf, hr, rfl, hlt⟩
  case fresh _ _ hw' _ => exact absurd (hw'.symm.trans hw) ((heading_ne _).1 i)
  case sending hw' _ => cases hw.symm.trans hw'
  case ready hw' _ => exact absurd (hw'.symm.trans hw) ((after_ne _ _).1 i)
  case taken hw' _ _ => exact absurd (hw'.symm.trans hw) ((after_ne _ _).1 i)
  case quit hw' _ => cases hw.symm.trans hw'

theorem Phase.of_sending (h : Phase b w st s) (hw : st.workers s = .sending i p) :
    (st.slots s).free = false ∧ (st.slots s).ready = false ∧ (st.slots s).turn = i ∧
    Holds b st s p := by
  cases h
  case sending hf hr hw' hh =>
    cases hw.symm.trans hw'
    exact ⟨hf, hr, rfl, hh⟩
  case fresh _ _ hw' _ => exact absurd (hw'.symm.trans hw) ((heading_ne _).2 i p)
  case looking hw' _ => cases hw.symm.trans hw'
  case ready hw' _ => exact absurd (hw'.symm.trans hw) ((after_ne _ _).2 i p)
  case taken hw' _ _ => exact absurd (hw'.symm.trans hw) ((after_ne _ _).2 i p)
  case quit hw' _ => cases hw.symm.trans hw'

abbrev moved (st : State ρ ν) (t : Nat) (slot : TxSlot ρ ν) (worker : Worker) (begun : List Nat) :
    State ρ ν :=
  { (st.setSlot t slot).setWorker t worker with begun }

variable {slot : TxSlot ρ ν} {begun : List Nat}

theorem moves_moved {worker : Worker}
    (h : slot.turn = (st.slots t).turn) : Moves w t st (moved st t slot worker begun) where
  caller := rfl
  i := rfl
  stopped := rfl
  passed := rfl
  primaries := rfl
  slots s hs := update_of_ne hs ..
  workers s h := update_of_ne h ..
  turn := by
    rw [← h]
    exact congrArg TxSlot.turn (update_self ..)

theorem slots_moved {worker : Worker} :
    (moved st t slot worker begun).slots t = slot :=
  update_self ..

theorem workers_moved {worker : Worker} :
    (moved st t slot worker begun).workers t = worker :=
  update_self ..

theorem inv_grab (h : Inv b w st) (ht : t < w) (hw : st.workers t = .waiting i)
    (hf : (st.slots t).free = true) :
    Inv b w (moved st t { st.slots t with free := false } (.looking i) (st.begun ++ [i])) := by
  have ⟨hr, hturn, hlt, hb⟩ := (h.phase t ht).of_free hf hw
  refine h.worker ht (moves_moved rfl) ?_ ?_ (hw ▸ nofun) ?_ ?_ ?_
  · intro s hs hne hn hm
    rcases mem_append.mp hm with hm | hm
    · exact hn hm
    · rw [mem_singleton, ← hturn] at hm
      exact h.turns.ne hs ht hne hm
  · intro _ hp he
    have hfree := hp.free
    rw [he, hf] at hfree
    cases hfree
  · refine .looking ?_ ?_ ?_ ?_ <;> rw [slots_moved]
    · exact hr
    · rw [workers_moved]
      exact congrArg Worker.looking hturn.symm
    · exact hturn.symm ▸ hlt
  · refine forall_mem_append.mpr ⟨h.begun, forall_mem_singleton.mpr ?_⟩
    exact hturn ▸ h.turns.lt t ht
  · exact nodup_append.mpr ⟨h.nodup, nodup_singleton _, fun j hj k hk he => hb (by
      rw [mem_singleton] at hk
      rwa [← hk, ← he])⟩

theorem inv_find {res : Lookup ρ ν} (h : Inv b w st) (ht : t < w) (hw : st.workers t = .looking i)
    (hres : st.stopped = false → res = b.lookup i (b.key (b.seq i))) :
    Inv b w (moved st t { st.slots t with res := some res } (.sending i res.isPanic) st.begun) := by
  have ⟨hf, hr, hturn, hlt⟩ := (h.phase t ht).of_looking hw
  refine h.worker ht (moves_moved rfl) (fun _ _ _ => id) ?_ (hw ▸ nofun) ?_ h.begun h.nodup
  · intro _ hp he
    have hwk := hp.worker
    rw [he, hw] at hwk
    exact (after_ne _ _).1 i hwk.symm
  · refine .sending (p := res.isPanic) ?_ ?_ ?_ ⟨⟨res, ?_, rfl, ?_⟩, ?_⟩ <;> rw [slots_moved]
    · exact hf
    · exact hr
    · rw [workers_moved]
      exact congrArg (Worker.sending · _) hturn.symm
    · exact hturn.symm ▸ hres
    · exact hturn.symm ▸ hlt

theorem inv_send (h : Inv b w st) (ht : t < w) (hw : st.workers t = .sending i p) :
    Inv b w (moved st t { st.slots t with ready := true } (after b w i p) st.begun) := by
  have ⟨hf, _, hturn, ⟨⟨res, hres, hp, ho⟩, hlt⟩⟩ := (h.phase t ht).of_sending hw
  refine h.worker ht (moves_moved rfl) (fun _ _ _ => id) ?_ (hw ▸ nofun) ?_ h.begun h.nodup
  · intro _ hp he
    have hwk := hp.worker
    rw [he, hw] at hwk
    exact (after_ne _ _).2 i p hwk.symm
  · refine .ready (p := p) ?_ ?_ ?_ ⟨⟨res, ?_, hp, ?_⟩, ?_⟩ <;> rw [slots_moved]
    · exact hf
    · rw [workers_moved]
      exact congrArg (after b w · p) hturn.symm
    · exact hres
    · exact ho
    · exact hlt

theorem inv_quit (h : Inv b w st) (ht : t < w) (hw : st.workers t = .waiting i)
    (hs : st.stopped = true) : Inv b w (st.setWorker t .ended) := by
  have hm : Moves w t st (st.setWorker t .ended) :=
    ⟨rfl, rfl, rfl, rfl, rfl, fun _ _ => rfl, fun _ hne => update_of_ne hne .., rfl⟩
  refine h.worker ht hm (fun _ _ _ => id) ?_ (hw ▸ nofun) ?_ h.begun h.nodup
  · intro hf
    rw [hs] at hf
    cases hf
  · exact .quit (update_self ..) hs

end Workers

section Runs

theorem inv_init (hw : w ≤ b.keys.length) (hk : 0 < b.keys.length) : Inv b w {} where
  rest  := ⟨hk, rfl, rfl, rfl⟩
  turns := ⟨fun _ => Nat.mod_eq_of_lt, fun s _ => Nat.zero_le s, fun s h => by simpa using h⟩
  phase := fun s hs => .fresh rfl rfl (if_pos (Nat.lt_of_lt_of_le hs hw)).symm not_mem_nil
  begun := forall_mem_nil _
  nodup := nodup_nil

theorem inv_next (hw : 0 < w) (h : Inv b w st) (hg : Guard b w st a) :
    Inv b w (next b w st a) := by
  cases a <;> simp only [Guard] at hg
  case take =>
    have ⟨hc, _, hr⟩ := hg
    exact inv_take h hw hc hr
  case pass =>
    have ⟨res, hc⟩ := hg
    simp only [next, hc]
    exact inv_pass h hc
  case free => exact inv_free h hw hg.1
  case stop =>
    have ⟨exit, hc⟩ := hg
    simp only [next, hc]
    exact inv_stop h hc
  case join =>
    have ⟨⟨exit, hc⟩, hall⟩ := hg
    simp only [next, hc]
    exact inv_join h hc hall
  case grab t =>
    have ⟨ht, ⟨i, hwk⟩, hf⟩ := hg
    simp only [next, hwk]
    exact inv_grab h ht hwk hf
  case quit t =>
    have ⟨ht, ⟨i, hwk⟩, hs⟩ := hg
    exact inv_quit h ht hwk hs
  case find t res =>
    have ⟨ht, i, hwk, hres⟩ := hg
    simp only [next, hwk]
    exact inv_find h ht hwk hres
  case send t =>
    have ⟨ht, ⟨i, p, hwk⟩, _⟩ := hg
    simp only [next, hwk]
    exact inv_send h ht hwk

theorem inv (hw : 0 < w) (hk : w ≤ b.keys.length) (h : (pairParallel b w).Reachable st) :
    Inv b w st := by
  refine h.invariant (fun hi => ?_) fun _ hi hg => inv_next hw hi hg
  rw [show _ = _ from hi]
  exact inv_init hk (Nat.lt_of_lt_of_le hw hk)

theorem Phase.live_of_stopped (h : Phase b w st s) (hs : s < w) (hstop : st.stopped = true)
    (hn : st.workers s ≠ .ended) : ∃ a, Guard b w st a := by
  cases hwk : st.workers s
  case ended => exact absurd hwk hn
  case waiting i => exact ⟨.quit s, hs, ⟨i, hwk⟩, hstop⟩
  case looking i => exact ⟨.find s (b.lookup i (b.key (b.seq i))), hs, i, hwk, fun _ => rfl⟩
  case sending i p => exact ⟨.send s, hs, ⟨i, p, hwk⟩, (h.of_sending hwk).2.1⟩

theorem Inv.live_of_taking (h : Inv b w st) (hw : 0 < w) (hc : st.caller = .taking) :
    ∃ a, Guard b w st a := by
  have ⟨hi, hstop, _, _⟩ := h.rest_of hc
  have hlt := Nat.mod_lt st.i hw
  have hturn := h.turns.turn_mod hw
  have hphase := h.phase _ hlt
  cases hphase
  case fresh hf _ hwk _ =>
    rw [hturn, heading, if_pos hi] at hwk
    exact ⟨.grab _, hlt, ⟨_, hwk⟩, hf⟩
  case looking hwk _ => exact ⟨.find _ (b.lookup _ _), hlt, _, hwk, fun _ => rfl⟩
  case sending hr hwk _ => exact ⟨.send _, hlt, ⟨_, _, hwk⟩, hr⟩
  case ready hr _ _ => exact ⟨.take, hc, hi, hr⟩
  case taken hn _ => exact absurd hc hn
  case quit hs => rw [hstop] at hs; cases hs

theorem Inv.live (h : Inv b w st) (hw : 0 < w) :
    (∃ exit, st.caller = .ended exit) ∨ ∃ a, Guard b w st a := by
  cases hc : st.caller
  case taking => exact .inr (h.live_of_taking hw hc)
  case passing res => exact .inr ⟨.pass, res, hc⟩
  case freeing => exact .inr ⟨.free, hc, (h.rest_of hc).2.2.2.1.free⟩
  case leaving exit => exact .inr ⟨.stop, exit, hc⟩
  case ended exit => exact .inl ⟨exit, rfl⟩
  case joining exit =>
    refine .inr ?_
    by_cases hall : ∀ s < w, st.workers s = .ended
    case pos => exact ⟨.join, ⟨exit, hc⟩, hall⟩
    case neg =>
      simp only [not_forall] at hall
      have ⟨s, hs, hn⟩ := hall
      exact (h.phase s hs).live_of_stopped hs (h.rest_of hc).1 hn

theorem passed_pairFrom (i : Nat) (passed : List (TxPairing ρ)) (n : Nat) (seqs : List Nat) :
    passed <+: (b.pairFrom i passed n seqs).passed := by
  induction seqs generalizing i passed n
  case nil => exact prefix_rfl
  case cons seq seqs ih =>
    rw [Batch.pairFrom]
    split
    case h_1 => exact prefix_rfl
    case h_2 => exact prefix_rfl
    case h_3 =>
      dsimp only
      split
      case h_1 => exact (prefix_append ..).trans (ih ..)
      case h_2 => exact prefix_append ..
      case h_3 => exact prefix_append ..

theorem Rest.passed (h : Rest b w st c) :
    st.passed <+: b.pair.passed ∧ st.i ≤ st.passed.length := by
  cases c
  case taking =>
    have ⟨_, _, hl, hp⟩ := h
    exact ⟨hp ▸ passed_pairFrom .., hl.ge⟩
  case passing =>
    have ⟨_, _, hl, _, _, hp⟩ := h
    exact ⟨hp ▸ passed_pairFrom .., hl.ge⟩
  case freeing =>
    have ⟨_, _, hl, _, hp⟩ := h
    exact ⟨hp ▸ passed_pairFrom .., by omega⟩
  case leaving => exact ⟨h.2 ▸ prefix_rfl, h.1⟩
  case joining => exact ⟨h.2.2 ▸ prefix_rfl, h.2.1⟩
  case ended   => exact ⟨h.2.1 ▸ prefix_rfl, h.1⟩

-- The lookups that are running or whose pairing was not passed on.
def outstanding (st : State ρ ν) : List Nat :=
  st.begun.filter (st.passed.length ≤ ·)

theorem Inv.outstanding_le (h : Inv b w st) : (outstanding st).length ≤ w := by
  have hlen := h.rest.passed.2
  have hsub : outstanding st ⊆ List.range' st.passed.length w := by
    intro j hj
    have ⟨hmem, hle⟩ := mem_filter.mp hj
    have hle : st.passed.length ≤ j := of_decide_eq_true hle
    have hlt := h.begun j hmem
    exact mem_range'_1.mpr ⟨hle, by omega⟩
  have hnodup : (outstanding st).Nodup := h.nodup.filter _
  exact (hnodup.subperm hsub).length_le.trans_eq length_range'

end Runs

section Termination

-- The steps that a goroutine can still take, at most. Every key takes three of them.
def Worker.left (n : Nat) : Worker → Nat
  | waiting i => 3 * (n - i) + 1
  | looking i => 3 * (n - i)
  | sending i _ => 3 * (n - i) - 1
  | ended => 0

def Caller.left (n i : Nat) : Caller ρ ν → Nat
  | taking    => 3 * (n - i) + 2
  | passing _ => 3 * (n - i) + 1
  | freeing   => 3 * (n - i)
  | leaving _ => 2
  | joining _ => 1
  | ended _   => 0

def State.left (b : Batch ρ ν) (w : Nat) (st : State ρ ν) : Nat :=
  st.caller.left b.keys.length st.i + ∑ s ∈ Finset.range w, (st.workers s).left b.keys.length

theorem left_after (hw : 0 < w) (hi : i < b.keys.length) (p : Bool) :
    (after b w i p).left b.keys.length < (Worker.sending i p).left b.keys.length := by
  unfold after
  split
  case isTrue => simp only [Worker.left]; omega
  case isFalse =>
    split <;> simp only [Worker.left] <;> omega

theorem left_worker {worker : Worker} (ht : t < w) (hc : st'.caller = st.caller) (hi : st'.i = st.i)
    (hs : st'.workers = update st.workers t worker)
    (h : worker.left b.keys.length < (st.workers t).left b.keys.length) :
    st'.left b w < st.left b w := by
  rw [State.left, hc, hi, hs, State.left]
  refine Nat.add_lt_add_left (Finset.sum_lt_sum (fun s _ => ?_) ⟨t, Finset.mem_range.mpr ht, ?_⟩) _
  · by_cases hst : s = t
    · rw [hst, update_self]
      exact Nat.le_of_lt h
    · rw [update_of_ne hst]
  · rwa [update_self]

theorem left_caller (hw : st'.workers = st.workers)
    (h : st'.caller.left b.keys.length st'.i < st.caller.left b.keys.length st.i) :
    st'.left b w < st.left b w := by
  rw [State.left, hw, State.left]
  exact Nat.add_lt_add_right h _

theorem left_taken (i : Nat) (res : Lookup ρ ν) (hi : i < b.keys.length) :
    (taken b i (some res)).left b.keys.length i < 3 * (b.keys.length - i) + 2 := by
  cases res <;> simp only [taken, Caller.left] <;> omega

theorem left_next (hw : 0 < w) (h : Inv b w st) (hg : Guard b w st a) :
    (next b w st a).left b w < st.left b w := by
  cases a <;> simp only [Guard] at hg
  case take =>
    have ⟨hc, hi, hr⟩ := hg
    have ⟨_, hstop, _, _⟩ := h.rest_of hc
    have ⟨_, hres, _⟩ := h.ready hw hstop hr
    refine left_caller rfl ?_
    show (taken b st.i (st.slots (st.i % w)).res).left _ st.i < _
    rw [hres, hc]
    exact left_taken _ _ hi
  case pass =>
    have ⟨res, hc⟩ := hg
    have hi := (h.rest_of hc).1
    simp only [next, hc]
    refine left_caller rfl ?_
    rw [hc]
    simp only [pass]
    split <;> simp only [Caller.left] <;> omega
  case free =>
    have hi := (h.rest_of hg.1).1
    refine left_caller rfl ?_
    rw [hg.1]
    simp only [next, free]
    split <;> simp only [Caller.left] <;> omega
  case stop =>
    have ⟨exit, hc⟩ := hg
    simp only [next, hc]
    exact left_caller rfl (hc ▸ Nat.lt_succ_self 1)
  case join =>
    have ⟨⟨exit, hc⟩, _⟩ := hg
    simp only [next, hc]
    exact left_caller rfl (hc ▸ Nat.zero_lt_one)
  case grab t =>
    have ⟨ht, ⟨i, hwk⟩, _⟩ := hg
    simp only [next, hwk]
    exact left_worker ht rfl rfl rfl (hwk ▸ Nat.lt_succ_self _)
  case quit t =>
    have ⟨ht, ⟨i, hwk⟩, _⟩ := hg
    exact left_worker ht rfl rfl rfl (hwk ▸ Nat.succ_pos _)
  case find t res =>
    have ⟨ht, i, hwk, _⟩ := hg
    have hi := ((h.phase t ht).of_looking hwk).2.2.2
    simp only [next, hwk]
    refine left_worker ht rfl rfl rfl ?_
    rw [hwk]
    simp only [Worker.left]
    omega
  case send t =>
    have ⟨ht, ⟨i, p, hwk⟩, _⟩ := hg
    have ⟨_, _, hturn, hh⟩ := (h.phase t ht).of_sending hwk
    simp only [next, hwk]
    exact left_worker ht rfl rfl rfl (hwk ▸ left_after hw (hturn ▸ hh.lt) p)

theorem left_init : ({} : State ρ ν).left b w ≤ (w + 1) * (3 * b.keys.length + 2) := by
  have hsum : ∑ s ∈ Finset.range w, (({} : State ρ ν).workers s).left b.keys.length ≤
      ∑ _s ∈ Finset.range w, (3 * b.keys.length + 2) :=
    Finset.sum_le_sum fun s _ => by simp only [Worker.left]; omega
  rw [Finset.sum_const, Finset.card_range, smul_eq_mul] at hsum
  rw [State.left, Nat.succ_mul, Nat.add_comm]
  exact Nat.add_le_add hsum (Nat.le_refl _)

end Termination

variable {workers : Nat} {as : List (Action ρ ν)}

-- Every run of the workers and the calling goroutine is a run of the sequential loop, and ends
-- after a bounded number of steps, when all of them have ended.
theorem pairParallel_pair (hw : 0 < workers) (hk : 2 ≤ b.keys.length)
    (r : (pairParallel b (min workers b.keys.length)).Run {} as) :
    let st := (pairParallel b (min workers b.keys.length)).exec {} as
    st.passed <+: b.pair.passed ∧
    (∀ exit, st.caller = .ended exit → b.pair = ⟨st.passed, st.primaries, exit⟩ ∧
      ∀ s < min workers b.keys.length, st.workers s = .ended) ∧
    (outstanding st).length ≤ min workers b.keys.length ∧
    ((∃ exit, st.caller = .ended exit) ∨
      ∃ a, (pairParallel b (min workers b.keys.length)).guard st a) ∧
    as.length ≤ (min workers b.keys.length + 1) * (3 * b.keys.length + 2) := by
  intro st
  have hpos : 0 < min workers b.keys.length := by omega
  have hle : min workers b.keys.length ≤ b.keys.length := Nat.min_le_right ..
  have hinit : (pairParallel b (min workers b.keys.length)).Reachable {} := .init rfl
  have hi := inv hpos hle (hinit.exec r)
  have hlen := hinit.length_le (fun h hg => left_next hpos (inv hpos hle h) hg) r
  refine ⟨hi.rest.passed.1, fun exit hc => ?_, hi.outstanding_le, hi.live hpos,
    Nat.le_trans (Nat.le_of_add_right_le hlen) left_init⟩
  exact (hi.rest_of hc).2

section Example

-- The lookup of the second key fails, and it is the first to be done.
def secondFails : Batch Nat Unit where
  captureID := .zero
  hour := 0
  keys := [7, 9]
  lookup i _ := if i = 0 then .found 1 else .error (.sentinel .corrupt)
  fn _ := .ok

def secondFirst : List (Action Nat Unit) :=
  [.grab 1, .find 1 (.error (.sentinel .corrupt)), .send 1, .grab 0, .find 0 (.found 1), .send 0,
    .take, .pass, .free, .take, .stop, .join]

theorem pairParallel_pair_secondFirst :
    secondFails.pair = ⟨[⟨secondFails.key 7, 1⟩], 1,
      .error (secondFails.wrapErr 9 (.sentinel .corrupt))⟩ := by
  have run : (pairParallel secondFails 2).Run {} secondFirst := by
    simp [secondFirst, Machine.Run, Machine.Steps, pairParallel, Guard, next, take, pass, free,
      State.setSlot, State.setWorker, secondFails, after, taken, Function.update_apply, Batch.seq,
      Lookup.isPanic]
    omega
  have two : 0 < 2 := by decide
  exact ((pairParallel_pair two (by decide) run).2.1 _ rfl).1

end Example

end Tracepack.Pairing
