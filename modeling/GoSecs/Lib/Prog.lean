import Mathlib.Tactic

-- Programs over a state that may fail, the rules to reason about them, and their loops.

abbrev Prog (σ ε α : Type) :=
  StateT σ (Except ε) α

namespace Prog

variable {σ ε α β γ : Type} {x : Prog σ ε α} {f : α → Prog σ ε β} {s s' : σ} {a : α} {e : ε}

@[simp]
theorem run_pure (a : α) (s : σ) : (pure a : Prog σ ε α) s = .ok (a, s) :=
  rfl

@[simp]
theorem run_get (s : σ) : (get : Prog σ ε σ) s = .ok (s, s) :=
  rfl

@[simp]
theorem run_modify (g : σ → σ) (s : σ) : (modify g : Prog σ ε PUnit) s = .ok (⟨⟩, g s) :=
  rfl

theorem run_bind (x : Prog σ ε α) (f : α → Prog σ ε β) (s : σ) :
    (x >>= f) s =
      match x s with
      | .ok (a, s') => f a s'
      | .error e    => .error e := by
  show Except.bind (x s) _ = _
  cases x s <;> rfl

theorem bind_of_ok (h : x s = .ok (a, s')) : (x >>= f) s = f a s' := by
  rw [run_bind, h]

theorem bind_of_error (h : x s = .error e) : (x >>= f) s = .error e := by
  rw [run_bind, h]

theorem discard_of_ok (h : x s = .ok (a, s')) : discard x s = .ok (⟨⟩, s') := by
  show Except.bind (x s) _ = _
  rw [h]
  rfl

theorem bind_eq_ok {r : β × σ} :
    (x >>= f) s = .ok r ↔ ∃ a s', x s = .ok (a, s') ∧ f a s' = .ok r := by
  rw [run_bind]
  rcases x s with _ | ⟨a, s'⟩ <;> simp

-- A result that is a return with `Q` or a failure with `E`.
def Post (Q : α → σ → Prop) (E : ε → Prop) : Except ε (α × σ) → Prop
  | .ok (a, s) => Q a s
  | .error e   => E e

-- Weakest preconditions: a run from `s` returns with `Q` or fails with `E`.
def Wp (x : Prog σ ε α) (s : σ) (Q : α → σ → Prop) (E : ε → Prop) : Prop :=
  Post Q E (x s)

variable {Q Q' : α → σ → Prop} {R : β → σ → Prop} {E : ε → Prop}

theorem wp_of_ok (h : x s = .ok (a, s')) : Wp x s Q E ↔ Q a s' := by
  rw [Wp, h, Post]

theorem wp_of_error (h : x s = .error e) : Wp x s Q E ↔ E e := by
  rw [Wp, h, Post]

theorem wp_bind : Wp (x >>= f) s R E ↔ Wp x s (fun a s' => Wp (f a) s' R E) E := by
  simp only [Wp, run_bind]
  cases x s <;> rfl

theorem wp_bind_of_ok (h : x s = .ok (a, s')) : Wp (x >>= f) s R E ↔ Wp (f a) s' R E := by
  rw [wp_bind, wp_of_ok h]

theorem Wp.imp {E' : ε → Prop} (h : Wp x s Q E) (hq : ∀ a s', Q a s' → Q' a s')
    (he : ∀ e, E e → E' e) : Wp x s Q' E' := by
  revert h
  unfold Wp
  rcases x s with e | ⟨a, s'⟩
  case error => exact he _
  case ok    => exact hq _ _

theorem Wp.mono (h : Wp x s Q E) (hq : ∀ a s', Q a s' → Q' a s') : Wp x s Q' E :=
  h.imp hq fun _ => id

theorem Wp.ok (h : Wp x s Q E) (hx : x s = .ok (a, s')) : Q a s' :=
  (wp_of_ok hx).mp h

theorem Wp.error (h : Wp x s Q E) (hx : x s = .error e) : E e :=
  (wp_of_error hx).mp h

-- A run of `x'` returns what a run of `x` returns with `Q`, in a related state.
def Follows (rel : σ → σ → Prop) (x x' : Prog σ ε α) (s s' : σ) (Q : α → σ → Prop) : Prop :=
  ∀ a t, x s = .ok (a, t) → Q a t → ∃ t', x' s' = .ok (a, t') ∧ rel t t'

section Follows

variable {rel : σ → σ → Prop} {x' : Prog σ ε α} {f' : α → Prog σ ε β} {t t' : σ}

theorem follows_of_ok (h : x s = .ok (a, t))
    (h' : Q a t → ∃ t', x' s' = .ok (a, t') ∧ rel t t') : Follows rel x x' s s' Q := by
  intro b u hb hq
  cases h.symm.trans hb
  exact h' hq

theorem follows_of_error (h : x s = .error e) : Follows rel x x' s s' Q := by
  intro a t ha
  cases h.symm.trans ha

theorem follows_pure (a : α) (h : rel s s') :
    Follows rel (pure a : Prog σ ε α) (pure a) s s' Q :=
  follows_of_ok rfl fun _ => ⟨s', rfl, h⟩

theorem Follows.mono (h : Follows rel x x' s s' Q) (hq : ∀ a t, x s = .ok (a, t) → Q' a t → Q a t) :
    Follows rel x x' s s' Q' :=
  fun a t ha hq' => h a t ha (hq a t ha hq')

theorem Follows.bind (h : Follows rel x x' s s' fun a t => ∃ b u, f a t = .ok (b, u) ∧ R b u)
    (hf : ∀ a t t', x s = .ok (a, t) → rel t t' → Follows rel (f a) (f' a) t t' R) :
    Follows rel (x >>= f) (x' >>= f') s s' R := by
  intro b u hb hr
  have ⟨a, t, ha, hb⟩ := bind_eq_ok.mp hb
  have ⟨t', ha', ht⟩ := h a t ha ⟨b, u, hb, hr⟩
  have ⟨u', hb', hu⟩ := hf a t t' ha ht b u hb hr
  exact ⟨u', (bind_of_ok ha').trans hb', hu⟩

theorem follows_bind_of_ok (h : x s = .ok (a, t)) (h' : x' s' = .ok (a, t'))
    (hf : Follows rel (f a) (f' a) t t' R) : Follows rel (x >>= f) (x' >>= f') s s' R := by
  intro b u hb
  rw [bind_of_ok h] at hb
  rw [bind_of_ok h']
  exact hf b u hb

-- Here the two runs go on differently.
theorem follows_get {f f' : σ → Prog σ ε β} (h : Follows rel (f s) (f' s') s s' R) :
    Follows rel (get >>= f) (get >>= f') s s' R :=
  h

end Follows

-- A loop. Its body goes on with a new value (`inl`) or returns (`inr`). The number bounds the
-- rounds.
def iterate (stuck : ε) (body : β → Prog σ ε (β ⊕ γ)) : Nat → β → Prog σ ε γ
  | 0,     _ => throw stuck
  | k + 1, b => do
    match ← body b with
    | .inl b' => iterate stuck body k b'
    | .inr c  => pure c

section Iterate

variable {stuck : ε} {body : β → Prog σ ε (β ⊕ γ)} {b b' : β} {c : γ} {k k' : Nat}

theorem iterate_inl (h : body b s = .ok (.inl b', s')) :
    iterate stuck body (k + 1) b s = iterate stuck body k b' s' :=
  bind_of_ok h

theorem iterate_inr (h : body b s = .ok (.inr c, s')) :
    iterate stuck body (k + 1) b s = .ok (c, s') :=
  bind_of_ok h

theorem iterate_error (h : body b s = .error e) :
    iterate stuck body (k + 1) b s = .error e :=
  bind_of_error h

-- The rule for loops: the invariant `I` holds before each round, and each takes the measure down.
theorem iterate_wp {I : β → σ → Prop} {Q : γ → σ → Prop} (m : σ → Nat)
    (h : ∀ b s, I b s → Wp (body b) s (fun r s' =>
      match r with
      | .inl b' => I b' s' ∧ m s' < m s
      | .inr c  => Q c s') E)
    (hk : m s < k) (hi : I b s) : Wp (iterate stuck body k b) s Q E := by
  induction k generalizing b s
  case zero => omega
  case succ k ih =>
    rw [iterate, wp_bind]
    refine (h b s hi).mono fun r s' hr => ?_
    cases r
    case inl b' => exact ih (by omega) hr.1
    case inr c  => exact hr

end Iterate
end Prog
