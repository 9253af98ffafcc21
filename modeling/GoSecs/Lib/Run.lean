import Mathlib.Tactic

open List

-- Computations that return, fail with an error or break off, and the slices of Go in them.

-- An `err` is an error that is returned, a `panic` an index or a slice out of range, and `stuck` a
-- loop that does not end.
inductive Stop (ε : Type)
  | err (e : ε)
  | panic
  | stuck
deriving DecidableEq

abbrev Run (ε : Type) := Except (Stop ε)

namespace Run

variable {ε ε' α β γ : Type}

def fail (e : ε) : Run ε α :=
  .error (.err e)

def panic : Run ε α :=
  .error .panic

def stuck : Run ε α :=
  .error .stuck

-- `if c { return e }`
def failIf (c : Prop) [Decidable c] (e : ε) : Run ε Unit :=
  if c then fail e else pure ()

-- `if c { x }`
def when (c : Prop) [Decidable c] (x : Run ε Unit) : Run ε Unit :=
  if c then x else pure ()

def mapErr (g : ε → ε') : Run ε α → Run ε' α
  | .ok a => .ok a
  | .error (.err e) => .error (.err (g e))
  | .error .panic => .error .panic
  | .error .stuck => .error .stuck

-- An error that is looked at instead of returned.
def attempt : Run ε α → Run ε' (Except ε α)
  | .ok a => .ok (.ok a)
  | .error (.err e) => .ok (.error e)
  | .error .panic => .error .panic
  | .error .stuck => .error .stuck

-- `s[lo:hi]`
def slice (s : List α) (lo hi : Nat) : Run ε (List α) :=
  if lo ≤ hi ∧ hi ≤ s.length then pure ((s.drop lo).take (hi - lo)) else panic

-- `s[i]`
def index (s : List α) (i : Nat) : Run ε α :=
  match s[i]? with
  | some a => pure a
  | none   => panic

-- The computation returns or fails with an error.
def Safe : Run ε α → Prop
  | .ok _ => True
  | .error (.err _) => True
  | .error .panic => False
  | .error .stuck => False

variable {x y : Run ε α} {f g : α → Run ε β} {b : β} {c : Prop} {e : ε} {a : α} {h : ε → ε'}
  {s as : List α} {lo hi : Nat} {I : β → Prop}

@[simp]
theorem bind_ok (a : α) (f : α → Run ε β) : (Except.ok a >>= f) = f a :=
  rfl

@[simp]
theorem bind_error (e : Stop ε) (f : α → Run ε β) : (Except.error e >>= f) = .error e := by
  exact rfl

@[simp]
theorem pure_eq (a : α) : (pure a : Run ε α) = .ok a :=
  rfl

theorem bind_eq_ok : (x >>= f) = .ok b ↔ ∃ a, x = .ok a ∧ f a = .ok b := by
  cases x <;> simp

theorem bind_congr (hx : x = y) (hf : ∀ a, x = .ok a → f a = g a) : (x >>= f) = (y >>= g) := by
  subst hx
  cases x
  case error => rfl
  case ok a  => exact hf a rfl

@[simp]
theorem failIf_eq_ok [Decidable c] {u : Unit} : failIf c e = .ok u ↔ ¬c := by
  unfold failIf
  split <;> simp_all [fail]

@[simp]
theorem fail_ne_ok : (fail e : Run ε α) ≠ .ok a :=
  nofun

@[simp]
theorem mapErr_eq_ok : mapErr h x = .ok a ↔ x = .ok a := by
  rcases x with (e | _ | _) | b <;> simp [mapErr]

@[simp]
theorem mapErr_ok (a : α) : mapErr h (.ok a : Run ε α) = .ok a :=
  rfl

theorem attempt_eq_ok : (attempt x : Run ε' (Except ε α)) = .ok (.ok a) ↔ x = .ok a := by
  rcases x with (e | _ | _) | b <;> simp [attempt]

theorem bind_eq_fail :
    (x >>= f) = fail e ↔ x = fail e ∨ ∃ a, x = .ok a ∧ f a = fail e := by
  cases x <;> simp [fail]

theorem mapErr_eq_fail {e : ε'} : mapErr h x = fail e ↔ ∃ e', x = fail e' ∧ h e' = e := by
  rcases x with (e | _ | _) | b <;> simp [mapErr, fail]

theorem failIf_eq_fail [Decidable c] {e' : ε} : failIf c e = fail e' ↔ c ∧ e = e' := by
  unfold failIf
  split <;> simp_all [fail]

theorem slice_ne_fail : slice s lo hi ≠ fail e := by
  unfold slice
  split <;> simp [fail, panic]

theorem slice_eq (hl : lo ≤ hi) (hh : hi ≤ s.length) :
    (slice s lo hi : Run ε _) = .ok ((s.drop lo).take (hi - lo)) :=
  if_pos ⟨hl, hh⟩

theorem slice_take {n : Nat} (h : hi ≤ n) :
    (slice (s.take n) lo hi : Run ε _) = slice s lo hi := by
  simp only [slice, length_take]
  by_cases hc : lo ≤ hi ∧ hi ≤ s.length
  · rw [if_pos hc, if_pos (by omega), drop_take, take_take,
      min_eq_left (by omega)]
  · rw [if_neg hc, if_neg (by omega)]

theorem slice_append_right {a b : List α} {n : Nat} (h : a.length = n) :
    (slice (a ++ b) n (a ++ b).length : Run ε _) = .ok b := by
  rw [slice_eq (by simp [← h]) le_rfl, ← h]
  simp

theorem slice_middle {a b c : List α} (hl : a.length = lo)
    (hh : lo + b.length = hi) : (slice (a ++ (b ++ c)) lo hi : Run ε _) = .ok b := by
  rw [slice_eq (by omega) (by simp only [length_append]; omega), ← hl]
  simp [show hi - a.length = b.length by omega]

theorem slice_eq_ok {t : List α} :
    (slice s lo hi : Run ε _) = .ok t ↔
      lo ≤ hi ∧ hi ≤ s.length ∧ t = (s.drop lo).take (hi - lo) := by
  unfold slice
  split
  case isTrue h  => simp [h, eq_comm]
  case isFalse h => simp [panic]; tauto

theorem mapM_ok {f : α → Run ε β} {g : α → β} (h : ∀ a ∈ as, f a = .ok (g a)) :
    as.mapM f = .ok (as.map g) := by
  induction as
  case nil => rfl
  case cons a as hi =>
    have ⟨ha, has⟩ := forall_mem_cons.mp h
    simp [ha, hi has]

theorem index_eq {i : Nat} (h : i < s.length) : (index s i : Run ε _) = .ok s[i] := by
  simp [index, h]

namespace Safe

theorem bind (hx : Safe x) (hf : ∀ a, x = .ok a → Safe (f a)) : Safe (x >>= f) := by
  rcases x with (e | _ | _) | a
  case error.err => exact trivial
  case error.panic => exact hx
  case error.stuck => exact hx
  case ok => exact hf a rfl

end Safe

-- Two ways to run a computation: both are safe, end the same and return with `Q` only.
structure Agree (x y : Run ε α) (Q : α → Prop) : Prop where
  eq   : x = y
  safe : Safe x
  post : ∀ a, x = .ok a → Q a

-- A safe computation that returns with `Q` only.
abbrev Spec (x : Run ε α) (Q : α → Prop) : Prop :=
  Agree x x Q

namespace Agree

variable {Q Q' : α → Prop} {R : β → Prop}

theorem pure (h : Q a) : Agree (pure a : Run ε α) (pure a) Q where
  eq   := rfl
  safe := trivial
  post := by rintro _ ⟨⟩; exact h

theorem fail (e : ε) : Agree (fail e : Run ε α) (fail e) Q where
  eq   := rfl
  safe := trivial
  post := nofun

theorem failIf (c : Prop) [Decidable c] (e : ε) : Agree (failIf c e) (failIf c e) fun _ => ¬c where
  eq   := rfl
  safe := by unfold Run.failIf; split <;> exact trivial
  post := fun _ => failIf_eq_ok.mp

theorem bind (hx : Agree x y Q) (hf : ∀ a, Q a → Agree (f a) (g a) R) :
    Agree (x >>= f) (y >>= g) R where
  eq   := bind_congr hx.eq fun a ha => (hf a (hx.post a ha)).eq
  safe := hx.safe.bind fun a ha => (hf a (hx.post a ha)).safe
  post := fun b hb =>
    have ⟨a, ha, hb⟩ := bind_eq_ok.mp hb
    (hf a (hx.post a ha)).post b hb

theorem check [Decidable c] {f g : Unit → Run ε β} (h : ¬c → Agree (f ()) (g ()) R) :
    Agree (Run.failIf c e >>= f) (Run.failIf c e >>= g) R :=
  (failIf c e).bind fun _ => h

theorem mono (h : Agree x y Q) (hq : ∀ a, Q a → Q' a) : Agree x y Q' :=
  ⟨h.eq, h.safe, fun a ha => hq a (h.post a ha)⟩

theorem and (h : Agree x y Q) (h' : ∀ a, x = .ok a → Q' a) : Agree x y fun a => Q a ∧ Q' a :=
  ⟨h.eq, h.safe, fun a ha => ⟨h.post a ha, h' a ha⟩⟩

theorem mapErr {k : ε → ε'} (h : Agree x y Q) : Agree (mapErr k x) (mapErr k y) Q where
  eq   := by rw [h.eq]
  safe := by
    have hs := h.safe
    rcases x with (e | _ | _) | a
    case error.err => exact trivial
    case error.panic => exact hs
    case error.stuck => exact hs
    case ok => exact trivial
  post := fun a ha => h.post a (mapErr_eq_ok.mp ha)

theorem ite [Decidable c] {x' y' : Run ε α} (h : c → Agree x y Q)
    (h' : ¬c → Agree x' y' Q) : Agree (if c then x else x') (if c then y else y') Q := by
  split
  case isTrue hc  => exact h hc
  case isFalse hc => exact h' hc

-- The rule for one branch of a chain that reads a value and stores it.
theorem store [Decidable c] {g : α → β} {z z' : Run ε β} {R : β → Prop}
    (hx : Agree x y Q) (hg : ∀ a, Q a → R (g a)) (hz : Agree z z' R) :
    Agree (if c then x >>= fun a => Pure.pure (g a) else z)
      (if c then y >>= fun a => Pure.pure (g a) else z') R :=
  ite (fun _ => hx.bind fun a ha => pure (hg a ha)) fun _ => hz

theorem when [Decidable c] {x y : Run ε Unit} {Q : Prop} (h : c → Agree x y fun _ => Q) :
    Agree (when c x) (when c y) fun _ => c → Q :=
  ite (fun hc => (h hc).mono fun _ hq _ => hq) fun hc => pure fun h => absurd h hc

-- The rule for loops over a list: what one round keeps, all rounds keep.
theorem foldlM {f g : β → α → Run ε β} (hb : I b)
    (h : ∀ b a, a ∈ as → I b → Agree (f b a) (g b a) I) :
    Agree (as.foldlM f b) (as.foldlM g b) I := by
  induction as generalizing b
  case nil => exact pure hb
  case cons a as hi =>
    simp only [foldlM_cons]
    refine (h b a mem_cons_self hb).bind fun b' hb' => ?_
    exact hi hb' fun b a ha => h b a (mem_cons_of_mem _ ha)

theorem slice (hl : lo ≤ hi) (hh : hi ≤ s.length) :
    Agree (slice s lo hi : Run ε _) (slice s lo hi) fun t => t = (s.drop lo).take (hi - lo) := by
  rw [slice_eq hl hh]
  exact pure rfl

theorem index {i : Nat} (h : i < s.length) :
    Agree (index s i : Run ε _) (index s i) fun a => a = s[i] := by
  rw [index_eq h]
  exact pure rfl

end Agree

-- The computation returns, and with `Q`.
def Returns (x : Run ε α) (Q : α → Prop) : Prop :=
  ∃ a, x = .ok a ∧ Q a

namespace Returns

variable {Q Q' : α → Prop} {R : β → Prop}

theorem pure (h : Q a) : Returns (pure a : Run ε α) Q :=
  ⟨a, rfl, h⟩

theorem bind (hx : Returns x Q) (hf : ∀ a, Q a → Returns (f a) R) : Returns (x >>= f) R := by
  obtain ⟨a, rfl, ha⟩ := hx
  exact hf a ha

theorem mono (h : Returns x Q) (hq : ∀ a, Q a → Q' a) : Returns x Q' := by
  obtain ⟨a, ha, h⟩ := h
  exact ⟨a, ha, hq a h⟩

theorem post (h : Returns x Q) (ha : x = .ok a) : Q a := by
  obtain ⟨b, hb, h⟩ := h
  obtain rfl := Except.ok.inj (ha.symm.trans hb)
  exact h

-- A safe computation whose error is looked at returns.
theorem attempt (h : Spec x Q) : Returns (attempt x : Run ε' (Except ε α)) fun r =>
    match r with
    | .ok a    => x = .ok a ∧ Q a
    | .error e => x = Run.fail e := by
  have hs := h.safe
  rcases x with (e | _ | _) | a
  case error.err => exact pure rfl
  case error.panic => exact hs.elim
  case error.stuck => exact hs.elim
  case ok => exact pure ⟨rfl, h.post a rfl⟩

theorem ite [Decidable c] {x' : Run ε α} (h : c → Returns x Q)
    (h' : ¬c → Returns x' Q) : Returns (if c then x else x') Q := by
  split
  case isTrue hc  => exact h hc
  case isFalse hc => exact h' hc

-- The rule for loops over a list that always return.
theorem foldlM {f : β → α → Run ε β} (hb : I b)
    (h : ∀ b a, a ∈ as → I b → Returns (f b a) I) : Returns (as.foldlM f b) I := by
  induction as generalizing b
  case nil => exact pure hb
  case cons a as hi =>
    rw [foldlM_cons]
    refine (h b a mem_cons_self hb).bind fun b' hb' => ?_
    exact hi hb' fun b a ha => h b a (mem_cons_of_mem _ ha)

end Returns
end Run
