import Mathlib.Data.List.Basic
import Mathlib.Data.List.Induction
import Mathlib.Logic.Function.Basic
import Mathlib.Tactic.Common

-- State machines, their runs and the rules to reason about every interleaving of their actions.

-- An action is allowed by its guard and then leads to one state.
structure Machine (σ : Type*) (α : Type*) where
  init  : σ → Prop
  guard : σ → α → Prop
  next  : σ → α → σ

open Function

namespace Machine

variable {σ α : Type*}

-- The machine that only takes steps with `ok`.
def restrict (m : Machine σ α) (ok : σ → α → Prop) : Machine σ α where
  init := m.init
  guard s a := m.guard s a ∧ ok s a
  next := m.next

def startAt (m : Machine σ α) (init : σ → Prop) : Machine σ α where
  init  := init
  guard := m.guard
  next  := m.next

-- One machine for each index, all of them running side by side.
def pi (m : Machine σ α) (κ : Type*) [DecidableEq κ] : Machine (κ → σ) (κ × α) where
  init s := ∀ k, m.init (s k)
  guard s a := m.guard (s a.1) a.2
  next s a := update s a.1 (m.next (s a.1) a.2)

inductive Reachable (m : Machine σ α) : σ → Prop
  | init {s}   : m.init s → Reachable m s
  | step {s a} : Reachable m s → m.guard s a → Reachable m (m.next s a)

def exec (m : Machine σ α) (s : σ) (as : List α) : σ :=
  as.foldl m.next s

-- Every step of a list of actions meets `ok`.
def Steps (m : Machine σ α) (ok : σ → α → Prop) : σ → List α → Prop
  | _, [] => True
  | s, a :: as => ok s a ∧ m.Steps ok (m.next s a) as

-- Every state that a list of actions passes through meets `P`.
def Along (m : Machine σ α) (P : σ → Prop) : σ → List α → Prop
  | s, [] => P s
  | s, a :: as => P s ∧ m.Along P (m.next s a) as

-- A list of actions that the machine can take.
abbrev Run (m : Machine σ α) (s : σ) (as : List α) : Prop :=
  m.Steps m.guard s as

variable {m : Machine σ α} {s : σ} {as bs : List α} {P : σ → Prop} {ok : σ → α → Prop}
  {I : σ → Prop} {acc : σ → α → Prop}

instance decidableSteps [∀ s a, Decidable (ok s a)] : ∀ s as, Decidable (m.Steps ok s as)
  | _, [] => .isTrue trivial
  | s, a :: as => @instDecidableAnd _ _ (inferInstance : Decidable (ok s a))
                    (decidableSteps (m.next s a) as)

-- What holds initially and is kept by every step holds of every reachable state.
theorem Reachable.invariant (init : ∀ {s}, m.init s → P s)
    (step : ∀ {s a}, m.Reachable s → P s → m.guard s a → P (m.next s a)) (h : m.Reachable s) :
    P s := by
  induction h
  case init h => exact init h
  case step hr hg ih => exact step hr ih hg

theorem Reachable.of_restrict (h : (m.restrict ok).Reachable s) : m.Reachable s := by
  induction h
  case init h => exact .init h
  case step _ hg ih => exact .step ih hg.left

theorem Reachable.of_startAt {init : σ → Prop} (hi : ∀ {s}, init s → m.Reachable s)
    (h : ((m.restrict ok).startAt init).Reachable s) : m.Reachable s := by
  induction h
  case init h => exact hi h
  case step _ hg ih => exact .step ih hg.left

theorem Reachable.of_pi {κ : Type*} [DecidableEq κ] {s : κ → σ} (h : (m.pi κ).Reachable s) (k : κ) :
    m.Reachable (s k) := by
  induction h
  case init h => exact .init (h k)
  case step s a _ hg ih =>
    by_cases hk : k = a.1
    · rw [hk] at ih ⊢
      show m.Reachable (update s a.1 _ a.1)
      rw [update_self]
      exact ih.step hg
    · show m.Reachable (update s a.1 _ k)
      rw [update_of_ne hk]
      exact ih

theorem exec_append : m.exec s (as ++ bs) = m.exec (m.exec s as) bs :=
  List.foldl_append

theorem steps_append :
    m.Steps ok s (as ++ bs) ↔ m.Steps ok s as ∧ m.Steps ok (m.exec s as) bs := by
  induction as generalizing s
  case nil => exact (iff_of_eq (true_and _)).symm
  case cons a as ih => exact (and_congr_right fun _ => ih).trans and_assoc.symm

theorem Reachable.exec (h : m.Reachable s) (r : m.Run s as) : m.Reachable (m.exec s as) := by
  induction as generalizing s
  case nil => exact h
  case cons a as ih => exact ih (h.step r.left) r.right

-- Induction over a run from its end.
theorem run_induction {Q : List α → Prop} (nil : Q [])
    (snoc : ∀ {as a}, m.Run s as → Q as → m.guard (m.exec s as) a → Q (as ++ [a]))
    (r : m.Run s as) : Q as := by
  induction as using List.reverseRecOn
  case nil => exact nil
  case append_singleton as a ih =>
    have ⟨r, ha⟩ := steps_append.mp r
    exact snoc r (ih r) ha.left

-- What every step with `ok` keeps, a run of such steps keeps.
theorem Reachable.keeps_of_steps
    (step : ∀ {s a}, m.Reachable s → P s → m.guard s a → ok s a → P (m.next s a))
    (h : m.Reachable s) (hP : P s) (r : m.Run s as) (hs : m.Steps ok s as) : P (m.exec s as) := by
  induction as generalizing s
  case nil => exact hP
  case cons a as ih => exact ih (h.step r.left) (step h hP r.left hs.left) r.right hs.right

theorem Reachable.keeps (step : ∀ {s a}, m.Reachable s → P s → m.guard s a → P (m.next s a))
    (h : m.Reachable s) (hP : P s) (r : m.Run s as) : P (m.exec s as) := by
  induction as generalizing s
  case nil => exact hP
  case cons a as ih => exact ih (h.step r.left) (step h hP r.left) r.right

-- What a step without `ok` establishes and every step keeps holds behind such a step.
theorem Reachable.of_violation
    (viol : ∀ {s a}, m.Reachable s → m.guard s a → ¬ok s a → P (m.next s a))
    (step : ∀ {s a}, m.Reachable s → P s → m.guard s a → P (m.next s a))
    (h : m.Reachable s) (r : m.Run s as) (hn : ¬m.Steps ok s as) : P (m.exec s as) := by
  induction as generalizing s
  case nil => exact absurd trivial hn
  case cons a as ih =>
    by_cases ha : ok s a
    case pos => exact ih (h.step r.left) r.right fun hs => hn ⟨ha, hs⟩
    case neg =>
      show P (m.exec (m.next s a) as)
      exact (h.step r.left).keeps step (viol h r.left ha) r.right

-- Where a step keeps `P` exactly if it meets `ok`, a run keeps `P` exactly if all its steps do.
theorem along_iff_steps
    (step : ∀ {s a}, m.Reachable s → P s → m.guard s a → (P (m.next s a) ↔ ok s a))
    (h : m.Reachable s) (hP : P s) (r : m.Run s as) : m.Along P s as ↔ m.Steps ok s as := by
  induction as generalizing s
  case nil => exact iff_of_true hP trivial
  case cons a as ih =>
    have hs := step h hP r.left
    constructor
    case mp =>
      intro ⟨_, hl⟩
      have ha : P (m.next s a) := by cases as <;> first | exact hl | exact hl.left
      exact ⟨hs.mp ha, (ih (h.step r.left) ha r.right).mp hl⟩
    case mpr =>
      intro ⟨ho, hl⟩
      exact ⟨hP, (ih (h.step r.left) (hs.mpr ho) r.right).mpr hl⟩

-- The steps of a run meet `ok` exactly if they meet `acc` and `P` holds in the end.
theorem steps_iff_accepted (keep : ∀ {s a}, I s → m.guard s a → acc s a → I (m.next s a))
    (accept : ∀ {s a}, I s → P s → m.guard s a → acc s a)
    (step : ∀ {s a}, I s → m.guard s a → acc s a → (P (m.next s a) ↔ P s ∧ ok s a))
    (hI : I s) (r : m.Run s as) :
    P s ∧ m.Steps ok s as ↔ m.Steps acc s as ∧ P (m.exec s as) := by
  induction as generalizing s
  case nil => exact and_comm
  case cons a as ih =>
    constructor
    case mp =>
      intro ⟨hP, ho, hs⟩
      have ha := accept hI hP r.left
      have ⟨hacc, hend⟩ := (ih (keep hI r.left ha) r.right).mp ⟨(step hI r.left ha).mpr ⟨hP, ho⟩, hs⟩
      exact ⟨⟨ha, hacc⟩, hend⟩
    case mpr =>
      intro ⟨⟨ha, hacc⟩, hend⟩
      have ⟨hP, hs⟩ := (ih (keep hI r.left ha) r.right).mpr ⟨hacc, hend⟩
      have ⟨hP, ho⟩ := (step hI r.left ha).mp hP
      exact ⟨hP, ho, hs⟩

theorem along_of_steps
    (keep : ∀ {s a}, I s → m.guard s a → acc s a → I (m.next s a)) (hP : ∀ {s}, I s → P s)
    (hI : I s) (r : m.Run s as) (hs : m.Steps acc s as) : m.Along P s as := by
  induction as generalizing s
  case nil => exact hP hI
  case cons a as ih => exact ⟨hP hI, ih (keep hI r.left hs.left) r.right hs.right⟩

theorem Reachable.length_le {f : σ → Nat}
    (dec : ∀ {s a}, m.Reachable s → m.guard s a → f (m.next s a) < f s)
    (h : m.Reachable s) (r : m.Run s as) : as.length + f (m.exec s as) ≤ f s := by
  induction as generalizing s
  case nil => exact Nat.le_of_eq (Nat.zero_add _)
  case cons a as ih =>
    have hrest := ih (h.step r.left) r.right
    have hstep := dec h r.left
    rw [List.length_cons]
    exact Nat.le_trans (Nat.add_right_comm .. ▸ Nat.succ_le_succ hrest) hstep

end Machine
