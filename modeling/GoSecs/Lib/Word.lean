import Mathlib.Tactic

-- Signed words of 64 bits, their operations given by exact results.

namespace Word

def minInt64 : Int := -2 ^ 63
def maxInt64 : Int := 2 ^ 63 - 1

def Fits (x : Int) : Prop :=
  minInt64 ≤ x ∧ x ≤ maxInt64

instance {x : Int} : Decidable (Fits x) :=
  inferInstanceAs (Decidable (_ ∧ _))

-- The result as the machine has it.
def wrap (x : Int) : Id Int :=
  pure (x.bmod (2 ^ 64))

-- No result where the machine would wrap around.
def checked (x : Int) : Option Int :=
  if Fits x then some x else none

-- A meaning of the operations that is exact on the words.
def Exact {m : Type → Type} [Monad m] (op : Int → m Int) : Prop :=
  ∀ x, Fits x → op x = pure x

theorem wrap_exact : Exact wrap := by
  intro x ⟨hl, hr⟩
  simp only [minInt64, maxInt64] at hl hr
  exact congrArg pure (Int.bmod_eq_of_le (by norm_num; omega) (by norm_num; omega))

theorem checked_exact : Exact checked :=
  fun _ h => if_pos h

-- The machine comes to `a`, and none of its operations wraps around.
def Computes {α : Type} (run : ∀ {m : Type → Type} [Monad m], (Int → m Int) → m α) (a : α) : Prop :=
  run wrap = pure a ∧ run checked = some a

theorem Computes.of_exact {α : Type} {run : ∀ {m : Type → Type} [Monad m], (Int → m Int) → m α}
    {a : α} (h : ∀ {m : Type → Type} [Monad m] [LawfulMonad m] {op : Int → m Int},
      Exact op → run op = pure a) : Computes run a :=
  ⟨h wrap_exact, h checked_exact⟩

section Division

variable {m : Type → Type} [Monad m] {op : Int → m Int} {x f q : Int}

-- Division rounds toward zero, and so a remainder below it takes one off.
def floorDiv (op : Int → m Int) (x f : Int) : m Int := do
  let q ← op (x.tdiv f)
  let r ← op (x.tmod f)
  if r < 0 then op (q - 1) else pure q

theorem fits_ediv (h : Fits x) (hf : 0 < f) : Fits (x / f) := by
  have hl : minInt64 / f ≤ x / f := Int.ediv_le_ediv hf h.1
  have hr : x / f ≤ maxInt64 / f := Int.ediv_le_ediv hf h.2
  have := Int.ediv_le_self f (a := maxInt64) (by decide)
  have : minInt64 ≤ minInt64 / f := by
    rw [Int.le_ediv_iff_mul_le hf]
    simp only [minInt64]
    nlinarith
  exact ⟨by omega, by omega⟩

theorem floorDiv_eq [LawfulMonad m] (hop : Exact op) (h : Fits x) (hf : 0 < f)
    (hm : f ≤ maxInt64) : floorDiv op x f = pure (x / f) := by
  have hq := fits_ediv h hf
  have h₀ := Int.emod_nonneg x hf.ne'
  have h₁ := Int.emod_lt_of_pos x hf
  have hmin : minInt64 < -maxInt64 := by decide
  rw [floorDiv, Int.tdiv_eq_ediv, Int.tmod_eq_emod]
  by_cases hx : 0 ≤ x ∨ f ∣ x
  case pos =>
    have hr : Fits (x % f) := ⟨by omega, by omega⟩
    simp [hx, hop _ hq, hop _ hr, not_lt.mpr h₀]
  case neg =>
    have hneg : x / f < 0 := Int.ediv_neg_of_neg_of_pos (by omega) hf
    have hq' : Fits (x / f + 1) := ⟨by have := hq.1; omega, by omega⟩
    have hr : Fits (x % f - f) := ⟨by omega, by omega⟩
    have hlt : x % f - f < 0 := by omega
    simp [hx, Int.sign_eq_one_of_pos hf, Int.natAbs_of_nonneg hf.le, hop _ hq', hop _ hr, hlt,
      hop _ hq]

theorem tdiv_minInt64 (f : Int) : minInt64.tdiv f = -(2 ^ 63 / f) := by
  rw [minInt64, Int.neg_tdiv, Int.tdiv_eq_ediv_of_nonneg (by decide)]

-- The bound is the least quotient whose product is a word.
theorem lt_tdiv_minInt64 (hf : 0 < f) : q < minInt64.tdiv f ↔ q * f < minInt64 := by
  rw [tdiv_minInt64, lt_neg, Int.ediv_lt_iff_lt_mul hf, Int.neg_mul, lt_neg]
  rfl

theorem fits_tdiv_minInt64 (hf : 0 < f) : Fits (minInt64.tdiv f) := by
  have h₀ : 0 ≤ 2 ^ 63 / f := Int.ediv_nonneg (by decide) hf.le
  have h₁ : 2 ^ 63 / f ≤ 2 ^ 63 := Int.ediv_le_self f (by decide)
  rw [tdiv_minInt64, Fits, minInt64, maxInt64]
  omega

theorem ediv_eq_of_mem (hf : 0 < f) (hl : q * f ≤ x) (hr : x < q * f + f) : x / f = q := by
  rw [Int.ediv_eq_iff_of_pos hf]
  constructor <;> linarith

end Division

end Word
