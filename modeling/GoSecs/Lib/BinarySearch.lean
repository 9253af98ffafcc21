import Mathlib.Tactic

open List

-- The binary search of Go's package slices, over a list whose elements below the target are those that
-- `below` holds of.

namespace BinarySearch

variable {α : Type}

-- The number bounds the rounds.
def search (below : α → Bool) (xs : List α) : Nat → Nat → Nat → Nat
  | 0,     i, _ => i
  | k + 1, i, j =>
    if i < j then
      let h := (i + j) / 2
      if xs[h]?.any below then search below xs k (h + 1) j else search below xs k i h
    else
      i

-- The position of the first element that is not below, if `hit` holds of that element.
def find (below hit : α → Bool) (xs : List α) : Option Nat :=
  let i := search below xs xs.length 0 xs.length
  if xs[i]?.any hit then some i else none

variable {below hit : α → Bool} {xs : List α}

theorem exists_of_find {i : Nat} (h : find below hit xs = some i) : ∃ x ∈ xs, hit x := by
  simp only [find] at h
  cases hx : xs[search below xs xs.length 0 xs.length]?
  case none   => simp [hx] at h
  case some x =>
    refine ⟨x, mem_of_getElem? hx, ?_⟩
    by_contra hn
    simp [hx, hn] at h

variable {l t : List α}

-- The elements below come first, so the search ends behind them.
theorem search_append (hl : ∀ x ∈ l, below x) (ht : ∀ x ∈ t, ¬below x) : ∀ {k i j : Nat},
    j - i ≤ k → i ≤ l.length → l.length ≤ j → j ≤ (l ++ t).length →
      search below (l ++ t) k i j = l.length := by
  intro k
  induction k
  case zero => intro i j hk hi hj _; simp only [search]; omega
  case succ k ih =>
    intro i j hk hi hj hlen
    simp only [search]
    split
    case isFalse => omega
    case isTrue hij =>
      by_cases hh : (i + j) / 2 < l.length
      case pos =>
        rw [getElem?_append_left hh, getElem?_eq_getElem hh, Option.any_some,
          if_pos (hl _ (getElem_mem _))]
        exact ih (by omega) hh hj hlen
      case neg =>
        have hr : (i + j) / 2 - l.length < t.length := by
          rw [length_append] at hlen
          omega
        rw [getElem?_append_right (not_lt.mp hh), getElem?_eq_getElem hr, Option.any_some,
          if_neg (ht _ (getElem_mem _))]
        exact ih (by omega) hi (by omega) (by omega)

-- What is below one element and so below all after it ends where the search does.
theorem exists_search_eq (hs : xs.Pairwise fun a b => below b → below a) : ∃ l t, xs = l ++ t ∧
    search below xs xs.length 0 xs.length = l.length ∧ (∀ x ∈ l, below x) ∧ ∀ x ∈ t, ¬below x := by
  have ⟨l, t, hx, hl, ht⟩ : ∃ l t, xs = l ++ t ∧ (∀ x ∈ l, below x) ∧ ∀ x ∈ t, ¬below x := by
    induction xs
    case nil => exact ⟨[], [], rfl, nofun, nofun⟩
    case cons x xs hi =>
      have ⟨hx, hxs⟩ := pairwise_cons.mp hs
      by_cases hb : below x
      case pos =>
        have ⟨l, t, he, hl, ht⟩ := hi hxs
        exact ⟨x :: l, t, congrArg _ he, forall_mem_cons.mpr ⟨hb, hl⟩, ht⟩
      case neg => exact ⟨[], x :: xs, rfl, nofun,
        forall_mem_cons.mpr ⟨hb, fun y hy hby => hb (hx y hy hby)⟩⟩
  subst hx
  exact ⟨l, t, rfl, search_append hl ht le_rfl (Nat.zero_le _) (by simp) le_rfl, hl, ht⟩

end BinarySearch
