import Mathlib.Tactic

open List

-- UTF-8, as Go's package `unicode/utf8` and its `range` loops over strings read and write it.

namespace Utf8

def runeError : Nat :=
  0xFFFD

def isContinuation (b : UInt8) : Bool :=
  0x80 ≤ b && b ≤ 0xBF

-- For a byte that starts a multi-byte rune: its length, and what its second byte may be.
def lead (b : UInt8) : Option (Nat × UInt8 × UInt8) :=
  if 0xC2 ≤ b ∧ b ≤ 0xDF then some (2, 0x80, 0xBF)
  else if b = 0xE0 then some (3, 0xA0, 0xBF)
  else if b = 0xED then some (3, 0x80, 0x9F)
  else if 0xE1 ≤ b ∧ b ≤ 0xEF then some (3, 0x80, 0xBF)
  else if b = 0xF0 then some (4, 0x90, 0xBF)
  else if 0xF1 ≤ b ∧ b ≤ 0xF3 then some (4, 0x80, 0xBF)
  else if b = 0xF4 then some (4, 0x80, 0x8F)
  else none

def sixBits (b : UInt8) : Nat :=
  b.toNat % 64

-- The rune that starts with the byte `b`, and its length. What is no UTF-8 is read as the error
-- rune, one byte at a time.
def decodeRune (b : UInt8) (bs : List UInt8) : Nat × Nat :=
  if b < 0x80 then
    (b.toNat, 1)
  else
    match lead b, bs with
    | some (2, lo, hi), c :: _ =>
      if lo ≤ c ∧ c ≤ hi then (b.toNat % 32 * 64 + sixBits c, 2) else (runeError, 1)
    | some (3, lo, hi), c :: d :: _ =>
      if (lo ≤ c ∧ c ≤ hi) ∧ isContinuation d then
        (b.toNat % 16 * 4096 + sixBits c * 64 + sixBits d, 3)
      else
        (runeError, 1)
    | some (4, lo, hi), c :: d :: e :: _ =>
      if (lo ≤ c ∧ c ≤ hi) ∧ isContinuation d ∧ isContinuation e then
        (b.toNat % 8 * 262144 + sixBits c * 4096 + sixBits d * 64 + sixBits e, 4)
      else
        (runeError, 1)
    | _, _ => (runeError, 1)

-- A rune that is out of range or a surrogate half is written as the error rune.
def encodeRune (r : Nat) : List UInt8 :=
  if r < 0x80 then [.ofNat r]
  else if r < 0x800 then [.ofNat (0xC0 + r / 64), .ofNat (0x80 + r % 64)]
  else if r > 0x10FFFF ∨ (0xD800 ≤ r ∧ r ≤ 0xDFFF) then [0xEF, 0xBF, 0xBD]
  else if r < 0x10000 then
    [.ofNat (0xE0 + r / 4096), .ofNat (0x80 + r / 64 % 64), .ofNat (0x80 + r % 64)]
  else
    [.ofNat (0xF0 + r / 262144), .ofNat (0x80 + r / 4096 % 64), .ofNat (0x80 + r / 64 % 64),
      .ofNat (0x80 + r % 64)]

-- The runes of a string at their offsets. The first argument counts the bytes of the current rune
-- that are still to be passed over.
def runes : Nat → Nat → List UInt8 → List (Nat × Nat)
  | _,     _, [] => []
  | k + 1, i, _ :: bs => runes k (i + 1) bs
  | 0,     i, b :: bs => (i, (decodeRune b bs).1) :: runes ((decodeRune b bs).2 - 1) (i + 1) bs

def range (s : List UInt8) : List (Nat × Nat) :=
  runes 0 0 s

-- As for `runes`, the first number counts octets of the current rune.
def validFrom : Nat → List UInt8 → Bool
  | _,     [] => true
  | k + 1, _ :: bs => validFrom k bs
  | 0,     b :: bs =>
    decodeRune b bs ≠ (runeError, 1) && validFrom ((decodeRune b bs).2 - 1) bs

def valid (s : List UInt8) : Bool :=
  validFrom 0 s

variable {b : UInt8}

@[simp]
theorem decodeRune_ascii (h : b < 0x80) (bs : List UInt8) :
    decodeRune b bs = (b.toNat, 1) := by
  simp [decodeRune, h]

@[simp]
theorem runes_ascii (h : b < 0x80) (i : Nat) (bs : List UInt8) :
    runes 0 i (b :: bs) = (i, b.toNat) :: runes 0 (i + 1) bs := by
  simp [runes, h]

variable {n : Nat}

theorem lead_lo {lo hi : UInt8} (h : lead b = some (n, lo, hi)) : 0x80 ≤ lo := by
  unfold lead at h
  split_ifs at h <;> injection h with h <;> injection h with _ h <;> injection h with h <;>
    exact h ▸ by decide

variable {c : UInt8}

theorem not_isContinuation (h : c < 0x80) : isContinuation c = false := by
  simp [isContinuation, UInt8.not_le.mpr h]

theorem not_second {lo hi : UInt8} (hb : lead b = some (n, lo, hi)) (h : c < 0x80) :
    ¬(lo ≤ c ∧ c ≤ hi) :=
  fun hc => absurd (UInt8.le_trans (lead_lo hb) hc.1) (UInt8.not_le.mpr h)

theorem decodeRune_append (b : UInt8) (bs : List UInt8) (h : c < 0x80)
    (t : List UInt8) : decodeRune b (bs ++ c :: t) = decodeRune b bs := by
  have hc := not_isContinuation h
  unfold decodeRune
  split
  case isTrue => rfl
  case isFalse =>
    rcases hl : lead b with _ | ⟨n, lo, hi⟩
    case none => simp
    case some =>
      have hs := not_second hl h
      rcases n with _ | _ | _ | _ | _ | n <;> rcases bs with _ | ⟨c₁, _ | ⟨c₂, _ | ⟨c₃, bs⟩⟩⟩ <;>
        rcases t with _ | ⟨d, _ | ⟨e, t⟩⟩ <;> simp [hs, hc]

theorem decodeRune_size (b : UInt8) (bs : List UInt8) :
    1 ≤ (decodeRune b bs).2 ∧ (decodeRune b bs).2 ≤ bs.length + 1 := by
  unfold decodeRune
  split_ifs
  case pos => simp
  case neg => split <;> (try split_ifs) <;> simp

variable {s : List UInt8}

-- The runes before an ASCII character do not depend on what follows it.
theorem runes_append (h : c < 0x80) (t : List UInt8) {k : Nat} (i : Nat) (hk : k ≤ s.length) :
    runes k i (s ++ c :: t) =
      runes k i s ++ (i + s.length, c.toNat) :: runes 0 (i + s.length + 1) t := by
  induction s generalizing k i
  case nil =>
    obtain rfl : k = 0 := Nat.le_zero.mp hk
    simp [runes, h]
  case cons b s hi =>
    simp only [length_cons] at hk
    cases k
    case zero =>
      have := decodeRune_size b s
      simp only [cons_append, runes, decodeRune_append b s h]
      rw [hi _ (by omega), length_cons]
      simp [Nat.add_assoc, Nat.add_comm 1]
    case succ k =>
      simp only [cons_append, runes, length_cons]
      rw [hi _ (by omega)]
      simp [Nat.add_assoc, Nat.add_comm 1]

theorem range_append (h : c < 0x80) (s t : List UInt8) :
    range (s ++ c :: t) = range s ++ (s.length, c.toNat) :: runes 0 (s.length + 1) t := by
  simp [range, runes_append h]

theorem lead_rune {lo hi : UInt8} (hl : lead b = some (n, lo, hi)) (hc : lo ≤ c ∧ c ≤ hi) :
    (n = 2 → 2 ≤ b.toNat % 32) ∧ (n = 3 → 32 ≤ b.toNat % 16 * 64 + sixBits c) ∧
      (n = 4 → 16 ≤ b.toNat % 8 * 64 + sixBits c) := by
  unfold lead at hl
  simp only [UInt8.le_iff_toNat_le, ← UInt8.toNat_inj] at hl hc
  split_ifs at hl <;> cases hl <;> simp_all [sixBits] <;> omega

theorem decodeRune_ge (h : ¬b < 0x80) (bs : List UInt8) :
    0x80 ≤ (decodeRune b bs).1 := by
  unfold decodeRune
  rw [if_neg h]
  split
  case h_4 => decide
  all_goals
    rename_i hl
    split_ifs with hc
    case neg => decide
    have hr := lead_rune hl (by tauto)
    simp at hr ⊢
    omega

-- A `range` loop sees an ASCII character exactly where the string has it.
theorem mem_runes {k i j r : Nat} (h : (j, r) ∈ runes k i s) (hr : r < 0x80) :
    ∃ x t, s = x ++ .ofNat r :: t ∧ j = i + x.length ∧ k ≤ x.length := by
  induction s generalizing k i
  case nil => simp [runes] at h
  case cons b s hi =>
    cases k
    case zero =>
      simp only [runes, mem_cons, Prod.mk.injEq] at h
      rcases h with ⟨rfl, rfl⟩ | h
      case inl =>
        have hb : b < 0x80 := by
          by_contra hb
          exact absurd hr (Nat.not_lt.mpr <| decodeRune_ge hb s)
        exact ⟨[], s, by simp [hb], rfl, le_rfl⟩
      case inr =>
        have ⟨x, t, hs, hj, _⟩ := hi h
        exact ⟨b :: x, t, by simp [hs], by simp [hj]; omega, Nat.zero_le _⟩
    case succ k =>
      have ⟨x, t, hs, hj, hk⟩ := hi h
      exact ⟨b :: x, t, by simp [hs], by simp [hj]; omega, by simpa using hk⟩

variable {r : Nat × Nat}

theorem runes_bounds {k i : Nat} (h : r ∈ runes k i s) :
    i ≤ r.1 ∧ r.1 < i + s.length := by
  induction s generalizing k i
  case nil => simp [runes] at h
  case cons b s hi =>
    simp only [length_cons]
    cases k
    case zero =>
      rcases mem_cons.mp h with rfl | h
      case inl => simp
      case inr => have := hi h; omega
    case succ => have := hi h; omega

theorem range_lt (h : r ∈ range s) : r.1 < s.length := by
  simpa using (runes_bounds h).2

theorem runes_pairwise (k i : Nat) (s : List UInt8) : (runes k i s).Pairwise (·.1 < ·.1) := by
  induction s generalizing k i
  case nil => exact .nil
  case cons b s hi =>
    cases k
    case zero   => exact .cons (fun r hr => (runes_bounds hr).1) (hi ..)
    case succ k => exact hi ..

end Utf8
