import GoSecs.Lib.Strconv

open List

-- Numerals in base ten, their values and their order.

namespace Strconv

variable {s t : List UInt8} {c : UInt8} {k n m : Nat}

def Decimal (s : List UInt8) : Prop :=
  ∀ c ∈ s, isDecimal c

def decimalValue : List UInt8 → Nat
  | [] => 0
  | c :: s => (c.toNat - 48) * 10 ^ s.length + decimalValue s

theorem decimalValue_lt (h : Decimal s) : decimalValue s < 10 ^ s.length := by
  induction s
  case nil => decide
  case cons c s hi =>
    have ⟨hc, hs⟩ := forall_mem_cons.mp h
    have hc := (isDecimal_iff.mp hc).2
    have hs := hi hs
    rw [decimalValue, length_cons, pow_succ]
    have : (c.toNat - 48) * 10 ^ s.length ≤ 9 * 10 ^ s.length := Nat.mul_le_mul_right _ (by omega)
    omega

theorem decimalValue_lt_of_head {d : UInt8} (hs : Decimal (c :: s)) (hl : s.length = t.length)
    (h : c < d) : decimalValue (c :: s) < decimalValue (d :: t) := by
  have ⟨hc, hs⟩ := forall_mem_cons.mp hs
  have hc := (isDecimal_iff.mp hc).1
  have hcd := UInt8.lt_iff_toNat_lt.mp h
  have hs := decimalValue_lt hs
  rw [decimalValue, decimalValue, hl] at *
  have : (c.toNat - 48 + 1) * 10 ^ t.length ≤ (d.toNat - 48) * 10 ^ t.length :=
    Nat.mul_le_mul_right _ (by omega)
  rw [Nat.add_mul, Nat.one_mul] at this
  omega

theorem lt_iff_decimalValue_lt (hs : Decimal s) (ht : Decimal t) (hl : s.length = t.length) :
    s < t ↔ decimalValue s < decimalValue t := by
  induction s generalizing t
  case nil =>
    obtain rfl := length_eq_zero_iff.mp hl.symm
    exact iff_of_false (List.lt_irrefl []) (Nat.lt_irrefl _)
  case cons c s hi =>
    rcases t with _ | ⟨d, t⟩
    case nil => cases hl
    case cons =>
      have hst : s.length = t.length := Nat.succ.inj hl
      have hi := hi (forall_mem_cons.mp hs).2 (forall_mem_cons.mp ht).2 hst
      rw [cons_lt_cons_iff]
      rcases (by grind : c < d ∨ c = d ∨ d < c) with h | rfl | h
      case inl => exact iff_of_true (.inl h) (decimalValue_lt_of_head hs hst h)
      case inr.inl =>
        rw [decimalValue, decimalValue, hst, Nat.add_lt_add_iff_left, ← hi]
        simp
      case inr.inr =>
        refine iff_of_false ?_ (decimalValue_lt_of_head ht hst.symm h).not_gt
        rintro (h' | ⟨rfl, _⟩)
        · exact UInt8.lt_asymm h h'
        · exact UInt8.lt_irrefl _ h

theorem append_lt_append {x y : List UInt8} (hl : s.length = t.length) (h : s < t) :
    s ++ x < t ++ y := by
  induction s generalizing t
  case nil =>
    obtain rfl := length_eq_zero_iff.mp hl.symm
    exact absurd h (List.lt_irrefl [])
  case cons c s hi =>
    rcases t with _ | ⟨d, t⟩
    case nil => cases hl
    case cons =>
      refine cons_lt_cons_iff.mpr ?_
      rcases cons_lt_cons_iff.mp h with h | ⟨he, h⟩
      case inl => exact .inl h
      case inr => exact .inr ⟨he, hi (Nat.succ.inj hl) h⟩

theorem decimalValue_inj (hs : Decimal s) (ht : Decimal t) (hl : s.length = t.length)
    (h : decimalValue s = decimalValue t) : s = t := by
  have hst := lt_iff_decimalValue_lt hs ht hl
  have hts := lt_iff_decimalValue_lt ht hs hl.symm
  rw [h] at hst hts
  refine List.le_antisymm (List.not_lt.mp fun h => ?_) (List.not_lt.mp fun h => ?_)
  · exact Nat.lt_irrefl _ (hts.mp h)
  · exact Nat.lt_irrefl _ (hst.mp h)

section Parse

variable {maxVal bitSize : Nat}

theorem digitValue_lt_ten {d : Nat} : digitValue c = some d ∧ d < 10 ↔
    isDecimal c ∧ d = c.toNat - 48 := by
  rw [digitValue]
  split
  case isTrue h =>
    have := isDecimal_iff.mp h
    rw [Option.some.injEq]
    exact ⟨fun ⟨he, _⟩ => ⟨h, he.symm⟩, fun ⟨_, he⟩ => ⟨he.symm, by omega⟩⟩
  case isFalse h =>
    refine iff_of_false (fun ⟨hd, hlt⟩ => ?_) fun hc => h hc.1
    split at hd
    case isFalse => cases hd
    case isTrue hl =>
      have := UInt8.le_iff_toNat_le.mp hl.1
      have hd := Option.some.inj hd
      have h97 : 'a'.toUInt8.toNat = 97 := rfl
      omega

theorem scanDigits_ten_iff (hn : n ≤ maxVal) :
    scanDigits 10 maxVal false n s = (m, none) ↔
      Decimal s ∧ n * 10 ^ s.length + decimalValue s = m ∧ m ≤ maxVal := by
  induction s generalizing n
  case nil =>
    rw [scanDigits, Prod.mk.injEq, length_nil, pow_zero, Nat.mul_one, decimalValue, Nat.add_zero]
    exact ⟨fun h => ⟨forall_mem_nil _, h.1, h.1 ▸ hn⟩, fun h => ⟨h.2.1, rfl⟩⟩
  case cons c s hi =>
    rw [scanDigits, if_neg (by simp)]
    by_cases hc : isDecimal c
    case neg =>
      refine iff_of_false (fun h => ?_) fun h => hc (forall_mem_cons.mp h.1).1
      rcases hd : digitValue c with _ | d
      all_goals
        rw [hd] at h
        simp only at h
      case none => cases h
      case some =>
        split at h
        case isTrue => cases h
        case isFalse hd' => exact hc (digitValue_lt_ten.mp ⟨hd, by omega⟩).1
    case pos =>
      obtain ⟨hd, hlt⟩ := digitValue_lt_ten.mpr ⟨hc, rfl⟩
      have hvalue : n * 10 ^ (c :: s).length + decimalValue (c :: s) =
          (n * 10 + (c.toNat - 48)) * 10 ^ s.length + decimalValue s := by
        rw [decimalValue, length_cons, pow_succ]
        ring
      have hpos : 1 ≤ 10 ^ s.length := Nat.one_le_pow _ _ (by decide)
      rw [hd, hvalue]
      simp only
      rw [if_neg (by omega)]
      split
      case isTrue hmax =>
        refine iff_of_false (by simp) ?_
        rintro ⟨_, hm, hle⟩
        have := Nat.mul_le_mul_left (n * 10 + (c.toNat - 48)) hpos
        omega
      case isFalse hmax =>
        rw [hi (by omega)]
        exact and_congr_left' ⟨fun h => forall_mem_cons.mpr ⟨hc, h⟩,
          fun h => (forall_mem_cons.mp h).2⟩

theorem parseUint_ten_iff :
    parseUint s 10 bitSize = (n, none) ↔
      s ≠ [] ∧ Decimal s ∧ decimalValue s = n ∧ n < 2 ^ effectiveBits bitSize := by
  have hpos : 0 < 2 ^ effectiveBits bitSize := by positivity
  rw [parseUint]
  split
  case isTrue h  => exact iff_of_false (by simp) fun hs => hs.1 h
  case isFalse h =>
    have hscan := scanDigits_ten_iff (s := s) (m := n)
      (Nat.zero_le (2 ^ effectiveBits bitSize - 1))
    rw [Nat.zero_mul, Nat.zero_add] at hscan
    have hcheck (r : Nat × Option NumErr) : checkUnderscores s false r = r := by
      rcases r with ⟨_, _ | _⟩ <;> simp [checkUnderscores]
    simp only [splitBase, Nat.reduceAdd, Nat.reduceEqDiff, false_and, decide_false, hcheck]
    rw [hscan]
    exact ⟨fun hs => ⟨h, hs.1, hs.2.1, by omega⟩, fun hs => ⟨hs.2.1, hs.2.2.1, by omega⟩⟩

end Parse

-- A numeral with leading zeros, to the width `k`.
def pad (k n : Nat) : List UInt8 :=
  List.replicate (k - (formatUint n).length) '0'.toUInt8 ++ formatUint n

section Pad

theorem decimal_formatUint (n : Nat) : Decimal (formatUint n) :=
  fun _ h => isDecimal_formatUint h

theorem decimalValue_formatUint (n : Nat) : decimalValue (formatUint n) = n := by
  have hn : n < 2 ^ effectiveBits (n + 1) := by
    rw [effectiveBits, if_neg (Nat.succ_ne_zero n)]
    exact Nat.lt_two_pow_self.trans (Nat.pow_lt_pow_right (by decide) n.lt_succ_self)
  exact (parseUint_ten_iff.mp (parseUint_formatUint hn)).2.2.1

theorem length_formatUint_le (hk : 0 < k) (h : n < 10 ^ k) : (formatUint n).length ≤ k := by
  induction k generalizing n
  case zero => omega
  case succ k hi =>
    rw [formatUint_eq, length_append, length_singleton]
    split
    case isTrue => simp
    case isFalse hn =>
      rw [pow_succ] at h
      have hk : 0 < k := by
        by_contra hk
        obtain rfl : k = 0 := by omega
        omega
      have := hi hk (show n / 10 < 10 ^ k by omega)
      omega

theorem length_pad (hk : 0 < k) (h : n < 10 ^ k) : (pad k n).length = k := by
  have := length_formatUint_le hk h
  rw [pad, length_append, length_replicate]
  omega

theorem decimalValue_append (hs : decimalValue s = 0) :
    decimalValue (s ++ t) = decimalValue t := by
  induction s
  case nil => rfl
  case cons c s hi =>
    rw [decimalValue] at hs
    have ⟨hc, hs⟩ : (c.toNat - 48) * 10 ^ s.length = 0 ∧ decimalValue s = 0 := by omega
    have hc : c.toNat - 48 = 0 := by
      rcases Nat.mul_eq_zero.mp hc with hc | hc
      · exact hc
      · exact absurd hc (by positivity)
    rw [cons_append, decimalValue, hc, Nat.zero_mul, Nat.zero_add, hi hs]

theorem decimalValue_zeros (k : Nat) : decimalValue (List.replicate k '0'.toUInt8) = 0 := by
  induction k
  case zero => rfl
  case succ k hi =>
    rw [replicate_succ, decimalValue, hi]
    exact Nat.zero_mul _

theorem decimalValue_pad : decimalValue (pad k n) = n := by
  rw [pad, decimalValue_append (decimalValue_zeros _), decimalValue_formatUint]

theorem decimal_pad : Decimal (pad k n) := by
  refine forall_mem_append.mpr ⟨fun c hc => ?_, decimal_formatUint n⟩
  rw [eq_of_mem_replicate hc]
  decide

theorem eq_pad (hs : Decimal s) (hk : 0 < s.length) : s = pad s.length (decimalValue s) :=
  decimalValue_inj hs decimal_pad (length_pad hk (decimalValue_lt hs)).symm decimalValue_pad.symm

theorem eq_formatUint (hs : Decimal s) (hk : 0 < s.length)
    (hz : s.head? = some '0'.toUInt8 → s.length ≤ 1) : s = formatUint (decimalValue s) := by
  have he := eq_pad hs hk
  have hle := length_formatUint_le hk (decimalValue_lt hs)
  have hpos := length_pos_iff.mpr (formatUint_ne_nil (decimalValue s))
  rcases Nat.eq_zero_or_pos (s.length - (formatUint (decimalValue s)).length) with h | h
  case inl =>
    rw [pad, h] at he
    exact he
  case inr =>
    obtain ⟨j, hj⟩ : ∃ j, s.length - (formatUint (decimalValue s)).length = j + 1 :=
      ⟨_, (Nat.sub_add_cancel h).symm⟩
    rw [pad, hj, replicate_succ] at he
    have := hz (he ▸ rfl)
    omega

end Pad
end Strconv
