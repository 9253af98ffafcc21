import GoSecs.Sml.Parser
import GoSecs.Sml.Theorems.Cursor

open Utf8 Strings Prog Option

namespace Sml
namespace Parser

open Secs2 (Bytes Item FormatCode)

variable {p : Parser} {s : Bytes} {fc : FormatCode} {n : Nat} {first : UInt8}
  {second : Option UInt8}

def itemType (s : Bytes) : Option (FormatCode × Nat) :=
  s.head?.bind fun c => typeFrom s (toUpperRune c) (s[1]?.map toUpperRune)

theorem getIntFormatCode_digit {signed c : UInt8} (h : getIntFormatCode signed c = some fc) :
    c ∈ ascii "1248" := by
  unfold getIntFormatCode at h
  split_ifs at h <;> subst c <;> decide

theorem typeFrom_cases (h : typeFrom s first second = some (fc, n)) :
    n = 1 ∨ (n = 2 ∧ ∃ c ∈ ascii "1248", second = some c) ∨
      (n = 7 ∧ fc = .boolean ∧ 7 ≤ s.length ∧ toUpper (s.take 7) = ascii "BOOLEAN") := by
  unfold typeFrom at h
  split_ifs at h
  case pos | pos | pos | pos => cases h; exact .inl rfl
  case pos | neg =>
    split at h
    case h_1 => cases h; exact .inl rfl
    case h_2 =>
      split_ifs at h
      all_goals cases h
      all_goals first | exact .inl rfl | exact .inr <| .inr ⟨rfl, rfl, by assumption⟩
  case pos | pos =>
    cases h
    refine .inr <| .inl ⟨rfl, _, ?_, by assumption⟩
    decide
  case pos =>
    have ⟨_, hb, he⟩ := map_eq_some_iff.mp h
    have ⟨c, hc, hi⟩ := bind_eq_some_iff.mp hb
    cases he
    exact .inr <| .inl ⟨rfl, c, getIntFormatCode_digit hi, hc⟩

theorem typeFrom_bounds (h : typeFrom s first second = some (fc, n)) (h₁ : 0 < s.length)
    (h₂ : second.isSome → 2 ≤ s.length) : 0 < n ∧ n ≤ s.length := by
  rcases typeFrom_cases h with rfl | ⟨rfl, c, _, hc⟩ | ⟨rfl, _, h₇, _⟩
  case inl => omega
  case inr.inl => exact ⟨Nat.two_pos, h₂ (hc ▸ rfl)⟩
  case inr.inr => omega

theorem itemType_bounds (h : itemType s = some (fc, n)) : 0 < n ∧ n ≤ s.length := by
  have ⟨c, hc, ht⟩ := bind_eq_some_iff.mp h
  have ⟨t, hs⟩ := List.head?_eq_some_iff.mp hc
  apply typeFrom_bounds ht
  · simp [hs]
  · simp
    omega

theorem secondByte_eq : secondByte s p = .ok (s[1]?, p) := by
  rcases s with _ | ⟨c, _ | ⟨d, s⟩⟩ <;> rfl

theorem parseItemType_eq :
    parseItemType p =
      match itemType p.trim.data with
      | none => .ok (none, p.trim)
      | some (fc, n) => .ok (some fc, p.trim.advance n) := by
  rw [parseItemType, bind_of_ok (discard_of_ok skipSpace_eq), bind_of_ok (run_get _)]
  rcases h : p.trim.data with _ | ⟨c, t⟩
  case nil => rfl
  case cons =>
    rw [if_neg (by simp), bind_of_ok byteAt_cons, bind_of_ok secondByte_eq]
    rcases hi : itemType (c :: t) with _ | ⟨fc, n⟩
    · simp [itemType] at hi
      simp [hi]
    · have hb := (itemType_bounds hi).2
      simp [itemType] at hi
      simp [hi, bind_of_ok (discard_forward (h ▸ hb))]

def headerLen (s : Bytes) : Option Nat :=
  (indexAny s (ascii "\n.")).bind fun i =>
    match (indexByte s '<'.toUInt8).bind fun j => indexByte (s.take j) ':'.toUInt8 with
    | none   => some i
    | some k =>
      if i < k then (indexAny (s.drop (k + 1)) (ascii "\n.")).map (k + 1 + ·) else some i

-- How long the name of a message is, with its colon, when the header ends at `i`.
def nameLen (s : Bytes) (i : Nat) : Nat :=
  ((indexByte (s.take (min i ((indexByte s '<'.toUInt8).getD i))) ':'.toUInt8).map (· + 1)).getD 0

theorem headerEnd_eq :
    headerEnd (indexByte p.data '<'.toUInt8) p =
      match headerLen p.data with
      | none   => errf "invalid SML message without dot symbol or newline" [] p
      | some i => .ok (i, p) := by
  rw [headerEnd, bind_of_ok (run_get p), headerLen]
  rcases indexAny p.data (ascii "\n.") with _ | i
  case none => rfl
  case some =>
    rcases hj : indexByte p.data '<'.toUInt8 with _ | j
    case none => rfl
    case some =>
      simp only [bind_some]
      rw [bind_of_ok (sliceTo_of_le (indexByte_lt hj).le)]
      rcases hk : indexByte (p.data.take j) ':'.toUInt8 with _ | k
      case none => rfl
      case some =>
        have hl := indexByte_lt hk
        rw [List.length_take] at hl
        simp only [gt_iff_lt]
        split
        case isFalse => rfl
        case isTrue =>
          rw [bind_of_ok (sliceFrom_of_le (by omega))]
          cases indexAny (p.data.drop (k + 1)) (ascii "\n.") <;> rfl

theorem headerLen_le {i : Nat} (h : headerLen s = some i) : i ≤ s.length := by
  have ⟨e, he, h⟩ := bind_eq_some_iff.mp h
  have he := indexAny_lt he
  split at h
  case h_1 => cases h; exact he.le
  case h_2 k hk =>
    split at h
    case isFalse => cases h; exact he.le
    case isTrue =>
      have ⟨m, hm, hi⟩ := map_eq_some_iff.mp h
      have hm := indexAny_lt hm
      rw [List.length_drop] at hm
      omega

theorem nameLen_le (s : Bytes) (i : Nat) : nameLen s i ≤ s.length := by
  rw [nameLen]
  rcases h : indexByte (s.take (min i ((indexByte s '<'.toUInt8).getD i))) ':'.toUInt8 with _ | k
  case none => exact Nat.zero_le _
  case some =>
    have hk := indexByte_lt h
    rw [List.length_take] at hk
    simp only [map_some, getD_some]
    omega

theorem skipName_eq :
    skipName p =
      match headerLen p.data with
      | none   => errf "invalid SML message without dot symbol or newline" [] p
      | some i => .ok ((), p.advance (nameLen p.data i)) := by
  rw [skipName, bind_of_ok (run_get p)]
  have he := headerEnd_eq (p := p)
  rcases hl : headerLen p.data with _ | i
  case none =>
    rw [hl] at he
    exact bind_of_error he
  case some =>
    rw [hl] at he
    have hle := headerLen_le hl
    have hn := nameLen_le p.data i
    rw [bind_of_ok he, bind_of_ok (sliceTo_of_le (by omega))]
    show _ = Except.ok ((), p.advance (nameLen p.data i))
    rw [nameLen] at hn ⊢
    revert hn
    rcases indexByte (p.data.take (min i ((indexByte p.data '<'.toUInt8).getD i))) ':'.toUInt8
      with _ | k
    case none => simp
    case some => exact discard_forward

end Parser
end Sml
