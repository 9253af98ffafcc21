import GoSecs.Sml.Cursor
import Mathlib.Data.List.TakeWhile

open Utf8 Strings Strconv Prog List Option

namespace Sml

open Secs2 (Bytes)

variable {b : UInt8} {r : Bytes}

section Checked

variable {σ : Type} {s : Bytes} {i n : Nat} {st : σ}

theorem byteAt_of_lt (h : i < s.length) : byteAt s i st = .ok (s[i], st) := by
  simp [byteAt, getElem?_eq_getElem h]

theorem byteAt_drop (h : s.drop i = b :: r) :
    byteAt s i st = .ok (b, st) := by
  have hi : s[i]? = some b := by rw [← head?_drop, h, head?_cons]
  simp [byteAt, hi]

theorem byteAt_cons : byteAt (b :: s) 0 st = .ok (b, st) :=
  rfl

theorem byteAt_of_ge (h : s.length ≤ i) : byteAt s i st = .error .panic := by
  rw [byteAt, getElem?_eq_none h]
  rfl

theorem sliceTo_of_le (h : n ≤ s.length) : sliceTo s n st = .ok (s.take n, st) := by
  simp [sliceTo, h]

theorem sliceFrom_of_le (h : n ≤ s.length) : sliceFrom s n st = .ok (s.drop n, st) := by
  simp [sliceFrom, h]

end Checked

namespace Parser

variable {α : Type} {p : Parser} {n m : Nat} {Q : α → Parser → Prop} {E : Fault → Prop} {s : Bytes}
  {c : UInt8}

def advance (p : Parser) (n : Nat) : Parser :=
  { p with pos := min (p.pos + n) p.len, inBounds := Nat.min_le_right .. }

theorem length_data (p : Parser) : p.data.length = p.len - p.pos := by
  simp [data, len]

@[simp]
theorem data_advance (p : Parser) (n : Nat) : (p.advance n).data = p.data.drop n := by
  simp only [data, advance, drop_drop, len]
  by_cases h : p.pos + n ≤ p.input.length
  · rw [Nat.min_eq_left h]
  · rw [Nat.min_eq_right (by omega), drop_length, drop_eq_nil_of_le (by omega)]

@[simp]
theorem advance_zero (p : Parser) : p.advance 0 = p := by
  ext : 1 <;> simp [advance, len, p.inBounds]

@[simp]
theorem advance_advance (p : Parser) (n m : Nat) : (p.advance n).advance m = p.advance (n + m) := by
  ext : 1
  all_goals simp [advance, len]
  omega

theorem pos_advance (h : n ≤ p.data.length) : (p.advance n).pos = p.pos + n := by
  have := p.inBounds
  simp only [length_data, len] at h
  exact Nat.min_eq_left (by rw [len]; omega)

theorem forward_of_le (h : n ≤ p.data.length) : forward n p = .ok (true, p.advance n) := by
  have hp := pos_advance h
  have hl : p.pos + n ≤ p.len := hp ▸ (p.advance n).inBounds
  rw [forward, dif_pos hl]
  congr 2
  ext : 1 <;> simp [hp] <;> rfl

theorem forward_of_gt (h : p.data.length < n) : forward n p = .ok (false, p) := by
  have := p.inBounds
  simp only [length_data, len] at h
  simp [forward, len, show ¬p.pos + n ≤ p.input.length by omega]

theorem backward_advance (h : m ≤ p.data.length) (hn : n ≤ m) :
    backward n (p.advance m) = .ok ((), p.advance (m - n)) := by
  have hp := pos_advance h
  have hp' := pos_advance (p := p) (n := m - n) (by omega)
  simp only [backward, hp, show n ≤ p.pos + m by omega, if_true]
  congr 2
  ext : 1 <;> simp [hp'] <;> first | rfl | omega

@[simp]
theorem run_errfAt (offset : Nat) (format : String) (args : List Arg) :
    (errfAt offset format args : P α) p =
      .error (.parse (newParseError p.input offset { format, args })) :=
  rfl

def indentOf (s : Bytes) : Nat :=
  (s.takeWhile isBlank).length

theorem indentOf_le (s : Bytes) : indentOf s ≤ s.length :=
  (takeWhile_sublist _).length_le

@[simp]
theorem indentOf_nil : indentOf [] = 0 :=
  rfl

theorem indentOf_blank (h : isBlank b) (s : Bytes) :
    indentOf (b :: s) = indentOf s + 1 := by
  simp [indentOf, h]

theorem indentOf_text (h : isBlank b = false) (s : Bytes) :
    indentOf (b :: s) = 0 := by
  simp [indentOf, h]

theorem nonBlank_eq (s : Bytes) (k i : Nat) :
    nonBlank s k i p =
      if k ≤ indentOf (s.drop i) then .ok (none, p)
      else if indentOf (s.drop i) < (s.drop i).length then .ok (some (i + indentOf (s.drop i)), p)
      else .error .panic := by
  induction k generalizing i
  case zero => simp [nonBlank]
  case succ k hi =>
    rw [nonBlank]
    rcases h : s.drop i with _ | ⟨c, r⟩
    case nil =>
      rw [bind_of_error (byteAt_of_ge (drop_eq_nil_iff.mp h))]
      simp
    case cons =>
      rw [bind_of_ok (byteAt_drop h)]
      cases hb : isBlank c
      case false => simp [indentOf_text hb]
      case true =>
        rw [if_pos rfl, hi, indentOf_blank hb, ← drop_drop, h]
        simp [Nat.add_assoc, Nat.add_comm 1]

def next (p : Parser) : Option UInt8 :=
  (p.data.drop (indentOf p.data)).head?

def trim (p : Parser) : Parser :=
  if p.next.isSome then p.advance (indentOf p.data) else p

def step (p : Parser) : Parser :=
  if p.next.isSome then p.advance (indentOf p.data + 1) else p

theorem next_isSome : p.next.isSome ↔ indentOf p.data < p.data.length := by
  simp [next, head?_drop]

theorem skipSpace_eq : skipSpace p = .ok (p.next.isSome, p.trim) := by
  have hl := indentOf_le p.data
  rw [skipSpace, bind_of_ok (run_get p)]
  by_cases h : indentOf p.data < p.data.length
  case pos =>
    have hn : nonBlank p.data p.data.length 0 p = .ok (some (indentOf p.data), p) := by
      rw [nonBlank_eq, drop_zero, if_neg (by omega), if_pos h, Nat.zero_add]
    rw [bind_of_ok hn, trim, if_pos (next_isSome.mpr h), next_isSome.mpr h]
    exact forward_of_le hl
  case neg =>
    have hn : nonBlank p.data p.data.length 0 p = .ok (none, p) := by
      rw [nonBlank_eq, drop_zero, if_pos (by omega)]
    rw [bind_of_ok hn, trim, if_neg (mt next_isSome.mp h), Bool.eq_false_iff.mpr (mt next_isSome.mp h)]
    rfl

def Blank (s : Bytes) : Prop :=
  ∀ c ∈ s, isBlank c

theorem indentOf_append {bl : Bytes} (h : Blank bl) (hc : isBlank c = false) :
    indentOf (bl ++ c :: s) = bl.length := by
  induction bl
  case nil => exact indentOf_text hc s
  case cons b bl hi =>
    rw [cons_append, indentOf_blank (h b mem_cons_self),
      hi fun c hc => h c (mem_cons_of_mem b hc), length_cons]

section Split

variable {bl s : Bytes} {c : UInt8}

theorem next_of_split (hd : p.data = bl ++ c :: s) (h : Blank bl) (hc : isBlank c = false) :
    p.next = some c := by
  rw [next, hd, indentOf_append h hc, drop_left, head?_cons]

theorem trim_of_split (hd : p.data = bl ++ c :: s) (h : Blank bl) (hc : isBlank c = false) :
    p.trim = p.advance bl.length := by
  rw [trim, next_of_split hd h hc, isSome_some, if_pos rfl, hd, indentOf_append h hc]

theorem step_of_split (hd : p.data = bl ++ c :: s) (h : Blank bl) (hc : isBlank c = false) :
    p.step = p.advance (bl.length + 1) := by
  rw [step, next_of_split hd h hc, isSome_some, if_pos rfl, hd, indentOf_append h hc]

theorem split_of_drop (h : s.drop (indentOf s) = c :: r) :
    ∃ bl, s = bl ++ c :: r ∧ Blank bl ∧ isBlank c = false := by
  induction s
  case nil => cases h
  case cons b s hi =>
    cases hb : isBlank b
    case false =>
      rw [indentOf_text hb] at h
      cases h
      exact ⟨[], rfl, nofun, hb⟩
    case true =>
      rw [indentOf_blank hb] at h
      have ⟨bl, hs, hbl, hc⟩ := hi h
      exact ⟨b :: bl, by simp [hs], by simpa [Blank, hb] using hbl, hc⟩

theorem split_of_next (h : p.next = some c) :
    ∃ bl s, p.data = bl ++ c :: s ∧ Blank bl ∧ isBlank c = false := by
  have ⟨s, hs⟩ := head?_eq_some_iff.mp h
  have ⟨bl, h⟩ := split_of_drop hs
  exact ⟨bl, s, h⟩

end Split

theorem peekRune_eq : peekRune p = .ok (p.data.head?, p) := by
  rw [peekRune, bind_of_ok (run_get p)]
  cases h : p.data
  case nil  => rfl
  case cons => rfl

theorem data_trim (h : p.next.isSome) : p.trim.data = p.data.drop (indentOf p.data) := by
  rw [trim, if_pos h, data_advance]

theorem peekNonSpaceRune_eq : peekNonSpaceRune p = .ok (p.next, p.trim) := by
  rw [peekNonSpaceRune, bind_of_ok skipSpace_eq]
  cases h : p.next.isSome
  case true  => rw [if_pos rfl, peekRune_eq, data_trim h, next]
  case false =>
    rw [isSome_eq_false_iff, isNone_iff_eq_none] at h
    simp [h, trim]

theorem advance_of_nil (h : p.data = []) : p.advance n = p := by
  have := p.inBounds
  have hl := p.length_data
  rw [h, length_nil] at hl
  ext : 1
  all_goals simp [advance, len] at *
  omega

theorem nextRune_eq : nextRune p = .ok (p.data.head?, p.advance 1) := by
  have hl := p.length_data
  rw [nextRune, bind_of_ok (run_get p)]
  rcases h : p.data with _ | ⟨b, r⟩
  case nil =>
    rw [h, length_nil] at hl
    rw [if_pos (by omega), advance_of_nil h]
    rfl
  case cons =>
    rw [h, length_cons] at hl
    rw [if_neg (by omega), bind_of_ok byteAt_cons, bind_of_ok (forward_of_le (by simp [h]))]
    rfl

theorem nextNonSpaceRune_eq : nextNonSpaceRune p = .ok (p.next, p.step) := by
  rw [nextNonSpaceRune, bind_of_ok skipSpace_eq]
  cases h : p.next.isSome
  case true  => rw [if_pos rfl, nextRune_eq, data_trim h, trim, if_pos h, step, if_pos h,
                  advance_advance, next]
  case false =>
    rw [isSome_eq_false_iff, isNone_iff_eq_none] at h
    simp [h, trim, step]

def commentLen (s : Bytes) : Nat :=
  if hasPrefix s (ascii "//") then ((indexByte s '\n'.toUInt8).map (· + 1)).getD 0
  else if hasPrefix s (ascii "/*") then ((index s (ascii "*/")).map (· + 2)).getD 0
  else 0

def uncomment (p : Parser) : Parser :=
  p.trim.advance (commentLen p.trim.data)

theorem commentLen_le (s : Bytes) : commentLen s ≤ s.length := by
  unfold commentLen
  split
  case isTrue =>
    cases h : indexByte s '\n'.toUInt8
    case none   => simp
    case some i => exact indexByte_lt h
  case isFalse =>
    split
    case isFalse => exact Nat.zero_le _
    case isTrue =>
      cases h : index s (ascii "*/")
      case none   => simp
      case some i => exact index_add_le h

theorem discard_forward (h : n ≤ p.data.length) :
    discard (forward n) p = .ok ((), p.advance n) :=
  discard_of_ok (forward_of_le h)

theorem commentLen_text (h : c ≠ '/'.toUInt8) :
    commentLen (c :: s) = 0 := by
  have h₁ : hasPrefix (c :: s) (ascii "//") = false := by
    simpa [hasPrefix, ascii, List.isPrefixOf] using fun hc => absurd hc.symm h
  have h₂ : hasPrefix (c :: s) (ascii "/*") = false := by
    simpa [hasPrefix, ascii, List.isPrefixOf] using fun hc => absurd hc.symm h
  simp [commentLen, h₁, h₂]

theorem commentLen_blank (h : (s.drop (indentOf s)).head? = none) :
    commentLen s = 0 := by
  rcases s with _ | ⟨b, s⟩
  case nil  => rfl
  case cons =>
    have hb : isBlank b := by
      by_contra hb
      simp [indentOf_text (Bool.eq_false_iff.mpr hb)] at h
    exact commentLen_text fun hs => absurd (hs ▸ hb) (by decide)

theorem skipComment_eq : skipComment p = .ok ((), p.uncomment) := by
  rw [skipComment, bind_of_ok skipSpace_eq]
  cases h : p.next.isSome
  case false =>
    have hn : p.next = none := by simpa using h
    rw [uncomment, trim, h, if_neg Bool.false_ne_true, if_neg Bool.false_ne_true,
      commentLen_blank hn, advance_zero]
    rfl
  case true =>
    rw [if_pos rfl, bind_of_ok (run_get _), uncomment, commentLen]
    split
    case isTrue =>
      cases hi : indexByte p.trim.data '\n'.toUInt8
      case none   => simp
      case some i => exact discard_forward (indexByte_lt hi)
    case isFalse =>
      split
      case isFalse => simp
      case isTrue =>
        cases hi : index p.trim.data (ascii "*/")
        case none   => simp
        case some i => exact discard_forward (index_add_le hi)

def digitsOf (s : Bytes) : Bytes :=
  s.takeWhile isDecimal

theorem nonDigit_runes (s : Bytes) (i : Nat) :
    nonDigit (runes 0 i s) =
      if (digitsOf s).length < s.length then some (i + (digitsOf s).length) else none := by
  induction s generalizing i
  case nil => rfl
  case cons b s hi =>
    cases hb : isDecimal b
    case true =>
      have ⟨h₁, h₂⟩ := isDecimal_iff.mp hb
      have ha : b < 0x80 := UInt8.lt_iff_toNat_lt.mpr (by simp; omega)
      rw [runes_ascii ha, nonDigit, if_neg (by omega), hi]
      simp [digitsOf, hb, Nat.add_assoc, Nat.add_comm 1]
    case false =>
      have hr : (decodeRune b s).1 < 48 ∨ 57 < (decodeRune b s).1 := by
        by_cases ha : b < 0x80
        case neg => exact .inr (Nat.lt_of_lt_of_le (by decide) (decodeRune_ge ha s))
        case pos =>
          have := mt isDecimal_iff.mpr (Bool.eq_false_iff.mp hb)
          rw [decodeRune_ascii ha]
          simp only
          omega
      rw [runes, nonDigit, if_pos hr]
      simp [digitsOf, hb]

theorem nonDigit_range (s : Bytes) :
    nonDigit (range s) = if (digitsOf s).length < s.length then some (digitsOf s).length else none := by
  rw [Utf8.range, nonDigit_runes, Nat.zero_add]

theorem take_digitsOf (s : Bytes) : s.take (digitsOf s).length = digitsOf s :=
  prefix_iff_eq_take.mp (List.takeWhile_prefix _) |>.symm

theorem afterDigits_eq {α : Type} {f : Parser → Nat → P α} {e : P α} :
    (do let p : Parser ← get
        if p.len ≤ p.pos then e
        else match nonDigit (range p.data) with
          | none   => e
          | some i => f p i : P α) p =
      if (digitsOf p.data).length < p.data.length then f p (digitsOf p.data).length p else e p := by
  have hl := p.length_data
  rw [bind_of_ok (run_get p), nonDigit_range]
  by_cases h : (digitsOf p.data).length < p.data.length
  case pos => rw [if_neg (by omega), if_pos h, if_pos h]
  case neg =>
    rw [if_neg h, if_neg h]
    split <;> rfl

theorem nextCode_eq :
    nextCode p =
      if (digitsOf p.data).length < p.data.length then
        match Strconv.parseUint (digitsOf p.data) 10 8 with
        | (_, some e)  => errf "invalid sml code: %v" [.err e] p
        | (code, none) => .ok (.ofNat code, p.advance (digitsOf p.data).length)
      else
        errf "invalid sml code" [] p := by
  refine afterDigits_eq.trans ?_
  split
  case isFalse  => rfl
  case isTrue h =>
    simp only [bind_of_ok (sliceTo_of_le h.le), take_digitsOf]
    rcases Strconv.parseUint (digitsOf p.data) 10 8 with ⟨code, _ | e⟩
    case none => simp [bind_of_ok (discard_forward h.le)]
    case some => rfl

theorem nextItemSize_eq :
    nextItemSize p =
      if (digitsOf p.data).length < p.data.length then
        match Strconv.parseUint (digitsOf p.data) 10 32 with
        | (_, some e)  => errf "invalid item size: %v" [.err e] p
        | (size, none) =>
          if 2 ^ 31 - 1 < size then errf "parsed size exceeds maximum int value" [] p
          else .ok (size, p.advance (digitsOf p.data).length)
      else
        errf "invalid item size" [] p := by
  refine afterDigits_eq.trans ?_
  split
  case isFalse  => rfl
  case isTrue h =>
    simp only [bind_of_ok (sliceTo_of_le h.le), take_digitsOf]
    rcases Strconv.parseUint (digitsOf p.data) 10 32 with ⟨size, _ | e⟩
    case none =>
      simp only
      split
      case isTrue  => rfl
      case isFalse => simp [bind_of_ok (discard_forward h.le)]
    case some => rfl

end Parser
end Sml
