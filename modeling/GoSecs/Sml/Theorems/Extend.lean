import GoSecs.Sml.Theorems.Localized

open Utf8 Strings Prog List

namespace Sml

open Secs2 (Bytes Item FormatCode maxListDepth)

-- A text that does not start in the middle of a rune.
def Detached (t : Bytes) : Prop :=
  ∀ c ∈ t.head?, c < 0x80

namespace Parser

variable {t : Bytes} {p p' : Parser} {n : Nat} {c : UInt8}

-- Two parsers that differ only in the text: it goes on with `t` for the second one.
structure Ext (t : Bytes) (p p' : Parser) : Prop where
  data : p'.data = p.data ++ t
  listDepth : p'.listDepth = p.listDepth
  strict : p'.strict = p.strict
  stream : p'.stream = p.stream
  function : p'.function = p.function
  wbit : p'.wbit = p.wbit

namespace Ext

theorem length_le (h : Ext t p p') : p.data.length ≤ p'.data.length := by
  simp [h.data]

theorem advance (h : Ext t p p') (hn : n ≤ p.data.length) : Ext t (p.advance n) (p'.advance n) where
  data := by rw [data_advance, data_advance, h.data, drop_append_of_le_length hn]
  listDepth := h.listDepth
  strict := h.strict
  stream := h.stream
  function := h.function
  wbit := h.wbit

theorem next (h : Ext t p p') (hc : p.next = some c) : p'.next = some c := by
  have ⟨bl, s, hd, hb, hc⟩ := split_of_next hc
  exact next_of_split (by rw [h.data, hd, append_assoc]; rfl) hb hc

theorem trim (h : Ext t p p') (hc : p.next = some c) : Ext t p.trim p'.trim := by
  have ⟨bl, s, hd, hb, hc⟩ := split_of_next hc
  have hd' : p'.data = bl ++ c :: (s ++ t) := by simp [h.data, hd]
  rw [trim_of_split hd hb hc, trim_of_split hd' hb hc]
  exact h.advance (by simp [hd])

theorem step (h : Ext t p p') (hc : p.next = some c) : Ext t p.step p'.step := by
  have ⟨bl, s, hd, hb, hc⟩ := split_of_next hc
  have hd' : p'.data = bl ++ c :: (s ++ t) := by simp [h.data, hd]
  rw [step_of_split hd hb hc, step_of_split hd' hb hc]
  exact h.advance (by simp [hd])

end Ext

theorem trim_of_none (h : p.next = none) : p.trim = p := by
  rw [Parser.trim, h]
  rfl

theorem step_of_none (h : p.next = none) : p.step = p := by
  rw [Parser.step, h]
  rfl

section Cursor

variable {α : Type} {Q : α → Parser → Prop} {s : Bytes}

theorem rune_follows {m : P (Option UInt8)} {g : Parser → Parser} {f : Option UInt8 → P α}
    (hm : ∀ {p}, m p = .ok (p.next, g p)) (hg : p.next = none → g p = p) (h : Ext t p p')
    (hn : p.next = none → ∀ r, f none p ≠ .ok r)
    (hf : ∀ c, p.next = some c → Follows (Ext t) (f (some c)) (f (some c)) (g p) (g p') Q) :
    Follows (Ext t) (m >>= f) (m >>= f) p p' Q := by
  rcases hc : p.next with _ | c
  case none =>
    intro a q ha
    rw [bind_of_ok hm, hc, hg hc] at ha
    exact absurd ha (hn hc _)
  case some => exact follows_bind_of_ok (hc ▸ hm) (h.next hc ▸ hm) (hf c hc)

theorem Ext.head (h : Ext t p p') (hd : p.data = c :: s) : p'.data.head? = some c := by
  rw [h.data, hd]
  rfl

theorem digitsOf_append (h : (digitsOf s).length < s.length) :
    digitsOf (s ++ t) = digitsOf s := by
  unfold digitsOf at *
  rw [takeWhile_append, if_neg (Nat.ne_of_lt h)]

theorem Ext.digitsOf (h : Ext t p p') (hl : (digitsOf p.data).length < p.data.length) :
    Parser.digitsOf p'.data = Parser.digitsOf p.data := by
  rw [h.data, digitsOf_append hl]

theorem nextCode_follows {Q : UInt8 → Parser → Prop} (h : Ext t p p') :
    Follows (Ext t) nextCode nextCode p p' Q := by
  intro a q ha _
  rw [nextCode_eq] at ha ⊢
  split at ha
  case isFalse => cases ha
  case isTrue hl =>
    rw [h.digitsOf hl, if_pos (hl.trans_le h.length_le)]
    split at ha
    case h_1 => cases ha
    case h_2 =>
      cases ha
      exact ⟨_, rfl, h.advance hl.le⟩

theorem nextItemSize_follows {Q : Nat → Parser → Prop} (h : Ext t p p') :
    Follows (Ext t) nextItemSize nextItemSize p p' Q := by
  intro a q ha _
  rw [nextItemSize_eq] at ha ⊢
  split at ha
  case isFalse => cases ha
  case isTrue hl =>
    rw [h.digitsOf hl, if_pos (hl.trans_le h.length_le)]
    split at ha
    case h_1 => cases ha
    case h_2 =>
      split at ha
      case isTrue => cases ha
      case isFalse hm =>
        cases ha
        exact ⟨_, if_neg hm, h.advance hl.le⟩

theorem closeItemSize_follows {Q : Nat × Nat → Parser → Prop} (h : Ext t p p') (n m : Nat) :
    Follows (Ext t) (closeItemSize n m) (closeItemSize n m) p p' Q := by
  refine rune_follows nextNonSpaceRune_eq step_of_none h (fun _ => nofun) fun c hc => ?_
  split
  case isFalse => exact follows_of_error rfl
  case isTrue =>
    split
    case isTrue  => exact follows_of_error rfl
    case isFalse => exact follows_pure _ (h.step hc)

theorem nextItemSize_digit {r : Nat × Parser} (h : nextItemSize p = .ok r) :
    ∃ c s, p.data = c :: s ∧ Strconv.isDecimal c := by
  rcases hd : p.data with _ | ⟨c, s⟩
  case nil =>
    rw [nextItemSize_eq, hd] at h
    cases h
  case cons =>
    cases hc : Strconv.isDecimal c
    case true  => exact ⟨c, s, rfl, hc⟩
    case false =>
      have h₀ : digitsOf p.data = [] := by simp [hd, digitsOf, hc]
      rw [nextItemSize_eq, h₀, if_pos (by simp [hd])] at h
      cases h

theorem nextItemSize_none {r : Nat × Parser} (hn : p.next = none) : nextItemSize p ≠ .ok r := by
  intro h
  have ⟨c, s, hd, hc⟩ := nextItemSize_digit h
  have hd : p.data = [] ++ c :: s := hd
  cases hn.symm.trans (next_of_split hd nofun (isDecimal_ne hc).2.2)

theorem range_follows {f : P α} (h : Ext t p p') (hn : p.next = some '.'.toUInt8)
    (hd : ∀ q s r, q.data = '.'.toUInt8 :: s → f q ≠ .ok r)
    (hf : ∀ q q', Ext t q q' → Follows (Ext t) f f q q' Q) :
    Follows (Ext t) (discard (forward 2) >>= fun _ => f) (discard (forward 2) >>= fun _ => f)
      p.trim p'.trim Q := by
  have ht := h.trim hn
  by_cases hl : 2 ≤ p.trim.data.length
  case pos =>
    exact follows_bind_of_ok (discard_forward hl) (discard_forward (hl.trans ht.length_le))
      (hf _ _ (ht.advance hl))
  case neg =>
    intro a q ha
    rw [bind_of_ok (discard_of_ok (forward_of_gt (Nat.not_le.mp hl)))] at ha
    have ⟨s, hs⟩ : ∃ s, p.trim.data = '.'.toUInt8 :: s := by
      rw [data_trim (hn ▸ rfl)]
      exact head?_eq_some_iff.mp hn
    exact absurd ha (hd _ s _ hs)

theorem nextItemSize_dot {r : Nat × Parser} (hd : p.data = '.'.toUInt8 :: s) :
    nextItemSize p ≠ .ok r := by
  intro h
  have ⟨c, s, hd', hc⟩ := nextItemSize_digit h
  cases hd.symm.trans hd'
  exact absurd hc (by decide)

theorem backward_step (hc : p.next = some c) : backward 1 p.step = .ok ((), p.trim) := by
  have ⟨bl, s, hd, hb, hc⟩ := split_of_next hc
  rw [step_of_split hd hb hc, trim_of_split hd hb hc,
    backward_advance (by simp [hd]) (Nat.le_add_left ..)]
  rfl

theorem maxSize_follows {Q : Nat × Nat → Parser → Prop} (minSize : Nat) (h : Ext t p p') :
    Follows (Ext t) (nextItemSize >>= closeItemSize minSize) (nextItemSize >>= closeItemSize minSize)
      p p' Q :=
  .bind (nextItemSize_follows h) fun _ _ _ _ h => closeItemSize_follows h _ _

theorem parseItemSize_follows {Q : Nat × Nat → Parser → Prop} (h : Ext t p p')
    (hn : p.next.isSome) : Follows (Ext t) parseItemSize parseItemSize p p' Q := by
  have ⟨c, hc⟩ := Option.isSome_iff_exists.mp hn
  refine follows_bind_of_ok (hc ▸ nextNonSpaceRune_eq) (h.next hc ▸ nextNonSpaceRune_eq) ?_
  have hs := h.step hc
  split
  case isFalse =>
    exact follows_bind_of_ok (backward_step hc) (backward_step (h.next hc))
      (follows_pure _ (h.trim hc))
  case isTrue =>
    refine rune_follows peekNonSpaceRune_eq trim_of_none hs ?_ fun c hc => ?_
    · intro hn r hr
      have ⟨_, _, h, _⟩ := bind_eq_ok.mp hr
      exact nextItemSize_none hn h
    · split
      case isTrue hdot =>
        refine range_follows hs (hc.trans hdot) ?_ fun q q' h => maxSize_follows 0 h
        intro q s r hd hr
        have ⟨_, _, h, _⟩ := bind_eq_ok.mp hr
        exact nextItemSize_dot hd h
      case isFalse =>
        refine .bind (nextItemSize_follows (hs.trim hc)) fun minSize q q' _ h => ?_
        refine rune_follows peekNonSpaceRune_eq trim_of_none h ?_ fun c hc => ?_
        · intro hn r hr
          rw [if_neg nofun, closeItemSize, bind_of_ok nextNonSpaceRune_eq, hn] at hr
          cases hr
        · split
          case isFalse => exact closeItemSize_follows (h.trim hc) _ _
          case isTrue hdot =>
            refine range_follows h (hc.trans hdot) ?_ fun q q' h => ?_
            · intro q s r hd hr
              rw [bind_of_ok peekRune_eq, hd, head?_cons, if_neg (by decide)] at hr
              have ⟨_, _, h, _⟩ := bind_eq_ok.mp hr
              exact nextItemSize_dot hd h
            · rcases hd : q.data with _ | ⟨c, s⟩
              case nil =>
                intro a q' ha
                rw [bind_of_ok peekRune_eq, hd, if_neg nofun] at ha
                have ⟨_, _, h, _⟩ := bind_eq_ok.mp ha
                have ⟨_, _, hd', _⟩ := nextItemSize_digit h
                cases hd.symm.trans hd'
              case cons =>
                refine follows_bind_of_ok (hd ▸ peekRune_eq) (h.head hd ▸ peekRune_eq) ?_
                split
                case isTrue  => exact closeItemSize_follows h _ _
                case isFalse => exact maxSize_follows minSize h

theorem commentLen_append (h : commentLen s ≠ 0) :
    commentLen (s ++ t) = commentLen s := by
  have hl : 2 ≤ s.length := by
    by_contra hl
    refine h ?_
    rcases s with _ | ⟨b, _ | ⟨c, s⟩⟩
    case nil => rfl
    case cons.nil => simp [commentLen, hasPrefix, ascii]
    case cons.cons => simp at hl
  have h₁ : hasPrefix (s ++ t) (ascii "//") = hasPrefix s (ascii "//") := hasPrefix_append hl
  have h₂ : hasPrefix (s ++ t) (ascii "/*") = hasPrefix s (ascii "/*") := hasPrefix_append hl
  unfold commentLen at *
  rw [h₁, h₂]
  split
  case isTrue hp =>
    rw [if_pos hp] at h
    rcases hi : indexByte s '\n'.toUInt8 with _ | i
    case none => simp [hi] at h
    case some => rw [indexByte_append hi]
  case isFalse hp =>
    rw [if_neg hp] at h
    split
    case isFalse => rfl
    case isTrue hp =>
      rw [if_pos hp] at h
      rcases hi : index s (ascii "*/") with _ | i
      case none => simp [hi] at h
      case some => rw [index_append hi]

theorem uncomment_of_none (h : p.next = none) : p.uncomment = p := by
  rw [uncomment, trim_of_none h, commentLen_blank h, advance_zero]

theorem Ext.uncomment (h : Ext t p p') (hn : p.uncomment.next.isSome)
    (hs : p.uncomment.data.head? ≠ some '/'.toUInt8) : Ext t p.uncomment p'.uncomment := by
  have hn : p.next.isSome := by
    by_contra hc
    have hc : p.next = none := by simpa using hc
    rw [uncomment_of_none hc, hc] at hn
    cases hn
  have ⟨c, hc⟩ := Option.isSome_iff_exists.mp hn
  have ht := h.trim hc
  have ⟨s, hd⟩ : ∃ s, p.trim.data = c :: s := by
    rw [data_trim hn]
    exact head?_eq_some_iff.mp hc
  have hl : commentLen p'.trim.data = commentLen p.trim.data := by
    rw [ht.data]
    by_cases h₀ : commentLen p.trim.data = 0
    case neg => exact commentLen_append h₀
    case pos =>
      rw [Parser.uncomment, h₀, advance_zero, hd, head?_cons, Ne, Option.some.injEq] at hs
      rw [hd, cons_append, commentLen_text hs, commentLen_text hs]
  rw [Parser.uncomment, Parser.uncomment, hl]
  exact ht.advance (commentLen_le _)

end Cursor

section Head

variable {s : Bytes} {fc : FormatCode} {second : Option UInt8} {first : UInt8} {q : Parser}
  {r : FormatCode × Bool × Nat}

-- The characters that are not part of an item's type.
def Special (c : UInt8) : Prop :=
  isBlank c ∨ c = '<'.toUInt8 ∨ c = '>'.toUInt8 ∨ c = '/'.toUInt8

theorem Special.cases (h : Special c) :
    c = ' '.toUInt8 ∨ c = '\t'.toUInt8 ∨ c = '\r'.toUInt8 ∨ c = '\n'.toUInt8 ∨ c = '<'.toUInt8 ∨
      c = '>'.toUInt8 ∨ c = '/'.toUInt8 := by
  simpa [Special, isBlank, or_assoc] using h

theorem typeFrom_special (h : Special c) :
    typeFrom s (toUpperRune c) second = none := by
  rcases h.cases with rfl | rfl | rfl | rfl | rfl | rfl | rfl <;> rfl

theorem toUpper_special (h : Special c) : toUpper (s ++ [c]) = toUpper s ++ [c] := by
  have hc : c < 0x80 := by rcases h.cases with rfl | rfl | rfl | rfl | rfl | rfl | rfl <;> decide
  have he : encodeRune (Strings.toUpperRune c.toNat) = [c] := by
    rcases h.cases with rfl | rfl | rfl | rfl | rfl | rfl | rfl <;> decide
  simp [toUpper, range_append hc, runes, he]

theorem toUpper_ne_boolean (h : Special c) : toUpper (s ++ [c]) ≠ ascii "BOOLEAN" := by
  intro hb
  rw [toUpper_special h] at hb
  have hl := congrArg List.getLast? hb
  rw [getLast?_concat] at hl
  revert hl
  rcases h.cases with rfl | rfl | rfl | rfl | rfl | rfl | rfl <;> decide

theorem itemType_last (h : itemType s = some (fc, n)) (hc : s[n - 1]? = some c) : ¬Special c := by
  intro hs
  have ⟨b, hb, ht⟩ := Option.bind_eq_some_iff.mp h
  rcases typeFrom_cases ht with rfl | ⟨rfl, d, hd, h₁⟩ | ⟨rfl, _, _, h₇⟩
  case inl =>
    rw [head?_eq_getElem?, hc] at hb
    cases hb
    cases (typeFrom_special hs).symm.trans ht
  case inr.inl =>
    rw [hc, Option.map_some, Option.some.injEq] at h₁
    subst h₁
    revert hd
    rcases hs.cases with rfl | rfl | rfl | rfl | rfl | rfl | rfl <;> decide
  case inr.inr =>
    have hd : s.take 7 = s.take 6 ++ [c] := by
      rw [take_add_one, hc]
      rfl
    exact toUpper_ne_boolean hs (hd ▸ h₇)

-- Beyond its first two characters a type depends on the text only where `BO` may go on.
theorem typeFrom_congr {s' : Bytes} (h : first = 'B'.toUInt8 → second = some 'O'.toUInt8 →
      (7 ≤ s.length ∧ toUpper (s.take 7) = ascii "BOOLEAN" ↔
        7 ≤ s'.length ∧ toUpper (s'.take 7) = ascii "BOOLEAN")) :
    typeFrom s first second = typeFrom s' first second := by
  unfold typeFrom
  by_cases hf : first = 'B'.toUInt8
  case neg => simp only [if_neg hf]
  case pos =>
    rcases second with _ | c
    case none => rfl
    case some =>
      by_cases hc : c = 'O'.toUInt8
      case neg => simp only [if_neg hc]
      case pos => simp only [h hf (hc ▸ rfl)]

theorem typeFrom_boolean (h : typeFrom s first second = some (fc, n)) (h₁ : first = 'B'.toUInt8)
    (h₂ : second = some 'O'.toUInt8) (hb : fc ≠ .binary) :
    7 ≤ s.length ∧ toUpper (s.take 7) = ascii "BOOLEAN" := by
  by_contra hc
  subst h₁ h₂
  unfold typeFrom at h
  rw [if_neg (by decide), if_neg (by decide), if_neg (by decide), if_neg (by decide), if_pos rfl] at h
  simp only [if_neg hc] at h
  cases h
  exact hb rfl

theorem itemType_append (h : itemType s = some (fc, n)) (hl : n < s.length)
    (hb : fc = .binary → s[1]?.map toUpperRune ≠ some 'O'.toUInt8) :
    itemType (s ++ t) = some (fc, n) := by
  have ⟨hn, _⟩ := itemType_bounds h
  have ⟨c, hc, ht⟩ := Option.bind_eq_some_iff.mp h
  have h₀ : (s ++ t).head? = some c := by simp [hc]
  have h₁ : (s ++ t)[1]? = s[1]? := getElem?_append_left (by omega)
  rw [itemType, h₀, Option.bind_some, h₁, ← ht]
  refine (typeFrom_congr fun hB hO => ?_).symm
  have hw := typeFrom_boolean ht hB hO fun hf => hb hf hO
  have htake : (s ++ t).take 7 = s.take 7 := take_append_of_le_length hw.1
  exact iff_of_true hw ⟨by simp; omega, htake ▸ hw.2⟩

-- A value that is read without an error is closed and does not start with a slash, nor that of a
-- binary item with the second letter of `BOOLEAN`.
def Viable : FormatCode → Parser → Prop
  | .list,   q => q.next = some '<'.toUInt8 ∨ q.next = some '>'.toUInt8
  | .binary, q => '>'.toUInt8 ∈ q.data ∧ q.data.head? ≠ some '/'.toUInt8 ∧
    q.data.head?.map toUpperRune ≠ some 'O'.toUInt8
  | _,       q => '>'.toUInt8 ∈ q.data ∧ q.data.head? ≠ some '/'.toUInt8

theorem next_of_head (h : p.data.head? = some c) (hc : isBlank c = false) : p.next = some c := by
  have ⟨s, hd⟩ := head?_eq_some_iff.mp h
  have hd : p.data = [] ++ c :: s := hd
  exact next_of_split hd nofun hc

theorem trim_cons (h : p.next = some c) : ∃ s, p.trim.data = c :: s := by
  rw [data_trim (h ▸ rfl)]
  exact head?_eq_some_iff.mp h

theorem next_trim (p : Parser) : p.trim.next = p.next := by
  rcases h : p.next with _ | c
  case none => rw [trim_of_none h, h]
  case some =>
    have ⟨s, hs⟩ := trim_cons h
    have ⟨_, _, _, _, hb⟩ := split_of_next h
    exact next_of_head (by rw [hs]; rfl) hb

theorem blank_of_none (h : p.next = none) (hc : c ∈ p.data) : isBlank c := by
  rw [next, head?_drop, List.getElem?_eq_none_iff] at h
  exact blank_of_indentOf (Nat.le_antisymm (indentOf_le _) h) hc

theorem Viable.list_or (h : Viable fc p) :
    p.next = some '<'.toUInt8 ∨ p.next = some '>'.toUInt8 ∨
      '>'.toUInt8 ∈ p.data ∧ p.data.head? ≠ some '/'.toUInt8 := by
  cases fc
  case list   => exact h.imp_right .inl
  case binary => exact .inr <| .inr ⟨h.1, h.2.1⟩
  all_goals exact .inr <| .inr h

theorem Viable.isSome (h : Viable fc p) : p.next.isSome := by
  rcases h.list_or with h | h | ⟨h, _⟩
  case inl | inr.inl => exact h ▸ rfl
  case inr.inr =>
    rcases hn : p.next with _ | c
    case some => rfl
    case none => exact absurd (blank_of_none hn h) (by decide)

theorem Viable.not_slash (h : Viable fc p) : p.data.head? ≠ some '/'.toUInt8 := by
  intro hd
  have hn := next_of_head hd (by decide)
  rcases h.list_or with h | h | ⟨_, h⟩
  case inl | inr.inl =>
    rw [hn] at h
    revert h
    decide
  case inr.inr => exact h hd

-- At the end of the input the parser takes back the last character of the type.
theorem not_viable_end (hd : p.data = c :: s) (hs : ∀ b ∈ s, isBlank b) (hc : ¬Special c) :
    ¬Viable fc p := by
  intro h
  have hn : p.next = some c := by
    refine next_of_head (by rw [hd]; rfl) ?_
    by_contra hb
    exact hc (.inl (by simpa using hb))
  rcases h.list_or with h | h | ⟨h, _⟩
  case inl => cases hn.symm.trans h; exact hc (by simp [Special])
  case inr.inl => cases hn.symm.trans h; exact hc (by simp [Special])
  case inr.inr =>
    rw [hd, mem_cons] at h
    rcases h with rfl | h
    case inl => exact hc (by simp [Special])
    case inr => exact absurd (hs _ h) (by decide)

theorem parseItemSize_none {m : Nat} (hm : 0 < m) (hl : m ≤ p.data.length)
    (hn : (p.advance m).next = none) :
    parseItemSize (p.advance m) = .ok ((0, 0), p.advance (m - 1)) := by
  rw [parseItemSize, bind_of_ok nextNonSpaceRune_eq, hn, step_of_none hn, if_neg (by simp),
    bind_of_ok (backward_advance hl hm)]
  rfl

theorem uncomment_text (hd : p.data = c :: s) (hc : ¬Special c) : p.uncomment = p := by
  have hb : isBlank c = false := by
    by_contra hb
    exact hc (.inl (by simpa using hb))
  have hd' : p.data = [] ++ c :: s := hd
  have ht : p.trim = p := (trim_of_split hd' nofun hb).trans (advance_zero p)
  have hc : c ≠ '/'.toUInt8 := by
    rintro rfl
    exact hc (by simp [Special])
  rw [uncomment, ht, hd, commentLen_text hc, advance_zero]

def afterType (itemType : FormatCode) : P (FormatCode × Bool × Nat) := do
  let ch ← peekNonSpaceRune
  let size ← parseItemSize
  skipComment
  pure (itemType, ch = some '['.toUInt8, size.2)

theorem parseItemHead_eq :
    parseItemHead p =
      if p.next = some '<'.toUInt8 then
        match itemType p.step.trim.data with
        | none => errf "failed to parse item type" [] p.step.trim
        | some (fc, n) => afterType fc (p.step.trim.advance n)
      else
        errf "expected '<'" [] p.step := by
  rw [parseItemHead, bind_of_ok nextNonSpaceRune_eq]
  split
  case isFalse => rfl
  case isTrue =>
    have ht := parseItemType_eq (p := p.step)
    rcases hi : itemType p.step.trim.data with _ | ⟨fc, n⟩
    all_goals
      rw [hi] at ht
      rw [bind_of_ok ht]
    all_goals rfl

theorem afterType_none (ht : itemType p.data = some (fc, n)) (hn : (p.advance n).next = none)
    (h : afterType fc (p.advance n) = .ok (r, q)) : ¬Viable fc q := by
  have ⟨h₀, hl⟩ := itemType_bounds ht
  have ⟨c, s, hd⟩ := drop_eq_cons (show n - 1 < p.data.length by omega)
  have hc : ¬Special c := itemType_last ht (by rw [← head?_drop, hd]; rfl)
  have hd : (p.advance (n - 1)).data = c :: s := by rw [data_advance, hd]
  have hs : s = (p.advance n).data := by
    rw [data_advance, show n = n - 1 + 1 by omega, ← drop_drop, ← data_advance, hd]
    rfl
  rw [afterType, bind_of_ok peekNonSpaceRune_eq, trim_of_none hn,
    bind_of_ok (parseItemSize_none h₀ hl hn), bind_of_ok skipComment_eq, uncomment_text hd hc] at h
  cases h
  exact not_viable_end hd (fun b hb => blank_of_none hn (hs ▸ hb)) hc

theorem afterType_follows (h : Ext t p p') (hn : p.next.isSome) :
    Follows (Ext t) (afterType fc) (afterType fc) p p' fun _ q => Viable fc q := by
  have ⟨c, hc⟩ := Option.isSome_iff_exists.mp hn
  have ht := h.trim hc
  have hn' : p.trim.next.isSome := (next_trim p).symm ▸ hn
  refine follows_bind_of_ok (hc ▸ peekNonSpaceRune_eq) (h.next hc ▸ peekNonSpaceRune_eq) ?_
  refine .bind (parseItemSize_follows ht hn') fun size q q' _ h => ?_
  intro r u hr hv
  rw [bind_of_ok skipComment_eq] at hr ⊢
  cases hr
  exact ⟨_, rfl, h.uncomment hv.isSome hv.not_slash⟩

theorem afterType_fst (h : afterType fc p = .ok (r, q)) :
    r.1 = fc := by
  have ⟨_, _, _, h⟩ := bind_eq_ok.mp h
  have ⟨_, _, _, h⟩ := bind_eq_ok.mp h
  have ⟨_, _, _, h⟩ := bind_eq_ok.mp h
  cases h
  rfl

theorem afterType_text (hd : p.data = c :: s) (hc : ¬Special c) (hb : c ≠ '['.toUInt8) :
    afterType fc p = .ok ((fc, false, 0), p) := by
  have hbl : isBlank c = false := by
    by_contra hb
    exact hc (.inl (by simpa using hb))
  have hn : p.next = some c := next_of_head (by rw [hd]; rfl) hbl
  have hd' : p.data = [] ++ c :: s := hd
  have ht : p.trim = p := (trim_of_split hd' nofun hbl).trans (advance_zero p)
  have hb : ¬some c = some '['.toUInt8 := fun h => hb (Option.some.inj h)
  have hz : parseItemSize p = .ok ((0, 0), p) := by
    rw [parseItemSize, bind_of_ok nextNonSpaceRune_eq, hn, if_neg hb, bind_of_ok (backward_step hn), ht]
    rfl
  rw [afterType, bind_of_ok peekNonSpaceRune_eq, ht, bind_of_ok hz, bind_of_ok skipComment_eq,
    uncomment_text hd hc, hn, decide_eq_false hb]
  rfl

-- A binary item whose value starts with `O` cannot be read.
theorem itemType_binary
    (ht : itemType p.data = some (.binary, n)) (h : afterType .binary (p.advance n) = .ok (r, q))
    (hv : Viable .binary q) : p.data[1]?.map toUpperRune ≠ some 'O'.toUInt8 := by
  intro hO
  have ⟨_, _, ht⟩ := Option.bind_eq_some_iff.mp ht
  have hn : n = 1 := by
    rcases typeFrom_cases ht with h | ⟨_, d, hd, h⟩ | ⟨_, h, _⟩
    case inl => exact h
    case inr.inl =>
      cases hO.symm.trans h
      exact absurd hd (by decide)
    case inr.inr => cases h
  subst hn
  have ⟨c, hc, hup⟩ := Option.map_eq_some_iff.mp hO
  have ⟨s, hd⟩ : ∃ s, (p.advance 1).data = c :: s := by
    rw [data_advance]
    exact head?_eq_some_iff.mp (head?_drop ▸ hc)
  have hs : ¬Special c := by
    intro hs
    revert hup
    rcases hs.cases with rfl | rfl | rfl | rfl | rfl | rfl | rfl <;> decide
  have hb : c ≠ '['.toUInt8 := by
    rintro rfl
    revert hup
    decide
  rw [afterType_text hd hs hb] at h
  cases h
  exact hv.2.2 (by rw [hd, head?_cons, Option.map_some, hup])

theorem parseItemHead_follows (h : Ext t p p') :
    Follows (Ext t) parseItemHead parseItemHead p p' fun r q => Viable r.1 q := by
  intro r q hr hv
  rw [parseItemHead_eq] at hr ⊢
  split at hr
  case isFalse => cases hr
  case isTrue hc =>
    have hs := h.step hc
    rw [if_pos (h.next hc)]
    rcases hi : itemType p.step.trim.data with _ | ⟨fc, n⟩
    case none => rw [hi] at hr; cases hr
    case some =>
      rw [hi] at hr
      have hv : Viable fc q := afterType_fst hr ▸ hv
      have ⟨c, hsome⟩ : ∃ c, p.step.next = some c := by
        rcases hn : p.step.next with _ | c
        case some => exact ⟨c, rfl⟩
        case none =>
          rw [trim_of_none hn] at hi
          have ⟨c, hc, ht⟩ := Option.bind_eq_some_iff.mp hi
          have hb := blank_of_none hn (mem_of_mem_head? hc)
          cases (typeFrom_special (.inl hb)).symm.trans ht
      have ht := hs.trim hsome
      have hn : (p.step.trim.advance n).next.isSome := by
        by_contra hn
        exact afterType_none hi (by simpa using hn) hr hv
      have hl : n < p.step.trim.data.length := by
        have := next_isSome.mp hn
        rw [data_advance, length_drop] at this
        omega
      have hb (hf : fc = .binary) : p.step.trim.data[1]?.map toUpperRune ≠ some 'O'.toUInt8 := by
        subst hf
        exact itemType_binary hi hr hv
      rw [ht.data, itemType_append hi hl hb]
      exact afterType_follows (ht.advance hl.le) hn r q hr hv

end Head

end Parser

end Sml
