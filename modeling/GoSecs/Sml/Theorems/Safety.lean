import GoSecs.Sml.Theorems.Head

open Utf8 Strings Strconv Prog

namespace Sml

open Secs2 (Bytes Item FormatCode maxListDepth)

def Fault.IsParse : Fault → Prop
  | parse _ => True
  | _ => False

theorem Fault.IsParse.isError {e : Fault} (h : e.IsParse) : e.IsError := by
  cases e
  case parse => trivial
  all_goals exact h.elim

theorem Fault.IsParse.exists {f : Fault} (h : f.IsParse) : ∃ e, f = .parse e := by
  cases f
  case parse e => exact ⟨e, rfl⟩
  all_goals exact h.elim

namespace Parser

structure After (p p' : Parser) : Prop where
  input : p'.input = p.input
  strict : p'.strict = p.strict
  listDepth : p'.listDepth = p.listDepth
  pos : p.pos ≤ p'.pos

namespace After

variable {p p' p'' : Parser}

@[refl]
theorem refl (p : Parser) : After p p :=
  ⟨rfl, rfl, rfl, le_rfl⟩

@[trans]
theorem trans (h : After p p') (h' : After p' p'') : After p p'' :=
  ⟨h'.input.trans h.input, h'.strict.trans h.strict, h'.listDepth.trans h.listDepth,
    h.pos.trans h'.pos⟩

theorem advance (p : Parser) (n : Nat) : After p (p.advance n) :=
  ⟨rfl, rfl, rfl, Nat.le_min.mpr ⟨Nat.le_add_right .., p.inBounds⟩⟩

theorem trim (p : Parser) : After p p.trim := by
  unfold Parser.trim
  split
  case isTrue  => exact advance ..
  case isFalse => rfl

theorem step (p : Parser) : After p p.step := by
  unfold Parser.step
  split
  case isTrue  => exact advance ..
  case isFalse => rfl

theorem uncomment (p : Parser) : After p p.uncomment :=
  (trim p).trans (advance ..)

end After

variable {α : Type} {p p' : Parser} {n : Nat} {s : Bytes} {rs : List (Nat × Nat)}

-- A run that returns with `Q`, or with an error.
abbrev Safe (x : P α) (p : Parser) (Q : α → Parser → Prop) : Prop :=
  Wp x p Q Fault.IsError

theorem pos_lt_advance (hn : 0 < n) (h : n ≤ p.data.length) : p.pos < (p.advance n).pos := by
  rw [pos_advance h]
  omega

theorem pos_lt_step (h : p.next.isSome) : p.pos < p.step.pos := by
  rw [step, if_pos h]
  exact pos_lt_advance (Nat.succ_pos _) (next_isSome.mp h)

-- From any state the run returns with the parser moved forward, or with an error.
def Forward (x : P α) : Prop :=
  ∀ p, Safe x p fun _ p' => After p p'

namespace Forward

variable {β : Type} {x : P α} {f : α → P β}

theorem pure (a : α) : Forward (Pure.pure a) :=
  .refl

theorem errf {format : String} {args : List Arg} : Forward (Parser.errf format args : P α) :=
  fun _ => trivial

theorem of_eq {g : Parser → α × Parser} (h : ∀ p, x p = .ok (g p)) (ha : ∀ p, After p (g p).2) :
    Forward x :=
  fun p => (wp_of_ok (h p)).mpr (ha p)

theorem bind (hx : Forward x) (hf : ∀ a, Forward (f a)) : Forward (x >>= f) := by
  intro p
  rw [Safe, wp_bind]
  exact (hx p).mono fun a p' h => (hf a p').mono fun _ _ => h.trans

theorem discard_forward (n : Nat) : Forward (discard (forward n)) := by
  intro p
  by_cases h : n ≤ p.data.length
  case pos => exact (wp_of_ok (Parser.discard_forward h)).mpr (.advance ..)
  case neg => exact (wp_of_ok (discard_of_ok (forward_of_gt (Nat.not_le.mp h)))).mpr (.refl _)

theorem peekRune : Forward peekRune :=
  of_eq (fun _ => peekRune_eq) .refl

theorem nextRune : Forward nextRune :=
  of_eq (fun _ => nextRune_eq) fun _ => .advance ..

theorem peekNonSpaceRune : Forward peekNonSpaceRune :=
  of_eq (fun _ => peekNonSpaceRune_eq) .trim

theorem nextNonSpaceRune : Forward nextNonSpaceRune :=
  of_eq (fun _ => nextNonSpaceRune_eq) .step

theorem nextCode : Forward nextCode := by
  intro p
  rw [Safe, Wp, nextCode_eq]
  split
  case isFalse => trivial
  case isTrue  =>
    split
    case h_1 => trivial
    case h_2 => exact .advance ..

theorem nextItemSize : Forward nextItemSize := by
  intro p
  rw [Safe, Wp, nextItemSize_eq]
  split
  case isFalse => trivial
  case isTrue  =>
    split
    case h_1 => trivial
    case h_2 =>
      split
      case isTrue  => trivial
      case isFalse => exact .advance ..

theorem closeItemSize (minSize maxSize : Nat) : Forward (closeItemSize minSize maxSize) := by
  refine nextNonSpaceRune.bind fun _ => ?_
  split
  case isFalse => exact errf
  case isTrue =>
    split
    case isTrue  => exact errf
    case isFalse => exact pure _

end Forward

theorem parseItemType_safe :
    Safe parseItemType p fun r p' => After p p' ∧ (r.isSome → p.pos < p'.pos) := by
  rw [Safe, Wp, parseItemType_eq]
  split
  case h_1   => exact ⟨.trim p, by simp⟩
  case h_2 h =>
    obtain ⟨hn, hl⟩ := itemType_bounds h
    exact ⟨(After.trim p).trans (.advance ..),
      fun _ => (After.trim p).pos.trans_lt (pos_lt_advance hn hl)⟩

-- Without a size the parser takes one byte back, which at the end of the input is a byte of the type.
theorem parseItemSize_safe {p₀ : Parser} (h : After p₀ p) (hp : p₀.pos < p.pos) :
    Safe parseItemSize p fun _ p' => After p₀ p' := by
  rw [Safe, parseItemSize, wp_bind_of_ok nextNonSpaceRune_eq]
  have hs := h.trans (.step p)
  split
  case isFalse =>
    have := hp.trans_le (After.step p).pos
    have hb : backward 1 p.step = .ok ((), { p.step with pos := p.step.pos - 1, inBounds := _ }) :=
      if_pos (show 1 ≤ p.step.pos by omega)
    rw [wp_bind_of_ok hb]
    exact ⟨hs.input, hs.strict, hs.listDepth, show _ ≤ p.step.pos - 1 by omega⟩
  case isTrue =>
    refine Wp.mono ?_ fun _ _ h' => hs.trans h'
    refine Forward.bind .peekNonSpaceRune (fun _ => ?_) p.step
    split
    case isTrue =>
      exact .bind (.discard_forward 2) fun _ => .bind .nextItemSize fun _ => .closeItemSize _ _
    case isFalse =>
      refine .bind .nextItemSize fun _ => .bind .peekNonSpaceRune fun _ => ?_
      split
      case isFalse => exact .closeItemSize _ _
      case isTrue  =>
        refine .bind (.discard_forward 2) fun _ => .bind .peekRune fun _ => ?_
        split
        case isTrue  => exact .closeItemSize _ _
        case isFalse => exact .bind .nextItemSize fun _ => .closeItemSize _ _

theorem parseItemHead_safe :
    Safe parseItemHead p fun _ p' => After p p' ∧ p.pos < p'.pos := by
  rw [Safe, parseItemHead, wp_bind_of_ok nextNonSpaceRune_eq]
  split
  case isFalse => trivial
  case isTrue h =>
    have hlt : p.pos < p.step.pos := pos_lt_step (h ▸ rfl)
    rw [wp_bind]
    refine parseItemType_safe.mono fun r p₁ ⟨h₁, hp₁⟩ => ?_
    cases r
    case none    => trivial
    case some fc =>
      have hp := hp₁ rfl
      simp only
      rw [wp_bind_of_ok peekNonSpaceRune_eq, wp_bind]
      have h₁ := h₁.trans (.trim p₁)
      refine (parseItemSize_safe h₁ (hp.trans_le (After.trim p₁).pos)).mono fun _ p₂ h₂ => ?_
      rw [wp_bind_of_ok skipComment_eq]
      have h₃ := h₂.trans (.uncomment p₂)
      exact ⟨(After.step p).trans h₃, hlt.trans_le h₃.pos⟩

theorem numericByte_safe (token : Bytes) : Safe (numericByte token) p fun _ p' => p' = p := by
  unfold numericByte
  split
  case h_1 => trivial
  case h_2 =>
    split
    case isTrue  => trivial
    case isFalse => rfl

theorem strictLoop_safe {quoteChar : Nat} {st : StrictState}
    (hr : ∀ r ∈ rs, st.numStart ≤ r.1 ∧ r.1 < s.length) (hs : rs.Pairwise (·.1 < ·.1)) :
    Safe (strictLoop s quoteChar st rs) p fun _ p' => After p p' := by
  induction rs generalizing st
  case nil => trivial
  case cons r rs hi =>
    rcases r with ⟨i, ch⟩
    have ⟨hn, hl⟩ := hr (i, ch) (by simp)
    have ⟨hlt, hs⟩ := List.pairwise_cons.mp hs
    have ht {st' : StrictState} (h : st'.numStart = st.numStart) :
        Safe (strictLoop s quoteChar st' rs) p fun _ p' => After p p' :=
      hi (fun r h' => h ▸ hr r (by simp [h'])) hs
    -- The token between the start of the number and the current character.
    have htok {f : UInt8 → P Item} (hf : ∀ b, Safe (f b) p fun _ p' => After p p') :
        Safe (do f (← numericByte (← sliceFrom (← sliceTo s i) st.numStart))) p
          fun _ p' => After p p' := by
      rw [Safe, wp_bind_of_ok (sliceTo_of_le hl.le),
        wp_bind_of_ok (sliceFrom_of_le (by simp; omega)), wp_bind]
      exact (numericByte_safe _).mono fun b _ h => h ▸ hf b
    rw [strictLoop]
    split
    case isTrue => split_ifs <;> first | exact ht rfl | trivial
    case isFalse =>
      split
      case isTrue =>
        split_ifs
        case pos => exact htok fun _ => ht rfl
        case pos => exact htok fun _ => (Forward.discard_forward _).bind (fun _ => .pure _) p
        case neg => exact ht rfl
      case isFalse =>
        split_ifs
        case pos | pos => exact ht rfl
        case pos => exact (Forward.discard_forward _).bind (fun _ => .pure _) p
        case neg => exact hi (fun r h => ⟨(hlt r h).le, (hr r (by simp [h])).2⟩) hs

theorem Forward.parseASCIIStrict : Forward parseASCIIStrict := by
  intro p
  rw [Safe, Parser.parseASCIIStrict, wp_bind_of_ok (run_get p)]
  exact strictLoop_safe (fun r h => ⟨Nat.zero_le _, range_lt h⟩) (runes_pairwise ..)

theorem verbatimLoop_safe {quoteCh last : Nat} {unclosed : String} {new : Bytes → Item}
    (hr : ∀ r ∈ rs, r.1 < s.length) (hl : last ≤ s.length) :
    Safe (verbatimLoop s quoteCh unclosed new last rs) p fun _ p' => After p p' := by
  induction rs generalizing last
  case nil => trivial
  case cons r rs hi =>
    rcases r with ⟨i, ch⟩
    have hi {last : Nat} (hl : last ≤ s.length) := hi (fun r h => hr r (by simp [h])) hl
    rw [verbatimLoop]
    split_ifs
    case pos => exact hi (hr (i, ch) (by simp)).le
    case pos => exact hi hl
    case neg =>
      rw [Safe, wp_bind_of_ok (sliceTo_of_le hl)]
      exact (Forward.discard_forward _).bind (fun _ => .pure _) p
    case neg => exact hi hl

theorem Forward.parseVerbatim (badQuote unclosed : String) (new : Bytes → Item) :
    Forward (parseVerbatim badQuote unclosed new) := by
  refine .bind .nextNonSpaceRune fun _ => ?_
  split
  case isTrue => exact .pure _
  case isFalse =>
    split
    case isFalse => exact .errf
    case isTrue =>
      intro p
      rw [Safe, wp_bind_of_ok (run_get p)]
      exact verbatimLoop_safe (fun _ => range_lt) (Nat.zero_le _)

theorem quotedRun_safe {buf : Bytes} {ch : UInt8} {k i : Nat} (hk : s.length < k + i)
    (hi : i ≤ s.length) {E : Fault → Prop} :
    Wp (quotedRun s ch k i buf) p (fun r p' => p' = p ∧ i ≤ r.1 ∧ r.1 ≤ s.length) E := by
  induction k generalizing i buf
  case zero => omega
  case succ k ih =>
    rw [quotedRun]
    split
    case isFalse => exact ⟨rfl, le_rfl, hi⟩
    case isTrue h =>
      have next {j : Nat} {buf : Bytes} (hj : i < j) (hl : j ≤ s.length) :
          Wp (quotedRun s ch k j buf) p (fun r p' => p' = p ∧ i ≤ r.1 ∧ r.1 ≤ s.length) E :=
        (ih (by omega) hl).mono fun _ _ h => ⟨h.1, by omega, h.2.2⟩
      rw [wp_bind_of_ok (byteAt_of_lt h)]
      split
      case isTrue => exact ⟨rfl, le_rfl, hi⟩
      case isFalse =>
        split
        case isFalse =>
          rw [wp_bind_of_ok (byteAt_of_lt h)]
          exact next (by omega) (by omega)
        case isTrue h' =>
          rw [wp_bind_of_ok (byteAt_of_lt h'.2)]
          split
          case isTrue =>
            rw [wp_bind_of_ok (byteAt_of_lt h'.2)]
            exact next (by omega) (by omega)
          case isFalse =>
            rw [wp_bind_of_ok (byteAt_of_lt h)]
            exact next (by omega) (by omega)

theorem digitToken_safe (st : Tokens) (tok : Bytes) :
    Wp (digitToken st tok) p (fun _ p' => p' = p) Fault.IsParse := by
  unfold digitToken
  split
  case isTrue h =>
    rw [wp_bind_of_ok (sliceFrom_of_le h.1.le)]
    split
    case h_1 => trivial
    case h_2 => rfl
  case isFalse =>
    split
    case isFalse => trivial
    case isTrue =>
      split
      case h_1 => trivial
      case h_2 => rfl

theorem tokenEnd_bounds {c : UInt8} (h : isDecimal c) :
    0 < tokenEnd (c :: s) ∧ tokenEnd (c :: s) ≤ (c :: s).length := by
  have hc : (ascii " \t\r\n>").contains c = false := by
    by_contra hc
    have hall : (ascii " \t\r\n>").all (fun b => isDecimal b = false) := by decide
    have hd := List.all_eq_true.mp hall c (by simpa using hc)
    exact absurd h (by simpa using hd)
  rw [tokenEnd, indexAny, List.findIdx?_cons, hc]
  cases hi : s.findIdx? ((ascii " \t\r\n>").contains ·)
  case none   => simp
  case some i =>
    have := indexAny_lt hi
    simp
    omega

theorem tokenStep_safe (zeroLength : Bool) (st : Tokens) :
    Wp (tokenStep zeroLength st) p (fun r p' => After p p' ∧ (r.isLeft → p.pos < p'.pos))
      Fault.IsParse := by
  have ht := After.trim p
  have adv {n : Nat} {r : Tokens ⊕ Item} (hn : 0 < n) (h : n ≤ p.trim.data.length) :
      Wp (do discard (forward n); pure r) p.trim
        (fun r p' => After p p' ∧ (r.isLeft → p.pos < p'.pos)) Fault.IsParse := by
    rw [wp_bind_of_ok (discard_forward h)]
    exact ⟨ht.trans (.advance ..), fun _ => ht.pos.trans_lt (pos_lt_advance hn h)⟩
  rw [tokenStep, wp_bind_of_ok skipSpace_eq]
  split
  case isFalse => trivial
  case isTrue hn =>
    rcases hd : p.trim.data with _ | ⟨c, t⟩
    case nil =>
      rw [data_trim hn, List.drop_eq_nil_iff] at hd
      exact absurd (next_isSome.mp hn) (Nat.not_lt.mpr hd)
    case cons =>
      rw [wp_bind_of_ok (run_get _), hd, wp_bind_of_ok byteAt_cons, tokenAt,
        wp_bind_of_ok (run_get _), hd]
      split_ifs
      case pos | neg => exact adv Nat.one_pos (by simp [hd])
      case pos => trivial
      case pos =>
        rw [wp_bind]
        refine (quotedRun_safe (by omega) (by simp)).mono fun ⟨i, buf⟩ p' ⟨hp, h₁, hl⟩ => ?_
        simp only at *
        subst hp
        split
        case isTrue  => trivial
        case isFalse => exact adv (Nat.succ_pos _) (by rw [hd]; omega)
      case pos hdec =>
        have ⟨h₀, hl⟩ := tokenEnd_bounds (s := t) hdec
        rw [wp_bind_of_ok (sliceTo_of_le hl), wp_bind]
        refine (digitToken_safe ..).mono fun st' p' hp => ?_
        subst hp
        exact adv h₀ (hd ▸ hl)
      case neg => trivial

theorem length_data_lt (h : After p p') (hp : p.pos < p'.pos) : p'.data.length < p.data.length := by
  have := p'.inBounds
  simp only [length_data, len, h.input] at *
  omega

theorem parseLocalizedStrTokens_safe (zeroLength : Bool) :
    Wp (parseLocalizedStrTokens zeroLength) p (fun _ p' => After p p') Fault.IsParse := by
  refine iterate_wp (fun p => p.data.length) (I := fun _ p' => After p p') (fun st p' h => ?_)
    (Nat.lt_succ_self _) (.refl p)
  refine (tokenStep_safe zeroLength st).mono fun r p'' ⟨h', hlt⟩ => ?_
  cases r
  case inl => exact ⟨h.trans h', length_data_lt h' (hlt rfl)⟩
  case inr => exact h.trans h'

theorem Forward.parseLocalizedStrTokens (zeroLength : Bool) :
    Forward (parseLocalizedStrTokens zeroLength) :=
  fun _ => (parseLocalizedStrTokens_safe zeroLength).imp (fun _ _ => id) fun _ h => h.isError

theorem Forward.parseLocalizedStr (zeroLength : Bool) : Forward (parseLocalizedStr zeroLength) := by
  intro p
  have ht := parseLocalizedStrTokens zeroLength p
  unfold Safe Wp Parser.parseLocalizedStr
  split
  case h_1 =>
    split
    case isTrue  => trivial
    case isFalse => exact parseVerbatim _ _ _ p
  case h_2 => exact ht

theorem Forward.getItemValueStrings : Forward getItemValueStrings := by
  intro p
  rw [Safe, Parser.getItemValueStrings, wp_bind_of_ok (run_get p)]
  split
  case h_1   => exact .refl p
  case h_2 h =>
    rw [wp_bind_of_ok (sliceTo_of_le (indexByte_lt h).le)]
    exact (Forward.discard_forward _).bind (fun _ => .pure _) p

theorem Forward.parseValues {convert : Bytes → Except Msg α} {new : List α → Item} :
    Forward (parseValues convert new) := by
  intro p
  rw [Safe, Parser.parseValues, wp_bind_of_ok (run_get p)]
  refine getItemValueStrings.bind (fun _ => ?_) p
  split
  case h_1 => exact fun _ => trivial
  case h_2 => exact .pure _

namespace Forward

theorem skipName : Forward skipName := by
  intro p
  rw [Safe, Wp, skipName_eq]
  split
  case h_1 => trivial
  case h_2 => exact .advance ..

theorem skipQuote : Forward skipQuote := by
  refine .bind .peekNonSpaceRune fun _ => ?_
  split
  case isTrue  => exact .discard_forward 1
  case isFalse => exact .pure _

theorem modify {g : Parser → Parser} (h : ∀ p, After p (g p)) : Forward (modify g : P PUnit) :=
  h

theorem parseHSMSHeader : Forward parseHSMSHeader := by
  refine skipName.bind fun _ => skipQuote.bind fun _ => nextRune.bind fun _ => ?_
  split
  case isFalse => exact errf
  case isTrue =>
    refine nextCode.bind fun _ => ?_
    split
    case isTrue => exact errf
    case isFalse =>
      refine .bind (modify ?_) fun _ => nextRune.bind fun _ => ?_
      case refine_1 => exact fun _ => ⟨rfl, rfl, rfl, le_rfl⟩
      case refine_2 =>
        split
        case isFalse => exact errf
        case isTrue =>
          refine nextCode.bind fun _ => .bind (modify ?_) fun _ =>
            skipQuote.bind fun _ => peekNonSpaceRune.bind fun _ => ?_
          case refine_1 => exact fun _ => ⟨rfl, rfl, rfl, le_rfl⟩
          case refine_2 =>
            split
            case isFalse => exact pure _
            case isTrue =>
              refine .bind (modify ?_) fun _ => discard_forward 1
              exact fun _ => ⟨rfl, rfl, rfl, le_rfl⟩

end Forward

theorem newMessage_safe (item : Item) : Safe (newMessage item) p fun _ p' => p' = p := by
  rw [Safe, newMessage, wp_bind_of_ok (run_get p)]
  split
  case h_1 => trivial
  case h_2 => rfl

end Parser
end Sml
