import GoSecs.Sml.Theorems.ExtendBody

open Utf8 Strings Prog List Option

namespace Sml

open Secs2 (Bytes Item FormatCode maxListDepth)
open Strconv (NumErr)

-- Assumed of the library: no float is written as nothing at all or starts with a slash.
def FloatSyntax (floatValue : Nat → Bytes → Except NumErr Ieee754.F64) : Prop :=
  ∀ bitSize v, floatValue bitSize [] ≠ .ok v ∧ ∀ w, floatValue bitSize ('/'.toUInt8 :: w) ≠ .ok v

namespace Parser

variable {t : Bytes} {p p' : Parser} {child : P Item} {d : Nat}
variable {floatValue : Nat → Bytes → Except NumErr Ieee754.F64} {r : Item × Parser}

theorem toFloat_rejects (h : FloatSyntax floatValue) (byteSize : Nat) :
    Rejects (toFloat floatValue byteSize) '/'.toUInt8 where
  nil := by
    intro a ha
    unfold toFloat at ha
    split at ha
    case h_1    => cases ha
    case h_2 hv => exact (h _ _).1 hv
  cons := by
    intro w a ha
    unfold toFloat at ha
    split at ha
    case h_1    => cases ha
    case h_2 hv => exact (h _ _).2 w hv

-- A localized string that is read verbatim, but as tokens if the text went on with `t`.
def Grows (t : Bytes) : ItemCondition := fun itemType hasSize maxSize q =>
  itemType = .localizedStr ∧ q.strict = false ∧ (hasSize && maxSize = 0) = false ∧
    ¬StartsValue q.data ∧ StartsValue (q.data ++ t)

-- Something follows that is no comment.
def Ready (p : Parser) : Prop :=
  ∃ c, p.next = some c ∧ c ≠ '/'.toUInt8

section List

variable {Q : Item → Parser → Prop} {bad : Parser → Prop} {items : List Item}

theorem listLoop_next {k : Nat} (h : iterate .outOfFuel (listStep child) k items p = .ok r) :
    p.next = some '<'.toUInt8 ∨ p.next = some '>'.toUInt8 := by
  by_contra hn
  have ⟨h₁, h₂⟩ := not_or.mp hn
  cases k
  case zero => cases h
  case succ =>
    have ⟨e, he⟩ := listStep_other child items h₁ h₂
    rw [iterate_error he] at h
    cases h

theorem ready_of_next (h : p.next = some '<'.toUInt8 ∨ p.next = some '>'.toUInt8) : Ready p := by
  rcases h with h | h <;> exact ⟨_, h, by decide⟩

theorem listLoop_follows {k k' : Nat}
    (hc : ∀ q q', Ext t q q' → ¬bad q → Follows (Ext t) child child q q' fun _ => Ready)
    (h : Ext t p p') (hv : ¬Visits child bad p) (hk : k ≤ k') :
    Follows (Ext t) (iterate .outOfFuel (listStep child) k items)
      (iterate .outOfFuel (listStep child) k' items) p p' Q := by
  intro item q hq hQ
  induction k generalizing k' p p' items
  case zero => cases hq
  case succ k hi =>
    obtain ⟨k', rfl⟩ : ∃ n, k' = n + 1 := ⟨k' - 1, by omega⟩
    rcases listLoop_next hq with hn | hn
    case inr =>
      rw [iterate_inr (listStep_close hn)] at hq
      rw [iterate_inr (listStep_close (h.next hn))]
      cases hq
      have hs := h.step hn
      exact ⟨_, rfl, hs.data, congrArg (· - 1) h.listDepth, hs.strict, hs.stream, hs.function, hs.wbit⟩
    case inl =>
      have hs := listStep_child child items hn
      have hs' := listStep_child child items (h.next hn)
      rcases hr : child p.trim with e | ⟨item', r⟩
      case error =>
        rw [iterate_error (hs.trans (bind_of_error hr))] at hq
        cases hq
      case ok =>
        rw [iterate_inl (hs.trans (bind_of_ok hr))] at hq
        have ⟨r', hr', hrr⟩ := hc _ _ (h.trim hn) (fun hb => hv (.here hn hb)) item' r hr
          (ready_of_next (listLoop_next hq))
        rw [iterate_inl (hs'.trans (bind_of_ok hr'))]
        exact hi hrr (fun hb => hv (.next hn hr hb)) (by omega) hq

theorem parseList_follows
    (hc : ∀ q q', Ext t q q' → ¬bad q → Follows (Ext t) child child q q' fun _ => Ready)
    (h : Ext t p p')
    (hv : p.listDepth < maxListDepth → ¬Visits child bad { p with listDepth := p.listDepth + 1 }) :
    Follows (Ext t) (parseList child) (parseList child) p p' Q := by
  have hd : Ext t { p with listDepth := p.listDepth + 1 } { p' with listDepth := p'.listDepth + 1 } :=
    ⟨h.data, congrArg (· + 1) h.listDepth, h.strict, h.stream, h.function, h.wbit⟩
  refine follows_bind_of_ok (run_modify ..) (run_modify ..) (follows_get ?_)
  by_cases hl : p.listDepth < maxListDepth
  case neg => exact follows_of_error (congrFun (if_pos (Nat.not_le.mp hl)) _)
  case pos =>
    have hl' : p'.listDepth < maxListDepth := h.listDepth ▸ hl
    simp only [if_neg (Nat.not_lt.mpr (show p.listDepth + 1 ≤ maxListDepth from hl)),
      if_neg (Nat.not_lt.mpr (show p'.listDepth + 1 ≤ maxListDepth from hl'))]
    exact listLoop_follows hc hd (hv hl) (Nat.succ_le_succ hd.length_le)

theorem parseList_viable (h : parseList child p = .ok r) : Viable .list p := by
  rw [parseList, bind_of_ok (run_modify ..), bind_of_ok (run_get _)] at h
  split at h
  case isTrue  => cases h
  case isFalse =>
    have hn := listLoop_next h
    exact hn

end List

section Items

variable {hasSize : Bool} {maxSize : Nat} {fc : FormatCode} {Q : Item → Parser → Prop}

theorem parseItemBody_viable (hf : FloatSyntax floatValue)
    (h : parseItemBody floatValue child hasSize maxSize fc p = .ok r) : Viable fc p := by
  cases fc
  case list => exact parseList_viable h
  case ascii =>
    rw [parseItemBody, bind_of_ok (run_get p)] at h
    split at h
    case isTrue  => exact parseASCIIStrict_viable h
    case isFalse => exact parseASCIIFast_viable h
  case jis8 => exact verbatim_viable h
  case localizedStr => exact parseLocalizedStr_viable h
  case boolean => exact parseValues_viable h toBool_rejects
  case binary => exact parseBinary_viable h
  case float32 | float64 => exact parseValues_viable h (toFloat_rejects hf _)
  case int8 | int16 | int32 | int64 => exact parseValues_viable h (toInt_rejects _ (.inl rfl))
  all_goals exact parseValues_viable h (toUint_rejects _ (.inl rfl))

theorem parseItemBody_follows (hf : FloatSyntax floatValue) (ht : Detached t)
    (hc : ∀ q q', Ext t q q' → ¬ItemReaches floatValue (Grows t) d q →
      Follows (Ext t) (parseItemIn floatValue d) (parseItemIn floatValue d) q q' fun _ => Ready)
    (h : Ext t p p') (hg : ¬Grows t fc hasSize maxSize p)
    (hv : fc = .list → p.listDepth < maxListDepth →
      ¬Visits (parseItemIn floatValue d) (ItemReaches floatValue (Grows t) d)
        { p with listDepth := p.listDepth + 1 }) :
    Follows (Ext t) (parseItemBody floatValue (parseItemIn floatValue d) hasSize maxSize fc)
      (parseItemBody floatValue (parseItemIn floatValue d) hasSize maxSize fc) p p' Q := by
  cases fc
  case list => exact parseList_follows hc h (hv rfl)
  case ascii =>
    refine follows_get ?_
    rw [h.strict]
    split
    case isTrue  => exact parseASCIIStrict_follows h ht
    case isFalse => exact parseASCIIFast_follows h maxSize
  case jis8 => exact parseVerbatim_follows h ht
  case localizedStr =>
    refine parseLocalizedStr_follows h ht fun hs hz hp' => ?_
    by_contra hp
    exact hg ⟨rfl, hs, hz, hp, h.data ▸ hp'⟩
  case boolean => exact parseValues_follows toBool_rejects.nil h
  case binary => exact parseValues_follows (toByte_rejects (.inl rfl)).nil h
  case float32 | float64 => exact parseValues_follows (toFloat_rejects hf _).nil h
  case int8 | int16 | int32 | int64 =>
    exact parseValues_follows (toInt_rejects _ (.inl rfl)).nil h
  all_goals exact parseValues_follows (toUint_rejects _ (.inl rfl)).nil h

theorem parseItemIn_follows (hf : FloatSyntax floatValue) (ht : Detached t) (h : Ext t p p')
    (hr : ¬ItemReaches floatValue (Grows t) d p) :
    Follows (Ext t) (parseItemIn floatValue d) (parseItemIn floatValue d) p p' fun _ => Ready := by
  induction d generalizing p p'
  case zero => exact follows_of_error rfl
  case succ d hi =>
    refine .bind ((parseItemHead_follows h).mono ?_) ?_
    · intro ⟨fc, hasSize, maxSize⟩ q _ ⟨item, u, hb, _⟩
      have ⟨_, _, hb, _⟩ := bind_eq_ok.mp hb
      exact parseItemBody_viable hf hb
    · intro ⟨fc, hasSize, maxSize⟩ q q' hq h
      have hg : ¬Grows t fc hasSize maxSize q := fun hg => hr ⟨_, _, _, _, hq, .inl hg⟩
      refine .bind (parseItemBody_follows hf ht (fun _ _ => hi) h hg ?_) ?_
      · exact fun hfc hl hv => hr ⟨_, _, _, _, hq, .inr ⟨hfc, hl, hv⟩⟩
      · intro item u u' _ h r v hv ⟨c, hc, hs⟩
        rw [bind_of_ok skipComment_eq] at hv ⊢
        cases hv
        refine ⟨_, rfl, h.uncomment (hc ▸ rfl) fun hd => hs ?_⟩
        exact some.inj (hc.symm.trans (next_of_head hd (by decide)))

end Items

section Header

variable {Q : Unit → Parser → Prop} {s : Bytes}

-- The header is all that is left, but goes on with `t` to an item with its first colon behind it.
def NameAhead (t s : Bytes) : Prop :=
  indexByte s '<'.toUInt8 = none ∧ ∃ i j n, indexAny s (ascii "\n.") = some i ∧
    indexByte (s ++ t) '<'.toUInt8 = some j ∧ indexByte ((s ++ t).take j) ':'.toUInt8 = some n ∧ i < n

theorem headerLen_append {i : Nat} (h : headerLen s = some i) (hn : ¬NameAhead t s) :
    headerLen (s ++ t) = some i := by
  obtain ⟨e, he, h⟩ := bind_eq_some_iff.mp h
  rw [headerLen, indexAny_append he, bind_some]
  rcases hj : indexByte s '<'.toUInt8 with _ | j
  case some =>
    have hl := (indexByte_lt hj).le
    rw [hj, bind_some] at h
    rw [indexByte_append hj, bind_some, take_append_of_le_length hl]
    rcases hk : indexByte (s.take j) ':'.toUInt8 with _ | k
    case none => rwa [hk] at h
    case some =>
      have hlk := indexByte_lt hk
      rw [length_take] at hlk
      rw [hk] at h
      simp only at h ⊢
      split at h
      case isFalse hik => rwa [if_neg hik]
      case isTrue hik =>
        obtain ⟨m, hm, hi⟩ := map_eq_some_iff.mp h
        rw [if_pos hik, drop_append_of_le_length (by omega), indexAny_append hm, map_some, hi]
  case none =>
    rw [hj] at h
    cases h
    rcases hj' : indexByte (s ++ t) '<'.toUInt8 with _ | j
    case none => rfl
    case some =>
      rw [bind_some]
      rcases hk : indexByte ((s ++ t).take j) ':'.toUInt8 with _ | k
      case none => rfl
      case some => exact if_neg fun hik => hn ⟨hj, i, j, k, he, hj', hk, hik⟩

theorem nameLen_append {i : Nat} (h : i ≤ s.length) : nameLen (s ++ t) i = nameLen s i := by
  rcases hj : indexByte s '<'.toUInt8 with _ | j
  case some =>
    rw [nameLen, nameLen, indexByte_append hj, hj, take_append_of_le_length (by omega)]
  case none =>
    have hm : min i ((indexByte (s ++ t) '<'.toUInt8).getD i) = i := by
      rw [indexByte_append_of_none hj]
      cases indexByte t '<'.toUInt8
      case none => simp
      case some => simp; omega
    rw [nameLen, nameLen, hm, hj, getD_none, Nat.min_self, take_append_of_le_length h]

theorem skipName_follows (h : Ext t p p') (hn : ¬NameAhead t p.data) :
    Follows (Ext t) skipName skipName p p' Q := by
  intro a q hq _
  rw [skipName_eq] at hq ⊢
  rcases hl : headerLen p.data with _ | i
  case none =>
    rw [hl] at hq
    cases hq
  case some =>
    rw [hl] at hq
    cases hq
    rw [h.data, headerLen_append hl hn]
    refine ⟨_, rfl, ?_⟩
    rw [nameLen_append (headerLen_le hl)]
    exact h.advance (nameLen_le _ _)

theorem skipQuote_follows (h : Ext t p p') (hq : p.next = none → ¬Q () p) :
    Follows (Ext t) skipQuote skipQuote p p' Q := by
  rcases hc : p.next with _ | c
  case none =>
    refine follows_of_ok ?_ fun hQ => absurd hQ (hq hc)
    rw [skipQuote, bind_of_ok peekNonSpaceRune_eq, hc, if_neg (by simp), trim_of_none hc]
    rfl
  case some =>
    refine follows_bind_of_ok (hc ▸ peekNonSpaceRune_eq) (h.next hc ▸ peekNonSpaceRune_eq) ?_
    split
    case isFalse => exact follows_pure _ (h.trim hc)
    case isTrue =>
      exact follows_of_ok (trim_advance hc) fun _ => ⟨_, trim_advance (h.next hc), h.step hc⟩

theorem nextRune_follows {Q : Option UInt8 → Parser → Prop} (h : Ext t p p')
    (hq : ∀ q, ¬Q none q) : Follows (Ext t) nextRune nextRune p p' Q := by
  rcases hd : p.data with _ | ⟨c, s⟩
  case nil  => exact follows_of_ok (hd ▸ nextRune_eq) fun hQ => absurd hQ (hq _)
  case cons =>
    refine follows_of_ok (hd ▸ nextRune_eq) fun _ => ⟨_, h.head hd ▸ nextRune_eq, ?_⟩
    exact h.advance (by simp [hd])

theorem readWaitBit_of_none (h : p.next = none) : readWaitBit p = .ok ((), p) := by
  rw [readWaitBit, bind_of_ok peekNonSpaceRune_eq, h, trim_of_none h]
  rfl

theorem parseHSMSHeader_follows (h : Ext t p p') (hn : ¬NameAhead t p.data) :
    Follows (Ext t) parseHSMSHeader parseHSMSHeader p p' fun _ q => q.next.isSome := by
  refine .bind (skipName_follows h hn) fun _ q q' _ h => ?_
  refine .bind (skipQuote_follows h ?_) fun _ q q' _ h => ?_
  · rintro hn ⟨_, _, hr, _⟩
    rw [bind_of_ok nextRune_eq, if_neg ?_] at hr
    · cases hr
    · intro hS
      cases hn.symm.trans (next_of_head hS (by decide))
  refine .bind (nextRune_follows h ?_) fun c q q' _ h => ?_
  · rintro q ⟨_, _, hr, _⟩
    cases hr
  split
  case isFalse => exact follows_of_error rfl
  case isTrue =>
    refine .bind (nextCode_follows h) fun stream q q' _ h => ?_
    split
    case isTrue => exact follows_of_error rfl
    case isFalse =>
      refine follows_bind_of_ok (run_modify ..) (run_modify ..) ?_
      have h : Ext t { q with stream } { q' with stream } :=
        ⟨h.data, h.listDepth, h.strict, rfl, h.function, h.wbit⟩
      refine .bind (nextRune_follows h ?_) fun c q q' _ h => ?_
      · rintro q ⟨_, _, hr, _⟩
        cases hr
      split
      case isFalse => exact follows_of_error rfl
      case isTrue =>
        refine .bind (nextCode_follows h) fun function q q' _ h => ?_
        refine follows_bind_of_ok (run_modify ..) (run_modify ..) ?_
        have h : Ext t { q with function } { q' with function } :=
          ⟨h.data, h.listDepth, h.strict, h.stream, rfl, h.wbit⟩
        refine .bind (skipQuote_follows h ?_) fun _ q q' _ h => ?_
        · rintro hn ⟨_, _, hr, hs⟩
          cases (readWaitBit_of_none hn).symm.trans hr
          rw [hn] at hs
          cases hs
        rcases hc : q.next with _ | c
        case none => exact follows_of_ok (readWaitBit_of_none hc) fun hs => by rw [hc] at hs; cases hs
        case some =>
          refine follows_bind_of_ok (hc ▸ peekNonSpaceRune_eq) (h.next hc ▸ peekNonSpaceRune_eq) ?_
          split
          case isFalse => exact follows_pure _ (h.trim hc)
          case isTrue =>
            refine follows_bind_of_ok (run_modify ..) (run_modify ..) ?_
            have ht := h.trim hc
            have hw : Ext t { q.trim with wbit := true } { q'.trim with wbit := true } :=
              ⟨ht.data, ht.listDepth, ht.strict, ht.stream, ht.function, rfl⟩
            have hl : 1 ≤ q.trim.data.length := by
              obtain ⟨s, hs⟩ := trim_cons hc
              simp [hs]
            exact follows_of_ok (discard_forward hl) fun _ =>
              ⟨_, discard_forward (hl.trans ht.length_le), hw.advance hl⟩

end Header

section Messages

variable {q q' : Parser} {ms : List Hsms.DataMessage} {bl : Bytes}

theorem parseItem_next (h : parseItem floatValue p = .ok r) :
    p.next = some '<'.toUInt8 := by
  have ⟨_, _, hh, _⟩ := bind_eq_ok.mp h
  rw [parseItemHead_eq] at hh
  split at hh
  case isTrue hn => exact hn
  case isFalse   => cases hh

theorem parseText_next (h : parseText floatValue p = .ok r) :
    p.uncomment.next = some '.'.toUInt8 ∨ p.uncomment.next = some '<'.toUInt8 := by
  rw [parseText, bind_of_ok skipComment_eq, bind_of_ok peekNonSpaceRune_eq] at h
  split at h
  case isTrue hn => exact .inl hn
  case isFalse   => exact .inr (next_trim _ ▸ parseItem_next h)

theorem parseText_follows (hf : FloatSyntax floatValue) (ht : Detached t) (h : Ext t p p')
    (hr : p.uncomment.next ≠ some '.'.toUInt8 →
      ¬ItemReaches floatValue (Grows t) (maxListDepth + 1) p.uncomment.trim) :
    Follows (Ext t) (parseText floatValue) (parseText floatValue) p p' fun _ => Ready := by
  intro item q hq hQ
  -- Neither a dot nor an item opens a comment.
  have ⟨c, hn, hs⟩ : Ready p.uncomment := by
    rcases parseText_next hq with h | h <;> exact ⟨_, h, by decide⟩
  have hu : Ext t p.uncomment p'.uncomment := by
    refine h.uncomment (hn ▸ rfl) fun hd => hs ?_
    exact some.inj (hn.symm.trans (next_of_head hd (by decide)))
  revert hq hQ
  revert item q
  refine follows_bind_of_ok skipComment_eq skipComment_eq ?_
  refine follows_bind_of_ok (hn ▸ peekNonSpaceRune_eq) (hu.next hn ▸ peekNonSpaceRune_eq) ?_
  split
  case isTrue => exact follows_pure _ (hu.trim hn)
  case isFalse hd => exact parseItemIn_follows hf ht (hu.trim hn) (hr (hn ▸ hd))

theorem parseMsg_eq :
    parseMsg floatValue false p =
      if p.reset.uncomment.next = none then .ok (none, p.reset.uncomment.trim)
      else parseMsgText floatValue false p.reset.uncomment.trim := by
  rw [parseMsg, bind_of_ok (run_modify ..), bind_of_ok skipComment_eq, bind_of_ok peekNonSpaceRune_eq]
  split <;> rfl

theorem newMessage_follows {Q : Option Hsms.DataMessage → Parser → Prop} (h : Ext t p p')
    (item : Item) : Follows (Ext t) (newMessage item) (newMessage item) p p' Q := by
  refine follows_get ?_
  rw [h.stream, h.function, h.wbit]
  split
  case h_1 => exact follows_of_error rfl
  case h_2 => exact follows_pure _ h

theorem parseMsgText_follows (hf : FloatSyntax floatValue) (ht : Detached t) (h : Ext t p p')
    (hn : ¬NameAhead t p.data)
    (hr : ∀ q, parseHSMSHeader p = .ok ((), q) → q.uncomment.next ≠ some '.'.toUInt8 →
      ¬ItemReaches floatValue (Grows t) (maxListDepth + 1) q.uncomment.trim) :
    Follows (Ext t) (parseMsgText floatValue false) (parseMsgText floatValue false) p p'
      fun _ _ => True := by
  refine .bind ((parseHSMSHeader_follows h hn).mono ?_) fun _ q q' hq h => ?_
  · rintro _ u _ ⟨_, _, hu, _⟩
    obtain ⟨_, _, htext, _⟩ := bind_eq_ok.mp hu
    by_contra hnone
    have hnone : u.next = none := by simpa using hnone
    have hn := parseText_next htext
    rw [uncomment_of_none hnone, hnone] at hn
    rcases hn with hn | hn <;> cases hn
  refine .bind ((parseText_follows hf ht h (hr q hq)).mono ?_) fun item q q' _ h => ?_
  · rintro item u _ ⟨_, _, hd, _⟩
    rw [endMessage, bind_of_ok nextNonSpaceRune_eq] at hd
    split at hd
    case isTrue hdot => exact ⟨_, hdot, by decide⟩
    case isFalse => cases hd
  refine rune_follows nextNonSpaceRune_eq step_of_none h (by rintro _ _ ⟨⟩) fun c hc => ?_
  split
  case isFalse => exact follows_of_error rfl
  case isTrue  => exact newMessage_follows (h.step hc) item

-- A message that starts here is read in the same way when the text goes on with `t`.
structure Undisturbed (floatValue : Nat → Bytes → Except NumErr Ieee754.F64) (t : Bytes)
    (p : Parser) : Prop where
  comment : commentLen p.trim.data = 0 → commentLen (p.trim.data ++ t) = 0
  name    : ¬NameAhead t p.uncomment.trim.data
  items   : ¬MsgReaches floatValue (Grows t) p

theorem data_reset (p : Parser) : p.reset.data = p.data :=
  rfl

theorem next_reset (p : Parser) : p.reset.next = p.next :=
  rfl

theorem trim_reset (p : Parser) : p.reset.trim = p.trim.reset := by
  unfold trim
  rw [next_reset]
  split <;> rfl

theorem uncomment_reset (p : Parser) : p.reset.uncomment = p.uncomment.reset := by
  rw [uncomment, trim_reset]
  rfl

theorem Ext.reset (h : Ext t p p') : Ext t p.reset p'.reset :=
  ⟨h.data, h.listDepth, h.strict, rfl, rfl, rfl⟩

theorem Ext.of_data (hd : p'.data = p.data) (hl : p'.listDepth = p.listDepth)
    (hs : p'.strict = p.strict) : Ext [] p.reset p'.reset where
  data := hd.trans (append_nil _).symm
  listDepth := hl
  strict := hs
  stream := rfl
  function := rfl
  wbit := rfl

def Starts (t : Bytes) (p p' : Parser) : Prop :=
  ∀ c, p.reset.uncomment.next = some c →
    p'.reset.uncomment.next = some c ∧ Ext t p.reset.uncomment.trim p'.reset.uncomment.trim

theorem Ext.starts (h : Ext t p p')
    (hc : commentLen p.trim.data = 0 → commentLen (p.trim.data ++ t) = 0) : Starts t p p' := by
  intro c hn
  rw [uncomment_reset] at hn
  have hsome : p.next.isSome := by
    by_contra hnone
    have hnone : p.next = none := by simpa using hnone
    have hn : p.uncomment.next = some c := hn
    rw [uncomment_of_none hnone, hnone] at hn
    cases hn
  have ⟨b, hb⟩ := isSome_iff_exists.mp hsome
  have ht := h.trim hb
  have hl : commentLen p'.trim.data = commentLen p.trim.data := by
    rw [ht.data]
    by_cases h₀ : commentLen p.trim.data = 0
    case pos => rw [hc h₀, h₀]
    case neg => exact commentLen_append h₀
  have hu : Ext t p.uncomment p'.uncomment := by
    rw [Parser.uncomment, Parser.uncomment, hl]
    exact ht.advance (commentLen_le _)
  rw [uncomment_reset, uncomment_reset]
  exact ⟨hu.reset.next hn, hu.reset.trim hn⟩

theorem parseMsg_follows (hf : FloatSyntax floatValue) (ht : Detached t) (h : Starts t p p')
    (hn : ¬NameAhead t p.uncomment.trim.data) (hr : ¬MsgReaches floatValue (Grows t) p)
    {m : Hsms.DataMessage} (hm : parseMsg floatValue false p = .ok (some m, q)) :
    ∃ q', parseMsg floatValue false p' = .ok (some m, q') ∧ Ext t q q' := by
  rw [parseMsg_eq] at hm ⊢
  split at hm
  case isTrue => cases hm
  case isFalse hs =>
    have ⟨c, hc⟩ := ne_none_iff_exists'.mp hs
    have ⟨hc', hext⟩ := h c hc
    rw [← data_reset, ← trim_reset, ← uncomment_reset] at hn
    rw [if_neg (by rw [hc']; exact nofun)]
    refine parseMsgText_follows hf ht hext hn ?_ _ q hm trivial
    exact fun q hq hd hi => hr ⟨q, ⟨hs, hq⟩, hd, hi⟩

inductive Run (floatValue : Nat → Bytes → Except NumErr Ieee754.F64) :
    Parser → List Hsms.DataMessage → Parser → Prop
  | nil {p : Parser} : Run floatValue p [] p
  | cons {p p' q : Parser} {m : Hsms.DataMessage} {ms : List Hsms.DataMessage} :
    parseMsg floatValue false p = .ok (some m, p') → Run floatValue p' ms q →
    Run floatValue p (m :: ms) q

theorem Run.append {ns : List Hsms.DataMessage} {r : Parser} (h : Run floatValue p ms q)
    (h' : Run floatValue q ns r) : Run floatValue p (ms ++ ns) r := by
  induction h
  case nil => exact h'
  case cons hm _ hi => exact .cons hm (hi h')

theorem Run.boundary (h : Run floatValue p ms q) :
    Boundary floatValue p q := by
  induction h
  case nil => exact .refl
  case cons hm _ hi => exact .next hm hi

section Loop

variable {k : Nat} {ms acc res : List Hsms.DataMessage}

theorem messageLoop_complete (h : Run floatValue p ms q) {r : Parser}
    (hq : parseMsg floatValue false q = .ok (none, r)) (hk : p.data.length < k) :
    iterate .outOfFuel (messageStep floatValue) k acc p = .ok (acc ++ ms, r) := by
  induction h generalizing k acc <;> obtain ⟨k, rfl⟩ : ∃ n, k = n + 1 := ⟨k - 1, by omega⟩
  case nil => rw [iterate_inr (bind_of_ok hq), append_nil]
  case cons p p' q m ms hm _ hi =>
    have ⟨ha, hlt⟩ := parseMsg_panicsIf.ok hm
    have := length_data_lt ha (hlt rfl)
    rw [iterate_inl (bind_of_ok hm), hi hq (by omega)]
    simp

theorem messageLoop_sound {r : Parser}
    (h : iterate .outOfFuel (messageStep floatValue) k acc p = .ok (res, r)) :
    ∃ ms q, res = acc ++ ms ∧ Run floatValue p ms q ∧
      parseMsg floatValue false q = .ok (none, r) := by
  induction k generalizing p acc
  case zero => cases h
  case succ k hi =>
    rcases hm : parseMsg floatValue false p with e | ⟨_ | m, p'⟩
    case error =>
      rw [iterate_error (bind_of_error hm)] at h
      cases h
    case ok.none =>
      rw [iterate_inr (bind_of_ok hm)] at h
      cases h
      exact ⟨[], p, by simp, .nil, hm⟩
    case ok.some =>
      rw [iterate_inl (bind_of_ok hm)] at h
      have ⟨ms, q, hres, hr, hq⟩ := hi h
      exact ⟨m :: ms, q, by simp [hres], .cons hm hr, hq⟩

end Loop

theorem parse_iff {input : Bytes} :
    p.parse floatValue input = .ok ms ↔
      ∃ q r, Run floatValue (p.initInput input) ms q ∧ parseMsg floatValue false q = .ok (none, r) := by
  constructor
  case mp =>
    intro h
    rcases hl : parseAll floatValue (p.initInput input) with e | ⟨res, r⟩
    all_goals
      rw [parse, hl] at h
      cases h
    have ⟨ms, q, hres, hr, hq⟩ := messageLoop_sound hl
    rw [nil_append] at hres
    exact ⟨q, r, hres ▸ hr, hq⟩
  case mpr =>
    intro ⟨q, r, hr, hq⟩
    have hl : parseAll floatValue (p.initInput input) = .ok (ms, r) :=
      messageLoop_complete hr hq (Nat.lt_succ_self _)
    rw [parse, hl, result]

theorem run_follows (hf : FloatSyntax floatValue) (ht : Detached t)
    (h : Run floatValue p ms q) (hext : Ext t p p')
    (hu : ∀ r, Boundary floatValue p r → r.uncomment.next ≠ none → Undisturbed floatValue t r) :
    ∃ q', Run floatValue p' ms q' ∧ Ext t q q' := by
  induction h generalizing p'
  case nil => exact ⟨p', .nil, hext⟩
  case cons p p₁ q m ms hm _ hi =>
    have hs : p.uncomment.next ≠ none := by
      intro hn
      rw [parseMsg_eq, uncomment_reset, next_reset, if_pos hn] at hm
      cases hm
    have hu₀ := hu p .refl hs
    have ⟨p₁', hm', h₁⟩ := parseMsg_follows hf ht (hext.starts hu₀.comment) hu₀.name hu₀.items hm
    have ⟨q', hr, hq⟩ := hi h₁ fun r hb => hu r (.next hm hb)
    exact ⟨q', .cons hm' hr, hq⟩

theorem newMessage_some {item : Item} {r : Option Hsms.DataMessage}
    (h : newMessage item p = .ok (r, q)) : ∃ msg, r = some msg ∧
      Hsms.newDataMessage p.stream p.function p.wbit 0 ⟨0, 0, 0, 0⟩ (some item) = .ok msg := by
  rw [newMessage, bind_of_ok (run_get p)] at h
  rcases hm : Hsms.newDataMessage p.stream p.function p.wbit 0 ⟨0, 0, 0, 0⟩ (some item) with e | m
  all_goals
    rw [hm] at h
    cases h
  exact ⟨m, rfl, rfl⟩

theorem parseMsg_none (floatValue : Nat → Bytes → Except NumErr Ieee754.F64) :
    (∃ r, parseMsg floatValue false p = .ok (none, r)) ↔ p.uncomment.next = none := by
  rw [parseMsg_eq, uncomment_reset, next_reset]
  constructor
  case mpr =>
    intro h
    exact ⟨_, if_pos h⟩
  case mp =>
    intro ⟨r, h⟩
    by_contra hn
    rw [if_neg hn] at h
    have ⟨_, _, _, h⟩ := bind_eq_ok.mp h
    have ⟨_, _, _, h⟩ := bind_eq_ok.mp h
    have ⟨_, _, _, h⟩ := bind_eq_ok.mp h
    split at h
    case isFalse => cases h
    case isTrue  => exact nomatch newMessage_some h

theorem next_of_blank (hb : Blank bl) (hd : p'.data = bl ++ p.data) :
    p'.next = p.next ∧ (p.next.isSome → p'.trim.data = p.trim.data) := by
  rcases hn : p.next with _ | c
  case none =>
    have hp : Blank p.data := fun c hc => blank_of_none hn hc
    refine ⟨?_, nofun⟩
    rcases hn' : p'.next with _ | c
    case none => rfl
    case some =>
      have ⟨_, _, _, _, hc⟩ := split_of_next hn'
      have hm := mem_of_next hn'
      rw [hd, mem_append] at hm
      exact absurd (hm.elim (hb c) (hp c)) (Bool.eq_false_iff.mp hc)
  case some =>
    have ⟨bl', s, hs, hb', hc⟩ := split_of_next hn
    have hs' : p'.data = (bl ++ bl') ++ c :: s := by rw [hd, hs, append_assoc]
    have hbb : Blank (bl ++ bl') := fun c hc => (mem_append.mp hc).elim (hb c) (hb' c)
    refine ⟨next_of_split hs' hbb hc, fun _ => ?_⟩
    rw [trim_of_split hs' hbb hc, trim_of_split hs hb' hc, data_advance, data_advance, hs', hs,
      drop_left, drop_left]

theorem trim_trim (p : Parser) : p.trim.trim = p.trim := by
  rcases h : p.next with _ | c
  case none => rw [trim_of_none h, trim_of_none h]
  case some =>
    have ⟨s, hs⟩ := trim_cons h
    have ⟨_, _, _, _, hb⟩ := split_of_next h
    have hs : p.trim.data = [] ++ c :: s := hs
    exact (trim_of_split hs nofun hb).trans (advance_zero _)

def SameNext (p p' : Parser) : Prop :=
  p'.uncomment.next = p.uncomment.next ∧
    (p.uncomment.next.isSome → p'.uncomment.trim.data = p.uncomment.trim.data)

theorem sameNext_of_blank (hb : Blank bl) (hd : p'.data = bl ++ p.data) :
    SameNext p p' := by
  have ⟨hn, ht⟩ := next_of_blank hb hd
  rcases hp : p.next with _ | c
  case none =>
    rw [SameNext, uncomment_of_none hp, uncomment_of_none (hn.trans hp), hn, hp]
    exact ⟨rfl, nofun⟩
  case some =>
    have ht := ht (hp ▸ rfl)
    refine next_of_blank (show Blank [] from nofun) ?_
    rw [uncomment, uncomment, data_advance, data_advance, ht]
    rfl

theorem Starts.of_sameNext (h : SameNext p p') (hl : p'.listDepth = p.listDepth)
    (hs : p'.strict = p.strict) : Starts [] p p' := by
  intro c hc
  rw [uncomment_reset, next_reset] at hc
  rw [uncomment_reset, uncomment_reset, next_reset, trim_reset, trim_reset, h.1]
  have ha := (After.uncomment p).trans (.trim _)
  have ha' := (After.uncomment p').trans (.trim _)
  refine ⟨hc, .of_data (h.2 (hc ▸ rfl)) ?_ ?_⟩
  · exact ha'.listDepth.trans (hl.trans ha.listDepth.symm)
  · exact ha'.strict.trans (hs.trans ha.strict.symm)

theorem sameNext_behind {b : Bytes} {pb : Parser} (h : Ext ('\n'.toUInt8 :: b) q q')
    (hq : q.uncomment.next = none) (hb : pb.data = b)
    (hc : q.next ≠ none → commentLen (b.drop (indentOf b)) = 0) : SameNext pb q' := by
  have blank {r : Parser} (hr : r.next = none) : Blank (r.data ++ ['\n'.toUInt8]) := by
    intro c hc
    rcases mem_append.mp hc with hc | hc
    case inl => exact blank_of_none hr hc
    case inr => exact mem_singleton.mp hc ▸ by decide
  rcases hn : q.next with _ | c
  case none =>
    exact sameNext_of_blank (blank hn) (by rw [h.data, hb, append_assoc]; rfl)
  case some =>
    have ht := h.trim hn
    have h₀ : commentLen q.trim.data ≠ 0 := by
      intro h₀
      rw [uncomment, h₀, advance_zero, next_trim, hn] at hq
      cases hq
    have hu : Ext ('\n'.toUInt8 :: b) q.uncomment q'.uncomment := by
      rw [uncomment, uncomment, ht.data, commentLen_append h₀]
      exact ht.advance (commentLen_le _)
    have hd : q'.uncomment.data = (q.uncomment.data ++ ['\n'.toUInt8]) ++ pb.data := by
      rw [hu.data, hb, append_assoc]
      rfl
    obtain ⟨hnext, htrim⟩ := next_of_blank (blank hq) hd
    rcases hp : pb.next with _ | c'
    case none =>
      rw [SameNext, uncomment_of_none hp, hnext, hp]
      exact ⟨rfl, by simp⟩
    case some =>
      have hup : pb.uncomment = pb.trim := by
        rw [uncomment, data_trim (hp ▸ rfl), hb, hc (hn ▸ by simp), advance_zero]
      rw [SameNext, hup, next_trim, trim_trim]
      exact ⟨hnext, htrim⟩

theorem Visits.exists_bad {C : Parser → Prop} (h : Visits child C p) : ∃ q, C q := by
  induction h
  case here hC => exact ⟨_, hC⟩
  case next hi => exact hi

theorem ItemReaches.exists {B : ItemCondition} (h : ItemReaches floatValue B d p) :
    ∃ fc hasSize maxSize q, B fc hasSize maxSize q := by
  induction d generalizing p
  case zero => exact h.elim
  case succ d hi =>
    have ⟨fc, hasSize, maxSize, q, _, h⟩ := h
    rcases h with h | ⟨_, _, hv⟩
    case inl => exact ⟨fc, hasSize, maxSize, q, h⟩
    case inr =>
      have ⟨q, hq⟩ := hv.exists_bad
      exact hi hq

theorem undisturbed_nil (p : Parser) : Undisturbed floatValue [] p where
  comment := by rw [append_nil]; exact id
  name := by
    intro ⟨hn, _, _, _, _, hj, _⟩
    rw [append_nil, hn] at hj
    cases hj
  items := by
    intro ⟨_, _, _, hi⟩
    have ⟨_, _, _, _, _, _, _, h, h'⟩ := hi.exists
    rw [append_nil] at h'
    exact h h'

theorem detached_nil : Detached [] := by
  intro c hc
  cases hc

theorem run_of_starts (hf : FloatSyntax floatValue)
    (h : Run floatValue p ms q) (hq : q.uncomment.next = none) (hs : Starts [] p p')
    (hn : SameNext p p') : ∃ q', Run floatValue p' ms q' ∧ q'.uncomment.next = none := by
  cases h
  case nil => exact ⟨p', .nil, hn.1.trans hq⟩
  case cons p₁ m ms hm hr =>
    have hu : Undisturbed floatValue [] p := undisturbed_nil p
    have ⟨p₁', hm', h₁⟩ := parseMsg_follows hf detached_nil hs hu.name hu.items hm
    have ⟨q', hr', hqq⟩ := run_follows hf detached_nil hr h₁ fun r _ _ => undisturbed_nil r
    have hd : q'.data = [] ++ q.data := by rw [hqq.data, append_nil, nil_append]
    exact ⟨q', .cons hm' hr', (sameNext_of_blank (show Blank [] from nofun) hd).1.trans hq⟩

-- No message of `a` is read in another way because of `b`, and no comment behind `a` takes the
-- place of one of `b`.
structure Independent (floatValue : Nat → Bytes → Except NumErr Ieee754.F64) (p : Parser)
    (a b : Bytes) : Prop where
  messages : ∀ q, Boundary floatValue (p.initInput a) q → q.uncomment.next ≠ none →
    Undisturbed floatValue ('\n'.toUInt8 :: b) q
  tail : ∀ q, Boundary floatValue (p.initInput a) q → q.uncomment.next = none →
    q.next ≠ none → commentLen (b.drop (indentOf b)) = 0

end Messages

end Parser

section Append

variable {floatValue : Nat → Bytes → Except NumErr Ieee754.F64} {p : Parser} {a b : Bytes}
variable {ms ns : List Hsms.DataMessage}

theorem parse_append (hf : FloatSyntax floatValue) (ha : p.parse floatValue a = .ok ms)
    (hb : p.parse floatValue b = .ok ns) (hi : Parser.Independent floatValue p a b) :
    p.parse floatValue (a ++ '\n'.toUInt8 :: b) = .ok (ms ++ ns) := by
  have ⟨q, r, hrun, hq⟩ := Parser.parse_iff.mp ha
  have ⟨qb, rb, hrunb, hqb⟩ := Parser.parse_iff.mp hb
  have hext : Parser.Ext ('\n'.toUInt8 :: b) (p.initInput a) (p.initInput (a ++ '\n'.toUInt8 :: b)) :=
    ⟨rfl, rfl, rfl, rfl, rfl, rfl⟩
  have hdet : Detached ('\n'.toUInt8 :: b) := by
    intro c hc
    cases hc
    decide
  have ⟨q', hrun', hqq⟩ := Parser.run_follows hf hdet hrun hext hi.messages
  have hend := (Parser.parseMsg_none floatValue).mp ⟨r, hq⟩
  have hafter := hrun.boundary.after
  have hsame : Parser.SameNext (p.initInput b) q' :=
    Parser.sameNext_behind hqq hend rfl (hi.tail q hrun.boundary hend)
  have hstart : Parser.Starts [] (p.initInput b) q' :=
    .of_sameNext hsame (hqq.listDepth.trans hafter.listDepth) (hqq.strict.trans hafter.strict)
  have hendb := (Parser.parseMsg_none floatValue).mp ⟨rb, hqb⟩
  have ⟨qb', hrunb', hendb'⟩ := Parser.run_of_starts hf hrunb hendb hstart hsame
  have ⟨rb', hqb'⟩ := (Parser.parseMsg_none floatValue).mpr hendb'
  exact Parser.parse_iff.mpr ⟨qb', rb', hrun'.append hrunb', hqb'⟩

end Append

section Examples

def noFloat : Nat → Bytes → Except NumErr Ieee754.F64 :=
  fun _ _ => .error .errSyntax

theorem noFloat_syntax : FloatSyntax noFloat :=
  fun _ _ => ⟨nofun, fun _ => nofun⟩

def Holds {α : Type} (P : α × Parser → Bool) : Except Fault (α × Parser) → Bool
  | .ok r    => P r
  | .error _ => true

variable {α : Type}

theorem Holds.ok {P : α × Parser → Bool} {r : Except Fault (α × Parser)} {a : α × Parser}
    (h : Holds P r) (hr : r = .ok a) : P a := by
  subst hr
  exact h

theorem exists_of_isOk {r : Except Fault α} (h : r.isOk = true) : ∃ a, r = .ok a := by
  cases r
  case error => cases h
  case ok a  => exact ⟨a, rfl⟩

-- A localized string comes next, and its value is made of tokens.
def tokensAhead (q : Parser) : Bool :=
  match Parser.parseItemHead q.uncomment.trim with
  | .ok ((itemType, _, _), q') =>
    itemType = .localizedStr && (Parser.parseLocalizedStrTokens false q').isOk
  | .error _ => false

def commented : Bytes :=
  ascii "// c\nx:S1F1\n<W \"a\">. /* d */"

def named : Bytes :=
  ascii "y:S1F3\n<L <A \"b\">>."

theorem independent_named : Parser.Independent noFloat (newParser false) commented named := by
  have hbegin : Parser.Undisturbed noFloat ('\n'.toUInt8 :: named)
      ((newParser false).initInput commented) := by
    refine ⟨by decide +kernel, fun h => absurd h.1 (by decide +kernel), ?_⟩
    intro ⟨q, ⟨_, hq⟩, _, itemType, hasSize, maxSize, q', hh, h⟩
    have hv := Holds.ok (P := fun r => tokensAhead r.2) (by decide +kernel) hq
    change tokensAhead q = true at hv
    simp only [tokensAhead, hh, Bool.and_eq_true, decide_eq_true_eq] at hv
    rcases h with ⟨_, _, _, hn, _⟩ | ⟨hl, _⟩
    · exact hn (Parser.tokens_ok_iff.mp (exists_of_isOk hv.2))
    · cases hv.1.symm.trans hl
  -- The message is followed by a comment only.
  have hlast {m : Hsms.DataMessage} {q : Parser} (h : Parser.parseMsg noFloat false
      ((newParser false).initInput commented) = .ok (some m, q)) : q.uncomment.next = none := by
    have := Holds.ok (P := fun r => r.2.uncomment.next = none) (by decide +kernel) h
    exact of_decide_eq_true this
  constructor
  case messages =>
    intro q hb hn
    cases hb
    case refl => exact hbegin
    case next hm hb =>
      have hq := hlast hm
      cases hb
      case refl => exact absurd hq hn
      case next hm' _ =>
        have ⟨_, h⟩ := (Parser.parseMsg_none noFloat).mpr hq
        cases h.symm.trans hm'
  case tail => exact fun _ _ _ _ => by decide +kernel

theorem parse_append_named :
    ∃ ms ns, parse noFloat commented = .ok ms ∧ parse noFloat named = .ok ns ∧
      parse noFloat (commented ++ '\n'.toUInt8 :: named) = .ok (ms ++ ns) := by
  have ⟨ms, hms⟩ : ∃ ms, parse noFloat commented = .ok ms := exists_of_isOk (by decide +kernel)
  have ⟨ns, hns⟩ : ∃ ns, parse noFloat named = .ok ns := exists_of_isOk (by decide +kernel)
  exact ⟨ms, ns, hms, hns, parse_append noFloat_syntax hms hns independent_named⟩

-- The first header is taken to go on to the name of the second message, and one of them gets lost.
theorem parse_append_name :
    ∃ ms ns, parse noFloat (ascii "S1F1.") = .ok ms ∧ parse noFloat (ascii "x:S1F1\n<L>.") = .ok ns ∧
      parse noFloat (ascii "S1F1." ++ '\n'.toUInt8 :: ascii "x:S1F1\n<L>.") ≠ .ok (ms ++ ns) := by
  have count {input : Bytes} (h : (parse noFloat input).toOption.map List.length = some 1) :
      ∃ m, parse noFloat input = .ok [m] := by
    rcases hp : parse noFloat input with e | ms
    all_goals rw [hp] at h
    case error => cases h
    case ok =>
      have ⟨m, hm⟩ := List.length_eq_one_iff.mp (Option.some.inj h)
      exact ⟨m, by rw [hm]⟩
  have ⟨m, hm⟩ : ∃ m, parse noFloat (ascii "S1F1.") = .ok [m] := count (by decide +kernel)
  have ⟨n, hn⟩ : ∃ n, parse noFloat (ascii "x:S1F1\n<L>.") = .ok [n] := count (by decide +kernel)
  have ⟨l, hl⟩ : ∃ l, parse noFloat (ascii "S1F1." ++ '\n'.toUInt8 :: ascii "x:S1F1\n<L>.") = .ok [l] :=
    count (by decide +kernel)
  refine ⟨[m], [n], hm, hn, fun h => ?_⟩
  cases hl.symm.trans h

end Examples

end Sml
