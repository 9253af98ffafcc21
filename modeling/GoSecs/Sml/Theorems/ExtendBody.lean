import GoSecs.Sml.Theorems.Extend

open Utf8 Strings Prog List

namespace Sml

open Secs2 (Bytes Item FormatCode maxListDepth)

namespace Parser

variable {t s : Bytes} {p p' : Parser} {c : UInt8} {item : Item} {r : Item × Parser} {q : Parser}

section Values

variable {α : Type} {convert : Bytes → Except Msg α} {new : List α → Item}

-- The conversions fail on nothing at all, and so the values of an item are closed.
theorem parseValues_iff (h₀ : ∀ a, convert [] ≠ .ok a) :
    parseValues convert new p = .ok (item, p') ↔
      ∃ i items, indexByte p.data '>'.toUInt8 = some i ∧
        (fields (p.data.take i)).mapM convert = .ok items ∧
        item = new items ∧ p' = p.advance (i + 1) := by
  rcases hi : indexByte p.data '>'.toUInt8 with _ | i
  case none =>
    have hg : getItemValueStrings p = .ok ([[]], p) := by
      rw [getItemValueStrings, bind_of_ok (run_get p), hi]
      rfl
    obtain ⟨m, hm⟩ : ∃ m, [([] : Bytes)].mapM convert = .error m := by
      rcases hc : convert [] with m | a
      case ok    => exact absurd hc (h₀ a)
      case error => exact ⟨m, by rw [mapM_cons, hc]; rfl⟩
    rw [parseValues, bind_of_ok (run_get p), bind_of_ok hg, hm]
    refine iff_of_false (by simp) ?_
    rintro ⟨_, _, h, _⟩
    cases h
  case some =>
    have hl := indexByte_lt hi
    have hg : getItemValueStrings p = .ok (fields (p.data.take i), p.advance (i + 1)) := by
      rw [getItemValueStrings, bind_of_ok (run_get p), hi]
      refine (bind_of_ok (sliceTo_of_le hl.le)).trans ?_
      exact bind_of_ok (discard_forward hl)
    rw [parseValues, bind_of_ok (run_get p), bind_of_ok hg]
    rcases hm : (fields (p.data.take i)).mapM convert with m | items
    case error =>
      refine iff_of_false (by simp) ?_
      rintro ⟨_, _, h, h', _⟩
      cases h
      cases hm.symm.trans h'
    case ok =>
      constructor
      · intro h
        cases h
        exact ⟨i, items, rfl, hm, rfl, rfl⟩
      · rintro ⟨_, _, h, h', rfl, rfl⟩
        cases h
        cases hm.symm.trans h'
        rfl

theorem parseValues_follows (h₀ : ∀ a, convert [] ≠ .ok a) {Q : Item → Parser → Prop}
    (h : Ext t p p') : Follows (Ext t) (parseValues convert new) (parseValues convert new) p p' Q := by
  intro item q hq _
  have ⟨i, items, hi, hm, hitem, hq⟩ := (parseValues_iff h₀).mp hq
  have hl := indexByte_lt hi
  refine ⟨p'.advance (i + 1), (parseValues_iff h₀).mpr ⟨i, items, ?_, ?_, hitem, rfl⟩, ?_⟩
  · rw [h.data, indexByte_append hi]
  · rw [h.data, take_append_of_le_length hl.le, hm]
  · exact hq ▸ h.advance hl

theorem mem_of_indexByte {i : Nat} (h : indexByte s c = some i) : c ∈ s := by
  have ⟨hl, hc, _⟩ := findIdx?_eq_some_iff_getElem.mp h
  exact beq_iff_eq.mp hc ▸ getElem_mem hl

theorem parseValues_closed (h₀ : ∀ a, convert [] ≠ .ok a)
    (h : parseValues convert new p = .ok r) : '>'.toUInt8 ∈ p.data := by
  have ⟨i, _, hi, _⟩ := (parseValues_iff h₀).mp h
  exact mem_of_indexByte hi

theorem parseValues_head (h₀ : ∀ a, convert [] ≠ .ok a)
    (h : parseValues convert new p = .ok r) (hc : c < 0x80) (hs : isSpace c.toNat = false)
    (hg : c ≠ '>'.toUInt8) (hr : ∀ w a, convert (c :: w) ≠ .ok a) : p.data.head? ≠ some c := by
  intro hd
  obtain ⟨s, hd⟩ := head?_eq_some_iff.mp hd
  obtain ⟨i, items, hi, hm, _⟩ := (parseValues_iff h₀).mp h
  rw [hd, indexByte, findIdx?_cons, if_neg (by simpa using hg)] at hi
  obtain ⟨j, _, hj⟩ := Option.map_eq_some_iff.mp hi
  subst hj
  rw [hd, take_succ_cons] at hm
  obtain ⟨v, l, hf⟩ := fields_head (w := s.take j) hc hs
  rw [hf, mapM_cons] at hm
  rcases hv : convert (c :: v) with m | a
  case error => rw [hv] at hm; cases hm
  case ok    => exact hr v a hv

-- No value starts with the character, nor is empty.
structure Rejects (convert : Bytes → Except Msg α) (c : UInt8) : Prop where
  nil  : ∀ a, convert [] ≠ .ok a
  cons : ∀ w a, convert (c :: w) ≠ .ok a

theorem toBool_rejects : Rejects toBool '/'.toUInt8 where
  nil  := fun _ h => by cases h
  cons := by
    intro w a
    obtain ⟨v, hv⟩ : ∃ v, toUpper ('/'.toUInt8 :: w) = '/'.toUInt8 :: v := by
      rw [toUpper, Utf8.range, runes_ascii (by decide)]
      exact ⟨_, rfl⟩
    have hne {u : Bytes} (hu : u.head? ≠ some '/'.toUInt8) : toUpper ('/'.toUInt8 :: w) ≠ u :=
      fun h => hu (by rw [← h, hv]; rfl)
    rw [toBool, if_neg (not_or.mpr ⟨hne (by decide), hne (by decide)⟩),
      if_neg (not_or.mpr ⟨hne (by decide), hne (by decide)⟩)]
    simp

-- The characters that start no number: slash, and the second letter of `BOOLEAN`.
def NoDigit (c : UInt8) : Prop :=
  c = '/'.toUInt8 ∨ c = 'O'.toUInt8 ∨ c = 'o'.toUInt8

theorem NoDigit.digitValue (h : NoDigit c) (d : Nat) (hd : Strconv.digitValue c = some d) :
    10 ≤ d := by
  rcases h with rfl | rfl | rfl
  all_goals
    revert hd
    rw [Strconv.digitValue]
    decide +revert

theorem NoDigit.parseUint (h : NoDigit c) (w : Bytes) (bitSize : Nat) :
    Strconv.parseUint (c :: w) 0 bitSize = (0, some .errSyntax) :=
  Strconv.parseUint_of_not_digit h.digitValue (by rcases h with rfl | rfl | rfl <;> decide)

theorem NoDigit.parseInt (h : NoDigit c) (w : Bytes) (bitSize : Nat) :
    Strconv.parseInt (c :: w) 0 bitSize = (0, some .errSyntax) := by
  refine Strconv.parseInt_of_not_digit h.digitValue ?_ ?_ ?_
  all_goals rcases h with rfl | rfl | rfl <;> decide

theorem toByte_rejects (h : NoDigit c) : Rejects toByte c where
  nil  := nofun
  cons := fun w a => by rw [toByte, h.parseInt]; exact nofun

theorem toInt_rejects (byteSize : Nat) (h : NoDigit c) : Rejects (toInt byteSize) c where
  nil  := fun a => by rw [toInt, Strconv.parseInt]; simp
  cons := fun w a => by rw [toInt, h.parseInt]; simp

theorem toUint_rejects (byteSize : Nat) (h : NoDigit c) : Rejects (toUint byteSize) c where
  nil  := nofun
  cons := fun w a => by rw [toUint, h.parseUint]; exact nofun

theorem parseValues_viable (h : parseValues convert new p = .ok r)
    (hr : Rejects convert '/'.toUInt8) :
    '>'.toUInt8 ∈ p.data ∧ p.data.head? ≠ some '/'.toUInt8 :=
  ⟨parseValues_closed hr.nil h,
    parseValues_head hr.nil h (by decide) (by decide) (by decide) hr.cons⟩

theorem parseBinary_viable (h : parseBinary p = .ok r) : Viable .binary p := by
  have ⟨h₁, h₂⟩ := parseValues_viable h (toByte_rejects (.inl rfl))
  refine ⟨h₁, h₂, fun hO => ?_⟩
  have ⟨c, hc, hup⟩ := Option.map_eq_some_iff.mp hO
  have hc' : c = 'O'.toUInt8 ∨ c = 'o'.toUInt8 := by
    unfold toUpperRune at hup
    split at hup
    case isFalse => exact .inl hup
    case isTrue  =>
      have h := UInt8.sub_add_cancel c 32
      rw [hup] at h
      exact .inr h.symm
  have hr := toByte_rejects (.inr hc')
  refine parseValues_head hr.nil h ?_ ?_ ?_ hr.cons hc
  all_goals rcases hc' with rfl | rfl <;> decide

end Values

theorem After.mem_data (h : After p p') (hc : c ∈ p'.data) : c ∈ p.data := by
  rw [data, h.input] at hc
  obtain ⟨n, hn⟩ : ∃ n, p'.pos = p.pos + n := ⟨p'.pos - p.pos, by have := h.pos; omega⟩
  rw [hn, ← drop_drop] at hc
  exact mem_of_mem_drop hc

theorem mem_of_next (h : p.next = some c) : c ∈ p.data :=
  mem_of_mem_drop (mem_of_mem_head? h)

section Runes

variable {Q : Item → Parser → Prop} {rs rs' : List (Nat × Nat)} {n quoteChar : Nat}
  {unclosed : String} {new : Bytes → Item} {st : StrictState} {badQuote : String}

theorem range_append_detached (h : Detached t) : ∃ rs, range (s ++ t) = range s ++ rs := by
  rcases t with _ | ⟨c, t⟩
  case nil  => exact ⟨[], by simp⟩
  case cons => exact ⟨_, range_append (h c rfl) s t⟩

theorem mem_of_range {r : Nat × Nat} (h : r ∈ range s) (hr : r.2 = '>'.toNat) :
    '>'.toUInt8 ∈ s := by
  rcases r with ⟨i, r⟩
  cases hr
  have ⟨x, y, hs, _⟩ := mem_runes h (by decide)
  rw [hs]
  exact mem_append_right x mem_cons_self

theorem Ext.take (h : Ext t p p') (hn : n ≤ p.data.length) :
    p'.data.take n = p.data.take n := by
  rw [h.data, take_append_of_le_length hn]

theorem Ext.sliceTo (h : Ext t p p') (hn : n ≤ p.data.length) :
    sliceTo p'.data n q = .ok (p.data.take n, q) := by
  rw [sliceTo_of_le (hn.trans h.length_le), h.take hn]

theorem forward_follows (h : Ext t p p') (hn : n ≤ p.data.length) :
    Follows (Ext t) (do discard (forward n); pure item) (do discard (forward n); pure item) p p' Q :=
  follows_bind_of_ok (discard_forward hn) (discard_forward (hn.trans h.length_le))
    (follows_pure item (h.advance hn))

theorem verbatimLoop_follows {quoteCh last : Nat}
    (h : Ext t p p') (hr : ∀ r ∈ rs, r.1 < p.data.length) (hl : last ≤ p.data.length) :
    Follows (Ext t) (verbatimLoop p.data quoteCh unclosed new last rs)
      (verbatimLoop p'.data quoteCh unclosed new last (rs ++ rs')) p p' Q := by
  induction rs generalizing last
  case nil => exact follows_of_error rfl
  case cons r rs hi =>
    rcases r with ⟨i, ch⟩
    have hi {last : Nat} (hl : last ≤ p.data.length) := hi (fun r h => hr r (by simp [h])) hl
    have hlt := hr (i, ch) (by simp)
    rw [cons_append, verbatimLoop, verbatimLoop]
    split
    case isTrue => exact hi hlt.le
    case isFalse =>
      split
      case isFalse => exact hi hl
      case isTrue =>
        split
        case isTrue  => exact hi hl
        case isFalse =>
          exact follows_bind_of_ok (sliceTo_of_le hl) (h.sliceTo hl) (forward_follows h hlt)

theorem verbatimLoop_closed {quoteCh last : Nat}
    (h : verbatimLoop s quoteCh unclosed new last rs p = .ok r) :
    ∃ r ∈ rs, r.2 = '>'.toNat := by
  induction rs generalizing last
  case nil => cases h
  case cons r rs hi =>
    rcases r with ⟨i, ch⟩
    by_cases hc : ch = '>'.toNat
    case pos => exact ⟨(i, ch), mem_cons_self, hc⟩
    case neg =>
      rw [verbatimLoop, if_neg hc] at h
      obtain ⟨r, hr⟩ : ∃ r ∈ rs, r.2 = '>'.toNat := by split at h <;> exact hi h
      exact ⟨r, mem_cons_of_mem _ hr.1, hr.2⟩

theorem head_ne_slash (hn : p.next ≠ some '/'.toUInt8) : p.data.head? ≠ some '/'.toUInt8 :=
  fun hd => hn (next_of_head hd (by decide))

theorem verbatim_viable (h : parseVerbatim badQuote unclosed new p = .ok r) :
    '>'.toUInt8 ∈ p.data ∧ p.data.head? ≠ some '/'.toUInt8 := by
  rw [parseVerbatim, bind_of_ok nextNonSpaceRune_eq] at h
  split at h
  case isTrue hn => exact ⟨mem_of_next hn, head_ne_slash (by rw [hn]; decide)⟩
  case isFalse =>
    split at h
    case isFalse => cases h
    case isTrue hq =>
      have ⟨r, hr, hc⟩ := verbatimLoop_closed h
      refine ⟨(After.step p).mem_data (mem_of_range hr hc), head_ne_slash ?_⟩
      rcases hq with hq | hq <;> rw [hq] <;> decide

theorem parseVerbatim_follows (h : Ext t p p') (ht : Detached t) :
    Follows (Ext t) (parseVerbatim badQuote unclosed new) (parseVerbatim badQuote unclosed new)
      p p' Q := by
  refine rune_follows nextNonSpaceRune_eq step_of_none h (fun _ => nofun) fun c hc => ?_
  have hs := h.step hc
  split
  case isTrue => exact follows_pure _ hs
  case isFalse =>
    split
    case isFalse => exact follows_of_error rfl
    case isTrue =>
      refine follows_get ?_
      have ⟨rs, hrs⟩ := range_append_detached (s := p.step.data) ht
      rw [hs.data, hrs, ← hs.data]
      exact verbatimLoop_follows hs (fun r => range_lt) (Nat.zero_le _)

theorem numericByte_ok {token : Bytes} {b : UInt8}
    (h : numericByte token p = .ok (b, q)) : q = p ∧ ∀ p', numericByte token p' = .ok (b, p') := by
  rcases hp : Strconv.parseUint token 0 0 with ⟨val, _ | e⟩
  all_goals simp only [numericByte, hp] at h ⊢
  case some => cases h
  case none =>
    by_cases hv : 255 < val
    case pos =>
      rw [if_pos hv] at h
      cases h
    case neg =>
      rw [if_neg hv] at h ⊢
      cases h
      exact ⟨rfl, fun p' => rfl⟩

theorem strictLoop_follows (h : Ext t p p')
    (hr : ∀ r ∈ rs, st.numStart ≤ r.1 ∧ r.1 < p.data.length) (hs : rs.Pairwise (·.1 < ·.1)) :
    Follows (Ext t) (strictLoop p.data quoteChar st rs)
      (strictLoop p'.data quoteChar st (rs ++ rs')) p p' Q := by
  induction rs generalizing st p p'
  case nil => exact follows_of_error rfl
  case cons r rs hi =>
    rcases r with ⟨i, ch⟩
    have ⟨hn, hl⟩ := hr (i, ch) (by simp)
    have ⟨hlt, hs⟩ := pairwise_cons.mp hs
    have next {st' : StrictState} (hst : st'.numStart = st.numStart) :
        Follows (Ext t) (strictLoop p.data quoteChar st' rs)
          (strictLoop p'.data quoteChar st' (rs ++ rs')) p p' Q :=
      hi h (fun r h' => hst ▸ hr r (by simp [h'])) hs
    -- The token between the start of the number and the current character.
    have token {f f' : UInt8 → P Item} (hf : ∀ b, Follows (Ext t) (f b) (f' b) p p' Q) :
        Follows (Ext t) (do f (← numericByte (← sliceFrom (← sliceTo p.data i) st.numStart)))
          (do f' (← numericByte (← sliceFrom (← sliceTo p'.data i) st.numStart))) p p' Q := by
      have hle : st.numStart ≤ (p.data.take i).length := by simp; omega
      refine follows_bind_of_ok (sliceTo_of_le hl.le) (h.sliceTo hl.le) ?_
      refine follows_bind_of_ok (sliceFrom_of_le hle) (sliceFrom_of_le hle) ?_
      rcases hb : numericByte ((p.data.take i).drop st.numStart) p with e | ⟨b, q⟩
      case error => exact follows_of_error (bind_of_error hb)
      case ok =>
        obtain ⟨rfl, hb'⟩ := numericByte_ok hb
        exact follows_bind_of_ok hb (hb' p') (hf b)
    rw [cons_append, strictLoop, strictLoop]
    split
    case isTrue => split_ifs <;> first | exact next rfl | exact follows_of_error rfl
    case isFalse =>
      split
      case isTrue =>
        split_ifs
        case pos => exact token fun _ => next rfl
        case pos => exact token fun _ => forward_follows h hl
        case neg => exact next rfl
      case isFalse =>
        split_ifs
        case pos | pos => exact next rfl
        case pos => exact forward_follows h hl
        case neg => exact hi h (fun r h => ⟨(hlt r h).le, (hr r (by simp [h])).2⟩) hs

theorem strictLoop_closed
    (h : strictLoop s quoteChar st rs p = .ok r) : ∃ r ∈ rs, r.2 = '>'.toNat := by
  induction rs generalizing st p
  case nil => cases h
  case cons r rs hi =>
    rcases r with ⟨i, ch⟩
    by_cases hc : ch = '>'.toNat
    case pos => exact ⟨(i, ch), mem_cons_self, hc⟩
    case neg =>
      suffices hr : ∃ r ∈ rs, r.2 = '>'.toNat by
        obtain ⟨r, hr, hc⟩ := hr
        exact ⟨r, mem_cons_of_mem _ hr, hc⟩
      simp only [strictLoop, if_neg hc] at h
      split at h
      case isTrue => split_ifs at h <;> exact hi h
      case isFalse =>
        split at h
        case isFalse => split_ifs at h <;> exact hi h
        case isTrue =>
          split at h
          case isFalse => exact hi h
          case isTrue =>
            obtain ⟨_, _, _, h⟩ := bind_eq_ok.mp h
            obtain ⟨_, _, _, h⟩ := bind_eq_ok.mp h
            obtain ⟨_, _, _, h⟩ := bind_eq_ok.mp h
            exact hi h

theorem strictLoop_slash
    (hq : st.isQuoteStr = false) (hn : st.isNumStr = true) (h₀ : st.numStart = 0)
    (hr : ∀ r ∈ rs, 1 ≤ r.1) : strictLoop ('/'.toUInt8 :: s) quoteChar st rs p ≠ .ok r := by
  induction rs
  case nil => exact nofun
  case cons r rs hi =>
    rcases r with ⟨i, ch⟩
    obtain ⟨i, rfl⟩ : ∃ j, i = j + 1 := ⟨i - 1, by have := hr (i, ch) (by simp); omega⟩
    have token {f : UInt8 → P Item} {r : Item × Parser} :
        (do f (← numericByte (← sliceFrom (← sliceTo ('/'.toUInt8 :: s) (i + 1)) st.numStart))) p ≠
          .ok r := by
      intro h
      have ⟨_, _, h₁, h⟩ := bind_eq_ok.mp h
      have ⟨_, _, h₂, h⟩ := bind_eq_ok.mp h
      have ⟨_, _, h₃, _⟩ := bind_eq_ok.mp h
      unfold sliceTo at h₁
      split at h₁
      case isFalse => cases h₁
      case isTrue =>
        cases h₁
        rw [h₀, sliceFrom_of_le (Nat.zero_le _)] at h₂
        cases h₂
        rw [drop_zero, take_succ_cons, numericByte, NoDigit.parseUint (.inl rfl)] at h₃
        cases h₃
    rw [strictLoop, hq, hn, if_neg Bool.false_ne_true, if_pos rfl]
    split
    case isTrue => exact token
    case isFalse =>
      split
      case isTrue  => exact token
      case isFalse => exact hi fun r h => hr r (by simp [h])

theorem findQuote_cases (rs : List (Nat × Nat)) :
    findQuote rs = '"'.toNat ∨ findQuote rs = '\''.toNat := by
  induction rs
  case nil => exact .inl rfl
  case cons r rs hi =>
    rw [findQuote]
    split
    case isTrue => exact .inl rfl
    case isFalse =>
      split
      case isTrue h  => exact h.symm
      case isFalse   => exact hi

theorem findQuote_append (h : ∃ r ∈ rs, r.2 = '>'.toNat) : findQuote (rs ++ rs') = findQuote rs := by
  induction rs
  case nil => simp at h
  case cons r rs hi =>
    rw [cons_append, findQuote, findQuote]
    by_cases hr : r.2 = '>'.toNat
    case pos => rw [if_pos hr, if_pos hr]
    case neg =>
      have ⟨r', hr', hc⟩ := h
      have hi := hi ⟨r', (mem_cons.mp hr').resolve_left fun he => hr (he ▸ hc), hc⟩
      rw [hi]

theorem parseASCIIStrict_viable (h : parseASCIIStrict p = .ok r) :
    '>'.toUInt8 ∈ p.data ∧ p.data.head? ≠ some '/'.toUInt8 := by
  rw [parseASCIIStrict, bind_of_ok (run_get p)] at h
  obtain ⟨_, hr, hc⟩ := strictLoop_closed h
  refine ⟨mem_of_range hr hc, fun hd => ?_⟩
  obtain ⟨s, hd⟩ := head?_eq_some_iff.mp hd
  have hq : '/'.toUInt8.toNat ≠ findQuote (range p.data) := by
    rcases findQuote_cases (range p.data) with h | h <;> rw [h] <;> decide
  revert h
  generalize findQuote (range p.data) = quoteChar at hq
  rw [hd, Utf8.range, runes_ascii (by decide), strictLoop]
  rw [if_neg (by decide), if_neg (by decide), if_neg hq, if_neg (by decide), if_neg (by decide)]
  exact strictLoop_slash rfl rfl rfl fun r h => (runes_bounds h).1

theorem parseASCIIStrict_follows (h : Ext t p p') (ht : Detached t) :
    Follows (Ext t) parseASCIIStrict parseASCIIStrict p p' Q := by
  refine follows_get fun item q hq hQ => ?_
  have ⟨rs, hrs⟩ := range_append_detached (s := p.data) ht
  rw [h.data, hrs, findQuote_append (strictLoop_closed hq), ← h.data]
  exact strictLoop_follows h (fun r hr => ⟨Nat.zero_le _, range_lt hr⟩) (runes_pairwise ..)
    item q hq hQ

end Runes

section Fast

variable {Q : Item → Parser → Prop} {quote : UInt8} {i k n : Nat}

theorem Ext.drop (h : Ext t p p') (hd : p.data.drop i = c :: s) : p'.data.drop i = c :: (s ++ t) := by
  have hl : i ≤ p.data.length := (lt_length_of_drop hd).le
  rw [h.data, drop_append_of_le_length hl, hd]
  rfl

theorem indentOf_ext (h : indentOf s < s.length) :
    indentOf (s ++ t) = indentOf s ∧
      ((s ++ t).drop (indentOf s)).head? = (s.drop (indentOf s)).head? := by
  have ⟨b, r, hr⟩ := drop_eq_cons h
  have ⟨bl, hs, hbl, hb⟩ := split_of_drop hr
  have hi : indentOf s = bl.length := by rw [hs, indentOf_append hbl hb]
  refine ⟨?_, ?_⟩
  · rw [hi, hs, append_assoc, cons_append, indentOf_append hbl hb]
  · rw [drop_append_of_le_length h.le, hr]
    rfl

theorem check_ext {r : Option Nat} (h : Ext t p p') (hp : 0 < p.pos) (hp' : 0 < p'.pos)
    (hi : i < p.data.length) (hr : checkASCIICloseQuote i quote p = .ok (r, q)) :
    q = p ∧ checkASCIICloseQuote i quote p' = .ok (r, p') ∧ ∀ n ∈ r, n ≤ p.data.length := by
  have ⟨c, s, hd⟩ := drop_eq_cons hi
  rw [check_eq hp hd] at hr
  rw [check_eq hp' (h.drop hd)]
  split at hr
  case isFalse hc =>
    cases hr
    rw [if_neg hc]
    exact ⟨rfl, rfl, nofun⟩
  case isTrue hc =>
    split at hr
    case isFalse => cases hr
    case isTrue hl =>
      have ⟨h₁, h₂⟩ := indentOf_ext (t := t) hl
      have hlen := congrArg List.length hd
      rw [length_drop, length_cons] at hlen
      cases hr
      rw [if_pos hc, h₁, h₂, if_pos (by simp; omega)]
      refine ⟨rfl, rfl, fun n hn => ?_⟩
      split at hn
      case isFalse => cases hn
      case isTrue  =>
        cases hn
        omega

theorem takeASCII_follows (h : Ext t p p') (hi : i ≤ p.data.length) (hn : n ≤ p.data.length) :
    Follows (Ext t) (takeASCII i n) (takeASCII i n) p p' Q :=
  follows_get <| follows_bind_of_ok (sliceTo_of_le hi) (h.sliceTo hi) (forward_follows h hn)

theorem fastLoop_follows (h : Ext t p p') (hp : 0 < p.pos) (hp' : 0 < p'.pos)
    (hk : i + k = p.data.length) :
    Follows (Ext t) (fastLoop quote k i) (fastLoop quote (k + n) i) p p' Q := by
  induction k generalizing i
  case zero => exact follows_of_error rfl
  case succ k hi =>
    rw [Nat.add_right_comm, fastLoop, fastLoop]
    rcases hr : checkASCIICloseQuote i quote p with e | ⟨r, q⟩
    case error => exact follows_of_error (bind_of_error hr)
    case ok =>
      obtain ⟨rfl, hr', hn⟩ := check_ext h hp hp' (by omega) hr
      refine follows_bind_of_ok hr hr' ?_
      cases r
      case none   => exact hi (by omega)
      case some m => exact takeASCII_follows h (by omega) (hn m rfl)

theorem parseASCIIFast_follows (h : Ext t p p') (maxSize : Nat) :
    Follows (Ext t) (parseASCIIFast maxSize) (parseASCIIFast maxSize) p p' Q := by
  refine rune_follows nextNonSpaceRune_eq step_of_none h (fun _ => nofun) fun c hc => ?_
  have hs := h.step hc
  have hp : 0 < p.step.pos := Nat.zero_lt_of_lt (pos_lt_step (hc ▸ rfl))
  have hp' : 0 < p'.step.pos := Nat.zero_lt_of_lt (pos_lt_step (h.next hc ▸ rfl))
  have hlen : p'.step.data.length = p.step.data.length + t.length := by rw [hs.data, length_append]
  have loop : Follows (Ext t) (fastLoop c p.step.data.length 0) (fastLoop c p'.step.data.length 0)
      p.step p'.step Q := hlen ▸ fastLoop_follows hs hp hp' (Nat.zero_add _)
  split
  case isTrue => exact follows_pure _ hs
  case isFalse =>
    split
    case isFalse => exact follows_of_error rfl
    case isTrue =>
      refine follows_get ?_
      split
      case isFalse => exact loop
      case isTrue =>
        split
        case isTrue => exact follows_of_error rfl
        case isFalse hl =>
          rw [if_neg (by omega)]
          rcases hr : checkASCIICloseQuote maxSize c p.step with e | ⟨r, q⟩
          case error => exact follows_of_error (bind_of_error hr)
          case ok =>
            obtain ⟨rfl, hr', hn⟩ := check_ext hs hp hp' (by omega) hr
            refine follows_bind_of_ok hr hr' ?_
            cases r
            case none   => exact loop
            case some m => exact takeASCII_follows hs (by omega) (hn m rfl)

theorem check_state {r : Option Nat} (hp : 0 < p.pos) (hi : i < p.data.length)
    (h : checkASCIICloseQuote i quote p = .ok (r, q)) : q = p := by
  have ⟨c, s, hd⟩ := drop_eq_cons hi
  rw [check_eq hp hd] at h
  split_ifs at h <;> cases h <;> rfl

theorem check_closed (hp : 0 < p.pos) (hi : i < p.data.length)
    (h : checkASCIICloseQuote i quote p = .ok (some n, q)) : '>'.toUInt8 ∈ p.data := by
  have ⟨c, s, hd⟩ := drop_eq_cons hi
  rw [check_eq hp hd] at h
  split at h
  case isFalse => cases h
  case isTrue =>
    split at h
    case isFalse => cases h
    case isTrue =>
      split at h
      case isFalse => cases h
      case isTrue hg =>
        have hs : '>'.toUInt8 ∈ s := mem_of_mem_drop (mem_of_mem_head? hg)
        exact mem_of_mem_drop (hd ▸ mem_cons_of_mem c hs)

theorem fastLoop_closed (hp : 0 < p.pos) (hk : i + k = p.data.length)
    (h : fastLoop quote k i p = .ok r) : '>'.toUInt8 ∈ p.data := by
  induction k generalizing i
  case zero => cases h
  case succ k hi =>
    have ⟨r', q, hc, h⟩ := bind_eq_ok.mp h
    obtain rfl := check_state hp (by omega) hc
    cases r'
    case none   => exact hi (by omega) h
    case some n => exact check_closed hp (by omega) hc

theorem parseASCIIFast_viable {maxSize : Nat} (h : parseASCIIFast maxSize p = .ok r) :
    '>'.toUInt8 ∈ p.data ∧ p.data.head? ≠ some '/'.toUInt8 := by
  rw [parseASCIIFast, bind_of_ok nextNonSpaceRune_eq] at h
  split at h
  case isTrue hn => exact ⟨mem_of_next hn, head_ne_slash (by rw [hn]; decide)⟩
  case isFalse =>
    split at h
    case isFalse => cases h
    case isTrue hq =>
      have hp : 0 < p.step.pos :=
        Nat.zero_lt_of_lt (pos_lt_step (by rcases hq with hq | hq <;> rw [hq] <;> rfl))
      refine ⟨(After.step p).mem_data ?_, head_ne_slash ?_⟩
      case refine_2 => rcases hq with hq | hq <;> rw [hq] <;> decide
      rw [bind_of_ok (run_get _)] at h
      split at h
      case isFalse => exact fastLoop_closed hp (Nat.zero_add _) h
      case isTrue =>
        split at h
        case isTrue => cases h
        case isFalse hl =>
          have ⟨r', q, hc, h⟩ := bind_eq_ok.mp h
          obtain rfl := check_state hp (by omega) hc
          cases r'
          case none   => exact fastLoop_closed hp (Nat.zero_add _) h
          case some n => exact check_closed hp (by omega) hc

end Fast

section Localized

variable {Q : Item → Parser → Prop} {zeroLength : Bool}

-- The text starts with the tokens of a localized string.
def StartsValue (s : Bytes) : Prop :=
  ∃ text rest lsh v, s = text ++ rest ∧ Value true text lsh v

theorem tokens_ok_iff : (∃ r, parseLocalizedStrTokens false p = .ok r) ↔ StartsValue p.data := by
  constructor
  case mp =>
    intro ⟨⟨item, q⟩, h⟩
    have ⟨text, rest, lsh, v, hd, hv, _⟩ := parseLocalizedStrTokens_iff.mp h
    exact ⟨text, rest, lsh, v, hd, hv⟩
  case mpr =>
    intro ⟨text, rest, lsh, v, hd, hv⟩
    exact ⟨_, parseLocalizedStrTokens_iff.mpr ⟨text, rest, lsh, v, hd, hv, rfl, rfl⟩⟩

theorem parseLocalizedStr_tokens
    (h : parseLocalizedStrTokens zeroLength p = .ok r) : parseLocalizedStr zeroLength p = .ok r := by
  rw [parseLocalizedStr, h]

theorem parseLocalizedStr_of_not (h : ¬StartsValue p.data) :
    (p.strict = true → ∀ r, parseLocalizedStr false p ≠ .ok r) ∧
    (p.strict = false → parseLocalizedStr false p = parseLocalizedStrVerbatim p) := by
  rcases ht : parseLocalizedStrTokens false p with e | r
  case ok => exact absurd (tokens_ok_iff.mp ⟨r, ht⟩) h
  case error =>
    obtain ⟨e, rfl⟩ := ((parseLocalizedStrTokens_safe false).error ht).exists
    rw [parseLocalizedStr, ht]
    constructor <;> intro hs <;> simp [hs]

theorem parseLocalizedStr_zero :
    parseLocalizedStr true p = .ok (item, q) ↔
      p.next = some '>'.toUInt8 ∧ item = Secs2.newEmptyLocalizedStrItem ∧ q = p.step := by
  by_cases hn : p.next = some '>'.toUInt8
  case pos =>
    rw [parseLocalizedStr_tokens (parseLocalizedStrTokens_zero hn)]
    simp [hn, eq_comm]
  case neg =>
    have ⟨e, he⟩ := parseLocalizedStrTokens_value hn
    rw [parseLocalizedStr, he]
    simp [hn]

theorem parseLocalizedStr_follows (h : Ext t p p') (ht : Detached t)
    (hv : p.strict = false → zeroLength = false → StartsValue p'.data → StartsValue p.data) :
    Follows (Ext t) (parseLocalizedStr zeroLength) (parseLocalizedStr zeroLength) p p' Q := by
  intro item q hq hQ
  cases zeroLength
  case true =>
    have ⟨hn, hitem, hq⟩ := parseLocalizedStr_zero.mp hq
    exact ⟨_, parseLocalizedStr_zero.mpr ⟨h.next hn, hitem, rfl⟩, hq ▸ h.step hn⟩
  case false =>
    by_cases hs : StartsValue p.data
    case pos =>
      have ⟨⟨item', q'⟩, hr⟩ := tokens_ok_iff.mpr hs
      cases (parseLocalizedStr_tokens hr).symm.trans hq
      have ⟨text, rest, lsh, v, hd, hval, hitem, hq⟩ := parseLocalizedStrTokens_iff.mp hr
      refine ⟨p'.advance text.length, parseLocalizedStr_tokens ?_, ?_⟩
      · exact parseLocalizedStrTokens_iff.mpr
          ⟨text, rest ++ t, lsh, v, by rw [h.data, hd, append_assoc], hval, hitem, rfl⟩
      · exact hq ▸ h.advance (by simp [hd])
    case neg =>
      rcases hstrict : p.strict
      case true  => exact absurd hq ((parseLocalizedStr_of_not hs).1 hstrict _)
      case false =>
        have hs' : ¬StartsValue p'.data := mt (hv hstrict rfl) hs
        rw [(parseLocalizedStr_of_not hs).2 hstrict] at hq
        rw [(parseLocalizedStr_of_not hs').2 (h.strict.trans hstrict)]
        exact parseVerbatim_follows h ht item q hq hQ

theorem parseLocalizedStr_viable (h : parseLocalizedStr zeroLength p = .ok r) :
    '>'.toUInt8 ∈ p.data ∧ p.data.head? ≠ some '/'.toUInt8 := by
  cases zeroLength
  case true =>
    have hn := (parseLocalizedStr_zero.mp h).1
    refine ⟨mem_of_next hn, fun hd => ?_⟩
    cases hn.symm.trans (next_of_head hd (by decide))
  case false =>
    by_cases hs : StartsValue p.data
    case pos =>
      have ⟨text, rest, lsh, v, hd, hv⟩ := hs
      obtain ⟨c, text, rfl⟩ := hv.exists_cons
      rw [hd]
      exact ⟨mem_append_left rest hv.mem_close, hv.head_ne_slash⟩
    case neg =>
      rcases hstrict : p.strict
      case true  => exact absurd h ((parseLocalizedStr_of_not hs).1 hstrict _)
      case false => exact verbatim_viable ((parseLocalizedStr_of_not hs).2 hstrict ▸ h)

end Localized

end Parser

end Sml
