import GoSecs.Sml.Theorems.Safety

open Utf8 Strings Strconv Prog List

namespace Sml

open Secs2 (Bytes Item FormatCode maxListDepth)

namespace Parser

variable {α β : Type} {p p' : Parser} {T : Prop} {x : P α} {f : α → P β}
variable {Q : α → Parser → Prop} {R : β → Parser → Prop} {quote c : UInt8} {s : Bytes}

-- A run that panics exactly if `T` holds, and is safe otherwise.
def PanicsIf (T : Prop) (x : P α) (p : Parser) (Q : α → Parser → Prop) : Prop :=
  (T ∧ x p = .error .panic) ∨ (¬T ∧ Safe x p Q)

namespace PanicsIf

theorem of_safe (h : Safe x p Q) (hT : ¬T) : PanicsIf T x p Q :=
  .inr ⟨hT, h⟩

theorem congr {T' : Prop} (h : PanicsIf T x p Q) (hT : T ↔ T') : PanicsIf T' x p Q := by
  rwa [← hT]

theorem mono {Q' : α → Parser → Prop} (h : PanicsIf T x p Q) (hq : ∀ a p', Q a p' → Q' a p') :
    PanicsIf T x p Q' :=
  h.imp_right fun ⟨hT, hs⟩ => ⟨hT, hs.mono hq⟩

theorem bind_of_ok {a : α} (h : x p = .ok (a, p')) (hf : PanicsIf T (f a) p' R) :
    PanicsIf T (x >>= f) p R := by
  rcases hf with ⟨hT, he⟩ | ⟨hT, hs⟩
  case inl => exact .inl ⟨hT, by rw [Prog.bind_of_ok h, he]⟩
  case inr => exact .inr ⟨hT, (wp_bind_of_ok h).mpr hs⟩

-- What may panic comes first.
theorem bind_safe (h : PanicsIf T x p Q) (hf : ∀ a p', Q a p' → Safe (f a) p' R) :
    PanicsIf T (x >>= f) p R := by
  rcases h with ⟨hT, he⟩ | ⟨hT, hs⟩
  case inl => exact .inl ⟨hT, bind_of_error he⟩
  case inr => exact .inr ⟨hT, wp_bind.mpr <| hs.mono hf⟩

end PanicsIf

-- The text goes on at `i` with the quote, blanks and `>`.
def Closes (quote : UInt8) (s : Bytes) (i : Nat) : Prop :=
  ∃ t, s.drop i = quote :: t ∧ (t.drop (indentOf t)).head? = some '>'.toUInt8

-- The text ends at `i` with the quote and blanks.
def CutOff (quote : UInt8) (s : Bytes) (i : Nat) : Prop :=
  ∃ t, s.drop i = quote :: t ∧ indentOf t = t.length

theorem Closes.not_cutOff {i : Nat} (h : Closes quote s i) :
    ¬CutOff quote s i := by
  rintro ⟨t', ht', hl⟩
  have ⟨t, ht, hh⟩ := h
  obtain ⟨-, rfl⟩ := cons_eq_cons.mp (ht.symm.trans ht')
  rw [hl, drop_length] at hh
  cases hh

section Quote

variable {quote : UInt8} {i k n : Nat}

-- Something of the input has been consumed, so its length is no bound for what is left of it.
theorem length_data_lt_len (h : 0 < p.pos) (hi : i < p.data.length) :
    ¬(p.len ≤ i + 1 ∨ p.len ≤ i) := by
  rw [length_data] at hi
  omega

theorem check_eq (hp : 0 < p.pos) {t : Bytes} (h : p.data.drop i = c :: t) :
    checkASCIICloseQuote i quote p =
      if c = quote then
        if indentOf t < t.length then
          .ok (if (t.drop (indentOf t)).head? = some '>'.toUInt8 then
            some (i + 1 + indentOf t + 1) else none, p)
        else
          .error .panic
      else
        .ok (none, p) := by
  have hl := congrArg List.length h
  rw [length_drop, length_cons] at hl
  have hd : p.data.drop (i + 1) = t := by rw [← drop_drop, h, drop_one, tail_cons]
  rw [checkASCIICloseQuote, Prog.bind_of_ok (run_get p),
    if_neg (length_data_lt_len hp (by omega)), Prog.bind_of_ok (byteAt_drop h)]
  split
  case isFalse => rfl
  case isTrue =>
    have hb : nonBlank p.data (p.len - (i + 1)) (i + 1) p =
        if indentOf t < t.length then .ok (some (i + 1 + indentOf t), p) else .error .panic := by
      have := indentOf_le t
      have := p.length_data
      rw [nonBlank_eq, hd, if_neg (by omega)]
    split
    case isFalse h' => exact bind_of_error (by rw [hb, if_neg h'])
    case isTrue h' =>
      rw [Prog.bind_of_ok (by rw [hb, if_pos h'])]
      rcases he : t.drop (indentOf t) with _ | ⟨b, t'⟩
      case nil => exact absurd h' (Nat.not_lt.mpr (drop_eq_nil_iff.mp he))
      case cons =>
        have hb : p.data.drop (i + 1 + indentOf t) = b :: t' := by rw [← drop_drop, hd, he]
        simp only [Prog.bind_of_ok (byteAt_drop hb), head?_cons, Option.some.injEq]
        split <;> rfl

theorem drop_eq_cons (h : i < s.length) : ∃ c t, s.drop i = c :: t :=
  ⟨_, _, drop_eq_getElem_cons h⟩

theorem check_of_closes (hp : 0 < p.pos) (h : Closes quote p.data i) :
    ∃ n, checkASCIICloseQuote i quote p = .ok (some n, p) := by
  have ⟨t, ht, hh⟩ := h
  have hl : indentOf t < t.length := by
    by_contra hl
    rw [drop_eq_nil_of_le (Nat.not_lt.mp hl)] at hh
    cases hh
  exact ⟨_, by rw [check_eq hp ht, if_pos rfl, if_pos hl, if_pos hh]⟩

theorem check_of_cutOff (hp : 0 < p.pos) (h : CutOff quote p.data i) :
    checkASCIICloseQuote i quote p = .error .panic := by
  have ⟨t, ht, hl⟩ := h
  rw [check_eq hp ht, if_pos rfl, if_neg (by omega)]

theorem check_of_not (hp : 0 < p.pos) (hi : i < p.data.length) (hc : ¬Closes quote p.data i)
    (ho : ¬CutOff quote p.data i) : checkASCIICloseQuote i quote p = .ok (none, p) := by
  have ⟨c, t, ht⟩ := drop_eq_cons hi
  rw [check_eq hp ht]
  split
  case isFalse => rfl
  case isTrue hq =>
    subst hq
    have hl : indentOf t < t.length :=
      lt_of_le_of_ne (indentOf_le t) fun hl => ho ⟨t, ht, hl⟩
    rw [if_pos hl, if_neg fun hh => hc ⟨t, ht, hh⟩]

theorem takeASCII_safe (n : Nat) (h : i ≤ p.data.length) :
    Safe (takeASCII i n) p fun _ p' => After p p' := by
  rw [Safe, takeASCII, wp_bind_of_ok (run_get p), wp_bind_of_ok (sliceTo_of_le h)]
  exact (Forward.discard_forward _).bind (fun _ => .pure _) p

-- From `i` on, the text is cut off at a quote before the item is closed.
def CutOffFrom (quote : UInt8) (s : Bytes) (i : Nat) : Prop :=
  ∃ j, i ≤ j ∧ CutOff quote s j ∧ ∀ l, i ≤ l → l < j → ¬Closes quote s l

theorem CutOff.lt_length (h : CutOff quote s i) : i < s.length := by
  have ⟨t, ht, _⟩ := h
  by_contra hl
  rw [drop_eq_nil_of_le (Nat.not_lt.mp hl)] at ht
  cases ht

theorem blank_of_indentOf (h : indentOf s = s.length) (hc : c ∈ s) :
    isBlank c :=
  takeWhile_eq_self_iff.mp ((List.takeWhile_prefix _).eq_of_length h) c hc

theorem CutOff.ge {t : Bytes} (h : CutOff quote s i) (hq : isBlank quote = false)
    (hn : s.drop n = quote :: t) : n ≤ i := by
  have ⟨t', ht, hl⟩ := h
  by_contra hlt
  obtain ⟨m, rfl⟩ : ∃ m, n = i + (m + 1) := ⟨n - i - 1, by omega⟩
  rw [← drop_drop, ht, drop_succ_cons] at hn
  have hm : quote ∈ t' := mem_of_mem_drop (i := m) (hn ▸ mem_cons_self)
  exact absurd (blank_of_indentOf hl hm) (Bool.eq_false_iff.mp hq)

theorem cutOffFrom_succ (hc : ¬Closes quote s i) (ho : ¬CutOff quote s i) :
    CutOffFrom quote s (i + 1) ↔ CutOffFrom quote s i := by
  constructor
  case mp =>
    intro ⟨j, hj, hcut, hno⟩
    refine ⟨j, by omega, hcut, fun l hl hlj => ?_⟩
    rcases Nat.eq_or_lt_of_le hl with rfl | hl
    case inl => exact hc
    case inr => exact hno l hl hlj
  case mpr =>
    intro ⟨j, hj, hcut, hno⟩
    rcases Nat.eq_or_lt_of_le hj with rfl | hj
    case inl => exact absurd hcut ho
    case inr => exact ⟨j, hj, hcut, fun l hl => hno l (by omega)⟩

theorem fastLoop_panicsIf (hp : 0 < p.pos) (hk : i + k = p.data.length) :
    PanicsIf (CutOffFrom quote p.data i) (fastLoop quote k i) p fun _ p' => After p p' := by
  induction k generalizing i
  case zero =>
    refine .of_safe trivial fun ⟨j, hj, hcut, _⟩ => ?_
    have := hcut.lt_length
    omega
  case succ k hi =>
    by_cases ho : CutOff quote p.data i
    case pos =>
      exact .inl ⟨⟨i, le_rfl, ho, fun l _ _ => by omega⟩, bind_of_error (check_of_cutOff hp ho)⟩
    case neg =>
      by_cases hc : Closes quote p.data i
      case pos =>
        have ⟨n, hn⟩ := check_of_closes hp hc
        refine .of_safe ((wp_bind_of_ok hn).mpr (takeASCII_safe n (by omega))) ?_
        intro ⟨j, hj, hcut, hno⟩
        rcases Nat.eq_or_lt_of_le hj with rfl | hj
        case inl => exact ho hcut
        case inr => exact hno i le_rfl hj hc
      case neg =>
        exact .bind_of_ok (check_of_not hp (by omega) hc ho)
          ((hi (by omega)).congr (cutOffFrom_succ hc ho))

end Quote

-- An ASCII item that `parseASCIIFast` reads is cut off behind what may be its closing quote: at its
-- declared size, or before any place that could close it.
def CutOffItem (maxSize : Nat) (p : Parser) : Prop :=
  ∃ quote, (quote = '\''.toUInt8 ∨ quote = '"'.toUInt8) ∧ p.next = some quote ∧
    (maxSize = 0 ∨ maxSize + 2 ≤ p.step.data.length) ∧
    (0 < maxSize ∧ CutOff quote p.step.data maxSize ∨ CutOffFrom quote p.step.data 0)

theorem Closes.not_cutOffFrom {n : Nat} (h : Closes quote s n)
    (hq : isBlank quote = false) : ¬CutOffFrom quote s 0 := by
  intro ⟨j, _, hcut, hno⟩
  have ⟨t, ht, _⟩ := h
  rcases Nat.eq_or_lt_of_le (hcut.ge hq ht) with rfl | hlt
  case inl => exact h.not_cutOff hcut
  case inr => exact hno n (Nat.zero_le _) hlt h

theorem parseASCIIFast_panicsIf (maxSize : Nat) :
    PanicsIf (CutOffItem maxSize p) (parseASCIIFast maxSize) p fun _ p' => After p p' := by
  have hs := After.step p
  refine .bind_of_ok nextNonSpaceRune_eq ?_
  split
  case isTrue h =>
    refine .of_safe hs fun ⟨q, hq, hn, _⟩ => ?_
    rw [h] at hn
    cases hn
    revert hq
    decide
  case isFalse =>
    split
    case isFalse h =>
      refine .of_safe trivial fun ⟨q, hq, hn, _⟩ => h ?_
      simpa [hn] using hq
    case isTrue h =>
      obtain ⟨q, hn, hq⟩ : ∃ q, p.next = some q ∧ (q = '\''.toUInt8 ∨ q = '"'.toUInt8) := by
        rcases h with h | h <;> exact ⟨_, h, by simp⟩
      have hb : isBlank q = false := by rcases hq with rfl | rfl <;> decide
      have hp : 0 < p.step.pos := Nat.zero_lt_of_lt (pos_lt_step (hn ▸ rfl))
      have hT : CutOffItem maxSize p ↔ (maxSize = 0 ∨ maxSize + 2 ≤ p.step.data.length) ∧
          (0 < maxSize ∧ CutOff q p.step.data maxSize ∨ CutOffFrom q p.step.data 0) := by
        constructor
        case mp =>
          intro ⟨q', _, hn', h⟩
          cases hn.symm.trans hn'
          exact h
        case mpr => exact fun h => ⟨q, hq, hn, h⟩
      have hloop : PanicsIf (CutOffFrom q p.step.data 0) (fastLoop q p.step.data.length 0) p.step
          fun _ p' => After p p' :=
        (fastLoop_panicsIf hp (Nat.zero_add _)).mono fun _ _ => hs.trans
      rw [hn, Option.getD_some]
      refine .congr (.bind_of_ok (run_get _) ?_) hT.symm
      split
      case isFalse h₀ =>
        obtain rfl : maxSize = 0 := by omega
        exact hloop.congr (by simp)
      case isTrue h₀ =>
        split
        case isTrue hl => exact .of_safe trivial fun h => by omega
        case isFalse hl =>
          by_cases ho : CutOff q p.step.data maxSize
          case pos =>
            exact .inl ⟨⟨.inr (by omega), .inl ⟨h₀, ho⟩⟩, bind_of_error (check_of_cutOff hp ho)⟩
          case neg =>
            by_cases hc : Closes q p.step.data maxSize
            case pos =>
              have ⟨n, hn⟩ := check_of_closes hp hc
              refine .of_safe ((wp_bind_of_ok hn).mpr ?_) ?_
              · exact (takeASCII_safe n (by omega)).mono fun _ _ => hs.trans
              · exact fun h => h.2.elim (ho ·.2) (hc.not_cutOffFrom hb)
            case neg =>
              refine .bind_of_ok (check_of_not hp (by omega) hc ho) (hloop.congr ?_)
              exact ⟨fun h => ⟨.inr (by omega), .inr h⟩, fun h => h.2.resolve_left (ho ·.2)⟩

section Items

variable {floatValue : Nat → Bytes → Except NumErr Ieee754.F64} {child : P Item} {d : Nat}
  {items : List Item} {C : Parser → Prop}

-- The children that a list has from `p` on are read up to one that is read from a state with `C`.
inductive Visits (child : P Item) (C : Parser → Prop) : Parser → Prop
  | here {p : Parser} : p.next = some '<'.toUInt8 → C p.trim → Visits child C p
  | next {p p' : Parser} {item : Item} :
    p.next = some '<'.toUInt8 → child p.trim = .ok (item, p') → Visits child C p' → Visits child C p

-- A condition on an item by its type, whether it has a size, the greatest size, and the parser.
abbrev ItemCondition :=
  FormatCode → Bool → Nat → Parser → Prop

-- Reading an item from `p` reaches an item with `B`: itself, or one in a list.
def ItemReaches (floatValue : Nat → Bytes → Except NumErr Ieee754.F64) (B : ItemCondition) :
    Nat → Parser → Prop
  | 0,     _ => False
  | d + 1, p =>
    ∃ itemType hasSize maxSize q, parseItemHead p = .ok ((itemType, hasSize, maxSize), q) ∧
      (B itemType hasSize maxSize q ∨
        (itemType = .list ∧ q.listDepth < maxListDepth ∧
          Visits (parseItemIn floatValue d) (ItemReaches floatValue B d)
            { q with listDepth := q.listDepth + 1 }))

-- The item is an ASCII item that is cut off, and is read without escapes.
def CutOffASCII : ItemCondition := fun itemType _ maxSize q =>
  itemType = .ascii ∧ q.strict = false ∧ CutOffItem maxSize q

theorem trim_advance (h : p.next = some c) :
    discard (forward 1) p.trim = .ok ((), p.step) := by
  have hs : p.next.isSome := h ▸ rfl
  have hl : 1 ≤ p.trim.data.length := by
    have := next_isSome.mp hs
    rw [data_trim hs, length_drop]
    omega
  rw [discard_forward hl, trim, if_pos hs, step, if_pos hs, advance_advance]

theorem listStep_child (child : P Item) (items : List Item) (h : p.next = some '<'.toUInt8) :
    listStep child items p =
      (child >>= fun item => pure (Sum.inl (items ++ [item]) : List Item ⊕ Item)) p.trim := by
  rw [listStep, bind_of_ok peekNonSpaceRune_eq, h]
  rfl

theorem listStep_close (h : p.next = some '>'.toUInt8) :
    listStep child items p =
      .ok (.inr (Secs2.newListItem (items.map some)),
        { p.step with listDepth := p.listDepth - 1 }) := by
  rw [listStep, bind_of_ok peekNonSpaceRune_eq, h]
  refine (bind_of_ok (trim_advance h)).trans ?_
  have hd : p.step.listDepth = p.listDepth := (After.step p).listDepth
  rw [← hd]
  rfl

theorem listStep_other (child : P Item) (items : List Item) (h₁ : p.next ≠ some '<'.toUInt8)
    (h₂ : p.next ≠ some '>'.toUInt8) : ∃ e, listStep child items p = .error (.parse e) := by
  rw [listStep, bind_of_ok peekNonSpaceRune_eq]
  rcases h : p.next with _ | c
  case none => exact ⟨_, rfl⟩
  case some =>
    rw [h, Ne, Option.some.injEq] at h₁ h₂
    simp only [if_neg h₁, if_neg h₂]
    exact ⟨_, rfl⟩

-- The rest of a list: `p₀` is the parser before the list was entered.
theorem listLoop_panicsIf {p₀ : Parser} {k : Nat} (hc : ∀ q, q.listDepth = p₀.listDepth + 1 →
      PanicsIf (C q) child q fun _ q' => After q q' ∧ q.pos < q'.pos)
    (hp : After { p₀ with listDepth := p₀.listDepth + 1 } p) (hk : p.data.length < k) :
    PanicsIf (Visits child C p) (iterate .outOfFuel (listStep child) k items) p
      fun _ p' => After p₀ p' := by
  induction k generalizing p items
  case zero => omega
  case succ k hi =>
    have hd : p.listDepth = p₀.listDepth + 1 := hp.listDepth
    by_cases h₁ : p.next = some '<'.toUInt8
    case pos =>
      have hs := listStep_child child items h₁
      have ht := After.trim p
      rcases hc p.trim (ht.listDepth.trans hd) with ⟨hC, he⟩ | ⟨hC, hsafe⟩
      case inl =>
        exact .inl ⟨.here h₁ hC, iterate_error (hs.trans (bind_of_error he))⟩
      case inr =>
        rcases hr : child p.trim with e | ⟨item, q⟩
        case error =>
          refine .of_safe ?_ ?_
          · rw [Safe, wp_of_error (iterate_error (hs.trans (bind_of_error hr)))]
            exact hsafe.error hr
          · rintro (⟨_, h⟩ | ⟨_, h, _⟩)
            · exact hC h
            · cases hr.symm.trans h
        case ok =>
          obtain ⟨hq, hlt⟩ := hsafe.ok hr
          have hpq := ht.trans hq
          have := length_data_lt hpq (ht.pos.trans_lt hlt)
          have hV : Visits child C q ↔ Visits child C p := by
            refine ⟨.next h₁ hr, ?_⟩
            rintro (⟨_, h⟩ | ⟨_, h, hv⟩)
            · exact absurd h hC
            · cases hr.symm.trans h
              exact hv
          have hi := @hi q (items ++ [item]) (hp.trans hpq) (by omega)
          refine .congr ?_ hV
          unfold PanicsIf Safe Wp at *
          rwa [iterate_inl (hs.trans (bind_of_ok hr))]
    case neg =>
      have hV : ¬Visits child C p := by rintro (⟨h, _⟩ | ⟨h, _, _⟩) <;> exact h₁ h
      refine .of_safe ?_ hV
      by_cases h₂ : p.next = some '>'.toUInt8
      case pos =>
        have hs := hp.trans (.step p)
        rw [Safe, wp_of_ok (iterate_inr (listStep_close h₂))]
        exact ⟨hs.input, hs.strict, by simp [hd], hs.pos⟩
      case neg =>
        obtain ⟨e, he⟩ := listStep_other child items h₁ h₂
        rw [Safe, wp_of_error (iterate_error he)]
        trivial

theorem parseList_panicsIf (hc : p.listDepth < maxListDepth → ∀ q, q.listDepth = p.listDepth + 1 →
      PanicsIf (C q) child q fun _ q' => After q q' ∧ q.pos < q'.pos) :
    PanicsIf
      (p.listDepth < maxListDepth ∧ Visits child C { p with listDepth := p.listDepth + 1 })
      (parseList child) p fun _ p' => After p p' := by
  refine .bind_of_ok (run_modify ..) (.bind_of_ok (run_get _) ?_)
  split
  case isTrue h => exact .of_safe trivial fun h' => Nat.not_lt.mpr h'.1 h
  case isFalse h =>
    have hd : p.listDepth < maxListDepth := Nat.not_lt.mp h
    exact (listLoop_panicsIf (hc hd) (.refl _) (Nat.lt_succ_self _)).congr (by simp [hd])

-- The same, for an item whose head has been read.
def BodyReachesCutOff (floatValue : Nat → Bytes → Except NumErr Ieee754.F64) (d : Nat)
    (itemType : FormatCode) (hasSize : Bool) (maxSize : Nat) (q : Parser) : Prop :=
  CutOffASCII itemType hasSize maxSize q ∨
    (itemType = .list ∧ q.listDepth < maxListDepth ∧
      Visits (parseItemIn floatValue d) (ItemReaches floatValue CutOffASCII d)
        { q with listDepth := q.listDepth + 1 })

theorem parseItemBody_panicsIf {hasSize : Bool} {maxSize : Nat} (itemType : FormatCode)
    (hc : p.listDepth < maxListDepth → ∀ q, q.listDepth = p.listDepth + 1 →
      PanicsIf (ItemReaches floatValue CutOffASCII d q) (parseItemIn floatValue d) q
        fun _ q' => After q q' ∧ q.pos < q'.pos) :
    PanicsIf (BodyReachesCutOff floatValue d itemType hasSize maxSize p)
      (parseItemBody floatValue (parseItemIn floatValue d) hasSize maxSize itemType) p
      fun _ p' => After p p' := by
  have safe {x : P Item} {fc : FormatCode} (h : Forward x) (ha : fc ≠ .ascii) (hl : fc ≠ .list) :
      PanicsIf (BodyReachesCutOff floatValue d fc hasSize maxSize p) x p fun _ p' => After p p' :=
    .of_safe (h p) (by simp [BodyReachesCutOff, CutOffASCII, ha, hl])
  cases itemType
  case list => exact (parseList_panicsIf hc).congr (by simp [BodyReachesCutOff, CutOffASCII])
  case ascii =>
    refine .bind_of_ok (run_get _) ?_
    split
    case isTrue h  =>
      exact .of_safe (Forward.parseASCIIStrict p) (by simp [BodyReachesCutOff, CutOffASCII, h])
    case isFalse h =>
      exact (parseASCIIFast_panicsIf maxSize).congr (by simp [BodyReachesCutOff, CutOffASCII, h])
  case jis8 => exact safe (.parseVerbatim _ _ _) (by simp) (by simp)
  case localizedStr => exact safe (.parseLocalizedStr _) (by simp) (by simp)
  all_goals exact safe .parseValues (by simp) (by simp)

theorem parseItemIn_panicsIf (hd : 0 < d) (hl : maxListDepth < d + p.listDepth) :
    PanicsIf (ItemReaches floatValue CutOffASCII d p) (parseItemIn floatValue d) p
      fun _ p' => After p p' ∧ p.pos < p'.pos := by
  induction d generalizing p
  case zero => omega
  case succ d hi =>
    rcases h : parseItemHead p with e | ⟨⟨itemType, hasSize, maxSize⟩, q⟩
    case error =>
      refine .of_safe ?_ (by rintro ⟨_, _, _, _, h', _⟩; cases h.symm.trans h')
      rw [Safe, parseItemIn, wp_of_error (bind_of_error h)]
      exact parseItemHead_safe.error h
    case ok =>
      obtain ⟨hq, hlt⟩ := parseItemHead_safe.ok h
      have hT : BodyReachesCutOff floatValue d itemType hasSize maxSize q ↔
          ItemReaches floatValue CutOffASCII (d + 1) p := by
        refine ⟨fun hT => ⟨_, _, _, _, h, hT⟩, ?_⟩
        rintro ⟨_, _, _, _, h', hT⟩
        cases h.symm.trans h'
        exact hT
      refine .congr (.bind_of_ok h (.bind_safe (Q := fun _ q' => After q q') ?_ ?_)) hT
      · have hd := hq.listDepth
        exact parseItemBody_panicsIf itemType fun h q' hq' => hi (by omega) (by omega)
      · intro item q' hq'
        rw [Safe, wp_bind_of_ok skipComment_eq]
        have h' := hq'.trans (.uncomment q')
        exact ⟨hq.trans h', hlt.trans_le h'.pos⟩

def AfterHeader (p q : Parser) : Prop :=
  p.reset.uncomment.next ≠ none ∧ parseHSMSHeader p.reset.uncomment.trim = .ok ((), q)

def MsgReaches (floatValue : Nat → Bytes → Except NumErr Ieee754.F64) (B : ItemCondition)
    (p : Parser) : Prop :=
  ∃ q, AfterHeader p q ∧ q.uncomment.next ≠ some '.'.toUInt8 ∧
    ItemReaches floatValue B (maxListDepth + 1) q.uncomment.trim

inductive Boundary (floatValue : Nat → Bytes → Except NumErr Ieee754.F64) : Parser → Parser → Prop
  | refl {p : Parser} : Boundary floatValue p p
  | next {p p' q : Parser} {m : Hsms.DataMessage} :
    parseMsg floatValue false p = .ok (some m, p') → Boundary floatValue p' q →
    Boundary floatValue p q

def RunReaches (floatValue : Nat → Bytes → Except NumErr Ieee754.F64) (B : ItemCondition)
    (p : Parser) : Prop :=
  ∃ q, Boundary floatValue p q ∧ MsgReaches floatValue B q

theorem parseText_panicsIf :
    PanicsIf (p.uncomment.next ≠ some '.'.toUInt8 ∧
        ItemReaches floatValue CutOffASCII (maxListDepth + 1) p.uncomment.trim)
      (parseText floatValue) p fun _ p' => After p p' := by
  have h := (After.uncomment p).trans (.trim _)
  refine .bind_of_ok skipComment_eq (.bind_of_ok peekNonSpaceRune_eq ?_)
  split
  case isTrue hd  => exact .of_safe h fun h' => h'.1 hd
  case isFalse hd =>
    unfold parseItem
    have hi := @parseItemIn_panicsIf p.uncomment.trim floatValue (maxListDepth + 1)
      (Nat.succ_pos _) (by omega)
    exact (hi.congr (by simp [hd])).mono fun _ _ h' => h.trans h'.1

theorem After.reset (p : Parser) : After p p.reset :=
  ⟨rfl, rfl, rfl, le_rfl⟩

theorem parseMsg_panicsIf :
    PanicsIf (MsgReaches floatValue CutOffASCII p) (parseMsg floatValue false) p
      fun r p' => After p p' ∧ (r.isSome → p.pos < p'.pos) := by
  have h₀ : After p p.reset.uncomment.trim := (After.reset p).trans <| (After.uncomment _).trans <|
    .trim _
  refine .bind_of_ok (run_modify ..) (.bind_of_ok skipComment_eq (.bind_of_ok peekNonSpaceRune_eq ?_))
  split
  case isTrue h => exact .of_safe ⟨h₀, by simp⟩ fun h' => h'.choose_spec.1.1 h
  case isFalse h =>
    rcases hh : parseHSMSHeader p.reset.uncomment.trim with e | ⟨⟨⟩, q⟩
    case error =>
      refine .of_safe ?_ fun h' => by cases hh.symm.trans h'.choose_spec.1.2
      rw [Safe, parseMsgText, wp_of_error (bind_of_error hh)]
      exact (Forward.parseHSMSHeader _).error hh
    case ok =>
      have hq := h₀.trans ((Forward.parseHSMSHeader _).ok hh)
      have hT : (q.uncomment.next ≠ some '.'.toUInt8 ∧
          ItemReaches floatValue CutOffASCII (maxListDepth + 1) q.uncomment.trim) ↔
          MsgReaches floatValue CutOffASCII p := by
        refine ⟨fun hT => ⟨q, ⟨h, hh⟩, hT⟩, ?_⟩
        rintro ⟨q', h', hT⟩
        cases hh.symm.trans h'.2
        exact hT
      refine .congr (.bind_of_ok hh (.bind_safe parseText_panicsIf fun item q' hq' => ?_)) hT
      rw [Safe, endMessage, wp_bind_of_ok nextNonSpaceRune_eq]
      split
      case isFalse => trivial
      case isTrue hd =>
        have h' := hq.trans (hq'.trans (.step q'))
        have hlt := (hq.trans hq').pos.trans_lt (pos_lt_step (hd ▸ rfl))
        exact (newMessage_safe item).mono fun r p' hp => hp ▸ ⟨h', fun _ => hlt⟩

theorem parseMsg_header_safe :
    Safe (parseMsg floatValue true) p fun _ p' => After p p' := by
  have h₀ : After p p.reset.uncomment.trim := (After.reset p).trans <| (After.uncomment _).trans <|
    .trim _
  rw [Safe, parseMsg, wp_bind_of_ok (run_modify ..), wp_bind_of_ok skipComment_eq,
    wp_bind_of_ok peekNonSpaceRune_eq]
  split
  case isTrue => exact h₀
  case isFalse =>
    rcases hh : parseHSMSHeader p.reset.uncomment.trim with e | ⟨⟨⟩, q⟩
    case error =>
      rw [parseMsgText, wp_of_error (bind_of_error hh)]
      exact (Forward.parseHSMSHeader _).error hh
    case ok =>
      rw [parseMsgText, wp_bind_of_ok hh]
      have hq := h₀.trans ((Forward.parseHSMSHeader _).ok hh)
      exact (newMessage_safe _).mono fun _ _ hp => hp ▸ hq

section Runs

variable {B : ItemCondition} {q : Parser}

theorem RunReaches.here (h : MsgReaches floatValue B p) : RunReaches floatValue B p :=
  ⟨p, .refl, h⟩

theorem runReaches_of_none (h : ∀ m q, parseMsg floatValue false p ≠ .ok (some m, q)) :
    RunReaches floatValue B p ↔ MsgReaches floatValue B p := by
  refine ⟨fun ⟨q, hq, hm⟩ => ?_, .here⟩
  cases hq
  case refl => exact hm
  case next hn _ => exact absurd hn (h _ _)

theorem runReaches_of_some {m : Hsms.DataMessage}
    (h : parseMsg floatValue false p = .ok (some m, q)) :
    RunReaches floatValue B p ↔ MsgReaches floatValue B p ∨ RunReaches floatValue B q := by
  constructor
  case mp =>
    intro ⟨q', hq, hm⟩
    cases hq
    case refl => exact .inl hm
    case next hn hb =>
      cases h.symm.trans hn
      exact .inr ⟨q', hb, hm⟩
  case mpr =>
    rintro (hm | ⟨q', hq, hm⟩)
    · exact .here hm
    · exact ⟨q', .next h hq, hm⟩

end Runs

theorem messageLoop_panicsIf {messages : List Hsms.DataMessage} {k : Nat} (hk : p.data.length < k) :
    PanicsIf (RunReaches floatValue CutOffASCII p)
      (iterate .outOfFuel (messageStep floatValue) k messages) p fun _ _ => True := by
  induction k generalizing p messages
  case zero => omega
  case succ k hi =>
    rcases @parseMsg_panicsIf p floatValue with ⟨hT, he⟩ | ⟨hT, hsafe⟩
    case inl => exact .inl ⟨.here hT, iterate_error (bind_of_error he)⟩
    case inr =>
      rcases hr : parseMsg floatValue false p with e | ⟨_ | m, q⟩
      case error =>
        refine .of_safe ?_ (mt (runReaches_of_none (by simp [hr])).mp hT)
        rw [Safe, wp_of_error (iterate_error (bind_of_error hr))]
        exact hsafe.error hr
      case ok.none =>
        refine .of_safe ?_ (mt (runReaches_of_none (by simp [hr])).mp hT)
        have hs : messageStep floatValue messages p = .ok (.inr messages, q) := bind_of_ok hr
        rw [Safe, wp_of_ok (iterate_inr hs)]
        trivial
      case ok.some =>
        obtain ⟨hq, hlt⟩ := hsafe.ok hr
        have := length_data_lt hq (hlt rfl)
        have hi := @hi q (messages ++ [m]) (by omega)
        refine .congr ?_ ((runReaches_of_some hr).trans (or_iff_right hT)).symm
        unfold PanicsIf Safe Wp at *
        have hs : messageStep floatValue messages p = .ok (.inl (messages ++ [m]), q) :=
          bind_of_ok hr
        rwa [iterate_inl hs]

theorem PanicsIf.ok {a : α} (h : PanicsIf T x p Q) (hx : x p = .ok (a, p')) : Q a p' := by
  rcases h with ⟨_, he⟩ | ⟨_, hs⟩
  case inl => cases he.symm.trans hx
  case inr => exact hs.ok hx

theorem Visits.exists {n : Nat} (h : Visits child C p) (hp : p.listDepth = n)
    (hc : ∀ {q item q'}, q.listDepth = n → child q = .ok (item, q') → After q q') :
    ∃ q, C q ∧ After p q := by
  induction h
  case here p _ hC => exact ⟨_, hC, .trim p⟩
  case next p p' item _ hi _ ih =>
    have ht := After.trim p
    have hq := ht.trans (hc (ht.listDepth.trans hp) hi)
    have ⟨q, hC, ha⟩ := ih (hq.listDepth.trans hp)
    exact ⟨q, hC, hq.trans ha⟩

-- The parser is not strict, and its input has a place where an ASCII item is cut off.
def CutsOff (p : Parser) : Prop :=
  p.strict = false ∧ ∃ maxSize q, q.input = p.input ∧ CutOffItem maxSize q

theorem CutsOff.of_eq (h : CutsOff p') (hi : p'.input = p.input) (hs : p'.strict = p.strict) :
    CutsOff p :=
  have ⟨hf, maxSize, q, hq, hc⟩ := h
  ⟨hs.symm.trans hf, maxSize, q, hq.trans hi, hc⟩

theorem ItemReaches.cutsOff (h : ItemReaches floatValue CutOffASCII d p)
    (hl : maxListDepth < d + p.listDepth) : CutsOff p := by
  induction d generalizing p
  case zero => exact h.elim
  case succ d hi =>
    have ⟨itemType, hasSize, maxSize, q, hh, h⟩ := h
    have hq := (parseItemHead_safe.ok hh).1
    have hd := hq.listDepth
    refine CutsOff.of_eq ?_ hq.input hq.strict
    rcases h with ⟨_, hs, hc⟩ | ⟨_, hlt, hv⟩
    case inl => exact ⟨hs, maxSize, q, rfl, hc⟩
    case inr =>
      have ⟨q', hC, ha⟩ := hv.exists (n := q.listDepth + 1) rfl fun hl' hc =>
        ((parseItemIn_panicsIf (by omega) (by omega)).ok hc).1
      have hl' := ha.listDepth
      exact (hi hC (by simp only at hl'; omega)).of_eq ha.input ha.strict

theorem MsgReaches.cutsOff (h : MsgReaches floatValue CutOffASCII p) : CutsOff p := by
  have ⟨q, ⟨_, hh⟩, _, h⟩ := h
  have hq := (After.reset p).trans <| (After.uncomment _).trans <| (After.trim _).trans <|
    (Forward.parseHSMSHeader _).ok hh
  have hq := hq.trans <| (After.uncomment q).trans (.trim _)
  exact (h.cutsOff (by omega)).of_eq hq.input hq.strict

theorem Boundary.after {q : Parser} (h : Boundary floatValue p q) : After p q := by
  induction h
  case refl => rfl
  case next hn _ hi => exact (parseMsg_panicsIf.ok hn).1.trans hi

theorem RunReaches.cutsOff (h : RunReaches floatValue CutOffASCII p) : CutsOff p := by
  have ⟨q, hq, hm⟩ := h
  exact hm.cutsOff.of_eq hq.after.input hq.after.strict

-- The last byte of a text that is no blank.
def lastByte (s : Bytes) : Option UInt8 :=
  s.reverse.find? (!isBlank ·)

theorem CutOff.lastByte {i k : Nat} (h : CutOff quote (s.drop k) i) (hq : isBlank quote = false) :
    lastByte s = some quote := by
  have ⟨t, ht, hl⟩ := h
  have hnone : t.reverse.find? (!isBlank ·) = none := by
    refine find?_eq_none.mpr fun c hc => ?_
    simp [blank_of_indentOf hl (mem_reverse.mp hc)]
  rw [drop_drop] at ht
  rw [Parser.lastByte, ← take_append_drop (k + i) s, ht, reverse_append, reverse_cons,
    append_assoc, find?_append, hnone]
  simp [hq]

theorem CutsOff.lastByte (h : CutsOff p) :
    lastByte p.input = some '\''.toUInt8 ∨ lastByte p.input = some '"'.toUInt8 := by
  have ⟨_, maxSize, q, hi, quote, hquote, _, _, hcut⟩ := h
  have ⟨i, hc⟩ : ∃ i, CutOff quote (q.step.input.drop q.step.pos) i := by
    rcases hcut with ⟨_, hc⟩ | ⟨j, _, hc, _⟩
    exacts [⟨_, hc⟩, ⟨j, hc⟩]
  rw [(After.step q).input, hi] at hc
  rcases hquote with rfl | rfl
  · exact .inl (hc.lastByte (by decide))
  · exact .inr (hc.lastByte (by decide))

end Items
end Parser

section Returns

variable {α : Type} {T : Prop} {x : P α} {p : Parser} {Q : α → Parser → Prop}

def Returns (r : Except Fault α) : Prop :=
  ∀ e, r = .error e → e.IsError

theorem returns_of_safe (h : Parser.Safe x p Q) : Returns (result (x p)) := by
  intro e he
  rcases hx : x p with e' | ⟨a, p'⟩
  case error =>
    rw [hx] at he
    cases he
    exact h.error hx
  case ok =>
    rw [hx] at he
    cases he

theorem returns_iff (h : Parser.PanicsIf T x p Q) : Returns (result (x p)) ↔ ¬T := by
  rcases h with ⟨hT, he⟩ | ⟨hT, hs⟩
  case inl =>
    refine ⟨fun h => ?_, fun h => absurd hT h⟩
    rw [he] at h
    exact (h _ rfl).elim
  case inr => exact ⟨fun _ => hT, fun _ => returns_of_safe hs⟩

-- To evaluate a run: results have no decidable equality.
theorem eq_panic {r : Except Fault α} (h : (r matches .error .panic) = true) : r = .error .panic := by
  revert h
  rcases r with (_ | _ | _ | _ | _) | _ <;> simp

end Returns

-- The parser returns a result or an error exactly if it does not get to an ASCII item that is cut
-- off behind what may be its closing quote, so always if the text does not end with a quote.
theorem parser_returns_iff (floatValue : Nat → Bytes → Except NumErr Ieee754.F64) (p : Parser)
    (input : Bytes) :
    (Returns (p.parse floatValue input) ↔
      ¬Parser.RunReaches floatValue Parser.CutOffASCII (p.initInput input)) ∧
    (Returns (p.parseMessage floatValue input) ↔
      ¬Parser.MsgReaches floatValue Parser.CutOffASCII (p.initInput input)) ∧
    Returns (p.parseHeader floatValue input) ∧
    (p.strict → Returns (p.parse floatValue input) ∧ Returns (p.parseMessage floatValue input)) ∧
    (Parser.lastByte input ≠ some '\''.toUInt8 → Parser.lastByte input ≠ some '"'.toUInt8 →
      Returns (p.parse floatValue input) ∧ Returns (p.parseMessage floatValue input)) := by
  have hparse : Returns (p.parse floatValue input) ↔
      ¬Parser.RunReaches floatValue Parser.CutOffASCII (p.initInput input) :=
    returns_iff (Parser.messageLoop_panicsIf (Nat.lt_succ_self _))
  have hmessage : Returns (p.parseMessage floatValue input) ↔
      ¬Parser.MsgReaches floatValue Parser.CutOffASCII (p.initInput input) := by
    apply returns_iff (Parser.PanicsIf.bind_safe Parser.parseMsg_panicsIf _) (Q := fun _ _ => True)
    rintro (_ | m) p' _ <;> trivial
  have hcut (h : ¬Parser.CutsOff (p.initInput input)) :
      Returns (p.parse floatValue input) ∧ Returns (p.parseMessage floatValue input) :=
    ⟨hparse.mpr fun hr => h hr.cutsOff, hmessage.mpr fun hm => h hm.cutsOff⟩
  refine ⟨hparse, hmessage, ?_, ?_, ?_⟩
  · apply returns_of_safe (Prog.wp_bind.mpr (Parser.parseMsg_header_safe.mono _))
      (Q := fun _ _ => True)
    rintro (_ | m) p' _ <;> trivial
  · exact fun hs => hcut fun h => Bool.noConfusion (hs.symm.trans h.1)
  · exact fun h₁ h₂ => hcut fun h => h.lastByte.elim h₁ h₂

theorem parser_returns_unclosed :
    Returns ((newParser true).parse (fun _ _ => .error .errSyntax) (ascii "S1F1\n<A \"a\"")) ∧
    Returns ((newParser false).parse (fun _ _ => .error .errSyntax) (ascii "S1F1\n<A \"a\" b")) :=
  ⟨((parser_returns_iff _ (newParser true) _).2.2.2.1 rfl).1,
    ((parser_returns_iff _ (newParser false) _).2.2.2.2 (by decide) (by decide)).1⟩

theorem parse_cutOff :
    parse (fun _ _ => .error .errSyntax) (ascii "S1F1\n<A \"a\"") = .error .panic ∧
    (newParser false).parseMessage (fun _ _ => .error .errSyntax) (ascii "S1F1\n<A \"a\"") =
      .error .panic := by
  constructor
  · exact eq_panic (by decide +kernel)
  · exact eq_panic (by decide +kernel)

end Sml
