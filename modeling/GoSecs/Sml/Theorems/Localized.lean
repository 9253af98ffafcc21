import GoSecs.Sml.Theorems.Panic

open Strings Prog List

namespace Sml

open Sml.Parser (Blank)
open Secs2 (Bytes Item newLocalizedStrItem newEmptyLocalizedStrItem)

section Grammar

abbrev IsQuote (c : UInt8) : Prop :=
  c = '\''.toUInt8 ∨ c = '"'.toUInt8

-- What a backslash escapes in a quoted run.
def IsEscaped (c : UInt8) : Prop :=
  c = '\\'.toUInt8 ∨ c = '\''.toUInt8 ∨ c = '"'.toUInt8

-- The text between two quotes `q`. A backslash that escapes nothing stands for itself.
inductive Quoted (q : UInt8) : Bytes → Bytes → Prop
  | nil : Quoted q [] []
  | escape {c : UInt8} {s v : Bytes} :
    IsEscaped c → Quoted q s v → Quoted q ('\\'.toUInt8 :: c :: s) (c :: v)
  | backslash {c : UInt8} {s v : Bytes} :
    ¬IsEscaped c → Quoted q (c :: s) v → Quoted q ('\\'.toUInt8 :: c :: s) ('\\'.toUInt8 :: v)
  | char {c : UInt8} {s v : Bytes} :
    c ≠ q → c ≠ '\\'.toUInt8 → Quoted q s v → Quoted q (c :: s) (c :: v)

structure DigitToken (tok : Bytes) : Prop where
  decimal : ∃ c s, tok = c :: s ∧ Strconv.isDecimal c
  closed  : ∀ c ∈ tok, (ascii " \t\r\n>").contains c = false

abbrev IsHex (tok : Bytes) : Prop :=
  2 < tok.length ∧ (tok.take 2 = ascii "0x" ∨ tok.take 2 = ascii "0X")

-- The value of a localized string up to its `>`. The flag tells that no token came before.
inductive Value : Bool → Bytes → Option UInt16 → Bytes → Prop
  | close {first : Bool} {bl : Bytes} : Blank bl → Value first (bl ++ ['>'.toUInt8]) none []
  | run {first : Bool} {bl s t v w : Bytes} {q : UInt8} {lsh : Option UInt16} :
    Blank bl → IsQuote q → Quoted q s v → Value false t lsh w →
    Value first (bl ++ q :: (s ++ q :: t)) lsh (v ++ w)
  | byte {first : Bool} {bl tok t w : Bytes} {n : Nat} {c : UInt8} {lsh : Option UInt16} :
    Blank bl → DigitToken tok → IsHex tok → Strconv.parseUint (tok.drop 2) 16 8 = (n, none) →
    (ascii " \t\r\n>").contains c → Value false (c :: t) lsh w →
    Value first (bl ++ (tok ++ c :: t)) lsh (.ofNat n :: w)
  | lsh {bl tok t w : Bytes} {n : Nat} {c : UInt8} :
    Blank bl → DigitToken tok → ¬IsHex tok → Strconv.parseUint tok 10 16 = (n, none) →
    (ascii " \t\r\n>").contains c → Value false (c :: t) none w →
    Value true (bl ++ (tok ++ c :: t)) (some (.ofNat n)) w

variable {q : UInt8}

theorem IsQuote.ne_backslash (h : IsQuote q) : '\\'.toUInt8 ≠ q := by
  rcases h with rfl | rfl <;> decide

namespace Value

variable {first : Bool} {text v : Bytes} {lsh : Option UInt16}

theorem exists_cons (h : Value first text lsh v) : ∃ c t, text = c :: t := by
  refine exists_cons_of_ne_nil fun hn => ?_
  cases h <;> simp at hn

theorem lsh_eq_none (h : Value first text lsh v) (hf : first = false) : lsh = none := by
  induction h
  case close => rfl
  case run hi => exact hi rfl
  case byte hi => exact hi rfl
  case lsh => cases hf

theorem toFirst (h : Value first text lsh v) : Value true text lsh v := by
  cases h
  case close hb => exact .close hb
  case run hb hq hs ht => exact .run hb hq hs ht
  case byte hb ht hx hn hc hv => exact .byte hb ht hx hn hc hv
  case lsh hb ht hx hn hc hv => exact .lsh hb ht hx hn hc hv

theorem mem_close (h : Value first text lsh v) : '>'.toUInt8 ∈ text := by
  induction h
  case close => simp
  case run hi | lsh hi => simp [hi]
  case byte hi => exact mem_append_right _ (mem_append_right _ hi)

theorem head_ne_slash (h : Value first text lsh v) : text.head? ≠ some '/'.toUInt8 := by
  have start {bl s : Bytes} {c : UInt8} (hb : Blank bl) (hc : c ≠ '/'.toUInt8) :
      (bl ++ c :: s).head? ≠ some '/'.toUInt8 := by
    rcases bl with _ | ⟨b, bl⟩
    case nil  => simpa using hc
    case cons =>
      have hb : b ≠ '/'.toUInt8 := by
        rintro rfl
        exact absurd (hb _ mem_cons_self) (by decide)
      simpa using hb
  have digit {bl tok s : Bytes} (hb : Blank bl) (ht : DigitToken tok) :
      (bl ++ (tok ++ s)).head? ≠ some '/'.toUInt8 := by
    obtain ⟨c, r, rfl, hc⟩ := ht.decimal
    refine start hb ?_
    rintro rfl
    exact absurd hc (by decide)
  cases h
  case close hb => exact start hb (by decide)
  case run hb hq _ _ => exact start hb (by rcases hq with rfl | rfl <;> decide)
  case byte hb ht _ _ _ _ => exact digit hb ht
  case lsh hb ht _ _ _ _ => exact digit hb ht

end Value

theorem DigitToken.length_pos {tok : Bytes} (h : DigitToken tok) : 0 < tok.length := by
  have ⟨c, s, hs, _⟩ := h.decimal
  simp [hs]

theorem IsQuote.ne_close (h : IsQuote q) : q ≠ '>'.toUInt8 := by
  rcases h with rfl | rfl <;> decide

end Grammar

namespace Parser

variable {p p' : Parser} {s v data rest buf : Bytes} {q : UInt8} {i j k : Nat} {c : UInt8}
  {t : Bytes}

theorem drop_succ_of_cons (h : data.drop i = c :: t) :
    data.drop (i + 1) = t := by
  rw [← drop_drop, h, drop_one, tail_cons]

theorem lt_length_of_drop (h : data.drop i = c :: t) :
    i < data.length := by
  by_contra hl
  rw [drop_eq_nil_of_le (Nat.not_lt.mp hl)] at h
  cases h

section Steps

variable {c d : UInt8} {t : Bytes}

theorem quotedRun_close (h : data.drop i = q :: t) :
    quotedRun data q (k + 1) i buf p = .ok ((i, buf), p) := by
  rw [quotedRun, if_pos (lt_length_of_drop h), bind_of_ok (byteAt_drop h), if_pos rfl]
  rfl

theorem quotedRun_char (h : data.drop i = c :: t) (hq : c ≠ q) (hc : c ≠ '\\'.toUInt8) :
    quotedRun data q (k + 1) i buf p = quotedRun data q k (i + 1) (buf ++ [c]) p := by
  rw [quotedRun, if_pos (lt_length_of_drop h), bind_of_ok (byteAt_drop h), if_neg hq,
    if_neg (mt And.left hc), bind_of_ok (byteAt_drop h)]

theorem quotedRun_pair (h : data.drop i = '\\'.toUInt8 :: d :: t) (hq : '\\'.toUInt8 ≠ q) :
    (IsEscaped d →
      quotedRun data q (k + 1) i buf p = quotedRun data q k (i + 2) (buf ++ [d]) p) ∧
    (¬IsEscaped d →
      quotedRun data q (k + 1) i buf p =
        quotedRun data q k (i + 1) (buf ++ ['\\'.toUInt8]) p) := by
  have h' := drop_succ_of_cons h
  rw [quotedRun, if_pos (lt_length_of_drop h), bind_of_ok (byteAt_drop h), if_neg hq,
    if_pos ⟨rfl, lt_length_of_drop h'⟩, bind_of_ok (byteAt_drop h')]
  constructor
  case left  => exact fun hd => (congrFun (if_pos hd) p).trans (bind_of_ok (byteAt_drop h'))
  case right => exact fun hd => (congrFun (if_neg hd) p).trans (bind_of_ok (byteAt_drop h))

end Steps

theorem quotedRun_complete (h : Quoted q s v) (hq : IsQuote q)
    (hd : data.drop i = s ++ q :: rest) (hk : s.length < k) :
    quotedRun data q k i buf p = .ok ((i + s.length, buf ++ v), p) := by
  induction h generalizing i k buf <;> obtain ⟨k, rfl⟩ : ∃ n, k = n + 1 := ⟨k - 1, by omega⟩
  case nil => simpa using quotedRun_close hd
  case escape c s v hc _ hi =>
    have hk : s.length < k := by simp at hk; omega
    rw [(quotedRun_pair hd hq.ne_backslash).1 hc,
      hi (drop_succ_of_cons (drop_succ_of_cons hd)) hk]
    simp [Nat.add_assoc, Nat.add_comm 2]
  case backslash c s v hc _ hi =>
    have hk : (c :: s).length < k := by simp at hk ⊢; omega
    rw [(quotedRun_pair hd hq.ne_backslash).2 hc, hi (drop_succ_of_cons hd) hk]
    simp [Nat.add_assoc, Nat.add_comm 1]
  case char c s v hcq hc _ hi =>
    have hk : s.length < k := by simpa using hk
    rw [quotedRun_char hd hcq hc, hi (drop_succ_of_cons hd) hk]
    simp [Nat.add_assoc, Nat.add_comm 1]

theorem quotedRun_end (h : data.length ≤ i) :
    quotedRun data q (k + 1) i buf p = .ok ((i, buf), p) := by
  rw [quotedRun, if_neg (Nat.not_lt.mpr h)]
  rfl

theorem quotedRun_sound (hq : IsQuote q) (h : quotedRun data q k i buf p = .ok ((j, v), p'))
    (hj : j < data.length) :
    ∃ s w rest, data.drop i = s ++ q :: rest ∧ Quoted q s w ∧ j = i + s.length ∧ v = buf ++ w := by
  induction k generalizing i buf
  case zero => cases h
  case succ k hi =>
    rcases hd : data.drop i with _ | ⟨c, t⟩
    case nil =>
      rw [quotedRun_end (drop_eq_nil_iff.mp hd)] at h
      cases h
      exact absurd hj (Nat.not_lt.mpr (drop_eq_nil_iff.mp hd))
    case cons =>
      by_cases hc : c = q
      case pos =>
        subst hc
        rw [quotedRun_close hd] at h
        cases h
        exact ⟨[], [], t, rfl, .nil, by simp, by simp⟩
      case neg =>
        by_cases hb : c = '\\'.toUInt8
        case neg =>
          rw [quotedRun_char hd hc hb] at h
          obtain ⟨s, w, r, hs, hw, hj, hv⟩ := hi h
          rw [drop_succ_of_cons hd] at hs
          exact ⟨c :: s, c :: w, r, by simp [hs], .char hc hb hw, by simp [hj]; omega, by simp [hv]⟩
        case pos =>
          subst hb
          rcases t with _ | ⟨d, t⟩
          case nil =>
            have hl := drop_eq_nil_iff.mp (drop_succ_of_cons hd)
            rw [quotedRun, if_pos (lt_length_of_drop hd), bind_of_ok (byteAt_drop hd), if_neg hc,
              if_neg (by omega), bind_of_ok (byteAt_drop hd)] at h
            cases k
            case zero   => cases h
            case succ k =>
              rw [quotedRun_end hl] at h
              cases h
              omega
          case cons =>
            by_cases he : IsEscaped d
            case pos =>
              rw [(quotedRun_pair hd hc).1 he] at h
              obtain ⟨s, w, r, hs, hw, hj, hv⟩ := hi h
              rw [drop_succ_of_cons (drop_succ_of_cons hd)] at hs
              exact ⟨_ :: d :: s, d :: w, r, by simp [hs], .escape he hw, by simp [hj]; omega,
                by simp [hv]⟩
            case neg =>
              rw [(quotedRun_pair hd hc).2 he] at h
              obtain ⟨s, w, r, hs, hw, hj, hv⟩ := hi h
              rw [drop_succ_of_cons hd] at hs
              rcases s with _ | ⟨d', s⟩
              case nil => exact absurd (.inr ((cons_eq_cons.mp hs).1 ▸ hq)) he
              case cons =>
                obtain ⟨rfl, hs⟩ := cons_eq_cons.mp hs
                exact ⟨_ :: d :: s, _ :: w, r, by simp [hs], .backslash he hw,
                  by simp [hj]; omega, by simp [hv]⟩

section Tokens

variable {bl t tok : Bytes} {c : UInt8} {st st' : Tokens} {zeroLength : Bool} {item : Item}

theorem tokenStep_eq (h : p.next = some c) :
    tokenStep zeroLength st p = tokenAt zeroLength st c p.trim := by
  have hs : p.next.isSome := h ▸ rfl
  have ⟨t, ht⟩ : ∃ t, p.trim.data = c :: t := by
    rw [data_trim hs]
    exact head?_eq_some_iff.mp h
  rw [tokenStep, bind_of_ok skipSpace_eq, hs, if_pos rfl, bind_of_ok (run_get _), ht,
    bind_of_ok byteAt_cons]

theorem tokenStep_split (hd : p.data = bl ++ c :: t) (hb : Blank bl) (hc : isBlank c = false) :
    tokenStep zeroLength st p = tokenAt zeroLength st c (p.advance bl.length) := by
  rw [tokenStep_eq (next_of_split hd hb hc), trim_of_split hd hb hc]

theorem tokenStep_none (h : p.next = none) :
    ∃ e, tokenStep zeroLength st p = .error (.parse e) := by
  rw [tokenStep, bind_of_ok skipSpace_eq, h]
  exact ⟨_, rfl⟩

theorem tokenAt_close (h : p.data = '>'.toUInt8 :: t) :
    tokenAt false st '>'.toUInt8 p =
      .ok (.inr (newLocalizedStrItem st.lsh st.buf), p.advance 1) := by
  rw [tokenAt, bind_of_ok (run_get p), if_pos rfl, bind_of_ok (discard_forward (by simp [h]))]
  rfl

theorem tokenAt_run (h : p.data = q :: (s ++ q :: t)) (hq : IsQuote q) (hs : Quoted q s v) :
    tokenAt false st q p =
      .ok (.inl { st with buf := st.buf ++ v, tokens := st.tokens + 1 },
        p.advance (s.length + 2)) := by
  have hl : p.data.length = s.length + t.length + 2 := by rw [h]; simp; omega
  have hd : p.data.drop 1 = s ++ q :: t := by rw [h]; rfl
  have hr : quotedRun p.data q (p.data.length + 1) 1 st.buf p =
      .ok ((1 + s.length, st.buf ++ v), p) := quotedRun_complete hs hq hd (by omega)
  rw [tokenAt, bind_of_ok (run_get p), if_neg hq.ne_close, if_neg Bool.false_ne_true,
    if_pos hq, bind_of_ok hr]
  refine (congrFun (if_neg (by omega)) p).trans ?_
  rw [bind_of_ok (discard_forward (by omega)), Nat.add_comm 1, Nat.add_assoc]
  rfl

theorem tokenEnd_append (ht : ∀ c ∈ tok, (ascii " \t\r\n>").contains c = false)
    (hc : (ascii " \t\r\n>").contains c) : tokenEnd (tok ++ c :: t) = tok.length := by
  have h₁ : tok.findIdx? ((ascii " \t\r\n>").contains ·) = none := by
    simpa using ht
  simp only [tokenEnd, indexAny, findIdx?_append, h₁, findIdx?_cons, hc]
  simp

theorem tokenEnd_all (ht : ∀ c ∈ tok, (ascii " \t\r\n>").contains c = false) :
    tokenEnd tok = tok.length := by
  have h : tok.findIdx? ((ascii " \t\r\n>").contains ·) = none := by
    simpa using ht
  rw [tokenEnd, indexAny, h, Option.getD_none]

theorem isDecimal_ne (h : Strconv.isDecimal c) :
    c ≠ '>'.toUInt8 ∧ ¬(c = '\''.toUInt8 ∨ c = '"'.toUInt8) ∧ isBlank c = false := by
  have ⟨h₁, h₂⟩ := Strconv.isDecimal_iff.mp h
  refine ⟨?_, ?_, ?_⟩
  · rintro rfl
    exact absurd h (by decide)
  · rintro (rfl | rfl) <;> exact absurd h (by decide)
  · by_contra hb
    simp only [isBlank, Bool.or_eq_true, decide_eq_true_eq, Bool.not_eq_false] at hb
    rcases hb with ((rfl | rfl) | rfl) | rfl <;> exact absurd h (by decide)

theorem digitToken_byte {n : Nat} (h : IsHex tok)
    (hn : Strconv.parseUint (tok.drop 2) 16 8 = (n, none)) :
    digitToken st tok p =
      .ok ({ st with buf := st.buf ++ [.ofNat n], tokens := st.tokens + 1 }, p) := by
  rw [digitToken, if_pos h, bind_of_ok (sliceFrom_of_le (Nat.le_of_lt h.1)), hn]
  rfl

theorem digitToken_lsh {n : Nat} (h : ¬IsHex tok) (ht : st.tokens = 0)
    (hn : Strconv.parseUint tok 10 16 = (n, none)) :
    digitToken st tok p = .ok ({ st with lsh := .ofNat n, tokens := st.tokens + 1 }, p) := by
  rw [digitToken, if_neg h, if_pos ht, hn]
  rfl

theorem digitToken_sound (h : digitToken st tok p = .ok (st', p')) :
    p' = p ∧ ∃ n,
      IsHex tok ∧ Strconv.parseUint (tok.drop 2) 16 8 = (n, none) ∧
        st' = { st with buf := st.buf ++ [.ofNat n], tokens := st.tokens + 1 } ∨
      ¬IsHex tok ∧ st.tokens = 0 ∧ Strconv.parseUint tok 10 16 = (n, none) ∧
        st' = { st with lsh := .ofNat n, tokens := st.tokens + 1 } := by
  by_cases hx : IsHex tok
  case pos =>
    rcases hn : Strconv.parseUint (tok.drop 2) 16 8 with ⟨n, _ | e⟩
    case none =>
      rw [digitToken_byte hx hn] at h
      cases h
      exact ⟨rfl, n, .inl ⟨hx, rfl, rfl⟩⟩
    case some =>
      rw [digitToken, if_pos hx, bind_of_ok (sliceFrom_of_le (Nat.le_of_lt hx.1)), hn] at h
      cases h
  case neg =>
    by_cases ht : st.tokens = 0
    case neg =>
      rw [digitToken, if_neg hx, if_neg ht] at h
      cases h
    case pos =>
      rcases hn : Strconv.parseUint tok 10 16 with ⟨n, _ | e⟩
      case none =>
        rw [digitToken_lsh hx ht hn] at h
        cases h
        exact ⟨rfl, n, .inr ⟨hx, ht, rfl, rfl⟩⟩
      case some =>
        rw [digitToken, if_neg hx, if_pos ht, hn] at h
        cases h

theorem tokenEnd_le (data : Bytes) : tokenEnd data ≤ data.length := by
  rw [tokenEnd]
  cases h : indexAny data (ascii " \t\r\n>")
  case none   => rfl
  case some i => exact (indexAny_lt h).le

theorem tokenAt_digit (hc : Strconv.isDecimal c) :
    tokenAt false st c p =
      (digitToken st (p.data.take (tokenEnd p.data)) >>= fun st => do
        discard <| forward (tokenEnd p.data)
        pure (.inl st)) p := by
  have ⟨h₁, h₂, _⟩ := isDecimal_ne hc
  rw [tokenAt, bind_of_ok (run_get p), if_neg h₁, if_neg Bool.false_ne_true, if_neg h₂, if_pos hc,
    bind_of_ok (sliceTo_of_le (tokenEnd_le _))]

theorem tokenAt_digit_ok (hc : Strconv.isDecimal c)
    (h : digitToken st (p.data.take (tokenEnd p.data)) p = .ok (st', p)) :
    tokenAt false st c p = .ok (.inl st', p.advance (tokenEnd p.data)) := by
  rw [tokenAt_digit hc, bind_of_ok h, bind_of_ok (discard_forward (tokenEnd_le _))]
  rfl

theorem tokenAt_sound {r : Tokens ⊕ Item} (hd : p.data = c :: t)
    (h : tokenAt false st c p = .ok (r, p')) :
    c = '>'.toUInt8 ∨
    (IsQuote c ∧ ∃ s v rest, t = s ++ c :: rest ∧ Quoted c s v) ∨
    (Strconv.isDecimal c ∧ ∃ st', r = .inl st' ∧ p' = p.advance (tokenEnd p.data) ∧
      digitToken st (p.data.take (tokenEnd p.data)) p = .ok (st', p)) := by
  by_cases hc : c = '>'.toUInt8
  case pos => exact .inl hc
  case neg =>
    by_cases hq : IsQuote c
    case pos =>
      refine .inr <| .inl ⟨hq, ?_⟩
      rw [tokenAt, bind_of_ok (run_get p), if_neg hc, if_neg Bool.false_ne_true, if_pos hq,
        bind_eq_ok] at h
      obtain ⟨⟨i, v⟩, _, hr, h⟩ := h
      by_cases hi : i = p.data.length
      case pos =>
        replace h := (congrFun (if_pos hi) _).symm.trans h
        cases h
      case neg =>
        have hl := Wp.ok (E := Fault.IsParse) (quotedRun_safe (by omega) (by simp [hd])) hr
        have hi : i < p.data.length := Nat.lt_of_le_of_ne hl.2.2 hi
        obtain ⟨s, w, rest, hs, hw, _⟩ := quotedRun_sound hq hr hi
        rw [hd, drop_one, tail_cons] at hs
        exact ⟨s, w, rest, hs, hw⟩
    case neg =>
      by_cases hx : Strconv.isDecimal c
      case neg =>
        rw [tokenAt, bind_of_ok (run_get p), if_neg hc, if_neg Bool.false_ne_true, if_neg hq,
          if_neg hx] at h
        cases h
      case pos =>
        refine .inr <| .inr ⟨hx, ?_⟩
        rcases hs : digitToken st (p.data.take (tokenEnd p.data)) p with e | ⟨st', q⟩
        case error =>
          rw [tokenAt_digit hx, bind_of_error hs] at h
          cases h
        case ok =>
          obtain rfl := (digitToken_sound hs).1
          rw [tokenAt_digit_ok hx hs] at h
          cases h
          exact ⟨st', rfl, rfl, rfl⟩

theorem tokenStep_close (hd : p.data = bl ++ '>'.toUInt8 :: t) (hb : Blank bl) :
    tokenStep false st p =
      .ok (.inr (newLocalizedStrItem st.lsh st.buf), p.advance (bl.length + 1)) := by
  have hp : (p.advance bl.length).data = '>'.toUInt8 :: t := by simp [hd]
  rw [tokenStep_split hd hb (by decide), tokenAt_close hp, advance_advance]

theorem tokenStep_run (hd : p.data = bl ++ q :: (s ++ q :: t)) (hb : Blank bl) (hq : IsQuote q)
    (hs : Quoted q s v) :
    tokenStep false st p =
      .ok (.inl { st with buf := st.buf ++ v, tokens := st.tokens + 1 },
        p.advance (bl.length + (s.length + 2))) := by
  have hp : (p.advance bl.length).data = q :: (s ++ q :: t) := by simp [hd]
  have hqb : isBlank q = false := by rcases hq with rfl | rfl <;> decide
  rw [tokenStep_split hd hb hqb, tokenAt_run hp hq hs, advance_advance]

theorem tokenStep_digit (hd : p.data = bl ++ (tok ++ c :: t)) (hb : Blank bl)
    (ht : DigitToken tok) (hc : (ascii " \t\r\n>").contains c)
    (h : digitToken st tok (p.advance bl.length) = .ok (st', p.advance bl.length)) :
    tokenStep false st p = .ok (.inl st', p.advance (bl.length + tok.length)) := by
  have ⟨b, s, hs, hx⟩ := ht.decimal
  have he := tokenEnd_append (t := t) ht.closed hc
  have hp : (p.advance bl.length).data = tok ++ c :: t := by simp [hd]
  rw [tokenStep_split (by rw [hd, hs]; rfl) hb (isDecimal_ne hx).2.2,
    tokenAt_digit_ok hx (by rw [hp, he, take_left]; exact h), hp, he, advance_advance]

theorem tokens_complete {first : Bool} {text : Bytes} {lsh : Option UInt16}
    (h : Value first text lsh v) (hf : first = true → st.tokens = 0)
    (hd : p.data = text ++ rest) (hk : text.length < k) :
    iterate .outOfFuel (tokenStep false) k st p =
      .ok (newLocalizedStrItem (lsh.getD st.lsh) (st.buf ++ v), p.advance text.length) := by
  induction h generalizing st p k <;> obtain ⟨k, rfl⟩ : ∃ n, k = n + 1 := ⟨k - 1, by omega⟩
  case close bl hb =>
    have hd : p.data = bl ++ '>'.toUInt8 :: rest := by simpa using hd
    rw [iterate_inr (tokenStep_close hd hb)]
    simp
  case run bl s t v w q lsh hb hq hs _ hi =>
    have hd : p.data = bl ++ q :: (s ++ q :: (t ++ rest)) := by simpa using hd
    have hk : t.length < k := by simp at hk; omega
    rw [iterate_inl (tokenStep_run hd hb hq hs), hi nofun (by simp [hd]) hk]
    simp [Nat.add_assoc, Nat.add_comm 2]
  case byte bl tok t w n c lsh hb ht hx hn hc _ hi =>
    have hd : p.data = bl ++ (tok ++ c :: (t ++ rest)) := by simpa using hd
    have hk : (c :: t).length < k := by simp at hk ⊢; omega
    rw [iterate_inl (tokenStep_digit hd hb ht hc (digitToken_byte hx hn)),
      hi nofun (by simp [hd]) hk]
    simp [Nat.add_assoc]
  case lsh bl tok t w n c hb ht hx hn hc _ hi =>
    have hd : p.data = bl ++ (tok ++ c :: (t ++ rest)) := by simpa using hd
    have hk : (c :: t).length < k := by have := ht.length_pos; simp at hk ⊢; omega
    rw [iterate_inl (tokenStep_digit hd hb ht hc (digitToken_lsh hx (hf rfl) hn)),
      hi nofun (by simp [hd]) hk]
    simp [Nat.add_assoc]

theorem tokens_end (h : p.next = none) {r : Item × Parser} :
    iterate .outOfFuel (tokenStep false) k st p ≠ .ok r := by
  cases k
  case zero   => exact nofun
  case succ k =>
    have ⟨e, he⟩ : ∃ e, tokenStep false st p = .error (.parse e) := tokenStep_none h
    rw [iterate_error he]
    exact nofun

theorem isDelimiter_eq : (ascii " \t\r\n>").contains c = (isBlank c || c == '>'.toUInt8) := by
  simp [isBlank, ascii, Bool.beq_eq_decide_eq, Bool.or_assoc]

theorem digitToken_split (hc : Strconv.isDecimal c) :
    DigitToken (c :: t) ∨ ∃ tok d r, c :: t = tok ++ d :: r ∧ DigitToken tok ∧
      (ascii " \t\r\n>").contains d := by
  let other (b : UInt8) : Bool := !(ascii " \t\r\n>").contains b
  have ho : other c := by
    have ⟨h₁, _, h₂⟩ := isDecimal_ne hc
    simp only [other, isDelimiter_eq, h₂, beq_eq_false_iff_ne.mpr h₁]
    rfl
  have ha := takeWhile_append_dropWhile (p := other) (l := c :: t)
  have ht : DigitToken ((c :: t).takeWhile other) :=
    { decimal := ⟨c, t.takeWhile other, by rw [takeWhile_cons, if_pos ho], hc⟩
      closed  := fun b hb => by simpa [other] using mem_takeWhile_imp hb }
  rcases hr : (c :: t).dropWhile other with _ | ⟨d, r⟩
  case nil =>
    rw [hr, append_nil] at ha
    exact .inl (ha ▸ ht)
  case cons =>
    have hd := head?_dropWhile_not other (c :: t)
    rw [hr] at ha hd
    exact .inr ⟨_, d, r, ha.symm, ht, by simpa [other] using hd⟩

theorem tokens_sound (h : iterate .outOfFuel (tokenStep false) k st p = .ok (item, p')) :
    ∃ first text rest lsh v, p.data = text ++ rest ∧ Value first text lsh v ∧
      (first = true → st.tokens = 0) ∧
      item = newLocalizedStrItem (lsh.getD st.lsh) (st.buf ++ v) ∧ p' = p.advance text.length := by
  induction k generalizing st p
  case zero => cases h
  case succ k hi =>
    rcases hn : p.next with _ | c
    case none => exact absurd h (tokens_end hn)
    case some =>
      obtain ⟨bl, t, hd, hb, hc⟩ := split_of_next hn
      have hp : (p.advance bl.length).data = c :: t := by simp [hd]
      rcases hs : tokenStep false st p with e | ⟨r, q⟩
      case error =>
        rw [iterate_error hs] at h
        cases h
      case ok =>
        rcases tokenAt_sound hp (tokenStep_split hd hb hc ▸ hs) with rfl | ⟨hq, s, v, rest, rfl, hv⟩ |
          ⟨hx, st', rfl, rfl, ht⟩
        case inl =>
          rw [iterate_inr (tokenStep_close hd hb)] at h
          cases h
          exact ⟨false, bl ++ ['>'.toUInt8], t, none, [], by simp [hd], .close hb, by simp, by simp,
            by simp⟩
        case inr.inl =>
          rw [iterate_inl (tokenStep_run hd hb hq hv)] at h
          obtain ⟨f, text, rest, lsh, w, hr, hw, hf, hitem, hp'⟩ := hi h
          cases f
          case true  => exact absurd (hf rfl) (Nat.succ_ne_zero _)
          case false =>
            have hd : p.data = bl ++ c :: (s ++ c :: text) ++ rest := by
              rw [hd]
              simpa [hd] using hr
            refine ⟨false, _, rest, lsh, v ++ w, hd, .run hb hq hv hw, by simp, ?_, ?_⟩
            · simp [hitem]
            · simp [hp', Nat.add_assoc, Nat.add_comm 2]
        case inr.inr =>
          rcases digitToken_split (t := t) hx with hx | ⟨tok, d, r, hr, hx, hd'⟩
          case inl =>
            -- The token runs to the end of the text, and the next round finds nothing.
            rw [iterate_inl hs] at h
            refine absurd h (tokens_end ?_)
            rw [next, data_advance, hp, tokenEnd_all hx.closed, drop_length]
            rfl
          case inr =>
            rw [hr] at hp hd
            rw [hp, tokenEnd_append hx.closed hd', take_left] at ht
            rw [iterate_inl (tokenStep_digit hd hb hx hd' ht)] at h
            obtain ⟨f, text, rest, lsh, w, hr, hw, hf, hitem, hp'⟩ := hi h
            obtain ⟨b, text, rfl⟩ := hw.exists_cons
            have ht' := (digitToken_sound ht).2
            have hf : f = false := by
              cases f
              case false => rfl
              case true  =>
                have h0 := hf rfl
                rcases ht' with ⟨n, ⟨_, _, rfl⟩ | ⟨_, _, _, rfl⟩⟩ <;> cases h0
            have hb' : d = b ∧ r = text ++ rest := by simpa [hd] using hr
            obtain ⟨rfl, rfl⟩ := hb'
            subst hf
            have hp' : p' = p.advance (bl ++ (tok ++ d :: text)).length := by
              simp [hp', Nat.add_assoc]
            have hd : p.data = bl ++ (tok ++ d :: text) ++ rest := by simp [hd]
            rcases ht' with ⟨n, ⟨hh, hn, rfl⟩ | ⟨hh, h0, hn, rfl⟩⟩
            case inl =>
              exact ⟨false, _, rest, lsh, _, hd, .byte hb hx hh hn hd' hw, by simp, by simp [hitem], hp'⟩
            case inr =>
              cases hw.lsh_eq_none rfl
              exact ⟨true, _, rest, some _, w, hd, .lsh hb hx hh hn hd' hw, fun _ => h0, hitem, hp'⟩

-- The tokens of a localized string are read exactly when a value of the grammar comes next.
theorem parseLocalizedStrTokens_iff :
    parseLocalizedStrTokens false p = .ok (item, p') ↔
      ∃ text rest lsh v, p.data = text ++ rest ∧ Value true text lsh v ∧
        item = newLocalizedStrItem (lsh.getD Secs2.lshUTF8) v ∧ p' = p.advance text.length := by
  constructor
  case mp =>
    intro h
    have ⟨f, text, rest, lsh, v, hd, hv, _, hitem, hp⟩ := tokens_sound h
    exact ⟨text, rest, lsh, v, hd, hv.toFirst, hitem, hp⟩
  case mpr =>
    intro ⟨text, rest, lsh, v, hd, hv, hitem, hp⟩
    rw [parseLocalizedStrTokens, tokens_complete hv (fun _ => rfl) hd (by simp [hd]), hitem, hp]
    rfl

theorem parseLocalizedStrTokens_zero (h : p.next = some '>'.toUInt8) :
    parseLocalizedStrTokens true p = .ok (newEmptyLocalizedStrItem, p.step) := by
  have ha : tokenAt true {} '>'.toUInt8 p.trim = .ok (.inr newEmptyLocalizedStrItem, p.step) := by
    rw [tokenAt, bind_of_ok (run_get _), if_pos rfl, bind_of_ok (trim_advance h)]
    rfl
  exact iterate_inr ((tokenStep_eq h).trans ha)

theorem parseLocalizedStrTokens_value (h : p.next ≠ some '>'.toUInt8) :
    ∃ e, parseLocalizedStrTokens true p = .error (.parse e) := by
  rcases hn : p.next with _ | c
  case none =>
    obtain ⟨e, he⟩ : ∃ e, tokenStep true {} p = .error (.parse e) := tokenStep_none hn
    exact ⟨e, iterate_error he⟩
  case some =>
    have hc : c ≠ '>'.toUInt8 := fun hc => h (hc ▸ hn)
    have ha : ∃ e, tokenAt true {} c p.trim = .error (.parse e) := by
      rw [tokenAt, bind_of_ok (run_get _), if_neg hc, if_pos rfl]
      exact ⟨_, rfl⟩
    obtain ⟨e, he⟩ := ha
    exact ⟨e, iterate_error ((tokenStep_eq hn).trans he)⟩

end Tokens

end Parser

end Sml
