import GoSecs.Sml.Theorems.Reads

open Utf8 Strings Strconv Prog List

namespace Sml

open Secs2

-- The quotes around a stream and function code, or none.
inductive Quotes : Bytes → Prop
  | none : Quotes []
  | mark {c : UInt8} : c = '\''.toUInt8 ∨ c = '"'.toUInt8 → Quotes [c]

namespace Parser

variable {p q : Parser} {bl s r : Bytes} {c : UInt8} {n m : Nat}

section Header

theorem indexAny_behind {chars : Bytes} (hs : ∀ c ∈ s, c ∉ chars) (hc : c ∈ chars) :
    indexAny (s ++ c :: r) chars = some s.length := by
  rw [indexAny, findIdx?_append, findIdx?_eq_none_iff.mpr fun c h => by simpa using hs c h,
    findIdx?_cons, if_pos (by simpa using hc)]
  simp

theorem indexByte_eq_none (h : c ∉ s) : indexByte s c = none :=
  findIdx?_eq_none_iff.mpr fun d hd => by simpa using fun he : d = c => h (he ▸ hd)

theorem indexByte_behind (hs : c ∉ s) : indexByte (s ++ c :: r) c = some s.length := by
  rw [indexByte_append_of_none (indexByte_eq_none hs), indexByte, findIdx?_cons, if_pos (by simp)]
  simp

theorem skipName_line (hd : p.data = s ++ '\n'.toUInt8 :: r) (hs : ∀ c ∈ s, c ∉ ascii "\n.<:")
    (hr : r.head? = some '<'.toUInt8 ∨ '<'.toUInt8 ∉ r) : skipName p = .ok ((), p) := by
  have hcolon : ':'.toUInt8 ∉ s := fun h => hs _ h (by decide)
  have hline : ':'.toUInt8 ∉ s ++ ['\n'.toUInt8] := by
    rw [mem_append]
    exact not_or.mpr ⟨hcolon, by decide⟩
  have hopen : '<'.toUInt8 ∉ s ++ ['\n'.toUInt8] := by
    rw [mem_append]
    exact not_or.mpr ⟨fun h => hs _ h (by decide), by decide⟩
  have hd' : p.data = (s ++ ['\n'.toUInt8]) ++ r := by
    rw [hd, append_assoc]
    rfl
  have hterm : indexAny p.data (ascii "\n.") = some s.length := by
    have hsub : ascii "\n." <+: ascii "\n.<:" := ⟨ascii "<:", rfl⟩
    rw [hd]
    exact indexAny_behind (fun c hc h => hs c hc (hsub.subset h)) (by decide)
  have hname : (indexByte p.data '<'.toUInt8).bind
      (fun j => indexByte (p.data.take j) ':'.toUInt8) = none := by
    rcases hr with hr | hr
    case inl =>
      obtain ⟨t, rfl⟩ : ∃ t, r = '<'.toUInt8 :: t := head?_eq_some_iff.mp hr
      rw [hd', indexByte_behind hopen, Option.bind_some, take_left]
      exact indexByte_eq_none hline
    case inr =>
      rw [hd', indexByte_eq_none, Option.bind_none]
      rw [mem_append]
      exact not_or.mpr ⟨hopen, hr⟩
  have hlen : headerLen p.data = some s.length := by
    rw [headerLen, hterm, Option.bind_some, hname]
  have hzero : nameLen p.data s.length = 0 := by
    rw [nameLen, indexByte_eq_none]
    · rfl
    · intro h
      have h := (take_subset_take_left _ (min_le_left ..)) h
      rw [hd, take_left] at h
      exact hcolon h
  rw [skipName_eq, hlen]
  simp only
  rw [hzero, advance_zero]

theorem nextCode_formatUint (hn : n < 256) (hc : isDecimal c = false)
    (hd : p.data = formatUint n ++ c :: r) :
    nextCode p = .ok (.ofNat n, p.advance (formatUint n).length) := by
  have hu : Strconv.parseUint (formatUint n) 10 8 = (n, none) :=
    parseUint_formatUint (by rw [effectiveBits]; simp; omega)
  rw [nextCode_eq, hd, digitsOf_formatUint hc, if_pos (by simp), hu]

theorem nextRune_cons (hd : p.data = c :: r) : nextRune p = .ok (some c, p.advance 1) := by
  rw [nextRune_eq, hd]
  rfl

variable {qs : Bytes}

theorem skipQuote_advance (hq : Quotes qs) (hd : p.data = qs ++ (bl ++ c :: r))
    (hb : Blank bl) (hc : isBlank c = false) (h : c ≠ '\''.toUInt8 ∧ c ≠ '"'.toUInt8) :
    ∃ k, skipQuote p = .ok ((), p.advance k) ∧
      ((p.advance k).data = bl ++ c :: r ∨ (p.advance k).data = c :: r) := by
  cases hq
  case none =>
    have hd : p.data = bl ++ c :: r := hd
    refine ⟨bl.length, ?_, .inr (data_behind hd)⟩
    rw [skipQuote, bind_of_ok peekNonSpaceRune_eq, next_of_split hd hb hc, trim_of_split hd hb hc]
    exact congrFun (if_neg (by simpa using h)) _
  case mark d hm =>
    have hd : p.data = d :: (bl ++ c :: r) := hd
    have hblank : isBlank d = false := by rcases hm with rfl | rfl <;> decide
    refine ⟨1, ?_, .inl (by rw [data_advance, hd]; rfl)⟩
    rw [skipQuote, bind_of_ok peekNonSpaceRune_eq, next_cons hd hblank, trim_cons_self hd hblank]
    rw [if_pos (by simpa using hm)]
    exact discard_forward (by rw [hd]; simp)

def withStream (p : Parser) (stream : UInt8) : Parser :=
  { p with stream }

def withCodes (p : Parser) (stream function : UInt8) : Parser :=
  { p with stream, function }

theorem behind_code (hq : Quotes qs) (hb : Blank bl) (hc : isDecimal c = false) :
    ∃ d t, qs ++ (bl ++ c :: r) = d :: t ∧ isDecimal d = false := by
  cases hq
  case mark d hm => exact ⟨d, _, rfl, by rcases hm with rfl | rfl <;> decide⟩
  case none =>
    rcases bl with _ | ⟨d, bl⟩
    case nil => exact ⟨c, r, rfl, hc⟩
    case cons =>
      refine ⟨d, _, rfl, ?_⟩
      by_contra hd
      rw [Bool.not_eq_false] at hd
      exact absurd (hb d mem_cons_self) (Bool.eq_false_iff.mp (isBlank_of_isDecimal hd))

theorem parseHSMSHeader_codes (hq : Quotes qs) (hname : skipName p = .ok ((), p))
    (hd : p.data = qs ++ 'S'.toUInt8 ::
      (formatUint n ++ 'F'.toUInt8 :: (formatUint m ++ (qs ++ (bl ++ c :: r)))))
    (hn : n < 128) (hm : m < 256) (hb : Blank bl) (hc : isBlank c = false)
    (hdec : isDecimal c = false) (h : c ≠ '\''.toUInt8 ∧ c ≠ '"'.toUInt8) :
    ∃ k bl', parseHSMSHeader p = readWaitBit ((p.withCodes (.ofNat n) (.ofNat m)).advance k) ∧
      Blank bl' ∧ ((p.withCodes (.ofNat n) (.ofNat m)).advance k).data = bl' ++ c :: r := by
  have hd₀ : p.data = qs ++ ([] ++ 'S'.toUInt8 ::
      (formatUint n ++ 'F'.toUInt8 :: (formatUint m ++ (qs ++ (bl ++ c :: r))))) := hd
  have ⟨k, hk, hdk⟩ := skipQuote_advance hq hd₀ nofun (by decide) (by decide)
  have hdk : (p.advance k).data = 'S'.toUInt8 ::
      (formatUint n ++ 'F'.toUInt8 :: (formatUint m ++ (qs ++ (bl ++ c :: r)))) := hdk.elim id id
  have hd₁ : ((p.advance k).advance 1).data =
      formatUint n ++ 'F'.toUInt8 :: (formatUint m ++ (qs ++ (bl ++ c :: r))) := by
    rw [data_advance, hdk]
    rfl
  have hd₂ := data_behind hd₁
  have hd₃ : ((((p.advance k).advance 1).advance (formatUint n).length).advance 1).data =
      formatUint m ++ (qs ++ (bl ++ c :: r)) := by
    rw [data_advance, hd₂]
    rfl
  have hd₄ := data_behind hd₃
  have ⟨d, t, hdt, hdd⟩ := behind_code (r := r) hq hb hdec
  rw [hdt] at hd₃
  let q₀ := ((p.advance k).advance 1).advance (formatUint n).length
  let q := (q₀.advance 1).advance (formatUint m).length
  have ⟨j, hj, hdj⟩ := skipQuote_advance (p := q.withCodes (.ofNat n) (.ofNat m)) hq hd₄ hb hc h
  have hle : ¬UInt8.ofNat n > 127 := by
    rw [gt_iff_lt, UInt8.lt_iff_toNat_lt, UInt8.toNat_ofNat_of_lt' (by show n < 256; omega)]
    exact Nat.not_lt.mpr (Nat.le_of_lt_succ hn)
  have hstate : (q.withCodes (.ofNat n) (.ofNat m)).advance j =
      (p.withCodes (.ofNat n) (.ofNat m)).advance
        (k + 1 + (formatUint n).length + 1 + (formatUint m).length + j) := by
    show (q.advance j).withCodes (.ofNat n) (.ofNat m) = (p.advance _).withCodes (.ofNat n) (.ofNat m)
    simp only [q, q₀, advance_advance, Nat.add_assoc]
  have ⟨bl', hb', hbl⟩ : ∃ bl', Blank bl' ∧
      ((q.withCodes (.ofNat n) (.ofNat m)).advance j).data = bl' ++ c :: r :=
    hdj.elim (⟨bl, hb, ·⟩) (⟨[], nofun, ·⟩)
  refine ⟨k + 1 + (formatUint n).length + 1 + (formatUint m).length + j, bl', ?_, hb', hstate ▸ hbl⟩
  rw [parseHSMSHeader, bind_of_ok hname, bind_of_ok hk, bind_of_ok (nextRune_cons hdk), if_pos rfl,
    bind_of_ok (nextCode_formatUint (by omega) (by decide) hd₁), if_neg hle,
    bind_of_ok (run_modify ..)]
  -- The fields that are set do not matter for what is left of the text.
  refine (bind_of_ok (nextRune_cons (p := q₀.withStream (.ofNat n)) hd₂)).trans ?_
  rw [if_pos rfl]
  refine (bind_of_ok
    (nextCode_formatUint (p := (q₀.withStream (.ofNat n)).advance 1) hm hdd hd₃)).trans ?_
  refine (bind_of_ok (run_modify ..)).trans ?_
  refine (bind_of_ok hj).trans ?_
  rw [← hstate]

theorem readWaitBit_absent (hd : p.data = bl ++ c :: r) (hb : Blank bl) (hc : isBlank c = false)
    (hw : c ≠ 'W'.toUInt8) : readWaitBit p = .ok ((), p.advance bl.length) := by
  rw [readWaitBit, bind_of_ok peekNonSpaceRune_eq, next_of_split hd hb hc, trim_of_split hd hb hc]
  exact congrFun (if_neg (by simpa using hw)) _

def withWaitBit (p : Parser) : Parser :=
  { p with wbit := true }

theorem readWaitBit_present (hd : p.data = bl ++ 'W'.toUInt8 :: r) (hb : Blank bl) :
    readWaitBit p = .ok ((), ((p.advance bl.length).withWaitBit).advance 1) := by
  have hd₁ : (p.advance bl.length).withWaitBit.data = 'W'.toUInt8 :: r := data_behind hd
  rw [readWaitBit, bind_of_ok peekNonSpaceRune_eq, next_of_split hd hb (by decide),
    trim_of_split hd hb (by decide), if_pos rfl, bind_of_ok (run_modify ..)]
  exact discard_forward (p := (p.advance bl.length).withWaitBit) (by rw [hd₁]; simp)

structure Headed (p q : Parser) (stream function : UInt8) (wbit : Bool) : Prop where
  stream : q.stream = stream
  function : q.function = function
  wbit : q.wbit = wbit
  strict : q.strict = p.strict
  listDepth : q.listDepth = p.listDepth

def headerText (qs : Bytes) (stream function : Nat) (wbit : Bool) : Bytes :=
  qs ++ 'S'.toUInt8 :: (formatUint stream ++ 'F'.toUInt8 :: (formatUint function ++
    (qs ++ if wbit then ascii " W" else [])))

variable {w : Bool}

theorem parseHSMSHeader_line (hq : Quotes qs) (hw : p.wbit = false)
    (hname : skipName p = .ok ((), p))
    (hd : p.data = headerText qs n m w ++ '\n'.toUInt8 :: (bl ++ c :: r))
    (hn : n < 128) (hm : m < 256) (hb : Blank bl) (hc : c = '<'.toUInt8 ∨ c = '.'.toUInt8) :
    ∃ q bl', parseHSMSHeader p = .ok ((), q) ∧ Headed p q (.ofNat n) (.ofNat m) w ∧ Blank bl' ∧
      q.data = bl' ++ c :: r := by
  have hb' : Blank ('\n'.toUInt8 :: bl) := forall_mem_cons.mpr ⟨by decide, hb⟩
  cases w
  case false =>
    have hd : p.data = qs ++ 'S'.toUInt8 :: (formatUint n ++ 'F'.toUInt8 ::
        (formatUint m ++ (qs ++ ('\n'.toUInt8 :: bl ++ c :: r)))) := by
      rw [hd, headerText]
      simp
    have hblank : isBlank c = false := by rcases hc with rfl | rfl <;> decide
    obtain ⟨k, bl', hk, hbl, hdk⟩ := parseHSMSHeader_codes hq hname hd hn hm hb' hblank
      (by rcases hc with rfl | rfl <;> decide) (by rcases hc with rfl | rfl <;> decide)
    have hne : c ≠ 'W'.toUInt8 := by rcases hc with rfl | rfl <;> decide
    exact ⟨_, [], hk.trans (readWaitBit_absent hdk hbl hblank hne), ⟨rfl, rfl, hw, rfl, rfl⟩,
      forall_mem_nil _, data_behind hdk⟩
  case true =>
    have hd : p.data = qs ++ 'S'.toUInt8 :: (formatUint n ++ 'F'.toUInt8 ::
        (formatUint m ++ (qs ++ (ascii " " ++ 'W'.toUInt8 :: ('\n'.toUInt8 :: bl ++ c :: r))))) := by
      rw [hd, headerText]
      simp [ascii]
    obtain ⟨k, bl', hk, hbl, hdk⟩ := parseHSMSHeader_codes hq hname hd hn hm blank_space (by decide)
      (by decide) (by decide)
    refine ⟨_, '\n'.toUInt8 :: bl, hk.trans (readWaitBit_present hdk hbl),
      ⟨rfl, rfl, rfl, rfl, rfl⟩, hb', ?_⟩
    exact data_behind (s := ['W'.toUInt8]) (p := withWaitBit _) (data_behind hdk)

theorem not_mem_headerText (hq : Quotes qs) :
    ∀ c ∈ headerText qs n m w, c ∉ ascii "\n.<:" := by
  have hqs : ∀ c ∈ qs, c ∉ ascii "\n.<:" := by
    cases hq
    case none => nofun
    case mark hm =>
      intro c hc
      rw [mem_singleton.mp hc]
      rcases hm with rfl | rfl <;> decide
  have hdigits (k : Nat) : ∀ c ∈ formatUint k, c ∉ ascii "\n.<:" := by
    intro c hc hm
    have hnone : (ascii "\n.<:").all (!isDecimal ·) := rfl
    have hdec := all_eq_true.mp hnone c hm
    rw [isDecimal_formatUint hc] at hdec
    cases hdec
  have hwait : ∀ c ∈ (if w then ascii " W" else []), c ∉ ascii "\n.<:" := by
    cases w
    case false => nofun
    case true  =>
      exact forall_mem_cons.mpr ⟨by decide, forall_mem_cons.mpr ⟨by decide, nofun⟩⟩
  simp only [headerText, forall_mem_append, forall_mem_cons]
  exact ⟨hqs, by decide, hdigits n, by decide, hdigits m, hqs, hwait⟩

theorem headerText_cons (hq : Quotes qs) :
    ∃ d t, headerText qs n m w = d :: t ∧ isBlank d = false ∧ d ≠ '/'.toUInt8 := by
  cases hq
  case none => exact ⟨_, _, rfl, by decide, by decide⟩
  case mark hm =>
    refine ⟨_, _, rfl, ?_⟩
    rcases hm with rfl | rfl <;> decide

end Header

section Messages

variable {floatValue : Nat → Bytes → Except NumErr Ieee754.F64} {qs : Bytes} {w : Bool}
  {item : Item} {msg : Hsms.DataMessage} {strict : Bool}

theorem parseMsg_line (floatValue : Nat → Bytes → Except NumErr Ieee754.F64) (hq : Quotes qs)
    (hd : p.data = headerText qs n m w ++ '\n'.toUInt8 :: (bl ++ c :: r)) (hn : n < 128)
    (hm : m < 256) (hb : Blank bl) (hc : c = '<'.toUInt8 ∨ c = '.'.toUInt8)
    (hr : (bl ++ c :: r).head? = some '<'.toUInt8 ∨ '<'.toUInt8 ∉ bl ++ c :: r) :
    ∃ q bl', parseMsg floatValue false p = (parseText floatValue >>= endMessage) q ∧
      Headed p q (.ofNat n) (.ofNat m) w ∧ Blank bl' ∧ q.data = bl' ++ c :: r := by
  have hd : p.reset.data = headerText qs n m w ++ '\n'.toUInt8 :: (bl ++ c :: r) := hd
  have ⟨d, t, ht, hblank, hslash⟩ := headerText_cons (n := n) (m := m) (w := w) hq
  have hd' : p.reset.data = [] ++ d :: (t ++ '\n'.toUInt8 :: (bl ++ c :: r)) := by
    rw [hd, ht, cons_append]
    rfl
  have hu : p.reset.uncomment = p.reset :=
    (uncomment_of_split hd' nofun hblank hslash).trans (advance_zero _)
  have ⟨q, bl', hq, hh, hb', hdq⟩ := parseHSMSHeader_line hq rfl
    (skipName_line hd (not_mem_headerText hq) hr) hd hn hm hb hc
  refine ⟨q, bl', ?_, ⟨hh.stream, hh.function, hh.wbit, hh.strict, hh.listDepth⟩, hb', hdq⟩
  rw [parseMsg_eq, hu, next_cons hd' hblank, if_neg nofun, trim_cons_self hd' hblank, parseMsgText,
    bind_of_ok hq]
  rfl

theorem parseText_item (hd : p.data = bl ++ '<'.toUInt8 :: r) (hb : Blank bl) :
    parseText floatValue p = parseItem floatValue (p.advance bl.length) := by
  have hd₁ := data_behind hd
  rw [parseText, bind_of_ok skipComment_eq, uncomment_of_split hd hb (by decide) (by decide),
    bind_of_ok peekNonSpaceRune_eq, next_cons hd₁ (by decide), trim_cons_self hd₁ (by decide)]
  rfl

theorem parseMsg_item (floatValue : Nat → Bytes → Except NumErr Ieee754.F64) (hq : Quotes qs)
    (hd : p.data = headerText qs n m w ++ '\n'.toUInt8 :: '<'.toUInt8 :: r) (hn : n < 128)
    (hm : m < 256) :
    ∃ q, parseMsg floatValue false p = (parseItem floatValue >>= endMessage) q ∧
      Headed p q (.ofNat n) (.ofNat m) w ∧ q.data = '<'.toUInt8 :: r := by
  have hd₀ : p.data = headerText qs n m w ++ '\n'.toUInt8 :: ([] ++ '<'.toUInt8 :: r) := hd
  have ⟨q, bl, hp, hh, hb, hdq⟩ := parseMsg_line floatValue hq hd₀ hn hm nofun (.inl rfl) (.inl rfl)
  refine ⟨q.advance bl.length, ?_, ⟨hh.stream, hh.function, hh.wbit, hh.strict, hh.listDepth⟩,
    data_behind hdq⟩
  rw [hp, run_bind, run_bind, parseText_item hdq hb]

def built (stream function : Nat) (wbit : Bool) (item : Item) : Except Hsms.Err Hsms.DataMessage :=
  Hsms.newDataMessage (.ofNat stream) (.ofNat function) wbit 0 ⟨0, 0, 0, 0⟩ (some item)

theorem Headed.newMessage (h : Headed p q (.ofNat n) (.ofNat m) w)
    (hm : built n m w item = .ok msg) : newMessage item q = .ok (some msg, q) := by
  rw [Parser.newMessage, bind_of_ok (run_get _), h.stream, h.function, h.wbit]
  rw [built] at hm
  rw [hm]
  rfl

theorem endMessage_dot (hd : p.data = '.'.toUInt8 :: r) :
    endMessage item p = newMessage item (p.advance 1) := by
  rw [endMessage, bind_of_ok nextNonSpaceRune_eq, next_cons hd (by decide), step_cons hd (by decide)]
  rfl

theorem parse_single {input : Bytes}
    (h : parseMsg floatValue false (p.initInput input) = .ok (some msg, q)) (hd : q.data = []) :
    p.parse floatValue input = .ok [msg] := by
  have hn : q.next = none := by rw [next, hd]; rfl
  have hu : q.uncomment.next = none := by rw [uncomment_of_none hn, hn]
  obtain ⟨r, hr⟩ := (parseMsg_none floatValue).mpr hu
  exact parse_iff.mpr ⟨q, r, .cons h .nil, hr⟩

theorem parse_of_reads {depth : Nat} {x : Item}
    (h : Reads floatValue strict depth ('<'.toUInt8 :: s) x) (hdepth : depth ≤ maxListDepth)
    (hq : Quotes qs) (hn : n < 128) (hm : m < 256) (hmsg : built n m w x = .ok msg) :
    (newParser strict).parse floatValue
      (headerText qs n m w ++ '\n'.toUInt8 :: ('<'.toUInt8 :: s ++ ascii "\n.")) = .ok [msg] := by
  have ⟨q, hp, hh, hd⟩ := parseMsg_item floatValue
    (p := (newParser strict).initInput
      (headerText qs n m w ++ '\n'.toUInt8 :: ('<'.toUInt8 :: s ++ ascii "\n."))) hq rfl hn hm
  have hroom : q.listDepth + depth ≤ maxListDepth := by
    rw [hh.listDepth]
    exact (Nat.zero_add depth).trans_le hdepth
  have hitem := h q (ascii "\n.") maxListDepth hh.strict hd hdepth hroom
  have hd₁ : (q.advance ('<'.toUInt8 :: s).length).data = ascii "\n" ++ '.'.toUInt8 :: [] :=
    data_behind hd
  rw [uncomment_of_split hd₁ blank_newline (by decide) (by decide)] at hitem
  have hd₂ := data_behind hd₁
  refine parse_single (hp.trans ?_) (data_behind (s := ['.'.toUInt8]) hd₂)
  rw [parseItem, bind_of_ok hitem, endMessage_dot hd₂]
  exact Headed.newMessage ⟨hh.stream, hh.function, hh.wbit, hh.strict, hh.listDepth⟩ hmsg

theorem newDataMessage_item {stream function : UInt8}
    (h : Hsms.newDataMessage stream function w 0 ⟨0, 0, 0, 0⟩ (some item) = .ok msg) :
    msg.item = (some item, none) := by
  rw [Hsms.newDataMessage] at h
  split at h
  case isTrue => cases h
  case isFalse =>
    split at h
    case h_1 => cases h
    case h_2 =>
      split at h
      case isTrue  => cases h
      case isFalse =>
        cases h
        rfl

theorem endMessage_item {r : Option Hsms.DataMessage}
    (h : endMessage item p = .ok (r, q)) : ∃ msg, r = some msg ∧ msg.item = (some item, none) := by
  have ⟨_, _, _, h⟩ := bind_eq_ok.mp h
  split at h
  case isFalse => cases h
  case isTrue =>
    have ⟨msg, hr, hm⟩ := newMessage_some h
    exact ⟨msg, hr, newDataMessage_item hm⟩

theorem parse_item_sound {ms : List Hsms.DataMessage} (hq : Quotes qs) (hn : n < 128) (hm : m < 256)
    (h : (newParser strict).parse floatValue
      (headerText qs n m w ++ '\n'.toUInt8 :: '<'.toUInt8 :: r) = .ok ms) :
    ∃ q q' x msg ms', q.strict = strict ∧ q.listDepth = 0 ∧ q.data = '<'.toUInt8 :: r ∧
      parseItem floatValue q = .ok (x, q') ∧ msg.item = (some x, none) ∧ ms = msg :: ms' := by
  have ⟨q₁, r₁, hrun, hend⟩ := parse_iff.mp h
  have ⟨q, hp, hh, hd⟩ := parseMsg_item floatValue
    (p := (newParser strict).initInput (headerText qs n m w ++ '\n'.toUInt8 :: '<'.toUInt8 :: r))
    hq rfl hn hm
  cases hrun
  case nil =>
    have ⟨x, q', hx, he⟩ := bind_eq_ok.mp (hp ▸ hend)
    have ⟨_, hnone, _⟩ := endMessage_item he
    cases hnone
  case cons hmsg _ =>
    have ⟨x, q', hx, he⟩ := bind_eq_ok.mp (hp ▸ hmsg)
    have ⟨msg, hsome, hi⟩ := endMessage_item he
    cases hsome
    exact ⟨q, q', x, _, _, hh.strict, hh.listDepth, hd, hx, hi, rfl⟩

end Messages
end Parser
end Sml
