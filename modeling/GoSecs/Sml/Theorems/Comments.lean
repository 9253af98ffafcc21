import GoSecs.Sml.Theorems.Compose

open Utf8 Strings Prog List

namespace Sml

open Secs2 (Bytes)
open Ieee754 (F64)
open Strconv (NumErr)

-- White space, or a complete comment: a line comment with its newline, or a block comment.
inductive Trivia
  | blank (b : UInt8) (h : Parser.isBlank b)
  | line (text : Bytes) (h : '\n'.toUInt8 ∉ text)
  | block (text : Bytes) (h : index text (ascii "*/") = none)

namespace Trivia

def bytes : Trivia → Bytes
  | blank b _    => [b]
  | line text _  => ascii "//" ++ text ++ ascii "\n"
  | block text _ => ascii "/*" ++ text ++ ascii "*/"

def isComment : Trivia → Bool
  | blank .. => false
  | _ => true

-- A block comment that the parser takes to be `/*/`.
def isEarly : Trivia → Bool
  | block text _ => text.head? == some '/'.toUInt8
  | _ => false

def text (ts : List Trivia) : Bytes :=
  ts.flatMap bytes

-- There is at most one comment, and the parser sees its end.
def Skippable (ts : List Trivia) : Prop :=
  ts.countP isComment ≤ 1 ∧ ∀ t ∈ ts, t.isEarly = false

end Trivia

section Index

variable {t r : Bytes}

theorem ascii_block : ascii "/*" = [47, 42] ∧ ascii "*/" = [42, 47] :=
  ⟨rfl, rfl⟩

theorem indexByte_line (h : '\n'.toUInt8 ∉ t) :
    indexByte (ascii "//" ++ t ++ ascii "\n" ++ r) '\n'.toUInt8 = some (t.length + 2) := by
  have hn : indexByte (ascii "//" ++ t) '\n'.toUInt8 = none := by
    rw [indexByte, findIdx?_eq_none_iff]
    intro c hc
    rw [beq_eq_false_iff_ne]
    rintro rfl
    rcases mem_append.mp hc with hc | hc
    · revert hc
      decide
    · exact h hc
  have h₀ : indexByte (ascii "\n" ++ r) '\n'.toUInt8 = some 0 := rfl
  rw [append_assoc, indexByte_append_of_none hn, h₀, length_append, Option.map_some,
    Nat.zero_add, Nat.add_comm]
  rfl

theorem hasPrefix_close {c d : UInt8} :
    hasPrefix (c :: d :: t) (ascii "*/") = true ↔ c = 42 ∧ d = 47 := by
  rw [ascii_block.2, hasPrefix, isPrefixOf_iff_prefix, cons_prefix_cons,
    cons_prefix_cons, and_iff_left nil_prefix]
  exact and_congr eq_comm eq_comm

theorem index_marker (h : index t (ascii "*/") = none) :
    index (t ++ ascii "*/" ++ r) (ascii "*/") = some t.length := by
  induction t
  case nil => rfl
  case cons c t hi =>
    rw [index] at h
    split at h
    case isTrue => cases h
    case isFalse hp =>
      have hn : ¬hasPrefix (c :: (t ++ ascii "*/" ++ r)) (ascii "*/") := by
        rcases t with _ | ⟨d, t⟩
        · exact fun h => absurd (hasPrefix_close.mp h).2 (by decide)
        · exact fun h => hp (hasPrefix_close.mpr (hasPrefix_close.mp h))
      rw [cons_append, cons_append, index, if_neg hn, hi (Option.map_eq_none_iff.mp h)]
      rfl

theorem index_block (h : index t (ascii "*/") = none) (he : t.head? ≠ some '/'.toUInt8) :
    index (ascii "/*" ++ t ++ ascii "*/" ++ r) (ascii "*/") = some (t.length + 2) := by
  have h₁ : ¬hasPrefix (47 :: 42 :: (t ++ ascii "*/" ++ r)) (ascii "*/") :=
    fun h => absurd (hasPrefix_close.mp h).1 (by decide)
  have h₂ : ¬hasPrefix (42 :: (t ++ ascii "*/" ++ r)) (ascii "*/") := by
    rcases t with _ | ⟨d, t⟩
    · exact fun h => absurd (hasPrefix_close.mp h).2 (by decide)
    · exact fun h => he (congrArg some (hasPrefix_close.mp h).2)
  rw [ascii_block.1, append_assoc, append_assoc, ← append_assoc t,
    cons_append, cons_append, nil_append, index, if_neg h₁, index, if_neg h₂,
    index_marker h]
  rfl

end Index

namespace Parser

variable {p : Parser} {t r : Bytes} {ts : List Trivia}

theorem commentLen_line (h : '\n'.toUInt8 ∉ t) :
    commentLen (ascii "//" ++ t ++ ascii "\n" ++ r) = t.length + 3 := by
  have hp : hasPrefix (ascii "//" ++ t ++ ascii "\n" ++ r) (ascii "//") = true := rfl
  rw [commentLen, if_pos hp, indexByte_line h]
  rfl

theorem commentLen_block (h : index t (ascii "*/") = none) (he : t.head? ≠ some '/'.toUInt8) :
    commentLen (ascii "/*" ++ t ++ ascii "*/" ++ r) = t.length + 4 := by
  have h₁ : hasPrefix (ascii "/*" ++ t ++ ascii "*/" ++ r) (ascii "//") = false := rfl
  have h₂ : hasPrefix (ascii "/*" ++ t ++ ascii "*/" ++ r) (ascii "/*") = true := rfl
  rw [commentLen, h₁, if_neg Bool.false_ne_true, if_pos h₂, index_block h he]
  rfl

-- The slash behind the opening of the comment is taken for that of its end.
theorem commentLen_early :
    commentLen (ascii "/*" ++ ('/'.toUInt8 :: t) ++ ascii "*/" ++ r) = 3 :=
  rfl

theorem next_eq_none : p.next = none ↔ Blank p.data := by
  rw [← Option.isNone_iff_eq_none, ← Option.isSome_eq_false_iff, Bool.eq_false_iff, Ne, next_isSome]
  have hl := indentOf_le p.data
  constructor
  case mp =>
    intro h
    have : p.data.takeWhile isBlank = p.data :=
      (List.takeWhile_prefix _).eq_of_length (by rw [indentOf] at *; omega)
    exact takeWhile_eq_self_iff.mp this
  case mpr =>
    intro h
    rw [indentOf, takeWhile_eq_self_iff.mpr h]
    omega

end Parser

namespace Trivia

variable {c t : Trivia} {ts rs : List Trivia}

theorem exists_comment (ts : List Trivia) :
    (∀ t ∈ ts, t.isComment = false) ∨
    ∃ bs c rs, ts = bs ++ c :: rs ∧ (∀ t ∈ bs, t.isComment = false) ∧ c.isComment = true := by
  induction ts
  case nil => exact .inl nofun
  case cons t ts hi =>
    cases ht : t.isComment
    case true => exact .inr ⟨[], t, ts, rfl, nofun, ht⟩
    case false =>
      refine hi.imp (forall_mem_cons.mpr ⟨ht, ·⟩) ?_
      rintro ⟨bs, c, rs, rfl, hbs, hc⟩
      exact ⟨t :: bs, c, rs, rfl, forall_mem_cons.mpr ⟨ht, hbs⟩, hc⟩

theorem text_append : text (ts ++ rs) = text ts ++ text rs :=
  flatMap_append

theorem text_cons : text (t :: ts) = t.bytes ++ text ts :=
  flatMap_cons

theorem bytes_comment (h : c.isComment) : ∃ r, c.bytes = '/'.toUInt8 :: r := by
  cases c
  case blank => cases h
  case line  => exact ⟨_, rfl⟩
  case block => exact ⟨_, rfl⟩

theorem blank_bytes_iff : Parser.Blank t.bytes ↔ t.isComment = false := by
  cases ht : t.isComment
  case false =>
    cases t
    case blank b h => exact iff_of_true (forall_mem_singleton.mpr h) rfl
    all_goals cases ht
  case true =>
    have ⟨r, hr⟩ := bytes_comment ht
    refine iff_of_false (fun h => ?_) nofun
    exact absurd (h _ (hr ▸ mem_cons_self)) (by decide)

theorem blank_text_iff : Parser.Blank (text ts) ↔ ∀ t ∈ ts, t.isComment = false := by
  rw [Parser.Blank, text, forall_mem_flatMap]
  exact forall₂_congr fun t _ => blank_bytes_iff

theorem not_early_of_not_comment (h : t.isComment = false) : t.isEarly = false := by
  cases t
  case blank => rfl
  all_goals cases h

theorem drop_comment (hc : c.isComment) (r : Bytes) :
    (c.isEarly = false ∧ (c.bytes ++ r).drop (Parser.commentLen (c.bytes ++ r)) = r) ∨
    (c.isEarly = true ∧ '*'.toUInt8 ∈ (c.bytes ++ r).drop (Parser.commentLen (c.bytes ++ r))) := by
  cases c
  case blank => cases hc
  case line t h =>
    have hl : (line t h).bytes.length = t.length + 3 := by
      rw [bytes, length_append, length_append, Nat.add_comm _ t.length]
      rfl
    refine .inl ⟨rfl, ?_⟩
    rw [bytes, Parser.commentLen_line h, ← hl, bytes, drop_left]
  case block t h =>
    by_cases he : t.head? = some '/'.toUInt8
    case pos =>
      obtain ⟨t, rfl⟩ := head?_eq_some_iff.mp he
      refine .inr ⟨rfl, ?_⟩
      rw [bytes, Parser.commentLen_early]
      have : (ascii "/*" ++ '/'.toUInt8 :: t ++ ascii "*/" ++ r).drop 3 = t ++ ascii "*/" ++ r := rfl
      rw [this]
      exact mem_append_left _ (mem_append_right _ mem_cons_self)
    case neg =>
      have hl : (block t h).bytes.length = t.length + 4 := by
        rw [bytes, length_append, length_append, Nat.add_comm _ t.length]
        rfl
      refine .inl ⟨beq_eq_false_iff_ne.mpr he, ?_⟩
      rw [bytes, Parser.commentLen_block h he, ← hl, bytes, drop_left]

theorem skippable_iff {bs : List Trivia} (hbs : ∀ t ∈ bs, t.isComment = false)
    (hc : c.isComment = true) (he : c.isEarly = false) :
    Skippable (bs ++ c :: rs) ↔ ∀ t ∈ rs, t.isComment = false := by
  have hb : bs.countP isComment = 0 := countP_eq_zero.mpr fun t h => by simp [hbs t h]
  rw [Skippable, countP_append, hb, countP_cons_of_pos hc]
  constructor
  case mp =>
    intro ⟨hl, _⟩ t ht
    have hr : rs.countP isComment = 0 := by omega
    exact Bool.eq_false_iff.mpr (countP_eq_zero.mp hr t ht)
  case mpr =>
    intro h
    have hr : rs.countP isComment = 0 := countP_eq_zero.mpr fun t ht => by simp [h t ht]
    refine ⟨by omega, forall_mem_append.mpr ⟨?_, forall_mem_cons.mpr ⟨he, ?_⟩⟩⟩
    · exact fun t ht => not_early_of_not_comment (hbs t ht)
    · exact fun t ht => not_early_of_not_comment (h t ht)

end Trivia

namespace Parser

variable {p : Parser} {ts : List Trivia} {floatValue : Nat → Bytes → Except NumErr F64}
  {headerOnly : Bool}

theorem uncomment_next (hd : p.data = Trivia.text ts) :
    p.uncomment.next = none ↔ Trivia.Skippable ts := by
  rcases Trivia.exists_comment ts with hb | ⟨bs, c, rs, rfl, hbs, hc⟩
  case inl =>
    have hn : p.next = none := by rwa [next_eq_none, hd, Trivia.blank_text_iff]
    have ht : p.trim = p := by rw [trim, hn]; rfl
    rw [uncomment, ht, commentLen_blank hn, advance_zero]
    refine iff_of_true hn ⟨?_, fun t h => Trivia.not_early_of_not_comment (hb t h)⟩
    rw [countP_eq_zero.mpr fun t h => by simp [hb t h]]
    exact Nat.zero_le 1
  case inr =>
    obtain ⟨r, hr⟩ := Trivia.bytes_comment hc
    rw [Trivia.text_append, Trivia.text_cons] at hd
    have hs : p.data = Trivia.text bs ++ '/'.toUInt8 :: (r ++ Trivia.text rs) := by
      rw [hd, hr, cons_append]
    have ht := trim_of_split hs (Trivia.blank_text_iff.mpr hbs) (by decide)
    have hdata : p.trim.data = c.bytes ++ Trivia.text rs := by
      rw [ht, data_advance, hd, drop_left]
    rw [next_eq_none, uncomment, data_advance, hdata]
    rcases Trivia.drop_comment hc (Trivia.text rs) with ⟨he, hl⟩ | ⟨he, hm⟩
    case inl =>
      rw [hl, Trivia.blank_text_iff, Trivia.skippable_iff hbs hc he]
    case inr =>
      refine iff_of_false (fun h => absurd (h _ hm) (by decide)) fun h => ?_
      have := h.2 c (mem_append_right bs mem_cons_self)
      rw [he] at this
      cases this

theorem parseMsg_of_none (h : p.uncomment.next = none) :
    parseMsg floatValue headerOnly p = .ok (none, p.reset.uncomment.trim) := by
  rw [parseMsg, bind_of_ok (run_modify ..), bind_of_ok skipComment_eq,
    bind_of_ok peekNonSpaceRune_eq, uncomment_reset, next_reset, if_pos h]
  rfl

theorem parseOne_of_none
    (h : p.uncomment.next = none) : parseOne floatValue headerOnly p = .error .noMessage := by
  rw [parseOne, bind_of_ok (parseMsg_of_none h)]
  rfl

end Parser

-- A text of white space and comments holds no message for the parser only if it holds at most one
-- comment, which does not start with `/*/`: comments are skipped once, not in a loop.
theorem no_message_iff (floatValue : Nat → Bytes → Except NumErr F64) (p : Parser)
    (ts : List Trivia) :
    (p.parseMessage floatValue (Trivia.text ts) = .error .noMessage ∧
      p.parseHeader floatValue (Trivia.text ts) = .error .noMessage ∧
      p.parse floatValue (Trivia.text ts) = .ok []) ↔ Trivia.Skippable ts := by
  have hn : (p.initInput (Trivia.text ts)).uncomment.next = none ↔ Trivia.Skippable ts :=
    Parser.uncomment_next rfl
  constructor
  case mp =>
    intro ⟨_, _, h⟩
    have ⟨q, r, hrun, hq⟩ := Parser.parse_iff.mp h
    cases hrun
    exact hn.mp ((Parser.parseMsg_none floatValue).mp ⟨r, hq⟩)
  case mpr =>
    intro h
    have h₀ := hn.mpr h
    refine ⟨?_, ?_, Parser.parse_iff.mpr ⟨_, _, .nil, Parser.parseMsg_of_none h₀⟩⟩
    · rw [Parser.parseMessage, Parser.parseOne_of_none h₀, result]
    · rw [Parser.parseHeader, Parser.parseOne_of_none h₀, result]

theorem no_message_secondComment :
    Trivia.text [.line (ascii " a") (by decide), .line (ascii " b:S1F1") (by decide)] =
      ascii "// a\n// b:S1F1\n" ∧
    ∃ m, (newParser false).parseHeader noFloat (ascii "// a\n// b:S1F1\n") = .ok m := by
  refine ⟨by decide, ?_⟩
  have h : ((newParser false).parseHeader noFloat (ascii "// a\n// b:S1F1\n")).isOk := by
    decide +kernel
  cases hp : (newParser false).parseHeader noFloat (ascii "// a\n// b:S1F1\n")
  case error => rw [hp] at h; cases h
  case ok m  => exact ⟨m, rfl⟩

end Sml
