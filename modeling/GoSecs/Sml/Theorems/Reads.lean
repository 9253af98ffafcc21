import GoSecs.Sml.Encoder
import GoSecs.Sml.Theorems.Compose

open Utf8 Strings Strconv Prog List

namespace Sml
namespace Parser

open Secs2

variable {p q : Parser} {bl s r : Bytes} {c : UInt8} {n : Nat} {fc : FormatCode} {d : Nat}

section Cursor

theorem blank_space : Blank (ascii " ") :=
  all_eq_true.mp rfl

theorem blank_newline : Blank (ascii "\n") :=
  all_eq_true.mp rfl

theorem data_behind (hd : p.data = s ++ r) : (p.advance s.length).data = r := by
  rw [data_advance, hd, drop_left]

theorem next_cons (hd : p.data = c :: r) (hc : isBlank c = false) : p.next = some c :=
  next_of_head (by rw [hd]; rfl) hc

theorem trim_cons_self (hd : p.data = c :: r) (hc : isBlank c = false) : p.trim = p := by
  have hd' : p.data = [] ++ c :: r := hd
  rw [trim_of_split hd' nofun hc]
  exact advance_zero p

theorem step_cons (hd : p.data = c :: r) (hc : isBlank c = false) : p.step = p.advance 1 := by
  have hd' : p.data = [] ++ c :: r := hd
  exact step_of_split hd' nofun hc

theorem uncomment_of_split (hd : p.data = bl ++ c :: r) (hb : Blank bl) (hc : isBlank c = false)
    (hs : c ≠ '/'.toUInt8) : p.uncomment = p.advance bl.length := by
  rw [uncomment, trim_of_split hd hb hc, data_behind hd, commentLen_text hs, advance_zero]

theorem isBlank_of_isDecimal (h : isDecimal c) : isBlank c = false := by
  by_contra hb
  rw [Bool.not_eq_false] at hb
  simp only [isBlank, Bool.or_eq_true, decide_eq_true_iff] at hb
  rcases hb with ((rfl | rfl) | rfl) | rfl <;> exact absurd h (by decide)

theorem exists_digit (n : Nat) : ∃ c s, formatUint n = c :: s ∧ isDecimal c := by
  rcases h : formatUint n with _ | ⟨c, s⟩
  case nil  => exact absurd h (formatUint_ne_nil n)
  case cons => exact ⟨c, s, rfl, isDecimal_formatUint (n := n) (by rw [h]; exact mem_cons_self)⟩

theorem digitsOf_formatUint (hc : isDecimal c = false) :
    digitsOf (formatUint n ++ c :: r) = formatUint n := by
  rw [digitsOf, takeWhile_append_of_pos fun _ h => isDecimal_formatUint h,
    takeWhile_cons_of_neg (by simp [hc]), append_nil]

theorem nextItemSize_formatUint (hn : n < 2 ^ 31) (hc : isDecimal c = false)
    (hd : p.data = formatUint n ++ c :: r) :
    nextItemSize p = .ok (n, p.advance (formatUint n).length) := by
  have hu : Strconv.parseUint (formatUint n) 10 32 = (n, none) :=
    parseUint_formatUint (by rw [effectiveBits]; simp; omega)
  rw [nextItemSize_eq, hd, digitsOf_formatUint hc, if_pos (by simp), hu]
  exact if_neg (by omega)

end Cursor

section Head

theorem parseItemSize_sized (hn : n < 2 ^ 31)
    (hd : p.data = ascii "[" ++ formatUint n ++ ascii "]" ++ r) :
    parseItemSize p = .ok ((n, n), p.advance ((formatUint n).length + 2)) := by
  have ⟨c, s, hf, hc⟩ := exists_digit n
  have hb := isBlank_of_isDecimal hc
  have hdot : c ≠ '.'.toUInt8 := by rintro rfl; exact absurd hc (by decide)
  have hd₀ : p.data = '['.toUInt8 :: (formatUint n ++ ']'.toUInt8 :: r) := by
    rw [hd, append_assoc, append_assoc]
    rfl
  have hd₁ : (p.advance 1).data = formatUint n ++ ']'.toUInt8 :: r := by
    rw [data_advance, hd₀]
    rfl
  have hd₁' : (p.advance 1).data = c :: (s ++ ']'.toUInt8 :: r) := by
    rw [hd₁, hf, cons_append]
  have hd₂ : ((p.advance 1).advance (formatUint n).length).data = ']'.toUInt8 :: r := data_behind hd₁
  rw [parseItemSize, bind_of_ok nextNonSpaceRune_eq, next_cons hd₀ (by decide), if_pos rfl,
    step_cons hd₀ (by decide), bind_of_ok peekNonSpaceRune_eq, next_cons hd₁' hb,
    if_neg (by simpa using hdot), trim_cons_self hd₁' hb,
    bind_of_ok (nextItemSize_formatUint hn (by decide) hd₁), bind_of_ok peekNonSpaceRune_eq,
    next_cons hd₂ (by decide), if_neg (by decide), trim_cons_self hd₂ (by decide), closeItemSize,
    bind_of_ok nextNonSpaceRune_eq, next_cons hd₂ (by decide), if_pos rfl, if_neg (lt_irrefl n),
    step_cons hd₂ (by decide), advance_advance, advance_advance]
  rw [run_pure]
  congr 3
  omega

structure TypeName (name : String) (fc : FormatCode) : Prop where
  start : ∃ c s, ascii name = c :: s ∧ isBlank c = false
  read  : ∀ t, itemType (ascii name ++ '['.toUInt8 :: t) = some (fc, (ascii name).length)

variable {name : String}

theorem head_eq :
    Encoder.head name n = '<'.toUInt8 :: (ascii name ++ (ascii "[" ++ formatUint n ++ ascii "]")) := by
  have hf : formatInt n = formatUint n := by
    rw [formatInt, if_neg (by omega), Int.natAbs_natCast]
  rw [Encoder.head, hf, append_assoc, append_assoc, append_assoc, append_assoc]
  rfl

theorem afterType_sized (hn : n < 2 ^ 31)
    (hd : p.data = ascii "[" ++ formatUint n ++ ascii "]" ++ r) :
    afterType fc p = .ok ((fc, true, n), (p.advance ((formatUint n).length + 2)).uncomment) := by
  have hd₀ : p.data = '['.toUInt8 :: (formatUint n ++ ascii "]" ++ r) := by
    rw [hd, append_assoc, append_assoc, append_assoc]
    rfl
  rw [afterType, bind_of_ok peekNonSpaceRune_eq, next_cons hd₀ (by decide),
    trim_cons_self hd₀ (by decide), bind_of_ok (parseItemSize_sized hn hd),
    bind_of_ok skipComment_eq]
  rfl

theorem parseItemHead_sized (ht : TypeName name fc) (hn : n < 2 ^ 31)
    (hd : p.data = Encoder.head name n ++ r) :
    parseItemHead p = .ok ((fc, true, n), (p.advance (Encoder.head name n).length).uncomment) := by
  have ⟨c, s, hs, hc⟩ := ht.start
  have hd₀ : p.data = '<'.toUInt8 ::
      (ascii name ++ (ascii "[" ++ formatUint n ++ ascii "]" ++ r)) := by
    rw [hd, head_eq, cons_append, append_assoc]
  have hstep : p.step = p.advance 1 := step_cons hd₀ (by decide)
  have hd₁ : p.step.data = ascii name ++ (ascii "[" ++ formatUint n ++ ascii "]" ++ r) := by
    rw [hstep, data_advance, hd₀]
    rfl
  have htrim : p.step.trim = p.step := by
    rw [hs, cons_append] at hd₁
    exact trim_cons_self hd₁ hc
  have hi : itemType p.step.trim.data = some (fc, (ascii name).length) := by
    rw [htrim, hd₁, append_assoc, append_assoc]
    exact ht.read _
  rw [parseItemHead_eq, next_cons hd₀ (by decide), if_pos rfl, hi]
  simp only
  rw [htrim, afterType_sized hn (data_behind hd₁), hstep, advance_advance, advance_advance]
  congr 4
  rw [head_eq, length_cons, length_append, length_append,
    length_append]
  have h₁ : (ascii "[").length = 1 := rfl
  have h₂ : (ascii "]").length = 1 := rfl
  omega

end Head

-- The text is read as the item, whatever follows, with `depth` more levels of lists allowed.
def Reads (floatValue : Nat → Bytes → Except NumErr Ieee754.F64) (strict : Bool) (depth : Nat)
    (text : Bytes) (x : Item) : Prop :=
  ∀ (p : Parser) (rest : Bytes) (d : Nat), p.strict = strict → p.data = text ++ rest →
    depth ≤ d → p.listDepth + depth ≤ maxListDepth →
    parseItemIn floatValue (d + 1) p = .ok (x, (p.advance text.length).uncomment)

def ReadsBody (floatValue : Nat → Bytes → Except NumErr Ieee754.F64) (strict : Bool)
    (fc : FormatCode) (n : Nat) (text : Bytes) (x : Item) : Prop :=
  ∀ (p : Parser) (rest : Bytes) (child : P Item), p.strict = strict → p.data = text ++ rest →
    parseItemBody floatValue child true n fc p = .ok (x, p.advance text.length)

section Leaves

variable {floatValue : Nat → Bytes → Except NumErr Ieee754.F64} {strict : Bool} {name : String}
  {x : Item}

theorem strict_uncomment : p.uncomment.strict = p.strict := by
  rw [uncomment, advance, trim]
  split <;> rfl

theorem parseItemIn_of_head {hasSize : Bool} (h : parseItemHead p = .ok ((fc, hasSize, n), q)) :
    parseItemIn floatValue (d + 1) p =
      (parseItemBody floatValue (parseItemIn floatValue d) hasSize n fc >>= fun item => do
        skipComment
        pure item) q :=
  bind_of_ok h

theorem Reads.of_body (ht : TypeName name fc) (hn : n < 2 ^ 31) (hb : Blank bl)
    (hc : isBlank c = false) (hs : c ≠ '/'.toUInt8)
    (h : ReadsBody floatValue strict fc n (c :: s) x) :
    Reads floatValue strict 0 (Encoder.head name n ++ (bl ++ c :: s)) x := by
  intro p rest d hp hd _ _
  have hd₀ : p.data = Encoder.head name n ++ (bl ++ c :: (s ++ rest)) := by
    rw [hd, append_assoc, append_assoc, cons_append]
  have hd₁ := data_behind hd₀
  have hu := uncomment_of_split hd₁ hb hc hs
  have hd₂ := data_behind hd₁
  rw [← hu] at hd₂
  rw [parseItemIn_of_head (parseItemHead_sized ht hn hd₀),
    bind_of_ok (h _ rest _ (by rw [strict_uncomment]; exact hp) hd₂), bind_of_ok skipComment_eq, hu,
    advance_advance, advance_advance, run_pure, length_append, length_append]

end Leaves

section Lists

variable {floatValue : Nat → Bytes → Except NumErr Ieee754.F64} {strict : Bool} {depth : Nat}
  {text : Bytes} {x : Item} {xs : List Item} {child : P Item} {k : Nat} {a : List Item}
  {rest : Bytes}

-- The children of a list, with blanks between them and the closing bracket behind them.
inductive ReadsAll (floatValue : Nat → Bytes → Except NumErr Ieee754.F64) (strict : Bool)
    (depth : Nat) : Bytes → List Item → Prop
  | nil {bl : Bytes} : Blank bl → ReadsAll floatValue strict depth (bl ++ ascii ">") []
  | cons {bl s text : Bytes} {x : Item} {xs : List Item} :
    Blank bl → Reads floatValue strict depth ('<'.toUInt8 :: s) x →
    ReadsAll floatValue strict depth text xs →
    ReadsAll floatValue strict depth (bl ++ ('<'.toUInt8 :: s ++ text)) (x :: xs)

-- The texts of items that follow each other, with blanks before each.
inductive ReadsEach (floatValue : Nat → Bytes → Except NumErr Ieee754.F64) (strict : Bool)
    (depth : Nat) : Bytes → List Item → Prop
  | nil : ReadsEach floatValue strict depth [] []
  | cons {bl s text : Bytes} {x : Item} {xs : List Item} :
    Blank bl → Reads floatValue strict depth ('<'.toUInt8 :: s) x →
    ReadsEach floatValue strict depth text xs →
    ReadsEach floatValue strict depth (bl ++ ('<'.toUInt8 :: s ++ text)) (x :: xs)

theorem uncomment_eq_trim (hd : p.data = bl ++ c :: r) (hb : Blank bl) (hc : isBlank c = false)
    (hs : c ≠ '/'.toUInt8) : p.uncomment = p.trim := by
  rw [uncomment_of_split hd hb hc hs, trim_of_split hd hb hc]

theorem listStep_trim : listStep child xs p.trim = listStep child xs p := by
  rw [listStep, bind_of_ok peekNonSpaceRune_eq, bind_of_ok peekNonSpaceRune_eq, next_trim,
    trim_trim]

theorem listLoop_trim :
    iterate .outOfFuel (listStep child) k xs p.trim = iterate .outOfFuel (listStep child) k xs p := by
  cases k
  case zero => rfl
  case succ => rw [Prog.iterate, run_bind, run_bind, listStep_trim]

theorem ReadsAll.length_lt (h : ReadsAll floatValue strict depth text xs) :
    xs.length < text.length := by
  induction h
  case nil  => simp [ascii]
  case cons => simp; omega

theorem ReadsAll.split (h : ReadsAll floatValue strict depth text xs) :
    ∃ bl c s, text = bl ++ c :: s ∧ Blank bl ∧ isBlank c = false ∧ c ≠ '/'.toUInt8 ∧
      xs.length ≤ s.length := by
  cases h
  case nil bl hb =>
    exact ⟨bl, '>'.toUInt8, [], rfl, hb, by decide, by decide, Nat.zero_le _⟩
  case cons hb _ hxs =>
    have := hxs.length_lt
    refine ⟨_, '<'.toUInt8, _, rfl, hb, by decide, by decide, ?_⟩
    simp
    omega

def leave (p : Parser) : Parser :=
  { p with listDepth := p.listDepth - 1 }

theorem listLoop_child {s' bl' : Bytes} {c' : UInt8}
    (hx : Reads floatValue strict depth ('<'.toUInt8 :: s) x) (hp : p.strict = strict)
    (hd : p.data = bl ++ ('<'.toUInt8 :: s ++ r)) (hb : Blank bl) (hr : r = bl' ++ c' :: s')
    (hb' : Blank bl') (hc : isBlank c' = false) (hs : c' ≠ '/'.toUInt8) (hdepth : depth ≤ d)
    (hl : p.listDepth + depth ≤ maxListDepth) :
    iterate .outOfFuel (listStep (parseItemIn floatValue (d + 1))) (k + 1) a p =
      iterate .outOfFuel (listStep (parseItemIn floatValue (d + 1))) k (a ++ [x])
        (p.advance (bl ++ '<'.toUInt8 :: s).length) := by
  have hd₀ : p.data = bl ++ '<'.toUInt8 :: (s ++ r) := by rw [hd, cons_append]
  have ht := trim_of_split hd₀ hb (by decide)
  have hd₁ : p.trim.data = '<'.toUInt8 :: s ++ r := by
    rw [ht, data_behind hd₀, cons_append]
  have hx := hx p.trim _ d (by rw [ht]; exact hp) hd₁ hdepth (by rw [ht]; exact hl)
  have hstep : listStep (parseItemIn floatValue (d + 1)) a p =
      .ok (.inl (a ++ [x]), (p.trim.advance ('<'.toUInt8 :: s).length).uncomment) := by
    rw [listStep_child _ _ (next_of_split hd₀ hb (by decide)), bind_of_ok hx]
    rfl
  have hd₂ : (p.trim.advance ('<'.toUInt8 :: s).length).data = bl' ++ c' :: s' := by
    rw [data_behind hd₁, hr]
  rw [iterate_inl hstep, uncomment_eq_trim hd₂ hb' hc hs, listLoop_trim, ht, advance_advance,
    length_append]

theorem ReadsAll.loop (h : ReadsAll floatValue strict depth text xs)
    (hp : p.strict = strict) (hd : p.data = text ++ rest)
    (hdepth : depth ≤ d) (hl : p.listDepth + depth ≤ maxListDepth) (hk : xs.length < k) :
    iterate .outOfFuel (listStep (parseItemIn floatValue (d + 1))) k a p =
      .ok (newListItem ((a ++ xs).map some), (p.advance text.length).leave) := by
  obtain ⟨k, rfl⟩ : ∃ j, k = j + 1 := ⟨k - 1, by omega⟩
  induction h generalizing p a k
  case nil bl hb =>
    have hd₀ : p.data = bl ++ '>'.toUInt8 :: rest := by
      rw [hd, append_assoc]
      rfl
    rw [iterate_inr (listStep_close (next_of_split hd₀ hb (by decide))),
      step_of_split hd₀ hb (by decide), append_nil, length_append]
    rfl
  case cons bl s text x xs hb hx hxs hi =>
    have ⟨bl', c, s', he, hb', hc, hs, _⟩ := hxs.split
    have hd₀ : p.data = bl ++ ('<'.toUInt8 :: s ++ (text ++ rest)) := by
      rw [hd, append_assoc, append_assoc]
    have hr : text ++ rest = bl' ++ c :: (s' ++ rest) := by
      rw [he, append_assoc, cons_append]
    have hd₁ : (p.advance (bl ++ '<'.toUInt8 :: s).length).data = text ++ rest :=
      data_behind (by rw [hd₀, append_assoc])
    simp only [length_cons] at hk
    obtain ⟨k, rfl⟩ : ∃ j, k = j + 1 := ⟨k - 1, by omega⟩
    have hi := hi (p := p.advance (bl ++ '<'.toUInt8 :: s).length) (a := a ++ [x]) hp hd₁ hl k
      (by omega)
    rw [listLoop_child hx hp hd₀ hb hr hb' hc hs hdepth hl, hi, advance_advance, append_assoc,
      ← length_append, append_assoc]
    rfl

def enter (p : Parser) : Parser :=
  { p with listDepth := p.listDepth + 1 }

theorem leave_enter : (p.enter.advance n).leave = p.advance n :=
  rfl

theorem trim_enter : p.trim.enter = p.enter.trim := by
  have hn : p.enter.next = p.next := rfl
  have hd : p.enter.data = p.data := rfl
  rw [trim, trim, hn, hd]
  split <;> rfl

theorem typeName_list : TypeName "L" .list where
  start := ⟨_, _, rfl, by decide⟩
  read _ := rfl

theorem parseList_enter (h : p.listDepth + 1 ≤ maxListDepth) :
    parseList child p =
      iterate .outOfFuel (listStep child) (p.data.length + 1) [] p.enter := by
  rw [parseList, bind_of_ok (run_modify ..), bind_of_ok (run_get _), if_neg (Nat.not_lt.mpr h)]
  rfl

theorem parseList_trim (hd : p.data = bl ++ c :: r) (hb : Blank bl)
    (hc : isBlank c = false) (h : p.listDepth + 1 ≤ maxListDepth) :
    parseList child p.trim =
      iterate .outOfFuel (listStep child) ((c :: r).length + 1) [] p.enter := by
  have htrim := trim_of_split hd hb hc
  have hd₁ : p.trim.data = c :: r := by rw [htrim, data_behind hd]
  have hdepth : p.trim.listDepth = p.listDepth := by rw [htrim]; rfl
  rw [parseList_enter (by rwa [hdepth]), hd₁, trim_enter, listLoop_trim]

theorem ReadsAll.parseList (h : ReadsAll floatValue strict depth text xs)
    (hp : p.strict = strict) (hd : p.data = text ++ rest) (hdepth : depth ≤ d)
    (hl : p.listDepth + (depth + 1) ≤ maxListDepth) :
    parseList (parseItemIn floatValue (d + 1)) p.trim =
      .ok (newListItem (xs.map some), p.advance text.length) := by
  have ⟨bl, c, s, he, hb, hc, _, hlen⟩ := h.split
  have hd₀ : p.data = bl ++ c :: (s ++ rest) := by rw [hd, he, append_assoc, cons_append]
  have hloop := h.loop (p := p.enter) (a := []) (d := d) (k := (c :: (s ++ rest)).length + 1) hp hd
    hdepth (by show p.listDepth + 1 + depth ≤ _; omega) (by simp; omega)
  rw [parseList_trim hd₀ hb hc (by omega), hloop, nil_append, leave_enter]

theorem ReadsAll.reads (h : ReadsAll floatValue strict depth text xs) (hn : xs.length < 2 ^ 31) :
    Reads floatValue strict (depth + 1) (Encoder.head "L" xs.length ++ text)
      (newListItem (xs.map some)) := by
  intro p rest d hp hd hdepth hl
  obtain ⟨d, rfl⟩ : ∃ j, d = j + 1 := ⟨d - 1, by omega⟩
  have ⟨bl, c, s, he, hb, hc, hs, _⟩ := h.split
  rw [append_assoc] at hd
  have hd₁ := data_behind hd
  have hu : (p.advance (Encoder.head "L" xs.length).length).uncomment =
      (p.advance (Encoder.head "L" xs.length).length).trim := by
    refine uncomment_eq_trim (r := s ++ rest) ?_ hb hc hs
    rw [hd₁, he, append_assoc, cons_append]
  have hlist := h.parseList (p := p.advance (Encoder.head "L" xs.length).length) (d := d) hp hd₁
    (by omega) hl
  rw [parseItemIn_of_head (parseItemHead_sized typeName_list hn hd), hu, parseItemBody,
    bind_of_ok hlist, bind_of_ok skipComment_eq, advance_advance, length_append]
  rfl

end Lists

end Parser
end Sml
