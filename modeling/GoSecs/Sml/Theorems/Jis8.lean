import GoSecs.Secs2.Theorems.Valid
import GoSecs.Sml.Theorems.Messages

open Utf8 Strings Strconv Prog List

namespace Sml
namespace Parser

open Secs2

variable {floatValue : Nat → Bytes → Except NumErr Ieee754.F64} {strict : Bool} {p q : Parser}
  {value s r : Bytes} {n : Nat}

section Text

variable {data : Bytes} {quoteCh lastQuotePos : Nat} {unclosed : String} {new : Bytes → Item}
  {rs : List (Nat × Nat)}

theorem verbatimLoop_skip {ts : List (Nat × Nat)} (hq : ∀ r ∈ rs, r.2 ≠ quoteCh)
    (hr : ∀ r ∈ rs, r.2 = '>'.toNat → lastQuotePos + 1 < r.1) :
    verbatimLoop data quoteCh unclosed new lastQuotePos (rs ++ ts) =
      verbatimLoop data quoteCh unclosed new lastQuotePos ts := by
  induction rs
  case nil => rfl
  case cons r rs hi =>
    have hi := hi (fun r h => hq r (mem_cons_of_mem _ h))
      fun r h => hr r (mem_cons_of_mem _ h)
    rw [cons_append, verbatimLoop, if_neg (hq r mem_cons_self), hi]
    by_cases hc : r.2 = '>'.toNat
    case pos => rw [if_pos hc, if_pos (hr r mem_cons_self hc)]
    case neg => rw [if_neg hc]

variable {c : UInt8}

theorem rune_ne (hc : c < 0x80) (h : c ∉ s) : ∀ r ∈ range s, r.2 ≠ c.toNat := by
  rintro ⟨j, r⟩ hr rfl
  have ⟨x, t, hs, _⟩ := mem_runes hr (UInt8.lt_iff_toNat_lt.mp hc)
  rw [UInt8.ofNat_toNat] at hs
  exact h (hs ▸ by simp)

theorem parseJIS8_quote (hd : p.data = '"'.toUInt8 :: r) :
    parseJIS8 p = verbatimLoop r '"'.toNat "unclosed quote string for JIS-8 item" newJIS8Item 0
      (range r) (p.advance 1) := by
  have hd₁ : (p.advance 1).data = r := by
    rw [data_advance, hd]
    rfl
  rw [parseJIS8, parseVerbatim, bind_of_ok nextNonSpaceRune_eq, next_cons hd (by decide),
    step_cons hd (by decide), if_neg (by decide), if_pos (by decide), bind_of_ok (run_get _), hd₁]
  rfl

theorem verbatimLoop_close {i : Nat} (hq : '>'.toNat ≠ quoteCh)
    (hi : i ≤ lastQuotePos + 1) (hl : lastQuotePos ≤ data.length) (hn : i < p.data.length) :
    verbatimLoop data quoteCh unclosed new lastQuotePos ((i, '>'.toNat) :: rs) p =
      .ok (new (data.take lastQuotePos), p.advance (i + 1)) := by
  rw [verbatimLoop, if_neg hq, if_pos rfl, if_neg (by omega), bind_of_ok (sliceTo_of_le hl),
    bind_of_ok (discard_forward hn)]
  rfl

theorem mem_take_two (h : c ∈ value.take 2) :
    ∃ s t, value = s ++ c :: t ∧ s.length ≤ 1 ∧ c ∉ s := by
  rcases value with _ | ⟨a, value⟩
  case nil => cases h
  case cons =>
    by_cases ha : c = a
    case pos => exact ⟨[], value, by rw [ha]; rfl, by decide, nofun⟩
    case neg =>
      rcases value with _ | ⟨b, value⟩
      case nil  => exact absurd (mem_singleton.mp h) ha
      case cons =>
        have hb : c = b := by simpa [ha] using h
        exact ⟨[a], value, by rw [hb]; rfl, le_rfl, by simpa using ha⟩

-- A text is read up to its closing quote if no bracket comes before the third byte: up to there, the
-- opening quote is taken for the closing one.
theorem readsBody_jis8 (hv : '"'.toUInt8 ∉ value) (hg : '>'.toUInt8 ∉ value.take 2) :
    ReadsBody floatValue strict .jis8 n ('"'.toUInt8 :: (value ++ ascii "\">"))
      (newJIS8Item value) := by
  intro p rest child _ hd
  have hd₀ : p.data = '"'.toUInt8 :: (value ++ '"'.toUInt8 :: '>'.toUInt8 :: rest) := by
    rw [hd, cons_append, append_assoc]
    rfl
  have hd₁ : (p.advance 1).data = value ++ '"'.toUInt8 :: '>'.toUInt8 :: rest := by
    rw [data_advance, hd₀]
    rfl
  have hquote : ∀ r ∈ range value, r.2 ≠ '"'.toNat := rune_ne (c := '"'.toUInt8) (by decide) hv
  have hfar : ∀ r ∈ range value, r.2 = '>'.toNat → 0 + 1 < r.1 := by
    rintro ⟨j, r⟩ hr rfl
    have ⟨x, t, hs, hj, _⟩ := mem_runes hr (by decide)
    by_contra hlt
    refine hg ?_
    rcases x with _ | ⟨a, _ | ⟨b, x⟩⟩
    case nil => exact hs ▸ mem_cons_self
    case cons.nil => exact hs ▸ mem_cons_of_mem _ mem_cons_self
    case cons.cons =>
      simp only [length_cons] at hj
      omega
  rw [parseItemBody, parseJIS8_quote hd₀, range_append (by decide), verbatimLoop_skip hquote hfar,
    verbatimLoop, if_pos (by decide), runes_ascii (by decide)]
  refine (verbatimLoop_close (by decide) le_rfl (by simp) (by simp [hd₁])).trans ?_
  rw [take_left, advance_advance]
  congr 3
  simp [ascii]
  omega

theorem readsBody_jis8_cut (hs : s.length ≤ 1) (hq : '"'.toUInt8 ∉ s) (hg : '>'.toUInt8 ∉ s) :
    ReadsBody floatValue strict .jis8 n ('"'.toUInt8 :: (s ++ ascii ">")) (newJIS8Item []) := by
  intro p rest child _ hd
  have hd₀ : p.data = '"'.toUInt8 :: (s ++ '>'.toUInt8 :: rest) := by
    rw [hd, cons_append, append_assoc]
    rfl
  have hd₁ : (p.advance 1).data = s ++ '>'.toUInt8 :: rest := by
    rw [data_advance, hd₀]
    rfl
  have hquote : ∀ r ∈ range s, r.2 ≠ '"'.toNat := rune_ne (c := '"'.toUInt8) (by decide) hq
  have hclose : ∀ r ∈ range s, r.2 ≠ '>'.toNat := rune_ne (c := '>'.toUInt8) (by decide) hg
  rw [parseItemBody, parseJIS8_quote hd₀, range_append (by decide),
    verbatimLoop_skip hquote fun r hr he => absurd he (hclose r hr)]
  refine (verbatimLoop_close (by decide) hs (by simp) (by simp [hd₁])).trans ?_
  rw [advance_advance]
  congr 3
  simp [ascii]
  omega

theorem typeName_jis8 : TypeName "J" .jis8 where
  start := ⟨_, _, rfl, by decide⟩
  read _ := rfl

theorem jis8SML_eq : jis8SML value =
    Encoder.head "J" value.length ++ (ascii " " ++ '"'.toUInt8 :: (value ++ ascii "\">")) := by
  rw [jis8SML]
  split
  case isTrue h =>
    rw [h]
    rfl
  case isFalse =>
    rw [head_eq]
    simp [ascii]

theorem reads_jis8 (hn : value.length ≤ maxByteSize) (hv : '"'.toUInt8 ∉ value)
    (hg : '>'.toUInt8 ∉ value.take 2) :
    Reads floatValue strict 0 (jis8SML value) (newJIS8Item value) := by
  rw [jis8SML_eq]
  exact .of_body typeName_jis8 (by unfold maxByteSize at hn; omega) blank_space (by decide)
    (by decide) (readsBody_jis8 hv hg)

theorem reads_jis8_cut (floatValue : Nat → Bytes → Except NumErr Ieee754.F64) (strict : Bool)
    (hn : value.length ≤ maxByteSize) (hv : '"'.toUInt8 ∉ value)
    (hg : '>'.toUInt8 ∈ value.take 2) :
    value ≠ [] ∧ ∃ text rest, jis8SML value = text ++ rest ∧
      Reads floatValue strict 0 text (newJIS8Item []) := by
  have ⟨s, t, hs, hl, hgs⟩ := mem_take_two hg
  refine ⟨by rw [hs]; simp, Encoder.head "J" value.length ++
    (ascii " " ++ '"'.toUInt8 :: (s ++ ascii ">")), t ++ ascii "\">", ?_, ?_⟩
  · rw [jis8SML_eq]
    nth_rw 2 [hs]
    simp [ascii]
  · have hvs : '"'.toUInt8 ∉ s := fun h => hv (by rw [hs]; simp [h])
    exact .of_body typeName_jis8 (by unfold maxByteSize at hn; omega) blank_space (by decide)
      (by decide) (readsBody_jis8_cut hl hvs hgs)

end Text

-- A place for an item under some lists, whose other children are read as well.
inductive Place (floatValue : Nat → Bytes → Except NumErr Ieee754.F64) (strict : Bool) :
    Nat → (Bytes → Bytes) → (Item → Item) → Prop
  | here : Place floatValue strict 0 id id
  | list {depth : Nat} {text : Bytes → Bytes} {item : Item → Item} {before after bl : Bytes}
      {xs ys : List Item} :
    Place floatValue strict depth text item → ReadsEach floatValue strict depth before xs →
    Blank bl → ReadsAll floatValue strict depth after ys →
    xs.length + 1 + ys.length ≤ maxByteSize →
    Place floatValue strict (depth + 1)
      (fun t => Encoder.head "L" (xs.length + 1 + ys.length : Nat) ++
        (before ++ (bl ++ (text t ++ after))))
      (fun x => newListItem ((xs ++ item x :: ys).map some))

section Places

variable {depth : Nat} {text before bl t : Bytes} {x y : Item} {xs ys : List Item} {k : Nat}
  {a : List Item} {z : Item} {child : P Item}

theorem ReadsEach.append (h : ReadsEach floatValue strict depth before xs)
    (h' : ReadsAll floatValue strict depth text ys) :
    ReadsAll floatValue strict depth (before ++ text) (xs ++ ys) := by
  induction h
  case nil => exact h'
  case cons hb hx _ hi =>
    rw [append_assoc, append_assoc]
    exact .cons hb hx hi

theorem ReadsEach.split (h : ReadsEach floatValue strict depth before xs) (hb : Blank bl) :
    ∃ bl' r', before ++ (bl ++ '<'.toUInt8 :: r) = bl' ++ '<'.toUInt8 :: r' ∧ Blank bl' := by
  cases h
  case nil => exact ⟨bl, r, rfl, hb⟩
  case cons bl' s text _ _ hb' _ _ =>
    refine ⟨bl', s ++ (text ++ (bl ++ '<'.toUInt8 :: r)), ?_, hb'⟩
    rw [append_assoc, append_assoc, cons_append]

theorem ReadsEach.loop {d : Nat}
    (h : ReadsEach floatValue strict depth before xs) (hp : p.strict = strict)
    (hd : p.data = before ++ (bl ++ '<'.toUInt8 :: r)) (hb : Blank bl) (hdepth : depth ≤ d)
    (hl : p.listDepth + depth ≤ maxListDepth)
    (hz : iterate .outOfFuel (listStep (parseItemIn floatValue (d + 1))) k a p = .ok (z, q)) :
    ∃ j, iterate .outOfFuel (listStep (parseItemIn floatValue (d + 1))) j (a ++ xs)
      (p.advance before.length) = .ok (z, q) := by
  induction h generalizing p a k
  case nil =>
    refine ⟨k, ?_⟩
    rw [append_nil]
    exact (advance_zero p).symm ▸ hz
  case cons bl₁ s text x xs hb₁ hx hxs hi =>
    cases k
    case zero => cases hz
    case succ k =>
      have ⟨bl', r', hr, hb'⟩ := hxs.split (r := r) hb
      have hd₀ : p.data = bl₁ ++ ('<'.toUInt8 :: s ++ (text ++ (bl ++ '<'.toUInt8 :: r))) := by
        rw [hd, append_assoc, append_assoc]
      rw [listLoop_child hx hp hd₀ hb₁ hr hb' (by decide) (by decide) hdepth hl] at hz
      have hd₁ : (p.advance (bl₁ ++ '<'.toUInt8 :: s).length).data =
          text ++ (bl ++ '<'.toUInt8 :: r) := data_behind (by rw [hd₀, append_assoc])
      have ⟨j, hj⟩ := hi (p := p.advance (bl₁ ++ '<'.toUInt8 :: s).length) hp hd₁ hl hz
      refine ⟨j, ?_⟩
      rw [advance_advance, ← length_append, append_assoc, append_assoc] at hj
      exact hj

theorem listStep_sound {z : List Item ⊕ Item} (h : listStep child a p = .ok (z, q)) :
    (∃ y, z = .inl (a ++ [y])) ∨ z = .inr (newListItem (a.map some)) := by
  rw [listStep, bind_of_ok peekNonSpaceRune_eq] at h
  rcases hn : p.next with _ | c
  all_goals
    rw [hn] at h
    simp only at h
  case none => cases h
  case some =>
    split at h
    case isTrue =>
      obtain ⟨y, _, _, h⟩ := bind_eq_ok.mp h
      cases h
      exact .inl ⟨y, rfl⟩
    case isFalse =>
      split at h
      case isFalse => cases h
      case isTrue =>
        obtain ⟨_, _, _, h⟩ := bind_eq_ok.mp h
        obtain ⟨_, _, _, h⟩ := bind_eq_ok.mp h
        cases h
        exact .inr rfl

theorem listLoop_sound (h : iterate .outOfFuel (listStep child) k a p = .ok (z, q)) :
    ∃ zs, z = newListItem ((a ++ zs).map some) := by
  induction k generalizing a p
  case zero => cases h
  case succ k hi =>
    rcases hs : listStep child a p with e | ⟨b, p'⟩
    case error =>
      rw [iterate_error hs] at h
      cases h
    case ok =>
      rcases listStep_sound hs with ⟨y, rfl⟩ | rfl
      case inl =>
        rw [iterate_inl hs] at h
        have ⟨zs, hz⟩ := hi h
        exact ⟨y :: zs, by rw [hz, append_assoc]; rfl⟩
      case inr =>
        rw [iterate_inr hs] at h
        cases h
        exact ⟨[], by rw [append_nil]⟩

theorem newListItem_some (hn : xs.length ≤ maxByteSize) :
    newListItem (xs.map some) = .list {} (xs.all childClean) xs := by
  have hr : (xs.map some).reduceOption = xs := by simp [List.reduceOption]
  rw [newListItem, if_neg (by rw [length_map]; omega), hr]

theorem newListItem_inj (hn : ys.length ≤ maxByteSize) (hy : ys ≠ [])
    (h : newListItem (xs.map some) = newListItem (ys.map some)) : xs = ys := by
  rw [newListItem_some hn] at h
  by_cases hx : xs.length ≤ maxByteSize
  case pos =>
    rw [newListItem_some hx] at h
    exact (Item.list.inj h).2.2
  case neg =>
    rw [newListItem, if_pos (by rw [length_map]; omega)] at h
    exact absurd (Item.list.inj h).2.2.symm hy

-- The text is not read as the item, whatever follows it.
def Misreads (floatValue : Nat → Bytes → Except NumErr Ieee754.F64) (strict : Bool) (depth : Nat)
    (text : Bytes) (x : Item) : Prop :=
  ∀ (p q : Parser) (rest : Bytes) (d : Nat), p.strict = strict → p.data = text ++ rest →
    depth ≤ d → p.listDepth + depth ≤ maxListDepth → parseItemIn floatValue (d + 1) p ≠ .ok (x, q)

theorem ReadsEach.misreads {d : Nat} {rest : Bytes} {w : Item}
    (h : ReadsEach floatValue strict depth before xs) (hb : Blank bl)
    (hz : Misreads floatValue strict depth ('<'.toUInt8 :: s) z) (hp : p.strict = strict)
    (hd : p.data = before ++ (bl ++ ('<'.toUInt8 :: s ++ rest))) (hdepth : depth ≤ d)
    (hl : p.listDepth + depth ≤ maxListDepth)
    (hw : iterate .outOfFuel (listStep (parseItemIn floatValue (d + 1))) k [] p = .ok (w, q)) :
    ∃ y zs, y ≠ z ∧ w = newListItem ((xs ++ y :: zs).map some) := by
  have hd₀ : p.data = before ++ (bl ++ '<'.toUInt8 :: (s ++ rest)) := by rw [hd, cons_append]
  have ⟨j, hj⟩ := h.loop hp hd₀ hb hdepth hl hw
  have hd₁ := data_behind hd₀
  rw [nil_append] at hj
  cases j
  case zero => cases hj
  case succ j =>
    have ht := trim_of_split hd₁ hb (by decide)
    have hd₂ : (p.advance before.length).trim.data = '<'.toUInt8 :: s ++ rest := by
      rw [ht, data_behind hd₁, cons_append]
    have hchild := listStep_child (parseItemIn floatValue (d + 1)) xs
      (next_of_split hd₁ hb (by decide))
    rcases hy : parseItemIn floatValue (d + 1) (p.advance before.length).trim with e | ⟨y, p'⟩
    case error =>
      rw [iterate_error (hchild.trans (bind_of_error hy))] at hj
      cases hj
    case ok =>
      have hne : y ≠ z := by
        rintro rfl
        exact hz _ p' rest d (by rw [ht]; exact hp) hd₂ hdepth (by rw [ht]; exact hl) hy
      rw [iterate_inl (hchild.trans (bind_of_ok hy))] at hj
      have ⟨zs, hzs⟩ := listLoop_sound hj
      exact ⟨y, zs, hne, by rw [hzs, append_assoc]; rfl⟩

variable {place : Bytes → Bytes} {item : Item → Item}

theorem Place.cons (h : Place floatValue strict depth place item) (ht : ∃ s, t = '<'.toUInt8 :: s) :
    ∃ s, place t = '<'.toUInt8 :: s := by
  cases h
  case here => exact ht
  case list => exact ⟨_, by rw [head_eq]; rfl⟩

theorem length_place : (xs ++ x :: ys).length = xs.length + 1 + ys.length := by
  rw [length_append, length_cons]
  omega

theorem Place.reads (h : Place floatValue strict depth place item) (ht : ∃ s, t = '<'.toUInt8 :: s)
    (hx : Reads floatValue strict 0 t x) : Reads floatValue strict depth (place t) (item x) := by
  induction h
  case here => exact hx
  case list xs ys hp hxs hb hys hn hi =>
    have ⟨s, hs⟩ := hp.cons ht
    rw [hs] at hi
    have hlist := (hxs.append (.cons hb hi hys)).reads (by
      rw [length_place]
      unfold maxByteSize at hn
      omega)
    rw [length_place] at hlist
    simp only [hs]
    exact hlist

theorem Place.misreads (h : Place floatValue strict depth place item)
    (ht : ∃ s, t = '<'.toUInt8 :: s) (hx : Misreads floatValue strict 0 t x) :
    Misreads floatValue strict depth (place t) (item x) := by
  induction h
  case here => exact hx
  case list depth text item before after bl xs ys hp hxs hb hys hn hi =>
    intro p q rest d hstrict hd hdepth hl heq
    obtain ⟨d, rfl⟩ : ∃ j, d = j + 1 := ⟨d - 1, by omega⟩
    obtain ⟨s, hs⟩ := hp.cons ht
    simp only [hs] at hd hi
    have hd₀ : p.data = Encoder.head "L" (xs.length + 1 + ys.length : Nat) ++
        (before ++ (bl ++ ('<'.toUInt8 :: s ++ (after ++ rest)))) := by
      rw [hd]
      simp only [append_assoc]
    have hd₁ := data_behind hd₀
    obtain ⟨bl', r', hr, hb'⟩ := hxs.split (r := s ++ (after ++ rest)) hb
    rw [← cons_append] at hr
    have hsplit := hd₁.trans hr
    have hhead := parseItemHead_sized typeName_list (by unfold maxByteSize at hn; omega) hd₀
    rw [parseItemIn_of_head hhead, uncomment_eq_trim hsplit hb' (by decide) (by decide)] at heq
    obtain ⟨w, p', hw, heq⟩ := bind_eq_ok.mp heq
    obtain ⟨_, _, _, heq⟩ := bind_eq_ok.mp heq
    cases heq
    rw [parseItemBody, parseList_trim hsplit hb' (by decide) (by
      show p.listDepth + 1 ≤ maxListDepth
      omega)] at hw
    obtain ⟨y, zs, hne, hy⟩ := hxs.misreads hb hi
      (p := (p.advance (Encoder.head "L" (xs.length + 1 + ys.length : Nat)).length).enter) hstrict hd₁
      (by omega) (by show p.listDepth + 1 + depth ≤ maxListDepth; omega) hw
    have hinj := newListItem_inj (by rw [length_place]; exact hn) (by simp) hy.symm
    exact hne (List.cons.inj (append_cancel_left hinj)).1

end Places

theorem misreads_jis8 (hn : value.length ≤ maxByteSize) (hv : '"'.toUInt8 ∉ value)
    (hg : '>'.toUInt8 ∈ value.take 2) :
    Misreads floatValue strict 0 (jis8SML value) (newJIS8Item value) := by
  intro p q rest d hp hd hdepth hl heq
  have ⟨hne, text, rest', ht, hr⟩ := reads_jis8_cut floatValue strict hn hv hg
  have hcut := hr p (rest' ++ rest) d hp (by rw [hd, ht, append_assoc]) hdepth hl
  have hitem : newJIS8Item [] = newJIS8Item value :=
    (Prod.mk.inj (Except.ok.inj (hcut.symm.trans heq))).1
  rw [newJIS8Item, newJIS8Item, if_neg (by decide), if_neg (Nat.not_lt.mpr hn)] at hitem
  exact hne (Leaf.jis8.inj (Item.leaf.inj hitem).2).symm

theorem jis8_roundtrip_iff {w : Bool} {qs : Bytes} {depth n m : Nat} {place : Bytes → Bytes}
    {item : Item → Item} {msg : Hsms.DataMessage} (hvalid : (Leaf.jis8 value).Valid)
    (hquote : '"'.toUInt8 ∉ value) (hplace : Place floatValue strict depth place item)
    (hdepth : depth ≤ maxListDepth) (hqs : Quotes qs) (hn : n < 128) (hm : m < 256)
    (hmsg : built n m w (item (newJIS8Item value)) = .ok msg) :
    (newParser strict).parse floatValue
        (headerText qs n m w ++ '\n'.toUInt8 :: (place (jis8SML value) ++ ascii "\n.")) = .ok [msg] ↔
      '>'.toUInt8 ∉ value.take 2 := by
  have hstart : ∃ s, jis8SML value = '<'.toUInt8 :: s := ⟨_, by rw [jis8SML_eq, head_eq]; rfl⟩
  have ⟨s, hs⟩ := hplace.cons hstart
  constructor
  case mpr =>
    intro hg
    have hreads := hplace.reads hstart (reads_jis8 hvalid hquote hg)
    rw [hs] at hreads ⊢
    exact parse_of_reads hreads hdepth hqs hn hm hmsg
  case mp =>
    intro h hg
    have hmis := hplace.misreads hstart (misreads_jis8 hvalid hquote hg)
    rw [hs] at h hmis
    have ⟨q, q', x, msg', _, hstrict, hlist, hd, hx, hi, he⟩ := parse_item_sound hqs hn hm h
    obtain rfl : msg = msg' := (List.cons.inj he).1
    have hi : (some (item (newJIS8Item value)), none) = (some x, none) :=
      (newDataMessage_item hmsg).symm.trans hi
    obtain rfl : item (newJIS8Item value) = x := Option.some.inj (Prod.mk.inj hi).1
    exact hmis q q' (ascii "\n.") maxListDepth hstrict hd hdepth
      (by rw [hlist]; exact (Nat.zero_add depth).trans_le hdepth) hx

theorem jis8_roundtrip_list :
    ∃ msg, Sml.parse noFloat (ascii "S1F1\n<L[1]\n<J[3] \"ab>\">\n>\n.") = .ok [msg] := by
  have ⟨msg, hmsg⟩ :
      ∃ msg, built 1 1 false (newListItem [some (newJIS8Item (ascii "ab>"))]) = .ok msg := ⟨_, rfl⟩
  refine ⟨msg, ?_⟩
  have hplace : Place noFloat false 1 _ _ :=
    .list .here .nil blank_newline (.nil blank_newline) (by decide)
  have hvalid : (Leaf.jis8 (ascii "ab>")).Valid := show (ascii "ab>").length ≤ maxByteSize by decide
  exact (jis8_roundtrip_iff hvalid (by decide) hplace (by decide) .none (by decide) (by decide)
    hmsg).mpr (by decide)

-- A bracket at the start of the text ends the item, and the message is refused.
theorem jis8_bracket_refused :
    jis8SML (ascii ">") = ascii "<J[1] \">\">" ∧
      (Sml.parse noFloat (ascii "S1F1\n<J[1] \">\">\n.")).isOk = false ∧
      (parseStrict noFloat (ascii "S1F1\n<J[1] \">\">\n.")).isOk = false := by
  decide +kernel

end Parser
end Sml
