import GoSecs.Secs2.Grammar

open BigEndian List

namespace Secs2

variable {owned : Bytes} {pos startPos n : Nat} {b : UInt8} {rest : Bytes} {α : Type}

theorem int32_eq {n : Nat} (h : n < 2 ^ 31) : int32 n = n := by
  unfold int32
  apply Int.bmod_eq_of_le <;> omega

theorem index_of_drop (h : owned.drop pos = b :: rest) :
    index owned pos = .ok b := by
  have : owned[pos]? = some b := by rw [← Nat.add_zero pos, ← getElem?_drop, h]; rfl
  rw [index, this]

theorem index_ok (h : pos < owned.length) : index owned pos = .ok owned[pos] := by
  rw [index, getElem?_eq_getElem h]

theorem slice_ok {i j : Nat} (h₁ : i ≤ j) (h₂ : j ≤ owned.length) :
    slice owned i j = .ok ((owned.drop i).take (j - i)) :=
  if_pos ⟨h₁, h₂⟩

theorem ok_bind {β : Type} {a : α} {f : α → Except Fault β} : (Except.ok a >>= f) = f a :=
  rfl

theorem error_bind {β : Type} {e : Fault} {f : α → Except Fault β} :
    (Except.error e >>= f) = .error e :=
  rfl

theorem mapM_ok {β : Type} {f : α → Except Fault β} {g : α → β} {as : List α}
    (h : ∀ a ∈ as, f a = .ok (g a)) : as.mapM f = .ok (as.map g) := by
  induction as
  case nil => rfl
  case cons a as hi =>
    rw [mapM_cons, h a (by simp), hi fun b hb => h b (by simp [hb])]
    rfl

section Header

theorem toNat_formatByte (fc : FormatCode) {k : Nat} (h : k ≤ 3) :
    (formatByte fc k).toNat = fc.code * 4 + k := by
  have := fc.code_lt
  rw [formatByte, UInt8.toNat_ofNat', Nat.mod_eq_of_lt (by omega)]

variable {fc : FormatCode}

theorem formatByte_of_code (h : fc.code = b.toNat / 4) :
    formatByte fc (b.toNat % 4) = b := by
  rw [formatByte, h, Nat.div_add_mod' b.toNat 4, UInt8.ofNat_toNat]

theorem decodeHeader_complete {hd : Bytes} (hh : Header fc n hd)
    (hd' : owned.drop pos = hd ++ rest) :
    decodeHeader owned pos = .ok { code := fc.code, length := n, pos := pos + hd.length } := by
  cases hh
  case mk lb h₁ h₂ =>
    have hl := congrArg length hd'
    simp only [length_drop, length_append, length_cons] at hl
    have hb := toNat_formatByte fc h₂
    have hs : (owned.drop (pos + 1)).take lb.length = lb := by
      rw [← drop_drop, hd']
      simp
    rw [decodeHeader, if_neg (by omega), index_of_drop hd', ok_bind, hb]
    simp only [show (fc.code * 4 + lb.length) % 4 = lb.length by omega]
    rw [if_neg (by omega), if_neg (by omega), slice_ok (by omega) (by omega), ok_bind,
      Nat.add_sub_cancel_left, hs]
    simp only [length_cons, Except.ok.injEq, ItemHeader.mk.injEq, true_and]
    omega

variable {h : ItemHeader}

theorem decodeHeader_ok (he : decodeHeader owned pos = .ok h) :
    ∃ (b : UInt8) (lb : Bytes), b.toNat % 4 = lb.length ∧ 1 ≤ lb.length ∧ h.code = b.toNat / 4 ∧
      h.length = nat lb ∧ h.pos = pos + 1 + lb.length ∧ h.pos ≤ owned.length ∧
      owned.drop pos = b :: lb ++ owned.drop h.pos := by
  unfold decodeHeader at he
  split at he
  case isTrue => cases he
  case isFalse hp =>
    have hp : pos < owned.length := by omega
    rw [index_ok hp, ok_bind] at he
    simp only at he
    split at he
    case isTrue => cases he
    case isFalse hz =>
      split at he
      case isTrue => cases he
      case isFalse hn =>
        rw [slice_ok (by omega) (by omega), ok_bind, Nat.add_sub_cancel_left] at he
        cases he
        have hl : ((owned.drop (pos + 1)).take (owned[pos].toNat % 4)).length =
            owned[pos].toNat % 4 := by
          rw [length_take, length_drop]
          omega
        refine ⟨owned[pos], _, hl.symm, by omega, rfl, rfl, by simp only [hl],
          by simp only; omega, ?_⟩
        simp only [drop_eq_getElem_cons hp, cons_append, cons.injEq, true_and]
        rw [← drop_drop (j := pos + 1), take_append_drop]

theorem decodeHeader_sound (he : decodeHeader owned pos = .ok h)
    (hc : FormatCode.ofCode h.code = some fc) :
    ∃ hd, Header fc h.length hd ∧ owned.drop pos = hd ++ owned.drop h.pos ∧
      h.pos = pos + hd.length ∧ h.pos ≤ owned.length := by
  have ⟨b, lb, hb, hl, hcode, hlen, hpos, hle, hdrop⟩ := decodeHeader_ok he
  have hf : formatByte fc lb.length = b := by
    rw [← hb]
    exact formatByte_of_code (FormatCode.code_of_ofCode hc ▸ hcode)
  refine ⟨b :: lb, ?_, hdrop, by simp only [length_cons]; omega, hle⟩
  rw [hlen, ← hf]
  exact .mk hl (by omega)

theorem decodeHeader_safe : decodeHeader owned pos ≠ .error .outOfRange := by
  unfold decodeHeader
  split
  case isTrue => simp
  case isFalse hp =>
    rw [index_ok (by omega), ok_bind]
    simp only
    split
    case isTrue => simp
    case isFalse =>
      split
      case isTrue => simp
      case isFalse =>
        rw [slice_ok (by omega) (by omega), ok_bind]
        simp

theorem Header.length_lt {hd : Bytes} (h : Header fc n hd) : n < 2 ^ 24 := by
  cases h
  case mk lb _ h₂ =>
    calc nat lb < 256 ^ lb.length := nat_lt lb
      _ ≤ 256 ^ 3 := Nat.pow_le_pow_right (by decide) h₂
      _ = 2 ^ 24 := by norm_num

end Header

section Leaf

variable {fc : FormatCode} {l : Leaf}

def rawAt (owned : Bytes) (startPos endPos : Nat) : Base :=
  { raw := (owned.drop startPos).take (endPos - startPos) }

theorem decodeVerbatim_ok {what : String} {mk : Bytes → Leaf} (hs : startPos ≤ pos)
    (hn : pos + n ≤ owned.length) :
    decodeVerbatim what mk owned startPos pos n =
      .ok (.leaf (rawAt owned startPos (pos + n)) (mk ((owned.drop pos).take n)), pos + n) := by
  rw [decodeVerbatim, if_neg (by omega), slice_ok (by omega) hn, ok_bind,
    slice_ok (by omega) hn, ok_bind, Nat.add_sub_cancel_left]
  rfl

theorem decodeBooleanItem_ok (hs : startPos ≤ pos) (hn : pos + n ≤ owned.length)
    (hl : n < 2 ^ 24) :
    decodeBooleanItem owned startPos pos n =
      .ok (.leaf (rawAt owned startPos (pos + n))
        (.boolean (.ofValues (((owned.drop pos).take n).map (· ≠ 0)))), pos + n) := by
  have hlen : ((owned.drop pos).take n).length = n := by simp; omega
  have hmap : (range n).mapM (fun i => do
      let b ← index owned (pos + i)
      Except.ok (decide (b ≠ 0))) = .ok (((owned.drop pos).take n).map (· ≠ 0)) := by
    rw [mapM_ok (g := fun i => decide ((owned.drop pos).getD i 0 ≠ 0))]
    · congr 1
      apply ext_getElem
      · simp; omega
      · intro i h₁ h₂
        simp at h₁
        simp [getElem?_eq_getElem (show pos + i < owned.length by omega)]
    · intro i hi
      have := mem_range.mp hi
      rw [index_ok (by omega), ok_bind]
      simp [getElem?_eq_getElem (show pos + i < owned.length by omega)]
  rw [decodeBooleanItem, if_neg (by omega)]
  split
  case isTrue h =>
    subst h
    have hd : owned.drop pos = owned[pos] :: owned.drop (pos + 1) :=
      drop_eq_getElem_cons (by omega)
    rw [index_ok (by omega), ok_bind, slice_ok (by omega) hn, ok_bind]
    simp only [hd, take_succ_cons, take_zero, map_cons, map_nil, Vec.ofValues,
      length_singleton, int32_eq (n := 1) (by decide), headD_cons, rawAt]
    rfl
  case isFalse h =>
    rw [hmap, ok_bind, slice_ok (by omega) hn, ok_bind, Vec.ofValues, length_map, hlen,
      int32_eq (by omega), if_neg (by omega)]
    rfl

theorem decodeNumeric_ok [Inhabited α] {kind : String} {read : Bytes → α}
    {mk : Nat → Vec α → Leaf} {w : Nat} (hw : 0 < w) (hs : startPos ≤ pos)
    (hn : pos + n ≤ owned.length) (hl : n < 2 ^ 24) (hd : w ∣ n) :
    decodeNumeric kind read mk owned startPos pos w n =
      .ok (.leaf (rawAt owned startPos (pos + n))
        (mk w (.ofValues ((fields w (n / w) ((owned.drop pos).take n)).map read))), pos + n) := by
  have ⟨k, hk⟩ := hd
  have hdiv : n / w = k := by rw [hk, Nat.mul_div_cancel_left _ hw]
  have hkn : k ≤ n := by rw [hk]; exact Nat.le_mul_of_pos_left k hw
  have hread : (range k).mapM (fun i => do
      let val ← slice owned (pos + i * w) (pos + i * w + w)
      Except.ok (read val)) = .ok ((fields w k ((owned.drop pos).take n)).map read) := by
    rw [fields_eq_range, map_map]
    apply mapM_ok
    intro i hi
    have hle : (i + 1) * w ≤ k * w := Nat.mul_le_mul_right w (mem_range.mp hi)
    rw [Nat.add_mul, Nat.one_mul, Nat.mul_comm k, ← hk] at hle
    rw [slice_ok (by omega) (by omega), ok_bind, Function.comp_apply, drop_take,
      take_take, drop_drop, Nat.add_sub_cancel_left, Nat.min_eq_left (by omega)]
  rw [decodeNumeric, if_neg (by simp [hk]), if_neg (by omega), hdiv]
  split
  case isTrue h =>
    subst h
    have hwn : w = n := by omega
    rw [slice_ok (by omega) (by omega), ok_bind, slice_ok (by omega) hn, ok_bind]
    simp only [fields, map_cons, map_nil, Vec.ofValues, length_singleton,
      int32_eq (n := 1) (by decide), headD_cons, rawAt, Nat.add_sub_cancel_left,
      take_take, hwn, Nat.min_self]
    rfl
  case isFalse h =>
    have hlen : ((fields w k ((owned.drop pos).take n)).map read).length = k := by
      simp [fields_eq_range]
    rw [hread, ok_bind, slice_ok (by omega) hn, ok_bind, Vec.ofValues, hlen,
      int32_eq (by omega), if_neg (by omega)]
    rfl

theorem decodeLocalizedStrItem_ok (hs : startPos ≤ pos) (hn : pos + n ≤ owned.length)
    (hl : leafOf .localizedStr ((owned.drop pos).take n) = some l) :
    decodeLocalizedStrItem owned startPos pos n =
      .ok (.leaf (rawAt owned startPos (pos + n)) l, pos + n) := by
  have hlen : ((owned.drop pos).take n).length = n := by simp; omega
  unfold decodeLocalizedStrItem
  split
  case isTrue hz =>
    subst hz
    rw [slice_ok hs hn, ok_bind]
    cases hl
    rfl
  case isFalse hz =>
    match he : (owned.drop pos).take n with
    | [] => simp [he] at hlen; omega
    | [_] => simp [he, leafOf] at hl
    | hi :: lo :: s =>
      simp only [he, leafOf, Option.some.injEq] at hl
      simp only [he, length_cons] at hlen
      have hd : owned.drop pos = hi :: lo :: (s ++ owned.drop (pos + n)) := by
        rw [← take_append_drop n (owned.drop pos), he, drop_drop]
        rfl
      have hd₁ : owned.drop (pos + 1) = lo :: (s ++ owned.drop (pos + n)) := by
        rw [← drop_drop, hd]
        rfl
      have hd₂ : (owned.drop (pos + 2)).take (pos + n - (pos + 2)) = s := by
        rw [← drop_drop, hd, show pos + n - (pos + 2) = s.length by omega]
        simp
      rw [if_neg (by omega), if_neg (by omega), index_of_drop hd, ok_bind, index_of_drop hd₁,
        ok_bind, slice_ok (by omega) hn, ok_bind, slice_ok (by omega) hn, ok_bind, hd₂, ← hl]
      rfl

theorem decodeLeaf_complete (hs : startPos ≤ pos) (hn : pos + n ≤ owned.length) (hn' : n < 2 ^ 24)
    (hl : leafOf fc ((owned.drop pos).take n) = some l) :
    decodeLeaf fc owned startPos pos n =
      .ok (.leaf (rawAt owned startPos (pos + n)) l, pos + n) := by
  have hlen : ((owned.drop pos).take n).length = n := by simp; omega
  have hnum {α : Type} [Inhabited α] {kind : String} {read : Bytes → α} {mk : Nat → Vec α → Leaf}
      {w : Nat} (hw : 0 < w) (h : numericLeaf mk read w ((owned.drop pos).take n) = some l) :
      decodeNumeric kind read mk owned startPos pos w n =
        .ok (.leaf (rawAt owned startPos (pos + n)) l, pos + n) := by
    unfold numericLeaf at h
    split at h
    case isFalse => cases h
    case isTrue hd =>
      rw [hlen] at h hd
      rw [decodeNumeric_ok hw hs hn hn' hd]
      cases h
      rfl
  cases fc
  case list => cases hl
  case ascii => cases hl; exact decodeVerbatim_ok hs hn
  case jis8 => cases hl; exact decodeVerbatim_ok hs hn
  case binary => cases hl; exact decodeVerbatim_ok hs hn
  case boolean => cases hl; exact decodeBooleanItem_ok hs hn hn'
  case localizedStr => exact decodeLocalizedStrItem_ok hs hn hl
  all_goals exact hnum (by decide) hl

theorem decodeLeaf_error (startPos : Nat) (hfc : fc ≠ .list) (hp : pos ≤ owned.length)
    (h : owned.length < pos + n ∨ leafOf fc ((owned.drop pos).take n) = none) :
    ∃ text, decodeLeaf fc owned startPos pos n = .error (.err text) := by
  have hlen (hn : ¬owned.length < pos + n) : ((owned.drop pos).take n).length = n := by simp; omega
  have hverb {what : String} {mk : Bytes → Leaf} (h : owned.length < pos + n) :
      ∃ text, decodeVerbatim what mk owned startPos pos n = .error (.err text) := by
    rw [decodeVerbatim, if_pos (by omega)]
    exact ⟨_, rfl⟩
  have hnum {α : Type} [Inhabited α] {kind : String} {read : Bytes → α} {mk : Nat → Vec α → Leaf}
      {w : Nat} (h : owned.length < pos + n ∨
        numericLeaf mk read w ((owned.drop pos).take n) = none) :
      ∃ text, decodeNumeric kind read mk owned startPos pos w n = .error (.err text) := by
    unfold decodeNumeric
    split
    case isTrue => exact ⟨_, rfl⟩
    case isFalse hd =>
      split
      case isTrue => exact ⟨_, rfl⟩
      case isFalse hn =>
        have hw : w ∣ n := Nat.dvd_of_mod_eq_zero (not_not.mp hd)
        simp [numericLeaf, hlen hn, hw, hn] at h
  cases fc
  case list    => contradiction
  case ascii   => exact hverb (by simpa [leafOf] using h)
  case jis8    => exact hverb (by simpa [leafOf] using h)
  case binary  => exact hverb (by simpa [leafOf] using h)
  case boolean =>
    have h : owned.length < pos + n := by simpa [leafOf] using h
    refine ⟨_, if_pos ?_⟩
    omega
  case localizedStr =>
    simp only [decodeLeaf, decodeLocalizedStrItem]
    split
    case isTrue hz => subst hz; simp [leafOf] at h; omega
    case isFalse hz =>
      split
      case isTrue => exact ⟨_, rfl⟩
      case isFalse h₂ =>
        split
        case isTrue => exact ⟨_, rfl⟩
        case isFalse hn =>
          have hs : (leafOf .localizedStr ((owned.drop pos).take n)).isSome ↔ _ := leafOf_isSome_iff
          simp [h.resolve_left hn, hlen hn, FormatCode.width] at hs
          omega
  all_goals exact hnum h

theorem decodeLeaf_cases (hs : startPos ≤ pos) (hp : pos ≤ owned.length) (hfc : fc ≠ .list)
    (hn : n < 2 ^ 24) : (∃ text, decodeLeaf fc owned startPos pos n = .error (.err text)) ∨
      ∃ l, leafOf fc ((owned.drop pos).take n) = some l ∧ pos + n ≤ owned.length ∧
        decodeLeaf fc owned startPos pos n =
          .ok (.leaf (rawAt owned startPos (pos + n)) l, pos + n) := by
  by_cases hb : owned.length < pos + n ∨ leafOf fc ((owned.drop pos).take n) = none
  case pos => exact .inl (decodeLeaf_error startPos hfc hp hb)
  case neg =>
    push Not at hb
    have ⟨l, hl⟩ := Option.ne_none_iff_exists'.mp hb.2
    exact .inr ⟨l, hl, hb.1, decodeLeaf_complete hs hb.1 hn hl⟩

end Leaf

section Children

variable {dec : Nat → Except Fault (Item × Nat)} {P : Bytes → Item → Prop}

theorem decodeChildren_complete {cs : List (Bytes × Item)}
    (h : ∀ c ∈ cs, ∀ pos rest, owned.drop pos = c.1 ++ rest → dec pos = .ok (c.2, pos + c.1.length))
    (hd : owned.drop pos = (cs.map Prod.fst).flatten ++ rest) :
    decodeChildren dec cs.length pos =
      .ok (cs.map Prod.snd, pos + (cs.map Prod.fst).flatten.length) := by
  induction cs generalizing pos
  case nil => rfl
  case cons c cs hi =>
    rw [map_cons, flatten_cons, append_assoc] at hd
    have hd' : owned.drop (pos + c.1.length) = (cs.map Prod.fst).flatten ++ rest := by
      rw [← drop_drop, hd, drop_left]
    rw [length_cons, decodeChildren, h c (by simp) _ _ hd, ok_bind]
    simp only
    rw [hi (fun c hc => h c (by simp [hc])) hd', ok_bind, map_cons, map_cons,
      flatten_cons, length_append, Nat.add_assoc]

theorem decodeChildren_sound (owned : Bytes) {xs : List Item} {pos' : Nat}
    (hdec : ∀ pos x pos', dec pos = .ok (x, pos') →
      ∃ bs, P bs x ∧ owned.drop pos = bs ++ owned.drop pos' ∧ pos' = pos + bs.length)
    (h : decodeChildren dec n pos = .ok (xs, pos')) :
    ∃ cs : List (Bytes × Item), cs.length = n ∧ cs.map Prod.snd = xs ∧ (∀ c ∈ cs, P c.1 c.2) ∧
      owned.drop pos = (cs.map Prod.fst).flatten ++ owned.drop pos' ∧
      pos' = pos + (cs.map Prod.fst).flatten.length := by
  induction n generalizing pos xs
  case zero =>
    cases h
    exact ⟨[], rfl, rfl, by simp, rfl, rfl⟩
  case succ n hi =>
    rw [decodeChildren] at h
    match hx : dec pos with
    | .error e => rw [hx, error_bind] at h; cases h
    | .ok (x, pos₁) =>
      rw [hx, ok_bind] at h
      simp only at h
      match hxs : decodeChildren dec n pos₁ with
      | .error e => rw [hxs, error_bind] at h; cases h
      | .ok (xs, pos₂) =>
        rw [hxs, ok_bind] at h
        cases h
        obtain ⟨bs, hp, hd, rfl⟩ := hdec pos x pos₁ hx
        obtain ⟨cs, rfl, rfl, hcs, hds, rfl⟩ := hi hxs
        refine ⟨(bs, x) :: cs, rfl, rfl, by simpa [hp] using hcs, ?_, ?_⟩
        · rw [hd, hds, map_cons, flatten_cons, append_assoc]
        · simp only [map_cons, flatten_cons, length_append]
          omega

theorem decodeChildren_safe (hdec : ∀ pos, dec pos ≠ .error .outOfRange) :
    decodeChildren dec n pos ≠ .error .outOfRange := by
  induction n generalizing pos
  case zero => simp [decodeChildren]
  case succ n hi =>
    rw [decodeChildren]
    match hx : dec pos with
    | .error e => rw [error_bind]; rintro ⟨⟩; exact hdec pos hx
    | .ok (x, pos₁) =>
      rw [ok_bind]
      simp only
      match hxs : decodeChildren dec n pos₁ with
      | .error e => rw [error_bind]; rintro ⟨⟩; exact hi hxs
      | .ok r    => rw [ok_bind]; simp

end Children

section Item

variable {room : Nat} {bs rest : Bytes} {x : Item} {pos' : Nat} {data : Bytes}

theorem take_of_drop_eq (h : owned.drop pos = bs ++ rest) :
    (owned.drop pos).take (pos + bs.length - pos) = bs := by
  rw [h, Nat.add_sub_cancel_left, take_left]

theorem add_length_le (hbs : bs ≠ []) (h : owned.drop pos = bs ++ rest) :
    pos + bs.length ≤ owned.length := by
  have hl := congrArg length h
  have := length_pos_of_ne_nil hbs
  simp only [length_drop, length_append] at hl
  omega

theorem decodeItem_complete (h : Denotes room bs x) (hd : owned.drop pos = bs ++ rest) :
    decodeItem owned room pos = .ok (x, pos + bs.length) := by
  induction h generalizing pos rest
  case leaf room fc hd' l payload hh hl =>
    have hne : fc ≠ .list := (leafOf_isSome_iff.mp (Option.isSome_of_eq_some hl)).1
    have hle := add_length_le (append_ne_nil_of_left_ne_nil hh.ne_nil _) hd
    have ht := take_of_drop_eq hd
    rw [append_assoc] at hd
    have hp : (owned.drop (pos + hd'.length)).take payload.length = payload := by
      rw [← drop_drop, hd, drop_left, take_left]
    rw [length_append] at hle ht ⊢
    rw [decodeItem, decodeHeader_complete hh hd, ok_bind]
    simp only [FormatCode.ofCode_code]
    rw [if_pos hne, decodeLeaf_complete (by omega) (by omega) hh.length_lt (hp.symm ▸ hl), rawAt,
      Nat.add_assoc, ht]
  case list room hd' cs hh hcs hi =>
    have hle := add_length_le (append_ne_nil_of_left_ne_nil hh.ne_nil _) hd
    have ht := take_of_drop_eq hd
    have hbytes := Denotes.raw_bytes hcs
    rw [append_assoc] at hd
    have hp : owned.drop (pos + hd'.length) = (cs.map Prod.fst).flatten ++ rest := by
      rw [← drop_drop, hd, drop_left]
    rw [length_append] at hle ht ⊢
    rw [decodeItem, decodeHeader_complete hh hd, ok_bind]
    simp only [FormatCode.ofCode_code, ne_eq, not_true_eq_false, if_false]
    rw [if_neg (by omega), decodeChildren_complete (fun c hc _ _ hd => hi c hc hd) hp, ok_bind]
    simp only
    rw [slice_ok (by omega) (by omega), ok_bind, Nat.add_assoc, ht]

theorem decodeItem_ok_cases (h : decodeItem owned room pos = .ok (x, pos')) :
    ∃ hdr fc, decodeHeader owned pos = .ok hdr ∧ FormatCode.ofCode hdr.code = some fc ∧
      ((fc ≠ .list ∧ decodeLeaf fc owned pos hdr.pos hdr.length = .ok (x, pos')) ∨
       (fc = .list ∧ ∃ r children raw, room = r + 1 ∧
          decodeChildren (decodeItem owned r) hdr.length hdr.pos = .ok (children, pos') ∧
          slice owned pos pos' = .ok raw ∧ x = .list { raw := raw } true children)) := by
  rw [decodeItem] at h
  match hh : decodeHeader owned pos with
  | .error e => rw [hh, error_bind] at h; cases h
  | .ok hdr  =>
    rw [hh, ok_bind] at h
    refine ⟨hdr, ?_⟩
    match hc : FormatCode.ofCode hdr.code with
    | none    => simp only [hc] at h; cases h
    | some fc =>
      simp only [hc] at h
      refine ⟨fc, rfl, rfl, ?_⟩
      split at h
      case isTrue hne => exact .inl ⟨hne, h⟩
      case isFalse hne =>
        refine .inr ⟨not_not.mp hne, ?_⟩
        match room with
        | 0 => cases h
        | r + 1 =>
          simp only at h
          split at h
          case isTrue => cases h
          case isFalse =>
            match hcs : decodeChildren (decodeItem owned r) hdr.length hdr.pos with
            | .error e => rw [hcs, error_bind] at h; cases h
            | .ok (children, pos₁) =>
              rw [hcs, ok_bind] at h
              simp only at h
              match hr : slice owned pos pos₁ with
              | .error e => rw [hr, error_bind] at h; cases h
              | .ok raw  =>
                rw [hr, ok_bind] at h
                cases h
                exact ⟨r, children, raw, rfl, hcs, hr, rfl⟩

theorem decodeItem_sound (h : decodeItem owned room pos = .ok (x, pos')) :
    ∃ bs, Denotes room bs x ∧ owned.drop pos = bs ++ owned.drop pos' ∧ pos' = pos + bs.length := by
  induction room using Nat.strongRecOn generalizing pos pos' x
  case ind room hi =>
    obtain ⟨hdr, fc, hh, hc, hcase⟩ := decodeItem_ok_cases h
    obtain ⟨hd, hhd, hdrop, hpos, hle⟩ := decodeHeader_sound hh hc
    rcases hcase with ⟨hne, hleaf⟩ | ⟨rfl, r, children, raw, rfl, hcs, hraw, rfl⟩
    case inl =>
      have hs : pos ≤ hdr.pos := by omega
      obtain ⟨_, he⟩ | ⟨l, hl, hle', he⟩ := decodeLeaf_cases hs hle hne hhd.length_lt <;>
        cases hleaf.symm.trans he
      have hlen : ((owned.drop hdr.pos).take hdr.length).length = hdr.length := by simp; omega
      have hsplit : owned.drop pos =
          (hd ++ (owned.drop hdr.pos).take hdr.length) ++ owned.drop (hdr.pos + hdr.length) := by
        rw [hdrop, append_assoc, ← drop_drop, take_append_drop]
      have hend : hdr.pos + hdr.length =
          pos + (hd ++ (owned.drop hdr.pos).take hdr.length).length := by
        rw [length_append, hlen]
        omega
      refine ⟨_, ?_, hsplit, hend⟩
      rw [rawAt, hend, take_of_drop_eq hsplit]
      exact .leaf (hlen.symm ▸ hhd) hl
    case inr =>
      obtain ⟨cs, hn, rfl, hden, hdrop', hpos'⟩ :=
        decodeChildren_sound owned (fun _ _ _ => hi r (by omega)) hcs
      have hsplit : owned.drop pos = (hd ++ (cs.map Prod.fst).flatten) ++ owned.drop pos' := by
        rw [hdrop, hdrop', append_assoc]
      have hend : pos' = pos + (hd ++ (cs.map Prod.fst).flatten).length := by
        rw [length_append]
        omega
      have hd' : Denotes (r + 1) _ _ := .list (hn.symm ▸ hhd) hden
      have hle' := add_length_le hd'.ne_nil hsplit
      rw [slice_ok (by omega) (by omega), hend, take_of_drop_eq hsplit] at hraw
      cases hraw
      exact ⟨_, hd', hsplit, hend⟩

theorem decodeItem_safe : decodeItem owned room pos ≠ .error .outOfRange := by
  induction room using Nat.strongRecOn generalizing pos
  case ind room hi =>
    rw [decodeItem]
    match hh : decodeHeader owned pos with
    | .error e => rw [error_bind]; rintro ⟨⟩; exact decodeHeader_safe hh
    | .ok hdr  =>
      rw [ok_bind]
      match hc : FormatCode.ofCode hdr.code with
      | none    => simp
      | some fc =>
        obtain ⟨hd, hhd, hdrop, hpos, hle⟩ := decodeHeader_sound hh hc
        simp only
        split
        case isTrue hne =>
          have hs : pos ≤ hdr.pos := by omega
          obtain ⟨_, he⟩ | ⟨_, _, _, he⟩ := decodeLeaf_cases hs hle hne hhd.length_lt <;> simp [he]
        case isFalse =>
          match room with
          | 0 => simp
          | r + 1 =>
            simp only
            split
            case isTrue => simp
            case isFalse =>
              match hcs : decodeChildren (decodeItem owned r) hdr.length hdr.pos with
              | .error e =>
                rw [error_bind]
                rintro ⟨⟩
                exact decodeChildren_safe (fun _ => hi r (by omega)) hcs
              | .ok (children, pos') =>
                obtain ⟨cs, -, -, -, hdrop', hpos'⟩ := decodeChildren_sound owned
                  (fun _ _ _ => decodeItem_sound) hcs
                have hne : hd ++ (cs.map Prod.fst).flatten ≠ [] :=
                  append_ne_nil_of_left_ne_nil hhd.ne_nil _
                have hsplit : owned.drop pos =
                    (hd ++ (cs.map Prod.fst).flatten) ++ owned.drop pos' := by
                  rw [hdrop, hdrop', append_assoc]
                have hlen := add_length_le hne hsplit
                rw [length_append] at hlen
                simp only [ok_bind]
                rw [slice_ok (by omega) (by omega), ok_bind]
                simp

theorem decodeFirstItem_sound (h : decodeFirstItem data = .ok (x, n)) (hx : x.isEmpty = false) :
    ∃ bs rest, data = bs ++ rest ∧ Denotes maxListDepth bs x ∧ rest.length = n := by
  unfold decodeFirstItem at h
  split at h
  case isTrue => cases h; cases hx
  case isFalse =>
    match hd : decodeItem data maxListDepth 0 with
    | .error e    => rw [hd] at h; cases h
    | .ok (y, p') =>
      rw [hd, ok_bind] at h
      cases h
      obtain ⟨bs, hden, hsplit, rfl⟩ := decodeItem_sound hd
      exact ⟨bs, _, hsplit, hden, by simp⟩

theorem decodeFirstItem_complete (h : Denotes maxListDepth bs x)
    (hd : data = bs ++ rest) : decodeFirstItem data = .ok (x, rest.length) := by
  have hlen := congrArg length hd
  rw [length_append] at hlen
  have := h.two_le
  have hd : data.drop 0 = bs ++ rest := hd
  rw [decodeFirstItem, if_neg (by omega), decodeItem_complete h hd, ok_bind]
  simp only [hlen, Nat.zero_add, Nat.add_sub_cancel_left]

theorem decodeFirstItem_safe : decodeFirstItem data ≠ .error .outOfRange := by
  unfold decodeFirstItem
  split
  case isTrue => simp
  case isFalse =>
    match hd : decodeItem data maxListDepth 0 with
    | .error e => rw [error_bind]; rintro ⟨⟩; exact decodeItem_safe hd
    | .ok r    => rw [ok_bind]; simp

theorem decode_eq_ok :
    decode data = .ok x ↔ ∃ n, decodeFirstItem data = .ok (x, n) := by
  unfold decode
  match decodeFirstItem data with
  | .error e    => simp [error_bind]
  | .ok (y, n') => simp [ok_bind]

theorem children_fit {hdr : ItemHeader} (hw : Wire room bs) (hd : owned.drop pos = bs ++ rest)
    (hh : decodeHeader owned pos = .ok hdr) (hc : FormatCode.ofCode hdr.code = some .list) :
    hdr.length * 2 ≤ owned.length - hdr.pos := by
  have ⟨x, hx⟩ := Denotes.of_wire hw
  have hok := decodeItem_complete hx hd
  rw [decodeItem, hh, ok_bind] at hok
  simp only [hc, ne_eq, not_true_eq_false, if_false] at hok
  match room with
  | 0 => cases hok
  | r + 1 =>
    simp only at hok
    split at hok
    case isTrue => cases hok
    case isFalse h => omega

end Item

-- The decoder accepts exactly the grammar: it returns an item if and only if some prefix of the
-- data is in it, and reports the rest as trailing. No read is out of range, and the check of a
-- list's child count rejects no list of the grammar.
theorem decode_accepts_grammar (data : Bytes) :
    ((∃ x, decode data = .ok x ∧ x.isEmpty = false) ↔
      ∃ bs rest, data = bs ++ rest ∧ Wire maxListDepth bs) ∧
    (∀ x n, decodeFirstItem data = .ok (x, n) → x.isEmpty = false →
      ∃ bs rest, data = bs ++ rest ∧ Wire maxListDepth bs ∧ x.toBytes = bs ∧ n = rest.length ∧
        ∀ bs' rest', data = bs' ++ rest' → Wire maxListDepth bs' → bs' = bs) ∧
    decodeFirstItem data ≠ .error .outOfRange ∧
    (∀ room pos bs rest hdr, Wire room bs → data.drop pos = bs ++ rest →
      decodeHeader data pos = .ok hdr → FormatCode.ofCode hdr.code = some .list →
      ¬hdr.length * 2 > data.length - hdr.pos) := by
  refine ⟨⟨?_, ?_⟩, ?_, decodeFirstItem_safe, ?_⟩
  · intro ⟨x, hx, hn⟩
    have ⟨n, hx⟩ := decode_eq_ok.mp hx
    have ⟨bs, rest, hs, hd, _⟩ := decodeFirstItem_sound hx hn
    exact ⟨bs, rest, hs, hd.wire⟩
  · intro ⟨bs, rest, hs, hw⟩
    have ⟨x, hx⟩ := Denotes.of_wire hw
    exact ⟨x, decode_eq_ok.mpr ⟨_, decodeFirstItem_complete hx hs⟩, hx.isEmpty_eq⟩
  · intro x n hx hn
    have ⟨bs, rest, hs, hd, hl⟩ := decodeFirstItem_sound hx hn
    refine ⟨bs, rest, hs, hd.wire, hd.toBytes_eq, hl.symm, ?_⟩
    intro bs' rest' hs' hw
    have ⟨y, hy⟩ := Denotes.of_wire hw
    have he := decodeFirstItem_complete hy hs'
    rw [hx] at he
    cases he
    rw [← hy.toBytes_eq, hd.toBytes_eq]
  · intro room pos bs rest hdr hw hd hh hc
    exact not_lt.mpr <| children_fit hw hd hh hc

end Secs2
