import GoSecs.Secs2.Equal
import GoSecs.Secs2.Theorems.Valid

open BigEndian Ieee754 Strconv List

namespace Secs2

section Headers

variable {fc : FormatCode} {n : Nat} {dst : Bytes}

theorem nat_lengthBytes (h : n ≤ maxByteSize) : nat (lengthBytes n) = n := by
  have hn : nat (intBytes 3 n) = n := by
    rw [intBytes, nat_bytes, ← Int.natCast_emod, Int.toNat_natCast, Nat.mod_mod,
      Nat.mod_eq_of_lt (by unfold maxByteSize at h; omega)]
  rw [← hn]
  unfold lengthBytes
  split
  all_goals simp_all

theorem length_lengthBytes (v : Int) :
    1 ≤ (lengthBytes v).length ∧ (lengthBytes v).length ≤ 3 := by
  unfold lengthBytes
  split
  all_goals simp_all

theorem header_lengthBytes (fc : FormatCode) (h : n ≤ maxByteSize) :
    Header fc n (formatByte fc (lengthBytes n).length :: lengthBytes n) := by
  have ⟨h₁, h₂⟩ := length_lengthBytes n
  have hh : Header fc _ _ := .mk h₁ h₂
  rwa [nat_lengthBytes h] at hh

theorem appendHeaderBytesFC_eq (dst : Bytes) (fc : FormatCode) (v : Int) :
    (appendHeaderBytesFC dst fc v).1 = dst ++ (appendHeaderBytesFC [] fc v).1 := by
  unfold appendHeaderBytesFC
  split <;> simp

theorem appendHeaderBytesFC_of_le (h : n ≤ maxByteSize) :
    (appendHeaderBytesFC dst fc n).1 =
      dst ++ formatByte fc (lengthBytes n).length :: lengthBytes n := by
  rw [appendHeaderBytesFC, if_neg (by omega)]

end Headers

variable {fc : FormatCode}

section Encoding

variable {b : Base} {c : Bool} {l : Leaf} {x : Item} {vs : List Item} {dst : Bytes}

theorem Leaf.appendTo_eq : l.appendTo b dst = dst ++ l.appendTo b [] := by
  unfold Leaf.appendTo
  split
  case isTrue => simp
  case isFalse =>
    split
    case isTrue => simp
    case isFalse =>
      split
      case h_1 => simp
      case h_2 => rw [appendHeaderBytesFC_eq, append_assoc]

theorem Item.appendAll_eq (h : ∀ v ∈ vs, ∀ dst, v.appendTo dst = dst ++ v.toBytes) :
    appendTo.appendAll vs dst = dst ++ (vs.map toBytes).flatten := by
  induction vs generalizing dst
  case nil => simp [appendTo.appendAll]
  case cons v vs hi =>
    rw [appendTo.appendAll, h v (by simp), hi fun v hv => h v (by simp [hv])]
    simp

theorem Item.appendTo_eq (x : Item) : ∀ dst, x.appendTo dst = dst ++ x.toBytes := by
  induction x using Item.induct
  case empty => simp [appendTo, toBytes]
  case leaf => simp only [appendTo, toBytes]; exact fun _ => Leaf.appendTo_eq
  case list b c vs hi =>
    intro dst
    simp only [appendTo, toBytes]
    split
    case isTrue => simp
    case isFalse =>
      split
      case isTrue => simp
      case isFalse => rw [appendAll_eq hi, appendAll_eq hi, appendHeaderBytesFC_eq, append_assoc]

theorem Item.toBytes_leaf (hf : l.formatCode = some fc)
    (hl : l.lengthField = l.payload.length) (hm : l.payload.length ≤ maxByteSize) :
    (leaf {} l).toBytes =
      (formatByte fc (lengthBytes l.payload.length).length :: lengthBytes l.payload.length) ++
        l.payload := by
  simp only [toBytes, appendTo, Leaf.appendTo, hf, hl, appendHeaderBytesFC_of_le hm]
  simp

theorem Item.toBytes_list (he : (list {} c vs).error = none) (hl : vs.length ≤ maxByteSize) :
    (list {} c vs).toBytes =
      (formatByte .list (lengthBytes vs.length).length :: lengthBytes vs.length) ++
        (vs.map toBytes).flatten := by
  rw [toBytes, appendTo, if_neg (by simp [he]), if_neg (by simp),
    appendAll_eq (fun v _ => v.appendTo_eq), appendHeaderBytesFC_of_le hl, nil_append]

end Encoding

section Vectors

variable {α : Type} [Inhabited α] {vs : List α}

theorem size_ofValues (h : vs.length < 2 ^ 31) : (Vec.ofValues vs).size = vs.length := by
  have hi := int32_eq h
  unfold Vec.ofValues
  split
  case isTrue h₁  => simp only; omega
  case isFalse h₁ => simp only; exact hi

theorem toList_ofValues (h : vs.length < 2 ^ 31) : (Vec.ofValues vs).toList = vs := by
  rcases vs with _ | ⟨a, _ | ⟨b, s⟩⟩
  case nil => simp [Vec.ofValues, Vec.toList, int32]
  case cons.nil => rw [ofValues_singleton]; rfl
  case cons.cons =>
    have hi := int32_eq h
    have hl : (a :: b :: s).length = s.length + 2 := rfl
    rw [ofValues_of_ne (by rw [hi]; omega), Vec.toList]
    simp only [hi]
    rw [if_neg (by omega), if_neg (by omega)]

omit [Inhabited α] in
theorem Vec.equal_self [DecidableEq α] (v : Vec α) : v.equal v := by
  unfold Vec.equal
  split <;> simp

end Vectors

section Leaves

variable {l : Leaf} {w : Nat} {α : Type} {p : Bytes}

theorem readFloat_floatBytes (h : w = 4 ∨ w = 8) (v : F64) :
    wireBits w (readFloat w (floatBytes w v)) = wireBits w v := by
  rcases h with rfl | rfl
  case inl =>
    have hn : nat (bytes 4 (narrow v).toNat) = (narrow v).toNat :=
      nat_bytes_of_lt (narrow v).isLt
    simp [wireBits, readFloat, floatBytes, hn, narrow_widen_narrow]
  case inr =>
    have hn : nat (bytes 8 v.toNat) = v.toNat := nat_bytes_of_lt v.isLt
    simp [wireBits, readFloat, floatBytes, hn]

theorem length_floatBytes (h : w = 4 ∨ w = 8) (v : F64) : (floatBytes w v).length = w := by
  rcases h with rfl | rfl <;> simp [floatBytes]

theorem numericLeaf_flatMap [Inhabited α] {mk : Nat → Vec α → Leaf} {read : Bytes → α}
    {enc : α → Bytes} {vs : List α} (hw : 0 < w) (h : ∀ v ∈ vs, (enc v).length = w) :
    numericLeaf mk read w (vs.flatMap enc) = some (mk w (.ofValues (vs.map fun v => read (enc v)))) := by
  have hl := length_flatMap h
  rw [numericLeaf, if_pos (hl ▸ Dvd.intro_left _ rfl), hl, Nat.mul_div_cancel _ hw,
    fields_flatMap h, map_map]
  rfl

theorem lt_two_pow_of_le {n : Nat} (hw : 0 < w) (h : n * w ≤ maxByteSize) : n < 2 ^ 31 := by
  have : n ≤ n * w := Nat.le_mul_of_pos_right n hw
  unfold maxByteSize at h
  omega

theorem Leaf.equal_self (l : Leaf) : l.equal l := by
  cases l <;> simp [Leaf.equal, Vec.equal_self]

theorem leafOf_int (h : intFormatCode w = some fc) :
    leafOf fc p = numericLeaf .int int w p ∧ 0 < w := by
  unfold intFormatCode at h
  split at h <;> cases h <;> exact ⟨rfl, by decide⟩

theorem leafOf_uint (h : uintFormatCode w = some fc) :
    leafOf fc p = numericLeaf .uint nat w p ∧ 0 < w := by
  unfold uintFormatCode at h
  split at h <;> cases h <;> exact ⟨rfl, by decide⟩

theorem leafOf_float (h : floatFormatCode w = some fc) :
    leafOf fc p = numericLeaf .float (readFloat w) w p ∧ (w = 4 ∨ w = 8) := by
  unfold floatFormatCode at h
  split at h <;> cases h <;> exact ⟨rfl, by decide⟩

-- The payload means a leaf that `Equal` takes for the same one.
def Leaf.Readable (l : Leaf) : Prop :=
  ∃ fc l', l.formatCode = some fc ∧ leafOf fc l.payload = some l' ∧
    l.lengthField = l.payload.length ∧ l.payload.length ≤ maxByteSize ∧
    l.equal l' ∧ l'.type = l.type ∧ l'.size = l.size

-- For all but F4 values, the payload means the leaf itself.
theorem Leaf.Readable.of_self (hf : l.formatCode = some fc)
    (hp : leafOf fc l.payload = some l) (hl : l.lengthField = l.payload.length)
    (hm : l.payload.length ≤ maxByteSize) : l.Readable :=
  ⟨fc, l, hf, hp, hl, hm, l.equal_self, rfl, rfl⟩

theorem readable_localizedStr {lsh : UInt16} {s : Bytes} {noLSH : Bool}
    (h : (Leaf.localizedStr lsh s noLSH).Valid) : (Leaf.localizedStr lsh s noLSH).Readable := by
  cases noLSH
  case true =>
    obtain ⟨rfl, rfl⟩ := h
    exact .of_self rfl rfl rfl (Nat.zero_le _)
  case false =>
    have hn : nat (bytes 2 lsh.toNat) = lsh.toNat := nat_bytes_of_lt lsh.toNat_lt
    refine .of_self rfl ?_ (by simp [Leaf.lengthField, Leaf.payload]; omega)
      (by simp [Leaf.Valid, Leaf.payload] at h ⊢; omega)
    simp only [Leaf.payload, bytes, Bool.false_eq_true, if_false, cons_append, nil_append,
      leafOf] at hn ⊢
    rw [hn, UInt16.ofNat_toNat]

theorem readable_boolean {v : Vec Bool} (h : (Leaf.boolean v).Valid) : (Leaf.boolean v).Readable := by
  obtain ⟨vs, rfl, hl⟩ := h
  have hs : vs.length < 2 ^ 31 := lt_two_pow_of_le (w := 1) (by decide) (by omega)
  have hp : (Leaf.boolean (.ofValues vs)).payload = vs.map boolByte := by
    rw [Leaf.payload, toList_ofValues hs]
  have hr : (vs.map boolByte).map (fun b => decide (b ≠ 0)) = vs := by
    rw [map_map]
    apply map_id''
    intro b
    cases b <;> rfl
  refine .of_self rfl ?_ ?_ ?_
  · rw [hp, leafOf, hr]
  · rw [hp, lengthField_boolean, size_ofValues hs, length_map]
  · rwa [hp, length_map]

theorem readable_numeric [Inhabited α] {mk : Nat → Vec α → Leaf} {read : Bytes → α}
    {enc : α → Bytes} {vs : List α} (hf : (mk w (.ofValues vs)).formatCode = some fc)
    (hleaf : leafOf fc (vs.flatMap enc) = numericLeaf mk read w (vs.flatMap enc)) (hw : 0 < w)
    (henc : ∀ v ∈ vs, (enc v).length = w) (hl : vs.length * w ≤ maxByteSize)
    (hp : ∀ v, (mk w v).payload = v.toList.flatMap enc) (hz : ∀ v, (mk w v).lengthField = v.size * w)
    (he : (mk w (.ofValues vs)).equal (mk w (.ofValues (vs.map fun v => read (enc v)))))
    (ht : ∀ v v', (mk w v).type = (mk w v').type) (hs : ∀ v, (mk w v).size = v.size) :
    (mk w (.ofValues vs)).Readable := by
  have hn := lt_two_pow_of_le hw hl
  have hn' : (vs.map fun v => read (enc v)).length < 2 ^ 31 := by rwa [length_map]
  rw [Leaf.Readable, hp, hz, hs, toList_ofValues hn, size_ofValues hn, length_flatMap henc]
  refine ⟨fc, _, hf, hleaf.trans (numericLeaf_flatMap hw henc), by push_cast; rfl, hl, he, ht .., ?_⟩
  rw [hs, size_ofValues hn', length_map]

theorem map_read {read : Bytes → α} {enc : α → Bytes} {vs : List α}
    (h : ∀ v ∈ vs, read (enc v) = v) : vs.map (fun v => read (enc v)) = vs :=
  (map_congr_left h).trans (map_id' vs)

theorem readable_int {v : Vec Int} (h : (Leaf.int w v).Valid) : (Leaf.int w v).Readable := by
  obtain ⟨hc, vs, rfl, hl, hr⟩ := h
  have ⟨fc, hf⟩ := Option.isSome_iff_exists.mp hc
  have ⟨hleaf, hw⟩ := leafOf_int hf (p := vs.flatMap (intBytes w))
  refine readable_numeric hf hleaf hw (fun _ _ => length_intBytes ..) hl (fun _ => rfl)
    (fun _ => rfl) ?_ (fun _ _ => rfl) fun _ => rfl
  rw [map_read fun v hv => int_intBytes (hr v hv)]
  exact Leaf.equal_self _

theorem readable_uint {v : Vec Nat} (h : (Leaf.uint w v).Valid) : (Leaf.uint w v).Readable := by
  obtain ⟨hc, vs, rfl, hl, hr⟩ := h
  have ⟨fc, hf⟩ := Option.isSome_iff_exists.mp hc
  have ⟨hleaf, hw⟩ := leafOf_uint hf (p := vs.flatMap (bytes w))
  refine readable_numeric hf hleaf hw (fun _ _ => length_bytes ..) hl (fun _ => rfl)
    (fun _ => rfl) ?_ (fun _ _ => rfl) fun _ => rfl
  rw [map_read fun v hv => nat_bytes_of_lt (hr v hv)]
  exact Leaf.equal_self _

theorem readable_float {v : Vec F64} (h : (Leaf.float w v).Valid) : (Leaf.float w v).Readable := by
  obtain ⟨hc, vs, rfl, hl⟩ := h
  have ⟨fc, hf⟩ := Option.isSome_iff_exists.mp hc
  have ⟨hleaf, hw⟩ := leafOf_float hf (p := vs.flatMap (floatBytes w))
  have hs := lt_two_pow_of_le (by omega) hl
  refine readable_numeric hf hleaf (by omega) (fun _ _ => length_floatBytes hw _) hl (fun _ => rfl)
    (fun _ => rfl) ?_ (fun _ _ => rfl) fun _ => rfl
  simp [Leaf.equal, toList_ofValues hs, toList_ofValues (length_map _ ▸ hs),
    readFloat_floatBytes hw]

theorem Leaf.Valid.readable (h : l.Valid) : l.Readable := by
  cases l
  case ascii => exact .of_self rfl rfl rfl h
  case jis8 => exact .of_self rfl rfl rfl h
  case binary => exact .of_self rfl rfl rfl h
  case localizedStr => exact readable_localizedStr h
  case boolean => exact readable_boolean h
  case int => exact readable_int h
  case uint => exact readable_uint h
  case float => exact readable_float h

end Leaves

section Items

variable {room : Nat} {bs : Bytes} {x y : Item} {vs : List Item}

theorem Item.comparable_of (hx : x.error = none) (hy : y.error = none) (ht : x.type = y.type)
    (hs : x.size = y.size) : x.comparable y := by
  simp [Item.comparable, hx, hy, ht, hs]

theorem Item.depth_le_depths {v : Item} (h : v ∈ vs) : v.depth ≤ depth.depths vs := by
  induction vs
  case nil => cases h
  case cons w vs hi =>
    rw [depth.depths]
    cases h
    case head   => exact Nat.le_max_left ..
    case tail h => exact (hi h).trans (Nat.le_max_right ..)

theorem Denotes.tight (h : Denotes room bs x) : Denotes x.depth bs x := by
  induction h
  case leaf hh hl => exact .leaf hh hl
  case list hh _ hi =>
    refine .list hh fun c hc => (hi c hc).mono ?_
    exact Item.depth_le_depths (mem_map_of_mem hc)

theorem Item.equals_self (h : ∀ v ∈ vs, v.equal v) : equal.equals vs vs := by
  induction vs
  case nil => rfl
  case cons v vs hi => simp [equal.equals, h v, hi fun w hw => h w (by simp [hw])]

theorem Denotes.equal_self (h : Denotes room bs x) : x.equal x := by
  have he := h.error_eq
  have hc := Item.comparable_of he he rfl rfl
  induction h
  case leaf => simp [Item.equal, hc, Leaf.equal_self]
  case list children _ hcs hi =>
    have hcs' : ∀ v ∈ children.map Prod.snd, v.equal v := by
      intro v hv
      obtain ⟨c, hc, rfl⟩ := mem_map.mp hv
      have he := (hcs c hc).error_eq
      exact hi c hc he (Item.comparable_of he he rfl rfl)
    simp [Item.equal, hc, Item.equals_self hcs']

theorem Item.exists_children (h : ∀ v ∈ vs, ∃ y, Denotes room v.toBytes y ∧ v.equal y) :
    ∃ cs : List (Bytes × Item), cs.map Prod.fst = vs.map toBytes ∧ cs.length = vs.length ∧
      (∀ c ∈ cs, Denotes room c.1 c.2) ∧ equal.equals vs (cs.map Prod.snd) := by
  induction vs
  case nil => exact ⟨[], rfl, rfl, by simp, rfl⟩
  case cons v vs hi =>
    have ⟨y, hd, he⟩ := h v (by simp)
    have ⟨cs, hf, hl, hds, hes⟩ := hi fun w hw => h w (by simp [hw])
    refine ⟨(v.toBytes, y) :: cs, by simp [hf], by simp [hl], by simpa [hd] using hds, ?_⟩
    simp [equal.equals, he, hes]

theorem Item.Valid.denotes (h : x.Valid) : ∃ y, Denotes x.depth x.toBytes y ∧ x.equal y := by
  induction h
  case leaf l h =>
    have ⟨fc, l', hf, hp, hl, hm, he, ht, hs⟩ := h.readable
    have hb := toBytes_leaf hf hl hm
    refine ⟨.leaf { raw := (Item.leaf {} l).toBytes } l', ?_, ?_⟩
    · rw [hb]
      exact .leaf (header_lengthBytes fc hm) hp
    · simp [equal, comparable_of (x := Item.leaf {} l) (y := Item.leaf { raw := (Item.leaf {} l).toBytes } l')
        rfl rfl ht.symm hs.symm, he]
  case list c vs hl hv hi =>
    have herr := (Item.Valid.list (c := c) hl hv).error_eq.1
    have hchild : ∀ v ∈ vs, ∃ y, Denotes (depth.depths vs) v.toBytes y ∧ v.equal y := by
      intro v hv
      have ⟨y, hd, he⟩ := hi v hv
      exact ⟨y, hd.mono (depth_le_depths hv), he⟩
    have ⟨cs, hf, hlen, hds, hes⟩ := exists_children hchild
    have hb := toBytes_list herr hl
    rw [← hf] at hb
    refine ⟨.list { raw := (Item.list {} c vs).toBytes } true (cs.map Prod.snd), ?_, ?_⟩
    · rw [hb]
      exact .list (by rw [hlen]; exact header_lengthBytes .list hl) hds
    · simp [equal, comparable_of (x := Item.list {} c vs)
        (y := Item.list { raw := (Item.list {} c vs).toBytes } true (cs.map Prod.snd)) herr
        (error_list_eq_none.mpr (.inl rfl)) rfl (by simp [size, hlen]), hes, hlen]
  case decoded h =>
    rw [h.toBytes_eq]
    exact ⟨_, h.tight, h.equal_self⟩

theorem Item.Valid.decodeFirstItem (h : x.Valid) (hd : x.depth ≤ maxListDepth) (t : Bytes) :
    ∃ y, decodeFirstItem (x.toBytes ++ t) = .ok (y, t.length) ∧ x.equal y := by
  have ⟨y, hy, he⟩ := h.denotes
  exact ⟨y, decodeFirstItem_complete (hy.mono hd) rfl, he⟩

end Items

section EncodedLen

variable {n : Nat} {x : Item} {vs : List Item}

theorem headerLen_eq (h : n ≤ maxByteSize) : headerLen n = 1 + (lengthBytes n).length := by
  have hb : intBytes 3 n = [UInt8.ofNat (n / 65536), UInt8.ofNat (n / 256), UInt8.ofNat n] := by
    rw [intBytes, ← Int.natCast_emod, Int.toNat_natCast, Nat.mod_eq_of_lt
      (by unfold maxByteSize at h; omega)]
    simp [bytes]
  have hz (k : Nat) : UInt8.ofNat k = 0 ↔ k % 256 = 0 := by
    rw [← UInt8.toNat_inj, UInt8.toNat_ofNat', UInt8.toNat_zero]
  have hm : n < 2 ^ 24 := by unfold maxByteSize at h; omega
  rw [lengthBytes, hb]
  split
  case h_1 he =>
    simp only [List.cons.injEq, hz] at he
    rw [headerLen, if_neg (by omega), if_neg (by omega)]
    rfl
  case h_2 hne he =>
    simp only [List.cons.injEq, hz, and_true] at he
    have : n / 256 % 256 ≠ 0 := fun h => hne (he.2.1 ▸ (hz _).mpr h)
    rw [headerLen, if_neg (by omega), if_pos (by omega)]
    rfl
  case h_3 hne =>
    have : n / 65536 % 256 ≠ 0 := fun h => hne _ _ (by rw [(hz _).mpr h])
    rw [headerLen, if_pos (by omega)]
    rfl

theorem Item.encodedLens_eq (h : ∀ v ∈ vs, v.encodedLen = v.toBytes.length) (k : Int) :
    encodedLen.encodedLens vs k = k + (vs.map toBytes).flatten.length := by
  induction vs generalizing k
  case nil => simp [encodedLen.encodedLens]
  case cons v vs hi =>
    rw [encodedLen.encodedLens, hi fun v hv => h v (by simp [hv]), h v (by simp)]
    simp
    omega

theorem Item.Valid.encodedLen_eq (h : x.Valid) : x.encodedLen = x.toBytes.length := by
  induction h
  case leaf l h =>
    have ⟨fc, _, hf, _, hl, hm, _⟩ := h.readable
    simp only [encodedLen, Leaf.encodedLen, toBytes_leaf hf hl hm, hl, headerLen_eq hm]
    simp
    omega
  case list c vs hl hv hi =>
    have herr := (Item.Valid.list (c := c) hl hv).error_eq.1
    rw [toBytes_list herr hl, encodedLen, if_neg (by simp [herr]), if_neg (by simp),
      encodedLens_eq hi, headerLen_eq hl]
    simp
    omega
  case decoded h =>
    have hb := h.toBytes_eq
    have hn := h.ne_nil
    cases h
    case leaf => simp_all [encodedLen, Leaf.encodedLen]
    case list => simp_all [encodedLen]

end EncodedLen

-- Every item that a program can obtain, without errors and no deeper than the decoder allows, is
-- read back from its encoding, whatever follows it.
theorem decodeFirstItem_toBytes (parseFloat : Bytes → Except NumErr F64) {x : Item}
    (hb : Built parseFloat x) (hd : x.depth ≤ maxListDepth) (hs : x.Small) (he : x.error = none)
    (hn : x.isEmpty = false) (t : Bytes) :
    ∃ y, decodeFirstItem (x.toBytes ++ t) = .ok (y, t.length) ∧ x.equal y :=
  (hb.shaped.valid hs he hn).decodeFirstItem hd t

section Mixed

variable {parseFloat : Bytes → Except NumErr F64} {v : Item}

def mixed (v : Item) : Item :=
  newListItem [some (newJIS8Item [7]), some v]

theorem built_mixed (hv : Built parseFloat v) : Built parseFloat (mixed v) := by
  refine .list ?_
  simp only [mem_cons, Option.some.injEq, not_mem_nil, or_false]
  rintro _ (rfl | rfl)
  · exact .jis8 _
  · exact hv

theorem small_mixed (hv : v.Small) : (mixed v).Small := by
  refine .list ?_
  simp only [reduceOption_cons_of_some, reduceOption_nil, mem_cons,
    not_mem_nil, or_false]
  rintro _ (rfl | rfl)
  · exact .leaf trivial
  · exact hv

-- An item read from more length bytes than it needs.
theorem built_long : Built parseFloat (.leaf { raw := [66, 0, 1, 65] } (.ascii [65])) := by
  have hhd : Header .ascii 1 [66, 0, 1] := @Header.mk .ascii [0, 1] (by decide) (by decide)
  have hden : Denotes maxListDepth ([66, 0, 1] ++ [65]) (.leaf { raw := [66, 0, 1] ++ [65] } _) :=
    .leaf hhd rfl
  have hdec : decode [66, 0, 1, 65] = .ok _ :=
    decode_eq_ok.mpr ⟨0, decodeFirstItem_complete hden rfl⟩
  exact .decode hdec

end Mixed

theorem decodeFirstItem_toBytes_mixed :
    ∃ y, decodeFirstItem ((newListItem [some (newJIS8Item [7]),
        some (.leaf { raw := [66, 0, 1, 65] } (.ascii [65]))]).toBytes ++ [1, 2, 3]) = .ok (y, 3) ∧
      (newListItem [some (newJIS8Item [7]),
        some (.leaf { raw := [66, 0, 1, 65] } (.ascii [65]))]).equal y :=
  decodeFirstItem_toBytes (fun _ => .error .errSyntax) (built_mixed built_long) (by decide)
    (small_mixed (.leaf trivial)) rfl rfl [1, 2, 3]

theorem Item.toBytes_of_error {x : Item} (he : x.error.isSome) :
    x.toBytes = [] ∧ x.encodedLen = 0 := by
  cases x
  case empty => exact ⟨rfl, rfl⟩
  case leaf b l =>
    have hb : b.itemErr.isSome := he
    simp [toBytes, appendTo, Leaf.appendTo, encodedLen, Leaf.encodedLen, hb]
  case list b clean vs =>
    have hc : clean = false := by
      cases clean
      case false => rfl
      case true  => simp [error] at he
    simp [toBytes, appendTo, encodedLen, hc, hc ▸ he]

theorem Item.Valid.encodedLen_ne {x : Item} (h : x.Valid) : x.encodedLen ≠ 0 := by
  have ⟨_, hd, _⟩ := h.denotes
  have := hd.two_le
  rw [h.encodedLen_eq]
  omega

-- The announced length of an item is the number of bytes that it appends.
theorem appendTo_encodedLen (parseFloat : Bytes → Except NumErr F64) {x : Item}
    (hb : Built parseFloat x) (hs : x.Small) (dst : Bytes) :
    x.appendTo dst = dst ++ x.toBytes ∧ (x.toBytes.length : Int) = x.encodedLen ∧
      (x.encodedLen = 0 ↔ x.error.isSome ∨ x.isEmpty) := by
  refine ⟨x.appendTo_eq dst, ?_⟩
  cases he : x.error
  case some e =>
    have ⟨hl, hz⟩ := Item.toBytes_of_error (Option.isSome_of_eq_some he)
    simp [hl, hz]
  case none =>
    cases hn : x.isEmpty
    case true =>
      cases x <;> cases hn
      exact ⟨rfl, iff_of_true rfl (.inr rfl)⟩
    case false =>
      have hv := hb.shaped.valid hs he hn
      exact ⟨hv.encodedLen_eq.symm, iff_of_false hv.encodedLen_ne (by simp)⟩

theorem appendTo_encodedLen_defect :
    (newListItem [some (newJIS8Item [7]), some (newErrorItem none)]).appendTo [1] = [1] ∧
      (newListItem [some (newJIS8Item [7]), some (newErrorItem none)]).encodedLen = 0 := by
  have h := appendTo_encodedLen (fun _ => .error .errSyntax)
    (x := newListItem [some (newJIS8Item [7]), some (newErrorItem none)])
    (.list (by simpa using ⟨.jis8 _, .error _⟩)) (.list (by
      simpa [List.reduceOption] using ⟨.leaf trivial, .list (by simp)⟩)) [1]
  exact ⟨h.1, h.2.2.mpr (.inl rfl)⟩

end Secs2
