import GoSecs.Secs2.Canonical
import GoSecs.Secs2.Theorems.Roundtrip

open BigEndian Ieee754 Strconv List

namespace Secs2

namespace WireValue

variable {fc fc' : FormatCode} {n n' : Nat} {r r' : Bytes} {v v' : WireValue}

theorem header_inj (hn : n ≤ maxByteSize) (hn' : n' ≤ maxByteSize)
    (h : header fc n ++ r = header fc' n' ++ r') : fc = fc' ∧ n = n' ∧ r = r' := by
  have ⟨_, hl⟩ := length_lengthBytes n
  have ⟨_, hl'⟩ := length_lengthBytes n'
  rw [header, header, cons_append, cons_append, cons.injEq] at h
  have hb := congrArg UInt8.toNat h.1
  rw [toNat_formatByte fc hl, toNat_formatByte fc' hl'] at hb
  have hc : fc.code = fc'.code := by omega
  have ⟨he, hr⟩ := append_inj h.2 (by omega)
  refine ⟨?_, ?_, hr⟩
  · rw [← Option.some_inj, ← fc.ofCode_code, ← fc'.ofCode_code, hc]
  · rw [← nat_lengthBytes hn, ← nat_lengthBytes hn', he]

theorem encodes_inj {vs vs' : List WireValue} (hl : vs.length = vs'.length)
    (hi : ∀ v ∈ vs, ∀ v' ∈ vs', ∀ r r', v.encode ++ r = v'.encode ++ r' → v = v' ∧ r = r')
    (h : encode.encodes vs ++ r = encode.encodes vs' ++ r') : vs = vs' ∧ r = r' := by
  induction vs generalizing vs'
  case nil =>
    obtain rfl := length_eq_zero_iff.mp hl.symm
    exact ⟨rfl, h⟩
  case cons v vs hvs =>
    obtain _ | ⟨v', vs'⟩ := vs'
    case nil => cases hl
    case cons =>
      rw [encode.encodes, encode.encodes, append_assoc, append_assoc] at h
      obtain ⟨rfl, ht⟩ := hi v mem_cons_self v' mem_cons_self _ _ h
      have ⟨hvs, hr⟩ := hvs (Nat.succ.inj hl)
        (fun w hw w' hw' => hi w (mem_cons_of_mem _ hw) w' (mem_cons_of_mem _ hw')) ht
      exact ⟨by rw [hvs], hr⟩

-- No encoding is a proper beginning of another one.
theorem encode_append_inj (hv : v.Sized) (hv' : v'.Sized) (h : v.encode ++ r = v'.encode ++ r') :
    v = v' ∧ r = r' := by
  induction v using WireValue.induct generalizing v' r r'
  case empty => cases hv
  case leaf fc p =>
    cases hv
    case leaf hfc hp =>
      cases hv'
      case leaf fc' p' _ hp' =>
        rw [encode, encode, append_assoc, append_assoc] at h
        obtain ⟨rfl, hl, h⟩ := header_inj hp hp' h
        obtain ⟨rfl, hr⟩ := append_inj h hl
        exact ⟨rfl, hr⟩
      case list vs' hl' _ =>
        rw [encode, encode, append_assoc, append_assoc] at h
        exact absurd (header_inj hp hl' h).1 hfc
  case list vs hi =>
    cases hv
    case list hl hvs =>
      cases hv'
      case leaf fc' p' hfc' hp' =>
        rw [encode, encode, append_assoc, append_assoc] at h
        exact absurd (header_inj hl hp' h).1.symm hfc'
      case list vs' hl' hvs' =>
        rw [encode, encode, append_assoc, append_assoc] at h
        have ⟨_, he, h⟩ := header_inj hl hl' h
        obtain ⟨rfl, hr⟩ := encodes_inj he
          (fun w hw w' hw' _ _ => hi w hw (hvs w hw) (hvs' w' hw')) h
        exact ⟨rfl, hr⟩

theorem encode_inj (hv : v.Sized) (hv' : v'.Sized) (h : v.encode = v'.encode) : v = v' := by
  have h : v.encode ++ [] = v'.encode ++ [] := by rw [h]
  exact (encode_append_inj hv hv' h).1

theorem Sized.encode_ne_nil (h : v.Sized) : v.encode ≠ [] := by
  cases h <;> simp [encode, header]

end WireValue

section Payloads

variable {α : Type} {w : Nat}

theorem flatMap_fixed_inj {enc : α → Bytes} {xs ys : List α} (hw : 0 < w)
    (hx : ∀ x ∈ xs, (enc x).length = w) (hy : ∀ y ∈ ys, (enc y).length = w) :
    xs.flatMap enc = ys.flatMap enc ↔ xs.map enc = ys.map enc := by
  constructor
  case mp =>
    intro h
    have hl : xs.length = ys.length := by
      have := congrArg length h
      rw [length_flatMap hx, length_flatMap hy] at this
      exact Nat.eq_of_mul_eq_mul_right hw this
    rw [← fields_flatMap hx, ← fields_flatMap hy, h, hl]
  case mpr =>
    intro h
    rw [flatMap_def, flatMap_def, h]

theorem map_inj_of {β : Type} {f : α → β} {xs ys : List α}
    (h : ∀ x ∈ xs, ∀ y ∈ ys, f x = f y → x = y) : xs.map f = ys.map f ↔ xs = ys := by
  refine ⟨fun he => ?_, fun he => by rw [he]⟩
  induction xs generalizing ys
  case nil => simpa using he.symm
  case cons x xs hi =>
    obtain _ | ⟨y, ys⟩ := ys
    case nil => cases he
    case cons =>
      rw [map_cons, map_cons, cons.injEq] at he
      rw [h x mem_cons_self y mem_cons_self he.1, hi (fun a ha b hb =>
        h a (mem_cons_of_mem _ ha) b (mem_cons_of_mem _ hb)) he.2]

theorem floatBytes_eq {v : F64} (h : w = 4 ∨ w = 8) :
    floatBytes w v = bytes w (wireBits w v) ∧ wireBits w v < 256 ^ w := by
  rcases h with rfl | rfl
  case inl =>
    rw [floatBytes, wireBits, if_pos rfl, if_pos rfl]
    exact ⟨rfl, (narrow v).isLt⟩
  case inr =>
    rw [floatBytes, wireBits, if_neg (by decide), if_neg (by decide)]
    exact ⟨rfl, v.isLt⟩

theorem Vec.equal_ofValues [DecidableEq α] [Inhabited α] {xs ys : List α}
    (hl : xs.length = ys.length) (hx : xs.length < 2 ^ 31) :
    (Vec.ofValues xs).equal (.ofValues ys) = true ↔ xs = ys := by
  by_cases h₁ : xs.length = 1
  case pos =>
    obtain ⟨a, rfl⟩ := length_eq_one_iff.mp h₁
    obtain ⟨b, rfl⟩ := length_eq_one_iff.mp (hl.symm.trans h₁)
    simp [ofValues_singleton, Vec.equal]
  case neg =>
    have hi : int32 xs.length ≠ 1 := by rw [int32_eq hx]; omega
    rw [Vec.equal, size_ofValues hx, if_neg (by omega), ofValues_of_ne hi,
      ofValues_of_ne (by rwa [← hl])]
    simp

theorem Vec.size_equal_ofValues [DecidableEq α] [Inhabited α] {xs ys : List α}
    (hx : xs.length < 2 ^ 31) (hy : ys.length < 2 ^ 31) :
    (Vec.ofValues xs).size = (Vec.ofValues ys).size ∧ (Vec.ofValues xs).equal (.ofValues ys) = true ↔
      xs = ys := by
  rw [size_ofValues hx, size_ofValues hy]
  constructor
  case mp  => exact fun ⟨hn, he⟩ => (Vec.equal_ofValues (by exact_mod_cast hn) hx).mp he
  case mpr => exact fun he => ⟨by rw [he], (Vec.equal_ofValues (by rw [he]) hx).mpr he⟩

end Payloads

section Leaves

variable {l l' : Leaf} {fc fc' : FormatCode} {w : Nat}

theorem FormatCode.string_inj (h : fc.string = fc'.string) : fc = fc' := by
  cases fc <;> cases fc' <;> first | rfl | exact absurd h (by decide)

theorem Leaf.type_inj (h : l.formatCode = some fc) (h' : l'.formatCode = some fc') :
    l.type = l'.type ↔ fc = fc' := by
  rw [Leaf.type, Leaf.type, h, h']
  exact ⟨FormatCode.string_inj, fun he => by rw [he]⟩

def Leaf.Agrees (l l' : Leaf) : Prop :=
  l.size = l'.size ∧ l.equal l' = true ↔ l.payload = l'.payload

theorem agrees_values [DecidableEq α] [Inhabited α] {enc : α → Bytes} {xs ys : List α} (hw : 0 < w)
    (hx : xs.length * w ≤ maxByteSize) (hy : ys.length * w ≤ maxByteSize)
    (hlen : ∀ x, (enc x).length = w) (hinj : ∀ x ∈ xs, ∀ y ∈ ys, enc x = enc y → x = y) :
    (Vec.ofValues xs).size = (Vec.ofValues ys).size ∧ (Vec.ofValues xs).equal (.ofValues ys) = true ↔
      (Vec.ofValues xs).toList.flatMap enc = (Vec.ofValues ys).toList.flatMap enc := by
  have hs := lt_two_pow_of_le hw hx
  have hs' := lt_two_pow_of_le hw hy
  rw [toList_ofValues hs, toList_ofValues hs', flatMap_fixed_inj hw (fun x _ => hlen x)
    (fun y _ => hlen y), map_inj_of hinj]
  exact Vec.size_equal_ofValues hs hs'

theorem agrees_int {v v' : Vec Int} (h : (Leaf.int w v).Valid) (h' : (Leaf.int w v').Valid) :
    (Leaf.int w v).Agrees (.int w v') := by
  obtain ⟨hc, xs, rfl, hl, hr⟩ := h
  obtain ⟨_, ys, rfl, hl', hr'⟩ := h'
  have ⟨fc, hf⟩ := Option.isSome_iff_exists.mp hc
  have ⟨_, hw⟩ := leafOf_int hf (p := [])
  rw [Leaf.Agrees, Leaf.payload, Leaf.payload, Leaf.size, Leaf.size, Leaf.equal]
  refine agrees_values hw hl hl' (length_intBytes w) fun x hx y hy he => ?_
  rw [← int_intBytes (hr x hx), he, int_intBytes (hr' y hy)]

theorem agrees_uint {v v' : Vec Nat} (h : (Leaf.uint w v).Valid) (h' : (Leaf.uint w v').Valid) :
    (Leaf.uint w v).Agrees (.uint w v') := by
  obtain ⟨hc, xs, rfl, hl, hr⟩ := h
  obtain ⟨_, ys, rfl, hl', hr'⟩ := h'
  have ⟨fc, hf⟩ := Option.isSome_iff_exists.mp hc
  have ⟨_, hw⟩ := leafOf_uint hf (p := [])
  rw [Leaf.Agrees, Leaf.payload, Leaf.payload, Leaf.size, Leaf.size, Leaf.equal]
  refine agrees_values hw hl hl' (length_bytes w) fun x hx y hy he => ?_
  rw [← nat_bytes_of_lt (hr x hx), he, nat_bytes_of_lt (hr' y hy)]

theorem agrees_boolean {v v' : Vec Bool} (h : (Leaf.boolean v).Valid)
    (h' : (Leaf.boolean v').Valid) : (Leaf.boolean v).Agrees (.boolean v') := by
  obtain ⟨xs, rfl, hl⟩ := h
  obtain ⟨ys, rfl, hl'⟩ := h'
  have hs : xs.length < 2 ^ 31 := lt_two_pow_of_le (w := 1) (by decide) (by omega)
  have hs' : ys.length < 2 ^ 31 := lt_two_pow_of_le (w := 1) (by decide) (by omega)
  have hinj : xs.map boolByte = ys.map boolByte ↔ xs = ys := by
    refine map_inj_of fun x _ y _ he => ?_
    cases x <;> cases y <;> first | rfl | cases he
  rw [Leaf.Agrees, Leaf.payload, Leaf.payload, toList_ofValues hs, toList_ofValues hs', hinj,
    Leaf.size, Leaf.size, Leaf.equal]
  exact Vec.size_equal_ofValues hs hs'

theorem map_wireBits_iff {xs ys : List F64} (hw : w = 4 ∨ w = 8) :
    xs.map (floatBytes w) = ys.map (floatBytes w) ↔ xs.map (wireBits w) = ys.map (wireBits w) := by
  have hb {vs : List F64} : vs.map (floatBytes w) = (vs.map (wireBits w)).map (bytes w) := by
    rw [map_map]
    exact map_congr_left fun v _ => (floatBytes_eq hw).1
  rw [hb, hb]
  refine map_inj_of fun x hx y hy he => ?_
  obtain ⟨a, _, rfl⟩ := mem_map.mp hx
  obtain ⟨b, _, rfl⟩ := mem_map.mp hy
  rw [← nat_bytes_of_lt (floatBytes_eq hw).2, he, nat_bytes_of_lt (floatBytes_eq hw).2]

-- Floats are compared by the bits they transmit.
theorem agrees_float {v v' : Vec F64} (h : (Leaf.float w v).Valid) (h' : (Leaf.float w v').Valid) :
    (Leaf.float w v).Agrees (.float w v') := by
  obtain ⟨hc, xs, rfl, hl⟩ := h
  obtain ⟨_, ys, rfl, hl'⟩ := h'
  have ⟨fc, hf⟩ := Option.isSome_iff_exists.mp hc
  have ⟨_, hw⟩ := leafOf_float hf (p := [])
  have hs := lt_two_pow_of_le (by omega) hl
  have hs' := lt_two_pow_of_le (by omega) hl'
  rw [Leaf.Agrees, Leaf.payload, Leaf.payload, toList_ofValues hs, toList_ofValues hs',
    flatMap_fixed_inj (by omega) (fun _ _ => length_floatBytes hw _)
      (fun _ _ => length_floatBytes hw _), map_wireBits_iff hw, Leaf.size, Leaf.size,
    size_ofValues hs, size_ofValues hs', Leaf.equal, toList_ofValues hs, toList_ofValues hs',
    decide_eq_true_iff]
  refine and_iff_right_of_imp fun he => ?_
  have := congrArg length he
  rw [length_map, length_map] at this
  rw [this]

theorem agrees_localizedStr {lsh lsh' : UInt16} {s s' : Bytes} {noLSH noLSH' : Bool}
    (h : (Leaf.localizedStr lsh s noLSH).Valid) (h' : (Leaf.localizedStr lsh' s' noLSH').Valid) :
    (Leaf.localizedStr lsh s noLSH).Agrees (.localizedStr lsh' s' noLSH') := by
  have hinj : bytes 2 lsh.toNat ++ s = bytes 2 lsh'.toNat ++ s' ↔ s = s' ∧ lsh = lsh' := by
    constructor
    case mp =>
      intro he
      have ⟨hb, hs⟩ := append_inj he (by simp)
      refine ⟨hs, UInt16.toNat_inj.mp ?_⟩
      rw [← nat_bytes_of_lt (w := 2) lsh.toNat_lt, hb, nat_bytes_of_lt lsh'.toNat_lt]
    case mpr => rintro ⟨rfl, rfl⟩; rfl
  cases noLSH <;> cases noLSH'
  case false.false =>
    simp only [Leaf.Agrees, Leaf.size, Leaf.equal, Leaf.payload, Bool.false_eq_true, if_false, hinj,
      Bool.and_eq_true, decide_eq_true_iff]
    refine and_iff_right_of_imp fun he => ?_
    rw [he.1]
  case false.true =>
    refine iff_of_false (fun he => ?_) fun he => ?_
    · simp [Leaf.size] at he
      omega
    · simp [Leaf.payload, bytes] at he
  case true.false =>
    refine iff_of_false (fun he => ?_) fun he => ?_
    · simp [Leaf.size] at he
      omega
    · simp [Leaf.payload, bytes] at he
  case true.true =>
    obtain ⟨rfl, rfl⟩ := h
    obtain ⟨rfl, rfl⟩ := h'
    simp [Leaf.Agrees, Leaf.size, Leaf.equal, Leaf.payload]

def FormatCode.kind : FormatCode → Nat × Nat
  | list => (0, 0)
  | ascii => (1, 0)
  | jis8 => (2, 0)
  | localizedStr => (3, 0)
  | binary => (4, 0)
  | boolean => (5, 0)
  | int8 => (6, 1)
  | int16 => (6, 2)
  | int32 => (6, 4)
  | int64 => (6, 8)
  | uint8 => (7, 1)
  | uint16 => (7, 2)
  | uint32 => (7, 4)
  | uint64 => (7, 8)
  | float32 => (8, 4)
  | float64 => (8, 8)

def Leaf.kind : Leaf → Nat × Nat
  | ascii _ => (1, 0)
  | jis8 _ => (2, 0)
  | localizedStr .. => (3, 0)
  | binary _ => (4, 0)
  | boolean _ => (5, 0)
  | int w _ => (6, w)
  | uint w _ => (7, w)
  | float w _ => (8, w)

theorem Leaf.kind_eq (h : l.formatCode = some fc) : l.kind = fc.kind := by
  cases l
  case int   => simp only [formatCode, intFormatCode] at h; split at h <;> cases h <;> rfl
  case uint  => simp only [formatCode, uintFormatCode] at h; split at h <;> cases h <;> rfl
  case float => simp only [formatCode, floatFormatCode] at h; split at h <;> cases h <;> rfl
  all_goals cases h; rfl

theorem Leaf.formatCode_ne_list : l.formatCode ≠ some .list := by
  intro h
  have := Leaf.kind_eq h
  cases l <;> simp [kind, FormatCode.kind] at this

theorem length_equal_iff {s s' : Bytes} :
    (s.length : Int) = s'.length ∧ decide (s = s') = true ↔ s = s' := by
  rw [decide_eq_true_iff]
  exact and_iff_right_of_imp fun h => by rw [h]

theorem Leaf.Valid.agrees (h : l.Valid) (h' : l'.Valid) (hk : l.kind = l'.kind) :
    l.Agrees l' := by
  cases l <;> cases l' <;> simp only [Leaf.kind, Prod.mk.injEq] at hk
  case ascii.ascii => exact length_equal_iff
  case jis8.jis8 => exact length_equal_iff
  case binary.binary => exact length_equal_iff
  case localizedStr.localizedStr => exact agrees_localizedStr h h'
  case boolean.boolean => exact agrees_boolean h h'
  case int.int => obtain ⟨_, rfl⟩ := hk; exact agrees_int h h'
  case uint.uint => obtain ⟨_, rfl⟩ := hk; exact agrees_uint h h'
  case float.float => obtain ⟨_, rfl⟩ := hk; exact agrees_float h h'
  all_goals exact absurd hk.1 (by decide)

theorem Leaf.Valid.equal_iff (h : l.Valid) (h' : l'.Valid) :
    l.type = l'.type ∧ l.size = l'.size ∧ l.equal l' = true ↔ l.wireValue = l'.wireValue := by
  have ⟨fc, _, hf, _⟩ := h.readable
  have ⟨fc', _, hf', _⟩ := h'.readable
  rw [Leaf.type_inj hf hf', Leaf.wireValue, Leaf.wireValue, hf, hf', WireValue.leaf.injEq]
  refine and_congr_right fun he => ?_
  subst he
  exact h.agrees h' ((Leaf.kind_eq hf).trans (Leaf.kind_eq hf').symm)

end Leaves

section Decoded

variable {fc : FormatCode} {l : Leaf} {w n : Nat} {p : Bytes}

theorem length_of_mem_fields {q : Bytes} (hp : n * w ≤ p.length) (h : q ∈ fields w n p) :
    q.length = w := by
  rw [fields_eq_range] at h
  obtain ⟨i, hi, rfl⟩ := mem_map.mp h
  have : (i + 1) * w ≤ n * w := Nat.mul_le_mul_right w (mem_range.mp hi)
  rw [Nat.succ_mul] at this
  rw [length_take, length_drop]
  omega

theorem numericLeaf_values {α : Type} [Inhabited α] {mk : Nat → Vec α → Leaf} {read : Bytes → α}
    (h : numericLeaf mk read w p = some l) :
    ∃ vs, l = mk w (.ofValues vs) ∧ vs.length * w = p.length ∧
      ∀ v ∈ vs, ∃ q : Bytes, q.length = w ∧ v = read q := by
  unfold numericLeaf at h
  split at h
  case isFalse => cases h
  case isTrue hd =>
    cases h
    have hm := Nat.div_mul_cancel hd
    refine ⟨_, rfl, ?_, fun v hv => ?_⟩
    · rw [length_map, fields_eq_range, length_map, length_range, hm]
    · obtain ⟨q, hq, rfl⟩ := mem_map.mp hv
      exact ⟨q, length_of_mem_fields (by omega) hq, rfl⟩

theorem valid_int_of_numericLeaf (hc : (intFormatCode w).isSome) (hw : 0 < w)
    (hp : p.length ≤ maxByteSize) (h : numericLeaf .int int w p = some l) : l.Valid := by
  obtain ⟨vs, rfl, hl, hv⟩ := numericLeaf_values h
  refine ⟨hc, vs, rfl, hl ▸ hp, fun v hm => ?_⟩
  obtain ⟨q, rfl, rfl⟩ := hv v hm
  exact int_inRange q (length_pos_iff.mp hw)

theorem valid_uint_of_numericLeaf (hc : (uintFormatCode w).isSome)
    (hp : p.length ≤ maxByteSize) (h : numericLeaf .uint nat w p = some l) : l.Valid := by
  obtain ⟨vs, rfl, hl, hv⟩ := numericLeaf_values h
  refine ⟨hc, vs, rfl, hl ▸ hp, fun v hm => ?_⟩
  obtain ⟨q, rfl, rfl⟩ := hv v hm
  exact nat_lt q

theorem valid_float_of_numericLeaf (hc : (floatFormatCode w).isSome)
    (hp : p.length ≤ maxByteSize) (h : numericLeaf .float (readFloat w) w p = some l) :
    l.Valid := by
  obtain ⟨vs, rfl, hl, _⟩ := numericLeaf_values h
  exact ⟨hc, vs, rfl, hl ▸ hp⟩

theorem leafOf_valid (hp : p.length ≤ maxByteSize) (h : leafOf fc p = some l) : l.Valid := by
  cases fc
  case list    => cases h
  case ascii   => cases h; exact hp
  case jis8    => cases h; exact hp
  case binary  => cases h; exact hp
  case boolean => cases h; exact ⟨_, rfl, by rwa [length_map]⟩
  case localizedStr =>
    match p with
    | [] => cases h; exact ⟨rfl, rfl⟩
    | [_] => cases h
    | _ :: _ :: _ => cases h; exact hp
  case int8    => exact valid_int_of_numericLeaf rfl (by decide) hp h
  case int16   => exact valid_int_of_numericLeaf rfl (by decide) hp h
  case int32   => exact valid_int_of_numericLeaf rfl (by decide) hp h
  case int64   => exact valid_int_of_numericLeaf rfl (by decide) hp h
  case uint8   => exact valid_uint_of_numericLeaf rfl hp h
  case uint16  => exact valid_uint_of_numericLeaf rfl hp h
  case uint32  => exact valid_uint_of_numericLeaf rfl hp h
  case uint64  => exact valid_uint_of_numericLeaf rfl hp h
  case float32 => exact valid_float_of_numericLeaf rfl hp h
  case float64 => exact valid_float_of_numericLeaf rfl hp h

end Decoded

inductive Item.Plain : Item → Prop
  | leaf {b l} : b.itemErr = none → l.Valid → Item.Plain (.leaf b l)
  | list {b c vs} :
    b.itemErr = none → vs.length ≤ maxByteSize → (∀ v ∈ vs, Item.Plain v) →
    Item.Plain (.list b c vs)

theorem Denotes.plain {room : Nat} {bs : Bytes} {x : Item} (h : Denotes room bs x) : x.Plain := by
  induction h
  case leaf hh hl =>
    have := hh.length_lt
    exact .leaf rfl (leafOf_valid (by unfold maxByteSize; omega) hl)
  case list children hh _ hi =>
    have := hh.length_lt
    refine .list rfl (by rw [length_map]; unfold maxByteSize; omega) fun v hv => ?_
    obtain ⟨d, hd, rfl⟩ := mem_map.mp hv
    exact hi d hd

namespace Item

variable {x y : Item} {vs ys : List Item}

theorem Valid.plain (h : x.Valid) : x.Plain := by
  induction h
  case leaf h => exact .leaf rfl h
  case list hl _ hi => exact .list rfl hl hi
  case decoded h => exact h.plain

theorem canonicals_eq_map : canonical.canonicals vs = vs.map canonical := by
  induction vs
  case nil => rfl
  case cons v vs hi => rw [canonical.canonicals, hi, map_cons]

theorem wireValues_eq_map : wireValue.wireValues vs = vs.map wireValue := by
  induction vs
  case nil => rfl
  case cons v vs hi => rw [wireValue.wireValues, hi, map_cons]

theorem encodes_eq_flatten {ws : List WireValue} :
    WireValue.encode.encodes ws = (ws.map WireValue.encode).flatten := by
  induction ws
  case nil => rfl
  case cons v vs hi => rw [WireValue.encode.encodes, hi, map_cons, flatten_cons]

theorem Plain.canonical_valid (h : x.Plain) : x.canonical.Valid := by
  induction h
  case leaf b l hb hl =>
    rw [canonical, hb]
    exact .leaf hl
  case list b c vs hb hl _ hi =>
    rw [canonical, hb, canonicals_eq_map]
    refine .list (by rwa [length_map]) fun v hv => ?_
    obtain ⟨y, hy, rfl⟩ := mem_map.mp hv
    exact hi y hy

theorem Plain.sized (h : x.Plain) : x.wireValue.Sized := by
  induction h
  case leaf b l hb hl =>
    have ⟨fc, _, hf, _, _, hm, _⟩ := hl.readable
    rw [wireValue, Leaf.wireValue, hf]
    refine .leaf (fun he => ?_) hm
    exact Leaf.formatCode_ne_list (he ▸ hf)
  case list b c vs hb hl _ hi =>
    rw [wireValue, wireValues_eq_map]
    refine .list (by rwa [length_map]) fun v hv => ?_
    obtain ⟨y, hy, rfl⟩ := mem_map.mp hv
    exact hi y hy

theorem Plain.toBytes_canonical (h : x.Plain) : x.canonical.toBytes = x.wireValue.encode := by
  have hv := h.canonical_valid
  induction h
  case leaf b l hb hl =>
    have ⟨fc, _, hf, _, hn, hm, _⟩ := hl.readable
    rw [canonical, hb, toBytes_leaf hf hn hm, wireValue, Leaf.wireValue, hf]
    rfl
  case list b c vs hb hl hvs hi =>
    have he := hv.error_eq.1
    rw [canonical, hb, canonicals_eq_map] at he ⊢
    rw [toBytes_list he (by rwa [length_map]), wireValue, wireValues_eq_map,
      WireValue.encode, encodes_eq_flatten, length_map, length_map, map_map,
      map_map]
    congr 2
    exact map_congr_left fun v hv => hi v hv (hvs v hv).canonical_valid

theorem Plain.error_eq (h : x.Plain) : x.error = none ∧ x.isEmpty = false := by
  induction h
  case leaf hb _ => exact ⟨hb, rfl⟩
  case list hb _ _ hi =>
    exact ⟨error_list_eq_none.mpr <| .inr ⟨hb, fun v hv => (hi v hv).symm⟩, rfl⟩

theorem equals_iff (hl : vs.length = ys.length)
    (h : ∀ v ∈ vs, ∀ y ∈ ys, v.equal y = true ↔ v.wireValue = y.wireValue) :
    equal.equals vs ys = true ↔ vs.map wireValue = ys.map wireValue := by
  induction vs generalizing ys
  case nil =>
    obtain rfl := length_eq_zero_iff.mp hl.symm
    exact iff_of_true rfl rfl
  case cons v vs hi =>
    obtain _ | ⟨y, ys⟩ := ys
    case nil => cases hl
    case cons =>
      rw [equal.equals, Bool.and_eq_true, h v mem_cons_self y mem_cons_self,
        hi (Nat.succ.inj hl) fun a ha b hb =>
          h a (mem_cons_of_mem _ ha) b (mem_cons_of_mem _ hb),
        map_cons, map_cons, cons.injEq]

theorem comparable_iff (hx : x.error = none) (hy : y.error = none) :
    comparable x y = true ↔ x.type = y.type ∧ x.size = y.size := by
  simp [comparable, hx, hy]

theorem Plain.equal_iff (hx : x.Plain) (hy : y.Plain) :
    x.equal y = true ↔ x.wireValue = y.wireValue := by
  have hc := comparable_iff hx.error_eq.1 hy.error_eq.1
  induction hx generalizing y
  case leaf b l hb hl =>
    obtain ⟨fc, _, hf, _⟩ := hl.readable
    cases hy
    case leaf b' l' hb' hl' =>
      rw [equal, Bool.and_eq_true, hc, and_assoc]
      exact hl.equal_iff hl'
    case list =>
      refine iff_of_false (by simp [equal]) ?_
      rw [wireValue, wireValue, Leaf.wireValue, hf]
      simp
  case list b c vs hb hl hvs hi =>
    cases hy
    case leaf b' l' hb' hl' =>
      obtain ⟨fc, _, hf, _⟩ := hl'.readable
      refine iff_of_false (by simp [equal]) ?_
      rw [wireValue, wireValue, Leaf.wireValue, hf]
      simp
    case list b' c' ys hb' hl' hys =>
      have hchild : ∀ v ∈ vs, ∀ y ∈ ys, v.equal y = true ↔ v.wireValue = y.wireValue :=
        fun v hv y hy => hi v hv (hys y hy)
          (comparable_iff (hvs v hv).error_eq.1 (hys y hy).error_eq.1)
      rw [equal, Bool.and_eq_true, hc, hb, hb', wireValue, wireValue, wireValues_eq_map,
        wireValues_eq_map, WireValue.list.injEq]
      simp only [Option.isSome_none, Bool.false_eq_true, if_false, Bool.false_or, Bool.and_eq_true,
        decide_eq_true_iff]
      constructor
      case mp => exact fun h => (equals_iff h.2.1 hchild).mp h.2.2
      case mpr =>
        intro he
        have hn : vs.length = ys.length := by
          have := congrArg length he
          rwa [length_map, length_map] at this
        exact ⟨⟨rfl, congrArg Nat.cast hn⟩, hn, (equals_iff hn hchild).mpr he⟩

theorem Plain.not_equal_empty (h : x.Plain) :
    Item.empty.equal x = false ∧ x.equal .empty = false := by
  cases h <;> simp [equal, isEmpty]

end Item

namespace SoundItem

variable {parseFloat : Bytes → Except NumErr F64} (a b : SoundItem parseFloat)

theorem empty_or_plain : a.item = .empty ∨ a.item.Plain := by
  cases h : a.item.isEmpty
  case true  => cases he : a.item <;> simp_all [Item.isEmpty]
  case false => exact .inr (a.built.shaped.valid a.small a.error h).plain

theorem toBytes_canonical : a.item.canonical.toBytes = a.item.wireValue.encode := by
  rcases a.empty_or_plain with h | h
  · rw [h]
    rfl
  · exact h.toBytes_canonical

theorem encode_inj :
    a.item.wireValue.encode = b.item.wireValue.encode ↔ a.item.wireValue = b.item.wireValue := by
  refine ⟨fun h => ?_, fun h => by rw [h]⟩
  rcases a.empty_or_plain with ha | ha <;> rcases b.empty_or_plain with hb | hb
  · rw [ha, hb]
  · rw [ha] at h
    exact absurd h.symm hb.sized.encode_ne_nil
  · rw [hb] at h
    exact absurd h ha.sized.encode_ne_nil
  · exact WireValue.encode_inj ha.sized hb.sized h

theorem equal_iff_wireValue :
    a.item.equal b.item = true ↔ a.item.wireValue = b.item.wireValue := by
  rcases a.empty_or_plain with ha | ha <;> rcases b.empty_or_plain with hb | hb
  · rw [ha, hb]
    exact iff_of_true rfl rfl
  · rw [ha, hb.not_equal_empty.1]
    refine iff_of_false nofun fun h => ?_
    cases h ▸ hb.sized
  · rw [hb, ha.not_equal_empty.2]
    refine iff_of_false nofun fun h => ?_
    cases h ▸ ha.sized
  · exact ha.equal_iff hb

end SoundItem

-- `Equal` is equality of what the items transmit, however they were built or read.
theorem equal_iff_canonical (parseFloat : Bytes → Except NumErr F64) :
    Equivalence (fun a b : SoundItem parseFloat => a.item.equal b.item = true) ∧
    ∀ a b : SoundItem parseFloat,
      a.item.equal b.item = true ↔ a.item.canonical.toBytes = b.item.canonical.toBytes := by
  constructor
  case left =>
    simp only [SoundItem.equal_iff_wireValue]
    exact ⟨fun _ => rfl, Eq.symm, Eq.trans⟩
  case right =>
    intro a b
    rw [a.equal_iff_wireValue, a.toBytes_canonical, b.toBytes_canonical, a.encode_inj]

def soundLong : SoundItem fun _ => .error .errSyntax :=
  ⟨mixed _, built_mixed built_long, small_mixed (.leaf trivial), rfl⟩

def soundNew : SoundItem fun _ => .error .errSyntax :=
  ⟨mixed _, built_mixed (.ascii [65]), small_mixed (.leaf trivial), rfl⟩

theorem equal_iff_canonical_long :
    soundLong.item.equal soundNew.item = true ∧ soundLong.item.toBytes ≠ soundNew.item.toBytes :=
  ⟨((equal_iff_canonical _).2 soundLong soundNew).mpr (by decide), by decide⟩

end Secs2
