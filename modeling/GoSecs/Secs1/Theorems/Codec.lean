import GoSecs.Secs1.Theorems.Block

open BigEndian Secs2 Hsms List

namespace Secs1

variable {b : Block} {lengthByte : UInt8} {rest : Bytes} {bs : Bytes}

section Sum

def byteSum (bs : Bytes) : Nat :=
  (bs.map UInt8.toNat).sum

theorem byteSum_cons (c : UInt8) (bs : Bytes) : byteSum (c :: bs) = c.toNat + byteSum bs := by
  rw [byteSum, map_cons, sum_cons, byteSum]

theorem byteSum_le (bs : Bytes) : byteSum bs ≤ 255 * bs.length := by
  induction bs
  case nil => exact Nat.le_refl 0
  case cons c bs hi =>
    have := c.toNat_lt
    rw [byteSum_cons, length_cons]
    omega

theorem foldl_sum (bs : Bytes) (acc : UInt32) :
    (bs.foldl (fun sum v => sum + v.toUInt32) acc).toNat = (acc.toNat + byteSum bs) % 2 ^ 32 := by
  induction bs generalizing acc
  case nil =>
    have := acc.toNat_lt
    exact (Nat.mod_eq_of_lt this).symm
  case cons c bs hi =>
    rw [foldl_cons, hi, byteSum_cons, UInt32.toNat_add, UInt8.toNat_toUInt32]
    omega

theorem toNat_checksum (bs : Bytes) : (checksum bs).toNat = byteSum bs % 2 ^ 16 := by
  have hand (x : UInt32) : (x &&& 0xFFFF).toNat = x.toNat % 2 ^ 16 := by
    rw [UInt32.toNat_and]
    exact Nat.and_two_pow_sub_one_eq_mod _ 16
  rw [checksum, UInt32.toNat_toUInt16, hand, foldl_sum]
  simp only [UInt32.toNat_zero, Nat.zero_add]
  omega

theorem toNat_checksum_of_le (h : bs.length ≤ maxBlockLength) :
    (checksum bs).toNat = byteSum bs := by
  have := byteSum_le bs
  rw [toNat_checksum]
  simp only [maxBlockLength, blockHeaderSize, maxBlockBodySize] at h
  omega

theorem byteSum_set {i : Nat} (v : UInt8) (h : i < bs.length) :
    byteSum (bs.set i v) + bs[i].toNat = byteSum bs + v.toNat := by
  induction bs generalizing i
  case nil => cases h
  case cons c bs hi =>
    rcases i with _ | i
    case zero =>
      rw [set_cons_zero, byteSum_cons, byteSum_cons, getElem_cons_zero]
      omega
    case succ =>
      have := hi (Nat.lt_of_succ_lt_succ h)
      rw [set_cons_succ, byteSum_cons, byteSum_cons, getElem_cons_succ]
      omega

end Sum

section Codec

-- What a receiver takes for a block: a length byte in range, as many bytes, and their sum.
structure Wellformed (lengthByte : UInt8) (rest : Bytes) : Prop where
  length_ge : minBlockLength ≤ lengthByte.toNat
  length_le : lengthByte.toNat ≤ maxBlockLength
  data : rest.length = lengthByte.toNat + checksumSize
  sum : byteSum (rest.take lengthByte.toNat) = nat (rest.drop lengthByte.toNat)

theorem checksum_eq_iff {cs : Bytes} (hb : bs.length ≤ maxBlockLength)
    (hc : cs.length = checksumSize) :
    checksum bs = UInt16.ofNat (nat cs) ↔ byteSum bs = nat cs := by
  have hlt := nat_lt cs
  rw [hc] at hlt
  rw [← UInt16.toNat_inj, toNat_checksum_of_le hb, UInt16.toNat_ofNat_of_lt' hlt]

theorem parseBlock_eq_ok : parseBlock lengthByte rest = .ok b ↔
    Wellformed lengthByte rest ∧
      b = { header := copyHeader rest, body := (rest.take lengthByte.toNat).drop blockHeaderSize } := by
  simp only [parseBlock]
  split
  case isTrue h =>
    refine iff_of_false (by simp) ?_
    rintro ⟨hw, _⟩
    have := hw.length_ge
    have := hw.length_le
    omega
  case isFalse h =>
    rw [not_or, not_lt, not_lt] at h
    split
    case isTrue hd => exact iff_of_false (by simp) fun h => hd h.1.data
    case isFalse hd =>
      have hd := not_not.mp hd
      have hlen : (rest.take lengthByte.toNat).length ≤ maxBlockLength := by
        rw [length_take]
        omega
      have hsum : checksum (rest.take lengthByte.toNat) = _ ↔ _ = nat (rest.drop lengthByte.toNat) :=
        checksum_eq_iff hlen (by rw [length_drop]; omega)
      split
      case isTrue hc  => exact iff_of_false (by simp) fun h => hc (hsum.mpr h.1.sum)
      case isFalse hc =>
        have hw : Wellformed lengthByte rest := ⟨h.1, h.2, hd, hsum.mp (not_not.mp hc)⟩
        rw [Except.ok.injEq]
        exact ⟨fun he => ⟨hw, he.symm⟩, fun h => h.2.symm⟩

theorem copyHeader_of_le (h : blockHeaderSize ≤ bs.length) :
    (copyHeader bs).bytes = bs.take blockHeaderSize := by
  match bs, h with
  | a :: b :: c :: d :: e :: f :: g :: i :: j :: k :: _, _ => rfl

theorem bytes_checksum {cs : Bytes} (hc : cs.length = checksumSize) {x : UInt16}
    (h : x.toNat = nat cs) : [(x >>> 8).toUInt8, x.toUInt8] = cs := by
  have hx : UInt16.ofNat (nat [(x >>> 8).toUInt8, x.toUInt8]) = x := nat_checksum x
  have hlt : nat [(x >>> 8).toUInt8, x.toUInt8] < 2 ^ 16 :=
    (nat_lt [(x >>> 8).toUInt8, x.toUInt8]).trans_eq (show 256 ^ 2 = 2 ^ 16 by decide)
  rw [← UInt16.toNat_inj, UInt16.toNat_ofNat_of_lt' hlt] at hx
  calc [(x >>> 8).toUInt8, x.toUInt8]
      = bytes 2 (nat [(x >>> 8).toUInt8, x.toUInt8]) := (bytes_nat [_, _]).symm
    _ = bytes cs.length (nat cs) := by rw [hx, h, hc, checksumSize]
    _ = cs := bytes_nat cs

theorem appendTo_of_parseBlock (h : parseBlock lengthByte rest = .ok b) (dst : Bytes) :
    b.appendTo dst = dst ++ lengthByte :: rest := by
  have ⟨hw, hb⟩ := parseBlock_eq_ok.mp h
  have hge := hw.length_ge
  have hd := hw.data
  have hn : (rest.take lengthByte.toNat).length = lengthByte.toNat := by
    rw [length_take]
    omega
  have hhead : b.header.bytes ++ b.body = rest.take lengthByte.toNat := by
    have hten : rest.take blockHeaderSize = (rest.take lengthByte.toNat).take blockHeaderSize := by
      rw [take_take]
      exact congrArg rest.take (min_eq_left hge).symm
    rw [hb]
    simp only
    rw [copyHeader_of_le (by rw [hd]; exact hge.trans (Nat.le_add_right ..)), hten,
      take_append_drop]
  have hsum : (checksum (rest.take lengthByte.toNat)).toNat = nat (rest.drop lengthByte.toNat) := by
    rw [toNat_checksum_of_le (hn.trans_le hw.length_le), hw.sum]
  have hlen : blockHeaderSize + b.body.length = lengthByte.toNat := by
    have := congrArg List.length hhead
    rw [length_append, hn] at this
    exact this
  simp only [Block.appendTo]
  rw [hlen, UInt8.ofNat_toNat, append_assoc _ b.header.bytes, hhead,
    bytes_checksum (by rw [length_drop]; omega) hsum, append_assoc,
    take_append_drop, append_assoc]
  rfl

-- A byte of the area that is summed changes the sum, and a byte of the checksum what it is compared with.
theorem not_wellformed_set {i : Nat} {v : UInt8} (hw : Wellformed lengthByte rest)
    (hi : i < rest.length) (hv : v ≠ rest[i]) : ¬Wellformed lengthByte (rest.set i v) := by
  intro hw'
  have hs := hw.sum
  have hs' := hw'.sum
  have hne : v.toNat ≠ rest[i].toNat := fun h => hv (UInt8.toNat_inj.mp h)
  by_cases hlt : i < lengthByte.toNat
  case pos =>
    have hmem : i < (rest.take lengthByte.toNat).length := by
      rw [length_take]
      omega
    have hset := byteSum_set v hmem
    rw [getElem_take] at hset
    rw [take_set, drop_set_of_lt hlt] at hs'
    omega
  case neg =>
    have hlen : (rest.drop lengthByte.toNat).length = ((rest.set i v).drop lengthByte.toNat).length := by
      simp only [length_drop, length_set]
    rw [take_set, set_eq_of_length_le (by rw [length_take]; omega), hs] at hs'
    have heq : rest.drop lengthByte.toNat = (rest.set i v).drop lengthByte.toNat := by
      rw [← bytes_nat (rest.drop _), ← bytes_nat ((rest.set i v).drop _), hs', hlen]
    have := congrArg (·[i - lengthByte.toNat]?) heq
    simp only [getElem?_drop, Nat.add_sub_cancel' (not_lt.mp hlt), getElem?_set_self hi,
      getElem?_eq_getElem hi, Option.some.injEq] at this
    exact hv this.symm

-- The codec of one block: both directions, the accepted inputs and the detection of one wrong byte.
theorem block_codec :
    (∀ b : Block, b.body.length ≤ maxBlockBodySize → ∀ dst, ∃ lengthByte rest,
      b.appendTo dst = dst ++ lengthByte :: rest ∧ parseBlock lengthByte rest = .ok b) ∧
    (∀ lengthByte rest b, parseBlock lengthByte rest = .ok b →
      b.body.length ≤ maxBlockBodySize ∧ ∀ dst, b.appendTo dst = dst ++ lengthByte :: rest) ∧
    (∀ lengthByte rest, (∃ b, parseBlock lengthByte rest = .ok b) ↔ Wellformed lengthByte rest) ∧
    (∀ lengthByte rest b, parseBlock lengthByte rest = .ok b →
      ∀ (i : Nat) (hi : i < rest.length) (v : UInt8), v ≠ rest[i] →
        ∀ b', parseBlock lengthByte (rest.set i v) ≠ .ok b') ∧
    (∀ bs : Bytes, bs.length ≤ maxBlockLength → (checksum bs).toNat = byteSum bs) := by
  refine ⟨fun b hb dst => ?_, fun lengthByte rest b h => ⟨?_, appendTo_of_parseBlock h⟩, ?_, ?_,
    fun _ => toNat_checksum_of_le⟩
  · obtain ⟨lengthByte, rest, _, hp⟩ := parseBlock_appendTo hb
    exact ⟨lengthByte, rest, appendTo_of_parseBlock hp dst, hp⟩
  · obtain ⟨hw, hb⟩ := parseBlock_eq_ok.mp h
    have := hw.length_le
    rw [hb]
    simp only [List.length_drop, List.length_take, maxBlockLength] at *
    omega
  · intro lengthByte rest
    refine ⟨fun h => (parseBlock_eq_ok.mp h.choose_spec).1, fun hw => ⟨_, parseBlock_eq_ok.mpr ⟨hw, rfl⟩⟩⟩
  · intro lengthByte rest b h i hi v hv b' h'
    exact not_wellformed_set (parseBlock_eq_ok.mp h).1 hi hv (parseBlock_eq_ok.mp h').1

end Codec
end Secs1
