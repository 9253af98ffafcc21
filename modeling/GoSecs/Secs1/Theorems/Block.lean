import GoSecs.Secs1.Message

open BigEndian Secs2 Hsms

namespace Secs1

section Bits

theorem forall_byte {P : UInt8 → Prop} (h : ∀ i : Fin 256, P (UInt8.ofNat i)) (b : UInt8) :
    P b := by
  have := h ⟨b.toNat, b.toNat_lt⟩
  simpa using this

theorem topBit_toNat (b : UInt8) :
    ∀ set, (topBit b set).toNat = if set then b.toNat % 128 + 128 else b.toNat := by
  revert b
  refine forall_byte ?_
  decide +kernel

theorem toNat_and_7f (b : UInt8) : (b &&& 0x7F).toNat = b.toNat % 128 := by
  revert b
  refine forall_byte ?_
  decide +kernel

theorem and_80_ne (b : UInt8) : (b &&& 0x80 != 0) = decide (128 ≤ b.toNat) := by
  revert b
  refine forall_byte ?_
  decide +kernel

theorem toNat_and_7fff (x : UInt16) : (x &&& 0x7FFF).toNat = x.toNat % 32768 := by
  rw [UInt16.toNat_and]
  exact Nat.and_two_pow_sub_one_eq_mod x.toNat 15

theorem toNat_high (x : UInt16) : (x >>> 8).toUInt8.toNat = x.toNat / 256 := by
  have := x.toNat_lt
  simp [Nat.shiftRight_eq_div_pow]
  omega

theorem toNat_low (x : UInt16) : x.toUInt8.toNat = x.toNat % 256 := by
  simp

theorem toNat_field (b c : UInt8) :
    (UInt16.ofNat (nat [b, c]) &&& 0x7FFF).toNat = b.toNat % 128 * 256 + c.toNat := by
  have := c.toNat_lt
  rw [toNat_and_7fff]
  simp [nat]
  omega

theorem field_topBit {x : UInt16} (h : x.toNat < 32768) (set : Bool) :
    UInt16.ofNat (nat [topBit (x >>> 8).toUInt8 set, x.toUInt8]) &&& 0x7FFF = x := by
  apply UInt16.toNat_inj.mp
  rw [toNat_field, topBit_toNat, toNat_high, toNat_low]
  split <;> omega

variable {b : UInt8}

theorem flag_topBit (h : b.toNat < 128) (set : Bool) :
    (topBit b set &&& 0x80 != 0) = set := by
  rw [and_80_ne, topBit_toNat]
  cases set <;> simp
  omega

theorem low_topBit (h : b.toNat < 128) (set : Bool) : topBit b set &&& 0x7F = b := by
  apply UInt8.toNat_inj.mp
  rw [toNat_and_7f, topBit_toNat]
  split <;> omega

end Bits

section Header

variable {h : MessageHeader} {n : UInt16} {last : Bool} {body : Bytes}

theorem blockNumber_lt (b : Block) : b.blockNumber.toNat < 32768 := by
  rw [Block.blockNumber, toNat_and_7fff]
  omega

theorem blockNumber_buildHeader (hn : n.toNat < 32768) :
    (Block.mk (buildHeader h n last) body).blockNumber = n :=
  field_topBit hn last

theorem eBit_buildHeader (hn : n.toNat < 32768) :
    (Block.mk (buildHeader h n last) body).eBit = last :=
  flag_topBit (by rw [toNat_high]; omega) last

theorem messageHeader_buildHeader (hd : h.deviceID ≤ 0x7FFF) (hs : h.stream ≤ 0x7F) :
    (Block.mk (buildHeader h n last) body).messageHeader = h := by
  have hd : h.deviceID.toNat < 32768 := Nat.lt_succ_of_le hd
  have hs : h.stream.toNat < 128 := Nat.lt_succ_of_le hs
  have hs' : h.stream &&& 0x7F = h.stream := by
    apply UInt8.toNat_inj.mp
    rw [toNat_and_7f]
    omega
  have hb : (h.deviceID >>> 8).toUInt8.toNat < 128 := by rw [toNat_high]; omega
  rcases h with ⟨_, _, _, _, _, _⟩
  simp only [Block.messageHeader, Block.deviceID, Block.rBit, Block.stream, Block.function,
    Block.waitBit, Block.systemBytes, buildHeader, Header.systemBytes, hs'] at *
  rw [field_topBit hd, flag_topBit hb, low_topBit hs, flag_topBit hs]

end Header

section Codec

variable {b : Block}

theorem nat_checksum (x : UInt16) : UInt16.ofNat (nat [(x >>> 8).toUInt8, x.toUInt8]) = x := by
  apply UInt16.toNat_inj.mp
  have := x.toNat_lt
  simp [nat, Nat.shiftRight_eq_div_pow]
  omega

theorem copyHeader_bytes (h : Header) (bs : Bytes) : copyHeader (h.bytes ++ bs) = h :=
  rfl

theorem parseBlock_appendTo (hb : b.body.length ≤ maxBlockBodySize) :
    ∃ lengthByte rest, b.appendTo [] = lengthByte :: rest ∧ parseBlock lengthByte rest = .ok b := by
  simp only [maxBlockBodySize] at hb
  let cs := checksum (b.header.bytes ++ b.body)
  refine ⟨UInt8.ofNat (blockHeaderSize + b.body.length),
    b.header.bytes ++ b.body ++ [(cs >>> 8).toUInt8, cs.toUInt8], by simp [Block.appendTo, cs], ?_⟩
  have hn : (UInt8.ofNat (blockHeaderSize + b.body.length)).toNat = 10 + b.body.length := by
    simp only [blockHeaderSize, UInt8.toNat_ofNat']
    omega
  have hl : (b.header.bytes ++ b.body).length = 10 + b.body.length := by
    simp [Header.bytes]
    omega
  simp only [parseBlock, hn, List.take_left' hl, List.drop_left' hl, nat_checksum]
  rw [if_neg (by simp [minBlockLength, maxBlockLength, blockHeaderSize, maxBlockBodySize]; omega),
    if_neg (by rw [List.length_append, hl]; simp [checksumSize]), if_neg (by simp [cs])]
  rw [List.append_assoc, copyHeader_bytes, List.drop_left' (by rfl)]

end Codec

end Secs1
