import GoSecs.Secs1.Theorems.Reception

open BigEndian Secs2 Hsms List

namespace Secs1

def Config.peer (cfg : Config) : Config :=
  { cfg with isEquip := !cfg.isEquip }

-- A block through the line: its length byte, then the bytes that it announces.
def transfer (b : Block) : Except Err Block :=
  match b.appendTo [] with
  | [] => parseBlock 0 []
  | lengthByte :: rest => parseBlock lengthByte rest

def deviceHeader (cfg : Config) (h : Header) : Header :=
  { h.putSessionID cfg.deviceID with h4 := 0, h5 := 0 }

section Split

variable {body : Bytes} {h : MessageHeader} {fuel off : Nat} {n : UInt16}

theorem splitLoop_spec (hd : h.deviceID ≤ 0x7FFF) (hs : h.stream ≤ 0x7F)
    (hm : body.length ≤ maxBlockBodySize * maxBlockNumber) (hf : body.length ≤ off + fuel)
    (ho : off < body.length) (hn : n.toNat * maxBlockBodySize = off + maxBlockBodySize) :
    ∃ init last, splitLoop body h fuel off n = init ++ [last] ∧ Numbered h n.toNat init ∧
      last.blockNumber.toNat = n.toNat + init.length ∧ last.eBit = true ∧
      last.messageHeader = h ∧ (init ++ [last]).flatMap (·.body) = body.drop off ∧
      ∀ b ∈ init ++ [last], b.body.length ≤ maxBlockBodySize := by
  simp only [maxBlockBodySize, maxBlockNumber] at hm hn
  induction fuel generalizing off n
  case zero => omega
  case succ fuel hi =>
    have hlt : n.toNat < 32768 := by omega
    rw [splitLoop, if_pos ho]
    simp only [maxBlockBodySize]
    by_cases hl : off + 244 < body.length
    case pos =>
      have hmin : min 244 (body.length - off) = 244 := by omega
      have hend : (off + 244 == body.length) = false := by simp; omega
      have hsucc : (n + 1).toNat = n.toNat + 1 := by
        rw [UInt16.toNat_add]
        simp
        omega
      have hn' : (n + 1).toNat * 244 = off + 244 + 244 := by rw [hsucc, Nat.add_mul, hn]
      obtain ⟨init, last, heq, hnum, hln, hle, hlh, hb, hlen⟩ :=
        hi (by omega) hl hn'
      simp only [hmin, hend, heq]
      refine ⟨_ :: init, last, rfl, numbered_cons.mpr ⟨⟨?_, ?_, ?_⟩, hsucc ▸ hnum⟩, ?_, hle, hlh,
        ?_, ?_⟩
      · rw [blockNumber_buildHeader hlt]
      · exact eBit_buildHeader hlt
      · exact messageHeader_buildHeader hd hs
      · rw [hln, hsucc, length_cons]
        omega
      · rw [cons_append, flatMap_cons, hb, ← drop_drop, take_append_drop]
      · intro b hb
        rcases mem_cons.mp hb with rfl | hb
        · simp
        · exact hlen b hb
    case neg =>
      have hmin : min 244 (body.length - off) = body.length - off := by omega
      have hend : (off + (body.length - off) == body.length) = true := by simp; omega
      have hrest : splitLoop body h fuel (off + 244) (n + 1) = [] := by
        cases fuel
        case zero => rfl
        case succ => rw [splitLoop, if_neg hl]
      simp only [hmin, hend, hrest]
      refine ⟨[], _, rfl, numbered_nil, ?_, eBit_buildHeader hlt,
        messageHeader_buildHeader hd hs, ?_, ?_⟩
      · rw [blockNumber_buildHeader hlt]
        rfl
      · simp
      · simp
        omega

theorem splitBody_spec (hd : h.deviceID ≤ 0x7FFF) (hs : h.stream ≤ 0x7F)
    (hm : body.length ≤ maxBlockBodySize * maxBlockNumber) :
    ∃ init last, splitBody body h = .ok (init ++ [last]) ∧ Numbered h 1 init ∧
      last.blockNumber.toNat = init.length + 1 ∧ last.eBit = true ∧ last.messageHeader = h ∧
      (init ++ [last]).flatMap (·.body) = body ∧
      ∀ b ∈ init ++ [last], b.body.length ≤ maxBlockBodySize := by
  rw [splitBody, if_neg (UInt16.not_lt.mpr hd), if_neg (UInt8.not_lt.mpr hs),
    if_neg (Nat.not_lt.mpr hm)]
  split
  case isTrue hz =>
    refine ⟨[], _, rfl, numbered_nil, ?_, eBit_buildHeader (by decide),
      messageHeader_buildHeader hd hs, ?_, by simp⟩
    · rw [blockNumber_buildHeader (by decide)]
      rfl
    · simp [length_eq_zero_iff.mp hz]
  case isFalse hz =>
    have ⟨init, last, heq, hnum, hln, hrest⟩ := splitLoop_spec (n := 1) hd hs hm
      (show body.length ≤ 0 + body.length by omega) (Nat.pos_of_ne_zero hz) rfl
    refine ⟨init, last, by rw [heq], hnum, ?_, hrest⟩
    rw [hln, Nat.add_comm]
    rfl

end Split

theorem transfer_ok {b : Block} (hb : b.body.length ≤ maxBlockBodySize) : transfer b = .ok b := by
  have ⟨_, _, ha, hp⟩ := parseBlock_appendTo hb
  rw [transfer, ha]
  exact hp

theorem mapM_transfer {bs : List Block} (hb : ∀ b ∈ bs, b.body.length ≤ maxBlockBodySize) :
    bs.mapM transfer = .ok bs := by
  induction bs
  case nil => rfl
  case cons b bs hi =>
    rw [mapM_cons, transfer_ok (hb b (by simp)), hi fun c hc => hb c (by simp [hc])]
    rfl

theorem topBit_split (b : UInt8) : topBit (b &&& 0x7F) (b &&& 0x80 != 0) = b := by
  revert b
  refine forall_byte ?_
  decide +kernel

theorem frameHeader_eq (cfg : Config) (header : Header) :
    frameHeader (sendHeader cfg header) = deviceHeader cfg header := by
  have hlow : header.h2 &&& 0x7F &&& 0x7F = header.h2 &&& 0x7F := by
    rw [UInt8.and_assoc]
    rfl
  have hhi : (cfg.deviceID >>> 8).toUInt8 = UInt8.ofNat (cfg.deviceID.toNat / 256) := by
    apply UInt8.toNat_inj.mp
    have := cfg.deviceID.toNat_lt
    rw [toNat_high, UInt8.toNat_ofNat']
    omega
  have hlo : cfg.deviceID.toUInt8 = UInt8.ofNat cfg.deviceID.toNat := by
    apply UInt8.toNat_inj.mp
    simp
  simp only [frameHeader, sendHeader, deviceHeader, Header.putSessionID, Header.systemBytes, hlow,
    topBit_split, hhi, hlo]

-- To the other end and back into a frame: nothing is lost but the session, PType and SType.
theorem split_roundtrip (cfg : Config) (header : Header) (bufs : List Bytes) :
    (bufs.flatten.length ≤ maxBlockBodySize * maxBlockNumber →
      ∃ blocks, splitFrame cfg header bufs = .ok blocks ∧ blocks.mapM transfer = .ok blocks ∧
        ∀ xs : List Arrival, xs.map (·.block) = blocks →
          (xs.IsChain fun x y => y.now - x.now ≤ y.t4) →
          frames (Assembler.newAssembler.feed cfg.peer xs).2 =
            [(deviceHeader cfg header).bytes ++ bufs.flatten]) ∧
    (maxBlockBodySize * maxBlockNumber < bufs.flatten.length →
      ∃ err, splitFrame cfg header bufs = .error err) := by
  have hs : header.h2 &&& 0x7F ≤ 0x7F := by
    show (header.h2 &&& 0x7F).toNat ≤ 127
    rw [toNat_and_7f]
    omega
  constructor
  case left =>
    intro hm
    have ⟨init, last, hok, hnum, hln, hle, hlh, hb, hlen⟩ := splitBody_spec
      (h := sendHeader cfg header) cfg.deviceID_le hs hm
    refine ⟨_, hok, mapM_transfer hlen, fun xs hxs ht => ?_⟩
    let m : Message cfg.peer := {
      header     := sendHeader cfg header
      init       := init
      last       := last
      deviceID   := rfl
      rBit       := by simp [Config.peer, sendHeader]
      numbered   := hnum
      lastHeader := hlh
      eBit       := hle
      number     := .inl hln
    }
    have := Assembler.feed_once (m := m) (a := .newAssembler) (Assembler.whole_of_not_open rfl) hxs
      ht nofun
    rw [this, Message.frame, Message.blocks, hb, frameHeader_eq]
  case right =>
    intro hm
    have hd : ¬(sendHeader cfg header).deviceID > 0x7FFF := UInt16.not_lt.mpr cfg.deviceID_le
    have hs : ¬(sendHeader cfg header).stream > 0x7F := UInt8.not_lt.mpr hs
    rw [splitFrame, splitBody, if_neg hd, if_neg hs, if_pos hm]
    exact ⟨_, rfl⟩

end Secs1
