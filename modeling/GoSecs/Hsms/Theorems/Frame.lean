import GoSecs.Hsms.Message
import GoSecs.Secs2.Theorems.Roundtrip

open BigEndian Secs2 Strconv Ieee754 List

namespace Hsms

-- The control messages that the package's factories return.
inductive ControlMessage.Made : ControlMessage → Prop
  | selectReq (id sb)   : Made (newSelectReq id sb)
  | deselectReq (id sb) : Made (newDeselectReq id sb)
  | linktestReq (sb)    : Made (newLinktestReq sb)
  | separateReq (id sb) : Made (newSeparateReq id sb)
  | selectRsp {req status m} : newSelectRsp req status = .ok m → Made m
  | deselectRsp {req status m} : newDeselectRsp req status = .ok m → Made m
  | linktestRsp {req m} : newLinktestRsp req = .ok m → Made m
  | rejectReq {msg reason m} : newRejectReq msg reason = .ok m → Made m
  | rejectReqRaw {id p s sb reason m} : newRejectReqRaw id p s sb reason = .ok m → Made m

-- What a program can do with a message before it serialises it again.
inductive Op
  | withSessionID   (id : UInt16)
  | withSystemBytes (sb : SysBytes)
  | force

def Message.apply (m : Message) : Op → Message
  | .withSessionID id => m.withSessionID id
  | .withSystemBytes sb => m.withSystemBytes sb
  | .force => m.force

def Message.run (m : Message) (ops : List Op) : Message :=
  ops.foldl apply m

section Prefix

variable {n : Nat} {h : Header} {body b : Bytes} {msg : Message}

theorem length_header (h : Header) : h.bytes.length = 10 :=
  rfl

theorem nat_intBytes_four (h : n ≤ maxMessageSize) : nat (intBytes 4 n) = n := by
  have hlt : n < 2 ^ 32 := by simp only [maxMessageSize, maxByteSize] at h; omega
  rw [intBytes, nat_bytes, ← Int.natCast_emod, Int.toNat_natCast, Nat.mod_mod,
    Nat.mod_eq_of_lt (by simpa using hlt)]

theorem decodeHSMSMessage_frame (hn : 10 + body.length ≤ maxMessageSize) :
    decodeHSMSMessage (intBytes 4 (10 + body.length : Nat) ++ h.bytes ++ body) =
      decodeOwnedFrame (h.bytes ++ body) := by
  have hp : (intBytes 4 (10 + body.length : Nat)).length = 4 := length_intBytes ..
  have hl : (intBytes 4 (10 + body.length : Nat) ++ (h.bytes ++ body)).length =
      4 + (10 + body.length) := by
    rw [length_append, hp, length_append, length_header]
  rw [append_assoc, decodeHSMSMessage, take_left' hp, drop_left' hp, hl,
    nat_intBytes_four hn, if_neg (by omega), if_neg (by omega), if_neg (by omega),
    if_neg (by omega)]

theorem decodeHSMSMessage_ok (hb : decodeHSMSMessage b = .ok msg) :
    b = intBytes 4 (b.length - 4 : Nat) ++ b.drop 4 ∧ decodeOwnedFrame (b.drop 4) = .ok msg := by
  simp only [decodeHSMSMessage] at hb
  split at hb
  case isTrue => cases hb
  case isFalse h₁ =>
    split at hb
    case isTrue => cases hb
    case isFalse h₂ =>
      split at hb
      case isTrue => cases hb
      case isFalse h₃ =>
        split at hb
        case isTrue => cases hb
        case isFalse h₄ =>
          refine ⟨?_, hb⟩
          have hl : (b.take 4).length = 4 := by simp; omega
          have hlt := nat_lt (b.take 4)
          have hr := bytes_nat (b.take 4)
          rw [hl] at hlt hr
          have hn : b.length - 4 = nat (b.take 4) := by omega
          rw [hn, intBytes, ← Int.natCast_emod, Int.toNat_natCast, Nat.mod_eq_of_lt hlt, hr,
            take_append_drop]

theorem decodeOwnedFrame_bytes (h : Header) (body : Bytes) :
    decodeOwnedFrame (h.bytes ++ body) = decodeBody h body :=
  rfl

theorem decodeBody_data (h₄ : h.h4 = 0) (h₅ : h.h5 = MsgType.data.code) :
    decodeBody h body = .ok (.data { header := h, body := .raw body, dec := none }) := by
  simp [decodeBody, h₄, h₅, MsgType.ofSType_code]

theorem decodeBody_control {t : MsgType} (h₄ : h.h4 = 0) (h₅ : h.h5 = t.code) (hd : t ≠ .data)
    (hu : t ≠ .undefined) :
    decodeBody h [] = .ok (.control { header := h, replyExpected := false }) := by
  simp only [decodeBody, h₄, h₅, MsgType.ofSType_code]
  cases t <;> first | contradiction | rfl

theorem decodeBody_ok (hd : decodeBody h body = .ok msg) :
    msg = .data { header := h, body := .raw body, dec := none } ∨
      (body = [] ∧ msg = .control { header := h, replyExpected := false }) := by
  simp only [decodeBody] at hd
  split at hd
  case isTrue => cases hd
  case isFalse =>
    split at hd
    case h_1 => cases hd; exact .inl rfl
    case h_2 => cases hd
    case h_3 =>
      split at hd
      case isTrue => cases hd
      case isFalse hz =>
        cases hd
        exact .inr ⟨eq_nil_of_length_eq_zero (not_not.mp hz), rfl⟩

theorem decodeOwnedFrame_ok (hd : decodeOwnedFrame b = .ok msg) :
    ∃ h body, b = h.bytes ++ body ∧ decodeBody h body = .ok msg := by
  simp only [decodeOwnedFrame] at hd
  split at hd
  case h_1 => exact ⟨_, _, rfl, hd⟩
  case h_2 => cases hd

end Prefix

section Restored

variable {m m' : Message} {b : Bytes} {ops : List Op}

inductive Message.Kin : Message → Message → Prop
  | data {m m' : DataMessage} :
    m'.body = m.body →
    m'.header.h2 = m.header.h2 → m'.header.h3 = m.header.h3 →
    m'.header.h4 = m.header.h4 → m'.header.h5 = m.header.h5 →
    Kin (.data m) (.data m')
  | control {m m' : ControlMessage} :
    m'.header.h2 = m.header.h2 → m'.header.h3 = m.header.h3 →
    m'.header.h4 = m.header.h4 → m'.header.h5 = m.header.h5 →
    Kin (.control m) (.control m')

theorem Message.Kin.refl : (m : Message) → Kin m m
  | .data _    => .data rfl rfl rfl rfl rfl
  | .control _ => .control rfl rfl rfl rfl

theorem Message.Kin.apply (h : Kin m m') (op : Op) : Kin m (m'.apply op) := by
  cases h
  case data h₁ h₂ h₃ h₄ h₅ => cases op <;> exact .data h₁ h₂ h₃ h₄ h₅
  case control h₂ h₃ h₄ h₅ => cases op <;> exact .control h₂ h₃ h₄ h₅

theorem Message.Kin.run (h : Kin m m') (ops : List Op) : Kin m (m'.run ops) := by
  induction ops generalizing m'
  case nil => exact h
  case cons op ops hi => exact hi (h.apply op)

theorem sessionID_inj {h h' : Header} (he : h.sessionID = h'.sessionID) :
    h.h0 = h'.h0 ∧ h.h1 = h'.h1 := by
  have := congrArg UInt16.toNat he
  have := h.h0.toNat_lt
  have := h.h1.toNat_lt
  have := h'.h0.toNat_lt
  have := h'.h1.toNat_lt
  simp only [Header.sessionID, UInt16.toNat_ofNat', nat_cons, nat_nil, length_cons,
    length_nil] at *
  constructor <;> apply UInt8.toNat_inj.mp <;> omega

theorem header_ext {h h' : Header} (hi : h'.sessionID = h.sessionID)
    (hs : h'.systemBytes = h.systemBytes) (h₂ : h'.h2 = h.h2) (h₃ : h'.h3 = h.h3)
    (h₄ : h'.h4 = h.h4) (h₅ : h'.h5 = h.h5) : h' = h := by
  have ⟨h₀, h₁⟩ := sessionID_inj hi
  cases h
  cases h'
  simp_all [Header.systemBytes]

theorem Message.Kin.toBytes_eq (h : Kin m m') (hi : m'.header.sessionID = m.header.sessionID)
    (hs : m'.header.systemBytes = m.header.systemBytes) : m'.toBytes = m.toBytes := by
  cases h
  case data m m' hb h₂ h₃ h₄ h₅ =>
    have hh : m'.header = m.header := header_ext hi hs h₂ h₃ h₄ h₅
    simp only [Message.toBytes, DataMessage.toBytes, hb, hh]
  case control m m' h₂ h₃ h₄ h₅ =>
    have hh : m'.header = m.header := header_ext hi hs h₂ h₃ h₄ h₅
    simp only [Message.toBytes, ControlMessage.toBytes, hh]

theorem toBytes_of_decoded (h : decodeHSMSMessage b = .ok m) : m.toBytes = b := by
  have ⟨hb, hd⟩ := decodeHSMSMessage_ok h
  have ⟨hdr, body, hs, hd⟩ := decodeOwnedFrame_ok hd
  have hl := congrArg List.length hs
  rw [length_drop, length_append, length_header] at hl
  rw [hb, hs, hl]
  rcases decodeBody_ok hd with rfl | ⟨rfl, rfl⟩
  case inl =>
    simp [Message.toBytes, DataMessage.toBytes, Body.appendTo, Body.len]
  case inr => rfl

end Restored

section Sent

theorem newDataMessage_ok {stream function : UInt8} {reply : Bool} {id : UInt16} {sb : SysBytes}
    {item : Option Item} {m : DataMessage}
    (h : newDataMessage stream function reply id sb item = .ok m) :
    (item.getD newEmptyItem).error = none ∧ m.header.h4 = 0 ∧ m.header.h5 = 0 ∧
      m.body = .tree (item.getD newEmptyItem) ∧
      m.dec = some { item := some (item.getD newEmptyItem), err := none, trailing := 0 } := by
  simp only [newDataMessage] at h
  split at h
  case isTrue => cases h
  case isFalse =>
    split at h
    case h_1 => cases h
    case h_2 he =>
      split at h
      case isTrue => cases h
      case isFalse =>
        cases h
        exact ⟨he, rfl, rfl, rfl, rfl⟩

variable {m : ControlMessage}

theorem ControlMessage.Made.stype (h : m.Made) :
    m.header.h4 = 0 ∧ ∃ t : MsgType, m.header.h5 = t.code ∧ t ≠ .data ∧ t ≠ .undefined := by
  have hrsp {req : ControlMessage} {t t' : MsgType} {st : UInt8} {text : String}
      (h : response req t t' st text = .ok m) : m.header.h4 = 0 ∧ m.header.h5 = t'.code := by
    simp only [response] at h
    split at h <;> cases h
    exact ⟨rfl, rfl⟩
  have hraw {id : UInt16} {p s : UInt8} {sb : SysBytes} {r : UInt8}
      (h : newRejectReqRaw id p s sb r = .ok m) :
      m.header.h4 = 0 ∧ ∃ t : MsgType, m.header.h5 = t.code ∧ t ≠ .data ∧ t ≠ .undefined := by
    simp only [newRejectReqRaw] at h
    split at h <;> cases h
    exact ⟨rfl, .rejectReq, rfl, by decide, by decide⟩
  cases h
  case selectReq => exact ⟨rfl, .selectReq, rfl, by decide, by decide⟩
  case deselectReq => exact ⟨rfl, .deselectReq, rfl, by decide, by decide⟩
  case linktestReq => exact ⟨rfl, .linktestReq, rfl, by decide, by decide⟩
  case separateReq => exact ⟨rfl, .separateReq, rfl, by decide, by decide⟩
  case selectRsp h => exact ⟨(hrsp h).1, .selectRsp, (hrsp h).2, by decide, by decide⟩
  case deselectRsp h => exact ⟨(hrsp h).1, .deselectRsp, (hrsp h).2, by decide, by decide⟩
  case linktestRsp h =>
    simp only [newLinktestRsp] at h
    split at h <;> cases h
    exact ⟨rfl, .linktestRsp, rfl, by decide, by decide⟩
  case rejectReq h =>
    simp only [newRejectReq] at h
    split at h <;> exact hraw h
  case rejectReqRaw h => exact hraw h

theorem ControlMessage.Made.decode_toBytes (h : m.Made) :
    decodeHSMSMessage m.toBytes = .ok (.control { header := m.header, replyExpected := false }) := by
  have ⟨h₄, t, h₅, hd, hu⟩ := h.stype
  have hf := @decodeHSMSMessage_frame m.header [] (by decide)
  rw [decodeOwnedFrame_bytes, decodeBody_control h₄ h₅ hd hu, append_nil] at hf
  exact hf

variable {x : Item}

theorem decode_toBytes {m : DataMessage} (hb : m.body = .tree x) (h₄ : m.header.h4 = 0)
    (h₅ : m.header.h5 = 0) (hl : x.encodedLen = x.toBytes.length)
    (hn : 10 + m.bodyLen ≤ maxMessageSize) :
    decodeHSMSMessage m.toBytes =
      .ok (.data { header := m.header, body := .raw x.toBytes, dec := none }) := by
  simp only [DataMessage.bodyLen, hb, Body.len, hl] at hn
  have hf := @decodeHSMSMessage_frame m.header x.toBytes (by exact_mod_cast hn)
  rw [decodeOwnedFrame_bytes, decodeBody_data h₄ h₅, Nat.cast_add] at hf
  rw [DataMessage.toBytes, hb, Body.appendTo, Body.len, hl]
  exact hf

theorem item_of_raw (h : Header) {bs : Bytes} {y : Item} (hl : bs ≠ [])
    (hy : decodeFirstItem bs = .ok (y, 0)) :
    DataMessage.item { header := h, body := .raw bs, dec := none } = (some y, none) ∧
      DataMessage.trailingBytes { header := h, body := .raw bs, dec := none } = 0 := by
  simp [DataMessage.item, DataMessage.trailingBytes, DataMessage.decoded, DataMessage.decode,
    Body.len, Body.appendTo, hl, hy]

theorem decoded_item (hx : x.Valid ∨ x = .empty) (hd : x.depth ≤ maxListDepth) (h : Header) :
    DataMessage.trailingBytes { header := h, body := .raw x.toBytes, dec := none } = 0 ∧
      ∃ y, DataMessage.item { header := h, body := .raw x.toBytes, dec := none } = (some y, none) ∧
        x.equal y := by
  rcases hx with hx | rfl
  case inl =>
    have ⟨y, hy, he⟩ := hx.decodeFirstItem hd []
    rw [append_nil] at hy
    have ⟨_, hden, _⟩ := hx.denotes
    have ⟨h₁, h₂⟩ := item_of_raw h hden.ne_nil hy
    exact ⟨h₂, y, h₁, he⟩
  case inr => exact ⟨rfl, .empty, rfl, rfl⟩

theorem encodedLen_eq (hx : x.Valid ∨ x = .empty) : x.encodedLen = x.toBytes.length := by
  rcases hx with hx | rfl
  case inl => exact hx.encodedLen_eq
  case inr => rfl

end Sent

-- Messages survive the wire if the other side can decode their item, and whatever is accepted is
-- serialised to the same bytes again, also after changes that restore its session ID and system
-- bytes.
theorem frame_roundtrip (parseFloat : Bytes → Except NumErr F64) :
    (∀ stream function reply id sb item m,
      newDataMessage stream function reply id sb item = .ok m →
      (∀ x, item = some x → Built parseFloat x ∧ x.depth ≤ maxListDepth ∧ x.Small) →
      10 + m.bodyLen ≤ maxMessageSize →
      ∃ m', decodeHSMSMessage m.toBytes = .ok (.data m') ∧ m'.header = m.header ∧
        m'.bodyBytes = m.bodyBytes ∧ m'.trailingBytes = 0 ∧
        ∃ x y, m.item = (some x, none) ∧ m'.item = (some y, none) ∧ x.equal y) ∧
    (∀ m : ControlMessage, m.Made →
      ∃ m', decodeHSMSMessage m.toBytes = .ok (.control m') ∧ m'.header = m.header) ∧
    (∀ b msg ops, decodeHSMSMessage b = .ok msg →
      (msg.run ops).header.sessionID = msg.header.sessionID →
      (msg.run ops).header.systemBytes = msg.header.systemBytes →
      (msg.run ops).toBytes = b) := by
  refine ⟨?_, ?_, ?_⟩
  · intro stream function reply id sb item m hm hitem hn
    have ⟨he, h₄, h₅, hb, hdec⟩ := newDataMessage_ok hm
    have ⟨hv, hd⟩ : ((item.getD newEmptyItem).Valid ∨ item.getD newEmptyItem = .empty) ∧
        (item.getD newEmptyItem).depth ≤ maxListDepth := by
      cases item
      case none => exact ⟨.inr rfl, Nat.zero_le _⟩
      case some x =>
        have ⟨hbuilt, hdepth, hsmall⟩ := hitem x rfl
        refine ⟨?_, hdepth⟩
        cases hx : x.isEmpty
        case false => exact .inl <| hbuilt.shaped.valid hsmall he hx
        case true  => cases x <;> first | exact .inr rfl | cases hx
    have ⟨ht, y, hy, heq⟩ := decoded_item hv hd m.header
    refine ⟨_, decode_toBytes hb h₄ h₅ (encodedLen_eq hv) hn, rfl, ?_, ht, _, y, ?_, hy, heq⟩
    · simp [DataMessage.bodyBytes, hb, Body.appendTo]
    · simp [DataMessage.item, DataMessage.decoded, hdec]
  · intro m hm
    exact ⟨_, hm.decode_toBytes, rfl⟩
  · intro b msg ops hb hid hsb
    rw [(Message.Kin.refl msg |>.run ops).toBytes_eq hid hsb, toBytes_of_decoded hb]

theorem frame_roundtrip_ascii :
    ∃ m m', newDataMessage 1 1 true 7 ⟨1, 2, 3, 4⟩ (some (newASCIIItem [65])) = .ok m ∧
      decodeHSMSMessage m.toBytes = .ok (.data m') ∧ m'.header = m.header := by
  have hm : newDataMessage 1 1 true 7 ⟨1, 2, 3, 4⟩ (some (newASCIIItem [65])) = .ok _ := rfl
  have ⟨m', hd, hh, _⟩ := (frame_roundtrip fun _ => .error .errSyntax).1 _ _ _ _ _ _ _ hm
    (by rintro x ⟨⟩; exact ⟨.ascii _, Nat.zero_le _, .leaf trivial⟩) (by decide)
  exact ⟨_, m', hm, hd, hh⟩

section Unsendable

def nested : Nat → Item
  | 0 => newListItem []
  | n + 1 => newListItem [some (nested n)]

theorem built_nested (parseFloat : Bytes → Except NumErr F64) (n : Nat) :
    Built parseFloat (nested n) := by
  induction n
  case zero => exact .list (by simp)
  case succ n hi => exact .list (by simpa using hi)

theorem small_nested (n : Nat) : (nested n).Small := by
  induction n
  case zero => exact .list (by simp)
  case succ n hi => exact .list fun v hv => by rwa [mem_singleton.mp hv]

theorem toBytes_wrapped (vs : List Bool) :
    (Item.leaf {} (.boolean { size := 0, scalar := false, values := vs })).toBytes = [37, 0] := by
  have hh : (appendHeaderBytesFC [] .boolean 0).1 = [37, 0] := by decide
  simp [Item.toBytes, Item.appendTo, Leaf.appendTo, Leaf.formatCode, Leaf.lengthField, hh,
    Leaf.payload, Vec.toList]

theorem encodedLen_wrapped (vs : List Bool) :
    (Item.leaf {} (.boolean { size := 0, scalar := false, values := vs })).encodedLen = 2 := by
  simp [Item.encodedLen, Leaf.encodedLen, Leaf.lengthField, headerLen]

theorem exists_wrapped : ∃ vs : List Bool, vs ≠ [] ∧ int32 vs.length = 0 := by
  have ⟨vs, hl⟩ : ∃ vs : List Bool, vs.length = 2 ^ 32 := ⟨.replicate _ true, length_replicate⟩
  refine ⟨vs, ?_, ?_⟩
  · rintro rfl
    cases hl
  · rw [hl, int32]
    decide

end Unsendable

-- Lists that are too deep, sizes that wrap around, and the zero value of an exported item type.
theorem frame_roundtrip_unsendable :
    (∃ x m m', Built (fun _ => .error .errSyntax) x ∧ x.Small ∧
      newDataMessage 1 1 false 0 ⟨0, 0, 0, 0⟩ (some x) = .ok m ∧
      10 + m.bodyLen ≤ maxMessageSize ∧
      decodeHSMSMessage m.toBytes = .ok (.data m') ∧ m'.item.1.isNone) ∧
    (∃ x y m m', Built (fun _ => .error .errSyntax) x ∧ x.depth ≤ maxListDepth ∧
      newDataMessage 1 1 false 0 ⟨0, 0, 0, 0⟩ (some x) = .ok m ∧
      10 + m.bodyLen ≤ maxMessageSize ∧
      decodeHSMSMessage m.toBytes = .ok (.data m') ∧ m'.item = (some y, none) ∧
      x.equal y = false) ∧
    (let x := Item.leaf {} (.int 0 (.unsized []))
     x.error = none ∧ x.depth ≤ maxListDepth ∧ x.Small ∧
      ∃ m, newDataMessage 1 1 false 0 ⟨0, 0, 0, 0⟩ (some x) = .ok m ∧
        10 + m.bodyLen ≤ maxMessageSize ∧ decodeHSMSMessage m.toBytes =
          .error (.wrapped "hsms message length mismatch, expected: 12, actual: 10"
            .invalidHeaderLength)) := by
  refine ⟨?_, ?_, rfl, Nat.zero_le _, .leaf (Nat.two_pow_pos 31), _, rfl, by decide +kernel, ?_⟩
  · have hm : newDataMessage 1 1 false 0 ⟨0, 0, 0, 0⟩ (some (nested 64)) = .ok _ := rfl
    exact ⟨nested 64, _, _, built_nested _ _, small_nested _, hm, by decide +kernel,
      decode_toBytes rfl rfl rfl (by decide +kernel) (by decide +kernel), by decide +kernel⟩
  · have ⟨vs, hne, hlen⟩ := exists_wrapped
    have hm : newDataMessage 1 1 false 0 ⟨0, 0, 0, 0⟩
        (some (.leaf {} (.boolean { size := 0, scalar := false, values := vs }))) = .ok _ := rfl
    have hhd : Secs2.Header .boolean 0 [37, 0] :=
      @Secs2.Header.mk .boolean [0] (by decide) (by decide)
    have hden : Denotes maxListDepth ([37, 0] ++ []) (.leaf { raw := [37, 0] ++ [] } _) :=
      .leaf hhd rfl
    have hy : decodeFirstItem [37, 0] = .ok (.leaf { raw := [37, 0] } (.boolean (.ofValues [])), 0) :=
      decodeFirstItem_complete hden rfl
    refine ⟨_, .leaf { raw := [37, 0] } (.boolean (.ofValues [])), _, _,
      hlen ▸ newBooleanItem_wrapped hlen.le ▸ .boolean _, Nat.zero_le _, hm, ?_,
      decode_toBytes rfl rfl rfl (toBytes_wrapped vs ▸ rfl) ?_, ?_, ?_⟩
    · simp only [DataMessage.bodyLen, Body.len, Option.getD_some, encodedLen_wrapped]
      decide
    · simp only [DataMessage.bodyLen, Body.len, Option.getD_some, encodedLen_wrapped]
      decide
    · rw [Option.getD_some, toBytes_wrapped]
      exact (item_of_raw _ (by simp) hy).1
    · simp [Item.equal, Leaf.equal, Vec.equal, Vec.ofValues, int32, hne]
  · -- The prefix announces two bytes of a body that has none.
    have hb : DataMessage.toBytes ⟨⟨0, 0, 1, 1, 0, 0, 0, 0, 0, 0⟩,
        .tree (.leaf {} (.int 0 (.unsized []))), none⟩ =
          [0, 0, 0, 12, 0, 0, 1, 1, 0, 0, 0, 0, 0, 0] := by decide +kernel
    refine (congrArg decodeHSMSMessage hb).trans ?_
    rw [decodeHSMSMessage, if_neg (by decide), if_neg (by decide), if_neg (by decide),
      if_pos (by decide)]
    rfl

end Hsms
