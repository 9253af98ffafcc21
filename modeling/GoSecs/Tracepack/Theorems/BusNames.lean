import GoSecs.Tracepack.Theorems.Keys

open Run Strings Strconv List

namespace Tracepack

open Format (UUID)

-- The parser takes the texts of the builder and gives back what they are written from.
structure Canonical (build : α → Run Err Bytes) (parse : Bytes → Run Err α) : Prop where
  accepts : ∀ x s, parse s = .ok x ↔ build x = .ok s
  inj : ∀ x y s, build x = .ok s → build y = .ok s → x = y

theorem Canonical.of_iff {build : α → Run Err Bytes} {parse : Bytes → Run Err α}
    (h : ∀ x s, parse s = .ok x ↔ build x = .ok s) : Canonical build parse where
  accepts := h
  inj x y s hx hy := Except.ok.inj (((h x s).mpr hx).symm.trans ((h y s).mpr hy))

-- The seq of a segment stands behind what it shares with the other segments of its capture.
theorem joinKey_segmentComps {pre : Bytes} {p : SegmentKeyParts} :
    joinKey pre (ascii "staging") (segmentComps p) =
      (keyArea pre (ascii "staging") ++ (escapeEquipmentID p.equipment ++ ascii "/" ++
        (uuidString p.capture ++ ascii "/"))) ++
      (pad seqFirstDigits p.seqFirst ++ (ascii "-" ++ (uuidString p.pack ++ keyPackSuffix))) := by
  simp [joinKey, segmentComps, fileName, List.intercalate, ascii]

theorem segmentKey_lt {pre equipment k₁ k₂ : Bytes} {capture pack₁ pack₂ : UUID} {n₁ n₂ : Nat}
    (h₁ : segmentKey pre equipment capture n₁ pack₁ = .ok k₁)
    (h₂ : segmentKey pre equipment capture n₂ pack₂ = .ok k₂) (h : n₁ < n₂) : k₁ < k₂ := by
  have ⟨_, hn₁, hk₁⟩ := segmentKey_iff (p := ⟨equipment, capture, n₁, pack₁⟩).mp h₁
  have ⟨_, hn₂, hk₂⟩ := segmentKey_iff (p := ⟨equipment, capture, n₂, pack₂⟩).mp h₂
  have hl := (length_pad_seqFirst hn₁).trans (length_pad_seqFirst hn₂).symm
  have hpad : pad seqFirstDigits n₁ < pad seqFirstDigits n₂ := by
    rw [lt_iff_decimalValue_lt decimal_pad decimal_pad hl, decimalValue_pad, decimalValue_pad]
    exact h
  rw [hk₁, hk₂, joinKey_segmentComps, joinKey_segmentComps]
  exact append_left_lt (append_lt_append hl hpad)

namespace Bus

variable {s equipment : Bytes} {capture : UUID} {seq : Nat} {c : UInt8}

theorem equipmentToken_iff : equipmentToken equipment = .ok s ↔
    Storable equipment ∧ s = escape isTokenByte equipment := by
  simp [equipmentToken, bind_eq_ok, checkEquipment_iff, Except.ok.injEq, eq_comm (a := s)]

theorem parseEquipmentToken_iff :
    parseEquipmentToken s = .ok equipment ↔ equipmentToken equipment = .ok s := by
  rw [equipmentToken_iff, parseEquipmentToken]
  constructor
  case mp =>
    intro h
    have ⟨e, he, h⟩ := bind_eq_ok.mp h
    have ⟨_, hc, h⟩ := bind_eq_ok.mp h
    cases h
    exact ⟨checkEquipment_iff.mp (mapErr_eq_ok.mp hc), (escape_of_unescape he).symm⟩
  case mpr =>
    rintro ⟨hc, rfl⟩
    refine bind_eq_ok.mpr ⟨_, unescape_escape rfl _, ?_⟩
    exact bind_eq_ok.mpr ⟨(), mapErr_eq_ok.mpr (checkEquipment_iff.mpr hc), rfl⟩

theorem msgID_iff : msgID capture seq = .ok s ↔
    seq ≤ maxSeq ∧ s = uuidString capture ++ (ascii "." ++ formatUint seq) := by
  simp [msgID, bind_eq_ok, Except.ok.injEq, eq_comm (a := s)]

theorem parseMsgID_sound (h : parseMsgID s = .ok (capture, seq)) :
    seq ≤ maxSeq ∧ s = uuidString capture ++ (ascii "." ++ formatUint seq) := by
  obtain ⟨_, hl, h⟩ := bind_eq_ok.mp h
  obtain ⟨id, hid, h⟩ := bind_eq_ok.mp h
  obtain ⟨u, hu, h⟩ := bind_eq_ok.mp h
  obtain ⟨digits, hds, h⟩ := bind_eq_ok.mp h
  simp only at h
  obtain ⟨_, hd, h⟩ := bind_eq_ok.mp h
  obtain ⟨_, hn, h⟩ := bind_eq_ok.mp h
  cases h
  have hl := failIf_eq_ok.mp hl
  have hd := failIf_eq_ok.mp hd
  simp only [not_or, not_and, not_not, not_lt] at hl hd
  have hu := parseKeyUUID_iff.mp (mapErr_eq_ok.mp hu)
  obtain ⟨_, hid⟩ := (slice_eq_ok.mp hid).2
  obtain ⟨_, hds⟩ := (slice_eq_ok.mp hds).2
  rw [take_of_length_le (length_drop ..).le] at hds
  have hlen : uuidStringLen < s.length := by omega
  have hdot := hl.2
  rw [getElem?_eq_getElem hlen, Option.some.injEq] at hdot
  have hs : s = id ++ (ascii "." ++ digits) := by
    calc s = s.take uuidStringLen ++ s.drop uuidStringLen := (take_append_drop ..).symm
      _ = _ := by
        rw [drop_eq_getElem_cons hlen, hdot, hid, hds]
        rfl
  have hvalue := parseUint_ten_iff.mp (Prod.ext rfl hd.1 : parseUint digits 10 64 = (_, none))
  have hform := eq_formatUint hvalue.2.1 (length_pos_iff.mpr hvalue.1) hd.2
  refine ⟨not_lt.mp (failIf_eq_ok.mp hn), ?_⟩
  rw [hu, hs]
  exact congrArg (fun d => id ++ (ascii "." ++ d))
    (hform.trans (congrArg formatUint hvalue.2.2.1))

theorem parseMsgID_msgID (h : seq ≤ maxSeq) :
    parseMsgID (uuidString capture ++ (ascii "." ++ formatUint seq)) = .ok (capture, seq) := by
  have hu := length_uuidString capture
  have hpos := length_pos_iff.mpr (formatUint_ne_nil seq)
  have hlt : seq < 2 ^ effectiveBits 64 := h.trans_lt (by decide)
  refine bind_eq_ok.mpr ⟨(), failIf_eq_ok.mpr ?_, ?_⟩
  · rw [getElem?_append_right hu.le, hu, Nat.sub_self, length_append, length_append]
    simp [ascii]
    omega
  refine bind_eq_ok.mpr ⟨_, slice_middle (a := []) rfl (by omega), ?_⟩
  refine bind_eq_ok.mpr ⟨_, mapErr_eq_ok.mpr (parseKeyUUID_iff.mpr rfl), ?_⟩
  refine bind_eq_ok.mpr ⟨formatUint seq, ?_, ?_⟩
  · rw [← append_assoc]
    refine slice_append_right ?_
    rw [length_append, hu]
    rfl
  simp only [parseUint_formatUint hlt]
  refine bind_eq_ok.mpr ⟨(), failIf_eq_ok.mpr ?_, ?_⟩
  · rintro (h | ⟨hz, hl⟩)
    · exact h rfl
    · rcases Nat.eq_zero_or_pos seq with rfl | hn
      · exact absurd hl (by decide)
      · exact formatUint_head hn.ne' hz
  exact bind_eq_ok.mpr ⟨(), failIf_eq_ok.mpr h.not_gt, rfl⟩

theorem parseMsgID_iff {x : UUID × Nat} : parseMsgID s = .ok x ↔ msgID x.1 x.2 = .ok s := by
  rw [msgID_iff]
  refine ⟨parseMsgID_sound, ?_⟩
  rintro ⟨hn, rfl⟩
  exact parseMsgID_msgID hn

-- A byte that a subject may hold in one of its tokens.
def isSubjectByte (c : UInt8) : Bool :=
  c ≠ '.'.toUInt8 && c ≠ '*'.toUInt8 && c ≠ '>'.toUInt8 && !isSpace c.toNat && c < 0x80

theorem isSubjectByte_of_isTokenByte (h : isTokenByte c) : isSubjectByte c := by
  have hall : ∀ n < 256, isTokenByte (.ofNat n) → isSubjectByte (.ofNat n) := by decide +kernel
  have hc := hall c.toNat c.toNat_lt
  rw [UInt8.ofNat_toNat] at hc
  exact hc h

theorem isSubjectByte_escape (h : c ∈ escape isTokenByte equipment) :
    isSubjectByte c := by
  rcases mem_escape h with h | rfl | h
  case inl => exact isSubjectByte_of_isTokenByte h
  case inr.inl => decide
  case inr.inr => exact all_eq_true.mp (show upperHex.all isSubjectByte from rfl) c h

theorem names_canonical (cal : Calendar) (pre : Bytes) :
    Canonical (fun p => segmentKey pre p.equipment p.capture p.seqFirst p.pack)
      (parseSegmentKey pre) ∧
    Canonical (fun p => archiveKey cal pre p.equipment p.capture p.hour p.pack)
      (parseArchiveKey cal pre) ∧
    Canonical equipmentToken parseEquipmentToken ∧
    Canonical (fun x : UUID × Nat => msgID x.1 x.2) parseMsgID ∧
    (∀ equipment, '/'.toUInt8 ∉ escapeEquipmentID equipment) ∧
    (∀ equipment token, equipmentToken equipment = .ok token → ∀ c ∈ token, isSubjectByte c) ∧
    (∀ equipment capture n₁ n₂ pack₁ pack₂ k₁ k₂,
      segmentKey pre equipment capture n₁ pack₁ = .ok k₁ →
      segmentKey pre equipment capture n₂ pack₂ = .ok k₂ → n₁ < n₂ → k₁ < k₂) := by
  refine ⟨.of_iff fun _ _ => parseSegmentKey_iff, .of_iff fun _ _ => parseArchiveKey_iff,
    .of_iff fun _ _ => parseEquipmentToken_iff, .of_iff fun _ _ => parseMsgID_iff, ?_, ?_, ?_⟩
  · exact fun _ => slash_not_mem_escape
  · intro equipment token h c hc
    have ⟨_, ht⟩ := equipmentToken_iff.mp h
    exact isSubjectByte_escape (ht ▸ hc)
  · exact fun _ _ _ _ _ _ _ _ => segmentKey_lt

theorem names_canonical_leapDay :
    parseArchiveKey gregorian (ascii "p") (ascii ("p/archive/EQ%201/2024/02/29/07/" ++
      "00000000-0000-0000-0000-000000000000-00000000-0000-0000-0000-000000000000.tpk")) =
        .ok ⟨ascii "EQ 1", 474775, .zero, .zero⟩ :=
  ((names_canonical gregorian (ascii "p")).2.1.accepts _ _).mpr (by decide +kernel)

end Bus
end Tracepack
