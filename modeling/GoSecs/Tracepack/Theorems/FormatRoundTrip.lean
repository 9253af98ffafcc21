import GoSecs.Tracepack.Theorems.Format

open Run LittleEndian

namespace Tracepack.Format

theorem field_intBytes (w : Nat) (v : Int) (bs : Bytes) :
    field (intBytes w v ++ bs) 0 w = nat (intBytes w v) := by
  simp [field]

variable {n : Nat}

theorem mod_of_le_maxU64 (h : n ≤ maxU64) : n % 256 ^ 8 = n := by
  simp only [maxU64] at h
  exact Nat.mod_eq_of_lt (by omega)

theorem mod_of_lt_u32 (h : n < 2 ^ 32) : n % 256 ^ 4 = n :=
  Nat.mod_eq_of_lt (by omega)

theorem mod_of_lt_u16 (h : n < 2 ^ 16) : n % 256 ^ 2 = n :=
  Nat.mod_eq_of_lt (by omega)

theorem checkLimitFields_eq_ok {limit : Nat} {layout : String} {fs : List LimitField}
    (h : ∀ f ∈ fs, f.value ≤ limit) : checkLimitFields limit layout fs = .ok () := by
  induction fs
  case nil => rfl
  case cons f fs hi =>
    have ⟨hf, hfs⟩ := List.forall_mem_cons.mp h
    simp [checkLimitFields, checkLimit, failIf, Nat.not_lt.mpr hf, hi hfs]

structure F2Entry.InRange (e : F2Entry) : Prop where
  offset : e.offset ≤ maxU64
  onDiskLen : e.onDiskLen ≤ envelopeLen + maxLen32
  uncompressedLen : e.uncompressedLen ≤ maxLen32
  recordCount : e.recordCount < 2 ^ 32
  bodyCRC : e.bodyCRC < 2 ^ 32
  firstSeq : e.firstSeq ≤ maxU64
  lastSeq : e.lastSeq ≤ maxU64
  tsMin : LittleEndian.InRange 8 e.tsMin
  tsMax : LittleEndian.InRange 8 e.tsMax
  epochMin : e.epochMin < 2 ^ 32
  epochMax : e.epochMax < 2 ^ 32
  summaryOffset : e.summaryOffset ≤ maxU64
  summaryLen : e.summaryLen < 2 ^ 32
  headerLen : Format.recordHeaderLen ≤ e.recordHeaderLen
  headerLen_lt : e.recordHeaderLen < 2 ^ 16

variable {e : F2Entry}

theorem F2Entry.InRange.validate (h : e.InRange) : e.validate = .ok () := by
  have hu : checkU64Fields "footer block index entry"
      [⟨"offset", 0, e.offset⟩, ⟨"first_seq", 24, e.firstSeq⟩, ⟨"last_seq", 32, e.lastSeq⟩,
       ⟨"summary_offset", 64, e.summaryOffset⟩] = .ok () :=
    checkLimitFields_eq_ok (by simp [h.offset, h.firstSeq, h.lastSeq, h.summaryOffset])
  have hn : checkLen32Fields "footer block index entry"
      [⟨"uncompressed_len", 12, e.uncompressedLen⟩] = .ok () :=
    checkLimitFields_eq_ok (by simp [h.uncompressedLen])
  simp [F2Entry.validate, checkRecordHeaderLen, failIf, Nat.not_lt.mpr h.headerLen,
    Nat.not_lt.mpr h.onDiskLen, hu, hn]

@[simp]
theorem length_appendF2Entry (e : F2Entry) : (appendF2Entry e).length = f2EntryLen := by
  simp [appendF2Entry, f2EntryLen]

theorem unmarshalF2Entry_append (h : e.InRange) (rest : Bytes) :
    unmarshalF2Entry (appendF2Entry e ++ rest) f2EntryLen = .ok e := by
  have hlen : (appendF2Entry e ++ rest).length = 80 + rest.length := by
    rw [List.length_append, length_appendF2Entry, f2EntryLen]
  have hshort : checkShort "footer block index entry" (appendF2Entry e ++ rest) f2EntryLen =
      .ok () := by
    simp only [checkShort, failIf]
    rw [if_neg (by rw [hlen, f2EntryLen]; omega)]
    rfl
  rw [unmarshalF2Entry, failIf, if_neg (Nat.lt_irrefl _), hshort]
  simp (disch := omega) only [pure_eq, bind_ok, uint_eq, int64_eq]
  simp (disch := simp) only [appendF2Entry, List.append_assoc, field_append, length_bytes,
    length_intBytes, Nat.reduceSub, field_bytes, field_intBytes]
  have hd : e.onDiskLen < 2 ^ 32 := h.onDiskLen.trans_lt (by decide)
  have hu : e.uncompressedLen < 2 ^ 32 := h.uncompressedLen.trans_lt (by decide)
  rw [mod_of_le_maxU64 h.offset, mod_of_lt_u32 hd, mod_of_lt_u32 hu, mod_of_lt_u32 h.recordCount,
    mod_of_lt_u32 h.bodyCRC, mod_of_le_maxU64 h.firstSeq, mod_of_le_maxU64 h.lastSeq,
    signed_intBytes h.tsMin, signed_intBytes h.tsMax, mod_of_lt_u32 h.epochMin,
    mod_of_lt_u32 h.epochMax, mod_of_le_maxU64 h.summaryOffset, mod_of_lt_u32 h.summaryLen,
    mod_of_lt_u16 h.headerLen_lt, h.validate]
  rfl

structure FooterPrologue.InRange (p : FooterPrologue) : Prop where
  version : p.footerLayoutVersion = Format.footerLayoutVersion
  flags : p.flags < 4
  blockCount : p.blockCount < 2 ^ 32
  entryLen : Format.f2EntryLen ≤ p.f2EntryLen
  entryLen_lt : p.f2EntryLen < 2 ^ 32
  extractionVersion : p.extractionVersion < 2 ^ 32
  offsets : p.f2Offset ≤ maxU64 ∧ p.f3Offset ≤ maxU64 ∧ p.f4Offset ≤ maxU64 ∧
    p.f5Offset ≤ maxU64
  lens : p.f3Len ≤ maxU64 ∧ p.f4Len ≤ maxU64 ∧ p.f5Len ≤ maxU64

variable {p : FooterPrologue}

theorem FooterPrologue.InRange.validate (h : p.InRange) :
    p.validate = .ok () := by
  obtain ⟨h2, h3, h4, h5⟩ := h.offsets
  obtain ⟨hl3, hl4, hl5⟩ := h.lens
  have hu : checkU64Fields "footer prologue"
      [⟨"f2_offset", 16, p.f2Offset⟩, ⟨"f3_offset", 24, p.f3Offset⟩, ⟨"f3_len", 32, p.f3Len⟩,
       ⟨"f4_offset", 40, p.f4Offset⟩, ⟨"f4_len", 48, p.f4Len⟩, ⟨"f5_offset", 56, p.f5Offset⟩,
       ⟨"f5_len", 64, p.f5Len⟩] = .ok () :=
    checkLimitFields_eq_ok (by simp [h2, h3, h4, h5, hl3, hl4, hl5])
  simp [FooterPrologue.validate, checkVersion, failIf, h.version, Nat.not_lt.mpr h.entryLen, hu]

@[simp]
theorem length_appendFooterPrologue (p : FooterPrologue) :
    (appendFooterPrologue p).length = footerPrologueLen := by
  simp [appendFooterPrologue, footerPrologueLen]

theorem flags_and (h : n < 4) : n &&& (footerFlagF3Present ||| footerFlagF4Present) = n := by
  interval_cases n <;> rfl

theorem unmarshalFooterPrologue_append (h : p.InRange) (rest : Bytes) :
    unmarshalFooterPrologue (appendFooterPrologue p ++ rest) = .ok p := by
  have hlen : (appendFooterPrologue p ++ rest).length = 72 + rest.length := by
    rw [List.length_append, length_appendFooterPrologue, footerPrologueLen]
  have hshort : checkShort "footer prologue" (appendFooterPrologue p ++ rest) footerPrologueLen =
      .ok () := by
    simp only [checkShort, failIf]
    rw [if_neg (by rw [hlen, footerPrologueLen]; omega)]
    rfl
  rw [unmarshalFooterPrologue, hshort]
  simp (disch := omega) only [pure_eq, bind_ok, uint_eq]
  simp (disch := simp) only [appendFooterPrologue, List.append_assoc, field_append, length_bytes,
    Nat.reduceSub, field_bytes]
  obtain ⟨ho2, ho3, ho4, ho5⟩ := h.offsets
  obtain ⟨hl3, hl4, hl5⟩ := h.lens
  have hv : p.footerLayoutVersion < 2 ^ 16 := by rw [h.version]; decide
  have hf : p.flags < 2 ^ 16 := h.flags.trans (by decide)
  rw [mod_of_lt_u16 hv, flags_and h.flags, mod_of_lt_u16 hf, mod_of_lt_u32 h.blockCount,
    mod_of_lt_u32 h.entryLen_lt, mod_of_lt_u32 h.extractionVersion, mod_of_le_maxU64 ho2,
    mod_of_le_maxU64 ho3, mod_of_le_maxU64 hl3, mod_of_le_maxU64 ho4, mod_of_le_maxU64 hl4,
    mod_of_le_maxU64 ho5, mod_of_le_maxU64 hl5, h.validate]
  rfl

end Tracepack.Format
