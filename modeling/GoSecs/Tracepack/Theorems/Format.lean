import GoSecs.Tracepack.Format

open Run LittleEndian

namespace Tracepack.Format

variable {b : Bytes} {lo hi : Nat}

theorem uint_eq (hl : lo ≤ hi) (hh : hi ≤ b.length) : uint b lo hi = .ok (field b lo (hi - lo)) := by
  rw [uint, slice_eq hl hh]
  rfl

theorem int64_eq (hl : lo ≤ hi) (hh : hi ≤ b.length) :
    int64 b lo hi = .ok (signed 8 (field b lo (hi - lo))) := by
  rw [int64, uint_eq hl hh]
  rfl

theorem checkShort_spec (layout : String) (b : Bytes) (n : Nat) :
    Spec (checkShort layout b n) fun _ => n ≤ b.length :=
  (Agree.failIf ..).mono fun _ => Nat.le_of_not_lt

theorem checkLimitFields_spec (limit : Nat) (layout : String) (fs : List LimitField) :
    Spec (checkLimitFields limit layout fs) fun _ => ∀ f ∈ fs, f.value ≤ limit := by
  induction fs
  case nil => exact .pure (by simp)
  case cons f fs hi =>
    refine (Agree.failIf ..).mapErr.bind fun _ hf => ?_
    refine hi.mono fun _ hfs => ?_
    simp only [List.mem_cons, forall_eq_or_imp]
    exact ⟨Nat.le_of_not_lt hf, hfs⟩

structure FooterPrologue.Ok (p : FooterPrologue) : Prop where
  version    : p.footerLayoutVersion = Format.footerLayoutVersion
  blockCount : p.blockCount < 2 ^ 32
  f2EntryLen : p.f2EntryLen < 2 ^ 32
  entryLen   : Format.f2EntryLen ≤ p.f2EntryLen

theorem FooterPrologue.validate_spec (p : FooterPrologue) :
    Spec p.validate fun _ =>
      p.footerLayoutVersion = Format.footerLayoutVersion ∧ Format.f2EntryLen ≤ p.f2EntryLen := by
  refine .check fun hv => ?_
  refine .check fun he => ?_
  exact (checkLimitFields_spec ..).mono fun _ _ => ⟨of_not_not hv, Nat.le_of_not_lt he⟩

theorem unmarshalFooterPrologue_spec (b : Bytes) :
    Spec (unmarshalFooterPrologue b) FooterPrologue.Ok := by
  refine (checkShort_spec ..).bind fun _ hl => ?_
  simp only [footerPrologueLen] at hl
  simp (disch := omega) only [uint_eq, bind_ok]
  refine (FooterPrologue.validate_spec _).bind fun _ ⟨hv, he⟩ => ?_
  refine .pure ⟨hv, ?_, ?_, he⟩
  · exact field_lt b 4 4
  · exact field_lt b 8 4

structure F2Entry.Ok (e : F2Entry) : Prop where
  offset : e.offset ≤ maxU64
  onDiskLen : e.onDiskLen < 2 ^ 32
  uncompressedLen : e.uncompressedLen ≤ maxLen32
  recordCount : e.recordCount < 2 ^ 32
  firstSeq : e.firstSeq ≤ maxU64
  lastSeq : e.lastSeq ≤ maxU64
  summaryOffset : e.summaryOffset ≤ maxU64
  summaryLen : e.summaryLen < 2 ^ 32

theorem F2Entry.validate_spec (e : F2Entry) :
    Spec e.validate fun _ =>
      (e.offset ≤ maxU64 ∧ e.firstSeq ≤ maxU64 ∧ e.lastSeq ≤ maxU64 ∧ e.summaryOffset ≤ maxU64) ∧
      e.uncompressedLen ≤ maxLen32 := by
  refine .check fun _ => ?_
  refine (checkLimitFields_spec ..).bind fun _ hu => ?_
  refine .check fun _ => ?_
  refine (checkLimitFields_spec ..).mono fun _ hn => ?_
  simpa using And.intro hu hn

theorem unmarshalF2Entry_spec (b : Bytes) (entryLen : Nat) :
    Spec (unmarshalF2Entry b entryLen) F2Entry.Ok := by
  refine .check fun he => ?_
  refine (checkShort_spec ..).bind fun _ hl => ?_
  simp only [f2EntryLen] at he
  simp (disch := omega) only [uint_eq, int64_eq, bind_ok]
  refine (F2Entry.validate_spec _).bind fun _ ⟨hu, hn⟩ => ?_
  refine .pure ⟨hu.1, ?_, hn, ?_, hu.2.1, hu.2.2.1, hu.2.2.2, ?_⟩
  · exact field_lt b 8 4
  · exact field_lt b 16 4
  · exact field_lt b 72 4

end Tracepack.Format
