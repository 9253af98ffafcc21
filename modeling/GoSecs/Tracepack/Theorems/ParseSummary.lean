import GoSecs.Tracepack.Theorems.CheckSummary

open Run

namespace Tracepack

open Tlv
open Format (F2Entry)

theorem epochNumberOf_spec (n : Entry) : Spec (epochNumberOf n) fun _ => True := by
  refine n.u64_spec.bind fun _ _ => ?_
  exact .check fun _ => .pure trivial

theorem setEpoch_spec {out : EpochSummary} (h : out.recordCount ≤ maxU64) (n : Entry) :
    Spec (setEpoch out n) (·.recordCount ≤ maxU64) := by
  unfold setEpoch
  refine .store (epochNumberOf_spec n) (fun _ _ => h) ?_
  refine .store n.u64_spec (fun _ hv => hv) ?_
  refine .store n.u64_spec (fun _ _ => h) ?_
  refine .store n.u64_spec (fun _ _ => h) ?_
  refine .store n.i64_spec (fun _ _ => h) ?_
  refine .store n.i64_spec (fun _ _ => h) ?_
  refine .store n.u64_spec (fun _ _ => h) ?_
  exact .pure h

theorem epochOf_spec (e : Entry) : Spec (epochOf e) (·.recordCount ≤ maxU64) :=
  e.nested_spec.bind fun _ _ => .foldlM (Nat.zero_le _) fun _ n _ h => setEpoch_spec h n

theorem setBoundary_spec (out : BoundarySummary) (n : Entry) :
    Spec (setBoundary out n) fun _ => True := by
  unfold setBoundary
  refine .store n.u64_spec (fun _ _ => trivial) ?_
  refine .store n.u8_spec (fun _ _ => trivial) ?_
  refine .store n.i64_spec (fun _ _ => trivial) ?_
  refine .store (epochNumberOf_spec n) (fun _ _ => trivial) ?_
  refine .store n.i64_spec (fun _ _ => trivial) ?_
  refine .store n.i64_spec (fun _ _ => trivial) ?_
  exact .pure trivial

theorem boundaryOf_spec (e : Entry) : Spec (boundaryOf e) fun _ => True :=
  e.nested_spec.bind fun _ _ => .foldlM trivial fun out n _ _ => setBoundary_spec out n

theorem qualityUnionOf_spec (e : Entry) : Spec (qualityUnionOf e) fun _ => True := by
  refine e.u64_spec.bind fun _ _ => ?_
  exact .check fun _ => .pure trivial

theorem decodeValidated_spec (b : Bytes) (reg : Registry) :
    Spec (decodeValidated b reg) fun _ => True :=
  (decode_spec b).bind fun _ _ => (validateAt_spec ..).bind fun _ _ => .pure trivial

namespace BlockSummary

variable {s : BlockSummary} {e : F2Entry}

def Indexes (e : F2Entry) (s : BlockSummary) : Prop :=
  f2EntryOf s e.summaryOffset e.summaryLen = e

theorem forall_mem_concat {p : α → Prop} {as : List α} {a : α} (h : ∀ x ∈ as, p x) (ha : p a) :
    ∀ x ∈ as ++ [a], p x := by
  simpa [or_imp, forall_and] using And.intro h ha

theorem setF3_spec (hi : s.Indexes e) (h : s.Decoded) (en : Entry) :
    Spec (setF3 s en) fun t => t.Indexes e ∧ t.Decoded := by
  unfold setF3
  refine .store (decodeU32Array_spec _) (fun _ hc => ?_) ?_
  · exact ⟨hi, { h with kindCounts := hc }⟩
  refine .store (decodeU32Array_spec _) (fun _ hc => ?_) ?_
  · exact ⟨hi, { h with dirCounts := hc }⟩
  refine .store (decodeU32Array_spec _) (fun _ hc => ?_) ?_
  · exact ⟨hi, { h with decodeStatusCounts := hc }⟩
  refine .store (qualityUnionOf_spec en) (fun _ _ => ?_) ?_
  · exact ⟨hi, { h with }⟩
  refine .store (epochOf_spec en) (fun _ he => ?_) ?_
  · exact ⟨hi, { h with epochs := forall_mem_concat h.epochs he }⟩
  refine .store (boundaryOf_spec en) (fun _ _ => ?_) ?_
  · exact ⟨hi, { h with }⟩
  refine .store (decodeSeqRange_spec _) (fun _ hr => ?_) ?_
  · exact ⟨hi, { h with seqRanges := forall_mem_concat h.seqRanges hr.2 }⟩
  exact .pure ⟨hi, h⟩

end BlockSummary

open BlockSummary

theorem parseBlockSummary_agree {e : F2Entry} (he : e.Ok) (hf : e.firstSeq ≤ e.lastSeq) (i : Nat)
    (list : Bytes) :
    Agree (parseBlockSummary wrapping i list e) (parseBlockSummary exact i list e) fun s =>
      s.Indexes e ∧ s.Sound ∧ s.Bounded ∧ Separated none s.seqRanges := by
  have hd : (blockSummaryOf e).Decoded := {
    recordCount := he.recordCount
    uncompressedLen := he.uncompressedLen.trans_lt (by decide)
    firstSeq := hf
    lastSeq := he.lastSeq
    kindCounts := by simp [blockSummaryOf]
    dirCounts := by simp [blockSummaryOf]
    decodeStatusCounts := by simp [blockSummaryOf]
    seqRanges := by simp [blockSummaryOf]
    epochs := by simp [blockSummaryOf] }
  refine (decodeValidated_spec ..).mapErr.bind fun entries _ => ?_
  refine (Agree.foldlM (I := fun s => s.Indexes e ∧ s.Decoded) ⟨rfl, hd⟩
    fun _ en _ hs => (setF3_spec hs.1 hs.2 en).mapErr).bind fun s hs => ?_
  refine (checkSummary_agree hs.2).mapErr.mono fun t ⟨⟨rs, ht⟩, hsound, hb⟩ => ⟨?_, hsound, hb⟩
  rw [ht]
  exact hs.1

end Tracepack
