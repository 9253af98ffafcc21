import GoSecs.Tracepack.Theorems.ParseSummary

open Run List

namespace Tracepack

open Tlv
open Format

variable {f3Len next stop : Nat} {prev : Option Nat} {decoded f2 : Bytes} {pro : FooterPrologue}
  {es : List F2Entry} {footerOffset : Nat}

-- A section that would end past 2^64 is refused whatever its wrapped end.
theorem sections_agree {ss : List (String × Nat × Nat)} {prevEnd : Nat} :
    Agree (sections wrapping decoded ss prevEnd) (sections exact decoded ss prevEnd)
      (List.Forall₂ (fun s sec => sec.length = s.2.2) ss) := by
  induction ss generalizing prevEnd
  case nil => exact .pure .nil
  case cons s ss hi =>
    obtain ⟨name, off, n⟩ := s
    simp only [sections]
    by_cases hc : 2 ^ 64 ≤ off + n
    case pos =>
      simp only [failIf, hc, true_or, if_true]
      exact (Agree.fail (Q := fun _ => False) _).bind fun _ h => h.elim
    case neg =>
      rw [wrapping_add (by omega), exact_add]
      refine .check fun h => ?_
      refine (Agree.slice (by omega) (by omega)).bind fun sec hsec => ?_
      refine hi.bind fun secs hsecs => .pure (.cons ?_ hsecs)
      simp only [hsec, length_take, length_drop]
      omega

theorem locateSections_agree (h : pro.Ok) :
    Agree (locateSections wrapping decoded pro) (locateSections exact decoded pro) fun sec =>
      sec.f2.length = pro.blockCount * pro.f2EntryLen ∧ sec.f3.length = pro.f3Len := by
  have hb := h.blockCount
  have he := h.f2EntryLen
  have hm : pro.blockCount * pro.f2EntryLen < 2 ^ 64 := by
    calc pro.blockCount * pro.f2EntryLen < 2 ^ 32 * 2 ^ 32 := Nat.mul_lt_mul'' hb he
      _ = 2 ^ 64 := by norm_num
  have hw : wrapping (pro.blockCount * pro.f2EntryLen) = pro.blockCount * pro.f2EntryLen := by
    have := wrapping_eq (v := (pro.blockCount * pro.f2EntryLen : Nat)) (by omega) (by omega)
    rw [← Nat.cast_mul, this]
    rfl
  have hx : exact (pro.blockCount * pro.f2EntryLen) = pro.blockCount * pro.f2EntryLen := by
    rw [← Nat.cast_mul]
    rfl
  simp only [locateSections, hw, hx]
  refine sections_agree.bind fun secs hs => ?_
  obtain ⟨_, _, h2, hs2, rfl⟩ := forall₂_cons_left_iff.mp hs
  obtain ⟨_, _, h3, hs3, rfl⟩ := forall₂_cons_left_iff.mp hs2
  obtain ⟨_, _, _, hs4, rfl⟩ := forall₂_cons_left_iff.mp hs3
  obtain ⟨_, _, _, _, rfl⟩ := forall₂_cons_left_iff.mp hs4
  exact .pure ⟨h2, h3⟩

structure EntryOk (f3Len : Nat) (e : F2Entry) : Prop where
  ok : e.Ok
  onDiskLen : 0 < e.onDiskLen
  seqs : e.firstSeq ≤ e.lastSeq
  summary : e.summaryOffset + e.summaryLen ≤ f3Len

theorem checkBlockEntry_spec {e : F2Entry} (h : e.Ok) :
    Spec (checkBlockEntry e f3Len) fun _ => EntryOk f3Len e := by
  refine .check fun hd => ?_
  refine .check fun _ => ?_
  refine .check fun hs => ?_
  refine .check fun _ => ?_
  refine .check fun _ => ?_
  refine .check fun _ => ?_
  refine .check fun _ => ?_
  refine (Agree.failIf ..).mono fun _ hf => ⟨h, ?_, Nat.le_of_not_lt hs, ?_⟩
  · simp only [envelopeLen] at hd
    omega
  · omega

-- The entries follow one another in the file and in seq, from `next` and after `prev`.
def Chained (f3Len : Nat) : Nat → Option Nat → List F2Entry → Nat → Prop
  | next, _,    [],      stop => next = stop
  | next, prev, e :: es, stop =>
    e.offset = next ∧ EntryOk f3Len e ∧ (∀ last ∈ prev, last < e.firstSeq) ∧
      Chained f3Len (next + e.onDiskLen) (some e.lastSeq) es stop

theorem Chained.entryOk (h : Chained f3Len next prev es stop) :
    ∀ e ∈ es, EntryOk f3Len e := by
  induction es generalizing next prev
  case nil => simp
  case cons e es hi =>
    have ⟨_, he, _, hs⟩ := h
    exact forall_mem_cons.mpr ⟨he, hi hs⟩

theorem parseEntries_agree {entryLen n i : Nat} (hl : f2.length = (i + n) * entryLen) :
    Agree (parseEntries wrapping f2 entryLen f3Len n i next prev)
      (parseEntries exact f2 entryLen f3Len n i next prev)
      fun r => r.1.length = n ∧ Chained f3Len next prev r.1 r.2 := by
  induction n generalizing i next prev
  case zero => exact .pure ⟨rfl, rfl⟩
  case succ n hi =>
    have hm : (i + (n + 1)) * entryLen = i * entryLen + (n + 1) * entryLen := by ring
    simp only [parseEntries]
    refine (Agree.slice (by omega) le_rfl).bind fun rest _ => ?_
    refine (unmarshalF2Entry_spec ..).mapErr.bind fun e he => ?_
    refine .check fun ho => ?_
    refine (checkBlockEntry_spec he).mapErr.bind fun _ hc => ?_
    refine .check fun hp => ?_
    have ho' := he.offset
    have hd := he.onDiskLen
    simp only [Format.maxU64] at ho'
    rw [not_not] at ho
    rw [wrapping_add (by omega), exact_add, ho]
    refine (hi (by rw [hl]; ring)).bind fun r ⟨hn, hr⟩ => .pure ⟨by simp [hn], ho, hc, ?_, hr⟩
    intro last hlast
    rw [hlast, Option.any_some, decide_eq_true_eq] at hp
    exact Nat.lt_of_not_le hp

theorem parseBlockIndex_agree {blocksStart : Nat}
    (hl : f2.length = pro.blockCount * pro.f2EntryLen) :
    Agree (parseBlockIndex wrapping f2 pro blocksStart footerOffset)
      (parseBlockIndex exact f2 pro blocksStart footerOffset)
      fun es => es.length = pro.blockCount ∧ Chained pro.f3Len blocksStart none es footerOffset := by
  refine (parseEntries_agree (by simpa using hl)).bind fun r ⟨hn, hr⟩ => ?_
  refine .check fun he => .pure ⟨hn, ?_⟩
  rw [not_not] at he
  exact he ▸ hr

structure Parsed (e : F2Entry) (b : BlockSummary) : Prop where
  indexes : b.Indexes e
  sound   : b.Sound
  bounded : b.Bounded
  apart   : Separated none b.seqRanges

theorem parseSummaries_agree {f3 : Bytes} {maxF3 i listsLen : Nat}
    (hb : listsLen ≤ bound i) (hl : i + es.length ≤ 2 ^ 32) (he : ∀ e ∈ es, EntryOk f3.length e) :
    Agree (parseSummaries wrapping f3 footerOffset maxF3 es i listsLen)
      (parseSummaries exact f3 footerOffset maxF3 es i listsLen) (List.Forall₂ Parsed es) := by
  induction es generalizing i listsLen
  case nil => exact .pure .nil
  case cons e es hi =>
    have ⟨he, hes⟩ := forall_mem_cons.mp he
    have hs := he.ok.summaryLen
    have ho := he.ok.summaryOffset
    have hf := he.summary
    simp only [Format.maxU64] at ho
    simp only [length_cons] at hl
    simp only [parseSummaries]
    rw [wrapping_add (bound_add_lt hb hs (by omega)), exact_add, wrapping_add (by omega), exact_add]
    refine .check fun _ => ?_
    refine (Agree.slice (by omega) hf).bind fun list _ => ?_
    refine (parseBlockSummary_agree he.ok he.seqs i list).bind fun b ⟨h₁, h₂, h₃, h₄⟩ => ?_
    refine (hi (bound_add hb hs) (by omega) hes).bind fun bs hbs => ?_
    exact .pure (.cons ⟨h₁, h₂, h₃, h₄⟩ hbs)

theorem setF5_spec (st : PackStats) (e : Entry) : Spec (setF5 st e) fun _ => True := by
  unfold setF5
  refine .store e.u64_spec (fun _ _ => trivial) ?_
  refine .store (decodeU64Array_spec _) (fun _ _ => trivial) ?_
  refine .store (decodeU64Array_spec _) (fun _ _ => trivial) ?_
  refine .store (decodeU64Array_spec _) (fun _ _ => trivial) ?_
  refine .store e.i64_spec (fun _ _ => trivial) ?_
  refine .store e.i64_spec (fun _ _ => trivial) ?_
  refine .store e.u64_spec (fun _ _ => trivial) ?_
  refine .store (qualityUnionOf_spec e) (fun _ _ => trivial) ?_
  refine .store (decodeSeqRange_spec _) (fun _ _ => trivial) ?_
  refine .store (epochOf_spec e) (fun _ _ => trivial) ?_
  refine .store (boundaryOf_spec e) (fun _ _ => trivial) ?_
  exact .pure trivial

theorem checkPresent_spec (seen tags : List Nat) : Spec (checkPresent seen tags) fun _ => True := by
  induction tags
  case nil => exact .pure trivial
  case cons tag ts hi => exact .check fun _ => hi

theorem checkTimes_spec (seen tags : List Nat) (hasBlocks : Bool) :
    Spec (checkTimes seen hasBlocks tags) fun _ => True := by
  induction tags
  case nil => exact .pure trivial
  case cons tag ts hi => exact .check fun _ => hi

theorem parsePackStats_spec (f5 : Bytes) (hasBlocks : Bool) :
    Spec (parsePackStats f5 hasBlocks) fun _ => True := by
  refine (decodeValidated_spec ..).mapErr.bind fun entries _ => ?_
  refine (Agree.foldlM (I := fun _ => True) trivial
    fun st e _ _ => (setF5_spec st e).mapErr).bind fun st _ => ?_
  refine (checkPresent_spec ..).bind fun _ _ => ?_
  refine (checkTimes_spec ..).bind fun _ _ => ?_
  exact (BlockSummary.checkUniqueEpochs_spec _).mapErr.bind fun _ _ => .pure trivial

end Tracepack
