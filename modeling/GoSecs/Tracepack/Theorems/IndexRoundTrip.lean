import GoSecs.Tracepack.Theorems.Blocks
import GoSecs.Tracepack.Theorems.FormatRoundTrip

open Run List

namespace Tracepack

open Format
open BlockData (place)

variable {s : BlockSummary} {ss : List BlockSummary} {d : BlockData} {ds : List BlockData}
  {so : Nat}

def indexFrom : Nat → List BlockSummary → List F2Entry
  | _,             [] => []
  | summaryOffset, s :: ss =>
    f2EntryOf s summaryOffset (f3ListOf s).length ::
      indexFrom (summaryOffset + (f3ListOf s).length) ss

theorem buildIndex_eq_ok {maxF3ListLen i : Nat} {f3 : Bytes} {r : Bytes × List F2Entry}
    (h : buildIndex maxF3ListLen ss i f3 = .ok r) :
    r = (f3 ++ ss.flatMap f3ListOf, indexFrom f3.length ss) ∧
      ∀ s ∈ ss, (f3ListOf s).length < 2 ^ 32 := by
  induction ss generalizing i f3 r
  case nil =>
    obtain rfl := Except.ok.inj h
    simp [indexFrom]
  case cons s ss hi =>
    simp only [buildIndex, bind_eq_ok, failIf_eq_ok] at h
    obtain ⟨_, hlen, q, hq, hr⟩ := h
    obtain ⟨rfl, hss⟩ := hi hq
    obtain rfl := Except.ok.inj hr
    refine ⟨by simp [indexFrom], forall_mem_cons.mpr ⟨?_, hss⟩⟩
    omega

@[simp]
theorem length_indexFrom (off : Nat) (ss : List BlockSummary) :
    (indexFrom off ss).length = ss.length := by
  induction ss generalizing off
  case nil => rfl
  case cons s ss hi => simp [indexFrom, hi]

@[simp]
theorem length_place (off : Nat) (ds : List BlockData) : (place off ds).length = ds.length := by
  induction ds generalizing off
  case nil => rfl
  case cons d ds hi => simp [place, hi]

theorem le_stop (off : Nat) (ds : List BlockData) : off ≤ BlockData.stop off ds := by
  induction ds generalizing off
  case nil => exact le_rfl
  case cons d ds hi => exact (Nat.le_add_right _ _).trans (hi _)

theorem length_flatMap_appendF2Entry (es : List F2Entry) :
    (es.flatMap appendF2Entry).length = es.length * f2EntryLen := by
  induction es
  case nil => simp
  case cons e es hi =>
    rw [flatMap_cons, length_append, length_appendF2Entry, hi, length_cons]
    ring

theorem length_appendF3_pos (s : BlockSummary) : 0 < (appendF3 s).length := by
  simp [appendF3, f3Entries, Tlv.appendEntry]

namespace BlockData.Ok

variable (h : d.Ok) (hs : (d.rows.map (·.header.seq)).Pairwise (· < ·))
include h hs

theorem f2Entry_inRange {offset len : Nat} (ho : offset ≤ maxU64) (hso : so ≤ maxU64)
    (hl : len < 2 ^ 32) : (f2EntryOf (d.summary offset) so len).InRange := by
  obtain ⟨⟨f, hf, hff⟩, ⟨l, hl', hll⟩, ⟨a, ha, hat⟩, ⟨b, hb, hbt⟩, ⟨x, hx, hxe⟩, ⟨y, hy, hye⟩⟩ :=
    h.exists_rows hs offset
  exact {
    offset := ho
    onDiskLen := h.onDiskLen.2
    uncompressedLen := h.uncompressedLen
    recordCount := (h.summarizes hs offset).recordCount.trans_lt h.length_lt
    bodyCRC := h.bodyCRC
    firstSeq := hff.trans_le (h.inRange f hf).seq
    lastSeq := hll.trans_le (h.inRange l hl').seq
    tsMin := show LittleEndian.InRange 8 (d.summary offset).tsMin from
      hat ▸ (h.inRange a ha).ts
    tsMax := show LittleEndian.InRange 8 (d.summary offset).tsMax from
      hbt ▸ (h.inRange b hb).ts
    epochMin := hxe.trans_lt (h.inRange x hx).epoch
    epochMax := hye.trans_lt (h.inRange y hy).epoch
    summaryOffset := hso
    summaryLen := hl
    headerLen := h.headerLen.1
    headerLen_lt := h.headerLen.2 }

theorem checkBlockEntry (offset : Nat) {len f3Len : Nat} (hl : 0 < len) (hf : so + len ≤ f3Len) :
    checkBlockEntry (f2EntryOf (d.summary offset) so len) f3Len = .ok () := by
  have hm := h.summarizes hs offset
  obtain ⟨⟨f, hf', hff⟩, -, ⟨a, ha, hat⟩, ⟨b, hb, hbt⟩, ⟨x, hx, hxe⟩, -⟩ := h.exists_rows hs offset
  have hcount : (d.summary offset).recordCount ≠ 0 := by
    rw [hm.recordCount]
    exact length_eq_zero_iff.not.mpr h.ne_nil
  have hseq : (d.summary offset).firstSeq ≤ (d.summary offset).lastSeq :=
    hff.trans_le (hm.le_lastSeq (h.rows hs) hf')
  have hts : (d.summary offset).tsMin ≤ (d.summary offset).tsMax :=
    hat.trans_le (le_of_max? hm.tsMax (mem_map_of_mem ha))
  have hepoch : (d.summary offset).epochMin ≤ (d.summary offset).epochMax :=
    hxe.trans_le (le_of_max? hm.epochMax (mem_map_of_mem hx))
  have hhour : hourOf (d.summary offset).tsMin = hourOf (d.summary offset).tsMax := by
    rw [hat, hbt]
    exact h.hour a ha b hb
  have hf3 : ¬(f3Len < so ∨ f3Len - so < len) := by omega
  have hdisk : ¬(d.summary offset).onDiskLen < envelopeLen := Nat.not_lt.mpr h.onDiskLen.1
  simp [Tracepack.checkBlockEntry, f2EntryOf, failIf, hdisk, hcount, Nat.not_lt.mpr hseq,
    Int.not_lt.mpr hts, hhour, Nat.not_lt.mpr hepoch, hl.ne', hf3]

end BlockData.Ok

-- What the blocks have to meet, after a block that ends with the seq `prev`.
structure Placed (off : Nat) (prev : Option Nat) (ds : List BlockData) : Prop where
  ok : ∀ d ∈ ds, d.Ok
  ascending : ((ds.flatMap (·.rows)).map (·.header.seq)).Pairwise (· < ·)
  prev : ∀ last ∈ prev, ∀ r ∈ ds.flatMap (·.rows), last < r.header.seq
  stop : BlockData.stop off ds ≤ maxU64

namespace Placed

variable {off : Nat} {prev : Option Nat} {pre : Bytes}

theorem head (h : Placed off prev (d :: ds)) :
    d.Ok ∧ (d.rows.map (·.header.seq)).Pairwise (· < ·) := by
  have hs := h.ascending
  rw [flatMap_cons, map_append, pairwise_append] at hs
  exact ⟨h.ok d mem_cons_self, hs.1⟩

theorem tail (h : Placed off prev (d :: ds)) :
    Placed (off + d.onDiskLen) (some (d.summary off).lastSeq) ds where
  ok := fun x hx => h.ok x (mem_cons_of_mem _ hx)
  ascending := by
    have hs := h.ascending
    rw [flatMap_cons, map_append, pairwise_append] at hs
    exact hs.2.1
  prev := by
    obtain ⟨hd, hds⟩ := h.head
    obtain ⟨-, ⟨l, hl, hll⟩, -⟩ := hd.exists_rows hds off
    have hs := h.ascending
    rw [flatMap_cons, map_append, pairwise_append] at hs
    intro last hlast r hr
    rw [← Option.some.inj hlast, hll]
    exact hs.2.2 _ (mem_map_of_mem hl) _ (mem_map_of_mem hr)
  stop := h.stop

theorem parseEntries (h : Placed off prev ds) {f3Len i : Nat}
    (hp : pre.length = i * f2EntryLen) (hl : ∀ s ∈ place off ds, (f3ListOf s).length < 2 ^ 32)
    (hf : so + ((place off ds).flatMap f3ListOf).length ≤ f3Len) (hu : f3Len ≤ maxU64) :
    parseEntries exact (pre ++ (indexFrom so (place off ds)).flatMap appendF2Entry) f2EntryLen f3Len
      ds.length i off prev = .ok (indexFrom so (place off ds), BlockData.stop off ds) := by
  induction ds generalizing off prev so i pre
  case nil => rfl
  case cons d ds hi =>
    obtain ⟨hd, hds⟩ := h.head
    have ⟨hlen, hl⟩ := forall_mem_cons.mp hl
    rw [place, flatMap_cons, length_append] at hf
    have hpos : 0 < (f3ListOf (d.summary off)).length := by
      rw [f3ListOf, (hd.summarizes hds off).verbatimF3]
      exact length_appendF3_pos _
    have hoff : off ≤ maxU64 := (le_stop ..).trans h.stop
    have hin := hd.f2Entry_inRange hds hoff (by omega : so ≤ maxU64) hlen
    have hcheck := hd.checkBlockEntry hds off hpos (by omega : so + _ ≤ f3Len)
    have hprev : ¬(prev.any
        ((f2EntryOf (d.summary off) so (f3ListOf (d.summary off)).length).firstSeq ≤ ·)) = true := by
      obtain ⟨⟨f, hf, hff⟩, -⟩ := hd.exists_rows hds off
      cases prev
      case none => simp
      case some last =>
        rw [Option.any_some, decide_eq_true_eq, Nat.not_le, f2EntryOf, hff]
        exact h.prev last rfl f (mem_flatMap.mpr ⟨d, mem_cons_self, hf⟩)
    have hp' (e : F2Entry) : (pre ++ appendF2Entry e).length = (i + 1) * f2EntryLen := by
      rw [length_append, hp, length_appendF2Entry]
      ring
    have hrec := hi h.tail (hp' (f2EntryOf (d.summary off) so (f3ListOf (d.summary off)).length)) hl
      (by omega : so + (f3ListOf (d.summary off)).length + _ ≤ f3Len)
    rw [append_assoc] at hrec
    have hnext : exact (off + d.onDiskLen) = off + d.onDiskLen := exact_add ..
    rw [length_cons, Tracepack.parseEntries, place, indexFrom, flatMap_cons,
      slice_append_right hp, bind_ok, unmarshalF2Entry_append hin, mapErr_ok, bind_ok, failIf,
      if_neg (by simp [f2EntryOf, BlockData.summary]), pure_eq, bind_ok, hcheck, mapErr_ok, bind_ok,
      failIf, if_neg hprev, pure_eq, bind_ok]
    simp only [f2EntryOf, BlockData.summary, hnext] at hrec ⊢
    rw [hrec]
    rfl

theorem parseSummaries (h : Placed off prev ds) {i listsLen footerOffset maxF3 : Nat}
    (hp : pre.length = so) (hm : listsLen + ((place off ds).flatMap f3ListOf).length ≤ maxF3) :
    parseSummaries exact (pre ++ (place off ds).flatMap f3ListOf) footerOffset maxF3
      (indexFrom so (place off ds)) i listsLen = .ok ((place off ds).map BlockSummary.sorted) := by
  induction ds generalizing off prev so i listsLen pre
  case nil => rfl
  case cons d ds hi =>
    obtain ⟨hd, hds⟩ := h.head
    simp only [place, flatMap_cons, length_append] at hm ⊢
    have hlens : ¬maxF3 < listsLen + (f3ListOf (d.summary off)).length := by omega
    have hp' : (pre ++ f3ListOf (d.summary off)).length = so + (f3ListOf (d.summary off)).length := by
      rw [length_append, hp]
    have hrec := hi h.tail (i := i + 1) hp'
      (by omega : listsLen + (f3ListOf (d.summary off)).length + _ ≤ maxF3)
    rw [append_assoc] at hrec
    have hparse := (hd.summarizes hds off).parseBlockSummary (hd.rows hds) rfl i so
      (f3ListOf (d.summary off)).length
    simp only [indexFrom, Tracepack.parseSummaries, exact_add, f2EntryOf] at hparse ⊢
    rw [failIf, if_neg hlens, pure_eq, bind_ok, slice_middle hp rfl, bind_ok, hparse, bind_ok, hrec]
    rfl

end Placed
end Tracepack
