import GoSecs.Tracepack.Footer

open List

namespace Tracepack

open Tlv

theorem wrapping_eq {v : Int} (h : 0 ≤ v) (h' : v < 2 ^ 64) : wrapping v = exact v := by
  rw [wrapping, exact, Int.emod_eq_of_lt h h']

theorem wrapping_add {a b : Nat} (h : a + b < 2 ^ 64) : wrapping (a + b) = exact (a + b) :=
  wrapping_eq (by omega) (by omega)

@[simp]
theorem exact_add (a b : Nat) : exact (a + b) = a + b :=
  Int.toNat_natCast (a + b)

@[simp]
theorem exact_add_one (a : Nat) : exact (a + 1) = a + 1 :=
  Int.toNat_natCast (a + 1)

def bound (k : Nat) : Nat := k * 2 ^ 32

theorem bound_add {a b k : Nat} (ha : a ≤ bound k) (hb : b < 2 ^ 32) : a + b ≤ bound (k + 1) := by
  simp only [bound] at *
  omega

theorem bound_add_lt {a b k : Nat} (ha : a ≤ bound k) (hb : b < 2 ^ 32) (hk : k < 2 ^ 32) :
    a + b < 2 ^ 64 := by
  simp only [bound] at *
  omega

theorem bound_succ (k : Nat) : bound k ≤ bound (k + 1) := by
  simp only [bound]
  omega

variable {k : Nat} {es : List EpochSummary}

theorem addCounts_bound {sum bs : List Nat} (hs : ∀ a ∈ sum, a ≤ bound k) (hb : ∀ b ∈ bs, b < 2 ^ 32) :
    ∀ c ∈ addCounts exact sum bs, c ≤ bound (k + 1) := by
  induction bs generalizing sum
  case nil =>
    rw [addCounts]
    exact fun c hc => (hs c hc).trans (bound_succ k)
  case cons b bs hi =>
    have ⟨hb, hbs⟩ := forall_mem_cons.mp hb
    cases sum
    case nil =>
      rw [addCounts, forall_mem_cons]
      refine ⟨?_, hi (by simp) hbs⟩
      have := bound_add (Nat.zero_le (bound k)) hb
      simpa [exact] using this
    case cons a sum =>
      have ⟨ha, hs⟩ := forall_mem_cons.mp hs
      rw [addCounts, forall_mem_cons, exact_add]
      exact ⟨bound_add ha hb, hi hs hbs⟩

theorem addCounts_wrapping {sum bs : List Nat} (hk : k < 2 ^ 32) (hs : ∀ a ∈ sum, a ≤ bound k)
    (hb : ∀ b ∈ bs, b < 2 ^ 32) : addCounts wrapping sum bs = addCounts exact sum bs := by
  induction bs generalizing sum
  case nil => simp only [addCounts]
  case cons b bs hi =>
    have ⟨hb, hbs⟩ := forall_mem_cons.mp hb
    cases sum
    case nil =>
      simp only [addCounts]
      rw [hi (by simp) hbs, wrapping_eq (by omega) (by omega)]
    case cons a sum =>
      have ⟨ha, hs⟩ := forall_mem_cons.mp hs
      simp only [addCounts]
      rw [hi hs hbs, wrapping_add (bound_add_lt ha hb hk)]

theorem unionSeqRanges_wrapping {ranges add : List SeqRange} (hr : ∀ r ∈ ranges, r.last ≤ maxU64)
    (ha : ∀ r ∈ add, r.last ≤ maxU64) :
    unionSeqRanges wrapping ranges add = unionSeqRanges exact ranges add ∧
      ∀ r ∈ unionSeqRanges exact ranges add, r.last ≤ maxU64 := by
  induction add generalizing ranges
  case nil => exact ⟨by simp only [unionSeqRanges], by simpa only [unionSeqRanges] using hr⟩
  case cons r add hi =>
    have ⟨hl, ha⟩ := forall_mem_cons.mp ha
    have happ : ∀ q ∈ ranges ++ [r], q.last ≤ maxU64 := by
      simpa [or_imp, forall_and] using ⟨hr, hl⟩
    simp only [unionSeqRanges]
    cases hg : ranges.getLast?
    case none => exact hi happ ha
    case some l =>
      have hll := hr l (mem_of_getLast? hg)
      have hw : wrapping (l.last + 1) = exact (l.last + 1) := by
        refine wrapping_eq (by omega) ?_
        simp only [maxU64] at hll
        omega
      simp only [hw]
      split
      case isTrue =>
        refine hi (fun q hq => ?_) ha
        rcases mem_append.mp hq with hq | hq
        · exact hr q (mem_of_mem_dropLast hq)
        · rw [mem_singleton.mp hq]
          exact hl
      case isFalse => exact hi happ ha

def epochTotal (es : List EpochSummary) : Nat :=
  (es.map (·.recordCount)).sum

theorem recordCount_le_epochTotal {e : EpochSummary} (h : e ∈ es) :
    e.recordCount ≤ epochTotal es :=
  single_le_sum (by simp) _ (mem_map_of_mem h)

theorem epochTotal_modify {f : EpochSummary → EpochSummary} {n : Nat}
    (hf : ∀ e ∈ es, (f e).recordCount ≤ e.recordCount + n) (i : Nat) :
    epochTotal (es.modify i f) ≤ epochTotal es + n := by
  induction es generalizing i
  case nil => simp [epochTotal]
  case cons e es hi =>
    have ⟨he, hes⟩ := forall_mem_cons.mp hf
    cases i
    case zero =>
      simp only [epochTotal, modify_zero_cons, map_cons, sum_cons] at *
      omega
    case succ i =>
      have := hi hes i
      simp only [epochTotal, modify_succ_cons, map_cons, sum_cons] at *
      omega

theorem modify_congr {f g : α → α} {as : List α} (h : ∀ a ∈ as, f a = g a) (i : Nat) :
    as.modify i f = as.modify i g := by
  induction as generalizing i
  case nil => simp
  case cons a as hi =>
    have ⟨ha, has⟩ := forall_mem_cons.mp h
    cases i
    case zero   => simp [ha]
    case succ i => simp [hi has i]

variable {epochs es : List EpochSummary} {index : List (Nat × Nat)} {e : EpochSummary}

theorem mergeEpoch_wrapping (h : epochTotal epochs + e.recordCount < 2 ^ 64) :
    mergeEpoch wrapping epochs index e = mergeEpoch exact epochs index e := by
  simp only [mergeEpoch]
  split
  · rfl
  · congr 1
    refine modify_congr (fun m hm => ?_) _
    have := recordCount_le_epochTotal hm
    rw [wrapping_add (by omega)]

theorem mergeEpoch_total :
    epochTotal (mergeEpoch exact epochs index e).1 ≤ epochTotal epochs + e.recordCount := by
  simp only [mergeEpoch]
  split
  · simp [epochTotal]
  · refine epochTotal_modify (fun m _ => ?_) _
    simp

theorem mergeEpochs_wrapping (h : epochTotal epochs + epochTotal es < 2 ^ 64) :
    mergeEpochs wrapping (epochs, index) es = mergeEpochs exact (epochs, index) es ∧
      epochTotal (mergeEpochs exact (epochs, index) es).1 ≤ epochTotal epochs + epochTotal es := by
  simp only [mergeEpochs]
  induction es generalizing epochs index
  case nil => exact ⟨rfl, Nat.le_add_right ..⟩
  case cons e es hi =>
    have ht := @mergeEpoch_total epochs index e
    have hs : epochTotal (e :: es) = e.recordCount + epochTotal es := rfl
    have ⟨he, hb⟩ := @hi (mergeEpoch exact epochs index e).1 (mergeEpoch exact epochs index e).2
      (by omega)
    rw [Prod.eta] at he hb
    simp only [foldl_cons]
    rw [mergeEpoch_wrapping (by omega)]
    exact ⟨he, by omega⟩

-- The numbers of a block that the statistics add up are below 2^32.
structure BlockSummary.Bounded (b : BlockSummary) : Prop where
  recordCount : b.recordCount < 2 ^ 32
  uncompressedLen : b.uncompressedLen < 2 ^ 32
  kindCounts : ∀ c ∈ b.kindCounts, c < 2 ^ 32
  dirCounts : ∀ c ∈ b.dirCounts, c < 2 ^ 32
  decodeStatusCounts : ∀ c ∈ b.decodeStatusCounts, c < 2 ^ 32
  seqRanges : ∀ r ∈ b.seqRanges, r.last ≤ maxU64
  epochs : epochTotal b.epochs < 2 ^ 32

structure PackStats.Bounded (k : Nat) (st : PackStats) : Prop where
  recordCount : st.recordCount ≤ bound k
  contentBytes : st.contentBytes ≤ bound k
  kindCounts : ∀ c ∈ st.kindCounts, c ≤ bound k
  dirCounts : ∀ c ∈ st.dirCounts, c ≤ bound k
  decodeStatusCounts : ∀ c ∈ st.decodeStatusCounts, c ≤ bound k
  seqRanges : ∀ r ∈ st.seqRanges, r.last ≤ maxU64
  epochs : epochTotal st.epochs ≤ bound k

variable {st : PackStats} {b : BlockSummary} {bs : List BlockSummary}

theorem addBlock_bounded (hk : k < 2 ^ 32) (hs : st.Bounded k) (hb : b.Bounded) :
    (addBlock exact (st, index) b).1.Bounded (k + 1) where
  recordCount := by simpa [addBlock] using bound_add hs.recordCount hb.recordCount
  contentBytes := by simpa [addBlock] using bound_add hs.contentBytes hb.uncompressedLen
  kindCounts := addCounts_bound hs.kindCounts hb.kindCounts
  dirCounts := addCounts_bound hs.dirCounts hb.dirCounts
  decodeStatusCounts := addCounts_bound hs.decodeStatusCounts hb.decodeStatusCounts
  seqRanges := (unionSeqRanges_wrapping hs.seqRanges hb.seqRanges).2
  epochs :=
    (mergeEpochs_wrapping (bound_add_lt hs.epochs hb.epochs hk)).2.trans
      (bound_add hs.epochs hb.epochs)

theorem addBlock_wrapping (hk : k < 2 ^ 32) (hs : st.Bounded k) (hb : b.Bounded) :
    addBlock wrapping (st, index) b = addBlock exact (st, index) b := by
  simp only [addBlock]
  rw [wrapping_add (bound_add_lt hs.recordCount hb.recordCount hk),
    wrapping_add (bound_add_lt hs.contentBytes hb.uncompressedLen hk),
    addCounts_wrapping hk hs.kindCounts hb.kindCounts,
    addCounts_wrapping hk hs.dirCounts hb.dirCounts,
    addCounts_wrapping hk hs.decodeStatusCounts hb.decodeStatusCounts,
    (unionSeqRanges_wrapping hs.seqRanges hb.seqRanges).1,
    (mergeEpochs_wrapping (bound_add_lt hs.epochs hb.epochs hk)).1]

theorem foldl_addBlock_wrapping (hl : k + bs.length ≤ 2 ^ 32)
    (hs : st.Bounded k) (hb : ∀ b ∈ bs, b.Bounded) :
    bs.foldl (addBlock wrapping) (st, index) = bs.foldl (addBlock exact) (st, index) := by
  induction bs generalizing k st index
  case nil => rfl
  case cons b bs hi =>
    have ⟨hb, hbs⟩ := forall_mem_cons.mp hb
    simp only [length_cons] at hl
    simp only [foldl_cons]
    rw [addBlock_wrapping (by omega) hs hb]
    exact hi (by omega) (addBlock_bounded (by omega) hs hb) hbs

-- No sum of the statistics wraps.
theorem aggregate_wrapping (hl : bs.length ≤ 2 ^ 32)
    (hb : ∀ b ∈ bs, b.Bounded) : aggregate wrapping bs = aggregate exact bs := by
  simp only [aggregate]
  rw [foldl_addBlock_wrapping (k := 0) (by omega) ?_ hb]
  constructor <;> split <;> simp [bound, epochTotal]

end Tracepack
