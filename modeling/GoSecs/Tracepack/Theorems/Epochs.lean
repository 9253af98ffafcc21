import GoSecs.Tracepack.Statistics
import GoSecs.Tracepack.Theorems.Aggregate

open List Function

namespace Tracepack

section Extremes

variable {α : Type} [LinearOrder α] {as bs : List α} {a b : α}

theorem min?_append (ha : as.min? = some a) (hb : bs.min? = some b) :
    (as ++ bs).min? = some (min a b) := by
  rw [min?_eq_some_iff] at *
  refine ⟨?_, fun x hx => ?_⟩
  · rcases min_choice a b with h | h <;> rw [h, mem_append]
    · exact .inl ha.1
    · exact .inr hb.1
  · rcases mem_append.mp hx with hx | hx
    · exact (min_le_left a b).trans (ha.2 x hx)
    · exact (min_le_right a b).trans (hb.2 x hx)

theorem max?_append (ha : as.max? = some a) (hb : bs.max? = some b) :
    (as ++ bs).max? = some (max a b) :=
  min?_append (α := αᵒᵈ) ha hb

theorem min?_append_of_le (h : ∀ a ∈ as, ∀ b ∈ bs, a ≤ b) :
    (as ++ bs).min? = (as.min? <|> bs.min?) := by
  cases ha : as.min?
  case none =>
    rw [min?_eq_none_iff] at ha
    simp [ha]
  case some a =>
    have ha' := min?_eq_some_iff.mp ha
    refine min?_eq_some_iff.mpr ⟨mem_append_left _ ha'.1, fun x hx => ?_⟩
    rcases mem_append.mp hx with hx | hx
    · exact ha'.2 x hx
    · exact h a ha'.1 x hx

end Extremes

namespace EpochSummary

structure Summarizes (e : EpochSummary) (rs : List Row) : Prop where
  recordCount : e.recordCount = rs.length
  seqFirst : (rs.map (·.header.seq)).min? = some e.seqFirst
  seqLast : (rs.map (·.header.seq)).max? = some e.seqLast
  tsMin : (rs.map (·.header.tsUTCNs)).min? = some e.tsMin
  tsMax : (rs.map (·.header.tsUTCNs)).max? = some e.tsMax
  closeSeq : ((rs.filter Row.closes).map (·.header.seq)).min? = e.closeSeq

def merge (m e : EpochSummary) : EpochSummary :=
  { m with
    recordCount := m.recordCount + e.recordCount
    seqFirst := min m.seqFirst e.seqFirst
    seqLast := max m.seqLast e.seqLast
    tsMin := min m.tsMin e.tsMin
    tsMax := max m.tsMax e.tsMax
    closeSeq := m.closeSeq <|> e.closeSeq }

def single (r : Row) : EpochSummary where
  epoch := r.header.epoch
  recordCount := 1
  seqFirst := r.header.seq
  seqLast := r.header.seq
  tsMin := r.header.tsUTCNs
  tsMax := r.header.tsUTCNs
  closeSeq := if r.closes then some r.header.seq else none

variable {m e : EpochSummary} {xs ys : List Row}

theorem Summarizes.ne_nil (h : e.Summarizes xs) : xs ≠ [] := by
  rintro rfl
  simpa using h.seqFirst

theorem Summarizes.merge (hm : m.Summarizes xs) (he : e.Summarizes ys)
    (h : ∀ x ∈ xs, ∀ y ∈ ys, x.header.seq < y.header.seq) : (merge m e).Summarizes (xs ++ ys) where
  recordCount := by simp [EpochSummary.merge, hm.recordCount, he.recordCount]
  seqFirst := by rw [map_append, min?_append hm.seqFirst he.seqFirst]; rfl
  seqLast := by rw [map_append, max?_append hm.seqLast he.seqLast]; rfl
  tsMin := by rw [map_append, min?_append hm.tsMin he.tsMin]; rfl
  tsMax := by rw [map_append, max?_append hm.tsMax he.tsMax]; rfl
  closeSeq := by
    rw [filter_append, map_append, min?_append_of_le, hm.closeSeq, he.closeSeq]
    · rfl
    · intro a ha b hb
      obtain ⟨x, hx, rfl⟩ := mem_map.mp ha
      obtain ⟨y, hy, rfl⟩ := mem_map.mp hb
      exact (h x (mem_of_mem_filter hx) y (mem_of_mem_filter hy)).le

theorem summarizes_single (r : Row) : (single r).Summarizes [r] := by
  constructor
  case closeSeq =>
    by_cases h : r.closes <;> simp [single, h]
  all_goals rfl

theorem Summarizes.eq_direct (h : e.Summarizes (ofEpoch e.epoch xs)) : e = direct xs e.epoch := by
  cases e
  simp only [direct, EpochSummary.mk.injEq]
  refine ⟨trivial, h.recordCount, ?_, ?_, ?_, ?_, h.closeSeq.symm⟩
  · simp [h.seqFirst]
  · simp [h.seqLast]
  · simp [h.tsMin]
  · simp [h.tsMax]

end EpochSummary

open EpochSummary

structure Epochs (rows : Nat → List Row) (es : List EpochSummary) : Prop where
  nodup : (es.map (·.epoch)).Nodup
  mem   : ∀ n, n ∈ es.map (·.epoch) ↔ rows n ≠ []
  entry : ∀ e ∈ es, e.Summarizes (rows e.epoch)

def upsert (es : List EpochSummary) (e : EpochSummary) : List EpochSummary :=
  if e.epoch ∈ es.map (·.epoch) then
    es.map fun m => if m.epoch = e.epoch then merge m e else m
  else
    es ++ [e]

theorem map_epoch_upsert (es : List EpochSummary) (e : EpochSummary) :
    (upsert es e).map (·.epoch) =
      if e.epoch ∈ es.map (·.epoch) then es.map (·.epoch) else es.map (·.epoch) ++ [e.epoch] := by
  unfold upsert
  split
  case isFalse => simp
  case isTrue =>
    rw [map_map]
    refine map_congr_left fun m _ => ?_
    simp only [comp_apply]
    split <;> rfl

namespace Epochs

variable {rows rows' : Nat → List Row} {es ds : List EpochSummary} {e : EpochSummary} {ys : List Row}

theorem congr (h : Epochs rows es) (hr : ∀ n, rows n = rows' n) : Epochs rows' es := by
  rwa [show rows' = rows from funext fun n => (hr n).symm]

theorem upsert (h : Epochs rows es) (he : e.Summarizes ys)
    (hlt : ∀ x ∈ rows e.epoch, ∀ y ∈ ys, x.header.seq < y.header.seq) :
    Epochs (update rows e.epoch (rows e.epoch ++ ys)) (upsert es e) where
  nodup := by
    rw [map_epoch_upsert]
    split
    case isTrue => exact h.nodup
    case isFalse hn => exact concat_eq_append ▸ h.nodup.concat hn
  mem := by
    intro n
    rw [map_epoch_upsert]
    by_cases hn : n = e.epoch
    case pos =>
      subst hn
      simp only [update_self, ne_eq, append_eq_nil_iff, he.ne_nil, and_false,
        not_false_eq_true, iff_true]
      split
      · assumption
      · simp
    case neg =>
      rw [update_of_ne hn, ← h.mem n]
      split <;> simp [hn]
  entry := by
    intro d hd
    unfold Tracepack.upsert at hd
    split at hd
    case isTrue hm =>
      obtain ⟨m, hm, rfl⟩ := mem_map.mp hd
      split
      case isTrue hme =>
        have hr : (merge m e).epoch = e.epoch := hme
        rw [hr, update_self]
        exact (hme ▸ h.entry m hm).merge he hlt
      case isFalse hme =>
        rw [update_of_ne hme]
        exact h.entry m hm
    case isFalse hn =>
      have hnil : rows e.epoch = [] := by
        by_contra hne
        exact hn ((h.mem _).mpr hne)
      rcases mem_append.mp hd with hd | hd
      · have hne : d.epoch ≠ e.epoch := fun he => hn (he ▸ mem_map_of_mem hd)
        rw [update_of_ne hne]
        exact h.entry d hd
      · rw [mem_singleton.mp hd, update_self, hnil]
        exact he

theorem foldl_upsert_of_mem (h : Epochs rows es) (hn : (ds.map (·.epoch)).Nodup)
    (hs : ∀ d ∈ ds, d.Summarizes (rows' d.epoch))
    (hlt : ∀ n ∈ ds.map (·.epoch), ∀ x ∈ rows n, ∀ y ∈ rows' n, x.header.seq < y.header.seq) :
    Epochs (fun n => if n ∈ ds.map (·.epoch) then rows n ++ rows' n else rows n)
      (ds.foldl Tracepack.upsert es) := by
  induction ds generalizing es rows
  case nil => exact h.congr fun n => by simp
  case cons d ds hi =>
    have ⟨hd, hds⟩ := forall_mem_cons.mp hs
    have ⟨hnd, hn⟩ := nodup_cons.mp hn
    simp only [map_cons, forall_mem_cons] at hlt
    refine (hi (h.upsert hd hlt.1) hn hds fun n hnm => ?_).congr fun n => ?_
    · have hne : n ≠ d.epoch := by
        rintro rfl
        exact hnd hnm
      rw [update_of_ne hne]
      exact hlt.2 n hnm
    · by_cases hne : n = d.epoch
      case pos =>
        subst hne
        simp only [if_neg hnd, update_self, map_cons, mem_cons_self, if_true]
      case neg =>
        simp only [update_of_ne hne, map_cons, mem_cons, hne, false_or]

theorem foldl_upsert (h : Epochs rows es) (hd : Epochs rows' ds)
    (hlt : ∀ n, ∀ x ∈ rows n, ∀ y ∈ rows' n, x.header.seq < y.header.seq) :
    Epochs (fun n => rows n ++ rows' n) (ds.foldl Tracepack.upsert es) := by
  refine (h.foldl_upsert_of_mem hd.nodup hd.entry fun n _ => hlt n).congr fun n => ?_
  split
  case isTrue => rfl
  case isFalse hn =>
    have hnil : rows' n = [] := by
      by_contra hne
      exact hn ((hd.mem n).mpr hne)
    rw [hnil, append_nil]

theorem sortEpochs_eq {rs : List Row} (h : Epochs (ofEpoch · rs) es) :
    sortEpochs es = (epochNumbers rs).map (EpochSummary.direct rs) := by
  have hp : (sortEpochs es).Perm es := perm_insertionSort ..
  have hsorted : (sortEpochs es).Pairwise fun a b => a.epoch ≤ b.epoch :=
    haveI : Std.Total fun a b : EpochSummary => a.epoch ≤ b.epoch := ⟨fun a b => le_total _ _⟩
    haveI : IsTrans EpochSummary fun a b => a.epoch ≤ b.epoch := ⟨fun _ _ _ => le_trans⟩
    pairwise_insertionSort ..
  have hnumbers : (sortEpochs es).map (·.epoch) = epochNumbers rs := by
    refine List.Perm.eq_of_pairwise (fun _ _ _ _ => le_antisymm) (pairwise_map.mpr hsorted)
      (pairwise_insertionSort ..) ?_
    refine (hp.map _).trans (List.Perm.trans ?_ (perm_insertionSort ..).symm)
    refine (perm_ext_iff_of_nodup h.nodup (nodup_dedup _)).mpr fun n => ?_
    rw [h.mem, mem_dedup, ofEpoch, ne_eq, filter_eq_nil_iff]
    simp
  calc sortEpochs es = (sortEpochs es).map id := (map_id _).symm
    _ = (sortEpochs es).map (EpochSummary.direct rs ∘ (·.epoch)) :=
        map_congr_left fun e he => (h.entry e (hp.subset he)).eq_direct
    _ = (epochNumbers rs).map (EpochSummary.direct rs) := by rw [← hnumbers, map_map]

end Epochs
end Tracepack
