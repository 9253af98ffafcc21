import GoSecs.Tracepack.Theorems.Epochs

open List Option

namespace Tracepack

open EpochSummary

variable {es : List EpochSummary} {e : EpochSummary} {idx : List (Nat × Nat)} {n i : Nat}

def position (es : List EpochSummary) (n : Nat) : Option Nat :=
  es.findIdx? (·.epoch = n)

-- The index holds the position of each entry.
def Indexed (es : List EpochSummary) (idx : List (Nat × Nat)) : Prop :=
  ∀ n, idx.lookup n = position es n

theorem position_eq_none : position es n = none ↔ n ∉ es.map (·.epoch) := by
  simp [position, findIdx?_eq_none_iff]

theorem position_cons : position (e :: es) n =
    if e.epoch = n then some 0 else (position es n).map (· + 1) := by
  simp [position, findIdx?_cons]

theorem position_concat (hn : e.epoch ∉ es.map (·.epoch)) :
    position (es ++ [e]) n = if n = e.epoch then some es.length else position es n := by
  induction es
  case nil =>
    simp only [nil_append, position_cons, eq_comm (a := n)]
    rfl
  case cons d es hi =>
    simp only [map_cons, mem_cons, not_or] at hn
    rw [cons_append, position_cons, position_cons, hi hn.2]
    by_cases hne : n = e.epoch
    case pos => simp [hne, Ne.symm hn.1]
    case neg => simp [hne]

theorem position_congr {ds : List EpochSummary} (h : ds.map (·.epoch) = es.map (·.epoch)) :
    position ds n = position es n := by
  have hp (es : List EpochSummary) : position es n = (es.map (·.epoch)).findIdx? (· = n) := by
    rw [position, findIdx?_map]
    rfl
  rw [hp, hp, h]

theorem modify_position {f : EpochSummary → EpochSummary} (hn : (es.map (·.epoch)).Nodup)
    (h : position es n = some i) :
    es.modify i f = es.map fun m => if m.epoch = n then f m else m := by
  induction es generalizing i
  case nil => simp [position] at h
  case cons d es hi =>
    have ⟨hd, hn⟩ := nodup_cons.mp hn
    rw [position_cons] at h
    split at h
    case isTrue he =>
      obtain rfl := some.inj h
      subst he
      simp only [modify_zero_cons, map_cons, if_true, List.cons.injEq, true_and]
      rw [eq_comm]
      refine (map_congr_left fun m hm => if_neg ?_).trans (map_id _)
      exact fun he => hd (mem_map.mpr ⟨m, hm, he⟩)
    case isFalse he =>
      obtain ⟨j, hj, rfl⟩ := map_eq_some_iff.mp h
      rw [modify_succ_cons, hi hn hj, map_cons, if_neg he]

theorem nodup_upsert (hn : (es.map (·.epoch)).Nodup) (e : EpochSummary) :
    ((upsert es e).map (·.epoch)).Nodup := by
  rw [map_epoch_upsert]
  split
  case isTrue    => exact hn
  case isFalse h => exact concat_eq_append ▸ hn.concat h

theorem upsert_of_position (hn : (es.map (·.epoch)).Nodup) (h : position es e.epoch = some i) :
    upsert es e = es.modify i (merge · e) := by
  have hm : e.epoch ∈ es.map (·.epoch) := by
    by_contra hc
    simp [position_eq_none.mpr hc] at h
  rw [upsert, if_pos hm, modify_position hn h]

theorem upsert_of_not_mem (h : position es e.epoch = none) : upsert es e = es ++ [e] :=
  if_neg (position_eq_none.mp h)

theorem Indexed.modify (h : Indexed es idx) (hp : position es e.epoch = some i) :
    Indexed (upsert es e) idx := by
  intro n
  have hm : e.epoch ∈ es.map (·.epoch) := by
    by_contra hc
    simp [position_eq_none.mpr hc] at hp
  rw [h n]
  refine (position_congr ?_).symm
  rw [map_epoch_upsert, if_pos hm]

theorem Indexed.concat (h : Indexed es idx) (hp : position es e.epoch = none) :
    Indexed (upsert es e) ((e.epoch, es.length) :: idx) := by
  intro n
  rw [upsert_of_not_mem hp, position_concat (position_eq_none.mp hp), lookup_cons, ← h n]
  by_cases hn : n = e.epoch
  case pos => simp [hn]
  case neg => simp [hn, beq_false_of_ne hn]

theorem mergeEpoch_eq (h : Indexed es idx) (hn : (es.map (·.epoch)).Nodup) :
    (mergeEpoch exact es idx e).1 = upsert es e ∧
      Indexed (upsert es e) (mergeEpoch exact es idx e).2 := by
  simp only [mergeEpoch]
  cases hp : position es e.epoch
  case none =>
    rw [h e.epoch, hp]
    exact ⟨(upsert_of_not_mem hp).symm, h.concat hp⟩
  case some i =>
    rw [h e.epoch, hp]
    refine ⟨?_, h.modify hp⟩
    rw [upsert_of_position hn hp]
    simp only [exact_add]
    rfl

theorem mergeEpochs_eq (h : Indexed es idx) (hn : (es.map (·.epoch)).Nodup)
    (ds : List EpochSummary) :
    (mergeEpochs exact (es, idx) ds).1 = ds.foldl upsert es ∧
      Indexed (ds.foldl upsert es) (mergeEpochs exact (es, idx) ds).2 := by
  simp only [mergeEpochs]
  induction ds generalizing es idx
  case nil => exact ⟨rfl, h⟩
  case cons d ds hi =>
    obtain ⟨h₁, h₂⟩ := mergeEpoch_eq (e := d) h hn
    simp only [foldl_cons]
    rw [← Prod.eta (mergeEpoch exact es idx d), h₁]
    exact hi h₂ (nodup_upsert hn d)

namespace BlockSummary

variable {s : BlockSummary}

theorem lookup_indexEpochs {j : Nat} (hn : (es.map (·.epoch)).Nodup) :
    (indexEpochs es j idx).lookup n =
      match position es n with
      | some i => some (i + j)
      | none   => idx.lookup n := by
  induction es generalizing j idx
  case nil => rfl
  case cons d es hi =>
    have ⟨hd, hn⟩ := nodup_cons.mp hn
    rw [indexEpochs, hi hn, position_cons]
    by_cases he : d.epoch = n
    case pos =>
      subst he
      simp [position_eq_none.mpr hd]
    case neg =>
      cases hp : position es n
      case none   => simp [lookup_cons, he, beq_false_of_ne (Ne.symm he)]
      case some i =>
        simp only [he, if_false, map_some, some.injEq]
        omega

theorem indexed_indexEpochs (hn : (es.map (·.epoch)).Nodup) : Indexed es (indexEpochs es 0 []) := by
  intro n
  rw [lookup_indexEpochs hn]
  cases position es n <;> rfl

-- All three ways to look up an epoch find its entry.
theorem findEpoch_eq (hn : (s.epochs.map (·.epoch)).Nodup)
    (hi : ∀ idx ∈ s.epochIndex, Indexed s.epochs idx) (n : Nat) :
    ∃ index, s.findEpoch n = (position s.epochs n, { s with epochIndex := index }) ∧
      ∀ idx ∈ index, Indexed s.epochs idx := by
  unfold findEpoch
  rcases eq_nil_or_concat s.epochs with h | ⟨init, e, h⟩
  case inl =>
    have hl : s.epochs.getLast? = none := by simp [h]
    have hp : position s.epochs n = none := by simp [h, position]
    refine ⟨s.epochIndex, ?_, hi⟩
    rw [hl, hp]
  case inr =>
    rw [concat_eq_append] at h
    simp only [h, getLast?_concat, dropLast_concat, length_append,
      length_singleton, Nat.add_sub_cancel]
    rw [h] at hn hi
    have hni : e.epoch ∉ init.map (·.epoch) := by
      rw [map_append, nodup_append] at hn
      intro hm
      exact hn.2.2 _ hm _ (mem_singleton.mpr rfl) rfl
    split
    case isTrue he =>
      refine ⟨s.epochIndex, ?_, hi⟩
      rw [position_concat hni, if_pos he.symm, ← h]
    case isFalse he =>
      split
      case isTrue =>
        refine ⟨s.epochIndex, ?_, hi⟩
        rw [position_concat hni, if_neg (Ne.symm he), ← h]
        rfl
      case isFalse =>
        have hidx : Indexed (init ++ [e])
            (s.epochIndex.getD (indexEpochs (init ++ [e]) 0 [])) := by
          cases ho : s.epochIndex
          case none => exact indexed_indexEpochs hn
          case some idx => exact hi idx ho
        refine ⟨some (s.epochIndex.getD (indexEpochs (init ++ [e]) 0 [])), ?_, ?_⟩
        · rw [hidx n]
        · intro idx hm
          rw [mem_some_iff] at hm
          exact hm ▸ hidx

end BlockSummary
end Tracepack
