import GoSecs.Tracepack.Theorems.EpochIndex
import GoSecs.Tracepack.Theorems.Runs
import GoSecs.Tracepack.Theorems.Tally

namespace Tracepack.BlockSummary

open Tlv (SeqRange maxU64)
open EpochSummary

variable {s : BlockSummary} {r : Row} {rs : List Row}

theorem foldEvent_eq (s : BlockSummary) (r : Row) (i : Nat) :
    (match r.event with
      | some ev => s.addEvent r.header ev i
      | none    => s) =
      { s with
        epochs :=
          if r.closes then
            s.epochs.modify i fun e => { e with closeSeq := e.closeSeq <|> some r.header.seq }
          else
            s.epochs
        boundaries := s.boundaries ++ r.boundary?.toList } := by
  obtain ⟨h, ev⟩ := r
  cases ev
  case none => simp [Row.closes, Row.boundary?]
  case some ev =>
    simp only [addEvent, Row.closes, Row.boundary?, Option.any_some]
    by_cases hb : ev.event = eventCaptureBoundary
    case pos =>
      have hne : eventCaptureBoundary ≠ eventSocketClose := by decide
      have hk : ev.boundaryKind.getD boundaryKindUnknown = boundaryKindStop ↔
          ev.boundaryKind = some boundaryKindStop := by
        cases ev.boundaryKind
        case none   => simp only [Option.getD_none, reduceCtorEq, iff_false]; decide
        case some k => simp
      simp only [hb, if_true, hne, false_or, true_and, decide_eq_true_eq, hk, Option.toList_some]
      split <;> rfl
    case neg =>
      simp only [hb, if_false, false_and, or_false, decide_eq_true_eq, Option.toList_none,
        List.append_nil]
      split <;> rfl

theorem modify_length (f : α → α) (as : List α) (a : α) :
    (as ++ [a]).modify as.length f = as ++ [f a] := by
  simp [List.modify_eq_take_drop]

theorem foldEpoch_eq (hn : (s.epochs.map (·.epoch)).Nodup)
    (hi : ∀ idx ∈ s.epochIndex, Indexed s.epochs idx)
    (hm : ∀ m ∈ s.epochs, m.epoch = r.header.epoch →
      m.recordCount + 1 < 2 ^ 64 ∧ m.seqFirst ≤ r.header.seq ∧ m.seqLast ≤ r.header.seq) :
    ∃ index,
      (match s.epochEntry r.header with
        | (i, t) =>
          match r.event with
          | some ev => t.addEvent r.header ev i
          | none    => t) =
        { s with
          epochs := upsert s.epochs (single r)
          epochIndex := index
          boundaries := s.boundaries ++ r.boundary?.toList } ∧
      ∀ idx ∈ index, Indexed (upsert s.epochs (single r)) idx := by
  have ⟨index, hf, hidx⟩ := findEpoch_eq hn hi r.header.epoch
  have hsingle : (single r).epoch = r.header.epoch := rfl
  unfold epochEntry
  cases hp : position s.epochs r.header.epoch
  case some i =>
    refine ⟨index, ?_, fun idx hx => (hidx idx hx).modify (hsingle ▸ hp)⟩
    simp only [hf, hp, foldEvent_eq]
    -- Both updates of the entry together are the merge with the entry of the record.
    have hmerge : ∀ m ∈ s.epochs, m.epoch = r.header.epoch →
        merge m (single r) = { m with
          recordCount := inc64 m.recordCount
          seqLast := r.header.seq
          tsMin := min m.tsMin r.header.tsUTCNs
          tsMax := max m.tsMax r.header.tsUTCNs
          closeSeq := m.closeSeq <|> if r.closes then some r.header.seq else none } := by
      intro m hmem he
      have ⟨hc, hfirst, hlast⟩ := hm m hmem he
      simp only [merge, single, inc64, Nat.mod_eq_of_lt hc, min_eq_left hfirst, max_eq_right hlast]
    rw [upsert_of_position hn (hsingle ▸ hp), modify_position hn hp]
    congr 1
    split
    case isTrue hc =>
      rw [← modify_position hn hp, List.modify_modify_eq]
      rw [modify_position hn hp, modify_position hn hp]
      refine List.map_congr_left fun m hmem => ?_
      split
      case isTrue he  => rw [hmerge m hmem he]; simp [hc]
      case isFalse he => rfl
    case isFalse hc =>
      rw [modify_position hn hp]
      refine List.map_congr_left fun m hmem => ?_
      split
      case isTrue he  => rw [hmerge m hmem he]; simp [hc]
      case isFalse he => rfl
  case none =>
    refine ⟨index.map ((r.header.epoch, s.epochs.length) :: ·), ?_, fun idx hx => ?_⟩
    · simp only [hf, hp, foldEvent_eq]
      rw [upsert_of_not_mem (hsingle ▸ hp)]
      congr 1
      split
      case isTrue hc =>
        rw [modify_length]
        simp [single, hc]
      case isFalse hc => simp [single, hc]
    · obtain ⟨idx', hx', rfl⟩ := Option.mem_map.mp hx
      exact (hidx idx' hx').concat (hsingle ▸ hp)

-- One record changes every part of the summary on its own.
theorem addRecord_eq (hn : (s.epochs.map (·.epoch)).Nodup)
    (hi : ∀ idx ∈ s.epochIndex, Indexed s.epochs idx)
    (hm : ∀ m ∈ s.epochs, m.epoch = r.header.epoch →
      m.recordCount + 1 < 2 ^ 64 ∧ m.seqFirst ≤ r.header.seq ∧ m.seqLast ≤ r.header.seq)
    (hr : ∀ q ∈ s.seqRanges, q.last + 1 < 2 ^ 64) :
    ∃ index,
      s.addRecord r.header r.event =
        { s with
          recordCount := inc32 s.recordCount
          firstSeq := if s.recordCount = 0 then r.header.seq else s.firstSeq
          lastSeq := r.header.seq
          tsMin :=
            min (if s.recordCount = 0 then r.header.tsUTCNs else s.tsMin) r.header.tsUTCNs
          tsMax :=
            max (if s.recordCount = 0 then r.header.tsUTCNs else s.tsMax) r.header.tsUTCNs
          epochMin :=
            min (if s.recordCount = 0 then r.header.epoch else s.epochMin) r.header.epoch
          epochMax :=
            max (if s.recordCount = 0 then r.header.epoch else s.epochMax) r.header.epoch
          kindCounts := countEnum s.kindCounts r.header.kind
          dirCounts := countEnum s.dirCounts r.header.dir
          decodeStatusCounts := countEnum s.decodeStatusCounts r.header.decodeStatus
          qualityUnion := s.qualityUnion ||| r.header.quality
          seqRanges := unionSeqRanges exact s.seqRanges [⟨r.header.seq, r.header.seq⟩]
          epochs := upsert s.epochs (single r)
          epochIndex := index
          boundaries := s.boundaries ++ r.boundary?.toList } ∧
      ∀ idx ∈ index, Indexed (upsert s.epochs (single r)) idx := by
  unfold addRecord
  by_cases hc : s.recordCount = 0
  all_goals
    simp only [hc, ↓reduceIte]
    rw [addSeq_eq]
    · exact foldEpoch_eq hn hi hm
    · exact hr

structure Summarizes (s : BlockSummary) (rs : List Row) : Prop where
  recordCount : s.recordCount = rs.length
  firstSeq : ∀ r ∈ rs.head?, s.firstSeq = r.header.seq
  lastSeq : ∀ r ∈ rs.getLast?, s.lastSeq = r.header.seq
  tsMin : ∀ t ∈ (rs.map (·.header.tsUTCNs)).min?, s.tsMin = t
  tsMax : ∀ t ∈ (rs.map (·.header.tsUTCNs)).max?, s.tsMax = t
  epochMin : ∀ n ∈ (rs.map (·.header.epoch)).min?, s.epochMin = n
  epochMax : ∀ n ∈ (rs.map (·.header.epoch)).max?, s.epochMax = n
  kindCounts : s.kindCounts = tally (rs.map (·.header.kind))
  dirCounts : s.dirCounts = tally (rs.map (·.header.dir))
  decodeStatusCounts : s.decodeStatusCounts = tally (rs.map (·.header.decodeStatus))
  qualityUnion : s.qualityUnion = (rs.map (·.header.quality)).foldr (· ||| ·) 0
  epochs : Epochs (ofEpoch · rs) s.epochs
  indexed : ∀ idx ∈ s.epochIndex, Indexed s.epochs idx
  boundaries : s.boundaries = rs.filterMap Row.boundary?
  seqRanges : Covers (rs.map (·.header.seq)).toFinset s.seqRanges
  verbatimF3 : s.verbatimF3 = []

theorem summarizes_nil : ({} : BlockSummary).Summarizes [] where
  recordCount := rfl
  firstSeq := by simp
  lastSeq := by simp
  tsMin := by simp
  tsMax := by simp
  epochMin := by simp
  epochMax := by simp
  kindCounts := rfl
  dirCounts := rfl
  decodeStatusCounts := rfl
  qualityUnion := rfl
  epochs := ⟨by simp, by simp [ofEpoch], by simp⟩
  indexed := by simp
  boundaries := rfl
  seqRanges := ⟨trivial, rfl⟩
  verbatimF3 := rfl

section Concat

variable {α : Type} [LinearOrder α] {xs : List α} {m x : α}

theorem min?_concat (h : ∀ t ∈ xs.min?, m = t) :
    (xs ++ [x]).min? = some (min (if xs = [] then x else m) x) := by
  cases hx : xs.min?
  case none =>
    rw [List.min?_eq_none_iff] at hx
    simp [hx]
  case some t =>
    have hne : xs ≠ [] := by rintro rfl; simp at hx
    rw [if_neg hne, min?_append (h t hx ▸ hx) List.min?_singleton]

theorem max?_concat (h : ∀ t ∈ xs.max?, m = t) :
    (xs ++ [x]).max? = some (max (if xs = [] then x else m) x) :=
  min?_concat (α := αᵒᵈ) h

end Concat

theorem ofEpoch_concat (rs : List Row) (r : Row) (n : Nat) :
    Function.update (ofEpoch · rs) r.header.epoch (ofEpoch r.header.epoch rs ++ [r]) n =
      ofEpoch n (rs ++ [r]) := by
  by_cases hn : n = r.header.epoch
  case pos => simp [hn, ofEpoch]
  case neg => simp [Function.update_of_ne hn, ofEpoch, Ne.symm hn]

theorem foldr_or_concat (qs : List UInt16) (q : UInt16) :
    (qs ++ [q]).foldr (· ||| ·) 0 = qs.foldr (· ||| ·) 0 ||| q := by
  induction qs
  case nil => simp
  case cons p qs hi => simp only [List.cons_append, List.foldr_cons, hi, UInt16.or_assoc]

theorem Summarizes.addRecord (h : s.Summarizes rs) (hlt : ∀ x ∈ rs, x.header.seq < r.header.seq)
    (hseq : r.header.seq ≤ maxU64) (hlen : rs.length + 1 < 2 ^ 32) :
    (s.addRecord r.header r.event).Summarizes (rs ++ [r]) := by
  have hm : ∀ m ∈ s.epochs, m.epoch = r.header.epoch →
      m.recordCount + 1 < 2 ^ 64 ∧ m.seqFirst ≤ r.header.seq ∧ m.seqLast ≤ r.header.seq := by
    intro m hm _
    have hs := h.epochs.entry m hm
    have hle : (ofEpoch m.epoch rs).length ≤ rs.length := List.length_filter_le ..
    have hmem (x : Row) (hx : x ∈ ofEpoch m.epoch rs) : x.header.seq ≤ r.header.seq :=
      (hlt x (List.mem_of_mem_filter hx)).le
    obtain ⟨x, hx, hfx⟩ := List.mem_map.mp (List.min?_eq_some_iff.mp hs.seqFirst).1
    obtain ⟨y, hy, hly⟩ := List.mem_map.mp (List.max?_eq_some_iff.mp hs.seqLast).1
    rw [hs.recordCount, ← hfx, ← hly]
    exact ⟨by omega, hmem x hx, hmem y hy⟩
  have hr : ∀ q ∈ s.seqRanges, q.last + 1 < 2 ^ 64 := by
    intro q hq
    have hl := h.seqRanges.separated.last_mem hq
    rw [h.seqRanges.seqs, List.mem_toFinset] at hl
    obtain ⟨x, hx, hxl⟩ := List.mem_map.mp hl
    have := hlt x hx
    simp only [maxU64] at hseq
    omega
  have hzero : s.recordCount = 0 ↔ rs = [] := by rw [h.recordCount, List.length_eq_zero_iff]
  obtain ⟨index, he, hidx⟩ := addRecord_eq h.epochs.nodup h.indexed hm hr
  rw [he]
  exact {
    recordCount := by
      rw [inc32, h.recordCount, Nat.mod_eq_of_lt hlen, List.length_append, List.length_singleton]
    firstSeq := by
      cases rs
      case nil => simp [hzero]
      case cons x rs => simpa [hzero] using h.firstSeq
    lastSeq := by simp
    tsMin := by simp [min?_concat h.tsMin, hzero]
    tsMax := by simp [max?_concat h.tsMax, hzero]
    epochMin := by simp [min?_concat h.epochMin, hzero]
    epochMax := by simp [max?_concat h.epochMax, hzero]
    kindCounts := by
      rw [h.kindCounts, countEnum_tally (by simpa using hlen), List.map_append, List.map_singleton]
    dirCounts := by
      rw [h.dirCounts, countEnum_tally (by simpa using hlen), List.map_append, List.map_singleton]
    decodeStatusCounts := by
      rw [h.decodeStatusCounts, countEnum_tally (by simpa using hlen), List.map_append,
        List.map_singleton]
    qualityUnion := by
      rw [h.qualityUnion, List.map_append, List.map_singleton, foldr_or_concat]
    epochs := by
      refine (h.epochs.upsert (summarizes_single r) ?_).congr (ofEpoch_concat rs r)
      intro x hx y hy
      rw [List.mem_singleton.mp hy]
      exact hlt x (List.mem_of_mem_filter hx)
    indexed := hidx
    boundaries := by
      rw [h.boundaries, List.filterMap_append]
      cases hb : r.boundary? <;> simp [hb]
    seqRanges := by
      have hsep : Separated none [⟨r.header.seq, r.header.seq⟩] := ⟨le_rfl, by simp, trivial⟩
      have hu := h.seqRanges.union hsep (by simpa using hlt)
      simpa [Finset.union_comm] using hu
    verbatimF3 := h.verbatimF3 }

theorem summarizes_foldl (hs : (rs.map (·.header.seq)).Pairwise (· < ·))
    (hseq : ∀ r ∈ rs, r.header.seq ≤ maxU64) (hlen : rs.length < 2 ^ 32) :
    (rs.foldl (fun s r => s.addRecord r.header r.event) ({} : BlockSummary)).Summarizes rs := by
  induction rs using List.reverseRecOn
  case nil => exact summarizes_nil
  case append_singleton rs r hi =>
    rw [List.map_append, List.pairwise_append] at hs
    rw [List.length_append, List.length_singleton] at hlen
    rw [List.foldl_append]
    refine (hi hs.1 (fun x hx => hseq x (List.mem_append_left _ hx)) (by omega)).addRecord ?_
      (hseq r (by simp)) hlen
    simpa using hs.2.2

end Tracepack.BlockSummary
