import GoSecs.Tracepack.Marking

open List

-- The sweep over the encrypted ranges of a record finds every overlap.

namespace Tracepack.Marking

open Splice (Span)

variable {p q s first second : Piece} {ps ss : List Piece} {entries : List Entry}

-- Two pieces of different entries, of which the first one begins first, do not overlap.
def Piece.Clear (p q : Piece) : Prop :=
  p.entry ≠ q.entry → p.stop ≤ q.off

-- `first` reaches furthest of the pieces seen, `second` of those of the other entries.
structure Furthest (ps : List Piece) (first second : Piece) : Prop where
  mem    : first ∈ ps
  top    : ∀ p ∈ ps, p.stop ≤ first.stop
  rest   : ∀ p ∈ ps, p.entry ≠ first.entry → p.stop ≤ second.stop
  second : second.stop = 0 ∨ second ∈ ps ∧ second.entry ≠ first.entry

theorem Furthest.other (h : Furthest ps first second) (s : Piece) :
    (if first.entry = s.entry then second else first).stop ≤ s.off ↔ ∀ p ∈ ps, p.Clear s := by
  split
  case isTrue he =>
    constructor
    · intro ho p hp hne
      exact (h.rest p hp (he ▸ hne)).trans ho
    · intro hc
      rcases h.second with h0 | ⟨hm, hne⟩
      · exact h0 ▸ Nat.zero_le _
      · exact hc second hm (he ▸ hne)
  case isFalse he =>
    exact ⟨fun ho p hp _ => (h.top p hp).trans ho, fun hc => hc first h.mem he⟩

def kept (first second s : Piece) : Piece × Piece :=
  if first.stop < s.stop then
    (s, if s.entry = first.entry then second else first)
  else
    (first, if s.entry ≠ first.entry ∧ second.stop < s.stop then s else second)

theorem Furthest.kept (h : Furthest ps first second) (s : Piece) :
    Furthest (s :: ps) (kept first second s).1 (kept first second s).2 := by
  have ⟨hm, ht, hr, h2⟩ := h
  unfold Marking.kept
  split_ifs
  all_goals constructor <;> grind

theorem overlapFrom_cons : overlapFrom first second (s :: ss) = none ↔
    (if first.entry = s.entry then second else first).stop ≤ s.off ∧
      overlapFrom (kept first second s).1 (kept first second s).2 ss = none := by
  rw [overlapFrom, kept]
  grind

theorem overlapFrom_eq_none (h : Furthest ps first second) :
    overlapFrom first second ss = none ↔ (∀ p ∈ ps, ∀ s ∈ ss, p.Clear s) ∧ ss.Pairwise Piece.Clear := by
  induction ss generalizing ps first second
  case nil => simp [overlapFrom]
  case cons s ss hi =>
    rw [overlapFrom_cons, h.other, hi (h.kept s)]
    simp only [forall_mem_cons, pairwise_cons]
    grind

instance : Std.Total Piece.le where
  total a b := by simp only [Piece.le]; omega

instance : IsTrans Piece Piece.le where
  trans a b c := by simp only [Piece.le]; omega

-- The ranges are values of the source's `uint64` fields and not empty.
def Entry.Positive (e : Entry) : Prop :=
  ∀ r ∈ e.ranges, 0 < r.length ∧ r.offset < 2 ^ 64 ∧ r.length < 2 ^ 64

theorem mem_piecesOf (h : ∀ e ∈ entries, e.Positive) : p ∈ piecesOf entries ↔
    ∃ i e, entries[i]? = some e ∧ e.hasSIV = true ∧
      ∃ r ∈ e.ranges, p = ⟨r.offset, min r.stop (2 ^ 64 - 1), i⟩ := by
  have hstop : ∀ e ∈ entries, ∀ r ∈ e.ranges,
      (if r.stop % 2 ^ 64 < r.offset then 2 ^ 64 - 1 else r.stop % 2 ^ 64) =
        min r.stop (2 ^ 64 - 1) := by
    intro e he r hr
    have := h e he r hr
    have hr : r.stop = r.offset + r.length := rfl
    rcases Nat.lt_or_ge r.stop (2 ^ 64) with hlt | hge
    · rw [Nat.mod_eq_of_lt hlt, if_neg (by omega)]
      omega
    · rw [if_pos (by omega)]
      omega
  simp only [piecesOf, mem_flatMap, Prod.exists, mem_zipIdx_iff_getElem?]
  constructor
  · rintro ⟨e, i, he, hp⟩
    split at hp
    · obtain ⟨r, hr, rfl⟩ := mem_map.mp hp
      exact ⟨i, e, he, ‹_›, r, hr, by rw [hstop e (mem_of_getElem? he) r hr]⟩
    · simp at hp
  · rintro ⟨i, e, he, hs, r, hr, rfl⟩
    rw [← hstop e (mem_of_getElem? he) r hr]
    exact ⟨e, i, he, by simpa [hs] using ⟨r, hr, rfl, rfl⟩⟩

theorem encryptedOverlap_eq_none (h : ∀ e ∈ entries, e.Positive) :
    encryptedOverlap entries = none ↔ ∀ p ∈ piecesOf entries, ∀ q ∈ piecesOf entries,
      p.entry ≠ q.entry → p.stop ≤ q.off ∨ q.stop ≤ p.off := by
  have hperm := perm_insertionSort Piece.le (piecesOf entries)
  have hs := pairwise_insertionSort Piece.le (piecesOf entries)
  have hclear : encryptedOverlap entries = none ↔
      ((piecesOf entries).insertionSort Piece.le).Pairwise Piece.Clear := by
    unfold encryptedOverlap
    cases (piecesOf entries).insertionSort Piece.le
    case nil => simp
    case cons p ps =>
      have hf : Furthest [p] p ⟨0, 0, 0⟩ := ⟨by simp, by simp, by simp, by simp⟩
      rw [overlapFrom_eq_none hf]
      simp
  have hpos : ∀ p ∈ piecesOf entries, p.stop < 2 ^ 64 ∧ (p.off < p.stop ∨ p.off = 2 ^ 64 - 1) := by
    intro p hp
    obtain ⟨i, e, he, _, r, hr, rfl⟩ := (mem_piecesOf h).mp hp
    have := h e (mem_of_getElem? he) r hr
    simp only [Span.stop]
    omega
  rw [hclear]
  constructor
  case mp =>
    intro hc p hp q hq
    let R (p q : Piece) : Prop := p.entry ≠ q.entry → p.stop ≤ q.off ∨ q.stop ≤ p.off
    have hsymm : Std.Symm R := ⟨fun _ _ h hne => (h hne.symm).symm⟩
    have hd : ((piecesOf entries).insertionSort Piece.le).Pairwise R :=
      hc.imp fun h hne => .inl (h hne)
    exact hd.forall_of_forall (by simp [R]) (hperm.mem_iff.mpr hp) (hperm.mem_iff.mpr hq)
  case mpr =>
    intro hd
    refine hs.imp_of_mem fun {p q} hp hq hle hne => ?_
    have hp := hperm.mem_iff.mp hp
    have hq := hperm.mem_iff.mp hq
    have := hd p hp q hq hne
    have := hpos p hp
    have := hpos q hq
    simp only [Piece.le] at hle
    omega

-- A byte that the range covers where no end lies behind the largest offset.
def Covers (r : Span) (k : Nat) : Prop :=
  r.offset ≤ k ∧ k < min r.stop (2 ^ 64 - 1)

-- Two encrypted entries have ranges that share a byte.
def Shared (entries : List Entry) : Prop :=
  ∃ (i j : Nat) (a b : Entry), i ≠ j ∧ entries[i]? = some a ∧ entries[j]? = some b ∧
    a.hasSIV = true ∧ b.hasSIV = true ∧
    ∃ r ∈ a.ranges, ∃ s ∈ b.ranges, ∃ k, Covers r k ∧ Covers s k

theorem encryptedOverlap_isSome_iff (h : ∀ e ∈ entries, e.Positive) :
    (encryptedOverlap entries).isSome = true ↔ Shared entries := by
  rw [← Option.ne_none_iff_isSome, ne_eq, encryptedOverlap_eq_none h]
  push Not
  constructor
  case mp =>
    rintro ⟨p, hp, q, hq, hne, hpq, hqp⟩
    obtain ⟨i, a, ha, hsa, r, hr, rfl⟩ := (mem_piecesOf h).mp hp
    obtain ⟨j, b, hb, hsb, s, hs, rfl⟩ := (mem_piecesOf h).mp hq
    refine ⟨i, j, a, b, hne, ha, hb, hsa, hsb, r, hr, s, hs, max r.offset s.offset, ?_⟩
    have := h a (List.mem_of_getElem? ha) r hr
    have := h b (List.mem_of_getElem? hb) s hs
    simp only [Covers, Span.stop] at *
    omega
  case mpr =>
    rintro ⟨i, j, a, b, hne, ha, hb, hsa, hsb, r, hr, s, hs, k, hrk, hsk⟩
    refine ⟨_, (mem_piecesOf h).mpr ⟨i, a, ha, hsa, r, hr, rfl⟩,
      _, (mem_piecesOf h).mpr ⟨j, b, hb, hsb, s, hs, rfl⟩, hne, ?_⟩
    simp only [Covers] at *
    omega

def overlapping : List Entry :=
  [⟨1, [⟨0, 4⟩], false, true, 16⟩, ⟨1, [⟨8, 2⟩], false, true, 16⟩, ⟨1, [⟨3, 5⟩], false, true, 16⟩]

theorem shared_overlapping : (∀ e ∈ overlapping, e.Positive) ∧ Shared overlapping := by
  have h : ∀ e ∈ overlapping, e.Positive := by simp [overlapping, Entry.Positive]
  exact ⟨h, (encryptedOverlap_isSome_iff h).mp (by decide +kernel)⟩

end Tracepack.Marking
