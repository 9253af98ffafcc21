import GoSecs.Tracepack.FooterRead

-- What an accepted footer says about the blocks of the pack.

namespace Tracepack

open Tlv (SeqRange)
open Format (Trailer)

-- The seqs in some of the ranges.
def seqSet (ranges : List SeqRange) : Finset Nat :=
  ranges.foldr (fun r seqs => Finset.Icc r.first r.last ∪ seqs) ∅

namespace BlockSummary

variable (s : BlockSummary)

def seqs : Finset Nat :=
  seqSet s.seqRanges

structure Sound : Prop where
  card : s.seqs.card = s.recordCount
  bounds : ∀ seq ∈ s.seqs, s.firstSeq ≤ seq ∧ seq ≤ s.lastSeq
  closeSeqs : ∀ e ∈ s.epochs, ∀ seq ∈ e.closeSeq, seq ∈ s.seqs
  epochs : (s.epochs.map (·.recordCount)).sum = s.recordCount
  boundaries : ∀ b ∈ s.boundaries, b.seq ∈ s.seqs

end BlockSummary

-- The blocks lie one after the other, from `start` up to `stop`.
def Tiles : Nat → List BlockSummary → Nat → Prop
  | start, [],      stop => start = stop
  | start, b :: bs, stop => b.offset = start ∧ 0 < b.onDiskLen ∧ Tiles (start + b.onDiskLen) bs stop

-- Equal statistics: counts of zero at the end of an array and the order of the boundaries do not
-- matter.
structure PackStats.Same (got want : PackStats) : Prop where
  recordCount : got.recordCount = want.recordCount
  kindCounts : ∀ v, got.kindCounts.getD v 0 = want.kindCounts.getD v 0
  dirCounts : ∀ v, got.dirCounts.getD v 0 = want.dirCounts.getD v 0
  decodeStatusCounts : ∀ v, got.decodeStatusCounts.getD v 0 = want.decodeStatusCounts.getD v 0
  tsMin : got.tsMin = want.tsMin
  tsMax : got.tsMax = want.tsMax
  contentBytes : got.contentBytes = want.contentBytes
  qualityUnion : got.qualityUnion = want.qualityUnion
  seqRanges : got.seqRanges = want.seqRanges
  epochs : got.epochs = want.epochs
  boundaries : got.boundaries.Perm want.boundaries

structure FooterIndex.Sound (idx : FooterIndex) (tr : Trailer) (blocksStart : Nat) : Prop where
  tiles : Tiles blocksStart idx.blocks tr.footerOffset
  ascending : idx.blocks.Pairwise fun a b => ∀ x ∈ a.seqs, ∀ y ∈ b.seqs, x < y
  total : (idx.blocks.map (·.seqs.card)).sum = tr.recordCount
  blocks : ∀ b ∈ idx.blocks, b.Sound
  stats : idx.stats.Same (aggregate exact idx.blocks)

end Tracepack
