import GoSecs.Tracepack.Summary

open Run LittleEndian

namespace Tracepack

open Format Tlv

-- How the result of a 64-bit addition or subtraction is kept: Go keeps it modulo 2^64, and with
-- `exact` nothing wraps.
abbrev Word := Int → Nat

def wrapping : Word := fun v => (v % 2 ^ 64).toNat
def exact    : Word := Int.toNat

-- The F-5 pack statistics. The times are valid when the pack has a block.
structure PackStats where
  recordCount : Nat := 0
  kindCounts : List Nat := []
  dirCounts : List Nat := []
  decodeStatusCounts : List Nat := []
  tsMin : Int := 0
  tsMax : Int := 0
  contentBytes : Nat := 0
  qualityUnion : UInt16 := 0
  seqRanges : List SeqRange := []
  epochs : List EpochSummary := []
  boundaries : List BoundarySummary := []
deriving DecidableEq

def sortEpochs (es : List EpochSummary) : List EpochSummary :=
  es.insertionSort (·.epoch ≤ ·.epoch)

section Aggregate

variable (word : Word)

def addCounts : List Nat → List Nat → List Nat
  | sum,      [] => sum
  | [],       b :: bs => word (0 + b) :: addCounts [] bs
  | a :: sum, b :: bs => word (a + b) :: addCounts sum bs

def unionSeqRanges (ranges : List SeqRange) : List SeqRange → List SeqRange
  | [] => ranges
  | r :: add =>
    match ranges.getLast? with
    | some l =>
      if word (l.last + 1) = r.first then
        unionSeqRanges (ranges.dropLast ++ [{ l with last := r.last }]) add
      else
        unionSeqRanges (ranges ++ [r]) add
    | none => unionSeqRanges (ranges ++ [r]) add

-- Combines `e` into the pack entry of its epoch, which `index` locates, or appends it.
def mergeEpoch (epochs : List EpochSummary) (index : List (Nat × Nat)) (e : EpochSummary) :
    List EpochSummary × List (Nat × Nat) :=
  match index.lookup e.epoch with
  | none   => (epochs ++ [e], (e.epoch, epochs.length) :: index)
  | some i =>
    (epochs.modify i fun m => { m with
      recordCount := word (m.recordCount + e.recordCount)
      seqFirst := min m.seqFirst e.seqFirst
      seqLast := max m.seqLast e.seqLast
      tsMin := min m.tsMin e.tsMin
      tsMax := max m.tsMax e.tsMax
      closeSeq := m.closeSeq <|> e.closeSeq }, index)

def mergeEpochs (acc : List EpochSummary × List (Nat × Nat)) (es : List EpochSummary) :
    List EpochSummary × List (Nat × Nat) :=
  es.foldl (fun acc e => mergeEpoch word acc.1 acc.2 e) acc

-- One round of the loop of `aggregate`, with the index of the epochs seen.
def addBlock (acc : PackStats × List (Nat × Nat)) (b : BlockSummary) :
    PackStats × List (Nat × Nat) :=
  let (st, index) := acc
  let (epochs, index) := mergeEpochs word (st.epochs, index) b.epochs
  ({ recordCount := word (st.recordCount + b.recordCount)
     kindCounts := addCounts word st.kindCounts b.kindCounts
     dirCounts := addCounts word st.dirCounts b.dirCounts
     decodeStatusCounts := addCounts word st.decodeStatusCounts b.decodeStatusCounts
     tsMin := min st.tsMin b.tsMin
     tsMax := max st.tsMax b.tsMax
     contentBytes := word (st.contentBytes + b.uncompressedLen)
     qualityUnion := st.qualityUnion ||| b.qualityUnion
     seqRanges := unionSeqRanges word st.seqRanges b.seqRanges
     epochs
     boundaries := st.boundaries ++ b.boundaries }, index)

-- The extremes of the times start from the first block's.
def aggregate (blocks : List BlockSummary) : PackStats :=
  let start : PackStats :=
    match blocks.head? with
    | some b => { tsMin := b.tsMin, tsMax := b.tsMax }
    | none   => {}
  let st := (blocks.foldl (addBlock word) (start, [])).1
  { st with epochs := sortEpochs st.epochs }

end Aggregate

def f3TagKindCounts : Nat := 0x0001
def f3TagDirCounts : Nat := 0x0002
def f3TagDecodeStatusCounts : Nat := 0x0003
def f3TagQualityUnion : Nat := 0x0005
def f3TagEpoch : Nat := 0x0007
def f3TagBoundary : Nat := 0x0008
def f3TagSeqRange : Nat := 0x0009

def f5TagRecordCount : Nat := 0x0001
def f5TagKindCounts : Nat := 0x0002
def f5TagDirCounts : Nat := 0x0003
def f5TagDecodeStatusCounts : Nat := 0x0004
def f5TagTSMin : Nat := 0x0005
def f5TagTSMax : Nat := 0x0006
def f5TagContentBytes : Nat := 0x0007
def f5TagQualityUnion : Nat := 0x0008
def f5TagSeqRange : Nat := 0x0009
def f5TagEpoch : Nat := 0x000A
def f5TagBoundary : Nat := 0x000B

def epochTagEpoch : Nat := 0x0001
def epochTagRecordCount : Nat := 0x0002
def epochTagSeqFirst : Nat := 0x0003
def epochTagSeqLast : Nat := 0x0004
def epochTagTSMin : Nat := 0x0005
def epochTagTSMax : Nat := 0x0006
def epochTagCloseSeq : Nat := 0x0007

def boundaryTagSeq : Nat := 0x0001
def boundaryTagKind : Nat := 0x0002
def boundaryTagTS : Nat := 0x0003
def boundaryTagEpoch : Nat := 0x0004
def boundaryTagGapStart : Nat := 0x0005
def boundaryTagGapEnd : Nat := 0x0006

def epochEntries (e : EpochSummary) : List Entry :=
  [u64Entry epochTagEpoch e.epoch,
   u64Entry epochTagRecordCount e.recordCount,
   u64Entry epochTagSeqFirst e.seqFirst,
   u64Entry epochTagSeqLast e.seqLast,
   i64Entry epochTagTSMin e.tsMin,
   i64Entry epochTagTSMax e.tsMax] ++
  (e.closeSeq.map (u64Entry epochTagCloseSeq)).toList

def epochEntry (tag : Nat) (e : EpochSummary) : Entry :=
  nestedEntry tag (epochEntries e)

def boundaryEntries (b : BoundarySummary) : List Entry :=
  [u64Entry boundaryTagSeq b.seq,
   u8Entry boundaryTagKind b.kind,
   i64Entry boundaryTagTS b.ts,
   u64Entry boundaryTagEpoch b.epoch] ++
  (b.gapStart.map (i64Entry boundaryTagGapStart)).toList ++
  (b.gapEnd.map (i64Entry boundaryTagGapEnd)).toList

def boundaryEntry (tag : Nat) (b : BoundarySummary) : Entry :=
  nestedEntry tag (boundaryEntries b)

def seqRangeEntry (tag : Nat) (r : SeqRange) : Entry :=
  bytesEntry tag (appendSeqRange r)

-- The entries of a block's F-3 list. A block whose seqs are contiguous has no seq range.
def f3Entries (s : BlockSummary) : List Entry :=
  [bytesEntry f3TagKindCounts (appendU32Array s.kindCounts),
   bytesEntry f3TagDirCounts (appendU32Array s.dirCounts),
   bytesEntry f3TagDecodeStatusCounts (appendU32Array s.decodeStatusCounts),
   u64Entry f3TagQualityUnion s.qualityUnion.toNat] ++
  (sortEpochs s.epochs).map (epochEntry f3TagEpoch) ++
  s.boundaries.map (boundaryEntry f3TagBoundary) ++
  if 1 < s.seqRanges.length then s.seqRanges.map (seqRangeEntry f3TagSeqRange) else []

def appendF3 (s : BlockSummary) : Bytes :=
  (f3Entries s).flatMap appendEntry

def f5Singles (st : PackStats) (hasBlocks : Bool) : List Entry :=
  [u64Entry f5TagRecordCount st.recordCount,
   bytesEntry f5TagKindCounts (appendU64Array st.kindCounts),
   bytesEntry f5TagDirCounts (appendU64Array st.dirCounts),
   bytesEntry f5TagDecodeStatusCounts (appendU64Array st.decodeStatusCounts)] ++
  (if hasBlocks then [i64Entry f5TagTSMin st.tsMin, i64Entry f5TagTSMax st.tsMax] else []) ++
  [u64Entry f5TagContentBytes st.contentBytes,
   u64Entry f5TagQualityUnion st.qualityUnion.toNat]

def f5Entries (st : PackStats) (hasBlocks : Bool) : List Entry :=
  f5Singles st hasBlocks ++
  st.seqRanges.map (seqRangeEntry f5TagSeqRange) ++
  st.epochs.map (epochEntry f5TagEpoch) ++
  st.boundaries.map (boundaryEntry f5TagBoundary)

def appendF5 (st : PackStats) (hasBlocks : Bool) : Bytes :=
  (f5Entries st hasBlocks).flatMap appendEntry

def f2EntryOf (s : BlockSummary) (summaryOffset summaryLen : Nat) : F2Entry where
  offset := s.offset
  onDiskLen := s.onDiskLen
  uncompressedLen := s.uncompressedLen
  recordCount := s.recordCount
  bodyCRC := s.bodyCRC
  firstSeq := s.firstSeq
  lastSeq := s.lastSeq
  tsMin := s.tsMin
  tsMax := s.tsMax
  epochMin := s.epochMin
  epochMax := s.epochMax
  summaryOffset := summaryOffset
  summaryLen := summaryLen
  recordHeaderLen := s.recordHeaderLen

-- The F-3 list of a block: the one another pack's footer stores, or the one built from the summary.
def f3ListOf (s : BlockSummary) : Bytes :=
  if s.verbatimF3.length > 0 then s.verbatimF3 else appendF3 s

-- The mark of an error that the records determine. It keeps the text.
def recordLimit (err : Err) : Err :=
  .tagged "%[2]w" [] .recordLimit err

-- The first loop of `buildFooter`: F-3 and the F-2 entries, from block `i` on.
def buildIndex (maxF3ListLen : Nat) :
    List BlockSummary → Nat → Bytes → Run Err (Bytes × List F2Entry)
  | [],      _, f3 => pure (f3, [])
  | s :: ss, i, f3 => do
    let list := f3ListOf s
    failIf (min maxF3ListLen (2 ^ 32 - 1) < list.length) (recordLimit (.text
      "tracepack: block %d: F-3 entry list of %d bytes exceeds the u32 summary_len"
      [.nat i, .nat list.length]))
    let (f3', index) ← buildIndex maxF3ListLen ss (i + 1) (f3 ++ list)
    return (f3', f2EntryOf s f3.length list.length :: index)

-- F-2 stands behind the prologue and F-5 behind F-3. There is no F-4.
def prologueOf (blockCount f3Len f5Len : Nat) : FooterPrologue where
  footerLayoutVersion := Format.footerLayoutVersion
  flags := footerFlagF3Present
  blockCount := blockCount
  f2EntryLen := Format.f2EntryLen
  extractionVersion := 0
  f2Offset := footerPrologueLen
  f3Offset := footerPrologueLen + blockCount * Format.f2EntryLen
  f3Len := f3Len
  f4Offset := footerPrologueLen + blockCount * Format.f2EntryLen + f3Len
  f4Len := 0
  f5Offset := footerPrologueLen + blockCount * Format.f2EntryLen + f3Len
  f5Len := f5Len

def buildFooter (blocks : List BlockSummary) (maxF3ListLen maxLen : Nat) :
    Run Err (Bytes × PackStats) := do
  let (f3, index) ← buildIndex maxF3ListLen blocks 0 []
  let stats := aggregate wrapping blocks
  let f5 := appendF5 stats (blocks.length > 0)
  let f3Offset := footerPrologueLen + blocks.length * f2EntryLen
  let f5Offset := f3Offset + f3.length
  failIf (maxLen ≠ 0 ∧ maxLen < f5Offset + f5.length) (.wrap
    "tracepack: footer of %d bytes exceeds the budget of %d: %w"
    [.nat (f5Offset + f5.length), .nat maxLen] (.sentinel .mergeLimit))
  let pro := prologueOf blocks.length f3.length f5.length
  return (appendFooterPrologue pro ++ index.flatMap appendF2Entry ++ f3 ++ f5, stats)

end Tracepack
