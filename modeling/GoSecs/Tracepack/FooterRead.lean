import Mathlib.Data.List.DropRight
import GoSecs.Lib.BinarySearch
import GoSecs.Tracepack.Footer

open Run LittleEndian

namespace Tracepack

open Format Tlv

-- A decoded footer that passed the footer validation. `f3` and `f3Spans` are kept for a merge only.
structure FooterIndex where
  blocks : List BlockSummary
  f3 : Option Bytes
  f3Spans : List (Nat × Nat)
  stats : PackStats

structure FooterSections where
  f2 : Bytes
  f3 : Bytes
  f5 : Bytes

def footerErrorf (format : String) (args : List Arg) : Err :=
  .mark .invalidFooter (.text format args)

def footerWrapf (format : String) (args : List Arg) (err : Err) : Err :=
  .mark .invalidFooter (.wrap format args err)

def checkPrologue (pro : FooterPrologue) (tr : Trailer) : Run Err Unit := do
  failIf (pro.flags &&& footerFlagF3Present = 0)
    (footerErrorf "F-1 flags 0x%04X lack F-3 present" [.nat pro.flags])
  failIf (decide (pro.flags &&& footerFlagF4Present ≠ 0) ≠ decide (pro.f4Len ≠ 0))
    (footerErrorf "F-1 flags 0x%04X disagree with f4_len %d on F-4 present"
      [.nat pro.flags, .nat pro.f4Len])
  failIf (pro.f2Offset ≠ footerPrologueLen)
    (footerErrorf "F-1 f2_offset %d, not %d" [.nat pro.f2Offset, .nat footerPrologueLen])
  failIf (pro.blockCount ≠ tr.blockCount)
    (footerErrorf "F-1 block_count %d, trailer block_count %d"
      [.nat pro.blockCount, .nat tr.blockCount])
  failIf (pro.blockCount = 0 ∧ pro.f3Len ≠ 0)
    (footerErrorf "F-1 f3_len %d in a pack without blocks" [.nat pro.f3Len])

section Parse

variable (word : Word)

-- The sections lie in `decoded` in this order and without overlap, from `prevEnd` on.
def sections (decoded : Bytes) : List (String × Nat × Nat) → Nat → Run Err (List Bytes)
  | [],                   _ => pure []
  | (name, off, n) :: ss, prevEnd => do
    let stop := word (off + n)
    failIf (2 ^ 64 ≤ off + n ∨ off < prevEnd ∨ decoded.length < stop) (footerErrorf
      ("%s at offset %d of %d bytes does not lie between the previous section's end %d and " ++
        "the footer's end %d")
      [.text name, .nat off, .nat n, .nat prevEnd, .nat decoded.length])
    let sec ← slice decoded off stop
    return sec :: (← sections decoded ss stop)

def locateSections (decoded : Bytes) (pro : FooterPrologue) : Run Err FooterSections := do
  let f2Len := word (pro.blockCount * pro.f2EntryLen)
  let sec ← sections word decoded
    [("F-2", pro.f2Offset, f2Len), ("F-3", pro.f3Offset, pro.f3Len),
     ("F-4", pro.f4Offset, pro.f4Len), ("F-5", pro.f5Offset, pro.f5Len)] footerPrologueLen
  return { f2 := ← index sec 0, f3 := ← index sec 1, f5 := ← index sec 3 }

-- The rules of one F-2 entry that need no other entry.
def checkBlockEntry (e : F2Entry) (f3Len : Nat) : Run Err Unit := do
  failIf (e.onDiskLen < envelopeLen)
    (.text "F-2 on_disk_len %d below the %d-byte envelope" [.nat e.onDiskLen, .nat envelopeLen])
  failIf (e.recordCount = 0) (.text "F-2 record_count 0" [])
  failIf (e.lastSeq < e.firstSeq)
    (.text "F-2 first_seq %d above last_seq %d" [.nat e.firstSeq, .nat e.lastSeq])
  failIf (e.tsMax < e.tsMin) (.text "F-2 ts_min %d above ts_max %d" [.int e.tsMin, .int e.tsMax])
  failIf (hourOf e.tsMin ≠ hourOf e.tsMax)
    (.text "F-2 ts_min %d and ts_max %d lie in different UTC hours" [.int e.tsMin, .int e.tsMax])
  failIf (e.epochMax < e.epochMin)
    (.text "F-2 epoch_min %d above epoch_max %d" [.nat e.epochMin, .nat e.epochMax])
  failIf (e.summaryLen = 0) (.text "F-2 summary_len 0" [])
  failIf (f3Len < e.summaryOffset ∨ f3Len - e.summaryOffset < e.summaryLen)
    (.text "F-2 summary at %d of %d bytes outside the %d-byte F-3"
      [.nat e.summaryOffset, .nat e.summaryLen, .nat f3Len])

-- The loop of `parseBlockIndex` from block `i` on: `n` blocks are left, `next` is the end of the block
-- before and `prev` its last seq.
def parseEntries (f2 : Bytes) (entryLen f3Len : Nat) :
    Nat → Nat → Nat → Option Nat → Run Err (List F2Entry × Nat)
  | 0,     _, next, _    => pure ([], next)
  | n + 1, i, next, prev => do
    let rest ← slice f2 (i * entryLen) f2.length
    let e ← mapErr (footerWrapf "block %d: F-2: %w" [.nat i]) (unmarshalF2Entry rest entryLen)
    failIf (e.offset ≠ next) (footerErrorf "block %d: F-2 offset %d, the previous block ends at %d"
      [.nat i, .nat e.offset, .nat next])
    mapErr (footerWrapf "block %d: %w" [.nat i]) (checkBlockEntry e f3Len)
    failIf (prev.any (e.firstSeq ≤ ·)) (footerErrorf
      "block %d: F-2 first_seq %d does not follow the previous last_seq %d"
      [.nat i, .nat e.firstSeq, .nat (prev.getD 0)])
    let (es, stop) ← parseEntries f2 entryLen f3Len n (i + 1) (word (e.offset + e.onDiskLen))
      (some e.lastSeq)
    return (e :: es, stop)

def parseBlockIndex (f2 : Bytes) (pro : FooterPrologue) (blocksStart footerOffset : Nat) :
    Run Err (List F2Entry) := do
  let (entries, next) ←
    parseEntries word f2 pro.f2EntryLen pro.f3Len pro.blockCount 0 blocksStart none
  failIf (next ≠ footerOffset)
    (footerErrorf "blocks end at %d, footer_offset is %d" [.nat next, .nat footerOffset])
  return entries

-- The summary with the block index fields of an F-2 entry, the inverse of `f2EntryOf`.
def blockSummaryOf (e : F2Entry) : BlockSummary where
  offset := e.offset
  onDiskLen := e.onDiskLen
  uncompressedLen := e.uncompressedLen
  recordCount := e.recordCount
  bodyCRC := e.bodyCRC
  recordHeaderLen := e.recordHeaderLen
  firstSeq := e.firstSeq
  lastSeq := e.lastSeq
  tsMin := e.tsMin
  tsMax := e.tsMax
  epochMin := e.epochMin
  epochMax := e.epochMax

def epochNumberOf (e : Entry) : Run Err Nat := do
  let v ← e.u64
  failIf (2 ^ 32 - 1 < v) (.text "epoch %d exceeds 2^32-1" [.nat v])
  return v

def setEpoch (out : EpochSummary) (n : Entry) : Run Err EpochSummary :=
  if n.tag = epochTagEpoch then do
    return { out with epoch := ← epochNumberOf n }
  else if n.tag = epochTagRecordCount then do
    return { out with recordCount := ← n.u64 }
  else if n.tag = epochTagSeqFirst then do
    return { out with seqFirst := ← n.u64 }
  else if n.tag = epochTagSeqLast then do
    return { out with seqLast := ← n.u64 }
  else if n.tag = epochTagTSMin then do
    return { out with tsMin := ← n.i64 }
  else if n.tag = epochTagTSMax then do
    return { out with tsMax := ← n.i64 }
  else if n.tag = epochTagCloseSeq then do
    return { out with closeSeq := some (← n.u64) }
  else
    pure out

def epochOf (e : Entry) : Run Err EpochSummary := do
  (← e.nested).foldlM setEpoch
    { epoch := 0, recordCount := 0, seqFirst := 0, seqLast := 0, tsMin := 0, tsMax := 0 }

def setBoundary (out : BoundarySummary) (n : Entry) : Run Err BoundarySummary :=
  if n.tag = boundaryTagSeq then do
    return { out with seq := ← n.u64 }
  else if n.tag = boundaryTagKind then do
    return { out with kind := ← n.u8 }
  else if n.tag = boundaryTagTS then do
    return { out with ts := ← n.i64 }
  else if n.tag = boundaryTagEpoch then do
    return { out with epoch := ← epochNumberOf n }
  else if n.tag = boundaryTagGapStart then do
    return { out with gapStart := some (← n.i64) }
  else if n.tag = boundaryTagGapEnd then do
    return { out with gapEnd := some (← n.i64) }
  else
    pure out

def boundaryOf (e : Entry) : Run Err BoundarySummary := do
  (← e.nested).foldlM setBoundary { seq := 0, kind := 0, ts := 0, epoch := 0 }

def qualityUnionOf (e : Entry) : Run Err UInt16 := do
  let v ← e.u64
  failIf (2 ^ 16 - 1 < v) (.text "0x%X sets bits above the 16 quality bits" [.nat v])
  return UInt16.ofNat v

def setF3 (s : BlockSummary) (e : Entry) : Run Err BlockSummary :=
  if e.tag = f3TagKindCounts then do
    return { s with kindCounts := ← decodeU32Array e.value }
  else if e.tag = f3TagDirCounts then do
    return { s with dirCounts := ← decodeU32Array e.value }
  else if e.tag = f3TagDecodeStatusCounts then do
    return { s with decodeStatusCounts := ← decodeU32Array e.value }
  else if e.tag = f3TagQualityUnion then do
    return { s with qualityUnion := ← qualityUnionOf e }
  else if e.tag = f3TagEpoch then do
    return { s with epochs := s.epochs ++ [← epochOf e] }
  else if e.tag = f3TagBoundary then do
    return { s with boundaries := s.boundaries ++ [← boundaryOf e] }
  else if e.tag = f3TagSeqRange then do
    return { s with seqRanges := s.seqRanges ++ [← decodeSeqRange e.value] }
  else
    pure s

-- The sum of the counts, which stops as soon as it passes `want`.
def countSum (want : Nat) : List Nat → Nat → Run Err Nat
  | [],      sum => pure sum
  | c :: cs, sum => do
    let sum := word (sum + c)
    failIf (want < sum) (.text "sums past record_count %d" [.nat want])
    countSum want cs sum

def checkCountSum (counts : List Nat) (want : Nat) : Run Err Unit := do
  let sum ← countSum word want counts 0
  failIf (sum ≠ want) (.text "sums to %d, record_count is %d" [.nat sum, .nat want])

namespace BlockSummary

-- The loop of `checkSeqSet` from range `j` on. `prev` is the end of the range before.
def checkRanges (s : BlockSummary) : List SeqRange → Nat → Option Nat → Nat → Run Err Nat
  | [],      _, _,    members => pure members
  | r :: rs, j, prev, members => do
    failIf (r.last < r.first)
      (.text "seq_range %d runs from %d back to %d" [.nat j, .nat r.first, .nat r.last])
    failIf (prev = none ∧ r.first ≠ s.firstSeq)
      (.text "seq_range 0 starts at %d, first_seq is %d" [.nat r.first, .nat s.firstSeq])
    failIf (prev.any fun last : Nat => r.first ≤ word (last + 1))
      (.text "seq_range %d starts at %d, overlapping or touching the previous one ending at %d"
        [.nat j, .nat r.first, .nat (prev.getD 0)])
    let members := word (members + word (r.last - r.first + 1))
    failIf (s.recordCount < members)
      (.text "seq_range entries hold more than record_count %d seqs" [.nat s.recordCount])
    checkRanges s rs (j + 1) (some r.last) members

-- The seq set holds exactly `recordCount` seqs. A block without ranges gets its one contiguous range.
def checkSeqSet (s : BlockSummary) : Run Err BlockSummary :=
  match s.seqRanges.getLast? with
  | none => do
    let span := word (s.lastSeq - s.firstSeq + 1)
    failIf (span ≠ s.recordCount)
      (.text "without seq_range entries seqs %d to %d are %d records, record_count is %d"
        [.nat s.firstSeq, .nat s.lastSeq, .nat span, .nat s.recordCount])
    return { s with seqRanges := [⟨s.firstSeq, s.lastSeq⟩] }
  | some r => do
    let members ← checkRanges word s s.seqRanges 0 none 0
    failIf (r.last ≠ s.lastSeq)
      (.text "seq_range entries end at %d, last_seq is %d" [.nat r.last, .nat s.lastSeq])
    failIf (members ≠ s.recordCount)
      (.text "seq_range entries hold %d seqs, record_count is %d"
        [.nat members, .nat s.recordCount])
    return s

def inSeqSet (s : BlockSummary) (seq : Nat) : Bool :=
  (BinarySearch.find (fun r => r.last < seq) (fun r => ¬r.last < seq ∧ ¬seq < r.first)
    s.seqRanges).isSome

end BlockSummary

-- Two neighbours of one epoch among the sorted epochs.
def twice : List EpochSummary → Option Nat
  | a :: b :: es => if b.epoch = a.epoch then some b.epoch else twice (b :: es)
  | _ => none

def checkUniqueEpochs (epochs : List EpochSummary) : Run Err Unit :=
  match twice (sortEpochs epochs) with
  | some n => fail (.text "epoch %d listed twice" [.nat n])
  | none   => pure ()

namespace BlockSummary

def checkEpoch (s : BlockSummary) (e : EpochSummary) : Run Err Unit := do
  failIf (e.epoch < s.epochMin ∨ s.epochMax < e.epoch)
    (.text "epoch %d outside epoch_min %d to epoch_max %d"
      [.nat e.epoch, .nat s.epochMin, .nat s.epochMax])
  failIf (e.recordCount = 0) (.text "epoch %d record_count 0" [.nat e.epoch])
  failIf (e.seqLast < e.seqFirst ∨ e.seqFirst < s.firstSeq ∨ s.lastSeq < e.seqLast)
    (.text "epoch %d seqs %d to %d outside the block's %d to %d"
      [.nat e.epoch, .nat e.seqFirst, .nat e.seqLast, .nat s.firstSeq, .nat s.lastSeq])
  failIf (e.tsMax < e.tsMin ∨ e.tsMin < s.tsMin ∨ s.tsMax < e.tsMax)
    (.text "epoch %d times %d to %d outside the block's %d to %d"
      [.nat e.epoch, .int e.tsMin, .int e.tsMax, .int s.tsMin, .int s.tsMax])
  failIf (e.closeSeq.any (fun seq => !s.inSeqSet seq))
    (.text "epoch %d close_seq %d is not a seq of the block"
      [.nat e.epoch, .nat (e.closeSeq.getD 0)])

def sumEpochs (s : BlockSummary) : List EpochSummary → Nat → Run Err Nat
  | [],      total => pure total
  | e :: es, total => do
    s.checkEpoch e
    let total := word (total + e.recordCount)
    failIf (s.recordCount < total)
      (.text "epoch record counts sum past record_count %d" [.nat s.recordCount])
    sumEpochs s es total

def checkEpochs (s : BlockSummary) : Run Err Unit := do
  checkUniqueEpochs s.epochs
  let total ← sumEpochs word s s.epochs 0
  failIf (total ≠ s.recordCount) (.text "epoch record counts sum to %d, record_count is %d"
    [.nat total, .nat s.recordCount])

def checkBoundaries (s : BlockSummary) : List BoundarySummary → Run Err Unit
  | [] => pure ()
  | b :: bs => do
    failIf (s.inSeqSet b.seq = false)
      (.text "boundary seq %d is not a seq of the block" [.nat b.seq])
    checkBoundaries s bs

def checkSummary (s : BlockSummary) : Run Err BlockSummary := do
  mapErr (.wrap "%s %w" [.text "kind_counts"]) (checkCountSum word s.kindCounts s.recordCount)
  mapErr (.wrap "%s %w" [.text "dir_counts"]) (checkCountSum word s.dirCounts s.recordCount)
  mapErr (.wrap "%s %w" [.text "decode_status_counts"])
    (checkCountSum word s.decodeStatusCounts s.recordCount)
  let s ← s.checkSeqSet word
  s.checkEpochs word
  s.checkBoundaries s.boundaries
  return s

end BlockSummary

def decodeValidated (b : Bytes) (reg : Registry) : Run Err (List Entry) := do
  let entries ← decode b
  validate entries reg
  return entries

def parseBlockSummary (i : Nat) (list : Bytes) (e : F2Entry) : Run Err BlockSummary := do
  let entries ← mapErr (footerWrapf "block %d: F-3: %w" [.nat i]) (decodeValidated list f3)
  let s ← entries.foldlM (fun s en =>
    mapErr (footerWrapf "block %d: F-3 %s: %w" [.nat i, .text (f3.nameOf en.tag)]) (setF3 s en))
    (blockSummaryOf e)
  mapErr (footerWrapf "block %d: F-3 %w" [.nat i]) (s.checkSummary word)

def setF5 (st : PackStats) (e : Entry) : Run Err PackStats :=
  if e.tag = f5TagRecordCount then do
    return { st with recordCount := ← e.u64 }
  else if e.tag = f5TagKindCounts then do
    return { st with kindCounts := ← decodeU64Array e.value }
  else if e.tag = f5TagDirCounts then do
    return { st with dirCounts := ← decodeU64Array e.value }
  else if e.tag = f5TagDecodeStatusCounts then do
    return { st with decodeStatusCounts := ← decodeU64Array e.value }
  else if e.tag = f5TagTSMin then do
    return { st with tsMin := ← e.i64 }
  else if e.tag = f5TagTSMax then do
    return { st with tsMax := ← e.i64 }
  else if e.tag = f5TagContentBytes then do
    return { st with contentBytes := ← e.u64 }
  else if e.tag = f5TagQualityUnion then do
    return { st with qualityUnion := ← qualityUnionOf e }
  else if e.tag = f5TagSeqRange then do
    return { st with seqRanges := st.seqRanges ++ [← decodeSeqRange e.value] }
  else if e.tag = f5TagEpoch then do
    return { st with epochs := st.epochs ++ [← epochOf e] }
  else if e.tag = f5TagBoundary then do
    return { st with boundaries := st.boundaries ++ [← boundaryOf e] }
  else
    pure st

def f5Required : List Nat :=
  [f5TagRecordCount, f5TagKindCounts, f5TagDirCounts, f5TagDecodeStatusCounts, f5TagContentBytes,
   f5TagQualityUnion]

def checkPresent (seen : List Nat) : List Nat → Run Err Unit
  | [] => pure ()
  | tag :: tags => do
    failIf (tag ∉ seen) (footerErrorf "F-5 lacks %s" [.text (f5.nameOf tag)])
    checkPresent seen tags

def checkTimes (seen : List Nat) (hasBlocks : Bool) : List Nat → Run Err Unit
  | [] => pure ()
  | tag :: tags => do
    failIf (decide (tag ∈ seen) ≠ hasBlocks) (footerErrorf
      "F-5 %s present is %t in a pack whose block presence is %t"
      [.text (f5.nameOf tag), .bool (decide (tag ∈ seen)), .bool hasBlocks])
    checkTimes seen hasBlocks tags

def parsePackStats (f5 : Bytes) (hasBlocks : Bool) : Run Err PackStats := do
  let entries ← mapErr (footerWrapf "F-5: %w" []) (decodeValidated f5 Tlv.f5)
  let st ← entries.foldlM (fun st en =>
    mapErr (footerWrapf "F-5 %s: %w" [.text (Tlv.f5.nameOf en.tag)]) (setF5 st en)) {}
  let seen := entries.map Entry.tag
  checkPresent seen f5Required
  checkTimes seen hasBlocks [f5TagTSMin, f5TagTSMax]
  mapErr (footerWrapf "F-5 %w" []) (checkUniqueEpochs st.epochs)
  return st

def equalEpochSets (got want : List EpochSummary) : Bool :=
  sortEpochs got = want

-- An absent value comes before any present one.
def compareOptional : Option Int → Option Int → Ordering
  | none,   none   => .eq
  | none,   some _ => .lt
  | some _, none   => .gt
  | some a, some b => compare a b

def compareBoundaries (a b : BoundarySummary) : Ordering :=
  (compare a.seq b.seq).then <| (compare a.kind.toNat b.kind.toNat).then <|
  (compare a.ts b.ts).then <| (compare a.epoch b.epoch).then <|
  (compareOptional a.gapStart b.gapStart).then <| compareOptional a.gapEnd b.gapEnd

def sortBoundaries (bs : List BoundarySummary) : List BoundarySummary :=
  bs.insertionSort (compareBoundaries · · ≠ .gt)

def equalBoundarySets (got want : List BoundarySummary) : Bool :=
  got.length = want.length &&
    ((sortBoundaries got).zip (sortBoundaries want)).all fun (x, y) => compareBoundaries x y = .eq

def trimZeros (counts : List Nat) : List Nat :=
  counts.rdropWhile (· = 0)

def checkCounts (name : String) (got want : List Nat) : Run Err Unit :=
  failIf (trimZeros got ≠ trimZeros want)
    (footerErrorf "F-5 %s %v, the blocks' sum is %v" [.text name, .nats got, .nats want])

-- The statistics are those of the blocks, compared by meaning.
def checkPackStats (got want : PackStats) : Run Err Unit := do
  failIf (got.recordCount ≠ want.recordCount) (footerErrorf
    "F-5 record_count %d, the blocks hold %d" [.nat got.recordCount, .nat want.recordCount])
  failIf (got.tsMin ≠ want.tsMin ∨ got.tsMax ≠ want.tsMax) (footerErrorf
    "F-5 ts_min %d and ts_max %d, the blocks span %d to %d"
    [.int got.tsMin, .int got.tsMax, .int want.tsMin, .int want.tsMax])
  failIf (got.contentBytes ≠ want.contentBytes) (footerErrorf
    "F-5 content_bytes %d, the blocks hold %d" [.nat got.contentBytes, .nat want.contentBytes])
  failIf (got.qualityUnion ≠ want.qualityUnion) (footerErrorf
    "F-5 quality_union 0x%04X, the blocks' union is 0x%04X"
    [.nat got.qualityUnion.toNat, .nat want.qualityUnion.toNat])
  failIf (got.seqRanges ≠ want.seqRanges) (footerErrorf
    "F-5 seq_range entries %v, the blocks hold %v"
    [.pairs (got.seqRanges.map fun r => (r.first, r.last)),
     .pairs (want.seqRanges.map fun r => (r.first, r.last))])
  failIf (equalEpochSets got.epochs want.epochs = false)
    (footerErrorf "F-5 epoch entries differ from the blocks' epochs" [])
  failIf (equalBoundarySets got.boundaries want.boundaries = false)
    (footerErrorf "F-5 boundary entries differ from the blocks' boundaries" [])
  checkCounts "kind_counts" got.kindCounts want.kindCounts
  checkCounts "dir_counts" got.dirCounts want.dirCounts
  checkCounts "decode_status_counts" got.decodeStatusCounts want.decodeStatusCounts

def checkTrailerTotals (st : PackStats) (blocks : List BlockSummary) (tr : Trailer) :
    Run Err Unit := do
  failIf (tr.recordCount ≠ st.recordCount) (footerErrorf
    "trailer record_count %d, F-5 record_count %d" [.nat tr.recordCount, .nat st.recordCount])
  failIf (blocks.getLast?.any (tr.lastSeq ≠ ·.lastSeq)) (footerErrorf
    "trailer last_seq %d, the last block's last_seq %d"
    [.nat tr.lastSeq, .nat ((blocks.getLast?.map (·.lastSeq)).getD 0)])

-- The order in which `Stats` returns them: epochs by epoch, boundaries by seq.
def PackStats.normalize (st : PackStats) : PackStats :=
  { st with
    epochs := sortEpochs st.epochs
    boundaries := st.boundaries.insertionSort (·.seq ≤ ·.seq) }

-- The F-2 entries from entry `i` on, with the length of the lists so far.
def parseSummaries (f3 : Bytes) (footerOffset maxF3 : Nat) :
    List F2Entry → Nat → Nat → Run Err (List BlockSummary)
  | [],      _, _ => pure []
  | e :: es, i, listsLen => do
    let listsLen := word (listsLen + e.summaryLen)
    failIf (maxF3 < listsLen) (.wrap
      ("tracepack: footer at offset %d: the F-3 lists of blocks 0 to %d total %d bytes and " ++
        "exceed MaxFooterLen %d: %w")
      [.nat footerOffset, .nat i, .nat listsLen, .nat maxF3] (.sentinel .readLimit))
    let list ← slice f3 e.summaryOffset (word (e.summaryOffset + e.summaryLen))
    let s ← parseBlockSummary word i list e
    return s :: (← parseSummaries f3 footerOffset maxF3 es (i + 1) listsLen)

def parseFooter (decoded : Bytes) (tr : Trailer) (blocksStart maxF3 : Nat) (keepF3 : Bool) :
    Run Err FooterIndex := do
  let pro ← mapErr (footerWrapf "F-1: %w" []) (unmarshalFooterPrologue decoded)
  checkPrologue pro tr
  let sec ← locateSections word decoded pro
  let entries ← parseBlockIndex word sec.f2 pro blocksStart tr.footerOffset
  let blocks ← parseSummaries word sec.f3 tr.footerOffset maxF3 entries 0 0
  let stats ← parsePackStats sec.f5 (blocks.length > 0)
  checkPackStats stats (aggregate word blocks)
  checkTrailerTotals stats blocks tr
  return {
    blocks
    f3 := if keepF3 then some sec.f3 else none
    f3Spans := if keepF3 then entries.map fun e => (e.summaryOffset, e.summaryLen) else []
    stats := stats.normalize }

end Parse
end Tracepack
