import GoSecs.Tracepack.Event

namespace Tracepack

open Format (RecordHeader)
open Tlv (SeqRange)

def hourNs : Int := 3600000000000

-- The UTC hour of a time. Go's division rounds toward zero.
def hourOf (ts : Int) : Int :=
  let h := ts.tdiv hourNs
  if ts.tmod hourNs < 0 then h - 1 else h

structure EpochSummary where
  epoch : Nat
  recordCount : Nat
  seqFirst : Nat
  seqLast : Nat
  tsMin : Int
  tsMax : Int
  closeSeq : Option Nat := none
deriving DecidableEq

structure BoundarySummary where
  seq : Nat
  kind : UInt8
  ts : Int
  epoch : Nat
  gapStart : Option Int := none
  gapEnd : Option Int := none
deriving DecidableEq

-- An epoch's position is looked up in `epochIndex` once there are many, and the latest item of an
-- epoch counts.
structure BlockSummary where
  offset : Nat := 0
  onDiskLen : Nat := 0
  uncompressedLen : Nat := 0
  recordCount : Nat := 0
  bodyCRC : Nat := 0
  recordHeaderLen : Nat := 0
  firstSeq : Nat := 0
  lastSeq : Nat := 0
  tsMin : Int := 0
  tsMax : Int := 0
  epochMin : Nat := 0
  epochMax : Nat := 0
  kindCounts : List Nat := []
  dirCounts : List Nat := []
  decodeStatusCounts : List Nat := []
  qualityUnion : UInt16 := 0
  epochs : List EpochSummary := []
  epochIndex : Option (List (Nat × Nat)) := none
  boundaries : List BoundarySummary := []
  seqRanges : List SeqRange := []
  verbatimF3 : Bytes := []
deriving DecidableEq

def maxLinearEpochs : Nat := 8

-- The increments of `uint32` and `uint64` variables.
def inc32 (n : Nat) : Nat := (n + 1) % 2 ^ 32
def inc64 (n : Nat) : Nat := (n + 1) % 2 ^ 64

def countEnum (counts : List Nat) (v : UInt8) : List Nat :=
  let grown :=
    if counts.length ≤ v.toNat then
      counts ++ List.replicate (v.toNat + 1 - counts.length) 0
    else
      counts
  grown.modify v.toNat inc32

namespace BlockSummary

variable (s : BlockSummary)

-- The last seq run grows by `seq`, or a new run starts after a gap.
def addSeq (seq : Nat) : BlockSummary :=
  match s.seqRanges.getLast? with
  | some r =>
    if inc64 r.last = seq then
      { s with seqRanges := s.seqRanges.dropLast ++ [{ r with last := seq }] }
    else
      { s with seqRanges := s.seqRanges ++ [⟨seq, seq⟩] }
  | none => { s with seqRanges := s.seqRanges ++ [⟨seq, seq⟩] }

def indexEpochs : List EpochSummary → Nat → List (Nat × Nat) → List (Nat × Nat)
  | [],      _, idx => idx
  | e :: es, j, idx => indexEpochs es (j + 1) ((e.epoch, j) :: idx)

-- The position of the entry of `epoch`, and the summary with its index built when it was needed.
def findEpoch (epoch : Nat) : Option Nat × BlockSummary :=
  match s.epochs.getLast? with
  | none   => (none, s)
  | some e =>
    if e.epoch = epoch then
      (some (s.epochs.length - 1), s)
    else if s.epochs.length ≤ maxLinearEpochs then
      (s.epochs.dropLast.findIdx? (·.epoch = epoch), s)
    else
      let idx := s.epochIndex.getD (indexEpochs s.epochs 0 [])
      (idx.lookup epoch, { s with epochIndex := some idx })

def epochEntry (h : RecordHeader) : Nat × BlockSummary :=
  match s.findEpoch h.epoch with
  | (some i, s) =>
    (i, { s with epochs := s.epochs.modify i fun e => { e with
      recordCount := inc64 e.recordCount
      seqLast := h.seq
      tsMin := min e.tsMin h.tsUTCNs
      tsMax := max e.tsMax h.tsUTCNs } })
  | (none, s) =>
    let e : EpochSummary := {
      epoch := h.epoch
      recordCount := 1
      seqFirst := h.seq
      seqLast := h.seq
      tsMin := h.tsUTCNs
      tsMax := h.tsUTCNs }
    (s.epochs.length, { s with
      epochs := s.epochs ++ [e]
      epochIndex := s.epochIndex.map ((h.epoch, s.epochs.length) :: ·) })

-- A boundary entry for a capture-boundary event, and the close seq of the record's epoch, at position
-- `i`, for a socket-close event or a clean stop boundary.
def addEvent (h : RecordHeader) (ev : TransportEvent) (i : Nat) : BlockSummary :=
  let kind := ev.boundaryKind.getD boundaryKindUnknown
  let (s, closes) :=
    if ev.event = eventCaptureBoundary then
      ({ s with boundaries := s.boundaries ++ [{
          seq := h.seq, kind, ts := h.tsUTCNs, epoch := h.epoch
          gapStart := ev.gapStart, gapEnd := ev.gapEnd }] },
       decide (kind = boundaryKindStop))
    else
      (s, decide (ev.event = eventSocketClose))
  if closes then
    { s with epochs := s.epochs.modify i fun e => { e with closeSeq := e.closeSeq <|> some h.seq } }
  else
    s

def addRecord (h : RecordHeader) (ev : Option TransportEvent) : BlockSummary :=
  let s :=
    if s.recordCount = 0 then
      { s with
        firstSeq := h.seq
        tsMin := h.tsUTCNs
        tsMax := h.tsUTCNs
        epochMin := h.epoch
        epochMax := h.epoch }
    else
      s
  let s := { s with
    recordCount := inc32 s.recordCount
    lastSeq := h.seq
    tsMin := min s.tsMin h.tsUTCNs
    tsMax := max s.tsMax h.tsUTCNs
    epochMin := min s.epochMin h.epoch
    epochMax := max s.epochMax h.epoch
    kindCounts := countEnum s.kindCounts h.kind
    dirCounts := countEnum s.dirCounts h.dir
    decodeStatusCounts := countEnum s.decodeStatusCounts h.decodeStatus
    qualityUnion := s.qualityUnion ||| h.quality }
  let (i, s) := (s.addSeq h.seq).epochEntry h
  match ev with
  | some ev => s.addEvent h ev i
  | none    => s

end BlockSummary
end Tracepack
