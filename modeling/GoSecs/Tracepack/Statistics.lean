import GoSecs.Tracepack.Footer

-- The statistics of a pack, computed from all of its records at once.

namespace Tracepack

open Tlv (SeqRange)
open Format (RecordHeader)

-- A record as the statistics see it: the header and the transport event in the payload, if any.
structure Row where
  header : RecordHeader
  event  : Option TransportEvent := none
deriving DecidableEq

namespace Row

variable (r : Row)

def len : Nat :=
  Format.recordHeaderLen + r.header.extra.length + r.header.payloadLen

-- The record ends its epoch: the socket closed or the capture stopped cleanly.
def closes : Bool :=
  r.event.any fun ev =>
    ev.event = eventSocketClose ∨
    ev.event = eventCaptureBoundary ∧ ev.boundaryKind = some boundaryKindStop

def boundary? : Option BoundarySummary :=
  match r.event with
  | none    => none
  | some ev =>
    if ev.event = eventCaptureBoundary then
      some {
        seq := r.header.seq
        kind := ev.boundaryKind.getD boundaryKindUnknown
        ts := r.header.tsUTCNs
        epoch := r.header.epoch
        gapStart := ev.gapStart
        gapEnd := ev.gapEnd }
    else
      none

end Row

-- How often each value occurs, up to the largest one.
def tally (vs : List UInt8) : List Nat :=
  (List.range (vs.foldr (fun v n => max (v.toNat + 1) n) 0)).map fun v =>
    vs.countP (·.toNat = v)

-- The maximal ranges of the ascending seqs.
def runs : List Nat → List SeqRange
  | [] => []
  | seq :: seqs =>
    match runs seqs with
    | [] => [⟨seq, seq⟩]
    | r :: rs => if seq + 1 = r.first then ⟨seq, r.last⟩ :: rs else ⟨seq, seq⟩ :: r :: rs

def ofEpoch (epoch : Nat) (rs : List Row) : List Row :=
  rs.filter (·.header.epoch = epoch)

def EpochSummary.direct (rs : List Row) (epoch : Nat) : EpochSummary where
  epoch := epoch
  recordCount := (ofEpoch epoch rs).length
  seqFirst := ((ofEpoch epoch rs).map (·.header.seq)).min?.getD 0
  seqLast := ((ofEpoch epoch rs).map (·.header.seq)).max?.getD 0
  tsMin := ((ofEpoch epoch rs).map (·.header.tsUTCNs)).min?.getD 0
  tsMax := ((ofEpoch epoch rs).map (·.header.tsUTCNs)).max?.getD 0
  closeSeq := (((ofEpoch epoch rs).filter Row.closes).map (·.header.seq)).min?

def epochNumbers (rs : List Row) : List Nat :=
  (rs.map (·.header.epoch)).dedup.insertionSort (· ≤ ·)

def PackStats.direct (rs : List Row) : PackStats where
  recordCount := rs.length
  kindCounts := tally (rs.map (·.header.kind))
  dirCounts := tally (rs.map (·.header.dir))
  decodeStatusCounts := tally (rs.map (·.header.decodeStatus))
  tsMin := (rs.map (·.header.tsUTCNs)).min?.getD 0
  tsMax := (rs.map (·.header.tsUTCNs)).max?.getD 0
  contentBytes := (rs.map Row.len).sum
  qualityUnion := (rs.map (·.header.quality)).foldr (· ||| ·) 0
  seqRanges := runs (rs.map (·.header.seq))
  epochs := (epochNumbers rs).map (EpochSummary.direct rs)
  boundaries := rs.filterMap Row.boundary?

end Tracepack
