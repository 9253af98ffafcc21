import GoSecs.Tracepack.Statistics

namespace Tracepack

open Format

structure BlockData where
  rows : List Row
  onDiskLen : Nat
  bodyCRC : Nat
  headerLen : Nat := recordHeaderLen

def BlockSummary.sorted (s : BlockSummary) : BlockSummary :=
  { s with epochs := sortEpochs s.epochs }

namespace BlockData

-- The summary of the records as `finishBlock` places it.
def summary (d : BlockData) (offset : Nat) : BlockSummary :=
  { d.rows.foldl (fun s r => s.addRecord r.header r.event) ({} : BlockSummary) with
    offset
    onDiskLen := d.onDiskLen
    uncompressedLen := (d.rows.map Row.len).sum
    bodyCRC := d.bodyCRC
    recordHeaderLen := d.headerLen
    epochIndex := none }

def place : Nat → List BlockData → List BlockSummary
  | _,      [] => []
  | offset, d :: ds => d.summary offset :: place (offset + d.onDiskLen) ds

def stop : Nat → List BlockData → Nat
  | offset, [] => offset
  | offset, d :: ds => stop (offset + d.onDiskLen) ds

end BlockData

-- A record whose values fit the format.
@[mk_iff]
structure Row.InRange (r : Row) : Prop where
  seq : r.header.seq ≤ Tlv.maxU64
  ts : LittleEndian.InRange 8 r.header.tsUTCNs
  epoch : r.header.epoch < 2 ^ 32
  gapStart : ∀ ev ∈ r.event, ∀ t ∈ ev.gapStart, LittleEndian.InRange 8 t
  gapEnd : ∀ ev ∈ r.event, ∀ t ∈ ev.gapEnd, LittleEndian.InRange 8 t

instance (r : Row) : Decidable r.InRange :=
  decidable_of_iff' _ (Row.inRange_iff r)

@[mk_iff]
structure BlockData.Ok (d : BlockData) : Prop where
  ne_nil : d.rows ≠ []
  inRange : ∀ r ∈ d.rows, r.InRange
  hour : ∀ r ∈ d.rows, ∀ q ∈ d.rows, hourOf r.header.tsUTCNs = hourOf q.header.tsUTCNs
  uncompressedLen : (d.rows.map Row.len).sum ≤ maxLen32
  onDiskLen : envelopeLen ≤ d.onDiskLen ∧ d.onDiskLen ≤ envelopeLen + maxLen32
  bodyCRC : d.bodyCRC < 2 ^ 32
  headerLen : recordHeaderLen ≤ d.headerLen ∧ d.headerLen < 2 ^ 16

instance (d : BlockData) : Decidable d.Ok :=
  decidable_of_iff' _ (BlockData.ok_iff d)

-- The trailer that `finalize` writes behind a footer of the blocks.
def finalizeTrailer (blocks : List BlockSummary) (stats : PackStats)
    (offset footerLen uncompressedLen crc codec : Nat) : Trailer where
  footerOffset := offset
  footerLen := footerLen
  footerUncompressedLen := uncompressedLen
  blockCount := blocks.length
  footerCRC := crc
  recordCount := stats.recordCount
  lastSeq := (blocks.getLast?.map (·.lastSeq)).getD 0
  trailerVersion := 1
  footerCodec := codec
  flags := 0

end Tracepack
