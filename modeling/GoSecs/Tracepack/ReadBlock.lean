import GoSecs.Tracepack.Codec
import GoSecs.Tracepack.Layout
import GoSecs.Tracepack.PackMeta
import GoSecs.Tracepack.Record
import GoSecs.Tracepack.Summary

-- The full read of one block, from its bytes on disk to its records.

open Run

namespace Tracepack

open Codec (Zstd)
open Format

inductive IncompleteReason
  | corruptBlock
  | unknownCodec
  | truncated
  | coverage
  | limit
  | indexMismatch
  | crashGap
deriving DecidableEq

structure Boundary where
  captureID : UUID
  summary   : BoundarySummary
deriving DecidableEq

-- One cause of an incomplete read. A defect of no single block has no `block`.
structure Defect where
  reason : IncompleteReason
  pack : Nat := 0
  block : Option Nat := none
  offset : Option Nat := none
  coverage : Option Coverage := none
  boundary : Option Boundary := none
  err : Err
deriving DecidableEq

-- What is known of a block before it is read: its footer entry, or the envelope that the walk found.
structure BlockInfo where
  offset : Nat
  onDiskLen : Nat
  uncompressedLen : Nat
  recordCount : Nat
  bodyCRC : Nat
  recordHeaderLen : Nat
  firstSeq : Nat
  indexed : Bool := false
  lastSeq : Nat := 0
  tsMin : Int := 0
  tsMax : Int := 0
  epochMin : Nat := 0
  epochMax : Nat := 0
deriving DecidableEq

-- A block that passed every check, with the stored header and the payload of each record.
structure DecodedBlock where
  env : BlockEnvelope
  records : List (RecordHeader × Bytes)
deriving DecidableEq

structure RecordSpan where
  lastSeq  : Nat := 0
  tsMin    : Int := 0
  tsMax    : Int := 0
  epochMin : Nat := 0
  epochMax : Nat := 0
deriving DecidableEq

def RecordSpan.add (s : RecordSpan) (i : Nat) (h : RecordHeader) : RecordSpan :=
  let s := if i = 0 then
      { s with tsMin := h.tsUTCNs, tsMax := h.tsUTCNs, epochMin := h.epoch, epochMax := h.epoch }
    else
      s
  { lastSeq := h.seq
    tsMin := min s.tsMin h.tsUTCNs
    tsMax := max s.tsMax h.tsUTCNs
    epochMin := min s.epochMin h.epoch
    epochMax := max s.epochMax h.epoch }

-- The first pair of values that differ is an error.
def checkAgree (differ : String → Int → Int → Err) : List (String × Int × Int) → Run Err Unit
  | [] => pure ()
  | (name, got, want) :: fs => do
    failIf (got ≠ want) (differ name got want)
    checkAgree differ fs

def RecordSpan.agrees (s : RecordSpan) (info : BlockInfo) : Run Err Unit :=
  checkAgree
    (fun name got want =>
      .text "records give %s %d, the F-2 entry %d" [.text name, .int got, .int want])
    [("last_seq", s.lastSeq, info.lastSeq), ("ts_min", s.tsMin, info.tsMin),
     ("ts_max", s.tsMax, info.tsMax), ("epoch_min", s.epochMin, info.epochMin),
     ("epoch_max", s.epochMax, info.epochMax)]

def envelopeAgrees (e : BlockEnvelope) (info : BlockInfo) : Run Err Unit :=
  let src := if info.indexed then "F-2 entry" else "forward walk"
  checkAgree
    (fun name env idx => .text "envelope %s %d disagrees with the %s's %d"
      [.text name, .int env, .text src, .int idx])
    [("on_disk_len", envelopeLen + e.bodyLen, info.onDiskLen),
     ("uncompressed_len", e.uncompressedLen, info.uncompressedLen),
     ("record_count", e.recordCount, info.recordCount), ("body_crc", e.bodyCRC, info.bodyCRC),
     ("first_seq", e.firstSeq, info.firstSeq),
     ("record_header_len", e.recordHeaderLen, info.recordHeaderLen)]

def checkEnvelope (raw : Bytes) (info : BlockInfo) : Run (IncompleteReason × Err) BlockEnvelope := do
  let env ← mapErr (.corruptBlock, ·) (unmarshalBlockEnvelope raw)
  mapErr (.corruptBlock, ·) (envelopeAgrees env info)
  let got := crc (← slice raw envelopeLen raw.length)
  failIf (got ≠ env.bodyCRC) (.corruptBlock, .wrap "body CRC 0x%08X, body_crc 0x%08X: %w"
    [.nat got, .nat env.bodyCRC] (.sentinel .crc))
  failIf (Codec.known env.codec = false) (.unknownCodec, .wrap "codec %d: %w" [.nat env.codec]
    (.sentinel .unknownCodec))
  return env

def checkBlockSeq (i seq prevSeq firstSeq : Nat) : Run Err Unit := do
  failIf (i = 0 ∧ seq ≠ firstSeq)
    (.text "first record seq %d, first_seq %d" [.nat seq, .nat firstSeq])
  failIf (0 < i ∧ seq ≤ prevSeq)
    (.text "record %d seq %d does not follow %d" [.nat i, .nat seq, .nat prevSeq])

section Records

variable (rows body : Bytes) (env : BlockEnvelope)

def readRow (i : Nat) : Run Err RecordHeader := do
  let b ← slice rows (i * env.recordHeaderLen) rows.length
  let h ← decodeRecordHeader b
  when (maxU64 < h.seq ∨ maxLen32 < h.payloadLen) (do
    let _ ← mapErr (.wrap "record %d: %w" [.nat i]) (unmarshalRecordHeader b recordHeaderLen))
  return { h with extra := ← slice b recordHeaderLen env.recordHeaderLen }

-- The records from number `i` on, whose payloads start at `stop`, and the span over all of them.
def checkRecordsFrom : Nat → Nat → Nat → RecordSpan → Run Err (List (RecordHeader × Bytes) × RecordSpan)
  | 0,     _, stop, span => do
    failIf (stop ≠ env.uncompressedLen)
      (.text "record headers and payloads cover %d bytes, uncompressed_len is %d"
        [.nat stop, .nat env.uncompressedLen])
    return ([], span)
  | n + 1, i, stop, span => do
    let h ← readRow rows env i
    checkBlockSeq i h.seq span.lastSeq env.firstSeq
    let next := stop + h.payloadLen
    failIf (env.uncompressedLen < next)
      (.text "record %d: payload ends at %d, past uncompressed_len %d"
        [.nat i, .nat next, .nat env.uncompressedLen])
    let payload ← slice body stop next
    let (rs, span) ← checkRecordsFrom n (i + 1) next (span.add i h)
    return ((h, payload) :: rs, span)

def checkRecords : Run Err (List (RecordHeader × Bytes) × RecordSpan) :=
  checkRecordsFrom rows body env env.recordCount 0 rows.length {}

end Records

def blockHeaderSectionLen (count headerLen uncompressedLen : Nat) : Run Err Nat := do
  let n ← headerSectionLen count headerLen
  failIf (uncompressedLen < n) (.text "header section of %d bytes exceeds uncompressed_len %d"
    [.nat n, .nat uncompressedLen])
  return n

def decodeBlock (z : Zstd) (env : BlockEnvelope) (raw : Bytes) :
    Run Err (DecodedBlock × RecordSpan) := do
  let n ← blockHeaderSectionLen env.recordCount env.recordHeaderLen env.uncompressedLen
  let body ← mapErr (.wrap "decode body: %w" []) (do
    Codec.decode z env.codec (← slice raw envelopeLen raw.length) env.uncompressedLen)
  let rows := untransposeHeaders (← slice body 0 n) env.recordCount env.recordHeaderLen
  let (records, span) ← checkRecords rows body env
  return ({ env, records }, span)

def blockFault (reason : IncompleteReason) (err : Err) : Option Sentinel :=
  if reason = .limit then none
  else if err.is .crc then some .checksum
  else some .corrupt

def blockDefect (i : Nat) (info : BlockInfo) (reason : IncompleteReason) (err : Err) : Defect where
  reason := reason
  block := some i
  offset := some info.offset
  err := .wrap "tracepack: block %d at offset %d: %w" [.nat i, .nat info.offset]
    ((blockFault reason err).elim err (.mark · err))

-- The block from its bytes on disk. A block whose records disagree with its footer entry has a defect
-- and is read nevertheless.
def checkAndDecode (z : Zstd) (i : Nat) (info : BlockInfo) (raw : Bytes) :
    Run Err (Option DecodedBlock × Option Defect) := do
  match ← attempt (checkEnvelope raw info) with
  | .error (reason, e) => return (none, some (blockDefect i info reason e))
  | .ok env =>
    match ← attempt (decodeBlock z env raw) with
    | .error e => return (none, some (blockDefect i info .corruptBlock e))
    | .ok (d, span) =>
      if info.indexed then
        match ← attempt (span.agrees info) with
        | .error e => return (some d, some (blockDefect i info .indexMismatch e))
        | .ok _    => return (some d, none)
      else
        return (some d, none)

end Tracepack
