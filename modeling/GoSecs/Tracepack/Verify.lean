import GoSecs.Tracepack.Reader

-- The verification of a pack: every block is read in full and compared with what the footer says.

open Run

namespace Tracepack

open Codec (Zstd)
open Format

inductive VerifyOutcome
  | finalizedConsistent
  | finalizedInconsistent
  | finalizedTruncated
  | unfinalized
  | corruptMiddle
deriving DecidableEq

inductive WriterDefectKind
  | fieldValidity
  | eventFieldValidity
  | eventPayload
  | seqOrder
  | hourSpan
  | seqStart
deriving DecidableEq

structure WriterDefect where
  kind   : WriterDefectKind
  block  : Nat
  offset : Nat
  seq    : Nat
  err    : Err
deriving DecidableEq

structure Findings where
  validated : Nat := 0
  records : Nat := 0
  prefixEnd : Nat
  failed : List Defect := []
  disagreements : List Defect := []
  writerDefects : List WriterDefect := []
  lost : List Coverage := []
deriving DecidableEq

structure VerifyReport extends Findings where
  outcome   : VerifyOutcome
  finalized : Bool
  footerErr : Option Err
  blocks    : Nat
deriving DecidableEq

-- The loop over the blocks: which of them failed, whether all were validated so far, and the last seq
-- of the latest validated block.
structure Analysis extends Findings where
  fails    : List Bool := []
  inPrefix : Bool := true
  prevSeq  : Option Nat := none
deriving DecidableEq

-- Whether a block failed, or nothing when one was validated after that.
def scanFailed : List Bool → Bool → Option Bool
  | [],          seenFailed => some seenFailed
  | true :: fs,  _ => scanFailed fs true
  | false :: _,  true => none
  | false :: fs, false => scanFailed fs false

def classifyOutcome (finalized : Bool) (failed : List Bool) (walkStopped inconsistent : Bool) :
    VerifyOutcome :=
  match scanFailed failed false with
  | none => .corruptMiddle
  | some seenFailed =>
    if finalized = false then .unfinalized
    else if seenFailed || walkStopped then .finalizedTruncated
    else if inconsistent then .finalizedInconsistent
    else .finalizedConsistent

section Records

-- The event of a transport-event record. A payload that does not decode gives none.
def eventOf (h : RecordHeader) (payload : Bytes) : Run Err (Option TransportEvent) := do
  if h.kind = kindTransportEvent then
    return (← attempt (parseTransportEvent payload)).toOption
  else
    return none

def summaryOf (d : DecodedBlock) : Run Err BlockSummary := do
  let s ← d.records.foldlM (fun (s : BlockSummary) (h, payload) => do
    return s.addRecord h (← eventOf h payload)) {}
  return { s with epochIndex := none }

def checkStatedCounts : List (String × List Nat × List Nat) → Run Err Unit
  | [] => pure ()
  | (name, got, want) :: cs => do
    failIf (trimZeros got ≠ trimZeros want)
      (.text "F-3 %s %v, the records give %v" [.text name, .nats want, .nats got])
    checkStatedCounts cs

def checkStated (stated got : BlockSummary) : Run Err Unit := do
  checkStatedCounts
    [("kind_counts", got.kindCounts, stated.kindCounts),
     ("dir_counts", got.dirCounts, stated.dirCounts),
     ("decode_status_counts", got.decodeStatusCounts, stated.decodeStatusCounts)]
  failIf (got.qualityUnion ≠ stated.qualityUnion)
    (.text "F-3 quality_union 0x%04X, the records give 0x%04X"
      [.nat stated.qualityUnion.toNat, .nat got.qualityUnion.toNat])
  failIf (got.seqRanges ≠ stated.seqRanges)
    (.text "F-3 seq_range entries %v, the records hold %v"
      [.pairs (stated.seqRanges.map fun r => (r.first, r.last)),
       .pairs (got.seqRanges.map fun r => (r.first, r.last))])
  failIf (sortEpochs got.epochs ≠ sortEpochs stated.epochs)
    (.text "F-3 epoch entries differ from the records' epochs" [])
  failIf (equalBoundarySets got.boundaries stated.boundaries = false)
    (.text "F-3 boundary entries differ from the records' boundaries" [])

def checkEventPayload (kind : UInt8) (payload : Bytes) : Run Err Unit := do
  if kind = kindTransportEvent then
    let _ ← parseTransportEvent payload
  else
    let _ ← parseAnnotation payload

variable (i : Nat) (info : BlockInfo)

def writerDefect (kind : WriterDefectKind) (seq : Nat) (err : Err) : WriterDefect :=
  { kind, block := i, offset := info.offset, seq, err }

-- The defects of one record. A record of another kind has no rule to check.
def recordDefects (h : RecordHeader) (payload : Bytes) : Run Err (List WriterDefect) := do
  let fv := h.fieldValidity &&& fieldValidityMask
  let kind := h.kind
  if kind = kindData ∨ kind = kindControl then
    let beyond := fv &&& ~~~capturedFields payload.length
    if beyond ≠ 0 then
      return [writerDefect i info .fieldValidity h.seq (.wrap
        "tracepack: record seq %d: field_validity marks %s, but the payload is %d bytes: %w"
        [.nat h.seq, .nat beyond.toNat, .nat payload.length] (.sentinel .fieldValidity))]
    else
      return []
  else if kind = kindTransportEvent ∨ kind = kindAnnotation then
    let marked :=
      if fv ≠ 0 then
        [writerDefect i info .eventFieldValidity h.seq (.wrap
          "tracepack: %s record seq %d: %w: field_validity %s, not 0"
          [.nat kind.toNat, .nat h.seq, .nat fv.toNat] (.sentinel .invalidRecord))]
      else
        []
    match ← attempt (checkEventPayload kind payload) with
    | .ok _ => return marked
    | .error err =>
      return marked ++ [writerDefect i info .eventPayload h.seq (.wrap
        "tracepack: %s record seq %d: %w" [.nat kind.toNat, .nat h.seq]
        (.mark .invalidRecord err))]
  else
    return []

def allRecordDefects : List (RecordHeader × Bytes) → Run Err (List WriterDefect)
  | [] => return []
  | (h, payload) :: rs => do
    let ds ← recordDefects i info h payload
    return ds ++ (← allRecordDefects rs)

-- The defects of a validated block, behind one whose last seq is `prevSeq`.
def writerDefects (d : DecodedBlock) (prevSeq : Option Nat) : Run Err (List WriterDefect) :=
  match d.records with
  | [] => return []
  | (first, _) :: _ => do
    let order := prevSeq.toList.filterMap fun prev =>
      if first.seq ≤ prev then
        some (writerDefect i info .seqOrder first.seq (.text
          "tracepack: block %d at offset %d: first seq %d is not above the previous block's last seq %d"
          [.nat i, .nat info.offset, .nat first.seq, .nat prev]))
      else
        none
    let ds ← allRecordDefects i info d.records
    let times := d.records.map (·.1.tsUTCNs)
    let tsMin := times.foldl min first.tsUTCNs
    let tsMax := times.foldl max first.tsUTCNs
    let span :=
      if hourOf tsMin ≠ hourOf tsMax then
        [writerDefect i info .hourSpan first.seq (.text
          "tracepack: block %d at offset %d: records span %d to %d, more than one UTC hour"
          [.nat i, .nat info.offset, .int tsMin, .int tsMax])]
      else
        []
    return order ++ ds ++ span

-- The first validated block starts at the seq of the pack, or above it behind a failed block.
def seqStartDefect (seqStart firstSeq : Nat) (afterFailed : Bool) : List WriterDefect :=
  if afterFailed ∧ firstSeq ≤ seqStart then
    [writerDefect i info .seqStart firstSeq (.text
      "tracepack: block %d at offset %d: first seq %d after a failed block is not above seq_start %d"
      [.nat i, .nat info.offset, .nat firstSeq, .nat seqStart])]
  else if afterFailed = false ∧ firstSeq ≠ seqStart then
    [writerDefect i info .seqStart firstSeq (.text
      "tracepack: block %d at offset %d: first seq %d is not seq_start %d"
      [.nat i, .nat info.offset, .nat firstSeq, .nat seqStart])]
  else
    []

end Records

namespace Reader

variable (r : Reader) (z : Zstd)

def failVerify : Option Err → Run Err Unit
  | some err => fail (.wrap "tracepack: verify: %w" [] err)
  | none => pure ()

def limitErr (fault : Option Defect) : Option Err :=
  (fault.filter (·.reason = .limit)).map (·.err)

-- A limit that the bootstrap reached is an error, and never a lost record.
def checkBootstrapLimits : Run Err Unit := do
  failVerify (r.footerErr.filter fun err => r.finalized && err.is .readLimit)
  failVerify (limitErr r.walkStop)

def summarize (i : Nat) (info : BlockInfo) (d : DecodedBlock) : Run Err (Option Defect) :=
  match r.footer with
  | none => return none
  | some idx => do
    let got ← summaryOf d
    match ← attempt (checkStated (← index idx.blocks i) got) with
    | .error err => return some (blockDefect i info .indexMismatch err)
    | .ok _ => return none

-- One entry for each seq range of a failed block.
def lostOf (i : Nat) : Run Err (List Coverage) :=
  match r.footer with
  | none => return []
  | some idx => do
    let s ← index idx.blocks i
    return s.seqRanges.map fun sr => {
      captureID := some r.hdr.captureID
      seqFirst  := some (.ofNat sr.first)
      seqLast   := some (.ofNat sr.last)
      timeStart := some (.ofInt s.tsMin)
      timeEnd   := some (.ofInt s.tsMax) }

-- The walked blocks of a finalized pack against its trailer.
def checkWalkTotals : Run Err Unit :=
  match r.footer, r.finalized, r.trailer with
  | none, true, some tr =>
    let records := r.blocks.foldl (fun n info => addSat n info.recordCount) 0
    failIf (r.blocks.length ≠ tr.blockCount ∨ records ≠ tr.recordCount) (.wrap
      ("tracepack: forward walk found %d blocks of %d records, the trailer claims %d blocks of %d " ++
        "records: %w")
      [.nat r.blocks.length, .nat records, .nat tr.blockCount, .nat tr.recordCount]
      (.sentinel .corrupt))
  | none, true, none => panic
  | _,    _,    _    => pure ()

def recordFailure (i : Nat) (a : Analysis) (fault : Defect) : Run Err Analysis := do
  return { a with
    fails := a.fails ++ [true]
    inPrefix := false
    failed := a.failed ++ [fault]
    lost := a.lost ++ (← r.lostOf i) }

-- A block that did not fail. It is listed once: its F-3 summary is compared only when it agrees with
-- its F-2 entry.
def recordBlock (i : Nat) (info : BlockInfo) (a : Analysis) (d : DecodedBlock)
    (fault : Option Defect) : Run Err Analysis := do
  let fault ← (match fault with
    | some fault => pure (some fault)
    | none => r.summarize i info d)
  let start := match a.prevSeq, d.records with
    | none, (first, _) :: _ =>
      seqStartDefect i info r.packMeta.seqStart.toNat first.seq (!a.inPrefix)
    | _, _ => []
  let ds ← writerDefects i info d a.prevSeq
  return { a with
    fails := a.fails ++ [false]
    prevSeq := (d.records.getLast?.map (·.1.seq)) <|> a.prevSeq
    validated := a.validated + 1
    records := (a.records + d.records.length) % 2 ^ 64
    prefixEnd := if a.inPrefix then info.offset + info.onDiskLen else a.prefixEnd
    disagreements := a.disagreements ++ fault.toList
    writerDefects := a.writerDefects ++ start ++ ds }

def recordRead (i : Nat) (info : BlockInfo) (a : Analysis) :
    Option DecodedBlock × Option Defect → Run Err Analysis
  | (some d, fault) => r.recordBlock i info a d fault
  | (none,   some fault) => r.recordFailure i a fault
  | (none,   none) => panic

-- `ctx` holds what `ctx.Err` gives before each block.
def analyzeBlock (ctx : Nat → Option Err) (a : Analysis) (i : Nat) : Run Err Analysis := do
  failVerify (ctx i)
  let info ← index r.blocks i
  let res ← r.readBlock z i
  failVerify (limitErr res.2)
  r.recordRead i info a res

-- The end of the walk, or the totals when it reached the end.
def recordWalk (a : Analysis) : Run Err Analysis :=
  match r.walkStop with
  | some stop => return { a with failed := a.failed ++ [stop] }
  | none => do
    match ← attempt r.checkWalkTotals with
    | .error err => return { a with disagreements := a.disagreements ++
        [{ reason := .indexMismatch, err }] }
    | .ok _ => return a

def verify (ctx : Nat → Option Err) : Run Err VerifyReport := do
  r.checkBootstrapLimits
  let a ← (List.range r.blocks.length).foldlM (r.analyzeBlock z ctx)
    { prefixEnd := blocksStart r.hdr }
  let a ← r.recordWalk a
  let inconsistent := r.footerErr.isSome || !a.disagreements.isEmpty
  return { a.toFindings with
    outcome := classifyOutcome r.finalized a.fails r.walkStop.isSome inconsistent
    finalized := r.finalized
    footerErr := r.footerErr
    blocks := r.blocks.length }

end Reader
end Tracepack
