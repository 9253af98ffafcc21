import GoSecs.Lib.Splice
import GoSecs.Tracepack.Body

open Run

namespace Tracepack

open Tlv
open Format (UUID)

def packRoleExtract : UInt8 := 3
def packRoleRepair : UInt8 := 4
def captureMethodLog : UInt8 := 3
def timeSourceClock : UInt8 := 1
def timeSourceLog : UInt8 := 2
def formatMinorNewest : Nat := 2

structure Coverage where
  captureID : Option UUID := none
  seqFirst  : Option UInt64 := none
  seqLast   : Option UInt64 := none
  timeStart : Option Int64 := none
  timeEnd   : Option Int64 := none
  unknown   : List RawEntry := []
deriving DecidableEq

structure RedactionPolicy where
  policyID : Bytes := []
  policyVersion : UInt64 := 0
  keyID : Bytes := []
  digestAlgorithm : UInt8 := 0
  encryptionAlgorithm : Option UInt8 := none
  encryptionKeyID : Option Bytes := none
deriving DecidableEq

abbrev MaskedRange := Splice.Span

-- The masks of one record that have the same domain. `rawMaskedRanges` keeps ranges that are not
-- whole pairs.
structure RedactionEntry where
  seq : Nat := 0
  itemPath : Option Bytes := none
  maskedRanges : List MaskedRange := []
  rawMaskedRanges : Bytes := []
  domain : Bytes := []
  digest : Bytes := []
  siv : Bytes := []
  hasSIV : Bool := false
deriving DecidableEq

structure Thinning where
  stream   : UInt64 := 0
  function : UInt64 := 0
  source   : Bytes := []
deriving DecidableEq

structure HSMSTimers where
  t1Ms : Option UInt64 := none
  t2Ms : Option UInt64 := none
  t3Ms : Option UInt64 := none
  t4Ms : Option UInt64 := none
  t5Ms : Option UInt64 := none
  t6Ms : Option UInt64 := none
  t7Ms : Option UInt64 := none
  t8Ms : Option UInt64 := none
deriving DecidableEq

structure PackMeta where
  equipmentID : Bytes := []
  transport : UInt8 := 0
  captureMethod : UInt8 := 0
  vantage : UInt8 := 0
  recorder : Bytes := []
  writer : Bytes := []
  classifiers : List Bytes := []
  timeSource : UInt8 := 0
  captureOriginUTCNs : Option Int64 := none
  captureOriginMonoNs : Option Int64 := none
  sourceTZ : Option Bytes := none
  sourceDialect : Option Bytes := none
  sourceRefs : List Bytes := []
  maxFrameLens : List UInt64 := []
  periodStart : Int64 := 0
  periodEnd : Int64 := 0
  lifecycleCoverage : UInt8 := 0
  qualityEvaluated : Bool := false
  supersedes : List UUID := []
  coverage : List Coverage := []
  notes : Option Bytes := none
  packRole : UInt8 := 0
  compactionLevel : UInt8 := 0
  compactedFrom : List UUID := []
  recorderInstanceID : UUID := .zero
  recorderInstanceName : Option Bytes := none
  device : Option Bytes := none
  previousCaptureID : Option UUID := none
  extractFilter : Option Bytes := none
  siteID : Option Bytes := none
  equipmentModel : Option Bytes := none
  equipmentSWRev : Option Bytes := none
  hostSoftware : Option Bytes := none
  hostEndpoint : Option Bytes := none
  equipmentEndpoint : Option Bytes := none
  equipmentConnectMode : Option UInt8 := none
  deviceID : Option UInt64 := none
  hsmsTimers : Option HSMSTimers := none
  seqStart : UInt64 := 0
  clockStepToleranceNs : Option UInt64 := none
  replacementSetID : Option UUID := none
  replacementSetSize : Option UInt64 := none
  replacementSetIndex : Option UInt64 := none
  flushIntervalNs : Option UInt64 := none
  scopeGeneration : Option UInt64 := none
  publisherEpoch : Option UInt64 := none
  patchBase : Option UUID := none
  redactionPolicy : Option RedactionPolicy := none
  redaction : List RedactionEntry := []
  thinning : List Thinning := []
  unknown : List RawEntry := []
deriving DecidableEq

def coverageSetters : Setters Coverage :=
  [(0x0001, setField Entry.uuid fun c v => { c with captureID := some v }),
   (0x0002, setField u64As fun c v => { c with seqFirst := some v }),
   (0x0003, setField u64As fun c v => { c with seqLast := some v }),
   (0x0004, setField i64As fun c v => { c with timeStart := some v }),
   (0x0005, setField i64As fun c v => { c with timeEnd := some v })]

def decodeCoverage (nested : List Entry) : Run Err Coverage :=
  decodeKeeping coverageSetters (fun c r => { c with unknown := c.unknown ++ [r] }) {} nested

def redactionPolicySetters : Setters RedactionPolicy :=
  [(0x0001, setField Entry.utf8 fun p v => { p with policyID := v }),
   (0x0002, setField u64As fun p v => { p with policyVersion := v }),
   (0x0003, setField Entry.utf8 fun p v => { p with keyID := v }),
   (0x0004, setField Entry.u8 fun p v => { p with digestAlgorithm := v }),
   (0x0005, setField Entry.u8 fun p v => { p with encryptionAlgorithm := some v }),
   (0x0006, setField Entry.utf8 fun p v => { p with encryptionKeyID := some v })]

def maskedRangesOf : List Nat → List MaskedRange
  | off :: len :: rest => ⟨off, len⟩ :: maskedRangesOf rest
  | _ => []

def setMaskedRanges (r : RedactionEntry) (e : Entry) : Run Err RedactionEntry := do
  let b ← e.bytes
  return match decodeU64Array b with
  | .ok arr =>
    if arr.length % 2 ≠ 0 then
      { r with maskedRanges := [], rawMaskedRanges := b }
    else
      { r with maskedRanges := maskedRangesOf arr, rawMaskedRanges := [] }
  | .error _ => { r with maskedRanges := [], rawMaskedRanges := b }

def redactionEntrySetters : Setters RedactionEntry :=
  [(0x0001, setField Entry.u64 fun r v => { r with seq := v }),
   (0x0002, setField Entry.utf8 fun r v => { r with itemPath := some v }),
   (0x0003, setMaskedRanges),
   (0x0004, setField Entry.utf8 fun r v => { r with domain := v }),
   (0x0005, setField Entry.bytes fun r v => { r with digest := v }),
   (0x0006, setField Entry.bytes fun r v => { r with siv := v, hasSIV := true })]

def thinningSetters : Setters Thinning :=
  [(0x0001, setField u64As fun t v => { t with stream := v }),
   (0x0002, setField u64As fun t v => { t with function := v }),
   (0x0003, setField Entry.utf8 fun t v => { t with source := v })]

def hsmsTimersSetters : Setters HSMSTimers :=
  [(1, setField u64As fun t v => { t with t1Ms := some v }),
   (2, setField u64As fun t v => { t with t2Ms := some v }),
   (3, setField u64As fun t v => { t with t3Ms := some v }),
   (4, setField u64As fun t v => { t with t4Ms := some v }),
   (5, setField u64As fun t v => { t with t5Ms := some v }),
   (6, setField u64As fun t v => { t with t6Ms := some v }),
   (7, setField u64As fun t v => { t with t7Ms := some v }),
   (8, setField u64As fun t v => { t with t8Ms := some v })]

def decodeHSMSTimers (nested : List Entry) : Run Err HSMSTimers :=
  decodeNested hsmsTimersSetters {} nested

section Setters

variable (minor : Nat)

def redactionPolicySetter : PackMeta → Entry → Run Err PackMeta :=
  setNested (decodeNested (settersAt redactionPolicySetters redactionPolicy minor) {})
    fun m v => { m with redactionPolicy := some v }

def redactionSetter : PackMeta → Entry → Run Err PackMeta :=
  setNested (decodeNested (settersAt redactionEntrySetters redaction minor) {})
    fun m v => { m with redaction := m.redaction ++ [v] }

-- The setters of the newest minor version, with the nested ones of `minor`.
def packMetaSetters : Setters PackMeta :=
  [(0x0002, setField Entry.utf8 fun m v => { m with equipmentID := v }),
   (0x0003, setField Entry.u8 fun m v => { m with transport := v }),
   (0x0004, setField Entry.u8 fun m v => { m with captureMethod := v }),
   (0x0005, setField Entry.u8 fun m v => { m with vantage := v }),
   (0x0006, setField Entry.utf8 fun m v => { m with recorder := v }),
   (0x0007, setField Entry.utf8 fun m v => { m with writer := v }),
   (0x0008, setField Entry.utf8 fun m v => { m with classifiers := m.classifiers ++ [v] }),
   (0x0009, setField Entry.u8 fun m v => { m with timeSource := v }),
   (0x000A, setField i64As fun m v => { m with captureOriginUTCNs := some v }),
   (0x000B, setField i64As fun m v => { m with captureOriginMonoNs := some v }),
   (0x000C, setField Entry.utf8 fun m v => { m with sourceTZ := some v }),
   (0x000D, setField Entry.utf8 fun m v => { m with sourceDialect := some v }),
   (0x000E, setField Entry.utf8 fun m v => { m with sourceRefs := m.sourceRefs ++ [v] }),
   (0x000F, setField u64As fun m v => { m with maxFrameLens := m.maxFrameLens ++ [v] }),
   (0x0010, setField i64As fun m v => { m with periodStart := v }),
   (0x0011, setField i64As fun m v => { m with periodEnd := v }),
   (0x0012, setField Entry.u8 fun m v => { m with lifecycleCoverage := v }),
   (0x0013, setField Entry.bool fun m v => { m with qualityEvaluated := v }),
   (0x0015, setField Entry.uuid fun m v => { m with supersedes := m.supersedes ++ [v] }),
   (0x0016, setNested decodeCoverage fun m v => { m with coverage := m.coverage ++ [v] }),
   (0x0017, setField Entry.utf8 fun m v => { m with notes := some v }),
   (0x0018, setField Entry.u8 fun m v => { m with packRole := v }),
   (0x0019, setField Entry.u8 fun m v => { m with compactionLevel := v }),
   (0x001A, setField Entry.uuid fun m v => { m with compactedFrom := m.compactedFrom ++ [v] }),
   (0x001B, setField Entry.uuid fun m v => { m with recorderInstanceID := v }),
   (0x001C, setField Entry.uuid fun m v => { m with previousCaptureID := some v }),
   (0x001D, setField Entry.utf8 fun m v => { m with extractFilter := some v }),
   (0x001E, setField Entry.utf8 fun m v => { m with siteID := some v }),
   (0x001F, setField Entry.utf8 fun m v => { m with equipmentModel := some v }),
   (0x0020, setField Entry.utf8 fun m v => { m with equipmentSWRev := some v }),
   (0x0021, setField Entry.utf8 fun m v => { m with hostSoftware := some v }),
   (0x0022, setField Entry.utf8 fun m v => { m with hostEndpoint := some v }),
   (0x0023, setField Entry.utf8 fun m v => { m with equipmentEndpoint := some v }),
   (0x0024, setField Entry.u8 fun m v => { m with equipmentConnectMode := some v }),
   (0x0025, setField u64As fun m v => { m with deviceID := some v }),
   (0x0026, setNested decodeHSMSTimers fun m v => { m with hsmsTimers := some v }),
   (0x0027, setField u64As fun m v => { m with seqStart := v }),
   (0x0028, setField u64As fun m v => { m with clockStepToleranceNs := some v }),
   (0x0029, setField Entry.uuid fun m v => { m with replacementSetID := some v }),
   (0x002A, setField u64As fun m v => { m with replacementSetSize := some v }),
   (0x002B, setField u64As fun m v => { m with replacementSetIndex := some v }),
   (0x002C, setField u64As fun m v => { m with flushIntervalNs := some v }),
   (0x002D, setField u64As fun m v => { m with scopeGeneration := some v }),
   (0x002E, setField u64As fun m v => { m with publisherEpoch := some v }),
   (0x002F, setField Entry.uuid fun m v => { m with patchBase := some v }),
   (0x0031, redactionPolicySetter minor),
   (0x0032, redactionSetter minor),
   (0x0033, setNested (decodeNested thinningSetters {}) fun m v =>
     { m with thinning := m.thinning ++ [v] }),
   (0x0034, setField Entry.utf8 fun m v => { m with recorderInstanceName := some v }),
   (0x0035, setField Entry.utf8 fun m v => { m with device := some v })]

end Setters

-- What the caller knows about the records of the pack.
structure PackFacts where
  anyClassified : Bool := false
  anyOversized : Bool := false
  anyRedacted : Bool := false
  redactionPolicyApplied : Bool := false
  generationHasPredecessor : Bool := false
  coverageLoss : Bool := false
  scopeHasGeneration : Bool := false
  durableRecorder : Bool := false

namespace PackMeta

variable (m : PackMeta)

-- A field that is required under a condition, and whether it is there.
def required (facts : PackFacts) : List (String × Bool × Bool) :=
  let isPatch := m.packRole = packRoleRepair
  let isGeneration := m.scopeGeneration.any (1 ≤ ·)
  let isClock := m.timeSource = timeSourceClock
  let isLog := m.captureMethod = captureMethodLog
  [("classifier", facts.anyClassified || facts.anyOversized, m.classifiers ≠ []),
   ("capture_origin_utc_ns", isClock, m.captureOriginUTCNs.isSome),
   ("capture_origin_mono_ns", isClock, m.captureOriginMonoNs.isSome),
   ("source_tz", m.timeSource = timeSourceLog, m.sourceTZ.isSome),
   ("source_dialect", isLog, m.sourceDialect.isSome),
   ("source_ref", isLog, m.sourceRefs ≠ []),
   ("max_frame_len", facts.anyOversized, m.maxFrameLens ≠ []),
   ("supersedes", isPatch || (isGeneration && facts.generationHasPredecessor), m.supersedes ≠ []),
   ("coverage", isPatch && facts.coverageLoss, m.coverage ≠ []),
   ("extract_filter", m.packRole = packRoleExtract, m.extractFilter.isSome),
   ("clock_step_tolerance_ns", isClock, m.clockStepToleranceNs.isSome),
   ("flush_interval_ns", facts.durableRecorder, m.flushIntervalNs.isSome),
   ("scope_generation", m.packRole ≠ packRoleExtract, m.scopeGeneration.isSome),
   ("publisher_epoch", isGeneration, m.publisherEpoch.isSome),
   ("patch_base", isPatch && facts.scopeHasGeneration, m.patchBase.isSome),
   ("replacement_set_id", isGeneration, m.replacementSetID.isSome),
   ("replacement_set_size", m.replacementSetID.isSome, m.replacementSetSize.isSome),
   ("replacement_set_index", m.replacementSetID.isSome, m.replacementSetIndex.isSome),
   ("redaction_policy", facts.redactionPolicyApplied, m.redactionPolicy.isSome),
   ("redaction", facts.anyRedacted, m.redaction ≠ [])]

def checkFields : List (String × Bool × Bool) → Run Err Unit
  | [] => pure ()
  | (field, required, present) :: rest => do
    failIf (required = true ∧ present = false) (.field field (.sentinel .requiredTag))
    checkFields rest

def validate (facts : PackFacts) : Run Err Unit := do
  checkFields (m.required facts)
  failIf (m.replacementSetSize.any (· ≠ 1)) (.field "replacement_set_size" (.sentinel .fieldValue))
  failIf (m.replacementSetIndex.any (· ≠ 0)) (.field "replacement_set_index" (.sentinel .fieldValue))

def validateIntrinsic : Run Err Unit :=
  m.validate {}

end PackMeta

def parsePackMeta (b : Bytes) (minor : Nat) : Run Err PackMeta := do
  let entries ← decode b
  validateMinor entries packMetadata minor
  let minor := min minor formatMinorNewest
  let m ← decodeKeeping (settersAt (packMetaSetters minor) packMetadata minor)
    (fun m r => { m with unknown := m.unknown ++ [r] }) {} entries
  m.validateIntrinsic
  return m

def unmarshalPackMetaMinor (b : Bytes) (minor : Nat) : Run Err PackMeta :=
  mapErr (corruptError "pack metadata" · packMetadata) (parsePackMeta b minor)

end Tracepack
