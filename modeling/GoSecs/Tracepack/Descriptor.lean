import GoSecs.Tracepack.PackMeta

-- The capture descriptor, which is the part of the pack metadata that a producer owns.

open Run

namespace Tracepack

open Tlv

def captureMethodRawStream : UInt8 := 1
def captureMethodDecodedMessage : UInt8 := 2

def maxThinningStream   : UInt64 := 127
def maxThinningFunction : UInt64 := 255

def descriptorRequired : List Nat :=
  [0x0002, 0x0003, 0x0004, 0x0005, 0x0006, 0x0009, 0x0012, 0x0013, 0x001B, 0x000A, 0x000B, 0x0028]

def descriptorOptional : List Nat :=
  [0x001C, 0x001E, 0x001F, 0x0020, 0x0021, 0x0022, 0x0023, 0x0024, 0x0025, 0x0026, 0x0033, 0x0034,
   0x0035]

def descriptorRegistry : Registry :=
  packMetadata.filterMap fun (tag, f) =>
    if tag ∈ descriptorRequired then
      some (tag, .mk f.name f.type f.repeatable true f.since f.nested)
    else if tag ∈ descriptorOptional then some (tag, f)
    else none

-- The tags of the nested lists that a descriptor may not extend.
def closedRegistry (tag : Nat) : Option (String × Registry) :=
  if tag = 0x0033 then some ("thinning", thinning)
  else if tag = 0x0026 then some ("hsms_timers", hsmsTimers)
  else none

def checkNestedTags (name : String) (reg : Registry) (nested : List Entry) : Run Err Unit :=
  nested.forM fun n => failIf ((reg.lookup n.tag).isNone = true)
    (.field (name ++ "." ++ tagText n.tag)
      (.wrap "%w: not a %s tag" [.text name] (.sentinel .fieldValue)))

def checkDescriptorTags (entries : List Entry) : Run Err Unit :=
  entries.forM fun e => do
    failIf ((descriptorRegistry.lookup e.tag).isNone = true) (.field (tagName packMetadata e.tag)
      (.wrap "%w: not a capture descriptor tag" [] (.sentinel .fieldValue)))
    match closedRegistry e.tag with
    | none => pure ()
    | some (name, reg) =>
      -- A value that is no list is left to the check of the registry.
      match ← attempt (decode e.value) with
      | .error _ => pure ()
      | .ok nested => checkNestedTags name reg nested

def checkThinning : List Thinning → Nat → Run Err Unit
  | [],      _ => pure ()
  | t :: ts, i => do
    failIf (t.stream > maxThinningStream ∨ t.function > maxThinningFunction) (.field "thinning"
      (.wrap "%w: entry %d names S%dF%d, outside S0-S127, F0-F255"
        [.nat i, .nat t.stream.toNat, .nat t.function.toNat] (.sentinel .fieldValue)))
    checkThinning ts (i + 1)

def checkDescriptorValues (m : PackMeta) : Run Err Unit := do
  failIf (m.captureMethod ≠ captureMethodRawStream ∧ m.captureMethod ≠ captureMethodDecodedMessage)
    (.field "capture_method" (.wrap "%w: %s is not served by the bus" [.nat m.captureMethod.toNat]
      (.sentinel .fieldValue)))
  failIf (m.timeSource ≠ timeSourceClock)
    (.field "time_source" (.wrap "%w: %s is not served by the bus" [.nat m.timeSource.toNat]
      (.sentinel .fieldValue)))
  checkThinning m.thinning 0

def parseDescriptor (b : Bytes) : Run Err PackMeta := do
  let entries ← decode b
  checkDescriptorTags entries
  validate entries descriptorRegistry
  let m ← entries.foldlM (fun m e =>
    match (packMetaSetters formatMinorNewest).lookup e.tag with
    | some set => set m e
    | none => panic) {}
  checkDescriptorValues m
  return m

def decodeDescriptor (b : Bytes) : Run Err PackMeta :=
  mapErr (corruptError "capture descriptor" · descriptorRegistry) (parseDescriptor b)

end Tracepack
