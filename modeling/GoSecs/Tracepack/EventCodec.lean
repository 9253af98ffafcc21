import GoSecs.Tracepack.Body

open Run

namespace Tracepack

open Tlv
open Format (UUID)

structure Annotation where
  annotationKind : UInt8 := 0
  refCaptureID : Option UUID := none
  refSeqFirst : Option Nat := none
  refSeqLast : Option Nat := none
  text : Option Bytes := none
  raw : Option Bytes := none
  sourceIndex : Option Nat := none
  sourceOffset : Option Nat := none
  sourceLen : Option Nat := none
  unknown : List RawEntry := []
deriving DecidableEq

def setPrimarySystemBytes (t : TransportEvent) (e : Entry) : Run Err TransportEvent := do
  let b ← e.bytes
  failIf (b.length ≠ 4) (.field "primary_system_bytes"
    (.wrap "%w: %d bytes, not %d" [.nat b.length, .nat 4] (.sentinel .fieldLength)))
  return { t with primarySystemBytes := some b }

def transportEventSetters : Setters TransportEvent :=
  [(0x0001, setField Entry.u8 fun t v => { t with event := v }),
   (0x0002, setField Entry.u8 fun t v => { t with prevState := some v }),
   (0x0003, setField Entry.u8 fun t v => { t with curState := some v }),
   (0x0004, setField Entry.u8 fun t v => { t with cause := some v }),
   (0x0005, setField Entry.utf8 fun t v => { t with causeRaw := some v }),
   (0x0006, setField Entry.u8 fun t v => { t with timer := some v }),
   (0x0007, setField Entry.u8 fun t v => { t with socketRole := some v }),
   (0x0008, setField Entry.bool fun t v => { t with inferred := some v }),
   (0x0009, setField Entry.u64 fun t v => { t with primarySessionID := some v }),
   (0x000A, setField Entry.u64 fun t v => { t with primaryStream := some v }),
   (0x000B, setField Entry.u64 fun t v => { t with primaryFunction := some v }),
   (0x000C, setPrimarySystemBytes),
   (0x000D, setField Entry.u8 fun t v => { t with boundaryKind := some v }),
   (0x000E, setField Entry.u64 fun t v => { t with boundarySeqFirst := some v }),
   (0x000F, setField Entry.u64 fun t v => { t with boundarySeqLast := some v }),
   (0x0010, setField Entry.i64 fun t v => { t with gapStart := some v }),
   (0x0011, setField Entry.i64 fun t v => { t with gapEnd := some v }),
   (0x0012, setField Entry.utf8 fun t v => { t with detail := some v }),
   (0x0013, setField Entry.i64 fun t v => { t with clockStepNs := some v })]

def annotationSetters : Setters Annotation :=
  [(0x0001, setField Entry.u8 fun a v => { a with annotationKind := v }),
   (0x0002, setField Entry.uuid fun a v => { a with refCaptureID := some v }),
   (0x0003, setField Entry.u64 fun a v => { a with refSeqFirst := some v }),
   (0x0004, setField Entry.u64 fun a v => { a with refSeqLast := some v }),
   (0x0005, setField Entry.utf8 fun a v => { a with text := some v }),
   (0x0006, setField Entry.bytes fun a v => { a with raw := some v }),
   (0x0007, setField Entry.u64 fun a v => { a with sourceIndex := some v }),
   (0x0008, setField Entry.u64 fun a v => { a with sourceOffset := some v }),
   (0x0009, setField Entry.u64 fun a v => { a with sourceLen := some v })]

def parseTransportEvent (b : Bytes) : Run Err TransportEvent := do
  let entries ← decode b
  validate entries transportEvent
  decodeKeeping transportEventSetters (fun t r => { t with unknown := t.unknown ++ [r] })
    { event := 0 } entries

def unmarshalTransportEvent (b : Bytes) : Run Err TransportEvent :=
  mapErr (corruptError "transport-event" · transportEvent) <| parseTransportEvent b

-- Exactly one of text and raw is there.
def Annotation.validateTextRaw (a : Annotation) : Run Err Unit :=
  failIf (a.text.isSome = a.raw.isSome) (.sentinel .annotationText)

def parseAnnotation (b : Bytes) : Run Err Annotation := do
  let entries ← decode b
  validate entries annotation
  let a ← decodeKeeping annotationSetters (fun a r => { a with unknown := a.unknown ++ [r] })
    {} entries
  a.validateTextRaw
  return a

def unmarshalAnnotation (b : Bytes) : Run Err Annotation :=
  mapErr (corruptError "annotation" · annotation) <| parseAnnotation b

end Tracepack
