import GoSecs.Tracepack.Tlv

namespace Tracepack

def kindData : UInt8 := 1
def kindControl : UInt8 := 2
def kindTransportEvent : UInt8 := 3
def kindAnnotation : UInt8 := 4

def eventSocketClose : UInt8 := 5
def eventCaptureBoundary : UInt8 := 6

def boundaryKindUnknown : UInt8 := 0
def boundaryKindStop : UInt8 := 2

structure RawEntry where
  tag   : Nat
  type  : Tlv.ValueType
  value : Bytes
deriving DecidableEq

-- The payload of a transport-event record. Texts are their bytes.
structure TransportEvent where
  event : UInt8
  prevState : Option UInt8 := none
  curState : Option UInt8 := none
  cause : Option UInt8 := none
  causeRaw : Option Bytes := none
  timer : Option UInt8 := none
  socketRole : Option UInt8 := none
  inferred : Option Bool := none
  primarySessionID : Option Nat := none
  primaryStream : Option Nat := none
  primaryFunction : Option Nat := none
  primarySystemBytes : Option Bytes := none
  boundaryKind : Option UInt8 := none
  boundarySeqFirst : Option Nat := none
  boundarySeqLast : Option Nat := none
  gapStart : Option Int := none
  gapEnd : Option Int := none
  detail : Option Bytes := none
  clockStepNs : Option Int := none
  unknown : List RawEntry := []
deriving DecidableEq

end Tracepack
