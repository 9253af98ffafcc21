import GoSecs.Tracepack.EventCodec

open Run

namespace Tracepack

open Format (RecordHeader)

def qualityRedacted : UInt16 := 0x20
def qualityUnobserved : UInt16 := 0x80

def fieldValiditySessionID : UInt8 := 0x01
def fieldValidityStreamAndW : UInt8 := 0x02
def fieldValidityFunction : UInt8 := 0x04
def fieldValidityPType : UInt8 := 0x08
def fieldValiditySType : UInt8 := 0x10
def fieldValiditySystemBytes : UInt8 := 0x20

def recordFlagMonoPresent : UInt8 := 0x02

structure Record where
  seq : Nat
  tsUTCNs : Int64
  monoNs : Int64
  monoPresent : Bool
  epoch : UInt32
  kind : UInt8
  dir : UInt8
  fidelity : UInt8
  decodeStatus : UInt8
  trailingBytes : UInt32
  quality : UInt16
  fieldValidity : UInt8
  payload : Bytes
deriving DecidableEq

def capturedFields (n : Nat) : UInt8 :=
  [(fieldValiditySessionID, 6), (fieldValidityStreamAndW, 7), (fieldValidityFunction, 8),
   (fieldValidityPType, 9), (fieldValiditySType, 10), (fieldValiditySystemBytes, 14)].foldl
    (fun v (bit, stop) => if stop ≤ n then v ||| bit else v) 0

def storedRecord (h : RecordHeader) (payload : Bytes) : Record where
  seq := h.seq
  tsUTCNs := .ofInt h.tsUTCNs
  monoNs := .ofInt h.monoNs
  monoPresent := h.recordFlags &&& recordFlagMonoPresent ≠ 0
  epoch := .ofNat h.epoch
  kind := h.kind
  dir := h.dir
  fidelity := h.fidelity
  decodeStatus := h.decodeStatus
  trailingBytes := .ofNat h.trailingBytes
  quality := h.quality
  fieldValidity := h.fieldValidity
  payload := payload

end Tracepack
