import GoSecs.Lib.Run

namespace Tracepack

-- The sentinel errors of the packages format (the first six), tlv (the next ten), codec (the next
-- seven), tracepack, marking, secsitem and redact, those of io, and those of the keys and the bus.
inductive Sentinel
  | badMagic
  | crc
  | limit
  | schema
  | short
  | corruptStructure
  | truncated
  | zeroTag
  | length
  | type
  | duplicate
  | missing
  | u64Limit
  | utf8
  | bool
  | depth
  | unknownCodec
  | lengthMismatch
  | incompleteStream
  | trailingBytes
  | notZstdFrame
  | dictionary
  | windowTooLarge
  | corrupt
  | invalidFooter
  | readLimit
  | mergeLimit
  | recordLimit
  | notTracepack
  | unsupportedFormat
  | checksum
  | notFinalized
  | invalidArgument
  | invalidRecord
  | fieldValidity
  | requiredTag
  | fieldValue
  | fieldLength
  | annotationText
  | redactionDefect
  | rangesMalformed
  | rangesEmpty
  | rangeLength
  | rangeOrder
  | sivLength
  | entryOrder
  | seq
  | kindNotMaskable
  | redactedBit
  | rangeOutside
  | rangePrefix
  | rangeValue
  | sivMissing
  | sivAnnotation
  | encryptedOverlap
  | itemDepth
  | pattern
  | invalidPolicy
  | overlappingRules
  | domain
  | cannotScreen
  | notUnobserved
  | redacted
  | keySize
  | noEncryption
  | unsupportedAlgorithm
  | notRestorable
  | authentication
  | eof
  | unexpectedEOF
  | invalidUUID
  | invalidKey
  | malformed
  | unsupportedLayout
  | notAccepted
  | payloadMismatch
deriving DecidableEq

-- The sentinel that `newChildSentinel` made another one the parent of.
def Sentinel.parent : Sentinel → Option Sentinel
  | invalidFooter => some corrupt
  | checksum => some corrupt
  | invalidKey => some invalidArgument
  | _ => none

inductive Arg
  | nat (n : Nat)
  | int (v : Int)
  | bool (b : Bool)
  | text (s : String)
  | bytes (b : List UInt8)
  | nats (ns : List Nat)
  | pairs (ps : List (Nat × Nat))
deriving DecidableEq

-- A sentinel, a text without a cause, or a text around its cause. `mark` is the text "%w: %w" of a
-- sentinel and a cause, `tagged` any other text around both. `join` is `errors.Join`.
inductive Err
  | sentinel (s : Sentinel)
  | text (format : String) (args : List Arg)
  | wrap (format : String) (args : List Arg) (err : Err)
  | mark (s : Sentinel) (err : Err)
  | tagged (format : String) (args : List Arg) (s : Sentinel) (err : Err)
  | offset (layout field : String) (pos : Nat) (err : Err)
  | entry (tag : Nat) (pos : Int) (err : Err)
  | field (name : String) (err : Err)
  | join (err rest : Err)
deriving DecidableEq

namespace Err

-- `errors.Is`
def is : Err → Sentinel → Bool
  | sentinel s,     t => s = t ∨ s.parent = some t
  | text _ _,       _ => false
  | wrap _ _ e,     t => e.is t
  | mark s e,       t => (s = t ∨ s.parent = some t) || e.is t
  | tagged _ _ s e, t => (s = t ∨ s.parent = some t) || e.is t
  | offset _ _ _ e, t => e.is t
  | entry _ _ e,    t => e.is t
  | field _ e,      t => e.is t
  | join e rest,    t => e.is t || rest.is t

def joined : Err → List Err → Err
  | e, []      => e
  | e, f :: es => join e (joined f es)

end Err
end Tracepack
