import GoSecs.Lib.LittleEndian
import GoSecs.Tracepack.Error

open Run LittleEndian

namespace Tracepack

abbrev Bytes := List UInt8

namespace Format

def maxU64   : Nat := 2 ^ 63 - 1
def maxLen32 : Nat := 2 ^ 31 - 1

def envelopeLen : Nat := 40
def recordHeaderLen : Nat := 44
def footerPrologueLen : Nat := 72
def f2EntryLen : Nat := 80
def footerLayoutVersion : Nat := 1
def footerFlagF3Present : Nat := 1
def footerFlagF4Present : Nat := 2

structure LimitField where
  name  : String
  off   : Nat
  value : Nat

def checkShort (layout : String) (b : Bytes) (n : Nat) : Run Err Unit :=
  failIf (b.length < n) (.offset layout "length" b.length
    (.wrap "need %d bytes, have %d: %w" [.nat n, .nat b.length] (.sentinel .short)))

def checkVersion (layout field : String) (off got want : Nat) : Run Err Unit :=
  failIf (got ≠ want) (.offset layout field off
    (.wrap "version %d, want %d: %w" [.nat got, .nat want] (.sentinel .schema)))

-- `checkU64` and `checkLen32`: the value is at most the limit.
def checkLimit (limit : Nat) (field : String) (v : Nat) : Run Err Unit :=
  failIf (limit < v) (.wrap "%s: value %d exceeds the %d limit: %w"
    [.text field, .nat v, .nat limit] (.sentinel .limit))

def checkLimitFields (limit : Nat) (layout : String) : List LimitField → Run Err Unit
  | [] => pure ()
  | f :: fs => do
    mapErr (.offset layout f.name f.off) (checkLimit limit f.name f.value)
    checkLimitFields limit layout fs

def checkU64Fields : String → List LimitField → Run Err Unit :=
  checkLimitFields maxU64

def checkLen32Fields : String → List LimitField → Run Err Unit :=
  checkLimitFields maxLen32

def checkRecordHeaderLen (layout : String) (off n : Nat) : Run Err Unit :=
  failIf (n < recordHeaderLen) (.offset layout "record_header_len" off
    (.wrap "record_header_len %d below %d: %w" [.nat n, .nat recordHeaderLen]
      (.sentinel .corruptStructure)))

-- `binary.LittleEndian.Uint64(b[lo:hi])` and its like.
def uint (b : Bytes) (lo hi : Nat) : Run Err Nat := do
  return nat (← slice b lo hi)

def int64 (b : Bytes) (lo hi : Nat) : Run Err Int := do
  return signed 8 (← uint b lo hi)

structure UUID where
  bytes  : Bytes
  length : bytes.length = 16
deriving DecidableEq

def UUID.zero : UUID :=
  ⟨List.replicate 16 0, rfl⟩

-- `UUID(b)`
def UUID.ofBytes (b : Bytes) : Run Err UUID :=
  if h : 16 ≤ b.length then pure ⟨b.take 16, by simp [h]⟩ else panic

structure FooterPrologue where
  footerLayoutVersion : Nat
  flags : Nat
  blockCount : Nat
  f2EntryLen : Nat
  extractionVersion : Nat
  f2Offset : Nat
  f3Offset : Nat
  f3Len : Nat
  f4Offset : Nat
  f4Len : Nat
  f5Offset : Nat
  f5Len : Nat
deriving DecidableEq

structure F2Entry where
  offset : Nat
  onDiskLen : Nat
  uncompressedLen : Nat
  recordCount : Nat
  bodyCRC : Nat
  firstSeq : Nat
  lastSeq : Nat
  tsMin : Int
  tsMax : Int
  epochMin : Nat
  epochMax : Nat
  summaryOffset : Nat
  summaryLen : Nat
  recordHeaderLen : Nat
deriving DecidableEq

def appendFooterPrologue (p : FooterPrologue) : Bytes :=
  bytes 2 p.footerLayoutVersion ++
  bytes 2 (p.flags &&& (footerFlagF3Present ||| footerFlagF4Present)) ++ bytes 4 p.blockCount ++
  bytes 4 p.f2EntryLen ++ bytes 4 p.extractionVersion ++ bytes 8 p.f2Offset ++
  bytes 8 p.f3Offset ++ bytes 8 p.f3Len ++ bytes 8 p.f4Offset ++ bytes 8 p.f4Len ++
  bytes 8 p.f5Offset ++ bytes 8 p.f5Len

def errF2EntryLen (layout : String) (off n : Nat) : Err :=
  .offset layout "f2_entry_len" off
    (.wrap "f2_entry_len %d below %d: %w" [.nat n, .nat f2EntryLen] (.sentinel .corruptStructure))

def FooterPrologue.validate (p : FooterPrologue) : Run Err Unit := do
  checkVersion "footer prologue" "footer_layout_version" 0 p.footerLayoutVersion
    Format.footerLayoutVersion
  failIf (p.f2EntryLen < Format.f2EntryLen) (errF2EntryLen "footer prologue" 8 p.f2EntryLen)
  checkU64Fields "footer prologue"
    [⟨"f2_offset", 16, p.f2Offset⟩, ⟨"f3_offset", 24, p.f3Offset⟩, ⟨"f3_len", 32, p.f3Len⟩,
     ⟨"f4_offset", 40, p.f4Offset⟩, ⟨"f4_len", 48, p.f4Len⟩, ⟨"f5_offset", 56, p.f5Offset⟩,
     ⟨"f5_len", 64, p.f5Len⟩]

def unmarshalFooterPrologue (b : Bytes) : Run Err FooterPrologue := do
  checkShort "footer prologue" b footerPrologueLen
  let p : FooterPrologue := {
    footerLayoutVersion := ← uint b 0 2
    flags := ← uint b 2 4
    blockCount := ← uint b 4 8
    f2EntryLen := ← uint b 8 12
    extractionVersion := ← uint b 12 16
    f2Offset := ← uint b 16 24
    f3Offset := ← uint b 24 32
    f3Len := ← uint b 32 40
    f4Offset := ← uint b 40 48
    f4Len := ← uint b 48 56
    f5Offset := ← uint b 56 64
    f5Len := ← uint b 64 72 }
  p.validate
  return p

def appendF2Entry (e : F2Entry) : Bytes :=
  bytes 8 e.offset ++ bytes 4 e.onDiskLen ++ bytes 4 e.uncompressedLen ++
  bytes 4 e.recordCount ++ bytes 4 e.bodyCRC ++ bytes 8 e.firstSeq ++ bytes 8 e.lastSeq ++
  intBytes 8 e.tsMin ++ intBytes 8 e.tsMax ++ bytes 4 e.epochMin ++ bytes 4 e.epochMax ++
  bytes 8 e.summaryOffset ++ bytes 4 e.summaryLen ++ bytes 2 e.recordHeaderLen ++ [0, 0]

def F2Entry.validate (e : F2Entry) : Run Err Unit := do
  checkRecordHeaderLen "footer block index entry" 76 e.recordHeaderLen
  checkU64Fields "footer block index entry"
    [⟨"offset", 0, e.offset⟩, ⟨"first_seq", 24, e.firstSeq⟩, ⟨"last_seq", 32, e.lastSeq⟩,
     ⟨"summary_offset", 64, e.summaryOffset⟩]
  failIf (envelopeLen + maxLen32 < e.onDiskLen) (.offset "footer block index entry" "on_disk_len" 8
    (.wrap "on_disk_len: value %d exceeds the %d-byte envelope plus %d: %w"
      [.nat e.onDiskLen, .nat envelopeLen, .nat maxLen32] (.sentinel .limit)))
  checkLen32Fields "footer block index entry" [⟨"uncompressed_len", 12, e.uncompressedLen⟩]

-- The entry of `entryLen` bytes at the start of `b`.
def unmarshalF2Entry (b : Bytes) (entryLen : Nat) : Run Err F2Entry := do
  failIf (entryLen < f2EntryLen) (errF2EntryLen "footer block index entry" 0 entryLen)
  checkShort "footer block index entry" b entryLen
  let e : F2Entry := {
    offset := ← uint b 0 8
    onDiskLen := ← uint b 8 12
    uncompressedLen := ← uint b 12 16
    recordCount := ← uint b 16 20
    bodyCRC := ← uint b 20 24
    firstSeq := ← uint b 24 32
    lastSeq := ← uint b 32 40
    tsMin := ← int64 b 40 48
    tsMax := ← int64 b 48 56
    epochMin := ← uint b 56 60
    epochMax := ← uint b 60 64
    summaryOffset := ← uint b 64 72
    summaryLen := ← uint b 72 76
    recordHeaderLen := ← uint b 76 78 }
  e.validate
  return e

-- A record header. `extra` holds the bytes behind offset 44.
structure RecordHeader where
  seq : Nat
  tsUTCNs : Int
  monoNs : Int
  epoch : Nat
  payloadLen : Nat
  trailingBytes : Nat
  quality : UInt16
  kind : UInt8
  dir : UInt8
  fidelity : UInt8
  decodeStatus : UInt8
  fieldValidity : UInt8
  recordFlags : UInt8
  extra : Bytes := []
deriving DecidableEq

structure Trailer where
  footerOffset : Nat
  footerLen : Nat
  footerUncompressedLen : Nat
  blockCount : Nat
  footerCRC : Nat
  recordCount : Nat
  lastSeq : Nat
  trailerVersion : Nat
  footerCodec : Nat
  flags : Nat
deriving DecidableEq

end Format
end Tracepack
