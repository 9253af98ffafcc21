import GoSecs.Lib.Crc32
import GoSecs.Tracepack.Format

open Run LittleEndian

namespace Tracepack.Format

def fileHeaderLen : Nat := 80
def trailerLen : Nat := 64
def formatMajor : Nat := 1
def trailerVersion : Nat := 1

-- "\x89TPK\r\n\x1a\n", "TPKB" and "TPKEND\r\n"
def fileHeaderMagic : Bytes := [0x89, 0x54, 0x50, 0x4B, 0x0D, 0x0A, 0x1A, 0x0A]
def envelopeMagic   : Bytes := [0x54, 0x50, 0x4B, 0x42]
def trailerMagic    : Bytes := [0x54, 0x50, 0x4B, 0x45, 0x4E, 0x44, 0x0D, 0x0A]

def crc (b : Bytes) : Nat :=
  (Crc32.checksum b).toNat

def checkMagic (layout : String) (b : Bytes) (off : Nat) (magic : Bytes) : Run Err Unit := do
  let got ← slice b off (off + magic.length)
  failIf (got ≠ magic) (.offset layout "magic" off (.sentinel .badMagic))

def checkCRC (layout field : String) (b : Bytes) (off : Nat) : Run Err Unit := do
  let stored ← uint b off (off + 4)
  let computed := crc (← slice b 0 off)
  failIf (stored ≠ computed) (.offset layout field off
    (.wrap "stored 0x%08X, computed 0x%08X over bytes 0-%d: %w"
      [.nat stored, .nat computed, .nat (off - 1)] (.sentinel .crc)))

def appendCRC (b : Bytes) : Bytes :=
  b ++ bytes 4 (crc b)

structure FileHeader where
  formatMajor : Nat
  formatMinor : Nat
  flags : Nat
  packMetadataLen : Nat
  packMetadataCRC : Nat
  writerStartUTCNs : Int
  packID : UUID
  captureID : UUID
deriving DecidableEq

def fileHeaderFlagsMask : Nat := 1

def appendFileHeader (h : FileHeader) : Bytes :=
  appendCRC (fileHeaderMagic ++ bytes 2 h.formatMajor ++ bytes 2 h.formatMinor ++
    bytes 4 (h.flags &&& fileHeaderFlagsMask) ++ bytes 4 h.packMetadataLen ++
    bytes 4 h.packMetadataCRC ++ intBytes 8 h.writerStartUTCNs ++ h.packID.bytes ++
    h.captureID.bytes ++ List.replicate 12 0)

def unmarshalFileHeader (b : Bytes) : Run Err FileHeader := do
  checkShort "file header" b fileHeaderLen
  checkMagic "file header" b 0 fileHeaderMagic
  checkCRC "file header" "header_crc" b 76
  let h : FileHeader := {
    formatMajor := ← uint b 8 10
    formatMinor := ← uint b 10 12
    flags := ← uint b 12 16
    packMetadataLen := ← uint b 16 20
    packMetadataCRC := ← uint b 20 24
    writerStartUTCNs := ← int64 b 24 32
    packID := ← UUID.ofBytes (← slice b 32 48)
    captureID := ← UUID.ofBytes (← slice b 48 64) }
  checkVersion "file header" "format_major" 8 h.formatMajor Format.formatMajor
  return h

structure BlockEnvelope where
  codec : Nat
  recordHeaderLen : Nat
  bodyLen : Nat
  uncompressedLen : Nat
  recordCount : Nat
  bodyCRC : Nat
  firstSeq : Nat
deriving DecidableEq

def appendBlockEnvelope (e : BlockEnvelope) : Bytes :=
  appendCRC (envelopeMagic ++ bytes 1 e.codec ++ [0] ++ bytes 2 e.recordHeaderLen ++
    bytes 4 e.bodyLen ++ bytes 4 e.uncompressedLen ++ bytes 4 e.recordCount ++
    bytes 4 e.bodyCRC ++ bytes 8 e.firstSeq ++ List.replicate 4 0)

def BlockEnvelope.validate (e : BlockEnvelope) : Run Err Unit := do
  checkRecordHeaderLen "block envelope" 6 e.recordHeaderLen
  failIf (e.recordCount = 0) (.offset "block envelope" "record_count" 16
    (.wrap "record_count 0, want at least 1: %w" [] (.sentinel .corruptStructure)))
  checkLen32Fields "block envelope"
    [⟨"body_len", 8, e.bodyLen⟩, ⟨"uncompressed_len", 12, e.uncompressedLen⟩]
  checkU64Fields "block envelope" [⟨"first_seq", 24, e.firstSeq⟩]

def unmarshalBlockEnvelope (b : Bytes) : Run Err BlockEnvelope := do
  checkShort "block envelope" b envelopeLen
  checkMagic "block envelope" b 0 envelopeMagic
  checkCRC "block envelope" "envelope_crc" b 36
  let e : BlockEnvelope := {
    codec := ← uint b 4 5
    recordHeaderLen := ← uint b 6 8
    bodyLen := ← uint b 8 12
    uncompressedLen := ← uint b 12 16
    recordCount := ← uint b 16 20
    bodyCRC := ← uint b 20 24
    firstSeq := ← uint b 24 32 }
  e.validate
  return e

-- No flag of a trailer is defined.
def trailerFlagsMask : Nat := 0

def appendTrailer (t : Trailer) : Bytes :=
  appendCRC (bytes 8 t.footerOffset ++ bytes 8 t.footerLen ++ bytes 8 t.footerUncompressedLen ++
    bytes 4 t.blockCount ++ bytes 4 t.footerCRC ++ bytes 8 t.recordCount ++ bytes 8 t.lastSeq ++
    bytes 2 t.trailerVersion ++ bytes 1 t.footerCodec ++ bytes 1 (t.flags &&& trailerFlagsMask)) ++
  trailerMagic

def unmarshalTrailer (b : Bytes) : Run Err Trailer := do
  checkShort "trailer" b trailerLen
  checkMagic "trailer" b 56 trailerMagic
  checkCRC "trailer" "trailer_crc" b 52
  let t : Trailer := {
    footerOffset := ← uint b 0 8
    footerLen := ← uint b 8 16
    footerUncompressedLen := ← uint b 16 24
    blockCount := ← uint b 24 28
    footerCRC := ← uint b 28 32
    recordCount := ← uint b 32 40
    lastSeq := ← uint b 40 48
    trailerVersion := ← uint b 48 50
    footerCodec := ← uint b 50 51
    flags := ← uint b 51 52 }
  checkVersion "trailer" "trailer_version" 48 t.trailerVersion Format.trailerVersion
  checkU64Fields "trailer"
    [⟨"footer_offset", 0, t.footerOffset⟩, ⟨"footer_len", 8, t.footerLen⟩,
     ⟨"footer_uncompressed_len", 16, t.footerUncompressedLen⟩,
     ⟨"record_count", 32, t.recordCount⟩, ⟨"last_seq", 40, t.lastSeq⟩]
  return t

def qualityMask : UInt16 := 0x00B7
def fieldValidityMask : UInt8 := 0x3F
def recordFlagsMask : UInt8 := 0x02

def appendRecordHeader (h : RecordHeader) : Bytes :=
  bytes 8 h.seq ++ intBytes 8 h.tsUTCNs ++ intBytes 8 h.monoNs ++ bytes 4 h.epoch ++
  bytes 4 h.payloadLen ++ bytes 4 h.trailingBytes ++ bytes 2 (h.quality &&& qualityMask).toNat ++
  [h.kind, h.dir, h.fidelity, h.decodeStatus, h.fieldValidity &&& fieldValidityMask,
   h.recordFlags &&& recordFlagsMask] ++ h.extra

-- The fields of the header at the start of `b`, without a check.
def decodeRecordHeader (b : Bytes) : Run Err RecordHeader := do
  let b ← slice b 0 recordHeaderLen
  return {
    seq := ← uint b 0 8
    tsUTCNs := ← int64 b 8 16
    monoNs := ← int64 b 16 24
    epoch := ← uint b 24 28
    payloadLen := ← uint b 28 32
    trailingBytes := ← uint b 32 36
    quality := .ofNat (← uint b 36 38)
    kind := ← index b 38
    dir := ← index b 39
    fidelity := ← index b 40
    decodeStatus := ← index b 41
    fieldValidity := ← index b 42
    recordFlags := ← index b 43 }

def unmarshalRecordHeader (b : Bytes) (n : Nat) : Run Err RecordHeader := do
  checkRecordHeaderLen "record header" 0 n
  checkShort "record header" b n
  let h ← decodeRecordHeader b
  checkU64Fields "record header" [⟨"seq", 0, h.seq⟩]
  checkLen32Fields "record header" [⟨"payload_len", 28, h.payloadLen⟩]
  return { h with extra := ← slice b recordHeaderLen n }

-- The length of the header section of a block.
def headerSectionLen (recordCount headerLen : Nat) : Run Err Nat := do
  let n := recordCount * headerLen
  failIf (maxLen32 < n) (.offset "block envelope" "record_count" 16
    (.wrap "header section of %d records of %d bytes is %d bytes, above the %d limit: %w"
      [.nat recordCount, .nat headerLen, .nat n, .nat maxLen32] (.sentinel .limit)))
  return n

-- The header section holds the rows of `headerLen` bytes column by column: byte `j` of row `i` stands
-- at `j * count + i`.
def untransposeHeaders (cols : Bytes) (count headerLen : Nat) : Bytes :=
  (List.range (count * headerLen)).map fun k =>
    cols.getD (k % headerLen * count + k / headerLen) 0

end Tracepack.Format
