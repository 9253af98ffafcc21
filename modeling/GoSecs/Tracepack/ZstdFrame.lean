import GoSecs.Tracepack.Format

-- The walk over one zstd frame, which tells where the frame ends.

open Run LittleEndian

namespace Tracepack.Codec

def maxWindow : Nat := 64 * 2 ^ 20
def zstdFrameMagic : Nat := 0xFD2FB528
def zstdFrameMagicLen : Nat := 4
def zstdBlockHeaderLen : Nat := 3
def zstdContentChecksumLen : Nat := 4
def zstdMinWindowLog : Nat := 10

def zstdDictionaryIDLen : List Nat := [0, 1, 2, 4]
def zstdContentSizeLen  : List Nat := [0, 2, 4, 8]

structure ZstdFrameHeader where
  headerLen : Nat
  window : Nat
  hasDictionary : Bool
  hasChecksum : Bool

def incomplete (format : String) (args : List Arg) : Err :=
  .wrap format args (.sentinel .incompleteStream)

def zstdContentSize (field : Bytes) : Run Err Nat :=
  match field.length with
  | 1 => pure (nat field)
  | 2 => pure (nat field + 256)
  | 4 => pure (nat field)
  | _ => Format.uint field 0 8

-- The window is the content size, which stands from `lo` to `hi`, or that of the window descriptor.
def zstdWindow (src : Bytes) (singleSegment : Bool) (lo hi : Nat) : Run Err Nat := do
  if singleSegment then
    zstdContentSize (← slice src lo hi)
  else
    let descriptor := (← index src (zstdFrameMagicLen + 1)).toNat
    let windowBase := 2 ^ (zstdMinWindowLog + descriptor / 8)
    return windowBase + windowBase / 8 * (descriptor % 8)

def parseZstdFrameHeader (src : Bytes) : Run Err ZstdFrameHeader := do
  failIf (src.length < zstdFrameMagicLen) (incomplete "frame magic: %d of %d bytes: %w"
    [.nat src.length, .nat zstdFrameMagicLen])
  let magic ← Format.uint src 0 4
  failIf (magic ≠ zstdFrameMagic) (.wrap "magic %#08x: %w" [.nat magic] (.sentinel .notZstdFrame))
  failIf (src.length = zstdFrameMagicLen) (incomplete "frame header descriptor: %w" [])
  let fhd := (← index src zstdFrameMagicLen).toNat
  let singleSegment := fhd.testBit 5
  let dictionaryIDLen ← index zstdDictionaryIDLen (fhd % 4)
  let flagLen ← index zstdContentSizeLen (fhd / 64)
  let contentSizeLen := if flagLen = 0 ∧ singleSegment then 1 else flagLen
  let windowDescriptorLen := if singleSegment then 0 else 1
  let headerLen := zstdFrameMagicLen + 1 + windowDescriptorLen + dictionaryIDLen + contentSizeLen
  failIf (src.length < headerLen) (incomplete "frame header: %d of %d bytes: %w"
    [.nat src.length, .nat headerLen])
  let window ← zstdWindow src singleSegment (headerLen - contentSizeLen) headerLen
  return { headerLen, window, hasDictionary := dictionaryIDLen ≠ 0, hasChecksum := fhd.testBit 2 }

def zstdContentLen (off header : Nat) : Run Err Nat :=
  match header / 2 % 4 with
  | 0 | 2 => pure (header / 8)
  | 1 => pure 1
  | _ =>
    fail (.wrap "reserved block type at offset %d: %w" [.nat off] (.sentinel .notZstdFrame))

def walkZstdBlocks (src : Bytes) : (fuel off : Nat) → Run Err Nat
  | 0, _ => stuck
  | fuel + 1, off => do
    failIf (src.length < off + zstdBlockHeaderLen)
      (incomplete "block header at offset %d: %w" [.nat off])
    let header ← Format.uint src off (off + zstdBlockHeaderLen)
    let contentLen ← zstdContentLen off header
    let off := off + zstdBlockHeaderLen
    failIf (src.length < off + contentLen)
      (incomplete "block content at offset %d: %d of %d bytes: %w"
        [.nat off, .nat (src.length - off), .nat contentLen])
    let off := off + contentLen
    if header.testBit 0 then pure off else walkZstdBlocks src fuel off

def walkZstdFrame (src : Bytes) : Run Err (Nat × Nat) := do
  let hdr ← parseZstdFrameHeader src
  failIf hdr.hasDictionary (.wrap "frame header names a dictionary: %w" [] (.sentinel .dictionary))
  failIf (maxWindow < hdr.window) (.wrap "frame window %d exceeds %d bytes: %w"
    [.nat hdr.window, .nat maxWindow] (.sentinel .windowTooLarge))
  let stop ← walkZstdBlocks src (src.length + 1) hdr.headerLen
  if hdr.hasChecksum then
    failIf (src.length < stop + zstdContentChecksumLen)
      (incomplete "content checksum at offset %d: %w" [.nat stop])
    return (stop + zstdContentChecksumLen, hdr.window)
  else
    return (stop, hdr.window)

end Tracepack.Codec
