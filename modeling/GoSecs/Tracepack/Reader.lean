import GoSecs.Tracepack.FooterRead
import GoSecs.Tracepack.ReadBlock

-- Opening a pack: the rounds of reads, the footer or else the walk over the block envelopes.

open Run

namespace Tracepack

open Codec (Zstd)
open Format

def footerCRCChunk : Nat := 2 ^ 20

-- A zero field takes its default. A negative one is refused.
structure ReaderOptions where
  wholeReadThreshold : Int := 0
  headWindow : Int := 0
  tailWindow : Int := 0
  footerOffset : Nat := 0
  maxPackMetadataLen : Int := 0
  maxFooterLen : Int := 0
  maxBlockLen : Int := 0
  maxWalkedBlocks : Int := 0

structure Limits where
  maxPackMetadataLen : Nat
  maxFooterLen : Nat
  maxBlockLen : Nat
  maxWalkedBlocks : Nat

structure Windows where
  wholeReadThreshold : Nat
  headWindow : Nat
  tailWindow : Nat
  footerOffset : Nat

namespace ReaderOptions

variable (o : ReaderOptions)

def budgets : List (String × Int) :=
  [("WholeReadThreshold", o.wholeReadThreshold), ("HeadWindow", o.headWindow),
   ("TailWindow", o.tailWindow), ("MaxPackMetadataLen", o.maxPackMetadataLen),
   ("MaxFooterLen", o.maxFooterLen), ("MaxBlockLen", o.maxBlockLen),
   ("MaxWalkedBlocks", o.maxWalkedBlocks)]

def checkNegative : List (String × Int) → Run Err Unit
  | [] => pure ()
  | (name, v) :: fs => do
    failIf (v < 0) (.mark .invalidArgument
      (.text "tracepack: ReaderOptions.%s %d is negative" [.text name, .int v]))
    checkNegative fs

def positiveOr (v : Int) (default : Nat) : Nat :=
  if 0 < v then v.toNat else default

-- `withDefaults`, the limits and the windows apart
def limits : Limits where
  maxPackMetadataLen := positiveOr o.maxPackMetadataLen (2 ^ 26)
  maxFooterLen := positiveOr o.maxFooterLen (2 ^ 26)
  maxBlockLen := positiveOr o.maxBlockLen (2 ^ 28)
  maxWalkedBlocks := positiveOr o.maxWalkedBlocks (2 ^ 20)

def windows : Windows where
  wholeReadThreshold := positiveOr o.wholeReadThreshold (2 ^ 22)
  headWindow := max (positiveOr o.headWindow (2 ^ 16)) fileHeaderLen
  tailWindow := max (positiveOr o.tailWindow (2 ^ 18)) trailerLen
  footerOffset := o.footerOffset

end ReaderOptions

structure TrailerInfo where
  blockCount : Nat
  recordCount : Nat
  lastSeq : Nat
  footerOffset : Nat
deriving DecidableEq

-- What a reader knows of its pack. Without a used footer the blocks are those that the walk found.
structure Pack where
  hdr : FileHeader
  packMeta : PackMeta
  finalized : Bool := false
  footerErr : Option Err := none
  trailer : Option TrailerInfo := none
  footer : Option FooterIndex := none
  blocks : List BlockInfo := []
  openDefects : List Defect := []
  walkStop : Option Defect := none

-- Bytes of the object, from `off` on.
structure Held where
  off  : Nat
  data : Bytes

-- `obj` is what the source holds.
structure Reader extends Pack where
  obj    : Bytes
  limits : Limits
  held   : List Held

section Fetch

variable (obj : Bytes) (held : List Held)

-- A read past the end of the object is short.
def readAt (off n : Nat) : Run Err Bytes :=
  if off + n ≤ obj.length then
    pure ((obj.drop off).take n)
  else
    fail (.wrap "tracepack: read %d bytes at offset %d: %w" [.nat n, .nat off]
      (.sentinel .unexpectedEOF))

def Held.range (s : Held) (off n : Nat) : Option Bytes :=
  if n ≤ s.data.length ∧ s.off ≤ off ∧ off - s.off ≤ s.data.length - n then
    some ((s.data.drop (off - s.off)).take n)
  else
    none

def heldRange (off n : Nat) : Option Bytes :=
  held.findSome? (·.range off n)

def fetch (off n : Nat) : Run Err Bytes :=
  match heldRange held off n with
  | some b => pure b
  | none   => readAt obj off n

end Fetch

section Open

variable (z : Zstd) (obj : Bytes) (lim : Limits)

def blocksStart (hdr : FileHeader) : Nat :=
  fileHeaderLen + hdr.packMetadataLen

def fileHeaderError (err : Err) : Err :=
  let class? : Option Sentinel :=
    if err.is .badMagic || err.is .short then some .notTracepack
    else if err.is .crc then some .checksum
    else if err.is .schema then some .unsupportedFormat
    else none
  .wrap "tracepack: %w" [] (class?.elim err (.mark · err))

def parseFileHeader (head : Bytes) : Run Err FileHeader := do
  let hdr ← mapErr fileHeaderError (unmarshalFileHeader head)
  failIf (obj.length < blocksStart hdr)
    (.wrap "tracepack: pack metadata of %d bytes ends at %d, past the %d-byte object: %w"
      [.nat hdr.packMetadataLen, .nat (blocksStart hdr), .nat obj.length]
      (.mark .corrupt (.sentinel .unexpectedEOF)))
  failIf (lim.maxPackMetadataLen < hdr.packMetadataLen)
    (.wrap "tracepack: pack metadata at offset %d: %d bytes exceed MaxPackMetadataLen %d: %w"
      [.nat fileHeaderLen, .nat hdr.packMetadataLen, .nat lim.maxPackMetadataLen]
      (.sentinel .readLimit))
  return hdr

def parseTrailer (hdr : FileHeader) (b : Bytes) : Run Err Trailer := do
  let tr ← unmarshalTrailer b
  let trailerAt := obj.length - trailerLen
  failIf (tr.footerOffset + tr.footerLen ≠ trailerAt)
    (.text "trailer: footer_offset %d and footer_len %d do not end at the trailer at %d"
      [.nat tr.footerOffset, .nat tr.footerLen, .nat trailerAt])
  failIf (tr.footerOffset < blocksStart hdr)
    (.text "trailer: footer_offset %d lies before the end of the pack metadata at %d"
      [.nat tr.footerOffset, .nat (blocksStart hdr)])
  return tr

-- What the first round fetched. The suffix reaches from `suffixStart` to the end of the object.
structure Bootstrap where
  head : Bytes
  suffix : Bytes
  suffixStart : Nat := 0
  whole : Bool := false
  hinted : Bool := false

def hintUsable (w : Windows) : Bool :=
  let trailerAt := obj.length - trailerLen
  fileHeaderLen ≤ w.footerOffset ∧ w.footerOffset < trailerAt ∧
    trailerAt - w.footerOffset ≤ lim.maxFooterLen

def readFirst (w : Windows) : Run Err Bootstrap := do
  if obj.length ≤ w.wholeReadThreshold ∨ obj.length - w.tailWindow ≤ w.headWindow then
    let b ← readAt obj 0 obj.length
    return { head := b, suffix := b, whole := true }
  else
    let hinted := hintUsable obj lim w
    let suffixStart := if hinted then w.footerOffset else obj.length - w.tailWindow
    let head ← readAt obj 0 w.headWindow
    let suffix ← readAt obj suffixStart (obj.length - suffixStart)
    return { head, suffix, suffixStart, hinted }

def Bootstrap.held (b : Bootstrap) : List Held :=
  if b.whole then [⟨0, b.head⟩] else [⟨0, b.head⟩, ⟨b.suffixStart, b.suffix⟩]

def readMeta (hdr : FileHeader) (b : Bootstrap) : Run Err Bytes := do
  let stop := blocksStart hdr
  if stop ≤ b.head.length then
    slice b.head fileHeaderLen stop
  else
    let front ← slice b.head fileHeaderLen b.head.length
    return front ++ (← readAt obj b.head.length (hdr.packMetadataLen - front.length))

-- The footer of a valid trailer, the part before the suffix read in the second round. A footer over
-- the limit is not read.
def readFooter (b : Bootstrap) (trailer : Except Err Trailer) : Run Err (Option Bytes) := do
  match trailer with
  | .error _ => return none
  | .ok tr   =>
    if tr.footerLen ≤ lim.maxFooterLen then
      let inSuffix ← slice b.suffix 0 (b.suffix.length - trailerLen)
      if b.suffixStart ≤ tr.footerOffset then
        return some (← slice inSuffix (tr.footerOffset - b.suffixStart) inSuffix.length)
      else
        let n := b.suffixStart - tr.footerOffset
        return some ((← readAt obj tr.footerOffset n) ++ inSuffix.take (tr.footerLen - n))
    else
      return none

def decodeMeta (hdr : FileHeader) (raw : Bytes) : Run Err PackMeta := do
  failIf (crc raw ≠ hdr.packMetadataCRC)
    (.wrap "tracepack: pack metadata CRC 0x%08X, pack_metadata_crc 0x%08X: %w"
      [.nat (crc raw), .nat hdr.packMetadataCRC] (.sentinel .checksum))
  unmarshalPackMetaMinor raw hdr.formatMinor

-- The CRC over chunks of the footer. The first number bounds the chunks.
def streamFooterCRC : Nat → UInt32 → Nat → Nat → Run Err UInt32
  | 0,        _,   _,   _ => stuck
  | fuel + 1, acc, off, stop =>
    if off < stop then do
      let chunk ← readAt obj off (min (stop - off) footerCRCChunk)
      streamFooterCRC fuel (Crc32.update acc chunk) (off + chunk.length) stop
    else
      pure acc

def footerCRC (held : List Held) (tr : Trailer) (onDisk : Option Bytes) : Run Err Nat :=
  match onDisk <|> heldRange held tr.footerOffset tr.footerLen with
  | some b => pure (crc b)
  | none   => do
    let c ← streamFooterCRC obj (tr.footerLen + 1) 0 tr.footerOffset (tr.footerOffset + tr.footerLen)
    return c.toNat

def decodeFooter (hdr : FileHeader) (keepF3 : Bool) (onDisk : Bytes) (tr : Trailer) :
    Run Err FooterIndex := do
  failIf (lim.maxFooterLen < tr.footerUncompressedLen)
    (.wrap "tracepack: footer at offset %d: footer_uncompressed_len %d exceeds MaxFooterLen %d: %w"
      [.nat tr.footerOffset, .nat tr.footerUncompressedLen, .nat lim.maxFooterLen]
      (.sentinel .readLimit))
  let decoded ← mapErr (fun e => .mark .invalidFooter (.wrap "footer_codec %d: %w"
    [.nat tr.footerCodec] e)) (Codec.decode z tr.footerCodec onDisk tr.footerUncompressedLen)
  parseFooter wrapping decoded tr (blocksStart hdr) lim.maxFooterLen keepF3

def trailerError (err : Err) : Err :=
  .wrap "tracepack: no valid trailer: %w" [] (.mark .notFinalized
    (if err.is .badMagic || err.is .short then err
     else if err.is .crc then .mark .checksum err
     else .mark .corrupt err))

def TrailerInfo.of (tr : Trailer) : TrailerInfo :=
  ⟨tr.blockCount, tr.recordCount, tr.lastSeq, tr.footerOffset⟩

-- Finalization, and the footer when it can be used.
def settleFooter (held : List Held) (keepF3 : Bool) (p : Pack) (trailer : Except Err Trailer)
    (onDisk : Option Bytes) : Run Err Pack := do
  match trailer with
  | .error e => return { p with footerErr := some (trailerError e) }
  | .ok tr   =>
    let p := { p with trailer := some (.of tr) }
    let got ← footerCRC obj held tr onDisk
    if got ≠ tr.footerCRC then
      return { p with footerErr := some (.wrap
        "tracepack: footer at offset %d: CRC 0x%08X, footer_crc 0x%08X: %w"
        [.nat tr.footerOffset, .nat got, .nat tr.footerCRC] (.sentinel .checksum)) }
    else
      let p := { p with finalized := true }
      match onDisk with
      | none   => return { p with footerErr := some (.wrap
          "tracepack: footer at offset %d: footer_len %d exceeds MaxFooterLen %d: %w"
          [.nat tr.footerOffset, .nat tr.footerLen, .nat lim.maxFooterLen] (.sentinel .readLimit)) }
      | some b =>
        match ← attempt (decodeFooter z lim p.hdr keepF3 b tr) with
        | .error e => return { p with footerErr := some e }
        | .ok idx  => return { p with footer := some idx }

def BlockSummary.blockInfo (s : BlockSummary) : BlockInfo where
  offset := s.offset
  onDiskLen := s.onDiskLen
  uncompressedLen := s.uncompressedLen
  recordCount := s.recordCount
  bodyCRC := s.bodyCRC
  recordHeaderLen := s.recordHeaderLen
  firstSeq := s.firstSeq
  indexed := true
  lastSeq := s.lastSeq
  tsMin := s.tsMin
  tsMax := s.tsMax
  epochMin := s.epochMin
  epochMax := s.epochMax

def indexedBlocks (idx : FooterIndex) : List BlockInfo :=
  idx.blocks.map (·.blockInfo)

def walkedInfo (off : Nat) (e : BlockEnvelope) : BlockInfo where
  offset := off
  onDiskLen := envelopeLen + e.bodyLen
  uncompressedLen := e.uncompressedLen
  recordCount := e.recordCount
  bodyCRC := e.bodyCRC
  recordHeaderLen := e.recordHeaderLen
  firstSeq := e.firstSeq

def addSat (a b : Nat) : Nat :=
  min (a + b) (2 ^ 64 - 1)

def walkStopAt (off : Nat) (err : Err) : Defect where
  reason := .truncated
  offset := some off
  err := err

def envelopeFault (err : Err) : Sentinel :=
  if err.is .crc then .checksum else .corrupt

def Pack.cutFault (p : Pack) : Sentinel :=
  if p.trailer.isSome then .corrupt else .notFinalized

-- What the walk found: the blocks, why it stopped, the position behind the last block, and the number
-- of records.
structure Walk where
  blocks : List BlockInfo := []
  stop : Option Defect := none
  off : Nat
  records : Nat := 0

-- The walk from the state `w` up to `stop`. The first number bounds the blocks.
def walkFrom (held : List Held) (cut : Sentinel) (stop : Nat) : Nat → Walk → Run Err Walk
  | 0,        _ => stuck
  | fuel + 1, w =>
    if stop ≤ w.off then
      pure w
    else if stop - w.off < envelopeLen then
      pure { w with stop := some (walkStopAt w.off (.wrap
        "tracepack: forward walk: %d bytes at offset %d cannot hold a block envelope: %w"
        [.nat (stop - w.off), .nat w.off] (.sentinel cut))) }
    else do
      match ← attempt (unmarshalBlockEnvelope (← fetch obj held w.off envelopeLen)) with
      | .error err =>
        return { w with stop := some (walkStopAt w.off (.wrap
          "tracepack: forward walk: block at offset %d: %w" [.nat w.off]
          (.mark (envelopeFault err) err))) }
      | .ok e =>
        let next := w.off + envelopeLen + e.bodyLen
        if stop < next then
          return { w with stop := some (walkStopAt w.off (.wrap
            "tracepack: forward walk: block at offset %d ends at %d, past the block region's end %d: %w"
            [.nat w.off, .nat next, .nat stop] (.sentinel cut))) }
        else if lim.maxWalkedBlocks ≤ w.blocks.length then
          return { w with stop := some {
            reason := .limit
            offset := some w.off
            err := .wrap "tracepack: forward walk: block at offset %d is past MaxWalkedBlocks %d: %w"
              [.nat w.off, .nat lim.maxWalkedBlocks] (.sentinel .readLimit) } }
        else
          walkFrom held cut stop fuel { w with
            blocks := w.blocks ++ [walkedInfo w.off e]
            off := next
            records := addSat w.records e.recordCount }

def Pack.walkDefects (p : Pack) (w : Walk) : List Defect :=
  match w.stop, p.trailer with
  | some d, _ => [d]
  | none,   none => [walkStopAt w.off (.wrap "%w: more records may follow" []
      (.sentinel .notFinalized))]
  | none,   some tr =>
    if p.finalized = false then
      [walkStopAt w.off (.wrap ("tracepack: forward walk: the pack ends at the footer_offset %d of a " ++
        "valid trailer whose footer fails its CRC: %w") [.nat w.off] (.sentinel .corrupt))]
    else if w.blocks.length ≠ tr.blockCount ∨ w.records ≠ tr.recordCount then
      [{ reason := .truncated, err := .wrap ("tracepack: forward walk found %d blocks of %d records, " ++
        "the trailer claims %d blocks of %d records: %w") [.nat w.blocks.length, .nat w.records,
        .nat tr.blockCount, .nat tr.recordCount] (.sentinel .corrupt) }]
    else
      []

def Pack.walk (p : Pack) (held : List Held) : Run Err Pack := do
  let stop := (p.trailer.map (·.footerOffset)).getD obj.length
  let w ← walkFrom obj lim held p.cutFault stop (obj.length + 1) { off := blocksStart p.hdr }
  return { p with blocks := w.blocks, walkStop := w.stop, openDefects := p.walkDefects w }

-- The bytes of the first round that hold blocks, but never those from a hint on.
def Pack.retain (p : Pack) (b : Bootstrap) : List Held :=
  let start := blocksStart p.hdr
  let stop := (p.trailer.map (·.footerOffset)).getD obj.length
  let holdsBlocks (s : Held) : Bool :=
    start < stop ∧ s.off < stop ∧ start < s.off + s.data.length
  [⟨0, b.head⟩].filter holdsBlocks ++
    if ¬b.whole ∧ ¬b.hinted then [⟨b.suffixStart, b.suffix⟩].filter holdsBlocks else []

def checkSize : Run Err Unit :=
  failIf (obj.length < fileHeaderLen)
    (.wrap "tracepack: object of %d bytes is shorter than the %d-byte file header: %w"
      [.nat obj.length, .nat fileHeaderLen] (.mark .notTracepack (.sentinel .unexpectedEOF)))

def openReader (o : ReaderOptions) (keepF3 : Bool) : Run Err Reader := do
  checkSize obj
  ReaderOptions.checkNegative o.budgets
  let lim := o.limits
  let b ← readFirst obj lim o.windows
  let hdr ← parseFileHeader obj lim b.head
  let trailer ← attempt (do
    parseTrailer obj hdr (← slice b.suffix (b.suffix.length - trailerLen) b.suffix.length))
  let raw ← readMeta obj hdr b
  let onDisk ← readFooter obj lim b trailer
  let packMeta ← decodeMeta hdr raw
  let p ← settleFooter z obj lim b.held keepF3 { hdr, packMeta } trailer onDisk
  let p ← (match p.footer with
    | some idx => pure { p with blocks := indexedBlocks idx }
    | none => p.walk obj lim b.held)
  return { toPack := p, obj, limits := lim, held := p.retain obj b }

def Reader.open (o : ReaderOptions) : Run Err Reader :=
  openReader z obj o false

end Open

section ReadBlock

variable (r : Reader)

def Reader.checkBlockBudget (info : BlockInfo) : Run Err Unit := do
  let limit := r.limits.maxBlockLen
  failIf (limit < info.onDiskLen - envelopeLen) (.wrap "body_len %d exceeds MaxBlockLen %d: %w"
    [.int (info.onDiskLen - envelopeLen), .nat limit] (.sentinel .readLimit))
  failIf (limit < info.uncompressedLen) (.wrap "uncompressed_len %d exceeds MaxBlockLen %d: %w"
    [.nat info.uncompressedLen, .nat limit] (.sentinel .readLimit))

-- The block with number `i`, and its defect.
def Reader.readBlock (z : Zstd) (i : Nat) : Run Err (Option DecodedBlock × Option Defect) := do
  let info ← index r.blocks i
  match ← attempt (r.checkBlockBudget info) with
  | .error e => return (none, some (blockDefect i info .limit e))
  | .ok _    => checkAndDecode z i info (← fetch r.obj r.held info.offset info.onDiskLen)

end ReadBlock
end Tracepack
