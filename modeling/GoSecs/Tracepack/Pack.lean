import GoSecs.Tracepack.Reader

-- What a pack is, read from all of its bytes at once.

open Run

namespace Tracepack

open Codec (Zstd)
open Format

section Pack

variable (z : Zstd) (obj : Bytes) (lim : Limits)

def footerBytes (trailer : Except Err Trailer) : Option Bytes :=
  match trailer with
  | .error _ => none
  | .ok tr   =>
    if tr.footerLen ≤ lim.maxFooterLen then some ((obj.drop tr.footerOffset).take tr.footerLen)
    else none

def Pack.locate (p : Pack) : Run Err Pack :=
  match p.footer with
  | some idx => pure { p with blocks := indexedBlocks idx }
  | none => p.walk obj lim []

def openPack (keepF3 : Bool) : Run Err Pack := do
  let hdr ← parseFileHeader obj lim obj
  let trailer ← attempt (parseTrailer obj hdr (obj.drop (obj.length - trailerLen)))
  let packMeta ← decodeMeta hdr ((obj.drop fileHeaderLen).take hdr.packMetadataLen)
  let p ← settleFooter z obj lim [] keepF3 { hdr, packMeta } trailer (footerBytes obj lim trailer)
  p.locate obj lim

-- The block that the bytes hold, and the span over its records.
def blockIn (info : BlockInfo) (raw : Bytes) : Option (DecodedBlock × RecordSpan) :=
  match checkEnvelope raw info with
  | .ok env  => (decodeBlock z env raw).toOption
  | .error _ => none

def blockAt (info : BlockInfo) : Option (DecodedBlock × RecordSpan) :=
  blockIn z info ((obj.drop info.offset).take info.onDiskLen)

end Pack
end Tracepack
