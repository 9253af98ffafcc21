import GoSecs.Hsms.Message

open BigEndian Secs2 Hsms

namespace Secs1

inductive Sentinel
  | invalidLength
  | checksumMismatch
  | deviceIDMismatch
  | invalidFirstBlock
  | emptyBlocks
  | blockNumberMismatch
  | eBitPlacement
  | headerMismatch
  | messageTooLarge
  | invalidHeader
deriving DecidableEq

-- An error: what it wraps, and the format and arguments of its text.
structure Err where
  sentinel : Sentinel
  format : String := ""
  args : List Nat := []
deriving DecidableEq

def maxBlockBodySize : Nat := 244
def blockHeaderSize : Nat := 10
def checksumSize : Nat := 2
def minBlockLength : Nat := blockHeaderSize
def maxBlockLength : Nat := blockHeaderSize + maxBlockBodySize
def maxBlockNumber : Nat := 32767

-- The role and the device of an end of the line. `WithDeviceID` refuses wider device numbers.
structure Config where
  isEquip : Bool
  deviceID : UInt16
  deviceID_le : deviceID ≤ 0x7FFF

-- The header fields that all blocks of a message share.
structure MessageHeader where
  deviceID : UInt16
  rBit : Bool
  stream : UInt8
  function : UInt8
  waitBit : Bool
  systemBytes : SysBytes
deriving DecidableEq

def topBit (b : UInt8) (set : Bool) : UInt8 :=
  if set then b ||| 0x80 else b

def buildHeader (h : MessageHeader) (blockNumber : UInt16) (last : Bool) : Header where
  h0 := topBit (h.deviceID >>> 8).toUInt8 h.rBit
  h1 := h.deviceID.toUInt8
  h2 := topBit (h.stream &&& 0x7F) h.waitBit
  h3 := h.function
  h4 := topBit (blockNumber >>> 8).toUInt8 last
  h5 := blockNumber.toUInt8
  h6 := h.systemBytes.s0
  h7 := h.systemBytes.s1
  h8 := h.systemBytes.s2
  h9 := h.systemBytes.s3

structure Block where
  header : Header
  body   : Bytes
deriving DecidableEq

namespace Block

def deviceID (b : Block) : UInt16 :=
  UInt16.ofNat (nat [b.header.h0, b.header.h1]) &&& 0x7FFF

def rBit (b : Block) : Bool :=
  b.header.h0 &&& 0x80 != 0

def stream (b : Block) : UInt8 :=
  b.header.h2 &&& 0x7F

def waitBit (b : Block) : Bool :=
  b.header.h2 &&& 0x80 != 0

def function (b : Block) : UInt8 :=
  b.header.h3

def blockNumber (b : Block) : UInt16 :=
  UInt16.ofNat (nat [b.header.h4, b.header.h5]) &&& 0x7FFF

def eBit (b : Block) : Bool :=
  b.header.h4 &&& 0x80 != 0

def systemBytes (b : Block) : SysBytes :=
  b.header.systemBytes

def messageHeader (b : Block) : MessageHeader where
  deviceID := b.deviceID
  rBit := b.rBit
  stream := b.stream
  function := b.function
  waitBit := b.waitBit
  systemBytes := b.systemBytes

end Block

-- The sum is kept in 32 bits, its low 16 bits are sent.
def checksum (bs : Bytes) : UInt16 :=
  (bs.foldl (fun sum v => sum + v.toUInt32) (0 : UInt32) &&& 0xFFFF).toUInt16

def Block.appendTo (b : Block) (dst : Bytes) : Bytes :=
  let cs := checksum (b.header.bytes ++ b.body)
  dst ++ [UInt8.ofNat (blockHeaderSize + b.body.length)] ++ b.header.bytes ++ b.body ++
    [(cs >>> 8).toUInt8, cs.toUInt8]

-- The first ten bytes as a header, with the zeros that the array had before the copy.
def copyHeader (bs : Bytes) : Header where
  h0 := bs.getD 0 0
  h1 := bs.getD 1 0
  h2 := bs.getD 2 0
  h3 := bs.getD 3 0
  h4 := bs.getD 4 0
  h5 := bs.getD 5 0
  h6 := bs.getD 6 0
  h7 := bs.getD 7 0
  h8 := bs.getD 8 0
  h9 := bs.getD 9 0

def parseBlock (lengthByte : UInt8) (rest : Bytes) : Except Err Block :=
  let n := lengthByte.toNat
  if n < minBlockLength ∨ n > maxBlockLength then
    .error ⟨.invalidLength, "%w: length byte %d out of [%d, %d]",
      [n, minBlockLength, maxBlockLength]⟩
  else if rest.length ≠ n + checksumSize then
    .error ⟨.invalidLength, "%w: have %d bytes, want %d", [rest.length, n + checksumSize]⟩
  else if checksum (rest.take n) ≠ UInt16.ofNat (nat (rest.drop n)) then
    .error { sentinel := .checksumMismatch }
  else
    .ok { header := copyHeader rest, body := (rest.take n).drop blockHeaderSize }

-- The loop of `splitBody` at an offset. Each turn passes at least one byte of the body.
def splitLoop (body : Bytes) (h : MessageHeader) : Nat → Nat → UInt16 → List Block
  | 0, _, _ => []
  | fuel + 1, off, blockNumber =>
    if off < body.length then
      let n := min maxBlockBodySize (body.length - off)
      { header := buildHeader h blockNumber (off + n == body.length)
        body   := (body.drop off).take n } ::
        splitLoop body h fuel (off + maxBlockBodySize) (blockNumber + 1)
    else
      []

def splitBody (body : Bytes) (h : MessageHeader) : Except Err (List Block) :=
  if h.deviceID > 0x7FFF then
    .error ⟨.invalidHeader, "%w: deviceID %d > 0x7FFF", [h.deviceID.toNat]⟩
  else if h.stream > 0x7F then
    .error ⟨.invalidHeader, "%w: stream %d > 127", [h.stream.toNat]⟩
  else if body.length > maxBlockBodySize * maxBlockNumber then
    .error ⟨.messageTooLarge, "%w: %d bytes", [body.length]⟩
  else if body.length = 0 then
    .ok [{ header := buildHeader h 1 true, body := [] }]
  else
    .ok (splitLoop body h body.length 0 1)

-- Device and direction are those of the sender, the rest comes from the header of the frame.
def sendHeader (cfg : Config) (header : Header) : MessageHeader where
  deviceID := cfg.deviceID
  rBit := cfg.isEquip
  stream := header.h2 &&& 0x7F
  function := header.h3
  waitBit := header.h2 &&& 0x80 != 0
  systemBytes := header.systemBytes

-- The sub-slices of the body follow the fixed prefix of the frame.
def splitFrame (cfg : Config) (header : Header) (bufs : List Bytes) : Except Err (List Block) :=
  splitBody bufs.flatten (sendHeader cfg header)

-- The checks of `assembleFrame` from position `i` on, in a message of `count` blocks.
def checkBlocks (first : MessageHeader) (singleBlockZero : Bool) (count : Nat) :
    Nat → List Block → Option Err
  | _, [] => none
  | i, b :: blocks =>
    if b.blockNumber.toNat ≠ (if singleBlockZero then 0 else i + 1) then
      some ⟨.blockNumberMismatch, "%w: position %d has block number %d",
        [i + 1, b.blockNumber.toNat]⟩
    else if b.eBit ≠ (i == count - 1) then
      some ⟨.eBitPlacement, "%w: position %d", [i + 1]⟩
    else if b.messageHeader ≠ first then
      some ⟨.headerMismatch, "%w: position %d", [i + 1]⟩
    else
      checkBlocks first singleBlockZero count (i + 1) blocks

-- The header of a data message: PType and SType are zero.
def frameHeader (first : MessageHeader) : Header where
  h0 := (first.deviceID >>> 8).toUInt8
  h1 := first.deviceID.toUInt8
  h2 := topBit (first.stream &&& 0x7F) first.waitBit
  h3 := first.function
  h4 := 0
  h5 := 0
  h6 := first.systemBytes.s0
  h7 := first.systemBytes.s1
  h8 := first.systemBytes.s2
  h9 := first.systemBytes.s3

def assembleFrame : List Block → Except Err Bytes
  | [] => .error { sentinel := .emptyBlocks }
  | b :: blocks =>
    let first := b.messageHeader
    let singleBlockZero := blocks.isEmpty && b.blockNumber == 0
    match checkBlocks first singleBlockZero (blocks.length + 1) 0 (b :: blocks) with
    | some err => .error err
    | none => .ok ((frameHeader first).bytes ++ (b :: blocks).flatMap (·.body))

end Secs1
