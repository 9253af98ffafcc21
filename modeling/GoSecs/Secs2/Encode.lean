import GoSecs.Secs2.Item

open BigEndian Ieee754

namespace Secs2

-- The three low-order bytes of the length field, without the leading zero bytes.
def lengthBytes (lengthField : Int) : Bytes :=
  match intBytes 3 lengthField with
  | [0, 0, c] => [c]
  | [0, b, c] => [b, c]
  | bs => bs

def formatByte (fc : FormatCode) (lenByteCount : Nat) : UInt8 :=
  UInt8.ofNat (fc.code * 4 + lenByteCount)

def appendHeaderBytesFC (dst : Bytes) (fc : FormatCode) (lengthField : Int) : Bytes × Option Err :=
  if maxByteSize < lengthField then
    (dst, some (.msg "size limit exceeded"))
  else
    (dst ++ formatByte fc (lengthBytes lengthField).length :: lengthBytes lengthField, none)

def headerLen (dataByteLength : Int) : Int :=
  if dataByteLength > 0xFFFF then 4
  else if dataByteLength > 0xFF then 3
  else 2

def boolByte (b : Bool) : UInt8 :=
  if b then 1 else 0

def floatBytes (byteSize : Nat) (v : F64) : Bytes :=
  if byteSize = 4 then bytes 4 (narrow v).toNat else bytes 8 v.toNat

namespace Leaf

-- The number of payload bytes that the header announces. A numeric item computes it from its
-- declared size.
def lengthField : Leaf → Int
  | ascii s | jis8 s | binary s => s.length
  | localizedStr _ s noLSH => if noLSH then 0 else s.length + 2
  | boolean v => v.size
  | int w v => v.size * w
  | uint w v => v.size * w
  | float w v => v.size * w

def payload : Leaf → Bytes
  | ascii s | jis8 s | binary s => s
  | localizedStr lsh s noLSH => if noLSH then [] else bytes 2 lsh.toNat ++ s
  | boolean v => v.toList.map boolByte
  | int w v => v.toList.flatMap (intBytes w)
  | uint w v => v.toList.flatMap (bytes w)
  | float w v => v.toList.flatMap (floatBytes w)

def encodedLen (b : Base) (l : Leaf) : Int :=
  if b.itemErr.isSome then 0
  else if b.raw ≠ [] then b.raw.length
  else headerLen l.lengthField + l.lengthField

def appendTo (b : Base) (l : Leaf) (dst : Bytes) : Bytes :=
  if b.itemErr.isSome then
    dst
  else if b.raw ≠ [] then
    dst ++ b.raw
  else
    match l.formatCode with
    | none    => dst
    | some fc => (appendHeaderBytesFC dst fc l.lengthField).1 ++ l.payload

end Leaf

namespace Item

def encodedLen : Item → Int
  | empty => 0
  | leaf b l => l.encodedLen b
  | list b clean vs =>
    if clean = false ∧ (list b clean vs).error.isSome then 0
    else if b.raw ≠ [] then b.raw.length
    else encodedLens vs (headerLen vs.length)
where
  encodedLens : List Item → Int → Int
    | [],      n => n
    | v :: vs, n => encodedLens vs (n + v.encodedLen)

def appendTo : Item → Bytes → Bytes
  | empty,           dst => dst
  | leaf b l,        dst => l.appendTo b dst
  | list b clean vs, dst =>
    if clean = false ∧ (list b clean vs).error.isSome then dst
    else if b.raw ≠ [] then dst ++ b.raw
    else appendAll vs (appendHeaderBytesFC dst .list vs.length).1
where
  appendAll : List Item → Bytes → Bytes
    | [],      dst => dst
    | v :: vs, dst => appendAll vs (v.appendTo dst)

def toBytes (x : Item) : Bytes :=
  x.appendTo []

end Item
end Secs2
