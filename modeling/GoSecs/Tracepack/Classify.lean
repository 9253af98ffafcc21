import GoSecs.Hsms.Message
import GoSecs.Tracepack.Format

-- The classifier of captured frames, by the rows of its decision table.

open BigEndian Hsms

namespace Tracepack.Classify

inductive DecodeStatus
  | notAttempted
  | ok
  | okWithTrailing
  | shortFrame
  | lengthMismatch
  | badPType
  | badSType
  | controlWithBody
  | oversized
  | itemDecodeError
deriving DecidableEq

def lengthPrefixLen : Nat := 4
def headerLen : Nat := 10
def minFrameLen : Nat := lengthPrefixLen + headerLen
def ptypeOffset : Nat := lengthPrefixLen + 4
def stypeOffset : Nat := lengthPrefixLen + 5

def isValidSType (b : UInt8) : Bool :=
  MsgType.ofSType b ≠ .undefined

-- What is left to decide when the frame has the right shape. The number counts trailing bytes.
def classifyParsed (frame : Bytes) : DecodeStatus × Nat :=
  match decodeHSMSMessage frame with
  | .error _ => (.itemDecodeError, 0)
  | .ok (.control _) => (.ok, 0)
  | .ok (.data m) =>
    if m.item.2.isSome then (.itemDecodeError, 0)
    else if m.trailingBytes > 0 then (.okWithTrailing, m.trailingBytes)
    else (.ok, 0)

-- A ceiling of 0 is none.
def classifyFrame (frame : Bytes) (ceiling : Nat) : DecodeStatus × Nat :=
  if frame.length < minFrameLen then
    (.shortFrame, 0)
  else
    let length := nat (frame.take lengthPrefixLen)
    let stype  := frame.getD stypeOffset 0
    if length ≠ frame.length - lengthPrefixLen then (.lengthMismatch, 0)
    else if frame.getD ptypeOffset 0 ≠ 0 then (.badPType, 0)
    else if isValidSType stype = false then (.badSType, 0)
    else if stype ≠ 0 ∧ length ≠ headerLen then (.controlWithBody, 0)
    else if ceiling > 0 ∧ frame.length > ceiling then (.oversized, 0)
    else classifyParsed frame

end Tracepack.Classify
