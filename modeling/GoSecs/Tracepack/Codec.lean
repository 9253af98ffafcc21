import GoSecs.Tracepack.ZstdFrame

open Run

namespace Tracepack.Codec

def none : Nat := 0
def zstd : Nat := 1

def known (id : Nat) : Bool :=
  id = none ∨ id = zstd

-- What the streaming decoder of the zstd library gives for a source: the bytes that it reads and the
-- error behind them, which is none for `io.EOF`, or the error of its reset.
abbrev Zstd := Bytes → Except Err (Bytes × Option Err)

def checkNone (src : Bytes) (n : Nat) : Run Err Unit :=
  failIf (src.length ≠ n)
    (.wrap "codec: none: source length %d does not match uncompressed length %d: %w"
      [.nat src.length, .nat n] (.sentinel .lengthMismatch))

def decodeNone (src : Bytes) (n : Nat) : Run Err Bytes := do
  checkNone src n
  return src

-- The window that every frame may declare.
def windowFloor : Nat := 8 * 2 ^ 20

def openZstd (z : Zstd) (src : Bytes) (n : Nat) : Run Err (Bytes × Option Err) := do
  failIf (src = []) (incomplete "codec: zstd: empty source: %w" [])
  let (frameLen, window) ← mapErr (.wrap "codec: zstd: %w" []) (walkZstdFrame src)
  let budget := max n windowFloor
  failIf (budget < window) (.wrap
    "codec: zstd: frame window %d exceeds the %d-byte budget for a %d-byte body: %w"
    [.nat window, .nat budget, .nat n] (.sentinel .windowTooLarge))
  failIf (frameLen ≠ src.length) (.wrap "codec: zstd: %d bytes after a %d-byte frame: %w"
    [.nat (src.length - frameLen), .nat frameLen] (.sentinel .trailingBytes))
  match z src with
  | .ok stream => return stream
  | .error e   => fail (.wrap "codec: zstd: reset decoder: %w" [] e)

-- The error of `io.ReadFull` where the stream ends too early.
def shortReadError (data : Bytes) (stop : Option Err) : Err :=
  stop.getD (.sentinel (if data = [] then .eof else .unexpectedEOF))

def decodeZstd (z : Zstd) (src : Bytes) (n : Nat) : Run Err Bytes := do
  let (data, stop) ← openZstd z src n
  failIf (data.length < n) (.tagged "codec: zstd: decode to %d bytes: %w: %w" [.nat n]
    .incompleteStream (shortReadError data stop))
  failIf (n < data.length)
    (.wrap "codec: zstd: decoded past %d bytes: %w" [.nat n] (.sentinel .trailingBytes))
  match stop with
  | .none   => return data
  | .some e => fail (.tagged "codec: zstd: reading past %d bytes: %w: %w" [.nat n] .trailingBytes e)

def decode (z : Zstd) (id : Nat) (src : Bytes) (n : Nat) : Run Err Bytes :=
  if id = none then
    decodeNone src n
  else if id = zstd then
    decodeZstd z src n
  else
    fail (.wrap "codec: decode: value %d: %w" [.nat id] (.sentinel .unknownCodec))

end Tracepack.Codec
