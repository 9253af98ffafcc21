import GoSecs.Secs2.Item

-- How the receive loop cuts frames out of a connection.

open BigEndian Secs2

namespace Hsmsss

inductive FrameErr
  | eof
  | belowMinimum (msgLen : Nat)
  | exceedsMaximum (msgLen : Nat)
deriving DecidableEq

-- A connection by the chunks that its reads bring until the peer has closed it. `early` tells that the
-- last chunk is reported together with the end.
structure Conn where
  chunks   : List Bytes
  early    : Bool
  nonempty : ∀ c ∈ chunks, c ≠ []

namespace Conn

def stream (c : Conn) : Bytes :=
  c.chunks.flatten

-- `conn.Read` of a buffer of `room` bytes. What does not fit is left for the next read.
def read (c : Conn) (room : Nat) : Bytes × Option FrameErr × Conn :=
  match h : c.chunks with
  | [] => ([], some .eof, c)
  | chunk :: rest =>
    if hr : room < chunk.length then
      (chunk.take room, none, { c with
        chunks   := chunk.drop room :: rest
        nonempty := List.forall_mem_cons.mpr ⟨by simp; omega,
          (List.forall_mem_cons.mp (h ▸ c.nonempty)).2⟩ })
    else
      (chunk, if rest = [] ∧ c.early then some .eof else none, { c with
        chunks   := rest
        nonempty := (List.forall_mem_cons.mp (h ▸ c.nonempty)).2 })

end Conn

-- What a frame is read with. `started` tells that a byte of it has arrived, and `deadlines` for each
-- read whether T8 ran while it waited.
structure Reader where
  conn : Conn
  started : Bool := false
  deadlines : List Bool := []

-- The loop of `readN`, with `room` bytes of the buffer left. Every read brings a byte or an error.
def readLoop : Nat → Reader → Nat → Reader × Option (Except FrameErr Bytes)
  | 0,        r, _    => (r, none)
  | fuel + 1, r, room =>
    if room = 0 then
      (r, some (.ok []))
    else
      match r.conn.read room with
      | (bs, err, conn) =>
        let r := { conn := conn, started := r.started || bs ≠ [],
                   deadlines := r.deadlines ++ [r.started] }
        if bs.length = room then
          (r, some (.ok bs))
        else
          match err with
          | some e => (r, some (.error e))
          | none   =>
            match readLoop fuel r (room - bs.length) with
            | (r, some (.ok rest)) => (r, some (.ok (bs ++ rest)))
            | (r, out) => (r, out)

def readN (r : Reader) (n : Nat) : Reader × Option (Except FrameErr Bytes) :=
  readLoop (n + 1) r n

-- A frame that was read or the error, and the sizes of the buffers that were allocated for it.
structure ReadFrame where
  reader : Reader
  out    : Option (Except FrameErr Bytes)
  allocs : List Nat := []

def readFrame (conn : Conn) : ReadFrame :=
  match readN { conn } 4 with
  | (r, some (.ok lenBuf)) =>
    let msgLen := nat lenBuf
    if msgLen < 10 then
      { reader := r, out := some (.error (.belowMinimum msgLen)) }
    else if msgLen > maxByteSize then
      { reader := r, out := some (.error (.exceedsMaximum msgLen)) }
    else
      match readN r msgLen with
      | (r, some (.ok rest)) =>
        { reader := r, out := some (.ok (lenBuf ++ rest)), allocs := [4 + msgLen] }
      | (r, out) => { reader := r, out := out, allocs := [4 + msgLen] }
  | (r, out) => { reader := r, out := out }

-- What the receive loop takes from a connection: the frames, the error that ends it, and whether that
-- error came inside a frame.
structure Received where
  frames : List Bytes := []
  err    : Option FrameErr := none
  inside : Bool := false
  allocs : List Nat := []

def recvLoop : Nat → Conn → Received
  | 0,        _    => {}
  | fuel + 1, conn =>
    let f := readFrame conn
    match f.out with
    | none => {}
    | some (.error e) => { err := some e, inside := f.reader.started, allocs := f.allocs }
    | some (.ok frame) =>
      let r := recvLoop fuel f.reader.conn
      { r with frames := frame :: r.frames, allocs := f.allocs ++ r.allocs }

-- A frame takes at least one byte of the stream.
def received (conn : Conn) : Received :=
  recvLoop (conn.stream.length + 1) conn

end Hsmsss
