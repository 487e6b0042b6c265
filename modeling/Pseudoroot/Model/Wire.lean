import Pseudoroot.Library.Framing
import Pseudoroot.Model.Daemon

/-! # Framed messages on a byte stream -/

namespace Pseudoroot

/-- The writing end of a stream, which takes `room` more bytes and then fails. -/
structure ByteSink where
  written : List UInt8
  room : ℕ

namespace ByteSink

/-- Write all bytes, or report an error after those that the stream still took. -/
def writeAll (sink : ByteSink) (bytes : List UInt8) : Bool × ByteSink :=
  (bytes.length ≤ sink.room, ⟨sink.written ++ bytes.take sink.room, sink.room - bytes.length⟩)

/-- Write a length-prefixed frame (4-byte big-endian length + payload). -/
def writeFramed (sink : ByteSink) (bytes : List UInt8) : Bool × ByteSink :=
  -- The cast to `u32` keeps the low 32 bits of the length.
  let len := Bytes.toBE 4 (UInt32.ofNat bytes.length).toNat
  match sink.writeAll len with
  | (true, sink) => sink.writeAll bytes
  | (false, sink) => (false, sink)

end ByteSink

/-- What `write_framed` puts on a stream that takes all of it. -/
def framed (bytes : List UInt8) : List UInt8 :=
  Bytes.toBE 4 (UInt32.ofNat bytes.length).toNat ++ bytes

/-- The frame of a message. -/
def MessageCodec.framed (codec : MessageCodec) (message : ProtocolMessage) : List UInt8 :=
  Pseudoroot.framed (codec.toBytes message)

/-- Read a length-prefixed frame. Returns it with the rest of the stream, or `none` when
the stream ends before the frame does. -/
def readFramed (stream : List UInt8) : Option (List UInt8 × List UInt8) := do
  let (lenBuf, stream) ← Framing.readExact 4 stream
  let len := Bytes.ofBE lenBuf
  Framing.readExact len stream

/-! ## One client of the server -/

/-- The loop of `handle_client` over what is left of the stream, with the most frames that
this can hold as fuel. Returns the responses sent, and the state of the server. -/
def handleClientLoop (fromBytes : List UInt8 → Option ProtocolMessage) (w : Wincode) :
    ℕ → List UInt8 → DaemonState → List ProtocolMessage × DaemonState
  | 0, _, daemon => ([], daemon)
  | fuel + 1, stream, daemon =>
    match readFramed stream with
    | none => ([], daemon)
    | some (buf, stream) =>
      match fromBytes buf with
      | none => ([], daemon)
      | some message =>
        let (response, daemon) := dispatchMessage w message daemon
        let (responses, daemon) := handleClientLoop fromBytes w fuel stream daemon
        (response :: responses, daemon)

/-- Serve one client until its stream ends or holds a frame that is no message. -/
def handleClient (fromBytes : List UInt8 → Option ProtocolMessage) (w : Wincode)
    (stream : List UInt8) (daemon : DaemonState) : List ProtocolMessage × DaemonState :=
  handleClientLoop fromBytes w stream.length stream daemon

end Pseudoroot
