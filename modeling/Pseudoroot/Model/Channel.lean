import Mathlib.Data.Nat.Notation
import Mathlib.Logic.Function.Basic
import Pseudoroot.Model.Daemon

/-! # One connection and the processes that have inherited it

The socket carries frames in order in both directions; each frame is sent and received
whole. A process that forks hands its child the socket and a copy of its statics. -/

namespace Pseudoroot

/-- A frame sent to the server, with its sender and its place among all frames sent. -/
structure SentFrame (ι : Type) where
  serial : ℕ
  sender : ι
  message : ProtocolMessage

/-- A frame written back, with the frame that the server computed it for. -/
structure AnswerFrame (ι : Type) where
  response : ProtocolMessage
  request : SentFrame ι

structure SharedChannel (ι : Type) where
  daemon : DaemonState
  /-- Frames that `handle_client` has not read. -/
  toServer : List (SentFrame ι)
  /-- Frames that no process has received. -/
  toClients : List (AnswerFrame ι)
  /-- `REQUEST_ID` of each process. -/
  requestId : ι → UInt64
  /-- The request each process has sent and waits for, within `IpcChannel::request`. -/
  waiting : ι → Option (SentFrame ι)
  /-- How many frames have been sent. -/
  sent : ℕ
  /-- What each completed `IpcChannel::request` has sent and has returned. -/
  returned : List (SentFrame ι × AnswerFrame ι)

inductive ChannelEvent (ι : Type) where
  | fork (parent child : ι)
  | send (i : ι) (messageType : MessageType) (payload : List UInt8)
  | serve
  | recv (i : ι)

namespace SharedChannel

variable {ι : Type} [DecidableEq ι] (w : Wincode)

/-- A connected channel that nothing has been sent on. -/
def connected (daemon : DaemonState) (requestId : ι → UInt64) : SharedChannel ι where
  daemon := daemon
  toServer := []
  toClients := []
  requestId := requestId
  waiting := fun _ => none
  sent := 0
  returned := []

/-- One event; an event that cannot happen in the state has no effect. -/
def step (ch : SharedChannel ι) : ChannelEvent ι → SharedChannel ι
  | .fork parent child =>
    match ch.waiting parent, ch.waiting child with
    | none, none =>
      { ch with requestId := Function.update ch.requestId child (ch.requestId parent) }
    | _, _ => ch
  | .send i messageType payload =>
    match ch.waiting i with
    | some _ => ch
    | none =>
      let frame : SentFrame ι := ⟨ch.sent, i, ⟨messageType, payload, ch.requestId i⟩⟩
      { ch with
        toServer := ch.toServer ++ [frame]
        requestId := Function.update ch.requestId i (ch.requestId i + 1)
        waiting := Function.update ch.waiting i (some frame)
        sent := ch.sent + 1 }
  | .serve =>
    match ch.toServer with
    | [] => ch
    | frame :: rest =>
      let (response, daemon) := dispatchMessage w frame.message ch.daemon
      { ch with
        daemon := daemon
        toServer := rest
        toClients := ch.toClients ++ [⟨response, frame⟩] }
  | .recv i =>
    match ch.waiting i, ch.toClients with
    | some frame, answer :: rest =>
      -- The response goes to the caller without a look at its `request_id`.
      { ch with
        toClients := rest
        waiting := Function.update ch.waiting i none
        returned := ch.returned ++ [(frame, answer)] }
    | _, _ => ch

end SharedChannel

end Pseudoroot
