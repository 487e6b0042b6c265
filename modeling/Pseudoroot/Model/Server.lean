import Mathlib.Logic.Function.Basic
import Pseudoroot.Library.Calls.Program
import Pseudoroot.Model.Daemon
import Pseudoroot.Model.Wire

/-! # Client connections and their handler threads

One thread serves each connection. The threads share the state of the daemon, which they
reach by single accesses: each load or store of an id is one, and so is each call on the
concurrent map. -/

namespace Pseudoroot

open Calls (Signature Handler Program)

/-! ## Accesses of the shared state -/

inductive StateCall where
  | loadUid
  | loadGid
  | storeUid (uid : UInt32)
  | storeGid (gid : UInt32)
  | setInode (key : InodeKey) (inode : FakeInode)
  | getInode (key : InodeKey)
  | removeInode (key : InodeKey)
  | upsertChown (key : InodeKey) (uid gid defaultUid defaultGid : UInt32)
  | storeShutdown

@[reducible] def StateCall.Reply : StateCall → Type
  | .loadUid => UInt32
  | .loadGid => UInt32
  | .storeUid _ => Unit
  | .storeGid _ => Unit
  | .setInode _ _ => Unit
  | .getInode _ => Option FakeInode
  | .removeInode _ => Option FakeInode
  | .upsertChown _ _ _ _ _ => Unit
  | .storeShutdown => Unit

abbrev stateSignature : Signature where
  Call := StateCall
  Reply := StateCall.Reply

def DaemonState.handle : Handler stateSignature DaemonState := fun call daemon =>
  match call with
  | .loadUid => (daemon.state.currentUid, daemon)
  | .loadGid => (daemon.state.currentGid, daemon)
  | .storeUid uid => ((), { daemon with state := { daemon.state with currentUid := uid } })
  | .storeGid gid => ((), { daemon with state := { daemon.state with currentGid := gid } })
  | .setInode key inode => ((), { daemon with state := daemon.state.setInode key inode })
  | .getInode key => (daemon.state.getInode key, daemon)
  | .removeInode key =>
    let (removed, state) := daemon.state.removeInode key
    (removed, { daemon with state := state })
  | .upsertChown key uid gid du dg =>
    ((), { daemon with state := daemon.state.upsertChown key uid gid du dg })
  | .storeShutdown => ((), { daemon with shutdown := true })

def stateCall (call : StateCall) : Program stateSignature call.Reply :=
  Program.send (S := stateSignature) call

/-- `FakeRootState::set_current`, two stores. -/
def setCurrentStores (uid gid : UInt32) : Program stateSignature Unit := do
  stateCall (.storeUid uid)
  stateCall (.storeGid gid)

/-- The result for an entry, or for none. -/
def InodeStateResult.ofEntry : Option FakeInode → InodeStateResult
  | some inode => ⟨true, inode.uid, inode.gid, inode.mode, inode.rdev, inode.xattrs⟩
  | none => ⟨false, 0, 0, none, none, ∅⟩

/-- `dispatch_message` as the accesses that it makes. -/
def dispatchProgram (w : Wincode) (message : ProtocolMessage) :
    Program stateSignature ProtocolMessage :=
  match message.messageType with
  | .ping => pure (.response message.requestId "pong".toUTF8.toList)
  | .getCurrentUidGid => do
    let uid ← stateCall .loadUid
    let gid ← stateCall .loadGid
    pure (.response message.requestId (w.uidGid.toPayload ⟨uid, gid⟩))
  | .setCurrentUidGid | .init =>
    match w.uidGid.fromPayload message.payload with
    | some payload => do
      setCurrentStores payload.uid payload.gid
      pure (.response message.requestId [])
    | none => pure (.error message.requestId "Invalid UidGidPayload")
  | .registerOwnership =>
    match w.inodeState.fromPayload message.payload with
    | some payload => do
      stateCall (.setInode (payload.dev, payload.ino)
        ⟨payload.uid, payload.gid, payload.mode, payload.rdev, payload.xattrs⟩)
      pure (.response message.requestId [])
    | none => pure (.error message.requestId "Invalid InodeStatePayload")
  | .upsertChown =>
    match w.chown.fromPayload message.payload with
    | some payload => do
      stateCall (.upsertChown (payload.dev, payload.ino) payload.uid payload.gid
        payload.defaultUid payload.defaultGid)
      pure (.response message.requestId [])
    | none => pure (.error message.requestId "Invalid ChownPayload")
  | .getOwnership =>
    match w.inodeKey.fromPayload message.payload with
    | some payload => do
      let found ← stateCall (.getInode (payload.dev, payload.ino))
      pure (.response message.requestId (w.inodeStateResult.toPayload (.ofEntry found)))
    | none => pure (.error message.requestId "Invalid InodeKeyPayload")
  | .removeOwnership =>
    match w.inodeKey.fromPayload message.payload with
    | some payload => do
      let _ ← stateCall (.removeInode (payload.dev, payload.ino))
      pure (.response message.requestId [])
    | none => pure (.error message.requestId "Invalid InodeKeyPayload")
  | .shutdown => do
    stateCall .storeShutdown
    pure (.response message.requestId [])
  | .response | .error => pure (.error message.requestId "Unexpected message type")

/-- With no other thread in between, the accesses are the dispatch. -/
theorem run_dispatchProgram (w : Wincode) (message : ProtocolMessage) (daemon : DaemonState) :
    (dispatchProgram w message).run DaemonState.handle daemon =
      dispatchMessage w message daemon := by
  obtain ⟨messageType, payload, requestId⟩ := message
  cases messageType with
  | ping | getCurrentUidGid | shutdown | response | error => rfl
  | setCurrentUidGid | init =>
      simp only [dispatchProgram, dispatchMessage]
      cases w.uidGid.fromPayload payload <;> rfl
  | registerOwnership =>
      simp only [dispatchProgram, dispatchMessage]
      cases w.inodeState.fromPayload payload <;> rfl
  | upsertChown =>
      simp only [dispatchProgram, dispatchMessage]
      cases w.chown.fromPayload payload <;> rfl
  | removeOwnership =>
      simp only [dispatchProgram, dispatchMessage]
      cases w.inodeKey.fromPayload payload <;> rfl
  | getOwnership =>
      simp only [dispatchProgram, dispatchMessage]
      cases w.inodeKey.fromPayload payload with
      | none => rfl
      | some key =>
          show (ProtocolMessage.response requestId (w.inodeStateResult.toPayload
            (.ofEntry (daemon.state.getInode (key.dev, key.ino)))), daemon) = _
          dsimp only
          cases daemon.state.getInode (key.dev, key.ino) <;> rfl

/-! ## Connections -/

/-- Where a client is in `IpcChannel::request`. -/
inductive IpcChannel where
  | idle
  /-- In `write_framed`, which has `rest` still to write. -/
  | sending (message : ProtocolMessage) (rest : List UInt8)
  /-- In `read_framed`. -/
  | receiving (message : ProtocolMessage)

/-- The request that the client is in. -/
def IpcChannel.waiting : IpcChannel → Option ProtocolMessage
  | .idle => none
  | .sending message _ => some message
  | .receiving message => some message

/-- Where a connection is at the end of the daemon: in the loop of `handle_client`, before it
or after it. -/
inductive HandlerThread where
  /-- The listener has not accepted the connection. -/
  | backlog
  /-- In `read_framed`. -/
  | reading
  /-- In `dispatch_message`, or after it when the accesses are done. -/
  | dispatching (rest : Program stateSignature ProtocolMessage)
  /-- In `send_message`, which has `rest` still to write. -/
  | sending (rest : List UInt8)
  /-- The loop has ended, or the process has. -/
  | ended
  /-- The listener was closed and had not accepted the connection. -/
  | refused

/-- The end of the daemon is closed. -/
def HandlerThread.closed : HandlerThread → Bool
  | .ended | .refused => true
  | _ => false

/-- One connection: an `IpcChannel` at one end and a handler thread at the other. -/
structure Connection where
  /-- Bytes on the way to the handler. -/
  toServer : List UInt8
  /-- Bytes on the way to the client. -/
  toClient : List UInt8
  handler : HandlerThread
  channel : IpcChannel
  /-- The client has not closed its end. -/
  clientOpen : Bool
  /-- The requests that have returned, each with the response or `none` for an error. -/
  returned : List (ProtocolMessage × Option ProtocolMessage)

/-- What a client does with its connection. -/
inductive ClientEvent where
  /-- Begin a request. -/
  | send (message : ProtocolMessage)
  /-- Write up to `n` bytes of the request. -/
  | write (n : ℕ)
  /-- Read the response. -/
  | recv
  /-- Close the connection, or die. -/
  | die

namespace Connection

/-- A connection that has just been made. -/
def connected : Connection where
  toServer := []
  toClient := []
  handler := .backlog
  channel := .idle
  clientOpen := true
  returned := []

variable (codec : MessageCodec)

/-! ### The client -/

def send (c : Connection) (message : ProtocolMessage) : Connection :=
  match c.channel with
  | .idle => { c with channel := .sending message (codec.framed message) }
  | _ => c

/-- Part of `write_framed`. The write fails when the other end is closed. -/
def write (c : Connection) (n : ℕ) : Connection :=
  match c.channel with
  | .sending message rest =>
    if c.handler.closed then
      { c with channel := .idle, returned := c.returned ++ [(message, none)] }
    else
      { c with
        toServer := c.toServer ++ rest.take n
        channel :=
          if rest.length ≤ n then .receiving message else .sending message (rest.drop n) }
  | _ => c

/-- `read_framed`, which blocks until the whole frame or the end of the stream is there. -/
def recv (c : Connection) : Connection :=
  match c.channel with
  | .receiving message =>
    match readFramed c.toClient with
    | some (buf, rest) =>
      { c with
        toClient := rest
        channel := .idle
        returned := c.returned ++ [(message, codec.fromBytes buf)] }
    | none =>
      if c.handler.closed then
        { c with channel := .idle, returned := c.returned ++ [(message, none)] }
      else c
  | _ => c

/-- An event of the client, which does nothing once its end is closed. -/
def client (c : Connection) (e : ClientEvent) : Connection :=
  if c.clientOpen then
    match e with
    | .send message => c.send codec message
    | .write n => c.write n
    | .recv => c.recv codec
    | .die => { c with clientOpen := false }
  else c

/-! ### The daemon -/

/-- `accept_loop` hands the connection to a handler thread. -/
def accept (c : Connection) : Connection :=
  match c.handler with
  | .backlog => { c with handler := .reading }
  | _ => c

/-- The next step of the handler thread, up to the response. -/
def handle (w : Wincode) (c : Connection) (daemon : DaemonState) : Connection × DaemonState :=
  match c.handler with
  | .reading =>
    match readFramed c.toServer with
    | some (buf, rest) =>
      match codec.fromBytes buf with
      | some message =>
        ({ c with toServer := rest, handler := .dispatching (dispatchProgram w message) }, daemon)
      | none => ({ c with toServer := rest, handler := .ended }, daemon)
    | none => if c.clientOpen then (c, daemon) else ({ c with handler := .ended }, daemon)
  | .dispatching (.call call next) =>
    let (reply, daemon) := DaemonState.handle call daemon
    ({ c with handler := .dispatching (next reply) }, daemon)
  | .dispatching (.done response) =>
    ({ c with handler := .sending (codec.framed response) }, daemon)
  | _ => (c, daemon)

/-- Write up to `n` bytes of the response. The write fails when the client is gone. -/
def respond (c : Connection) (n : ℕ) : Connection :=
  match c.handler with
  | .sending rest =>
    if c.clientOpen then
      { c with
        toClient := c.toClient ++ rest.take n
        handler := if rest.length ≤ n then .reading else .sending (rest.drop n) }
    else { c with handler := .ended }
  | _ => c

/-- The listener is closed. -/
def refuse (c : Connection) : Connection :=
  match c.handler with
  | .backlog => { c with handler := .refused }
  | _ => c

/-- The process of the daemon ends. -/
def hangUp (c : Connection) : Connection :=
  { c with handler := .ended }

end Connection

/-- A daemon and its connections, one for each client. -/
structure Server (ι : Type) where
  daemon : DaemonState
  connection : ι → Connection
  exited : Bool

inductive ServerEvent (ι : Type) where
  | client (i : ι) (e : ClientEvent)
  | accept (i : ι)
  | handle (i : ι)
  | respond (i : ι) (n : ℕ)
  /-- `accept_loop` returns: it has seen the shutdown flag, or `accept` has failed. -/
  | stop
  /-- The process of the daemon ends, after the accept loop or by a signal. -/
  | exit

namespace Server

variable {ι : Type} [DecidableEq ι]

/-- All clients have connected, and none has been accepted. -/
def start (daemon : DaemonState) : Server ι where
  daemon := daemon
  connection := fun _ => .connected
  exited := false

def setConnection (s : Server ι) (i : ι) (c : Connection) : Server ι :=
  { s with connection := Function.update s.connection i c }

/-- One event; an event that cannot happen in the state has no effect. -/
def step (codec : MessageCodec) (w : Wincode) (s : Server ι) : ServerEvent ι → Server ι
  | .client i e => s.setConnection i ((s.connection i).client codec e)
  | .accept i => s.setConnection i (s.connection i).accept
  | .handle i =>
    let (c, daemon) := (s.connection i).handle codec w s.daemon
    { s.setConnection i c with daemon := daemon }
  | .respond i n => s.setConnection i ((s.connection i).respond n)
  | .stop => { s with connection := fun i => (s.connection i).refuse }
  | .exit => { s with connection := fun i => (s.connection i).hangUp, exited := true }

end Server

end Pseudoroot
