import Pseudoroot.Model.Protocol

/-! # The daemon server -/

namespace Pseudoroot

/-- What the client handlers of one daemon share. -/
structure DaemonState where
  state : FakeRootState
  shutdown : Bool

/-- A new daemon session with initial ids. -/
def newSharedState (uid gid : UInt32) : DaemonState where
  state := FakeRootState.new.setCurrent uid gid
  shutdown := false

/-- Answer one message. -/
def dispatchMessage (w : Wincode) (message : ProtocolMessage) (daemon : DaemonState) :
    ProtocolMessage × DaemonState :=
  match message.messageType with
  | .ping => (.response message.requestId "pong".toUTF8.toList, daemon)
  | .getCurrentUidGid =>
    let payload : UidGidPayload := ⟨daemon.state.currentUid, daemon.state.currentGid⟩
    (.response message.requestId (w.uidGid.toPayload payload), daemon)
  | .setCurrentUidGid =>
    match w.uidGid.fromPayload message.payload with
    | some payload =>
      (.response message.requestId [],
        { daemon with state := daemon.state.setCurrent payload.uid payload.gid })
    | none => (.error message.requestId "Invalid UidGidPayload", daemon)
  | .registerOwnership =>
    match w.inodeState.fromPayload message.payload with
    | some payload =>
      (.response message.requestId [],
        { daemon with
          state := daemon.state.setInode (payload.dev, payload.ino)
            ⟨payload.uid, payload.gid, payload.mode, payload.rdev, payload.xattrs⟩ })
    | none => (.error message.requestId "Invalid InodeStatePayload", daemon)
  | .upsertChown =>
    match w.chown.fromPayload message.payload with
    | some payload =>
      (.response message.requestId [],
        { daemon with
          state := daemon.state.upsertChown (payload.dev, payload.ino) payload.uid payload.gid
            payload.defaultUid payload.defaultGid })
    | none => (.error message.requestId "Invalid ChownPayload", daemon)
  | .getOwnership =>
    match w.inodeKey.fromPayload message.payload with
    | some payload =>
      let result : InodeStateResult :=
        match daemon.state.getInode (payload.dev, payload.ino) with
        | some inode => ⟨true, inode.uid, inode.gid, inode.mode, inode.rdev, inode.xattrs⟩
        | none => ⟨false, 0, 0, none, none, ∅⟩
      (.response message.requestId (w.inodeStateResult.toPayload result), daemon)
    | none => (.error message.requestId "Invalid InodeKeyPayload", daemon)
  | .removeOwnership =>
    match w.inodeKey.fromPayload message.payload with
    | some payload =>
      (.response message.requestId [],
        { daemon with state := (daemon.state.removeInode (payload.dev, payload.ino)).2 })
    | none => (.error message.requestId "Invalid InodeKeyPayload", daemon)
  | .init =>
    match w.uidGid.fromPayload message.payload with
    | some payload =>
      (.response message.requestId [],
        { daemon with state := daemon.state.setCurrent payload.uid payload.gid })
    | none => (.error message.requestId "Invalid UidGidPayload", daemon)
  | .shutdown => (.response message.requestId [], { daemon with shutdown := true })
  | .response | .error => (.error message.requestId "Unexpected message type", daemon)

end Pseudoroot
