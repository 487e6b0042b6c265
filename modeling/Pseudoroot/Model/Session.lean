import Pseudoroot.Library.Calls.Program
import Pseudoroot.Model.Daemon
import Pseudoroot.Model.ShmMap

/-! # What the processes of a session share

A process reaches the shared state by calls: one for each request on its daemon
connection and one for each function of the shared map. -/

namespace Pseudoroot

open Calls (Signature Handler)

inductive SessionCall where
  /-- Connect to the daemon socket. -/
  | connect
  /-- One round trip on the connection. -/
  | request (message : ProtocolMessage)
  | shmCurrent
  | shmSetCurrent (uid gid : UInt32)
  | shmGetInode (key : InodeKey)
  | shmUpsertChown (key : InodeKey) (uid gid defaultUid defaultGid : UInt32)
  | shmUpsertInode (key : InodeKey) (inode : FakeInode)
  | shmRemoveInode (key : InodeKey)

/-- A failed round trip is the reply `none`. -/
@[reducible] def SessionCall.Reply : SessionCall → Type
  | .connect => Bool
  | .request _ => Option ProtocolMessage
  | .shmCurrent => UInt32 × UInt32
  | .shmSetCurrent _ _ => Unit
  | .shmGetInode _ => Option FakeInode
  | .shmUpsertChown _ _ _ _ _ => Unit
  | .shmUpsertInode _ _ => Unit
  | .shmRemoveInode _ => Bool

abbrev sessionSignature : Signature where
  Call := SessionCall
  Reply := SessionCall.Reply

/-- The daemon and the shared map of a session; a session uses one of them. -/
structure Session (n : ℕ) where
  daemon : DaemonState
  shm : ShmInodeMap n

/-- The session with a live daemon: every round trip succeeds. -/
def Session.handle {n : ℕ} [NeZero n] (w : Wincode) (codec : XattrCodec) :
    Handler sessionSignature (Session n) := fun call session =>
  match call with
  | .connect => (true, session)
  | .request message =>
    let (response, daemon) := dispatchMessage w message session.daemon
    (some response, { session with daemon := daemon })
  | .shmCurrent => ((session.shm.currentUid, session.shm.currentGid), session)
  | .shmSetCurrent uid gid => ((), { session with shm := session.shm.setCurrent uid gid })
  | .shmGetInode key => (session.shm.getInode codec key, session)
  | .shmUpsertChown key uid gid du dg =>
    ((), { session with shm := session.shm.upsertChown codec key uid gid du dg })
  | .shmUpsertInode key inode =>
    ((), { session with shm := session.shm.upsertInode codec key inode })
  | .shmRemoveInode key =>
    let (present, shm) := session.shm.removeInode codec key
    (present, { session with shm := shm })

end Pseudoroot
