import Pseudoroot.Model.Wincode
import Pseudoroot.Verification.Session.Startup

/-! # The daemon client and the store of the server

The calls of the client, each with the operation on the store that it stands for. -/

namespace Pseudoroot

open Calls Calls.Program

/-- The functions of the daemon client, with their arguments. -/
inductive DaemonCall where
  | getInode (key : InodeKey)
  | setInode (key : InodeKey) (inode : FakeInode)
  | upsertChown (key : InodeKey) (uid gid defaultUid defaultGid : UInt32)
  | removeInode (key : InodeKey)
  | getCurrentUidGid
  | setCurrentUidGid (uid gid : UInt32)
  | init (uid gid : UInt32)

namespace DaemonCall

/-- What a call returns. -/
@[reducible] def Reply : DaemonCall → Type
  | getInode _ => Option FakeInode
  | getCurrentUidGid => Option (UInt32 × UInt32)
  | _ => Bool

/-- A call made, with what it has returned. -/
abbrev Answer := (rpc : DaemonCall) × rpc.Reply

def hook (w : Wincode) : (rpc : DaemonCall) → Hook rpc.Reply
  | getInode key => daemonGetInode w key
  | setInode key inode => daemonSetInode w key inode
  | upsertChown key uid gid du dg => daemonUpsertChown w key uid gid du dg
  | removeInode key => daemonRemoveInode w key
  | getCurrentUidGid => daemonGetCurrentUidGid w
  | setCurrentUidGid uid gid => daemonSetCurrentUidGid w uid gid
  | init uid gid => daemonInit w uid gid

/-- The operation of the store, applied to it directly. An update reports success. -/
def direct : (rpc : DaemonCall) → FakeRootState → rpc.Reply × FakeRootState
  | getInode key, state => (state.getInode key, state)
  | setInode key inode, state => (true, state.setInode key inode)
  | upsertChown key uid gid du dg, state => (true, state.upsertChown key uid gid du dg)
  | removeInode key, state => (true, (state.removeInode key).2)
  | getCurrentUidGid, state => (some (state.currentUid, state.currentGid), state)
  | setCurrentUidGid uid gid, state => (true, state.setCurrent uid gid)
  | init uid gid, state => (true, state.setCurrent uid gid)

/-- Calls made one after the other. -/
def hookAll (w : Wincode) : List DaemonCall → Hook (List Answer)
  | [] => pure []
  | rpc :: rpcs => do
    let reply ← rpc.hook w
    let replies ← hookAll w rpcs
    pure (⟨rpc, reply⟩ :: replies)

def directAll : List DaemonCall → FakeRootState → List Answer × FakeRootState
  | [], state => ([], state)
  | rpc :: rpcs, state =>
    let (reply, state) := rpc.direct state
    let (replies, state) := directAll rpcs state
    (⟨rpc, reply⟩ :: replies, state)

section Exec

variable {n : ℕ} [NeZero n] {w : Wincode} (hw : w.Lawful) (codec : XattrCodec)
include hw

/-- A call sends one request, and does to the store of the server what it stands for. -/
theorem exec_hook {p : Process} (hp : p.Connected) (s : Session n) (rpc : DaemonCall) :
    exec (Session.handle w codec) (rpc.hook w) p s =
      (((rpc.direct s.daemon.state).1, p.sent 1),
        s.onDaemon fun state => (rpc.direct state).2) := by
  cases rpc with
  | getInode key => exact exec_daemonGetInode hw codec hp s key
  | setInode key inode => exact exec_daemonSetInode hw codec hp s key inode
  | upsertChown key uid gid du dg => exact exec_daemonUpsertChown hw codec hp s key uid gid du dg
  | removeInode key => exact exec_daemonRemoveInode hw codec hp s key
  | getCurrentUidGid => exact exec_daemonGetCurrentUidGid hw codec hp s
  | setCurrentUidGid uid gid => exact exec_daemonSetCurrentUidGid hw codec hp s uid gid
  | init uid gid => exact exec_daemonInit hw codec hp.active hp.daemonChannel s uid gid

theorem exec_hookAll {p : Process} (hp : p.Connected) (s : Session n) (rpcs : List DaemonCall) :
    exec (Session.handle w codec) (hookAll w rpcs) p s =
      (((directAll rpcs s.daemon.state).1, p.sent rpcs.length),
        s.onDaemon fun state => (directAll rpcs state).2) := by
  induction rpcs generalizing p s with
  | nil => simp [hookAll, directAll, Session.onDaemon, Process.sent]
  | cons rpc rpcs ih =>
      have hrpc := exec_hook hw codec hp s rpc
      have hrpcs := ih (hp.sent 1) (s.onDaemon fun state => (rpc.direct state).2)
      simp only [hookAll, exec_bind, hrpc, hrpcs, exec_pure, Process.sent_sent]
      rw [Nat.add_comm 1]
      rfl

end Exec

/-- Client and server together implement the store: any calls over one connection return
what the operations return that are applied directly, and leave the server with the store
that these leave. -/
theorem hookAll_implements_store {n : ℕ} [NeZero n] {w : Wincode} (hw : w.Lawful)
    (codec : XattrCodec) {p : Process} (hp : p.Connected) (s : Session n)
    (rpcs : List DaemonCall) :
    (exec (Session.handle w codec) (hookAll w rpcs) p s).1.1 =
        (directAll rpcs s.daemon.state).1 ∧
      (exec (Session.handle w codec) (hookAll w rpcs) p s).2.daemon.state =
        (directAll rpcs s.daemon.state).2 := by
  rw [exec_hookAll hw codec hp s rpcs]
  exact ⟨rfl, rfl⟩

/-- A chown on the daemon that a process connects to first, looked up and removed. -/
theorem hookAll_implements_store_chown :
    let p := (Process.constructed .daemon 0 0).finished.attachedDaemon
    let rpcs : List DaemonCall :=
      [.init 0 0, .upsertChown (9, 42) 99999 88888 0 0, .getInode (9, 42), .removeInode (9, 42)]
    (exec (Session.handle Wincode.bincode XattrCodec.wincode) (hookAll Wincode.bincode rpcs) p
        (Session.start 1 0 0)).1.1 = (directAll rpcs (newSharedState 0 0).state).1 ∧
      (exec (Session.handle Wincode.bincode XattrCodec.wincode) (hookAll Wincode.bincode rpcs) p
        (Session.start 1 0 0)).2.daemon.state = (directAll rpcs (newSharedState 0 0).state).2 :=
  hookAll_implements_store Wincode.bincode_lawful _
    (Process.fresh_constructed .daemon 0 0).connected_attachedDaemon _ _

end DaemonCall

end Pseudoroot
