import Pseudoroot.Library.Calls.Interleaving
import Pseudoroot.Verification.Session.Requests

/-! # Metadata operations of the processes of a daemon session -/

namespace Pseudoroot

open Calls Calls.Program

/-- A metadata operation of a hook, on the inode it has found. -/
inductive MetadataOp where
  | setInode (key : InodeKey) (inode : FakeInode)
  | updateInode (key : InodeKey) (f : FakeInode → FakeInode)
  | removeInode (key : InodeKey)
  | recordChown (key : InodeKey) (uid gid : UInt32)

namespace MetadataOp

def hook (w : Wincode) : MetadataOp → Hook Unit
  | setInode key inode => Ownership.setInode w key inode
  | updateInode key f => Ownership.updateInode w key f
  | removeInode key => Ownership.removeInode w key
  | recordChown key uid gid => Ownership.recordChownKey w key uid gid

/-! The hooks on modes and attributes are updates. -/

def chmod (key : InodeKey) (realMode reqMode : UInt32) : MetadataOp :=
  updateInode key fun inode =>
    { inode with mode := some (Ownership.composeMode realMode reqMode) }

def setxattr (key : InodeKey) (name : String) (value : List UInt8) : MetadataOp :=
  updateInode key fun inode => { inode with xattrs := inode.xattrs.insert name value }

def removexattr (key : InodeKey) (name : String) : MetadataOp :=
  updateInode key fun inode => { inode with xattrs := inode.xattrs.erase name }

theorem hook_chmod (w : Wincode) (key : InodeKey) (realMode reqMode : UInt32) :
    (chmod key realMode reqMode).hook w = Ownership.recordChmodForKey w key realMode reqMode := rfl

theorem hook_setxattr (w : Wincode) (key : InodeKey) (name : String) (value : List UInt8) :
    (setxattr key name value).hook w = Ownership.recordXattrForKey w key name value := rfl

theorem hook_removexattr (w : Wincode) (key : InodeKey) (name : String) :
    (removexattr key name).hook w = Ownership.removeXattrForKey w key name := rfl

/-- The operation as a program of the process. -/
def body (w : Wincode) (op : MetadataOp) (p : Process) : Program sessionSignature Process :=
  Prod.snd <$> (op.hook w).run p

/-- The stores of the daemon and of the process after the operation. -/
def storesAfter (d g : FakeRootState) : MetadataOp → FakeRootState × FakeRootState
  | setInode key inode => (d.setInode key inode, g.setInode key inode)
  | updateInode key f =>
    (d.setInode key (f (updateBase d g key)), g.setInode key (f (updateBase d g key)))
  | removeInode key => ((d.removeInode key).2, (g.removeInode key).2)
  | recordChown key uid gid => (d.upsertChown key uid gid d.currentUid d.currentGid, g)

end MetadataOp

variable {ι : Type} [DecidableEq ι] {n : ℕ} [NeZero n] {w : Wincode} {codec : XattrCodec}

/-- The session and its processes. -/
abbrev Cluster (ι : Type) (n : ℕ) := Session n × (ι → Process)

namespace Cluster

/-- One operation of one process, from its first request to its last. -/
def step (w : Wincode) (codec : XattrCodec) (c : Cluster ι n) (a : ι × MetadataOp) :
    Cluster ι n :=
  Calls.serialStep (Session.handle w codec) (MetadataOp.body w) c a

def AllConnected (c : Cluster ι n) : Prop :=
  ∀ i, (c.2 i).Connected

theorem run_body (op : MetadataOp) (p : Process) (s : Session n) :
    (op.body w p).run (Session.handle w codec) s =
      ((exec (Session.handle w codec) (op.hook w) p s).1.2,
        (exec (Session.handle w codec) (op.hook w) p s).2) := by
  rw [MetadataOp.body, ← bind_pure_comp, run_bind]
  rfl

theorem step_eq (c : Cluster ι n) (i : ι) (op : MetadataOp) :
    step w codec c (i, op) =
      ((exec (Session.handle w codec) (op.hook w) (c.2 i) c.1).2,
        Function.update c.2 i (exec (Session.handle w codec) (op.hook w) (c.2 i) c.1).1.2) := by
  simp only [step, Calls.serialStep, run_body]

/-! ## One operation -/

/-- An operation of a connected process changes the two stores and the request count. -/
theorem exec_hook (codec : XattrCodec) (hw : w.Lawful) {p : Process} (hp : p.Connected)
    (s : Session n) (op : MetadataOp) :
    ∃ k, exec (Session.handle w codec) (op.hook w) p s =
      (((), (p.withGlobalState fun _ =>
          (op.storesAfter s.daemon.state p.globalState).2).sent k),
        s.onDaemon fun _ => (op.storesAfter s.daemon.state p.globalState).1) := by
  cases op with
  | setInode key inode => exact ⟨1, exec_setInode hw codec hp s key inode⟩
  | updateInode key f => exact exec_updateInode hw codec hp s key f
  | removeInode key => exact ⟨1, exec_removeInode hw codec hp s key⟩
  | recordChown key uid gid => exact ⟨3, exec_recordChownKey hw codec hp s key uid gid⟩

theorem AllConnected.step (codec : XattrCodec) (hw : w.Lawful) {c : Cluster ι n}
    (hc : c.AllConnected)
    (a : ι × MetadataOp) : (step w codec c a).AllConnected := by
  obtain ⟨i, op⟩ := a
  obtain ⟨k, hexec⟩ := exec_hook codec hw (hc i) c.1 op
  intro j
  rw [step_eq, hexec]
  by_cases hj : j = i
  · subst hj
    simpa using ((hc j).withGlobalState _).sent k
  · simpa [Function.update_of_ne hj] using hc j

end Cluster

end Pseudoroot
