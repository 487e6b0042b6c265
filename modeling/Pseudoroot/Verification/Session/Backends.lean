import Pseudoroot.Verification.Session.Startup
import Pseudoroot.Verification.ShmMap.Cells

/-! # Metadata hooks without a daemon

What the metadata functions do in a process that keeps its own table and in one that
is attached to a shared map. -/

namespace Pseudoroot

open Calls Calls.Program

/-- An initialized process that keeps its table to itself. -/
structure Process.InProcess (p : Process) : Prop where
  libraryInitDone : p.libraryInitDone = true
  sessionInit : p.sessionInit = true
  shmActive : p.shmActive = false
  daemonSocket : p.daemonSocket = false

namespace Process.InProcess

variable {p : Process} (h : p.InProcess)
include h

theorem enabled : p.daemonModeEnabled = false := h.daemonSocket

theorem active : p.daemonModeActive = false := by
  simp [daemonModeActive, h.enabled]

theorem withGlobalState (f : FakeRootState → FakeRootState) : (p.withGlobalState f).InProcess :=
  ⟨h.libraryInitDone, h.sessionInit, h.shmActive, h.daemonSocket⟩

end Process.InProcess

/-- What an update finds in one store: its entry, or a new one. -/
def FakeRootState.updateBase (g : FakeRootState) (key : InodeKey) : FakeInode :=
  (g.getInode key).getD (FakeInode.new g.currentUid g.currentGid)

section InProcess

variable {n : ℕ} [NeZero n] {w : Wincode} (codec : XattrCodec) {p : Process} (hp : p.InProcess)
  (s : Session n)
include hp

theorem exec_ensureLibraryInit_inProcess :
    exec (Session.handle w codec) (ensureLibraryInit w) p s = (((), p), s) := by
  simp [ensureLibraryInit, ensureSessionBackingInit, hp.libraryInitDone, hp.sessionInit]

theorem exec_currentFakeUid_inProcess :
    exec (Session.handle w codec) (currentFakeUid w) p s = ((p.globalState.currentUid, p), s) := by
  simp [currentFakeUid, sessionIds, ensureSessionBackingInit, hp.libraryInitDone, hp.sessionInit,
    hp.shmActive, hp.active]

theorem exec_currentFakeGid_inProcess :
    exec (Session.handle w codec) (currentFakeGid w) p s = ((p.globalState.currentGid, p), s) := by
  simp [currentFakeGid, sessionIds, ensureSessionBackingInit, hp.libraryInitDone, hp.sessionInit,
    hp.shmActive, hp.active]

theorem exec_getInode_inProcess (key : InodeKey) :
    exec (Session.handle w codec) (Ownership.getInode w key) p s =
      ((p.globalState.getInode key, p), s) := by
  simp [Ownership.getInode, hp.shmActive, hp.active]

theorem exec_setInode_inProcess (key : InodeKey) (inode : FakeInode) :
    exec (Session.handle w codec) (Ownership.setInode w key inode) p s =
      (((), p.withGlobalState fun g => g.setInode key inode), s) := by
  simp [Ownership.setInode, hp.shmActive, hp.enabled]

theorem exec_updateInode_inProcess (key : InodeKey) (f : FakeInode → FakeInode) :
    exec (Session.handle w codec) (Ownership.updateInode w key f) p s =
      (((), p.withGlobalState fun g => g.setInode key (f (g.updateBase key))), s) := by
  have hget := exec_getInode_inProcess (w := w) codec hp s key
  cases hold : p.globalState.getInode key with
  | some inode =>
      simp [Ownership.updateInode, hget, hold, exec_setInode_inProcess codec hp,
        FakeRootState.updateBase]
      simp [Process.withGlobalState, hold]
  | none =>
      simp [Ownership.updateInode, hget, hold, exec_currentFakeUid_inProcess codec hp,
        exec_currentFakeGid_inProcess codec hp, exec_setInode_inProcess codec hp,
        FakeRootState.updateBase]
      simp [Process.withGlobalState, hold]

theorem exec_removeInode_inProcess (key : InodeKey) :
    exec (Session.handle w codec) (Ownership.removeInode w key) p s =
      (((), p.withGlobalState fun g => (g.removeInode key).2), s) := by
  simp [Ownership.removeInode, hp.shmActive, hp.enabled]

theorem exec_recordChownKey_inProcess (key : InodeKey) (uid gid : UInt32) :
    exec (Session.handle w codec) (Ownership.recordChownKey w key uid gid) p s =
      (((), p.withGlobalState fun g => g.upsertChown key uid gid g.currentUid g.currentGid),
        s) := by
  simp [Ownership.recordChownKey, exec_currentFakeUid_inProcess codec hp,
    exec_currentFakeGid_inProcess codec hp, hp.shmActive, hp.active, hp.enabled,
    FakeRootState.getInode_upsertChown]
  rfl

end InProcess

/-- The session with its shared map changed. -/
def Session.onShm {n : ℕ} (s : Session n) (f : ShmInodeMap n → ShmInodeMap n) : Session n :=
  { s with shm := f s.shm }

/-! ## The header of the map -/

namespace ShmInodeMap

variable {n : ℕ} (codec : XattrCodec) (map : ShmInodeMap n)

@[simp] theorem header_writeXattrs (i : Fin n) (xattrs : XattrMap) :
    (map.writeXattrs codec i xattrs).header = map.header := by
  obtain ⟨page, h⟩ := writeXattrs_eq_setPage codec map i xattrs
  rw [h]
  rfl

@[simp] theorem header_setSlot (i : Fin n) (slot : Slot) :
    (map.setSlot i slot).header = map.header := rfl

variable [NeZero n] (key : InodeKey)

theorem header_upsertInode (inode : FakeInode) :
    (map.upsertInode codec key inode).header = map.header := by
  cases hp : map.probe key <;> simp [upsertInode, hp]

theorem header_upsertChown (uid gid du dg : UInt32) :
    (map.upsertChown codec key uid gid du dg).header = map.header := by
  cases hp : map.probe key <;> simp [upsertChown, hp]

theorem header_removeInode : (map.removeInode codec key).2.header = map.header := by
  cases hp : map.probe key <;> simp [removeInode, hp]

end ShmInodeMap

section Shm

variable {n : ℕ} [NeZero n] {w : Wincode} (codec : XattrCodec) {p : Process} (hp : p.Ready .shm)
  (s : Session n)
include hp

theorem Process.Ready.shmActive : p.shmActive = true := hp.2.2

theorem exec_currentFakeUid_shm :
    exec (Session.handle w codec) (currentFakeUid w) p s = ((s.shm.currentUid, p), s) := by
  simp [currentFakeUid, sessionIds, ensureSessionBackingInit, hp.libraryInitDone, hp.sessionInit,
    hp.shmActive, Session.handle]

theorem exec_currentFakeGid_shm :
    exec (Session.handle w codec) (currentFakeGid w) p s = ((s.shm.currentGid, p), s) := by
  simp [currentFakeGid, sessionIds, ensureSessionBackingInit, hp.libraryInitDone, hp.sessionInit,
    hp.shmActive, Session.handle]

theorem exec_getInode_shm (key : InodeKey) :
    exec (Session.handle w codec) (Ownership.getInode w key) p s =
      ((s.shm.getInode codec key, p), s) := by
  simp [Ownership.getInode, hp.shmActive, Session.handle]

theorem exec_setInode_shm (key : InodeKey) (inode : FakeInode) :
    exec (Session.handle w codec) (Ownership.setInode w key inode) p s =
      (((), p), s.onShm fun m => m.upsertInode codec key inode) := by
  simp [Ownership.setInode, hp.shmActive, Session.handle, Session.onShm]

theorem exec_removeInode_shm (key : InodeKey) :
    exec (Session.handle w codec) (Ownership.removeInode w key) p s =
      (((), p), s.onShm fun m => (m.removeInode codec key).2) := by
  simp [Ownership.removeInode, hp.shmActive, Session.handle, Session.onShm]

theorem exec_recordChownKey_shm (key : InodeKey) (uid gid : UInt32) :
    exec (Session.handle w codec) (Ownership.recordChownKey w key uid gid) p s =
      (((), p), s.onShm fun m =>
        m.upsertChown codec key uid gid s.shm.currentUid s.shm.currentGid) := by
  simp [Ownership.recordChownKey, exec_currentFakeUid_shm codec hp,
    exec_currentFakeGid_shm codec hp, hp.shmActive, Session.handle,
    Session.onShm]

end Shm

end Pseudoroot
