import Std.Data.ExtTreeMap
import Mathlib.Logic.Function.Basic

/-! # Fake root state -/

namespace Pseudoroot

/-- Device and inode identity of a file-system object. -/
abbrev InodeKey := UInt64 × UInt64

/-- Extended attributes by name. A tree map stands for the hash map: equal contents
are equal maps. Only the order in which names are listed shows the difference. -/
abbrev XattrMap := Std.ExtTreeMap String (List UInt8)

/-- Per-inode fake metadata. -/
structure FakeInode where
  uid : UInt32
  gid : UInt32
  /-- Full mode to report (type and permission bits). Set by `chmod` and `mknod`. -/
  mode : Option UInt32
  /-- Device id to report for device nodes. Set by `mknod`. -/
  rdev : Option UInt64
  xattrs : XattrMap
  deriving DecidableEq

def FakeInode.new (uid gid : UInt32) : FakeInode where
  uid := uid
  gid := gid
  mode := none
  rdev := none
  xattrs := ∅

/-- `u32::MAX`: leave this id unchanged. -/
def idUnchanged : UInt32 := 0xFFFFFFFF

/-- The ids of a partial chown over present ids. -/
def FakeInode.mergeChown (inode : FakeInode) (uid gid : UInt32) : FakeInode :=
  { inode with
    uid := if uid ≠ idUnchanged then uid else inode.uid
    gid := if gid ≠ idUnchanged then gid else inode.gid }

theorem FakeInode.mergeChown_eq (inode : FakeInode) (uid gid : UInt32) :
    inode.mergeChown uid gid =
      { inode with
        uid := if uid = idUnchanged then inode.uid else uid
        gid := if gid = idUnchanged then inode.gid else gid } := by
  simp [mergeChown]

theorem FakeInode.mergeChown_new (du dg uid gid : UInt32) :
    (FakeInode.new du dg).mergeChown uid gid =
      FakeInode.new (if uid = idUnchanged then du else uid)
        (if gid = idUnchanged then dg else gid) := by
  simp [mergeChown, new]

/-- The metadata table of one process or daemon, and its current ids. -/
structure FakeRootState where
  inodeMap : InodeKey → Option FakeInode
  currentUid : UInt32
  currentGid : UInt32

namespace FakeRootState

def new : FakeRootState where
  inodeMap := fun _ => none
  currentUid := 0
  currentGid := 0

def setCurrent (state : FakeRootState) (uid gid : UInt32) : FakeRootState :=
  { state with currentUid := uid, currentGid := gid }

def setInode (state : FakeRootState) (key : InodeKey) (inode : FakeInode) : FakeRootState :=
  { state with inodeMap := Function.update state.inodeMap key (some inode) }

def getInode (state : FakeRootState) (key : InodeKey) : Option FakeInode :=
  state.inodeMap key

/-- The removed entry, if there was one, and the table without it. -/
def removeInode (state : FakeRootState) (key : InodeKey) : Option FakeInode × FakeRootState :=
  (state.inodeMap key, { state with inodeMap := Function.update state.inodeMap key none })

/-- Merge a chown: modify the entry of `key`, or insert one seeded with the defaults. -/
def upsertChown (state : FakeRootState) (key : InodeKey) (uid gid defaultUid defaultGid : UInt32) :
    FakeRootState :=
  let entry :=
    match state.inodeMap key with
    | some inode => inode.mergeChown uid gid
    | none => (FakeInode.new defaultUid defaultGid).mergeChown uid gid
  { state with inodeMap := Function.update state.inodeMap key (some entry) }

/-! ## Reading back -/

variable (state : FakeRootState) (key : InodeKey)

@[simp] theorem getInode_setCurrent (uid gid : UInt32) :
    (state.setCurrent uid gid).getInode key = state.getInode key := rfl

@[simp] theorem currentUid_setCurrent (uid gid : UInt32) :
    (state.setCurrent uid gid).currentUid = uid := rfl

@[simp] theorem currentGid_setCurrent (uid gid : UInt32) :
    (state.setCurrent uid gid).currentGid = gid := rfl

@[simp] theorem currentUid_setInode (inode : FakeInode) :
    (state.setInode key inode).currentUid = state.currentUid := rfl

@[simp] theorem currentGid_setInode (inode : FakeInode) :
    (state.setInode key inode).currentGid = state.currentGid := rfl

@[simp] theorem currentUid_removeInode :
    (state.removeInode key).2.currentUid = state.currentUid := rfl

@[simp] theorem currentGid_removeInode :
    (state.removeInode key).2.currentGid = state.currentGid := rfl

@[simp] theorem currentUid_upsertChown (uid gid du dg : UInt32) :
    (state.upsertChown key uid gid du dg).currentUid = state.currentUid := rfl

@[simp] theorem currentGid_upsertChown (uid gid du dg : UInt32) :
    (state.upsertChown key uid gid du dg).currentGid = state.currentGid := rfl

theorem getInode_setInode (key' : InodeKey) (inode : FakeInode) :
    (state.setInode key inode).getInode key' =
      if key' = key then some inode else state.getInode key' := by
  simp [setInode, getInode, Function.update_apply]

theorem getInode_removeInode (key' : InodeKey) :
    (state.removeInode key).2.getInode key' = if key' = key then none else state.getInode key' := by
  simp [removeInode, getInode, Function.update_apply]

@[simp] theorem removeInode_fst : (state.removeInode key).1 = state.getInode key := rfl

/-- A chown binds its key to the merge over the present entry, or over the defaults. -/
theorem getInode_upsertChown (key' : InodeKey) (uid gid du dg : UInt32) :
    (state.upsertChown key uid gid du dg).getInode key' =
      if key' = key then
        some (((state.getInode key).getD (FakeInode.new du dg)).mergeChown uid gid)
      else state.getInode key' := by
  cases h : state.inodeMap key <;> simp [upsertChown, getInode, Function.update_apply, h]

theorem getInode_setInode_eq (inode : FakeInode) :
    (state.setInode key inode).getInode = Function.update state.getInode key (some inode) := rfl

theorem getInode_upsertChown_eq (uid gid du dg : UInt32) :
    (state.upsertChown key uid gid du dg).getInode =
      Function.update state.getInode key
        (some (((state.getInode key).getD (FakeInode.new du dg)).mergeChown uid gid)) := by
  funext key'
  rw [getInode_upsertChown, Function.update_apply]

end FakeRootState

end Pseudoroot
