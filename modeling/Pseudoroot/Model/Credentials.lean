import Pseudoroot.Model.Stat

/-! # Hooks that set ids -/

namespace Pseudoroot

variable (w : Wincode)

def setreuid (_ruid euid : UInt32) : Hook Unit := do
  let gid ← getgid w
  setCurrentIds w euid gid

def setregid (_rgid egid : UInt32) : Hook Unit := do
  let uid ← getuid w
  setCurrentIds w uid egid

def setresuid (_ruid euid _suid : UInt32) : Hook Unit := do
  let gid ← getgid w
  setCurrentIds w euid gid

def setresgid (_rgid egid _sgid : UInt32) : Hook Unit := do
  let uid ← getuid w
  setCurrentIds w uid egid

/-! ## Filesystem ids -/

/-- The statics `FS_UID` and `FS_GID`. -/
structure FsIds where
  fsUid : UInt32
  fsGid : UInt32

/-- Both are `u32::MAX` in a new process. -/
def FsIds.new : FsIds := ⟨0xFFFFFFFF, 0xFFFFFFFF⟩

namespace Ownership

def readFsUid (fs : FsIds) : Hook UInt32 :=
  if fs.fsUid = 0xFFFFFFFF then currentFakeUid w else pure fs.fsUid

def readFsGid (fs : FsIds) : Hook UInt32 :=
  if fs.fsGid = 0xFFFFFFFF then currentFakeGid w else pure fs.fsGid

/-- The previous filesystem uid, and the statics with the new one. -/
def setFsuid (fs : FsIds) (uid : UInt32) : Hook (UInt32 × FsIds) := do
  let previous ← readFsUid w fs
  pure (previous, { fs with fsUid := uid })

def setfsgid (fs : FsIds) (gid : UInt32) : Hook (UInt32 × FsIds) := do
  let previous ← readFsGid w fs
  pure (previous, { fs with fsGid := gid })

end Ownership

def setfsuid (fs : FsIds) (uid : UInt32) : Hook (Int32 × FsIds) := do
  let (previous, fs) ← Ownership.setFsuid w fs uid
  pure (previous.toInt32, fs)

def setfsgid (fs : FsIds) (gid : UInt32) : Hook (Int32 × FsIds) := do
  let (previous, fs) ← Ownership.setfsgid w fs gid
  pure (previous.toInt32, fs)

end Pseudoroot
