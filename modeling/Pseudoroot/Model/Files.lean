import Pseudoroot.Model.Kernel

/-! # Hooks on files

A hook gets the state of the kernel and returns its status with the new state. -/

namespace Pseudoroot

variable {κ : Type} (w : Wincode) (kernel : Kernel κ) (k : κ)

namespace Ownership

/-! ## Ownership, mode and attributes -/

def zeroOnErr (result : Int32) : Int32 := if result < 0 then 0 else result

def recordChown (source : StatSource) (uid gid : UInt32) : Hook Int32 := do
  ensureLibraryInit w
  match source.stat kernel k with
  | .ok st => do
    recordChownKey w (keyFromStat st) uid gid
    pure 0
  | .error errno => pure errno

def recordChmod (source : StatSource) (mode : UInt32) : Hook (Int32 × κ) := do
  ensureLibraryInit w
  match source.stat kernel k with
  | .ok st => do
    recordChmodForKey w (keyFromStat st) st.mode mode
    let (real, k) := kernel.chmod k source mode
    pure (zeroOnErr real, k)
  | .error errno => pure (errno, k)

/-! ## Removal -/

def maybeRemoveInode (key : InodeKey) (nlink : UInt64) : Hook Unit :=
  if nlink ≤ 1 then removeInode w key else pure ()

def prepareRenameOverwrite (olddirfd : Int32) (oldpath : CStr) (newdirfd : Int32)
    (newpath : CStr) : Hook Unit := do
  ensureLibraryInit w
  match kernel.statAt k newdirfd newpath 0 with
  | .ok newSt =>
    let newKey := keyFromStat newSt
    match kernel.statAt k olddirfd oldpath 0 with
    | .ok oldSt =>
      let oldKey := keyFromStat oldSt
      if newKey ≠ oldKey then maybeRemoveInode w newKey newSt.nlink else pure ()
    | .error _ => maybeRemoveInode w newKey newSt.nlink
  | .error _ => pure ()

def maybeRemoveInodeAt (dirfd : Int32) (path : CStr) (atFlags : Int32) : Hook Unit := do
  ensureLibraryInit w
  let statFlags := resolveStatFlags dirfd path atFlags
  match kernel.statAt k dirfd path statFlags with
  | .ok st => maybeRemoveInode w (keyFromStat st) st.nlink
  | .error _ => pure ()

def maybeRemoveInodePath (path : CStr) : Hook Unit := do
  ensureLibraryInit w
  match kernel.statPath k path with
  | .ok st => maybeRemoveInode w (keyFromStat st) st.nlink
  | .error _ => pure ()

/-! ## Special files -/

/-- Drop a regular placeholder and record the metadata of the special file. -/
def finishFakeMknod (resolved : List UInt8) (mode : UInt32) (dev : UInt64) :
    Hook (Int32 × κ) :=
  let (opened, k) := kernel.openCreate k resolved
  if !opened then pure (-1, k)
  else
    match kernel.statPath k (some resolved) with
    | .ok st => do
      let uid ← currentFakeUid w
      let gid ← currentFakeGid w
      let kind := mode &&& sIfmt
      setInode w (keyFromStat st)
        { FakeInode.new uid gid with
          mode := some mode
          rdev := if kind = sIfchr ∨ kind = sIfblk then some dev else none }
      pure (0, k)
    | .error errno => pure (errno, k)

def fakeMknodPath (pathname : CStr) (mode : UInt32) (dev : UInt64) : Hook (Int32 × κ) := do
  ensureLibraryInit w
  match resolvePathCwd pathname with
  | none => pure (kernel.mknod k pathname mode dev)
  | some resolved => do
    let (result, k) ← finishFakeMknod w kernel k resolved mode dev
    if result < 0 then pure (kernel.mknod k pathname mode dev) else pure (result, k)

def fakeMknodat (dirfd : Int32) (pathname : CStr) (mode : UInt32) (dev : UInt64) :
    Hook (Int32 × κ) := do
  ensureLibraryInit w
  match resolvePathAt dirfd pathname with
  | none => pure (kernel.mknodat k dirfd pathname mode dev)
  | some resolved => do
    let (result, k) ← finishFakeMknod w kernel k resolved mode dev
    if result < 0 then pure (kernel.mknodat k dirfd pathname mode dev) else pure (result, k)

end Ownership

/-! ## Hooks -/

open Ownership

def chown (path : CStr) (uid gid : UInt32) : Hook Int32 :=
  recordChown w kernel k (.path path false) uid gid

def lchown (path : CStr) (uid gid : UInt32) : Hook Int32 :=
  recordChown w kernel k (.path path true) uid gid

def fchown (fd : Int32) (uid gid : UInt32) : Hook Int32 :=
  recordChown w kernel k (.fd fd) uid gid

def fchownat (dirfd : Int32) (path : CStr) (uid gid : UInt32) (flags : Int32) : Hook Int32 :=
  recordChown w kernel k (.atDir dirfd path flags) uid gid

def chmod (path : CStr) (mode : UInt32) : Hook (Int32 × κ) :=
  recordChmod w kernel k (.path path false) mode

def fchmod (fd : Int32) (mode : UInt32) : Hook (Int32 × κ) :=
  recordChmod w kernel k (.fd fd) mode

def fchmodat (dirfd : Int32) (path : CStr) (mode : UInt32) (flags : Int32) : Hook (Int32 × κ) :=
  recordChmod w kernel k (.atDir dirfd path flags) mode

def mknod (pathname : CStr) (mode : UInt32) (dev : UInt64) : Hook (Int32 × κ) :=
  fakeMknodPath w kernel k pathname mode dev

def mknodat (dirfd : Int32) (pathname : CStr) (mode : UInt32) (dev : UInt64) :
    Hook (Int32 × κ) :=
  fakeMknodat w kernel k dirfd pathname mode dev

def unlink (path : CStr) : Hook (Int32 × κ) := do
  maybeRemoveInodePath w kernel k path
  pure (kernel.unlink k path)

def unlinkat (dirfd : Int32) (path : CStr) (flags : Int32) : Hook (Int32 × κ) := do
  maybeRemoveInodeAt w kernel k dirfd path flags
  pure (kernel.unlinkat k dirfd path flags)

def rmdir (path : CStr) : Hook (Int32 × κ) := do
  maybeRemoveInodePath w kernel k path
  pure (kernel.rmdir k path)

def rename (oldpath newpath : CStr) : Hook (Int32 × κ) := do
  prepareRenameOverwrite w kernel k atFdcwd oldpath atFdcwd newpath
  pure (kernel.rename k oldpath newpath)

def renameat (olddirfd : Int32) (oldpath : CStr) (newdirfd : Int32) (newpath : CStr) :
    Hook (Int32 × κ) := do
  prepareRenameOverwrite w kernel k olddirfd oldpath newdirfd newpath
  pure (kernel.renameat k olddirfd oldpath newdirfd newpath)

def renameat2 (olddirfd : Int32) (oldpath : CStr) (newdirfd : Int32) (newpath : CStr)
    (flags : UInt32) : Hook (Int32 × κ) := do
  prepareRenameOverwrite w kernel k olddirfd oldpath newdirfd newpath
  pure (kernel.renameat2 k olddirfd oldpath newdirfd newpath flags)

end Pseudoroot
