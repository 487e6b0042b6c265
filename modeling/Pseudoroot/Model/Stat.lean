import Pseudoroot.Model.Process

/-! # Hooks on credentials and stat buffers -/

namespace Pseudoroot

/-- The fields of a stat buffer that the library reads or writes. -/
structure Stat where
  dev : UInt64
  ino : UInt64
  mode : UInt32
  nlink : UInt64
  uid : UInt32
  gid : UInt32
  rdev : UInt64
  deriving DecidableEq

def keyFromStat (st : Stat) : InodeKey := (st.dev, st.ino)

def patchInodeFields (st : Stat) (inode : FakeInode) : Stat :=
  { st with
    uid := inode.uid
    gid := inode.gid
    mode := inode.mode.getD st.mode
    rdev := inode.rdev.getD st.rdev }

/-- Report the ids of the in-process store. -/
def applyDefaultOwnership (st : Stat) : Hook Stat := do
  let state ← globalStateRead
  pure { st with uid := state.currentUid, gid := state.currentGid }

/-- Overlay the fake metadata on a filled stat buffer. -/
def modifyStatBuf (w : Wincode) (st : Stat) : Hook Stat := do
  ensureLibraryInit w
  let p ← get
  if !p.libraryInitDone then pure { st with uid := p.bootUid, gid := p.bootGid }
  else do
    let found ← Ownership.getInode w (keyFromStat st)
    match found with
    | some inode => pure (patchInodeFields st inode)
    | none => applyDefaultOwnership st

/-! ## Extended stat buffers -/

/-- Device numbers, packed and split. -/
structure DeviceNumbers where
  makedev : UInt32 → UInt32 → UInt64
  major : UInt64 → UInt32
  minor : UInt64 → UInt32

/-- The encoding of Linux: twelve bits of the major number around eight of the minor, and
the other bits above. -/
def DeviceNumbers.linux : DeviceNumbers where
  makedev major minor :=
    (major.toUInt64 &&& (0xfff : UInt64)) <<< (8 : UInt64) |||
      (major.toUInt64 &&& (0xfffff000 : UInt64)) <<< (32 : UInt64) |||
      (minor.toUInt64 &&& (0xff : UInt64)) |||
      (minor.toUInt64 &&& (0xffffff00 : UInt64)) <<< (12 : UInt64)
  major dev :=
    ((dev >>> (8 : UInt64) &&& (0xfff : UInt64)) |||
      (dev >>> (32 : UInt64) &&& (0xfffff000 : UInt64))).toUInt32
  minor dev :=
    ((dev &&& (0xff : UInt64)) ||| (dev >>> (12 : UInt64) &&& (0xffffff00 : UInt64))).toUInt32

/-- The fields of a statx buffer that the library reads or writes. -/
structure Statx where
  mask : UInt32
  uid : UInt32
  gid : UInt32
  mode : UInt16
  ino : UInt64
  rdevMajor : UInt32
  rdevMinor : UInt32
  devMajor : UInt32
  devMinor : UInt32
  deriving DecidableEq

def statxType : UInt32 := 0x1

def statxMode : UInt32 := 0x2

def statxUid : UInt32 := 0x8

def statxGid : UInt32 := 0x10

def keyFromStatx (devices : DeviceNumbers) (stx : Statx) : InodeKey :=
  (devices.makedev stx.devMajor stx.devMinor, stx.ino)

def Statx.withOwner (stx : Statx) (uid gid : UInt32) : Statx :=
  { stx with uid := uid, gid := gid, mask := stx.mask ||| (statxUid ||| statxGid) }

def patchStatxFields (devices : DeviceNumbers) (stx : Statx) (inode : FakeInode) : Statx :=
  let stx := stx.withOwner inode.uid inode.gid
  let stx := match inode.mode with
    | some mode =>
      { stx with mode := mode.toUInt16, mask := stx.mask ||| (statxMode ||| statxType) }
    | none => stx
  match inode.rdev with
  | some rdev => { stx with rdevMajor := devices.major rdev, rdevMinor := devices.minor rdev }
  | none => stx

/-- Overlay the fake metadata on a filled statx buffer. -/
def modifyStatxBuf (w : Wincode) (devices : DeviceNumbers) (stx : Statx) : Hook Statx := do
  ensureLibraryInit w
  let p ← get
  if !p.libraryInitDone then pure (stx.withOwner p.bootUid p.bootGid)
  else do
    let found ← Ownership.getInode w (keyFromStatx devices stx)
    match found with
    | some inode => pure (patchStatxFields devices stx inode)
    | none => do
      let state ← globalStateRead
      pure (stx.withOwner state.currentUid state.currentGid)

/-! ## Credentials -/

def getuid (w : Wincode) : Hook UInt32 := currentFakeUid w

def getgid (w : Wincode) : Hook UInt32 := currentFakeGid w

def setuid (w : Wincode) (uid : UInt32) : Hook Unit := do
  let gid ← getgid w
  setCurrentIds w uid gid

def setgid (w : Wincode) (gid : UInt32) : Hook Unit := do
  let uid ← getuid w
  setCurrentIds w uid gid

end Pseudoroot
