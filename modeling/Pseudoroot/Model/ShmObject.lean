import Pseudoroot.Model.ShmMap

/-! # Mapping an inherited object

`from_fd` takes a descriptor and a length from the environment and reads the slot count
from the object itself. The bounds of every later access follow from these, so here the
offsets inside the object matter: an access that is not wholly inside the object and
the mapping is a fault. -/

namespace Pseudoroot

/-- `str::parse::<usize>`: a plus sign or none, then decimal digits. -/
def parseUsize (value : String) : Option ℕ :=
  let digits :=
    match value.toList with
    | '+' :: rest => rest
    | digits => digits
  if digits.isEmpty then none
  else if digits.all Char.isDigit then
    checkedUsize (digits.foldl (fun v digit => 10 * v + (digit.toNat - 48)) 0)
  else none

/-- The number in the `width` bytes at `off`, zero where the object has ended. -/
def fieldAt (object : List UInt8) (off width : ℕ) : ℕ :=
  Bytes.ofLE ((object.drop off).take width)

namespace Header

/-- The `repr(C)` layout of `Header`. -/
def ofObject (object : List UInt8) : Header where
  magic := UInt32.ofNat (fieldAt object 0 4)
  version := UInt32.ofNat (fieldAt object 4 4)
  slotCount := UInt32.ofNat (fieldAt object 8 4)
  currentUid := UInt32.ofNat (fieldAt object 12 4)
  currentGid := UInt32.ofNat (fieldAt object 16 4)

end Header

/-- The `repr(C)` layout of `Slot`: four bytes of padding follow `occupied` and `mode`. -/
def Slot.ofObject (object : List UInt8) (off : ℕ) : Slot where
  occupied := UInt32.ofNat (fieldAt object off 4)
  dev := UInt64.ofNat (fieldAt object (off + 8) 8)
  ino := UInt64.ofNat (fieldAt object (off + 16) 8)
  uid := UInt32.ofNat (fieldAt object (off + 24) 4)
  gid := UInt32.ofNat (fieldAt object (off + 28) 4)
  mode := UInt32.ofNat (fieldAt object (off + 32) 4)
  rdev := UInt64.ofNat (fieldAt object (off + 40) 8)

def XattrPage.ofObject (object : List UInt8) (off : ℕ) : XattrPage where
  bytes := ((object.drop off).take xattrPageSize).rightpad xattrPageSize 0
  length_eq := by simp [List.rightpad]

/-- Offset of the xattr page region, right after the slot table. -/
def xattrRegionOffset (slotCount : ℕ) : ℕ :=
  headerSize + slotSize * slotCount

inductive Fault where
  | divideByZero
  | outside
  deriving DecidableEq

/-- A map over an inherited object: the size of the object, and what the mapping of
`table.len` bytes holds for the slot count in its header. -/
structure InheritedMap (n : ℕ) where
  size : ℕ
  table : ShmInodeMap n

namespace InheritedMap

variable {n : ℕ}

def ofObject (len : ℕ) (object : List UInt8) :
    InheritedMap (Header.ofObject object).slotCount.toNat where
  size := object.length
  table :=
    { len := len
      header := Header.ofObject object
      slot := fun i => Slot.ofObject object (headerSize + slotSize * i)
      xattrPage := fun i => XattrPage.ofObject object
        (xattrRegionOffset (Header.ofObject object).slotCount.toNat + xattrPageSize * i) }

/-! ## Accesses -/

def access (map : InheritedMap n) (offset length : ℕ) : Except Fault Unit :=
  if offset + length ≤ map.size ∧ offset + length ≤ map.table.len then .ok ()
  else .error .outside

def slot (map : InheritedMap n) (index : Fin n) : Except Fault Slot := do
  map.access (headerSize + slotSize * index) slotSize
  return map.table.slot index

def xattrPage (map : InheritedMap n) (index : Fin n) : Except Fault XattrPage := do
  map.access (xattrRegionOffset n + xattrPageSize * index) xattrPageSize
  return map.table.xattrPage index

def setSlot (map : InheritedMap n) (index : Fin n) (slot : Slot) : InheritedMap n :=
  { map with table := map.table.setSlot index slot }

def hash (key : InodeKey) : Except Fault (Fin n) :=
  let mixed := key.1 ^^^ key.2 * 0x9E3779B97F4A7C15
  if h : 0 < n then .ok ⟨mixed.toNat % n, Nat.mod_lt _ h⟩ else .error .divideByZero

def probeLoop (map : InheritedMap n) (key : InodeKey) :
    ℕ → Fin n → Option (Fin n) → Except Fault (Probe n)
  | 0, _, _ => return .full
  | fuel + 1, idx, reuse => do
    let slot ← map.slot idx
    if slot.occupied = slotEmpty then return .vacant (reuse.getD idx)
    else if slot.occupied = slotLive ∧ slot.dev = key.1 ∧ slot.ino = key.2 then return .found idx
    else
      let reuse' := if slot.occupied = slotTombstone ∧ reuse.isNone then some idx else reuse
      probeLoop map key fuel (LinearProbing.next idx) reuse'

def probe (map : InheritedMap n) (key : InodeKey) : Except Fault (Probe n) := do
  let idx ← hash key
  map.probeLoop key n idx none

def writeXattrs (codec : XattrCodec) (map : InheritedMap n) (index : Fin n) (xattrs : XattrMap) :
    Except Fault (InheritedMap n) := do
  let _page ← map.xattrPage index
  return { map with table := map.table.writeXattrs codec index xattrs }

def readXattrs (codec : XattrCodec) (map : InheritedMap n) (index : Fin n) :
    Except Fault XattrMap := do
  let page ← map.xattrPage index
  let len := page.lengthPrefix
  if len = 0 ∨ len > xattrPageSize - 4 then return ∅
  else return (codec.deserialize (page.body len)).getD ∅

/-! ## Operations -/

def getInode (codec : XattrCodec) (map : InheritedMap n) (key : InodeKey) :
    Except Fault (Option FakeInode) := do
  match ← map.probe key with
  | .found idx =>
    let slot ← map.slot idx
    let xattrs ← map.readXattrs codec idx
    return some
      { FakeInode.new slot.uid slot.gid with
        mode := if slot.mode ≠ 0 then some slot.mode else none
        rdev := if slot.rdev ≠ 0 then some slot.rdev else none
        xattrs := xattrs }
  | _ => return none

def upsertChown (codec : XattrCodec) (map : InheritedMap n) (key : InodeKey)
    (uid gid defaultUid defaultGid : UInt32) : Except Fault (InheritedMap n) := do
  match ← map.probe key with
  | .found idx =>
    let slot ← map.slot idx
    return map.setSlot idx
      { slot with
        uid := if uid ≠ idUnchanged then uid else slot.uid
        gid := if gid ≠ idUnchanged then gid else slot.gid }
  | .vacant idx =>
    let newUid := if uid = idUnchanged then defaultUid else uid
    let newGid := if gid = idUnchanged then defaultGid else gid
    let cleared ← map.writeXattrs codec idx ∅
    let _target ← cleared.slot idx
    return cleared.setSlot idx
      { occupied := slotLive, dev := key.1, ino := key.2, uid := newUid, gid := newGid,
        mode := 0, rdev := 0 }
  | .full => return map

def upsertInode (codec : XattrCodec) (map : InheritedMap n) (key : InodeKey)
    (inode : FakeInode) : Except Fault (InheritedMap n) := do
  match ← map.probe key with
  | .found idx =>
    let slot ← map.slot idx
    (map.setSlot idx
      { slot with
        uid := inode.uid, gid := inode.gid,
        mode := inode.mode.getD 0, rdev := inode.rdev.getD 0 }).writeXattrs codec idx inode.xattrs
  | .vacant idx =>
    let written ← map.writeXattrs codec idx inode.xattrs
    let _target ← written.slot idx
    return written.setSlot idx
      { occupied := slotLive, dev := key.1, ino := key.2, uid := inode.uid, gid := inode.gid,
        mode := inode.mode.getD 0, rdev := inode.rdev.getD 0 }
  | .full => return map

def removeInode (codec : XattrCodec) (map : InheritedMap n) (key : InodeKey) :
    Except Fault (Bool × InheritedMap n) := do
  match ← map.probe key with
  | .found idx =>
    let cleared ← map.writeXattrs codec idx ∅
    let slot ← cleared.slot idx
    return (true, cleared.setSlot idx { slot with occupied := slotTombstone })
  | _ => return (false, map)

end InheritedMap

/-! ## Attaching -/

/-- Which of the system calls of `from_fd` succeed. -/
structure FromFdOs where
  dup : Bool
  fstat : Bool
  mmap : Bool

inductive FromFdError where
  | invalidData (text : String)
  | lastOsError
  deriving DecidableEq

/-- The result of `from_fd`. The process faults when it reads a header that is not there. -/
inductive FromFdOutcome (n : ℕ) where
  | faulted
  | err (error : FromFdError)
  | ok (map : InheritedMap n)

/-- Map an inherited object; `shmLen` is the value of `PSEUDOROOT_SHM_LEN`. -/
def InheritedMap.fromFd (os : FromFdOs) (shmLen : Option String) (object : List UInt8) :
    FromFdOutcome (Header.ofObject object).slotCount.toNat :=
  if !os.dup then .err .lastOsError
  else
    match (shmLen.bind parseUsize).filter (fun len => headerSize ≤ len) with
    | some len => mapped len
    | none => if !os.fstat then .err .lastOsError else mapped object.length
where
  mapped (len : ℕ) : FromFdOutcome (Header.ofObject object).slotCount.toNat :=
    if len < headerSize then .err (.invalidData "shm map too small")
    else if !os.mmap then .err .lastOsError
    -- An empty object has no page to read; in any other, the rest of the first page is zero.
    else if object.isEmpty then .faulted
    else
      let header := Header.ofObject object
      if header.magic ≠ shmMagic ∨ header.version ≠ shmVersion then
        .err (.invalidData "shm map header mismatch")
      else .ok (ofObject len object)

end Pseudoroot
