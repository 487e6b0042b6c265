import Pseudoroot.Library.Bytes
import Pseudoroot.Library.LinearProbing.Probe
import Pseudoroot.Model.State

/-! # The session's shared-memory inode map

The mapped object is modelled by its parts: a header, one slot and one xattr page
for each position. Offsets inside the object play no role for what the operations
compute. -/

namespace Pseudoroot

def shmMagic : UInt32 := 0x50445253

def shmVersion : UInt32 := 3

/-- Per-slot inline storage for a serialized xattr map. -/
def xattrPageSize : ℕ := 4096

/-- Slot has never been used. -/
def slotEmpty : UInt32 := 0

/-- Slot holds a live entry. -/
def slotLive : UInt32 := 1

/-- Slot held an entry that was removed: probing skips it, insertion may take it. -/
def slotTombstone : UInt32 := 2

/-- Outcome of a linear probe through the slot table: `Found`, `Vacant` or `Full`. -/
abbrev Probe (n : ℕ) := LinearProbing.Outcome n

structure Header where
  magic : UInt32
  version : UInt32
  slotCount : UInt32
  currentUid : UInt32
  currentGid : UInt32

structure Slot where
  occupied : UInt32
  dev : UInt64
  ino : UInt64
  uid : UInt32
  gid : UInt32
  mode : UInt32
  rdev : UInt64

/-- `size_of::<Header>()`: five `u32` fields, aligned to 64 bytes. -/
def headerSize : ℕ := 64

/-- `size_of::<Slot>()`: the fields in declaration order, aligned to 8 bytes. -/
def slotSize : ℕ := 48

structure XattrPage where
  bytes : List UInt8
  length_eq : bytes.length = xattrPageSize

namespace XattrPage

def zeroed : XattrPage := ⟨List.replicate xattrPageSize 0, List.length_replicate⟩

/-- `page[off..off + src.len()].copy_from_slice(src)`. The range lies in the page at
every call; outside it Rust panics. -/
def copyFromSlice (page : XattrPage) (off : ℕ) (src : List UInt8) : XattrPage :=
  if h : off + src.length ≤ xattrPageSize then
    ⟨Bytes.copyFromSlice page.bytes off src, by
      rw [Bytes.length_copyFromSlice (by rw [page.length_eq]; exact h), page.length_eq]⟩
  else page

/-- The length prefix, `u32::from_le_bytes(page[..4])`. -/
def lengthPrefix (page : XattrPage) : ℕ :=
  Bytes.ofLE (page.bytes.take 4)

/-- `page[4..4 + len]`. -/
def body (page : XattrPage) (len : ℕ) : List UInt8 :=
  (page.bytes.drop 4).take len

end XattrPage

/-- The wincode encoding of an xattr map: what `serialize` and `deserialize` return
when they succeed. -/
structure XattrCodec where
  serialize : XattrMap → Option (List UInt8)
  deserialize : List UInt8 → Option XattrMap

/-- The inode table shared across a session, with `n` slots. -/
structure ShmInodeMap (n : ℕ) where
  len : ℕ
  header : Header
  slot : Fin n → Slot
  xattrPage : Fin n → XattrPage

namespace ShmInodeMap

variable {n : ℕ}

/-! ## Header -/

def currentUid (map : ShmInodeMap n) : UInt32 := map.header.currentUid

def currentGid (map : ShmInodeMap n) : UInt32 := map.header.currentGid

def setCurrent (map : ShmInodeMap n) (uid gid : UInt32) : ShmInodeMap n :=
  { map with header := { map.header with currentUid := uid, currentGid := gid } }

/-! ## Probing -/

/-- The bucket of a key: `dev ^ ino * 0x9E3779B97F4A7C15`, reduced by the slot count. -/
def hash [NeZero n] (key : InodeKey) : Fin n :=
  let mixed := key.1 ^^^ key.2 * 0x9E3779B97F4A7C15
  ⟨mixed.toNat % n, Nat.mod_lt _ (Nat.pos_of_neZero n)⟩

/-- The body of the loop of `probe`, with the iterations left as fuel. -/
def probeLoop (map : ShmInodeMap n) (key : InodeKey) : ℕ → Fin n → Option (Fin n) → Probe n
  | 0, _, _ => .full
  | fuel + 1, idx, reuse =>
    let slot := map.slot idx
    if slot.occupied = slotEmpty then .vacant (reuse.getD idx)
    else if slot.occupied = slotLive ∧ slot.dev = key.1 ∧ slot.ino = key.2 then .found idx
    else
      let reuse' := if slot.occupied = slotTombstone ∧ reuse.isNone then some idx else reuse
      probeLoop map key fuel (LinearProbing.next idx) reuse'

/-- Walk the linear probe sequence of a key: stop at a live match, at the first empty
slot (preferring the earliest tombstone passed), or after `slot_count` steps. -/
def probe [NeZero n] (map : ShmInodeMap n) (key : InodeKey) : Probe n :=
  map.probeLoop key n (hash key) none

/-! ## Xattr pages -/

def setPage (map : ShmInodeMap n) (index : Fin n) (page : XattrPage) : ShmInodeMap n :=
  { map with xattrPage := Function.update map.xattrPage index page }

def setSlot (map : ShmInodeMap n) (index : Fin n) (slot : Slot) : ShmInodeMap n :=
  { map with slot := Function.update map.slot index slot }

/-- Serialize `xattrs` into the page of slot `index`; what does not fit is dropped. -/
def writeXattrs (codec : XattrCodec) (map : ShmInodeMap n) (index : Fin n) (xattrs : XattrMap) :
    ShmInodeMap n :=
  let page := map.xattrPage index
  if xattrs.isEmpty then
    map.setPage index (page.copyFromSlice 0 (Bytes.toLE 4 0))
  else
    match (codec.serialize xattrs).filter (fun bytes => bytes.length ≤ xattrPageSize - 4) with
    | some bytes =>
      map.setPage index
        ((page.copyFromSlice 0 (Bytes.toLE 4 bytes.length)).copyFromSlice 4 bytes)
    | none => map.setPage index (page.copyFromSlice 0 (Bytes.toLE 4 0))

def readXattrs (codec : XattrCodec) (map : ShmInodeMap n) (index : Fin n) : XattrMap :=
  let page := map.xattrPage index
  let len := page.lengthPrefix
  if len = 0 ∨ len > xattrPageSize - 4 then ∅
  else (codec.deserialize (page.body len)).getD ∅

/-! ## Operations -/

/-- The metadata that a live slot and its page stand for. Zero marks an unset mode or
device id. -/
def inodeAt (codec : XattrCodec) (map : ShmInodeMap n) (idx : Fin n) : FakeInode :=
  let slot := map.slot idx
  { FakeInode.new slot.uid slot.gid with
    mode := if slot.mode ≠ 0 then some slot.mode else none
    rdev := if slot.rdev ≠ 0 then some slot.rdev else none
    xattrs := map.readXattrs codec idx }

def getInode [NeZero n] (codec : XattrCodec) (map : ShmInodeMap n) (key : InodeKey) :
    Option FakeInode :=
  match map.probe key with
  | .found idx => some (map.inodeAt codec idx)
  | _ => none

def upsertChown [NeZero n] (codec : XattrCodec) (map : ShmInodeMap n) (key : InodeKey)
    (uid gid defaultUid defaultGid : UInt32) : ShmInodeMap n :=
  match map.probe key with
  | .found idx =>
    let slot := map.slot idx
    map.setSlot idx
      { slot with
        uid := if uid ≠ idUnchanged then uid else slot.uid
        gid := if gid ≠ idUnchanged then gid else slot.gid }
  | .vacant idx =>
    let newUid := if uid = idUnchanged then defaultUid else uid
    let newGid := if gid = idUnchanged then defaultGid else gid
    -- Clear any xattrs left behind by the previous occupant of the slot.
    (map.writeXattrs codec idx ∅).setSlot idx
      { occupied := slotLive, dev := key.1, ino := key.2, uid := newUid, gid := newGid,
        mode := 0, rdev := 0 }
  | .full => map

def upsertInode [NeZero n] (codec : XattrCodec) (map : ShmInodeMap n) (key : InodeKey)
    (inode : FakeInode) : ShmInodeMap n :=
  match map.probe key with
  | .found idx =>
    (map.setSlot idx
      { map.slot idx with
        uid := inode.uid, gid := inode.gid,
        mode := inode.mode.getD 0, rdev := inode.rdev.getD 0 }).writeXattrs codec idx inode.xattrs
  | .vacant idx =>
    (map.writeXattrs codec idx inode.xattrs).setSlot idx
      { occupied := slotLive, dev := key.1, ino := key.2, uid := inode.uid, gid := inode.gid,
        mode := inode.mode.getD 0, rdev := inode.rdev.getD 0 }
  | .full => map

/-- Tombstone the entry of a key. Returns whether one was found. -/
def removeInode [NeZero n] (codec : XattrCodec) (map : ShmInodeMap n) (key : InodeKey) :
    Bool × ShmInodeMap n :=
  match map.probe key with
  | .found idx =>
    let cleared := map.writeXattrs codec idx ∅
    (true, cleared.setSlot idx { cleared.slot idx with occupied := slotTombstone })
  | _ => (false, map)

end ShmInodeMap

/-! ## Creation -/

/-- `u32::next_power_of_two` without overflow checks: a power that does not fit wraps
to zero. -/
def nextPowerOfTwo (v : UInt32) : ℕ :=
  v.toNat.nextPowerOfTwo % 2 ^ 32

/-- The slot count of a table created for `requested` entries. -/
def tableSlotCount (requested : UInt32) : ℕ :=
  max (nextPowerOfTwo requested) 1024

instance (requested : UInt32) : NeZero (tableSlotCount requested) :=
  ⟨by unfold tableSlotCount; omega⟩

/-- Which of the system calls of `create` succeed. -/
structure ShmOs where
  createAnonShmFd : Bool
  ftruncate : Bool
  mmap : Bool

inductive CreateError where
  | invalidInput (text : String)
  | lastOsError
  deriving DecidableEq

/-- The result of `create`; arithmetic overflow panics when overflow checks are on. -/
inductive CreateOutcome (n : ℕ) where
  | panicked
  | err (error : CreateError)
  | ok (map : ShmInodeMap n)

/-- `usize` products and sums that fit a 64-bit host. -/
def checkedUsize (v : ℕ) : Option ℕ :=
  if v < 2 ^ 64 then some v else none

/-- The object as `init_header` leaves it: every slot empty, every byte of the fresh
pages zero. -/
def ShmInodeMap.initHeader (n len : ℕ) (uid gid : UInt32) : ShmInodeMap n where
  len := len
  header := ⟨shmMagic, shmVersion, UInt32.ofNat n, uid, gid⟩
  slot := fun _ => ⟨slotEmpty, 0, 0, 0, 0, 0, 0⟩
  xattrPage := fun _ => XattrPage.zeroed

/-- Create a new shared map. -/
def ShmInodeMap.create (overflowChecks : Bool) (os : ShmOs) (slotCount uid gid : UInt32) :
    CreateOutcome (tableSlotCount slotCount) :=
  if overflowChecks ∧ 2 ^ 32 ≤ slotCount.toNat.nextPowerOfTwo then .panicked
  else
    let n := tableSlotCount slotCount
    match checkedUsize (slotSize * n) with
    | none => .err (.invalidInput "slot table too large")
    | some slotsSize =>
      match checkedUsize (xattrPageSize * n) with
      | none => .err (.invalidInput "xattr region too large")
      | some xattrRegionSize =>
        match (checkedUsize (headerSize + slotsSize)).bind
            (fun v => checkedUsize (v + xattrRegionSize)) with
        | none => .err (.invalidInput "shm map too large")
        | some len =>
          if !os.createAnonShmFd then .err .lastOsError
          else if !os.ftruncate then .err .lastOsError
          else if !os.mmap then .err .lastOsError
          else .ok (initHeader n len uid gid)

end Pseudoroot
