import Pseudoroot.Model.ShmObject

/-! # Single stores into the shared object

The operations on the table store one word of the header or of a slot at a time, and copy
bytes into pages. -/

namespace Pseudoroot

/-- The fields of `Header`. -/
inductive HeaderWord where
  | magic
  | version
  | slotCount
  | currentUid
  | currentGid
  deriving DecidableEq

/-- The fields of `Slot`. -/
inductive SlotWord where
  | occupied
  | dev
  | ino
  | uid
  | gid
  | mode
  | rdev
  deriving DecidableEq

namespace HeaderWord

def offset : HeaderWord → ℕ
  | magic => 0
  | version => 4
  | slotCount => 8
  | currentUid => 12
  | currentGid => 16

end HeaderWord

def Header.set (header : Header) (word : HeaderWord) (value : UInt32) : Header :=
  match word with
  | .magic => { header with magic := value }
  | .version => { header with version := value }
  | .slotCount => { header with slotCount := value }
  | .currentUid => { header with currentUid := value }
  | .currentGid => { header with currentGid := value }

namespace SlotWord

def offset : SlotWord → ℕ
  | occupied => 0
  | dev => 8
  | ino => 16
  | uid => 24
  | gid => 28
  | mode => 32
  | rdev => 40

def width : SlotWord → ℕ
  | occupied | uid | gid | mode => 4
  | dev | ino | rdev => 8

end SlotWord

/-- Assign one field. The fields of 32 bits take the low half of the value. -/
def Slot.set (slot : Slot) (word : SlotWord) (value : UInt64) : Slot :=
  match word with
  | .occupied => { slot with occupied := value.toUInt32 }
  | .dev => { slot with dev := value }
  | .ino => { slot with ino := value }
  | .uid => { slot with uid := value.toUInt32 }
  | .gid => { slot with gid := value.toUInt32 }
  | .mode => { slot with mode := value.toUInt32 }
  | .rdev => { slot with rdev := value }

inductive ShmStore (n : ℕ) where
  | header (word : HeaderWord) (value : UInt32)
  | slot (index : Fin n) (word : SlotWord) (value : UInt64)
  /-- `page[off..off + src.len()].copy_from_slice(src)`. -/
  | page (index : Fin n) (off : ℕ) (src : List UInt8)

namespace ShmStore

variable {n : ℕ}

/-- The store as seen through the table. -/
def apply (map : ShmInodeMap n) : ShmStore n → ShmInodeMap n
  | header word value => { map with header := map.header.set word value }
  | slot index word value => map.setSlot index ((map.slot index).set word value)
  | page index off src => map.setPage index ((map.xattrPage index).copyFromSlice off src)

/-- Where the store begins in the object. -/
def offset : ShmStore n → ℕ
  | header word _ => word.offset
  | slot index word _ => headerSize + slotSize * index + word.offset
  | page index off _ => xattrRegionOffset n + xattrPageSize * index + off

def bytes : ShmStore n → List UInt8
  | header _ value => Bytes.toLE 4 value.toNat
  | slot _ word value => Bytes.toLE word.width value.toNat
  | page _ _ src => src

/-- The store as seen in the bytes of the object. -/
def store (object : List UInt8) (s : ShmStore n) : List UInt8 :=
  Bytes.copyFromSlice object s.offset s.bytes

end ShmStore

/-! ## The stores of each function -/

section Stores

variable {n : ℕ}

/-- `init_header`. -/
def initHeaderStores (n : ℕ) (uid gid : UInt32) : List (ShmStore n) :=
  [.header .magic shmMagic, .header .version shmVersion, .header .slotCount (UInt32.ofNat n),
      .header .currentUid uid, .header .currentGid gid] ++
    (List.finRange n).map fun i => .slot i .occupied slotEmpty.toUInt64

/-- The object of `create`: zero bytes from `ftruncate`, then the stores of `init_header`. -/
def ShmInodeMap.createdObject (n len : ℕ) (uid gid : UInt32) : List UInt8 :=
  (initHeaderStores n uid gid).foldl ShmStore.store (List.replicate len 0)

/-- `set_current`. -/
def shmSetCurrentStores (uid gid : UInt32) : List (ShmStore n) :=
  [.header .currentUid uid, .header .currentGid gid]

/-- `write_xattrs`. -/
def writeXattrsStores (codec : XattrCodec) (index : Fin n) (xattrs : XattrMap) :
    List (ShmStore n) :=
  if xattrs.isEmpty then [.page index 0 (Bytes.toLE 4 0)]
  else
    match (codec.serialize xattrs).filter (fun bytes => bytes.length ≤ xattrPageSize - 4) with
    | some bytes => [.page index 0 (Bytes.toLE 4 bytes.length), .page index 4 bytes]
    | none => [.page index 0 (Bytes.toLE 4 0)]

/-- A new entry: the attributes, the fields, and `occupied` last. -/
def insertStores (codec : XattrCodec) (index : Fin n) (key : InodeKey) (uid gid mode : UInt32)
    (rdev : UInt64) (xattrs : XattrMap) : List (ShmStore n) :=
  writeXattrsStores codec index xattrs ++
    [.slot index .dev key.1, .slot index .ino key.2, .slot index .uid uid.toUInt64,
      .slot index .gid gid.toUInt64, .slot index .mode mode.toUInt64, .slot index .rdev rdev,
      .slot index .occupied slotLive.toUInt64]

/-- `upsert_chown` after its probe. -/
def upsertChownStores (codec : XattrCodec) (key : InodeKey)
    (uid gid defaultUid defaultGid : UInt32) : Probe n → List (ShmStore n)
  | .found idx =>
    (if uid ≠ idUnchanged then [.slot idx .uid uid.toUInt64] else []) ++
      if gid ≠ idUnchanged then [.slot idx .gid gid.toUInt64] else []
  | .vacant idx =>
    let newUid := if uid = idUnchanged then defaultUid else uid
    let newGid := if gid = idUnchanged then defaultGid else gid
    insertStores codec idx key newUid newGid 0 0 ∅
  | .full => []

/-- `upsert_inode` after its probe. -/
def upsertInodeStores (codec : XattrCodec) (key : InodeKey) (inode : FakeInode) :
    Probe n → List (ShmStore n)
  | .found idx =>
    [.slot idx .uid inode.uid.toUInt64, .slot idx .gid inode.gid.toUInt64,
        .slot idx .mode (inode.mode.getD 0).toUInt64, .slot idx .rdev (inode.rdev.getD 0)] ++
      writeXattrsStores codec idx inode.xattrs
  | .vacant idx =>
    insertStores codec idx key inode.uid inode.gid (inode.mode.getD 0) (inode.rdev.getD 0)
      inode.xattrs
  | .full => []

/-- `remove_inode` after its probe. -/
def removeInodeStores (codec : XattrCodec) : Probe n → List (ShmStore n)
  | .found idx =>
    writeXattrsStores codec idx ∅ ++ [.slot idx .occupied slotTombstone.toUInt64]
  | _ => []

end Stores

end Pseudoroot
