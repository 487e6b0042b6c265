import Pseudoroot.Model.ShmMap

/-! # Offsets inside the shared map

The accessors compute with machine words: counts and indices are `u32`, offsets are
`usize` on a 64-bit host. -/

namespace Pseudoroot

/-- `align_of::<Slot>()`. -/
def slotAlign : ℕ := 8

namespace ShmWords

/-- The offset of `slot`. -/
def slotOffset (index : UInt32) : UInt64 :=
  UInt64.ofNat headerSize + UInt64.ofNat slotSize * index.toUInt64

/-- Offset of the xattr page region, right after the slot table. -/
def xattrRegionOffset (slotCount : UInt32) : UInt64 :=
  UInt64.ofNat headerSize + UInt64.ofNat slotSize * slotCount.toUInt64

/-- The offset of `xattr_page`. -/
def xattrPageOffset (slotCount index : UInt32) : UInt64 :=
  xattrRegionOffset slotCount + UInt64.ofNat xattrPageSize * index.toUInt64

def hash (slotCount : UInt32) (dev ino : UInt64) : UInt32 :=
  let mixed := dev ^^^ ino * 0x9E3779B97F4A7C15
  (mixed % slotCount.toUInt64).toUInt32

/-- The step of `probe`, `(idx + 1) % self.slot_count`. -/
def next (slotCount idx : UInt32) : UInt32 :=
  (idx + 1) % slotCount

end ShmWords

end Pseudoroot
