import Pseudoroot.Verification.ShmMap.History

/-! # Operations in two steps

Every operation on the map probes for its key and then writes the slot that the probe
returned. -/

namespace Pseudoroot.ShmInodeMap

variable {n : ℕ} (codec : XattrCodec)

/-- What an operation does with the outcome of its probe. -/
def write (map : ShmInodeMap n) : StoreOp → Probe n → ShmInodeMap n
  | .upsertChown _ uid gid _ _, .found idx =>
    let slot := map.slot idx
    map.setSlot idx
      { slot with
        uid := if uid ≠ idUnchanged then uid else slot.uid
        gid := if gid ≠ idUnchanged then gid else slot.gid }
  | .upsertChown key uid gid defaultUid defaultGid, .vacant idx =>
    let newUid := if uid = idUnchanged then defaultUid else uid
    let newGid := if gid = idUnchanged then defaultGid else gid
    (map.writeXattrs codec idx ∅).setSlot idx
      { occupied := slotLive, dev := key.1, ino := key.2, uid := newUid, gid := newGid,
        mode := 0, rdev := 0 }
  | .upsertInode _ inode, .found idx =>
    (map.setSlot idx
      { map.slot idx with
        uid := inode.uid, gid := inode.gid,
        mode := inode.mode.getD 0, rdev := inode.rdev.getD 0 }).writeXattrs codec idx inode.xattrs
  | .upsertInode key inode, .vacant idx =>
    (map.writeXattrs codec idx inode.xattrs).setSlot idx
      { occupied := slotLive, dev := key.1, ino := key.2, uid := inode.uid, gid := inode.gid,
        mode := inode.mode.getD 0, rdev := inode.rdev.getD 0 }
  | .removeInode _, .found idx =>
    let cleared := map.writeXattrs codec idx ∅
    cleared.setSlot idx { cleared.slot idx with occupied := slotTombstone }
  | _, _ => map

/-- An operation that nobody interrupts is its probe and its write. -/
theorem call_snd_eq_write [NeZero n] (map : ShmInodeMap n) (op : StoreOp) :
    (map.call codec op).2 = map.write codec op (map.probe op.key) := by
  cases op with
  | getInode key => rfl
  | upsertChown key uid gid du dg =>
      cases hp : map.probe key <;> simp only [call, upsertChown, StoreOp.key, hp, write]
  | upsertInode key inode =>
      cases hp : map.probe key <;> simp only [call, upsertInode, StoreOp.key, hp, write]
  | removeInode key =>
      cases hp : map.probe key <;> simp only [call, removeInode, StoreOp.key, hp, write]

/-- The slot that an operation writes, and what it leaves there. -/
def writtenSlot (map : ShmInodeMap n) : StoreOp → Probe n → Option (Fin n × Slot)
  | .upsertChown _ uid gid _ _, .found idx =>
    some (idx,
      { map.slot idx with
        uid := if uid ≠ idUnchanged then uid else (map.slot idx).uid
        gid := if gid ≠ idUnchanged then gid else (map.slot idx).gid })
  | .upsertChown key uid gid du dg, .vacant idx =>
    some (idx, ⟨slotLive, key.1, key.2, if uid = idUnchanged then du else uid,
      if gid = idUnchanged then dg else gid, 0, 0⟩)
  | .upsertInode _ inode, .found idx =>
    some (idx,
      { map.slot idx with
        uid := inode.uid, gid := inode.gid,
        mode := inode.mode.getD 0, rdev := inode.rdev.getD 0 })
  | .upsertInode key inode, .vacant idx =>
    some (idx, ⟨slotLive, key.1, key.2, inode.uid, inode.gid, inode.mode.getD 0,
      inode.rdev.getD 0⟩)
  | .removeInode _, .found idx => some (idx, { map.slot idx with occupied := slotTombstone })
  | _, _ => none

theorem slot_write (map : ShmInodeMap n) (op : StoreOp) (outcome : Probe n) :
    (map.write codec op outcome).slot =
      (map.writtenSlot op outcome).elim map.slot fun p => Function.update map.slot p.1 p.2 := by
  cases op with
  | getInode key => cases outcome <;> rfl
  | upsertChown key uid gid du dg =>
      cases outcome <;> simp [write, writtenSlot, setSlot]
  | upsertInode key inode =>
      cases outcome <;> simp [write, writtenSlot, setSlot]
  | removeInode key =>
      cases outcome <;> simp [write, writtenSlot, setSlot]

end Pseudoroot.ShmInodeMap
