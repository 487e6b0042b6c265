import Pseudoroot.Model.ShmStores
import Pseudoroot.Verification.ShmMap.TwoSteps

/-! # Operations as single stores

The stores of an operation, one after the other, are the operation on the table. In the
bytes of the object each of them changes what is read at its own place only. -/

namespace Pseudoroot

namespace ShmInodeMap

variable {n : ℕ} (codec : XattrCodec)

/-! ## On the table -/

theorem setPage_setPage (map : ShmInodeMap n) (i : Fin n) (p q : XattrPage) :
    (map.setPage i p).setPage i q = map.setPage i q := by
  simp only [setPage, Function.update_idem]

theorem setSlot_setSlot (map : ShmInodeMap n) (i : Fin n) (s t : Slot) :
    (map.setSlot i s).setSlot i t = map.setSlot i t := by
  simp only [setSlot, Function.update_idem]

theorem foldl_writeXattrsStores (map : ShmInodeMap n) (i : Fin n) (xattrs : XattrMap) :
    (writeXattrsStores codec i xattrs).foldl ShmStore.apply map =
      map.writeXattrs codec i xattrs := by
  unfold writeXattrsStores writeXattrs
  dsimp only
  split
  · rfl
  · cases (codec.serialize xattrs).filter (fun bytes => bytes.length ≤ xattrPageSize - 4) with
    | none => rfl
    | some bytes =>
        simp only [List.foldl_cons, List.foldl_nil, ShmStore.apply, setPage_setPage,
          xattrPage_setPage_self]

theorem foldl_insertStores (map : ShmInodeMap n) (i : Fin n) (key : InodeKey)
    (uid gid mode : UInt32) (rdev : UInt64) (xattrs : XattrMap) :
    (insertStores codec i key uid gid mode rdev xattrs).foldl ShmStore.apply map =
      (map.writeXattrs codec i xattrs).setSlot i
        ⟨slotLive, key.1, key.2, uid, gid, mode, rdev⟩ := by
  rw [insertStores, List.foldl_append, foldl_writeXattrsStores]
  simp only [List.foldl_cons, List.foldl_nil, ShmStore.apply, setSlot_setSlot, slot_setSlot_self,
    Slot.set, UInt32.toUInt32_toUInt64]

/-- The stores of an operation after its probe. -/
def storesOf : StoreOp → Probe n → List (ShmStore n)
  | .getInode _, _ => []
  | .upsertChown key uid gid du dg, outcome => upsertChownStores codec key uid gid du dg outcome
  | .upsertInode key inode, outcome => upsertInodeStores codec key inode outcome
  | .removeInode _, outcome => removeInodeStores codec outcome

theorem foldl_storesOf (map : ShmInodeMap n) (op : StoreOp) (outcome : Probe n) :
    (storesOf codec op outcome).foldl ShmStore.apply map = map.write codec op outcome := by
  cases op with
  | getInode key => cases outcome <;> rfl
  | upsertChown key uid gid du dg =>
      cases outcome with
      | found i =>
          simp only [storesOf, upsertChownStores, write, List.foldl_append]
          have hsame : map.setSlot i (map.slot i) = map := by
            simp only [setSlot, Function.update_eq_self]
          by_cases huid : uid = idUnchanged <;> by_cases hgid : gid = idUnchanged <;>
            simp [huid, hgid, ShmStore.apply, setSlot_setSlot, Slot.set, hsame]
      | vacant i => exact foldl_insertStores codec map i key _ _ 0 0 ∅
      | full => rfl
  | upsertInode key inode =>
      cases outcome with
      | found i =>
          simp only [storesOf, upsertInodeStores, write, List.foldl_append, foldl_writeXattrsStores]
          simp only [List.foldl_cons, List.foldl_nil, ShmStore.apply, setSlot_setSlot,
            slot_setSlot_self, Slot.set, UInt32.toUInt32_toUInt64]
      | vacant i => exact foldl_insertStores codec map i key _ _ _ _ inode.xattrs
      | full => rfl
  | removeInode key =>
      cases outcome with
      | found i =>
          simp only [storesOf, removeInodeStores, write, List.foldl_append, foldl_writeXattrsStores]
          rfl
      | vacant i => rfl
      | full => rfl

end ShmInodeMap

/-! ## Words in bytes -/

theorem fieldAt_lt (object : List UInt8) (off width : ℕ) : fieldAt object off width < 256 ^ width := by
  refine (Bytes.ofLE_lt _).trans_le (Nat.pow_le_pow_right (by decide) ?_)
  rw [List.length_take]
  exact Nat.min_le_left _ _

section Store

variable {object : List UInt8} {off width : ℕ}

theorem fieldAt_store_self (h : off ≤ object.length) (value : ℕ) :
    fieldAt (Bytes.copyFromSlice object off (Bytes.toLE width value)) off width =
      value % 256 ^ width := by
  have hread := Bytes.take_drop_copyFromSlice object (Bytes.toLE width value) off h
  rw [Bytes.length_toLE] at hread
  rw [fieldAt, hread, Bytes.ofLE_toLE]

theorem fieldAt_store_of_disjoint {src : List UInt8} {at' : ℕ}
    (h : off + src.length ≤ object.length)
    (hdisjoint : at' + width ≤ off ∨ off + src.length ≤ at') :
    fieldAt (Bytes.copyFromSlice object off src) at' width = fieldAt object at' width := by
  rw [fieldAt, fieldAt, Bytes.take_drop_copyFromSlice_of_disjoint h hdisjoint]

end Store

namespace Header

/-- The value of a field as a number. -/
def word (header : Header) : HeaderWord → ℕ
  | .magic => header.magic.toNat
  | .version => header.version.toNat
  | .slotCount => header.slotCount.toNat
  | .currentUid => header.currentUid.toNat
  | .currentGid => header.currentGid.toNat

theorem eq_of_word_eq {header header' : Header} (h : ∀ w, header.word w = header'.word w) :
    header = header' := by
  obtain ⟨magic, version, slotCount, currentUid, currentGid⟩ := header
  obtain ⟨magic', version', slotCount', currentUid', currentGid'⟩ := header'
  have hmagic := h .magic
  have hversion := h .version
  have hcount := h .slotCount
  have huid := h .currentUid
  have hgid := h .currentGid
  simp only [word, UInt32.toNat_inj] at hmagic hversion hcount huid hgid
  simp only [hmagic, hversion, hcount, huid, hgid]

theorem word_ofObject (object : List UInt8) (w : HeaderWord) :
    (ofObject object).word w = fieldAt object w.offset 4 := by
  have hlt := fieldAt_lt object w.offset 4
  cases w <;> exact UInt32.toNat_ofNat_of_lt' hlt

theorem word_set (header : Header) (w w' : HeaderWord) (value : UInt32) :
    (header.set w value).word w' = if w' = w then value.toNat else header.word w' := by
  cases w <;> cases w' <;> rfl

end Header

theorem HeaderWord.disjoint {w w' : HeaderWord} (h : w' ≠ w) :
    w'.offset + 4 ≤ w.offset ∨ w.offset + 4 ≤ w'.offset := by
  cases w <;> cases w' <;> first | exact absurd rfl h | decide

theorem HeaderWord.offset_le (w : HeaderWord) : w.offset + 4 ≤ headerSize := by
  cases w <;> decide

namespace Slot

/-- The value of a field as a number. -/
def word (slot : Slot) : SlotWord → ℕ
  | .occupied => slot.occupied.toNat
  | .dev => slot.dev.toNat
  | .ino => slot.ino.toNat
  | .uid => slot.uid.toNat
  | .gid => slot.gid.toNat
  | .mode => slot.mode.toNat
  | .rdev => slot.rdev.toNat

theorem eq_of_word_eq {slot slot' : Slot} (h : ∀ w, slot.word w = slot'.word w) : slot = slot' := by
  obtain ⟨occupied, dev, ino, uid, gid, mode, rdev⟩ := slot
  obtain ⟨occupied', dev', ino', uid', gid', mode', rdev'⟩ := slot'
  have hoccupied := h .occupied
  have hdev := h .dev
  have hino := h .ino
  have huid := h .uid
  have hgid := h .gid
  have hmode := h .mode
  have hrdev := h .rdev
  simp only [word, UInt32.toNat_inj, UInt64.toNat_inj] at hoccupied hdev hino huid hgid hmode hrdev
  simp only [hoccupied, hdev, hino, huid, hgid, hmode, hrdev]

theorem word_ofObject (object : List UInt8) (off : ℕ) (w : SlotWord) :
    (ofObject object off).word w = fieldAt object (off + w.offset) w.width := by
  have hlt := fieldAt_lt object (off + w.offset) w.width
  cases w with
  | occupied | uid | gid | mode => exact UInt32.toNat_ofNat_of_lt' hlt
  | dev | ino | rdev => exact UInt64.toNat_ofNat_of_lt' hlt

theorem word_set (slot : Slot) (w w' : SlotWord) (value : UInt64) :
    (slot.set w value).word w' =
      if w' = w then value.toNat % 256 ^ w.width else slot.word w' := by
  have hvalue := value.toNat_lt
  cases w <;> cases w' <;>
    simp [set, word, SlotWord.width, Nat.mod_eq_of_lt hvalue]

end Slot

theorem SlotWord.disjoint {w w' : SlotWord} (h : w' ≠ w) :
    w'.offset + w'.width ≤ w.offset ∨ w.offset + w.width ≤ w'.offset := by
  cases w <;> cases w' <;> first | exact absurd rfl h | decide

theorem SlotWord.offset_le (w : SlotWord) : w.offset + w.width ≤ slotSize := by
  cases w <;> decide

end Pseudoroot
