import Mathlib.Data.Fintype.Card
import Pseudoroot.Model.ShmObject
import Pseudoroot.Verification.ShmMap.RawCells
import Pseudoroot.Verification.ShmMap.TwoSteps

/-! # What an inherited map touches

Nothing is known of the slots of an inherited object: the operations are followed on
arbitrary contents. -/

namespace Pseudoroot

namespace ShmInodeMap

variable {n : ℕ} [NeZero n] {map : ShmInodeMap n}

/-! ## Keys for a bucket -/

/-- Every bucket has a key with any given inode number. -/
theorem exists_dev_hash_eq (hn : n ≤ 2 ^ 64) (i : Fin n) (ino : UInt64) :
    ∃ dev, hash (n := n) (dev, ino) = i := by
  refine ⟨UInt64.ofNat i ^^^ ino * 0x9E3779B97F4A7C15, ?_⟩
  have hi : (UInt64.ofNat i).toNat = i := UInt64.toNat_ofNat_of_lt' (i.isLt.trans_le hn)
  apply Fin.ext
  simp only [hash, UInt64.xor_assoc, UInt64.xor_self, UInt64.xor_zero, hi]
  exact Nat.mod_eq_of_lt i.isLt

/-- There are more keys for a bucket than slots. -/
theorem exists_fresh_key (hn : n < 2 ^ 64) (map : ShmInodeMap n) (i : Fin n) :
    ∃ key, hash key = i ∧ ∀ j, ¬ (map.slot j).LiveFor key := by
  have hcard : (Finset.univ.image fun j => (map.slot j).ino.toNat).card <
      (Finset.range (n + 1)).card := by
    rw [Finset.card_range]
    exact Nat.lt_succ_of_le (Finset.card_image_le.trans (Finset.card_fin n).le)
  obtain ⟨m, hm, hnot⟩ := Finset.exists_mem_notMem_of_card_lt_card hcard
  have hlt : m < 2 ^ 64 := (Nat.lt_succ_iff.mp (Finset.mem_range.mp hm)).trans_lt hn
  obtain ⟨dev, hdev⟩ := exists_dev_hash_eq hn.le i (UInt64.ofNat m)
  refine ⟨(dev, UInt64.ofNat m), hdev, fun j hj => hnot ?_⟩
  have hino : (map.slot j).ino = UInt64.ofNat m := hj.2.2
  rw [Finset.mem_image]
  exact ⟨j, Finset.mem_univ j, by rw [hino, UInt64.toNat_ofNat_of_lt' hlt]⟩

/-! ## Pages that come into use -/

/-- The page of this slot is read or written by some sequence of operations. -/
def Touchable (map : ShmInodeMap n) (i : Fin n) : Prop :=
  (map.slot i).occupied = slotEmpty ∨ (map.slot i).occupied = slotLive ∨
    (map.slot i).occupied = slotTombstone ∧ ∃ j, (map.slot j).occupied = slotEmpty

/-- The slot whose page an operation reads or writes. -/
def touchedPage (map : ShmInodeMap n) : StoreOp → Option (Fin n)
  | .getInode key | .removeInode key =>
    match map.probe key with
    | .found i => some i
    | _ => none
  | .upsertChown key _ _ _ _ =>
    match map.probe key with
    | .vacant i => some i
    | _ => none
  | .upsertInode key _ =>
    match map.probe key with
    | .found i => some i
    | .vacant i => some i
    | .full => none

theorem touchable_of_probe_eq_found {key : InodeKey} {i : Fin n} (h : map.probe key = .found i) :
    map.Touchable i :=
  .inr (.inl (live_of_probe_eq_found h).1)

theorem touchable_of_probe_eq_vacant {key : InodeKey} {i : Fin n}
    (h : map.probe key = .vacant i) : map.Touchable i := by
  obtain ⟨hempty | htomb, hroom⟩ := free_of_probe_eq_vacant h
  · exact .inl hempty
  · exact .inr (.inr ⟨htomb, hroom⟩)

theorem touchable_of_touchedPage {op : StoreOp} {i : Fin n} (h : map.touchedPage op = some i) :
    map.Touchable i := by
  cases op with
  | getInode key =>
      cases hp : map.probe key <;> simp only [touchedPage, hp] at h <;> cases h
      exact touchable_of_probe_eq_found hp
  | removeInode key =>
      cases hp : map.probe key <;> simp only [touchedPage, hp] at h <;> cases h
      exact touchable_of_probe_eq_found hp
  | upsertChown key uid gid du dg =>
      cases hp : map.probe key <;> simp only [touchedPage, hp] at h <;> cases h
      exact touchable_of_probe_eq_vacant hp
  | upsertInode key inode =>
      cases hp : map.probe key <;> simp only [touchedPage, hp] at h <;> cases h
      · exact touchable_of_probe_eq_found hp
      · exact touchable_of_probe_eq_vacant hp

variable (codec : XattrCodec)

theorem slot_call (map : ShmInodeMap n) (op : StoreOp) :
    (map.call codec op).2.slot = (map.writtenSlot op (map.probe op.key)).elim map.slot
      fun p => Function.update map.slot p.1 p.2 := by
  rw [call_snd_eq_write, slot_write]

/-- An operation writes at most one slot, one whose page may be touched, and leaves it live or
a tombstone. -/
theorem touchable_of_writtenSlot {op : StoreOp} {i : Fin n} {s : Slot}
    (h : map.writtenSlot op (map.probe op.key) = some (i, s)) :
    map.Touchable i ∧ (s.occupied = slotLive ∨ s.occupied = slotTombstone) := by
  cases op with
  | getInode key => cases hp : map.probe key <;> simp only [StoreOp.key, hp] at h <;> cases h
  | upsertChown key uid gid du dg =>
      cases hp : map.probe key <;> simp only [StoreOp.key, hp] at h <;> cases h
      · exact ⟨touchable_of_probe_eq_found hp, .inl (live_of_probe_eq_found hp).1⟩
      · exact ⟨touchable_of_probe_eq_vacant hp, .inl rfl⟩
  | upsertInode key inode =>
      cases hp : map.probe key <;> simp only [StoreOp.key, hp] at h <;> cases h
      · exact ⟨touchable_of_probe_eq_found hp, .inl (live_of_probe_eq_found hp).1⟩
      · exact ⟨touchable_of_probe_eq_vacant hp, .inl rfl⟩
  | removeInode key =>
      cases hp : map.probe key <;> simp only [StoreOp.key, hp] at h <;> cases h
      exact ⟨touchable_of_probe_eq_found hp, .inr rfl⟩

/-- No operation brings another page into use. -/
theorem Touchable.of_call {op : StoreOp} {i : Fin n}
    (h : (map.call codec op).2.Touchable i) : map.Touchable i := by
  have hslot := slot_call codec map op
  cases hwritten : map.writtenSlot op (map.probe op.key) with
  | none =>
      rw [hwritten, Option.elim_none] at hslot
      simpa only [Touchable, hslot] using h
  | some p =>
      obtain ⟨k, s⟩ := p
      obtain ⟨hk, hs⟩ := touchable_of_writtenSlot hwritten
      rw [hwritten, Option.elim_some] at hslot
      by_cases hik : i = k
      · subst hik
        exact hk
      simp only [Touchable, hslot, Function.update_of_ne hik] at h
      refine h.imp_right (Or.imp_right (And.imp_right ?_))
      rintro ⟨j, hj⟩
      by_cases hjk : j = k
      · subst hjk
        rw [Function.update_self] at hj
        rcases hs with hs | hs <;> rw [hs] at hj <;> cases hj
      · rw [Function.update_of_ne hjk] at hj
        exact ⟨j, hj⟩

omit [NeZero n] in
@[simp] theorem len_writeXattrs (map : ShmInodeMap n) (i : Fin n) (xattrs : XattrMap) :
    (map.writeXattrs codec i xattrs).len = map.len := by
  obtain ⟨page, h⟩ := writeXattrs_eq_setPage codec map i xattrs
  rw [h]
  rfl

theorem len_call (map : ShmInodeMap n) (op : StoreOp) : (map.call codec op).2.len = map.len := by
  cases op with
  | getInode key => rfl
  | upsertChown key uid gid du dg =>
      cases hp : map.probe key <;> simp [call, upsertChown, hp, setSlot]
  | upsertInode key inode =>
      cases hp : map.probe key <;> simp [call, upsertInode, hp, setSlot]
  | removeInode key =>
      cases hp : map.probe key <;> simp [call, removeInode, hp, setSlot]

end ShmInodeMap

namespace InheritedMap

variable {n : ℕ}

/-! ## Operations that stay inside -/

def SlotsFit (map : InheritedMap n) : Prop :=
  xattrRegionOffset n ≤ map.size ∧ xattrRegionOffset n ≤ map.table.len

def PageFits (map : InheritedMap n) (i : Fin n) : Prop :=
  xattrRegionOffset n + xattrPageSize * (i + 1) ≤ map.size ∧
    xattrRegionOffset n + xattrPageSize * (i + 1) ≤ map.table.len

variable {map : InheritedMap n}

theorem SlotsFit.slot_eq (h : map.SlotsFit) (i : Fin n) : map.slot i = .ok (map.table.slot i) := by
  have hi : slotSize * i + slotSize ≤ slotSize * n := by
    rw [← Nat.mul_succ]
    exact Nat.mul_le_mul_left _ i.isLt
  obtain ⟨hsize, hlen⟩ := h
  simp only [xattrRegionOffset] at hsize hlen
  have hin : headerSize + slotSize * i + slotSize ≤ map.size ∧
      headerSize + slotSize * i + slotSize ≤ map.table.len := by omega
  simp only [slot, access, if_pos hin]
  rfl

theorem xattrPage_of_pageFits {i : Fin n} (h : map.PageFits i) :
    map.xattrPage i = .ok (map.table.xattrPage i) := by
  simp only [PageFits, Nat.mul_succ, ← Nat.add_assoc] at h
  simp only [xattrPage, access, if_pos h]
  rfl

theorem xattrPage_of_not_pageFits {i : Fin n} (h : ¬ map.PageFits i) :
    map.xattrPage i = .error .outside := by
  simp only [PageFits, Nat.mul_succ, ← Nat.add_assoc] at h
  simp only [xattrPage, access, if_neg h]
  rfl

theorem ok_bind {α β : Type} (a : α) (f : α → Except Fault β) :
    (Except.ok a >>= f) = f a := rfl

theorem error_bind {α β : Type} (fault : Fault) (f : α → Except Fault β) :
    (Except.error fault >>= f) = .error fault := rfl

theorem SlotsFit.probeLoop_eq (h : map.SlotsFit) (key : InodeKey) (fuel : ℕ) (idx : Fin n)
    (reuse : Option (Fin n)) :
    map.probeLoop key fuel idx reuse = .ok (map.table.probeLoop key fuel idx reuse) := by
  induction fuel generalizing idx reuse with
  | zero => rfl
  | succ fuel ih =>
      simp only [probeLoop, ShmInodeMap.probeLoop, h.slot_eq, ih, ok_bind]
      split_ifs <;> rfl

/-- One call: its result and the map it leaves. -/
def call (codec : XattrCodec) (map : InheritedMap n) :
    StoreOp → Except Fault (StoreReply × InheritedMap n)
  | .getInode key => do
    let inode ← map.getInode codec key
    return (.inode inode, map)
  | .upsertChown key uid gid du dg => do
    let map' ← map.upsertChown codec key uid gid du dg
    return (.unit, map')
  | .upsertInode key inode => do
    let map' ← map.upsertInode codec key inode
    return (.unit, map')
  | .removeInode key => do
    let (present, map') ← map.removeInode codec key
    return (.removed present, map')

/-- The map after a sequence of calls, if no access was a fault. -/
def after (codec : XattrCodec) (map : InheritedMap n) : List StoreOp → Except Fault (InheritedMap n)
  | [] => return map
  | op :: ops => do
    let (_, map') ← map.call codec op
    map'.after codec ops

section Calls

variable [NeZero n] (codec : XattrCodec)

theorem hash_eq (key : InodeKey) : hash (n := n) key = .ok (ShmInodeMap.hash key) :=
  dif_pos (Nat.pos_of_neZero n)

theorem SlotsFit.probe_eq (h : map.SlotsFit) (key : InodeKey) :
    map.probe key = .ok (map.table.probe key) := by
  simp only [probe, hash_eq, ok_bind, h.probeLoop_eq]
  rfl

omit [NeZero n] in
theorem SlotsFit.of_len_eq (h : map.SlotsFit) {table : ShmInodeMap n}
    (hlen : table.len = map.table.len) : SlotsFit { map with table := table } := by
  simpa only [SlotsFit, hlen] using h

omit [NeZero n] in
theorem writeXattrs_of_pageFits {i : Fin n} (hi : map.PageFits i) (xattrs : XattrMap) :
    map.writeXattrs codec i xattrs =
      .ok { map with table := map.table.writeXattrs codec i xattrs } := by
  simp only [writeXattrs, xattrPage_of_pageFits hi, ok_bind]
  rfl

omit [NeZero n] in
theorem readXattrs_of_pageFits {i : Fin n} (hi : map.PageFits i) :
    map.readXattrs codec i = .ok (map.table.readXattrs codec i) := by
  simp only [readXattrs, xattrPage_of_pageFits hi, ok_bind, ShmInodeMap.readXattrs]
  split_ifs <;> rfl

omit [NeZero n] in
theorem xattrPage_error {i : Fin n} (hi : ¬ map.PageFits i) (xattrs : XattrMap) :
    map.readXattrs codec i = .error .outside ∧
      map.writeXattrs codec i xattrs = .error .outside := by
  simp only [readXattrs, writeXattrs, xattrPage_of_not_pageFits hi, error_bind, and_self]

/-- A call that stays inside is the call on the table. -/
theorem SlotsFit.call_eq (h : map.SlotsFit) (op : StoreOp)
    (hpage : ∀ i, map.table.touchedPage op = some i → map.PageFits i) :
    map.call codec op = .ok ((map.table.call codec op).1,
      { map with table := (map.table.call codec op).2 }) := by
  have hprobe := h.probe_eq
  have hwritten : ∀ i xattrs,
      SlotsFit { map with table := map.table.writeXattrs codec i xattrs } := fun i xattrs =>
    h.of_len_eq (map.table.len_writeXattrs codec i xattrs)
  cases op with
  | getInode key =>
      cases hp : map.table.probe key with
      | found i =>
          have hi := hpage i (by simp [ShmInodeMap.touchedPage, hp])
          simp only [call, getInode, hprobe, hp, ok_bind, h.slot_eq,
            readXattrs_of_pageFits codec hi, ShmInodeMap.call, ShmInodeMap.getInode]
          rfl
      | vacant i =>
          simp only [call, getInode, hprobe, hp, ok_bind, ShmInodeMap.call, ShmInodeMap.getInode]
          rfl
      | full =>
          simp only [call, getInode, hprobe, hp, ok_bind, ShmInodeMap.call, ShmInodeMap.getInode]
          rfl
  | upsertChown key uid gid du dg =>
      cases hp : map.table.probe key with
      | found i =>
          simp only [call, upsertChown, hprobe, hp, ok_bind, h.slot_eq, ShmInodeMap.call,
            ShmInodeMap.upsertChown]
          rfl
      | vacant i =>
          have hi := hpage i (by simp [ShmInodeMap.touchedPage, hp])
          simp only [call, upsertChown, hprobe, hp, ok_bind, writeXattrs_of_pageFits codec hi,
            (hwritten i ∅).slot_eq, ShmInodeMap.call, ShmInodeMap.upsertChown]
          rfl
      | full =>
          simp only [call, upsertChown, hprobe, hp, ok_bind, ShmInodeMap.call,
            ShmInodeMap.upsertChown]
          rfl
  | upsertInode key inode =>
      cases hp : map.table.probe key with
      | found i =>
          have hi : ∀ s, (map.setSlot i s).PageFits i := fun _ =>
            hpage i (by simp [ShmInodeMap.touchedPage, hp])
          simp only [call, upsertInode, hprobe, hp, ok_bind, h.slot_eq,
            writeXattrs_of_pageFits codec (hi _), ShmInodeMap.call, ShmInodeMap.upsertInode]
          rfl
      | vacant i =>
          have hi := hpage i (by simp [ShmInodeMap.touchedPage, hp])
          simp only [call, upsertInode, hprobe, hp, ok_bind, writeXattrs_of_pageFits codec hi,
            (hwritten i inode.xattrs).slot_eq, ShmInodeMap.call, ShmInodeMap.upsertInode]
          rfl
      | full =>
          simp only [call, upsertInode, hprobe, hp, ok_bind, ShmInodeMap.call,
            ShmInodeMap.upsertInode]
          rfl
  | removeInode key =>
      cases hp : map.table.probe key with
      | found i =>
          have hi := hpage i (by simp [ShmInodeMap.touchedPage, hp])
          simp only [call, removeInode, hprobe, hp, ok_bind, writeXattrs_of_pageFits codec hi,
            (hwritten i ∅).slot_eq, ShmInodeMap.call, ShmInodeMap.removeInode]
          rfl
      | vacant i =>
          simp only [call, removeInode, hprobe, hp, ok_bind, ShmInodeMap.call,
            ShmInodeMap.removeInode]
          rfl
      | full =>
          simp only [call, removeInode, hprobe, hp, ok_bind, ShmInodeMap.call,
            ShmInodeMap.removeInode]
          rfl

/-- A call whose page is not inside is a fault. -/
theorem SlotsFit.call_eq_outside (h : map.SlotsFit) {op : StoreOp} {i : Fin n}
    (htouch : map.table.touchedPage op = some i) (hi : ¬ map.PageFits i) :
    map.call codec op = .error .outside := by
  have hprobe := h.probe_eq
  cases op with
  | getInode key =>
      cases hp : map.table.probe key <;> simp only [ShmInodeMap.touchedPage, hp] at htouch <;>
        cases htouch
      simp only [call, getInode, hprobe, hp, ok_bind, error_bind, h.slot_eq,
        (xattrPage_error codec hi ∅).1]
  | upsertChown key uid gid du dg =>
      cases hp : map.table.probe key <;> simp only [ShmInodeMap.touchedPage, hp] at htouch <;>
        cases htouch
      simp only [call, upsertChown, hprobe, hp, ok_bind, error_bind, (xattrPage_error codec hi ∅).2]
  | upsertInode key inode =>
      cases hp : map.table.probe key <;> simp only [ShmInodeMap.touchedPage, hp] at htouch <;>
        cases htouch
      · have hset : ∀ s, ¬ (map.setSlot i s).PageFits i := fun _ => hi
        simp only [call, upsertInode, hprobe, hp, ok_bind, error_bind, h.slot_eq,
          (xattrPage_error codec (hset _) inode.xattrs).2]
      · simp only [call, upsertInode, hprobe, hp, ok_bind, error_bind,
          (xattrPage_error codec hi inode.xattrs).2]
  | removeInode key =>
      cases hp : map.table.probe key <;> simp only [ShmInodeMap.touchedPage, hp] at htouch <;>
        cases htouch
      simp only [call, removeInode, hprobe, hp, ok_bind, error_bind, (xattrPage_error codec hi ∅).2]

end Calls

end InheritedMap

end Pseudoroot
