import Pseudoroot.Verification.ShmMap.RawCells
import Pseudoroot.Verification.ShmMap.Tombstones

/-! # The invariant of the slot table -/

namespace Pseudoroot.ShmInodeMap

variable {n : ℕ} [NeZero n] {codec : XattrCodec} {map : ShmInodeMap n}

/-! ## Pages of slots that are not live -/

/-- Every slot that is not live has a page that reads as holding no attributes. -/
def ClearedPages (map : ShmInodeMap n) : Prop :=
  ∀ i, (map.slot i).occupied ≠ slotLive → (map.xattrPage i).lengthPrefix = 0

omit [NeZero n] in
theorem ClearedPages.of_eq_off {map' : ShmInodeMap n} (h : map.ClearedPages) (i : Fin n)
    (hslot : ∀ j, j ≠ i → map'.slot j = map.slot j)
    (hpage : ∀ j, j ≠ i → map'.xattrPage j = map.xattrPage j)
    (hi : (map'.slot i).occupied ≠ slotLive → (map'.xattrPage i).lengthPrefix = 0) :
    map'.ClearedPages := by
  intro j hj
  by_cases hji : j = i
  · subst hji
    exact hi hj
  · rw [hslot j hji] at hj
    rw [hpage j hji]
    exact h j hj

omit [NeZero n] in
theorem ClearedPages.setSlot_writeXattrs (h : map.ClearedPages) {i : Fin n} {s : Slot}
    {xattrs : XattrMap} (hi : s.occupied ≠ slotLive →
      ((map.writeXattrs codec i xattrs).xattrPage i).lengthPrefix = 0) :
    ((map.writeXattrs codec i xattrs).setSlot i s).ClearedPages :=
  h.of_eq_off i (fun j hj => by rw [slot_setSlot_of_ne _ hj, slot_writeXattrs])
    (fun j hj => by rw [xattrPage_setSlot, xattrPage_writeXattrs_of_ne codec map hj])
    (fun hs => by
      rw [xattrPage_setSlot]
      exact hi (by simpa using hs))

theorem ClearedPages.upsertChown (h : map.ClearedPages) (key : InodeKey)
    (uid gid du dg : UInt32) : (map.upsertChown codec key uid gid du dg).ClearedPages := by
  cases hp : map.probe key with
  | found i =>
      have hlive := (live_of_probe_eq_found hp).1
      simp only [ShmInodeMap.upsertChown, hp]
      exact h.of_eq_off i (fun j hj => slot_setSlot_of_ne map hj _) (fun j hj => rfl)
        (fun hi => absurd (by simpa using hlive) hi)
  | vacant i =>
      simp only [ShmInodeMap.upsertChown, hp]
      exact h.setSlot_writeXattrs fun hs => absurd rfl hs
  | full => simpa only [ShmInodeMap.upsertChown, hp] using h

theorem ClearedPages.upsertInode (h : map.ClearedPages) (key : InodeKey) (inode : FakeInode) :
    (map.upsertInode codec key inode).ClearedPages := by
  cases hp : map.probe key with
  | found i =>
      have hlive := (live_of_probe_eq_found hp).1
      simp only [ShmInodeMap.upsertInode, hp]
      exact h.of_eq_off i (fun j hj => by rw [slot_writeXattrs, slot_setSlot_of_ne _ hj])
        (fun j hj => by rw [xattrPage_writeXattrs_of_ne codec _ hj, xattrPage_setSlot])
        (fun hi => absurd (by simpa using hlive) hi)
  | vacant i =>
      simp only [ShmInodeMap.upsertInode, hp]
      exact h.setSlot_writeXattrs fun hs => absurd rfl hs
  | full => simpa only [ShmInodeMap.upsertInode, hp] using h

/-- A removal clears the page before it buries the slot. -/
theorem ClearedPages.removeInode (h : map.ClearedPages) (key : InodeKey) :
    (map.removeInode codec key).2.ClearedPages := by
  cases hp : map.probe key with
  | found i =>
      simp only [ShmInodeMap.removeInode, hp]
      exact h.setSlot_writeXattrs fun _ => lengthPrefix_writeXattrs_empty codec map i
  | vacant i => simpa only [ShmInodeMap.removeInode, hp] using h
  | full => simpa only [ShmInodeMap.removeInode, hp] using h

theorem ClearedPages.call (h : map.ClearedPages) (op : StoreOp) :
    (map.call codec op).2.ClearedPages := by
  cases op with
  | getInode key => exact h
  | upsertChown key uid gid du dg => exact h.upsertChown key uid gid du dg
  | upsertInode key inode => exact h.upsertInode key inode
  | removeInode key => exact h.removeInode key

omit [NeZero n] in
theorem clearedPages_initHeader (n len : ℕ) (uid gid : UInt32) :
    (initHeader n len uid gid).ClearedPages := by
  intro i _
  have hprefix : (List.replicate xattrPageSize (0 : UInt8)).take 4 = List.replicate 4 0 :=
    List.take_replicate
  rw [XattrPage.lengthPrefix]
  exact (congrArg Bytes.ofLE hprefix).trans rfl

/-! ## The invariant -/

/-- What holds of the slots and pages between any two operations. -/
structure SlotInvariant (map : ShmInodeMap n) : Prop where
  unique : ∀ {i j key}, (map.slot i).LiveFor key → (map.slot j).LiveFor key → i = j
  reachable : ∀ {i key}, (map.slot i).LiveFor key →
    ∀ e < LinearProbing.distance (hash key) i,
      (map.slot (LinearProbing.advance (hash key) e)).occupied ≠ slotEmpty
  cleared : map.ClearedPages

theorem Valid.slotInvariant (h : map.Valid codec) (hcleared : map.ClearedPages) :
    map.SlotInvariant := by
  have hlive : ∀ {i key}, (map.slot i).LiveFor key →
      map.cells codec i = .live key (map.inodeAt codec i) :=
    fun hi => cells_eq_live_iff.mpr ⟨hi.1, hi.2.1, hi.2.2, rfl⟩
  refine ⟨fun hi hj => h.wellFormed.unique (hlive hi) (hlive hj), fun hi e he hempty => ?_,
    hcleared⟩
  exact h.wellFormed.reachable (hlive hi) e he (cells_eq_empty_iff.mpr hempty)

/-- What the answers of a probe say about the slots. -/
structure ProbesBySlots (map : ShmInodeMap n) : Prop where
  found : ∀ key i, map.probe key = .found i ↔ (map.slot i).LiveFor key
  vacant : ∀ key i, map.probe key = .vacant i →
    ((map.slot i).occupied = slotEmpty ∨ (map.slot i).occupied = slotTombstone) ∧
      ∀ e < LinearProbing.distance (hash key) i,
        (map.slot (LinearProbing.advance (hash key) e)).occupied ≠ slotEmpty

theorem SlotInvariant.probesBySlots (h : map.SlotInvariant) : map.ProbesBySlots := by
  constructor
  case found =>
    refine fun key i => ⟨live_of_probe_eq_found, fun hi => ?_⟩
    rw [probe_eq_rawCells]
    refine LinearProbing.probe_eq_found_of_unique (Slot.rawCell_eq_live_iff.mpr hi) ?_ ?_
    · exact fun j _ hj => h.unique (Slot.rawCell_eq_live_iff.mp hj) hi
    · exact fun e he hempty => h.reachable hi e he (Slot.rawCell_eq_empty_iff.mp hempty)
  case vacant =>
    intro key i hp
    refine ⟨(free_of_probe_eq_vacant hp).1, fun e he hempty => ?_⟩
    rw [probe_eq_rawCells] at hp
    exact (LinearProbing.free_of_probe_eq_vacant hp).2 e he (Slot.rawCell_eq_empty_iff.mpr hempty)

/-! ## Main result -/

/-- In every state reachable from `create` the invariant holds, the answers of every probe follow
from it, and no slot that was used becomes empty later. -/
theorem slotInvariant_of_create (codec : XattrCodec) {checks : Bool} {os : ShmOs}
    {slotCount uid gid : UInt32} {map : ShmInodeMap (tableSlotCount slotCount)}
    (hcreate : create checks os slotCount uid gid = .ok map) (ops : List StoreOp) :
    (map.after codec ops).SlotInvariant ∧ (map.after codec ops).ProbesBySlots ∧
      ∀ later i, ((map.after codec ops).slot i).occupied ≠ slotEmpty →
        ((map.after codec (ops ++ later)).slot i).occupied ≠ slotEmpty := by
  have hvalid := (valid_of_create codec hcreate).after ops
  have hcleared : (map.after codec ops).ClearedPages := by
    refine Machine.run_invariant (fun _ op h => h.call op) ?_ ops
    rw [eq_initHeader_of_create_eq_ok hcreate]
    exact clearedPages_initHeader _ _ _ _
  have hinvariant := hvalid.slotInvariant hcleared
  refine ⟨hinvariant, hinvariant.probesBySlots, fun later i hi => ?_⟩
  rw [after, Machine.run_append]
  exact hvalid.used_after hi later

/-- A map of the smallest size with the wincode encoding: a key is bound and removed, and its
slot stays used when another key is bound. -/
theorem slotInvariant_of_create_bind_remove :
    let map := initHeader (tableSlotCount 1)
      (headerSize + slotSize * tableSlotCount 1 + xattrPageSize * tableSlotCount 1) 0 0
    let map' := map.after XattrCodec.wincode [.upsertChown (1, 2) 7 8 0 0, .removeInode (1, 2)]
    map'.SlotInvariant ∧ map'.ProbesBySlots ∧
      ∀ later i, (map'.slot i).occupied ≠ slotEmpty →
        ((map.after XattrCodec.wincode
          ([.upsertChown (1, 2) 7 8 0 0, .removeInode (1, 2)] ++ later)).slot i).occupied ≠
            slotEmpty :=
  slotInvariant_of_create XattrCodec.wincode (create_eq_ok 1 0 0) _

end Pseudoroot.ShmInodeMap
