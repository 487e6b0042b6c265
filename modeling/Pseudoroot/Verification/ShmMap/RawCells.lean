import Pseudoroot.Library.LinearProbing.Refinement
import Pseudoroot.Model.ShmMap

/-! # Slots with unknown contents

What a probe sees of a slot is its occupancy word and its key. A word that is none of the
three that the operations store is passed by every probe. -/

namespace Pseudoroot

open LinearProbing (Cell Table)

/-- A slot with an unknown word counts as the entry of a key that nobody looks up. -/
def Slot.rawCell (slot : Slot) : Cell (Option InodeKey) Unit :=
  if slot.occupied = slotEmpty then .empty
  else if slot.occupied = slotLive then .live (some (slot.dev, slot.ino)) ()
  else if slot.occupied = slotTombstone then .tombstone
  else .live none ()

def Slot.LiveFor (slot : Slot) (key : InodeKey) : Prop :=
  slot.occupied = slotLive ∧ slot.dev = key.1 ∧ slot.ino = key.2

instance (slot : Slot) (key : InodeKey) : Decidable (slot.LiveFor key) := by
  unfold Slot.LiveFor
  infer_instance

namespace Slot

variable {slot : Slot}

theorem rawCell_eq_empty_iff : slot.rawCell = .empty ↔ slot.occupied = slotEmpty := by
  unfold rawCell
  split_ifs <;> simp_all

theorem rawCell_eq_tombstone_iff : slot.rawCell = .tombstone ↔ slot.occupied = slotTombstone := by
  unfold rawCell
  split_ifs with h1 h2 h3
  · simp [h1, slotEmpty, slotTombstone]
  · simp [h2, slotLive, slotTombstone]
  · simp [h3]
  · simp [h3]

theorem rawCell_eq_live_iff {key : InodeKey} :
    slot.rawCell = .live (some key) () ↔ slot.LiveFor key := by
  unfold rawCell LiveFor
  split_ifs with h1 h2 h3
  · simp [h1, slotEmpty, slotLive]
  · simp [h2, Prod.ext_iff]
  · simp [h3, slotTombstone, slotLive]
  · simp [h2]

theorem rawCell_of_unknown (hempty : slot.occupied ≠ slotEmpty) (hlive : slot.occupied ≠ slotLive)
    (htomb : slot.occupied ≠ slotTombstone) : slot.rawCell = .live none () := by
  simp [rawCell, hempty, hlive, htomb]

/-- A slot is live for one key at most. -/
theorem LiveFor.key_eq {key key' : InodeKey} (h : slot.LiveFor key) (h' : slot.LiveFor key') :
    key' = key :=
  Prod.ext (h'.2.1.symm.trans h.2.1) (h'.2.2.symm.trans h.2.2)

end Slot

namespace ShmInodeMap

variable {n : ℕ}

def rawCells (map : ShmInodeMap n) : Table n (Option InodeKey) Unit := fun i =>
  (map.slot i).rawCell

theorem rawCells_of_slot_eq_update {map map' : ShmInodeMap n} {i : Fin n} {s : Slot}
    (h : map'.slot = Function.update map.slot i s) :
    map'.rawCells = Function.update map.rawCells i s.rawCell := by
  funext j
  rw [rawCells, h]
  by_cases hij : j = i
  · subst hij
    rw [Function.update_self, Function.update_self]
  · rw [Function.update_of_ne hij, Function.update_of_ne hij, rawCells]

variable {map : ShmInodeMap n}

theorem probeLoop_eq_scan_rawCells (key : InodeKey) (fuel : ℕ) (idx : Fin n)
    (reuse : Option (Fin n)) :
    map.probeLoop key fuel idx reuse =
      LinearProbing.scan map.rawCells (some key) fuel idx reuse := by
  induction fuel generalizing idx reuse with
  | zero => rfl
  | succ fuel ih =>
      rw [probeLoop, LinearProbing.scan]
      dsimp only
      by_cases hempty : (map.slot idx).occupied = slotEmpty
      · have hcell : map.rawCells idx = .empty := Slot.rawCell_eq_empty_iff.mpr hempty
        simp only [hempty, hcell, if_true]
      by_cases hlive : (map.slot idx).occupied = slotLive
      · have hcell : map.rawCells idx =
            .live (some ((map.slot idx).dev, (map.slot idx).ino)) () :=
          Slot.rawCell_eq_live_iff.mpr ⟨hlive, rfl, rfl⟩
        have htomb : ¬ (map.slot idx).occupied = slotTombstone := by
          simp [hlive, slotLive, slotTombstone]
        by_cases hkey : (map.slot idx).dev = key.1 ∧ (map.slot idx).ino = key.2
        · simp [hlive, hcell, hkey, slotEmpty, slotLive]
        · have hne : ¬ ((map.slot idx).dev, (map.slot idx).ino) = key := by
            simpa [Prod.ext_iff] using hkey
          simp [hempty, htomb, hcell, hkey, hne, ih]
      by_cases htomb : (map.slot idx).occupied = slotTombstone
      · have hcell : map.rawCells idx = .tombstone := Slot.rawCell_eq_tombstone_iff.mpr htomb
        cases reuse <;> simp [htomb, hcell, ih, slotEmpty, slotLive, slotTombstone]
      · have hcell : map.rawCells idx = .live none () := Slot.rawCell_of_unknown hempty hlive htomb
        simp [hempty, hlive, htomb, hcell, ih]

variable [NeZero n]

theorem probe_eq_rawCells (map : ShmInodeMap n) (key : InodeKey) :
    map.probe key = LinearProbing.probe map.rawCells (hash key) (some key) :=
  probeLoop_eq_scan_rawCells key n (hash key) none

/-! ## The answers of a probe -/

theorem live_of_probe_eq_found {key : InodeKey} {i : Fin n} (h : map.probe key = .found i) :
    (map.slot i).LiveFor key := by
  rw [probe_eq_rawCells] at h
  obtain ⟨v, hi⟩ := LinearProbing.live_of_probe_eq_found h
  exact Slot.rawCell_eq_live_iff.mp hi

theorem free_of_probe_eq_vacant {key : InodeKey} {i : Fin n} (h : map.probe key = .vacant i) :
    ((map.slot i).occupied = slotEmpty ∨ (map.slot i).occupied = slotTombstone) ∧
      ∃ j, (map.slot j).occupied = slotEmpty := by
  rw [probe_eq_rawCells] at h
  obtain ⟨j, hj⟩ := LinearProbing.exists_empty_of_probe_eq_vacant h
  have hfree := (LinearProbing.free_of_probe_eq_vacant h).1
  rw [rawCells, Slot.rawCell_eq_empty_iff, Slot.rawCell_eq_tombstone_iff] at hfree
  exact ⟨hfree, j, Slot.rawCell_eq_empty_iff.mp hj⟩

theorem not_live_of_probe_eq_full {key : InodeKey} (h : map.probe key = .full) (i : Fin n) :
    ¬ (map.slot i).LiveFor key := by
  rw [probe_eq_rawCells] at h
  rw [← Slot.rawCell_eq_live_iff]
  exact LinearProbing.ne_live_of_probe_eq_full h i ()

theorem probe_of_empty {key : InodeKey} (h : (map.slot (hash key)).occupied = slotEmpty) :
    map.probe key = .vacant (hash key) := by
  rw [probe_eq_rawCells]
  exact LinearProbing.probe_of_empty _ (Slot.rawCell_eq_empty_iff.mpr h)

theorem probe_of_tombstone {key : InodeKey}
    (h : (map.slot (hash key)).occupied = slotTombstone)
    (hfresh : ∀ j, ¬ (map.slot j).LiveFor key)
    (hempty : ∃ j, (map.slot j).occupied = slotEmpty) :
    map.probe key = .vacant (hash key) := by
  obtain ⟨j, hj⟩ := hempty
  rw [probe_eq_rawCells]
  exact LinearProbing.probe_of_tombstone (Slot.rawCell_eq_tombstone_iff.mpr h)
    (fun i _ hi => hfresh i (Slot.rawCell_eq_live_iff.mp hi)) ⟨j, Slot.rawCell_eq_empty_iff.mpr hj⟩

end ShmInodeMap

end Pseudoroot
