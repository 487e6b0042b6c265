import Pseudoroot.Library.LinearProbing.Refinement
import Pseudoroot.Model.Wincode

/-! # The slot array as an open-addressed table

Every operation of the shared map is one operation of the linear-probing library on
the cells that slots and pages stand for. -/

namespace Pseudoroot

open LinearProbing (Cell Table)

/-! ## Xattr pages -/

/-- What the map relies on of wincode: decoding undoes encoding, and a map with
attributes does not encode to nothing. -/
structure XattrCodec.Lawful (codec : XattrCodec) : Prop where
  deserialize_serialize : ∀ {xattrs bytes}, codec.serialize xattrs = some bytes →
    codec.deserialize bytes = some xattrs
  serialize_ne_nil : ∀ {xattrs : XattrMap}, xattrs.isEmpty = false →
    codec.serialize xattrs ≠ some []

theorem XattrCodec.wincode_lawful : XattrCodec.wincode.Lawful where
  deserialize_serialize := by
    intro xattrs bytes h
    cases h
    exact wincodeXattrs.decode_put xattrs
  serialize_ne_nil := by
    intro xattrs _ h
    exact Codec.put_list_ne_nil _ _ (Option.some.inj h)

/-- What a page keeps of an xattr map: all of it or, when it does not encode into
the page, nothing. -/
def XattrCodec.stored (codec : XattrCodec) (xattrs : XattrMap) : XattrMap :=
  match (codec.serialize xattrs).filter (fun bytes => bytes.length ≤ xattrPageSize - 4) with
  | some _ => xattrs
  | none => ∅

/-- Full metadata in the form that a slot and its page can hold. -/
def XattrCodec.storedInode (codec : XattrCodec) (inode : FakeInode) : FakeInode :=
  { inode with
    mode := if inode.mode.getD 0 ≠ 0 then inode.mode else none
    rdev := if inode.rdev.getD 0 ≠ 0 then inode.rdev else none
    xattrs := codec.stored inode.xattrs }

namespace XattrPage

theorem bytes_copyFromSlice (page : XattrPage) {off : ℕ} {src : List UInt8}
    (h : off + src.length ≤ xattrPageSize) :
    (page.copyFromSlice off src).bytes = Bytes.copyFromSlice page.bytes off src := by
  simp [copyFromSlice, h]

theorem lengthPrefix_copyFromSlice_zero (page : XattrPage) (v : ℕ) :
    (page.copyFromSlice 0 (Bytes.toLE 4 v)).lengthPrefix = v % 2 ^ 32 := by
  have hlen : 0 + (Bytes.toLE 4 v).length ≤ xattrPageSize := by simp [xattrPageSize]
  have hread := Bytes.take_drop_copyFromSlice page.bytes (Bytes.toLE 4 v) 0 (Nat.zero_le _)
  rw [List.drop_zero, Bytes.length_toLE] at hread
  rw [lengthPrefix, bytes_copyFromSlice page hlen, hread, Bytes.ofLE_toLE,
    show 256 ^ 4 = 2 ^ 32 from rfl]

/-- Writing the body leaves the length prefix alone. -/
theorem lengthPrefix_copyFromSlice_four (page : XattrPage) {src : List UInt8}
    (h : 4 + src.length ≤ xattrPageSize) :
    (page.copyFromSlice 4 src).lengthPrefix = page.lengthPrefix := by
  rw [lengthPrefix, bytes_copyFromSlice page h, Bytes.take_copyFromSlice le_rfl, lengthPrefix]
  rw [page.length_eq]
  omega

theorem body_copyFromSlice_four (page : XattrPage) {src : List UInt8}
    (h : 4 + src.length ≤ xattrPageSize) : (page.copyFromSlice 4 src).body src.length = src := by
  rw [body, bytes_copyFromSlice page h, Bytes.take_drop_copyFromSlice]
  rw [page.length_eq]
  omega

end XattrPage

namespace ShmInodeMap

variable {n : ℕ}

@[simp] theorem slot_setSlot_self (map : ShmInodeMap n) (i : Fin n) (s : Slot) :
    (map.setSlot i s).slot i = s := by
  simp [setSlot]

theorem slot_setSlot_of_ne (map : ShmInodeMap n) {i j : Fin n} (h : j ≠ i) (s : Slot) :
    (map.setSlot i s).slot j = map.slot j := by
  simp [setSlot, h]

@[simp] theorem xattrPage_setSlot (map : ShmInodeMap n) (i : Fin n) (s : Slot) :
    (map.setSlot i s).xattrPage = map.xattrPage := rfl

@[simp] theorem xattrPage_setPage_self (map : ShmInodeMap n) (i : Fin n) (p : XattrPage) :
    (map.setPage i p).xattrPage i = p := by
  simp [setPage]

theorem xattrPage_setPage_of_ne (map : ShmInodeMap n) {i j : Fin n} (h : j ≠ i) (p : XattrPage) :
    (map.setPage i p).xattrPage j = map.xattrPage j := by
  simp [setPage, h]

variable (codec : XattrCodec)

/-- Writing attributes rewrites one page and nothing else. -/
theorem writeXattrs_eq_setPage (map : ShmInodeMap n) (i : Fin n) (xattrs : XattrMap) :
    ∃ page, map.writeXattrs codec i xattrs = map.setPage i page := by
  unfold writeXattrs
  dsimp only
  split
  · exact ⟨_, rfl⟩
  · split
    · exact ⟨_, rfl⟩
    · exact ⟨_, rfl⟩

@[simp] theorem slot_writeXattrs (map : ShmInodeMap n) (i : Fin n) (xattrs : XattrMap) :
    (map.writeXattrs codec i xattrs).slot = map.slot := by
  obtain ⟨page, h⟩ := writeXattrs_eq_setPage codec map i xattrs
  rw [h]
  rfl

theorem xattrPage_writeXattrs_of_ne (map : ShmInodeMap n) {i j : Fin n} (hji : j ≠ i)
    (xattrs : XattrMap) :
    (map.writeXattrs codec i xattrs).xattrPage j = map.xattrPage j := by
  obtain ⟨page, h⟩ := writeXattrs_eq_setPage codec map i xattrs
  rw [h, xattrPage_setPage_of_ne map hji]

@[simp] theorem readXattrs_setSlot (map : ShmInodeMap n) (i j : Fin n) (s : Slot) :
    (map.setSlot i s).readXattrs codec j = map.readXattrs codec j := rfl

/-- A page whose length prefix was cleared holds no attributes. -/
theorem readXattrs_of_lengthPrefix_eq_zero {map : ShmInodeMap n} {i : Fin n}
    (h : (map.xattrPage i).lengthPrefix = 0) : map.readXattrs codec i = ∅ := by
  simp [readXattrs, h]

theorem lengthPrefix_writeXattrs_empty (map : ShmInodeMap n) (i : Fin n) :
    ((map.writeXattrs codec i ∅).xattrPage i).lengthPrefix = 0 := by
  simp [writeXattrs, XattrPage.lengthPrefix_copyFromSlice_zero]

variable {codec}

/-- Reading a page returns what was kept of the map last written to it. -/
theorem readXattrs_writeXattrs (hcodec : codec.Lawful) (map : ShmInodeMap n) (i : Fin n)
    (xattrs : XattrMap) :
    (map.writeXattrs codec i xattrs).readXattrs codec i = codec.stored xattrs := by
  cases hempty : xattrs.isEmpty with
  | true =>
      have hnil : xattrs = ∅ := by simpa using hempty
      subst hnil
      rw [readXattrs_of_lengthPrefix_eq_zero codec (lengthPrefix_writeXattrs_empty codec map i)]
      simp only [XattrCodec.stored]
      split <;> rfl
  | false =>
      cases hfits : (codec.serialize xattrs).filter
          (fun bytes => bytes.length ≤ xattrPageSize - 4) with
      | none =>
          have hzero : ((map.writeXattrs codec i xattrs).xattrPage i).lengthPrefix = 0 := by
            simp [writeXattrs, hempty, hfits, XattrPage.lengthPrefix_copyFromSlice_zero]
          rw [readXattrs_of_lengthPrefix_eq_zero codec hzero]
          simp [XattrCodec.stored, hfits]
      | some bytes =>
          obtain ⟨hser, hle⟩ := Option.filter_eq_some_iff.mp hfits
          simp only [decide_eq_true_eq] at hle
          have hroom : 4 + bytes.length ≤ xattrPageSize := by
            simp only [xattrPageSize] at hle ⊢
            omega
          have hpage : (map.writeXattrs codec i xattrs).xattrPage i =
              ((map.xattrPage i).copyFromSlice 0 (Bytes.toLE 4 bytes.length)).copyFromSlice 4
                bytes := by
            simp [writeXattrs, hempty, hfits]
          have hpos : bytes.length ≠ 0 := by
            intro hz
            rw [List.length_eq_zero_iff] at hz
            exact hcodec.serialize_ne_nil hempty (hz ▸ hser)
          have hsmall : bytes.length % 2 ^ 32 = bytes.length := by
            apply Nat.mod_eq_of_lt
            simp only [xattrPageSize] at hle
            omega
          have hprefix : ((map.writeXattrs codec i xattrs).xattrPage i).lengthPrefix =
              bytes.length := by
            rw [hpage, XattrPage.lengthPrefix_copyFromSlice_four _ hroom,
              XattrPage.lengthPrefix_copyFromSlice_zero, hsmall]
          have hbody : ((map.writeXattrs codec i xattrs).xattrPage i).body bytes.length =
              bytes := by
            rw [hpage, XattrPage.body_copyFromSlice_four _ hroom]
          have hnot : ¬ (bytes.length = 0 ∨ bytes.length > xattrPageSize - 4) := by omega
          simp only [readXattrs, hprefix, hbody, if_neg hnot,
            hcodec.deserialize_serialize hser, XattrCodec.stored, hfits, Option.getD_some]

/-! ## Slots as cells -/

variable (codec)

/-- The cell that slot `i` and its page stand for. -/
def cells (map : ShmInodeMap n) : Table n InodeKey FakeInode := fun i =>
  if (map.slot i).occupied = slotEmpty then .empty
  else if (map.slot i).occupied = slotLive then
    .live ((map.slot i).dev, (map.slot i).ino) (map.inodeAt codec i)
  else .tombstone

/-- Every occupancy word is one of the three that the operations store. -/
def Tagged (map : ShmInodeMap n) : Prop :=
  ∀ i, (map.slot i).occupied = slotEmpty ∨ (map.slot i).occupied = slotLive ∨
    (map.slot i).occupied = slotTombstone

variable {codec}

theorem cells_eq_empty_iff {map : ShmInodeMap n} {i : Fin n} :
    map.cells codec i = .empty ↔ (map.slot i).occupied = slotEmpty := by
  unfold cells
  split
  · simp_all
  · split <;> simp_all

theorem cells_eq_live_iff {map : ShmInodeMap n} {i : Fin n} {key : InodeKey} {inode : FakeInode} :
    map.cells codec i = .live key inode ↔
      (map.slot i).occupied = slotLive ∧ (map.slot i).dev = key.1 ∧ (map.slot i).ino = key.2 ∧
        map.inodeAt codec i = inode := by
  unfold cells
  split
  · rename_i h
    simp [h, slotEmpty, slotLive]
  · split
    · rename_i h
      simp [h, Prod.ext_iff, and_assoc]
    · rename_i h
      simp [h]

/-- Maps that agree away from slot `i` have tables that agree away from cell `i`. -/
theorem cells_eq_update (map : ShmInodeMap n) {map' : ShmInodeMap n} (i : Fin n)
    (hslot : ∀ j, j ≠ i → map'.slot j = map.slot j)
    (hpage : ∀ j, j ≠ i → map'.xattrPage j = map.xattrPage j) :
    map'.cells codec = Function.update (map.cells codec) i (map'.cells codec i) := by
  funext j
  by_cases hji : j = i
  · subst hji
    rw [Function.update_self]
  · rw [Function.update_of_ne hji]
    simp only [cells, inodeAt, readXattrs, hslot j hji, hpage j hji]

/-- Writing a page and its slot changes one cell. -/
theorem cells_setSlot_writeXattrs (map : ShmInodeMap n) (i : Fin n) (s : Slot)
    (xattrs : XattrMap) :
    ((map.writeXattrs codec i xattrs).setSlot i s).cells codec =
      Function.update (map.cells codec) i
        (((map.writeXattrs codec i xattrs).setSlot i s).cells codec i) :=
  cells_eq_update map i (fun j hj => by rw [slot_setSlot_of_ne _ hj, slot_writeXattrs])
    (fun j hj => by rw [xattrPage_setSlot, xattrPage_writeXattrs_of_ne codec map hj])

theorem Tagged.of_eq_off {map map' : ShmInodeMap n} (h : map.Tagged) (i : Fin n)
    (hslot : ∀ j, j ≠ i → map'.slot j = map.slot j)
    (hi : (map'.slot i).occupied = slotEmpty ∨ (map'.slot i).occupied = slotLive ∨
      (map'.slot i).occupied = slotTombstone) : map'.Tagged := by
  intro j
  by_cases hji : j = i
  · subst hji
    exact hi
  · rw [hslot j hji]
    exact h j

/-! ## The probe is the library's search -/

theorem probeLoop_eq_scan {map : ShmInodeMap n} (h : map.Tagged) (key : InodeKey) (fuel : ℕ)
    (idx : Fin n) (reuse : Option (Fin n)) :
    map.probeLoop key fuel idx reuse =
      LinearProbing.scan (map.cells codec) key fuel idx reuse := by
  induction fuel generalizing idx reuse with
  | zero => rfl
  | succ fuel ih =>
      rw [probeLoop, LinearProbing.scan]
      dsimp only
      rcases h idx with hocc | hocc | hocc
      · simp [cells, hocc]
      · simp only [cells, hocc, slotEmpty, slotLive, slotTombstone]
        by_cases hkey : (map.slot idx).dev = key.1 ∧ (map.slot idx).ino = key.2
        · simp [hkey]
        · have hne : ¬ ((map.slot idx).dev, (map.slot idx).ino) = key := by
            simpa [Prod.ext_iff] using hkey
          simp [hkey, hne, ih]
      · cases reuse <;> simp [cells, hocc, slotEmpty, slotLive, slotTombstone, ih]

theorem probe_eq [NeZero n] (codec : XattrCodec) {map : ShmInodeMap n} (h : map.Tagged)
    (key : InodeKey) :
    map.probe key = LinearProbing.probe (map.cells codec) (hash key) key :=
  probeLoop_eq_scan h key n (hash key) none

theorem getInode_eq_lookup [NeZero n] {map : ShmInodeMap n} (h : map.Tagged) (key : InodeKey) :
    map.getInode codec key = LinearProbing.lookup hash (map.cells codec) key := by
  rw [getInode, probe_eq codec h, LinearProbing.lookup]
  cases hp : LinearProbing.probe (map.cells codec) (hash key) key with
  | found i =>
      obtain ⟨v, hi⟩ := LinearProbing.live_of_probe_eq_found hp
      simp only [hi, (cells_eq_live_iff.mp hi).2.2.2]
  | vacant i => rfl
  | full => rfl

/-! ## The operations are the library's operations -/

section Operations

theorem inodeAt_mk (map : ShmInodeMap n) (i : Fin n) (codec : XattrCodec) :
    map.inodeAt codec i =
      ⟨(map.slot i).uid, (map.slot i).gid,
        if (map.slot i).mode ≠ 0 then some (map.slot i).mode else none,
        if (map.slot i).rdev ≠ 0 then some (map.slot i).rdev else none,
        map.readXattrs codec i⟩ := rfl

theorem ite_getD_eq_zero {α : Type*} [DecidableEq α] (zero : α) (o : Option α) :
    (if o.getD zero = zero then none else some (o.getD zero)) =
      if o.getD zero = zero then none else o := by
  cases o <;> simp

variable [NeZero n] {map : ShmInodeMap n}

/-- A partial chown is an upsert of the merged entry, seeded with the defaults. -/
theorem cells_upsertChown (codec : XattrCodec) (h : map.Tagged) (key : InodeKey)
    (uid gid du dg : UInt32) :
    (map.upsertChown codec key uid gid du dg).cells codec =
      LinearProbing.upsert hash (map.cells codec) key
        (fun old => (old.getD (FakeInode.new du dg)).mergeChown uid gid) := by
  have hp := probe_eq codec h key
  cases hout : LinearProbing.probe (map.cells codec) (hash key) key with
  | found i =>
      obtain ⟨v, hi⟩ := LinearProbing.live_of_probe_eq_found hout
      obtain ⟨hocc, hdev, hino, hinode⟩ := cells_eq_live_iff.mp hi
      have hlookup : LinearProbing.lookup hash (map.cells codec) key = some v := by
        simp [LinearProbing.lookup, hout, hi]
      rw [LinearProbing.upsert_of_found hout, hlookup]
      rw [hout] at hp
      simp only [upsertChown, hp]
      rw [cells_eq_update map i (fun j hj => slot_setSlot_of_ne map hj _) (fun j hj => rfl)]
      congr 1
      rw [cells_eq_live_iff]
      refine ⟨by simpa using hocc, by simpa using hdev, by simpa using hino, ?_⟩
      subst hinode
      simp [inodeAt_mk, FakeInode.mergeChown]
  | vacant i =>
      rw [LinearProbing.upsert_of_vacant hout]
      rw [hout] at hp
      simp only [upsertChown, hp]
      rw [cells_setSlot_writeXattrs]
      congr 1
      rw [cells_eq_live_iff]
      refine ⟨by simp, by simp, by simp, ?_⟩
      have hread := readXattrs_of_lengthPrefix_eq_zero codec
        (lengthPrefix_writeXattrs_empty codec map i)
      simp [inodeAt_mk, hread, FakeInode.mergeChown, FakeInode.new]
  | full =>
      rw [LinearProbing.upsert_of_full hout]
      rw [hout] at hp
      simp only [upsertChown, hp]

/-- A full-entry write is an upsert of an entry with the ids written, whatever the
codec does; with a lawful codec it is the stored form of the entry. -/
theorem exists_cells_upsertInode (codec : XattrCodec) (h : map.Tagged) (key : InodeKey)
    (inode : FakeInode) :
    ∃ written : FakeInode, written.uid = inode.uid ∧ written.gid = inode.gid ∧
      (codec.Lawful → written = codec.storedInode inode) ∧
      (map.upsertInode codec key inode).cells codec =
        LinearProbing.upsert hash (map.cells codec) key (fun _ => written) := by
  have hp := probe_eq codec h key
  cases hout : LinearProbing.probe (map.cells codec) (hash key) key with
  | found i =>
      obtain ⟨v, hi⟩ := LinearProbing.live_of_probe_eq_found hout
      obtain ⟨hocc, hdev, hino, -⟩ := cells_eq_live_iff.mp hi
      rw [hout] at hp
      simp only [upsertInode, hp, LinearProbing.upsert_of_found hout]
      rw [cells_eq_update map i
        (fun j hj => by rw [slot_writeXattrs, slot_setSlot_of_ne _ hj])
        (fun j hj => by rw [xattrPage_writeXattrs_of_ne codec _ hj, xattrPage_setSlot])]
      refine ⟨_, ?_, ?_, ?_, congrArg _ (cells_eq_live_iff.mpr
        ⟨by simpa using hocc, by simpa using hdev, by simpa using hino, rfl⟩)⟩
      · simp [inodeAt_mk]
      · simp [inodeAt_mk]
      · intro hcodec
        rw [inodeAt_mk, readXattrs_writeXattrs hcodec]
        simp [XattrCodec.storedInode, ite_getD_eq_zero]
  | vacant i =>
      rw [hout] at hp
      simp only [upsertInode, hp, LinearProbing.upsert_of_vacant hout]
      rw [cells_setSlot_writeXattrs]
      refine ⟨_, ?_, ?_, ?_, congrArg _ (cells_eq_live_iff.mpr
        ⟨by simp, by simp, by simp, rfl⟩)⟩
      · simp [inodeAt_mk]
      · simp [inodeAt_mk]
      · intro hcodec
        rw [inodeAt_mk, readXattrs_setSlot, readXattrs_writeXattrs hcodec]
        simp [XattrCodec.storedInode, ite_getD_eq_zero]
  | full =>
      rw [hout] at hp
      refine ⟨codec.storedInode inode, rfl, rfl, fun _ => rfl, ?_⟩
      simp only [upsertInode, hp, LinearProbing.upsert_of_full hout]

theorem cells_upsertInode (hcodec : codec.Lawful) (h : map.Tagged) (key : InodeKey)
    (inode : FakeInode) :
    (map.upsertInode codec key inode).cells codec =
      LinearProbing.upsert hash (map.cells codec) key (fun _ => codec.storedInode inode) := by
  obtain ⟨written, -, -, hstored, hcells⟩ := exists_cells_upsertInode codec h key inode
  rw [hcells, hstored hcodec]

/-- A removal buries the cell of its key. -/
theorem cells_removeInode (codec : XattrCodec) (h : map.Tagged) (key : InodeKey) :
    (map.removeInode codec key).2.cells codec =
      LinearProbing.erase hash (map.cells codec) key := by
  have hp := probe_eq codec h key
  cases hout : LinearProbing.probe (map.cells codec) (hash key) key with
  | found i =>
      rw [LinearProbing.erase_of_found hout]
      rw [hout] at hp
      simp only [removeInode, hp]
      rw [cells_setSlot_writeXattrs]
      congr 1
      simp [cells, slotEmpty, slotLive, slotTombstone]
  | vacant i =>
      rw [LinearProbing.erase_of_vacant hout]
      rw [hout] at hp
      simp only [removeInode, hp]
  | full =>
      rw [LinearProbing.erase_of_full hout]
      rw [hout] at hp
      simp only [removeInode, hp]

/-- A removal reports whether its key had an entry. -/
theorem removeInode_fst (map : ShmInodeMap n) (key : InodeKey) :
    (map.removeInode codec key).1 = (map.getInode codec key).isSome := by
  cases hp : map.probe key <;> simp [removeInode, getInode, hp]

/-! ## Occupancy words stay well formed -/

theorem Tagged.upsertChown (h : map.Tagged) (key : InodeKey) (uid gid du dg : UInt32) :
    (map.upsertChown codec key uid gid du dg).Tagged := by
  cases hp : map.probe key with
  | found i =>
      simp only [ShmInodeMap.upsertChown, hp]
      exact h.of_eq_off i (fun j hj => slot_setSlot_of_ne map hj _) (by simpa using h i)
  | vacant i =>
      simp only [ShmInodeMap.upsertChown, hp]
      exact h.of_eq_off i (fun j hj => by rw [slot_setSlot_of_ne _ hj, slot_writeXattrs])
        (by simp)
  | full => simpa only [ShmInodeMap.upsertChown, hp] using h

theorem Tagged.upsertInode (h : map.Tagged) (key : InodeKey) (inode : FakeInode) :
    (map.upsertInode codec key inode).Tagged := by
  cases hp : map.probe key with
  | found i =>
      simp only [ShmInodeMap.upsertInode, hp]
      exact h.of_eq_off i (fun j hj => by rw [slot_writeXattrs, slot_setSlot_of_ne _ hj])
        (by simpa using h i)
  | vacant i =>
      simp only [ShmInodeMap.upsertInode, hp]
      exact h.of_eq_off i (fun j hj => by rw [slot_setSlot_of_ne _ hj, slot_writeXattrs])
        (by simp)
  | full => simpa only [ShmInodeMap.upsertInode, hp] using h

theorem Tagged.removeInode (h : map.Tagged) (key : InodeKey) :
    (map.removeInode codec key).2.Tagged := by
  cases hp : map.probe key with
  | found i =>
      simp only [ShmInodeMap.removeInode, hp]
      exact h.of_eq_off i (fun j hj => by rw [slot_setSlot_of_ne _ hj, slot_writeXattrs])
        (by simp)
  | vacant i => simpa only [ShmInodeMap.removeInode, hp] using h
  | full => simpa only [ShmInodeMap.removeInode, hp] using h

end Operations

end ShmInodeMap

end Pseudoroot
