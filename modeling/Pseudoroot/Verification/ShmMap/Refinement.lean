import Pseudoroot.Verification.ShmMap.History

/-! # The shared map refines a finite map

The abstract map knows nothing of slots: it binds keys to metadata. Its only freedom
is that a full table may refuse to bind a new key. -/

namespace Pseudoroot

/-- What the store is for: metadata by device and inode number. -/
abbrev MetadataMap := InodeKey → Option FakeInode

/-- One call on the abstract map. `full` tells that the table has no empty slot, the
only reason for which a new key may be refused. -/
inductive MapStep (codec : XattrCodec) (full : Prop) (σ : MetadataMap) :
    StoreOp → StoreReply → MetadataMap → Prop where
  | get (key : InodeKey) : MapStep codec full σ (.getInode key) (.inode (σ key)) σ
  | remove (key : InodeKey) :
      MapStep codec full σ (.removeInode key) (.removed (σ key).isSome)
        (Function.update σ key none)
  | chownBound {key : InodeKey} {inode : FakeInode} (uid gid du dg : UInt32) :
      σ key = some inode →
      MapStep codec full σ (.upsertChown key uid gid du dg) .unit
        (Function.update σ key (some
          { inode with
            uid := if uid = idUnchanged then inode.uid else uid
            gid := if gid = idUnchanged then inode.gid else gid }))
  | chownUnbound {key : InodeKey} (uid gid du dg : UInt32) :
      σ key = none →
      MapStep codec full σ (.upsertChown key uid gid du dg) .unit
        (Function.update σ key (some (FakeInode.new
          (if uid = idUnchanged then du else uid) (if gid = idUnchanged then dg else gid))))
  | chownRefused {key : InodeKey} (uid gid du dg : UInt32) :
      σ key = none → full → MapStep codec full σ (.upsertChown key uid gid du dg) .unit σ
  | write (key : InodeKey) (inode : FakeInode) :
      MapStep codec full σ (.upsertInode key inode) .unit
        (Function.update σ key (some (codec.storedInode inode)))
  | writeRefused {key : InodeKey} (inode : FakeInode) :
      σ key = none → full → MapStep codec full σ (.upsertInode key inode) .unit σ

namespace ShmInodeMap

variable {n : ℕ} [NeZero n] {codec : XattrCodec} {map : ShmInodeMap n}

def NoEmptySlot (map : ShmInodeMap n) : Prop :=
  ∀ i, (map.slot i).occupied ≠ slotEmpty

structure Represents (codec : XattrCodec) (σ : MetadataMap) (map : ShmInodeMap n) : Prop where
  valid : map.Valid codec
  getInode_eq : ∀ key, map.getInode codec key = σ key

/-! ## Lookups after each operation -/

section Upsert

variable {σ : MetadataMap} (h : map.Represents codec σ) {map' : ShmInodeMap n}
  (hvalid : map'.Valid codec) {key : InodeKey} (f : Option FakeInode → FakeInode)
  (hcells : map'.cells codec = LinearProbing.upsert hash (map.cells codec) key f)

include h in
theorem Represents.lookup_eq (k : InodeKey) :
    LinearProbing.lookup hash (map.cells codec) k = σ k := by
  rw [← getInode_eq_lookup h.valid.tagged, h.getInode_eq]

include h hvalid hcells

/-- An upsert binds a key that is bound, or for which there is an empty slot. -/
theorem Represents.upsert_of_room (hroom : σ key ≠ none ∨ ¬ map.NoEmptySlot) :
    map'.Represents codec (Function.update σ key (some (f (σ key)))) := by
  have hempty : σ key ≠ none ∨ ∃ i, map.cells codec i = .empty := by
    refine hroom.imp id fun hnot => ?_
    unfold NoEmptySlot at hnot
    push Not at hnot
    obtain ⟨i, hi⟩ := hnot
    exact ⟨i, cells_eq_empty_iff.mpr hi⟩
  refine ⟨hvalid, fun k => ?_⟩
  rw [getInode_eq_lookup hvalid.tagged, hcells]
  by_cases hk : k = key
  · subst hk
    rw [h.valid.wellFormed.lookup_upsert_self k f (by rwa [h.lookup_eq]), h.lookup_eq,
      Function.update_self]
  · rw [h.valid.wellFormed.lookup_upsert_of_ne hk, h.lookup_eq, Function.update_of_ne hk]

theorem Represents.upsert_of_full (hkey : σ key = none) (hfull : map.NoEmptySlot) :
    map'.Represents codec σ := by
  refine ⟨hvalid, fun k => ?_⟩
  rw [getInode_eq_lookup hvalid.tagged, hcells,
    h.valid.wellFormed.upsert_of_no_empty key f (by rw [h.lookup_eq, hkey])
      (fun i hi => hfull i (cells_eq_empty_iff.mp hi)), h.lookup_eq]

/-- After an operation that upserts `key` in the table, the lookups are those of the
updated map or, for a new key and a table without empty slots, unchanged. -/
theorem Represents.of_cells_upsert :
    map'.Represents codec (Function.update σ key (some (f (σ key)))) ∨
      (σ key = none ∧ map.NoEmptySlot ∧ map'.Represents codec σ) := by
  by_cases hroom : σ key ≠ none ∨ ¬ map.NoEmptySlot
  · exact Or.inl (h.upsert_of_room hvalid f hcells hroom)
  · obtain ⟨hkey, hfull⟩ := not_or.mp hroom
    exact Or.inr ⟨not_not.mp hkey, not_not.mp hfull,
      h.upsert_of_full hvalid f hcells (not_not.mp hkey) (not_not.mp hfull)⟩

end Upsert

theorem Represents.of_valid {map : ShmInodeMap n} (h : map.Valid codec) :
    map.Represents codec (map.getInode codec) :=
  ⟨h, fun _ => rfl⟩

theorem Represents.removeInode {σ : MetadataMap} (h : map.Represents codec σ) (key : InodeKey) :
    (map.removeInode codec key).2.Represents codec (Function.update σ key none) := by
  have hvalid : (map.removeInode codec key).2.Valid codec := h.valid.call (.removeInode key)
  refine ⟨hvalid, fun k => ?_⟩
  have hcells := cells_removeInode codec h.valid.tagged key
  rw [getInode_eq_lookup hvalid.tagged, hcells]
  by_cases hk : k = key
  · subst hk
    rw [h.valid.wellFormed.lookup_erase_self, Function.update_self]
  · rw [h.valid.wellFormed.lookup_erase_of_ne hk, Function.update_of_ne hk,
      ← getInode_eq_lookup h.valid.tagged, h.getInode_eq]

/-! ## Forward simulation -/

/-- Every call is a call of the abstract map with the same reply. -/
theorem Represents.exists_mapStep (hcodec : codec.Lawful) {σ : MetadataMap}
    (h : map.Represents codec σ) (op : StoreOp) :
    ∃ σ', MapStep codec map.NoEmptySlot σ op (map.call codec op).1 σ' ∧
      (map.call codec op).2.Represents codec σ' := by
  have hvalid := h.valid.call op
  cases op with
  | getInode key =>
      refine ⟨σ, ?_, h⟩
      simpa only [call, h.getInode_eq] using MapStep.get key
  | removeInode key =>
      refine ⟨_, ?_, h.removeInode key⟩
      simpa only [call, removeInode_fst, h.getInode_eq] using MapStep.remove key
  | upsertInode key inode =>
      rcases h.of_cells_upsert hvalid _ (cells_upsertInode hcodec h.valid.tagged key inode) with
        hbound | ⟨hnone, hfull, hsame⟩
      · exact ⟨_, .write key inode, hbound⟩
      · exact ⟨σ, .writeRefused inode hnone hfull, hsame⟩
  | upsertChown key uid gid du dg =>
      rcases h.of_cells_upsert hvalid _
          (cells_upsertChown codec h.valid.tagged key uid gid du dg) with
        hbound | ⟨hnone, hfull, hsame⟩
      · refine ⟨_, ?_, hbound⟩
        cases hkey : σ key with
        | none =>
            rw [Option.getD_none, FakeInode.mergeChown_new]
            exact .chownUnbound uid gid du dg hkey
        | some inode =>
            rw [Option.getD_some, FakeInode.mergeChown_eq]
            exact .chownBound uid gid du dg hkey
      · exact ⟨σ, .chownRefused uid gid du dg hnone hfull, hsame⟩

theorem represents_empty_of_create (codec : XattrCodec) {checks : Bool} {os : ShmOs}
    {slotCount uid gid : UInt32}
    {map : ShmInodeMap (tableSlotCount slotCount)}
    (h : create checks os slotCount uid gid = .ok map) :
    map.Represents codec (fun _ => none) := by
  have hvalid := valid_of_create codec h
  refine ⟨hvalid, fun key => ?_⟩
  rw [getInode_eq_lookup hvalid.tagged, hvalid.wellFormed.lookup_eq_none_iff]
  simp [cells_of_create codec h]

/-- The abstract maps `σ` accompany the calls `ops` on `map`: they start unbound, take
a step with the same reply at every call, and hold at every point what a lookup of any
key returns. -/
structure Accompanies (codec : XattrCodec) (map : ShmInodeMap n) (ops : List StoreOp)
    (σ : ℕ → MetadataMap) : Prop where
  start : σ 0 = fun _ => none
  step : ∀ i (hi : i < ops.length),
    MapStep codec (map.after codec (ops.take i)).NoEmptySlot (σ i) ops[i]
      ((map.after codec (ops.take i)).call codec ops[i]).1 (σ (i + 1))
  lookup : ∀ i ≤ ops.length, ∀ key, (map.after codec (ops.take i)).getInode codec key = σ i key

/-- Every history of calls on a created map is simulated by the abstract map. -/
theorem created_refines_map (hcodec : codec.Lawful) {checks : Bool} {os : ShmOs}
    {slotCount uid gid : UInt32} {map : ShmInodeMap (tableSlotCount slotCount)}
    (hcreate : create checks os slotCount uid gid = .ok map) (ops : List StoreOp) :
    ∃ σ, Accompanies codec map ops σ := by
  obtain ⟨σ, hzero, hsteps, hrel⟩ := Machine.exists_simulation
    (R := fun σ (m : ShmInodeMap (tableSlotCount slotCount)) => m.Represents codec σ)
    (A := fun m σ op σ' => MapStep codec m.NoEmptySlot σ op (m.call codec op).1 σ')
    (fun σ m op h => h.exists_mapStep hcodec op) (represents_empty_of_create codec hcreate) ops
  exact ⟨σ, hzero, hsteps, fun i hi => (hrel i hi).getInode_eq⟩

/-- A map of the smallest size with the wincode encoding: a key bound with a default
group and removed again. -/
theorem created_refines_map_bind_remove :
    ∃ σ, Accompanies XattrCodec.wincode
      (initHeader (tableSlotCount 1)
        (headerSize + slotSize * tableSlotCount 1 + xattrPageSize * tableSlotCount 1) 0 0)
      [.upsertChown (1, 2) 7 idUnchanged 0 5, .removeInode (1, 2)] σ :=
  created_refines_map XattrCodec.wincode_lawful (create_eq_ok 1 0 0) _

end ShmInodeMap

end Pseudoroot
