import Mathlib.Data.Fintype.Card
import Pseudoroot.Verification.ShmMap.Refinement

/-! # When an insertion is refused

A removal leaves a tombstone, and only an empty slot ends an unsuccessful probe. An
insertion therefore needs an empty slot somewhere in the table, whether or not a
tombstone could be reused. -/

namespace LinearProbing

variable {κ ν : Type*} [DecidableEq κ] {n : ℕ} {hash : κ → Fin n} {t : Table n κ ν}

/-- A key inserted into its own empty cell and removed again leaves a tombstone there. -/
theorem erase_upsert_of_home_empty {k : κ} (h : t (hash k) = .empty) (f : Option ν → ν) :
    erase hash (upsert hash t k f) k = Function.update t (hash k) .tombstone := by
  rw [upsert_of_vacant (probe_of_empty k h)]
  have hhome : Function.update t (hash k) (.live k (f none)) (hash k) = .live k (f none) :=
    Function.update_self ..
  rw [erase_of_found (probe_of_live hhome), Function.update_idem]

end LinearProbing

namespace Pseudoroot.ShmInodeMap

variable {n : ℕ} [NeZero n] {codec : XattrCodec} {map : ShmInodeMap n}

/-- A lookup of `key` finds an entry with the ids `uid` and `gid`. -/
def BoundWith (codec : XattrCodec) (map : ShmInodeMap n) (key : InodeKey) (uid gid : UInt32) :
    Prop :=
  ∃ inode, map.getInode codec key = some inode ∧ inode.uid = uid ∧ inode.gid = gid

def liveSlots (map : ShmInodeMap n) : Finset (Fin n) :=
  Finset.univ.filter fun i => (map.slot i).occupied = slotLive

/-! ## Acceptance -/

/-- An operation that upserts an unbound key binds it exactly when the table has an
empty slot. -/
theorem Valid.boundWith_of_cells_upsert_iff (h : map.Valid codec) {map' : ShmInodeMap n}
    (h' : map'.Valid codec) {key : InodeKey} (hkey : map.getInode codec key = none)
    {f : Option FakeInode → FakeInode} {uid gid : UInt32}
    (hcells : map'.cells codec = LinearProbing.upsert hash (map.cells codec) key f)
    (huid : (f none).uid = uid) (hgid : (f none).gid = gid) :
    map'.BoundWith codec key uid gid ↔ ∃ i, (map.slot i).occupied = slotEmpty := by
  rw [getInode_eq_lookup h.tagged] at hkey
  have hlookup : map'.getInode codec key =
      LinearProbing.lookup hash (LinearProbing.upsert hash (map.cells codec) key f) key := by
    rw [getInode_eq_lookup h'.tagged, hcells]
  constructor
  · rintro ⟨inode, hinode, -⟩
    by_contra hempty
    have hrefused := h.wellFormed.upsert_of_no_empty key f hkey
      (fun i hi => hempty ⟨i, cells_eq_empty_iff.mp hi⟩)
    rw [hlookup, hrefused, hkey] at hinode
    cases hinode
  · rintro ⟨i, hi⟩
    refine ⟨f none, ?_, huid, hgid⟩
    rw [hlookup, h.wellFormed.lookup_upsert_self key f (.inr ⟨i, cells_eq_empty_iff.mpr hi⟩),
      hkey]

theorem Valid.upsertChown_accepted_iff (h : map.Valid codec) {key : InodeKey}
    (hkey : map.getInode codec key = none) (uid gid du dg : UInt32) :
    (map.upsertChown codec key uid gid du dg).BoundWith codec key
        (if uid = idUnchanged then du else uid) (if gid = idUnchanged then dg else gid) ↔
      ∃ i, (map.slot i).occupied = slotEmpty := by
  refine h.boundWith_of_cells_upsert_iff (h.call (.upsertChown key uid gid du dg)) hkey
    (cells_upsertChown codec h.tagged key uid gid du dg) ?_ ?_
  · rw [Option.getD_none, FakeInode.mergeChown_new]
    rfl
  · rw [Option.getD_none, FakeInode.mergeChown_new]
    rfl

theorem Valid.upsertInode_accepted_iff (h : map.Valid codec) {key : InodeKey}
    (hkey : map.getInode codec key = none) (inode : FakeInode) :
    (map.upsertInode codec key inode).BoundWith codec key inode.uid inode.gid ↔
      ∃ i, (map.slot i).occupied = slotEmpty := by
  obtain ⟨written, huid, hgid, -, hcells⟩ := exists_cells_upsertInode codec h.tagged key inode
  exact h.boundWith_of_cells_upsert_iff (h.call (.upsertInode key inode)) hkey hcells huid hgid

/-! ## Empty slots do not come back -/

theorem Valid.empty_of_call_eq_empty (h : map.Valid codec) (op : StoreOp) {i : Fin n}
    (hi : ((map.call codec op).2.slot i).occupied = slotEmpty) :
    (map.slot i).occupied = slotEmpty := by
  have hcells : ∀ {map' : ShmInodeMap n} {key f}, (map'.slot i).occupied = slotEmpty →
      map'.cells codec = LinearProbing.upsert hash (map.cells codec) key f →
      (map.slot i).occupied = slotEmpty := by
    intro map' key f hempty heq
    have hcell : map'.cells codec i = .empty := cells_eq_empty_iff.mpr hempty
    rw [heq] at hcell
    exact cells_eq_empty_iff.mp (LinearProbing.empty_of_upsert_eq_empty hcell)
  cases op with
  | getInode key => exact hi
  | upsertChown key uid gid du dg => exact hcells hi (cells_upsertChown codec h.tagged ..)
  | upsertInode key inode =>
      obtain ⟨written, -, -, -, heq⟩ := exists_cells_upsertInode codec h.tagged key inode
      exact hcells hi heq
  | removeInode key =>
      have hcell : (map.removeInode codec key).2.cells codec i = .empty :=
        cells_eq_empty_iff.mpr hi
      rw [cells_removeInode codec h.tagged, LinearProbing.erase_eq_empty_iff] at hcell
      exact cells_eq_empty_iff.mp hcell

theorem Valid.used_after (h : map.Valid codec) {i : Fin n}
    (hi : (map.slot i).occupied ≠ slotEmpty) (ops : List StoreOp) :
    ((map.after codec ops).slot i).occupied ≠ slotEmpty := by
  have hboth := Machine.run_invariant
    (I := fun m : ShmInodeMap n => (m.slot i).occupied ≠ slotEmpty ∧ m.Valid codec)
    (fun m op hm => ⟨fun hempty => hm.1 (hm.2.empty_of_call_eq_empty op hempty), hm.2.call op⟩)
    ⟨hi, h⟩ ops
  exact hboth.1

theorem NoEmptySlot.after (h : map.NoEmptySlot) (hvalid : map.Valid codec)
    (ops : List StoreOp) : (map.after codec ops).NoEmptySlot :=
  fun i => hvalid.used_after (h i) ops

/-! ## A table of tombstones -/

/-- Bind and remove the keys `(0, 0)` to `(m - 1, 0)`. -/
def churn (m : ℕ) : List StoreOp :=
  (List.range m).flatMap fun i =>
    [.upsertChown (UInt64.ofNat i, 0) 0 0 0 0, .removeInode (UInt64.ofNat i, 0)]

theorem hash_churn_key {i : ℕ} (hi : i < n) (hn : n ≤ 2 ^ 64) :
    hash (n := n) (UInt64.ofNat i, 0) = ⟨i, hi⟩ := by
  have htoNat : (UInt64.ofNat i).toNat = i :=
    UInt64.toNat_ofNat_of_lt' (Nat.lt_of_lt_of_le hi hn)
  simp [hash, htoNat, Nat.mod_eq_of_lt hi]

theorem after_churn_succ (map : ShmInodeMap n) (m : ℕ) :
    map.after codec (churn (m + 1)) =
      (((map.after codec (churn m)).upsertChown codec (UInt64.ofNat m, 0) 0 0 0 0).removeInode
        codec (UInt64.ofNat m, 0)).2 := by
  simp only [churn, List.range_succ, List.flatMap_append, after, Machine.run_append]
  rfl

/-- Every key of a churn starts its probe at an empty slot of its own. -/
theorem cells_after_churn (hvalid : map.Valid codec) (hempty : map.cells codec = fun _ => .empty)
    (hn : n ≤ 2 ^ 64) {m : ℕ} (hm : m ≤ n) :
    (map.after codec (churn m)).cells codec =
      fun j => if j.val < m then .tombstone else .empty := by
  induction m with
  | zero =>
      funext j
      simp [churn, after, hempty]
  | succ m ih =>
      have hlt : m < n := hm
      have hcells := ih (Nat.le_of_lt hlt)
      have htagged := (hvalid.after (churn m)).tagged
      have htagged' : ((map.after codec (churn m)).upsertChown codec (UInt64.ofNat m, 0)
          0 0 0 0).Tagged := htagged.upsertChown _ 0 0 0 0
      have hhome : (map.after codec (churn m)).cells codec
          (hash (UInt64.ofNat m, 0)) = .empty := by
        rw [hcells, hash_churn_key hlt hn]
        simp
      rw [after_churn_succ, cells_removeInode codec htagged',
        cells_upsertChown codec htagged,
        LinearProbing.erase_upsert_of_home_empty hhome, hcells, hash_churn_key hlt hn]
      funext j
      by_cases hj : j = ⟨m, hlt⟩
      · subst hj
        simp
      · have hne : j.val ≠ m := fun h => hj (Fin.ext h)
        rw [Function.update_of_ne hj]
        have hiff : j.val < m ↔ j.val < m + 1 := by omega
        simp only [hiff]

/-- After as many bindings and removals as there are slots, every slot is a tombstone. -/
theorem occupied_after_churn (hvalid : map.Valid codec)
    (hempty : map.cells codec = fun _ => .empty) (hn : n ≤ 2 ^ 64) (i : Fin n) :
    ((map.after codec (churn n)).slot i).occupied = slotTombstone := by
  have hcell : (map.after codec (churn n)).cells codec i = .tombstone := by
    rw [cells_after_churn hvalid hempty hn le_rfl]
    simp
  rcases (hvalid.after (churn n)).tagged i with hocc | hocc | hocc
  · rw [cells_eq_empty_iff.mpr hocc] at hcell
    cases hcell
  · simp [cells, hocc, slotEmpty, slotLive] at hcell
  · exact hocc

theorem getInode_after_churn (hvalid : map.Valid codec)
    (hempty : map.cells codec = fun _ => .empty) (hn : n ≤ 2 ^ 64) (key : InodeKey) :
    (map.after codec (churn n)).getInode codec key = none := by
  have hafter := hvalid.after (churn n)
  rw [getInode_eq_lookup hafter.tagged, hafter.wellFormed.lookup_eq_none_iff,
    cells_after_churn hvalid hempty hn le_rfl]
  simp

/-- A table whose keys have all been removed again accepts no key. -/
theorem refused_after_churn (hvalid : map.Valid codec)
    (hempty : map.cells codec = fun _ => .empty) (hn : n ≤ 2 ^ 64) (key : InodeKey)
    (uid gid du dg : UInt32) :
    ¬ ((map.after codec (churn n)).upsertChown codec key uid gid du dg).BoundWith codec key
        (if uid = idUnchanged then du else uid) (if gid = idUnchanged then dg else gid) := by
  have hocc := occupied_after_churn hvalid hempty hn
  rw [(hvalid.after (churn n)).upsertChown_accepted_iff
    (getInode_after_churn hvalid hempty hn key)]
  rintro ⟨i, hi⟩
  rw [hocc i] at hi
  exact absurd hi (by decide)

/-! ## Main results -/

theorem tableSlotCount_one : tableSlotCount 1 = 1024 := by
  decide +kernel

/-- The smallest table after 1024 files were recorded and deleted: no slot is live, and
yet the next file is refused. -/
theorem insert_refused_without_live_slot :
    let map := initHeader (tableSlotCount 1)
      (headerSize + slotSize * tableSlotCount 1 + xattrPageSize * tableSlotCount 1) 0 0
    let churned := map.after XattrCodec.wincode (churn 1024)
    create false ⟨true, true, true⟩ 1 0 0 = .ok map ∧ churned.liveSlots.card = 0 ∧
      churned.getInode XattrCodec.wincode (5, 5) = none ∧
      ¬ (churned.upsertChown XattrCodec.wincode (5, 5) 7 7 0 0).BoundWith XattrCodec.wincode
          (5, 5) 7 7 := by
  intro map churned
  have hcreate : create false ⟨true, true, true⟩ 1 0 0 = .ok map := create_eq_ok 1 0 0
  have hvalid := valid_of_create XattrCodec.wincode hcreate
  have hempty := cells_of_create XattrCodec.wincode hcreate
  have hn : tableSlotCount 1 ≤ 2 ^ 64 := by simp [tableSlotCount_one]
  have hchurn : churned = map.after XattrCodec.wincode (churn (tableSlotCount 1)) := by
    simp only [churned, tableSlotCount_one]
  have hocc := occupied_after_churn hvalid hempty hn
  refine ⟨hcreate, ?_, ?_, ?_⟩
  · rw [hchurn]
    simp [liveSlots, hocc, slotLive, slotTombstone]
  · rw [hchurn]
    exact getInode_after_churn hvalid hempty hn (5, 5)
  · rw [hchurn]
    exact refused_after_churn hvalid hempty hn (5, 5) 7 7 0 0

/-- In every state that calls reach from a created map, both insertions of an unbound
key succeed exactly when some slot is still empty. -/
theorem insert_accepted_iff_exists_emptySlot {checks : Bool} {os : ShmOs}
    {slotCount uid₀ gid₀ : UInt32} {map : ShmInodeMap (tableSlotCount slotCount)}
    (hcreate : create checks os slotCount uid₀ gid₀ = .ok map) (ops : List StoreOp)
    {key : InodeKey} (hkey : (map.after codec ops).getInode codec key = none) :
    (∀ uid gid du dg,
      ((map.after codec ops).upsertChown codec key uid gid du dg).BoundWith codec key
          (if uid = idUnchanged then du else uid) (if gid = idUnchanged then dg else gid) ↔
        ∃ i, ((map.after codec ops).slot i).occupied = slotEmpty) ∧
    ∀ inode : FakeInode,
      ((map.after codec ops).upsertInode codec key inode).BoundWith codec key inode.uid inode.gid ↔
        ∃ i, ((map.after codec ops).slot i).occupied = slotEmpty := by
  have hvalid := (valid_of_create codec hcreate).after ops
  exact ⟨hvalid.upsertChown_accepted_iff hkey, hvalid.upsertInode_accepted_iff hkey⟩

/-- The smallest table after two insertions and a removal takes a key of the bucket where the
removed entry was. -/
theorem insert_accepted_iff_churned :
    let map := initHeader (tableSlotCount 1)
      (headerSize + slotSize * tableSlotCount 1 + xattrPageSize * tableSlotCount 1) 0 0
    let churned := map.after XattrCodec.wincode
      [.upsertChown (0, 0) 1 1 0 0, .upsertChown (1, 0) 2 2 0 0, .removeInode (0, 0)]
    (churned.slot 0).occupied = slotTombstone ∧
      churned.getInode XattrCodec.wincode (1024, 0) = none ∧
      (∀ uid gid du dg, (churned.upsertChown XattrCodec.wincode (1024, 0) uid gid du dg).BoundWith
        XattrCodec.wincode (1024, 0) (if uid = idUnchanged then du else uid)
          (if gid = idUnchanged then dg else gid)) ∧
      ∀ inode : FakeInode, (churned.upsertInode XattrCodec.wincode (1024, 0) inode).BoundWith
        XattrCodec.wincode (1024, 0) inode.uid inode.gid := by
  intro map churned
  have hkey : churned.getInode XattrCodec.wincode (1024, 0) = none := by decide +kernel
  have hempty : ∃ i, (churned.slot i).occupied = slotEmpty := ⟨2, by decide +kernel⟩
  have haccepted := insert_accepted_iff_exists_emptySlot (create_eq_ok 1 0 0) _ hkey
  exact ⟨by decide +kernel, hkey, fun uid gid du dg => (haccepted.1 uid gid du dg).mpr hempty,
    fun inode => (haccepted.2 inode).mpr hempty⟩

end Pseudoroot.ShmInodeMap
