import Pseudoroot.Library.Runs
import Pseudoroot.Verification.ShmMap.Cells

/-! # Histories of operations on a created map -/

namespace Pseudoroot

/-- One call on a metadata store. -/
inductive StoreOp where
  | getInode (key : InodeKey)
  | upsertChown (key : InodeKey) (uid gid defaultUid defaultGid : UInt32)
  | upsertInode (key : InodeKey) (inode : FakeInode)
  | removeInode (key : InodeKey)
  deriving DecidableEq

/-- What a call returns. -/
inductive StoreReply where
  | inode (result : Option FakeInode)
  | unit
  | removed (present : Bool)
  deriving DecidableEq

def StoreOp.key : StoreOp → InodeKey
  | .getInode key => key
  | .upsertChown key _ _ _ _ => key
  | .upsertInode key _ => key
  | .removeInode key => key

namespace ShmInodeMap

variable {n : ℕ} [NeZero n] (codec : XattrCodec)

/-- One call: its result and the map it leaves. -/
def call (map : ShmInodeMap n) : StoreOp → StoreReply × ShmInodeMap n
  | .getInode key => (.inode (map.getInode codec key), map)
  | .upsertChown key uid gid du dg => (.unit, map.upsertChown codec key uid gid du dg)
  | .upsertInode key inode => (.unit, map.upsertInode codec key inode)
  | .removeInode key =>
    let (present, map') := map.removeInode codec key
    (.removed present, map')

/-- The map after a sequence of calls. -/
def after (map : ShmInodeMap n) (ops : List StoreOp) : ShmInodeMap n :=
  Machine.run (fun m op => (m.call codec op).2) map ops

/-- The invariant of every map that operations built from a fresh one. -/
structure Valid (map : ShmInodeMap n) : Prop where
  tagged : map.Tagged
  wellFormed : LinearProbing.WellFormed hash (map.cells codec)

variable {codec}

theorem Valid.call {map : ShmInodeMap n} (h : map.Valid codec) (op : StoreOp) :
    (map.call codec op).2.Valid codec := by
  cases op with
  | getInode key => exact h
  | upsertChown key uid gid du dg =>
      refine ⟨h.tagged.upsertChown key uid gid du dg, ?_⟩
      simp only [ShmInodeMap.call]
      rw [cells_upsertChown codec h.tagged]
      exact h.wellFormed.upsert _ _
  | upsertInode key inode =>
      refine ⟨h.tagged.upsertInode key inode, ?_⟩
      simp only [ShmInodeMap.call]
      obtain ⟨written, -, -, -, hcells⟩ := exists_cells_upsertInode codec h.tagged key inode
      rw [hcells]
      exact h.wellFormed.upsert _ _
  | removeInode key =>
      refine ⟨h.tagged.removeInode key, ?_⟩
      simp only [ShmInodeMap.call]
      rw [cells_removeInode codec h.tagged]
      exact h.wellFormed.erase _

/-- What counts is the slots and pages. -/
theorem Valid.of_eq {map map' : ShmInodeMap n} (h : map.Valid codec)
    (hslot : map'.slot = map.slot) (hpage : map'.xattrPage = map.xattrPage) :
    map'.Valid codec := by
  have hcells : map'.cells codec = map.cells codec := by
    funext i
    simp only [cells, inodeAt, readXattrs, hslot, hpage]
  refine ⟨fun i => ?_, ?_⟩
  · rw [hslot]
    exact h.tagged i
  · rw [hcells]
    exact h.wellFormed

theorem Valid.after {map : ShmInodeMap n} (h : map.Valid codec) (ops : List StoreOp) :
    (map.after codec ops).Valid codec :=
  Machine.run_invariant (fun _ op hm => hm.call op) h ops

end ShmInodeMap

/-! ## Created maps -/

theorem tableSlotCount_le (requested : UInt32) : tableSlotCount requested ≤ 2 ^ 32 := by
  have hmod : nextPowerOfTwo requested < 2 ^ 32 := Nat.mod_lt _ (by decide)
  unfold tableSlotCount
  omega

/-- Every system call of `create` succeeds. -/
def ShmOs.succeeds (os : ShmOs) : Bool :=
  os.createAnonShmFd && os.ftruncate && os.mmap

/-- What `create` returns unless the rounding panics: the lengths always fit 64 bits. -/
theorem create_eq {checks : Bool} {slotCount : UInt32}
    (h : checks = false ∨ slotCount.toNat.nextPowerOfTwo < 2 ^ 32) (os : ShmOs)
    (uid gid : UInt32) :
    ShmInodeMap.create checks os slotCount uid gid =
      if os.succeeds then
        .ok (ShmInodeMap.initHeader (tableSlotCount slotCount)
          (headerSize + slotSize * tableSlotCount slotCount +
            xattrPageSize * tableSlotCount slotCount) uid gid)
      else .err .lastOsError := by
  have hpanic : ¬ (checks = true ∧ 2 ^ 32 ≤ slotCount.toNat.nextPowerOfTwo) := by
    rintro ⟨rfl, hle⟩
    rcases h with h | h
    · cases h
    · exact Nat.not_le.mpr h hle
  have hn := tableSlotCount_le slotCount
  have hlen : headerSize + slotSize * tableSlotCount slotCount +
      xattrPageSize * tableSlotCount slotCount < 2 ^ 64 := by
    simp only [headerSize, slotSize, xattrPageSize]
    omega
  have hfits : ∀ v ≤ headerSize + slotSize * tableSlotCount slotCount +
      xattrPageSize * tableSlotCount slotCount, checkedUsize v = some v :=
    fun v hv => if_pos (Nat.lt_of_le_of_lt hv hlen)
  have hslots := hfits (slotSize * tableSlotCount slotCount) (by omega)
  have hpages := hfits (xattrPageSize * tableSlotCount slotCount) (by omega)
  have hheader := hfits (headerSize + slotSize * tableSlotCount slotCount) (by omega)
  rw [ShmInodeMap.create, if_neg hpanic]
  simp only [hslots, hpages, hheader, hfits _ le_rfl, Option.bind_some]
  rcases os with ⟨fd, size, mapped⟩
  cases fd <;> cases size <;> cases mapped <;> rfl

/-- Without overflow checks and with the system calls succeeding, `create` returns a
map for every size. -/
theorem create_eq_ok (slotCount uid gid : UInt32) :
    ShmInodeMap.create false ⟨true, true, true⟩ slotCount uid gid =
      .ok (ShmInodeMap.initHeader (tableSlotCount slotCount)
        (headerSize + slotSize * tableSlotCount slotCount +
          xattrPageSize * tableSlotCount slotCount) uid gid) :=
  create_eq (.inl rfl) ⟨true, true, true⟩ uid gid

theorem cells_initHeader (codec : XattrCodec) (n len : ℕ) (uid gid : UInt32) :
    (ShmInodeMap.initHeader n len uid gid).cells codec = fun _ => .empty := by
  funext i
  simp [ShmInodeMap.cells, ShmInodeMap.initHeader]

theorem ShmInodeMap.valid_initHeader (codec : XattrCodec) (n : ℕ) [NeZero n] (len : ℕ)
    (uid gid : UInt32) : (ShmInodeMap.initHeader n len uid gid).Valid codec := by
  refine ⟨fun i => Or.inl rfl, ?_⟩
  rw [cells_initHeader]
  exact LinearProbing.wellFormed_empty _

theorem eq_initHeader_of_create_eq_ok {checks : Bool} {os : ShmOs} {slotCount uid gid : UInt32}
    {map : ShmInodeMap (tableSlotCount slotCount)}
    (h : ShmInodeMap.create checks os slotCount uid gid = .ok map) :
    map = ShmInodeMap.initHeader (tableSlotCount slotCount)
      (headerSize + slotSize * tableSlotCount slotCount +
        xattrPageSize * tableSlotCount slotCount) uid gid := by
  by_cases hrounds : checks = false ∨ slotCount.toNat.nextPowerOfTwo < 2 ^ 32
  · rw [create_eq hrounds] at h
    split at h
    · exact (CreateOutcome.ok.inj h).symm
    · cases h
  · rw [not_or, Bool.not_eq_false, Nat.not_lt] at hrounds
    rw [ShmInodeMap.create, if_pos hrounds] at h
    cases h

theorem cells_of_create (codec : XattrCodec) {checks : Bool} {os : ShmOs}
    {slotCount uid gid : UInt32} {map : ShmInodeMap (tableSlotCount slotCount)}
    (h : ShmInodeMap.create checks os slotCount uid gid = .ok map) :
    map.cells codec = fun _ => .empty := by
  rw [eq_initHeader_of_create_eq_ok h]
  exact cells_initHeader codec _ _ uid gid

/-- A created map is valid. -/
theorem valid_of_create (codec : XattrCodec) {checks : Bool} {os : ShmOs}
    {slotCount uid gid : UInt32} {map : ShmInodeMap (tableSlotCount slotCount)}
    (h : ShmInodeMap.create checks os slotCount uid gid = .ok map) : map.Valid codec := by
  rw [eq_initHeader_of_create_eq_ok h]
  exact ShmInodeMap.valid_initHeader codec _ _ uid gid

end Pseudoroot
