import Pseudoroot.Library.LinearProbing.Capacity
import Pseudoroot.Verification.ShmMap.Refinement

/-! # The shared map beside the in-process store -/

namespace Pseudoroot

/-! ## The in-process store driven by the same calls -/

namespace FakeRootState

/-- One call: its result and the state it leaves. -/
def call (state : FakeRootState) : StoreOp → StoreReply × FakeRootState
  | .getInode key => (.inode (state.getInode key), state)
  | .upsertChown key uid gid du dg => (.unit, state.upsertChown key uid gid du dg)
  | .upsertInode key inode => (.unit, state.setInode key inode)
  | .removeInode key =>
    let (removed, state') := state.removeInode key
    (.removed removed.isSome, state')

def after (state : FakeRootState) (ops : List StoreOp) : FakeRootState :=
  Machine.run (fun s op => (s.call op).2) state ops

end FakeRootState

/-- The metadata with a zero mode or device id read as unset. -/
def FakeInode.unsetZero (inode : FakeInode) : FakeInode :=
  { inode with
    mode := if inode.mode = some 0 then none else inode.mode
    rdev := if inode.rdev = some 0 then none else inode.rdev }

def StoreReply.unsetZero : StoreReply → StoreReply
  | .inode result => .inode (result.map FakeInode.unsetZero)
  | reply => reply

/-- The xattrs of a full-entry write encode into a page. -/
def StoreOp.Fits (codec : XattrCodec) : StoreOp → Prop
  | .upsertInode _ inode =>
    ∃ bytes, codec.serialize inode.xattrs = some bytes ∧ bytes.length ≤ 4092
  | _ => True

theorem XattrCodec.storedInode_of_fits {codec : XattrCodec} {key : InodeKey} {inode : FakeInode}
    (h : (StoreOp.upsertInode key inode).Fits codec) :
    codec.storedInode inode = inode.unsetZero := by
  obtain ⟨bytes, hser, hlen⟩ := h
  have hstored : codec.stored inode.xattrs = inode.xattrs := by
    have hkept : (some bytes).filter (fun bytes => bytes.length ≤ xattrPageSize - 4) =
        some bytes := Option.filter_eq_some_iff.mpr ⟨rfl, decide_eq_true hlen⟩
    simp only [XattrCodec.stored, hser, hkept]
  have hzero : ∀ {α : Type} [DecidableEq α] (zero : α) (o : Option α),
      (if o.getD zero ≠ zero then o else none) = if o = some zero then none else o := by
    intro α _ zero o
    cases o <;> simp
  simp only [XattrCodec.storedInode, FakeInode.unsetZero, hstored, hzero]

theorem FakeInode.unsetZero_mergeChown (inode : FakeInode) (uid gid : UInt32) :
    (inode.mergeChown uid gid).unsetZero = inode.unsetZero.mergeChown uid gid := rfl

theorem FakeInode.unsetZero_new (uid gid : UInt32) :
    (FakeInode.new uid gid).unsetZero = FakeInode.new uid gid := rfl

/-! ## Agreement -/

namespace ShmInodeMap

variable {n : ℕ} [NeZero n] {codec : XattrCodec} {map : ShmInodeMap n}

/-- The stores bind the same keys to the same metadata, and cell `e` of the table is
reserved against calls on the keys of `K`. -/
structure Agrees (codec : XattrCodec) (K : Finset InodeKey) (e : Fin n) (map : ShmInodeMap n)
    (state : FakeRootState) : Prop where
  valid : map.Valid codec
  reserved : LinearProbing.Reserved hash K e (map.cells codec)
  getInode_eq : ∀ key, map.getInode codec key = (state.getInode key).map FakeInode.unsetZero

variable {K : Finset InodeKey} {e : Fin n} {state : FakeRootState}

/-- An upsert of a key of `K` finds room. -/
theorem Agrees.of_cells_upsert (h : map.Agrees codec K e state)
    (hunder : ∀ d, 0 < d → d ≤ n → (LinearProbing.window hash K e 0 d).card < d)
    {map' : ShmInodeMap n} (hvalid : map'.Valid codec) {key : InodeKey} (hK : key ∈ K)
    {f : Option FakeInode → FakeInode} {state' : FakeRootState} {inode : FakeInode}
    (hcells : map'.cells codec = LinearProbing.upsert hash (map.cells codec) key f)
    (hstate : ∀ k, state'.getInode k = if k = key then some inode else state.getInode k)
    (hinode : f ((state.getInode key).map FakeInode.unsetZero) = inode.unsetZero) :
    map'.Agrees codec K e state' := by
  have hlookup : ∀ k, LinearProbing.lookup hash (map.cells codec) k =
      (state.getInode k).map FakeInode.unsetZero := by
    intro k
    rw [← getInode_eq_lookup h.valid.tagged, h.getInode_eq]
  refine ⟨hvalid, by rw [hcells]; exact h.reserved.upsert hunder hK f, fun k => ?_⟩
  rw [getInode_eq_lookup hvalid.tagged, hcells, hstate]
  by_cases hk : k = key
  · subst hk
    rw [h.valid.wellFormed.lookup_upsert_self k f (.inr ⟨e, h.reserved.hole⟩), hlookup, hinode,
      if_pos rfl, Option.map_some]
  · rw [h.valid.wellFormed.lookup_upsert_of_ne hk, hlookup, if_neg hk]

/-- One call on both stores keeps them in agreement. -/
theorem Agrees.call (hcodec : codec.Lawful)
    (hunder : ∀ d, 0 < d → d ≤ n → (LinearProbing.window hash K e 0 d).card < d)
    {op : StoreOp} (hK : op.key ∈ K) (hfits : op.Fits codec) (h : map.Agrees codec K e state) :
    (map.call codec op).2.Agrees codec K e (state.call op).2 := by
  have hvalid := h.valid.call op
  cases op with
  | getInode key => exact h
  | upsertChown key uid gid du dg =>
      refine h.of_cells_upsert hunder hvalid hK (cells_upsertChown codec h.valid.tagged ..)
        (fun k => state.getInode_upsertChown key k uid gid du dg) ?_
      simp only [StoreOp.key]
      cases state.getInode key with
      | none => simp [FakeInode.unsetZero_mergeChown, FakeInode.unsetZero_new]
      | some inode => simp [FakeInode.unsetZero_mergeChown]
  | upsertInode key inode =>
      exact h.of_cells_upsert hunder hvalid hK (cells_upsertInode hcodec h.valid.tagged key inode)
        (fun k => state.getInode_setInode key k inode) (XattrCodec.storedInode_of_fits hfits)
  | removeInode key =>
      have hcells := cells_removeInode codec h.valid.tagged key
      have hrepresents : map.Represents codec
          (fun k => (state.getInode k).map FakeInode.unsetZero) := ⟨h.valid, h.getInode_eq⟩
      refine ⟨hvalid, ?_, fun k => ?_⟩
      · simp only [ShmInodeMap.call]
        rw [hcells]
        exact h.reserved.erase key
      · simp only [ShmInodeMap.call, FakeRootState.call]
        rw [(hrepresents.removeInode key).getInode_eq, state.getInode_removeInode]
        by_cases hk : k = key
        · simp [hk]
        · simp [hk]

/-- Stores in agreement reply alike. -/
theorem Agrees.reply_eq (h : map.Agrees codec K e state) (op : StoreOp) :
    (map.call codec op).1 = (state.call op).1.unsetZero := by
  cases op with
  | getInode key => simp [ShmInodeMap.call, FakeRootState.call, StoreReply.unsetZero, h.getInode_eq]
  | upsertChown key uid gid du dg => rfl
  | upsertInode key inode => rfl
  | removeInode key =>
      simp [ShmInodeMap.call, FakeRootState.call, StoreReply.unsetZero, removeInode_fst,
        h.getInode_eq]

/-! ## Main results -/

/-- A write that records a zero mode is read back differently from the two stores. -/
theorem replies_differ_on_zero_mode :
    let map := initHeader (tableSlotCount 1)
      (headerSize + slotSize * tableSlotCount 1 + xattrPageSize * tableSlotCount 1) 0 0
    let write := StoreOp.upsertInode (1, 2) { FakeInode.new 0 0 with mode := some 0 }
    create false ⟨true, true, true⟩ 1 0 0 = .ok map ∧ write.Fits XattrCodec.wincode ∧
      ((map.after XattrCodec.wincode [write]).call XattrCodec.wincode (.getInode (1, 2))).1 ≠
        ((FakeRootState.new.after [write]).call (.getInode (1, 2))).1 := by
  intro map write
  have hcreate : create false ⟨true, true, true⟩ 1 0 0 = .ok map := create_eq_ok 1 0 0
  have hrep := represents_empty_of_create XattrCodec.wincode hcreate
  refine ⟨hcreate, ⟨_, rfl, by decide⟩, ?_⟩
  rcases hrep.of_cells_upsert (hrep.valid.call write) _
      (cells_upsertInode XattrCodec.wincode_lawful hrep.valid.tagged (1, 2) _) with
    hbound | ⟨-, hfull, -⟩
  · have hread : (map.after XattrCodec.wincode [write]).getInode XattrCodec.wincode (1, 2) =
        some (XattrCodec.wincode.storedInode { FakeInode.new 0 0 with mode := some 0 }) :=
      (hbound.getInode_eq (1, 2)).trans (Function.update_self ..)
    have hreply : ((FakeRootState.new.after [write]).call (.getInode (1, 2))).1 =
        .inode (some { FakeInode.new 0 0 with mode := some 0 }) := by
      simp [FakeRootState.call, FakeRootState.after, write, FakeRootState.getInode_setInode]
    simp only [ShmInodeMap.call, hread, hreply]
    intro h
    have hmode := congrArg FakeInode.mode (Option.some.inj (StoreReply.inode.inj h))
    simp [XattrCodec.storedInode] at hmode
  · exact absurd rfl (hfull 0)

/-- Over fewer keys than slots, a created map and a fresh in-process store return the
same at every call, up to a zero mode or device id that the map reads as unset. -/
theorem replies_eq_inProcess (hcodec : codec.Lawful) {checks : Bool} {os : ShmOs}
    {slotCount uid gid : UInt32} {map : ShmInodeMap (tableSlotCount slotCount)}
    (hcreate : create checks os slotCount uid gid = .ok map) (ops : List StoreOp)
    (hkeys : (ops.map StoreOp.key).toFinset.card < tableSlotCount slotCount)
    (hfits : ∀ op ∈ ops, op.Fits codec) (i : ℕ) (hi : i < ops.length) :
    ((map.after codec (ops.take i)).call codec ops[i]).1 =
      ((FakeRootState.new.after (ops.take i)).call ops[i]).1.unsetZero := by
  obtain ⟨e, hunder⟩ := LinearProbing.exists_underfull hash (ops.map StoreOp.key).toFinset hkeys
  have hstart : map.Agrees codec (ops.map StoreOp.key).toFinset e FakeRootState.new := by
    refine ⟨valid_of_create codec hcreate, ?_,
      (represents_empty_of_create codec hcreate).getInode_eq⟩
    rw [cells_of_create codec hcreate]
    exact LinearProbing.reserved_empty _ _ _
  have hagrees : (map.after codec (ops.take i)).Agrees codec (ops.map StoreOp.key).toFinset e
      (FakeRootState.new.after (ops.take i)) :=
    Machine.run_relation (P := fun op => op ∈ ops)
      (fun m s op hop h => h.call hcodec hunder
        (List.mem_toFinset.mpr (List.mem_map_of_mem hop)) (hfits op hop))
      hstart (ops.take i) (fun op hop => List.mem_of_mem_take hop)
  exact hagrees.reply_eq ops[i]

/-- A device node recorded, chowned, read and removed. -/
theorem replies_eq_inProcess_device_node :
    let map := initHeader (tableSlotCount 1)
      (headerSize + slotSize * tableSlotCount 1 + xattrPageSize * tableSlotCount 1) 0 0
    let ops := [StoreOp.upsertInode (1, 2) ⟨0, 0, some 0o20644, some 259, ∅⟩,
      .upsertChown (1, 2) idUnchanged 5 0 0, .getInode (1, 2), .removeInode (1, 2)]
    ((map.after XattrCodec.wincode (ops.take 2)).call XattrCodec.wincode ops[2]).1 =
      ((FakeRootState.new.after (ops.take 2)).call ops[2]).1.unsetZero := by
  intro map ops
  have hkeys : (ops.map StoreOp.key).toFinset.card ≤ 1 := by decide
  have hsize : 1024 ≤ tableSlotCount 1 := le_max_right _ _
  refine replies_eq_inProcess XattrCodec.wincode_lawful (create_eq_ok 1 0 0) ops (by omega) ?_ 2
    (by decide)
  intro op hop
  simp only [ops, List.mem_cons, List.not_mem_nil, or_false] at hop
  rcases hop with rfl | rfl | rfl | rfl
  · exact ⟨_, rfl, by decide⟩
  · trivial
  · trivial
  · trivial

end ShmInodeMap

end Pseudoroot
