import Pseudoroot.Verification.Session.Backends
import Pseudoroot.Verification.ShmMap.Interchange

/-! # An attribute that does not fit the page of its inode -/

namespace Pseudoroot

open Calls Calls.Program

/-- The attributes encode to more than a page holds. -/
def XattrCodec.Overflows (codec : XattrCodec) (xattrs : XattrMap) : Prop :=
  ∃ bytes, codec.serialize xattrs = some bytes ∧ xattrPageSize - 4 < bytes.length

theorem XattrCodec.stored_of_overflows {codec : XattrCodec} {xattrs : XattrMap}
    (h : codec.Overflows xattrs) : codec.stored xattrs = ∅ := by
  obtain ⟨bytes, hserialize, hlong⟩ := h
  have hnone : (codec.serialize xattrs).filter
      (fun bytes => bytes.length ≤ xattrPageSize - 4) = none := by
    simp [hserialize, hlong]
  rw [XattrCodec.stored, hnone]

namespace ShmInodeMap

variable {n : ℕ} [NeZero n] {codec : XattrCodec} {map : ShmInodeMap n}

/-- The map reads zero as no mode and no device number. -/
theorem ne_some_zero_of_getInode {key : InodeKey} {inode : FakeInode}
    (h : map.getInode codec key = some inode) : inode.mode ≠ some 0 ∧ inode.rdev ≠ some 0 := by
  unfold getInode at h
  cases hprobe : map.probe key with
  | found i =>
      rw [hprobe] at h
      cases h
      constructor <;> simp [inodeAt_mk]
  | vacant i => simp [hprobe] at h
  | full => simp [hprobe] at h

/-- A stored entry changes by a write only in its attributes. -/
theorem storedInode_of_getInode {key : InodeKey} {inode : FakeInode}
    (h : map.getInode codec key = some inode) (xattrs : XattrMap) :
    codec.storedInode { inode with xattrs := xattrs } =
      { inode with xattrs := codec.stored xattrs } := by
  obtain ⟨hmode, hrdev⟩ := ne_some_zero_of_getInode h
  cases hm : inode.mode <;> cases hr : inode.rdev <;>
    simp_all [XattrCodec.storedInode]

/-- A write of attributes that do not fit drops every attribute of the entry. -/
theorem Valid.getInode_of_overflows (hvalid : map.Valid codec) (hcodec : codec.Lawful)
    {key : InodeKey} {inode : FakeInode} {xattrs : XattrMap}
    (hold : map.getInode codec key = some inode) (hover : codec.Overflows xattrs) :
    (map.upsertInode codec key { inode with xattrs := xattrs }).getInode codec =
      Function.update (map.getInode codec) key (some { inode with xattrs := ∅ }) := by
  have hrep := Represents.of_valid hvalid
  have hbound : map.getInode codec key ≠ none := by simp [hold]
  have hvalid' : (map.upsertInode codec key { inode with xattrs := xattrs }).Valid codec :=
    hvalid.call (.upsertInode key { inode with xattrs := xattrs })
  have hwritten := hrep.upsert_of_room hvalid' _ (cells_upsertInode hcodec hvalid.tagged key _)
    (Or.inl hbound)
  funext key'
  rw [hwritten.getInode_eq, storedInode_of_getInode hold, XattrCodec.stored_of_overflows hover]

/-- From one map to another, the entry of a key keeps all but this attribute, and the other
entries stay as they are. -/
structure KeepsOthers (codec : XattrCodec) (key : InodeKey) (old : FakeInode) (name : String)
    (before after : ShmInodeMap n) : Prop where
  entry : ∃ new, after.getInode codec key = some new ∧
    new.uid = old.uid ∧ new.gid = old.gid ∧ new.mode = old.mode ∧ new.rdev = old.rdev ∧
    ∀ name' ≠ name, ∀ value, old.xattrs[name']? = some value → new.xattrs[name']? = some value
  others : ∀ key' ≠ key, after.getInode codec key' = before.getInode codec key'

end ShmInodeMap

section Exec

variable {n : ℕ} [NeZero n] {w : Wincode} (codec : XattrCodec) {p : Process}
  (hp : p.Ready .shm) (s : Session n)

include hp in
theorem exec_updateInode_shm {key : InodeKey} {old : FakeInode}
    (hold : s.shm.getInode codec key = some old) (f : FakeInode → FakeInode) :
    exec (Session.handle w codec) (Ownership.updateInode w key f) p s =
      (((), p), s.onShm fun m => m.upsertInode codec key (f old)) := by
  simp [Ownership.updateInode, exec_getInode_shm codec hp, exec_setInode_shm codec hp, hold]

variable {codec} {s}

include hp in
/-- Setting an attribute that overflows the page drops every attribute of the entry. -/
theorem getInode_recordXattrForKey_of_overflows (hcodec : codec.Lawful)
    (hvalid : s.shm.Valid codec) {key : InodeKey} {old : FakeInode}
    (hold : s.shm.getInode codec key = some old) {name : String} {value : List UInt8}
    (hover : codec.Overflows (old.xattrs.insert name value)) :
    (exec (Session.handle w codec) (Ownership.recordXattrForKey w key name value) p
        s).2.shm.getInode codec =
      Function.update (s.shm.getInode codec) key (some { old with xattrs := ∅ }) := by
  have hexec := exec_updateInode_shm (w := w) codec hp (s := s) hold
    fun inode => { inode with xattrs := inode.xattrs.insert name value }
  rw [Ownership.recordXattrForKey, hexec]
  exact hvalid.getInode_of_overflows hcodec hold hover

end Exec

namespace ShmInodeMap

variable {codec : XattrCodec}

/-- Setting an attribute that overflows the page keeps the others exactly when there are none. -/
theorem keepsOthers_iff_no_other (hcodec : codec.Lawful) {checks : Bool} {os : ShmOs}
    {slotCount uid gid : UInt32} {map : ShmInodeMap (tableSlotCount slotCount)}
    (hcreate : create checks os slotCount uid gid = .ok map) (ops : List StoreOp) (w : Wincode)
    {p : Process} (hp : p.Ready .shm) (d : DaemonState) {key : InodeKey} {old : FakeInode}
    (hold : (map.after codec ops).getInode codec key = some old) (name : String)
    (value : List UInt8) (hover : codec.Overflows (old.xattrs.insert name value)) :
    KeepsOthers codec key old name (map.after codec ops)
        (exec (Session.handle w codec) (Ownership.recordXattrForKey w key name value) p
          ⟨d, map.after codec ops⟩).2.shm ↔
      ∀ name' ≠ name, old.xattrs[name']? = none := by
  have hvalid := (valid_of_create codec hcreate).after ops
  have hafter := getInode_recordXattrForKey_of_overflows (w := w) hp
    (s := ⟨d, map.after codec ops⟩) hcodec hvalid hold hover
  constructor
  · rintro ⟨⟨new, hnew, -, -, -, -, hkept⟩, -⟩ name' hname
    rw [hafter, Function.update_self] at hnew
    cases hnew
    cases hvalue : old.xattrs[name']? with
    | none => rfl
    | some v => simpa using hkept name' hname v hvalue
  · intro hnone
    refine ⟨⟨_, (congrFun hafter key).trans (Function.update_self ..), rfl, rfl, rfl, rfl, ?_⟩, ?_⟩
    · intro name' hname v hvalue
      rw [hnone name' hname] at hvalue
      cases hvalue
    · intro key' hkey
      rw [hafter, Function.update_of_ne hkey]

/-! ## One attribute and a second one of 5000 bytes -/

namespace OverflowingSet

def key : InodeKey := (1, 2)

/-- An entry with the attribute `user.a`. -/
def inode : FakeInode := { FakeInode.new 0 0 with xattrs := (∅ : XattrMap).insert "user.a" [1] }

def fresh : ShmInodeMap (tableSlotCount 1) :=
  initHeader (tableSlotCount 1)
    (headerSize + slotSize * tableSlotCount 1 + xattrPageSize * tableSlotCount 1) 0 0

def stored : ShmInodeMap (tableSlotCount 1) :=
  fresh.after XattrCodec.wincode [.upsertInode key inode]

def value : List UInt8 := List.replicate 5000 7

/-- A process that is attached to the map. -/
def attached : Process := (Process.load true false).finished.attachedShm

theorem getInode_stored : stored.getInode XattrCodec.wincode key = some inode := by
  have hrep := represents_empty_of_create XattrCodec.wincode (create_eq_ok 1 0 0)
  have hroom : ¬ fresh.NoEmptySlot := fun hfull => hfull 0 rfl
  have hwritten := hrep.upsert_of_room (hrep.valid.call (.upsertInode key inode)) _
    (cells_upsertInode XattrCodec.wincode_lawful hrep.valid.tagged key inode) (Or.inr hroom)
  have hfits : (StoreOp.upsertInode key inode).Fits XattrCodec.wincode :=
    ⟨_, rfl, by decide +kernel⟩
  have hstored : XattrCodec.wincode.storedInode inode = inode :=
    XattrCodec.storedInode_of_fits hfits
  rw [← hstored]
  exact (hwritten.getInode_eq key).trans (Function.update_self ..)

theorem overflows : XattrCodec.wincode.Overflows (inode.xattrs.insert "user.b" value) :=
  ⟨_, rfl, by decide +kernel⟩

theorem keepsOthers_iff_no_other_user_b :
    KeepsOthers XattrCodec.wincode key inode "user.b" stored
        (exec (Session.handle Wincode.bincode XattrCodec.wincode)
          (Ownership.recordXattrForKey Wincode.bincode key "user.b" value) attached
          ⟨newSharedState 0 0, stored⟩).2.shm ↔
      ∀ name' ≠ "user.b", inode.xattrs[name']? = none :=
  keepsOthers_iff_no_other XattrCodec.wincode_lawful (create_eq_ok 1 0 0)
    [.upsertInode key inode] Wincode.bincode ⟨rfl, rfl, rfl⟩ (newSharedState 0 0)
    getInode_stored "user.b" value overflows

/-- The attribute `user.a` is dropped with `user.b`. -/
theorem stored_attribute_dropped :
    let after := (exec (Session.handle Wincode.bincode XattrCodec.wincode)
      (Ownership.recordXattrForKey Wincode.bincode key "user.b" value) attached
      ⟨newSharedState 0 0, stored⟩).2.shm
    stored.getInode XattrCodec.wincode key = some inode ∧ inode.xattrs["user.a"]? = some [1] ∧
      after.getInode XattrCodec.wincode key = some { inode with xattrs := ∅ } ∧
      ¬ KeepsOthers XattrCodec.wincode key inode "user.b" stored after := by
  intro after
  have hvalid := (valid_of_create XattrCodec.wincode (create_eq_ok 1 0 0)).after
    [.upsertInode key inode]
  have hafter : after.getInode XattrCodec.wincode key = some { inode with xattrs := ∅ } := by
    have hdropped := getInode_recordXattrForKey_of_overflows (w := Wincode.bincode)
      (p := attached) ⟨rfl, rfl, rfl⟩ (s := ⟨newSharedState 0 0, stored⟩)
      XattrCodec.wincode_lawful hvalid getInode_stored overflows
    exact (congrFun hdropped key).trans (Function.update_self ..)
  have hvalue : inode.xattrs["user.a"]? = some [1] := by decide +kernel
  refine ⟨getInode_stored, hvalue, hafter, fun hkeeps => ?_⟩
  obtain ⟨new, hnew, -, -, -, -, hkept⟩ := hkeeps.entry
  rw [hafter] at hnew
  cases hnew
  exact absurd (hkept "user.a" (by decide) [1] hvalue) (by decide +kernel)

end OverflowingSet

end ShmInodeMap

end Pseudoroot
