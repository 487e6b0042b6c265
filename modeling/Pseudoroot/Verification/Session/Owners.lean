import Pseudoroot.Library.Runs
import Pseudoroot.Verification.Session.Cluster
import Pseudoroot.Verification.Session.Report

/-! # The owner of a file without an entry

A process reports the ids that it keeps itself as the owner of such a file, while the ids that
it returns as its own, and those of a new entry, are the ids of the session. -/

namespace Pseudoroot

open Calls Calls.Program

/-- The hooks that record metadata, on the inode of the file that they have found. -/
inductive OwnershipOp where
  | chmod (realMode reqMode : UInt32)
  | setxattr (name : String) (value : List UInt8)
  | chown (uid gid : UInt32)

namespace OwnershipOp

def hook (w : Wincode) (key : InodeKey) : OwnershipOp → Hook Unit
  | chmod realMode reqMode => Ownership.recordChmodForKey w key realMode reqMode
  | setxattr name value => Ownership.recordXattrForKey w key name value
  | chown uid gid => Ownership.recordChownKey w key uid gid

/-- The hook does not set the uid explicitly. -/
def KeepsUid : OwnershipOp → Prop
  | chown uid _ => uid = idUnchanged
  | _ => True

def KeepsGid : OwnershipOp → Prop
  | chown _ gid => gid = idUnchanged
  | _ => True

end OwnershipOp

namespace Host

variable {n : ℕ} [NeZero n]

/-! ## What the hooks report -/

section Hooks

variable (w : Wincode) (codec : XattrCodec) (x : Host n)

/-- The owner that stat reports. -/
def owner (st : Stat) : UInt32 × UInt32 :=
  let report := (x.run w codec (modifyStatBuf w st)).1
  (report.uid, report.gid)

/-- The owner that statx reports. -/
def ownerx (devices : DeviceNumbers) (stx : Statx) : UInt32 × UInt32 :=
  let report := (x.run w codec (modifyStatxBuf w devices stx)).1
  (report.uid, report.gid)

/-- The ids that getuid and getgid return. -/
def credentials : UInt32 × UInt32 :=
  ((x.run w codec (getuid w)).1, (x.run w codec (getgid w)).1)

end Hooks

/-- A file without an entry is reported to belong to the process, and stays so in what a hook
that records other metadata does not set. -/
structure OwnsUntracked (w : Wincode) (codec : XattrCodec) (devices : DeviceNumbers)
    (b : Option Backing) (x : Host n) : Prop where
  stat : ∀ st, x.table b codec (keyFromStat st) = none →
    x.owner w codec st = x.credentials w codec
  statx : ∀ stx, x.table b codec (keyFromStatx devices stx) = none →
    x.ownerx w codec devices stx = x.credentials w codec
  stat_record : ∀ (op : OwnershipOp) (st st' : Stat), keyFromStat st' = keyFromStat st →
    x.table b codec (keyFromStat st) = none →
    let y := (x.run w codec (op.hook w (keyFromStat st))).2
    (op.KeepsUid → (y.owner w codec st').1 = (x.owner w codec st).1) ∧
      (op.KeepsGid → (y.owner w codec st').2 = (x.owner w codec st).2)
  statx_record : ∀ (op : OwnershipOp) (stx stx' : Statx),
    keyFromStatx devices stx' = keyFromStatx devices stx →
    x.table b codec (keyFromStatx devices stx) = none →
    let y := (x.run w codec (op.hook w (keyFromStatx devices stx))).2
    (op.KeepsUid → (y.ownerx w codec devices stx').1 = (x.ownerx w codec devices stx).1) ∧
      (op.KeepsGid → (y.ownerx w codec devices stx').2 = (x.ownerx w codec devices stx).2)

/-- The owner in the entry of an inode, or else the ids that the process keeps. -/
def tableOwner (b : Option Backing) (codec : XattrCodec) (x : Host n) (key : InodeKey) :
    UInt32 × UInt32 :=
  ((x.table b codec key).map fun inode => (inode.uid, inode.gid)).getD x.localIds

section Exec

variable {w : Wincode} (hw : w.Lawful) {codec : XattrCodec} {b : Option Backing} {x y : Host n}

theorem patchStatxFields_owner (devices : DeviceNumbers) (stx : Statx) (inode : FakeInode) :
    (patchStatxFields devices stx inode).uid = inode.uid ∧
      (patchStatxFields devices stx inode).gid = inode.gid := by
  cases hmode : inode.mode <;> cases hrdev : inode.rdev <;>
    simp [patchStatxFields, hmode, hrdev, Statx.withOwner]

include hw

theorem Serves.owner_eq (h : x.Serves b codec) (st : Stat) :
    x.owner w codec st = x.tableOwner b codec (keyFromStat st) := by
  obtain ⟨p', hexec, -⟩ := h.exec_modifyStatBuf hw st
  have hrun : x.run w codec (modifyStatBuf w st) = (x.report b codec st, p', x.2) := run_eq hexec
  rw [owner, hrun, tableOwner, report]
  cases x.table b codec (keyFromStat st) <;> rfl

theorem Serves.ownerx_eq (h : x.Serves b codec) (devices : DeviceNumbers) (stx : Statx) :
    x.ownerx w codec devices stx = x.tableOwner b codec (keyFromStatx devices stx) := by
  obtain ⟨p', hexec, -⟩ := h.exec_modifyStatxBuf hw devices stx
  have hrun : x.run w codec (modifyStatxBuf w devices stx) =
    (x.reportx b codec devices stx, p', x.2) := run_eq hexec
  rw [ownerx, hrun, tableOwner, reportx]
  cases x.table b codec (keyFromStatx devices stx) with
  | none => rfl
  | some inode =>
      obtain ⟨huid, hgid⟩ := patchStatxFields_owner devices stx inode
      exact Prod.ext huid hgid

theorem Serves.credentials_eq (h : x.Serves b codec) : x.credentials w codec = x.ids b := by
  obtain ⟨⟨p', huid, -⟩, p'', hgid, -⟩ := h.exec_sessionIds hw
  have huid' : x.run w codec (getuid w) = ((x.ids b).1, p', x.2) := run_eq huid
  have hgid' : x.run w codec (getgid w) = ((x.ids b).2, p'', x.2) := run_eq hgid
  rw [credentials, huid', hgid']

omit hw in
theorem tableOwner_of_none {key : InodeKey} (h : x.table b codec key = none) :
    x.tableOwner b codec key = x.localIds := by
  rw [tableOwner, h, Option.map_none, Option.getD_none]

omit hw in
/-- A written entry that holds the ids of the process in part reports them in part. -/
theorem Writes.tableOwner_eq {key : InodeKey} {inode : FakeInode}
    (h : Writes b codec key inode x y) (hnone : x.table b codec key = none) :
    (inode.uid = x.localIds.1 → (y.tableOwner b codec key).1 = x.localIds.1) ∧
      (inode.gid = x.localIds.2 → (y.tableOwner b codec key).2 = x.localIds.2) := by
  by_cases hbinds : x.Binds b codec key
  · have hentry : y.table b codec key = some inode := by
      rw [h.table_of_binds hbinds, Function.update_self]
    rw [tableOwner, hentry]
    exact ⟨id, id⟩
  · rw [tableOwner_of_none (by rw [h.table_of_not_binds hbinds, hnone]), h.localIds_eq]
    exact ⟨fun _ => rfl, fun _ => rfl⟩

omit hw in
theorem base_of_none {key : InodeKey} (h : x.table b codec key = none) :
    x.base b codec key = FakeInode.new (x.ids b).1 (x.ids b).2 := by
  rw [base, h, Option.getD_none]

omit hw in
theorem chownBase_of_none {key : InodeKey} (h : x.table b codec key = none) :
    x.chownBase b codec key = FakeInode.new (x.ids b).1 (x.ids b).2 := by
  cases b with
  | none => exact base_of_none h
  | some b =>
      cases b with
      | shm => exact base_of_none h
      | daemon =>
          cases hentry : x.2.daemon.state.getInode key with
          | none => rw [chownBase, hentry, Option.getD_none]
          | some inode =>
              simp only [table, hentry] at h
              cases h

/-- A hook on a file without an entry writes one of the session's ids where it sets none. -/
theorem Serves.exec_ownershipOp (h : x.Serves b codec) (op : OwnershipOp) {key : InodeKey}
    (hnone : x.table b codec key = none) :
    ∃ y written, (x.run w codec (op.hook w key)).2 = y ∧ Writes b codec key written x y ∧
      (op.KeepsUid → written.uid = (x.ids b).1) ∧ (op.KeepsGid → written.gid = (x.ids b).2) := by
  obtain ⟨p, s⟩ := x
  have hupdate : ∀ f : FakeInode → FakeInode, (∀ inode, (f inode).uid = inode.uid) →
      (∀ inode, (f inode).gid = inode.gid) →
      ∃ y written, (run w codec (Ownership.updateInode w key f) (p, s)).2 = y ∧
        Writes b codec key written (p, s) y ∧ written.uid = (ids b (p, s)).1 ∧
        written.gid = (ids b (p, s)).2 := by
    intro f huid hgid
    obtain ⟨p', s', written, hexec, hwrites, hwuid, hwgid, -⟩ := h.exec_updateInode hw key f
    rw [huid, base_of_none hnone] at hwuid
    rw [hgid, base_of_none hnone] at hwgid
    exact ⟨(p', s'), written, by rw [run_eq hexec], hwrites, hwuid, hwgid⟩
  cases op with
  | chmod realMode reqMode =>
      obtain ⟨y, written, hrun, hwrites, huid, hgid⟩ := hupdate
        (fun inode => { inode with mode := some (Ownership.composeMode realMode reqMode) })
        (fun _ => rfl) (fun _ => rfl)
      exact ⟨y, written, hrun, hwrites, fun _ => huid, fun _ => hgid⟩
  | setxattr name value =>
      obtain ⟨y, written, hrun, hwrites, huid, hgid⟩ := hupdate
        (fun inode => { inode with xattrs := inode.xattrs.insert name value })
        (fun _ => rfl) (fun _ => rfl)
      exact ⟨y, written, hrun, hwrites, fun _ => huid, fun _ => hgid⟩
  | chown uid gid =>
      obtain ⟨p', s', hexec, hwrites⟩ := h.exec_recordChownKey hw key uid gid
      rw [chownBase_of_none hnone, FakeInode.mergeChown_new] at hwrites
      refine ⟨(p', s'), _, by rw [OwnershipOp.hook, run_eq hexec], hwrites, ?_, ?_⟩
      · intro hkeeps
        exact if_pos hkeeps
      · intro hkeeps
        exact if_pos hkeeps

/-- A process that keeps the ids of the session itself owns the files without an entry. -/
theorem Serves.ownsUntracked (h : x.Serves b codec) (devices : DeviceNumbers)
    (hagree : x.localIds = x.ids b) : x.OwnsUntracked w codec devices b where
  stat st hnone := by
    rw [h.owner_eq hw, h.credentials_eq hw, tableOwner_of_none hnone, hagree]
  statx stx hnone := by
    rw [h.ownerx_eq hw, h.credentials_eq hw, tableOwner_of_none hnone, hagree]
  stat_record op st st' hkey hnone := by
    obtain ⟨y, written, hrun, hwrites, huid, hgid⟩ := h.exec_ownershipOp hw op hnone
    obtain ⟨huid', hgid'⟩ := hwrites.tableOwner_eq hnone
    dsimp only
    rw [hrun, hwrites.serves.owner_eq hw, h.owner_eq hw, hkey, tableOwner_of_none hnone]
    rw [hagree] at huid' hgid' ⊢
    exact ⟨fun hkeeps => huid' (huid hkeeps), fun hkeeps => hgid' (hgid hkeeps)⟩
  statx_record op stx stx' hkey hnone := by
    obtain ⟨y, written, hrun, hwrites, huid, hgid⟩ := h.exec_ownershipOp hw op hnone
    obtain ⟨huid', hgid'⟩ := hwrites.tableOwner_eq hnone
    dsimp only
    rw [hrun, hwrites.serves.ownerx_eq hw, h.ownerx_eq hw, hkey, tableOwner_of_none hnone]
    rw [hagree] at huid' hgid' ⊢
    exact ⟨fun hkeeps => huid' (huid hkeeps), fun hkeeps => hgid' (hgid hkeeps)⟩

/-- And only such a process, if it sees a file without an entry. -/
theorem Serves.localIds_eq_of_ownsUntracked (h : x.Serves b codec) {devices : DeviceNumbers}
    (howns : x.OwnsUntracked w codec devices b) {st : Stat}
    (hnone : x.table b codec (keyFromStat st) = none) : x.localIds = x.ids b := by
  rw [← tableOwner_of_none hnone, ← h.owner_eq hw, howns.stat st hnone, h.credentials_eq hw]

end Exec

end Host

end Pseudoroot
