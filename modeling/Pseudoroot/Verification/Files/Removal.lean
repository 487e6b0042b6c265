import Pseudoroot.Model.Files
import Pseudoroot.Model.Unix
import Pseudoroot.Model.Wincode
import Pseudoroot.Verification.Session.Table

/-! # Removals and renames

The hooks that remove a name drop an entry of the table before they make the real call. -/

namespace Pseudoroot

open Calls Calls.Program

inductive RemovalCall where
  | unlink (path : CStr)
  | unlinkat (dirfd : Int32) (path : CStr) (flags : Int32)
  | rmdir (path : CStr)
  | rename (oldpath newpath : CStr)
  | renameat (olddirfd : Int32) (oldpath : CStr) (newdirfd : Int32) (newpath : CStr)
  | renameat2 (olddirfd : Int32) (oldpath : CStr) (newdirfd : Int32) (newpath : CStr)
      (flags : UInt32)

namespace RemovalCall

variable {κ : Type} (w : Wincode) (kernel : Kernel κ) (k : κ)

def hook : RemovalCall → Hook (Int32 × κ)
  | unlink path => Pseudoroot.unlink w kernel k path
  | unlinkat dirfd path flags => Pseudoroot.unlinkat w kernel k dirfd path flags
  | rmdir path => Pseudoroot.rmdir w kernel k path
  | rename oldpath newpath => Pseudoroot.rename w kernel k oldpath newpath
  | renameat olddirfd oldpath newdirfd newpath =>
    Pseudoroot.renameat w kernel k olddirfd oldpath newdirfd newpath
  | renameat2 olddirfd oldpath newdirfd newpath flags =>
    Pseudoroot.renameat2 w kernel k olddirfd oldpath newdirfd newpath flags

def real : RemovalCall → Int32 × κ
  | unlink path => kernel.unlink k path
  | unlinkat dirfd path flags => kernel.unlinkat k dirfd path flags
  | rmdir path => kernel.rmdir k path
  | rename oldpath newpath => kernel.rename k oldpath newpath
  | renameat olddirfd oldpath newdirfd newpath =>
    kernel.renameat k olddirfd oldpath newdirfd newpath
  | renameat2 olddirfd oldpath newdirfd newpath flags =>
    kernel.renameat2 k olddirfd oldpath newdirfd newpath flags

/-- What the path that loses its file is before the call, with symbolic links followed. -/
def target : RemovalCall → Except Int32 Stat
  | unlink path => kernel.statPath k path
  | unlinkat dirfd path flags => kernel.statAt k dirfd path (resolveStatFlags dirfd path flags)
  | rmdir path => kernel.statPath k path
  | rename _ newpath => kernel.statAt k atFdcwd newpath 0
  | renameat _ _ newdirfd newpath => kernel.statAt k newdirfd newpath 0
  | renameat2 _ _ newdirfd newpath _ => kernel.statAt k newdirfd newpath 0

/-- What a path that gets a new name is before the call, with symbolic links followed. -/
def renamed : RemovalCall → Option Stat
  | rename oldpath _ => (kernel.statAt k atFdcwd oldpath 0).toOption
  | renameat olddirfd oldpath _ _ => (kernel.statAt k olddirfd oldpath 0).toOption
  | renameat2 olddirfd oldpath _ _ _ => (kernel.statAt k olddirfd oldpath 0).toOption
  | _ => none

end RemovalCall

/-- The table without the entry of a file that was found, has one name at most and is not
renamed itself. -/
def dropFound (found : Except Int32 Stat) (renamed : Option Stat)
    (table : InodeKey → Option FakeInode) : InodeKey → Option FakeInode :=
  match found with
  | .ok st =>
    if st.nlink ≤ 1 ∧ renamed.map keyFromStat ≠ some (keyFromStat st) then
      Function.update table (keyFromStat st) none
    else table
  | .error _ => table

theorem ne_none_of_dropFound {found : Except Int32 Stat} {renamed : Option Stat}
    {table : InodeKey → Option FakeInode} {key : InodeKey}
    (h : dropFound found renamed table key ≠ none) : table key ≠ none := by
  unfold dropFound at h
  split at h
  · split at h
    · by_cases hkey : key = keyFromStat ‹Stat›
      · rw [hkey, Function.update_self] at h
        exact absurd rfl h
      · rwa [Function.update_of_ne hkey] at h
    · exact h
  · exact h

/-- What is found has an entry only if that entry is kept. -/
def Spared (found : Except Int32 Stat) (renamed : Option Stat)
    (table : InodeKey → Option FakeInode) : Prop :=
  ∀ st, found = .ok st → st.nlink ≤ 1 → renamed.map keyFromStat ≠ some (keyFromStat st) →
    table (keyFromStat st) = none

theorem dropFound_eq_self_iff (found : Except Int32 Stat) (renamed : Option Stat)
    (table : InodeKey → Option FakeInode) :
    dropFound found renamed table = table ↔ Spared found renamed table := by
  unfold dropFound Spared
  cases found with
  | error e => simp
  | ok st =>
      by_cases hdrop : st.nlink ≤ 1 ∧ renamed.map keyFromStat ≠ some (keyFromStat st)
      · simp only [if_pos hdrop, Except.ok.injEq, forall_eq']
        exact ⟨fun h _ _ => Function.update_eq_self_iff.mp h |>.symm,
          fun h => Function.update_eq_self_iff.mpr (h hdrop.1 hdrop.2).symm⟩
      · simp only [if_neg hdrop, Except.ok.injEq, forall_eq', true_iff]
        exact fun hlink hne => absurd ⟨hlink, hne⟩ hdrop

section Exec

variable {κ : Type} {n : ℕ} [NeZero n] {w : Wincode} (hw : w.Lawful) {codec : XattrCodec}
  {b : Option Backing} {p : Process} {s : Session n} (kernel : Kernel κ) (k : κ)

include hw

theorem exec_maybeRemoveInode (h : Host.Serves b codec (p, s)) (key : InodeKey) (nlink : UInt64) :
    ∃ p' s', exec (Session.handle w codec) (Ownership.maybeRemoveInode w key nlink) p s =
        (((), p'), s') ∧ Host.Serves b codec (p', s') ∧
      Host.table b codec (p', s') =
        if nlink ≤ 1 then Function.update (Host.table b codec (p, s)) key none
        else Host.table b codec (p, s) := by
  by_cases hlink : nlink ≤ 1
  · obtain ⟨p', s', hexec, hframe, htable⟩ := h.exec_removeInode hw key
    exact ⟨p', s', by simp [Ownership.maybeRemoveInode, hlink, hexec], hframe.serves,
      by simp [hlink, htable]⟩
  · exact ⟨p, s, by simp [Ownership.maybeRemoveInode, hlink], h, by simp [hlink]⟩

theorem exec_maybeRemoveFound (h : Host.Serves b codec (p, s)) (found : Except Int32 Stat) :
    ∃ p' s', exec (Session.handle w codec)
        (match found with
          | .ok st => Ownership.maybeRemoveInode w (keyFromStat st) st.nlink
          | .error _ => pure ()) p s = (((), p'), s') ∧
      Host.Serves b codec (p', s') ∧
      Host.table b codec (p', s') = dropFound found none (Host.table b codec (p, s)) := by
  cases found with
  | error e => exact ⟨p, s, rfl, h, rfl⟩
  | ok st =>
      obtain ⟨p', s', hexec, hserves, htable⟩ :=
        exec_maybeRemoveInode hw h (keyFromStat st) st.nlink
      exact ⟨p', s', hexec, hserves, by simp [dropFound, htable]⟩

theorem exec_maybeRemoveInodeAt (h : Host.Uses b codec (p, s)) (dirfd : Int32) (path : CStr)
    (atFlags : Int32) :
    ∃ p' s', exec (Session.handle w codec)
        (Ownership.maybeRemoveInodeAt w kernel k dirfd path atFlags) p s = (((), p'), s') ∧
      Host.Serves b codec (p', s') ∧
      Host.table b codec (p', s') =
        dropFound (kernel.statAt k dirfd path (resolveStatFlags dirfd path atFlags)) none
          (Host.table b codec (p, s)) := by
  obtain ⟨p₁, s₁, hinit, hserves, htable⟩ := h.exec_ensureLibraryInit hw
  obtain ⟨p', s', hexec, hserves', htable'⟩ := exec_maybeRemoveFound hw hserves
    (kernel.statAt k dirfd path (resolveStatFlags dirfd path atFlags))
  refine ⟨p', s', ?_, hserves', htable ▸ htable'⟩
  rw [Ownership.maybeRemoveInodeAt, exec_bind, hinit]
  exact hexec

theorem exec_maybeRemoveInodePath (h : Host.Uses b codec (p, s)) (path : CStr) :
    ∃ p' s', exec (Session.handle w codec)
        (Ownership.maybeRemoveInodePath w kernel k path) p s = (((), p'), s') ∧
      Host.Serves b codec (p', s') ∧
      Host.table b codec (p', s') =
        dropFound (kernel.statPath k path) none (Host.table b codec (p, s)) := by
  obtain ⟨p₁, s₁, hinit, hserves, htable⟩ := h.exec_ensureLibraryInit hw
  obtain ⟨p', s', hexec, hserves', htable'⟩ :=
    exec_maybeRemoveFound hw hserves (kernel.statPath k path)
  refine ⟨p', s', ?_, hserves', htable ▸ htable'⟩
  rw [Ownership.maybeRemoveInodePath, exec_bind, hinit]
  exact hexec

theorem exec_prepareRenameOverwrite (h : Host.Uses b codec (p, s)) (olddirfd : Int32)
    (oldpath : CStr) (newdirfd : Int32) (newpath : CStr) :
    ∃ p' s', exec (Session.handle w codec)
        (Ownership.prepareRenameOverwrite w kernel k olddirfd oldpath newdirfd newpath) p s =
          (((), p'), s') ∧
      Host.Serves b codec (p', s') ∧
      Host.table b codec (p', s') =
        dropFound (kernel.statAt k newdirfd newpath 0)
          (kernel.statAt k olddirfd oldpath 0).toOption (Host.table b codec (p, s)) := by
  obtain ⟨p₁, s₁, hinit, hserves, htable⟩ := h.exec_ensureLibraryInit hw
  cases hnew : kernel.statAt k newdirfd newpath 0 with
  | error e =>
      exact ⟨p₁, s₁, by simp [Ownership.prepareRenameOverwrite, hinit, hnew], hserves,
        by simp [dropFound, htable]⟩
  | ok st =>
      obtain ⟨p', s', hexec, hserves', htable'⟩ :=
        exec_maybeRemoveInode hw hserves (keyFromStat st) st.nlink
      cases hold : kernel.statAt k olddirfd oldpath 0 with
      | error e =>
          exact ⟨p', s', by simp [Ownership.prepareRenameOverwrite, hinit, hnew, hold, hexec],
            hserves', by simp [dropFound, Except.toOption, htable', htable]⟩
      | ok old =>
          by_cases hkey : keyFromStat st = keyFromStat old
          · exact ⟨p₁, s₁,
              by simp [Ownership.prepareRenameOverwrite, hinit, hnew, hold, hkey], hserves,
              by simp [dropFound, Except.toOption, hkey, htable]⟩
          · have hne : keyFromStat old ≠ keyFromStat st := fun h => hkey h.symm
            exact ⟨p', s',
              by simp [Ownership.prepareRenameOverwrite, hinit, hnew, hold, hkey, hexec], hserves',
              by simp [dropFound, Except.toOption, hne, htable', htable]⟩

end Exec

namespace RemovalCall

section Exec

variable {κ : Type} {n : ℕ} [NeZero n] {w : Wincode} (hw : w.Lawful) {codec : XattrCodec}
  {b : Option Backing} {p : Process} {s : Session n} (kernel : Kernel κ) (k : κ)

include hw

theorem exec_hook (h : Host.Uses b codec (p, s)) (call : RemovalCall) :
    ∃ p' s', exec (Session.handle w codec) (call.hook w kernel k) p s =
        ((call.real kernel k, p'), s') ∧
      Host.Serves b codec (p', s') ∧
      Host.table b codec (p', s') =
        dropFound (call.target kernel k) (call.renamed kernel k) (Host.table b codec (p, s)) := by
  cases call with
  | unlink path | rmdir path =>
      obtain ⟨p', s', hexec, hserves, htable⟩ := exec_maybeRemoveInodePath hw kernel k h path
      exact ⟨p', s', by simp [hook, Pseudoroot.unlink, Pseudoroot.rmdir, hexec, real], hserves,
        htable⟩
  | unlinkat dirfd path flags =>
      obtain ⟨p', s', hexec, hserves, htable⟩ :=
        exec_maybeRemoveInodeAt hw kernel k h dirfd path flags
      exact ⟨p', s', by simp [hook, Pseudoroot.unlinkat, hexec, real], hserves, htable⟩
  | rename oldpath newpath =>
      obtain ⟨p', s', hexec, hserves, htable⟩ :=
        exec_prepareRenameOverwrite hw kernel k h atFdcwd oldpath atFdcwd newpath
      exact ⟨p', s', by simp [hook, Pseudoroot.rename, hexec, real], hserves, htable⟩
  | renameat olddirfd oldpath newdirfd newpath | renameat2 olddirfd oldpath newdirfd newpath _ =>
      obtain ⟨p', s', hexec, hserves, htable⟩ :=
        exec_prepareRenameOverwrite hw kernel k h olddirfd oldpath newdirfd newpath
      exact ⟨p', s', by simp [hook, Pseudoroot.renameat, Pseudoroot.renameat2, hexec, real],
        hserves, htable⟩

/-- A failing call leaves the table as it was exactly when what its hook finds has no
entry, has further names or is what the call renames. -/
theorem table_unchanged_iff_spared (h : Host.Uses b codec (p, s)) (call : RemovalCall) :
    let after := exec (Session.handle w codec) (call.hook w kernel k) p s
    ((after.1.1.1 ≠ 0 → Host.table b codec (after.1.2, after.2) = Host.table b codec (p, s)) ↔
      ((call.real kernel k).1 ≠ 0 →
        Spared (call.target kernel k) (call.renamed kernel k) (Host.table b codec (p, s)))) := by
  intro after
  obtain ⟨p', s', hexec, -, htable⟩ := exec_hook hw kernel k h call
  simp only [after, hexec, htable, dropFound_eq_self_iff]

end Exec

/-- A file with two names is chowned, and `rmdir` fails on it and leaves its entry. -/
theorem table_unchanged_iff_spared_two_names :
    let file : CStr := some [102]
    let k := ((UnixState.empty.creat file 0o644).2.link file (some [103])).2
    let chowned := exec (Session.handle Wincode.bincode XattrCodec.wincode)
      (chown Wincode.bincode unixKernel k file 200 200) (Process.withoutSession 0 0)
      (Session.start 1 0 0)
    let after := exec (Session.handle Wincode.bincode XattrCodec.wincode)
      ((rmdir file).hook Wincode.bincode unixKernel k) chowned.1.2 chowned.2
    Host.table none XattrCodec.wincode (chowned.1.2, chowned.2) (1, 2) =
        some (FakeInode.new 200 200) ∧
      after.1.1.1 = -1 ∧
      Host.table none XattrCodec.wincode (after.1.2, after.2) =
        Host.table none XattrCodec.wincode (chowned.1.2, chowned.2) := by
  have hfound : (rmdir (some [102])).target unixKernel
      ((UnixState.empty.creat (some [102]) 0o644).2.link (some [102]) (some [103])).2 =
        .ok ⟨1, 2, 0o100644, 2, 0, 0, 0⟩ := by decide +kernel
  refine ⟨by decide +kernel, by decide +kernel, ?_⟩
  refine (table_unchanged_iff_spared Wincode.bincode_lawful unixKernel _ (b := none)
    ⟨trivial, Or.inl (by constructor <;> decide +kernel)⟩ (rmdir (some [102]))).mpr
      (fun _ => ?_) (by decide +kernel)
  intro st hst hlink
  rw [hfound] at hst
  injection hst with hst
  exact absurd (hst ▸ hlink) (by decide)

/-- A file is chowned, and `rmdir` fails on it and drops its entry. -/
theorem entry_dropped_by_failed_rmdir :
    let file : CStr := some [102]
    let k := (UnixState.empty.creat file 0o644).2
    let chowned := exec (Session.handle Wincode.bincode XattrCodec.wincode)
      (chown Wincode.bincode unixKernel k file 200 200) (Process.withoutSession 0 0)
      (Session.start 1 0 0)
    let after := exec (Session.handle Wincode.bincode XattrCodec.wincode)
      ((rmdir file).hook Wincode.bincode unixKernel k) chowned.1.2 chowned.2
    Host.table none XattrCodec.wincode (chowned.1.2, chowned.2) (1, 2) =
        some (FakeInode.new 200 200) ∧
      after.1.1.1 = -1 ∧ Host.table none XattrCodec.wincode (after.1.2, after.2) (1, 2) = none := by
  decide +kernel

end RemovalCall

end Pseudoroot
