import Pseudoroot.Model.Stat
import Pseudoroot.Verification.Session.Table

/-! # What stat reports

A process reports the metadata of the table for a file with an entry, and the current ids
that it keeps itself for any other file. -/

namespace Pseudoroot

open Calls Calls.Program

namespace Host

variable {n : ℕ} [NeZero n]

/-- A hook, run by the process to its end. -/
def run {α : Type} (w : Wincode) (codec : XattrCodec) (hook : Hook α) (x : Host n) : α × Host n :=
  let after := exec (Session.handle w codec) hook x.1 x.2
  (after.1.1, after.1.2, after.2)

theorem run_eq {α : Type} {w : Wincode} {codec : XattrCodec} {hook : Hook α} {p p' : Process}
    {s s' : Session n} {a : α}
    (h : exec (Session.handle w codec) hook p s = ((a, p'), s')) :
    run w codec hook (p, s) = (a, p', s') := by
  simp [run, h]

/-- What stat makes of the buffer that the kernel fills. -/
def report (b : Option Backing) (codec : XattrCodec) (x : Host n) (st : Stat) : Stat :=
  match x.table b codec (keyFromStat st) with
  | some inode => patchInodeFields st inode
  | none => { st with uid := x.localIds.1, gid := x.localIds.2 }

/-- What statx makes of the buffer that the kernel fills. -/
def reportx (b : Option Backing) (codec : XattrCodec) (devices : DeviceNumbers) (x : Host n)
    (stx : Statx) : Statx :=
  match x.table b codec (keyFromStatx devices stx) with
  | some inode => patchStatxFields devices stx inode
  | none => stx.withOwner x.localIds.1 x.localIds.2

variable {b : Option Backing} {codec : XattrCodec} {x : Host n} {st : Stat}

end Host

section Exec

variable {n : ℕ} [NeZero n] {w : Wincode} (hw : w.Lawful) {codec : XattrCodec}
  {b : Option Backing} {p : Process} {s : Session n}

theorem Process.Initialized.libraryInitDone (h : p.Initialized b) : p.libraryInitDone = true := by
  cases b with
  | none => exact Process.InProcess.libraryInitDone h
  | some b => exact Process.Ready.libraryInitDone h

include hw

/-- A stat of an initialized process reports, and changes nothing. -/
theorem Host.Serves.exec_modifyStatBuf (h : Host.Serves b codec (p, s)) (st : Stat) :
    ∃ p', exec (Session.handle w codec) (modifyStatBuf w st) p s =
        ((Host.report b codec (p, s) st, p'), s) ∧ Host.Same b codec (p, s) (p', s) := by
  have hinit := h.exec_ensureLibraryInit (w := w)
  have hdone : p.libraryInitDone = true := h.initialized.libraryInitDone
  obtain ⟨p', hget, hsame⟩ := h.exec_getInode hw (keyFromStat st)
  refine ⟨p', ?_, hsame⟩
  cases hentry : Host.table b codec (p, s) (keyFromStat st) with
  | some inode => simp [modifyStatBuf, hinit, hdone, hget, hentry, Host.report]
  | none =>
      have hlocal := hsame.localIds_eq
      simp only [Host.localIds, Prod.mk.injEq] at hlocal
      simp [modifyStatBuf, hinit, hdone, hget, hentry, Host.report, applyDefaultOwnership,
        globalStateRead, Host.localIds, hlocal.1, hlocal.2]

theorem Host.Serves.exec_modifyStatxBuf (h : Host.Serves b codec (p, s)) (devices : DeviceNumbers)
    (stx : Statx) :
    ∃ p', exec (Session.handle w codec) (modifyStatxBuf w devices stx) p s =
        ((Host.reportx b codec devices (p, s) stx, p'), s) ∧ Host.Same b codec (p, s) (p', s) := by
  have hinit := h.exec_ensureLibraryInit (w := w)
  have hdone : p.libraryInitDone = true := h.initialized.libraryInitDone
  obtain ⟨p', hget, hsame⟩ := h.exec_getInode hw (keyFromStatx devices stx)
  refine ⟨p', ?_, hsame⟩
  cases hentry : Host.table b codec (p, s) (keyFromStatx devices stx) with
  | some inode => simp [modifyStatxBuf, hinit, hdone, hget, hentry, Host.reportx]
  | none =>
      have hlocal := hsame.localIds_eq
      simp only [Host.localIds, Prod.mk.injEq] at hlocal
      simp [modifyStatxBuf, hinit, hdone, hget, hentry, Host.reportx, globalStateRead,
        Host.localIds, hlocal.1, hlocal.2]

/-- A stat that is the first hook of its process reports after the initialization. -/
theorem Host.Uses.exec_modifyStatBuf (h : Host.Uses b codec (p, s)) (st : Stat) :
    ∃ p' s', exec (Session.handle w codec) (modifyStatBuf w st) p s =
        ((Host.report b codec (p', s') st, p'), s') ∧ Host.Serves b codec (p', s') ∧
      Host.table b codec (p', s') = Host.table b codec (p, s) := by
  obtain ⟨p₁, s₁, hinit, hserves, htable⟩ := h.exec_ensureLibraryInit hw
  obtain ⟨p', hstat, hsame⟩ := hserves.exec_modifyStatBuf hw st
  have hagain := hserves.exec_ensureLibraryInit (w := w)
  have heq : exec (Session.handle w codec) (modifyStatBuf w st) p s =
      exec (Session.handle w codec) (modifyStatBuf w st) p₁ s₁ := by
    simp [modifyStatBuf, hinit, hagain]
  have hreport : Host.report b codec (p₁, s₁) st = Host.report b codec (p', s₁) st := by
    simp only [Host.report, hsame.table_eq, hsame.localIds_eq]
  exact ⟨p', s₁, by rw [heq, hstat, hreport], hsame.serves, hsame.table_eq.trans htable⟩

end Exec

end Pseudoroot
