import Pseudoroot.Library.FileSystem.Creation
import Pseudoroot.Verification.Files.Tree
import Pseudoroot.Verification.Session.Report

/-! # Changes of the mode

A chmod records the type bits of the real file with the requested permission bits. -/

namespace Pseudoroot

open Calls Calls.Program FileSystem Ownership

/-! ## Composed modes -/

theorem and_replace_of_disjoint {m t : UInt32} (h : m &&& t = 0) (a c : UInt32) :
    (a &&& ~~~m ||| c &&& m) &&& t = a &&& t := by
  apply UInt32.eq_of_toBitVec_eq
  have hbits : m.toBitVec &&& t.toBitVec = 0#32 := by rw [← UInt32.toBitVec_and, h]; rfl
  ext i hi
  have hbit : (m.toBitVec[i] && t.toBitVec[i]) = false := by
    rw [← BitVec.getElem_and, hbits, BitVec.getElem_zero]
  simp only [UInt32.toBitVec_and, UInt32.toBitVec_or, UInt32.toBitVec_not, BitVec.getElem_and,
    BitVec.getElem_or, BitVec.getElem_not]
  cases hm : m.toBitVec[i] <;> cases ht : t.toBitVec[i] <;> simp_all

theorem composeMode_and_sIfmt (realMode reqMode : UInt32) :
    composeMode realMode reqMode &&& sIfmt = realMode &&& sIfmt :=
  and_replace_of_disjoint (by decide) realMode reqMode

/-! ## The real call -/

namespace UnixState

variable {k : UnixState}

end UnixState

inductive ChmodCall where
  | chmod (path : CStr)
  | fchmod (fd : Int32)
  | fchmodat (dirfd : Int32) (path : CStr) (flags : Int32)

namespace ChmodCall

def hook {κ : Type} (w : Wincode) (kernel : Kernel κ) (k : κ) (mode : UInt32) :
    ChmodCall → Hook (Int32 × κ)
  | chmod path => Pseudoroot.chmod w kernel k path mode
  | fchmod fd => Pseudoroot.fchmod w kernel k fd mode
  | fchmodat dirfd path flags => Pseudoroot.fchmodat w kernel k dirfd path mode flags

def source : ChmodCall → StatSource
  | chmod path => .path path false
  | fchmod fd => .fd fd
  | fchmodat dirfd path flags => .atDir dirfd path flags

theorem hook_eq {κ : Type} (w : Wincode) (kernel : Kernel κ) (k : κ) (mode : UInt32)
    (call : ChmodCall) :
    call.hook w kernel k mode = recordChmod w kernel k call.source mode := by
  cases call <;> rfl

/-- The file that the hook has found is the one that the real call changes. -/
def reaches (k : UnixState) (st : Stat) : ChmodCall → Bool
  | fchmod _ => true
  | _ => !k.tree.isSymlink st.ino

/-- The real call succeeds, and changes the file that the hook has found. -/
abbrev ChangesReal (k : UnixState) (mode : UInt32) (st : Stat) (call : ChmodCall) : Prop :=
  (k.chmod call.source mode).1 = 0 ∧ call.reaches k st = true

variable {k : UnixState} {call : ChmodCall}

end ChmodCall

/-! ## The hook -/

section Exec

variable {κ : Type} {n : ℕ} [NeZero n] {w : Wincode} (hw : w.Lawful) {codec : XattrCodec}
  {b : Option Backing} {p : Process} {s : Session n} (kernel : Kernel κ) (k : κ)

theorem exec_recordChmod_of_init {p₁ : Process} {s₁ : Session n}
    (hinit : exec (Session.handle w codec) (ensureLibraryInit w) p s = (((), p₁), s₁))
    (h : Host.Serves b codec (p₁, s₁)) (source : StatSource) (mode : UInt32) :
    exec (Session.handle w codec) (recordChmod w kernel k source mode) p s =
      exec (Session.handle w codec) (recordChmod w kernel k source mode) p₁ s₁ := by
  simp [recordChmod, hinit, h.exec_ensureLibraryInit]

include hw

theorem Host.Serves.exec_recordChmod (h : Host.Serves b codec (p, s)) {source : StatSource}
    {st : Stat} (hstat : source.stat kernel k = .ok st) (mode : UInt32) :
    ∃ p' s' written, exec (Session.handle w codec) (recordChmod w kernel k source mode) p s =
        (((zeroOnErr (kernel.chmod k source mode).1, (kernel.chmod k source mode).2), p'), s') ∧
      Host.Writes b codec (keyFromStat st) written (p, s) (p', s') ∧
      (codec.Lawful → written = Host.stored b codec
        { Host.base b codec (p, s) (keyFromStat st) with
          mode := some (composeMode st.mode mode) }) := by
  obtain ⟨p', s', written, hexec, hwrites, -, -, hwritten⟩ := h.exec_updateInode hw
    (keyFromStat st) fun inode => { inode with mode := some (composeMode st.mode mode) }
  exact ⟨p', s', written,
    by simp [recordChmod, recordChmodForKey, h.exec_ensureLibraryInit, hstat, hexec],
    hwrites, hwritten⟩

end Exec

/-! ## What stat reports after a chmod -/

namespace ChmodCall

variable {n : ℕ} [NeZero n]

/-- What the call relies on in the state before it: a mode in the entry of the file has the
type bits of the real file; for a file without an entry the process keeps the ids of the
session; the attributes of an entry fit the table; and the mode is recorded, or changed in
the real file, or is already the requested one there. -/
structure Keeps (b : Option Backing) (codec : XattrCodec) (call : ChmodCall) (k : UnixState)
    (mode : UInt32) (x : Host n) (st : Stat) : Prop where
  kind : ∀ inode recorded, x.table b codec (keyFromStat st) = some inode →
    inode.mode = some recorded → recorded &&& sIfmt = st.mode &&& sIfmt
  ids : x.table b codec (keyFromStat st) = none → x.Binds b codec (keyFromStat st) →
    x.localIds = x.ids b
  fits : ∀ inode, x.table b codec (keyFromStat st) = some inode →
    (Host.stored b codec inode).xattrs = inode.xattrs
  changes : (x.Binds b codec (keyFromStat st) ∧
      (b = some .shm → composeMode st.mode mode ≠ 0)) ∨
    call.ChangesReal k mode st ∨ st.mode &&& allperms = mode &&& allperms

variable {w : Wincode} {codec : XattrCodec} {b : Option Backing}

theorem stored_withMode (codec : XattrCodec) (inode : FakeInode) (m : UInt32) :
    Host.stored b codec { inode with mode := some m } =
      { Host.stored b codec inode with
        mode := if b = some .shm ∧ m = 0 then none else some m } := by
  cases b with
  | none => simp [Host.stored]
  | some b =>
      cases b with
      | daemon => simp [Host.stored]
      | shm => by_cases hm : m = 0 <;> simp [Host.stored, XattrCodec.storedInode, hm]

theorem real_kind_eq (old mode : UInt32) (real : Prop) [Decidable real] :
    (if real then composeMode old mode else old) &&& sIfmt = old &&& sIfmt := by
  split
  · exact composeMode_and_sIfmt old mode
  · rfl

theorem kind_eq (b : Option Backing) (old mode : UInt32) (real : Prop) [Decidable real] :
    ((if b = some .shm ∧ composeMode old mode = 0 then none else some (composeMode old mode)).getD
        (if real then composeMode old mode else old)) &&& sIfmt = old &&& sIfmt := by
  split
  · exact real_kind_eq old mode real
  · exact composeMode_and_sIfmt old mode

theorem table_of_not_binds {x : Host n} {key : InodeKey} (h : ¬ x.Binds b codec key) :
    x.table b codec key = none := by
  cases b with
  | none => exact absurd trivial h
  | some b =>
      cases b with
      | daemon => exact absurd trivial h
      | shm => exact not_not.mp (not_or.mp h).1

def after (call : ChmodCall) (k : UnixState) (mode : UInt32) (st : Stat) (nlink : UInt64) : Stat :=
  { st with
    mode := if call.ChangesReal k mode st then composeMode st.mode mode else st.mode
    nlink := nlink }

section Compares

variable {call : ChmodCall} {k : UnixState} {mode : UInt32} {x y : Host n} {st : Stat}
  {nlink : UInt64} {written : FakeInode}

end Compares

end ChmodCall

end Pseudoroot
