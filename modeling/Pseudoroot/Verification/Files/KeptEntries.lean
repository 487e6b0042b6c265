import Pseudoroot.Verification.Files.StaleEntries

/-! # Entries of the files that stay

A removal or a rename should drop the entry of the inode that it frees, and no other. -/

namespace Pseudoroot

open Calls Calls.Program

/-! ## The entry that a hook drops -/

/-- The entry of this key is dropped: its file was found, reports one link at most and is
not renamed itself. -/
def DropsKey (found : Except Int32 Stat) (renamed : Option Stat) (key : InodeKey) : Prop :=
  ∃ st, found = .ok st ∧ keyFromStat st = key ∧ st.nlink ≤ 1 ∧ renamed.map keyFromStat ≠ some key

theorem dropFound_of_dropsKey {found : Except Int32 Stat} {renamed : Option Stat}
    {key : InodeKey} (h : DropsKey found renamed key) (table : InodeKey → Option FakeInode) :
    dropFound found renamed table key = none := by
  obtain ⟨st, rfl, rfl, hlink, hrenamed⟩ := h
  rw [dropFound, if_pos ⟨hlink, hrenamed⟩, Function.update_self]

theorem dropFound_of_not_dropsKey {found : Except Int32 Stat} {renamed : Option Stat}
    {key : InodeKey} (h : ¬ DropsKey found renamed key) (table : InodeKey → Option FakeInode) :
    dropFound found renamed table key = table key := by
  cases found with
  | error e => rfl
  | ok st =>
      by_cases hdrop : st.nlink ≤ 1 ∧ renamed.map keyFromStat ≠ some (keyFromStat st)
      · have hne : key ≠ keyFromStat st := by
          rintro rfl
          exact h ⟨st, rfl, rfl, hdrop⟩
        rw [dropFound, if_pos hdrop, Function.update_of_ne hne]
      · rw [dropFound, if_neg hdrop]

namespace RemovalCall

/-- The hook drops the entry of this key: the path, with symbolic links followed, leads to
a file that reports one link at most, and the old path of a rename does not lead to it. -/
def Drops (call : RemovalCall) (k : UnixState) : InodeKey → Prop :=
  DropsKey (call.target unixKernel k) (call.renamed unixKernel k)

def Takes (call : RemovalCall) (k : UnixState) (key : InodeKey) : Prop :=
  key.1 = k.dev ∧ call.TakesLast k key.2

section Kernel

variable {k : UnixState} {call : RemovalCall} {key : InodeKey}

theorem inUse_of_drops (h : call.Drops k key) : k.InUse key := by
  obtain ⟨st, hfound, rfl, -⟩ := h
  cases call <;> exact UnixState.inUse_of_fstatat hfound

/-- What a successful call takes the last name of is no longer in use, and nothing else. -/
theorem takes_iff (hok : (call.real unixKernel k).1 = 0) :
    call.Takes k key ↔ k.InUse key ∧ ¬ (call.real unixKernel k).2.InUse key := by
  rw [Takes, ← frees_real_iff hok]
  constructor
  · rintro ⟨hdev, hmem, hfreed⟩
    exact ⟨⟨hdev, hmem⟩, fun h => hfreed h.2⟩
  · rintro ⟨⟨hdev, hmem⟩, hnot⟩
    exact ⟨hdev, hmem, fun h => hnot ⟨hdev.trans dev_real.symm, h⟩⟩

end Kernel

section Exec

variable {n : ℕ} [NeZero n] {w : Wincode} (hw : w.Lawful) {codec : XattrCodec}
  {b : Option Backing} {p : Process} {s : Session n} {k : UnixState}

include hw

/-- A hook drops the entry that it has to find, and leaves all others. -/
theorem table_after_hook (h : Host.Uses b codec (p, s)) (call : RemovalCall) (key : InodeKey) :
    let after := exec (Session.handle w codec) (call.hook w unixKernel k) p s
    (call.Drops k key → Host.table b codec (after.1.2, after.2) key = none) ∧
      (¬ call.Drops k key →
        Host.table b codec (after.1.2, after.2) key = Host.table b codec (p, s) key) := by
  intro after
  obtain ⟨p', s', hexec, -, htable⟩ := exec_hook hw unixKernel k h call
  simp only [after, hexec, htable]
  exact ⟨fun hdrops => dropFound_of_dropsKey hdrops _,
    fun hdrops => dropFound_of_not_dropsKey hdrops _⟩

/-- A successful call leaves the entries of all files that still have a name exactly when,
of the files with an entry, its hook drops none but that whose last name is taken. -/
theorem named_entries_kept_iff (h : Host.Uses b codec (p, s)) (call : RemovalCall)
    (hok : (call.real unixKernel k).1 = 0) :
    let after := exec (Session.handle w codec) (call.hook w unixKernel k) p s
    (∀ key, (call.real unixKernel k).2.InUse key →
        Host.table b codec (after.1.2, after.2) key = Host.table b codec (p, s) key) ↔
      ∀ key, Host.table b codec (p, s) key ≠ none → call.Drops k key → call.Takes k key := by
  intro after
  have htable := table_after_hook hw (k := k) h call
  constructor
  · intro hkeeps key hentry hdrops
    rw [takes_iff hok]
    refine ⟨inUse_of_drops hdrops, fun hinUse => hentry ?_⟩
    rw [← hkeeps key hinUse]
    exact (htable key).1 hdrops
  · intro hdropped key hinUse
    by_cases hdrops : call.Drops k key
    · by_contra hne
      have hentry : Host.table b codec (p, s) key ≠ none := by
        intro hnone
        exact hne (((htable key).1 hdrops).trans hnone.symm)
      exact ((takes_iff hok).mp (hdropped key hentry hdrops)).2 hinUse
    · exact (htable key).2 hdrops

/-- A successful call drops the entry of the file that it frees and leaves all others
exactly when, of the files with an entry, the hook drops that of the one whose last name is
taken. -/
theorem only_freed_cleared_iff (h : Host.Uses b codec (p, s)) (call : RemovalCall)
    (hok : (call.real unixKernel k).1 = 0) :
    let after := exec (Session.handle w codec) (call.hook w unixKernel k) p s
    (∀ key, Host.table b codec (after.1.2, after.2) key =
        if k.InUse key ∧ ¬ (call.real unixKernel k).2.InUse key then none
        else Host.table b codec (p, s) key) ↔
      ∀ key, Host.table b codec (p, s) key ≠ none → (call.Drops k key ↔ call.Takes k key) := by
  intro after
  have htable := table_after_hook hw (k := k) h call
  constructor
  · intro hclears key hentry
    have hkey := hclears key
    rw [takes_iff hok]
    constructor
    · intro hdrops
      by_contra hfreed
      rw [if_neg hfreed, (htable key).1 hdrops] at hkey
      exact hentry hkey.symm
    · intro hfreed
      by_contra hdrops
      rw [if_pos hfreed, (htable key).2 hdrops] at hkey
      exact hentry hkey
  · intro hdropped key
    by_cases hentry : Host.table b codec (p, s) key = none
    · have hnone : Host.table b codec (after.1.2, after.2) key = none := by
        by_cases hdrops : call.Drops k key
        · exact (htable key).1 hdrops
        · exact ((htable key).2 hdrops).trans hentry
      rw [hnone, hentry, ite_self]
    · have hiff := (hdropped key hentry).trans (takes_iff hok)
      by_cases hfreed : k.InUse key ∧ ¬ (call.real unixKernel k).2.InUse key
      · rw [if_pos hfreed]
        exact (htable key).1 (hiff.mpr hfreed)
      · rw [if_neg hfreed]
        exact (htable key).2 fun hdrops => hfreed (hiff.mp hdrops)

end Exec

/-- A file that is chowned and has a second name. -/
def twoNames : FileRun 1 :=
  let env := UnixState.empty.env
  Machine.run (FileRun.step Wincode.bincode XattrCodec.wincode) FileRun.initial
    [(env, .creat (some [102]) 0o644), (env, .chown (.path (some [102]) false) 200 200),
      (env, .link (some [102]) (some [103]))]

/-- One of its names is unlinked. -/
theorem named_entries_kept_iff_two_names :
    let call := unlink (some [102])
    let after := exec (Session.handle Wincode.bincode XattrCodec.wincode)
      (call.hook Wincode.bincode unixKernel twoNames.kernel) twoNames.host.1 twoNames.host.2
    twoNames.host.table none XattrCodec.wincode (1, 2) = some (FakeInode.new 200 200) ∧
      after.1.1.1 = 0 ∧ after.1.1.2.InUse (1, 2) ∧
      ∀ key, (call.real unixKernel twoNames.kernel).2.InUse key →
        Host.table none XattrCodec.wincode (after.1.2, after.2) key =
          twoNames.host.table none XattrCodec.wincode key := by
  have hfound : (unlink (some [102])).target unixKernel twoNames.kernel =
      .ok ⟨1, 2, 0o100644, 2, 0, 0, 0⟩ := by decide +kernel
  refine ⟨by decide +kernel, by decide +kernel, by decide +kernel, ?_⟩
  refine (named_entries_kept_iff Wincode.bincode_lawful (FileRun.uses_run _)
    (unlink (some [102])) (by decide +kernel)).mpr ?_
  rintro key - ⟨st, hst, -, hlink, -⟩
  rw [hfound] at hst
  injection hst with hst
  exact absurd (hst ▸ hlink) (by decide)

def twoFiles : FileRun 1 :=
  let env := UnixState.empty.env
  Machine.run (FileRun.step Wincode.bincode XattrCodec.wincode) FileRun.initial
    [(env, .creat (some [102]) 0o644), (env, .chown (.path (some [102]) false) 200 200),
      ({ env with fresh := 3 }, .creat (some [111]) 0o644),
      (env, .chown (.path (some [111]) false) 300 300)]

/-- One of them is renamed to the name of the other. -/
theorem only_freed_cleared_iff_replaced :
    let call := rename (some [111]) (some [102])
    let after := exec (Session.handle Wincode.bincode XattrCodec.wincode)
      (call.hook Wincode.bincode unixKernel twoFiles.kernel) twoFiles.host.1 twoFiles.host.2
    twoFiles.host.table none XattrCodec.wincode (1, 2) = some (FakeInode.new 200 200) ∧
      twoFiles.host.table none XattrCodec.wincode (1, 3) = some (FakeInode.new 300 300) ∧
      ¬ after.1.1.2.InUse (1, 2) ∧
      ∀ key, Host.table none XattrCodec.wincode (after.1.2, after.2) key =
        if twoFiles.kernel.InUse key ∧ ¬ (call.real unixKernel twoFiles.kernel).2.InUse key
        then none else twoFiles.host.table none XattrCodec.wincode key := by
  have hfound : (rename (some [111]) (some [102])).target unixKernel twoFiles.kernel =
      .ok ⟨1, 2, 0o100644, 1, 0, 0, 0⟩ := by decide +kernel
  have hdrops : (rename (some [111]) (some [102])).Drops twoFiles.kernel (1, 2) :=
    ⟨_, hfound, rfl, by decide, by decide +kernel⟩
  have hresolve : twoFiles.kernel.resolve false atFdcwd [102] = .ok 2 := by decide +kernel
  have htakes : (rename (some [111]) (some [102])).Takes twoFiles.kernel (1, 2) :=
    (takes_iff (by decide +kernel)).mpr (by decide +kernel)
  refine ⟨by decide +kernel, by decide +kernel, by decide +kernel, ?_⟩
  refine (only_freed_cleared_iff Wincode.bincode_lawful (FileRun.uses_run _)
    (rename (some [111]) (some [102])) (by decide +kernel)).mpr fun key _ => ?_
  constructor
  · rintro ⟨st, hst, rfl, -⟩
    rw [hfound] at hst
    injection hst with hst
    exact hst ▸ htakes
  · rintro ⟨hdev, hlast⟩
    have hino : key.2 = 2 := Except.ok.inj (hlast.names.symm.trans hresolve)
    have hkey : key = (1, 2) := Prod.ext hdev hino
    exact hkey ▸ hdrops

/-! ## Symbolic links -/

/-- A file is chowned. Unlinking a symbolic link to it drops its entry. -/
theorem entry_dropped_with_symlink :
    let env := UnixState.empty.env
    let file : CStr := some [102]
    let symlink : CStr := some [108]
    let events : List (Environment × FileCall) :=
      [(env, .creat file 0o644), (env, .chown (.path file false) 200 200),
        ({ env with fresh := 3 }, .symlink file symlink)]
    let c := Machine.run (FileRun.step Wincode.bincode XattrCodec.wincode) FileRun.initial events
    let after := exec (Session.handle Wincode.bincode XattrCodec.wincode)
      ((unlink symlink).hook Wincode.bincode unixKernel c.kernel) c.host.1 c.host.2
    after.1.1.1 = 0 ∧ after.1.1.2.InUse (1, 2) ∧
      c.host.table none XattrCodec.wincode (1, 2) = some (FakeInode.new 200 200) ∧
      Host.table none XattrCodec.wincode (after.1.2, after.2) (1, 2) = none := by
  decide +kernel

/-- The same when another file is renamed to the name of the symbolic link. -/
theorem entry_dropped_by_rename_over_symlink :
    let env := UnixState.empty.env
    let file : CStr := some [102]
    let symlink : CStr := some [108]
    let other : CStr := some [111]
    let events : List (Environment × FileCall) :=
      [(env, .creat file 0o644), (env, .chown (.path file false) 200 200),
        ({ env with fresh := 3 }, .symlink file symlink),
        ({ env with fresh := 4 }, .creat other 0o644)]
    let c := Machine.run (FileRun.step Wincode.bincode XattrCodec.wincode) FileRun.initial events
    let after := exec (Session.handle Wincode.bincode XattrCodec.wincode)
      ((rename other symlink).hook Wincode.bincode unixKernel c.kernel) c.host.1 c.host.2
    after.1.1.1 = 0 ∧ after.1.1.2.InUse (1, 2) ∧
      c.host.table none XattrCodec.wincode (1, 2) = some (FakeInode.new 200 200) ∧
      Host.table none XattrCodec.wincode (after.1.2, after.2) (1, 2) = none := by
  decide +kernel

end RemovalCall

end Pseudoroot
