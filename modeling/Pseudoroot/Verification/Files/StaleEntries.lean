import Pseudoroot.Library.Runs
import Pseudoroot.Verification.Files.Mknod

/-! # Entries of freed inodes -/

namespace Pseudoroot

open Calls Calls.Program FileSystem

/-! ## What a removal does to the entry of the inode that it frees -/

namespace RemovalCall

/-- The hook of the call finds the inode `j`: it is no symbolic link, the file system
reports at most one link for it if it is a directory, and the old path of a rename does not
lead to it. -/
def Tracks (call : RemovalCall) (k : UnixState) (j : UInt64) : Prop :=
  k.tree.isSymlink j = false ∧ (k.tree.isDir j = true → k.dirLinks k.tree j ≤ 1) ∧
    (call.renamed unixKernel k).map keyFromStat ≠ some (k.dev, j)

/-- What is found by following links is no link, so that the entry of a link is kept. -/
theorem dropFound_fstatat_of_isSymlink {k : UnixState} {j : UInt64}
    (hlink : k.tree.isSymlink j = true) (dirfd : Int32) (bytes : List UInt8)
    (renamed : Option Stat) (table : InodeKey → Option FakeInode) :
    dropFound (k.fstatat dirfd bytes 0) renamed table (k.dev, j) = table (k.dev, j) := by
  cases hstat : k.fstatat dirfd bytes 0 with
  | error e => rfl
  | ok st =>
      obtain ⟨i, hi, hst⟩ := UnixState.fstatat_eq_ok_iff.mp hstat
      obtain ⟨-, hkey, -⟩ := UnixState.statInode_eq_ok hst
      obtain ⟨base, parsed, -, hi⟩ := UnixState.resolve_eq_ok_iff.mp hi
      have hij : j ≠ i := by
        rintro rfl
        rw [Tree.isSymlink_eq_false_of_resolve hi] at hlink
        cases hlink
      simp only [dropFound, hkey]
      split
      · exact Function.update_of_ne (by simp [hij]) _ _
      · rfl

/-- The hook of a call that frees an inode drops its entry exactly when it finds it. -/
theorem dropFound_of_frees {k : UnixState} {call : RemovalCall} {j : UInt64}
    (h : k.tree.Frees (call.real unixKernel k).2.tree j) (table : InodeKey → Option FakeInode) :
    dropFound (call.target unixKernel k) (call.renamed unixKernel k) table (k.dev, j) = none ↔
      table (k.dev, j) = none ∨ call.Tracks k j := by
  obtain ⟨htarget, htakes⟩ := target_of_frees h
  have hname : k.resolve false call.place.1 (call.place.2.getD []) = .ok j := htakes.names
  have hlast := htakes.lastName
  rw [htarget]
  generalize call.place.1 = dirfd, call.place.2.getD [] = bytes at hname
  cases hlink : k.tree.isSymlink j with
  | true =>
      rw [dropFound_fstatat_of_isSymlink hlink]
      simp [Tracks, hlink]
  | false =>
      obtain ⟨base, parsed, hlocated, hname⟩ := UnixState.resolve_eq_ok_iff.mp hname
      have hfollow : k.resolve true dirfd bytes = .ok j :=
        UnixState.resolve_eq_ok_iff.mpr ⟨base, parsed, hlocated, Tree.resolve_follow hname hlink⟩
      obtain ⟨st, hst⟩ := UnixState.exists_statInode h.1
      obtain ⟨-, hkey, hlinks⟩ := UnixState.statInode_eq_ok hst
      have hstat := UnixState.fstatat_eq_ok_iff.mpr ⟨j, hfollow, hst⟩
      have hcount := UnixState.reportedLinks_le_one_iff hlast
      rw [← hlinks] at hcount
      simp only [dropFound, hstat, hkey, Tracks, hlink, hcount, true_and]
      split
      · rename_i hdrop
        exact ⟨fun _ => Or.inr hdrop, fun _ => Function.update_self ..⟩
      · rename_i hkeep
        exact ⟨Or.inl, fun h => h.resolve_right hkeep⟩

end RemovalCall

/-! ## Runs of one process -/

inductive FileCall where
  | creat (path : CStr) (mode : UInt32)
  | mkdir (path : CStr) (mode : UInt32)
  | symlink (target path : CStr)
  | link (oldpath newpath : CStr)
  | chown (source : StatSource) (uid gid : UInt32)
  | chmod (source : StatSource) (mode : UInt32)
  | mknod (path : CStr) (mode : UInt32) (dev : UInt64)
  | setxattr (source : StatSource) (name value : CStr)
  | remove (removal : RemovalCall)

/-- The calls that are not intercepted change the kernel alone. -/
def FileCall.hook (w : Wincode) (k : UnixState) : FileCall → Hook UnixState
  | creat path mode => pure (k.creat path mode).2
  | mkdir path mode => pure (k.mkdir path mode).2
  | symlink target path => pure (k.symlink target path).2
  | link oldpath newpath => pure (k.link oldpath newpath).2
  | chown source uid gid => do
      let _ ← Ownership.recordChown w unixKernel k source uid gid
      pure k
  | chmod source mode => do
      let (_, k) ← Ownership.recordChmod w unixKernel k source mode
      pure k
  | mknod path mode dev => do
      let (_, k) ← Pseudoroot.mknod w unixKernel k path mode dev
      pure k
  | setxattr source name value => do
      let _ ← Ownership.fakeSetxattr w unixKernel k source name value
      pure k
  | remove removal => do
      let (_, k) ← removal.hook w unixKernel k
      pure k

structure FileRun (n : ℕ) where
  kernel : UnixState
  host : Host n

namespace FileRun

variable {n : ℕ} [NeZero n]

def withEnv (c : FileRun n) (env : Environment) : FileRun n :=
  { c with kernel := { c.kernel with env := env } }

/-- A call in an environment, which can be any. -/
def step (w : Wincode) (codec : XattrCodec) (c : FileRun n) (e : Environment × FileCall) :
    FileRun n :=
  let after := exec (Session.handle w codec) (e.2.hook w (c.withEnv e.1).kernel) c.host.1 c.host.2
  ⟨after.1.1, after.1.2, after.2⟩

/-- Every entry is that of an inode in use. -/
def NoStale (b : Option Backing) (codec : XattrCodec) (c : FileRun n) : Prop :=
  ∀ key, c.host.table b codec key ≠ none → c.kernel.InUse key

/-- Every inode that a removal frees has no entry or is found by the hook. -/
def TracksFreed (b : Option Backing) (codec : XattrCodec) (c : FileRun n) :
    Environment × FileCall → Prop
  | (env, .remove removal) =>
    let k := (c.withEnv env).kernel
    ∀ j, k.tree.Frees (removal.real unixKernel k).2.tree j →
      c.host.table b codec (k.dev, j) = none ∨ removal.Tracks k j
  | _ => True

end FileRun

/-! ## Calls that free nothing -/

section Exec

variable {n : ℕ} [NeZero n] {w : Wincode} (hw : w.Lawful) {codec : XattrCodec}
  {b : Option Backing} {p : Process} {s : Session n} {k : UnixState}

/-- From one state to another inodes in use stay so, and new entries are of inodes in use. -/
structure KeepsEntries (b : Option Backing) (codec : XattrCodec) (k k' : UnixState)
    (x y : Host n) : Prop where
  uses : y.Uses b codec
  grows : k.Grows k'
  inUse : ∀ key, y.table b codec key ≠ none → x.table b codec key ≠ none ∨ k'.InUse key

theorem KeepsEntries.of_table_eq {k' : UnixState} {x y : Host n} (hgrows : k.Grows k')
    (huses : y.Uses b codec) (htable : y.table b codec = x.table b codec) :
    KeepsEntries b codec k k' x y :=
  ⟨huses, hgrows, fun _ hentry => Or.inl (htable ▸ hentry)⟩

theorem KeepsEntries.of_sets {k' : UnixState} {x y : Host n} (hgrows : k.Grows k')
    (huses : y.Uses b codec) {found : Option InodeKey} {W : InodeKey → FakeInode → Prop}
    (h : Host.Sets b codec found W x y) (hfound : ∀ key, found = some key → k'.InUse key) :
    KeepsEntries b codec k k' x y := by
  rcases h with ⟨htable, -⟩ | ⟨key, inode, hkey, -, -, htable⟩
  · exact .of_table_eq hgrows huses htable
  · refine ⟨huses, hgrows, fun key' hentry => ?_⟩
    by_cases heq : key' = key
    · exact Or.inr (heq ▸ hfound key hkey)
    · rw [htable, Function.update_of_ne heq] at hentry
      exact Or.inl hentry

end Exec

namespace FileRun

section Steps

variable {n : ℕ} [NeZero n] {w : Wincode} (hw : w.Lawful) {codec : XattrCodec}
  {b : Option Backing} {c : FileRun n}

theorem NoStale.of_keeps {k' : UnixState} {y : Host n} (hc : c.NoStale b codec)
    (h : KeepsEntries b codec c.kernel k' c.host y) : NoStale b codec ⟨k', y⟩ := by
  intro key hentry
  rcases h.inUse key hentry with hold | hnew
  · exact h.grows.inUse (hc key hold)
  · exact hnew

include hw

theorem exec_hook_of_not_remove {p : Process} {s : Session n} (k : UnixState)
    (h : Host.Uses b codec (p, s)) {call : FileCall} (hcall : ∀ removal, call ≠ .remove removal) :
    ∃ k' p' s', exec (Session.handle w codec) (call.hook w k) p s = ((k', p'), s') ∧
      KeepsEntries b codec k k' (p, s) (p', s') := by
  cases call with
  | creat path mode => exact ⟨_, p, s, rfl, .of_table_eq (UnixState.grows_creat path mode) h rfl⟩
  | mkdir path mode => exact ⟨_, p, s, rfl, .of_table_eq (UnixState.grows_mkdir path mode) h rfl⟩
  | symlink target path =>
      exact ⟨_, p, s, rfl, .of_table_eq (UnixState.grows_symlink target path) h rfl⟩
  | link oldpath newpath =>
      exact ⟨_, p, s, rfl, .of_table_eq (UnixState.grows_link oldpath newpath) h rfl⟩
  | chown source uid gid =>
      obtain ⟨r, p', s', hexec, huses, hsets⟩ := exec_recordChown hw (k := k) h source uid gid
      exact ⟨k, p', s', by simp [FileCall.hook, hexec],
        .of_sets (.refl k) huses hsets fun _ hkey => source.inUse_of_key hkey⟩
  | chmod source mode =>
      obtain ⟨r, k', p', s', hexec, hk', huses, hsets⟩ := exec_recordChmod hw (k := k) h source mode
      have hgrows : k.Grows k' := by
        rcases hk' with rfl | rfl
        · exact .refl _
        · exact UnixState.grows_chmod source mode
      exact ⟨k', p', s', by simp [FileCall.hook, hexec],
        .of_sets hgrows huses hsets fun _ hkey => hgrows.inUse (source.inUse_of_key hkey)⟩
  | mknod path mode dev =>
      obtain ⟨r, k', p', s', hexec, hdoes, huses, hsets⟩ :=
        MknodCall.exec_hook hw (k := k) h mode dev (.mknod path)
      have hmknod : exec (Session.handle w codec) (Pseudoroot.mknod w unixKernel k path mode dev)
          p s = (((r, k'), p'), s') := hexec
      refine ⟨k', p', s', by simp [FileCall.hook, hmknod],
        .of_sets hdoes.grows huses hsets fun key hkey => ?_⟩
      obtain ⟨i, hi, rfl⟩ := Option.map_eq_some_iff.mp hkey
      exact hdoes.inUse hi
  | setxattr source name value =>
      obtain ⟨r, p', s', hexec, huses, hsets⟩ := exec_fakeSetxattr hw (k := k) h source name value
      refine ⟨k, p', s', by simp [FileCall.hook, hexec],
        .of_sets (.refl k) huses hsets fun key hkey => ?_⟩
      obtain ⟨_, -, hkey⟩ := Option.bind_eq_some_iff.mp hkey
      exact source.inUse_of_key hkey
  | remove removal => exact absurd rfl (hcall removal)

theorem step_of_not_remove (hc : c.host.Uses b codec) (env : Environment) {call : FileCall}
    (hcall : ∀ removal, call ≠ .remove removal) :
    ∃ k' y, step w codec c (env, call) = ⟨k', y⟩ ∧
      KeepsEntries b codec (c.withEnv env).kernel k' c.host y := by
  obtain ⟨k', p', s', hexec, hkeeps⟩ :=
    exec_hook_of_not_remove hw (c.withEnv env).kernel hc hcall
  exact ⟨k', (p', s'), by simp [step, hexec], hkeeps⟩

theorem step_remove (hc : c.host.Uses b codec) (env : Environment) (removal : RemovalCall) :
    ∃ y, step w codec c (env, .remove removal) =
        ⟨(removal.real unixKernel (c.withEnv env).kernel).2, y⟩ ∧
      y.Uses b codec ∧
      y.table b codec = dropFound (removal.target unixKernel (c.withEnv env).kernel)
        (removal.renamed unixKernel (c.withEnv env).kernel) (c.host.table b codec) := by
  obtain ⟨p', s', hexec, hserves, htable⟩ :=
    RemovalCall.exec_hook hw unixKernel (c.withEnv env).kernel hc removal
  exact ⟨(p', s'), by simp [step, FileCall.hook, hexec], hserves.uses, htable⟩

theorem uses_step (hc : c.host.Uses b codec) (e : Environment × FileCall) :
    (step w codec c e).host.Uses b codec := by
  obtain ⟨env, call⟩ := e
  by_cases hcall : ∃ removal, call = .remove removal
  · obtain ⟨removal, rfl⟩ := hcall
    obtain ⟨y, hstep, huses, -⟩ := step_remove hw hc env removal
    rw [hstep]
    exact huses
  · obtain ⟨k', y, hstep, hkeeps⟩ :=
      step_of_not_remove hw hc env fun removal h => hcall ⟨removal, h⟩
    rw [hstep]
    exact hkeeps.uses

/-- A removal leads to a state without stale entries exactly when its hook finds what has
an entry and is freed. -/
theorem noStale_remove_iff (hc : c.host.Uses b codec) (hstale : c.NoStale b codec)
    (env : Environment) (removal : RemovalCall) :
    (step w codec c (env, .remove removal)).NoStale b codec ↔
      c.TracksFreed b codec (env, .remove removal) := by
  obtain ⟨y, hstep, -, htable⟩ := step_remove hw hc env removal
  rw [hstep]
  constructor
  · intro hnext j hfrees
    rw [← RemovalCall.dropFound_of_frees hfrees, ← htable]
    by_contra hentry
    exact hfrees.2 (hnext _ hentry).2
  · intro htracks key hentry
    have hentry' : dropFound _ _ (c.host.table b codec) key ≠ none := htable ▸ hentry
    obtain ⟨hdev, hmem⟩ := hstale key (ne_none_of_dropFound hentry')
    refine ⟨hdev.trans (RemovalCall.dev_real (k := (c.withEnv env).kernel)).symm, ?_⟩
    by_contra hfreed
    have hkey : key = ((c.withEnv env).kernel.dev, key.2) := Prod.ext hdev rfl
    have hfrees : (c.withEnv env).kernel.tree.Frees
        (removal.real unixKernel (c.withEnv env).kernel).2.tree key.2 := ⟨hmem, hfreed⟩
    have hdropped := (RemovalCall.dropFound_of_frees hfrees _).mpr (htracks key.2 hfrees)
    rw [← hkey] at hdropped
    exact hentry' hdropped

theorem noStale_step_iff (hc : c.host.Uses b codec) (hstale : c.NoStale b codec)
    (e : Environment × FileCall) :
    (step w codec c e).NoStale b codec ↔ c.TracksFreed b codec e := by
  obtain ⟨env, call⟩ := e
  by_cases hcall : ∃ removal, call = .remove removal
  · obtain ⟨removal, rfl⟩ := hcall
    exact noStale_remove_iff hw hc hstale env removal
  · have hnot : ∀ removal, call ≠ .remove removal := fun removal h => hcall ⟨removal, h⟩
    obtain ⟨k', y, hstep, hkeeps⟩ := step_of_not_remove hw hc env hnot
    have hnext : NoStale b codec ⟨k', y⟩ := NoStale.of_keeps (c := c.withEnv env) hstale hkeeps
    rw [hstep]
    refine ⟨fun _ => ?_, fun _ => hnext⟩
    cases call with
    | remove removal => exact absurd rfl (hnot removal)
    | _ => trivial

end Steps

/-- For a process that starts with an empty table, all entries are of inodes in use
throughout a run exactly when every inode that a step frees has no entry or is found by the
hook. -/
theorem noStale_iff_tracksFreed {n : ℕ} [NeZero n] {w : Wincode} (hw : w.Lawful)
    {codec : XattrCodec} (b : Option Backing) (c : FileRun n) (hc : c.host.Uses b codec)
    (hempty : ∀ key, c.host.table b codec key = none) (events : List (Environment × FileCall)) :
    (∀ i ≤ events.length, (Machine.run (step w codec) c (events.take i)).NoStale b codec) ↔
      ∀ i (hi : i < events.length),
        (Machine.run (step w codec) c (events.take i)).TracksFreed b codec events[i] :=
  Machine.forall_good_iff_forall_guard
    (I := fun c : FileRun n => c.host.Uses b codec) (G := fun c => c.NoStale b codec)
    (fun _ e hc => uses_step hw hc e) (fun _ e hc hstale => noStale_step_iff hw hc hstale e) hc
    (fun key hentry => absurd (hempty key) hentry) events

def initial : FileRun 1 where
  kernel := UnixState.empty
  host := (Process.withoutSession 0 0, Session.start 1 0 0)

theorem uses_initial : initial.host.Uses none XattrCodec.wincode :=
  ⟨trivial, Or.inr (Process.alone_withoutSession 0 0)⟩

theorem uses_run (events : List (Environment × FileCall)) :
    (Machine.run (step Wincode.bincode XattrCodec.wincode) initial events).host.Uses none
      XattrCodec.wincode :=
  Machine.run_invariant (I := fun c : FileRun 1 => c.host.Uses none XattrCodec.wincode)
    (fun _ e h => uses_step Wincode.bincode_lawful h e) uses_initial events

/-- A regular file is chowned and unlinked. -/
theorem noStale_iff_tracksFreed_unlink :
    let env := UnixState.empty.env
    let file : CStr := some [102]
    let events : List (Environment × FileCall) :=
      [(env, .creat file 0o644), (env, .chown (.path file false) 200 200),
        (env, .remove (.unlink file))]
    (∀ i ≤ events.length, (Machine.run (step Wincode.bincode XattrCodec.wincode) initial
        (events.take i)).NoStale none XattrCodec.wincode) ↔
      ∀ i (hi : i < events.length),
        (Machine.run (step Wincode.bincode XattrCodec.wincode) initial
          (events.take i)).TracksFreed none XattrCodec.wincode events[i] :=
  noStale_iff_tracksFreed Wincode.bincode_lawful none initial uses_initial (fun _ => rfl) _

/-- A directory is chowned and removed. A new file gets its number, and its owner. -/
theorem rmdir_leaves_entry :
    let env := UnixState.empty.env
    let dir : CStr := some [100]
    let events : List (Environment × FileCall) :=
      [(env, .mkdir dir 0o755), (env, .chown (.path dir false) 200 200),
        (env, .remove (.rmdir dir)), (env, .creat (some [102]) 0o644)]
    let removed := Machine.run (step Wincode.bincode XattrCodec.wincode) initial (events.take 3)
    let c := Machine.run (step Wincode.bincode XattrCodec.wincode) initial events
    ¬ removed.kernel.InUse (1, 2) ∧
      removed.host.table none XattrCodec.wincode (1, 2) = some (FakeInode.new 200 200) ∧
      (c.kernel.statInode 2).toOption.map (fun st =>
        (exec (Session.handle Wincode.bincode XattrCodec.wincode)
          (modifyStatBuf Wincode.bincode st) c.host.1 c.host.2).1.1.uid) = some 200 ∧
      c.host.1.globalState.currentUid = 0 := by
  decide +kernel

end FileRun

end Pseudoroot
