import Pseudoroot.Model.Unix
import Pseudoroot.Verification.Files.Removal

/-! # What the calls do to the inodes in use -/

namespace Pseudoroot

open FileSystem

namespace UnixState

/-- The key is that of an inode in use. -/
def InUse (k : UnixState) (key : InodeKey) : Prop :=
  key.1 = k.dev ∧ key.2 ∈ k.tree.inodes

instance (k : UnixState) (key : InodeKey) : Decidable (k.InUse key) :=
  inferInstanceAs (Decidable (_ ∧ _))

/-- Every inode in use stays so. -/
structure Grows (k k' : UnixState) : Prop where
  dev_eq : k'.dev = k.dev
  mem_of_mem : ∀ j ∈ k.tree.inodes, j ∈ k'.tree.inodes

theorem Grows.refl (k : UnixState) : k.Grows k := ⟨rfl, fun _ h => h⟩

theorem Grows.inUse {k k' : UnixState} (h : k.Grows k') {key : InodeKey} (hkey : k.InUse key) :
    k'.InUse key :=
  ⟨hkey.1.trans h.dev_eq.symm, h.mem_of_mem _ hkey.2⟩

/-! ## Stat -/

variable {k : UnixState}

theorem statInode_eq_ok {i : UInt64} {st : Stat} (h : k.statInode i = .ok st) :
    i ∈ k.tree.inodes ∧ keyFromStat st = (k.dev, i) ∧ st.nlink = k.reportedLinks i := by
  unfold statInode at h
  cases hi : k.tree.inodes.lookup i with
  | none => rw [hi] at h; cases h
  | some node =>
      rw [hi] at h
      injection h with h
      subst h
      exact ⟨by rw [← AList.lookup_isSome, hi]; rfl, rfl, rfl⟩

theorem exists_statInode {i : UInt64} (h : i ∈ k.tree.inodes) : ∃ st, k.statInode i = .ok st := by
  obtain ⟨node, hi⟩ := Option.isSome_iff_exists.mp (AList.lookup_isSome.mpr h)
  exact ⟨_, by rw [statInode, hi]⟩

/-- A stat reports an inode by its number. -/
theorem statInode_of_fstatat {dirfd : Int32} {path : List UInt8} {flags : Int32} {st : Stat}
    (h : k.fstatat dirfd path flags = .ok st) : k.statInode st.ino = .ok st := by
  have hino : ∀ i, k.statInode i = .ok st → k.statInode st.ino = .ok st := by
    intro i hi
    obtain ⟨-, hkey, -⟩ := statInode_eq_ok hi
    rwa [show st.ino = i from congrArg Prod.snd hkey]
  unfold fstatat at h
  split at h
  · cases hfd : k.descriptor dirfd with
    | none => rw [hfd] at h; cases h
    | some i => rw [hfd] at h; exact hino i h
  · split at h
    · rename_i i _
      exact hino i h
    · cases h

theorem statInode_of_stat {source : StatSource} {st : Stat}
    (h : source.stat unixKernel k = .ok st) : k.statInode st.ino = .ok st := by
  cases source with
  | path path nofollow => cases nofollow <;> exact statInode_of_fstatat h
  | fd fd =>
      cases hfd : k.env.fds fd with
      | none => simp [StatSource.stat, Kernel.fstatFd, unixKernel, hfd] at h
      | some i =>
          have hi : k.statInode i = .ok st := by
            simpa [StatSource.stat, Kernel.fstatFd, unixKernel, hfd] using h
          obtain ⟨-, hkey, -⟩ := statInode_eq_ok hi
          rwa [show st.ino = i from congrArg Prod.snd hkey]
  | atDir dirfd path flags => exact statInode_of_fstatat h

theorem statInode_error {i : UInt64} {e : Int32} (h : k.statInode i = .error e) : e = failure := by
  unfold statInode at h
  split at h
  · injection h with h
    exact h.symm
  · cases h

theorem elim_statInode_error {found : Option UInt64} {e : Int32}
    (h : found.elim (.error failure) k.statInode = .error e) : e = failure := by
  cases found with
  | none =>
      injection h with h
      exact h.symm
  | some i => exact statInode_error h

theorem fstatat_error {dirfd : Int32} {path : List UInt8} {flags e : Int32}
    (h : k.fstatat dirfd path flags = .error e) : e = failure := by
  unfold fstatat at h
  split at h
  · exact elim_statInode_error h
  · split at h
    · exact statInode_error h
    · injection h with h
      exact h.symm

/-- A stat that finds nothing returns -1. -/
theorem stat_error {source : StatSource} {e : Int32} (h : source.stat unixKernel k = .error e) :
    e = failure := by
  cases source with
  | path path nofollow => cases nofollow <;> exact fstatat_error h
  | fd fd => exact elim_statInode_error h
  | atDir dirfd path flags => exact fstatat_error h

theorem inUse_of_statInode {st : Stat} (h : k.statInode st.ino = .ok st) :
    k.InUse (keyFromStat st) := by
  obtain ⟨hmem, hkey, -⟩ := statInode_eq_ok h
  rw [hkey]
  exact ⟨rfl, hmem⟩

/-- A stat finds an inode in use. -/
theorem inUse_of_fstatat {dirfd : Int32} {path : List UInt8} {flags : Int32} {st : Stat}
    (h : k.fstatat dirfd path flags = .ok st) : k.InUse (keyFromStat st) :=
  inUse_of_statInode (statInode_of_fstatat h)

theorem inUse_of_stat {source : StatSource} {st : Stat} (h : source.stat unixKernel k = .ok st) :
    k.InUse (keyFromStat st) :=
  inUse_of_statInode (statInode_of_stat h)

/-! ## Calls that free no inode -/

theorem grows_finish {refused : Bool} {result : Except Error FileTree}
    (h : ∀ t, result = .ok t → ∀ j ∈ k.tree.inodes, j ∈ t.inodes) :
    k.Grows (k.finish refused result).2 := by
  unfold finish
  split
  · rename_i tree
    exact ⟨rfl, h tree rfl⟩
  · exact .refl k

theorem atPath_eq_ok {α : Type} {dirfd : Int32} {path : CStr}
    {op : UInt64 → Path (List UInt8) → Except Error α} {a : α}
    (h : k.atPath dirfd path op = .ok a) :
    ∃ bytes base parsed, path = some bytes ∧ k.located dirfd bytes = .ok (base, parsed) ∧
      op base parsed = .ok a := by
  cases path with
  | none => cases h
  | some bytes =>
      obtain ⟨⟨base, parsed⟩, hlocated, hop⟩ := Tree.bind_eq_ok h
      exact ⟨bytes, base, parsed, rfl, hlocated, hop⟩

theorem grows_onPath {dirfd : Int32} {path : CStr}
    {op : UInt64 → Path (List UInt8) → Except Error FileTree}
    (h : ∀ base path t, op base path = .ok t → ∀ j ∈ k.tree.inodes, j ∈ t.inodes) :
    k.Grows (k.onPath dirfd path op).2 := by
  refine grows_finish fun t ht => ?_
  obtain ⟨bytes, base, parsed, -, -, hop⟩ := atPath_eq_ok ht
  exact h base parsed t hop

theorem grows_creat (path : CStr) (mode : UInt32) : k.Grows (k.creat path mode).2 := by
  refine grows_finish fun t ht j hj => ?_
  obtain ⟨bytes, base, parsed, -, -, hop⟩ := atPath_eq_ok ht
  obtain ⟨-, -, hop⟩ := Tree.bind_eq_ok hop
  exact Tree.mem_of_mem_openCreate hop hj

theorem grows_mkdir (path : CStr) (mode : UInt32) : k.Grows (k.mkdir path mode).2 :=
  grows_onPath fun _ _ _ hop _ hj => Tree.mem_of_mem_create hop hj

theorem grows_mknodat (dirfd : Int32) (path : CStr) (mode : UInt32) (dev : UInt64) :
    k.Grows (k.mknodat dirfd path mode dev).2 := by
  refine grows_onPath fun base path t hop j hj => ?_
  obtain ⟨mode, -, hop⟩ := Tree.bind_eq_ok hop
  exact Tree.mem_of_mem_create hop hj

theorem grows_symlink (target path : CStr) : k.Grows (k.symlink target path).2 := by
  refine grows_onPath fun base path t hop j hj => ?_
  split at hop
  · exact Tree.mem_of_mem_create hop hj
  · cases hop

theorem grows_link (oldpath newpath : CStr) : k.Grows (k.link oldpath newpath).2 := by
  refine grows_onPath fun base path t hop j hj => ?_
  obtain ⟨bytes, base', parsed, -, -, hop⟩ := atPath_eq_ok hop
  exact Tree.mem_of_mem_link hop hj

theorem grows_chmod (source : StatSource) (mode : UInt32) : k.Grows (k.chmod source mode).2 := by
  refine grows_finish fun t ht j hj => ?_
  obtain ⟨i, -, hi⟩ := Tree.bind_eq_ok ((map_eq_pure_bind _ _).symm.trans ht)
  injection hi with hi
  rw [← hi, Tree.setAttrs, Tree.mem_modify]
  exact hj

/-! ## Freed inodes -/

theorem dev_finish {refused : Bool} {result : Except Error FileTree} :
    (k.finish refused result).2.dev = k.dev := by
  unfold finish
  split <;> rfl

/-- A call fails without an effect, or does what its operation does. -/
theorem finish_cases (k : UnixState) (refused : Bool) (result : Except Error FileTree) :
    k.finish refused result = (failure, k) ∨
      ∃ t, result = .ok t ∧ k.finish refused result = (0, { k with tree := t }) := by
  unfold finish
  split
  · exact Or.inr ⟨_, rfl, rfl⟩
  · exact Or.inl rfl

theorem failure_ne_zero : failure ≠ 0 := by decide

theorem snd_finish_of_ne {refused : Bool} {result : Except Error FileTree}
    (h : (k.finish refused result).1 ≠ 0) : (k.finish refused result).2 = k := by
  rcases k.finish_cases refused result with hfail | ⟨t, -, hok⟩
  · rw [hfail]
  · rw [hok] at h
    exact absurd rfl h

theorem exists_of_onPath {dirfd : Int32} {path : CStr}
    {op : UInt64 → Path (List UInt8) → Except Error FileTree}
    (hok : (k.onPath dirfd path op).1 = 0) :
    ∃ bytes base parsed t, path = some bytes ∧ k.located dirfd bytes = .ok (base, parsed) ∧
      op base parsed = .ok t ∧ (k.onPath dirfd path op).2 = { k with tree := t } := by
  rcases k.finish_cases k.env.refused (k.atPath dirfd path op) with hfail | ⟨t, ht, heq⟩
  · rw [onPath, hfail] at hok
    exact absurd hok failure_ne_zero
  · obtain ⟨bytes, base, parsed, hpath, hlocated, hop⟩ := atPath_eq_ok ht
    exact ⟨bytes, base, parsed, t, hpath, hlocated, hop, by rw [onPath, heq]⟩

theorem exists_of_onPaths {olddirfd newdirfd : Int32} {oldpath newpath : CStr}
    {op : UInt64 → Path (List UInt8) → UInt64 → Path (List UInt8) → Except Error FileTree}
    (hok : (k.onPaths olddirfd oldpath newdirfd newpath op).1 = 0) :
    ∃ old oldBase oldParsed new newBase newParsed t, oldpath = some old ∧ newpath = some new ∧
      k.located olddirfd old = .ok (oldBase, oldParsed) ∧
      k.located newdirfd new = .ok (newBase, newParsed) ∧
      op oldBase oldParsed newBase newParsed = .ok t ∧
      (k.onPaths olddirfd oldpath newdirfd newpath op).2 = { k with tree := t } := by
  obtain ⟨old, oldBase, oldParsed, t, hold, holdBase, hop, heq⟩ := exists_of_onPath hok
  obtain ⟨new, newBase, newParsed, hnew, hnewBase, hop⟩ := atPath_eq_ok hop
  exact ⟨old, oldBase, oldParsed, new, newBase, newParsed, t, hold, hnew, holdBase, hnewBase, hop,
    heq⟩

/-- An inode with one name has at most one link by what is reported, unless it is a
directory. -/
theorem reportedLinks_le_one_iff {j : UInt64} (h : k.tree.lastName j = true) :
    k.reportedLinks j ≤ 1 ↔ (k.tree.isDir j = true → k.dirLinks k.tree j ≤ 1) := by
  unfold reportedLinks
  cases hdir : k.tree.isDir j with
  | true => simp
  | false =>
      obtain ⟨node, hlookup, hlink⟩ :
          ∃ node, k.tree.inodes.lookup j = some node ∧ node.nlink ≤ 1 := by
        simpa [Tree.lastName, hdir, Option.any_eq_true] using h
      have hle : UInt64.ofNat node.nlink ≤ 1 := by
        obtain hzero | hone : node.nlink = 0 ∨ node.nlink = 1 := by omega
        · rw [hzero]; decide
        · rw [hone]; decide
      rw [hlookup]
      simpa using hle

theorem resolve_eq_ok_iff {follow : Bool} {dirfd : Int32} {path : List UInt8} {i : UInt64} :
    k.resolve follow dirfd path = .ok i ↔
      ∃ base parsed, k.located dirfd path = .ok (base, parsed) ∧
        k.tree.resolve k.env.search follow base parsed = .ok i := by
  constructor
  · intro h
    obtain ⟨⟨base, parsed⟩, hlocated, hi⟩ := Tree.bind_eq_ok h
    exact ⟨base, parsed, hlocated, hi⟩
  · rintro ⟨base, parsed, hlocated, hi⟩
    rw [resolve, atPath, hlocated]
    exact hi

/-- What a path names, when a symbolic link at its end is not followed. -/
def Names (k : UnixState) (place : Int32 × CStr) (i : UInt64) : Prop :=
  k.resolve false place.1 (place.2.getD []) = .ok i

theorem path_eq_of_located_nil {dirfd : Int32} {base : UInt64} {parsed : Path (List UInt8)}
    (h : k.located dirfd [] = .ok (base, parsed)) : parsed = parsePath [] := by
  obtain ⟨⟨fd, bytes⟩, hlocate, h⟩ := Tree.bind_eq_ok h
  obtain ⟨base', -, h⟩ := Tree.bind_eq_ok h
  injection hlocate with hlocate
  injection h with h
  obtain ⟨-, rfl⟩ := Prod.mk.inj hlocate
  exact (Prod.mk.inj h).2.symm

theorem resolve_eq {follow : Bool} {dirfd : Int32} {bytes : List UInt8} {base : UInt64}
    {parsed : Path (List UInt8)} (hlocated : k.located dirfd bytes = .ok (base, parsed)) :
    k.resolve follow dirfd bytes = k.tree.resolve k.env.search follow base parsed := by
  rw [resolve, atPath, hlocated]
  rfl

theorem names_iff {dirfd : Int32} {bytes : List UInt8} {base i : UInt64}
    {parsed : Path (List UInt8)} (hlocated : k.located dirfd bytes = .ok (base, parsed)) :
    k.Names (dirfd, some bytes) i ↔ k.tree.resolve k.env.search false base parsed = .ok i := by
  rw [Names, Option.getD_some, resolve_eq hlocated]

/-- Without flags, what a path leads to is found. -/
theorem fstatat_eq_ok_iff {dirfd : Int32} {path : List UInt8} {st : Stat} :
    k.fstatat dirfd path 0 = .ok st ↔
      ∃ i, k.resolve true dirfd path = .ok i ∧ k.statInode i = .ok st := by
  have hflags : (path.isEmpty && decide ((0 : Int32) &&& atEmptyPath ≠ 0)) = false := by simp
  have hfollow : decide ((0 : Int32) &&& atSymlinkNofollow = 0) = true := by decide
  rw [fstatat, hflags, hfollow]
  cases hresolve : k.resolve true dirfd path with
  | error e => simp
  | ok i => simp

/-! ## Calls that have succeeded -/

theorem frees_onPath_iff {dirfd : Int32} {path : CStr}
    {op : UInt64 → Path (List UInt8) → Except Error FileTree} {j : UInt64}
    (hok : (k.onPath dirfd path op).1 = 0)
    (hop : ∀ base parsed t, op base parsed = .ok t →
      (k.tree.Frees t j ↔
        k.tree.resolve k.env.search false base parsed = .ok j ∧ k.tree.lastName j = true)) :
    k.tree.Frees (k.onPath dirfd path op).2.tree j ↔
      k.Names (dirfd, path) j ∧ k.tree.lastName j = true := by
  obtain ⟨bytes, base, parsed, t, rfl, hlocated, ht, heq⟩ := exists_of_onPath hok
  rw [heq, names_iff hlocated]
  exact hop base parsed t ht

theorem frees_onPaths_iff {olddirfd newdirfd : Int32} {oldpath newpath : CStr}
    {op : UInt64 → Path (List UInt8) → UInt64 → Path (List UInt8) → Except Error FileTree}
    {j : UInt64} (hok : (k.onPaths olddirfd oldpath newdirfd newpath op).1 = 0)
    (hop : ∀ oldBase old newBase new t, op oldBase old newBase new = .ok t →
      (k.tree.Frees t j ↔
        k.tree.resolve k.env.search false newBase new = .ok j ∧ k.tree.lastName j = true ∧
          k.tree.resolve k.env.search false oldBase old ≠ .ok j)) :
    k.tree.Frees (k.onPaths olddirfd oldpath newdirfd newpath op).2.tree j ↔
      k.Names (newdirfd, newpath) j ∧ k.tree.lastName j = true ∧
        ¬ k.Names (olddirfd, oldpath) j := by
  obtain ⟨old, oldBase, oldParsed, new, newBase, newParsed, t, rfl, rfl, hold, hnew, ht, heq⟩ :=
    exists_of_onPaths hok
  rw [heq, names_iff hold, names_iff hnew]
  exact hop oldBase oldParsed newBase newParsed t ht

end UnixState

namespace RemovalCall

open UnixState

variable {k : UnixState} {call : RemovalCall} {j : UInt64}

theorem dev_real : (call.real unixKernel k).2.dev = k.dev := by
  cases call <;> exact dev_finish

/-! ## The path that loses what it names -/

def place : RemovalCall → Int32 × CStr
  | unlink path | rmdir path => (atFdcwd, path)
  | unlinkat dirfd path _ => (dirfd, path)
  | rename _ newpath => (atFdcwd, newpath)
  | renameat _ _ newdirfd newpath | renameat2 _ _ newdirfd newpath _ => (newdirfd, newpath)

/-- The path of the file that a rename moves. -/
def origin : RemovalCall → Option (Int32 × CStr)
  | rename oldpath _ => some (atFdcwd, oldpath)
  | renameat olddirfd oldpath _ _ | renameat2 olddirfd oldpath _ _ _ => some (olddirfd, oldpath)
  | _ => none

def Exchanges : RemovalCall → Prop
  | renameat2 _ _ _ _ flags => flags = renameExchange
  | _ => False

/-- The call takes its last name from the inode: its path names the inode, without following
a symbolic link at the end, and no rename moves or exchanges the file. -/
structure TakesLast (call : RemovalCall) (k : UnixState) (j : UInt64) : Prop where
  names : k.Names call.place j
  lastName : k.tree.lastName j = true
  not_moved : ∀ source, call.origin = some source → ¬ k.Names source j
  not_exchanges : ¬ call.Exchanges

theorem takesLast_iff :
    call.TakesLast k j ↔ k.Names call.place j ∧ k.tree.lastName j = true ∧
      (∀ source, call.origin = some source → ¬ k.Names source j) ∧ ¬ call.Exchanges :=
  ⟨fun h => ⟨h.1, h.2, h.3, h.4⟩, fun h => ⟨h.1, h.2.1, h.2.2.1, h.2.2.2⟩⟩

/-- A successful call frees exactly the inode that it takes its last name from. -/
theorem frees_real_iff (hok : (call.real unixKernel k).1 = 0) :
    k.tree.Frees (call.real unixKernel k).2.tree j ↔ call.TakesLast k j := by
  rw [takesLast_iff]
  cases call with
  | unlink path =>
      refine (frees_onPath_iff hok fun _ _ _ => Tree.frees_unlink_iff).trans ?_
      simp [place, origin, Exchanges]
  | rmdir path =>
      refine (frees_onPath_iff hok fun _ _ _ => Tree.frees_rmdir_iff).trans ?_
      simp [place, origin, Exchanges]
  | unlinkat dirfd path flags =>
      refine (frees_onPath_iff hok fun base parsed t h => ?_).trans ?_
      · split at h
        · exact Tree.frees_unlink_iff h
        · split at h
          · exact Tree.frees_rmdir_iff h
          · cases h
      · simp [place, origin, Exchanges]
  | rename oldpath newpath | renameat olddirfd oldpath newdirfd newpath =>
      refine (frees_onPaths_iff hok fun _ _ _ _ _ => Tree.frees_rename_iff).trans ?_
      simp [place, origin, Exchanges]
  | renameat2 olddirfd oldpath newdirfd newpath flags =>
      by_cases hexchange : flags = renameExchange
      · subst hexchange
        obtain ⟨_, _, _, _, _, _, t, -, -, -, -, ht, heq⟩ := exists_of_onPaths hok
        refine iff_of_false ?_ fun h => h.2.2.2 rfl
        show ¬ k.tree.Frees (k.onPaths olddirfd oldpath newdirfd newpath _).2.tree j
        rw [heq]
        exact Tree.not_frees_exchange ht
      · refine (frees_onPaths_iff hok fun oldBase old newBase new t h => ?_).trans ?_
        · split at h
          · exact Tree.frees_rename_iff h
          · split at h
            · obtain ⟨_, -, h⟩ := Tree.bind_eq_ok h
              exact Tree.frees_rename_iff h
            · cases h
        · simp [place, origin, Exchanges, hexchange]

/-- The hook of a successful call looks where its path leads to, symbolic links followed. -/
theorem target_eq_of_ok (hok : (call.real unixKernel k).1 = 0) :
    call.target unixKernel k = k.fstatat call.place.1 (call.place.2.getD []) 0 := by
  cases call with
  | unlinkat dirfd path flags =>
      obtain ⟨bytes, base, parsed, t, rfl, hlocated, ht, -⟩ := exists_of_onPath hok
      have hflags : flags = 0 ∨ flags = atRemovedir := by
        by_contra hne
        rw [not_or] at hne
        rw [if_neg hne.1, if_neg hne.2] at ht
        cases ht
      have hstat : chownStatFlags flags = 0 ∧ hasEmptyPath flags = false := by
        rcases hflags with rfl | rfl <;> decide
      cases bytes with
      | nil =>
          -- The empty path names nothing that could be removed.
          obtain rfl := path_eq_of_located_nil hlocated
          rcases hflags with rfl | rfl <;> cases ht
      | cons byte bytes =>
          simp [target, place, Kernel.statAt, unixKernel, resolveStatFlags, hstat.1, hstat.2]
  | _ => rfl

theorem real_eq_of_ne (h : (call.real unixKernel k).1 ≠ 0) : (call.real unixKernel k).2 = k := by
  cases call <;> exact snd_finish_of_ne h

/-- A call that frees an inode has it at the path that its hook stats, not followed. -/
theorem target_of_frees (h : k.tree.Frees (call.real unixKernel k).2.tree j) :
    call.target unixKernel k = k.fstatat call.place.1 (call.place.2.getD []) 0 ∧
      call.TakesLast k j := by
  by_cases hok : (call.real unixKernel k).1 = 0
  · exact ⟨target_eq_of_ok hok, (frees_real_iff hok).mp h⟩
  · rw [real_eq_of_ne hok] at h
    exact absurd h.1 h.2

end RemovalCall

end Pseudoroot
