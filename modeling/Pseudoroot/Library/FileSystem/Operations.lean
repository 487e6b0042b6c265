import Pseudoroot.Library.FileSystem.Walk

/-! # Operations on a file tree

The operations that change names. The inode of a new file is given, as a number that is
not in use. An inode is freed when it loses its last name. -/

namespace FileSystem.Tree

variable {Ino Name α : Type} [DecidableEq Ino] [DecidableEq Name] (t : Tree Ino Name α)

/-! ## Inodes and entries -/

def modify (i : Ino) (f : Inode Ino Name α → Inode Ino Name α) : Tree Ino Name α :=
  match t.inodes.lookup i with
  | some node => { t with inodes := t.inodes.insert i (f node) }
  | none => t

def setEntries (d : Ino) (f : AList (fun _ : Name => Ino) → AList fun _ : Name => Ino) :
    Tree Ino Name α :=
  t.modify d fun node =>
    match node.kind with
    | .dir parent entries => { node with kind := .dir parent (f entries) }
    | _ => node

def bind (d : Ino) (n : Name) (i : Ino) : Tree Ino Name α := t.setEntries d (AList.insert n i)

def unbind (d : Ino) (n : Name) : Tree Ino Name α := t.setEntries d (AList.erase n)

/-- Point a directory to its new parent. -/
def setParent (i parent : Ino) : Tree Ino Name α :=
  t.modify i fun node =>
    match node.kind with
    | .dir _ entries => { node with kind := .dir parent entries }
    | _ => node

/-- The inode has one name; a directory never has more. -/
def lastName (i : Ino) : Bool :=
  t.isDir i || (t.inodes.lookup i).any fun node => decide (node.nlink ≤ 1)

/-- Take one name from an inode, which frees it when that was the last. -/
def release (i : Ino) : Tree Ino Name α :=
  if t.lastName i then { t with inodes := t.inodes.erase i }
  else t.modify i fun node => { node with nlink := node.nlink - 1 }

/-- A new inode with its first name. -/
def addNew (d : Ino) (n : Name) (i : Ino) (node : Inode Ino Name α) :
    Except Error (Tree Ino Name α) :=
  if i ∈ t.inodes then .error .enospc
  else .ok ({ t with inodes := t.inodes.insert i node }.bind d n i)

def move (d : Ino) (n : Name) (d' : Ino) (n' : Name) (i : Ino) : Tree Ino Name α :=
  ((t.unbind d n).bind d' n' i).setParent i d'

def isEmptyDir (i : Ino) : Bool :=
  match t.kind? i with
  | some (.dir _ entries) => entries.keys.isEmpty
  | _ => false

/-- `i` is `d` or above it. -/
def isAncestor (i d : Ino) : Bool :=
  go t.inodes.keys.length d
where
  go : ℕ → Ino → Bool
  | 0, d => d = i
  | k + 1, d =>
    d = i ||
      match t.kind? d with
      | some (.dir parent _) => parent ≠ d && go k parent
      | _ => false

def setAttrs (i : Ino) (f : α → α) : Tree Ino Name α :=
  t.modify i fun node => { node with attrs := f node.attrs }

variable (search : Ino → Bool)

/-! ## Creation -/

/-- The free name at the end of a path, with its directory. -/
def freeName (base : Ino) (path : Path Name) : Except Error (Ino × Name) := do
  let (d, c) ← t.resolveParent search base path
  match c with
  | .name n =>
    match t.child search d c with
    | .ok _ => .error .eexist
    | .error .enoent => pure (d, n)
    | .error e => .error e
  | _ => .error .eexist

/-- Create a symbolic link, a directory or a special file. -/
def create (base : Ino) (path : Path Name) (i : Ino) (kind : Ino → Kind Ino Name) (attrs : α) :
    Except Error (Tree Ino Name α) := do
  let (d, n) ← t.freeName search base path
  match kind d, path.trailingSlash with
  | .dir parent entries, _ => t.addNew d n i ⟨.dir parent entries, 1, attrs⟩
  | kind, false => t.addNew d n i ⟨kind, 1, attrs⟩
  | _, true => .error .enoent

def link (oldBase : Ino) (old : Path Name) (newBase : Ino) (new : Path Name) :
    Except Error (Tree Ino Name α) := do
  let i ← t.resolve search false oldBase old
  if t.isDir i then .error .eperm
  else do
    let (d, n) ← t.freeName search newBase new
    if new.trailingSlash then .error .enoent
    else pure ((t.modify i fun node => { node with nlink := node.nlink + 1 }).bind d n i)

/-- Walk along the components to a file or, where only the last one is missing, to its name,
and continue by `link` after a symbolic link. -/
def openWith (link : Ino → List (Component Name) → Except Error (Ino ⊕ (Ino × Name))) :
    Ino → List (Component Name) → Except Error (Ino ⊕ (Ino × Name))
  | d, [] => .ok (.inl d)
  | d, c :: rest =>
    match t.child search d c with
    | .ok i =>
      match t.kind? i with
      | some (.symlink target) => do
        let d ← t.start target.absolute d
        link d (target.steps ++ rest)
      | _ => openWith link i rest
    | .error e =>
      match e, c, rest with
      | .enoent, .name n, [] => .ok (.inr (d, n))
      | e, _, _ => .error e

/-- Walk to what is opened with at most the given number of symbolic links. -/
def openWalk : ℕ → Ino → List (Component Name) → Except Error (Ino ⊕ (Ino × Name))
  | 0 => t.openWith search fun _ _ => .error .eloop
  | k + 1 => t.openWith search (openWalk k)

/-- The file that opening a path for writing opens, or the name where it creates one. -/
def openTarget (base : Ino) (path : Path Name) : Except Error (Ino ⊕ (Ino × Name)) :=
  if path.components.isEmpty && !path.absolute then .error .enoent
  else do
    let d ← t.start path.absolute base
    match ← t.openWalk search maxLinks d path.steps with
    | .inr entry => pure (.inr entry)
    | .inl i =>
      match t.kind? i with
      | some .file => pure (.inl i)
      | some (.dir _ _) => .error .eisdir
      | _ => .error .enoent

/-- Open a path for writing, creating a file where there is none. -/
def openCreate (base : Ino) (path : Path Name) (i : Ino) (attrs : α) :
    Except Error (Tree Ino Name α) := do
  match ← t.openTarget search base path with
  | .inl _ => pure t
  | .inr (d, n) => t.addNew d n i ⟨.file, 1, attrs⟩

/-! ## Removal -/

def unlink (base : Ino) (path : Path Name) : Except Error (Tree Ino Name α) := do
  let (d, c) ← t.resolveParent search base path
  match c with
  | .name n => do
    let i ← t.child search d c
    if t.isDir i then .error .eisdir
    else if path.trailingSlash then .error .enotdir
    else pure ((t.release i).unbind d n)
  | _ => .error .eisdir

def rmdir (base : Ino) (path : Path Name) : Except Error (Tree Ino Name α) := do
  let (d, c) ← t.resolveParent search base path
  match c with
  | .name n => do
    let i ← t.child search d c
    if !t.isDir i then .error .enotdir
    else if !t.isEmptyDir i then .error .enotempty
    else pure ((t.release i).unbind d n)
  | .parent => .error .enotempty
  | _ => .error .einval

def rename (oldBase : Ino) (old : Path Name) (newBase : Ino) (new : Path Name) :
    Except Error (Tree Ino Name α) := do
  let (d, c) ← t.resolveParent search oldBase old
  let (d', c') ← t.resolveParent search newBase new
  match c, c' with
  | .name n, .name n' => do
    let i ← t.child search d c
    if !t.isDir i && (old.trailingSlash || new.trailingSlash) then .error .enotdir
    else if t.isDir i && t.isAncestor i d' then .error .einval
    else
      match t.child search d' c' with
      | .error .enoent => pure (t.move d n d' n' i)
      | .error e => .error e
      | .ok j =>
        -- Two names of one file: nothing happens.
        if j = i then pure t
        else if t.isAncestor j d then .error .enotempty
        else if t.isDir i && !t.isDir j then .error .enotdir
        else if !t.isDir i && t.isDir j then .error .eisdir
        else if t.isDir j && !t.isEmptyDir j then .error .enotempty
        else pure ((t.release j).move d n d' n' i)
  | _, _ => .error .ebusy

/-- Exchange what two paths name. -/
def exchange (oldBase : Ino) (old : Path Name) (newBase : Ino) (new : Path Name) :
    Except Error (Tree Ino Name α) := do
  let (d, c) ← t.resolveParent search oldBase old
  let (d', c') ← t.resolveParent search newBase new
  match c, c' with
  | .name n, .name n' => do
    let i ← t.child search d c
    let j ← t.child search d' c'
    if !t.isDir i && old.trailingSlash || !t.isDir j && new.trailingSlash then .error .enotdir
    else if t.isDir i && t.isAncestor i d' then .error .einval
    else if t.isDir j && t.isAncestor j d then .error .einval
    else pure ((((t.bind d n j).bind d' n' i).setParent i d').setParent j d)
  | _, _ => .error .ebusy

/-! ## Inodes in use -/

variable {t search}

omit [DecidableEq Name] in
@[simp] theorem mem_modify {i j : Ino} {f : Inode Ino Name α → Inode Ino Name α} :
    j ∈ (t.modify i f).inodes ↔ j ∈ t.inodes := by
  unfold modify
  split
  · rename_i node hi
    have hmem : i ∈ t.inodes := by rw [← AList.lookup_isSome, hi]; rfl
    simp only [AList.mem_insert]
    exact ⟨fun h => h.elim (fun h => h ▸ hmem) id, Or.inr⟩
  · rfl

omit [DecidableEq Name] in
theorem lookup_modify_self {i : Ino} {f : Inode Ino Name α → Inode Ino Name α} :
    (t.modify i f).inodes.lookup i = (t.inodes.lookup i).map f := by
  unfold modify
  cases hi : t.inodes.lookup i with
  | some node => exact AList.lookup_insert t.inodes
  | none => exact hi

omit [DecidableEq Name] in
@[simp] theorem mem_setEntries {d j : Ino} {f} :
    j ∈ (t.setEntries d f).inodes ↔ j ∈ t.inodes := mem_modify

@[simp] theorem mem_bind {d i j : Ino} {n : Name} : j ∈ (t.bind d n i).inodes ↔ j ∈ t.inodes :=
  mem_modify

@[simp] theorem mem_unbind {d j : Ino} {n : Name} : j ∈ (t.unbind d n).inodes ↔ j ∈ t.inodes :=
  mem_modify

@[simp] theorem mem_move {d d' i j : Ino} {n n' : Name} :
    j ∈ (t.move d n d' n' i).inodes ↔ j ∈ t.inodes := by
  rw [move, setParent, mem_modify, mem_bind, mem_unbind]

omit [DecidableEq Name] in
/-- Taking a name from an inode frees it when that was the last, and no other. -/
theorem mem_release {i j : Ino} :
    j ∈ (t.release i).inodes ↔ j ∈ t.inodes ∧ ¬(j = i ∧ t.lastName i = true) := by
  unfold release
  split
  · rename_i hlast
    simp [hlast, and_comm]
  · rename_i hlast
    simp [hlast]

theorem mem_of_mem_addNew {d i j : Ino} {n : Name} {node : Inode Ino Name α}
    {t' : Tree Ino Name α} (h : t.addNew d n i node = .ok t') (hj : j ∈ t.inodes) :
    j ∈ t'.inodes := by
  unfold addNew at h
  split at h
  · cases h
  · injection h with h
    rw [← h, mem_bind, AList.mem_insert]
    exact Or.inr hj

section Creation

variable {base i j : Ino} {path : Path Name} {t' : Tree Ino Name α}

theorem mem_of_mem_create {kind : Ino → Kind Ino Name} {attrs : α}
    (h : t.create search base path i kind attrs = .ok t') (hj : j ∈ t.inodes) :
    j ∈ t'.inodes := by
  obtain ⟨⟨d, n⟩, -, h⟩ := bind_eq_ok h
  dsimp only at h
  split at h
  · exact mem_of_mem_addNew h hj
  · exact mem_of_mem_addNew h hj
  · cases h

theorem mem_of_mem_link {new : Path Name} {newBase : Ino}
    (h : t.link search base path newBase new = .ok t') (hj : j ∈ t.inodes) : j ∈ t'.inodes := by
  obtain ⟨i, -, h⟩ := bind_eq_ok h
  split at h
  · cases h
  · obtain ⟨⟨d, n⟩, -, h⟩ := bind_eq_ok h
    dsimp only at h
    split at h
    · cases h
    · injection h with h
      rw [← h, mem_bind, mem_modify]
      exact hj

theorem mem_of_mem_openCreate {attrs : α} (h : t.openCreate search base path i attrs = .ok t')
    (hj : j ∈ t.inodes) : j ∈ t'.inodes := by
  obtain ⟨target, -, h⟩ := bind_eq_ok h
  cases target with
  | inl _ =>
      injection h with h
      exact h ▸ hj
  | inr entry => exact mem_of_mem_addNew h hj

end Creation

/-! ## Freed inodes -/

/-- A step frees the inode `j`. -/
def Frees (t t' : Tree Ino Name α) (j : Ino) : Prop :=
  j ∈ t.inodes ∧ j ∉ t'.inodes

omit [DecidableEq Name] in
theorem mem_of_lastName {i : Ino} (h : t.lastName i = true) : i ∈ t.inodes := by
  rw [← AList.lookup_isSome]
  cases hi : t.inodes.lookup i with
  | none => simp [lastName, isDir, kind?, hi] at h
  | some node => rfl

omit [DecidableEq Name] in
/-- A step that takes one name of an inode frees it when that was the last. -/
theorem frees_release_iff {i j : Ino} {t' : Tree Ino Name α}
    (ht' : ∀ j, j ∈ t'.inodes ↔ j ∈ (t.release i).inodes) :
    t.Frees t' j ↔ j = i ∧ t.lastName j = true := by
  rw [Frees, ht', mem_release]
  constructor
  · rintro ⟨hj, hnot⟩
    obtain ⟨rfl, hlast⟩ : j = i ∧ t.lastName i = true := by
      by_contra hne
      exact hnot ⟨hj, hne⟩
    exact ⟨rfl, hlast⟩
  · rintro ⟨rfl, hlast⟩
    exact ⟨mem_of_lastName hlast, fun h => h.2 ⟨rfl, hlast⟩⟩

omit [DecidableEq Ino] [DecidableEq Name] in
theorem not_frees_of_mem_iff {j : Ino} {t' : Tree Ino Name α}
    (ht' : ∀ j, j ∈ t'.inodes ↔ j ∈ t.inodes) : ¬ t.Frees t' j :=
  fun h => h.2 ((ht' j).mpr h.1)

section Removal

variable {base newBase i j : Ino} {path new : Path Name} {t' : Tree Ino Name α}

/-! ### What a successful call has done -/

theorem unlink_cases (h : t.unlink search base path = .ok t') :
    ∃ d n i, t.resolveParent search base path = .ok (d, .name n) ∧
      t.child search d (.name n) = .ok i ∧ path.trailingSlash = false ∧
      t' = (t.release i).unbind d n := by
  obtain ⟨⟨d, c⟩, hparent, h⟩ := bind_eq_ok h
  cases c with
  | name n =>
      obtain ⟨i, hc, h⟩ := bind_eq_ok h
      split at h
      · cases h
      · split at h
        · cases h
        · rename_i hslash
          injection h with h
          exact ⟨d, n, i, hparent, hc, by simpa using hslash, h.symm⟩
  | current | parent | slash => cases h

theorem rmdir_cases (h : t.rmdir search base path = .ok t') :
    ∃ d n i, t.resolveParent search base path = .ok (d, .name n) ∧
      t.child search d (.name n) = .ok i ∧ t.isDir i = true ∧
      t' = (t.release i).unbind d n := by
  obtain ⟨⟨d, c⟩, hparent, h⟩ := bind_eq_ok h
  cases c with
  | name n =>
      obtain ⟨i, hc, h⟩ := bind_eq_ok h
      split at h
      · cases h
      · rename_i hdir
        split at h
        · cases h
        · injection h with h
          exact ⟨d, n, i, hparent, hc, by simpa using hdir, h.symm⟩
  | current | parent | slash => cases h

/-- A rename to a name that is free, to another name of the same file, or over a file. -/
theorem rename_cases (h : t.rename search base path newBase new = .ok t') :
    ∃ d n d' n' i, t.resolveParent search base path = .ok (d, .name n) ∧
      t.resolveParent search newBase new = .ok (d', .name n') ∧
      t.child search d (.name n) = .ok i ∧
      (path.trailingSlash = true ∨ new.trailingSlash = true → t.isDir i = true) ∧
      ((t.child search d' (.name n') = .error .enoent ∧ t' = t.move d n d' n' i) ∨
        (t.child search d' (.name n') = .ok i ∧ t' = t) ∨
        ∃ j, t.child search d' (.name n') = .ok j ∧ j ≠ i ∧
          (t.isDir i = true → t.isDir j = true) ∧ t' = (t.release j).move d n d' n' i) := by
  obtain ⟨⟨d, c⟩, hold, h⟩ := bind_eq_ok h
  obtain ⟨⟨d', c'⟩, hnew, h⟩ := bind_eq_ok h
  cases c with
  | current | parent | slash => cases h
  | name n =>
      cases c' with
      | current | parent | slash => cases h
      | name n' =>
          obtain ⟨i, hi, h⟩ := bind_eq_ok h
          split at h
          · cases h
          · rename_i hslash
            refine ⟨d, n, d', n', i, hold, hnew, hi, fun hs => ?_, ?_⟩
            · rw [← Bool.or_eq_true] at hs
              simpa [hs] using hslash
            split at h
            · cases h
            · split at h
              · rename_i hnone
                injection h with h
                exact Or.inl ⟨hnone, h.symm⟩
              · cases h
              · rename_i j hj
                split at h
                · rename_i hsame
                  injection h with h
                  exact Or.inr (Or.inl ⟨hsame ▸ hj, h.symm⟩)
                · rename_i hne
                  split at h
                  · cases h
                  · split at h
                    · cases h
                    · rename_i hkinds
                      split at h
                      · cases h
                      · split at h
                        · cases h
                        · injection h with h
                          exact Or.inr (Or.inr ⟨j, hj, hne, by simpa using hkinds, h.symm⟩)

/-! ### What a successful call has freed -/

/-- Unlinking frees what its path names, not followed, when that is its last name. -/
theorem frees_unlink_iff (h : t.unlink search base path = .ok t') :
    t.Frees t' j ↔ t.resolve search false base path = .ok j ∧ t.lastName j = true := by
  obtain ⟨d, n, i, hparent, hc, hslash, rfl⟩ := unlink_cases h
  have hname := resolve_of_child hparent hc fun hs => absurd (hs.symm.trans hslash) (by decide)
  rw [frees_release_iff (i := i) (by simp), hname, Except.ok.injEq, eq_comm]

/-- Removing a directory frees the one that its path names. -/
theorem frees_rmdir_iff (h : t.rmdir search base path = .ok t') :
    t.Frees t' j ↔ t.resolve search false base path = .ok j ∧ t.lastName j = true := by
  obtain ⟨d, n, i, hparent, hc, hdir, rfl⟩ := rmdir_cases h
  have hname := resolve_of_child hparent hc fun _ => hdir
  rw [frees_release_iff (i := i) (by simp), hname, Except.ok.injEq, eq_comm]

/-- Renaming frees what the new path names, not followed, when that is its last name and
no name of the file that is renamed. -/
theorem frees_rename_iff (h : t.rename search base path newBase new = .ok t') :
    t.Frees t' j ↔ t.resolve search false newBase new = .ok j ∧ t.lastName j = true ∧
      t.resolve search false base path ≠ .ok j := by
  obtain ⟨d, n, d', n', i, hold, hnew, hi, hslash, hcases⟩ := rename_cases h
  have hname := resolve_of_child hold hi fun hs => hslash (Or.inl hs)
  rcases hcases with ⟨hnone, rfl⟩ | ⟨hsame, rfl⟩ | ⟨j', hj', hne, hkinds, rfl⟩
  · refine iff_of_false (not_frees_of_mem_iff (by simp)) fun hfound => ?_
    obtain ⟨j', hj'⟩ := exists_child_of_resolve hnew hfound.1
    rw [hnone] at hj'
    cases hj'
  · have hname' := resolve_of_child hnew hsame fun hs => hslash (Or.inr hs)
    refine iff_of_false (not_frees_of_mem_iff fun _ => Iff.rfl) fun hfound => ?_
    exact hfound.2.2 (hname.trans (hname'.symm.trans hfound.1))
  · have hname' := resolve_of_child hnew hj' fun hs => hkinds (hslash (Or.inr hs))
    rw [frees_release_iff (i := j') (by simp), hname, hname', Except.ok.injEq, Ne, Except.ok.injEq]
    constructor
    · rintro ⟨rfl, hlast⟩
      exact ⟨rfl, hlast, hne.symm⟩
    · rintro ⟨rfl, hlast, -⟩
      exact ⟨rfl, hlast⟩

/-- An exchange frees nothing. -/
theorem not_frees_exchange (h : t.exchange search base path newBase new = .ok t') :
    ¬ t.Frees t' j := by
  obtain ⟨⟨d, c⟩, -, h⟩ := bind_eq_ok h
  obtain ⟨⟨d', c'⟩, -, h⟩ := bind_eq_ok h
  dsimp only at h
  split at h
  · obtain ⟨i, -, h⟩ := bind_eq_ok h
    obtain ⟨j, -, h⟩ := bind_eq_ok h
    split at h
    · cases h
    · split at h
      · cases h
      · split at h
        · cases h
        · injection h with h
          exact not_frees_of_mem_iff (by simp [← h, setParent])
  · cases h

end Removal

end FileSystem.Tree
