import Mathlib.Data.List.AList
import Mathlib.Data.Nat.Notation
import Mathlib.Tactic.Common

/-! # File trees and path resolution

A file tree is a table of inodes. A directory names inodes and a symbolic link holds a
path. A path is resolved from a directory, one component at a time, with or without
following a symbolic link at its end. -/

namespace FileSystem

inductive Component (Name : Type) where
  | current
  | parent
  | name (n : Name)
  /-- A trailing slash: what comes before it has to be a directory. -/
  | slash

structure Path (Name : Type) where
  absolute : Bool
  components : List (Component Name)
  trailingSlash : Bool

/-- The components of a path, with its trailing slash. -/
def Path.steps {Name : Type} (path : Path Name) : List (Component Name) :=
  path.components ++ if path.trailingSlash then [.slash] else []

inductive Kind (Ino Name : Type) where
  | file
  | symlink (target : Path Name)
  | dir (parent : Ino) (entries : AList fun _ : Name => Ino)

structure Inode (Ino Name α : Type) where
  kind : Kind Ino Name
  /-- The number of names of an inode that is no directory. -/
  nlink : ℕ
  attrs : α

structure Tree (Ino Name α : Type) where
  root : Ino
  inodes : AList fun _ : Ino => Inode Ino Name α

inductive Error where
  | eacces
  | ebusy
  | eexist
  | einval
  | eisdir
  | eloop
  | enoent
  | enospc
  | enotdir
  | enotempty
  | enxio
  | eperm
  deriving DecidableEq

namespace Tree

variable {Ino Name α : Type} [DecidableEq Ino] [DecidableEq Name] (t : Tree Ino Name α)
  (search : Ino → Bool)

def kind? (i : Ino) : Option (Kind Ino Name) :=
  (t.inodes.lookup i).map Inode.kind

def isDir (i : Ino) : Bool :=
  match t.kind? i with
  | some (.dir _ _) => true
  | _ => false

def isSymlink (i : Ino) : Bool :=
  match t.kind? i with
  | some (.symlink _) => true
  | _ => false

/-- One component, looked up in a directory that may be searched. -/
def child (d : Ino) (c : Component Name) : Except Error Ino :=
  match t.kind? d, c with
  | some (.dir _ _), .slash => .ok d
  | some (.dir parent entries), c =>
    if search d then
      match c with
      | .parent => .ok parent
      | .name n => (entries.lookup n).elim (.error .enoent) .ok
      | _ => .ok d
    else .error .eacces
  | _, _ => .error .enotdir

/-- Where a path begins. -/
def start (absolute : Bool) (base : Ino) : Except Error Ino :=
  let d := if absolute then t.root else base
  if t.isDir d then .ok d else .error .enotdir

/-- Walk along the components, and continue by `link` after a symbolic link. -/
def walkWith (follow : Bool) (link : Ino → List (Component Name) → Except Error Ino) :
    Ino → List (Component Name) → Except Error Ino
  | d, [] => .ok d
  | d, c :: rest => do
    let i ← t.child search d c
    match t.kind? i with
    | some (.symlink target) =>
      if rest.isEmpty && !follow then .ok i
      else do
        let d ← t.start target.absolute d
        link d (target.steps ++ rest)
    | _ => walkWith follow link i rest

/-- Walk with at most the given number of symbolic links. -/
def walk (follow : Bool) : ℕ → Ino → List (Component Name) → Except Error Ino
  | 0 => t.walkWith search follow fun _ _ => .error .eloop
  | k + 1 => t.walkWith search follow (walk follow k)

def maxLinks : ℕ := 40

/-- The inode that a path names. -/
def resolve (follow : Bool) (base : Ino) (path : Path Name) : Except Error Ino :=
  if path.components.isEmpty && !path.absolute then .error .enoent
  else do
    let d ← t.start path.absolute base
    t.walk search follow maxLinks d path.steps

/-- The directory of the last component of a path, with that component. -/
def resolveParent (base : Ino) (path : Path Name) : Except Error (Ino × Component Name) :=
  match path.components.getLast? with
  | none => if path.absolute then .error .ebusy else .error .enoent
  | some last => do
    let d ← t.start path.absolute base
    let d ← t.walk search true maxLinks d path.components.dropLast
    pure (d, last)

variable {t search}

omit [DecidableEq Name] in
theorem isSymlink_of_isDir {i : Ino} (h : t.isDir i = true) : t.isSymlink i = false := by
  unfold isDir at h
  unfold isSymlink
  split at h <;> simp_all

omit [DecidableEq Name] in
theorem isSymlink_eq_false_iff {i : Ino} :
    t.isSymlink i = false ↔ ∀ target, t.kind? i ≠ some (.symlink target) := by
  unfold isSymlink
  split <;> simp_all

omit [DecidableEq Name] in
theorem isDir_of_start {absolute : Bool} {base d : Ino} (h : t.start absolute base = .ok d) :
    t.isDir d = true := by
  simp only [start] at h
  by_cases hdir : t.isDir (if absolute = true then t.root else base) = true
  · rw [if_pos hdir] at h
    injection h with h
    exact h ▸ hdir
  · rw [if_neg hdir] at h
    cases h

/-! ## Derivations of walks -/

section Rules

variable {follow : Bool} {k : ℕ} {d j : Ino} {c : Component Name} {rest : List (Component Name)}

theorem walk_nil : t.walk search follow k d [] = .ok d := by
  cases k <;> rfl

theorem walk_step (hc : t.child search d c = .ok j) (hj : t.isSymlink j = false) :
    t.walk search follow k d (c :: rest) = t.walk search follow k j rest := by
  have hkind := isSymlink_eq_false_iff.mp hj
  cases k <;>
    simp only [walk, walkWith, hc, bind, Except.bind]

theorem walk_error {e : Error} (hc : t.child search d c = .error e) :
    t.walk search follow k d (c :: rest) = .error e := by
  cases k <;> simp only [walk, walkWith, hc, bind, Except.bind]

theorem walk_last (hc : t.child search d c = .ok j) :
    t.walk search false k d [c] = .ok j := by
  cases k <;> simp [walk, walkWith, hc, bind, Except.bind] <;> split <;> rfl

theorem walk_link {target : Path Name} {d' : Ino} (hc : t.child search d c = .ok j)
    (hj : t.kind? j = some (.symlink target)) (hrest : rest = [] → follow = true)
    (hd : t.start target.absolute d = .ok d') :
    t.walk search follow (k + 1) d (c :: rest) =
      t.walk search follow k d' (target.steps ++ rest) := by
  have hlast : (rest.isEmpty && !follow) = false := by simpa using hrest
  simp [walk, walkWith, hc, hj, hlast, hd, bind, Except.bind]

end Rules

/-- The ways in which a walk reaches an inode, with the links that it may still follow. -/
inductive Walks (t : Tree Ino Name α) (search : Ino → Bool) (follow : Bool) :
    ℕ → Ino → List (Component Name) → Ino → Prop where
  | done (k d) : Walks t search follow k d [] d
  | step {k d c rest j i} (hc : t.child search d c = .ok j) (hj : t.isSymlink j = false) :
      Walks t search follow k j rest i → Walks t search follow k d (c :: rest) i
  | last {k d c j} (hc : t.child search d c = .ok j) (hj : t.isSymlink j = true)
      (hf : follow = false) : Walks t search follow k d [c] j
  | link {k d c rest j target d' i} (hc : t.child search d c = .ok j)
      (hj : t.kind? j = some (.symlink target)) (hrest : rest = [] → follow = true)
      (hd : t.start target.absolute d = .ok d') :
      Walks t search follow k d' (target.steps ++ rest) i →
        Walks t search follow (k + 1) d (c :: rest) i

theorem bind_eq_ok {ε β γ : Type} {x : Except ε β} {f : β → Except ε γ} {c : γ}
    (h : x >>= f = .ok c) : ∃ b, x = .ok b ∧ f b = .ok c := by
  cases x with
  | error e => cases h
  | ok b => exact ⟨b, rfl, h⟩

/-- A walk with a derivation for what follows each link has a derivation. -/
theorem Walks.of_walkWith {follow : Bool} {k : ℕ}
    {link : Ino → List (Component Name) → Except Error Ino}
    (hlink : ∀ d cs i, link d cs = .ok i → ∃ j, k = j + 1 ∧ Walks t search follow j d cs i)
    {d i : Ino} {cs : List (Component Name)} (h : t.walkWith search follow link d cs = .ok i) :
    Walks t search follow k d cs i := by
  induction cs generalizing d with
  | nil =>
      injection h with h
      exact h ▸ .done k d
  | cons c rest ih =>
      obtain ⟨j, hc, hnext⟩ := bind_eq_ok h
      split at hnext
      · rename_i target hj
        by_cases hlast : (rest.isEmpty && !follow) = true
        · rw [if_pos hlast] at hnext
          injection hnext with hnext
          obtain ⟨rfl, rfl⟩ : rest = [] ∧ follow = false := by simpa using hlast
          exact hnext ▸ .last hc (by simp [isSymlink, hj]) rfl
        · rw [if_neg hlast] at hnext
          obtain ⟨d', hd, hnext⟩ := bind_eq_ok hnext
          obtain ⟨k, rfl, hwalk⟩ := hlink d' _ i hnext
          exact .link hc hj (by simpa using hlast) hd hwalk
      · rename_i hj
        exact .step hc (isSymlink_eq_false_iff.mpr hj) (ih hnext)

theorem Walks.of_walk {follow : Bool} {k : ℕ} {d i : Ino} {cs : List (Component Name)}
    (h : t.walk search follow k d cs = .ok i) : Walks t search follow k d cs i := by
  induction k generalizing d cs i with
  | zero => exact .of_walkWith (fun _ _ _ h => by cases h) h
  | succ k ih => exact .of_walkWith (fun _ _ _ h => ⟨k, rfl, ih h⟩) h

theorem Walks.walk {follow : Bool} {k : ℕ} {d i : Ino} {cs : List (Component Name)}
    (h : Walks t search follow k d cs i) : t.walk search follow k d cs = .ok i := by
  induction h with
  | done k d => exact walk_nil
  | step hc hj _ ih => rw [walk_step hc hj, ih]
  | last hc hj hf => exact hf ▸ walk_last hc
  | link hc hj hrest hd _ ih => rw [walk_link hc hj hrest hd, ih]

/-- What a walk that follows links ends at is no symbolic link. -/
theorem Walks.isSymlink_eq_false {k : ℕ} {d i : Ino} {cs : List (Component Name)}
    (h : Walks t search true k d cs i) (hd : t.isSymlink d = false) : t.isSymlink i = false := by
  induction h with
  | done k d => exact hd
  | step hc hj _ ih => exact ih hj
  | last hc hj hf => cases hf
  | link _ _ _ hstart _ ih => exact ih (isSymlink_of_isDir (isDir_of_start hstart))

/-- Following links makes no difference to a walk that ends at no symbolic link. -/
theorem Walks.follow {k : ℕ} {d i : Ino} {cs : List (Component Name)}
    (h : Walks t search false k d cs i) (hi : t.isSymlink i = false) :
    Walks t search true k d cs i := by
  induction h with
  | done k d => exact .done k d
  | step hc hj _ ih => exact .step hc hj (ih hi)
  | last hc hj hf => rw [hi] at hj; cases hj
  | link hc hj hrest hd _ ih => exact .link hc hj (fun _ => rfl) hd (ih hi)

/-- One more component, not followed. -/
theorem Walks.snoc {k : ℕ} {d p i : Ino} {cs : List (Component Name)} {c : Component Name}
    (h : Walks t search true k d cs p) (hc : t.child search p c = .ok i) :
    Walks t search false k d (cs ++ [c]) i := by
  induction h with
  | done k d =>
      cases hi : t.isSymlink i with
      | true => exact .last hc hi rfl
      | false => exact .step hc hi (.done k i)
  | step hc' hj _ ih => exact .step hc' hj (ih hc)
  | last _ _ hf => cases hf
  | link hc' hj hrest hd _ ih =>
      refine .link hc' hj (fun h => absurd h (by simp)) hd ?_
      simpa using ih hc

/-- A walk fails at a component that is not there. -/
theorem Walks.walk_error {k : ℕ} {d p : Ino} {cs rest : List (Component Name)}
    {c : Component Name} {e : Error} {follow : Bool} (h : Walks t search true k d cs p)
    (hc : t.child search p c = .error e) :
    t.walk search follow k d (cs ++ c :: rest) = .error e := by
  induction h with
  | done k d => exact Tree.walk_error hc
  | step hc' hj _ ih => rw [List.cons_append, walk_step hc' hj, ih hc]
  | last _ _ hf => cases hf
  | link hc' hj hrest hd _ ih =>
      rw [List.cons_append, walk_link hc' hj (fun h => absurd h (by simp)) hd,
        ← List.append_assoc, ih hc]

/-! ## Laws of resolution -/

/-- A path names an inode when a walk from where it begins reaches that inode. -/
theorem resolve_eq_ok_iff {follow : Bool} {base i : Ino} {path : Path Name} :
    t.resolve search follow base path = .ok i ↔
      (path.components = [] → path.absolute = true) ∧
        ∃ d, t.start path.absolute base = .ok d ∧
          Walks t search follow maxLinks d path.steps i := by
  unfold resolve
  constructor
  · intro h
    split at h
    · cases h
    · rename_i hne
      obtain ⟨d, hd, hwalk⟩ := bind_eq_ok h
      exact ⟨by simpa using hne, d, hd, .of_walk hwalk⟩
  · rintro ⟨hne, d, hd, hwalks⟩
    have hcond : (path.components.isEmpty && !path.absolute) = false := by simpa using hne
    simp [hcond, hd, hwalks.walk, bind, Except.bind]

/-- A path that is followed names no symbolic link. -/
theorem isSymlink_eq_false_of_resolve {base i : Ino} {path : Path Name}
    (h : t.resolve search true base path = .ok i) : t.isSymlink i = false := by
  obtain ⟨-, d, hd, hwalks⟩ := resolve_eq_ok_iff.mp h
  exact hwalks.isSymlink_eq_false (isSymlink_of_isDir (isDir_of_start hd))

/-- Following a path makes no difference when it names no symbolic link. -/
theorem resolve_follow {base i : Ino} {path : Path Name}
    (h : t.resolve search false base path = .ok i) (hi : t.isSymlink i = false) :
    t.resolve search true base path = .ok i := by
  obtain ⟨hne, d, hd, hwalks⟩ := resolve_eq_ok_iff.mp h
  exact resolve_eq_ok_iff.mpr ⟨hne, d, hd, hwalks.follow hi⟩

theorem child_slash {i : Ino} (h : t.isDir i = true) : t.child search i .slash = .ok i := by
  unfold isDir at h
  split at h
  · rename_i hkind
    simp [child, hkind]
  · cases h

/-- The directory of the last component is where the walk along the others ends. -/
theorem resolveParent_eq_ok {base d : Ino} {path : Path Name} {c : Component Name}
    (h : t.resolveParent search base path = .ok (d, c)) :
    ∃ s, t.start path.absolute base = .ok s ∧
      Walks t search true maxLinks s path.components.dropLast d ∧
      path.components.dropLast ++ [c] = path.components := by
  unfold resolveParent at h
  cases hlast : path.components.getLast? with
  | none => rw [hlast] at h; dsimp only at h; split at h <;> cases h
  | some last =>
      rw [hlast] at h
      obtain ⟨s, hstart, h⟩ := bind_eq_ok h
      obtain ⟨p, hwalk, h⟩ := bind_eq_ok h
      injection h with h
      obtain ⟨rfl, rfl⟩ := Prod.mk.inj h
      exact ⟨s, hstart, .of_walk hwalk, List.dropLast_append_getLast? last hlast⟩

/-- What the last component of a path names is what the path names, not followed. -/
theorem resolve_of_child {base d i : Ino} {path : Path Name} {c : Component Name}
    (hparent : t.resolveParent search base path = .ok (d, c)) (hc : t.child search d c = .ok i)
    (hslash : path.trailingSlash = true → t.isDir i = true) :
    t.resolve search false base path = .ok i := by
  obtain ⟨s, hstart, hwalks, hsplit⟩ := resolveParent_eq_ok hparent
  have hentry := hwalks.snoc hc
  have hne : path.components ≠ [] := by
    rw [← hsplit]
    exact List.append_ne_nil_of_right_ne_nil _ (List.cons_ne_nil c [])
  rw [hsplit] at hentry
  refine resolve_eq_ok_iff.mpr ⟨fun hnil => absurd hnil hne, s, hstart, ?_⟩
  cases hs : path.trailingSlash with
  | false => simpa [Path.steps, hs] using hentry
  | true =>
      have hdir := hslash hs
      have hfollow := hentry.follow (isSymlink_of_isDir hdir)
      simpa [Path.steps, hs] using hfollow.snoc (child_slash hdir)

/-- The last component of a path that names something is there. -/
theorem exists_child_of_resolve {follow : Bool} {base d i : Ino} {path : Path Name}
    {c : Component Name} (hparent : t.resolveParent search base path = .ok (d, c))
    (h : t.resolve search follow base path = .ok i) : ∃ j, t.child search d c = .ok j := by
  obtain ⟨s, hstart, hwalks, hsplit⟩ := resolveParent_eq_ok hparent
  obtain ⟨-, s', hstart', hwalks'⟩ := resolve_eq_ok_iff.mp h
  cases hc : t.child search d c with
  | ok j => exact ⟨j, rfl⟩
  | error e =>
      have hwalk := hwalks'.walk
      rw [hstart] at hstart'
      cases hstart'
      rw [Path.steps, ← hsplit, List.append_assoc, List.cons_append, List.nil_append,
        hwalks.walk_error hc] at hwalk
      cases hwalk

end Tree

end FileSystem
