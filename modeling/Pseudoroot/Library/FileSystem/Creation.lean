import Pseudoroot.Library.FileSystem.Operations

/-! # New files

A new file is bound to a name that was missing. Every walk that reached something before
reaches the same afterwards, and the walk that ended at the missing name reaches the new
file. -/

namespace FileSystem.Tree

variable {Ino Name α : Type} [DecidableEq Ino] [DecidableEq Name] {t t' : Tree Ino Name α}
  {search : Ino → Bool} {d e i j : Ino} {n : Name} {node : Inode Ino Name α}

omit [DecidableEq Name] in
theorem lookup_modify_of_ne {f : Inode Ino Name α → Inode Ino Name α} (h : j ≠ i) :
    (t.modify i f).inodes.lookup j = t.inodes.lookup j := by
  unfold modify
  split
  · exact AList.lookup_insert_ne h
  · rfl

/-- What binding a name does to the inode of a directory. -/
def Inode.withEntry (n : Name) (i : Ino) (node : Inode Ino Name α) : Inode Ino Name α :=
  match node.kind with
  | .dir parent entries => { node with kind := .dir parent (entries.insert n i) }
  | _ => node

omit [DecidableEq Ino] in
theorem attrs_withEntry : (Inode.withEntry n i node).attrs = node.attrs := by
  unfold Inode.withEntry
  split <;> rfl

/-! ## The inodes after an addition -/

theorem addNew_eq_ok (h : t.addNew e n i node = .ok t') :
    i ∉ t.inodes ∧ t' = Tree.bind { t with inodes := t.inodes.insert i node } e n i := by
  unfold addNew at h
  split at h
  · cases h
  · rename_i hi
    injection h with h
    exact ⟨hi, h.symm⟩

theorem root_addNew (h : t.addNew e n i node = .ok t') : t'.root = t.root := by
  obtain ⟨-, rfl⟩ := addNew_eq_ok h
  unfold Tree.bind setEntries modify
  split <;> rfl

theorem lookup_addNew (h : t.addNew e n i node = .ok t') (j : Ino) :
    t'.inodes.lookup j =
      (if j = i then some node else t.inodes.lookup j).map fun node =>
        if j = e then Inode.withEntry n i node else node := by
  obtain ⟨-, rfl⟩ := addNew_eq_ok h
  have hbefore : (t.inodes.insert i node).lookup j =
      if j = i then some node else t.inodes.lookup j := by
    by_cases hj : j = i
    · rw [if_pos hj, hj, AList.lookup_insert]
    · rw [if_neg hj, AList.lookup_insert_ne hj]
  rw [← hbefore]
  by_cases hj : j = e
  · subst hj
    rw [Tree.bind, setEntries, lookup_modify_self]
    simp only [if_true]
    rfl
  · rw [Tree.bind, setEntries, lookup_modify_of_ne hj]
    simp [hj]

theorem mem_addNew_self (h : t.addNew e n i node = .ok t') : i ∈ t'.inodes := by
  rw [← AList.lookup_isSome, lookup_addNew h]
  simp

/-- The attributes of the files that were there stay. -/
theorem attrs_addNew_of_mem (h : t.addNew e n i node = .ok t') (hj : j ∈ t.inodes) :
    (t'.inodes.lookup j).map Inode.attrs = (t.inodes.lookup j).map Inode.attrs := by
  have hne : j ≠ i := fun heq => (addNew_eq_ok h).1 (heq ▸ hj)
  rw [lookup_addNew h, if_neg hne, Option.map_map]
  congr 1
  funext node
  simp only [Function.comp_apply]
  split
  · exact attrs_withEntry
  · rfl

theorem attrs_addNew_self (h : t.addNew e n i node = .ok t') :
    (t'.inodes.lookup i).map Inode.attrs = some node.attrs := by
  rw [lookup_addNew h, if_pos rfl, Option.map_some, Option.map_some]
  split
  · rw [attrs_withEntry]
  · rfl

theorem kind?_addNew_of_ne (h : t.addNew e n i node = .ok t') (hi : j ≠ i) (he : j ≠ e) :
    t'.kind? j = t.kind? j := by
  rw [kind?, kind?, lookup_addNew h, if_neg hi, Option.map_map]
  congr 1
  funext node
  simp [he]

/-- A file that is no directory has the kind that it had. -/
theorem kind?_addNew_of_not_dir (h : t.addNew e n i node = .ok t') (hi : j ≠ i)
    (hj : t.isDir j = false) : t'.kind? j = t.kind? j := by
  rw [kind?, kind?, lookup_addNew h, if_neg hi, Option.map_map]
  cases hlookup : t.inodes.lookup j with
  | none => rfl
  | some old =>
      simp only [Option.map_some, Function.comp_apply, Option.some.injEq]
      split
      · unfold Inode.withEntry
        split
        · rename_i parent entries hkind
          simp [isDir, kind?, hlookup, hkind] at hj
        · rfl
      · rfl

omit [DecidableEq Name] in
theorem isDir_iff :
    t.isDir d = true ↔ ∃ parent entries, t.kind? d = some (.dir parent entries) := by
  unfold isDir
  split
  · rename_i parent entries hkind
    exact ⟨fun _ => ⟨parent, entries, hkind⟩, fun _ => rfl⟩
  · rename_i hkind
    refine ⟨fun h => absurd h (by decide), ?_⟩
    rintro ⟨parent, entries, h⟩
    exact absurd h (hkind parent entries)

/-- The new file is none that was there. -/
theorem ne_of_kind? (h : t.addNew e n i node = .ok t') {kind : Kind Ino Name}
    (hj : t.kind? j = some kind) : j ≠ i := by
  rintro rfl
  obtain ⟨old, hold, -⟩ := Option.map_eq_some_iff.mp hj
  exact (addNew_eq_ok h).1 (AList.lookup_isSome.mp (by rw [hold]; rfl))

theorem kind?_addNew_dir (h : t.addNew e n i node = .ok t') {parent : Ino}
    {entries : AList fun _ : Name => Ino} (he : t.kind? e = some (.dir parent entries)) :
    t'.kind? e = some (.dir parent (entries.insert n i)) := by
  obtain ⟨old, hold, hkind⟩ := Option.map_eq_some_iff.mp he
  rw [kind?, lookup_addNew h, if_neg (ne_of_kind? h he), hold]
  simp [Inode.withEntry, hkind]

theorem isDir_addNew (h : t.addNew e n i node = .ok t') (hd : t.isDir d = true) :
    t'.isDir d = true := by
  obtain ⟨parent, entries, hkind⟩ := isDir_iff.mp hd
  by_cases hde : d = e
  · subst hde
    exact isDir_iff.mpr ⟨parent, _, kind?_addNew_dir h hkind⟩
  · refine isDir_iff.mpr ⟨parent, entries, ?_⟩
    rw [kind?_addNew_of_ne h (ne_of_kind? h hkind) hde, hkind]

theorem start_addNew (h : t.addNew e n i node = .ok t') {absolute : Bool} {base : Ino}
    (hd : t.start absolute base = .ok d) : t'.start absolute base = .ok d := by
  have hdir := isDir_addNew h (isDir_of_start hd)
  have hfrom : (if absolute then t.root else base) = d := by
    simp only [start] at hd
    generalize (if absolute = true then t.root else base) = s at hd ⊢
    split at hd
    · injection hd
    · cases hd
  simp only [start, root_addNew h, hfrom, hdir, if_true]

/-- A symbolic link stays the link that it was. -/
theorem kind?_addNew_symlink (h : t.addNew e n i node = .ok t') {target : Path Name}
    (hj : t.kind? j = some (.symlink target)) : t'.kind? j = some (.symlink target) := by
  have hdir : t.isDir j = false := by simp [isDir, hj]
  rw [kind?_addNew_of_not_dir h (ne_of_kind? h hj) hdir, hj]

/-! ## Walks after an addition -/

theorem isDir_of_child {c : Component Name} (hc : t.child search d c = .ok j) :
    t.isDir d = true := by
  cases hkind : t.kind? d with
  | none => simp [child, hkind] at hc
  | some kind =>
      cases kind with
      | dir p es => simp [isDir, hkind]
      | file | symlink target => simp [child, hkind] at hc

/-- A name that is missing is missing in a directory that may be searched. -/
theorem child_eq_enoent {c : Component Name} (hc : t.child search d c = .error .enoent) :
    search d = true ∧ t.isDir d = true ∧ ∃ n, c = .name n := by
  cases hkind : t.kind? d with
  | none => simp [child, hkind] at hc
  | some kind =>
      cases kind with
      | file | symlink target => simp [child, hkind] at hc
      | dir p es =>
          cases hsearch : search d <;> cases c <;>
            simp_all [child, isDir]

section Added

variable (h : t.addNew e n i node = .ok t') (hmissing : t.child search e (.name n) = .error .enoent)

include h hmissing

/-- Every component that was there leads to the same as before. -/
theorem child_addNew {c : Component Name} (hc : t.child search d c = .ok j) :
    t'.child search d c = .ok j := by
  obtain ⟨p, es, hkind⟩ := isDir_iff.mp (isDir_of_child hc)
  by_cases hde : d = e
  · subst hde
    have hkind' := kind?_addNew_dir h hkind
    cases c with
    | current | parent | slash => simpa only [child, hkind, hkind'] using hc
    | name m =>
        have hne : m ≠ n := by
          rintro rfl
          rw [hmissing] at hc
          cases hc
        simpa only [child, hkind, hkind', AList.lookup_insert_ne hne] using hc
  · rw [← hc]
    simp only [child, kind?_addNew_of_ne h (ne_of_kind? h hkind) hde]

/-- The name that was missing leads to the new file. -/
theorem child_addNew_self : t'.child search e (.name n) = .ok i := by
  obtain ⟨hsearch, hdir, -⟩ := child_eq_enoent hmissing
  obtain ⟨p, es, hkind⟩ := isDir_iff.mp hdir
  simp [child, kind?_addNew_dir h hkind, hsearch]

theorem kind?_addNew_self : t'.kind? i = some node.kind := by
  obtain ⟨-, hdir, -⟩ := child_eq_enoent hmissing
  obtain ⟨p, es, hkind⟩ := isDir_iff.mp hdir
  rw [kind?, lookup_addNew h, if_pos rfl]
  simp [(ne_of_kind? h hkind).symm]

theorem isSymlink_addNew (hfile : node.kind = .file) (hj : t.isSymlink j = false) :
    t'.isSymlink j = false := by
  by_cases hji : j = i
  · subst hji
    simp [isSymlink, kind?_addNew_self h hmissing, hfile]
  · cases hdir : t.isDir j with
    | true => exact isSymlink_of_isDir (isDir_addNew h hdir)
    | false =>
        rw [isSymlink_eq_false_iff] at hj ⊢
        rwa [kind?_addNew_of_not_dir h hji hdir]

/-- A walk that followed links reaches what it reached. -/
theorem Walks.addNew (hfile : node.kind = .file) {k : ℕ} {cs : List (Component Name)}
    (hw : Walks t search true k d cs j) : Walks t' search true k d cs j := by
  induction hw with
  | done k d => exact .done k d
  | step hc hj _ ih =>
      exact .step (child_addNew h hmissing hc) (isSymlink_addNew h hmissing hfile hj) ih
  | last hc hj hf => cases hf
  | link hc hj hrest hd _ ih =>
      exact .link (child_addNew h hmissing hc) (kind?_addNew_symlink h hj) hrest
        (start_addNew h hd) ih

end Added

/-! ## Opening a file for writing -/

/-- The ways in which an open reaches a file, or the name that is missing for one. -/
inductive Opens (t : Tree Ino Name α) (search : Ino → Bool) :
    ℕ → Ino → List (Component Name) → Ino ⊕ (Ino × Name) → Prop where
  | done (k d) : Opens t search k d [] (.inl d)
  | missing {k d n} (hc : t.child search d (.name n) = .error .enoent) :
      Opens t search k d [.name n] (.inr (d, n))
  | step {k d c rest j target} (hc : t.child search d c = .ok j) (hj : t.isSymlink j = false) :
      Opens t search k j rest target → Opens t search k d (c :: rest) target
  | link {k d c rest j link d' target} (hc : t.child search d c = .ok j)
      (hj : t.kind? j = some (.symlink link)) (hd : t.start link.absolute d = .ok d') :
      Opens t search k d' (link.steps ++ rest) target →
        Opens t search (k + 1) d (c :: rest) target

/-- An open with a derivation for what follows each link has a derivation. -/
theorem Opens.of_openWith {k : ℕ}
    {link : Ino → List (Component Name) → Except Error (Ino ⊕ (Ino × Name))}
    (hlink : ∀ d cs target, link d cs = .ok target →
      ∃ j, k = j + 1 ∧ Opens t search j d cs target)
    {target : Ino ⊕ (Ino × Name)} {cs : List (Component Name)}
    (h : t.openWith search link d cs = .ok target) : Opens t search k d cs target := by
  induction cs generalizing d with
  | nil =>
      injection h with h
      exact h ▸ .done k d
  | cons c rest ih =>
      unfold openWith at h
      cases hc : t.child search d c with
      | ok j =>
          rw [hc] at h
          dsimp only at h
          split at h
          · rename_i path hj
            obtain ⟨d', hd, h⟩ := bind_eq_ok h
            obtain ⟨k, rfl, hopens⟩ := hlink d' _ target h
            exact .link hc hj hd hopens
          · rename_i hj
            exact .step hc (isSymlink_eq_false_iff.mpr hj) (ih h)
      | error e =>
          rw [hc] at h
          dsimp only at h
          split at h
          · injection h with h
            exact h ▸ .missing hc
          · cases h

theorem Opens.of_openWalk {k : ℕ} {target : Ino ⊕ (Ino × Name)} {cs : List (Component Name)}
    (h : t.openWalk search k d cs = .ok target) : Opens t search k d cs target := by
  induction k generalizing d cs target with
  | zero => exact .of_openWith (fun _ _ _ h => by cases h) h
  | succ k ih => exact .of_openWith (fun _ _ _ h => ⟨k, rfl, ih h⟩) h

/-- A file that is opened is what the path leads to. -/
theorem Opens.walks {k : ℕ} {cs : List (Component Name)}
    (h : Opens t search k d cs (.inl i)) : Walks t search true k d cs i := by
  generalize htarget : (Sum.inl i : Ino ⊕ (Ino × Name)) = target at h
  induction h with
  | done k d =>
      obtain rfl : i = d := by simpa using htarget
      exact .done k i
  | missing hc => cases htarget
  | step hc hj _ ih => exact .step hc hj (ih htarget)
  | link hc hj hd _ ih => exact .link hc hj (fun _ => rfl) hd (ih htarget)

/-- What a path leads to without following the link at its end: the same, or a link. -/
theorem Walks.exists_nofollow {k : ℕ} {cs : List (Component Name)}
    (h : Walks t search true k d cs i) :
    ∃ j, Walks t search false k d cs j ∧ (j = i ∨ t.isSymlink j = true) := by
  induction h with
  | done k d => exact ⟨d, .done k d, Or.inl rfl⟩
  | step hc hj _ ih =>
      obtain ⟨j, hwalks, hcases⟩ := ih
      exact ⟨j, .step hc hj hwalks, hcases⟩
  | last hc hj hf => cases hf
  | @link k d c rest j target d' i hc hj hrest hd _ ih =>
      cases rest with
      | nil =>
          have hlink : t.isSymlink j = true := by simp [isSymlink, hj]
          exact ⟨j, .last hc hlink rfl, Or.inr hlink⟩
      | cons c' rest =>
          obtain ⟨i', hwalks, hcases⟩ := ih
          exact ⟨i', .link hc hj (fun h => by cases h) hd hwalks, hcases⟩

/-- A file is created where its name is missing. -/
theorem Opens.child_eq_enoent {k : ℕ} {cs : List (Component Name)}
    (h : Opens t search k d cs (.inr (e, n))) :
    t.child search e (.name n) = .error .enoent := by
  generalize htarget : (Sum.inr (e, n) : Ino ⊕ (Ino × Name)) = target at h
  induction h with
  | done k d => cases htarget
  | @missing k d m hc =>
      obtain ⟨rfl, rfl⟩ : e = d ∧ n = m := by simpa using htarget
      exact hc
  | step hc hj _ ih => exact ih htarget
  | link hc hj hd _ ih => exact ih htarget

/-- The path of a file that is created leads to it afterwards, also without following a link
at its end, unless it named a link before. -/
theorem Opens.walks_addNew {k : ℕ} {cs : List (Component Name)}
    (h : Opens t search k d cs (.inr (e, n))) (hadd : t.addNew e n i node = .ok t')
    (hfile : node.kind = .file) (follow : Bool) :
    Walks t' search follow k d cs i ∨
      follow = false ∧ ∃ j, Walks t search false k d cs j ∧ t.isSymlink j = true := by
  have hmissing := h.child_eq_enoent
  generalize htarget : (Sum.inr (e, n) : Ino ⊕ (Ino × Name)) = target at h
  induction h with
  | done k d => cases htarget
  | @missing k d m hc =>
      obtain ⟨rfl, rfl⟩ : e = d ∧ n = m := by simpa using htarget
      have hi : t'.isSymlink i = false := by
        simp [isSymlink, kind?_addNew_self hadd hc, hfile]
      exact Or.inl (.step (child_addNew_self hadd hc) hi (.done k i))
  | step hc hj _ ih =>
      rcases ih htarget with hwalks | ⟨hfollow, j', hwalks, hlink⟩
      · exact Or.inl (.step (child_addNew hadd hmissing hc)
          (isSymlink_addNew hadd hmissing hfile hj) hwalks)
      · exact Or.inr ⟨hfollow, j', .step hc hj hwalks, hlink⟩
  | @link k d c rest j path d' target hc hj hd _ ih =>
      have hlink : t.isSymlink j = true := by simp [isSymlink, hj]
      by_cases hlast : rest = [] ∧ follow = false
      · obtain ⟨rfl, rfl⟩ := hlast
        exact Or.inr ⟨rfl, j, .last hc hlink rfl, hlink⟩
      have hrest : rest = [] → follow = true := by simpa using hlast
      rcases ih htarget with hwalks | ⟨hfollow, j', hwalks, hlink'⟩
      · exact Or.inl (.link (child_addNew hadd hmissing hc) (kind?_addNew_symlink hadd hj) hrest
          (start_addNew hadd hd) hwalks)
      · refine Or.inr ⟨hfollow, j', .link hc hj (fun h => ?_) hd hwalks, hlink'⟩
        exact absurd ((hrest h).symm.trans hfollow) (by decide)

/-! ### The path of a file that is opened -/

section Paths

variable {base : Ino} {path : Path Name}

theorem openTarget_eq_ok {target : Ino ⊕ (Ino × Name)}
    (h : t.openTarget search base path = .ok target) :
    (path.components = [] → path.absolute = true) ∧
      ∃ s, t.start path.absolute base = .ok s ∧ Opens t search maxLinks s path.steps target ∧
        ∀ i, target = .inl i → t.kind? i = some .file := by
  unfold openTarget at h
  split at h
  · cases h
  · rename_i hne
    refine ⟨by simpa using hne, ?_⟩
    obtain ⟨s, hstart, h⟩ := bind_eq_ok h
    obtain ⟨found, hwalk, h⟩ := bind_eq_ok h
    have hopens := Opens.of_openWalk hwalk
    cases found with
    | inr entry =>
        injection h with h
        subst h
        exact ⟨s, hstart, hopens, fun i hi => by cases hi⟩
    | inl i =>
        dsimp only at h
        split at h
        · rename_i hkind
          injection h with h
          subst h
          refine ⟨s, hstart, hopens, fun j hj => ?_⟩
          injection hj with hj
          exact hj ▸ hkind
        · cases h
        · cases h

/-- What is opened is the file that the path leads to. -/
theorem resolve_of_openTarget (h : t.openTarget search base path = .ok (.inl i)) :
    t.resolve search true base path = .ok i ∧ t.kind? i = some .file := by
  obtain ⟨hne, s, hstart, hopens, hfile⟩ := openTarget_eq_ok h
  exact ⟨resolve_eq_ok_iff.mpr ⟨hne, s, hstart, hopens.walks⟩, hfile i rfl⟩

/-- A path that leads to something names it, or a symbolic link. -/
theorem exists_resolve_nofollow (h : t.resolve search true base path = .ok i) :
    ∃ j, t.resolve search false base path = .ok j ∧ (j = i ∨ t.isSymlink j = true) := by
  obtain ⟨hne, s, hstart, hwalks⟩ := resolve_eq_ok_iff.mp h
  obtain ⟨j, hwalks, hcases⟩ := hwalks.exists_nofollow
  exact ⟨j, resolve_eq_ok_iff.mpr ⟨hne, s, hstart, hwalks⟩, hcases⟩

/-- The path of a file that is created leads to it, and names it unless it was a link. -/
theorem resolve_addNew (h : t.openTarget search base path = .ok (.inr (e, n)))
    (hadd : t.addNew e n i node = .ok t') (hfile : node.kind = .file) (follow : Bool) :
    t'.resolve search follow base path = .ok i ∨
      follow = false ∧ ∃ j, t.resolve search false base path = .ok j ∧ t.isSymlink j = true := by
  obtain ⟨hne, s, hstart, hopens, -⟩ := openTarget_eq_ok h
  rcases hopens.walks_addNew hadd hfile follow with hwalks | ⟨hfollow, j, hwalks, hlink⟩
  · exact Or.inl (resolve_eq_ok_iff.mpr ⟨hne, s, start_addNew hadd hstart, hwalks⟩)
  · exact Or.inr ⟨hfollow, j, resolve_eq_ok_iff.mpr ⟨hne, s, hstart, hwalks⟩, hlink⟩

theorem freeName_eq_ok (h : t.freeName search base path = .ok (e, n)) :
    t.resolveParent search base path = .ok (e, .name n) ∧
      t.child search e (.name n) = .error .enoent := by
  obtain ⟨⟨d, c⟩, hparent, h⟩ := bind_eq_ok h
  cases c with
  | current | parent | slash => cases h
  | name m =>
      dsimp only at h
      split at h
      · cases h
      · rename_i hmissing
        injection h with h
        obtain ⟨rfl, rfl⟩ := Prod.mk.inj h
        exact ⟨hparent, hmissing⟩
      · cases h

/-- A name is free only where the path names nothing. -/
theorem resolve_ne_of_freeName (h : t.freeName search base path = .ok (e, n)) (follow : Bool) :
    t.resolve search follow base path ≠ .ok j := by
  obtain ⟨hparent, hmissing⟩ := freeName_eq_ok h
  intro hj
  obtain ⟨j', hc⟩ := exists_child_of_resolve hparent hj
  rw [hmissing] at hc
  cases hc

/-- A file is made where the path names nothing, and the path leads to it afterwards. -/
theorem create_file_eq_ok {attrs : α}
    (h : t.create search base path i (fun _ => .file) attrs = .ok t') :
    (∀ follow j, t.resolve search follow base path ≠ .ok j) ∧
      t'.resolve search true base path = .ok i ∧
      ∃ e n, t.addNew e n i ⟨.file, 1, attrs⟩ = .ok t' := by
  obtain ⟨⟨e, n⟩, hfree, h⟩ := bind_eq_ok h
  refine ⟨fun follow j => resolve_ne_of_freeName hfree follow, ?_⟩
  obtain ⟨hparent, hmissing⟩ := freeName_eq_ok hfree
  dsimp only at h
  split at h
  · rename_i hkind
    cases hkind
  · rename_i hslash _
    obtain ⟨s, hstart, hwalks, hsplit⟩ := resolveParent_eq_ok hparent
    have hi : t'.isSymlink i = false := by simp [isSymlink, kind?_addNew_self h hmissing]
    have hentry := ((hwalks.addNew h hmissing rfl).snoc (child_addNew_self h hmissing)).follow hi
    have hne : path.components ≠ [] := by
      rw [← hsplit]
      exact List.append_ne_nil_of_right_ne_nil _ (List.cons_ne_nil _ [])
    have hsteps : path.steps = path.components.dropLast ++ [.name n] := by
      simp [Path.steps, hslash, hsplit]
    refine ⟨resolve_eq_ok_iff.mpr ⟨fun hnil => absurd hnil hne, s, start_addNew h hstart, ?_⟩,
      e, n, h⟩
    rwa [hsteps]
  · cases h

end Paths

end FileSystem.Tree
