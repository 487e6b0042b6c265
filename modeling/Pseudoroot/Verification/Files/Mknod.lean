import Mathlib.Data.List.TakeDrop
import Pseudoroot.Library.FileSystem.Creation
import Pseudoroot.Verification.Files.Entries

/-! # Special files

A mknod drops a regular file and records what it should be. What is opened for that can be
a file that was there. -/

namespace Pseudoroot

open Calls Calls.Program FileSystem Ownership

/-! ## Paths below a directory descriptor -/

theorem slashByte_not_mem_decimal {n : ℤ} : slashByte ∉ Decimal.bytes n := by
  intro h
  exact absurd (Decimal.toNat_of_mem_bytes h) (by decide)

/-- A path below `/proc/self/fd/N` leads to what is below the descriptor `N`. -/
theorem locate_procSelfFd {dirfd fd dirfd' : Int32} {bytes rest : List UInt8}
    (h : locate dirfd' (procSelfFd ++ Decimal.bytes dirfd.toInt ++ slashByte :: bytes) =
      .ok (fd, rest)) :
    fd = dirfd ∧ rest = bytes.dropWhile (· = slashByte) := by
  have hnumber : (Decimal.bytes dirfd.toInt ++ slashByte :: bytes).takeWhile (· ≠ slashByte) =
      Decimal.bytes dirfd.toInt := by
    have hall : ∀ byte ∈ Decimal.bytes dirfd.toInt, decide (byte ≠ slashByte) = true := by
      intro byte hbyte
      have hne : byte ≠ slashByte := fun heq => slashByte_not_mem_decimal (heq ▸ hbyte)
      simpa using hne
    rw [List.takeWhile_append_of_pos hall]
    simp
  rw [locate, List.append_assoc, if_pos (by simp), List.drop_left] at h
  dsimp only at h
  rw [hnumber] at h
  split at h
  · rename_i hfd
    injection h with h
    obtain ⟨rfl, rfl⟩ := Prod.mk.inj h
    refine ⟨?_, by rw [List.drop_left]; simp⟩
    rw [← Int32.ofInt_eq_ofNat, Decimal.bytes_injective hfd.2.1, Int32.ofInt_toInt]
  · cases h

theorem locate_of_not_slash {dirfd : Int32} {bytes : List UInt8}
    (h : bytes.head? ≠ some slashByte) : locate dirfd bytes = .ok (dirfd, bytes) := by
  have hprefix : procSelfFd.isPrefixOf bytes = false := by
    cases bytes with
    | nil => rfl
    | cons byte bytes =>
        have hne : slashByte ≠ byte := by simpa using fun heq => h (by simp [heq])
        simp [procSelfFd, List.isPrefixOf, slashByte] at hne ⊢
        exact fun heq => absurd heq hne
  rw [locate, hprefix]
  rfl

namespace UnixState

variable {k : UnixState}

/-- An absolute path begins in the same place for every descriptor. -/
theorem located_of_slash {dirfd dirfd' : Int32} {bytes : List UInt8}
    (h : bytes.head? = some slashByte) : k.located dirfd bytes = k.located dirfd' bytes := by
  unfold located locate
  split
  · rfl
  · have habsolute : (parsePath bytes).absolute = true := by simpa [parsePath] using h
    simp only [base, habsolute, if_true, Bind.bind, Except.bind]

/-- What a call on a directory descriptor opens is at the path that it was given. -/
theorem located_of_resolvePathAt {dirfd : Int32} {path : CStr} {resolved : List UInt8}
    {r : UInt64 × Path (List UInt8)} (h : resolvePathAt dirfd path = some resolved)
    (hlocated : k.located atFdcwd resolved = .ok r) :
    ∃ bytes, path = some bytes ∧ k.located dirfd bytes = .ok r := by
  obtain ⟨bytes, hbytes, rfl⟩ := Option.map_eq_some_iff.mp h
  refine ⟨bytes, (Option.filter_eq_some_iff.mp hbytes).1, ?_⟩
  split at hlocated
  · rename_i hplain
    rcases hplain with rfl | hslash
    · exact hlocated
    · rw [located_of_slash hslash]
      exact hlocated
  · rename_i hrelative
    obtain ⟨-, hslash⟩ := not_or.mp hrelative
    obtain ⟨⟨fd, rest⟩, hlocate, hbase⟩ := Tree.bind_eq_ok hlocated
    obtain ⟨rfl, rfl⟩ := locate_procSelfFd hlocate
    have hrest : bytes.dropWhile (· = slashByte) = bytes := by
      cases bytes with
      | nil => rfl
      | cons byte bytes =>
          have hne : byte ≠ slashByte := by simpa using hslash
          simp [hne]
    rw [hrest] at hbase
    rw [located, locate_of_not_slash hslash]
    exact hbase

/-! ## The file that is opened -/

/-- The file that opening a path for writing opens or creates, if it does. -/
def openedInode (k : UnixState) (path : List UInt8) : Option UInt64 :=
  if k.env.openRefused then none
  else
    match k.atPath atFdcwd (some path) k.openTarget with
    | .ok (.inl i) => some i
    | .ok (.inr _) => if k.env.fresh ∈ k.tree.inodes then none else some k.env.fresh
    | .error _ => none

def placeholderAttrs : Attrs := newAttrs (sIfreg ||| 0o644) 0

/-- Opening the path at a directory leads from one state to another. -/
inductive Opening (k : UnixState) (base : UInt64) (parsed : Path (List UInt8)) :
    UInt64 → UnixState → Prop where
  | existing {i} (hi : k.tree.resolve k.env.search true base parsed = .ok i)
      (hfile : k.tree.kind? i = some .file) : Opening k base parsed i k
  | created {e n t} (htarget : k.tree.openTarget k.env.search base parsed = .ok (.inr (e, n)))
      (hadd : k.tree.addNew e n k.env.fresh ⟨.file, 1, placeholderAttrs⟩ = .ok t) :
      Opening k base parsed k.env.fresh { k with tree := t }

theorem atPath_of_located {α : Type} {dirfd : Int32} {bytes : List UInt8} {base : UInt64}
    {parsed : Path (List UInt8)} (h : k.located dirfd bytes = .ok (base, parsed))
    (op : UInt64 → Path (List UInt8) → Except Error α) :
    k.atPath dirfd (some bytes) op = op base parsed := by
  simp only [atPath, h]
  rfl

theorem openTarget_eq_ok {base : UInt64} {parsed : Path (List UInt8)}
    {target : UInt64 ⊕ UInt64 × List UInt8} (h : k.openTarget base parsed = .ok target) :
    k.tree.openTarget k.env.search base parsed = .ok target := by
  unfold openTarget at h
  split at h
  · rename_i i htarget
    split at h
    · cases h
    · rw [htarget, h]
  · exact h

/-- Opening the path at a directory fails without an effect, or opens a file. -/
theorem openCreate_cases_of_located {path : List UInt8} {base : UInt64}
    {parsed : Path (List UInt8)} (hrefused : k.env.openRefused = false)
    (hlocated : k.located atFdcwd path = .ok (base, parsed)) :
    (k.openedInode path = none ∧ k.openCreate path = (false, k)) ∨
      ∃ i k₁, k.openedInode path = some i ∧ k.openCreate path = (true, k₁) ∧
        k.Opening base parsed i k₁ := by
  unfold openedInode openCreate creat
  rw [hrefused, atPath_of_located hlocated, atPath_of_located hlocated]
  cases htarget : k.openTarget base parsed with
  | error e => exact Or.inl ⟨rfl, rfl⟩
  | ok target =>
      have hfound := openTarget_eq_ok htarget
      cases target with
      | inl i =>
          obtain ⟨hi, hfile⟩ := Tree.resolve_of_openTarget hfound
          right
          refine ⟨i, k, rfl, ?_, .existing hi hfile⟩
          simp only [Tree.openCreate, hfound]
          rfl
      | inr entry =>
          obtain ⟨e, n⟩ := entry
          by_cases hfresh : k.env.fresh ∈ k.tree.inodes
          · left
            simp only [Tree.openCreate, hfound, hfresh, if_true, Bind.bind, Except.bind,
              Tree.addNew]
            exact ⟨rfl, rfl⟩
          · obtain ⟨t, hadd⟩ : ∃ t, k.tree.addNew e n k.env.fresh
                ⟨.file, 1, placeholderAttrs⟩ = .ok t := ⟨_, if_neg hfresh⟩
            right
            refine ⟨k.env.fresh, { k with tree := t }, by simp [hfresh], ?_,
              .created hfound hadd⟩
            have hcreate : k.tree.openCreate k.env.search base parsed k.env.fresh
                placeholderAttrs = .ok t := by
              simp only [Tree.openCreate, hfound]
              exact hadd
            rw [show newAttrs (sIfreg ||| 0o644) 0 = placeholderAttrs from rfl, hcreate]
            rfl

/-- Opening fails without an effect, or opens a file. -/
theorem openCreate_cases (k : UnixState) (path : List UInt8) :
    (k.openedInode path = none ∧ k.openCreate path = (false, k)) ∨
      ∃ base parsed i k₁, k.located atFdcwd path = .ok (base, parsed) ∧
        k.openedInode path = some i ∧ k.openCreate path = (true, k₁) ∧
        k.Opening base parsed i k₁ := by
  cases hrefused : k.env.openRefused with
  | true =>
      left
      unfold openedInode openCreate creat
      rw [hrefused]
      exact ⟨rfl, rfl⟩
  | false =>
      cases hlocated : k.located atFdcwd path with
      | error e =>
          left
          simp only [openedInode, openCreate, creat, hrefused, atPath, hlocated]
          exact ⟨rfl, rfl⟩
      | ok found =>
          obtain ⟨base, parsed⟩ := found
          rcases openCreate_cases_of_located hrefused hlocated with
            hfailed | ⟨i, k₁, hopened, hcreate, hopening⟩
          · exact Or.inl hfailed
          · exact Or.inr ⟨base, parsed, i, k₁, rfl, hopened, hcreate, hopening⟩

/-- What a path leads to at its place can be statted. -/
theorem statPath_of_resolve {base i : UInt64} {parsed : Path (List UInt8)} {path : List UInt8}
    (hlocated : k.located atFdcwd path = .ok (base, parsed))
    (hi : k.tree.resolve k.env.search true base parsed = .ok i) (hmem : i ∈ k.tree.inodes) :
    ∃ st, unixKernel.statPath k (some path) = .ok st ∧ keyFromStat st = (k.dev, i) := by
  obtain ⟨st, hst⟩ := exists_statInode hmem
  refine ⟨st, ?_, (statInode_eq_ok hst).2.1⟩
  exact fstatat_eq_ok_iff.mpr ⟨i, (resolve_eq hlocated).trans hi, hst⟩

theorem located_withTree {t : FileTree} (h : t.root = k.tree.root) (dirfd : Int32)
    (bytes : List UInt8) : UnixState.located { k with tree := t } dirfd bytes =
      k.located dirfd bytes := by
  unfold located base
  rw [h]
  rfl

namespace Opening

variable {base i : UInt64} {parsed : Path (List UInt8)} {k₁ : UnixState}

theorem located_eq (h : k.Opening base parsed i k₁) (dirfd : Int32) (bytes : List UInt8) :
    k₁.located dirfd bytes = k.located dirfd bytes := by
  cases h with
  | existing => rfl
  | created _ hadd => exact located_withTree (Tree.root_addNew hadd) dirfd bytes

/-- The path leads to the file that is open. -/
theorem resolve (h : k.Opening base parsed i k₁) :
    k₁.tree.resolve k₁.env.search true base parsed = .ok i ∧ i ∈ k₁.tree.inodes := by
  cases h with
  | existing hi hfile =>
      refine ⟨hi, ?_⟩
      rw [← AList.lookup_isSome, ← Option.isSome_map (f := Inode.kind)]
      exact Option.isSome_of_eq_some hfile
  | created htarget hadd =>
      refine ⟨?_, Tree.mem_addNew_self hadd⟩
      exact (Tree.resolve_addNew htarget hadd rfl true).resolve_right fun h => by cases h.1

/-- The path named something that was there, or names the file now, which was not. -/
theorem names (h : k.Opening base parsed i k₁) :
    (∃ j ∈ k.tree.inodes, k.tree.resolve k.env.search false base parsed = .ok j) ∨
      i ∉ k.tree.inodes ∧ k₁.tree.resolve k₁.env.search false base parsed = .ok i := by
  have hlinks : ∀ j, k.tree.isSymlink j = true → j ∈ k.tree.inodes := by
    intro j hj
    unfold Tree.isSymlink Tree.kind? at hj
    rw [← AList.lookup_isSome]
    cases hlookup : k.tree.inodes.lookup j with
    | none => simp [hlookup] at hj
    | some node => rfl
  cases h with
  | existing hi hfile =>
      have hmem : i ∈ k.tree.inodes := (Opening.existing hi hfile).resolve.2
      obtain ⟨j, hj, hcases⟩ := Tree.exists_resolve_nofollow hi
      exact Or.inl ⟨j, hcases.elim (fun h => h ▸ hmem) (hlinks j), hj⟩
  | created htarget hadd =>
      rcases Tree.resolve_addNew htarget hadd rfl false with hi | ⟨-, j, hj, hlink⟩
      · exact Or.inr ⟨(Tree.addNew_eq_ok hadd).1, hi⟩
      · exact Or.inl ⟨j, hlinks j hlink, hj⟩

theorem grows (h : k.Opening base parsed i k₁) : k.Grows k₁ := by
  cases h with
  | existing => exact .refl k
  | created _ hadd => exact ⟨rfl, fun _ hj => Tree.mem_of_mem_addNew hadd hj⟩

theorem dev_eq (h : k.Opening base parsed i k₁) : k₁.dev = k.dev := h.grows.dev_eq

theorem inUse (h : k.Opening base parsed i k₁) : k₁.InUse (k.dev, i) :=
  ⟨h.dev_eq.symm, h.resolve.2⟩

end Opening

/-- Without following a link at its end, a path is statted as what it names. -/
theorem lstat_eq_ok_iff {dirfd : Int32} {path : CStr} {st : Stat} :
    unixKernel.statAt k dirfd path atSymlinkNofollow = .ok st ↔
      ∃ i, k.Names (dirfd, path) i ∧ k.statInode i = .ok st := by
  have hflags : ((path.getD []).isEmpty && decide (atSymlinkNofollow &&& atEmptyPath ≠ 0)) =
      false := by
    rw [show decide (atSymlinkNofollow &&& atEmptyPath ≠ 0) = false from by decide, Bool.and_false]
  have hfollow : decide (atSymlinkNofollow &&& atSymlinkNofollow = 0) = false := by decide
  show k.fstatat dirfd (path.getD []) atSymlinkNofollow = .ok st ↔ _
  unfold fstatat
  rw [hflags, hfollow]
  simp only [Names]
  cases hresolve : k.resolve false dirfd (path.getD []) with
  | error e => simp
  | ok i => simp

end UnixState

inductive MknodCall where
  | mknod (path : CStr)
  | mknodat (dirfd : Int32) (path : CStr)

namespace MknodCall

def hook {κ : Type} (w : Wincode) (kernel : Kernel κ) (k : κ) (mode : UInt32) (dev : UInt64) :
    MknodCall → Hook (Int32 × κ)
  | mknod path => Pseudoroot.mknod w kernel k path mode dev
  | mknodat dirfd path => Pseudoroot.mknodat w kernel k dirfd path mode dev

def place : MknodCall → Int32 × CStr
  | mknod path => (atFdcwd, path)
  | mknodat dirfd path => (dirfd, path)

def real (k : UnixState) (mode : UInt32) (dev : UInt64) (call : MknodCall) : Int32 × UnixState :=
  k.mknodat call.place.1 call.place.2 mode dev

/-- The file that the hook opens, if it does: the path is one that it opens, and opening it
for writing finds or creates the file. -/
def opened (k : UnixState) (call : MknodCall) : Option UInt64 :=
  (resolvePathAt call.place.1 call.place.2).bind k.openedInode

/-- The path names something: a file, a directory, or a symbolic link itself. -/
def Exists (k : UnixState) (call : MknodCall) : Prop :=
  ∃ st, unixKernel.statAt k call.place.1 call.place.2 atSymlinkNofollow = .ok st

theorem hook_eq (w : Wincode) (k : UnixState) (mode : UInt32) (dev : UInt64) (call : MknodCall) :
    call.hook w unixKernel k mode dev = (do
      ensureLibraryInit w
      match resolvePathAt call.place.1 call.place.2 with
      | none => pure (call.real k mode dev)
      | some resolved => do
        let (result, k) ← finishFakeMknod w unixKernel k resolved mode dev
        if result < 0 then pure (call.real k mode dev) else pure (result, k)) := by
  cases call with
  | mknodat dirfd path => rfl
  | mknod path =>
      have hresolved : resolvePathAt atFdcwd path = resolvePathCwd path := by
        simp [resolvePathAt]
      simp only [hook, place, hresolved]
      rfl

section Kernel

variable {k : UnixState} {call : MknodCall} {mode : UInt32} {dev : UInt64}

theorem exists_iff : call.Exists k ↔ ∃ i ∈ k.tree.inodes, k.Names call.place i := by
  constructor
  · rintro ⟨st, hst⟩
    obtain ⟨i, hi, hst⟩ := UnixState.lstat_eq_ok_iff.mp hst
    exact ⟨i, (UnixState.statInode_eq_ok hst).1, hi⟩
  · rintro ⟨i, hmem, hi⟩
    obtain ⟨st, hst⟩ := UnixState.exists_statInode hmem
    exact ⟨st, UnixState.lstat_eq_ok_iff.mpr ⟨i, hi, hst⟩⟩

/-- The real call fails without an effect, or makes a file where the path named nothing. -/
theorem real_cases (k : UnixState) (mode : UInt32) (dev : UInt64) (call : MknodCall) :
    call.real k mode dev = (UnixState.failure, k) ∨
      ¬ call.Exists k ∧ ∃ bytes base parsed made t, call.place.2 = some bytes ∧
        k.located call.place.1 bytes = .ok (base, parsed) ∧ UnixState.madeMode mode = .ok made ∧
        k.tree.create k.env.search base parsed k.env.fresh (fun _ => .file)
          (UnixState.newAttrs made dev) = .ok t ∧
        call.real k mode dev = (0, { k with tree := t }) := by
  rcases k.finish_cases k.env.refused (k.atPath call.place.1 call.place.2 fun base path => do
    let mode ← UnixState.madeMode mode
    k.tree.create k.env.search base path k.env.fresh (fun _ => .file)
      (UnixState.newAttrs mode dev)) with hfail | ⟨t, ht, hok⟩
  · exact Or.inl hfail
  · obtain ⟨bytes, base, parsed, hpath, hlocated, ht⟩ := UnixState.atPath_eq_ok ht
    obtain ⟨made, hmade, ht⟩ := Tree.bind_eq_ok ht
    refine Or.inr ⟨fun hexists => ?_, bytes, base, parsed, made, t, hpath, hlocated, hmade, ht,
      hok⟩
    obtain ⟨i, -, hi⟩ := exists_iff.mp hexists
    rw [show call.place = (call.place.1, some bytes) from Prod.ext rfl hpath,
      UnixState.names_iff hlocated] at hi
    exact (Tree.create_file_eq_ok ht).1 false i hi

end Kernel

/-! ## The hook -/

/-- What the hook returns and leaves of the kernel: what the real call does, or zero and a
file that is open. -/
inductive Does (call : MknodCall) (k : UnixState) (mode : UInt32) (dev : UInt64) :
    Int32 → UnixState → Prop where
  | real (hnone : call.opened k = none) :
      Does call k mode dev (call.real k mode dev).1 (call.real k mode dev).2
  | opens {bytes base parsed i k₁} (hpath : call.place.2 = some bytes)
      (hlocated : k.located call.place.1 bytes = .ok (base, parsed))
      (hsome : call.opened k = some i) (hopening : k.Opening base parsed i k₁) :
      Does call k mode dev 0 k₁

section Does

variable {k k' : UnixState} {call : MknodCall} {mode : UInt32} {dev : UInt64} {r : Int32}

theorem Does.grows (h : call.Does k mode dev r k') : k.Grows k' := by
  cases h with
  | real => exact UnixState.grows_mknodat _ _ mode dev
  | opens _ _ _ hopening => exact hopening.grows

theorem Does.inUse (h : call.Does k mode dev r k') {i : UInt64} (hi : call.opened k = some i) :
    k'.InUse (k.dev, i) := by
  cases h with
  | real hnone =>
      rw [hnone] at hi
      cases hi
  | opens _ _ hsome hopening =>
      obtain rfl := Option.some.inj (hsome.symm.trans hi)
      exact hopening.inUse

end Does

/-- The entry of a special file. -/
def entry (mode : UInt32) (dev : UInt64) (ids : UInt32 × UInt32) : FakeInode :=
  { FakeInode.new ids.1 ids.2 with
    mode := some mode
    rdev := if mode &&& sIfmt = sIfchr ∨ mode &&& sIfmt = sIfblk then some dev else none }

section Exec

variable {n : ℕ} [NeZero n] {w : Wincode} (hw : w.Lawful) {codec : XattrCodec}
  {b : Option Backing} {p : Process} {s : Session n} {k : UnixState}

include hw

/-- Nothing is opened, or a file is, and its entry is written. -/
theorem exec_finishFakeMknod (h : Host.Serves b codec (p, s)) (resolved : List UInt8)
    (mode : UInt32) (dev : UInt64) :
    (k.openedInode resolved = none ∧ exec (Session.handle w codec)
      (finishFakeMknod w unixKernel k resolved mode dev) p s = (((-1, k), p), s)) ∨
    ∃ base parsed i k₁ p' s' written, k.located atFdcwd resolved = .ok (base, parsed) ∧
      k.openedInode resolved = some i ∧ k.Opening base parsed i k₁ ∧
      exec (Session.handle w codec) (finishFakeMknod w unixKernel k resolved mode dev) p s =
        (((0, k₁), p'), s') ∧
      Host.Writes b codec (k.dev, i) written (p, s) (p', s') ∧
      (codec.Lawful → written = Host.stored b codec (entry mode dev (Host.ids b (p, s)))) := by
  rcases k.openCreate_cases resolved with
    ⟨hopened, hopen⟩ | ⟨base, parsed, i, k₁, hlocated, hopened, hopen, hopening⟩
  · have hkernel : unixKernel.openCreate k resolved = (false, k) := hopen
    exact Or.inl ⟨hopened, by simp [finishFakeMknod, hkernel]⟩
  · have hkernel : unixKernel.openCreate k resolved = (true, k₁) := hopen
    obtain ⟨hresolve, hmem⟩ := hopening.resolve
    obtain ⟨st, hstat, hkey⟩ := UnixState.statPath_of_resolve
      ((hopening.located_eq atFdcwd resolved).trans hlocated) hresolve hmem
    rw [hopening.dev_eq] at hkey
    obtain ⟨⟨p₁, huid, hsame₁⟩, -⟩ := h.exec_sessionIds hw
    obtain ⟨-, p₂, hgid, hsame₂⟩ := hsame₁.serves.exec_sessionIds hw
    rw [hsame₁.ids_eq] at hgid
    obtain ⟨p', s', written, hset, hwrites, -, -, hwritten⟩ :=
      hsame₂.serves.exec_setInode hw (keyFromStat st) (entry mode dev (Host.ids b (p, s)))
    refine Or.inr ⟨base, parsed, i, k₁, p', s', written, hlocated, hopened, hopening, ?_,
      hkey ▸ (hwrites.of_same hsame₂).of_same hsame₁, hwritten⟩
    have hentry : exec (Session.handle w codec) (Ownership.setInode w (keyFromStat st)
        { FakeInode.new (Host.ids b (p, s)).1 (Host.ids b (p, s)).2 with
          mode := some mode
          rdev := if mode &&& sIfmt = sIfchr ∨ mode &&& sIfmt = sIfblk then some dev else none })
        p₂ s = (((), p'), s') := hset
    simp [finishFakeMknod, hkernel, hstat, huid, hgid, hentry]

/-- The hook makes the real call, or opens a file and sets its entry to one with the mode. -/
theorem exec_hook (h : Host.Uses b codec (p, s)) (mode : UInt32) (dev : UInt64)
    (call : MknodCall) :
    ∃ r k' p' s', exec (Session.handle w codec) (call.hook w unixKernel k mode dev) p s =
        (((r, k'), p'), s') ∧
      call.Does k mode dev r k' ∧ Host.Uses b codec (p', s') ∧
      Host.Sets b codec ((call.opened k).map fun i => (k.dev, i))
        (fun _ inode => codec.Lawful → inode.mode = Host.storedMode b mode) (p, s) (p', s') := by
  obtain ⟨p₁, s₁, hinit, hserves, htable, hbinds⟩ := h.exec_ensureLibraryInit_binds hw
  rw [hook_eq]
  cases hresolved : resolvePathAt call.place.1 call.place.2 with
  | none =>
      have hnone : call.opened k = none := by simp [opened, hresolved]
      exact ⟨_, _, p₁, s₁, by simp [hinit], .real hnone, hserves.uses,
        hnone ▸ .of_none htable⟩
  | some resolved =>
      have hopened : call.opened k = k.openedInode resolved := by simp [opened, hresolved]
      rcases exec_finishFakeMknod hw hserves resolved mode dev with
        ⟨hnone, hexec⟩ | ⟨base, parsed, i, k₁, p', s', written, hlocated, hsome, hopening, hexec,
          hwrites, hwritten⟩
      · rw [← hopened] at hnone
        exact ⟨_, _, p₁, s₁, by simp [hinit, hexec], .real hnone, hserves.uses,
          hnone ▸ .of_none htable⟩
      · obtain ⟨bytes, hpath, hlocated⟩ := UnixState.located_of_resolvePathAt hresolved hlocated
        rw [← hopened] at hsome
        refine ⟨0, k₁, p', s', by simp [hinit, hexec], .opens hpath hlocated hsome hopening,
          hwrites.serves.uses, ?_⟩
        rw [hsome]
        refine hwrites.sets htable hbinds fun hcodec => ?_
        rw [hwritten hcodec, Host.mode_stored]
        rfl

end Exec

/-! ## Exclusive creation -/

section Exclusive

variable {n : ℕ} [NeZero n]

/-- The path names the file with this key now, which was not there before. -/
def Created (call : MknodCall) (k k' : UnixState) (key : InodeKey) : Prop :=
  ¬ k.InUse key ∧ ∃ st,
    unixKernel.statAt k' call.place.1 call.place.2 atSymlinkNofollow = .ok st ∧
      keyFromStat st = key

/-- Where the path names something the call returns an error and leaves the table, and a call
that succeeds changes the entry of the file that it has created alone. -/
def Exclusive (w : Wincode) (codec : XattrCodec) (b : Option Backing) (call : MknodCall)
    (k : UnixState) (mode : UInt32) (dev : UInt64) (x : Host n) : Prop :=
  let after := x.run w codec (call.hook w unixKernel k mode dev)
  (call.Exists k → after.1.1 < 0 ∧ after.2.table b codec = x.table b codec) ∧
    (after.1.1 = 0 → ∀ key, after.2.table b codec key ≠ x.table b codec key →
      call.Created k after.1.2 key)

omit [NeZero n] in
theorem created_of_opening {call : MknodCall} {k k₁ : UnixState} {bytes : List UInt8}
    {base i : UInt64} {parsed : Path (List UInt8)} (hpath : call.place.2 = some bytes)
    (hlocated : k.located call.place.1 bytes = .ok (base, parsed))
    (hopening : k.Opening base parsed i k₁) (hnew : ¬ call.Exists k) :
    call.Created k k₁ (k.dev, i) := by
  have hplace : call.place = (call.place.1, some bytes) := Prod.ext rfl hpath
  have hnames : i ∉ k.tree.inodes ∧ k₁.Names call.place i := by
    rcases hopening.names with ⟨j, hmem, hj⟩ | ⟨hmem, hi⟩
    · rw [exists_iff, hplace] at hnew
      exact absurd ⟨j, hmem, (UnixState.names_iff hlocated).mpr hj⟩ hnew
    · rw [hplace, UnixState.names_iff ((hopening.located_eq _ _).trans hlocated)]
      exact ⟨hmem, hi⟩
  obtain ⟨st, hst⟩ := UnixState.exists_statInode hopening.resolve.2
  refine ⟨fun hused => hnames.1 hused.2, st,
    UnixState.lstat_eq_ok_iff.mpr ⟨i, hnames.2, hst⟩, ?_⟩
  rw [(UnixState.statInode_eq_ok hst).2.1, hopening.dev_eq]

/-- A call creates exclusively exactly when what it opens for writing, if anything, is not at
a path that named something. -/
theorem exclusive_iff {w : Wincode} (hw : w.Lawful) {codec : XattrCodec} {b : Option Backing}
    {x : Host n} (hx : x.Uses b codec) (call : MknodCall) (k : UnixState) (mode : UInt32)
    (dev : UInt64) :
    call.Exclusive w codec b k mode dev x ↔ (call.Exists k → call.opened k = none) := by
  obtain ⟨p, s⟩ := x
  obtain ⟨r, k', p', s', hexec, hdoes, -, hsets⟩ := exec_hook (k := k) hw hx mode dev call
  simp only [Exclusive, Host.run, hexec]
  cases hdoes with
  | real hnone =>
      have htable : Host.table b codec (p', s') = Host.table b codec (p, s) := by
        rw [hnone] at hsets
        exact hsets.table_eq_of_none
      refine iff_of_true ⟨fun hexists => ⟨?_, htable⟩, fun _ key hkey => ?_⟩ fun _ => hnone
      · rcases real_cases k mode dev call with hfail | ⟨hnew, -⟩
        · rw [hfail]
          exact show UnixState.failure < 0 by decide
        · exact absurd hexists hnew
      · exact absurd (congrFun htable key) hkey
  | @opens bytes base parsed i k₁ hpath hlocated hsome hopening =>
      have hzero : ¬ (0 : Int32) < 0 := by decide
      rw [hsome]
      constructor
      · intro h hexists
        exact absurd (h.1 hexists).1 hzero
      · intro h
        have hnew : ¬ call.Exists k := fun hexists => by cases h hexists
        refine ⟨fun hexists => absurd hexists hnew, fun _ key hkey => ?_⟩
        rw [hsome] at hsets
        obtain rfl : key = (k.dev, i) := by
          by_contra hne
          exact hkey (hsets.table_of_ne hne)
        exact created_of_opening hpath hlocated hopening hnew

end Exclusive

/-! ### A device where a file was -/

/-- A process without a session. -/
def alone : Host 1 := (Process.withoutSession 0 0, Session.start 1 0 0)

theorem uses_alone : alone.Uses none XattrCodec.wincode :=
  ⟨trivial, Or.inr (Process.alone_withoutSession 0 0)⟩

/-- A directory with an open descriptor and a symbolic link to nothing. -/
def withLink : UnixState :=
  let k := (UnixState.empty.symlink (some [103]) (some [108])).2
  { k with env := { k.env with fds := fun fd => if fd = 3 then some 1 else none, fresh := 3 } }

example : (mknodat 3 (some [102])).opened withLink = some 3 := by decide +kernel

example : (mknod (some [108])).opened withLink = some 3 := by decide +kernel

/-- A device is made below the descriptor, where nothing was. -/
theorem exclusive_iff_mknodat :
    (mknodat 3 (some [102])).Exclusive Wincode.bincode XattrCodec.wincode none withLink
        0o020644 259 alone ↔
      ((mknodat 3 (some [102])).Exists withLink →
        (mknodat 3 (some [102])).opened withLink = none) :=
  exclusive_iff Wincode.bincode_lawful uses_alone _ _ _ _

/-- A regular file becomes a device. -/
theorem existing_file_made_device :
    let file : CStr := some [102]
    let k := (UnixState.empty.creat file 0o644).2
    ¬ (mknod file).Exclusive Wincode.bincode XattrCodec.wincode none k 0o020644 259 alone := by
  intro file k h
  have hexists : (mknod file).Exists k := by
    refine ⟨⟨1, 2, 0o100644, 1, 0, 0, 0⟩, ?_⟩
    decide +kernel
  have hstatus : (alone.run Wincode.bincode XattrCodec.wincode
      ((mknod file).hook Wincode.bincode unixKernel k 0o020644 259)).1.1 = 0 := by
    decide +kernel
  have herror := (h.1 hexists).1
  rw [hstatus] at herror
  exact absurd herror (by decide)

end MknodCall

end Pseudoroot
