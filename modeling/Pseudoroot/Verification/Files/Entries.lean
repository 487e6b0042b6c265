import Pseudoroot.Model.Xattr
import Pseudoroot.Verification.Files.Chmod

/-! # What a hook sets in the table

A hook that records something sets the entry of the file that it finds, and no other. -/

namespace Pseudoroot

open Calls Calls.Program FileSystem

/-- The key of the file that a source leads to. -/
def StatSource.key (k : UnixState) (source : StatSource) : Option InodeKey :=
  (source.stat unixKernel k).toOption.map keyFromStat

theorem StatSource.key_of_ok {k : UnixState} {source : StatSource} {st : Stat}
    (h : source.stat unixKernel k = .ok st) : source.key k = some (keyFromStat st) := by
  rw [StatSource.key, h]
  rfl

theorem StatSource.key_of_error {k : UnixState} {source : StatSource} {e : Int32}
    (h : source.stat unixKernel k = .error e) : source.key k = none := by
  rw [StatSource.key, h]
  rfl

theorem StatSource.inUse_of_key {k : UnixState} {source : StatSource} {key : InodeKey}
    (h : source.key k = some key) : k.InUse key := by
  cases hstat : source.stat unixKernel k with
  | error e =>
      rw [key_of_error hstat] at h
      cases h
  | ok st =>
      rw [key_of_ok hstat] at h
      injection h with h
      exact h ▸ UnixState.inUse_of_stat hstat

namespace Host

variable {n : ℕ} [NeZero n] {b : Option Backing} {codec : XattrCodec} {x y z : Host n}

/-- From `x` to `y` the entry of the key that is found, if one is, has been set to one with a
property, if the table takes it. -/
def Sets (b : Option Backing) (codec : XattrCodec) (found : Option InodeKey)
    (W : InodeKey → FakeInode → Prop) (x y : Host n) : Prop :=
  (y.table b codec = x.table b codec ∧ ∀ key, found = some key → ¬ x.Binds b codec key) ∨
    ∃ key inode, found = some key ∧ x.Binds b codec key ∧ W key inode ∧
      y.table b codec = Function.update (x.table b codec) key (some inode)

theorem Sets.of_none {W : InodeKey → FakeInode → Prop}
    (h : y.table b codec = x.table b codec) : Sets b codec none W x y :=
  Or.inl ⟨h, fun _ hkey => by cases hkey⟩

theorem Sets.mono {found : Option InodeKey} {W W' : InodeKey → FakeInode → Prop}
    (h : Sets b codec found W x y) (hW : ∀ key inode, W key inode → W' key inode) :
    Sets b codec found W' x y := by
  rcases h with hkept | ⟨key, inode, hkey, hbinds, hwritten, htable⟩
  · exact Or.inl hkept
  · exact Or.inr ⟨key, inode, hkey, hbinds, hW key inode hwritten, htable⟩

theorem Sets.table_eq_of_none {W : InodeKey → FakeInode → Prop} (h : Sets b codec none W x y) :
    y.table b codec = x.table b codec := by
  rcases h with ⟨htable, -⟩ | ⟨key, inode, hkey, -⟩
  · exact htable
  · cases hkey

/-- No other entry has changed. -/
theorem Sets.table_of_ne {found key : InodeKey} {W : InodeKey → FakeInode → Prop}
    (h : Sets b codec (some found) W x y) (hne : key ≠ found) :
    y.table b codec key = x.table b codec key := by
  rcases h with ⟨htable, -⟩ | ⟨key', inode, hkey, -, -, htable⟩
  · rw [htable]
  · injection hkey with hkey
    rw [htable, Function.update_of_ne (hkey ▸ hne)]

/-- The table takes an entry where it has one. -/
theorem binds_of_table {key : InodeKey} (h : x.table b codec key ≠ none) :
    x.Binds b codec key := by
  cases b with
  | none => trivial
  | some b =>
      cases b with
      | shm => exact Or.inl h
      | daemon => trivial

/-- A write after something that leaves the table. -/
theorem Writes.sets {key : InodeKey} {inode : FakeInode} {W : InodeKey → FakeInode → Prop}
    (h : Writes b codec key inode y z) (htable : y.table b codec = x.table b codec)
    (hbinds : ∀ key, y.Binds b codec key ↔ x.Binds b codec key) (hW : W key inode) :
    Sets b codec (some key) W x z := by
  by_cases hkey : y.Binds b codec key
  · exact Or.inr ⟨key, inode, rfl, (hbinds key).mp hkey, hW, htable ▸ h.table_of_binds hkey⟩
  · refine Or.inl ⟨htable ▸ h.table_of_not_binds hkey, ?_⟩
    rintro key' h' hkey'
    injection h' with h'
    exact hkey (h' ▸ (hbinds key').mpr hkey')

/-- The mode of the entry, if it has one, is that of the entry in the table. -/
def KeepsMode (b : Option Backing) (codec : XattrCodec) (x : Host n) (key : InodeKey)
    (inode : FakeInode) : Prop :=
  ∀ m, inode.mode = some m → ∃ old, x.table b codec key = some old ∧ old.mode = some m

/-- The mode that the table keeps of one that is recorded. -/
def storedMode (b : Option Backing) (m : UInt32) : Option UInt32 :=
  if b = some .shm ∧ m = 0 then none else some m

theorem mode_stored (b : Option Backing) (codec : XattrCodec) (inode : FakeInode) :
    (Host.stored b codec inode).mode = inode.mode.bind (storedMode b) := by
  cases hmode : inode.mode with
  | none =>
      cases b with
      | none => simp [stored, hmode]
      | some b => cases b <;> simp [stored, XattrCodec.storedInode, hmode]
  | some m =>
      have hwith : inode = { inode with mode := some m } := by rw [← hmode]
      rw [hwith, ChmodCall.stored_withMode, Option.bind_some]
      rfl

theorem keepsMode_base (key : InodeKey) : KeepsMode b codec x key (x.base b codec key) := by
  intro m h
  unfold base at h
  cases hold : x.table b codec key with
  | some old => exact ⟨old, rfl, by simpa [hold] using h⟩
  | none => simp [hold, FakeInode.new] at h

theorem keepsMode_chownBase (key : InodeKey) :
    KeepsMode b codec x key (x.chownBase b codec key) := by
  unfold chownBase
  split
  · intro m h
    cases hold : x.2.daemon.state.getInode key with
    | some old => exact ⟨old, by simp [table, hold], by simpa [hold] using h⟩
    | none => simp [hold, FakeInode.new] at h
  · exact keepsMode_base key

/-- What an entry keeps of the mode of another one. -/
theorem KeepsMode.of_mode {key : InodeKey} {inode inode' : FakeInode}
    (h : KeepsMode b codec x key inode)
    (hmode : ∀ m, inode'.mode = some m → inode.mode = some m) :
    KeepsMode b codec x key inode' :=
  fun m hm => h m (hmode m hm)

theorem KeepsMode.of_table_eq {key : InodeKey} {inode : FakeInode}
    (h : KeepsMode b codec y key inode) (htable : y.table b codec = x.table b codec) :
    KeepsMode b codec x key inode := by
  intro m hm
  rw [← htable]
  exact h m hm

theorem storedMode_eq_some {m m' : UInt32} (h : storedMode b m = some m') : m = m' := by
  unfold storedMode at h
  split at h
  · cases h
  · injection h

end Host

section Exec

variable {n : ℕ} [NeZero n] {w : Wincode} (hw : w.Lawful) {codec : XattrCodec}
  {b : Option Backing} {p : Process} {s : Session n} {k : UnixState}

include hw

/-- A chown keeps the mode of the entry. -/
theorem exec_recordChown (h : Host.Uses b codec (p, s)) (source : StatSource) (uid gid : UInt32) :
    ∃ r p' s', exec (Session.handle w codec)
        (Ownership.recordChown w unixKernel k source uid gid) p s = ((r, p'), s') ∧
      Host.Uses b codec (p', s') ∧
      Host.Sets b codec (source.key k) (Host.KeepsMode b codec (p, s)) (p, s) (p', s') := by
  obtain ⟨p₁, s₁, hinit, hserves, htable, hbinds⟩ := h.exec_ensureLibraryInit_binds hw
  cases hstat : source.stat unixKernel k with
  | error e =>
      rw [StatSource.key_of_error hstat]
      exact ⟨e, p₁, s₁, by simp [Ownership.recordChown, hinit, hstat], hserves.uses,
        .of_none htable⟩
  | ok st =>
      rw [StatSource.key_of_ok hstat]
      obtain ⟨p', s', hexec, hwrites⟩ := hserves.exec_recordChownKey hw (keyFromStat st) uid gid
      have hbase : Host.KeepsMode b codec (p₁, s₁) (keyFromStat st) _ :=
        Host.keepsMode_chownBase (keyFromStat st)
      have hkeeps := hbase.of_table_eq htable
      exact ⟨0, p', s', by simp [Ownership.recordChown, hinit, hstat, hexec],
        hwrites.serves.uses, hwrites.sets htable hbinds (hkeeps.of_mode fun m hm => hm)⟩

/-- An attribute that is set keeps the mode of the entry. -/
theorem exec_fakeSetxattr (h : Host.Uses b codec (p, s)) (source : StatSource)
    (name value : CStr) :
    ∃ r p' s', exec (Session.handle w codec)
        (Ownership.fakeSetxattr w unixKernel k source name value) p s = ((r, p'), s') ∧
      Host.Uses b codec (p', s') ∧
      Host.Sets b codec ((Ownership.readCstr name).bind fun _ => source.key k)
        (fun key inode => codec.Lawful → Host.KeepsMode b codec (p, s) key inode) (p, s)
        (p', s') := by
  obtain ⟨p₁, s₁, hinit, hserves, htable, hbinds⟩ := h.exec_ensureLibraryInit_binds hw
  cases hname : Ownership.readCstr name with
  | none =>
      exact ⟨_, p₁, s₁, by simp [Ownership.fakeSetxattr, hinit, hname]; rfl, hserves.uses,
        .of_none htable⟩
  | some nameKey =>
      rw [Option.bind_some]
      cases hstat : source.stat unixKernel k with
      | error e =>
          rw [StatSource.key_of_error hstat]
          exact ⟨e, p₁, s₁, by simp [Ownership.fakeSetxattr, hinit, hname, hstat], hserves.uses,
            .of_none htable⟩
      | ok st =>
          rw [StatSource.key_of_ok hstat]
          obtain ⟨p', s', written, hexec, hwrites, -, -, hwritten⟩ :=
            hserves.exec_updateInode hw (keyFromStat st)
            fun inode =>
              { inode with
                xattrs := inode.xattrs.insert nameKey (Ownership.readXattrValue value) }
          have hbase : Host.KeepsMode b codec (p₁, s₁) (keyFromStat st) _ :=
            Host.keepsMode_base (keyFromStat st)
          have hkeeps := hbase.of_table_eq htable
          refine ⟨0, p', s',
            by simp [Ownership.fakeSetxattr, Ownership.recordXattrForKey, hinit, hname, hstat,
              hexec],
            hwrites.serves.uses, hwrites.sets htable hbinds fun hcodec => ?_⟩
          refine hkeeps.of_mode fun m hm => ?_
          rw [hwritten hcodec, Host.mode_stored] at hm
          obtain ⟨old, hold, hm⟩ := Option.bind_eq_some_iff.mp hm
          exact hold.trans (congrArg some (Host.storedMode_eq_some hm))

/-- A chmod records the composed mode. -/
theorem exec_recordChmod (h : Host.Uses b codec (p, s)) (source : StatSource) (mode : UInt32) :
    ∃ r k' p' s', exec (Session.handle w codec)
        (Ownership.recordChmod w unixKernel k source mode) p s = (((r, k'), p'), s') ∧
      (k' = k ∨ k' = (k.chmod source mode).2) ∧ Host.Uses b codec (p', s') ∧
      Host.Sets b codec (source.key k)
        (fun _ inode => codec.Lawful → ∃ st, source.stat unixKernel k = .ok st ∧
          inode.mode = Host.storedMode b (Ownership.composeMode st.mode mode)) (p, s)
        (p', s') := by
  obtain ⟨p₁, s₁, hinit, hserves, htable, hbinds⟩ := h.exec_ensureLibraryInit_binds hw
  cases hstat : source.stat unixKernel k with
  | error e =>
      rw [StatSource.key_of_error hstat]
      exact ⟨e, k, p₁, s₁, by simp [Ownership.recordChmod, hinit, hstat], Or.inl rfl,
        hserves.uses, .of_none htable⟩
  | ok st =>
      rw [StatSource.key_of_ok hstat]
      obtain ⟨p', s', written, hexec, hwrites, hwritten⟩ :=
        hserves.exec_recordChmod hw unixKernel k hstat mode
      refine ⟨_, _, p', s',
        (exec_recordChmod_of_init unixKernel k hinit hserves source mode).trans hexec,
        Or.inr rfl, hwrites.serves.uses,
        hwrites.sets htable hbinds fun hcodec => ⟨st, rfl, ?_⟩⟩
      rw [hwritten hcodec, Host.mode_stored, Option.bind_some]

end Exec

end Pseudoroot
