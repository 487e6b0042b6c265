import Pseudoroot.Library.Runs
import Pseudoroot.Verification.Files.Mknod

/-! # File types of the recorded modes

A mode gets into the table by a chmod, with the type of the real file, or by a mknod, with
the type that it asks for. -/

namespace Pseudoroot

open Calls Calls.Program FileSystem

/-! ## The type of a real file -/

namespace UnixState

def fileType (k : UnixState) (i : UInt64) : UInt32 :=
  ((k.tree.inodes.lookup i).map fun node => node.attrs.mode &&& sIfmt).getD 0

def Typed (k : UnixState) : Prop := ∀ i ∈ k.tree.inodes, k.fileType i ≠ 0

/-- The type that a mode asks for: without type bits it is a regular file. -/
def requestedType (mode : UInt32) : UInt32 :=
  if mode &&& sIfmt = 0 then sIfreg else mode &&& sIfmt

variable {k k' : UnixState}

theorem fileType_of_statInode {i : UInt64} {st : Stat} (h : k.statInode i = .ok st) :
    st.mode &&& sIfmt = k.fileType i := by
  unfold statInode at h
  unfold fileType
  cases hi : k.tree.inodes.lookup i with
  | none => rw [hi] at h; cases h
  | some node =>
      rw [hi] at h
      injection h with h
      rw [← h]
      rfl

theorem fileType_of_attrs {i : UInt64} {attrs : Attrs}
    (h : (k.tree.inodes.lookup i).map Inode.attrs = some attrs) :
    k.fileType i = attrs.mode &&& sIfmt := by
  obtain ⟨node, hnode, rfl⟩ := Option.map_eq_some_iff.mp h
  simp [fileType, hnode]

/-- The files of one state have their types in the other one, where all have one if they did. -/
structure KeepsTypes (k k' : UnixState) : Prop where
  grows : k.Grows k'
  fileType_eq : ∀ i ∈ k.tree.inodes, k'.fileType i = k.fileType i
  typed : k.Typed → k'.Typed

theorem KeepsTypes.refl (k : UnixState) : k.KeepsTypes k := ⟨.refl k, fun _ _ => rfl, id⟩

theorem keepsTypes_addNew {e i : UInt64} {n : List UInt8} {attrs : Attrs} {t : FileTree}
    (h : k.tree.addNew e n i ⟨.file, 1, attrs⟩ = .ok t) (htype : attrs.mode &&& sIfmt ≠ 0) :
    k.KeepsTypes { k with tree := t } := by
  have hold : ∀ j ∈ k.tree.inodes, UnixState.fileType { k with tree := t } j = k.fileType j := by
    intro j hj
    obtain ⟨node, hnode⟩ := Option.isSome_iff_exists.mp (AList.lookup_isSome.mpr hj)
    have hattrs : (k.tree.inodes.lookup j).map Inode.attrs = some node.attrs := by simp [hnode]
    rw [fileType_of_attrs hattrs, fileType_of_attrs ((Tree.attrs_addNew_of_mem h hj).trans hattrs)]
  refine ⟨⟨rfl, fun _ hj => Tree.mem_of_mem_addNew h hj⟩, hold, fun htyped j hj => ?_⟩
  by_cases hji : j = i
  · rw [hji, fileType_of_attrs (Tree.attrs_addNew_self h)]
    exact htype
  · have hmem : j ∈ k.tree.inodes := by
      rw [← AList.lookup_isSome, Tree.lookup_addNew h, if_neg hji, Option.isSome_map] at hj
      exact AList.lookup_isSome.mp hj
    rw [hold j hmem]
    exact htyped j hmem

theorem Opening.keepsTypes {base i : UInt64} {parsed : Path (List UInt8)}
    (h : k.Opening base parsed i k') : k.KeepsTypes k' := by
  cases h with
  | existing => exact .refl k
  | created _ hadd => exact keepsTypes_addNew hadd (by decide)

theorem keepsTypes_setAttrs {f : Attrs → Attrs}
    (hf : ∀ attrs, (f attrs).mode &&& sIfmt = attrs.mode &&& sIfmt) (i : UInt64) :
    k.KeepsTypes { k with tree := k.tree.setAttrs i f } := by
  have htypes : ∀ j,
      UnixState.fileType { k with tree := k.tree.setAttrs i f } j = k.fileType j := by
    intro j
    by_cases hji : j = i
    · subst hji
      simp only [fileType, Tree.setAttrs, Tree.lookup_modify_self, Option.map_map]
      congr 2
      funext node
      exact hf node.attrs
    · simp only [fileType, Tree.setAttrs, Tree.lookup_modify_of_ne hji]
  refine ⟨⟨rfl, fun j hj => Tree.mem_modify.mpr hj⟩, fun j _ => htypes j, fun htyped j hj => ?_⟩
  rw [htypes]
  exact htyped j (Tree.mem_modify.mp hj)

theorem keepsTypes_chmod (source : StatSource) (mode : UInt32) :
    k.KeepsTypes (k.chmod source mode).2 := by
  rcases k.finish_cases k.env.refused ((k.chmodTarget source).map fun i =>
    k.tree.setAttrs i fun attrs =>
      { attrs with mode := Ownership.composeMode attrs.mode mode }) with hfail | ⟨t, ht, hok⟩
  · rw [chmod, hfail]
    exact .refl k
  · rw [chmod, hok]
    obtain ⟨i, -, hi⟩ := Tree.bind_eq_ok ((map_eq_pure_bind _ _).symm.trans ht)
    injection hi with hi
    subst hi
    exact keepsTypes_setAttrs (fun attrs => composeMode_and_sIfmt attrs.mode mode) i

theorem type_of_madeMode {mode made : UInt32} (h : madeMode mode = .ok made) :
    made &&& sIfmt ≠ 0 := by
  have hsplit : (sIfreg ||| mode) &&& sIfmt = sIfreg ||| mode &&& sIfmt := by
    apply UInt32.eq_of_toBitVec_eq
    simp only [UInt32.toBitVec_and, UInt32.toBitVec_or]
    exact BitVec.and_or_distrib_right
  unfold madeMode at h
  dsimp only at h
  split at h
  · rename_i hkind
    injection h with h
    rw [← h, hsplit, hkind]
    decide
  · rename_i hkind
    split at h
    · injection h with h
      exact h ▸ hkind
    · cases h

end UnixState

/-- After a mknod the files that were there have their types, and a call that returns zero
leads to the file that was opened, or to one that was not there. -/
theorem MknodCall.Does.keepsTypes {call : MknodCall} {k k' : UnixState} {mode : UInt32}
    {dev : UInt64} {r : Int32} (h : call.Does k mode dev r k') :
    k.KeepsTypes k' ∧ (r = 0 → ∃ st, unixKernel.statAt k' call.place.1 call.place.2 0 = .ok st ∧
      (call.opened k = some st.ino ∨ call.opened k = none ∧ st.ino ∉ k.tree.inodes) ∧
      st.dev = k.dev) := by
  have hstat : ∀ {k' : UnixState} {bytes : List UInt8} {base i : UInt64}
      {parsed : Path (List UInt8)}, call.place.2 = some bytes → k'.dev = k.dev →
      k'.located call.place.1 bytes = .ok (base, parsed) →
      k'.tree.resolve k'.env.search true base parsed = .ok i → i ∈ k'.tree.inodes →
      ∃ st, unixKernel.statAt k' call.place.1 call.place.2 0 = .ok st ∧ st.ino = i ∧
        st.dev = k.dev := by
    intro k' bytes base i parsed hpath hdev hlocated hi hmem
    obtain ⟨st, hst⟩ := UnixState.exists_statInode hmem
    obtain ⟨-, hkey, -⟩ := UnixState.statInode_eq_ok hst
    refine ⟨st, ?_, congrArg Prod.snd hkey, (congrArg Prod.fst hkey).trans hdev⟩
    rw [hpath]
    exact UnixState.fstatat_eq_ok_iff.mpr ⟨i, (UnixState.resolve_eq hlocated).trans hi, hst⟩
  cases h with
  | opens hpath hlocated hsome hopening =>
      refine ⟨hopening.keepsTypes, fun _ => ?_⟩
      obtain ⟨hresolve, hmem⟩ := hopening.resolve
      obtain ⟨st, hst, hino, hdev⟩ := hstat hpath hopening.dev_eq
        ((hopening.located_eq _ _).trans hlocated) hresolve hmem
      exact ⟨st, hst, Or.inl (hino ▸ hsome), hdev⟩
  | real hnone =>
      rcases real_cases k mode dev call with
        hfail | ⟨-, bytes, base, parsed, made, t, hpath, hlocated, hmade, hcreate, hok⟩
      · rw [hfail]
        exact ⟨.refl k, fun h => absurd h UnixState.failure_ne_zero⟩
      · rw [hok]
        obtain ⟨-, hresolve, e, n, hadd⟩ := Tree.create_file_eq_ok hcreate
        refine ⟨UnixState.keepsTypes_addNew hadd (UnixState.type_of_madeMode hmade), fun _ => ?_⟩
        obtain ⟨st, hst, hino, hdev⟩ := @hstat { k with tree := t } _ _ _ _ hpath rfl
          ((UnixState.located_withTree (Tree.root_addNew hadd) _ _).trans hlocated) hresolve
          (Tree.mem_addNew_self hadd)
        exact ⟨st, hst, Or.inr ⟨hnone, hino ▸ (Tree.addNew_eq_ok hadd).1⟩, hdev⟩

/-! ## Runs -/

inductive ModeCall where
  | chown (source : StatSource) (uid gid : UInt32)
  | setxattr (source : StatSource) (name value : CStr)
  | chmod (call : ChmodCall) (mode : UInt32)
  | mknod (call : MknodCall) (mode : UInt32) (dev : UInt64)

/-- A process with what it shares, on a kernel, and the type that the last successful mknod
of each file has asked for. -/
structure ModeRun (n : ℕ) where
  kernel : UnixState
  host : Host n
  requested : InodeKey → Option UInt32

namespace ModeRun

variable {n : ℕ} [NeZero n]

/-- The types that are requested after a call that has returned. -/
def request (call : MknodCall) (mode : UInt32) (k : UnixState) (status : Int32)
    (requested : InodeKey → Option UInt32) : InodeKey → Option UInt32 :=
  if status = 0 then
    match unixKernel.statAt k call.place.1 call.place.2 0 with
    | .ok st => Function.update requested (keyFromStat st) (some (UnixState.requestedType mode))
    | .error _ => requested
  else requested

section Request

variable {k k' : UnixState} {call : MknodCall} {mode : UInt32} {dev : UInt64} {r : Int32}
  {requested : InodeKey → Option UInt32}

/-- A mknod that the hook leaves to the real call asks for the type of a new file. -/
theorem request_of_not_opened (hdoes : call.Does k mode dev r k')
    (hopened : call.opened k = none) {key : InodeKey} (hkey : k.InUse key) :
    request call mode k' r requested key = requested key := by
  unfold request
  split
  · rename_i hzero
    obtain ⟨st, hst, hcases, -⟩ := hdoes.keepsTypes.2 hzero
    have hnew : st.ino ∉ k.tree.inodes := by
      rcases hcases with hsome | ⟨-, hnew⟩
      · rw [hopened] at hsome
        cases hsome
      · exact hnew
    have hne : key ≠ keyFromStat st := by
      rintro rfl
      exact hnew hkey.2
    rw [hst]
    exact Function.update_of_ne hne _ _
  · rfl

/-- A mknod whose file the hook opens asks for the type of that file. -/
theorem request_of_opened (hdoes : call.Does k mode dev r k') {i : UInt64}
    (hopened : call.opened k = some i) :
    request call mode k' r requested =
      Function.update requested (k.dev, i) (some (UnixState.requestedType mode)) := by
  have hzero : r = 0 := by
    cases hdoes with
    | real hnone =>
        rw [hopened] at hnone
        cases hnone
    | opens => rfl
  obtain ⟨st, hst, hcases, hdev⟩ := hdoes.keepsTypes.2 hzero
  have hkey : keyFromStat st = (k.dev, i) := by
    rcases hcases with hsome | ⟨hnone, -⟩
    · rw [hopened] at hsome
      injection hsome with hsome
      rw [hsome]
      exact Prod.ext hdev rfl
    · rw [hopened] at hnone
      cases hnone
  rw [request, if_pos hzero, hst, ← hkey]

end Request

/-- A call in an environment, which can be any. -/
def step (w : Wincode) (codec : XattrCodec) (c : ModeRun n) (e : Environment × ModeCall) :
    ModeRun n :=
  let k := { c.kernel with env := e.1 }
  match e.2 with
  | .chown source uid gid =>
    ⟨k, (c.host.run w codec (Ownership.recordChown w unixKernel k source uid gid)).2, c.requested⟩
  | .setxattr source name value =>
    ⟨k, (c.host.run w codec (Ownership.fakeSetxattr w unixKernel k source name value)).2,
      c.requested⟩
  | .chmod chmodCall mode =>
    let after := c.host.run w codec (chmodCall.hook w unixKernel k mode)
    ⟨after.1.2, after.2, c.requested⟩
  | .mknod mknodCall mode dev =>
    let after := c.host.run w codec (mknodCall.hook w unixKernel k mode dev)
    ⟨after.1.2, after.2, request mknodCall mode after.1.2 after.1.1 c.requested⟩

/-- The type of a file: the one that was requested, else that of the real file. -/
def kind (c : ModeRun n) (key : InodeKey) : UInt32 :=
  (c.requested key).getD (c.kernel.fileType key.2)

/-- A mode has type bits, those of the type, and is therefore not zero. -/
structure NamesType (kind mode : UInt32) : Prop where
  typed : mode &&& sIfmt ≠ 0
  kind_eq : mode &&& sIfmt = kind
  ne_zero : mode ≠ 0

/-- Every recorded mode names the type of its file. -/
def NamesTypes (b : Option Backing) (codec : XattrCodec) (c : ModeRun n) : Prop :=
  ∀ key inode mode, c.host.table b codec key = some inode → inode.mode = some mode →
    NamesType (c.kind key) mode

/-- A chmod that records a mode is of a file whose requested type, if there is one, is that of
the real file, and a mknod records no mode without type bits. -/
def KeepsType (b : Option Backing) (codec : XattrCodec) (c : ModeRun n) :
    Environment × ModeCall → Prop
  | (env, .chmod chmodCall _) =>
    let k := { c.kernel with env := env }
    ∀ st, chmodCall.source.stat unixKernel k = .ok st → c.host.Binds b codec (keyFromStat st) →
      (c.requested (keyFromStat st)).getD (st.mode &&& sIfmt) = st.mode &&& sIfmt
  | (env, .mknod mknodCall mode _) =>
    let k := { c.kernel with env := env }
    ∀ i, mknodCall.opened k = some i → c.host.Binds b codec (k.dev, i) →
      mode &&& sIfmt ≠ 0 ∨ b = some .shm ∧ mode = 0
  | _ => True

structure Inv (b : Option Backing) (codec : XattrCodec) (c : ModeRun n) : Prop where
  uses : c.host.Uses b codec
  typed : c.kernel.Typed
  inUse : ∀ key, c.host.table b codec key ≠ none → c.kernel.InUse key

section Steps

variable {w : Wincode} {codec : XattrCodec} {b : Option Backing} {c : ModeRun n}
  {k' : UnixState} {y : Host n} {requested : InodeKey → Option UInt32}

theorem Inv.of_sets {found : Option InodeKey} {W : InodeKey → FakeInode → Prop} (hc : c.Inv b codec)
    (hkeeps : c.kernel.KeepsTypes k') (huses : y.Uses b codec)
    (hsets : Host.Sets b codec found W c.host y)
    (hfound : ∀ key, found = some key → k'.InUse key) : Inv b codec ⟨k', y, requested⟩ := by
  refine ⟨huses, hkeeps.typed hc.typed, fun key hentry => ?_⟩
  have hold : c.host.table b codec key ≠ none → k'.InUse key :=
    fun h => hkeeps.grows.inUse (hc.inUse key h)
  rcases hsets with ⟨htable, -⟩ | ⟨key', inode, hkey', -, -, htable⟩
  · exact hold (htable ▸ hentry)
  · by_cases heq : key = key'
    · exact hfound key (heq ▸ hkey')
    · refine hold ?_
      have hentry' : y.table b codec key ≠ none := hentry
      rwa [htable, Function.update_of_ne heq] at hentry'

omit [NeZero n] in
theorem namesType_iff {kind mode : UInt32} :
    NamesType kind mode ↔ mode &&& sIfmt ≠ 0 ∧ mode &&& sIfmt = kind := by
  refine ⟨fun h => ⟨h.typed, h.kind_eq⟩, fun h => ⟨h.1, h.2, ?_⟩⟩
  rintro rfl
  exact h.1 (by decide)

/-- A file with an entry has the type that it had, if no other one was requested. -/
theorem kind_eq (hc : c.Inv b codec) (hkeeps : c.kernel.KeepsTypes k') {key : InodeKey}
    (hentry : c.host.table b codec key ≠ none) (hrequested : requested key = c.requested key) :
    kind ⟨k', y, requested⟩ key = c.kind key := by
  simp only [kind, hrequested, hkeeps.fileType_eq key.2 (hc.inUse key hentry).2]

theorem NamesTypes.of_keepsMode {found : Option InodeKey} (hgood : c.NamesTypes b codec)
    (hsets : Host.Sets b codec found (Host.KeepsMode b codec c.host) c.host y)
    (env : Environment) :
    NamesTypes b codec ⟨{ c.kernel with env := env }, y, c.requested⟩ := by
  intro key inode mode hentry hmode
  have hentry' : y.table b codec key = some inode := hentry
  rcases hsets with ⟨htable, -⟩ | ⟨key', inode', -, -, hkeeps, htable⟩
  · exact hgood key inode mode (htable ▸ hentry') hmode
  · by_cases heq : key = key'
    · subst heq
      rw [htable, Function.update_self] at hentry'
      injection hentry' with hentry'
      obtain ⟨old, hold, hmode⟩ := hkeeps mode (hentry' ▸ hmode)
      exact hgood key old mode hold hmode
    · rw [htable, Function.update_of_ne heq] at hentry'
      exact hgood key inode mode hentry' hmode

theorem NamesTypes.of_table_eq (hgood : c.NamesTypes b codec)
    (htable : y.table b codec = c.host.table b codec)
    (hkinds : ∀ key, c.host.table b codec key ≠ none →
      kind ⟨k', y, requested⟩ key = c.kind key) :
    NamesTypes b codec ⟨k', y, requested⟩ := by
  intro key inode mode hentry hmode
  have hentry' : c.host.table b codec key = some inode := htable ▸ hentry
  rw [hkinds key (by simp [hentry'])]
  exact hgood key inode mode hentry' hmode

/-- A mode that is recorded has to name the type that its file has afterwards. -/
theorem namesTypes_record_iff {found : Option InodeKey} {recorded : Option UInt32}
    (hgood : c.NamesTypes b codec)
    (hsets : Host.Sets b codec found (fun _ inode => inode.mode = recorded) c.host y)
    (hothers : ∀ key, c.host.table b codec key ≠ none → found ≠ some key →
      kind ⟨k', y, requested⟩ key = c.kind key) :
    NamesTypes b codec ⟨k', y, requested⟩ ↔
      ∀ key mode, found = some key → c.host.Binds b codec key → recorded = some mode →
        NamesType (kind ⟨k', y, requested⟩ key) mode := by
  rcases hsets with ⟨htable, hfull⟩ | ⟨key', inode', hkey', hbinds, hrecorded, htable⟩
  · refine iff_of_true
      (hgood.of_table_eq htable fun key hentry => hothers key hentry fun hkey => ?_)
      fun key mode hkey hbinds => absurd hbinds (hfull key hkey)
    exact hfull key hkey (Host.binds_of_table hentry)
  · constructor
    · intro h key mode hkey _ hmode
      obtain rfl := Option.some.inj (hkey.symm.trans hkey')
      refine h key inode' mode ?_ (hrecorded.trans hmode)
      show y.table b codec key = some inode'
      rw [htable, Function.update_self]
    · intro h key inode mode hentry hmode
      have hentry' : y.table b codec key = some inode := hentry
      by_cases heq : key = key'
      · subst heq
        rw [htable, Function.update_self] at hentry'
        injection hentry' with hentry'
        exact h key mode hkey' hbinds (hrecorded.symm.trans (hentry' ▸ hmode))
      · rw [htable, Function.update_of_ne heq] at hentry'
        have hne : found ≠ some key := fun hkey => heq (Option.some.inj (hkey.symm.trans hkey'))
        rw [hothers key (by simp [hentry']) hne]
        exact hgood key inode mode hentry' hmode

theorem Inv.withEnv (hc : c.Inv b codec) (env : Environment) :
    Inv b codec { c with kernel := { c.kernel with env := env } } :=
  ⟨hc.uses, hc.typed, hc.inUse⟩

variable (hw : w.Lawful) (hcodec : codec.Lawful)

include hw

theorem step_chmod (hc : c.Inv b codec) (env : Environment) (chmodCall : ChmodCall)
    (mode : UInt32) :
    ∃ k' y, step w codec c (env, .chmod chmodCall mode) = ⟨k', y, c.requested⟩ ∧
      UnixState.KeepsTypes { c.kernel with env := env } k' ∧ y.Uses b codec ∧
      Host.Sets b codec (chmodCall.source.key { c.kernel with env := env })
        (fun _ inode => codec.Lawful → ∃ st,
          chmodCall.source.stat unixKernel { c.kernel with env := env } = .ok st ∧
          inode.mode = Host.storedMode b (Ownership.composeMode st.mode mode)) c.host y := by
  obtain ⟨r, k', p', s', hexec, hk', huses, hsets⟩ :=
    exec_recordChmod hw (k := { c.kernel with env := env }) hc.uses chmodCall.source mode
  refine ⟨k', (p', s'), ?_, ?_, huses, hsets⟩
  · simp only [step, Host.run, ChmodCall.hook_eq]
    rw [hexec]
  · rcases hk' with rfl | rfl
    · exact .refl _
    · exact UnixState.keepsTypes_chmod chmodCall.source mode

theorem step_mknod (hc : c.Inv b codec) (env : Environment) (mknodCall : MknodCall)
    (mode : UInt32) (dev : UInt64) :
    ∃ r k' y, step w codec c (env, .mknod mknodCall mode dev) =
        ⟨k', y, request mknodCall mode k' r c.requested⟩ ∧
      mknodCall.Does { c.kernel with env := env } mode dev r k' ∧ y.Uses b codec ∧
      Host.Sets b codec ((mknodCall.opened { c.kernel with env := env }).map fun i =>
          (c.kernel.dev, i))
        (fun _ inode => codec.Lawful → inode.mode = Host.storedMode b mode) c.host y := by
  obtain ⟨r, k', p', s', hexec, hdoes, huses, hsets⟩ :=
    MknodCall.exec_hook hw (k := { c.kernel with env := env }) hc.uses mode dev mknodCall
  refine ⟨r, k', (p', s'), ?_, hdoes, huses, hsets⟩
  simp only [step, Host.run]
  rw [hexec]

include hcodec

omit hw hcodec [NeZero n] in
/-- The mode of a chmod on a file with a type is stored as it is. -/
theorem storedMode_composeMode {current : UInt32} (htyped : current &&& sIfmt ≠ 0)
    (mode : UInt32) :
    Host.storedMode b (Ownership.composeMode current mode) =
      some (Ownership.composeMode current mode) := by
  refine if_neg fun h => htyped ?_
  rw [← composeMode_and_sIfmt current mode, h.2]
  decide

/-- A chmod keeps the types where it records no mode, or one of the requested type. -/
theorem namesTypes_chmod_iff (hc : c.Inv b codec) (hgood : c.NamesTypes b codec)
    (env : Environment) (chmodCall : ChmodCall) (mode : UInt32) :
    (step w codec c (env, .chmod chmodCall mode)).NamesTypes b codec ↔
      c.KeepsType b codec (env, .chmod chmodCall mode) := by
  obtain ⟨k', y, hstep, hkeeps, -, hsets⟩ := step_chmod hw hc env chmodCall mode
  have hothers : ∀ key, c.host.table b codec key ≠ none →
      kind ⟨k', y, c.requested⟩ key = c.kind key :=
    fun key hentry => kind_eq (hc.withEnv env) hkeeps hentry rfl
  rw [hstep]
  cases hstat : chmodCall.source.stat unixKernel { c.kernel with env := env } with
  | error e =>
      rw [StatSource.key_of_error hstat] at hsets
      refine iff_of_true (hgood.of_table_eq hsets.table_eq_of_none hothers) fun st hst => ?_
      rw [hstat] at hst
      cases hst
  | ok st =>
      have hst := UnixState.statInode_of_stat hstat
      have htype := UnixState.fileType_of_statInode hst
      have hmem := (UnixState.statInode_eq_ok hst).1
      have hkind : Ownership.composeMode st.mode mode &&& sIfmt = st.mode &&& sIfmt :=
        composeMode_and_sIfmt st.mode mode
      have htyped : st.mode &&& sIfmt ≠ 0 := htype ▸ hc.typed st.ino hmem
      rw [StatSource.key_of_ok hstat] at hsets
      have hsets' : Host.Sets b codec (some (keyFromStat st))
          (fun _ inode => inode.mode = some (Ownership.composeMode st.mode mode)) c.host y := by
        refine hsets.mono fun key inode hW => ?_
        obtain ⟨st', hst', hmode⟩ := hW hcodec
        rw [hstat] at hst'
        injection hst' with hst'
        subst hst'
        exact hmode.trans (storedMode_composeMode htyped mode)
      have hafter : kind ⟨k', y, c.requested⟩ (keyFromStat st) =
          (c.requested (keyFromStat st)).getD (st.mode &&& sIfmt) := by
        simp only [kind, htype]
        rw [← hkeeps.fileType_eq st.ino hmem]
        rfl
      rw [namesTypes_record_iff hgood hsets' fun key hentry _ => hothers key hentry]
      constructor
      · intro h st' hst' hbinds
        rw [hstat] at hst'
        injection hst' with hst'
        subst hst'
        have hnames := (h _ _ rfl hbinds rfl).kind_eq
        rw [hafter, hkind] at hnames
        exact hnames.symm
      · intro h key mode' hkey hbinds hmode'
        injection hkey with hkey
        injection hmode' with hmode'
        subst hkey hmode'
        rw [namesType_iff, hkind, hafter]
        exact ⟨htyped, (h st hstat hbinds).symm⟩

/-- A mknod keeps the types where it records no mode, or one with type bits. -/
theorem namesTypes_mknod_iff (hc : c.Inv b codec) (hgood : c.NamesTypes b codec)
    (env : Environment) (mknodCall : MknodCall) (mode : UInt32) (dev : UInt64) :
    (step w codec c (env, .mknod mknodCall mode dev)).NamesTypes b codec ↔
      c.KeepsType b codec (env, .mknod mknodCall mode dev) := by
  obtain ⟨r, k', y, hstep, hdoes, -, hsets⟩ := step_mknod hw hc env mknodCall mode dev
  have hkeeps := hdoes.keepsTypes.1
  rw [hstep]
  cases hopened : mknodCall.opened { c.kernel with env := env } with
  | none =>
      rw [hopened] at hsets
      refine iff_of_true (hgood.of_table_eq hsets.table_eq_of_none fun key hentry => ?_)
        fun i hi => ?_
      · exact kind_eq (hc.withEnv env) hkeeps hentry
          (request_of_not_opened hdoes hopened (hc.inUse key hentry))
      · rw [hopened] at hi
        cases hi
  | some i =>
      rw [request_of_opened hdoes hopened]
      rw [hopened] at hsets
      have hothers : ∀ key, c.host.table b codec key ≠ none →
          some (c.kernel.dev, i) ≠ some key →
          kind ⟨k', y, Function.update c.requested (c.kernel.dev, i)
            (some (UnixState.requestedType mode))⟩ key = c.kind key := by
        intro key hentry hne
        refine kind_eq (hc.withEnv env) hkeeps hentry ?_
        exact Function.update_of_ne (fun heq => hne (congrArg some heq.symm)) _ _
      have hkind : kind ⟨k', y, Function.update c.requested (c.kernel.dev, i)
          (some (UnixState.requestedType mode))⟩ (c.kernel.dev, i) =
          UnixState.requestedType mode := by
        simp [kind]
      refine (namesTypes_record_iff hgood (hsets.mono fun key inode hW => hW hcodec)
        hothers).trans ?_
      constructor
      · intro h i' hi' hbinds
        obtain rfl := Option.some.inj (hopened.symm.trans hi')
        by_cases hunset : b = some .shm ∧ mode = 0
        · exact Or.inr hunset
        · exact Or.inl (h _ mode rfl hbinds (if_neg hunset)).typed
      · intro h key mode' hkey' hbinds hstored
        injection hkey' with hkey'
        subst hkey'
        obtain rfl := Host.storedMode_eq_some hstored
        rw [namesType_iff, hkind]
        rcases h i hopened hbinds with htyped | hunset
        · exact ⟨htyped, (if_neg htyped).symm⟩
        · rw [Host.storedMode, if_pos hunset] at hstored
          cases hstored

omit hcodec in
theorem inv_step (hc : c.Inv b codec) (e : Environment × ModeCall) :
    (step w codec c e).Inv b codec := by
  obtain ⟨env, call⟩ := e
  cases call with
  | chown source uid gid =>
      obtain ⟨r, p', s', hexec, huses, hsets⟩ :=
        exec_recordChown hw (k := { c.kernel with env := env }) hc.uses source uid gid
      simp only [step, Host.run]
      rw [hexec]
      exact (hc.withEnv env).of_sets (.refl _) huses hsets fun _ hkey => source.inUse_of_key hkey
  | setxattr source name value =>
      obtain ⟨r, p', s', hexec, huses, hsets⟩ :=
        exec_fakeSetxattr hw (k := { c.kernel with env := env }) hc.uses source name value
      simp only [step, Host.run]
      rw [hexec]
      refine (hc.withEnv env).of_sets (.refl _) huses hsets fun key hkey => ?_
      obtain ⟨_, -, hkey⟩ := Option.bind_eq_some_iff.mp hkey
      exact source.inUse_of_key hkey
  | chmod chmodCall mode =>
      obtain ⟨k', y, hstep, hkeeps, huses, hsets⟩ := step_chmod hw hc env chmodCall mode
      rw [hstep]
      exact (hc.withEnv env).of_sets hkeeps huses hsets fun _ hkey =>
        hkeeps.grows.inUse (chmodCall.source.inUse_of_key hkey)
  | mknod mknodCall mode dev =>
      obtain ⟨r, k', y, hstep, hdoes, huses, hsets⟩ := step_mknod hw hc env mknodCall mode dev
      rw [hstep]
      refine (hc.withEnv env).of_sets hdoes.keepsTypes.1 huses hsets fun key hkey => ?_
      obtain ⟨i, hi, rfl⟩ := Option.map_eq_some_iff.mp hkey
      exact hdoes.inUse hi

theorem namesTypes_step_iff (hc : c.Inv b codec) (hgood : c.NamesTypes b codec)
    (e : Environment × ModeCall) :
    (step w codec c e).NamesTypes b codec ↔ c.KeepsType b codec e := by
  obtain ⟨env, call⟩ := e
  cases call with
  | chown source uid gid =>
      obtain ⟨r, p', s', hexec, -, hsets⟩ :=
        exec_recordChown hw (k := { c.kernel with env := env }) hc.uses source uid gid
      simp only [step, Host.run]
      rw [hexec]
      exact iff_of_true (hgood.of_keepsMode hsets env) trivial
  | setxattr source name value =>
      obtain ⟨r, p', s', hexec, -, hsets⟩ :=
        exec_fakeSetxattr hw (k := { c.kernel with env := env }) hc.uses source name value
      simp only [step, Host.run]
      rw [hexec]
      exact iff_of_true
        (hgood.of_keepsMode (hsets.mono fun key inode hkeeps => hkeeps hcodec) env) trivial
  | chmod chmodCall mode => exact namesTypes_chmod_iff hw hcodec hc hgood env chmodCall mode
  | mknod mknodCall mode dev =>
      exact namesTypes_mknod_iff hw hcodec hc hgood env mknodCall mode dev

end Steps

def start (kernel : UnixState) (host : Host n) : ModeRun n := ⟨kernel, host, fun _ => none⟩

/-- In a run from an empty table every recorded mode names the type of its file throughout
exactly when every call keeps the types. -/
theorem namesTypes_iff_keepsTypes {w : Wincode} (hw : w.Lawful) {codec : XattrCodec}
    (hcodec : codec.Lawful) (b : Option Backing) (kernel : UnixState) (htyped : kernel.Typed)
    (host : Host n) (huses : host.Uses b codec) (hempty : ∀ key, host.table b codec key = none)
    (events : List (Environment × ModeCall)) :
    (∀ i ≤ events.length,
        (Machine.run (step w codec) (start kernel host) (events.take i)).NamesTypes b codec) ↔
      ∀ i (hi : i < events.length),
        (Machine.run (step w codec) (start kernel host) (events.take i)).KeepsType b codec
          events[i] := by
  have hgood : (start kernel host).NamesTypes b codec := by
    intro key inode mode hentry
    exact absurd ((hempty key).symm.trans hentry) (by simp)
  exact Machine.forall_good_iff_forall_guard (I := fun c : ModeRun n => c.Inv b codec)
    (G := fun c => c.NamesTypes b codec) (fun _ e hc => inv_step hw hc e)
    (fun _ e hc hgood => namesTypes_step_iff hw hcodec hc hgood e)
    ⟨huses, htyped, fun key hentry => absurd (hempty key) hentry⟩ hgood events

theorem typed_empty : UnixState.empty.Typed := by
  intro i hi
  obtain rfl : i = 1 := List.mem_singleton.mp (AList.mem_keys.mp hi)
  decide

/-- A device is made and chowned. -/
theorem namesTypes_iff_keepsTypes_device :
    let device : CStr := some [100]
    let events : List (Environment × ModeCall) :=
      [(UnixState.empty.env, .mknod (.mknod device) 0o020644 259),
        (UnixState.empty.env, .chown (.path device false) 200 200)]
    (∀ i ≤ events.length, (Machine.run (step Wincode.bincode XattrCodec.wincode)
        (start UnixState.empty MknodCall.alone) (events.take i)).NamesTypes none
          XattrCodec.wincode) ↔
      ∀ i (hi : i < events.length), (Machine.run (step Wincode.bincode XattrCodec.wincode)
        (start UnixState.empty MknodCall.alone) (events.take i)).KeepsType none
          XattrCodec.wincode events[i] :=
  namesTypes_iff_keepsTypes Wincode.bincode_lawful XattrCodec.wincode_lawful none _ typed_empty _
    MknodCall.uses_alone (fun _ => rfl) _

/-- A regular file that is made has a mode without type bits, and a device that is chmodded
the type of its placeholder. -/
theorem recorded_without_type :
    let file : CStr := some [102]
    let env := UnixState.empty.env
    let run := Machine.run (step Wincode.bincode XattrCodec.wincode)
      (start UnixState.empty MknodCall.alone)
    ¬ (run [(env, .mknod (.mknod file) 0o644 0)]).NamesTypes none XattrCodec.wincode ∧
      ¬ (run [(env, .mknod (.mknod file) 0o020644 259),
        (env, .chmod (.chmod file) 0o600)]).NamesTypes none XattrCodec.wincode := by
  intro file env run
  constructor
  · intro h
    have hmode : ((run [(env, .mknod (.mknod file) 0o644 0)]).host.table none
        XattrCodec.wincode (1, 2)).bind FakeInode.mode = some 0o644 := by decide +kernel
    obtain ⟨inode, hentry, hmode⟩ := Option.bind_eq_some_iff.mp hmode
    exact (h (1, 2) inode 0o644 hentry hmode).typed (by decide)
  · intro h
    have hmode : ((run [(env, .mknod (.mknod file) 0o020644 259),
        (env, .chmod (.chmod file) 0o600)]).host.table none XattrCodec.wincode
        (1, 2)).bind FakeInode.mode = some 0o100600 := by decide +kernel
    have hkind : (run [(env, .mknod (.mknod file) 0o020644 259),
        (env, .chmod (.chmod file) 0o600)]).kind (1, 2) = 0o020000 := by decide +kernel
    obtain ⟨inode, hentry, hmode⟩ := Option.bind_eq_some_iff.mp hmode
    have hnames := (h (1, 2) inode 0o100600 hentry hmode).kind_eq
    rw [hkind] at hnames
    exact absurd hnames (by decide)

end ModeRun

end Pseudoroot
