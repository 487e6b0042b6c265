import Pseudoroot.Library.Runs
import Pseudoroot.Model.Unix
import Pseudoroot.Verification.Files.XattrNames
import Pseudoroot.Verification.Session.Table

/-! # Extended attributes as an overlay -/

namespace Pseudoroot

open Calls Calls.Program Ownership

/-! ## Buffers -/

def Buffer.Takes (buf : Buffer) (length : ℕ) : Prop :=
  buf.null = false ∧ length ≤ buf.size.toNat

theorem writeXattrValue_of_takes {value : List UInt8} {buf : Buffer}
    (h : buf.Takes value.length) :
    writeXattrValue value buf = (Int32.ofNat value.length, value) := by
  obtain ⟨hnull, hsize⟩ := h
  by_cases hzero : buf.size = 0
  · have hnil : value = [] := by simpa [hzero] using hsize
    simp [writeXattrValue, hzero, hnil]
  · simp [writeXattrValue, hzero, hnull, hsize]

theorem fill_of_takes {value : List UInt8} {buf : Buffer} (h : buf.Takes value.length) :
    UnixState.fill value buf = (Int32.ofNat value.length, value) := by
  obtain ⟨hnull, hsize⟩ := h
  by_cases hzero : buf.size = 0
  · have hnil : value = [] := by simpa [hzero] using hsize
    simp [UnixState.fill, hzero, hnil]
  · have hfits : ¬ (value.length > buf.size.toNat ∨ (buf.null = true ∧ value ≠ [])) := by
      simp [hnull, hsize]
    rw [UnixState.fill, if_neg hzero, if_neg hfits]

theorem Buffer.read_length (buf : Buffer) (written : List UInt8) :
    buf.read written written.length = written := by
  refine List.ext_getElem? fun i => ?_
  rcases Nat.lt_or_ge i written.length with hlt | hge
  · simp [Buffer.read, hlt]
  · simp [Buffer.read, hge]

theorem ofNat_nonneg {length : ℕ} (h : length < 2 ^ 31) : 0 ≤ Int32.ofNat length := by
  rw [Int32.le_iff_toInt_le, Int32.toInt_ofNat_of_lt h, Int32.toInt_zero]
  exact Int.natCast_nonneg length

theorem ofNat_pos_iff {length : ℕ} (h : length < 2 ^ 31) : 0 < Int32.ofNat length ↔ 0 < length := by
  rw [Int32.lt_iff_toInt_lt, Int32.toInt_ofNat_of_lt h, Int32.toInt_zero]
  omega

/-- What a real call has written, and returns the length of, is read back. -/
theorem Buffer.readBack_eq {buf : Buffer} (hnull : buf.null = false) {bytes : List UInt8}
    (h : bytes.length < 2 ^ 31) :
    (if Int32.ofNat bytes.length > 0 ∧ !buf.null then
      buf.read bytes (Int32.ofNat bytes.length).toNatClampNeg else []) = bytes := by
  have hcount : (Int32.ofNat bytes.length).toNatClampNeg = bytes.length := by
    rw [← Int32.toNat_toInt, Int32.toInt_ofNat_of_lt h, Int.toNat_natCast]
  have hpos := ofNat_pos_iff h
  rw [hcount, Buffer.read_length]
  cases bytes with
  | nil => simp
  | cons byte rest => exact if_pos ⟨hpos.mpr (Nat.zero_lt_succ _), by simp [hnull]⟩

theorem Buffer.Takes.of_le {buf : Buffer} {length length' : ℕ} (h : buf.Takes length)
    (hle : length' ≤ length) : buf.Takes length' :=
  ⟨h.1, hle.trans h.2⟩

/-! ## A file with real attributes -/

/-- The real attributes of a file, within the limits of the kernel. -/
structure RealXattrs where
  map : AList fun _ : List UInt8 => List UInt8
  isName : ∀ name ∈ map.keys, NulList.IsName name
  length_value_le : ∀ {name value}, map.lookup name = some value → value.length ≤ 65536
  length_list_le : (NulList.join map.keys).length ≤ 65536

/-- The source leads to a file of this key with these real attributes. -/
structure Kernel.HoldsXattrs {κ : Type} (kernel : Kernel κ) (k : κ) (key : InodeKey)
    (real : RealXattrs) (source : StatSource) : Prop where
  stat : ∃ st, source.stat kernel k = .ok st ∧ keyFromStat st = key
  getxattr : ∀ name buf, kernel.getxattr k source name buf =
    (real.map.lookup name).elim (-1, []) fun value => UnixState.fill value buf
  listxattr : ∀ buf, kernel.listxattr k source buf =
    UnixState.fill (NulList.join real.map.keys) buf

/-! ## The overlay of a process -/

/-- The attributes laid over the real ones, by name. -/
abbrev Overlay := List UInt8 → Option (List UInt8)

abbrev XattrName := { name : List UInt8 // NulList.IsName name }

inductive XattrCall where
  | set (source : StatSource) (name : XattrName) (value : List UInt8)
  | remove (source : StatSource) (name : XattrName)
  | get (source : StatSource) (name : XattrName) (buf : Buffer)
  | list (source : StatSource) (buf : Buffer)

namespace XattrCall

def source : XattrCall → StatSource
  | set source _ _ | remove source _ | get source _ _ | list source _ => source

def hook {κ : Type} (w : Wincode) (kernel : Kernel κ) (k : κ) :
    XattrCall → Hook (Int32 × List UInt8)
  | set source name value => do
      let status ← fakeSetxattr w kernel k source (some name.1) (some value)
      pure (status, [])
  | remove source name => do
      let status ← fakeRemovexattr w kernel k source (some name.1)
      pure (status, [])
  | get source name buf => fakeGetxattr w kernel k source (some name.1) buf
  | list source buf => fakeListxattr w kernel k source buf

/-- What a call makes of the overlay. A value is cut at the size limit, and a name that is
not UTF-8 is refused. -/
def lay (m : Overlay) : XattrCall → Overlay
  | set _ name value =>
    if (readCstr (some name.1)).isSome then Function.update m name.1 (some (value.take maxXattr))
    else m
  | remove _ name => Function.update m name.1 none
  | get _ _ _ | list _ _ => m

end XattrCall

/-- The entry's attributes, by the bytes of their names. -/
def FakeRootState.overlay (state : FakeRootState) (key : InodeKey) : Overlay := fun name =>
  (readCstr (some name)).bind fun s => (state.getInode key).bind fun inode => inode.xattrs[s]?

def FakeRootState.xattrNames (state : FakeRootState) (key : InodeKey) : List String :=
  ((state.getInode key).map fun inode => inode.xattrs.keys).getD []

namespace FakeRootState

variable {state : FakeRootState} {key : InodeKey}

theorem overlay_of_readCstr {name : List UInt8} {s : String} (h : readCstr (some name) = some s) :
    state.overlay key name = (state.updateBase key).xattrs[s]? := by
  simp only [overlay, h, updateBase, Option.bind_some]
  cases state.getInode key with
  | none => simp [FakeInode.new]
  | some inode => rfl

theorem overlay_of_readCstr_none {name : List UInt8} (h : readCstr (some name) = none) :
    state.overlay key name = none := by
  simp [overlay, h]

theorem mem_map_xattrNames_iff {name : List UInt8} :
    name ∈ (state.xattrNames key).map asBytes ↔ state.overlay key name ≠ none := by
  have hmem : name ∈ (state.xattrNames key).map asBytes ↔
      ∃ s, readCstr (some name) = some s ∧ s ∈ state.xattrNames key := by
    simp only [List.mem_map, readCstr_eq_some_iff]
    exact exists_congr fun s => and_comm
  rw [hmem]
  cases hname : readCstr (some name) with
  | none => simp [overlay, hname]
  | some s =>
      cases hkey : state.getInode key with
      | none => simp [overlay, xattrNames, hname, hkey]
      | some inode => simp [overlay, xattrNames, hname, hkey]

theorem readCstr_inj {name name' : List UInt8} {s : String} (h : readCstr (some name) = some s)
    (h' : readCstr (some name') = some s) : name' = name :=
  (readCstr_eq_some_iff.mp h').symm.trans (readCstr_eq_some_iff.mp h)

theorem overlay_setInode {name : List UInt8} {s : String} (h : readCstr (some name) = some s)
    {inode : FakeInode} {value : Option (List UInt8)}
    (hinode : ∀ s', inode.xattrs[s']? = if s' = s then value
      else (state.updateBase key).xattrs[s']?) :
    (state.setInode key inode).overlay key = Function.update (state.overlay key) name value := by
  funext name'
  cases hname : readCstr (some name') with
  | none =>
      have hne : name' ≠ name := by
        rintro rfl
        rw [h] at hname
        cases hname
      rw [Function.update_of_ne hne, overlay_of_readCstr_none hname,
        overlay_of_readCstr_none hname]
  | some s' =>
      have hnew : ((state.setInode key inode).updateBase key).xattrs = inode.xattrs := by
        simp [updateBase, getInode_setInode]
      rw [overlay_of_readCstr hname, hnew, hinode]
      by_cases hs : s' = s
      · have heq : name' = name := readCstr_inj h (hs ▸ hname)
        rw [if_pos hs, heq, Function.update_self]
      · have hne : name' ≠ name := by
          rintro rfl
          exact hs (Option.some.inj (hname.symm.trans h))
        rw [if_neg hs, Function.update_of_ne hne, overlay_of_readCstr hname]

theorem overlay_insertXattr {name value : List UInt8} {s : String}
    (h : readCstr (some name) = some s) :
    (state.setInode key
      { state.updateBase key with xattrs := (state.updateBase key).xattrs.insert s value }).overlay
        key = Function.update (state.overlay key) name (some value) := by
  refine overlay_setInode h fun s' => ?_
  simp only [Std.ExtTreeMap.getElem?_insert, Std.LawfulEqOrd.compare_eq_iff_eq]
  exact if_congr eq_comm rfl rfl

theorem overlay_eraseXattr {name : List UInt8} {s : String}
    (h : readCstr (some name) = some s) :
    (state.setInode key
      { state.updateBase key with xattrs := (state.updateBase key).xattrs.erase s }).overlay
        key = Function.update (state.overlay key) name none := by
  refine overlay_setInode h fun s' => ?_
  simp only [Std.ExtTreeMap.getElem?_erase, Std.LawfulEqOrd.compare_eq_iff_eq]
  exact if_congr eq_comm rfl rfl

end FakeRootState

/-! ## Hooks -/

/-- The process keeps its table to itself, from its first hook on. -/
def Process.OwnTable (p : Process) : Prop := p.InProcess ∨ p.Alone

section Exec

variable {κ : Type} {n : ℕ} [NeZero n] {w : Wincode} (codec : XattrCodec) (kernel : Kernel κ)
  (k : κ) {key : InodeKey} {real : RealXattrs} {p : Process} (hp : p.OwnTable) (s : Session n)

include hp in
theorem exec_ensureLibraryInit_ownTable :
    ∃ p', exec (Session.handle w codec) (ensureLibraryInit w) p s = (((), p'), s) ∧
      p'.InProcess ∧ p'.globalState.getInode = p.globalState.getInode := by
  rcases hp with hp | hp
  · exact ⟨p, exec_ensureLibraryInit_inProcess codec hp s, hp, rfl⟩
  · exact ⟨p.initialized, exec_ensureLibraryInit_alone codec hp s, hp.inProcess, rfl⟩

theorem overlay_congr {g g' : FakeRootState} (h : g'.getInode = g.getInode) :
    g'.overlay key = g.overlay key := by
  funext name
  rw [FakeRootState.overlay, h]
  rfl

include hp in
theorem exec_fakeSetxattr_ownTable {source : StatSource}
    (hsource : kernel.HoldsXattrs k key real source) (name : XattrName)
    (value : List UInt8) :
    ∃ p', exec (Session.handle w codec)
        (fakeSetxattr w kernel k source (some name.1) (some value)) p s =
          ((if (readCstr (some name.1)).isSome then 0 else -einval, p'), s) ∧
      p'.InProcess ∧
      p'.globalState.overlay key =
        XattrCall.lay (p.globalState.overlay key) (.set source name value) := by
  obtain ⟨p₁, hinit, hp₁, hentries⟩ := exec_ensureLibraryInit_ownTable (w := w) codec hp s
  cases hname : readCstr (some name.1) with
  | none =>
      refine ⟨p₁, by simp [fakeSetxattr, hinit, hname], hp₁, ?_⟩
      simp [XattrCall.lay, hname, overlay_congr hentries]
  | some nameKey =>
      obtain ⟨st, hstat, rfl⟩ := hsource.stat
      refine ⟨_, by
        simp [fakeSetxattr, hinit, hname, hstat, recordXattrForKey,
          exec_updateInode_inProcess codec hp₁]
        rfl, hp₁.withGlobalState _, ?_⟩
      rw [Process.globalState_withGlobalState, FakeRootState.overlay_insertXattr hname,
        overlay_congr hentries]
      simp [XattrCall.lay, hname, readXattrValue]

include hp in
theorem exec_fakeRemovexattr_ownTable {source : StatSource}
    (hsource : kernel.HoldsXattrs k key real source) (name : XattrName) :
    ∃ p', exec (Session.handle w codec) (fakeRemovexattr w kernel k source (some name.1)) p s =
        ((if (readCstr (some name.1)).isSome then 0 else -einval, p'), s) ∧
      p'.InProcess ∧
      p'.globalState.overlay key =
        XattrCall.lay (p.globalState.overlay key) (.remove source name) := by
  obtain ⟨p₁, hinit, hp₁, hentries⟩ := exec_ensureLibraryInit_ownTable (w := w) codec hp s
  cases hname : readCstr (some name.1) with
  | none =>
      refine ⟨p₁, by simp [fakeRemovexattr, hinit, hname], hp₁, ?_⟩
      rw [overlay_congr hentries, XattrCall.lay, eq_comm, Function.update_eq_self_iff]
      exact (FakeRootState.overlay_of_readCstr_none hname).symm
  | some nameKey =>
      obtain ⟨st, hstat, rfl⟩ := hsource.stat
      refine ⟨_, by
        simp [fakeRemovexattr, hinit, hname, hstat, removeXattrForKey,
          exec_updateInode_inProcess codec hp₁]
        rfl, hp₁.withGlobalState _, ?_⟩
      rw [Process.globalState_withGlobalState, FakeRootState.overlay_eraseXattr hname,
        overlay_congr hentries]
      rfl

include hp in
theorem exec_fakeGetxattr_ownTable {source : StatSource}
    (hsource : kernel.HoldsXattrs k key real source) (name : List UInt8) (buf : Buffer) :
    ∃ p', exec (Session.handle w codec) (fakeGetxattr w kernel k source (some name) buf) p s =
        ((if (readCstr (some name)).isSome then
            ((p.globalState.overlay key name).map fun value => writeXattrValue value buf).getD
              (kernel.getxattr k source name buf)
          else (-einval, []), p'), s) ∧
      p'.InProcess ∧ p'.globalState.overlay key = p.globalState.overlay key := by
  obtain ⟨p₁, hinit, hp₁, hentries⟩ := exec_ensureLibraryInit_ownTable (w := w) codec hp s
  refine ⟨p₁, ?_, hp₁, overlay_congr hentries⟩
  cases hname : readCstr (some name) with
  | none => simp [fakeGetxattr, hinit, hname]
  | some nameKey =>
      obtain ⟨st, hstat, rfl⟩ := hsource.stat
      have hget := exec_getInode_inProcess (w := w) codec hp₁ s (keyFromStat st)
      have hoverlay : p.globalState.overlay (keyFromStat st) name =
          (p₁.globalState.getInode (keyFromStat st)).bind fun inode => inode.xattrs[nameKey]? := by
        rw [hentries]
        simp [FakeRootState.overlay, hname]
      rw [hoverlay]
      simp only [fakeGetxattr, exec_bind, hinit, hname, hstat, hget]
      cases (p₁.globalState.getInode (keyFromStat st)).bind fun inode => inode.xattrs[nameKey]? <;>
        simp

include hp in
theorem exec_fakeListxattr_ownTable {source : StatSource}
    (hsource : kernel.HoldsXattrs k key real source) (buf : Buffer) :
    ∃ p', exec (Session.handle w codec) (fakeListxattr w kernel k source buf) p s =
        ((if (p.globalState.xattrNames key).isEmpty then kernel.listxattr k source buf
          else
            let (realRet, written) := kernel.listxattr k source buf
            let realList :=
              if realRet > 0 ∧ !buf.null then buf.read written realRet.toNatClampNeg else []
            writeXattrList (mergeXattrLists realList (p.globalState.xattrNames key)) buf, p'),
          s) ∧
      p'.InProcess ∧ p'.globalState.overlay key = p.globalState.overlay key := by
  obtain ⟨p₁, hinit, hp₁, hentries⟩ := exec_ensureLibraryInit_ownTable (w := w) codec hp s
  refine ⟨p₁, ?_, hp₁, overlay_congr hentries⟩
  obtain ⟨st, hstat, rfl⟩ := hsource.stat
  have hget := exec_getInode_inProcess (w := w) codec hp₁ s (keyFromStat st)
  have hnames : p.globalState.xattrNames (keyFromStat st) =
      ((p₁.globalState.getInode (keyFromStat st)).map fun inode => inode.xattrs.keys).getD [] := by
    rw [hentries]
    rfl
  rw [hnames]
  simp only [fakeListxattr, exec_bind, hinit, hstat, hget, exec_pure]
  generalize
    ((p₁.globalState.getInode (keyFromStat st)).map fun inode => inode.xattrs.keys).getD [] =
    extra
  cases extra <;> rfl

theorem mem_split_listed_iff {names : List String}
    (hnames : ∀ s ∈ names, NulList.IsName (asBytes s))
    {buf : Buffer}
    (hbuf : buf.Takes (NulList.join (real.map.keys ++ names.map asBytes)).length)
    (name : List UInt8) :
    name ∈ NulList.split (if names.isEmpty then
        UnixState.fill (NulList.join real.map.keys) buf
      else
        let (realRet, written) := UnixState.fill (NulList.join real.map.keys) buf
        let realList :=
          if realRet > 0 ∧ !buf.null then buf.read written realRet.toNatClampNeg else []
        writeXattrList (mergeXattrLists realList names) buf).2 ↔
      name ∈ real.map.keys ∨ name ∈ names.map asBytes := by
  have hreal : buf.Takes (NulList.join real.map.keys).length :=
    hbuf.of_le (by rw [length_join_append]; exact Nat.le_add_right _ _)
  rw [fill_of_takes hreal]
  cases hempty : names with
  | nil => simp [NulList.split_join real.isName]
  | cons first rest =>
      rw [← hempty]
      have hne : names.isEmpty = false := by rw [hempty]; rfl
      have hlist := Buffer.readBack_eq hreal.1 (real.length_list_le.trans_lt (by decide))
      have hmerged : (mergeXattrLists (NulList.join real.map.keys) names).length ≤
          (NulList.join (real.map.keys ++ names.map asBytes)).length := by
        rw [mergeXattrLists, NulList.split_join real.isName]
        exact length_join_foldl_pushName_le _ _
      simp only [hne, Bool.false_eq_true, if_false, hlist, writeXattrList]
      rw [writeXattrValue_of_takes (hbuf.of_le hmerged), mergeXattrLists,
        NulList.split_join real.isName,
        NulList.split_join (isName_of_mem_foldl_pushName real.isName hnames), mem_foldl_pushName]

end Exec

/-! ## Runs -/

section Runs

variable {κ : Type} {n : ℕ} [NeZero n] (w : Wincode) (codec : XattrCodec) (kernel : Kernel κ)
  (k : κ)

namespace XattrCall

/-- The status and the bytes written, from a process with what it shares. -/
def reply (x : Host n) (call : XattrCall) : Int32 × List UInt8 :=
  (exec (Session.handle w codec) (call.hook w kernel k) x.1 x.2).1.1

def step (x : Host n) (call : XattrCall) : Host n :=
  let after := exec (Session.handle w codec) (call.hook w kernel k) x.1 x.2
  (after.1.2, after.2)

end XattrCall

def listedLength (key : InodeKey) (real : RealXattrs) (x : Host n) : ℕ :=
  (NulList.join (real.map.keys ++ (x.1.globalState.xattrNames key).map asBytes)).length

/-- What any call returns while `m` is laid over the real attributes. -/
structure XattrLaws (key : InodeKey) (real : RealXattrs) (x : Host n) (m : Overlay) : Prop where
  /-- Setting and removing succeed for names that are UTF-8. -/
  set {source} (_ : kernel.HoldsXattrs k key real source) (name : XattrName) (value) :
    (XattrCall.reply w codec kernel k x (.set source name value)).1 =
      if (readCstr (some name.1)).isSome then 0 else -einval
  remove {source} (_ : kernel.HoldsXattrs k key real source) (name : XattrName) :
    (XattrCall.reply w codec kernel k x (.remove source name)).1 =
      if (readCstr (some name.1)).isSome then 0 else -einval
  /-- An attribute of the overlay is returned whole. -/
  get_some {source} (_ : kernel.HoldsXattrs k key real source) {name : XattrName} {value buf}
    (_ : m name.1 = some value) (_ : buf.Takes value.length) :
    XattrCall.reply w codec kernel k x (.get source name buf) = (Int32.ofNat value.length, value)
  /-- Any other is returned as the kernel returns it. -/
  get_none {source} (_ : kernel.HoldsXattrs k key real source) {name : XattrName} (buf)
    (_ : (readCstr (some name.1)).isSome) (_ : m name.1 = none) :
    XattrCall.reply w codec kernel k x (.get source name buf) =
      kernel.getxattr k source name.1 buf
  /-- A name that is not UTF-8 is refused. -/
  get_invalid {source} (_ : kernel.HoldsXattrs k key real source) {name : XattrName} (buf)
    (_ : readCstr (some name.1) = none) :
    XattrCall.reply w codec kernel k x (.get source name buf) = (-einval, [])
  /-- The names of the overlay and the real ones are listed. -/
  list {source} (_ : kernel.HoldsXattrs k key real source) {buf}
    (_ : buf.Takes (listedLength key real x)) (name : XattrName) :
    name.1 ∈ NulList.split (XattrCall.reply w codec kernel k x (.list source buf)).2 ↔
      m name.1 ≠ none ∨ name.1 ∈ real.map
  /-- A name is listed exactly when it can be read. -/
  list_iff_get {source} (_ : kernel.HoldsXattrs k key real source) {listBuf buf}
    (_ : listBuf.Takes (listedLength key real x)) (_ : buf.Takes maxXattr) {name : XattrName}
    (_ : (readCstr (some name.1)).isSome) :
    name.1 ∈ NulList.split (XattrCall.reply w codec kernel k x (.list source listBuf)).2 ↔
      0 ≤ (XattrCall.reply w codec kernel k x (.get source name buf)).1
  /-- A name that is not UTF-8 is listed exactly when it is a real one. -/
  list_invalid {source} (_ : kernel.HoldsXattrs k key real source) {buf}
    (_ : buf.Takes (listedLength key real x)) {name : XattrName}
    (_ : readCstr (some name.1) = none) :
    name.1 ∈ NulList.split (XattrCall.reply w codec kernel k x (.list source buf)).2 ↔
      name.1 ∈ real.map

/-- The names are names, and the values within the size limit. -/
def Overlay.Bounded (m : Overlay) : Prop :=
  ∀ name value, m name = some value → NulList.IsName name ∧ value.length ≤ maxXattr

theorem XattrCall.bounded_lay {m : Overlay} (h : m.Bounded) (call : XattrCall) :
    (call.lay m).Bounded := by
  intro name value hvalue
  cases call with
  | set source name' value' =>
      simp only [lay] at hvalue
      split at hvalue
      · by_cases hname : name = name'.1
        · subst hname
          rw [Function.update_self] at hvalue
          injection hvalue with hvalue
          exact ⟨name'.2, by rw [← hvalue, List.length_take]; exact Nat.min_le_left _ _⟩
        · rw [Function.update_of_ne hname] at hvalue
          exact h name value hvalue
      · exact h name value hvalue
  | remove source name' =>
      by_cases hname : name = name'.1
      · simp [lay, hname] at hvalue
      · simp only [lay, Function.update_of_ne hname] at hvalue
        exact h name value hvalue
  | get _ _ _ | list _ _ => exact h name value hvalue

/-- The process keeps its table to itself, and `m` is its overlay. -/
structure Lays (key : InodeKey) (x : Host n) (m : Overlay) : Prop where
  ownTable : x.1.OwnTable
  overlay_eq : x.1.globalState.overlay key = m
  bounded : m.Bounded

variable {w codec kernel k} {key : InodeKey} {real : RealXattrs} {x : Host n} {m : Overlay}

theorem Lays.step (h : Lays key x m) {call : XattrCall}
    (hcall : kernel.HoldsXattrs k key real call.source) :
    Lays key (XattrCall.step w codec kernel k x call) (call.lay m) := by
  obtain ⟨p, s⟩ := x
  obtain ⟨hown, rfl, hbounded⟩ := h
  have hown : p.OwnTable := hown
  have hafter : ∃ r p', exec (Session.handle w codec) (call.hook w kernel k) p s = ((r, p'), s) ∧
      p'.InProcess ∧ p'.globalState.overlay key = call.lay (p.globalState.overlay key) := by
    cases call with
    | set source name value =>
        have hsource : kernel.HoldsXattrs k key real source := hcall
        obtain ⟨p', hexec, hafter⟩ :=
          exec_fakeSetxattr_ownTable codec kernel k hown s hsource name value
        exact ⟨_, p', by rw [XattrCall.hook, exec_bind, hexec]; rfl, hafter⟩
    | remove source name =>
        have hsource : kernel.HoldsXattrs k key real source := hcall
        obtain ⟨p', hexec, hafter⟩ :=
          exec_fakeRemovexattr_ownTable codec kernel k hown s hsource name
        exact ⟨_, p', by rw [XattrCall.hook, exec_bind, hexec]; rfl, hafter⟩
    | get source name buf =>
        obtain ⟨p', hexec, hafter⟩ :=
          exec_fakeGetxattr_ownTable (w := w) codec kernel k hown s hcall name.1 buf
        exact ⟨_, p', hexec, hafter⟩
    | list source buf =>
        obtain ⟨p', hexec, hafter⟩ :=
          exec_fakeListxattr_ownTable (w := w) codec kernel k hown s hcall buf
        exact ⟨_, p', hexec, hafter⟩
  obtain ⟨r, p', hexec, hp', hoverlay⟩ := hafter
  have hstep : XattrCall.step w codec kernel k (p, s) call = (p', s) := by
    simp [XattrCall.step, hexec]
  rw [hstep]
  exact ⟨Or.inl hp', hoverlay, XattrCall.bounded_lay hbounded call⟩

namespace Lays

variable {source : StatSource} (hsource : kernel.HoldsXattrs k key real source)
include hsource

theorem get_some (h : Lays key x m) {name : XattrName} {value : List UInt8} {buf : Buffer}
    (hvalue : m name.1 = some value) (hbuf : buf.Takes value.length) :
    XattrCall.reply w codec kernel k x (.get source name buf) =
      (Int32.ofNat value.length, value) := by
  obtain ⟨p, s⟩ := x
  obtain ⟨hown, rfl, -⟩ := h
  obtain ⟨p', hexec, -⟩ :=
    exec_fakeGetxattr_ownTable (w := w) codec kernel k hown s hsource name.1 buf
  have hname : (readCstr (some name.1)).isSome := by
    by_contra hnone
    rw [FakeRootState.overlay_of_readCstr_none (by simpa using hnone)] at hvalue
    cases hvalue
  simp [XattrCall.reply, XattrCall.hook, hexec, hname, hvalue, writeXattrValue_of_takes hbuf]

theorem get_set (h : Lays key x m) {name : XattrName} {value : List UInt8} {buf : Buffer}
    (hname : (readCstr (some name.1)).isSome) (hbuf : buf.Takes (value.take maxXattr).length) :
    XattrCall.reply w codec kernel k (XattrCall.step w codec kernel k x (.set source name value))
        (.get source name buf) =
      (Int32.ofNat (value.take maxXattr).length, value.take maxXattr) := by
  have hset : Lays key (XattrCall.step w codec kernel k x (.set source name value))
      ((XattrCall.set source name value).lay m) := h.step hsource
  refine hset.get_some hsource ?_ hbuf
  rw [XattrCall.lay, if_pos hname, Function.update_self]

theorem get_none (h : Lays key x m) {name : XattrName} (buf : Buffer)
    (hname : (readCstr (some name.1)).isSome) (hvalue : m name.1 = none) :
    XattrCall.reply w codec kernel k x (.get source name buf) =
      kernel.getxattr k source name.1 buf := by
  obtain ⟨p, s⟩ := x
  obtain ⟨hown, rfl, -⟩ := h
  obtain ⟨p', hexec, -⟩ :=
    exec_fakeGetxattr_ownTable (w := w) codec kernel k hown s hsource name.1 buf
  simp [XattrCall.reply, XattrCall.hook, hexec, hname, hvalue]

theorem list (h : Lays key x m) {buf : Buffer} (hbuf : buf.Takes (listedLength key real x))
    (name : XattrName) :
    name.1 ∈ NulList.split (XattrCall.reply w codec kernel k x (.list source buf)).2 ↔
      m name.1 ≠ none ∨ name.1 ∈ real.map := by
  obtain ⟨p, s⟩ := x
  obtain ⟨hown, rfl, hbounded⟩ := h
  obtain ⟨p', hexec, -⟩ :=
    exec_fakeListxattr_ownTable (w := w) codec kernel k hown s hsource buf
  have hnames : ∀ t ∈ p.globalState.xattrNames key, NulList.IsName (asBytes t) := by
    intro t ht
    have hmem := FakeRootState.mem_map_xattrNames_iff.mp (List.mem_map_of_mem (f := asBytes) ht)
    obtain ⟨value, hvalue⟩ := Option.ne_none_iff_exists'.mp hmem
    exact (hbounded _ value hvalue).1
  have hlisted := mem_split_listed_iff hnames hbuf name.1
  rw [FakeRootState.mem_map_xattrNames_iff, ← AList.mem_keys] at hlisted
  simp only [XattrCall.reply, XattrCall.hook, hexec, hsource.listxattr]
  exact hlisted.trans or_comm

/-- The kernel reads a name into a large buffer exactly when it is one of a real attribute. -/
theorem kernel_getxattr_nonneg_iff {buf : Buffer} (hbuf : buf.Takes maxXattr)
    (name : List UInt8) : 0 ≤ (kernel.getxattr k source name buf).1 ↔ name ∈ real.map := by
  rw [hsource.getxattr]
  cases hvalue : real.map.lookup name with
  | none =>
      have hnot : name ∉ real.map := AList.lookup_eq_none.mp hvalue
      simp [hnot]
  | some value =>
      have hmem : name ∈ real.map := AList.lookup_isSome.mp (by rw [hvalue]; rfl)
      have hlength : value.length ≤ 65536 := real.length_value_le hvalue
      simp only [Option.elim_some, fill_of_takes (hbuf.of_le hlength), hmem, iff_true]
      exact ofNat_nonneg (hlength.trans_lt (by decide))

theorem list_iff_get (h : Lays key x m) {listBuf buf : Buffer}
    (hlist : listBuf.Takes (listedLength key real x)) (hbuf : buf.Takes maxXattr)
    {name : XattrName} (hname : (readCstr (some name.1)).isSome) :
    name.1 ∈ NulList.split (XattrCall.reply w codec kernel k x (.list source listBuf)).2 ↔
      0 ≤ (XattrCall.reply w codec kernel k x (.get source name buf)).1 := by
  rw [h.list hsource hlist]
  cases hvalue : m name.1 with
  | none =>
      rw [h.get_none hsource buf hname hvalue, kernel_getxattr_nonneg_iff hsource hbuf]
      simp
  | some value =>
      have hlength : value.length ≤ maxXattr := (h.bounded name.1 value hvalue).2
      rw [h.get_some hsource hvalue (hbuf.of_le hlength)]
      simpa using ofNat_nonneg (hlength.trans_lt (by decide))

end Lays

theorem Lays.laws (h : Lays key x m) : XattrLaws w codec kernel k key real x m where
  set {source} hsource name value := by
    obtain ⟨p, s⟩ := x
    have hown : p.OwnTable := h.ownTable
    obtain ⟨p', hexec, -⟩ :=
      exec_fakeSetxattr_ownTable (w := w) codec kernel k hown s hsource name value
    simp [XattrCall.reply, XattrCall.hook, hexec]
  remove {source} hsource name := by
    obtain ⟨p, s⟩ := x
    have hown : p.OwnTable := h.ownTable
    obtain ⟨p', hexec, -⟩ :=
      exec_fakeRemovexattr_ownTable (w := w) codec kernel k hown s hsource name
    simp [XattrCall.reply, XattrCall.hook, hexec]
  get_some hsource _ _ _ hvalue hbuf := h.get_some hsource hvalue hbuf
  get_none hsource _ buf hname hvalue := h.get_none hsource buf hname hvalue
  get_invalid {source} hsource name buf hname := by
    obtain ⟨p, s⟩ := x
    have hown : p.OwnTable := h.ownTable
    obtain ⟨p', hexec, -⟩ :=
      exec_fakeGetxattr_ownTable (w := w) codec kernel k hown s hsource name.1 buf
    simp [XattrCall.reply, XattrCall.hook, hexec, hname]
  list hsource _ hbuf name := h.list hsource hbuf name
  list_iff_get hsource _ _ hlist hbuf _ hname := h.list_iff_get hsource hlist hbuf hname
  list_invalid hsource _ hbuf name hname := by
    have hnone : m name.1 = none := by
      rw [← h.overlay_eq]
      exact FakeRootState.overlay_of_readCstr_none hname
    rw [h.list hsource hbuf name, hnone]
    simp

omit [NeZero n] in
theorem lays_of_no_xattrs {p : Process} (hp : p.OwnTable)
    (hnone : p.globalState.xattrNames key = []) (s : Session n) :
    Lays key (p, s) (fun _ => none) where
  ownTable := hp
  overlay_eq := by
    funext name
    have hmem : name ∉ (p.globalState.xattrNames key).map asBytes := by simp [hnone]
    rw [FakeRootState.mem_map_xattrNames_iff, not_not] at hmem
    exact hmem
  bounded := by
    intro name value hvalue
    cases hvalue

/-- At every point of a sequence of calls on one file, what any call returns is given by the
real attributes and what the calls so far have laid over them. -/
theorem xattrLaws_of_calls (w : Wincode) (codec : XattrCodec) (kernel : Kernel κ) (k : κ)
    {key : InodeKey} {real : RealXattrs} {p : Process} (hp : p.OwnTable)
    (hnone : p.globalState.xattrNames key = []) (s : Session n) (calls : List XattrCall)
    (hcalls : ∀ call ∈ calls, kernel.HoldsXattrs k key real call.source) (i : ℕ) :
    XattrLaws w codec kernel k key real
      (Machine.run (XattrCall.step w codec kernel k) (p, s) (calls.take i))
      (Machine.run XattrCall.lay (fun _ => none) (calls.take i)) := by
  have hrun : Lays key (Machine.run (XattrCall.step w codec kernel k) (p, s) (calls.take i))
      (Machine.run XattrCall.lay (fun _ => none) (calls.take i)) :=
    Machine.run_relation (P := fun call => kernel.HoldsXattrs k key real call.source)
      (fun _ _ _ hcall h => h.step hcall) (lays_of_no_xattrs hp hnone s) (calls.take i)
      (fun call hcall => hcalls call (List.mem_of_mem_take hcall))
  exact hrun.laws

end Runs

/-! ## Real attributes on a file system -/

/-- A call that leads to an inode on a Unix kernel finds the attributes of that inode. -/
theorem unixKernel_holdsXattrs {k : UnixState} {source : StatSource} {st : Stat}
    {real : RealXattrs} (hstat : source.stat unixKernel k = .ok st)
    (hreal : k.xattrsOf source = some real.map) :
    unixKernel.HoldsXattrs k (keyFromStat st) real source where
  stat := ⟨st, hstat, rfl⟩
  getxattr name buf := by
    change k.getxattr source name buf = _
    rw [UnixState.getxattr, hreal, Option.bind_some]
    cases real.map.lookup name <;> rfl
  listxattr buf := by
    change k.listxattr source buf = _
    rw [UnixState.listxattr, hreal]

namespace RootXattrs

/-- `user.a`, and a name that is not UTF-8. -/
def nameA : XattrName := ⟨[117, 115, 101, 114, 46, 97], by decide⟩

def nameInvalid : XattrName := ⟨[117, 115, 101, 114, 46, 255], by decide⟩

def real : RealXattrs where
  map := (AList.singleton nameInvalid.1 [2]).insert nameA.1 [1]
  isName := by decide
  length_value_le := by
    intro name value h
    have hall : ∀ entry ∈ ((AList.singleton nameInvalid.1 [2]).insert nameA.1 [1] :
        AList fun _ : List UInt8 => List UInt8).entries, entry.2.length ≤ 65536 := by decide
    exact hall _ (AList.mem_lookup_iff.mp h)
  length_list_le := by decide

def state : UnixState :=
  { UnixState.empty with
    tree := UnixState.empty.tree.setAttrs 1 fun attrs => { attrs with xattrs := real.map } }

def root : StatSource := .path (some [47]) false

theorem holdsXattrs_root : unixKernel.HoldsXattrs state (1, 1) real root := by
  have hstat : root.stat unixKernel state = .ok ⟨1, 1, 0o040755, 2, 0, 0, 0⟩ := by decide +kernel
  exact unixKernel_holdsXattrs hstat rfl

def initial : Host 1 := (Process.withoutSession 0 0, Session.start 1 0 0)

theorem lays_initial : Lays (1, 1) initial (fun _ => none) :=
  lays_of_no_xattrs (Or.inr (Process.alone_withoutSession 0 0)) rfl _

theorem xattrLaws_of_calls_set :
    let calls : List XattrCall := [.set root nameA [5, 6], .remove root nameA]
    XattrLaws Wincode.bincode XattrCodec.wincode unixKernel state (1, 1) real
      (Machine.run (XattrCall.step Wincode.bincode XattrCodec.wincode unixKernel state) initial
        (calls.take 1))
      (Machine.run XattrCall.lay (fun _ => none) (calls.take 1)) :=
  xattrLaws_of_calls Wincode.bincode XattrCodec.wincode unixKernel state
    (Or.inr (Process.alone_withoutSession 0 0)) rfl _ _
    (by
      intro call hcall
      simp only [List.mem_cons, List.not_mem_nil, or_false] at hcall
      rcases hcall with rfl | rfl <;> exact holdsXattrs_root)
    1

/-- A real attribute is read and listed after its removal, a long value is cut, and a name
that is not UTF-8 is listed but cannot be read. -/
theorem removed_attribute_read :
    let reply := XattrCall.reply Wincode.bincode XattrCodec.wincode unixKernel state
    let step := XattrCall.step Wincode.bincode XattrCodec.wincode unixKernel state
    let buf := Buffer.blank 16
    let removed : Host 1 := step initial (.remove root nameA)
    let long := List.replicate 65537 (7 : UInt8)
    (reply initial (.remove root nameA)).1 = 0 ∧ reply removed (.get root nameA buf) = (1, [1]) ∧
      nameA.1 ∈ NulList.split (reply removed (.list root buf)).2 ∧
      (reply initial (.set root nameA long)).1 = 0 ∧
      reply (step initial (.set root nameA long)) (.get root nameA (.blank 65537)) =
        (65536, List.replicate 65536 7) ∧
      nameInvalid.1 ∈ NulList.split (reply initial (.list root buf)).2 ∧
      reply initial (.get root nameInvalid buf) = (-einval, []) := by
  intro reply step buf removed long
  have hname : (readCstr (some nameA.1)).isSome = true := by decide +kernel
  have hlaws : XattrLaws Wincode.bincode XattrCodec.wincode unixKernel state (1, 1) real initial
      (fun _ => none) := lays_initial.laws
  have hlong : (reply initial (.set root nameA long)).1 = 0 := by
    have hreply := hlaws.set holdsXattrs_root nameA long
    rwa [if_pos hname] at hreply
  have htake : long.take maxXattr = List.replicate 65536 7 := by
    have hmin : min maxXattr 65537 = 65536 := by decide
    rw [List.take_replicate, hmin]
  have hlength : (List.replicate 65536 (7 : UInt8)).length = 65536 := List.length_replicate
  have hcut : reply (step initial (.set root nameA long)) (.get root nameA (.blank 65537)) =
      (65536, List.replicate 65536 7) := by
    have htakes : (Buffer.blank 65537).Takes (long.take maxXattr).length := by
      rw [htake, hlength]
      exact ⟨rfl, by decide⟩
    have hget : reply (step initial (.set root nameA long)) (.get root nameA (.blank 65537)) =
        (Int32.ofNat (long.take maxXattr).length, long.take maxXattr) :=
      lays_initial.get_set holdsXattrs_root hname htakes
    rw [hget, htake, hlength]
    rfl
  exact ⟨by decide +kernel, by decide +kernel, by decide +kernel, hlong, hcut,
    by decide +kernel, by decide +kernel⟩

end RootXattrs

end Pseudoroot
