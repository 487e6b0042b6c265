import Pseudoroot.Verification.Files.Tree
import Pseudoroot.Verification.Files.Xattr
import Pseudoroot.Verification.Session.Report

/-! # What the hooks on extended attributes return -/

namespace Pseudoroot

open Calls Calls.Program Ownership

/-! ## The twelve hooks -/

/-- How a call names its file. -/
inductive XattrTarget where
  | path (path : CStr)
  /-- A path whose last symbolic link is not followed. -/
  | link (path : CStr)
  | fd (fd : Int32)

def XattrTarget.source : XattrTarget → StatSource
  | path p => .path p false
  | link p => .path p true
  | fd d => .fd d

inductive XattrRequest where
  | set (name value : CStr) (flags : Int32)
  | get (name : CStr) (value : Buffer)
  | list (list : Buffer)
  | remove (name : CStr)

namespace XattrRequest

/-- The status, and the bytes that end up in the buffer. -/
def hook {κ : Type} (w : Wincode) (kernel : Kernel κ) (k : κ) :
    XattrRequest → XattrTarget → Hook (Int32 × List UInt8)
  | set name value flags, .path path => (·, []) <$> setxattr w kernel k path name value flags
  | set name value flags, .link path => (·, []) <$> lsetxattr w kernel k path name value flags
  | set name value flags, .fd fd => (·, []) <$> fsetxattr w kernel k fd name value flags
  | get name value, .path path => getxattr w kernel k path name value
  | get name value, .link path => lgetxattr w kernel k path name value
  | get name value, .fd fd => fgetxattr w kernel k fd name value
  | list buf, .path path => listxattr w kernel k path buf
  | list buf, .link path => llistxattr w kernel k path buf
  | list buf, .fd fd => flistxattr w kernel k fd buf
  | remove name, .path path => (·, []) <$> removexattr w kernel k path name
  | remove name, .link path => (·, []) <$> lremovexattr w kernel k path name
  | remove name, .fd fd => (·, []) <$> fremovexattr w kernel k fd name

/-- The function that the three hooks of a family share. -/
def fake {κ : Type} (w : Wincode) (kernel : Kernel κ) (k : κ) (source : StatSource) :
    XattrRequest → Hook (Int32 × List UInt8)
  | set name value _ => (·, []) <$> fakeSetxattr w kernel k source name value
  | get name value => fakeGetxattr w kernel k source name value
  | list buf => fakeListxattr w kernel k source buf
  | remove name => (·, []) <$> fakeRemovexattr w kernel k source name

theorem hook_eq {κ : Type} (w : Wincode) (kernel : Kernel κ) (k : κ) (request : XattrRequest)
    (target : XattrTarget) :
    request.hook w kernel k target = request.fake w kernel k target.source := by
  cases request <;> cases target <;> rfl

/-! ## Replies -/

/-- The names that a list call finds in the buffer after the real call. -/
def realList {κ : Type} (kernel : Kernel κ) (k : κ) (source : StatSource) (buf : Buffer) :
    List UInt8 :=
  let (realRet, written) := kernel.listxattr k source buf
  if realRet > 0 ∧ !buf.null then buf.read written realRet.toNatClampNeg else []

/-- What setting or removing an attribute returns. -/
def changeStatus {κ : Type} (kernel : Kernel κ) (k : κ) (source : StatSource) (name : CStr) :
    Int32 :=
  match readCstr name with
  | none => -einval
  | some _ =>
    match source.stat kernel k with
    | .ok _ => 0
    | .error errno => errno

/-- What a hook returns when these attributes are recorded for the file it finds. -/
def reply {κ : Type} (kernel : Kernel κ) (k : κ) (source : StatSource)
    (xattrs : InodeKey → XattrMap) : XattrRequest → Int32 × List UInt8
  | set name _ _ | remove name => (changeStatus kernel k source name, [])
  | get name value =>
    match readCstr name with
    | none => (-einval, [])
    | some nameKey =>
      match source.stat kernel k with
      | .ok st =>
        match (xattrs (keyFromStat st))[nameKey]? with
        | some stored => writeXattrValue stored value
        | none => kernel.getxattr k source (name.getD []) value
      | .error _ => kernel.getxattr k source (name.getD []) value
  | list buf =>
    match source.stat kernel k with
    | .ok st =>
      let names := (xattrs (keyFromStat st)).keys
      if names.isEmpty then kernel.listxattr k source buf
      else writeXattrList (mergeXattrLists (realList kernel k source buf) names) buf
    | .error _ => kernel.listxattr k source buf

/-- The request changes nothing. -/
def Reads : XattrRequest → Prop
  | get _ _ | list _ => True
  | set _ _ _ | remove _ => False

end XattrRequest

section Exec

variable {κ : Type} {n : ℕ} [NeZero n] {w : Wincode} (hw : w.Lawful) {codec : XattrCodec}
  {b : Option Backing} {p : Process} {s : Session n} (kernel : Kernel κ) (k : κ)

theorem Host.getElem?_xattrs (x : Host n) (key : InodeKey) (name : String) :
    (x.xattrs b codec key)[name]? =
      (x.table b codec key).bind fun inode => inode.xattrs[name]? := by
  rw [Host.xattrs]
  cases x.table b codec key with
  | none => simp
  | some inode => rfl

theorem Host.keys_xattrs (x : Host n) (key : InodeKey) :
    (x.xattrs b codec key).keys =
      ((x.table b codec key).map fun inode => inode.xattrs.keys).getD [] := by
  rw [Host.xattrs]
  cases x.table b codec key with
  | none => simp
  | some inode => rfl

include hw

/-- A change to the attributes that are recorded for the file that is found. -/
theorem Host.Serves.exec_changeXattrs (h : Host.Serves b codec (p, s)) (source : StatSource)
    (name : CStr) (f : String → FakeInode → FakeInode) :
    ∃ p' s', exec (Session.handle w codec)
        (ensureLibraryInit w >>= fun _ =>
          match readCstr name with
          | none => pure (-einval)
          | some nameKey =>
            match source.stat kernel k with
            | .ok st => do
              updateInode w (keyFromStat st) (f nameKey)
              pure 0
            | .error errno => pure errno) p s =
        ((XattrRequest.changeStatus kernel k source name, p'), s') ∧
      Host.Serves b codec (p', s') := by
  have hinit := h.exec_ensureLibraryInit (w := w)
  rw [exec_bind, hinit]
  cases hname : readCstr name with
  | none => exact ⟨p, s, by simp [XattrRequest.changeStatus, hname], h⟩
  | some nameKey =>
      cases hstat : source.stat kernel k with
      | error e => exact ⟨p, s, by simp [XattrRequest.changeStatus, hname, hstat], h⟩
      | ok st =>
          obtain ⟨p', s', written, hexec, hwrites, -⟩ :=
            h.exec_updateInode hw (keyFromStat st) (f nameKey)
          exact ⟨p', s', by simp [XattrRequest.changeStatus, hname, hstat, hexec],
            hwrites.serves⟩

theorem Host.Serves.exec_fakeSetxattr (h : Host.Serves b codec (p, s)) (source : StatSource)
    (name value : CStr) :
    ∃ p' s', exec (Session.handle w codec) (fakeSetxattr w kernel k source name value) p s =
        ((XattrRequest.changeStatus kernel k source name, p'), s') ∧
      Host.Serves b codec (p', s') :=
  h.exec_changeXattrs hw kernel k source name fun nameKey inode =>
    { inode with xattrs := inode.xattrs.insert nameKey (readXattrValue value) }

theorem Host.Serves.exec_fakeRemovexattr (h : Host.Serves b codec (p, s)) (source : StatSource)
    (name : CStr) :
    ∃ p' s', exec (Session.handle w codec) (fakeRemovexattr w kernel k source name) p s =
        ((XattrRequest.changeStatus kernel k source name, p'), s') ∧
      Host.Serves b codec (p', s') :=
  h.exec_changeXattrs hw kernel k source name fun nameKey inode =>
    { inode with xattrs := inode.xattrs.erase nameKey }

theorem Host.Serves.exec_fakeGetxattr (h : Host.Serves b codec (p, s)) (source : StatSource)
    (name : CStr) (value : Buffer) :
    ∃ p', exec (Session.handle w codec) (fakeGetxattr w kernel k source name value) p s =
        (((XattrRequest.get name value).reply kernel k source (Host.xattrs b codec (p, s)), p'),
          s) ∧
      Host.Same b codec (p, s) (p', s) := by
  have hinit := h.exec_ensureLibraryInit (w := w)
  cases hname : readCstr name with
  | none => exact ⟨p, by simp [XattrRequest.reply, fakeGetxattr, hinit, hname], .refl h⟩
  | some nameKey =>
      cases hstat : source.stat kernel k with
      | error e =>
          exact ⟨p, by simp [XattrRequest.reply, fakeGetxattr, hinit, hname, hstat], .refl h⟩
      | ok st =>
          obtain ⟨p', hget, hsame⟩ := h.exec_getInode hw (keyFromStat st)
          refine ⟨p', ?_, hsame⟩
          simp only [XattrRequest.reply, fakeGetxattr, exec_bind, hinit, hname, hstat, hget,
            Host.getElem?_xattrs]
          cases (Host.table b codec (p, s) (keyFromStat st)).bind
            fun inode => inode.xattrs[nameKey]? <;> rfl

theorem Host.Serves.exec_fakeListxattr (h : Host.Serves b codec (p, s)) (source : StatSource)
    (buf : Buffer) :
    ∃ p', exec (Session.handle w codec) (fakeListxattr w kernel k source buf) p s =
        (((XattrRequest.list buf).reply kernel k source (Host.xattrs b codec (p, s)), p'), s) ∧
      Host.Same b codec (p, s) (p', s) := by
  have hinit := h.exec_ensureLibraryInit (w := w)
  cases hstat : source.stat kernel k with
  | error e => exact ⟨p, by simp [XattrRequest.reply, fakeListxattr, hinit, hstat], .refl h⟩
  | ok st =>
      obtain ⟨p', hget, hsame⟩ := h.exec_getInode hw (keyFromStat st)
      refine ⟨p', ?_, hsame⟩
      simp only [XattrRequest.reply, fakeListxattr, exec_bind, hinit, hstat, hget, exec_pure,
        Host.keys_xattrs]
      cases ((Host.table b codec (p, s) (keyFromStat st)).map
        fun inode => inode.xattrs.keys).getD [] <;> rfl

/-- What a hook of an initialized process returns. A read changes nothing. -/
theorem Host.Serves.exec_xattrRequest (h : Host.Serves b codec (p, s)) (request : XattrRequest)
    (source : StatSource) :
    ∃ p' s', exec (Session.handle w codec) (request.fake w kernel k source) p s =
        ((request.reply kernel k source (Host.xattrs b codec (p, s)), p'), s') ∧
      Host.Serves b codec (p', s') ∧
      (request.Reads → Host.table b codec (p', s') = Host.table b codec (p, s)) := by
  cases request with
  | set name value flags =>
      obtain ⟨p', s', hexec, hserves⟩ := h.exec_fakeSetxattr hw kernel k source name value
      exact ⟨p', s', by simp [XattrRequest.fake, hexec, XattrRequest.reply], hserves,
        fun hreads => hreads.elim⟩
  | remove name =>
      obtain ⟨p', s', hexec, hserves⟩ := h.exec_fakeRemovexattr hw kernel k source name
      exact ⟨p', s', by simp [XattrRequest.fake, hexec, XattrRequest.reply], hserves,
        fun hreads => hreads.elim⟩
  | get name value =>
      obtain ⟨p', hexec, hsame⟩ := h.exec_fakeGetxattr hw kernel k source name value
      exact ⟨p', s, hexec, hsame.serves, fun _ => hsame.table_eq⟩
  | list buf =>
      obtain ⟨p', hexec, hsame⟩ := h.exec_fakeListxattr hw kernel k source buf
      exact ⟨p', s, hexec, hsame.serves, fun _ => hsame.table_eq⟩

/-- What a hook returns, the first of its process or not. -/
theorem Host.Uses.exec_xattrRequest (h : Host.Uses b codec (p, s)) (request : XattrRequest)
    (source : StatSource) :
    ∃ p' s', exec (Session.handle w codec) (request.fake w kernel k source) p s =
        ((request.reply kernel k source (Host.xattrs b codec (p, s)), p'), s') ∧
      Host.Serves b codec (p', s') ∧
      (request.Reads → Host.table b codec (p', s') = Host.table b codec (p, s)) := by
  obtain ⟨p₁, s₁, hinit, hserves, htable⟩ := h.exec_ensureLibraryInit hw
  obtain ⟨p', s', hexec, hserves', hreads⟩ := hserves.exec_xattrRequest hw kernel k request source
  have hxattrs : Host.xattrs b codec (p₁, s₁) = Host.xattrs b codec (p, s) := by
    funext key
    rw [Host.xattrs, Host.xattrs, htable]
  have hagain := hserves.exec_ensureLibraryInit (w := w)
  refine ⟨p', s', ?_, hserves', fun hr => (hreads hr).trans htable⟩
  rw [← hxattrs, ← hexec]
  cases request <;>
    simp [XattrRequest.fake, fakeSetxattr, fakeGetxattr, fakeListxattr, fakeRemovexattr, hinit,
      hagain]

end Exec

/-! ## The convention of C -/

/-- The real calls fail with -1. -/
structure Kernel.FailsWithMinusOne {κ : Type} (kernel : Kernel κ) (k : κ) : Prop where
  fstatat : ∀ {dirfd path flags e}, kernel.fstatat k dirfd path flags = .error e → e = -1
  fstat : ∀ {fd e}, kernel.fstat k fd = .error e → e = -1
  getxattr : ∀ source name buf, -1 ≤ (kernel.getxattr k source name buf).1
  listxattr : ∀ source buf, -1 ≤ (kernel.listxattr k source buf).1

/-- The size is zero or large enough, and the length is a status that is no other error. -/
def Buffer.Accepts (buf : Buffer) (length : ℕ) : Prop :=
  (buf.size = 0 ∨ length ≤ buf.size.toNat) ∧ -1 ≤ Int32.ofNat length

namespace XattrRequest

/-- The status is that of a success or -1. -/
def Conventional (status : Int32) : XattrRequest → Prop
  | set _ _ _ | remove _ => status = 0 ∨ status = -1
  | get _ _ | list _ => 0 ≤ status ∨ status = -1

instance (status : Int32) (request : XattrRequest) : Decidable (request.Conventional status) :=
  match request with
  | set _ _ _ | remove _ | get _ _ | list _ => inferInstanceAs (Decidable (_ ∨ _))

/-- The names that a file lists, when these are the real ones and these are recorded. -/
def listed (realList : List UInt8) (recorded : List String) : List (List UInt8) :=
  NulList.merge (NulList.split realList) (recorded.map asBytes)

/-- The name can be read, and the buffer takes what is recorded for the file. -/
def Readable {κ : Type} (kernel : Kernel κ) (k : κ) (source : StatSource)
    (xattrs : InodeKey → XattrMap) : XattrRequest → Prop
  | set name _ _ | remove name => readCstr name ≠ none
  | get name value => readCstr name ≠ none ∧
      ∀ st nameKey stored, source.stat kernel k = .ok st → readCstr name = some nameKey →
        (xattrs (keyFromStat st))[nameKey]? = some stored → value.Accepts stored.length
  | list buf => ∀ st, source.stat kernel k = .ok st → (xattrs (keyFromStat st)).keys ≠ [] →
      buf.Accepts (NulList.join (listed (realList kernel k source buf)
        (xattrs (keyFromStat st)).keys)).length

theorem nonneg_or_eq_iff (status : Int32) : 0 ≤ status ∨ status = -1 ↔ -1 ≤ status := by
  rw [Int32.le_iff_toInt_le, Int32.le_iff_toInt_le, ← Int32.toInt_inj]
  have hzero : (0 : Int32).toInt = 0 := rfl
  have hone : (-1 : Int32).toInt = -1 := rfl
  omega

theorem writeXattrValue_conventional_iff (value : List UInt8) (buf : Buffer) :
    -1 ≤ (writeXattrValue value buf).1 ↔ buf.Accepts value.length := by
  unfold writeXattrValue Buffer.Accepts
  by_cases hsize : buf.size = 0
  · simp [hsize]
  · by_cases hfits : value.length ≤ buf.size.toNat
    · simp [hsize, hfits, Nat.not_lt.mpr hfits]
    · have hlong : value.length > buf.size.toNat := Nat.lt_of_not_le hfits
      rw [if_neg hsize, if_pos hlong]
      exact iff_of_false (by decide) fun h => h.1.elim hsize hfits

variable {κ : Type} {kernel : Kernel κ} {k : κ}

theorem eq_of_stat_eq_error (hkernel : kernel.FailsWithMinusOne k) {target : XattrTarget}
    {e : Int32} (h : target.source.stat kernel k = .error e) : e = -1 := by
  cases target with
  | path p => exact hkernel.fstatat h
  | link p => exact hkernel.fstatat h
  | fd d => exact hkernel.fstat h

/-- A change of attributes is answered as in C exactly when the name can be read. -/
theorem changeStatus_conventional_iff (hkernel : kernel.FailsWithMinusOne k)
    (target : XattrTarget) (name : CStr) :
    changeStatus kernel k target.source name = 0 ∨
        changeStatus kernel k target.source name = -1 ↔ readCstr name ≠ none := by
  unfold changeStatus
  cases hname : readCstr name with
  | none => exact iff_of_false (by simp only; decide) fun h => h rfl
  | some name' =>
      cases hstat : target.source.stat kernel k with
      | ok st => simp
      | error e => simp [eq_of_stat_eq_error hkernel hstat]

theorem reply_conventional_iff (hkernel : kernel.FailsWithMinusOne k) (target : XattrTarget)
    (xattrs : InodeKey → XattrMap) (request : XattrRequest) :
    request.Conventional (request.reply kernel k target.source xattrs).1 ↔
      request.Readable kernel k target.source xattrs := by
  cases request with
  | set name value flags => exact changeStatus_conventional_iff hkernel target name
  | remove name => exact changeStatus_conventional_iff hkernel target name
  | get name value =>
      simp only [Conventional, Readable, reply, nonneg_or_eq_iff]
      cases hname : readCstr name with
      | none => exact iff_of_false (by simp only; decide) fun h => h.1 rfl
      | some nameKey =>
          have hreal := hkernel.getxattr target.source (name.getD []) value
          cases hstat : target.source.stat kernel k with
          | error e => exact iff_of_true hreal ⟨by simp, fun _ _ _ hfound => by cases hfound⟩
          | ok st =>
              cases hstored : (xattrs (keyFromStat st))[nameKey]? with
              | none =>
                  refine iff_of_true (by simpa only [hstored] using hreal)
                    ⟨by simp, fun st' name' stored hst hname' hfound => ?_⟩
                  cases hst
                  cases hname'
                  rw [hstored] at hfound
                  cases hfound
              | some stored =>
                  simp only [hstored, writeXattrValue_conventional_iff]
                  constructor
                  · refine fun haccepts => ⟨by simp, fun st' name' stored' hst hname' hfound => ?_⟩
                    cases hst
                    cases hname'
                    rw [hstored] at hfound
                    exact Option.some.inj hfound ▸ haccepts
                  · exact fun h => h.2 st nameKey stored rfl rfl hstored
  | list buf =>
      simp only [Conventional, Readable, reply, nonneg_or_eq_iff]
      have hreal := hkernel.listxattr target.source buf
      cases hstat : target.source.stat kernel k with
      | error e => exact iff_of_true hreal fun _ hfound => by cases hfound
      | ok st =>
          simp only [List.isEmpty_iff, Except.ok.injEq, forall_eq']
          by_cases hempty : (xattrs (keyFromStat st)).keys = []
          · simp only [if_pos hempty]
            exact iff_of_true hreal fun hne => absurd hempty hne
          · simp only [if_neg hempty, writeXattrList, writeXattrValue_conventional_iff,
              mergeXattrLists_eq _ Std.ExtTreeMap.nodup_keys, listed]
            exact ⟨fun h _ => h, fun h => h hempty⟩

/-- A hook on extended attributes returns a success value or -1 exactly when the name can be read
and the buffer takes what is recorded. -/
theorem conventional_iff_readable {n : ℕ} [NeZero n] {w : Wincode} (hw : w.Lawful)
    (codec : XattrCodec) (b : Option Backing) (x : Host n) (hx : x.Uses b codec)
    (hkernel : kernel.FailsWithMinusOne k) (request : XattrRequest) (target : XattrTarget) :
    request.Conventional (x.run w codec (request.hook w kernel k target)).1.1 ↔
      request.Readable kernel k target.source (x.xattrs b codec) := by
  obtain ⟨p, s⟩ := x
  obtain ⟨p', s', hexec, -⟩ := hx.exec_xattrRequest hw kernel k request target.source
  rw [hook_eq, Host.run_eq hexec]
  exact reply_conventional_iff hkernel target _ request

end XattrRequest

/-- The attributes that the kernel finds are those of an inode. -/
theorem UnixState.exists_of_xattrsOf {k : UnixState} {source : StatSource}
    {xattrs : AList fun _ : List UInt8 => List UInt8} (h : k.xattrsOf source = some xattrs) :
    ∃ i node, k.tree.inodes.lookup i = some node ∧ node.attrs.xattrs = xattrs := by
  unfold UnixState.xattrsOf at h
  dsimp only at h
  split at h
  · rename_i i _
    obtain ⟨node, hi, hxattrs⟩ := Option.map_eq_some_iff.mp h
    exact ⟨i, node, hi, hxattrs⟩
  · cases h

/-- A Unix kernel whose attributes are within the limits of Linux. -/
theorem UnixState.failsWithMinusOne {k : UnixState}
    (hvalue : ∀ i node name value, k.tree.inodes.lookup i = some node →
      node.attrs.xattrs.lookup name = some value → value.length ≤ 65536)
    (hlist : ∀ i node, k.tree.inodes.lookup i = some node →
      (NulList.join node.attrs.xattrs.keys).length ≤ 65536) :
    unixKernel.FailsWithMinusOne k := by
  have hfill : ∀ bytes buf, bytes.length ≤ 65536 → -1 ≤ (UnixState.fill bytes buf).1 := by
    intro bytes buf hlength
    have hnonneg := (XattrRequest.nonneg_or_eq_iff _).mp (Or.inl
      (ofNat_nonneg (hlength.trans_lt (by decide))))
    unfold UnixState.fill
    split
    · exact hnonneg
    · split
      · decide
      · exact hnonneg
  refine ⟨fun {dirfd path flags e} h => ?_, fun {fd e} h => ?_, fun source name buf => ?_,
    fun source buf => ?_⟩
  · exact UnixState.fstatat_error h
  · have hstat : (StatSource.fd fd).stat unixKernel k = .error e := h
    exact UnixState.stat_error hstat
  · change -1 ≤ (k.getxattr source name buf).1
    unfold UnixState.getxattr
    split
    · rename_i value hfound
      obtain ⟨xattrs, hxattrs, hlookup⟩ := Option.bind_eq_some_iff.mp hfound
      obtain ⟨i, node, hi, rfl⟩ := UnixState.exists_of_xattrsOf hxattrs
      exact hfill value buf (hvalue i node name value hi hlookup)
    · decide
  · change -1 ≤ (k.listxattr source buf).1
    unfold UnixState.listxattr
    split
    · rename_i xattrs hxattrs
      obtain ⟨i, node, hi, rfl⟩ := UnixState.exists_of_xattrsOf hxattrs
      exact hfill _ buf (hlist i node hi)
    · decide

namespace XattrRequest

theorem failsWithMinusOne_empty : unixKernel.FailsWithMinusOne UnixState.empty := by
  have hnode : ∀ {i node}, UnixState.empty.tree.inodes.lookup i = some node →
      node.attrs.xattrs = ∅ := by
    intro i node h
    cases List.mem_singleton.mp (AList.mem_lookup_iff.mp (Option.mem_def.mpr h))
    rfl
  refine UnixState.failsWithMinusOne (fun i node name value hi hlookup => ?_) fun i node hi => ?_
  · rw [hnode hi] at hlookup
    cases hlookup
  · rw [hnode hi]
    decide

theorem conventional_iff_readable_get :
    let x : Host 1 := (Process.withoutSession 0 0, Session.start 1 0 0)
    let get : XattrRequest := .get (some [117, 115, 101, 114, 46, 97]) (.blank 1)
    get.Conventional (x.run Wincode.bincode XattrCodec.wincode
        (get.hook Wincode.bincode unixKernel UnixState.empty (.path (some [47])))).1.1 ↔
      get.Readable unixKernel UnixState.empty (.path (some [47]) false)
        (x.xattrs none XattrCodec.wincode) :=
  conventional_iff_readable Wincode.bincode_lawful XattrCodec.wincode none
    (Process.withoutSession 0 0, Session.start 1 0 0)
    ⟨trivial, Or.inr (Process.alone_withoutSession 0 0)⟩ failsWithMinusOne_empty _
    (.path (some [47]))

/-- A name that is null is refused with the number of another error, and so is a buffer of one
byte for an attribute of two. -/
theorem errno_returned :
    let w := Wincode.bincode
    let codec := XattrCodec.wincode
    let root : XattrTarget := .path (some [47])
    let name : CStr := some [117, 115, 101, 114, 46, 97]
    let started : Host 1 := (Process.withoutSession 0 0, Session.start 1 0 0)
    let run := fun (request : XattrRequest) (x : Host 1) =>
      x.run w codec (request.hook w unixKernel UnixState.empty root)
    let recorded := (run (.set name (some [5, 6]) 0) started).2
    let refused : List XattrRequest := [.set none (some [5]) 0, .remove none,
      .get name (.blank 1), .list (.blank 1)]
    refused.map (fun request => (run request recorded).1.1) = [-22, -22, -34, -34] ∧
      ∀ request ∈ refused, ¬ request.Conventional (run request recorded).1.1 := by
  decide +kernel

end XattrRequest

end Pseudoroot
