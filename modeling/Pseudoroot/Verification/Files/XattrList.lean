import Pseudoroot.Verification.Files.XattrHooks

/-! # Listing the attributes into a buffer of the queried size -/

namespace Pseudoroot

open Calls Ownership

/-- The real call lists these names. It writes nothing if the size is zero or too small. -/
structure Kernel.ListsNames {κ : Type} (kernel : Kernel κ) (k : κ) (source : StatSource)
    (real : List (List UInt8)) : Prop where
  isName : ∀ name ∈ real, NulList.IsName name
  nodup : real.Nodup
  length_lt : (NulList.join real).length < 2 ^ 31
  query : kernel.listxattr k source .nothing = (Int32.ofNat (NulList.join real).length, [])
  short : ∀ {buf : Buffer}, 0 < buf.size.toNat → buf.size.toNat < (NulList.join real).length →
    kernel.listxattr k source buf = (-1, [])
  whole : ∀ {buf : Buffer}, buf.Takes (NulList.join real).length →
    kernel.listxattr k source buf = (Int32.ofNat (NulList.join real).length, NulList.join real)

namespace XattrRequest

/-! ## Lengths as statuses -/

/-- A buffer of the size that a status says, with these bytes in it. -/
def sizedBuffer (status : Int32) (memory : ℕ → UInt8) : Buffer :=
  ⟨false, UInt64.ofNat status.toNatClampNeg, memory⟩

/-- The length of a list is cut to 32 bits on its way to the size of a buffer. -/
theorem toNat_size_sizedBuffer {length : ℕ} (h : 0 ≤ Int32.ofNat length) (memory : ℕ → UInt8) :
    (sizedBuffer (Int32.ofNat length) memory).size.toNat = length % 2 ^ 32 ∧
      length % 2 ^ 32 < 2 ^ 31 := by
  rw [Int32.le_iff_toInt_le, Int32.toInt_ofNat', Int32.toInt_zero] at h
  simp only [Int32.size, Int.bmod] at h
  have hvalue : (Int32.ofNat length).toNatClampNeg = length % 2 ^ 32 := by
    rw [← Int32.toNat_toInt, Int32.toInt_ofNat']
    simp only [Int32.size, Int.bmod]
    omega
  rw [sizedBuffer, hvalue, UInt64.toNat_ofNat']
  omega

def listStatus (names : List (List UInt8)) : Int32 :=
  Int32.ofNat (NulList.join names).length

theorem listStatus_nonneg {names : List (List UInt8)} (h : (NulList.join names).length < 2 ^ 31) :
    0 ≤ listStatus names :=
  ofNat_nonneg h

theorem toNat_size_sizedBuffer_listStatus {names : List (List UInt8)}
    (h : (NulList.join names).length < 2 ^ 31) (memory : ℕ → UInt8) :
    (sizedBuffer (listStatus names) memory).size.toNat = (NulList.join names).length := by
  have hsize := (toNat_size_sizedBuffer (listStatus_nonneg h) memory).1
  rw [listStatus, hsize]
  omega

/-- A call with a buffer of this size returns the size, and lists every name once, whatever is in
the buffer before. -/
def Fills (real recorded : List (List UInt8)) (reply : Buffer → Int32 × List UInt8)
    (status : Int32) : Prop :=
  ∀ memory, (reply (sizedBuffer status memory)).1 = status ∧
    ∃ names, (reply (sizedBuffer status memory)).2 = NulList.join names ∧ names.Nodup ∧
      ∀ name, name ∈ names ↔ name ∈ real ∨ name ∈ recorded

theorem writeXattrValue_query (value : List UInt8) :
    writeXattrValue value .nothing = (Int32.ofNat value.length, []) :=
  if_pos rfl

theorem writeXattrValue_of_lt {value : List UInt8} {buf : Buffer} (hsize : 0 < buf.size.toNat)
    (h : buf.size.toNat < value.length) : writeXattrValue value buf = (-erange, []) := by
  have hne : buf.size ≠ 0 := fun hzero => hsize.ne' (UInt64.toNat_inj.mpr hzero)
  rw [writeXattrValue, if_neg hne, if_pos h]

/-! ## What the list hooks reply -/

section Reply

variable {κ : Type} {kernel : Kernel κ} {k : κ} {source : StatSource} {st : Stat}
  {real : List (List UInt8)} {xattrs : InodeKey → XattrMap}
  (hreal : kernel.ListsNames k source real)

def recordedNames (xattrs : InodeKey → XattrMap) (key : InodeKey) : List (List UInt8) :=
  (xattrs key).keys.map asBytes

theorem nodup_recordedNames (xattrs : InodeKey → XattrMap) (key : InodeKey) :
    (recordedNames xattrs key).Nodup :=
  Std.ExtTreeMap.nodup_keys.map asBytes_injective

theorem recordedNames_eq_nil_iff {key : InodeKey} :
    recordedNames xattrs key = [] ↔ (xattrs key).keys = [] :=
  List.map_eq_nil_iff

theorem reply_list_of_nil (hstat : source.stat kernel k = .ok st) (buf : Buffer)
    (h : recordedNames xattrs (keyFromStat st) = []) :
    (list buf).reply kernel k source xattrs = kernel.listxattr k source buf := by
  simp [reply, hstat, recordedNames_eq_nil_iff.mp h]

theorem reply_list_of_ne_nil (hstat : source.stat kernel k = .ok st) (buf : Buffer)
    (h : recordedNames xattrs (keyFromStat st) ≠ []) :
    (list buf).reply kernel k source xattrs =
      writeXattrValue (NulList.join (NulList.merge (NulList.split (realList kernel k source buf))
        (recordedNames xattrs (keyFromStat st)))) buf := by
  have hkeys : (xattrs (keyFromStat st)).keys ≠ [] := mt recordedNames_eq_nil_iff.mpr h
  simp only [reply, hstat, List.isEmpty_iff, if_neg hkeys, writeXattrList,
    mergeXattrLists_eq _ Std.ExtTreeMap.nodup_keys]
  rfl

theorem merge_nil (extra : List (List UInt8)) : NulList.merge [] extra = extra := by
  simp [NulList.merge_eq]

theorem reply_list_query (hstat : source.stat kernel k = .ok st)
    (h : recordedNames xattrs (keyFromStat st) ≠ []) :
    (list .nothing).reply kernel k source xattrs =
      (Int32.ofNat (NulList.join (recordedNames xattrs (keyFromStat st))).length, []) := by
  have hnone : NulList.split (realList kernel k source .nothing) = [] := by
    simp [realList, Buffer.nothing, NulList.split]
  rw [reply_list_of_ne_nil hstat _ h, hnone, merge_nil, writeXattrValue_query]

include hreal

/-- A buffer that takes the real names holds them after the real call. -/
theorem split_realList_of_takes {buf : Buffer} (h : buf.Takes (NulList.join real).length) :
    NulList.split (realList kernel k source buf) = real := by
  rw [realList, hreal.whole h]
  exact (congrArg NulList.split (Buffer.readBack_eq h.1 hreal.length_lt)).trans
    (NulList.split_join hreal.isName)

theorem split_realList_of_short {buf : Buffer} (hsize : 0 < buf.size.toNat)
    (h : buf.size.toNat < (NulList.join real).length) :
    NulList.split (realList kernel k source buf) = [] := by
  simp [realList, hreal.short hsize h, NulList.split]


variable (xattrs) in
theorem fills_of_nil (hstat : source.stat kernel k = .ok st)
    (h : recordedNames xattrs (keyFromStat st) = []) :
    Fills real [] (fun buf => (list buf).reply kernel k source xattrs) (listStatus real) := by
  intro memory
  have htakes : (sizedBuffer (listStatus real) memory).Takes (NulList.join real).length :=
    ⟨rfl, (toNat_size_sizedBuffer_listStatus hreal.length_lt memory).ge⟩
  simp only [reply_list_of_nil hstat _ h, hreal.whole htakes]
  exact ⟨rfl, real, rfl, hreal.nodup, by simp⟩

section Recorded

variable {recorded : List (List UInt8)} (hne : recorded ≠ []) (hnodup : recorded.Nodup)
  {reply : Buffer → Int32 × List UInt8}
  (hreply : ∀ buf, reply buf = writeXattrValue
    (NulList.join (NulList.merge (NulList.split (realList kernel k source buf)) recorded)) buf)

include hnodup hreply

/-- If the recorded names include the real ones, they alone give the length. -/
theorem fills_of_subset (hlt : (NulList.join recorded).length < 2 ^ 31)
    (hsub : ∀ name ∈ real, name ∈ recorded) : Fills real recorded reply (listStatus recorded) := by
  intro memory
  have hsize := toNat_size_sizedBuffer_listStatus hlt memory
  have hrest : real.filter (· ∉ recorded) = [] := by
    refine List.filter_eq_nil_iff.mpr fun name hname => ?_
    simpa using hsub name hname
  have hequal : (NulList.join (NulList.merge real recorded)).length =
      (NulList.join recorded).length := by
    rw [NulList.length_join_merge hreal.nodup hnodup, hrest]
    rfl
  have hreal_le : (NulList.join real).length ≤
      (NulList.join (NulList.merge real recorded)).length := by
    rw [NulList.merge_eq, NulList.join_append, List.length_append]
    exact Nat.le_add_right _ _
  have htakes : (sizedBuffer (listStatus recorded) memory).Takes
      (NulList.join (NulList.merge real recorded)).length := ⟨rfl, by omega⟩
  rw [hreply, split_realList_of_takes hreal (htakes.of_le hreal_le),
    writeXattrValue_of_takes htakes, hequal]
  exact ⟨rfl, NulList.merge real recorded, rfl, NulList.nodup_merge hreal.nodup hnodup,
    fun name => NulList.mem_merge⟩

include hne

/-- A real name that is not recorded does not fit, or the real call finds no room at all. -/
theorem not_fills_of_not_subset (hname : ∀ name ∈ recorded, NulList.IsName name)
    (hlt : (NulList.join recorded).length < 2 ^ 31) (hsub : ¬ ∀ name ∈ real, name ∈ recorded) :
    ¬ Fills real recorded reply (listStatus recorded) := by
  intro hfills
  obtain ⟨hstatus, names, hbytes, -, hnames⟩ := hfills fun _ => 0
  have hsize := toNat_size_sizedBuffer_listStatus hlt fun _ => 0
  have hpos : 0 < (NulList.join recorded).length :=
    Nat.pos_of_ne_zero (mt NulList.length_join_eq_zero.mp hne)
  rw [hreply] at hstatus hbytes
  rcases Nat.lt_or_ge (NulList.join recorded).length (NulList.join real).length with hshort | hfits
  · -- the real call fails, and the recorded names alone are written
    have htakes : (sizedBuffer (listStatus recorded) fun _ => 0).Takes
        (NulList.join recorded).length := ⟨rfl, hsize.ge⟩
    rw [split_realList_of_short hreal (by omega) (by omega), merge_nil,
      writeXattrValue_of_takes htakes] at hbytes
    have hall : ∀ name ∈ names, NulList.IsName name := fun name hmem =>
      ((hnames name).mp hmem).elim (hreal.isName name) (hname name)
    have heq : recorded = names := by
      have hsplit := congrArg NulList.split hbytes
      rwa [NulList.split_join hname, NulList.split_join hall] at hsplit
    exact hsub fun name hmem => heq ▸ (hnames name).mpr (Or.inl hmem)
  · -- the merged list is longer than the buffer
    have htakes : (sizedBuffer (listStatus recorded) fun _ => 0).Takes
        (NulList.join real).length := ⟨rfl, by omega⟩
    have hrest : 0 < (NulList.join (real.filter (· ∉ recorded))).length := by
      refine Nat.pos_of_ne_zero fun hzero => hsub fun name hmem => ?_
      have hfilter := List.filter_eq_nil_iff.mp (NulList.length_join_eq_zero.mp hzero) name hmem
      simpa using hfilter
    have hmerged := NulList.length_join_merge hreal.nodup hnodup
    rw [split_realList_of_takes hreal htakes,
      writeXattrValue_of_lt (by omega) (by omega)] at hstatus
    exact absurd (listStatus_nonneg hlt) (hstatus ▸ by decide)

/-- A length of 2^31 or more is cut, and the recorded names alone do not fit. -/
theorem not_fills_of_cut (hnonneg : 0 ≤ listStatus recorded)
    (hlarge : 2 ^ 31 ≤ (NulList.join recorded).length) :
    ¬ Fills real recorded reply (listStatus recorded) := by
  intro hfills
  obtain ⟨hstatus, names, hbytes, -, hnames⟩ := hfills fun _ => 0
  obtain ⟨hsize, hsmall⟩ := toNat_size_sizedBuffer hnonneg fun _ => 0
  rw [← listStatus] at hsize
  rw [hreply] at hstatus hbytes
  generalize hbuf : sizedBuffer (listStatus recorded) (fun _ => 0) = buf at *
  have hnull : buf.null = false := by rw [← hbuf]; rfl
  rcases Nat.eq_zero_or_pos buf.size.toNat with hzero | hpos
  · -- nothing is written, and the recorded names are missing
    rw [writeXattrValue, if_pos (UInt64.toNat_inj.mp hzero)] at hbytes
    have hnil : names = [] := NulList.length_join_eq_zero.mp (by rw [← hbytes]; rfl)
    refine hne (List.eq_nil_iff_forall_not_mem.mpr fun name hname => ?_)
    have hmem : name ∈ names := (hnames name).mpr (Or.inr hname)
    rw [hnil] at hmem
    cases hmem
  · have hlong : buf.size.toNat < (NulList.join (NulList.merge
        (NulList.split (realList kernel k source buf)) recorded)).length := by
      rcases Nat.lt_or_ge buf.size.toNat (NulList.join real).length with hshort | hfits
      · rw [split_realList_of_short hreal hpos hshort, merge_nil]
        omega
      · rw [split_realList_of_takes hreal ⟨hnull, hfits⟩,
          NulList.length_join_merge hreal.nodup hnodup]
        omega
    rw [writeXattrValue_of_lt hpos hlong] at hstatus
    exact absurd hnonneg (hstatus ▸ by decide)

end Recorded

end Reply

/-! ## A query and the call after it -/

section Run

variable {κ : Type} {n : ℕ} [NeZero n] {w : Wincode} {codec : XattrCodec} {kernel : Kernel κ}
  {k : κ}

variable (w codec kernel k) in
/-- If a query returns a length, the next call with a buffer of that length lists every name. -/
def QueryAgrees (target : XattrTarget) (real recorded : List (List UInt8)) (x : Host n) : Prop :=
  let call := fun (buf : Buffer) (x : Host n) => x.run w codec ((list buf).hook w kernel k target)
  let query := call .nothing x
  0 ≤ query.1.1 → Fills real recorded (fun buf => (call buf query.2).1) query.1.1

/-- A query agrees with the call after it exactly when no name is recorded, when it fails itself,
or when the recorded names include the real ones. -/
theorem queryAgrees_iff (hw : w.Lawful) (b : Option Backing) (x : Host n) (hx : x.Uses b codec)
    {target : XattrTarget} {st : Stat} {real recorded : List (List UInt8)}
    (hstat : target.source.stat kernel k = .ok st)
    (hreal : kernel.ListsNames k target.source real)
    (hrecorded : recordedNames (x.xattrs b codec) (keyFromStat st) = recorded)
    (hname : ∀ name ∈ recorded, NulList.IsName name) :
    QueryAgrees w codec kernel k target real recorded x ↔
      recorded = [] ∨ listStatus recorded < 0 ∨
        (NulList.join recorded).length < 2 ^ 31 ∧ ∀ name ∈ real, name ∈ recorded := by
  subst hrecorded
  obtain ⟨p, s⟩ := x
  obtain ⟨p₁, s₁, hquery, hserves, htable⟩ :=
    hx.exec_xattrRequest hw kernel k (list .nothing) target.source
  have hxattrs : Host.xattrs b codec (p₁, s₁) = Host.xattrs b codec (p, s) := by
    funext key
    rw [Host.xattrs, Host.xattrs, htable trivial]
  have hfirst : Host.run w codec ((list .nothing).hook w kernel k target) (p, s) =
      ((list .nothing).reply kernel k target.source (Host.xattrs b codec (p, s)), (p₁, s₁)) := by
    rw [hook_eq, Host.run_eq hquery]
  have hsecond : ∀ buf : Buffer, (Host.run w codec ((list buf).hook w kernel k target)
      (p₁, s₁)).1 = (list buf).reply kernel k target.source (Host.xattrs b codec (p, s)) := by
    intro buf
    obtain ⟨p₂, s₂, hexec, -⟩ := hserves.exec_xattrRequest hw kernel k (list buf) target.source
    rw [hook_eq, Host.run_eq hexec, hxattrs]
  have hnodup := nodup_recordedNames (Host.xattrs b codec (p, s)) (keyFromStat st)
  simp only [QueryAgrees, hfirst, hsecond]
  by_cases hnil : recordedNames (Host.xattrs b codec (p, s)) (keyFromStat st) = []
  · rw [reply_list_of_nil hstat _ hnil, hreal.query]
    exact iff_of_true (fun _ => by rw [hnil]; exact fills_of_nil _ hreal hstat hnil) (Or.inl hnil)
  · rw [reply_list_query hstat hnil]
    have hreply := fun buf => reply_list_of_ne_nil hstat buf hnil
    generalize recordedNames (Host.xattrs b codec (p, s)) (keyFromStat st) = recorded at *
    rw [← listStatus]
    constructor
    · intro hfills
      refine Or.inr (Decidable.or_iff_not_imp_left.mpr fun hneg => ?_)
      have hnonneg : 0 ≤ listStatus recorded := Int32.not_lt.mp hneg
      have hlt : (NulList.join recorded).length < 2 ^ 31 := by
        refine Nat.lt_of_not_le fun hlarge => ?_
        exact not_fills_of_cut hreal hnil hnodup hreply hnonneg hlarge (hfills hnonneg)
      refine ⟨hlt, Classical.byContradiction fun hsub => ?_⟩
      exact not_fills_of_not_subset hreal hnil hnodup hreply hname hlt hsub (hfills hnonneg)
    · rintro (hempty | hneg | ⟨hlt, hsub⟩) hnonneg
      · exact absurd hempty hnil
      · exact absurd hneg (Int32.not_lt.mpr hnonneg)
      · exact fills_of_subset hreal hnodup hreply hlt hsub

end Run

end XattrRequest

/-- A file whose real attributes are within the limits of the kernel lists their names. -/
theorem Kernel.HoldsXattrs.listsNames {κ : Type} {kernel : Kernel κ} {k : κ} {key : InodeKey}
    {real : RealXattrs} {source : StatSource} (h : kernel.HoldsXattrs k key real source) :
    kernel.ListsNames k source real.map.keys where
  isName := real.isName
  nodup := real.map.keys_nodup
  length_lt := real.length_list_le.trans_lt (by decide)
  query := by
    rw [h.listxattr]
    rfl
  short hsize hlt := by
    have hne : ∀ {size : UInt64}, 0 < size.toNat → size ≠ 0 := fun hpos hzero =>
      hpos.ne' (UInt64.toNat_inj.mpr hzero)
    rw [h.listxattr, UnixState.fill, if_neg (hne hsize), if_pos (Or.inl hlt)]
    rfl
  whole htakes := by rw [h.listxattr, fill_of_takes htakes]

namespace RootXattrs

/-- A process that has recorded the attribute `user.b` of the root directory. -/
def recording : Process :=
  { Process.withoutSession 0 0 with
    globalState := FakeRootState.new.setInode (1, 1)
      { FakeInode.new 0 0 with xattrs := (∅ : XattrMap).insert "user.b" [3] } }

theorem queryAgrees_iff_recording :
    let x : Host 1 := (recording, Session.start 1 0 0)
    let recorded := XattrRequest.recordedNames (x.xattrs none XattrCodec.wincode) (1, 1)
    XattrRequest.QueryAgrees Wincode.bincode XattrCodec.wincode unixKernel state
        (.path (some [47])) real.map.keys recorded x ↔
      recorded = [] ∨ XattrRequest.listStatus recorded < 0 ∨
        (NulList.join recorded).length < 2 ^ 31 ∧ ∀ name ∈ real.map.keys, name ∈ recorded := by
  have hstat : root.stat unixKernel state = .ok ⟨1, 1, 0o040755, 2, 0, 0, 0⟩ := by decide +kernel
  exact XattrRequest.queryAgrees_iff Wincode.bincode_lawful none (recording, Session.start 1 0 0)
    ⟨trivial, Or.inr ⟨rfl, rfl, rfl, rfl, rfl, rfl⟩⟩ hstat holdsXattrs_root.listsNames rfl
    (by decide +kernel)

/-- A query counts `user.b` only, and the next call finds no room for the real names. -/
theorem query_below_list :
    let w := Wincode.bincode
    let codec := XattrCodec.wincode
    let target : XattrTarget := .path (some [47])
    let x : Host 1 := (recording, Session.start 1 0 0)
    let call := fun (buf : Buffer) (x : Host 1) =>
      x.run w codec ((XattrRequest.list buf).hook w unixKernel state target)
    let query := call .nothing x
    query.1 = (7, []) ∧ (call (.blank 7) query.2).1 = (7, asBytes "user.b" ++ [0]) ∧
      ¬ XattrRequest.QueryAgrees w codec unixKernel state target real.map.keys [asBytes "user.b"]
        x := by
  intro w codec target x call query
  have hquery : query.1 = (7, []) := by decide +kernel
  have hfilled : (call (.blank 7) query.2).1 = (7, asBytes "user.b" ++ [0]) := by decide +kernel
  refine ⟨hquery, hfilled, fun hagrees => ?_⟩
  have hnonneg : 0 ≤ query.1.1 := by
    rw [hquery]
    decide
  have hbuf : XattrRequest.sizedBuffer query.1.1 (fun _ => 0) = .blank 7 := by
    rw [hquery]
    rfl
  have hfills : XattrRequest.Fills real.map.keys [asBytes "user.b"]
      (fun buf => (call buf query.2).1) query.1.1 := hagrees hnonneg
  obtain ⟨-, names, hbytes, -, hnames⟩ := hfills fun _ => 0
  simp only [hbuf, hfilled] at hbytes
  have hall : ∀ name ∈ names, NulList.IsName name := by
    intro name hmem
    rcases (hnames name).mp hmem with hreal | hrecorded
    · exact real.isName name hreal
    · rw [List.mem_singleton.mp hrecorded]
      decide +kernel
  have hlisted : nameA.1 ∈ names := (hnames nameA.1).mpr (Or.inl (by decide))
  rw [← NulList.split_join hall, ← hbytes] at hlisted
  exact absurd hlisted (by decide +kernel)

end RootXattrs

end Pseudoroot
