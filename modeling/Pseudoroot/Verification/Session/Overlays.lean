import Pseudoroot.Verification.Session.Report

/-! # The overlays of stat and statx side by side -/

namespace Pseudoroot

open Calls Calls.Program

/-! ## Device numbers -/

namespace DeviceNumbers

theorem getLsbD_masks {i : ℕ} (hi : i < 64) :
    (0xff : UInt64).toBitVec.getLsbD i = decide (i < 8) ∧
      (0xfff : UInt64).toBitVec.getLsbD i = decide (i < 12) ∧
      (0xffffff00 : UInt64).toBitVec.getLsbD i = decide (8 ≤ i ∧ i < 32) ∧
      (0xfffff000 : UInt64).toBitVec.getLsbD i = decide (12 ≤ i ∧ i < 32) := by
  revert i
  decide

theorem toNat_shifts :
    ((8 : UInt64).toBitVec % 64).toNat = 8 ∧ ((12 : UInt64).toBitVec % 64).toNat = 12 ∧
      ((32 : UInt64).toBitVec % 64).toNat = 32 := by
  decide

/-- The major number takes the bits from 8 to 19 and from 44 on. -/
theorem getLsbD_major (dev : UInt64) {i : ℕ} (hi : i < 32) :
    (linux.major dev).toBitVec.getLsbD i =
      if i < 12 then dev.toBitVec.getLsbD (8 + i) else dev.toBitVec.getLsbD (32 + i) := by
  obtain ⟨-, hmask, -, hmask'⟩ := getLsbD_masks (i := i) (by omega)
  obtain ⟨h8, -, h32⟩ := toNat_shifts
  simp only [linux, UInt64.toBitVec_toUInt32, UInt64.toBitVec_or, UInt64.toBitVec_and,
    UInt64.toBitVec_shiftRight, BitVec.ushiftRight_eq', h8, h32, BitVec.getLsbD_setWidth,
    BitVec.getLsbD_or, BitVec.getLsbD_and, BitVec.getLsbD_ushiftRight, hmask, hmask']
  split <;> simp_all

/-- The minor number takes the bits below 8 and from 20 to 43. -/
theorem getLsbD_minor (dev : UInt64) {i : ℕ} (hi : i < 32) :
    (linux.minor dev).toBitVec.getLsbD i =
      if i < 8 then dev.toBitVec.getLsbD i else dev.toBitVec.getLsbD (12 + i) := by
  obtain ⟨hmask, -, hmask', -⟩ := getLsbD_masks (i := i) (by omega)
  obtain ⟨-, h12, -⟩ := toNat_shifts
  simp only [linux, UInt64.toBitVec_toUInt32, UInt64.toBitVec_or, UInt64.toBitVec_and,
    UInt64.toBitVec_shiftRight, BitVec.ushiftRight_eq', h12, BitVec.getLsbD_setWidth,
    BitVec.getLsbD_or, BitVec.getLsbD_and, BitVec.getLsbD_ushiftRight, hmask, hmask']
  split <;> simp_all

/-- Where the bits of the two numbers go. -/
theorem getLsbD_makedev (major minor : UInt32) {i : ℕ} (hi : i < 64) :
    (linux.makedev major minor).toBitVec.getLsbD i =
      if i < 8 then minor.toBitVec.getLsbD i
      else if i < 20 then major.toBitVec.getLsbD (i - 8)
      else if i < 44 then minor.toBitVec.getLsbD (i - 12)
      else major.toBitVec.getLsbD (i - 32) := by
  have hmasks := fun k => getLsbD_masks (i := i - k) (by omega)
  have hmask := (hmasks 0).1
  have h12 := (hmasks 12).2.2.1
  have h8 := (hmasks 8).2.1
  have h32 := (hmasks 32).2.2.2
  obtain ⟨hshift8, hshift12, hshift32⟩ := toNat_shifts
  rw [Nat.sub_zero] at hmask
  simp only [linux, UInt64.toBitVec_or, UInt64.toBitVec_and, UInt64.toBitVec_shiftLeft,
    UInt32.toBitVec_toUInt64, BitVec.shiftLeft_eq', hshift8, hshift12, hshift32,
    BitVec.getLsbD_or, BitVec.getLsbD_and, BitVec.getLsbD_shiftLeft, BitVec.getLsbD_setWidth,
    hmask, h12, h8, h32]
  grind

theorem makedev_major_minor (dev : UInt64) :
    linux.makedev (linux.major dev) (linux.minor dev) = dev := by
  refine UInt64.toBitVec_inj.mp (BitVec.eq_of_getLsbD_eq fun i hi => ?_)
  rw [getLsbD_makedev _ _ hi]
  by_cases h8 : i < 8
  · rw [if_pos h8, getLsbD_minor dev (by omega), if_pos h8]
  · by_cases h20 : i < 20
    · rw [if_neg h8, if_pos h20, getLsbD_major dev (by omega), if_pos (by omega)]
      congr 1
      omega
    · by_cases h44 : i < 44
      · rw [if_neg h8, if_neg h20, if_pos h44, getLsbD_minor dev (by omega), if_neg (by omega)]
        congr 1
        omega
      · rw [if_neg h8, if_neg h20, if_neg h44, getLsbD_major dev (by omega), if_neg (by omega)]
        congr 1
        omega

end DeviceNumbers

/-! ## One read for both overlays -/

/-- What a process finds for a file: its entry, or the ids that it reports instead. -/
inductive Finding where
  | entry (inode : FakeInode)
  | owner (uid gid : UInt32)

namespace Finding

def stat (st : Stat) : Finding → Stat
  | entry inode => patchInodeFields st inode
  | owner uid gid => { st with uid := uid, gid := gid }

def statx (devices : DeviceNumbers) (stx : Statx) : Finding → Statx
  | entry inode => patchStatxFields devices stx inode
  | owner uid gid => stx.withOwner uid gid

/-- The part that the two overlays have in common. -/
def read (w : Wincode) (key : InodeKey) : Hook Finding := do
  ensureLibraryInit w
  let p ← get
  if !p.libraryInitDone then pure (owner p.bootUid p.bootGid)
  else do
    let found ← Ownership.getInode w key
    match found with
    | some inode => pure (entry inode)
    | none => do
      let state ← globalStateRead
      pure (owner state.currentUid state.currentGid)

theorem modifyStatBuf_eq (w : Wincode) (st : Stat) :
    modifyStatBuf w st = stat st <$> read w (keyFromStat st) := by
  simp only [modifyStatBuf, read, map_bind]
  congr 1
  funext _
  congr 1
  funext p
  split
  · simp [stat]
  · simp only [map_bind]
    congr 1
    funext found
    cases found <;> simp [stat, applyDefaultOwnership]

theorem modifyStatxBuf_eq (w : Wincode) (devices : DeviceNumbers) (stx : Statx) :
    modifyStatxBuf w devices stx = statx devices stx <$> read w (keyFromStatx devices stx) := by
  simp only [modifyStatxBuf, read, map_bind]
  congr 1
  funext _
  congr 1
  funext p
  split
  · simp [statx]
  · simp only [map_bind]
    congr 1
    funext found
    cases found <;> simp [statx]

end Finding

/-! ## Reading twice -/

section Exec

variable {n : ℕ} [NeZero n] (w : Wincode) (codec : XattrCodec)

/-- The library is initialized, or too early for that. -/
def Process.Settled (p : Process) : Prop :=
  p.libraryInitDone = true ∧ p.sessionInit = true ∨
    p.libraryInitDone = false ∧ p.ctorDone = false

theorem exec_ensureLibraryInit_of_settled {p : Process} (h : p.Settled) (s : Session n) :
    exec (Session.handle w codec) (ensureLibraryInit w) p s = (((), p), s) := by
  rcases h with ⟨hdone, hinit⟩ | ⟨hdone, hctor⟩
  · simp [ensureLibraryInit, ensureSessionBackingInit, hdone, hinit]
  · simp [ensureLibraryInit, hdone, hctor]

theorem dispatchMessage_getOwnership (payload : List UInt8) (d : DaemonState) :
    ∃ messageType reply, ∀ requestId, dispatchMessage w ⟨.getOwnership, payload, requestId⟩ d =
      (⟨messageType, reply, requestId⟩, d) := by
  cases hkey : w.inodeKey.fromPayload payload with
  | none => exact ⟨_, _, fun requestId => by simp only [dispatchMessage, hkey]; rfl⟩
  | some key => exact ⟨_, _, fun requestId => by simp only [dispatchMessage, hkey]; rfl⟩

def Process.withRequestId (p : Process) (requestId : UInt64) : Process :=
  { p with requestId := requestId }

@[simp] theorem Process.globalState_withRequestId (p : Process) (requestId : UInt64) :
    (p.withRequestId requestId).globalState = p.globalState := rfl

theorem exec_daemonRequest_of_not_live {p : Process}
    (h : ¬ (p.daemonModeActive = true ∧ p.daemonChannel = true)) (s : Session n)
    (messageType : MessageType) (payload : List UInt8) :
    exec (Session.handle w codec) (daemonRequest messageType payload) p s = ((none, p), s) := by
  have hdead : ¬ (p.daemonModeActive && p.daemonChannel) = true := by simpa using h
  rw [daemonRequest, exec_bind, exec_get]
  simp only [if_neg hdead, exec_pure]

/-- What the daemon answers to a lookup does not depend on the number of the request. -/
theorem exists_exec_daemonGetInode (key : InodeKey) (p : Process) (s : Session n) :
    ∃ found, ∀ requestId, ∃ requestId',
      exec (Session.handle w codec) (daemonGetInode w key) (p.withRequestId requestId) s =
        ((found, p.withRequestId requestId'), s) := by
  by_cases hlive : p.daemonModeActive = true ∧ p.daemonChannel = true
  · obtain ⟨messageType, reply, hanswer⟩ :=
      dispatchMessage_getOwnership w (w.inodeKey.toPayload ⟨key.1, key.2⟩) s.daemon
    refine ⟨if messageType ≠ .response then none
      else (w.inodeStateResult.fromPayload reply).bind fun r =>
        if r.found then some ⟨r.uid, r.gid, r.mode, r.rdev, r.xattrs⟩ else none,
      fun requestId => ⟨((p.withRequestId requestId).sent 1).requestId, ?_⟩⟩
    have hrequest := exec_daemonRequest (w := w) codec
      (p := p.withRequestId requestId) hlive.1 hlive.2 s .getOwnership
      (w.inodeKey.toPayload ⟨key.1, key.2⟩)
    simp only [daemonGetInode, exec_bind, exec_pure, hrequest, hanswer]
    rfl
  · refine ⟨none, fun requestId => ⟨requestId, ?_⟩⟩
    have hrequest := exec_daemonRequest_of_not_live w codec
      (p := p.withRequestId requestId) hlive s .getOwnership
      (w.inodeKey.toPayload ⟨key.1, key.2⟩)
    simp only [daemonGetInode, exec_bind, exec_pure, hrequest, Option.bind_none]

/-- A read of an entry does not depend on the number of its request, and changes nothing else. -/
theorem exists_exec_getInode (key : InodeKey) (p : Process) (s : Session n) :
    ∃ found, ∀ requestId, ∃ requestId',
      exec (Session.handle w codec) (Ownership.getInode w key) (p.withRequestId requestId) s =
        ((found, p.withRequestId requestId'), s) := by
  cases hshm : p.shmActive with
  | true =>
      refine ⟨s.shm.getInode codec key, fun requestId => ⟨requestId, ?_⟩⟩
      have hshm' : (p.withRequestId requestId).shmActive = true := hshm
      simp [Ownership.getInode, hshm', Session.handle]
  | false =>
      cases hactive : p.daemonModeActive with
      | true =>
          obtain ⟨answer, hanswer⟩ := exists_exec_daemonGetInode w codec key p s
          refine ⟨answer <|> p.globalState.getInode key, fun requestId => ?_⟩
          obtain ⟨requestId', hexec⟩ := hanswer requestId
          have hshm' : (p.withRequestId requestId).shmActive = false := hshm
          have hactive' : (p.withRequestId requestId).daemonModeActive = true := hactive
          refine ⟨requestId', ?_⟩
          cases answer <;> simp [Ownership.getInode, hshm', hactive', hexec, globalStateRead]
      | false =>
          refine ⟨p.globalState.getInode key, fun requestId => ⟨requestId, ?_⟩⟩
          have hshm' : (p.withRequestId requestId).shmActive = false := hshm
          have hactive' : (p.withRequestId requestId).daemonModeActive = false := hactive
          simp [Ownership.getInode, hshm', hactive', globalStateRead]

theorem libraryInitDone_daemonRequest (p : Process) (s : Session n) (messageType : MessageType)
    (payload : List UInt8) :
    (exec (Session.handle w codec) (daemonRequest messageType payload) p s).1.2.libraryInitDone =
      p.libraryInitDone := by
  by_cases hlive : p.daemonModeActive = true ∧ p.daemonChannel = true
  · rw [exec_daemonRequest codec hlive.1 hlive.2]
    rfl
  · rw [exec_daemonRequest_of_not_live w codec hlive]

theorem libraryInitDone_initDaemonConnection (p : Process) (s : Session n) :
    (exec (Session.handle w codec) initDaemonConnection p s).1.2.libraryInitDone =
      p.libraryInitDone := by
  cases henabled : p.daemonModeEnabled <;> cases hchannel : p.daemonChannel <;>
    cases hconnected : p.daemonConnected <;>
    simp [initDaemonConnection, connectChannel, Session.handle, henabled, hchannel, hconnected]

theorem libraryInitDone_ensureSessionBackingInit (p : Process) (s : Session n) :
    (exec (Session.handle w codec) (ensureSessionBackingInit w) p s).1.2.libraryInitDone =
      p.libraryInitDone := by
  have hconnect := fun p s => libraryInitDone_initDaemonConnection w codec (n := n) p s
  have hrequest := fun p s => libraryInitDone_daemonRequest w codec (n := n) p s
  cases hinit : p.sessionInit <;> cases hactive : p.shmActive <;> cases hfd : p.shmFd <;>
    cases henabled : p.daemonModeEnabled <;>
    simp [ensureSessionBackingInit, initShmFromEnv, daemonInit, daemonRequestOk, hinit, hactive,
      hfd, henabled, hconnect, hrequest]

theorem sessionInit_ensureSessionBackingInit (p : Process) (s : Session n) :
    (exec (Session.handle w codec) (ensureSessionBackingInit w) p s).1.2.sessionInit = true := by
  cases hinit : p.sessionInit <;> cases hactive : p.shmActive <;> cases hfd : p.shmFd <;>
    cases henabled : p.daemonModeEnabled <;>
    simp [ensureSessionBackingInit, initShmFromEnv, hinit, hactive, hfd, henabled]

/-- After a first look the library is initialized, or it is too early for that. -/
theorem settled_ensureLibraryInit (p : Process) (s : Session n) :
    (exec (Session.handle w codec) (ensureLibraryInit w) p s).1.2.Settled := by
  cases hdone : p.libraryInitDone with
  | true =>
      refine Or.inl ?_
      simp [ensureLibraryInit, hdone, libraryInitDone_ensureSessionBackingInit,
        sessionInit_ensureSessionBackingInit]
  | false =>
      cases hctor : p.ctorDone with
      | false =>
          refine Or.inr ?_
          simp [ensureLibraryInit, hdone, hctor]
      | true =>
          refine Or.inl ?_
          rw [exec_ensureLibraryInit_of_constructed codec hctor hdone]
          exact ⟨libraryInitDone_ensureSessionBackingInit w codec p.finished s,
            sessionInit_ensureSessionBackingInit w codec p.finished s⟩

/-- Once the library is settled, a read changes at most the next request number. -/
theorem Finding.exec_read_of_settled (key : InodeKey) {p : Process} (h : p.Settled)
    (s : Session n) :
    ∃ finding, ∀ requestId, ∃ requestId',
      exec (Session.handle w codec) (read w key) (p.withRequestId requestId) s =
        ((finding, p.withRequestId requestId'), s) := by
  have hinit := fun requestId =>
    exec_ensureLibraryInit_of_settled w codec (p := p.withRequestId requestId) h s
  cases hdone : p.libraryInitDone with
  | false =>
      refine ⟨.owner p.bootUid p.bootGid, fun requestId => ⟨requestId, ?_⟩⟩
      have hdone' : (p.withRequestId requestId).libraryInitDone = false := hdone
      simp [read, hinit, hdone']
      exact ⟨rfl, rfl⟩
  | true =>
      obtain ⟨found, hfound⟩ := exists_exec_getInode w codec key p s
      refine ⟨found.elim (.owner p.globalState.currentUid p.globalState.currentGid) .entry,
        fun requestId => ?_⟩
      obtain ⟨requestId', hget⟩ := hfound requestId
      have hdone' : (p.withRequestId requestId).libraryInitDone = true := hdone
      refine ⟨requestId', ?_⟩
      cases found <;> simp [read, hinit, hdone', hget, globalStateRead]

/-- A read begins with the initialization of the library. -/
theorem Finding.exec_read_eq (key : InodeKey) (p : Process) (s : Session n) :
    exec (Session.handle w codec) (read w key) p s =
      exec (Session.handle w codec) (read w key)
        (exec (Session.handle w codec) (ensureLibraryInit w) p s).1.2
        (exec (Session.handle w codec) (ensureLibraryInit w) p s).2 := by
  have hagain := exec_ensureLibraryInit_of_settled w codec (settled_ensureLibraryInit w codec p s)
    (exec (Session.handle w codec) (ensureLibraryInit w) p s).2
  simp only [read, exec_bind, hagain]

/-- A second read of the same file finds the same. -/
theorem Finding.exec_read_again (key : InodeKey) (p : Process) (s : Session n) :
    ∃ finding p' s' p'', exec (Session.handle w codec) (read w key) p s = ((finding, p'), s') ∧
      exec (Session.handle w codec) (read w key) p' s' = ((finding, p''), s') := by
  rw [exec_read_eq]
  obtain ⟨finding, hread⟩ :=
    exec_read_of_settled w codec key (settled_ensureLibraryInit w codec p s)
      (exec (Session.handle w codec) (ensureLibraryInit w) p s).2
  generalize (exec (Session.handle w codec) (ensureLibraryInit w) p s).1.2 = p₁ at *
  obtain ⟨first, hfirst⟩ := hread p₁.requestId
  obtain ⟨second, hsecond⟩ := hread first
  exact ⟨finding, _, _, _, hfirst, hsecond⟩

end Exec

/-! ## Agreement -/

/-- The two buffers describe the same file alike. -/
structure Stat.Matches (st : Stat) (stx : Statx) : Prop where
  dev : st.dev = DeviceNumbers.linux.makedev stx.devMajor stx.devMinor
  ino : st.ino = stx.ino
  uid : st.uid = stx.uid
  gid : st.gid = stx.gid
  mode : st.mode &&& 0o177777 = stx.mode.toUInt32
  rdev : st.rdev = DeviceNumbers.linux.makedev stx.rdevMajor stx.rdevMinor

/-- The type and the permissions are the low 16 bits of a mode. -/
theorem and_low_bits (mode : UInt32) : mode &&& 0o177777 = mode.toUInt16.toUInt32 := by
  refine UInt32.toNat_inj.mp ?_
  rw [UInt32.toNat_and, UInt16.toNat_toUInt32, UInt32.toNat_toUInt16]
  exact Nat.and_two_pow_sub_one_eq_mod mode.toNat 16

namespace Stat.Matches

variable {st : Stat} {stx : Statx} (h : st.Matches stx)
include h

theorem keyFromStatx : keyFromStatx .linux stx = keyFromStat st := by
  rw [Pseudoroot.keyFromStatx, keyFromStat, h.dev, h.ino]

/-- The same finding patches both buffers alike. -/
theorem patch (finding : Finding) : (finding.stat st).Matches (finding.statx .linux stx) := by
  obtain ⟨hdev, hino, huid, hgid, hmode, hrdev⟩ := h
  cases finding with
  | owner uid gid => exact ⟨hdev, hino, rfl, rfl, hmode, hrdev⟩
  | entry inode =>
      obtain ⟨uid, gid, mode, rdev, xattrs⟩ := inode
      have hpacked : ∀ dev, dev = DeviceNumbers.linux.makedev (DeviceNumbers.linux.major dev)
          (DeviceNumbers.linux.minor dev) := fun dev =>
        (DeviceNumbers.makedev_major_minor dev).symm
      cases mode with
      | none =>
          cases rdev with
          | none => exact ⟨hdev, hino, rfl, rfl, hmode, hrdev⟩
          | some rdev => exact ⟨hdev, hino, rfl, rfl, hmode, hpacked rdev⟩
      | some mode =>
          cases rdev with
          | none => exact ⟨hdev, hino, rfl, rfl, and_low_bits mode, hrdev⟩
          | some rdev => exact ⟨hdev, hino, rfl, rfl, and_low_bits mode, hpacked rdev⟩

/-- In every state of a process and its session, the two overlays agree: on the same state, and
one after the other in either order. -/
theorem overlays {n : ℕ} [NeZero n] (w : Wincode) (codec : XattrCodec) (x : Host n) :
    let stat := x.run w codec (modifyStatBuf w st)
    let statx := x.run w codec (modifyStatxBuf w .linux stx)
    stat.1.Matches statx.1 ∧
      stat.1.Matches (stat.2.run w codec (modifyStatxBuf w .linux stx)).1 ∧
      (statx.2.run w codec (modifyStatBuf w st)).1.Matches statx.1 := by
  obtain ⟨p, s⟩ := x
  obtain ⟨finding, p', s', p'', hread, hagain⟩ :=
    Finding.exec_read_again w codec (keyFromStat st) p s
  simp only [Host.run, Finding.modifyStatBuf_eq, Finding.modifyStatxBuf_eq, h.keyFromStatx,
    exec_map, hread, hagain]
  exact ⟨h.patch finding, h.patch finding, h.patch finding⟩

end Stat.Matches

/-- A device node with an entry that gives it another mode and another number. -/
theorem Stat.Matches.overlays_device :
    let st : Stat := ⟨0x801, 7, 0o60644, 1, 0, 0, 0x801⟩
    let stx : Statx := ⟨0x7ff, 0, 0, 0o60644, 7, 8, 1, 8, 1⟩
    let entry : FakeInode := { FakeInode.new 5 6 with mode := some 0o20600, rdev := some 0x1203 }
    let p := (Process.withoutSession 0 0).withGlobalState fun g => g.setInode (0x801, 7) entry
    let x : Host 1 := (p, Session.start 1 0 0)
    let w := Wincode.bincode
    let codec := XattrCodec.wincode
    let stat := x.run w codec (modifyStatBuf w st)
    let statx := x.run w codec (modifyStatxBuf w .linux stx)
    stat.1.Matches statx.1 ∧
      stat.1.Matches (stat.2.run w codec (modifyStatxBuf w .linux stx)).1 ∧
      (statx.2.run w codec (modifyStatBuf w st)).1.Matches statx.1 := by
  intro st stx entry p x w codec
  have hmatches : st.Matches stx := by
    constructor <;> decide
  exact hmatches.overlays w codec x

end Pseudoroot
