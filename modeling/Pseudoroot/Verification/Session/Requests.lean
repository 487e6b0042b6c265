import Pseudoroot.Model.Process

/-! # What the hooks of a connected process do -/

namespace Pseudoroot

open Calls Calls.Program

/-- An initialized process of a daemon session with a live connection. -/
structure Process.Connected (p : Process) : Prop where
  libraryInitDone : p.libraryInitDone = true
  sessionInit : p.sessionInit = true
  shmActive : p.shmActive = false
  daemonSocket : p.daemonSocket = true
  daemonConnected : p.daemonConnected = true
  daemonChannel : p.daemonChannel = true

namespace Process

/-- The process after it has sent `k` requests. -/
def sent (p : Process) (k : ℕ) : Process :=
  { p with requestId := p.requestId + UInt64.ofNat k }

@[simp] theorem globalState_sent (p : Process) (k : ℕ) : (p.sent k).globalState = p.globalState :=
  rfl

@[simp] theorem globalState_withGlobalState (p : Process) (f : FakeRootState → FakeRootState) :
    (p.withGlobalState f).globalState = f p.globalState := rfl

@[simp] theorem withGlobalState_sent (p : Process) (k : ℕ) (f : FakeRootState → FakeRootState) :
    (p.sent k).withGlobalState f = (p.withGlobalState f).sent k := rfl

@[simp] theorem sent_sent (p : Process) (j k : ℕ) : (p.sent j).sent k = p.sent (j + k) := by
  simp [sent, UInt64.add_assoc]

theorem Connected.sent {p : Process} (h : p.Connected) (k : ℕ) : (p.sent k).Connected :=
  ⟨h.libraryInitDone, h.sessionInit, h.shmActive, h.daemonSocket, h.daemonConnected,
    h.daemonChannel⟩

theorem Connected.withGlobalState {p : Process} (h : p.Connected)
    (f : FakeRootState → FakeRootState) : (p.withGlobalState f).Connected :=
  ⟨h.libraryInitDone, h.sessionInit, h.shmActive, h.daemonSocket, h.daemonConnected,
    h.daemonChannel⟩

theorem Connected.enabled {p : Process} (h : p.Connected) : p.daemonModeEnabled = true :=
  h.daemonSocket

theorem Connected.active {p : Process} (h : p.Connected) : p.daemonModeActive = true := by
  simp [daemonModeActive, h.enabled, h.daemonConnected]

end Process

/-- The session with its daemon's store changed. -/
def Session.onDaemon {n : ℕ} (s : Session n) (f : FakeRootState → FakeRootState) : Session n :=
  { s with daemon := { s.daemon with state := f s.daemon.state } }

@[simp] theorem Session.state_onDaemon {n : ℕ} (s : Session n) (f : FakeRootState → FakeRootState) :
    (s.onDaemon f).daemon.state = f s.daemon.state := rfl

/-! ## Calls -/

section Calls

variable {σ : Type} (h : Handler sessionSignature σ) (p : Process) (s : σ)

@[simp] theorem exec_request (message : ProtocolMessage) :
    exec h (request message) p s =
      (((h (.request message) s).1, p), (h (.request message) s).2) := rfl

@[simp] theorem exec_connect :
    exec h connect p s = (((h .connect s).1, p), (h .connect s).2) := rfl

@[simp] theorem exec_shmGetCurrentUidGid :
    exec h shmGetCurrentUidGid p s = (((h .shmCurrent s).1, p), (h .shmCurrent s).2) := rfl

@[simp] theorem exec_shmSetCurrentUidGid (uid gid : UInt32) :
    exec h (shmSetCurrentUidGid uid gid) p s =
      (((h (.shmSetCurrent uid gid) s).1, p), (h (.shmSetCurrent uid gid) s).2) := rfl

@[simp] theorem exec_shmGetInode (key : InodeKey) :
    exec h (shmGetInode key) p s =
      (((h (.shmGetInode key) s).1, p), (h (.shmGetInode key) s).2) := rfl

@[simp] theorem exec_shmUpsertChown (key : InodeKey) (uid gid du dg : UInt32) :
    exec h (shmUpsertChown key uid gid du dg) p s =
      (((h (.shmUpsertChown key uid gid du dg) s).1, p),
        (h (.shmUpsertChown key uid gid du dg) s).2) := rfl

@[simp] theorem exec_shmUpsertInode (key : InodeKey) (inode : FakeInode) :
    exec h (shmUpsertInode key inode) p s =
      (((h (.shmUpsertInode key inode) s).1, p), (h (.shmUpsertInode key inode) s).2) := rfl

@[simp] theorem exec_shmRemoveInode (key : InodeKey) :
    exec h (shmRemoveInode key) p s =
      (((h (.shmRemoveInode key) s).1, p), (h (.shmRemoveInode key) s).2) := rfl

@[simp] theorem exec_globalStateWrite (f : FakeRootState → FakeRootState) :
    exec h (globalStateWrite f) p s = (((), p.withGlobalState f), s) := rfl

@[simp] theorem exec_globalStateRead :
    exec h globalStateRead p s = ((p.globalState, p), s) := rfl

@[simp] theorem exec_nextRequestId :
    exec h nextRequestId p s = ((p.requestId, p.sent 1), s) := rfl

end Calls

/-! ## Requests -/

/-- A request that the server answers with success and the new store `f d`. -/
def Updates (w : Wincode) (messageType : MessageType) (payload : List UInt8)
    (f : FakeRootState → FakeRootState) : Prop :=
  ∀ requestId daemon, dispatchMessage w ⟨messageType, payload, requestId⟩ daemon =
    (.response requestId [], { daemon with state := f daemon.state })

section Updates

variable {w : Wincode} (hw : w.Lawful)

include hw

theorem updates_setCurrentUidGid (uid gid : UInt32) :
    Updates w .setCurrentUidGid (w.uidGid.toPayload ⟨uid, gid⟩) fun d => d.setCurrent uid gid := by
  intro requestId daemon
  simp only [dispatchMessage, hw.uidGid]

theorem updates_init (uid gid : UInt32) :
    Updates w .init (w.uidGid.toPayload ⟨uid, gid⟩) fun d => d.setCurrent uid gid := by
  intro requestId daemon
  simp only [dispatchMessage, hw.uidGid]

theorem updates_setInode (key : InodeKey) (inode : FakeInode) :
    Updates w .registerOwnership (w.inodeState.toPayload
        ⟨key.1, key.2, inode.uid, inode.gid, inode.mode, inode.rdev, inode.xattrs⟩)
      fun d => d.setInode key inode := by
  intro requestId daemon
  simp only [dispatchMessage, hw.inodeState]

theorem updates_upsertChown (key : InodeKey) (uid gid du dg : UInt32) :
    Updates w .upsertChown (w.chown.toPayload ⟨key.1, key.2, uid, gid, du, dg⟩)
      fun d => d.upsertChown key uid gid du dg := by
  intro requestId daemon
  simp only [dispatchMessage, hw.chown]

theorem updates_removeInode (key : InodeKey) :
    Updates w .removeOwnership (w.inodeKey.toPayload ⟨key.1, key.2⟩)
      fun d => (d.removeInode key).2 := by
  intro requestId daemon
  simp only [dispatchMessage, hw.inodeKey]

end Updates

section Requests

variable {n : ℕ} [NeZero n] {w : Wincode} (hw : w.Lawful) (codec : XattrCodec)
  {p : Process} (hp : p.Connected) (s : Session n)

theorem exec_daemonRequest {p : Process} (hactive : p.daemonModeActive = true)
    (hchannel : p.daemonChannel = true) (s : Session n) (messageType : MessageType)
    (payload : List UInt8) :
    exec (Session.handle w codec) (daemonRequest messageType payload) p s =
      ((some (dispatchMessage w ⟨messageType, payload, p.requestId⟩ s.daemon).1, p.sent 1),
        { s with
          daemon := (dispatchMessage w ⟨messageType, payload, p.requestId⟩ s.daemon).2 }) := by
  simp [daemonRequest, hactive, hchannel, Session.handle]

/-- An update changes the store of the daemon. -/
theorem exec_daemonRequestOk {p : Process} (hactive : p.daemonModeActive = true)
    (hchannel : p.daemonChannel = true) (s : Session n) {messageType : MessageType}
    {payload : List UInt8} {f : FakeRootState → FakeRootState}
    (h : Updates w messageType payload f) :
    exec (Session.handle w codec) (daemonRequestOk messageType payload) p s =
      ((true, p.sent 1), s.onDaemon f) := by
  simp [daemonRequestOk, exec_daemonRequest codec hactive hchannel, h p.requestId s.daemon,
    ProtocolMessage.response, Session.onDaemon]

include hw in
theorem exec_daemonInit {p : Process} (hactive : p.daemonModeActive = true)
    (hchannel : p.daemonChannel = true) (s : Session n) (uid gid : UInt32) :
    exec (Session.handle w codec) (daemonInit w uid gid) p s =
      ((true, p.sent 1), s.onDaemon fun d => d.setCurrent uid gid) :=
  exec_daemonRequestOk codec hactive hchannel s (updates_init hw uid gid)

include hw hp

theorem exec_daemonGetInode (key : InodeKey) :
    exec (Session.handle w codec) (daemonGetInode w key) p s =
      ((s.daemon.state.getInode key, p.sent 1), s) := by
  simp only [daemonGetInode, exec_bind, exec_daemonRequest codec hp.active hp.daemonChannel,
    dispatchMessage, hw.inodeKey]
  cases hget : s.daemon.state.getInode key <;>
    simp [ProtocolMessage.response, hw.inodeStateResult]

theorem exec_daemonGetCurrentUidGid :
    exec (Session.handle w codec) (daemonGetCurrentUidGid w) p s =
      ((some (s.daemon.state.currentUid, s.daemon.state.currentGid), p.sent 1), s) := by
  simp [daemonGetCurrentUidGid, exec_daemonRequest codec hp.active hp.daemonChannel,
    dispatchMessage, ProtocolMessage.response, hw.uidGid]

theorem exec_daemonSetCurrentUidGid (uid gid : UInt32) :
    exec (Session.handle w codec) (daemonSetCurrentUidGid w uid gid) p s =
      ((true, p.sent 1), s.onDaemon fun d => d.setCurrent uid gid) :=
  exec_daemonRequestOk codec hp.active hp.daemonChannel s (updates_setCurrentUidGid hw uid gid)

theorem exec_daemonSetInode (key : InodeKey) (inode : FakeInode) :
    exec (Session.handle w codec) (daemonSetInode w key inode) p s =
      ((true, p.sent 1), s.onDaemon fun d => d.setInode key inode) :=
  exec_daemonRequestOk codec hp.active hp.daemonChannel s (updates_setInode hw key inode)

theorem exec_daemonUpsertChown (key : InodeKey) (uid gid du dg : UInt32) :
    exec (Session.handle w codec) (daemonUpsertChown w key uid gid du dg) p s =
      ((true, p.sent 1), s.onDaemon fun d => d.upsertChown key uid gid du dg) :=
  exec_daemonRequestOk codec hp.active hp.daemonChannel s
    (updates_upsertChown hw key uid gid du dg)

theorem exec_daemonRemoveInode (key : InodeKey) :
    exec (Session.handle w codec) (daemonRemoveInode w key) p s =
      ((true, p.sent 1), s.onDaemon fun d => (d.removeInode key).2) :=
  exec_daemonRequestOk codec hp.active hp.daemonChannel s (updates_removeInode hw key)

theorem exec_currentFakeUid :
    exec (Session.handle w codec) (currentFakeUid w) p s =
      ((s.daemon.state.currentUid, p.sent 1), s) := by
  simp [currentFakeUid, sessionIds, ensureSessionBackingInit, hp.libraryInitDone, hp.sessionInit,
    hp.shmActive, hp.active, exec_daemonGetCurrentUidGid hw codec hp]

theorem exec_currentFakeGid :
    exec (Session.handle w codec) (currentFakeGid w) p s =
      ((s.daemon.state.currentGid, p.sent 1), s) := by
  simp [currentFakeGid, sessionIds, ensureSessionBackingInit, hp.libraryInitDone, hp.sessionInit,
    hp.shmActive, hp.active, exec_daemonGetCurrentUidGid hw codec hp]

/-! ## Metadata -/

/-- A lookup asks the daemon, and then the table of the process. -/
theorem exec_getInode (key : InodeKey) :
    exec (Session.handle w codec) (Ownership.getInode w key) p s =
      ((s.daemon.state.getInode key <|> p.globalState.getInode key, p.sent 1), s) := by
  have hget := exec_daemonGetInode hw codec hp s key
  cases hfound : s.daemon.state.getInode key <;>
    simp [Ownership.getInode, hp.shmActive, hp.active, hget, hfound]

/-- A full write goes to the table of the process and to the daemon. -/
theorem exec_setInode (key : InodeKey) (inode : FakeInode) :
    exec (Session.handle w codec) (Ownership.setInode w key inode) p s =
      (((), (p.withGlobalState fun g => g.setInode key inode).sent 1),
        s.onDaemon fun d => d.setInode key inode) := by
  simp [Ownership.setInode, hp.shmActive, hp.enabled,
    exec_daemonSetInode hw codec (hp.withGlobalState _)]

/-- What an update finds: the entry of the daemon, that of the process, or a new one. -/
def updateBase (d g : FakeRootState) (key : InodeKey) : FakeInode :=
  (d.getInode key <|> g.getInode key).getD (FakeInode.new d.currentUid d.currentGid)

theorem exec_updateInode (key : InodeKey) (f : FakeInode → FakeInode) :
    ∃ k, exec (Session.handle w codec) (Ownership.updateInode w key f) p s =
      (((), (p.withGlobalState fun g =>
          g.setInode key (f (updateBase s.daemon.state p.globalState key))).sent k),
        s.onDaemon fun d => d.setInode key (f (updateBase s.daemon.state p.globalState key))) := by
  have hget := exec_getInode hw codec hp s key
  cases hold : (s.daemon.state.getInode key <|> p.globalState.getInode key) with
  | some inode =>
      refine ⟨2, ?_⟩
      simp [Ownership.updateInode, hget, hold, exec_setInode hw codec (hp.sent 1), updateBase]
  | none =>
      refine ⟨4, ?_⟩
      simp [Ownership.updateInode, hget, hold, exec_currentFakeUid hw codec (hp.sent 1),
        exec_currentFakeGid hw codec (hp.sent 2), exec_setInode hw codec (hp.sent 3), updateBase]

theorem exec_removeInode (key : InodeKey) :
    exec (Session.handle w codec) (Ownership.removeInode w key) p s =
      (((), (p.withGlobalState fun g => (g.removeInode key).2).sent 1),
        s.onDaemon fun d => (d.removeInode key).2) := by
  simp [Ownership.removeInode, hp.shmActive, hp.enabled,
    exec_daemonRemoveInode hw codec (hp.withGlobalState _)]

/-- A chown goes to the daemon only. -/
theorem exec_recordChownKey (key : InodeKey) (uid gid : UInt32) :
    exec (Session.handle w codec) (Ownership.recordChownKey w key uid gid) p s =
      (((), p.sent 3),
        s.onDaemon fun d => d.upsertChown key uid gid d.currentUid d.currentGid) := by
  simp [Ownership.recordChownKey, exec_currentFakeUid hw codec hp,
    exec_currentFakeGid hw codec (hp.sent 1), (hp.sent 2).shmActive, (hp.sent 2).active,
    exec_daemonUpsertChown hw codec (hp.sent 2), Session.onDaemon]

end Requests

end Pseudoroot
