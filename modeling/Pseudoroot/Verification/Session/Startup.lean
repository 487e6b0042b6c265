import Pseudoroot.Model.Stat
import Pseudoroot.Verification.Session.Requests

/-! # Stages of a process in a session

A process is fresh from its constructor to its first hook that initializes the library,
and ready after that. -/

namespace Pseudoroot

open Calls Calls.Program

/-- What backs the session of a process. -/
inductive Backing where
  | shm
  | daemon
  deriving DecidableEq

/-- The current ids of the session. -/
def Session.ids {n : ℕ} (s : Session n) : Backing → UInt32 × UInt32
  | .shm => (s.shm.currentUid, s.shm.currentGid)
  | .daemon => (s.daemon.state.currentUid, s.daemon.state.currentGid)

namespace Process

/-- The environment of the process names this backing. -/
def InSession (p : Process) : Backing → Prop
  | .shm => p.shmFd = true
  | .daemon => p.shmFd = false ∧ p.daemonSocket = true

structure Fresh (b : Backing) (p : Process) : Prop where
  inSession : p.InSession b
  ctorDone : p.ctorDone = true
  libraryInitDone : p.libraryInitDone = false
  sessionInit : p.sessionInit = false
  shmActive : p.shmActive = false
  daemonChannel : p.daemonChannel = false
  daemonConnected : p.daemonConnected = false

def Ready : Backing → Process → Prop
  | .shm, p => p.libraryInitDone = true ∧ p.sessionInit = true ∧ p.shmActive = true
  | .daemon, p => p.Connected

theorem Ready.libraryInitDone {b : Backing} {p : Process} (h : p.Ready b) :
    p.libraryInitDone = true := by
  cases b with
  | shm => exact h.1
  | daemon => exact Connected.libraryInitDone h

theorem Ready.sessionInit {b : Backing} {p : Process} (h : p.Ready b) : p.sessionInit = true := by
  cases b with
  | shm => exact h.2.1
  | daemon => exact Connected.sessionInit h

/-- Nothing that a hook changes later belongs to being ready. -/
theorem Ready.of_eq {b : Backing} {p q : Process} (h : p.Ready b)
    (hq : q = { p with
      bootUid := q.bootUid
      bootGid := q.bootGid
      requestId := q.requestId
      globalState := q.globalState }) : q.Ready b := by
  rw [hq]
  cases b with
  | shm => exact h
  | daemon => exact ⟨h.1, h.2, h.3, h.4, h.5, h.6⟩

end Process

/-- The process after `finish_library_init`. -/
def Process.finished (p : Process) : Process :=
  { p with
    globalState := p.globalState.setCurrent p.bootUid p.bootGid
    libraryInitDone := true }

/-- The process after it has attached to a shared map. -/
def Process.attachedShm (p : Process) : Process :=
  { p with shmActive := true, sessionInit := true }

/-- The process after it has connected to the daemon. -/
def Process.linked (p : Process) : Process :=
  { p with daemonChannel := true, daemonConnected := true }

/-- The process after it has connected to a daemon and sent one request. -/
def Process.attachedDaemon (p : Process) : Process :=
  { p.linked.sent 1 with sessionInit := true }

/-- A process of a session after its constructor, started with the given ids. -/
def Process.constructed (b : Backing) (uid gid : UInt32) : Process :=
  let loaded := match b with
    | .shm => Process.load true false
    | .daemon => Process.load false true
  loaded.storeBootstrapIds uid gid

/-- The ids that the constructor found. -/
abbrev Process.bootIds (p : Process) : UInt32 × UInt32 := (p.bootUid, p.bootGid)

theorem Process.fresh_constructed (b : Backing) (uid gid : UInt32) :
    (Process.constructed b uid gid).Fresh b := by
  cases b with
  | shm => exact ⟨rfl, rfl, rfl, rfl, rfl, rfl, rfl⟩
  | daemon => exact ⟨⟨rfl, rfl⟩, rfl, rfl, rfl, rfl, rfl, rfl⟩

theorem Process.Fresh.connected_attachedDaemon {p : Process} (h : p.Fresh .daemon) :
    p.finished.attachedDaemon.Connected :=
  ⟨rfl, rfl, h.shmActive, h.inSession.2, rfl, rfl⟩

/-- A session at its start. -/
def Session.start (n : ℕ) (uid gid : UInt32) : Session n :=
  ⟨newSharedState uid gid, ShmInodeMap.initHeader n 0 uid gid⟩

section Exec

variable {n : ℕ} [NeZero n] {w : Wincode} (codec : XattrCodec) {b : Backing}

/-! ## Initialization -/

theorem exec_ensureLibraryInit_of_ready {p : Process} (hp : p.Ready b) (s : Session n) :
    exec (Session.handle w codec) (ensureLibraryInit w) p s = (((), p), s) := by
  simp [ensureLibraryInit, ensureSessionBackingInit, hp.libraryInitDone, hp.sessionInit]

theorem exec_ensureLibraryInit_of_constructed {p : Process} (hctor : p.ctorDone = true)
    (hdone : p.libraryInitDone = false) (s : Session n) :
    exec (Session.handle w codec) (ensureLibraryInit w) p s =
      exec (Session.handle w codec) (ensureSessionBackingInit w) p.finished s := by
  simp [ensureLibraryInit, finishLibraryInit, hdone, hctor, Process.finished,
    Process.withGlobalState]

theorem exec_ensureSessionBackingInit_shm {p : Process} (hfd : p.shmFd = true)
    (hinit : p.sessionInit = false) (hactive : p.shmActive = false) (s : Session n) :
    exec (Session.handle w codec) (ensureSessionBackingInit w) p s = (((), p.attachedShm), s) := by
  simp [ensureSessionBackingInit, initShmFromEnv, hfd, hinit, hactive, Process.attachedShm]

theorem exec_initDaemonConnection (w : Wincode) {p : Process}
    (henabled : p.daemonModeEnabled = true)
    (hchannel : p.daemonChannel = false) (s : Session n) :
    exec (Session.handle w codec) initDaemonConnection p s =
      ((true, p.linked), s) := by
  simp [initDaemonConnection, connectChannel, henabled, hchannel, Session.handle, Process.linked]

/-- On a daemon, the first initialization sets the ids of the session to those that
the process was started with. -/
theorem exec_ensureSessionBackingInit_daemon (hw : w.Lawful) {p : Process}
    (hp : p.InSession .daemon) (hinit : p.sessionInit = false) (hactive : p.shmActive = false)
    (hchannel : p.daemonChannel = false) (s : Session n) :
    exec (Session.handle w codec) (ensureSessionBackingInit w) p s =
      (((), p.attachedDaemon), s.onDaemon fun d => d.setCurrent p.bootUid p.bootGid) := by
  obtain ⟨hfd, henabled⟩ : p.shmFd = false ∧ p.daemonModeEnabled = true := hp
  have hconnect := exec_initDaemonConnection codec w henabled hchannel s
  have hlinked : p.linked.daemonModeActive = true := by
    rw [Process.daemonModeActive, Bool.and_eq_true]
    exact ⟨henabled, rfl⟩
  have hsend := exec_daemonInit hw codec hlinked rfl s p.bootUid p.bootGid
  simp [ensureSessionBackingInit, initShmFromEnv, hfd, hinit, hactive, henabled, hconnect, hsend,
    Process.attachedDaemon]

/-- The first initialization of a process that attaches to a shared map. -/
theorem exec_ensureLibraryInit_shm {p : Process} (hp : p.Fresh .shm) (s : Session n) :
    exec (Session.handle w codec) (ensureLibraryInit w) p s =
      (((), p.finished.attachedShm), s) := by
  rw [exec_ensureLibraryInit_of_constructed codec hp.ctorDone hp.libraryInitDone]
  exact exec_ensureSessionBackingInit_shm codec (p := p.finished) hp.inSession hp.sessionInit
    hp.shmActive s

/-- The first initialization of a process that connects to a daemon. -/
theorem exec_ensureLibraryInit_daemon (hw : w.Lawful) {p : Process} (hp : p.Fresh .daemon)
    (s : Session n) :
    exec (Session.handle w codec) (ensureLibraryInit w) p s =
      (((), p.finished.attachedDaemon), s.onDaemon fun d => d.setCurrent p.bootUid p.bootGid) := by
  rw [exec_ensureLibraryInit_of_constructed codec hp.ctorDone hp.libraryInitDone]
  exact exec_ensureSessionBackingInit_daemon codec hw (p := p.finished) hp.inSession
    hp.sessionInit hp.shmActive hp.daemonChannel s

end Exec

end Pseudoroot
