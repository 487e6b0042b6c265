import Pseudoroot.Model.Session

/-! # A process with the interposed library

The statics of the library are the local state of a process. A hook is a program over
this state whose calls reach what the session shares. -/

namespace Pseudoroot

open Calls (Program)

structure Process where
  /-- `PSEUDOROOT_SHM_FD` names an object that can be mapped. -/
  shmFd : Bool
  /-- `PSEUDOROOT_DAEMON_SOCKET` is set. -/
  daemonSocket : Bool
  ctorDone : Bool
  libraryInitDone : Bool
  /-- `SESSION_INIT` has completed. -/
  sessionInit : Bool
  bootUid : UInt32
  bootGid : UInt32
  shmActive : Bool
  /-- `DAEMON_CHANNEL` is initialized. -/
  daemonChannel : Bool
  daemonConnected : Bool
  /-- The next value of `REQUEST_ID`. -/
  requestId : UInt64
  globalState : FakeRootState

/-- A process image before its constructor runs. -/
def Process.load (shmFd daemonSocket : Bool) : Process where
  shmFd := shmFd
  daemonSocket := daemonSocket
  ctorDone := false
  libraryInitDone := false
  sessionInit := false
  bootUid := 0
  bootGid := 0
  shmActive := false
  daemonChannel := false
  daemonConnected := false
  requestId := 1
  globalState := FakeRootState.new

abbrev Hook := StateT Process (Program sessionSignature)

/-! ## Calls and statics -/

def sendCall (call : SessionCall) : Hook call.Reply :=
  (Program.send (S := sessionSignature) call : Program sessionSignature call.Reply)

/-- The process with its in-process store changed. -/
def Process.withGlobalState (p : Process) (f : FakeRootState → FakeRootState) : Process :=
  { p with globalState := f p.globalState }

/-- `global_state_write` with one update under the lock. -/
def globalStateWrite (f : FakeRootState → FakeRootState) : Hook Unit :=
  modify fun p => p.withGlobalState f

def globalStateRead : Hook FakeRootState := do
  let p ← get
  pure p.globalState

def nextRequestId : Hook UInt64 :=
  modifyGet fun p => (p.requestId, { p with requestId := p.requestId + 1 })

/-! ## The shared map -/

def shmGetCurrentUidGid : Hook (UInt32 × UInt32) := sendCall .shmCurrent

def shmSetCurrentUidGid (uid gid : UInt32) : Hook Unit := sendCall (.shmSetCurrent uid gid)

def shmGetInode (key : InodeKey) : Hook (Option FakeInode) := sendCall (.shmGetInode key)

def shmUpsertChown (key : InodeKey) (uid gid defaultUid defaultGid : UInt32) : Hook Unit :=
  sendCall (.shmUpsertChown key uid gid defaultUid defaultGid)

def shmUpsertInode (key : InodeKey) (inode : FakeInode) : Hook Unit :=
  sendCall (.shmUpsertInode key inode)

def shmRemoveInode (key : InodeKey) : Hook Bool := sendCall (.shmRemoveInode key)

/-- Map the inherited session table. Returns true when active. -/
def initShmFromEnv : Hook Bool := do
  let p ← get
  if p.shmActive then pure true
  else if p.shmFd then do
    set { p with shmActive := true }
    pure true
  else pure false

/-! ## The daemon client -/

def Process.daemonModeEnabled (p : Process) : Bool := p.daemonSocket

def Process.daemonModeActive (p : Process) : Bool := p.daemonModeEnabled && p.daemonConnected

def connect : Hook Bool := sendCall .connect

def request (message : ProtocolMessage) : Hook (Option ProtocolMessage) :=
  sendCall (.request message)

def connectChannel : Hook Bool := do
  let ok ← connect
  modify fun p => { p with daemonConnected := ok }
  pure ok

/-- Initialize the connection to the daemon. Returns true if connected. -/
def initDaemonConnection : Hook Bool := do
  let p ← get
  if !p.daemonModeEnabled then pure false
  else do
    if !p.daemonChannel then do
      let _ ← connectChannel
      modify fun p => { p with daemonChannel := true }
    let p ← get
    if p.daemonConnected then pure true else connectChannel

/-- One round trip, or `none` without a live connection or when it fails. -/
def daemonRequest (messageType : MessageType) (payload : List UInt8) :
    Hook (Option ProtocolMessage) := do
  let p ← get
  if p.daemonModeActive && p.daemonChannel then do
    let requestId ← nextRequestId
    request ⟨messageType, payload, requestId⟩
  else pure none

/-- A round trip that counts as a success unless the response is an error. -/
def daemonRequestOk (messageType : MessageType) (payload : List UInt8) : Hook Bool := do
  let response ← daemonRequest messageType payload
  pure (response.any fun r => r.messageType ≠ .error)

section Client

variable (w : Wincode)

def daemonGetCurrentUidGid : Hook (Option (UInt32 × UInt32)) := do
  let response ← daemonRequest .getCurrentUidGid []
  pure (response.bind fun r =>
    if r.messageType ≠ .response then none
    else (w.uidGid.fromPayload r.payload).map fun p => (p.uid, p.gid))

def daemonSetCurrentUidGid (uid gid : UInt32) : Hook Bool :=
  daemonRequestOk .setCurrentUidGid (w.uidGid.toPayload ⟨uid, gid⟩)

def daemonGetInode (key : InodeKey) : Hook (Option FakeInode) := do
  let response ← daemonRequest .getOwnership (w.inodeKey.toPayload ⟨key.1, key.2⟩)
  pure (response.bind fun r =>
    if r.messageType ≠ .response then none
    else (w.inodeStateResult.fromPayload r.payload).bind fun r =>
      if r.found then some ⟨r.uid, r.gid, r.mode, r.rdev, r.xattrs⟩ else none)

def daemonUpsertChown (key : InodeKey) (uid gid defaultUid defaultGid : UInt32) : Hook Bool :=
  daemonRequestOk .upsertChown
    (w.chown.toPayload ⟨key.1, key.2, uid, gid, defaultUid, defaultGid⟩)

def daemonSetInode (key : InodeKey) (inode : FakeInode) : Hook Bool :=
  daemonRequestOk .registerOwnership
    (w.inodeState.toPayload
      ⟨key.1, key.2, inode.uid, inode.gid, inode.mode, inode.rdev, inode.xattrs⟩)

def daemonRemoveInode (key : InodeKey) : Hook Bool :=
  daemonRequestOk .removeOwnership (w.inodeKey.toPayload ⟨key.1, key.2⟩)

def daemonInit (uid gid : UInt32) : Hook Bool :=
  daemonRequestOk .init (w.uidGid.toPayload ⟨uid, gid⟩)

end Client

/-! ## Library initialization -/

/-- Record the initial ids from the library constructor. -/
def Process.storeBootstrapIds (p : Process) (uid gid : UInt32) : Process :=
  { p with bootUid := uid, bootGid := gid, ctorDone := true }

def ensureSessionBackingInit (w : Wincode) : Hook Unit := do
  let p ← get
  if p.sessionInit then pure ()
  else do
    let _ ← initShmFromEnv
    let p ← get
    if p.shmActive || !p.daemonModeEnabled then pure ()
    else do
      let _ ← initDaemonConnection
      let _ ← daemonInit w p.bootUid p.bootGid
    modify fun p => { p with sessionInit := true }

def finishLibraryInit : Hook Unit := do
  let p ← get
  globalStateWrite fun state => state.setCurrent p.bootUid p.bootGid
  modify fun p => { p with libraryInitDone := true }

def ensureLibraryInit (w : Wincode) : Hook Unit := do
  let p ← get
  if p.libraryInitDone then ensureSessionBackingInit w
  else if !p.ctorDone then pure ()
  else do
    finishLibraryInit
    ensureSessionBackingInit w

/-! ## Current ids -/

/-- The current ids of the initialized process, from the first backing that has them. -/
def sessionIds (w : Wincode) : Hook (UInt32 × UInt32) := do
  ensureSessionBackingInit w
  let p ← get
  if p.shmActive then shmGetCurrentUidGid
  else do
    let ids ← if p.daemonModeActive then daemonGetCurrentUidGid w else pure none
    match ids with
    | some ids => pure ids
    | none => do
      let state ← globalStateRead
      pure (state.currentUid, state.currentGid)

def currentFakeUid (w : Wincode) : Hook UInt32 := do
  let p ← get
  if !p.libraryInitDone then pure p.bootUid
  else do
    let (uid, _) ← sessionIds w
    pure uid

def currentFakeGid (w : Wincode) : Hook UInt32 := do
  let p ← get
  if !p.libraryInitDone then pure p.bootGid
  else do
    let (_, gid) ← sessionIds w
    pure gid

def setCurrentIds (w : Wincode) (uid gid : UInt32) : Hook Unit := do
  ensureLibraryInit w
  modify fun p => { p with bootUid := uid, bootGid := gid }
  globalStateWrite fun state => state.setCurrent uid gid
  let p ← get
  if p.shmActive then shmSetCurrentUidGid uid gid
  else if p.daemonModeEnabled then do
    let _ ← daemonSetCurrentUidGid w uid gid
    pure ()
  else pure ()

/-! ## Metadata -/

namespace Ownership

variable (w : Wincode)

def getInode (key : InodeKey) : Hook (Option FakeInode) := do
  let p ← get
  if p.shmActive then shmGetInode key
  else do
    let found ← if p.daemonModeActive then daemonGetInode w key else pure none
    match found with
    | some inode => pure (some inode)
    | none => do
      let state ← globalStateRead
      pure (state.getInode key)

def setInode (key : InodeKey) (inode : FakeInode) : Hook Unit := do
  let p ← get
  if p.shmActive then shmUpsertInode key inode
  else do
    globalStateWrite fun state => state.setInode key inode
    if p.daemonModeEnabled then do
      let _ ← daemonSetInode w key inode
      pure ()
    else pure ()

def updateInode (key : InodeKey) (f : FakeInode → FakeInode) : Hook Unit := do
  let found ← getInode w key
  match found with
  | some inode => setInode w key (f inode)
  | none => do
    let uid ← currentFakeUid w
    let gid ← currentFakeGid w
    setInode w key (f (FakeInode.new uid gid))

def removeInode (key : InodeKey) : Hook Unit := do
  let p ← get
  if p.shmActive then do
    let _ ← shmRemoveInode key
    pure ()
  else do
    globalStateWrite fun state => (state.removeInode key).2
    if p.daemonModeEnabled then do
      let _ ← daemonRemoveInode w key
      pure ()
    else pure ()

/-- Record a chown against `key` in one update of the map. -/
def recordChownKey (key : InodeKey) (uid gid : UInt32) : Hook Unit := do
  let fakeUid ← currentFakeUid w
  let fakeGid ← currentFakeGid w
  let p ← get
  if p.shmActive then shmUpsertChown key uid gid fakeUid fakeGid
  else if p.daemonModeActive then do
    let _ ← daemonUpsertChown w key uid gid fakeUid fakeGid
    pure ()
  else do
    -- The entry is modified in place or inserted, as by `upsert_chown` of the store.
    globalStateWrite fun state => state.upsertChown key uid gid fakeUid fakeGid
    let state ← globalStateRead
    match state.getInode key with
    | some inode =>
      if p.daemonModeEnabled then do
        let _ ← daemonSetInode w key inode
        pure ()
      else pure ()
    | none => pure ()

/-! ### Updates of one field -/

def allperms : UInt32 := 0o7777

/-- The type bits of the real mode with the requested permission bits. -/
def composeMode (realMode requestedPerms : UInt32) : UInt32 :=
  (realMode &&& ~~~allperms) ||| (requestedPerms &&& allperms)

def recordChmodForKey (key : InodeKey) (realMode reqMode : UInt32) : Hook Unit :=
  updateInode w key fun inode => { inode with mode := some (composeMode realMode reqMode) }

def recordXattrForKey (key : InodeKey) (name : String) (value : List UInt8) : Hook Unit :=
  updateInode w key fun inode => { inode with xattrs := inode.xattrs.insert name value }

def removeXattrForKey (key : InodeKey) (name : String) : Hook Unit :=
  updateInode w key fun inode => { inode with xattrs := inode.xattrs.erase name }

end Ownership

end Pseudoroot
