import Pseudoroot.Verification.Session.Backends
import Pseudoroot.Verification.ShmMap.Refinement

/-! # The metadata table of a process

The one table that the hooks of a process read and write, wherever it is kept: in the
process, in a shared map, or in a daemon beside the copy of the process. -/

namespace Pseudoroot

open Calls Calls.Program

namespace Process

/-- A process after its constructor that will keep its table to itself. -/
structure Alone (p : Process) : Prop where
  shmFd : p.shmFd = false
  daemonSocket : p.daemonSocket = false
  ctorDone : p.ctorDone = true
  libraryInitDone : p.libraryInitDone = false
  sessionInit : p.sessionInit = false
  shmActive : p.shmActive = false

/-- A process without a session after its constructor, started with the given ids. -/
def withoutSession (uid gid : UInt32) : Process :=
  (Process.load false false).storeBootstrapIds uid gid

theorem alone_withoutSession (uid gid : UInt32) : (withoutSession uid gid).Alone :=
  ⟨rfl, rfl, rfl, rfl, rfl, rfl⟩

/-- The process after its first initialization when it has no session. -/
def initialized (p : Process) : Process := { p.finished with sessionInit := true }

theorem Alone.inProcess {p : Process} (h : p.Alone) : p.initialized.InProcess :=
  ⟨rfl, rfl, h.shmActive, h.daemonSocket⟩

def Constructed : Option Backing → Process → Prop
  | none, p => p.Alone
  | some b, p => p.Fresh b

def Initialized : Option Backing → Process → Prop
  | none, p => p.InProcess
  | some b, p => p.Ready b

end Process

abbrev Host (n : ℕ) := Process × Session n

namespace Host

variable {n : ℕ} [NeZero n]

/-- The entries that the process sees, without a session those of its own. -/
def table (b : Option Backing) (codec : XattrCodec) (x : Host n) : InodeKey → Option FakeInode :=
  match b with
  | none => x.1.globalState.getInode
  | some .shm => x.2.shm.getInode codec
  | some .daemon => fun key => x.2.daemon.state.getInode key <|> x.1.globalState.getInode key

def xattrs (b : Option Backing) (codec : XattrCodec) (x : Host n) (key : InodeKey) : XattrMap :=
  ((x.table b codec key).map FakeInode.xattrs).getD ∅

/-- What holds the table is in order. -/
def Sound (codec : XattrCodec) (x : Host n) : Option Backing → Prop
  | some .shm => x.2.shm.Valid codec
  | _ => True

/-- The process is initialized and uses this backing. -/
structure Serves (b : Option Backing) (codec : XattrCodec) (x : Host n) : Prop where
  sound : x.Sound codec b
  initialized : x.1.Initialized b

/-- The process uses this backing, from its first hook on. -/
structure Uses (b : Option Backing) (codec : XattrCodec) (x : Host n) : Prop where
  sound : x.Sound codec b
  stage : x.1.Initialized b ∨ x.1.Constructed b

theorem Serves.uses {b : Option Backing} {codec : XattrCodec} {x : Host n}
    (h : x.Serves b codec) : x.Uses b codec :=
  ⟨h.sound, Or.inl h.initialized⟩

def localIds (x : Host n) : UInt32 × UInt32 :=
  (x.1.globalState.currentUid, x.1.globalState.currentGid)

def ids (b : Option Backing) (x : Host n) : UInt32 × UInt32 :=
  b.elim x.localIds x.2.ids

/-- What the table keeps of an entry. -/
def stored (b : Option Backing) (codec : XattrCodec) : FakeInode → FakeInode :=
  match b with
  | some .shm => codec.storedInode
  | _ => id

/-- The table has an entry for the key, or takes a new one. -/
def Binds (b : Option Backing) (codec : XattrCodec) (x : Host n) (key : InodeKey) : Prop :=
  match b with
  | some .shm => x.2.shm.getInode codec key ≠ none ∨ ¬ x.2.shm.NoEmptySlot
  | _ => True

/-- From `x` to `y`, only the table can have changed. -/
structure Frame (b : Option Backing) (codec : XattrCodec) (x y : Host n) : Prop where
  serves : y.Serves b codec
  ids_eq : y.ids b = x.ids b
  localIds_eq : y.localIds = x.localIds

/-- From `x` to `y`, nothing has changed that a hook can read. -/
structure Same (b : Option Backing) (codec : XattrCodec) (x y : Host n) : Prop extends
    Frame b codec x y where
  table_eq : y.table b codec = x.table b codec

theorem Same.refl {b : Option Backing} {codec : XattrCodec} {x : Host n}
    (h : x.Serves b codec) : Same b codec x x :=
  ⟨⟨h, rfl, rfl⟩, rfl⟩

/-- From `x` to `y`, an entry is written, if the table takes it. -/
structure Writes (b : Option Backing) (codec : XattrCodec) (key : InodeKey) (inode : FakeInode)
    (x y : Host n) : Prop extends Frame b codec x y where
  table_of_binds : x.Binds b codec key →
    y.table b codec = Function.update (x.table b codec) key (some inode)
  table_of_not_binds : ¬ x.Binds b codec key → y.table b codec = x.table b codec

/-- What an update begins with: the entry of the table, or a new one. -/
def base (b : Option Backing) (codec : XattrCodec) (x : Host n) (key : InodeKey) : FakeInode :=
  (x.table b codec key).getD (FakeInode.new (x.ids b).1 (x.ids b).2)

/-- What a chown begins with. A daemon is asked to chown its own entry. -/
def chownBase (b : Option Backing) (codec : XattrCodec) (x : Host n) (key : InodeKey) : FakeInode :=
  match b with
  | some .daemon =>
    (x.2.daemon.state.getInode key).getD (FakeInode.new (x.ids b).1 (x.ids b).2)
  | _ => x.base b codec key

theorem serves_inProcess {codec : XattrCodec} {p : Process} (h : p.InProcess) (s : Session n) :
    Host.Serves none codec (p, s) :=
  ⟨trivial, h⟩

end Host

section Exec

variable {n : ℕ} [NeZero n] {w : Wincode} (hw : w.Lawful) {codec : XattrCodec}
  {b : Option Backing} {p : Process} {s : Session n}

theorem exec_ensureSessionBackingInit_alone (codec : XattrCodec) {p : Process}
    (hfd : p.shmFd = false) (hsocket : p.daemonSocket = false) (hinit : p.sessionInit = false)
    (hactive : p.shmActive = false) (s : Session n) :
    exec (Session.handle w codec) (ensureSessionBackingInit w) p s =
      (((), { p with sessionInit := true }), s) := by
  have henabled : p.daemonModeEnabled = false := hsocket
  simp [ensureSessionBackingInit, initShmFromEnv, hfd, hinit, hactive, henabled]

theorem exec_ensureLibraryInit_alone (codec : XattrCodec) (h : p.Alone) (s : Session n) :
    exec (Session.handle w codec) (ensureLibraryInit w) p s = (((), p.initialized), s) := by
  rw [exec_ensureLibraryInit_of_constructed codec h.ctorDone h.libraryInitDone]
  exact exec_ensureSessionBackingInit_alone codec (p := p.finished) h.shmFd h.daemonSocket
    h.sessionInit h.shmActive s

include hw

omit hw in
theorem Host.Serves.exec_ensureLibraryInit (h : Host.Serves b codec (p, s)) :
    exec (Session.handle w codec) (ensureLibraryInit w) p s = (((), p), s) := by
  have hinit := h.initialized
  cases b with
  | none => exact exec_ensureLibraryInit_inProcess codec hinit s
  | some b => exact exec_ensureLibraryInit_of_ready codec hinit s

theorem Host.Uses.exec_ensureLibraryInit_binds (h : Host.Uses b codec (p, s)) :
    ∃ p' s', exec (Session.handle w codec) (ensureLibraryInit w) p s = (((), p'), s') ∧
      Host.Serves b codec (p', s') ∧ Host.table b codec (p', s') = Host.table b codec (p, s) ∧
      ∀ key, Host.Binds b codec (p', s') key ↔ Host.Binds b codec (p, s) key := by
  obtain ⟨hsound, hstage | hstage⟩ := h
  · have hserves : Host.Serves b codec (p, s) := ⟨hsound, hstage⟩
    exact ⟨p, s, hserves.exec_ensureLibraryInit, hserves, rfl, fun _ => Iff.rfl⟩
  · cases b with
    | none =>
        exact ⟨p.initialized, s, exec_ensureLibraryInit_alone codec hstage s,
          ⟨trivial, Process.Alone.inProcess hstage⟩, rfl, fun _ => Iff.rfl⟩
    | some b =>
        cases b with
        | shm =>
            exact ⟨p.finished.attachedShm, s, exec_ensureLibraryInit_shm codec hstage s,
              ⟨hsound, rfl, rfl, rfl⟩, rfl, fun _ => Iff.rfl⟩
        | daemon =>
            exact ⟨p.finished.attachedDaemon,
              s.onDaemon fun d => d.setCurrent p.bootUid p.bootGid,
              exec_ensureLibraryInit_daemon codec hw hstage s,
              ⟨trivial, Process.Fresh.connected_attachedDaemon hstage⟩, rfl, fun _ => Iff.rfl⟩

theorem Host.Uses.exec_ensureLibraryInit (h : Host.Uses b codec (p, s)) :
    ∃ p' s', exec (Session.handle w codec) (ensureLibraryInit w) p s = (((), p'), s') ∧
      Host.Serves b codec (p', s') ∧ Host.table b codec (p', s') = Host.table b codec (p, s) := by
  obtain ⟨p', s', hexec, hserves, htable, -⟩ := h.exec_ensureLibraryInit_binds hw
  exact ⟨p', s', hexec, hserves, htable⟩

/-! ## Reads -/

theorem Host.Serves.exec_sessionIds (h : Host.Serves b codec (p, s)) :
    (∃ p', exec (Session.handle w codec) (currentFakeUid w) p s =
        (((Host.ids b (p, s)).1, p'), s) ∧ Host.Same b codec (p, s) (p', s)) ∧
    ∃ p', exec (Session.handle w codec) (currentFakeGid w) p s =
        (((Host.ids b (p, s)).2, p'), s) ∧ Host.Same b codec (p, s) (p', s) := by
  have hsame := Host.Same.refl h
  obtain ⟨hsound, hinit⟩ := h
  cases b with
  | none =>
      exact ⟨⟨p, exec_currentFakeUid_inProcess codec hinit s, hsame⟩,
        p, exec_currentFakeGid_inProcess codec hinit s, hsame⟩
  | some b =>
      cases b with
      | shm =>
          exact ⟨⟨p, exec_currentFakeUid_shm codec hinit s, hsame⟩,
            p, exec_currentFakeGid_shm codec hinit s, hsame⟩
      | daemon =>
          have hc : p.Connected := hinit
          have hsent : Host.Same (some .daemon) codec (p, s) (p.sent 1, s) :=
            ⟨⟨⟨trivial, hc.sent 1⟩, rfl, rfl⟩, rfl⟩
          exact ⟨⟨p.sent 1, exec_currentFakeUid hw codec hc s, hsent⟩,
            p.sent 1, exec_currentFakeGid hw codec hc s, hsent⟩

theorem Host.Serves.exec_getInode (h : Host.Serves b codec (p, s)) (key : InodeKey) :
    ∃ p', exec (Session.handle w codec) (Ownership.getInode w key) p s =
        ((Host.table b codec (p, s) key, p'), s) ∧ Host.Same b codec (p, s) (p', s) := by
  have hsame := Host.Same.refl h
  obtain ⟨hsound, hinit⟩ := h
  cases b with
  | none => exact ⟨p, exec_getInode_inProcess codec hinit s key, hsame⟩
  | some b =>
      cases b with
      | shm => exact ⟨p, exec_getInode_shm codec hinit s key, hsame⟩
      | daemon =>
          have hc : p.Connected := hinit
          exact ⟨p.sent 1, Pseudoroot.exec_getInode hw codec hc s key,
            ⟨⟨⟨trivial, hc.sent 1⟩, rfl, rfl⟩, rfl⟩⟩

/-! ## Writes -/

theorem Host.Serves.exec_removeInode (h : Host.Serves b codec (p, s)) (key : InodeKey) :
    ∃ p' s', exec (Session.handle w codec) (Ownership.removeInode w key) p s = (((), p'), s') ∧
      Host.Frame b codec (p, s) (p', s') ∧
      Host.table b codec (p', s') = Function.update (Host.table b codec (p, s)) key none := by
  obtain ⟨hsound, hinit⟩ := h
  cases b with
  | none =>
      have hinit' : p.InProcess := hinit
      refine ⟨_, s, exec_removeInode_inProcess codec hinit s key,
        ⟨Host.serves_inProcess (hinit'.withGlobalState _) s, rfl, rfl⟩, ?_⟩
      funext key'
      simp [Host.table, FakeRootState.getInode_removeInode, Function.update_apply]
  | some b =>
      cases b with
      | shm =>
          have hvalid : s.shm.Valid codec := hsound
          have hrep := (ShmInodeMap.Represents.of_valid hvalid).removeInode key
          refine ⟨p, _, exec_removeInode_shm codec hinit s key,
            ⟨⟨hrep.valid, hinit⟩, ?_, rfl⟩, ?_⟩
          · simp [Host.ids, Session.ids, Session.onShm, ShmInodeMap.currentUid,
              ShmInodeMap.currentGid, ShmInodeMap.header_removeInode]
          · funext key'
            exact hrep.getInode_eq key'
      | daemon =>
          have hc : p.Connected := hinit
          refine ⟨_, _, Pseudoroot.exec_removeInode hw codec hc s key,
            ⟨⟨trivial, (hc.withGlobalState _).sent 1⟩, rfl, rfl⟩, ?_⟩
          funext key'
          by_cases hkey : key' = key <;>
            simp [Host.table, FakeRootState.getInode_removeInode, hkey]

omit hw in
theorem Host.writes_shm (hvalid : s.shm.Valid codec) (hready : p.Ready .shm)
    {map : ShmInodeMap n} (hmap : map.Valid codec) (hheader : map.header = s.shm.header)
    {key : InodeKey} {f : Option FakeInode → FakeInode}
    (hcells : map.cells codec = LinearProbing.upsert ShmInodeMap.hash (s.shm.cells codec) key f) :
    Host.Writes (some .shm) codec key (f (s.shm.getInode codec key)) (p, s)
      (p, s.onShm fun _ => map) := by
  have hrep := ShmInodeMap.Represents.of_valid hvalid
  refine ⟨⟨⟨hmap, hready⟩, ?_, rfl⟩, fun hbinds => ?_, fun hbinds => ?_⟩
  · simp [Host.ids, Session.ids, Session.onShm, ShmInodeMap.currentUid, ShmInodeMap.currentGid,
      hheader]
  · funext key'
    exact (hrep.upsert_of_room hmap f hcells hbinds).getInode_eq key'
  · obtain ⟨hnone, hfull⟩ := not_or.mp hbinds
    funext key'
    exact (hrep.upsert_of_full hmap f hcells (not_not.mp hnone) (not_not.mp hfull)).getInode_eq key'

omit hw in
theorem Host.writes_inProcess (hp : p.InProcess) {f : FakeRootState → FakeRootState}
    {key : InodeKey} {inode : FakeInode}
    (htable : (f p.globalState).getInode = Function.update p.globalState.getInode key (some inode))
    (hids : (f p.globalState).currentUid = p.globalState.currentUid ∧
      (f p.globalState).currentGid = p.globalState.currentGid) :
    Host.Writes none codec key inode (p, s) (p.withGlobalState f, s) where
  serves := Host.serves_inProcess (hp.withGlobalState f) s
  ids_eq := Prod.ext hids.1 hids.2
  localIds_eq := Prod.ext hids.1 hids.2
  table_of_binds _ := htable
  table_of_not_binds hnot := absurd trivial hnot

omit hw in
theorem Host.writes_daemon {p' : Process} (hp : p'.Connected)
    {f : FakeRootState → FakeRootState} {key : InodeKey} {inode : FakeInode}
    (htable : (f s.daemon.state).getInode =
      Function.update s.daemon.state.getInode key (some inode))
    (hids : (f s.daemon.state).currentUid = s.daemon.state.currentUid ∧
      (f s.daemon.state).currentGid = s.daemon.state.currentGid)
    (hlocal : Host.localIds (p', s) = Host.localIds (p, s))
    (hown : ∀ key', key' ≠ key → p'.globalState.getInode key' = p.globalState.getInode key') :
    Host.Writes (some .daemon) codec key inode (p, s) (p', s.onDaemon f) where
  serves := ⟨trivial, hp⟩
  ids_eq := Prod.ext hids.1 hids.2
  localIds_eq := hlocal
  table_of_binds _ := by
    funext key'
    by_cases hkey : key' = key
    · simp [Host.table, htable, hkey]
    · simp [Host.table, htable, hkey, hown key' hkey]
  table_of_not_binds hnot := absurd trivial hnot

theorem Host.Serves.exec_setInode (h : Host.Serves b codec (p, s)) (key : InodeKey)
    (inode : FakeInode) :
    ∃ p' s' written, exec (Session.handle w codec) (Ownership.setInode w key inode) p s =
        (((), p'), s') ∧ Host.Writes b codec key written (p, s) (p', s') ∧
      written.uid = inode.uid ∧ written.gid = inode.gid ∧
      (codec.Lawful → written = Host.stored b codec inode) := by
  obtain ⟨hsound, hinit⟩ := h
  cases b with
  | none =>
      exact ⟨_, s, inode, exec_setInode_inProcess codec hinit s key inode,
        Host.writes_inProcess hinit (FakeRootState.getInode_setInode_eq ..) ⟨rfl, rfl⟩, rfl, rfl,
        fun _ => rfl⟩
  | some b =>
      cases b with
      | shm =>
          have hvalid : s.shm.Valid codec := hsound
          obtain ⟨written, huid, hgid, hstored, hcells⟩ :=
            ShmInodeMap.exists_cells_upsertInode codec hvalid.tagged key inode
          exact ⟨p, _, written, exec_setInode_shm codec hinit s key inode,
            Host.writes_shm hvalid hinit (hvalid.call (.upsertInode key inode))
              (ShmInodeMap.header_upsertInode codec s.shm key inode) hcells, huid, hgid, hstored⟩
      | daemon =>
          have hc : p.Connected := hinit
          refine ⟨_, _, inode, Pseudoroot.exec_setInode hw codec hc s key inode,
            Host.writes_daemon ((hc.withGlobalState _).sent 1)
              (FakeRootState.getInode_setInode_eq ..) ⟨rfl, rfl⟩ rfl ?_, rfl, rfl, fun _ => rfl⟩
          intro key' hkey
          simp [FakeRootState.getInode_setInode, hkey]

omit hw in
theorem Host.Writes.of_same {p' : Process} {key : InodeKey} {inode : FakeInode} {y : Host n}
    (hsame : Host.Same b codec (p, s) (p', s)) (h : Host.Writes b codec key inode (p', s) y) :
    Host.Writes b codec key inode (p, s) y where
  serves := h.serves
  ids_eq := h.ids_eq.trans hsame.ids_eq
  localIds_eq := h.localIds_eq.trans hsame.localIds_eq
  table_of_binds hbinds := by rw [h.table_of_binds hbinds, hsame.table_eq]
  table_of_not_binds hbinds := by rw [h.table_of_not_binds hbinds, hsame.table_eq]

theorem Host.Serves.exec_updateInode (h : Host.Serves b codec (p, s)) (key : InodeKey)
    (f : FakeInode → FakeInode) :
    ∃ p' s' written, exec (Session.handle w codec) (Ownership.updateInode w key f) p s =
        (((), p'), s') ∧ Host.Writes b codec key written (p, s) (p', s') ∧
      written.uid = (f (Host.base b codec (p, s) key)).uid ∧
      written.gid = (f (Host.base b codec (p, s) key)).gid ∧
      (codec.Lawful → written = Host.stored b codec (f (Host.base b codec (p, s) key))) := by
  obtain ⟨p₁, hget, hsame₁⟩ := h.exec_getInode hw key
  cases hold : Host.table b codec (p, s) key with
  | some inode =>
      obtain ⟨p', s', written, hset, hwrites, hwritten⟩ :=
        hsame₁.serves.exec_setInode hw key (f inode)
      refine ⟨p', s', written, by simp [Ownership.updateInode, hget, hold, hset],
        hwrites.of_same hsame₁, ?_⟩
      simpa only [Host.base, hold, Option.getD_some] using hwritten
  | none =>
      obtain ⟨⟨p₂, huid, hsame₂⟩, -⟩ := hsame₁.serves.exec_sessionIds hw
      obtain ⟨-, p₃, hgid, hsame₃⟩ := hsame₂.serves.exec_sessionIds hw
      have hids₁ := hsame₁.ids_eq
      have hids₂ := hsame₂.ids_eq
      obtain ⟨p', s', written, hset, hwrites, hwritten⟩ := hsame₃.serves.exec_setInode hw key
        (f (FakeInode.new (Host.ids b (p, s)).1 (Host.ids b (p, s)).2))
      refine ⟨p', s', written, ?_, ((hwrites.of_same hsame₃).of_same hsame₂).of_same hsame₁, ?_⟩
      · simp [Ownership.updateInode, hget, hold, huid, hgid, hset, hids₁, hids₂]
      · simpa only [Host.base, hold, Option.getD_none] using hwritten

theorem Host.Serves.exec_recordChownKey (h : Host.Serves b codec (p, s)) (key : InodeKey)
    (uid gid : UInt32) :
    ∃ p' s', exec (Session.handle w codec) (Ownership.recordChownKey w key uid gid) p s =
        (((), p'), s') ∧
      Host.Writes b codec key ((Host.chownBase b codec (p, s) key).mergeChown uid gid) (p, s)
        (p', s') := by
  obtain ⟨hsound, hinit⟩ := h
  cases b with
  | none =>
      exact ⟨_, s, exec_recordChownKey_inProcess codec hinit s key uid gid,
        Host.writes_inProcess hinit (FakeRootState.getInode_upsertChown_eq ..) ⟨rfl, rfl⟩⟩
  | some b =>
      cases b with
      | shm =>
          have hvalid : s.shm.Valid codec := hsound
          exact ⟨p, _, exec_recordChownKey_shm codec hinit s key uid gid,
            Host.writes_shm hvalid hinit
              (hvalid.call (.upsertChown key uid gid s.shm.currentUid s.shm.currentGid))
              (ShmInodeMap.header_upsertChown codec s.shm key uid gid _ _)
              (ShmInodeMap.cells_upsertChown codec hvalid.tagged key uid gid _ _)⟩
      | daemon =>
          have hc : p.Connected := hinit
          exact ⟨_, _, Pseudoroot.exec_recordChownKey hw codec hc s key uid gid,
            Host.writes_daemon (hc.sent 3) (FakeRootState.getInode_upsertChown_eq ..) ⟨rfl, rfl⟩ rfl
              fun _ _ => rfl⟩

end Exec

end Pseudoroot
