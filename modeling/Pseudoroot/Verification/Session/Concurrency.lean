import Pseudoroot.Verification.Session.Coherence

/-! # Concurrent clients of one daemon

Requests are atomic at the daemon; the requests of different operations interleave. -/

namespace Pseudoroot

open Calls Calls.Program

/-- A request that reads the store. -/
def SessionCall.IsLookup : SessionCall → Prop
  | .request message =>
    message.messageType = .getOwnership ∨ message.messageType = .getCurrentUidGid
  | _ => False

/-- A request that writes an entry of the store. -/
def SessionCall.IsUpdate : SessionCall → Prop
  | .request message =>
    message.messageType = .registerOwnership ∨ message.messageType = .upsertChown ∨
      message.messageType = .removeOwnership
  | _ => False

/-! ## The requests of the metadata operations -/

section Requests

theorem run_globalStateWrite (f : FakeRootState → FakeRootState) (p : Process) :
    (globalStateWrite f).run p = .done ((), p.withGlobalState f) := rfl

variable {w : Wincode} {p : Process} (hp : p.Connected)

include hp

theorem run_daemonRequest (messageType : MessageType) (payload : List UInt8) :
    (daemonRequest messageType payload).run p =
      .call (.request ⟨messageType, payload, p.requestId⟩) fun r => .done (r, p.sent 1) := by
  simp [daemonRequest, hp.active, hp.daemonChannel]
  rfl

theorem onlyCalls_sessionIds :
    OnlyCalls SessionCall.IsLookup (fun x : (UInt32 × UInt32) × Process => x.2.Connected)
      ((sessionIds w).run p) := by
  simp only [sessionIds, ensureSessionBackingInit, hp.sessionInit, hp.shmActive, hp.active,
    daemonGetCurrentUidGid, StateT.run_bind, run_daemonRequest hp, StateT.run_get, pure_bind,
    Bool.false_eq_true, if_false, if_true, StateT.run_pure, call_bind, done_bind]
  refine ⟨.inr rfl, fun r => ?_⟩
  dsimp only
  split
  · exact hp.sent 1
  · exact hp.sent 1

theorem onlyCalls_currentFakeUid :
    OnlyCalls SessionCall.IsLookup (fun x : UInt32 × Process => x.2.Connected)
      ((currentFakeUid w).run p) := by
  simp only [currentFakeUid, hp.libraryInitDone, StateT.run_bind, StateT.run_get, pure_bind,
    Bool.not_true, Bool.false_eq_true, if_false, StateT.run_pure]
  exact (onlyCalls_sessionIds hp).bind fun _ h => h

theorem onlyCalls_currentFakeGid :
    OnlyCalls SessionCall.IsLookup (fun x : UInt32 × Process => x.2.Connected)
      ((currentFakeGid w).run p) := by
  simp only [currentFakeGid, hp.libraryInitDone, StateT.run_bind, StateT.run_get, pure_bind,
    Bool.not_true, Bool.false_eq_true, if_false, StateT.run_pure]
  exact (onlyCalls_sessionIds hp).bind fun _ h => h

theorem onlyCalls_getInode (key : InodeKey) :
    OnlyCalls SessionCall.IsLookup (fun x : Option FakeInode × Process => x.2.Connected)
      ((Ownership.getInode w key).run p) := by
  simp only [Ownership.getInode, hp.shmActive, hp.active, daemonGetInode, StateT.run_bind,
    run_daemonRequest hp, StateT.run_get, pure_bind, Bool.false_eq_true, if_false, if_true,
    StateT.run_pure, call_bind, done_bind]
  refine ⟨.inl rfl, fun r => ?_⟩
  dsimp only
  split
  · exact hp.sent 1
  · exact hp.sent 1

theorem commitsLast_setInode (key : InodeKey) (inode : FakeInode) :
    CommitsLast SessionCall.IsLookup SessionCall.IsUpdate Process.Connected
      (Prod.snd <$> (Ownership.setInode w key inode).run p) := by
  have hwritten := hp.withGlobalState fun g => g.setInode key inode
  simp only [Ownership.setInode, hp.shmActive, hp.enabled, daemonSetInode, daemonRequestOk,
    StateT.run_bind, StateT.run_get, pure_bind, Bool.false_eq_true, if_false, if_true,
    run_globalStateWrite, done_bind, run_daemonRequest hwritten, call_bind, map_eq_pure_bind]
  exact .inr ⟨.inl rfl, fun _ => ⟨_, rfl, hwritten.sent 1⟩⟩

theorem commitsLast_removeInode (key : InodeKey) :
    CommitsLast SessionCall.IsLookup SessionCall.IsUpdate Process.Connected
      (Prod.snd <$> (Ownership.removeInode w key).run p) := by
  have hwritten := hp.withGlobalState fun g => (g.removeInode key).2
  simp only [Ownership.removeInode, hp.shmActive, hp.enabled, daemonRemoveInode, daemonRequestOk,
    StateT.run_bind, StateT.run_get, pure_bind, Bool.false_eq_true, if_false, if_true,
    run_globalStateWrite, done_bind, run_daemonRequest hwritten, call_bind, map_eq_pure_bind]
  exact .inr ⟨.inr (.inr rfl), fun _ => ⟨_, rfl, hwritten.sent 1⟩⟩

theorem commitsLast_updateInode (key : InodeKey) (f : FakeInode → FakeInode) :
    CommitsLast SessionCall.IsLookup SessionCall.IsUpdate Process.Connected
      (Prod.snd <$> (Ownership.updateInode w key f).run p) := by
  rw [Ownership.updateInode, StateT.run_bind, map_bind]
  refine (onlyCalls_getInode hp key).commitsLast_bind fun found hfound => ?_
  obtain ⟨found, p₁⟩ := found
  cases found with
  | some inode => exact commitsLast_setInode hfound key (f inode)
  | none =>
      rw [StateT.run_bind, map_bind]
      refine (onlyCalls_currentFakeUid hfound).commitsLast_bind fun uid huid => ?_
      rw [StateT.run_bind, map_bind]
      refine (onlyCalls_currentFakeGid huid).commitsLast_bind fun gid hgid => ?_
      exact commitsLast_setInode hgid key _

theorem commitsLast_recordChownKey (key : InodeKey) (uid gid : UInt32) :
    CommitsLast SessionCall.IsLookup SessionCall.IsUpdate Process.Connected
      (Prod.snd <$> (Ownership.recordChownKey w key uid gid).run p) := by
  rw [Ownership.recordChownKey, StateT.run_bind, map_bind]
  refine (onlyCalls_currentFakeUid hp).commitsLast_bind fun fakeUid huid => ?_
  rw [StateT.run_bind, map_bind]
  refine (onlyCalls_currentFakeGid huid).commitsLast_bind fun fakeGid hgid => ?_
  simp only [hgid.shmActive, hgid.active, daemonUpsertChown, daemonRequestOk,
    StateT.run_bind, StateT.run_get, pure_bind, Bool.false_eq_true, if_false, if_true,
    run_daemonRequest hgid, call_bind, map_eq_pure_bind]
  exact .inr ⟨.inr (.inl rfl), fun _ => ⟨_, rfl, hgid.sent 1⟩⟩

/-- Every metadata operation reads, and then writes once. -/
theorem commitsLast_body (op : MetadataOp) :
    CommitsLast SessionCall.IsLookup SessionCall.IsUpdate Process.Connected (op.body w p) := by
  cases op with
  | setInode key inode => exact commitsLast_setInode hp key inode
  | updateInode key f => exact commitsLast_updateInode hp key f
  | removeInode key => exact commitsLast_removeInode hp key
  | recordChown key uid gid => exact commitsLast_recordChownKey hp key uid gid

end Requests

/-! ## What a request touches -/

/-- The inode whose entry a request looks up. -/
def SessionCall.lookedUp (w : Wincode) : SessionCall → Option InodeKey
  | .request message =>
    match message.messageType with
    | .getOwnership => (w.inodeKey.fromPayload message.payload).map fun v => (v.dev, v.ino)
    | _ => none
  | _ => none

/-- The inode whose entry a request writes. -/
def SessionCall.written (w : Wincode) : SessionCall → Option InodeKey
  | .request message =>
    match message.messageType with
    | .registerOwnership => (w.inodeState.fromPayload message.payload).map fun v => (v.dev, v.ino)
    | .upsertChown => (w.chown.fromPayload message.payload).map fun v => (v.dev, v.ino)
    | .removeOwnership => (w.inodeKey.fromPayload message.payload).map fun v => (v.dev, v.ino)
    | _ => none
  | _ => none

section Handle

variable {n : ℕ} [NeZero n] {w : Wincode} {codec : XattrCodec}

theorem SessionCall.IsLookup.isRead {c : SessionCall} (hc : c.IsLookup) :
    IsRead (Session.handle (n := n) w codec) c := by
  intro s
  cases c with
  | request message =>
      obtain ⟨messageType, payload, requestId⟩ := message
      rcases hc with rfl | rfl
      · simp only [Session.handle, dispatchMessage]
        split <;> rfl
      · rfl
  | _ => cases hc

/-- An update changes the entry of its inode and nothing else that lookups read. -/
theorem SessionCall.IsUpdate.handle_state {c : SessionCall} (hc : c.IsUpdate) (codec : XattrCodec)
    (s : Session n) :
    ((Session.handle w codec c s).2.daemon.state.currentUid = s.daemon.state.currentUid ∧
      (Session.handle w codec c s).2.daemon.state.currentGid = s.daemon.state.currentGid) ∧
    ∀ key, c.written w ≠ some key →
      (Session.handle w codec c s).2.daemon.state.getInode key = s.daemon.state.getInode key := by
  cases c with
  | request message =>
      obtain ⟨messageType, payload, requestId⟩ := message
      rcases hc with rfl | rfl | rfl
      · simp only [Session.handle, dispatchMessage, SessionCall.written]
        cases w.inodeState.fromPayload payload with
        | none => simp
        | some v => simp +contextual [FakeRootState.getInode_setInode, eq_comm]
      · simp only [Session.handle, dispatchMessage, SessionCall.written]
        cases w.chown.fromPayload payload with
        | none => simp
        | some v => simp +contextual [FakeRootState.getInode_upsertChown, eq_comm]
      · simp only [Session.handle, dispatchMessage, SessionCall.written]
        cases w.inodeKey.fromPayload payload with
        | none => simp
        | some v => simp +contextual [FakeRootState.getInode_removeInode, eq_comm]
  | _ => cases hc

/-- The reply to a lookup depends on the current ids and on the entry looked up. -/
theorem SessionCall.IsLookup.reply_congr {c : SessionCall} (hc : c.IsLookup) {s s' : Session n}
    (hids : s'.daemon.state.currentUid = s.daemon.state.currentUid ∧
      s'.daemon.state.currentGid = s.daemon.state.currentGid)
    (hentry : ∀ key, c.lookedUp w = some key →
      s'.daemon.state.getInode key = s.daemon.state.getInode key) :
    (Session.handle w codec c s').1 = (Session.handle w codec c s).1 := by
  cases c with
  | request message =>
      obtain ⟨messageType, payload, requestId⟩ := message
      rcases hc with rfl | rfl
      · simp only [Session.handle, dispatchMessage, SessionCall.lookedUp] at hentry ⊢
        cases hkey : w.inodeKey.fromPayload payload with
        | none => rfl
        | some v => simp only [hentry (v.dev, v.ino) (by simp [hkey])]
      · simp only [Session.handle, dispatchMessage, hids]
  | _ => cases hc

end Handle

/-! ## Interleaved operations -/

namespace Cluster

variable {ι : Type} [DecidableEq ι] {n : ℕ} [NeZero n] {w : Wincode} {codec : XattrCodec}

/-- The clients with their programs, between requests. -/
abbrev Requests (ι : Type) (n : ℕ) := System sessionSignature ι MetadataOp Process (Session n)

/-- Client `i` sends its next request, or begins its next operation. -/
def request (w : Wincode) (codec : XattrCodec) (sys : Requests ι n) (i : ι) : Requests ι n :=
  Calls.step (Session.handle w codec) (MetadataOp.body w) sys i

/-- The next request of client `i` writes no entry that an operation in progress of
another client has looked up. -/
def WritesUnread (w : Wincode) (sys : Requests ι n) (i : ι) : Prop :=
  ∀ c next, (sys.client i).prog = .call c next → ∀ key, SessionCall.written w c = some key →
    ∀ j, j ≠ i → ∀ c' next', (sys.client j).prog = .call c' next' →
      ∀ r ∈ (sys.client j).reads, SessionCall.lookedUp w r ≠ some key

omit [DecidableEq ι] in
theorem WritesUnread.undisturbed {sys : Requests ι n} {i : ι} (h : WritesUnread w sys i) :
    Undisturbed (Session.handle w codec) SessionCall.IsLookup SessionCall.IsUpdate sys i := by
  intro c next hi hc j hj c' next' hnext r hr hlookup
  rcases hc with hread | hupdate
  · rw [hread.isRead sys.shared]
  · obtain ⟨hids, hentry⟩ := hupdate.handle_state (w := w) codec sys.shared
    refine hlookup.reply_congr hids fun key hkey => hentry key fun hwritten => ?_
    exact h c next hi key hwritten j hj c' next' hnext r hr hkey

/-- When no request writes an entry that another client's operation in progress has
looked up, the entries at the end are those of the same operations run one after
another, each client's in its own order. -/
theorem exists_serial_order (w : Wincode) (codec : XattrCodec) (s : Session n)
    {procs : ι → Process} (hprocs : ∀ i, (procs i).Connected) (all : ι → List MetadataOp)
    (sched : List ι)
    (hguard : ∀ k (hk : k < sched.length),
      WritesUnread w (Machine.run (request w codec) (.start s procs all) (sched.take k)) sched[k])
    (hfinished : Finished (Machine.run (request w codec) (.start s procs all) sched)) :
    ∃ order : List (ι × MetadataOp), (∀ i, opsOf order i = all i) ∧
      ∀ key, (Machine.run (step w codec) (s, procs) order).1.daemon.state.getInode key =
        (Machine.run (request w codec) (.start s procs all)
          sched).shared.daemon.state.getInode key := by
  obtain ⟨order, hops, hshared⟩ := exists_serial_run (fun c hc => SessionCall.IsLookup.isRead hc)
    (fun op p hp => commitsLast_body hp op) hprocs sched
    (fun k hk => (hguard k hk).undisturbed) hfinished
  exact ⟨order, hops, fun key => congrArg (fun s => s.daemon.state.getInode key) hshared⟩

/-! ## A lost update -/

/-- A chown by the one process and a chmod by the other, of the same inode. -/
def chownAndChmod : Bool → List MetadataOp
  | false => [.recordChown (1, 2) 7 7]
  | true => [.chmod (1, 2) 0o100644 0o600]

/-- The requests of the chown come between the lookup and the write of the chmod. -/
def chownInsideChmod : List Bool := [true, true, false, false, false, false, true, true, true]

theorem eq_nil_of_opsOf {order : List (Bool × MetadataOp)} (h : ∀ i, opsOf order i = []) :
    order = [] := by
  cases order with
  | nil => rfl
  | cons x rest => simpa [opsOf] using h x.1

/-- One operation of each of two clients can be run in two orders. -/
theorem eq_or_eq_of_opsOf {a b : MetadataOp} {order : List (Bool × MetadataOp)}
    (hfalse : opsOf order false = [a]) (htrue : opsOf order true = [b]) :
    order = [(false, a), (true, b)] ∨ order = [(true, b), (false, a)] := by
  match order with
  | [] => simp [opsOf] at hfalse
  | [(false, op)] => simp [opsOf] at htrue
  | [(true, op)] => simp [opsOf] at hfalse
  | (false, op) :: (false, op') :: rest => simp [opsOf] at hfalse
  | (true, op) :: (true, op') :: rest => simp [opsOf] at htrue
  | (false, op) :: (true, op') :: rest =>
      obtain ⟨rfl, hf⟩ : op = a ∧ opsOf rest false = [] := by simpa [opsOf] using hfalse
      obtain ⟨rfl, ht⟩ : op' = b ∧ opsOf rest true = [] := by simpa [opsOf] using htrue
      rw [eq_nil_of_opsOf (Bool.forall_bool.mpr ⟨hf, ht⟩)]
      exact .inl rfl
  | (true, op) :: (false, op') :: rest =>
      obtain ⟨rfl, hf⟩ : op' = a ∧ opsOf rest false = [] := by simpa [opsOf] using hfalse
      obtain ⟨rfl, ht⟩ : op = b ∧ opsOf rest true = [] := by simpa [opsOf] using htrue
      rw [eq_nil_of_opsOf (Bool.forall_bool.mpr ⟨hf, ht⟩)]
      exact .inr rfl

theorem chown_lost_inside_chmod :
    let run := Machine.run (request Wincode.bincode XattrCodec.wincode)
      (.start pair.1 pair.2 chownAndChmod) chownInsideChmod
    Finished run ∧ ∀ order, (∀ i, opsOf order i = chownAndChmod i) →
      (Machine.run (step Wincode.bincode XattrCodec.wincode) pair
        order).1.daemon.state.getInode (1, 2) ≠ run.shared.daemon.state.getInode (1, 2) := by
  intro run
  constructor
  · intro i
    cases i
    · exact ⟨rfl, _, rfl⟩
    · exact ⟨rfl, _, rfl⟩
  · intro order horder
    have hrun : run.shared.daemon.state.getInode (1, 2) = some ⟨0, 0, some 0o100600, none, ∅⟩ := by
      decide +kernel
    rw [hrun]
    rcases eq_or_eq_of_opsOf (horder false) (horder true) with rfl | rfl
    · decide +kernel
    · decide +kernel

/-- The inode whose entry the next request of client `i` writes. -/
def nextWritten (w : Wincode) (sys : Requests ι n) (i : ι) : Option InodeKey :=
  match (sys.client i).prog with
  | .call c _ => SessionCall.written w c
  | .done _ => none

omit [DecidableEq ι] [NeZero n] in
theorem writesUnread_of_nextWritten {sys : Requests ι n} {i : ι}
    (h : ∀ key ∈ nextWritten w sys i, ∀ j, j ≠ i →
      key ∉ (sys.client j).reads.filterMap (SessionCall.lookedUp w)) : WritesUnread w sys i := by
  intro c next hi key hkey j hj c' next' _ r hr hlookup
  have hwritten : key ∈ nextWritten w sys i := by simp [nextWritten, hi, hkey]
  exact h key hwritten j hj (List.mem_filterMap.mpr ⟨r, hr, hlookup⟩)

/-- A chown by the one process and a chmod by the other, of two inodes. -/
def chownAndChmodApart : Bool → List MetadataOp
  | false => [.recordChown (1, 3) 7 7]
  | true => [.chmod (1, 2) 0o100644 0o600]

/-- The requests of the chown come between the lookup and the write of the chmod, which is of
another inode. -/
theorem exists_serial_order_apart :
    let run := Machine.run (request Wincode.bincode XattrCodec.wincode)
      (.start pair.1 pair.2 chownAndChmodApart) chownInsideChmod
    ∃ order : List (Bool × MetadataOp), (∀ i, opsOf order i = chownAndChmodApart i) ∧
      ∀ key, (Machine.run (step Wincode.bincode XattrCodec.wincode) pair
        order).1.daemon.state.getInode key = run.shared.daemon.state.getInode key := by
  intro run
  refine exists_serial_order Wincode.bincode XattrCodec.wincode pair.1 pair_allConnected
    chownAndChmodApart chownInsideChmod (fun k hk => ?_) fun i => ?_
  · refine writesUnread_of_nextWritten ?_
    -- Not a quantifier over all keys, which are finitely many but too many to try.
    have hunread : ∀ (k : ℕ) (hk : k < chownInsideChmod.length), (nextWritten Wincode.bincode
        (Machine.run (request Wincode.bincode XattrCodec.wincode)
          (.start pair.1 pair.2 chownAndChmodApart) (chownInsideChmod.take k))
        chownInsideChmod[k]).all (fun key => ∀ j, j ≠ chownInsideChmod[k] → key ∉ ((Machine.run
          (request Wincode.bincode XattrCodec.wincode) (.start pair.1 pair.2 chownAndChmodApart)
            (chownInsideChmod.take k)).client j).reads.filterMap
              (SessionCall.lookedUp Wincode.bincode)) = true := by decide +kernel
    exact fun key hkey => of_decide_eq_true ((Option.all_eq_true _ _).mp (hunread k hk) key hkey)
  · cases i
    · exact ⟨rfl, _, rfl⟩
    · exact ⟨rfl, _, rfl⟩

end Cluster

end Pseudoroot
