import Pseudoroot.Library.Runs
import Pseudoroot.Model.Wincode
import Pseudoroot.Verification.Session.Backends
import Pseudoroot.Verification.Session.Cluster

/-! # A daemon connection that breaks

A process keeps a table of its own beside the daemon's. It is what the process reads once its
requests fail. -/

namespace Pseudoroot

open Calls Calls.Program

/-- A session whose daemon goes away. -/
structure BreakingSession (n : ℕ) where
  session : Session n
  /-- How many round trips still succeed. -/
  left : ℕ

namespace BreakingSession

variable {n : ℕ} [NeZero n]

def handle (w : Wincode) (codec : XattrCodec) : Handler sessionSignature (BreakingSession n) :=
  fun call s =>
    match call with
    | .connect => (decide (0 < s.left), s)
    | .request message =>
      match s.left with
      | 0 => (none, s)
      | left + 1 =>
        let (response, session) := Session.handle w codec (.request message) s.session
        (response, ⟨session, left⟩)
    | call =>
      let (reply, session) := Session.handle w codec call s.session
      (reply, { s with session := session })

/-- What a request that changes the daemon's store leaves. -/
def after (s : Session n) (left : ℕ) (f : FakeRootState → FakeRootState) : BreakingSession n :=
  ⟨if left = 0 then s else s.onDaemon f, left - 1⟩

section Requests

variable {w : Wincode} (hw : w.Lawful) (codec : XattrCodec) {p : Process} (hp : p.Connected)
  (s : Session n) (left : ℕ)

include hp

theorem exec_daemonRequest_broken (messageType : MessageType) (payload : List UInt8) :
    exec (handle w codec) (daemonRequest messageType payload) p ⟨s, 0⟩ =
      ((none, p.sent 1), ⟨s, 0⟩) := by
  simp [daemonRequest, hp.active, hp.daemonChannel, handle]

theorem exec_daemonRequest_served (messageType : MessageType) (payload : List UInt8) :
    exec (handle w codec) (daemonRequest messageType payload) p ⟨s, left + 1⟩ =
      ((some (dispatchMessage w ⟨messageType, payload, p.requestId⟩ s.daemon).1, p.sent 1),
        ⟨{ s with daemon := (dispatchMessage w ⟨messageType, payload, p.requestId⟩ s.daemon).2 },
          left⟩) := by
  simp [daemonRequest, hp.active, hp.daemonChannel, handle, Session.handle]

theorem exec_daemonRequestOk {messageType : MessageType} {payload : List UInt8}
    {f : FakeRootState → FakeRootState} (h : Updates w messageType payload f) :
    ∃ ok, exec (handle w codec) (daemonRequestOk messageType payload) p ⟨s, left⟩ =
      ((ok, p.sent 1), after s left f) := by
  cases left with
  | zero =>
      exact ⟨false, by simp [daemonRequestOk, exec_daemonRequest_broken codec hp, after]⟩
  | succ left =>
      exact ⟨true, by simp [daemonRequestOk, exec_daemonRequest_served codec hp,
        h p.requestId s.daemon, ProtocolMessage.response, after, Session.onDaemon]⟩

include hw

theorem exec_daemonGetInode (key : InodeKey) :
    exec (handle w codec) (daemonGetInode w key) p ⟨s, left⟩ =
      ((if left = 0 then none else s.daemon.state.getInode key, p.sent 1), ⟨s, left - 1⟩) := by
  cases left with
  | zero => simp [daemonGetInode, exec_daemonRequest_broken codec hp]
  | succ left =>
      simp only [daemonGetInode, exec_bind, exec_daemonRequest_served codec hp, dispatchMessage,
        hw.inodeKey]
      cases hget : s.daemon.state.getInode key <;>
        simp [ProtocolMessage.response, hw.inodeStateResult]

theorem exec_daemonGetCurrentUidGid :
    exec (handle w codec) (daemonGetCurrentUidGid w) p ⟨s, left⟩ =
      ((if left = 0 then none
        else some (s.daemon.state.currentUid, s.daemon.state.currentGid), p.sent 1),
        ⟨s, left - 1⟩) := by
  cases left with
  | zero => simp [daemonGetCurrentUidGid, exec_daemonRequest_broken codec hp]
  | succ left =>
      simp [daemonGetCurrentUidGid, exec_daemonRequest_served codec hp, dispatchMessage,
        ProtocolMessage.response, hw.uidGid]

end Requests

/-! ## Metadata -/

def SameIds (s : Session n) (p : Process) : Prop :=
  s.daemon.state.currentUid = p.globalState.currentUid ∧
    s.daemon.state.currentGid = p.globalState.currentGid

/-- What the process reads: the entry of the daemon, while it answers, or its own. -/
def seen (s : BreakingSession n) (p : Process) (key : InodeKey) : Option FakeInode :=
  (if s.left = 0 then none else s.session.daemon.state.getInode key) <|>
    p.globalState.getInode key

section Metadata

variable {w : Wincode} (hw : w.Lawful) (codec : XattrCodec) {p : Process} (hp : p.Connected)
  (s : Session n) (left : ℕ)

include hw hp

theorem exec_getInode (key : InodeKey) :
    exec (handle w codec) (Ownership.getInode w key) p ⟨s, left⟩ =
      ((seen ⟨s, left⟩ p key, p.sent 1), ⟨s, left - 1⟩) := by
  have hget := exec_daemonGetInode hw codec hp s left key
  cases hfound : (if left = 0 then none else s.daemon.state.getInode key) <;>
    simp [Ownership.getInode, hp.shmActive, hp.active, hget, hfound, seen]

theorem exec_currentFakeIds (hids : SameIds s p) :
    exec (handle w codec) (currentFakeUid w) p ⟨s, left⟩ =
        ((p.globalState.currentUid, p.sent 1), ⟨s, left - 1⟩) ∧
      exec (handle w codec) (currentFakeGid w) p ⟨s, left⟩ =
        ((p.globalState.currentGid, p.sent 1), ⟨s, left - 1⟩) := by
  have hget := exec_daemonGetCurrentUidGid hw codec hp s left
  cases left <;>
    simp [currentFakeUid, currentFakeGid, sessionIds, ensureSessionBackingInit,
      hp.libraryInitDone, hp.sessionInit, hp.shmActive, hp.active, hget, hids.1, hids.2]

theorem exec_setInode (key : InodeKey) (inode : FakeInode) :
    exec (handle w codec) (Ownership.setInode w key inode) p ⟨s, left⟩ =
      (((), (p.withGlobalState fun g => g.setInode key inode).sent 1),
        after s left fun d => d.setInode key inode) := by
  obtain ⟨ok, hset⟩ := exec_daemonRequestOk codec
    (hp.withGlobalState fun g => g.setInode key inode) s left (updates_setInode hw key inode)
  simp [Ownership.setInode, daemonSetInode, hp.shmActive, hp.enabled, hset]

theorem exec_removeInode (key : InodeKey) :
    exec (handle w codec) (Ownership.removeInode w key) p ⟨s, left⟩ =
      (((), (p.withGlobalState fun g => (g.removeInode key).2).sent 1),
        after s left fun d => (d.removeInode key).2) := by
  obtain ⟨ok, hremove⟩ := exec_daemonRequestOk codec
    (hp.withGlobalState fun g => (g.removeInode key).2) s left (updates_removeInode hw key)
  simp [Ownership.removeInode, daemonRemoveInode, hp.shmActive, hp.enabled, hremove]

/-- A chown is recorded at the daemon only, whether it answers or not. -/
theorem exec_recordChownKey (hids : SameIds s p) (key : InodeKey) (uid gid : UInt32) :
    exec (handle w codec) (Ownership.recordChownKey w key uid gid) p ⟨s, left⟩ =
      (((), p.sent 3), after s (left - 2) fun d =>
        d.upsertChown key uid gid p.globalState.currentUid p.globalState.currentGid) := by
  obtain ⟨huid, -⟩ := exec_currentFakeIds hw codec hp s left hids
  obtain ⟨-, hgid⟩ := exec_currentFakeIds hw codec (hp.sent 1) s (left - 1) hids
  obtain ⟨ok, hchown⟩ := exec_daemonRequestOk codec ((hp.sent 1).sent 1) s (left - 1 - 1)
    (updates_upsertChown hw key uid gid p.globalState.currentUid p.globalState.currentGid)
  simp only [Nat.sub_sub, Nat.reduceAdd, Process.sent_sent] at hgid hchown
  simp [Ownership.recordChownKey, daemonUpsertChown, huid, hgid, hchown, (hp.sent 2).shmActive,
    (hp.sent 2).active]

/-- The round trips of an update, which asks for the current ids if it sees no entry. -/
def updateTrips (found : Option FakeInode) : ℕ :=
  if found.isSome then 2 else 4

def updateBase (s : BreakingSession n) (p : Process) (key : InodeKey) : FakeInode :=
  (s.seen p key).getD (FakeInode.new p.globalState.currentUid p.globalState.currentGid)

theorem exec_updateInode (hids : SameIds s p) (key : InodeKey) (f : FakeInode → FakeInode) :
    exec (handle w codec) (Ownership.updateInode w key f) p ⟨s, left⟩ =
      (((), (p.withGlobalState fun g =>
          g.setInode key (f (updateBase ⟨s, left⟩ p key))).sent
            (updateTrips (seen ⟨s, left⟩ p key))),
        after s (left - (updateTrips (seen ⟨s, left⟩ p key) - 1)) fun d =>
          d.setInode key (f (updateBase ⟨s, left⟩ p key))) := by
  have hget := exec_getInode hw codec hp s left key
  cases hfound : seen ⟨s, left⟩ p key with
  | some inode =>
      have hset := exec_setInode hw codec (hp.sent 1) s (left - 1) key (f inode)
      rw [hfound] at hget
      simp [Ownership.updateInode, hget, hset, updateTrips, updateBase, hfound]
  | none =>
      obtain ⟨huid, -⟩ := exec_currentFakeIds hw codec (hp.sent 1) s (left - 1) hids
      obtain ⟨-, hgid⟩ := exec_currentFakeIds hw codec ((hp.sent 1).sent 1) s (left - 1 - 1) hids
      have hset := exec_setInode hw codec (((hp.sent 1).sent 1).sent 1) s (left - 1 - 1 - 1) key
        (f (FakeInode.new p.globalState.currentUid p.globalState.currentGid))
      rw [hfound] at hget
      simp only [Nat.sub_sub, Nat.reduceAdd, Process.sent_sent, Process.globalState_sent]
        at huid hgid hset
      simp [Ownership.updateInode, hget, huid, hgid, hset, updateTrips, updateBase, hfound]

end Metadata

end BreakingSession

/-! ## The entries of one process -/

namespace MetadataOp

def key : MetadataOp → InodeKey
  | setInode key _ | updateInode key _ | removeInode key | recordChown key _ _ => key

def result (new : FakeInode) (old : Option FakeInode) : MetadataOp → Option FakeInode
  | setInode _ inode => some inode
  | updateInode _ f => some (f (old.getD new))
  | removeInode _ => none
  | recordChown _ uid gid => some ((old.getD new).mergeChown uid gid)

/-- The operation does not go through the table of the process. -/
def AtDaemon : MetadataOp → Prop
  | recordChown _ _ _ => True
  | _ => False

instance (op : MetadataOp) : Decidable op.AtDaemon := by
  cases op <;> unfold AtDaemon <;> infer_instance

end MetadataOp

/-- A connected process, beside one table that all of its operations are applied to. -/
structure BreakingRun (n : ℕ) where
  link : BreakingSession n
  process : Process
  applied : InodeKey → Option FakeInode

namespace BreakingRun

variable {n : ℕ} [NeZero n] (c : BreakingRun n)

def new : FakeInode :=
  FakeInode.new c.process.globalState.currentUid c.process.globalState.currentGid

def step (w : Wincode) (codec : XattrCodec) (c : BreakingRun n) (op : MetadataOp) :
    BreakingRun n :=
  let after := exec (BreakingSession.handle w codec) (op.hook w) c.process c.link
  { link := after.2
    process := after.1.2
    applied := Function.update c.applied op.key (op.result c.new (c.applied op.key)) }

/-- Every lookup returns what the operations so far make of the inode. -/
def ReadsOwnWrites (w : Wincode) (codec : XattrCodec) : Prop :=
  ∀ key, (exec (BreakingSession.handle w codec) (Ownership.getInode w key) c.process
    c.link).1.1 = c.applied key

def own : InodeKey → Option FakeInode :=
  c.process.globalState.getInode

def atDaemon : InodeKey → Option FakeInode :=
  c.link.session.daemon.state.getInode

def trips : MetadataOp → ℕ
  | .setInode _ _ | .removeInode _ => 1
  | .updateInode key _ => BreakingSession.updateTrips (c.atDaemon key)
  | .recordChown _ _ _ => 3

/-- After the break, the operation is no chown, or one that the table of the process shows
already. Before, the connection serves the operation and one more request, or the two tables
agree on all other inodes and the operation is no chown, or one whose result the table of the
process shows already. -/
def KeepsOwn (op : MetadataOp) : Prop :=
  if c.link.left = 0 then op.AtDaemon → c.own op.key = op.result c.new (c.own op.key)
  else
    c.trips op < c.link.left ∨
      (∀ key, key ≠ op.key → c.own key = c.atDaemon key) ∧
        (op.AtDaemon → c.own op.key = op.result c.new (c.atDaemon op.key))

/-- The process is connected and has the ids of the daemon, and while the daemon answers it
has every entry that the process has. -/
structure Linked : Prop where
  connected : c.process.Connected
  sameIds : BreakingSession.SameIds c.link.session c.process
  covered : c.link.left ≠ 0 → ∀ key, c.atDaemon key = none → c.own key = none

variable {c}

omit [NeZero n] in
theorem trips_pos (op : MetadataOp) : 0 < c.trips op := by
  cases op with
  | setInode key inode => exact Nat.one_pos
  | updateInode key f =>
      simp only [trips, BreakingSession.updateTrips]
      split <;> decide
  | removeInode key => exact Nat.one_pos
  | recordChown key uid gid => exact Nat.succ_pos 2

omit [NeZero n] in
theorem keepsOwn_of_served {op : MetadataOp} (h : c.trips op < c.link.left) : c.KeepsOwn op := by
  rw [KeepsOwn, if_neg (Nat.ne_zero_of_lt h)]
  exact Or.inl h

omit [NeZero n] in
theorem Linked.seen_eq (h : c.Linked) (hleft : c.link.left ≠ 0) (key : InodeKey) :
    c.link.seen c.process key = c.atDaemon key := by
  rw [BreakingSession.seen, if_neg hleft]
  cases hd : c.link.session.daemon.state.getInode key with
  | none => exact (h.covered hleft key hd).trans hd.symm
  | some inode => exact hd.symm

omit [NeZero n] in
theorem seen_of_broken (hleft : c.link.left = 0) (key : InodeKey) :
    c.link.seen c.process key = c.own key := by
  rw [BreakingSession.seen, if_pos hleft]
  rfl

/-- What an operation leaves: a connection with as many round trips less, the new entry in the
table of the process, unless it is a chown, and at the daemon, if all of its requests were
served. -/
structure Records (op : MetadataOp) (c : BreakingRun n) (p' : Process) (s' : BreakingSession n) :
    Prop where
  connected : p'.Connected
  sameIds : BreakingSession.SameIds s'.session p'
  uid_eq : p'.globalState.currentUid = c.process.globalState.currentUid
  gid_eq : p'.globalState.currentGid = c.process.globalState.currentGid
  left_eq : s'.left = c.link.left - c.trips op
  own_eq : p'.globalState.getInode =
    if op.AtDaemon then c.own
    else Function.update c.own op.key (op.result c.new (c.link.seen c.process op.key))
  daemon_eq : c.trips op ≤ c.link.left → s'.session.daemon.state.getInode =
    Function.update c.atDaemon op.key (op.result c.new (c.link.seen c.process op.key))

omit [NeZero n] in
theorem Records.of_after {s : Session n} {left k : ℕ} {p : Process}
    {applied : InodeKey → Option FakeInode} (op : MetadataOp)
    {own daemon : FakeRootState → FakeRootState} (hc : Linked ⟨⟨s, left⟩, p, applied⟩)
    (hk : left ≠ 0 → trips ⟨⟨s, left⟩, p, applied⟩ op = k) (hpos : 0 < k)
    (hownIds : (own p.globalState).currentUid = p.globalState.currentUid ∧
      (own p.globalState).currentGid = p.globalState.currentGid)
    (hdaemonIds : (daemon s.daemon.state).currentUid = s.daemon.state.currentUid ∧
      (daemon s.daemon.state).currentGid = s.daemon.state.currentGid)
    (hown : (own p.globalState).getInode =
      if op.AtDaemon then p.globalState.getInode
      else Function.update p.globalState.getInode op.key
        (op.result (new ⟨⟨s, left⟩, p, applied⟩) (BreakingSession.seen ⟨s, left⟩ p op.key)))
    (hdaemon : left ≠ 0 → (daemon s.daemon.state).getInode =
      Function.update s.daemon.state.getInode op.key
        (op.result (new ⟨⟨s, left⟩, p, applied⟩) (BreakingSession.seen ⟨s, left⟩ p op.key))) :
    Records op ⟨⟨s, left⟩, p, applied⟩ ((p.withGlobalState own).sent k)
      (BreakingSession.after s (left - (k - 1)) daemon) where
  connected := (hc.connected.withGlobalState own).sent k
  sameIds := by
    obtain ⟨huid, hgid⟩ := hc.sameIds
    unfold BreakingSession.after
    dsimp only
    split
    · exact ⟨huid.trans hownIds.1.symm, hgid.trans hownIds.2.symm⟩
    · exact ⟨hdaemonIds.1.trans (huid.trans hownIds.1.symm),
        hdaemonIds.2.trans (hgid.trans hownIds.2.symm)⟩
  uid_eq := hownIds.1
  gid_eq := hownIds.2
  left_eq := by
    simp only [BreakingSession.after]
    by_cases hleft : left = 0
    · omega
    · rw [hk hleft]
      omega
  own_eq := hown
  daemon_eq := by
    intro htrips
    have hleft : left ≠ 0 := (lt_of_lt_of_le (trips_pos op) htrips).ne'
    rw [hk hleft] at htrips
    have hserved : left - (k - 1) ≠ 0 := by
      simp only at htrips
      omega
    unfold BreakingSession.after
    rw [if_neg hserved]
    exact hdaemon hleft

theorem Linked.exec_op {w : Wincode} (hw : w.Lawful) (codec : XattrCodec) (hc : c.Linked)
    (op : MetadataOp) :
    ∃ p' s', exec (BreakingSession.handle w codec) (op.hook w) c.process c.link =
        (((), p'), s') ∧ Records op c p' s' := by
  have hlinked := hc
  obtain ⟨⟨s, left⟩, p, applied⟩ := c
  have hp : p.Connected := hc.connected
  have hids : BreakingSession.SameIds s p := hc.sameIds
  cases op with
  | setInode key inode =>
      exact ⟨_, _, BreakingSession.exec_setInode hw codec hp s left key inode,
        .of_after _ hc (fun _ => rfl) Nat.one_pos ⟨rfl, rfl⟩ ⟨rfl, rfl⟩ rfl fun _ => rfl⟩
  | updateInode key f =>
      refine ⟨_, _, BreakingSession.exec_updateInode hw codec hp s left hids key f,
        .of_after _ hc (fun hleft => ?_) ?_ ⟨rfl, rfl⟩ ⟨rfl, rfl⟩ rfl fun _ => rfl⟩
      · exact congrArg BreakingSession.updateTrips (hlinked.seen_eq hleft key).symm
      · unfold BreakingSession.updateTrips
        split <;> decide
  | removeInode key =>
      exact ⟨_, _, BreakingSession.exec_removeInode hw codec hp s left key,
        .of_after _ hc (fun _ => rfl) Nat.one_pos ⟨rfl, rfl⟩ ⟨rfl, rfl⟩ rfl fun _ => rfl⟩
  | recordChown key uid gid =>
      have hsame : (id p.globalState).currentUid = p.globalState.currentUid ∧
          (id p.globalState).currentGid = p.globalState.currentGid := ⟨rfl, rfl⟩
      refine ⟨_, _, BreakingSession.exec_recordChownKey hw codec hp s left hids key uid gid,
        .of_after (.recordChown key uid gid) hc (fun _ => rfl) (Nat.succ_pos 2) hsame ⟨rfl, rfl⟩ rfl
          fun hleft => ?_⟩
      have hseen := hlinked.seen_eq hleft key
      rw [FakeRootState.getInode_upsertChown_eq]
      simp only [MetadataOp.result, MetadataOp.key, new]
      rw [hseen]
      rfl

omit [NeZero n] in
theorem Records.own_none {op : MetadataOp} {p' : Process} {s' : BreakingSession n}
    (h : Records op c p' s') (hserved : c.trips op ≤ c.link.left)
    (hcovered : ∀ key, c.atDaemon key = none → c.own key = none) {key : InodeKey}
    (hnone : s'.session.daemon.state.getInode key = none) : p'.globalState.getInode key = none := by
  rw [h.daemon_eq hserved] at hnone
  rw [h.own_eq]
  by_cases hkey : key = op.key
  · subst hkey
    rw [Function.update_self] at hnone
    cases op with
    | recordChown key uid gid => cases hnone
    | setInode key inode => cases hnone
    | updateInode key f => cases hnone
    | removeInode key => exact Function.update_self ..
  · rw [Function.update_of_ne hkey] at hnone
    split
    · exact hcovered key hnone
    · rw [Function.update_of_ne hkey]
      exact hcovered key hnone

theorem forall_own_iff {K V : Type} [DecidableEq K] (own seen : K → V) (key : K) (value : V)
    (atDaemon : Prop) [Decidable atDaemon] :
    (∀ k, (if atDaemon then own else Function.update own key value) k =
        Function.update seen key value k) ↔
      (∀ k, k ≠ key → own k = seen k) ∧ (atDaemon → own key = value) := by
  constructor
  · intro h
    refine ⟨fun k hk => ?_, fun hat => ?_⟩
    · have hkey := h k
      rw [Function.update_of_ne hk] at hkey
      rw [← hkey]
      split
      · rfl
      · rw [Function.update_of_ne hk]
    · have hkey := h key
      rwa [if_pos hat, Function.update_self] at hkey
  · rintro ⟨hothers, hself⟩ k
    by_cases hk : k = key
    · subst hk
      rw [Function.update_self]
      split
      · exact hself ‹_›
      · exact Function.update_self ..
    · rw [Function.update_of_ne hk]
      split
      · exact hothers k hk
      · rw [Function.update_of_ne hk]
        exact hothers k hk

section Steps

variable {w : Wincode} (hw : w.Lawful) (codec : XattrCodec)

include hw

theorem Linked.readsOwnWrites_iff (hc : c.Linked) :
    c.ReadsOwnWrites w codec ↔ ∀ key, c.link.seen c.process key = c.applied key := by
  refine forall_congr' fun key => ?_
  obtain ⟨⟨s, left⟩, p, applied⟩ := c
  rw [BreakingSession.exec_getInode hw codec hc.connected]

/-- An operation that is served leaves both tables as they are for all other inodes. -/
theorem Linked.step_others (hc : c.Linked) (op : MetadataOp) (hserved : c.trips op ≤ c.link.left)
    {key : InodeKey} (hkey : key ≠ op.key) :
    (BreakingRun.step w codec c op).own key = c.own key ∧
      (BreakingRun.step w codec c op).atDaemon key = c.atDaemon key := by
  obtain ⟨p', s', hexec, hrec⟩ := hc.exec_op hw codec op
  simp only [BreakingRun.step, hexec, own, atDaemon, hrec.own_eq, hrec.daemon_eq hserved]
  refine ⟨?_, Function.update_of_ne hkey ..⟩
  split
  · rfl
  · exact Function.update_of_ne hkey ..

theorem Linked.step (hc : c.Linked) (op : MetadataOp) : (step w codec c op).Linked := by
  obtain ⟨p', s', hexec, hrec⟩ := hc.exec_op hw codec op
  simp only [BreakingRun.step, hexec]
  refine ⟨hrec.connected, hrec.sameIds, fun hleft key hnone => ?_⟩
  have hleft' : c.link.left - c.trips op ≠ 0 := by rwa [← hrec.left_eq]
  exact hrec.own_none (by omega) (hc.covered (by omega)) hnone

theorem readsOwnWrites_step_iff (hc : c.Linked) (hreads : c.ReadsOwnWrites w codec)
    (op : MetadataOp) : (step w codec c op).ReadsOwnWrites w codec ↔ c.KeepsOwn op := by
  rw [hc.readsOwnWrites_iff hw] at hreads
  rw [(hc.step hw codec op).readsOwnWrites_iff hw]
  obtain ⟨p', s', hexec, hrec⟩ := hc.exec_op hw codec op
  have happlied : c.applied = c.link.seen c.process := funext fun key => (hreads key).symm
  simp only [BreakingRun.step, hexec, happlied]
  by_cases hserved : c.trips op < c.link.left
  · have hne : c.link.left ≠ 0 := by omega
    have hne' : s'.left ≠ 0 := by
      rw [hrec.left_eq]
      omega
    have hlinked := hc.step hw codec op
    simp only [BreakingRun.step, hexec] at hlinked
    refine iff_of_true (fun key => ?_) (keepsOwn_of_served hserved)
    rw [hlinked.seen_eq hne' key, atDaemon, hrec.daemon_eq hserved.le, ← funext (hc.seen_eq hne)]
  · have hbroken : s'.left = 0 := by
      rw [hrec.left_eq]
      omega
    have hseen : ∀ key, s'.seen p' key = p'.globalState.getInode key := fun key =>
      seen_of_broken (c := ⟨s', p', c.applied⟩) hbroken key
    simp only [hseen, hrec.own_eq]
    refine (forall_own_iff ..).trans ?_
    by_cases hleft : c.link.left = 0
    · simp [KeepsOwn, hleft, seen_of_broken hleft]
    · simp [KeepsOwn, hleft, hserved, hc.seen_eq hleft]

end Steps

/-- A process that has connected to a daemon, where nothing is recorded yet. -/
structure Begins (c : BreakingRun n) : Prop where
  connected : c.process.Connected
  sameIds : BreakingSession.SameIds c.link.session c.process
  daemon_empty : ∀ key, c.link.session.daemon.state.getInode key = none
  own_empty : ∀ key, c.process.globalState.getInode key = none
  applied_empty : ∀ key, c.applied key = none

omit [NeZero n] in
theorem Begins.linked (hc : c.Begins) : c.Linked :=
  ⟨hc.connected, hc.sameIds, fun _ key _ => hc.own_empty key⟩

/-- A process that is alone with its daemon reads its own writes after every operation exactly
when, in every operation that the connection does not outlive, it has all other entries
itself, and the operation is no chown that changes what it has itself. -/
theorem readsOwnWrites_iff_keepsOwn {w : Wincode} (hw : w.Lawful) (codec : XattrCodec)
    (c : BreakingRun n) (hc : c.Begins) (ops : List MetadataOp) :
    (∀ k ≤ ops.length, (Machine.run (step w codec) c (ops.take k)).ReadsOwnWrites w codec) ↔
      ∀ k (hk : k < ops.length), (Machine.run (step w codec) c (ops.take k)).KeepsOwn ops[k] := by
  have hlinked := hc.linked
  have hreads : c.ReadsOwnWrites w codec := by
    rw [hlinked.readsOwnWrites_iff hw]
    intro key
    rw [BreakingSession.seen, hc.daemon_empty, hc.own_empty, hc.applied_empty, ite_self]
    rfl
  exact Machine.forall_good_iff_forall_guard (I := fun c : BreakingRun n => c.Linked)
    (G := fun c => c.ReadsOwnWrites w codec) (fun _ op hc => hc.step hw codec op)
    (fun _ op hc hreads => readsOwnWrites_step_iff hw codec hc hreads op) hlinked hreads ops

/-- A process right after its initialization, on a daemon that answers `left` requests more. -/
def initial (uid gid : UInt32) (left : ℕ) : BreakingRun 1 where
  link := ⟨Session.start 1 uid gid, left⟩
  process := (Process.constructed .daemon uid gid).finished.attachedDaemon
  applied := fun _ => none

theorem begins_initial (uid gid : UInt32) (left : ℕ) : (initial uid gid left).Begins :=
  ⟨(Process.fresh_constructed .daemon uid gid).connected_attachedDaemon, ⟨rfl, rfl⟩,
    fun _ => rfl, fun _ => rfl, fun _ => rfl⟩

/-- A file is chowned and then chmodded. -/
def recorded : List MetadataOp :=
  [.recordChown (1, 2) 200 200, .chmod (1, 2) 0o100644 0o600]

/-- With six requests answered, the two have taken five. -/
theorem own_recorded {key : InodeKey} (hkey : key ≠ (1, 2)) :
    let c := Machine.run (step Wincode.bincode XattrCodec.wincode) (initial 0 0 6) recorded
    c.own key = c.atDaemon key := by
  have hlinked := (begins_initial 0 0 6).linked
  have hlinked' :=
    hlinked.step Wincode.bincode_lawful XattrCodec.wincode (.recordChown (1, 2) 200 200)
  obtain ⟨hown, hdaemon⟩ := hlinked.step_others Wincode.bincode_lawful XattrCodec.wincode
    (.recordChown (1, 2) 200 200) (by decide +kernel) hkey
  obtain ⟨hown', hdaemon'⟩ := hlinked'.step_others Wincode.bincode_lawful XattrCodec.wincode
    (.chmod (1, 2) 0o100644 0o600) (by decide +kernel) hkey
  exact (hown'.trans hown).trans (hdaemon'.trans hdaemon).symm

/-- The connection breaks inside the operation that comes next. -/
theorem readsOwnWrites_iff_keepsOwn_break :
    let ops : List MetadataOp := [.recordChown (1, 2) 200 200, .chmod (1, 2) 0o100644 0o600,
      .setxattr (1, 2) "user.a" [1], .removeInode (1, 2)]
    let run := fun k =>
      Machine.run (step Wincode.bincode XattrCodec.wincode) (initial 0 0 6) (ops.take k)
    (run 2).link.left = 1 ∧ (run 3).link.left = 0 ∧
      ∀ k ≤ ops.length, (run k).ReadsOwnWrites Wincode.bincode XattrCodec.wincode := by
  intro ops run
  refine ⟨by decide +kernel, by decide +kernel, ?_⟩
  refine (readsOwnWrites_iff_keepsOwn Wincode.bincode_lawful XattrCodec.wincode (initial 0 0 6)
    (begins_initial 0 0 6) ops).mpr fun k hk => ?_
  rcases k with _ | _ | _ | _ | k
  · show (initial 0 0 6).KeepsOwn (.recordChown (1, 2) 200 200)
    exact keepsOwn_of_served (by decide +kernel)
  · show (step _ _ (initial 0 0 6) (.recordChown (1, 2) 200 200)).KeepsOwn
      (.chmod (1, 2) 0o100644 0o600)
    exact keepsOwn_of_served (by decide +kernel)
  · show (Machine.run (step _ _) (initial 0 0 6) recorded).KeepsOwn
      (.setxattr (1, 2) "user.a" [1])
    rw [KeepsOwn, if_neg (by decide +kernel)]
    exact Or.inr ⟨fun key hkey => own_recorded hkey, fun h => False.elim h⟩
  · show (step _ _ (Machine.run (step _ _) (initial 0 0 6) recorded)
      (.setxattr (1, 2) "user.a" [1])).KeepsOwn (.removeInode (1, 2))
    rw [KeepsOwn, if_pos (by decide +kernel)]
    exact fun h => False.elim h
  · exact absurd hk (by simp [ops])

/-- The connection breaks right after a chown. The process has lost it. -/
theorem chown_lost_after_break :
    let c := Machine.run (step Wincode.bincode XattrCodec.wincode) (initial 0 0 3)
      [.recordChown (1, 2) 200 200]
    c.applied (1, 2) = some (FakeInode.new 200 200) ∧
      (exec (BreakingSession.handle Wincode.bincode XattrCodec.wincode)
        (Ownership.getInode Wincode.bincode (1, 2)) c.process c.link).1.1 = none := by
  decide +kernel

end BreakingRun

end Pseudoroot
