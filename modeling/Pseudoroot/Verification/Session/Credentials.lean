import Pseudoroot.Library.Runs
import Pseudoroot.Model.Wincode
import Pseudoroot.Verification.Session.Startup

/-! # The current ids of a session -/

namespace Pseudoroot

open Calls Calls.Program

/-- The ids of the session after a process started with `boot` has attached to it. -/
def Backing.idsAttached (ids boot : UInt32 × UInt32) : Backing → UInt32 × UInt32
  | .shm => ids
  | .daemon => boot

def Process.withIds (p : Process) (uid gid : UInt32) : Process :=
  { p with
    bootUid := uid
    bootGid := gid
    globalState := p.globalState.setCurrent uid gid }

theorem Process.Ready.withIds {b : Backing} {p : Process} (h : p.Ready b) (uid gid : UInt32) :
    (p.withIds uid gid).Ready b :=
  h.of_eq rfl

theorem Process.Ready.sent {b : Backing} {p : Process} (h : p.Ready b) (k : ℕ) :
    (p.sent k).Ready b :=
  h.of_eq rfl

/-- The process is ready and holds the ids `own` itself; the session has `ids`, and the slots and
pages that it had in `s`. -/
structure Joins {n : ℕ} (b : Backing) (s : Session n) (own ids : UInt32 × UInt32) (p' : Process)
    (s' : Session n) : Prop where
  ready : p'.Ready b
  own_eq : (p'.globalState.currentUid, p'.globalState.currentGid) = own
  ids_eq : s'.ids b = ids
  slot_eq : s'.shm.slot = s.shm.slot
  xattrPage_eq : s'.shm.xattrPage = s.shm.xattrPage

theorem Joins.trans {n : ℕ} {b : Backing} {s s₁ s' : Session n}
    {own₁ ids₁ own ids : UInt32 × UInt32} {p₁ p' : Process} (h₁ : Joins b s own₁ ids₁ p₁ s₁)
    (h : Joins b s₁ own ids p' s') : Joins b s own ids p' s' :=
  ⟨h.ready, h.own_eq, h.ids_eq, h.slot_eq.trans h₁.slot_eq,
    h.xattrPage_eq.trans h₁.xattrPage_eq⟩

/-! ## Hooks of fresh and ready processes -/

section Exec

variable {n : ℕ} [NeZero n] {w : Wincode} (hw : w.Lawful) (codec : XattrCodec) {b : Backing}

include hw

theorem exec_ensureLibraryInit {p : Process} (hp : p.Fresh b) (s : Session n) :
    ∃ p' s', exec (Session.handle w codec) (ensureLibraryInit w) p s = (((), p'), s') ∧
      Joins b s (p.bootUid, p.bootGid) (b.idsAttached (s.ids b) (p.bootUid, p.bootGid)) p' s' := by
  cases b with
  | shm =>
      exact ⟨p.finished.attachedShm, s, exec_ensureLibraryInit_shm codec hp s,
        ⟨⟨rfl, rfl, rfl⟩, rfl, rfl, rfl, rfl⟩⟩
  | daemon =>
      exact ⟨p.finished.attachedDaemon, s.onDaemon fun d => d.setCurrent p.bootUid p.bootGid,
        exec_ensureLibraryInit_daemon codec hw hp s,
        ⟨hp.connected_attachedDaemon, rfl, rfl, rfl, rfl⟩⟩

theorem exec_sessionIds {p : Process} (hp : p.Ready b) (s : Session n) :
    ∃ p', exec (Session.handle w codec) (sessionIds w) p s = ((s.ids b, p'), s) ∧ p'.Ready b := by
  cases b with
  | shm =>
      have hready := hp
      obtain ⟨-, hinit, hactive⟩ := hp
      refine ⟨p, ?_, hready⟩
      simp [sessionIds, ensureSessionBackingInit, hinit, hactive, Session.handle, Session.ids]
  | daemon =>
      have hc : p.Connected := hp
      refine ⟨p.sent 1, ?_, hp.sent 1⟩
      simp [sessionIds, ensureSessionBackingInit, hc.sessionInit, hc.shmActive, hc.active,
        exec_daemonGetCurrentUidGid hw codec hc, Session.ids]

theorem exec_getuid_of_ready {p : Process} (hp : p.Ready b) (s : Session n) :
    ∃ p', exec (Session.handle w codec) (getuid w) p s = (((s.ids b).1, p'), s) ∧ p'.Ready b := by
  obtain ⟨p', hexec, hready⟩ := exec_sessionIds hw codec hp s
  exact ⟨p', by simp [getuid, currentFakeUid, hp.libraryInitDone, hexec], hready⟩

theorem exec_getgid_of_ready {p : Process} (hp : p.Ready b) (s : Session n) :
    ∃ p', exec (Session.handle w codec) (getgid w) p s = (((s.ids b).2, p'), s) ∧ p'.Ready b := by
  obtain ⟨p', hexec, hready⟩ := exec_sessionIds hw codec hp s
  exact ⟨p', by simp [getgid, currentFakeGid, hp.libraryInitDone, hexec], hready⟩

omit hw in
theorem exec_getuid_of_fresh {p : Process} (hp : p.Fresh b) (s : Session n) :
    exec (Session.handle w codec) (getuid w) p s = ((p.bootUid, p), s) := by
  simp [getuid, currentFakeUid, hp.libraryInitDone]

omit hw in
theorem exec_getgid_of_fresh {p : Process} (hp : p.Fresh b) (s : Session n) :
    exec (Session.handle w codec) (getgid w) p s = ((p.bootGid, p), s) := by
  simp [getgid, currentFakeGid, hp.libraryInitDone]

theorem exec_setCurrentIds_of_ready {p : Process} (hp : p.Ready b) (s : Session n)
    (uid gid : UInt32) :
    ∃ p' s', exec (Session.handle w codec) (setCurrentIds w uid gid) p s = (((), p'), s') ∧
      Joins b s (uid, gid) (uid, gid) p' s' := by
  have hinit := exec_ensureLibraryInit_of_ready (w := w) codec hp s
  have hready := hp.withIds uid gid
  have hids : Process.withGlobalState { p with bootUid := uid, bootGid := gid }
      (fun state => state.setCurrent uid gid) = p.withIds uid gid := rfl
  have hown : ((p.withIds uid gid).globalState.currentUid,
      (p.withIds uid gid).globalState.currentGid) = (uid, gid) := rfl
  simp only [setCurrentIds, exec_bind, hinit, exec_modify, exec_globalStateWrite, exec_get, hids]
  generalize p.withIds uid gid = q at hready hown ⊢
  cases b with
  | shm =>
      have hactive : q.shmActive = true := hready.2.2
      refine ⟨q, { s with shm := s.shm.setCurrent uid gid }, ?_, ⟨hready, hown, rfl, rfl, rfl⟩⟩
      simp [hactive, Session.handle]
  | daemon =>
      have hc : q.Connected := hready
      refine ⟨q.sent 1, s.onDaemon fun d => d.setCurrent uid gid, ?_,
        ⟨hready.sent 1, hown, rfl, rfl, rfl⟩⟩
      simp [hc.shmActive, hc.enabled, exec_daemonSetCurrentUidGid hw codec hc]

theorem exec_setCurrentIds_of_fresh {p : Process} (hp : p.Fresh b) (s : Session n)
    (uid gid : UInt32) :
    ∃ p' s', exec (Session.handle w codec) (setCurrentIds w uid gid) p s = (((), p'), s') ∧
      Joins b s (uid, gid) (uid, gid) p' s' := by
  obtain ⟨p₁, s₁, hinit, hjoins⟩ := exec_ensureLibraryInit hw codec hp s
  obtain ⟨p', s', hset, hafter⟩ := exec_setCurrentIds_of_ready hw codec hjoins.ready s₁ uid gid
  refine ⟨p', s', ?_, hjoins.trans hafter⟩
  have hagain := exec_ensureLibraryInit_of_ready (w := w) codec hjoins.ready s₁
  rw [← hset]
  simp only [setCurrentIds, exec_bind, hinit, hagain]

theorem exec_getInode_of_ready {p : Process} (hp : p.Ready b) (s : Session n) (key : InodeKey) :
    ∃ found p', exec (Session.handle w codec) (Ownership.getInode w key) p s =
        ((found, p'), s) ∧ p'.Ready b := by
  cases b with
  | shm =>
      have hactive : p.shmActive = true := hp.2.2
      refine ⟨s.shm.getInode codec key, p, ?_, hp⟩
      simp [Ownership.getInode, hactive, Session.handle]
  | daemon => exact ⟨_, _, exec_getInode hw codec hp s key, hp.sent 1⟩

theorem exec_modifyStatBuf_of_ready {p : Process} (hp : p.Ready b) (s : Session n) (st : Stat) :
    ∃ st' p', exec (Session.handle w codec) (modifyStatBuf w st) p s = ((st', p'), s) ∧
      p'.Ready b := by
  have hinit := exec_ensureLibraryInit_of_ready (w := w) codec hp s
  obtain ⟨found, p', hget, hready⟩ := exec_getInode_of_ready hw codec hp s (keyFromStat st)
  cases found with
  | some inode =>
      refine ⟨patchInodeFields st inode, p', ?_, hready⟩
      simp [modifyStatBuf, hinit, hp.libraryInitDone, hget]
  | none =>
      refine ⟨{ st with uid := p'.globalState.currentUid, gid := p'.globalState.currentGid }, p',
        ?_, hready⟩
      simp [modifyStatBuf, hinit, hp.libraryInitDone, hget, applyDefaultOwnership]

theorem exec_modifyStatBuf_of_fresh {p : Process} (hp : p.Fresh b) (s : Session n) (st : Stat) :
    ∃ st' p' s', exec (Session.handle w codec) (modifyStatBuf w st) p s = ((st', p'), s') ∧
      p'.Ready b ∧ s'.ids b = b.idsAttached (s.ids b) (p.bootUid, p.bootGid) := by
  obtain ⟨p₁, s₁, hinit, hjoins⟩ := exec_ensureLibraryInit hw codec hp s
  obtain ⟨st', p', hstat, hready⟩ := exec_modifyStatBuf_of_ready hw codec hjoins.ready s₁ st
  refine ⟨st', p', s₁, ?_, hready, hjoins.ids_eq⟩
  have hagain := exec_ensureLibraryInit_of_ready (w := w) codec hjoins.ready s₁
  rw [← hstat]
  simp only [modifyStatBuf, exec_bind, hinit, hagain]

end Exec

/-! ## The credentials of a session over a run -/

/-- The hooks that read or set the credentials, or attach a process to the session. -/
inductive CredentialHook where
  | setuid (uid : UInt32)
  | setgid (gid : UInt32)
  | getuid
  | getgid
  | stat (st : Stat)

namespace CredentialHook

def run (w : Wincode) : CredentialHook → Hook (Option UInt32)
  | setuid uid => do
      Pseudoroot.setuid w uid
      pure none
  | setgid gid => do
      Pseudoroot.setgid w gid
      pure none
  | getuid => do
      let uid ← Pseudoroot.getuid w
      pure (some uid)
  | getgid => do
      let gid ← Pseudoroot.getgid w
      pure (some gid)
  | stat st => do
      let _ ← modifyStatBuf w st
      pure none

/-- What the hook returns and leaves where one pair of ids is all there is. -/
def spec (ids : UInt32 × UInt32) : CredentialHook → Option UInt32 × (UInt32 × UInt32)
  | setuid uid => (none, (uid, ids.2))
  | setgid gid => (none, (ids.1, gid))
  | getuid => (some ids.1, ids)
  | getgid => (some ids.2, ids)
  | stat _ => (none, ids)

/-- The ids of the session after a hook that is the first of its process. -/
def idsAfterFirst (b : Backing) (ids boot : UInt32 × UInt32) : CredentialHook → UInt32 × UInt32
  | getuid | getgid => ids
  | stat _ => b.idsAttached ids boot
  | setuid uid => (uid, boot.2)
  | setgid gid => (boot.1, gid)

/-- The current ids agree with those at the start on what the hook depends on when it is
the first of its process. -/
def AgreeOn (b : Backing) (ids boot : UInt32 × UInt32) : CredentialHook → Prop
  | setuid _ | getgid => ids.2 = boot.2
  | setgid _ | getuid => ids.1 = boot.1
  | stat _ => b.idsAttached ids boot = ids

theorem agreeOn_iff (b : Backing) (ids boot : UInt32 × UInt32) (hook : CredentialHook) :
    (hook.spec boot).1 = (hook.spec ids).1 ∧ hook.idsAfterFirst b ids boot = (hook.spec ids).2 ↔
      hook.AgreeOn b ids boot := by
  cases hook <;> simp [spec, idsAfterFirst, AgreeOn, eq_comm]

section Exec

variable {n : ℕ} [NeZero n] {w : Wincode} (hw : w.Lawful) (codec : XattrCodec) {b : Backing}

include hw

theorem exec_run_of_ready {p : Process} (hp : p.Ready b) (s : Session n) (hook : CredentialHook) :
    ∃ p' s', exec (Session.handle w codec) (hook.run w) p s =
        (((hook.spec (s.ids b)).1, p'), s') ∧
      p'.Ready b ∧ s'.ids b = (hook.spec (s.ids b)).2 := by
  cases hook with
  | setuid uid =>
      obtain ⟨p₁, hget, hready⟩ := exec_getgid_of_ready hw codec hp s
      obtain ⟨p', s', hset, hafter⟩ :=
        exec_setCurrentIds_of_ready hw codec hready s uid (s.ids b).2
      exact ⟨p', s', by simp [run, Pseudoroot.setuid, hget, hset, spec], hafter.ready,
        hafter.ids_eq⟩
  | setgid gid =>
      obtain ⟨p₁, hget, hready⟩ := exec_getuid_of_ready hw codec hp s
      obtain ⟨p', s', hset, hafter⟩ :=
        exec_setCurrentIds_of_ready hw codec hready s (s.ids b).1 gid
      exact ⟨p', s', by simp [run, Pseudoroot.setgid, hget, hset, spec], hafter.ready,
        hafter.ids_eq⟩
  | getuid =>
      obtain ⟨p', hget, hready⟩ := exec_getuid_of_ready hw codec hp s
      exact ⟨p', s, by simp [run, hget, spec], hready, rfl⟩
  | getgid =>
      obtain ⟨p', hget, hready⟩ := exec_getgid_of_ready hw codec hp s
      exact ⟨p', s, by simp [run, hget, spec], hready, rfl⟩
  | stat st =>
      obtain ⟨st', p', hstat, hready⟩ := exec_modifyStatBuf_of_ready hw codec hp s st
      exact ⟨p', s, by simp [run, hstat, spec], hready, rfl⟩

theorem exec_run_of_fresh {p : Process} (hp : p.Fresh b) (s : Session n) (hook : CredentialHook) :
    ∃ p' s', exec (Session.handle w codec) (hook.run w) p s =
        (((hook.spec (p.bootUid, p.bootGid)).1, p'), s') ∧
      (p' = p ∨ p'.Ready b) ∧
      s'.ids b = hook.idsAfterFirst b (s.ids b) (p.bootUid, p.bootGid) := by
  cases hook with
  | setuid uid =>
      obtain ⟨p', s', hset, hafter⟩ :=
        exec_setCurrentIds_of_fresh hw codec hp s uid p.bootGid
      refine ⟨p', s', ?_, Or.inr hafter.ready, hafter.ids_eq⟩
      simp [run, Pseudoroot.setuid, exec_getgid_of_fresh codec hp, hset, spec]
  | setgid gid =>
      obtain ⟨p', s', hset, hafter⟩ :=
        exec_setCurrentIds_of_fresh hw codec hp s p.bootUid gid
      refine ⟨p', s', ?_, Or.inr hafter.ready, hafter.ids_eq⟩
      simp [run, Pseudoroot.setgid, exec_getuid_of_fresh codec hp, hset, spec]
  | getuid =>
      refine ⟨p, s, ?_, Or.inl rfl, rfl⟩
      simp [run, exec_getuid_of_fresh codec hp, spec]
  | getgid =>
      refine ⟨p, s, ?_, Or.inl rfl, rfl⟩
      simp [run, exec_getgid_of_fresh codec hp, spec]
  | stat st =>
      obtain ⟨st', p', s', hstat, hready, hids⟩ := exec_modifyStatBuf_of_fresh hw codec hp s st
      exact ⟨p', s', by simp [run, hstat, spec], Or.inr hready, hids⟩

end Exec

end CredentialHook

inductive SessionEvent (ι : Type) where
  /-- A process starts with the initial ids in its environment and runs its constructor. -/
  | start (i : ι)
  /-- A running process calls a hook. -/
  | call (i : ι) (hook : CredentialHook)

/-- A session with its processes, beside one pair of ids that every hook acts on. -/
structure CredentialRun (ι : Type) (n : ℕ) where
  session : Session n
  process : ι → Option Process
  ids : UInt32 × UInt32
  /-- Each reply of a hook with the one that `ids` give. -/
  replies : List (Option UInt32 × Option UInt32)

namespace CredentialRun

variable {ι : Type} [DecidableEq ι] {n : ℕ} [NeZero n]

def initial (boot : UInt32 × UInt32) : CredentialRun ι n where
  session := Session.start n boot.1 boot.2
  process := fun _ => none
  ids := boot
  replies := []

def step (b : Backing) (w : Wincode) (codec : XattrCodec) (boot : UInt32 × UInt32)
    (c : CredentialRun ι n) : SessionEvent ι → CredentialRun ι n
  | .start i =>
      { c with process := Function.update c.process i (Process.constructed b boot.1 boot.2) }
  | .call i hook =>
      match c.process i with
      | none => c
      | some p =>
          let ((reply, p), session) := exec (Session.handle w codec) (hook.run w) p c.session
          { session := session
            process := Function.update c.process i (some p)
            ids := (hook.spec c.ids).2
            replies := (reply, (hook.spec c.ids).1) :: c.replies }

/-- Every reply was that of the one pair of ids, and the session holds that pair. -/
def Shared (b : Backing) (c : CredentialRun ι n) : Prop :=
  (∀ r ∈ c.replies, r.1 = r.2) ∧ c.session.ids b = c.ids

/-- A hook is called by an initialized process, or finds the ids it depends on unchanged
since the start of the session. -/
def MeetsCurrent (b : Backing) (boot : UInt32 × UInt32) (c : CredentialRun ι n) :
    SessionEvent ι → Prop
  | .start _ => True
  | .call i hook => ∀ p ∈ c.process i, p.libraryInitDone = true ∨ hook.AgreeOn b c.ids boot

def Staged (b : Backing) (boot : UInt32 × UInt32) (c : CredentialRun ι n) : Prop :=
  ∀ i, ∀ p ∈ c.process i, p.Ready b ∨ p.Fresh b ∧ (p.bootUid, p.bootGid) = boot

omit [NeZero n] in
theorem Staged.update {b : Backing} {boot : UInt32 × UInt32} {c : CredentialRun ι n}
    (hc : c.Staged b boot) {c' : CredentialRun ι n} {i : ι} {p : Process}
    (hprocess : c'.process = Function.update c.process i (some p))
    (hp : p.Ready b ∨ p.Fresh b ∧ (p.bootUid, p.bootGid) = boot) : c'.Staged b boot := by
  intro j q hq
  rw [hprocess] at hq
  by_cases hj : j = i
  · subst hj
    rw [Function.update_self, Option.mem_some_iff] at hq
    exact hq ▸ hp
  · rw [Function.update_of_ne hj] at hq
    exact hc j q hq

section Steps

variable {b : Backing} {w : Wincode} (codec : XattrCodec) {boot : UInt32 × UInt32}
  (hw : w.Lawful) {c : CredentialRun ι n}

theorem step_call_of_exec {i : ι} {hook : CredentialHook} {p p' : Process} {reply : Option UInt32}
    {session : Session n} (hi : c.process i = some p)
    (hexec : exec (Session.handle w codec) (hook.run w) p c.session = ((reply, p'), session)) :
    step b w codec boot c (.call i hook) =
      { session := session
        process := Function.update c.process i (some p')
        ids := (hook.spec c.ids).2
        replies := (reply, (hook.spec c.ids).1) :: c.replies } := by
  simp [step, hi, hexec]

include hw in
theorem Staged.step (hc : c.Staged b boot) (e : SessionEvent ι) :
    (step b w codec boot c e).Staged b boot := by
  cases e with
  | start i =>
      exact hc.update rfl (Or.inr ⟨Process.fresh_constructed b boot.1 boot.2, rfl⟩)
  | call i hook =>
      cases hi : c.process i with
      | none => simpa [CredentialRun.step, hi] using hc
      | some p =>
          rcases hc i p hi with hready | ⟨hfresh, hboot⟩
          · obtain ⟨p', s', hexec, hp', -⟩ := hook.exec_run_of_ready hw codec hready c.session
            rw [step_call_of_exec codec hi hexec]
            exact hc.update rfl (Or.inl hp')
          · obtain ⟨p', s', hexec, hp', -⟩ := hook.exec_run_of_fresh hw codec hfresh c.session
            rw [step_call_of_exec codec hi hexec]
            refine hc.update rfl ?_
            rcases hp' with rfl | hp'
            · exact Or.inr ⟨hfresh, hboot⟩
            · exact Or.inl hp'

omit [DecidableEq ι] [NeZero n] in
theorem shared_reply_iff (hreplies : ∀ r ∈ c.replies, r.1 = r.2) (session : Session n)
    (process : ι → Option Process) (ids : UInt32 × UInt32) (reply expected : Option UInt32) :
    Shared b ⟨session, process, ids, (reply, expected) :: c.replies⟩ ↔
      reply = expected ∧ session.ids b = ids := by
  rw [Shared, List.forall_mem_cons]
  exact and_congr_left' (and_iff_left hreplies)

include hw in
/-- From a shared state, a step keeps it shared exactly when its hook meets the current
ids. -/
theorem shared_step_iff (hc : c.Staged b boot) (hshared : c.Shared b) (e : SessionEvent ι) :
    (step b w codec boot c e).Shared b ↔ c.MeetsCurrent b boot e := by
  obtain ⟨hreplies, hids⟩ := hshared
  cases e with
  | start i => exact ⟨fun _ => trivial, fun _ => ⟨hreplies, hids⟩⟩
  | call i hook =>
      cases hi : c.process i with
      | none =>
          have hstep : step b w codec boot c (.call i hook) = c := by simp [step, hi]
          rw [hstep]
          simp [MeetsCurrent, hi, show c.Shared b from ⟨hreplies, hids⟩]
      | some p =>
          rcases hc i p hi with hready | ⟨hfresh, hboot⟩
          · obtain ⟨p', s', hexec, -, hids'⟩ := hook.exec_run_of_ready hw codec hready c.session
            rw [step_call_of_exec codec hi hexec, shared_reply_iff hreplies, hids', hids]
            simp [MeetsCurrent, hi, hready.libraryInitDone]
          · obtain ⟨p', s', hexec, -, hids'⟩ := hook.exec_run_of_fresh hw codec hfresh c.session
            rw [step_call_of_exec codec hi hexec, shared_reply_iff hreplies, hids', hids, hboot,
              hook.agreeOn_iff]
            simp [MeetsCurrent, hi, hfresh.libraryInitDone]

end Steps

/-- In a session whose processes start with its initial ids, every hook acts on one pair
of ids exactly when every hook that is called before its process is initialized finds the
ids it depends on unchanged. -/
theorem shared_iff_meetsCurrent (b : Backing) {w : Wincode} (hw : w.Lawful) (codec : XattrCodec)
    (boot : UInt32 × UInt32) (events : List (SessionEvent ι)) :
    (∀ k ≤ events.length,
      (Machine.run (step b w codec boot) (initial (n := n) boot) (events.take k)).Shared b) ↔
      ∀ k (hk : k < events.length),
        (Machine.run (step b w codec boot) (initial (n := n) boot) (events.take k)).MeetsCurrent b
          boot events[k] :=
  Machine.forall_good_iff_forall_guard
    (I := fun c : CredentialRun ι n => c.Staged b boot) (G := fun c => c.Shared b)
    (fun _ e hc => hc.step codec hw e)
    (fun _ e hc hshared => shared_step_iff codec hw hc hshared e)
    (fun _ _ hp => absurd hp (by simp [initial]))
    ⟨by simp [initial], by cases b <;> rfl⟩ events

omit [DecidableEq ι] [NeZero n] in
theorem meetsCurrent_of_initialized {b : Backing} {boot : UInt32 × UInt32}
    {c : CredentialRun ι n} {i : ι} (h : (c.process i).all Process.libraryInitDone = true)
    (hook : CredentialHook) : c.MeetsCurrent b boot (.call i hook) :=
  fun p hp => Or.inl (by simpa [Option.mem_def.mp hp] using h)

/-- Two processes are initialized by a stat, and both read the uid that one of them sets. -/
theorem shared_iff_meetsCurrent_stat_first :
    let look : CredentialHook := .stat ⟨1, 2, 0, 1, 0, 0, 0⟩
    let events : List (SessionEvent Bool) :=
      [.start false, .start true, .call false look, .call true look, .call false (.setuid 5),
        .call true .getuid, .call false .getuid]
    let run := fun k => Machine.run (step .daemon Wincode.bincode XattrCodec.wincode (0, 0))
      (initial (n := 1) (0, 0)) (events.take k)
    (run 7).replies.take 2 = [(some 5, some 5), (some 5, some 5)] ∧
      ∀ k ≤ events.length, (run k).Shared .daemon := by
  intro look events run
  refine ⟨by decide +kernel, ?_⟩
  refine (shared_iff_meetsCurrent .daemon Wincode.bincode_lawful XattrCodec.wincode (0, 0)
    events).mpr fun k hk => ?_
  rcases k with _ | _ | _ | _ | _ | _ | _ | k
  · trivial
  · trivial
  · exact fun _ _ => Or.inr rfl
  · exact fun _ _ => Or.inr (show (run 3).ids = (0, 0) by decide +kernel).symm
  · exact meetsCurrent_of_initialized (by decide +kernel) _
  · exact meetsCurrent_of_initialized (by decide +kernel) _
  · exact meetsCurrent_of_initialized (by decide +kernel) _
  · exact absurd hk (by simp [events])

/-- One process sets the uid. The first hook of another one returns the initial uid, and,
when that hook is a stat on a daemon session, the one that set the uid loses it. -/
theorem setuid_lost_at_first_hook :
    (Machine.run (step .shm Wincode.bincode XattrCodec.wincode (0, 0))
        (initial (ι := Bool) (n := 1) (0, 0))
        [.start false, .start true, .call false (.setuid 5), .call true .getuid]).replies =
      [(some 0, some 5), (none, none)] ∧
    (Machine.run (step .daemon Wincode.bincode XattrCodec.wincode (0, 0))
        (initial (ι := Bool) (n := 1) (0, 0))
        [.start false, .start true, .call false (.setuid 5),
          .call true (.stat ⟨1, 2, 0, 1, 0, 0, 0⟩),
          .call false .getuid]).replies =
      [(some 0, some 5), (none, none), (none, none)] := by
  decide +kernel

end CredentialRun

end Pseudoroot
