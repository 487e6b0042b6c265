import Mathlib.Data.Fintype.Basic
import Pseudoroot.Model.Wincode
import Pseudoroot.Verification.Session.Credentials
import Pseudoroot.Verification.Session.Owners

/-! # Owners over the run of a session

Every process that sets an id, or joins the session, can leave the ids that the others keep
themselves behind those of the session. -/

namespace Pseudoroot

open Calls Calls.Program

/-! ## Hooks that set ids or record metadata -/

inductive OwnerHook where
  | setuid (uid : UInt32)
  | setgid (gid : UInt32)
  | record (op : MetadataOp)

namespace OwnerHook

def run (w : Wincode) : OwnerHook → Hook Unit
  | setuid uid => Pseudoroot.setuid w uid
  | setgid gid => Pseudoroot.setgid w gid
  | record op => do
      ensureLibraryInit w
      op.hook w

/-- The ids that the hook sets, where it finds the given ones. -/
def sets (ids : UInt32 × UInt32) : OwnerHook → Option (UInt32 × UInt32)
  | setuid uid => some (uid, ids.2)
  | setgid gid => some (ids.1, gid)
  | record _ => none

/-- The ids of the session after the hook, of an initialized process or of a new one. -/
def idsAfter (b : Backing) (ids boot : UInt32 × UInt32) (initialized : Bool) (hook : OwnerHook) :
    UInt32 × UInt32 :=
  if initialized then (hook.sets ids).getD ids
  else (hook.sets boot).getD (b.idsAttached ids boot)

end OwnerHook

namespace Host

variable {n : ℕ} [NeZero n]

section Exec

variable {w : Wincode} (hw : w.Lawful) {codec : XattrCodec} {b : Backing} {p : Process}
  {s : Session n}

/-- The process is initialized, and has these ids itself where the session has those. -/
structure Settled (codec : XattrCodec) (b : Backing) (own ids : UInt32 × UInt32) (x : Host n) :
    Prop where
  serves : x.Serves (some b) codec
  localIds_eq : x.localIds = own
  ids_eq : x.2.ids b = ids

theorem Joins.settled {own ids : UInt32 × UInt32} {p' : Process} {s' : Session n}
    (hsound : Sound codec (p, s) (some b)) (h : Joins b s own ids p' s') :
    Settled codec b own ids (p', s') := by
  refine ⟨⟨?_, h.ready⟩, h.own_eq, h.ids_eq⟩
  cases b with
  | shm => exact ShmInodeMap.Valid.of_eq hsound h.slot_eq h.xattrPage_eq
  | daemon => trivial

include hw

theorem Serves.exec_setCurrentIds (h : Serves (some b) codec (p, s)) (uid gid : UInt32) :
    ∃ p' s', exec (Session.handle w codec) (setCurrentIds w uid gid) p s = (((), p'), s') ∧
      Settled codec b (uid, gid) (uid, gid) (p', s') := by
  obtain ⟨p', s', hset, hjoins⟩ := exec_setCurrentIds_of_ready hw codec h.initialized s uid gid
  exact ⟨p', s', hset, Joins.settled h.sound hjoins⟩

theorem Serves.exec_metadataOp {b : Option Backing} (h : Serves b codec (p, s)) (op : MetadataOp) :
    ∃ p' s', exec (Session.handle w codec) (op.hook w) p s = (((), p'), s') ∧
      Frame b codec (p, s) (p', s') := by
  cases op with
  | setInode key inode =>
      obtain ⟨p', s', written, hexec, hwrites, -⟩ := h.exec_setInode hw key inode
      exact ⟨p', s', hexec, hwrites.toFrame⟩
  | updateInode key f =>
      obtain ⟨p', s', written, hexec, hwrites, -⟩ := h.exec_updateInode hw key f
      exact ⟨p', s', hexec, hwrites.toFrame⟩
  | removeInode key =>
      obtain ⟨p', s', hexec, hframe, -⟩ := h.exec_removeInode hw key
      exact ⟨p', s', hexec, hframe⟩
  | recordChown key uid gid =>
      obtain ⟨p', s', hexec, hwrites⟩ := h.exec_recordChownKey hw key uid gid
      exact ⟨p', s', hexec, hwrites.toFrame⟩

theorem Settled.exec_record {own ids : UInt32 × UInt32} (h : Settled codec b own ids (p, s))
    (op : MetadataOp) :
    ∃ p' s', exec (Session.handle w codec) (op.hook w) p s = (((), p'), s') ∧
      Settled codec b own ids (p', s') := by
  obtain ⟨p', s', hexec, hframe⟩ := h.serves.exec_metadataOp hw op
  exact ⟨p', s', hexec, hframe.serves, hframe.localIds_eq.trans h.localIds_eq,
    hframe.ids_eq.trans h.ids_eq⟩

theorem Settled.exec_ownerHook {own current : UInt32 × UInt32}
    (h : Settled codec b own current (p, s)) (boot : UInt32 × UInt32) (hook : OwnerHook) :
    ∃ p' s', exec (Session.handle w codec) (hook.run w) p s = (((), p'), s') ∧
      Settled codec b ((hook.sets current).getD own) (hook.idsAfter b current boot true)
        (p', s') := by
  obtain ⟨⟨p₁, huid, hsame₁⟩, p₂, hgid, hsame₂⟩ := h.serves.exec_sessionIds hw
  have hids : ids (some b) (p, s) = current := h.ids_eq
  rw [hids] at huid hgid
  cases hook with
  | setuid uid =>
      obtain ⟨p', s', hset, hafter⟩ := hsame₂.serves.exec_setCurrentIds hw uid current.2
      exact ⟨p', s', by simp [OwnerHook.run, Pseudoroot.setuid, getgid, hgid, hset], hafter⟩
  | setgid gid =>
      obtain ⟨p', s', hset, hafter⟩ := hsame₁.serves.exec_setCurrentIds hw current.1 gid
      exact ⟨p', s', by simp [OwnerHook.run, Pseudoroot.setgid, getuid, huid, hset], hafter⟩
  | record op =>
      obtain ⟨p', s', hrecord, hafter⟩ := h.exec_record hw op
      exact ⟨p', s', by simp [OwnerHook.run, h.serves.exec_ensureLibraryInit, hrecord], hafter⟩

theorem exec_ownerHook_of_fresh (hsound : Sound codec (p, s) (some b)) (hp : p.Fresh b)
    (hook : OwnerHook) :
    ∃ p' s', exec (Session.handle w codec) (hook.run w) p s = (((), p'), s') ∧
      Settled codec b ((hook.sets p.bootIds).getD p.bootIds)
        (hook.idsAfter b (s.ids b) p.bootIds false) (p', s') := by
  have hset : ∀ uid gid, ∃ p' s', exec (Session.handle w codec) (setCurrentIds w uid gid) p s =
      (((), p'), s') ∧ Settled codec b (uid, gid) (uid, gid) (p', s') := by
    intro uid gid
    obtain ⟨p', s', hexec, hjoins⟩ := exec_setCurrentIds_of_fresh hw codec hp s uid gid
    exact ⟨p', s', hexec, Joins.settled hsound hjoins⟩
  cases hook with
  | setuid uid =>
      obtain ⟨p', s', hexec, hafter⟩ := hset uid p.bootGid
      exact ⟨p', s',
        by simp [OwnerHook.run, Pseudoroot.setuid, exec_getgid_of_fresh codec hp, hexec], hafter⟩
  | setgid gid =>
      obtain ⟨p', s', hexec, hafter⟩ := hset p.bootUid gid
      exact ⟨p', s',
        by simp [OwnerHook.run, Pseudoroot.setgid, exec_getuid_of_fresh codec hp, hexec], hafter⟩
  | record op =>
      obtain ⟨p₁, s₁, hinit, hjoins⟩ := Pseudoroot.exec_ensureLibraryInit hw codec hp s
      have hsettled := Joins.settled hsound hjoins
      obtain ⟨p', s', hrecord, hafter⟩ := hsettled.exec_record hw op
      exact ⟨p', s', by simp [OwnerHook.run, hinit, hrecord], hafter⟩

end Exec

end Host

/-! ## The session over a run -/

inductive OwnerEvent (ι : Type) where
  /-- A process starts with these ids in its environment and runs its constructor. -/
  | start (i : ι) (boot : UInt32 × UInt32)
  | fork (parent child : ι)
  | exit (i : ι)
  | call (i : ι) (hook : OwnerHook)

structure OwnerRun (ι : Type) (n : ℕ) where
  session : Session n
  process : ι → Option Process

namespace OwnerRun

variable {ι : Type} [DecidableEq ι] {n : ℕ} [NeZero n]

def initial (boot : UInt32 × UInt32) : OwnerRun ι n where
  session := Session.start n boot.1 boot.2
  process := fun _ => none

def step (b : Backing) (w : Wincode) (codec : XattrCodec) (c : OwnerRun ι n) :
    OwnerEvent ι → OwnerRun ι n
  | .start i boot =>
      { c with process := Function.update c.process i (Process.constructed b boot.1 boot.2) }
  | .fork i j => { c with process := Function.update c.process j (c.process i) }
  | .exit i => { c with process := Function.update c.process i none }
  | .call i hook =>
      match c.process i with
      | none => c
      | some p =>
          let (_, p, session) := Host.run w codec (hook.run w) (p, c.session)
          { session := session, process := Function.update c.process i (some p) }

/-- In every initialized process, files without an entry belong to it. -/
def OwnsUntracked (b : Backing) (w : Wincode) (codec : XattrCodec) (devices : DeviceNumbers)
    (c : OwnerRun ι n) : Prop :=
  ∀ i, ∀ p ∈ c.process i, p.libraryInitDone = true →
    Host.OwnsUntracked w codec devices (some b) (p, c.session)

/-- A hook changes the ids of the session only while no other process is initialized, and a
process joins the session by recording metadata only if the ids of its environment then are
those of the session. -/
def KeepsIds (b : Backing) (c : OwnerRun ι n) : OwnerEvent ι → Prop
  | .call i hook => ∀ p ∈ c.process i,
    let next := hook.idsAfter b (c.session.ids b) p.bootIds p.libraryInitDone
    (next = c.session.ids b ∨ ∀ j, j ≠ i → ∀ q ∈ c.process j, q.libraryInitDone = false) ∧
      (p.libraryInitDone = false → next = (hook.sets p.bootIds).getD p.bootIds)
  | _ => True

instance [Fintype ι] (b : Backing) (c : OwnerRun ι n) (e : OwnerEvent ι) :
    Decidable (c.KeepsIds b e) :=
  match e with
  | .call i hook => inferInstanceAs (Decidable (∀ p ∈ c.process i,
      (hook.idsAfter b (c.session.ids b) p.bootIds p.libraryInitDone = c.session.ids b ∨
        ∀ j, j ≠ i → ∀ q ∈ c.process j, q.libraryInitDone = false) ∧
      (p.libraryInitDone = false →
        hook.idsAfter b (c.session.ids b) p.bootIds p.libraryInitDone =
          (hook.sets p.bootIds).getD p.bootIds)))
  | .start _ _ | .fork _ _ | .exit _ => inferInstanceAs (Decidable True)

/-- The session is in order, and each process initialized or new. -/
structure Staged (b : Backing) (codec : XattrCodec) (c : OwnerRun ι n) : Prop where
  sound : ∀ p, Host.Sound codec (p, c.session) (some b)
  stage : ∀ i, ∀ p ∈ c.process i, p.Initialized (some b) ∨ p.Fresh b

def Agree (b : Backing) (c : OwnerRun ι n) : Prop :=
  ∀ i, ∀ p ∈ c.process i, p.libraryInitDone = true →
    Host.localIds (p, c.session) = c.session.ids b

section Steps

variable {b : Backing} {w : Wincode} (hw : w.Lawful) (codec : XattrCodec)
  {c : OwnerRun ι n} {i : ι} {hook : OwnerHook}

theorem step_call_of_exec {p p' : Process} {session : Session n} (hi : c.process i = some p)
    (hexec : exec (Session.handle w codec) (hook.run w) p c.session = (((), p'), session)) :
    step b w codec c (.call i hook) =
      ⟨session, Function.update c.process i (some p')⟩ := by
  simp [step, hi, Host.run, hexec]

include hw in
theorem Staged.exec_call (hc : c.Staged b codec) {p : Process} (hp : p ∈ c.process i)
    (hook : OwnerHook) :
    ∃ p' s' own, step b w codec c (.call i hook) =
        ⟨s', Function.update c.process i (some p')⟩ ∧
      Host.Settled codec b own
        (hook.idsAfter b (c.session.ids b) p.bootIds p.libraryInitDone) (p', s') ∧
      own = if p.libraryInitDone then (hook.sets (c.session.ids b)).getD
          (Host.localIds (p, c.session))
        else (hook.sets p.bootIds).getD p.bootIds := by
  rcases hc.stage i p hp with hinit | hfresh
  · have hdone : p.libraryInitDone = true := hinit.libraryInitDone
    have hsettled : Host.Settled codec b (Host.localIds (p, c.session)) (c.session.ids b)
        (p, c.session) := ⟨⟨hc.sound p, hinit⟩, rfl, rfl⟩
    obtain ⟨p', s', hexec, hafter⟩ := hsettled.exec_ownerHook hw p.bootIds hook
    exact ⟨p', s', _, step_call_of_exec codec hp hexec, hdone ▸ hafter, by rw [if_pos hdone]⟩
  · have hdone : p.libraryInitDone = false := hfresh.libraryInitDone
    obtain ⟨p', s', hexec, hafter⟩ :=
      Host.exec_ownerHook_of_fresh hw (hc.sound p) hfresh hook
    exact ⟨p', s', _, step_call_of_exec codec hp hexec, hdone ▸ hafter, by rw [hdone]; rfl⟩

/-- One process replaced in a state that is staged, or all others kept in a session in order. -/
theorem Staged.update {session : Session n}
    (hsound : ∀ p, Host.Sound codec (p, session) (some b)) (hc : c.Staged b codec)
    {found : Option Process} (hfound : ∀ p ∈ found, p.Initialized (some b) ∨ p.Fresh b) :
    Staged b codec ⟨session, Function.update c.process i found⟩ := by
  refine ⟨hsound, fun j q hq => ?_⟩
  by_cases hj : j = i
  · subst hj
    exact hfound q (by simpa using hq)
  · exact hc.stage j q (by simpa [Function.update_of_ne hj] using hq)

include hw in
theorem Staged.step (hc : c.Staged b codec) (e : OwnerEvent ι) :
    (step b w codec c e).Staged b codec := by
  cases e with
  | start i boot =>
      refine hc.update codec hc.sound fun p hp => ?_
      obtain rfl := Option.mem_some_iff.mp hp
      exact Or.inr (Process.fresh_constructed b boot.1 boot.2)
  | fork i j => exact hc.update codec hc.sound fun p hp => hc.stage i p hp
  | exit i => exact hc.update codec hc.sound fun p hp => by cases hp
  | call i hook =>
      cases hi : c.process i with
      | none => simpa [OwnerRun.step, hi] using hc
      | some p =>
          obtain ⟨p', s', own, hstep, hsettled, -⟩ := hc.exec_call hw codec hi hook
          rw [hstep]
          refine hc.update codec (fun _ => hsettled.serves.sound) fun q hq => ?_
          obtain rfl := Option.mem_some_iff.mp hq
          exact Or.inl hsettled.serves.initialized

omit [NeZero n] in
/-- When one process is replaced, that one has to agree, and the others with what the session
has become. -/
theorem agree_update_iff {session : Session n} {found : Option Process} :
    Agree b ⟨session, Function.update c.process i found⟩ ↔
      (∀ p ∈ found, p.libraryInitDone = true →
        Host.localIds (p, session) = session.ids b) ∧
      ∀ j, j ≠ i → ∀ q ∈ c.process j, q.libraryInitDone = true →
        Host.localIds (q, session) = session.ids b := by
  constructor
  · intro h
    refine ⟨fun p hp => h i p (by simpa using hp), fun j hj q hq => h j q ?_⟩
    simpa [Function.update_of_ne hj] using hq
  · rintro ⟨hself, hothers⟩ j q hq
    by_cases hj : j = i
    · subst hj
      exact hself q (by simpa using hq)
    · exact hothers j hj q (by simpa [Function.update_of_ne hj] using hq)

omit [DecidableEq ι] in
/-- The process that has called a hook agrees with the session, unless it was new and has found
other ids there. -/
theorem agree_self_iff {p p' : Process} {session : Session n} {own : UInt32 × UInt32}
    (hsettled : Host.Settled codec b own
      (hook.idsAfter b (c.session.ids b) p.bootIds p.libraryInitDone) (p', session))
    (hagree : p.libraryInitDone = true → Host.localIds (p, c.session) = c.session.ids b)
    (hown : own = if p.libraryInitDone then (hook.sets (c.session.ids b)).getD
        (Host.localIds (p, c.session))
      else (hook.sets p.bootIds).getD p.bootIds) :
    (∀ q ∈ some p', q.libraryInitDone = true → Host.localIds (q, session) = session.ids b) ↔
      (p.libraryInitDone = false →
        hook.idsAfter b (c.session.ids b) p.bootIds p.libraryInitDone =
          (hook.sets p.bootIds).getD p.bootIds) := by
  have hdone : p'.libraryInitDone = true := hsettled.serves.initialized.libraryInitDone
  have hlocal := hsettled.localIds_eq
  have hids := hsettled.ids_eq
  simp only [Option.mem_some_iff, forall_eq', hdone, true_imp_iff, hlocal, hids, hown]
  cases hp : p.libraryInitDone with
  | true => simp [hagree hp, OwnerHook.idsAfter]
  | false => simp [eq_comm]

omit [DecidableEq ι] [NeZero n] in
/-- The others agree with the ids that the session then has, if those are the same or there
are no others. -/
theorem agree_others_iff (hagree : c.Agree b) {session : Session n} {next : UInt32 × UInt32}
    (hnext : session.ids b = next) :
    (∀ j, j ≠ i → ∀ q ∈ c.process j, q.libraryInitDone = true →
        Host.localIds (q, session) = session.ids b) ↔
      next = c.session.ids b ∨
        ∀ j, j ≠ i → ∀ q ∈ c.process j, q.libraryInitDone = false := by
  rw [hnext]
  constructor
  · intro h
    by_cases hsame : next = c.session.ids b
    · exact Or.inl hsame
    · refine Or.inr fun j hj q hq => ?_
      by_contra hdone
      rw [Bool.not_eq_false] at hdone
      exact hsame ((h j hj q hq hdone).symm.trans (hagree j q hq hdone))
  · rintro (hsame | hnone) j hj q hq hdone
    · exact (hagree j q hq hdone).trans hsame.symm
    · rw [hnone j hj q hq] at hdone
      cases hdone

include hw in
/-- From a state in which all agree, they agree after a step exactly when it keeps the ids. -/
theorem agree_step_iff (hc : c.Staged b codec) (hagree : c.Agree b) (e : OwnerEvent ι) :
    (step b w codec c e).Agree b ↔ c.KeepsIds b e := by
  cases e with
  | start i boot =>
      refine iff_of_true (agree_update_iff.mpr ⟨fun p hp hdone => ?_, fun j _ => hagree j⟩) trivial
      obtain rfl := Option.mem_some_iff.mp hp
      have hfresh := (Process.fresh_constructed b boot.1 boot.2).libraryInitDone
      rw [hfresh] at hdone
      cases hdone
  | fork i j =>
      exact iff_of_true (agree_update_iff.mpr ⟨hagree i, fun k _ => hagree k⟩) trivial
  | exit i =>
      exact iff_of_true (agree_update_iff.mpr ⟨fun p hp => (by cases hp), fun j _ => hagree j⟩)
        trivial
  | call i hook =>
      cases hi : c.process i with
      | none =>
          have hstep : step b w codec c (.call i hook) = c := by simp [step, hi]
          rw [hstep]
          exact iff_of_true hagree (by simp [KeepsIds, hi])
      | some p =>
          obtain ⟨p', s', own, hstep, hsettled, hown⟩ := hc.exec_call hw codec hi hook
          have hself := agree_self_iff codec hsettled (hagree i p hi) hown
          have hothers := agree_others_iff (i := i) hagree hsettled.ids_eq
          rw [hstep, agree_update_iff, hself, hothers, and_comm]
          simp [KeepsIds, hi]

end Steps

omit [DecidableEq ι] in
theorem staged_initial (b : Backing) (codec : XattrCodec) (boot : UInt32 × UInt32) :
    (initial (ι := ι) (n := n) boot).Staged b codec where
  sound p := by
    cases b with
    | shm => exact ShmInodeMap.valid_initHeader codec n 0 boot.1 boot.2
    | daemon => trivial
  stage i p hp := by cases hp

/-- In a run of a session, every process keeps the ids of the session itself exactly when every
step keeps the ids. -/
theorem agree_iff_keepsIds (b : Backing) {w : Wincode} (hw : w.Lawful) (codec : XattrCodec)
    (boot : UInt32 × UInt32) (events : List (OwnerEvent ι)) :
    (∀ k ≤ events.length,
      (Machine.run (step b w codec) (initial (n := n) boot) (events.take k)).Agree b) ↔
      ∀ k (hk : k < events.length),
        (Machine.run (step b w codec) (initial (n := n) boot) (events.take k)).KeepsIds b
          events[k] :=
  Machine.forall_good_iff_forall_guard
    (I := fun c : OwnerRun ι n => c.Staged b codec) (G := fun c => c.Agree b)
    (fun _ e hc => hc.step hw codec e) (fun _ e hc hagree => agree_step_iff hw codec hc hagree e)
    (staged_initial b codec boot) (fun _ _ hp => absurd hp (by simp [initial])) events

/-- While every step keeps the ids, files without an entry belong to every process that looks at
them, and recording metadata of one leaves it the ids that are not set. -/
theorem untracked_owned_of_keepsIds (b : Backing) {w : Wincode} (hw : w.Lawful)
    (codec : XattrCodec) (devices : DeviceNumbers) (boot : UInt32 × UInt32)
    (events : List (OwnerEvent ι))
    (hkeeps : ∀ k (hk : k < events.length),
      (Machine.run (step b w codec) (initial (n := n) boot) (events.take k)).KeepsIds b
        events[k]) :
    ∀ k ≤ events.length,
      (Machine.run (step b w codec) (initial (n := n) boot)
        (events.take k)).OwnsUntracked b w codec devices := by
  intro k hk i p hp hdone
  have hstaged : (Machine.run (step b w codec) (initial (n := n) boot)
      (events.take k)).Staged b codec :=
    Machine.run_invariant (fun _ e hc => hc.step hw codec e) (staged_initial b codec boot) _
  have hagree := (agree_iff_keepsIds b hw codec boot events).mpr hkeeps k hk i p hp hdone
  have hinit : p.Initialized (some b) := by
    rcases hstaged.stage i p hp with hinit | hfresh
    · exact hinit
    · rw [hfresh.libraryInitDone] at hdone
      cases hdone
  exact Host.Serves.ownsUntracked hw ⟨hstaged.sound p, hinit⟩ devices hagree

/-- A process with another uid in its environment than the session sets its uid while it is
alone, and then forks. A third process starts with that uid. -/
theorem untracked_owned_of_keepsIds_fork :
    let chmod : OwnerHook := .record (.chmod (1, 3) 0o100644 0o600)
    let events : List (OwnerEvent (Fin 3)) :=
      [.start 0 (7, 0), .call 0 chmod, .call 0 (.setuid 5), .fork 0 1, .call 1 chmod,
        .start 2 (5, 0), .call 2 chmod]
    ∀ k ≤ events.length,
      (Machine.run (step .daemon Wincode.bincode XattrCodec.wincode)
        (initial (n := 1) (0, 0)) (events.take k)).OwnsUntracked .daemon Wincode.bincode
        XattrCodec.wincode DeviceNumbers.linux :=
  untracked_owned_of_keepsIds .daemon Wincode.bincode_lawful XattrCodec.wincode
    DeviceNumbers.linux (0, 0) _ (by decide +kernel)

/-- Two processes record metadata and one of them sets its uid. -/
def setuidRun (n : ℕ) [NeZero n] (b : Backing) : OwnerRun Bool n :=
  let chmod : OwnerHook := .record (.chmod (1, 3) 0o100644 0o600)
  Machine.run (step b Wincode.bincode XattrCodec.wincode) (initial (0, 0))
    [.start false (0, 0), .call false chmod, .start true (0, 0), .call true chmod,
      .call true (.setuid 5)]

theorem not_ownsUntracked_setuidRun (b : Backing) :
    ¬ (setuidRun 1 b).OwnsUntracked b Wincode.bincode XattrCodec.wincode DeviceNumbers.linux := by
  intro howns
  have hseen : ((setuidRun 1 b).process false).map (fun p => (p.libraryInitDone,
      Host.table (some b) XattrCodec.wincode (p, (setuidRun 1 b).session) (1, 2),
      Host.owner Wincode.bincode XattrCodec.wincode (p, (setuidRun 1 b).session)
        ⟨1, 2, 0o100644, 1, 0, 0, 0⟩,
      Host.credentials Wincode.bincode XattrCodec.wincode (p, (setuidRun 1 b).session))) =
        some (true, none, (0, 0), (5, 0)) := by
    cases b <;> decide +kernel
  cases hp : (setuidRun 1 b).process false with
  | none => rw [hp] at hseen; cases hseen
  | some p =>
      rw [hp, Option.map_some, Option.some.injEq] at hseen
      simp only [Prod.mk.injEq] at hseen
      obtain ⟨hdone, hnone, howner, hcredentials⟩ := hseen
      have hsame := (howns false p hp hdone).stat ⟨1, 2, 0o100644, 1, 0, 0, 0⟩ hnone
      rw [howner, hcredentials] at hsame
      revert hsame
      decide

/-- With either backing, a file without an entry then belongs to the new uid for the getuid of
the other process, but not for its stat. -/
theorem setuid_leaves_default_owner :
    ¬ (setuidRun 1 .shm).OwnsUntracked .shm Wincode.bincode XattrCodec.wincode
        DeviceNumbers.linux ∧
      ¬ (setuidRun 1 .daemon).OwnsUntracked .daemon Wincode.bincode XattrCodec.wincode
        DeviceNumbers.linux :=
  ⟨not_ownsUntracked_setuidRun .shm, not_ownsUntracked_setuidRun .daemon⟩

end OwnerRun

end Pseudoroot
