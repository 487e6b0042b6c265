import Pseudoroot.Library.Runs
import Pseudoroot.Model.Credentials
import Pseudoroot.Verification.Session.Credentials
import Pseudoroot.Verification.Session.Report

/-! # The identity that the setters of ids build up -/

namespace Pseudoroot

open Calls Calls.Program

/-! ## One setter -/

section Exec

variable {n : ℕ} [NeZero n] {w : Wincode} (hw : w.Lawful) {codec : XattrCodec}
  {b : Option Backing} {p : Process} {s : Session n}

include hw

theorem Host.Serves.exec_setIds (h : Host.Serves b codec (p, s)) (uid gid : UInt32) :
    ∃ p' s', exec (Session.handle w codec) (setCurrentIds w uid gid) p s = (((), p'), s') ∧
      Host.Serves b codec (p', s') ∧ Host.ids b (p', s') = (uid, gid) := by
  have hlibrary := h.exec_ensureLibraryInit (w := w)
  obtain ⟨hsound, hinit⟩ := h
  cases b with
  | none =>
      have hp : p.InProcess := hinit
      have hset : (p.withIds uid gid).InProcess :=
        ⟨hp.libraryInitDone, hp.sessionInit, hp.shmActive, hp.daemonSocket⟩
      refine ⟨p.withIds uid gid, s, ?_, Host.serves_inProcess hset s, rfl⟩
      have hids : Process.withGlobalState { p with bootUid := uid, bootGid := gid }
          (fun state => state.setCurrent uid gid) = p.withIds uid gid := rfl
      simp [setCurrentIds, hlibrary, exec_globalStateWrite, hids, hset.shmActive, hset.enabled]
  | some b =>
      obtain ⟨p', s', hexec, hjoins⟩ := exec_setCurrentIds_of_ready hw codec hinit s uid gid
      refine ⟨p', s', hexec, ⟨?_, hjoins.ready⟩, hjoins.ids_eq⟩
      cases b with
      | shm => exact ShmInodeMap.Valid.of_eq hsound hjoins.slot_eq hjoins.xattrPage_eq
      | daemon => trivial

theorem Host.Serves.exec_setuid (h : Host.Serves b codec (p, s)) (uid : UInt32) :
    ∃ p' s', exec (Session.handle w codec) (setuid w uid) p s = (((), p'), s') ∧
      Host.Serves b codec (p', s') ∧
      Host.ids b (p', s') = (uid, (Host.ids b (p, s)).2) := by
  obtain ⟨-, p₁, hget, hsame⟩ := h.exec_sessionIds hw
  obtain ⟨p', s', hset, hserves, hids⟩ :=
    hsame.serves.exec_setIds hw uid (Host.ids b (p, s)).2
  exact ⟨p', s', by simp [setuid, getgid, hget, hset], hserves, hids⟩

theorem Host.Serves.exec_setgid (h : Host.Serves b codec (p, s)) (gid : UInt32) :
    ∃ p' s', exec (Session.handle w codec) (setgid w gid) p s = (((), p'), s') ∧
      Host.Serves b codec (p', s') ∧
      Host.ids b (p', s') = ((Host.ids b (p, s)).1, gid) := by
  obtain ⟨⟨p₁, hget, hsame⟩, -⟩ := h.exec_sessionIds hw
  obtain ⟨p', s', hset, hserves, hids⟩ :=
    hsame.serves.exec_setIds hw (Host.ids b (p, s)).1 gid
  exact ⟨p', s', by simp [setgid, getuid, hget, hset], hserves, hids⟩

end Exec

/-! ## The identity of a process -/

/-- The current ids, and what the last setters of the filesystem ids were given. -/
structure Identity where
  uid : UInt32
  gid : UInt32
  fsUid : Option UInt32
  fsGid : Option UInt32

inductive IdCall where
  | setuid (uid : UInt32)
  | setgid (gid : UInt32)
  | setreuid (ruid euid : UInt32)
  | setregid (rgid egid : UInt32)
  | setresuid (ruid euid suid : UInt32)
  | setresgid (rgid egid sgid : UInt32)
  | setfsuid (uid : UInt32)
  | setfsgid (gid : UInt32)

namespace IdCall

def hook (w : Wincode) (fs : FsIds) : IdCall → Hook (Int32 × FsIds)
  | setuid uid => (fun _ => (0, fs)) <$> Pseudoroot.setuid w uid
  | setgid gid => (fun _ => (0, fs)) <$> Pseudoroot.setgid w gid
  | setreuid ruid euid => (fun _ => (0, fs)) <$> Pseudoroot.setreuid w ruid euid
  | setregid rgid egid => (fun _ => (0, fs)) <$> Pseudoroot.setregid w rgid egid
  | setresuid ruid euid suid => (fun _ => (0, fs)) <$> Pseudoroot.setresuid w ruid euid suid
  | setresgid rgid egid sgid => (fun _ => (0, fs)) <$> Pseudoroot.setresgid w rgid egid sgid
  | setfsuid uid => Pseudoroot.setfsuid w fs uid
  | setfsgid gid => Pseudoroot.setfsgid w fs gid

/-- An id that replaces another one, unless it says to leave that unchanged. -/
def orUnchanged (id old : UInt32) : UInt32 :=
  if id = idUnchanged then old else id

/-- What the call returns and makes of an identity, with -1 for an id that is left unchanged. -/
def spec (a : Identity) : IdCall → Int32 × Identity
  | setuid uid => (0, { a with uid := uid })
  | setgid gid => (0, { a with gid := gid })
  | setreuid _ euid | setresuid _ euid _ => (0, { a with uid := orUnchanged euid a.uid })
  | setregid _ egid | setresgid _ egid _ => (0, { a with gid := orUnchanged egid a.gid })
  | setfsuid uid => ((a.fsUid.getD a.uid).toInt32,
      if uid = idUnchanged then a else { a with fsUid := some uid })
  | setfsgid gid => ((a.fsGid.getD a.gid).toInt32,
      if gid = idUnchanged then a else { a with fsGid := some gid })

/-- The call is not one of those for which -1 is an error. -/
def Accepted : IdCall → Prop
  | setuid id | setgid id => id ≠ idUnchanged
  | _ => True

/-- The call does not store -1. A setter of a filesystem id may, while that id is unset. -/
def KeepsSentinel (fs : FsIds) : IdCall → Prop
  | setuid _ | setgid _ => True
  | setreuid _ id | setregid _ id | setresuid _ id _ | setresgid _ id _ => id ≠ idUnchanged
  | setfsuid uid => uid = idUnchanged → fs.fsUid = idUnchanged
  | setfsgid gid => gid = idUnchanged → fs.fsGid = idUnchanged

end IdCall

/-- A process, the session and the statics of the filesystem ids have built up this identity. -/
structure Identity.Held {n : ℕ} [NeZero n] (b : Option Backing) (codec : XattrCodec)
    (a : Identity) (x : Host n × FsIds) : Prop where
  serves : x.1.Serves b codec
  ids_eq : x.1.ids b = (a.uid, a.gid)
  fsUid_eq : x.2.fsUid = a.fsUid.getD idUnchanged
  fsGid_eq : x.2.fsGid = a.fsGid.getD idUnchanged
  uid_ne : a.uid ≠ idUnchanged
  gid_ne : a.gid ≠ idUnchanged
  fsUid_ne : a.fsUid ≠ some idUnchanged
  fsGid_ne : a.fsGid ≠ some idUnchanged

namespace IdCall

variable {n : ℕ} [NeZero n] (w : Wincode) (codec : XattrCodec)

def run (x : Host n × FsIds) (call : IdCall) : Int32 × (Host n × FsIds) :=
  let after := x.1.run w codec (call.hook w x.2)
  (after.1.1, after.2, after.1.2)

def step (x : Host n × FsIds) (call : IdCall) : Host n × FsIds :=
  (run w codec x call).2

variable {w codec} {b : Option Backing} (hw : w.Lawful) {p : Process} {s : Session n}
  (fs : FsIds)

variable {fs} in
theorem run_eq {call : IdCall} {p' : Process} {s' : Session n} {result : Int32} {fs' : FsIds}
    (h : exec (Session.handle w codec) (call.hook w fs) p s = (((result, fs'), p'), s')) :
    run w codec ((p, s), fs) call = (result, (p', s'), fs') := by
  simp [run, Host.run, h]

variable {fs} in
/-- A setter of the current ids returns zero and leaves the filesystem ids alone. -/
theorem run_of_set {call : IdCall} {m : Hook Unit} (hm : call.hook w fs = (fun _ => (0, fs)) <$> m)
    {p' : Process} {s' : Session n}
    (h : exec (Session.handle w codec) m p s = (((), p'), s')) :
    run w codec ((p, s), fs) call = (0, (p', s'), fs) := by
  refine run_eq ?_
  rw [hm, exec_map, h]

include hw

theorem exec_setfsuid (h : Host.Serves b codec (p, s)) (uid : UInt32) :
    ∃ p', exec (Session.handle w codec) (Pseudoroot.setfsuid w fs uid) p s =
        ((((if fs.fsUid = idUnchanged then (Host.ids b (p, s)).1 else fs.fsUid).toInt32,
          { fs with fsUid := uid }), p'), s) ∧ Host.Same b codec (p, s) (p', s) := by
  by_cases hunset : fs.fsUid = idUnchanged
  · obtain ⟨⟨p', hget, hsame⟩, -⟩ := h.exec_sessionIds hw
    have hmax : fs.fsUid = 0xFFFFFFFF := hunset
    exact ⟨p', by simp [Pseudoroot.setfsuid, Ownership.setFsuid, Ownership.readFsUid, hmax, hget,
      idUnchanged], hsame⟩
  · have hmax : fs.fsUid ≠ 0xFFFFFFFF := hunset
    exact ⟨p, by simp [Pseudoroot.setfsuid, Ownership.setFsuid, Ownership.readFsUid, hmax,
      idUnchanged], .refl h⟩

theorem exec_setfsgid (h : Host.Serves b codec (p, s)) (gid : UInt32) :
    ∃ p', exec (Session.handle w codec) (Pseudoroot.setfsgid w fs gid) p s =
        ((((if fs.fsGid = idUnchanged then (Host.ids b (p, s)).2 else fs.fsGid).toInt32,
          { fs with fsGid := gid }), p'), s) ∧ Host.Same b codec (p, s) (p', s) := by
  by_cases hunset : fs.fsGid = idUnchanged
  · obtain ⟨-, p', hget, hsame⟩ := h.exec_sessionIds hw
    have hmax : fs.fsGid = 0xFFFFFFFF := hunset
    exact ⟨p', by simp [Pseudoroot.setfsgid, Ownership.setfsgid, Ownership.readFsGid, hmax, hget,
      idUnchanged], hsame⟩
  · have hmax : fs.fsGid ≠ 0xFFFFFFFF := hunset
    exact ⟨p, by simp [Pseudoroot.setfsgid, Ownership.setfsgid, Ownership.readFsGid, hmax,
      idUnchanged], .refl h⟩

end IdCall

namespace Identity.Held

variable {n : ℕ} [NeZero n] {w : Wincode} {codec : XattrCodec} {b : Option Backing}
  (hw : w.Lawful) {a : Identity} {x : Host n × FsIds}

/-- What is stored for a filesystem id, read as the previous value. -/
theorem previous_eq {stored : Option UInt32} (hne : stored ≠ some idUnchanged) (current : UInt32) :
    (if stored.getD idUnchanged = idUnchanged then current else stored.getD idUnchanged) =
      stored.getD current := by
  cases stored with
  | none => simp
  | some id =>
      have hid : id ≠ idUnchanged := fun h => hne (congrArg some h)
      simp [hid]

include hw

theorem setuid (h : a.Held b codec x) {uid : UInt32} (hne : uid ≠ idUnchanged) :
    ∃ p' s', exec (Session.handle w codec) (setuid w uid) x.1.1 x.1.2 = (((), p'), s') ∧
      ({ a with uid := uid } : Identity).Held b codec ((p', s'), x.2) := by
  obtain ⟨p', s', hexec, hserves, hids⟩ := h.serves.exec_setuid hw uid
  refine ⟨p', s', hexec, { h with serves := hserves, ids_eq := ?_, uid_ne := hne }⟩
  rw [hids]
  exact congrArg (uid, ·.2) h.ids_eq

theorem setgid (h : a.Held b codec x) {gid : UInt32} (hne : gid ≠ idUnchanged) :
    ∃ p' s', exec (Session.handle w codec) (setgid w gid) x.1.1 x.1.2 = (((), p'), s') ∧
      ({ a with gid := gid } : Identity).Held b codec ((p', s'), x.2) := by
  obtain ⟨p', s', hexec, hserves, hids⟩ := h.serves.exec_setgid hw gid
  refine ⟨p', s', hexec, { h with serves := hserves, ids_eq := ?_, gid_ne := hne }⟩
  rw [hids]
  exact congrArg (·.1, gid) h.ids_eq

/-- A call on a filesystem id returns the previous one and stores its argument, unless that is -1
and nothing is stored yet. -/
theorem run_setfsuid (h : a.Held b codec x) {uid : UInt32}
    (hkeeps : uid = idUnchanged → x.2.fsUid = idUnchanged) :
    ((IdCall.setfsuid uid).run w codec x).1 = ((IdCall.setfsuid uid).spec a).1 ∧
      ((IdCall.setfsuid uid).spec a).2.Held b codec ((IdCall.setfsuid uid).run w codec x).2 := by
  obtain ⟨⟨p, s⟩, fs⟩ := x
  obtain ⟨p', hexec, hsame⟩ := IdCall.exec_setfsuid hw fs h.serves uid
  rw [IdCall.run_eq hexec, h.ids_eq, h.fsUid_eq, previous_eq h.fsUid_ne]
  refine ⟨rfl, ?_⟩
  have hids : Host.ids b (p', s) = (a.uid, a.gid) := hsame.ids_eq.trans h.ids_eq
  by_cases huid : uid = idUnchanged
  · have hunset : fs.fsUid = idUnchanged := hkeeps huid
    simp only [IdCall.spec, if_pos huid]
    exact { h with
      serves := hsame.serves
      ids_eq := hids
      fsUid_eq := by rw [huid, ← h.fsUid_eq, hunset]
      fsGid_eq := h.fsGid_eq }
  · simp only [IdCall.spec, if_neg huid]
    exact { h with
      serves := hsame.serves
      ids_eq := hids
      fsUid_eq := rfl
      fsGid_eq := h.fsGid_eq
      fsUid_ne := fun heq => huid (Option.some.inj heq) }

theorem run_setfsgid (h : a.Held b codec x) {gid : UInt32}
    (hkeeps : gid = idUnchanged → x.2.fsGid = idUnchanged) :
    ((IdCall.setfsgid gid).run w codec x).1 = ((IdCall.setfsgid gid).spec a).1 ∧
      ((IdCall.setfsgid gid).spec a).2.Held b codec ((IdCall.setfsgid gid).run w codec x).2 := by
  obtain ⟨⟨p, s⟩, fs⟩ := x
  obtain ⟨p', hexec, hsame⟩ := IdCall.exec_setfsgid hw fs h.serves gid
  rw [IdCall.run_eq hexec, h.ids_eq, h.fsGid_eq, previous_eq h.fsGid_ne]
  refine ⟨rfl, ?_⟩
  have hids : Host.ids b (p', s) = (a.uid, a.gid) := hsame.ids_eq.trans h.ids_eq
  by_cases hgid : gid = idUnchanged
  · have hunset : fs.fsGid = idUnchanged := hkeeps hgid
    simp only [IdCall.spec, if_pos hgid]
    exact { h with
      serves := hsame.serves
      ids_eq := hids
      fsUid_eq := h.fsUid_eq
      fsGid_eq := by rw [hgid, ← h.fsGid_eq, hunset] }
  · simp only [IdCall.spec, if_neg hgid]
    exact { h with
      serves := hsame.serves
      ids_eq := hids
      fsUid_eq := h.fsUid_eq
      fsGid_eq := rfl
      fsGid_ne := fun heq => hgid (Option.some.inj heq) }

/-- A call that does not store -1 returns and changes what it is meant to. -/
theorem run (h : a.Held b codec x) {call : IdCall} (haccepted : call.Accepted)
    (hkeeps : call.KeepsSentinel x.2) :
    (call.run w codec x).1 = (call.spec a).1 ∧
      (call.spec a).2.Held b codec (call.run w codec x).2 := by
  obtain ⟨⟨p, s⟩, fs⟩ := x
  have horUnchanged : ∀ {id old}, id ≠ idUnchanged → IdCall.orUnchanged id old = id :=
    fun hid => if_neg hid
  cases call with
  | setuid uid =>
      obtain ⟨p', s', hexec, hheld⟩ := h.setuid hw haccepted
      rw [IdCall.run_of_set rfl hexec]
      exact ⟨rfl, hheld⟩
  | setgid gid =>
      obtain ⟨p', s', hexec, hheld⟩ := h.setgid hw haccepted
      rw [IdCall.run_of_set rfl hexec]
      exact ⟨rfl, hheld⟩
  | setreuid ruid euid =>
      obtain ⟨p', s', hexec, hheld⟩ := h.setuid hw hkeeps
      rw [IdCall.run_of_set rfl hexec, IdCall.spec, horUnchanged hkeeps]
      exact ⟨rfl, hheld⟩
  | setregid rgid egid =>
      obtain ⟨p', s', hexec, hheld⟩ := h.setgid hw hkeeps
      rw [IdCall.run_of_set rfl hexec, IdCall.spec, horUnchanged hkeeps]
      exact ⟨rfl, hheld⟩
  | setresuid ruid euid suid =>
      obtain ⟨p', s', hexec, hheld⟩ := h.setuid hw hkeeps
      rw [IdCall.run_of_set rfl hexec, IdCall.spec, horUnchanged hkeeps]
      exact ⟨rfl, hheld⟩
  | setresgid rgid egid sgid =>
      obtain ⟨p', s', hexec, hheld⟩ := h.setgid hw hkeeps
      rw [IdCall.run_of_set rfl hexec, IdCall.spec, horUnchanged hkeeps]
      exact ⟨rfl, hheld⟩
  | setfsuid uid => exact h.run_setfsuid hw hkeeps
  | setfsgid gid => exact h.run_setfsgid hw hkeeps

end Identity.Held

/-! ## Runs -/

/-- The identity of a process whose setters of filesystem ids have not been called. -/
def Identity.start (ids : UInt32 × UInt32) : Identity :=
  ⟨ids.1, ids.2, none, none⟩

theorem Identity.held_start {n : ℕ} [NeZero n] {b : Option Backing} {codec : XattrCodec}
    {x : Host n} (hx : x.Serves b codec) (huid : (x.ids b).1 ≠ idUnchanged)
    (hgid : (x.ids b).2 ≠ idUnchanged) :
    (Identity.start (x.ids b)).Held b codec (x, FsIds.new) :=
  ⟨hx, rfl, rfl, rfl, huid, hgid, nofun, nofun⟩

/-- The state holds this identity, -1 is none of its current ids, and every call returns what
the identity gives. -/
structure Identity.Governs {n : ℕ} [NeZero n] (b : Option Backing) (w : Wincode)
    (codec : XattrCodec) (a : Identity) (x : Host n × FsIds) : Prop where
  ids_eq : x.1.ids b = (a.uid, a.gid)
  uid_ne : (x.1.ids b).1 ≠ idUnchanged
  gid_ne : (x.1.ids b).2 ≠ idUnchanged
  setfsuid : ∀ uid, (IdCall.run w codec x (.setfsuid uid)).1 = (a.fsUid.getD a.uid).toInt32
  setfsgid : ∀ gid, (IdCall.run w codec x (.setfsgid gid)).1 = (a.fsGid.getD a.gid).toInt32

theorem Identity.Held.governs {n : ℕ} [NeZero n] {b : Option Backing} {w : Wincode}
    (hw : w.Lawful) {codec : XattrCodec} {a : Identity} {x : Host n × FsIds}
    (h : a.Held b codec x) : a.Governs b w codec x where
  ids_eq := h.ids_eq
  uid_ne := by
    rw [h.ids_eq]
    exact h.uid_ne
  gid_ne := by
    rw [h.ids_eq]
    exact h.gid_ne
  setfsuid uid := by
    obtain ⟨p', hexec, -⟩ := IdCall.exec_setfsuid hw x.2 h.serves uid
    rw [IdCall.run_eq hexec, h.ids_eq, h.fsUid_eq, previous_eq h.fsUid_ne]
  setfsgid gid := by
    obtain ⟨p', hexec, -⟩ := IdCall.exec_setfsgid hw x.2 h.serves gid
    rw [IdCall.run_eq hexec, h.ids_eq, h.fsGid_eq, previous_eq h.fsGid_ne]

/-- In a run whose calls do not store -1, every state reached holds the identity that the calls
so far build up. -/
theorem Identity.governs_of_keepsSentinel {n : ℕ} [NeZero n] {b : Option Backing} {w : Wincode}
    (hw : w.Lawful) {codec : XattrCodec} {x : Host n} (hx : x.Serves b codec)
    (huid : (x.ids b).1 ≠ idUnchanged) (hgid : (x.ids b).2 ≠ idUnchanged)
    (calls : List IdCall) (haccepted : ∀ call ∈ calls, call.Accepted)
    (hkeeps : ∀ i (hi : i < calls.length), calls[i].KeepsSentinel
      (Machine.run (IdCall.step w codec) (x, FsIds.new) (calls.take i)).2) :
    ∀ i ≤ calls.length,
      (Machine.run (fun a call => (IdCall.spec a call).2) (Identity.start (x.ids b))
        (calls.take i)).Governs b w codec
        (Machine.run (IdCall.step w codec) (x, FsIds.new) (calls.take i)) := by
  intro i hi
  have hheld : (Machine.run (fun a call => (IdCall.spec a call).2) (Identity.start (x.ids b))
      (calls.take i)).Held b codec
      (Machine.run (IdCall.step w codec) (x, FsIds.new) (calls.take i)) :=
    Machine.run_relation_of_guard
    (R := fun (y : Host n × FsIds) (a : Identity) => a.Held b codec y)
    (P := fun (y : Host n × FsIds) (call : IdCall) => call.Accepted ∧ call.KeepsSentinel y.2)
    (fun y a call hcall h => (h.run hw hcall.1 hcall.2).2)
    (Identity.held_start hx huid hgid) calls
    (fun j hj => ⟨haccepted _ (List.getElem_mem hj), hkeeps j hj⟩) i hi
  exact hheld.governs hw

/-- A process without a session that has been initialized. -/
def Process.settledAlone : Process :=
  (Process.withoutSession 0 0).initialized

theorem Identity.governs_of_keepsSentinel_setfsuid :
    let x : Host 1 := (Process.settledAlone, Session.start 1 0 0)
    let calls : List IdCall := [.setreuid 7 5, .setfsuid 6]
    (Machine.run (fun a call => (IdCall.spec a call).2) (Identity.start (x.ids none))
        (calls.take 2)).Governs none Wincode.bincode XattrCodec.wincode
      (Machine.run (IdCall.step Wincode.bincode XattrCodec.wincode) (x, FsIds.new)
        (calls.take 2)) := by
  intro x calls
  have hserves : x.Serves none XattrCodec.wincode :=
    Host.serves_inProcess (Process.Alone.inProcess (Process.alone_withoutSession 0 0)) _
  refine Identity.governs_of_keepsSentinel Wincode.bincode_lawful hserves (by decide) (by decide)
    calls ?_ ?_ 2 le_rfl
  · intro call hcall
    simp only [calls, List.mem_cons, List.not_mem_nil, or_false] at hcall
    rcases hcall with rfl | rfl <;> trivial
  · intro i hi
    match i, hi with
    | 0, _ => exact (by decide : (5 : UInt32) ≠ idUnchanged)
    | 1, _ => exact fun h => absurd h (by decide)

/-- A setreuid that leaves the effective uid unchanged makes -1 the current uid, and a query of
the filesystem uid unsets it. -/
theorem Identity.unchanged_stored :
    let run := Machine.run (IdCall.step Wincode.bincode XattrCodec.wincode)
      (((Process.settledAlone, Session.start 1 0 0), FsIds.new) : Host 1 × FsIds)
    (run [.setreuid idUnchanged idUnchanged]).1.ids none = (idUnchanged, 0) ∧
      (IdCall.run Wincode.bincode XattrCodec.wincode (run [.setfsuid 5, .setfsuid idUnchanged])
        (.setfsuid 6)).1 = 0 ∧
      ¬ (Machine.run (fun a call => (IdCall.spec a call).2) (Identity.start (0, 0))
        [.setreuid idUnchanged idUnchanged]).Governs none Wincode.bincode XattrCodec.wincode
          (run [.setreuid idUnchanged idUnchanged]) ∧
      ¬ (Machine.run (fun a call => (IdCall.spec a call).2) (Identity.start (0, 0))
        [.setfsuid 5, .setfsuid idUnchanged]).Governs none Wincode.bincode XattrCodec.wincode
          (run [.setfsuid 5, .setfsuid idUnchanged]) := by
  intro run
  have hids : (run [.setreuid idUnchanged idUnchanged]).1.ids none = (idUnchanged, 0) := by
    decide +kernel
  have hprevious : (IdCall.run Wincode.bincode XattrCodec.wincode
      (run [.setfsuid 5, .setfsuid idUnchanged]) (.setfsuid 6)).1 = 0 := by
    decide +kernel
  refine ⟨hids, hprevious, fun h => h.uid_ne (by rw [hids]), fun h => ?_⟩
  have hgiven := h.setfsuid 6
  rw [hprevious] at hgiven
  exact absurd hgiven (by decide +kernel)

end Pseudoroot
