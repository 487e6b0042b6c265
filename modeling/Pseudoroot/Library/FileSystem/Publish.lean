import Mathlib.Logic.Function.Basic
import Pseudoroot.Library.Calls.Program
import Pseudoroot.Library.Runs

/-! # Files written aside and renamed into place

Processes write a file under a temporary name and rename it to its final name. Their calls
interleave, a call may fail, a write may be short, and a process may be killed between any two
of its calls. -/

namespace Publish

open Calls Calls.Program

/-! ## Files -/

/-- Names lead to numbered files. No file has a number from `next` on. -/
structure Files (N β : Type) where
  names : N → Option ℕ
  data : ℕ → List β
  next : ℕ

inductive Call (N β : Type) where
  | stat (name : N)
  /-- Make the directories that a name lies in, however many, as one call. -/
  | makeDir (name : N)
  /-- Open for writing: a new file, or the file of that name cut to nothing. -/
  | create (name : N)
  | write (file off : ℕ) (bytes : List β)
  | rename (source dest : N)

def Call.Reply {N β : Type} (ε : Type) : Call N β → Type
  | .stat _ => Bool
  | .makeDir _ => Except ε Unit
  | .create _ => Except ε ℕ
  | .write .. => Except ε ℕ
  | .rename .. => Except ε Unit

abbrev calls (N β ε : Type) : Signature where
  Call := Call N β
  Reply := Call.Reply ε

/-- What the system makes of one call. The count is the most that a write writes. -/
inductive Decision (ε : Type) where
  | refuse (e : ε)
  | grant (count : ℕ)

/-- The call is refused, or it is a write of nothing. -/
def Decision.Fails {ε : Type} : Decision ε → Prop
  | .refuse _ => True
  | .grant count => count = 0

/-- Overwrite from an offset on. A gap is filled. -/
def writeAt {β : Type} [Inhabited β] (old : List β) (off : ℕ) (bytes : List β) : List β :=
  old.take off ++ List.replicate (off - old.length) default ++ bytes ++
    old.drop (off + bytes.length)

theorem writeAt_length {β : Type} [Inhabited β] (old bytes : List β) :
    writeAt old old.length bytes = old ++ bytes := by
  simp [writeAt]

section Handler

variable {N β ε : Type} [DecidableEq N] [Inhabited β]

def Files.create (s : Files N β) (name : N) : ℕ × Files N β :=
  match s.names name with
  | some file => (file, { s with data := Function.update s.data file [] })
  | none =>
    (s.next,
      { names := Function.update s.names name (some s.next)
        data := Function.update s.data s.next []
        next := s.next + 1 })

def Files.write (s : Files N β) (file off : ℕ) (bytes : List β) : Files N β :=
  { s with data := Function.update s.data file (writeAt (s.data file) off bytes) }

/-- Two names of one file are left as they are. -/
def Files.rename (missing : ε) (s : Files N β) (source dest : N) : Except ε Unit × Files N β :=
  match s.names source with
  | none => (.error missing, s)
  | some file =>
    if s.names dest = some file then (.ok (), s)
    else
      (.ok (),
        { s with names := Function.update (Function.update s.names source none) dest (some file) })

def handler (missing : ε) : Decision ε → Handler (calls N β ε) (Files N β)
  | .refuse _, .stat _, s => (false, s)
  | .refuse e, .makeDir _, s => (.error e, s)
  | .refuse e, .create _, s => (.error e, s)
  | .refuse e, .write .., s => (.error e, s)
  | .refuse e, .rename .., s => (.error e, s)
  | .grant _, .stat name, s => ((s.names name).isSome, s)
  | .grant _, .makeDir _, s => (.ok (), s)
  | .grant _, .create name, s => (.ok (s.create name).1, (s.create name).2)
  | .grant count, .write file off bytes, s =>
    (.ok (bytes.take count).length, s.write file off (bytes.take count))
  | .grant _, .rename source dest, s => s.rename missing source dest

end Handler

/-! ## Programs -/

section Programs

variable {N β ε α : Type}

/-- Go on with the value, or end with the error. -/
def onOk {γ : Type} (reply : Except ε γ) (next : γ → Program (calls N β ε) (Except ε α)) :
    Program (calls N β ε) (Except ε α) :=
  match reply with
  | .error e => .done (.error e)
  | .ok c => next c

/-- Write until nothing is left. A write of nothing is the error `zero`. -/
def writeAll (zero : ε) (file off : ℕ) (bytes : List β) :
    Program (calls N β ε) (Except ε Unit) :=
  match bytes with
  | [] => .done (.ok ())
  | b :: bs =>
    .call (.write file off (b :: bs)) fun
      | .error e => .done (.error e)
      | .ok 0 => .done (.error zero)
      | .ok (n + 1) => writeAll zero file (off + (n + 1)) (bs.drop n)
termination_by bytes.length
decreasing_by simp only [List.length_drop, List.length_cons]; omega

/-- Replace what a name holds. -/
def writeFile (zero : ε) (name : N) (bytes : List β) : Program (calls N β ε) (Except ε Unit) :=
  .call (.create name) fun reply => onOk reply fun file => writeAll zero file 0 bytes

/-- What one process publishes, and what it returns when the file is there. -/
structure Job (N β α : Type) where
  temp : N
  target : N
  content : List β
  result : α

namespace Job

variable (zero : ε) (job : Job N β α)

def finish : Program (calls N β ε) (Except ε α) :=
  .call (.rename job.temp job.target) fun reply => onOk reply fun _ => .done (.ok job.result)

def fill (file off : ℕ) (bytes : List β) : Program (calls N β ε) (Except ε α) :=
  writeAll zero file off bytes >>= fun reply => onOk reply fun _ => job.finish

def openTemp : Program (calls N β ε) (Except ε α) :=
  .call (.create job.temp) fun reply => onOk reply fun file => job.fill zero file 0 job.content

def prepare : Program (calls N β ε) (Except ε α) :=
  .call (.makeDir job.target) fun reply => onOk reply fun _ => job.openTemp zero

/-- Publish the file unless it is there. -/
def publish : Program (calls N β ε) (Except ε α) :=
  .call (.stat job.target) fun found =>
    match found with
    | true => .done (.ok job.result)
    | false => job.prepare zero

theorem fill_nil (file off : ℕ) : job.fill zero file off [] = job.finish := by
  rw [fill, writeAll, done_bind, onOk]

theorem fill_cons (file off : ℕ) (b : β) (bs : List β) :
    job.fill zero file off (b :: bs) = .call (.write file off (b :: bs)) fun
      | .error e => .done (.error e)
      | .ok 0 => .done (.error zero)
      | .ok (n + 1) => job.fill zero file (off + (n + 1)) (bs.drop n) := by
  rw [fill, writeAll, call_bind]
  refine congrArg _ (funext fun reply => ?_)
  cases reply with
  | error e => rfl
  | ok n =>
      cases n with
      | zero => rfl
      | succ n => rfl

end Job

end Programs

/-! ## Processes -/

inductive Process (N β ε α : Type) where
  | waiting
  | running (rest : Program (calls N β ε) (Except ε α))
  | ended (result : Except ε α)
  | killed

structure System (ι N β ε α : Type) where
  files : Files N β
  process : ι → Process N β ε α

inductive Event (ι ε : Type) where
  | start (i : ι)
  | call (i : ι) (d : Decision ε)
  /-- The next call of the process, an open or a write, is interrupted and begun again. -/
  | interrupt (i : ι)
  | kill (i : ι)

section Steps

variable {ι N β ε α : Type}

/-- A program that is done ends its process. -/
def Process.after : Program (calls N β ε) (Except ε α) → Process N β ε α
  | .done result => .ended result
  | .call c next => .running (.call c next)

theorem Process.after_eq_ended {p : Program (calls N β ε) (Except ε α)} {result : Except ε α}
    (h : Process.after p = .ended result) : p = .done result := by
  cases p with
  | done r => rw [Process.ended.inj h]
  | call c next => cases h

/-- The jobs name their temporary files apart from all targets, and agree on what a target
holds. -/
structure Separate (jobs : ι → Job N β α) : Prop where
  temp_ne : ∀ i j, (jobs i).temp ≠ (jobs j).target
  content_eq : ∀ i j, (jobs i).target = (jobs j).target → (jobs i).content = (jobs j).content

/-- A process starts only while no other one runs with its temporary name. -/
def TempFree (jobs : ι → Job N β α) (s : System ι N β ε α) : Event ι ε → Prop
  | .start i => ∀ j ≠ i, ∀ rest, s.process j = .running rest → (jobs j).temp ≠ (jobs i).temp
  | _ => True

variable [DecidableEq ι]

/-- What holds of a process still holds when another one goes on. -/
theorem holds_update {P : Process N β ε α → Prop} {process : ι → Process N β ε α} {i j : ι}
    {next : Process N β ε α} (hi : P (process i)) (hnext : i = j → P next) :
    P (Function.update process j next i) := by
  by_cases h : i = j
  · subst h
    rw [Function.update_self]
    exact hnext rfl
  · rw [Function.update_of_ne h]
    exact hi

variable [DecidableEq N] [Inhabited β]

def step (missing : ε) (program : ι → Program (calls N β ε) (Except ε α))
    (s : System ι N β ε α) : Event ι ε → System ι N β ε α
  | .start i =>
    match s.process i with
    | .waiting => { s with process := Function.update s.process i (.after (program i)) }
    | _ => s
  | .call i d =>
    match s.process i with
    | .running rest =>
      { files := (rest.advance (handler missing d) s.files).2
        process := Function.update s.process i
          (.after (rest.advance (handler missing d) s.files).1) }
    | _ => s
  -- an interrupted call has done nothing
  | .interrupt _ => s
  | .kill i =>
    match s.process i with
    | .running _ => { s with process := Function.update s.process i .killed }
    | _ => s

/-- What an event leads to. -/
inductive Effect (missing : ε) (program : ι → Program (calls N β ε) (Except ε α))
    (s : System ι N β ε α) : Event ι ε → System ι N β ε α → Prop where
  | idle (event : Event ι ε) : Effect missing program s event s
  | start (i : ι) (hi : s.process i = .waiting) :
      Effect missing program s (.start i)
        ⟨s.files, Function.update s.process i (.after (program i))⟩
  | call (i : ι) (d : Decision ε) (rest : Program (calls N β ε) (Except ε α))
      (hi : s.process i = .running rest) :
      Effect missing program s (.call i d)
        ⟨(rest.advance (handler missing d) s.files).2,
          Function.update s.process i (.after (rest.advance (handler missing d) s.files).1)⟩
  | kill (i : ι) (rest : Program (calls N β ε) (Except ε α)) (hi : s.process i = .running rest) :
      Effect missing program s (.kill i) ⟨s.files, Function.update s.process i .killed⟩

theorem step_effect (missing : ε) (program : ι → Program (calls N β ε) (Except ε α))
    (s : System ι N β ε α) (event : Event ι ε) :
    Effect missing program s event (step missing program s event) := by
  cases event with
  | start i =>
      cases hi : s.process i with
      | waiting => simpa only [step, hi] using .start i hi
      | running rest => simpa only [step, hi] using .idle _
      | ended result => simpa only [step, hi] using .idle _
      | killed => simpa only [step, hi] using .idle _
  | call i d =>
      cases hi : s.process i with
      | running rest => simpa only [step, hi] using .call i d rest hi
      | waiting => simpa only [step, hi] using .idle _
      | ended result => simpa only [step, hi] using .idle _
      | killed => simpa only [step, hi] using .idle _
  | interrupt i => exact .idle _
  | kill i =>
      cases hi : s.process i with
      | running rest => simpa only [step, hi] using .kill i rest hi
      | waiting => simpa only [step, hi] using .idle _
      | ended result => simpa only [step, hi] using .idle _
      | killed => simpa only [step, hi] using .idle _

end Steps

/-! ## What one call changes -/

section Change

variable {ι N β α : Type} {jobs : ι → Job N β α} {s s' : Files N β}

/-- Each file has one name, and every target that is there holds its content. -/
structure Intact (jobs : ι → Job N β α) (s : Files N β) : Prop where
  used : ∀ name file, s.names name = some file → file < s.next
  alone : ∀ m n file, s.names m = some file → s.names n = some file → m = n
  whole : ∀ i file, s.names (jobs i).target = some file → s.data file = (jobs i).content

/-- A file that no temporary name leads to. -/
def Settled (jobs : ι → Job N β α) (s : Files N β) (file : ℕ) : Prop :=
  file < s.next ∧ ∀ i, s.names (jobs i).temp ≠ some file

theorem Intact.settled (hs : Intact jobs s) (hsep : Separate jobs) {i : ι} {file : ℕ}
    (hfile : s.names (jobs i).target = some file) : Settled jobs s file :=
  ⟨hs.used _ _ hfile, fun j hj => hsep.temp_ne j i (hs.alone _ _ _ hj hfile)⟩

theorem Intact.stored (hs : Intact jobs s) (hsep : Separate jobs) {i : ι} {file : ℕ}
    (hfile : s.names (jobs i).temp = some file) (bytes : List β) :
    Intact jobs { s with data := Function.update s.data file bytes } where
  used := hs.used
  alone := hs.alone
  whole j other hj := by
    rw [← hs.whole j other hj]
    refine Function.update_of_ne ?_ _ _
    rintro rfl
    exact hsep.temp_ne i j (hs.alone _ _ _ hfile hj)

variable [DecidableEq N]

inductive Change (job : Job N β α) (s : Files N β) : Files N β → Prop where
  | none : Change job s s
  | made (free : s.names job.temp = none) :
      Change job s
        { names := Function.update s.names job.temp (some s.next)
          data := Function.update s.data s.next []
          next := s.next + 1 }
  | stored (file : ℕ) (bytes : List β) (name : s.names job.temp = some file) :
      Change job s { s with data := Function.update s.data file bytes }
  | moved (file : ℕ) (name : s.names job.temp = some file) (full : s.data file = job.content) :
      Change job s
        { s with
          names := Function.update (Function.update s.names job.temp Option.none) job.target
            (some file) }

/-- Names other than the two of the job keep their files, and these keep their content. -/
theorem Change.kept {i : ι} (hc : Change (jobs i) s s') (hs : Intact jobs s) {name : N}
    (htemp : name ≠ (jobs i).temp) (htarget : name ≠ (jobs i).target) :
    s'.names name = s.names name ∧ ∀ file, s.names name = some file →
      s'.data file = s.data file := by
  cases hc with
  | none => exact ⟨rfl, fun _ _ => rfl⟩
  | made free =>
      refine ⟨Function.update_of_ne htemp _ _, fun file hfile => Function.update_of_ne ?_ _ _⟩
      exact Nat.ne_of_lt (hs.used name file hfile)
  | stored file bytes hname =>
      refine ⟨rfl, fun other hother => Function.update_of_ne ?_ _ _⟩
      rintro rfl
      exact htemp (hs.alone _ _ _ hother hname)
  | moved file hname full =>
      refine ⟨?_, fun _ _ => rfl⟩
      exact (Function.update_of_ne htarget _ _).trans (Function.update_of_ne htemp _ _)

/-- A settled file stays settled and keeps its content. -/
theorem Change.settled {i : ι} (hc : Change (jobs i) s s') (hsep : Separate jobs) {file : ℕ}
    (hf : Settled jobs s file) : Settled jobs s' file ∧ s'.data file = s.data file := by
  obtain ⟨hlt, hnone⟩ := hf
  cases hc with
  | none => exact ⟨⟨hlt, hnone⟩, rfl⟩
  | made free =>
      refine ⟨⟨Nat.lt_succ_of_lt hlt, fun j => ?_⟩, Function.update_of_ne (Nat.ne_of_lt hlt) _ _⟩
      by_cases hj : (jobs j).temp = (jobs i).temp
      · simp only [hj, Function.update_self]
        intro heq
        exact Nat.ne_of_gt hlt (Option.some.inj heq)
      · simp only [Function.update_of_ne hj]
        exact hnone j
  | stored other bytes hname =>
      refine ⟨⟨hlt, hnone⟩, Function.update_of_ne ?_ _ _⟩
      rintro rfl
      exact hnone i hname
  | moved other hname full =>
      refine ⟨⟨hlt, fun j => ?_⟩, rfl⟩
      simp only [Function.update_of_ne (hsep.temp_ne j i)]
      by_cases hj : (jobs j).temp = (jobs i).temp
      · simp [hj]
      · rw [Function.update_of_ne hj]
        exact hnone j

/-- A target that is there stays there. -/
theorem Change.isSome {i : ι} (hc : Change (jobs i) s s') (hsep : Separate jobs) {j : ι}
    (hj : (s.names (jobs j).target).isSome) : (s'.names (jobs j).target).isSome := by
  cases hc with
  | none => exact hj
  | made free => simpa only [Function.update_of_ne (hsep.temp_ne i j).symm] using hj
  | stored file bytes hname => exact hj
  | moved file hname full =>
      by_cases htarget : (jobs j).target = (jobs i).target
      · simp [htarget]
      · simpa only [Function.update_of_ne htarget,
          Function.update_of_ne (hsep.temp_ne i j).symm] using hj

/-- Who names a file after the move. -/
theorem names_moved {temp target name : N} {file other : ℕ}
    (h : Function.update (Function.update s.names temp none) target (some file) name = some other) :
    (name = target ∧ other = file) ∨
      (name ≠ target ∧ name ≠ temp ∧ s.names name = some other) := by
  by_cases htarget : name = target
  · subst htarget
    rw [Function.update_self] at h
    exact .inl ⟨rfl, (Option.some.inj h).symm⟩
  · rw [Function.update_of_ne htarget] at h
    by_cases htemp : name = temp
    · rw [htemp, Function.update_self] at h
      cases h
    · rw [Function.update_of_ne htemp] at h
      exact .inr ⟨htarget, htemp, h⟩

/-- Who names a file after a new one got its name. -/
theorem names_made {temp name : N} {other : ℕ}
    (h : Function.update s.names temp (some s.next) name = some other) :
    (name = temp ∧ other = s.next) ∨ (name ≠ temp ∧ s.names name = some other) := by
  by_cases htemp : name = temp
  · subst htemp
    rw [Function.update_self] at h
    exact .inl ⟨rfl, (Option.some.inj h).symm⟩
  · rw [Function.update_of_ne htemp] at h
    exact .inr ⟨htemp, h⟩

theorem Intact.made (hs : Intact jobs s) (hsep : Separate jobs) (i : ι) :
    Intact jobs
      { names := Function.update s.names (jobs i).temp (some s.next)
        data := Function.update s.data s.next []
        next := s.next + 1 } where
  used name file hname := by
    rcases names_made hname with ⟨_, rfl⟩ | ⟨_, hold⟩
    · exact Nat.lt_succ_self _
    · exact Nat.lt_succ_of_lt (hs.used name file hold)
  alone m n file hm hn := by
    rcases names_made hm with ⟨rfl, rfl⟩ | ⟨_, hm⟩
    · rcases names_made hn with ⟨rfl, _⟩ | ⟨_, hn⟩
      · rfl
      · exact absurd (hs.used n _ hn) (Nat.lt_irrefl _)
    · rcases names_made hn with ⟨rfl, rfl⟩ | ⟨_, hn⟩
      · exact absurd (hs.used m _ hm) (Nat.lt_irrefl _)
      · exact hs.alone m n file hm hn
  whole j file hj := by
    rcases names_made hj with ⟨htemp, _⟩ | ⟨_, hold⟩
    · exact absurd htemp.symm (hsep.temp_ne i j)
    · rw [← hs.whole j file hold]
      exact Function.update_of_ne (Nat.ne_of_lt (hs.used _ _ hold)) _ _

theorem Intact.moved (hs : Intact jobs s) (hsep : Separate jobs) {i : ι} {file : ℕ}
    (hfile : s.names (jobs i).temp = some file) (hfull : s.data file = (jobs i).content) :
    Intact jobs
      { s with
        names := Function.update (Function.update s.names (jobs i).temp none) (jobs i).target
          (some file) } where
  used name other hname := by
    rcases names_moved hname with ⟨_, rfl⟩ | ⟨_, _, hold⟩
    · exact hs.used _ _ hfile
    · exact hs.used name other hold
  alone m n other hm hn := by
    rcases names_moved hm with ⟨rfl, rfl⟩ | ⟨_, hmtemp, hmold⟩
    · rcases names_moved hn with ⟨rfl, _⟩ | ⟨_, hntemp, hnold⟩
      · rfl
      · exact absurd (hs.alone _ _ _ hnold hfile) hntemp
    · rcases names_moved hn with ⟨rfl, rfl⟩ | ⟨_, _, hnold⟩
      · exact absurd (hs.alone _ _ _ hmold hfile) hmtemp
      · exact hs.alone m n other hmold hnold
  whole j other hj := by
    rcases names_moved hj with ⟨htarget, rfl⟩ | ⟨_, _, hold⟩
    · rw [hsep.content_eq j i htarget]
      exact hfull
    · exact hs.whole j other hold

theorem Change.intact {i : ι} (hc : Change (jobs i) s s') (hs : Intact jobs s)
    (hsep : Separate jobs) : Intact jobs s' := by
  cases hc with
  | none => exact hs
  | made free => exact hs.made hsep i
  | stored file bytes hname => exact hs.stored hsep hname bytes
  | moved file hname full => exact hs.moved hsep hname full

end Change

end Publish
