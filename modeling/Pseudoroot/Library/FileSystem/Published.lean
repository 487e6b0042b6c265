import Pseudoroot.Library.FileSystem.Publish

/-! # What processes publish

A target that is there is whole at every moment of a run, and stays so. A process ends after a
bounded number of its own calls, whatever the others do. -/

namespace Publish

open Calls Calls.Program

/-! ## Where a process stands -/

section Stage

variable {N β ε α : Type} {writeZero missing : ε} {s : Files N β} {job : Job N β α}

/-- What a running process knows of its temporary file. -/
inductive Stage (writeZero : ε) (s : Files N β) (job : Job N β α) :
    Program (calls N β ε) (Except ε α) → Prop where
  | publish : Stage writeZero s job (job.publish writeZero)
  | prepare : Stage writeZero s job (job.prepare writeZero)
  | openTemp : Stage writeZero s job (job.openTemp writeZero)
  | fill (file off : ℕ) (name : s.names job.temp = some file)
      (part : s.data file = job.content.take off) (more : off < job.content.length) :
      Stage writeZero s job (job.fill writeZero file off (job.content.drop off))
  | finish (file : ℕ) (name : s.names job.temp = some file) (full : s.data file = job.content) :
      Stage writeZero s job job.finish

def Sound (writeZero : ε) (s : Files N β) (job : Job N β α) : Process N β ε α → Prop
  | .running rest => Stage writeZero s job rest
  | .ended (.ok a) => a = job.result ∧ (s.names job.target).isSome
  | _ => True

theorem exists_cons_drop {content : List β} {off : ℕ} (hoff : off < content.length) :
    ∃ b bs, content.drop off = b :: bs :=
  ⟨_, _, List.drop_eq_getElem_cons hoff⟩

/-- A process with nothing left to write goes on to rename. -/
theorem sound_of_part {file : ℕ} (off : ℕ) (name : s.names job.temp = some file)
    (part : s.data file = job.content.take off) :
    Sound writeZero s job (.after (job.fill writeZero file off (job.content.drop off))) := by
  rcases Nat.lt_or_ge off job.content.length with hoff | hoff
  · have hstage : Stage writeZero s job (job.fill writeZero file off (job.content.drop off)) :=
      .fill file off name part hoff
    obtain ⟨b, bs, hb⟩ := exists_cons_drop hoff
    rw [hb, Job.fill_cons] at hstage ⊢
    exact hstage
  · rw [List.drop_eq_nil_of_le hoff, Job.fill_nil]
    exact .finish file name (part.trans (List.take_of_length_le hoff))

theorem fill_ne_error {file off : ℕ} {bytes : List β} {e : ε} :
    job.fill writeZero file off bytes ≠ .done (.error e) := by
  cases bytes with
  | nil =>
      rw [Job.fill_nil]
      exact fun h => by cases h
  | cons b bs =>
      rw [Job.fill_cons]
      exact fun h => by cases h

variable [DecidableEq N] [Inhabited β]

/-- The written part grows at its end. -/
theorem writeAt_part {content : List β} {off : ℕ} (hoff : off ≤ content.length) (n : ℕ) :
    writeAt (content.take off) off ((content.drop off).take n) = content.take (off + n) := by
  have hlen : (content.take off).length = off := by simp [hoff]
  have hat := writeAt_length (content.take off) ((content.drop off).take n)
  rw [hlen] at hat
  rw [hat, List.take_add]

/-- What one call does to the files, where its process stands then, and why it would fail. -/
structure Advances (writeZero missing : ε) (s : Files N β) (job : Job N β α) (d : Decision ε)
    (rest : Program (calls N β ε) (Except ε α)) : Prop where
  change : Change job s (rest.advance (handler missing d) s).2
  sound : Sound writeZero (rest.advance (handler missing d) s).2 job
    (.after (rest.advance (handler missing d) s).1)
  fails : ∀ e, (rest.advance (handler missing d) s).1 = .done (.error e) → d.Fails

theorem advances_publish (d : Decision ε) :
    Advances writeZero missing s job d (job.publish writeZero) := by
  cases d with
  | refuse e => exact ⟨.none, .prepare, fun _ h => by cases h⟩
  | grant count =>
      cases hfound : s.names job.target with
      | none =>
          refine ⟨.none, ?_, ?_⟩ <;> simp only [Job.publish, advance, handler, hfound]
          · exact .prepare
          · exact fun _ h => by cases h
      | some file =>
          refine ⟨.none, ?_, ?_⟩ <;> simp only [Job.publish, advance, handler, hfound]
          · exact ⟨rfl, by rw [hfound]; rfl⟩
          · exact fun _ h => by cases h

theorem advances_prepare (d : Decision ε) :
    Advances writeZero missing s job d (job.prepare writeZero) := by
  cases d with
  | refuse e => exact ⟨.none, True.intro, fun _ _ => True.intro⟩
  | grant count => exact ⟨.none, .openTemp, fun _ h => by cases h⟩

theorem advances_openTemp (d : Decision ε) :
    Advances writeZero missing s job d (job.openTemp writeZero) := by
  cases d with
  | refuse e => exact ⟨.none, True.intro, fun _ _ => True.intro⟩
  | grant count =>
      have hpart (s' : Files N β) (file : ℕ) (hname : s'.names job.temp = some file)
          (hdata : s'.data file = []) :
          Sound writeZero s' job (.after (job.fill writeZero file 0 job.content)) :=
        sound_of_part 0 hname hdata
      cases hname : s.names job.temp with
      | none =>
          refine ⟨?_, ?_, ?_⟩ <;>
            simp only [Job.openTemp, advance, handler, Files.create, hname, onOk]
          · exact .made hname
          · exact hpart _ _ (Function.update_self ..) (Function.update_self ..)
          · exact fun _ h => absurd h fill_ne_error
      | some file =>
          refine ⟨?_, ?_, ?_⟩ <;>
            simp only [Job.openTemp, advance, handler, Files.create, hname, onOk]
          · exact .stored file [] hname
          · exact hpart _ _ hname (Function.update_self ..)
          · exact fun _ h => absurd h fill_ne_error

/-- A write that is granted makes the written part longer. -/
theorem advance_fill (writeZero missing : ε) {file off : ℕ}
    (hpart : s.data file = job.content.take off)
    (hoff : off < job.content.length) (count : ℕ) :
    ∃ n, (job.fill writeZero file off (job.content.drop off)).advance
        (handler missing (.grant (count + 1))) s =
      (job.fill writeZero file (off + n) (job.content.drop (off + n)),
        { s with data := Function.update s.data file (job.content.take (off + n)) }) := by
  obtain ⟨b, bs, hrest⟩ := exists_cons_drop hoff
  refine ⟨(bs.take count).length + 1, ?_⟩
  have hbytes : b :: bs.take count =
      (job.content.drop off).take ((bs.take count).length + 1) := by
    rw [hrest, List.take_succ_cons, List.length_take, ← List.take_eq_take_min]
  have hleft : job.content.drop (off + ((bs.take count).length + 1)) =
      bs.drop (bs.take count).length := by
    rw [← List.drop_drop, hrest, List.drop_succ_cons]
  have hdata : s.write file off (b :: bs.take count) =
      { s with
        data := Function.update s.data file
          (job.content.take (off + ((bs.take count).length + 1))) } := by
    rw [hbytes, Files.write, hpart, writeAt_part (Nat.le_of_lt hoff)]
  rw [hrest, Job.fill_cons, hleft, ← hdata]
  rfl

theorem advances_fill {file off : ℕ} (hname : s.names job.temp = some file)
    (hpart : s.data file = job.content.take off) (hoff : off < job.content.length)
    (d : Decision ε) :
    Advances writeZero missing s job d (job.fill writeZero file off (job.content.drop off)) := by
  obtain ⟨b, bs, hrest⟩ := exists_cons_drop hoff
  cases d with
  | refuse e =>
      rw [hrest, Job.fill_cons]
      exact ⟨.none, True.intro, fun _ _ => True.intro⟩
  | grant count =>
      cases count with
      | zero =>
          rw [hrest, Job.fill_cons]
          exact ⟨.stored file _ hname, True.intro, fun _ _ => rfl⟩
      | succ count =>
          obtain ⟨n, hn⟩ := advance_fill writeZero missing hpart hoff count
          refine ⟨?_, ?_, ?_⟩ <;> rw [hn]
          · exact .stored file _ hname
          · exact sound_of_part _ hname (Function.update_self ..)
          · exact fun _ h => absurd h fill_ne_error

theorem advances_finish (hs : ∀ m n file, s.names m = some file → s.names n = some file → m = n)
    (hne : job.temp ≠ job.target) {file : ℕ} (hname : s.names job.temp = some file)
    (hfull : s.data file = job.content) (d : Decision ε) :
    Advances writeZero missing s job d job.finish := by
  cases d with
  | refuse e => exact ⟨.none, True.intro, fun _ _ => True.intro⟩
  | grant count =>
      have htarget : s.names job.target ≠ some file := fun h => hne (hs _ _ _ hname h)
      refine ⟨?_, ?_, ?_⟩ <;>
        simp only [Job.finish, advance, handler, Files.rename, hname, htarget, if_false, onOk]
      · exact .moved file hname hfull
      · exact ⟨rfl, Option.isSome_iff_exists.mpr ⟨file, Function.update_self ..⟩⟩
      · exact fun _ h => by cases h

theorem Stage.advances {rest : Program (calls N β ε) (Except ε α)}
    (hp : Stage writeZero s job rest)
    (hs : ∀ m n file, s.names m = some file → s.names n = some file → m = n)
    (hne : job.temp ≠ job.target) (d : Decision ε) :
    Advances writeZero missing s job d rest := by
  cases hp with
  | publish => exact advances_publish d
  | prepare => exact advances_prepare d
  | openTemp => exact advances_openTemp d
  | fill file off name part more => exact advances_fill name part more d
  | finish file name full => exact advances_finish hs hne name full d

end Stage

/-! ## The invariant -/

section Invariant

variable {ι N β ε α : Type} {writeZero missing : ε} {jobs : ι → Job N β α}
  {s s' : System ι N β ε α} {event : Event ι ε}

structure Inv (writeZero : ε) (jobs : ι → Job N β α) (s : System ι N β ε α) : Prop where
  intact : Intact jobs s.files
  sound : ∀ i, Sound writeZero s.files (jobs i) (s.process i)
  apart : ∀ i j p q, s.process i = .running p → s.process j = .running q →
    (jobs i).temp = (jobs j).temp → i = j

/-- One process goes on, and its call leaves the others where they stand. -/
theorem Inv.update [DecidableEq ι] (hs : Inv writeZero jobs s) {i : ι} {files : Files N β}
    {process : Process N β ε α} (intact : Intact jobs files)
    (sound : Sound writeZero files (jobs i) process)
    (others : ∀ j ≠ i, Sound writeZero files (jobs j) (s.process j))
    (apart : ∀ p, process = .running p → ∀ j ≠ i, ∀ q, s.process j = .running q →
      (jobs j).temp ≠ (jobs i).temp) :
    Inv writeZero jobs ⟨files, Function.update s.process i process⟩ where
  intact := intact
  sound j := by
    by_cases hj : j = i
    · subst hj
      simpa only [Function.update_self] using sound
    · simpa only [Function.update_of_ne hj] using others j hj
  apart j k p q hj hk htemp := by
    by_cases hji : j = i <;> by_cases hki : k = i
    · exact hji.trans hki.symm
    · subst hji
      simp only [Function.update_self, Function.update_of_ne hki] at hj hk
      exact absurd htemp.symm (apart p hj k hki q hk)
    · subst hki
      simp only [Function.update_self, Function.update_of_ne hji] at hj hk
      exact absurd htemp (apart q hk j hji p hj)
    · simp only [Function.update_of_ne hji, Function.update_of_ne hki] at hj hk
      exact hs.apart j k p q hj hk htemp

/-- Settled files and targets that are there stay. -/
structure Keeps (jobs : ι → Job N β α) (files files' : Files N β) : Prop where
  settled : ∀ file, Settled jobs files file →
    Settled jobs files' file ∧ files'.data file = files.data file
  target : ∀ i, (files.names (jobs i).target).isSome → (files'.names (jobs i).target).isSome

theorem Keeps.refl {files : Files N β} : Keeps jobs files files :=
  ⟨fun _ hf => ⟨hf, rfl⟩, fun _ hi => hi⟩

theorem Keeps.trans {a b c : Files N β} (hab : Keeps jobs a b) (hbc : Keeps jobs b c) :
    Keeps jobs a c where
  settled file hf := by
    obtain ⟨hb, hdata⟩ := hab.settled file hf
    obtain ⟨hc, hdata'⟩ := hbc.settled file hb
    exact ⟨hc, hdata'.trans hdata⟩
  target i hi := hbc.target i (hab.target i hi)

variable [DecidableEq N]

theorem Change.keeps {i : ι} {files files' : Files N β} (hc : Change (jobs i) files files')
    (hsep : Separate jobs) : Keeps jobs files files' :=
  ⟨fun _ hf => hc.settled hsep hf, fun _ hj => hc.isSome hsep hj⟩

/-- A call of another process leaves a process where it stands. -/
theorem Sound.kept {i j : ι} {files files' : Files N β} {process : Process N β ε α}
    (hp : Sound writeZero files (jobs j) process) (hc : Change (jobs i) files files')
    (hs : Intact jobs files) (hsep : Separate jobs)
    (hne : ∀ rest, process = .running rest → (jobs j).temp ≠ (jobs i).temp) :
    Sound writeZero files' (jobs j) process := by
  cases process with
  | waiting => exact True.intro
  | killed => exact True.intro
  | ended result =>
      cases result with
      | error e => exact True.intro
      | ok a => exact ⟨hp.1, hc.isSome hsep hp.2⟩
  | running rest =>
      obtain ⟨hname, hdata⟩ := hc.kept hs (hne rest rfl) (hsep.temp_ne j i)
      cases hp with
      | publish => exact .publish
      | prepare => exact .prepare
      | openTemp => exact .openTemp
      | fill file off name part more =>
          exact .fill file off (hname.trans name) ((hdata file name).trans part) more
      | finish file name full =>
          exact .finish file (hname.trans name) ((hdata file name).trans full)

variable [Inhabited β]

/-- What the next call of a running process does. -/
theorem Inv.advances (hs : Inv writeZero jobs s) (hsep : Separate jobs) {i : ι}
    {rest : Program (calls N β ε) (Except ε α)} (hi : s.process i = .running rest)
    (missing : ε) (d : Decision ε) : Advances writeZero missing s.files (jobs i) d rest := by
  have hsound := hs.sound i
  rw [hi] at hsound
  exact hsound.advances hs.intact.alone (hsep.temp_ne i i) d

variable [DecidableEq ι]

/-- All processes publish their jobs. -/
abbrev publishStep (writeZero missing : ε) (jobs : ι → Job N β α) :
    System ι N β ε α → Event ι ε → System ι N β ε α :=
  step missing fun i => (jobs i).publish writeZero

theorem Inv.step (hs : Inv writeZero jobs s) (hsep : Separate jobs)
    (he : Effect missing (fun i => (jobs i).publish writeZero) s event s')
    (hfree : TempFree jobs s event) : Inv writeZero jobs s' := by
  cases he with
  | idle event => exact hs
  | start i hi =>
      exact hs.update hs.intact .publish (fun j _ => hs.sound j) fun _ _ => hfree
  | kill i rest hi =>
      exact hs.update hs.intact True.intro (fun j _ => hs.sound j) fun _ h => by cases h
  | call i d rest hi =>
      have hadv := hs.advances hsep hi missing d
      have hne : ∀ j ≠ i, ∀ other, s.process j = .running other →
          (jobs j).temp ≠ (jobs i).temp := fun j hj other hother htemp =>
        hj (hs.apart j i other rest hother hi htemp)
      exact hs.update (hadv.change.intact hs.intact hsep) hadv.sound
        (fun j hj => (hs.sound j).kept hadv.change hs.intact hsep (hne j hj)) fun _ _ => hne

/-! ## Runs -/

theorem Inv.keeps (hs : Inv writeZero jobs s) (hsep : Separate jobs)
    (he : Effect missing (fun i => (jobs i).publish writeZero) s event s') :
    Keeps jobs s.files s'.files := by
  cases he with
  | idle event => exact .refl
  | start i hi => exact .refl
  | kill i rest hi => exact .refl
  | call i d rest hi => exact (hs.advances hsep hi missing d).change.keeps hsep

theorem Inv.step_ne_error (hs : Inv writeZero jobs s) (hsep : Separate jobs) {i : ι}
    (he : Effect missing (fun i => (jobs i).publish writeZero) s event s')
    (hi : ∀ e, s.process i ≠ .ended (.error e)) (hfails : ∀ d, event = .call i d → ¬ d.Fails) :
    ∀ e, s'.process i ≠ .ended (.error e) := by
  have hupdate {j : ι} {process : Process N β ε α}
      (hj : i = j → ∀ e, process ≠ .ended (.error e)) :
      ∀ e, Function.update s.process j process i ≠ .ended (.error e) :=
    holds_update (P := fun process => ∀ e, process ≠ .ended (.error e)) hi hj
  cases he with
  | idle event => exact hi
  | start j hj => exact hupdate fun _ e h => by cases h
  | kill j rest hj => exact hupdate fun _ e h => by cases h
  | call j d rest hj =>
      refine hupdate fun hij e hafter => ?_
      refine hfails d (by rw [hij]) ((hs.advances hsep hj missing d).fails e ?_)
      exact Process.after_eq_ended hafter

/-- No two processes of a run have one temporary name at the same time. -/
def Orderly (writeZero missing : ε) (jobs : ι → Job N β α) (s : System ι N β ε α)
    (events : List (Event ι ε)) : Prop :=
  ∀ k (hk : k < events.length),
    TempFree jobs (Machine.run (publishStep writeZero missing jobs) s (events.take k)) events[k]

section Run

variable {events : List (Event ι ε)} (hfree : Orderly writeZero missing jobs s events)
include hfree

theorem Inv.run (hs : Inv writeZero jobs s) (hsep : Separate jobs) :
    ∀ k ≤ events.length,
      Inv writeZero jobs
        (Machine.run (publishStep writeZero missing jobs) s (events.take k)) :=
  Machine.run_invariant_of_guard (fun s event hfree hs => hs.step hsep (step_effect missing _ s event) hfree) hs
    events hfree

theorem Inv.keeps_run (hs : Inv writeZero jobs s) (hsep : Separate jobs) {k m : ℕ} (hkm : k ≤ m)
    (hm : m ≤ events.length) :
    Keeps jobs (Machine.run (publishStep writeZero missing jobs) s (events.take k)).files
      (Machine.run (publishStep writeZero missing jobs) s (events.take m)).files := by
  obtain ⟨n, rfl⟩ := Nat.exists_eq_add_of_le hkm
  induction n with
  | zero => exact .refl
  | succ n ih =>
      refine (ih (Nat.le_add_right k n) (Nat.le_of_succ_le hm)).trans ?_
      rw [← Nat.add_assoc, Machine.run_take_succ _ s events (i := k + n) hm]
      exact (hs.run hfree hsep (k + n) (Nat.le_of_succ_le hm)).keeps hsep
        (step_effect missing _ _ _)

/-- A target that is there is whole, it stays there, and nothing ever changes the file that
it led to. -/
theorem Inv.published (hs : Inv writeZero jobs s) (hsep : Separate jobs) {k m : ℕ} (hkm : k ≤ m)
    (hm : m ≤ events.length) {i : ι} {file : ℕ}
    (hfile : (Machine.run (publishStep writeZero missing jobs) s (events.take k)).files.names
      (jobs i).target = some file) :
    ((Machine.run (publishStep writeZero missing jobs) s (events.take m)).files.names
        (jobs i).target).isSome ∧
      (Machine.run (publishStep writeZero missing jobs) s (events.take m)).files.data file =
        (jobs i).content := by
  have hk := (hs.run hfree hsep k (Nat.le_trans hkm hm)).intact
  have hkeeps := hs.keeps_run hfree hsep hkm hm
  refine ⟨hkeeps.target i (by rw [hfile]; rfl), ?_⟩
  rw [(hkeeps.settled file (hk.settled hsep hfile)).2, hk.whole i file hfile]

/-- A process none of whose calls fails returns no error. -/
theorem Inv.ne_error (hs : Inv writeZero jobs s) (hsep : Separate jobs) {i : ι}
    (hi : ∀ e, s.process i ≠ .ended (.error e))
    (hfails : ∀ d, .call i d ∈ events → ¬ d.Fails) {k : ℕ} (hk : k ≤ events.length) (e : ε) :
    (Machine.run (publishStep writeZero missing jobs) s (events.take k)).process i ≠
      .ended (.error e) := by
  have hguard : ∀ k (hk : k < events.length),
      TempFree jobs (Machine.run (publishStep writeZero missing jobs) s (events.take k))
          events[k] ∧ ∀ d, events[k] = .call i d → ¬ d.Fails :=
    fun k hk => ⟨hfree k hk, fun d hd => hfails d (hd ▸ List.getElem_mem hk)⟩
  have hrun := Machine.run_invariant_of_guard
    (I := fun s => Inv writeZero jobs s ∧ ∀ e, s.process i ≠ .ended (.error e))
    (P := fun s event => TempFree jobs s event ∧ ∀ d, event = .call i d → ¬ d.Fails)
    (fun s event hevent hinv => ⟨hinv.1.step hsep (step_effect missing _ s event) hevent.1,
      hinv.1.step_ne_error hsep (step_effect missing _ s event) hinv.2 hevent.2⟩)
    ⟨hs, hi⟩ events hguard
  exact (hrun k hk).2 e

end Run

end Invariant

/-! ## Every process ends -/

section Bounds

variable {ι N β ε α : Type}

theorem callsAtMost_onOk {γ : Type} {reply : Except ε γ}
    {next : γ → Program (calls N β ε) (Except ε α)} {k : ℕ}
    (h : ∀ c, CallsAtMost k (next c)) : CallsAtMost k (onOk reply next) := by
  cases reply with
  | error e => exact callsAtMost_done k _
  | ok c => exact h c

theorem callsAtMost_writeAll (writeZero : ε) (file off : ℕ) (bytes : List β) :
    CallsAtMost bytes.length (writeAll (N := N) writeZero file off bytes) := by
  induction off, bytes using writeAll.induct with
  | case1 off =>
      rw [writeAll]
      exact callsAtMost_done _ _
  | case2 off b bs ih =>
      rw [writeAll]
      intro reply
      rcases reply with e | _ | n
      · exact callsAtMost_done _ _
      · exact callsAtMost_done _ _
      · refine (ih n).mono ?_
        rw [List.length_drop]
        exact Nat.sub_le _ _

/-- One call to look, one to make the directory, one to open, at most one a byte to write, and
one to rename. -/
theorem Job.callsAtMost_publish (writeZero : ε) (job : Job N β α) :
    CallsAtMost (job.content.length + 4) (job.publish writeZero) := by
  have hfinish : CallsAtMost 1 (job.finish (ε := ε)) :=
    fun reply => callsAtMost_onOk fun _ => callsAtMost_done 0 _
  have hfill (file : ℕ) :
      CallsAtMost (job.content.length + 1) (job.fill writeZero file 0 job.content) :=
    (callsAtMost_writeAll writeZero file 0 job.content).bind fun _ =>
      callsAtMost_onOk fun _ => hfinish
  have hopen : CallsAtMost (job.content.length + 2) (job.openTemp writeZero) :=
    fun reply => callsAtMost_onOk hfill
  have hprepare : CallsAtMost (job.content.length + 3) (job.prepare writeZero) :=
    fun reply => callsAtMost_onOk fun _ => hopen
  intro found
  cases found with
  | true => exact callsAtMost_done _ _
  | false => exact hprepare

/-- The process runs with at most that many calls left, or it has ended. -/
def Left (k : ℕ) : Process N β ε α → Prop
  | .running p => CallsAtMost k p ∧ ∃ c next, p = .call c next
  | .ended _ => True
  | _ => False

theorem left_after {k : ℕ} {p : Program (calls N β ε) (Except ε α)} (hp : CallsAtMost k p) :
    Left k (.after p) := by
  cases p with
  | done result => exact True.intro
  | call c next => exact ⟨hp, c, next, rfl⟩

theorem Left.ended {process : Process N β ε α} (hp : Left 0 process) :
    ∃ result, process = .ended result := by
  cases process with
  | waiting => exact hp.elim
  | killed => exact hp.elim
  | ended result => exact ⟨result, rfl⟩
  | running p =>
      obtain ⟨hcalls, c, next, rfl⟩ := hp
      exact hcalls.elim

theorem Left.mono {k m : ℕ} {process : Process N β ε α} (hp : Left k process) (hkm : k ≤ m) :
    Left m process := by
  cases process with
  | waiting => exact hp.elim
  | killed => exact hp.elim
  | ended result => exact True.intro
  | running p => exact ⟨hp.1.mono hkm, hp.2⟩

variable [DecidableEq ι] [DecidableEq N] [Inhabited β] {missing : ε}
  {program : ι → Program (calls N β ε) (Except ε α)} {s : System ι N β ε α}

def Event.isCall (i : ι) : Event ι ε → Bool
  | .call j _ => j = i
  | _ => false

/-- A call of the process leaves it one call fewer. -/
theorem Left.step_call {k : ℕ} {i : ι} (hp : Left (k + 1) (s.process i)) (d : Decision ε) :
    Left k ((step missing program s (.call i d)).process i) := by
  cases hi : s.process i with
  | waiting => simp only [hi, Left] at hp
  | killed => simp only [hi, Left] at hp
  | ended result => simp only [step, hi, Left]
  | running p =>
      rw [hi] at hp
      obtain ⟨hcalls, c, next, rfl⟩ := hp
      simp only [step, hi, Function.update_self]
      exact left_after (hcalls _)

/-- Only its own death takes a process back. -/
theorem Left.step {k : ℕ} {i : ι} (hp : Left k (s.process i)) {event : Event ι ε}
    {s' : System ι N β ε α} (he : Effect missing program s event s') (hkill : event ≠ .kill i) :
    Left k (s'.process i) := by
  cases he with
  | idle event => exact hp
  | start j hj =>
      refine holds_update hp fun hij => ?_
      rw [hij, hj] at hp
      exact hp.elim
  | kill j rest hj => exact holds_update hp fun hij => absurd (by rw [hij]) hkill
  | call j d rest hj =>
      refine holds_update hp fun hij => ?_
      rw [hij, hj] at hp
      obtain ⟨hcalls, c, next, rfl⟩ := hp
      cases k with
      | zero => exact hcalls.elim
      | succ k => exact (left_after (hcalls _)).mono (Nat.le_succ k)

/-- A process that is not killed ends when it has made all the calls it may have left. -/
theorem Left.run {k : ℕ} {i : ι} (hp : Left k (s.process i)) {events : List (Event ι ε)}
    (hkill : .kill i ∉ events) (hk : k ≤ events.countP (Event.isCall i)) :
    ∃ result, (Machine.run (Publish.step missing program) s events).process i = .ended result := by
  induction events generalizing s k with
  | nil =>
      rw [List.countP_nil, Nat.le_zero] at hk
      subst hk
      exact hp.ended
  | cons event events ih =>
      have hrest : Event.kill i ∉ events := fun h => hkill (List.mem_cons_of_mem _ h)
      have hne : event ≠ .kill i := fun h => hkill (h ▸ List.mem_cons_self)
      rw [Machine.run_cons]
      cases hcall : event.isCall i with
      | false =>
          rw [List.countP_cons_of_neg (by simp [hcall])] at hk
          exact ih (hp.step (step_effect missing program s event) hne) hrest hk
      | true =>
          rw [List.countP_cons_of_pos hcall] at hk
          have hone : Left (k - 1) ((Publish.step missing program s event).process i) := by
            cases event with
            | start j => simp [Event.isCall] at hcall
            | interrupt j => simp [Event.isCall] at hcall
            | kill j => simp [Event.isCall] at hcall
            | call j d =>
                obtain rfl : j = i := of_decide_eq_true hcall
                cases k with
                | zero => exact hp.step (step_effect missing program s _) hne
                | succ k => exact hp.step_call d
          exact ih hone hrest (by omega)

theorem waiting_or_left_step {k : ℕ} {i : ι} (hprogram : CallsAtMost k (program i))
    (hi : s.process i = .waiting) {event : Event ι ε} {s' : System ι N β ε α}
    (he : Effect missing program s event s') :
    s'.process i = .waiting ∨ Left k (s'.process i) := by
  have hupdate {j : ι} {process : Process N β ε α}
      (hj : i = j → process = .waiting ∨ Left k process) :
      Function.update s.process j process i = .waiting ∨
        Left k (Function.update s.process j process i) :=
    holds_update (P := fun process => process = .waiting ∨ Left k process) (.inl hi) hj
  cases he with
  | idle event => exact .inl hi
  | start j hj => exact hupdate fun hij => .inr (left_after (hij ▸ hprogram))
  | kill j rest hj =>
      refine hupdate fun hij => ?_
      rw [← hij, hi] at hj
      cases hj
  | call j d rest hj =>
      refine hupdate fun hij => ?_
      rw [← hij, hi] at hj
      cases hj

/-- Until it is killed, a process waits or is left with no more calls than its program makes. -/
theorem left_of_run {k : ℕ} {i : ι} (hprogram : CallsAtMost k (program i))
    (hp : s.process i = .waiting ∨ Left k (s.process i)) {events : List (Event ι ε)}
    (hkill : .kill i ∉ events) :
    (Machine.run (Publish.step missing program) s events).process i = .waiting ∨
      Left k ((Machine.run (Publish.step missing program) s events).process i) := by
  induction events generalizing s with
  | nil => exact hp
  | cons event events ih =>
      refine ih ?_ fun h => hkill (List.mem_cons_of_mem _ h)
      have hne : event ≠ .kill i := fun h => hkill (h ▸ List.mem_cons_self)
      rcases hp with hp | hp
      · exact waiting_or_left_step hprogram hp (step_effect missing program s event)
      · exact .inr (hp.step (step_effect missing program s event) hne)

/-- A process that is started and not killed ends when it has made all the calls that its
program may make. -/
theorem ended_of_run {k : ℕ} {i : ι} (hprogram : CallsAtMost k (program i))
    (hi : s.process i = .waiting) {before after : List (Event ι ε)}
    (hkill : .kill i ∉ before ++ .start i :: after) (hk : k ≤ after.countP (Event.isCall i)) :
    ∃ result, (Machine.run (Publish.step missing program) s
      (before ++ .start i :: after)).process i = .ended result := by
  rw [List.mem_append, not_or] at hkill
  have hafter : Event.kill i ∉ after := fun h => hkill.2 (List.mem_cons_of_mem _ h)
  rw [Machine.run_append, Machine.run_cons]
  refine Left.run ?_ hafter hk
  have hbefore : (Machine.run (Publish.step missing program) s before).process i = .waiting ∨
      Left k ((Machine.run (Publish.step missing program) s before).process i) :=
    left_of_run hprogram (.inl hi) hkill.1
  rcases hbefore with hwait | hleft
  · simp only [Publish.step, hwait, Function.update_self]
    exact left_after hprogram
  · exact hleft.step (step_effect missing program _ _) (by simp)

end Bounds

end Publish
