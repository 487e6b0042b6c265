import Pseudoroot.Library.Decimal
import Pseudoroot.Library.FileSystem.Published
import Pseudoroot.Library.Hex
import Pseudoroot.Model.Extract

/-! # Extractions that run at the same time

Processes of any builds extract their libraries to the same caches, call by call. -/

namespace Pseudoroot

open Calls Calls.Program Publish

/-! ## Names -/

theorem hex016_injective {a b : UInt64} (h : hex016 a = hex016 b) : a = b := by
  rw [hex016, hex016, String.ofList_inj] at h
  exact UInt64.toNat_inj.mp (Hex.leftpad_toDigits_injective h)

theorem length_hex016 (a : UInt64) : (hex016 a).toList.length = 16 := by
  rw [hex016, String.toList_ofList]
  exact Hex.length_leftpad_toDigits (by decide) a.toNat_lt

namespace Extraction

variable {D ε : Type} {x y : Extraction} {hash : List UInt8 → UInt64} {place : String → D}

theorem tempName_ne_libName (x y : Extraction) : x.tempName ≠ y.libName := by
  intro h
  have hchars := congrArg String.toList h
  cases hy : y.platform <;>
    simp [tempName, libName, hy, String.toList_append] at hchars

/-- A temporary name tells the process id. -/
theorem pid_of_tempName (h : x.tempName = y.tempName) : x.pid = y.pid := by
  have hchars := congrArg String.toList h
  have hpid (hrepr : (toString x.pid).toList = (toString y.pid).toList) : x.pid = y.pid :=
    UInt32.toNat_inj.mp (Decimal.nat_repr_injective hrepr)
  cases hx : x.platform <;> cases hy : y.platform <;>
    simp [tempName, libName, hx, hy, String.toList_append] at hchars
  · exact hpid hchars
  · exact hpid hchars

theorem joinPath_toList (base name : String) :
    ∃ pre, (joinPath base name).toList = pre ++ name.toList := by
  rw [joinPath]
  split_ifs with habsolute hsep
  · exact ⟨[], rfl⟩
  · exact ⟨base.toList, String.toList_append⟩
  · exact ⟨(base ++ "/").toList, String.toList_append⟩

/-- The path of a directory ends with the hash. -/
theorem hashName_of_embedDir (h : x.embedDir hash = y.embedDir hash) :
    x.hashName hash = y.hashName hash := by
  obtain ⟨pre, hx⟩ := joinPath_toList x.embedRoot (x.hashName hash)
  obtain ⟨pre', hy⟩ := joinPath_toList y.embedRoot (y.hashName hash)
  have happend : pre ++ (x.hashName hash).toList = pre' ++ (y.hashName hash).toList := by
    rw [← hx, ← hy]
    exact congrArg String.toList h
  have hlength : (x.hashName hash).toList.length = (y.hashName hash).toList.length :=
    (length_hex016 _).trans (length_hex016 _).symm
  exact String.toList_inj.mp (List.append_inj_right' happend hlength)

/-! ## The job of an extraction -/

def job (x : Extraction) (hash : List UInt8 → UInt64) (place : String → D) :
    Job (D × String) UInt8 String where
  temp := x.temp hash place
  target := x.target hash place
  content := x.embeddedLib
  result := x.libPath hash

theorem extractEmbeddedLib_eq (writeZero : ε) :
    x.extractEmbeddedLib hash place writeZero = (x.job hash place).publish writeZero := by
  refine congrArg _ (funext fun pathExists => ?_)
  cases pathExists with
  | true => rfl
  | false =>
      refine congrArg (call (S := calls (D × String) UInt8 ε) (.makeDir (x.target hash place)))
        (funext fun made => ?_)
      cases made with
      | error e => rfl
      | ok made =>
          simp only [onOk, writeFile, call_bind]
          refine congrArg (call (S := calls (D × String) UInt8 ε) (.create (x.temp hash place)))
            (funext fun reply => ?_)
          cases reply with
          | error e => rfl
          | ok file => rfl

end Extraction

/-! ## Runs -/

section Runs

variable {ι D ε : Type} {x : ι → Extraction} {hash : List UInt8 → UInt64} {place : String → D}
  {writeZero missing : ε}

/-- Builds with one hash carry one library, and no directory named by a hash is a link to one
of another name. -/
structure Keyed (x : ι → Extraction) (hash : List UInt8 → UInt64) (place : String → D) : Prop where
  collide : ∀ i j, hash (x i).embeddedLib = hash (x j).embeddedLib →
    (x i).embeddedLib = (x j).embeddedLib
  linked : ∀ i j, place ((x i).embedDir hash) = place ((x j).embedDir hash) →
    (x i).hashName hash = (x j).hashName hash

theorem Keyed.separate (hkeyed : Keyed x hash place) :
    Separate fun i => (x i).job hash place where
  temp_ne i j h := Extraction.tempName_ne_libName (x i) (x j) (congrArg Prod.snd h)
  content_eq i j h :=
    hkeyed.collide i j (hex016_injective (hkeyed.linked i j (congrArg Prod.fst h)))

variable [DecidableEq ι] [DecidableEq D]

/-- Extractions go on call by call. -/
abbrev extractStep (writeZero missing : ε) (x : ι → Extraction) (hash : List UInt8 → UInt64)
    (place : String → D) : System ι (D × String) UInt8 ε String → Event ι ε →
      System ι (D × String) UInt8 ε String :=
  step missing fun i => (x i).extractEmbeddedLib hash place writeZero

/-- The moment after `k` events. -/
abbrev moment (writeZero missing : ε) (x : ι → Extraction) (hash : List UInt8 → UInt64)
    (place : String → D) (files : Files (D × String) UInt8) (events : List (Event ι ε)) (k : ℕ) :
    System ι (D × String) UInt8 ε String :=
  Machine.run (extractStep writeZero missing x hash place) ⟨files, fun _ => .waiting⟩
    (events.take k)

/-- Running extractions have different process ids. -/
def PidsDiffer (writeZero missing : ε) (x : ι → Extraction) (hash : List UInt8 → UInt64)
    (place : String → D) (files : Files (D × String) UInt8) (events : List (Event ι ε)) : Prop :=
  ∀ k (hk : k < events.length) i, events[k] = .start i → ∀ j ≠ i, ∀ rest,
    (moment writeZero missing x hash place files events k).process j = .running rest →
      (x j).pid ≠ (x i).pid

/-- Extractions of any builds into any caches, with calls that fail or are interrupted, short
writes and processes killed at any call. A library that is at its path is whole; it stays there, and the file that a
program may have mapped never changes. A path that is returned leads to the library. Only a
failed call makes an error, and an extraction ends after a bounded number of its own calls. -/
theorem extracted_of_run {files : Files (D × String) UInt8} {events : List (Event ι ε)}
    (hkeyed : Keyed x hash place)
    (hfiles : Intact (fun i => (x i).job hash place) files)
    (hpids : PidsDiffer writeZero missing x hash place files events) :
    (∀ k m, k ≤ m → m ≤ events.length → ∀ i file,
      (moment writeZero missing x hash place files events k).files.names
        ((x i).target hash place) = some file →
      ((moment writeZero missing x hash place files events m).files.names
          ((x i).target hash place)).isSome ∧
        (moment writeZero missing x hash place files events m).files.data file =
          (x i).embeddedLib) ∧
    (∀ k ≤ events.length, ∀ i path,
      (moment writeZero missing x hash place files events k).process i = .ended (.ok path) →
      path = (x i).libPath hash ∧ ((moment writeZero missing x hash place files events k).files.names
        ((x i).target hash place)).isSome) ∧
    (∀ i, (∀ d, .call i d ∈ events → ¬ d.Fails) → ∀ k ≤ events.length, ∀ e,
      (moment writeZero missing x hash place files events k).process i ≠ .ended (.error e)) ∧
    (∀ i before after, events = before ++ .start i :: after → .kill i ∉ events →
      (x i).embeddedLib.length + 4 ≤ after.countP (Event.isCall i) →
      ∃ result, (moment writeZero missing x hash place files events events.length).process i =
        .ended result) := by
  have hprogram : (fun i => (x i).extractEmbeddedLib hash place writeZero) =
      fun i => ((x i).job hash place).publish writeZero :=
    funext fun i => Extraction.extractEmbeddedLib_eq writeZero
  have hstart : Inv writeZero (fun i => (x i).job hash place)
      (⟨files, fun _ => .waiting⟩ : System ι (D × String) UInt8 ε String) :=
    ⟨hfiles, fun _ => True.intro, fun _ _ _ _ h => by cases h⟩
  have hsep := hkeyed.separate
  have horderly : Orderly writeZero missing (fun i => (x i).job hash place)
      (⟨files, fun _ => .waiting⟩ : System ι (D × String) UInt8 ε String) events := by
    intro k hk
    cases hevent : events[k] with
    | start i =>
        intro j hji rest hj htemp
        refine hpids k hk i hevent j hji rest ?_ (Extraction.pid_of_tempName (congrArg Prod.snd htemp))
        rw [moment, extractStep, hprogram]
        exact hj
    | call i d => exact True.intro
    | interrupt i => exact True.intro
    | kill i => exact True.intro
  simp only [moment, extractStep, hprogram]
  refine ⟨fun k m hkm hm i file hfile => ?_, fun k hk i path hpath => ?_,
    fun i hfails k hk e => ?_, fun i before after hevents hkill hcalls => ?_⟩
  · exact hstart.published horderly hsep hkm hm (i := i) hfile
  · have hsound := (hstart.run horderly hsep k hk).sound i
    rw [hpath] at hsound
    exact hsound
  · exact hstart.ne_error horderly hsep (fun _ h => by cases h) hfails hk e
  · subst hevents
    rw [List.take_length]
    refine ended_of_run ?_ rfl hkill hcalls
    exact Job.callsAtMost_publish writeZero _

end Runs

/-! ## A process that is killed and one that comes after it -/

def twoExtractions (second : Bool) : Extraction where
  platform := .linux
  env := fun key => if key = "HOME" then some "/root" else none
  systemTempDir := "/tmp"
  uid := 0
  pid := if second then 2 else 1
  embeddedLib := [0x7f, 0x45, 0x4c, 0x46]

/-- The first process dies with half of the library written. -/
def untilKilled : List (Event Bool Unit) :=
  .start false :: List.replicate 4 (.call false (.grant 2)) ++ [.kill false]

/-- The second process is interrupted in its first write. -/
def afterKilled : List (Event Bool Unit) :=
  List.replicate 3 (.call true (.grant 3)) ++
    .interrupt true :: List.replicate 5 (.call true (.grant 3))

def emptyCache : Files (String × String) UInt8 := ⟨fun _ => none, fun _ => [], 0⟩

theorem extracted_of_run_of_killed :
    let s := moment () () twoExtractions (fun _ => 0) id emptyCache
      (untilKilled ++ .start true :: afterKilled) 16
    s.process true = .ended (.ok ((twoExtractions true).libPath fun _ => 0)) ∧
      ∃ file, s.files.names ((twoExtractions true).target (fun _ => 0) id) = some file ∧
        s.files.data file = [0x7f, 0x45, 0x4c, 0x46] := by
  have hkeyed : Keyed twoExtractions (fun _ => 0) id :=
    ⟨fun _ _ _ => rfl, fun _ _ h => Extraction.hashName_of_embedDir h⟩
  have hfiles : Intact (fun b => (twoExtractions b).job (fun _ => 0) id) emptyCache := by
    constructor
    · intro _ _ h
      cases h
    · intro _ _ _ h
      cases h
    · intro _ _ h
      cases h
  have hpids : PidsDiffer () () twoExtractions (fun _ => 0) id emptyCache
      (untilKilled ++ .start true :: afterKilled) := by
    intro k hk i _ j hj rest _
    revert hj
    cases i <;> cases j <;> decide
  obtain ⟨hwhole, hok, herror, hends⟩ := extracted_of_run hkeyed hfiles hpids
  obtain ⟨result, hresult⟩ := hends true untilKilled afterKilled rfl
    (by simp [untilKilled, afterKilled]) (by decide)
  cases result with
  | error e =>
      refine absurd hresult (herror true (fun d hd => ?_) 16 (by decide) e)
      simp [untilKilled, afterKilled] at hd
      simp [hd, Decision.Fails]
  | ok path =>
      obtain ⟨rfl, hsome⟩ := hok 16 (by decide) true path hresult
      obtain ⟨file, hfile⟩ := Option.isSome_iff_exists.mp hsome
      exact ⟨hresult, file, hfile,
        (hwhole 16 16 (Nat.le_refl 16) (by decide) true file hfile).2⟩

/-- With one process id, as in two threads of a process, one extraction can publish the file
that the other has just cut to nothing. -/
theorem cut_of_shared_pid :
    let s := moment () () (fun _ : Bool => twoExtractions true) (fun _ => 0) id emptyCache
      (.start false :: .start true :: List.replicate 4 (.call false (.grant 4)) ++
        List.replicate 3 (.call true (.grant 4)) ++ [.call false (.grant 4)]) 10
    (s.files.names ((twoExtractions true).target (fun _ => 0) id)).map s.files.data = some [] := by
  decide +kernel

end Pseudoroot
