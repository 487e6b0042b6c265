import Pseudoroot.Library.LinearProbing.Writers
import Pseudoroot.Verification.ShmMap.RawCells
import Pseudoroot.Verification.ShmMap.TwoSteps

/-! # Processes that write one map

Nothing locks a slot between the probe of an operation and its write. -/

namespace Pseudoroot

open LinearProbing (KeyOp WriterStep)

/-- What an operation does to the entry of its key, as far as keys go. -/
def StoreOp.keyOp : StoreOp → KeyOp (Option InodeKey)
  | .getInode key => .find (some key)
  | .upsertChown key _ _ _ _ => .bind (some key)
  | .upsertInode key _ => .bind (some key)
  | .removeInode key => .unbind (some key)

namespace ShmInodeMap

variable {n : ℕ} (codec : XattrCodec)

theorem rawCells_write (map : ShmInodeMap n) (op : StoreOp) (outcome : Probe n) :
    (map.write codec op outcome).rawCells = LinearProbing.write map.rawCells op.keyOp outcome := by
  have hslot := slot_write codec map op outcome
  have hwrite : ∀ {i s c}, map.writtenSlot op outcome = some (i, s) → s.rawCell = c →
      (map.write codec op outcome).rawCells = Function.update map.rawCells i c := by
    rintro i s c hwritten rfl
    rw [hwritten] at hslot
    exact rawCells_of_slot_eq_update hslot
  have hsame : ∀ {i s}, map.writtenSlot op outcome = some (i, s) →
      s.rawCell = (map.slot i).rawCell → (map.write codec op outcome).rawCells = map.rawCells := by
    intro i s hwritten hs
    rw [hwrite hwritten hs]
    exact Function.update_eq_self i map.rawCells
  cases op with
  | getInode key => cases outcome <;> rfl
  | upsertChown key uid gid du dg =>
      cases outcome with
      | found i => exact hsame rfl rfl
      | vacant i => exact hwrite rfl rfl
      | full => rfl
  | upsertInode key inode =>
      cases outcome with
      | found i => exact hsame rfl rfl
      | vacant i => exact hwrite rfl rfl
      | full => rfl
  | removeInode key =>
      cases outcome with
      | found i => exact hwrite rfl rfl
      | vacant i => rfl
      | full => rfl

end ShmInodeMap

/-! ## Runs of many processes -/

/-- A shared map and the processes that use it, with the operations begun and ended so far. -/
structure SharedRun (ι : Type) (n : ℕ) where
  map : ShmInodeMap n
  pending : ι → Option (StoreOp × Probe n)
  issued : List StoreOp
  completed : List StoreOp

namespace SharedRun

variable {ι : Type} [DecidableEq ι] {n : ℕ} [NeZero n]

/-- Process `i` probes for its next operation, or writes for the one that it has in progress. -/
def step (codec : XattrCodec) (s : SharedRun ι n) : WriterStep ι StoreOp → SharedRun ι n
  | .begin i op =>
    match s.pending i with
    | some _ => s
    | none =>
      { s with
        pending := Function.update s.pending i (some (op, s.map.probe op.key))
        issued := op :: s.issued }
  | .finish i =>
    match s.pending i with
    | none => s
    | some (op, outcome) =>
      { map := s.map.write codec op outcome
        pending := Function.update s.pending i none
        issued := s.issued
        completed := op :: s.completed }

def Quiescent (s : SharedRun ι n) : Prop :=
  ∀ i, s.pending i = none

def UpsertCompleted (s : SharedRun ι n) (key : InodeKey) : Prop :=
  ∃ op ∈ s.completed, op.keyOp = .bind (some key)

/-- No key has two live slots, and a key that was upserted and never removed has one. -/
structure KeepsEntries (s : SharedRun ι n) : Prop where
  unique : ∀ i j key, (s.map.slot i).LiveFor key → (s.map.slot j).LiveFor key → i = j
  kept : ∀ key, s.UpsertCompleted key → .removeInode key ∉ s.issued →
    ∃ i, (s.map.slot i).LiveFor key

/-- An operation on `key` may write slot `i`: it is not live for another key, unless one whose
removal was issued. -/
def MayOverwrite (s : SharedRun ι n) (i : Fin n) (key : InodeKey) : Prop :=
  ∀ key', (s.map.slot i).LiveFor key' → key' = key ∨ .removeInode key' ∈ s.issued

/-- What the probe returned can still be used: an insertion or a removal may overwrite its slot,
and the key of an insertion is not live elsewhere. -/
def AnswerHolds (s : SharedRun ι n) : WriterStep ι StoreOp → Prop
  | .begin _ _ => True
  | .finish i =>
    match s.pending i with
    | some (.upsertChown key _ _ _ _, .vacant j)
    | some (.upsertInode key _, .vacant j) =>
      s.MayOverwrite j key ∧ ∀ j', (s.map.slot j').LiveFor key → j' = j
    | some (.removeInode key, .found j) => s.MayOverwrite j key
    | _ => True

/-! ## The run as seen by keys -/

/-- The table of keys that a run stands for. -/
def keys (s : SharedRun ι n) : LinearProbing.Writers ι (Option InodeKey) n where
  table := s.map.rawCells
  pending := fun i => (s.pending i).map fun p => (p.1.keyOp, p.2)
  issued := s.issued.map StoreOp.keyOp
  completed := s.completed.map StoreOp.keyOp

def bucket : Option InodeKey → Fin n
  | some key => ShmInodeMap.hash key
  | none => ⟨0, Nat.pos_of_neZero n⟩

def keysStep : WriterStep ι StoreOp → WriterStep ι (KeyOp (Option InodeKey))
  | .begin i op => .begin i op.keyOp
  | .finish i => .finish i

theorem key_keyOp (op : StoreOp) : op.keyOp.key = some op.key := by
  cases op <;> rfl

omit [NeZero n] in
theorem pending_update (f : ι → Option (StoreOp × Probe n)) (i : ι)
    (p : Option (StoreOp × Probe n)) :
    (fun j => (Function.update f i p j).map fun p => (p.1.keyOp, p.2)) =
      Function.update (fun j => (f j).map fun p => (p.1.keyOp, p.2)) i
        (p.map fun p => (p.1.keyOp, p.2)) :=
  Function.comp_update (Option.map fun p : StoreOp × Probe n => (p.1.keyOp, p.2)) f i p

/-- Each step of a run is the step of the table of its keys. -/
theorem keys_step (codec : XattrCodec) (s : SharedRun ι n) (e : WriterStep ι StoreOp) :
    (step codec s e).keys = LinearProbing.Writers.step bucket s.keys (keysStep e) := by
  cases e with
  | begin i op =>
      cases hi : s.pending i with
      | some p => simp [step, keysStep, LinearProbing.Writers.step, keys, hi]
      | none =>
          simp [step, keysStep, LinearProbing.Writers.step, keys, hi, pending_update, key_keyOp,
            ShmInodeMap.probe_eq_rawCells, bucket]
  | finish i =>
      cases hi : s.pending i with
      | none => simp [step, keysStep, LinearProbing.Writers.step, keys, hi]
      | some p =>
          simp [step, keysStep, LinearProbing.Writers.step, keys, hi, pending_update,
            ShmInodeMap.rawCells_write]

variable {s : SharedRun ι n}

omit [DecidableEq ι] [NeZero n] in
theorem unbind_mem_issued {key : InodeKey} :
    .unbind (some key) ∈ s.keys.issued ↔ .removeInode key ∈ s.issued := by
  simp only [keys, List.mem_map]
  constructor
  · rintro ⟨op, hop, heq⟩
    cases op <;> cases heq
    exact hop
  · intro hmem
    exact ⟨_, hmem, rfl⟩

def Known (s : SharedRun ι n) : Prop :=
  ∀ i, s.map.rawCells i ≠ .live none ()

theorem Known.step (h : s.Known) (codec : XattrCodec) (e : WriterStep ι StoreOp) :
    (step codec s e).Known := by
  intro i hi
  cases e with
  | begin j op => cases hj : s.pending j <;> simp only [SharedRun.step, hj] at hi <;> exact h i hi
  | finish j =>
      cases hj : s.pending j with
      | none =>
          simp only [SharedRun.step, hj] at hi
          exact h i hi
      | some p =>
          simp only [SharedRun.step, hj, ShmInodeMap.rawCells_write] at hi
          rcases LinearProbing.live_of_write hi with hlive | hbind
          · exact h i hlive
          · cases hop : p.1 <;> rw [hop] at hbind <;> cases hbind

omit [DecidableEq ι] [NeZero n] in
theorem MayOverwrite.keys {i : Fin n} {key : InodeKey} (h : s.MayOverwrite i key)
    (hknown : s.Known) : s.keys.MayOverwrite i (some key) := by
  rintro (_ | key') hlive
  · exact absurd hlive (hknown i)
  · rcases h key' (Slot.rawCell_eq_live_iff.mp hlive) with rfl | hmem
    · exact .inl rfl
    · exact .inr (unbind_mem_issued.mpr hmem)

omit [DecidableEq ι] [NeZero n] in
theorem AnswerHolds.fresh {e : WriterStep ι StoreOp} (h : s.AnswerHolds e) (hknown : s.Known) :
    s.keys.Fresh (keysStep e) := by
  cases e with
  | begin i op => trivial
  | finish i =>
      cases hi : s.pending i with
      | none => simp [LinearProbing.Writers.Fresh, keysStep, SharedRun.keys, hi]
      | some p =>
          obtain ⟨op, outcome⟩ := p
          have hpending : s.keys.pending i = some (op.keyOp, outcome) := by
            simp [SharedRun.keys, hi]
          simp only [AnswerHolds, hi] at h
          simp only [LinearProbing.Writers.Fresh, keysStep, hpending]
          have honly : ∀ {j key}, (∀ j', (s.map.slot j').LiveFor key → j' = j) →
              ∀ j', s.keys.table j' = .live (some key) () → j' = j := fun hlive j' hj' =>
            hlive j' (Slot.rawCell_eq_live_iff.mp hj')
          cases op with
          | getInode key => trivial
          | upsertChown key uid gid du dg =>
              cases outcome with
              | found j => trivial
              | vacant j => exact ⟨h.1.keys hknown, honly h.2⟩
              | full => trivial
          | upsertInode key inode =>
              cases outcome with
              | found j => trivial
              | vacant j => exact ⟨h.1.keys hknown, honly h.2⟩
              | full => trivial
          | removeInode key =>
              cases outcome with
              | found j => exact h.keys hknown
              | vacant j => trivial
              | full => trivial

/-- The invariant of a run: its table of keys is sound and has no unknown words. -/
structure Sound (s : SharedRun ι n) : Prop where
  keys : s.keys.Sound bucket
  known : s.Known

omit [DecidableEq ι] in
theorem Sound.keepsEntries (h : s.Sound) : s.KeepsEntries where
  unique := by
    intro i j key hi hj
    exact h.keys.wellFormed.unique (Slot.rawCell_eq_live_iff.mpr hi)
      (Slot.rawCell_eq_live_iff.mpr hj)
  kept := by
    rintro key ⟨op, hop, hbind⟩ hissued
    have hcompleted : .bind (some key) ∈ s.keys.completed :=
      List.mem_map.mpr ⟨op, hop, hbind⟩
    obtain ⟨i, hi⟩ := h.keys.bound (some key) hcompleted fun hmem =>
      hissued (unbind_mem_issued.mp hmem)
    exact ⟨i, Slot.rawCell_eq_live_iff.mp hi⟩

theorem Sound.step (h : s.Sound) (codec : XattrCodec)
    (hroom : ∃ j, (s.map.slot j).occupied = slotEmpty) {e : WriterStep ι StoreOp}
    (hholds : s.AnswerHolds e) : (step codec s e).Sound := by
  obtain ⟨j, hj⟩ := hroom
  refine ⟨?_, h.known.step codec e⟩
  rw [keys_step]
  exact h.keys.step ⟨j, Slot.rawCell_eq_empty_iff.mpr hj⟩ _ (hholds.fresh h.known)

def initial (map : ShmInodeMap n) : SharedRun ι n :=
  ⟨map, fun _ => none, [], []⟩

omit [DecidableEq ι] in
theorem sound_initial {checks : Bool} {os : ShmOs} {slotCount uid gid : UInt32}
    {map : ShmInodeMap (tableSlotCount slotCount)}
    (hcreate : ShmInodeMap.create checks os slotCount uid gid = .ok map) :
    (initial (ι := ι) map).Sound := by
  have hempty : map.rawCells = fun _ => .empty := by
    rw [eq_initHeader_of_create_eq_ok hcreate]
    funext i
    exact Slot.rawCell_eq_empty_iff.mpr rfl
  refine ⟨?_, fun i => ?_⟩
  · simp only [SharedRun.keys, initial, hempty]
    exact LinearProbing.Writers.sound_empty bucket
  · simp [initial, hempty]

omit [DecidableEq ι] [NeZero n] in
/-- A new entry may be written while its slot is not live and its key has no other. -/
theorem answerHolds_of_free {i : ι} {k : InodeKey} {uid gid du dg : UInt32} {j : Fin n}
    (hpending : s.pending i = some (.upsertChown k uid gid du dg, .vacant j))
    (hfree : (s.map.slot j).occupied ≠ slotLive)
    (honly : ∀ j', (s.map.slot j').LiveFor k → j' = j) : s.AnswerHolds (.finish i) := by
  simp only [AnswerHolds, hpending]
  exact ⟨fun _ hlive => absurd hlive.1 hfree, honly⟩

omit [DecidableEq ι] [NeZero n] in
/-- A removal may be written while the entry that was found is still there. -/
theorem answerHolds_of_live {i : ι} {k : InodeKey} {j : Fin n}
    (hpending : s.pending i = some (.removeInode k, .found j)) (hlive : (s.map.slot j).LiveFor k) :
    s.AnswerHolds (.finish i) := by
  simp only [AnswerHolds, hpending]
  exact fun k' hlive' => .inl (hlive.key_eq hlive')

/-! ## Main results -/

/-- Any number of processes upsert and remove entries of a created map, in any interleaving of
their probes and writes that leaves an empty slot. As long as the answer of every probe still
holds when it is used, no key has two live slots and every key that was upserted and never
removed has one. -/
theorem keepsEntries_of_answersHold (codec : XattrCodec) {checks : Bool} {os : ShmOs}
    {slotCount uid gid : UInt32} {map : ShmInodeMap (tableSlotCount slotCount)}
    (hcreate : ShmInodeMap.create checks os slotCount uid gid = .ok map)
    (events : List (WriterStep ι StoreOp))
    (hroom : ∀ k ≤ events.length, ∃ j,
      ((Machine.run (step codec) (initial map) (events.take k)).map.slot j).occupied = slotEmpty)
    (hholds : ∀ k (hk : k < events.length),
      (Machine.run (step codec) (initial map) (events.take k)).AnswerHolds events[k]) :
    ∀ k ≤ events.length,
      (Machine.run (step codec) (initial map) (events.take k)).KeepsEntries := by
  intro k hk
  have hsound := Machine.run_invariant_of_guard (I := fun s : SharedRun ι _ => s.Sound)
    (P := fun s e => (∃ j, (s.map.slot j).occupied = slotEmpty) ∧ s.AnswerHolds e)
    (fun s e hguard hs => hs.step codec hguard.1 hguard.2) (sound_initial hcreate) events
    (fun i hi => ⟨hroom i hi.le, hholds i hi⟩) k hk
  exact hsound.keepsEntries

/-- Two processes use different buckets, and each probes before the other writes. -/
def overlapping : List (WriterStep Bool StoreOp) :=
  [.begin true (.upsertChown (0, 0) 1 1 0 0), .begin false (.upsertChown (1, 0) 2 2 0 0),
    .finish true, .finish false, .begin true (.removeInode (0, 0)),
    .begin false (.upsertChown (2, 0) 3 3 0 0), .finish true, .finish false]

theorem keepsEntries_of_answersHold_overlapping :
    let map := ShmInodeMap.initHeader (tableSlotCount 1)
      (headerSize + slotSize * tableSlotCount 1 + xattrPageSize * tableSlotCount 1) 0 0
    ∀ k ≤ overlapping.length, (Machine.run (step XattrCodec.wincode) (initial map)
      (overlapping.take k)).KeepsEntries := by
  intro map
  refine keepsEntries_of_answersHold XattrCodec.wincode (create_eq_ok 1 0 0) overlapping ?_ ?_
  · have hfree : ∀ k ≤ overlapping.length, ((Machine.run (step XattrCodec.wincode) (initial map)
        (overlapping.take k)).map.slot 3).occupied = slotEmpty := by
      simp only [map]
      decide +kernel
    exact fun k hk => ⟨3, hfree k hk⟩
  · intro k hk
    rcases k with _ | _ | _ | _ | _ | _ | _ | _ | k
    · trivial
    · trivial
    · have hpending : (Machine.run (step XattrCodec.wincode) (initial map)
          (overlapping.take 2)).pending true =
            some (.upsertChown (0, 0) 1 1 0 0, .vacant 0) := by decide +kernel
      exact answerHolds_of_free hpending (by decide +kernel) (by decide +kernel)
    · have hpending : (Machine.run (step XattrCodec.wincode) (initial map)
          (overlapping.take 3)).pending false =
            some (.upsertChown (1, 0) 2 2 0 0, .vacant 1) := by decide +kernel
      exact answerHolds_of_free hpending (by decide +kernel) (by decide +kernel)
    · trivial
    · trivial
    · have hpending : (Machine.run (step XattrCodec.wincode) (initial map)
          (overlapping.take 6)).pending true = some (.removeInode (0, 0), .found 0) := by
        decide +kernel
      exact answerHolds_of_live hpending (by decide +kernel)
    · have hpending : (Machine.run (step XattrCodec.wincode) (initial map)
          (overlapping.take 7)).pending false =
            some (.upsertChown (2, 0) 3 3 0 0, .vacant 2) := by decide +kernel
      exact answerHolds_of_free hpending (by decide +kernel) (by decide +kernel)
    · exact absurd hk (by simp [overlapping])

/-- Two processes insert keys of one bucket and both are given its first slot. -/
def racing : List (WriterStep Bool StoreOp) :=
  [.begin true (.upsertChown (0, 0) 1 1 0 0), .begin false (.upsertChown (1024, 0) 2 2 0 0),
    .finish true, .finish false]

/-- Both insertions have completed and nothing was removed, but the first key has no entry. -/
theorem entry_lost_to_race :
    let map := ShmInodeMap.initHeader (tableSlotCount 1)
      (headerSize + slotSize * tableSlotCount 1 + xattrPageSize * tableSlotCount 1) 0 0
    let s := Machine.run (step XattrCodec.wincode) (initial map) racing
    ShmInodeMap.create false ⟨true, true, true⟩ 1 0 0 = .ok map ∧ s.Quiescent ∧
      (∀ k ≤ racing.length, ∃ j, ((Machine.run (step XattrCodec.wincode) (initial map)
        (racing.take k)).map.slot j).occupied = slotEmpty) ∧
      s.UpsertCompleted (0, 0) ∧ .removeInode (0, 0) ∉ s.issued ∧
      ¬ ∃ i, (s.map.slot i).LiveFor (0, 0) := by
  intro map s
  have hissued : s.issued = [.upsertChown (1024, 0) 2 2 0 0, .upsertChown (0, 0) 1 1 0 0] := rfl
  have hcompleted : s.completed = [.upsertChown (1024, 0) 2 2 0 0, .upsertChown (0, 0) 1 1 0 0] :=
    rfl
  refine ⟨create_eq_ok 1 0 0, ?_, ?_, ?_, ?_, ?_⟩
  · rintro (_ | _) <;> rfl
  · have hfree : ∀ k ≤ racing.length, ((Machine.run (step XattrCodec.wincode) (initial map)
        (racing.take k)).map.slot 1).occupied = slotEmpty := by
      simp only [map]
      decide +kernel
    exact fun k hk => ⟨1, hfree k hk⟩
  · exact ⟨_, by rw [hcompleted]; exact List.mem_cons_of_mem _ List.mem_cons_self, rfl⟩
  · simp [hissued]
  · rw [← not_forall_not, not_not]
    simp only [s, map]
    decide +kernel

end SharedRun

end Pseudoroot
