import Pseudoroot.Library.LinearProbing.Refinement

/-! # Writers that search first and write later

Several writers share a table. Each operation searches for its key in one atomic step and
writes the cell it was given in another, so what the search reported can be outdated when
it is used. -/

namespace LinearProbing

variable {ι κ : Type*} {n : ℕ}

/-- What an operation does to its key. The values that it writes play no role here. -/
inductive KeyOp (κ : Type*) where
  | find (key : κ)
  | bind (key : κ)
  | unbind (key : κ)
  deriving DecidableEq

def KeyOp.key : KeyOp κ → κ
  | find key | bind key | unbind key => key

/-- The second half of an operation. -/
def write (t : Table n κ Unit) : KeyOp κ → Outcome n → Table n κ Unit
  | .bind k, .vacant i => Function.update t i (.live k ())
  | .unbind _, .found i => Function.update t i .tombstone
  | _, _ => t

/-- A live cell was live before, or the operation binds its key. -/
theorem live_of_write {t : Table n κ Unit} {op : KeyOp κ} {outcome : Outcome n} {i : Fin n} {k : κ}
    (h : write t op outcome i = .live k ()) : t i = .live k () ∨ op = .bind k := by
  cases op with
  | find key => exact .inl h
  | bind key =>
      cases outcome with
      | vacant j =>
          by_cases hij : i = j
          · subst hij
            rw [write, Function.update_self] at h
            cases h
            exact .inr rfl
          · rw [write, Function.update_of_ne hij] at h
            exact .inl h
      | found j => exact .inl h
      | full => exact .inl h
  | unbind key =>
      cases outcome with
      | found j =>
          by_cases hij : i = j
          · subst hij
            rw [write, Function.update_self] at h
            cases h
          · rw [write, Function.update_of_ne hij] at h
            exact .inl h
      | vacant j => exact .inl h
      | full => exact .inl h

/-- A table and its writers, with the operations begun and ended so far. -/
structure Writers (ι κ : Type*) (n : ℕ) where
  table : Table n κ Unit
  pending : ι → Option (KeyOp κ × Outcome n)
  issued : List (KeyOp κ)
  completed : List (KeyOp κ)

/-- A writer begins an operation with its search, or ends it with its write. -/
inductive WriterStep (ι α : Type*) where
  | begin (i : ι) (op : α)
  | finish (i : ι)

namespace Writers

variable [DecidableEq ι] [DecidableEq κ] (hash : κ → Fin n)

def step (s : Writers ι κ n) : WriterStep ι (KeyOp κ) → Writers ι κ n
  | .begin i op =>
    match s.pending i with
    | some _ => s
    | none =>
      { s with
        pending := Function.update s.pending i
          (some (op, probe s.table (hash op.key) op.key))
        issued := op :: s.issued }
  | .finish i =>
    match s.pending i with
    | none => s
    | some (op, outcome) =>
      { s with
        table := write s.table op outcome
        pending := Function.update s.pending i none
        completed := op :: s.completed }

def Bound (t : Table n κ Unit) (k : κ) : Prop :=
  ∃ i, t i = .live k ()

/-- A write may overwrite cell `i` in an operation on `k`. -/
def MayOverwrite (s : Writers ι κ n) (i : Fin n) (k : κ) : Prop :=
  ∀ k', s.table i = .live k' () → k' = k ∨ .unbind k' ∈ s.issued

/-- The answer that a writer is about to use is still good: no entry of another key is
overwritten that nobody removes, and the key of an insertion is not live elsewhere. -/
def Fresh (s : Writers ι κ n) : WriterStep ι (KeyOp κ) → Prop
  | .begin _ _ => True
  | .finish i =>
    match s.pending i with
    | some (.bind k, .vacant j) => s.MayOverwrite j k ∧ ∀ j', s.table j' = .live k () → j' = j
    | some (.unbind k, .found j) => s.MayOverwrite j k
    | _ => True

/-- What holds of a pending operation: it was issued, a cell for an insertion is on an unbroken
path from the bucket of its key, and a key that was found and that nobody removes is bound. -/
structure Tracked (s : Writers ι κ n) (op : KeyOp κ) (outcome : Outcome n) : Prop where
  issued : op ∈ s.issued
  path : ∀ k j, op = .bind k → outcome = .vacant j →
    ∀ e < distance (hash k) j, s.table (advance (hash k) e) ≠ .empty
  found : ∀ k j, op = .bind k → outcome = .found j → .unbind k ∉ s.issued → Bound s.table k
  not_full : ∀ k, op = .bind k → outcome ≠ .full

/-- The invariant of runs in which every answer is still good when it is used. -/
structure Sound (s : Writers ι κ n) : Prop where
  wellFormed : WellFormed hash s.table
  bound : ∀ k, .bind k ∈ s.completed → .unbind k ∉ s.issued → Bound s.table k
  pending : ∀ i op outcome, s.pending i = some (op, outcome) → s.Tracked hash op outcome

/-! ## Steps that keep the invariant -/

section Sound

omit [DecidableEq ι]

variable {hash} {s : Writers ι κ n}

omit [DecidableEq κ] in
/-- Entries that nobody removes survive the writing of a cell that keeps its own entry, or
whose entry is being removed. -/
theorem bound_update {t : Table n κ Unit} {issued : List (KeyOp κ)} {j : Fin n} {c : Cell κ Unit}
    (hc : ∀ k, t j = .live k () → .unbind k ∉ issued → c = .live k ()) {k : κ}
    (hk : .unbind k ∉ issued) (h : Bound t k) : Bound (Function.update t j c) k := by
  obtain ⟨i, hi⟩ := h
  by_cases hij : i = j
  · subst hij
    exact ⟨i, by rw [Function.update_self, hc k hi hk]⟩
  · exact ⟨i, by rwa [Function.update_of_ne hij]⟩

omit [DecidableEq κ] in
theorem update_ne_empty {t : Table n κ Unit} {j : Fin n} {c : Cell κ Unit} (hc : c ≠ .empty)
    {i : Fin n} (hi : t i ≠ .empty) : Function.update t j c i ≠ .empty := by
  by_cases hij : i = j
  · subst hij
    rwa [Function.update_self]
  · rwa [Function.update_of_ne hij]

omit [DecidableEq κ] in
theorem Tracked.mono {s' : Writers ι κ n} {op : KeyOp κ} {outcome : Outcome n}
    (h : s.Tracked hash op outcome) (hissued : ∀ op ∈ s.issued, op ∈ s'.issued)
    (hempty : ∀ i, s.table i ≠ .empty → s'.table i ≠ .empty)
    (hbound : ∀ k, .unbind k ∉ s'.issued → Bound s.table k → Bound s'.table k) :
    s'.Tracked hash op outcome where
  issued := hissued op h.issued
  path := fun k j hop hout e he => hempty _ (h.path k j hop hout e he)
  found := fun k j hop hout hk =>
    hbound k hk (h.found k j hop hout fun hmem => hk (hissued _ hmem))
  not_full := h.not_full

/-- What a search reports, as long as some cell is empty. -/
theorem tracked_probe {op : KeyOp κ} (hissued : op ∈ s.issued)
    (hroom : ∃ j, s.table j = .empty) :
    s.Tracked hash op (probe s.table (hash op.key) op.key) where
  issued := hissued
  path := by
    rintro k j rfl hout
    exact (free_of_probe_eq_vacant hout).2
  found := by
    rintro k j rfl hout -
    obtain ⟨⟨⟩, hj⟩ := live_of_probe_eq_found hout
    exact ⟨j, hj⟩
  not_full := by
    rintro k rfl hout
    obtain ⟨j, hj⟩ := hroom
    exact forall_ne_empty_of_probe_eq_full hout j hj

variable [DecidableEq ι]

theorem Sound.begin (h : s.Sound hash) (hroom : ∃ j, s.table j = .empty) (i : ι) (op : KeyOp κ) :
    (step hash s (.begin i op)).Sound hash := by
  cases hi : s.pending i with
  | some p => simpa only [step, hi] using h
  | none =>
      simp only [step, hi]
      refine ⟨h.wellFormed, fun k hk hnot => h.bound k hk fun hmem => ?_, ?_⟩
      · exact hnot (List.mem_cons_of_mem _ hmem)
      · intro i' op' outcome hpending
        by_cases hii : i' = i
        · subst hii
          simp only [Function.update_self, Option.some.injEq, Prod.mk.injEq] at hpending
          obtain ⟨rfl, rfl⟩ := hpending
          exact tracked_probe List.mem_cons_self hroom
        · simp only [Function.update_of_ne hii] at hpending
          exact (h.pending i' op' outcome hpending).mono
            (fun _ hmem => List.mem_cons_of_mem _ hmem) (fun _ => id) fun _ _ => id

omit [DecidableEq κ] in
/-- An operation may end with any table that keeps the entries that nobody removes, and that
binds its key if the operation does. -/
theorem Sound.of_table (h : s.Sound hash) {i : ι} {op : KeyOp κ} {t' : Table n κ Unit}
    (hwf : WellFormed hash t') (hempty : ∀ j, s.table j ≠ .empty → t' j ≠ .empty)
    (hbound : ∀ k, .unbind k ∉ s.issued → Bound s.table k → Bound t' k)
    (hself : ∀ k, op = .bind k → .unbind k ∉ s.issued → Bound t' k) :
    Sound hash ⟨t', Function.update s.pending i none, s.issued, op :: s.completed⟩ := by
  refine ⟨hwf, fun k hk hnot => ?_, fun i' op' outcome hpending => ?_⟩
  · rcases List.mem_cons.mp hk with hk | hk
    · exact hself k hk.symm hnot
    · exact hbound k hnot (h.bound k hk hnot)
  · by_cases hii : i' = i
    · subst hii
      simp at hpending
    · simp only [Function.update_of_ne hii] at hpending
      exact (h.pending i' op' outcome hpending).mono (fun _ => id) hempty hbound

theorem Sound.finish (h : s.Sound hash) {i : ι} (hfresh : s.Fresh (.finish i)) :
    (step hash s (.finish i)).Sound hash := by
  cases hi : s.pending i with
  | none => simpa only [step, hi] using h
  | some p =>
      obtain ⟨op, outcome⟩ := p
      have htracked := h.pending i op outcome hi
      simp only [step, hi]
      simp only [Fresh, hi] at hfresh
      cases op with
      | find k => exact h.of_table h.wellFormed (fun _ => id) (fun _ _ => id) (by simp)
      | bind k =>
          cases outcome with
          | found j =>
              refine h.of_table h.wellFormed (fun _ => id) (fun _ _ => id) ?_
              rintro k' ⟨⟩ hnot
              exact htracked.found k j rfl rfl hnot
          | vacant j =>
              obtain ⟨hover, honly⟩ := hfresh
              refine h.of_table ?_ (fun _ => update_ne_empty (by simp)) ?_ ?_
              · refine h.wellFormed.update j _ (by simp) ?_
                rintro k' v ⟨⟩
                exact ⟨fun j' _ hj' => honly j' hj', htracked.path k j rfl rfl⟩
              · intro k' hnot
                refine bound_update (fun k'' hj hnot'' => ?_) hnot
                rcases hover k'' hj with rfl | hmem
                · rfl
                · exact absurd hmem hnot''
              · rintro k' ⟨⟩ -
                exact ⟨j, Function.update_self ..⟩
          | full => exact absurd rfl (htracked.not_full k rfl)
      | unbind k =>
          cases outcome with
          | found j =>
              refine h.of_table ?_ (fun _ => update_ne_empty (by simp)) ?_ (by simp)
              · exact h.wellFormed.update j _ (by simp) (by simp)
              · intro k' hnot
                refine bound_update (fun k'' hj hnot'' => ?_) hnot
                rcases hfresh k'' hj with rfl | hmem
                · exact absurd htracked.issued hnot''
                · exact absurd hmem hnot''
          | vacant j => exact h.of_table h.wellFormed (fun _ => id) (fun _ _ => id) (by simp)
          | full => exact h.of_table h.wellFormed (fun _ => id) (fun _ _ => id) (by simp)

/-- While some cell is empty, every step that uses a good answer keeps the invariant. -/
theorem Sound.step (h : s.Sound hash) (hroom : ∃ j, s.table j = .empty)
    (e : WriterStep ι (KeyOp κ)) (hfresh : s.Fresh e) : (step hash s e).Sound hash := by
  cases e with
  | begin i op => exact h.begin hroom i op
  | finish i => exact h.finish hfresh

end Sound

omit [DecidableEq ι] [DecidableEq κ] in
/-- An empty table before the first operation. -/
theorem sound_empty :
    Sound hash (⟨fun _ => .empty, fun _ => none, [], []⟩ : Writers ι κ n) :=
  ⟨wellFormed_empty hash, by simp, by simp⟩

end Writers

end LinearProbing
