import Pseudoroot.Library.LinearProbing.Probe
import Mathlib.Logic.Function.Basic

/-! # An open-addressed table refines a partial map

The invariant has two halves: a key is live in at most one cell, and no empty
cell lies on the path from a key's hash to the cell that holds it. Burying keeps
both because a buried cell is not empty. -/

namespace LinearProbing

variable {κ ν : Type*} {n : ℕ}

/-! ## The representation invariant -/

structure WellFormed (hash : κ → Fin n) (t : Table n κ ν) : Prop where
  unique : ∀ {i j k v w}, t i = .live k v → t j = .live k w → i = j
  reachable : ∀ {i k v}, t i = .live k v →
    ∀ e < distance (hash k) i, t (advance (hash k) e) ≠ .empty

theorem wellFormed_empty (hash : κ → Fin n) :
    WellFormed hash (fun _ => .empty : Table n κ ν) :=
  ⟨fun h => (by cases h), fun h => (by cases h)⟩

/-- Writing a cell that is not empty keeps the invariant, provided that a live cell
is written where its key can be found and nowhere else. -/
theorem WellFormed.update {hash : κ → Fin n} {t : Table n κ ν} (h : WellFormed hash t)
    (i : Fin n) (c : Cell κ ν) (hc : c ≠ .empty)
    (hlive : ∀ k v, c = .live k v →
      (∀ j w, t j = .live k w → j = i) ∧
        ∀ e < distance (hash k) i, t (advance (hash k) e) ≠ .empty) :
    WellFormed hash (Function.update t i c) := by
  have hne : ∀ j, t j ≠ .empty → Function.update t i c j ≠ .empty := by
    intro j hj
    by_cases hji : j = i
    · subst hji
      simpa using hc
    · simpa [hji] using hj
  refine ⟨?_, ?_⟩
  · intro a b k v w ha hb
    by_cases hai : a = i <;> by_cases hbi : b = i
    · rw [hai, hbi]
    · subst hai
      simp only [Function.update_self, Function.update_of_ne hbi] at ha hb
      exact ((hlive k v ha).1 b w hb).symm
    · subst hbi
      simp only [Function.update_self, Function.update_of_ne hai] at ha hb
      exact (hlive k w hb).1 a v ha
    · simp only [Function.update_of_ne hai, Function.update_of_ne hbi] at ha hb
      exact h.unique ha hb
  · intro a k v ha e he
    by_cases hai : a = i
    · subst hai
      simp only [Function.update_self] at ha
      exact hne _ ((hlive k v ha).2 e he)
    · simp only [Function.update_of_ne hai] at ha
      exact hne _ (h.reachable ha e he)

/-! ## What a search finds -/

section Search

variable [DecidableEq κ] {hash : κ → Fin n} {t : Table n κ ν}

/-- The only live cell of `k`, with no empty cell before it, rules out every outcome except
finding it. -/
theorem probe_eq_found_of_unique {s i : Fin n} {k : κ} {v : ν} (hi : t i = .live k v)
    (hunique : ∀ j w, t j = .live k w → j = i)
    (hreach : ∀ e < distance s i, t (advance s e) ≠ .empty) : probe t s k = .found i := by
  have hcell : t (advance s (distance s i)) = .live k v := by
    rwa [advance_distance]
  have hs := probe_spec t s k
  cases hp : probe t s k with
  | found j =>
      rw [hp] at hs
      cases hs with
      | found d w hd hlive hpass => rw [hunique _ w hlive]
  | vacant j =>
      exfalso
      rw [hp] at hs
      cases hs with
      | vacant c d hcd hd hend hpass hfree hlive =>
          rcases Nat.lt_trichotomy (distance s i) d with hlt | heq | hgt
          · exact (hpass _ hlt).ne_live v hcell
          · rw [← heq, hcell] at hend
            cases hend
          · exact hreach d hgt hend
  | full =>
      exfalso
      rw [hp] at hs
      cases hs with
      | full hpass => exact (hpass _ (distance_lt _ _)).ne_live v hcell

theorem WellFormed.probe_eq_found (h : WellFormed hash t) {i : Fin n} {k : κ} {v : ν}
    (hi : t i = .live k v) : probe t (hash k) k = .found i :=
  probe_eq_found_of_unique hi (fun _ _ hj => h.unique hj hi) (h.reachable hi)

theorem live_of_probe_eq_found {s i : Fin n} {k : κ} (hp : probe t s k = .found i) :
    ∃ v, t i = .live k v := by
  have hs := probe_spec t s k
  rw [hp] at hs
  cases hs with
  | found d v hd hcell hpass => exact ⟨v, hcell⟩

/-- The cell offered to an insertion is free, and no empty cell precedes it. -/
theorem free_of_probe_eq_vacant {s i : Fin n} {k : κ} (hp : probe t s k = .vacant i) :
    (t i = .empty ∨ t i = .tombstone) ∧ ∀ e < distance s i, t (advance s e) ≠ .empty := by
  have hs := probe_spec t s k
  rw [hp] at hs
  cases hs with
  | vacant c d hcd hd hend hpass hfree hlive =>
      refine ⟨hfree, ?_⟩
      rw [distance_advance s (lt_of_le_of_lt hcd hd)]
      intro e he
      exact (hpass e (lt_of_lt_of_le he hcd)).ne_empty

theorem exists_empty_of_probe_eq_vacant {s i : Fin n} {k : κ} (hp : probe t s k = .vacant i) :
    ∃ j, t j = .empty := by
  have hs := probe_spec t s k
  rw [hp] at hs
  cases hs with
  | vacant c d hcd hd hend hpass hfree hlive => exact ⟨_, hend⟩

theorem forall_ne_empty_of_probe_eq_full {s : Fin n} {k : κ} (hp : probe t s k = .full) :
    ∀ j, t j ≠ .empty := by
  have hs := probe_spec t s k
  rw [hp] at hs
  cases hs with
  | full hpass =>
      intro j
      simpa using (hpass _ (distance_lt s j)).ne_empty

theorem ne_live_of_probe_eq_full {s : Fin n} {k : κ} (hp : probe t s k = .full) (i : Fin n)
    (v : ν) : t i ≠ .live k v := by
  have hs := probe_spec t s k
  rw [hp] at hs
  cases hs with
  | full hpass => simpa using (hpass _ (distance_lt s i)).ne_live v

/-- A search that begins at a tombstone offers it, unless it finds its key or no end. -/
theorem probe_of_tombstone {s : Fin n} {k : κ} (h : t s = .tombstone)
    (hk : ∀ i v, t i ≠ .live k v) (hempty : ∃ j, t j = .empty) : probe t s k = .vacant s := by
  have hs := probe_spec t s k
  cases hp : probe t s k with
  | found i =>
      obtain ⟨v, hi⟩ := live_of_probe_eq_found hp
      exact absurd hi (hk i v)
  | vacant i =>
      rw [hp] at hs
      cases hs with
      | vacant c d hcd hd hend hpass hfree hlive =>
          cases c with
          | zero => rw [advance_zero]
          | succ c =>
              obtain ⟨k', v, hcell⟩ := hlive 0 c.succ_pos
              rw [advance_zero, h] at hcell
              cases hcell
  | full =>
      obtain ⟨j, hj⟩ := hempty
      exact absurd hj (forall_ne_empty_of_probe_eq_full hp j)

end Search

/-! ## The abstract map -/

section Map

variable [DecidableEq κ]

/-- The value held for a key, as far as a search can see it. -/
def lookup (hash : κ → Fin n) (t : Table n κ ν) (k : κ) : Option ν :=
  match probe t (hash k) k with
  | .found i =>
    match t i with
    | .live _ v => some v
    | _ => none
  | _ => none

/-- Write the binding `f old` for `k`, where `old` is its present value. Nothing
happens when the search offers no cell. -/
def upsert (hash : κ → Fin n) (t : Table n κ ν) (k : κ) (f : Option ν → ν) : Table n κ ν :=
  match probe t (hash k) k with
  | .found i => Function.update t i (.live k (f (lookup hash t k)))
  | .vacant i => Function.update t i (.live k (f none))
  | .full => t

/-- Bury the cell of `k`, if it has one. -/
def erase (hash : κ → Fin n) (t : Table n κ ν) (k : κ) : Table n κ ν :=
  match probe t (hash k) k with
  | .found i => Function.update t i .tombstone
  | _ => t

variable {hash : κ → Fin n} {t : Table n κ ν}

theorem upsert_of_found {k : κ} {i : Fin n} (hp : probe t (hash k) k = .found i)
    (f : Option ν → ν) :
    upsert hash t k f = Function.update t i (.live k (f (lookup hash t k))) := by
  simp only [upsert, hp]

theorem upsert_of_vacant {k : κ} {i : Fin n} (hp : probe t (hash k) k = .vacant i)
    (f : Option ν → ν) : upsert hash t k f = Function.update t i (.live k (f none)) := by
  simp only [upsert, hp]

theorem upsert_of_full {k : κ} (hp : probe t (hash k) k = .full) (f : Option ν → ν) :
    upsert hash t k f = t := by
  simp only [upsert, hp]

theorem erase_of_found {k : κ} {i : Fin n} (hp : probe t (hash k) k = .found i) :
    erase hash t k = Function.update t i .tombstone := by
  simp only [erase, hp]

theorem erase_of_vacant {k : κ} {i : Fin n} (hp : probe t (hash k) k = .vacant i) :
    erase hash t k = t := by
  simp only [erase, hp]

theorem erase_of_full {k : κ} (hp : probe t (hash k) k = .full) : erase hash t k = t := by
  simp only [erase, hp]

theorem lookup_of_vacant {k : κ} {i : Fin n} (hp : probe t (hash k) k = .vacant i) :
    lookup hash t k = none := by
  simp only [lookup, hp]

theorem lookup_of_full {k : κ} (hp : probe t (hash k) k = .full) : lookup hash t k = none := by
  simp only [lookup, hp]

theorem WellFormed.lookup_eq_some_iff (h : WellFormed hash t) (k : κ) (v : ν) :
    lookup hash t k = some v ↔ ∃ i, t i = .live k v := by
  constructor
  · intro hl
    cases hp : probe t (hash k) k with
    | found i =>
        obtain ⟨w, hi⟩ := live_of_probe_eq_found hp
        simp only [lookup, hp, hi, Option.some.injEq] at hl
        subst hl
        exact ⟨i, hi⟩
    | vacant i => simp [lookup_of_vacant hp] at hl
    | full => simp [lookup_of_full hp] at hl
  · rintro ⟨i, hi⟩
    simp [lookup, h.probe_eq_found hi, hi]

theorem WellFormed.lookup_eq_none_iff (h : WellFormed hash t) (k : κ) :
    lookup hash t k = none ↔ ∀ i v, t i ≠ .live k v := by
  rw [Option.eq_none_iff_forall_ne_some]
  constructor
  · intro hn i v hi
    exact hn v ((h.lookup_eq_some_iff k v).mpr ⟨i, hi⟩)
  · intro hn v hl
    obtain ⟨i, hi⟩ := (h.lookup_eq_some_iff k v).mp hl
    exact hn i v hi

/-- Two tables whose live cells agree for a key agree on its value. -/
theorem WellFormed.lookup_congr {t' : Table n κ ν} (h : WellFormed hash t)
    (h' : WellFormed hash t') (k : κ) (hk : ∀ v, (∃ i, t' i = .live k v) ↔ ∃ i, t i = .live k v) :
    lookup hash t' k = lookup hash t k := by
  apply Option.ext
  intro v
  exact (h'.lookup_eq_some_iff k v).trans ((hk v).trans (h.lookup_eq_some_iff k v).symm)

/-! ### The operations keep the invariant -/

theorem WellFormed.upsert (h : WellFormed hash t) (k : κ) (f : Option ν → ν) :
    WellFormed hash (upsert hash t k f) := by
  cases hp : probe t (hash k) k with
  | found i =>
      obtain ⟨v, hi⟩ := live_of_probe_eq_found hp
      rw [upsert_of_found hp]
      refine h.update i _ (by simp) ?_
      intro k' v' hc
      cases hc
      exact ⟨fun j w hj => h.unique hj hi, h.reachable hi⟩
  | vacant i =>
      rw [upsert_of_vacant hp]
      refine h.update i _ (by simp) ?_
      intro k' v' hc
      cases hc
      refine ⟨?_, (free_of_probe_eq_vacant hp).2⟩
      intro j w hj
      rw [h.probe_eq_found hj] at hp
      cases hp
  | full => rwa [upsert_of_full hp]

theorem WellFormed.erase (h : WellFormed hash t) (k : κ) :
    WellFormed hash (erase hash t k) := by
  cases hp : probe t (hash k) k with
  | found i =>
      rw [erase_of_found hp]
      exact h.update i _ (by simp) (by simp)
  | vacant i => rwa [erase_of_vacant hp]
  | full => rwa [erase_of_full hp]

/-! ### The operations on the abstract map -/

omit [DecidableEq κ] in
/-- Writing cell `i` does not move a binding that neither the old nor the new
contents of cell `i` hold. -/
theorem exists_update_live_iff {i : Fin n} {c : Cell κ ν} {k : κ} {v : ν}
    (hc : c ≠ .live k v) (hi : t i ≠ .live k v) :
    (∃ j, Function.update t i c j = .live k v) ↔ ∃ j, t j = .live k v := by
  constructor
  · rintro ⟨j, hj⟩
    by_cases hji : j = i
    · subst hji
      exact absurd (by simpa using hj) hc
    · exact ⟨j, by simpa [hji] using hj⟩
  · rintro ⟨j, hj⟩
    have hji : j ≠ i := by
      rintro rfl
      exact hi hj
    exact ⟨j, by simpa [hji] using hj⟩

/-- An insertion or update is invisible to every other key. -/
theorem WellFormed.lookup_upsert_of_ne (h : WellFormed hash t) {k k' : κ} (hk : k' ≠ k)
    (f : Option ν → ν) : lookup hash (LinearProbing.upsert hash t k f) k' = lookup hash t k' := by
  refine h.lookup_congr (h.upsert k f) k' ?_
  intro v
  have hc : ∀ w, Cell.live k w ≠ .live k' v := by
    rintro w hw
    cases hw
    exact hk rfl
  cases hp : probe t (hash k) k with
  | found i =>
      obtain ⟨w, hi⟩ := live_of_probe_eq_found hp
      rw [upsert_of_found hp]
      exact exists_update_live_iff (hc _) (by rw [hi]; exact hc w)
  | vacant i =>
      rw [upsert_of_vacant hp]
      refine exists_update_live_iff (hc _) ?_
      rcases (free_of_probe_eq_vacant hp).1 with hi | hi <;> simp [hi]
  | full => rw [upsert_of_full hp]

/-- After an upsert the key holds the new value, unless it was unbound and the
table has no empty cell. -/
theorem WellFormed.lookup_upsert_self (h : WellFormed hash t) (k : κ) (f : Option ν → ν)
    (hroom : lookup hash t k ≠ none ∨ ∃ i, t i = .empty) :
    lookup hash (LinearProbing.upsert hash t k f) k = some (f (lookup hash t k)) := by
  rw [(h.upsert k f).lookup_eq_some_iff]
  cases hp : probe t (hash k) k with
  | found i => exact ⟨i, by simp [upsert_of_found hp]⟩
  | vacant i => exact ⟨i, by simp [upsert_of_vacant hp, lookup_of_vacant hp]⟩
  | full =>
      rcases hroom with hsome | ⟨j, hj⟩
      · exact absurd (lookup_of_full hp) hsome
      · exact absurd hj (forall_ne_empty_of_probe_eq_full hp j)

/-- An unbound key is refused when the table has no empty cell. -/
theorem WellFormed.upsert_of_no_empty (h : WellFormed hash t) (k : κ) (f : Option ν → ν)
    (hnone : lookup hash t k = none) (hempty : ∀ i, t i ≠ .empty) :
    LinearProbing.upsert hash t k f = t := by
  cases hp : probe t (hash k) k with
  | found i =>
      obtain ⟨v, hi⟩ := live_of_probe_eq_found hp
      exact absurd hi ((h.lookup_eq_none_iff k).mp hnone i v)
  | vacant i =>
      obtain ⟨j, hj⟩ := exists_empty_of_probe_eq_vacant hp
      exact absurd hj (hempty j)
  | full => exact upsert_of_full hp f

theorem WellFormed.lookup_erase_of_ne (h : WellFormed hash t) {k k' : κ} (hk : k' ≠ k) :
    lookup hash (LinearProbing.erase hash t k) k' = lookup hash t k' := by
  refine h.lookup_congr (h.erase k) k' ?_
  intro v
  cases hp : probe t (hash k) k with
  | found i =>
      obtain ⟨w, hi⟩ := live_of_probe_eq_found hp
      rw [erase_of_found hp]
      refine exists_update_live_iff (by simp) ?_
      rw [hi]
      rintro hw
      cases hw
      exact hk rfl
  | vacant i => rw [erase_of_vacant hp]
  | full => rw [erase_of_full hp]

theorem WellFormed.lookup_erase_self (h : WellFormed hash t) (k : κ) :
    lookup hash (LinearProbing.erase hash t k) k = none := by
  cases hp : probe t (hash k) k with
  | found j =>
      obtain ⟨w, hj⟩ := live_of_probe_eq_found hp
      rw [(h.erase k).lookup_eq_none_iff, erase_of_found hp]
      intro i v hi
      by_cases hij : i = j
      · subst hij
        simp at hi
      · rw [Function.update_of_ne hij] at hi
        exact hij (h.unique hi hj)
  | vacant j => rw [erase_of_vacant hp, lookup_of_vacant hp]
  | full => rw [erase_of_full hp, lookup_of_full hp]

/-! ### Cells that were used stay used -/

theorem empty_of_upsert_eq_empty {k : κ} {f : Option ν → ν} {i : Fin n}
    (h : LinearProbing.upsert hash t k f i = .empty) : t i = .empty := by
  have hupdate : ∀ j v, Function.update t j (.live k v) i = .empty → t i = .empty := by
    intro j v hj
    by_cases hij : i = j
    · subst hij
      simp at hj
    · simpa [hij] using hj
  cases hp : probe t (hash k) k with
  | found j => exact hupdate j _ (by rwa [upsert_of_found hp] at h)
  | vacant j => exact hupdate j _ (by rwa [upsert_of_vacant hp] at h)
  | full => rwa [upsert_of_full hp] at h

theorem erase_eq_empty_iff {k : κ} {i : Fin n} :
    LinearProbing.erase hash t k i = .empty ↔ t i = .empty := by
  cases hp : probe t (hash k) k with
  | found j =>
      obtain ⟨w, hj⟩ := live_of_probe_eq_found hp
      rw [erase_of_found hp]
      by_cases hij : i = j
      · subst hij
        simp [hj]
      · simp [hij]
  | vacant j => rw [erase_of_vacant hp]
  | full => rw [erase_of_full hp]

end Map

end LinearProbing
