import Mathlib.Tactic.Common
import Mathlib.Data.Fin.Basic
import Mathlib.Data.Nat.ModEq

/-! # Linear probing over cells with tombstones -/

namespace LinearProbing

/-- A cell has never been used, was buried, or holds one binding. A buried cell
keeps the paths through it connected and may be taken by a later insertion. -/
inductive Cell (κ ν : Type*) where
  | empty
  | tombstone
  | live (key : κ) (value : ν)
  deriving DecidableEq

/-- The cells of an open-addressed table with `n` positions. -/
abbrev Table (n : ℕ) (κ ν : Type*) := Fin n → Cell κ ν

/-- What a search for a key reports. -/
inductive Outcome (n : ℕ) where
  | found (i : Fin n)
  | vacant (i : Fin n)
  | full
  deriving DecidableEq

variable {κ ν : Type*} {n : ℕ}

/-! ## Positions on a wrapping path -/

/-- The position after `i`, wrapping at the end of the table. -/
def next (i : Fin n) : Fin n :=
  ⟨(i + 1) % n, Nat.mod_lt _ i.pos⟩

/-- The position `d` steps after `s`. -/
def advance (s : Fin n) (d : ℕ) : Fin n :=
  ⟨(s + d) % n, Nat.mod_lt _ s.pos⟩

/-- The number of steps that lead from `s` to `i` for the first time. -/
def distance (s i : Fin n) : ℕ :=
  (i + (n - s)) % n

@[simp] theorem advance_zero (s : Fin n) : advance s 0 = s := by
  apply Fin.ext
  simp [advance, Nat.mod_eq_of_lt s.isLt]

@[simp] theorem next_advance (s : Fin n) (d : ℕ) :
    next (advance s d) = advance s (d + 1) := by
  apply Fin.ext
  simp only [next, advance]
  rw [Nat.mod_add_mod, Nat.add_assoc]

theorem distance_lt (s i : Fin n) : distance s i < n :=
  Nat.mod_lt _ s.pos

@[simp] theorem advance_distance (s i : Fin n) : advance s (distance s i) = i := by
  apply Fin.ext
  simp only [advance, distance]
  rw [Nat.add_mod_mod]
  have hs := s.isLt
  have hsum : (s : ℕ) + (i + (n - s)) = i + n := by omega
  rw [hsum, Nat.add_mod_right, Nat.mod_eq_of_lt i.isLt]

theorem distance_advance (s : Fin n) {d : ℕ} (hd : d < n) :
    distance s (advance s d) = d := by
  simp only [advance, distance]
  rw [Nat.mod_add_mod]
  have hs := s.isLt
  have hsum : (s : ℕ) + d + (n - s) = d + n := by omega
  rw [hsum, Nat.add_mod_right, Nat.mod_eq_of_lt hd]

@[simp] theorem distance_self (s : Fin n) : distance s s = 0 := by
  simpa using distance_advance s (d := 0) s.pos

/-! ## The scan -/

/-- One search: stop at a live cell of `k` or at an empty cell, remembering the
first tombstone passed as the preferred place for an insertion. -/
def scan [DecidableEq κ] (t : Table n κ ν) (k : κ) : ℕ → Fin n → Option (Fin n) → Outcome n
  | 0, _, _ => .full
  | fuel + 1, i, reuse =>
    match t i with
    | .empty => .vacant (reuse.getD i)
    | .tombstone => scan t k fuel (next i) (reuse <|> some i)
    | .live k' _ => if k' = k then .found i else scan t k fuel (next i) reuse

/-- Search the whole table for `k`, beginning at `s`. -/
def probe [DecidableEq κ] (t : Table n κ ν) (s : Fin n) (k : κ) : Outcome n :=
  scan t k n s none

/-- A search for `k` continues past this cell. -/
def Passed (k : κ) : Cell κ ν → Prop
  | .empty => False
  | .tombstone => True
  | .live k' _ => k' ≠ k

theorem Passed.ne_empty {k : κ} {c : Cell κ ν} (h : Passed k c) : c ≠ .empty := by
  rintro rfl
  exact h

theorem Passed.ne_live {k : κ} {c : Cell κ ν} (h : Passed k c) (v : ν) : c ≠ .live k v := by
  rintro rfl
  exact h rfl

/-- The complete meaning of an outcome, independent of how the search computes it.
A vacant answer is the first cell on the path that is not live, provided that an
empty cell ends the path. -/
inductive ProbeSpec (t : Table n κ ν) (s : Fin n) (k : κ) : Outcome n → Prop where
  | found (d : ℕ) (v : ν) (hd : d < n) (hcell : t (advance s d) = .live k v)
      (hpass : ∀ e < d, Passed k (t (advance s e))) :
      ProbeSpec t s k (.found (advance s d))
  | vacant (c d : ℕ) (hcd : c ≤ d) (hd : d < n) (hend : t (advance s d) = .empty)
      (hpass : ∀ e < d, Passed k (t (advance s e)))
      (hfree : t (advance s c) = .empty ∨ t (advance s c) = .tombstone)
      (hlive : ∀ e < c, ∃ k' v, t (advance s e) = .live k' v) :
      ProbeSpec t s k (.vacant (advance s c))
  | full (hpass : ∀ e < n, Passed k (t (advance s e))) : ProbeSpec t s k .full

/-- What the remembered position means after `d` cells have been passed. -/
def ReuseSpec (t : Table n κ ν) (s : Fin n) (d : ℕ) : Option (Fin n) → Prop
  | none => ∀ e < d, ∃ k' v, t (advance s e) = .live k' v
  | some j => ∃ c < d, j = advance s c ∧ t j = .tombstone ∧
      ∀ e < c, ∃ k' v, t (advance s e) = .live k' v

theorem ReuseSpec.tombstone {t : Table n κ ν} {s : Fin n} {d : ℕ} {reuse : Option (Fin n)}
    (h : ReuseSpec t s d reuse) (hcell : t (advance s d) = .tombstone) :
    ReuseSpec t s (d + 1) (reuse <|> some (advance s d)) := by
  cases reuse with
  | none => exact ⟨d, Nat.lt_succ_self d, rfl, hcell, h⟩
  | some j =>
      obtain ⟨c, hc, hj, htomb, hlive⟩ := h
      exact ⟨c, Nat.lt_succ_of_lt hc, hj, htomb, hlive⟩

theorem ReuseSpec.live {t : Table n κ ν} {s : Fin n} {d : ℕ} {reuse : Option (Fin n)}
    {k : κ} {v : ν} (h : ReuseSpec t s d reuse) (hcell : t (advance s d) = .live k v) :
    ReuseSpec t s (d + 1) reuse := by
  cases reuse with
  | none =>
      intro e he
      rcases Nat.lt_succ_iff_lt_or_eq.mp he with he | rfl
      · exact h e he
      · exact ⟨k, v, hcell⟩
  | some j =>
      obtain ⟨c, hc, hj, htomb, hlive⟩ := h
      exact ⟨c, Nat.lt_succ_of_lt hc, hj, htomb, hlive⟩

theorem forall_lt_succ_of_passed {t : Table n κ ν} {s : Fin n} {k : κ} {d : ℕ}
    (hpass : ∀ e < d, Passed k (t (advance s e))) (hcell : Passed k (t (advance s d))) :
    ∀ e < d + 1, Passed k (t (advance s e)) := by
  intro e he
  rcases Nat.lt_succ_iff_lt_or_eq.mp he with he | rfl
  · exact hpass e he
  · exact hcell

/-- After `d` passed cells the remaining scan still satisfies the specification. -/
theorem scan_spec [DecidableEq κ] (t : Table n κ ν) (s : Fin n) (k : κ) (fuel d : ℕ)
    (reuse : Option (Fin n)) (hfuel : d + fuel = n)
    (hpass : ∀ e < d, Passed k (t (advance s e))) (hreuse : ReuseSpec t s d reuse) :
    ProbeSpec t s k (scan t k fuel (advance s d) reuse) := by
  induction fuel generalizing d reuse with
  | zero =>
      have hdn : d = n := by omega
      subst hdn
      exact .full hpass
  | succ fuel ih =>
      have hd : d < n := by omega
      rw [scan]
      cases hcell : t (advance s d) with
      | empty =>
          cases reuse with
          | none => exact .vacant d d le_rfl hd hcell hpass (.inl hcell) hreuse
          | some j =>
              obtain ⟨c, hc, rfl, htomb, hlive⟩ := hreuse
              exact .vacant c d hc.le hd hcell hpass (.inr htomb) hlive
      | tombstone =>
          have hpass' := forall_lt_succ_of_passed hpass (by simp [hcell, Passed])
          simpa using ih (d + 1) _ (by omega) hpass' (hreuse.tombstone hcell)
      | live k' v =>
          by_cases hk : k' = k
          · subst hk
            simpa using ProbeSpec.found d v hd hcell hpass
          · have hpass' := forall_lt_succ_of_passed hpass (by simpa [hcell, Passed] using hk)
            simpa [hk] using ih (d + 1) reuse (by omega) hpass' (hreuse.live hcell)

/-- A search computes an outcome that satisfies the specification. -/
theorem probe_spec [DecidableEq κ] (t : Table n κ ν) (s : Fin n) (k : κ) :
    ProbeSpec t s k (probe t s k) := by
  simpa [probe] using scan_spec t s k n 0 none (by omega) (by simp) (by simp [ReuseSpec])

/-- A search that begins at an empty cell ends there. -/
theorem probe_of_empty [DecidableEq κ] {t : Table n κ ν} {s : Fin n} (k : κ)
    (h : t s = .empty) : probe t s k = .vacant s := by
  cases n with
  | zero => exact s.elim0
  | succ n => simp [probe, scan, h]

/-- A search that begins at the live cell of its key ends there. -/
theorem probe_of_live [DecidableEq κ] {t : Table n κ ν} {s : Fin n} {k : κ} {v : ν}
    (h : t s = .live k v) : probe t s k = .found s := by
  cases n with
  | zero => exact s.elim0
  | succ n => simp [probe, scan, h]

end LinearProbing
