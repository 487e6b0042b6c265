import Mathlib

/-! # Consecutive arrays in memory -/

namespace Layout

/-- The bytes of a field. -/
def field (offset size : ℕ) : Set ℕ := Set.Ico offset (offset + size)

theorem disjoint_field {offset size offset' size' : ℕ} (h : offset + size ≤ offset') :
    Disjoint (field offset size) (field offset' size') :=
  Set.disjoint_left.mpr fun _ hx hy => absurd (Nat.lt_of_lt_of_le hx.2 h) (Nat.not_lt.mpr hy.1)

theorem field_subset {offset size len : ℕ} (h : offset + size ≤ len) :
    field offset size ⊆ Set.Iio len :=
  fun _ hx => Nat.lt_of_lt_of_le hx.2 h

/-- Two elements of an array of elements of one size share no byte. -/
theorem disjoint_element {offset size i j : ℕ} (h : i ≠ j) :
    Disjoint (field (offset + size * i) size) (field (offset + size * j) size) := by
  have hlt : ∀ {i j : ℕ}, i < j → offset + size * i + size ≤ offset + size * j := by
    intro i j hij
    have hmul : size * (i + 1) ≤ size * j := Nat.mul_le_mul_left size hij
    rw [Nat.mul_succ] at hmul
    omega
  rcases Nat.lt_or_gt_of_ne h with hij | hji
  · exact disjoint_field (hlt hij)
  · exact (disjoint_field (hlt hji)).symm

/-- An element ends where its array ends, or before. -/
theorem element_end_le {offset size i count : ℕ} (h : i < count) :
    offset + size * i + size ≤ offset + size * count := by
  have hmul : size * (i + 1) ≤ size * count := Nat.mul_le_mul_left size h
  rw [Nat.mul_succ] at hmul
  omega

end Layout

/-! ## Rounding up to a power of two -/

namespace PowerOfTwo

/-- `Nat.nextPowerOfTwo` is a loop that doubles a power until it is large enough. -/
theorem exists_loop (n : ℕ) : ∃ go : (power : ℕ) → 0 < power → ℕ,
    n.nextPowerOfTwo = go 1 Nat.one_pos ∧
    ∀ power (h : 0 < power), go power h =
      if power < n then go (power * 2) (Nat.mul_pos h Nat.two_pos) else power := by
  refine ⟨?go, ?start, ?double⟩
  case start =>
    -- the loop has no name outside its own file: unification finds it
    unfold Nat.nextPowerOfTwo
    exact rfl
  case double =>
    intro power h
    have hfix := WellFounded.Nat.fix_eq (fun x : PSigma fun power : ℕ => power > 0 => n - x.1)
      (fun x (loop : (y : PSigma fun power : ℕ => power > 0) → _ → ℕ) =>
        if h : x.1 < n then
          loop ⟨x.1 * 2, Nat.mul_pos x.2 Nat.two_pos⟩ (Nat.nextPowerOfTwo_dec x.2 h)
        else x.1) ⟨power, h⟩
    with_unfolding_all exact hfix

variable {n : ℕ} {go : (power : ℕ) → 0 < power → ℕ}

/-- What holds of every power that a doubling loop reaches holds of its result, which is large
enough. -/
theorem loop_spec (hgo : ∀ power (h : 0 < power), go power h =
      if power < n then go (power * 2) (Nat.mul_pos h Nat.two_pos) else power)
    {P : ℕ → Prop} (hdouble : ∀ power, power < n → P power → P (power * 2)) (power : ℕ)
    (h : 0 < power) (hP : P power) : P (go power h) ∧ n ≤ go power h := by
  rw [hgo]
  by_cases hlt : power < n
  · rw [if_pos hlt]
    exact loop_spec hgo hdouble (power * 2) _ (hdouble power hlt hP)
  · rw [if_neg hlt]
    exact ⟨hP, Nat.not_lt.mp hlt⟩
termination_by n - power
decreasing_by exact Nat.nextPowerOfTwo_dec h hlt

theorem le_next (n : ℕ) : n ≤ n.nextPowerOfTwo := by
  obtain ⟨go, hstart, hgo⟩ := exists_loop n
  rw [hstart]
  exact (loop_spec (P := fun _ => True) hgo (fun _ _ _ => trivial) 1 Nat.one_pos trivial).2

/-- A number below a power of two is rounded up to no more than it. -/
theorem next_le {k : ℕ} (hn : n ≤ 2 ^ k) : n.nextPowerOfTwo ≤ 2 ^ k := by
  obtain ⟨go, hstart, hgo⟩ := exists_loop n
  have hdouble : ∀ power, power < n → power ∣ 2 ^ k → power * 2 ∣ 2 ^ k := by
    intro power hlt hdvd
    obtain ⟨j, _, rfl⟩ := (Nat.dvd_prime_pow Nat.prime_two).mp hdvd
    have hjk : j < k := (Nat.pow_lt_pow_iff_right (by decide)).mp (Nat.lt_of_lt_of_le hlt hn)
    rw [← Nat.pow_succ]
    exact Nat.pow_dvd_pow 2 hjk
  rw [hstart]
  exact Nat.le_of_dvd (Nat.two_pow_pos k)
    (loop_spec hgo hdouble 1 Nat.one_pos (Nat.one_dvd _)).1

/-- What is above a power of two is rounded up to the next one at least. -/
theorem le_next_of_lt {k : ℕ} (hn : 2 ^ k < n) : 2 ^ (k + 1) ≤ n.nextPowerOfTwo := by
  obtain ⟨j, hj⟩ := Nat.isPowerOfTwo_nextPowerOfTwo n
  have hle := le_next n
  rw [hj] at hle ⊢
  exact Nat.pow_le_pow_right (by decide)
    ((Nat.pow_lt_pow_iff_right (by decide)).mp (Nat.lt_of_lt_of_le hn hle))

end PowerOfTwo
