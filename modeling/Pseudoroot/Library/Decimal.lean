import Mathlib.Data.Int.Notation
import Mathlib.Data.Nat.Notation
import Mathlib.Logic.Function.Basic
import Mathlib.Tactic.Common

/-! # Decimal numbers as bytes -/

namespace Decimal

/-- The digits of a number, after its sign. -/
def bytes (n : ℤ) : List UInt8 := n.repr.toList.map fun c => c.toNat.toUInt8

theorem isDigit_of_mem_repr {m : ℕ} {c : Char} (h : c ∈ m.repr.toList) : c.isDigit = true := by
  rw [Nat.toList_repr] at h
  exact Nat.isDigit_of_mem_toDigits (by decide) (by decide) h

theorem nat_repr_injective {m n : ℕ} (h : m.repr.toList = n.repr.toList) : m = n := by
  rw [Nat.toList_repr, Nat.toList_repr] at h
  rw [← Nat.ofDigitChars_ten_toDigits (n := m), h, Nat.ofDigitChars_ten_toDigits]

/-- Reading the digits of a number gives the number. -/
theorem foldl_repr (m : ℕ) :
    m.repr.toList.foldl (fun v digit => 10 * v + (digit.toNat - 48)) 0 = m := by
  rw [Nat.toList_repr]
  exact Nat.ofDigitChars_ten_toDigits

theorem repr_ne_nil (m : ℕ) : m.repr.toList ≠ [] := by
  rw [Nat.toList_repr]
  exact Nat.toDigits_ne_nil

theorem repr_injective {m n : ℤ} (h : m.repr.toList = n.repr.toList) : m = n := by
  -- A digit is no sign.
  have hsign : ∀ a b : ℕ, a.repr.toList ≠ '-' :: b.repr.toList := by
    intro a b heq
    have hdigit : ('-').isDigit = true := isDigit_of_mem_repr (m := a) (heq ▸ List.mem_cons_self)
    exact absurd hdigit (by decide)
  have hminus : ∀ a : ℕ, ("-" ++ a.repr).toList = '-' :: a.repr.toList := by
    intro a
    rw [String.toList_append]
    rfl
  rw [Int.repr_eq_if, Int.repr_eq_if] at h
  split at h <;> split at h
  · have hnat := nat_repr_injective h
    omega
  · rw [hminus] at h
    exact absurd h (hsign _ _)
  · rw [hminus] at h
    exact absurd h.symm (hsign _ _)
  · rw [hminus, hminus] at h
    have hnat := nat_repr_injective (List.cons.inj h).2
    omega

/-- A sign or a digit fits a byte. -/
theorem toNat_of_mem_repr {n : ℤ} {c : Char} (h : c ∈ n.repr.toList) :
    c.toNat = 45 ∨ 48 ≤ c.toNat ∧ c.toNat ≤ 57 := by
  have hrange : ∀ m : ℕ, c ∈ m.repr.toList → 48 ≤ c.toNat ∧ c.toNat ≤ 57 := by
    intro m hm
    simpa [Char.isDigit, UInt32.le_iff_toNat_le] using isDigit_of_mem_repr hm
  rw [Int.repr_eq_if] at h
  split at h
  · exact Or.inr (hrange _ h)
  · rw [String.toList_append, List.mem_append] at h
    rcases h with hsign | hdigit
    · obtain rfl : c = '-' := by simpa using hsign
      exact Or.inl rfl
    · exact Or.inr (hrange _ hdigit)

theorem toNat_byte {n : ℤ} {c : Char} (h : c ∈ n.repr.toList) :
    c.toNat.toUInt8.toNat = c.toNat := by
  have hrange := toNat_of_mem_repr h
  simp only [Nat.toUInt8, UInt8.toNat_ofNat']
  omega

theorem bytes_injective : Function.Injective bytes := by
  have hchars : ∀ n : ℤ, (bytes n).map (fun byte => Char.ofNat byte.toNat) = n.repr.toList := by
    intro n
    rw [bytes, List.map_map]
    refine (List.map_congr_left fun c hc => ?_).trans (List.map_id _)
    simp [toNat_byte hc]
  intro m n h
  exact repr_injective (by rw [← hchars, h, hchars])

/-- A number is written with its sign and digits alone. -/
theorem toNat_of_mem_bytes {n : ℤ} {byte : UInt8} (h : byte ∈ bytes n) :
    byte.toNat = 45 ∨ 48 ≤ byte.toNat ∧ byte.toNat ≤ 57 := by
  obtain ⟨c, hc, rfl⟩ := List.mem_map.mp h
  rw [toNat_byte hc]
  exact toNat_of_mem_repr hc

end Decimal
