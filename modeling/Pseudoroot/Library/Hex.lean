import Mathlib.Algebra.Order.Ring.Nat
import Mathlib.Tactic.Common

/-! # Hexadecimal numbers padded with zeros -/

namespace Hex

def digitValue (c : Char) : ℕ :=
  if c.isDigit then c.toNat - 48 else c.toNat - 87

def value (digits : List Char) : ℕ :=
  digits.foldl (fun v c => 16 * v + digitValue c) 0

theorem value_append_singleton (digits : List Char) (c : Char) :
    value (digits ++ [c]) = 16 * value digits + digitValue c := by
  rw [value, List.foldl_append, List.foldl_cons, List.foldl_nil, value]

theorem digitValue_digitChar {d : ℕ} (hd : d < 16) : digitValue d.digitChar = d := by
  decide +revert

theorem value_toDigits (n : ℕ) : value (Nat.toDigits 16 n) = n := by
  induction n using Nat.strongRecOn with
  | ind n ih =>
      rw [Nat.toDigits_eq_if (by decide)]
      by_cases hn : n < 16
      · rw [if_pos hn, value, List.foldl_cons, List.foldl_nil, digitValue_digitChar hn]
        omega
      · rw [if_neg hn, value_append_singleton, ih (n / 16) (by omega),
          digitValue_digitChar (Nat.mod_lt n (by decide))]
        omega

theorem value_leftpad (k : ℕ) (digits : List Char) :
    value (digits.leftpad k '0') = value digits := by
  have hzeros (m : ℕ) : value (List.replicate m '0') = 0 := by
    induction m with
    | zero => rfl
    | succ m ih =>
        rw [List.replicate_succ', value_append_singleton, ih]
        rfl
  rw [List.leftpad, value, List.foldl_append]
  exact congrArg (fun v => digits.foldl (fun v c => 16 * v + digitValue c) v) (hzeros _)

/-- A printed number is read back from its padded digits. -/
theorem leftpad_toDigits_injective {k m n : ℕ}
    (h : (Nat.toDigits 16 m).leftpad k '0' = (Nat.toDigits 16 n).leftpad k '0') : m = n := by
  rw [← value_toDigits m, ← value_leftpad k, h, value_leftpad, value_toDigits]

theorem length_leftpad_toDigits {k n : ℕ} (hk : 0 < k) (hn : n < 16 ^ k) :
    ((Nat.toDigits 16 n).leftpad k '0').length = k := by
  rw [List.length_leftpad]
  exact Nat.max_eq_left ((Nat.length_toDigits_le_iff (by decide) hk).mpr hn)

end Hex
