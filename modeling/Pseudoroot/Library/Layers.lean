import Mathlib.Logic.Function.Basic

/-! # Changes layered over a base map -/

namespace Layers

variable {κ ν : Type*} {base : κ → Option ν} {changes : κ → Option (Option ν)} {k : κ}

/-- The base as the changes leave it: each key is set, removed or untouched. -/
def apply (base : κ → Option ν) (changes : κ → Option (Option ν)) (k : κ) : Option ν :=
  (changes k).getD (base k)

/-- A lookup in the two layers that takes a removed key for an untouched one. -/
def lookup (base : κ → Option ν) (changes : κ → Option (Option ν)) (k : κ) : Option ν :=
  (changes k).join.or (base k)

/-- The changes remove a key that the base has. -/
def Hides (base : κ → Option ν) (changes : κ → Option (Option ν)) (k : κ) : Prop :=
  changes k = some none ∧ base k ≠ none

theorem Hides.apply_eq (h : Hides base changes k) : apply base changes k = none := by
  rw [apply, h.1, Option.getD_some]

theorem Hides.lookup_eq (h : Hides base changes k) : lookup base changes k = base k := by
  rw [lookup, h.1, Option.join_some, Option.none_or]

theorem lookup_eq_apply (h : ¬ Hides base changes k) :
    lookup base changes k = apply base changes k := by
  unfold Hides at h
  unfold lookup apply
  cases hk : changes k with
  | none => rfl
  | some change =>
      cases change with
      | some v => rfl
      | none =>
          have hbase : base k = none := not_not.mp (not_and.mp h hk)
          simp [hbase]

/-- Setting a key in the changes sets it in the result. -/
theorem apply_update [DecidableEq κ] (base : κ → Option ν) (changes : κ → Option (Option ν))
    (k : κ) (v : ν) :
    apply base (Function.update changes k (some (some v))) =
      Function.update (apply base changes) k (some v) := by
  funext i
  by_cases hik : i = k
  · subst hik
    simp [apply]
  · simp [apply, Function.update_of_ne hik]

end Layers
