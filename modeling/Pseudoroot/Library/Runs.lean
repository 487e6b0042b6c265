import Mathlib.Tactic.Common
import Mathlib.Data.Nat.Notation

/-! # Runs of a labelled machine

A machine maps a state and a label to the next state. Statements about a run speak of
the state before each of its steps, the state after a prefix of the labels. -/

namespace Machine

variable {σ α τ : Type*} (step : σ → α → σ)

/-- The state after all labels, taken in order. -/
def run (s : σ) (as : List α) : σ :=
  as.foldl step s

@[simp] theorem run_nil (s : σ) : run step s [] = s := rfl

@[simp] theorem run_cons (s : σ) (a : α) (as : List α) :
    run step s (a :: as) = run step (step s a) as := rfl

theorem run_append (s : σ) (as bs : List α) :
    run step s (as ++ bs) = run step (run step s as) bs :=
  List.foldl_append

theorem run_take_succ (s : σ) (as : List α) {i : ℕ} (hi : i < as.length) :
    run step s (as.take (i + 1)) = step (run step s (as.take i)) as[i] := by
  rw [List.take_succ_eq_append_getElem hi, run_append, run_cons, run_nil]

variable {step}

/-- An invariant that every step keeps holds at the end of every run. -/
theorem run_invariant {I : σ → Prop} (hstep : ∀ s a, I s → I (step s a)) {s : σ}
    (hs : I s) (as : List α) : I (run step s as) := by
  induction as generalizing s with
  | nil => exact hs
  | cons a as ih => exact ih (hstep s a hs)

/-- An invariant of the steps that meet a guard holds throughout a run whose steps meet it. -/
theorem run_invariant_of_guard {I : σ → Prop} {P : σ → α → Prop}
    (hstep : ∀ s a, P s a → I s → I (step s a)) {s : σ} (hs : I s) (as : List α)
    (hguard : ∀ i (hi : i < as.length), P (run step s (as.take i)) as[i]) :
    ∀ i ≤ as.length, I (run step s (as.take i)) := by
  intro i
  induction i with
  | zero => intro _; simpa using hs
  | succ i ih =>
      intro hi
      rw [run_take_succ step s as hi]
      exact hstep _ _ (hguard i hi) (ih (Nat.le_of_succ_le hi))

/-- Two machines over the same labels stay related when each pair of steps keeps the
relation. -/
theorem run_relation {step' : τ → α → τ} {R : σ → τ → Prop} {P : α → Prop}
    (hstep : ∀ s t a, P a → R s t → R (step s a) (step' t a)) {s : σ} {t : τ} (h : R s t)
    (as : List α) (has : ∀ a ∈ as, P a) : R (run step s as) (run step' t as) := by
  induction as generalizing s t with
  | nil => exact h
  | cons a as ih =>
      exact ih (hstep s t a (has a (by simp)) h) (fun b hb => has b (by simp [hb]))

/-- Two machines stay related throughout a run whose steps meet a guard. -/
theorem run_relation_of_guard {step' : τ → α → τ} {R : σ → τ → Prop} {P : σ → α → Prop}
    (hstep : ∀ s t a, P s a → R s t → R (step s a) (step' t a)) {s : σ} {t : τ} (h : R s t)
    (as : List α) (hguard : ∀ i (hi : i < as.length), P (run step s (as.take i)) as[i]) :
    ∀ i ≤ as.length, R (run step s (as.take i)) (run step' t (as.take i)) := by
  intro i
  induction i with
  | zero => intro _; simpa using h
  | succ i ih =>
      intro hi
      rw [run_take_succ step s as hi, run_take_succ step' t as hi]
      exact hstep _ _ _ (hguard i hi) (ih (Nat.le_of_succ_le hi))

/-! ## Labels of another machine -/

section Relabel

variable {β : Type*} {f : σ → α → β}

/-- The labels that the steps of a run are for another machine, each in the state before it. -/
def relabel (step : σ → α → σ) (f : σ → α → β) (s : σ) : List α → List β
  | [] => []
  | a :: as => f s a :: relabel step f (step s a) as

@[simp] theorem length_relabel (s : σ) (as : List α) :
    (relabel step f s as).length = as.length := by
  induction as generalizing s with
  | nil => rfl
  | cons a as ih => simp [relabel, ih]

theorem getElem_relabel (s : σ) (as : List α) {i : ℕ} (hi : i < as.length)
    (hi' : i < (relabel step f s as).length) :
    (relabel step f s as)[i] = f (run step s (as.take i)) as[i] := by
  induction as generalizing s i with
  | nil => exact absurd hi (Nat.not_lt_zero i)
  | cons a as ih =>
      cases i with
      | zero => rfl
      | succ i => exact ih (step s a) (Nat.lt_of_succ_lt_succ hi) _

/-- A machine that takes these labels stays related when each pair of steps keeps the
relation under a guard. -/
theorem run_relabel_of_guard {step' : τ → β → τ} {R : σ → τ → Prop} {P : σ → α → Prop}
    (hstep : ∀ s t a, P s a → R s t → R (step s a) (step' t (f s a))) {s : σ} {t : τ}
    (h : R s t) (as : List α)
    (hguard : ∀ i (hi : i < as.length), P (run step s (as.take i)) as[i]) :
    ∀ i ≤ as.length,
      R (run step s (as.take i)) (run step' t ((relabel step f s as).take i)) := by
  intro i
  induction i with
  | zero => intro _; simpa using h
  | succ i ih =>
      intro hi
      have hi' : i < (relabel step f s as).length := (length_relabel s as).symm ▸ hi
      rw [run_take_succ step s as hi, run_take_succ step' t _ hi', getElem_relabel s as hi]
      exact hstep _ _ _ (hguard i hi) (ih (Nat.le_of_succ_le hi))

end Relabel

/-- Suppose that, under an invariant, a good state stays good in a step exactly when a
guard holds there. Then a run stays good throughout exactly when every one of its steps
meets the guard. -/
theorem forall_good_iff_forall_guard {I G : σ → Prop} {P : σ → α → Prop}
    (hinv : ∀ s a, I s → I (step s a))
    (hstep : ∀ s a, I s → G s → (G (step s a) ↔ P s a)) {s : σ} (hs : I s)
    (hgood : G s) (as : List α) :
    (∀ i ≤ as.length, G (run step s (as.take i))) ↔
      ∀ i (hi : i < as.length), P (run step s (as.take i)) as[i] := by
  have hrun : ∀ i, I (run step s (as.take i)) := fun i => run_invariant hinv hs _
  constructor
  · intro hall i hi
    have hnext := hall (i + 1) hi
    rw [run_take_succ step s as hi] at hnext
    exact (hstep _ _ (hrun i) (hall i (Nat.le_of_lt hi))).mp hnext
  · intro hguard i
    induction i with
    | zero => intro _; simpa using hgood
    | succ i ih =>
        intro hi
        rw [run_take_succ step s as hi]
        exact (hstep _ _ (hrun i) (ih (Nat.le_of_succ_le hi))).mpr (hguard i hi)

/-- A forward simulation step by step gives an abstract run beside every run. -/
theorem exists_simulation {R : τ → σ → Prop} {A : σ → τ → α → τ → Prop}
    (hstep : ∀ t s a, R t s → ∃ t', A s t a t' ∧ R t' (step s a)) {t : τ} {s : σ}
    (h : R t s) (as : List α) :
    ∃ f : ℕ → τ, f 0 = t ∧
      (∀ i (hi : i < as.length), A (run step s (as.take i)) (f i) as[i] (f (i + 1))) ∧
      ∀ i ≤ as.length, R (f i) (run step s (as.take i)) := by
  induction as generalizing t s with
  | nil =>
      refine ⟨fun _ => t, rfl, fun i hi => absurd hi (Nat.not_lt_zero i), fun i _ => ?_⟩
      simpa using h
  | cons a as ih =>
      obtain ⟨t', habs, hR⟩ := hstep t s a h
      obtain ⟨f, hf0, hfstep, hfR⟩ := ih hR
      refine ⟨fun i => if i = 0 then t else f (i - 1), rfl, ?_, ?_⟩
      · intro i hi
        cases i with
        | zero => simpa [hf0] using habs
        | succ i => simpa using hfstep i (by simpa using hi)
      · intro i hi
        cases i with
        | zero => simpa using h
        | succ i => simpa using hfR i (by simpa using hi)

end Machine
