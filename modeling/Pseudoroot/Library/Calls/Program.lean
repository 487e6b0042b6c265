import Mathlib.Tactic.Common
import Mathlib.Data.Nat.Notation

/-! # Programs that call an environment

A program is a tree of calls, each followed by what it does with the reply. A handler
answers calls from a shared state. -/

namespace Calls

/-- The calls that programs make, each with the type of its reply. -/
structure Signature where
  Call : Type
  Reply : Call → Type

inductive Program (S : Signature) (α : Type) where
  | done (a : α)
  | call (c : S.Call) (next : S.Reply c → Program S α)

/-- How an environment with state `σ` answers calls. -/
abbrev Handler (S : Signature) (σ : Type) :=
  (c : S.Call) → σ → S.Reply c × σ

namespace Program

variable {S : Signature} {α β γ σ L : Type}

def bind : Program S α → (α → Program S β) → Program S β
  | done a, f => f a
  | call c next, f => call c fun r => (next r).bind f

instance : Monad (Program S) where
  pure := done
  bind := bind

@[simp] theorem done_bind (a : α) (f : α → Program S β) : done a >>= f = f a := rfl

@[simp] theorem call_bind (c : S.Call) (next : S.Reply c → Program S α) (f : α → Program S β) :
    call c next >>= f = call c fun r => next r >>= f := rfl

theorem bind_done (p : Program S α) : p.bind done = p := by
  induction p with
  | done a => rfl
  | call c next ih => exact congrArg (call c) (funext ih)

theorem bind_assoc (p : Program S α) (f : α → Program S β) (g : β → Program S γ) :
    (p.bind f).bind g = p.bind fun a => (f a).bind g := by
  induction p with
  | done a => rfl
  | call c next ih => exact congrArg (call c) (funext ih)

instance : LawfulMonad (Program S) :=
  LawfulMonad.mk' _ bind_done (fun _ _ => rfl) bind_assoc

/-- Make one call and return its reply. -/
def send (c : S.Call) : Program S (S.Reply c) :=
  call c done

/-! ## Running to the end -/

/-- Run a program with no other program in between. -/
def run (h : Handler S σ) : Program S α → σ → α × σ
  | done a, s => (a, s)
  | call c next, s => run h (next (h c s).1) (h c s).2

variable (h : Handler S σ)

@[simp] theorem run_done (a : α) (s : σ) : run h (done a) s = (a, s) := rfl

@[simp] theorem run_call (c : S.Call) (next : S.Reply c → Program S α) (s : σ) :
    run h (call c next) s = run h (next (h c s).1) (h c s).2 := rfl

@[simp] theorem run_pure (a : α) (s : σ) : run h (pure a) s = (a, s) := rfl

@[simp] theorem run_send (c : S.Call) (s : σ) : run h (send c) s = h c s := rfl

@[simp] theorem run_bind (p : Program S α) (f : α → Program S β) (s : σ) :
    run h (p >>= f) s = run h (f (run h p s).1) (run h p s).2 := by
  induction p generalizing s with
  | done a => rfl
  | call c next ih => rw [call_bind, run_call, ih, run_call]

/-! ## Running call by call -/

/-- Make the next call. -/
def advance (h : Handler S σ) : Program S α → σ → Program S α × σ
  | done a, s => (done a, s)
  | call c next, s => (next (h c s).1, (h c s).2)

/-- The program ends after at most that many calls, whatever the replies. -/
def CallsAtMost : ℕ → Program S α → Prop
  | _, done _ => True
  | 0, call _ _ => False
  | k + 1, call _ next => ∀ r, CallsAtMost k (next r)

theorem callsAtMost_done (k : ℕ) (a : α) : CallsAtMost k (done a : Program S α) := by
  cases k with
  | zero => exact True.intro
  | succ k => exact True.intro

theorem CallsAtMost.mono {p : Program S α} {k m : ℕ} (hp : CallsAtMost k p) (hkm : k ≤ m) :
    CallsAtMost m p := by
  induction p generalizing k m with
  | done a => exact callsAtMost_done m a
  | call c next ih =>
      cases k with
      | zero => exact hp.elim
      | succ k =>
          cases m with
          | zero => omega
          | succ m => exact fun r => ih r (hp r) (by omega)

theorem CallsAtMost.bind {p : Program S α} {f : α → Program S β} {k m : ℕ}
    (hp : CallsAtMost k p) (hf : ∀ a, CallsAtMost m (f a)) : CallsAtMost (k + m) (p >>= f) := by
  induction p generalizing k with
  | done a => exact (hf a).mono (Nat.le_add_left m k)
  | call c next ih =>
      cases k with
      | zero => exact hp.elim
      | succ k =>
          rw [Nat.add_right_comm]
          exact fun r => ih r (hp r)

/-! ## Programs with a local state -/

/-- Run a program with local state `l`. -/
def exec (m : StateT L (Program S) α) (l : L) (s : σ) : (α × L) × σ :=
  run h (m.run l) s

@[simp] theorem exec_pure (a : α) (l : L) (s : σ) :
    exec h (pure a : StateT L (Program S) α) l s = ((a, l), s) := rfl

@[simp] theorem exec_bind (m : StateT L (Program S) α) (f : α → StateT L (Program S) β) (l : L)
    (s : σ) :
    exec h (m >>= f) l s =
      exec h (f (exec h m l s).1.1) (exec h m l s).1.2 (exec h m l s).2 := by
  simp only [exec, StateT.run_bind, run_bind]

@[simp] theorem exec_map (m : StateT L (Program S) α) (f : α → β) (l : L) (s : σ) :
    exec h (f <$> m) l s =
      ((f (exec h m l s).1.1, (exec h m l s).1.2), (exec h m l s).2) := by
  rw [← bind_pure_comp, exec_bind, exec_pure]

@[simp] theorem exec_get (l : L) (s : σ) :
    exec h (get : StateT L (Program S) L) l s = ((l, l), s) := rfl

@[simp] theorem exec_set (l' l : L) (s : σ) :
    exec h (set l' : StateT L (Program S) PUnit) l s = ((⟨⟩, l'), s) := rfl

@[simp] theorem exec_modify (f : L → L) (l : L) (s : σ) :
    exec h (modify f : StateT L (Program S) PUnit) l s = ((⟨⟩, f l), s) := rfl

@[simp] theorem exec_modifyGet (f : L → α × L) (l : L) (s : σ) :
    exec h (modifyGet f : StateT L (Program S) α) l s = (f l, s) := rfl

@[simp] theorem exec_send (c : S.Call) (l : L) (s : σ) :
    exec h (send c : StateT L (Program S) (S.Reply c)) l s = (((h c s).1, l), (h c s).2) := rfl

end Program

end Calls
