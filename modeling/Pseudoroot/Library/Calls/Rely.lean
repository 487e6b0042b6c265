import Pseudoroot.Library.Calls.Interleaving

/-! # Reading programs under interference

A program that reads a shared state while others change it. All that is known of the
changes is a relation that they rely on: reflexive, transitive, and met by each of them. -/

namespace Calls

namespace Program

variable {S : Signature} {σ α β : Type}

/-- Whatever changes in `R` come before each call, the call meets `Pre` and the result `Q`. -/
def Under (h : Handler S σ) (R : σ → σ → Prop) (Pre : S.Call → σ → Prop) (Q : α → σ → Prop) :
    Program S α → σ → Prop
  | done a, s => ∀ s', R s s' → Q a s'
  | call c next, s => ∀ s', R s s' → Pre c s' ∧ Under h R Pre Q (next (h c s').1) s'

section Rules

variable {h : Handler S σ} {R : σ → σ → Prop} {Pre : S.Call → σ → Prop}
  {Q Q' : α → σ → Prop} {P : β → σ → Prop} {p : Program S α} {s s' : σ}

/-- More changes do no harm. -/
theorem Under.change (hp : Under h R Pre Q p s)
    (htrans : ∀ {s₁ s₂ s₃}, R s₁ s₂ → R s₂ s₃ → R s₁ s₃) (hs : R s s') :
    Under h R Pre Q p s' := by
  cases p with
  | done a => exact fun t ht => hp t (htrans hs ht)
  | call c next => exact fun t ht => hp t (htrans hs ht)

theorem Under.result {a : α} (hp : Under h R Pre Q (done a) s) (hrefl : ∀ s, R s s) : Q a s :=
  hp s (hrefl s)

theorem Under.pre {c : S.Call} {next : S.Reply c → Program S α}
    (hp : Under h R Pre Q (call c next) s) (hrefl : ∀ s, R s s) : Pre c s :=
  (hp s (hrefl s)).1

theorem Under.next {c : S.Call} {next : S.Reply c → Program S α}
    (hp : Under h R Pre Q (call c next) s) (hrefl : ∀ s, R s s) :
    Under h R Pre Q (next (h c s).1) s :=
  (hp s (hrefl s)).2

theorem under_done {a : α} (ha : ∀ s', R s s' → Q a s') : Under h R Pre Q (done a) s := ha

theorem under_call {c : S.Call} {next : S.Reply c → Program S α}
    (hc : ∀ s', R s s' → Pre c s' ∧ Under h R Pre Q (next (h c s').1) s') :
    Under h R Pre Q (call c next) s := hc

/-- What is known after the first program is what the second one starts from. -/
theorem Under.bind (hrefl : ∀ s, R s s) {f : α → Program S β} (hp : Under h R Pre Q p s)
    (hf : ∀ a s, Q a s → Under h R Pre P (f a) s) : Under h R Pre P (p >>= f) s := by
  induction p generalizing s with
  | done a => exact hf a s (hp s (hrefl s))
  | call c next ih =>
      intro s' hs'
      obtain ⟨hpre, hnext⟩ := hp s' hs'
      exact ⟨hpre, ih _ hnext⟩

end Rules

end Program

end Calls
