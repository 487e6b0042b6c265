import Mathlib.Logic.Function.Basic
import Pseudoroot.Library.Calls.Program
import Pseudoroot.Library.Runs

/-! # Interleaved programs and serial runs

Clients run sequences of operations, each a program, against one shared state; every
call is atomic and the calls of different clients interleave. When each operation
changes the shared state in its last call only, and no change invalidates a reply that
another unfinished operation has received, the run has the effect of a serial one, in
the order in which the operations end. -/

namespace Calls

variable {S : Signature} {σ ι Op L : Type}

/-! ## Operations that commit in their last call -/

def IsRead (h : Handler S σ) (c : S.Call) : Prop :=
  ∀ s, (h c s).2 = s

/-- Every call but the last is in `R`, the last one in `R` or `W`, and the local states
returned satisfy `P`. -/
def CommitsLast (R W : S.Call → Prop) (P : L → Prop) : Program S L → Prop
  | .done l => P l
  | .call c next =>
    (R c ∧ ∀ r, CommitsLast R W P (next r)) ∨ (W c ∧ ∀ r, ∃ l, next r = .done l ∧ P l)

/-- Every call is in `R`, and the results satisfy `Q`. -/
def OnlyCalls {α : Type} (R : S.Call → Prop) (Q : α → Prop) : Program S α → Prop
  | .done a => Q a
  | .call c next => R c ∧ ∀ r, OnlyCalls R Q (next r)

theorem OnlyCalls.commitsLast_bind {α : Type} {R W : S.Call → Prop} {Q : α → Prop} {P : L → Prop}
    {p : Program S α} (hp : OnlyCalls R Q p) {f : α → Program S L}
    (hf : ∀ a, Q a → CommitsLast R W P (f a)) : CommitsLast R W P (p >>= f) := by
  induction p with
  | done a => exact hf a hp
  | call c next ih => exact .inl ⟨hp.1, fun r => ih r (hp.2 r)⟩

theorem OnlyCalls.bind {α β : Type} {R : S.Call → Prop} {Q : α → Prop} {Q' : β → Prop}
    {p : Program S α} (hp : OnlyCalls R Q p) {f : α → Program S β}
    (hf : ∀ a, Q a → OnlyCalls R Q' (f a)) : OnlyCalls R Q' (p >>= f) := by
  induction p with
  | done a => exact hf a hp
  | call c next ih => exact ⟨hp.1, fun r => ih r (hp.2 r)⟩

/-- From `s`, the program `p` becomes `q` by the calls `reads`, all in `R` and listed
latest first. -/
inductive Replays (h : Handler S σ) (R : S.Call → Prop) (s : σ) (p : Program S L) :
    List S.Call → Program S L → Prop where
  | refl : Replays h R s p [] p
  | read {reads c next} : Replays h R s p reads (.call c next) → R c →
      Replays h R s p (c :: reads) (next (h c s).1)

theorem Replays.forall_reads {h : Handler S σ} {R : S.Call → Prop} {s : σ} {p q : Program S L}
    {reads : List S.Call} (hr : Replays h R s p reads q) : ∀ c ∈ reads, R c := by
  induction hr with
  | refl => simp
  | read _ hc ih => simpa using ⟨hc, ih⟩

theorem Replays.run_eq {h : Handler S σ} {R : S.Call → Prop} (hR : ∀ c, R c → IsRead h c) {s : σ}
    {p q : Program S L} {reads : List S.Call} (hr : Replays h R s p reads q) :
    p.run h s = q.run h s := by
  induction hr with
  | refl => rfl
  | read _ hc ih => rw [ih, Program.run_call, hR _ hc s]

/-- A change that keeps the replies received so far does not matter to the program. -/
theorem Replays.congr {h : Handler S σ} {R : S.Call → Prop} {s s' : σ} {p q : Program S L}
    {reads : List S.Call} (hr : Replays h R s p reads q)
    (hsame : ∀ c ∈ reads, (h c s').1 = (h c s).1) : Replays h R s' p reads q := by
  induction hr with
  | refl => exact .refl
  | read _ hc ih =>
      rw [← hsame _ List.mem_cons_self]
      exact .read (ih fun c hc => hsame c (List.mem_cons_of_mem _ hc)) hc

/-! ## The interleaved system -/

/-- The operations a client has not begun, the calls answered since the operation in
progress began, and the rest of its program. -/
structure Client (S : Signature) (Op L : Type) where
  todo : List Op
  reads : List S.Call
  prog : Program S L

structure System (S : Signature) (ι Op L σ : Type) where
  shared : σ
  client : ι → Client S Op L

/-- All clients before their first operation. -/
def System.start (s : σ) (locals : ι → L) (all : ι → List Op) : System S ι Op L σ :=
  ⟨s, fun i => ⟨all i, [], .done (locals i)⟩⟩

variable [DecidableEq ι] (h : Handler S σ) (body : Op → L → Program S L)

/-- Client `i` makes its next call or, between operations, begins the next one. -/
def step (sys : System S ι Op L σ) (i : ι) : System S ι Op L σ :=
  match (sys.client i).prog with
  | .call c next =>
    { shared := (h c sys.shared).2
      client := Function.update sys.client i
        { sys.client i with
          reads := c :: (sys.client i).reads
          prog := next (h c sys.shared).1 } }
  | .done l =>
    match (sys.client i).todo with
    | [] => sys
    | op :: rest => { sys with client := Function.update sys.client i ⟨rest, [], body op l⟩ }

/-- One operation run by its client from its beginning to its end. -/
def serialStep (s : σ × (ι → L)) (a : ι × Op) : σ × (ι → L) :=
  let (l, s') := (body a.2 (s.2 a.1)).run h s.1
  (s', Function.update s.2 a.1 l)

/-- The operations of one client in a sequence of operations of all. -/
def opsOf (order : List (ι × Op)) (i : ι) : List Op :=
  (order.filter fun a => a.1 = i).map Prod.snd

/-- All clients are between operations, with nothing left to do. -/
def Finished (sys : System S ι Op L σ) : Prop :=
  ∀ i, (sys.client i).todo = [] ∧ ∃ l, (sys.client i).prog = .done l

/-- The next call of client `i`, if it is in `R` or `W`, keeps every reply that an
operation in progress of another client has received to a call in `R`. -/
def Undisturbed (R W : S.Call → Prop) (sys : System S ι Op L σ) (i : ι) : Prop :=
  ∀ c next, (sys.client i).prog = .call c next → (R c ∨ W c) →
    ∀ j, j ≠ i → ∀ c' next', (sys.client j).prog = .call c' next' →
      ∀ r ∈ (sys.client j).reads, R r → (h r (h c sys.shared).2).1 = (h r sys.shared).1

theorem opsOf_append_self (order : List (ι × Op)) (i : ι) (op : Op) :
    opsOf (order ++ [(i, op)]) i = opsOf order i ++ [op] := by
  simp [opsOf]

theorem opsOf_append_of_ne (order : List (ι × Op)) {i j : ι} (hij : j ≠ i) (op : Op) :
    opsOf (order ++ [(i, op)]) j = opsOf order j := by
  have hne : ¬ i = j := fun h => hij h.symm
  simp [opsOf, hne]

/-! ## The serial run beside an interleaved one -/

variable (R W : S.Call → Prop) (P : L → Prop)

/-- A client whose ended operations are `ended`, in a shared state `s` and with the
serial local state `l`. -/
inductive ClientTracks (s : σ) (l : L) (ended all : List Op) : Client S Op L → Prop where
  | idle {todo reads} : P l → ended ++ todo = all →
      ClientTracks s l ended all ⟨todo, reads, .done l⟩
  | busy {op todo reads c next} : P l → Replays h R s (body op l) reads (.call c next) →
      CommitsLast R W P (.call c next) → ended ++ op :: todo = all →
      ClientTracks s l ended all ⟨todo, reads, .call c next⟩

/-- The serial run of `order` from `start` has reached the shared state, and between
operations also the local state of every client. -/
structure Tracks (start : σ × (ι → L)) (all : ι → List Op) (order : List (ι × Op))
    (sys : System S ι Op L σ) : Prop where
  shared : (Machine.run (serialStep h body) start order).1 = sys.shared
  client : ∀ i, ClientTracks h body R W P sys.shared
    ((Machine.run (serialStep h body) start order).2 i) (opsOf order i) (all i) (sys.client i)

variable {h body R W P}

omit [DecidableEq ι] in
theorem ClientTracks.congr {s s' : σ} {l : L} {ended all : List Op} {client : Client S Op L}
    (hc : ClientTracks h body R W P s l ended all client)
    (hsame : ∀ c next, client.prog = .call c next →
      ∀ r ∈ client.reads, R r → (h r s').1 = (h r s).1) :
    ClientTracks h body R W P s' l ended all client := by
  cases hc with
  | idle hP hall => exact .idle hP hall
  | busy hP hr hlast hall =>
      exact .busy hP (hr.congr fun c hc => hsame _ _ rfl c hc (hr.forall_reads c hc)) hlast hall

variable {start : σ × (ι → L)} {all : ι → List Op} {order : List (ι × Op)}
  {sys : System S ι Op L σ}

/-- An operation ends: it joins the serial run. -/
theorem Tracks.commit (ht : Tracks h body R W P start all order sys) {i : ι} {op : Op}
    {rest : List Op} {reads : List S.Call} {l' : L} {s' : σ}
    (hrun : (body op ((Machine.run (serialStep h body) start order).2 i)).run h sys.shared =
      (l', s'))
    (hP : P l') (hall : opsOf order i ++ op :: rest = all i)
    (hothers : ∀ j, j ≠ i → ∀ c' next', (sys.client j).prog = .call c' next' →
      ∀ r ∈ (sys.client j).reads, R r → (h r s').1 = (h r sys.shared).1) :
    Tracks h body R W P start all (order ++ [(i, op)])
      ⟨s', Function.update sys.client i ⟨rest, reads, .done l'⟩⟩ := by
  have hserial : Machine.run (serialStep h body) start (order ++ [(i, op)]) =
      (s', Function.update (Machine.run (serialStep h body) start order).2 i l') := by
    rw [Machine.run_append, Machine.run_cons, Machine.run_nil, serialStep, ht.shared, hrun]
  refine ⟨by rw [hserial], fun j => ?_⟩
  rw [hserial]
  by_cases hj : j = i
  · subst hj
    simp only [Function.update_self, opsOf_append_self]
    exact .idle hP (by rw [List.append_assoc]; exact hall)
  · simp only [Function.update_of_ne hj, opsOf_append_of_ne order hj]
    exact (ht.client j).congr (hothers j hj)

/-- The operation of client `i` goes on to `q` without a change of the shared state. -/
theorem Tracks.resume (hR : ∀ c, R c → IsRead h c) (ht : Tracks h body R W P start all order sys)
    {i : ι} {op : Op} {rest : List Op} {reads : List S.Call} {q : Program S L}
    (hP : P ((Machine.run (serialStep h body) start order).2 i))
    (hr : Replays h R sys.shared (body op ((Machine.run (serialStep h body) start order).2 i))
      reads q)
    (hlast : CommitsLast R W P q) (hall : opsOf order i ++ op :: rest = all i) :
    ∃ order', Tracks h body R W P start all order'
      ⟨sys.shared, Function.update sys.client i ⟨rest, reads, q⟩⟩ := by
  cases q with
  | done l' => exact ⟨_, ht.commit (hr.run_eq hR) hlast hall fun _ _ _ _ _ _ _ _ => rfl⟩
  | call c next =>
      refine ⟨order, ht.shared, fun j => ?_⟩
      by_cases hj : j = i
      · subst hj
        simp only [Function.update_self]
        exact .busy hP hr hlast hall
      · simp only [Function.update_of_ne hj]
        exact ht.client j

theorem Tracks.step (hR : ∀ c, R c → IsRead h c)
    (hatomic : ∀ op l, P l → CommitsLast R W P (body op l))
    (ht : Tracks h body R W P start all order sys) (i : ι) (hguard : Undisturbed h R W sys i) :
    ∃ order', Tracks h body R W P start all order' (step h body sys i) := by
  have hi := ht.client i
  unfold Calls.step
  cases hclient : sys.client i with
  | mk todo reads prog =>
      rw [hclient] at hi
      cases hi with
      | idle hP hall =>
          cases todo with
          | nil => exact ⟨order, ht⟩
          | cons op rest => exact ht.resume hR hP .refl (hatomic op _ hP) hall
      | @busy op _ _ c next hP hr hlast hall =>
          have hprog : (sys.client i).prog = .call c next := by rw [hclient]
          rcases hlast with ⟨hread, hnext⟩ | ⟨hwrite, hcommit⟩
          · have hsame : (h c sys.shared).2 = sys.shared := hR c hread sys.shared
            simp only [hsame]
            exact ht.resume hR hP (hr.read hread) (hnext _) hall
          · obtain ⟨l', hl', hP'⟩ := hcommit (h c sys.shared).1
            have hrun := hr.run_eq hR
            rw [Program.run_call, hl', Program.run_done] at hrun
            simp only [hl']
            exact ⟨_, ht.commit hrun hP' hall (hguard c next hprog (.inr hwrite))⟩

/-- A run whose steps all leave the others' replies intact has the effect of a serial
run of the same operations, each client's in its own order. -/
theorem exists_serial_run (hR : ∀ c, R c → IsRead h c)
    (hatomic : ∀ op l, P l → CommitsLast R W P (body op l)) {locals : ι → L} {all : ι → List Op}
    {s : σ} (hP : ∀ i, P (locals i)) (sched : List ι)
    (hguard : ∀ k (hk : k < sched.length),
      Undisturbed h R W (Machine.run (Calls.step h body) (.start s locals all) (sched.take k))
        sched[k])
    (hfinished : Finished (Machine.run (Calls.step h body) (.start s locals all) sched)) :
    ∃ order : List (ι × Op), (∀ i, opsOf order i = all i) ∧
      (Machine.run (serialStep h body) (s, locals) order).1 =
        (Machine.run (Calls.step h body) (.start s locals all) sched).shared := by
  have htracks : ∀ k ≤ sched.length, ∃ order, Tracks h body R W P (s, locals) all order
      (Machine.run (Calls.step h body) (.start s locals all) (sched.take k)) := by
    intro k
    induction k with
    | zero => exact fun _ => ⟨[], rfl, fun i => .idle (hP i) rfl⟩
    | succ k ih =>
        intro hk
        obtain ⟨order, ht⟩ := ih (Nat.le_of_succ_le hk)
        rw [Machine.run_take_succ _ _ sched hk]
        exact ht.step hR hatomic _ (hguard k hk)
  obtain ⟨order, ht⟩ := htracks sched.length (Nat.le_refl _)
  rw [List.take_length] at ht
  refine ⟨order, fun i => ?_, ht.shared⟩
  obtain ⟨htodo, l, hprog⟩ := hfinished i
  have hi := ht.client i
  cases hclient : (Machine.run (Calls.step h body) (.start s locals all) sched).client i with
  | mk todo reads prog =>
      rw [hclient] at hi htodo hprog
      cases hi with
      | idle _ hall =>
          cases htodo
          simpa using hall
      | busy => cases hprog

end Calls
