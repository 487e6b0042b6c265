import Pseudoroot.Library.Runs
import Pseudoroot.Model.Channel
import Pseudoroot.Model.Wincode

/-! # Whose answer a process receives -/

namespace Pseudoroot.SharedChannel

variable {ι : Type} [DecidableEq ι] {w : Wincode}

/-- The frames sent and not received, oldest first. -/
def outstanding (ch : SharedChannel ι) : List (SentFrame ι) :=
  ch.toClients.map AnswerFrame.request ++ ch.toServer

/-- Every request has returned the answer computed for it, under its own id. -/
def OwnAnswers (w : Wincode) (ch : SharedChannel ι) : Prop :=
  ∀ x ∈ ch.returned, x.2.request = x.1 ∧ x.2.response.requestId = x.1.message.requestId ∧
    ∃ daemon, x.2.response = (dispatchMessage w x.1.message daemon).1

/-- Until an answer goes astray, the processes wait for exactly the outstanding frames. -/
structure InStep (w : Wincode) (ch : SharedChannel ι) : Prop where
  ordered : ch.outstanding.Pairwise fun a b => a.serial < b.serial
  fresh : ∀ a ∈ ch.outstanding, a.serial < ch.sent
  waiting : ∀ i a, ch.waiting i = some a ↔ a ∈ ch.outstanding ∧ a.sender = i
  answers : ∀ a ∈ ch.toClients,
    ∃ daemon, a.response = (dispatchMessage w a.request.message daemon).1

/-- A process that receives has waited longest: every other process that waits has sent
its request later. -/
def ReceivesOldest (ch : SharedChannel ι) : ChannelEvent ι → Prop
  | .recv i => ∀ a, ch.waiting i = some a → ch.toClients ≠ [] →
      ∀ j, j ≠ i → ∀ b, ch.waiting j = some b → a.serial < b.serial
  | _ => True

/-- A response carries the id of the message it answers. -/
theorem requestId_dispatchMessage (w : Wincode) (message : ProtocolMessage) (daemon : DaemonState) :
    (dispatchMessage w message daemon).1.requestId = message.requestId := by
  unfold dispatchMessage
  split <;> first | rfl | (split <;> rfl)

omit [DecidableEq ι] in
theorem inStep_connected (daemon : DaemonState) (requestId : ι → UInt64) :
    (connected daemon requestId).InStep w :=
  ⟨.nil, fun _ h => (by cases h), fun _ _ => by simp [connected, outstanding],
    fun _ h => (by cases h)⟩

/-! ## Events that are no receptions -/

theorem InStep.fork {ch : SharedChannel ι} (h : ch.InStep w) (parent child : ι) :
    (ch.step w (.fork parent child)).InStep w := by
  simp only [step]
  split
  · exact ⟨h.ordered, h.fresh, h.waiting, h.answers⟩
  · exact h

theorem InStep.send {ch : SharedChannel ι} (h : ch.InStep w) (i : ι) (messageType : MessageType)
    (payload : List UInt8) : (ch.step w (.send i messageType payload)).InStep w := by
  simp only [step]
  split
  · exact h
  · rename_i hidle
    have hnone : ∀ a ∈ ch.outstanding, a.sender ≠ i := by
      intro a ha hi
      rw [(h.waiting i a).mpr ⟨ha, hi⟩] at hidle
      cases hidle
    have hout : ∀ frame : SentFrame ι,
        ch.toClients.map AnswerFrame.request ++ (ch.toServer ++ [frame]) =
          ch.outstanding ++ [frame] := by
      intro frame
      rw [outstanding, List.append_assoc]
    refine ⟨?_, ?_, ?_, h.answers⟩
    · rw [outstanding, hout, List.pairwise_append]
      refine ⟨h.ordered, List.pairwise_singleton _ _, fun a ha b hb => ?_⟩
      rw [List.mem_singleton] at hb
      subst hb
      exact h.fresh a ha
    · rw [outstanding, hout]
      intro a ha
      rcases List.mem_append.mp ha with ha | ha
      · exact Nat.lt_succ_of_lt (h.fresh a ha)
      · rw [List.mem_singleton] at ha
        subst ha
        exact Nat.lt_succ_self _
    · intro j a
      rw [outstanding, hout]
      by_cases hj : j = i
      · subst hj
        simp only [Function.update_self, Option.some.injEq, List.mem_append, List.mem_singleton]
        constructor
        · rintro rfl
          exact ⟨.inr rfl, rfl⟩
        · rintro ⟨ha | ha, hi⟩
          · exact absurd hi (hnone a ha)
          · exact ha.symm
      · simp only [Function.update_of_ne hj, h.waiting, List.mem_append, List.mem_singleton]
        constructor
        · exact fun ⟨ha, hi⟩ => ⟨.inl ha, hi⟩
        · rintro ⟨ha | ha, hi⟩
          · exact ⟨ha, hi⟩
          · subst ha
            exact absurd hi.symm hj

theorem InStep.serve {ch : SharedChannel ι} (h : ch.InStep w) : (ch.step w .serve).InStep w := by
  simp only [step]
  split
  · exact h
  · rename_i frame rest hserver
    let answer : AnswerFrame ι := ⟨(dispatchMessage w frame.message ch.daemon).1, frame⟩
    have hout : (ch.toClients ++ [answer]).map AnswerFrame.request ++ rest = ch.outstanding := by
      simp [outstanding, hserver, answer]
    refine ⟨?_, ?_, ?_, ?_⟩
    · rw [outstanding, hout]
      exact h.ordered
    · rw [outstanding, hout]
      exact h.fresh
    · intro i a
      rw [outstanding, hout]
      exact h.waiting i a
    · intro a ha
      rcases List.mem_append.mp ha with ha | ha
      · exact h.answers a ha
      · rw [List.mem_singleton] at ha
        subst ha
        exact ⟨ch.daemon, rfl⟩

/-! ## Receptions -/

section Recv

variable {ch : SharedChannel ι} {i : ι} {a : SentFrame ι} {answer : AnswerFrame ι}
  {rest : List (AnswerFrame ι)}

omit [DecidableEq ι] in
/-- The oldest answer belongs to the oldest request. -/
theorem outstanding_of_toClients (h : ch.toClients = answer :: rest) :
    ch.outstanding = answer.request :: (rest.map AnswerFrame.request ++ ch.toServer) := by
  simp [outstanding, h]

omit [DecidableEq ι] in
/-- The oldest frame is that of the process exactly when all others that wait have sent
later. -/
theorem InStep.request_eq_iff (h : ch.InStep w) (hwaiting : ch.waiting i = some a)
    (hclients : ch.toClients = answer :: rest) :
    answer.request = a ↔ ∀ j, j ≠ i → ∀ b, ch.waiting j = some b → a.serial < b.serial := by
  have hout := outstanding_of_toClients hclients
  have hordered := h.ordered
  rw [hout, List.pairwise_cons] at hordered
  obtain ⟨ha, hai⟩ := (h.waiting i a).mp hwaiting
  constructor
  · rintro rfl j hj b hb
    obtain ⟨hmem, hbj⟩ := (h.waiting j b).mp hb
    rw [hout, List.mem_cons] at hmem
    rcases hmem with rfl | hmem
    · exact absurd (hbj.symm.trans hai) hj
    · exact hordered.1 b hmem
  · intro hlater
    rw [hout, List.mem_cons] at ha
    rcases ha with rfl | ha
    · rfl
    · -- The oldest frame has another sender, who then waits for it.
      have hfirst := hordered.1 a ha
      have hsender : answer.request.sender ≠ i := by
        intro hi
        have hself := (h.waiting i answer.request).mpr ⟨by rw [hout]; exact List.mem_cons_self, hi⟩
        rw [hwaiting] at hself
        cases hself
        exact Nat.lt_irrefl _ hfirst
      have hother := hlater answer.request.sender hsender answer.request
        ((h.waiting _ _).mpr ⟨by rw [hout]; exact List.mem_cons_self, rfl⟩)
      omega

theorem InStep.recv_own (h : ch.InStep w) (hwaiting : ch.waiting i = some answer.request)
    (hclients : ch.toClients = answer :: rest) : (ch.step w (.recv i)).InStep w := by
  have hout := outstanding_of_toClients hclients
  have hordered := h.ordered
  rw [hout, List.pairwise_cons] at hordered
  simp only [step, hwaiting, hclients]
  refine ⟨hordered.2, ?_, ?_, ?_⟩
  · intro b hb
    refine h.fresh b ?_
    rw [hout]
    exact List.mem_cons_of_mem _ hb
  · intro j b
    have hmem := h.waiting j b
    rw [hout, List.mem_cons] at hmem
    by_cases hj : j = i
    · subst hj
      simp only [Function.update_self, reduceCtorEq, false_iff, not_and]
      intro hb hbj
      have hself := hmem.mpr ⟨.inr hb, hbj⟩
      rw [hwaiting] at hself
      cases hself
      exact Nat.lt_irrefl _ (hordered.1 _ hb)
    · simp only [Function.update_of_ne hj, hmem]
      constructor
      · rintro ⟨rfl | hb, hbj⟩
        · exact absurd (hbj.symm.trans ((h.waiting i _).mp hwaiting).2) hj
        · exact ⟨hb, hbj⟩
      · exact fun ⟨hb, hbj⟩ => ⟨.inr hb, hbj⟩
  · intro b hb
    exact h.answers b (by rw [hclients]; exact List.mem_cons_of_mem _ hb)

end Recv

/-! ## One event -/

theorem returned_step (ch : SharedChannel ι) (e : ChannelEvent ι) :
    (ch.step w e).returned = ch.returned ∨
      ∃ i a answer rest, e = .recv i ∧ ch.waiting i = some a ∧ ch.toClients = answer :: rest ∧
        (ch.step w e).returned = ch.returned ++ [(a, answer)] := by
  cases e with
  | fork parent child => left; simp only [step]; split <;> rfl
  | send i messageType payload => left; simp only [step]; split <;> rfl
  | serve => left; simp only [step]; split <;> rfl
  | recv i =>
      cases hwaiting : ch.waiting i with
      | none => left; simp only [step, hwaiting]
      | some a =>
          cases hclients : ch.toClients with
          | nil => left; simp only [step, hwaiting, hclients]
          | cons answer rest =>
              exact .inr ⟨i, a, answer, rest, rfl, hwaiting, rfl, by
                simp only [step, hwaiting, hclients]⟩

theorem ownAnswers_of_step {ch : SharedChannel ι} {e : ChannelEvent ι}
    (h : (ch.step w e).OwnAnswers w) : ch.OwnAnswers w := by
  intro x hx
  rcases returned_step (w := w) ch e with heq | ⟨i, a, answer, rest, -, -, -, heq⟩
  · exact h x (by rwa [heq])
  · exact h x (by rw [heq]; exact List.mem_append_left _ hx)

/-- From a state in step, a reception returns the process its own answer exactly when
the process has waited longest. -/
theorem InStep.ownAnswers_step_iff {ch : SharedChannel ι} (h : ch.InStep w) (hown : ch.OwnAnswers w)
    (e : ChannelEvent ι) : (ch.step w e).OwnAnswers w ↔ ch.ReceivesOldest e := by
  rcases returned_step (w := w) ch e with heq | ⟨i, a, answer, rest, rfl, hwaiting, hclients, heq⟩
  · have hsame : (ch.step w e).OwnAnswers w := by
      intro x hx
      rw [heq] at hx
      exact hown x hx
    refine iff_of_true hsame ?_
    cases e with
    | recv i =>
        intro a hwaiting hne
        obtain ⟨answer, rest, hclients⟩ := List.exists_cons_of_ne_nil hne
        simp [step, hwaiting, hclients] at heq
    | fork parent child => trivial
    | send i messageType payload => trivial
    | serve => trivial
  · have hiff := h.request_eq_iff hwaiting hclients
    constructor
    · intro hnext a' ha' _
      rw [hwaiting] at ha'
      cases ha'
      exact hiff.mp (hnext (a, answer) (by rw [heq]; simp)).1
    · intro holdest x hx
      have hrequest := hiff.mpr (holdest a hwaiting (by rw [hclients]; simp))
      rw [heq, List.mem_append, List.mem_singleton] at hx
      rcases hx with hx | rfl
      · exact hown x hx
      · obtain ⟨daemon, hresponse⟩ := h.answers answer (by rw [hclients]; exact List.mem_cons_self)
        rw [hrequest] at hresponse
        exact ⟨hrequest, by rw [hresponse, requestId_dispatchMessage], daemon, hresponse⟩

theorem InStep.step {ch : SharedChannel ι} (h : ch.InStep w) {e : ChannelEvent ι}
    (hnext : (ch.step w e).OwnAnswers w) : (ch.step w e).InStep w := by
  cases e with
  | fork parent child => exact h.fork parent child
  | send i messageType payload => exact h.send i messageType payload
  | serve => exact h.serve
  | recv i =>
      cases hwaiting : ch.waiting i with
      | none => simpa only [SharedChannel.step, hwaiting] using h
      | some a =>
          cases hclients : ch.toClients with
          | nil => simpa only [SharedChannel.step, hwaiting, hclients] using h
          | cons answer rest =>
              have hmem : (a, answer) ∈ (ch.step w (.recv i)).returned := by
                simp [SharedChannel.step, hwaiting, hclients]
              have hrequest : answer.request = a := (hnext _ hmem).1
              exact h.recv_own (by rw [hwaiting, hrequest]) hclients

/-! ## Main results -/

/-- Parent and child ask for different inodes, both as request 1. The child receives
first, and is handed what the parent asked for. -/
def childReceivesFirst : List (ChannelEvent Bool) :=
  [.fork false true,
    .send false .getOwnership (Wincode.bincode.inodeKey.toPayload ⟨1, 1⟩),
    .send true .getOwnership (Wincode.bincode.inodeKey.toPayload ⟨1, 2⟩),
    .serve, .serve, .recv true]

theorem child_receives_answer_to_parent :
    let ch := Machine.run (step Wincode.bincode) (connected (newSharedState 0 0) fun _ : Bool => 1)
      childReceivesFirst
    ch.returned.map (fun x => (x.1.sender, x.2.request.sender)) = [(true, false)] ∧
      ch.returned.map (fun x => (x.1.message.requestId, x.2.response.requestId)) = [(1, 1)] ∧
      ¬ ch.OwnAnswers Wincode.bincode := by
  intro ch
  have hsenders : ch.returned.map (fun x => (x.1.sender, x.2.request.sender)) =
      [(true, false)] := by
    decide +kernel
  refine ⟨hsenders, by decide +kernel, fun hown => ?_⟩
  cases hreturned : ch.returned with
  | nil => simp [hreturned] at hsenders
  | cons x rest =>
      have hrequest := (hown x (by rw [hreturned]; exact List.mem_cons_self)).1
      simp [hreturned, hrequest] at hsenders

/-- On a connection that any processes share, every request of a run returns the answer
computed for it exactly when no process receives while another has waited longer. -/
theorem ownAnswers_iff_receivesOldest (w : Wincode) (daemon : DaemonState) (requestId : ι → UInt64)
    (events : List (ChannelEvent ι)) :
    (∀ k ≤ events.length,
        (Machine.run (step w) (connected daemon requestId) (events.take k)).OwnAnswers w) ↔
      ∀ k (hk : k < events.length),
        (Machine.run (step w) (connected daemon requestId) (events.take k)).ReceivesOldest
          events[k] :=
  Machine.forall_good_iff_forall_guard
    (I := fun ch : SharedChannel ι => ch.OwnAnswers w → ch.InStep w)
    (G := fun ch => ch.OwnAnswers w)
    (fun _ _ hin hnext => (hin (ownAnswers_of_step hnext)).step hnext)
    (fun _ e hin hown => (hin hown).ownAnswers_step_iff hown e)
    (fun _ => inStep_connected daemon requestId) (fun _ h => (by cases h)) events

end Pseudoroot.SharedChannel
