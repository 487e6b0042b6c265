import Pseudoroot.Verification.Daemon.Streams

/-! # Replies about the current ids

A request for the current ids makes two accesses, and the ids may change in between. Each of
the two was current at a moment within the request. -/

namespace Pseudoroot

open Calls (Program)

/-- The moment lies within the request of a client that `n` requests have returned to. -/
structure Peer.InRequest (p : Peer) (n : ℕ) (message : ProtocolMessage) : Prop where
  clientOpen : p.clientOpen = true
  length_returned : p.returned.length = n
  dispatching : ∃ rest, p.exchange = .dispatching message rest

def afterUid (w : Wincode) (message : ProtocolMessage) (uid : UInt32) :
    Program stateSignature ProtocolMessage :=
  .call .loadGid fun gid => .done (.response message.requestId (w.uidGid.toPayload ⟨uid, gid⟩))

theorem dispatchProgram_getCurrentUidGid (w : Wincode) {message : ProtocolMessage}
    (h : message.messageType = .getCurrentUidGid) :
    dispatchProgram w message = .call .loadUid (afterUid w message) := by
  obtain ⟨messageType, payload, requestId⟩ := message
  cases h
  rfl

section History

variable {ι : Type} (w : Wincode) (a : ℕ → ExchangeServer ι) {k n : ℕ} {i : ι}
  {message response : ProtocolMessage}

/-- The response holds a user id and then a group id of moments within the request. -/
def IdsWithin (k : ℕ) (i : ι) (n : ℕ) (message response : ProtocolMessage) : Prop :=
  ∃ k₁ k₂, k₁ ≤ k₂ ∧ k₂ ≤ k ∧ ((a k₁).peer i).InRequest n message ∧
    ((a k₂).peer i).InRequest n message ∧
    response = .response message.requestId
      (w.uidGid.toPayload ⟨(a k₁).daemon.state.currentUid, (a k₂).daemon.state.currentGid⟩)

/-- What is known of a dispatch: neither id, one, or both have been read. -/
inductive IdsRead (k : ℕ) (i : ι) (n : ℕ) (message : ProtocolMessage) :
    Program stateSignature ProtocolMessage → Prop where
  | none : IdsRead k i n message (.call .loadUid (afterUid w message))
  | uid {k₁ : ℕ} (hk₁ : k₁ ≤ k) (hin : ((a k₁).peer i).InRequest n message) :
      IdsRead k i n message (afterUid w message (a k₁).daemon.state.currentUid)
  | both {response : ProtocolMessage} (hids : IdsWithin w a k i n message response) :
      IdsRead k i n message (.done response)

/-- The request that a client is in. -/
def IdsInProgress (k : ℕ) (i : ι) : Exchange → Prop
  | .dispatching message rest =>
    message.messageType = .getCurrentUidGid →
      IdsRead w a k i ((a k).peer i).returned.length message rest
  | .answered message response =>
    message.messageType = .getCurrentUidGid →
      IdsWithin w a k i ((a k).peer i).returned.length message response
  | _ => True

structure IdsOfMoments (k : ℕ) (i : ι) : Prop where
  returned : ∀ n message response, ((a k).peer i).returned[n]? = some (message, some response) →
    message.messageType = .getCurrentUidGid → IdsWithin w a k i n message response
  inProgress : ((a k).peer i).clientOpen = true → IdsInProgress w a k i ((a k).peer i).exchange

variable {w a}

theorem IdsWithin.succ (h : IdsWithin w a k i n message response) :
    IdsWithin w a (k + 1) i n message response := by
  obtain ⟨k₁, k₂, h12, h2k, h⟩ := h
  exact ⟨k₁, k₂, h12, Nat.le_succ_of_le h2k, h⟩

theorem IdsRead.succ {rest : Program stateSignature ProtocolMessage}
    (h : IdsRead w a k i n message rest) : IdsRead w a (k + 1) i n message rest := by
  cases h with
  | none => exact .none
  | uid hk₁ hin => exact .uid (Nat.le_succ_of_le hk₁) hin
  | both hids => exact .both hids.succ

/-- A step that only moves the exchange of the client, or none of it. -/
theorem IdsOfMoments.of_returned_eq (h : IdsOfMoments w a k i)
    (hreturned : ((a (k + 1)).peer i).returned = ((a k).peer i).returned)
    (hprogress : ((a (k + 1)).peer i).clientOpen = true →
      IdsInProgress w a (k + 1) i ((a (k + 1)).peer i).exchange) :
    IdsOfMoments w a (k + 1) i := by
  refine ⟨fun n message response hget hids => ?_, hprogress⟩
  rw [hreturned] at hget
  exact (h.returned n message response hget hids).succ

theorem IdsInProgress.succ {exchange : Exchange} (h : IdsInProgress w a k i exchange)
    (hreturned : ((a (k + 1)).peer i).returned = ((a k).peer i).returned) :
    IdsInProgress w a (k + 1) i exchange := by
  cases exchange with
  | idle | requested message => trivial
  | dispatching message rest =>
      intro hids
      rw [hreturned]
      exact (h hids).succ
  | answered message response =>
      intro hids
      rw [hreturned]
      exact (h hids).succ

theorem IdsOfMoments.of_exchange_eq (h : IdsOfMoments w a k i)
    (hexchange : ((a (k + 1)).peer i).exchange = ((a k).peer i).exchange)
    (hreturned : ((a (k + 1)).peer i).returned = ((a k).peer i).returned)
    (hopen : ((a (k + 1)).peer i).clientOpen = true → ((a k).peer i).clientOpen = true) :
    IdsOfMoments w a (k + 1) i := by
  refine h.of_returned_eq hreturned fun halive => ?_
  rw [hexchange]
  exact (h.inProgress (hopen halive)).succ hreturned

theorem IdsOfMoments.of_peer_eq (h : IdsOfMoments w a k i)
    (hpeer : (a (k + 1)).peer i = (a k).peer i) : IdsOfMoments w a (k + 1) i :=
  h.of_exchange_eq (by rw [hpeer]) (by rw [hpeer]) (by rw [hpeer]; exact id)

/-! ## Steps of the client -/

theorem IdsOfMoments.of_returned_append (h : IdsOfMoments w a k i)
    {outcome : Option ProtocolMessage}
    (hreturned : ((a (k + 1)).peer i).returned = ((a k).peer i).returned ++ [(message, outcome)])
    (hidle : ((a (k + 1)).peer i).exchange = .idle)
    (hids : ∀ response, outcome = some response → message.messageType = .getCurrentUidGid →
      IdsWithin w a k i ((a k).peer i).returned.length message response) :
    IdsOfMoments w a (k + 1) i := by
  refine ⟨fun n message' response hget hids' => ?_, fun _ => by rw [hidle]; trivial⟩
  rw [hreturned, List.getElem?_append] at hget
  split at hget
  · exact (h.returned n message' response hget hids').succ
  · rename_i hlength
    obtain ⟨hn, heq⟩ := List.getElem?_eq_some_iff.mp hget
    simp only [List.length_singleton, List.getElem_singleton] at hn heq
    have hn' : n = ((a k).peer i).returned.length := by omega
    cases heq
    subst hn'
    exact (hids response rfl hids').succ

theorem IdsOfMoments.act (h : IdsOfMoments w a k i) (e : PeerEvent)
    (hpeer : (a (k + 1)).peer i = ((a k).peer i).act e) : IdsOfMoments w a (k + 1) i := by
  have hprogress := h.inProgress
  cases e with
  | skip => exact h.of_peer_eq hpeer
  | send message =>
      simp only [Peer.act, Peer.send] at hpeer
      split at hpeer
      · exact h.of_returned_eq (by rw [hpeer]) fun _ => by rw [hpeer]; trivial
      · exact h.of_peer_eq hpeer
  | recv =>
      simp only [Peer.act, Peer.recv] at hpeer
      split at hpeer
      · rename_i message response hexchange hopen
        refine h.of_returned_append (by rw [hpeer]) (by rw [hpeer]) fun response' heq hids => ?_
        cases heq
        rw [hexchange] at hprogress
        exact hprogress hopen hids
      · exact h.of_peer_eq hpeer
  | fail message =>
      simp only [Peer.act, Peer.fail] at hpeer
      split at hpeer
      · exact h.of_returned_append (by rw [hpeer]) (by rw [hpeer]) fun _ heq => by cases heq
      · exact h.of_peer_eq hpeer
  | die =>
      refine h.of_exchange_eq (by rw [hpeer]; rfl) (by rw [hpeer]; rfl) fun hopen => ?_
      rw [hpeer] at hopen
      cases hopen
  | accept =>
      simp only [Peer.act, Peer.accept] at hpeer
      split at hpeer
      · exact h.of_exchange_eq (by rw [hpeer]) (by rw [hpeer]) (by rw [hpeer]; exact id)
      · exact h.of_peer_eq hpeer

/-! ## Steps of the daemon -/

theorem IdsOfMoments.handle (h : IdsOfMoments w a k i)
    (hpeer : (a (k + 1)).peer i = (((a k).peer i).handle w (a k).daemon).1) :
    IdsOfMoments w a (k + 1) i := by
  by_cases hserved : ((a k).peer i).line = .served
  · have hreturned : ((a (k + 1)).peer i).returned = ((a k).peer i).returned := by
      rw [hpeer, Peer.returned_handle]
    have hopen : ((a (k + 1)).peer i).clientOpen = ((a k).peer i).clientOpen := by
      rw [hpeer, Peer.clientOpen_handle]
    refine h.of_returned_eq hreturned fun halive => ?_
    rw [hopen] at halive
    have hprogress := h.inProgress halive
    cases hexchange : ((a k).peer i).exchange with
    | idle | answered message response =>
        rw [hpeer]
        simp only [Peer.handle, hserved, hexchange] at hprogress ⊢
        exact hprogress.succ hreturned
    | requested message =>
        rw [hpeer]
        simp only [Peer.handle, hserved, hexchange]
        intro hids
        rw [dispatchProgram_getCurrentUidGid w hids]
        exact .none
    | dispatching message rest =>
        rw [hexchange] at hprogress
        cases rest with
        | done response =>
            rw [hpeer]
            simp only [Peer.handle, hserved, hexchange]
            intro hids
            rw [hreturned]
            cases hprogress hids with
            | both hids => exact hids.succ
        | call call next =>
            rw [hpeer]
            simp only [Peer.handle, hserved, hexchange]
            intro hids
            rw [hreturned]
            have hin : ((a k).peer i).InRequest ((a k).peer i).returned.length message :=
              ⟨halive, rfl, _, hexchange⟩
            cases hprogress hids with
            | none => exact .uid (Nat.le_succ k) hin
            | @uid k₁ hk₁ hin₁ => exact .both ⟨k₁, k, hk₁, Nat.le_succ k, hin₁, hin, rfl⟩
  · rw [Peer.handle_of_not_served hserved] at hpeer
    exact h.of_peer_eq hpeer

theorem IdsOfMoments.refuse (h : IdsOfMoments w a k i)
    (hpeer : (a (k + 1)).peer i = ((a k).peer i).refuse) : IdsOfMoments w a (k + 1) i := by
  unfold Peer.refuse at hpeer
  split at hpeer
  · exact h.of_exchange_eq (by rw [hpeer]) (by rw [hpeer]) (by rw [hpeer]; exact id)
  · exact h.of_peer_eq hpeer

theorem IdsOfMoments.hangUp (h : IdsOfMoments w a k i)
    (hpeer : (a (k + 1)).peer i = ((a k).peer i).hangUp) : IdsOfMoments w a (k + 1) i :=
  h.of_exchange_eq (by rw [hpeer]; rfl) (by rw [hpeer]; rfl) (by rw [hpeer]; exact id)

end History

/-! ## Runs -/

theorem idsOfMoments_run {ι : Type} [DecidableEq ι] (w : Wincode) (start : DaemonState)
    (es : List (ExchangeEvent ι)) (i : ι) :
    ∀ k ≤ es.length,
      IdsOfMoments w
        (fun k => Machine.run (ExchangeServer.step w) (ExchangeServer.start start) (es.take k)) k i := by
  intro k
  induction k with
  | zero => exact fun _ => ⟨fun n message response hget => (nomatch hget), fun _ => trivial⟩
  | succ k ih =>
      intro hk
      have h := ih (Nat.le_of_succ_le hk)
      have hnext := Machine.run_take_succ (ExchangeServer.step w) (ExchangeServer.start start) es hk
      cases hevent : es[k] with
      | client j e =>
          rw [hevent] at hnext
          by_cases hi : i = j
          · subst hi
            refine h.act e ?_
            simp only [hnext]
            exact Function.update_self ..
          · refine h.of_peer_eq ?_
            simp only [hnext]
            exact Function.update_of_ne hi ..
      | handle j =>
          rw [hevent] at hnext
          by_cases hi : i = j
          · subst hi
            refine h.handle ?_
            simp only [hnext]
            exact Function.update_self ..
          · refine h.of_peer_eq ?_
            simp only [hnext]
            exact Function.update_of_ne hi ..
      | stop => exact h.refuse (by simp only [hnext, hevent, ExchangeServer.step])
      | exit => exact h.hangUp (by simp only [hnext, hevent, ExchangeServer.step])

/-- The client has sent a request, and `n` requests have returned to it. -/
structure Connection.InRequest (c : Connection) (n : ℕ) (message : ProtocolMessage) : Prop where
  clientOpen : c.clientOpen = true
  length_returned : c.returned.length = n
  channel : c.channel = .receiving message

theorem Connection.Implements.inRequest {codec : MessageCodec} {c : Connection} {p : Peer}
    (h : c.Implements codec p) {n : ℕ} {message : ProtocolMessage} (hp : p.InRequest n message) :
    c.InRequest n message := by
  obtain ⟨rest, hexchange⟩ := hp.dispatching
  have hmessage : p.exchange.message = some message := by
    rw [hexchange]
    rfl
  exact ⟨h.clientOpen.trans hp.clientOpen, by rw [h.returned, hp.length_returned],
    h.channel_eq hmessage⟩

/-- A reply about the current ids has a user id that was current at a moment within the
request, and a group id that was current at the same or a later moment within it. -/
theorem Server.ids_of_moments (codec : MessageCodec) (w : Wincode) (uid gid : UInt32) {ι : Type}
    [DecidableEq ι] {es : List (ServerEvent ι)}
    (hcarries : CarriesRun codec w (.start (newSharedState uid gid)) es) :
    let s := fun k =>
      Machine.run (Server.step codec w) (.start (newSharedState uid gid)) (es.take k)
    ∀ k ≤ es.length, ∀ i n message response,
      ((s k).connection i).returned[n]? = some (message, some response) →
      message.messageType = .getCurrentUidGid →
      ∃ k₁ k₂, k₁ ≤ k₂ ∧ k₂ ≤ k ∧
        ((s k₁).connection i).InRequest n message ∧ ((s k₂).connection i).InRequest n message ∧
        response = .response message.requestId (w.uidGid.toPayload
          ⟨(s k₁).daemon.state.currentUid, (s k₂).daemon.state.currentGid⟩) := by
  intro s k hk i n message response hget hids
  have himplements := implements_run (implements_start (ι := ι) (newSharedState uid gid)) hcarries
  have hmoments := idsOfMoments_run w (newSharedState uid gid)
    (exchanges codec w (.start (newSharedState uid gid)) es) i k
    (by rwa [exchanges, Machine.length_relabel])
  rw [((himplements k hk).connection i).returned] at hget
  obtain ⟨k₁, k₂, h12, h2k, hin₁, hin₂, hresponse⟩ := hmoments.returned n message response hget hids
  have himplements₁ := himplements k₁ (h12.trans (h2k.trans hk))
  have himplements₂ := himplements k₂ (h2k.trans hk)
  rw [← himplements₁.daemon, ← himplements₂.daemon] at hresponse
  exact ⟨k₁, k₂, h12, h2k, (himplements₁.connection i).inRequest hin₁,
    (himplements₂.connection i).inRequest hin₂, hresponse⟩

/-- One client reads the ids while another sets them. -/
def readsWhileSet : List (ServerEvent Bool) :=
  [.accept false, .accept true, .client false (.send ⟨.getCurrentUidGid, [], 1⟩),
    .client false (.write 7), .client true (.send ⟨.setCurrentUidGid, List.replicate 8 1, 1⟩),
    .client true (.write 99), .client false (.write 99), .handle false, .handle false,
    .handle true, .handle true, .handle true, .handle false, .handle false, .respond false 3,
    .respond false 99, .client false .recv]

theorem Server.ids_of_moments_while_set :
    let s := fun k => Machine.run (Server.step .bincode .bincode)
      (.start (newSharedState 0 0)) (readsWhileSet.take k)
    ∀ k ≤ readsWhileSet.length, ∀ i n message response,
      ((s k).connection i).returned[n]? = some (message, some response) →
      message.messageType = .getCurrentUidGid →
      ∃ k₁ k₂, k₁ ≤ k₂ ∧ k₂ ≤ k ∧
        ((s k₁).connection i).InRequest n message ∧ ((s k₂).connection i).InRequest n message ∧
        response = .response message.requestId (Wincode.bincode.uidGid.toPayload
          ⟨(s k₁).daemon.state.currentUid, (s k₂).daemon.state.currentGid⟩) :=
  Server.ids_of_moments .bincode .bincode 0 0 (Server.carriesRun_bincode (by decide +kernel))

/-- The reply mixes the user id from before with the group id from after. -/
example : ((Machine.run (Server.step .bincode .bincode) (.start (newSharedState 0 0))
    readsWhileSet).connection false).returned.map (fun (_, outcome) =>
      outcome.map fun response => response.payload) =
    [some (Wincode.bincode.uidGid.toPayload ⟨0, 0x01010101⟩)] := by decide +kernel

end Pseudoroot
