import Pseudoroot.Verification.Daemon.Server
import Pseudoroot.Verification.Daemon.Streams

/-! # Table requests are linearizable

A request about an entry takes effect at one access of its handler, between its send and its
response. The log lists these requests in the order of the accesses: it is a serial run of
the daemon, and each client finds its own requests there, in its own order. -/

namespace Pseudoroot

open Calls (Program)

/-! ## Requests about entries -/

def MessageType.onTable : MessageType → Bool
  | .registerOwnership | .upsertChown | .getOwnership | .removeOwnership => true
  | _ => false

section Dispatch

variable {w : Wincode} {message : ProtocolMessage}

/-- A table request is refused or makes one access, where the whole dispatch takes effect. -/
theorem dispatchProgram_of_onTable (h : message.messageType.onTable) :
    (∃ response, dispatchProgram w message = .done response ∧
      ∀ daemon, dispatchMessage w message daemon = (response, daemon)) ∨
    ∃ call next, dispatchProgram w message = .call call next ∧
      ∀ daemon, ∃ response, next (DaemonState.handle call daemon).1 = .done response ∧
        dispatchMessage w message daemon = (response, (DaemonState.handle call daemon).2) := by
  cases hprogram : dispatchProgram w message with
  | done response =>
      refine .inl ⟨response, rfl, fun daemon => ?_⟩
      rw [← run_dispatchProgram, hprogram, Program.run_done]
  | call call next =>
      refine .inr ⟨call, next, rfl, fun daemon => ?_⟩
      have hdone : ∀ reply, ∃ response, next reply = .done response := by
        obtain ⟨messageType, payload, requestId⟩ := message
        cases messageType with
        | registerOwnership | upsertChown | getOwnership | removeOwnership =>
            simp only [dispatchProgram] at hprogram
            split at hprogram <;> cases hprogram
            exact fun _ => ⟨_, rfl⟩
        | _ => cases h
      obtain ⟨response, hnext⟩ := hdone (DaemonState.handle call daemon).1
      refine ⟨response, hnext, ?_⟩
      rw [← run_dispatchProgram, hprogram, Program.run_call, hnext, Program.run_done]

/-- A table request sees and changes the table only. -/
theorem dispatchMessage_congr_table (h : message.messageType.onTable) {d d' : DaemonState}
    (hd : d.state.inodeMap = d'.state.inodeMap) :
    (dispatchMessage w message d).1 = (dispatchMessage w message d').1 ∧
      (dispatchMessage w message d).2.state.inodeMap =
        (dispatchMessage w message d').2.state.inodeMap := by
  obtain ⟨messageType, payload, requestId⟩ := message
  cases messageType with
  | registerOwnership | upsertChown | removeOwnership =>
      simp only [dispatchMessage]
      split <;> simp [FakeRootState.setInode, FakeRootState.upsertChown,
        FakeRootState.removeInode, hd]
  | getOwnership =>
      simp only [dispatchMessage]
      split <;> simp [FakeRootState.getInode, hd]
  | _ => cases h

def KeepsTable : Program stateSignature ProtocolMessage → Prop
  | .done _ => True
  | .call call next =>
    (∀ daemon, (DaemonState.handle call daemon).2.state.inodeMap = daemon.state.inodeMap) ∧
      ∀ reply, KeepsTable (next reply)

theorem keepsTable_dispatchProgram (h : message.messageType.onTable = false) :
    KeepsTable (dispatchProgram w message) := by
  obtain ⟨messageType, payload, requestId⟩ := message
  cases messageType with
  | registerOwnership | upsertChown | getOwnership | removeOwnership => cases h
  | ping | response | error => trivial
  | getCurrentUidGid => exact ⟨fun _ => rfl, fun _ => ⟨fun _ => rfl, fun _ => trivial⟩⟩
  | shutdown => exact ⟨fun _ => rfl, fun _ => trivial⟩
  | setCurrentUidGid | init =>
      simp only [dispatchProgram]
      split
      · exact ⟨fun _ => rfl, fun _ => ⟨fun _ => rfl, fun _ => trivial⟩⟩
      · trivial

end Dispatch

theorem dispatchAll_append (w : Wincode) (messages messages' : List ProtocolMessage)
    (daemon : DaemonState) :
    dispatchAll w (messages ++ messages') daemon =
      ((dispatchAll w messages daemon).1 ++
          (dispatchAll w messages' (dispatchAll w messages daemon).2).1,
        (dispatchAll w messages' (dispatchAll w messages daemon).2).2) := by
  induction messages generalizing daemon with
  | nil => rfl
  | cons message messages ih => simp only [List.cons_append, dispatchAll, ih]

/-! ## The log -/

/-- A table request of a client with its response. -/
structure LogEntry (ι : Type) where
  client : ι
  message : ProtocolMessage
  response : ProtocolMessage

/-- The table requests among those that have returned with a response. -/
def tableRequests (returned : List (ProtocolMessage × Option ProtocolMessage)) :
    List (ProtocolMessage × ProtocolMessage) :=
  returned.filterMap fun (message, outcome) =>
    if message.messageType.onTable then outcome.map fun response => (message, response) else none

def requestsOf {ι : Type} [DecidableEq ι] (log : List (LogEntry ι)) (i : ι) :
    List (ProtocolMessage × ProtocolMessage) :=
  (log.filter fun entry => entry.client = i).map fun entry => (entry.message, entry.response)

/-- The log is what the daemon does with the messages one after the other, and leads to the
table. -/
structure SerialLog {ι : Type} (w : Wincode) (start : DaemonState) (log : List (LogEntry ι))
    (table : InodeKey → Option FakeInode) : Prop where
  responses : (dispatchAll w (log.map fun entry => entry.message) start).1 =
    log.map fun entry => entry.response
  table : (dispatchAll w (log.map fun entry => entry.message) start).2.state.inodeMap = table

section SerialLog

variable {ι : Type} {w : Wincode} {start : DaemonState} {log : List (LogEntry ι)}

theorem SerialLog.append {daemon : DaemonState} (h : SerialLog w start log daemon.state.inodeMap)
    {entry : LogEntry ι} (htable : entry.message.messageType.onTable) {daemon' : DaemonState}
    (hentry : dispatchMessage w entry.message daemon = (entry.response, daemon')) :
    SerialLog w start (log ++ [entry]) daemon'.state.inodeMap := by
  obtain ⟨hresponse, hmap⟩ := dispatchMessage_congr_table (w := w) htable h.table
  rw [hentry] at hresponse hmap
  constructor
  · simp only [List.map_append, dispatchAll_append, h.responses, List.map_cons, List.map_nil,
      dispatchAll, hresponse]
  · simpa only [List.map_append, dispatchAll_append, List.map_cons, List.map_nil, dispatchAll]
      using hmap

theorem requestsOf_append [DecidableEq ι] (log : List (LogEntry ι)) (entry : LogEntry ι) (i : ι) :
    requestsOf (log ++ [entry]) i =
      requestsOf log i ++ if entry.client = i then [(entry.message, entry.response)] else [] := by
  unfold requestsOf
  rw [List.filter_append, List.map_append]
  split <;> simp_all

end SerialLog

theorem tableRequests_append (returned returned' : List (ProtocolMessage × Option ProtocolMessage)) :
    tableRequests (returned ++ returned') = tableRequests returned ++ tableRequests returned' :=
  List.filterMap_append

theorem tableRequests_error (message : ProtocolMessage) : tableRequests [(message, none)] = [] := by
  simp [tableRequests]

theorem tableRequests_response (message response : ProtocolMessage) :
    tableRequests [(message, some response)] =
      if message.messageType.onTable then [(message, response)] else [] := by
  cases h : message.messageType.onTable <;> simp [tableRequests, h]

/-! ## Requests in progress -/

/-- The dispatch has not taken effect on the table, or is not going to. -/
def BeforeEffect (w : Wincode) (message : ProtocolMessage)
    (rest : Program stateSignature ProtocolMessage) : Prop :=
  if message.messageType.onTable then rest = dispatchProgram w message else KeepsTable rest

/-- The requests of a client that have taken effect and have not returned with the response:
at most the last one. -/
def Peer.Pending (w : Wincode) (p : Peer) (pending : List (ProtocolMessage × ProtocolMessage)) :
    Prop :=
  match p.exchange with
  | .idle => pending = [] ∨ p.line.lost = true ∧ pending.length ≤ 1 ∧
      ∀ request ∈ pending, (request.1, none) ∈ p.returned
  | .requested _ => pending = []
  | .dispatching message (.call call next) =>
    pending = [] ∧ BeforeEffect w message (.call call next)
  | .dispatching message (.done response) => pending = tableRequests [(message, some response)]
  | .answered message response => pending = tableRequests [(message, some response)]

namespace Peer

variable {w : Wincode} {p : Peer} {pending : List (ProtocolMessage × ProtocolMessage)}

theorem pending_connected : connected.Pending w [] :=
  .inl rfl

/-- What is pending is the request that the client is in, or one that has failed. -/
theorem Pending.spec (h : p.Pending w pending) : pending.length ≤ 1 ∧
    ∀ request ∈ pending,
      p.exchange.message = some request.1 ∨ (request.1, none) ∈ p.returned := by
  have hone : ∀ {message response}, p.exchange.message = some message →
      pending = tableRequests [(message, some response)] → pending.length ≤ 1 ∧
        ∀ request ∈ pending,
          p.exchange.message = some request.1 ∨ (request.1, none) ∈ p.returned := by
    intro message response hmessage hpending
    rw [tableRequests_response] at hpending
    split at hpending <;> subst hpending
    · refine ⟨Nat.le_refl 1, fun request hmem => ?_⟩
      cases List.mem_singleton.mp hmem
      exact .inl hmessage
    · exact ⟨Nat.zero_le 1, fun _ hmem => nomatch hmem⟩
  have hnone : pending = [] → pending.length ≤ 1 ∧
      ∀ request ∈ pending,
        p.exchange.message = some request.1 ∨ (request.1, none) ∈ p.returned := by
    rintro rfl
    exact ⟨Nat.zero_le 1, fun _ hmem => nomatch hmem⟩
  unfold Pending at h
  split at h <;> rename_i hexchange
  · rcases h with hnil | ⟨-, hlength, hfailed⟩
    · exact hnone hnil
    · exact ⟨hlength, fun request hmem => .inr (hfailed request hmem)⟩
  · exact hnone h
  · exact hnone h.1
  · exact hone (by rw [hexchange]; rfl) h
  · exact hone (by rw [hexchange]; rfl) h

theorem Pending.of_exchange_eq (h : p.Pending w pending) {q : Peer}
    (hexchange : q.exchange = p.exchange) (hreturned : q.returned = p.returned)
    (hline : p.line.lost = true → q.line.lost = true) : q.Pending w pending := by
  unfold Pending at h ⊢
  rw [hexchange, hreturned]
  split at h
  · exact h.imp_right fun ⟨hlost, h⟩ => ⟨hline hlost, h⟩
  all_goals exact h

theorem Pending.act (h : p.Pending w pending) (e : PeerEvent) :
    ∃ pending', (p.act e).Pending w pending' ∧
      tableRequests (p.act e).returned ++ pending' = tableRequests p.returned ++ pending := by
  cases e with
  | skip => exact ⟨pending, h, rfl⟩
  | die => exact ⟨pending, h.of_exchange_eq rfl rfl id, rfl⟩
  | accept =>
      simp only [Peer.act, Peer.accept]
      split
      · rename_i hline
        refine ⟨pending, h.of_exchange_eq rfl rfl fun hlost => ?_, rfl⟩
        rw [hline] at hlost
        cases hlost
      · exact ⟨pending, h, rfl⟩
  | send message =>
      simp only [Peer.act, Peer.send]
      split
      · rename_i hidle _ hline
        simp only [Pending, hidle, hline, Bool.false_eq_true, false_and, or_false] at h
        exact ⟨pending, h, rfl⟩
      · exact ⟨pending, h, rfl⟩
  | recv =>
      simp only [Peer.act, Peer.recv]
      split
      · rename_i message response hexchange _
        simp only [Pending, hexchange] at h
        refine ⟨[], .inl rfl, ?_⟩
        rw [List.append_nil, tableRequests_append, h]
      · exact ⟨pending, h, rfl⟩
  | fail message =>
      simp only [Peer.act, Peer.fail]
      split
      · rename_i _ hlost
        obtain ⟨hlength, hmessage⟩ := h.spec
        refine ⟨pending, .inr ⟨hlost, hlength, fun request hmem => ?_⟩, ?_⟩
        · rcases hmessage request hmem with hin | hfailed
          · rw [hin, Option.getD_some]
            exact List.mem_append_right _ List.mem_cons_self
          · exact List.mem_append_left _ hfailed
        · rw [tableRequests_append, tableRequests_error, List.append_nil]
      · exact ⟨pending, h, rfl⟩

theorem Pending.refuse (h : p.Pending w pending) : p.refuse.Pending w pending := by
  unfold Peer.refuse
  split
  · exact h.of_exchange_eq rfl rfl fun _ => rfl
  · exact h

theorem pending_of_keepsTable {message : ProtocolMessage}
    {rest : Program stateSignature ProtocolMessage} (hexchange : p.exchange = .dispatching message rest)
    (htable : message.messageType.onTable = false) (hkeeps : KeepsTable rest) :
    p.Pending w [] := by
  unfold Pending
  cases rest with
  | done response =>
      simp only [hexchange, tableRequests_response, htable, Bool.false_eq_true, if_false]
  | call call next =>
      simp only [hexchange, BeforeEffect, htable, Bool.false_eq_true, if_false, true_and]
      exact hkeeps

theorem pending_of_done {message response : ProtocolMessage}
    (hexchange : p.exchange = .dispatching message (.done response))
    (htable : message.messageType.onTable) : p.Pending w [(message, response)] := by
  simp only [Pending, hexchange, tableRequests_response, htable, if_true]

/-- A step of the handler leaves the table alone, or is where a request takes effect. -/
theorem Pending.handle (h : p.Pending w pending) (daemon : DaemonState) :
    ((p.handle w daemon).1.Pending w pending ∧
        (p.handle w daemon).2.state.inodeMap = daemon.state.inodeMap) ∨
      ∃ message response, message.messageType.onTable ∧
        dispatchMessage w message daemon = (response, (p.handle w daemon).2) ∧
        (p.handle w daemon).1.Pending w (pending ++ [(message, response)]) := by
  by_cases hserved : p.line = .served
  case neg =>
    rw [Peer.handle_of_not_served hserved]
    exact .inl ⟨h, rfl⟩
  cases hexchange : p.exchange with
  | idle | answered message response =>
      have hstep : p.handle w daemon = (p, daemon) := by
        simp only [Peer.handle, hserved, hexchange]
      rw [hstep]
      exact .inl ⟨h, rfl⟩
  | requested message =>
      simp only [Pending, hexchange] at h
      subst h
      have hstep : p.handle w daemon =
          ({ p with exchange := .dispatching message (dispatchProgram w message) }, daemon) := by
        simp only [Peer.handle, hserved, hexchange]
      rw [hstep]
      cases htable : message.messageType.onTable with
      | false =>
          exact .inl ⟨pending_of_keepsTable rfl htable (keepsTable_dispatchProgram htable), rfl⟩
      | true =>
          rcases dispatchProgram_of_onTable (w := w) htable with
            ⟨response, hprogram, hdispatch⟩ | ⟨call, next, hprogram, -⟩
          · -- A refused request takes effect, with none, when it is read.
            rw [hprogram]
            exact .inr ⟨message, response, htable, hdispatch daemon, pending_of_done rfl htable⟩
          · refine .inl ⟨?_, rfl⟩
            simp only [Pending, hprogram, BeforeEffect, htable, if_true, and_self]
  | dispatching message rest =>
      cases rest with
      | done response =>
          have hstep : p.handle w daemon =
              ({ p with exchange := .answered message response }, daemon) := by
            simp only [Peer.handle, hserved, hexchange]
          rw [hstep]
          simp only [Pending, hexchange] at h
          exact .inl ⟨h, rfl⟩
      | call call next =>
          simp only [Pending, hexchange] at h
          obtain ⟨rfl, hbefore⟩ := h
          have hstep : p.handle w daemon =
              ({ p with
                  exchange := .dispatching message (next (DaemonState.handle call daemon).1) },
                (DaemonState.handle call daemon).2) := by
            simp only [Peer.handle, hserved, hexchange]
          rw [hstep]
          cases htable : message.messageType.onTable with
          | false =>
              rw [BeforeEffect, htable] at hbefore
              exact .inl ⟨pending_of_keepsTable rfl htable (hbefore.2 _), hbefore.1 daemon⟩
          | true =>
              rw [BeforeEffect, htable] at hbefore
              rcases dispatchProgram_of_onTable (w := w) htable with
                ⟨response, hprogram, -⟩ | ⟨call', next', hprogram, heffect⟩
              · cases hbefore.trans hprogram
              · cases hbefore.trans hprogram
                obtain ⟨response, hrest, hdispatch⟩ := heffect daemon
                rw [hrest]
                exact .inr ⟨message, response, htable, hdispatch, pending_of_done rfl htable⟩

end Peer

/-! ## Runs -/

/-- The log is serial, and each client finds there the requests that returned to it, then at
most the one that it is in. -/
structure ExchangeServer.Linearizes {ι : Type} [DecidableEq ι] (w : Wincode) (start : DaemonState)
    (log : List (LogEntry ι)) (a : ExchangeServer ι) : Prop where
  serial : SerialLog w start log a.daemon.state.inodeMap
  client : ∀ i, ∃ pending, (a.peer i).Pending w pending ∧
    requestsOf log i = tableRequests (a.peer i).returned ++ pending

namespace ExchangeServer

variable {ι : Type} [DecidableEq ι] {w : Wincode} {start : DaemonState} {log : List (LogEntry ι)}
  {a : ExchangeServer ι}

theorem linearizes_start : (ExchangeServer.start (ι := ι) start).Linearizes w start [] :=
  ⟨⟨rfl, rfl⟩, fun _ => ⟨[], Peer.pending_connected, rfl⟩⟩

theorem Linearizes.set (h : a.Linearizes w start log) {i : ι} {p : Peer} {daemon : DaemonState}
    {log' : List (LogEntry ι)} (hserial : SerialLog w start log' daemon.state.inodeMap)
    (hother : ∀ j ≠ i, requestsOf log' j = requestsOf log j)
    (hclient : ∃ pending, p.Pending w pending ∧
      requestsOf log' i = tableRequests p.returned ++ pending) :
    Linearizes w start log' ⟨daemon, Function.update a.peer i p⟩ := by
  refine ⟨hserial, fun j => ?_⟩
  by_cases hj : j = i
  · subst hj
    simpa only [Function.update_self] using hclient
  · simpa only [Function.update_of_ne hj, hother j hj] using h.client j

theorem Linearizes.step (h : a.Linearizes w start log) (e : ExchangeEvent ι) :
    ∃ log', (log <+: log' ∧ log'.length ≤ log.length + 1) ∧
      (a.step w e).Linearizes w start log' := by
  have hsame : log <+: log ∧ log.length ≤ log.length + 1 := ⟨List.prefix_rfl, Nat.le_succ _⟩
  cases e with
  | client i e =>
      obtain ⟨pending, hpending, hlog⟩ := h.client i
      obtain ⟨pending', hpending', heq⟩ := hpending.act e
      exact ⟨log, hsame, h.set h.serial (fun _ _ => rfl) ⟨pending', hpending', hlog.trans heq.symm⟩⟩
  | stop =>
      refine ⟨log, hsame, h.serial, fun i => ?_⟩
      obtain ⟨pending, hpending, hlog⟩ := h.client i
      refine ⟨pending, hpending.refuse, hlog.trans ?_⟩
      simp only [ExchangeServer.step, Peer.refuse]
      split <;> rfl
  | exit =>
      refine ⟨log, hsame, h.serial, fun i => ?_⟩
      obtain ⟨pending, hpending, hlog⟩ := h.client i
      exact ⟨pending, hpending.of_exchange_eq rfl rfl fun _ => rfl, hlog⟩
  | handle i =>
      obtain ⟨pending, hpending, hlog⟩ := h.client i
      have hreturned := (a.peer i).returned_handle w a.daemon
      rw [← hreturned] at hlog
      rcases hpending.handle a.daemon with
        ⟨hpending', hmap⟩ | ⟨message, response, htable, hdispatch, hpending'⟩
      · have hserial := h.serial
        rw [← hmap] at hserial
        exact ⟨log, hsame, h.set hserial (fun _ _ => rfl) ⟨pending, hpending', hlog⟩⟩
      · have hclient : requestsOf (log ++ [⟨i, message, response⟩]) i =
            tableRequests ((a.peer i).handle w a.daemon).1.returned ++
              (pending ++ [(message, response)]) := by
          rw [requestsOf_append, if_pos rfl, hlog, List.append_assoc]
        refine ⟨log ++ [⟨i, message, response⟩], ⟨List.prefix_append _ _, by simp⟩,
          h.set (h.serial.append htable hdispatch) (fun j hj => ?_) ⟨_, hpending', hclient⟩⟩
        rw [requestsOf_append, if_neg (Ne.symm hj), List.append_nil]

end ExchangeServer

/-- The requests of a client are the table requests that have returned to it with the response,
then at most one more: the request that it is in, or was in when it died, or one that has
returned an error. -/
def Connection.Accounts (c : Connection) (requests : List (ProtocolMessage × ProtocolMessage)) :
    Prop :=
  ∃ pending : List (ProtocolMessage × ProtocolMessage), pending.length ≤ 1 ∧
    (∀ request ∈ pending,
      c.channel = .receiving request.1 ∨ (request.1, none) ∈ c.returned) ∧
    requests = tableRequests c.returned ++ pending

theorem Connection.Implements.accounts {codec : MessageCodec} {c : Connection} {p : Peer}
    (h : c.Implements codec p) {w : Wincode}
    {pending requests : List (ProtocolMessage × ProtocolMessage)} (hpending : p.Pending w pending)
    (hrequests : requests = tableRequests p.returned ++ pending) : c.Accounts requests := by
  obtain ⟨hlength, hin⟩ := hpending.spec
  rw [← h.returned] at hin hrequests
  exact ⟨pending, hlength, fun request hmem => (hin request hmem).imp_left h.channel_eq, hrequests⟩

/-- Register, chown, get and remove requests of any number of clients, with their accesses in
any order, are as if each was made at one moment between its send and its response. The log
grows at these moments: it is a serial run of the daemon that gives every response and the
table, and holds the requests of each client in the order in which they returned. -/
theorem Server.exists_log_of_run {ι : Type} [DecidableEq ι] (codec : MessageCodec) (w : Wincode)
    (uid gid : UInt32) {es : List (ServerEvent ι)}
    (hcarries : CarriesRun codec w (.start (newSharedState uid gid)) es) :
    let start := newSharedState uid gid
    let s := fun k => Machine.run (Server.step codec w) (.start start) (es.take k)
    ∃ log : ℕ → List (LogEntry ι), log 0 = [] ∧
      (∀ k < es.length, log k <+: log (k + 1) ∧ (log (k + 1)).length ≤ (log k).length + 1) ∧
      ∀ k ≤ es.length,
        SerialLog w start (log k) (s k).daemon.state.inodeMap ∧
          ∀ i, ((s k).connection i).Accounts (requestsOf (log k) i) := by
  intro start s
  have hlength : (exchanges codec w (.start start) es).length = es.length :=
    Machine.length_relabel _ _
  obtain ⟨log, hlog0, hgrows, hlinear⟩ := Machine.exists_simulation
    (R := fun log a => ExchangeServer.Linearizes w start log a)
    (A := fun _ log _ log' => log <+: log' ∧ log'.length ≤ log.length + 1)
    (fun _ _ e h => h.step e) (ExchangeServer.linearizes_start (ι := ι))
    (exchanges codec w (.start start) es)
  rw [hlength] at hgrows hlinear
  refine ⟨log, hlog0, hgrows, fun k hk => ?_⟩
  have himplements := implements_run (implements_start start) hcarries k hk
  have h := hlinear k hk
  refine ⟨?_, fun i => ?_⟩
  · rw [show (s k).daemon = _ from himplements.daemon]
    exact h.serial
  · obtain ⟨pending, hpending, hrequests⟩ := h.client i
    exact (himplements.connection i).accounts hpending hrequests

/-- One client asks about an entry while another removes it and dies within its next request. -/
def asksWhileRemoved : List (ServerEvent Bool) :=
  [.accept false, .accept true,
    .client false (.send ⟨.getOwnership, List.replicate 16 0, 1⟩), .client false (.write 11),
    .client true (.send ⟨.removeOwnership, List.replicate 16 0, 1⟩), .client true (.write 99),
    .client false (.write 99), .handle false, .handle true, .handle true, .handle true,
    .respond true 2, .respond true 99, .client true .recv, .client true (.send ⟨.ping, [], 2⟩),
    .client true (.write 3), .client true .die, .handle true, .handle false, .handle false,
    .respond false 99, .client false .recv]

theorem Server.exists_log_while_removed :
    let start := newSharedState 0 0
    let s := fun k =>
      Machine.run (Server.step .bincode .bincode) (.start start) (asksWhileRemoved.take k)
    ∃ log : ℕ → List (LogEntry Bool), log 0 = [] ∧
      (∀ k < asksWhileRemoved.length,
        log k <+: log (k + 1) ∧ (log (k + 1)).length ≤ (log k).length + 1) ∧
      ∀ k ≤ asksWhileRemoved.length,
        SerialLog .bincode start (log k) (s k).daemon.state.inodeMap ∧
          ∀ i, ((s k).connection i).Accounts (requestsOf (log k) i) :=
  Server.exists_log_of_run .bincode .bincode 0 0 (Server.carriesRun_bincode (by decide +kernel))

end Pseudoroot
