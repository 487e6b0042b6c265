import Mathlib.Logic.Function.Basic
import Pseudoroot.Model.Server

/-! # Exchanges of messages

The connections without their bytes: a client is in a request or not, and the handler has
the message of the request, the rest of its dispatch, or the response. -/

namespace Pseudoroot

open Calls (Program)

inductive Exchange where
  | idle
  | requested (message : ProtocolMessage)
  | dispatching (message : ProtocolMessage) (rest : Program stateSignature ProtocolMessage)
  | answered (message response : ProtocolMessage)

def Exchange.message : Exchange → Option ProtocolMessage
  | .idle => none
  | .requested message => some message
  | .dispatching message _ => some message
  | .answered message _ => some message

/-- The end of the daemon: not accepted, served, or closed in one of two ways. -/
inductive Line where
  | backlog
  | served
  | refused
  | closed

def Line.lost : Line → Bool
  | .refused | .closed => true
  | _ => false

/-- A client with its exchange. An exchange goes on after the client has died. -/
structure Peer where
  exchange : Exchange
  clientOpen : Bool
  line : Line
  /-- The requests that have returned, each with the response or `none` for an error. -/
  returned : List (ProtocolMessage × Option ProtocolMessage)

inductive PeerEvent where
  /-- A whole request arrives. -/
  | send (message : ProtocolMessage)
  | recv
  /-- The request that the client is in returns an error, or `message`, which was not sent. -/
  | fail (message : ProtocolMessage)
  | die
  | accept
  | skip

structure ExchangeServer (ι : Type) where
  daemon : DaemonState
  peer : ι → Peer

inductive ExchangeEvent (ι : Type) where
  | client (i : ι) (e : PeerEvent)
  | handle (i : ι)
  | stop
  | exit

namespace Peer

def connected : Peer where
  exchange := .idle
  clientOpen := true
  line := .backlog
  returned := []

def send (p : Peer) (message : ProtocolMessage) : Peer :=
  match p.exchange, p.clientOpen, p.line.lost with
  | .idle, true, false => { p with exchange := .requested message }
  | _, _, _ => p

def recv (p : Peer) : Peer :=
  match p.exchange, p.clientOpen with
  | .answered message response, true =>
    { p with exchange := .idle, returned := p.returned ++ [(message, some response)] }
  | _, _ => p

def fail (p : Peer) (message : ProtocolMessage) : Peer :=
  match p.clientOpen, p.line.lost with
  | true, true =>
    { p with
      exchange := .idle
      returned := p.returned ++ [(p.exchange.message.getD message, none)] }
  | _, _ => p

def accept (p : Peer) : Peer :=
  match p.line with
  | .backlog => { p with line := .served }
  | _ => p

def act (p : Peer) : PeerEvent → Peer
  | .send message => p.send message
  | .recv => p.recv
  | .fail message => p.fail message
  | .die => { p with clientOpen := false }
  | .accept => p.accept
  | .skip => p

def handle (w : Wincode) (p : Peer) (daemon : DaemonState) : Peer × DaemonState :=
  match p.line, p.exchange with
  | .served, .requested message =>
    ({ p with exchange := .dispatching message (dispatchProgram w message) }, daemon)
  | .served, .dispatching message (.call call next) =>
    let (reply, daemon) := DaemonState.handle call daemon
    ({ p with exchange := .dispatching message (next reply) }, daemon)
  | .served, .dispatching message (.done response) =>
    ({ p with exchange := .answered message response }, daemon)
  | _, _ => (p, daemon)

def refuse (p : Peer) : Peer :=
  match p.line with
  | .backlog => { p with line := .refused }
  | _ => p

def hangUp (p : Peer) : Peer :=
  { p with line := .closed }

end Peer

namespace ExchangeServer

variable {ι : Type} [DecidableEq ι]

def start (daemon : DaemonState) : ExchangeServer ι where
  daemon := daemon
  peer := fun _ => .connected

def setPeer (a : ExchangeServer ι) (i : ι) (p : Peer) : ExchangeServer ι :=
  { a with peer := Function.update a.peer i p }

def step (w : Wincode) (a : ExchangeServer ι) : ExchangeEvent ι → ExchangeServer ι
  | .client i e => a.setPeer i ((a.peer i).act e)
  | .handle i =>
    let (p, daemon) := (a.peer i).handle w a.daemon
    { a.setPeer i p with daemon := daemon }
  | .stop => { a with peer := fun i => (a.peer i).refuse }
  | .exit => { a with peer := fun i => (a.peer i).hangUp }

end ExchangeServer

/-! ## Responses of a dispatch -/

/-- A dispatch ends in a response to the message. -/
def AnswersTo (message : ProtocolMessage) : Program stateSignature ProtocolMessage → Prop
  | .done response => response.requestId = message.requestId
  | .call _ next => ∀ reply, AnswersTo message (next reply)

theorem answersTo_dispatchProgram (w : Wincode) (message : ProtocolMessage) :
    AnswersTo message (dispatchProgram w message) := by
  obtain ⟨messageType, payload, requestId⟩ := message
  cases messageType with
  | ping | response | error => rfl
  | shutdown => exact fun _ => rfl
  | getCurrentUidGid => exact fun _ _ => rfl
  | setCurrentUidGid | init =>
      simp only [dispatchProgram]
      split
      · exact fun _ _ => rfl
      · rfl
  | registerOwnership | upsertChown | getOwnership | removeOwnership =>
      simp only [dispatchProgram]
      split
      · exact fun _ => rfl
      · rfl

/-! ## Requests that have returned -/

/-- A response has the id of its request, and errors come only when the line is lost. -/
structure Peer.Sound (p : Peer) : Prop where
  ids : ∀ request response, (request, some response) ∈ p.returned →
    response.requestId = request.requestId
  errors : ∀ request, (request, none) ∈ p.returned → p.line.lost = true
  dispatching : ∀ message rest, p.exchange = .dispatching message rest → AnswersTo message rest
  answered : ∀ message response, p.exchange = .answered message response →
    response.requestId = message.requestId

namespace Peer.Sound

variable {p : Peer}

theorem connected : Peer.connected.Sound :=
  ⟨fun _ _ h => (nomatch h), fun _ h => (nomatch h), fun _ _ h => (nomatch h),
    fun _ _ h => (nomatch h)⟩

/-- The client is in no request afterwards, or has sent one. -/
theorem of_exchange (h : p.Sound) {exchange : Exchange}
    (hexchange : exchange = .idle ∨ ∃ message, exchange = .requested message) :
    Peer.Sound { p with exchange := exchange } := by
  refine ⟨h.ids, h.errors, fun message rest heq => ?_, fun message response heq => ?_⟩ <;>
    obtain rfl | ⟨message', rfl⟩ := hexchange <;> cases heq

/-- A request returns. -/
theorem append (h : p.Sound) {request : ProtocolMessage} {outcome : Option ProtocolMessage}
    (hid : ∀ response, outcome = some response → response.requestId = request.requestId)
    (herror : outcome = none → p.line.lost = true) :
    Peer.Sound { p with exchange := .idle, returned := p.returned ++ [(request, outcome)] } := by
  refine ⟨fun request' response hmem => ?_, fun request' hmem => ?_,
    fun message rest heq => (nomatch heq), fun message response heq => (nomatch heq)⟩
  · rcases List.mem_append.mp hmem with hold | hnew
    · exact h.ids request' response hold
    · cases List.mem_singleton.mp hnew
      exact hid response rfl
  · rcases List.mem_append.mp hmem with hold | hnew
    · exact h.errors request' hold
    · cases List.mem_singleton.mp hnew
      exact herror rfl

theorem of_line (h : p.Sound) {line : Line} (hline : p.line.lost = true → line.lost = true) :
    Peer.Sound { p with line := line } :=
  ⟨h.ids, fun request hmem => hline (h.errors request hmem), h.dispatching, h.answered⟩

theorem act (h : p.Sound) (e : PeerEvent) : (p.act e).Sound := by
  cases e with
  | skip => exact h
  | die => exact ⟨h.ids, h.errors, h.dispatching, h.answered⟩
  | send message =>
      simp only [Peer.act, Peer.send]
      split
      · exact h.of_exchange (.inr ⟨message, rfl⟩)
      · exact h
  | recv =>
      simp only [Peer.act, Peer.recv]
      split
      · rename_i message response hexchange _
        refine h.append (fun response' heq => ?_) (fun heq => nomatch heq)
        cases heq
        exact h.answered message response hexchange
      · exact h
  | fail message =>
      simp only [Peer.act, Peer.fail]
      split
      · rename_i _ hlost
        exact h.append (fun _ heq => nomatch heq) fun _ => hlost
      · exact h
  | accept =>
      simp only [Peer.act, Peer.accept]
      split
      · rename_i hline
        exact h.of_line (by rw [hline]; exact Bool.noConfusion)
      · exact h

theorem handle (h : p.Sound) (w : Wincode) (daemon : DaemonState) :
    (p.handle w daemon).1.Sound := by
  unfold Peer.handle
  split
  · rename_i message _ _
    refine ⟨h.ids, h.errors, fun message' rest heq => ?_, fun _ _ heq => nomatch heq⟩
    cases heq
    exact answersTo_dispatchProgram w message
  · rename_i message call next _ hexchange
    refine ⟨h.ids, h.errors, fun message' rest heq => ?_, fun _ _ heq => nomatch heq⟩
    cases heq
    exact h.dispatching _ _ hexchange _
  · rename_i message response _ hexchange
    refine ⟨h.ids, h.errors, fun _ _ heq => (nomatch heq), fun message' response' heq => ?_⟩
    cases heq
    exact h.dispatching _ _ hexchange
  · exact h

theorem refuse (h : p.Sound) : p.refuse.Sound := by
  unfold Peer.refuse
  split
  · exact h.of_line fun _ => rfl
  · exact h

theorem hangUp (h : p.Sound) : p.hangUp.Sound :=
  h.of_line fun _ => rfl

end Peer.Sound

theorem ExchangeServer.sound_step {ι : Type} [DecidableEq ι] (w : Wincode) {a : ExchangeServer ι}
    (h : ∀ i, (a.peer i).Sound) (e : ExchangeEvent ι) : ∀ i, ((a.step w e).peer i).Sound := by
  have hset : ∀ {i : ι} {p : Peer}, p.Sound → ∀ j, (Function.update a.peer i p j).Sound :=
    fun hp => (Function.forall_update_iff a.peer fun _ p => p.Sound).mpr ⟨hp, fun j _ => h j⟩
  cases e with
  | client i e => exact hset ((h i).act e)
  | handle i => exact hset ((h i).handle w a.daemon)
  | stop => exact fun i => (h i).refuse
  | exit => exact fun i => (h i).hangUp

/-! ## What a step leaves -/

theorem Peer.line_act_eq_closed {p : Peer} (e : PeerEvent) (h : (p.act e).line = .closed) :
    p.line = .closed := by
  cases e with
  | skip | die => exact h
  | send | recv | fail =>
      simp only [Peer.act, Peer.send, Peer.recv, Peer.fail] at h
      split at h <;> exact h
  | accept =>
      simp only [Peer.act, Peer.accept] at h
      split at h
      · cases h
      · exact h

theorem Peer.handle_of_not_served {p : Peer} (h : p.line ≠ .served) (w : Wincode)
    (daemon : DaemonState) : p.handle w daemon = (p, daemon) := by
  unfold Peer.handle
  split <;> first | contradiction | rfl

theorem Peer.line_handle (p : Peer) (w : Wincode) (daemon : DaemonState) :
    (p.handle w daemon).1.line = p.line := by
  unfold Peer.handle
  split <;> rfl

theorem Peer.returned_handle (p : Peer) (w : Wincode) (daemon : DaemonState) :
    (p.handle w daemon).1.returned = p.returned := by
  unfold Peer.handle
  split <;> rfl

theorem Peer.clientOpen_handle (p : Peer) (w : Wincode) (daemon : DaemonState) :
    (p.handle w daemon).1.clientOpen = p.clientOpen := by
  unfold Peer.handle
  split <;> rfl

end Pseudoroot
