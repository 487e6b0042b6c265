import Pseudoroot.Library.Runs
import Pseudoroot.Model.Wincode
import Pseudoroot.Verification.Daemon.Exchange
import Pseudoroot.Verification.Daemon.Framing

/-! # Byte streams

The bytes on the streams of the connections implement the exchanges of messages, however they
are cut into pieces. -/

namespace Pseudoroot

open Calls (Program)

/-! ## Events of the streams as events of the exchanges -/

/-- What an event of the client is to its exchange. A request is sent with its last byte. -/
def Connection.exchange (c : Connection) (e : ClientEvent) : PeerEvent :=
  if c.clientOpen then
    match e, c.channel with
    | .write n, .sending message rest =>
      if c.handler.closed then .fail message
      else if rest.length ≤ n then .send message else .skip
    | .recv, .receiving message =>
      match readFramed c.toClient with
      | some _ => .recv
      | none => if c.handler.closed then .fail message else .skip
    | .die, _ => .die
    | _, _ => .skip
  else .skip

def Server.exchange {ι : Type} (s : Server ι) : ServerEvent ι → ExchangeEvent ι
  | .client i e => .client i ((s.connection i).exchange e)
  | .accept i => .client i .accept
  | .handle i => .handle i
  | .respond i _ => .client i .skip
  | .stop => .stop
  | .exit => .exit

/-- The events of a run as events of the exchanges, one for each. -/
def Server.exchanges {ι : Type} [DecidableEq ι] (codec : MessageCodec) (w : Wincode)
    (s : Server ι) (es : List (ServerEvent ι)) : List (ExchangeEvent ι) :=
  Machine.relabel (Server.step codec w) Server.exchange s es

/-- The message that an event puts in a frame: a request, or the response of a dispatch. -/
def Server.framing {ι : Type} (s : Server ι) : ServerEvent ι → Option ProtocolMessage
  | .client _ (.send message) => some message
  | .handle i =>
    match (s.connection i).handler with
    | .dispatching (.done response) => some response
    | _ => none
  | _ => none

/-- The codec carries all requests and responses of the run. -/
def Server.CarriesRun {ι : Type} [DecidableEq ι] (codec : MessageCodec) (w : Wincode)
    (s : Server ι) (es : List (ServerEvent ι)) : Prop :=
  ∀ k (hk : k < es.length), ∀ message,
    (Machine.run (Server.step codec w) s (es.take k)).framing es[k] = some message →
      codec.Carries message

/-! ## The streams implement the exchanges -/

namespace Connection

/-- The handler reads, or will when the connection has been accepted. -/
inductive Awaits : HandlerThread → Line → Prop where
  | backlog : Awaits .backlog .backlog
  | reading : Awaits .reading .served

inductive Lost : HandlerThread → Line → Prop where
  | refused : Lost .refused .refused
  | closed : Lost .ended .closed

section Stage

variable (codec : MessageCodec)

/-- What has arrived is less than a frame. -/
inductive Writes : IpcChannel → List UInt8 → Prop where
  | idle : Writes .idle []
  | sending {message : ProtocolMessage} {toServer rest : List UInt8}
      (hcarries : codec.Carries message) (hrest : rest ≠ [])
      (hframe : toServer ++ rest = codec.framed message) :
      Writes (.sending message rest) toServer

/-- The response is on its way. A client that dies may never get the rest. -/
inductive Responds (response : ProtocolMessage) : Bool → HandlerThread → List UInt8 → Prop where
  | sending {clientOpen : Bool} {toClient rest : List UInt8} (hrest : rest ≠ [])
      (hframe : toClient ++ rest = codec.framed response) :
      Responds response clientOpen (.sending rest) toClient
  | sent {clientOpen : Bool} {toClient : List UInt8} (hframe : toClient = codec.framed response) :
      Responds response clientOpen .reading toClient
  | ended {toClient rest : List UInt8} (hframe : toClient ++ rest = codec.framed response) :
      Responds response false .ended toClient

/-- What a client finds when the other end is closed. -/
inductive Stranded : IpcChannel → List UInt8 → Exchange → Prop where
  | idle {toClient : List UInt8} : Stranded .idle toClient .idle
  | sending {message : ProtocolMessage} {rest toClient : List UInt8} :
      Stranded (.sending message rest) toClient .idle
  | cut {message : ProtocolMessage} {toClient : List UInt8} {exchange : Exchange}
      (hmessage : exchange.message = some message) (hread : readFramed toClient = none) :
      Stranded (.receiving message) toClient exchange
  | whole {message response : ProtocolMessage} {toClient : List UInt8}
      (hcarries : codec.Carries response) (hframe : toClient = codec.framed response) :
      Stranded (.receiving message) toClient (.answered message response)

/-- The bytes, the handler and the channel of a connection for each state of the exchange. -/
inductive Stage : List UInt8 → List UInt8 → HandlerThread → IpcChannel → Bool → Line →
    Exchange → Prop where
  | idle {toServer : List UInt8} {handler : HandlerThread} {channel : IpcChannel}
      {clientOpen : Bool} {line : Line}
      (hhandler : Awaits handler line ∨ clientOpen = false ∧ handler = .ended ∧ line = .served)
      (hwrites : Writes codec channel toServer) :
      Stage toServer [] handler channel clientOpen line .idle
  | requested {message : ProtocolMessage} {toServer : List UInt8} {handler : HandlerThread}
      {clientOpen : Bool} {line : Line} (hhandler : Awaits handler line)
      (hcarries : codec.Carries message) (hframe : toServer = codec.framed message) :
      Stage toServer [] handler (.receiving message) clientOpen line (.requested message)
  | dispatching {message : ProtocolMessage} {rest : Program stateSignature ProtocolMessage}
      {clientOpen : Bool} :
      Stage [] [] (.dispatching rest) (.receiving message) clientOpen .served
        (.dispatching message rest)
  | answered {message response : ProtocolMessage} {toClient : List UInt8}
      {handler : HandlerThread} {clientOpen : Bool} (hcarries : codec.Carries response)
      (hresponds : Responds codec response clientOpen handler toClient) :
      Stage [] toClient handler (.receiving message) clientOpen .served
        (.answered message response)
  | lost {toServer toClient : List UInt8} {handler : HandlerThread} {channel : IpcChannel}
      {clientOpen : Bool} {line : Line} {exchange : Exchange} (hlost : Lost handler line)
      (hstranded : Stranded codec channel toClient exchange) :
      Stage toServer toClient handler channel clientOpen line exchange

/-- A connection stands for a peer. -/
structure Implements (c : Connection) (p : Peer) : Prop where
  clientOpen : c.clientOpen = p.clientOpen
  returned : c.returned = p.returned
  stage : Stage codec c.toServer c.toClient c.handler c.channel c.clientOpen p.line p.exchange

end Stage

section Facts

variable {codec : MessageCodec} {handler : HandlerThread} {line : Line}

theorem Awaits.closed_eq (h : Awaits handler line) : handler.closed = false := by
  cases h <;> rfl

theorem Awaits.lost_eq (h : Awaits handler line) : line.lost = false := by
  cases h <;> rfl

theorem Lost.closed_eq (h : Lost handler line) : handler.closed = true := by
  cases h <;> rfl

theorem Lost.lost_eq (h : Lost handler line) : line.lost = true := by
  cases h <;> rfl

theorem Writes.readFramed_eq {channel : IpcChannel} {toServer : List UInt8}
    (h : Writes codec channel toServer) : readFramed toServer = none := by
  cases h with
  | idle => exact readFramed_nil
  | sending hcarries hrest hframe => exact hcarries.readFramed_of_cut hframe hrest

end Facts

namespace Implements

variable {codec : MessageCodec} {c : Connection} {p : Peer}

theorem connected : Connection.connected.Implements codec .connected :=
  ⟨rfl, rfl, .idle (.inl .backlog) .idle⟩

/-! ### Events of the client -/

theorem send (h : c.Implements codec p) (message : ProtocolMessage)
    (hcarries : codec.Carries message) : (c.send codec message).Implements codec p := by
  obtain ⟨toServer, toClient, handler, channel, clientOpen, returned⟩ := c
  obtain ⟨exchange, clientOpen', line, returned'⟩ := p
  obtain ⟨hopen, hreturned, hstage⟩ := h
  cases channel with
  | sending message' rest => exact ⟨hopen, hreturned, hstage⟩
  | receiving message' => exact ⟨hopen, hreturned, hstage⟩
  | idle =>
      refine ⟨hopen, hreturned, ?_⟩
      cases hstage with
      | idle hhandler hwrites =>
          cases hwrites
          exact .idle hhandler (.sending hcarries (codec.framed_ne_nil message) rfl)
      | lost hlost hstranded =>
          cases hstranded
          exact .lost hlost .sending

theorem write (h : c.Implements codec p) (halive : c.clientOpen = true) (n : ℕ) :
    (c.write n).Implements codec (p.act (c.exchange (.write n))) := by
  obtain ⟨toServer, toClient, handler, channel, clientOpen, returned⟩ := c
  obtain ⟨exchange, clientOpen', line, returned'⟩ := p
  obtain ⟨hopen, hreturned, hstage⟩ := h
  cases halive
  cases hopen
  cases hreturned
  cases channel with
  | idle => exact ⟨rfl, rfl, hstage⟩
  | receiving message => exact ⟨rfl, rfl, hstage⟩
  | sending message rest =>
      cases hstage with
      | idle hhandler hwrites =>
          cases hwrites with
          | sending hcarries hrest hframe =>
              have hawaits : Awaits handler line := hhandler.resolve_right (by simp)
              by_cases hn : rest.length ≤ n
              · simp only [Connection.write, Connection.exchange, hawaits.closed_eq, hn, ite_true,
                  Bool.false_eq_true, ite_false, List.take_of_length_le hn, hframe, Peer.act,
                  Peer.send, hawaits.lost_eq]
                exact ⟨rfl, rfl, .requested hawaits hcarries rfl⟩
              · simp only [Connection.write, Connection.exchange, hawaits.closed_eq, hn, ite_true,
                  Bool.false_eq_true, ite_false, Peer.act]
                refine ⟨rfl, rfl, .idle (.inl hawaits) (.sending hcarries ?_ ?_)⟩
                · exact fun hnil => hn (List.drop_eq_nil_iff.mp hnil)
                · rw [List.append_assoc, List.take_append_drop, hframe]
      | lost hlost hstranded =>
          cases hstranded
          simp only [Connection.write, Connection.exchange, hlost.closed_eq, ite_true, Peer.act,
            Peer.fail, hlost.lost_eq]
          exact ⟨rfl, rfl, .lost hlost .idle⟩

theorem recv (h : c.Implements codec p) (halive : c.clientOpen = true) :
    (c.recv codec).Implements codec (p.act (c.exchange .recv)) := by
  obtain ⟨toServer, toClient, handler, channel, clientOpen, returned⟩ := c
  obtain ⟨exchange, clientOpen', line, returned'⟩ := p
  obtain ⟨hopen, hreturned, hstage⟩ := h
  cases halive
  cases hopen
  cases hreturned
  -- A response that is not all there is waited for, while the other end is open.
  have hblocked : ∀ {message : ProtocolMessage}, channel = .receiving message →
      readFramed toClient = none → handler.closed = false →
      Implements codec (Connection.recv codec ⟨toServer, toClient, handler, channel, true, returned⟩)
        (Peer.act ⟨exchange, true, line, returned⟩ (Connection.exchange
          ⟨toServer, toClient, handler, channel, true, returned⟩ .recv)) := by
    intro message hchannel hread hhandler
    subst hchannel
    simp only [Connection.recv, Connection.exchange, hread, hhandler, ite_true,
      Bool.false_eq_true, ite_false, Peer.act]
    exact ⟨rfl, rfl, hstage⟩
  cases hstage with
  | idle hhandler hwrites =>
      cases hwrites with
      | idle => exact ⟨rfl, rfl, .idle hhandler .idle⟩
      | sending hcarries hrest hframe =>
          exact ⟨rfl, rfl, .idle hhandler (.sending hcarries hrest hframe)⟩
  | requested hhandler => exact hblocked rfl readFramed_nil hhandler.closed_eq
  | dispatching => exact hblocked rfl readFramed_nil rfl
  | answered hcarries hresponds =>
      cases hresponds with
      | sending hrest hframe =>
          exact hblocked rfl (hcarries.readFramed_of_cut hframe hrest) rfl
      | sent hframe =>
          subst hframe
          simp only [Connection.recv, Connection.exchange, hcarries.readFramed_framed,
            hcarries.fromBytes_toBytes, ite_true, Peer.act, Peer.recv]
          exact ⟨rfl, rfl, .idle (.inl .reading) .idle⟩
  | lost hlost hstranded =>
      cases hstranded with
      | idle => exact ⟨rfl, rfl, .lost hlost .idle⟩
      | sending => exact ⟨rfl, rfl, .lost hlost .sending⟩
      | cut hmessage hread =>
          simp only [Connection.recv, Connection.exchange, hread, hlost.closed_eq, ite_true,
            Peer.act, Peer.fail, hlost.lost_eq, hmessage, Option.getD_some]
          exact ⟨rfl, rfl, .lost hlost .idle⟩
      | whole hcarries hframe =>
          subst hframe
          simp only [Connection.recv, Connection.exchange, hcarries.readFramed_framed,
            hcarries.fromBytes_toBytes, ite_true, Peer.act, Peer.recv]
          exact ⟨rfl, rfl, .lost hlost .idle⟩

theorem die (h : c.Implements codec p) :
    Implements codec { c with clientOpen := false } { p with clientOpen := false } := by
  obtain ⟨toServer, toClient, handler, channel, clientOpen, returned⟩ := c
  obtain ⟨exchange, clientOpen', line, returned'⟩ := p
  obtain ⟨hopen, hreturned, hstage⟩ := h
  refine ⟨rfl, hreturned, ?_⟩
  cases hstage with
  | idle hhandler hwrites => exact .idle (hhandler.imp_right fun h => ⟨rfl, h.2⟩) hwrites
  | requested hhandler hcarries hframe => exact .requested hhandler hcarries hframe
  | dispatching => exact .dispatching
  | answered hcarries hresponds =>
      cases hresponds with
      | sending hrest hframe => exact .answered hcarries (.sending hrest hframe)
      | sent hframe => exact .answered hcarries (.sent hframe)
      | ended hframe => exact .answered hcarries (.ended hframe)
  | lost hlost hstranded => exact .lost hlost hstranded

theorem client (h : c.Implements codec p) (e : ClientEvent)
    (hcarries : ∀ message, e = .send message → codec.Carries message) :
    (c.client codec e).Implements codec (p.act (c.exchange e)) := by
  cases halive : c.clientOpen with
  | false =>
      simp only [Connection.client, Connection.exchange, halive, Bool.false_eq_true, ite_false]
      exact h
  | true =>
      cases e with
      | send message =>
          simp only [Connection.client, Connection.exchange, halive, ite_true]
          exact h.send message (hcarries message rfl)
      | write n =>
          simp only [Connection.client, halive, ite_true]
          exact h.write halive n
      | recv =>
          simp only [Connection.client, halive, ite_true]
          exact h.recv halive
      | die =>
          simp only [Connection.client, Connection.exchange, halive, ite_true]
          exact h.die

/-! ### Events of the daemon -/

theorem backlog_iff (h : c.Implements codec p) : c.handler = .backlog ↔ p.line = .backlog := by
  obtain ⟨toServer, toClient, handler, channel, clientOpen, returned⟩ := c
  obtain ⟨exchange, clientOpen', line, returned'⟩ := p
  obtain ⟨-, -, hstage⟩ := h
  cases hstage with
  | idle hhandler =>
      rcases hhandler with hawaits | ⟨-, rfl, rfl⟩
      · cases hawaits <;> simp
      · simp
  | requested hhandler => cases hhandler <;> simp
  | dispatching => simp
  | answered _ hresponds => cases hresponds <;> simp
  | lost hlost => cases hlost <;> simp

theorem accept (h : c.Implements codec p) : c.accept.Implements codec p.accept := by
  have hbacklog := h.backlog_iff
  obtain ⟨toServer, toClient, handler, channel, clientOpen, returned⟩ := c
  obtain ⟨exchange, clientOpen', line, returned'⟩ := p
  cases handler with
  | reading | dispatching | sending | ended | refused =>
      cases line with
      | backlog => cases hbacklog.mpr rfl
      | served | refused | closed => exact h
  | backlog =>
      obtain ⟨hopen, hreturned, hstage⟩ := h
      cases hstage with
      | idle hhandler hwrites =>
          cases hhandler.resolve_right (by simp)
          exact ⟨hopen, hreturned, .idle (.inl .reading) hwrites⟩
      | requested hhandler hcarries hframe =>
          cases hhandler
          exact ⟨hopen, hreturned, .requested .reading hcarries hframe⟩
      | answered _ hresponds => cases hresponds
      | lost hlost => cases hlost

theorem handle (h : c.Implements codec p) (w : Wincode) (daemon : DaemonState)
    (hcarries : ∀ response, c.handler = .dispatching (.done response) → codec.Carries response) :
    (c.handle codec w daemon).1.Implements codec (p.handle w daemon).1 ∧
      (c.handle codec w daemon).2 = (p.handle w daemon).2 := by
  obtain ⟨toServer, toClient, handler, channel, clientOpen, returned⟩ := c
  obtain ⟨exchange, clientOpen', line, returned'⟩ := p
  obtain ⟨hopen, hreturned, hstage⟩ := h
  cases hopen
  cases hreturned
  cases hstage with
  | idle hhandler hwrites =>
      rcases hhandler with hawaits | ⟨rfl, rfl, rfl⟩
      · cases hawaits with
        | backlog => exact ⟨⟨rfl, rfl, .idle (.inl .backlog) hwrites⟩, rfl⟩
        | reading =>
            cases halive : clientOpen with
            | true =>
                simp only [Connection.handle, hwrites.readFramed_eq, ite_true]
                exact ⟨⟨rfl, rfl, .idle (.inl .reading) hwrites⟩, rfl⟩
            | false =>
                simp only [Connection.handle, hwrites.readFramed_eq, Bool.false_eq_true, ite_false]
                exact ⟨⟨rfl, rfl, .idle (.inr ⟨rfl, rfl, rfl⟩) hwrites⟩, rfl⟩
      · exact ⟨⟨rfl, rfl, .idle (.inr ⟨rfl, rfl, rfl⟩) hwrites⟩, rfl⟩
  | requested hhandler hmessage hframe =>
      cases hhandler with
      | backlog => exact ⟨⟨rfl, rfl, .requested .backlog hmessage hframe⟩, rfl⟩
      | reading =>
          subst hframe
          simp only [Connection.handle, hmessage.readFramed_framed, hmessage.fromBytes_toBytes]
          exact ⟨⟨rfl, rfl, .dispatching⟩, rfl⟩
  | @dispatching message rest =>
      cases rest with
      | call call next => exact ⟨⟨rfl, rfl, .dispatching⟩, rfl⟩
      | done response =>
          have hframe := codec.framed_ne_nil response
          exact ⟨⟨rfl, rfl, .answered (hcarries response rfl) (.sending hframe rfl)⟩, rfl⟩
  | answered hresponse hresponds =>
      cases hresponds with
      | sending hrest hframe =>
          exact ⟨⟨rfl, rfl, .answered hresponse (.sending hrest hframe)⟩, rfl⟩
      | ended hframe => exact ⟨⟨rfl, rfl, .answered hresponse (.ended hframe)⟩, rfl⟩
      | sent hframe =>
          cases clientOpen with
          | true =>
              simp only [Connection.handle, readFramed_nil, ite_true]
              exact ⟨⟨rfl, rfl, .answered hresponse (.sent hframe)⟩, rfl⟩
          | false =>
              have hwhole := (List.append_nil toClient).trans hframe
              simp only [Connection.handle, readFramed_nil, Bool.false_eq_true, ite_false]
              exact ⟨⟨rfl, rfl, .answered hresponse (.ended hwhole)⟩, rfl⟩
  | lost hlost hstranded => cases hlost <;> exact ⟨⟨rfl, rfl, .lost (by constructor) hstranded⟩, rfl⟩

theorem respond (h : c.Implements codec p) (n : ℕ) : (c.respond n).Implements codec p := by
  obtain ⟨toServer, toClient, handler, channel, clientOpen, returned⟩ := c
  obtain ⟨exchange, clientOpen', line, returned'⟩ := p
  cases handler with
  | backlog | reading | dispatching | ended | refused => exact h
  | sending rest =>
      obtain ⟨hopen, hreturned, hstage⟩ := h
      cases hstage with
      | idle hhandler => cases hhandler.resolve_right (by simp)
      | requested hhandler => cases hhandler
      | lost hlost => cases hlost
      | answered hcarries hresponds =>
          cases hresponds with
          | sending hrest hframe =>
              cases clientOpen with
              | false => exact ⟨hopen, hreturned, .answered hcarries (.ended hframe)⟩
              | true =>
                  by_cases hn : rest.length ≤ n
                  · simp only [Connection.respond, ite_true, hn, List.take_of_length_le hn, hframe]
                    exact ⟨hopen, hreturned, .answered hcarries (.sent rfl)⟩
                  · simp only [Connection.respond, ite_true, hn, ite_false]
                    refine ⟨hopen, hreturned, .answered hcarries (.sending ?_ ?_)⟩
                    · exact fun hnil => hn (List.drop_eq_nil_iff.mp hnil)
                    · rw [List.append_assoc, List.take_append_drop, hframe]

/-- What a client finds when its connection is closed in the middle of an exchange. -/
theorem stranded (h : c.Implements codec p) : Stranded codec c.channel c.toClient p.exchange := by
  obtain ⟨toServer, toClient, handler, channel, clientOpen, returned⟩ := c
  obtain ⟨exchange, clientOpen', line, returned'⟩ := p
  obtain ⟨-, -, hstage⟩ := h
  cases hstage with
  | idle _ hwrites => cases hwrites <;> constructor
  | requested => exact .cut rfl readFramed_nil
  | dispatching => exact .cut rfl readFramed_nil
  | lost _ hstranded => exact hstranded
  | answered hcarries hresponds =>
      cases hresponds with
      | sending hrest hframe => exact .cut rfl (hcarries.readFramed_of_cut hframe hrest)
      | sent hframe => exact .whole hcarries hframe
      | @ended _ rest hframe =>
          cases rest with
          | nil => exact .whole hcarries (by rw [← hframe, List.append_nil])
          | cons b rest => exact .cut rfl (hcarries.readFramed_of_cut hframe (List.cons_ne_nil b rest))

theorem refuse (h : c.Implements codec p) : c.refuse.Implements codec p.refuse := by
  have hbacklog := h.backlog_iff
  obtain ⟨toServer, toClient, handler, channel, clientOpen, returned⟩ := c
  obtain ⟨exchange, clientOpen', line, returned'⟩ := p
  cases handler with
  | reading | dispatching | sending | ended | refused =>
      cases line with
      | backlog => cases hbacklog.mpr rfl
      | served | refused | closed => exact h
  | backlog =>
      cases hbacklog.mp rfl
      exact ⟨h.clientOpen, h.returned, .lost .refused h.stranded⟩

theorem hangUp (h : c.Implements codec p) : c.hangUp.Implements codec p.hangUp :=
  ⟨h.clientOpen, h.returned, .lost .closed h.stranded⟩

/-- A client whose request has arrived waits for the response. -/
theorem channel_eq (h : c.Implements codec p) {message : ProtocolMessage}
    (hmessage : p.exchange.message = some message) : c.channel = .receiving message := by
  have hstranded := h.stranded
  generalize c.channel = channel at hstranded
  generalize p.exchange = exchange at hstranded hmessage
  cases hstranded with
  | idle | sending => cases hmessage
  | cut hmessage' =>
      cases hmessage.symm.trans hmessage'
      rfl
  | whole =>
      cases hmessage
      rfl

theorem lost (h : c.Implements codec p) (hline : p.line.lost = true) : Lost c.handler p.line := by
  obtain ⟨toServer, toClient, handler, channel, clientOpen, returned⟩ := c
  obtain ⟨exchange, clientOpen', line, returned'⟩ := p
  obtain ⟨-, -, hstage⟩ := h
  cases hstage with
  | idle hhandler =>
      rcases hhandler with hawaits | ⟨-, rfl, rfl⟩
      · rw [hawaits.lost_eq] at hline
        cases hline
      · cases hline
  | requested hhandler =>
      rw [hhandler.lost_eq] at hline
      cases hline
  | dispatching | answered => cases hline
  | lost hlost => exact hlost

end Implements

end Connection

/-! ## Runs -/

namespace Server

variable {ι : Type} {codec : MessageCodec}

/-- A server stands for a server of exchanges. -/
structure Implements (codec : MessageCodec) (s : Server ι) (a : ExchangeServer ι) : Prop where
  daemon : s.daemon = a.daemon
  connection : ∀ i, (s.connection i).Implements codec (a.peer i)
  exited : ∀ i, (a.peer i).line = .closed → s.exited = true

variable {s : Server ι} {a : ExchangeServer ι}

theorem implements_start (daemon : DaemonState) :
    (Server.start (ι := ι) daemon).Implements codec (.start daemon) :=
  ⟨rfl, fun _ => .connected, fun _ h => nomatch h⟩

variable [DecidableEq ι]

/-- A step of one connection. -/
theorem Implements.set (h : s.Implements codec a) {i : ι} {c : Connection} {p : Peer}
    (daemon : DaemonState) (hc : c.Implements codec p)
    (hline : p.line = .closed → (a.peer i).line = .closed) :
    Server.Implements codec ⟨daemon, Function.update s.connection i c, s.exited⟩
      ⟨daemon, Function.update a.peer i p⟩ := by
  refine ⟨rfl, fun j => ?_, fun j hclosed => ?_⟩
  · by_cases hj : j = i
    · subst hj
      simpa only [Function.update_self] using hc
    · simpa only [Function.update_of_ne hj] using h.connection j
  · by_cases hj : j = i
    · subst hj
      simp only [Function.update_self] at hclosed
      exact h.exited j (hline hclosed)
    · simp only [Function.update_of_ne hj] at hclosed
      exact h.exited j hclosed

theorem Implements.step (h : s.Implements codec a) (w : Wincode) (e : ServerEvent ι)
    (hcarries : ∀ message, s.framing e = some message → codec.Carries message) :
    (s.step codec w e).Implements codec (a.step w (s.exchange e)) := by
  have hclient : ∀ {i : ι} {c : Connection} (e : PeerEvent),
      c.Implements codec ((a.peer i).act e) →
      (s.setConnection i c).Implements codec (a.setPeer i ((a.peer i).act e)) := by
    intro i c e hc
    rw [ExchangeServer.setPeer, ← h.daemon]
    exact h.set s.daemon hc (Peer.line_act_eq_closed e)
  cases e with
  | client i e =>
      refine hclient _ ((h.connection i).client e fun message he => hcarries message ?_)
      rw [he]
      rfl
  | accept i => exact hclient .accept (h.connection i).accept
  | respond i n => exact hclient .skip ((h.connection i).respond n)
  | handle i =>
      have hdone : ∀ response, (s.connection i).handler = .dispatching (.done response) →
          codec.Carries response := by
        intro response hhandler
        refine hcarries response ?_
        simp only [framing, hhandler]
      obtain ⟨hpeer, hdaemon⟩ := (h.connection i).handle w s.daemon hdone
      simp only [Server.step, Server.exchange, ExchangeServer.step, ← h.daemon, ← hdaemon]
      refine h.set _ hpeer fun hclosed => ?_
      rwa [Peer.line_handle] at hclosed
  | stop =>
      refine ⟨h.daemon, fun i => (h.connection i).refuse, fun i hclosed => h.exited i ?_⟩
      simp only [Server.exchange, ExchangeServer.step, Peer.refuse] at hclosed
      split at hclosed
      · cases hclosed
      · exact hclosed
  | exit => exact ⟨h.daemon, fun i => (h.connection i).hangUp, fun _ _ => rfl⟩

theorem implements_run {w : Wincode} (h : s.Implements codec a) {es : List (ServerEvent ι)}
    (hcarries : CarriesRun codec w s es) :
    ∀ k ≤ es.length, (Machine.run (Server.step codec w) s (es.take k)).Implements codec
      (Machine.run (ExchangeServer.step w) a ((exchanges codec w s es).take k)) :=
  Machine.run_relabel_of_guard (R := Server.Implements codec)
    (P := fun s e => ∀ message, s.framing e = some message → codec.Carries message)
    (fun _ _ e he h => h.step w e he) h es hcarries

/-- An outcome of a request is the response with its id, or an error of a daemon that has
refused the connection or ended. -/
def Answered (s : Server ι) (i : ι) (request : ProtocolMessage) :
    Option ProtocolMessage → Prop
  | some response => response.requestId = request.requestId
  | none => (s.connection i).handler = .refused ∨ s.exited = true

omit [DecidableEq ι] in
theorem Implements.answered (h : s.Implements codec a) (hsound : ∀ i, (a.peer i).Sound) {i : ι}
    {request : ProtocolMessage} {outcome : Option ProtocolMessage}
    (hmem : (request, outcome) ∈ (s.connection i).returned) : s.Answered i request outcome := by
  rw [(h.connection i).returned] at hmem
  cases outcome with
  | some response => exact (hsound i).ids request response hmem
  | none =>
      have hlost := (h.connection i).lost ((hsound i).errors request hmem)
      generalize hhandler : (s.connection i).handler = handler at hlost
      generalize hline : (a.peer i).line = line at hlost
      cases hlost with
      | refused => exact .inl hhandler
      | closed => exact .inr (h.exited i hline)

/-- Whatever the order of the accesses of the handlers and of the events of the clients, and
however the bytes come in pieces: at every moment the streams carry the exchanges, as long
as the codec carries the messages. -/
theorem exchanges_of_streams (codec : MessageCodec) (w : Wincode) (uid gid : UInt32)
    {es : List (ServerEvent ι)}
    (hcarries : CarriesRun codec w (.start (newSharedState uid gid)) es) :
    let start := newSharedState uid gid
    let s := fun k => Machine.run (Server.step codec w) (.start start) (es.take k)
    let a := fun k => Machine.run (ExchangeServer.step w) (.start start)
      ((exchanges codec w (.start start) es).take k)
    ∀ k ≤ es.length, (s k).daemon = (a k).daemon ∧
      ∀ i, ((s k).connection i).returned = ((a k).peer i).returned ∧
        ∀ request outcome, (request, outcome) ∈ ((s k).connection i).returned →
          (s k).Answered i request outcome := by
  intro start s a k hk
  have h := implements_run (implements_start start) hcarries k hk
  have hsound : ∀ i, ((a k).peer i).Sound :=
    Machine.run_invariant (I := fun a : ExchangeServer ι => ∀ i, (a.peer i).Sound)
      (fun _ e h => ExchangeServer.sound_step w h e) (fun _ => Peer.Sound.connected) _
  exact ⟨h.daemon, fun i => ⟨(h.connection i).returned, fun _ _ hmem => h.answered hsound hmem⟩⟩

theorem carriesRun_bincode {w : Wincode} {s : Server ι} {es : List (ServerEvent ι)}
    (h : ∀ k (hk : k < es.length),
      ((Machine.run (Server.step .bincode w) s (es.take k)).framing es[k]).all (fun message =>
        (MessageCodec.bincode.toBytes message).length < UInt32.size) = true) :
    CarriesRun .bincode w s es := by
  intro k hk message hmessage
  have hlength := h k hk
  rw [hmessage, Option.all_some, decide_eq_true_iff] at hlength
  exact MessageCodec.carries_bincode hlength

/-- One client gets its response in two pieces; the daemon ends within that to the other. -/
def cutResponse : List (ServerEvent Bool) :=
  [.client false (.send ⟨.ping, [], 7⟩), .client true (.send ⟨.shutdown, [], 8⟩),
    .client false (.write 9), .accept false, .handle false, .client false (.write 100),
    .handle false, .client true (.write 100), .handle false, .respond false 5, .accept true,
    .handle true, .respond false 100, .client false .recv, .handle true, .handle true,
    .respond true 6, .stop, .exit, .client true .recv, .client false (.send ⟨.ping, [], 9⟩),
    .client false (.write 1)]

theorem exchanges_of_cut_response :
    let start := newSharedState 0 0
    let s := fun k =>
      Machine.run (Server.step .bincode .bincode) (.start start) (cutResponse.take k)
    let a := fun k => Machine.run (ExchangeServer.step .bincode) (.start start)
      ((exchanges .bincode .bincode (.start start) cutResponse).take k)
    ∀ k ≤ cutResponse.length, (s k).daemon = (a k).daemon ∧
      ∀ i, ((s k).connection i).returned = ((a k).peer i).returned ∧
        ∀ request outcome, (request, outcome) ∈ ((s k).connection i).returned →
          (s k).Answered i request outcome :=
  exchanges_of_streams .bincode .bincode 0 0 (carriesRun_bincode (by decide +kernel))

example : (fun i : Bool =>
    ((Machine.run (Server.step .bincode .bincode) (.start (newSharedState 0 0))
      cutResponse).connection i).returned.map fun (request, outcome) =>
        (request.requestId, outcome.map fun response => response.requestId)) =
    fun i => if i then [(8, none)] else [(7, some 7), (9, none)] := by
  funext i
  cases i <;> decide +kernel

end Server

end Pseudoroot
