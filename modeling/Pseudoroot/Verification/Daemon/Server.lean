import Pseudoroot.Verification.Daemon.Framing

/-! # One client of the server

What `handle_client` does with the bytes of a client, whatever they are. -/

namespace Pseudoroot

open Framing

/-! ## One message -/

/-- The payload does not have the shape of the type, or no client sends this type. -/
def ProtocolMessage.Refused (w : Wincode) (message : ProtocolMessage) : Prop :=
  match message.messageType with
  | .ping | .getCurrentUidGid | .shutdown => False
  | .setCurrentUidGid | .init => w.uidGid.fromPayload message.payload = none
  | .registerOwnership => w.inodeState.fromPayload message.payload = none
  | .upsertChown => w.chown.fromPayload message.payload = none
  | .getOwnership | .removeOwnership => w.inodeKey.fromPayload message.payload = none
  | .response | .error => True

section Dispatch

variable {w : Wincode} {message : ProtocolMessage} (daemon : DaemonState)

/-- A refused message is answered with an error and has no effect. -/
theorem dispatchMessage_of_refused (h : message.Refused w) :
    ∃ text, dispatchMessage w message daemon = (.error message.requestId text, daemon) := by
  obtain ⟨messageType, payload, requestId⟩ := message
  cases messageType with
  | ping | getCurrentUidGid | shutdown => cases h
  | response | error => exact ⟨_, rfl⟩
  | setCurrentUidGid | init | registerOwnership | upsertChown | getOwnership | removeOwnership =>
      simp only [ProtocolMessage.Refused] at h
      exact ⟨_, by simp only [dispatchMessage, h]; rfl⟩

theorem dispatchMessage_of_not_refused (h : ¬ message.Refused w) :
    ∃ payload daemon', dispatchMessage w message daemon =
      (.response message.requestId payload, daemon') := by
  obtain ⟨messageType, payload, requestId⟩ := message
  cases messageType with
  | ping | getCurrentUidGid | shutdown => exact ⟨_, _, rfl⟩
  | response | error => exact absurd trivial h
  | setCurrentUidGid | init | registerOwnership | upsertChown | getOwnership | removeOwnership =>
      obtain ⟨v, hv⟩ := Option.ne_none_iff_exists'.mp h
      exact ⟨_, _, by simp only [dispatchMessage, hv]; rfl⟩

theorem requestId_dispatchMessage :
    (dispatchMessage w message daemon).1.requestId = message.requestId := by
  by_cases h : message.Refused w
  · obtain ⟨text, heq⟩ := dispatchMessage_of_refused daemon h
    rw [heq]
    rfl
  · obtain ⟨payload, daemon', heq⟩ := dispatchMessage_of_not_refused daemon h
    rw [heq]
    rfl

/-- The response is an error exactly when the message is refused. -/
theorem dispatchMessage_eq_error_iff :
    (dispatchMessage w message daemon).1.messageType = .error ↔ message.Refused w := by
  by_cases h : message.Refused w
  · obtain ⟨text, heq⟩ := dispatchMessage_of_refused daemon h
    simp [heq, h, ProtocolMessage.error]
  · obtain ⟨payload, daemon', heq⟩ := dispatchMessage_of_not_refused daemon h
    simp [heq, h, ProtocolMessage.response]

theorem dispatchMessage_of_error (h : (dispatchMessage w message daemon).1.messageType = .error) :
    (dispatchMessage w message daemon).2 = daemon := by
  obtain ⟨text, heq⟩ :=
    dispatchMessage_of_refused daemon ((dispatchMessage_eq_error_iff daemon).mp h)
  rw [heq]

/-- Messages that ask and change nothing. -/
def MessageType.Asks : MessageType → Prop
  | .ping | .getCurrentUidGid | .getOwnership => True
  | _ => False

theorem dispatchMessage_of_asks (h : message.messageType.Asks) :
    (dispatchMessage w message daemon).2 = daemon := by
  obtain ⟨messageType, payload, requestId⟩ := message
  cases messageType with
  | ping | getCurrentUidGid => rfl
  | getOwnership =>
      cases hkey : w.inodeKey.fromPayload payload <;> simp only [dispatchMessage, hkey]
  | _ => cases h

end Dispatch

/-! ## All messages of a client -/

/-- Answer messages one after the other. -/
def dispatchAll (w : Wincode) :
    List ProtocolMessage → DaemonState → List ProtocolMessage × DaemonState
  | [], daemon => ([], daemon)
  | message :: messages, daemon =>
    let (response, daemon) := dispatchMessage w message daemon
    let (responses, daemon) := dispatchAll w messages daemon
    (response :: responses, daemon)

section Client

variable (w : Wincode) {fromBytes : List UInt8 → Option ProtocolMessage}

theorem dispatchAll_state (messages : List ProtocolMessage) (daemon : DaemonState) :
    (dispatchAll w messages daemon).2 =
      messages.foldl (fun daemon message => (dispatchMessage w message daemon).2) daemon := by
  induction messages generalizing daemon with
  | nil => rfl
  | cons message messages ih => exact ih _

theorem requestId_dispatchAll (messages : List ProtocolMessage) (daemon : DaemonState) :
    (dispatchAll w messages daemon).1.map (fun response => response.requestId) =
      messages.map fun message => message.requestId := by
  induction messages generalizing daemon with
  | nil => rfl
  | cons message messages ih =>
      simp only [dispatchAll, List.map_cons, requestId_dispatchMessage, ih]

/-- The loop answers the messages that are read from the stream, and no more. -/
theorem handleClientLoop_of_reads {stream rest : List UInt8} {messages : List ProtocolMessage}
    (h : Reads 4 fromBytes stream messages rest) (daemon : DaemonState) {fuel : ℕ}
    (hfuel : stream.length ≤ fuel) :
    handleClientLoop fromBytes w fuel stream daemon = dispatchAll w messages daemon := by
  induction h generalizing daemon fuel with
  | @stop stream hstop =>
      cases fuel with
      | zero => rfl
      | succ fuel =>
          cases hread : readFramed stream with
          | none => simp only [handleClientLoop, hread, dispatchAll]
          | some r => simp only [handleClientLoop, hread, hstop r.1 r.2 hread, dispatchAll]
  | @next stream bytes _ _ _ _ hframe hdecode _ ih =>
      have hlt := length_lt_of_unframe hframe
      rw [← readFramed_eq_unframe] at hframe
      cases fuel with
      | zero => omega
      | succ fuel =>
          have hfuel' := Nat.le_of_lt_succ (hlt.trans_le hfuel)
          have hrest := fun daemon => ih daemon hfuel'
          simp only [handleClientLoop, hframe, hdecode, hrest, dispatchAll]

end Client

/-- The frames at the front of a stream that are messages, up to the first that is not
complete or does not decode. -/
structure ReadsMessages (fromBytes : List UInt8 → Option ProtocolMessage) (stream : List UInt8)
    (frames : List (List UInt8)) (messages : List ProtocolMessage) (rest : List UInt8) : Prop where
  stream_eq : stream = frames.flatMap (frame 4) ++ rest
  complete : ∀ bytes ∈ frames, bytes.length < 2 ^ 32
  decode : frames.map fromBytes = messages.map some
  stop : ∀ buf rest', readFramed rest = some (buf, rest') → fromBytes buf = none
  longest : ∀ (frames' : List (List UInt8)) (messages' : List ProtocolMessage) rest',
    stream = frames'.flatMap (frame 4) ++ rest' → (∀ bytes ∈ frames', bytes.length < 2 ^ 32) →
    frames'.map fromBytes = messages'.map some → messages' <+: messages ∧ rest <:+ rest'

theorem exists_readsMessages (fromBytes : List UInt8 → Option ProtocolMessage)
    (stream : List UInt8) : ∃ frames messages rest,
      ReadsMessages fromBytes stream frames messages rest ∧
      Reads 4 fromBytes stream messages rest := by
  obtain ⟨messages, rest, hreads⟩ := exists_reads (k := 4) fromBytes stream
  obtain ⟨⟨frames, hstream, hfits, hdecode⟩, hstop⟩ := hreads.split
  exact ⟨frames, messages, rest,
    ⟨hstream, hfits, hdecode, hstop, fun _ _ _ => hreads.longest⟩, hreads⟩

/-- A client is served frame by frame, whatever it sends: one response for each message in
order, and nothing from the first frame on that is not a message. A response that is an
error means that the message had no effect. -/
theorem handleClient_serves_frames (fromBytes : List UInt8 → Option ProtocolMessage) (w : Wincode)
    (stream : List UInt8) (daemon : DaemonState) :
    ∃ frames messages rest, ReadsMessages fromBytes stream frames messages rest ∧
      (handleClient fromBytes w stream daemon).1 = (dispatchAll w messages daemon).1 ∧
      (handleClient fromBytes w stream daemon).1.map (fun response => response.requestId) =
        messages.map (fun message => message.requestId) ∧
      (handleClient fromBytes w stream daemon).2 =
        messages.foldl (fun daemon message => (dispatchMessage w message daemon).2) daemon ∧
      ∀ (message : ProtocolMessage) (before : DaemonState),
        ((dispatchMessage w message before).1.messageType = .error ↔ message.Refused w) ∧
        ((dispatchMessage w message before).1.messageType = .error →
          (dispatchMessage w message before).2 = before) ∧
        (message.messageType.Asks → (dispatchMessage w message before).2 = before) := by
  obtain ⟨frames, messages, rest, hmessages, hreads⟩ := exists_readsMessages fromBytes stream
  have hserve : handleClient fromBytes w stream daemon = dispatchAll w messages daemon :=
    handleClientLoop_of_reads w hreads daemon (Nat.le_refl _)
  refine ⟨frames, messages, rest, hmessages, ?_, ?_, ?_, ?_⟩
  · rw [hserve]
  · rw [hserve, requestId_dispatchAll]
  · rw [hserve, dispatchAll_state]
  · intro message before
    exact ⟨dispatchMessage_eq_error_iff before, dispatchMessage_of_error before,
      dispatchMessage_of_asks before⟩

end Pseudoroot
