import Pseudoroot.Model.State

/-! # IPC messages -/

namespace Pseudoroot

inductive MessageType where
  | registerOwnership
  | setCurrentUidGid
  | getCurrentUidGid
  | ping
  | response
  | error
  | getOwnership
  | removeOwnership
  | init
  | upsertChown
  | shutdown
  deriving DecidableEq

structure ProtocolMessage where
  messageType : MessageType
  payload : List UInt8
  /-- Request ID for matching responses. -/
  requestId : UInt64
  deriving DecidableEq

namespace ProtocolMessage

def response (requestId : UInt64) (payload : List UInt8) : ProtocolMessage :=
  ⟨.response, payload, requestId⟩

def error (requestId : UInt64) (errorMessage : String) : ProtocolMessage :=
  ⟨.error, errorMessage.toUTF8.toList, requestId⟩

end ProtocolMessage

/-! ## Payloads -/

/-- Inode identity, for lookups and removals. -/
structure InodeKeyPayload where
  dev : UInt64
  ino : UInt64

/-- Full metadata, sent with `RegisterOwnership`. -/
structure InodeStatePayload where
  dev : UInt64
  ino : UInt64
  uid : UInt32
  gid : UInt32
  mode : Option UInt32
  rdev : Option UInt64
  xattrs : XattrMap

/-- The answer to `GetOwnership`; the fields mean nothing unless `found` is set. -/
structure InodeStateResult where
  found : Bool
  uid : UInt32
  gid : UInt32
  mode : Option UInt32
  rdev : Option UInt64
  xattrs : XattrMap

structure UidGidPayload where
  uid : UInt32
  gid : UInt32

/-- A chown to merge, sent with `UpsertChown`. -/
structure ChownPayload where
  dev : UInt64
  ino : UInt64
  uid : UInt32
  gid : UInt32
  defaultUid : UInt32
  defaultGid : UInt32

/-- Serialization of one payload type. -/
structure IpcPayload (α : Type) where
  toPayload : α → List UInt8
  fromPayload : List UInt8 → Option α

/-- The wincode encodings of the payload types. -/
structure Wincode where
  inodeKey : IpcPayload InodeKeyPayload
  inodeState : IpcPayload InodeStatePayload
  inodeStateResult : IpcPayload InodeStateResult
  uidGid : IpcPayload UidGidPayload
  chown : IpcPayload ChownPayload

/-- Decoding undoes encoding, for every payload type. -/
structure Wincode.Lawful (w : Wincode) : Prop where
  inodeKey : ∀ v, w.inodeKey.fromPayload (w.inodeKey.toPayload v) = some v
  inodeState : ∀ v, w.inodeState.fromPayload (w.inodeState.toPayload v) = some v
  inodeStateResult : ∀ v, w.inodeStateResult.fromPayload (w.inodeStateResult.toPayload v) = some v
  uidGid : ∀ v, w.uidGid.fromPayload (w.uidGid.toPayload v) = some v
  chown : ∀ v, w.chown.fromPayload (w.chown.toPayload v) = some v

/-- `to_bytes` and `from_bytes`, the wincode encoding of whole messages. -/
structure MessageCodec where
  toBytes : ProtocolMessage → List UInt8
  fromBytes : List UInt8 → Option ProtocolMessage

/-- The bytes of the message fit in a frame, and decode to the message again. -/
structure MessageCodec.Carries (codec : MessageCodec) (message : ProtocolMessage) : Prop where
  length_lt : (codec.toBytes message).length < UInt32.size
  fromBytes_toBytes : codec.fromBytes (codec.toBytes message) = some message

end Pseudoroot
