import Pseudoroot.Library.Codec
import Pseudoroot.Model.Protocol
import Pseudoroot.Model.ShmMap

/-! # The wincode encoding, bincode compatible

Integers are little-endian with their own width, strings, byte vectors and maps carry
an eight-byte count, options and Booleans one tag byte, and the fields of a struct
follow each other in the order of their declaration. -/

namespace Pseudoroot

open Codec

/-- The encoding of `HashMap<String, Vec<u8>>`. -/
def wincodeXattrs : Codec XattrMap :=
  treeMap text bytes

def XattrCodec.wincode : XattrCodec where
  serialize xattrs := some (wincodeXattrs.put xattrs)
  deserialize := wincodeXattrs.decode

/-! ## Payloads -/

def wincodeInodeKey : Codec InodeKeyPayload :=
  (u64.pair u64).map (fun (dev, ino) => ⟨dev, ino⟩) (fun v => (v.dev, v.ino)) (fun _ => rfl)

def wincodeInodeState : Codec InodeStatePayload :=
  (u64.pair (u64.pair (u32.pair (u32.pair ((option u32).pair ((option u64).pair
      wincodeXattrs)))))).map
    (fun (dev, ino, uid, gid, mode, rdev, xattrs) => ⟨dev, ino, uid, gid, mode, rdev, xattrs⟩)
    (fun v => (v.dev, v.ino, v.uid, v.gid, v.mode, v.rdev, v.xattrs)) (fun _ => rfl)

def wincodeInodeStateResult : Codec InodeStateResult :=
  (bool.pair (u32.pair (u32.pair ((option u32).pair ((option u64).pair wincodeXattrs))))).map
    (fun (found, uid, gid, mode, rdev, xattrs) => ⟨found, uid, gid, mode, rdev, xattrs⟩)
    (fun v => (v.found, v.uid, v.gid, v.mode, v.rdev, v.xattrs)) (fun _ => rfl)

def wincodeUidGid : Codec UidGidPayload :=
  (u32.pair u32).map (fun (uid, gid) => ⟨uid, gid⟩) (fun v => (v.uid, v.gid)) (fun _ => rfl)

def wincodeChown : Codec ChownPayload :=
  (u64.pair (u64.pair (u32.pair (u32.pair (u32.pair u32))))).map
    (fun (dev, ino, uid, gid, du, dg) => ⟨dev, ino, uid, gid, du, dg⟩)
    (fun v => (v.dev, v.ino, v.uid, v.gid, v.defaultUid, v.defaultGid)) (fun _ => rfl)

def IpcPayload.ofCodec {α : Type} (c : Codec α) : IpcPayload α :=
  ⟨c.put, c.decode⟩

def Wincode.bincode : Wincode where
  inodeKey := .ofCodec wincodeInodeKey
  inodeState := .ofCodec wincodeInodeState
  inodeStateResult := .ofCodec wincodeInodeStateResult
  uidGid := .ofCodec wincodeUidGid
  chown := .ofCodec wincodeChown

theorem Wincode.bincode_lawful : Wincode.bincode.Lawful where
  inodeKey := wincodeInodeKey.decode_put
  inodeState := wincodeInodeState.decode_put
  inodeStateResult := wincodeInodeStateResult.decode_put
  uidGid := wincodeUidGid.decode_put
  chown := wincodeChown.decode_put

/-! ## Messages -/

/-- The index of a variant in the declaration of `MessageType`. -/
def MessageType.variantIndex : MessageType → UInt32
  | registerOwnership => 0
  | setCurrentUidGid => 1
  | getCurrentUidGid => 2
  | ping => 3
  | response => 4
  | error => 5
  | getOwnership => 6
  | removeOwnership => 7
  | init => 8
  | upsertChown => 9
  | shutdown => 10

def MessageType.ofVariantIndex (index : UInt32) : Option MessageType :=
  [registerOwnership, setCurrentUidGid, getCurrentUidGid, ping, response, error, getOwnership,
    removeOwnership, init, upsertChown, shutdown][index.toNat]?

theorem MessageType.ofVariantIndex_variantIndex (messageType : MessageType) :
    ofVariantIndex messageType.variantIndex = some messageType := by
  cases messageType <;> rfl

def wincodeMessageType : Codec MessageType :=
  u32.filterMap MessageType.ofVariantIndex MessageType.variantIndex
    MessageType.ofVariantIndex_variantIndex

def wincodeMessage : Codec ProtocolMessage :=
  (wincodeMessageType.pair (bytes.pair u64)).map
    (fun (messageType, payload, requestId) => ⟨messageType, payload, requestId⟩)
    (fun v => (v.messageType, v.payload, v.requestId)) (fun _ => rfl)

def MessageCodec.bincode : MessageCodec where
  toBytes := wincodeMessage.put
  fromBytes := wincodeMessage.decode

theorem MessageCodec.carries_bincode {message : ProtocolMessage}
    (h : (bincode.toBytes message).length < UInt32.size) : bincode.Carries message :=
  ⟨h, wincodeMessage.decode_put message⟩

end Pseudoroot
