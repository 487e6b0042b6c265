import Pseudoroot.Library.Calls.Program
import Pseudoroot.Model.ShmStores

/-! # Functions of the shared map as single accesses

Processes reach the map by loads and stores of single words and by copies from and to
pages. A word of 32 bits is loaded into the low half. -/

namespace Pseudoroot

open Calls (Signature Handler Program)

/-- The value of a field. -/
def Slot.get (slot : Slot) : SlotWord → UInt64
  | .occupied => slot.occupied.toUInt64
  | .dev => slot.dev
  | .ino => slot.ino
  | .uid => slot.uid.toUInt64
  | .gid => slot.gid.toUInt64
  | .mode => slot.mode.toUInt64
  | .rdev => slot.rdev

inductive ShmAccess (n : ℕ) where
  | load (index : Fin n) (word : SlotWord)
  /-- The length prefix of a page. -/
  | loadPrefix (index : Fin n)
  /-- The `len` bytes after the prefix. -/
  | loadBody (index : Fin n) (len : ℕ)
  | store (s : ShmStore n)

@[reducible] def ShmAccess.Reply {n : ℕ} : ShmAccess n → Type
  | .load _ _ => UInt64
  | .loadPrefix _ => ℕ
  | .loadBody _ _ => List UInt8
  | .store _ => Unit

abbrev accessSignature (n : ℕ) : Signature where
  Call := ShmAccess n
  Reply := ShmAccess.Reply

def ShmInodeMap.access {n : ℕ} : Handler (accessSignature n) (ShmInodeMap n) := fun access map =>
  match access with
  | .load index word => ((map.slot index).get word, map)
  | .loadPrefix index => ((map.xattrPage index).lengthPrefix, map)
  | .loadBody index len => ((map.xattrPage index).body len, map)
  | .store s => ((), s.apply map)

section Programs

variable {n : ℕ}

def load (index : Fin n) (word : SlotWord) : Program (accessSignature n) UInt64 :=
  Program.send (S := accessSignature n) (.load index word)

def loadPrefix (index : Fin n) : Program (accessSignature n) ℕ :=
  Program.send (S := accessSignature n) (.loadPrefix index)

def loadBody (index : Fin n) (len : ℕ) : Program (accessSignature n) (List UInt8) :=
  Program.send (S := accessSignature n) (.loadBody index len)

/-- The loop of `probe`. The key of a slot is compared when the slot is live. -/
def probeProgram (key : InodeKey) :
    ℕ → Fin n → Option (Fin n) → Program (accessSignature n) (Probe n)
  | 0, _, _ => pure .full
  | fuel + 1, idx, reuse => do
    let occupied ← load idx .occupied
    if occupied.toUInt32 = slotEmpty then pure (.vacant (reuse.getD idx))
    else if occupied.toUInt32 = slotLive then do
      let dev ← load idx .dev
      if dev = key.1 then do
        let ino ← load idx .ino
        if ino = key.2 then pure (.found idx)
        else probeProgram key fuel (LinearProbing.next idx) reuse
      else probeProgram key fuel (LinearProbing.next idx) reuse
    else
      let reuse' := if occupied.toUInt32 = slotTombstone ∧ reuse.isNone then some idx else reuse
      probeProgram key fuel (LinearProbing.next idx) reuse'

/-- `read_xattrs`. -/
def readXattrsProgram (codec : XattrCodec) (index : Fin n) :
    Program (accessSignature n) XattrMap := do
  let len ← loadPrefix index
  if len = 0 ∨ len > xattrPageSize - 4 then pure ∅
  else do
    let body ← loadBody index len
    pure ((codec.deserialize body).getD ∅)

/-- `get_inode` once its probe has found a slot. -/
def readSlotProgram (codec : XattrCodec) (idx : Fin n) : Program (accessSignature n) FakeInode := do
  let uid ← load idx .uid
  let gid ← load idx .gid
  let mode ← load idx .mode
  let rdev ← load idx .rdev
  let xattrs ← readXattrsProgram codec idx
  pure
    { FakeInode.new uid.toUInt32 gid.toUInt32 with
      mode := if mode.toUInt32 ≠ 0 then some mode.toUInt32 else none
      rdev := if rdev ≠ 0 then some rdev else none
      xattrs := xattrs }

/-- `get_inode`. -/
def getInodeProgram [NeZero n] (codec : XattrCodec) (key : InodeKey) :
    Program (accessSignature n) (Option FakeInode) := do
  let outcome ← probeProgram key n (ShmInodeMap.hash key) none
  match outcome with
  | .found idx => do
    let inode ← readSlotProgram codec idx
    pure (some inode)
  | _ => pure none

end Programs

end Pseudoroot
