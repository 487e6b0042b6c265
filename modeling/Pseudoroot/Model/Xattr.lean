import Pseudoroot.Library.NulList
import Pseudoroot.Model.Kernel

/-! # Hooks on extended attributes -/

namespace Pseudoroot

def einval : Int32 := 22

def erange : Int32 := 34

def maxXattr : ℕ := 64 * 1024

namespace Ownership

variable {κ : Type} (w : Wincode) (kernel : Kernel κ) (k : κ)

/-- The string behind a pointer, if that is not null and the string is UTF-8. -/
def readCstr (ptr : CStr) : Option String :=
  ptr.bind fun bytes => String.fromUTF8? (ByteArray.mk bytes.toArray)

/-- The value behind a pointer, which is as long as its size says. -/
def readXattrValue (value : CStr) : List UInt8 :=
  (value.getD []).take maxXattr

/-- The status and the bytes that end up in the buffer. -/
def writeXattrValue (value : List UInt8) (buf : Buffer) : Int32 × List UInt8 :=
  if buf.size = 0 then (Int32.ofNat value.length, [])
  else if value.length > buf.size.toNat then (-erange, [])
  else (Int32.ofNat value.length, if buf.null then [] else value)

/-- The bytes of a string. -/
def asBytes (s : String) : List UInt8 := s.toByteArray.data.toList

/-- Add a name that is not there yet. -/
def pushName (names : List (List UInt8)) (name : String) : List (List UInt8) :=
  if names.contains (asBytes name) then names else names ++ [asBytes name]

/-- The real names, and the extra ones that are not among them. -/
def mergeXattrLists (realList : List UInt8) (extra : List String) : List UInt8 :=
  NulList.join (extra.foldl pushName (NulList.split realList))

def writeXattrList (blob : List UInt8) (list : Buffer) : Int32 × List UInt8 :=
  writeXattrValue blob list

def fakeSetxattr (source : StatSource) (name value : CStr) : Hook Int32 := do
  ensureLibraryInit w
  match readCstr name with
  | none => pure (-einval)
  | some name =>
    match source.stat kernel k with
    | .ok st => do
      recordXattrForKey w (keyFromStat st) name (readXattrValue value)
      pure 0
    | .error errno => pure errno

def fakeGetxattr (source : StatSource) (name : CStr) (value : Buffer) :
    Hook (Int32 × List UInt8) := do
  ensureLibraryInit w
  match readCstr name with
  | none => pure (-einval, [])
  | some nameKey =>
    let real := kernel.getxattr k source (name.getD []) value
    match source.stat kernel k with
    | .ok st => do
      let found ← getInode w (keyFromStat st)
      match found.bind fun inode => inode.xattrs[nameKey]? with
      | some stored => pure (writeXattrValue stored value)
      | none => pure real
    | .error _ => pure real

/-- The extra names come in the order of a hash map; a tree map stands for it. As many bytes as
the real call returns are read back, also where it has written none. -/
def fakeListxattr (source : StatSource) (list : Buffer) : Hook (Int32 × List UInt8) := do
  ensureLibraryInit w
  let extra ← match source.stat kernel k with
    | .ok st => do
      let found ← getInode w (keyFromStat st)
      pure ((found.map fun inode => inode.xattrs.keys).getD [])
    | .error _ => pure []
  let (realRet, written) := kernel.listxattr k source list
  if extra.isEmpty then pure (realRet, written)
  else
    let realList :=
      if realRet > 0 ∧ !list.null then list.read written realRet.toNatClampNeg else []
    pure (writeXattrList (mergeXattrLists realList extra) list)

def fakeRemovexattr (source : StatSource) (name : CStr) : Hook Int32 := do
  ensureLibraryInit w
  match readCstr name with
  | none => pure (-einval)
  | some name =>
    match source.stat kernel k with
    | .ok st => do
      removeXattrForKey w (keyFromStat st) name
      pure 0
    | .error errno => pure errno

end Ownership

/-! ## Hooks -/

open Ownership

variable {κ : Type} (w : Wincode) (kernel : Kernel κ) (k : κ)

def setxattr (path name value : CStr) (_flags : Int32) : Hook Int32 :=
  fakeSetxattr w kernel k (.path path false) name value

def lsetxattr (path name value : CStr) (_flags : Int32) : Hook Int32 :=
  fakeSetxattr w kernel k (.path path true) name value

def fsetxattr (fd : Int32) (name value : CStr) (_flags : Int32) : Hook Int32 :=
  fakeSetxattr w kernel k (.fd fd) name value

def getxattr (path name : CStr) (value : Buffer) : Hook (Int32 × List UInt8) :=
  fakeGetxattr w kernel k (.path path false) name value

def lgetxattr (path name : CStr) (value : Buffer) : Hook (Int32 × List UInt8) :=
  fakeGetxattr w kernel k (.path path true) name value

def fgetxattr (fd : Int32) (name : CStr) (value : Buffer) : Hook (Int32 × List UInt8) :=
  fakeGetxattr w kernel k (.fd fd) name value

def listxattr (path : CStr) (list : Buffer) : Hook (Int32 × List UInt8) :=
  fakeListxattr w kernel k (.path path false) list

def llistxattr (path : CStr) (list : Buffer) : Hook (Int32 × List UInt8) :=
  fakeListxattr w kernel k (.path path true) list

def flistxattr (fd : Int32) (list : Buffer) : Hook (Int32 × List UInt8) :=
  fakeListxattr w kernel k (.fd fd) list

def removexattr (path name : CStr) : Hook Int32 :=
  fakeRemovexattr w kernel k (.path path false) name

def lremovexattr (path name : CStr) : Hook Int32 :=
  fakeRemovexattr w kernel k (.path path true) name

def fremovexattr (fd : Int32) (name : CStr) : Hook Int32 :=
  fakeRemovexattr w kernel k (.fd fd) name

end Pseudoroot
