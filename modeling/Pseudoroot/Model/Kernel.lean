import Pseudoroot.Library.Decimal
import Pseudoroot.Model.Stat

/-! # System calls of the hooks

The kernel is a parameter: a state with the system calls that the hooks make on it. -/

namespace Pseudoroot

/-- A C string as the bytes before its terminator, or the null pointer. -/
abbrev CStr := Option (List UInt8)

def atFdcwd : Int32 := -100

def atSymlinkNofollow : Int32 := 0x100

def atEmptyPath : Int32 := 0x1000

def sIfmt : UInt32 := 0o170000

def sIfchr : UInt32 := 0o020000

def sIfblk : UInt32 := 0o060000

def slashByte : UInt8 := 47

/-- How to find the file of an intercepted call. -/
inductive StatSource where
  | path (path : CStr) (nofollow : Bool)
  | fd (fd : Int32)
  | atDir (dirfd : Int32) (path : CStr) (atFlags : Int32)

/-- A buffer of the caller: whether its pointer is null, its size, and the memory from its pointer
on, also past its size. -/
structure Buffer where
  null : Bool
  size : UInt64
  memory : ℕ → UInt8

/-- The null pointer, of size zero. -/
def Buffer.nothing : Buffer := ⟨true, 0, fun _ => 0⟩

/-- A buffer of zeros. -/
def Buffer.blank (size : UInt64) : Buffer := ⟨false, size, fun _ => 0⟩

/-- The first bytes behind a pointer after a call that has written some bytes there. -/
def Buffer.read (buf : Buffer) (written : List UInt8) (count : ℕ) : List UInt8 :=
  (List.range count).map fun i => written[i]?.getD (buf.memory i)

/-- The `real_*` functions. A call that changes the kernel returns its status. -/
structure Kernel (κ : Type) where
  fstatat : κ → Int32 → List UInt8 → Int32 → Except Int32 Stat
  fstat : κ → Int32 → Except Int32 Stat
  /-- `chmod`, `fchmod` or `fchmodat`, by source. -/
  chmod : κ → StatSource → UInt32 → Int32 × κ
  /-- Open for writing, creating a file where there is none. -/
  openCreate : κ → List UInt8 → Bool × κ
  mknod : κ → CStr → UInt32 → UInt64 → Int32 × κ
  mknodat : κ → Int32 → CStr → UInt32 → UInt64 → Int32 × κ
  unlink : κ → CStr → Int32 × κ
  unlinkat : κ → Int32 → CStr → Int32 → Int32 × κ
  rmdir : κ → CStr → Int32 × κ
  rename : κ → CStr → CStr → Int32 × κ
  renameat : κ → Int32 → CStr → Int32 → CStr → Int32 × κ
  renameat2 : κ → Int32 → CStr → Int32 → CStr → UInt32 → Int32 × κ
  /-- The status, and the bytes written to the buffer. -/
  getxattr : κ → StatSource → List UInt8 → Buffer → Int32 × List UInt8
  listxattr : κ → StatSource → Buffer → Int32 × List UInt8

namespace Kernel

variable {κ : Type} (kernel : Kernel κ) (k : κ)

/-! ## Finding a file -/

/-- `fstatat`, with the null pointer as the empty path. -/
def statAt (dirfd : Int32) (path : CStr) (flags : Int32) : Except Int32 Stat :=
  kernel.fstatat k dirfd (path.getD []) flags

def statPath (path : CStr) : Except Int32 Stat := kernel.statAt k atFdcwd path 0

def lstatPath (path : CStr) : Except Int32 Stat := kernel.statAt k atFdcwd path atSymlinkNofollow

def fstatFd (fd : Int32) : Except Int32 Stat := kernel.fstat k fd

end Kernel

/-- Flags of an `*at` call mapped to those of `fstatat`. -/
def chownStatFlags (atFlags : Int32) : Int32 :=
  if atFlags &&& atSymlinkNofollow ≠ 0 then atSymlinkNofollow else 0

def hasEmptyPath (atFlags : Int32) : Bool := atFlags &&& atEmptyPath ≠ 0

/-- The `fstatat` flags for a directory descriptor, a path and the flags of a call. -/
def resolveStatFlags (dirfd : Int32) (path : CStr) (atFlags : Int32) : Int32 :=
  let flags := chownStatFlags atFlags
  if hasEmptyPath atFlags then flags ||| atEmptyPath
  else
    match path with
    | none => flags
    | some bytes =>
      if bytes.isEmpty && dirfd ≠ atFdcwd then flags ||| atEmptyPath else flags

/-- The path of a call on the working directory, if it is not empty and is UTF-8. -/
def resolvePathCwd (path : CStr) : Option (List UInt8) :=
  path.filter fun bytes =>
    !bytes.isEmpty && (String.fromUTF8? (ByteArray.mk bytes.toArray)).isSome

/-- `/proc/self/fd/` -/
def procSelfFd : List UInt8 := [47, 112, 114, 111, 99, 47, 115, 101, 108, 102, 47, 102, 100, 47]

/-- The path of a call on a directory descriptor, as one that can be opened. -/
def resolvePathAt (dirfd : Int32) (path : CStr) : Option (List UInt8) :=
  (resolvePathCwd path).map fun bytes =>
    if dirfd = atFdcwd ∨ bytes.head? = some slashByte then bytes
    else procSelfFd ++ Decimal.bytes dirfd.toInt ++ slashByte :: bytes

def StatSource.stat {κ : Type} (kernel : Kernel κ) (k : κ) : StatSource → Except Int32 Stat
  | .path pathname true => kernel.lstatPath k pathname
  | .path pathname false => kernel.statPath k pathname
  | .fd n => kernel.fstatFd k n
  | .atDir dirfd pathname atFlags =>
    kernel.statAt k dirfd pathname (resolveStatFlags dirfd pathname atFlags)

end Pseudoroot
