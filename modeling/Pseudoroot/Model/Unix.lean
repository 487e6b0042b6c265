import Pseudoroot.Library.FileSystem.Operations
import Pseudoroot.Library.NulList
import Pseudoroot.Model.Kernel

/-! # A Unix kernel

One device with a file tree, and the system calls of the hooks on it. What a call depends
on besides the tree is its environment: the working directory and the open descriptors of
the process, the directories that it may search, and whether a call is refused for a
reason outside this model. -/

namespace Pseudoroot

open FileSystem

/-- The real metadata of an inode. -/
structure Attrs where
  mode : UInt32
  uid : UInt32
  gid : UInt32
  rdev : UInt64
  xattrs : AList fun _ : List UInt8 => List UInt8

abbrev FileTree := Tree UInt64 (List UInt8) Attrs

structure Environment where
  cwd : UInt64
  fds : Int32 → Option UInt64
  search : UInt64 → Bool
  refused : Bool
  /-- Opening a file for writing is refused. -/
  openRefused : Bool
  /-- The number of the next new inode. -/
  fresh : UInt64

structure UnixState where
  tree : FileTree
  dev : UInt64
  /-- The link count that the file system reports for a directory. -/
  dirLinks : FileTree → UInt64 → UInt64
  env : Environment

def dotByte : UInt8 := 46

def parseComponent (bytes : List UInt8) : Component (List UInt8) :=
  if bytes = [dotByte] then .current
  else if bytes = [dotByte, dotByte] then .parent
  else .name bytes

def parsePath (bytes : List UInt8) : Path (List UInt8) where
  absolute := bytes.head? = some slashByte
  components := ((bytes.splitOn slashByte).filter fun part => !part.isEmpty).map parseComponent
  trailingSlash := bytes.getLast? = some slashByte

/-- The descriptor and the path from there that a path means: the one below
`/proc/self/fd/N`, or the given ones. -/
def locate (dirfd : Int32) (bytes : List UInt8) : Except Error (Int32 × List UInt8) :=
  if procSelfFd.isPrefixOf bytes then
    let below := bytes.drop procSelfFd.length
    let number := below.takeWhile (· ≠ slashByte)
    let n := number.foldl (fun (n : ℕ) byte => 10 * n + (byte.toNat - 48)) 0
    -- A number that is none of a descriptor, or one without a path, leads to no file.
    if n < 2 ^ 31 ∧ Decimal.bytes n = number ∧ number.length < below.length then
      .ok (Int32.ofNat n, (below.drop number.length).dropWhile (· = slashByte))
    else .error .enoent
  else .ok (dirfd, bytes)

/-- A file system that has only its root directory, which every path starts from. -/
def UnixState.empty : UnixState where
  tree :=
    { root := 1
      inodes := AList.singleton 1 ⟨.dir 1 ∅, 1, ⟨0o040755, 0, 0, 0, ∅⟩⟩ }
  dev := 1
  dirLinks := fun _ _ => 2
  env :=
    { cwd := 1
      fds := fun _ => none
      search := fun _ => true
      refused := false
      openRefused := false
      fresh := 2 }

namespace UnixState

variable (k : UnixState)

def reportedLinks (i : UInt64) : UInt64 :=
  if k.tree.isDir i then k.dirLinks k.tree i
  else ((k.tree.inodes.lookup i).map fun node => UInt64.ofNat node.nlink).getD 0

/-- The status of a failed call. -/
def failure : Int32 := -1

def statInode (i : UInt64) : Except Int32 Stat :=
  match k.tree.inodes.lookup i with
  | none => .error failure
  | some node => .ok
    { dev := k.dev
      ino := i
      mode := node.attrs.mode
      nlink := k.reportedLinks i
      uid := node.attrs.uid
      gid := node.attrs.gid
      rdev := node.attrs.rdev }

def descriptor (dirfd : Int32) : Option UInt64 :=
  if dirfd = atFdcwd then some k.env.cwd else k.env.fds dirfd

/-- Where a path begins for a directory descriptor. -/
def base (dirfd : Int32) (path : Path (List UInt8)) : Except Error UInt64 :=
  if path.absolute then .ok k.tree.root
  else (k.descriptor dirfd).elim (.error .enotdir) .ok

/-- Where a path begins, with the path from there. -/
def located (dirfd : Int32) (bytes : List UInt8) : Except Error (UInt64 × Path (List UInt8)) := do
  let (dirfd, bytes) ← locate dirfd bytes
  let base ← k.base dirfd (parsePath bytes)
  pure (base, parsePath bytes)

/-- An operation at a path. -/
def atPath {α : Type} (dirfd : Int32) (path : CStr)
    (op : UInt64 → Path (List UInt8) → Except Error α) : Except Error α :=
  match path with
  | none => .error .enoent
  | some bytes => do
    let (base, path) ← k.located dirfd bytes
    op base path

def resolve (follow : Bool) (dirfd : Int32) (path : List UInt8) : Except Error UInt64 :=
  k.atPath dirfd (some path) (k.tree.resolve k.env.search follow)

def fstatat (dirfd : Int32) (path : List UInt8) (flags : Int32) : Except Int32 Stat :=
  if path.isEmpty && flags &&& atEmptyPath ≠ 0 then
    (k.descriptor dirfd).elim (.error failure) k.statInode
  else
    match k.resolve (flags &&& atSymlinkNofollow = 0) dirfd path with
    | .ok i => k.statInode i
    | .error _ => .error failure

/-- The status of a call that changes the tree, with the new state. -/
def finish (refused : Bool) (result : Except Error FileTree) : Int32 × UnixState :=
  match refused, result with
  | false, .ok tree => (0, { k with tree := tree })
  | _, _ => (failure, k)

/-- A call on one path. -/
def onPath (dirfd : Int32) (path : CStr)
    (op : UInt64 → Path (List UInt8) → Except Error FileTree) : Int32 × UnixState :=
  k.finish k.env.refused (k.atPath dirfd path op)

/-- A call on two paths. -/
def onPaths (olddirfd : Int32) (oldpath : CStr) (newdirfd : Int32) (newpath : CStr)
    (op : UInt64 → Path (List UInt8) → UInt64 → Path (List UInt8) → Except Error FileTree) :
    Int32 × UnixState :=
  k.onPath olddirfd oldpath fun oldBase old =>
    k.atPath newdirfd newpath (op oldBase old)

/-! ## Calls that the library does not intercept -/

def newAttrs (mode : UInt32) (rdev : UInt64) : Attrs := ⟨mode, 0, 0, rdev, ∅⟩

def sIfdir : UInt32 := 0o040000

def sIflnk : UInt32 := 0o120000

def sIfreg : UInt32 := 0o100000

def sIfsock : UInt32 := 0o140000

def isSocket (i : UInt64) : Bool :=
  ((k.tree.inodes.lookup i).map fun node => node.attrs.mode &&& sIfmt) = some sIfsock

/-- The file that is opened at a path, or where one is created. A socket cannot be opened. -/
def openTarget (base : UInt64) (path : Path (List UInt8)) :
    Except Error (UInt64 ⊕ UInt64 × List UInt8) :=
  match k.tree.openTarget k.env.search base path with
  | .ok (.inl i) => if k.isSocket i then .error .enxio else .ok (.inl i)
  | target => target

def creat (path : CStr) (mode : UInt32) : Int32 × UnixState :=
  k.finish k.env.openRefused <| k.atPath atFdcwd path fun base path => do
    let _ ← k.openTarget base path
    k.tree.openCreate k.env.search base path k.env.fresh (newAttrs (sIfreg ||| mode) 0)

def mkdir (path : CStr) (mode : UInt32) : Int32 × UnixState :=
  k.onPath atFdcwd path fun base path =>
    k.tree.create k.env.search base path k.env.fresh (fun d => .dir d ∅)
      (newAttrs (sIfdir ||| mode) 0)

def symlink (target path : CStr) : Int32 × UnixState :=
  k.onPath atFdcwd path fun base path =>
    match target with
    | some (byte :: bytes) =>
      k.tree.create k.env.search base path k.env.fresh
        (fun _ => .symlink (parsePath (byte :: bytes))) (newAttrs (sIflnk ||| 0o777) 0)
    | _ => .error .enoent

def link (oldpath newpath : CStr) : Int32 × UnixState :=
  k.onPaths atFdcwd oldpath atFdcwd newpath (k.tree.link k.env.search)

/-! ## Calls of the hooks -/

/-- The file whose mode a call changes. -/
def chmodTarget : StatSource → Except Error UInt64
  | .path path _ => k.atPath atFdcwd path (k.tree.resolve k.env.search true)
  -- The system call takes no flags: it follows symbolic links whatever they are.
  | .atDir dirfd path _ => k.atPath dirfd path (k.tree.resolve k.env.search true)
  | .fd fd => (k.env.fds fd).elim (.error .enoent) .ok

def chmod (source : StatSource) (mode : UInt32) : Int32 × UnixState :=
  k.finish k.env.refused ((k.chmodTarget source).map fun i =>
    k.tree.setAttrs i fun attrs => { attrs with mode := Ownership.composeMode attrs.mode mode })

def openCreate (path : List UInt8) : Bool × UnixState :=
  let (status, k) := k.creat (some path) 0o644
  (status = 0, k)

def sIfifo : UInt32 := 0o010000

/-- The mode of a file that is made, if it can be of the type: without type bits it is a
regular file. -/
def madeMode (mode : UInt32) : Except Error UInt32 :=
  let kind := mode &&& sIfmt
  if kind = 0 then .ok (sIfreg ||| mode)
  else if kind ∈ [sIfreg, sIfchr, sIfblk, sIfifo, sIfsock] then .ok mode
  else .error .einval

def mknodat (dirfd : Int32) (path : CStr) (mode : UInt32) (dev : UInt64) : Int32 × UnixState :=
  k.onPath dirfd path fun base path => do
    let mode ← madeMode mode
    k.tree.create k.env.search base path k.env.fresh (fun _ => .file) (newAttrs mode dev)

def mknod (path : CStr) (mode : UInt32) (dev : UInt64) : Int32 × UnixState :=
  k.mknodat atFdcwd path mode dev

def unlink (path : CStr) : Int32 × UnixState :=
  k.onPath atFdcwd path (k.tree.unlink k.env.search)

def rmdir (path : CStr) : Int32 × UnixState :=
  k.onPath atFdcwd path (k.tree.rmdir k.env.search)

def atRemovedir : Int32 := 0x200

def unlinkat (dirfd : Int32) (path : CStr) (flags : Int32) : Int32 × UnixState :=
  k.onPath dirfd path <|
    if flags = 0 then k.tree.unlink k.env.search
    else if flags = atRemovedir then k.tree.rmdir k.env.search
    else fun _ _ => .error .einval

def renameat (olddirfd : Int32) (oldpath : CStr) (newdirfd : Int32) (newpath : CStr) :
    Int32 × UnixState :=
  k.onPaths olddirfd oldpath newdirfd newpath (k.tree.rename k.env.search)

def rename (oldpath newpath : CStr) : Int32 × UnixState :=
  k.renameat atFdcwd oldpath atFdcwd newpath

def renameNoreplace : UInt32 := 1

def renameExchange : UInt32 := 2

def renameat2 (olddirfd : Int32) (oldpath : CStr) (newdirfd : Int32) (newpath : CStr)
    (flags : UInt32) : Int32 × UnixState :=
  k.onPaths olddirfd oldpath newdirfd newpath <|
    if flags = 0 then k.tree.rename k.env.search
    else if flags = renameNoreplace then fun oldBase old newBase new => do
      let _ ← k.tree.freeName k.env.search newBase new
      k.tree.rename k.env.search oldBase old newBase new
    else if flags = renameExchange then k.tree.exchange k.env.search
    else fun _ _ _ _ => .error .einval

/-! ## Extended attributes -/

/-- What a call returns that fills a buffer of the caller, or its length for an empty one. -/
def fill (bytes : List UInt8) (buf : Buffer) : Int32 × List UInt8 :=
  if buf.size = 0 then (Int32.ofNat bytes.length, [])
  else if bytes.length > buf.size.toNat ∨ (buf.null ∧ bytes ≠ []) then (failure, [])
  else (Int32.ofNat bytes.length, bytes)

/-- The real attributes of a file. -/
def xattrsOf (source : StatSource) : Option (AList fun _ : List UInt8 => List UInt8) :=
  let found : Except Error UInt64 := match source with
    | .path path nofollow => k.atPath atFdcwd path (k.tree.resolve k.env.search !nofollow)
    | .atDir dirfd path _ => k.atPath dirfd path (k.tree.resolve k.env.search true)
    | .fd fd => (k.env.fds fd).elim (.error .enoent) .ok
  match found with
  | .ok i => (k.tree.inodes.lookup i).map fun node => node.attrs.xattrs
  | .error _ => none

def getxattr (source : StatSource) (name : List UInt8) (buf : Buffer) : Int32 × List UInt8 :=
  match (k.xattrsOf source).bind fun xattrs => xattrs.lookup name with
  | some value => fill value buf
  | none => (failure, [])

def listxattr (source : StatSource) (buf : Buffer) : Int32 × List UInt8 :=
  match k.xattrsOf source with
  | some xattrs => fill (NulList.join xattrs.keys) buf
  | none => (failure, [])

end UnixState

def unixKernel : Kernel UnixState where
  fstatat := UnixState.fstatat
  fstat k fd := (k.env.fds fd).elim (.error UnixState.failure) k.statInode
  chmod := UnixState.chmod
  openCreate := UnixState.openCreate
  mknod := UnixState.mknod
  mknodat := UnixState.mknodat
  unlink := UnixState.unlink
  unlinkat := UnixState.unlinkat
  rmdir := UnixState.rmdir
  rename := UnixState.rename
  renameat := UnixState.renameat
  renameat2 := UnixState.renameat2
  getxattr := UnixState.getxattr
  listxattr := UnixState.listxattr

end Pseudoroot
