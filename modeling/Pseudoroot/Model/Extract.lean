import Pseudoroot.Library.FileSystem.Publish
import Pseudoroot.Model.Command

/-! # The extracted library

The program carries the interposed library. It writes it to a directory of the cache that is
named by a hash of its content, unless it is there. -/

namespace Pseudoroot

open Calls Publish

/-! ## Paths -/

/-- `Path::join`. -/
def joinPath (base name : String) : String :=
  if name.toList.head? = some '/' then name
  else if base = "" ∨ base.toList.getLast? = some '/' then base ++ name
  else base ++ "/" ++ name

/-- `Path::components`: the root, a leading `.`, and the names. -/
def pathComponents (path : String) : List (List Char) :=
  let parts := path.toList.splitOn '/'
  let names := parts.filter fun part => part ≠ [] ∧ part ≠ ['.']
  if path.toList.head? = some '/' then ['/'] :: names
  else if parts.head? = some ['.'] then ['.'] :: names
  else names

/-- `Path::starts_with`. -/
def pathStartsWith (path base : String) : Bool :=
  (pathComponents base).isPrefixOf (pathComponents path)

/-- `{:016x}`. -/
def hex016 (hash : UInt64) : String :=
  String.ofList ((Nat.toDigits 16 hash.toNat).leftpad 16 '0')

/-! ## Where the library is extracted to -/

/-- What one call of `extract_embedded_lib` finds: its process and the library of its build. -/
structure Extraction where
  platform : Platform
  env : EnvVars
  /-- The directory for temporary files where no variable names one. -/
  systemTempDir : String
  uid : UInt32
  pid : UInt32
  embeddedLib : List UInt8

namespace Extraction

variable (x : Extraction)

/-- `env::temp_dir`. -/
def tempDir : String := (x.env "TMPDIR").getD x.systemTempDir

def cacheRoot : String :=
  match (x.env "XDG_CACHE_HOME").filter (· ≠ "") with
  | some xdg => xdg
  | none =>
    match x.env "HOME" with
    | some home => joinPath home ".cache"
    | none => x.tempDir

def libName : String :=
  match x.platform with
  | .macos => "libpseudoroot_lib.dylib"
  | .linux => "libpseudoroot_lib.so"

def embedRoot : String :=
  let dir := joinPath (joinPath x.cacheRoot "pseudoroot") "embed"
  if pathStartsWith dir x.tempDir then joinPath dir ("uid-" ++ toString x.uid) else dir

/-- `hash` is the finished `DefaultHasher` of the library. -/
def hashName (hash : List UInt8 → UInt64) : String := hex016 (hash x.embeddedLib)

def embedDir (hash : List UInt8 → UInt64) : String :=
  joinPath x.embedRoot (x.hashName hash)

def tempName : String := "." ++ x.libName ++ "." ++ toString x.pid ++ ".tmp"

variable {D ε : Type} (hash : List UInt8 → UInt64) (place : String → D)

def libPath : String := joinPath (x.embedDir hash) x.libName

/-- The library in the directory that the path leads to. -/
def target : D × String := (place (x.embedDir hash), x.libName)

def temp : D × String := (place (x.embedDir hash), x.tempName)

/-- `extract_embedded_lib`. `writeZero` is the error of a write that writes nothing. -/
def extractEmbeddedLib (writeZero : ε) : Program (calls (D × String) UInt8 ε) (Except ε String) :=
  .call (.stat (x.target hash place)) fun pathExists =>
    match pathExists with
    | true => .done (.ok (x.libPath hash))
    | false =>
      .call (.makeDir (x.target hash place)) fun made => onOk made fun _ =>
        writeFile writeZero (x.temp hash place) x.embeddedLib >>= fun written =>
          onOk written fun _ =>
            .call (.rename (x.temp hash place) (x.target hash place)) fun renamed =>
              onOk renamed fun _ => .done (.ok (x.libPath hash))

end Extraction

end Pseudoroot
