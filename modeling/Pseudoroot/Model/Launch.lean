import Mathlib.Data.Int.Notation
import Pseudoroot.Model.Command
import Pseudoroot.Model.Process
import Pseudoroot.Model.ShmStores

/-! # Sessions from launch to target

A command under fakeroot runs the program again as a supervisor. The supervisor creates the
backing of a session and runs the target with a preloaded library, which finds the backing
through the environment. -/

namespace Pseudoroot

/-! ## Numbers in variables -/

/-- `str::parse::<u32>`. -/
def parseU32 (value : String) : Option UInt32 :=
  ((parseUsize value).filter (· < 2 ^ 32)).map UInt32.ofNat

/-- `str::parse::<i32>`: a sign or none, then decimal digits. -/
def parseI32 (value : String) : Option ℤ :=
  match value.toList with
  | '-' :: '+' :: _ => none
  | '-' :: digits => ((parseUsize (String.ofList digits)).filter (· ≤ 2 ^ 31)).map fun v => -(v : ℤ)
  | _ => ((parseUsize value).filter (· < 2 ^ 31)).map fun v => (v : ℤ)

def envU32 (process : EnvVars) (key : String) (default : UInt32) : UInt32 :=
  ((process key).bind parseU32).getD default

/-! ## Process images -/

/-- What a program finds when it starts. -/
structure Image where
  args : List String
  env : EnvVars
  /-- The changes of directory that led to its working directory. -/
  dirs : List String
  /-- The shared objects behind the descriptors that are open across `exec`. -/
  objects : ℕ → Option (List UInt8)

/-- The child that runs a command. -/
def Image.child (parent : Image) (cmd : Command) : Image where
  args := cmd.program :: cmd.args
  env := cmd.childEnv parent.env
  dirs := parent.dirs ++ cmd.currentDir.toList
  objects := parent.objects

/-! ## Finding the library -/

/-- The library named by the override when it exists, else the extracted copy. `extracted` is the
result of `extract_embedded_lib`. -/
def libraryPath (pathExists : String → Bool) (extracted : Except String String)
    (process : EnvVars) : Option String :=
  match (process libPathEnv).filter pathExists with
  | some path => some path
  | none => extracted.toOption

/-! ## The session -/

/-- Holds the descriptor of the inherited map. -/
def shmFdEnv : String := "PSEUDOROOT_SHM_FD"

/-- Holds the byte length of the shared map. -/
def shmLenEnv : String := "PSEUDOROOT_SHM_LEN"

/-- Disable the shared map of sessions and use a daemon instead. -/
def sessionShmEnv : String := "PSEUDOROOT_SESSION_SHM"

def sessionShmEnabled (process : EnvVars) : Bool :=
  match process sessionShmEnv with
  | some value => value ≠ "0" && value.toList.map Char.toLower ≠ "false".toList
  | none => true

/-- The entries that a session's map is created for. -/
abbrev sessionSlotCount : UInt32 := 65536

abbrev sessionSlots : ℕ := tableSlotCount sessionSlotCount

inductive SessionBacking where
  | shm (map : ShmInodeMap sessionSlots) (fd : Fin (2 ^ 31))
  | daemon (state : DaemonState) (socketPath : String)

/-- What the system and the libraries answer to a supervisor. -/
structure SessionOs where
  pathExists : String → Bool
  extracted : Except String String
  /-- `TempDir::new`. -/
  tempDir : Except String String
  overflowChecks : Bool
  shm : ShmOs
  lastOsError : String
  /-- The descriptor of the map. -/
  shmFd : Fin (2 ^ 31)
  /-- `SessionDaemon::start`. -/
  daemonStart : Except String Unit

def CreateError.text (os : SessionOs) : CreateError → String
  | .invalidInput text => text
  | .lastOsError => os.lastOsError

inductive SessionLaunch where
  | panicked
  | err (text : String)
  /-- The backing is there, and this command is to be run. -/
  | ready (backing : SessionBacking) (target : Command)

/-- The command of the target, once the backing is there. -/
def sessionCommand (platform : Platform) (process : EnvVars) (backing : SessionBacking)
    (libPath program : String) (args : List String) : Command :=
  let cmd := { Command.new program with args := args }
  -- The marker must be removed, or a target would supervise its own arguments.
  let cmd := cmd.envRemove superviseVar
  let cmd :=
    match backing with
    | .shm map fd => (cmd.env shmFdEnv (toString fd.val)).env shmLenEnv (toString map.len)
    | .daemon _ socketPath => cmd.env daemonSocketEnv socketPath
  applyPreload platform process cmd libPath

/-- `run_session` before it runs the target. -/
def runSession (platform : Platform) (os : SessionOs) (process : EnvVars) :
    List String → SessionLaunch
  | [] => .err "no program given to pseudoroot session"
  | program :: args =>
    match libraryPath os.pathExists os.extracted process with
    | none =>
      .err ("could not find libpseudoroot_lib.so — build with " ++
        "`cargo build -p pseudoroot-lib` or set " ++ libPathEnv)
    | some libPath =>
      let uid := envU32 process "PSEUDOROOT_UID" 0
      let gid := envU32 process "PSEUDOROOT_GID" 0
      match os.tempDir with
      | .error err => .err ("failed to create session dir: " ++ err)
      | .ok socketDir =>
        if sessionShmEnabled process then
          match ShmInodeMap.create os.overflowChecks os.shm sessionSlotCount uid gid with
          | .panicked => .panicked
          | .err err => .err ("failed to create session shm map: " ++ err.text os)
          | .ok map =>
            let backing := .shm map os.shmFd
            .ready backing (sessionCommand platform process backing libPath program args)
        else
          let socketPath := socketDir ++ "/pseudoroot.sock"
          match os.daemonStart with
          | .error err => .err ("failed to start session daemon: " ++ err)
          | .ok () =>
            let backing := .daemon (newSharedState uid gid) socketPath
            .ready backing (sessionCommand platform process backing libPath program args)

/-- How `init` ends. -/
inductive InitOutcome where
  | returned
  | exited (code : ℤ) (stderr : Option String)
  deriving DecidableEq

/-- Become the supervisor when the marker is set. `status` runs a command; its exit code is
missing when a signal ended it. -/
def init (platform : Platform) (os : SessionOs) (image : Image)
    (status : Command → Except String (Option ℤ)) : InitOutcome :=
  if (image.env superviseVar).isNone then .returned
  else
    match runSession platform os image.env (image.args.drop 1) with
    | .panicked => .exited 101 none
    | .err text => .exited 1 (some ("pseudoroot: " ++ text))
    | .ready _ target =>
      match status target with
      | .ok code => .exited (code.getD 1) none
      | .error err =>
        .exited 1 (some ("pseudoroot: failed to execute supervised command: " ++ err))

/-- The object of a session's map, as `create` leaves it. -/
def SessionBacking.objects (backing : SessionBacking) (inherited : ℕ → Option (List UInt8)) :
    ℕ → Option (List UInt8) :=
  match backing with
  | .shm map fd =>
    Function.update inherited fd.val
      (some (ShmInodeMap.createdObject sessionSlots map.len map.currentUid map.currentGid))
  | .daemon _ _ => inherited

/-- What `from_fd` makes of the inherited descriptor, when the variable holds a number. -/
def Image.inheritedMap (os : FromFdOs) (image : Image) : Option (Σ n, FromFdOutcome n) := do
  let fd ← (image.env shmFdEnv).bind parseI32
  let object ← fd.toNat?.bind image.objects
  some ⟨_, InheritedMap.fromFd os (image.env shmLenEnv) object⟩

/-- The process after the constructor of the library. -/
def Image.process (os : FromFdOs) (image : Image) : Process :=
  let loaded := Process.load
    (match image.inheritedMap os with
      | some ⟨_, .ok _⟩ => true
      | _ => false)
    (image.env daemonSocketEnv).isSome
  loaded.storeBootstrapIds (envU32 image.env "PSEUDOROOT_UID" 0)
    (envU32 image.env "PSEUDOROOT_GID" 0)

/-! ## The command line -/

end Pseudoroot
