import Pseudoroot.Library.Layers
import Std.Data.ExtTreeMap

/-! # Commands under fakeroot

The environment of a child is that of the process with the changes of the command applied.
Names and values are Unicode strings. -/

namespace Pseudoroot

/-- The environment of a process. -/
abbrev EnvVars := String → Option String

/-- `std::process::Command` without its stdio. A variable in `envs` is set to a value or
explicitly removed. -/
structure Command where
  program : String
  args : List String
  envs : Std.ExtTreeMap String (Option String)
  currentDir : Option String

inductive Platform where
  | linux
  | macos
  deriving DecidableEq

namespace Command

def new (program : String) : Command where
  program := program
  args := []
  envs := ∅
  currentDir := none

def env (cmd : Command) (key val : String) : Command :=
  { cmd with envs := cmd.envs.insert key (some val) }

def envRemove (cmd : Command) (key : String) : Command :=
  { cmd with envs := cmd.envs.insert key none }

def getEnvs (cmd : Command) : List (String × Option String) :=
  cmd.envs.toList

/-- The environment of the child when `process` runs the command. -/
def childEnv (process : EnvVars) (cmd : Command) : EnvVars :=
  Layers.apply process (cmd.envs[·]?)

end Command

/-! ## Variables -/

/-- Marks a process re-executed to supervise a fakeroot session. -/
def superviseVar : String := "__PSEUDOROOT_SUPERVISE"

/-- Opt out of session supervision and use per-process state only. -/
def standaloneEnv : String := "PSEUDOROOT_STANDALONE"

def daemonSocketEnv : String := "PSEUDOROOT_DAEMON_SOCKET"

/-- Override for the interposed library path. -/
def libPathEnv : String := "PSEUDOROOT_LIB"

/-- The preload variable of the platform. -/
def Platform.envVarName : Platform → String
  | linux => "LD_PRELOAD"
  | macos => "DYLD_INSERT_LIBRARIES"

/-! ## Lookups -/

def commandHasEnv (cmd : Command) (key : String) : Bool :=
  cmd.getEnvs.any fun (k, v) => k == key && v.isSome

def envInCommand (cmd : Command) (key : String) : Option String :=
  cmd.getEnvs.findSome? fun (k, v) => if k == key then v else none

def sessionSupervisionEnabled (process : EnvVars) (cmd : Command) : Bool :=
  if (process superviseVar).isSome then false
  else if commandHasEnv cmd daemonSocketEnv || (process daemonSocketEnv).isSome then false
  else if commandHasEnv cmd standaloneEnv || (process standaloneEnv).isSome then false
  else true

/-! ## Changes to the environment -/

def ensureDefaultEnv (process : EnvVars) (cmd : Command) (key default : String) : Command :=
  if !commandHasEnv cmd key && (process key).isNone then cmd.env key default else cmd

def applyPreload (platform : Platform) (process : EnvVars) (cmd : Command)
    (libPath : String) : Command :=
  let cmd := ensureDefaultEnv process cmd "PSEUDOROOT_UID" "0"
  let cmd := ensureDefaultEnv process cmd "PSEUDOROOT_GID" "0"
  let envVarValue :=
    match envInCommand cmd platform.envVarName with
    | some existing => existing ++ ":" ++ libPath
    | none =>
      match process platform.envVarName with
      | some existing => existing ++ ":" ++ libPath
      | none => libPath
  cmd.env platform.envVarName envVarValue

/-! ## Rewriting a command -/

end Pseudoroot
