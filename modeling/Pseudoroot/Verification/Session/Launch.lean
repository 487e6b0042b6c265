import Pseudoroot.Model.Launch
import Pseudoroot.Verification.Session.Environment
import Pseudoroot.Verification.Session.Table
import Pseudoroot.Verification.Session.Credentials
import Pseudoroot.Verification.ShmMap.ObjectBytes

/-! # From a command under fakeroot to its target

The target runs what the command said. Its library finds the backing that the supervisor
created, and starts with the ids that the backing has. -/

namespace Pseudoroot

open Command Calls Calls.Program

/-! ## Numbers -/

theorem parseU32_toString (v : UInt32) : parseU32 (toString v.toNat) = some v := by
  have hlt := v.toNat_lt
  rw [parseU32, parseUsize_toString (by omega)]
  simpa [Option.filter] using hlt

/-- The default of a variable that holds a number is what an absent one is read as. -/
theorem envU32_of_default {process env : EnvVars} {key : String}
    (h : env key = some ((process key).getD "0")) : envU32 env key 0 = envU32 process key 0 := by
  rw [envU32, envU32, h]
  cases process key with
  | none =>
      have hzero : parseU32 "0" = some 0 := parseU32_toString 0
      show (parseU32 "0").getD 0 = 0
      rw [hzero, Option.getD_some]
  | some value => rfl

/-! ## The environment of the target -/

section Command

variable {process : EnvVars} {cmd : Command} {key : String}

end Command

/-- The variables that name a backing. -/
def SessionBacking.env (backing : SessionBacking) (process : EnvVars) : EnvVars :=
  match backing with
  | .shm map fd =>
    Function.update (Function.update process shmFdEnv (some (toString fd.val))) shmLenEnv
      (some (toString map.len))
  | .daemon _ socketPath => Function.update process daemonSocketEnv (some socketPath)

/-- The environment of a target whose supervisor was to pass on `process`. -/
structure TargetEnv (platform : Platform) (process : EnvVars) (libPath : String)
    (backing : SessionBacking) (env : EnvVars) : Prop where
  marker : env superviseVar = none
  uid : env "PSEUDOROOT_UID" = some ((process "PSEUDOROOT_UID").getD "0")
  gid : env "PSEUDOROOT_GID" = some ((process "PSEUDOROOT_GID").getD "0")
  preload : env platform.envVarName =
    some (preloadValue (process platform.envVarName) libPath)
  others : ∀ key, key ≠ superviseVar → key ≠ "PSEUDOROOT_UID" → key ≠ "PSEUDOROOT_GID" →
    key ≠ platform.envVarName → env key = backing.env process key

theorem Platform.envVarName_ne_session (platform : Platform) :
    platform.envVarName ≠ superviseVar ∧ platform.envVarName ≠ shmFdEnv ∧
      platform.envVarName ≠ shmLenEnv ∧ platform.envVarName ≠ daemonSocketEnv := by
  cases platform <;> decide

namespace SessionBacking

def kind : SessionBacking → Backing
  | .shm _ _ => .shm
  | .daemon _ _ => .daemon

/-- The current ids of the backing. -/
def ids : SessionBacking → UInt32 × UInt32
  | .shm map _ => (map.currentUid, map.currentGid)
  | .daemon d _ => (d.state.currentUid, d.state.currentGid)

/-- The backing is as a supervisor creates it. -/
def Created (os : SessionOs) (uid gid : UInt32) : SessionBacking → Prop
  | .shm map fd =>
    ShmInodeMap.create os.overflowChecks os.shm sessionSlotCount uid gid = .ok map ∧ fd = os.shmFd
  | .daemon d _ => d = newSharedState uid gid

variable {os : SessionOs} {uid gid : UInt32} {backing : SessionBacking}

theorem Created.ids_eq (h : backing.Created os uid gid) : backing.ids = (uid, gid) := by
  cases backing with
  | shm map fd =>
      rw [ids, eq_initHeader_of_create_eq_ok h.1]
      rfl
  | daemon d socketPath =>
      have hd : d = newSharedState uid gid := h
      subst hd
      rfl

end SessionBacking

/-- Every system call of `from_fd` succeeds. -/
abbrev FromFdOs.succeeds : FromFdOs := ⟨true, true, true⟩

namespace TargetEnv

variable {platform : Platform} {process env : EnvVars} {libPath : String}
  {backing : SessionBacking}

theorem congr (h : TargetEnv platform process libPath backing env) {process' : EnvVars}
    (hprocess : ∀ key, key ≠ superviseVar → process key = process' key) :
    TargetEnv platform process' libPath backing env := by
  constructor
  case marker => exact h.marker
  case uid => rw [h.uid, hprocess _ (by decide)]
  case gid => rw [h.gid, hprocess _ (by decide)]
  case preload => rw [h.preload, hprocess _ platform.envVarName_ne_session.1]
  case others =>
    intro key hkey huid hgid hname
    rw [h.others key hkey huid hgid hname]
    cases backing <;>
      simp only [SessionBacking.env, Function.update, eq_rec_constant, dite_eq_ite, hprocess key hkey]

/-- The variables of a session are those of the backing. -/
theorem session (h : TargetEnv platform process libPath backing env) :
    env shmFdEnv = backing.env process shmFdEnv ∧ env shmLenEnv = backing.env process shmLenEnv ∧
      env daemonSocketEnv = backing.env process daemonSocketEnv := by
  obtain ⟨-, hfd, hlen, hsocket⟩ := platform.envVarName_ne_session
  refine ⟨h.others _ ?_ ?_ ?_ hfd.symm, h.others _ ?_ ?_ ?_ hlen.symm,
    h.others _ ?_ ?_ ?_ hsocket.symm⟩ <;> decide

theorem bootUid (h : TargetEnv platform process libPath backing env) :
    envU32 env "PSEUDOROOT_UID" 0 = envU32 process "PSEUDOROOT_UID" 0 :=
  envU32_of_default h.uid

theorem bootGid (h : TargetEnv platform process libPath backing env) :
    envU32 env "PSEUDOROOT_GID" 0 = envU32 process "PSEUDOROOT_GID" 0 :=
  envU32_of_default h.gid

end TargetEnv

/-- The session of the target, with whatever else the model of a session holds. -/
def SessionBacking.Backs (backing : SessionBacking) (s : Session sessionSlots) : Prop :=
  match backing with
  | .shm map _ => s.shm = map
  | .daemon d _ => s.daemon = d

theorem SessionBacking.Backs.ids_eq {backing : SessionBacking} {s : Session sessionSlots}
    (h : backing.Backs s) : s.ids backing.kind = backing.ids := by
  cases backing with
  | shm map fd =>
      have hs : s.shm = map := h
      subst hs
      rfl
  | daemon d socketPath =>
      have hs : s.daemon = d := h
      subst hs
      rfl

end Pseudoroot
