import Pseudoroot.Verification.Session.Targets

/-! # The descendants of a target

Programs that the target runs, and programs that those run, find the same backing. -/

namespace Pseudoroot

open Command

/-- The command leaves the variables of a session alone. -/
def Command.KeepsSession (cmd : Command) : Prop :=
  ∀ key ∈ [shmFdEnv, shmLenEnv, daemonSocketEnv], cmd.envs[key]? = none

section Descendants

variable {codec : XattrCodec} {backing : SessionBacking} {target image : Image}

end Descendants

theorem Command.KeepsSession.env {cmd : Command} (h : cmd.KeepsSession) {key : String}
    (hkey : key ∉ [shmFdEnv, shmLenEnv, daemonSocketEnv]) (val : String) :
    (cmd.env key val).KeepsSession := by
  intro k hk
  have hne : k ≠ key := fun heq => hkey (heq ▸ hk)
  have hset := congrFun (getElem?_envs_env cmd key val) k
  rw [Function.update_of_ne hne] at hset
  exact hset.trans (h k hk)

theorem Command.KeepsSession.applyPreload {cmd : Command} (h : cmd.KeepsSession)
    (platform : Platform) (process : EnvVars) (libPath : String) :
    (applyPreload platform process cmd libPath).KeepsSession := by
  have hdefault : ∀ {cmd : Command} {key : String}, cmd.KeepsSession →
      key ∉ [shmFdEnv, shmLenEnv, daemonSocketEnv] →
      (ensureDefaultEnv process cmd key "0").KeepsSession := by
    intro cmd key hcmd hkey
    rw [ensureDefaultEnv_eq]
    split
    · exact hcmd.env hkey "0"
    · exact hcmd
  rw [applyPreload_eq]
  refine ((hdefault (hdefault h ?_) ?_).env ?_ _)
  · decide
  · decide
  · cases platform <;> decide

end Pseudoroot
