import Pseudoroot.Library.Codec
import Pseudoroot.Model.Command

/-! # The environment that the child will have -/

namespace Pseudoroot

open Command

variable {process : EnvVars} {cmd base : Command} {key : String}

/-! ## Changes of a command -/

namespace Command

theorem getElem?_envs_env (cmd : Command) (key val : String) :
    ((cmd.env key val).envs[·]?) =
      Function.update (cmd.envs[·]?) key (some (some val)) := by
  funext k
  by_cases hk : k = key
  · subst hk
    simp [env]
  · have hne : key ≠ k := Ne.symm hk
    simp [env, Std.ExtTreeMap.getElem?_insert, Function.update_of_ne hk, hne]

/-- Setting a variable on the command sets it for the child. -/
theorem childEnv_env (process : EnvVars) (cmd : Command) (key val : String) :
    (cmd.env key val).childEnv process =
      Function.update (cmd.childEnv process) key (some val) := by
  rw [childEnv, getElem?_envs_env, Layers.apply_update]
  rfl

theorem mem_getEnvs {val : Option String} :
    (key, val) ∈ cmd.getEnvs ↔ cmd.envs[key]? = some val :=
  Std.ExtTreeMap.mem_toList_iff_getElem?_eq_some

end Command

/-! ## Copies of a command -/

theorem envInCommand_eq (cmd : Command) (key : String) :
    envInCommand cmd key = cmd.envs[key]?.join := by
  cases hfound : envInCommand cmd key with
  | some val =>
      obtain ⟨⟨k, v⟩, hmem, hk⟩ := List.exists_of_findSome?_eq_some hfound
      simp only [beq_iff_eq, Option.ite_none_right_eq_some] at hk
      obtain ⟨rfl, rfl⟩ := hk
      rw [mem_getEnvs.mp hmem, Option.join_some]
  | none =>
      cases hval : cmd.envs[key]? with
      | none => rfl
      | some v =>
          have hentry := List.findSome?_eq_none_iff.mp hfound (key, v) (mem_getEnvs.mpr hval)
          simpa using hentry.symm

theorem commandHasEnv_eq (cmd : Command) (key : String) :
    commandHasEnv cmd key = cmd.envs[key]?.join.isSome := by
  rw [Bool.eq_iff_iff, commandHasEnv, List.any_eq_true, Option.isSome_iff_exists]
  constructor
  · rintro ⟨⟨k, v⟩, hmem, hk⟩
    simp only [Bool.and_eq_true, beq_iff_eq] at hk
    obtain ⟨rfl, hv⟩ := hk
    rw [mem_getEnvs.mp hmem, Option.join_some]
    exact Option.isSome_iff_exists.mp hv
  · rintro ⟨val, hval⟩
    have henvs : cmd.envs[key]? = some (some val) := Option.join_eq_some_iff.mp hval
    exact ⟨(key, some val), mem_getEnvs.mpr henvs, by simp⟩

/-- A variable of the command or, unless the command sets it, of the process. -/
def foundEnv (process : EnvVars) (cmd : Command) : EnvVars :=
  Layers.lookup process (cmd.envs[·]?)

/-- The command removes a variable that the process has. -/
def RemovesInherited (process : EnvVars) (cmd : Command) (key : String) : Prop :=
  Layers.Hides process (cmd.envs[·]?) key

/-- The code finds what the child will have unless the command removes it. -/
theorem foundEnv_eq_childEnv (h : ¬ RemovesInherited process cmd key) :
    foundEnv process cmd key = cmd.childEnv process key :=
  Layers.lookup_eq_apply h

theorem RemovesInherited.childEnv_eq_none (h : RemovesInherited process cmd key) :
    cmd.childEnv process key = none :=
  Layers.Hides.apply_eq h

theorem RemovesInherited.foundEnv_ne_none (h : RemovesInherited process cmd key) :
    foundEnv process cmd key ≠ none := by
  rw [foundEnv, Layers.Hides.lookup_eq h]
  exact h.2

theorem foundEnv_env_of_ne {other : String} (process : EnvVars) (cmd : Command) (val : String)
    (h : key ≠ other) : foundEnv process (cmd.env other val) key = foundEnv process cmd key := by
  simp only [foundEnv, getElem?_envs_env, Layers.lookup, Function.update_of_ne h]

/-- All three lookups find the same variables. -/
theorem has_eq (process : EnvVars) (cmd : Command) (key : String) :
    (commandHasEnv cmd key || (process key).isSome) = (foundEnv process cmd key).isSome := by
  rw [commandHasEnv_eq, foundEnv, Layers.lookup, Option.isSome_or]

theorem sessionSupervisionEnabled_iff :
    sessionSupervisionEnabled process cmd = true ↔ process superviseVar = none ∧
      foundEnv process cmd daemonSocketEnv = none ∧ foundEnv process cmd standaloneEnv = none := by
  rw [sessionSupervisionEnabled, has_eq, has_eq]
  cases process superviseVar <;> cases foundEnv process cmd daemonSocketEnv <;>
    cases foundEnv process cmd standaloneEnv <;> simp

theorem ensureDefaultEnv_eq (process : EnvVars) (cmd : Command) (key default : String) :
    ensureDefaultEnv process cmd key default =
      if foundEnv process cmd key = none then cmd.env key default else cmd := by
  have hhas := has_eq process cmd key
  rw [ensureDefaultEnv]
  cases hfound : foundEnv process cmd key with
  | none =>
      rw [hfound, Option.isSome_none, Bool.or_eq_false_iff] at hhas
      simp [hhas.1, Option.isSome_eq_false_iff.mp hhas.2]
  | some val =>
      rw [hfound, Option.isSome_some, Bool.or_eq_true] at hhas
      rcases hhas with hcmd | hprocess
      · simp [hcmd]
      · simp [Option.isSome_iff_ne_none.mp hprocess]

/-! ## Defaults -/

theorem foundEnv_ensureDefaultEnv_of_ne {other d : String} (h : key ≠ other) :
    foundEnv process (ensureDefaultEnv process cmd other d) key = foundEnv process cmd key := by
  rw [ensureDefaultEnv_eq]
  split
  · exact foundEnv_env_of_ne process cmd d h
  · rfl

theorem childEnv_ensureDefaultEnv_of_ne {other default : String} (h : key ≠ other) :
    (ensureDefaultEnv process cmd other default).childEnv process key =
      cmd.childEnv process key := by
  rw [ensureDefaultEnv_eq]
  split
  · rw [childEnv_env, Function.update_of_ne h]
  · rfl

theorem childEnv_ensureDefaultEnv_self (process : EnvVars) (cmd : Command)
    (key default : String) :
    (ensureDefaultEnv process cmd key default).childEnv process key =
      if foundEnv process cmd key = none then some default else cmd.childEnv process key := by
  rw [ensureDefaultEnv_eq]
  split
  · rw [childEnv_env, Function.update_self]
  · rfl

/-- The default is set exactly where the child has no value, unless the command removes one. -/
theorem defaulted_iff {default : String} :
    (if foundEnv process cmd key = none then some default else cmd.childEnv process key) =
        some ((cmd.childEnv process key).getD default) ↔
      ¬ RemovesInherited process cmd key := by
  constructor
  · intro heq h
    rw [if_neg h.foundEnv_ne_none, h.childEnv_eq_none] at heq
    cases heq
  · intro h
    rw [foundEnv_eq_childEnv h]
    cases hval : cmd.childEnv process key with
    | none => rw [if_pos rfl, Option.getD_none]
    | some val => rw [if_neg (by simp), Option.getD_some]

/-! ## The preload variable -/

/-- The value of the preload variable over an existing one. -/
def preloadValue (existing : Option String) (libPath : String) : String :=
  (existing.map fun existing => existing ++ ":" ++ libPath).getD libPath

theorem preloadValue_some_ne (existing libPath : String) :
    preloadValue (some existing) libPath ≠ preloadValue none libPath := by
  intro heq
  have hlength := congrArg String.length heq
  have hcolon : ":".length = 1 := rfl
  simp only [preloadValue, Option.map_some, Option.map_none, Option.getD_some, Option.getD_none,
    String.length_append] at hlength
  omega

theorem preloadValue_foundEnv_iff {libPath : String} :
    preloadValue (foundEnv process cmd key) libPath =
        preloadValue (cmd.childEnv process key) libPath ↔
      ¬ RemovesInherited process cmd key := by
  constructor
  · intro heq h
    obtain ⟨existing, hfound⟩ := Option.ne_none_iff_exists'.mp h.foundEnv_ne_none
    rw [hfound, h.childEnv_eq_none] at heq
    exact preloadValue_some_ne existing libPath heq
  · intro h
    rw [foundEnv_eq_childEnv h]

theorem Platform.envVarName_ne (platform : Platform) :
    platform.envVarName ≠ "PSEUDOROOT_UID" ∧ platform.envVarName ≠ "PSEUDOROOT_GID" := by
  cases platform <;> decide

theorem applyPreload_eq (platform : Platform) (process : EnvVars) (cmd : Command)
    (libPath : String) :
    applyPreload platform process cmd libPath =
      (ensureDefaultEnv process (ensureDefaultEnv process cmd "PSEUDOROOT_UID" "0")
        "PSEUDOROOT_GID" "0").env platform.envVarName
        (preloadValue (foundEnv process cmd platform.envVarName) libPath) := by
  rw [← foundEnv_ensureDefaultEnv_of_ne (d := "0") platform.envVarName_ne.1,
    ← foundEnv_ensureDefaultEnv_of_ne (d := "0") platform.envVarName_ne.2]
  simp only [applyPreload, foundEnv, Layers.lookup, ← envInCommand_eq]
  generalize ensureDefaultEnv process _ "PSEUDOROOT_GID" "0" = cmd
  cases envInCommand cmd platform.envVarName with
  | some existing => rfl
  | none => cases process platform.envVarName <;> rfl

theorem childEnv_applyPreload (platform : Platform) (process : EnvVars) (cmd : Command)
    (libPath : String) :
    (applyPreload platform process cmd libPath).childEnv process =
      Function.update
        ((ensureDefaultEnv process (ensureDefaultEnv process cmd "PSEUDOROOT_UID" "0")
          "PSEUDOROOT_GID" "0").childEnv process)
        platform.envVarName
        (some (preloadValue (foundEnv process cmd platform.envVarName) libPath)) := by
  rw [applyPreload_eq, childEnv_env]

/-! ## The child of the rewritten command -/

section Child

variable {platform : Platform} {libPath : String}

theorem childEnv_applyPreload_preload :
    (applyPreload platform process cmd libPath).childEnv process platform.envVarName =
      some (preloadValue (foundEnv process cmd platform.envVarName) libPath) := by
  rw [childEnv_applyPreload, Function.update_self]

theorem childEnv_applyPreload_uid :
    (applyPreload platform process cmd libPath).childEnv process "PSEUDOROOT_UID" =
      if foundEnv process cmd "PSEUDOROOT_UID" = none then some "0"
      else cmd.childEnv process "PSEUDOROOT_UID" := by
  rw [childEnv_applyPreload, Function.update_of_ne platform.envVarName_ne.1.symm,
    childEnv_ensureDefaultEnv_of_ne (by decide), childEnv_ensureDefaultEnv_self]

theorem childEnv_applyPreload_gid :
    (applyPreload platform process cmd libPath).childEnv process "PSEUDOROOT_GID" =
      if foundEnv process cmd "PSEUDOROOT_GID" = none then some "0"
      else cmd.childEnv process "PSEUDOROOT_GID" := by
  rw [childEnv_applyPreload, Function.update_of_ne platform.envVarName_ne.2.symm,
    childEnv_ensureDefaultEnv_self, foundEnv_ensureDefaultEnv_of_ne (by decide),
    childEnv_ensureDefaultEnv_of_ne (by decide)]

theorem childEnv_applyPreload_of_ne (hpreload : key ≠ platform.envVarName)
    (huid : key ≠ "PSEUDOROOT_UID") (hgid : key ≠ "PSEUDOROOT_GID") :
    (applyPreload platform process cmd libPath).childEnv process key =
      cmd.childEnv process key := by
  rw [childEnv_applyPreload, Function.update_of_ne hpreload,
    childEnv_ensureDefaultEnv_of_ne hgid, childEnv_ensureDefaultEnv_of_ne huid]

end Child

/-- Supervision, the defaults and the preload variable follow the environment of the child. -/
structure FollowsChild (platform : Platform) (process : EnvVars) (cmd : Command)
    (libPath : String) : Prop where
  supervision : process superviseVar = none →
    (sessionSupervisionEnabled process cmd = true ↔
      cmd.childEnv process daemonSocketEnv = none ∧ cmd.childEnv process standaloneEnv = none)
  others : ∀ key, key ≠ platform.envVarName → key ≠ "PSEUDOROOT_UID" → key ≠ "PSEUDOROOT_GID" →
    (applyPreload platform process cmd libPath).childEnv process key = cmd.childEnv process key
  uid : (applyPreload platform process cmd libPath).childEnv process "PSEUDOROOT_UID" =
    some ((cmd.childEnv process "PSEUDOROOT_UID").getD "0")
  gid : (applyPreload platform process cmd libPath).childEnv process "PSEUDOROOT_GID" =
    some ((cmd.childEnv process "PSEUDOROOT_GID").getD "0")
  preload : (applyPreload platform process cmd libPath).childEnv process platform.envVarName =
    some (preloadValue (cmd.childEnv process platform.envVarName) libPath)

/-- Outside a supervisor, the command does not remove an inherited reason against supervision
unless it leaves the other one. -/
def KeepsReason (process : EnvVars) (cmd : Command) : Prop :=
  (RemovesInherited process cmd daemonSocketEnv → cmd.childEnv process standaloneEnv ≠ none) ∧
    (RemovesInherited process cmd standaloneEnv → cmd.childEnv process daemonSocketEnv ≠ none)

theorem supervision_iff :
    (foundEnv process cmd daemonSocketEnv = none ∧ foundEnv process cmd standaloneEnv = none ↔
      cmd.childEnv process daemonSocketEnv = none ∧ cmd.childEnv process standaloneEnv = none) ↔
      KeepsReason process cmd := by
  constructor
  · intro hiff
    refine ⟨fun h hnone => ?_, fun h hnone => ?_⟩
    · exact h.foundEnv_ne_none (hiff.mpr ⟨h.childEnv_eq_none, hnone⟩).1
    · exact h.foundEnv_ne_none (hiff.mpr ⟨hnone, h.childEnv_eq_none⟩).2
  · rintro ⟨hsocket, hstandalone⟩
    by_cases h : RemovesInherited process cmd daemonSocketEnv
    · exact iff_of_false (fun hfound => h.foundEnv_ne_none hfound.1)
        (fun hchild => hsocket h hchild.2)
    · by_cases h' : RemovesInherited process cmd standaloneEnv
      · exact iff_of_false (fun hfound => h'.foundEnv_ne_none hfound.2)
          (fun hchild => hstandalone h' hchild.1)
      · rw [foundEnv_eq_childEnv h, foundEnv_eq_childEnv h']

/-- For every process environment and command, the decisions follow the environment of the child
exactly when the command removes no inherited id or preload variable and keeps a reason against
supervision. -/
theorem followsChild_iff (platform : Platform) (process : EnvVars) (cmd : Command)
    (libPath : String) :
    FollowsChild platform process cmd libPath ↔
      (process superviseVar = none → KeepsReason process cmd) ∧
        ∀ key ∈ ["PSEUDOROOT_UID", "PSEUDOROOT_GID", platform.envVarName],
          ¬ RemovesInherited process cmd key := by
  have hsupervision : (process superviseVar = none →
      (sessionSupervisionEnabled process cmd = true ↔
        cmd.childEnv process daemonSocketEnv = none ∧ cmd.childEnv process standaloneEnv = none)) ↔
      (process superviseVar = none → KeepsReason process cmd) := by
    refine imp_congr_right fun hsupervise => ?_
    rw [sessionSupervisionEnabled_iff, ← supervision_iff]
    simp only [hsupervise, true_and]
  simp only [List.forall_mem_cons, List.not_mem_nil, false_imp_iff, implies_true, and_true]
  constructor
  · intro h
    have huid := h.uid
    have hgid := h.gid
    have hpreload := h.preload
    rw [childEnv_applyPreload_uid, defaulted_iff] at huid
    rw [childEnv_applyPreload_gid, defaulted_iff] at hgid
    rw [childEnv_applyPreload_preload, Option.some_inj, preloadValue_foundEnv_iff] at hpreload
    exact ⟨hsupervision.mp h.supervision, huid, hgid, hpreload⟩
  · rintro ⟨hkeeps, huid, hgid, hpreload⟩
    refine ⟨hsupervision.mpr hkeeps, fun key => childEnv_applyPreload_of_ne, ?_, ?_, ?_⟩
    · rw [childEnv_applyPreload_uid, defaulted_iff]
      exact huid
    · rw [childEnv_applyPreload_gid, defaulted_iff]
      exact hgid
    · rw [childEnv_applyPreload_preload, Option.some_inj, preloadValue_foundEnv_iff]
      exact hpreload

/-- The value of the process comes back, in front of the library. -/
theorem removed_preload_comes_back :
    let process : EnvVars := fun key => if key = "LD_PRELOAD" then some "a.so" else none
    let cmd := (Command.new "id").envRemove "LD_PRELOAD"
    ¬ FollowsChild .linux process cmd "lib.so" ∧ cmd.childEnv process "LD_PRELOAD" = none ∧
      (applyPreload .linux process cmd "lib.so").childEnv process "LD_PRELOAD" =
        some "a.so:lib.so" := by
  intro process cmd
  have hremoved : cmd.envs["LD_PRELOAD"]? = some none := by
    simp [cmd, Command.envRemove]
  have hnone : cmd.childEnv process "LD_PRELOAD" = none := by
    simp [Command.childEnv, Layers.apply, hremoved]
  have hvalue : (applyPreload .linux process cmd "lib.so").childEnv process "LD_PRELOAD" =
      some "a.so:lib.so" := by
    have hpreload := @childEnv_applyPreload_preload process cmd .linux "lib.so"
    rw [Platform.envVarName, foundEnv, Layers.lookup, hremoved] at hpreload
    exact hpreload
  refine ⟨fun h => ?_, hnone, hvalue⟩
  have hpreload : (applyPreload .linux process cmd "lib.so").childEnv process "LD_PRELOAD" =
      some (preloadValue (cmd.childEnv process "LD_PRELOAD") "lib.so") := h.preload
  rw [hvalue, hnone] at hpreload
  exact absurd hpreload (by decide)

end Pseudoroot
