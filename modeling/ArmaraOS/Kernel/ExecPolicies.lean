import ArmaraOS.Kernel.Restart
import ArmaraOS.Lib.FirstSeen
import ArmaraOS.Runtime.ShellExec

/-!
The exec policy of an agent on its three ways into the registry (`spawn_agent_with_parent`, the
restore at boot and `apply_agent_manifest_update` in `openfang-kernel/src/kernel.rs`).

A spawn leaves an explicit policy as it is. An update promotes the declared tools and shell patterns
into it, and a restore replaces it by the kernel's before it promotes them. So a policy survives
when the declarations add nothing to it and the kernel's would become the same
(`explicit_policy_survives_iff`).
-/

namespace ArmaraOS.Kernel.Agents

open ArmaraOS.Lib ArmaraOS.Text
open ArmaraOS.Runtime (ExecPolicy ExecSecurityMode)

/-! ### Promotion -/

/-- `AgentManifest`, with its exec policy. -/
structure PolicyManifest extends AgentManifest where
  execPolicy : Option ExecPolicy := none

/-- The name of the program in a shell pattern. -/
def baseName (pattern : String) : String :=
  let word := (splitWhitespace pattern).head?.getD pattern
  trim (String.ofList (word.toList.rdropWhile (· == '*')))

/-- One pattern is promoted into the allowed commands. -/
def promotePattern (policy : ExecPolicy) (pattern : String) : ExecPolicy :=
  let base := baseName pattern
  if base.isEmpty then policy
  else if policy.safeBins.contains base || policy.allowedCommands.contains base then policy
  else { policy with allowedCommands := policy.allowedCommands ++ [base] }

/-- The tools of a manifest have the shell among them. -/
def hasShellExec (manifest : AgentManifest) : Bool :=
  manifest.capabilities.tools.any fun t => t == "shell_exec" || t == "*"

/-- `apply_shell_caps_to_exec_policy`, on the policy of a manifest. -/
def promote (manifest : AgentManifest) (policy : ExecPolicy) : ExecPolicy :=
  let shell := manifest.capabilities.shell
  if hasShellExec manifest then { policy with mode := .full }
  else if shell.isEmpty then policy
  else if shell.any (· == "*") then { policy with mode := .full }
  else shell.foldl promotePattern policy

/-- `apply_shell_caps_to_exec_policy`. -/
def applyShellCapsToExecPolicy (manifest : PolicyManifest) : PolicyManifest :=
  { manifest with execPolicy := manifest.execPolicy.map (promote manifest.toAgentManifest) }

/-! ### The three ways -/

/-- `KernelConfig`, with its exec policy. -/
structure PolicyConfig extends KernelConfig where
  execPolicy : ExecPolicy

/-- The path prefixes of the kernel's policy are added to those of a policy. -/
def addPathPrefixes (config : PolicyConfig) (policy : ExecPolicy) : ExecPolicy :=
  { policy with
    extraAllowedPathPrefixes :=
      config.execPolicy.extraAllowedPathPrefixes.foldl addNew policy.extraAllowedPathPrefixes }

/-- The manifest that a spawn registers and saves. -/
def spawnedManifest (config : PolicyConfig) (manifest : PolicyManifest) : PolicyManifest :=
  let manifestHadExplicitExecPolicy := manifest.execPolicy.isSome
  let inherited := { manifest with
    execPolicy := some (manifest.execPolicy.getD config.execPolicy) }
  let promoted :=
    if manifestHadExplicitExecPolicy then inherited else applyShellCapsToExecPolicy inherited
  { preparedManifest config.toKernelConfig manifest.toAgentManifest with
    execPolicy := promoted.execPolicy.map (addPathPrefixes config) }

/-- A template on the disk that parses. `othersDiffer` is as in `DiskTemplate`. -/
structure PolicyTemplate where
  manifest : PolicyManifest
  othersDiffer : Bool

/-- `changed`. -/
def PolicyTemplate.changed (template : PolicyTemplate) (stored : PolicyManifest) : Bool :=
  DiskTemplate.changed ⟨template.manifest.toAgentManifest, template.othersDiffer⟩
    stored.toAgentManifest || template.manifest.execPolicy != stored.execPolicy

/-- The stored manifest behind the merge with a template, if there is one. -/
def mergedManifest (stored : PolicyManifest) : Option PolicyTemplate → PolicyManifest
  | none => stored
  | some template =>
      if template.changed stored then
        { mergeTemplate template.manifest.toAgentManifest stored.toAgentManifest with
          execPolicy := template.manifest.execPolicy }
      else stored

/-- The manifest that a restore registers. -/
def restoredManifest (config : PolicyConfig) (stored : PolicyManifest)
    (template : Option PolicyTemplate) : PolicyManifest :=
  let merged := mergedManifest stored template
  let promoted := applyShellCapsToExecPolicy { merged with execPolicy := some config.execPolicy }
  { promoted with
    resources := applyBudgetDefaults config.defaultMaxLlmTokensPerHour promoted.resources }

/-- `apply_agent_manifest_update` of an agent that is registered under a name, with a manifest:
the manifest that it registers. -/
def applyAgentManifestUpdate (config : PolicyConfig) (name : String) (registered : PolicyManifest)
    (manifest : PolicyManifest) : Except String PolicyManifest :=
  if manifest.name != name then
    .error (s!"manifest name '{manifest.name}' must match the agent's registered name " ++
      s!"'{name}'")
  else
    .ok (applyShellCapsToExecPolicy
      { manifest with
        workspace := manifest.workspace.or registered.workspace
        resources := applyBudgetDefaults config.defaultMaxLlmTokensPerHour manifest.resources })

/-! ### What the declarations add -/

/-- A base name is one of a program that is no safe one. -/
def namesProgram (safeBins : List String) (base : String) : Bool :=
  !base.isEmpty && !safeBins.contains base

/-- The programs that shell patterns name and that are no safe ones. -/
def namedPrograms (safeBins shell : List String) : List String :=
  (shell.map baseName).filter (namesProgram safeBins)

/-- The promotion of patterns adds the programs that are not allowed yet. -/
theorem foldl_promotePattern (shell : List String) (policy : ExecPolicy) :
    shell.foldl promotePattern policy =
      { policy with
        allowedCommands :=
          (namedPrograms policy.safeBins shell).foldl addNew policy.allowedCommands } := by
  induction shell generalizing policy with
  | nil => rfl
  | cons pattern shell ih =>
      rw [List.foldl_cons, ih]
      unfold promotePattern namedPrograms
      dsimp only
      rw [List.map_cons]
      by_cases hempty : (baseName pattern).isEmpty = true
      · rw [if_pos hempty, List.filter_cons_of_neg (by simp [namesProgram, hempty])]
      · rw [if_neg hempty]
        by_cases hsafe : policy.safeBins.contains (baseName pattern) = true
        · have hskipped : ¬ namesProgram policy.safeBins (baseName pattern) = true := by
            rw [namesProgram, hsafe, Bool.not_true, Bool.and_false]
            exact Bool.false_ne_true
          rw [hsafe, Bool.true_or, if_pos rfl, List.filter_cons_of_neg hskipped]
        · have hnamed : namesProgram policy.safeBins (baseName pattern) = true := by
            rw [namesProgram, Bool.eq_false_iff.mpr hempty, Bool.eq_false_iff.mpr hsafe]
            rfl
          rw [List.filter_cons_of_pos hnamed, List.foldl_cons, Bool.eq_false_iff.mpr hsafe,
            Bool.false_or]
          by_cases hallowed : baseName pattern ∈ policy.allowedCommands
          · rw [if_pos (List.contains_iff_mem.mpr hallowed), addNew_of_mem hallowed]
          · rw [if_neg fun hcontains => hallowed (List.contains_iff_mem.mp hcontains),
              addNew_of_notMem hallowed]

/-- The declarations of a manifest open the whole shell. -/
def opensShell (manifest : AgentManifest) : Bool :=
  hasShellExec manifest || manifest.capabilities.shell.any (· == "*")

theorem promote_of_opensShell {manifest : AgentManifest} (h : opensShell manifest = true)
    (policy : ExecPolicy) : promote manifest policy = { policy with mode := .full } := by
  unfold promote
  dsimp only
  by_cases hshell : hasShellExec manifest = true
  · rw [if_pos hshell]
  · have hany : (manifest.capabilities.shell.any (· == "*")) = true :=
      (Bool.or_eq_true_iff.mp h).resolve_left hshell
    have hsome : ¬ manifest.capabilities.shell.isEmpty = true := by
      intro hempty
      rw [List.isEmpty_iff.mp hempty] at hany
      cases hany
    rw [if_neg hshell, if_neg hsome, if_pos hany]

theorem promote_of_not_opensShell {manifest : AgentManifest} (h : opensShell manifest = false)
    (policy : ExecPolicy) : promote manifest policy =
      { policy with
        allowedCommands := policy.allowedCommands ++
          ((namedPrograms policy.safeBins manifest.capabilities.shell).filter
            (· ∉ policy.allowedCommands)).eraseDups } := by
  obtain ⟨hshell, hany⟩ := Bool.or_eq_false_iff.mp h
  rw [← foldl_addNew_eq_append, ← foldl_promotePattern]
  unfold promote
  dsimp only
  rw [hshell, hany, if_neg Bool.false_ne_true]
  split
  · next hempty => rw [List.isEmpty_iff.mp hempty, List.foldl_nil]
  · rfl

/-! ### The policies that survive -/

/-- What is compared of the policy of a manifest. -/
def policyOf (manifest : PolicyManifest) : Option (ExecSecurityMode × List String) :=
  manifest.execPolicy.map fun policy => (policy.mode, policy.allowedCommands)

/-- The mode and the allowed commands of a policy are those of the registered agent after the spawn
of the manifest, after a restart on what the spawn has saved, with the manifest as the template on
the disk or without one, and after an update with the manifest. -/
structure Survives (config : PolicyConfig) (manifest : PolicyManifest) (policy : ExecPolicy)
    (onDisk : Option Bool) : Prop where
  spawned : policyOf (spawnedManifest config manifest) =
    some (policy.mode, policy.allowedCommands)
  restored : policyOf (restoredManifest config (spawnedManifest config manifest)
    (onDisk.map (PolicyTemplate.mk manifest))) = some (policy.mode, policy.allowedCommands)
  updated : (applyAgentManifestUpdate config manifest.name (spawnedManifest config manifest)
    manifest).map policyOf = .ok (some (policy.mode, policy.allowedCommands))

/-- A manifest that opens the shell has the full mode and the kernel's allowed commands; in any
other, the mode is the kernel's, the shell patterns name no program that the policy does not allow,
and with those that the kernel's policy does not allow, the latter allows the same. -/
def Stable (config : PolicyConfig) (manifest : AgentManifest) (policy : ExecPolicy) : Prop :=
  if opensShell manifest then
    policy.mode = .full ∧ policy.allowedCommands = config.execPolicy.allowedCommands
  else
    policy.mode = config.execPolicy.mode ∧
    (∀ base ∈ namedPrograms policy.safeBins manifest.capabilities.shell,
      base ∈ policy.allowedCommands) ∧
    policy.allowedCommands = config.execPolicy.allowedCommands ++
      ((namedPrograms config.execPolicy.safeBins manifest.capabilities.shell).filter
        (· ∉ config.execPolicy.allowedCommands)).eraseDups

section Routes

variable (config : PolicyConfig) (manifest : AgentManifest) (policy : ExecPolicy)

/-- A spawn keeps an explicit policy. -/
theorem policyOf_spawned : policyOf (spawnedManifest config ⟨manifest, some policy⟩) =
    some (policy.mode, policy.allowedCommands) := rfl

/-- A restore promotes the declarations into the kernel's policy. -/
theorem policyOf_restored (onDisk : Option Bool) :
    policyOf (restoredManifest config (spawnedManifest config ⟨manifest, some policy⟩)
        (onDisk.map (PolicyTemplate.mk ⟨manifest, some policy⟩))) =
      some ((promote manifest config.execPolicy).mode,
        (promote manifest config.execPolicy).allowedCommands) := by
  have hmerged : ∀ template : Option PolicyTemplate,
      (∀ t, template = some t → t.manifest.capabilities = manifest.capabilities) →
      (mergedManifest (spawnedManifest config ⟨manifest, some policy⟩) template).capabilities =
        manifest.capabilities := by
    intro template hdisk
    unfold mergedManifest
    split
    · rfl
    · next t =>
        split
        · exact hdisk t rfl
        · rfl
  have hcapabilities := hmerged (onDisk.map (PolicyTemplate.mk ⟨manifest, some policy⟩)) (by
    intro t ht
    obtain ⟨othersDiffer, -, rfl⟩ := Option.map_eq_some_iff.mp ht
    rfl)
  have hpromote : ∀ merged : AgentManifest, merged.capabilities = manifest.capabilities →
      promote merged config.execPolicy = promote manifest config.execPolicy := by
    intro merged hsame
    unfold promote hasShellExec
    rw [hsame]
  unfold policyOf restoredManifest applyShellCapsToExecPolicy
  dsimp only
  rw [Option.map_some, Option.map_some, hpromote _ hcapabilities]

/-- An update promotes the declarations into the policy itself. -/
theorem policyOf_updated (registered : PolicyManifest) :
    (applyAgentManifestUpdate config manifest.name registered ⟨manifest, some policy⟩).map
        policyOf =
      .ok (some ((promote manifest policy).mode, (promote manifest policy).allowedCommands)) := by
  unfold applyAgentManifestUpdate
  rw [if_neg (by simp)]
  rfl

end Routes

/-- Appending what was not there changes nothing exactly when it was there. -/
theorem append_new_eq_self_iff (seen names : List String) :
    seen ++ (names.filter (· ∉ seen)).eraseDups = seen ↔ ∀ name ∈ names, name ∈ seen := by
  rw [← foldl_addNew_eq_append]
  constructor
  · intro hsame name hname
    rw [← hsame]
    exact mem_foldl_addNew.mpr (.inr hname)
  · exact foldl_addNew_of_subset

/-- For every kernel configuration, and every manifest with an explicit exec policy: its mode and
allowed commands are those of the agent after a spawn, a restart and an update, exactly when the
policy is stable. -/
theorem explicit_policy_survives_iff (config : PolicyConfig) (manifest : AgentManifest)
    (policy : ExecPolicy) (onDisk : Option Bool) :
    Survives config ⟨manifest, some policy⟩ policy onDisk ↔ Stable config manifest policy := by
  have hroutes : Survives config ⟨manifest, some policy⟩ policy onDisk ↔
      ((promote manifest config.execPolicy).mode = policy.mode ∧
        (promote manifest config.execPolicy).allowedCommands = policy.allowedCommands) ∧
      (promote manifest policy).mode = policy.mode ∧
        (promote manifest policy).allowedCommands = policy.allowedCommands := by
    have hrestored := policyOf_restored config manifest policy onDisk
    have hupdated := policyOf_updated config manifest policy
      (spawnedManifest config ⟨manifest, some policy⟩)
    constructor
    · rintro ⟨-, hrestore, hupdate⟩
      rw [hrestored] at hrestore
      rw [hupdated] at hupdate
      simpa using And.intro hrestore hupdate
    · rintro ⟨⟨hmode, hallowed⟩, hmode', hallowed'⟩
      refine ⟨policyOf_spawned config manifest policy, ?_, ?_⟩
      · rw [hrestored, hmode, hallowed]
      · rw [hupdated, hmode', hallowed']
  rw [hroutes, Stable]
  cases hopens : opensShell manifest with
  | true =>
      rw [if_pos rfl, promote_of_opensShell hopens, promote_of_opensShell hopens]
      constructor
      · rintro ⟨⟨hmode, hallowed⟩, -⟩
        exact ⟨hmode.symm, hallowed.symm⟩
      · rintro ⟨hmode, hallowed⟩
        exact ⟨⟨hmode.symm, hallowed.symm⟩, hmode.symm, rfl⟩
  | false =>
      rw [if_neg Bool.false_ne_true, promote_of_not_opensShell hopens,
        promote_of_not_opensShell hopens]
      dsimp only
      rw [append_new_eq_self_iff]
      constructor
      · rintro ⟨⟨hmode, hallowed⟩, -, hnamed⟩
        exact ⟨hmode.symm, hnamed, hallowed.symm⟩
      · rintro ⟨hmode, hnamed, hallowed⟩
        exact ⟨⟨hmode.symm, hallowed.symm⟩, rfl, hnamed⟩

/-- A policy with a mode and allowed commands. -/
def barePolicy (mode : ExecSecurityMode) (allowedCommands : List String) : ExecPolicy where
  mode := mode
  safeBins := []
  allowedCommands := allowedCommands
  timeoutSecs := 60
  shellPathGuard := .off
  shellPidGuard := .off
  extraAllowedPathPrefixes := []

/-- A restart gives an agent whose policy denies everything the full mode of the kernel. -/
theorem denied_agent_restored_full : ¬ ∀ (config : PolicyConfig) (manifest : AgentManifest)
    (policy : ExecPolicy) (onDisk : Option Bool),
    Survives config ⟨manifest, some policy⟩ policy onDisk := by
  intro h
  have hrestored := (h ⟨plainConfig, barePolicy .full []⟩ { name := "scout" }
    (barePolicy .deny []) none).restored
  rw [policyOf_restored] at hrestored
  cases hrestored

end ArmaraOS.Kernel.Agents
