import ArmaraOS.Kernel.ProbeAgents

/-!
Restarting a kernel: the agents that the boot restores from the store.

A row has the id, the name and the manifest of an agent, and neither its mode nor its lineage.
Loading fills in defaults, drops a row whose name was seen in another case, and leaves the tags to
the merge with a template on the disk, which takes place only where the template differs. Behind
that the boot clears probe agents, and spawns an assistant where no agent is left. So an agent comes
back as it was only if it had nothing but the defaults. Every state that successful operations reach
is saved (`LiveKernel.Reaches.saved`); what the boot restores of it is `get_restoreAgents`, and
`restart_restores_iff` says when that is all that there was.
-/

namespace ArmaraOS.Kernel.Agents

open ArmaraOS.Agent ArmaraOS.Lib Function

/-! ### Agents with their mode and state -/

/-- `AgentMode`. -/
inductive AgentMode where
  | observe
  | assist
  | full
deriving DecidableEq

/-- `AgentState`. -/
inductive AgentState where
  | created
  | running
  | suspended
  | terminated
  | crashed
deriving DecidableEq

/-- The kernel, with the mode and the state of the entries of its registry. -/
structure LiveKernel where
  kernel : KernelState
  mode : Nat → AgentMode
  state : Nat → AgentState

/-- An operation on agents. -/
inductive AgentOp where
  | spawn (world : SpawnWorld) (manifest : AgentManifest) (parent fixedId : Option Nat)
  | setMode (id : Nat) (mode : AgentMode)
  | setState (id : Nat) (state : AgentState)
  | save (id : Nat)
  | kill (world : KernelState.KillWorld) (id : Nat)

namespace LiveKernel

/-- A kernel without agents. -/
def new (maxTotalJobs : Nat) : LiveKernel := ⟨.new maxTotalJobs, fun _ => .full, fun _ => .running⟩

/-- An operation that succeeds: a spawn that is saved, a change to a registered agent, a shutdown's
saving of one, a kill that deletes the row. -/
def step (config : KernelConfig) (s : LiveKernel) : AgentOp → Option LiveKernel
  | .spawn world manifest parent fixedId =>
      match s.kernel.spawnAgentWithParent config world manifest parent fixedId with
      | (kernel, .ok id) => some ⟨kernel, update s.mode id .full, update s.state id .running⟩
      | (_, .error _) => none
  | .setMode id mode =>
      (s.kernel.registry.get id).map fun _ => { s with mode := update s.mode id mode }
  | .setState id state =>
      (s.kernel.registry.get id).map fun _ => { s with state := update s.state id state }
  | .save id =>
      (s.kernel.registry.get id).map fun entry => { s with kernel := s.kernel.saveAgent entry }
  | .kill world id =>
      match s.kernel.killAgent config world id with
      | (kernel, .ok ()) => if world.agentDeleted then some { s with kernel := kernel } else none
      | (_, .error _) => none

/-- The states that runs of successful operations reach. -/
inductive Reaches (config : KernelConfig) (maxTotalJobs : Nat) : LiveKernel → Prop where
  | new : Reaches config maxTotalJobs (new maxTotalJobs)
  | step {s s' : LiveKernel} {op : AgentOp} (h : Reaches config maxTotalJobs s)
      (hstep : s.step config op = some s') : Reaches config maxTotalJobs s'

end LiveKernel

/-! ### Loading -/

/-- The entry that is loaded from a row. -/
def loadedEntry (row : AgentEntry) : AgentEntry :=
  { row with parent := none, children := [], tags := [] }

/-- The loop of `load_all_agents`, with `seen_names`. -/
def loadRows (lib : Library) (seenNames : List String) : List AgentEntry → List AgentEntry
  | [] => []
  | row :: rest =>
      if lib.toLowercase row.name ∈ seenNames then loadRows lib seenNames rest
      else loadedEntry row :: loadRows lib (lib.toLowercase row.name :: seenNames) rest

/-- `load_all_agents`. -/
def loadAllAgents (lib : Library) (rows : List AgentEntry) : List AgentEntry := loadRows lib [] rows

/-! ### Restoring -/

/-- A template on the disk that parses. `othersDiffer` says that one of the fields that are compared
and not modelled differs from the one in the store. -/
structure DiskTemplate where
  manifest : AgentManifest
  othersDiffer : Bool

/-- `changed`. -/
def DiskTemplate.changed (template : DiskTemplate) (stored : AgentManifest) : Bool :=
  template.manifest.name != stored.name ||
    template.manifest.capabilities.tools != stored.capabilities.tools ||
    template.manifest.capabilities.shell != stored.capabilities.shell ||
    template.manifest.tags != stored.tags || template.manifest.workspace != stored.workspace ||
    template.othersDiffer

/-- `apply_disk_template_merge_retain_dashboard_state`. -/
def mergeTemplate (disk prev : AgentManifest) : AgentManifest :=
  { disk with
    name := prev.name
    resources := prev.resources
    workspace := prev.workspace
    profile := prev.profile
    tags := prev.tags }

/-- What a boot meets: the rows as the query lists them, the templates under the names of agents,
the time, and what the steps behind the restoring meet. -/
structure Boot where
  rows : List AgentEntry
  template : String → Option DiskTemplate
  maxTotalJobs : Nat
  now : Int
  /-- The cron jobs in their file. -/
  jobs : List JobMeta
  probes : ProbeWorld
  /-- What the spawn of an assistant meets. -/
  assistant : SpawnWorld

/-- The cron jobs that the boot loads. -/
def Boot.cron (boot : Boot) : CronScheduler := (CronScheduler.new boot.maxTotalJobs).load boot.jobs

/-- A template for the agent is on the disk, and differs from what is stored. -/
def Boot.merges (boot : Boot) (entry : AgentEntry) : Bool :=
  (boot.template entry.name).any fun template => template.changed entry.manifest

/-- An entry behind the merge with its template. -/
def Boot.mergedEntry (boot : Boot) (entry : AgentEntry) : AgentEntry :=
  match boot.template entry.name with
  | none => entry
  | some template =>
      if template.changed entry.manifest then
        let manifest := mergeTemplate template.manifest entry.manifest
        { entry with manifest := manifest, tags := manifest.tags }
      else entry

/-- The entry that is registered. -/
def restoredEntry (config : KernelConfig) (entry : AgentEntry) : AgentEntry :=
  { entry with
    manifest :=
      { entry.manifest with
        resources :=
          applyBudgetDefaults config.defaultMaxLlmTokensPerHour entry.manifest.resources } }

/-- The body of the loop over the loaded entries. -/
def restoreAgent (config : KernelConfig) (boot : Boot) (s : LiveKernel) (loaded : AgentEntry) :
    LiveKernel :=
  let entry := boot.mergedEntry loaded
  let saved := if boot.merges loaded then s.kernel.saveAgent entry else s.kernel
  let admitted := saved.admitAgent entry.id entry.manifest boot.now
  match admitted.enrol (restoredEntry config entry) with
  | .error _ => { s with kernel := admitted }
  | .ok kernel => ⟨kernel, update s.mode entry.id .full, update s.state entry.id .running⟩

/-- A kernel that has just started, on a store. -/
def startedKernel (boot : Boot) (stored : KernelState) : LiveKernel where
  kernel :=
    { KernelState.new boot.maxTotalJobs with
      cron := boot.cron
      sessions := stored.sessions
      stored := stored.stored
      drawn := stored.drawn
      agentsSeen := fun _ h => absurd h Table.not_mem_empty
      grantsSeen := fun _ h => by cases h }
  mode _ := .full
  state _ := .running

/-- The loop of the boot that restores agents. -/
def restoreAgents (config : KernelConfig) (boot : Boot) (s : LiveKernel) : LiveKernel :=
  (loadAllAgents config.lib boot.rows).foldl (restoreAgent config boot)
    (startedKernel boot s.kernel)

/-- If no agents exist, a default assistant is spawned. -/
def spawnAssistant (config : KernelConfig) (boot : Boot) (s : LiveKernel) : LiveKernel :=
  if s.kernel.registry.agents.entries.isEmpty then
    ⟨(s.kernel.spawnAgentWithParent config boot.assistant { name := "assistant" } none none).1,
      update s.mode s.kernel.drawn .full, update s.state s.kernel.drawn .running⟩
  else s

/-- The restart of a kernel: the steps of the boot that change which agents are registered. -/
def restart {Expr Zone : Type} (cronLib : CronLibrary Expr Zone) (config : KernelConfig)
    (boot : Boot) (s : LiveKernel) : LiveKernel :=
  let restored := restoreAgents config boot s
  spawnAssistant config boot
    { restored with kernel := tidied cronLib config boot.probes restored.kernel }

/-! ### What is asked of a restart, and when it holds -/

/-- The same agents are registered under the same names, each with its mode, parent, children and
tags. -/
structure SameAgents (before after : LiveKernel) : Prop where
  names : ∀ id, (after.kernel.registry.get id).map AgentEntry.name =
    (before.kernel.registry.get id).map AgentEntry.name
  each : ∀ id entry entry', before.kernel.registry.get id = some entry →
    after.kernel.registry.get id = some entry' →
      after.mode id = before.mode id ∧ entry'.parent = entry.parent ∧
        entry'.children = entry.children ∧ entry'.tags = entry.tags

/-- What the restoring brings back: the names differ in more than case, every agent has the default
mode and no lineage, and one that has tags has a template that differs. -/
structure RestorableRows (lib : Library) (boot : Boot) (s : LiveKernel) : Prop where
  names : ∀ entry ∈ s.kernel.registry.agents.entries, ∀ other ∈ s.kernel.registry.agents.entries,
    lib.toLowercase entry.name = lib.toLowercase other.name → entry = other
  mode : ∀ entry ∈ s.kernel.registry.agents.entries, s.mode entry.id = .full
  lineage : ∀ entry ∈ s.kernel.registry.agents.entries, entry.parent = none ∧ entry.children = []
  tags : ∀ entry ∈ s.kernel.registry.agents.entries, entry.tags ≠ [] → boot.merges entry = true

/-- What a restart brings back: besides, no two probe agents are of one family, and a cron job
refers to each; and where there is no agent, the spawn of an assistant fails before it registers
one. -/
structure Restorable (lib : Library) (boot : Boot) (s : LiveKernel) : Prop
    extends RestorableRows lib boot s where
  families : ∀ entry ∈ s.kernel.registry.agents.entries,
    ∀ other ∈ s.kernel.registry.agents.entries, probeFamilyKey lib entry.name ≠ none →
      probeFamilyKey lib entry.name = probeFamilyKey lib other.name → entry = other
  referenced : ∀ entry ∈ s.kernel.registry.agents.entries, probeFamilyKey lib entry.name ≠ none →
    isReferenced boot.cron entry.id = true
  assistant : s.kernel.registry.agents.entries = [] →
    boot.assistant.sessionError ≠ none ∨ boot.assistant.workspaceError ≠ none

/-! ### The store keeps up with the registry -/

/-- The columns of a row, besides the id. -/
def columns (entry : AgentEntry) : String × AgentManifest := (entry.name, entry.manifest)

/-- The rows of the store are those of the registered agents, whose tags are their manifest's. -/
structure Saved (s : LiveKernel) : Prop where
  rows : ∀ id, (s.kernel.stored.find id).map columns = (s.kernel.registry.get id).map columns
  tags : ∀ id entry, s.kernel.registry.get id = some entry → entry.tags = entry.manifest.tags

section Writes

variable {config : KernelConfig} {s : KernelState}

theorem stored_addChild (parent : Option Nat) (childId : Nat) :
    (s.addChild parent childId).stored = s.stored := by
  cases parent <;> rfl

theorem stored_completed (world : SpawnWorld) (entry : AgentEntry) :
    (s.completed config world entry).stored = s.stored.insert entry := by
  unfold KernelState.completed KernelState.announce KernelState.watch
  split <;> rfl

/-- A child changes neither the columns nor the tags of an entry. -/
theorem get_addChild (parent : Option Nat) (childId id : Nat) :
    ((s.addChild parent childId).registry.get id).map (fun e => (columns e, e.tags)) =
      (s.registry.get id).map fun e => (columns e, e.tags) := by
  cases parent with
  | none => rfl
  | some parentId =>
      rw [KernelState.addChild_registry]
      unfold AgentRegistry.get AgentRegistry.addChild AgentRegistry.rewrite
      dsimp only
      rw [Table.find_modify_eq]
      split
      · rw [Option.map_map]
        rfl
      · rfl

theorem get_enrol {entry : AgentEntry} {s' : KernelState} (h : s.enrol entry = .ok s') (id : Nat) :
    s'.registry.get id = if id = entry.id then some entry else s.registry.get id := by
  obtain ⟨-, hregister, -⟩ := KernelState.enrol_eq_ok h
  unfold AgentRegistry.get
  rw [(AgentRegistry.register_eq_ok hregister).2, Table.find_insert]

end Writes

section Step

variable {config : KernelConfig} {s s' : LiveKernel}

/-- What the registry and the store hold, of what `Saved` reads. -/
theorem Saved.of_same (h : Saved s)
    (hrows : ∀ id, (s'.kernel.stored.find id).map columns = (s.kernel.stored.find id).map columns)
    (hregistry : s'.kernel.registry = s.kernel.registry) : Saved s' :=
  ⟨fun id => by rw [hrows, hregistry, h.rows],
    fun id entry hget => h.tags id entry (by rwa [hregistry] at hget)⟩

theorem Saved.spawn (h : Saved s) {world : SpawnWorld} {manifest : AgentManifest}
    {parent fixedId : Option Nat} {kernel : KernelState} {id : Nat} {mode : Nat → AgentMode}
    {state : Nat → AgentState}
    (hspawn : s.kernel.spawnAgentWithParent config world manifest parent fixedId =
      (kernel, .ok id)) : Saved ⟨kernel, mode, state⟩ := by
  have houtcome := s.kernel.spawn_outcome config world manifest parent fixedId
  rw [hspawn] at houtcome
  cases houtcome with
  | spawned enrolled hadmits hsession hworkspace henrolled hsave =>
      obtain ⟨-, -, -, -, -, -, -, hstored, -⟩ := KernelState.enrol_eq_ok henrolled
      have hget : ∀ other, (((enrolled.addChild parent (s.kernel.spawnId fixedId)).completed config
          world (s.kernel.entryFor config manifest parent fixedId)).registry.get other).map
            (fun e => (columns e, e.tags)) =
          (if other = s.kernel.spawnId fixedId
            then some (s.kernel.entryFor config manifest parent fixedId)
            else s.kernel.registry.get other).map fun e => (columns e, e.tags) := by
        intro other
        rw [KernelState.completed_registry, get_addChild, get_enrol henrolled]
        rfl
      refine ⟨fun other => ?_, fun other entry hentry => ?_⟩
      · have hcolumns := congrArg (Option.map Prod.fst) (hget other)
        rw [Option.map_map, Option.map_map] at hcolumns
        refine Eq.trans ?_ hcolumns.symm
        rw [stored_completed, stored_addChild, hstored, Table.find_insert]
        change Option.map columns (if other = s.kernel.spawnId fixedId then _ else
          s.kernel.stored.find other) = _
        split
        · rfl
        · exact h.rows other
      · have htags := hget other
        rw [hentry, Option.map_some] at htags
        split at htags
        · obtain ⟨hcolumns, htags⟩ := Prod.mk.inj (Option.some.inj htags)
          rw [htags, (Prod.mk.inj hcolumns).2]
          rfl
        · cases hold : s.kernel.registry.get other with
          | none =>
              rw [hold] at htags
              cases htags
          | some old =>
              rw [hold] at htags
              obtain ⟨hcolumns, htags⟩ := Prod.mk.inj (Option.some.inj htags)
              rw [htags, (Prod.mk.inj hcolumns).2, h.tags other old hold]

theorem Saved.kill (h : Saved s) {world : KernelState.KillWorld} {id : Nat} {kernel : KernelState}
    (hkill : s.kernel.killAgent config world id = (kernel, .ok ()))
    (hdeleted : world.agentDeleted = true) : Saved { s with kernel := kernel } := by
  unfold KernelState.killAgent at hkill
  split at hkill
  · cases hkill
  · next removed hremove =>
    have hkernel := (Prod.mk.inj hkill).1
    obtain ⟨-, hagents, -⟩ := AgentRegistry.remove_eq_ok hremove
    have hstored : kernel.stored = s.kernel.stored.erase id := by
      rw [← hkernel]
      simp [hdeleted]
    have hget : ∀ other, kernel.registry.get other =
        if other = id then none else s.kernel.registry.get other := by
      intro other
      rw [← hkernel]
      change removed.1.agents.find other = _
      rw [hagents, Table.find_erase]
      rfl
    refine ⟨fun other => ?_, fun other entry hentry => ?_⟩
    · change Option.map columns (kernel.stored.find other) =
        Option.map columns (kernel.registry.get other)
      rw [hstored, hget, Table.find_erase]
      split
      · rfl
      · exact h.rows other
    · have hold : kernel.registry.get other = some entry := hentry
      rw [hget] at hold
      split at hold
      · cases hold
      · exact h.tags other entry hold

/-- **The step lemma.** -/
theorem Saved.step (h : Saved s) {op : AgentOp} (hstep : s.step config op = some s') :
    Saved s' := by
  cases op with
  | spawn world manifest parent fixedId =>
      unfold LiveKernel.step at hstep
      dsimp only at hstep
      split at hstep
      · next kernel id hspawn =>
        obtain rfl := Option.some.inj hstep
        exact h.spawn hspawn
      · cases hstep
  | setMode id mode =>
      obtain ⟨entry, -, rfl⟩ := Option.map_eq_some_iff.mp hstep
      exact h.of_same (fun _ => rfl) rfl
  | setState id state =>
      obtain ⟨entry, -, rfl⟩ := Option.map_eq_some_iff.mp hstep
      exact h.of_same (fun _ => rfl) rfl
  | save id =>
      obtain ⟨entry, hget, rfl⟩ := Option.map_eq_some_iff.mp hstep
      refine h.of_same (fun other => ?_) rfl
      change Option.map columns ((s.kernel.stored.insert entry).find other) = _
      obtain ⟨-, rfl⟩ := Table.find_eq_some_iff.mp hget
      rw [Table.find_insert]
      split
      · next hother => rw [hother, h.rows, hget]
      · rfl
  | kill world id =>
      unfold LiveKernel.step at hstep
      dsimp only at hstep
      split at hstep
      · next kernel hkill =>
        split at hstep
        · next hdeleted =>
          obtain rfl := Option.some.inj hstep
          exact h.kill hkill hdeleted
        · cases hstep
      · cases hstep

/-- **The run lemma.** -/
theorem LiveKernel.Reaches.saved {maxTotalJobs : Nat}
    (h : LiveKernel.Reaches config maxTotalJobs s) : Saved s := by
  induction h with
  | new => exact ⟨fun _ => rfl, fun _ _ hget => nomatch hget⟩
  | step _ hstep ih => exact ih.step hstep

end Step

/-! ### What is loaded -/

section Load

variable {lib : Library} {seenNames : List String} {rows : List AgentEntry} {entry : AgentEntry}

theorem mem_loadRows (h : entry ∈ loadRows lib seenNames rows) :
    (∃ row ∈ rows, entry = loadedEntry row) ∧ lib.toLowercase entry.name ∉ seenNames := by
  induction rows generalizing seenNames with
  | nil => cases h
  | cons row rest ih =>
      rw [loadRows] at h
      split at h
      · obtain ⟨⟨other, hother, rfl⟩, hfresh⟩ := ih h
        exact ⟨⟨other, List.mem_cons_of_mem _ hother, rfl⟩, hfresh⟩
      · next hnew =>
        rcases List.mem_cons.mp h with rfl | hrest
        · exact ⟨⟨row, by simp, rfl⟩, hnew⟩
        · obtain ⟨⟨other, hother, rfl⟩, hfresh⟩ := ih hrest
          exact ⟨⟨other, List.mem_cons_of_mem _ hother, rfl⟩,
            fun hseen => hfresh (List.mem_cons_of_mem _ hseen)⟩

/-- No two loaded names are one name in lower case. -/
theorem pairwise_loadRows : (loadRows lib seenNames rows).Pairwise fun entry other =>
    lib.toLowercase entry.name ≠ lib.toLowercase other.name := by
  induction rows generalizing seenNames with
  | nil => exact .nil
  | cons row rest ih =>
      rw [loadRows]
      split
      · exact ih
      · refine List.pairwise_cons.mpr ⟨fun other hother hsame => ?_, ih⟩
        exact (mem_loadRows hother).2 (by simp [← hsame, loadedEntry])

/-- Rows whose names differ in lower case are all loaded. -/
theorem loadRows_of_distinct (hrows : rows.Pairwise fun row other =>
    lib.toLowercase row.name ≠ lib.toLowercase other.name)
    (hseen : ∀ row ∈ rows, lib.toLowercase row.name ∉ seenNames) :
    loadRows lib seenNames rows = rows.map loadedEntry := by
  induction rows generalizing seenNames with
  | nil => rfl
  | cons row rest ih =>
      obtain ⟨hrow, hrest⟩ := List.pairwise_cons.mp hrows
      rw [loadRows, if_neg (hseen row (by simp)), List.map_cons, ih hrest fun other hother => ?_]
      rw [List.mem_cons, not_or]
      exact ⟨(hrow other hother).symm, hseen other (List.mem_cons_of_mem _ hother)⟩

end Load

/-! ### What is restored -/

section Restore

variable (config : KernelConfig) (boot : Boot)

/-- What the registry holds of a loaded entry. -/
def finalEntry (config : KernelConfig) (boot : Boot) (loaded : AgentEntry) : AgentEntry :=
  restoredEntry config (boot.mergedEntry loaded)

theorem mergedEntry_frame (loaded : AgentEntry) :
    (boot.mergedEntry loaded).id = loaded.id ∧ (boot.mergedEntry loaded).name = loaded.name ∧
      (boot.mergedEntry loaded).parent = loaded.parent ∧
      (boot.mergedEntry loaded).children = loaded.children := by
  unfold Boot.mergedEntry
  split
  · exact ⟨rfl, rfl, rfl, rfl⟩
  · split <;> exact ⟨rfl, rfl, rfl, rfl⟩

/-- The tags come from the manifest where the template differs. -/
theorem mergedEntry_tags (loaded : AgentEntry) :
    (boot.mergedEntry loaded).tags =
      if boot.merges loaded then loaded.manifest.tags else loaded.tags := by
  unfold Boot.mergedEntry Boot.merges
  cases boot.template loaded.name with
  | none => rfl
  | some template =>
      dsimp only [Option.any_some]
      split <;> rfl

theorem nameIndex_register {r r' : AgentRegistry} {entry : AgentEntry}
    (h : r.register entry = .ok r') :
    r'.nameIndex = update r.nameIndex entry.name (some entry.id) := by
  unfold AgentRegistry.register at h
  split at h
  · cases h
  · cases h
    rfl

/-- An entry whose name is free is registered. -/
theorem restoreAgent_registers {s : LiveKernel} {loaded : AgentEntry}
    (hfree : s.kernel.registry.nameIndex loaded.name = none) (hmode : ∀ id, s.mode id = .full) :
    (∀ id, (restoreAgent config boot s loaded).kernel.registry.get id =
        if id = loaded.id then some (finalEntry config boot loaded)
        else s.kernel.registry.get id) ∧
      (restoreAgent config boot s loaded).kernel.registry.nameIndex =
        update s.kernel.registry.nameIndex loaded.name (some loaded.id) ∧
      ∀ id, (restoreAgent config boot s loaded).mode id = .full := by
  obtain ⟨hid, hname, -, -⟩ := mergedEntry_frame boot loaded
  unfold restoreAgent
  dsimp only
  generalize hadmitted : KernelState.admitAgent
    (if boot.merges loaded then s.kernel.saveAgent (boot.mergedEntry loaded) else s.kernel)
    (boot.mergedEntry loaded).id (boot.mergedEntry loaded).manifest boot.now = admitted
  have hregistry : admitted.registry = s.kernel.registry := by
    rw [← hadmitted]
    split <;> rfl
  have hfree' : admitted.registry.nameIndex (finalEntry config boot loaded).name = none := by
    rw [hregistry]
    change s.kernel.registry.nameIndex (boot.mergedEntry loaded).name = none
    rw [hname]
    exact hfree
  obtain ⟨kernel, henrolled⟩ := KernelState.enrol_of_free admitted _ hfree'
  have henrolled' : admitted.enrol (restoredEntry config (boot.mergedEntry loaded)) = .ok kernel :=
    henrolled
  rw [henrolled']
  refine ⟨fun id => ?_, ?_, fun id => ?_⟩
  · rw [get_enrol henrolled, hregistry]
    change (if id = (boot.mergedEntry loaded).id then _ else _) = _
    rw [hid]
  · obtain ⟨-, hregister, -⟩ := KernelState.enrol_eq_ok henrolled
    rw [nameIndex_register hregister, hregistry]
    change update s.kernel.registry.nameIndex (boot.mergedEntry loaded).name
      (some (boot.mergedEntry loaded).id) = _
    rw [hid, hname]
  · dsimp only
    rw [update_apply]
    split
    · rfl
    · exact hmode id

/-- Entries with different names and ids are all registered. -/
theorem foldl_restoreAgent {loaded : List AgentEntry} {s : LiveKernel}
    (hnames : loaded.Pairwise fun entry other => entry.name ≠ other.name ∧ entry.id ≠ other.id)
    (hfree : ∀ entry ∈ loaded, s.kernel.registry.nameIndex entry.name = none)
    (hmode : ∀ id, s.mode id = .full) :
    (∀ id entry', (loaded.foldl (restoreAgent config boot) s).kernel.registry.get id =
        some entry' ↔
      (∃ entry ∈ loaded, entry.id = id ∧ entry' = finalEntry config boot entry) ∨
        s.kernel.registry.get id = some entry' ∧ ∀ entry ∈ loaded, entry.id ≠ id) ∧
      ∀ id, (loaded.foldl (restoreAgent config boot) s).mode id = .full := by
  induction loaded generalizing s with
  | nil => exact ⟨fun id entry' => by simp, hmode⟩
  | cons first rest ih =>
      obtain ⟨hfirst, hrest⟩ := List.pairwise_cons.mp hnames
      obtain ⟨hget, hindex, hmode'⟩ := restoreAgent_registers config boot
        (hfree first (by simp)) hmode
      have hfree' : ∀ entry ∈ rest,
          (restoreAgent config boot s first).kernel.registry.nameIndex entry.name = none := by
        intro entry hentry
        rw [hindex, update_of_ne (hfirst entry hentry).1.symm]
        exact hfree entry (List.mem_cons_of_mem _ hentry)
      obtain ⟨hall, hmodes⟩ := ih hrest hfree' hmode'
      refine ⟨fun id entry' => ?_, hmodes⟩
      rw [List.foldl_cons, hall, hget]
      constructor
      · rintro (⟨entry, hentry, rfl, rfl⟩ | ⟨hfound, hother⟩)
        · exact .inl ⟨entry, List.mem_cons_of_mem _ hentry, rfl, rfl⟩
        · split at hfound
          · next hid => exact .inl ⟨first, by simp, hid.symm, (Option.some.inj hfound).symm⟩
          · next hid =>
            refine .inr ⟨hfound, fun entry hentry => ?_⟩
            rcases List.mem_cons.mp hentry with rfl | hentry
            · exact fun hsame => hid hsame.symm
            · exact hother entry hentry
      · rintro (⟨entry, hentry, rfl, rfl⟩ | ⟨hfound, hother⟩)
        · rcases List.mem_cons.mp hentry with rfl | hentry
          · exact .inr ⟨if_pos rfl, fun other hother => (hfirst other hother).2.symm⟩
          · exact .inl ⟨entry, hentry, rfl, rfl⟩
        · refine .inr ⟨?_, fun entry hentry => hother entry (List.mem_cons_of_mem _ hentry)⟩
          rw [if_neg (hother first (by simp)).symm]
          exact hfound

/-- What is registered behind the restoring, and in which mode. -/
theorem get_restoreAgents {s : LiveKernel} (hrows : boot.rows.Perm s.kernel.stored.entries) (id : Nat)
    (entry' : AgentEntry) :
    ((restoreAgents config boot s).kernel.registry.get id = some entry' ↔
      ∃ entry ∈ loadAllAgents config.lib boot.rows,
        entry.id = id ∧ entry' = finalEntry config boot entry) ∧
      (restoreAgents config boot s).mode id = .full := by
  have hids : (loadAllAgents config.lib boot.rows).Pairwise fun entry other =>
      entry.id ≠ other.id := by
    have hdistinct : (boot.rows.map AgentEntry.id).Nodup :=
      (hrows.map AgentEntry.id).nodup_iff.mpr s.kernel.stored.distinct
    have hsublist : ∀ (seenNames : List String) (rows : List AgentEntry),
        ((loadRows config.lib seenNames rows).map AgentEntry.id).Sublist
          (rows.map AgentEntry.id) := by
      intro seenNames rows
      induction rows generalizing seenNames with
      | nil => exact .slnil
      | cons row rest ih =>
          rw [loadRows]
          split
          · exact (ih _).cons _
          · exact (ih _).cons_cons _
    exact List.pairwise_map.mp (hdistinct.sublist (hsublist [] boot.rows))
  have hnames : (loadAllAgents config.lib boot.rows).Pairwise fun entry other =>
      entry.name ≠ other.name ∧ entry.id ≠ other.id := by
    have hlower : (loadAllAgents config.lib boot.rows).Pairwise fun entry other =>
        config.lib.toLowercase entry.name ≠ config.lib.toLowercase other.name :=
      pairwise_loadRows
    exact (hlower.and hids).imp fun h => ⟨fun hsame => h.1 (by rw [hsame]), h.2⟩
  obtain ⟨hall, hmode⟩ := @foldl_restoreAgent config boot _
    (startedKernel boot s.kernel) hnames (fun _ _ => rfl) fun _ => rfl
  refine ⟨(hall id entry').trans ⟨?_, .inl⟩, hmode id⟩
  rintro (h | ⟨h, -⟩)
  · exact h
  · cases h

end Restore

/-! ### When a restart restores every agent as it was -/

section Main

variable {config : KernelConfig} {boot : Boot} {s : LiveKernel}

/-- Each registered agent has a row, and each row an agent, with one name and one manifest. -/
theorem Saved.row (h : Saved s) (hrows : boot.rows.Perm s.kernel.stored.entries) :
    (∀ id entry, s.kernel.registry.get id = some entry →
        ∃ row ∈ boot.rows, row.id = id ∧ columns row = columns entry) ∧
      ∀ row ∈ boot.rows, ∃ entry, s.kernel.registry.get row.id = some entry ∧
        columns entry = columns row := by
  refine ⟨fun id entry hget => ?_, fun row hrow => ?_⟩
  · have hcolumns := h.rows id
    rw [hget] at hcolumns
    obtain ⟨row, hfind, hsame⟩ := Option.map_eq_some_iff.mp hcolumns
    obtain ⟨hmem, hid⟩ := Table.find_eq_some_iff.mp hfind
    exact ⟨row, hrows.mem_iff.mpr hmem, hid, hsame⟩
  · have hfind : s.kernel.stored.find row.id = some row :=
      Table.find_eq_some_iff.mpr ⟨hrows.mem_iff.mp hrow, rfl⟩
    have hcolumns := h.rows row.id
    rw [hfind] at hcolumns
    exact Option.map_eq_some_iff.mp hcolumns.symm

theorem merges_of_columns {row entry : AgentEntry} (h : columns row = columns entry) :
    boot.merges (loadedEntry row) = boot.merges entry := by
  obtain ⟨hname, hmanifest⟩ := Prod.mk.inj h
  unfold Boot.merges
  change Option.any (fun t : DiskTemplate => t.changed row.manifest) (boot.template row.name) = _
  rw [hname, hmanifest]

theorem registered_of_mem {entry : AgentEntry}
    (h : entry ∈ s.kernel.registry.agents.entries) :
    s.kernel.registry.get entry.id = some entry := Table.find_eq_some_iff.mpr ⟨h, rfl⟩

/-- What a restart leaves of an agent that it brings back. -/
theorem restored_fields (config : KernelConfig) (boot : Boot) (hsaved : Saved s)
    {row entry : AgentEntry} (hentry : s.kernel.registry.get entry.id = some entry)
    (hcolumns : columns row = columns entry) :
    (finalEntry config boot (loadedEntry row)).name = entry.name ∧
      (finalEntry config boot (loadedEntry row)).parent = none ∧
      (finalEntry config boot (loadedEntry row)).children = [] ∧
      (finalEntry config boot (loadedEntry row)).tags =
        if boot.merges entry then entry.tags else [] := by
  obtain ⟨hname, hmanifest⟩ := Prod.mk.inj hcolumns
  obtain ⟨-, hkeptName, hparent, hchildren⟩ := mergedEntry_frame boot (loadedEntry row)
  refine ⟨hkeptName.trans hname, hparent, hchildren, ?_⟩
  change (boot.mergedEntry (loadedEntry row)).tags = _
  rw [mergedEntry_tags boot, merges_of_columns hcolumns, hsaved.tags entry.id entry hentry,
    ← hmanifest]
  rfl

/-- What came back as it was had nothing to lose. -/
theorem restorable_of_same (hsaved : Saved s) (hrows : boot.rows.Perm s.kernel.stored.entries)
    (h : SameAgents s (restoreAgents config boot s)) : RestorableRows config.lib boot s := by
  obtain ⟨-, hback⟩ := hsaved.row hrows
  have hget := fun id entry' => get_restoreAgents config boot hrows id entry'
  obtain ⟨hnames, heach⟩ := h
  -- what came back of a registered agent
  have hcame : ∀ entry ∈ s.kernel.registry.agents.entries,
      ∃ row ∈ boot.rows, loadedEntry row ∈ loadAllAgents config.lib boot.rows ∧
        row.id = entry.id ∧ columns row = columns entry ∧
        (restoreAgents config boot s).kernel.registry.get entry.id =
          some (finalEntry config boot (loadedEntry row)) := by
    intro entry hentry
    have hlive := registered_of_mem hentry
    have hname := hnames entry.id
    rw [hlive] at hname
    obtain ⟨entry', hfound, -⟩ := Option.map_eq_some_iff.mp hname
    obtain ⟨loaded, hloaded, hid, rfl⟩ := (hget entry.id entry').1.mp hfound
    obtain ⟨⟨row, hmem, rfl⟩, -⟩ := mem_loadRows hloaded
    obtain ⟨other, hother, hcolumns⟩ := hback row hmem
    have hrowId : row.id = entry.id := hid
    rw [hrowId, hlive] at hother
    obtain rfl := Option.some.inj hother
    exact ⟨row, hmem, hloaded, hrowId, hcolumns.symm, hfound⟩
  have hfields : ∀ entry ∈ s.kernel.registry.agents.entries,
      s.mode entry.id = .full ∧ entry.parent = none ∧ entry.children = [] ∧
        entry.tags = if boot.merges entry then entry.tags else [] := by
    intro entry hentry
    obtain ⟨row, -, -, -, hcolumns, hfound⟩ := hcame entry hentry
    obtain ⟨hmode, hparent, hchildren, htags⟩ :=
      heach entry.id entry _ (registered_of_mem hentry) hfound
    obtain ⟨-, hparent', hchildren', htags'⟩ :=
      restored_fields config boot hsaved (registered_of_mem hentry) hcolumns
    exact ⟨hmode.symm.trans (hget entry.id entry).2, hparent.symm.trans hparent',
      hchildren.symm.trans hchildren', htags.symm.trans htags'⟩
  refine ⟨fun entry hentry other hother hlower => ?_,
    fun entry hentry => (hfields entry hentry).1,
    fun entry hentry => ⟨(hfields entry hentry).2.1, (hfields entry hentry).2.2.1⟩,
    fun entry hentry htags => ?_⟩
  · obtain ⟨row, -, hloaded, hid, hcolumns, -⟩ := hcame entry hentry
    obtain ⟨row', -, hloaded', hid', hcolumns', -⟩ := hcame other hother
    by_contra hne
    have hlower' : config.lib.toLowercase (loadedEntry row).name =
        config.lib.toLowercase (loadedEntry row').name := by
      change config.lib.toLowercase row.name = config.lib.toLowercase row'.name
      rw [(Prod.mk.inj hcolumns).1, (Prod.mk.inj hcolumns').1, hlower]
    have hsame : loadedEntry row = loadedEntry row' := List.inj_on_of_nodup_map
      (List.pairwise_map.mpr pairwise_loadRows) hloaded hloaded' hlower'
    have hids : (loadedEntry row).id = (loadedEntry row').id := congrArg AgentEntry.id hsame
    exact hne (Table.eq_of_key_eq hentry hother (hid.symm.trans (hids.trans hid')))
  · by_contra hmerges
    have hnone := (hfields entry hentry).2.2.2
    rw [if_neg hmerges] at hnone
    exact htags hnone

/-- What has nothing to lose comes back as it was. -/
theorem same_of_restorable (hsaved : Saved s) (hrows : boot.rows.Perm s.kernel.stored.entries)
    (h : RestorableRows config.lib boot s) : SameAgents s (restoreAgents config boot s) := by
  obtain ⟨hrow, hback⟩ := hsaved.row hrows
  have hget := fun id entry' => get_restoreAgents config boot hrows id entry'
  obtain ⟨hnames, hmode, hlineage, htags⟩ := h
  have hdistinct : boot.rows.Pairwise fun row other =>
      config.lib.toLowercase row.name ≠ config.lib.toLowercase other.name := by
    have hids : (boot.rows.map AgentEntry.id).Nodup :=
      (hrows.map AgentEntry.id).nodup_iff.mpr s.kernel.stored.distinct
    refine (List.pairwise_map.mp hids).imp_of_mem fun {row other} hmem hmem' hid hlower => ?_
    obtain ⟨entry, hentry, hcolumns⟩ := hback row hmem
    obtain ⟨entry', hentry', hcolumns'⟩ := hback other hmem'
    obtain ⟨hin, hentryId⟩ := Table.find_eq_some_iff.mp hentry
    obtain ⟨hin', hentryId'⟩ := Table.find_eq_some_iff.mp hentry'
    rw [← (Prod.mk.inj hcolumns).1, ← (Prod.mk.inj hcolumns').1] at hlower
    have hsame := hnames entry hin entry' hin' hlower
    exact hid (hentryId.symm.trans ((congrArg AgentEntry.id hsame).trans hentryId'))
  have hloadAll : loadAllAgents config.lib boot.rows = boot.rows.map loadedEntry :=
    loadRows_of_distinct hdistinct fun _ _ => List.not_mem_nil
  have hcame : ∀ id entry', (restoreAgents config boot s).kernel.registry.get id = some entry' ↔
      ∃ row ∈ boot.rows, row.id = id ∧ entry' = finalEntry config boot (loadedEntry row) := by
    intro id entry'
    rw [(hget id entry').1, hloadAll]
    constructor
    · rintro ⟨loaded, hloaded, hid, rfl⟩
      obtain ⟨row, hmem, rfl⟩ := List.mem_map.mp hloaded
      exact ⟨row, hmem, hid, rfl⟩
    · rintro ⟨row, hmem, hid, rfl⟩
      exact ⟨_, List.mem_map_of_mem hmem, hid, rfl⟩
  refine ⟨fun id => ?_, fun id entry entry' hentry hentry' => ?_⟩
  · cases hlive : s.kernel.registry.get id with
    | some entry =>
        obtain ⟨row, hmem, hid, hcolumns⟩ := hrow id entry hlive
        obtain ⟨-, hentryId⟩ := Table.find_eq_some_iff.mp hlive
        rw [(hcame id _).mpr ⟨row, hmem, hid, rfl⟩]
        exact congrArg some (restored_fields config boot hsaved (hentryId.symm ▸ hlive) hcolumns).1
    | none =>
        refine Option.map_eq_none_iff.mpr (Option.eq_none_iff_forall_ne_some.mpr ?_)
        intro entry' hfound
        obtain ⟨row, hmem, hid, -⟩ := (hcame id entry').mp hfound
        obtain ⟨entry, hentry, -⟩ := hback row hmem
        rw [hid, hlive] at hentry
        cases hentry
  · obtain ⟨row, hmem, hid, rfl⟩ := (hcame id entry').mp hentry'
    obtain ⟨other, hother, hcolumns⟩ := hback row hmem
    rw [hid, hentry] at hother
    obtain rfl := Option.some.inj hother
    obtain ⟨hin, rfl⟩ := Table.find_eq_some_iff.mp hentry
    obtain ⟨-, hparent, hchildren, hfinalTags⟩ :=
      restored_fields config boot hsaved hentry hcolumns.symm
    refine ⟨(hget entry.id entry).2.trans (hmode entry hin).symm,
      hparent.trans (hlineage entry hin).1.symm, hchildren.trans (hlineage entry hin).2.symm, ?_⟩
    rw [hfinalTags]
    split
    · rfl
    · next hmerges =>
      by_contra hne
      exact hmerges (htags entry hin fun hnil => hne hnil.symm)

/-- The restoring neither touches the cron jobs nor forgets an id. -/
theorem restoreAgents_frame (config : KernelConfig) (boot : Boot) (s : LiveKernel) :
    (restoreAgents config boot s).kernel.cron = boot.cron ∧
      s.kernel.drawn ≤ (restoreAgents config boot s).kernel.drawn := by
  have hstep : ∀ (s : LiveKernel) (loaded : AgentEntry),
      (restoreAgent config boot s loaded).kernel.cron = s.kernel.cron ∧
        s.kernel.drawn ≤ (restoreAgent config boot s loaded).kernel.drawn := by
    intro s loaded
    unfold restoreAgent
    dsimp only
    generalize hadmitted : KernelState.admitAgent
      (if boot.merges loaded then s.kernel.saveAgent (boot.mergedEntry loaded) else s.kernel)
      (boot.mergedEntry loaded).id (boot.mergedEntry loaded).manifest boot.now = admitted
    have hframe : admitted.cron = s.kernel.cron ∧ s.kernel.drawn ≤ admitted.drawn := by
      rw [← hadmitted]
      split <;> exact ⟨rfl, Nat.le_max_left _ _⟩
    split
    · exact hframe
    · next kernel henrolled =>
        obtain ⟨-, -, -, -, -, hcron, -, -, hdrawn⟩ := KernelState.enrol_eq_ok henrolled
        exact ⟨hcron.trans hframe.1, hframe.2.trans (hdrawn ▸ Nat.le_max_left _ _)⟩
  have hfold : ∀ (loaded : List AgentEntry) (s : LiveKernel),
      (loaded.foldl (restoreAgent config boot) s).kernel.cron = s.kernel.cron ∧
        s.kernel.drawn ≤ (loaded.foldl (restoreAgent config boot) s).kernel.drawn := by
    intro loaded
    induction loaded with
    | nil => exact fun s => ⟨rfl, le_refl _⟩
    | cons first rest ih =>
        intro s
        obtain ⟨hcron, hdrawn⟩ := hstep s first
        obtain ⟨hcron', hdrawn'⟩ := ih (restoreAgent config boot s first)
        exact ⟨hcron'.trans hcron, hdrawn.trans hdrawn'⟩
  exact hfold _ (startedKernel boot s.kernel)

theorem get_eq_none_of_drawn {k : KernelState} {id : Nat} (h : k.drawn ≤ id) :
    k.registry.get id = none := by
  by_contra hsome
  obtain ⟨entry, hentry⟩ := Option.ne_none_iff_exists'.mp hsome
  exact absurd (KernelState.lt_drawn_of_registered k hentry) (not_lt.mpr h)

/-- The spawn of an assistant registers the assistant where there is no agent, or nobody. -/
theorem spawnAssistant_cases (config : KernelConfig) (boot : Boot) :
    ((∀ id, (spawnAssistant config boot s).kernel.registry.get id = s.kernel.registry.get id) ∧
        (s.kernel.registry.agents.entries = [] →
          s.kernel.registry.nameIndex "assistant" = none →
            boot.assistant.sessionError ≠ none ∨ boot.assistant.workspaceError ≠ none)) ∨
      s.kernel.registry.agents.entries = [] ∧ boot.assistant.sessionError = none ∧
        boot.assistant.workspaceError = none ∧
        ∃ entry, ∀ id, (spawnAssistant config boot s).kernel.registry.get id =
          if id = s.kernel.drawn then some entry else s.kernel.registry.get id := by
  unfold spawnAssistant
  split
  · next hnobody =>
    rw [List.isEmpty_iff] at hnobody
    have houtcome := s.kernel.spawn_outcome config boot.assistant { name := "assistant" } none none
    have hentry : ∀ {enrolled : KernelState},
        (s.kernel.admitted config boot.assistant { name := "assistant" }
          (s.kernel.spawnId none)).enrol
            (s.kernel.entryFor config { name := "assistant" } none none) = .ok enrolled →
          ∀ id, enrolled.registry.get id = if id = s.kernel.drawn then
            some (s.kernel.entryFor config { name := "assistant" } none none)
            else s.kernel.registry.get id := by
      intro enrolled henrolled id
      rw [get_enrol henrolled]
      rfl
    dsimp only
    generalize s.kernel.spawnAgentWithParent config boot.assistant { name := "assistant" } none
      none = out at houtcome ⊢
    cases houtcome with
    | refused e hrefused => cases hrefused
    | noSession e _ hsession => exact .inl ⟨fun _ => rfl, fun _ _ => .inl (by rw [hsession]; simp)⟩
    | noWorkspace e _ _ hworkspace =>
        exact .inl ⟨fun _ => rfl, fun _ _ => .inr (by rw [hworkspace]; simp)⟩
    | taken _ _ _ htaken => exact .inl ⟨fun _ => rfl, fun _ hfree => absurd hfree htaken⟩
    | unsaved e enrolled _ hsession hworkspace henrolled _ =>
        exact .inr ⟨hnobody, hsession, hworkspace, _, hentry henrolled⟩
    | spawned enrolled _ hsession hworkspace henrolled _ =>
        refine .inr ⟨hnobody, hsession, hworkspace,
          s.kernel.entryFor config { name := "assistant" } none none, fun id => ?_⟩
        rw [KernelState.completed_registry]
        exact hentry henrolled id
  · next hsome =>
      exact .inl ⟨fun _ => rfl, fun hnobody => absurd (by rw [hnobody]; rfl) hsome⟩

/-- The modes of the agents that were there stay. -/
theorem mode_spawnAssistant (config : KernelConfig) (boot : Boot) {id : Nat}
    (hid : id ≠ s.kernel.drawn) : (spawnAssistant config boot s).mode id = s.mode id := by
  unfold spawnAssistant
  split
  · exact update_of_ne hid _ _
  · rfl

/-- Where the registry has agents of the same names, and the cron jobs are the same, it has the same
probe agents. -/
theorem ProbesTidy.of_names {k k' : KernelState} {lib : Library}
    (h : ∀ id, (k'.registry.get id).map AgentEntry.name = (k.registry.get id).map AgentEntry.name)
    (hcron : k'.cron = k.cron) (htidy : ProbesTidy lib k) : ProbesTidy lib k' := by
  have hmatch : ∀ entry' ∈ k'.registry.agents.entries,
      ∃ entry ∈ k.registry.agents.entries, entry.id = entry'.id ∧ entry.name = entry'.name := by
    intro entry' hentry'
    have hname := h entry'.id
    rw [show k'.registry.get entry'.id = some entry' from
      Table.find_eq_some_iff.mpr ⟨hentry', rfl⟩] at hname
    obtain ⟨entry, hfound, hsame⟩ := Option.map_eq_some_iff.mp hname.symm
    obtain ⟨hmem, hid⟩ := Table.find_eq_some_iff.mp hfound
    exact ⟨entry, hmem, hid, hsame⟩
  obtain ⟨hlone, hreferenced⟩ := htidy
  refine ⟨fun entry' hentry' other' hother' hkey hkeys => ?_, fun entry' hentry' hkey => ?_⟩
  · obtain ⟨entry, hentry, hid, hname⟩ := hmatch entry' hentry'
    obtain ⟨other, hother, hid', hname'⟩ := hmatch other' hother'
    rw [← hid, ← hid']
    exact hlone entry hentry other hother (hname ▸ hkey) (by rw [hname, hname', hkeys])
  · obtain ⟨entry, hentry, hid, hname⟩ := hmatch entry' hentry'
    rw [hcron, ← hid]
    exact hreferenced entry hentry (hname ▸ hkey)

/-- Without agents the restoring finds an empty registry. -/
theorem restoreAgents_of_empty (hsaved : Saved s)
    (hrows : boot.rows.Perm s.kernel.stored.entries)
    (hempty : s.kernel.registry.agents.entries = []) :
    restoreAgents config boot s = startedKernel boot s.kernel := by
  have hnone : boot.rows = [] := by
    refine List.eq_nil_iff_forall_not_mem.mpr fun row hrow => ?_
    obtain ⟨entry, hentry, -⟩ := (hsaved.row hrows).2 row hrow
    have hmem := (Table.find_eq_some_iff.mp hentry).1
    rw [hempty] at hmem
    cases hmem
  rw [restoreAgents, hnone]
  rfl

variable {Expr Zone : Type} (cronLib : CronLibrary Expr Zone)

/-- Where the same agents are registered, and those that were there in the same modes, the same
come back. -/
theorem SameAgents.congr {t t' : LiveKernel}
    (hget : ∀ id, t.kernel.registry.get id = t'.kernel.registry.get id)
    (hmode : ∀ id, s.kernel.registry.get id ≠ none → t.mode id = t'.mode id)
    (h : SameAgents s t) : SameAgents s t' := by
  refine ⟨fun id => by rw [← hget, h.names], fun id entry entry' hentry hentry' => ?_⟩
  have hsome : s.kernel.registry.get id ≠ none := by
    rw [hentry]
    exact Option.some_ne_none _
  rw [← hget] at hentry'
  obtain ⟨hsame, hrest⟩ := h.each id entry entry' hentry hentry'
  exact ⟨(hmode id hsome).symm.trans hsame, hrest⟩

/-- A restart brings back what the restoring does, if it kills no probe agent and registers no
assistant. -/
theorem sameAgents_restart_iff (hsaved : Saved s)
    (hrows : boot.rows.Perm s.kernel.stored.entries) :
    SameAgents s (restart cronLib config boot s) ↔
      SameAgents s (restoreAgents config boot s) ∧
        ProbesTidy config.lib (restoreAgents config boot s).kernel ∧
        (s.kernel.registry.agents.entries = [] →
          boot.assistant.sessionError ≠ none ∨ boot.assistant.workspaceError ≠ none) := by
  obtain ⟨-, hdrawn⟩ := restoreAgents_frame config boot s
  have hempty := @restoreAgents_of_empty config boot s hsaved hrows
  have hshrinks := @shrinks_tidied config Expr Zone cronLib boot.probes
    (restoreAgents config boot s).kernel
  set restored := restoreAgents config boot s with hrestored
  set cleared : LiveKernel :=
    { restored with kernel := tidied cronLib config boot.probes restored.kernel } with hcleared
  have hfresh : s.kernel.registry.get cleared.kernel.drawn = none :=
    get_eq_none_of_drawn (hshrinks.drawn ▸ hdrawn)
  have hmode : ∀ id, s.kernel.registry.get id ≠ none →
      (restart cronLib config boot s).mode id = restored.mode id := by
    intro id hsome
    refine mode_spawnAssistant config boot (s := cleared) ?_
    rintro rfl
    exact hsome hfresh
  have hassistant := @spawnAssistant_cases cleared config boot
  change (∀ id, (restart cronLib config boot s).kernel.registry.get id = _) ∧ _ ∨ _ ∧ _ ∧ _ ∧
    ∃ _, ∀ id, (restart cronLib config boot s).kernel.registry.get id = _ at hassistant
  constructor
  · intro hsame
    rcases hassistant with ⟨hget, hfails⟩ | ⟨-, -, -, entry, hget⟩
    · have hkept : ∀ id, cleared.kernel.registry.get id = restored.kernel.registry.get id := by
        intro id
        rcases hshrinks.get id with hstill | hgone
        · exact hstill
        · refine hgone.trans ?_
          by_contra hsome
          obtain ⟨entry', hentry'⟩ := Option.ne_none_iff_exists'.mp (Ne.symm hsome)
          obtain ⟨loaded, hloaded, hid, -⟩ :=
            (get_restoreAgents config boot hrows id entry').1.mp hentry'
          obtain ⟨⟨row, hrow, rfl⟩, -⟩ := mem_loadRows hloaded
          obtain ⟨entry, hentry, -⟩ := (hsaved.row hrows).2 row hrow
          have hname := hsame.names id
          rw [hget, hgone, ← (show row.id = id from hid), hentry] at hname
          cases hname
      have htidy := tidied_get_iff.mp hkept
      refine ⟨hsame.congr (fun id => (hget id).trans (hkept id)) hmode, htidy, fun hnobody => ?_⟩
      have hkernel : cleared.kernel = (startedKernel boot s.kernel).kernel := by
        rw [hcleared]
        dsimp only
        rw [tidied_eq_self htidy, hempty hnobody]
      exact hfails (by rw [hkernel]; rfl) (by rw [hkernel]; rfl)
    · -- the assistant was not there before
      have hname := hsame.names cleared.kernel.drawn
      rw [hget, if_pos rfl, hfresh] at hname
      cases hname
  · rintro ⟨hsame, htidy, hfails⟩
    have hkernel : cleared.kernel = restored.kernel := tidied_eq_self htidy
    rcases hassistant with ⟨hget, -⟩ | ⟨hnone, hsession, hworkspace, -⟩
    · exact hsame.congr (fun id => by rw [hget, hkernel]) fun id hsome => (hmode id hsome).symm
    · -- an assistant is spawned where nobody was registered before
      have hnobody : s.kernel.registry.agents.entries = [] := by
        refine List.eq_nil_iff_forall_not_mem.mpr fun entry hentry => ?_
        have hname := hsame.names entry.id
        rw [registered_of_mem hentry] at hname
        obtain ⟨entry', hfound, -⟩ := Option.map_eq_some_iff.mp hname
        have hmem := (Table.find_eq_some_iff.mp hfound).1
        rw [← hkernel, hnone] at hmem
        cases hmem
      rcases hfails hnobody with hne | hne
      · exact absurd hsession hne
      · exact absurd hworkspace hne

/-- **After a run of successful operations, a restart restores every agent as it was exactly if the
names of the agents differ in more than case, every agent is in the default mode and has neither a
parent nor children, an agent with tags has a template on the disk that differs from the store, no
two probe agents are of one family and a cron job refers to each, and the assistant that is spawned
where there is no agent is not registered.** -/
theorem restart_restores_iff {maxTotalJobs : Nat}
    (hreach : LiveKernel.Reaches config maxTotalJobs s)
    (hrows : boot.rows.Perm s.kernel.stored.entries) :
    SameAgents s (restart cronLib config boot s) ↔ Restorable config.lib boot s := by
  have hsaved := hreach.saved
  obtain ⟨hcron, -⟩ := restoreAgents_frame config boot s
  rw [sameAgents_restart_iff cronLib hsaved hrows]
  constructor
  · rintro ⟨hsame, htidy, hassistant⟩
    obtain ⟨hlone, hreferenced⟩ := @ProbesTidy.of_names _ { s.kernel with cron := boot.cron } _
      (fun id => (hsame.names id).symm) hcron.symm htidy
    exact ⟨restorable_of_same hsaved hrows hsame,
      fun entry hentry other hother hkey hkeys =>
        Table.eq_of_key_eq hentry hother (hlone entry hentry other hother hkey hkeys),
      hreferenced, hassistant⟩
  · rintro ⟨hrestorable, hfamilies, hreferenced, hassistant⟩
    have hsame := same_of_restorable hsaved hrows hrestorable
    have htidy : ProbesTidy config.lib { s.kernel with cron := boot.cron } :=
      ⟨fun entry hentry other hother hkey hkeys =>
        congrArg AgentEntry.id (hfamilies entry hentry other hother hkey hkeys), hreferenced⟩
    have htidy' := @ProbesTidy.of_names { s.kernel with cron := boot.cron } _ _ hsame.names hcron
      htidy
    exact ⟨hsame, htidy', hassistant⟩

end Main

/-! ### Three agents, and two of one name in lower case -/

/-- The kernel behind the spawns of agents with these manifests. -/
def spawnedKernel (manifests : List AgentManifest) : LiveKernel :=
  ((manifests.map fun manifest => AgentOp.spawn {} manifest none none).foldlM
    (LiveKernel.step plainConfig) (.new 10)).getD (.new 10)

theorem reaches_spawnedKernel {manifests : List AgentManifest}
    (h : ((manifests.map fun manifest => AgentOp.spawn {} manifest none none).foldlM
      (LiveKernel.step plainConfig) (.new 10)).isSome = true) :
    LiveKernel.Reaches plainConfig 10 (spawnedKernel manifests) := by
  have hrun : ∀ (ops : List AgentOp) (s₀ s : LiveKernel), LiveKernel.Reaches plainConfig 10 s₀ →
      ops.foldlM (LiveKernel.step plainConfig) s₀ = some s →
        LiveKernel.Reaches plainConfig 10 s := by
    intro ops
    induction ops with
    | nil =>
        intro s₀ s hreach hsame
        cases hsame
        exact hreach
    | cons op ops ih =>
        intro s₀ s hreach hrest
        rw [List.foldlM_cons] at hrest
        obtain ⟨s₁, hstep, hrest⟩ := Option.bind_eq_some_iff.mp hrest
        exact ih s₁ s (.step hreach hstep) hrest
  obtain ⟨s, hs⟩ := Option.isSome_iff_exists.mp h
  rw [spawnedKernel, hs]
  exact hrun _ _ s .new hs

/-- A boot on the rows of a store, the oldest first, with a template for one agent and a job for
another. -/
def plainBoot (s : LiveKernel) : Boot where
  rows := s.kernel.stored.entries.reverse
  template name :=
    if name = "scout" then some ⟨{ name := name, capabilities := { tools := ["web_fetch"] } }, false⟩
    else none
  maxTotalJobs := 10
  now := 0
  jobs := [.new (eventJob 7 2 (.every 60)) false]
  probes :=
    { list := fun s => s.registry.agents.entries
      listed := fun _ => .refl _
      families := [.allowlistProbe, .offlineCron, .allowIrOff]
      allFamilies := .refl _
      createdAt := fun _ => 0
      now := fun _ => 0
      killed := fun _ => {} }
  assistant := {}

/-- An agent, one with tags, and a probe agent. -/
def team : List AgentManifest :=
  [{ name := "writer" }, { name := "scout", tags := ["web"] }, { name := "allowlist-probe-1" }]

/-- A team comes back: the template of the agent with tags differs, and a job refers to the probe
agent. -/
theorem restart_restores_team :
    SameAgents (spawnedKernel team)
      (restart minutely plainConfig (plainBoot (spawnedKernel team)) (spawnedKernel team)) := by
  have hreach : LiveKernel.Reaches plainConfig 10 (spawnedKernel team) :=
    reaches_spawnedKernel (by decide +kernel)
  have hrestorable : Restorable plainConfig.lib (plainBoot (spawnedKernel team))
      (spawnedKernel team) := by
    refine ⟨⟨?_, ?_, ?_, ?_⟩, ?_, ?_, ?_⟩ <;> decide +kernel
  exact (restart_restores_iff minutely hreach (List.reverse_perm _)).mpr hrestorable

/-- Of two agents whose names differ only in case, one is gone after a restart. -/
theorem restart_drops_agent :
    ¬ ∀ (config : KernelConfig) (maxTotalJobs : Nat) (boot : Boot) (s : LiveKernel),
      LiveKernel.Reaches config maxTotalJobs s → boot.rows.Perm s.kernel.stored.entries →
        SameAgents s (restart minutely config boot s) := by
  intro hall
  have hreach : LiveKernel.Reaches plainConfig 10
      (spawnedKernel [{ name := "scout" }, { name := "Scout" }]) :=
    reaches_spawnedKernel (by decide +kernel)
  have hnames := (hall plainConfig 10
    (plainBoot (spawnedKernel [{ name := "scout" }, { name := "Scout" }])) _ hreach
    (List.reverse_perm _)).names 1
  revert hnames
  decide +kernel

end ArmaraOS.Kernel.Agents
