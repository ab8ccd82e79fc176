import ArmaraOS.Kernel.AgentSpawn
import ArmaraOS.Kernel.Approval

/-!
Hands and the agents that they run (`activate_hand`, `deactivate_hand` and
`apply_agent_manifest_update` in `openfang-kernel/src/kernel.rs`; `openfang-hands/src/registry.rs`).

A hand definition stands with what its activation reads for the agent; prompt, settings and model
go into fields of the manifest that no check reads.
-/

namespace ArmaraOS.Kernel.Agents

open ArmaraOS.Lib Function

/-! ### The hand registry -/

/-- `HandDefinition`, with the name and the iterations of its agent. -/
structure HandDefinition where
  id : String
  agentName : String
  tools : List String
  maxIterations : Option Nat
deriving DecidableEq

/-- `HandStatus`. -/
inductive HandStatus where
  | active
  | paused
  | error (message : String)
  | inactive
deriving DecidableEq

/-- `HandInstance`. -/
structure HandInstance where
  instanceId : Nat
  handId : String
  status : HandStatus
  agentId : Option Nat
  agentName : String
  config : List (String × Json)

/-- `HandError`: those of the registry. -/
inductive HandError where
  | notFound (handId : String)
  | alreadyActive (handId : String)
  | instanceNotFound (instanceId : Nat)

/-- `HandRegistry`; `drawn` UUIDs have been drawn for instance ids. -/
structure HandRegistry where
  definitions : Table HandDefinition.id
  instances : Table HandInstance.instanceId
  drawn : Nat

namespace HandRegistry

/-- `HandRegistry::activate`. -/
def activate (h : HandRegistry) (handId : String) (config : List (String × Json)) :
    Except HandError (HandRegistry × HandInstance) :=
  match h.definitions.find handId with
  | none => .error (.notFound handId)
  | some definition =>
      if h.instances.entries.any fun i => i.handId == handId && i.status == .active then
        .error (.alreadyActive handId)
      else
        let made : HandInstance := ⟨h.drawn, handId, .active, none, definition.agentName, config⟩
        .ok ({ h with instances := h.instances.insert made, drawn := h.drawn + 1 }, made)

/-- `HandRegistry::deactivate`. -/
def deactivate (h : HandRegistry) (instanceId : Nat) :
    Except HandError (HandRegistry × HandInstance) :=
  match h.instances.find instanceId with
  | none => .error (.instanceNotFound instanceId)
  | some found => .ok ({ h with instances := h.instances.erase instanceId }, found)

/-- `HandRegistry::set_agent`, for an instance that is there. -/
def setAgent (h : HandRegistry) (instanceId agentId : Nat) : HandRegistry :=
  { h with
    instances := h.instances.modify instanceId (fun i => { i with agentId := some agentId })
      fun _ hid => hid }

end HandRegistry

/-! ### Activation -/

/-- The kernel with its hands. -/
structure HandKernel where
  kernel : KernelState
  hands : HandRegistry

/-- What an activation meets: its spawn, the kill of the agent before it, and the times at which
cron jobs are moved. -/
structure HandWorld where
  spawn : SpawnWorld := {}
  kill : KernelState.KillWorld := {}
  cronNow : Nat → Int := fun _ => 0

/-- Why an activation fails. -/
inductive ActivationError where
  | unknownHand (handId : String)
  | hand (error : HandError)
  | spawn (error : SpawnError)

/-- The tag of the agents of a hand. -/
def handTag (handId : String) : String := s!"hand:{handId}"

/-- The manifest of the agent of a hand. -/
def handManifest (config : KernelConfig) (definition : HandDefinition) (handId : String)
    (instanceId : Nat) : AgentManifest where
  name := definition.agentName
  tags := [handTag handId, s!"hand_instance:{config.uuidText instanceId}"]
  profile := if definition.tools.isEmpty then none else some .custom
  capabilities := { tools := definition.tools }
  schedule := if definition.maxIterations.isSome then .continuous 3600 else .reactive

namespace KernelState

variable (s : KernelState)

/-- The agent that has a name. -/
def findNamed (name : String) : Option AgentEntry :=
  s.registry.agents.entries.find? fun entry => entry.name == name

/-- `take_agent_triggers`: the triggers that are taken. -/
def agentTriggers (config : KernelConfig) (agentId : Nat) : List Trigger :=
  (s.triggers.engine.takeAgentTriggers (config.uuidText agentId)).2

/-- `take_agent_triggers`: the kernel without them. -/
def takeTriggers (config : KernelConfig) (agentId : Nat) : KernelState :=
  { s with triggers := s.triggers.call (.takeAgentTriggers (config.uuidText agentId)) }

/-- `restore_triggers`. -/
def restoreTriggers (config : KernelConfig) (agentId : Nat) (triggers : List Trigger) :
    KernelState :=
  { s with triggers := s.triggers.call (.restoreTriggers (config.uuidText agentId) triggers) }

/-- The agent that has the name of a hand's agent is killed; its triggers were taken before. -/
def withoutAgent (config : KernelConfig) (world : KillWorld) (old : Option AgentEntry) :
    KernelState :=
  match old with
  | none => s
  | some entry => ((s.takeTriggers config entry.id).killAgent config world entry.id).1

section Library

variable {Expr Zone : Type} (lib : CronLibrary Expr Zone)

/-- `reassign_agent_jobs`, from the agent that was there before. -/
def reassignJobs (old : Option AgentEntry) (agentId : Nat) (now : Nat → Int) : KernelState :=
  match old with
  | none => s
  | some entry => { s with cron := (s.cron.reassignAgentJobs lib entry.id agentId now).1 }

theorem reassignJobs_registry (old : Option AgentEntry) (agentId : Nat) (now : Nat → Int) :
    (s.reassignJobs lib old agentId now).registry = s.registry := by
  cases old <;> rfl

end Library

end KernelState

section Library

variable {Expr Zone : Type} (lib : CronLibrary Expr Zone) (config : KernelConfig)
  (fromString : String → Nat)

/-- `activate_hand`; `fromString` is `AgentId::from_string`. -/
def activateHand (world : HandWorld) (s : HandKernel) (handId : String)
    (instanceConfig : List (String × Json)) :
    HandKernel × Except ActivationError HandInstance :=
  match s.hands.definitions.find handId with
  | none => (s, .error (.unknownHand handId))
  | some definition =>
      match s.hands.activate handId instanceConfig with
      | .error e => (s, .error (.hand e))
      | .ok (hands, made) =>
          let old := s.kernel.findNamed definition.agentName
          let saved := (old.map fun entry => s.kernel.agentTriggers config entry.id).getD []
          let out := (s.kernel.withoutAgent config world.kill old).spawnAgentWithParent config
            world.spawn (handManifest config definition handId made.instanceId) none
            (some (fromString handId))
          match out.2 with
          | .error e => (⟨out.1, hands⟩, .error (.spawn e))
          | .ok agentId =>
              (⟨(out.1.restoreTriggers config agentId saved).reassignJobs lib old agentId
                world.cronNow, hands.setAgent made.instanceId agentId⟩,
                .ok { made with agentId := some agentId })

/-- The agents of a list of entries killed, one after the other. -/
def killEach (world : KernelState.KillWorld) (s : KernelState) (entries : List AgentEntry) :
    KernelState :=
  entries.foldl (fun s entry => (s.killAgent config world entry.id).1) s

/-- `deactivate_hand`. An instance that never got its agent has the agents with its tag killed. -/
def deactivateHand (world : KernelState.KillWorld) (s : HandKernel) (instanceId : Nat) :
    HandKernel × Except HandError Unit :=
  match s.hands.deactivate instanceId with
  | .error e => (s, .error e)
  | .ok (hands, found) =>
      match found.agentId with
      | some agentId => (⟨(s.kernel.killAgent config world agentId).1, hands⟩, .ok ())
      | none =>
          let tagged := s.kernel.registry.agents.entries.filter fun entry =>
            entry.tags.contains (handTag found.handId)
          (⟨killEach config world s.kernel tagged, hands⟩, .ok ())

end Library

/-! ### Manifest updates -/

/-- Why a manifest update fails. -/
inductive UpdateError where
  | agentNotFound (id : Nat)
  | config (message : String)
  | memory (message : String)

/-- The manifest that an update stores. -/
def updatedManifest (config : KernelConfig) (entry : AgentEntry) (manifest : AgentManifest) :
    AgentManifest :=
  { manifest with
    workspace := manifest.workspace.or entry.manifest.workspace
    resources := applyBudgetDefaults config.defaultMaxLlmTokensPerHour manifest.resources }

namespace KernelState

variable (s : KernelState)

/-- The writes of an update before the agent is saved: its manifest and tags, its grants, its quota;
its triggers go. -/
def setManifest (config : KernelConfig) (entry : AgentEntry) (manifest : AgentManifest)
    (now : Int) (hentry : s.registry.get entry.id = some entry) : KernelState :=
  { s.rewriteEntry entry.id
      (fun entry => { entry with manifest := manifest, tags := manifest.tags })
      (AgentRegistry.id_setManifest manifest) (AgentRegistry.name_setManifest manifest)
      (s.registry.withManifest entry manifest).tagIndex with
    grants := update s.grants entry.id (some (manifestToCapabilities manifest))
    scheduler := s.scheduler.register entry.id manifest.resources now
    triggers := s.triggers.call (.removeAgentTriggers (config.uuidText entry.id))
    grantsSeen := by
      intro id h
      by_cases hid : id = entry.id
      · rw [hid]
        exact s.lt_drawn_of_registered hentry
      · rw [update_of_ne hid] at h
        exact s.grantsSeen id h }

/-- `apply_agent_manifest_update`. -/
def applyAgentManifestUpdate (config : KernelConfig) (world : SpawnWorld) (agentId : Nat)
    (manifest : AgentManifest) : KernelState × Except UpdateError AgentEntry :=
  match hget : s.registry.get agentId with
  | none => (s, .error (.agentNotFound agentId))
  | some entry =>
      if manifest.name ≠ entry.name then
        (s, .error (.config (s!"manifest name '{manifest.name}' must match the agent's " ++
          s!"registered name '{entry.name}'")))
      else
        let manifest := updatedManifest config entry manifest
        let written := s.setManifest config entry manifest world.now
          ((Table.find_eq_some_iff.mp hget).2 ▸ hget)
        let entry := { entry with manifest := manifest, tags := manifest.tags }
        match world.saveError with
        | some e => (written, .error (.memory e))
        | none => ((written.saveAgent entry).watch config entry world.now, .ok entry)

end KernelState

end ArmaraOS.Kernel.Agents
