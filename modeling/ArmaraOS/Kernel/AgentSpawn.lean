import Mathlib.Order.MinMax
import ArmaraOS.Kernel.AgentLineage
import ArmaraOS.Kernel.CronScheduler

/-!
Spawning and killing agents (`spawn_agent_with_parent` and `kill_agent` in
`openfang-kernel/src/kernel.rs`), with all they write: the registry, the capability grants, the
scheduler, the triggers, the cron jobs, and the sessions and agents of the memory store.

UUIDs are numbered: one that is drawn has a number that the kernel has not seen. The parts of a
state carry what holds of them in every state, so that no statement assumes it.
-/

namespace ArmaraOS.Kernel.Agents

open ArmaraOS.Agent ArmaraOS.Lib Function

/-! ### The parts of a kernel -/

/-- `UsageTracker`. -/
structure UsageTracker where
  totalTokens : Nat
  toolCalls : Nat
  windowStart : Int

/-- `AgentScheduler`, without the handles of its tasks. -/
structure AgentScheduler where
  quotas : Nat → Option ResourceQuota
  usage : Nat → Option UsageTracker

/-- `AgentScheduler::register`. -/
def AgentScheduler.register (s : AgentScheduler) (agentId : Nat) (quota : ResourceQuota)
    (now : Int) : AgentScheduler where
  quotas := update s.quotas agentId (some quota)
  usage := update s.usage agentId (some ⟨0, 0, now⟩)

/-- `AgentScheduler::unregister`. -/
def AgentScheduler.unregister (s : AgentScheduler) (agentId : Nat) : AgentScheduler where
  quotas := update s.quotas agentId none
  usage := update s.usage agentId none

/-- A row of `sessions`. -/
structure SessionRow where
  id : Nat
  agentId : Nat
  messages : List Message

/-- The sessions of the memory store; `drawn` UUIDs have been drawn for session ids. -/
structure SessionStore where
  rows : Table SessionRow.id
  drawn : Nat
  seen : ∀ row ∈ rows.entries, row.id < drawn

/-- `create_session`. -/
def SessionStore.createSession (s : SessionStore) (agentId : Nat) : SessionStore where
  rows := s.rows.insert ⟨s.drawn, agentId, []⟩
  drawn := s.drawn + 1
  seen := by
    intro row hrow
    rcases Table.mem_insert.mp hrow with rfl | ⟨hmem, -⟩
    · exact Nat.lt_succ_self _
    · exact Nat.lt_succ_of_lt (s.seen row hmem)

/-- `delete_agent_sessions`. -/
def SessionStore.deleteAgentSessions (s : SessionStore) (agentId : Nat) : SessionStore where
  rows := s.rows.filter fun row => row.agentId != agentId
  drawn := s.drawn
  seen := fun row hrow => s.seen row (Table.mem_filter.mp hrow).1

/-- A new session is a new row. -/
theorem SessionStore.createSession_rows_ne (s : SessionStore) (agentId : Nat) :
    (s.createSession agentId).rows ≠ s.rows := by
  intro hsame
  have hmem : (⟨s.drawn, agentId, []⟩ : SessionRow) ∈ s.rows.entries := by
    rw [← hsame]
    exact Table.mem_insert.mpr (.inl rfl)
  exact absurd (s.seen _ hmem) (lt_irrefl _)

/-- A trigger engine whose index is sound. -/
structure IndexedTriggers where
  engine : TriggerEngine
  indexed : Indexed engine

/-- A call of the engine. -/
def IndexedTriggers.call (t : IndexedTriggers) (op : TriggerOp) : IndexedTriggers :=
  ⟨(triggerStep ⟨t.engine, [], []⟩ op).engine, indexed_triggerStep _ op t.indexed⟩

/-- What the kernel is configured with, and the text of a UUID. -/
structure KernelConfig where
  lib : Library
  uuidText : Nat → String
  workspacesDir : String
  defaultMaxLlmTokensPerHour : Nat
  orchestrationDefaultBudgetMs : Option Nat

/-- The kernel. -/
structure KernelState where
  registry : AgentRegistry
  grants : Nat → Option (List Capability)
  scheduler : AgentScheduler
  triggers : IndexedTriggers
  cron : CronScheduler
  sessions : SessionStore
  stored : Table AgentEntry.id
  drawn : Nat
  agentsSeen : ∀ entry ∈ registry.agents.entries, entry.id < drawn
  grantsSeen : ∀ id, (grants id).isSome → id < drawn

/-- A kernel without agents. -/
def KernelState.new (maxTotalJobs : Nat) : KernelState where
  registry := .new
  grants _ := none
  scheduler := ⟨fun _ => none, fun _ => none⟩
  triggers := ⟨.new, .new⟩
  cron := .new maxTotalJobs
  sessions := ⟨.empty, 0, fun _ h => absurd h Table.not_mem_empty⟩
  stored := .empty
  drawn := 0
  agentsSeen _ h := absurd h Table.not_mem_empty
  grantsSeen _ h := by cases h

/-! ### The limits of a parent -/

/-- Why a spawn fails. The memory store, the workspace directory and the registry give errors of
their own; `recursion` stands for a height whose recursion does not end. -/
inductive SpawnError where
  | agentNotFound (id : Nat)
  | quotaExceeded (message : String)
  | recursion
  | memory (message : String)
  | workspace (message : String)
  | registry (error : RegistryError)
deriving DecidableEq

/-- The children that a parent records have come up to its limit. -/
def AgentEntry.isFull (parent : AgentEntry) : Bool :=
  0 < parent.manifest.resources.maxSubagents &&
    parent.manifest.resources.maxSubagents ≤ parent.children.length

/-- The check of `max_spawn_depth`. -/
def AgentRegistry.depthRefusal (r : AgentRegistry) (pid : Nat) (parent : AgentEntry) :
    Option SpawnError :=
  let maxSpawnDepth := parent.manifest.resources.maxSpawnDepth
  if 0 < maxSpawnDepth then
    match r.spawnHeightIfAddLeaf parent with
    | none => some .recursion
    | some h =>
        if maxSpawnDepth < h then
          some (.quotaExceeded (s!"Spawn would exceed max_spawn_depth ({maxSpawnDepth}) under " ++
            s!"parent {pid} (projected height {h})"))
        else none
  else none

/-- The checks on the parent of a spawn. -/
def AgentRegistry.spawnRefusal (r : AgentRegistry) (parent : Option Nat) : Option SpawnError :=
  match parent with
  | none => none
  | some pid =>
      match r.get pid with
      | none => some (.agentNotFound pid)
      | some entry =>
          if entry.isFull then
            let maxSubagents := entry.manifest.resources.maxSubagents
            some (.quotaExceeded s!"Parent agent {pid} reached max_subagents ({maxSubagents})")
          else r.depthRefusal pid entry

/-! ### The writes of a spawn -/

/-- What a spawn meets: the time, and the errors of the calls that can fail. -/
structure SpawnWorld where
  now : Int := 0
  sessionError : Option String := none
  workspaceError : Option String := none
  saveError : Option String := none

/-- The manifest that a spawn stores: the token limit of the configuration, and a workspace. -/
def preparedManifest (config : KernelConfig) (manifest : AgentManifest) : AgentManifest :=
  { manifest with
    resources := applyBudgetDefaults config.defaultMaxLlmTokensPerHour manifest.resources
    workspace := some (manifest.workspace.getD s!"{config.workspacesDir}/{manifest.name}") }

/-- The entry of a spawn. -/
def spawnedEntry (config : KernelConfig) (manifest : AgentManifest) (parent : Option Nat)
    (agentId sessionId : Nat) : AgentEntry where
  id := agentId
  name := manifest.name
  tags := manifest.tags
  manifest := preparedManifest config manifest
  parent := parent
  children := []
  sessionId := sessionId

/-- The spawn gets as far as the registry and finds its name free. -/
def Registers (s : KernelState) (world : SpawnWorld) (manifest : AgentManifest)
    (parent : Option Nat) : Prop :=
  s.registry.spawnRefusal parent = none ∧ world.sessionError = none ∧
    world.workspaceError = none ∧ s.registry.nameIndex manifest.name = none

instance (s : KernelState) (world : SpawnWorld) (manifest : AgentManifest) (parent : Option Nat) :
    Decidable (Registers s world manifest parent) :=
  inferInstanceAs (Decidable (s.registry.spawnRefusal parent = none ∧ world.sessionError = none ∧
    world.workspaceError = none ∧ s.registry.nameIndex manifest.name = none))

namespace KernelState

variable (s : KernelState)

/-- `create_session`, for an agent that is seen now at the latest. -/
def createSession (agentId : Nat) : KernelState :=
  { s with
    sessions := s.sessions.createSession agentId
    drawn := max s.drawn (agentId + 1)
    agentsSeen := fun entry h => lt_max_of_lt_left (s.agentsSeen entry h)
    grantsSeen := fun id h => lt_max_of_lt_left (s.grantsSeen id h) }

/-- The capabilities are granted, and the quota is registered with the scheduler. -/
def admitAgent (agentId : Nat) (manifest : AgentManifest) (now : Int) : KernelState :=
  { s with
    grants := update s.grants agentId (some (manifestToCapabilities manifest))
    scheduler := s.scheduler.register agentId manifest.resources now
    drawn := max s.drawn (agentId + 1)
    agentsSeen := fun entry h => lt_max_of_lt_left (s.agentsSeen entry h)
    grantsSeen := by
      intro id h
      by_cases hid : id = agentId
      · exact hid ▸ lt_max_of_lt_right (Nat.lt_succ_self _)
      · rw [update_of_ne hid] at h
        exact lt_max_of_lt_left (s.grantsSeen id h) }

/-- The entry is registered. -/
def enrol (entry : AgentEntry) : Except RegistryError KernelState :=
  match hregister : s.registry.register entry with
  | .error e => .error e
  | .ok registry =>
      .ok
        { s with
          registry := registry
          drawn := max s.drawn (entry.id + 1)
          agentsSeen := by
            intro other hother
            rw [(AgentRegistry.register_eq_ok hregister).2] at hother
            rcases Table.mem_insert.mp hother with rfl | ⟨hmem, -⟩
            · exact lt_max_of_lt_right (Nat.lt_succ_self _)
            · exact lt_max_of_lt_left (s.agentsSeen other hmem)
          grantsSeen := fun id h => lt_max_of_lt_left (s.grantsSeen id h) }

/-- The registry with an entry rewritten. -/
def rewriteEntry (id : Nat) (f : AgentEntry → AgentEntry) (hid : ∀ entry, (f entry).id = entry.id)
    (hname : ∀ entry, (f entry).name = entry.name) (tagIndex : String → List Nat) : KernelState :=
  { s with
    registry := { s.registry.rewrite id f hid hname with tagIndex := tagIndex }
    agentsSeen := by
      intro entry hentry
      rcases (Table.mem_modify fun entry hentry => (hid entry).trans hentry).mp hentry with
        ⟨hmem, -⟩ | ⟨old, hmem, -, rfl⟩
      · exact s.agentsSeen entry hmem
      · exact (hid old).symm ▸ s.agentsSeen old hmem }

/-- `add_child`, where there is a parent. -/
def addChild (parent : Option Nat) (childId : Nat) : KernelState :=
  match parent with
  | none => s
  | some parentId => s.rewriteEntry parentId
      (fun entry => { entry with children := entry.children ++ [childId] })
      (AgentRegistry.id_pushChild childId) (AgentRegistry.name_pushChild childId)
      s.registry.tagIndex

theorem addChild_registry (parentId childId : Nat) :
    (s.addChild (some parentId) childId).registry = s.registry.addChild parentId childId := rfl

/-- `save_agent`. -/
def saveAgent (entry : AgentEntry) : KernelState := { s with stored := s.stored.insert entry }

/-- The triggers of a proactive agent. -/
def watch (config : KernelConfig) (entry : AgentEntry) (now : Int) : KernelState :=
  match entry.manifest.schedule with
  | .proactive conditions =>
      { s with
        triggers := conditions.foldl (fun triggers condition =>
          match parseCondition config.lib condition with
          | none => triggers
          | some pattern =>
              triggers.call (.register (config.uuidText entry.id) pattern
                (proactivePrompt condition entry.name) 0 now)) s.triggers }
  | _ => s

/-- The event of a spawn. -/
def spawnedEvent (config : KernelConfig) (entry : AgentEntry) (now : Int) : EvaluateInput where
  lib := config.lib
  uuidText := config.uuidText
  event :=
    { payload := .lifecycle (.spawned entry.name)
      description := s!"Agent '{entry.name}' (id: {config.uuidText entry.id}) was spawned" }
  now := now
  defaultOrchBudgetMs := config.orchestrationDefaultBudgetMs

/-- The triggers are evaluated on the event of the spawn; their dispatches are dropped. -/
def announce (config : KernelConfig) (entry : AgentEntry) (now : Int) : KernelState :=
  { s with triggers := s.triggers.call (.evaluate (spawnedEvent config entry now)) }

/-! ### Spawning and killing -/

/-- The id of a spawn: the fixed one, or one that is drawn. -/
def spawnId (fixedId : Option Nat) : Nat := fixedId.getD s.drawn

/-- The kernel with a session for the new agent, and its grants and quota. -/
def admitted (config : KernelConfig) (world : SpawnWorld) (manifest : AgentManifest)
    (agentId : Nat) : KernelState :=
  (s.createSession agentId).admitAgent agentId (preparedManifest config manifest) world.now

/-- The kernel with the new agent registered, and saved when that worked. -/
def completed (config : KernelConfig) (world : SpawnWorld) (entry : AgentEntry) : KernelState :=
  ((s.saveAgent entry).watch config entry world.now).announce config entry world.now

/-- `spawn_agent_with_parent`. -/
def spawnAgentWithParent (config : KernelConfig) (world : SpawnWorld) (manifest : AgentManifest)
    (parent fixedId : Option Nat) : KernelState × Except SpawnError Nat :=
  let agentId := s.spawnId fixedId
  match s.registry.spawnRefusal parent with
  | some e => (s, .error e)
  | none =>
      match world.sessionError with
      | some e => (s, .error (.memory e))
      | none =>
          let entry := spawnedEntry config manifest parent agentId s.sessions.drawn
          match world.workspaceError with
          | some e => (s.createSession agentId, .error (.workspace e))
          | none =>
              let admitted := s.admitted config world manifest agentId
              match admitted.enrol entry with
              | .error e => (admitted, .error (.registry e))
              | .ok enrolled =>
                  let enrolled := enrolled.addChild parent agentId
                  match world.saveError with
                  | some e => (enrolled, .error (.memory e))
                  | none => (enrolled.completed config world entry, .ok agentId)

/-! ### What the steps of a spawn leave alone -/

section Spawn

variable (config : KernelConfig) (world : SpawnWorld) (manifest : AgentManifest)
  (agentId : Nat) (parent : Option Nat)

@[simp] theorem admitted_registry :
    (s.admitted config world manifest agentId).registry = s.registry := rfl

@[simp] theorem admitted_sessions : (s.admitted config world manifest agentId).sessions =
    s.sessions.createSession agentId := rfl

@[simp] theorem admitted_grants : (s.admitted config world manifest agentId).grants =
    update s.grants agentId (some (manifestToCapabilities manifest)) := rfl

theorem enrol_of_free (entry : AgentEntry) (h : s.registry.nameIndex entry.name = none) :
    ∃ s', s.enrol entry = .ok s' := by
  obtain ⟨registry, hregister⟩ := AgentRegistry.register_of_free h
  unfold enrol
  split
  · next hfailed =>
      rw [hregister] at hfailed
      cases hfailed
  · exact ⟨_, rfl⟩

theorem enrol_of_taken (entry : AgentEntry) (h : s.registry.nameIndex entry.name ≠ none) :
    s.enrol entry = .error (.agentAlreadyExists entry.name) := by
  have htaken := AgentRegistry.register_of_taken h
  unfold enrol
  split
  · next hfailed =>
      rw [htaken] at hfailed
      injection hfailed with hsame
      rw [hsame]
  · next hregister =>
      rw [htaken] at hregister
      cases hregister

variable {s}

/-- What a registration writes. -/
theorem enrol_eq_ok {entry : AgentEntry} {s' : KernelState} (h : s.enrol entry = .ok s') :
    s.registry.nameIndex entry.name = none ∧ s.registry.register entry = .ok s'.registry ∧
      s'.grants = s.grants ∧ s'.scheduler = s.scheduler ∧ s'.triggers = s.triggers ∧
      s'.cron = s.cron ∧ s'.sessions = s.sessions ∧ s'.stored = s.stored ∧
      s'.drawn = max s.drawn (entry.id + 1) := by
  unfold enrol at h
  split at h
  · cases h
  · next hregister =>
      cases h
      exact ⟨(AgentRegistry.register_eq_ok hregister).1, hregister, rfl, rfl, rfl, rfl, rfl, rfl,
        rfl⟩

variable (s)

@[simp] theorem addChild_sessions (childId : Nat) :
    (s.addChild parent childId).sessions = s.sessions := by
  cases parent <;> rfl

@[simp] theorem addChild_grants (childId : Nat) :
    (s.addChild parent childId).grants = s.grants := by
  cases parent <;> rfl

@[simp] theorem addChild_triggers (childId : Nat) :
    (s.addChild parent childId).triggers = s.triggers := by
  cases parent <;> rfl

@[simp] theorem addChild_cron (childId : Nat) :
    (s.addChild parent childId).cron = s.cron := by
  cases parent <;> rfl

@[simp] theorem addChild_drawn (childId : Nat) :
    (s.addChild parent childId).drawn = s.drawn := by
  cases parent <;> rfl

variable (entry : AgentEntry)

@[simp] theorem watch_registry (now : Int) : (s.watch config entry now).registry = s.registry := by
  unfold watch
  split <;> rfl

@[simp] theorem watch_grants (now : Int) : (s.watch config entry now).grants = s.grants := by
  unfold watch
  split <;> rfl

@[simp] theorem watch_cron (now : Int) : (s.watch config entry now).cron = s.cron := by
  unfold watch
  split <;> rfl

@[simp] theorem watch_drawn (now : Int) : (s.watch config entry now).drawn = s.drawn := by
  unfold watch
  split <;> rfl

@[simp] theorem completed_registry :
    (s.completed config world entry).registry = s.registry := by
  simp [completed, announce, saveAgent]

@[simp] theorem completed_grants : (s.completed config world entry).grants = s.grants := by
  simp [completed, announce, saveAgent]

@[simp] theorem completed_cron : (s.completed config world entry).cron = s.cron := by
  simp [completed, announce, saveAgent]

@[simp] theorem completed_drawn : (s.completed config world entry).drawn = s.drawn := by
  simp [completed, announce, saveAgent]

end Spawn

/-! ### The outcomes of a spawn -/

section Outcomes

variable (config : KernelConfig) (world : SpawnWorld) (manifest : AgentManifest)
  (parent fixedId : Option Nat)

/-- The entry that a spawn makes in a state. -/
def entryFor : AgentEntry :=
  spawnedEntry config manifest parent (s.spawnId fixedId) s.sessions.drawn

/-- How a spawn ends: what it has written, and what it returns. -/
inductive SpawnOutcome : KernelState × Except SpawnError Nat → Prop
  | refused (e : SpawnError) (hrefused : s.registry.spawnRefusal parent = some e) :
      SpawnOutcome (s, .error e)
  | noSession (e : String) (hadmits : s.registry.spawnRefusal parent = none)
      (hsession : world.sessionError = some e) : SpawnOutcome (s, .error (.memory e))
  | noWorkspace (e : String) (hadmits : s.registry.spawnRefusal parent = none)
      (hsession : world.sessionError = none) (hworkspace : world.workspaceError = some e) :
      SpawnOutcome (s.createSession (s.spawnId fixedId), .error (.workspace e))
  | taken (hadmits : s.registry.spawnRefusal parent = none) (hsession : world.sessionError = none)
      (hworkspace : world.workspaceError = none)
      (htaken : s.registry.nameIndex manifest.name ≠ none) :
      SpawnOutcome (s.admitted config world manifest (s.spawnId fixedId),
        .error (.registry (.agentAlreadyExists manifest.name)))
  | unsaved (e : String) (enrolled : KernelState)
      (hadmits : s.registry.spawnRefusal parent = none) (hsession : world.sessionError = none)
      (hworkspace : world.workspaceError = none)
      (henrolled : (s.admitted config world manifest (s.spawnId fixedId)).enrol
        (s.entryFor config manifest parent fixedId) = .ok enrolled)
      (hsave : world.saveError = some e) :
      SpawnOutcome (enrolled.addChild parent (s.spawnId fixedId), .error (.memory e))
  | spawned (enrolled : KernelState)
      (hadmits : s.registry.spawnRefusal parent = none) (hsession : world.sessionError = none)
      (hworkspace : world.workspaceError = none)
      (henrolled : (s.admitted config world manifest (s.spawnId fixedId)).enrol
        (s.entryFor config manifest parent fixedId) = .ok enrolled)
      (hsave : world.saveError = none) :
      SpawnOutcome ((enrolled.addChild parent (s.spawnId fixedId)).completed config world
        (s.entryFor config manifest parent fixedId), .ok (s.spawnId fixedId))

/-- A spawn ends in one of these ways. -/
theorem spawn_outcome : SpawnOutcome s config world manifest parent fixedId
    (s.spawnAgentWithParent config world manifest parent fixedId) := by
  unfold spawnAgentWithParent
  split
  · next e hrefused => exact .refused e hrefused
  · next hadmits =>
      split
      · next e hsession => exact .noSession e hadmits hsession
      · next hsession =>
          dsimp only
          split
          · next e hworkspace => exact .noWorkspace e hadmits hsession hworkspace
          · next hworkspace =>
              split
              · next e hfailed =>
                  have htaken : s.registry.nameIndex manifest.name ≠ none := by
                    intro hfree
                    obtain ⟨s', hok⟩ := enrol_of_free
                      (s.admitted config world manifest (s.spawnId fixedId))
                      (s.entryFor config manifest parent fixedId) hfree
                    rw [entryFor, hfailed] at hok
                    cases hok
                  have herror := enrol_of_taken
                    (s.admitted config world manifest (s.spawnId fixedId))
                    (s.entryFor config manifest parent fixedId) htaken
                  rw [entryFor, hfailed] at herror
                  injection herror with herror
                  rw [herror]
                  exact .taken hadmits hsession hworkspace htaken
              · next enrolled henrolled =>
                  split
                  · next e hsave =>
                      exact .unsaved e enrolled hadmits hsession hworkspace henrolled hsave
                  · next hsave =>
                      exact .spawned enrolled hadmits hsession hworkspace henrolled hsave

/-- The numbers that were seen stay seen. -/
theorem drawn_le_spawn (fixedId : Option Nat) :
    s.drawn ≤ (s.spawnAgentWithParent config world manifest parent fixedId).1.drawn := by
  have houtcome := s.spawn_outcome config world manifest parent fixedId
  generalize s.spawnAgentWithParent config world manifest parent fixedId = out at houtcome ⊢
  have hadmitted : s.drawn ≤ (s.admitted config world manifest (s.spawnId fixedId)).drawn :=
    (Nat.le_max_left _ _).trans (Nat.le_max_left _ _)
  cases houtcome with
  | refused e hrefused => exact Nat.le_refl _
  | noSession e hadmits hsession => exact Nat.le_refl _
  | noWorkspace e hadmits hsession hworkspace => exact Nat.le_max_left _ _
  | taken hadmits hsession hworkspace htaken => exact hadmitted
  | unsaved e enrolled hadmits hsession hworkspace henrolled hsave =>
      obtain ⟨-, -, -, -, -, -, -, -, hdrawn⟩ := enrol_eq_ok henrolled
      rw [addChild_drawn, hdrawn]
      exact hadmitted.trans (Nat.le_max_left _ _)
  | spawned enrolled hadmits hsession hworkspace henrolled hsave =>
      obtain ⟨-, -, -, -, -, -, -, -, hdrawn⟩ := enrol_eq_ok henrolled
      rw [completed_drawn, addChild_drawn, hdrawn]
      exact hadmitted.trans (Nat.le_max_left _ _)

/-- A parent that admits a spawn is registered, and its record is not full. -/
theorem not_full_of_admits {r : AgentRegistry} {p : Nat} (h : r.spawnRefusal (some p) = none) :
    ∃ entry, r.get p = some entry ∧ entry.isFull = false := by
  unfold AgentRegistry.spawnRefusal at h
  dsimp only at h
  split at h
  · cases h
  · next entry hget =>
      split at h
      · cases h
      · next hfull => exact ⟨entry, hget, by simpa using hfull⟩

theorem lt_drawn_of_registered {id : Nat} {entry : AgentEntry}
    (h : s.registry.get id = some entry) : id < s.drawn := by
  obtain ⟨hmem, rfl⟩ := Table.find_eq_some_iff.mp h
  exact s.agentsSeen entry hmem

end Outcomes

/-- What the store does with the rows of an agent that is killed. -/
structure KillWorld where
  sessionsDeleted : Bool := true
  agentDeleted : Bool := true

/-- `kill_agent`. -/
def killAgent (config : KernelConfig) (world : KillWorld) (agentId : Nat) :
    KernelState × Except RegistryError Unit :=
  match hremove : s.registry.remove agentId with
  | .error e => (s, .error e)
  | .ok removed =>
      ({ s with
         registry := removed.1
         scheduler := s.scheduler.unregister agentId
         grants := update s.grants agentId none
         triggers := s.triggers.call (.removeAgentTriggers (config.uuidText agentId))
         cron := (s.cron.removeAgentJobs agentId).1
         sessions :=
           if world.sessionsDeleted then s.sessions.deleteAgentSessions agentId else s.sessions
         stored := if world.agentDeleted then s.stored.erase agentId else s.stored
         agentsSeen := by
           intro entry hentry
           rw [(AgentRegistry.remove_eq_ok hremove).2.1] at hentry
           exact s.agentsSeen entry (Table.mem_erase.mp hentry).1
         grantsSeen := by
           intro id h
           by_cases hid : id = agentId
           · subst hid
             rw [update_self] at h
             cases h
           · rw [update_of_ne hid] at h
             exact s.grantsSeen id h }, .ok ())

end KernelState

/-- A configuration without defaults, whose UUIDs are written as their numbers. -/
def plainConfig : KernelConfig where
  lib :=
    { sha256Hex := id
      jsonToString := fun _ => ""
      jsonFromStr := fun _ => none
      toLowercase := Text.toAsciiLowercase }
  uuidText := toString
  workspacesDir := "workspaces"
  defaultMaxLlmTokensPerHour := 0
  orchestrationDefaultBudgetMs := none

end ArmaraOS.Kernel.Agents
