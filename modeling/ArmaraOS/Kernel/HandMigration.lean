import Mathlib.Data.List.Perm.Subperm
import ArmaraOS.Kernel.Hands

/-!
What an activation does to the schedule of the agent that it replaces.

The triggers of the agent are taken out before it is killed, and stored again for the agent that is
spawned in its place; a spawn that fails leaves them in neither. Its cron jobs go with the kill,
and the move of its jobs to the new agent comes behind that and finds none.
-/

namespace ArmaraOS.Kernel

open ArmaraOS.Lib

/-! ### Triggers taken and restored -/

/-- A trigger without its id and its agent. -/
def Trigger.detached (t : Trigger) : Trigger := { t with id := 0, agentId := "" }

namespace TriggerEngine

/-- The triggers of an agent. -/
def ownedBy (e : TriggerEngine) (agentId : String) : List Trigger :=
  e.triggers.entries.filter fun t => t.agentId == agentId

theorem mem_ownedBy {e : TriggerEngine} {agentId : String} {t : Trigger} :
    t ∈ e.ownedBy agentId ↔ t ∈ e.triggers.entries ∧ t.agentId = agentId := by
  simp [ownedBy]

/-- No trigger is taken twice. -/
theorem takeLoop_nodup {ids : List Nat} {triggers : Table Trigger.id} {taken : List Trigger}
    (h : taken.Nodup) (hgone : ∀ t ∈ taken, t ∉ triggers.entries) :
    (takeLoop ids triggers taken).2.Nodup := by
  fun_induction takeLoop ids triggers taken with
  | case1 triggers taken => exact h
  | case2 id ids triggers taken hnone ih => exact ih h hgone
  | case3 id ids triggers taken trigger hsome ih =>
      obtain ⟨hmem, rfl⟩ := Table.find_eq_some_iff.mp hsome
      have hnew : trigger ∉ taken := fun hold => hgone trigger hold hmem
      refine ih (List.nodup_append_comm.mp (List.nodup_cons.mpr ⟨hnew, h⟩)) ?_
      intro t ht hstored
      obtain ⟨hstored, hne⟩ := Table.mem_erase.mp hstored
      rcases List.mem_append.mp ht with hold | hlast
      · exact hgone t hold hstored
      · exact hne (congrArg Trigger.id (List.mem_singleton.mp hlast))

end TriggerEngine

namespace Indexed

variable {e : TriggerEngine} (agentId : String)

/-- What is taken is what the agent owns. -/
theorem taken_perm (h : Indexed e) :
    ((e.takeAgentTriggers agentId).2).Perm (e.ownedBy agentId) := by
  have hnodup : (e.takeAgentTriggers agentId).2.Nodup :=
    TriggerEngine.takeLoop_nodup List.nodup_nil fun t ht => absurd ht List.not_mem_nil
  have hentries : e.triggers.entries.Nodup := e.triggers.distinct.of_map
  refine (List.perm_ext_iff_of_nodup hnodup (hentries.filter _)).mpr fun t => ?_
  rw [← TriggerEngine.ownedBy, TriggerEngine.mem_ownedBy]
  constructor
  · intro ht
    rcases mem_takeLoop_taken.mp ht with hnil | ⟨hmem, hlisted⟩
    · exact absurd hnil List.not_mem_nil
    · exact ⟨hmem, (h.mem_iff_agentId hmem agentId).mp hlisted⟩
  · rintro ⟨hmem, howner⟩
    exact mem_takeLoop_taken.mpr (.inr ⟨hmem, (h.mem_iff_agentId hmem agentId).mpr howner⟩)

/-- A trigger that is stored under a fresh id joins those of its agent. -/
theorem ownedBy_store (h : Indexed e) {t : Trigger} (hid : t.id = e.drawn) :
    (e.store t).ownedBy t.agentId = t :: e.ownedBy t.agentId := by
  have hfresh : ∀ t' ∈ e.triggers.entries, t'.id ≠ t.id := by
    intro t' ht'
    rw [hid]
    exact (h.drawn t' ht').ne
  simp [TriggerEngine.ownedBy, TriggerEngine.store, Table.entries_insert_of_fresh hfresh]

/-- Triggers that are restored join those of their new agent. -/
theorem restored_perm (h : Indexed e) (triggers : List Trigger) :
    (((e.restoreTriggers agentId triggers).ownedBy agentId).map Trigger.detached).Perm
      (triggers.map Trigger.detached ++ (e.ownedBy agentId).map Trigger.detached) := by
  induction triggers generalizing e with
  | nil => exact .refl _
  | cons old triggers ih =>
      have hstored : Indexed (e.store { old with id := e.drawn, agentId := agentId }) :=
        h.store rfl
      have hrest := ih hstored
      rw [h.ownedBy_store rfl] at hrest
      exact hrest.trans List.perm_middle

end Indexed

end ArmaraOS.Kernel

namespace ArmaraOS.Kernel.Agents

open ArmaraOS.Lib Function

/-! ### Schedules -/

namespace KernelState

/-- The triggers of an agent. -/
def ownedTriggers (config : KernelConfig) (s : KernelState) (agentId : Nat) : List Trigger :=
  s.triggers.engine.ownedBy (config.uuidText agentId)

/-- The cron jobs of an agent. -/
def ownedJobs (s : KernelState) (agentId : Nat) : List JobMeta :=
  s.cron.jobs.entries.filter fun entry => entry.job.agentId == agentId

theorem mem_ownedJobs {s : KernelState} {agentId : Nat} {entry : JobMeta} :
    entry ∈ s.ownedJobs agentId ↔ entry ∈ s.cron.jobs.entries ∧ entry.job.agentId = agentId := by
  simp [ownedJobs]

end KernelState

/-- The job with the same id, schedule, action and enablement. -/
structure SameJob (before after : CronJob) : Prop where
  id : after.id = before.id
  schedule : after.schedule = before.schedule
  action : after.action = before.action
  enabled : after.enabled = before.enabled

/-- What an activation that returns is to do with the schedule of the agents of a name: it is
that of the new agent, or still there when there is none. -/
def ScheduleKept (config : KernelConfig) (before : KernelState) (name : String)
    (after : KernelState) (result : Except ActivationError HandInstance) : Prop :=
  ∀ old ∈ before.registry.agents.entries, old.name = name →
    match result with
    | .ok made => ∃ n, made.agentId = some n ∧
        ((before.ownedTriggers config old.id).map Trigger.detached).Subperm
          ((after.ownedTriggers config n).map Trigger.detached) ∧
        ∀ entry ∈ before.ownedJobs old.id, ∃ entry' ∈ after.ownedJobs n,
          SameJob entry.job entry'.job
    | .error _ =>
        (∀ t ∈ before.ownedTriggers config old.id, t ∈ after.triggers.engine.triggers.entries) ∧
          ∀ entry ∈ before.ownedJobs old.id, entry ∈ after.cron.jobs.entries

/-- No call of the spawn fails. -/
def SpawnWorld.Completes (world : SpawnWorld) : Prop :=
  world.sessionError = none ∧ world.workspaceError = none ∧ world.saveError = none

/-- The condition on an activation: another instance of the hand is active, or the agent that has
the name of the hand's agent has no cron jobs, and no triggers either where the spawn fails. -/
def ScheduleMovable (config : KernelConfig) (world : HandWorld) (s : HandKernel)
    (handId : String) : Prop :=
  ∀ definition, s.hands.definitions.find handId = some definition →
    (∀ i ∈ s.hands.instances.entries, i.handId = handId → i.status ≠ .active) →
      ∀ old ∈ s.kernel.registry.agents.entries, old.name = definition.agentName →
        s.kernel.ownedJobs old.id = [] ∧
          (world.spawn.Completes ∨ s.kernel.ownedTriggers config old.id = [])

/-! ### The steps of an activation -/

namespace KernelState

section Steps

variable {s : KernelState} (config : KernelConfig)

/-- What a kill of a registered agent writes to the names, the triggers and the cron jobs. -/
theorem killAgent_of_registered (world : KillWorld) {entry : AgentEntry}
    (h : s.registry.get entry.id = some entry) :
    (s.killAgent config world entry.id).1.registry.nameIndex =
        update s.registry.nameIndex entry.name none ∧
      (s.killAgent config world entry.id).1.triggers =
        s.triggers.call (.removeAgentTriggers (config.uuidText entry.id)) ∧
      (s.killAgent config world entry.id).1.cron = (s.cron.removeAgentJobs entry.id).1 := by
  obtain ⟨registry, hremoved⟩ := AgentRegistry.remove_of_registered h
  unfold killAgent
  split
  · next e hfailed =>
      rw [hremoved] at hfailed
      cases hfailed
  · next removed hremove =>
      rw [hremoved] at hremove
      cases hremove
      exact ⟨(AgentRegistry.remove_eq_ok hremoved).2.2, rfl, rfl⟩

/-- A spawn leaves the cron jobs. -/
theorem spawn_cron (world : SpawnWorld) (manifest : AgentManifest) (parent fixedId : Option Nat) :
    (s.spawnAgentWithParent config world manifest parent fixedId).1.cron = s.cron := by
  have houtcome := s.spawn_outcome config world manifest parent fixedId
  generalize s.spawnAgentWithParent config world manifest parent fixedId = out at houtcome ⊢
  cases houtcome with
  | refused e hrefused => rfl
  | noSession e hadmits hsession => rfl
  | noWorkspace e hadmits hsession hworkspace => rfl
  | taken hadmits hsession hworkspace htaken => rfl
  | unsaved e enrolled hadmits hsession hworkspace henrolled hsave =>
      obtain ⟨-, -, -, -, -, hcron, -⟩ := enrol_eq_ok henrolled
      rw [addChild_cron, hcron]
      rfl
  | spawned enrolled hadmits hsession hworkspace henrolled hsave =>
      obtain ⟨-, -, -, -, -, hcron, -⟩ := enrol_eq_ok henrolled
      rw [completed_cron, addChild_cron, hcron]
      rfl

/-- A spawn that fails leaves the triggers. -/
theorem failed_spawn_triggers (world : SpawnWorld) (manifest : AgentManifest)
    (parent fixedId : Option Nat) {e : SpawnError}
    (h : (s.spawnAgentWithParent config world manifest parent fixedId).2 = .error e) :
    (s.spawnAgentWithParent config world manifest parent fixedId).1.triggers = s.triggers := by
  have houtcome := s.spawn_outcome config world manifest parent fixedId
  generalize s.spawnAgentWithParent config world manifest parent fixedId = out at houtcome h ⊢
  cases houtcome with
  | refused e hrefused => rfl
  | noSession e hadmits hsession => rfl
  | noWorkspace e hadmits hsession hworkspace => rfl
  | taken hadmits hsession hworkspace htaken => rfl
  | unsaved e enrolled hadmits hsession hworkspace henrolled hsave =>
      obtain ⟨-, -, -, -, htriggers, -⟩ := enrol_eq_ok henrolled
      rw [addChild_triggers, htriggers]
      rfl
  | spawned enrolled hadmits hsession hworkspace henrolled hsave => cases h

/-- A spawn without a parent under a free name returns Ok exactly when none of its calls fails. -/
theorem free_spawn_ok_iff (world : SpawnWorld) (manifest : AgentManifest) (fixedId : Option Nat)
    (hfree : s.registry.nameIndex manifest.name = none) :
    (∃ n, (s.spawnAgentWithParent config world manifest none fixedId).2 = .ok n) ↔
      world.Completes := by
  have houtcome := s.spawn_outcome config world manifest none fixedId
  generalize s.spawnAgentWithParent config world manifest none fixedId = out at houtcome ⊢
  unfold SpawnWorld.Completes
  cases houtcome with
  | refused e hrefused => cases hrefused
  | noSession e hadmits hsession => simp [hsession]
  | noWorkspace e hadmits hsession hworkspace => simp [hworkspace]
  | taken hadmits hsession hworkspace htaken => exact absurd hfree htaken
  | unsaved e enrolled hadmits hsession hworkspace henrolled hsave => simp [hsave]
  | spawned enrolled hadmits hsession hworkspace henrolled hsave =>
      simp [hsession, hworkspace, hsave]

end Steps

/-! ### The agent that is replaced -/

section Replaced

variable {s : KernelState} {old : AgentEntry} (config : KernelConfig) (world : KillWorld)

theorem get_of_mem (h : old ∈ s.registry.agents.entries) : s.registry.get old.id = some old :=
  Table.find_eq_some_iff.mpr ⟨h, rfl⟩

/-- Its name is free. -/
theorem withoutAgent_name (h : old ∈ s.registry.agents.entries) :
    (s.withoutAgent config world (some old)).registry.nameIndex old.name = none := by
  have hget : (s.takeTriggers config old.id).registry.get old.id = some old := get_of_mem h
  rw [withoutAgent, (killAgent_of_registered config world hget).1]
  exact update_self _ _ _

/-- Its triggers are gone. -/
theorem withoutAgent_triggers (h : old ∈ s.registry.agents.entries) {t : Trigger}
    (ht : t ∈ s.ownedTriggers config old.id) :
    t ∉ (s.withoutAgent config world (some old)).triggers.engine.triggers.entries := by
  have hget : (s.takeTriggers config old.id).registry.get old.id = some old := get_of_mem h
  obtain ⟨hmem, howner⟩ := TriggerEngine.mem_ownedBy.mp ht
  have hlisted := (s.triggers.indexed.mem_iff_agentId hmem _).mpr howner
  rw [withoutAgent, (killAgent_of_registered config world hget).2.1]
  intro hstored
  have htaken : t ∈ (s.takeTriggers config old.id).triggers.engine.triggers.entries :=
    (mem_takeLoop_stored.mp hstored).1
  exact (mem_takeLoop_stored.mp htaken).2 hlisted

/-- Its cron jobs are gone, and with them their ids. -/
theorem withoutAgent_jobs (h : old ∈ s.registry.agents.entries) {entry entry' : JobMeta}
    (hentry : entry ∈ s.ownedJobs old.id)
    (hentry' : entry' ∈ (s.withoutAgent config world (some old)).cron.jobs.entries) :
    entry'.key ≠ entry.key := by
  have hget : (s.takeTriggers config old.id).registry.get old.id = some old := get_of_mem h
  obtain ⟨hmem, howner⟩ := mem_ownedJobs.mp hentry
  rw [withoutAgent, (killAgent_of_registered config world hget).2.2] at hentry'
  obtain ⟨hmem', hother⟩ := Table.mem_filter.mp hentry'
  intro hkey
  obtain rfl := Table.eq_of_key_eq hmem' hmem hkey
  simp [howner] at hother

end Replaced

/-- What was taken before is restored for the new agent. -/
theorem restored_subperm {before : KernelState} (after : KernelState) (config : KernelConfig)
    (oldId n : Nat) : ((before.ownedTriggers config oldId).map Trigger.detached).Subperm
      (((after.restoreTriggers config n (before.agentTriggers config oldId)).ownedTriggers config
        n).map Trigger.detached) := by
  have htaken := (before.triggers.indexed.taken_perm (config.uuidText oldId)).map Trigger.detached
  have hrestored := after.triggers.indexed.restored_perm (config.uuidText n)
    (before.agentTriggers config oldId)
  refine htaken.symm.subperm.trans (List.Subperm.trans ?_ hrestored.symm.subperm)
  exact (List.sublist_append_left _ _).subperm

/-- A job that is moved keeps its id. -/
theorem key_of_reassignJobs {Expr Zone : Type} (lib : CronLibrary Expr Zone) {s : KernelState}
    {old : AgentEntry} {n : Nat} {now : Nat → Int} {entry : JobMeta}
    (h : entry ∈ (s.reassignJobs lib (some old) n now).cron.jobs.entries) :
    ∃ entry' ∈ s.cron.jobs.entries, entry'.key = entry.key := by
  obtain ⟨entry', hmem, rfl⟩ := List.mem_map.mp h
  refine ⟨entry', hmem, ?_⟩
  split
  · exact (CronScheduler.reassignedEntry_key lib n _ entry').symm
  · rfl

end KernelState

/-! ### Activations -/

theorem HandRegistry.activate_of_active {h : HandRegistry} {definition : HandDefinition}
    {handId : String} {config : List (String × Json)}
    (hfind : h.definitions.find handId = some definition)
    (hactive : ¬ ∀ i ∈ h.instances.entries, i.handId = handId → i.status ≠ .active) :
    h.activate handId config = .error (.alreadyActive handId) := by
  unfold activate
  rw [hfind]
  refine if_pos ?_
  push Not at hactive
  simpa using hactive

theorem HandRegistry.activate_of_free {h : HandRegistry} {definition : HandDefinition}
    {handId : String} {config : List (String × Json)}
    (hfind : h.definitions.find handId = some definition)
    (hfree : ∀ i ∈ h.instances.entries, i.handId = handId → i.status ≠ .active) :
    ∃ hands made, h.activate handId config = .ok (hands, made) := by
  unfold activate
  rw [hfind]
  dsimp only
  rw [if_neg (by simpa using hfree)]
  exact ⟨_, _, rfl⟩

/-- The agent of a name is found. -/
theorem KernelState.findNamed_of_mem {s : KernelState} {old : AgentEntry}
    (h : old ∈ s.registry.agents.entries) : s.findNamed old.name = some old := by
  cases hfind : s.findNamed old.name with
  | none => exact absurd (List.find?_eq_none.mp hfind old h) (by simp)
  | some found =>
      have hname := List.find?_some hfind
      have hmem := List.mem_of_find?_eq_some hfind
      rw [AgentRegistry.eq_of_name_eq hmem h (by simpa using hname)]

section Activation

variable {Expr Zone : Type} (lib : CronLibrary Expr Zone) (config : KernelConfig)
  (fromString : String → Nat)

/-- An activation that replaces an agent keeps its schedule exactly when the agent has no cron jobs,
and no triggers either where the spawn fails. -/
theorem replacement_keeps_iff (world : HandWorld) (s : HandKernel) (handId : String)
    (instanceConfig : List (String × Json)) {definition : HandDefinition} {old : AgentEntry}
    (hfind : s.hands.definitions.find handId = some definition)
    (hfree : ∀ i ∈ s.hands.instances.entries, i.handId = handId → i.status ≠ .active)
    (hmem : old ∈ s.kernel.registry.agents.entries) (hname : old.name = definition.agentName) :
    ScheduleKept config s.kernel definition.agentName
        (activateHand lib config fromString world s handId instanceConfig).1.kernel
        (activateHand lib config fromString world s handId instanceConfig).2 ↔
      s.kernel.ownedJobs old.id = [] ∧
        (world.spawn.Completes ∨ s.kernel.ownedTriggers config old.id = []) := by
  have hfreeName : (s.kernel.withoutAgent config world.kill (some old)).registry.nameIndex
      definition.agentName = none := hname ▸ KernelState.withoutAgent_name config world.kill hmem
  have honly : ∀ other ∈ s.kernel.registry.agents.entries, other.name = definition.agentName →
      other = old := fun other hother h =>
    AgentRegistry.eq_of_name_eq hother hmem (h.trans hname.symm)
  obtain ⟨hands, made, hactivate⟩ : ∃ hands made,
      s.hands.activate handId instanceConfig = .ok (hands, made) :=
    HandRegistry.activate_of_free hfind hfree
  unfold activateHand
  rw [hfind]
  dsimp only
  rw [hactivate]
  dsimp only
  rw [← hname, KernelState.findNamed_of_mem hmem, Option.map_some, Option.getD_some, hname]
  have hcompletes := KernelState.free_spawn_ok_iff config world.spawn
    (handManifest config definition handId made.instanceId) (some (fromString handId)) hfreeName
  have hcron := KernelState.spawn_cron (s := s.kernel.withoutAgent config world.kill (some old))
    config world.spawn (handManifest config definition handId made.instanceId) none
    (some (fromString handId))
  have hfailed := @KernelState.failed_spawn_triggers
    (s.kernel.withoutAgent config world.kill (some old)) config world.spawn
    (handManifest config definition handId made.instanceId) none (some (fromString handId))
  generalize (s.kernel.withoutAgent config world.kill (some old)).spawnAgentWithParent config
    world.spawn (handManifest config definition handId made.instanceId) none
    (some (fromString handId)) = out at hcompletes hcron hfailed ⊢
  cases hresult : out.2 with
  | error e =>
      have hfails : ¬ world.spawn.Completes := by
        intro h
        obtain ⟨n, hn⟩ := hcompletes.mpr h
        rw [hresult] at hn
        cases hn
      constructor
      · intro hkept
        obtain ⟨htriggers, hjobs⟩ := hkept old hmem hname
        refine ⟨List.eq_nil_iff_forall_not_mem.mpr fun entry hentry => ?_,
          .inr (List.eq_nil_iff_forall_not_mem.mpr fun t ht => ?_)⟩
        · have hstill := hjobs entry hentry
          rw [hcron] at hstill
          exact KernelState.withoutAgent_jobs config world.kill hmem hentry hstill rfl
        · have hstill := htriggers t ht
          rw [hfailed hresult] at hstill
          exact KernelState.withoutAgent_triggers config world.kill hmem ht hstill
      · rintro ⟨hjobs, hcomplete | htriggers⟩
        · exact absurd hcomplete hfails
        · intro other hother hothername
          obtain rfl := honly other hother hothername
          simp [hjobs, htriggers]
  | ok n =>
      have hcomplete : world.spawn.Completes := hcompletes.mp ⟨n, hresult⟩
      constructor
      · intro hkept
        obtain ⟨n', -, -, hjobs⟩ := hkept old hmem hname
        refine ⟨List.eq_nil_iff_forall_not_mem.mpr fun entry hentry => ?_, .inl hcomplete⟩
        obtain ⟨entry', hentry', hsame⟩ := hjobs entry hentry
        obtain ⟨moved, hmoved, hkey⟩ :=
          KernelState.key_of_reassignJobs lib (KernelState.mem_ownedJobs.mp hentry').1
        have hstill : moved ∈ out.1.cron.jobs.entries := hmoved
        rw [hcron] at hstill
        exact KernelState.withoutAgent_jobs config world.kill hmem hentry hstill
          (hkey.trans hsame.id)
      · rintro ⟨hjobs, -⟩ other hother hothername
        obtain rfl := honly other hother hothername
        refine ⟨n, rfl, KernelState.restored_subperm out.1 config other.id n, ?_⟩
        simp [hjobs]

/-- An activation keeps the schedule of the agents that have the name of the hand's agent exactly
when another instance of the hand is active, or the agent of that name has no cron jobs, and no
triggers either where the spawn fails. -/
theorem hand_schedule_kept_iff (world : HandWorld) (s : HandKernel) (handId : String)
    (instanceConfig : List (String × Json)) :
    (∀ definition, s.hands.definitions.find handId = some definition →
      ScheduleKept config s.kernel definition.agentName
        (activateHand lib config fromString world s handId instanceConfig).1.kernel
        (activateHand lib config fromString world s handId instanceConfig).2) ↔
      ScheduleMovable config world s handId := by
  refine forall₂_congr fun definition hfind => ?_
  by_cases hfree : ∀ i ∈ s.hands.instances.entries, i.handId = handId → i.status ≠ .active
  · constructor
    · intro hkept _ old hmem hname
      exact (replacement_keeps_iff lib config fromString world s handId instanceConfig hfind hfree
        hmem hname).mp hkept
    · intro hmovable old hmem hname
      exact (replacement_keeps_iff lib config fromString world s handId instanceConfig hfind hfree
        hmem hname).mpr (hmovable hfree old hmem hname) old hmem hname
  · have hrefused : activateHand lib config fromString world s handId instanceConfig =
        (s, .error (.hand (.alreadyActive handId))) := by
      unfold activateHand
      rw [hfind]
      dsimp only
      rw [HandRegistry.activate_of_active hfind hfree]
    rw [hrefused]
    constructor
    · intro _ hother
      exact absurd hother hfree
    · intro _ old hmem hname
      refine ⟨fun t ht => (TriggerEngine.mem_ownedBy.mp ht).1, fun entry hentry => ?_⟩
      exact (KernelState.mem_ownedJobs.mp hentry).1

end Activation

/-- A hand of which no instance is active, as when the daemon has started again, and its agent from
the last activation, which has a cron job. -/
def restartedClip : HandKernel where
  kernel :=
    { ((KernelState.new 10).spawnAgentWithParent plainConfig {} { name := "clip-hand" } none
        (some 7)).1 with
      cron := ⟨.insert .empty (.new (eventJob 0 7 (.every 60)) false), 10⟩ }
  hands := ⟨.insert .empty ⟨"clip", "clip-hand", ["web_fetch"], none⟩, .empty, 1⟩

/-- The hand is activated again, and the cron job of its agent is gone. -/
theorem reactivation_drops_job : ¬ ∀ (world : HandWorld) (s : HandKernel) (handId : String)
    (definition : HandDefinition), s.hands.definitions.find handId = some definition →
      ScheduleKept plainConfig s.kernel definition.agentName
        (activateHand minutely plainConfig (fun _ => 7) world s handId []).1.kernel
        (activateHand minutely plainConfig (fun _ => 7) world s handId []).2 := by
  intro h
  have hdefined : restartedClip.hands.definitions.find "clip" =
      some ⟨"clip", "clip-hand", ["web_fetch"], none⟩ := by decide +kernel
  have hkept := h {} restartedClip "clip" _ hdefined
  rw [replacement_keeps_iff minutely plainConfig (fun _ => 7) {} restartedClip "clip" [] hdefined
    (fun i hi => absurd hi Table.not_mem_empty) (List.mem_singleton.mpr rfl) rfl] at hkept
  exact List.cons_ne_nil _ _ hkept.1

end ArmaraOS.Kernel.Agents
