import ArmaraOS.Kernel.AgentSpawn
import ArmaraOS.Lib.Machine

/-!
Agent pools (`spawn_agent_pool_worker`, `list_agent_pools` and the last loop of `kill_agent` in
`openfang-kernel/src/kernel.rs`), over interleavings of their steps.

A call for a pool checks the slot of the pool, lets an agent be spawned from the manifest that the
file holds by then, and pushes the id to the slot. The check reserves nothing, and a spawn that
registers its agent can still fail. `made` is written for the statements: the pools, and the agents
that were registered for them.
-/

namespace ArmaraOS.Kernel.Agents

open ArmaraOS.Lib Function

/-! ### The steps of the calls -/

/-- `AgentPoolConfigEntry`, with the manifest left in its file. -/
structure AgentPoolConfigEntry where
  name : String
  maxInstances : Nat := 8

/-- Why a call for a pool fails. -/
inductive PoolError where
  | refused (message : String)
  | manifest (message : String)
  | spawn (error : SpawnError)

/-- How far a call of `spawn_agent_pool_worker` has come. -/
inductive PoolCall where
  | checked (poolName : String) (parent : Option Nat)
  | spawned (poolName : String) (agentId : Nat) (name : String)
  | returned (result : Except PoolError (Nat × String))

/-- The kernel with its pools, the calls by their numbers, and the kills that have removed their
agent and not yet come to the pools. -/
structure PoolKernel where
  kernel : KernelState
  agentPoolWorkers : String → List Nat
  calls : Nat → Option PoolCall
  killing : List Nat
  made : List (String × Nat)

/-- A kernel that has just started. -/
def PoolKernel.boot (kernel : KernelState) : PoolKernel where
  kernel := kernel
  agentPoolWorkers _ := []
  calls _ := none
  killing := []
  made := []

/-- The agent is registered. -/
def KernelState.isRegistered (s : KernelState) (id : Nat) : Bool := (s.registry.get id).isSome

/-- The pool of a name. -/
def findPool (pools : List AgentPoolConfigEntry) (poolName : String) :
    Option AgentPoolConfigEntry :=
  pools.find? fun p => p.name == poolName

namespace PoolKernel

variable (pools : List AgentPoolConfigEntry) (config : KernelConfig) (s : PoolKernel)

/-- The workers of a pool without those that are gone. -/
def live (poolName : String) : List Nat :=
  (s.agentPoolWorkers poolName).filter s.kernel.isRegistered

/-- `running` in `list_agent_pools`. -/
def running (poolName : String) : Nat := (s.live poolName).length

/-- The slot of a pool is pruned. -/
def prune (poolName : String) : PoolKernel :=
  { s with agentPoolWorkers := update s.agentPoolWorkers poolName (s.live poolName) }

/-- The slot is pruned, and checked against `max_instances`. -/
def checkSlot (poolName : String) : PoolKernel × Except PoolError Unit :=
  match findPool pools poolName with
  | none => (s, .error (.refused s!"Unknown agent pool: {poolName}"))
  | some pool =>
      (s.prune poolName,
        if pool.maxInstances ≤ (s.live poolName).length then
          .error (.refused s!"Pool {poolName} is at max_instances ({pool.maxInstances})")
        else .ok ())

/-- A call has come to a point. -/
def reach (call : Nat) (phase : PoolCall) : PoolKernel :=
  { s with calls := update s.calls call (some phase) }

/-- The call up to the reading of the manifest. -/
def startCall (call : Nat) (poolName : String) (parent : Option Nat) : PoolKernel :=
  match s.calls call with
  | some _ => s
  | none =>
      match s.checkSlot pools poolName with
      | (checked, .error e) => checked.reach call (.returned (.error e))
      | (checked, .ok ()) => checked.reach call (.checked poolName parent)

/-- The agents registered for the pools, after a spawn that may have registered one more. -/
def record (kernel : KernelState) (poolName : String) : List (String × Nat) :=
  if kernel.isRegistered s.kernel.drawn then s.made ++ [(poolName, s.kernel.drawn)] else s.made

/-- The manifest is read, and its agent spawned. -/
def spawnWorker (call : Nat) (world : SpawnWorld) (manifest : Except String AgentManifest) :
    PoolKernel :=
  match s.calls call with
  | some (.checked poolName parent) =>
      match manifest with
      | .error message => s.reach call (.returned (.error (.manifest message)))
      | .ok manifest =>
          let (kernel, result) := s.kernel.spawnAgentWithParent config world manifest parent none
          let after : PoolKernel := { s with kernel := kernel, made := s.record kernel poolName }
          match result with
          | .error e => after.reach call (.returned (.error (.spawn e)))
          | .ok agentId => after.reach call (.spawned poolName agentId manifest.name)
  | _ => s

/-- The id of the agent is pushed to the slot. -/
def pushWorker (call : Nat) : PoolKernel :=
  match s.calls call with
  | some (.spawned poolName agentId name) =>
      let slot := s.agentPoolWorkers poolName ++ [agentId]
      let after : PoolKernel :=
        { s with agentPoolWorkers := update s.agentPoolWorkers poolName slot }
      after.reach call (.returned (.ok (agentId, name)))
  | _ => s

/-- `kill_agent`, up to its last loop. -/
def kill (world : KernelState.KillWorld) (agentId : Nat) : PoolKernel :=
  match s.kernel.killAgent config world agentId with
  | (_, .error _) => s
  | (kernel, .ok ()) => { s with kernel := kernel, killing := s.killing ++ [agentId] }

/-- The last loop of `kill_agent`. -/
def retainWorkers (agentId : Nat) : PoolKernel :=
  if agentId ∈ s.killing then
    { s with
      agentPoolWorkers := fun poolName => (s.agentPoolWorkers poolName).filter (· != agentId)
      killing := s.killing.erase agentId }
  else s

end PoolKernel

/-- One step of a call. `select_agent_for_task` makes such calls too, without a parent. -/
inductive PoolOp where
  | start (call : Nat) (poolName : String) (parent : Option Nat)
  | spawn (call : Nat) (world : SpawnWorld) (manifest : Except String AgentManifest)
  | push (call : Nat)
  | kill (world : KernelState.KillWorld) (agentId : Nat)
  | retain (agentId : Nat)

/-- The kernel after a step. -/
def poolStep (pools : List AgentPoolConfigEntry) (config : KernelConfig) (s : PoolKernel) :
    PoolOp → PoolKernel
  | .start call poolName parent => s.startCall pools call poolName parent
  | .spawn call world manifest => s.spawnWorker config call world manifest
  | .push call => s.pushWorker call
  | .kill world agentId => s.kill config world agentId
  | .retain agentId => s.retainWorkers agentId

/-! ### What the pools keep -/

/-- No pool has more running workers than it allows, and every agent registered for a pool is in
its slot while it is registered, or in a call that is about to push it. -/
structure PoolsKept (pools : List AgentPoolConfigEntry) (s : PoolKernel) : Prop where
  capped : ∀ poolName pool, findPool pools poolName = some pool →
    s.running poolName ≤ pool.maxInstances
  listed : ∀ poolName id, (poolName, id) ∈ s.made → s.kernel.isRegistered id = true →
    id ∈ s.agentPoolWorkers poolName ∨
      ∃ call name, s.calls call = some (.spawned poolName id name)

/-- A spawn that registers its agent saves it, and a call that pushes a registered agent finds
fewer running workers than the pool allows. -/
def KeepsPools (pools : List AgentPoolConfigEntry) (s : PoolKernel) : PoolOp → Prop
  | .spawn call world (.ok manifest) => ∀ poolName parent,
      s.calls call = some (.checked poolName parent) →
        Registers s.kernel world manifest parent → world.saveError = none
  | .push call => ∀ poolName id name, s.calls call = some (.spawned poolName id name) →
      s.kernel.isRegistered id = true → ∀ pool, findPool pools poolName = some pool →
        s.running poolName < pool.maxInstances
  | _ => True

/-- What holds of the phase of a call. -/
def PhaseSeen (pools : List AgentPoolConfigEntry) (drawn : Nat) : PoolCall → Prop
  | .checked poolName _ => (findPool pools poolName).isSome
  | .spawned poolName id _ => (findPool pools poolName).isSome ∧ id < drawn
  | .returned _ => True

/-- What the steps preserve: the pools are kept, all ids in them were seen, calls are for pools
that exist, and agents that are being killed are not registered. -/
structure PoolInvariant (pools : List AgentPoolConfigEntry) (s : PoolKernel) : Prop extends
    PoolsKept pools s where
  workersSeen : ∀ poolName, ∀ id ∈ s.agentPoolWorkers poolName, id < s.kernel.drawn
  callsSeen : ∀ call phase, s.calls call = some phase → PhaseSeen pools s.kernel.drawn phase
  madeSeen : ∀ poolName id, (poolName, id) ∈ s.made → id < s.kernel.drawn
  killingGone : ∀ id ∈ s.killing, s.kernel.isRegistered id = false ∧ id < s.kernel.drawn

/-! ### Registered agents -/

namespace KernelState

variable (s : KernelState) (config : KernelConfig)

theorem isRegistered_addChild (parent : Option Nat) (childId id : Nat) :
    (s.addChild parent childId).isRegistered id = s.isRegistered id := by
  cases parent with
  | none => rfl
  | some parentId =>
      unfold isRegistered AgentRegistry.get
      rw [addChild_registry, AgentRegistry.addChild, AgentRegistry.rewrite, Table.find_modify_eq]
      split
      · exact Option.isSome_map
      · rfl

theorem isRegistered_enrol {s s' : KernelState} {entry : AgentEntry}
    (h : s.enrol entry = .ok s') (id : Nat) :
    s'.isRegistered id = (decide (id = entry.id) || s.isRegistered id) := by
  obtain ⟨-, hregister, -⟩ := enrol_eq_ok h
  unfold isRegistered AgentRegistry.get
  rw [(AgentRegistry.register_eq_ok hregister).2, Table.find_insert]
  by_cases hid : id = entry.id
  · rw [if_pos hid, decide_eq_true hid]
    rfl
  · rw [if_neg hid, decide_eq_false hid, Bool.false_or]

/-- A spawn under a new id either leaves the registered agents alone, or adds that id to them. -/
theorem isRegistered_spawn (world : SpawnWorld) (manifest : AgentManifest) (parent : Option Nat) :
    (¬ Registers s world manifest parent ∧
      (∀ id, (s.spawnAgentWithParent config world manifest parent none).1.isRegistered id =
        s.isRegistered id) ∧
      ∃ e, (s.spawnAgentWithParent config world manifest parent none).2 = .error e) ∨
    (Registers s world manifest parent ∧
      (∀ id, (s.spawnAgentWithParent config world manifest parent none).1.isRegistered id =
        (decide (id = s.drawn) || s.isRegistered id)) ∧
      s.drawn < (s.spawnAgentWithParent config world manifest parent none).1.drawn ∧
      (world.saveError = none →
        (s.spawnAgentWithParent config world manifest parent none).2 = .ok s.drawn) ∧
      (world.saveError ≠ none →
        ∃ e, (s.spawnAgentWithParent config world manifest parent none).2 = .error e)) := by
  have houtcome := s.spawn_outcome config world manifest parent none
  unfold Registers
  generalize s.spawnAgentWithParent config world manifest parent none = out at houtcome ⊢
  cases houtcome with
  | refused e hrefused => exact .inl ⟨by simp [hrefused], fun _ => rfl, e, rfl⟩
  | noSession e hadmits hsession => exact .inl ⟨by simp [hsession], fun _ => rfl, _, rfl⟩
  | noWorkspace e hadmits hsession hworkspace =>
      exact .inl ⟨by simp [hworkspace], fun _ => rfl, _, rfl⟩
  | taken hadmits hsession hworkspace htaken =>
      exact .inl ⟨by simp [htaken], fun _ => rfl, _, rfl⟩
  | unsaved e enrolled hadmits hsession hworkspace henrolled hsave =>
      obtain ⟨hfree, -, -, -, -, -, -, -, hdrawn⟩ := enrol_eq_ok henrolled
      refine .inr ⟨⟨hadmits, hsession, hworkspace, hfree⟩, fun id => ?_, ?_, ?_, fun _ => ⟨_, rfl⟩⟩
      · rw [isRegistered_addChild, isRegistered_enrol henrolled]
        rfl
      · rw [addChild_drawn, hdrawn]
        exact lt_max_of_lt_right (Nat.lt_succ_self _)
      · intro hnone
        rw [hsave] at hnone
        cases hnone
  | spawned enrolled hadmits hsession hworkspace henrolled hsave =>
      obtain ⟨hfree, -, -, -, -, -, -, -, hdrawn⟩ := enrol_eq_ok henrolled
      refine .inr ⟨⟨hadmits, hsession, hworkspace, hfree⟩, fun id => ?_, ?_, fun _ => rfl, ?_⟩
      · have hcompleted : ∀ entry, ((enrolled.addChild parent (s.spawnId none)).completed config
            world entry).isRegistered id =
              (enrolled.addChild parent (s.spawnId none)).isRegistered id := by
          intro entry
          unfold isRegistered
          rw [completed_registry]
        rw [hcompleted, isRegistered_addChild, isRegistered_enrol henrolled]
        rfl
      · rw [completed_drawn, addChild_drawn, hdrawn]
        exact lt_max_of_lt_right (Nat.lt_succ_self _)
      · intro hnot
        exact absurd hsave hnot

theorem lt_drawn_of_isRegistered {s : KernelState} {id : Nat} (h : s.isRegistered id = true) :
    id < s.drawn := by
  obtain ⟨entry, hentry⟩ := Option.isSome_iff_exists.mp h
  exact s.lt_drawn_of_registered hentry

/-- A kill that succeeds takes its agent away, and no other. -/
theorem isRegistered_kill {s : KernelState} {world : KillWorld} {agentId : Nat}
    {kernel : KernelState} (h : s.killAgent config world agentId = (kernel, .ok ())) :
    s.isRegistered agentId = true ∧ kernel.drawn = s.drawn ∧
      ∀ id, kernel.isRegistered id = (!decide (id = agentId) && s.isRegistered id) := by
  unfold killAgent at h
  split at h
  · cases h
  · next removed hremove =>
      cases h
      obtain ⟨hget, hagents, -⟩ := AgentRegistry.remove_eq_ok hremove
      refine ⟨Option.isSome_iff_exists.mpr ⟨_, hget⟩, rfl, fun id => ?_⟩
      unfold isRegistered AgentRegistry.get
      dsimp only
      rw [hagents, Table.find_erase]
      by_cases hid : id = agentId
      · rw [if_pos hid, decide_eq_true hid]
        rfl
      · rw [if_neg hid, decide_eq_false hid]
        rfl

end KernelState

/-! ### One step -/

section Reach

variable {pools : List AgentPoolConfigEntry} {s : PoolKernel} {call : Nat} {phase : PoolCall}

/-- The calls that are about to push stay so when another call goes on. -/
theorem spawned_reach (hcall : ∀ poolName id name, s.calls call ≠ some (.spawned poolName id name))
    {poolName : String} {id : Nat} (h : ∃ c name, s.calls c = some (.spawned poolName id name)) :
    ∃ c name, (s.reach call phase).calls c = some (.spawned poolName id name) := by
  obtain ⟨c, name, hc⟩ := h
  refine ⟨c, name, ?_⟩
  have hne : c ≠ call := by
    rintro rfl
    exact hcall _ _ _ hc
  exact (update_of_ne hne _ _).trans hc

/-- The phases of the calls after one goes on. -/
theorem phase_reach {c : Nat} {found : PoolCall}
    (h : (s.reach call phase).calls c = some found) : found = phase ∨ s.calls c = some found := by
  change update s.calls call (some phase) c = some found at h
  by_cases hc : c = call
  · subst hc
    rw [update_self] at h
    exact .inl (Option.some.inj h).symm
  · rw [update_of_ne hc] at h
    exact .inr h

/-- The ids and the pools of the calls stay known. -/
theorem phases_seen_reach (hphase : PhaseSeen pools s.kernel.drawn phase)
    (h : ∀ c found, s.calls c = some found → PhaseSeen pools s.kernel.drawn found) :
    ∀ c found, (s.reach call phase).calls c = some found →
      PhaseSeen pools s.kernel.drawn found := by
  intro c found hfound
  rcases phase_reach hfound with rfl | hfound
  · exact hphase
  · exact h c found hfound

end Reach

namespace PoolInvariant

variable {pools : List AgentPoolConfigEntry} {config : KernelConfig} {s : PoolKernel}

/-- A call that is not about to push goes on. -/
theorem reach (h : PoolInvariant pools s) {call : Nat} {phase : PoolCall}
    (hcall : ∀ poolName id name, s.calls call ≠ some (.spawned poolName id name))
    (hphase : PhaseSeen pools s.kernel.drawn phase) : PoolInvariant pools (s.reach call phase) where
  capped := h.capped
  listed poolName id hmade hregistered :=
    (h.listed poolName id hmade hregistered).imp_right (spawned_reach hcall)
  workersSeen := h.workersSeen
  callsSeen := phases_seen_reach hphase h.callsSeen
  madeSeen := h.madeSeen
  killingGone := h.killingGone

/-- A slot is pruned. -/
theorem prune (h : PoolInvariant pools s) (poolName : String) :
    PoolInvariant pools (s.prune poolName) := by
  have hworkers : ∀ other id, id ∈ (s.prune poolName).agentPoolWorkers other ↔
      id ∈ s.agentPoolWorkers other ∧ (other = poolName → s.kernel.isRegistered id = true) := by
    intro other id
    by_cases hother : other = poolName
    · subst hother
      simp [PoolKernel.prune, PoolKernel.live]
    · simp [PoolKernel.prune, hother]
  have hsub : ∀ other,
      ((s.prune poolName).agentPoolWorkers other).Sublist (s.agentPoolWorkers other) := by
    intro other
    by_cases hother : other = poolName
    · subst hother
      simp [PoolKernel.prune, PoolKernel.live]
    · simp [PoolKernel.prune, hother]
  refine ⟨⟨fun other pool hpool => ?_, fun other id hmade hregistered => ?_⟩,
    fun other id hid => ?_, h.callsSeen, h.madeSeen, h.killingGone⟩
  · exact Nat.le_trans ((hsub other).filter _).length_le (h.capped other pool hpool)
  · refine (h.listed other id hmade hregistered).imp_left fun hid => ?_
    exact (hworkers other id).mpr ⟨hid, fun _ => hregistered⟩
  · exact h.workersSeen other id ((hworkers other id).mp hid).1

/-- A check fails, or it is for a pool that exists. -/
theorem checkSlot_cases (pools : List AgentPoolConfigEntry) (s : PoolKernel) (poolName : String) :
    (∃ e, s.checkSlot pools poolName = (s, .error e)) ∨
    (∃ e, s.checkSlot pools poolName = (s.prune poolName, .error e)) ∨
    ((findPool pools poolName).isSome ∧
      s.checkSlot pools poolName = (s.prune poolName, .ok ())) := by
  unfold PoolKernel.checkSlot
  split
  · exact .inl ⟨_, rfl⟩
  · next pool hpool =>
      refine .inr ?_
      split
      · exact .inl ⟨_, rfl⟩
      · exact .inr ⟨by rw [hpool]; rfl, rfl⟩

theorem startCall (h : PoolInvariant pools s) (call : Nat) (poolName : String)
    (parent : Option Nat) : PoolInvariant pools (s.startCall pools call poolName parent) := by
  unfold PoolKernel.startCall
  split
  · exact h
  · next hnone =>
      have hcall : ∀ poolName id name, s.calls call ≠ some (.spawned poolName id name) := by
        simp [hnone]
      rcases checkSlot_cases pools s poolName with ⟨e, hcheck⟩ | ⟨e, hcheck⟩ | ⟨hknown, hcheck⟩
      · rw [hcheck]
        exact h.reach hcall trivial
      · rw [hcheck]
        exact (h.prune poolName).reach hcall trivial
      · rw [hcheck]
        exact (h.prune poolName).reach hcall hknown

/-- The running workers of a pool are the same when its ids are registered as before. -/
theorem running_eq {s' : PoolKernel} {poolName : String}
    (hworkers : s'.agentPoolWorkers poolName = s.agentPoolWorkers poolName)
    (hregistered : ∀ id ∈ s.agentPoolWorkers poolName,
      s'.kernel.isRegistered id = s.kernel.isRegistered id) :
    s'.running poolName = s.running poolName := by
  unfold PoolKernel.running PoolKernel.live
  rw [hworkers, List.filter_congr hregistered]

/-- The agents that the kernel has drawn are registered as before. -/
theorem withKernel (h : PoolInvariant pools s) {kernel : KernelState}
    (hregistered : ∀ id < s.kernel.drawn, kernel.isRegistered id = s.kernel.isRegistered id)
    (hdrawn : s.kernel.drawn ≤ kernel.drawn) : PoolInvariant pools { s with kernel := kernel } where
  capped poolName pool hpool := by
    have hrunning : PoolKernel.running { s with kernel := kernel } poolName =
        s.running poolName :=
      running_eq (s := s) rfl fun id hid => hregistered id (h.workersSeen poolName id hid)
    exact hrunning ▸ h.capped poolName pool hpool
  listed poolName id hmade hid := by
    refine h.listed poolName id hmade ?_
    rw [← hregistered id (h.madeSeen poolName id hmade)]
    exact hid
  workersSeen poolName id hid := Nat.lt_of_lt_of_le (h.workersSeen poolName id hid) hdrawn
  callsSeen call phase hphase := by
    have hseen := h.callsSeen call phase hphase
    cases phase with
    | checked poolName parent => exact hseen
    | spawned poolName id name => exact ⟨hseen.1, Nat.lt_of_lt_of_le hseen.2 hdrawn⟩
    | returned result => trivial
  madeSeen poolName id hmade := Nat.lt_of_lt_of_le (h.madeSeen poolName id hmade) hdrawn
  killingGone id hid := by
    obtain ⟨hgone, hlt⟩ := h.killingGone id hid
    exact ⟨(hregistered id hlt).trans hgone, Nat.lt_of_lt_of_le hlt hdrawn⟩

/-- An agent registered for a pool comes with the call that is about to push it. -/
theorem made (h : PoolInvariant pools s) {call : Nat} {poolName : String} {parent : Option Nat}
    (hcall : s.calls call = some (.checked poolName parent)) {id : Nat} (hid : id < s.kernel.drawn)
    (name : String) : PoolInvariant pools
      (PoolKernel.reach { s with made := s.made ++ [(poolName, id)] } call
        (.spawned poolName id name)) := by
  have hnot : ∀ poolName id name, s.calls call ≠ some (.spawned poolName id name) := by
    simp [hcall]
  have hknown : (findPool pools poolName).isSome := h.callsSeen call _ hcall
  refine ⟨⟨h.capped, fun other made hmade hregistered => ?_⟩, h.workersSeen,
    phases_seen_reach ⟨hknown, hid⟩ h.callsSeen, fun other made hmade => ?_, h.killingGone⟩
  · rcases List.mem_append.mp hmade with hmade | hnew
    · exact (h.listed other made hmade hregistered).imp_right (spawned_reach hnot)
    · cases List.mem_singleton.mp hnew
      exact .inr ⟨call, name, update_self _ _ _⟩
  · rcases List.mem_append.mp hmade with hmade | hnew
    · exact h.madeSeen other made hmade
    · cases List.mem_singleton.mp hnew
      exact hid

/-- A step of a call that is not at its place leaves the kernel alone. -/
theorem spawnWorker_of_other {call : Nat}
    (hcall : ∀ poolName parent, s.calls call ≠ some (.checked poolName parent)) (world : SpawnWorld)
    (manifest : Except String AgentManifest) : s.spawnWorker config call world manifest = s := by
  unfold PoolKernel.spawnWorker
  split
  · next poolName parent hchecked => exact absurd hchecked (hcall poolName parent)
  · rfl

/-- The spawn of a checked call, by what becomes of it. -/
theorem spawnWorker_cases {call : Nat} {poolName : String} {parent : Option Nat}
    (hcall : s.calls call = some (.checked poolName parent)) (world : SpawnWorld)
    (manifest : AgentManifest) :
    (¬ Registers s.kernel world manifest parent ∧ ∃ kernel e,
      (∀ id, kernel.isRegistered id = s.kernel.isRegistered id) ∧
      s.kernel.drawn ≤ kernel.drawn ∧ s.spawnWorker config call world (.ok manifest) =
        PoolKernel.reach { s with kernel := kernel } call (.returned (.error (.spawn e)))) ∨
    (Registers s.kernel world manifest parent ∧ ∃ kernel : KernelState,
      (∀ id, kernel.isRegistered id = (decide (id = s.kernel.drawn) || s.kernel.isRegistered id)) ∧
      s.kernel.drawn < kernel.drawn ∧
      ((world.saveError = none ∧ s.spawnWorker config call world (.ok manifest) =
        PoolKernel.reach { s with kernel := kernel, made := s.made ++ [(poolName, s.kernel.drawn)] }
          call (.spawned poolName s.kernel.drawn manifest.name)) ∨
      (world.saveError ≠ none ∧ ∃ e, s.spawnWorker config call world (.ok manifest) =
        PoolKernel.reach { s with kernel := kernel, made := s.made ++ [(poolName, s.kernel.drawn)] }
          call (.returned (.error (.spawn e)))))) := by
  have hspawn := s.kernel.isRegistered_spawn config world manifest parent
  have hdrawn := s.kernel.drawn_le_spawn config world manifest parent none
  have hunfold : s.spawnWorker config call world (.ok manifest) =
      (match (s.kernel.spawnAgentWithParent config world manifest parent none).2 with
        | .error e => PoolKernel.reach
            { s with
              kernel := (s.kernel.spawnAgentWithParent config world manifest parent none).1
              made := s.record
                (s.kernel.spawnAgentWithParent config world manifest parent none).1 poolName }
            call (.returned (.error (.spawn e)))
        | .ok agentId => PoolKernel.reach
            { s with
              kernel := (s.kernel.spawnAgentWithParent config world manifest parent none).1
              made := s.record
                (s.kernel.spawnAgentWithParent config world manifest parent none).1 poolName }
            call (.spawned poolName agentId manifest.name)) := by
    unfold PoolKernel.spawnWorker
    rw [hcall]
  rw [hunfold]
  generalize s.kernel.spawnAgentWithParent config world manifest parent none = out at hspawn hdrawn
  obtain ⟨kernel, result⟩ := out
  have hself : s.kernel.isRegistered s.kernel.drawn = false :=
    Bool.eq_false_iff.mpr fun h =>
      absurd (KernelState.lt_drawn_of_isRegistered h) (Nat.lt_irrefl _)
  rcases hspawn with ⟨hnot, hsame, e, he⟩ | ⟨hregisters, hadded, hlt, hsaved, hunsaved⟩
  · refine .inl ⟨hnot, kernel, e, hsame, hdrawn, ?_⟩
    dsimp only at he hsame ⊢
    rw [he]
    dsimp only
    rw [PoolKernel.record, hsame, hself, if_neg Bool.false_ne_true]
  · have hrecord : s.record kernel poolName = s.made ++ [(poolName, s.kernel.drawn)] := by
      dsimp only at hadded
      rw [PoolKernel.record, hadded, decide_eq_true rfl, Bool.true_or, if_pos rfl]
    refine .inr ⟨hregisters, kernel, hadded, hlt, ?_⟩
    dsimp only at hsaved hunsaved ⊢
    rw [hrecord]
    by_cases hsave : world.saveError = none
    · refine .inl ⟨hsave, ?_⟩
      rw [hsaved hsave]
    · obtain ⟨e, he⟩ := hunsaved hsave
      refine .inr ⟨hsave, e, ?_⟩
      rw [he]

/-- A spawn for a pool that saves what it registers keeps the pools. -/
theorem spawnWorker (h : PoolInvariant pools s) {call : Nat} {world : SpawnWorld}
    {manifest : Except String AgentManifest}
    (hkeeps : KeepsPools pools s (.spawn call world manifest)) :
    PoolInvariant pools (s.spawnWorker config call world manifest) := by
  by_cases hcall : ∃ poolName parent, s.calls call = some (.checked poolName parent)
  · obtain ⟨poolName, parent, hcall⟩ := hcall
    have hnot : ∀ poolName id name, s.calls call ≠ some (.spawned poolName id name) := by
      simp [hcall]
    cases manifest with
    | error message =>
        unfold PoolKernel.spawnWorker
        rw [hcall]
        exact h.reach hnot trivial
    | ok manifest =>
        rcases spawnWorker_cases hcall world manifest with
          ⟨-, kernel, e, hsame, hdrawn, hspawned⟩ |
          ⟨hregisters, kernel, hadded, hlt, ⟨-, hspawned⟩ | ⟨hsave, -⟩⟩
        · rw [hspawned]
          exact (h.withKernel (fun id _ => hsame id) hdrawn).reach hnot trivial
        · rw [hspawned]
          have hwith : PoolInvariant pools { s with kernel := kernel } := by
            refine h.withKernel (fun id hid => ?_) hlt.le
            rw [hadded, decide_eq_false hid.ne, Bool.false_or]
          exact hwith.made hcall hlt manifest.name
        · exact absurd (hkeeps poolName parent hcall hregisters) hsave
  · rw [spawnWorker_of_other fun poolName parent hchecked => hcall ⟨poolName, parent, hchecked⟩]
    exact h

/-- A spawn for a pool that does not save what it registers leaves an agent out of the pool. -/
theorem spawnWorker_breaks (h : PoolInvariant pools s) {call : Nat} {world : SpawnWorld}
    {manifest : Except String AgentManifest}
    (hnot : ¬ KeepsPools pools s (.spawn call world manifest)) :
    ¬ PoolsKept pools (s.spawnWorker config call world manifest) := by
  cases manifest with
  | error message => exact absurd trivial hnot
  | ok manifest =>
      simp only [KeepsPools, not_forall] at hnot
      obtain ⟨poolName, parent, hcall, hregisters, hsave⟩ := hnot
      rcases spawnWorker_cases hcall world manifest with
        ⟨hnone, -⟩ | ⟨-, kernel, hadded, -, ⟨hsaved, -⟩ | ⟨-, e, hspawned⟩⟩
      · exact absurd hregisters hnone
      · exact absurd hsaved hsave
      · intro hkept
        rw [hspawned] at hkept
        have hnew : kernel.isRegistered s.kernel.drawn = true := by
          rw [hadded, decide_eq_true rfl, Bool.true_or]
        rcases hkept.listed poolName s.kernel.drawn
            (List.mem_append_right _ (List.mem_singleton.mpr rfl)) hnew with
          hworker | ⟨c, name, hc⟩
        · exact absurd (h.workersSeen poolName _ hworker) (Nat.lt_irrefl _)
        · rcases phase_reach hc with hreturned | hc
          · cases hreturned
          · exact absurd (h.callsSeen c _ hc).2 (Nat.lt_irrefl _)

/-- A push by a call that is not at its place leaves the kernel alone. -/
theorem pushWorker_of_other {call : Nat}
    (hcall : ∀ poolName id name, s.calls call ≠ some (.spawned poolName id name)) :
    s.pushWorker call = s := by
  unfold PoolKernel.pushWorker
  split
  · next poolName id name hspawned => exact absurd hspawned (hcall poolName id name)
  · rfl

/-- What a push adds to the running workers of the pools. -/
theorem running_pushWorker {call : Nat} {poolName : String} {id : Nat} {name : String}
    (hcall : s.calls call = some (.spawned poolName id name)) (other : String) :
    (s.pushWorker call).running other =
      s.running other + if other = poolName ∧ s.kernel.isRegistered id = true then 1 else 0 := by
  unfold PoolKernel.pushWorker PoolKernel.running PoolKernel.live
  rw [hcall]
  dsimp only [PoolKernel.reach]
  by_cases hother : other = poolName
  · subst hother
    cases hregistered : s.kernel.isRegistered id <;> simp [hregistered]
  · simp [hother]

/-- A push that finds a place keeps the pools. -/
theorem pushWorker (h : PoolInvariant pools s) {call : Nat}
    (hkeeps : KeepsPools pools s (.push call)) : PoolInvariant pools (s.pushWorker call) := by
  by_cases hcall : ∃ poolName id name, s.calls call = some (.spawned poolName id name)
  · obtain ⟨poolName, id, name, hcall⟩ := hcall
    have hrunning := running_pushWorker hcall
    have hworkers : ∀ other id', id' ∈ (s.pushWorker call).agentPoolWorkers other ↔
        id' ∈ s.agentPoolWorkers other ∨ (other = poolName ∧ id' = id) := by
      intro other id'
      unfold PoolKernel.pushWorker
      rw [hcall]
      by_cases hother : other = poolName
      · subst hother
        simp [PoolKernel.reach]
      · simp [PoolKernel.reach, hother]
    have hpushed : (s.pushWorker call).kernel = s.kernel ∧ (s.pushWorker call).made = s.made ∧
        (s.pushWorker call).killing = s.killing ∧ (s.pushWorker call).calls =
          update s.calls call (some (.returned (.ok (id, name)))) := by
      unfold PoolKernel.pushWorker
      rw [hcall]
      exact ⟨rfl, rfl, rfl, rfl⟩
    obtain ⟨hkernel, hmade, hkilling, hcalls⟩ := hpushed
    refine ⟨⟨fun other pool hpool => ?_, fun other id' hin hregistered => ?_⟩,
      fun other id' hid => ?_, fun c phase hphase => ?_, fun other id' hin => ?_,
      fun id' hin => ?_⟩
    · rw [hrunning]
      split
      · next hplace =>
          obtain ⟨rfl, hregistered⟩ := hplace
          exact hkeeps other id name hcall hregistered pool hpool
      · exact h.capped other pool hpool
    · rw [hmade] at hin
      rw [hkernel] at hregistered
      rcases h.listed other id' hin hregistered with hworker | ⟨c, name', hc⟩
      · exact .inl ((hworkers other id').mpr (.inl hworker))
      · by_cases hself : c = call
        · subst hself
          rw [hcall] at hc
          cases hc
          exact .inl ((hworkers poolName id).mpr (.inr ⟨rfl, rfl⟩))
        · refine .inr ⟨c, name', ?_⟩
          rw [hcalls, update_of_ne hself]
          exact hc
    · rw [hkernel]
      rcases (hworkers other id').mp hid with hworker | ⟨rfl, rfl⟩
      · exact h.workersSeen other id' hworker
      · exact (h.callsSeen call _ hcall).2
    · rw [hkernel]
      rw [hcalls] at hphase
      rcases phase_reach (s := s) hphase with rfl | hphase
      · trivial
      · exact h.callsSeen c phase hphase
    · rw [hkernel]
      exact h.madeSeen other id' (hmade ▸ hin)
    · rw [hkernel]
      exact h.killingGone id' (hkilling ▸ hin)
  · have hother : ∀ poolName id name, s.calls call ≠ some (.spawned poolName id name) :=
      fun poolName id name hspawned => hcall ⟨poolName, id, name, hspawned⟩
    rw [pushWorker_of_other hother]
    exact h

/-- A push that finds no place breaks the limit of the pool. -/
theorem pushWorker_breaks {call : Nat} (hnot : ¬ KeepsPools pools s (.push call)) :
    ¬ PoolsKept pools (s.pushWorker call) := by
  simp only [KeepsPools, not_forall] at hnot
  obtain ⟨poolName, id, name, hcall, hregistered, pool, hpool, hfull⟩ := hnot
  intro hkept
  have hcapped := hkept.capped poolName pool hpool
  rw [running_pushWorker hcall, if_pos ⟨rfl, hregistered⟩] at hcapped
  exact hfull hcapped

theorem kill (h : PoolInvariant pools s) (world : KernelState.KillWorld) (agentId : Nat) :
    PoolInvariant pools (s.kill config world agentId) := by
  unfold PoolKernel.kill
  split
  · exact h
  · next kernel hkill =>
      obtain ⟨hwas, hdrawn, hregistered⟩ := KernelState.isRegistered_kill config hkill
      have hsub : ∀ id, kernel.isRegistered id = true → s.kernel.isRegistered id = true := by
        intro id hid
        rw [hregistered] at hid
        exact (Bool.and_eq_true_iff.mp hid).2
      refine ⟨⟨fun poolName pool hpool => ?_, fun poolName id hmade hid => ?_⟩,
        hdrawn ▸ h.workersSeen, hdrawn ▸ h.callsSeen, hdrawn ▸ h.madeSeen, fun id hid => ?_⟩
      · refine Nat.le_trans ?_ (h.capped poolName pool hpool)
        apply List.Sublist.length_le
        exact List.monotone_filter_right _ hsub
      · exact h.listed poolName id hmade (hsub id hid)
      · dsimp only
        rw [hregistered, hdrawn]
        rcases List.mem_append.mp hid with hid | hself
        · obtain ⟨hgone, hlt⟩ := h.killingGone id hid
          exact ⟨by rw [hgone, Bool.and_false], hlt⟩
        · cases List.mem_singleton.mp hself
          exact ⟨by rw [decide_eq_true rfl]; rfl, KernelState.lt_drawn_of_isRegistered hwas⟩

theorem retainWorkers (h : PoolInvariant pools s) (agentId : Nat) :
    PoolInvariant pools (s.retainWorkers agentId) := by
  unfold PoolKernel.retainWorkers
  split
  · next hkilling =>
      refine ⟨⟨fun poolName pool hpool => ?_, fun poolName id hmade hid => ?_⟩,
        fun poolName id hid => ?_, h.callsSeen, h.madeSeen, fun id hid => ?_⟩
      · refine Nat.le_trans ?_ (h.capped poolName pool hpool)
        exact (List.filter_sublist.filter _).length_le
      · refine (h.listed poolName id hmade hid).imp_left fun hworker => ?_
        have hne : id ≠ agentId := by
          rintro rfl
          rw [(h.killingGone id hkilling).1] at hid
          cases hid
        exact List.mem_filter.mpr ⟨hworker, by simpa using hne⟩
      · exact h.workersSeen poolName id (List.mem_filter.mp hid).1
      · exact h.killingGone id (List.mem_of_mem_erase hid)
  · exact h

/-- A step that keeps the pools preserves the invariant. -/
theorem step (h : PoolInvariant pools s) (op : PoolOp) (hkeeps : KeepsPools pools s op) :
    PoolInvariant pools (poolStep pools config s op) := by
  cases op with
  | start call poolName parent => exact h.startCall call poolName parent
  | spawn call world manifest => exact h.spawnWorker hkeeps
  | push call => exact h.pushWorker hkeeps
  | kill world agentId => exact h.kill world agentId
  | retain agentId => exact h.retainWorkers agentId

/-- Any other step breaks the pools. -/
theorem breaks (h : PoolInvariant pools s) (op : PoolOp) (hnot : ¬ KeepsPools pools s op) :
    ¬ PoolsKept pools (poolStep pools config s op) := by
  cases op with
  | spawn call world manifest => exact h.spawnWorker_breaks hnot
  | push call => exact pushWorker_breaks hnot
  | start call poolName parent => exact absurd trivial hnot
  | kill world agentId => exact absurd trivial hnot
  | retain agentId => exact absurd trivial hnot

theorem boot (pools : List AgentPoolConfigEntry) (kernel : KernelState) :
    PoolInvariant pools (.boot kernel) where
  capped _ _ _ := Nat.zero_le _
  listed _ _ hmade := absurd hmade List.not_mem_nil
  workersSeen _ _ hid := absurd hid List.not_mem_nil
  callsSeen _ _ hphase := by cases hphase
  madeSeen _ _ hmade := absurd hmade List.not_mem_nil
  killingGone _ hid := absurd hid List.not_mem_nil

end PoolInvariant

/-! ### Runs -/

/-- For every interleaving: no state has more running workers in a pool than it allows, or an agent
registered for a pool that is neither listed nor about to be, exactly when every spawn for a pool
saves what it registers and every push of a registered agent finds a place. -/
theorem pools_kept_iff (pools : List AgentPoolConfigEntry) (config : KernelConfig)
    (kernel : KernelState) (ops : List PoolOp) :
    (∀ s ∈ passed (poolStep pools config) (.boot kernel) ops, PoolsKept pools s) ↔
      Guarded (poolStep pools config) (KeepsPools pools) (.boot kernel) ops :=
  passed_safe_iff (fun _ h => h.toPoolsKept) (fun _ op h hkeeps => h.step op hkeeps)
    (fun _ op h hnot => h.breaks op hnot) (PoolInvariant.boot pools kernel)

/-- A pool for one worker. -/
def crew : List AgentPoolConfigEntry := [{ name := "crew", maxInstances := 1 }]

/-- Two calls for a worker check the pool before one of them has pushed its agent; the manifest is
renamed between their readings. -/
def twoCalls : List PoolOp :=
  [.start 0 "crew" none, .start 1 "crew" none, .spawn 0 {} (.ok { name := "scout" }),
    .spawn 1 {} (.ok { name := "ranger" }), .push 0, .push 1]

/-- Both calls find the pool empty, and it gets two workers. -/
theorem crew_overfilled : ¬ ∀ (pools : List AgentPoolConfigEntry) (config : KernelConfig)
    (kernel : KernelState) (ops : List PoolOp),
    ∀ s ∈ passed (poolStep pools config) (.boot kernel) ops, PoolsKept pools s := by
  intro hkept
  have hlast := hkept crew plainConfig (.new 10) twoCalls
    (runOps (poolStep crew plainConfig) (.boot (.new 10)) twoCalls)
    (mem_passed.mpr ⟨twoCalls, List.prefix_rfl, rfl⟩)
  have hrunning : (runOps (poolStep crew plainConfig) (.boot (.new 10)) twoCalls).running "crew" =
      2 := by decide +kernel
  have hcapped := hlast.capped "crew" { name := "crew", maxInstances := 1 } rfl
  rw [hrunning] at hcapped
  exact absurd hcapped (by decide)

end ArmaraOS.Kernel.Agents
