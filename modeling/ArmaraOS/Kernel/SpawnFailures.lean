import ArmaraOS.Kernel.AgentSpawn

/-!
What a spawn that fails leaves behind.

A spawn writes one part of the kernel after another, and nothing takes a write back. The refusals
of the parent and of the session store come before the first write. Every later failure comes
behind it: the session of the agent that does not exist stays stored, and behind a name that is
taken or an agent that cannot be saved its grants and its quota stay as well.
-/

namespace ArmaraOS.Kernel.Agents

open ArmaraOS.Lib

/-! ### Traces -/

/-- Two states that agree in their registry, grants, scheduler and triggers, and in the stored
sessions and agents. -/
structure NoTrace (before after : KernelState) : Prop where
  agents : after.registry.agents = before.registry.agents
  names : after.registry.nameIndex = before.registry.nameIndex
  tags : after.registry.tagIndex = before.registry.tagIndex
  grants : after.grants = before.grants
  scheduler : after.scheduler = before.scheduler
  triggers : after.triggers.engine = before.triggers.engine
  sessions : after.sessions.rows = before.sessions.rows
  stored : after.stored = before.stored

theorem NoTrace.refl (s : KernelState) : NoTrace s s := ⟨rfl, rfl, rfl, rfl, rfl, rfl, rfl, rfl⟩

/-- A session that was created is a trace. -/
theorem not_noTrace (before after : KernelState) {agentId : Nat}
    (h : after.sessions = before.sessions.createSession agentId) : ¬ NoTrace before after := by
  intro hnone
  have hsame := hnone.sessions
  rw [h] at hsame
  exact SessionStore.createSession_rows_ne _ _ hsame

/-- The spawn is refused before its first write, or nothing behind that can fail: the workspace
can be made, the name is free and the agent can be saved. -/
def RefusedOrSafe (s : KernelState) (world : SpawnWorld) (manifest : AgentManifest)
    (parent : Option Nat) : Prop :=
  s.registry.spawnRefusal parent ≠ none ∨ world.sessionError ≠ none ∨
    (world.workspaceError = none ∧ s.registry.nameIndex manifest.name = none ∧
      world.saveError = none)

/-- A spawn leaves no trace when it fails, exactly when it is refused before its first write or
nothing behind that can fail. -/
theorem failed_spawn_no_trace_iff (config : KernelConfig) (world : SpawnWorld) (s : KernelState)
    (manifest : AgentManifest) (parent fixedId : Option Nat) :
    (∀ e, (s.spawnAgentWithParent config world manifest parent fixedId).2 = .error e →
      NoTrace s (s.spawnAgentWithParent config world manifest parent fixedId).1) ↔
      RefusedOrSafe s world manifest parent := by
  have houtcome := s.spawn_outcome config world manifest parent fixedId
  unfold RefusedOrSafe
  generalize s.spawnAgentWithParent config world manifest parent fixedId = out at houtcome ⊢
  cases houtcome with
  | refused e hrefused => simp [hrefused, NoTrace.refl]
  | noSession e hadmits hsession => simp [hsession, NoTrace.refl]
  | noWorkspace e hadmits hsession hworkspace =>
      have htrace := not_noTrace s (s.createSession (s.spawnId fixedId)) rfl
      simp [hadmits, hsession, hworkspace, htrace]
  | taken hadmits hsession hworkspace htaken =>
      have htrace := not_noTrace s
        (s.admitted config world manifest (s.spawnId fixedId)) rfl
      simp [hadmits, hsession, htaken, htrace]
  | unsaved e enrolled hadmits hsession hworkspace henrolled hsave =>
      obtain ⟨-, -, -, -, -, -, hsessions, -⟩ := KernelState.enrol_eq_ok henrolled
      have htrace := not_noTrace s (enrolled.addChild parent (s.spawnId fixedId))
        (by rw [KernelState.addChild_sessions, hsessions, KernelState.admitted_sessions])
      simp [hadmits, hsession, hsave, htrace]
  | spawned enrolled hadmits hsession hworkspace henrolled hsave =>
      obtain ⟨hfree, -⟩ := KernelState.enrol_eq_ok henrolled
      have hname : s.registry.nameIndex manifest.name = none := hfree
      simp [hworkspace, hname, hsave]

/-- The agent is registered, and cannot be saved: the call fails, and the agent is there. -/
theorem unsaved_spawn_stays : ¬ ∀ (config : KernelConfig) (world : SpawnWorld) (s : KernelState)
    (manifest : AgentManifest) (parent fixedId : Option Nat) (e : SpawnError),
    (s.spawnAgentWithParent config world manifest parent fixedId).2 = .error e →
      NoTrace s (s.spawnAgentWithParent config world manifest parent fixedId).1 := by
  intro h
  have htrace := h plainConfig { saveError := some "disk full" } (.new 10) { name := "scout" }
    none none (.memory "disk full") rfl
  have hagents := htrace.agents
  have hsize := congrArg Table.size hagents
  cases hsize

end ArmaraOS.Kernel.Agents
