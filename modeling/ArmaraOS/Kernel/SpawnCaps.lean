import Mathlib.Logic.Relation
import ArmaraOS.Kernel.AgentSpawn
import ArmaraOS.Lib.Machine
import ArmaraOS.Security.Inheritance

/-!
The capabilities of agents that agents spawn (`tool_agent_spawn` in
`openfang-runtime/src/tool_runner.rs`; `spawn_agent_with_context` and `spawn_agent_checked` in
`openfang-kernel/src/kernel.rs`).

The checked way in compares the capabilities of the child with those of its parent. The tool takes
the other way, which compares nothing. Parsing the TOML of a manifest is a parameter.
-/

namespace ArmaraOS.Kernel.Agents

open ArmaraOS.Lib ArmaraOS.Security Function

/-! ### The ways in -/

/-- Why a spawn through the kernel handle fails. -/
inductive HandleError where
  | missingParameter (name : String)
  | invalidManifest (message : String)
  | escalation (denied : Capability)
  | spawnFailed (error : SpawnError)
deriving DecidableEq

/-- `CapabilityManager::list`. -/
def KernelState.granted (s : KernelState) (agentId : Nat) : List Capability :=
  (s.grants agentId).getD []

section Handle

variable (parse : String → Except String AgentManifest) (config : KernelConfig)
  (world : SpawnWorld) (s : KernelState)

/-- `spawn_agent_with_context`: the id and the name of the new agent. -/
def spawnAgentWithContext (manifestToml : String) (parentId : Option Nat) :
    KernelState × Except HandleError (Nat × String) :=
  match parse manifestToml with
  | .error e => (s, .error (.invalidManifest e))
  | .ok manifest =>
      let out := s.spawnAgentWithParent config world manifest parentId none
      (out.1,
        match out.2 with
        | .error e => .error (.spawnFailed e)
        | .ok newId => .ok (newId, manifest.name))

/-- `tool_agent_spawn`, with the id and the name that its answer names. -/
def toolAgentSpawn (input : Json) (parentId : Nat) :
    KernelState × Except HandleError (Nat × String) :=
  match (input.field "manifest_toml").asStr with
  | none => (s, .error (.missingParameter "manifest_toml"))
  | some manifestToml => spawnAgentWithContext parse config world s manifestToml (some parentId)

end Handle

/-! ### What a spawn grants -/

namespace KernelState

variable (config : KernelConfig) (world : SpawnWorld) (s : KernelState)
  (manifest : AgentManifest) (parent : Option Nat)

/-- A spawn under a drawn id leaves the grants of the agents that the kernel has seen. -/
theorem spawn_grants_seen {id : Nat} (h : id < s.drawn) :
    (s.spawnAgentWithParent config world manifest parent none).1.grants id = s.grants id := by
  have hne : id ≠ s.drawn := h.ne
  have houtcome := s.spawn_outcome config world manifest parent none
  generalize s.spawnAgentWithParent config world manifest parent none = out at houtcome ⊢
  cases houtcome with
  | refused e hrefused => rfl
  | noSession e hadmits hsession => rfl
  | noWorkspace e hadmits hsession hworkspace => rfl
  | taken hadmits hsession hworkspace htaken => exact update_of_ne hne _ _
  | unsaved e enrolled hadmits hsession hworkspace henrolled hsave =>
      obtain ⟨-, -, hgrants, -⟩ := enrol_eq_ok henrolled
      rw [addChild_grants, hgrants]
      exact update_of_ne hne _ _
  | spawned enrolled hadmits hsession hworkspace henrolled hsave =>
      obtain ⟨-, -, hgrants, -⟩ := enrol_eq_ok henrolled
      rw [completed_grants, addChild_grants, hgrants]
      exact update_of_ne hne _ _

/-- A spawn that returns Ok under a drawn id. -/
theorem spawn_ok {child : Nat}
    (h : (s.spawnAgentWithParent config world manifest parent none).2 = .ok child) :
    child = s.drawn ∧
      (s.spawnAgentWithParent config world manifest parent none).1.granted child =
        manifestToCapabilities manifest ∧
      child < (s.spawnAgentWithParent config world manifest parent none).1.drawn ∧
      ∀ pid, parent = some pid → pid < s.drawn := by
  have houtcome := s.spawn_outcome config world manifest parent none
  generalize s.spawnAgentWithParent config world manifest parent none = out at houtcome h ⊢
  cases houtcome with
  | refused e hrefused => cases h
  | noSession e hadmits hsession => cases h
  | noWorkspace e hadmits hsession hworkspace => cases h
  | taken hadmits hsession hworkspace htaken => cases h
  | unsaved e enrolled hadmits hsession hworkspace henrolled hsave => cases h
  | spawned enrolled hadmits hsession hworkspace henrolled hsave =>
      cases h
      obtain ⟨-, -, hgrants, -, -, -, -, -, hdrawn⟩ := enrol_eq_ok henrolled
      refine ⟨rfl, ?_, ?_, ?_⟩
      · rw [granted, completed_grants, addChild_grants, hgrants, admitted_grants, update_self]
        rfl
      · rw [completed_drawn, addChild_drawn, hdrawn]
        exact lt_max_of_lt_right (Nat.lt_succ_self _)
      · rintro pid rfl
        obtain ⟨entry, hget, -⟩ := not_full_of_admits hadmits
        exact s.lt_drawn_of_registered hget

end KernelState

/-! ### The tool -/

/-- Every capability of the child is matched by one of the parent. -/
def Within (parentCaps childCaps : List Capability) : Prop :=
  ∀ c ∈ childCaps, ∃ p ∈ parentCaps, capabilityMatches p c = true

section Tool

variable (parse : String → Except String AgentManifest) (config : KernelConfig)
  (world : SpawnWorld) (s : KernelState)

/-- A spawn through the handle that returns Ok has spawned the agent of the manifest. -/
theorem spawnAgentWithContext_ok {manifestToml : String} {parentId : Option Nat} {child : Nat}
    {name : String}
    (h : (spawnAgentWithContext parse config world s manifestToml parentId).2 =
      .ok (child, name)) :
    ∃ manifest, parse manifestToml = .ok manifest ∧ manifest.name = name ∧
      (s.spawnAgentWithParent config world manifest parentId none).2 = .ok child ∧
      (spawnAgentWithContext parse config world s manifestToml parentId).1 =
        (s.spawnAgentWithParent config world manifest parentId none).1 := by
  unfold spawnAgentWithContext at h ⊢
  cases hparse : parse manifestToml with
  | error e =>
      rw [hparse] at h
      cases h
  | ok manifest =>
      rw [hparse] at h
      dsimp only at h
      cases hout : (s.spawnAgentWithParent config world manifest parentId none).2 with
      | error e =>
          rw [hout] at h
          cases h
      | ok newId =>
          rw [hout] at h
          cases h
          exact ⟨manifest, rfl, rfl, hout, rfl⟩

/-- What the tool asks for: the capabilities of the manifest in its input. -/
def requestedCaps (input : Json) : List Capability :=
  match (input.field "manifest_toml").asStr with
  | none => []
  | some manifestToml =>
      match parse manifestToml with
      | .error _ => []
      | .ok manifest => manifestToCapabilities manifest

/-- The child of a call has what its manifest asks for. -/
theorem granted_toolAgentSpawn {input : Json} {parentId child : Nat} {name : String}
    (h : (toolAgentSpawn parse config world s input parentId).2 = .ok (child, name)) :
    (toolAgentSpawn parse config world s input parentId).1.granted child =
      requestedCaps parse input := by
  unfold toolAgentSpawn requestedCaps at *
  cases hinput : (input.field "manifest_toml").asStr with
  | none =>
      rw [hinput] at h
      cases h
  | some manifestToml =>
      rw [hinput] at h
      dsimp only at h ⊢
      obtain ⟨manifest, hparse, -, hok, hstate⟩ := spawnAgentWithContext_ok parse config world s h
      rw [hstate, hparse, (s.spawn_ok config world manifest _ hok).2.1]

/-- The caller of a call that returns Ok was seen before, and its child is seen now. -/
theorem toolAgentSpawn_seen {input : Json} {parentId child : Nat} {name : String}
    (h : (toolAgentSpawn parse config world s input parentId).2 = .ok (child, name)) :
    parentId < s.drawn ∧ child < (toolAgentSpawn parse config world s input parentId).1.drawn := by
  unfold toolAgentSpawn at *
  cases hinput : (input.field "manifest_toml").asStr with
  | none =>
      rw [hinput] at h
      cases h
  | some manifestToml =>
      rw [hinput] at h
      dsimp only at h ⊢
      obtain ⟨manifest, -, -, hok, hstate⟩ := spawnAgentWithContext_ok parse config world s h
      obtain ⟨-, -, hchild, hparent⟩ := s.spawn_ok config world manifest _ hok
      rw [hstate]
      exact ⟨hparent parentId rfl, hchild⟩

end Tool

/-! ### Chains of calls -/

/-- Every capability of the child is matched by one of the parent whose pattern has at most one
star. -/
def WithinSimply (parentCaps childCaps : List Capability) : Prop :=
  ∀ c ∈ childCaps, ∃ p ∈ parentCaps, p.stars ≤ 1 ∧ capabilityMatches p c = true

instance (parentCaps childCaps : List Capability) : Decidable (WithinSimply parentCaps childCaps) :=
  inferInstanceAs (Decidable (∀ c ∈ childCaps, ∃ p ∈ parentCaps,
    p.stars ≤ 1 ∧ capabilityMatches p c = true))

namespace WithinSimply

variable {a b c : List Capability}

theorem within (h : WithinSimply a b) : Within a b := by
  intro cap hcap
  obtain ⟨p, hp, -, hmatch⟩ := h cap hcap
  exact ⟨p, hp, hmatch⟩

/-- What a parent covers simply it covers of the children of its children. -/
theorem trans (hab : WithinSimply a b) (hbc : WithinSimply b c) : WithinSimply a c := by
  intro cap hcap
  obtain ⟨middle, hmiddle, -, hcovers⟩ := hbc cap hcap
  obtain ⟨top, htop, hsimple, hmatch⟩ := hab middle hmiddle
  exact ⟨top, htop, hsimple, capabilityMatches_trans hsimple hmatch hcovers⟩

end WithinSimply

/-- A call of the tool by an agent. -/
structure SpawnCall where
  caller : Nat
  input : Json
  world : SpawnWorld

/-- The kernel under calls of the tool, with the links that they made: caller and child. -/
structure SpawnRun where
  kernel : KernelState
  links : List (Nat × Nat) := []

section Run

variable (parse : String → Except String AgentManifest) (config : KernelConfig)

/-- The answer to a call. -/
def SpawnRun.answer (s : SpawnRun) (call : SpawnCall) : Except HandleError (Nat × String) :=
  (toolAgentSpawn parse config call.world s.kernel call.input call.caller).2

/-- One call. -/
def spawnStep (s : SpawnRun) (call : SpawnCall) : SpawnRun where
  kernel := (toolAgentSpawn parse config call.world s.kernel call.input call.caller).1
  links :=
    match s.answer parse config call with
    | .error _ => s.links
    | .ok (child, _) => s.links ++ [(call.caller, child)]

/-- One agent descends from another by calls of the tool. -/
def SpawnRun.Descends (s : SpawnRun) : Nat → Nat → Prop :=
  Relation.TransGen fun parent child => (parent, child) ∈ s.links

/-- No agent has a capability outside those of an agent that it descends from. -/
def DescendantsWithin (s : SpawnRun) : Prop :=
  ∀ root agent, s.Descends root agent → Within (s.kernel.granted root) (s.kernel.granted agent)

/-- A call that returns Ok asks for what its caller covers by patterns with at most one star. -/
def CallWithin (s : SpawnRun) (call : SpawnCall) : Prop :=
  (s.answer parse config call).isOk = true →
    WithinSimply (s.kernel.granted call.caller) (requestedCaps parse call.input)

/-- The links are between agents that were seen, and each stays within its parent. -/
structure LinksWithin (s : SpawnRun) : Prop where
  seen : ∀ link ∈ s.links, link.1 < s.kernel.drawn ∧ link.2 < s.kernel.drawn
  within : ∀ link ∈ s.links,
    WithinSimply (s.kernel.granted link.1) (s.kernel.granted link.2)

theorem LinksWithin.descendantsWithin {s : SpawnRun} (h : LinksWithin s) :
    DescendantsWithin s := by
  intro root agent hdescends
  have hsimple : WithinSimply (s.kernel.granted root) (s.kernel.granted agent) := by
    induction hdescends with
    | single hlink => exact h.within _ hlink
    | tail _ hlink ih => exact ih.trans (h.within _ hlink)
  exact hsimple.within

/-- A call leaves the grants of the agents that the kernel has seen, and what it has seen. -/
theorem toolAgentSpawn_frame (world : SpawnWorld) (s : KernelState) (input : Json)
    (caller : Nat) :
    s.drawn ≤ (toolAgentSpawn parse config world s input caller).1.drawn ∧
      ∀ id, id < s.drawn →
        (toolAgentSpawn parse config world s input caller).1.granted id = s.granted id := by
  unfold toolAgentSpawn
  split
  · exact ⟨Nat.le_refl _, fun _ _ => rfl⟩
  · unfold spawnAgentWithContext
    split
    · exact ⟨Nat.le_refl _, fun _ _ => rfl⟩
    · refine ⟨s.drawn_le_spawn config world _ _ none, fun id hid => ?_⟩
      exact congrArg (Option.getD · []) (s.spawn_grants_seen config world _ _ hid)

/-- A call within the capabilities of its caller keeps the links within. -/
theorem LinksWithin.step {s : SpawnRun} (h : LinksWithin s) {call : SpawnCall}
    (hcall : CallWithin parse config s call) : LinksWithin (spawnStep parse config s call) := by
  obtain ⟨hle, hframe⟩ :=
    toolAgentSpawn_frame parse config call.world s.kernel call.input call.caller
  have hold : ∀ link ∈ s.links,
      (link.1 < (spawnStep parse config s call).kernel.drawn ∧
        link.2 < (spawnStep parse config s call).kernel.drawn) ∧
      WithinSimply ((spawnStep parse config s call).kernel.granted link.1)
        ((spawnStep parse config s call).kernel.granted link.2) := by
    intro link hlink
    obtain ⟨hleft, hright⟩ := h.seen link hlink
    refine ⟨⟨hleft.trans_le hle, hright.trans_le hle⟩, ?_⟩
    rw [spawnStep, hframe _ hleft, hframe _ hright]
    exact h.within link hlink
  cases hanswer : s.answer parse config call with
  | error e =>
      have hlinks : (spawnStep parse config s call).links = s.links := by
        rw [spawnStep, hanswer]
      constructor
      · intro link hlink
        exact (hold link (hlinks ▸ hlink)).1
      · intro link hlink
        exact (hold link (hlinks ▸ hlink)).2
  | ok made =>
      obtain ⟨child, name⟩ := made
      have hlinks : (spawnStep parse config s call).links = s.links ++ [(call.caller, child)] := by
        rw [spawnStep, hanswer]
      have hcaps := granted_toolAgentSpawn parse config call.world s.kernel hanswer
      have hseen := toolAgentSpawn_seen parse config call.world s.kernel hanswer
      have hcovers := hcall (by rw [hanswer]; rfl)
      constructor
      · intro link hlink
        rw [hlinks] at hlink
        rcases List.mem_append.mp hlink with hmem | hnew
        · exact (hold link hmem).1
        · obtain rfl := List.mem_singleton.mp hnew
          exact ⟨hseen.1.trans_le hle, hseen.2⟩
      · intro link hlink
        rw [hlinks] at hlink
        rcases List.mem_append.mp hlink with hmem | hnew
        · exact (hold link hmem).2
        · obtain rfl := List.mem_singleton.mp hnew
          rw [spawnStep, hframe _ hseen.1, hcaps]
          exact hcovers

/-- What a call of the tool grants stays within the grants of its caller exactly when the check
that the tool leaves out would have passed. Where every call stays within its caller by patterns
with at most one star, no agent has a capability outside those of an agent it descends from. -/
theorem agent_spawn_within_iff :
    (∀ (world : SpawnWorld) (s : KernelState) (input : Json) (caller child : Nat) (name : String),
      (toolAgentSpawn parse config world s input caller).2 = .ok (child, name) →
        (Within (s.granted caller)
            ((toolAgentSpawn parse config world s input caller).1.granted child) ↔
          validateCapabilityInheritance (s.granted caller) (requestedCaps parse input) =
            .ok ())) ∧
    ∀ (kernel : KernelState) (calls : List SpawnCall),
      Guarded (spawnStep parse config) (CallWithin parse config) { kernel := kernel } calls →
        ∀ s ∈ passed (spawnStep parse config) { kernel := kernel } calls,
          DescendantsWithin s := by
  constructor
  · intro world s input caller child name h
    rw [granted_toolAgentSpawn parse config world s h]
    exact validateCapabilityInheritance_ok.symm
  · intro kernel calls hguard s hs
    have hstep : ∀ (s : SpawnRun) (call : SpawnCall), LinksWithin s →
        CallWithin parse config s call → LinksWithin (spawnStep parse config s call) :=
      fun _ _ h hcall => h.step parse config hcall
    have hinit : LinksWithin { kernel := kernel } := by
      constructor <;> (intro link hlink; cases hlink)
    exact (passed_invariant hstep hinit hguard s hs).descendantsWithin

end Run

/-! ### A stronger child -/

/-- An agent that may read files below its own directory, and spawn agents. -/
def clerkManifest : AgentManifest where
  name := "clerk"
  capabilities := { tools := ["file_read"], memoryRead := ["self.*"], agentSpawn := true }

/-- An agent with as much as the clerk. -/
def deputyToml : String :=
  "name = \"deputy\"\n[capabilities]\ntools = [\"file_read\"]\n" ++
    "memory_read = [\"self.*\"]\nagent_spawn = true\n"

/-- An agent with less than the clerk. -/
def readerToml : String :=
  "name = \"reader\"\n[capabilities]\ntools = [\"file_read\"]\nmemory_read = [\"self.a\"]\n"

/-- An agent with every tool. -/
def helperToml : String := "name = \"helper\"\nprofile = \"full\"\n"

/-- The manifests of the three. -/
def sampleManifests (toml : String) : Except String AgentManifest :=
  if toml = deputyToml then .ok { clerkManifest with name := "deputy" }
  else if toml = readerToml then
    .ok { name := "reader", capabilities := { tools := ["file_read"], memoryRead := ["self.a"] } }
  else if toml = helperToml then .ok { name := "helper", profile := some .full }
  else .error "invalid TOML"

/-- The kernel with the clerk. -/
def clerkKernel : KernelState :=
  ((KernelState.new 10).spawnAgentWithParent plainConfig {} clerkManifest none none).1

/-- The input that asks for a manifest. -/
def spawnInput (toml : String) : Json := .obj [("manifest_toml", .str toml)]

/-- The clerk spawns a deputy, and the deputy a reader. -/
theorem agent_spawn_within_iff_deputy :
    Within (clerkKernel.granted 0) ((toolAgentSpawn sampleManifests plainConfig {} clerkKernel
      (spawnInput readerToml) 0).1.granted 1) ∧
    ∀ s ∈ passed (spawnStep sampleManifests plainConfig) { kernel := clerkKernel }
      [⟨0, spawnInput deputyToml, {}⟩, ⟨1, spawnInput readerToml, {}⟩], DescendantsWithin s := by
  have hcovered : WithinSimply (clerkKernel.granted 0)
      (requestedCaps sampleManifests (spawnInput readerToml)) := by decide +kernel
  constructor
  · exact ((agent_spawn_within_iff sampleManifests plainConfig).1 {} clerkKernel
      (spawnInput readerToml) 0 1 "reader" (by decide +kernel)).mpr
        (validateCapabilityInheritance_ok.mpr hcovered.within)
  · refine (agent_spawn_within_iff sampleManifests plainConfig).2 clerkKernel _
      ⟨fun _ => ?_, fun _ => ?_, trivial⟩
    · decide +kernel
    · decide +kernel

/-- The clerk spawns an agent with the full profile. The call returns Ok, and the child may call
every tool. -/
theorem clerk_spawns_full_helper : ¬ ∀ (parse : String → Except String AgentManifest)
    (config : KernelConfig) (world : SpawnWorld) (s : KernelState) (input : Json)
    (caller child : Nat) (name : String),
    (toolAgentSpawn parse config world s input caller).2 = .ok (child, name) →
      Within (s.granted caller)
        ((toolAgentSpawn parse config world s input caller).1.granted child) := by
  intro h
  have hok : (toolAgentSpawn sampleManifests plainConfig {} clerkKernel (spawnInput helperToml)
      0).2 = .ok (1, "helper") := by decide +kernel
  have hwithin := h sampleManifests plainConfig {} clerkKernel (spawnInput helperToml) 0 1
    "helper" hok
  rw [granted_toolAgentSpawn sampleManifests plainConfig {} clerkKernel hok] at hwithin
  have hcovered := validateCapabilityInheritance_ok.mpr hwithin
  revert hcovered
  decide +kernel

end ArmaraOS.Kernel.Agents
