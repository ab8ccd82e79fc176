import ArmaraOS.Kernel.Hands
import ArmaraOS.Kernel.SpawnCaps

/-!
Approval without a human (`request_approval` in `openfang-kernel/src/kernel.rs`).

An agent with a tag that starts with `hand:` is not asked about. Activation puts such a tag on the
agents it spawns, and a spawn or a manifest update copies the tags of its manifest, whatever they
are: the exemption is for hands as long as no other manifest has such a tag (`hand_exemption_iff`).
-/

namespace ArmaraOS.Kernel.Agents

open ArmaraOS.Lib ArmaraOS.Text Function

/-! ### The exemption -/

/-- One of the tags is that of a hand. -/
def handTagged (tags : List String) : Bool := tags.any fun tag => startsWith tag "hand:"

/-- `request_approval`, for the agent id that its text parses to, and with the decision that the
approval manager comes to when it is asked. -/
def KernelState.requestApproval (s : KernelState) (agentId : Option Nat)
    (decision : ApprovalDecision) : Bool :=
  match agentId.bind s.registry.get with
  | some entry => handTagged entry.tags || decision == .approved
  | none => decision == .approved

/-! ### The tags of the agents -/

namespace AgentRegistry

/-- The agents with their tags. -/
def tagLists (r : AgentRegistry) : List (Nat × List String) :=
  r.agents.entries.map fun entry => (entry.id, entry.tags)

variable {r : AgentRegistry}

theorem mem_tagLists_of_get {id : Nat} {entry : AgentEntry} (h : r.get id = some entry) :
    (id, entry.tags) ∈ r.tagLists := by
  obtain ⟨hmem, rfl⟩ := Table.find_eq_some_iff.mp h
  exact List.mem_map_of_mem hmem

theorem get_of_mem_tagLists {listed : Nat × List String} (h : listed ∈ r.tagLists) :
    ∃ entry, r.get listed.1 = some entry ∧ entry.tags = listed.2 := by
  obtain ⟨entry, hmem, rfl⟩ := List.mem_map.mp h
  exact ⟨entry, Table.find_eq_some_iff.mpr ⟨hmem, rfl⟩, rfl⟩

theorem tagLists_erase {r' : AgentRegistry} {id : Nat} (h : r'.agents = r.agents.erase id) :
    r'.tagLists = r.tagLists.filter fun listed => listed.1 != id := by
  rw [tagLists, h, tagLists, List.filter_map]
  rfl

theorem tagLists_register {r' : AgentRegistry} {entry : AgentEntry}
    (h : r.register entry = .ok r') :
    r'.tagLists =
      (entry.id, entry.tags) :: r.tagLists.filter fun listed => listed.1 != entry.id := by
  rw [tagLists, (register_eq_ok h).2, tagLists, List.filter_map]
  rfl

/-- An entry that is rewritten with its tags stays as it was to the tags. -/
theorem tagLists_rewrite (id : Nat) (f : AgentEntry → AgentEntry) (hid hname)
    (htags : ∀ entry, (f entry).tags = entry.tags) :
    (r.rewrite id f hid hname).tagLists = r.tagLists := by
  refine List.map_map.trans (List.map_congr_left fun entry _ => ?_)
  dsimp only [comp_apply]
  split
  · rw [hid, htags]
  · rfl

theorem mem_tagLists_withManifest {entry : AgentEntry} {manifest : AgentManifest}
    {listed : Nat × List String} (hentry : r.get entry.id = some entry) :
    listed ∈ (r.withManifest entry manifest).tagLists ↔
      listed = (entry.id, manifest.tags) ∨ (listed ∈ r.tagLists ∧ listed.1 ≠ entry.id) := by
  have hmodified := fun other => @Table.mem_modify_of_find _ _ _ AgentEntry.id r.agents entry.id
    (fun entry => { entry with manifest := manifest, tags := manifest.tags }) (fun _ h => h) entry
    other hentry
  rw [tagLists, List.mem_map]
  constructor
  · rintro ⟨other, hother, rfl⟩
    rcases (hmodified other).mp hother with rfl | ⟨hmem, hne⟩
    · exact .inl rfl
    · exact .inr ⟨List.mem_map_of_mem hmem, hne⟩
  · rintro (rfl | ⟨hlisted, hne⟩)
    · exact ⟨_, (hmodified _).mpr (.inl rfl), rfl⟩
    · obtain ⟨other, hmem, rfl⟩ := List.mem_map.mp hlisted
      exact ⟨other, (hmodified other).mpr (.inr ⟨hmem, hne⟩), rfl⟩

end AgentRegistry

namespace KernelState

variable {s : KernelState} (config : KernelConfig)

theorem tagLists_addChild (parent : Option Nat) (childId : Nat) :
    (s.addChild parent childId).registry.tagLists = s.registry.tagLists := by
  cases parent with
  | none => rfl
  | some p =>
      exact AgentRegistry.tagLists_rewrite p
        (fun entry => { entry with children := entry.children ++ [childId] }) (fun _ => rfl)
        (fun _ => rfl) fun _ => rfl

/-- A spawn that registers its agent lists it with the tags of its manifest. -/
theorem tagLists_spawn (world : SpawnWorld) (manifest : AgentManifest)
    (parent fixedId : Option Nat) :
    (s.spawnAgentWithParent config world manifest parent fixedId).1.registry.tagLists =
      if Registers s world manifest parent then
        (s.spawnId fixedId, manifest.tags) ::
          s.registry.tagLists.filter fun listed => listed.1 != s.spawnId fixedId
      else s.registry.tagLists := by
  have houtcome := s.spawn_outcome config world manifest parent fixedId
  generalize s.spawnAgentWithParent config world manifest parent fixedId = out at houtcome ⊢
  cases houtcome with
  | refused e hrefused =>
      have hnot : ¬ Registers s world manifest parent := fun h => by simp [h.1] at hrefused
      rw [if_neg hnot]
  | noSession e hadmits hsession =>
      have hnot : ¬ Registers s world manifest parent := fun h => by simp [h.2.1] at hsession
      rw [if_neg hnot]
  | noWorkspace e hadmits hsession hworkspace =>
      have hnot : ¬ Registers s world manifest parent := fun h => by simp [h.2.2.1] at hworkspace
      rw [if_neg hnot]
      rfl
  | taken hadmits hsession hworkspace htaken =>
      have hnot : ¬ Registers s world manifest parent := fun h => htaken h.2.2.2
      rw [if_neg hnot, admitted_registry]
  | unsaved e enrolled hadmits hsession hworkspace henrolled hsave =>
      obtain ⟨hfree, hregister, -⟩ := enrol_eq_ok henrolled
      have hregisters : Registers s world manifest parent :=
        ⟨hadmits, hsession, hworkspace, hfree⟩
      rw [if_pos hregisters, tagLists_addChild]
      exact AgentRegistry.tagLists_register hregister
  | spawned enrolled hadmits hsession hworkspace henrolled hsave =>
      obtain ⟨hfree, hregister, -⟩ := enrol_eq_ok henrolled
      have hregisters : Registers s world manifest parent :=
        ⟨hadmits, hsession, hworkspace, hfree⟩
      rw [if_pos hregisters, completed_registry, tagLists_addChild]
      exact AgentRegistry.tagLists_register hregister

/-- A kill leaves the agents but the one. -/
theorem tagLists_kill (world : KillWorld) (agentId : Nat) :
    (s.killAgent config world agentId).1.registry.tagLists =
      s.registry.tagLists.filter fun listed => listed.1 != agentId := by
  unfold killAgent
  split
  · next e hfailed =>
      refine (List.filter_eq_self.mpr fun listed hlisted => ?_).symm
      obtain ⟨entry, hget, -⟩ := AgentRegistry.get_of_mem_tagLists hlisted
      rw [bne_iff_ne]
      rintro rfl
      obtain ⟨removed, hremoved⟩ := AgentRegistry.remove_of_registered hget
      rw [hremoved] at hfailed
      cases hfailed
  · next removed hremove =>
      exact AgentRegistry.tagLists_erase (AgentRegistry.remove_eq_ok hremove).2.1

theorem mem_tagLists_withoutAgent {world : KillWorld} {old : Option AgentEntry}
    {listed : Nat × List String}
    (h : listed ∈ (s.withoutAgent config world old).registry.tagLists) :
    listed ∈ s.registry.tagLists := by
  cases old with
  | none => exact h
  | some entry =>
      rw [withoutAgent, tagLists_kill] at h
      exact List.mem_of_mem_filter h

/-- An update applies: its agent is registered, under the name of the manifest. -/
def Applies (s : KernelState) (agentId : Nat) (manifest : AgentManifest) : Prop :=
  ∃ entry, s.registry.get agentId = some entry ∧ manifest.name = entry.name

/-- An update that applies lists its agent with the tags of the new manifest. -/
theorem mem_tagLists_update (world : SpawnWorld) {agentId : Nat} {manifest : AgentManifest}
    (happlies : s.Applies agentId manifest) {listed : Nat × List String} :
    listed ∈ (s.applyAgentManifestUpdate config world agentId manifest).1.registry.tagLists ↔
      listed = (agentId, manifest.tags) ∨ (listed ∈ s.registry.tagLists ∧ listed.1 ≠ agentId) := by
  obtain ⟨entry, hentry, hname⟩ := happlies
  have hid : entry.id = agentId := (Table.find_eq_some_iff.mp hentry).2
  subst hid
  unfold applyAgentManifestUpdate
  split
  · next hmissing =>
      rw [hmissing] at hentry
      cases hentry
  · next found hfound =>
      obtain rfl : entry = found := Option.some.inj (hentry.symm.trans hfound)
      rw [if_neg (not_not.mpr hname)]
      dsimp only
      split
      · exact AgentRegistry.mem_tagLists_withManifest hentry
      · rw [watch_registry]
        exact AgentRegistry.mem_tagLists_withManifest hentry

/-- An update that does not apply leaves the registry. -/
theorem update_of_not_applies (world : SpawnWorld) {agentId : Nat} {manifest : AgentManifest}
    (h : ¬ s.Applies agentId manifest) :
    (s.applyAgentManifestUpdate config world agentId manifest).1 = s := by
  unfold applyAgentManifestUpdate
  split
  · rfl
  · next entry hentry =>
      rw [if_pos fun hname => h ⟨entry, hentry, hname⟩]

end KernelState

/-! ### Runs -/

/-- A call in a run of the kernel. -/
inductive HandOp where
  | spawn (world : SpawnWorld) (manifest : AgentManifest) (parent fixedId : Option Nat)
  | agentSpawn (call : SpawnCall)
  | update (world : SpawnWorld) (agentId : Nat) (manifest : AgentManifest)
  | activate (world : HandWorld) (handId : String) (instanceConfig : List (String × Json))
  | deactivate (world : KernelState.KillWorld) (instanceId : Nat)
  | kill (world : KernelState.KillWorld) (agentId : Nat)

/-- The kernel in a run, with the ids under which an activation was the last to make an agent. -/
structure HandRun where
  state : HandKernel
  handMade : List Nat

/-- A run that has not begun, with the hands that are defined. -/
def HandRun.new (maxTotalJobs : Nat) (definitions : Table HandDefinition.id) : HandRun :=
  ⟨⟨.new maxTotalJobs, definitions, .empty, 0⟩, []⟩

/-- The spawn of the tool: the manifest of its input, when there is one. -/
def requestedManifest (parse : String → Except String AgentManifest) (input : Json) :
    Option AgentManifest :=
  match (input.field "manifest_toml").asStr with
  | none => none
  | some manifestToml => (parse manifestToml).toOption

/-- The ids made by hands, when a plain spawn registers an agent or not. -/
def madePlainly (s : KernelState) (handMade : List Nat) (world : SpawnWorld)
    (manifest : AgentManifest) (parent fixedId : Option Nat) : List Nat :=
  if Registers s world manifest parent then handMade.filter (· != s.spawnId fixedId)
  else handMade

section Run

variable {Expr Zone : Type} (lib : CronLibrary Expr Zone) (config : KernelConfig)
  (fromString : String → Nat) (parse : String → Except String AgentManifest)

/-- The spawn of an activation registers an agent. -/
def activationRegisters (world : HandWorld) (s : HandKernel) (handId : String)
    (instanceConfig : List (String × Json)) : Bool :=
  match s.hands.definitions.find handId with
  | none => false
  | some definition =>
      match s.hands.activate handId instanceConfig with
      | .error _ => false
      | .ok (_, made) =>
          Registers (s.kernel.withoutAgent config world.kill
            (s.kernel.findNamed definition.agentName)) world.spawn
            (handManifest config definition handId made.instanceId) none

/-- One call. -/
def handStep (s : HandRun) : HandOp → HandRun
  | .spawn world manifest parent fixedId =>
      { state := { s.state with
          kernel := (s.state.kernel.spawnAgentWithParent config world manifest parent fixedId).1 }
        handMade := madePlainly s.state.kernel s.handMade world manifest parent fixedId }
  | .agentSpawn call =>
      { state := { s.state with
          kernel := (toolAgentSpawn parse config call.world s.state.kernel call.input
            call.caller).1 }
        handMade :=
          match requestedManifest parse call.input with
          | none => s.handMade
          | some manifest =>
              madePlainly s.state.kernel s.handMade call.world manifest (some call.caller) none }
  | .update world agentId manifest =>
      { s with
        state := { s.state with
          kernel := (s.state.kernel.applyAgentManifestUpdate config world agentId manifest).1 } }
  | .activate world handId instanceConfig =>
      { state := (activateHand lib config fromString world s.state handId instanceConfig).1
        handMade :=
          if activationRegisters config world s.state handId instanceConfig then
            fromString handId :: s.handMade
          else s.handMade }
  | .deactivate world instanceId =>
      { s with state := (deactivateHand config world s.state instanceId).1 }
  | .kill world agentId =>
      { s with
        state := { s.state with kernel := (s.state.kernel.killAgent config world agentId).1 } }

/-- Every agent that is let through without a human decision was made by an activation. -/
def ApprovalsByHand (s : HandRun) : Prop :=
  ∀ agentId decision, s.state.kernel.requestApproval agentId decision = true →
    decision ≠ .approved → ∃ id ∈ s.handMade, agentId = some id

/-- A plain spawn that registers an agent does it without a hand tag. -/
def SpawnUntagged (s : KernelState) (world : SpawnWorld) (manifest : AgentManifest)
    (parent : Option Nat) : Prop :=
  Registers s world manifest parent → handTagged manifest.tags = false

/-- The condition on a call: a spawn that registers an agent, and an update that applies to an agent
that no activation made, have a manifest without a hand tag. -/
def TagsChecked (s : HandRun) : HandOp → Prop
  | .spawn world manifest parent _ => SpawnUntagged s.state.kernel world manifest parent
  | .agentSpawn call => ∀ manifest, requestedManifest parse call.input = some manifest →
      SpawnUntagged s.state.kernel call.world manifest (some call.caller)
  | .update _ agentId manifest => s.state.kernel.Applies agentId manifest →
      agentId ∉ s.handMade → handTagged manifest.tags = false
  | .activate .. => True
  | .deactivate .. => True
  | .kill .. => True

/-- Every agent of a registry with a hand tag is one of those made by an activation. -/
def TaggedByHand (r : AgentRegistry) (handMade : List Nat) : Prop :=
  ∀ listed ∈ r.tagLists, handTagged listed.2 = true → listed.1 ∈ handMade

theorem approvalsByHand_iff {s : HandRun} :
    ApprovalsByHand s ↔ TaggedByHand s.state.kernel.registry s.handMade := by
  constructor
  · intro h listed hlisted htagged
    obtain ⟨entry, hget, htags⟩ := AgentRegistry.get_of_mem_tagLists hlisted
    have htrue : s.state.kernel.requestApproval (some listed.1) .denied = true := by
      simp [KernelState.requestApproval, hget, htags, htagged]
    obtain ⟨id, hmade, hid⟩ := h _ _ htrue (by decide)
    exact Option.some.inj hid ▸ hmade
  · intro h agentId decision htrue hdecision
    unfold KernelState.requestApproval at htrue
    split at htrue
    · next entry hget =>
        obtain ⟨id, rfl, hget⟩ := Option.bind_eq_some_iff.mp hget
        have htagged : handTagged entry.tags = true := by simpa [hdecision] using htrue
        exact ⟨id, h _ (AgentRegistry.mem_tagLists_of_get hget) htagged, rfl⟩
    · simp [hdecision] at htrue

/-! ### What the calls do to the exemption -/

namespace TaggedByHand

variable {s : KernelState} {handMade : List Nat}

/-- A plain spawn keeps the exemption to hands exactly when it is untagged. -/
theorem spawn_iff (h : TaggedByHand s.registry handMade) (world : SpawnWorld)
    (manifest : AgentManifest) (parent fixedId : Option Nat) :
    TaggedByHand (s.spawnAgentWithParent config world manifest parent fixedId).1.registry
        (madePlainly s handMade world manifest parent fixedId) ↔
      SpawnUntagged s world manifest parent := by
  unfold TaggedByHand SpawnUntagged madePlainly
  rw [KernelState.tagLists_spawn]
  by_cases hregisters : Registers s world manifest parent
  · rw [if_pos hregisters, if_pos hregisters, List.forall_mem_cons]
    constructor
    · rintro ⟨hnew, -⟩ -
      by_contra htagged
      have hmem := hnew (by simpa using htagged)
      simp at hmem
    · intro huntagged
      refine ⟨fun htagged => ?_, fun listed hlisted htagged => ?_⟩
      · rw [huntagged hregisters] at htagged
        cases htagged
      · obtain ⟨hmem, hne⟩ := List.mem_filter.mp hlisted
        exact List.mem_filter.mpr ⟨h listed hmem htagged, hne⟩
  · rw [if_neg hregisters, if_neg hregisters]
    exact ⟨fun _ hregistered => absurd hregistered hregisters, fun _ => h⟩

/-- A spawn for a hand keeps the exemption, whatever its manifest. -/
theorem spawn_made (h : TaggedByHand s.registry handMade) (world : SpawnWorld)
    (manifest : AgentManifest) (parent : Option Nat) (id : Nat) :
    TaggedByHand
      (s.spawnAgentWithParent config world manifest parent (some id)).1.registry
      (if Registers s world manifest parent then id :: handMade else handMade) := by
  unfold TaggedByHand
  rw [KernelState.tagLists_spawn]
  split
  · intro listed hlisted htagged
    rcases List.mem_cons.mp hlisted with rfl | hold
    · exact List.mem_cons_self
    · exact List.mem_cons_of_mem _ (h listed (List.mem_of_mem_filter hold) htagged)
  · exact h

/-- A spawn by the tool is a plain spawn. -/
theorem agentSpawn_iff (h : TaggedByHand s.registry handMade) (call : SpawnCall) :
    TaggedByHand (toolAgentSpawn parse config call.world s call.input call.caller).1.registry
        (match requestedManifest parse call.input with
        | none => handMade
        | some manifest =>
            madePlainly s handMade call.world manifest (some call.caller) none) ↔
      ∀ manifest, requestedManifest parse call.input = some manifest →
        SpawnUntagged s call.world manifest (some call.caller) := by
  unfold toolAgentSpawn requestedManifest
  cases hinput : (call.input.field "manifest_toml").asStr with
  | none => simpa using h
  | some manifestToml =>
      dsimp only
      unfold spawnAgentWithContext
      cases hparse : parse manifestToml with
      | error e => simpa [Except.toOption] using h
      | ok manifest =>
          simpa [Except.toOption] using
            h.spawn_iff config call.world manifest (some call.caller) none

/-- An update keeps the exemption to hands exactly when it adds no hand tag to another agent. -/
theorem update_iff (h : TaggedByHand s.registry handMade) (world : SpawnWorld) (agentId : Nat)
    (manifest : AgentManifest) :
    TaggedByHand (s.applyAgentManifestUpdate config world agentId manifest).1.registry handMade ↔
      (s.Applies agentId manifest → agentId ∉ handMade → handTagged manifest.tags = false) := by
  by_cases happlies : s.Applies agentId manifest
  · unfold TaggedByHand
    constructor
    · intro hafter _ hmade
      by_contra htagged
      refine hmade (hafter (agentId, manifest.tags) ?_ (by simpa using htagged))
      exact (KernelState.mem_tagLists_update config world happlies).mpr (.inl rfl)
    · intro huntagged listed hlisted htagged
      rcases (KernelState.mem_tagLists_update config world happlies).mp hlisted with
        rfl | ⟨hold, -⟩
      · by_contra hmade
        rw [huntagged happlies hmade] at htagged
        cases htagged
      · exact h listed hold htagged
  · rw [KernelState.update_of_not_applies config world happlies]
    exact ⟨fun _ hother => absurd hother happlies, fun _ => h⟩

/-- Where no agent is added, the exemption stays with hands. -/
theorem of_subset (h : TaggedByHand s.registry handMade) {s' : KernelState}
    (hsub : ∀ listed ∈ s'.registry.tagLists, listed ∈ s.registry.tagLists) :
    TaggedByHand s'.registry handMade :=
  fun listed hlisted htagged => h listed (hsub listed hlisted) htagged

theorem kill (h : TaggedByHand s.registry handMade) (world : KernelState.KillWorld)
    (agentId : Nat) : TaggedByHand (s.killAgent config world agentId).1.registry handMade := by
  refine h.of_subset fun listed hlisted => ?_
  rw [KernelState.tagLists_kill] at hlisted
  exact List.mem_of_mem_filter hlisted

theorem killEach (h : TaggedByHand s.registry handMade) (world : KernelState.KillWorld)
    (entries : List AgentEntry) :
    TaggedByHand (killEach config world s entries).registry handMade := by
  induction entries generalizing s with
  | nil => exact h
  | cons entry entries ih => exact ih (h.kill config world entry.id)

end TaggedByHand

variable {s : HandKernel} {handMade : List Nat}

theorem TaggedByHand.deactivate (h : TaggedByHand s.kernel.registry handMade)
    (world : KernelState.KillWorld) (instanceId : Nat) :
    TaggedByHand (deactivateHand config world s instanceId).1.kernel.registry handMade := by
  unfold deactivateHand
  split
  · exact h
  · split
    · exact h.kill config world _
    · exact h.killEach config world _

/-- An activation adds at most an agent that it made. -/
theorem TaggedByHand.activate (h : TaggedByHand s.kernel.registry handMade) (world : HandWorld)
    (handId : String) (instanceConfig : List (String × Json)) :
    TaggedByHand
      (activateHand lib config fromString world s handId instanceConfig).1.kernel.registry
      (if activationRegisters config world s handId instanceConfig then
        fromString handId :: handMade
      else handMade) := by
  unfold activateHand activationRegisters
  cases hfind : s.hands.definitions.find handId with
  | none => simpa using h
  | some definition =>
      cases hactivate : s.hands.activate handId instanceConfig with
      | error e => simpa using h
      | ok activated =>
          have hfree : TaggedByHand (s.kernel.withoutAgent config world.kill
              (s.kernel.findNamed definition.agentName)).registry handMade :=
            h.of_subset fun _ hlisted => KernelState.mem_tagLists_withoutAgent config hlisted
          have hspawned := hfree.spawn_made config world.spawn
            (handManifest config definition handId activated.2.instanceId) none (fromString handId)
          dsimp only
          simp only [decide_eq_true_eq]
          split
          · exact hspawned
          · dsimp only
            rw [KernelState.reassignJobs_registry]
            exact hspawned

/-- A call keeps the exemption to hands exactly when the tags of its manifest are checked. -/
theorem taggedByHand_step_iff {s : HandRun}
    (h : TaggedByHand s.state.kernel.registry s.handMade) (op : HandOp) :
    TaggedByHand (handStep lib config fromString parse s op).state.kernel.registry
        (handStep lib config fromString parse s op).handMade ↔
      TagsChecked parse s op := by
  cases op with
  | spawn world manifest parent fixedId => exact h.spawn_iff config world manifest parent fixedId
  | agentSpawn call => exact h.agentSpawn_iff config parse call
  | update world agentId manifest => exact h.update_iff config world agentId manifest
  | activate world handId instanceConfig =>
      exact iff_of_true (h.activate lib config fromString world handId instanceConfig) trivial
  | deactivate world instanceId => exact iff_of_true (h.deactivate config world instanceId) trivial
  | kill world agentId => exact iff_of_true (h.kill config world agentId) trivial

/-- **Approval without a human.** In every state of a run the agents that are let through without a
human decision were made by an activation, exactly when no other spawn registers an agent with a
hand tag, and no update gives one to an agent that no activation made. -/
theorem hand_exemption_iff (maxTotalJobs : Nat) (definitions : Table HandDefinition.id)
    (ops : List HandOp) :
    (∀ s ∈ passed (handStep lib config fromString parse) (.new maxTotalJobs definitions) ops,
      ApprovalsByHand s) ↔
      Guarded (handStep lib config fromString parse) (TagsChecked parse)
        (.new maxTotalJobs definitions) ops := by
  have hstep : ∀ s op, ApprovalsByHand s → TagsChecked parse s op →
      ApprovalsByHand (handStep lib config fromString parse s op) := by
    intro s op h hchecked
    rw [approvalsByHand_iff] at h ⊢
    exact (taggedByHand_step_iff lib config fromString parse h op).mpr hchecked
  have hbreak : ∀ s op, ApprovalsByHand s → ¬ TagsChecked parse s op →
      ¬ ApprovalsByHand (handStep lib config fromString parse s op) := by
    intro s op h hunchecked hafter
    rw [approvalsByHand_iff] at h hafter
    exact hunchecked ((taggedByHand_step_iff lib config fromString parse h op).mp hafter)
  have hinit : ApprovalsByHand (.new maxTotalJobs definitions) := by
    refine approvalsByHand_iff.mpr fun listed hlisted => ?_
    cases hlisted
  exact passed_safe_iff (fun _ h => h) hstep hbreak hinit

end Run

/-- The manifest of a child that calls itself a hand. -/
def mimicToml : String := "name = \"mimic\"\ntags = [\"hand:browser\"]\n"

/-- The TOML parser, as far as the manifest goes. -/
def parseMimic (toml : String) : Except String AgentManifest :=
  if toml = mimicToml then .ok { name := "mimic", tags := ["hand:browser"] }
  else .error "expected a manifest"

/-- An agent that may spawn agents, and its spawn of the child through the tool. -/
def mimicCalls : List HandOp :=
  [.spawn {} { name := "clerk", capabilities := { agentSpawn := true } } none none,
    .agentSpawn ⟨0, .obj [("manifest_toml", .str mimicToml)], {}⟩]

/-- The child is not asked about, and no hand was activated. -/
theorem mimic_auto_approved : ¬ ∀ ops,
    ∀ s ∈ passed (handStep minutely plainConfig (fun _ => 7) parseMimic) (.new 10 .empty) ops,
      ApprovalsByHand s := by
  intro h
  have hlast := h mimicCalls
    (runOps (handStep minutely plainConfig (fun _ => 7) parseMimic) (.new 10 .empty) mimicCalls)
    (mem_passed.mpr ⟨mimicCalls, List.prefix_refl _, rfl⟩)
  obtain ⟨id, hmade, -⟩ := hlast (some 1) .denied (by decide +kernel) (by decide)
  have hnone : (runOps (handStep minutely plainConfig (fun _ => 7) parseMimic) (.new 10 .empty)
      mimicCalls).handMade = [] := by decide +kernel
  rw [hnone] at hmade
  cases hmade

end ArmaraOS.Kernel.Agents
