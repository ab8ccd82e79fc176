import Mathlib.Data.Finset.Card
import Mathlib.Data.List.Perm.Subperm
import ArmaraOS.Kernel.AgentSpawn
import ArmaraOS.Lib.Acyclic
import ArmaraOS.Lib.Machine

/-!
The limits `max_spawn_depth` and `max_subagents` over runs of spawns and kills.

A spawn looks at the limits of the parent alone, so that an agent further up can have more levels
below it than it allows. It counts the children that the parent records, and a kill leaves the
record of the parent as it is: a parent whose children are gone is refused as if they were there.
`refusals` is written for the statements: each refusal for `max_subagents`, with the limit and the
number of registered children.
-/

namespace ArmaraOS.Kernel.Agents

open ArmaraOS.Lib Function

/-! ### Registered agents below an agent -/

/-- An agent is a number of registered links below another. -/
inductive Below (agents : Table AgentEntry.id) (a : Nat) : Nat → Nat → Prop
  | self : Below agents a a 0
  | child {b k : Nat} {entry : AgentEntry} (h : Below agents a b k)
      (hentry : entry ∈ agents.entries) (hparent : entry.parent = some b) :
      Below agents a entry.id (k + 1)

/-- The number of registered children of an agent. -/
def childCount (agents : Table AgentEntry.id) (id : Nat) : Nat :=
  agents.count fun entry => entry.parent == some id

/-- No registered agent has an id, or has it as its parent. -/
def Unused (agents : Table AgentEntry.id) (id : Nat) : Prop :=
  ∀ entry ∈ agents.entries, entry.id ≠ id ∧ entry.parent ≠ some id

/-- Nothing is below an id that is not used. -/
theorem Below.of_unused {agents : Table AgentEntry.id} {a b k : Nat} (h : Below agents a b k)
    (hunused : Unused agents a) : b = a ∧ k = 0 := by
  induction h with
  | self => exact ⟨rfl, rfl⟩
  | child _ hentry hparent ih =>
      obtain ⟨rfl, -⟩ := ih
      exact absurd hparent (hunused _ hentry).2

/-- An agent that is below another is that agent, or some registered agent has a parent. -/
theorem Below.cases_child {agents : Table AgentEntry.id} {a b k : Nat} (h : Below agents a b k) :
    (b = a ∧ k = 0) ∨ ∃ entry c, entry ∈ agents.entries ∧ entry.parent = some c := by
  cases h with
  | self => exact .inl ⟨rfl, rfl⟩
  | child _ hentry hparent => exact .inr ⟨_, _, hentry, hparent⟩

/-! ### A new agent -/

/-- An entry when its agent may have got a child. -/
def withChild (parent : Option Nat) (childId : Nat) (entry : AgentEntry) : AgentEntry :=
  if parent = some entry.id then { entry with children := entry.children ++ [childId] } else entry

section WithChild

variable (parent : Option Nat) (childId : Nat) (entry : AgentEntry)

@[simp] theorem withChild_id : (withChild parent childId entry).id = entry.id := by
  unfold withChild
  split <;> rfl

@[simp] theorem withChild_parent : (withChild parent childId entry).parent = entry.parent := by
  unfold withChild
  split <;> rfl

@[simp] theorem withChild_manifest :
    (withChild parent childId entry).manifest = entry.manifest := by
  unfold withChild
  split <;> rfl

end WithChild

/-- The agents after a spawn: the new one, and the others, one of them with a child. -/
structure Joined (before after : Table AgentEntry.id) (new : AgentEntry) : Prop where
  unused : Unused before new.id
  parent : new.parent ≠ some new.id
  entries : ∀ entry, entry ∈ after.entries ↔
    entry = new ∨ ∃ old ∈ before.entries, entry = withChild new.parent new.id old
  counts : ∀ id, childCount after id ≤
    childCount before id + if new.parent = some id then 1 else 0

namespace Joined

variable {before after : Table AgentEntry.id} {new : AgentEntry}

theorem mem_of_mem (h : Joined before after new) {entry : AgentEntry}
    (hentry : entry ∈ before.entries) :
    withChild new.parent new.id entry ∈ after.entries :=
  (h.entries _).mpr (.inr ⟨entry, hentry, rfl⟩)

/-- What was below an agent still is. -/
theorem below_of_below (h : Joined before after new) {a b k : Nat} (hbelow : Below before a b k) :
    Below after a b k := by
  induction hbelow with
  | self => exact .self
  | @child b k entry _ hentry hparent ih =>
      have hstep := ih.child (h.mem_of_mem hentry) (by rw [withChild_parent]; exact hparent)
      rwa [withChild_id] at hstep

/-- The new agent is below what its parent was below. -/
theorem below_new (h : Joined before after new) {a p k : Nat} (hparent : new.parent = some p)
    (hbelow : Below before a p k) : Below after a new.id (k + 1) :=
  (h.below_of_below hbelow).child ((h.entries new).mpr (.inl rfl)) hparent

/-- Nothing else is new below an agent. -/
theorem below_cases (h : Joined before after new) {a b k : Nat} (hbelow : Below after a b k) :
    (b ≠ new.id ∧ Below before a b k) ∨ (b = new.id ∧ a = new.id ∧ k = 0) ∨
      (b = new.id ∧ ∃ p j, new.parent = some p ∧ k = j + 1 ∧ Below before a p j) := by
  induction hbelow with
  | self =>
      by_cases ha : a = new.id
      · exact .inr (.inl ⟨ha, ha, rfl⟩)
      · exact .inl ⟨ha, .self⟩
  | @child b k entry _ hentry hparent ih =>
      rcases (h.entries entry).mp hentry with rfl | ⟨old, hold, rfl⟩
      · refine .inr (.inr ⟨rfl, b, k, hparent, rfl, ?_⟩)
        rcases ih with ⟨-, hbelow⟩ | ⟨rfl, -⟩ | ⟨rfl, -⟩
        · exact hbelow
        · exact absurd hparent h.parent
        · exact absurd hparent h.parent
      · rw [withChild_parent] at hparent
        rw [withChild_id]
        have hb : b ≠ new.id := by
          rintro rfl
          exact (h.unused old hold).2 hparent
        refine .inl ⟨(h.unused old hold).1, ?_⟩
        rcases ih with ⟨-, hbelow⟩ | ⟨rfl, -⟩ | ⟨rfl, -⟩
        · exact hbelow.child hold hparent
        · exact absurd rfl hb
        · exact absurd rfl hb

end Joined

/-- A registration under an id that is not used joins the agents. -/
theorem joined_of_register {r r' : AgentRegistry} {entry : AgentEntry}
    (hregister : r.register entry = .ok r') (hunused : Unused r.agents entry.id)
    (hparent : entry.parent ≠ some entry.id) :
    Joined r.agents
      (match entry.parent with
        | none => r'
        | some p => r'.addChild p entry.id).agents entry := by
  obtain ⟨-, hagents⟩ := AgentRegistry.register_eq_ok hregister
  have hmem : ∀ other, other ∈ r'.agents.entries ↔ other = entry ∨ other ∈ r.agents.entries := by
    intro other
    rw [hagents, Table.mem_insert]
    constructor
    · rintro (rfl | ⟨hother, -⟩)
      · exact .inl rfl
      · exact .inr hother
    · rintro (rfl | hother)
      · exact .inl rfl
      · exact .inr ⟨hother, (hunused other hother).1⟩
  have hcount : ∀ id, childCount r'.agents id ≤
      childCount r.agents id + if entry.parent = some id then 1 else 0 := by
    intro id
    have hle := Table.count_insert_le r.agents entry fun e => e.parent == some id
    rw [← hagents] at hle
    simpa [childCount] using hle
  cases hp : entry.parent with
  | none =>
      refine ⟨hunused, hp ▸ hparent, fun other => ?_, fun id => ?_⟩
      · rw [hmem]
        simp [withChild, hp]
      · rw [hp]
        rw [hp] at hcount
        exact hcount id
  | some p =>
      have hne : p ≠ entry.id := by
        rintro rfl
        exact hparent hp
      refine ⟨hunused, hparent, fun other => ?_, fun id => ?_⟩
      · dsimp only [AgentRegistry.addChild, AgentRegistry.rewrite]
        rw [Table.mem_modify, hp]
        constructor
        · rintro (⟨hother, hid⟩ | ⟨old, hold, hid, rfl⟩)
          · rcases (hmem other).mp hother with rfl | hold
            · exact .inl rfl
            · refine .inr ⟨other, hold, ?_⟩
              rw [withChild, if_neg fun heq => hid (Option.some.inj heq).symm]
          · rcases (hmem old).mp hold with rfl | hold
            · exact absurd hid.symm hne
            · refine .inr ⟨old, hold, ?_⟩
              rw [withChild, if_pos (congrArg some hid.symm)]
        · rintro (rfl | ⟨old, hold, rfl⟩)
          · exact .inl ⟨(hmem _).mpr (.inl rfl), Ne.symm hne⟩
          · by_cases hid : old.id = p
            · refine .inr ⟨old, (hmem old).mpr (.inr hold), hid, ?_⟩
              rw [withChild, if_pos (congrArg some hid.symm)]
            · refine .inl ⟨?_, by rwa [withChild_id]⟩
              rw [withChild, if_neg fun heq => hid (Option.some.inj heq).symm]
              exact (hmem old).mpr (.inr hold)
      · have hsame : childCount (r'.addChild p entry.id).agents id = childCount r'.agents id := by
          dsimp only [AgentRegistry.addChild, AgentRegistry.rewrite, childCount, Table.modify]
          rw [Table.count_map]
          congr 1
          funext e
          split <;> rfl
        rw [hp, hsame]
        rw [hp] at hcount
        exact hcount id

/-! ### Runs of spawns and kills -/

/-- A spawn or a kill. -/
inductive LineageOp where
  | spawn (world : SpawnWorld) (manifest : AgentManifest) (parent fixedId : Option Nat)
  | kill (world : KernelState.KillWorld) (agentId : Nat)

/-- The kernel in a run, with its refusals for `max_subagents`: the limit, and the number of
registered children. -/
structure LineageRun where
  kernel : KernelState
  refusals : List (Nat × Nat) := []

/-- The parent of a spawn, when its record of children is full. -/
def AgentRegistry.fullParent (r : AgentRegistry) (parent : Option Nat) : Option AgentEntry :=
  (parent.bind r.get).filter AgentEntry.isFull

/-- One spawn or kill. -/
def lineageStep (config : KernelConfig) (s : LineageRun) : LineageOp → LineageRun
  | .spawn world manifest parent fixedId =>
      { kernel := (s.kernel.spawnAgentWithParent config world manifest parent fixedId).1
        refusals :=
          match s.kernel.registry.fullParent parent with
          | none => s.refusals
          | some full => s.refusals ++
              [(full.manifest.resources.maxSubagents,
                childCount s.kernel.registry.agents full.id)] }
  | .kill world agentId =>
      { s with kernel := (s.kernel.killAgent config world agentId).1 }

/-- The limits hold for every registered agent and every registered agent below it, and each
refusal for `max_subagents` found as many registered children as the limit. -/
structure LimitsHold (s : LineageRun) : Prop where
  depth : ∀ a ∈ s.kernel.registry.agents.entries, 0 < a.manifest.resources.maxSpawnDepth →
    ∀ b k, Below s.kernel.registry.agents a.id b k → k ≤ a.manifest.resources.maxSpawnDepth
  subagents : ∀ a ∈ s.kernel.registry.agents.entries, 0 < a.manifest.resources.maxSubagents →
    childCount s.kernel.registry.agents a.id ≤ a.manifest.resources.maxSubagents
  refusals : ∀ refusal ∈ s.refusals, refusal.1 ≤ refusal.2

/-- A fixed id is not used. -/
def FixedIdUnused (s : LineageRun) : LineageOp → Prop
  | .spawn _ _ _ fixedId => ∀ id, fixedId = some id → Unused s.kernel.registry.agents id
  | .kill _ _ => True

/-- The condition on a spawn: a parent whose record is full has as many registered children as it
allows, and a spawn that registers its agent finds room for one more level below every agent that
the parent is below. -/
def HasRoom (s : LineageRun) : LineageOp → Prop
  | .spawn world manifest parent _ =>
      (∀ full, s.kernel.registry.fullParent parent = some full →
        full.manifest.resources.maxSubagents ≤ childCount s.kernel.registry.agents full.id) ∧
      (Registers s.kernel world manifest parent → ∀ p, parent = some p →
        ∀ a ∈ s.kernel.registry.agents.entries, 0 < a.manifest.resources.maxSpawnDepth →
          ∀ k, Below s.kernel.registry.agents a.id p k →
            k + 1 ≤ a.manifest.resources.maxSpawnDepth)
  | .kill _ _ => True

/-- An agent records another, and both are registered. -/
def Records (agents : Table AgentEntry.id) (a b : Nat) : Prop :=
  ∃ parent ∈ agents.entries, ∃ child ∈ agents.entries,
    parent.id = a ∧ child.id = b ∧ b ∈ parent.children

/-- Every parent was seen, and no agent is recorded below itself. -/
structure TreeInvariant (kernel : KernelState) : Prop where
  parentsSeen : ∀ entry ∈ kernel.registry.agents.entries, ∀ p, entry.parent = some p →
    p < kernel.drawn
  acyclic : Acyclic (Records kernel.registry.agents)

/-- The limits hold, and a registered parent records its registered children. -/
structure LineageInvariant (s : LineageRun) : Prop where
  limits : LimitsHold s
  tree : TreeInvariant s.kernel
  recorded : ∀ entry ∈ s.kernel.registry.agents.entries,
    ∀ parent ∈ s.kernel.registry.agents.entries, entry.parent = some parent.id →
      entry.id ∈ parent.children

/-- A parent has no more registered children than it records. -/
theorem childCount_le_children {agents : Table AgentEntry.id} {parent : AgentEntry}
    (h : ∀ entry ∈ agents.entries, entry.parent = some parent.id → entry.id ∈ parent.children) :
    childCount agents parent.id ≤ parent.children.length := by
  have hcount : childCount agents parent.id =
      ((agents.entries.filter fun entry => entry.parent == some parent.id).map
        AgentEntry.id).length := by
    rw [List.length_map, ← List.countP_eq_length_filter]
    rfl
  rw [hcount]
  refine (List.Nodup.subperm ?_ ?_).length_le
  · exact agents.distinct.sublist (List.filter_sublist.map _)
  · intro id hid
    obtain ⟨entry, hentry, rfl⟩ := List.mem_map.mp hid
    obtain ⟨hmem, hparent⟩ := List.mem_filter.mp hentry
    exact h entry hmem (by simpa using hparent)

section Steps

variable (config : KernelConfig) {s : LineageRun}

theorem TreeInvariant.new (maxTotalJobs : Nat) : TreeInvariant (.new maxTotalJobs) where
  parentsSeen := by
    intro entry hentry
    cases hentry
  acyclic := by
    refine acyclic_empty ?_
    rintro a b ⟨parent, hparent, -⟩
    cases hparent

/-- An id that is drawn is not used. -/
theorem TreeInvariant.unused (h : TreeInvariant s.kernel) {fixedId : Option Nat}
    (hfixed : ∀ id, fixedId = some id → Unused s.kernel.registry.agents id) :
    Unused s.kernel.registry.agents (s.kernel.spawnId fixedId) := by
  cases fixedId with
  | some id => exact hfixed id rfl
  | none =>
      intro entry hentry
      refine ⟨(s.kernel.agentsSeen entry hentry).ne, fun hparent => ?_⟩
      exact absurd (h.parentsSeen entry hentry _ hparent) (lt_irrefl _)

/-- A spawn either leaves the agents alone, or joins an agent to them. -/
theorem spawn_agents (s : KernelState) (world : SpawnWorld) (manifest : AgentManifest)
    (parent fixedId : Option Nat)
    (hunused : Unused s.registry.agents (s.spawnId fixedId)) :
    (¬ Registers s world manifest parent ∧
      (s.spawnAgentWithParent config world manifest parent fixedId).1.registry = s.registry) ∨
    (Registers s world manifest parent ∧
      Joined s.registry.agents
        (s.spawnAgentWithParent config world manifest parent fixedId).1.registry.agents
        (s.entryFor config manifest parent fixedId)) := by
  have houtcome := s.spawn_outcome config world manifest parent fixedId
  unfold Registers
  generalize s.spawnAgentWithParent config world manifest parent fixedId = out at houtcome ⊢
  have hjoined : ∀ enrolled, s.registry.spawnRefusal parent = none →
      (s.admitted config world manifest (s.spawnId fixedId)).enrol
        (s.entryFor config manifest parent fixedId) = .ok enrolled →
      Joined s.registry.agents (enrolled.addChild parent (s.spawnId fixedId)).registry.agents
        (s.entryFor config manifest parent fixedId) := by
    intro enrolled hadmits henrolled
    obtain ⟨-, hregister, -⟩ := KernelState.enrol_eq_ok henrolled
    have hparent : parent ≠ some (s.spawnId fixedId) := by
      rintro rfl
      obtain ⟨entry, hget, -⟩ := KernelState.not_full_of_admits hadmits
      obtain ⟨hmem, hid⟩ := Table.find_eq_some_iff.mp hget
      exact (hunused entry hmem).1 hid
    have hjoin := joined_of_register hregister hunused hparent
    cases parent with
    | none => exact hjoin
    | some p => exact hjoin
  cases houtcome with
  | refused e hrefused => simp [hrefused]
  | noSession e hadmits hsession => simp [hsession]
  | noWorkspace e hadmits hsession hworkspace => simp [hworkspace, KernelState.createSession]
  | taken hadmits hsession hworkspace htaken => simp [htaken]
  | unsaved e enrolled hadmits hsession hworkspace henrolled hsave =>
      obtain ⟨hfree, -⟩ := KernelState.enrol_eq_ok henrolled
      exact .inr ⟨⟨hadmits, hsession, hworkspace, hfree⟩, hjoined enrolled hadmits henrolled⟩
  | spawned enrolled hadmits hsession hworkspace henrolled hsave =>
      obtain ⟨hfree, -⟩ := KernelState.enrol_eq_ok henrolled
      rw [KernelState.completed_registry]
      exact .inr ⟨⟨hadmits, hsession, hworkspace, hfree⟩, hjoined enrolled hadmits henrolled⟩

/-- A new agent records nobody, so that it closes no cycle. -/
theorem Joined.acyclic {before after : Table AgentEntry.id} {new : AgentEntry}
    (h : Joined before after new) (hchildren : new.children = [])
    (hacyclic : Acyclic (Records before)) : Acyclic (Records after) := by
  refine hacyclic.add_sink (t := new.id) ?_ ?_
  · rintro a b ⟨parent, hparent, child, hchild, rfl, rfl, hmem⟩
    rcases (h.entries child).mp hchild with rfl | ⟨oldChild, holdChild, rfl⟩
    · exact .inr rfl
    rcases (h.entries parent).mp hparent with rfl | ⟨oldParent, holdParent, rfl⟩
    · rw [hchildren] at hmem
      cases hmem
    simp only [withChild_id] at hmem ⊢
    refine .inl ⟨oldParent, holdParent, oldChild, holdChild, rfl, rfl, ?_⟩
    unfold withChild at hmem
    split at hmem
    · rcases List.mem_append.mp hmem with hold | hnew
      · exact hold
      · exact absurd (List.mem_singleton.mp hnew) (h.unused oldChild holdChild).1
    · exact hmem
  · rintro b ⟨parent, hparent, -, -, hid, -, hmem⟩
    rcases (h.entries parent).mp hparent with rfl | ⟨oldParent, holdParent, rfl⟩
    · rw [hchildren] at hmem
      cases hmem
    · rw [withChild_id] at hid
      exact (h.unused oldParent holdParent).1 hid

/-- The agents after a kill were agents before. -/
theorem agents_of_kill (s : KernelState) (world : KernelState.KillWorld) (agentId : Nat) :
    (s.killAgent config world agentId).1 = s ∨
      (s.killAgent config world agentId).1.registry.agents = s.registry.agents.erase agentId ∧
        (s.killAgent config world agentId).1.drawn = s.drawn := by
  unfold KernelState.killAgent
  split
  · exact .inl rfl
  · next removed hremove => exact .inr ⟨(AgentRegistry.remove_eq_ok hremove).2.1, rfl⟩

/-- Spawns under ids that are not in use, and kills, keep the tree. -/
theorem TreeInvariant.step (h : TreeInvariant s.kernel) {op : LineageOp}
    (hfixed : FixedIdUnused s op) : TreeInvariant (lineageStep config s op).kernel := by
  cases op with
  | spawn world manifest parent fixedId =>
      have hle := s.kernel.drawn_le_spawn config world manifest parent fixedId
      dsimp only [lineageStep]
      rcases spawn_agents config s.kernel world manifest parent fixedId
        (h.unused hfixed) with ⟨-, hsame⟩ | ⟨hregisters, hjoined⟩
      · constructor
        · rw [hsame]
          exact fun entry hentry p hp => (h.parentsSeen entry hentry p hp).trans_le hle
        · rw [hsame]
          exact h.acyclic
      · constructor
        · intro entry hentry p hp
          rcases (hjoined.entries entry).mp hentry with rfl | ⟨old, hold, rfl⟩
          · obtain rfl : parent = some p := hp
            obtain ⟨parentEntry, hget, -⟩ := KernelState.not_full_of_admits hregisters.1
            exact (s.kernel.lt_drawn_of_registered hget).trans_le hle
          · rw [withChild_parent] at hp
            exact (h.parentsSeen old hold p hp).trans_le hle
        · exact hjoined.acyclic rfl h.acyclic
  | kill world agentId =>
      dsimp only [lineageStep]
      rcases agents_of_kill config s.kernel world agentId with hsame | ⟨hagents, hdrawn⟩
      · rw [hsame]
        exact h
      · constructor
        · rw [hagents, hdrawn]
          exact fun entry hentry => h.parentsSeen entry (Table.mem_erase.mp hentry).1
        · rw [hagents]
          refine h.acyclic.mono ?_
          rintro a b ⟨parent, hparent, child, hchild, hids⟩
          exact ⟨parent, (Table.mem_erase.mp hparent).1, child, (Table.mem_erase.mp hchild).1, hids⟩

end Steps

/-! ### Heights -/

section Heights

open Classical in
/-- The registered agents that are recorded below an agent, itself included. -/
noncomputable def recordedBelow (agents : Table AgentEntry.id) (a : Nat) : Finset Nat :=
  (agents.entries.map AgentEntry.id).toFinset.filter fun b =>
    Relation.ReflTransGen (Records agents) a b

theorem mem_recordedBelow {agents : Table AgentEntry.id} {a b : Nat} :
    b ∈ recordedBelow agents a ↔
      (∃ entry ∈ agents.entries, entry.id = b) ∧ Relation.ReflTransGen (Records agents) a b := by
  simp [recordedBelow]

theorem card_recordedBelow_le (agents : Table AgentEntry.id) (a : Nat) :
    (recordedBelow agents a).card ≤ agents.size := by
  classical
  refine (Finset.card_filter_le _ _).trans ((List.toFinset_card_le _).trans ?_)
  rw [List.length_map]
  exact Nat.le_refl _

/-- Fewer agents are below a child. -/
theorem card_recordedBelow_lt {agents : Table AgentEntry.id} (hacyclic : Acyclic (Records agents))
    {a b : Nat} (h : Records agents a b) :
    (recordedBelow agents b).card < (recordedBelow agents a).card := by
  refine Finset.card_lt_card ((Finset.ssubset_iff_of_subset ?_).mpr ⟨a, ?_, ?_⟩)
  · intro c hc
    obtain ⟨hmem, hpath⟩ := mem_recordedBelow.mp hc
    exact mem_recordedBelow.mpr ⟨hmem, hpath.head h⟩
  · obtain ⟨parent, hparent, -, -, hid, -⟩ := h
    exact mem_recordedBelow.mpr ⟨⟨parent, hparent, hid⟩, .refl⟩
  · intro ha
    exact not_acyclic_of_edge h (mem_recordedBelow.mp ha).2 hacyclic

theorem mapM_isSome {α β : Type} {f : α → Option β} {xs : List α}
    (h : ∀ x ∈ xs, (f x).isSome = true) : (xs.mapM f).isSome = true := by
  induction xs with
  | nil => rfl
  | cons x xs ih =>
      obtain ⟨hx, hxs⟩ := List.forall_mem_cons.mp h
      obtain ⟨y, hy⟩ := Option.isSome_iff_exists.mp hx
      obtain ⟨ys, hys⟩ := Option.isSome_iff_exists.mp (ih hxs)
      rw [List.mapM_cons, hy, hys]
      rfl

/-- Where no agent is recorded below itself, the recursion of `spawn_subtree_height` ends within
as many levels as there are agents. -/
theorem subtreeHeight_isSome {r : AgentRegistry} (hacyclic : Acyclic (Records r.agents))
    {fuel : Nat} : ∀ {id : Nat}, (recordedBelow r.agents id).card < fuel →
      (r.subtreeHeight fuel id).isSome = true := by
  induction fuel with
  | zero =>
      intro id hcard
      exact absurd hcard (Nat.not_lt_zero _)
  | succ fuel ih =>
      intro id hcard
      rw [AgentRegistry.subtreeHeight]
      cases hget : r.get id with
      | none => rfl
      | some entry =>
          obtain ⟨hmem, rfl⟩ := Table.find_eq_some_iff.mp hget
          dsimp only
          rw [Option.isSome_map]
          refine mapM_isSome fun child hchild => ?_
          by_cases hregistered : ∃ e ∈ r.agents.entries, e.id = child
          · obtain ⟨e, he, rfl⟩ := hregistered
            have hlt := card_recordedBelow_lt hacyclic ⟨entry, hmem, e, he, rfl, rfl, hchild⟩
            exact ih (by omega)
          · cases fuel with
            | zero =>
                have hself : entry.id ∈ recordedBelow r.agents entry.id :=
                  mem_recordedBelow.mpr ⟨⟨entry, hmem, rfl⟩, .refl⟩
                have hpos := Finset.card_pos.mpr ⟨_, hself⟩
                omega
            | succ fuel =>
                have hnone : r.get child = none :=
                  Table.find_eq_none_iff.mpr fun e he hid => hregistered ⟨e, he, hid⟩
                rw [AgentRegistry.subtreeHeight, hnone]
                rfl

/-- The heights that a spawn asks for are found. -/
theorem spawnHeightIfAddLeaf_isSome {r : AgentRegistry} (hacyclic : Acyclic (Records r.agents))
    (parent : AgentEntry) : (r.spawnHeightIfAddLeaf parent).isSome = true := by
  unfold AgentRegistry.spawnHeightIfAddLeaf
  rw [Option.isSome_map]
  refine mapM_isSome fun child _ => subtreeHeight_isSome hacyclic ?_
  exact Nat.lt_succ_of_le (card_recordedBelow_le r.agents child)

/-- In a run whose fixed ids are not in use, no spawn asks for a height without end. -/
theorem spawn_heights_end (config : KernelConfig) (maxTotalJobs : Nat) (ops : List LineageOp)
    (hfixed : Guarded (lineageStep config) FixedIdUnused { kernel := .new maxTotalJobs } ops) :
    ∀ s ∈ passed (lineageStep config) { kernel := .new maxTotalJobs } ops,
      ∀ parent, s.kernel.registry.spawnRefusal parent ≠ some .recursion := by
  have hstep : ∀ (s : LineageRun) (op : LineageOp), (fun s => TreeInvariant s.kernel) s →
      FixedIdUnused s op → (fun s => TreeInvariant s.kernel) (lineageStep config s op) :=
    fun _ _ h hfixed => h.step config hfixed
  intro s hs parent hrecursion
  have hinit : TreeInvariant (LineageRun.mk (.new maxTotalJobs) []).kernel := .new maxTotalJobs
  have htree := passed_invariant hstep hinit hfixed s hs
  unfold AgentRegistry.spawnRefusal at hrecursion
  split at hrecursion
  · cases hrecursion
  · split at hrecursion
    · cases hrecursion
    · next entry hget =>
        split at hrecursion
        · cases hrecursion
        · obtain ⟨h, hheight⟩ := Option.isSome_iff_exists.mp
            (spawnHeightIfAddLeaf_isSome htree.acyclic entry)
          unfold AgentRegistry.depthRefusal at hrecursion
          dsimp only at hrecursion
          rw [hheight] at hrecursion
          dsimp only at hrecursion
          split at hrecursion
          · split at hrecursion
            · cases hrecursion
            · cases hrecursion
          · cases hrecursion

end Heights

section Limits

variable (config : KernelConfig) {s : LineageRun}

/-- An agent joins in the limits of its parent and of all that its parent is below. -/
theorem LimitsHold.joined {refusals : List (Nat × Nat)} {kernel : KernelState} {new : AgentEntry}
    (h : LimitsHold s) (hinv : LineageInvariant s)
    (hjoined : Joined s.kernel.registry.agents kernel.registry.agents new)
    (hfull : ∀ p, new.parent = some p →
      ∃ entry, s.kernel.registry.get p = some entry ∧ entry.isFull = false)
    (hroom : ∀ p, new.parent = some p → ∀ a ∈ s.kernel.registry.agents.entries,
      0 < a.manifest.resources.maxSpawnDepth → ∀ k, Below s.kernel.registry.agents a.id p k →
        k + 1 ≤ a.manifest.resources.maxSpawnDepth)
    (hrefusals : ∀ refusal ∈ refusals, refusal.1 ≤ refusal.2) :
    LimitsHold { kernel := kernel, refusals := refusals } where
  depth := by
    intro a ha hpos b k hbelow
    rcases (hjoined.entries a).mp ha with rfl | ⟨old, hold, rfl⟩
    · rcases hjoined.below_cases hbelow with
        ⟨hne, hbefore⟩ | ⟨-, -, rfl⟩ | ⟨-, p, j, hp, -, hbefore⟩
      · exact absurd (hbefore.of_unused hjoined.unused).1 hne
      · exact Nat.zero_le _
      · obtain ⟨rfl, -⟩ := hbefore.of_unused hjoined.unused
        exact absurd hp hjoined.parent
    · rw [withChild_manifest] at hpos ⊢
      rw [withChild_id] at hbelow
      rcases hjoined.below_cases hbelow with
        ⟨-, hbefore⟩ | ⟨-, -, rfl⟩ | ⟨-, p, j, hp, rfl, hbefore⟩
      · exact h.depth old hold hpos b k hbefore
      · exact Nat.zero_le _
      · exact hroom p hp old hold hpos j hbefore
  subagents := by
    intro a ha hpos
    have hcount := hjoined.counts a.id
    rcases (hjoined.entries a).mp ha with rfl | ⟨old, hold, rfl⟩
    · have hzero : childCount s.kernel.registry.agents a.id = 0 := by
        refine List.countP_eq_zero.mpr fun entry hentry hparent => ?_
        exact (hjoined.unused entry hentry).2 (by simpa using hparent)
      rw [hzero, if_neg hjoined.parent] at hcount
      exact hcount.trans (Nat.zero_le _)
    · rw [withChild_manifest] at hpos ⊢
      rw [withChild_id] at hcount ⊢
      split at hcount
      · next hp =>
          -- the parent of the new agent: it records its children, and the record was not full
          obtain ⟨entry, hget, hfull⟩ := hfull old.id hp
          obtain ⟨hmem, hid⟩ := Table.find_eq_some_iff.mp hget
          obtain rfl := Table.eq_of_key_eq hmem hold hid
          have hrecorded := childCount_le_children fun child hchild hparent =>
            hinv.recorded child hchild entry hmem hparent
          have hshort : entry.children.length < entry.manifest.resources.maxSubagents := by
            simpa [AgentEntry.isFull, hpos] using hfull
          exact hcount.trans (Nat.succ_le_of_lt (hrecorded.trans_lt hshort))
      · exact hcount.trans (h.subagents old hold hpos)
  refusals := hrefusals

/-- The refusals after a step that had room. -/
theorem refusals_of_room (h : LimitsHold s) {world : SpawnWorld} {manifest : AgentManifest}
    {parent fixedId : Option Nat} (hroom : HasRoom s (.spawn world manifest parent fixedId)) :
    ∀ refusal ∈ (lineageStep config s (.spawn world manifest parent fixedId)).refusals,
      refusal.1 ≤ refusal.2 := by
  intro refusal hmem
  dsimp only [lineageStep] at hmem
  cases hfull : s.kernel.registry.fullParent parent with
  | none =>
      rw [hfull] at hmem
      exact h.refusals refusal hmem
  | some full =>
      rw [hfull] at hmem
      rcases List.mem_append.mp hmem with hold | hnew
      · exact h.refusals refusal hold
      · obtain rfl := List.mem_singleton.mp hnew
        exact hroom.1 full hfull

/-- A spawn with room keeps the invariant. -/
theorem LineageInvariant.spawn (h : LineageInvariant s) {world : SpawnWorld}
    {manifest : AgentManifest} {parent fixedId : Option Nat}
    (hfixed : FixedIdUnused s (.spawn world manifest parent fixedId))
    (hroom : HasRoom s (.spawn world manifest parent fixedId)) :
    LineageInvariant (lineageStep config s (.spawn world manifest parent fixedId)) := by
  have hrefusals := refusals_of_room config h.limits hroom
  have htree := h.tree.step config hfixed
  rcases spawn_agents config s.kernel world manifest parent fixedId
    (h.tree.unused hfixed) with ⟨-, hsame⟩ | ⟨hregisters, hjoined⟩
  · refine ⟨⟨?_, ?_, hrefusals⟩, htree, ?_⟩
    · dsimp only [lineageStep]
      rw [hsame]
      exact h.limits.depth
    · dsimp only [lineageStep]
      rw [hsame]
      exact h.limits.subagents
    · dsimp only [lineageStep]
      rw [hsame]
      exact h.recorded
  · have hadmits : ∀ p, parent = some p →
        ∃ entry, s.kernel.registry.get p = some entry ∧ entry.isFull = false := by
      rintro p rfl
      exact KernelState.not_full_of_admits hregisters.1
    refine ⟨h.limits.joined h hjoined hadmits (hroom.2 hregisters) hrefusals, htree, ?_⟩
    · intro entry hentry up hup hparent
      rcases (hjoined.entries entry).mp hentry with rfl | ⟨old, hold, rfl⟩
      · rcases (hjoined.entries up).mp hup with rfl | ⟨oldUp, holdUp, rfl⟩
        · exact absurd hparent hjoined.parent
        · rw [withChild_id] at hparent
          rw [withChild, if_pos hparent]
          exact List.mem_append_right _ List.mem_cons_self
      · rw [withChild_parent] at hparent
        rw [withChild_id]
        rcases (hjoined.entries up).mp hup with rfl | ⟨oldUp, holdUp, rfl⟩
        · exact absurd hparent (hjoined.unused old hold).2
        · rw [withChild_id] at hparent
          have hrecorded := h.recorded old hold oldUp holdUp hparent
          unfold withChild
          split
          · exact List.mem_append_left _ hrecorded
          · exact hrecorded

/-- What was below an agent before a kill. -/
theorem Below.of_erase {agents : Table AgentEntry.id} {gone a b k : Nat}
    (h : Below (agents.erase gone) a b k) : Below agents a b k := by
  induction h with
  | self => exact .self
  | child _ hentry hparent ih => exact ih.child (Table.mem_erase.mp hentry).1 hparent

/-- A kill keeps the invariant. -/
theorem LineageInvariant.kill (h : LineageInvariant s) (world : KernelState.KillWorld)
    (agentId : Nat) : LineageInvariant (lineageStep config s (.kill world agentId)) := by
  have htree := h.tree.step config (show FixedIdUnused s (.kill world agentId) from trivial)
  dsimp only [lineageStep] at htree ⊢
  rcases agents_of_kill config s.kernel world agentId with hsame | ⟨hagents, -⟩
  · rw [hsame]
    exact h
  · refine ⟨⟨?_, ?_, h.limits.refusals⟩, htree, ?_⟩
    · intro a ha hpos b k hbelow
      dsimp only at ha hbelow
      rw [hagents] at ha hbelow
      exact h.limits.depth a (Table.mem_erase.mp ha).1 hpos b k hbelow.of_erase
    · intro a ha hpos
      dsimp only at ha ⊢
      rw [hagents] at ha ⊢
      exact (Table.count_filter_le _ _ _).trans
        (h.limits.subagents a (Table.mem_erase.mp ha).1 hpos)
    · intro entry hentry up hup
      dsimp only at hentry hup
      rw [hagents] at hentry hup
      exact h.recorded entry (Table.mem_erase.mp hentry).1 up (Table.mem_erase.mp hup).1

/-- A spawn without room breaks a limit, or is refused for children that are not there. -/
theorem LineageInvariant.broken (h : LineageInvariant s) (op : LineageOp)
    (hfixed : FixedIdUnused s op) (hroom : ¬ HasRoom s op) :
    ¬ LimitsHold (lineageStep config s op) := by
  intro hlimits
  cases op with
  | kill world agentId => exact hroom trivial
  | spawn world manifest parent fixedId =>
      rcases Classical.not_and_iff_not_or_not.mp hroom with hfull | hdepth
      · obtain ⟨full, hnot⟩ := not_forall.mp hfull
        obtain ⟨hfull, hfew⟩ := Classical.not_imp.mp hnot
        refine hfew (hlimits.refusals (full.manifest.resources.maxSubagents, _) ?_)
        dsimp only [lineageStep]
        rw [hfull]
        exact List.mem_append_right _ List.mem_cons_self
      · obtain ⟨hregisters, hnot⟩ := Classical.not_imp.mp hdepth
        rcases spawn_agents config s.kernel world manifest parent fixedId
          (h.tree.unused hfixed) with ⟨hnone, -⟩ | ⟨-, hjoined⟩
        · exact hnone hregisters
        · refine hnot fun p hp a ha hpos k hbelow => ?_
          have hmem := hjoined.mem_of_mem ha
          have hdeep := hlimits.depth _ hmem (by rwa [withChild_manifest])
            (s.kernel.spawnId fixedId) (k + 1)
            (by rw [withChild_id]; exact hjoined.below_new hp hbelow)
          rwa [withChild_manifest] at hdeep

end Limits

/-- In a run from a kernel without agents whose fixed ids are not in use, the limits hold in every
state exactly when every spawn of the run has room. -/
theorem spawn_limits_hold_iff (config : KernelConfig) (maxTotalJobs : Nat) (ops : List LineageOp)
    (hfixed : Guarded (lineageStep config) FixedIdUnused { kernel := .new maxTotalJobs } ops) :
    (∀ s ∈ passed (lineageStep config) { kernel := .new maxTotalJobs } ops, LimitsHold s) ↔
      Guarded (lineageStep config) HasRoom { kernel := .new maxTotalJobs } ops := by
  have hstep : ∀ (s : LineageRun) (op : LineageOp), LineageInvariant s → FixedIdUnused s op →
      HasRoom s op → LineageInvariant (lineageStep config s op) := by
    intro s op h hfixed hroom
    cases op with
    | spawn world manifest parent fixedId => exact h.spawn config hfixed hroom
    | kill world agentId => exact h.kill config world agentId
  have hbreak : ∀ (s : LineageRun) (op : LineageOp), LineageInvariant s → FixedIdUnused s op →
      ¬ HasRoom s op → ¬ LimitsHold (lineageStep config s op) :=
    fun _ op h hfixed hroom => h.broken config op hfixed hroom
  have hinit : LineageInvariant { kernel := .new maxTotalJobs } := by
    refine ⟨⟨?_, ?_, ?_⟩, .new maxTotalJobs, ?_⟩
    · intro a ha
      cases ha
    · intro a ha
      cases ha
    · intro refusal hmem
      cases hmem
    · intro entry hentry
      cases hentry
  exact passed_safe_iff_of_assumed (fun _ h => h.limits) hstep hbreak hinit hfixed

/-- A lead that allows one level of agents below it spawns a helper. -/
def leadAndHelper : List LineageOp :=
  [.spawn {} { name := "lead", resources := { maxSpawnDepth := 1 } } none none,
    .spawn {} { name := "helper" } (some 0) none]

theorem spawn_limits_hold_iff_helper :
    LimitsHold (runOps (lineageStep plainConfig) { kernel := .new 10 } leadAndHelper) := by
  refine (spawn_limits_hold_iff plainConfig 10 leadAndHelper ?_).mpr ?_ _
    (mem_passed.mpr ⟨_, List.prefix_rfl, rfl⟩)
  · refine ⟨fun id hid => ?_, fun id hid => ?_, trivial⟩
    · cases hid
    · cases hid
  · refine ⟨⟨fun full hfull => ?_, fun _ p hp => ?_⟩, ⟨fun full hfull => ?_, fun _ p hp => ?_⟩,
      trivial⟩
    · cases hfull
    · cases hp
    · cases hfull
    · cases hp
      intro a ha hpos k hbelow
      obtain rfl := List.mem_singleton.mp ha
      rcases hbelow.cases_child with ⟨-, rfl⟩ | ⟨entry, b, hentry, hparent⟩
      · exact Nat.le_refl _
      · obtain rfl := List.mem_singleton.mp hentry
        cases hparent

theorem spawn_heights_end_helper : (runOps (lineageStep plainConfig) { kernel := .new 10 }
    leadAndHelper).kernel.registry.spawnRefusal (some 0) ≠ some .recursion := by
  refine spawn_heights_end plainConfig 10 leadAndHelper ⟨fun id hid => ?_, fun id hid => ?_, trivial⟩
    _ (mem_passed.mpr ⟨_, List.prefix_rfl, rfl⟩) _
  · cases hid
  · cases hid

/-! ### Two levels below a lead that allows one -/

/-- The lead's helper spawns an agent of its own. -/
def helperSpawns : List LineageOp :=
  leadAndHelper ++ [.spawn {} { name := "second helper" } (some 1) none]

/-- Each spawn is within the limits of its parent, and the lead has two levels below it. -/
theorem helper_exceeds_depth : ¬ ∀ (config : KernelConfig) (maxTotalJobs : Nat)
    (ops : List LineageOp),
    ∀ s ∈ passed (lineageStep config) { kernel := .new maxTotalJobs } ops, LimitsHold s := by
  intro h
  have hlimits := h plainConfig 10 helperSpawns _ (mem_passed.mpr ⟨_, List.prefix_rfl, rfl⟩)
  have hagents : ∃ second helper lead,
      (runOps (lineageStep plainConfig) { kernel := .new 10 }
        helperSpawns).kernel.registry.agents.entries = [second, helper, lead] ∧
      second.parent = some helper.id ∧ helper.parent = some lead.id ∧
      lead.manifest.resources.maxSpawnDepth = 1 := ⟨_, _, _, rfl, rfl, rfl, rfl⟩
  obtain ⟨second, helper, lead, hentries, hsecond, hhelper, hdepth⟩ := hagents
  have hbelow : Below (runOps (lineageStep plainConfig) { kernel := .new 10 }
      helperSpawns).kernel.registry.agents lead.id second.id 2 := by
    refine .child (.child .self ?_ hhelper) ?_ hsecond
    · rw [hentries]
      simp
    · rw [hentries]
      simp
  have htwo := hlimits.depth lead (by rw [hentries]; simp) (by omega) second.id 2 hbelow
  omega

end ArmaraOS.Kernel.Agents
