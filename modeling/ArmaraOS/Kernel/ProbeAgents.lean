import ArmaraOS.Kernel.AgentSpawn

/-!
The clearing of internal probe agents at boot (`openfang-kernel/src/internal_automation_probe.rs`).

Agents whose names start alike are of one family, and all of a family but one are killed; a probe
agent that no cron job refers to is killed too. The registry is left alone if and only if no two
probe agents are of one family and each has a job (`tidied_get_iff`).
-/

namespace ArmaraOS.Kernel.Agents

open ArmaraOS.Agent ArmaraOS.Lib ArmaraOS.Text Function

/-! ### Probe agents -/

/-- The family keys of probe agents. -/
inductive ProbeFamily where
  | allowlistProbe
  | offlineCron
  | allowIrOff
deriving DecidableEq

/-- `probe_family_key`. -/
def probeFamilyKey (lib : Library) (name : String) : Option ProbeFamily :=
  let n := lib.toLowercase name
  if startsWith n "allowlist-probe" then some .allowlistProbe
  else if startsWith n "offline-cron" then some .offlineCron
  else if startsWith n "allow-ir-off" then some .allowIrOff
  else none

/-- `is_internal_automation_probe_agent_name`. -/
def isInternalAutomationProbeAgentName (lib : Library) (name : String) : Bool :=
  let n := lib.toLowercase name
  startsWith n "allowlist-probe" || startsWith n "offline-cron" || startsWith n "allow-ir-off"

/-- A name is a probe agent's if and only if it has a family. -/
theorem isInternalAutomationProbeAgentName_iff {lib : Library} {name : String} :
    isInternalAutomationProbeAgentName lib name = true ↔ probeFamilyKey lib name ≠ none := by
  rw [isInternalAutomationProbeAgentName, probeFamilyKey]
  cases startsWith (lib.toLowercase name) "allowlist-probe" <;>
    cases startsWith (lib.toLowercase name) "offline-cron" <;>
      cases startsWith (lib.toLowercase name) "allow-ir-off" <;> simp

/-- What the clearing meets: the orders in which the registry and a hash map list what they hold,
when agents were made, the time, and what the store does with the rows of those that are killed. -/
structure ProbeWorld where
  list : KernelState → List AgentEntry
  listed : ∀ s, (list s).Perm s.registry.agents.entries
  families : List ProbeFamily
  allFamilies : families.Perm [.allowlistProbe, .offlineCron, .allowIrOff]
  createdAt : Nat → Int
  now : Nat → Int
  killed : Nat → KernelState.KillWorld

section Clearing

variable {Expr Zone : Type} (cronLib : CronLibrary Expr Zone) (config : KernelConfig)
  (world : ProbeWorld)

/-- The key of an agent is greater than that of another: it has more cron jobs, or as many and was
made later. -/
def outranks (cron : CronScheduler) (entry other : AgentEntry) : Bool :=
  decide (cron.agentCount other.id < cron.agentCount entry.id) ||
    (cron.agentCount other.id == cron.agentCount entry.id &&
      decide (world.createdAt other.id < world.createdAt entry.id))

/-- `max_by_key`: of the greatest the last. -/
def survivor (cron : CronScheduler) : AgentEntry → List AgentEntry → AgentEntry
  | best, [] => best
  | best, entry :: rest =>
      survivor cron (if outranks world cron best entry then best else entry) rest

/-- An agent of a family that is not the survivor: its jobs go to the survivor, and it is killed. -/
def mergeInto (survivorId : Nat) (s : KernelState) (entry : AgentEntry) : KernelState :=
  if entry.id = survivorId then s
  else
    (KernelState.killAgent
      { s with cron := (s.cron.reassignAgentJobs cronLib entry.id survivorId world.now).1 } config
      (world.killed entry.id) entry.id).1

/-- The body of the loop of `consolidate_internal_probe_agent_families` over the families. -/
def consolidateGroup (s : KernelState) : List AgentEntry → KernelState
  | first :: second :: rest =>
      (first :: second :: rest).foldl
        (mergeInto cronLib config world (survivor world s.cron first (second :: rest)).id) s
  | _ => s

/-- `consolidate_internal_probe_agent_families`. -/
def consolidateInternalProbeAgentFamilies (s : KernelState) : KernelState :=
  world.families.foldl (fun s' family => consolidateGroup cronLib config world s'
    ((world.list s).filter fun entry => probeFamilyKey config.lib entry.name == some family)) s

/-- A cron job refers to the agent. -/
def isReferenced (cron : CronScheduler) (id : Nat) : Bool :=
  cron.jobs.entries.any fun entry => entry.job.agentId == id

/-- `gc_unreferenced_internal_probe_agents`. -/
def gcUnreferencedInternalProbeAgents (s : KernelState) : KernelState :=
  ((world.list s).filter fun entry =>
    isInternalAutomationProbeAgentName config.lib entry.name &&
      !isReferenced s.cron entry.id).foldl
    (fun s entry => (s.killAgent config (world.killed entry.id) entry.id).1) s

/-- Both, as the boot does them. -/
def tidied (s : KernelState) : KernelState :=
  gcUnreferencedInternalProbeAgents config world
    (consolidateInternalProbeAgentFamilies cronLib config world s)

end Clearing

/-! ### What is killed -/

/-- Agents are taken out of the registry, and nothing else is done to it. -/
structure Shrinks (s s' : KernelState) : Prop where
  drawn : s'.drawn = s.drawn
  get : ∀ id, s'.registry.get id = s.registry.get id ∨ s'.registry.get id = none

namespace Shrinks

variable {s s' s'' : KernelState}

theorem refl (s : KernelState) : Shrinks s s := ⟨rfl, fun _ => .inl rfl⟩

theorem trans (h : Shrinks s s') (h' : Shrinks s' s'') : Shrinks s s'' := by
  refine ⟨h'.drawn.trans h.drawn, fun id => ?_⟩
  rcases h'.get id with hsame | hnone
  · rw [hsame]
    exact h.get id
  · exact .inr hnone

theorem none_of_none (h : Shrinks s s') {id : Nat} (hnone : s.registry.get id = none) :
    s'.registry.get id = none := by
  rcases h.get id with hsame | hnone'
  · rw [hsame, hnone]
  · exact hnone'

end Shrinks

theorem foldl_shrinks {α : Type} {f : KernelState → α → KernelState}
    (h : ∀ s a, Shrinks s (f s a)) (l : List α) (s : KernelState) : Shrinks s (l.foldl f s) := by
  induction l generalizing s with
  | nil => exact .refl s
  | cons a l ih => exact (h s a).trans (ih (f s a))

/-- What one step brings about and no step undoes holds at the end. -/
theorem foldl_of_step {α : Type} {f : KernelState → α → KernelState} {P : KernelState → Prop}
    (hkeep : ∀ s a, P s → P (f s a)) {a : α} (hstep : ∀ s, P (f s a)) {l : List α} (ha : a ∈ l)
    (s : KernelState) : P (l.foldl f s) := by
  obtain ⟨front, back, rfl⟩ := List.append_of_mem ha
  rw [List.foldl_append, List.foldl_cons]
  have hback : ∀ (back : List α) (s : KernelState), P s → P (back.foldl f s) := by
    intro back
    induction back with
    | nil => exact fun _ hs => hs
    | cons b back ih => exact fun s hs => ih (f s b) (hkeep s b hs)
  exact hback back _ (hstep _)

section Kills

variable {s : KernelState} {config : KernelConfig}

/-- A kill takes the agent out of the registry. -/
theorem get_killAgent (config : KernelConfig) (world : KernelState.KillWorld) (id other : Nat) :
    (s.killAgent config world id).1.registry.get other =
      if other = id then none else s.registry.get other := by
  unfold KernelState.killAgent
  split
  · next hremove =>
      split
      · next heq =>
          rw [heq]
          by_contra hsome
          obtain ⟨entry, hentry⟩ := Option.ne_none_iff_exists'.mp hsome
          obtain ⟨r', hok⟩ := AgentRegistry.remove_of_registered hentry
          rw [hok] at hremove
          cases hremove
      · rfl
  · next removed hremove =>
      change removed.1.agents.find other = _
      rw [(AgentRegistry.remove_eq_ok hremove).2.1, Table.find_erase]
      rfl

theorem drawn_killAgent (config : KernelConfig) (world : KernelState.KillWorld) (id : Nat) :
    (s.killAgent config world id).1.drawn = s.drawn := by
  unfold KernelState.killAgent
  split <;> rfl

theorem shrinks_killAgent (config : KernelConfig) (world : KernelState.KillWorld) (id : Nat) :
    Shrinks s (s.killAgent config world id).1 := by
  refine ⟨drawn_killAgent config world id, fun other => ?_⟩
  rw [get_killAgent]
  split
  · exact .inr rfl
  · exact .inl rfl

variable {Expr Zone : Type} {cronLib : CronLibrary Expr Zone} {world : ProbeWorld}

theorem shrinks_mergeInto (survivorId : Nat) (s : KernelState) (entry : AgentEntry) :
    Shrinks s (mergeInto cronLib config world survivorId s entry) := by
  rw [mergeInto]
  split
  · exact .refl s
  · have hkill := @shrinks_killAgent
      { s with cron := (s.cron.reassignAgentJobs cronLib entry.id survivorId world.now).1 } config
      (world.killed entry.id) entry.id
    exact ⟨hkill.drawn, hkill.get⟩

theorem shrinks_consolidateGroup (s : KernelState) (group : List AgentEntry) :
    Shrinks s (consolidateGroup cronLib config world s group) := by
  rw [consolidateGroup.eq_def]
  split
  · exact foldl_shrinks (fun s entry => shrinks_mergeInto _ s entry) _ s
  · exact .refl s

theorem shrinks_consolidate (s : KernelState) :
    Shrinks s (consolidateInternalProbeAgentFamilies cronLib config world s) :=
  foldl_shrinks (fun s' _ => shrinks_consolidateGroup s' _) _ s

theorem shrinks_gc (s : KernelState) :
    Shrinks s (gcUnreferencedInternalProbeAgents config world s) :=
  foldl_shrinks (fun _ (entry : AgentEntry) =>
    shrinks_killAgent config (world.killed entry.id) entry.id) _ s

theorem shrinks_tidied (s : KernelState) : Shrinks s (tidied cronLib config world s) :=
  (shrinks_consolidate s).trans (shrinks_gc _)

/-- Of two agents of a group one is killed. -/
theorem consolidateGroup_kills {group : List AgentEntry} {entry other : AgentEntry}
    (hentry : entry ∈ group) (hother : other ∈ group) (hne : entry.id ≠ other.id)
    (s : KernelState) :
    (consolidateGroup cronLib config world s group).registry.get entry.id = none ∨
      (consolidateGroup cronLib config world s group).registry.get other.id = none := by
  have hkills : ∀ survivorId id s (killed : AgentEntry), killed.id = id → id ≠ survivorId →
      (mergeInto cronLib config world survivorId s killed).registry.get id = none := by
    rintro survivorId _ s killed rfl hnot
    rw [mergeInto, if_neg hnot, get_killAgent, if_pos rfl]
  have hgroup : ∀ survivorId (killed : AgentEntry), killed ∈ group → killed.id ≠ survivorId →
      (group.foldl (mergeInto cronLib config world survivorId) s).registry.get killed.id =
        none := by
    intro survivorId killed hkilled hnot
    exact foldl_of_step (P := fun s => s.registry.get killed.id = none)
      (fun s a hnone => (shrinks_mergeInto survivorId s a).none_of_none hnone)
      (fun s => hkills survivorId killed.id s killed rfl hnot) hkilled s
  match group with
  | [] => cases hentry
  | [only] =>
      rw [List.mem_singleton.mp hentry, List.mem_singleton.mp hother] at hne
      exact absurd rfl hne
  | first :: second :: rest =>
      rw [consolidateGroup]
      by_cases hsurvives : entry.id = (survivor world s.cron first (second :: rest)).id
      · exact .inr (hgroup _ other hother fun heq => hne (hsurvives.trans heq.symm))
      · exact .inl (hgroup _ entry hentry hsurvives)

/-- Nothing has to be cleared: no two probe agents are of one family, and each has a job. -/
structure ProbesTidy (lib : Library) (s : KernelState) : Prop where
  lone : ∀ entry ∈ s.registry.agents.entries, ∀ other ∈ s.registry.agents.entries,
    probeFamilyKey lib entry.name ≠ none →
      probeFamilyKey lib entry.name = probeFamilyKey lib other.name → entry.id = other.id
  referenced : ∀ entry ∈ s.registry.agents.entries, probeFamilyKey lib entry.name ≠ none →
    isReferenced s.cron entry.id = true

/-- Where no two agents are of one family, none is merged. -/
theorem consolidate_of_lone
    (h : ∀ entry ∈ s.registry.agents.entries, ∀ other ∈ s.registry.agents.entries,
      probeFamilyKey config.lib entry.name ≠ none →
        probeFamilyKey config.lib entry.name = probeFamilyKey config.lib other.name →
          entry.id = other.id) :
    consolidateInternalProbeAgentFamilies cronLib config world s = s := by
  rw [consolidateInternalProbeAgentFamilies]
  have hnodup : ((world.list s).map AgentEntry.id).Nodup :=
    ((world.listed s).map AgentEntry.id).nodup_iff.mpr s.registry.agents.distinct
  induction world.families with
  | nil => rfl
  | cons family families ih =>
      rw [List.foldl_cons]
      have hgroup : consolidateGroup cronLib config world s ((world.list s).filter
          fun entry => probeFamilyKey config.lib entry.name == some family) = s := by
        generalize hfilter : (world.list s).filter
          (fun entry => probeFamilyKey config.lib entry.name == some family) = group
        match group with
        | [] => rfl
        | [only] => rfl
        | first :: second :: rest =>
            have hmem : ∀ entry ∈ first :: second :: rest,
                entry ∈ s.registry.agents.entries ∧
                  probeFamilyKey config.lib entry.name = some family := by
              intro entry hentry
              rw [← hfilter, List.mem_filter, beq_iff_eq] at hentry
              exact ⟨(world.listed s).mem_iff.mp hentry.1, hentry.2⟩
            obtain ⟨hfirst, hfirstKey⟩ := hmem first List.mem_cons_self
            obtain ⟨hsecond, hsecondKey⟩ :=
              hmem second (List.mem_cons_of_mem _ List.mem_cons_self)
            have hsame := h first hfirst second hsecond (by rw [hfirstKey]; simp)
              (hfirstKey.trans hsecondKey.symm)
            have hsub := (hnodup.sublist ((List.filter_sublist (p := fun entry =>
              probeFamilyKey config.lib entry.name == some family)).map AgentEntry.id))
            rw [hfilter, List.map_cons, List.map_cons, hsame] at hsub
            exact absurd List.mem_cons_self (List.nodup_cons.mp hsub).1
      rw [hgroup, ih]

/-- Where nothing has to be cleared, nothing is. -/
theorem tidied_eq_self (htidy : ProbesTidy config.lib s) : tidied cronLib config world s = s := by
  have hnone : (world.list s).filter (fun entry =>
      isInternalAutomationProbeAgentName config.lib entry.name &&
        !isReferenced s.cron entry.id) = [] := by
    refine List.filter_eq_nil_iff.mpr fun entry hentry hkill => ?_
    rw [Bool.and_eq_true, Bool.not_eq_true'] at hkill
    have hreferenced := htidy.referenced entry ((world.listed s).mem_iff.mp hentry)
      (isInternalAutomationProbeAgentName_iff.mp hkill.1)
    rw [hkill.2] at hreferenced
    cases hreferenced
  rw [tidied, consolidate_of_lone htidy.lone, gcUnreferencedInternalProbeAgents, hnone]
  rfl

/-- The registry is left alone if and only if nothing has to be cleared. -/
theorem tidied_get_iff :
    (∀ id, (tidied cronLib config world s).registry.get id = s.registry.get id) ↔
      ProbesTidy config.lib s := by
  have hregistered : ∀ entry ∈ s.registry.agents.entries, s.registry.get entry.id = some entry :=
    fun entry hentry => Table.find_eq_some_iff.mpr ⟨hentry, rfl⟩
  constructor
  · intro hsame
    have hlone : ∀ entry ∈ s.registry.agents.entries, ∀ other ∈ s.registry.agents.entries,
        probeFamilyKey config.lib entry.name ≠ none →
          probeFamilyKey config.lib entry.name = probeFamilyKey config.lib other.name →
            entry.id = other.id := by
      intro entry hentry other hother hkey hkeys
      by_contra hne
      obtain ⟨family, hfamily⟩ := Option.ne_none_iff_exists'.mp hkey
      have hin : ∀ e ∈ s.registry.agents.entries, probeFamilyKey config.lib e.name = some family →
          e ∈ (world.list s).filter fun e => probeFamilyKey config.lib e.name == some family :=
        fun e he hname => List.mem_filter.mpr ⟨(world.listed s).mem_iff.mpr he, beq_iff_eq.mpr hname⟩
      have hmem : family ∈ world.families := by
        rw [world.allFamilies.mem_iff]
        cases family <;> simp
      have hkilled := foldl_of_step (f := fun s' family => consolidateGroup cronLib config world s'
          ((world.list s).filter fun e => probeFamilyKey config.lib e.name == some family))
        (P := fun s' => s'.registry.get entry.id = none ∨ s'.registry.get other.id = none)
        (fun s' a hnone => hnone.imp (shrinks_consolidateGroup s' _).none_of_none
          (shrinks_consolidateGroup s' _).none_of_none)
        (consolidateGroup_kills (hin entry hentry hfamily)
          (hin other hother (hkeys.symm.trans hfamily)) hne) hmem s
      have hgc := @shrinks_gc config world (consolidateInternalProbeAgentFamilies cronLib config
        world s)
      have hgone := hkilled.imp hgc.none_of_none hgc.none_of_none
      rcases hgone with hnone | hnone
      · have hstill := (hsame entry.id).trans (hregistered entry hentry)
        exact absurd (hnone.symm.trans hstill) (Option.some_ne_none _).symm
      · have hstill := (hsame other.id).trans (hregistered other hother)
        exact absurd (hnone.symm.trans hstill) (Option.some_ne_none _).symm
    refine ⟨hlone, fun entry hentry hkey => ?_⟩
    by_contra hnot
    rw [tidied, consolidate_of_lone hlone, gcUnreferencedInternalProbeAgents] at hsame
    have hmem : entry ∈ (world.list s).filter fun entry =>
        isInternalAutomationProbeAgentName config.lib entry.name &&
          !isReferenced s.cron entry.id := by
      rw [List.mem_filter, (world.listed s).mem_iff, Bool.and_eq_true, Bool.not_eq_true',
        Bool.eq_false_iff]
      exact ⟨hentry, isInternalAutomationProbeAgentName_iff.mpr hkey, hnot⟩
    have hnone := foldl_of_step (f := fun s entry =>
        (KernelState.killAgent s config (world.killed entry.id) entry.id).1)
      (P := fun s' => s'.registry.get entry.id = none)
      (fun s' a hnone => (shrinks_killAgent config (world.killed a.id) a.id).none_of_none hnone)
      (fun s' => by rw [get_killAgent, if_pos rfl]) hmem s
    have hstill := (hsame entry.id).trans (hregistered entry hentry)
    exact absurd (hnone.symm.trans hstill) (Option.some_ne_none _).symm
  · intro htidy id
    rw [tidied_eq_self htidy]

end Kills

end ArmaraOS.Kernel.Agents
