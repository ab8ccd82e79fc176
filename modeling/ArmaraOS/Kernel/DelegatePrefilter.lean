import ArmaraOS.Kernel.Restart
import ArmaraOS.Security.ToolPolicy

/-!
Finding agents for a task (`prefilter_entries_for_capabilities`, what it calls, and the candidates
of `select_agent_for_task`, in `openfang-kernel/src/kernel.rs`).

Where only tools are required, the prefilter indexes the agents by the tools that they declare by
name and keeps the agents that are in every set there is. The check behind it also accepts wildcards
and profiles, and does not look at the allowlist and the blocklist. The index is the only place that
does, so the two agree exactly when the sets that exist tell apart the agents whose lists remove a
required tool, and no others.
-/

namespace ArmaraOS.Kernel.Agents

open ArmaraOS.Lib ArmaraOS.Text

/-! ### Tool filters -/

/-- `DEFAULT_AGENT_ALLOWLIST_TOOLS`. -/
def defaultAgentAllowlistTools : List String :=
  ["file_write", "file_read", "shell_exec", "workspace_actions_list", "workspace_action_set",
    "workspace_action_delete", "workspace_action", "script_detect",
    "script_run", "process_start", "process_poll", "process_write", "apply_patch", "web_search",
    "channel_send", "event_publish", "web_fetch", "github_subtree_download", "media_transcribe",
    "mcp_ainl_ainl_list_ecosystem", "mcp_ainl_ainl_capabilities", "mcp_ainl_ainl_validate",
    "mcp_ainl_ainl_compile", "mcp_ainl_ainl_run", "mcp_resource_read", "mcp_ainl_*", "mcp_*",
    "schedule_create", "schedule_action_create", "schedule_list", "schedule_delete",
    "channels_list"]

/-- `merge_default_agent_allowlist_tools`. -/
def mergeDefaultAgentAllowlistTools (allowlist : List String) : List String :=
  if allowlist.isEmpty then allowlist
  else
    defaultAgentAllowlistTools.foldl (fun allowlist required =>
      if allowlist.any fun t => toAsciiLowercase t == toAsciiLowercase required then allowlist
      else allowlist ++ [required]) allowlist

/-- `tool_name_matches_filter`: the glob matcher of the tool policy, without regard to case. -/
def toolNameMatchesFilter (pattern toolName : String) : Bool :=
  Security.globMatch (toAsciiLowercase (trim pattern)) (toAsciiLowercase toolName)

/-- `AgentEntry`, of which the tool filters, the state and the capabilities are read. -/
structure DelegateEntry where
  id : Nat
  manifest : AgentManifest
  toolAllowlist : List String := []
  toolBlocklist : List String := []
  state : AgentState := .running
deriving DecidableEq

namespace DelegateEntry

/-- The allowlist and the blocklist of an agent leave it a tool. -/
def keepsTool (entry : DelegateEntry) (tool : String) : Bool :=
  let allowlist := mergeDefaultAgentAllowlistTools entry.toolAllowlist
  let allowedByAllowlist :=
    allowlist.isEmpty || allowlist.any fun a => toolNameMatchesFilter a tool
  let notBlocked := !entry.toolBlocklist.any fun b => toolNameMatchesFilter b tool
  allowedByAllowlist && notBlocked

/-- `effective_tools`: the tools that an agent declares and that its lists leave it. -/
def effectiveTools (entry : DelegateEntry) : List String :=
  entry.manifest.capabilities.tools.filter entry.keepsTool

end DelegateEntry

/-! ### The prefilter -/

/-- `build_tool_to_agents_map`. A tool that has no agents is not in the map. -/
def buildToolToAgentsMap (entries : List DelegateEntry) (tool : String) : List Nat :=
  (entries.filter fun e => e.effectiveTools.contains tool).map DelegateEntry.id

/-- The intersection of the sets, of which there is at least one. -/
def intersection (first : List Nat) (rest : List (List Nat)) : List Nat :=
  rest.foldl (fun ids set => ids.filter set.contains) first

/-- `filter_entries_by_tool_intersection`. -/
def filterEntriesByToolIntersection (entries : List DelegateEntry) (tools : List String) :
    List DelegateEntry :=
  if tools.isEmpty then entries
  else
    let index := buildToolToAgentsMap entries
    match (tools.map index).filter fun set => !set.isEmpty with
    | [] => entries
    | first :: rest => entries.filter fun e => (intersection first rest).contains e.id

/-- The tools of a list of capabilities, if there is nothing else in it. -/
def toolNames : List Capability → Option (List String)
  | [] => some []
  | .toolInvoke t :: rest => (toolNames rest).map (t :: ·)
  | _ :: _ => none

/-- `prefilter_entries_for_capabilities`. -/
def prefilterEntriesForCapabilities (entries : List DelegateEntry) (required : List Capability) :
    List DelegateEntry :=
  if required.isEmpty then entries
  else
    match toolNames required with
    | some tools =>
        if !tools.isEmpty then filterEntriesByToolIntersection entries tools else entries
    | none => entries

/-- `agent_entry_satisfies_required_caps`. -/
def agentEntrySatisfiesRequiredCaps (entry : DelegateEntry) (required : List Capability) : Bool :=
  if required.isEmpty then true
  else grantedCapabilitiesCoverRequired (manifestToCapabilities entry.manifest) required

/-- The agents that are not terminated. -/
def availableEntries (all : List DelegateEntry) : List DelegateEntry :=
  all.filter fun e => e.state != .terminated

/-- The candidates of `select_agent_for_task`, before they are ranked. -/
def findCandidates (all : List DelegateEntry) (required : List Capability) :
    Except String (List DelegateEntry) :=
  let narrowed := prefilterEntriesForCapabilities (availableEntries all) required
  let candidates := narrowed.filter fun e => agentEntrySatisfiesRequiredCaps e required
  if candidates.isEmpty then .error "No agents found matching required capabilities"
  else .ok candidates

/-! ### What is asked of the prefilter, and when it holds -/

/-- The tools among the required capabilities. -/
def requiredTools (required : List Capability) : List String :=
  required.filterMap fun
    | .toolInvoke t => some t
    | _ => none

/-- The lists of an agent leave it the required tools. -/
def keepsRequired (required : List Capability) (entry : DelegateEntry) : Bool :=
  (requiredTools required).all entry.keepsTool

/-- Behind the prefilter, the check finds the agents that satisfy it and keep the required tools;
so no agent is reported only when there is none. -/
structure OnlySpeeds (entries : List DelegateEntry) (required : List Capability) : Prop where
  same : (prefilterEntriesForCapabilities entries required).filter
      (fun e => agentEntrySatisfiesRequiredCaps e required) =
    entries.filter fun e => agentEntrySatisfiesRequiredCaps e required && keepsRequired required e
  reports : ∀ all, availableEntries all = entries →
    findCandidates all required = .error "No agents found matching required capabilities" →
      ∀ e ∈ entries, agentEntrySatisfiesRequiredCaps e required = true →
        keepsRequired required e = false

/-- An agent of an id declares a tool by name, and its lists leave it the tool. -/
def Declares (entries : List DelegateEntry) (id : Nat) (tool : String) : Prop :=
  ∃ e ∈ entries, e.id = id ∧ tool ∈ e.manifest.capabilities.tools ∧ e.keepsTool tool = true

/-- Of the agents that satisfy the check: one that keeps the required tools declares each of them
that some agent declares, where only tools are required; and one that does not keep them misses a
required tool that some agent declares, and only tools are required. -/
structure ToldApart (entries : List DelegateEntry) (required : List Capability) : Prop where
  kept : ∀ tools, toolNames required = some tools → ∀ e ∈ entries,
    agentEntrySatisfiesRequiredCaps e required = true → keepsRequired required e = true →
      ∀ t ∈ tools, (∃ id, Declares entries id t) → Declares entries e.id t
  dropped : ∀ e ∈ entries, agentEntrySatisfiesRequiredCaps e required = true →
    keepsRequired required e = false → ∃ tools, toolNames required = some tools ∧
      ∃ t ∈ tools, (∃ id, Declares entries id t) ∧ ¬ Declares entries e.id t

/-! ### The index -/

theorem mem_buildToolToAgentsMap {entries : List DelegateEntry} {tool : String} {id : Nat} :
    id ∈ buildToolToAgentsMap entries tool ↔ Declares entries id tool := by
  unfold buildToolToAgentsMap Declares DelegateEntry.effectiveTools
  constructor
  · intro hid
    obtain ⟨e, he, rfl⟩ := List.mem_map.mp hid
    obtain ⟨hmem, htool⟩ := List.mem_filter.mp he
    exact ⟨e, hmem, rfl, List.mem_filter.mp (List.contains_iff_mem.mp htool)⟩
  · rintro ⟨e, hmem, rfl, htool⟩
    refine List.mem_map_of_mem (List.mem_filter.mpr ⟨hmem, ?_⟩)
    exact List.contains_iff_mem.mpr (List.mem_filter.mpr htool)

theorem mem_intersection {first : List Nat} {rest : List (List Nat)} {id : Nat} :
    id ∈ intersection first rest ↔ id ∈ first ∧ ∀ set ∈ rest, id ∈ set := by
  unfold intersection
  induction rest generalizing first with
  | nil => simp
  | cons set rest ih =>
      rw [List.foldl_cons, ih, List.mem_filter, List.forall_mem_cons, List.contains_iff_mem,
        and_assoc]

/-- The intersection keeps an agent that is in each set that exists; without any set, it keeps
everyone. -/
theorem filterEntriesByToolIntersection_eq_filter {entries : List DelegateEntry}
    {tools : List String} :
    ∃ keeps : DelegateEntry → Bool,
      filterEntriesByToolIntersection entries tools = entries.filter keeps ∧
      ∀ e, keeps e = true ↔
        ∀ t ∈ tools, (∃ id, Declares entries id t) → Declares entries e.id t := by
  have hexists : ∀ t, (!(buildToolToAgentsMap entries t).isEmpty) = true ↔
      ∃ id, Declares entries id t := by
    intro t
    simp only [← mem_buildToolToAgentsMap, Bool.not_eq_true', List.isEmpty_eq_false_iff,
      List.ne_nil_iff_exists_cons]
    constructor
    · rintro ⟨id, ids, hids⟩
      exact ⟨id, hids ▸ List.mem_cons_self⟩
    · rintro ⟨id, hid⟩
      exact List.ne_nil_iff_exists_cons.mp (List.ne_nil_of_mem hid)
  have hsets : ∀ id, (∀ set ∈ (tools.map (buildToolToAgentsMap entries)).filter
        (fun set => !set.isEmpty), id ∈ set) ↔
      ∀ t ∈ tools, (∃ id, Declares entries id t) → Declares entries id t := by
    intro id
    constructor
    · intro h t ht hsome
      refine mem_buildToolToAgentsMap.mp (h _ (List.mem_filter.mpr ⟨?_, (hexists t).mpr hsome⟩))
      exact List.mem_map_of_mem ht
    · intro h set hset
      obtain ⟨hmem, hsome⟩ := List.mem_filter.mp hset
      obtain ⟨t, ht, rfl⟩ := List.mem_map.mp hmem
      exact mem_buildToolToAgentsMap.mpr (h t ht ((hexists t).mp hsome))
  unfold filterEntriesByToolIntersection
  split
  · next hempty =>
      refine ⟨fun _ => true, (List.filter_eq_self.mpr fun _ _ => rfl).symm, fun e => ?_⟩
      rw [List.isEmpty_iff.mp hempty]
      simp
  · dsimp only
    split
    · next hnone =>
        refine ⟨fun _ => true, (List.filter_eq_self.mpr fun _ _ => rfl).symm, fun e => ?_⟩
        rw [← hsets, hnone]
        simp
    · next first rest hsome =>
        refine ⟨fun e => (intersection first rest).contains e.id, rfl, fun e => ?_⟩
        rw [← hsets, hsome, List.contains_iff_mem, mem_intersection, List.forall_mem_cons]

/-- What the prefilter keeps. -/
theorem prefilter_eq_filter (entries : List DelegateEntry) (required : List Capability) :
    ∃ keeps : DelegateEntry → Bool,
      prefilterEntriesForCapabilities entries required = entries.filter keeps ∧
      ∀ e, keeps e = true ↔ ∀ tools, toolNames required = some tools →
        ∀ t ∈ tools, (∃ id, Declares entries id t) → Declares entries e.id t := by
  obtain rfl | hsome := eq_or_ne required []
  · refine ⟨fun _ => true, (List.filter_eq_self.mpr fun _ _ => rfl).symm, fun e => ?_⟩
    simp [toolNames]
  · unfold prefilterEntriesForCapabilities
    rw [if_neg (by simpa using hsome)]
    cases htools : toolNames required with
    | none =>
        refine ⟨fun _ => true, (List.filter_eq_self.mpr fun _ _ => rfl).symm, fun e => ?_⟩
        simp
    | some tools =>
        dsimp only
        split
        · obtain ⟨keeps, hfilter, hkeeps⟩ :=
            @filterEntriesByToolIntersection_eq_filter entries tools
          refine ⟨keeps, hfilter, fun e => ?_⟩
          rw [hkeeps]
          simp
        · next hnone =>
            refine ⟨fun _ => true, (List.filter_eq_self.mpr fun _ _ => rfl).symm, fun e => ?_⟩
            have hempty : tools = [] := by simpa using hnone
            simp [hempty]

/-! ### When the prefilter changes nothing -/

/-- A filter in front of another one leaves a third exactly when they agree on what passes the
second. -/
theorem filter_filter_eq_iff {α : Type} {p q r : α → Bool} {as : List α} :
    (as.filter p).filter q = as.filter (fun a => q a && r a) ↔
      ∀ a ∈ as, q a = true → (p a = true ↔ r a = true) := by
  rw [List.filter_filter]
  constructor
  · intro hsame a ha hq
    have hmem := congrArg (a ∈ ·) hsame
    simpa [ha, hq] using hmem
  · intro h
    apply List.filter_congr
    intro a ha
    cases hq : q a with
    | false => rfl
    | true =>
        rw [Bool.true_and, Bool.true_and]
        exact Bool.eq_iff_iff.mpr (h a ha hq)

/-- For every list of agents and every list of required capabilities: the prefilter changes nothing
exactly when its sets tell apart the agents whose lists remove a required tool. -/
theorem prefilter_only_speeds_iff (entries : List DelegateEntry) (required : List Capability) :
    OnlySpeeds entries required ↔ ToldApart entries required := by
  obtain ⟨keeps, hfilter, hkeeps⟩ := prefilter_eq_filter entries required
  have hsame : (prefilterEntriesForCapabilities entries required).filter
        (fun e => agentEntrySatisfiesRequiredCaps e required) =
      entries.filter (fun e => agentEntrySatisfiesRequiredCaps e required &&
        keepsRequired required e) ↔ ToldApart entries required := by
    rw [hfilter, filter_filter_eq_iff]
    constructor
    · intro h
      refine ⟨fun tools htools e he hsat hkeep => ?_, fun e he hsat hdrop => ?_⟩
      · exact (hkeeps e).mp ((h e he hsat).mpr hkeep) tools htools
      · have hnot : ¬ keeps e = true := by
          rw [h e he hsat, hdrop]
          exact Bool.false_ne_true
        rw [hkeeps e] at hnot
        simpa only [not_forall, exists_prop] using hnot
    · intro h e he hsat
      constructor
      · intro hkept
        by_contra hdrop
        obtain ⟨tools, htools, t, ht, hsome, hmisses⟩ :=
          h.dropped e he hsat (Bool.eq_false_iff.mpr hdrop)
        exact hmisses ((hkeeps e).mp hkept tools htools t ht hsome)
      · intro hkeep
        refine (hkeeps e).mpr fun tools htools => ?_
        exact h.kept tools htools e he hsat hkeep
  constructor
  · intro h
    exact hsame.mp h.same
  · intro h
    have hfound := hsame.mpr h
    refine ⟨hfound, fun all hall herror e he hsat => ?_⟩
    have hnone : entries.filter (fun e => agentEntrySatisfiesRequiredCaps e required &&
        keepsRequired required e) = [] := by
      unfold findCandidates at herror
      dsimp only at herror
      rw [hall, hfound] at herror
      split at herror
      · next hempty => exact List.isEmpty_iff.mp hempty
      · cases herror
    have hpasses := List.filter_eq_nil_iff.mp hnone e he
    rw [hsat, Bool.true_and] at hpasses
    exact Bool.eq_false_iff.mpr hpasses

/-- An agent that has every tool, and another one that declares the tool by name and lacks a
second one. -/
def wildcardAgents : List DelegateEntry :=
  [{ id := 0, manifest := { name := "all", capabilities := { tools := ["*"] } } },
    { id := 1, manifest := { name := "reader", capabilities := { tools := ["file_read"] } } }]

/-- The agent with every tool is the only one that matches, and it is reported that none does. -/
theorem wildcard_agent_dropped : ¬ ∀ (entries : List DelegateEntry) (required : List Capability),
    OnlySpeeds entries required := by
  intro h
  have hreports := (h wildcardAgents [.toolInvoke "file_read", .toolInvoke "web_fetch"]).reports
    wildcardAgents (by decide +kernel) (by rfl)
    { id := 0, manifest := { name := "all", capabilities := { tools := ["*"] } } }
    List.mem_cons_self
  have hkept : ∀ tool, DelegateEntry.keepsTool
      { id := 0, manifest := { name := "all", capabilities := { tools := ["*"] } } } tool = true :=
    fun tool => rfl
  have hdropped := hreports (by decide)
  unfold keepsRequired at hdropped
  rw [List.all_eq_true.mpr fun tool _ => hkept tool] at hdropped
  cases hdropped

end ArmaraOS.Kernel.Agents
