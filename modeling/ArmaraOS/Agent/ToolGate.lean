import ArmaraOS.Agent.ToolHandlers

/-!
From a tool call to the action it performs (`execute_tool_with_trajectory` of `tool_runner.rs`).

Every name passes the list of allowed tools, and every name but one kind passes the approval
gate: a `shell_exec` whose command is the name of an MCP tool is sent to that tool ahead of the
gate, which is asked neither for the shell nor for the tool. Behind the gate, a tool that runs
another one asks for itself only.

* `approvalGate_cases` — what the gate asks, and when it lets a call pass.
* `dispatch_cases` — the dispatch performs the action of the tool that is called, and of the one
  that this runs.
* `executeTool_allSanctioned_iff` — every action is sanctioned, except behind a reroute to a tool
  that needs an approval, and in a tool that runs one that is not allowed or needs an approval.
-/

namespace ArmaraOS.Agent

open ArmaraOS.Text

/-! ### The gate and the dispatch -/

/-- What an arm of the dispatch does: its own checks refuse the call, or its handler runs. -/
inductive ArmOutcome where
  | refused (content : String)
  | ran (result : Except String String)

namespace ToolEnv

variable (env : ToolEnv)

/-- The policy that grants unrestricted shell access. -/
def unrestrictedShell : Bool :=
  match env.execPolicy with
  | some p => p.mode == .full || (p.mode == .allowlist && p.allowedCommands.contains "*")
  | none => false

/-- What the approver is shown of a call. -/
def approvalSummary (toolName : String) (input : Json) : String :=
  s!"{toolName}: {truncateStr (env.jsonText input) 200}"

/-- The approval gate: the events, and the content of the refusal. -/
def approvalGate (toolName : String) (input : Json) : List ToolEvent × Option String :=
  let execPolicyBypassesApproval := toolName == "shell_exec" && env.unrestrictedShell
  match env.kernel with
  | none => ([], none)
  | some kh =>
      if !execPolicyBypassesApproval && kh.requiresApproval toolName then
        let agentId := env.callerAgentId.getD "unknown"
        match kh.requestApproval agentId toolName (env.approvalSummary toolName input) with
        | .ok true => ([.approval toolName (.ok true)], none)
        | .ok false =>
            ([.approval toolName (.ok false)],
              some (s!"Execution denied: '{toolName}' requires human approval and was denied " ++
                "or timed out. The operation was not performed."))
        | .error e =>
            ([.approval toolName (.error e)], some s!"Approval system error: {e}")
      else ([], none)

/-- The dispatch: the events, and what it comes to. -/
def dispatch (toolName : String) (input : Json) : List ToolEvent × ArmOutcome :=
  if builtinTools.contains toolName then
    match env.innerArm toolName input with
    | some (events, result) => (.builtin toolName :: events, .ran result)
    | none =>
        match env.armRefusal toolName input with
        | some content => ([], .refused content)
        | none => ([.builtin toolName], .ran (env.handler toolName input))
  else if isMcpTool toolName then
    match env.dispatchMcpToolByName toolName input with
    | (events, result) => (events, .ran result)
  else
    match env.skillRegistry with
    | some provided =>
        if provided.contains toolName then
          ([.skill toolName], .ran (env.executeSkillTool toolName input))
        else ([], .ran (.error s!"Unknown tool: {toolName}"))
    | none => ([], .ran (.error s!"Unknown tool: {toolName}"))

/-- The result behind the dispatch. -/
def finish (toolUseId toolName : String) : ArmOutcome → ToolResult
  | .refused content => ⟨toolUseId, content, true⟩
  | .ran (.error err) => ⟨toolUseId, s!"Error: {err}", true⟩
  | .ran (.ok content) =>
      match env.ainlMcpSoftFailureMessage toolName content with
      | some errMsg => ⟨toolUseId, errMsg, true⟩
      | none => ⟨toolUseId, content, false⟩

/-- A tool is allowed. -/
def allows (toolName : String) : Bool :=
  match env.allowedTools with
  | some allowed => allowed.contains toolName
  | none => true

/-- `execute_tool_with_trajectory`: the events, and the result. -/
def executeTool (toolUseId toolName : String) (input : Json) : List ToolEvent × ToolResult :=
  let name := normalizeToolName toolName
  match if name = "shell_exec" then directMcpToolFromShellCommand input else none with
  | some mcpToolName =>
      if !env.allows mcpToolName then ([], ⟨toolUseId, permissionDenied mcpToolName, true⟩)
      else
        match env.dispatchMcpToolByName mcpToolName (.obj []) with
        | (events, .ok content) => (events, ⟨toolUseId, content, false⟩)
        | (events, .error err) => (events, ⟨toolUseId, s!"Error: {err}", true⟩)
  | none =>
      if !env.allows name then ([], ⟨toolUseId, permissionDenied name, true⟩)
      else
        match env.approvalGate name input with
        | (asked, some content) => (asked, ⟨toolUseId, content, true⟩)
        | (asked, none) =>
            match env.dispatch name input with
            | (done, outcome) => (asked ++ done, env.finish toolUseId name outcome)

/-! ### Sanctioned actions -/

/-- The action of a tool is sanctioned behind some events: the tool is allowed, and the kernel
requires no approval for it, or one was granted, or it is the shell under a policy that grants
unrestricted access. -/
def Sanctioned (earlier : List ToolEvent) (tool : String) : Prop :=
  (∀ allowed, env.allowedTools = some allowed → tool ∈ allowed) ∧
    ((∀ kh, env.kernel = some kh → kh.requiresApproval tool = false) ∨
      .approval tool (.ok true) ∈ earlier ∨ (tool = "shell_exec" ∧ env.unrestrictedShell = true))

/-- Every action among the events of a call is sanctioned behind those before it. -/
def AllSanctioned (events : List ToolEvent) : Prop :=
  ∀ earlier event later tool, events = earlier ++ event :: later → event.performed? = some tool →
    env.Sanctioned earlier tool

/-- A `shell_exec` of the name of an MCP tool reaches the server of the tool, and the kernel
requires an approval for the tool. -/
def RerouteNeedsApproval (toolName : String) (input : Json) : Prop :=
  normalizeToolName toolName = "shell_exec" ∧
    ∃ tool, directMcpToolFromShellCommand input = some tool ∧ env.allows tool = true ∧
      (∃ conn, env.mcpTarget tool (.obj []) = .ok conn) ∧
      ∃ kh, env.kernel = some kh ∧ kh.requiresApproval tool = true

/-- The gate lets a call pass: the kernel requires no approval for the tool, or grants one, or the
tool is the shell under a policy that grants unrestricted access. -/
def Passes (toolName : String) (input : Json) : Prop :=
  ∀ kh, env.kernel = some kh → kh.requiresApproval toolName = true →
    kh.requestApproval (env.callerAgentId.getD "unknown") toolName
        (env.approvalSummary toolName input) = .ok true ∨
      (toolName = "shell_exec" ∧ env.unrestrictedShell = true)

/-- A tool that is allowed, and for which the kernel requires no approval. -/
def Free (tool : String) : Prop :=
  env.allows tool = true ∧ ∀ kh, env.kernel = some kh → kh.requiresApproval tool = false

/-- A call that is allowed and passes the gate runs another tool besides its own, and that one is
not allowed or needs an approval. -/
def RunsUnapproved (toolName : String) (input : Json) : Prop :=
  env.allows (normalizeToolName toolName) = true ∧ env.Passes (normalizeToolName toolName) input ∧
    ∃ inner, env.InnerTool (normalizeToolName toolName) input inner ∧ ¬ env.Free inner

variable {env}

theorem mem_of_allows {tool : String} (h : env.allows tool = true) :
    ∀ allowed, env.allowedTools = some allowed → tool ∈ allowed := by
  intro allowed hallowed
  simpa [allows, hallowed] using h

variable (env) in
/-- The dispatch performs at most the action of the tool it is called for, and behind it that of
the tool which this one runs. -/
theorem dispatch_cases (name : String) (input : Json) :
    ((¬ ∃ inner, env.InnerTool name input inner) ∧ ((env.dispatch name input).1 = [] ∨
        ∃ event, (env.dispatch name input).1 = [event] ∧ event.performed? = some name)) ∨
      ∃ event inner, (env.dispatch name input).1 = [.builtin name, event] ∧
        event.performed? = some inner ∧ env.InnerTool name input inner ∧
          ∀ other, env.InnerTool name input other → other = inner := by
  unfold dispatch
  split
  · rcases innerArm_cases env input name with
      ⟨harm, hnone⟩ | ⟨events, result, harm, ⟨rfl, hnone⟩ | ⟨event, inner, rfl, hinner⟩⟩
    · refine .inl ⟨hnone, ?_⟩
      rw [harm]
      dsimp only
      split
      · exact .inl rfl
      · exact .inr ⟨_, rfl, rfl⟩
    · rw [harm]
      exact .inl ⟨hnone, .inr ⟨_, rfl, rfl⟩⟩
    · rw [harm]
      exact .inr ⟨event, inner, rfl, hinner⟩
  · rename_i hother
    have hnone : ¬ ∃ inner, env.InnerTool name input inner :=
      fun ⟨inner, h⟩ => hother (by simpa using h.names.1)
    refine .inl ⟨hnone, ?_⟩
    split
    · rcases dispatchMcpToolByName_events env name input with ⟨hnothing, -⟩ | ⟨conn, -, hcall⟩
      · exact .inl hnothing
      · exact .inr ⟨_, hcall, rfl⟩
    · split
      · split
        · exact .inr ⟨_, rfl, rfl⟩
        · exact .inl rfl
      · exact .inl rfl

variable (env) in
/-- The gate lets a tool pass that needs no approval, asks for one, or asks and refuses. -/
theorem approvalGate_cases (name : String) (input : Json) :
    (env.Passes name input ∧ ((env.approvalGate name input = ([], none) ∧
        ((∀ kh, env.kernel = some kh → kh.requiresApproval name = false) ∨
          name = "shell_exec" ∧ env.unrestrictedShell = true)) ∨
      env.approvalGate name input = ([.approval name (.ok true)], none))) ∨
    (¬ env.Passes name input ∧ ∃ answer content,
      env.approvalGate name input = ([.approval name answer], some content)) := by
  unfold approvalGate Passes
  cases env.kernel with
  | none => exact .inl ⟨nofun, .inl ⟨rfl, .inl nofun⟩⟩
  | some kh =>
      by_cases hbypass : name = "shell_exec" ∧ env.unrestrictedShell = true
      · exact .inl ⟨fun _ _ _ => .inr hbypass, .inl ⟨by simp [hbypass], .inr hbypass⟩⟩
      · have hasks : (name == "shell_exec" && env.unrestrictedShell) = false := by
          rw [Bool.eq_false_iff]
          simpa using hbypass
        cases hrequires : kh.requiresApproval name with
        | false =>
            refine .inl ⟨fun kh' hkh' h => ?_, .inl ⟨by simp [hrequires], .inl fun kh' hkh' => ?_⟩⟩
            · rw [← Option.some.inj hkh', hrequires] at h
              cases h
            · rw [← Option.some.inj hkh', hrequires]
        | true =>
            simp only [hasks, hrequires, hbypass, or_false, Option.some.injEq, forall_eq',
              Bool.not_false, Bool.true_and, ↓reduceIte, forall_const]
            rcases kh.requestApproval _ name _ with e | granted
            · exact .inr ⟨nofun, _, _, rfl⟩
            · cases granted with
              | true => exact .inl ⟨rfl, .inr rfl⟩
              | false => exact .inr ⟨nofun, _, _, rfl⟩

/-- One more event is sanctioned by those before it. -/
theorem allSanctioned_concat_iff {events : List ToolEvent} {event : ToolEvent} :
    env.AllSanctioned (events ++ [event]) ↔ env.AllSanctioned events ∧
      ∀ tool, event.performed? = some tool → env.Sanctioned events tool := by
  constructor
  · intro h
    refine ⟨fun earlier e later tool hevents => ?_, fun tool => h events event [] tool rfl⟩
    exact h earlier e (later ++ [event]) tool (by simp [hevents])
  · rintro ⟨hevents, hlast⟩ earlier e later tool hsplit hperformed
    rcases List.eq_nil_or_concat later with rfl | ⟨later, last, rfl⟩
    · obtain ⟨rfl, hsame⟩ := List.append_inj' hsplit rfl
      obtain rfl := List.singleton_inj.mp hsame
      exact hlast tool hperformed
    · rw [List.concat_eq_append, ← List.cons_append, ← List.append_assoc] at hsplit
      obtain ⟨rfl, -⟩ := List.append_inj' hsplit rfl
      exact hevents earlier e later tool rfl hperformed

theorem allSanctioned_nil : env.AllSanctioned [] :=
  fun _ _ _ _ hevents _ => absurd hevents (by simp)

/-- An action that no approval was granted for is sanctioned if its tool is free. -/
theorem sanctioned_iff_free {earlier : List ToolEvent} {tool : String}
    (hasked : ToolEvent.approval tool (.ok true) ∉ earlier) (hshell : tool ≠ "shell_exec") :
    env.Sanctioned earlier tool ↔ env.Free tool := by
  have hlist : (∀ allowed, env.allowedTools = some allowed → tool ∈ allowed) ↔
      env.allows tool = true := by
    unfold allows
    cases env.allowedTools <;> simp
  rw [Sanctioned, Free, hlist]
  simp [hasked, hshell]

variable (env) in
/-- The events of a call behind the list of allowed tools: those of the gate, and those of the
dispatch if the gate lets the call pass. -/
def gatedEvents (name : String) (input : Json) : List ToolEvent :=
  match env.approvalGate name input with
  | (asked, some _) => asked
  | (asked, none) => asked ++ (env.dispatch name input).1

/-- Behind the gate, the actions of an allowed tool are sanctioned unless it runs another one that
is not free. -/
theorem allSanctioned_gatedEvents_iff {name : String} (hallows : env.allows name = true)
    (input : Json) : env.AllSanctioned (env.gatedEvents name input) ↔
      ¬ (env.Passes name input ∧ ∃ inner, env.InnerTool name input inner ∧ ¬ env.Free inner) := by
  have hone : ∀ asked : List ToolEvent, env.AllSanctioned asked → env.Sanctioned asked name →
      (∀ tool, tool ≠ name → ToolEvent.approval tool (.ok true) ∉ asked) →
        (env.AllSanctioned (asked ++ (env.dispatch name input).1) ↔
          ¬ ∃ inner, env.InnerTool name input inner ∧ ¬ env.Free inner) := by
    intro asked hasked hname hothers
    rcases dispatch_cases env name input with
      ⟨hnone, hnothing | ⟨event, hevent, hperformed⟩⟩ | ⟨event, inner, hevents, hperformed, hinner,
        hunique⟩
    · rw [hnothing, List.append_nil]
      exact iff_of_true hasked fun ⟨inner, h, _⟩ => hnone ⟨inner, h⟩
    · rw [hevent, allSanctioned_concat_iff, hperformed]
      refine iff_of_true ⟨hasked, fun tool htool => ?_⟩ fun ⟨inner, h, _⟩ => hnone ⟨inner, h⟩
      exact Option.some.inj htool ▸ hname
    · obtain ⟨-, -, hne, hshell⟩ := hinner.names
      have hgranted : ToolEvent.approval inner (.ok true) ∉ asked ++ [.builtin name] := by
        simpa using hothers inner hne
      have hsplit : asked ++ [.builtin name, event] = (asked ++ [.builtin name]) ++ [event] := by
        simp
      have houter : env.AllSanctioned (asked ++ [.builtin name]) :=
        allSanctioned_concat_iff.mpr ⟨hasked, fun tool htool => Option.some.inj htool ▸ hname⟩
      rw [hevents, hsplit, allSanctioned_concat_iff, hperformed]
      constructor
      · rintro ⟨-, hlast⟩ ⟨other, hother, hbound⟩
        rw [hunique other hother] at hbound
        exact hbound ((sanctioned_iff_free hgranted hshell).mp (hlast inner rfl))
      · intro hfree
        refine ⟨houter, fun tool htool => ?_⟩
        obtain rfl := Option.some.inj htool
        rw [sanctioned_iff_free hgranted hshell]
        by_contra hbound
        exact hfree ⟨_, hinner, hbound⟩
  have hlist := mem_of_allows hallows
  rcases approvalGate_cases env name input with
    ⟨hpasses, ⟨hgate, hfree⟩ | hgate⟩ | ⟨hstopped, answer, content, hgate⟩
  · rw [gatedEvents, hgate]
    have hname : env.Sanctioned [] name := by
      refine ⟨hlist, ?_⟩
      rcases hfree with hfree | hshell
      · exact .inl hfree
      · exact .inr (.inr hshell)
    simpa [hpasses] using hone [] allSanctioned_nil hname (by simp)
  · rw [gatedEvents, hgate]
    have hasked : env.AllSanctioned [.approval name (.ok true)] :=
      allSanctioned_concat_iff.mpr ⟨allSanctioned_nil, fun _ h => by cases h⟩
    simpa [hpasses] using hone _ hasked ⟨hlist, .inr (.inl List.mem_cons_self)⟩ (by simp)
  · rw [gatedEvents, hgate]
    refine iff_of_true ?_ fun h => hstopped h.1
    exact allSanctioned_concat_iff.mpr ⟨allSanctioned_nil, fun _ h => by cases h⟩

/-- The events of a call that is not rerouted. -/
theorem executeTool_events_direct {toolUseId toolName : String} {input : Json}
    (hdirect : (if normalizeToolName toolName = "shell_exec" then
      directMcpToolFromShellCommand input else none) = none) :
    (env.executeTool toolUseId toolName input).1 =
      if env.allows (normalizeToolName toolName) then
        env.gatedEvents (normalizeToolName toolName) input
      else [] := by
  simp only [executeTool, hdirect, gatedEvents]
  cases env.allows (normalizeToolName toolName) with
  | false => rfl
  | true =>
      rcases env.approvalGate (normalizeToolName toolName) input with ⟨asked, _ | content⟩ <;> rfl

/-- The events of a call that is rerouted. -/
theorem executeTool_events_rerouted {toolUseId toolName mcpToolName : String} {input : Json}
    (hrerouted : (if normalizeToolName toolName = "shell_exec" then
      directMcpToolFromShellCommand input else none) = some mcpToolName) :
    (env.executeTool toolUseId toolName input).1 =
      if env.allows mcpToolName then (env.dispatchMcpToolByName mcpToolName (.obj [])).1
      else [] := by
  simp only [executeTool, hrerouted]
  cases env.allows mcpToolName with
  | false => rfl
  | true =>
      rcases env.dispatchMcpToolByName mcpToolName (.obj []) with ⟨events, _ | content⟩ <;> rfl

/-- One MCP call, with nothing before it, is sanctioned if the tool is allowed and needs no
approval. -/
theorem allSanctioned_mcpCall_iff {tool : String} {request : McpRequest}
    (hallows : env.allows tool = true) (hshell : tool ≠ "shell_exec") :
    env.AllSanctioned [.mcpCall tool request] ↔
      ¬ ∃ kh, env.kernel = some kh ∧ kh.requiresApproval tool = true := by
  have hone := @allSanctioned_concat_iff env [] (.mcpCall tool request)
  rw [List.nil_append] at hone
  rw [hone]
  simp [allSanctioned_nil, ToolEvent.performed?, sanctioned_iff_free, hshell, Free, hallows]

theorem isMcpTool_of_direct {input : Json} {tool : String}
    (h : directMcpToolFromShellCommand input = some tool) : isMcpTool tool = true := by
  unfold directMcpToolFromShellCommand at h
  split at h
  · cases h
  · dsimp only at h
    split at h
    · next hcandidate => exact Option.some.inj h ▸ hcandidate.2
    · cases h

end ToolEnv

/-- **No tool runs around its approval, except where a `shell_exec` is rerouted to an MCP tool that
needs one, and where a tool runs another one that is not allowed or needs one.** -/
theorem executeTool_allSanctioned_iff (env : ToolEnv) (toolUseId toolName : String)
    (input : Json) :
    env.AllSanctioned (env.executeTool toolUseId toolName input).1 ↔
      ¬ env.RerouteNeedsApproval toolName input ∧ ¬ env.RunsUnapproved toolName input := by
  cases hroute : (if normalizeToolName toolName = "shell_exec" then
      directMcpToolFromShellCommand input else none) with
  | none =>
      -- Not rerouted: the gate is asked.
      have hnot : ¬ env.RerouteNeedsApproval toolName input := by
        rintro ⟨hshell, tool, hdirect, -⟩
        rw [if_pos hshell, hdirect] at hroute
        cases hroute
      rw [ToolEnv.executeTool_events_direct hroute, ToolEnv.RunsUnapproved]
      split
      · next hallows =>
          rw [ToolEnv.allSanctioned_gatedEvents_iff hallows]
          simp [hnot, hallows]
      · next hallows => exact iff_of_true ToolEnv.allSanctioned_nil ⟨hnot, fun h => hallows h.1⟩
  | some tool =>
      have hshell : normalizeToolName toolName = "shell_exec" := by
        by_contra hother
        rw [if_neg hother] at hroute
        cases hroute
      have hdirect : directMcpToolFromShellCommand input = some tool := by
        rwa [if_pos hshell] at hroute
      have hne : tool ≠ "shell_exec" := by
        rintro rfl
        exact absurd (ToolEnv.isMcpTool_of_direct hdirect) (by decide)
      have hinner : ¬ env.RunsUnapproved toolName input := by
        rintro ⟨-, -, inner, hinner, -⟩
        exact hinner.names.2.1 hshell
      have hneeds : env.RerouteNeedsApproval toolName input ↔ env.allows tool = true ∧
          (∃ conn, env.mcpTarget tool (.obj []) = .ok conn) ∧
            ∃ kh, env.kernel = some kh ∧ kh.requiresApproval tool = true := by
        simp [ToolEnv.RerouteNeedsApproval, hshell, hdirect]
      rw [ToolEnv.executeTool_events_rerouted hroute, and_iff_left hinner, hneeds]
      by_cases hallows : env.allows tool = true
      · rw [if_pos hallows]
        rcases ToolEnv.dispatchMcpToolByName_events env tool (.obj []) with
          ⟨hnone, hunreached⟩ | ⟨conn, hreached, hcall⟩
        · rw [hnone]
          exact iff_of_true ToolEnv.allSanctioned_nil fun h => hunreached h.2.1
        · rw [hcall, ToolEnv.allSanctioned_mcpCall_iff hallows hne]
          simp [hallows, hreached]
      · rw [if_neg hallows]
        exact iff_of_true ToolEnv.allSanctioned_nil fun h => hallows h.1

/-! ### A rerouted call -/

/-- A kernel that requires an approval for deleting files and grants none, and the server of the
tool that deletes. -/
def deletingEnv : ToolEnv where
  kernel := some ⟨fun tool => tool == "mcp_files_delete", fun _ _ _ => .ok false⟩
  execPolicy := none
  allowedTools := some ["mcp_files_delete"]
  callerAgentId := none
  mcpConnections := some
    [⟨"files", [⟨"mcp_files_delete", "", .obj []⟩], [("mcp_files_delete", "delete")]⟩]
  skillRegistry := none
  workspace := none
  armRefusal _ _ := none
  handler _ _ := .error "no such handler"
  answer _ := .ok "deleted"
  executeSkillTool _ _ := .error "no such skill"
  ainlMcpSoftFailureMessage _ _ := none
  toLowercase name := name
  jsonText _ := "\x7b\x7d"
  jsonFromStr _ := none

theorem rerouted_call_unapproved :
    ¬ ∀ (env : ToolEnv) (toolUseId toolName : String) (input : Json),
      env.AllSanctioned (env.executeTool toolUseId toolName input).1 := by
  intro hall
  have hsanctioned := hall deletingEnv "call_1" "shell_exec"
    (.obj [("command", .str "mcp_files_delete")])
  have hdirect : (if normalizeToolName "shell_exec" = "shell_exec" then
      directMcpToolFromShellCommand (.obj [("command", .str "mcp_files_delete")]) else none) =
        some "mcp_files_delete" := by decide +kernel
  have hallows : deletingEnv.allows "mcp_files_delete" = true := by decide +kernel
  have hserver : deletingEnv.extractMcpServerFromKnown "mcp_files_delete" ["files"] =
      some "files" := by
    rw [ToolEnv.extractMcpServerFromKnown, List.mergeSort_singleton]
    decide +kernel
  have htarget : ∃ conn, deletingEnv.mcpTarget "mcp_files_delete" (.obj []) = .ok conn := by
    have hmcp : isMcpTool "mcp_files_delete" = true := by decide +kernel
    have hconns : deletingEnv.mcpConnections = some
        [⟨"files", [⟨"mcp_files_delete", "", .obj []⟩], [("mcp_files_delete", "delete")]⟩] := rfl
    refine ⟨⟨"files", [⟨"mcp_files_delete", "", .obj []⟩], [("mcp_files_delete", "delete")]⟩, ?_⟩
    rw [ToolEnv.mcpTarget, hmcp, hconns]
    dsimp only [List.map]
    rw [hserver]
    rfl
  rw [ToolEnv.executeTool_events_rerouted hdirect, if_pos hallows] at hsanctioned
  rcases ToolEnv.dispatchMcpToolByName_events deletingEnv "mcp_files_delete" (.obj []) with
    ⟨-, hnone⟩ | ⟨conn, -, hcall⟩
  · exact hnone htarget
  · rw [hcall] at hsanctioned
    have hgone := (ToolEnv.allSanctioned_mcpCall_iff hallows (by decide)).mp hsanctioned
    exact hgone ⟨_, rfl, beq_self_eq_true _⟩

end ArmaraOS.Agent
