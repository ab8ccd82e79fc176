import ArmaraOS.Agent.ToolGate
import ArmaraOS.Lib.StableSort
import ArmaraOS.Lib.Table

/-!
From an advertised MCP tool name to the request that a server receives (`mcp.rs`).

A server advertises `mcp_{server}_{tool}` with both parts normalised, and keeps the raw name under
the advertised one. The dispatch finds the server again by prefix, the longest raw server name
first. Since the separator may occur in both parts, the prefix of a server may also be the prefix
of what another server advertises; the call then goes astray, as it does where an advertised name
is the name of a tool of the runtime itself.

* `rawToolName_advertised` — an advertised name leads back to the raw name.
* `extract_eq_some_iff` — the prefix search finds a server exactly if no other one is in its way.
* `ends_with_mcpCall_iff` — what a call of an MCP tool sends, and to which server.
* `advertised_call_sent_iff` — when a call under an advertised name reaches the tool.
-/

namespace ArmaraOS.Agent

open ArmaraOS.Lib ArmaraOS.Text

/-! ### Servers and their tools -/

/-- A tool as a server lists it. -/
structure RawTool where
  name : String
  description : Option String
  inputSchema : Json

/-- A server with the tools it lists. -/
structure McpServer where
  name : String
  tools : List RawTool

namespace ToolEnv

variable (env : ToolEnv)

/-- `discover_tools`. -/
def discoverTools (server : McpServer) : McpConnection where
  name := server.name
  tools := server.tools.map fun tool =>
    { name := env.formatMcpToolName server.name tool.name
      description := "[MCP:" ++ server.name ++ "] " ++ tool.description.getD ""
      inputSchema := tool.inputSchema }
  originalNames := server.tools.map fun tool =>
    (env.formatMcpToolName server.name tool.name, tool.name)

/-- The names that a server advertises. -/
def advertisedNames (server : McpServer) : List String :=
  server.tools.map fun tool => env.formatMcpToolName server.name tool.name

/-- The surroundings with these servers connected. -/
def connected (servers : List McpServer) : ToolEnv :=
  { env with mcpConnections := some (servers.map env.discoverTools) }

/-- A call of `execute_tool_with_trajectory` ends with a request to a server for one of its
tools. -/
def Sends (servers : List McpServer) (toolUseId toolName : String) (input : Json)
    (request : McpRequest) : Prop :=
  ∃ earlier, ((env.connected servers).executeTool toolUseId toolName input).1 =
    earlier ++ [.mcpCall toolName request]

/-- The prefix of a server begins a tool name. -/
def claimsName (toolName server : String) : Bool :=
  startsWith toolName ("mcp_" ++ env.normalizeName server ++ "_")

/-- No other server takes the calls of an advertised name: those before its own have a shorter
name or another prefix, those behind it no longer name or another prefix. -/
def Unshadowed (front back : List McpServer) (server : McpServer) (toolName : String) : Prop :=
  (∀ s ∈ front, env.claimsName toolName s.name = true →
      s.name.utf8ByteSize < server.name.utf8ByteSize) ∧
    ∀ s ∈ back, env.claimsName toolName s.name = true →
      s.name.utf8ByteSize ≤ server.name.utf8ByteSize

/-! ### Advertised names -/

section Names

variable {env} {server tool : String}

theorem claimsName_format : env.claimsName (env.formatMcpToolName server tool) server = true := by
  simp [claimsName, startsWith, formatMcpToolName, List.append_assoc]

/-- No alias begins like the name of an MCP tool. -/
theorem normalizeToolName_of_isMcpTool {name : String} (h : isMcpTool name = true) :
    normalizeToolName name = name := by
  have hnone : mapToolName name = none := by
    by_contra hsome
    obtain ⟨target, htarget⟩ := Option.ne_none_iff_exists'.mp hsome
    obtain ⟨rest, hname⟩ := List.isPrefixOf_iff_prefix.mp h
    have hfalse : ∀ names : List String, (∀ n ∈ names, isMcpTool n = false) → name ∉ names :=
      fun names hnames hmem => by simp [hnames name hmem] at h
    simp only [mapToolName] at htarget
    repeat
      rw [if_neg (hfalse _ (by decide +kernel))] at htarget
    cases htarget
  simp [normalizeToolName, hnone]

theorem not_shell_of_isMcpTool {name : String} (h : isMcpTool name = true) :
    name ≠ "shell_exec" := by
  rintro rfl
  revert h
  decide +kernel

end Names

/-! ### The server that is found -/

section Dispatch

variable {env} {front back : List McpServer} {s : McpServer} {tool : RawTool} {input : Json}

/-- Servers with different normalised names have different names. -/
theorem names_nodup {servers : List McpServer}
    (h : (servers.map fun s => env.normalizeName s.name).Nodup) :
    (servers.map McpServer.name).Nodup := by
  have hnormalized : ((servers.map McpServer.name).map env.normalizeName).Nodup := by
    simpa [List.map_map, Function.comp_def] using h
  exact List.Nodup.of_map _ hnormalized

/-- The prefix search finds a server exactly if no other one is in its way. -/
theorem extract_eq_some_iff {toolName : String}
    (hnames : ((front ++ s :: back).map McpServer.name).Nodup)
    (hclaims : env.claimsName toolName s.name = true) (hmcp : isMcpTool toolName = true) :
    env.extractMcpServerFromKnown toolName ((front ++ s :: back).map McpServer.name) =
        some s.name ↔
      env.Unshadowed front back s toolName := by
  rw [extractMcpServerFromKnown, hmcp]
  rw [List.map_append, List.map_cons] at hnames ⊢
  change ((front.map McpServer.name ++ s.name :: back.map McpServer.name).mergeSort
    fun a b => decide (b.utf8ByteSize ≤ a.utf8ByteSize)).find? (env.claimsName toolName) =
      some s.name ↔ _
  rw [find?_mergeSort_iff (by simp; omega) (by simp; omega) hnames hclaims]
  simp [Unshadowed]

/-- The entry under a key that occurs once is found. -/
theorem lookup_of_mem {entries : List (String × String)} {key value : String}
    (hnodup : (entries.map Prod.fst).Nodup) (hmem : (key, value) ∈ entries) :
    entries.lookup key = some value := by
  obtain ⟨before, after, rfl⟩ := List.append_of_mem hmem
  refine List.lookup_eq_some_iff.mpr ⟨before, after, rfl, fun entry hentry => ?_⟩
  rw [List.map_append, List.map_cons] at hnodup
  have hne := (List.nodup_append.mp hnodup).2.2 entry.1 (List.mem_map_of_mem hentry) key (by simp)
  simpa using hne.symm

variable (env) in
/-- The advertised name of a tool leads back to its raw name. -/
theorem rawToolName_advertised (hadvertised : (env.advertisedNames s).Nodup)
    (htool : tool ∈ s.tools) :
    env.rawToolName (env.discoverTools s) (env.formatMcpToolName s.name tool.name) =
      tool.name := by
  have hkeys : (((env.discoverTools s).originalNames.reverse).map Prod.fst).Nodup := by
    rw [List.map_reverse, List.nodup_reverse]
    simpa [discoverTools, advertisedNames, List.map_map, Function.comp_def] using hadvertised
  have hmem : (env.formatMcpToolName s.name tool.name, tool.name) ∈
      (env.discoverTools s).originalNames.reverse := by
    rw [List.mem_reverse]
    exact List.mem_map_of_mem htool
  rw [rawToolName, lookup_of_mem hkeys hmem, Option.some_or, Option.getD_some]

/-- The definition that is found under an advertised name is the tool's. -/
theorem find?_discoverTools (hadvertised : (env.advertisedNames s).Nodup)
    (htool : tool ∈ s.tools) :
    ∃ d, (env.discoverTools s).tools.find?
        (fun d => d.name == env.formatMcpToolName s.name tool.name) = some d ∧
      d.inputSchema = tool.inputSchema := by
  have hdistinct : ((env.discoverTools s).tools.map ToolDefinition.name).Nodup := by
    simpa [discoverTools, advertisedNames, List.map_map, Function.comp_def] using hadvertised
  have hmem := List.mem_map_of_mem (f := fun tool : RawTool =>
    ({ name := env.formatMcpToolName s.name tool.name
       description := "[MCP:" ++ s.name ++ "] " ++ tool.description.getD ""
       inputSchema := tool.inputSchema } : ToolDefinition)) htool
  exact ⟨_, (Table.find_eq_some_iff (t := ⟨_, hdistinct⟩)).mpr ⟨hmem, rfl⟩, rfl⟩

/-- The connection of a server is found under the server's name. -/
theorem find?_connection {servers : List McpServer}
    (hnames : (servers.map McpServer.name).Nodup) (hs : s ∈ servers) :
    (servers.map env.discoverTools).find? (fun c => c.name == s.name) =
      some (env.discoverTools s) := by
  have hdistinct : ((servers.map env.discoverTools).map McpConnection.name).Nodup := by
    simpa [discoverTools, List.map_map, Function.comp_def] using hnames
  exact (Table.find_eq_some_iff (t := ⟨_, hdistinct⟩)).mpr ⟨List.mem_map_of_mem hs, rfl⟩

/-- The required arguments that are missing from a call of a tool of a server. -/
def missingArguments (env : ToolEnv) (s : McpServer) (toolName : String) (input : Json) :
    List String :=
  match (env.discoverTools s).tools.find? fun d => d.name == toolName with
  | some d => missingRequiredSchemaKeys d.inputSchema input
  | none => []

/-- The connection that is called, once the server is found. -/
theorem mcpTarget_of_extract {servers : List McpServer} {toolName : String}
    (hmcp : isMcpTool toolName = true) (hnames : (servers.map McpServer.name).Nodup)
    (hs : s ∈ servers)
    (hextract : env.extractMcpServerFromKnown toolName (servers.map McpServer.name) =
      some s.name) :
    (env.connected servers).mcpTarget toolName input =
      if (env.missingArguments s toolName input).isEmpty then .ok (env.discoverTools s)
      else .error (s!"MCP tool '{toolName}' missing required arguments: " ++
        join ", " (env.missingArguments s toolName input)) := by
  have hconnections : ((servers.map env.discoverTools).map fun c => c.name) =
      servers.map McpServer.name := by simp [discoverTools, Function.comp_def]
  have hextract' : (env.connected servers).extractMcpServerFromKnown toolName
      ((servers.map env.discoverTools).map fun c => c.name) = some s.name := by
    rw [hconnections]
    exact hextract
  have hconnected : (env.connected servers).mcpConnections =
      some (servers.map env.discoverTools) := rfl
  simp only [mcpTarget, hmcp, hconnected, hextract', find?_connection hnames hs, Bool.not_true,
    Bool.false_eq_true, ↓reduceIte]
  rfl

/-- The connection that is called is the one that the prefix search found. -/
theorem extract_of_mcpTarget {servers : List McpServer} {toolName : String} {conn : McpConnection}
    (h : (env.connected servers).mcpTarget toolName input = .ok conn) :
    env.extractMcpServerFromKnown toolName (servers.map McpServer.name) = some conn.name := by
  have hconnections : ((servers.map env.discoverTools).map fun c => c.name) =
      servers.map McpServer.name := by simp [discoverTools, Function.comp_def]
  have hconnected : (env.connected servers).mcpConnections =
      some (servers.map env.discoverTools) := rfl
  cases hmcp : isMcpTool toolName with
  | false => simp [mcpTarget, hmcp] at h
  | true =>
    simp only [mcpTarget, hmcp, hconnected, Bool.not_true, Bool.false_eq_true, ↓reduceIte] at h
    cases hfound : (env.connected servers).extractMcpServerFromKnown toolName
        ((servers.map env.discoverTools).map fun c => c.name) with
    | none =>
      rw [hfound] at h
      cases h
    | some found =>
      simp only [hfound] at h
      cases hconn : (servers.map env.discoverTools).find? fun c => c.name == found with
      | none =>
        rw [hconn] at h
        cases h
      | some conn' =>
        have hname : conn'.name = found := by simpa using List.find?_some hconn
        have hsame : conn' = conn := by
          simp only [hconn] at h
          split at h
          · split at h
            · exact Except.ok.inj h
            · cases h
          · exact Except.ok.inj h
        rw [← hsame, hname, ← hconnections]
        exact hfound

/-- Under an advertised name the server that advertised it is called, or another one, or none. -/
theorem mcpTarget_advertised_iff
    (hnames : ((front ++ s :: back).map McpServer.name).Nodup)
    (hadvertised : (env.advertisedNames s).Nodup) (htool : tool ∈ s.tools) :
    (∃ conn, (env.connected (front ++ s :: back)).mcpTarget
        (env.formatMcpToolName s.name tool.name) input = .ok conn ∧ conn.name = s.name) ↔
      env.Unshadowed front back s (env.formatMcpToolName s.name tool.name) ∧
        missingRequiredSchemaKeys tool.inputSchema input = [] := by
  obtain ⟨d, hd, hschema⟩ := find?_discoverTools hadvertised htool
  have hmissingArguments :
      env.missingArguments s (env.formatMcpToolName s.name tool.name) input =
        missingRequiredSchemaKeys tool.inputSchema input := by
    rw [missingArguments, hd, ← hschema]
  have htarget := fun hextract => @mcpTarget_of_extract env s input (front ++ s :: back)
    (env.formatMcpToolName s.name tool.name) (isMcpTool_format env) hnames (by simp) hextract
  rw [hmissingArguments] at htarget
  rw [← extract_eq_some_iff hnames claimsName_format (isMcpTool_format env)]
  constructor
  · rintro ⟨conn, hconn, hname⟩
    have hextract := extract_of_mcpTarget hconn
    rw [hname] at hextract
    refine ⟨hextract, ?_⟩
    rw [htarget hextract] at hconn
    split at hconn
    · next hmissing => simpa using hmissing
    · cases hconn
  · rintro ⟨hextract, hmissing⟩
    exact ⟨env.discoverTools s, by rw [htarget hextract, hmissing]; rfl, rfl⟩

/-- The events of a call that is allowed and approved, under the name of an MCP tool. -/
theorem executeTool_events_approved {toolUseId toolName : String}
    (hmcp : isMcpTool toolName = true) (hallowed : env.allows toolName = true)
    (happroved : (env.approvalGate toolName input).2 = none) :
    (env.executeTool toolUseId toolName input).1 =
      (env.approvalGate toolName input).1 ++ (env.dispatch toolName input).1 := by
  have hname := normalizeToolName_of_isMcpTool hmcp
  rw [executeTool_events_direct (by rw [hname, if_neg (not_shell_of_isMcpTool hmcp)]), hname,
    if_pos hallowed, gatedEvents]
  rcases hgate : env.approvalGate toolName input with ⟨asked, _ | content⟩
  · rfl
  · simp [hgate] at happroved

/-- A call of an MCP tool ends with a request exactly if no tool of the runtime bears the name and
the request is the one to the connection that is called. -/
theorem ends_with_mcpCall_iff {toolUseId toolName : String} {request : McpRequest}
    (hmcp : isMcpTool toolName = true) (hallowed : env.allows toolName = true)
    (happroved : (env.approvalGate toolName input).2 = none) :
    (∃ earlier, (env.executeTool toolUseId toolName input).1 =
        earlier ++ [.mcpCall toolName request]) ↔
      toolName ∉ builtinTools ∧ ∃ conn, env.mcpTarget toolName input = .ok conn ∧
        request = ⟨conn.name, env.rawToolName conn toolName, argumentsOf input⟩ := by
  rw [executeTool_events_approved hmcp hallowed happroved]
  have hasked : ∀ earlier, (env.approvalGate toolName input).1 ≠
      earlier ++ [.mcpCall toolName request] := by
    intro earlier hevents
    rcases approvalGate_cases env toolName input with
      ⟨-, ⟨hgate, -⟩ | hgate⟩ | ⟨-, answer, content, hgate⟩ <;> rw [hgate] at hevents
    · simp at hevents
    · obtain ⟨-, hlast⟩ := @List.append_inj' _ [] _ _ _ hevents rfl
      cases hlast
    · obtain ⟨-, hlast⟩ := @List.append_inj' _ [] _ _ _ hevents rfl
      cases hlast
  have hinner : env.innerArm toolName input = none := by
    have hother : ∀ other, isMcpTool other = false → toolName ≠ other := by
      rintro other hother rfl
      rw [hmcp] at hother
      cases hother
    unfold innerArm
    rw [if_neg (hother _ (by decide +kernel)), if_neg (hother _ (by decide +kernel)),
      if_neg (hother _ (by decide +kernel)), if_neg (hother _ (by decide +kernel)),
      if_neg (hother _ (by decide +kernel)), if_neg (hother _ (by decide +kernel)),
      if_neg (hother _ (by decide +kernel)), if_neg (hother _ (by decide +kernel))]
  by_cases hbuiltin : toolName ∈ builtinTools
  · refine iff_of_false ?_ fun h => h.1 hbuiltin
    rintro ⟨earlier, hevents⟩
    rw [dispatch, if_pos (by simpa using hbuiltin), hinner] at hevents
    dsimp only at hevents
    split at hevents
    · rw [List.append_nil] at hevents
      exact hasked earlier hevents
    · obtain ⟨-, hlast⟩ := List.append_inj' hevents rfl
      cases hlast
  · rw [dispatch, if_neg (by simpa using hbuiltin), if_pos hmcp]
    rcases dispatchMcpToolByName_events env toolName input with
      ⟨hnothing, hnone⟩ | ⟨conn, hconn, hcall⟩
    · refine iff_of_false ?_ fun ⟨_, conn, hconn, _⟩ => hnone ⟨conn, hconn⟩
      rintro ⟨earlier, hevents⟩
      dsimp only at hevents
      rw [hnothing, List.append_nil] at hevents
      exact hasked earlier hevents
    · dsimp only
      rw [hcall, hconn]
      constructor
      · rintro ⟨earlier, hevents⟩
        obtain ⟨-, hlast⟩ := List.append_inj' hevents rfl
        cases hlast
        exact ⟨hbuiltin, conn, rfl, rfl⟩
      · rintro ⟨-, conn', hsame, rfl⟩
        obtain rfl := Except.ok.inj hsame
        exact ⟨_, rfl⟩

end Dispatch

end ToolEnv

/-- **A call under an advertised name reaches the server that advertised it, with the raw name,
exactly if the name is none of the runtime's own, the required arguments are there, and no server
whose prefix begins the name comes before its own.** -/
theorem advertised_call_sent_iff (env : ToolEnv) {front back : List McpServer} {s : McpServer}
    {tool : RawTool} (toolUseId : String) (input : Json)
    (hnames : ((front ++ s :: back).map fun s => env.normalizeName s.name).Nodup)
    (hadvertised : ((front ++ s :: back).flatMap env.advertisedNames).Nodup)
    (htool : tool ∈ s.tools)
    (hallowed : (env.connected (front ++ s :: back)).allows
      (env.formatMcpToolName s.name tool.name) = true)
    (happroved : ((env.connected (front ++ s :: back)).approvalGate
      (env.formatMcpToolName s.name tool.name) input).2 = none) :
    env.Sends (front ++ s :: back) toolUseId (env.formatMcpToolName s.name tool.name) input
        ⟨s.name, tool.name, argumentsOf input⟩ ↔
      env.formatMcpToolName s.name tool.name ∉ builtinTools ∧
        ToolEnv.missingRequiredSchemaKeys tool.inputSchema input = [] ∧
        env.Unshadowed front back s (env.formatMcpToolName s.name tool.name) := by
  have hdistinct : (env.advertisedNames s).Nodup :=
    (List.nodup_flatMap.mp hadvertised).1 s (by simp)
  have hservers := ToolEnv.names_nodup hnames
  have htarget := @ToolEnv.mcpTarget_advertised_iff env front back s tool input hservers hdistinct
    htool
  unfold ToolEnv.Sends
  rw [ToolEnv.ends_with_mcpCall_iff (ToolEnv.isMcpTool_format env) hallowed happroved]
  refine and_congr_right fun _ => ?_
  rw [and_comm, ← htarget]
  constructor
  · rintro ⟨conn, hconn, hrequest⟩
    exact ⟨conn, hconn, (McpRequest.mk.inj hrequest).1.symm⟩
  · rintro ⟨conn, hconn, hname⟩
    refine ⟨conn, hconn, ?_⟩
    have hextract := ToolEnv.extract_of_mcpTarget hconn
    rw [hname] at hextract
    have hsame := ToolEnv.mcpTarget_of_extract (ToolEnv.isMcpTool_format env) hservers
      (by simp) hextract |>.symm.trans hconn
    split at hsame
    · obtain rfl := Except.ok.inj hsame
      exact congrArg (fun raw => (⟨s.name, raw, argumentsOf input⟩ : McpRequest))
        (ToolEnv.rawToolName_advertised env hdistinct htool).symm
    · cases hsame

/-! ### Two servers -/

/-- Surroundings in which every tool is allowed, and approved without being asked for. -/
def openEnv : ToolEnv where
  kernel := none
  execPolicy := none
  allowedTools := none
  callerAgentId := none
  mcpConnections := none
  skillRegistry := none
  workspace := none
  armRefusal _ _ := none
  handler _ _ := .error "no such handler"
  answer _ := .ok "done"
  executeSkillTool _ _ := .error "no such skill"
  ainlMcpSoftFailureMessage _ _ := none
  toLowercase name := name
  jsonText _ := "\x7b\x7d"
  jsonFromStr _ := none

theorem advertised_call_sent_files :
    openEnv.Sends [⟨"files", [⟨"read-file", none, .obj []⟩]⟩, ⟨"web", [⟨"get", none, .obj []⟩]⟩]
      "call_1" "mcp_files_read_file" (.obj [("path", .str "notes.md")])
      ⟨"files", "read-file", [("path", .str "notes.md")]⟩ := by
  have hname : openEnv.formatMcpToolName "files" "read-file" = "mcp_files_read_file" := by
    decide +kernel
  rw [← hname]
  refine (@advertised_call_sent_iff openEnv [] _ ⟨"files", [⟨"read-file", none, .obj []⟩]⟩
    ⟨"read-file", none, .obj []⟩ "call_1" _ (by decide +kernel) (by decide +kernel) (by simp)
    rfl rfl).mpr ⟨?_, rfl, ?_⟩
  · rw [hname]
    decide +kernel
  · refine ⟨fun s hs => absurd hs List.not_mem_nil, fun s hs hclaims => ?_⟩
    obtain rfl := List.mem_singleton.mp hs
    revert hclaims
    decide +kernel

/-- Server `a` advertises its tool `b_x`, and the call goes to server `a_b`. -/
theorem advertised_call_goes_astray :
    ¬ ∀ (env : ToolEnv) (servers : List McpServer) (s : McpServer) (tool : RawTool)
        (toolUseId : String) (input : Json),
      (servers.map fun s => env.normalizeName s.name).Nodup →
        (servers.flatMap env.advertisedNames).Nodup → s ∈ servers → tool ∈ s.tools →
        (env.connected servers).allows (env.formatMcpToolName s.name tool.name) = true →
        ((env.connected servers).approvalGate
          (env.formatMcpToolName s.name tool.name) input).2 = none →
        env.Sends servers toolUseId (env.formatMcpToolName s.name tool.name) input
          ⟨s.name, tool.name, argumentsOf input⟩ := by
  intro hall
  have hsends := hall openEnv
    [⟨"a", [⟨"b_x", none, .obj []⟩]⟩, ⟨"a_b", [⟨"y", none, .obj []⟩]⟩]
    ⟨"a", [⟨"b_x", none, .obj []⟩]⟩ ⟨"b_x", none, .obj []⟩ "call_1" (.obj [])
    (by decide +kernel) (by decide +kernel) (by simp) (by simp) rfl rfl
  obtain ⟨-, conn, hconn, hrequest⟩ := (ToolEnv.ends_with_mcpCall_iff
    (ToolEnv.isMcpTool_format openEnv) rfl rfl).mp hsends
  have hunshadowed := ((@ToolEnv.mcpTarget_advertised_iff openEnv []
    [⟨"a_b", [⟨"y", none, .obj []⟩]⟩] ⟨"a", [⟨"b_x", none, .obj []⟩]⟩ ⟨"b_x", none, .obj []⟩
    (.obj []) (by decide +kernel) (by decide +kernel) (by simp)).mp
      ⟨conn, hconn, (McpRequest.mk.inj hrequest).1.symm⟩).1
  have hshorter := hunshadowed.2 ⟨"a_b", [⟨"y", none, .obj []⟩]⟩ (by simp) (by decide +kernel)
  revert hshorter
  decide +kernel

end ArmaraOS.Agent
