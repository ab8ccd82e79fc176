import ArmaraOS.Agent.ToolNames
import ArmaraOS.Runtime.ShellExec

/-!
What the arms of the dispatch run (`tool_runner.rs`, and `call_tool` of `mcp.rs`).

A tool of an MCP server is called through the connection of the server, under the raw name that the
server gave the tool. Eight arms run another tool than the one that they are called for: five send
a request to an email server, one runs a script, one schedules an action, and one cancels a job.

* `dispatchMcpToolByName_events` — a call of an MCP tool is one request to the server that is
  found, or nothing.
* `innerArm_cases` — an arm that runs another tool runs the one that `InnerTool` says, behind
  itself, or no other.
-/

namespace ArmaraOS.Agent

open ArmaraOS.Json (insertEntry)
open ArmaraOS.Runtime (ExecPolicy)
open ArmaraOS.Text

/-! ### What a call meets -/

/-- `KernelHandle`, its part in approvals. -/
structure ApprovalHandle where
  requiresApproval : String → Bool
  requestApproval (agentId toolName summary : String) : Except String Bool

/-- `McpConnection`: the name of its server, the definitions, and the raw name behind each
advertised one, in the order of the insertions. -/
structure McpConnection where
  name : String
  tools : List ToolDefinition
  originalNames : List (String × String)

/-- `CallToolRequestParams`, with the server that receives it. -/
structure McpRequest where
  server : String
  tool : String
  arguments : List (String × Json)

/-- `WorkspaceAction`, what running it reads. -/
structure WorkspaceAction where
  script : String
  args : List String
  env : List (String × String)
  cwd : Option String
  language : Option String
  mode : Option String
  timeoutSeconds : Option Nat
  healthCheck : Option Json

/-- A workspace: the actions of its contract, if that loads, and the path of the contract. -/
structure Workspace where
  contract : Except String (List (String × WorkspaceAction))
  contractPath : String

/-- The arguments of `execute_tool_with_trajectory` that are not the call itself, the handlers that
run no other tool, and the functions of the standard library and of `serde_json` that it uses. -/
structure ToolEnv where
  kernel : Option ApprovalHandle
  execPolicy : Option ExecPolicy
  allowedTools : Option (List String)
  callerAgentId : Option String
  mcpConnections : Option (List McpConnection)
  /-- The tools that the enabled skills of the registry provide. -/
  skillRegistry : Option (List String)
  workspace : Option Workspace
  /-- The checks of an arm ahead of its handler. -/
  armRefusal : String → Json → Option String
  handler : String → Json → Except String String
  /-- The client's `call_tool`, with the text of the answer. -/
  answer : McpRequest → Except String String
  executeSkillTool : String → Json → Except String String
  ainlMcpSoftFailureMessage : String → String → Option String
  toLowercase : String → String
  jsonText : Json → String
  jsonFromStr : String → Option Json

/-- The names that have an arm of their own in the dispatch. -/
def builtinTools : List String :=
  ["file_read", "file_write", "file_list", "apply_patch", "document_extract",
    "spreadsheet_build", "github_subtree_download", "web_fetch", "web_search", "shell_exec",
    "agent_send", "agent_spawn", "agent_delegate", "agent_map_reduce", "agent_supervise",
    "agent_coordinate", "agent_list", "agent_kill", "memory_store", "memory_recall",
    "memory_list", "agent_find", "agent_find_capabilities", "agent_pool_list",
    "agent_pool_spawn", "task_post", "task_claim", "orchestration_shared_merge",
    "task_complete", "task_list", "event_publish", "schedule_create", "schedule_action_create",
    "schedule_list", "schedule_delete", "channels_list", "knowledge_add_entity",
    "knowledge_add_relation", "knowledge_query", "image_analyze", "media_describe",
    "media_transcribe", "image_generate", "text_to_speech", "speech_to_text", "docker_exec",
    "location_get", "system_time", "cron_create", "cron_list", "cron_cancel", "channel_send",
    "channel_stream", "process_start", "process_poll", "process_write", "process_kill",
    "process_list", "workspace_actions_list", "workspace_action_set",
    "workspace_action_delete", "workspace_action", "script_run", "script_detect", "hand_list",
    "hand_activate", "hand_status", "hand_deactivate", "a2a_discover", "a2a_send",
    "hermes_a2a_status", "a2a_discover_hermes", "a2a_send_hermes", "browser_navigate",
    "browser_click", "browser_click_text", "browser_type", "browser_fill",
    "browser_screenshot", "browser_read_page", "browser_snapshot", "browser_close",
    "browser_scroll", "browser_wait", "browser_run_js", "browser_back",
    "browser_session_start", "browser_session_status", "canvas_present", "email_send",
    "email_read", "email_search", "email_reply", "email_draft", "mcp_resource_read"]

/-- What a call does, in order: it asks for an approval, or performs the action of a tool. An MCP
call carries what is sent, and to which server. -/
inductive ToolEvent where
  | approval (tool : String) (answer : Except String Bool)
  | builtin (tool : String)
  | mcpCall (tool : String) (request : McpRequest)
  | skill (tool : String)

/-- The tool whose action is performed. -/
def ToolEvent.performed? : ToolEvent → Option String
  | .approval .. => none
  | .builtin tool => some tool
  | .mcpCall tool _ => some tool
  | .skill tool => some tool

/-- `arguments.as_object().cloned().unwrap_or_default()`. -/
def argumentsOf : Json → List (String × Json)
  | .obj fields => fields
  | _ => []

/-! ### MCP tools -/

namespace ToolEnv

variable (env : ToolEnv)

/-- `normalize_name`. -/
def normalizeName (name : String) : String := replace (env.toLowercase name) "-" "_"

/-- `extract_mcp_server_from_known`. -/
def extractMcpServerFromKnown (toolName : String) (serverNames : List String) : Option String :=
  if !isMcpTool toolName then none
  else
    let sorted := serverNames.mergeSort fun a b => decide (b.utf8ByteSize ≤ a.utf8ByteSize)
    sorted.find? fun name => startsWith toolName ("mcp_" ++ env.normalizeName name ++ "_")

/-- `missing_required_schema_keys`. -/
def missingRequiredSchemaKeys (inputSchema input : Json) : List String :=
  let required := match inputSchema.get "required" with
    | some (.arr items) => items
    | _ => []
  (required.filterMap Json.asStr).filter fun key =>
    match input with
    | .obj fields => (fields.lookup key).isNone
    | _ => true

/-- `dispatch_mcp_tool_by_name`, up to the connection that it calls. -/
def mcpTarget (toolName : String) (input : Json) : Except String McpConnection :=
  if !isMcpTool toolName then .error s!"Invalid MCP tool name: {toolName}"
  else
    match env.mcpConnections with
    | none => .error s!"MCP not available for tool: {toolName}"
    | some conns =>
        match env.extractMcpServerFromKnown toolName (conns.map (·.name)) with
        | none => .error s!"Invalid MCP tool name: {toolName}"
        | some serverName =>
            match conns.find? fun c => c.name == serverName with
            | none => .error s!"MCP server '{serverName}' not connected"
            | some conn =>
                let missingRequired :=
                  match conn.tools.find? fun d => d.name == toolName with
                  | some d => missingRequiredSchemaKeys d.inputSchema input
                  | none => []
                if missingRequired.isEmpty then .ok conn
                else
                  .error (s!"MCP tool '{toolName}' missing required arguments: " ++
                    join ", " missingRequired)

/-- `format_mcp_tool_name`. -/
def formatMcpToolName (server tool : String) : String :=
  "mcp_" ++ env.normalizeName server ++ "_" ++ env.normalizeName tool

/-- `strip_mcp_prefix`. -/
def stripMcpPrefix (server toolName : String) : Option String :=
  let front := "mcp_" ++ env.normalizeName server ++ "_"
  if startsWith toolName front then some (String.ofList (toolName.toList.drop front.length))
  else none

/-- `raw_name` of `call_tool`. An insertion replaces an earlier one. -/
def rawToolName (conn : McpConnection) (name : String) : String :=
  ((conn.originalNames.reverse.lookup name).or (env.stripMcpPrefix conn.name name)).getD name

/-- `call_tool`: what is sent, and what comes back. -/
def callTool (conn : McpConnection) (name : String) (arguments : Json) :
    McpRequest × Except String String :=
  let request := ⟨conn.name, env.rawToolName conn name, argumentsOf arguments⟩
  match env.answer request with
  | .ok content => (request, .ok content)
  | .error e => (request, .error s!"MCP tool call failed: {e}")

/-- `dispatch_mcp_tool_by_name`. -/
def dispatchMcpToolByName (toolName : String) (input : Json) :
    List ToolEvent × Except String String :=
  match env.mcpTarget toolName input with
  | .error e => ([], .error e)
  | .ok conn =>
      match env.callTool conn toolName input with
      | (request, .ok content) => ([.mcpCall toolName request], .ok content)
      | (request, .error e) =>
          ([.mcpCall toolName request], .error s!"MCP tool call failed: {e}")

/-! ### Email tools -/

/-- The name of an email server. -/
def isEmailServer (name : String) : Bool :=
  contains (env.toLowercase name) "gmail" || contains (env.toLowercase name) "outlook" ||
    contains (env.toLowercase name) "email"

/-- The email server that is used: the first whose name has the hint in it, or the first. -/
def emailServer (providerHint : Option String) (conns : List McpConnection) : Option String :=
  match (conns.filter fun c => env.isEmailServer c.name).map (·.name) with
  | [] => none
  | first :: rest =>
      match providerHint with
      | some hint =>
          some (((first :: rest).find? fun s =>
            contains (env.toLowercase s) (env.toLowercase hint)).getD first)
      | none => some first

/-- An email tool: it has its required parameters, calls the tool of the server whose name ends so,
and makes its own of what comes back. -/
def emailTool (required : List String) (suffix : String) (mcpInput : Json)
    (sent : String → String → String) (failed : String → String) (noServer : String)
    (input : Json) : List ToolEvent × Except String String :=
  match required.find? fun key => (input.field key).asStr.isNone with
  | some key => ([], .error s!"Missing '{key}' parameter")
  | none =>
      match env.mcpConnections with
      | none => ([], .error noServer)
      | some conns =>
          match env.emailServer (input.field "provider").asStr conns with
          | none => ([], .error noServer)
          | some server =>
              match conns.find? fun c => c.name == server with
              | none => ([], .error noServer)
              | some conn =>
                  match env.callTool conn (server ++ suffix) mcpInput with
                  | (request, .ok result) =>
                      ([.mcpCall (env.formatMcpToolName server request.tool) request],
                        .ok (sent server result))
                  | (request, .error e) =>
                      ([.mcpCall (env.formatMcpToolName server request.tool) request],
                        .error (failed e))

/-- An optional text, for the server. -/
def optionalText (input : Json) (key : String) : Json :=
  match (input.field key).asStr with
  | some text => .str text
  | none => .null

/-- A limit, for the server. -/
def limitOf (input : Json) (default most : Nat) : Json :=
  .int (min ((input.field "limit").asU64.getD default) most)

/-- `tool_email_send`. -/
def toolEmailSend (input : Json) : List ToolEvent × Except String String :=
  let noServer := "No MCP email integration found. Configure an email channel or install an MCP " ++
    "email server (e.g., Gmail, Outlook)."
  env.emailTool ["to", "subject", "body"] "_send_email"
    (.obj [("bcc", optionalText input "bcc"), ("body", input.field "body"),
      ("cc", optionalText input "cc"), ("subject", input.field "subject"),
      ("to", input.field "to")])
    (fun server _ => env.jsonText (.obj [("method", .str "mcp"), ("provider", .str server),
      ("status", .str "sent"), ("subject", input.field "subject"), ("to", input.field "to")]))
    (fun _ => noServer) noServer input

/-- What three of the email tools say without a server. -/
def noEmailServer : String :=
  "No MCP email integration found. Configure an email channel or install an MCP email server."

/-- `tool_email_read`. -/
def toolEmailRead (input : Json) : List ToolEvent × Except String String :=
  env.emailTool [] "_read_emails"
    (.obj [("folder", .str ((input.field "folder").asStr.getD "INBOX")),
      ("from", optionalText input "from"), ("limit", limitOf input 10 50),
      ("subject_contains", optionalText input "subject_contains"),
      ("unread_only", .bool ((input.field "unread_only").asBool.getD true))])
    (fun _ result => result) (fun _ => noEmailServer) noEmailServer input

/-- `tool_email_search`. -/
def toolEmailSearch (input : Json) : List ToolEvent × Except String String :=
  env.emailTool ["query"] "_search_emails"
    (.obj [("folder", optionalText input "folder"), ("limit", limitOf input 20 100),
      ("query", input.field "query")])
    (fun _ result => result) (fun _ => noEmailServer) noEmailServer input

/-- `tool_email_reply`. -/
def toolEmailReply (input : Json) : List ToolEvent × Except String String :=
  let replyAll := Json.bool ((input.field "reply_all").asBool.getD false)
  env.emailTool ["message_id", "body"] "_reply_email"
    (.obj [("body", input.field "body"), ("message_id", input.field "message_id"),
      ("reply_all", replyAll)])
    (fun server _ => env.jsonText (.obj [("message_id", input.field "message_id"),
      ("method", .str "mcp"), ("provider", .str server), ("reply_all", replyAll),
      ("status", .str "sent")]))
    (fun _ => noEmailServer) noEmailServer input

/-- `tool_email_draft`. -/
def toolEmailDraft (input : Json) : List ToolEvent × Except String String :=
  env.emailTool ["to", "subject", "body"] "_create_draft"
    (.obj [("body", input.field "body"), ("draft_id", optionalText input "draft_id"),
      ("subject", input.field "subject"), ("to", input.field "to")])
    (fun _ result => result) (fun e => s!"MCP draft creation failed: {e}")
    ("Draft creation requires an MCP email integration (Gmail, Outlook). Raw IMAP does not " ++
      "support drafts reliably.") input

/-! ### Tools that run a handler of another tool -/

/-- The texts of an array. -/
def textItems : Json → Option (List String)
  | .arr items => some (items.filterMap Json.asStr)
  | _ => none

/-- The texts of an object. -/
def textFields : Json → Option (List (String × String))
  | .obj fields => some (fields.filterMap fun (k, v) => v.asStr.map (k, ·))
  | _ => none

/-- `run_input` of `execute_workspace_action_direct`. -/
def runInput (action : WorkspaceAction) (input : Json) : Json :=
  let args := action.args ++ ((input.get "args").bind textItems).getD []
  let env := (action.env ++ ((input.get "env").bind textFields).getD []).foldl
    (fun merged (k, v) => insertEntry k (.str v) merged) []
  let mode := (((input.get "mode").bind Json.asStr).or action.mode).getD "oneshot"
  let timeout := (((input.get "timeout_seconds").bind Json.asU64).or
    ((input.get "timeout_secs").bind Json.asU64)).or action.timeoutSeconds
  let optional (key : String) : Option Json → List (String × Json) → List (String × Json)
    | some value => insertEntry key value
    | none => id
  .obj (optional "timeout_seconds" (timeout.map fun t => .int t)
    (insertEntry "mode" (.str mode)
      (optional "health_check" action.healthCheck
        (optional "language" (action.language.map .str)
          (optional "cwd" (action.cwd.map .str)
            (optional "env" (if env.isEmpty then none else some (.obj env))
              (optional "args" (if args.isEmpty then none else some (.arr (args.map .str)))
                [("script", .str action.script)])))))))

/-- The result of a run, with the action that was run. -/
def withAction (workspace : Workspace) (actionName result : String) : String :=
  let parsed := (env.jsonFromStr result).getD (.obj [("raw", .str result)])
  env.jsonText (.obj (insertEntry "workspace_action"
    (.obj [("contract_path", .str workspace.contractPath), ("name", .str actionName)])
    (argumentsOf parsed)))

/-- `tool_workspace_action`, `execute_workspace_action_direct`. -/
def toolWorkspaceAction (input : Json) : List ToolEvent × Except String String :=
  match env.workspace with
  | none => ([], .error "workspace_action: workspace_root is required")
  | some workspace =>
      match (input.get "action").bind Json.asStr with
      | none => ([], .error "workspace_action: missing required `action` parameter")
      | some actionName =>
          match workspace.contract with
          | .error e => ([], .error e)
          | .ok actions =>
              match actions.lookup actionName with
              | none =>
                  ([], .error
                    s!"workspace_action: action `{actionName}` not found in armaraos.toml")
              | some action =>
                  ([.builtin "script_run"],
                    (env.handler "script_run" (runInput action input)).map
                      (env.withAction workspace actionName))

/-- `tool_schedule_action_create`. -/
def toolScheduleActionCreate (input : Json) : List ToolEvent × Except String String :=
  match (input.get "action").bind Json.asStr with
  | none => ([], .error "schedule_action_create: missing required `action` parameter")
  | some actionName =>
      let kept (key : String) (keeps : Json → Bool) : List (String × Json) :=
        ((input.get key).filter keeps).toList.map (key, ·)
      let action := Json.obj (("action_name", .str actionName) ::
        (kept "args" (fun v => v matches .arr _) ++ kept "env" (fun v => v matches .obj _) ++
          [("kind", .str "workspace_action")] ++ kept "mode" (fun v => v.asStr.isSome) ++
          kept "timeout_secs" (fun v => v.asU64.isSome)))
      ([.builtin "schedule_create"],
        env.handler "schedule_create" (.obj (insertEntry "action" action (argumentsOf input))))

/-- `tool_schedule_delete`. -/
def toolScheduleDelete (input : Json) : List ToolEvent × Except String String :=
  match (input.field "job_id").asStr.or (input.field "id").asStr with
  | none => ([], .error "Missing 'job_id' or 'id' parameter (cron job UUID)")
  | some jobId =>
      ([.builtin "cron_cancel"], env.handler "cron_cancel" (.obj [("job_id", .str jobId)]))

/-- The arms that run another tool. -/
def innerArm (toolName : String) (input : Json) :
    Option (List ToolEvent × Except String String) :=
  if toolName = "schedule_action_create" then some (env.toolScheduleActionCreate input)
  else if toolName = "schedule_delete" then some (env.toolScheduleDelete input)
  else if toolName = "workspace_action" then some (env.toolWorkspaceAction input)
  else if toolName = "email_send" then some (env.toolEmailSend input)
  else if toolName = "email_read" then some (env.toolEmailRead input)
  else if toolName = "email_search" then some (env.toolEmailSearch input)
  else if toolName = "email_reply" then some (env.toolEmailReply input)
  else if toolName = "email_draft" then some (env.toolEmailDraft input)
  else none

/-! ### The tool that an arm runs -/

/-- The call names the email server by a hint. -/
def Hinted (input : Json) (name : String) : Prop :=
  ∃ hint, input.get "provider" = some (.str hint) ∧
    contains (env.toLowercase name) (env.toLowercase hint) = true

/-- The connection that an email tool calls: the first email server that the call names by a hint,
or, where it names none, the first one. -/
def EmailConnection (input : Json) (conns : List McpConnection) (conn : McpConnection) : Prop :=
  ∃ front back, conns = front ++ conn :: back ∧ env.isEmailServer conn.name = true ∧
    ((env.Hinted input conn.name ∧
        ∀ c ∈ front, env.isEmailServer c.name = true → ¬ env.Hinted input c.name) ∨
      (∀ c ∈ front, env.isEmailServer c.name = false) ∧
        ∀ c ∈ conns, env.isEmailServer c.name = true → ¬ env.Hinted input c.name)

/-- The email tools, each with its required parameters and the end of the name that it calls. -/
def emailTools : List (String × List String × String) :=
  [("email_send", ["to", "subject", "body"], "_send_email"),
    ("email_read", [], "_read_emails"),
    ("email_search", ["query"], "_search_emails"),
    ("email_reply", ["message_id", "body"], "_reply_email"),
    ("email_draft", ["to", "subject", "body"], "_create_draft")]

/-- A call under a name runs another tool. -/
inductive InnerTool (name : String) (input : Json) : String → Prop
  | schedule {actionName : String} (hname : name = "schedule_action_create")
      (haction : input.get "action" = some (.str actionName)) :
      InnerTool name input "schedule_create"
  | cancel {jobId : String} (hname : name = "schedule_delete")
      (hjob : input.get "job_id" = some (.str jobId) ∨ input.get "id" = some (.str jobId)) :
      InnerTool name input "cron_cancel"
  | script {actionName : String} {workspace : Workspace} {action : WorkspaceAction}
      {actions : List (String × WorkspaceAction)} (hname : name = "workspace_action")
      (hworkspace : env.workspace = some workspace) (hcontract : workspace.contract = .ok actions)
      (haction : input.get "action" = some (.str actionName))
      (hlisted : actions.lookup actionName = some action) :
      InnerTool name input "script_run"
  | email {suffix : String} {required : List String} {conns : List McpConnection}
      {conn : McpConnection} (htool : emailTools.lookup name = some (required, suffix))
      (hrequired : ∀ key ∈ required, ∃ text, input.get key = some (.str text))
      (hconns : env.mcpConnections = some conns) (hconn : env.EmailConnection input conns conn) :
      InnerTool name input
        (env.formatMcpToolName conn.name (env.rawToolName conn (conn.name ++ suffix)))

/-- A call of an MCP tool is one request to the server that is found, or nothing. -/
theorem dispatchMcpToolByName_events (name : String) (input : Json) :
    ((env.dispatchMcpToolByName name input).1 = [] ∧
        ¬ ∃ conn, env.mcpTarget name input = .ok conn) ∨
      ∃ conn, env.mcpTarget name input = .ok conn ∧
        (env.dispatchMcpToolByName name input).1 =
          [.mcpCall name ⟨conn.name, env.rawToolName conn name, argumentsOf input⟩] := by
  unfold dispatchMcpToolByName
  cases env.mcpTarget name input with
  | error e => exact .inl ⟨rfl, nofun⟩
  | ok conn =>
      refine .inr ⟨conn, rfl, ?_⟩
      unfold callTool
      dsimp only
      cases env.answer _ <;> rfl

theorem isMcpTool_format {server tool : String} :
    isMcpTool (env.formatMcpToolName server tool) = true := by
  simp [isMcpTool, startsWith, formatMcpToolName, List.append_assoc]

section Inner

variable {env} {input : Json} {name inner : String}

theorem asStr_eq_some_iff {j : Option Json} {text : String} :
    j.bind Json.asStr = some text ↔ j = some (.str text) := by
  rcases j with _ | (_ | _ | _ | _ | _ | _ | _) <;> simp [Json.asStr]

theorem asStr_field_eq_some_iff {key text : String} :
    (input.field key).asStr = some text ↔ input.get key = some (.str text) := by
  rw [Json.field]
  rcases input.get key with _ | (_ | _ | _ | _ | _ | _ | _) <;> simp [Json.asStr]

/-- The connection of an email tool is the one that is found. -/
theorem EmailConnection.found {conns : List McpConnection} {conn : McpConnection}
    (h : env.EmailConnection input conns conn) :
    env.emailServer (input.field "provider").asStr conns = some conn.name ∧
      conns.find? (fun c => c.name == conn.name) = some conn := by
  obtain ⟨front, back, rfl, hemail, hfirst⟩ := h
  have hservers : ((front ++ conn :: back).filter fun c => env.isEmailServer c.name).map (·.name) =
      (front.filter fun c => env.isEmailServer c.name).map (·.name) ++
        conn.name :: (back.filter fun c => env.isEmailServer c.name).map (·.name) := by
    simp [hemail]
  have hname : ∀ c ∈ front, c.name ≠ conn.name := by
    rintro c hc hsame
    rcases hfirst with ⟨hhinted, hearlier⟩ | ⟨hearlier, -⟩
    · exact hearlier c hc (hsame ▸ hemail) (hsame ▸ hhinted)
    · rw [← hsame, hearlier c hc] at hemail
      cases hemail
  refine ⟨?_, ?_⟩
  · unfold emailServer
    rw [hservers]
    rcases hfirst with ⟨⟨hint, hhint, hcontains⟩, hearlier⟩ | ⟨hearlier, hnone⟩
    · have hfind : ((front.filter fun c => env.isEmailServer c.name).map (·.name) ++
          conn.name :: (back.filter fun c => env.isEmailServer c.name).map (·.name)).find?
            (fun s => contains (env.toLowercase s) (env.toLowercase hint)) = some conn.name := by
        rw [List.find?_append, List.find?_eq_none.mpr ?_, Option.none_or, List.find?_cons]
        · simp only [hcontains]
        intro server hserver
        obtain ⟨c, hc, rfl⟩ := List.mem_map.mp hserver
        obtain ⟨hmem, hc⟩ := List.mem_filter.mp hc
        exact fun hother => hearlier c hmem hc ⟨hint, hhint, hother⟩
      rw [asStr_field_eq_some_iff.mpr hhint]
      split
      · rename_i hempty
        simp at hempty
      · rename_i hcons
        dsimp only
        rw [← hcons, hfind]
        rfl
    · have hfront : front.filter (fun c => env.isEmailServer c.name) = [] := by
        simpa using hearlier
      rw [hfront, List.map_nil, List.nil_append]
      dsimp only
      split
      · rename_i hint hhint
        rw [List.find?_eq_none.mpr ?_]
        · rfl
        intro server hserver hother
        have hmem : server ∈ ((front ++ conn :: back).filter
            fun c => env.isEmailServer c.name).map (·.name) := by
          rw [hservers, hfront]
          exact hserver
        obtain ⟨c, hc, rfl⟩ := List.mem_map.mp hmem
        obtain ⟨hmem, hc⟩ := List.mem_filter.mp hc
        exact hnone c hmem hc ⟨hint, asStr_field_eq_some_iff.mp hhint, hother⟩
      · rfl
  · rw [List.find?_append, List.find?_eq_none.mpr fun c hc => by simpa using hname c hc]
    simp

/-- Where an email server is found, its connection is that of the tool. -/
theorem exists_emailConnection {conns : List McpConnection} {server : String}
    (h : env.emailServer (input.field "provider").asStr conns = some server) :
    ∃ conn, env.EmailConnection input conns conn := by
  classical
  by_cases hhinted : ∃ c ∈ conns, env.isEmailServer c.name = true ∧ env.Hinted input c.name
  · obtain ⟨c, hc, hboth⟩ := hhinted
    obtain ⟨conn, hconn⟩ : ∃ conn, conns.find? (fun c => decide
        (env.isEmailServer c.name = true ∧ env.Hinted input c.name)) = some conn :=
      Option.isSome_iff_exists.mp (List.find?_isSome.mpr ⟨c, hc, by simpa using hboth⟩)
    obtain ⟨hfits, front, back, hsplit, hearlier⟩ := List.find?_eq_some_iff_append.mp hconn
    rw [decide_eq_true_eq] at hfits
    refine ⟨conn, front, back, hsplit, hfits.1, .inl ⟨hfits.2, fun c hc hemail hother => ?_⟩⟩
    simpa [hemail, hother] using hearlier c hc
  · have hnone : ∀ c ∈ conns, env.isEmailServer c.name = true → ¬ env.Hinted input c.name :=
      fun c hc hemail hother => hhinted ⟨c, hc, hemail, hother⟩
    have hsome : ∃ c ∈ conns, env.isEmailServer c.name = true := by
      by_contra hno
      push Not at hno
      have hempty : conns.filter (fun c => env.isEmailServer c.name) = [] := by
        simpa using hno
      rw [emailServer, hempty] at h
      cases h
    obtain ⟨conn, hconn⟩ : ∃ conn, conns.find? (fun c => env.isEmailServer c.name) = some conn := by
      obtain ⟨c, hc, hemail⟩ := hsome
      exact Option.isSome_iff_exists.mp (List.find?_isSome.mpr ⟨c, hc, hemail⟩)
    obtain ⟨hfits, front, back, hsplit, hearlier⟩ := List.find?_eq_some_iff_append.mp hconn
    exact ⟨conn, front, back, hsplit, hfits, .inr ⟨fun c hc => by simpa using hearlier c hc, hnone⟩⟩

/-- An email tool sends one request or nothing, and the request goes where it should. -/
theorem emailTool_cases {required : List String} {suffix : String} {mcpInput : Json}
    {sent : String → String → String} {failed : String → String} {noServer : String} :
    ((env.emailTool required suffix mcpInput sent failed noServer input).1 = [] ∧
      ¬ ((∀ key ∈ required, ∃ text, input.get key = some (.str text)) ∧
        ∃ conns conn, env.mcpConnections = some conns ∧ env.EmailConnection input conns conn)) ∨
    ∃ conns conn request, (∀ key ∈ required, ∃ text, input.get key = some (.str text)) ∧
      env.mcpConnections = some conns ∧ env.EmailConnection input conns conn ∧
        (env.emailTool required suffix mcpInput sent failed noServer input).1 =
          [.mcpCall (env.formatMcpToolName conn.name
            (env.rawToolName conn (conn.name ++ suffix))) request] := by
  unfold emailTool
  cases hmissing : required.find? fun key => (input.field key).asStr.isNone with
  | some key =>
      refine .inl ⟨rfl, fun h => ?_⟩
      obtain ⟨text, htext⟩ := h.1 key (List.mem_of_find?_eq_some hmissing)
      have hnone := List.find?_some hmissing
      rw [asStr_field_eq_some_iff.mpr htext] at hnone
      cases hnone
  | none =>
      have hrequired : ∀ key ∈ required, ∃ text, input.get key = some (.str text) := by
        intro key hkey
        have hsome := List.find?_eq_none.mp hmissing key hkey
        rw [Option.isNone_iff_eq_none, ← ne_eq, Option.ne_none_iff_exists'] at hsome
        obtain ⟨text, htext⟩ := hsome
        exact ⟨text, asStr_field_eq_some_iff.mp htext⟩
      dsimp only
      cases hconns : env.mcpConnections with
      | none => exact .inl ⟨rfl, by simp⟩
      | some conns =>
          dsimp only
          cases hserver : env.emailServer (input.field "provider").asStr conns with
          | none =>
              refine .inl ⟨rfl, ?_⟩
              rintro ⟨-, conns', conn, hsame, hconn⟩
              obtain rfl := Option.some.inj hsame
              rw [hconn.found.1] at hserver
              cases hserver
          | some server =>
              obtain ⟨conn, hconn⟩ := exists_emailConnection hserver
              obtain ⟨hfound, hfind⟩ := hconn.found
              obtain rfl := Option.some.inj (hserver.symm.trans hfound)
              refine .inr ⟨conns, conn, (env.callTool conn (conn.name ++ suffix) mcpInput).1,
                hrequired, rfl, hconn, ?_⟩
              dsimp only
              rw [hfind]
              unfold callTool
              dsimp only
              cases env.answer _ <;> rfl

/-- What an arm runs besides itself: nothing, or the action of one other tool. -/
def RunsInner (env : ToolEnv) (name : String) (input : Json) (events : List ToolEvent) : Prop :=
  (events = [] ∧ ¬ ∃ inner, env.InnerTool name input inner) ∨
    ∃ event inner, events = [event] ∧ event.performed? = some inner ∧
      env.InnerTool name input inner ∧ ∀ other, env.InnerTool name input other → other = inner

/-- Two email connections of a call are the same. -/
theorem EmailConnection.unique {conns : List McpConnection} {conn other : McpConnection}
    (h : env.EmailConnection input conns conn) (hother : env.EmailConnection input conns other) :
    other = conn := by
  have hname := Option.some.inj (hother.found.1.symm.trans h.found.1)
  have hfound := hother.found.2
  rw [hname, h.found.2] at hfound
  exact (Option.some.inj hfound).symm

theorem runsInner_email {required : List String} {suffix : String} {mcpInput : Json}
    {sent : String → String → String} {failed : String → String} {noServer : String}
    (htool : emailTools.lookup name = some (required, suffix)) :
    RunsInner env name input
      (env.emailTool required suffix mcpInput sent failed noServer input).1 := by
  have hinner : ∀ inner, env.InnerTool name input inner →
      (∀ key ∈ required, ∃ text, input.get key = some (.str text)) ∧
        ∃ conns conn, env.mcpConnections = some conns ∧ env.EmailConnection input conns conn ∧
          inner = env.formatMcpToolName conn.name
            (env.rawToolName conn (conn.name ++ suffix)) := by
    intro inner h
    cases h with
    | email htool' hrequired hconns hconn =>
        rw [htool] at htool'
        cases htool'
        exact ⟨hrequired, _, _, hconns, hconn, rfl⟩
    | schedule hname | cancel hname | script hname =>
        rw [hname] at htool
        cases htool
  rcases @emailTool_cases env input required suffix mcpInput sent failed noServer with
    ⟨hevents, hnone⟩ | ⟨conns, conn, request, hrequired, hconns, hconn, hevents⟩
  · refine .inl ⟨hevents, fun ⟨inner, h⟩ => hnone ?_⟩
    obtain ⟨hrequired, conns, conn, hconns, hconn, -⟩ := hinner inner h
    exact ⟨hrequired, conns, conn, hconns, hconn⟩
  · refine .inr ⟨_, _, hevents, rfl, .email htool hrequired hconns hconn, fun other h => ?_⟩
    obtain ⟨-, conns', conn', hconns', hconn', rfl⟩ := hinner other h
    obtain rfl := Option.some.inj (hconns.symm.trans hconns')
    rw [hconn.unique hconn']

theorem runsInner_script :
    RunsInner env "workspace_action" input (env.toolWorkspaceAction input).1 := by
  have hinner : ∀ inner, env.InnerTool "workspace_action" input inner →
      inner = "script_run" ∧ ∃ workspace actions actionName action,
        env.workspace = some workspace ∧ workspace.contract = .ok actions ∧
          input.get "action" = some (.str actionName) ∧
            actions.lookup actionName = some action := by
    intro inner h
    cases h with
    | script _ hworkspace hcontract haction hlisted =>
        exact ⟨rfl, _, _, _, _, hworkspace, hcontract, haction, hlisted⟩
    | schedule hname | cancel hname => exact absurd hname (by decide)
    | email htool => cases htool
  unfold toolWorkspaceAction
  cases hworkspace : env.workspace with
  | none => exact .inl ⟨rfl, fun ⟨inner, h⟩ => by simpa [hworkspace] using (hinner inner h).2⟩
  | some workspace =>
      dsimp only
      cases haction : (input.get "action").bind Json.asStr with
      | none =>
          refine .inl ⟨rfl, fun ⟨inner, h⟩ => ?_⟩
          obtain ⟨-, -, -, actionName, -, -, -, hname, -⟩ := hinner inner h
          rw [asStr_eq_some_iff.mpr hname] at haction
          cases haction
      | some actionName =>
          rw [asStr_eq_some_iff] at haction
          dsimp only
          cases hcontract : workspace.contract with
          | error e =>
              refine .inl ⟨rfl, fun ⟨inner, h⟩ => ?_⟩
              obtain ⟨-, workspace', actions, -, -, hsame, hloaded, -⟩ := hinner inner h
              obtain rfl := Option.some.inj (hworkspace.symm.trans hsame)
              rw [hcontract] at hloaded
              cases hloaded
          | ok actions =>
              dsimp only
              cases hlisted : actions.lookup actionName with
              | none =>
                  refine .inl ⟨rfl, fun ⟨inner, h⟩ => ?_⟩
                  obtain ⟨-, workspace', actions', name', action, hsame, hloaded, hname, hfound⟩ :=
                    hinner inner h
                  obtain rfl := Option.some.inj (hworkspace.symm.trans hsame)
                  obtain rfl := Except.ok.inj (hcontract.symm.trans hloaded)
                  obtain rfl := Json.str.inj (Option.some.inj (haction.symm.trans hname))
                  rw [hlisted] at hfound
                  cases hfound
              | some action =>
                  exact .inr ⟨_, _, rfl, rfl, .script rfl hworkspace hcontract haction hlisted,
                    fun other h => (hinner other h).1⟩

theorem runsInner_schedule :
    RunsInner env "schedule_action_create" input (env.toolScheduleActionCreate input).1 := by
  have hinner : ∀ inner, env.InnerTool "schedule_action_create" input inner →
      inner = "schedule_create" ∧ ∃ actionName, input.get "action" = some (.str actionName) := by
    intro inner h
    cases h with
    | schedule _ haction => exact ⟨rfl, _, haction⟩
    | cancel hname | script hname => exact absurd hname (by decide)
    | email htool => cases htool
  unfold toolScheduleActionCreate
  cases haction : (input.get "action").bind Json.asStr with
  | none =>
      refine .inl ⟨rfl, fun ⟨inner, h⟩ => ?_⟩
      obtain ⟨-, actionName, hname⟩ := hinner inner h
      rw [asStr_eq_some_iff.mpr hname] at haction
      cases haction
  | some actionName =>
      exact .inr ⟨_, _, rfl, rfl, .schedule rfl (asStr_eq_some_iff.mp haction),
        fun other h => (hinner other h).1⟩

theorem runsInner_cancel :
    RunsInner env "schedule_delete" input (env.toolScheduleDelete input).1 := by
  have hinner : ∀ inner, env.InnerTool "schedule_delete" input inner →
      inner = "cron_cancel" ∧ ∃ jobId,
        input.get "job_id" = some (.str jobId) ∨ input.get "id" = some (.str jobId) := by
    intro inner h
    cases h with
    | cancel _ hjob => exact ⟨rfl, _, hjob⟩
    | schedule hname | script hname => exact absurd hname (by decide)
    | email htool => cases htool
  unfold toolScheduleDelete
  cases hjob : (input.field "job_id").asStr.or (input.field "id").asStr with
  | none =>
      rw [Option.or_eq_none_iff] at hjob
      refine .inl ⟨rfl, fun ⟨inner, h⟩ => ?_⟩
      obtain ⟨-, jobId, hjobId | hid⟩ := hinner inner h
      · rw [asStr_field_eq_some_iff.mpr hjobId] at hjob
        cases hjob.1
      · rw [asStr_field_eq_some_iff.mpr hid] at hjob
        cases hjob.2
  | some jobId =>
      refine .inr ⟨_, _, rfl, rfl, ?_, fun other h => (hinner other h).1⟩
      rcases Option.or_eq_some_iff.mp hjob with hjobId | ⟨-, hid⟩
      · exact .cancel rfl (.inl (asStr_field_eq_some_iff.mp hjobId))
      · exact .cancel rfl (.inr (asStr_field_eq_some_iff.mp hid))

/-- A tool that runs another one is built in, is not the shell, and does not run itself or the
shell. -/
theorem InnerTool.names (h : env.InnerTool name input inner) :
    name ∈ builtinTools ∧ name ≠ "shell_exec" ∧ inner ≠ name ∧ inner ≠ "shell_exec" := by
  cases h with
  | schedule hname | cancel hname | script hname =>
      rw [hname]
      decide
  | @email _ _ _ conn htool =>
      have hmcp : ∀ other : String, isMcpTool other = false → ∀ tool,
          env.formatMcpToolName conn.name tool ≠ other := by
        rintro other hother tool rfl
        rw [isMcpTool_format] at hother
        cases hother
      obtain ⟨front, back, hsplit, -⟩ := List.lookup_eq_some_iff.mp htool
      have hmem : name ∈ emailTools.map Prod.fst := by simp [hsplit]
      have hnames : ∀ n ∈ emailTools.map Prod.fst,
          n ∈ builtinTools ∧ n ≠ "shell_exec" ∧ isMcpTool n = false := by decide +kernel
      obtain ⟨hbuiltin, hshell, hother⟩ := hnames name hmem
      exact ⟨hbuiltin, hshell, hmcp name hother _, hmcp _ (by decide +kernel) _⟩

variable (env) (input) (name) in
/-- An arm runs the tool that it should, besides its own, and where it has none to run it runs
none. -/
theorem innerArm_cases :
    (env.innerArm name input = none ∧ ¬ ∃ inner, env.InnerTool name input inner) ∨
      ∃ events result, env.innerArm name input = some (events, result) ∧
        RunsInner env name input events := by
  have harm : ∀ called : List ToolEvent × Except String String,
      RunsInner env name input called.1 → ∃ events result, some called = some (events, result) ∧
        RunsInner env name input events :=
    fun called h => ⟨called.1, called.2, rfl, h⟩
  unfold innerArm
  split_ifs with hschedule hcancel hscript hsend hread hsearch hreply hdraft
  · exact .inr (harm _ (hschedule ▸ runsInner_schedule))
  · exact .inr (harm _ (hcancel ▸ runsInner_cancel))
  · exact .inr (harm _ (hscript ▸ runsInner_script))
  · exact .inr (harm _ (runsInner_email (hsend ▸ rfl)))
  · exact .inr (harm _ (runsInner_email (hread ▸ rfl)))
  · exact .inr (harm _ (runsInner_email (hsearch ▸ rfl)))
  · exact .inr (harm _ (runsInner_email (hreply ▸ rfl)))
  · exact .inr (harm _ (runsInner_email (hdraft ▸ rfl)))
  · refine .inl ⟨rfl, fun ⟨inner, h⟩ => ?_⟩
    cases h with
    | schedule hname => exact hschedule hname
    | cancel hname => exact hcancel hname
    | script hname => exact hscript hname
    | email htool =>
        obtain ⟨front, back, hsplit, -⟩ := List.lookup_eq_some_iff.mp htool
        have hmem : name ∈ emailTools.map Prod.fst := by simp [hsplit]
        simp [emailTools, hsend, hread, hsearch, hreply, hdraft] at hmem

end Inner

end ToolEnv

end ArmaraOS.Agent
