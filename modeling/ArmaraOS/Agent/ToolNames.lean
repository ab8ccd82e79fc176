import ArmaraOS.Lib.Text
import ArmaraOS.Types.Llm

/-!
Tool names: the compatibility aliases (`openfang-types/src/tool_compat.rs`), the
execution lanes of a tool round (`openfang-runtime/src/agent_tool_round.rs`), and
the name a call is dispatched under (`openfang-runtime/src/tool_runner.rs`).
-/

namespace ArmaraOS.Agent

open ArmaraOS.Text

/-! ### Aliases -/

/-- `map_tool_name`. -/
def mapToolName (name : String) : Option String :=
  if name ∈ ["Read", "read", "read_file"] then some "file_read"
  else if name ∈ ["Write", "write", "write_file"] then some "file_write"
  else if name ∈ ["Edit", "edit"] then some "file_write"
  else if name ∈ ["Glob", "glob", "list_files"] then some "file_list"
  else if name ∈ ["Grep", "grep"] then some "file_list"
  else if name ∈ ["Bash", "bash", "exec", "execute_command"] then some "shell_exec"
  else if name ∈ ["WebSearch", "web_search"] then some "web_search"
  else if name ∈ ["WebFetch", "fetch_url", "web_fetch"] then some "web_fetch"
  else if name ∈ ["browser_navigate"] then some "browser_navigate"
  else if name ∈ ["browser_clickText", "click_text"] then some "browser_click_text"
  else if name ∈ ["browser_fillField", "fill_field", "fill_form_field"] then some "browser_fill"
  else if name ∈ ["browser_accessibilitySnapshot", "browser_a11y"] then some "browser_snapshot"
  else if name ∈ ["memory_search", "memory_recall"] then some "memory_recall"
  else if name ∈ ["memory_save", "memory_store"] then some "memory_store"
  else if name ∈ ["sessions_send", "agent_message"] then some "agent_send"
  else if name ∈ ["sessions_list", "agents_list", "agent_list"] then some "agent_list"
  else if name ∈ ["sessions_spawn"] then some "agent_send"
  else if name ∈ ["fs-read", "fs_read", "fsRead", "readFile"] then some "file_read"
  else if name ∈ ["fs-write", "fs_write", "fsWrite", "writeFile"] then some "file_write"
  else if name ∈ ["fs-list", "fs_list", "fsList", "listFiles", "list_dir", "ls"] then
    some "file_list"
  else if name ∈ ["fs-exec", "run", "run_command", "runCommand", "execute", "shell"] then
    some "shell_exec"
  else none

/-- The names that aliases stand for. -/
def aliasTargets : List String :=
  ["file_read", "file_write", "file_list", "shell_exec", "web_search", "web_fetch",
    "browser_navigate", "browser_click_text", "browser_fill", "browser_snapshot",
    "memory_recall", "memory_store", "agent_send", "agent_list"]

theorem ite_some_cases {p : Prop} [Decidable p] {target value : String} {rest : Option String}
    (h : (if p then some value else rest) = some target) :
    target = value ∨ rest = some target := by
  split at h
  · exact .inl (Option.some.inj h).symm
  · exact .inr h

theorem mapToolName_target {name target : String} (h : mapToolName name = some target) :
    target ∈ aliasTargets := by
  unfold mapToolName at h
  repeat
    rcases ite_some_cases h with rfl | h
    · decide
  cases h

/-- The names of `is_known_openfang_tool`. -/
def knownOpenfangTools : List String :=
  ["file_read", "file_write", "file_list", "document_extract", "spreadsheet_build", "shell_exec",
    "workspace_action", "workspace_actions_list", "workspace_action_set",
    "workspace_action_delete", "script_run", "script_detect", "web_search", "web_fetch",
    "github_subtree_download", "browser_navigate", "browser_click_text", "browser_fill",
    "browser_snapshot", "memory_recall", "memory_store", "memory_list", "agent_send",
    "agent_list", "agent_spawn", "agent_delegate", "agent_map_reduce", "agent_supervise",
    "agent_coordinate", "agent_kill", "agent_find", "agent_find_capabilities",
    "agent_pool_list", "agent_pool_spawn", "task_post", "task_claim",
    "orchestration_shared_merge", "task_complete", "task_list", "event_publish",
    "channel_stream", "channel_send", "channels_list", "cron_create", "cron_list",
    "cron_cancel", "schedule_create", "schedule_action_create", "schedule_list",
    "schedule_delete", "image_analyze", "location_get", "email_send", "email_read",
    "email_search", "email_reply", "email_draft", "mcp_resource_read"]

/-- `normalize_tool_name`. -/
def normalizeToolName (name : String) : String :=
  if name ∈ knownOpenfangTools then name else (mapToolName name).getD name

/-- `is_mcp_tool`. -/
def isMcpTool (name : String) : Bool := startsWith name "mcp_"

/-! ### Lanes -/

/-- `ToolExecutionLane`. -/
inductive ToolExecutionLane where
  | readParallel
  | workspaceMutationSerial
  | processSerial
  | externalSideEffectSerial
deriving DecidableEq

/-- `classify_lane`. -/
def classifyLane (toolName : String) : ToolExecutionLane :=
  if toolName ∈ ["file_read", "file_list", "document_extract", "mcp_resource_read",
      "web_search", "web_fetch", "web_scrape", "web_get", "mcp_ainl_ainl_validate",
      "mcp_ainl_ainl_compile", "mcp_ainl_ainl_capabilities", "mcp_ainl_ainl_security_report",
      "mcp_ainl_ainl_ir_diff", "mcp_ainl_ainl_ptc_signature_check"] then
    .readParallel
  else if toolName ∈ ["file_write", "apply_patch", "workspace_action", "script_run"] then
    .workspaceMutationSerial
  else if toolName ∈ ["shell_exec", "process_start", "process_kill", "process_list"] then
    .processSerial
  else if startsWith toolName "channel_" || startsWith toolName "agent_" ||
      toolName == "mcp_ainl_ainl_run" || contains toolName "send" ||
      contains toolName "post" || contains toolName "publish" then
    .externalSideEffectSerial
  else .readParallel

/-- `is_parallel_read` of the lane of a name; also `safe_to_deduplicate`. -/
def isParallelRead (toolName : String) : Bool := classifyLane toolName == .readParallel

/-- The recursion of `ordered_batches`: `batch` is the open group of parallel
reads. -/
def batchesFrom {α : Type} (parallel : α → Bool) (batch : List α) : List α → List (List α)
  | [] => if batch.isEmpty then [] else [batch]
  | x :: rest =>
      if parallel x then batchesFrom parallel (batch ++ [x]) rest
      else if batch.isEmpty then [x] :: batchesFrom parallel [] rest
      else batch :: [x] :: batchesFrom parallel [] rest

/-- `ordered_batches`, as the lists of the items of each range. -/
def orderedBatches {α : Type} (parallel : α → Bool) (items : List α) : List (List α) :=
  batchesFrom parallel [] items

theorem batchesFrom_ne_nil {α : Type} (parallel : α → Bool) :
    ∀ (items batch b : List α), b ∈ batchesFrom parallel batch items → b ≠ []
  | [], batch, b, hb => by
      rw [batchesFrom] at hb
      split at hb
      · simp at hb
      · rename_i hne
        rw [List.mem_singleton] at hb
        rintro rfl
        exact hne (by simp [← hb])
  | x :: rest, batch, b, hb => by
      rw [batchesFrom] at hb
      split at hb
      · exact batchesFrom_ne_nil parallel rest _ b hb
      · split at hb
        · rcases List.mem_cons.1 hb with rfl | hb
          · simp
          · exact batchesFrom_ne_nil parallel rest _ b hb
        · rename_i hne
          rcases List.mem_cons.1 hb with rfl | hb
          · rintro rfl
            exact hne rfl
          · rcases List.mem_cons.1 hb with rfl | hb
            · simp
            · exact batchesFrom_ne_nil parallel rest _ b hb

theorem batchesFrom_flatten {α : Type} (parallel : α → Bool) :
    ∀ (items batch : List α), (batchesFrom parallel batch items).flatten = batch ++ items
  | [], batch => by
      rw [batchesFrom]
      split
      · simp_all
      · simp
  | x :: rest, batch => by
      rw [batchesFrom]
      split
      · rw [batchesFrom_flatten parallel rest]
        simp
      · split
        · simp_all [batchesFrom_flatten parallel rest]
        · simp [batchesFrom_flatten parallel rest]

/-- The ranges are the items in order. -/
theorem orderedBatches_flatten {α : Type} (parallel : α → Bool) (items : List α) :
    (orderedBatches parallel items).flatten = items :=
  batchesFrom_flatten parallel items []

/-- No range is empty. -/
theorem orderedBatches_ne_nil {α : Type} {parallel : α → Bool} {items b : List α}
    (hb : b ∈ orderedBatches parallel items) : b ≠ [] :=
  batchesFrom_ne_nil parallel items [] b hb

/-! ### Dispatch -/

/-- What is carried out for a call: the name that selects the handler and the
arguments it gets. -/
structure Invocation where
  tool : String
  args : Json
deriving DecidableEq

/-- What `execute_tool_with_trajectory` decides before any handler runs. -/
inductive Resolution where
  | refused (content : String)
  | perform (invocation : Invocation)

/-- `direct_mcp_tool_from_shell_command`. -/
def directMcpToolFromShellCommand (input : Json) : Option String :=
  match (input.get "command").bind Json.asStr with
  | none => none
  | some command =>
      let raw := trimChars isWhitespace command.toList
      let unquoted := trimChars (fun c => c == '"' || c == '\'') raw
      let candidate := String.ofList (trimChars isWhitespace unquoted)
      if (splitWhitespace candidate).length = 1 ∧ isMcpTool candidate then some candidate
      else none

/-- The refusal of a tool outside the allowed list. -/
def permissionDenied (toolName : String) : String :=
  s!"Permission denied: agent does not have capability to use tool '{toolName}'"

/-- The head of `execute_tool_with_trajectory`: the alias is resolved, a
`shell_exec` of a bare MCP tool name is sent to that tool without arguments, and
a tool outside the allowed list is refused. -/
def resolveCall (allowedTools : List String) (toolName : String) (input : Json) : Resolution :=
  let name := normalizeToolName toolName
  match if name = "shell_exec" then directMcpToolFromShellCommand input else none with
  | some mcpToolName =>
      if mcpToolName ∈ allowedTools then .perform ⟨mcpToolName, .obj []⟩
      else .refused (permissionDenied mcpToolName)
  | none =>
      if name ∈ allowedTools then .perform ⟨name, input⟩ else .refused (permissionDenied name)

/-- `tool_execution_timeout`, in seconds. -/
def toolTimeoutFor (toolName : String) : Nat :=
  if toolName ∈ ["agent_send", "agent_spawn"] then 600
  else if toolName ∈ ["document_extract", "spreadsheet_build"] then 180
  else if toolName ∈ ["channel_send", "channel_stream"] then 30
  else if toolName ∈ ["image_generate", "text_to_speech", "speech_to_text", "media_describe",
      "media_transcribe"] then 300
  else if toolName ∈ ["a2a_send", "a2a_discover", "a2a_discover_hermes", "a2a_send_hermes"] then
    300
  else if toolName ∈ ["hermes_a2a_status"] then 30
  else if toolName ∈ ["mcp_resource_read"] then 90
  else if toolName ∈ ["process_start", "process_poll", "process_write", "process_kill",
      "process_list"] then 30
  else if toolName ∈ ["workspace_actions_list"] then 30
  else if toolName ∈ ["workspace_action_set", "workspace_action_delete"] then 30
  else if toolName ∈ ["workspace_action"] then 600
  else if toolName ∈ ["schedule_action_create"] then 30
  else if toolName ∈ ["script_detect"] then 30
  else if toolName ∈ ["script_run"] then 600
  else 300

end ArmaraOS.Agent
