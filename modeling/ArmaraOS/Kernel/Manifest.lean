import ArmaraOS.Kernel.AgentRegistry
import ArmaraOS.Kernel.Triggers
import ArmaraOS.Types.Capability

/-!
Agent manifests (`openfang-types/src/agent.rs`), the capabilities that a manifest grants
(`manifest_to_capabilities` in `openfang-kernel/src/kernel.rs`) and the conditions of a proactive
agent (`parse_condition` in `openfang-kernel/src/background.rs`).

A manifest stands with what a spawn reads of it; the model, the execution policy and the tool
lists are filled in by a spawn and read by none of its checks.
-/

namespace ArmaraOS.Kernel.Agents

open ArmaraOS.Agent ArmaraOS.Text

/-! ### Tool profiles -/

/-- `ManifestCapabilities`. -/
structure ManifestCapabilities where
  network : List String := []
  tools : List String := []
  memoryRead : List String := []
  memoryWrite : List String := []
  agentSpawn : Bool := false
  agentMessage : List String := []
  shell : List String := []
  ofpDiscover : Bool := false
  ofpConnect : List String := []
deriving DecidableEq

/-- `ToolProfile`. -/
inductive ToolProfile where
  | minimal
  | coding
  | research
  | messaging
  | automation
  | full
  | custom
deriving DecidableEq

/-- `ToolProfile::tools`. -/
def ToolProfile.tools : ToolProfile → List String
  | .minimal => ["file_read", "file_list", "channel_send", "event_publish", "media_transcribe"]
  | .coding =>
      ["file_read", "file_write", "file_list", "document_extract", "spreadsheet_build",
        "shell_exec", "web_fetch", "github_subtree_download", "channel_send", "event_publish",
        "media_transcribe", "schedule_create", "schedule_list", "schedule_delete",
        "channels_list", "hermes_a2a_status", "a2a_discover_hermes", "a2a_send_hermes"]
  | .research =>
      ["web_fetch", "web_search", "github_subtree_download", "file_read", "file_write",
        "document_extract", "channel_send", "event_publish", "media_transcribe",
        "schedule_create", "schedule_list", "schedule_delete", "channels_list",
        "hermes_a2a_status", "a2a_discover_hermes", "a2a_send_hermes"]
  | .messaging =>
      ["agent_send", "agent_list", "memory_store", "memory_recall", "channel_send",
        "event_publish", "media_transcribe", "schedule_create", "schedule_list",
        "schedule_delete", "channels_list", "hermes_a2a_status", "a2a_discover_hermes",
        "a2a_send_hermes"]
  | .automation =>
      ["file_read", "file_write", "file_list", "document_extract", "spreadsheet_build",
        "shell_exec", "web_fetch", "web_search", "github_subtree_download", "agent_send",
        "agent_list", "memory_store", "memory_recall", "channel_send", "event_publish",
        "media_transcribe", "schedule_create", "schedule_list", "schedule_delete",
        "channels_list", "hermes_a2a_status", "a2a_discover_hermes", "a2a_send_hermes"]
  | .full => ["*"]
  | .custom => ["*"]

/-- `ToolProfile::implied_capabilities`. -/
def ToolProfile.impliedCapabilities (profile : ToolProfile) : ManifestCapabilities :=
  let tools := profile.tools
  let hasNet := tools.any fun t => startsWith t "web_" || t == "*"
  let hasShell := tools.any fun t => t == "shell_exec" || t == "*"
  let hasAgent := tools.any fun t => startsWith t "agent_" || t == "*"
  let hasMemory := tools.any fun t => startsWith t "memory_" || t == "*"
  { tools := tools
    network := if hasNet then ["*"] else []
    shell := if hasShell then ["*"] else []
    agentSpawn := hasAgent
    agentMessage := if hasAgent then ["*"] else []
    memoryRead := if hasMemory then ["*"] else ["self.*"]
    memoryWrite := ["self.*"]
    ofpDiscover := false
    ofpConnect := [] }

/-! ### Manifests -/

/-- `ScheduleMode`. -/
inductive ScheduleMode where
  | reactive
  | periodic (cron : String)
  | proactive (conditions : List String)
  | continuous (checkIntervalSecs : Nat)
deriving DecidableEq

/-- `ResourceQuota`; a limit of 0 is none. -/
structure ResourceQuota where
  maxLlmTokensPerHour : Nat := 0
  maxSubagents : Nat := 0
  maxSpawnDepth : Nat := 0
deriving DecidableEq

/-- `AgentManifest`. -/
structure AgentManifest where
  name : String := "unnamed"
  tags : List String := []
  profile : Option ToolProfile := none
  capabilities : ManifestCapabilities := {}
  resources : ResourceQuota := {}
  schedule : ScheduleMode := .reactive
  workspace : Option String := none
deriving DecidableEq

/-- A list of the manifest where it has entries, the one of its profile otherwise. -/
def orImplied (declared implied : List String) : List String :=
  if declared.isEmpty then implied else declared

/-- `effective_caps`: a manifest without explicit tools has those of its profile, under what else
it declares. -/
def effectiveCapabilities (manifest : AgentManifest) : ManifestCapabilities :=
  let declared := manifest.capabilities
  match manifest.profile with
  | none => declared
  | some profile =>
      if declared.tools.isEmpty then
        let implied := profile.impliedCapabilities
        { implied with
          network := orImplied declared.network implied.network
          shell := orImplied declared.shell implied.shell
          agentMessage := orImplied declared.agentMessage implied.agentMessage
          agentSpawn := declared.agentSpawn || implied.agentSpawn
          memoryRead := orImplied declared.memoryRead implied.memoryRead
          memoryWrite := orImplied declared.memoryWrite implied.memoryWrite
          ofpDiscover := declared.ofpDiscover || implied.ofpDiscover
          ofpConnect := orImplied declared.ofpConnect implied.ofpConnect }
      else declared

/-- `manifest_to_capabilities`. -/
def manifestToCapabilities (manifest : AgentManifest) : List Capability :=
  let caps := effectiveCapabilities manifest
  caps.network.map .netConnect ++ caps.tools.map .toolInvoke ++ caps.memoryRead.map .memoryRead ++
    caps.memoryWrite.map .memoryWrite ++ (if caps.agentSpawn then [.agentSpawn] else []) ++
    caps.agentMessage.map .agentMessage ++ caps.shell.map .shellExec ++
    (if caps.ofpDiscover then [.ofpDiscover] else []) ++ caps.ofpConnect.map .ofpConnect

/-- `apply_budget_defaults`, of the limits in tokens. -/
def applyBudgetDefaults (defaultMaxLlmTokensPerHour : Nat) (resources : ResourceQuota) :
    ResourceQuota :=
  if 0 < defaultMaxLlmTokensPerHour then
    { resources with maxLlmTokensPerHour := defaultMaxLlmTokensPerHour }
  else resources

/-! ### Conditions of a proactive agent -/

/-- `s.strip_prefix(pat)`. -/
def stripPrefix (s pat : String) : Option String :=
  if startsWith s pat then some (String.ofList (s.toList.drop pat.length)) else none

/-- `parse_condition`. -/
def parseCondition (lib : Library) (condition : String) : Option TriggerPattern :=
  let condition := trim condition
  if toAsciiLowercase condition == "all" then some .all
  else
    match stripPrefix condition "event:" with
    | some eventKind =>
        match lib.toLowercase (trim eventKind) with
        | "agent_spawned" => some (.agentSpawned "*")
        | "agent_terminated" => some .agentTerminated
        | "lifecycle" => some .lifecycle
        | "system" => some .system
        | "memory_update" => some .memoryUpdate
        | _ => none
    | none => (stripPrefix condition "memory:").map fun key => .memoryKeyPattern (trim key)

/-- The prompt of the trigger for a condition. -/
def proactivePrompt (condition name : String) : String :=
  s!"[PROACTIVE ALERT] Condition '{condition}' matched: \x7b\x7bevent\x7d\x7d. " ++
    s!"Review and take appropriate action. Agent: {name}"

end ArmaraOS.Kernel.Agents
