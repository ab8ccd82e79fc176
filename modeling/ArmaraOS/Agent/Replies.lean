import Mathlib.Data.List.Sort
import ArmaraOS.Agent.AinlGate

/-!
What the agent loop reads from a reply and says back: reply directives
(`reply_directives.rs`), the detectors of claimed but missing actions, the check of
required parameters and the guidance after tool errors (`agent_loop.rs`).
-/

namespace ArmaraOS.Agent

open ArmaraOS.Text

/-! ### Directives -/

/-- `DirectiveSet`. -/
structure DirectiveSet where
  replyTo : Option String := none
  currentThread : Bool := false
  silent : Bool := false

/-- `parse_tag`. -/
def parseTag (content : List Char) (directives : DirectiveSet) : DirectiveSet :=
  let trimmed := trimChars isWhitespace content
  if "reply:".toList.isPrefixOf trimmed then
    let id := trimChars isWhitespace (trimmed.drop 6)
    if id.isEmpty then directives else { directives with replyTo := some (String.ofList id) }
  else if trimmed = "@current".toList then { directives with currentThread := true }
  else if trimmed = "silent".toList then { directives with silent := true }
  else directives

/-- The loop of `consume` on a final chunk. A tag is skipped by as many characters
as it has bytes; `fuel` bounds the characters left. -/
def consumeFinal : Nat → List Char → DirectiveSet → List Char × DirectiveSet
  | 0, _, directives => ([], directives)
  | _ + 1, [], directives => ([], directives)
  | fuel + 1, c :: cs, directives =>
      let rest := cs.drop 1
      if c = '[' ∧ cs.head? = some '[' ∧ occursIn "]]".toList rest = true then
        let tag := beforeFirst "]]".toList rest
        consumeFinal fuel ((c :: cs).drop (byteLength tag + 4)) (parseTag tag directives)
      else
        let out := consumeFinal fuel cs directives
        (c :: out.1, out.2)

/-- `parse_directives`. -/
def parseDirectives (text : String) : String × DirectiveSet :=
  let out := consumeFinal text.toList.length text.toList {}
  (String.ofList (trimChars isWhitespace out.1), out.2)

/-- `assistant_intended_silent`. -/
def assistantIntendedSilent (visible : String) (directives : DirectiveSet) : Bool :=
  let t := trim visible
  t == "NO_REPLY" || toAsciiLowercase t == "[silent]" || directives.silent

/-! ### Claims without action -/

/-- `phantom_action_detected`. -/
def phantomActionDetected (lib : Library) (text : String) : Bool :=
  let lower := lib.toLowercase text
  ["sent ", "posted ", "emailed ", "delivered ", "forwarded "].any (contains lower) &&
    ["telegram", "whatsapp", "slack", "discord", "email", "channel", "message sent",
      "successfully sent", "has been sent"].any (contains lower)

/-- `process_phantom_detected`. -/
def processPhantomDetected (lib : Library) (text : String) (toolsCalled : List String) : Bool :=
  let lower := lib.toLowercase text
  (!toolsCalled.contains "process_start" && !toolsCalled.contains "script_run" &&
      !toolsCalled.contains "workspace_action" &&
    ["is up in background", "started it now", "starting it now", "starting now", "started now",
      "proc_1 is up", "process started", "bot started", "is now running", "is now up"].any
      (contains lower)) ||
  (!toolsCalled.contains "process_kill" && !toolsCalled.contains "process_stop" &&
    ["killed it", "stopped the bot", "process stopped", "process killed", "is now stopped"].any
      (contains lower))

/-- `scheduling_phantom_detected`. -/
def schedulingPhantomDetected (lib : Library) (userMessage assistantText : String)
    (toolsCalled : List String) : Bool :=
  let u := lib.toLowercase userMessage
  let a := lib.toLowercase assistantText
  !toolsCalled.any (fun n => decide (n ∈ ["schedule_create", "schedule_list", "schedule_delete",
    "cron_create", "cron_list", "cron_cancel"])) &&
  ((contains u "schedule" || contains u "cron") &&
    ["every ", "daily", "weekly", "recurring", "attach", "ainl", "timer"].any (contains u)) &&
  (contains a "scheduled" || contains a "cron job" || contains a "set up a schedule" ||
    (contains a "added to" && (contains a "scheduler" || contains a "schedule")) ||
    contains a "will run every" || contains a "runs every" ||
    (contains a "created" && contains a "job" && contains a "recur"))

/-- `terminal_handoff_detected`. -/
def terminalHandoffDetected (lib : Library) (userMessage assistantText : String)
    (toolsCalled : List String) : Bool :=
  let u := lib.toLowercase userMessage
  let t := lib.toLowercase assistantText
  ["can you start", "start the", "stop the", "restart", "run it", "fix it", "please fix",
    "do it"].any (contains u) &&
  !(["what command", "show command", "terminal command", "copy paste"].any (contains u)) &&
  (["paste into terminal", "terminal fix", "terminal (", "run this", "copy", "nohup",
      "lsof -ti"].any (contains t) ||
    (contains t "```" && (contains t "bash" || contains t "sh"))) &&
  (!toolsCalled.any (fun n => decide (n ∈ ["shell_exec", "process_start", "process_kill",
      "script_run", "workspace_action", "apply_patch", "file_write"])) ||
    ["what to do next", "next:", "share curl", "post-restart"].any (contains t))

/-! ### Required parameters -/

/-- The description of a missing field. -/
def missingFieldText (properties : Option Json) (field : String) : String :=
  match properties.bind (Json.get field) with
  | none => field
  | some f =>
      let ty := ((f.get "type").bind Json.asStr).getD "any"
      let desc := ((f.get "description").bind Json.asStr).getD ""
      if desc.isEmpty then s!"{field} ({ty})" else s!"{field} ({ty}): {desc}"

/-- The fields of `required` that an input lacks or holds as null. -/
def missingFields (input : Json) (required : List Json) : List String :=
  (required.filterMap Json.asStr).filter fun field =>
    match input.get field with
    | none => true
    | some value => value == .null

/-- `Value::as_array`. -/
def asArray : Json → Option (List Json)
  | .arr items => some items
  | _ => none

/-- `missing_required_params_error`. -/
def missingRequiredParamsError (lib : Library) (toolName : String) (input : Json)
    (toolDef : ToolDefinition) : Option String :=
  match (toolDef.inputSchema.get "required").bind asArray with
  | none => none
  | some required =>
      let missing := missingFields input required
      if missing.isEmpty then none
      else
        let fields := missing.map (missingFieldText (toolDef.inputSchema.get "properties"))
        some (s!"Error: '{toolName}' called without required parameter(s). " ++
          s!"Received: {lib.jsonToString input}. " ++
          "Missing required field(s) — " ++ join "; " fields ++ ". " ++
          "Retry with all required fields supplied.")

/-! ### Guidance after errors -/

/-- `ToolErrorTracker`. -/
structure ToolErrorTracker where
  lastFingerprint : Option String := none
  sameFingerprintStreak : Nat := 0

/-- The tool name and content of an error result. -/
def errorOfBlock : ContentBlock → Option (String × String)
  | .toolResult _ name content true => some (name, content)
  | _ => none

/-- A loop-guard message. -/
def isLoopGuardText (content : String) : Bool :=
  startsWith content "Blocked:" || startsWith content "Circuit breaker:"

/-- The fingerprint of a batch of errors. -/
def errorFingerprint (errors : List (String × String)) : String :=
  join "|" ((errors.map fun e => s!"{e.1}:{takeChars 60 e.2}").insertionSort (· ≤ ·))

/-- The error text of a call without its parameters. -/
def mentionsMissingParam (content : String) : Bool :=
  (contains content "Missing '" && contains content "' parameter") ||
    contains content "Missing required" || contains content "missing required"

/-- `ainl_mcp_batch_is_adapter_registration_loop`. -/
def ainlMcpBatchIsAdapterRegistrationLoop (errors : List (String × String)) : Bool :=
  !errors.isEmpty && errors.all (fun e => startsWith e.1 "mcp_ainl_") &&
    errors.any fun e => looksLikeAinlAdapterRegistrationFailure e.2

/-- The guidance text by the length of the streak. `failingTools` is the list of
the failing tools in the iteration order of a `HashSet`; `correctiveHint` is
`corrective_hint_for_failures`. -/
def guidanceText (correctiveHint : List (String × String) → Option String)
    (failingTools : List String) (errors : List (String × String)) (nonDenialErrors : Nat) :
    Nat → Option String
  | 1 =>
      let toolList := join ", " failingTools
      if errors.any (fun e => mentionsMissingParam e.2) then
        some (s!"[System: Tool call(s) to [{toolList}] are missing required parameters " ++
          "(received empty or incomplete input). Re-read the tool schema and " ++
          "supply all required fields — do not call tools with empty \x7b\x7d inputs.]")
      else
        let suffix := match correctiveHint errors with
          | some h => s!" Hint: {h}"
          | none => ""
        some (s!"[System: {nonDenialErrors} tool call(s) failed ([{toolList}]). " ++
          "Do not invent results from failed calls or take actions downstream of " ++
          "failed outputs. If the task is not finished, retry with different " ++
          s!"parameters, a different tool, or a different approach.{suffix}]")
  | 2 =>
      if ainlMcpBatchIsAdapterRegistrationLoop errors then
        some ("[System: The same AINL adapter-registration failure repeated. " ++
          "This is not a reason to switch to a totally different approach: " ++
          "copy `suggested_adapters` from the last MCP JSON into the next " ++
          "`mcp_ainl_ainl_run` call, fill host allowlists / sandbox roots, and re-run. " ++
          "Do not delete `fs`/`http`/`cache`/`sqlite` usage from the graph to \"pass\" " ++
          "unless the user explicitly changes requirements.]")
      else
        some ("[System: The same tool error has occurred twice in a row. " ++
          "You are not making progress. Stop using the failing tool(s), " ++
          "recall your original goal, and switch to a completely different method " ++
          "to accomplish it.]")
  | _ => none

/-- The streak after a batch of errors. -/
def ToolErrorTracker.note (t : ToolErrorTracker) (errors : List (String × String)) :
    ToolErrorTracker :=
  let fingerprint := errorFingerprint errors
  if t.lastFingerprint = some fingerprint then
    { t with sameFingerprintStreak := t.sameFingerprintStreak + 1 }
  else { lastFingerprint := some fingerprint, sameFingerprintStreak := 1 }

/-- `compute_guidance`. -/
def ToolErrorTracker.computeGuidance (correctiveHint : List (String × String) → Option String)
    (failingTools : List String) (t : ToolErrorTracker) (blocks : List ContentBlock)
    (denialCount : Nat) : ToolErrorTracker × Option String :=
  let errors := blocks.filterMap errorOfBlock
  if errors.isEmpty then ({}, none)
  else
    let t := t.note errors
    if errors.all fun e => isLoopGuardText e.2 then (t, none)
    else if errors.length - denialCount = 0 then (t, none)
    else
      (t, guidanceText correctiveHint failingTools errors (errors.length - denialCount)
        t.sameFingerprintStreak)

/-! ### Model names -/

/-- `strip_provider_prefix`. -/
def stripProviderPrefix (model provider : String) : String :=
  if startsWith model (provider ++ "/") || startsWith model (provider ++ ":") then
    String.ofList (model.toList.drop (provider.toList.length + 1))
  else model

end ArmaraOS.Agent
