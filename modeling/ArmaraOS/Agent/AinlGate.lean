import ArmaraOS.Agent.Library
import ArmaraOS.Lib.Text
import ArmaraOS.Types.Llm

/-!
The AINL authoring gate of `openfang-runtime/src/agent_loop.rs`: the pending
failure of a validate, compile or run call, the proof of the last success, the
hash of the last strictly validated program, and the texts made from them. A
`HashMap` of calls by id is the list of its insertions, newest first.
-/

namespace ArmaraOS.Agent

open ArmaraOS.Text

/-- `PendingAinlAuthoringFailure`. -/
structure PendingAinlAuthoringFailure where
  toolName : String
  toolUseId : Option String
  targetPath : Option String
  targetCodeSha256 : Option String
  strict : Option Bool
  summary : String
  blockedFinalAttempts : Nat
deriving DecidableEq

/-- `MAX_AINL_AUTHORING_PREMATURE_FINAL_ATTEMPTS`. -/
def maxAinlAuthoringPrematureFinalAttempts : Nat := 3

/-- `AinlProofCategory`. -/
inductive AinlProofCategory where
  | strictValidRealFile
  | strictValidMockOnly
  | nonStrictValidRealFile
  | mockValidOnly
  | runCompletedRealFile
  | runCompletedMockOnly
deriving DecidableEq

/-- `AinlProof`. -/
structure AinlProof where
  toolName : String
  toolUseId : String
  targetPath : Option String
  targetCodeSha256 : Option String
  strict : Option Bool
  category : AinlProofCategory

/-- `is_ainl_authoring_gate_tool`. -/
def isAinlAuthoringGateTool (toolName : String) : Bool :=
  decide (toolName ∈ ["mcp_ainl_ainl_validate", "mcp_ainl_ainl_compile", "mcp_ainl_ainl_run"])

/-- The part of a tool result that is read as JSON: what stands before the first
loop-guard annotation. -/
def resultJsonText (content : String) : String :=
  trim (splitNext (trim content) "\n\n[LOOP GUARD]")

/-- `tool_result_is_ainl_tool_wiring_error`. -/
def toolResultIsAinlToolWiringError (lib : Library) (content : String) : Bool :=
  match lib.jsonFromStr (resultJsonText content) with
  | none => false
  | some v =>
      (v.get "tool_call_error").bind Json.asBool == some true ||
        (v.get "error").bind Json.asStr == some "missing required argument: code"

/-- `tool_result_json_ok_true`. -/
def toolResultJsonOkTrue (lib : Library) (content : String) : Bool :=
  ((lib.jsonFromStr (resultJsonText content)).bind fun v => (v.get "ok").bind Json.asBool)
    == some true

/-- The `path` argument of a call. -/
def pathArg (input : Json) : Option String := (input.get "path").bind Json.asStr

/-- The `code` argument of a call. -/
def codeArg (input : Json) : Option String := (input.get "code").bind Json.asStr

/-- The `strict` argument of a call. -/
def strictArg (input : Json) : Option Bool := (input.get "strict").bind Json.asBool

/-- `extract_ainl_target_from_tool_call`: path, hash of the code, strict flag. -/
def extractAinlTargetFromToolCall (lib : Library) (toolCall : ToolCall) :
    Option String × Option String × Option Bool :=
  (pathArg toolCall.input, (codeArg toolCall.input).map lib.sha256Hex, strictArg toolCall.input)

/-- `user_explicitly_requested_non_strict`. -/
def userExplicitlyRequestedNonStrict (userMessage : String) : Bool :=
  ["strict=false", "strict false", "non-strict", "non strict", "not strict", "without strict"].any
    (contains (toAsciiLowercase userMessage))

/-- `tool_calls_by_id`: reading it gives the call inserted last for an id. -/
def toolCallsById (pending : List ToolCall) : List (String × ToolCall) :=
  (pending.map fun tc => (tc.id, tc)).reverse

/-- One iteration of `update_last_strict_validate_sha256`. -/
def updateLastStrictStep (lib : Library) (calls : List (String × ToolCall))
    (last : Option String) (b : ContentBlock) : Option String :=
  match b with
  | .toolResult id name content false =>
      if name = "mcp_ainl_ainl_validate" ∧ toolResultJsonOkTrue lib content = true then
        match calls.lookup id with
        | none => last
        | some tc =>
            if strictArg tc.input = some true then
              match codeArg tc.input with
              | some code => some (lib.sha256Hex code)
              | none => last
            else last
      else last
  | _ => last

/-- `update_last_strict_validate_sha256`. -/
def updateLastStrictValidateSha256 (lib : Library) (last : Option String)
    (blocks : List ContentBlock) (calls : List (String × ToolCall)) : Option String :=
  blocks.foldl (updateLastStrictStep lib calls) last

/-- The refusal of `ainl_run_requires_strict_validate_first`. -/
def strictValidateFirstMessage : String :=
  "Blocked: `mcp_ainl_ainl_run` requires a successful strict validate of the same `code` first. " ++
    "Call `mcp_ainl_ainl_validate` with `\x7bcode: <full source>, strict: true\x7d` and only then " ++
    "re-run."

/-- `ainl_run_requires_strict_validate_first`. -/
def ainlRunRequiresStrictValidateFirst (lib : Library) (toolCall : ToolCall)
    (lastStrictValidateSha256 : Option String) (allowNonStrict : Bool) : Option String :=
  if toolCall.name ≠ "mcp_ainl_ainl_run" then none
  else if allowNonStrict = true then none
  else match codeArg toolCall.input with
    | none => none
    | some code =>
        if some (lib.sha256Hex code) ≠ lastStrictValidateSha256 then
          some strictValidateFirstMessage
        else none

/-- `proof_category_for_success`. -/
def proofCategoryForSuccess (toolName : String) (targetPath : Option String)
    (strict : Option Bool) : AinlProofCategory :=
  if toolName = "mcp_ainl_ainl_run" then
    if targetPath.isSome then .runCompletedRealFile else .runCompletedMockOnly
  else match strict.getD true, targetPath.isSome with
    | true, true => .strictValidRealFile
    | true, false => .strictValidMockOnly
    | false, true => .nonStrictValidRealFile
    | false, false => .mockValidOnly

/-- The closure of `ainl_proof_from_tool_results`. -/
def ainlProofOfBlock (lib : Library) (calls : List (String × ToolCall)) :
    ContentBlock → Option AinlProof
  | .toolResult id name content false =>
      if isAinlAuthoringGateTool name && toolResultJsonOkTrue lib content then
        (calls.lookup id).map fun tc =>
          let target := extractAinlTargetFromToolCall lib tc
          { toolName := name
            toolUseId := id
            targetPath := target.1
            targetCodeSha256 := target.2.1
            strict := target.2.2
            category := proofCategoryForSuccess name target.1 target.2.2 }
      else none
  | _ => none

/-- `ainl_proof_from_tool_results`: the last success of the round. -/
def ainlProofFromToolResults (lib : Library) (blocks : List ContentBlock)
    (calls : List (String × ToolCall)) : Option AinlProof :=
  blocks.reverse.findSome? (ainlProofOfBlock lib calls)

/-- The closure of `ainl_authoring_failure_from_tool_results`. -/
def ainlFailureOfBlock (lib : Library) (calls : List (String × ToolCall)) :
    ContentBlock → Option PendingAinlAuthoringFailure
  | .toolResult id name content true =>
      if isAinlAuthoringGateTool name && !toolResultIsAinlToolWiringError lib content then
        let target :=
          ((calls.lookup id).map (extractAinlTargetFromToolCall lib)).getD (none, none, none)
        some
          { toolName := name
            toolUseId := some id
            targetPath := target.1
            targetCodeSha256 := target.2.1
            strict := target.2.2
            summary := takeChars 1200 content
            blockedFinalAttempts := 0 }
      else none
  | _ => none

/-- `ainl_authoring_failure_from_tool_results`: the first failure of the round. -/
def ainlAuthoringFailureFromToolResults (lib : Library) (blocks : List ContentBlock)
    (calls : List (String × ToolCall)) : Option PendingAinlAuthoringFailure :=
  blocks.findSome? (ainlFailureOfBlock lib calls)

/-- The test of `ainl_authoring_success_in_tool_results` on the target of a
success: every piece of identity that the pending failure captured matches. -/
def matchesPendingTarget (lib : Library) (p : PendingAinlAuthoringFailure) (tc : ToolCall)
    (allowNonStrict : Bool) : Bool :=
  (p.targetPath.isNone || pathArg tc.input == p.targetPath) &&
    (p.targetCodeSha256.isNone ||
      (codeArg tc.input).map lib.sha256Hex == p.targetCodeSha256) &&
    (p.strict.isNone || allowNonStrict || strictArg tc.input == p.strict)

/-- The closure of `ainl_authoring_success_in_tool_results`. -/
def ainlSuccessOfBlock (lib : Library) (pending : Option PendingAinlAuthoringFailure)
    (calls : List (String × ToolCall)) (allowNonStrict : Bool) : ContentBlock → Bool
  | .toolResult id name content false =>
      isAinlAuthoringGateTool name && toolResultJsonOkTrue lib content &&
        match pending with
        | none => true
        | some p =>
            p.toolName == name &&
              ((p.targetPath.isNone && p.targetCodeSha256.isNone && p.strict.isNone) ||
                match calls.lookup id with
                | none => false
                | some tc => matchesPendingTarget lib p tc allowNonStrict)
  | _ => false

/-- `ainl_authoring_success_in_tool_results`. -/
def ainlAuthoringSuccessInToolResults (lib : Library) (blocks : List ContentBlock)
    (pending : Option PendingAinlAuthoringFailure) (calls : List (String × ToolCall))
    (allowNonStrict : Bool) : Bool :=
  blocks.any (ainlSuccessOfBlock lib pending calls allowNonStrict)

/-! ### Texts -/

/-- `looks_like_ainl_adapter_registration_failure`. -/
def looksLikeAinlAdapterRegistrationFailure (content : String) : Bool :=
  let lc := toAsciiLowercase content
  contains lc "adapter_registration_error" || contains lc "missing_mcp_configurable" ||
    contains lc "\"error_kind\": \"adapter_registration\"" ||
    contains lc "\"error_kind\":\"adapter_registration\"" ||
    (contains lc "adapter not registered" &&
      (contains lc "suggested_adapters" || contains lc "runtime_readiness"))

/-- `ainl_authoring_tool_label`. -/
def ainlAuthoringToolLabel (toolName : String) : String :=
  if toolName = "mcp_ainl_ainl_validate" then "validation"
  else if toolName = "mcp_ainl_ainl_compile" then "compilation"
  else if toolName = "mcp_ainl_ainl_run" then "execution"
  else "authoring"

/-- The ` (target: …)` part of the repair prompt. -/
def targetBits (pending : PendingAinlAuthoringFailure) : String :=
  let bits :=
    (pending.toolUseId.map fun id => s!"tool_use_id={takeChars 12 id}").toList
      ++ (pending.targetPath.map fun p => s!"path={p}").toList
      ++ (pending.targetCodeSha256.map fun h => s!"code_sha256={takeChars 12 h}").toList
      ++ (pending.strict.map fun s => s!"strict={s}").toList
  if bits.isEmpty then "" else " (target: " ++ join ", " bits ++ ")"

/-- The supplement of the repair prompt for an adapter registration failure. -/
def adapterRegistrationSupplement (pending : PendingAinlAuthoringFailure) : String :=
  if pending.toolName = "mcp_ainl_ainl_run" ∧
      looksLikeAinlAdapterRegistrationFailure pending.summary = true then
    "\n\nSupplement: If the JSON mentions `suggested_adapters` / `adapter_registration_error`, " ++
      "this is a **host configuration** gap, not an AINL syntax bug. Retry `mcp_ainl_ainl_run` with " ++
      "the same `code` and pass the suggested `adapters` object (fill in absolute `fs.root`, " ++
      "`http.allow_hosts`, etc.). Do not strip `fs`/`http`/`cache`/`sqlite` usage from the program " ++
      "just to obtain `ok:true` unless the user explicitly narrows the task."
  else ""

/-- `ainl_authoring_repair_required_prompt`. -/
def ainlAuthoringRepairRequiredPrompt (pending : PendingAinlAuthoringFailure) : String :=
  let label := ainlAuthoringToolLabel pending.toolName
  let tool := pending.toolName
  s!"[System: `{tool}` reported an AINL {label} failure{targetBits pending}. " ++
    "You may not claim the workflow is fixed, ready, executed, scheduled, or successful yet. " ++
    "Do not downgrade to strict=false or call the strict failure \"non-blocking\". " ++
    "You must use file_read/file_write/apply_patch as needed to fix the diagnostic, then call " ++
    s!"`{tool}` again with the updated source/arguments. Continue this repair → retry loop " ++
    s!"until `{tool}` returns `ok: true`.\n\nLast AINL {label} failure:\n" ++
    s!"{pending.summary}{adapterRegistrationSupplement pending}]"

/-- `format_ainl_proof_provenance`. -/
def formatAinlProofProvenance (proof : AinlProof) : String :=
  let category := match proof.category with
    | .strictValidRealFile => "strict_valid_real_file"
    | .strictValidMockOnly => "mock_valid_only_strict"
    | .nonStrictValidRealFile => "non_strict_valid_real_file"
    | .mockValidOnly => "mock_valid_only"
    | .runCompletedRealFile => "run_completed_real_file"
    | .runCompletedMockOnly => "run_completed_mock_only"
  join ", "
    ([s!"tool={proof.toolName}", s!"tool_use_id={takeChars 12 proof.toolUseId}",
        match proof.targetPath with
        | some p => s!"path={p}"
        | none => "path=<none>"]
      ++ (proof.targetCodeSha256.map fun h => s!"code_sha256={takeChars 12 h}").toList
      ++ (proof.strict.map fun s => s!"strict={s}").toList
      ++ [s!"category={category}"])

/-- `ainl_authoring_unresolved_summary`. -/
def ainlAuthoringUnresolvedSummary (pending : PendingAinlAuthoringFailure)
    (lastProof : Option AinlProof) : String :=
  let label := ainlAuthoringToolLabel pending.toolName
  let identityNote :=
    if pending.targetPath.isNone && pending.targetCodeSha256.isNone then
      "\n\nNote: the failing tool call did not include a resolvable `path` or `code` identity — a " ++
        "later `ok:true` on a different snippet does **not** clear this obligation until you " ++
        "re-run the same tool with the real file source in `code`.\n"
    else ""
  let proofLine := match lastProof with
    | some p => s!"\n\nLast proven AINL status (provenance):\n{formatAinlProofProvenance p}"
    | none => ""
  let mockOnly : Bool := match lastProof with
    | some p => pending.targetPath.isSome && p.category == .strictValidMockOnly &&
        (pending.toolName == "mcp_ainl_ainl_validate" ||
          pending.toolName == "mcp_ainl_ainl_compile")
    | none => false
  let categoryNote :=
    if mockOnly then
      "\n\nThe last successful strict check was **mock-only** (no `path` on that " ++
        "validate/compile call) while this failure targets a **real file** — treat that as " ++
        "**not** satisfying repair for the on-disk workflow.\n"
    else ""
  s!"I could not complete the task because `{pending.toolName}` still reports an AINL {label} " ++
    "failure. I will not claim it ran successfully until that tool returns `ok: true`.\n\n" ++
    s!"Last AINL {label} failure:\n{pending.summary}{identityNote}{categoryNote}{proofLine}"

end ArmaraOS.Agent
