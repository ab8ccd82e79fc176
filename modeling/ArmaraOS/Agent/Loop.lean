import ArmaraOS.Agent.Context
import ArmaraOS.Agent.Retry
import ArmaraOS.Session.Heartbeat
import ArmaraOS.Session.Repair

/-!
`run_agent_loop` (`openfang-runtime/src/agent_loop.rs`), stage by stage in source
order. Left out are the writes that nothing in the loop reads back: logging,
metrics, graph memory, learning, interaction memory, phase callbacks and the
hooks other than `BeforeToolCall`.
-/

namespace ArmaraOS.Agent

open ArmaraOS.Text ArmaraOS.Session

variable {σ : Type}

/-! ### Start of the turn -/

/-- The system prompt of `run_agent_loop`. -/
def systemPromptOf (cfg : TurnConfig) : String :=
  cfg.prompt.base ++ cfg.prompt.memories ++ cfg.prompt.orchestration ++ cfg.prompt.graphMemory
    ++ (if cfg.plannerPathEligible && cfg.suppressesPersona then "" else cfg.prompt.persona)
    ++ cfg.prompt.readiness

/-- The message that the turn adds to the session. -/
def turnUserMessage (cfg : TurnConfig) : Message :=
  match cfg.userBlocks with
  | some blocks => .userWithBlocks blocks
  | none => .user cfg.sessionUserMessage

/-- An Image block. -/
def isImage : ContentBlock → Bool
  | .image .. => true
  | _ => false

/-- The removal of Image blocks from a session message. -/
def stripImages (m : Message) : Message :=
  match m.content with
  | .text _ => m
  | .blocks bs =>
      if bs.any isImage then
        let kept := bs.filter fun b => !isImage b
        { m with content := .blocks (if kept.isEmpty then [.text "[Image processed]" none] else kept) }
      else m

/-- `messages.insert(0, …)` of the canonical context. -/
def insertCanonicalContext (cfg : TurnConfig) (messages : List Message) : List Message :=
  match cfg.canonicalContext with
  | some text => if text.isEmpty then messages else .user text :: messages
  | none => messages

/-- The trim to `max_history_messages`, with its repair. -/
def trimHistory (cfg : TurnConfig) (messages : List Message) : List Message :=
  if cfg.maxHistoryMessages < messages.length then
    validateAndRepair (messages.drop (messages.length - cfg.maxHistoryMessages))
  else messages

/-- The working messages at the start of the turn, before compression. -/
def openingMessages (cfg : TurnConfig) (session : List Message) : List Message :=
  trimHistory cfg (insertCanonicalContext cfg (validateAndRepair
    ((session ++ [turnUserMessage cfg]).filter fun m => m.role != .system)))

/-- The state before the first iteration. -/
def startTurn (cfg : TurnConfig) (session : List Message) (world : σ) : LoopState σ :=
  let composed := cfg.rules.compose (systemPromptOf cfg) (openingMessages cfg session)
  { world := world
    systemPrompt := composed.1
    session := (session ++ [turnUserMessage cfg]).map stripImages
    messages := composed.2
    loopGuard := { config := cfg.loopGuardConfig } }

/-! ### Before the request -/

/-- The drain of the `/btw` channel. -/
def injectBtw (W : World σ) (st : LoopState σ) : LoopState σ :=
  let out := W.drainBtw st.world
  { st with
    world := out.2
    messages := st.messages ++ out.1.map fun text => .user s!"[btw] {text}" }

/-- The walk of the redirect, from the last message backwards: `budget` Assistant
messages may still be removed. -/
def pruneAssistants : Nat → List Message → List Message
  | 0, messages => messages
  | _ + 1, [] => []
  | budget + 1, m :: rest =>
      if m.role = .assistant then pruneAssistants budget rest
      else m :: pruneAssistants (budget + 1) rest

/-- The messages that a redirect leaves. -/
def pruneForRedirect (messages : List Message) : List Message :=
  (pruneAssistants 8 messages.reverse).reverse

/-- The directive that a redirect injects. -/
def redirectMessage (text : String) : Message :=
  .system ("[REDIRECT] STOP your current plan immediately. Do not continue previous steps. " ++
    s!"New directive from user: {text}")

/-- The `/redirect` override. -/
def applyRedirect (W : World σ) (st : LoopState σ) : LoopState σ :=
  let out := W.recvRedirect st.world
  match out.1 with
  | some text =>
      { st with
        world := out.2
        messages := pruneForRedirect st.messages ++ [redirectMessage text] }
  | none => { st with world := out.2 }

/-- `recover_from_overflow` on the working messages. -/
def overflowRecovery (cfg : TurnConfig) (st : LoopState σ) : List Message × RecoveryStage :=
  recoverFromOverflow cfg.lib st.messages st.systemPrompt cfg.tools cfg.ctxWindow

/-- Overflow recovery, followed by a repair when it acted. -/
def recoverOverflow (cfg : TurnConfig) (st : LoopState σ) : LoopState σ :=
  let recovery := overflowRecovery cfg st
  { st with
    messages := if recovery.2 = .none then recovery.1 else validateAndRepair recovery.1 }

/-- The context guard. -/
def guardContext (cfg : TurnConfig) (st : LoopState σ) : LoopState σ :=
  { st with messages := applyContextGuard st.messages cfg.ctxWindow }

/-- The request of an iteration. -/
def completionRequest (cfg : TurnConfig) (st : LoopState σ) : CompletionRequest :=
  { model := stripProviderPrefix cfg.model cfg.provider
    messages := st.messages
    tools := cfg.tools
    maxTokens := cfg.maxTokens
    temperature := cfg.temperature
    system := some st.systemPrompt }

/-- All that happens to the working messages before the request. -/
def prepareRequest (W : World σ) (cfg : TurnConfig) (st : LoopState σ) : LoopState σ :=
  guardContext cfg (recoverOverflow cfg (applyRedirect W (injectBtw W st)))

/-! ### The planner path -/

/-- The result of a performed call: what the world answered, or the timeout. -/
def callOutcome (tc : ToolCall) (outcome : Option ToolOutcome) : ToolResult :=
  match outcome with
  | some o => ⟨tc.id, o.content, o.isError⟩
  | none => ⟨tc.id, s!"Tool '{tc.name}' timed out after {toolTimeoutFor tc.name}s.", true⟩

/-- `dispatch_planned_tool_call`: one plan step, through `execute_tool`. -/
def dispatchPlannedToolCall (W : World σ) (cfg : TurnConfig) (step : ToolCall)
    (st : LoopState σ) : LoopState σ :=
  match resolveCall cfg.allowedToolNames step.name step.input with
  | .refused _ => st
  | .perform invocation =>
      let out := W.runBatch [some invocation] st.world
      let result := callOutcome step (out.1 0)
      { st with
        world := out.2
        log := st.log ++
          [.toolStarted invocation, .toolFinished invocation result.content result.isError] }

/-- The native planner path, at the first iteration. A plan that fell back leaves
only its effects behind. -/
def runPlanner (W : World σ) (cfg : TurnConfig) (st : LoopState σ) : Step σ :=
  let out := W.plan st.messages st.world
  let st := { st with world := out.2 }
  match out.1 with
  | .unusable => .next st
  | .executed usage steps summary =>
      let st := steps.foldl (fun st step => dispatchPlannedToolCall W cfg step st) st
      match summary with
      | none => .next st
      | some text =>
          let session := st.session ++ [.assistant text]
          let saved := W.saveSession session st.world
          let st := { st with session := session, world := saved.2 }
          match saved.1 with
          | some e => .done (.error (.memory e)) st
          | none =>
              .done (.ok
                { response := text
                  totalUsage :=
                    { st.totalUsage with
                      inputTokens := st.totalUsage.inputTokens + usage.inputTokens
                      outputTokens := st.totalUsage.outputTokens + usage.outputTokens }
                  iterations := 1
                  outcome := .plannerCompleted }) st

/-! ### After the response -/

/-- The token counts of a response, and the fallback that served it. -/
def recordResponse (response : CompletionResponse) (used : Option LlmFallbackUsed)
    (st : LoopState σ) : LoopState σ :=
  { st with
    fallbackUsed := used.orElse fun _ => st.fallbackUsed
    totalUsage :=
      { st.totalUsage with
        inputTokens := st.totalUsage.inputTokens + response.usage.inputTokens
        outputTokens := st.totalUsage.outputTokens + response.usage.outputTokens } }

/-- Fresh ids for the calls found in a text. -/
def assignIds (W : World σ) : List (String × Json) → σ → List ToolCall × σ
  | [], w => ([], w)
  | (name, input) :: rest, w =>
      let fresh := W.newUuid w
      let out := assignIds W rest fresh.2
      (⟨"recovered_" ++ fresh.1, name, input⟩ :: out.1, out.2)

/-- A ToolUse block for a call. -/
def toolUseBlock (tc : ToolCall) : ContentBlock := .toolUse tc.id tc.name tc.input none

/-- The recovery of tool calls written as text. -/
def recoverTextCalls (W : World σ) (cfg : TurnConfig) (response : CompletionResponse)
    (st : LoopState σ) : CompletionResponse × LoopState σ :=
  if (response.stopReason = .endTurn ∨ response.stopReason = .stopSequence) ∧
      response.toolCalls = [] then
    let found := cfg.rules.recoverTextToolCalls response.text cfg.tools
    if found.isEmpty then (response, st)
    else
      let calls := assignIds W found st.world
      ({ response with
          toolCalls := calls.1
          stopReason := .toolUse
          content := calls.1.map toolUseBlock },
        { st with world := calls.2 })
  else (response, st)

/-- Add messages to the working messages only. -/
def LoopState.prompt (st : LoopState σ) (added : List Message) : LoopState σ :=
  { st with messages := st.messages ++ added }

/-- The result fields that every way of ending the loop fills alike. -/
def loopResult (st : LoopState σ) (iterations : Nat) (response : String)
    (outcome : AgentLoopOutcome) : AgentLoopResult :=
  { response := response
    totalUsage := st.totalUsage
    iterations := iterations
    outcome := outcome
    fallbackUsed := st.fallbackUsed }

/-- Add the reply to the session and save it, whether or not the store accepts it. -/
def closeSession (W : World σ) (st : LoopState σ) (response : String) : LoopState σ :=
  let session := st.session ++ [.assistant response]
  { st with session := session, world := (W.saveSession session st.world).2 }

/-- End the turn with a reply that is not the model's own answer. -/
def finishUnsaved (W : World σ) (st : LoopState σ) (iterations : Nat) (response : String)
    (outcome : AgentLoopOutcome) : Step σ :=
  .done (.ok (loopResult st iterations response outcome)) (closeSession W st response)

/-! ### End of turn -/

/-- The prompt after a silent reply that follows tool use. -/
def silentAfterToolsPrompt : String :=
  "[System: You already ran tools this turn. The user cannot rely on tool cards alone — " ++
  "reply with a concise summary of outcomes, errors (if any), and next steps. " ++
  "Do not use NO_REPLY, [SILENT], or [[silent]] for this turn.]"

/-- The reply after repeated empty responses of the backend. -/
def silentFailureText : String :=
  "[The inference backend returned empty responses repeatedly. " ++
  "The model server (e.g. llama-server, OpenRouter, or the AINL inference server's upstream) " ++
  "is likely unreachable or out of credits. Check the daemon logs and `/status`.]"

/-- The reply for an empty response after tool use. -/
def emptyAfterToolsText : String :=
  "[Task completed — the agent executed tools but did not produce a text summary.]"

/-- The reply for an empty response without tool use. -/
def emptyResponseText : String :=
  "[The model returned an empty response. This usually means the model is overloaded, the " ++
  "context is too large, or the API key lacks credits. Try again or check /status.]"

/-- The prompt after a claimed channel action. -/
def phantomActionPrompt : String :=
  "[System: You claimed to perform an action but did not call any tools. " ++
  "You must use the appropriate tool (e.g., channel_send, web_fetch, file_write) " ++
  "to actually perform the action. Do not claim completion without executing tools.]"

/-- The prompt after a claimed schedule. -/
def schedulingPhantomPrompt : String :=
  "[System: The user asked to register recurring / scheduled work with the ArmaraOS kernel " ++
  "scheduler. You must call schedule_create or cron_create (or schedule_list / cron_list first). " ++
  "Jobs persist under ~/.armaraos/cron_jobs.json. Do not claim crontab, launchd, or memory-only " ++
  "storage alone is sufficient.]"

/-- The prompt after terminal instructions in place of an action. -/
def terminalHandoffPrompt : String :=
  "[System: The user asked you to perform the fix directly. Do not return terminal copy/paste " ++
  "instructions. Use available tools now (e.g., " ++
  "file_read/file_write/apply_patch/shell_exec/process_* / script_run) and report the completed " ++
  "result.]"

/-- The prompt after a claimed process action. -/
def processPhantomPrompt : String :=
  "[System: You described starting or stopping a process but did not call " ++
  "process_start or process_kill. You must call the appropriate process " ++
  "management tool to actually perform the action — do not claim the process " ++
  "is running/stopped without having called the tool.]"

/-- A silent end of the turn. -/
def finishSilent (W : World σ) (iteration : Nat) (directives : DirectiveSet)
    (st : LoopState σ) : Step σ :=
  let session := st.session ++ [.assistant "[no reply needed]"]
  let saved := W.saveSession session st.world
  let st := { st with session := session, world := saved.2 }
  match saved.1 with
  | some e => .done (.error (.memory e)) st
  | none =>
      .done (.ok
        { loopResult st (iteration + 1) "" .silent with
          silent := true
          directives :=
            { replyTo := directives.replyTo
              currentThread := directives.currentThread
              silent := true } }) st

/-- The final answer: it is added to the session, old heartbeat turns are pruned,
and the session is saved. -/
def finishAnswer (W : World σ) (cfg : TurnConfig) (iteration : Nat) (text : String)
    (outcome : AgentLoopOutcome) (st : LoopState σ) : Step σ :=
  let text := cfg.rules.compressReply text
  let unpruned := st.session ++ [.assistant text]
  let session := pruneHeartbeatTurns unpruned 10
  let saved := W.saveSession session st.world
  let st :=
    { st with
      session := session
      world := saved.2
      lastToolsCalled := []
      unpruned := some unpruned }
  match saved.1 with
  | some e => .done (.error (.memory e)) st
  | none => .done (.ok (loopResult st (iteration + 1) text outcome)) st

/-- The four checks for claims without action. The first leaves
`last_tools_called` as it is. -/
def checkClaims (W : World σ) (cfg : TurnConfig) (iteration : Nat) (text : String)
    (outcome : AgentLoopOutcome) (st : LoopState σ) : Step σ :=
  if !st.anyToolsExecuted && iteration == 0 && phantomActionDetected cfg.lib text then
    .next (st.prompt [.assistant text, .user phantomActionPrompt])
  else if schedulingPhantomDetected cfg.lib cfg.sessionUserMessage text st.lastToolsCalled then
    .next { st.prompt [.assistant text, .user schedulingPhantomPrompt] with lastToolsCalled := [] }
  else if terminalHandoffDetected cfg.lib cfg.sessionUserMessage text st.lastToolsCalled then
    .next { st.prompt [.assistant text, .user terminalHandoffPrompt] with lastToolsCalled := [] }
  else if processPhantomDetected cfg.lib text st.lastToolsCalled then
    .next { st.prompt [.assistant text, .user processPhantomPrompt] with lastToolsCalled := [] }
  else finishAnswer W cfg iteration text outcome st

/-- A final text while an AINL failure may be pending: the third attempt gives up
and drops the failure, an earlier one is sent back for repair. -/
def checkPending (W : World σ) (cfg : TurnConfig) (iteration : Nat) (text : String)
    (st : LoopState σ) : Step σ :=
  match st.pendingAinlAuthoringFailure with
  | none => checkClaims W cfg iteration text .completed st
  | some pending =>
      let pending :=
        { pending with blockedFinalAttempts := pending.blockedFinalAttempts + 1 }
      if maxAinlAuthoringPrematureFinalAttempts ≤ pending.blockedFinalAttempts then
        checkClaims W cfg iteration (ainlAuthoringUnresolvedSummary pending st.lastAinlProof)
          .ainlAuthoringUnresolved { st with pendingAinlAuthoringFailure := none }
      else
        .next ({ st with pendingAinlAuthoringFailure := some pending }.prompt
          [.assistant text, .user (ainlAuthoringRepairRequiredPrompt pending)])

/-- The guard against an empty final text. -/
def nonEmptyText (text : String) (st : LoopState σ) : String :=
  if isBlank text then
    if st.anyToolsExecuted then emptyAfterToolsText else emptyResponseText
  else text

/-- The retry after an empty response, which gives up at the third silent failure. -/
def retryEmpty (W : World σ) (iteration : Nat) (silentFailure : Bool) (st : LoopState σ) :
    Step σ :=
  let failures := st.consecutiveSilentFailures + if silentFailure then 1 else 0
  let st := { st with consecutiveSilentFailures := failures }
  if 3 ≤ failures then finishUnsaved W st (iteration + 1) silentFailureText .providerFailure
  else
    let messages := if silentFailure then validateAndRepair st.messages else st.messages
    .next { st with
      messages := messages ++ [.assistant "[no response]", .user "Please provide your response."] }

/-- A reply that is not silent. -/
def endTurnReply (W : World σ) (cfg : TurnConfig) (iteration : Nat)
    (response : CompletionResponse) (text : String) (st : LoopState σ) : Step σ :=
  if isBlank text && response.toolCalls.isEmpty && !response.hasAnyContent then
    let silentFailure := response.usage.inputTokens == 0 && response.usage.outputTokens == 0
    if iteration == 0 || silentFailure then retryEmpty W iteration silentFailure st
    else checkPending W cfg iteration (nonEmptyText text st) st
  else
    let st := { st with consecutiveSilentFailures := 0 }
    checkPending W cfg iteration (nonEmptyText text st) st

/-- The `EndTurn | StopSequence` branch. -/
def endTurn (W : World σ) (cfg : TurnConfig) (iteration : Nat)
    (response : CompletionResponse) (st : LoopState σ) : Step σ :=
  let parsed := parseDirectives response.text
  if assistantIntendedSilent parsed.1 parsed.2 then
    match st.pendingAinlAuthoringFailure with
    | some pending =>
        let pending :=
          { pending with blockedFinalAttempts := pending.blockedFinalAttempts + 1 }
        .next ({ st with pendingAinlAuthoringFailure := some pending }.prompt
          [.user (ainlAuthoringRepairRequiredPrompt pending)])
    | none =>
        if st.anyToolsExecuted && decide (st.silentToolsOverrideAttempts < 2) then
          .next ({ st with
            silentToolsOverrideAttempts := st.silentToolsOverrideAttempts + 1 }.prompt
              [.user silentAfterToolsPrompt])
        else finishSilent W iteration parsed.2 st
  else endTurnReply W cfg iteration response parsed.1 st

/-! ### The tool round -/

/-- `deduplicate_tool_calls`, with `hash_set` threaded. -/
def deduplicateFrom (lib : Library) (hashSet : List String) : List ToolCall → List ToolCall
  | [] => []
  | tc :: rest =>
      if isParallelRead tc.name then
        let hash := LoopGuard.computeHash lib tc.name tc.input
        if hash ∈ hashSet then deduplicateFrom lib hashSet rest
        else tc :: deduplicateFrom lib (hash :: hashSet) rest
      else tc :: deduplicateFrom lib hashSet rest

/-- `deduplicate_tool_calls`. -/
def deduplicateToolCalls (lib : Library) (calls : List ToolCall) : List ToolCall :=
  deduplicateFrom lib [] calls

/-- `ToolDispatch`: a call with its result already decided, or one to be run. -/
inductive ToolDispatch where
  | resolved (call : ToolCall) (block : ContentBlock)
  | pending (call : ToolCall) (verdict : LoopGuardVerdict)

/-- The error result of a call that is not run. -/
def refusal (tc : ToolCall) (message : String) : ToolDispatch :=
  .resolved tc (.toolResult tc.id tc.name message true)

/-- The checks that follow the loop guard: the hook, then the required parameters. -/
def precheckCall (W : World σ) (cfg : TurnConfig) (tc : ToolCall) (verdict : LoopGuardVerdict)
    (st : LoopState σ) : ToolDispatch × LoopState σ :=
  let hook := W.beforeToolCall tc st.world
  let st := { st with world := hook.2 }
  match hook.1 with
  | some reason => (refusal tc s!"Hook blocked tool '{tc.name}': {reason}", st)
  | none =>
      match (cfg.tools.find? fun d => d.name == tc.name).bind
          (missingRequiredParamsError cfg.lib tc.name tc.input) with
      | some message => (refusal tc message, st)
      | none =>
          (.pending tc verdict, { st with lastToolsCalled := tc.name :: st.lastToolsCalled })

/-- The pre-pass over one call; an error is the message of the circuit breaker. -/
def dispatchCall (W : World σ) (cfg : TurnConfig) (tc : ToolCall) (st : LoopState σ) :
    Except String ToolDispatch × LoopState σ :=
  match ainlRunRequiresStrictValidateFirst cfg.lib tc st.lastStrictValidateCodeSha256
      cfg.allowNonStrict with
  | some message => (.ok (refusal tc message), st)
  | none =>
      let checked := LoopGuard.check cfg.lib st.loopGuard tc.name tc.input
      let st := { st with loopGuard := checked.1 }
      match checked.2 with
      | .circuitBreak message => (.error message, st)
      | .block message => (.ok (refusal tc message), st)
      | verdict =>
          let out := precheckCall W cfg tc verdict st
          (.ok out.1, out.2)

/-- The pre-pass over the calls of a round. -/
def dispatchCalls (W : World σ) (cfg : TurnConfig) :
    List ToolCall → LoopState σ → Except String (List ToolDispatch) × LoopState σ
  | [], st => (.ok [], st)
  | tc :: rest, st =>
      let head := dispatchCall W cfg tc st
      match head.1 with
      | .error message => (.error message, head.2)
      | .ok dispatch =>
          let tail := dispatchCalls W cfg rest head.2
          match tail.1 with
          | .error message => (.error message, tail.2)
          | .ok dispatches => (.ok (dispatch :: dispatches), tail.2)

/-- The calls of a round that are run. -/
def pendingCalls (dispatches : List ToolDispatch) : List ToolCall :=
  dispatches.filterMap fun
    | .pending tc _ => some tc
    | .resolved _ _ => none

/-- The invocation of a resolved call. -/
def Resolution.invocation? : Resolution → Option Invocation
  | .perform invocation => some invocation
  | .refused _ => none

/-- `execute_tool_with_trajectory` on a call, given what the world answers for its
slot: the result, and what was performed for it. -/
def callResult (cfg : TurnConfig) (tc : ToolCall) (outcome : Option ToolOutcome) :
    ToolResult × Option Invocation :=
  match resolveCall cfg.allowedToolNames tc.name tc.input with
  | .refused content => (⟨tc.id, content, true⟩, none)
  | .perform invocation => (callOutcome tc outcome, some invocation)

/-- What a batch performs, slot by slot. -/
def batchInvocations (cfg : TurnConfig) (batch : List ToolCall) : List (Option Invocation) :=
  batch.map fun tc => (resolveCall cfg.allowedToolNames tc.name tc.input).invocation?

/-- `join_all` over one batch. -/
def runBatch (W : World σ) (cfg : TurnConfig) (batch : List ToolCall) (st : LoopState σ) :
    List (ToolResult × Option Invocation) × LoopState σ :=
  let out := W.runBatch (batchInvocations cfg batch) st.world
  (batch.zipIdx.map fun p => callResult cfg p.1 (out.1 p.2),
    { st with
      world := out.2
      log := st.log ++ ((batchInvocations cfg batch).filterMap id).map .toolStarted })

/-- The batches of a round, one after another. -/
def runBatches (W : World σ) (cfg : TurnConfig) :
    List (List ToolCall) → LoopState σ → List (ToolResult × Option Invocation) × LoopState σ
  | [], st => ([], st)
  | batch :: rest, st =>
      let head := runBatch W cfg batch st
      let tail := runBatches W cfg rest head.2
      (head.1 ++ tail.1, tail.2)

/-- The suffix of a loop-guard note. -/
def loopGuardNote (message : String) : String := s!"\n\n[LOOP GUARD] {message}"

/-- `final_content`: the truncated result with the notes of the loop guard. -/
def finalContent (cfg : TurnConfig) (content : String) (verdict : LoopGuardVerdict)
    (outcomeMsg : Option String) : String :=
  let shown := truncateToolResultDynamic content cfg.ctxWindow
  let warned := match verdict with
    | .warn message => shown ++ loopGuardNote message
    | _ => shown
  match outcomeMsg with
  | some message => warned ++ loopGuardNote message
  | none => warned

/-- The result of one run call: its block, with the loop guard told about it. -/
def mergeResult (cfg : TurnConfig) (tc : ToolCall) (verdict : LoopGuardVerdict)
    (result : ToolResult × Option Invocation) (st : LoopState σ) :
    ContentBlock × LoopState σ :=
  let recorded := LoopGuard.recordOutcome cfg.lib st.loopGuard tc.name tc.input result.1.content
  let content := finalContent cfg result.1.content verdict recorded.2
  (.toolResult result.1.toolUseId tc.name content result.1.isError,
    { st with
      loopGuard := recorded.1
      log := st.log ++
        (result.2.map fun inv => .toolFinished inv content result.1.isError).toList })

/-- The merge of decided and run calls, in the order of the response. -/
def mergeResults (cfg : TurnConfig) :
    List ToolDispatch → List (ToolResult × Option Invocation) → LoopState σ →
      List ContentBlock × LoopState σ
  | [], _, st => ([], st)
  | .resolved _ block :: rest, results, st =>
      let out := mergeResults cfg rest results st
      (block :: out.1, out.2)
  | .pending _ _ :: _, [], st => ([], st)
  | .pending tc verdict :: rest, result :: results, st =>
      let head := mergeResult cfg tc verdict result st
      let tail := mergeResults cfg rest results head.2
      (head.1 :: tail.1, tail.2)

/-- `all_blocked`: every result is a refusal by the loop guard. -/
def allBlocked (blocks : List ContentBlock) : Bool :=
  !blocks.isEmpty && blocks.all fun
    | .toolResult _ _ content true => isLoopGuardText content
    | _ => false

/-- The reply after three rounds in which every call was blocked. -/
def allBlockedText : String :=
  "I was unable to complete this task: my tool calls were " ++
  "repeatedly blocked because I appeared to be stuck calling the same " ++
  "tools in a loop. Please try rephrasing your request, breaking it " ++
  "into smaller steps, or using a different approach."

/-- The update of the AINL gate after a round: a success clears the pending
failure, then the hash and the proof are updated, then a failure is recorded. -/
def updateAinlGate (cfg : TurnConfig) (dispatches : List ToolDispatch)
    (blocks : List ContentBlock) (st : LoopState σ) : LoopState σ :=
  let calls := toolCallsById (pendingCalls dispatches)
  let cleared :=
    if ainlAuthoringSuccessInToolResults cfg.lib blocks st.pendingAinlAuthoringFailure calls
        cfg.allowNonStrict then none
    else st.pendingAinlAuthoringFailure
  { st with
    lastStrictValidateCodeSha256 :=
      updateLastStrictValidateSha256 cfg.lib st.lastStrictValidateCodeSha256 blocks calls
    lastAinlProof := (ainlProofFromToolResults cfg.lib blocks calls).orElse fun _ => st.lastAinlProof
    pendingAinlAuthoringFailure :=
      (ainlAuthoringFailureFromToolResults cfg.lib blocks calls).orElse fun _ => cleared }

/-- A result that reports a denied approval. -/
def isDenial : ContentBlock → Bool
  | .toolResult _ _ content true => contains content "requires human approval and was denied"
  | _ => false

/-- The note about denied approvals. -/
def denialNote (denialCount : Nat) : String :=
  s!"[System: {denialCount} tool call(s) were denied by approval policy. " ++
    "Do NOT retry denied tools. Explain to the user what you " ++
    "wanted to do and that it requires their approval. " ++
    "Hint: set auto_approve = true in [approval] section of " ++
    "config.toml, or start with --yolo flag, to auto-approve " ++
    "all tool calls.]"

/-- The texts added behind the results of a round. -/
def annotateResults (W : World σ) (cfg : TurnConfig) (blocks : List ContentBlock)
    (st : LoopState σ) : List ContentBlock × LoopState σ :=
  let denials := (blocks.filter isDenial).length
  let denied := if 0 < denials then blocks ++ [.text (denialNote denials) none] else blocks
  let order := W.hashOrder ((denied.filterMap errorOfBlock).map Prod.fst) st.world
  let guidance :=
    st.toolErrorTracker.computeGuidance cfg.rules.correctiveHint order.1 denied denials
  (denied ++ (guidance.2.map fun text => .text text none).toList,
    { st with world := order.2, toolErrorTracker := guidance.1 })

/-- The prompt near the iteration limit. -/
def wrapUpPrompt : String :=
  "[System: You are very close to the maximum number of allowed steps. " ++
  "Stop calling tools now. Write a final text response summarizing " ++
  "what you have done and any results or next steps for the user.]"

/-- The wrap-up prompt, within three iterations of the limit. -/
def injectWrapUp (cfg : TurnConfig) (iteration : Nat) (st : LoopState σ) : LoopState σ :=
  if cfg.maxIterations ≤ iteration + 1 + 3 then
    match st.pendingAinlAuthoringFailure with
    | some pending => st.prompt [.user (ainlAuthoringRepairRequiredPrompt pending)]
    | none => st.prompt [.user wrapUpPrompt]
  else st

/-- The end of a round: gate, notes, the results as a User message, the wrap-up
prompt and the interim save. -/
def finishRound (W : World σ) (cfg : TurnConfig) (iteration : Nat)
    (dispatches : List ToolDispatch) (blocks : List ContentBlock) (st : LoopState σ) : Step σ :=
  let annotated := annotateResults W cfg blocks (updateAinlGate cfg dispatches blocks st)
  let results : Message := .userWithBlocks annotated.1
  let st := injectWrapUp cfg iteration
    { annotated.2 with
      session := annotated.2.session ++ [results]
      messages := annotated.2.messages ++ [results] }
  .next { st with world := (W.saveSession st.session st.world).2 }

/-- The all-blocked exit, else the end of the round. -/
def checkAllBlocked (W : World σ) (cfg : TurnConfig) (iteration : Nat)
    (dispatches : List ToolDispatch) (blocks : List ContentBlock) (st : LoopState σ) : Step σ :=
  let count := if allBlocked blocks then st.consecutiveAllBlocked + 1 else 0
  let st := { st with consecutiveAllBlocked := count }
  if 3 ≤ count then finishUnsaved W st (iteration + 1) allBlockedText .blockedByLoopGuard
  else finishRound W cfg iteration dispatches blocks st

/-- Run the calls that passed the pre-pass, and merge. -/
def runDispatches (W : World σ) (cfg : TurnConfig) (dispatches : List ToolDispatch)
    (st : LoopState σ) : List ContentBlock × LoopState σ :=
  let batches := orderedBatches (fun tc => isParallelRead tc.name) (pendingCalls dispatches)
  let ran := runBatches W cfg batches st
  mergeResults cfg dispatches ran.1 ran.2

/-- The Assistant message with the calls of a response. -/
def toolUseMessage (response : CompletionResponse) : Message :=
  { role := .assistant, content := .blocks response.content }

/-- The state in which the calls of a response are handled. -/
def openRound (response : CompletionResponse) (st : LoopState σ) : LoopState σ :=
  { st with
    consecutiveMaxTokens := 0
    anyToolsExecuted := true
    session := st.session ++ [toolUseMessage response]
    messages := st.messages ++ [toolUseMessage response] }

/-- The `ToolUse` branch. -/
def toolRound (W : World σ) (cfg : TurnConfig) (iteration : Nat)
    (response : CompletionResponse) (st : LoopState σ) : Step σ :=
  let passed :=
    dispatchCalls W cfg (deduplicateToolCalls cfg.lib response.toolCalls) (openRound response st)
  match passed.1 with
  | .error message =>
      let saved := W.saveSession passed.2.session passed.2.world
      .done (.error (.internal message)) { passed.2 with world := saved.2 }
  | .ok dispatches =>
      let merged := runDispatches W cfg dispatches passed.2
      checkAllBlocked W cfg iteration dispatches merged.1 merged.2

/-! ### Token limit -/

/-- The partial reply at the continuation limit. -/
def partialText : String := "[Partial response — token limit reached with no text output.]"

/-- The `MaxTokens` branch. -/
def continueTokens (W : World σ) (cfg : TurnConfig) (iteration : Nat)
    (response : CompletionResponse) (st : LoopState σ) : Step σ :=
  let st := { st with consecutiveMaxTokens := st.consecutiveMaxTokens + 1 }
  let text := response.text
  if cfg.maxContinuations ≤ st.consecutiveMaxTokens then
    match st.pendingAinlAuthoringFailure with
    | some pending =>
        finishUnsaved W st (iteration + 1)
          (ainlAuthoringUnresolvedSummary pending st.lastAinlProof) .ainlAuthoringUnresolved
    | none =>
        finishUnsaved W st (iteration + 1) (if isBlank text then partialText else text)
          .maxContinuations
  else
    .next { st with
      session := st.session ++ [.assistant text, .user "Please continue."]
      messages := st.messages ++ [.assistant text, .user "Please continue."] }

/-! ### The loop -/

/-- The `match response.stop_reason`. -/
def handleResponse (W : World σ) (cfg : TurnConfig) (iteration : Nat)
    (response : CompletionResponse) (st : LoopState σ) : Step σ :=
  let st := { st with log := st.log ++ [.response response] }
  match response.stopReason with
  | .endTurn => endTurn W cfg iteration response st
  | .stopSequence => endTurn W cfg iteration response st
  | .toolUse => toolRound W cfg iteration response st
  | .maxTokens => continueTokens W cfg iteration response st

/-- The request of an iteration and what follows it. -/
def requestAndHandle (W : World σ) (cfg : TurnConfig) (iteration : Nat) (st : LoopState σ) :
    Step σ :=
  let called := callWithRetry W cfg (completionRequest cfg st) st
  match called.1 with
  | .error e => .done (.error e) called.2
  | .ok (response, used) =>
      let recovered := recoverTextCalls W cfg response (recordResponse response used called.2)
      handleResponse W cfg iteration recovered.1 recovered.2

/-- One iteration of the loop. -/
def iterate (W : World σ) (cfg : TurnConfig) (iteration : Nat) (st : LoopState σ) : Step σ :=
  let st := prepareRequest W cfg st
  if iteration = 0 ∧ cfg.plannerPathEligible = true then
    match runPlanner W cfg st with
    | .done result st => .done result st
    | .next st => requestAndHandle W cfg iteration st
  else requestAndHandle W cfg iteration st

/-- The reply at the iteration limit. -/
def stepLimitText (maxIterations : Nat) : String :=
  s!"I reached my step limit ({maxIterations} steps) and could not complete the task in one go. " ++
    "If I got stuck in a loop, try `/reset` to clear the session and rephrase your request. " ++
    "If the task genuinely needs more steps, increase `max_iterations` under `[autonomous]` in " ++
    "agent.toml."

/-- The reply and the outcome at the iteration limit. -/
def fallbackReply (cfg : TurnConfig) (st : LoopState σ) : String × AgentLoopOutcome :=
  match st.pendingAinlAuthoringFailure with
  | some pending =>
      (ainlAuthoringUnresolvedSummary pending st.lastAinlProof, .ainlAuthoringUnresolved)
  | none => (stepLimitText cfg.maxIterations, .maxIterations)

/-- The end of the turn at the iteration limit. -/
def finishMaxIterations (W : World σ) (cfg : TurnConfig) (st : LoopState σ) :
    Except LoopError AgentLoopResult × LoopState σ :=
  let reply := fallbackReply cfg st
  (.ok (loopResult st cfg.maxIterations reply.1 reply.2), closeSession W st reply.1)

/-- The iterations of the loop; `remaining` are left. -/
def runIterations (W : World σ) (cfg : TurnConfig) :
    Nat → Nat → LoopState σ → Except LoopError AgentLoopResult × LoopState σ
  | 0, _, st => finishMaxIterations W cfg st
  | remaining + 1, iteration, st =>
      match iterate W cfg iteration st with
      | .done result st => (result, st)
      | .next st => runIterations W cfg remaining (iteration + 1) st

/-- `run_agent_loop`. -/
def runAgentLoop (W : World σ) (cfg : TurnConfig) (session : List Message) (world : σ) :
    Except LoopError AgentLoopResult × LoopState σ :=
  runIterations W cfg cfg.maxIterations 0 (startTurn cfg session world)

end ArmaraOS.Agent
