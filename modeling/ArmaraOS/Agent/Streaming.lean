import ArmaraOS.Agent.Loop

/-!
`run_agent_loop_streaming` (`openfang-runtime/src/agent_loop.rs`), translated from
its own copy of the loop. Every stage that reads or writes the variables of the
turn is written again, under the name it has in `Loop.lean`; the texts and list
computations that the two copies spell alike are shared.
-/

namespace ArmaraOS.Agent.Streaming

open ArmaraOS.Text ArmaraOS.Session

variable {σ : Type}

/-- `stream_tx.send(…)`; a closed channel is ignored. -/
def send (st : LoopState σ) (events : List StreamEvent) : LoopState σ :=
  { st with streamed := st.streamed ++ events }

/-! ### Start of the turn -/

/-- The system prompt of `run_agent_loop_streaming`. -/
def systemPromptOf (cfg : TurnConfig) : String :=
  cfg.prompt.base ++ cfg.prompt.memories ++ cfg.prompt.orchestration ++ cfg.prompt.graphMemory
    ++ cfg.prompt.persona ++ cfg.prompt.readiness

/-- The state before the first iteration, with the opening events. -/
def startTurn (cfg : TurnConfig) (session : List Message) (world : σ) : LoopState σ :=
  let composed := cfg.rules.compose (systemPromptOf cfg) (openingMessages cfg session)
  { world := world
    streamed := cfg.compressionEvent.toList ++ cfg.telemetryEvent.toList
    systemPrompt := composed.1
    session := (session ++ [turnUserMessage cfg]).map stripImages
    messages := composed.2
    loopGuard := { config := cfg.loopGuardConfig } }

/-! ### Before the request -/

/-- The drain of the `/btw` channel. -/
def injectBtw (W : World σ) (st : LoopState σ) : LoopState σ :=
  let out := W.drainBtw st.world
  { st with
    world := out.2
    messages := st.messages ++ out.1.map fun text => .user s!"[btw] {text}" }

/-- The `/redirect` override. -/
def applyRedirect (W : World σ) (st : LoopState σ) : LoopState σ :=
  let out := W.recvRedirect st.world
  match out.1 with
  | some text =>
      { st with
        world := out.2
        messages := pruneForRedirect st.messages ++ [redirectMessage text] }
  | none => { st with world := out.2 }

/-- The warning for a recovery stage. -/
def contextWarning : RecoveryStage → List StreamEvent
  | .none => []
  | .finalError =>
      [.phaseChange "context_warning"
        (some "Context overflow unrecoverable. Use /reset or /compact.")]
  | _ =>
      [.phaseChange "context_warning"
        (some ("Older messages trimmed to stay within context limits. " ++
          "Use /compact for smarter summarization."))]

/-- Overflow recovery, followed by a repair when it acted. -/
def recoverOverflow (cfg : TurnConfig) (st : LoopState σ) : LoopState σ :=
  let recovery :=
    recoverFromOverflow cfg.lib st.messages st.systemPrompt cfg.tools cfg.ctxWindow
  { send st (contextWarning recovery.2) with
    messages := if recovery.2 = .none then recovery.1 else validateAndRepair recovery.1 }

/-- The context guard. -/
def guardContext (cfg : TurnConfig) (st : LoopState σ) : LoopState σ :=
  { st with messages := applyContextGuard st.messages cfg.ctxWindow }

/-- The request of an iteration. -/
def completionRequest (cfg : TurnConfig) (st : LoopState σ) : CompletionRequest :=
  { model := stripProviderPrefix cfg.model cfg.provider
    messages := st.messages
    tools := cfg.tools
    maxTokens := cfg.maxTokens
    temperature := cfg.temperature
    system := some st.systemPrompt }

/-- The progress event of a later iteration. -/
def iterationEvent (iteration : Nat) : List StreamEvent :=
  if 0 < iteration then
    [.phaseChange "iteration" (some s!"Step {iteration + 1} — thinking…")]
  else []

/-- All that happens to the working messages before the request. -/
def prepareRequest (W : World σ) (cfg : TurnConfig) (st : LoopState σ) : LoopState σ :=
  guardContext cfg (recoverOverflow cfg (applyRedirect W (injectBtw W st)))

/-! ### After the response -/

/-- The token counts of a response, and the fallback that served it. -/
def recordResponse (response : CompletionResponse) (used : Option LlmFallbackUsed)
    (st : LoopState σ) : LoopState σ :=
  { st with
    fallbackUsed := used.orElse fun _ => st.fallbackUsed
    totalUsage :=
      { st.totalUsage with
        inputTokens := st.totalUsage.inputTokens + response.usage.inputTokens
        outputTokens := st.totalUsage.outputTokens + response.usage.outputTokens } }

/-- The recovery of tool calls written as text. -/
def recoverTextCalls (W : World σ) (cfg : TurnConfig) (response : CompletionResponse)
    (st : LoopState σ) : CompletionResponse × LoopState σ :=
  if (response.stopReason = .endTurn ∨ response.stopReason = .stopSequence) ∧
      response.toolCalls = [] then
    let found := cfg.rules.recoverTextToolCalls response.text cfg.tools
    if found.isEmpty then (response, st)
    else
      let calls := assignIds W found st.world
      ({ response with
          toolCalls := calls.1
          stopReason := .toolUse
          content := calls.1.map toolUseBlock },
        { st with world := calls.2 })
  else (response, st)

/-- Add messages to the working messages only. -/
def prompt (st : LoopState σ) (added : List Message) : LoopState σ :=
  { st with messages := st.messages ++ added }

/-- The result fields that every way of ending the loop fills alike. -/
def loopResult (st : LoopState σ) (iterations : Nat) (response : String)
    (outcome : AgentLoopOutcome) : AgentLoopResult :=
  { response := response
    totalUsage := st.totalUsage
    iterations := iterations
    outcome := outcome
    fallbackUsed := st.fallbackUsed }

/-- Add the reply to the session and save it, whether or not the store accepts it. -/
def closeSession (W : World σ) (st : LoopState σ) (response : String) : LoopState σ :=
  let session := st.session ++ [.assistant response]
  { st with session := session, world := (W.saveSession session st.world).2 }

/-- End the turn with a reply that is not the model's own answer. -/
def finishUnsaved (W : World σ) (st : LoopState σ) (iterations : Nat) (response : String)
    (outcome : AgentLoopOutcome) : Step σ :=
  .done (.ok (loopResult st iterations response outcome)) (closeSession W st response)

/-! ### End of turn -/

/-- A silent end of the turn. -/
def finishSilent (W : World σ) (iteration : Nat) (directives : DirectiveSet)
    (st : LoopState σ) : Step σ :=
  let session := st.session ++ [.assistant "[no reply needed]"]
  let saved := W.saveSession session st.world
  let st := { st with session := session, world := saved.2 }
  match saved.1 with
  | some e => .done (.error (.memory e)) st
  | none =>
      .done (.ok
        { loopResult st (iteration + 1) "" .silent with
          silent := true
          directives :=
            { replyTo := directives.replyTo
              currentThread := directives.currentThread
              silent := true } }) st

/-- The final answer. -/
def finishAnswer (W : World σ) (cfg : TurnConfig) (iteration : Nat) (text : String)
    (outcome : AgentLoopOutcome) (st : LoopState σ) : Step σ :=
  let text := cfg.rules.compressReply text
  let unpruned := st.session ++ [.assistant text]
  let session := pruneHeartbeatTurns unpruned 10
  let saved := W.saveSession session st.world
  let st :=
    { st with
      session := session
      world := saved.2
      lastToolsCalled := []
      unpruned := some unpruned }
  match saved.1 with
  | some e => .done (.error (.memory e)) st
  | none => .done (.ok (loopResult st (iteration + 1) text outcome)) st

/-- The four checks for claims without action. -/
def checkClaims (W : World σ) (cfg : TurnConfig) (iteration : Nat) (text : String)
    (outcome : AgentLoopOutcome) (st : LoopState σ) : Step σ :=
  if !st.anyToolsExecuted && iteration == 0 && phantomActionDetected cfg.lib text then
    .next (prompt st [.assistant text, .user phantomActionPrompt])
  else if schedulingPhantomDetected cfg.lib cfg.sessionUserMessage text st.lastToolsCalled then
    .next { prompt st [.assistant text, .user schedulingPhantomPrompt] with lastToolsCalled := [] }
  else if terminalHandoffDetected cfg.lib cfg.sessionUserMessage text st.lastToolsCalled then
    .next { prompt st [.assistant text, .user terminalHandoffPrompt] with lastToolsCalled := [] }
  else if processPhantomDetected cfg.lib text st.lastToolsCalled then
    .next { prompt st [.assistant text, .user processPhantomPrompt] with lastToolsCalled := [] }
  else finishAnswer W cfg iteration text outcome st

/-- A final text while an AINL failure may be pending. -/
def checkPending (W : World σ) (cfg : TurnConfig) (iteration : Nat) (text : String)
    (st : LoopState σ) : Step σ :=
  match st.pendingAinlAuthoringFailure with
  | none => checkClaims W cfg iteration text .completed st
  | some pending =>
      let pending :=
        { pending with blockedFinalAttempts := pending.blockedFinalAttempts + 1 }
      if maxAinlAuthoringPrematureFinalAttempts ≤ pending.blockedFinalAttempts then
        checkClaims W cfg iteration (ainlAuthoringUnresolvedSummary pending st.lastAinlProof)
          .ainlAuthoringUnresolved { st with pendingAinlAuthoringFailure := none }
      else
        .next (prompt { st with pendingAinlAuthoringFailure := some pending }
          [.assistant text, .user (ainlAuthoringRepairRequiredPrompt pending)])

/-- The guard against an empty final text. -/
def nonEmptyText (text : String) (st : LoopState σ) : String :=
  if isBlank text then
    if st.anyToolsExecuted then emptyAfterToolsText else emptyResponseText
  else text

/-- The retry after an empty response. -/
def retryEmpty (W : World σ) (iteration : Nat) (silentFailure : Bool) (st : LoopState σ) :
    Step σ :=
  let failures := st.consecutiveSilentFailures + if silentFailure then 1 else 0
  let st := { st with consecutiveSilentFailures := failures }
  if 3 ≤ failures then finishUnsaved W st (iteration + 1) silentFailureText .providerFailure
  else
    let messages := if silentFailure then validateAndRepair st.messages else st.messages
    .next { st with
      messages := messages ++ [.assistant "[no response]", .user "Please provide your response."] }

/-- A reply that is not silent. -/
def endTurnReply (W : World σ) (cfg : TurnConfig) (iteration : Nat)
    (response : CompletionResponse) (text : String) (st : LoopState σ) : Step σ :=
  if isBlank text && response.toolCalls.isEmpty && !response.hasAnyContent then
    let silentFailure := response.usage.inputTokens == 0 && response.usage.outputTokens == 0
    if iteration == 0 || silentFailure then retryEmpty W iteration silentFailure st
    else checkPending W cfg iteration (nonEmptyText text st) st
  else
    let st := { st with consecutiveSilentFailures := 0 }
    checkPending W cfg iteration (nonEmptyText text st) st

/-- The `EndTurn | StopSequence` branch. -/
def endTurn (W : World σ) (cfg : TurnConfig) (iteration : Nat)
    (response : CompletionResponse) (st : LoopState σ) : Step σ :=
  let parsed := parseDirectives response.text
  if assistantIntendedSilent parsed.1 parsed.2 then
    match st.pendingAinlAuthoringFailure with
    | some pending =>
        let pending :=
          { pending with blockedFinalAttempts := pending.blockedFinalAttempts + 1 }
        .next (prompt { st with pendingAinlAuthoringFailure := some pending }
          [.user (ainlAuthoringRepairRequiredPrompt pending)])
    | none =>
        if st.anyToolsExecuted && decide (st.silentToolsOverrideAttempts < 2) then
          .next (prompt
            { st with silentToolsOverrideAttempts := st.silentToolsOverrideAttempts + 1 }
            [.user silentAfterToolsPrompt])
        else finishSilent W iteration parsed.2 st
  else endTurnReply W cfg iteration response parsed.1 st

/-! ### The tool round -/

/-- The checks that follow the loop guard. -/
def precheckCall (W : World σ) (cfg : TurnConfig) (tc : ToolCall) (verdict : LoopGuardVerdict)
    (st : LoopState σ) : ToolDispatch × LoopState σ :=
  let hook := W.beforeToolCall tc st.world
  let st := { st with world := hook.2 }
  match hook.1 with
  | some reason => (refusal tc s!"Hook blocked tool '{tc.name}': {reason}", st)
  | none =>
      match (cfg.tools.find? fun d => d.name == tc.name).bind
          (missingRequiredParamsError cfg.lib tc.name tc.input) with
      | some message => (refusal tc message, st)
      | none =>
          (.pending tc verdict, { st with lastToolsCalled := tc.name :: st.lastToolsCalled })

/-- The pre-pass over one call. -/
def dispatchCall (W : World σ) (cfg : TurnConfig) (tc : ToolCall) (st : LoopState σ) :
    Except String ToolDispatch × LoopState σ :=
  match ainlRunRequiresStrictValidateFirst cfg.lib tc st.lastStrictValidateCodeSha256
      cfg.allowNonStrict with
  | some message => (.ok (refusal tc message), st)
  | none =>
      let checked := LoopGuard.check cfg.lib st.loopGuard tc.name tc.input
      let st := { st with loopGuard := checked.1 }
      match checked.2 with
      | .circuitBreak message => (.error message, st)
      | .block message => (.ok (refusal tc message), st)
      | verdict =>
          let out := precheckCall W cfg tc verdict st
          (.ok out.1, out.2)

/-- The pre-pass over the calls of a round. -/
def dispatchCalls (W : World σ) (cfg : TurnConfig) :
    List ToolCall → LoopState σ → Except String (List ToolDispatch) × LoopState σ
  | [], st => (.ok [], st)
  | tc :: rest, st =>
      let head := dispatchCall W cfg tc st
      match head.1 with
      | .error message => (.error message, head.2)
      | .ok dispatch =>
          let tail := dispatchCalls W cfg rest head.2
          match tail.1 with
          | .error message => (.error message, tail.2)
          | .ok dispatches => (.ok (dispatch :: dispatches), tail.2)

/-- `detail_base`: the names of a batch. -/
def detailBase (batch : List ToolCall) : String :=
  let names := join ", " (batch.map ToolCall.name)
  if names.isEmpty then "tools" else names

/-- The progress events while a batch runs. -/
def progressEvents (batch : List ToolCall) (ticks : Nat) : List StreamEvent :=
  List.replicate ticks
    (.phaseChange "tool_use" (some s!"{detailBase batch} — still running…"))

/-- `join_all` over one batch, with a progress event every four seconds. -/
def runBatch (W : World σ) (cfg : TurnConfig) (batch : List ToolCall) (st : LoopState σ) :
    List (ToolResult × Option Invocation) × LoopState σ :=
  if batch.isEmpty then ([], st)
  else
    let out := W.runBatch (batchInvocations cfg batch) st.world
    (batch.zipIdx.map fun p => callResult cfg p.1 (out.1 p.2),
      { send st (progressEvents batch (W.progressTicks st.world)) with
        world := out.2
        log := st.log ++ ((batchInvocations cfg batch).filterMap id).map .toolStarted })

/-- The batches of a round, one after another. -/
def runBatches (W : World σ) (cfg : TurnConfig) :
    List (List ToolCall) → LoopState σ → List (ToolResult × Option Invocation) × LoopState σ
  | [], st => ([], st)
  | batch :: rest, st =>
      let head := runBatch W cfg batch st
      let tail := runBatches W cfg rest head.2
      (head.1 ++ tail.1, tail.2)

/-- The result of one run call: its block, with the loop guard told about it and
a preview sent. -/
def mergeResult (cfg : TurnConfig) (tc : ToolCall) (verdict : LoopGuardVerdict)
    (result : ToolResult × Option Invocation) (st : LoopState σ) :
    ContentBlock × LoopState σ :=
  let recorded := LoopGuard.recordOutcome cfg.lib st.loopGuard tc.name tc.input result.1.content
  let content := finalContent cfg result.1.content verdict recorded.2
  (.toolResult result.1.toolUseId tc.name content result.1.isError,
    { send st [.toolExecutionResult tc.id tc.name (takeChars 300 content) result.1.isError] with
      loopGuard := recorded.1
      log := st.log ++
        (result.2.map fun inv => .toolFinished inv content result.1.isError).toList })

/-- The merge of decided and run calls, in the order of the response. -/
def mergeResults (cfg : TurnConfig) :
    List ToolDispatch → List (ToolResult × Option Invocation) → LoopState σ →
      List ContentBlock × LoopState σ
  | [], _, st => ([], st)
  | .resolved _ block :: rest, results, st =>
      let out := mergeResults cfg rest results st
      (block :: out.1, out.2)
  | .pending _ _ :: _, [], st => ([], st)
  | .pending tc verdict :: rest, result :: results, st =>
      let head := mergeResult cfg tc verdict result st
      let tail := mergeResults cfg rest results head.2
      (head.1 :: tail.1, tail.2)

/-- The update of the AINL gate after a round. -/
def updateAinlGate (cfg : TurnConfig) (dispatches : List ToolDispatch)
    (blocks : List ContentBlock) (st : LoopState σ) : LoopState σ :=
  let calls := toolCallsById (pendingCalls dispatches)
  let cleared :=
    if ainlAuthoringSuccessInToolResults cfg.lib blocks st.pendingAinlAuthoringFailure calls
        cfg.allowNonStrict then none
    else st.pendingAinlAuthoringFailure
  { st with
    lastStrictValidateCodeSha256 :=
      updateLastStrictValidateSha256 cfg.lib st.lastStrictValidateCodeSha256 blocks calls
    lastAinlProof := (ainlProofFromToolResults cfg.lib blocks calls).orElse fun _ => st.lastAinlProof
    pendingAinlAuthoringFailure :=
      (ainlAuthoringFailureFromToolResults cfg.lib blocks calls).orElse fun _ => cleared }

/-- The texts added behind the results of a round. -/
def annotateResults (W : World σ) (cfg : TurnConfig) (blocks : List ContentBlock)
    (st : LoopState σ) : List ContentBlock × LoopState σ :=
  let denials := (blocks.filter isDenial).length
  let denied := if 0 < denials then blocks ++ [.text (denialNote denials) none] else blocks
  let order := W.hashOrder ((denied.filterMap errorOfBlock).map Prod.fst) st.world
  let guidance :=
    st.toolErrorTracker.computeGuidance cfg.rules.correctiveHint order.1 denied denials
  (denied ++ (guidance.2.map fun text => .text text none).toList,
    { st with world := order.2, toolErrorTracker := guidance.1 })

/-- The wrap-up prompt, within three iterations of the limit. -/
def injectWrapUp (cfg : TurnConfig) (iteration : Nat) (st : LoopState σ) : LoopState σ :=
  if cfg.maxIterations ≤ iteration + 1 + 3 then
    match st.pendingAinlAuthoringFailure with
    | some pending => prompt st [.user (ainlAuthoringRepairRequiredPrompt pending)]
    | none => prompt st [.user wrapUpPrompt]
  else st

/-- The end of a round. -/
def finishRound (W : World σ) (cfg : TurnConfig) (iteration : Nat)
    (dispatches : List ToolDispatch) (blocks : List ContentBlock) (st : LoopState σ) : Step σ :=
  let annotated := annotateResults W cfg blocks (updateAinlGate cfg dispatches blocks st)
  let results : Message := .userWithBlocks annotated.1
  let st := injectWrapUp cfg iteration
    { annotated.2 with
      session := annotated.2.session ++ [results]
      messages := annotated.2.messages ++ [results] }
  .next { st with world := (W.saveSession st.session st.world).2 }

/-- The all-blocked exit, which also streams its reply, else the end of the round. -/
def checkAllBlocked (W : World σ) (cfg : TurnConfig) (iteration : Nat)
    (dispatches : List ToolDispatch) (blocks : List ContentBlock) (st : LoopState σ) : Step σ :=
  let count := if allBlocked blocks then st.consecutiveAllBlocked + 1 else 0
  let st := { st with consecutiveAllBlocked := count }
  if 3 ≤ count then
    finishUnsaved W (send st [.textDelta allBlockedText]) (iteration + 1) allBlockedText
      .blockedByLoopGuard
  else finishRound W cfg iteration dispatches blocks st

/-- Run the calls that passed the pre-pass, and merge. -/
def runDispatches (W : World σ) (cfg : TurnConfig) (dispatches : List ToolDispatch)
    (st : LoopState σ) : List ContentBlock × LoopState σ :=
  let batches := orderedBatches (fun tc => isParallelRead tc.name) (pendingCalls dispatches)
  let ran := runBatches W cfg batches st
  mergeResults cfg dispatches ran.1 ran.2

/-- The state in which the calls of a response are handled. -/
def openRound (response : CompletionResponse) (st : LoopState σ) : LoopState σ :=
  { st with
    consecutiveMaxTokens := 0
    anyToolsExecuted := true
    session := st.session ++ [toolUseMessage response]
    messages := st.messages ++ [toolUseMessage response] }

/-- The `ToolUse` branch. -/
def toolRound (W : World σ) (cfg : TurnConfig) (iteration : Nat)
    (response : CompletionResponse) (st : LoopState σ) : Step σ :=
  let passed :=
    dispatchCalls W cfg (deduplicateToolCalls cfg.lib response.toolCalls) (openRound response st)
  match passed.1 with
  | .error message =>
      let saved := W.saveSession passed.2.session passed.2.world
      .done (.error (.internal message)) { passed.2 with world := saved.2 }
  | .ok dispatches =>
      let merged := runDispatches W cfg dispatches passed.2
      checkAllBlocked W cfg iteration dispatches merged.1 merged.2

/-! ### Token limit -/

/-- The `MaxTokens` branch. -/
def continueTokens (W : World σ) (cfg : TurnConfig) (iteration : Nat)
    (response : CompletionResponse) (st : LoopState σ) : Step σ :=
  let st := { st with consecutiveMaxTokens := st.consecutiveMaxTokens + 1 }
  let text := response.text
  if cfg.maxContinuations ≤ st.consecutiveMaxTokens then
    match st.pendingAinlAuthoringFailure with
    | some pending =>
        finishUnsaved W st (iteration + 1)
          (ainlAuthoringUnresolvedSummary pending st.lastAinlProof) .ainlAuthoringUnresolved
    | none =>
        finishUnsaved W st (iteration + 1) (if isBlank text then partialText else text)
          .maxContinuations
  else
    .next { st with
      session := st.session ++ [.assistant text, .user "Please continue."]
      messages := st.messages ++ [.assistant text, .user "Please continue."] }

/-! ### The loop -/

/-- The `match response.stop_reason`. -/
def handleResponse (W : World σ) (cfg : TurnConfig) (iteration : Nat)
    (response : CompletionResponse) (st : LoopState σ) : Step σ :=
  let st := { st with log := st.log ++ [.response response] }
  match response.stopReason with
  | .endTurn => endTurn W cfg iteration response st
  | .stopSequence => endTurn W cfg iteration response st
  | .toolUse => toolRound W cfg iteration response st
  | .maxTokens => continueTokens W cfg iteration response st

/-- One iteration of the loop. -/
def iterate (W : World σ) (cfg : TurnConfig) (iteration : Nat) (st : LoopState σ) : Step σ :=
  let st := prepareRequest W cfg st
  let request := completionRequest cfg st
  let called := streamWithRetry W cfg request (send st (iterationEvent iteration))
  match called.1 with
  | .error e => .done (.error e) called.2
  | .ok (response, used) =>
      let recovered := recoverTextCalls W cfg response (recordResponse response used called.2)
      handleResponse W cfg iteration recovered.1 recovered.2

/-- The reply and the outcome at the iteration limit. -/
def fallbackReply (cfg : TurnConfig) (st : LoopState σ) : String × AgentLoopOutcome :=
  match st.pendingAinlAuthoringFailure with
  | some pending =>
      (ainlAuthoringUnresolvedSummary pending st.lastAinlProof, .ainlAuthoringUnresolved)
  | none => (stepLimitText cfg.maxIterations, .maxIterations)

/-- The end of the turn at the iteration limit, with the reply streamed. -/
def finishMaxIterations (W : World σ) (cfg : TurnConfig) (st : LoopState σ) :
    Except LoopError AgentLoopResult × LoopState σ :=
  let reply := fallbackReply cfg st
  (.ok (loopResult st cfg.maxIterations reply.1 reply.2),
    send (closeSession W st reply.1) [.textDelta reply.1])

/-- The iterations of the loop; `remaining` are left. -/
def runIterations (W : World σ) (cfg : TurnConfig) :
    Nat → Nat → LoopState σ → Except LoopError AgentLoopResult × LoopState σ
  | 0, _, st => finishMaxIterations W cfg st
  | remaining + 1, iteration, st =>
      match iterate W cfg iteration st with
      | .done result st => (result, st)
      | .next st => runIterations W cfg remaining (iteration + 1) st

/-- The events for the result of a turn that was handed to the plain loop. -/
def plannerEvents (result : AgentLoopResult) : List StreamEvent :=
  (if !result.silent && !result.response.isEmpty then [.textDelta result.response] else [])
    ++ [.contentComplete .endTurn result.totalUsage]

/-- `run_agent_loop_streaming`: a turn that the native planner may take is handed
to the plain loop. -/
def runAgentLoopStreaming (W : World σ) (cfg : TurnConfig) (session : List Message)
    (world : σ) : Except LoopError AgentLoopResult × LoopState σ :=
  if cfg.plannerPathEligible then
    let out := runAgentLoop W cfg session world
    match out.1 with
    | .error e => (.error e, out.2)
    | .ok result =>
        (.ok result, send out.2
          (.phaseChange "planner"
              (some "native planner path selected; streaming final result") ::
            plannerEvents result))
  else runIterations W cfg cfg.maxIterations 0 (startTurn cfg session world)

end ArmaraOS.Agent.Streaming
