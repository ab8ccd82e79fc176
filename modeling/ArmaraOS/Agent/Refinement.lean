import ArmaraOS.Agent.Script
import ArmaraOS.Agent.Streaming

/-!
The streaming loop refines the plain loop.

`LoopState.quiet` forgets what was streamed. Stage by stage, the plain stage on the quieted state
does what the streaming stage does on the state itself; the attempts of a call, the batches of a
round and the iterations of the loop follow by induction (`streaming_loop_matches_plain`).
-/

namespace ArmaraOS.Agent

open ArmaraOS.Session

variable {σ : Type}

/-- Forget what was streamed. -/
def LoopState.quiet (st : LoopState σ) : LoopState σ := { st with streamed := [] }

/-- Forget what was streamed. -/
def Step.quiet : Step σ → Step σ
  | .next st => .next st.quiet
  | .done result st => .done result st.quiet

/-- On every request the stream ends with what a plain call would have returned. -/
def StreamsAsCompletes (W : World σ) : Prop :=
  ∀ driver req w, W.complete driver req w =
    ((W.stream driver req w).1.1, (W.stream driver req w).2)

@[simp] theorem send_quiet (st : LoopState σ) (events : List StreamEvent) :
    (Streaming.send st events).quiet = st.quiet := rfl

@[simp] theorem quiet_world (st : LoopState σ) : st.quiet.world = st.world := rfl

theorem quiet_setWorld (st : LoopState σ) (w : σ) :
    { st.quiet with world := w } = { st with world := w }.quiet := rfl

/-! ### Driver calls -/

section DriverCalls

variable {W : World σ} (hW : StreamsAsCompletes W)

include hW

theorem callComplete_quiet (driver : DriverRef) (req : CompletionRequest) (st : LoopState σ) :
    callComplete W driver req st.quiet =
      ((callStream W driver req st).1, (callStream W driver req st).2.quiet) := by
  simp only [callComplete, callStream, LoopState.quiet, hW driver req st.world]

theorem tryOpenrouterModels_quiet (req : CompletionRequest) :
    ∀ (models : List String) (st : LoopState σ),
      tryOpenrouterModels W req models st.quiet =
        ((tryOpenrouterModelsStream W req models st).1,
          (tryOpenrouterModelsStream W req models st).2.quiet)
  | [], _ => rfl
  | model :: rest, st => by
      simp only [tryOpenrouterModels, tryOpenrouterModelsStream, callComplete_quiet hW]
      cases (callStream W .openrouter { req with model := model } st).1 with
      | ok response => rfl
      | error e => exact tryOpenrouterModels_quiet req rest _

theorem tryOpenrouterFreeFallbacks_quiet (req : CompletionRequest) (st : LoopState σ) :
    tryOpenrouterFreeFallbacks W req st.quiet =
      ((tryOpenrouterFreeFallbacksStream W req st).1,
        (tryOpenrouterFreeFallbacksStream W req st).2.quiet) := by
  unfold tryOpenrouterFreeFallbacks tryOpenrouterFreeFallbacksStream
  rcases hres : W.adhocDriver .openrouter st.world with ⟨_ | _, w⟩
  · simp [hres, quiet_setWorld]
  · simp [hres, quiet_setWorld, tryOpenrouterModels_quiet hW]

theorem tryFallbackModels_quiet (req : CompletionRequest) :
    ∀ (idx : Nat) (models : List FallbackModel) (st : LoopState σ),
      tryFallbackModels W req idx models st.quiet =
        ((tryFallbackModelsStream W req idx models st).1,
          (tryFallbackModelsStream W req idx models st).2.quiet)
  | _, [], _ => rfl
  | idx, fb :: rest, st => by
      unfold tryFallbackModels tryFallbackModelsStream
      rcases hres : W.adhocDriver (.fallback idx) st.world with ⟨_ | _, w⟩
      · simpa [hres, quiet_setWorld] using
          tryFallbackModels_quiet req (idx + 1) rest { st with world := w }
      · simp only [quiet_world, hres, if_true, quiet_setWorld, callComplete_quiet hW]
        cases (callStream W (.fallback idx) { req with model := fb.model }
          { st with world := w }).1 with
        | ok response => rfl
        | error e => exact tryFallbackModels_quiet req (idx + 1) rest _

theorem throttledCall_quiet (req : CompletionRequest) (message : String) (st : LoopState σ) :
    throttledCall W req message st.quiet =
      ((throttledStream W req message st).1, (throttledStream W req message st).2.quiet) := by
  simp only [throttledCall, throttledStream, tryOpenrouterFreeFallbacks_quiet hW]
  cases (tryOpenrouterFreeFallbacksStream W req st).1 <;> rfl

theorem failedCall_quiet (cfg : TurnConfig) (req : CompletionRequest) (e : LlmError)
    (st : LoopState σ) :
    failedCall W cfg req e st.quiet =
      ((failedStream W cfg req e st).1, (failedStream W cfg req e st).2.quiet) := by
  simp only [failedCall, failedStream, tryFallbackModels_quiet hW]
  cases (cfg.rules.classifyError e.toText (errorStatus e)).isModelNotFound &&
    !cfg.fallbackModels.isEmpty
  · rfl
  · cases (tryFallbackModelsStream W req 0 cfg.fallbackModels st).1 <;> rfl

theorem callAttempts_quiet (cfg : TurnConfig) (req : CompletionRequest) :
    ∀ (retries : Nat) (st : LoopState σ),
      callAttempts W cfg req retries st.quiet =
        ((streamAttempts W cfg req retries st).1,
          (streamAttempts W cfg req retries st).2.quiet) := by
  intro retries
  induction retries with
  | zero =>
      intro st
      unfold callAttempts streamAttempts
      rw [callComplete_quiet hW]
      dsimp only
      cases (callStream W .primary req st).1 with
      | ok response => rfl
      | error e =>
          cases e with
          | rateLimited after => exact throttledCall_quiet hW req _ _
          | overloaded after => exact throttledCall_quiet hW req _ _
          | _ => exact failedCall_quiet hW cfg req _ _
  | succ n ih =>
      intro st
      unfold callAttempts streamAttempts
      rw [callComplete_quiet hW]
      dsimp only
      cases (callStream W .primary req st).1 with
      | ok response => rfl
      | error e =>
          cases e with
          | rateLimited after => exact ih _
          | overloaded after => exact ih _
          | _ => exact failedCall_quiet hW cfg req _ _

theorem callWithRetry_quiet (cfg : TurnConfig) (req : CompletionRequest) (st : LoopState σ) :
    callWithRetry W cfg req st.quiet =
      ((streamWithRetry W cfg req st).1, (streamWithRetry W cfg req st).2.quiet) :=
  callAttempts_quiet hW cfg req maxRetries st

end DriverCalls

/-! ### Before the request and after the response -/

theorem applyRedirect_quiet (W : World σ) (st : LoopState σ) :
    applyRedirect W st.quiet = (Streaming.applyRedirect W st).quiet := by
  unfold applyRedirect Streaming.applyRedirect
  rw [quiet_world]
  dsimp only
  cases (W.recvRedirect st.world).1 <;> rfl

theorem prepareRequest_quiet (W : World σ) (cfg : TurnConfig) (st : LoopState σ) :
    prepareRequest W cfg st.quiet = (Streaming.prepareRequest W cfg st).quiet := by
  have hbtw : injectBtw W st.quiet = (Streaming.injectBtw W st).quiet := rfl
  unfold prepareRequest Streaming.prepareRequest
  rw [hbtw, applyRedirect_quiet]
  rfl

theorem recoverTextCalls_quiet (W : World σ) (cfg : TurnConfig) (response : CompletionResponse)
    (st : LoopState σ) :
    recoverTextCalls W cfg response st.quiet =
      ((Streaming.recoverTextCalls W cfg response st).1,
        (Streaming.recoverTextCalls W cfg response st).2.quiet) := by
  unfold recoverTextCalls Streaming.recoverTextCalls
  by_cases hstop : (response.stopReason = .endTurn ∨ response.stopReason = .stopSequence) ∧
      response.toolCalls = []
  · simp only [if_pos hstop, quiet_world]
    cases (cfg.rules.recoverTextToolCalls response.text cfg.tools).isEmpty <;> rfl
  · simp only [if_neg hstop]

/-! ### End of turn -/

theorem finishSilent_quiet (W : World σ) (iteration : Nat) (directives : DirectiveSet)
    (st : LoopState σ) :
    finishSilent W iteration directives st.quiet =
      (Streaming.finishSilent W iteration directives st).quiet := by
  unfold finishSilent Streaming.finishSilent
  dsimp only
  cases hsave : (W.saveSession (st.session ++ [.assistant "[no reply needed]"]) st.world).1 with
  | none => simp only [LoopState.quiet, hsave]; rfl
  | some e => simp only [LoopState.quiet, hsave]; rfl

theorem finishAnswer_quiet (W : World σ) (cfg : TurnConfig) (iteration : Nat) (text : String)
    (outcome : AgentLoopOutcome) (st : LoopState σ) :
    finishAnswer W cfg iteration text outcome st.quiet =
      (Streaming.finishAnswer W cfg iteration text outcome st).quiet := by
  unfold finishAnswer Streaming.finishAnswer
  dsimp only
  cases hsave : (W.saveSession (pruneHeartbeatTurns
      (st.session ++ [.assistant (cfg.rules.compressReply text)]) 10) st.world).1 with
  | none => simp only [LoopState.quiet, hsave]; rfl
  | some e => simp only [LoopState.quiet, hsave]; rfl

theorem checkClaims_quiet (W : World σ) (cfg : TurnConfig) (iteration : Nat) (text : String)
    (outcome : AgentLoopOutcome) (st : LoopState σ) :
    checkClaims W cfg iteration text outcome st.quiet =
      (Streaming.checkClaims W cfg iteration text outcome st).quiet := by
  unfold checkClaims Streaming.checkClaims
  simp only [apply_ite Step.quiet, finishAnswer_quiet]
  rfl

theorem checkPending_quiet (W : World σ) (cfg : TurnConfig) (iteration : Nat) (text : String)
    (st : LoopState σ) :
    checkPending W cfg iteration text st.quiet =
      (Streaming.checkPending W cfg iteration text st).quiet := by
  have hpend : st.quiet.pendingAinlAuthoringFailure = st.pendingAinlAuthoringFailure := rfl
  unfold checkPending Streaming.checkPending
  rw [hpend]
  cases st.pendingAinlAuthoringFailure with
  | none => exact checkClaims_quiet W cfg iteration text .completed st
  | some pending =>
      dsimp only
      split
      · exact checkClaims_quiet W cfg iteration _ .ainlAuthoringUnresolved
          { st with pendingAinlAuthoringFailure := none }
      · rfl

theorem retryEmpty_quiet (W : World σ) (iteration : Nat) (silentFailure : Bool)
    (st : LoopState σ) :
    retryEmpty W iteration silentFailure st.quiet =
      (Streaming.retryEmpty W iteration silentFailure st).quiet := by
  unfold retryEmpty Streaming.retryEmpty
  simp only [apply_ite Step.quiet]
  rfl

theorem endTurnReply_quiet (W : World σ) (cfg : TurnConfig) (iteration : Nat)
    (response : CompletionResponse) (text : String) (st : LoopState σ) :
    endTurnReply W cfg iteration response text st.quiet =
      (Streaming.endTurnReply W cfg iteration response text st).quiet := by
  unfold endTurnReply Streaming.endTurnReply
  simp only [apply_ite Step.quiet, ← retryEmpty_quiet, ← checkPending_quiet]
  rfl

theorem endTurn_quiet (W : World σ) (cfg : TurnConfig) (iteration : Nat)
    (response : CompletionResponse) (st : LoopState σ) :
    endTurn W cfg iteration response st.quiet =
      (Streaming.endTurn W cfg iteration response st).quiet := by
  have hpend : st.quiet.pendingAinlAuthoringFailure = st.pendingAinlAuthoringFailure := rfl
  unfold endTurn Streaming.endTurn
  rw [hpend]
  cases hp : st.pendingAinlAuthoringFailure with
  | none =>
      simp only [apply_ite Step.quiet, ← finishSilent_quiet, ← endTurnReply_quiet]
      rfl
  | some pending =>
      simp only [apply_ite Step.quiet, ← endTurnReply_quiet]
      rfl

/-! ### The tool round -/

theorem precheckCall_quiet (W : World σ) (cfg : TurnConfig) (tc : ToolCall)
    (verdict : LoopGuardVerdict) (st : LoopState σ) :
    precheckCall W cfg tc verdict st.quiet =
      ((Streaming.precheckCall W cfg tc verdict st).1,
        (Streaming.precheckCall W cfg tc verdict st).2.quiet) := by
  unfold precheckCall Streaming.precheckCall
  rw [quiet_world]
  dsimp only
  cases (W.beforeToolCall tc st.world).1 with
  | some reason => rfl
  | none =>
      cases (cfg.tools.find? fun d => d.name == tc.name).bind
        (missingRequiredParamsError cfg.lib tc.name tc.input) <;> rfl

theorem dispatchCall_quiet (W : World σ) (cfg : TurnConfig) (tc : ToolCall) (st : LoopState σ) :
    dispatchCall W cfg tc st.quiet =
      ((Streaming.dispatchCall W cfg tc st).1, (Streaming.dispatchCall W cfg tc st).2.quiet) := by
  unfold dispatchCall Streaming.dispatchCall
  have hsha : st.quiet.lastStrictValidateCodeSha256 = st.lastStrictValidateCodeSha256 := rfl
  have hguard : st.quiet.loopGuard = st.loopGuard := rfl
  rw [hsha, hguard]
  cases ainlRunRequiresStrictValidateFirst cfg.lib tc st.lastStrictValidateCodeSha256
      cfg.allowNonStrict with
  | some message => rfl
  | none =>
      have hcheck := fun verdict => precheckCall_quiet W cfg tc verdict
        { st with loopGuard := (LoopGuard.check cfg.lib st.loopGuard tc.name tc.input).1 }
      dsimp only
      cases (LoopGuard.check cfg.lib st.loopGuard tc.name tc.input).2 with
      | circuitBreak message => rfl
      | block message => rfl
      | allow => exact congrArg (fun out => (Except.ok out.1, out.2)) (hcheck .allow)
      | warn message => exact congrArg (fun out => (Except.ok out.1, out.2)) (hcheck (.warn message))

theorem dispatchCalls_quiet (W : World σ) (cfg : TurnConfig) :
    ∀ (calls : List ToolCall) (st : LoopState σ),
      dispatchCalls W cfg calls st.quiet =
        ((Streaming.dispatchCalls W cfg calls st).1,
          (Streaming.dispatchCalls W cfg calls st).2.quiet)
  | [], _ => rfl
  | tc :: rest, st => by
      simp only [dispatchCalls, Streaming.dispatchCalls, dispatchCall_quiet]
      cases (Streaming.dispatchCall W cfg tc st).1 with
      | error message => rfl
      | ok dispatch =>
          simp only [dispatchCalls_quiet W cfg rest]
          cases (Streaming.dispatchCalls W cfg rest (Streaming.dispatchCall W cfg tc st).2).1 <;>
            rfl

theorem runBatch_quiet (W : World σ) (cfg : TurnConfig) {batch : List ToolCall}
    (hbatch : batch ≠ []) (st : LoopState σ) :
    runBatch W cfg batch st.quiet =
      ((Streaming.runBatch W cfg batch st).1, (Streaming.runBatch W cfg batch st).2.quiet) := by
  unfold runBatch Streaming.runBatch
  rw [if_neg (by simpa using hbatch)]
  rfl

theorem runBatches_quiet (W : World σ) (cfg : TurnConfig) :
    ∀ (batches : List (List ToolCall)), (∀ b ∈ batches, b ≠ []) → ∀ st : LoopState σ,
      runBatches W cfg batches st.quiet =
        ((Streaming.runBatches W cfg batches st).1,
          (Streaming.runBatches W cfg batches st).2.quiet)
  | [], _, _ => rfl
  | batch :: rest, hne, st => by
      have hrest : ∀ b ∈ rest, b ≠ [] := fun b hb => hne b (List.mem_cons_of_mem _ hb)
      simp only [runBatches, Streaming.runBatches,
        runBatch_quiet W cfg (hne batch List.mem_cons_self), runBatches_quiet W cfg rest hrest]

theorem mergeResult_quiet (cfg : TurnConfig) (tc : ToolCall) (verdict : LoopGuardVerdict)
    (result : ToolResult × Option Invocation) (st : LoopState σ) :
    mergeResult cfg tc verdict result st.quiet =
      ((Streaming.mergeResult cfg tc verdict result st).1,
        (Streaming.mergeResult cfg tc verdict result st).2.quiet) := rfl

theorem mergeResults_quiet (cfg : TurnConfig) :
    ∀ (dispatches : List ToolDispatch) (results : List (ToolResult × Option Invocation))
      (st : LoopState σ),
      mergeResults cfg dispatches results st.quiet =
        ((Streaming.mergeResults cfg dispatches results st).1,
          (Streaming.mergeResults cfg dispatches results st).2.quiet)
  | [], _, _ => rfl
  | .resolved _ block :: rest, results, st => by
      simp only [mergeResults, Streaming.mergeResults, mergeResults_quiet cfg rest results]
  | .pending _ _ :: _, [], _ => rfl
  | .pending tc verdict :: rest, result :: results, st => by
      simp only [mergeResults, Streaming.mergeResults, mergeResult_quiet,
        mergeResults_quiet cfg rest results]

theorem runDispatches_quiet (W : World σ) (cfg : TurnConfig) (dispatches : List ToolDispatch)
    (st : LoopState σ) :
    runDispatches W cfg dispatches st.quiet =
      ((Streaming.runDispatches W cfg dispatches st).1,
        (Streaming.runDispatches W cfg dispatches st).2.quiet) := by
  unfold runDispatches Streaming.runDispatches
  simp only [runBatches_quiet W cfg _ fun _ hb => orderedBatches_ne_nil hb, mergeResults_quiet]

theorem injectWrapUp_quiet (cfg : TurnConfig) (iteration : Nat) (st : LoopState σ) :
    injectWrapUp cfg iteration st.quiet = (Streaming.injectWrapUp cfg iteration st).quiet := by
  have hpend : st.quiet.pendingAinlAuthoringFailure = st.pendingAinlAuthoringFailure := rfl
  unfold injectWrapUp Streaming.injectWrapUp
  rw [hpend]
  split
  · cases st.pendingAinlAuthoringFailure <;> rfl
  · rfl

theorem finishRound_quiet (W : World σ) (cfg : TurnConfig) (iteration : Nat)
    (dispatches : List ToolDispatch) (blocks : List ContentBlock) (st : LoopState σ) :
    finishRound W cfg iteration dispatches blocks st.quiet =
      (Streaming.finishRound W cfg iteration dispatches blocks st).quiet := by
  -- Up to the wrap-up prompt both copies compute the same state.
  have hwrap := injectWrapUp_quiet cfg iteration
    { (Streaming.annotateResults W cfg blocks
        (Streaming.updateAinlGate cfg dispatches blocks st)).2 with
      session := (Streaming.annotateResults W cfg blocks
        (Streaming.updateAinlGate cfg dispatches blocks st)).2.session ++
          [.userWithBlocks (Streaming.annotateResults W cfg blocks
            (Streaming.updateAinlGate cfg dispatches blocks st)).1]
      messages := (Streaming.annotateResults W cfg blocks
        (Streaming.updateAinlGate cfg dispatches blocks st)).2.messages ++
          [.userWithBlocks (Streaming.annotateResults W cfg blocks
            (Streaming.updateAinlGate cfg dispatches blocks st)).1] }
  exact congrArg (fun st => Step.next
    { st with world := (W.saveSession st.session st.world).2 }) hwrap

theorem checkAllBlocked_quiet (W : World σ) (cfg : TurnConfig) (iteration : Nat)
    (dispatches : List ToolDispatch) (blocks : List ContentBlock) (st : LoopState σ) :
    checkAllBlocked W cfg iteration dispatches blocks st.quiet =
      (Streaming.checkAllBlocked W cfg iteration dispatches blocks st).quiet := by
  unfold checkAllBlocked Streaming.checkAllBlocked
  simp only [apply_ite Step.quiet, ← finishRound_quiet]
  rfl

theorem toolRound_quiet (W : World σ) (cfg : TurnConfig) (iteration : Nat)
    (response : CompletionResponse) (st : LoopState σ) :
    toolRound W cfg iteration response st.quiet =
      (Streaming.toolRound W cfg iteration response st).quiet := by
  have hopen : openRound response st.quiet = (Streaming.openRound response st).quiet := rfl
  unfold toolRound Streaming.toolRound
  rw [hopen, dispatchCalls_quiet]
  dsimp only
  cases (Streaming.dispatchCalls W cfg (deduplicateToolCalls cfg.lib response.toolCalls)
      (Streaming.openRound response st)).1 with
  | error message => rfl
  | ok dispatches =>
      simp only [runDispatches_quiet]
      exact checkAllBlocked_quiet W cfg iteration dispatches _ _

/-! ### The loop -/

theorem continueTokens_quiet (W : World σ) (cfg : TurnConfig) (iteration : Nat)
    (response : CompletionResponse) (st : LoopState σ) :
    continueTokens W cfg iteration response st.quiet =
      (Streaming.continueTokens W cfg iteration response st).quiet := by
  have hpend : st.quiet.pendingAinlAuthoringFailure = st.pendingAinlAuthoringFailure := rfl
  have hcount : st.quiet.consecutiveMaxTokens = st.consecutiveMaxTokens := rfl
  unfold continueTokens Streaming.continueTokens
  simp only [hpend, hcount]
  split
  · cases st.pendingAinlAuthoringFailure <;> rfl
  · rfl

theorem handleResponse_quiet (W : World σ) (cfg : TurnConfig) (iteration : Nat)
    (response : CompletionResponse) (st : LoopState σ) :
    handleResponse W cfg iteration response st.quiet =
      (Streaming.handleResponse W cfg iteration response st).quiet := by
  have hlog : { st.quiet with log := st.quiet.log ++ [Event.response response] } =
      { st with log := st.log ++ [Event.response response] }.quiet := rfl
  unfold handleResponse Streaming.handleResponse
  rw [hlog]
  cases response.stopReason with
  | endTurn => exact endTurn_quiet W cfg iteration response _
  | stopSequence => exact endTurn_quiet W cfg iteration response _
  | toolUse => exact toolRound_quiet W cfg iteration response _
  | maxTokens => exact continueTokens_quiet W cfg iteration response _

/-- One iteration: without the planner path, the plain iteration is the streaming one
with the stream forgotten. -/
theorem iterate_quiet {W : World σ} (hW : StreamsAsCompletes W) {cfg : TurnConfig}
    (hplan : cfg.plannerPathEligible = false) (iteration : Nat) (st : LoopState σ) :
    iterate W cfg iteration st.quiet = (Streaming.iterate W cfg iteration st).quiet := by
  unfold iterate Streaming.iterate
  rw [if_neg (by simp [hplan]), prepareRequest_quiet]
  generalize Streaming.prepareRequest W cfg st = prepared
  have hcall := callWithRetry_quiet hW cfg (completionRequest cfg prepared.quiet)
    (Streaming.send prepared (Streaming.iterationEvent iteration))
  rw [send_quiet] at hcall
  have hreq : completionRequest cfg prepared.quiet = Streaming.completionRequest cfg prepared := rfl
  unfold requestAndHandle
  rw [hcall, hreq]
  dsimp only
  generalize streamWithRetry W cfg (Streaming.completionRequest cfg prepared)
    (Streaming.send prepared (Streaming.iterationEvent iteration)) = called
  obtain ⟨called, after⟩ := called
  cases called with
  | error e => rfl
  | ok served =>
      have hrec : recordResponse served.1 served.2 after.quiet =
          (Streaming.recordResponse served.1 served.2 after).quiet := rfl
      dsimp only
      rw [hrec, recoverTextCalls_quiet]
      exact handleResponse_quiet W cfg iteration _ _

theorem runIterations_quiet {W : World σ} (hW : StreamsAsCompletes W) {cfg : TurnConfig}
    (hplan : cfg.plannerPathEligible = false) :
    ∀ (remaining iteration : Nat) (st : LoopState σ),
      runIterations W cfg remaining iteration st.quiet =
        ((Streaming.runIterations W cfg remaining iteration st).1,
          (Streaming.runIterations W cfg remaining iteration st).2.quiet)
  | 0, _, _ => rfl
  | remaining + 1, iteration, st => by
      simp only [runIterations, Streaming.runIterations, iterate_quiet hW hplan]
      cases Streaming.iterate W cfg iteration st with
      | done result st => rfl
      | next st => exact runIterations_quiet hW hplan remaining (iteration + 1) st

theorem startTurn_quiet {cfg : TurnConfig} (hplan : cfg.plannerPathEligible = false)
    (session : List Message) (world : σ) :
    startTurn cfg session world = (Streaming.startTurn cfg session world).quiet := by
  have hprompt : systemPromptOf cfg = Streaming.systemPromptOf cfg := by
    simp [systemPromptOf, Streaming.systemPromptOf, hplan]
  unfold startTurn Streaming.startTurn
  rw [hprompt]
  rfl

/-- The streaming loop is the plain loop with a stream beside it: when every stream ends
with what a plain call returns and the planner path is not taken, both return the same
result or error, and end in the same state but for what was streamed. -/
theorem runAgentLoopStreaming_quiet {W : World σ} (hW : StreamsAsCompletes W)
    {cfg : TurnConfig} (hplan : cfg.plannerPathEligible = false) (session : List Message)
    (world : σ) :
    runAgentLoop W cfg session world =
      ((Streaming.runAgentLoopStreaming W cfg session world).1,
        (Streaming.runAgentLoopStreaming W cfg session world).2.quiet) := by
  unfold runAgentLoop Streaming.runAgentLoopStreaming
  rw [if_neg (by simp [hplan]), startTurn_quiet hplan]
  exact runIterations_quiet hW hplan _ _ _

/-- The two loops agree on a turn: the same result (outcome, response, usage and
iterations) or error, the same session messages, and the same requests, responses, tool
calls and results in the same order. -/
theorem streaming_loop_matches_plain {W : World σ} (hW : StreamsAsCompletes W)
    {cfg : TurnConfig} (hplan : cfg.plannerPathEligible = false) (session : List Message)
    (world : σ) :
    let plain := runAgentLoop W cfg session world
    let streaming := Streaming.runAgentLoopStreaming W cfg session world
    streaming.1 = plain.1 ∧ streaming.2.session = plain.2.session ∧
      streaming.2.log = plain.2.log ∧ streaming.2.world = plain.2.world := by
  intro plain streaming
  have h : plain = (streaming.1, streaming.2.quiet) :=
    runAgentLoopStreaming_quiet hW hplan session world
  rw [h]
  exact ⟨rfl, rfl, rfl, rfl⟩

/-- A turn with one tool call and an answer. -/
theorem streaming_loop_matches_plain_one_call :
    let script : Script :=
      { replies :=
          [.ok (callReply [⟨"c1", "file_read", .obj [("path", .str "a.txt")]⟩]),
            .ok (textReply "It says hello.")]
        outcomes := [⟨"hello", false⟩] }
    let cfg := scriptedTurn ["file_read"] "What does a.txt say?" 8
    let plain := runAgentLoop scriptedWorld cfg [] script
    let streaming := Streaming.runAgentLoopStreaming scriptedWorld cfg [] script
    plain.1.toOption.map AgentLoopResult.response = some "It says hello." ∧
      streaming.1 = plain.1 ∧ streaming.2.session = plain.2.session ∧
      streaming.2.log = plain.2.log :=
  ⟨by decide +kernel,
    (streaming_loop_matches_plain (fun _ _ _ => rfl) rfl [] _).1,
    (streaming_loop_matches_plain (fun _ _ _ => rfl) rfl [] _).2.1,
    (streaming_loop_matches_plain (fun _ _ _ => rfl) rfl [] _).2.2.1⟩

end ArmaraOS.Agent
