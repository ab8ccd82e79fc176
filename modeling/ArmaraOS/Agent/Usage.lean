import ArmaraOS.Agent.Runs
import ArmaraOS.Agent.Script

/-!
The token counts of a turn.

The loop adds the input and the output tokens of each response it handles. It adds no cache tokens,
it forgets the inference of a planner whose plan does not complete, and it never sees what the plan
executor receives. `Balances` says how the total of a turn stands to what was received
(`total_usage_exact_iff`).
-/

namespace ArmaraOS.Agent

variable {σ : Type}

/-! ### Sums of token counts -/

/-- The sums of the four counts. -/
def sumUsage (usages : List TokenUsage) : TokenUsage where
  inputTokens := (usages.map TokenUsage.inputTokens).sum
  outputTokens := (usages.map TokenUsage.outputTokens).sum
  cacheCreationInputTokens := (usages.map TokenUsage.cacheCreationInputTokens).sum
  cacheReadInputTokens := (usages.map TokenUsage.cacheReadInputTokens).sum

/-- Responses that used neither input nor output tokens. -/
def Costless (usages : List TokenUsage) : Prop :=
  ∀ u ∈ usages, u.inputTokens = 0 ∧ u.outputTokens = 0

/-- Responses that used no cache. -/
def Uncached (usages : List TokenUsage) : Prop :=
  ∀ u ∈ usages, u.cacheCreationInputTokens = 0 ∧ u.cacheReadInputTokens = 0

/-- With the lost responses added, the total is that of the received ones, but for the cache. -/
structure Balances (total : TokenUsage) (lost received : List TokenUsage) : Prop where
  input : total.inputTokens + (sumUsage lost).inputTokens = (sumUsage received).inputTokens
  output : total.outputTokens + (sumUsage lost).outputTokens = (sumUsage received).outputTokens
  cache : total.cacheCreationInputTokens = 0 ∧ total.cacheReadInputTokens = 0

theorem costless_iff {usages : List TokenUsage} :
    Costless usages ↔ (sumUsage usages).inputTokens = 0 ∧ (sumUsage usages).outputTokens = 0 := by
  simp [Costless, sumUsage, List.sum_eq_zero_iff_forall_eq_nat, forall_and]

theorem uncached_iff {usages : List TokenUsage} :
    Uncached usages ↔ (sumUsage usages).cacheCreationInputTokens = 0 ∧
      (sumUsage usages).cacheReadInputTokens = 0 := by
  simp [Uncached, sumUsage, List.sum_eq_zero_iff_forall_eq_nat, forall_and]

/-- A total that balances is exact if nothing that cost anything was lost and nothing was cached. -/
theorem Balances.exact_iff {total : TokenUsage} {lost received : List TokenUsage}
    (h : Balances total lost received) :
    total = sumUsage received ↔ Uncached received ∧ Costless lost := by
  obtain ⟨hinput, houtput, hcreation, hread⟩ := h
  rw [costless_iff, uncached_iff, TokenUsage.mk.injEq]
  omega

theorem sumUsage_append (usages usages' : List TokenUsage) :
    sumUsage (usages ++ usages') =
      { inputTokens := (sumUsage usages).inputTokens + (sumUsage usages').inputTokens
        outputTokens := (sumUsage usages).outputTokens + (sumUsage usages').outputTokens
        cacheCreationInputTokens := (sumUsage usages).cacheCreationInputTokens +
          (sumUsage usages').cacheCreationInputTokens
        cacheReadInputTokens := (sumUsage usages).cacheReadInputTokens +
          (sumUsage usages').cacheReadInputTokens } := by
  simp [sumUsage]

theorem sumUsage_cons (u : TokenUsage) (usages : List TokenUsage) :
    (sumUsage (u :: usages)).inputTokens = u.inputTokens + (sumUsage usages).inputTokens ∧
      (sumUsage (u :: usages)).outputTokens = u.outputTokens + (sumUsage usages).outputTokens :=
  ⟨by simp [sumUsage], by simp [sumUsage]⟩

section Balances

variable {total u : TokenUsage} {lost received more : List TokenUsage}

/-- A response of which something is counted and the rest is lost. -/
theorem Balances.count (h : Balances total lost received) :
    Balances
      { total with
        inputTokens := total.inputTokens + u.inputTokens
        outputTokens := total.outputTokens + u.outputTokens }
      (lost ++ more) (received ++ u :: more) := by
  obtain ⟨hinput, houtput, hcache⟩ := h
  obtain ⟨hin, hout⟩ := sumUsage_cons u more
  refine ⟨?_, ?_, hcache⟩
  · simp only [sumUsage_append, hin]
    omega
  · simp only [sumUsage_append, hout]
    omega

/-- Responses that are lost. -/
theorem Balances.lose (h : Balances total lost received) :
    Balances total (lost ++ more) (received ++ more) := by
  obtain ⟨hinput, houtput, hcache⟩ := h
  refine ⟨?_, ?_, hcache⟩ <;>
  · simp only [sumUsage_append]
    omega

end Balances

/-! ### The responses that a turn receives -/

/-- An account, kept by the world, of the responses that a turn received: those of its drivers, and
those of a planner, which are the inference of the plan and then whatever the executor of the plan
received itself. Nothing else that the loop does is answered by a model. -/
structure Meter (W : World σ) where
  received : σ → List TokenUsage
  inferred : List Message → σ → List TokenUsage
  complete : ∀ driver request w, received (W.complete driver request w).2 =
    received w ++ ((W.complete driver request w).1.toOption.map CompletionResponse.usage).toList
  plan : ∀ messages w, received (W.plan messages w).2 = received w ++ inferred messages w
  inference : ∀ messages w usage steps summary,
    (W.plan messages w).1 = .executed usage steps summary →
      (inferred messages w).head? = some usage
  adhocDriver : ∀ driver w, received (W.adhocDriver driver w).2 = received w
  drainBtw : ∀ w, received (W.drainBtw w).2 = received w
  recvRedirect : ∀ w, received (W.recvRedirect w).2 = received w
  beforeToolCall : ∀ call w, received (W.beforeToolCall call w).2 = received w
  runBatch : ∀ batch w, received (W.runBatch batch w).2 = received w
  saveSession : ∀ session w, received (W.saveSession session w).2 = received w
  newUuid : ∀ w, received (W.newUuid w).2 = received w
  hashOrder : ∀ names w, received (W.hashOrder names w).2 = received w

attribute [simp] Meter.adhocDriver Meter.drainBtw Meter.recvRedirect Meter.beforeToolCall
  Meter.runBatch Meter.saveSession Meter.newUuid Meter.hashOrder

namespace Meter

variable {W : World σ} (M : Meter W)

/-- The responses of a planner that its turn does not count: all of them, but for the inference of
a plan that completes. -/
def lostByPlan (messages : List Message) (w : σ) : List TokenUsage :=
  match (W.plan messages w).1 with
  | .executed _ _ (some _) => (M.inferred messages w).tail
  | _ => M.inferred messages w

/-- The responses that a turn does not count. -/
def lost (cfg : TurnConfig) (session : List Message) (world : σ) : List TokenUsage :=
  let st := prepareRequest W cfg (startTurn cfg session world)
  if cfg.maxIterations ≠ 0 ∧ cfg.plannerPathEligible = true then M.lostByPlan st.messages st.world
  else []

/-- The total of a state and what was received so far. -/
def account (st : LoopState σ) : TokenUsage × List TokenUsage :=
  (st.totalUsage, M.received st.world)

/-! ### What leaves the account alone -/

section Same

variable {M} (cfg : TurnConfig) (st : LoopState σ)

@[simp] theorem account_prepareRequest : M.account (prepareRequest W cfg st) = M.account st := by
  unfold prepareRequest guardContext recoverOverflow applyRedirect injectBtw
  dsimp only
  split <;> simp [account]

theorem account_dispatchPlanned (step : ToolCall) :
    M.account (dispatchPlannedToolCall W cfg step st) = M.account st := by
  unfold dispatchPlannedToolCall
  split
  · rfl
  · simp [account]

theorem account_plannedSteps (steps : List ToolCall) :
    M.account (steps.foldl (fun st step => dispatchPlannedToolCall W cfg step st) st) =
      M.account st := by
  induction steps generalizing st with
  | nil => rfl
  | cons step steps ih => rw [List.foldl_cons, ih, account_dispatchPlanned]

theorem received_assignIds (found : List (String × Json)) (w : σ) :
    M.received (assignIds W found w).2 = M.received w := by
  induction found generalizing w with
  | nil => rfl
  | cons found rest ih =>
      obtain ⟨name, input⟩ := found
      simp [assignIds, ih]

theorem account_recoverTextCalls (response : CompletionResponse) :
    M.account (recoverTextCalls W cfg response st).2 = M.account st := by
  unfold recoverTextCalls
  split
  · dsimp only
    split
    · rfl
    · simp [account, received_assignIds]
  · rfl

theorem account_precheckCall (tc : ToolCall) (verdict : LoopGuardVerdict) :
    M.account (precheckCall W cfg tc verdict st).2 = M.account st := by
  unfold precheckCall
  dsimp only
  split
  · simp [account]
  · split <;> simp [account]

theorem account_dispatchCall (tc : ToolCall) :
    M.account (dispatchCall W cfg tc st).2 = M.account st := by
  unfold dispatchCall
  split
  · rfl
  · dsimp only
    split
    · rfl
    · rfl
    · exact account_precheckCall cfg _ tc _

theorem account_dispatchCalls (calls : List ToolCall) :
    M.account (dispatchCalls W cfg calls st).2 = M.account st := by
  induction calls generalizing st with
  | nil => rfl
  | cons tc rest ih =>
      have hhead := account_dispatchCall (M := M) cfg st tc
      unfold dispatchCalls
      dsimp only
      split
      · exact hhead
      · split <;> exact (ih _).trans hhead

theorem account_runBatches (batches : List (List ToolCall)) :
    M.account (runBatches W cfg batches st).2 = M.account st := by
  induction batches generalizing st with
  | nil => rfl
  | cons batch rest ih =>
      have hhead : M.account (Agent.runBatch W cfg batch st).2 = M.account st := by
        simp [account, Agent.runBatch]
      exact (ih _).trans hhead

theorem account_mergeResults (dispatches : List ToolDispatch)
    (results : List (ToolResult × Option Invocation)) :
    M.account (mergeResults cfg dispatches results st).2 = M.account st := by
  induction dispatches generalizing results st with
  | nil => rfl
  | cons dispatch rest ih =>
      cases dispatch with
      | resolved call block => exact ih st results
      | pending tc verdict =>
          cases results with
          | nil => rfl
          | cons result results => exact ih _ results

theorem account_runDispatches (dispatches : List ToolDispatch) :
    M.account (runDispatches W cfg dispatches st).2 = M.account st :=
  (account_mergeResults cfg _ dispatches _).trans (account_runBatches cfg st _)

end Same

/-! ### What a response leaves of the account -/

/-- A step leaves the account of its state alone, and a turn that it ends reports its total. -/
def Keeps (st : LoopState σ) (step : Step σ) : Prop :=
  M.account step.state = M.account st ∧
    ∀ r st', step = .done (.ok r) st' → r.totalUsage = st.totalUsage

section Keeps

variable {M} {cfg : TurnConfig} {iteration : Nat} {response : CompletionResponse}
  {st st' : LoopState σ}

theorem keeps_next (h : M.account st' = M.account st) : M.Keeps st (.next st') :=
  ⟨h, fun _ _ hstep => nomatch hstep⟩

theorem keeps_error {e : LoopError} (h : M.account st' = M.account st) :
    M.Keeps st (.done (.error e) st') :=
  ⟨h, fun _ _ hstep => by cases hstep⟩

theorem keeps_ok {r : AgentLoopResult} (h : M.account st' = M.account st)
    (hr : r.totalUsage = st.totalUsage) : M.Keeps st (.done (.ok r) st') := by
  refine ⟨h, fun r' st'' hstep => ?_⟩
  cases hstep
  exact hr

theorem Keeps.of_same {step : Step σ} (h : M.Keeps st step) (hsame : M.account st = M.account st') :
    M.Keeps st' step := by
  refine ⟨h.1.trans hsame, fun r final hstep => ?_⟩
  exact (h.2 r final hstep).trans (congrArg Prod.fst hsame)

theorem finishUnsaved_keeps (iterations : Nat) (text : String) (outcome : AgentLoopOutcome) :
    M.Keeps st (finishUnsaved W st iterations text outcome) :=
  keeps_ok (by simp [account, closeSession]) rfl

theorem finishSilent_keeps (directives : DirectiveSet) :
    M.Keeps st (finishSilent W iteration directives st) := by
  unfold finishSilent
  dsimp only
  split
  · exact keeps_error (by simp [account])
  · exact keeps_ok (by simp [account]) rfl

theorem finishAnswer_keeps (text : String) (outcome : AgentLoopOutcome) :
    M.Keeps st (finishAnswer W cfg iteration text outcome st) := by
  unfold finishAnswer
  dsimp only
  split
  · exact keeps_error (by simp [account])
  · exact keeps_ok (by simp [account]) rfl

theorem checkClaims_keeps (text : String) (outcome : AgentLoopOutcome) :
    M.Keeps st (checkClaims W cfg iteration text outcome st) := by
  unfold checkClaims
  split
  · exact keeps_next rfl
  · split
    · exact keeps_next rfl
    · split
      · exact keeps_next rfl
      · split
        · exact keeps_next rfl
        · exact finishAnswer_keeps text outcome

theorem checkPending_keeps (text : String) :
    M.Keeps st (checkPending W cfg iteration text st) := by
  unfold checkPending
  split
  · exact checkClaims_keeps text .completed
  · dsimp only
    split
    · exact (checkClaims_keeps _ _).of_same rfl
    · exact keeps_next rfl

theorem retryEmpty_keeps (silentFailure : Bool) :
    M.Keeps st (retryEmpty W iteration silentFailure st) := by
  unfold retryEmpty
  dsimp only
  generalize (st.consecutiveSilentFailures + if silentFailure then 1 else 0) = failures
  split
  · exact (finishUnsaved_keeps _ _ _).of_same rfl
  · exact keeps_next rfl

theorem endTurnReply_keeps (text : String) :
    M.Keeps st (endTurnReply W cfg iteration response text st) := by
  unfold endTurnReply
  dsimp only
  split
  · split
    · exact retryEmpty_keeps _
    · exact checkPending_keeps _
  · exact (checkPending_keeps _).of_same rfl

theorem endTurn_keeps : M.Keeps st (endTurn W cfg iteration response st) := by
  unfold endTurn
  dsimp only
  split
  · split
    · exact keeps_next rfl
    · split
      · exact keeps_next rfl
      · exact finishSilent_keeps _
  · exact endTurnReply_keeps _

theorem finishRound_keeps (dispatches : List ToolDispatch) (blocks : List ContentBlock) :
    M.Keeps st (finishRound W cfg iteration dispatches blocks st) := by
  unfold finishRound injectWrapUp annotateResults updateAinlGate
  dsimp only
  split
  · split <;> exact keeps_next (by simp [account, LoopState.prompt])
  · exact keeps_next (by simp [account])

theorem toolRound_keeps : M.Keeps st (toolRound W cfg iteration response st) := by
  have hpassed : M.account (dispatchCalls W cfg
      (deduplicateToolCalls cfg.lib response.toolCalls) (openRound response st)).2 =
        M.account st := account_dispatchCalls cfg (openRound response st) _
  unfold toolRound
  dsimp only
  split
  · exact keeps_error (by simpa [account] using hpassed)
  · next dispatches _ =>
    have hran := (account_runDispatches (M := M) cfg _ dispatches).trans hpassed
    unfold checkAllBlocked
    dsimp only
    generalize (if allBlocked _ then _ + 1 else 0) = count
    split
    · exact (finishUnsaved_keeps _ _ _).of_same hran
    · exact (finishRound_keeps _ _).of_same hran

theorem continueTokens_keeps : M.Keeps st (continueTokens W cfg iteration response st) := by
  unfold continueTokens
  dsimp only
  split
  · split <;> exact (finishUnsaved_keeps _ _ _).of_same rfl
  · exact keeps_next rfl

theorem handleResponse_keeps : M.Keeps st (handleResponse W cfg iteration response st) := by
  unfold handleResponse
  cases response.stopReason with
  | endTurn => exact endTurn_keeps.of_same rfl
  | stopSequence => exact endTurn_keeps.of_same rfl
  | toolUse => exact toolRound_keeps.of_same rfl
  | maxTokens => exact continueTokens_keeps.of_same rfl

end Keeps

/-! ### Requests -/

/-- What a request adds to the account: the response, if there is one. -/
def Receives (st : LoopState σ) (answer : Option CompletionResponse) (st' : LoopState σ) : Prop :=
  st'.totalUsage = st.totalUsage ∧
    M.received st'.world =
      M.received st.world ++ (answer.map CompletionResponse.usage).toList

section Requests

variable {M} (req : CompletionRequest) (cfg : TurnConfig) {st st' : LoopState σ}

theorem Receives.after {answer : Option CompletionResponse} (h : M.Receives st' answer st)
    {before : LoopState σ} (hsame : M.account st' = M.account before) :
    M.Receives before answer st := by
  obtain ⟨htotal, hreceived⟩ := Prod.mk.inj hsame
  exact ⟨h.1.trans htotal, h.2.trans (by rw [hreceived])⟩

theorem account_of_unanswered (h : M.Receives st none st') : M.account st' = M.account st := by
  rw [account, account, h.1, h.2]
  simp

theorem callComplete_receives (driver : DriverRef) (st : LoopState σ) :
    M.Receives st (callComplete W driver req st).1.toOption (callComplete W driver req st).2 :=
  ⟨rfl, M.complete driver req st.world⟩

theorem account_adhoc (driver : DriverRef) (st : LoopState σ) :
    M.account { st with world := (W.adhocDriver driver st.world).2 } = M.account st := by
  simp [account]

theorem tryOpenrouterModels_receives (models : List String) (st : LoopState σ) :
    M.Receives st ((tryOpenrouterModels W req models st).1.map Prod.fst)
      (tryOpenrouterModels W req models st).2 := by
  induction models generalizing st with
  | nil => exact ⟨rfl, by simp [tryOpenrouterModels]⟩
  | cons model rest ih =>
      have hcall := callComplete_receives (M := M) { req with model := model } .openrouter st
      unfold tryOpenrouterModels
      dsimp only
      cases hanswer : (callComplete W .openrouter { req with model := model } st).1 with
      | ok response =>
          rw [hanswer] at hcall
          exact hcall
      | error e =>
          rw [hanswer] at hcall
          exact (ih _).after (account_of_unanswered hcall)

theorem tryOpenrouterFreeFallbacks_receives (st : LoopState σ) :
    M.Receives st ((tryOpenrouterFreeFallbacks W req st).1.map Prod.fst)
      (tryOpenrouterFreeFallbacks W req st).2 := by
  unfold tryOpenrouterFreeFallbacks
  dsimp only
  split
  · exact (tryOpenrouterModels_receives req _ _).after (account_adhoc _ st)
  · exact Receives.after ⟨rfl, by simp⟩ (account_adhoc _ st)

theorem tryFallbackModels_receives (idx : Nat) (models : List FallbackModel) (st : LoopState σ) :
    M.Receives st ((tryFallbackModels W req idx models st).1.map Prod.fst)
      (tryFallbackModels W req idx models st).2 := by
  induction models generalizing idx st with
  | nil => exact ⟨rfl, by simp [tryFallbackModels]⟩
  | cons fb rest ih =>
      have hadhoc := account_adhoc (M := M) (.fallback idx) st
      have hcall := callComplete_receives (M := M) { req with model := fb.model } (.fallback idx)
        { st with world := (W.adhocDriver (.fallback idx) st.world).2 }
      unfold tryFallbackModels
      dsimp only
      split
      · cases hanswer : (callComplete W (.fallback idx) { req with model := fb.model }
          { st with world := (W.adhocDriver (.fallback idx) st.world).2 }).1 with
        | ok response =>
            rw [hanswer] at hcall
            exact hcall.after hadhoc
        | error e =>
            rw [hanswer] at hcall
            exact (ih _ _).after ((account_of_unanswered hcall).trans hadhoc)
      · exact (ih _ _).after hadhoc

/-- The response that a call with retries gives. -/
def responseOf (called : Except LoopError (CompletionResponse × Option LlmFallbackUsed)) :
    Option CompletionResponse := called.toOption.map Prod.fst

theorem throttledCall_receives (message : String) (st : LoopState σ) :
    M.Receives st (responseOf (throttledCall W req message st).1)
      (throttledCall W req message st).2 := by
  have h := tryOpenrouterFreeFallbacks_receives (M := M) req st
  unfold throttledCall
  dsimp only
  cases hanswer : (tryOpenrouterFreeFallbacks W req st).1 <;>
  · rw [hanswer] at h
    exact h

theorem failedCall_receives (e : LlmError) (st : LoopState σ) :
    M.Receives st (responseOf (failedCall W cfg req e st).1) (failedCall W cfg req e st).2 := by
  have h := tryFallbackModels_receives (M := M) req 0 cfg.fallbackModels st
  unfold failedCall
  dsimp only
  split
  · cases hanswer : (tryFallbackModels W req 0 cfg.fallbackModels st).1 <;>
    · rw [hanswer] at h
      exact h
  · exact ⟨rfl, by simp [responseOf, Except.toOption]⟩

theorem callAttempts_receives (retries : Nat) (st : LoopState σ) :
    M.Receives st (responseOf (callAttempts W cfg req retries st).1)
      (callAttempts W cfg req retries st).2 := by
  induction retries generalizing st with
  | zero =>
      have hcall := callComplete_receives (M := M) req .primary st
      unfold callAttempts
      dsimp only
      cases hanswer : (callComplete W .primary req st).1 with
      | ok response =>
          rw [hanswer] at hcall
          exact hcall
      | error e =>
          rw [hanswer] at hcall
          have hsame := account_of_unanswered hcall
          cases e with
          | rateLimited after => exact (throttledCall_receives req _ _).after hsame
          | overloaded after => exact (throttledCall_receives req _ _).after hsame
          | _ => exact (failedCall_receives req cfg _ _).after hsame
  | succ n ih =>
      have hcall := callComplete_receives (M := M) req .primary st
      unfold callAttempts
      dsimp only
      cases hanswer : (callComplete W .primary req st).1 with
      | ok response =>
          rw [hanswer] at hcall
          exact hcall
      | error e =>
          rw [hanswer] at hcall
          have hsame := account_of_unanswered hcall
          cases e with
          | rateLimited after => exact (ih _).after hsame
          | overloaded after => exact (ih _).after hsame
          | _ => exact (failedCall_receives req cfg _ _).after hsame

end Requests

/-! ### The account of a turn -/

/-- What an iteration leaves balances, and so does what a turn that it ends reports. -/
def StepBalances (lost : List TokenUsage) (step : Step σ) : Prop :=
  (∀ st', step = .next st' → Balances st'.totalUsage lost (M.received st'.world)) ∧
    ∀ r st', step = .done (.ok r) st' → Balances r.totalUsage lost (M.received st'.world)

section Turn

variable {M} {cfg : TurnConfig} {iteration : Nat} {st : LoopState σ} {lost : List TokenUsage}

theorem Keeps.balances {step : Step σ} (h : M.Keeps st step)
    (hbalances : Balances st.totalUsage lost (M.received st.world)) :
    M.StepBalances lost step := by
  obtain ⟨hsame, hresult⟩ := h
  obtain ⟨htotal, hreceived⟩ := Prod.mk.inj hsame
  refine ⟨fun st' hstep => ?_, fun r st' hstep => ?_⟩
  · rw [hstep, state_next] at htotal hreceived
    rwa [htotal, hreceived]
  · have hstate := hreceived
    rw [hstep, state_done] at hstate
    rwa [hresult r st' hstep, hstate]

theorem requestAndHandle_balances (h : Balances st.totalUsage lost (M.received st.world)) :
    M.StepBalances lost (requestAndHandle W cfg iteration st) := by
  have hcalled : M.Receives st (responseOf (callWithRetry W cfg (completionRequest cfg st) st).1)
      (callWithRetry W cfg (completionRequest cfg st) st).2 :=
    callAttempts_receives (completionRequest cfg st) cfg maxRetries st
  unfold requestAndHandle
  dsimp only
  cases hanswer : (callWithRetry W cfg (completionRequest cfg st) st).1 with
  | error e => exact ⟨fun _ hstep => (nomatch hstep), fun _ _ hstep => by cases hstep⟩
  | ok served =>
      obtain ⟨response, used⟩ := served
      rw [hanswer] at hcalled
      obtain ⟨htotal, hreceived⟩ := hcalled
      have hreceived' : M.received (callWithRetry W cfg (completionRequest cfg st) st).2.world =
          M.received st.world ++ [response.usage] := hreceived
      have hcounted := @Balances.count _ response.usage _ _ [] h
      rw [List.append_nil, ← hreceived', ← htotal] at hcounted
      refine handleResponse_keeps.balances ?_
      obtain ⟨hsame, hworld⟩ := Prod.mk.inj (account_recoverTextCalls (M := M) cfg
        (recordResponse response used (callWithRetry W cfg (completionRequest cfg st) st).2)
        response)
      rw [hsame, hworld]
      exact hcounted

/-- **The step lemma**, without the planner. -/
theorem iterate_balances (hlater : ¬(iteration = 0 ∧ cfg.plannerPathEligible = true))
    (h : Balances st.totalUsage lost (M.received st.world)) :
    M.StepBalances lost (iterate W cfg iteration st) := by
  obtain ⟨htotal, hreceived⟩ := Prod.mk.inj (account_prepareRequest (M := M) cfg st)
  unfold iterate
  dsimp only
  rw [if_neg hlater]
  exact requestAndHandle_balances (by rwa [htotal, hreceived])

/-- What the planner leaves behind a plan that does not complete the turn, and what it reports. -/
theorem runPlanner_balances (h : Balances st.totalUsage [] (M.received st.world)) :
    M.StepBalances (M.lostByPlan st.messages st.world) (runPlanner W cfg st) := by
  have hplan := M.plan st.messages st.world
  have hlost := @Balances.lose _ _ _ (M.inferred st.messages st.world) h
  rw [List.nil_append, ← hplan] at hlost
  unfold runPlanner lostByPlan
  dsimp only
  cases hreply : (W.plan st.messages st.world).1 with
  | unusable =>
      refine ⟨fun st' hstep => ?_, fun _ _ hstep => by cases hstep⟩
      obtain rfl := Step.next.inj hstep
      exact hlost
  | executed usage steps summary =>
      obtain ⟨htotal, hreceived⟩ := Prod.mk.inj (account_plannedSteps (M := M) cfg
        { st with world := (W.plan st.messages st.world).2 } steps)
      have hhead := M.inference _ _ _ _ _ hreply
      cases summary with
      | none =>
          refine ⟨fun st' hstep => ?_, fun _ _ hstep => by cases hstep⟩
          obtain rfl := Step.next.inj hstep
          rw [htotal, hreceived]
          exact hlost
      | some text =>
          obtain ⟨rest, hrest⟩ := List.head?_eq_some_iff.mp hhead
          have hcounted := @Balances.count _ usage _ _ rest h
          rw [List.nil_append, ← hrest, ← hplan] at hcounted
          dsimp only
          split
          · exact ⟨fun _ hstep => (nomatch hstep), fun _ _ hstep => by cases hstep⟩
          · refine ⟨fun _ hstep => (nomatch hstep), fun r st' hstep => ?_⟩
            cases hstep
            simp only [hrest, List.tail_cons, M.saveSession, htotal, hreceived]
            exact hcounted

/-- **The step lemma** of an iteration in which the planner runs. -/
theorem iterate_planner_balances (hplanner : cfg.plannerPathEligible = true)
    (h : Balances st.totalUsage [] (M.received st.world)) :
    M.StepBalances
      (M.lostByPlan (prepareRequest W cfg st).messages (prepareRequest W cfg st).world)
      (iterate W cfg 0 st) := by
  obtain ⟨htotal, hreceived⟩ := Prod.mk.inj (account_prepareRequest (M := M) cfg st)
  have hran := @runPlanner_balances σ W M cfg (prepareRequest W cfg st)
    (by rwa [htotal, hreceived])
  unfold iterate
  dsimp only
  rw [if_pos ⟨rfl, hplanner⟩]
  split
  · next result st' hstep =>
    exact ⟨fun _ hnext => (nomatch hnext), fun r st'' hdone => hran.2 r st'' (hstep.trans hdone)⟩
  · next st' hstep => exact requestAndHandle_balances (hran.1 st' hstep)

variable {session : List Message} {world : σ}

theorem startTurn_balances (hstart : M.received world = []) :
    Balances (startTurn cfg session world).totalUsage []
      (M.received (startTurn cfg session world).world) := by
  have hworld : (startTurn cfg session world).world = world := rfl
  rw [hworld, hstart]
  exact ⟨rfl, rfl, rfl, rfl⟩

/-- What an iteration of a turn leaves balances, if the state before it does. -/
theorem iterate_turn_balances (hstart : M.received world = [])
    (hreach : Reaches W cfg session world iteration st) (hlt : iteration < cfg.maxIterations)
    (h : 0 < iteration → Balances st.totalUsage (M.lost cfg session world) (M.received st.world)) :
    M.StepBalances (M.lost cfg session world) (iterate W cfg iteration st) := by
  by_cases hfirst : iteration = 0
  · subst hfirst
    obtain rfl : startTurn cfg session world = st := Option.some.inj (reaches_iff.mp hreach)
    have hnonzero : cfg.maxIterations ≠ 0 := by omega
    unfold lost
    by_cases hplanner : cfg.plannerPathEligible = true
    · rw [if_pos ⟨hnonzero, hplanner⟩]
      exact iterate_planner_balances hplanner (startTurn_balances hstart)
    · rw [if_neg fun h => hplanner h.2]
      exact iterate_balances (fun h => hplanner h.2) (startTurn_balances hstart)
  · exact iterate_balances (fun h => hfirst h.1) (h (by omega))

/-- **The run lemma.** Behind the first iteration the account balances. -/
theorem Reaches.balances (hstart : M.received world = [])
    (hreach : Reaches W cfg session world iteration st) (hlater : 0 < iteration) :
    Balances st.totalUsage (M.lost cfg session world) (M.received st.world) := by
  induction hreach with
  | start => omega
  | @next iteration st st' hreach hlt hstep ih =>
      exact (iterate_turn_balances hstart hreach hlt ih).1 st' hstep

/-- What a turn reports balances. -/
theorem runAgentLoop_balances (hstart : M.received world = []) :
    ∀ r, (runAgentLoop W cfg session world).1 = .ok r →
      Balances r.totalUsage (M.lost cfg session world)
        (M.received (runAgentLoop W cfg session world).2.world) := by
  refine runAgentLoop_rule (Q := fun result st => ∀ r, result = .ok r →
    Balances r.totalUsage (M.lost cfg session world) (M.received st.world)) ?_ ?_
  · intro iteration st result st' hreach hlt hstep r hr
    subst hr
    exact (iterate_turn_balances hstart hreach hlt (Reaches.balances hstart hreach)).2 r st' hstep
  · intro st hreach r hr
    obtain rfl := Except.ok.inj hr
    have hclosed : M.received (finishMaxIterations W cfg st).2.world = M.received st.world :=
      M.saveSession _ st.world
    rw [hclosed]
    change Balances st.totalUsage _ _
    by_cases hnone : cfg.maxIterations = 0
    · rw [hnone] at hreach
      obtain rfl : startTurn cfg session world = st := Option.some.inj (reaches_iff.mp hreach)
      rw [lost, if_neg fun h => h.1 hnone]
      exact startTurn_balances hstart
    · exact Reaches.balances hstart hreach (by omega)

end Turn

end Meter

/-- **The total that a turn reports is the sum over all responses it received exactly if none of
them used a cache, and neither the executor of a plan nor the planner, unless its plan completed,
received a response that used tokens.** -/
theorem total_usage_exact_iff {W : World σ} (M : Meter W) {cfg : TurnConfig}
    {session : List Message} {world : σ} {r : AgentLoopResult} (hstart : M.received world = [])
    (hok : (runAgentLoop W cfg session world).1 = .ok r) :
    r.totalUsage = sumUsage (M.received (runAgentLoop W cfg session world).2.world) ↔
      Uncached (M.received (runAgentLoop W cfg session world).2.world) ∧
        Costless (M.lost cfg session world) :=
  (M.runAgentLoop_balances hstart r hok).exact_iff

/-! ### Worlds that keep an account -/

/-- The usage of an answer. -/
def usageOf (answer : Except LlmError CompletionResponse) : List TokenUsage :=
  (answer.toOption.map CompletionResponse.usage).toList

/-- A world that notes what it answers, next to its own state. -/
def World.metered (W : World σ) (inferred : List Message → σ → List TokenUsage) :
    World (σ × List TokenUsage) where
  complete driver request w :=
    ((W.complete driver request w.1).1, (W.complete driver request w.1).2,
      w.2 ++ usageOf (W.complete driver request w.1).1)
  stream driver request w :=
    ((W.stream driver request w.1).1, (W.stream driver request w.1).2,
      w.2 ++ usageOf (W.stream driver request w.1).1.1)
  adhocDriver driver w := ((W.adhocDriver driver w.1).1, (W.adhocDriver driver w.1).2, w.2)
  drainBtw w := ((W.drainBtw w.1).1, (W.drainBtw w.1).2, w.2)
  recvRedirect w := ((W.recvRedirect w.1).1, (W.recvRedirect w.1).2, w.2)
  beforeToolCall call w := ((W.beforeToolCall call w.1).1, (W.beforeToolCall call w.1).2, w.2)
  runBatch batch w := ((W.runBatch batch w.1).1, (W.runBatch batch w.1).2, w.2)
  saveSession session w := ((W.saveSession session w.1).1, (W.saveSession session w.1).2, w.2)
  newUuid w := ((W.newUuid w.1).1, (W.newUuid w.1).2, w.2)
  hashOrder names w := ((W.hashOrder names w.1).1, (W.hashOrder names w.1).2, w.2)
  plan messages w :=
    ((W.plan messages w.1).1, (W.plan messages w.1).2, w.2 ++ inferred messages w.1)
  progressTicks w := W.progressTicks w.1

/-- The account of such a world. -/
def Meter.ofWorld (W : World σ) (inferred : List Message → σ → List TokenUsage)
    (hinferred : ∀ messages w usage steps summary,
      (W.plan messages w).1 = .executed usage steps summary →
        (inferred messages w).head? = some usage) : Meter (W.metered inferred) where
  received := Prod.snd
  inferred messages w := inferred messages w.1
  complete _ _ _ := rfl
  plan _ _ := rfl
  inference messages w := hinferred messages w.1
  adhocDriver _ _ := rfl
  drainBtw _ := rfl
  recvRedirect _ := rfl
  beforeToolCall _ _ := rfl
  runBatch _ _ := rfl
  saveSession _ _ := rfl
  newUuid _ := rfl
  hashOrder _ _ := rfl

/-- What the planner of a script receives: the inference of its plan. -/
def scriptInferred (_ : List Message) (s : Script) : List TokenUsage :=
  match s.plan with
  | .executed usage _ _ => [usage]
  | .unusable => []

/-- The account of a script. -/
def scriptMeter : Meter (scriptedWorld.metered scriptInferred) :=
  .ofWorld scriptedWorld scriptInferred fun _ w usage steps summary hplan => by
    have hscript : w.plan = .executed usage steps summary := hplan
    simp [scriptInferred, hscript]

/-- A turn of an agent whose planner is asked first. -/
def plannerTurn : TurnConfig :=
  { scriptedTurn [] "Tidy up." 5 with plannerPathEligible := true }

/-- A file is read, and then answered about. -/
def readingScript : Script where
  replies :=
    [.ok (callReply [⟨"c1", "file_read", .obj [("path", .str "a.txt")]⟩]),
      .ok { textReply "Milk and eggs." with usage := ⟨120, 30, 0, 0⟩ }]
  outcomes := [⟨"milk\neggs", false⟩]

/-- The total of a round of tools and the answer. -/
theorem total_usage_exact_round :
    let turn := runAgentLoop (scriptedWorld.metered scriptInferred)
      (scriptedTurn ["file_read"] "What is in a.txt?" 5) [] (readingScript, [])
    turn.2.world.2 = [⟨10, 10, 0, 0⟩, ⟨120, 30, 0, 0⟩] ∧
      ∀ r, turn.1 = .ok r → r.totalUsage = sumUsage turn.2.world.2 := by
  intro turn
  have hreceived : turn.2.world.2 = [⟨10, 10, 0, 0⟩, ⟨120, 30, 0, 0⟩] := by decide +kernel
  refine ⟨hreceived, fun r hr => ?_⟩
  refine (total_usage_exact_iff scriptMeter rfl hr).mpr ⟨?_, fun u hu => absurd hu ?_⟩
  · change Uncached turn.2.world.2
    rw [hreceived]
    simp [Uncached]
  · have hlost : scriptMeter.lost (scriptedTurn ["file_read"] "What is in a.txt?" 5) []
        (readingScript, []) = [] := rfl
    rw [hlost]
    exact List.not_mem_nil

/-- The inference of a plan that falls back to the loop is in no total. -/
theorem planner_usage_is_forgotten :
    ¬ ∀ (W : World (Script × List TokenUsage)) (M : Meter W) (cfg : TurnConfig)
        (session : List Message) (world : Script × List TokenUsage) (r : AgentLoopResult),
      M.received world = [] → (runAgentLoop W cfg session world).1 = .ok r →
        r.totalUsage = sumUsage (M.received (runAgentLoop W cfg session world).2.world) := by
  intro hall
  have htotal := hall _ scriptMeter plannerTurn []
    (({ replies := [.ok (textReply "Done.")], plan := .executed ⟨700, 80, 0, 0⟩ [] none } : Script),
      [])
    { response := "Done.", totalUsage := ⟨10, 10, 0, 0⟩, iterations := 1, outcome := .completed }
    rfl (by decide +kernel)
  revert htotal
  decide +kernel

end ArmaraOS.Agent
