import ArmaraOS.Agent.Loop
import ArmaraOS.Session.Pairing

/-!
What each stage of an iteration can change.

`Core` is the part of the state that the conversation and the AINL gate live in: the
log, the working and the session messages (also before their pruning), the pending failure
and the hash of the last strict validation. Most stages leave it as it is; the others change one field of it.
Proofs about runs read these lemmas and never unfold a stage.
-/

namespace ArmaraOS.Agent

open ArmaraOS.Session

variable {σ : Type}

/-- The part of the state that the conversation and the AINL gate live in. -/
structure Core where
  log : List Event
  messages : List Message
  session : List Message
  unpruned : Option (List Message)
  pending : Option PendingAinlAuthoringFailure
  validated : Option String

/-- The core of a state. -/
def LoopState.core (st : LoopState σ) : Core where
  log := st.log
  messages := st.messages
  session := st.session
  unpruned := st.unpruned
  pending := st.pendingAinlAuthoringFailure
  validated := st.lastStrictValidateCodeSha256

@[simp] theorem core_log (st : LoopState σ) : st.core.log = st.log := rfl

/-- The state at the end of a step. -/
def Step.state : Step σ → LoopState σ
  | .next st => st
  | .done _ st => st

@[simp] theorem state_next (st : LoopState σ) : (Step.next st).state = st := rfl

@[simp] theorem state_done (result : Except LoopError AgentLoopResult) (st : LoopState σ) :
    (Step.done result st).state = st := rfl

/-! ### Before the request -/

/-- What the `/btw` channel delivers. -/
def btwMessages (W : World σ) (st : LoopState σ) : List Message :=
  (W.drainBtw st.world).1.map fun text => .user s!"[btw] {text}"

theorem injectBtw_core (W : World σ) (st : LoopState σ) :
    (injectBtw W st).core =
      { st.core with messages := st.messages ++ btwMessages W st } := rfl

/-- The redirect that arrives in a state. -/
def redirectOf (W : World σ) (st : LoopState σ) : Option String := (W.recvRedirect st.world).1

/-- The working messages after a redirect, if there is one. -/
def redirected (redirect : Option String) (messages : List Message) : List Message :=
  match redirect with
  | some text => pruneForRedirect messages ++ [redirectMessage text]
  | none => messages

theorem applyRedirect_core (W : World σ) (st : LoopState σ) :
    (applyRedirect W st).core =
      { st.core with messages := redirected (redirectOf W st) st.messages } := by
  unfold applyRedirect redirected redirectOf
  dsimp only
  cases (W.recvRedirect st.world).1 <;> rfl

theorem prepareRequest_core (W : World σ) (cfg : TurnConfig) (st : LoopState σ) :
    (prepareRequest W cfg st).core =
      { st.core with messages := (prepareRequest W cfg st).messages } := by
  have h : ∀ st : LoopState σ, (guardContext cfg (recoverOverflow cfg st)).core =
      { st.core with messages := (guardContext cfg (recoverOverflow cfg st)).messages } :=
    fun _ => rfl
  unfold prepareRequest
  rw [h, applyRedirect_core, injectBtw_core]

/-! ### Driver calls -/

/-- Requests for the messages `messages`, to whichever driver and model. -/
def OnlyRequests (messages : List Message) (events : List Event) : Prop :=
  ∀ e ∈ events, ∃ driver req, e = .request driver req ∧ req.messages = messages

theorem OnlyRequests.append {messages : List Message} {es es' : List Event}
    (h : OnlyRequests messages es) (h' : OnlyRequests messages es') :
    OnlyRequests messages (es ++ es') := by
  intro e he
  rcases List.mem_append.mp he with he | he
  · exact h e he
  · exact h' e he

/-- A driver call adds requests for the given messages to the log and changes nothing
else of the core. -/
def Asks (messages : List Message) (c c' : Core) : Prop :=
  ∃ events, OnlyRequests messages events ∧ c' = { c with log := c.log ++ events }

theorem Asks.refl (messages : List Message) (c : Core) : Asks messages c c :=
  ⟨[], by simp [OnlyRequests], by simp⟩

theorem Asks.trans {messages : List Message} {c c' c'' : Core} (h : Asks messages c c')
    (h' : Asks messages c' c'') : Asks messages c c'' := by
  obtain ⟨es, hes, rfl⟩ := h
  obtain ⟨es', hes', rfl⟩ := h'
  exact ⟨es ++ es', hes.append hes', by simp⟩

section DriverCalls

variable (W : World σ) (req : CompletionRequest)

theorem callComplete_asks (driver : DriverRef) (st : LoopState σ) :
    Asks req.messages st.core (callComplete W driver req st).2.core :=
  ⟨[.request driver req], by simp [OnlyRequests], rfl⟩

theorem tryOpenrouterModels_asks : ∀ (models : List String) (st : LoopState σ),
    Asks req.messages st.core (tryOpenrouterModels W req models st).2.core
  | [], st => .refl _ _
  | model :: rest, st => by
      have hcall := callComplete_asks W { req with model := model } .openrouter st
      unfold tryOpenrouterModels
      dsimp only
      cases (callComplete W .openrouter { req with model := model } st).1 with
      | ok response => exact hcall
      | error e => exact hcall.trans (tryOpenrouterModels_asks rest _)

theorem tryOpenrouterFreeFallbacks_asks (st : LoopState σ) :
    Asks req.messages st.core (tryOpenrouterFreeFallbacks W req st).2.core := by
  unfold tryOpenrouterFreeFallbacks
  dsimp only
  split
  · exact tryOpenrouterModels_asks W req _ { st with world := (W.adhocDriver _ st.world).2 }
  · exact .refl _ _

theorem tryFallbackModels_asks : ∀ (idx : Nat) (models : List FallbackModel) (st : LoopState σ),
    Asks req.messages st.core (tryFallbackModels W req idx models st).2.core
  | _, [], st => .refl _ _
  | idx, fb :: rest, st => by
      have hcall := callComplete_asks W { req with model := fb.model } (.fallback idx)
        { st with world := (W.adhocDriver (.fallback idx) st.world).2 }
      unfold tryFallbackModels
      dsimp only
      split
      · cases (callComplete W (.fallback idx) { req with model := fb.model }
          { st with world := (W.adhocDriver (.fallback idx) st.world).2 }).1 with
        | ok response => exact hcall
        | error e => exact hcall.trans (tryFallbackModels_asks (idx + 1) rest _)
      · exact tryFallbackModels_asks (idx + 1) rest
          { st with world := (W.adhocDriver (.fallback idx) st.world).2 }

theorem throttledCall_asks (message : String) (st : LoopState σ) :
    Asks req.messages st.core (throttledCall W req message st).2.core := by
  have h := tryOpenrouterFreeFallbacks_asks W req st
  unfold throttledCall
  dsimp only
  cases (tryOpenrouterFreeFallbacks W req st).1 <;> exact h

theorem failedCall_asks (cfg : TurnConfig) (e : LlmError) (st : LoopState σ) :
    Asks req.messages st.core (failedCall W cfg req e st).2.core := by
  have h := tryFallbackModels_asks W req 0 cfg.fallbackModels st
  unfold failedCall
  dsimp only
  split
  · cases (tryFallbackModels W req 0 cfg.fallbackModels st).1 <;> exact h
  · exact .refl _ _

/-- The attempts of a call all carry the messages of its request. -/
theorem callAttempts_asks (cfg : TurnConfig) : ∀ (retries : Nat) (st : LoopState σ),
    Asks req.messages st.core (callAttempts W cfg req retries st).2.core := by
  intro retries
  induction retries with
  | zero =>
      intro st
      have hcall := callComplete_asks W req .primary st
      unfold callAttempts
      dsimp only
      cases (callComplete W .primary req st).1 with
      | ok response => exact hcall
      | error e =>
          cases e with
          | rateLimited after => exact hcall.trans (throttledCall_asks W req _ _)
          | overloaded after => exact hcall.trans (throttledCall_asks W req _ _)
          | _ => exact hcall.trans (failedCall_asks W req cfg _ _)
  | succ n ih =>
      intro st
      have hcall := callComplete_asks W req .primary st
      unfold callAttempts
      dsimp only
      cases (callComplete W .primary req st).1 with
      | ok response => exact hcall
      | error e =>
          cases e with
          | rateLimited after => exact hcall.trans (ih _)
          | overloaded after => exact hcall.trans (ih _)
          | _ => exact hcall.trans (failedCall_asks W req cfg _ _)

theorem callWithRetry_asks (cfg : TurnConfig) (st : LoopState σ) :
    Asks req.messages st.core (callWithRetry W cfg req st).2.core :=
  callAttempts_asks W req cfg maxRetries st

end DriverCalls

/-! ### After the response -/

@[simp] theorem recordResponse_core (response : CompletionResponse)
    (used : Option LlmFallbackUsed) (st : LoopState σ) :
    (recordResponse response used st).core = st.core := rfl

@[simp] theorem recoverTextCalls_core (W : World σ) (cfg : TurnConfig)
    (response : CompletionResponse) (st : LoopState σ) :
    (recoverTextCalls W cfg response st).2.core = st.core := by
  unfold recoverTextCalls
  dsimp only
  split
  · split <;> rfl
  · rfl

/-! ### The pre-pass of a round -/

/-- A call of a round is answered at once, or it passed the strict-validate gate and is to
be run. -/
def Decided (cfg : TurnConfig) (validated : Option String) (tc : ToolCall)
    (dispatch : ToolDispatch) : Prop :=
  (∃ message, dispatch = refusal tc message) ∨
    ∃ verdict, dispatch = .pending tc verdict ∧
      ainlRunRequiresStrictValidateFirst cfg.lib tc validated cfg.allowNonStrict = none

theorem precheckCall_core (W : World σ) (cfg : TurnConfig) (tc : ToolCall)
    (verdict : LoopGuardVerdict) (st : LoopState σ) :
    (precheckCall W cfg tc verdict st).2.core = st.core := by
  unfold precheckCall
  dsimp only
  split
  · rfl
  · split <;> rfl

theorem precheckCall_fst (W : World σ) (cfg : TurnConfig) (tc : ToolCall)
    (verdict : LoopGuardVerdict) (st : LoopState σ) :
    (∃ message, (precheckCall W cfg tc verdict st).1 = refusal tc message) ∨
      (precheckCall W cfg tc verdict st).1 = .pending tc verdict := by
  unfold precheckCall
  dsimp only
  split
  · exact .inl ⟨_, rfl⟩
  · split
    · exact .inl ⟨_, rfl⟩
    · exact .inr rfl

@[simp] theorem dispatchCall_core (W : World σ) (cfg : TurnConfig) (tc : ToolCall)
    (st : LoopState σ) : (dispatchCall W cfg tc st).2.core = st.core := by
  unfold dispatchCall
  split
  · rfl
  · dsimp only
    split
    · rfl
    · rfl
    · exact precheckCall_core W cfg tc _ _

theorem dispatchCall_decided (W : World σ) (cfg : TurnConfig) (tc : ToolCall)
    (st : LoopState σ) {dispatch : ToolDispatch}
    (h : (dispatchCall W cfg tc st).1 = .ok dispatch) :
    Decided cfg st.lastStrictValidateCodeSha256 tc dispatch := by
  unfold dispatchCall at h
  split at h
  · exact .inl ⟨_, (Except.ok.inj h).symm⟩
  · rename_i hgate
    dsimp only at h
    split at h
    · cases h
    · exact .inl ⟨_, (Except.ok.inj h).symm⟩
    · obtain rfl := Except.ok.inj h
      rcases precheckCall_fst W cfg tc _ _ with ⟨message, hm⟩ | hp
      · exact .inl ⟨message, hm⟩
      · exact .inr ⟨_, hp, hgate⟩

@[simp] theorem dispatchCalls_core (W : World σ) (cfg : TurnConfig) :
    ∀ (calls : List ToolCall) (st : LoopState σ),
      (dispatchCalls W cfg calls st).2.core = st.core
  | [], _ => rfl
  | tc :: rest, st => by
      have hhead := dispatchCall_core W cfg tc st
      have htail := dispatchCalls_core W cfg rest (dispatchCall W cfg tc st).2
      unfold dispatchCalls
      dsimp only
      split
      · exact hhead
      · split <;> exact htail.trans hhead

/-- The pre-pass decides every call, in order. -/
theorem dispatchCalls_decided (W : World σ) (cfg : TurnConfig) :
    ∀ (calls : List ToolCall) (st : LoopState σ) (dispatches : List ToolDispatch),
      (dispatchCalls W cfg calls st).1 = .ok dispatches →
        List.Forall₂ (Decided cfg st.lastStrictValidateCodeSha256) calls dispatches
  | [], _, dispatches, h => by
      obtain rfl : [] = dispatches := Except.ok.inj h
      exact .nil
  | tc :: rest, st, dispatches, h => by
      have hvalidated : (dispatchCall W cfg tc st).2.lastStrictValidateCodeSha256 =
          st.lastStrictValidateCodeSha256 := congrArg Core.validated (dispatchCall_core W cfg tc st)
      unfold dispatchCalls at h
      dsimp only at h
      split at h
      · cases h
      · rename_i dispatch hdispatch
        split at h
        · cases h
        · rename_i tail htail
          obtain rfl := Except.ok.inj h
          refine .cons (dispatchCall_decided W cfg tc st hdispatch) ?_
          rw [← hvalidated]
          exact dispatchCalls_decided W cfg rest _ tail htail

/-! ### Running and merging -/

/-- An event of a tool. -/
def Event.isTool : Event → Bool
  | .toolStarted _ => true
  | .toolFinished .. => true
  | _ => false

/-- The start events of calls that are run. -/
def startEvents (cfg : TurnConfig) (calls : List ToolCall) : List Event :=
  ((batchInvocations cfg calls).filterMap id).map .toolStarted

theorem startEvents_append (cfg : TurnConfig) (calls calls' : List ToolCall) :
    startEvents cfg (calls ++ calls') = startEvents cfg calls ++ startEvents cfg calls' := by
  simp [startEvents, batchInvocations]

/-- `result` is what running `tc` gave, for some answer of the world. -/
def ResultOf (cfg : TurnConfig) (tc : ToolCall) (result : ToolResult × Option Invocation) : Prop :=
  ∃ outcome, result = callResult cfg tc outcome

theorem runBatch_core (W : World σ) (cfg : TurnConfig) (batch : List ToolCall)
    (st : LoopState σ) :
    (runBatch W cfg batch st).2.core =
      { st.core with log := st.log ++ startEvents cfg batch } := rfl

theorem forall₂_zipIdx {α β : Type} {R : α → β → Prop} (f : α × Nat → β)
    (h : ∀ a i, R a (f (a, i))) : ∀ (xs : List α) (k : Nat),
      List.Forall₂ R xs ((xs.zipIdx k).map f)
  | [], _ => .nil
  | x :: rest, k => .cons (h x k) (forall₂_zipIdx f h rest (k + 1))

theorem runBatch_results (W : World σ) (cfg : TurnConfig) (batch : List ToolCall)
    (st : LoopState σ) : List.Forall₂ (ResultOf cfg) batch (runBatch W cfg batch st).1 :=
  forall₂_zipIdx _ (fun _ _ => ⟨_, rfl⟩) batch 0

theorem runBatches_core (W : World σ) (cfg : TurnConfig) :
    ∀ (batches : List (List ToolCall)) (st : LoopState σ),
      (runBatches W cfg batches st).2.core =
        { st.core with log := st.log ++ startEvents cfg batches.flatten }
  | [], st => by simp [runBatches, startEvents, batchInvocations, LoopState.core]
  | batch :: rest, st => by
      have hlog : (runBatch W cfg batch st).2.log = st.log ++ startEvents cfg batch := rfl
      simp only [runBatches, runBatches_core W cfg rest, runBatch_core, hlog,
        List.flatten_cons, startEvents_append, List.append_assoc]

theorem runBatches_results (W : World σ) (cfg : TurnConfig) :
    ∀ (batches : List (List ToolCall)) (st : LoopState σ),
      List.Forall₂ (ResultOf cfg) batches.flatten (runBatches W cfg batches st).1
  | [], _ => .nil
  | batch :: rest, st =>
      List.rel_append (runBatch_results W cfg batch st) (runBatches_results W cfg rest _)

/-- What a dispatch leaves in the results message and in the log. A call that is not run,
or is refused by the dispatcher, leaves no event. -/
inductive Merged (cfg : TurnConfig) : ToolDispatch → ContentBlock → List Event → Prop where
  | resolved (tc : ToolCall) (block : ContentBlock) : Merged cfg (.resolved tc block) block []
  | denied (tc : ToolCall) (verdict : LoopGuardVerdict) (reason content : String) :
      resolveCall cfg.allowedToolNames tc.name tc.input = .refused reason →
        Merged cfg (.pending tc verdict) (.toolResult tc.id tc.name content true) []
  | performed (tc : ToolCall) (verdict : LoopGuardVerdict) (inv : Invocation)
      (content : String) (isError : Bool) :
      resolveCall cfg.allowedToolNames tc.name tc.input = .perform inv →
        Merged cfg (.pending tc verdict) (.toolResult tc.id tc.name content isError)
          [.toolFinished inv content isError]

theorem mergeResult_merged (cfg : TurnConfig) (tc : ToolCall) (verdict : LoopGuardVerdict)
    {result : ToolResult × Option Invocation} (hresult : ResultOf cfg tc result)
    (st : LoopState σ) :
    ∃ events, Merged cfg (.pending tc verdict) (mergeResult cfg tc verdict result st).1 events ∧
      (mergeResult cfg tc verdict result st).2.core =
        { st.core with log := st.log ++ events } := by
  obtain ⟨outcome, rfl⟩ := hresult
  refine ⟨_, ?_, rfl⟩
  unfold mergeResult callResult
  dsimp only
  cases hres : resolveCall cfg.allowedToolNames tc.name tc.input with
  | refused reason => exact .denied tc verdict reason _ hres
  | perform inv =>
      have hid : (callOutcome tc outcome).toolUseId = tc.id := by
        cases outcome <;> rfl
      dsimp only
      rw [hid]
      exact .performed tc verdict inv _ _ hres

/-- The merge handles every dispatch, in order. -/
theorem mergeResults_merged (cfg : TurnConfig) (dispatches : List ToolDispatch) :
    ∀ (results : List (ToolResult × Option Invocation)) (st : LoopState σ),
      List.Forall₂ (ResultOf cfg) (pendingCalls dispatches) results →
      ∃ parts : List (ContentBlock × List Event),
        List.Forall₂ (fun d p => Merged cfg d p.1 p.2) dispatches parts ∧
        (mergeResults cfg dispatches results st).1 = parts.map Prod.fst ∧
        (mergeResults cfg dispatches results st).2.core =
          { st.core with log := st.log ++ parts.flatMap Prod.snd } := by
  induction dispatches with
  | nil =>
      intro _ st _
      exact ⟨[], .nil, rfl, by simp [mergeResults, LoopState.core]⟩
  | cons dispatch rest ih =>
      intro results st h
      cases dispatch with
      | resolved tc block =>
          obtain ⟨parts, hparts, hfst, hsnd⟩ := ih results st h
          exact ⟨(block, []) :: parts, .cons (.resolved tc block) hparts,
            by simp [mergeResults, hfst], by simpa [mergeResults] using hsnd⟩
      | pending tc verdict =>
          have hpending : pendingCalls (.pending tc verdict :: rest) = tc :: pendingCalls rest := rfl
          rw [hpending] at h
          cases results with
          | nil => cases h
          | cons result results =>
              obtain ⟨hresult, hrest⟩ := List.forall₂_cons.mp h
              obtain ⟨events, hmerged, hcore⟩ := mergeResult_merged cfg tc verdict hresult st
              obtain ⟨parts, hparts, hfst, hsnd⟩ :=
                ih results (mergeResult cfg tc verdict result st).2 hrest
              refine ⟨((mergeResult cfg tc verdict result st).1, events) :: parts,
                .cons hmerged hparts, by simp [mergeResults, hfst], ?_⟩
              have hlog : (mergeResult cfg tc verdict result st).2.log = st.log ++ events :=
                congrArg Core.log hcore
              rw [mergeResults]
              simp only [hsnd, hcore, hlog, List.flatMap_cons, List.append_assoc]

/-- A result that is no error is the result of a call that was run. -/
theorem executed_of_success {cfg : TurnConfig} {validated : Option String}
    {calls : List ToolCall} {dispatches : List ToolDispatch}
    {parts : List (ContentBlock × List Event)}
    (hdecided : List.Forall₂ (Decided cfg validated) calls dispatches)
    (hmerged : List.Forall₂ (fun d p => Merged cfg d p.1 p.2) dispatches parts)
    {id name content : String}
    (hb : .toolResult id name content false ∈ parts.map Prod.fst) :
    ∃ tc verdict inv, .pending tc verdict ∈ dispatches ∧ id = tc.id ∧ name = tc.name ∧
      resolveCall cfg.allowedToolNames tc.name tc.input = .perform inv ∧
      .toolFinished inv content false ∈ parts.flatMap Prod.snd := by
  induction hmerged generalizing calls with
  | nil => simp at hb
  | @cons d p ds ps hd _ ih =>
      obtain ⟨block, events⟩ := p
      cases hdecided with
      | cons hdec hrest =>
          rw [List.map_cons, List.mem_cons] at hb
          rw [List.flatMap_cons]
          rcases hb with hb | hb
          · cases hd with
            | resolved tc =>
                rcases hdec with ⟨message, hrefused⟩ | ⟨verdict, hpending, _⟩
                · cases hrefused
                  cases hb
                · cases hpending
            | denied tc verdict reason content hres => cases hb
            | performed tc verdict inv content isError hres =>
                cases hb
                exact ⟨tc, verdict, inv, List.mem_cons_self, rfl, rfl, hres, by simp⟩
          · obtain ⟨tc, verdict, inv, hmem, hid, hname, hres, hevent⟩ := ih hrest hb
            exact ⟨tc, verdict, inv, List.mem_cons_of_mem _ hmem, hid, hname, hres,
              List.mem_append_right _ hevent⟩

theorem mem_pendingCalls {dispatches : List ToolDispatch} {tc : ToolCall}
    {verdict : LoopGuardVerdict} (h : .pending tc verdict ∈ dispatches) :
    tc ∈ pendingCalls dispatches :=
  List.mem_filterMap.mpr ⟨_, h, rfl⟩

/-- The calls of a round that are run passed the strict-validate gate. -/
theorem gate_of_decided {cfg : TurnConfig} {validated : Option String} {calls : List ToolCall}
    {dispatches : List ToolDispatch}
    (h : List.Forall₂ (Decided cfg validated) calls dispatches) {tc : ToolCall}
    (htc : tc ∈ pendingCalls dispatches) :
    ainlRunRequiresStrictValidateFirst cfg.lib tc validated cfg.allowNonStrict = none := by
  induction h with
  | nil => cases htc
  | @cons call dispatch _ rest hdec _ ih =>
      rcases hdec with ⟨message, rfl⟩ | ⟨verdict, rfl, hgate⟩
      · exact ih htc
      · rcases List.mem_cons.mp htc with rfl | htc
        · exact hgate
        · exact ih htc

/-- A gate tool is dispatched under its own name and with the arguments of the call. -/
theorem resolveCall_gate {allowed : List String} {tc : ToolCall} {inv : Invocation}
    (hgate : isAinlAuthoringGateTool tc.name = true)
    (h : resolveCall allowed tc.name tc.input = .perform inv) : inv = ⟨tc.name, tc.input⟩ := by
  have hname : tc.name = "mcp_ainl_ainl_validate" ∨ tc.name = "mcp_ainl_ainl_compile" ∨
      tc.name = "mcp_ainl_ainl_run" := by
    simpa [isAinlAuthoringGateTool] using hgate
  have hown : normalizeToolName tc.name = tc.name ∧ tc.name ≠ "shell_exec" := by
    rcases hname with hn | hn | hn <;> rw [hn] <;> decide
  unfold resolveCall at h
  rw [hown.1] at h
  simp only [if_neg hown.2] at h
  split at h
  · exact (Resolution.perform.inj h).symm
  · cases h

/-! ### The end of a round -/

/-- The pending failure after a round. -/
def pendingAfterRound (cfg : TurnConfig) (dispatches : List ToolDispatch)
    (blocks : List ContentBlock) (pending : Option PendingAinlAuthoringFailure) :
    Option PendingAinlAuthoringFailure :=
  let calls := toolCallsById (pendingCalls dispatches)
  (ainlAuthoringFailureFromToolResults cfg.lib blocks calls).orElse fun _ =>
    if ainlAuthoringSuccessInToolResults cfg.lib blocks pending calls cfg.allowNonStrict then none
    else pending

/-- The hash of the last strict validation after a round. -/
def validatedAfterRound (cfg : TurnConfig) (dispatches : List ToolDispatch)
    (blocks : List ContentBlock) (validated : Option String) : Option String :=
  updateLastStrictValidateSha256 cfg.lib validated blocks (toolCallsById (pendingCalls dispatches))

@[simp] theorem annotateResults_core (W : World σ) (cfg : TurnConfig)
    (blocks : List ContentBlock) (st : LoopState σ) :
    (annotateResults W cfg blocks st).2.core = st.core := rfl

/-- The notes behind the results of a round are texts. -/
theorem annotateResults_fst (W : World σ) (cfg : TurnConfig) (blocks : List ContentBlock)
    (st : LoopState σ) : ∃ notes : List String,
      (annotateResults W cfg blocks st).1 = blocks ++ notes.map fun s => .text s none := by
  unfold annotateResults
  dsimp only
  generalize st.toolErrorTracker.computeGuidance _ _ _ _ = guidance
  obtain ⟨tracker, guidance⟩ := guidance
  cases guidance with
  | none =>
      split
      · exact ⟨[denialNote (blocks.filter isDenial).length], by simp⟩
      · exact ⟨[], by simp⟩
  | some text =>
      split
      · exact ⟨[denialNote (blocks.filter isDenial).length, text], by simp⟩
      · exact ⟨[text], by simp⟩

theorem injectWrapUp_core (cfg : TurnConfig) (iteration : Nat) (st : LoopState σ) :
    ∃ added : List Message, (∀ m ∈ added, Inert m) ∧
      (injectWrapUp cfg iteration st).core = { st.core with messages := st.messages ++ added } := by
  unfold injectWrapUp
  split
  · split
    · exact ⟨_, by simp [inert_user], rfl⟩
    · exact ⟨_, by simp [inert_user], rfl⟩
  · exact ⟨[], by simp, by simp [LoopState.core]⟩

/-- The results message of a round, with the notes behind the results. -/
def resultsMessage (blocks : List ContentBlock) (notes : List String) : Message :=
  .userWithBlocks (blocks ++ notes.map fun s => .text s none)

/-- The end of a round appends its results to both histories and updates the gate. -/
theorem finishRound_core (W : World σ) (cfg : TurnConfig) (iteration : Nat)
    (dispatches : List ToolDispatch) (blocks : List ContentBlock) (st : LoopState σ) :
    ∃ (notes : List String) (added : List Message) (st' : LoopState σ),
      finishRound W cfg iteration dispatches blocks st = .next st' ∧ (∀ m ∈ added, Inert m) ∧
      st'.core =
        { log := st.log
          messages := st.messages ++ resultsMessage blocks notes :: added
          session := st.session ++ [resultsMessage blocks notes]
          unpruned := st.unpruned
          pending := pendingAfterRound cfg dispatches blocks st.pendingAinlAuthoringFailure
          validated :=
            validatedAfterRound cfg dispatches blocks st.lastStrictValidateCodeSha256 } := by
  obtain ⟨notes, hnotes⟩ :=
    annotateResults_fst W cfg blocks (updateAinlGate cfg dispatches blocks st)
  have hann := annotateResults_core W cfg blocks (updateAinlGate cfg dispatches blocks st)
  unfold finishRound
  generalize annotateResults W cfg blocks (updateAinlGate cfg dispatches blocks st) = annotated
    at hnotes hann ⊢
  obtain ⟨added, hadded, hwrap⟩ := injectWrapUp_core cfg iteration
    { annotated.2 with
      session := annotated.2.session ++ [.userWithBlocks annotated.1]
      messages := annotated.2.messages ++ [.userWithBlocks annotated.1] }
  refine ⟨notes, added, _, rfl, hadded, ?_⟩
  have hmessages : annotated.2.messages = st.messages := congrArg Core.messages hann
  have hsession : annotated.2.session = st.session := congrArg Core.session hann
  refine (show _ = _ from hwrap).trans ?_
  simp only [LoopState.core, Core.mk.injEq] at hann ⊢
  obtain ⟨hlog, -, -, hunpruned, hpending, hvalidated⟩ := hann
  refine ⟨hlog, ?_, ?_, hunpruned, hpending, hvalidated⟩
  · rw [hmessages, hnotes, List.append_assoc]
    rfl
  · rw [hsession, hnotes]
    rfl

/-- The log of a state after the calls of a round ran. -/
def roundLog (cfg : TurnConfig) (log : List Event) (dispatches : List ToolDispatch)
    (parts : List (ContentBlock × List Event)) : List Event :=
  log ++ startEvents cfg (pendingCalls dispatches) ++ parts.flatMap Prod.snd

theorem runDispatches_merged (W : World σ) (cfg : TurnConfig) (dispatches : List ToolDispatch)
    (st : LoopState σ) :
    ∃ parts : List (ContentBlock × List Event),
      List.Forall₂ (fun d p => Merged cfg d p.1 p.2) dispatches parts ∧
      (runDispatches W cfg dispatches st).1 = parts.map Prod.fst ∧
      (runDispatches W cfg dispatches st).2.core =
        { st.core with log := roundLog cfg st.log dispatches parts } := by
  have hflat := orderedBatches_flatten (fun tc : ToolCall => isParallelRead tc.name)
    (pendingCalls dispatches)
  have hcore := runBatches_core W cfg
    (orderedBatches (fun tc => isParallelRead tc.name) (pendingCalls dispatches)) st
  have hresults := runBatches_results W cfg
    (orderedBatches (fun tc => isParallelRead tc.name) (pendingCalls dispatches)) st
  rw [hflat] at hcore hresults
  unfold runDispatches
  dsimp only
  generalize runBatches W cfg
    (orderedBatches (fun tc => isParallelRead tc.name) (pendingCalls dispatches)) st = ran
    at hcore hresults ⊢
  obtain ⟨parts, hparts, hfst, hsnd⟩ := mergeResults_merged cfg dispatches ran.1 ran.2 hresults
  refine ⟨parts, hparts, hfst, hsnd.trans ?_⟩
  have hlog : ran.2.log = st.log ++ startEvents cfg (pendingCalls dispatches) :=
    congrArg Core.log hcore
  rw [hcore, hlog]
  rfl

/-- The third round of refusals in a row ends the turn; any other round ends normally. -/
theorem checkAllBlocked_cases (W : World σ) (cfg : TurnConfig) (iteration : Nat)
    (dispatches : List ToolDispatch) (blocks : List ContentBlock) (st : LoopState σ) :
    (∃ result st', checkAllBlocked W cfg iteration dispatches blocks st = .done (.ok result) st' ∧
      result.outcome = .blockedByLoopGuard ∧
      st'.core = { st.core with session := st.session ++ [.assistant allBlockedText] }) ∨
    ∃ st₀ : LoopState σ, st₀.core = st.core ∧
      checkAllBlocked W cfg iteration dispatches blocks st =
        finishRound W cfg iteration dispatches blocks st₀ := by
  unfold checkAllBlocked
  dsimp only
  generalize (if allBlocked blocks then st.consecutiveAllBlocked + 1 else 0) = count
  by_cases hcount : 3 ≤ count
  · rw [if_pos hcount]
    exact .inl ⟨loopResult { st with consecutiveAllBlocked := count } (iteration + 1)
      allBlockedText .blockedByLoopGuard, _, rfl, rfl, rfl⟩
  · rw [if_neg hcount]
    exact .inr ⟨{ st with consecutiveAllBlocked := count }, rfl, rfl⟩

/-- The decided calls of a round and the blocks they are answered with; none when the
circuit breaker trips. -/
def roundOf (W : World σ) (cfg : TurnConfig) (response : CompletionResponse)
    (st : LoopState σ) : Option (List ToolDispatch × List ContentBlock) :=
  let passed :=
    dispatchCalls W cfg (deduplicateToolCalls cfg.lib response.toolCalls) (openRound response st)
  match passed.1 with
  | .error _ => none
  | .ok dispatches => some (dispatches, (runDispatches W cfg dispatches passed.2).1)

/-- What a tool round does: the circuit breaker ends the turn before anything runs; else
every call is decided and its result merged, and then either the third round of refusals in
a row ends the turn, or the round appends its results. -/
theorem toolRound_cases (W : World σ) (cfg : TurnConfig) (iteration : Nat)
    (response : CompletionResponse) (st : LoopState σ) :
    (∃ message st', toolRound W cfg iteration response st = .done (.error (.internal message)) st' ∧
      st'.core = (openRound response st).core) ∨
    ∃ (dispatches : List ToolDispatch) (parts : List (ContentBlock × List Event)),
      roundOf W cfg response st = some (dispatches, parts.map Prod.fst) ∧
      List.Forall₂ (Decided cfg st.lastStrictValidateCodeSha256)
        (deduplicateToolCalls cfg.lib response.toolCalls) dispatches ∧
      List.Forall₂ (fun d p => Merged cfg d p.1 p.2) dispatches parts ∧
      ((∃ result st', toolRound W cfg iteration response st = .done (.ok result) st' ∧
          result.outcome = .blockedByLoopGuard ∧
          st'.core =
            { (openRound response st).core with
              log := roundLog cfg st.log dispatches parts
              session := (openRound response st).session ++ [.assistant allBlockedText] }) ∨
        ∃ (notes : List String) (added : List Message) (st' : LoopState σ),
          toolRound W cfg iteration response st = .next st' ∧ (∀ m ∈ added, Inert m) ∧
          st'.core =
            { log := roundLog cfg st.log dispatches parts
              messages :=
                (openRound response st).messages ++
                  resultsMessage (parts.map Prod.fst) notes :: added
              session :=
                (openRound response st).session ++ [resultsMessage (parts.map Prod.fst) notes]
              unpruned := st.unpruned
              pending := pendingAfterRound cfg dispatches (parts.map Prod.fst)
                st.pendingAinlAuthoringFailure
              validated := validatedAfterRound cfg dispatches (parts.map Prod.fst)
                st.lastStrictValidateCodeSha256 }) := by
  have hcore := dispatchCalls_core W cfg (deduplicateToolCalls cfg.lib response.toolCalls)
    (openRound response st)
  have hdecided := dispatchCalls_decided W cfg (deduplicateToolCalls cfg.lib response.toolCalls)
    (openRound response st)
  unfold toolRound roundOf
  dsimp only
  generalize dispatchCalls W cfg (deduplicateToolCalls cfg.lib response.toolCalls)
    (openRound response st) = passed at hcore hdecided ⊢
  obtain ⟨outcome, after⟩ := passed
  cases outcome with
  | error message => exact .inl ⟨message, _, rfl, hcore⟩
  | ok dispatches =>
      obtain ⟨parts, hparts, hblocks, hran⟩ := runDispatches_merged W cfg dispatches after
      refine .inr ⟨dispatches, parts, by rw [← hblocks], hdecided dispatches rfl, hparts, ?_⟩
      dsimp only at hcore ⊢
      rw [hblocks]
      generalize (runDispatches W cfg dispatches after).2 = ran at hran ⊢
      have hlog : after.log = st.log := congrArg Core.log hcore
      rw [hlog, hcore] at hran
      rcases checkAllBlocked_cases W cfg iteration dispatches (parts.map Prod.fst) ran with
        ⟨result, st', hstep, houtcome, hst'⟩ | ⟨st₀, hst₀, hround⟩
      · refine .inl ⟨result, st', hstep, houtcome, hst'.trans ?_⟩
        have hsession : ran.session = (openRound response st).session := congrArg Core.session hran
        rw [hran, hsession]
      · obtain ⟨notes, added, st', hstep, hadded, hst'⟩ :=
          finishRound_core W cfg iteration dispatches (parts.map Prod.fst) st₀
        refine .inr ⟨notes, added, st', hround.trans hstep, hadded, hst'.trans ?_⟩
        rw [hran] at hst₀
        simp only [LoopState.core, Core.mk.injEq] at hst₀
        obtain ⟨hl, hm, hs, hu, hp, hv⟩ := hst₀
        rw [hl, hm, hs, hu, hp, hv]
        rfl

/-! ### The end of a turn and the token limit -/

/-- How a final text changes the pending failure: not at all, by counting the attempt, or,
at the last attempt, by dropping it. -/
inductive FinalAttempt :
    Option PendingAinlAuthoringFailure → Option PendingAinlAuthoringFailure → Prop where
  | kept (pending : Option PendingAinlAuthoringFailure) : FinalAttempt pending pending
  | counted (p : PendingAinlAuthoringFailure) :
      FinalAttempt (some p) (some { p with blockedFinalAttempts := p.blockedFinalAttempts + 1 })
  | dropped (p : PendingAinlAuthoringFailure) :
      maxAinlAuthoringPrematureFinalAttempts ≤ p.blockedFinalAttempts + 1 →
        FinalAttempt (some p) none

/-- A reply is sent back with a prompt: messages without tool blocks are added to the
working messages, which may have been repaired before. -/
def Reprompts (c : Core) (pending : Option PendingAinlAuthoringFailure) (c' : Core) : Prop :=
  ∃ base added : List Message, (base = c.messages ∨ base = validateAndRepair c.messages) ∧
    (∀ m ∈ added, Inert m) ∧ c' = { c with messages := base ++ added, pending := pending }

/-- The session of a turn that ends with a reply: the reply is added, and after a final
answer old heartbeat turns are pruned. -/
def ClosesSession (c : Core) (session : List Message) (unpruned : Option (List Message)) :
    Prop :=
  ∃ text, (session = c.session ++ [.assistant text] ∧ unpruned = c.unpruned) ∨
    (session = pruneHeartbeatTurns (c.session ++ [.assistant text]) 10 ∧
      unpruned = some (c.session ++ [.assistant text]))

/-- A turn ends with a reply or with an error of the session store. A completed or silent
turn has no pending failure. -/
def EndsTurn (c : Core) (step : Step σ) : Prop :=
  ∃ result st', step = .done result st' ∧
    (∃ session unpruned pending, ClosesSession c session unpruned ∧
      st'.core = { c with session := session, unpruned := unpruned, pending := pending }) ∧
    ∀ r, result = .ok r → r.outcome = .completed ∨ r.outcome = .silent → c.pending = none

theorem finishSilent_ends (W : World σ) (iteration : Nat) (directives : DirectiveSet)
    (st : LoopState σ) (hpending : st.pendingAinlAuthoringFailure = none) :
    EndsTurn st.core (finishSilent W iteration directives st) := by
  unfold finishSilent
  dsimp only
  split <;>
  · exact ⟨_, _, rfl, ⟨_, _, _, ⟨_, .inl ⟨rfl, rfl⟩⟩, rfl⟩, fun _ _ _ => hpending⟩

theorem finishAnswer_ends (W : World σ) (cfg : TurnConfig) (iteration : Nat) (text : String)
    (outcome : AgentLoopOutcome) (st : LoopState σ)
    (before : Option PendingAinlAuthoringFailure)
    (h : outcome = .completed ∨ outcome = .silent → before = none) :
    EndsTurn { st.core with pending := before }
      (finishAnswer W cfg iteration text outcome st) := by
  unfold finishAnswer
  dsimp only
  split
  · exact ⟨_, _, rfl, ⟨_, _, _, ⟨_, .inr ⟨rfl, rfl⟩⟩, rfl⟩, fun r hr => nomatch hr⟩
  · refine ⟨_, _, rfl, ⟨_, _, _, ⟨_, .inr ⟨rfl, rfl⟩⟩, rfl⟩, fun r hr hout => h ?_⟩
    obtain rfl := Except.ok.inj hr
    exact hout

/-- The checks for claims send the reply back, with the pending failure as they find it,
or end the turn. `before` is the failure that was pending before a last attempt. -/
theorem checkClaims_cases (W : World σ) (cfg : TurnConfig) (iteration : Nat) (text : String)
    (outcome : AgentLoopOutcome) (st : LoopState σ)
    (before : Option PendingAinlAuthoringFailure)
    (h : outcome = .completed ∨ outcome = .silent → before = none) :
    (∃ st', checkClaims W cfg iteration text outcome st = .next st' ∧
      Reprompts { st.core with pending := before } st.pendingAinlAuthoringFailure st'.core) ∨
    EndsTurn { st.core with pending := before } (checkClaims W cfg iteration text outcome st) := by
  have hprompt : ∀ (prompt : String), ∀ m ∈ [Message.assistant text, .user prompt], Inert m := by
    simp [inert_user, inert_assistant]
  unfold checkClaims
  split
  · exact .inl ⟨_, rfl, _, _, .inl rfl, hprompt _, rfl⟩
  · split
    · exact .inl ⟨_, rfl, _, _, .inl rfl, hprompt _, rfl⟩
    · split
      · exact .inl ⟨_, rfl, _, _, .inl rfl, hprompt _, rfl⟩
      · split
        · exact .inl ⟨_, rfl, _, _, .inl rfl, hprompt _, rfl⟩
        · exact .inr (finishAnswer_ends W cfg iteration text outcome st before h)

/-- What a final reply does: it is sent back, or it ends the turn. -/
def EndTurnCases (c : Core) (step : Step σ) : Prop :=
  (∃ pending st', step = .next st' ∧ FinalAttempt c.pending pending ∧
    Reprompts c pending st'.core) ∨ EndsTurn c step

theorem checkPending_cases (W : World σ) (cfg : TurnConfig) (iteration : Nat) (text : String)
    (st : LoopState σ) : EndTurnCases st.core (checkPending W cfg iteration text st) := by
  unfold checkPending
  split
  · rename_i hnone
    rcases checkClaims_cases W cfg iteration text .completed st st.pendingAinlAuthoringFailure
        (fun _ => hnone) with ⟨st', hstep, hre⟩ | hend
    · exact .inl ⟨_, st', hstep, .kept _, hre⟩
    · exact .inr hend
  · rename_i p hp
    have hp' : st.core.pending = some p := hp
    dsimp only
    split
    · rename_i hlast
      rcases checkClaims_cases W cfg iteration
          (ainlAuthoringUnresolvedSummary
            { p with blockedFinalAttempts := p.blockedFinalAttempts + 1 } st.lastAinlProof)
          .ainlAuthoringUnresolved { st with pendingAinlAuthoringFailure := none }
          st.pendingAinlAuthoringFailure (by simp) with ⟨st', hstep, hre⟩ | hend
      · exact .inl ⟨none, st', hstep, hp' ▸ .dropped p hlast, hre⟩
      · exact .inr hend
    · exact .inl ⟨_, _, rfl, hp' ▸ .counted p, _, _, .inl rfl,
        by simp [inert_user, inert_assistant], rfl⟩

theorem finishUnsaved_ends (W : World σ) (st : LoopState σ) (iterations : Nat)
    (response : String) {outcome : AgentLoopOutcome}
    (h : outcome ≠ .completed ∧ outcome ≠ .silent) :
    EndsTurn st.core (finishUnsaved W st iterations response outcome) := by
  refine ⟨_, _, rfl, ⟨_, _, _, ⟨_, .inl ⟨rfl, rfl⟩⟩, rfl⟩, fun r hr hout => ?_⟩
  obtain rfl := Except.ok.inj hr
  exact (hout.elim h.1 h.2).elim

theorem retryEmpty_cases (W : World σ) (iteration : Nat) (silentFailure : Bool)
    (st : LoopState σ) : EndTurnCases st.core (retryEmpty W iteration silentFailure st) := by
  unfold retryEmpty
  dsimp only
  generalize (st.consecutiveSilentFailures + if silentFailure then 1 else 0) = failures
  by_cases hthird : 3 ≤ failures
  · rw [if_pos hthird]
    exact .inr (finishUnsaved_ends W { st with consecutiveSilentFailures := failures } _ _
      (by simp))
  · rw [if_neg hthird]
    refine .inl ⟨_, _, rfl, .kept _, _, _, ?_, by simp [inert_user, inert_assistant], rfl⟩
    cases silentFailure
    · exact .inl rfl
    · exact .inr rfl

theorem endTurnReply_cases (W : World σ) (cfg : TurnConfig) (iteration : Nat)
    (response : CompletionResponse) (text : String) (st : LoopState σ) :
    EndTurnCases st.core (endTurnReply W cfg iteration response text st) := by
  unfold endTurnReply
  dsimp only
  split
  · split
    · exact retryEmpty_cases W iteration _ st
    · exact checkPending_cases W cfg iteration _ st
  · exact checkPending_cases W cfg iteration _ { st with consecutiveSilentFailures := 0 }

/-- What an end-of-turn response does. -/
theorem endTurn_cases (W : World σ) (cfg : TurnConfig) (iteration : Nat)
    (response : CompletionResponse) (st : LoopState σ) :
    EndTurnCases st.core (endTurn W cfg iteration response st) := by
  unfold endTurn
  dsimp only
  split
  · split
    · rename_i p hp
      have hp' : st.core.pending = some p := hp
      exact .inl ⟨_, _, rfl, hp' ▸ .counted p, _, _, .inl rfl, by simp [inert_user], rfl⟩
    · rename_i hnone
      split
      · exact .inl ⟨_, _, rfl, .kept _, _, _, .inl rfl, by simp [inert_user], rfl⟩
      · exact .inr (finishSilent_ends W iteration _ st hnone)
  · exact endTurnReply_cases W cfg iteration response _ st

/-- What a response cut by the token limit does: both histories continue, or the turn
ends. -/
theorem continueTokens_cases (W : World σ) (cfg : TurnConfig) (iteration : Nat)
    (response : CompletionResponse) (st : LoopState σ) :
    (∃ st', continueTokens W cfg iteration response st = .next st' ∧
      st'.core =
        { st.core with
          session := st.session ++ [.assistant response.text, .user "Please continue."]
          messages := st.messages ++ [.assistant response.text, .user "Please continue."] }) ∨
    EndsTurn st.core (continueTokens W cfg iteration response st) := by
  unfold continueTokens
  dsimp only
  split
  · split
    · exact .inr (finishUnsaved_ends W
        { st with consecutiveMaxTokens := st.consecutiveMaxTokens + 1 } _ _ (by simp))
    · exact .inr (finishUnsaved_ends W
        { st with consecutiveMaxTokens := st.consecutiveMaxTokens + 1 } _ _ (by simp))
  · exact .inl ⟨_, rfl, rfl⟩

/-! ### The planner -/

/-- What a plan step leaves in the log: nothing when the dispatcher refuses it. -/
def stepEvents (W : World σ) (cfg : TurnConfig) (step : ToolCall) (st : LoopState σ) :
    List Event :=
  match resolveCall cfg.allowedToolNames step.name step.input with
  | .refused _ => []
  | .perform inv =>
      let result := callOutcome step ((W.runBatch [some inv] st.world).1 0)
      [.toolStarted inv, .toolFinished inv result.content result.isError]

/-- What the steps of a plan leave in the log, dispatched one after another. -/
def planEvents (W : World σ) (cfg : TurnConfig) : List ToolCall → LoopState σ → List Event
  | [], _ => []
  | step :: rest, st =>
      stepEvents W cfg step st ++ planEvents W cfg rest (dispatchPlannedToolCall W cfg step st)

theorem dispatchPlannedToolCall_core (W : World σ) (cfg : TurnConfig) (step : ToolCall)
    (st : LoopState σ) :
    (dispatchPlannedToolCall W cfg step st).core =
      { st.core with log := st.log ++ stepEvents W cfg step st } := by
  unfold dispatchPlannedToolCall stepEvents
  cases resolveCall cfg.allowedToolNames step.name step.input with
  | refused reason => simp [LoopState.core]
  | perform inv => rfl

theorem foldl_dispatchPlanned (W : World σ) (cfg : TurnConfig) :
    ∀ (steps : List ToolCall) (st : LoopState σ),
      (steps.foldl (fun st step => dispatchPlannedToolCall W cfg step st) st).core =
        { st.core with log := st.log ++ planEvents W cfg steps st }
  | [], st => by simp [planEvents, LoopState.core]
  | step :: rest, st => by
      have hcore := dispatchPlannedToolCall_core W cfg step st
      have hlog : (dispatchPlannedToolCall W cfg step st).log =
          st.log ++ stepEvents W cfg step st := congrArg Core.log hcore
      rw [List.foldl_cons, foldl_dispatchPlanned W cfg rest, hcore, hlog, planEvents,
        List.append_assoc]

theorem isTool_planEvents (W : World σ) (cfg : TurnConfig) :
    ∀ (steps : List ToolCall) (st : LoopState σ),
      ∀ e ∈ planEvents W cfg steps st, e.isTool = true
  | [], _, e, he => nomatch he
  | step :: rest, st, e, he => by
      rcases List.mem_append.mp he with he | he
      · unfold stepEvents at he
        split at he
        · cases he
        · dsimp only at he
          rw [List.mem_pair] at he
          rcases he with rfl | rfl <;> rfl
      · exact isTool_planEvents W cfg rest _ e he

/-- The steps of the plan that is dispatched in a state. -/
def plannedSteps (W : World σ) (st : LoopState σ) : List ToolCall :=
  match (W.plan st.messages st.world).1 with
  | .unusable => []
  | .executed _ steps _ => steps

/-- The state in which the steps of a plan are dispatched. -/
def planState (W : World σ) (st : LoopState σ) : LoopState σ :=
  { st with world := (W.plan st.messages st.world).2 }

/-- What the planner path does: the steps of the plan are dispatched in order, and then the
loop goes on with the state, or a completed plan ends the turn. -/
theorem runPlanner_cases (W : World σ) (cfg : TurnConfig) (st : LoopState σ) :
    (∃ st', runPlanner W cfg st = .next st' ∧
      st'.core =
        { st.core with
          log := st.log ++ planEvents W cfg (plannedSteps W st) (planState W st) }) ∨
    ∃ result st' text, runPlanner W cfg st = .done result st' ∧
      (∀ r, result = .ok r → r.outcome = .plannerCompleted) ∧
      st'.core =
        { st.core with
          log := st.log ++ planEvents W cfg (plannedSteps W st) (planState W st)
          session := st.session ++ [Message.assistant text] } := by
  have hran := foldl_dispatchPlanned W cfg (plannedSteps W st) (planState W st)
  unfold runPlanner
  unfold plannedSteps at hran ⊢
  dsimp only
  cases hplan : (W.plan st.messages st.world).1 with
  | unusable => exact .inl ⟨_, rfl, by simp [planEvents, LoopState.core]⟩
  | executed usage steps summary =>
      rw [hplan] at hran
      have hstart : planState W st = { st with world := (W.plan st.messages st.world).2 } := rfl
      dsimp only at hran ⊢
      generalize planEvents W cfg steps (planState W st) = events at hran ⊢
      rw [hstart] at hran
      generalize (steps.foldl (fun st step => dispatchPlannedToolCall W cfg step st)
        { st with world := (W.plan st.messages st.world).2 }) = ran at hran ⊢
      have hcore : ran.core = { st.core with log := st.log ++ events } := hran
      cases summary with
      | none => exact .inl ⟨ran, rfl, hcore⟩
      | some text =>
          have hend : { ran with
                session := ran.session ++ [Message.assistant text]
                world := (W.saveSession (ran.session ++ [Message.assistant text]) ran.world).2 }.core =
              { st.core with
                log := st.log ++ events
                session := st.session ++ [Message.assistant text] } := by
            have hsession : ran.session = st.session := congrArg Core.session hcore
            simp only [LoopState.core, Core.mk.injEq] at hcore ⊢
            exact ⟨hcore.1, hcore.2.1, by rw [hsession], hcore.2.2.2⟩
          refine .inr ?_
          dsimp only
          cases (W.saveSession (ran.session ++ [Message.assistant text]) ran.world).1 with
          | some e => exact ⟨.error (.memory e), _, text, rfl, by simp, hend⟩
          | none =>
              refine ⟨_, _, text, rfl, fun r hr => ?_, hend⟩
              obtain rfl := Except.ok.inj hr
              rfl

end ArmaraOS.Agent
