import ArmaraOS.Agent.Refinement
import ArmaraOS.Agent.Runs

/-!
What a turn adds to its session.

Both loops only append to the session; the one place that takes messages away is the pruning of
heartbeat turns at a final answer. `Growing` is the session before the end of the turn, `Grown`
the session at the end, with the session that was pruned beside it.
-/

namespace ArmaraOS.Agent

open ArmaraOS.Session

variable {σ : Type}

/-- The session is `start` with messages behind it, and was not pruned. -/
def Growing (start : List Message) (st : LoopState σ) : Prop :=
  st.unpruned = none ∧ ∃ pushed, st.session = start ++ pushed

/-- The session is `start` with messages behind it, as it is or pruned. -/
def Grown (start : List Message) (st : LoopState σ) : Prop :=
  ∃ pushed, (st.unpruned = none ∧ st.session = start ++ pushed) ∨
    (st.unpruned = some (start ++ pushed) ∧
      st.session = pruneHeartbeatTurns (start ++ pushed) 10)

/-- The session that a turn ends with, before its pruning. -/
def LoopState.grownSession (st : LoopState σ) : List Message := st.unpruned.getD st.session

/-- A step that goes on leaves a growing session, one that ends the turn a grown one. -/
inductive StepGrows (start : List Message) : Step σ → Prop where
  | next {st : LoopState σ} : Growing start st → StepGrows start (.next st)
  | done {result : Except LoopError AgentLoopResult} {st : LoopState σ} :
      Grown start st → StepGrows start (.done result st)

variable {start : List Message}

theorem Growing.of_core {st st' : LoopState σ} (h : Growing start st)
    (hsession : st'.core.session = st.session) (hunpruned : st'.core.unpruned = st.unpruned) :
    Growing start st' := by
  obtain ⟨hnone, pushed, heq⟩ := h
  exact ⟨hunpruned.trans hnone, pushed, hsession.trans heq⟩

theorem Growing.grown {st : LoopState σ} (h : Growing start st) : Grown start st := by
  obtain ⟨hnone, pushed, heq⟩ := h
  exact ⟨pushed, .inl ⟨hnone, heq⟩⟩

/-- Messages behind a growing session. -/
theorem Growing.push {st st' : LoopState σ} (h : Growing start st) (added : List Message)
    (hsession : st'.core.session = st.session ++ added)
    (hunpruned : st'.core.unpruned = st.unpruned) : Growing start st' := by
  obtain ⟨hnone, pushed, heq⟩ := h
  refine ⟨hunpruned.trans hnone, pushed ++ added, ?_⟩
  rw [← List.append_assoc, ← heq]
  exact hsession

/-- A turn that ends with a reply. -/
theorem Growing.ends {st : LoopState σ} {step : Step σ} (h : Growing start st)
    (hends : EndsTurn st.core step) : StepGrows start step := by
  obtain ⟨result, st', rfl, ⟨session, unpruned, pending, ⟨text, hcloses⟩, hcore⟩, -⟩ := hends
  obtain ⟨hnone, pushed, heq⟩ := h
  have hsession : st'.session = session := congrArg Core.session hcore
  have hunpruned : st'.unpruned = unpruned := congrArg Core.unpruned hcore
  refine .done ⟨pushed ++ [.assistant text], ?_⟩
  rw [← List.append_assoc, ← heq]
  rcases hcloses with ⟨hs, hu⟩ | ⟨hs, hu⟩
  · exact .inl ⟨(hunpruned.trans hu).trans hnone, hsession.trans hs⟩
  · exact .inr ⟨hunpruned.trans hu, hsession.trans hs⟩

/-! ### The handling of a response -/

section Response

variable (W : World σ) (cfg : TurnConfig) (iteration : Nat) (response : CompletionResponse)
  {st : LoopState σ}

theorem endTurn_grows (h : Growing start st) :
    StepGrows start (endTurn W cfg iteration response st) := by
  have hcases := endTurn_cases W cfg iteration response st
  generalize endTurn W cfg iteration response st = step at hcases ⊢
  rcases hcases with ⟨pending, st', rfl, -, base, added, -, -, hcore⟩ | hends
  · exact .next (h.of_core (congrArg Core.session hcore) (congrArg Core.unpruned hcore))
  · exact h.ends hends

theorem continueTokens_grows (h : Growing start st) :
    StepGrows start (continueTokens W cfg iteration response st) := by
  have hcases := continueTokens_cases W cfg iteration response st
  generalize continueTokens W cfg iteration response st = step at hcases ⊢
  rcases hcases with ⟨st', rfl, hcore⟩ | hends
  · exact .next (h.push _ (congrArg Core.session hcore) (congrArg Core.unpruned hcore))
  · exact h.ends hends

theorem toolRound_grows (h : Growing start st) :
    StepGrows start (toolRound W cfg iteration response st) := by
  have hopen : Growing start (openRound response st) := h.push [toolUseMessage response] rfl rfl
  have hcases := toolRound_cases W cfg iteration response st
  generalize toolRound W cfg iteration response st = step at hcases ⊢
  rcases hcases with ⟨message, st', rfl, hcore⟩ | ⟨dispatches, parts, -, -, -, hround⟩
  · exact .done (hopen.of_core (congrArg Core.session hcore) (congrArg Core.unpruned hcore)).grown
  · rcases hround with ⟨result, st', rfl, -, hcore⟩ | ⟨notes, added, st', rfl, -, hcore⟩
    · exact .done (hopen.push [.assistant allBlockedText] (congrArg Core.session hcore)
        (congrArg Core.unpruned hcore)).grown
    · exact .next (hopen.push [resultsMessage (parts.map Prod.fst) notes]
        (congrArg Core.session hcore) (congrArg Core.unpruned hcore))

theorem handleResponse_grows (h : Growing start st) :
    StepGrows start (handleResponse W cfg iteration response st) := by
  rw [handleResponse_logged]
  have hlogged : Growing start (st.logged response) := h.of_core rfl rfl
  cases response.stopReason with
  | endTurn => exact endTurn_grows W cfg iteration response hlogged
  | stopSequence => exact endTurn_grows W cfg iteration response hlogged
  | toolUse => exact toolRound_grows W cfg iteration response hlogged
  | maxTokens => exact continueTokens_grows W cfg iteration response hlogged

end Response

/-! ### The plain loop -/

section Plain

variable (W : World σ) (cfg : TurnConfig)

theorem iterate_grows (iteration : Nat) {st : LoopState σ} (h : Growing start st) :
    StepGrows start (iterate W cfg iteration st) := by
  have hprep := prepareRequest_core W cfg st
  have hprepared : Growing start (prepareRequest W cfg st) :=
    h.of_core (congrArg Core.session hprep) (congrArg Core.unpruned hprep)
  rcases iterate_cases W cfg iteration st with
    ⟨result, st', text, hstep, -, hcore⟩ |
      ⟨requests, ready, asked, -, hready, -, hasked, hcases⟩
  · have hsession : (prepareRequest W cfg st).session = st.session := congrArg Core.session hprep
    rw [hstep]
    refine .done (hprepared.push [.assistant text] ?_ (congrArg Core.unpruned hcore)).grown
    rw [hsession]
    exact congrArg Core.session hcore
  · have hgrowing : Growing start asked := by
      refine (hprepared.of_core (congrArg Core.session hready) (congrArg Core.unpruned hready)
        ).of_core (congrArg Core.session hasked) (congrArg Core.unpruned hasked)
    rcases hcases with ⟨e, hstep⟩ | ⟨response, -, hstep⟩
    · rw [hstep]
      exact .done hgrowing.grown
    · rw [hstep]
      exact handleResponse_grows W cfg iteration response hgrowing

theorem finishMaxIterations_grows {st : LoopState σ} (h : Growing start st) :
    Grown start (finishMaxIterations W cfg st).2 := by
  have hpush : Growing start (finishMaxIterations W cfg st).2 :=
    h.push [.assistant (fallbackReply cfg st).1] rfl rfl
  exact hpush.grown

theorem runIterations_grows (remaining iteration : Nat) {st : LoopState σ}
    (h : Growing start st) : Grown start (runIterations W cfg remaining iteration st).2 := by
  induction remaining generalizing iteration st with
  | zero => exact finishMaxIterations_grows W cfg h
  | succ remaining ih =>
      have hstep := iterate_grows W cfg iteration h
      unfold runIterations
      cases hiterate : iterate W cfg iteration st with
      | done result st' =>
          rw [hiterate] at hstep
          cases hstep with
          | done hgrown => exact hgrown
      | next st' =>
          rw [hiterate] at hstep
          cases hstep with
          | next hgrowing => exact ih (iteration + 1) hgrowing

theorem runAgentLoop_grown (session : List Message) (world : σ) :
    Grown ((session ++ [turnUserMessage cfg]).map stripImages)
      (runAgentLoop W cfg session world).2 := by
  have hstart : Growing ((session ++ [turnUserMessage cfg]).map stripImages)
      (startTurn cfg session world) := ⟨rfl, [], (List.append_nil _).symm⟩
  exact runIterations_grows W cfg _ 0 hstart

end Plain

/-! ### The streaming loop -/

section Streaming

variable (W : World σ) (cfg : TurnConfig)

theorem growing_quiet {st : LoopState σ} : Growing start st.quiet ↔ Growing start st := Iff.rfl

theorem stepGrows_quiet {step : Step σ} : StepGrows start step.quiet ↔ StepGrows start step := by
  constructor
  · intro h
    cases step with
    | next st =>
        cases h with
        | next hgrowing => exact .next hgrowing
    | done result st =>
        cases h with
        | done hgrown => exact .done hgrown
  · intro h
    cases h with
    | next hgrowing => exact .next hgrowing
    | done hgrown => exact .done hgrown

/-- A streaming call leaves the session alone. -/
def KeepsSession (st st' : LoopState σ) : Prop :=
  st'.session = st.session ∧ st'.unpruned = st.unpruned

theorem KeepsSession.trans {st st' st'' : LoopState σ} (h : KeepsSession st st')
    (h' : KeepsSession st' st'') : KeepsSession st st'' :=
  ⟨h'.1.trans h.1, h'.2.trans h.2⟩

section StreamingCalls

variable (req : CompletionRequest)

theorem callStream_keeps (driver : DriverRef) (st : LoopState σ) :
    KeepsSession st (callStream W driver req st).2 := ⟨rfl, rfl⟩

theorem tryOpenrouterModelsStream_keeps (models : List String) (st : LoopState σ) :
    KeepsSession st (tryOpenrouterModelsStream W req models st).2 := by
  induction models generalizing st with
  | nil => exact ⟨rfl, rfl⟩
  | cons model rest ih =>
      have hcall := callStream_keeps W { req with model := model } .openrouter st
      unfold tryOpenrouterModelsStream
      dsimp only
      cases (callStream W .openrouter { req with model := model } st).1 with
      | ok response => exact hcall
      | error e => exact hcall.trans (ih _)

theorem tryOpenrouterFreeFallbacksStream_keeps (st : LoopState σ) :
    KeepsSession st (tryOpenrouterFreeFallbacksStream W req st).2 := by
  unfold tryOpenrouterFreeFallbacksStream
  dsimp only
  split
  · exact tryOpenrouterModelsStream_keeps W req _ _
  · exact ⟨rfl, rfl⟩

theorem tryFallbackModelsStream_keeps (idx : Nat) (models : List FallbackModel)
    (st : LoopState σ) : KeepsSession st (tryFallbackModelsStream W req idx models st).2 := by
  induction models generalizing idx st with
  | nil => exact ⟨rfl, rfl⟩
  | cons fb rest ih =>
      have hcall := callStream_keeps W { req with model := fb.model } (.fallback idx)
        { st with world := (W.adhocDriver (.fallback idx) st.world).2 }
      unfold tryFallbackModelsStream
      dsimp only
      split
      · cases (callStream W (.fallback idx) { req with model := fb.model }
          { st with world := (W.adhocDriver (.fallback idx) st.world).2 }).1 with
        | ok response => exact hcall
        | error e => exact hcall.trans (ih (idx + 1) _)
      · exact ih (idx + 1) { st with world := (W.adhocDriver (.fallback idx) st.world).2 }

theorem throttledStream_keeps (message : String) (st : LoopState σ) :
    KeepsSession st (throttledStream W req message st).2 := by
  have h := tryOpenrouterFreeFallbacksStream_keeps W req st
  unfold throttledStream
  dsimp only
  cases (tryOpenrouterFreeFallbacksStream W req st).1 <;> exact h

theorem failedStream_keeps (e : LlmError) (st : LoopState σ) :
    KeepsSession st (failedStream W cfg req e st).2 := by
  have h := tryFallbackModelsStream_keeps W req 0 cfg.fallbackModels st
  unfold failedStream
  dsimp only
  split
  · cases (tryFallbackModelsStream W req 0 cfg.fallbackModels st).1 <;> exact h
  · exact ⟨rfl, rfl⟩

theorem streamAttempts_keeps (retries : Nat) (st : LoopState σ) :
    KeepsSession st (streamAttempts W cfg req retries st).2 := by
  induction retries generalizing st with
  | zero =>
      have hcall := callStream_keeps W req .primary st
      unfold streamAttempts
      dsimp only
      cases (callStream W .primary req st).1 with
      | ok response => exact hcall
      | error e =>
          cases e with
          | rateLimited after => exact hcall.trans (throttledStream_keeps W req _ _)
          | overloaded after => exact hcall.trans (throttledStream_keeps W req _ _)
          | _ => exact hcall.trans (failedStream_keeps W cfg req _ _)
  | succ n ih =>
      have hcall := callStream_keeps W req .primary st
      unfold streamAttempts
      dsimp only
      cases (callStream W .primary req st).1 with
      | ok response => exact hcall
      | error e =>
          cases e with
          | rateLimited after => exact hcall.trans (ih _)
          | overloaded after => exact hcall.trans (ih _)
          | _ => exact hcall.trans (failedStream_keeps W cfg req _ _)

end StreamingCalls

theorem streamingIterate_grows (iteration : Nat) {st : LoopState σ} (h : Growing start st) :
    StepGrows start (Streaming.iterate W cfg iteration st) := by
  have hprepared : Growing start (Streaming.prepareRequest W cfg st) := by
    have hprep := prepareRequest_core W cfg st.quiet
    rw [← growing_quiet, ← prepareRequest_quiet]
    exact (growing_quiet.mpr h).of_core (congrArg Core.session hprep) (congrArg Core.unpruned hprep)
  unfold Streaming.iterate
  dsimp only
  generalize Streaming.prepareRequest W cfg st = prepared at hprepared ⊢
  have hkeeps := streamAttempts_keeps W cfg (Streaming.completionRequest cfg prepared) maxRetries
    (Streaming.send prepared (Streaming.iterationEvent iteration))
  rw [← streamWithRetry] at hkeeps
  generalize streamWithRetry W cfg (Streaming.completionRequest cfg prepared)
    (Streaming.send prepared (Streaming.iterationEvent iteration)) = called at hkeeps ⊢
  obtain ⟨outcome, after⟩ := called
  have hafter : Growing start after := hprepared.of_core hkeeps.1 hkeeps.2
  cases outcome with
  | error e => exact .done hafter.grown
  | ok served =>
      dsimp only
      have hrecovered : Growing start (Streaming.recoverTextCalls W cfg served.1
          (Streaming.recordResponse served.1 served.2 after)).2 := by
        have hquiet := recoverTextCalls_quiet W cfg served.1
          (Streaming.recordResponse served.1 served.2 after)
        have hcore := recoverTextCalls_core W cfg served.1
          (Streaming.recordResponse served.1 served.2 after).quiet
        rw [hquiet] at hcore
        rw [← growing_quiet]
        exact hafter.of_core (congrArg Core.session hcore) (congrArg Core.unpruned hcore)
      generalize Streaming.recoverTextCalls W cfg served.1
        (Streaming.recordResponse served.1 served.2 after) = recovered at hrecovered ⊢
      rw [← stepGrows_quiet, ← handleResponse_quiet]
      exact handleResponse_grows W cfg iteration recovered.1 (growing_quiet.mpr hrecovered)

theorem streamingIterations_grows (remaining iteration : Nat) {st : LoopState σ}
    (h : Growing start st) :
    Grown start (Streaming.runIterations W cfg remaining iteration st).2 := by
  induction remaining generalizing iteration st with
  | zero =>
      have hpush : Growing start (Streaming.finishMaxIterations W cfg st).2 :=
        h.push [.assistant (Streaming.fallbackReply cfg st).1] rfl rfl
      exact hpush.grown
  | succ remaining ih =>
      have hstep := streamingIterate_grows W cfg iteration h
      unfold Streaming.runIterations
      cases hiterate : Streaming.iterate W cfg iteration st with
      | done result st' =>
          rw [hiterate] at hstep
          cases hstep with
          | done hgrown => exact hgrown
      | next st' =>
          rw [hiterate] at hstep
          cases hstep with
          | next hgrowing => exact ih (iteration + 1) hgrowing

theorem runAgentLoopStreaming_grown (session : List Message) (world : σ) :
    Grown ((session ++ [turnUserMessage cfg]).map stripImages)
      (Streaming.runAgentLoopStreaming W cfg session world).2 := by
  unfold Streaming.runAgentLoopStreaming
  split
  · have h := runAgentLoop_grown W cfg session world
    dsimp only
    split <;> exact h
  · have hstart : Growing ((session ++ [turnUserMessage cfg]).map stripImages)
        (Streaming.startTurn cfg session world) := ⟨rfl, [], (List.append_nil _).symm⟩
    exact streamingIterations_grows W cfg _ 0 hstart

end Streaming

end ArmaraOS.Agent
