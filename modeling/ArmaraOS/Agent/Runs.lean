import ArmaraOS.Agent.Stages

/-!
Runs of the agent loop: the states before its iterations, what one iteration does, and the
rule that carries an invariant over a whole turn.
-/

namespace ArmaraOS.Agent

variable {σ : Type}

/-! ### One iteration -/

/-- The state in which a response is handled, with the response logged. -/
def LoopState.logged (st : LoopState σ) (response : CompletionResponse) : LoopState σ :=
  { st with log := st.log ++ [.response response] }

theorem handleResponse_logged (W : World σ) (cfg : TurnConfig) (iteration : Nat)
    (response : CompletionResponse) (st : LoopState σ) :
    handleResponse W cfg iteration response st =
      match response.stopReason with
      | .endTurn => endTurn W cfg iteration response (st.logged response)
      | .stopSequence => endTurn W cfg iteration response (st.logged response)
      | .toolUse => toolRound W cfg iteration response (st.logged response)
      | .maxTokens => continueTokens W cfg iteration response (st.logged response) := rfl

/-- The response to a request, with the state in which it is handled; none when every
driver call fails. -/
def answered (W : World σ) (cfg : TurnConfig) (st : LoopState σ) :
    Option (CompletionResponse × LoopState σ) :=
  let called := callWithRetry W cfg (completionRequest cfg st) st
  match called.1 with
  | .error _ => none
  | .ok (response, used) =>
      some (recoverTextCalls W cfg response (recordResponse response used called.2))

/-- The request of an iteration fails and ends the turn, or its response is handled. -/
theorem requestAndHandle_cases (W : World σ) (cfg : TurnConfig) (iteration : Nat)
    (st : LoopState σ) :
    ∃ (requests : List Event) (asked : LoopState σ), OnlyRequests st.messages requests ∧
      asked.core = { st.core with log := st.log ++ requests } ∧
      ((∃ e, requestAndHandle W cfg iteration st = .done (.error e) asked) ∨
        ∃ response, answered W cfg st = some (response, asked) ∧
          requestAndHandle W cfg iteration st = handleResponse W cfg iteration response asked) := by
  obtain ⟨requests, honly, hcore⟩ := callWithRetry_asks W (completionRequest cfg st) cfg st
  unfold requestAndHandle answered
  dsimp only
  generalize callWithRetry W cfg (completionRequest cfg st) st = called at hcore ⊢
  obtain ⟨called, after⟩ := called
  cases called with
  | error e => exact ⟨requests, after, honly, hcore, .inl ⟨e, rfl⟩⟩
  | ok served =>
      refine ⟨requests,
        (recoverTextCalls W cfg served.1 (recordResponse served.1 served.2 after)).2, honly, ?_,
        .inr ⟨_, rfl, rfl⟩⟩
      rw [recoverTextCalls_core, recordResponse_core]
      exact hcore

/-- The state in which an iteration makes its request: the working messages are prepared,
and in the first iteration the planner has run. None when a plan ends the turn. -/
def requesting (W : World σ) (cfg : TurnConfig) (iteration : Nat) (st : LoopState σ) :
    Option (LoopState σ) :=
  if iteration = 0 ∧ cfg.plannerPathEligible = true then
    match runPlanner W cfg (prepareRequest W cfg st) with
    | .done .. => none
    | .next st => some st
  else some (prepareRequest W cfg st)

/-- The response that an iteration handles, with the state in which it does. -/
def handled (W : World σ) (cfg : TurnConfig) (iteration : Nat) (st : LoopState σ) :
    Option (CompletionResponse × LoopState σ) :=
  (requesting W cfg iteration st).bind (answered W cfg)

/-- What the planner leaves in the log. It runs in the first iteration of a turn that is
eligible for it. -/
def planned (W : World σ) (cfg : TurnConfig) (iteration : Nat) (st : LoopState σ) :
    List Event :=
  if iteration = 0 ∧ cfg.plannerPathEligible = true then
    planEvents W cfg (plannedSteps W st) (planState W st)
  else []

theorem isTool_planned (W : World σ) (cfg : TurnConfig) (iteration : Nat) (st : LoopState σ) :
    ∀ e ∈ planned W cfg iteration st, e.isTool = true := by
  unfold planned
  split
  · exact isTool_planEvents W cfg _ _
  · simp

/-- What an iteration does. The working messages are prepared, the planned steps are
dispatched, and then a completed plan ends the turn, or the request is made: it fails and
ends the turn, or its response is handled. -/
theorem iterate_cases (W : World σ) (cfg : TurnConfig) (iteration : Nat) (st : LoopState σ) :
    (∃ result st' text, iterate W cfg iteration st = .done result st' ∧
      (∀ r, result = .ok r → r.outcome = .plannerCompleted) ∧
      st'.core =
        { (prepareRequest W cfg st).core with
          log := st.log ++ planned W cfg iteration (prepareRequest W cfg st)
          session := st.session ++ [.assistant text] }) ∨
    ∃ (requests : List Event) (ready asked : LoopState σ),
      requesting W cfg iteration st = some ready ∧
      ready.core =
        { (prepareRequest W cfg st).core with
          log := st.log ++ planned W cfg iteration (prepareRequest W cfg st) } ∧
      OnlyRequests (prepareRequest W cfg st).messages requests ∧
      asked.core = { ready.core with log := ready.log ++ requests } ∧
      ((∃ e, iterate W cfg iteration st = .done (.error e) asked) ∨
        ∃ response, handled W cfg iteration st = some (response, asked) ∧
          iterate W cfg iteration st = handleResponse W cfg iteration response asked) := by
  have hprep := prepareRequest_core W cfg st
  have hlog : (prepareRequest W cfg st).log = st.log := congrArg Core.log hprep
  have hsession : (prepareRequest W cfg st).session = st.session := congrArg Core.session hprep
  unfold handled requesting iterate planned
  dsimp only
  generalize prepareRequest W cfg st = prepared at hlog hsession ⊢
  by_cases hfirst : iteration = 0 ∧ cfg.plannerPathEligible = true
  · simp only [if_pos hfirst]
    rcases runPlanner_cases W cfg prepared with
      ⟨ran, hstep, hcore⟩ | ⟨result, st', text, hstep, hresult, hcore⟩
    · simp only [hstep, Option.bind_some]
      obtain ⟨requests, asked, honly, hasked, hcases⟩ :=
        requestAndHandle_cases W cfg iteration ran
      have hmessages : ran.messages = prepared.messages := congrArg Core.messages hcore
      refine .inr ⟨requests, ran, asked, rfl, ?_, hmessages ▸ honly, hasked, hcases⟩
      rw [hcore, hlog]
    · simp only [hstep]
      refine .inl ⟨result, st', text, rfl, hresult, ?_⟩
      rw [hcore, hlog, hsession]
  · simp only [if_neg hfirst, Option.bind_some]
    obtain ⟨requests, asked, honly, hasked, hcases⟩ :=
      requestAndHandle_cases W cfg iteration prepared
    refine .inr ⟨requests, prepared, asked, rfl, ?_, honly, hasked, hcases⟩
    rw [List.append_nil, ← hlog]
    rfl

/-! ### The log grows -/

theorem endTurnCases_log {c : Core} {step : Step σ} (h : EndTurnCases c step) :
    step.state.core.log = c.log := by
  rcases h with ⟨_, st', rfl, _, _, _, _, _, hcore⟩ | ⟨_, st', rfl, ⟨_, _, _, _, hcore⟩, _⟩
  · rw [state_next, hcore]
  · rw [state_done, hcore]

theorem toolRound_log (W : World σ) (cfg : TurnConfig) (iteration : Nat)
    (response : CompletionResponse) (st : LoopState σ) :
    st.log <+: (toolRound W cfg iteration response st).state.log := by
  have hround : ∀ dispatches parts, st.log <+: roundLog cfg st.log dispatches parts := by
    intro dispatches parts
    rw [roundLog, List.append_assoc]
    exact List.prefix_append _ _
  rcases toolRound_cases W cfg iteration response st with
    ⟨_, st', hstep, hcore⟩ | ⟨dispatches, parts, _, _, _, hcases⟩
  · rw [hstep]
    have hlog : st'.log = st.log := congrArg Core.log hcore
    exact (congrArg (st.log <+: ·) hlog).mpr List.prefix_rfl
  · rcases hcases with ⟨_, st', hstep, _, hcore⟩ | ⟨_, _, st', hstep, _, hcore⟩
    · rw [hstep, state_done]
      have hlog : st'.log = roundLog cfg st.log dispatches parts := congrArg Core.log hcore
      exact hlog ▸ hround dispatches parts
    · rw [hstep, state_next]
      have hlog : st'.log = roundLog cfg st.log dispatches parts := congrArg Core.log hcore
      exact hlog ▸ hround dispatches parts

theorem handleResponse_log (W : World σ) (cfg : TurnConfig) (iteration : Nat)
    (response : CompletionResponse) (st : LoopState σ) :
    st.log ++ [.response response] <+:
      (handleResponse W cfg iteration response st).state.log := by
  have hlog : (st.logged response).log = st.log ++ [.response response] := rfl
  rw [handleResponse_logged, ← hlog]
  generalize st.logged response = st'
  have hend : st'.log <+: (endTurn W cfg iteration response st').state.log := by
    have h := endTurnCases_log (endTurn_cases W cfg iteration response st')
    rw [core_log, core_log] at h
    exact (congrArg (st'.log <+: ·) h).mpr List.prefix_rfl
  cases response.stopReason with
  | endTurn => exact hend
  | stopSequence => exact hend
  | toolUse => exact toolRound_log W cfg iteration response st'
  | maxTokens =>
      rcases continueTokens_cases W cfg iteration response st' with
        ⟨st'', hnext, hcore'⟩ | ⟨_, st'', hdone, ⟨_, _, _, _, hcore'⟩, _⟩
      · have hlog' : st''.log = st'.log := congrArg Core.log hcore'
        rw [hnext]
        exact (congrArg (st'.log <+: ·) hlog').mpr List.prefix_rfl
      · have hlog' : st''.log = st'.log := congrArg Core.log hcore'
        rw [hdone]
        exact (congrArg (st'.log <+: ·) hlog').mpr List.prefix_rfl

/-- An iteration only adds to the log. -/
theorem iterate_log (W : World σ) (cfg : TurnConfig) (iteration : Nat) (st : LoopState σ) :
    st.log <+: (iterate W cfg iteration st).state.log := by
  rcases iterate_cases W cfg iteration st with
    ⟨_, st', _, hstep, _, hcore⟩ | ⟨requests, ready, asked, _, hready, _, hasked, h⟩
  · have hlog : st'.log = st.log ++ planned W cfg iteration (prepareRequest W cfg st) :=
      congrArg Core.log hcore
    rw [hstep, state_done, hlog]
    exact List.prefix_append _ _
  · have hreadyLog : ready.log = st.log ++ planned W cfg iteration (prepareRequest W cfg st) :=
      congrArg Core.log hready
    have hlog : asked.log = ready.log ++ requests := congrArg Core.log hasked
    have hasks : st.log <+: asked.log := by
      rw [hlog, hreadyLog, List.append_assoc]
      exact List.prefix_append _ _
    rcases h with ⟨e, hstep⟩ | ⟨response, _, hstep⟩
    · rw [hstep]
      exact hasks
    · rw [hstep]
      exact (hasks.trans (List.prefix_append _ _)).trans
        (handleResponse_log W cfg iteration response asked)

theorem runIterations_log (W : World σ) (cfg : TurnConfig) :
    ∀ (remaining iteration : Nat) (st : LoopState σ),
      st.log <+: (runIterations W cfg remaining iteration st).2.log
  | 0, _, st => List.prefix_rfl
  | remaining + 1, iteration, st => by
      have hlog := iterate_log W cfg iteration st
      unfold runIterations
      cases hstep : iterate W cfg iteration st with
      | done result st' =>
          rw [hstep] at hlog
          exact hlog
      | next st' =>
          rw [hstep] at hlog
          exact hlog.trans (runIterations_log W cfg remaining (iteration + 1) st')

/-! ### Runs -/

/-- `Reaches W cfg session world i st`: a turn from the session and the world is in the
state `st` before its iteration `i`. -/
inductive Reaches (W : World σ) (cfg : TurnConfig) (session : List Message) (world : σ) :
    Nat → LoopState σ → Prop where
  | start : Reaches W cfg session world 0 (startTurn cfg session world)
  | next {iteration : Nat} {st st' : LoopState σ} :
      Reaches W cfg session world iteration st → iteration < cfg.maxIterations →
        iterate W cfg iteration st = .next st' → Reaches W cfg session world (iteration + 1) st'

/-- The state before an iteration, computed: there is none when the turn ended before. -/
def stateBefore (W : World σ) (cfg : TurnConfig) (session : List Message) (world : σ) :
    Nat → Option (LoopState σ)
  | 0 => some (startTurn cfg session world)
  | iteration + 1 =>
      match stateBefore W cfg session world iteration with
      | none => none
      | some st =>
          if iteration < cfg.maxIterations then
            match iterate W cfg iteration st with
            | .next st' => some st'
            | .done .. => none
          else none

section Turn

variable {W : World σ} {cfg : TurnConfig} {session : List Message} {world : σ}

/-- At each iteration at most one state is reached, and it can be computed. -/
theorem reaches_iff {iteration : Nat} {st : LoopState σ} :
    Reaches W cfg session world iteration st ↔
      stateBefore W cfg session world iteration = some st := by
  constructor
  · intro h
    induction h with
    | start => rfl
    | next _ hlt hstep ih => simp [stateBefore, ih, hlt, hstep]
  · induction iteration generalizing st with
    | zero =>
        intro h
        obtain rfl := Option.some.inj h
        exact .start
    | succ iteration ih =>
        intro h
        rw [stateBefore] at h
        split at h
        · cases h
        · rename_i before hbefore
          split at h
          · rename_i hlt
            split at h
            · rename_i after hstep
              obtain rfl := Option.some.inj h
              exact (ih hbefore).next hlt hstep
            · cases h
          · cases h

/-- The rest of the turn runs from the state that is reached. -/
theorem Reaches.run {iteration : Nat} {st : LoopState σ}
    (h : Reaches W cfg session world iteration st) :
    iteration ≤ cfg.maxIterations ∧
      runAgentLoop W cfg session world =
        runIterations W cfg (cfg.maxIterations - iteration) iteration st := by
  induction h with
  | start => exact ⟨Nat.zero_le _, rfl⟩
  | @next iteration st st' _ hlt hstep ih =>
      refine ⟨hlt, ih.2.trans ?_⟩
      obtain ⟨remaining, hremaining⟩ : ∃ n, cfg.maxIterations - iteration = n + 1 :=
        ⟨cfg.maxIterations - iteration - 1, by omega⟩
      have hrest : cfg.maxIterations - (iteration + 1) = remaining := by omega
      rw [hremaining, hrest, runIterations, hstep]

/-- What is logged in a state that is reached stands at the head of the log of the turn. -/
theorem Reaches.log_grows {iteration : Nat} {st : LoopState σ}
    (h : Reaches W cfg session world iteration st) :
    st.log <+: (runAgentLoop W cfg session world).2.log := by
  rw [h.run.2]
  exact runIterations_log W cfg _ _ st

/-- **The run rule.** What holds of every end that an iteration reaches, and of the end at
the iteration limit, holds of the turn. -/
theorem runAgentLoop_rule {Q : Except LoopError AgentLoopResult → LoopState σ → Prop}
    (hdone : ∀ iteration st result st', Reaches W cfg session world iteration st →
      iteration < cfg.maxIterations → iterate W cfg iteration st = .done result st' →
        Q result st')
    (hlimit : ∀ st, Reaches W cfg session world cfg.maxIterations st →
      Q (finishMaxIterations W cfg st).1 (finishMaxIterations W cfg st).2) :
    Q (runAgentLoop W cfg session world).1 (runAgentLoop W cfg session world).2 := by
  suffices h : ∀ (remaining iteration : Nat) (st : LoopState σ),
      iteration + remaining = cfg.maxIterations → Reaches W cfg session world iteration st →
        Q (runIterations W cfg remaining iteration st).1
          (runIterations W cfg remaining iteration st).2 from
    h cfg.maxIterations 0 _ (Nat.zero_add _) .start
  intro remaining
  induction remaining with
  | zero =>
      intro iteration st hsum hreach
      obtain rfl : iteration = cfg.maxIterations := hsum
      exact hlimit st hreach
  | succ remaining ih =>
      intro iteration st hsum hreach
      have hlt : iteration < cfg.maxIterations := by omega
      unfold runIterations
      cases hstep : iterate W cfg iteration st with
      | done result st' => exact hdone iteration st result st' hreach hlt hstep
      | next st' => exact ih (iteration + 1) st' (by omega) (hreach.next hlt hstep)

/-- An end that an iteration reaches is the end of the turn. -/
theorem Reaches.done {iteration : Nat} {st st' : LoopState σ}
    {result : Except LoopError AgentLoopResult}
    (h : Reaches W cfg session world iteration st) (hlt : iteration < cfg.maxIterations)
    (hstep : iterate W cfg iteration st = .done result st') :
    runAgentLoop W cfg session world = (result, st') := by
  obtain ⟨remaining, hremaining⟩ : ∃ n, cfg.maxIterations - iteration = n + 1 :=
    ⟨cfg.maxIterations - iteration - 1, by omega⟩
  rw [h.run.2, hremaining, runIterations, hstep]

end Turn

end ArmaraOS.Agent
