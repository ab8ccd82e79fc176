import ArmaraOS.Kernel.Workflow

/-!
How a workflow run ends.

A turn of `execute_run` goes on, marks the stored run as completed or failed, or leaves with an
error that is stored nowhere: where no agent is found for a step, where the agent of a `Collect`
step is skipped, and where the reply to `BestOf` names no candidate. A run ends in a terminal state
exactly when none of its turns leaves so (`execute_run_terminal_iff`).
-/

namespace ArmaraOS.Kernel

open ArmaraOS.Lib ArmaraOS.Text

section Env

variable {W : Type} (env : WorkflowEnv W) (runId : Nat)

/-! ### What a turn does -/

/-- The stored run keeps its state. -/
def KeepsRun (runs runs' : Table WorkflowRun.id) : Prop :=
  ∀ run, runs.find runId = some run →
    ∃ run', runs'.find runId = some run' ∧ run'.state = run.state

/-- A turn goes on or marks the stored run only under `guard`, and leaves without a mark only
otherwise. -/
inductive TurnSpec (st : ExecState W) (guard : Prop) : Turn (ExecState W) (ExecResult W) → Prop
  | next {st' : ExecState W} :
      KeepsRun runId st.runs st'.runs → st.i < st'.i → guard → TurnSpec st guard (.next st')
  | complete : guard → TurnSpec st guard (st.complete env runId)
  | fail {st' : ExecState W} (e : String) :
      KeepsRun runId st.runs st'.runs → guard → TurnSpec st guard (st'.fail env runId e)
  | leave {st' : ExecState W} (e : String) :
      KeepsRun runId st.runs st'.runs → ¬ guard → TurnSpec st guard (st'.leave e)

variable {env runId}

theorem KeepsRun.refl (runs : Table WorkflowRun.id) : KeepsRun runId runs runs :=
  fun run hrun => ⟨run, hrun, rfl⟩

theorem KeepsRun.trans {runs runs' runs'' : Table WorkflowRun.id} (h : KeepsRun runId runs runs')
    (h' : KeepsRun runId runs' runs'') : KeepsRun runId runs runs'' := by
  intro run hrun
  obtain ⟨run', hrun', hstate⟩ := h run hrun
  obtain ⟨run'', hrun'', hstate'⟩ := h' run' hrun'
  exact ⟨run'', hrun'', hstate'.trans hstate⟩

theorem KeepsRun.pushResult (st : ExecState W) (stepName : String) (agent : Nat × String)
    (reply : Reply) (durationMs : Nat) :
    KeepsRun runId st.runs (st.pushResult env runId stepName agent reply durationMs).runs :=
  fun _ hrun => ⟨_, Table.find_modify (by exact fun _ h => h) hrun, rfl⟩

@[simp] theorem setVar_runs (st : ExecState W) (step : WorkflowStep) (value : String) :
    (st.setVar step value).runs = st.runs := by
  unfold ExecState.setVar
  split <;> rfl

@[simp] theorem setVar_i (st : ExecState W) (step : WorkflowStep) (value : String) :
    (st.setVar step value).i = st.i := by
  unfold ExecState.setVar
  split <;> rfl

/-! ### Turns of one step -/

theorem collected_spec (st : ExecState W) {st' : ExecState W}
    (hkeeps : KeepsRun runId st.runs st'.runs) (hi : st'.i = st.i) (step : WorkflowStep)
    (value : String) {guard : Prop} (hguard : guard) :
    TurnSpec env runId st guard (collected step value st') := by
  refine .next ?_ ?_ hguard
  · simpa only [ExecState.advance, setVar_runs] using hkeeps
  · simp only [ExecState.advance, setVar_i]
    omega

theorem sequentialTurn_spec (step : WorkflowStep) (st : ExecState W) :
    TurnSpec env runId st ((env.resolve st.world step.agent).isSome = true)
      (sequentialTurn env runId step st) := by
  unfold sequentialTurn
  cases hagent : env.resolve st.world step.agent with
  | none => exact .leave _ (.refl st.runs) (by simp)
  | some agent =>
      dsimp only
      split
      · refine .next ?_ ?_ rfl
        · simp only [ExecState.advance, ExecState.pushOutput, setVar_runs]
          exact .pushResult { st with world := _ } step.name agent _ _
        · simp [ExecState.advance, ExecState.pushOutput, ExecState.pushResult]
      · exact .next (.refl st.runs) (Nat.lt_succ_self _) rfl
      · exact .fail _ (.refl st.runs) rfl

variable (env runId) in
/-- The iterations of a loop step only append results. -/
theorem loopIterations_keeps (step : WorkflowStep) (agent : Nat × String) (until_ : String)
    (left iter : Nat) (st : ExecState W) :
    KeepsRun runId st.runs (loopIterations env runId step agent until_ left iter st).1.runs ∧
      (loopIterations env runId step agent until_ left iter st).1.i = st.i := by
  induction left generalizing iter st with
  | zero => exact ⟨.refl st.runs, rfl⟩
  | succ left ih =>
      simp only [loopIterations]
      split
      · split
        · exact ⟨.pushResult { st with world := _ } _ agent _ _, rfl⟩
        · obtain ⟨hkeeps, hi⟩ := ih (iter + 1) _
          refine ⟨KeepsRun.trans ?_ hkeeps, hi⟩
          exact .pushResult { st with world := _ } _ agent _ _
      · exact ⟨.refl st.runs, rfl⟩
      · exact ⟨.refl st.runs, rfl⟩

theorem loopTurn_spec (step : WorkflowStep) (maxIterations : Nat) (until_ : String)
    (st : ExecState W) :
    TurnSpec env runId st ((env.resolve st.world step.agent).isSome = true)
      (loopTurn env runId step maxIterations until_ st) := by
  unfold loopTurn
  cases hagent : env.resolve st.world step.agent with
  | none => exact .leave _ (.refl st.runs) (by simp)
  | some agent =>
      have hspec := loopIterations_keeps env runId step agent until_ maxIterations 0 st
      dsimp only
      split
      · next st' e heq =>
          rw [heq] at hspec
          exact .fail e hspec.1 rfl
      · next st' heq =>
          rw [heq] at hspec
          refine .next ?_ ?_ rfl
          · simpa only [ExecState.advance, setVar_runs] using hspec.1
          · have hi : st'.i = st.i := hspec.2
            simp only [ExecState.advance, setVar_i]
            omega

variable (env runId) in
/-- The results of a fan-out only append results. -/
theorem takeResults_keeps (durationMs : Nat) (branches : List Branch) (st : ExecState W) :
    KeepsRun runId st.runs (takeResults env runId durationMs branches st).1.runs := by
  induction branches generalizing st with
  | nil => exact .refl st.runs
  | cons branch branches ih =>
      simp only [takeResults]
      split
      · refine KeepsRun.trans ?_ (ih _)
        simp only [ExecState.pushOutput, setVar_runs]
        exact .pushResult st _ _ _ _
      · exact .refl st.runs
      · exact .refl st.runs

theorem fanOutTurn_spec {steps : List WorkflowStep} {st : ExecState W} {step : WorkflowStep}
    (hstep : steps[st.i]? = some step) (hmode : step.mode = .fanOut) :
    TurnSpec env runId st
      (∀ step ∈ fanOutSteps (steps.drop st.i), (env.resolve st.world step.agent).isSome = true)
      (fanOutTurn env runId steps st) := by
  have hlength : 0 < (fanOutSteps (steps.drop st.i)).length := by
    obtain ⟨hi, rfl⟩ := List.getElem?_eq_some_iff.mp hstep
    rw [List.drop_eq_getElem_cons hi, fanOutSteps, List.takeWhile_cons_of_pos (by simpa using hmode)]
    exact Nat.succ_pos _
  unfold fanOutTurn
  dsimp only
  cases hunresolved : unresolved env st.world (fanOutSteps (steps.drop st.i)) with
  | some lost =>
      refine .leave _ (.refl st.runs) fun hall => ?_
      have hnone := List.find?_some hunresolved
      rw [Option.isNone_iff_eq_none] at hnone
      have hsome := hall lost (List.mem_of_find?_eq_some hunresolved)
      rw [hnone] at hsome
      cases hsome
  | none =>
      have hall : ∀ step ∈ fanOutSteps (steps.drop st.i),
          (env.resolve st.world step.agent).isSome = true := by
        intro step hmem
        have hnone := List.find?_eq_none.mp hunresolved step hmem
        simpa [Option.isSome_iff_ne_none] using hnone
      obtain ⟨branches, w⟩ := joinAll env st (fanOutSteps (steps.drop st.i)) st.i st.world
      have hkeeps := takeResults_keeps env runId (env.elapsedMs st.world w) branches
        { st with world := w }
      dsimp only
      split
      · next st' e heq =>
          rw [heq] at hkeeps
          exact .fail e hkeeps hall
      · next st' heq =>
          rw [heq] at hkeeps
          exact .next hkeeps (Nat.lt_add_of_pos_right hlength) hall

/-! ### The agent of a `Collect` step -/

theorem retryStep_ne_skipped (step : WorkflowStep) (stepIndex agentId : Nat) (prompt : String)
    (maxRetries left : Nat) (lastErr : String) (w : W) :
    (retryStep env step stepIndex agentId prompt maxRetries left lastErr w).1 ≠ .ok none := by
  induction left generalizing lastErr w with
  | zero => exact fun h => nomatch h
  | succ left ih =>
      unfold retryStep
      split
      · exact fun h => nomatch h
      · exact ih _ _
      · exact ih _ _

variable (env) in
/-- A step is skipped exactly when its error mode is `Skip` and its call does not answer. -/
theorem executeStep_skipped_iff (step : WorkflowStep) (stepIndex agentId : Nat) (prompt : String)
    (w : W) :
    (executeStepWithErrorMode env step stepIndex agentId prompt w).1 = .ok none ↔
      step.errorMode = .skip ∧
        ∀ reply, (env.send w agentId prompt step stepIndex).1 ≠ .reply reply := by
  unfold executeStepWithErrorMode
  cases hmode : step.errorMode with
  | fail =>
      dsimp only
      split <;> simp
  | skip =>
      dsimp only
      split
      · next reply w' hsend => simp [hsend]
      · next e w' hsend => simp [hsend]
      · next w' hsend => simp [hsend]
  | retry maxRetries => simpa using retryStep_ne_skipped _ _ _ _ _ _ _ _

variable (env) in
/-- The agent that merges the outputs is found, its call is not skipped, and from its reply a
value can be picked. -/
def Answers (step : WorkflowStep) (agg : Aggregator) (st : ExecState W) : Prop :=
  ∃ agent, env.resolve st.world (.byName agg.agentName) = some agent ∧
    let synth := synthAggregateStep step (.byName agg.agentName) agg.prompt
    (step.errorMode = .skip →
      ∃ reply, (env.send st.world agent.1 agg.prompt synth st.i).1 = .reply reply) ∧
    ∀ reply, (executeStepWithErrorMode env synth st.i agent.1 agg.prompt st.world).1 =
      .ok (some reply) → (agg.pick reply.output).isOk = true

/-- Once the agent is found, only the result of its call matters. -/
theorem answers_iff (step : WorkflowStep) {agg : Aggregator} {st : ExecState W}
    {agent : Nat × String} (hagent : env.resolve st.world (.byName agg.agentName) = some agent)
    {result : Except String (Option Reply)}
    (hresult : (executeStepWithErrorMode env
      (synthAggregateStep step (.byName agg.agentName) agg.prompt) st.i agent.1 agg.prompt
        st.world).1 = result) :
    Answers env step agg st ↔ result ≠ .ok none ∧
      ∀ reply, result = .ok (some reply) → (agg.pick reply.output).isOk = true := by
  subst hresult
  have hskipped := executeStep_skipped_iff env
    (synthAggregateStep step (.byName agg.agentName) agg.prompt) st.i agent.1 agg.prompt st.world
  constructor
  · rintro ⟨agent', hagent', hanswers, hpick⟩
    obtain rfl : agent = agent' := Option.some.inj (hagent.symm.trans hagent')
    refine ⟨fun hnone => ?_, hpick⟩
    obtain ⟨hmode, hsilent⟩ := hskipped.mp hnone
    obtain ⟨reply, hreply⟩ := hanswers hmode
    exact hsilent reply hreply
  · rintro ⟨hnone, hpick⟩
    refine ⟨agent, hagent, fun hmode => ?_, hpick⟩
    by_contra hsilent
    exact hnone (hskipped.mpr ⟨hmode, fun reply hreply => hsilent ⟨reply, hreply⟩⟩)

theorem aggregateTurn_spec (step : WorkflowStep) (agg : Aggregator) (st : ExecState W) :
    TurnSpec env runId st (2 ≤ st.allOutputs.length → Answers env step agg st)
      (aggregateTurn env runId step agg st) := by
  unfold aggregateTurn
  split
  · next houtputs =>
      refine collected_spec st (.refl st.runs) rfl step "" fun hmany => ?_
      rw [houtputs] at hmany
      exact absurd hmany (by decide)
  · next output houtputs =>
      refine collected_spec st (.refl st.runs) rfl step output fun hmany => ?_
      rw [houtputs, List.length_singleton] at hmany
      exact absurd hmany (by decide)
  · next hnone hone =>
      have hmany : 2 ≤ st.allOutputs.length := by
        rcases houtputs : st.allOutputs with _ | ⟨output, _ | ⟨output', outputs⟩⟩
        · exact absurd houtputs hnone
        · exact absurd houtputs (hone output)
        · exact Nat.le_add_left 2 _
      have hiff : (2 ≤ st.allOutputs.length → Answers env step agg st) =
          Answers env step agg st := propext (imp_iff_right hmany)
      rw [hiff]
      dsimp only
      cases hagent : env.resolve st.world (.byName agg.agentName) with
      | none =>
          refine .leave _ (.refl st.runs) ?_
          rintro ⟨agent, hfound, -⟩
          rw [hagent] at hfound
          cases hfound
      | some agent =>
          dsimp only
          have hanswers := answers_iff step hagent rfl
          revert hanswers
          obtain ⟨result, w⟩ := executeStepWithErrorMode env
            (synthAggregateStep step (.byName agg.agentName) agg.prompt) st.i agent.1 agg.prompt
              st.world
          intro hanswers
          match result with
          | .error e =>
              exact .fail e (.refl st.runs) (hanswers.mpr ⟨nofun, nofun⟩)
          | .ok none => exact .leave _ (.refl st.runs) fun h => (hanswers.mp h).1 rfl
          | .ok (some reply) =>
              dsimp only
              cases hpick : agg.pick reply.output with
              | error e =>
                  refine .leave e (.refl st.runs) fun h => ?_
                  have hok := (hanswers.mp h).2 reply rfl
                  rw [hpick] at hok
                  cases hok
              | ok value =>
                  refine collected_spec st (.pushResult { st with world := w } _ agent _ _) rfl
                    step value (hanswers.mpr ⟨nofun, fun reply' hreply' => ?_⟩)
                  cases hreply'
                  rw [hpick]
                  rfl

/-! ### Any turn -/

variable (env) in
/-- The agents that the turn needs are found, and one that merges outputs answers. -/
def Bookkept (workflow : Workflow) (initialInput : String) (st : ExecState W) : Prop :=
  match workflow.steps[st.i]? with
  | none => True
  | some step =>
      match step.mode with
      | .sequential | .adaptive _ _ _ _ | .loop _ _ =>
          (env.resolve st.world step.agent).isSome = true
      | .fanOut => ∀ branch ∈ fanOutSteps (workflow.steps.drop st.i),
          (env.resolve st.world branch.agent).isSome = true
      | .conditional condition =>
          contains (env.toLowercase st.currentInput) (env.toLowercase condition) = true →
            (env.resolve st.world step.agent).isSome = true
      | .collect => ∀ agg,
          aggregator? env step (step.collectAggregation.getD .default) initialInput st = some agg →
            2 ≤ st.allOutputs.length → Answers env step agg st

theorem conditionalTurn_spec (step : WorkflowStep) (condition : String) (st : ExecState W) :
    TurnSpec env runId st
      (contains (env.toLowercase st.currentInput) (env.toLowercase condition) = true →
        (env.resolve st.world step.agent).isSome = true)
      (conditionalTurn env runId step condition st) := by
  unfold conditionalTurn
  split
  · next hmet =>
      have hiff : (contains (env.toLowercase st.currentInput) (env.toLowercase condition) = true →
          (env.resolve st.world step.agent).isSome = true) =
            ((env.resolve st.world step.agent).isSome = true) := propext (imp_iff_right hmet)
      rw [hiff]
      exact sequentialTurn_spec step st
  · next hmet => exact .next (.refl st.runs) (Nat.lt_succ_self _) fun h => absurd h hmet

/-- The aggregations without an agent do not fail. -/
theorem applyAggregation_ok {step : WorkflowStep} {strategy : AggregationStrategy}
    {initialInput : String} {st : ExecState W}
    (h : aggregator? env step strategy initialInput st = none) (outputs : List String) :
    ∃ value, applyAggregation env strategy outputs = .ok value := by
  unfold applyAggregation
  split
  · exact ⟨"", rfl⟩
  · cases strategy with
    | concatenate separator => exact ⟨_, rfl⟩
    | jsonArray => exact ⟨_, rfl⟩
    | consensus threshold =>
        dsimp only
        split
        · split <;> exact ⟨_, rfl⟩
        · exact ⟨_, rfl⟩
    | _ => cases h

theorem collectTurn_spec (initialInput : String) (step : WorkflowStep) (st : ExecState W) :
    TurnSpec env runId st
      (∀ agg, aggregator? env step (step.collectAggregation.getD .default) initialInput st =
        some agg → 2 ≤ st.allOutputs.length → Answers env step agg st)
      (collectTurn env runId initialInput step st) := by
  unfold collectTurn
  dsimp only
  cases hagg : aggregator? env step (step.collectAggregation.getD .default) initialInput st with
  | some agg =>
      have hiff : (∀ agg', some agg = some agg' → 2 ≤ st.allOutputs.length →
          Answers env step agg' st) = (2 ≤ st.allOutputs.length → Answers env step agg st) :=
        propext ⟨fun h => h agg rfl, fun h agg' heq => Option.some.inj heq ▸ h⟩
      rw [hiff]
      exact aggregateTurn_spec step agg st
  | none =>
      obtain ⟨value, hvalue⟩ := applyAggregation_ok hagg st.allOutputs
      simp only [hvalue]
      exact collected_spec st (.refl st.runs) rfl step value nofun

/-- **What a turn does.** -/
theorem executeTurn_spec (workflow : Workflow) (initialInput : String) (st : ExecState W) :
    TurnSpec env runId st (Bookkept env workflow initialInput st)
      (executeTurn env runId workflow initialInput st) := by
  unfold executeTurn Bookkept
  cases hstep : workflow.steps[st.i]? with
  | none => exact .complete trivial
  | some step =>
      dsimp only
      cases hmode : step.mode with
      | sequential => exact sequentialTurn_spec step st
      | adaptive _ _ _ _ => exact sequentialTurn_spec step st
      | fanOut => exact fanOutTurn_spec hstep hmode
      | collect => exact collectTurn_spec initialInput step st
      | conditional condition => exact conditionalTurn_spec step condition st
      | loop maxIterations until_ => exact loopTurn_spec step maxIterations until_ st

/-! ### Runs -/

variable (env runId) in
/-- The loop of `execute_run`. -/
def executeLoop (workflow : Workflow) (initialInput : String) :
    Loop (ExecState W) (ExecResult W) where
  body := executeTurn env runId workflow initialInput
  rank st := workflow.steps.length - st.i
  descends st st' hbody := by
    have hstep : st.i < workflow.steps.length := by
      by_contra hlast
      rw [executeTurn, List.getElem?_eq_none (Nat.le_of_not_lt hlast)] at hbody
      cases hbody
    have hspec : TurnSpec env runId st _ (executeTurn env runId workflow initialInput st) :=
      executeTurn_spec workflow initialInput st
    rw [hbody] at hspec
    cases hspec with
    | next _ hi _ => omega

variable (env runId) in
/-- `execute_run`. -/
def executeRun (engine : WorkflowEngine) (w : W) : ExecResult W :=
  match engine.runs.find runId with
  | none => ⟨engine.runs, w, .error "Workflow run not found"⟩
  | some run =>
      let runs := engine.runs.modify runId (fun r => { r with state := .running }) fun _ h => h
      match engine.workflows.find run.workflowId with
      | none => ⟨runs, w, .error "Workflow definition not found"⟩
      | some workflow =>
          (executeLoop env runId workflow run.input).run
            { i := 0, currentInput := run.input, allOutputs := [], vars := [], runs := runs,
              world := w }

variable (runId) in
/-- The stored run is in the terminal state of the result. -/
def Terminal (r : ExecResult W) : Prop :=
  match r.result with
  | .ok out => ∃ run, r.runs.find runId = some run ∧ run.state = .completed ∧
      run.output = some out ∧ run.completedAt.isSome = true
  | .error e => ∃ run, r.runs.find runId = some run ∧ run.state = .failed ∧
      run.error = some e ∧ run.completedAt.isSome = true

variable (runId) in
/-- The stored run is running. -/
def IsRunning (runs : Table WorkflowRun.id) : Prop :=
  ∃ run, runs.find runId = some run ∧ run.state = .running

theorem KeepsRun.isRunning {runs runs' : Table WorkflowRun.id} (h : KeepsRun runId runs runs')
    (hrunning : IsRunning runId runs) : IsRunning runId runs' := by
  obtain ⟨run, hrun, hstate⟩ := hrunning
  obtain ⟨run', hrun', hstate'⟩ := h run hrun
  exact ⟨run', hrun', hstate'.trans hstate⟩

/-- A run that is left running is in no terminal state. -/
theorem IsRunning.not_terminal {runs : Table WorkflowRun.id} (h : IsRunning runId runs) (w : W)
    (e : String) : ¬ Terminal runId ⟨runs, w, .error e⟩ := by
  rintro ⟨run', hrun', hfailed, -⟩
  obtain ⟨run, hrun, hstate⟩ := h
  rw [hrun] at hrun'
  cases hrun'
  rw [hstate] at hfailed
  cases hfailed

/-- A turn that ends leaves a terminal state exactly under the guard. -/
theorem TurnSpec.exit_iff {st : ExecState W} {guard : Prop} {r : ExecResult W}
    (h : TurnSpec env runId st guard (.exit r)) (hrunning : IsRunning runId st.runs) :
    Terminal runId r ↔ guard := by
  cases h with
  | complete hguard =>
      obtain ⟨run, hrun, -⟩ := hrunning
      exact iff_of_true ⟨_, Table.find_modify (by exact fun _ h => h) hrun, rfl, rfl, rfl⟩ hguard
  | fail e hkeeps hguard =>
      obtain ⟨run, hrun, -⟩ := hkeeps.isRunning hrunning
      exact iff_of_true ⟨_, Table.find_modify (by exact fun _ h => h) hrun, rfl, rfl, rfl⟩ hguard
  | leave e hkeeps hguard =>
      exact iff_of_false ((hkeeps.isRunning hrunning).not_terminal _ e) hguard

/-- The loop, from a running run. -/
theorem executeLoop_terminal_iff {workflow : Workflow} {initialInput : String} {st : ExecState W}
    (hrunning : IsRunning runId st.runs) :
    Terminal runId ((executeLoop env runId workflow initialInput).run st) ↔
      ∀ st', (executeLoop env runId workflow initialInput).Reached st st' →
        Bookkept env workflow initialInput st' := by
  have hspec : ∀ st, TurnSpec env runId st (Bookkept env workflow initialInput st)
      ((executeLoop env runId workflow initialInput).body st) := executeTurn_spec workflow _
  have hnext : ∀ st st', IsRunning runId st.runs →
      (executeLoop env runId workflow initialInput).body st = .next st' →
        IsRunning runId st'.runs ∧ Bookkept env workflow initialInput st := by
    intro st st' hrunning hbody
    have hturn := hspec st
    rw [hbody] at hturn
    cases hturn with
    | next hkeeps _ hguard => exact ⟨hkeeps.isRunning hrunning, hguard⟩
  have hexit : ∀ st r, IsRunning runId st.runs →
      (executeLoop env runId workflow initialInput).body st = .exit r →
        (Terminal runId r ↔ Bookkept env workflow initialInput st) := by
    intro st r hrunning hbody
    have hturn := hspec st
    rw [hbody] at hturn
    exact hturn.exit_iff hrunning
  exact Loop.run_iff hnext hexit hrunning

/-- For every workflow, resolver and behaviour of `send_message`: a run ends in the terminal
state of its result exactly when its definition exists and in each of its turns the agents that
it needs are found, the one that merges outputs is not skipped, and a value can be picked from
its reply. -/
theorem execute_run_terminal_iff (env : WorkflowEnv W) (engine : WorkflowEngine) {runId : Nat}
    {run : WorkflowRun} (hrun : engine.runs.find runId = some run) (w : W) :
    Terminal runId (executeRun env runId engine w) ↔
      ∃ workflow, engine.workflows.find run.workflowId = some workflow ∧
        ∀ st, (executeLoop env runId workflow run.input).Reached
            { i := 0, currentInput := run.input, allOutputs := [], vars := [],
              runs := engine.runs.modify runId (fun r => { r with state := .running })
                fun _ h => h,
              world := w } st →
          Bookkept env workflow run.input st := by
  have hrunning : IsRunning runId
      (engine.runs.modify runId (fun r => { r with state := .running }) fun _ h => h) :=
    ⟨_, Table.find_modify _ hrun, rfl⟩
  simp only [executeRun, hrun]
  cases hworkflow : engine.workflows.find run.workflowId with
  | none => exact iff_of_false (hrunning.not_terminal w _) (by simp)
  | some workflow =>
      dsimp only
      rw [executeLoop_terminal_iff hrunning]
      constructor
      · exact fun h => ⟨workflow, rfl, h⟩
      · rintro ⟨workflow', heq, h⟩
        cases heq
        exact h

end Env

/-! ### A run of one step -/

/-- An agent that repeats its prompt. -/
def echo : WorkflowEnv Unit where
  resolve _ agent := if agent = .byName "writer" then some (1, "writer") else none
  send _ _ prompt _ _ := (.reply { output := prompt, inputTokens := 1, outputTokens := 1 }, ())
  elapsedMs _ _ := 0
  now _ := 0
  agentText id := toString id
  toLowercase := toAsciiLowercase
  jsonStrings outputs := "[" ++ join "," outputs ++ "]"
  mapOrder := id
  votesNeeded _ n := n
  debugText text := "\"" ++ text ++ "\""

/-- A workflow of one step, for an agent of a name. -/
def draftWorkflow (agentName : String) : Workflow where
  id := 1
  name := "draft"
  steps := [{
    name := "draft"
    agent := .byName agentName
    promptTemplate := placeholder "input"
    mode := .sequential }]

/-- A run of the workflow that has not started. -/
def draftRun : WorkflowRun where
  id := 7
  workflowId := 1
  workflowName := "draft"
  input := "hello"
  state := .pending
  stepResults := []
  output := none
  error := none
  startedAt := 0
  completedAt := none

/-- An engine with the workflow and its run. -/
def draftEngine (agentName : String) : WorkflowEngine where
  workflows := ⟨[draftWorkflow agentName], List.nodup_singleton _⟩
  runs := ⟨[draftRun], List.nodup_singleton _⟩

theorem find_draftRun (agentName : String) :
    (draftEngine agentName).runs.find 7 = some draftRun := rfl

theorem execute_run_terminal_iff_one_step :
    Terminal 7 (executeRun echo 7 (draftEngine "writer") ()) ↔
      ∃ workflow, (draftEngine "writer").workflows.find 1 = some workflow ∧
        ∀ st, (executeLoop echo 7 workflow "hello").Reached
            { i := 0, currentInput := "hello", allOutputs := [], vars := [],
              runs := (draftEngine "writer").runs.modify 7 (fun r => { r with state := .running })
                fun _ h => h,
              world := () } st →
          Bookkept echo workflow "hello" st :=
  execute_run_terminal_iff echo (draftEngine "writer") (find_draftRun "writer") ()

/-- No agent is found for the only step: the run returns an error and is left running. -/
theorem run_left_running :
    ¬ ∀ engine runId run, engine.runs.find runId = some run →
      Terminal runId (executeRun echo runId engine ()) := by
  intro hall
  have hterminal := hall (draftEngine "editor") 7 draftRun (find_draftRun "editor")
  have hrun : executeRun echo 7 (draftEngine "editor") () = ⟨(draftEngine "editor").runs.modify 7
      (fun r => { r with state := .running }) fun _ h => h, (),
      .error "Agent not found for step 'draft'"⟩ := Loop.run_exit rfl
  rw [hrun] at hterminal
  refine IsRunning.not_terminal ?_ _ _ hterminal
  exact ⟨_, rfl, rfl⟩

end ArmaraOS.Kernel
