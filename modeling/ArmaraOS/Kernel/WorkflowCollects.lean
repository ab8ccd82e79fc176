import ArmaraOS.Kernel.WorkflowRuns

/-!
What a `Collect` step merges.

A run keeps one list of outputs. Every step that runs adds to it, a `Collect` step hands the whole
list to its aggregation and leaves the merged value in it. So the list is that of the fan-out
outputs since the last `Collect` step exactly as long as no other step has run: no `Sequential`,
`Adaptive`, `Loop` or met `Conditional` step, and no `Collect` step either.
-/

namespace ArmaraOS.Kernel

open ArmaraOS.Lib ArmaraOS.Text

variable {W : Type} (env : WorkflowEnv W)

/-! ### What the steps of a run put out -/

/-- The text of a reply. -/
def replyText? : Outcome → Option String
  | .reply reply => some reply.output
  | _ => none

/-- The outputs of the fan-out that the turn at `st` runs, in step order. -/
def fanOutOutputs (workflow : Workflow) (st : ExecState W) : List String :=
  (joinAll env st (fanOutSteps (workflow.steps.drop st.i)) st.i st.world).1.filterMap fun branch =>
    replyText? branch.outcome

/-- The outputs of the fan-outs since the last `Collect` step, with those of one more turn. -/
def gatherTurn (workflow : Workflow) (outputs : List String) (st : ExecState W) : List String :=
  match workflow.steps[st.i]? with
  | none => outputs
  | some step =>
      match step.mode with
      | .fanOut => outputs ++ fanOutOutputs env workflow st
      | .collect => []
      | _ => outputs

/-- The outputs of the fan-outs since the last `Collect` step of the turns. -/
def fanOutsSince (workflow : Workflow) (visited : List (ExecState W)) : List String :=
  visited.foldl (gatherTurn env workflow) []

/-- The step at hand is of mode `Collect`. -/
def AtCollect (workflow : Workflow) (st : ExecState W) : Prop :=
  ∃ step, workflow.steps[st.i]? = some step ∧ step.mode = .collect

/-- The step at hand is of mode `FanOut`, or of mode `Conditional` with a condition that is not
met. -/
def AtFanOut (workflow : Workflow) (st : ExecState W) : Prop :=
  ∃ step, workflow.steps[st.i]? = some step ∧
    (step.mode = .fanOut ∨ ∃ condition, step.mode = .conditional condition ∧
      contains (env.toLowercase st.currentInput) (env.toLowercase condition) = false)

/-- The step runs as one of mode `Sequential`. -/
def RunsAlone (step : WorkflowStep) (st : ExecState W) : Prop :=
  match step.mode with
  | .sequential | .adaptive _ _ _ _ => True
  | .conditional condition =>
      contains (env.toLowercase st.currentInput) (env.toLowercase condition) = true
  | _ => False

/-- The step at hand is skipped by its error mode. -/
def AtSkipped (workflow : Workflow) (st : ExecState W) : Prop :=
  ∃ step agent, workflow.steps[st.i]? = some step ∧ RunsAlone env step st ∧
    env.resolve st.world step.agent = some agent ∧
    (executeStepWithErrorMode env step st.i agent.1
      (expandVariables env step.promptTemplate st.currentInput st.vars) st.world).1 = .ok none

/-! ### What a turn adds -/

section Turns

variable {env} {runId : Nat} {workflow : Workflow} {initialInput : String} {st st' : ExecState W}

@[simp] theorem setVar_allOutputs (st : ExecState W) (step : WorkflowStep) (value : String) :
    (st.setVar step value).allOutputs = st.allOutputs := by
  unfold ExecState.setVar
  split <;> rfl

theorem sequentialTurn_outputs {step : WorkflowStep}
    (hturn : sequentialTurn env runId step st = .next st')
    (hskip : ∀ agent, env.resolve st.world step.agent = some agent →
      (executeStepWithErrorMode env step st.i agent.1
        (expandVariables env step.promptTemplate st.currentInput st.vars) st.world).1 ≠ .ok none) :
    ∃ output, st'.allOutputs = st.allOutputs ++ [output] := by
  unfold sequentialTurn at hturn
  cases hagent : env.resolve st.world step.agent with
  | none =>
      rw [hagent] at hturn
      cases hturn
  | some agent =>
      have hanswer := hskip agent hagent
      rw [hagent] at hturn
      dsimp only at hturn
      split at hturn
      · rename_i reply _
        cases hturn
        exact ⟨reply.output,
          by simp [ExecState.advance, ExecState.pushOutput, ExecState.pushResult]⟩
      · rename_i hnone
        exact absurd hnone hanswer
      · cases hturn

variable (env runId) in
/-- The iterations of a loop step leave the outputs alone. -/
theorem loopIterations_outputs (step : WorkflowStep) (agent : Nat × String) (until_ : String)
    (left iter : Nat) (st : ExecState W) :
    (loopIterations env runId step agent until_ left iter st).1.allOutputs = st.allOutputs := by
  induction left generalizing iter st with
  | zero => rfl
  | succ left ih =>
      simp only [loopIterations]
      split
      · split
        · rfl
        · rw [ih]
          rfl
      · rfl
      · rfl

theorem loopTurn_outputs {step : WorkflowStep} {maxIterations : Nat} {until_ : String}
    (hturn : loopTurn env runId step maxIterations until_ st = .next st') :
    ∃ output, st'.allOutputs = st.allOutputs ++ [output] := by
  unfold loopTurn at hturn
  split at hturn
  · cases hturn
  · rename_i agent _
    have hkeeps := loopIterations_outputs env runId step agent until_ maxIterations 0 st
    split at hturn
    · cases hturn
    · rename_i after heq
      rw [heq] at hkeeps
      cases hturn
      exact ⟨_, by simp only [ExecState.advance, setVar_allOutputs]; rw [← hkeeps]⟩

variable (env runId) in
/-- Taking up the results of a fan-out appends their texts. -/
theorem takeResults_outputs {durationMs : Nat} (branches : List Branch) {st st' : ExecState W}
    (h : takeResults env runId durationMs branches st = (st', .ok ())) :
    st'.allOutputs =
      st.allOutputs ++ branches.filterMap fun branch => replyText? branch.outcome := by
  induction branches generalizing st with
  | nil =>
      cases h
      simp
  | cons branch branches ih =>
      rw [takeResults] at h
      split at h
      · rename_i reply hreply
        rw [ih h, List.filterMap_cons_some (by rw [hreply]; rfl)]
        simp [ExecState.pushOutput, ExecState.pushResult]
      · cases h
      · cases h

theorem fanOutTurn_outputs (hturn : fanOutTurn env runId workflow.steps st = .next st') :
    st'.allOutputs = st.allOutputs ++ fanOutOutputs env workflow st := by
  unfold fanOutTurn at hturn
  dsimp only at hturn
  split at hturn
  · cases hturn
  · split at hturn
    · cases hturn
    · rename_i after htaken
      have hout := takeResults_outputs env runId _ htaken
      cases hturn
      exact hout

theorem collected_outputs {step : WorkflowStep} {value : String}
    (hturn : collected step value st = .next st') : st'.allOutputs = [value] := by
  cases hturn
  simp [ExecState.advance]

theorem aggregateTurn_outputs {step : WorkflowStep} {agg : Aggregator}
    (hturn : aggregateTurn env runId step agg st = .next st') :
    ∃ value, st'.allOutputs = [value] := by
  unfold aggregateTurn at hturn
  split at hturn
  · exact ⟨_, collected_outputs hturn⟩
  · exact ⟨_, collected_outputs hturn⟩
  · dsimp only at hturn
    split at hturn
    · cases hturn
    · split at hturn
      · split at hturn
        · exact ⟨_, collected_outputs hturn⟩
        · cases hturn
      · cases hturn
      · cases hturn

theorem collectTurn_outputs {step : WorkflowStep}
    (hturn : collectTurn env runId initialInput step st = .next st') :
    ∃ value, st'.allOutputs = [value] := by
  unfold collectTurn at hturn
  dsimp only at hturn
  split at hturn
  · exact aggregateTurn_outputs hturn
  · split at hturn
    · exact ⟨_, collected_outputs hturn⟩
    · cases hturn

/-- **What a turn adds**: a fan-out its outputs, any other step that runs one output of its own, and
a `Collect` step leaves its value alone. -/
theorem executeTurn_outputs (hturn : executeTurn env runId workflow initialInput st = .next st')
    (hskip : ¬ AtSkipped env workflow st) (outputs : List String) :
    (AtFanOut env workflow st ∧ ∃ added, st'.allOutputs = st.allOutputs ++ added ∧
      gatherTurn env workflow outputs st = outputs ++ added) ∨
    (¬ AtFanOut env workflow st ∧
      ((∃ output, st'.allOutputs = st.allOutputs ++ [output] ∧
        gatherTurn env workflow outputs st = outputs) ∨
      ∃ value, st'.allOutputs = [value] ∧ gatherTurn env workflow outputs st = [])) := by
  unfold executeTurn at hturn
  cases hstep : workflow.steps[st.i]? with
  | none =>
      rw [hstep] at hturn
      cases hturn
  | some step =>
      rw [hstep] at hturn
      dsimp only at hturn
      have hanswers : RunsAlone env step st →
          ∀ agent, env.resolve st.world step.agent = some agent →
          (executeStepWithErrorMode env step st.i agent.1
            (expandVariables env step.promptTemplate st.currentInput st.vars) st.world).1 ≠
              .ok none :=
        fun halone agent hagent hnone => hskip ⟨step, agent, hstep, halone, hagent, hnone⟩
      have hquiet : AtFanOut env workflow st ↔ step.mode = .fanOut ∨
          ∃ condition, step.mode = .conditional condition ∧
            contains (env.toLowercase st.currentInput) (env.toLowercase condition) = false := by
        simp [AtFanOut, hstep]
      rw [hquiet]
      cases hmode : step.mode with
      | sequential =>
          rw [hmode] at hturn
          obtain ⟨output, hout⟩ :=
            sequentialTurn_outputs hturn (hanswers (by simp [RunsAlone, hmode]))
          exact .inr ⟨by simp, .inl ⟨output, hout, by simp [gatherTurn, hstep, hmode]⟩⟩
      | adaptive _ _ _ _ =>
          rw [hmode] at hturn
          obtain ⟨output, hout⟩ :=
            sequentialTurn_outputs hturn (hanswers (by simp [RunsAlone, hmode]))
          exact .inr ⟨by simp, .inl ⟨output, hout, by simp [gatherTurn, hstep, hmode]⟩⟩
      | fanOut =>
          rw [hmode] at hturn
          exact .inl ⟨.inl rfl, _, fanOutTurn_outputs hturn, by simp [gatherTurn, hstep, hmode]⟩
      | collect =>
          rw [hmode] at hturn
          obtain ⟨value, hout⟩ := collectTurn_outputs hturn
          exact .inr ⟨by simp, .inr ⟨value, hout, by simp [gatherTurn, hstep, hmode]⟩⟩
      | conditional condition =>
          rw [hmode] at hturn
          dsimp only at hturn
          rw [conditionalTurn] at hturn
          split at hturn
          · rename_i hmet
            obtain ⟨output, hout⟩ :=
              sequentialTurn_outputs hturn (hanswers (by simp [RunsAlone, hmode, hmet]))
            exact .inr ⟨by simp [hmet], .inl ⟨output, hout, by simp [gatherTurn, hstep, hmode]⟩⟩
          · rename_i hmet
            cases hturn
            exact .inl ⟨.inr ⟨condition, rfl, by simpa using hmet⟩, [], by simp [ExecState.advance],
              by simp [gatherTurn, hstep, hmode]⟩
      | loop maxIterations until_ =>
          rw [hmode] at hturn
          obtain ⟨output, hout⟩ := loopTurn_outputs hturn
          exact .inr ⟨by simp, .inl ⟨output, hout, by simp [gatherTurn, hstep, hmode]⟩⟩

end Turns

/-! ### Runs -/

section Runs

variable {env} {runId : Nat} {workflow : Workflow} {initialInput : String} {start st : ExecState W}
  {visited : List (ExecState W)}

/-- Along a run the outputs are those of the fan-outs as long as only fan-outs have run, and more
than those from then on. -/
theorem outputs_of_visits (hstart : start.allOutputs = [])
    (hvisits : (executeLoop env runId workflow initialInput).Visits start visited st)
    (hskip : ∀ s ∈ visited, ¬ AtSkipped env workflow s) :
    ((∀ s ∈ visited, AtFanOut env workflow s) ∧
      st.allOutputs = fanOutsSince env workflow visited) ∨
    (¬ (∀ s ∈ visited, AtFanOut env workflow s) ∧
      (fanOutsSince env workflow visited).length < st.allOutputs.length) := by
  induction hvisits with
  | start => exact .inl ⟨by simp, hstart⟩
  | @turn visited s s' _ hbody ih =>
      obtain ⟨hbefore, hlast⟩ := List.forall_mem_append.mp hskip
      have hturn := executeTurn_outputs hbody (hlast s List.mem_cons_self)
        (fanOutsSince env workflow visited)
      have hsince : fanOutsSince env workflow (visited ++ [s]) =
          gatherTurn env workflow (fanOutsSince env workflow visited) s := by
        rw [fanOutsSince, List.foldl_append, List.foldl_cons, List.foldl_nil, fanOutsSince]
      have hall : (∀ t ∈ visited ++ [s], AtFanOut env workflow t) ↔
          (∀ t ∈ visited, AtFanOut env workflow t) ∧ AtFanOut env workflow s := by
        rw [List.forall_mem_append, List.forall_mem_singleton]
      rw [hsince, hall]
      rcases hturn with ⟨hquiet, added, hout, hgather⟩ | ⟨hloud, hturn⟩
      · rw [hout, hgather, and_iff_left hquiet]
        rcases ih hbefore with ⟨hquiets, heq⟩ | ⟨hloud, hlt⟩
        · exact .inl ⟨hquiets, by rw [heq]⟩
        · refine .inr ⟨hloud, ?_⟩
          rw [List.length_append, List.length_append]
          omega
      · refine .inr ⟨fun h => hloud h.2, ?_⟩
        rcases hturn with ⟨output, hout, hgather⟩ | ⟨value, hout, hgather⟩
        · rw [hout, hgather, List.length_append, List.length_singleton]
          rcases ih hbefore with ⟨-, heq⟩ | ⟨-, hlt⟩
          · rw [heq]
            exact Nat.lt_succ_self _
          · omega
        · rw [hout, hgather]
          exact Nat.zero_lt_one

/-- The state in which the loop of `execute_run` starts. -/
def startState (initialInput : String) (runs : Table WorkflowRun.id) (w : W) : ExecState W where
  i := 0
  currentInput := initialInput
  allOutputs := []
  vars := []
  runs := runs
  world := w

/-- For every workflow, environment and start, in a run in which no step is skipped: each `Collect`
step is handed exactly the outputs of the fan-outs since the `Collect` step before it when every
turn before it was a fan-out or a condition that was not met, and only then. -/
theorem collect_merges_fanOuts_iff (env : WorkflowEnv W) (runId : Nat) (workflow : Workflow)
    (initialInput : String) (runs : Table WorkflowRun.id) (w : W)
    (hskip : ∀ visited st, (executeLoop env runId workflow initialInput).Visits
      (startState initialInput runs w) visited st → ¬ AtSkipped env workflow st) :
    (∀ visited st, (executeLoop env runId workflow initialInput).Visits
        (startState initialInput runs w) visited st → AtCollect workflow st →
        st.allOutputs = fanOutsSince env workflow visited) ↔
      ∀ visited st, (executeLoop env runId workflow initialInput).Visits
        (startState initialInput runs w) visited st → AtCollect workflow st →
        ∀ s ∈ visited, AtFanOut env workflow s := by
  have hvisited : ∀ {visited st}, (executeLoop env runId workflow initialInput).Visits
      (startState initialInput runs w) visited st → ∀ s ∈ visited, ¬ AtSkipped env workflow s := by
    intro visited st hvisits
    induction hvisits with
    | start => simp
    | turn hbefore _ ih =>
        exact List.forall_mem_append.mpr ⟨ih, by simpa using hskip _ _ hbefore⟩
  refine forall_congr' fun visited => forall_congr' fun st => forall_congr' fun hvisits =>
    forall_congr' fun _ => ?_
  rcases outputs_of_visits rfl hvisits (hvisited hvisits) with ⟨hquiet, heq⟩ | ⟨hloud, hlt⟩
  · exact iff_of_true heq hquiet
  · refine iff_of_false (fun heq => ?_) hloud
    rw [heq] at hlt
    exact Nat.lt_irrefl _ hlt

end Runs

/-! ### Two workflows -/

/-- An agent that answers every prompt alike. -/
def sameAnswer : WorkflowEnv Unit where
  resolve _ _ := some (1, "writer")
  send _ _ _ _ _ := (.reply { output := "draft", inputTokens := 1, outputTokens := 1 }, ())
  elapsedMs _ _ := 0
  now _ := 0
  agentText id := toString id
  toLowercase := toAsciiLowercase
  jsonStrings outputs := "[" ++ join "," outputs ++ "]"
  mapOrder := id
  votesNeeded _ n := n
  debugText text := "\"" ++ text ++ "\""

/-- A step of a mode. -/
def stepOf (mode : StepMode) : WorkflowStep where
  name := "step"
  agent := .byName "writer"
  promptTemplate := "go"
  mode := mode

/-- A fan-out of two steps, merged. -/
def draftsWorkflow : Workflow where
  id := 1
  name := "drafts"
  steps := [stepOf .fanOut, stepOf .fanOut, stepOf .collect]

/-- The same with a plan before it. -/
def plannedWorkflow : Workflow where
  id := 2
  name := "planned drafts"
  steps := [stepOf .sequential, stepOf .fanOut, stepOf .collect]

theorem drafts_not_skipped (st : ExecState Unit) : ¬ AtSkipped sameAnswer draftsWorkflow st := by
  rintro ⟨step, agent, hstep, halone, -⟩
  have hmem : step ∈ draftsWorkflow.steps := List.mem_of_getElem? hstep
  rw [draftsWorkflow, List.mem_cons, List.mem_cons, List.mem_singleton] at hmem
  rcases hmem with rfl | rfl | rfl <;> exact halone

theorem collect_merges_fanOuts_iff_drafts :
    (∀ visited st, (executeLoop sameAnswer 7 draftsWorkflow "go").Visits
        (startState "go" ⟨[], List.nodup_nil⟩ ()) visited st → AtCollect draftsWorkflow st →
        st.allOutputs = fanOutsSince sameAnswer draftsWorkflow visited) ↔
      ∀ visited st, (executeLoop sameAnswer 7 draftsWorkflow "go").Visits
        (startState "go" ⟨[], List.nodup_nil⟩ ()) visited st → AtCollect draftsWorkflow st →
        ∀ s ∈ visited, AtFanOut sameAnswer draftsWorkflow s :=
  collect_merges_fanOuts_iff sameAnswer 7 draftsWorkflow "go" ⟨[], List.nodup_nil⟩ ()
    fun _ st _ => drafts_not_skipped st

theorem planned_not_skipped (st : ExecState Unit) : ¬ AtSkipped sameAnswer plannedWorkflow st := by
  rintro ⟨step, agent, hstep, -, -, hnone⟩
  have hmem : step ∈ plannedWorkflow.steps := List.mem_of_getElem? hstep
  rw [plannedWorkflow, List.mem_cons, List.mem_cons, List.mem_singleton] at hmem
  rcases hmem with rfl | rfl | rfl <;> cases hnone

/-- The plan is merged with the draft. -/
theorem collect_merges_plan :
    ¬ ∀ (env : WorkflowEnv Unit) (runId : Nat) (workflow : Workflow) (initialInput : String)
      (runs : Table WorkflowRun.id) (w : Unit),
      (∀ visited st, (executeLoop env runId workflow initialInput).Visits
        (startState initialInput runs w) visited st → ¬ AtSkipped env workflow st) →
      ∀ visited st, (executeLoop env runId workflow initialInput).Visits
        (startState initialInput runs w) visited st → AtCollect workflow st →
        st.allOutputs = fanOutsSince env workflow visited := by
  intro h
  have hvisits : (executeLoop sameAnswer 7 plannedWorkflow "go").Visits
      (startState "go" ⟨[], List.nodup_nil⟩ ()) _ _ := .turn (.turn .start rfl) rfl
  have heq := h sameAnswer 7 plannedWorkflow "go" ⟨[], List.nodup_nil⟩ ()
    (fun _ st _ => planned_not_skipped st) _ _ hvisits ⟨stepOf .collect, rfl, rfl⟩
  rcases outputs_of_visits rfl hvisits fun s _ => planned_not_skipped s with ⟨hquiet, -⟩ | ⟨-, hlt⟩
  · obtain ⟨step, hstep, hmode⟩ := hquiet _ List.mem_cons_self
    cases hstep
    simp [stepOf] at hmode
  · rw [heq] at hlt
    exact Nat.lt_irrefl _ hlt

end ArmaraOS.Kernel
