import ArmaraOS.Lib.Loop
import ArmaraOS.Lib.Table
import ArmaraOS.Lib.Text

/-!
The workflow engine (`openfang-kernel/src/workflow.rs`).

`execute_run` is a loop over the steps of a workflow. Each turn reads the agents through the
resolver and sends messages; a call of `send_message` moves the world and answers, fails or
takes longer than the step allows. Lower case, JSON, the order of a `HashMap`, `{:?}`, the
vote count in `f32` and the clock are the parameters `WorkflowEnv`.
-/

namespace ArmaraOS.Kernel

open ArmaraOS.Lib ArmaraOS.Text

/-! ### Definitions and runs -/

/-- `StepAgent`. -/
inductive StepAgent where
  | byId (id : String)
  | byName (name : String)
deriving DecidableEq

/-- `AggregationStrategy`; a threshold is the bits of an `f32`. -/
inductive AggregationStrategy where
  | concatenate (separator : String)
  | jsonArray
  | consensus (threshold : UInt32)
  | bestOf (evaluatorAgent criteria : String)
  | summarize (summarizerAgent : String) (maxLength : Option Nat)
  | custom (aggregatorAgent aggregationPrompt : String)

/-- `AggregationStrategy::default`. -/
def AggregationStrategy.default : AggregationStrategy := .concatenate "\n\n---\n\n"

/-- `StepMode`. -/
inductive StepMode where
  | sequential
  | fanOut
  | collect
  | conditional (condition : String)
  | loop (maxIterations : Nat) (until_ : String)
  | adaptive (maxIterations : Nat) (toolAllowlist : Option (List String)) (allowSubagents : Bool)
      (maxTokens : Option Nat)
deriving DecidableEq

/-- `ErrorMode`. -/
inductive ErrorMode where
  | fail
  | skip
  | retry (maxRetries : Nat)

/-- `WorkflowStep`. -/
structure WorkflowStep where
  name : String
  agent : StepAgent
  promptTemplate : String
  mode : StepMode
  timeoutSecs : Nat := 120
  errorMode : ErrorMode := .fail
  outputVar : Option String := none
  collectAggregation : Option AggregationStrategy := none

/-- `Workflow`, with the fields that a run reads. -/
structure Workflow where
  id : Nat
  name : String
  steps : List WorkflowStep

/-- `WorkflowRunState`. -/
inductive WorkflowRunState where
  | pending
  | running
  | completed
  | failed
deriving DecidableEq

/-- `StepResult`. -/
structure StepResult where
  stepName : String
  agentId : String
  agentName : String
  output : String
  inputTokens : Nat
  outputTokens : Nat
  durationMs : Nat

/-- `WorkflowRun`. -/
structure WorkflowRun where
  id : Nat
  workflowId : Nat
  workflowName : String
  input : String
  state : WorkflowRunState
  stepResults : List StepResult
  output : Option String
  error : Option String
  startedAt : Int
  completedAt : Option Int

/-- `WorkflowEngine`. -/
structure WorkflowEngine where
  workflows : Table Workflow.id
  runs : Table WorkflowRun.id

/-- What a call of `send_message` answers: the output with its input and output tokens. -/
structure Reply where
  output : String
  inputTokens : Nat
  outputTokens : Nat

/-- How a call of `send_message` under its timeout ends. -/
inductive Outcome where
  | reply (reply : Reply)
  | error (message : String)
  | timedOut

/-- What a run reads of its surroundings, in a world `W`. -/
structure WorkflowEnv (W : Type) where
  /-- `agent_resolver`. -/
  resolve : W → StepAgent → Option (Nat × String)
  /-- `send_message`, for an agent, a prompt, a step and its index. -/
  send : W → Nat → String → WorkflowStep → Nat → Outcome × W
  /-- The milliseconds between two worlds. -/
  elapsedMs : W → W → Nat
  /-- `Utc::now`. -/
  now : W → Int
  /-- `AgentId::to_string`. -/
  agentText : Nat → String
  /-- `str::to_lowercase`. -/
  toLowercase : String → String
  /-- `serde_json::to_string` of a list of strings. -/
  jsonStrings : List String → String
  /-- The order in which a `HashMap` is read. -/
  mapOrder : {V : Type} → List (String × V) → List (String × V)
  /-- `((n as f32) * threshold.clamp(0.0, 1.0)).ceil().max(1.0) as usize`. -/
  votesNeeded : UInt32 → Nat → Nat
  /-- `{:?}` of a string. -/
  debugText : String → String

/-! ### Prompts and aggregation -/

section Env

variable {W : Type} (env : WorkflowEnv W)

/-- A placeholder. -/
def placeholder (name : String) : String := "\x7b\x7b" ++ name ++ "\x7d\x7d"

/-- The placeholders of the variables replaced. -/
def replaceVariables (text : String) (vars : List (String × String)) : String :=
  (env.mapOrder vars).foldl (fun text (key, value) => replace text (placeholder key) value) text

/-- `expand_variables`. -/
def expandVariables (template input : String) (vars : List (String × String)) : String :=
  replaceVariables env (replace template (placeholder "input") input) vars

/-- `format_numbered_candidates`. -/
def formatNumberedCandidates (outputs : List String) : String :=
  join "\n\n" (outputs.zipIdx.map fun (s, i) => s!"{i + 1}. {s}")

/-- `best_of_prompt`. -/
def bestOfPrompt (criteria : String) (outputs : List String) : String :=
  let body := formatNumberedCandidates outputs
  "You are evaluating multiple candidate responses.\n\n" ++ s!"Criteria:\n{criteria}\n\n" ++
    s!"Candidates:\n\n{body}\n\n" ++
    s!"Reply with ONLY the number (1 to {outputs.length}) of the single best candidate. " ++
    "No other text."

/-- `summarize_prompt`. -/
def summarizePrompt (maxLength : Option Nat) (outputs : List String) : String :=
  let numbered := formatNumberedCandidates outputs
  let limit := match maxLength with
    | some n => s!"Keep the summary under approximately {n} characters."
    | none => ""
  s!"Summarize the following texts into one coherent response. {limit}\n\n{numbered}"

/-- `expand_custom_aggregation_prompt`. -/
def expandCustomAggregationPrompt (template : String) (outputs : List String)
    (workflowInitial : String) (vars : List (String × String)) : String :=
  let result := replace template (placeholder "outputs_json") (env.jsonStrings outputs)
  let result := replace result (placeholder "outputs") (formatNumberedCandidates outputs)
  let result := replace result (placeholder "input") workflowInitial
  replaceVariables env result vars

/-- The first of some words that is a number from 1 to `n`, counted from 0. -/
def firstChoice (n : Nat) (words : List (List Char)) : Option Nat :=
  words.findSome? fun word =>
    match parseUsize word with
    | some v => if 1 ≤ v && v ≤ n then some (v - 1) else none
    | none => none

/-- `parse_best_of_choice`. -/
def parseBestOfChoice (reply : String) (n : Nat) : Except String Nat :=
  if n = 0 then .error "no candidates for BestOf"
  else
    let trimmed := trim reply
    let tokens := (splitWhitespace trimmed).map fun token =>
      trimChars (fun c => ".,;:!?()[]\x7b\x7d\"'".toList.contains c) token.toList
    let numbers := fieldsFrom (fun c => !c.isDigit) [] trimmed.toList
    match firstChoice n tokens <|> firstChoice n numbers with
    | some choice => .ok choice
    | none =>
        .error ("could not parse candidate index " ++
          s!"1..{n} from evaluator reply: {env.debugText reply}")

/-- `synth_aggregate_step`. -/
def synthAggregateStep (collectStep : WorkflowStep) (agent : StepAgent) (prompt : String) :
    WorkflowStep where
  name := s!"{collectStep.name}→aggregate"
  agent := agent
  promptTemplate := prompt
  mode := .sequential
  timeoutSecs := collectStep.timeoutSecs
  errorMode := collectStep.errorMode
  outputVar := none
  collectAggregation := none

/-- A value added to the number at its key. -/
def countVote (counts : List (String × Nat)) (key : String) : List (String × Nat) :=
  if counts.any (·.1 == key) then
    counts.map fun (k, c) => if k == key then (k, c + 1) else (k, c)
  else counts ++ [(key, 1)]

/-- The answer with the most votes, the first of several. -/
def bestVote (counts : List (String × Nat)) : Option (String × Nat) :=
  counts.foldl
    (fun best (s, c) =>
      match best with
      | some (_, bc) => if bc < c then some (s, c) else best
      | none => some (s, c))
    none

/-- `apply_aggregation`. -/
def applyAggregation (strategy : AggregationStrategy) (outputs : List String) :
    Except String String :=
  if outputs.isEmpty then .ok ""
  else
    match strategy with
    | .concatenate separator => .ok (join separator outputs)
    | .jsonArray => .ok (env.jsonStrings outputs)
    | .consensus threshold =>
        let counts := (outputs.map trim).foldl countVote []
        let need := env.votesNeeded threshold outputs.length
        match bestVote (env.mapOrder counts) with
        | some (s, c) => if need ≤ c then .ok s else .ok (join "\n" outputs)
        | none => .ok (join "\n" outputs)
    | .bestOf _ _ | .summarize _ _ | .custom _ _ =>
        .error ("apply_aggregation() supports only concatenate/json_array/consensus; " ++
          "use agent collect path")

/-! ### One step -/

/-- The attempts of `ErrorMode::Retry` that are left, after one that failed with `lastErr`. -/
def retryStep (step : WorkflowStep) (stepIndex agentId : Nat) (prompt : String)
    (maxRetries : Nat) : Nat → String → W → Except String (Option Reply) × W
  | 0, lastErr, w =>
      (.error s!"Step '{step.name}' failed after {maxRetries} retries: {lastErr}", w)
  | left + 1, _, w =>
      match env.send w agentId prompt step stepIndex with
      | (.reply reply, w') => (.ok (some reply), w')
      | (.error e, w') => retryStep step stepIndex agentId prompt maxRetries left e w'
      | (.timedOut, w') =>
          retryStep step stepIndex agentId prompt maxRetries left
            s!"timed out after {step.timeoutSecs}s" w'

/-- `execute_step_with_error_mode`. -/
def executeStepWithErrorMode (step : WorkflowStep) (stepIndex agentId : Nat) (prompt : String)
    (w : W) : Except String (Option Reply) × W :=
  match step.errorMode with
  | .fail =>
      match env.send w agentId prompt step stepIndex with
      | (.reply reply, w') => (.ok (some reply), w')
      | (.error e, w') => (.error s!"Step '{step.name}' failed: {e}", w')
      | (.timedOut, w') =>
          (.error s!"Step '{step.name}' timed out after {step.timeoutSecs}s", w')
  | .skip =>
      match env.send w agentId prompt step stepIndex with
      | (.reply reply, w') => (.ok (some reply), w')
      | (.error _, w') => (.ok none, w')
      | (.timedOut, w') => (.ok none, w')
  | .retry maxRetries =>
      retryStep env step stepIndex agentId prompt maxRetries (maxRetries + 1) "" w

/-! ### The state of a run -/

/-- The variables of `execute_run`, with the stored runs and the world. -/
structure ExecState (W : Type) where
  i : Nat
  currentInput : String
  allOutputs : List String
  vars : List (String × String)
  runs : Table WorkflowRun.id
  world : W

/-- What `execute_run` leaves: the stored runs, the world and the result. -/
structure ExecResult (W : Type) where
  runs : Table WorkflowRun.id
  world : W
  result : Except String String

namespace ExecState

/-- `return Err(e)`. -/
def leave (st : ExecState W) (e : String) : Turn (ExecState W) (ExecResult W) :=
  .exit ⟨st.runs, st.world, .error e⟩

/-- The stored run marked as failed, and `return Err(e)`. -/
def fail (runId : Nat) (st : ExecState W) (e : String) : Turn (ExecState W) (ExecResult W) :=
  .exit ⟨st.runs.modify runId
    (fun r =>
      { r with state := .failed, error := some e, completedAt := some (env.now st.world) })
    fun _ h => h, st.world, .error e⟩

/-- The stored run marked as completed, and `Ok`. -/
def complete (runId : Nat) (st : ExecState W) : Turn (ExecState W) (ExecResult W) :=
  .exit ⟨st.runs.modify runId
    (fun r =>
      { r with
        state := .completed
        output := some st.currentInput
        completedAt := some (env.now st.world) })
    fun _ h => h, st.world, .ok st.currentInput⟩

/-- `r.step_results.push(..)` for the reply of an agent. -/
def pushResult (runId : Nat) (st : ExecState W) (stepName : String) (agent : Nat × String)
    (reply : Reply) (durationMs : Nat) : ExecState W :=
  let result : StepResult :=
    { stepName := stepName, agentId := env.agentText agent.1, agentName := agent.2,
      output := reply.output, inputTokens := reply.inputTokens,
      outputTokens := reply.outputTokens, durationMs := durationMs }
  { st with
    runs := st.runs.modify runId (fun r => { r with stepResults := r.stepResults ++ [result] })
      fun _ h => h }

/-- `variables.insert(var, value)`, when the step names a variable. -/
def setVar (st : ExecState W) (step : WorkflowStep) (value : String) : ExecState W :=
  match step.outputVar with
  | some var =>
      { st with vars := st.vars.filter (fun entry => entry.1 != var) ++ [(var, value)] }
  | none => st

/-- The output appended to the outputs and taken as the next input. -/
def pushOutput (st : ExecState W) (output : String) : ExecState W :=
  { st with allOutputs := st.allOutputs ++ [output], currentInput := output }

/-- The next step. -/
def advance (st : ExecState W) : ExecState W := { st with i := st.i + 1 }

end ExecState

/-! ### The modes -/

/-- The error of a step whose agent is not found. -/
def agentNotFound (step : WorkflowStep) : String := s!"Agent not found for step '{step.name}'"

/-- A step of mode `Sequential` or `Adaptive`, and of mode `Conditional` once its condition is
met. -/
def sequentialTurn (runId : Nat) (step : WorkflowStep) (st : ExecState W) :
    Turn (ExecState W) (ExecResult W) :=
  match env.resolve st.world step.agent with
  | none => st.leave (agentNotFound step)
  | some agent =>
      let prompt := expandVariables env step.promptTemplate st.currentInput st.vars
      let (result, w) := executeStepWithErrorMode env step st.i agent.1 prompt st.world
      let durationMs := env.elapsedMs st.world w
      let st := { st with world := w }
      match result with
      | .ok (some reply) =>
          let st := st.pushResult env runId step.name agent reply durationMs
          .next ((st.setVar step reply.output).pushOutput reply.output).advance
      | .ok none => .next st.advance
      | .error e => st.fail env runId e

/-- A step of mode `Conditional`. -/
def conditionalTurn (runId : Nat) (step : WorkflowStep) (condition : String) (st : ExecState W) :
    Turn (ExecState W) (ExecResult W) :=
  if contains (env.toLowercase st.currentInput) (env.toLowercase condition) then
    sequentialTurn env runId step st
  else .next st.advance

/-- The iterations of a step of mode `Loop` that are left: the state after them, or the error
of one that failed. -/
def loopIterations (runId : Nat) (step : WorkflowStep) (agent : Nat × String) (until_ : String) :
    (left iter : Nat) → ExecState W → ExecState W × Except String Unit
  | 0, _, st => (st, .ok ())
  | left + 1, iter, st =>
      let prompt := expandVariables env step.promptTemplate st.currentInput st.vars
      let (result, w) := executeStepWithErrorMode env step st.i agent.1 prompt st.world
      let durationMs := env.elapsedMs st.world w
      let st := { st with world := w }
      match result with
      | .ok (some reply) =>
          let st := st.pushResult env runId s!"{step.name} (iter {iter + 1})" agent reply durationMs
          let st := { st with currentInput := reply.output }
          if contains (env.toLowercase reply.output) (env.toLowercase until_) then (st, .ok ())
          else loopIterations runId step agent until_ left (iter + 1) st
      | .ok none => (st, .ok ())
      | .error e => (st, .error e)

/-- A step of mode `Loop`. -/
def loopTurn (runId : Nat) (step : WorkflowStep) (maxIterations : Nat) (until_ : String)
    (st : ExecState W) : Turn (ExecState W) (ExecResult W) :=
  match env.resolve st.world step.agent with
  | none => st.leave (agentNotFound step)
  | some agent =>
      match loopIterations env runId step agent until_ maxIterations 0 st with
      | (st, .error e) => st.fail env runId e
      | (st, .ok ()) =>
          let st := st.setVar step st.currentInput
          .next { st with allOutputs := st.allOutputs ++ [st.currentInput] }.advance

/-- The steps of mode `FanOut` at the head of a list. -/
def fanOutSteps (steps : List WorkflowStep) : List WorkflowStep :=
  steps.takeWhile fun step => decide (step.mode = .fanOut)

/-- The first step of a fan-out whose agent is not found. -/
def unresolved (w : W) (steps : List WorkflowStep) : Option WorkflowStep :=
  steps.find? fun step => (env.resolve w step.agent).isNone

/-- A future of a fan-out that has been joined. -/
structure Branch where
  step : WorkflowStep
  agent : Nat × String
  outcome : Outcome

/-- The futures of a fan-out, joined: each step with its agent and the end of its call. The
prompts are those of the input and the variables before the fan-out. -/
def joinAll (st : ExecState W) : List WorkflowStep → Nat → W → List Branch × W
  | [], _, w => ([], w)
  | step :: steps, idx, w =>
      match env.resolve st.world step.agent with
      | none => joinAll st steps (idx + 1) w
      | some agent =>
          let prompt := expandVariables env step.promptTemplate st.currentInput st.vars
          let (outcome, w) := env.send w agent.1 prompt step idx
          let (branches, w) := joinAll st steps (idx + 1) w
          (⟨step, agent, outcome⟩ :: branches, w)

/-- The results of a fan-out taken up in order: the state after them, or the error of the first
that failed. -/
def takeResults (runId durationMs : Nat) :
    List Branch → ExecState W → ExecState W × Except String Unit
  | [], st => (st, .ok ())
  | branch :: branches, st =>
      match branch.outcome with
      | .reply reply =>
          let st := st.pushResult env runId branch.step.name branch.agent reply durationMs
          takeResults runId durationMs branches
            ((st.setVar branch.step reply.output).pushOutput reply.output)
      | .error e => (st, .error s!"FanOut step '{branch.step.name}' failed: {e}")
      | .timedOut =>
          (st, .error (s!"FanOut step '{branch.step.name}' timed out " ++
            s!"after {branch.step.timeoutSecs}s"))

/-- A step of mode `FanOut`, with those that follow it. -/
def fanOutTurn (runId : Nat) (steps : List WorkflowStep) (st : ExecState W) :
    Turn (ExecState W) (ExecResult W) :=
  let fanOut := fanOutSteps (steps.drop st.i)
  match unresolved env st.world fanOut with
  | some step => st.leave (agentNotFound step)
  | none =>
      let (branches, w) := joinAll env st fanOut st.i st.world
      let durationMs := env.elapsedMs st.world w
      match takeResults env runId durationMs branches { st with world := w } with
      | (st, .error e) => st.fail env runId e
      | (st', .ok ()) => .next { st' with i := st.i + fanOut.length }

/-- What the three aggregations by an agent differ in. -/
structure Aggregator where
  agentName : String
  prompt : String
  notFound : String
  skipped : String
  resultName : String
  pick : String → Except String String

/-- The end of a `Collect` step. -/
def collected (step : WorkflowStep) (value : String) (st : ExecState W) :
    Turn (ExecState W) (ExecResult W) :=
  let st := { st with currentInput := value, allOutputs := [value] }
  .next (st.setVar step value).advance

/-- A `Collect` step whose outputs an agent merges. -/
def aggregateTurn (runId : Nat) (step : WorkflowStep) (agg : Aggregator) (st : ExecState W) :
    Turn (ExecState W) (ExecResult W) :=
  match st.allOutputs with
  | [] => collected step "" st
  | [output] => collected step output st
  | _ =>
      let agent := StepAgent.byName agg.agentName
      match env.resolve st.world agent with
      | none => st.leave agg.notFound
      | some resolved =>
          let synth := synthAggregateStep step agent agg.prompt
          let (result, w) :=
            executeStepWithErrorMode env synth st.i resolved.1 agg.prompt st.world
          let durationMs := env.elapsedMs st.world w
          let st := { st with world := w }
          match result with
          | .ok (some reply) =>
              match agg.pick reply.output with
              | .ok value =>
                  collected step value
                    (st.pushResult env runId agg.resultName resolved reply durationMs)
              | .error e => st.leave e
          | .ok none => st.leave agg.skipped
          | .error e => st.fail env runId e

/-- The aggregator of `BestOf`. -/
def bestOfAggregator (step : WorkflowStep) (evaluatorAgent criteria : String)
    (outputs : List String) : Aggregator where
  agentName := evaluatorAgent
  prompt := bestOfPrompt criteria outputs
  notFound := s!"Evaluator agent '{evaluatorAgent}' not found for collect BestOf"
  skipped := s!"Collect BestOf step '{step.name}' was skipped"
  resultName := s!"{step.name}:best_of"
  pick reply := do
    let idx ← parseBestOfChoice env reply outputs.length
    return outputs.getD idx ""

/-- The aggregator of `Summarize`. -/
def summarizeAggregator (step : WorkflowStep) (summarizerAgent : String) (maxLength : Option Nat)
    (outputs : List String) : Aggregator where
  agentName := summarizerAgent
  prompt := summarizePrompt maxLength outputs
  notFound := s!"Summarizer agent '{summarizerAgent}' not found for collect"
  skipped := s!"Collect Summarize step '{step.name}' was skipped"
  resultName := s!"{step.name}:summarize"
  pick := .ok

/-- The aggregator of `Custom`. -/
def customAggregator (step : WorkflowStep) (aggregatorAgent aggregationPrompt : String)
    (initialInput : String) (outputs : List String) (vars : List (String × String)) :
    Aggregator where
  agentName := aggregatorAgent
  prompt := expandCustomAggregationPrompt env aggregationPrompt outputs initialInput vars
  notFound := s!"Aggregator agent '{aggregatorAgent}' not found for collect"
  skipped := s!"Collect Custom step '{step.name}' was skipped"
  resultName := s!"{step.name}:custom"
  pick := .ok

/-- The aggregator of a strategy, if an agent does it. -/
def aggregator? (step : WorkflowStep) (strategy : AggregationStrategy) (initialInput : String)
    (st : ExecState W) : Option Aggregator :=
  match strategy with
  | .bestOf evaluatorAgent criteria =>
      some (bestOfAggregator env step evaluatorAgent criteria st.allOutputs)
  | .summarize summarizerAgent maxLength =>
      some (summarizeAggregator step summarizerAgent maxLength st.allOutputs)
  | .custom aggregatorAgent aggregationPrompt =>
      some (customAggregator env step aggregatorAgent aggregationPrompt initialInput st.allOutputs
        st.vars)
  | _ => none

/-- A step of mode `Collect`. -/
def collectTurn (runId : Nat) (initialInput : String) (step : WorkflowStep) (st : ExecState W) :
    Turn (ExecState W) (ExecResult W) :=
  let strategy := step.collectAggregation.getD .default
  match aggregator? env step strategy initialInput st with
  | some agg => aggregateTurn env runId step agg st
  | none =>
      match applyAggregation env strategy st.allOutputs with
      | .ok value => collected step value st
      | .error e => st.leave e

/-- One turn of the loop of `execute_run`. -/
def executeTurn (runId : Nat) (workflow : Workflow) (initialInput : String) (st : ExecState W) :
    Turn (ExecState W) (ExecResult W) :=
  match workflow.steps[st.i]? with
  | none => st.complete env runId
  | some step =>
      match step.mode with
      | .sequential | .adaptive _ _ _ _ => sequentialTurn env runId step st
      | .fanOut => fanOutTurn env runId workflow.steps st
      | .collect => collectTurn env runId initialInput step st
      | .conditional condition => conditionalTurn env runId step condition st
      | .loop maxIterations until_ => loopTurn env runId step maxIterations until_ st

end Env

end ArmaraOS.Kernel
