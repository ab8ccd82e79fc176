import Mathlib.Data.List.Basic
import ArmaraOS.Lib.Loop
import ArmaraOS.Lib.Text
import ArmaraOS.Types.Json

/-!
The executor of deterministic plans (`openfang-runtime/src/plan_executor.rs`): a queue of ready
steps with retries, local repair, optional steps and limits.

What the executor asks of its surroundings (the tools, the language model behind the reasoning
steps, the inference that repairs a step, the clock) answers out of all that has happened before.
The events it answers out of give a step by its place in the plan. Trace
events, metrics and the episode recorder decide nothing and are left out.
-/

namespace ArmaraOS.Runtime

open ArmaraOS.Lib ArmaraOS.Text

/-! ### Plans -/

/-- `OnErrorPolicy`. -/
inductive OnErrorPolicy where
  | retryOnce
  | localPatch
  | abort
deriving DecidableEq

/-- `PlanStep`, without `idempotency_key`, which the executor does not read. -/
structure PlanStep where
  id : String
  tool : String
  args : Json := .null
  dependsOn : List String := []
  onError : OnErrorPolicy := .abort
  optional : Bool := false
  expectedOutputSchema : Option Json := none

/-- `DeterministicPlan`, as far as the executor reads it. -/
structure DeterministicPlan where
  steps : List PlanStep
  reasoningRequiredAt : List String := []

/-- `PolicyCaps`, as far as the executor reads it. -/
structure PolicyCaps where
  maxSteps : Nat := 32
  maxWallMs : Nat
  maxReplanCalls : Nat

/-- `PlanStepError`. -/
inductive PlanStepError where
  | toolNotFound (tool : String)
  | policyBlocked (reason : String)
  | transient (message : String)
  | deterministic (message : String)
  | timeout

/-- `PlanStepError::to_message`. -/
def PlanStepError.toMessage : PlanStepError → String
  | .toolNotFound tool => s!"tool not found: {tool}"
  | .policyBlocked reason => s!"policy blocked: {reason}"
  | .transient message => s!"transient: {message}"
  | .deterministic message => s!"deterministic: {message}"
  | .timeout => "timeout"

/-- `PlanExecutionError`. -/
inductive PlanExecutionError where
  | wallClockExceeded
  | maxStepsExceeded
  | stepFailed (stepId : String) (error : PlanStepError)
  | repairInfer (message : String)
  | replanBudgetExceeded

/-- `PlanExecutionResult`. -/
structure PlanExecutionResult where
  completed : List String
  skipped : List String
  outputs : List (String × Json)
  fellBackToLegacy : Bool

/-! ### Templates -/

/-- `navigate_json_path`. -/
def navigateJsonPath : Json → List String → Option Json
  | cur, [] => some cur
  | cur, p :: path =>
      match cur.get p with
      | some next => navigateJsonPath next path
      | none => none

/-- `strip_template`: the inside of an outputs template. -/
def stripTemplate (s : String) : Option String :=
  let t := (trim s).toList
  if "$\x7boutputs.".toList.isPrefixOf t && t.getLast? == some '}' then
    some (String.ofList ((t.drop "$\x7boutputs.".length).dropLast))
  else none

/-- A string in the arguments of a step, with its template resolved. -/
def resolveString (outputs : List (String × Json)) (s : String) : Except String Json :=
  match stripTemplate s with
  | none => .ok (.str s)
  | some inner =>
      match (inner.toList.splitOn '.').map String.ofList with
      | [] | [_] => .error "invalid outputs template"
      | stepId :: path =>
          match outputs.lookup stepId with
          | none => .error s!"unknown step id in template: {stepId}"
          | some stepOut =>
              match navigateJsonPath stepOut path with
              | none => .error s!"path not found in step output: {inner}"
              | some v => .ok v

mutual

/-- `resolve_output_templates`. -/
def resolveOutputTemplates (outputs : List (String × Json)) : Json → Except String Json
  | .str s => resolveString outputs s
  | .arr items => (resolveItems outputs items).map .arr
  | .obj fields => (resolveFields outputs fields).map .obj
  | value => .ok value

def resolveItems (outputs : List (String × Json)) : List Json → Except String (List Json)
  | [] => .ok []
  | item :: items => do
      let item ← resolveOutputTemplates outputs item
      return item :: (← resolveItems outputs items)

def resolveFields (outputs : List (String × Json)) :
    List (String × Json) → Except String (List (String × Json))
  | [] => .ok []
  | (key, value) :: fields => do
      let value ← resolveOutputTemplates outputs value
      return (key, value) :: (← resolveFields outputs fields)

end

/-! ### Surroundings -/

/-- `RepairContext`. -/
structure RepairContext where
  failedStepId : String
  failedStepTool : String
  errorMsg : String
  priorOutputs : Json

/-- The output of an inference. -/
structure InferOutput where
  structured : Option Json
  text : String

/-- What a reasoning step asks of the language model. -/
structure ReasoningRequest where
  stepId : String
  args : Json
  priorOutputs : Json
  schema : Json

/-- `LlmError`, as far as a reasoning step tells its cases apart. -/
inductive ReasoningFailure where
  | passing (message : String)
  | lasting (message : String)

/-- What the executor has done. `called` is a call of the tool or of the model for a step, or for
its replacement. -/
inductive PlanEvent where
  | called (position : Nat) (tool : String) (args : Json) (result : Except PlanStepError Json)
  | inferred (context : RepairContext) (result : Except String InferOutput)
  | completed (position : Nat)

/-- The surroundings of an execution. `jsonFromStr` and `stepFromValue` are `serde_json`'s, and
`validate` is what `jsonschema` says to a value and a schema. -/
structure PlanEnv where
  elapsedMs : List PlanEvent → Nat
  dispatch : List PlanEvent → String → String → Json → Except PlanStepError Json
  reasoningDriver : Option (List PlanEvent → ReasoningRequest → Except ReasoningFailure String)
  nativeInfer : Option (List PlanEvent → RepairContext → Except String InferOutput)
  jsonFromStr : String → Except String Json
  stepFromValue : Json → Except String PlanStep
  validate : Json → Json → Except String Unit

/-! ### Execution -/

/-- The variables of `execute`. -/
structure PlanRun where
  completed : List String := []
  skipped : List String := []
  outputs : List (String × Json) := []
  replansUsed : Nat := 0
  events : List PlanEvent := []

/-- What an execution returns, and what it has done. -/
abbrev PlanOutcome := Except PlanExecutionError PlanExecutionResult × List PlanEvent

namespace PlanRun

/-- `serde_json::to_value` of the outputs. -/
def outputsValue (st : PlanRun) : Json := .obj (st.outputs.mergeSort fun a b => a.1 ≤ b.1)

/-- An event more. -/
def record (st : PlanRun) (event : PlanEvent) : PlanRun :=
  { st with events := st.events ++ [event] }

/-- A step completed with its output. -/
def complete (st : PlanRun) (position : Nat) (stepId : String) (v : Json) : PlanRun :=
  { st with
    completed := if stepId ∈ st.completed then st.completed else stepId :: st.completed
    outputs := (stepId, v) :: st.outputs.filter fun output => output.1 != stepId
    events := st.events ++ [.completed position] }

/-- A step skipped. -/
def skip (st : PlanRun) (stepId : String) : PlanRun :=
  { st with skipped := st.skipped ++ [stepId] }

/-- The result of an execution that ends here. -/
def result (st : PlanRun) (fellBackToLegacy : Bool) : PlanExecutionResult :=
  ⟨st.completed, st.skipped, st.outputs, fellBackToLegacy⟩

/-- The executor takes a step that is neither done nor skipped and has its dependencies. -/
def ready (st : PlanRun) (step : PlanStep) : Bool :=
  !st.completed.contains step.id && !st.skipped.contains step.id &&
    step.dependsOn.all fun d => st.completed.contains d

end PlanRun

/-- `validate_against_schema`. -/
def validateAgainstSchema (env : PlanEnv) (value schema : Json) : Except String Unit :=
  let missing : Option String :=
    match schema.get "required" with
    | some (.arr req) =>
        match value with
        | .obj _ =>
            ((req.filterMap Json.asStr).find? fun key => (value.get key).isNone).map fun key =>
              "missing required field " ++ String.ofList [Char.ofNat 0x60] ++ key ++
                String.ofList [Char.ofNat 0x60]
        | _ => some "expected JSON object"
    | _ => none
  match missing with
  | some e => .error e
  | none => env.validate value schema

/-- `run_reasoning_step`. -/
def runReasoningStep (env : PlanEnv) (st : PlanRun) (step : PlanStep) (args : Json) :
    Except PlanStepError Json :=
  match env.reasoningDriver with
  | none => .error (.deterministic "reasoning step but no LLM driver")
  | some complete =>
      let schema := step.expectedOutputSchema.getD
        (.obj [("properties", .obj [("output", .obj [])]), ("type", .str "object")])
      match complete st.events ⟨step.id, args, st.outputsValue, schema⟩ with
      | .error (.passing message) => .error (.transient message)
      | .error (.lasting message) => .error (.deterministic message)
      | .ok txt =>
          match env.jsonFromStr txt with
          | .error _ => .error (.deterministic s!"reasoning JSON parse failed: {txt}")
          | .ok parsed =>
              match step.expectedOutputSchema with
              | none => .ok parsed
              | some declared =>
                  match validateAgainstSchema env parsed declared with
                  | .ok () => .ok parsed
                  | .error e =>
                      .error (.deterministic
                        s!"reasoning output schema violation (step {step.id}): {e}")

/-- `parse_repair_step`. -/
def parseRepairStep (env : PlanEnv) (text : String) : Except String PlanStep := do
  let v ← env.jsonFromStr (trim text)
  if ((v.get "kind").bind Json.asStr) ≠ some "plan_step_repair" then
    .error "expected kind plan_step_repair"
  else
    match v.get "step" with
    | none => .error "missing step"
    | some step => env.stepFromValue step

section Execute

variable (env : PlanEnv) (plan : DeterministicPlan) (limits : PolicyCaps)

/-- One call for the step with an id, made as a step says: this one or its replacement. -/
def attempt (st : PlanRun) (position : Nat) (stepId : String) (step : PlanStep) (args : Json) :
    Except PlanStepError Json × PlanRun :=
  let out :=
    if plan.reasoningRequiredAt.contains stepId then runReasoningStep env st step args
    else env.dispatch st.events stepId step.tool args
  (out, st.record (.called position step.tool args out))

/-- The call for a step, and the second one after a failure under `retry_once`. -/
def attemptStep (st : PlanRun) (position : Nat) (step : PlanStep) (args : Json) :
    Except PlanStepError Json × PlanRun :=
  match attempt env plan st position step.id step args with
  | (.ok v, st') => (.ok v, st')
  | (.error e, st') =>
      if step.onError = .retryOnce then attempt env plan st' position step.id step args
      else (.error e, st')

/-- `STRUCTURED_KIND_PLANNER_INVALID_PLAN`. -/
def structuredKindPlannerInvalidPlan : String := "planner_invalid_plan"

/-- The branch of `execute` for a failed step under `local_patch`. -/
def localPatch (st : PlanRun) (position : Nat) (step : PlanStep) (e : PlanStepError) :
    Lib.Turn PlanRun PlanOutcome :=
  if limits.maxReplanCalls ≤ st.replansUsed then .exit (.error .replanBudgetExceeded, st.events)
  else
    match env.nativeInfer with
    | none => .exit (.error (.stepFailed step.id e), st.events)
    | some infer =>
        let context : RepairContext := ⟨step.id, step.tool, e.toMessage, st.outputsValue⟩
        let answer := infer st.events context
        let st := st.record (.inferred context answer)
        match answer with
        | .error err => .exit (.error (.repairInfer err), st.events)
        | .ok output =>
            let st := { st with replansUsed := st.replansUsed + 1 }
            if ((output.structured.bind (Json.get "kind")).bind Json.asStr) =
                some structuredKindPlannerInvalidPlan then
              .exit (.ok (st.result true), st.events)
            else
              match parseRepairStep env output.text with
              | .error err => .exit (.error (.repairInfer err), st.events)
              | .ok replacement =>
                  match resolveOutputTemplates st.outputs replacement.args with
                  | .error msg =>
                      .exit (.error (.stepFailed step.id (.deterministic msg)), st.events)
                  | .ok mergedArgs =>
                      match attempt env plan st position step.id replacement mergedArgs with
                      | (.ok v, st) => .next (st.complete position step.id v)
                      | (.error e2, st) => .exit (.error (.stepFailed step.id e2), st.events)

/-- What the loop does with the step it takes. -/
def runStep (st : PlanRun) (step : PlanStep) (position : Nat) : Lib.Turn PlanRun PlanOutcome :=
  match resolveOutputTemplates st.outputs step.args with
  | .error e => .exit (.error (.stepFailed step.id (.deterministic e)), st.events)
  | .ok args =>
      match attemptStep env plan st position step args with
      | (.ok v, st) => .next (st.complete position step.id v)
      | (.error e, st) =>
          if step.optional then .next (st.skip step.id)
          else if step.onError = .localPatch then localPatch env plan limits st position step e
          else .exit (.error (.stepFailed step.id e), st.events)

/-- One turn of the loop of `execute`. -/
def planTurn (st : PlanRun) : Lib.Turn PlanRun PlanOutcome :=
  if limits.maxWallMs < env.elapsedMs st.events then .exit (.error .wallClockExceeded, st.events)
  else if max limits.maxSteps 1 ≤ st.completed.length then
    .exit (.error .maxStepsExceeded, st.events)
  else
    match plan.steps.zipIdx.find? fun step => st.ready step.1 with
    | none => .exit (.ok (st.result false), st.events)
    | some (step, position) => runStep env plan limits st step position

/-- The steps that are neither completed nor skipped. -/
def openSteps (plan : DeterministicPlan) (st : PlanRun) : Nat :=
  plan.steps.countP fun step => !st.completed.contains step.id && !st.skipped.contains step.id

end Execute

end ArmaraOS.Runtime
