import Mathlib.Data.List.Nodup
import Mathlib.Tactic.NormNum
import ArmaraOS.Learning.TurnTrajectory
import ArmaraOS.Lib.Fields
import ArmaraOS.Lib.Lines

/-!
Procedures that are learned from experience, patched and run (`ainl-procedure-learning/src/lib.rs`,
with the types of `ainl-contracts/src/procedure.rs`).

The steps of a distilled procedure are numbered. Every patch that is made from a failure appends the
same step under the same id, so the ids of a plan are distinct as long as at most one patch was
applied.
-/

namespace ArmaraOS.Learning

open ArmaraOS.Lib ArmaraOS.Text
open ArmaraOS.Memory (ProcedureArtifact ProcedureStep ProcedureStepKind ProcedureVerification
  TrajectoryOutcome)

/-! ### Experience -/

/-- `ExperienceEvent`. -/
structure ExperienceEvent where
  eventId : String
  timestampMs : Int
  toolOrAdapter : String
  operation : String
  success : Bool
  inputPreview : Option String := none
  outputPreview : Option String := none
  error : Option String := none
  durationMs : Nat := 0
  vitals : Option CognitiveVitals := none
  freshnessAtStep : Option ContextFreshness := none

/-- `ExperienceBundle`, as far as it is read. -/
structure ExperienceBundle where
  intent : String
  outcome : TrajectoryOutcome
  observationCount : Nat
  fitness : ℚ
  events : List ExperienceEvent
  sourceTrajectoryIds : List String := []
  sourceFailureIds : List String := []

/-- `DistillPolicy`. -/
structure DistillPolicy where
  minObservations : Nat
  minFitness : ℚ
  requireSuccess : Bool

/-- `DistillPolicy::default`. -/
def DistillPolicy.default : DistillPolicy where
  minObservations := 3
  minFitness := 7 / 10
  requireSuccess := true

/-- `ProcedureLearningError`. -/
inductive ProcedureLearningError where
  | insufficientObservations (observed required : Nat)
  | fitnessBelowThreshold (fitness required : ℚ)
  | nonSuccessfulOutcome
  | emptyExperience

/-- What is called from other packages: the SHA-256 of a text in hexadecimal digits, and a number
with so many decimals. -/
structure ProcedurePackages where
  sha256HexLower : String → String
  fixed : Nat → ℚ → String

/-- `LEARNER_SCHEMA_VERSION`. -/
def learnerSchemaVersion : Nat := 1

/-! ### Distilling -/

/-- The text whose hash is the fingerprint. -/
def canonicalExperience (bundle : ExperienceBundle) : String :=
  trim bundle.intent ++ "\n" ++ String.join (bundle.events.map fun event =>
    event.toolOrAdapter ++ ":" ++ event.operation ++ ":" ++
      (if event.success then "ok" else "err") ++ "\n")

/-- `procedure_fingerprint`. -/
def procedureFingerprint (pkgs : ProcedurePackages) (bundle : ExperienceBundle) : String :=
  pkgs.sha256HexLower (canonicalExperience bundle)

/-- `title_from_intent`. -/
def titleFromIntent (intent : String) : String :=
  let t := trim intent
  if t.isEmpty then "Learned Procedure"
  else
    let first := (lines t.toList).headD t.toList
    let s := first.take 80
    if byteLength s < byteLength first then String.ofList s ++ "..." else String.ofList s

/-- A `BTreeSet` of strings, in its order. -/
def sortedSet (xs : List String) : List String := xs.dedup.mergeSort fun a b => decide (a ≤ b)

/-- `format!("step-{:02}", n)`. -/
def numberedId (n : Nat) : String :=
  "step-" ++ if n < 10 then "0" ++ toString n else toString n

/-- The step of an event. -/
def stepOfEvent (event : ExperienceEvent) (idx : Nat) : ProcedureStep where
  stepId := numberedId (idx + 1)
  title := event.operation
  kind := .toolCall event.operation (.obj [("type", .str "object")])
  rationale := event.outputPreview

/-- What is distilled from a bundle that the policy admits. -/
def distilledArtifact (pkgs : ProcedurePackages) (bundle : ExperienceBundle) :
    ProcedureArtifact where
  schemaVersion := learnerSchemaVersion
  id := "proc:" ++ procedureFingerprint pkgs bundle
  title := titleFromIntent bundle.intent
  intent := bundle.intent
  summary := "Learned from " ++ toString bundle.observationCount ++
    " observations with fitness " ++ pkgs.fixed 2 bundle.fitness ++ "."
  requiredTools := sortedSet <|
    (bundle.events.filter fun event => event.success).map (·.operation)
  requiredAdapters := sortedSet <|
    (bundle.events.map (·.toolOrAdapter)).filter fun adapter => adapter ≠ "tool"
  preconditions := ["Use this procedure only when the user task matches the intent."]
  steps := bundle.events.zipIdx.map fun p => stepOfEvent p.1 p.2
  verification :=
    { checks := ["Confirm all required tool calls completed successfully.",
        "Summarize any errors instead of claiming success."]
      successCriteria :=
        ["The requested workflow is completed or a safe failure is reported."] }
  knownFailures := bundle.events.filterMap fun event =>
    if event.success then none else event.error.map fun err => event.operation ++ ": " ++ err
  recovery := ["If any step fails, stop and inspect the failure before retrying."]
  sourceTrajectoryIds := bundle.sourceTrajectoryIds
  sourceFailureIds := bundle.sourceFailureIds
  fitness := bundle.fitness
  observationCount := bundle.observationCount
  lifecycle := .candidate
  renderTargets := [.markdownSkill, .ainlGraph, .promptOnly]

/-- `distill_procedure`. -/
def distillProcedure (pkgs : ProcedurePackages) (bundle : ExperienceBundle)
    (policy : DistillPolicy) : Except ProcedureLearningError ProcedureArtifact :=
  if bundle.events.isEmpty then .error .emptyExperience
  else if bundle.observationCount < policy.minObservations then
    .error (.insufficientObservations bundle.observationCount policy.minObservations)
  else if bundle.fitness < policy.minFitness then
    .error (.fitnessBelowThreshold bundle.fitness policy.minFitness)
  else if policy.requireSuccess ∧ bundle.outcome ≠ .success then .error .nonSuccessfulOutcome
  else .ok (distilledArtifact pkgs bundle)

/-! ### Patching -/

/-- `ProcedurePatch`. -/
structure ProcedurePatch where
  schemaVersion : Nat
  patchId : String
  procedureId : String
  rationale : String
  addSteps : List ProcedureStep := []
  addKnownFailures : List String := []
  addRecovery : List String := []
  sourceFailureIds : List String := []

/-- The step that is added after a failure. -/
def recoveryStep (failureMessage : String) : ProcedureStep where
  stepId := "recovery-check"
  title := "Check prior failure before retry"
  kind := .validate "previous failure is addressed"
  rationale := some failureMessage

/-- `patch_from_failure`. -/
def patchFromFailure (pkgs : ProcedurePackages) (artifact : ProcedureArtifact)
    (failureId failureMessage : String) : ProcedurePatch where
  schemaVersion := learnerSchemaVersion
  patchId := "patch:" ++
    pkgs.sha256HexLower (artifact.id ++ ":" ++ failureId ++ ":" ++ failureMessage)
  procedureId := artifact.id
  rationale := "Patch learned from failed reuse: " ++ failureMessage
  addSteps := [recoveryStep failureMessage]
  addKnownFailures := [failureMessage]
  addRecovery := ["Do not retry unchanged inputs after this failure."]
  sourceFailureIds := [failureId]

/-- `apply_patch`. -/
def applyPatch (artifact : ProcedureArtifact) (patch : ProcedurePatch) : ProcedureArtifact :=
  { artifact with
    steps := artifact.steps ++ patch.addSteps
    knownFailures := artifact.knownFailures ++ patch.addKnownFailures
    recovery := artifact.recovery ++ patch.addRecovery
    sourceFailureIds := artifact.sourceFailureIds ++ patch.sourceFailureIds
    lifecycle := .candidate }

/-! ### Plans -/

/-- `ProcedureExecutionStep`. -/
structure ProcedureExecutionStep where
  stepId : String
  title : String
  executor : String
  operation : String
  argsSchema : Json
  dependsOn : List String
  onError : String

/-- `ProcedureExecutionPlan`. -/
structure ProcedureExecutionPlan where
  procedureId : String
  schemaVersion : Nat
  steps : List ProcedureExecutionStep
  verification : ProcedureVerification

/-- Who runs a step, what it runs, and with which arguments. -/
def executorOf : ProcedureStepKind → String × String × Json
  | .toolCall tool argsSchema => ("tool", tool, argsSchema)
  | .adapterCall adapter op => ("adapter", adapter ++ "." ++ op, .null)
  | .validate target => ("validate", target, .null)
  | .branch condition => ("branch", condition, .null)
  | .humanReview reason => ("human_review", reason, .null)
  | .instruction text => ("instruction", text, .null)

/-- The steps of a plan, each waiting for the one in front of it. -/
def renderSteps (priorStep : Option String) : List ProcedureStep → List ProcedureExecutionStep
  | [] => []
  | step :: steps =>
      { stepId := step.stepId
        title := step.title
        executor := (executorOf step.kind).1
        operation := (executorOf step.kind).2.1
        argsSchema := (executorOf step.kind).2.2
        dependsOn := priorStep.toList
        onError := "abort_and_patch" } :: renderSteps (some step.stepId) steps

/-- `render_execution_plan`. -/
def renderExecutionPlan (artifact : ProcedureArtifact) : ProcedureExecutionPlan where
  procedureId := artifact.id
  schemaVersion := learnerSchemaVersion
  steps := renderSteps none artifact.steps
  verification := artifact.verification

/-- A plan that can be run: the ids of its steps are distinct, and a step depends on ids of steps in
front of it. -/
structure Executable (plan : ProcedureExecutionPlan) : Prop where
  distinct : (plan.steps.map (·.stepId)).Nodup
  earlier : ∀ front step rest, plan.steps = front ++ step :: rest →
    ∀ id ∈ step.dependsOn, id ∈ front.map (·.stepId)

theorem map_stepId_renderSteps (priorStep : Option String) (steps : List ProcedureStep) :
    (renderSteps priorStep steps).map (·.stepId) = steps.map (·.stepId) := by
  induction steps generalizing priorStep with
  | nil => rfl
  | cons step steps ih =>
      rw [renderSteps, List.map_cons, List.map_cons, ih]

/-- A step waits for a step in front of it, whatever the ids are. -/
theorem renderSteps_earlier {priorStep : Option String} {steps : List ProcedureStep}
    {front rest : List ProcedureExecutionStep} {step : ProcedureExecutionStep}
    (h : renderSteps priorStep steps = front ++ step :: rest) :
    ∀ id ∈ step.dependsOn, id ∈ priorStep ∨ id ∈ front.map (·.stepId) := by
  intro id hid
  induction steps generalizing priorStep front with
  | nil => simp [renderSteps] at h
  | cons first steps ih =>
      rw [renderSteps] at h
      cases front with
      | nil =>
          obtain ⟨rfl, -⟩ := List.cons.inj h
          exact .inl (Option.mem_toList.mp hid)
      | cons head front =>
          obtain ⟨rfl, hrest⟩ := List.cons.inj h
          rcases ih hrest with hprior | hfront
          · refine .inr (List.mem_map.mpr ⟨_, List.mem_cons_self, ?_⟩)
            exact Option.mem_some_iff.mp hprior
          · exact .inr (List.mem_cons_of_mem _ hfront)

theorem executable_iff (artifact : ProcedureArtifact) :
    Executable (renderExecutionPlan artifact) ↔ (artifact.steps.map (·.stepId)).Nodup := by
  constructor
  · intro h
    have hdistinct := h.distinct
    rwa [renderExecutionPlan, map_stepId_renderSteps] at hdistinct
  · intro h
    refine ⟨by rwa [renderExecutionPlan, map_stepId_renderSteps], ?_⟩
    intro front step rest hsteps id hid
    exact (renderSteps_earlier hsteps id hid).resolve_left (Option.not_mem_none id)

/-! ### The ids of a patched procedure -/

theorem foldl_applyPatch_steps (artifact : ProcedureArtifact) (patches : List ProcedurePatch) :
    (patches.foldl applyPatch artifact).steps =
      artifact.steps ++ patches.flatMap (·.addSteps) := by
  induction patches generalizing artifact with
  | nil => exact (List.append_nil _).symm
  | cons patch patches ih =>
      rw [List.foldl_cons, ih, applyPatch, List.flatMap_cons, List.append_assoc]

theorem addedIds_eq {pkgs : ProcedurePackages} {patches : List ProcedurePatch}
    (h : ∀ patch ∈ patches, ∃ artifact failureId failureMessage,
      patch = patchFromFailure pkgs artifact failureId failureMessage) :
    (patches.flatMap (·.addSteps)).map (·.stepId) =
      List.replicate patches.length "recovery-check" := by
  induction patches with
  | nil => rfl
  | cons patch patches ih =>
      obtain ⟨⟨artifact, failureId, failureMessage, rfl⟩, hrest⟩ := List.forall_mem_cons.mp h
      rw [List.flatMap_cons, List.map_append, ih hrest, List.length_cons, List.replicate_succ]
      rfl

/-- The digits of an id. -/
def idDigits (n : Nat) : List Char :=
  if n < 10 then '0' :: Nat.toDigits 10 n else Nat.toDigits 10 n

theorem toList_numberedId (n : Nat) :
    (numberedId n).toList = 's' :: ("tep-".toList ++ idDigits n) := by
  have hdigits : (toString n).toList = Nat.toDigits 10 n := String.toList_ofList
  rw [numberedId, idDigits, String.toList_append]
  split
  · rw [String.toList_append, hdigits]
    rfl
  · rw [hdigits]
    rfl

/-- The digits tell the number, with a zero in front or without. -/
theorem digitsValue_idDigits (n : Nat) : digitsValue (idDigits n) = some n := by
  have hall : (Nat.toDigits 10 n).all Char.isDigit = true :=
    List.all_eq_true.mpr fun c hc => Nat.isDigit_of_mem_toDigits (by decide) (by decide) hc
  rw [idDigits]
  split
  · simp [digitsValue, hall, Nat.ofDigitChars_cons]
  · exact digitsValue_toDigits n

theorem numberedId_injective {n m : Nat} (h : numberedId n = numberedId m) : n = m := by
  have hdigits : 's' :: ("tep-".toList ++ idDigits n) = 's' :: ("tep-".toList ++ idDigits m) := by
    rw [← toList_numberedId, ← toList_numberedId, h]
  have hsame := List.append_cancel_left (List.cons.inj hdigits).2
  have hvalue := digitsValue_idDigits n
  rw [hsame, digitsValue_idDigits] at hvalue
  exact (Option.some.inj hvalue).symm

/-- No number gives the id of a recovery step. -/
theorem numberedId_ne_recovery (n : Nat) : numberedId n ≠ "recovery-check" := by
  intro h
  have hlist := congrArg String.toList h
  rw [toList_numberedId] at hlist
  exact absurd (List.cons.inj hlist).1 (by decide)

theorem nodup_numberedIds (events : List ExperienceEvent) :
    ((events.zipIdx.map fun p => stepOfEvent p.1 p.2).map (·.stepId)).Nodup := by
  have hids : (events.zipIdx.map fun p => stepOfEvent p.1 p.2).map (·.stepId) =
      (List.range' 0 events.length).map fun i => numberedId (i + 1) := by
    rw [← List.zipIdx_map_snd, List.map_map, List.map_map]
    rfl
  rw [hids]
  refine List.Nodup.map ?_ List.nodup_range'
  intro i j h
  exact Nat.succ.inj (numberedId_injective h)

theorem nodup_append_replicate {α : Type*} {xs : List α} {a : α} (hxs : xs.Nodup) (ha : a ∉ xs)
    (n : Nat) : (xs ++ List.replicate n a).Nodup ↔ n ≤ 1 := by
  rw [List.nodup_append, List.nodup_replicate]
  constructor
  · exact fun h => h.2.1
  · refine fun h => ⟨hxs, h, fun x hx y hy hxy => ha ?_⟩
    rw [← List.eq_of_mem_replicate hy, ← hxy]
    exact hx

theorem distillProcedure_steps {pkgs : ProcedurePackages} {bundle : ExperienceBundle}
    {policy : DistillPolicy} {artifact : ProcedureArtifact}
    (h : distillProcedure pkgs bundle policy = .ok artifact) :
    artifact.steps = bundle.events.zipIdx.map fun p => stepOfEvent p.1 p.2 := by
  unfold distillProcedure at h
  split_ifs at h
  obtain rfl := Except.ok.inj h
  rfl

/-- For every distilled procedure and patches that were made from failures, of whatever procedures:
the plan of the patched procedure has distinct ids, and each step waits for steps in front of it,
exactly when at most one patch was applied. -/
theorem patched_plan_executable_iff {pkgs : ProcedurePackages} {bundle : ExperienceBundle}
    {policy : DistillPolicy} {artifact : ProcedureArtifact}
    (hartifact : distillProcedure pkgs bundle policy = .ok artifact)
    {patches : List ProcedurePatch}
    (hpatches : ∀ patch ∈ patches, ∃ artifact failureId failureMessage,
      patch = patchFromFailure pkgs artifact failureId failureMessage) :
    Executable (renderExecutionPlan (patches.foldl applyPatch artifact)) ↔
      patches.length ≤ 1 := by
  rw [executable_iff, foldl_applyPatch_steps, List.map_append, addedIds_eq hpatches,
    distillProcedure_steps hartifact]
  refine nodup_append_replicate (nodup_numberedIds bundle.events) ?_ patches.length
  simp only [List.mem_map, not_exists, not_and]
  rintro step ⟨p, -, rfl⟩ hid
  exact numberedId_ne_recovery _ hid

/-- The text itself for its hash, and no decimals. -/
def plainPackages : ProcedurePackages where
  sha256HexLower := id
  fixed _ _ := "1"

/-- A file was read and written, three times. -/
def copyBundle : ExperienceBundle where
  intent := "copy a file"
  outcome := .success
  observationCount := 3
  fitness := 1
  events :=
    [ { eventId := "e1", timestampMs := 0, toolOrAdapter := "tool", operation := "file_read"
        success := true },
      { eventId := "e2", timestampMs := 1, toolOrAdapter := "tool", operation := "file_write"
        success := true } ]

/-- What is distilled from that. -/
def copyProcedure : ProcedureArtifact := distilledArtifact plainPackages copyBundle

theorem distill_copyBundle :
    distillProcedure plainPackages copyBundle .default = .ok copyProcedure := by
  have hfit : ¬ copyBundle.fitness < DistillPolicy.default.minFitness := by
    simp only [copyBundle, DistillPolicy.default]
    norm_num
  rw [distillProcedure, if_neg (by decide), if_neg (by decide), if_neg hfit, if_neg (by decide)]
  rfl

/-- One patch. -/
theorem patched_plan_executable_iff_once :
    Executable (renderExecutionPlan ([patchFromFailure plainPackages copyProcedure "f1"
      "permission denied"].foldl applyPatch copyProcedure)) ↔
      [patchFromFailure plainPackages copyProcedure "f1" "permission denied"].length ≤ 1 := by
  refine patched_plan_executable_iff distill_copyBundle ?_
  exact fun patch hpatch => ⟨_, _, _, List.mem_singleton.mp hpatch⟩

/-- After a second failure the plan has the recovery step twice. -/
theorem second_patch_repeats_id : ¬ ∀ (pkgs : ProcedurePackages) (bundle : ExperienceBundle)
    (policy : DistillPolicy) (artifact : ProcedureArtifact) (patches : List ProcedurePatch),
    distillProcedure pkgs bundle policy = .ok artifact →
    (∀ patch ∈ patches, ∃ artifact failureId failureMessage,
      patch = patchFromFailure pkgs artifact failureId failureMessage) →
    Executable (renderExecutionPlan (patches.foldl applyPatch artifact)) := by
  intro h
  have hplan := h plainPackages copyBundle .default copyProcedure
    [patchFromFailure plainPackages copyProcedure "f1" "permission denied",
      patchFromFailure plainPackages copyProcedure "f2" "disk full"] distill_copyBundle ?_
  · have hids := (executable_iff _).mp hplan
    rw [foldl_applyPatch_steps, List.map_append] at hids
    exact absurd (List.nodup_append.mp hids).2.1 (by decide)
  · intro patch hpatch
    simp only [List.mem_cons, List.not_mem_nil, or_false] at hpatch
    rcases hpatch with rfl | rfl
    · exact ⟨_, _, _, rfl⟩
    · exact ⟨_, _, _, rfl⟩

end ArmaraOS.Learning
