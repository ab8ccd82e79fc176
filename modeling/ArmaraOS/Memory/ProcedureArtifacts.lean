import Mathlib.Algebra.Order.Field.Rat
import ArmaraOS.Memory.AgentRecall

/-!
Portable procedures in the graph memory (`ainl-memory/src/lib.rs`, with the types of
`ainl-contracts/src/procedure.rs`).

An artifact is stored as JSON in the `compiled_graph` of a procedural node. It is searched for by a
score of its words, its tools and its fitness, and the outcome of a reuse is recorded on the
artifact that the same search finds. The scores are computed here in exact rationals.
-/

namespace ArmaraOS.Memory

open ArmaraOS.Text

/-! ### Artifacts -/

/-- `ProcedureLifecycle`. -/
inductive ProcedureLifecycle where
  | draft
  | candidate
  | validated
  | promoted
  | deprecated
deriving DecidableEq

/-- `ProcedureArtifactFormat`. -/
inductive ProcedureArtifactFormat where
  | markdownSkill
  | openFangSkill
  | ainlGraph
  | hand
  | promptOnly
deriving DecidableEq

/-- `ProcedureStepKind`. -/
inductive ProcedureStepKind where
  | toolCall (tool : String) (argsSchema : Json)
  | adapterCall (adapter op : String)
  | validate (target : String)
  | branch (condition : String)
  | humanReview (reason : String)
  | instruction (text : String)
deriving DecidableEq

/-- `ProcedureStep`. -/
structure ProcedureStep where
  stepId : String
  title : String
  kind : ProcedureStepKind
  rationale : Option String := none
deriving DecidableEq

/-- `ProcedureVerification`. -/
structure ProcedureVerification where
  checks : List String := []
  successCriteria : List String := []
deriving DecidableEq

/-- `ProcedureArtifact`. -/
structure ProcedureArtifact where
  schemaVersion : Nat
  id : String
  title : String
  intent : String
  summary : String
  requiredTools : List String := []
  requiredAdapters : List String := []
  inputs : List String := []
  outputs : List String := []
  preconditions : List String := []
  steps : List ProcedureStep := []
  verification : ProcedureVerification := {}
  knownFailures : List String := []
  recovery : List String := []
  sourceTrajectoryIds : List String := []
  sourceFailureIds : List String := []
  fitness : ℚ
  observationCount : Nat
  lifecycle : ProcedureLifecycle
  renderTargets : List ProcedureArtifactFormat := []
deriving DecidableEq

/-- `TrajectoryOutcome`. -/
inductive TrajectoryOutcome where
  | success
  | partialSuccess
  | failure
  | aborted
deriving DecidableEq

/-- `ProcedureReuseOutcome`. -/
structure ProcedureReuseOutcome where
  procedureId : String
  outcome : TrajectoryOutcome
  failureId : Option String := none
  notes : Option String := none

/-- `ProcedureType`. -/
inductive ProcedureType where
  | toolSequence
  | responsePattern
  | workflowStep
  | behavioralRule
deriving DecidableEq

/-- `ProceduralNode`. -/
structure ProceduralNode where
  patternName : String
  compiledGraph : List UInt8 := []
  toolSequence : List String := []
  confidence : Option ℚ := none
  procedureType : ProcedureType := .toolSequence
  triggerConditions : List String := []
  successCount : Nat := 0
  failureCount : Nat := 0
  successRate : ℚ := 1 / 2
  lastInvokedAt : Nat := 0
  reinforcementEpisodeIds : List String := []
  suppressionEpisodeIds : List String := []
  patchVersion : Nat := 0
  fitness : Option ℚ := none
  declaredReads : List String := []
  retired : Bool := false
  label : String := ""
  traceId : Option String := none
  patternObservationCount : Nat := 0
  promptEligible : Bool := true
deriving DecidableEq

/-- What `serde_json` does here: the fields of a procedural node as JSON, and an artifact as
bytes. -/
structure ProcedureJson where
  proceduralOf : Json → ProceduralNode
  ofProcedural : ProceduralNode → Json
  toVec : ProcedureArtifact → Except String (List UInt8)
  fromSlice : List UInt8 → Except String ProcedureArtifact

/-! ### Scores -/

/-- `f32::clamp(0.0, 1.0)`. -/
def clampUnit (x : ℚ) : ℚ := max 0 (min x 1)

/-- The words of an intent that are looked for. -/
def intentTokens (intent : String) : List String :=
  ((fieldsFrom (fun c => !c.isAlphanum) [] intent.toList).filter fun token =>
    decide (3 ≤ token.length)).map fun token => toAsciiLowercase (String.ofList token)

/-- `score_procedure_artifact`. -/
def scoreProcedureArtifact (artifact : ProcedureArtifact) (intent : String)
    (availableTools : List String) : ℚ :=
  let haystack := toAsciiLowercase artifact.title ++ " " ++ toAsciiLowercase artifact.intent ++
    " " ++ toAsciiLowercase artifact.summary
  let tokens := intentTokens intent
  let intentScore : ℚ :=
    if tokens.isEmpty then 0
    else (tokens.filter fun token => contains haystack token).length / tokens.length
  let toolScore : ℚ :=
    if artifact.requiredTools.isEmpty then 1 / 5
    else (artifact.requiredTools.filter fun tool =>
      availableTools.any fun available => available == tool).length /
        artifact.requiredTools.length
  clampUnit (intentScore * (11 / 20) + toolScore * (3 / 10) +
    clampUnit artifact.fitness * (3 / 20))

/-! ### Reading -/

namespace GraphStore

/-- `find_by_type`. -/
def findByType (pkgs : Packages) (visit : List NodeRow → List NodeRow) (store : GraphStore)
    (typeName : String) : Except String (List AinlMemoryNode) :=
  (((visit store.nodes.entries).filter fun row => row.nodeType == typeName).mergeSort
    NodeRow.notOlder).mapM pkgs.nodeOfRow

end GraphStore

section Reading

variable (serde : ProcedureJson)

/-- `AinlMemoryNode::procedural`. -/
def AinlMemoryNode.procedural (node : AinlMemoryNode) : Option ProceduralNode :=
  match node.nodeType with
  | .procedural json => some (serde.proceduralOf json)
  | _ => none

/-- The artifact that `search_procedure_artifacts_for_agent` scores at a node. -/
def searchedArtifact (agentId : String) (node : AinlMemoryNode) : Option ProcedureArtifact :=
  if node.agentId ≠ agentId then none
  else
    match node.procedural serde with
    | none => none
    | some procedural =>
        if !procedural.promptEligible || procedural.compiledGraph.isEmpty then none
        else
          match serde.fromSlice procedural.compiledGraph with
          | .error _ => none
          | .ok artifact => if artifact.lifecycle = .deprecated then none else some artifact

/-- The artifact with its score, if that is not 0. -/
def scoredArtifact (intent : String) (availableTools : List String)
    (artifact : ProcedureArtifact) : Option (ℚ × ProcedureArtifact) :=
  let score := scoreProcedureArtifact artifact intent availableTools
  if 0 < score then some (score, artifact) else none

/-- `search_procedure_artifacts_for_agent`. A `limit` of `none` is `usize::MAX`, more than any
vector holds. -/
def GraphStore.searchProcedureArtifactsForAgent (pkgs : Packages)
    (visit : List NodeRow → List NodeRow) (store : GraphStore) (agentId intent : String)
    (availableTools : List String) (limit : Option Nat) :
    Except String (List ProcedureArtifact) := do
  let nodes ← store.findByType pkgs visit "procedural"
  let scored := (nodes.filterMap (searchedArtifact serde agentId)).filterMap
    (scoredArtifact intent availableTools)
  let sorted := scored.mergeSort fun a b => decide (b.1 ≤ a.1)
  let taken :=
    match limit with
    | none => sorted
    | some limit => sorted.take limit
  return taken.map Prod.snd

/-- The test of `upsert_procedure_artifact_for_agent`: a node of the agent for the artifact's
id. -/
def isNodeOf (agentId artifactId : String) (node : AinlMemoryNode) : Bool :=
  node.agentId == agentId &&
    match node.procedural serde with
    | none => false
    | some procedural =>
        procedural.label == artifactId ||
          match serde.fromSlice procedural.compiledGraph with
          | .ok existing => existing.id == artifactId
          | .error _ => false

end Reading

/-! ### Writing -/

/-- The tool of a step that calls one. -/
def ProcedureStep.tool? (step : ProcedureStep) : Option String :=
  match step.kind with
  | .toolCall tool _ => some tool
  | _ => none

/-- The fields that both writes of an artifact set. -/
def ProceduralNode.withArtifact (procedural : ProceduralNode) (artifact : ProcedureArtifact)
    (artifactJson : List UInt8) : ProceduralNode :=
  { procedural with
    compiledGraph := artifactJson
    toolSequence := artifact.steps.filterMap ProcedureStep.tool?
    confidence := some (clampUnit artifact.fitness)
    fitness := some (clampUnit artifact.fitness)
    patternObservationCount := artifact.observationCount
    promptEligible := decide (artifact.lifecycle = .validated ∨ artifact.lifecycle = .promoted)
    label := artifact.id
    triggerConditions := [artifact.intent] }

namespace GraphStore

section Writing

variable (pkgs : Packages) (serde : ProcedureJson) (visit : List NodeRow → List NodeRow)

/-- `write_node`, with the id of the node for its result. -/
def writeNodeForId (now : Int) (store : GraphStore) (node : AinlMemoryNode) :
    Except String Uuid × GraphStore :=
  match store.writeNode pkgs now node with
  | (.error e, store) => (.error e, store)
  | (.ok (), store) => (.ok node.id, store)

/-- `write_procedure_artifact_for_agent`; `newId` is what `Uuid::new_v4` returns. -/
def writeProcedureArtifactForAgent (now : Int) (newId : Uuid) (store : GraphStore)
    (agentId : String) (artifact : ProcedureArtifact) : Except String Uuid × GraphStore :=
  match serde.toVec artifact with
  | .error e => (.error e, store)
  | .ok artifactJson =>
      let procedural : ProceduralNode :=
        { patternName := artifact.id, compiledGraph := artifactJson, patchVersion := 1 }
      store.writeNodeForId pkgs now
        { id := newId
          memoryCategory := .procedural
          importanceScore := F32.half
          agentId := agentId
          projectId := none
          nodeType := .procedural
            (serde.ofProcedural (procedural.withArtifact artifact artifactJson))
          edges := [] }

/-- `upsert_procedure_artifact_for_agent`. -/
def upsertProcedureArtifactForAgent (now : Int) (newId : Uuid) (store : GraphStore)
    (agentId : String) (artifact : ProcedureArtifact) : Except String Uuid × GraphStore :=
  match store.findByType pkgs visit "procedural" with
  | .error e => (.error e, store)
  | .ok nodes =>
      match nodes.find? (isNodeOf serde agentId artifact.id) with
      | none => store.writeProcedureArtifactForAgent pkgs serde now newId agentId artifact
      | some node =>
          match serde.toVec artifact with
          | .error e => (.error e, store)
          | .ok artifactJson =>
              let nodeType :=
                match node.nodeType with
                | .procedural json => .procedural (serde.ofProcedural
                    ((serde.proceduralOf json).withArtifact artifact artifactJson))
                | other => other
              store.writeNodeForId pkgs now { node with nodeType := nodeType }

end Writing

end GraphStore

/-! ### Outcomes of reuse -/

/-- What an outcome adds to the fitness. -/
def TrajectoryOutcome.delta : TrajectoryOutcome → ℚ
  | .success => 1 / 25
  | .partialSuccess => 1 / 100
  | .failure => -(2 / 25)
  | .aborted => -(3 / 25)

/-- `u32::MAX`. -/
def u32Max : Nat := 2 ^ 32 - 1

/-- The artifact after an outcome. -/
def ProcedureArtifact.afterOutcome (artifact : ProcedureArtifact)
    (outcome : ProcedureReuseOutcome) : ProcedureArtifact :=
  { artifact with
    observationCount := min u32Max (artifact.observationCount + 1)
    fitness := clampUnit (artifact.fitness + outcome.outcome.delta)
    sourceFailureIds :=
      match outcome.failureId with
      | none => artifact.sourceFailureIds
      | some failureId =>
          if artifact.sourceFailureIds.any fun id => id == failureId then
            artifact.sourceFailureIds
          else artifact.sourceFailureIds ++ [failureId] }

namespace GraphStore

section Outcomes

variable (pkgs : Packages) (serde : ProcedureJson) (visit : List NodeRow → List NodeRow)

/-- The artifact that `record_procedure_reuse_outcome_for_agent` looks up. -/
def lookUpArtifact (store : GraphStore) (agentId procedureId : String) :
    Except String (Option ProcedureArtifact) :=
  (store.searchProcedureArtifactsForAgent serde pkgs visit agentId "" [] none).map fun artifacts =>
    artifacts.find? fun artifact => artifact.id == procedureId

/-- `record_procedure_reuse_outcome_for_agent`. -/
def recordProcedureReuseOutcomeForAgent (now : Int) (newId : Uuid) (store : GraphStore)
    (agentId : String) (outcome : ProcedureReuseOutcome) : Except String Uuid × GraphStore :=
  match store.lookUpArtifact pkgs serde visit agentId outcome.procedureId with
  | .error e => (.error e, store)
  | .ok none => (.error ("procedure artifact not found: " ++ outcome.procedureId), store)
  | .ok (some artifact) =>
      store.upsertProcedureArtifactForAgent pkgs serde visit now newId agentId
        (artifact.afterOutcome outcome)

end Outcomes

end GraphStore

end ArmaraOS.Memory
