import Mathlib.Tactic.Linarith
import Mathlib.Tactic.NormNum
import ArmaraOS.Lib.Utf8
import ArmaraOS.Memory.FailedWrites
import ArmaraOS.Memory.ProcedureArtifacts

/-!
The outcomes of reuse that are recorded on a procedure
(`record_procedure_reuse_outcome_for_agent` in `ainl-memory/src/lib.rs`).

The recorder looks the artifact up by a search for no words and no tools, and the search leaves out
what scores 0. So an artifact that needs tools is found by its fitness alone, and after enough
failures no outcome can be recorded on it any more.
-/

namespace ArmaraOS.Memory

open ArmaraOS.Lib ArmaraOS.Text

/-! ### Calls -/

/-- A call of the recorder, with the clock and the id that is drawn for a new node. -/
structure ReuseCall where
  now : Int
  newId : Uuid
  outcome : ProcedureReuseOutcome

section Calls

variable (pkgs : Packages) (serde : ProcedureJson) (visit : List NodeRow → List NodeRow)
  (agentId : String)

/-- The call on a store. -/
def ReuseCall.run (store : GraphStore) (call : ReuseCall) : Except String Uuid × GraphStore :=
  store.recordProcedureReuseOutcomeForAgent pkgs serde visit call.now call.newId agentId
    call.outcome

/-- The store after some calls. -/
def runCalls (store : GraphStore) (calls : List ReuseCall) : GraphStore :=
  calls.foldl (fun store call => (call.run pkgs serde visit agentId store).2) store

theorem runCalls_nil (store : GraphStore) :
    runCalls pkgs serde visit agentId store [] = store := rfl

theorem runCalls_singleton (store : GraphStore) (call : ReuseCall) :
    runCalls pkgs serde visit agentId store [call] =
      (call.run pkgs serde visit agentId store).2 := rfl

/-- Something holds of every call of a run and the store it meets. -/
def EveryCall (p : GraphStore → ReuseCall → Prop) (store : GraphStore) (calls : List ReuseCall) :
    Prop :=
  ∀ before call after, calls = before ++ call :: after →
    p (runCalls pkgs serde visit agentId store before) call

/-- The call finds an artifact, returns the id of a node, and the row of that node is written with
the artifact after the outcome, which was observed once more. -/
structure RecordedAs (store : GraphStore) (call : ReuseCall) (artifact : ProcedureArtifact)
    (node : AinlMemoryNode) (procedural : ProceduralNode) : Prop where
  looked : store.lookUpArtifact pkgs serde visit agentId call.outcome.procedureId =
    .ok (some artifact)
  result : (call.run pkgs serde visit agentId store).1 = .ok node.id
  written : (call.run pkgs serde visit agentId store).2.nodes.find node.id =
    some (nodeRow pkgs call.now node)
  owner : node.agentId = agentId
  fields : node.nodeType = .procedural (serde.ofProcedural procedural)
  holds : serde.fromSlice procedural.compiledGraph = .ok (artifact.afterOutcome call.outcome)
  observed : procedural.patternObservationCount = artifact.observationCount + 1 ∧
    (artifact.afterOutcome call.outcome).observationCount = artifact.observationCount + 1

/-- The call records its outcome. -/
def Recorded (store : GraphStore) (call : ReuseCall) : Prop :=
  ∃ artifact node procedural,
    RecordedAs pkgs serde visit agentId store call artifact node procedural

/-- The procedural nodes can be read; an artifact with the id, of the agent, eligible for prompts
and not deprecated, needs no tools or has a fitness above 0; the one that is looked up was not yet
observed `u32::MAX` times and can be written; and the edges of the node that is rewritten have
their targets. -/
structure RecordableFrom (store : GraphStore) (call : ReuseCall) (nodes : List AinlMemoryNode) :
    Prop where
  readable : store.findByType pkgs visit "procedural" = .ok nodes
  scored : ∃ node ∈ nodes, ∃ artifact, searchedArtifact serde agentId node = some artifact ∧
    artifact.id = call.outcome.procedureId ∧ (artifact.requiredTools = [] ∨ 0 < artifact.fitness)
  countable : ∀ artifact,
    store.lookUpArtifact pkgs serde visit agentId call.outcome.procedureId = .ok (some artifact) →
    artifact.observationCount < u32Max ∧
      ∃ bytes, serde.toVec (artifact.afterOutcome call.outcome) = .ok bytes
  targets : ∀ node, nodes.find? (isNodeOf serde agentId call.outcome.procedureId) = some node →
    TargetsStored node store

/-- The outcome of the call can be recorded. -/
def Recordable (store : GraphStore) (call : ReuseCall) : Prop :=
  ∃ nodes, RecordableFrom pkgs serde visit agentId store call nodes

end Calls

/-! ### The score -/

theorem clampUnit_pos_iff {x : ℚ} : 0 < clampUnit x ↔ 0 < x := by
  rw [clampUnit, lt_max_iff, lt_min_iff]
  constructor
  · rintro (h | h)
    · exact absurd h (lt_irrefl 0)
    · exact h.1
  · intro h
    exact .inr ⟨h, by norm_num⟩

theorem clampUnit_nonneg (x : ℚ) : 0 ≤ clampUnit x := le_max_left _ _

/-- Without words and tools an artifact scores by its fitness, unless it needs no tools. -/
theorem scoreProcedureArtifact_pos_iff (artifact : ProcedureArtifact) :
    0 < scoreProcedureArtifact artifact "" [] ↔
      artifact.requiredTools = [] ∨ 0 < artifact.fitness := by
  have hfitness := clampUnit_nonneg artifact.fitness
  have htokens : intentTokens "" = [] := rfl
  rw [scoreProcedureArtifact, htokens, List.isEmpty_nil, if_pos rfl, clampUnit_pos_iff]
  cases htools : artifact.requiredTools with
  | nil =>
      rw [List.isEmpty_nil, if_pos rfl]
      refine iff_of_true ?_ (.inl rfl)
      linarith
  | cons tool tools =>
      have hnone : ((tool :: tools).filter fun tool =>
          ([] : List String).any fun available => available == tool) = [] :=
        List.filter_eq_nil_iff.mpr fun _ _ => Bool.false_ne_true
      rw [List.isEmpty_cons, if_neg Bool.false_ne_true, hnone, List.length_nil, Nat.cast_zero,
        zero_div, zero_mul, zero_mul, add_zero, zero_add,
        or_iff_right (List.cons_ne_nil tool tools), ← @clampUnit_pos_iff artifact.fitness]
      constructor
      · intro h
        linarith
      · intro h
        linarith

/-! ### The search -/

section Search

variable {pkgs : Packages} {serde : ProcedureJson} {visit : List NodeRow → List NodeRow}
  {agentId procedureId : String} {store : GraphStore} {nodes : List AinlMemoryNode}
  {artifact : ProcedureArtifact}

theorem lookUpArtifact_readable
    (h : store.lookUpArtifact pkgs serde visit agentId procedureId = .ok (some artifact)) :
    ∃ nodes, store.findByType pkgs visit "procedural" = .ok nodes := by
  rw [GraphStore.lookUpArtifact, GraphStore.searchProcedureArtifactsForAgent] at h
  cases hnodes : store.findByType pkgs visit "procedural" with
  | error e =>
      rw [hnodes] at h
      cases h
  | ok nodes => exact ⟨nodes, rfl⟩

/-- The artifacts the recorder looks through. -/
def lookedThrough (serde : ProcedureJson) (agentId : String) (nodes : List AinlMemoryNode) :
    List ProcedureArtifact :=
  (((nodes.filterMap (searchedArtifact serde agentId)).filterMap
    (scoredArtifact "" [])).mergeSort fun a b => decide (b.1 ≤ a.1)).map Prod.snd

theorem lookUpArtifact_eq (hnodes : store.findByType pkgs visit "procedural" = .ok nodes) :
    store.lookUpArtifact pkgs serde visit agentId procedureId =
      .ok ((lookedThrough serde agentId nodes).find? fun artifact =>
        artifact.id == procedureId) := by
  rw [GraphStore.lookUpArtifact, GraphStore.searchProcedureArtifactsForAgent, hnodes]
  rfl

theorem mem_lookedThrough :
    artifact ∈ lookedThrough serde agentId nodes ↔
      (∃ node ∈ nodes, searchedArtifact serde agentId node = some artifact) ∧
        (artifact.requiredTools = [] ∨ 0 < artifact.fitness) := by
  rw [← scoreProcedureArtifact_pos_iff, lookedThrough, List.mem_map]
  constructor
  · rintro ⟨scored, hscored, rfl⟩
    obtain ⟨found, hfound, hscore⟩ := List.mem_filterMap.mp (List.mem_mergeSort.mp hscored)
    obtain ⟨node, hnode, hsearched⟩ := List.mem_filterMap.mp hfound
    rw [scoredArtifact] at hscore
    split at hscore
    · rename_i hpos
      cases hscore
      exact ⟨⟨node, hnode, hsearched⟩, hpos⟩
    · cases hscore
  · rintro ⟨⟨node, hnode, hsearched⟩, hpos⟩
    refine ⟨(scoreProcedureArtifact artifact "" [], artifact), ?_, rfl⟩
    refine List.mem_mergeSort.mpr (List.mem_filterMap.mpr ⟨artifact, ?_, ?_⟩)
    · exact List.mem_filterMap.mpr ⟨node, hnode, hsearched⟩
    · exact if_pos hpos

/-- An artifact is looked up exactly if one of the agent's is scored. -/
theorem lookUpArtifact_isSome_iff
    (hnodes : store.findByType pkgs visit "procedural" = .ok nodes) :
    (∃ artifact, store.lookUpArtifact pkgs serde visit agentId procedureId =
        .ok (some artifact)) ↔
      ∃ node ∈ nodes, ∃ artifact, searchedArtifact serde agentId node = some artifact ∧
        artifact.id = procedureId ∧ (artifact.requiredTools = [] ∨ 0 < artifact.fitness) := by
  rw [lookUpArtifact_eq hnodes]
  simp only [Except.ok.injEq]
  rw [← Option.isSome_iff_exists, List.find?_isSome]
  constructor
  · rintro ⟨artifact, hartifact, hid⟩
    obtain ⟨⟨node, hnode, hsearched⟩, hscored⟩ := mem_lookedThrough.mp hartifact
    exact ⟨node, hnode, artifact, hsearched, beq_iff_eq.mp hid, hscored⟩
  · rintro ⟨node, hnode, artifact, hsearched, hid, hscored⟩
    exact ⟨artifact, mem_lookedThrough.mpr ⟨⟨node, hnode, hsearched⟩, hscored⟩,
      beq_iff_eq.mpr hid⟩

/-- What is looked up stands at a node of the agent and has the id. -/
theorem lookUpArtifact_some (hnodes : store.findByType pkgs visit "procedural" = .ok nodes)
    (h : store.lookUpArtifact pkgs serde visit agentId procedureId = .ok (some artifact)) :
    artifact.id = procedureId ∧
      ∃ node ∈ nodes, searchedArtifact serde agentId node = some artifact := by
  rw [lookUpArtifact_eq hnodes, Except.ok.injEq] at h
  have hid := List.find?_some h
  exact ⟨beq_iff_eq.mp hid, (mem_lookedThrough.mp (List.mem_of_find?_eq_some h)).1⟩

/-- The node an artifact stands at is a node for its id. -/
theorem isNodeOf_of_searched {node : AinlMemoryNode}
    (h : searchedArtifact serde agentId node = some artifact) :
    isNodeOf serde agentId artifact.id node = true := by
  rw [searchedArtifact] at h
  rw [isNodeOf]
  split at h
  · cases h
  rename_i hagent
  rw [not_not] at hagent
  rw [hagent, beq_self_eq_true, Bool.true_and]
  cases hprocedural : node.procedural serde with
  | none =>
      rw [hprocedural] at h
      cases h
  | some procedural =>
      rw [hprocedural] at h
      dsimp only at h ⊢
      split at h
      · cases h
      cases hslice : serde.fromSlice procedural.compiledGraph with
      | error e =>
          rw [hslice] at h
          cases h
      | ok existing =>
          rw [hslice] at h
          dsimp only at h ⊢
          split at h
          · cases h
          · cases h
            rw [beq_self_eq_true, Bool.or_true]

/-- A node of the agent that is eligible for prompts is searched for its artifact. -/
theorem searchedArtifact_eq {node : AinlMemoryNode} {procedural : ProceduralNode}
    (hagent : node.agentId = agentId) (hprocedural : node.procedural serde = some procedural)
    (heligible : procedural.promptEligible = true) (hgraph : procedural.compiledGraph ≠ [])
    (hslice : serde.fromSlice procedural.compiledGraph = .ok artifact)
    (hlive : artifact.lifecycle ≠ .deprecated) :
    searchedArtifact serde agentId node = some artifact := by
  have hempty : procedural.compiledGraph.isEmpty = false := by
    rwa [List.isEmpty_eq_false_iff]
  rw [searchedArtifact, if_neg (not_not.mpr hagent), hprocedural]
  dsimp only
  rw [heligible, hempty, if_neg (by decide), hslice]
  exact if_neg hlive

/-- A node for an id is one of the agent, and procedural. -/
theorem isNodeOf_procedural {node : AinlMemoryNode}
    (h : isNodeOf serde agentId procedureId node = true) :
    node.agentId = agentId ∧ ∃ json, node.nodeType = .procedural json := by
  rw [isNodeOf, Bool.and_eq_true, beq_iff_eq] at h
  refine ⟨h.1, ?_⟩
  have hprocedural := h.2
  unfold AinlMemoryNode.procedural at hprocedural
  cases hjson : node.nodeType with
  | procedural json => exact ⟨json, rfl⟩
  | _ =>
      rw [hjson] at hprocedural
      cases hprocedural

end Search

/-! ### The write -/

section Write

variable {pkgs : Packages} {serde : ProcedureJson} {visit : List NodeRow → List NodeRow}
  {agentId : String} {store : GraphStore} {now : Int} {newId : Uuid}

/-- The node with an artifact in it. -/
def nodeWith (serde : ProcedureJson) (node : AinlMemoryNode) (json : Json)
    (artifact : ProcedureArtifact) (bytes : List UInt8) : AinlMemoryNode :=
  { node with
    nodeType := .procedural (serde.ofProcedural
      ((serde.proceduralOf json).withArtifact artifact bytes)) }

/-- A node is written if the targets of its edges are stored. -/
theorem writeNodeForId_spec (pkgs : Packages) (now : Int) (store : GraphStore)
    (node : AinlMemoryNode) :
    (∀ id, (store.writeNodeForId pkgs now node).1 = .ok id ↔
        id = node.id ∧ TargetsStored node store) ∧
      (store.writeNodeForId pkgs now node).2.nodes =
        (store.replaceNode (nodeRow pkgs now node)).nodes := by
  have hfrom : (store.replaceNode (nodeRow pkgs now node)).nodeRowExists node.id = true :=
    GraphStore.nodeRowExists_replaceNode.mpr (.inl rfl)
  obtain ⟨herror, hnodes, _⟩ := GraphStore.persistEdges_stored node.edges hfrom
  rw [← not_targetsStored_iff] at herror
  rw [GraphStore.writeNodeForId, GraphStore.writeNode, GraphStore.persistNode]
  cases hout : GraphStore.persistEdges node.id (store.replaceNode (nodeRow pkgs now node))
      node.edges with
  | mk result store' =>
      rw [hout] at herror hnodes
      cases result with
      | error e =>
          have hmissing := herror.mp ⟨e, rfl⟩
          exact ⟨fun id => iff_of_false (fun h => by cases h) fun h => hmissing h.2, hnodes⟩
      | ok _ =>
          have hstored : TargetsStored node store := by
            by_contra hmissing
            obtain ⟨e, he⟩ := herror.mpr hmissing
            cases he
          refine ⟨fun id => ⟨fun h => ⟨?_, hstored⟩, fun h => ?_⟩, hnodes⟩
          · exact (Except.ok.inj h).symm
          · rw [h.1]

theorem find_replaceNode (store : GraphStore) (row : NodeRow) :
    (store.replaceNode row).nodes.find row.id = some row := by
  rw [GraphStore.replaceNode, Table.find_insert]
  exact if_pos rfl

/-- An artifact whose node is stored is written into it. -/
theorem upsert_eq {nodes : List AinlMemoryNode} {node : AinlMemoryNode} {json : Json}
    {artifact : ProcedureArtifact} {bytes : List UInt8}
    (hnodes : store.findByType pkgs visit "procedural" = .ok nodes)
    (hnode : nodes.find? (isNodeOf serde agentId artifact.id) = some node)
    (hjson : node.nodeType = .procedural json) (hbytes : serde.toVec artifact = .ok bytes) :
    store.upsertProcedureArtifactForAgent pkgs serde visit now newId agentId artifact =
      store.writeNodeForId pkgs now (nodeWith serde node json artifact bytes) := by
  rw [GraphStore.upsertProcedureArtifactForAgent, hnodes]
  dsimp only
  rw [hnode]
  dsimp only
  rw [hbytes, hjson]
  rfl

/-- An artifact that cannot be written as JSON is not upserted. -/
theorem upsert_error {nodes : List AinlMemoryNode} {node : AinlMemoryNode}
    {artifact : ProcedureArtifact} {e : String}
    (hnodes : store.findByType pkgs visit "procedural" = .ok nodes)
    (hnode : nodes.find? (isNodeOf serde agentId artifact.id) = some node)
    (herror : serde.toVec artifact = .error e) :
    store.upsertProcedureArtifactForAgent pkgs serde visit now newId agentId artifact =
      (.error e, store) := by
  rw [GraphStore.upsertProcedureArtifactForAgent, hnodes]
  dsimp only
  rw [hnode]
  dsimp only
  rw [herror]

end Write

/-! ### One call -/

section Step

variable {pkgs : Packages} {serde : ProcedureJson} {visit : List NodeRow → List NodeRow}
  {agentId : String} {store : GraphStore} {call : ReuseCall}

/-- The node of the artifact that is looked up is there. -/
theorem exists_nodeOf {nodes : List AinlMemoryNode} {artifact : ProcedureArtifact}
    (hnodes : store.findByType pkgs visit "procedural" = .ok nodes)
    (hlook : store.lookUpArtifact pkgs serde visit agentId call.outcome.procedureId =
      .ok (some artifact)) :
    ∃ node json, nodes.find? (isNodeOf serde agentId call.outcome.procedureId) = some node ∧
      node.agentId = agentId ∧ node.nodeType = .procedural json := by
  obtain ⟨hid, node, hnode, hsearched⟩ := lookUpArtifact_some hnodes hlook
  have hnodeOf := isNodeOf_of_searched hsearched
  rw [hid] at hnodeOf
  have hsome : (nodes.find? (isNodeOf serde agentId call.outcome.procedureId)).isSome = true :=
    List.find?_isSome.mpr ⟨node, hnode, hnodeOf⟩
  obtain ⟨picked, hpicked⟩ := Option.isSome_iff_exists.mp hsome
  obtain ⟨hagent, json, hjson⟩ := isNodeOf_procedural (List.find?_some hpicked)
  exact ⟨picked, json, hpicked, hagent, hjson⟩

theorem run_of_lookUp {artifact : ProcedureArtifact}
    (hlook : store.lookUpArtifact pkgs serde visit agentId call.outcome.procedureId =
      .ok (some artifact)) :
    call.run pkgs serde visit agentId store =
      store.upsertProcedureArtifactForAgent pkgs serde visit call.now call.newId agentId
        (artifact.afterOutcome call.outcome) := by
  rw [ReuseCall.run, GraphStore.recordProcedureReuseOutcomeForAgent, hlook]

/-- A call that records meets the condition. -/
theorem Recorded.recordable (h : Recorded pkgs serde visit agentId store call) :
    Recordable pkgs serde visit agentId store call := by
  obtain ⟨artifact, node, procedural, h⟩ := h
  obtain ⟨nodes, hnodes⟩ := lookUpArtifact_readable h.looked
  obtain ⟨picked, json, hpicked, hagent, hjson⟩ := exists_nodeOf hnodes h.looked
  have hid := (lookUpArtifact_some hnodes h.looked).1
  have hafter : (artifact.afterOutcome call.outcome).id = call.outcome.procedureId := hid
  have hresult := h.result
  rw [run_of_lookUp h.looked] at hresult
  cases hbytes : serde.toVec (artifact.afterOutcome call.outcome) with
  | error e =>
      rw [upsert_error hnodes (by rw [hafter]; exact hpicked) hbytes] at hresult
      cases hresult
  | ok bytes =>
      rw [upsert_eq hnodes (by rw [hafter]; exact hpicked) hjson hbytes] at hresult
      refine ⟨nodes, hnodes, (lookUpArtifact_isSome_iff hnodes).mp ⟨artifact, h.looked⟩, ?_, ?_⟩
      · intro other hother
        rw [h.looked, Except.ok.injEq, Option.some.injEq] at hother
        cases hother
        refine ⟨?_, bytes, hbytes⟩
        have hcount : min u32Max (artifact.observationCount + 1) =
            artifact.observationCount + 1 := h.observed.2
        omega
      · intro other hother
        rw [hpicked, Option.some.injEq] at hother
        cases hother
        exact (((writeNodeForId_spec pkgs call.now store _).1 _).mp hresult).2

/-- A call that meets the condition records. -/
theorem Recordable.recorded
    (hserde : ∀ artifact bytes, serde.toVec artifact = .ok bytes →
      serde.fromSlice bytes = .ok artifact)
    (h : Recordable pkgs serde visit agentId store call) :
    Recorded pkgs serde visit agentId store call := by
  obtain ⟨nodes, h⟩ := h
  obtain ⟨artifact, hlook⟩ := (lookUpArtifact_isSome_iff h.readable).mpr h.scored
  obtain ⟨picked, json, hpicked, hagent, hjson⟩ := exists_nodeOf h.readable hlook
  have hafter : (artifact.afterOutcome call.outcome).id = call.outcome.procedureId :=
    (lookUpArtifact_some h.readable hlook).1
  obtain ⟨hcount, bytes, hbytes⟩ := h.countable artifact hlook
  have hobserved : (artifact.afterOutcome call.outcome).observationCount =
      artifact.observationCount + 1 := by
    change min u32Max (artifact.observationCount + 1) = _
    omega
  have hrun : call.run pkgs serde visit agentId store = store.writeNodeForId pkgs call.now
      (nodeWith serde picked json (artifact.afterOutcome call.outcome) bytes) := by
    rw [run_of_lookUp hlook]
    exact upsert_eq h.readable (by rw [hafter]; exact hpicked) hjson hbytes
  have hwrite := writeNodeForId_spec pkgs call.now store
    (nodeWith serde picked json (artifact.afterOutcome call.outcome) bytes)
  rw [← hrun] at hwrite
  exact ⟨artifact, nodeWith serde picked json (artifact.afterOutcome call.outcome) bytes,
    (serde.proceduralOf json).withArtifact (artifact.afterOutcome call.outcome) bytes,
    { looked := hlook
      result := (hwrite.1 _).mpr ⟨rfl, h.targets picked hpicked⟩
      written := by
        rw [hwrite.2]
        exact find_replaceNode store _
      owner := hagent
      fields := rfl
      holds := hserde _ _ hbytes
      observed := ⟨hobserved, hobserved⟩ }⟩

end Step

/-! ### Every run -/

/-- For every store and every sequence of outcomes: each is recorded exactly if each can be in the
store it meets. -/
theorem reuse_recorded_iff {pkgs : Packages} {serde : ProcedureJson}
    {visit : List NodeRow → List NodeRow} {agentId : String}
    (hserde : ∀ artifact bytes, serde.toVec artifact = .ok bytes →
      serde.fromSlice bytes = .ok artifact) (store : GraphStore) (calls : List ReuseCall) :
    EveryCall pkgs serde visit agentId (Recorded pkgs serde visit agentId) store calls ↔
      EveryCall pkgs serde visit agentId (Recordable pkgs serde visit agentId) store calls := by
  constructor
  · intro h before call after hcalls
    exact (h before call after hcalls).recordable
  · intro h before call after hcalls
    exact (h before call after hcalls).recorded hserde

/-! ### A procedure that is lost -/

/-- The store holds a validated or promoted artifact of the agent under an id, for the search to
see. -/
def HoldsProcedure (pkgs : Packages) (serde : ProcedureJson) (store : GraphStore)
    (agentId procedureId : String) : Prop :=
  ∃ row ∈ store.nodes.entries, ∃ node artifact, row.nodeType = "procedural" ∧
    pkgs.nodeOfRow row = .ok node ∧ searchedArtifact serde agentId node = some artifact ∧
    artifact.id = procedureId ∧
    (artifact.lifecycle = .validated ∨ artifact.lifecycle = .promoted)

theorem mem_findByType {pkgs : Packages} {visit : List NodeRow → List NodeRow}
    {store : GraphStore} {typeName : String} {nodes : List AinlMemoryNode}
    (h : store.findByType pkgs visit typeName = .ok nodes) {node : AinlMemoryNode} :
    node ∈ nodes ↔ ∃ row ∈ visit store.nodes.entries, row.nodeType = typeName ∧
      pkgs.nodeOfRow row = .ok node := by
  rw [GraphStore.findByType] at h
  simp only [mem_of_mapM_ok h, List.mem_mergeSort, List.mem_filter, beq_iff_eq, and_assoc]

/-- An artifact that needs a tool, with a fitness of 1/16. -/
def weakArtifact : ProcedureArtifact where
  schemaVersion := 1
  id := "proc:review"
  title := "Review PR"
  intent := "review pull request"
  summary := "review code"
  requiredTools := ["file_read"]
  fitness := 1 / 16
  observationCount := 1
  lifecycle := .validated

/-- A failed reuse of it. -/
def failedReuse : ReuseCall := ⟨1, 2, { procedureId := "proc:review", outcome := .failure }⟩

/-- The artifact after the failure. -/
def spentArtifact : ProcedureArtifact := weakArtifact.afterOutcome failedReuse.outcome

/-- The text of both, by their fitness and their observations. -/
def artifactText (fitness count : String) : String :=
  "\x7b\"schema_version\":1,\"id\":\"proc:review\",\"title\":\"Review PR\"," ++
  "\"intent\":\"review pull request\",\"summary\":\"review code\"," ++
  "\"required_tools\":[\"file_read\"],\"required_adapters\":[],\"inputs\":[],\"outputs\":[]," ++
  "\"preconditions\":[],\"steps\":[],\"verification\":\x7b\"checks\":[]," ++
  "\"success_criteria\":[]\x7d,\"known_failures\":[],\"recovery\":[]," ++
  "\"source_trajectory_ids\":[],\"source_failure_ids\":[],\"fitness\":" ++ fitness ++
  ",\"observation_count\":" ++ count ++
  ",\"lifecycle\":\"validated\",\"render_targets\":[]\x7d"

/-- Its bytes. -/
@[irreducible] def artifactBytes (fitness count : String) : List UInt8 :=
  Utf8.encode (artifactText fitness count).toList

/-- The fields of the node of the artifact. -/
def weakProcedural : ProceduralNode :=
  { patternName := "proc:review", compiledGraph := artifactBytes "0.0625" "1", patchVersion := 1 :
    ProceduralNode }.withArtifact weakArtifact (artifactBytes "0.0625" "1")

/-- Its fields after the failure. -/
def spentProcedural : ProceduralNode :=
  weakProcedural.withArtifact spentArtifact (artifactBytes "0.0" "2")

/-- The fields of both as JSON, by the bits of their fitness, their observations and their
bytes. -/
@[irreducible] def proceduralJson (fitness : UInt64) (count : Int) (bytes : List UInt8) : Json :=
  .obj [("compiled_graph", .arr (bytes.map fun b => .int b.toNat)), ("confidence", .float fitness),
    ("declared_reads", .arr []), ("failure_count", .int 0), ("fitness", .float fitness),
    ("label", .str "proc:review"), ("last_invoked_at", .int 0), ("patch_version", .int 1),
    ("pattern_name", .str "proc:review"), ("pattern_observation_count", .int count),
    ("procedure_type", .str "tool_sequence"), ("prompt_eligible", .bool true),
    ("reinforcement_episode_ids", .arr []), ("retired", .bool false), ("success_count", .int 0),
    ("success_rate", .float 0x3FE0000000000000), ("suppression_episode_ids", .arr []),
    ("trigger_conditions", .arr [.str "review pull request"])]

def weakJson : Json := proceduralJson 0x3FB0000000000000 1 (artifactBytes "0.0625" "1")

def spentJson : Json := proceduralJson 0 2 (artifactBytes "0.0" "2")

/-- What `serde_json` does on both. -/
def reviewJson : ProcedureJson where
  proceduralOf json := if json = weakJson then weakProcedural else spentProcedural
  ofProcedural procedural := if procedural = weakProcedural then weakJson else spentJson
  toVec artifact :=
    if artifact = weakArtifact then .ok (artifactBytes "0.0625" "1")
    else if artifact = spentArtifact then .ok (artifactBytes "0.0" "2")
    else .error "number out of range"
  fromSlice bytes :=
    if bytes = artifactBytes "0.0625" "1" then .ok weakArtifact
    else if bytes = artifactBytes "0.0" "2" then .ok spentArtifact
    else .error "EOF while parsing a value at line 1 column 0"

/-- The node of the artifact, by its fields. -/
def reviewNode (json : Json) : AinlMemoryNode where
  id := 1
  memoryCategory := .procedural
  importanceScore := F32.half
  agentId := "a"
  projectId := none
  nodeType := .procedural json
  edges := []

/-- Its text, by the fitness and the observations of the artifact. -/
@[irreducible] def reviewText (fitness count : String) : String :=
  "\x7b\"id\":\"00000000-0000-0000-0000-000000000001\",\"memory_category\":\"procedural\"," ++
  "\"importance_score\":0.5,\"agent_id\":\"a\",\"node_type\":\x7b\"type\":\"procedural\"," ++
  "\"pattern_name\":\"proc:review\",\"compiled_graph\":[" ++
  join "," ((artifactBytes fitness count).map fun b => toString b.toNat) ++
  "],\"confidence\":" ++ fitness ++ ",\"procedure_type\":\"tool_sequence\"," ++
  "\"trigger_conditions\":[\"review pull request\"],\"success_count\":0,\"failure_count\":0," ++
  "\"success_rate\":0.5,\"last_invoked_at\":0,\"reinforcement_episode_ids\":[]," ++
  "\"suppression_episode_ids\":[],\"patch_version\":1,\"fitness\":" ++ fitness ++
  ",\"declared_reads\":[],\"retired\":false,\"label\":\"proc:review\"," ++
  "\"pattern_observation_count\":" ++ count ++ ",\"prompt_eligible\":true\x7d,\"edges\":[]\x7d"

/-- What the packages do on the node before and after. -/
def reviewPackages : Packages :=
  { failurePackages with
    nodeToString := fun node =>
      if node = reviewNode weakJson then reviewText "0.0625" "1" else reviewText "0.0" "2"
    wireFromStr := fun text =>
      if text = reviewText "0.0625" "1" then .ok (reviewNode weakJson).toWire
      else if text = reviewText "0.0" "2" then .ok (reviewNode spentJson).toWire
      else .error "EOF while parsing a value at line 1 column 0" }

/-- The store the artifact was written to. -/
def reviewStore : GraphStore :=
  (GraphStore.empty.writeProcedureArtifactForAgent reviewPackages reviewJson 0 1 "a"
    weakArtifact).2

theorem artifactText_ne : artifactText "0.0" "2" ≠ artifactText "0.0625" "1" :=
  Utf8.append_mark_ne rfl (by decide)

theorem artifactBytes_ne : artifactBytes "0.0" "2" ≠ artifactBytes "0.0625" "1" := by
  unfold artifactBytes
  exact fun h => artifactText_ne (String.toList_inj.mp (Utf8.encode_injective h))

theorem reviewText_ne : reviewText "0.0" "2" ≠ reviewText "0.0625" "1" := by
  unfold reviewText
  exact Utf8.append_mark_ne rfl (by decide)

theorem spentJson_ne : spentJson ≠ weakJson := by
  intro h
  have hcount := congrArg (Json.get "pattern_observation_count") h
  have hspent : spentJson.get "pattern_observation_count" = some (.int 2) := by
    unfold spentJson proceduralJson
    rfl
  have hweak : weakJson.get "pattern_observation_count" = some (.int 1) := by
    unfold weakJson proceduralJson
    rfl
  rw [hspent, hweak] at hcount
  cases hcount

theorem spentArtifact_ne : spentArtifact ≠ weakArtifact := by
  intro h
  have hcount := congrArg ProcedureArtifact.observationCount h
  revert hcount
  decide

theorem spentArtifact_unfit : ¬ 0 < spentArtifact.fitness := by decide +kernel

theorem toVec_weak : reviewJson.toVec weakArtifact = .ok (artifactBytes "0.0625" "1") := if_pos rfl

theorem toVec_spent : reviewJson.toVec spentArtifact = .ok (artifactBytes "0.0" "2") :=
  (if_neg spentArtifact_ne).trans (if_pos rfl)

theorem fromSlice_weak : reviewJson.fromSlice (artifactBytes "0.0625" "1") = .ok weakArtifact :=
  if_pos rfl

theorem fromSlice_spent : reviewJson.fromSlice (artifactBytes "0.0" "2") = .ok spentArtifact :=
  (if_neg artifactBytes_ne).trans (if_pos rfl)

/-- What is written as JSON is read back. -/
theorem reviewJson_reads (artifact : ProcedureArtifact) (bytes : List UInt8)
    (h : reviewJson.toVec artifact = .ok bytes) : reviewJson.fromSlice bytes = .ok artifact := by
  by_cases hweak : artifact = weakArtifact
  · subst hweak
    rw [toVec_weak] at h
    cases h
    exact fromSlice_weak
  · by_cases hspent : artifact = spentArtifact
    · subst hspent
      rw [toVec_spent] at h
      cases h
      exact fromSlice_spent
    · have herror : reviewJson.toVec artifact = .error "number out of range" :=
        (if_neg hweak).trans (if_neg hspent)
      rw [herror] at h
      cases h

theorem artifactBytes_ne_nil (fitness count : String) : artifactBytes fitness count ≠ [] := by
  intro h
  unfold artifactBytes artifactText at h
  have htext := Utf8.encode_injective (h.trans Utf8.encode_nil.symm)
  rw [String.toList_append, List.append_eq_nil_iff, String.toList_eq_nil_iff,
    String.toList_eq_nil_iff] at htext
  exact absurd htext.2 (by decide)

theorem ofProcedural_weak : reviewJson.ofProcedural weakProcedural = weakJson := if_pos rfl

theorem ofProcedural_spent : reviewJson.ofProcedural spentProcedural = spentJson := by
  refine if_neg fun h => ?_
  have hcount := congrArg ProceduralNode.patternObservationCount h
  revert hcount
  decide

theorem proceduralOf_weak : reviewJson.proceduralOf weakJson = weakProcedural := if_pos rfl

theorem proceduralOf_spent : reviewJson.proceduralOf spentJson = spentProcedural :=
  if_neg spentJson_ne

/-- The node is searched for the artifact before the failure, -/
theorem searched_weak :
    searchedArtifact reviewJson "a" (reviewNode weakJson) = some weakArtifact :=
  searchedArtifact_eq rfl (congrArg some proceduralOf_weak) rfl (artifactBytes_ne_nil _ _)
    fromSlice_weak (by decide)

/-- and after it. -/
theorem searched_spent :
    searchedArtifact reviewJson "a" (reviewNode spentJson) = some spentArtifact :=
  searchedArtifact_eq rfl (congrArg some proceduralOf_spent) rfl (artifactBytes_ne_nil _ _)
    fromSlice_spent (by decide)

theorem nodeToString_weak :
    reviewPackages.nodeToString (reviewNode weakJson) = reviewText "0.0625" "1" :=
  if_pos rfl

theorem nodeToString_spent :
    reviewPackages.nodeToString (reviewNode spentJson) = reviewText "0.0" "2" := by
  refine if_neg fun h => ?_
  have hjson := congrArg AinlMemoryNode.nodeType h
  exact spentJson_ne (AinlNodeType.procedural.inj hjson)

theorem nodeOfRow_weak (now : Int) :
    reviewPackages.nodeOfRow (nodeRow reviewPackages now (reviewNode weakJson)) =
      .ok (reviewNode weakJson) := by
  have hwire : reviewPackages.wireFromStr (reviewText "0.0625" "1") =
      .ok (reviewNode weakJson).toWire := if_pos rfl
  rw [Packages.nodeOfRow, Packages.nodeFromStr, nodeRow]
  dsimp only
  rw [nodeToString_weak, hwire]
  rfl

theorem nodeOfRow_spent (now : Int) :
    reviewPackages.nodeOfRow (nodeRow reviewPackages now (reviewNode spentJson)) =
      .ok (reviewNode spentJson) := by
  have hwire : reviewPackages.wireFromStr (reviewText "0.0" "2") =
      .ok (reviewNode spentJson).toWire := (if_neg reviewText_ne).trans (if_pos rfl)
  rw [Packages.nodeOfRow, Packages.nodeFromStr, nodeRow]
  dsimp only
  rw [nodeToString_spent, hwire]
  rfl

theorem entries_reviewStore :
    reviewStore.nodes.entries = [nodeRow reviewPackages 0 (reviewNode weakJson)] := by
  have hwrite : GraphStore.empty.writeProcedureArtifactForAgent reviewPackages reviewJson 0 1 "a"
      weakArtifact = GraphStore.empty.writeNodeForId reviewPackages 0
        (reviewNode (reviewJson.ofProcedural weakProcedural)) := by
    rw [GraphStore.writeProcedureArtifactForAgent, toVec_weak]
    rfl
  rw [reviewStore, hwrite, ofProcedural_weak]
  rfl

/-- A reuse that succeeds, after the failure. -/
def laterReuse : ReuseCall := ⟨2, 3, { procedureId := "proc:review", outcome := .success }⟩

/-- The nodes read from the store are all the one of the artifact. -/
theorem eq_weak_of_mem {nodes : List AinlMemoryNode} {node : AinlMemoryNode}
    (hnodes : reviewStore.findByType reviewPackages List.reverse "procedural" = .ok nodes)
    (hnode : node ∈ nodes) : node = reviewNode weakJson := by
  obtain ⟨row, hrow, _, hread⟩ := (mem_findByType hnodes).mp hnode
  rw [entries_reviewStore, List.reverse_singleton, List.mem_singleton] at hrow
  rw [hrow, nodeOfRow_weak] at hread
  exact (Except.ok.inj hread).symm

/-- The failure rewrites the node. -/
theorem rows_after_failure
    (h : Recorded reviewPackages reviewJson List.reverse "a" reviewStore failedReuse)
    {row : NodeRow}
    (hrow : row ∈ (failedReuse.run reviewPackages reviewJson List.reverse "a"
      reviewStore).2.nodes.entries) :
    row = nodeRow reviewPackages 1 (reviewNode spentJson) := by
  obtain ⟨artifact, _, _, h⟩ := h
  obtain ⟨nodes, hnodes⟩ := lookUpArtifact_readable h.looked
  obtain ⟨hid, node, hnode, hsearched⟩ := lookUpArtifact_some hnodes h.looked
  obtain ⟨picked, json, hpicked, _, hjson⟩ := exists_nodeOf hnodes h.looked
  have hweak := eq_weak_of_mem hnodes (List.mem_of_find?_eq_some hpicked)
  rw [eq_weak_of_mem hnodes hnode, searched_weak, Option.some.injEq] at hsearched
  subst hsearched hweak
  cases hjson
  have hupsert := @upsert_eq reviewPackages reviewJson List.reverse "a" reviewStore 1 2 nodes
    (reviewNode weakJson) weakJson spentArtifact (artifactBytes "0.0" "2") hnodes hpicked rfl
    toVec_spent
  have hrun := (run_of_lookUp h.looked).trans hupsert
  have hnode : nodeWith reviewJson (reviewNode weakJson) weakJson spentArtifact
      (artifactBytes "0.0" "2") = reviewNode spentJson := by
    rw [nodeWith, proceduralOf_weak, ← spentProcedural, ofProcedural_spent]
    rfl
  have hrows := (writeNodeForId_spec reviewPackages 1 reviewStore (reviewNode spentJson)).2
  rw [hrun, hnode, hrows, GraphStore.mem_replaceNode_nodes, entries_reviewStore,
    List.mem_singleton] at hrow
  rcases hrow with hrow | ⟨hrow, hother⟩
  · exact hrow
  · have hid : row.id = 1 := congrArg NodeRow.id hrow
    exact absurd hid hother

/-- A validated artifact that needs a tool: a failure takes its fitness to 0, and the next outcome
finds no artifact. -/
theorem reuse_lost_after_failure :
    ¬ ∀ (store : GraphStore) (agentId procedureId : String) (calls : List ReuseCall),
      HoldsProcedure reviewPackages reviewJson store agentId procedureId →
      (∀ call ∈ calls, call.outcome.procedureId = procedureId) →
      EveryCall reviewPackages reviewJson List.reverse agentId
        (Recorded reviewPackages reviewJson List.reverse agentId) store calls := by
  intro h
  have hholds : HoldsProcedure reviewPackages reviewJson reviewStore "a" "proc:review" := by
    refine ⟨nodeRow reviewPackages 0 (reviewNode weakJson), ?_, reviewNode weakJson, weakArtifact,
      rfl, nodeOfRow_weak 0, searched_weak, rfl, .inl rfl⟩
    rw [entries_reviewStore]
    exact List.mem_singleton_self _
  have hcalls : ∀ call ∈ [failedReuse, laterReuse],
      call.outcome.procedureId = "proc:review" := by decide
  have hevery := h reviewStore "a" "proc:review" [failedReuse, laterReuse] hholds hcalls
  have hfirst := hevery [] failedReuse [laterReuse] rfl
  have hlater := hevery [failedReuse] laterReuse [] rfl
  rw [runCalls_nil] at hfirst
  rw [runCalls_singleton] at hlater
  obtain ⟨nodes, hlater⟩ := hlater.recordable
  obtain ⟨node, hnode, artifact, hsearched, _, hscored⟩ := hlater.scored
  obtain ⟨row, hrow, _, hread⟩ := (mem_findByType hlater.readable).mp hnode
  rw [rows_after_failure hfirst (List.mem_reverse.mp hrow), nodeOfRow_spent,
    Except.ok.injEq] at hread
  rw [← hread, searched_spent, Option.some.injEq] at hsearched
  rw [← hsearched] at hscored
  rcases hscored with htools | hfitness
  · exact absurd htools (List.cons_ne_nil _ _)
  · exact absurd hfitness spentArtifact_unfit

/-- The failure and what follows it. -/
theorem reuse_recorded_iff_review :
    EveryCall reviewPackages reviewJson List.reverse "a"
        (Recorded reviewPackages reviewJson List.reverse "a") reviewStore
        [failedReuse, laterReuse] ↔
      EveryCall reviewPackages reviewJson List.reverse "a"
        (Recordable reviewPackages reviewJson List.reverse "a") reviewStore
        [failedReuse, laterReuse] :=
  reuse_recorded_iff reviewJson_reads reviewStore [failedReuse, laterReuse]

end ArmaraOS.Memory
