import ArmaraOS.Lib.Fallible
import ArmaraOS.Lib.StableSort
import ArmaraOS.Memory.GraphSnapshots

/-!
What an agent recalls from the graph memory (`recall_by_type` and
`find_procedural_by_tool_sequence` in `ainl-memory/src/lib.rs`, `build_snapshot` in
`ainl-agent-snapshot/src/builder.rs`).

The nodes of all agents stand in one table. A recall takes the 500 newest rows of a kind and only
then looks at whose they are; so the other agents' rows can crowd out an agent's own, and one of
them that cannot be read fails the recall of all.
-/

namespace ArmaraOS.Memory

open ArmaraOS.Lib ArmaraOS.Text

/-! ### Recall -/

/-- `AinlNodeKind`. -/
inductive AinlNodeKind where
  | episode
  | semantic
  | procedural
  | persona
  | runtimeState
  | trajectory
  | failure
deriving DecidableEq

/-- `AinlNodeKind::as_str`. -/
def AinlNodeKind.asStr : AinlNodeKind → String
  | .episode => "episode"
  | .semantic => "semantic"
  | .procedural => "procedural"
  | .persona => "persona"
  | .runtimeState => "runtime_state"
  | .trajectory => "trajectory"
  | .failure => "failure"

/-- `tool_sequence` of a procedural node. -/
def toolSequenceOf (procedural : Json) : List String :=
  match procedural.get "tool_sequence" with
  | some (.arr items) => items.filterMap Json.asStr
  | _ => []

/-- A procedural node whose tools are those of `norm`, blanks around them aside. -/
def hasToolSequence (norm : List String) (node : AinlMemoryNode) : Bool :=
  match node.nodeType with
  | .procedural procedural =>
      (toolSequenceOf procedural).length == norm.length &&
        ((toolSequenceOf procedural).zip norm).all fun pair => trim pair.1 == trim pair.2
  | _ => false

/-- The node in the payload of a row. -/
def Packages.nodeOfRow (pkgs : Packages) (row : NodeRow) : Except String AinlMemoryNode :=
  pkgs.nodeFromStr row.payload

/-- A row is not older than another. -/
def NodeRow.notOlder (a b : NodeRow) : Bool := decide (b.timestamp ≤ a.timestamp)

namespace GraphStore

section Recall

variable (pkgs : Packages) (visit : List NodeRow → List NodeRow) (store : GraphStore)

/-- The rows `query_nodes_by_type_since` selects. `visit` is the order in which SQLite comes by the
rows of the table; among equal timestamps it keeps that order. -/
def newestRows (nodeType : String) (sinceTimestamp : Int) (limit : Nat) : List NodeRow :=
  (((visit store.nodes.entries).filter fun row =>
    row.nodeType == nodeType && decide (sinceTimestamp ≤ row.timestamp)).mergeSort
      NodeRow.notOlder).take limit

/-- `query_nodes_by_type_since`. -/
def queryNodesByTypeSince (nodeType : String) (sinceTimestamp : Int) (limit : Nat) :
    Except String (List AinlMemoryNode) :=
  (store.newestRows visit nodeType sinceTimestamp limit).mapM pkgs.nodeOfRow

/-- `recall_by_type`, where the clock shows `now`. -/
def recallByType (now : Int) (kind : AinlNodeKind) (secondsAgo : Int) :
    Except String (List AinlMemoryNode) :=
  store.queryNodesByTypeSince pkgs visit kind.asStr (now - secondsAgo) 500

/-- `find_procedural_by_tool_sequence`. -/
def findProceduralByToolSequence (now : Int) (agentId : String) (toolSequence : List String) :
    Except String (Option AinlMemoryNode) :=
  let norm := toolSequence.map trim
  if norm.isEmpty then .ok none
  else
    (store.recallByType pkgs visit now .procedural (60 * 60 * 24 * 365 * 5)).map fun nodes =>
      nodes.find? fun n => n.agentId == agentId && hasToolSequence norm n

end Recall

end GraphStore

/-! ### Snapshots for the planner -/

/-- `DEFAULT_NON_EPISODIC_WINDOW_SECS`: 30 days. -/
def defaultNonEpisodicWindowSecs : Int := 86400 * 30

/-- `SnapshotPolicy`. -/
structure SnapshotPolicy where
  episodicWindowSecs : Int := 1800
  episodicMax : Nat := 10
  semanticTopN : Nat := 20
  proceduralTopN : Nat := 10
  personaTopN : Nat := 5
  nonEpisodicWindowSecs : Int := defaultNonEpisodicWindowSecs

/-- `DEFAULT_MAX_WALL_MS`. -/
def defaultMaxWallMs : Nat := 60000

/-- `DEFAULT_MAX_REPLAN_CALLS`. -/
def defaultMaxReplanCalls : Nat := 3

/-- `PolicyCaps`. -/
structure PolicyCaps where
  maxSteps : Nat := 32
  maxDepth : Nat := 8
  maxWallMs : Nat := defaultMaxWallMs
  maxReplanCalls : Nat := defaultMaxReplanCalls
  denyTools : List String := []

/-- `AgentSnapshot`. -/
structure AgentSnapshot where
  agentId : String
  snapshotVersion : Nat
  persona : List AinlMemoryNode
  episodic : List AinlMemoryNode
  semantic : List AinlMemoryNode
  procedural : List AinlMemoryNode
  toolAllowlist : List String
  policyCaps : PolicyCaps

/-- `SNAPSHOT_SCHEMA_VERSION` of `ainl-agent-snapshot`. -/
def agentSnapshotSchemaVersion : Nat := 1

/-- `SnapshotError`. -/
inductive SnapshotError where
  | graph (error : String)

/-- A node of the agent. -/
def ofAgent (agentId : String) (node : AinlMemoryNode) : Bool := node.agentId == agentId

/-- The test of `filter_agent`: a node of the agent or of nobody. -/
def ofAgentOrNobody (agentId : String) (node : AinlMemoryNode) : Bool :=
  node.agentId == agentId || node.agentId.isEmpty

/-- `build_snapshot`. The clock shows `now n` at the `n`-th of its recalls. -/
def GraphStore.buildSnapshot (pkgs : Packages) (visit : List NodeRow → List NodeRow)
    (now : Nat → Int) (gm : GraphStore) (agentId : String) (policy : SnapshotPolicy)
    (toolAllowlist : List String) (policyCaps : PolicyCaps) :
    Except SnapshotError AgentSnapshot := do
  let filterAgent := List.filter (ofAgentOrNobody agentId)
  let episodicRaw ← (gm.recallByType pkgs visit (now 0) .episode
    policy.episodicWindowSecs).mapError .graph
  let episodic := (filterAgent episodicRaw).take policy.episodicMax
  let longWindowSecs := policy.nonEpisodicWindowSecs
  let semanticRaw ← (gm.recallByType pkgs visit (now 1) .semantic longWindowSecs).mapError .graph
  let semantic := (filterAgent semanticRaw).take policy.semanticTopN
  let proceduralRaw ← (gm.recallByType pkgs visit (now 2) .procedural
    longWindowSecs).mapError .graph
  let procedural := (filterAgent proceduralRaw).take policy.proceduralTopN
  let personaRaw ← (gm.recallByType pkgs visit (now 3) .persona longWindowSecs).mapError .graph
  let persona := (filterAgent personaRaw).take policy.personaTopN
  return {
    agentId := agentId
    snapshotVersion := agentSnapshotSchemaVersion
    persona := persona
    episodic := episodic
    semantic := semantic
    procedural := procedural
    toolAllowlist := toolAllowlist
    policyCaps := policyCaps }

/-! ### Two stores -/

/-- The row holds a node that passes a test. -/
def holds (pkgs : Packages) (p : AinlMemoryNode → Bool) (row : NodeRow) : Bool :=
  (pkgs.nodeOfRow row).toOption.any p

/-- The stores have the same rows of the agent and of nobody. They may differ in the rows of other
agents and in those that hold no node. -/
def SameNodes (pkgs : Packages) (agentId : String) (store store' : GraphStore) : Prop :=
  store.nodes.entries.filter (holds pkgs (ofAgentOrNobody agentId)) =
    store'.nodes.entries.filter (holds pkgs (ofAgentOrNobody agentId))

/-- The agent recalls the same from two stores. -/
structure RecallsAlike (pkgs : Packages) (visit : List NodeRow → List NodeRow) (now : Nat → Int)
    (agentId : String) (store store' : GraphStore) : Prop where
  byType : ∀ kind secondsAgo,
    (store.recallByType pkgs visit (now 0) kind secondsAgo).map (List.filter (ofAgent agentId)) =
      (store'.recallByType pkgs visit (now 0) kind secondsAgo).map
        (List.filter (ofAgent agentId))
  find : ∀ toolSequence,
    store.findProceduralByToolSequence pkgs visit (now 0) agentId toolSequence =
      store'.findProceduralByToolSequence pkgs visit (now 0) agentId toolSequence
  snapshot : ∀ policy toolAllowlist policyCaps,
    store.buildSnapshot pkgs visit now agentId policy toolAllowlist policyCaps =
      store'.buildSnapshot pkgs visit now agentId policy toolAllowlist policyCaps

/-- The rows a recall reads: the 500 newest of a kind in a window. -/
def GraphStore.recalledRows (visit : List NodeRow → List NodeRow) (store : GraphStore)
    (kind : AinlNodeKind) (since : Int) : List NodeRow :=
  store.newestRows visit kind.asStr since 500

/-- The recalls of `build_snapshot`. -/
def snapshotRecalls (now : Nat → Int) (episodicWindow longWindow : Int) :
    List (AinlNodeKind × Int) :=
  [(.episode, now 0 - episodicWindow), (.semantic, now 1 - longWindow),
    (.procedural, now 2 - longWindow), (.persona, now 3 - longWindow)]

/-- Among the 500 newest rows of a kind the same number is the agent's in both stores, and among
those a snapshot reads also the same number the agent's or nobody's. Where a row cannot be read,
the first such row says the same. -/
structure SameShare (pkgs : Packages) (visit : List NodeRow → List NodeRow) (now : Nat → Int)
    (agentId : String) (store store' : GraphStore) : Prop where
  unread : ∀ kind since,
    firstError pkgs.nodeOfRow (store.recalledRows visit kind since) =
      firstError pkgs.nodeOfRow (store'.recalledRows visit kind since)
  own : ∀ kind since, firstError pkgs.nodeOfRow (store.recalledRows visit kind since) = none →
    (store.recalledRows visit kind since).countP (holds pkgs (ofAgent agentId)) =
      (store'.recalledRows visit kind since).countP (holds pkgs (ofAgent agentId))
  shown : ∀ episodicWindow longWindow,
    (∀ q ∈ snapshotRecalls now episodicWindow longWindow,
      firstError pkgs.nodeOfRow (store.recalledRows visit q.1 q.2) = none) →
    ∀ q ∈ snapshotRecalls now episodicWindow longWindow,
      (store.recalledRows visit q.1 q.2).countP (holds pkgs (ofAgentOrNobody agentId)) =
        (store'.recalledRows visit q.1 q.2).countP (holds pkgs (ofAgentOrNobody agentId))

section Recalls

variable {pkgs : Packages} {visit : List NodeRow → List NodeRow} {now : Nat → Int}
  {agentId : String} {store store' : GraphStore} {p : AinlMemoryNode → Bool}

theorem notOlder_trans (a b c : NodeRow) (hab : a.notOlder b = true) (hbc : b.notOlder c = true) :
    a.notOlder c = true := by
  rw [NodeRow.notOlder, decide_eq_true_eq] at *
  omega

theorem notOlder_total (a b : NodeRow) : (a.notOlder b || b.notOlder a) = true := by
  rw [Bool.or_eq_true, NodeRow.notOlder, NodeRow.notOlder, decide_eq_true_eq, decide_eq_true_eq]
  omega

/-- The rows that pass are the first of all rows that would. -/
theorem filter_newestRows (hvisit : ∀ p rows, (visit rows).filter p = visit (rows.filter p))
    (p : NodeRow → Bool) (store : GraphStore) (nodeType : String) (since : Int) (limit : Nat) :
    (store.newestRows visit nodeType since limit).filter p =
      (((visit (store.nodes.entries.filter p)).filter fun row =>
        row.nodeType == nodeType && decide (since ≤ row.timestamp)).mergeSort
          NodeRow.notOlder).take ((store.newestRows visit nodeType since limit).countP p) := by
  rw [GraphStore.newestRows, filter_take, filter_mergeSort notOlder_trans notOlder_total,
    List.filter_comm, hvisit p]

/-- Two recalls show the same nodes that pass exactly if they show as many, where the stores have
the same. -/
theorem filter_recalled_iff (hvisit : ∀ p rows, (visit rows).filter p = visit (rows.filter p))
    (hsame : store.nodes.entries.filter (holds pkgs p) =
      store'.nodes.entries.filter (holds pkgs p)) (kind : AinlNodeKind) (since : Int) :
    (readItems pkgs.nodeOfRow (store.recalledRows visit kind since)).filter p =
        (readItems pkgs.nodeOfRow (store'.recalledRows visit kind since)).filter p ↔
      (store.recalledRows visit kind since).countP (holds pkgs p) =
        (store'.recalledRows visit kind since).countP (holds pkgs p) := by
  have hread : ∀ rows : List NodeRow,
      ((readItems pkgs.nodeOfRow rows).filter p).length = rows.countP (holds pkgs p) := by
    intro rows
    rw [filter_readItems, length_readItems, List.countP_eq_length_filter]
    · rfl
    · intro row hrow
      exact Option.isSome_of_any (List.mem_filter.mp hrow).2
  constructor
  · intro h
    rw [← hread, ← hread, h]
  · intro h
    rw [filter_readItems, filter_readItems]
    have hrows := filter_newestRows hvisit (holds pkgs p) store kind.asStr since 500
    have hrows' := filter_newestRows hvisit (holds pkgs p) store' kind.asStr since 500
    rw [← hsame, ← GraphStore.recalledRows, ← h] at hrows'
    exact congrArg (readItems pkgs.nodeOfRow) (hrows.trans hrows'.symm)

theorem recallByType_eq (pkgs : Packages) (visit : List NodeRow → List NodeRow)
    (store : GraphStore) (clock : Int) (kind : AinlNodeKind) (secondsAgo : Int) :
    store.recallByType pkgs visit clock kind secondsAgo =
      (firstError pkgs.nodeOfRow (store.recalledRows visit kind (clock - secondsAgo))).elim
        (.ok (readItems pkgs.nodeOfRow (store.recalledRows visit kind (clock - secondsAgo))))
        .error :=
  mapM_eq_firstError _ _

/-- The nodes that pass are recalled alike. -/
theorem map_recall_iff (hvisit : ∀ p rows, (visit rows).filter p = visit (rows.filter p))
    (hsame : store.nodes.entries.filter (holds pkgs p) =
      store'.nodes.entries.filter (holds pkgs p)) (clock : Int) (kind : AinlNodeKind)
    (secondsAgo : Int) :
    (store.recallByType pkgs visit clock kind secondsAgo).map (List.filter p) =
        (store'.recallByType pkgs visit clock kind secondsAgo).map (List.filter p) ↔
      firstError pkgs.nodeOfRow (store.recalledRows visit kind (clock - secondsAgo)) =
          firstError pkgs.nodeOfRow (store'.recalledRows visit kind (clock - secondsAgo)) ∧
        (firstError pkgs.nodeOfRow (store.recalledRows visit kind (clock - secondsAgo)) = none →
          (store.recalledRows visit kind (clock - secondsAgo)).countP (holds pkgs p) =
            (store'.recalledRows visit kind (clock - secondsAgo)).countP (holds pkgs p)) := by
  have hnodes := filter_recalled_iff hvisit hsame kind (clock - secondsAgo)
  rw [recallByType_eq, recallByType_eq]
  cases firstError pkgs.nodeOfRow (store.recalledRows visit kind (clock - secondsAgo)) with
  | none =>
      cases firstError pkgs.nodeOfRow (store'.recalledRows visit kind (clock - secondsAgo)) with
      | none => simpa [Except.map] using hnodes
      | some e => simp [Except.map]
  | some e =>
      cases firstError pkgs.nodeOfRow (store'.recalledRows visit kind (clock - secondsAgo)) with
      | none => simp [Except.map]
      | some e' => simp [Except.map]

theorem holds_ofAgentOrNobody {row : NodeRow} (h : holds pkgs (ofAgent agentId) row = true) :
    holds pkgs (ofAgentOrNobody agentId) row = true := by
  rw [holds, Option.any_eq_true] at h ⊢
  obtain ⟨node, hnode, hown⟩ := h
  exact ⟨node, hnode, Bool.or_eq_true_iff.mpr (.inl hown)⟩

/-- An agent's own rows are among those it may be shown. -/
theorem SameNodes.own (h : SameNodes pkgs agentId store store') :
    store.nodes.entries.filter (holds pkgs (ofAgent agentId)) =
      store'.nodes.entries.filter (holds pkgs (ofAgent agentId)) := by
  have hown : ∀ rows : List NodeRow, rows.filter (holds pkgs (ofAgent agentId)) =
      (rows.filter (holds pkgs (ofAgentOrNobody agentId))).filter
        (holds pkgs (ofAgent agentId)) := by
    intro rows
    rw [List.filter_filter]
    refine List.filter_congr fun row _ => ?_
    cases hrow : holds pkgs (ofAgent agentId) row with
    | false => rfl
    | true => rw [holds_ofAgentOrNobody hrow, Bool.and_true]
  rw [hown, h, ← hown]

/-- The search looks only at the agent's nodes. -/
theorem findProcedural_eq (pkgs : Packages) (visit : List NodeRow → List NodeRow)
    (store : GraphStore) (clock : Int) (agentId : String) (toolSequence : List String)
    (h : (toolSequence.map trim).isEmpty = false) :
    store.findProceduralByToolSequence pkgs visit clock agentId toolSequence =
      ((store.recallByType pkgs visit clock .procedural (60 * 60 * 24 * 365 * 5)).map
        (List.filter (ofAgent agentId))).map
          (List.find? (hasToolSequence (toolSequence.map trim))) := by
  rw [GraphStore.findProceduralByToolSequence]
  simp only [h, Bool.false_eq_true, if_false]
  cases store.recallByType pkgs visit clock .procedural (60 * 60 * 24 * 365 * 5) with
  | error e => rfl
  | ok nodes =>
      simp only [Except.map, List.find?_filter, Bool.decide_and, Bool.decide_eq_true]
      rfl

theorem find_alike
    (h : ∀ kind secondsAgo,
      (store.recallByType pkgs visit (now 0) kind secondsAgo).map
          (List.filter (ofAgent agentId)) =
        (store'.recallByType pkgs visit (now 0) kind secondsAgo).map
          (List.filter (ofAgent agentId))) (toolSequence : List String) :
    store.findProceduralByToolSequence pkgs visit (now 0) agentId toolSequence =
      store'.findProceduralByToolSequence pkgs visit (now 0) agentId toolSequence := by
  cases hempty : (toolSequence.map trim).isEmpty with
  | true => simp [GraphStore.findProceduralByToolSequence, hempty]
  | false => rw [findProcedural_eq (h := hempty), findProcedural_eq (h := hempty), h]

/-- What a snapshot shows of the nodes its recalls return. -/
def shownNodes (agentId : String) (policy : SnapshotPolicy) (toolAllowlist : List String)
    (policyCaps : PolicyCaps) (episodic semantic procedural persona : List AinlMemoryNode) :
    AgentSnapshot where
  agentId := agentId
  snapshotVersion := agentSnapshotSchemaVersion
  persona := (persona.filter (ofAgentOrNobody agentId)).take policy.personaTopN
  episodic := (episodic.filter (ofAgentOrNobody agentId)).take policy.episodicMax
  semantic := (semantic.filter (ofAgentOrNobody agentId)).take policy.semanticTopN
  procedural := (procedural.filter (ofAgentOrNobody agentId)).take policy.proceduralTopN
  toolAllowlist := toolAllowlist
  policyCaps := policyCaps

theorem recall_ok {clock : Int} {kind : AinlNodeKind} {secondsAgo : Int}
    (h : firstError pkgs.nodeOfRow (store.recalledRows visit kind (clock - secondsAgo)) = none) :
    store.recallByType pkgs visit clock kind secondsAgo =
      .ok (readItems pkgs.nodeOfRow (store.recalledRows visit kind (clock - secondsAgo))) := by
  rw [recallByType_eq, h]
  rfl

/-- A snapshot that has room for all nodes has them all. -/
theorem shownNodes_inj {episodicWindow longWindow : Int} {toolAllowlist : List String}
    {policyCaps : PolicyCaps} {limit : Nat}
    {episodic semantic procedural persona episodic' semantic' procedural' persona' :
      List AinlMemoryNode}
    (h : shownNodes agentId ⟨episodicWindow, limit, limit, limit, limit, longWindow⟩ toolAllowlist
        policyCaps episodic semantic procedural persona =
      shownNodes agentId ⟨episodicWindow, limit, limit, limit, limit, longWindow⟩ toolAllowlist
        policyCaps episodic' semantic' procedural' persona')
    (hfits : ∀ nodes ∈ [episodic, semantic, procedural, persona, episodic', semantic', procedural',
      persona'], (nodes.filter (ofAgentOrNobody agentId)).length ≤ limit) :
    episodic.filter (ofAgentOrNobody agentId) = episodic'.filter (ofAgentOrNobody agentId) ∧
      semantic.filter (ofAgentOrNobody agentId) = semantic'.filter (ofAgentOrNobody agentId) ∧
      procedural.filter (ofAgentOrNobody agentId) =
        procedural'.filter (ofAgentOrNobody agentId) ∧
      persona.filter (ofAgentOrNobody agentId) = persona'.filter (ofAgentOrNobody agentId) := by
  simp only [List.forall_mem_cons] at hfits
  obtain ⟨he, hs, hp, hn, he', hs', hp', hn', _⟩ := hfits
  simp only [shownNodes, AgentSnapshot.mk.injEq, List.take_of_length_le he,
    List.take_of_length_le hs, List.take_of_length_le hp, List.take_of_length_le hn,
    List.take_of_length_le he', List.take_of_length_le hs', List.take_of_length_le hp',
    List.take_of_length_le hn'] at h
  exact ⟨h.2.2.2.1, h.2.2.2.2.1, h.2.2.2.2.2.1, h.2.2.1⟩

theorem buildSnapshot_ok (policy : SnapshotPolicy) (toolAllowlist : List String)
    (policyCaps : PolicyCaps) {episodic semantic procedural persona : List AinlMemoryNode}
    (hepisode : store.recallByType pkgs visit (now 0) .episode policy.episodicWindowSecs =
      .ok episodic)
    (hsemantic : store.recallByType pkgs visit (now 1) .semantic policy.nonEpisodicWindowSecs =
      .ok semantic)
    (hprocedural : store.recallByType pkgs visit (now 2) .procedural
      policy.nonEpisodicWindowSecs = .ok procedural)
    (hpersona : store.recallByType pkgs visit (now 3) .persona policy.nonEpisodicWindowSecs =
      .ok persona) :
    store.buildSnapshot pkgs visit now agentId policy toolAllowlist policyCaps =
      .ok (shownNodes agentId policy toolAllowlist policyCaps episodic semantic procedural
        persona) := by
  simp only [GraphStore.buildSnapshot, hepisode, hsemantic, hprocedural, hpersona]
  rfl

/-- A recall that meets the same errors in both stores fails in both or in neither. -/
theorem recall_cases
    (h : ∀ kind since, firstError pkgs.nodeOfRow (store.recalledRows visit kind since) =
      firstError pkgs.nodeOfRow (store'.recalledRows visit kind since)) (clock : Int)
    (kind : AinlNodeKind) (secondsAgo : Int) :
    (∃ e, store.recallByType pkgs visit clock kind secondsAgo = .error e ∧
      store'.recallByType pkgs visit clock kind secondsAgo = .error e) ∨
    (firstError pkgs.nodeOfRow (store.recalledRows visit kind (clock - secondsAgo)) = none ∧
      store.recallByType pkgs visit clock kind secondsAgo =
        .ok (readItems pkgs.nodeOfRow (store.recalledRows visit kind (clock - secondsAgo))) ∧
      store'.recallByType pkgs visit clock kind secondsAgo =
        .ok (readItems pkgs.nodeOfRow (store'.recalledRows visit kind (clock - secondsAgo)))) := by
  rw [recallByType_eq, recallByType_eq, ← h]
  cases firstError pkgs.nodeOfRow (store.recalledRows visit kind (clock - secondsAgo)) with
  | some e => exact .inl ⟨e, rfl, rfl⟩
  | none => exact .inr ⟨rfl, rfl, rfl⟩

theorem snapshot_alike (hvisit : ∀ p rows, (visit rows).filter p = visit (rows.filter p))
    (hsame : SameNodes pkgs agentId store store')
    (h : SameShare pkgs visit now agentId store store') (policy : SnapshotPolicy)
    (toolAllowlist : List String) (policyCaps : PolicyCaps) :
    store.buildSnapshot pkgs visit now agentId policy toolAllowlist policyCaps =
      store'.buildSnapshot pkgs visit now agentId policy toolAllowlist policyCaps := by
  rcases recall_cases h.unread (now 0) .episode policy.episodicWindowSecs with
    ⟨e, hs, hs'⟩ | ⟨hepisode, he, he'⟩
  · rw [GraphStore.buildSnapshot, GraphStore.buildSnapshot, hs, hs']
    rfl
  rcases recall_cases h.unread (now 1) .semantic policy.nonEpisodicWindowSecs with
    ⟨e, hs, hs'⟩ | ⟨hsemantic, hf, hf'⟩
  · simp only [GraphStore.buildSnapshot, he, he', hs, hs']
    rfl
  rcases recall_cases h.unread (now 2) .procedural policy.nonEpisodicWindowSecs with
    ⟨e, hs, hs'⟩ | ⟨hprocedural, hp, hp'⟩
  · simp only [GraphStore.buildSnapshot, he, he', hf, hf', hs, hs']
    rfl
  rcases recall_cases h.unread (now 3) .persona policy.nonEpisodicWindowSecs with
    ⟨e, hs, hs'⟩ | ⟨hpersona, hn, hn'⟩
  · simp only [GraphStore.buildSnapshot, he, he', hf, hf', hp, hp', hs, hs']
    rfl
  have hshown := h.shown policy.episodicWindowSecs policy.nonEpisodicWindowSecs
    (by simp [snapshotRecalls, hepisode, hsemantic, hprocedural, hpersona])
  simp only [snapshotRecalls, List.forall_mem_cons, ← filter_recalled_iff hvisit hsame] at hshown
  obtain ⟨hepisode, hsemantic, hprocedural, hpersona, _⟩ := hshown
  rw [buildSnapshot_ok _ _ _ he hf hp hn, buildSnapshot_ok _ _ _ he' hf' hp' hn', shownNodes,
    shownNodes, hepisode, hsemantic, hprocedural, hpersona]

/-- No recall returns more than 500 nodes. -/
theorem length_filter_recalled_le (store : GraphStore) (p : AinlMemoryNode → Bool)
    (kind : AinlNodeKind) (since : Int) :
    ((readItems pkgs.nodeOfRow (store.recalledRows visit kind since)).filter p).length ≤ 500 := by
  have hrows : (store.recalledRows visit kind since).length ≤ 500 := List.length_take_le 500 _
  have hread : (readItems pkgs.nodeOfRow (store.recalledRows visit kind since)).length ≤
      (store.recalledRows visit kind since).length := List.length_filterMap_le _ _
  exact (List.length_filter_le _ _).trans (hread.trans hrows)

/-- The counts of a snapshot whose recalls succeed can be read off it. -/
theorem shown_of_snapshot_alike
    (hvisit : ∀ p rows, (visit rows).filter p = visit (rows.filter p))
    (hsame : SameNodes pkgs agentId store store')
    (hunread : ∀ kind since, firstError pkgs.nodeOfRow (store.recalledRows visit kind since) =
      firstError pkgs.nodeOfRow (store'.recalledRows visit kind since))
    (hsnapshot : ∀ policy toolAllowlist policyCaps,
      store.buildSnapshot pkgs visit now agentId policy toolAllowlist policyCaps =
        store'.buildSnapshot pkgs visit now agentId policy toolAllowlist policyCaps)
    (episodicWindow longWindow : Int)
    (hread : ∀ q ∈ snapshotRecalls now episodicWindow longWindow,
      firstError pkgs.nodeOfRow (store.recalledRows visit q.1 q.2) = none) :
    ∀ q ∈ snapshotRecalls now episodicWindow longWindow,
      (store.recalledRows visit q.1 q.2).countP (holds pkgs (ofAgentOrNobody agentId)) =
        (store'.recalledRows visit q.1 q.2).countP (holds pkgs (ofAgentOrNobody agentId)) := by
  have hread' : ∀ q ∈ snapshotRecalls now episodicWindow longWindow,
      firstError pkgs.nodeOfRow (store'.recalledRows visit q.1 q.2) = none := fun q hq =>
    (hunread q.1 q.2).symm.trans (hread q hq)
  simp only [snapshotRecalls, List.forall_mem_cons] at hread hread' ⊢
  obtain ⟨he, hs, hp, hn, _⟩ := hread
  obtain ⟨he', hs', hp', hn', _⟩ := hread'
  have hleft := @buildSnapshot_ok _ _ _ agentId _
    ⟨episodicWindow, 500, 500, 500, 500, longWindow⟩ [] {} _ _ _ _ (recall_ok he) (recall_ok hs)
    (recall_ok hp) (recall_ok hn)
  have hright := @buildSnapshot_ok _ _ _ agentId _
    ⟨episodicWindow, 500, 500, 500, 500, longWindow⟩ [] {} _ _ _ _ (recall_ok he') (recall_ok hs')
    (recall_ok hp') (recall_ok hn')
  have heq := hleft.symm.trans ((hsnapshot _ _ _).trans hright)
  have hlists := shownNodes_inj (Except.ok.inj heq) (by
    simp only [List.forall_mem_cons]
    exact ⟨length_filter_recalled_le _ _ _ _, length_filter_recalled_le _ _ _ _,
      length_filter_recalled_le _ _ _ _, length_filter_recalled_le _ _ _ _,
      length_filter_recalled_le _ _ _ _, length_filter_recalled_le _ _ _ _,
      length_filter_recalled_le _ _ _ _, length_filter_recalled_le _ _ _ _,
      fun _ h => absurd h List.not_mem_nil⟩)
  rw [filter_recalled_iff hvisit hsame, filter_recalled_iff hvisit hsame,
    filter_recalled_iff hvisit hsame, filter_recalled_iff hvisit hsame] at hlists
  exact ⟨hlists.1, hlists.2.1, hlists.2.2.1, hlists.2.2.2, fun _ h => absurd h List.not_mem_nil⟩

/-! ### When other agents do not matter -/

/-- An agent recalls the same from two stores with the same nodes of its own exactly if the other
agents' rows leave it the same share of the newest rows. -/
theorem recalls_alike_iff (hvisit : ∀ p rows, (visit rows).filter p = visit (rows.filter p))
    (hsame : SameNodes pkgs agentId store store') :
    RecallsAlike pkgs visit now agentId store store' ↔
      SameShare pkgs visit now agentId store store' := by
  constructor
  · intro h
    have hrecall := fun kind since => by
      have hrecall := h.byType kind (now 0 - since)
      rwa [map_recall_iff hvisit hsame.own, sub_sub_cancel] at hrecall
    have hunread := fun kind since => (hrecall kind since).1
    exact
      { unread := hunread
        own := fun kind since => (hrecall kind since).2
        shown := shown_of_snapshot_alike hvisit hsame hunread h.snapshot }
  · intro h
    have hrecall : ∀ kind secondsAgo,
        (store.recallByType pkgs visit (now 0) kind secondsAgo).map
            (List.filter (ofAgent agentId)) =
          (store'.recallByType pkgs visit (now 0) kind secondsAgo).map
            (List.filter (ofAgent agentId)) := fun kind secondsAgo =>
      (map_recall_iff hvisit hsame.own _ _ _).mpr ⟨h.unread _ _, h.own _ _⟩
    exact
      { byType := hrecall
        find := find_alike hrecall
        snapshot := snapshot_alike hvisit hsame h }

end Recalls

/-! ### Crowded out -/

/-- The store after writes of some nodes. -/
def writeAll (pkgs : Packages) (now : Int) (store : GraphStore) (nodes : List AinlMemoryNode) :
    GraphStore :=
  nodes.foldl (fun store node => (store.writeNode pkgs now node).2) store

theorem reachable_writeAll {pkgs : Packages} {idText : Uuid → String} (now : Int)
    (nodes : List AinlMemoryNode) {store : GraphStore} (h : Reachable pkgs idText store) :
    Reachable pkgs idText (writeAll pkgs now store nodes) := by
  induction nodes generalizing store with
  | nil => exact h
  | cons node nodes ih => exact ih (.write now (.writeNode node) h)

theorem entries_writeNode {pkgs : Packages} {now : Int} {store : GraphStore}
    {node : AinlMemoryNode} (hedges : node.edges = [])
    (hfresh : ∀ row ∈ store.nodes.entries, row.id ≠ node.id) :
    (store.writeNode pkgs now node).2.nodes.entries =
      nodeRow pkgs now node :: store.nodes.entries := by
  have hmissing : store.nodeRowExists node.id = false := by
    rw [GraphStore.nodeRowExists, Table.find_eq_none_iff.mpr hfresh]
    rfl
  have hwrite : (store.writeNode pkgs now node).2 =
      { store with nodes := store.nodes.insert (nodeRow pkgs now node) } := by
    rw [GraphStore.writeNode, GraphStore.persistNode, hedges, GraphStore.persistEdges,
      GraphStore.replaceNode]
    simp only [nodeRow, hmissing, Bool.false_eq_true, if_false]
  rw [hwrite]
  exact Table.entries_insert_of_fresh hfresh

/-- New nodes are written before those that are there. -/
theorem entries_writeAll {pkgs : Packages} {now : Int} {nodes : List AinlMemoryNode}
    {store : GraphStore} (hedges : ∀ node ∈ nodes, node.edges = [])
    (hnodup : (nodes.map AinlMemoryNode.id).Nodup)
    (hfresh : ∀ node ∈ nodes, ∀ row ∈ store.nodes.entries, row.id ≠ node.id) :
    (writeAll pkgs now store nodes).nodes.entries =
      (nodes.map (nodeRow pkgs now)).reverse ++ store.nodes.entries := by
  induction nodes generalizing store with
  | nil => rfl
  | cons node nodes ih =>
      rw [List.forall_mem_cons] at hedges hfresh
      rw [List.map_cons, List.nodup_cons] at hnodup
      have hentries := @entries_writeNode pkgs now store node hedges.1 hfresh.1
      have hrest := @ih (store.writeNode pkgs now node).2 hedges.2 hnodup.2 (by
        intro other hother row hrow
        rw [hentries, List.mem_cons] at hrow
        rcases hrow with rfl | hrow
        · intro hid
          exact hnodup.1 (List.mem_map.mpr ⟨other, hother, hid.symm⟩)
        · exact hfresh.2 other hother row hrow)
      rw [hentries] at hrest
      rw [List.map_cons, List.reverse_cons, List.append_assoc]
      exact hrest

/-- A failure of another agent, recorded after `failureNode 1`. -/
def crowdNode (n : Nat) : AinlMemoryNode :=
  { failureNode n with
    agentId := "b"
    nodeType := .failure 8 (.obj [("message", .str "m"), ("session_id", .null),
      ("source", .str "s"), ("tool_name", .null)]) }

/-- The last three digits of an id. -/
def crowdDigits (n : Nat) : String :=
  String.ofList [Nat.digitChar (n / 256), Nat.digitChar (n / 16 % 16), Nat.digitChar (n % 16)]

/-- The text of a `crowdNode`. -/
def crowdText (n : Nat) : String :=
  "\x7b\"id\":\"00000000-0000-0000-0000-000000000" ++ crowdDigits n ++
  "\",\"memory_category\":\"failure\",\"importance_score\":0.5,\"agent_id\":\"b\"," ++
  "\"node_type\":\x7b\"type\":\"failure\",\"failure\":\x7b\"recorded_at\":8," ++
  "\"source\":\"s\",\"tool_name\":null,\"message\":\"m\",\"session_id\":null\x7d\x7d," ++
  "\"edges\":[]\x7d"

/-- The numbers of the other agent's failures. -/
def crowdNumbers : List Nat := List.range' 2 500

/-- What the packages do on these failures. -/
def crowdPackages : Packages :=
  { failurePackages with
    nodeToString := fun node =>
      if node = failureNode 1 then failureText 1
      else if node = crowdNode node.id.toNat then crowdText node.id.toNat else ""
    wireFromStr := fun text =>
      if text = failureText 1 then .ok (failureNode 1).toWire
      else
        match crowdNumbers.find? fun n => crowdText n == text with
        | some n => .ok (crowdNode n).toWire
        | none => .error "EOF while parsing a value at line 1 column 0" }

/-- The store of the one failure of the agent. -/
def quietStore : GraphStore := writeAll crowdPackages 9 .empty [failureNode 1]

/-- The store with the failures of the other agent. -/
def crowdedStore : GraphStore :=
  writeAll crowdPackages 9 .empty (crowdNumbers.map crowdNode ++ [failureNode 1])

theorem crowdText_ne (n : Nat) : crowdText n ≠ failureText 1 := by
  intro h
  -- The texts are written alike behind the time of the failure.
  unfold crowdText failureText at h
  have hcut := (String.append_left_inj _).mp ((String.append_left_inj _).mp h)
  have htoList := (String.toList_append ..).symm.trans
    ((congrArg String.toList hcut).trans (String.toList_append ..))
  have htime := List.append_inj_right' htoList (by decide +kernel)
  have hne := String.toList_inj.mp htime
  revert hne
  decide +kernel

/-- No text but that of the agent's failure holds a node of the agent or of nobody. -/
theorem holds_crowdPackages {row : NodeRow} (h : row.payload ≠ failureText 1) :
    holds crowdPackages (ofAgentOrNobody "a") row = false := by
  rw [holds, Packages.nodeOfRow, Packages.nodeFromStr]
  simp only [crowdPackages, if_neg h]
  cases crowdNumbers.find? fun n => crowdText n == row.payload with
  | none => rfl
  | some n => rfl

theorem entries_quietStore :
    quietStore.nodes.entries = [nodeRow crowdPackages 9 (failureNode 1)] := by
  decide +kernel

/-- The rows of the other agent, as they were written. -/
def crowdRows : List NodeRow := (crowdNumbers.map crowdNode).map (nodeRow crowdPackages 9)

theorem entries_crowdedStore :
    crowdedStore.nodes.entries =
      nodeRow crowdPackages 9 (failureNode 1) :: crowdRows.reverse := by
  have hids : (crowdNumbers.map crowdNode ++ [failureNode 1]).map AinlMemoryNode.id =
      (List.range' 2 500 ++ [1]).map fun n => BitVec.ofNat 128 n := by
    rw [List.map_append, List.map_map, List.map_append]
    rfl
  have hnodup : ((crowdNumbers.map crowdNode ++ [failureNode 1]).map AinlMemoryNode.id).Nodup := by
    rw [hids]
    refine List.Nodup.map_on (fun a ha b hb hab => ?_) ?_
    · have hbound : ∀ c ∈ List.range' 2 500 ++ [1], c < 2 ^ 128 := by
        intro c hc
        rw [List.mem_append, List.mem_range'_1, List.mem_singleton] at hc
        omega
      have hnat := congrArg BitVec.toNat hab
      rwa [BitVec.toNat_ofNat, BitVec.toNat_ofNat, Nat.mod_eq_of_lt (hbound a ha),
        Nat.mod_eq_of_lt (hbound b hb)] at hnat
    · rw [List.nodup_append]
      refine ⟨List.nodup_range', List.nodup_singleton 1, fun a ha b hb => ?_⟩
      rw [List.mem_range'_1] at ha
      rw [List.mem_singleton] at hb
      omega
  have hentries := @entries_writeAll crowdPackages 9 (crowdNumbers.map crowdNode ++ [failureNode 1])
    .empty (by
      intro node hnode
      rw [List.mem_append, List.mem_map, List.mem_singleton] at hnode
      rcases hnode with ⟨n, _, rfl⟩ | rfl <;> rfl) hnodup
    (fun node _ row hrow => absurd hrow Table.not_mem_empty)
  have hempty : GraphStore.empty.nodes.entries = [] := rfl
  rw [crowdedStore, hentries, hempty, List.append_nil, List.map_append, List.reverse_append,
    List.map_singleton, List.reverse_singleton, List.singleton_append, crowdRows]

theorem mem_crowdRows {row : NodeRow} (h : row ∈ crowdRows) :
    row.nodeType = "failure" ∧ row.timestamp = 8 ∧ row.payload ≠ failureText 1 := by
  rw [crowdRows, List.map_map, List.mem_map] at h
  obtain ⟨n, hn, rfl⟩ := h
  refine ⟨rfl, rfl, ?_⟩
  have hid : (crowdNode n).id.toNat = n := by
    rw [crowdNumbers, List.mem_range'_1] at hn
    exact Nat.mod_eq_of_lt (by omega)
  have hne : crowdNode n ≠ failureNode 1 := fun h => by
    have hagent : "b" = "a" := congrArg AinlMemoryNode.agentId h
    exact absurd hagent (by decide)
  have hpayload : (nodeRow crowdPackages 9 (crowdNode n)).payload = crowdText n := by
    simp only [nodeRow, crowdPackages, if_neg hne, hid, if_true]
  rw [Function.comp_apply, hpayload]
  exact crowdText_ne n

/-- The agent has the same node in both stores. -/
theorem sameNodes_crowded : SameNodes crowdPackages "a" quietStore crowdedStore := by
  have hcrowd : crowdRows.reverse.filter (holds crowdPackages (ofAgentOrNobody "a")) = [] := by
    refine List.filter_eq_nil_iff.mpr fun row hrow => ?_
    rw [holds_crowdPackages (mem_crowdRows (List.mem_reverse.mp hrow)).2.2]
    exact Bool.false_ne_true
  rw [SameNodes, entries_quietStore, entries_crowdedStore, List.filter_cons, List.filter_cons,
    hcrowd, List.filter_nil]

/-- The other agent's failures are the newest. -/
theorem recalledRows_crowdedStore :
    crowdedStore.recalledRows List.reverse .failure 0 = crowdRows := by
  have hsorted : (crowdRows ++ [nodeRow crowdPackages 9 (failureNode 1)]).Pairwise
      fun a b => a.notOlder b = true := by
    refine List.pairwise_append.mpr ⟨?_, List.pairwise_singleton _ _, ?_⟩
    · refine List.pairwise_of_forall_mem_list fun a ha b hb => ?_
      rw [NodeRow.notOlder, (mem_crowdRows ha).2.1, (mem_crowdRows hb).2.1]
      rfl
    · intro a ha b hb
      rw [List.mem_singleton.mp hb, NodeRow.notOlder, (mem_crowdRows ha).2.1]
      rfl
  have hselected : ∀ row ∈ crowdRows ++ [nodeRow crowdPackages 9 (failureNode 1)],
      (row.nodeType == AinlNodeKind.failure.asStr && decide (0 ≤ row.timestamp)) = true := by
    intro row hrow
    rcases List.mem_append.mp hrow with hrow | hrow
    · rw [(mem_crowdRows hrow).1, (mem_crowdRows hrow).2.1]
      rfl
    · rw [List.mem_singleton.mp hrow]
      rfl
  have hlength : crowdRows.length = 500 := by
    rw [crowdRows, List.length_map, List.length_map, crowdNumbers, List.length_range']
  rw [GraphStore.recalledRows, GraphStore.newestRows, entries_crowdedStore, List.reverse_cons,
    List.reverse_reverse, List.filter_eq_self.mpr hselected, List.mergeSort_of_pairwise hsorted,
    ← hlength, List.take_left]

/-- The agent's failure is recalled, and with 500 newer failures of another agent it is not. -/
theorem recall_crowded_out :
    ¬ ∀ agentId store store', Reachable crowdPackages (fun _ => "") store →
      Reachable crowdPackages (fun _ => "") store' →
      SameNodes crowdPackages agentId store store' →
      RecallsAlike crowdPackages List.reverse (fun _ => 9) agentId store store' := by
  intro h
  have halike := h "a" quietStore crowdedStore (reachable_writeAll 9 _ .empty)
    (reachable_writeAll 9 _ .empty) sameNodes_crowded
  have hrecall := (map_recall_iff (fun p rows => List.filter_reverse)
    sameNodes_crowded.own 9 .failure 9).mp (halike.byType .failure 9)
  have hquiet : quietStore.recalledRows List.reverse .failure (9 - 9) =
      [nodeRow crowdPackages 9 (failureNode 1)] := by
    rw [GraphStore.recalledRows, GraphStore.newestRows, entries_quietStore,
      List.reverse_singleton, List.filter_cons_of_pos rfl, List.filter_nil,
      List.mergeSort_singleton]
    rfl
  have hnone : firstError crowdPackages.nodeOfRow
      (quietStore.recalledRows List.reverse .failure (9 - 9)) = none := by
    rw [hquiet]
    decide +kernel
  have hcount := hrecall.2 hnone
  rw [hquiet, sub_self, recalledRows_crowdedStore] at hcount
  have hzero : crowdRows.countP (holds crowdPackages (ofAgent "a")) = 0 := by
    refine List.countP_eq_zero.mpr fun row hrow hown => ?_
    have hshown := holds_ofAgentOrNobody hown
    rw [holds_crowdPackages (mem_crowdRows hrow).2.2] at hshown
    cases hshown
  rw [hzero] at hcount
  revert hcount
  decide +kernel

/-- The agent with one failure, in both stores. -/
theorem recalls_alike_iff_crowded :
    RecallsAlike crowdPackages List.reverse (fun _ => 9) "a" quietStore crowdedStore ↔
      SameShare crowdPackages List.reverse (fun _ => 9) "a" quietStore crowdedStore :=
  recalls_alike_iff (fun _ _ => List.filter_reverse) sameNodes_crowded

end ArmaraOS.Memory
