import ArmaraOS.Memory.GraphStore

/-!
What the rewrite of a stored node leaves of the graph.

A write of a node replaces its row, and the replacement deletes whatever the schema hangs on that
row. The write puts back the edges the node lists itself. So it leaves the rest of the graph alone
exactly if nothing else refers to the node (`rewrite_frame_iff`).
-/

namespace ArmaraOS.Memory

open ArmaraOS.Lib

/-! ### Which rows a statement leaves -/

namespace GraphStore

theorem nodeRowExists_iff {store : GraphStore} {id : Uuid} :
    store.nodeRowExists id = true ↔ ∃ row ∈ store.nodes.entries, row.id = id :=
  Table.isSome_find_iff

theorem mem_deleteNode_nodes {store : GraphStore} {id : Uuid} {row : NodeRow} :
    row ∈ (store.deleteNode id).nodes.entries ↔ row ∈ store.nodes.entries ∧ row.id ≠ id :=
  Table.mem_erase

theorem mem_deleteNode_edges {store : GraphStore} {id : Uuid} {row : EdgeRow} :
    row ∈ (store.deleteNode id).edges.entries ↔
      row ∈ store.edges.entries ∧ row.fromId ≠ id ∧ row.toId ≠ id := by
  rw [deleteNode, Table.mem_filter, Bool.and_eq_true, bne_iff_ne, bne_iff_ne]

theorem mem_deleteNode_trajectories {store : GraphStore} {id : Uuid} {row : TrajectoryRow} :
    row ∈ (store.deleteNode id).trajectories.entries ↔
      row ∈ store.trajectories.entries ∧ row.episodeId ≠ id := by
  rw [deleteNode, Table.mem_filter, bne_iff_ne]

/-- The other rows of nodes stay when a row is replaced. -/
theorem mem_replaceNode_nodes {store : GraphStore} {new row : NodeRow} :
    row ∈ (store.replaceNode new).nodes.entries ↔
      row = new ∨ row ∈ store.nodes.entries ∧ row.id ≠ new.id := by
  rw [replaceNode]
  split
  · rw [Table.mem_insert, mem_deleteNode_nodes, and_assoc, and_self]
  · rw [Table.mem_insert]

/-- A row that is replaced has been there before or is there now. -/
theorem nodeRowExists_replaceNode {store : GraphStore} {new : NodeRow} {id : Uuid} :
    (store.replaceNode new).nodeRowExists id = true ↔
      id = new.id ∨ store.nodeRowExists id = true := by
  simp only [nodeRowExists_iff, mem_replaceNode_nodes]
  constructor
  · rintro ⟨row, rfl | ⟨hrow, -⟩, rfl⟩
    · exact .inl rfl
    · exact .inr ⟨row, hrow, rfl⟩
  · intro h
    by_cases hid : id = new.id
    · exact ⟨new, .inl rfl, hid.symm⟩
    · obtain ⟨row, hrow, rfl⟩ := h.resolve_left hid
      exact ⟨row, .inr ⟨hrow, hid⟩, rfl⟩

/-- The replacement of a stored row takes the edges at the node with it. -/
theorem mem_replaceNode_edges {store : GraphStore} {new : NodeRow} {row : EdgeRow}
    (hstored : store.nodeRowExists new.id = true) :
    row ∈ (store.replaceNode new).edges.entries ↔
      row ∈ store.edges.entries ∧ row.fromId ≠ new.id ∧ row.toId ≠ new.id := by
  rw [replaceNode, if_pos hstored]
  exact mem_deleteNode_edges

/-- The replacement of a stored row takes the trajectories of the episode with it. -/
theorem mem_replaceNode_trajectories {store : GraphStore} {new : NodeRow} {row : TrajectoryRow}
    (hstored : store.nodeRowExists new.id = true) :
    row ∈ (store.replaceNode new).trajectories.entries ↔
      row ∈ store.trajectories.entries ∧ row.episodeId ≠ new.id := by
  rw [replaceNode, if_pos hstored]
  exact mem_deleteNode_trajectories

end GraphStore

/-! ### The edges a node lists -/

/-- The keys of the edges a node lists. -/
def AinlMemoryNode.edgeKeys (node : AinlMemoryNode) : List (Uuid × Uuid × String) :=
  node.edges.map fun edge => (embeddedEdgeRow node.id edge).key

namespace GraphStore

theorem replaceEdge_embedded {store : GraphStore} {fromId : Uuid} {edge : AinlEdge}
    (hfrom : store.nodeRowExists fromId = true)
    (htarget : store.nodeRowExists edge.targetId = true) :
    store.replaceEdge (embeddedEdgeRow fromId edge) =
      .ok { store with edges := store.edges.insert (embeddedEdgeRow fromId edge) } := by
  have hends : store.endsExist (embeddedEdgeRow fromId edge) = true := by
    rw [endsExist, Bool.and_eq_true]
    exact ⟨hfrom, htarget⟩
  rw [replaceEdge, if_pos hends]
  rfl

/-- Where both ends of every listed edge are stored, all of them are written and nothing else. -/
theorem persistEdges_spec {fromId : Uuid} (edges : List AinlEdge) (store : GraphStore)
    (hfrom : store.nodeRowExists fromId = true)
    (htargets : ∀ edge ∈ edges, store.nodeRowExists edge.targetId = true) :
    ∃ store', persistEdges fromId store edges = (.ok (), store') ∧
      store'.nodes = store.nodes ∧ store'.trajectories = store.trajectories ∧
      ∀ row, row.key ∉ edges.map (fun edge => (embeddedEdgeRow fromId edge).key) →
        (row ∈ store'.edges.entries ↔ row ∈ store.edges.entries) := by
  induction edges generalizing store with
  | nil => exact ⟨store, rfl, rfl, rfl, fun _ _ => Iff.rfl⟩
  | cons edge edges ih =>
      rw [List.forall_mem_cons] at htargets
      have hwrite := replaceEdge_embedded hfrom htargets.1
      obtain ⟨store', hrun, hnodes, htrajectories, hedges⟩ :=
        ih { store with edges := store.edges.insert (embeddedEdgeRow fromId edge) } hfrom
          htargets.2
      refine ⟨store', ?_, hnodes, htrajectories, fun row hrow => ?_⟩
      · rw [persistEdges, hwrite]
        exact hrun
      · rw [List.map_cons, List.mem_cons, not_or] at hrow
        rw [hedges row hrow.2, Table.mem_insert]
        constructor
        · rintro (rfl | ⟨hmem, -⟩)
          · exact absurd rfl hrow.1
          · exact hmem
        · exact fun hmem => .inr ⟨hmem, hrow.1⟩

end GraphStore

/-! ### Writes -/

/-- What the rewrite of a node should leave as it is: the other nodes, the edges but for those
the node lists, and the trajectories. -/
structure Frame (node : AinlMemoryNode) (store store' : GraphStore) : Prop where
  nodes : ∀ row : NodeRow, row.id ≠ node.id →
    (row ∈ store'.nodes.entries ↔ row ∈ store.nodes.entries)
  edges : ∀ row : EdgeRow, row.key ∉ node.edgeKeys →
    (row ∈ store'.edges.entries ↔ row ∈ store.edges.entries)
  trajectories : ∀ row : TrajectoryRow,
    row ∈ store'.trajectories.entries ↔ row ∈ store.trajectories.entries

/-- Nothing stored refers to a node: no edge starts or ends at it but those it lists, and no
trajectory has it for its episode. -/
structure Unreferenced (node : AinlMemoryNode) (store : GraphStore) : Prop where
  edges : ∀ row ∈ store.edges.entries,
    row.fromId = node.id ∨ row.toId = node.id → row.key ∈ node.edgeKeys
  trajectories : ∀ row ∈ store.trajectories.entries, row.episodeId ≠ node.id

section Rewrite

variable {store : GraphStore} {node : AinlMemoryNode}

/-- The rewrite of a stored node succeeds; an edge the node does not list stays if it is not at
the node, and a trajectory stays if it is of another episode. -/
theorem persistNode_spec (pkgs : Packages) (now : Int)
    (hstored : store.nodeRowExists node.id = true)
    (htargets : ∀ edge ∈ node.edges, store.nodeRowExists edge.targetId = true) :
    ∃ store', store.persistNode pkgs now node = (.ok (), store') ∧
      (∀ row : NodeRow, row.id ≠ node.id →
        (row ∈ store'.nodes.entries ↔ row ∈ store.nodes.entries)) ∧
      (∀ row : EdgeRow, row.key ∉ node.edgeKeys →
        (row ∈ store'.edges.entries ↔
          row ∈ store.edges.entries ∧ row.fromId ≠ node.id ∧ row.toId ≠ node.id)) ∧
      ∀ row : TrajectoryRow, row ∈ store'.trajectories.entries ↔
        row ∈ store.trajectories.entries ∧ row.episodeId ≠ node.id := by
  have hfrom : (store.replaceNode (nodeRow pkgs now node)).nodeRowExists node.id = true :=
    GraphStore.nodeRowExists_replaceNode.mpr (.inl rfl)
  obtain ⟨store', hrun, hnodes, htrajectories, hedges⟩ :=
    GraphStore.persistEdges_spec node.edges (store.replaceNode (nodeRow pkgs now node)) hfrom
      fun edge hedge => GraphStore.nodeRowExists_replaceNode.mpr (.inr (htargets edge hedge))
  refine ⟨store', hrun, fun row hrow => ?_, fun row hrow => ?_, fun row => ?_⟩
  · rw [hnodes, GraphStore.mem_replaceNode_nodes]
    constructor
    · rintro (rfl | ⟨hmem, -⟩)
      · exact absurd rfl hrow
      · exact hmem
    · exact fun hmem => .inr ⟨hmem, hrow⟩
  · rw [hedges row hrow]
    exact GraphStore.mem_replaceNode_edges hstored
  · rw [htrajectories]
    exact GraphStore.mem_replaceNode_trajectories hstored

/-- The rewrite of a stored node keeps the rest exactly if nothing refers to the node. -/
theorem persistNode_frame_iff (pkgs : Packages) (now : Int)
    (hstored : store.nodeRowExists node.id = true)
    (htargets : ∀ edge ∈ node.edges, store.nodeRowExists edge.targetId = true) :
    ∃ store', store.persistNode pkgs now node = (.ok (), store') ∧
      (Frame node store store' ↔ Unreferenced node store) := by
  obtain ⟨store', hrun, hnodes, hedges, htrajectories⟩ :=
    persistNode_spec pkgs now hstored htargets
  refine ⟨store', hrun, fun frame => ⟨fun row hrow hat => ?_, fun row hrow => ?_⟩,
    fun unreferenced => ⟨hnodes, fun row hkey => ?_, fun row => ?_⟩⟩
  · by_contra hkey
    have hkept := ((hedges row hkey).mp ((frame.edges row hkey).mpr hrow)).2
    exact hat.elim hkept.1 hkept.2
  · exact ((htrajectories row).mp ((frame.trajectories row).mpr hrow)).2
  · rw [hedges row hkey]
    constructor
    · exact And.left
    · intro hrow
      refine ⟨hrow, fun hfrom => ?_, fun hto => ?_⟩
      · exact hkey (unreferenced.edges row hrow (.inl hfrom))
      · exact hkey (unreferenced.edges row hrow (.inr hto))
  · rw [htrajectories row]
    exact ⟨And.left, fun hrow => ⟨hrow, unreferenced.trajectories row hrow⟩⟩

end Rewrite

/-- Every call that writes a node whose edges have their targets does what `persist_node` does. -/
theorem NodeWrite.run_eq {pkgs : Packages} {idText : Uuid → String} {now : Int}
    {store store' : GraphStore} (call : NodeWrite)
    (htargets : ∀ edge ∈ (call.node pkgs).edges, store.nodeRowExists edge.targetId = true)
    (hrun : store.persistNode pkgs now (call.node pkgs) = (.ok (), store')) :
    call.run pkgs idText now store = (.ok (), store') := by
  cases call with
  | writeNode node => exact hrun
  | writeRuntimeState state => exact hrun
  | writeNodeWithEdges node =>
      have hnone : node.edges.find? (fun edge => !store.nodeRowExists edge.targetId) = none := by
        rw [List.find?_eq_none]
        intro edge hedge
        rw [htargets edge hedge]
        decide
      change store.writeNodeWithEdges pkgs idText now node = _
      rw [GraphStore.writeNodeWithEdges, hnone]
      dsimp only
      rw [show store.persistNode pkgs now node = (.ok (), store') from hrun]

/-- A write of a stored node whose edges have their targets succeeds and keeps the rest of the
graph exactly if nothing stored refers to the node. -/
theorem rewrite_frame_iff (pkgs : Packages) (idText : Uuid → String) (now : Int)
    (store : GraphStore) (call : NodeWrite)
    (hstored : store.nodeRowExists (call.node pkgs).id = true)
    (htargets : ∀ edge ∈ (call.node pkgs).edges, store.nodeRowExists edge.targetId = true) :
    ((call.run pkgs idText now store).1 = .ok () ∧
      Frame (call.node pkgs) store (call.run pkgs idText now store).2) ↔
      Unreferenced (call.node pkgs) store := by
  obtain ⟨store', hrun, hframe⟩ :=
    persistNode_frame_iff pkgs now hstored htargets
  rw [call.run_eq htargets hrun, ← hframe]
  exact ⟨And.right, fun h => ⟨rfl, h⟩⟩

/-! ### Two state rows -/

/-- The state row of an agent, as it is after a number of turns. -/
def stateAfter (agentId : String) (turns : Nat) : RuntimeStateNode where
  agentId := agentId
  turnCount := turns

/-- What the packages do on the state rows of two agents. -/
def statePackages : Packages where
  nodeToString node :=
    match node.nodeType with
    | .runtimeState state =>
        "\x7b\"id\":\"" ++
          (if state.agentId = "a" then "d720e32d-4765-5177-b65b-42dd7f6e6445"
            else "8b58a5a7-5d36-58ee-8fa4-1bd2be8f0998") ++
          "\",\"memory_category\":\"runtime_state\",\"importance_score\":0.5," ++
          "\"agent_id\":\"" ++ state.agentId ++ "\"," ++
          "\"node_type\":\x7b\"type\":\"runtime_state\"," ++
          "\"runtime_state\":\x7b\"agent_id\":\"" ++ state.agentId ++ "\",\"turn_count\":" ++
          toString state.turnCount ++ ",\"last_extraction_at_turn\":0," ++
          "\"persona_snapshot_json\":null,\"updated_at\":0\x7d\x7d,\"edges\":[]\x7d"
    | _ => ""
  wireFromStr _ := .error "EOF while parsing a value at line 1 column 0"
  metadataToString _ := "null"
  metadataFromStr _ := .ok .null
  payloadAgentId _ := ""
  newV5 name :=
    if name = "a" then 0xd720e32d47655177b65b42dd7f6e6445
    else 0x8b58a5a75d3658ee8fa41bd2be8f0998

/-- The store with the states of both agents. -/
def stateStore : GraphStore :=
  (NodeWrite.run statePackages (fun _ => "") 0
    (NodeWrite.run statePackages (fun _ => "") 0 .empty (.writeRuntimeState (stateAfter "a" 1))).2
    (.writeRuntimeState (stateAfter "b" 1))).2

/-- An edge from the state of one agent to that of another. -/
def stateEdge (source target : String) : EdgeRow where
  fromId := statePackages.newV5 source
  toId := statePackages.newV5 target
  label := "knows"
  weight := F32.one
  metadata := none

/-- The store with such an edge. -/
def storeLinking (source target : String) : GraphStore :=
  { stateStore with edges := stateStore.edges.insert (stateEdge source target) }

/-- As long as nothing refers to it, the state of an agent is rewritten with the rest kept, here
the other state and its edge. -/
theorem rewrite_frame_iff_states :
    (NodeWrite.run statePackages (fun _ => "") 0 (storeLinking "b" "b")
        (.writeRuntimeState (stateAfter "a" 2))).1 = .ok () ∧
      Frame ((NodeWrite.writeRuntimeState (stateAfter "a" 2)).node statePackages)
        (storeLinking "b" "b")
        (NodeWrite.run statePackages (fun _ => "") 0 (storeLinking "b" "b")
          (.writeRuntimeState (stateAfter "a" 2))).2 :=
  (rewrite_frame_iff statePackages (fun _ => "") 0 (storeLinking "b" "b")
    (.writeRuntimeState (stateAfter "a" 2)) (by decide +kernel)
    fun _ hedge => absurd hedge List.not_mem_nil).mpr
    ⟨by decide +kernel, fun _ hrow => absurd hrow List.not_mem_nil⟩

/-- The store with an edge from the state of `b` to that of `a`. -/
def linkedStore : GraphStore := storeLinking "b" "a"

/-- The state of an agent is written once more, as it is after every turn, and the edge of
another node to it is gone. -/
theorem rewritten_state_loses_edge :
    Reachable statePackages (fun _ => "") linkedStore ∧
      linkedStore.nodeRowExists
        ((NodeWrite.writeRuntimeState (stateAfter "a" 2)).node statePackages).id = true ∧
      (∀ edge ∈ ((NodeWrite.writeRuntimeState (stateAfter "a" 2)).node statePackages).edges,
        linkedStore.nodeRowExists edge.targetId = true) ∧
      ¬ Frame ((NodeWrite.writeRuntimeState (stateAfter "a" 2)).node statePackages) linkedStore
        (NodeWrite.run statePackages (fun _ => "") 0 linkedStore
          (.writeRuntimeState (stateAfter "a" 2))).2 := by
  refine ⟨?_, by decide +kernel, fun edge hedge => absurd hedge List.not_mem_nil, fun frame => ?_⟩
  · have hstates : Reachable statePackages (fun _ => "") stateStore :=
      .write 0 _ (.write 0 _ .empty)
    exact .insertGraphEdge (statePackages.newV5 "b") (statePackages.newV5 "a") "knows" F32.one
      none hstates rfl
  · have hkept := (frame.edges (stateEdge "b" "a") List.not_mem_nil).mpr (Table.mem_insert.mpr (.inl rfl))
    exact absurd hkept (by decide +kernel)

end ArmaraOS.Memory
