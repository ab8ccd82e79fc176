import ArmaraOS.Lib.Fallible
import ArmaraOS.Lib.Lines
import ArmaraOS.Memory.GraphRewrite

/-!
The graph of an agent, exported and imported.

An import adds rows and changes none. What it adds to a table is, of every key that is not taken,
the first row the snapshot has for it. A strict import checks the ends of each edge it adds, so
that it makes no edge dangling; an edge that dangles since a repair import stays. An edge whose
weight is not a number is not added.

A snapshot that an export of a store has made comes back from the empty store as it went in.
-/

namespace ArmaraOS.Memory

open ArmaraOS.Lib ArmaraOS.Text

/-! ### The statements of an import -/

/-- The rows of the nodes of a snapshot. -/
def snapshotNodeRows (pkgs : Packages) (now : Nat → Int) (nodes : List AinlMemoryNode) :
    List NodeRow :=
  nodes.zipIdx.map fun node => nodeRow pkgs (now node.2) node.1

/-- The rows of edges whose weights are numbers. -/
def numericRows (rows : List EdgeRow) : List EdgeRow := rows.filter fun row => !row.weight.isNan

namespace GraphStore

/-- A store with edges inserted, none over a taken key. -/
def addEdges (store : GraphStore) (rows : List EdgeRow) : GraphStore :=
  { store with edges := rows.foldl Table.insertIgnore store.edges }

theorem importNodes_eq (pkgs : Packages) (now : Nat → Int) (store : GraphStore)
    (nodes : List AinlMemoryNode) :
    store.importNodes pkgs now nodes =
      { store with
        nodes := (snapshotNodeRows pkgs now nodes).foldl Table.insertIgnore store.nodes } := by
  rw [importNodes, snapshotNodeRows, List.foldl_map]
  induction nodes.zipIdx generalizing store with
  | nil => rfl
  | cons node nodes ih =>
      rw [List.foldl_cons, List.foldl_cons, ih]
      rfl

@[simp] theorem endsExist_addEdges (store : GraphStore) (rows : List EdgeRow) (row : EdgeRow) :
    (store.addEdges rows).endsExist row = store.endsExist row := rfl

/-- What the statement for an edge leaves where it succeeds. -/
theorem ignoreEdge_ok {foreignKeys : Bool} {store store' : GraphStore} {row : EdgeRow}
    (h : store.ignoreEdge foreignKeys row = .ok store') :
    store' = store.addEdges (numericRows [row]) ∧
      (foreignKeys = true → ∀ row ∈ store'.edges.entries,
        row ∈ store.edges.entries ∨ store.endsExist row = true) := by
  unfold ignoreEdge at h
  split at h
  · rename_i hskip
    cases h
    refine ⟨?_, fun _ row hrow => .inl hrow⟩
    rw [numericRows, List.filter_singleton]
    cases hnan : row.weight.isNan with
    | true => rfl
    | false =>
        rw [hnan, Bool.false_or] at hskip
        rw [addEdges, Bool.not_false, cond_true, List.foldl_cons, Table.insertIgnore,
          if_pos hskip]
        rfl
  · rename_i hskip
    rw [Bool.not_eq_true, Bool.or_eq_false_iff] at hskip
    split at h
    · cases h
    · rename_i hends
      cases h
      have hfree : ¬ (store.edges.find row.key).isSome = true := by
        rw [hskip.2]
        exact Bool.false_ne_true
      refine ⟨?_, fun hfk row' hrow' => ?_⟩
      · rw [numericRows, List.filter_singleton, hskip.1, addEdges, Bool.not_false, cond_true,
          List.foldl_cons, Table.insertIgnore, if_neg hfree]
        rfl
      · rw [hfk, Bool.true_and, Bool.not_eq_true, Bool.not_eq_false'] at hends
        rcases Table.mem_insert.mp hrow' with rfl | ⟨hold, -⟩
        · exact .inr hends
        · exact .inl hold

/-- The statement for an edge whose ends are there succeeds. -/
theorem ignoreEdge_of_endsExist (foreignKeys : Bool) {store : GraphStore} {row : EdgeRow}
    (h : store.endsExist row = true) : ∃ store', store.ignoreEdge foreignKeys row = .ok store' := by
  unfold ignoreEdge
  split
  · exact ⟨_, rfl⟩
  · rw [h, Bool.not_true, Bool.and_false]
    exact ⟨_, rfl⟩

theorem numericRows_cons (row : EdgeRow) (rows : List EdgeRow) :
    numericRows (row :: rows) = numericRows [row] ++ numericRows rows :=
  List.filter_append [row] rows

theorem addEdges_append (store : GraphStore) (rows rows' : List EdgeRow) :
    store.addEdges (rows ++ rows') = (store.addEdges rows).addEdges rows' := by
  rw [addEdges, List.foldl_append]
  rfl

/-- What the statements for the edges of a snapshot leave where all succeed. -/
theorem foldlM_ignoreEdge_ok {foreignKeys : Bool} {rows : List EdgeRow}
    {store store' : GraphStore} (h : rows.foldlM (ignoreEdge foreignKeys) store = .ok store') :
    store' = store.addEdges (numericRows rows) ∧
      (foreignKeys = true → ∀ row ∈ store'.edges.entries,
        row ∈ store.edges.entries ∨ store.endsExist row = true) := by
  induction rows generalizing store with
  | nil =>
      cases h
      exact ⟨rfl, fun _ row hrow => .inl hrow⟩
  | cons row rows ih =>
      rw [List.foldlM_cons] at h
      cases hrow : store.ignoreEdge foreignKeys row with
      | error e =>
          rw [hrow] at h
          cases h
      | ok mid =>
          rw [hrow] at h
          obtain ⟨hmid, hmidEnds⟩ := ignoreEdge_ok hrow
          obtain ⟨heq, hends⟩ := ih h
          refine ⟨?_, fun hfk row' hrow' => ?_⟩
          · rw [heq, hmid, numericRows_cons row rows, addEdges_append]
          · rcases hends hfk row' hrow' with hold | hend
            · exact hmidEnds hfk row' hold
            · rw [hmid, endsExist_addEdges] at hend
              exact .inr hend

/-- The statements for edges whose ends are there succeed. -/
theorem foldlM_ignoreEdge_of_endsExist {foreignKeys : Bool} {rows : List EdgeRow}
    {store : GraphStore} (h : ∀ row ∈ rows, store.endsExist row = true) :
    rows.foldlM (ignoreEdge foreignKeys) store = .ok (store.addEdges (numericRows rows)) := by
  induction rows generalizing store with
  | nil => rfl
  | cons row rows ih =>
      rw [List.forall_mem_cons] at h
      obtain ⟨mid, hmid⟩ := ignoreEdge_of_endsExist foreignKeys h.1
      have heq := (ignoreEdge_ok hmid).1
      have hrest : ∀ row ∈ rows, mid.endsExist row = true := fun row hrow => by
        rw [heq, endsExist_addEdges]
        exact h.2 row hrow
      rw [List.foldlM_cons, hmid, numericRows_cons, addEdges_append, ← heq]
      exact ih hrest

end GraphStore

/-! ### Imports -/

/-- What an import adds to a store: of every key that is not taken, the first row of the snapshot,
where a row whose weight is not a number does not count. -/
structure Imported (pkgs : Packages) (now : Nat → Int) (snapshot : AgentGraphSnapshot)
    (store store' : GraphStore) : Prop where
  nodes : ∀ row : NodeRow, row ∈ store'.nodes.entries ↔
    row ∈ store.nodes.entries ∨ (∀ old ∈ store.nodes.entries, old.id ≠ row.id) ∧
      (snapshotNodeRows pkgs now snapshot.nodes).find? (fun new => new.id == row.id) = some row
  edges : ∀ row : EdgeRow, row ∈ store'.edges.entries ↔
    row ∈ store.edges.entries ∨ (∀ old ∈ store.edges.entries, old.key ≠ row.key) ∧
      (numericRows (snapshot.edges.map (snapshotEdgeRow pkgs))).find?
        (fun new => decide (new.key = row.key)) = some row
  trajectories : store'.trajectories = store.trajectories

namespace GraphStore

/-- An import that succeeds is the nodes and then the edges that are inserted. -/
theorem importGraphChecked_ok {pkgs : Packages} {now : Nat → Int} {store store' : GraphStore}
    {snapshot : AgentGraphSnapshot} {allowDanglingEdges : Bool}
    (h : store.importGraphChecked pkgs now snapshot allowDanglingEdges = .ok store') :
    (snapshot.edges.map (snapshotEdgeRow pkgs)).foldlM (ignoreEdge !allowDanglingEdges)
      (store.importNodes pkgs now snapshot.nodes) = .ok store' := by
  unfold importGraphChecked at h
  split at h
  · cases h
  · cases hrun : (snapshot.edges.map (snapshotEdgeRow pkgs)).foldlM
        (ignoreEdge !allowDanglingEdges) (store.importNodes pkgs now snapshot.nodes) with
    | error e =>
        rw [hrun] at h
        cases h
    | ok _ =>
        rw [hrun] at h
        cases h
        rfl

theorem imported_of_ok {pkgs : Packages} {now : Nat → Int} {store store' : GraphStore}
    {snapshot : AgentGraphSnapshot} {allowDanglingEdges : Bool}
    (h : store.importGraphChecked pkgs now snapshot allowDanglingEdges = .ok store') :
    Imported pkgs now snapshot store store' := by
  obtain ⟨rfl, -⟩ := foldlM_ignoreEdge_ok (importGraphChecked_ok h)
  rw [importNodes_eq]
  exact ⟨fun row => Table.mem_foldl_insertIgnore, fun row => Table.mem_foldl_insertIgnore, rfl⟩

theorem endsExist_iff {store : GraphStore} {row : EdgeRow} :
    store.endsExist row = true ↔
      store.nodeRowExists row.fromId = true ∧ store.nodeRowExists row.toId = true :=
  Bool.and_eq_true_iff

/-- A strict import adds no edge without its ends. -/
theorem strictImport_ends {pkgs : Packages} {now : Nat → Int} {store store' : GraphStore}
    {snapshot : AgentGraphSnapshot}
    (h : store.importGraphChecked pkgs now snapshot false = .ok store') :
    ∀ row ∈ store'.edges.entries,
      row ∈ store.edges.entries ∨ store'.endsExist row = true := by
  obtain ⟨rfl, hends⟩ := foldlM_ignoreEdge_ok (importGraphChecked_ok h)
  intro row hrow
  have hold : (store.importNodes pkgs now snapshot.nodes).edges = store.edges := by
    rw [importNodes_eq]
  have hrow' := hends rfl row hrow
  rw [hold] at hrow'
  exact hrow'

end GraphStore

/-! ### What every stored row is -/

/-- Every row of a node is the row of a node that was written, and the weight of every edge is a
number. -/
structure Written (pkgs : Packages) (store : GraphStore) : Prop where
  nodes : ∀ row ∈ store.nodes.entries, ∃ now node, row = nodeRow pkgs now node
  edges : ∀ row ∈ store.edges.entries, row.weight.isNan = false

namespace Written

variable {pkgs : Packages} {idText : Uuid → String} {store store' : GraphStore}

theorem replaceNode (h : Written pkgs store) (now : Int) (node : AinlMemoryNode) :
    Written pkgs (store.replaceNode (nodeRow pkgs now node)) where
  nodes row hrow := by
    rcases GraphStore.mem_replaceNode_nodes.mp hrow with rfl | ⟨hold, -⟩
    · exact ⟨now, node, rfl⟩
    · exact h.nodes row hold
  edges row hrow := by
    rw [GraphStore.replaceNode] at hrow
    split at hrow
    · exact h.edges row (GraphStore.mem_deleteNode_edges.mp hrow).1
    · exact h.edges row hrow

theorem replaceEdge (h : Written pkgs store) {row : EdgeRow}
    (hok : store.replaceEdge row = .ok store') : Written pkgs store' := by
  rw [GraphStore.replaceEdge] at hok
  split at hok
  · cases hok
    refine ⟨h.nodes, fun row' hrow' => ?_⟩
    rcases Table.mem_insert.mp hrow' with rfl | ⟨hold, -⟩
    · dsimp only
      split
      · rfl
      · rename_i hnan
        exact Bool.not_eq_true _ ▸ hnan
    · exact h.edges row' hold
  · cases hok

theorem persistEdges (h : Written pkgs store) (fromId : Uuid) (edges : List AinlEdge) :
    Written pkgs (GraphStore.persistEdges fromId store edges).2 := by
  induction edges generalizing store with
  | nil => exact h
  | cons edge edges ih =>
      rw [GraphStore.persistEdges]
      split
      · exact h
      · rename_i mid hmid
        exact ih (h.replaceEdge hmid)

theorem persistNode (h : Written pkgs store) (now : Int) (node : AinlMemoryNode) :
    Written pkgs (store.persistNode pkgs now node).2 :=
  (h.replaceNode now node).persistEdges node.id node.edges

theorem run (h : Written pkgs store) (now : Int) (call : NodeWrite) :
    Written pkgs (call.run pkgs idText now store).2 := by
  cases call with
  | writeNode node => exact h.persistNode now node
  | writeRuntimeState state => exact h.persistNode now (GraphStore.runtimeStateNode pkgs state)
  | writeNodeWithEdges node =>
      change Written pkgs (store.writeNodeWithEdges pkgs idText now node).2
      rw [GraphStore.writeNodeWithEdges]
      split
      · exact h
      · split
        · rename_i after hafter
          have hwritten := h.persistNode now node
          rw [hafter] at hwritten
          exact hwritten
        · exact h

theorem importGraph (h : Written pkgs store) {now : Nat → Int} {snapshot : AgentGraphSnapshot}
    (himported : Imported pkgs now snapshot store store') : Written pkgs store' where
  nodes row hrow := by
    rcases (himported.nodes row).mp hrow with hold | ⟨-, hnew⟩
    · exact h.nodes row hold
    · obtain ⟨node, -, rfl⟩ := List.mem_map.mp (List.mem_of_find?_eq_some hnew)
      exact ⟨_, _, rfl⟩
  edges row hrow := by
    rcases (himported.edges row).mp hrow with hold | ⟨-, hnew⟩
    · exact h.edges row hold
    · have hnumeric := (List.mem_filter.mp (List.mem_of_find?_eq_some hnew)).2
      rwa [Bool.not_eq_true'] at hnumeric

/-- Every call keeps what every stored row is. -/
theorem of_reachable (h : Reachable pkgs idText store) : Written pkgs store := by
  induction h with
  | empty => exact ⟨fun _ h => absurd h List.not_mem_nil, fun _ h => absurd h List.not_mem_nil⟩
  | write now call _ ih => exact ih.run now call
  | insertGraphEdge fromId toId label weight metadata _ hok ih => exact ih.replaceEdge hok
  | insertTrajectoryDetail row _ hok ih =>
      rw [GraphStore.insertTrajectoryDetail, GraphStore.replaceTrajectory] at hok
      split at hok
      · cases hok
        exact ⟨ih.nodes, ih.edges⟩
      · cases hok
  | deleteTrajectoryDetailsBefore agentId beforeUnix _ hok ih =>
      rw [GraphStore.deleteTrajectoryDetailsBefore] at hok
      split at hok
      · cases hok
      · cases hok
        exact ⟨ih.nodes, ih.edges⟩
  | importGraph now snapshot allow _ hok ih => exact ih.importGraph (GraphStore.imported_of_ok hok)

end Written

/-! ### Exports -/

/-- The node as its own text has it. -/
def AinlMemoryNode.toWire (node : AinlMemoryNode) : AinlMemoryNodeWire where
  id := node.id
  memoryCategory := some node.memoryCategory
  importanceScore := some node.importanceScore
  agentId := some node.agentId
  projectId := node.projectId
  nodeType := node.nodeType
  edges := node.edges

/-- What `serde_json` and SQLite read in a payload: the id that was written, and one agent. -/
structure Packages.ReadsIds (pkgs : Packages) : Prop where
  id : ∀ node w, pkgs.wireFromStr (pkgs.nodeToString node) = .ok w → w.id = node.id
  agent : ∀ text w, pkgs.wireFromStr text = .ok w → pkgs.payloadAgentId text = w.agentId.getD ""

/-- The nodes and the metadata of a snapshot are read as they are written. -/
structure Packages.ReadsBack (pkgs : Packages) (snapshot : AgentGraphSnapshot) : Prop where
  nodes : ∀ node ∈ snapshot.nodes, pkgs.wireFromStr (pkgs.nodeToString node) = .ok node.toWire
  metadata : ∀ edge ∈ snapshot.edges, ∀ v, edge.metadata = some v →
    pkgs.metadataToString v ≠ "" ∧ pkgs.metadataFromStr (pkgs.metadataToString v) = .ok v

theorem trimmedProject_some (proj : String) :
    trimmedProject (some proj) = if (trim proj).isEmpty then none else some (trim proj) := by
  rw [trimmedProject, Option.map_some, Option.filter_some]
  cases (trim proj).isEmpty <;> rfl

theorem trimmedProject_trimmedProject (projectId : Option String) :
    trimmedProject (trimmedProject projectId) = trimmedProject projectId := by
  cases projectId with
  | none => rfl
  | some proj =>
      rw [trimmedProject_some]
      split
      · rfl
      · rename_i hproj
        rw [trimmedProject_some, trim_trim, if_neg hproj]

/-- A node that was read is read again as it is. -/
theorem ofWire_toWire_ofWire (w : AinlMemoryNodeWire) :
    AinlMemoryNode.ofWire (AinlMemoryNode.ofWire w).toWire = .ofWire w := by
  simp only [AinlMemoryNode.ofWire, AinlMemoryNode.toWire, Option.getD_some,
    trimmedProject_trimmedProject]

section Export

variable {pkgs : Packages} {idText : Uuid → String} {store : GraphStore}
  {snapshot : AgentGraphSnapshot} {now : Int} {agentId : String}

/-- What an export reads: the nodes of the agent, and the edges between them. -/
structure Exported (pkgs : Packages) (agentId : String) (store : GraphStore)
    (snapshot : AgentGraphSnapshot) : Prop where
  schemaVersion : snapshot.schemaVersion = snapshotSchemaVersion
  nodes : (store.nodes.entries.filter fun row => pkgs.payloadAgentId row.payload == agentId).mapM
    (fun row => pkgs.nodeFromStr row.payload) = .ok snapshot.nodes
  edges : store.collectSnapshotEdgesForIdSet pkgs (snapshot.nodes.map (·.id)) = .ok snapshot.edges

theorem exported_of_ok (h : store.exportGraph pkgs now agentId = .ok snapshot) :
    Exported pkgs agentId store snapshot := by
  unfold GraphStore.exportGraph at h
  cases hnodes : (store.nodes.entries.filter fun row =>
      pkgs.payloadAgentId row.payload == agentId).mapM fun row => pkgs.nodeFromStr row.payload with
  | error e =>
      rw [hnodes] at h
      cases h
  | ok nodes =>
      cases hedges : store.collectSnapshotEdgesForIdSet pkgs (nodes.map (·.id)) with
      | error e =>
          simp only [hnodes, hedges, bind, Except.bind] at h
          cases h
      | ok edges =>
          simp only [hnodes, hedges, bind, Except.bind, pure, Except.pure] at h
          cases h
          exact ⟨rfl, hnodes, hedges⟩

theorem exportGraph_of_exported (h : Exported pkgs agentId store snapshot) :
    store.exportGraph pkgs now agentId =
      .ok ⟨agentId, now, snapshotSchemaVersion, snapshot.nodes, snapshot.edges⟩ := by
  rw [GraphStore.exportGraph, h.nodes]
  simp only [bind, Except.bind, h.edges]
  rfl

namespace Exported

theorem mem_nodes (h : Exported pkgs agentId store snapshot) {node : AinlMemoryNode} :
    node ∈ snapshot.nodes ↔ ∃ row ∈ store.nodes.entries,
      pkgs.payloadAgentId row.payload = agentId ∧ pkgs.nodeFromStr row.payload = .ok node := by
  rw [mem_of_mapM_ok h.nodes]
  simp [and_assoc]

theorem mem_edges (h : Exported pkgs agentId store snapshot) {edge : SnapshotEdge} :
    edge ∈ snapshot.edges ↔ ∃ row ∈ store.edges.entries,
      (row.fromId ∈ snapshot.nodes.map (·.id) ∧ row.toId ∈ snapshot.nodes.map (·.id)) ∧
        GraphStore.snapshotEdge pkgs row = .ok edge := by
  rw [mem_of_mapM_ok h.edges]
  simp [and_assoc]

end Exported

/-- A node that is read from a payload is made of what the payload has. -/
theorem nodeFromStr_ok {text : String} {node : AinlMemoryNode}
    (h : pkgs.nodeFromStr text = .ok node) :
    ∃ w, pkgs.wireFromStr text = .ok w ∧ node = .ofWire w := by
  rw [Packages.nodeFromStr] at h
  cases hw : pkgs.wireFromStr text with
  | error e =>
      rw [hw] at h
      cases h
  | ok w =>
      rw [hw] at h
      cases h
      exact ⟨w, rfl, rfl⟩

/-- The node that is read from a stored row has the id of the row and the agent of the payload. -/
theorem read_ids (hreads : pkgs.ReadsIds) (hwritten : Written pkgs store) {row : NodeRow}
    (hrow : row ∈ store.nodes.entries) {node : AinlMemoryNode}
    (h : pkgs.nodeFromStr row.payload = .ok node) :
    node.id = row.id ∧ node.agentId = pkgs.payloadAgentId row.payload := by
  obtain ⟨w, hw, rfl⟩ := nodeFromStr_ok h
  obtain ⟨_, written, rfl⟩ := hwritten.nodes row hrow
  exact ⟨hreads.id written w hw, (hreads.agent _ w hw).symm⟩

/-- A node of a snapshot is read from its own text, with its agent. -/
theorem reread (hreads : pkgs.ReadsIds) (hwritten : Written pkgs store)
    (hexported : Exported pkgs agentId store snapshot) (hback : pkgs.ReadsBack snapshot)
    {node : AinlMemoryNode} (hnode : node ∈ snapshot.nodes) :
    pkgs.nodeFromStr (pkgs.nodeToString node) = .ok node ∧
      pkgs.payloadAgentId (pkgs.nodeToString node) = agentId := by
  obtain ⟨row, hrow, hagent, hread⟩ := hexported.mem_nodes.mp hnode
  have hwire := hback.nodes node hnode
  refine ⟨?_, ?_⟩
  · obtain ⟨w, -, rfl⟩ := nodeFromStr_ok hread
    rw [Packages.nodeFromStr, hwire]
    exact congrArg Except.ok (ofWire_toWire_ofWire w)
  · rw [hreads.agent _ _ hwire, ← hagent]
    exact (read_ids hreads hwritten hrow hread).2

/-- The ids of the nodes of a snapshot are those of rows, so no two are the same. -/
theorem nodup_ids (hreads : pkgs.ReadsIds) (hwritten : Written pkgs store)
    (hexported : Exported pkgs agentId store snapshot) : (snapshot.nodes.map (·.id)).Nodup := by
  have hids : snapshot.nodes.map (·.id) =
      (store.nodes.entries.filter fun row =>
        pkgs.payloadAgentId row.payload == agentId).map (·.id) :=
    map_eq_of_mapM_ok hexported.nodes fun row hrow node hread =>
      (read_ids hreads hwritten (List.mem_filter.mp hrow).1 hread).1
  rw [hids]
  exact store.nodes.distinct.sublist (List.filter_sublist.map _)

/-- The edge of a snapshot has what its row has, but for an empty metadata text. -/
theorem snapshotEdge_ok {row : EdgeRow} {edge : SnapshotEdge}
    (h : GraphStore.snapshotEdge pkgs row = .ok edge) :
    (snapshotEdgeRow pkgs edge).key = row.key ∧ edge.weight = row.weight := by
  unfold GraphStore.snapshotEdge at h
  split at h
  · cases h
    exact ⟨rfl, rfl⟩
  · rename_i text _
    cases hv : pkgs.metadataFromStr text with
    | error e =>
        rw [hv] at h
        cases h
    | ok v =>
        rw [hv] at h
        cases h
        exact ⟨rfl, rfl⟩

/-- No two edges of a snapshot are between the same nodes with the same label. -/
theorem nodup_keys (hexported : Exported pkgs agentId store snapshot) :
    ((snapshot.edges.map (snapshotEdgeRow pkgs)).map EdgeRow.key).Nodup := by
  have hkeys : (snapshot.edges.map (snapshotEdgeRow pkgs)).map EdgeRow.key =
      (store.edges.entries.filter fun row =>
        row.fromId ∈ snapshot.nodes.map (·.id) &&
          row.toId ∈ snapshot.nodes.map (·.id)).map EdgeRow.key := by
    rw [List.map_map]
    exact map_eq_of_mapM_ok hexported.edges fun row _ edge hread => (snapshotEdge_ok hread).1
  rw [hkeys]
  exact store.edges.distinct.sublist (List.filter_sublist.map _)

/-- The edges of a snapshot are between its nodes, and their weights are numbers. -/
theorem edge_ends (hwritten : Written pkgs store)
    (hexported : Exported pkgs agentId store snapshot) {edge : SnapshotEdge}
    (hedge : edge ∈ snapshot.edges) :
    (edge.sourceId ∈ snapshot.nodes.map (·.id) ∧ edge.targetId ∈ snapshot.nodes.map (·.id)) ∧
      edge.weight.isNan = false := by
  obtain ⟨row, hrow, hends, hread⟩ := hexported.mem_edges.mp hedge
  obtain ⟨hkey, hweight⟩ := snapshotEdge_ok hread
  simp only [snapshotEdgeRow, EdgeRow.key, Prod.mk.injEq] at hkey
  rw [hkey.1, hkey.2.1, hweight]
  exact ⟨hends, hwritten.edges row hrow⟩

/-- An edge whose metadata is read back is read from the row it is written as. -/
theorem snapshotEdge_snapshotEdgeRow (hback : pkgs.ReadsBack snapshot) {edge : SnapshotEdge}
    (hedge : edge ∈ snapshot.edges) :
    GraphStore.snapshotEdge pkgs (snapshotEdgeRow pkgs edge) = .ok edge := by
  obtain ⟨sourceId, targetId, edgeType, weight, metadata⟩ := edge
  cases metadata with
  | none => rfl
  | some v =>
      obtain ⟨hne, hread⟩ := hback.metadata _ hedge v rfl
      have htext : (pkgs.metadataToString v).isEmpty = false := by
        rwa [← Bool.not_eq_true, String.isEmpty_iff]
      simp only [GraphStore.snapshotEdge, snapshotEdgeRow, Option.map_some, Option.filter_some,
        htext, Bool.not_false, if_true, hread]
      rfl

end Export

/-! ### There and back -/

section Reimport

variable {pkgs : Packages} {idText : Uuid → String} {store : GraphStore}
  {snapshot : AgentGraphSnapshot} {agentId : String}

/-- The store an import of a snapshot makes of the empty one. -/
def copyOf (pkgs : Packages) (now : Nat → Int) (snapshot : AgentGraphSnapshot) : GraphStore where
  nodes := (snapshotNodeRows pkgs now snapshot.nodes).foldl Table.insertIgnore .empty
  edges := (numericRows (snapshot.edges.map (snapshotEdgeRow pkgs))).foldl Table.insertIgnore .empty
  trajectories := .empty

theorem map_id_snapshotNodeRows (now : Nat → Int) (nodes : List AinlMemoryNode) :
    (snapshotNodeRows pkgs now nodes).map (·.id) = nodes.map (·.id) := by
  rw [snapshotNodeRows, List.map_map]
  conv_rhs => rw [← List.zipIdx_map_fst 0 nodes, List.map_map]
  rfl

theorem mem_snapshotNodeRows {now : Nat → Int} {nodes : List AinlMemoryNode} {row : NodeRow}
    (h : row ∈ snapshotNodeRows pkgs now nodes) :
    ∃ node ∈ nodes, row.id = node.id ∧ row.payload = pkgs.nodeToString node := by
  obtain ⟨⟨node, i⟩, hnode, rfl⟩ := List.mem_map.mp h
  exact ⟨node, List.fst_mem_of_mem_zipIdx hnode, rfl, rfl⟩

theorem exists_mem_snapshotNodeRows (pkgs : Packages) (now : Nat → Int)
    {nodes : List AinlMemoryNode} {node : AinlMemoryNode} (h : node ∈ nodes) :
    ∃ row ∈ snapshotNodeRows pkgs now nodes,
      row.id = node.id ∧ row.payload = pkgs.nodeToString node := by
  obtain ⟨i, hi, rfl⟩ := List.getElem_of_mem h
  refine ⟨_, List.mem_map.mpr ⟨(nodes[i], i), ?_, rfl⟩, rfl, rfl⟩
  exact List.mem_zipIdx_iff_getElem?.mpr (List.getElem?_eq_getElem hi)

/-- The copy has the rows of the nodes of the snapshot. -/
theorem mem_copyOf_nodes (hreads : pkgs.ReadsIds) (hwritten : Written pkgs store)
    (hexported : Exported pkgs agentId store snapshot) (now : Nat → Int) {row : NodeRow} :
    row ∈ (copyOf pkgs now snapshot).nodes.entries ↔
      row ∈ snapshotNodeRows pkgs now snapshot.nodes := by
  refine Table.mem_foldl_insertIgnore_empty ?_
  rw [map_id_snapshotNodeRows]
  exact nodup_ids hreads hwritten hexported

/-- The copy has the rows of the edges of the snapshot. -/
theorem mem_copyOf_edges (hwritten : Written pkgs store)
    (hexported : Exported pkgs agentId store snapshot) (now : Nat → Int) {row : EdgeRow} :
    row ∈ (copyOf pkgs now snapshot).edges.entries ↔
      ∃ edge ∈ snapshot.edges, snapshotEdgeRow pkgs edge = row := by
  have hdistinct : ((numericRows (snapshot.edges.map (snapshotEdgeRow pkgs))).map
      EdgeRow.key).Nodup :=
    (nodup_keys hexported).sublist (List.filter_sublist.map _)
  rw [copyOf, Table.mem_foldl_insertIgnore_empty hdistinct, numericRows, List.mem_filter,
    List.mem_map]
  constructor
  · exact And.left
  · rintro ⟨edge, hedge, rfl⟩
    refine ⟨⟨edge, hedge, rfl⟩, ?_⟩
    rw [snapshotEdgeRow, (edge_ends hwritten hexported hedge).2]
    rfl

theorem nodeRowExists_copyOf (hreads : pkgs.ReadsIds) (hwritten : Written pkgs store)
    (hexported : Exported pkgs agentId store snapshot) (now : Nat → Int) {id : Uuid}
    (h : id ∈ snapshot.nodes.map (·.id)) : (copyOf pkgs now snapshot).nodeRowExists id = true := by
  obtain ⟨node, hnode, rfl⟩ := List.mem_map.mp h
  obtain ⟨row, hrow, hid, -⟩ := exists_mem_snapshotNodeRows pkgs now hnode
  exact GraphStore.nodeRowExists_iff.mpr
    ⟨row, (mem_copyOf_nodes hreads hwritten hexported now).mpr hrow, hid⟩

/-- The import of an exported snapshot into the empty store succeeds, strict or not. -/
theorem import_exported (hreads : pkgs.ReadsIds) (hwritten : Written pkgs store)
    (hexported : Exported pkgs agentId store snapshot) (now : Nat → Int)
    (allowDanglingEdges : Bool) :
    GraphStore.empty.importGraphChecked pkgs now snapshot allowDanglingEdges =
      .ok (copyOf pkgs now snapshot) := by
  have hends : ∀ row ∈ snapshot.edges.map (snapshotEdgeRow pkgs),
      (GraphStore.empty.importNodes pkgs now snapshot.nodes).endsExist row = true := by
    intro row hrow
    obtain ⟨edge, hedge, rfl⟩ := List.mem_map.mp hrow
    obtain ⟨⟨hsource, htarget⟩, -⟩ := edge_ends hwritten hexported hedge
    rw [GraphStore.importNodes_eq]
    exact GraphStore.endsExist_iff.mpr
      ⟨nodeRowExists_copyOf hreads hwritten hexported now hsource,
        nodeRowExists_copyOf hreads hwritten hexported now htarget⟩
  rw [GraphStore.importGraphChecked, if_neg (not_not.mpr hexported.schemaVersion),
    GraphStore.foldlM_ignoreEdge_of_endsExist hends, GraphStore.importNodes_eq]
  rfl

/-- What the copy exports is what was imported. -/
theorem export_copyOf (hreads : pkgs.ReadsIds) (hwritten : Written pkgs store)
    (hexported : Exported pkgs agentId store snapshot) (hback : pkgs.ReadsBack snapshot)
    (now : Nat → Int) (now' : Int) :
    ∃ snapshot', (copyOf pkgs now snapshot).exportGraph pkgs now' agentId = .ok snapshot' ∧
      (∀ node, node ∈ snapshot'.nodes ↔ node ∈ snapshot.nodes) ∧
      ∀ edge, edge ∈ snapshot'.edges ↔ edge ∈ snapshot.edges := by
  have hrow : ∀ row ∈ (copyOf pkgs now snapshot).nodes.entries, ∃ node ∈ snapshot.nodes,
      pkgs.nodeFromStr row.payload = .ok node ∧ pkgs.payloadAgentId row.payload = agentId := by
    intro row hrow
    obtain ⟨node, hnode, -, hpayload⟩ :=
      mem_snapshotNodeRows ((mem_copyOf_nodes hreads hwritten hexported now).mp hrow)
    rw [hpayload]
    exact ⟨node, hnode, reread hreads hwritten hexported hback hnode⟩
  obtain ⟨nodes, hnodes⟩ := exists_mapM_ok
    (fun row : NodeRow => pkgs.nodeFromStr row.payload)
    ((copyOf pkgs now snapshot).nodes.entries.filter fun row =>
      pkgs.payloadAgentId row.payload == agentId)
    fun row hmem => by
      obtain ⟨node, -, hread, -⟩ := hrow row (List.mem_filter.mp hmem).1
      exact ⟨node, hread⟩
  have hmem : ∀ node, node ∈ nodes ↔ node ∈ snapshot.nodes := by
    intro node
    rw [mem_of_mapM_ok hnodes]
    constructor
    · rintro ⟨row, hmem, hread⟩
      obtain ⟨node', hnode', hread', -⟩ := hrow row (List.mem_filter.mp hmem).1
      rw [hread] at hread'
      rwa [Except.ok.inj hread']
    · intro hnode
      obtain ⟨row, hnew, -, hpayload⟩ := exists_mem_snapshotNodeRows pkgs now hnode
      obtain ⟨hread, hagent⟩ := reread hreads hwritten hexported hback hnode
      rw [← hpayload] at hread hagent
      refine ⟨row, List.mem_filter.mpr ⟨?_, beq_iff_eq.mpr hagent⟩, hread⟩
      exact (mem_copyOf_nodes hreads hwritten hexported now).mpr hnew
  have hids : ∀ id, id ∈ nodes.map (·.id) ↔ id ∈ snapshot.nodes.map (·.id) := by
    intro id
    simp only [List.mem_map, hmem]
  obtain ⟨edges, hedges⟩ := exists_mapM_ok (GraphStore.snapshotEdge pkgs)
    ((copyOf pkgs now snapshot).edges.entries.filter fun row =>
      row.fromId ∈ nodes.map (·.id) && row.toId ∈ nodes.map (·.id))
    fun row hmem => by
      obtain ⟨edge, hedge, rfl⟩ :=
        (mem_copyOf_edges hwritten hexported now).mp (List.mem_filter.mp hmem).1
      exact ⟨edge, snapshotEdge_snapshotEdgeRow hback hedge⟩
  have hcopy : Exported pkgs agentId (copyOf pkgs now snapshot)
      ⟨agentId, now', snapshotSchemaVersion, nodes, edges⟩ := ⟨rfl, hnodes, hedges⟩
  refine ⟨_, exportGraph_of_exported hcopy, hmem, fun edge => ?_⟩
  rw [hcopy.mem_edges]
  simp only [hids]
  constructor
  · rintro ⟨row, hrow, -, hread⟩
    obtain ⟨edge', hedge', rfl⟩ := (mem_copyOf_edges hwritten hexported now).mp hrow
    rw [snapshotEdge_snapshotEdgeRow hback hedge'] at hread
    rwa [← Except.ok.inj hread]
  · intro hedge
    exact ⟨snapshotEdgeRow pkgs edge, (mem_copyOf_edges hwritten hexported now).mpr
      ⟨edge, hedge, rfl⟩, (edge_ends hwritten hexported hedge).1,
      snapshotEdge_snapshotEdgeRow hback hedge⟩

end Reimport

/-- Agent graphs go out and in again. What a store that calls lead to exports for an agent, and
what the packages read back, is exported again from the store it is imported into. Rows stay
under a strict import, which adds of every key that is not taken the first row whose weight is
a number, and makes no edge dangling. -/
theorem snapshots_kept (pkgs : Packages) (idText : Uuid → String) (hreads : pkgs.ReadsIds) :
    (∀ (store : GraphStore) (agentId : String) (snapshot : AgentGraphSnapshot) (exportTime : Int),
      Reachable pkgs idText store → store.exportGraph pkgs exportTime agentId = .ok snapshot →
      pkgs.ReadsBack snapshot → ∀ (now : Nat → Int) (now' : Int) (allowDanglingEdges : Bool),
      ∃ copy snapshot',
        GraphStore.empty.importGraphChecked pkgs now snapshot allowDanglingEdges = .ok copy ∧
        copy.exportGraph pkgs now' agentId = .ok snapshot' ∧
        (∀ node, node ∈ snapshot'.nodes ↔ node ∈ snapshot.nodes) ∧
        ∀ edge, edge ∈ snapshot'.edges ↔ edge ∈ snapshot.edges) ∧
    ∀ (store store' : GraphStore) (snapshot : AgentGraphSnapshot) (now : Nat → Int),
      store.importGraphChecked pkgs now snapshot false = .ok store' →
      Imported pkgs now snapshot store store' ∧
        ∀ row ∈ store'.edges.entries,
          row ∈ store.edges.entries ∨ store'.endsExist row = true := by
  refine ⟨?_, fun store store' snapshot now h =>
    ⟨GraphStore.imported_of_ok h, GraphStore.strictImport_ends h⟩⟩
  intro store agentId snapshot exportTime hreachable hexport hback now now' allowDanglingEdges
  have hwritten := Written.of_reachable hreachable
  have hexported := exported_of_ok hexport
  obtain ⟨snapshot', hexport', hsame⟩ :=
    export_copyOf hreads hwritten hexported hback now now'
  exact ⟨_, snapshot', import_exported hreads hwritten hexported now allowDanglingEdges,
    hexport', hsame⟩

/-! ### Two failures -/

/-- A failure of agent `a`. -/
def failureNode (n : Nat) : AinlMemoryNode where
  id := n
  memoryCategory := .failure
  importanceScore := F32.half
  agentId := "a"
  projectId := none
  nodeType := .failure 7 (.obj [("message", .str "m"), ("session_id", .null),
    ("source", .str "s"), ("tool_name", .null)])
  edges := []

/-- Its text. -/
def failureText (n : Nat) : String :=
  "\x7b\"id\":\"00000000-0000-0000-0000-00000000000" ++ toString n ++
  "\",\"memory_category\":\"failure\",\"importance_score\":0.5,\"agent_id\":\"a\"," ++
  "\"node_type\":\x7b\"type\":\"failure\",\"failure\":\x7b\"recorded_at\":7," ++
  "\"source\":\"s\",\"tool_name\":null,\"message\":\"m\",\"session_id\":null\x7d\x7d," ++
  "\"edges\":[]\x7d"

/-- What the packages do on two failures and on one metadata text. -/
def failurePackages : Packages where
  nodeToString node :=
    if node = failureNode 1 then failureText 1
    else if node = failureNode 2 then failureText 2 else ""
  wireFromStr text :=
    if text = failureText 1 then .ok (failureNode 1).toWire
    else if text = failureText 2 then .ok (failureNode 2).toWire
    else .error "EOF while parsing a value at line 1 column 0"
  metadataToString v := if v = .str "why" then "\"why\"" else "null"
  metadataFromStr text := if text = "\"why\"" then .ok (.str "why") else .ok .null
  payloadAgentId text := if text = failureText 1 ∨ text = failureText 2 then "a" else ""
  newV5 _ := 0

theorem wireFromStr_failureText_one :
    failurePackages.wireFromStr (failureText 1) = .ok (failureNode 1).toWire := by
  decide +kernel

theorem wireFromStr_failureText_two :
    failurePackages.wireFromStr (failureText 2) = .ok (failureNode 2).toWire := by
  decide +kernel

theorem failurePackages_readsIds : failurePackages.ReadsIds where
  id node w h := by
    by_cases h₁ : node = failureNode 1
    · have htext : failurePackages.nodeToString node = failureText 1 := if_pos h₁
      rw [htext, wireFromStr_failureText_one] at h
      cases h
      rw [h₁]
      rfl
    · by_cases h₂ : node = failureNode 2
      · have htext : failurePackages.nodeToString node = failureText 2 :=
          (if_neg h₁).trans (if_pos h₂)
        rw [htext, wireFromStr_failureText_two] at h
        cases h
        rw [h₂]
        rfl
      · have htext : failurePackages.nodeToString node = "" := (if_neg h₁).trans (if_neg h₂)
        have hnone : failurePackages.wireFromStr "" =
            .error "EOF while parsing a value at line 1 column 0" := by
          decide +kernel
        rw [htext, hnone] at h
        cases h
  agent text w h := by
    by_cases h₁ : text = failureText 1
    · rw [h₁, wireFromStr_failureText_one] at h
      cases h
      exact if_pos (.inl h₁)
    · by_cases h₂ : text = failureText 2
      · rw [h₂, wireFromStr_failureText_two] at h
        cases h
        exact if_pos (.inr h₂)
      · have hnone : failurePackages.wireFromStr text =
            .error "EOF while parsing a value at line 1 column 0" :=
          (if_neg h₁).trans (if_neg h₂)
        rw [hnone] at h
        cases h

/-- The second failure follows the first. -/
def failureEdge : SnapshotEdge := ⟨2, 1, "follows", F32.half, some (.str "why")⟩

/-- The snapshot of both. -/
def failureSnapshot : AgentGraphSnapshot :=
  ⟨"a", 0, snapshotSchemaVersion, [failureNode 2, failureNode 1], [failureEdge]⟩

/-- The store that has written both. -/
def failureStore : GraphStore :=
  (NodeWrite.run failurePackages (fun _ => "") 0
    (NodeWrite.run failurePackages (fun _ => "") 0 .empty (.writeNode (failureNode 1))).2
    (.writeNode (failureNode 2))).2

/-- The store with the edge between them. -/
def followedStore : GraphStore :=
  { failureStore with
    edges := failureStore.edges.insert (snapshotEdgeRow failurePackages failureEdge) }

/-- Both failures and their edge come back from an import. -/
theorem snapshots_kept_failures :
    (∃ copy snapshot',
      GraphStore.empty.importGraphChecked failurePackages (fun _ => 0) failureSnapshot false =
        .ok copy ∧
      copy.exportGraph failurePackages 0 "a" = .ok snapshot' ∧
      (∀ node, node ∈ snapshot'.nodes ↔ node ∈ failureSnapshot.nodes) ∧
      ∀ edge, edge ∈ snapshot'.edges ↔ edge ∈ failureSnapshot.edges) ∧
    Imported failurePackages (fun _ => 0) failureSnapshot .empty
      (copyOf failurePackages (fun _ => 0) failureSnapshot) := by
  have hkept := snapshots_kept failurePackages (fun _ => "") failurePackages_readsIds
  have hfailures : Reachable failurePackages (fun _ => "") failureStore :=
    .write 0 _ (.write 0 _ .empty)
  have hfollowed : Reachable failurePackages (fun _ => "") followedStore :=
    .insertGraphEdge 2 1 "follows" F32.half (some (.str "why")) hfailures rfl
  have hexport : followedStore.exportGraph failurePackages 0 "a" = .ok failureSnapshot := by
    decide +kernel
  have himport := import_exported failurePackages_readsIds (Written.of_reachable hfollowed)
    (exported_of_ok hexport) (fun _ => 0) false
  refine ⟨hkept.1 followedStore "a" failureSnapshot 0 hfollowed hexport ⟨?_, ?_⟩ (fun _ => 0) 0
    false, (hkept.2 .empty _ failureSnapshot (fun _ => 0) himport).1⟩
  · rw [failureSnapshot, List.forall_mem_cons, List.forall_mem_singleton]
    exact ⟨by decide +kernel, by decide +kernel⟩
  · intro edge hedge v hv
    cases List.mem_singleton.mp hedge
    cases hv
    exact ⟨by decide +kernel, by decide +kernel⟩

/-- A snapshot of an edge whose source is missing. -/
def danglingSnapshot : AgentGraphSnapshot :=
  ⟨"a", 0, snapshotSchemaVersion, [], [failureEdge]⟩

/-- A snapshot of an edge whose weight is not a number. -/
def weightlessSnapshot : AgentGraphSnapshot :=
  ⟨"a", 0, snapshotSchemaVersion, [], [{ failureEdge with weight := ⟨0x7FC00000⟩ }]⟩

/-- The store a repair import makes of the empty one. -/
def repairedStore : GraphStore :=
  GraphStore.empty.addEdges [snapshotEdgeRow failurePackages failureEdge]

/-- A strict import leaves the edge that dangles since a repair import; and it leaves out an
edge between stored nodes whose weight is not a number. -/
theorem strict_import_keeps_dangling :
    (Reachable failurePackages (fun _ => "") repairedStore ∧
      repairedStore.importGraphChecked failurePackages (fun _ => 0)
        ⟨"a", 0, snapshotSchemaVersion, [], []⟩ false = .ok repairedStore ∧
      snapshotEdgeRow failurePackages failureEdge ∈ repairedStore.edges.entries ∧
      repairedStore.endsExist (snapshotEdgeRow failurePackages failureEdge) = false) ∧
    failureStore.importGraphChecked failurePackages (fun _ => 0) weightlessSnapshot false =
      .ok failureStore := by
  refine ⟨⟨?_, rfl, List.mem_singleton.mpr rfl, rfl⟩, rfl⟩
  exact .importGraph (fun _ => 0) danglingSnapshot true .empty rfl

end ArmaraOS.Memory
