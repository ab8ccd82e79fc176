import ArmaraOS.Memory.GraphRewrite
import ArmaraOS.Memory.GraphSnapshots

/-!
What a write that fails leaves behind (`write_node`, `write_node_with_edges` and
`import_graph_checked` in `store.rs`).

The last two run in a transaction. `write_node` does not: its row and the edges in front of the one
that fails stay, and the edges that the replaced row had are gone.
-/

namespace ArmaraOS.Memory

open ArmaraOS.Lib

/-! ### Statements that fail halfway -/

/-- A transaction: where `statements` fail, what they wrote is taken back. -/
def transaction {ε : Type} (statements : GraphStore → Except ε Unit × GraphStore)
    (store : GraphStore) : Except ε Unit × GraphStore :=
  match statements store with
  | (.ok (), written) => (.ok (), written)
  | (.error e, _) => (.error e, store)

namespace GraphStore

/-- The statements of `write_node_with_edges`. -/
def checkAndPersist (pkgs : Packages) (idText : Uuid → String) (now : Int) (node : AinlMemoryNode)
    (store : GraphStore) : Except String Unit × GraphStore :=
  match node.edges.find? fun edge => !store.nodeRowExists edge.targetId with
  | some edge =>
      (.error ("write_node_with_edges: missing target node " ++ idText edge.targetId), store)
  | none => store.persistNode pkgs now node

/-- The loop of an import over the edges. It ends at the first error; what is written stays. -/
def importEdges (foreignKeys : Bool) (store : GraphStore) :
    List EdgeRow → Except String Unit × GraphStore
  | [] => (.ok (), store)
  | row :: rows =>
      match store.ignoreEdge foreignKeys row with
      | .error e => (.error e, store)
      | .ok store => importEdges foreignKeys store rows

/-- The statements of an import. -/
def importStatements (pkgs : Packages) (now : Nat → Int) (snapshot : AgentGraphSnapshot)
    (allowDanglingEdges : Bool) (store : GraphStore) :
    Except SnapshotImportError Unit × GraphStore :=
  let out := (store.importNodes pkgs now snapshot.nodes).importEdges (!allowDanglingEdges)
    (snapshot.edges.map (snapshotEdgeRow pkgs))
  (out.1.mapError .sqlite, out.2)

/-- `import_graph_checked`, with its transaction. -/
def importGraph (pkgs : Packages) (now : Nat → Int) (store : GraphStore)
    (snapshot : AgentGraphSnapshot) (allowDanglingEdges : Bool) :
    Except SnapshotImportError Unit × GraphStore :=
  if snapshot.schemaVersion ≠ snapshotSchemaVersion then
    (.error (.unsupportedSchemaVersion snapshot.schemaVersion snapshotSchemaVersion), store)
  else transaction (importStatements pkgs now snapshot allowDanglingEdges) store

theorem writeNodeWithEdges_eq (pkgs : Packages) (idText : Uuid → String) (now : Int)
    (store : GraphStore) (node : AinlMemoryNode) :
    store.writeNodeWithEdges pkgs idText now node =
      transaction (checkAndPersist pkgs idText now node) store := by
  unfold writeNodeWithEdges transaction checkAndPersist
  cases node.edges.find? fun edge => !store.nodeRowExists edge.targetId with
  | some edge => rfl
  | none =>
      dsimp only
      split
      · rename_i written hwritten
        rw [hwritten]
      · rename_i e written hfailed
        rw [hfailed]

theorem importEdges_eq (foreignKeys : Bool) (store : GraphStore) (rows : List EdgeRow) :
    rows.foldlM (ignoreEdge foreignKeys) store =
      (store.importEdges foreignKeys rows).1.map fun _ =>
        (store.importEdges foreignKeys rows).2 := by
  induction rows generalizing store with
  | nil => rfl
  | cons row rows ih =>
      rw [List.foldlM_cons, importEdges]
      cases store.ignoreEdge foreignKeys row with
      | error e => rfl
      | ok store' => exact ih store'

/-- An import leaves what `importGraphChecked` returns, and the store as it was at an error. -/
theorem importGraph_eq (pkgs : Packages) (now : Nat → Int) (store : GraphStore)
    (snapshot : AgentGraphSnapshot) (allowDanglingEdges : Bool) :
    store.importGraph pkgs now snapshot allowDanglingEdges =
      match store.importGraphChecked pkgs now snapshot allowDanglingEdges with
      | .ok store' => (.ok (), store')
      | .error e => (.error e, store) := by
  unfold importGraph importGraphChecked
  by_cases hversion : snapshot.schemaVersion ≠ snapshotSchemaVersion
  · rw [if_pos hversion, if_pos hversion]
  · rw [if_neg hversion, if_neg hversion, importEdges_eq, transaction, importStatements]
    cases ((store.importNodes pkgs now snapshot.nodes).importEdges (!allowDanglingEdges)
      (snapshot.edges.map (snapshotEdgeRow pkgs))).1 with
    | error e => rfl
    | ok done => rfl

end GraphStore

/-! ### Unchanged tables -/

/-- The tables of nodes and edges have the same rows. -/
structure SameGraph (store store' : GraphStore) : Prop where
  nodes : ∀ row, row ∈ store'.nodes.entries ↔ row ∈ store.nodes.entries
  edges : ∀ row, row ∈ store'.edges.entries ↔ row ∈ store.edges.entries

theorem SameGraph.refl (store : GraphStore) : SameGraph store store :=
  ⟨fun _ => Iff.rfl, fun _ => Iff.rfl⟩

/-- Where a call returns an error, it leaves both tables as they were. -/
def UnchangedIfFailed {ε : Type} (store : GraphStore) (out : Except ε Unit × GraphStore) : Prop :=
  (∃ e, out.1 = .error e) → SameGraph store out.2

theorem transaction_unchanged {ε : Type} (statements : GraphStore → Except ε Unit × GraphStore)
    (store : GraphStore) : UnchangedIfFailed store (transaction statements store) := by
  rintro ⟨e, he⟩
  unfold transaction at he ⊢
  split at he
  · cases he
  · exact SameGraph.refl store

/-! ### The edges in front of the first error -/

namespace GraphStore

/-- The edges of a list that are written before one has no target. -/
def storedEdges (store : GraphStore) (edges : List AinlEdge) : List AinlEdge :=
  edges.takeWhile fun edge => store.nodeRowExists edge.targetId

theorem storedEdges_cons (store : GraphStore) (edge : AinlEdge) (edges : List AinlEdge) :
    store.storedEdges (edge :: edges) =
      if store.nodeRowExists edge.targetId then edge :: store.storedEdges edges else [] := by
  rw [storedEdges, List.takeWhile_cons]
  rfl

theorem replaceEdge_missing {store : GraphStore} (fromId : Uuid) {edge : AinlEdge}
    (htarget : store.nodeRowExists edge.targetId = false) :
    store.replaceEdge (embeddedEdgeRow fromId edge) = .error foreignKeyFailed := by
  have hends : store.endsExist (embeddedEdgeRow fromId edge) = false := by
    rw [endsExist, Bool.and_eq_false_iff]
    exact .inr htarget
  rw [replaceEdge, hends, if_neg Bool.false_ne_true]

theorem embeddedEdgeRow_eq {fromId : Uuid} {edge edge' : AinlEdge}
    (h : (embeddedEdgeRow fromId edge).key = (embeddedEdgeRow fromId edge').key) :
    embeddedEdgeRow fromId edge = embeddedEdgeRow fromId edge' := by
  simp only [embeddedEdgeRow, EdgeRow.key, Prod.mk.injEq, true_and] at h ⊢
  rw [h.1, h.2]

/-- The loop over the edges writes those in front of the first without a target, and fails
there. -/
theorem persistEdges_stored {fromId : Uuid} {store : GraphStore} (edges : List AinlEdge)
    (hfrom : store.nodeRowExists fromId = true) :
    let out := persistEdges fromId store edges
    let rows := (store.storedEdges edges).map (embeddedEdgeRow fromId)
    ((∃ e, out.1 = .error e) ↔ ∃ edge ∈ edges, store.nodeRowExists edge.targetId = false) ∧
      out.2.nodes = store.nodes ∧
      ∀ row, row ∈ out.2.edges.entries ↔
        row ∈ rows ∨ row ∈ store.edges.entries ∧ row.key ∉ rows.map EdgeRow.key := by
  dsimp only
  induction edges generalizing store with
  | nil => simp [persistEdges, storedEdges]
  | cons edge edges ih =>
      cases htarget : store.nodeRowExists edge.targetId with
      | false =>
          rw [persistEdges, replaceEdge_missing fromId htarget, storedEdges_cons, htarget,
            if_neg Bool.false_ne_true]
          refine ⟨iff_of_true ⟨_, rfl⟩ ⟨edge, List.mem_cons_self, htarget⟩, rfl, fun row => ?_⟩
          simp
      | true =>
          have hrows : (store.storedEdges (edge :: edges)).map (embeddedEdgeRow fromId) =
              embeddedEdgeRow fromId edge ::
                (store.storedEdges edges).map (embeddedEdgeRow fromId) := by
            rw [storedEdges_cons, htarget, if_pos rfl, List.map_cons]
          rw [persistEdges, replaceEdge_embedded hfrom htarget, hrows]
          obtain ⟨herror, hnodes, hedges⟩ :=
            @ih { store with edges := store.edges.insert (embeddedEdgeRow fromId edge) } hfrom
          refine ⟨herror.trans ?_, hnodes, fun row => (hedges row).trans ?_⟩
          · rw [List.exists_mem_cons_iff, htarget]
            exact (or_iff_right (Bool.noConfusion ·)).symm
          · generalize hrest : (store.storedEdges edges).map (embeddedEdgeRow fromId) = rows
            have hsame : (embeddedEdgeRow fromId edge).key ∈ rows.map EdgeRow.key →
                embeddedEdgeRow fromId edge ∈ rows := by
              rw [← hrest, List.map_map]
              intro hkey
              obtain ⟨edge', hedge', hkey⟩ := List.mem_map.mp hkey
              rw [← embeddedEdgeRow_eq hkey]
              exact List.mem_map_of_mem hedge'
            have hstored : GraphStore.storedEdges
                { store with edges := store.edges.insert (embeddedEdgeRow fromId edge) } edges =
                  store.storedEdges edges := rfl
            rw [hstored, hrest, Table.mem_insert, List.mem_cons, List.map_cons, List.mem_cons,
              not_or]
            constructor
            · rintro (hnew | ⟨rfl | ⟨hold, hkey⟩, hother⟩)
              · exact .inl (.inr hnew)
              · exact .inl (.inl rfl)
              · exact .inr ⟨hold, hkey, hother⟩
            · rintro ((rfl | hnew) | ⟨hold, hkey, hother⟩)
              · by_cases hkey : (embeddedEdgeRow fromId edge).key ∈ rows.map EdgeRow.key
                · exact .inl (hsame hkey)
                · exact .inr ⟨.inl rfl, hkey⟩
              · exact .inl hnew
              · exact .inr ⟨.inr ⟨hold, hkey⟩, hother⟩

end GraphStore

/-! ### The three calls -/

/-- The row is stored already, and the edges at the node are those the write puts back before it
fails. -/
structure AlreadyWritten (pkgs : Packages) (now : Int) (node : AinlMemoryNode)
    (store : GraphStore) : Prop where
  stored : nodeRow pkgs now node ∈ store.nodes.entries
  edges : ∀ row : EdgeRow,
    row ∈ store.edges.entries ∧ (row.fromId = node.id ∨ row.toId = node.id) ↔
      row ∈ (store.storedEdges node.edges).map (embeddedEdgeRow node.id)

/-- Every edge of the node has its target, if the node itself is counted. -/
def TargetsStored (node : AinlMemoryNode) (store : GraphStore) : Prop :=
  ∀ edge ∈ node.edges, edge.targetId = node.id ∨ store.nodeRowExists edge.targetId = true

section WriteNode

variable {pkgs : Packages} {now : Int} {store : GraphStore} {node : AinlMemoryNode}

theorem not_targetsStored_iff :
    ¬ TargetsStored node store ↔ ∃ edge ∈ node.edges,
      (store.replaceNode (nodeRow pkgs now node)).nodeRowExists edge.targetId = false := by
  unfold TargetsStored
  push Not
  refine exists_congr fun edge => and_congr_right fun _ => ?_
  rw [← not_or, Bool.eq_false_iff, Ne, GraphStore.nodeRowExists_replaceNode]
  rfl

theorem fromId_of_mem {edges : List AinlEdge} {row : EdgeRow}
    (h : row ∈ edges.map (embeddedEdgeRow node.id)) : row.fromId = node.id := by
  obtain ⟨edge, -, rfl⟩ := List.mem_map.mp h
  rfl

/-- Where the node is stored, the rewrite leaves the tables as they were if and only if the edges at
the node are those it puts back. -/
theorem sameGraph_iff {store' : GraphStore}
    (hnodes : store'.nodes = (store.replaceNode (nodeRow pkgs now node)).nodes)
    (hedges : ∀ row, row ∈ store'.edges.entries ↔
      row ∈ ((store.replaceNode (nodeRow pkgs now node)).storedEdges node.edges).map
          (embeddedEdgeRow node.id) ∨
        row ∈ (store.replaceNode (nodeRow pkgs now node)).edges.entries ∧
          row.key ∉ (((store.replaceNode (nodeRow pkgs now node)).storedEdges node.edges).map
            (embeddedEdgeRow node.id)).map EdgeRow.key) :
    SameGraph store store' ↔ AlreadyWritten pkgs now node store := by
  have hkept : nodeRow pkgs now node ∈ store.nodes.entries →
      (store.replaceNode (nodeRow pkgs now node)).storedEdges node.edges =
          store.storedEdges node.edges ∧
        ∀ row, row ∈ (store.replaceNode (nodeRow pkgs now node)).edges.entries ↔
          row ∈ store.edges.entries ∧ row.fromId ≠ node.id ∧ row.toId ≠ node.id := by
    intro hrow
    have hstored : store.nodeRowExists node.id = true :=
      GraphStore.nodeRowExists_iff.mpr ⟨_, hrow, rfl⟩
    refine ⟨?_, fun row => GraphStore.mem_replaceNode_edges hstored⟩
    unfold GraphStore.storedEdges
    refine congrArg (fun p => List.takeWhile p node.edges) (funext fun edge => ?_)
    rw [Bool.eq_iff_iff, GraphStore.nodeRowExists_replaceNode]
    refine or_iff_right_of_imp fun htarget => ?_
    rw [htarget]
    exact hstored
  constructor
  · intro h
    have hrow : nodeRow pkgs now node ∈ store.nodes.entries := by
      rw [← h.nodes, hnodes]
      exact GraphStore.mem_replaceNode_nodes.mpr (.inl rfl)
    obtain ⟨hfront, hothers⟩ := hkept hrow
    rw [hfront] at hedges
    refine ⟨hrow, fun row => ⟨fun ⟨hmem, hat⟩ => ?_, fun hmem => ⟨?_, .inl (fromId_of_mem hmem)⟩⟩⟩
    · rcases (hedges row).mp ((h.edges row).mpr hmem) with hback | ⟨hother, -⟩
      · exact hback
      · obtain ⟨-, hfrom, hto⟩ := (hothers row).mp hother
        exact absurd hat (not_or.mpr ⟨hfrom, hto⟩)
    · exact (h.edges row).mp ((hedges row).mpr (.inl hmem))
  · intro h
    obtain ⟨hfront, hothers⟩ := hkept h.stored
    rw [hfront] at hedges
    refine ⟨fun row => ?_, fun row => (hedges row).trans ⟨?_, fun hmem => ?_⟩⟩
    · rw [hnodes, GraphStore.mem_replaceNode_nodes]
      constructor
      · rintro (rfl | ⟨hmem, -⟩)
        · exact h.stored
        · exact hmem
      · intro hmem
        by_cases hid : row.id = (nodeRow pkgs now node).id
        · exact .inl (Table.eq_of_key_eq hmem h.stored hid)
        · exact .inr ⟨hmem, hid⟩
    · rintro (hback | ⟨hother, -⟩)
      · exact ((h.edges row).mpr hback).1
      · exact ((hothers row).mp hother).1
    · by_cases hat : row.fromId = node.id ∨ row.toId = node.id
      · exact .inl ((h.edges row).mp ⟨hmem, hat⟩)
      · obtain ⟨hfrom, hto⟩ := not_or.mp hat
        refine .inr ⟨(hothers row).mpr ⟨hmem, hfrom, hto⟩, fun hkey => ?_⟩
        obtain ⟨row', hrow', hkey⟩ := List.mem_map.mp hkey
        exact hfrom ((congrArg Prod.fst hkey).symm.trans (fromId_of_mem hrow'))

/-- A `write_node` that fails leaves the tables as they were if and only if it rewrites what is
there. -/
theorem writeNode_unchanged_iff :
    UnchangedIfFailed store (store.writeNode pkgs now node) ↔
      TargetsStored node store ∨ AlreadyWritten pkgs now node store := by
  have hfrom : (store.replaceNode (nodeRow pkgs now node)).nodeRowExists node.id = true :=
    GraphStore.nodeRowExists_replaceNode.mpr (.inl rfl)
  obtain ⟨herror, hnodes, hedges⟩ := GraphStore.persistEdges_stored node.edges hfrom
  rw [← not_targetsStored_iff] at herror
  by_cases htargets : TargetsStored node store
  · exact iff_of_true (fun he => absurd htargets (herror.mp he)) (.inl htargets)
  · rw [or_iff_right htargets, ← sameGraph_iff hnodes hedges]
    exact ⟨fun h => h (herror.mpr htargets), fun h _ => h⟩

end WriteNode

/-- For every store, node and snapshot: a call in a transaction that fails changes nothing, and
`write_node` if and only if the targets of its edges are stored or it rewrites what is there. -/
theorem failedWrites_unchanged_iff (pkgs : Packages) (idText : Uuid → String) (now : Int)
    (nowAt : Nat → Int) (store : GraphStore) (node : AinlMemoryNode)
    (snapshot : AgentGraphSnapshot) :
    (UnchangedIfFailed store (store.writeNode pkgs now node) ↔
        TargetsStored node store ∨ AlreadyWritten pkgs now node store) ∧
      UnchangedIfFailed store (store.writeNodeWithEdges pkgs idText now node) ∧
      UnchangedIfFailed store (store.importGraph pkgs nowAt snapshot false) := by
  refine ⟨writeNode_unchanged_iff, ?_, ?_⟩
  · rw [GraphStore.writeNodeWithEdges_eq]
    exact transaction_unchanged _ store
  · unfold GraphStore.importGraph
    split
    · exact fun _ => SameGraph.refl store
    · exact transaction_unchanged _ store

/-! ### A failure without its cause -/

/-- A failure with an edge to one that is not stored. -/
def causedFailure : AinlMemoryNode := { failureNode 1 with edges := [⟨2, "caused_by"⟩] }

/-- Its text. -/
def causedText : String :=
  "\x7b\"id\":\"00000000-0000-0000-0000-000000000001" ++
  "\",\"memory_category\":\"failure\",\"importance_score\":0.5,\"agent_id\":\"a\"," ++
  "\"node_type\":\x7b\"type\":\"failure\",\"failure\":\x7b\"recorded_at\":7," ++
  "\"source\":\"s\",\"tool_name\":null,\"message\":\"m\",\"session_id\":null\x7d\x7d," ++
  "\"edges\":[\x7b\"target_id\":\"00000000-0000-0000-0000-000000000002\"," ++
  "\"label\":\"caused_by\"\x7d]\x7d"

/-- What the packages do on it. -/
def causedPackages : Packages :=
  { failurePackages with
    nodeToString := fun node => if node = causedFailure then causedText else "" }

/-- `write_node` returns an error, and the failure is stored. -/
theorem writeNode_keeps_failed :
    ¬ ∀ store node, UnchangedIfFailed store (GraphStore.writeNode causedPackages 0 store node) := by
  intro h
  have hsame := h .empty causedFailure ⟨GraphStore.foreignKeyFailed, by decide +kernel⟩
  have hrow := (hsame.nodes (nodeRow causedPackages 0 causedFailure)).mp (by decide +kernel)
  exact absurd hrow List.not_mem_nil

end ArmaraOS.Memory
