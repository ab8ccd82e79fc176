import Mathlib.Order.Bounds.Defs
import Mathlib.Order.Lattice.Nat
import ArmaraOS.Lib.BreadthFirst
import ArmaraOS.Memory.GraphSnapshots

/-!
Walks through the graph memory (`walk_from` and `GraphQuery::lineage` in `query.rs`).

Both are breadth-first searches through stored nodes (`walks_exact`): an edge to a node that is not
stored is not followed (such edges are left by an import that allows them). `walk_from` needs its
start to be stored, `lineage` does not.
-/

namespace ArmaraOS.Memory

open ArmaraOS.Lib ArmaraOS.Lib.BreadthFirst

/-! ### The walks -/

namespace GraphStore

section Walks

variable (pkgs : Packages) (scan : List EdgeRow → List EdgeRow) (store : GraphStore)

/-- `read_node`. -/
def readNode (id : Uuid) : Except String (Option AinlMemoryNode) :=
  match store.nodes.find id with
  | none => .ok none
  | some row => (pkgs.nodeFromStr row.payload).map some

/-- The targets of the edges from a node with one of some labels. `scan` is the order in which
SQLite returns the rows it selects. -/
def edgeTargets (labels : List String) (fromId : Uuid) : List Uuid :=
  (scan (store.edges.entries.filter fun row =>
    row.fromId == fromId && decide (row.label ∈ labels))).map EdgeRow.toId

/-- `walk_edges`. -/
def walkEdges (fromId : Uuid) (label : String) : Except String (List AinlMemoryNode) := do
  let nodes ← (store.edgeTargets scan [label] fromId).mapM (store.readNode pkgs)
  return nodes.filterMap fun node => node

/-- The state of `walk_from`. -/
structure Walk where
  visited : List Uuid
  result : List AinlMemoryNode
  level : List Uuid

/-- One node of a level. -/
def visitNode (label : String) (st : Walk) (nodeId : Uuid) : Except String Walk :=
  if nodeId ∈ st.visited then .ok st
  else
    let visited := nodeId :: st.visited
    match store.readNode pkgs nodeId with
    | .error e => .error e
    | .ok none => .ok { st with visited := visited }
    | .ok (some node) =>
        match store.walkEdges pkgs scan nodeId label with
        | .error e => .error e
        | .ok nextNodes =>
            .ok
              { visited := visited
                result := st.result ++ [node]
                level := st.level ++
                  (nextNodes.map AinlMemoryNode.id).filter fun id => id ∉ visited }

/-- The loop over the levels. -/
def walkLevels (label : String) : Nat → Walk → Except String (List AinlMemoryNode)
  | 0, st => .ok st.result
  | depth + 1, st =>
      if st.level.isEmpty then .ok st.result
      else
        match st.level.foldlM (visitNode pkgs scan store label) { st with level := [] } with
        | .error e => .error e
        | .ok st => walkLevels label depth st

/-- `walk_from`. -/
def walkFrom (startId : Uuid) (edgeLabel : String) (maxDepth : Nat) :
    Except String (List AinlMemoryNode) :=
  walkLevels pkgs scan store edgeLabel maxDepth ⟨[], [], [startId]⟩

/-- The labels that `lineage` follows. -/
def lineageLabels : List String := ["DERIVED_FROM", "CAUSED_PATCH"]

/-- The state of `lineage`, but for the queue. -/
structure Lineage where
  visited : List Uuid
  out : List AinlMemoryNode

/-- One target behind a node of some depth. -/
def lineageTarget (depth : Nat) (st : Lineage × List (Uuid × Nat)) (tid : Uuid) :
    Except String (Lineage × List (Uuid × Nat)) :=
  if tid ∈ st.1.visited then .ok st
  else
    match store.readNode pkgs tid with
    | .error e => .error e
    | .ok none => .ok ({ st.1 with visited := tid :: st.1.visited }, st.2)
    | .ok (some node) =>
        .ok (⟨tid :: st.1.visited, st.1.out ++ [node]⟩, st.2 ++ [(tid, depth + 1)])

/-- The loop over the queue; `none` is for too little fuel. -/
def lineageLoop : Nat → Lineage → List (Uuid × Nat) →
    Option (Except String (List AinlMemoryNode))
  | _, st, [] => some (.ok st.out)
  | 0, _, _ :: _ => none
  | fuel + 1, st, (nid, depth) :: queue =>
      if 20 ≤ depth then lineageLoop fuel st queue
      else
        match (store.edgeTargets scan lineageLabels nid).foldlM (lineageTarget pkgs store depth)
            (st, queue) with
        | .error e => some (.error e)
        | .ok st => lineageLoop fuel st.1 st.2

/-- `GraphQuery::lineage`, with fuel for the start and every stored node. -/
def lineage (nodeId : Uuid) : Option (Except String (List AinlMemoryNode)) :=
  lineageLoop pkgs scan store (store.nodes.entries.length + 1) ⟨[nodeId], []⟩ [(nodeId, 0)]

end Walks

end GraphStore

/-! ### What the walks should find -/

/-- A node is reached from `start` by a number of edges of a kind. -/
inductive ReachedBy (edge : EdgeRow → Prop) (start : Uuid) : Nat → Uuid → Prop where
  | start : ReachedBy edge start 0 start
  | step {n : Nat} {row : EdgeRow} : ReachedBy edge start n row.fromId → edge row →
      ReachedBy edge start (n + 1) row.toId

namespace GraphStore

/-- A stored edge with one of some labels. -/
def Labelled (store : GraphStore) (labels : List String) (row : EdgeRow) : Prop :=
  row ∈ store.edges.entries ∧ row.label ∈ labels

/-- A stored edge with one of some labels, to a stored node. -/
def Linked (store : GraphStore) (labels : List String) (row : EdgeRow) : Prop :=
  store.Labelled labels row ∧ store.nodeRowExists row.toId = true

/-- The nodes are those stored under the ids that pass, each once. -/
structure ExactSearch (pkgs : Packages) (store : GraphStore) (pass : Uuid → Prop)
    (nodes : List AinlMemoryNode) : Prop where
  mem : ∀ node, node ∈ nodes ↔ store.readNode pkgs node.id = .ok (some node) ∧ pass node.id
  once : (nodes.map AinlMemoryNode.id).Nodup

end GraphStore

/-! ### Reading nodes -/

/-- Every stored payload is read, as a node with the id it is stored under. -/
structure Readable (pkgs : Packages) (store : GraphStore) : Prop where
  read : ∀ row ∈ store.nodes.entries, ∃ node, pkgs.nodeFromStr row.payload = .ok node ∧
    node.id = row.id

section Reading

variable {pkgs : Packages} {scan : List EdgeRow → List EdgeRow} {store : GraphStore}

theorem Readable.stored (h : Readable pkgs store) {id : Uuid}
    (hstored : store.nodeRowExists id = true) :
    ∃ node, store.readNode pkgs id = .ok (some node) ∧ node.id = id := by
  obtain ⟨row, hrow⟩ := Option.isSome_iff_exists.mp hstored
  have hid : row.id = id := by
    have htest := List.find?_some hrow
    rwa [beq_iff_eq] at htest
  obtain ⟨node, hread, hnode⟩ := h.read row (List.mem_of_find?_eq_some hrow)
  refine ⟨node, ?_, hnode.trans hid⟩
  rw [GraphStore.readNode, hrow]
  dsimp only
  rw [hread]
  rfl

theorem readNode_missing {id : Uuid} (hmissing : store.nodeRowExists id = false) :
    store.readNode pkgs id = .ok none := by
  have hnone : store.nodes.find id = none := Option.not_isSome_iff_eq_none.mp (by
    rw [← GraphStore.nodeRowExists, hmissing]
    exact Bool.false_ne_true)
  rw [GraphStore.readNode, hnone]

theorem nodeRowExists_of_readNode {id : Uuid} {node : AinlMemoryNode}
    (h : store.readNode pkgs id = .ok (some node)) : store.nodeRowExists id = true := by
  cases hstored : store.nodeRowExists id with
  | true => rfl
  | false =>
      rw [readNode_missing hstored] at h
      cases h

/-- The stored nodes behind a node. -/
def linkedTargets (scan : List EdgeRow → List EdgeRow) (store : GraphStore) (labels : List String)
    (id : Uuid) : List Uuid :=
  (store.edgeTargets scan labels id).filter store.nodeRowExists

theorem mem_linkedTargets (hscan : ∀ rows, (scan rows).Perm rows) {labels : List String}
    {a b : Uuid} :
    b ∈ linkedTargets scan store labels a ↔
      ∃ row, store.Linked labels row ∧ row.fromId = a ∧ row.toId = b := by
  rw [linkedTargets, List.mem_filter, GraphStore.edgeTargets, List.mem_map]
  constructor
  · rintro ⟨⟨row, hrow, rfl⟩, hstored⟩
    rw [(hscan _).mem_iff, List.mem_filter, Bool.and_eq_true, beq_iff_eq, decide_eq_true_eq]
      at hrow
    exact ⟨row, ⟨⟨hrow.1, hrow.2.2⟩, hstored⟩, hrow.2.1, rfl⟩
  · rintro ⟨row, ⟨⟨hrow, hlabel⟩, hstored⟩, hfrom, rfl⟩
    refine ⟨⟨row, ?_, rfl⟩, hstored⟩
    rw [(hscan _).mem_iff, List.mem_filter, Bool.and_eq_true, beq_iff_eq, decide_eq_true_eq]
    exact ⟨hrow, hfrom, hlabel⟩

/-- The steps of the searches are those along stored edges to stored nodes. -/
theorem reaches_linkedTargets (hscan : ∀ rows, (scan rows).Perm rows) {labels : List String}
    {start id : Uuid} {n : Nat} :
    Reaches (linkedTargets scan store labels) start n id ↔
      ReachedBy (store.Linked labels) start n id := by
  constructor
  · intro h
    induction h with
    | start => exact .start
    | step _ hb ih =>
        obtain ⟨row, hrow, rfl, rfl⟩ := (mem_linkedTargets hscan).mp hb
        exact .step ih hrow
  · intro h
    induction h with
    | start => exact .start
    | step _ hrow ih => exact .step ih ((mem_linkedTargets hscan).mpr ⟨_, hrow, rfl, rfl⟩)

theorem walkEdges_readable (h : Readable pkgs store) (fromId : Uuid) (label : String) :
    ∃ nodes, store.walkEdges pkgs scan fromId label = .ok nodes ∧
      nodes.map AinlMemoryNode.id = linkedTargets scan store [label] fromId := by
  have hread : ∀ ids : List Uuid, ∃ found, ids.mapM (store.readNode pkgs) = .ok found ∧
      (found.filterMap fun node => node).map AinlMemoryNode.id =
        ids.filter store.nodeRowExists := by
    intro ids
    induction ids with
    | nil => exact ⟨[], rfl, rfl⟩
    | cons id ids ih =>
        obtain ⟨found, hfound, hids⟩ := ih
        cases hstored : store.nodeRowExists id with
        | true =>
            obtain ⟨node, hnode, hid⟩ := h.stored hstored
            refine ⟨some node :: found, ?_, ?_⟩
            · rw [List.mapM_cons, hnode, hfound]
              rfl
            · have hcons : ((some node :: found).filterMap fun node => node) =
                  node :: found.filterMap fun node => node := rfl
              rw [hcons, List.map_cons, hids, hid, List.filter_cons_of_pos hstored]
        | false =>
            refine ⟨none :: found, ?_, ?_⟩
            · rw [List.mapM_cons, readNode_missing hstored, hfound]
              rfl
            · have hcons : ((none :: found).filterMap fun node => node) =
                  found.filterMap fun node => node := rfl
              rw [hcons, hids, List.filter_cons_of_neg (by simp [hstored])]
  obtain ⟨found, hfound, hids⟩ := hread (store.edgeTargets scan [label] fromId)
  refine ⟨found.filterMap fun node => node, ?_, hids⟩
  rw [GraphStore.walkEdges, hfound]
  rfl

/-- Nodes with the ids of a search, each read from the store. -/
structure ReadAs (pkgs : Packages) (store : GraphStore) (ids : List Uuid)
    (nodes : List AinlMemoryNode) : Prop where
  ids : nodes.map AinlMemoryNode.id = ids
  read : ∀ node ∈ nodes, store.readNode pkgs node.id = .ok (some node)

theorem ReadAs.concat {ids : List Uuid} {nodes : List AinlMemoryNode} {id : Uuid}
    {node : AinlMemoryNode} (h : ReadAs pkgs store ids nodes)
    (hread : store.readNode pkgs id = .ok (some node)) (hid : node.id = id) :
    ReadAs pkgs store (ids ++ [id]) (nodes ++ [node]) where
  ids := by rw [List.map_append, h.ids, List.map_singleton, hid]
  read other hother := by
    rcases List.mem_append.mp hother with hother | hother
    · exact h.read other hother
    · rw [List.mem_singleton.mp hother, hid]
      exact hread

theorem ReadAs.exactSearch {ids : List Uuid} {nodes : List AinlMemoryNode}
    (h : ReadAs pkgs store ids nodes) (hnodup : ids.Nodup) {pass : Uuid → Prop}
    (hpass : ∀ id, store.nodeRowExists id = true → (id ∈ ids ↔ pass id)) :
    store.ExactSearch pkgs pass nodes where
  mem node := by
    rw [← h.ids] at hpass
    constructor
    · intro hnode
      have hread := h.read node hnode
      exact ⟨hread, (hpass _ (nodeRowExists_of_readNode hread)).mp (List.mem_map_of_mem hnode)⟩
    · rintro ⟨hread, hfound⟩
      obtain ⟨other, hother, hid⟩ :=
        List.mem_map.mp ((hpass _ (nodeRowExists_of_readNode hread)).mpr hfound)
      have hsame := h.read other hother
      rw [hid, hread] at hsame
      cases hsame
      exact hother
  once := h.ids ▸ hnodup

/-! ### `walk_from` -/

/-- A walk, and the search it makes. -/
structure Walking (pkgs : Packages) (store : GraphStore) (st : GraphStore.Walk)
    (search : Search Uuid) : Prop where
  visited : ∀ id, id ∈ st.visited ↔ id ∈ search.found
  result : ReadAs pkgs store search.found st.result
  level : st.level = search.level

theorem visitNode_walking (h : Readable pkgs store) {label : String} {st : GraphStore.Walk}
    {search : Search Uuid} (hwalk : Walking pkgs store st search) {id : Uuid}
    (hstored : store.nodeRowExists id = true) :
    ∃ st', store.visitNode pkgs scan label st id = .ok st' ∧
      Walking pkgs store st' (visit (linkedTargets scan store [label]) search id) := by
  unfold GraphStore.visitNode visit
  by_cases hseen : id ∈ search.found
  · rw [if_pos ((hwalk.visited id).mpr hseen), if_pos hseen]
    exact ⟨st, rfl, hwalk⟩
  · obtain ⟨node, hnode, hid⟩ := h.stored hstored
    obtain ⟨nextNodes, hnext, hids⟩ := @walkEdges_readable pkgs scan store h id label
    have hvisited : ∀ b, b ∈ id :: st.visited ↔ b ∈ search.found ++ [id] := by
      intro b
      rw [List.mem_cons, List.mem_append, List.mem_singleton, hwalk.visited, or_comm]
    rw [if_neg (mt (hwalk.visited id).mp hseen), if_neg hseen, hnode]
    dsimp only
    rw [hnext]
    refine ⟨_, rfl, hvisited, hwalk.result.concat hnode hid, ?_⟩
    dsimp only
    rw [hwalk.level, hids]
    refine congrArg _ (List.filter_congr fun b _ => ?_)
    rw [decide_eq_decide, hvisited]

theorem foldlM_visitNode_walking (h : Readable pkgs store) {label : String} {ids : List Uuid}
    (hstored : ∀ id ∈ ids, store.nodeRowExists id = true) {st : GraphStore.Walk}
    {search : Search Uuid} (hwalk : Walking pkgs store st search) :
    ∃ st', ids.foldlM (store.visitNode pkgs scan label) st = .ok st' ∧
      Walking pkgs store st' (ids.foldl (visit (linkedTargets scan store [label])) search) := by
  induction ids generalizing st search with
  | nil => exact ⟨st, rfl, hwalk⟩
  | cons id ids ih =>
      obtain ⟨hid, hids⟩ := List.forall_mem_cons.mp hstored
      obtain ⟨mid, hvisit, hmid⟩ :=
        @visitNode_walking pkgs scan store h label st search hwalk id hid
      obtain ⟨st', hrest, hst'⟩ := ih hids hmid
      refine ⟨st', ?_, hst'⟩
      rw [List.foldlM_cons, hvisit]
      exact hrest

theorem visitLevels_nil (next : Uuid → List Uuid) (depth : Nat) (found : List Uuid) :
    visitLevels next depth ⟨found, []⟩ = found := by
  induction depth with
  | zero => rfl
  | succ depth ih => exact ih

theorem walkLevels_walking (h : Readable pkgs store) {label : String} (depth : Nat)
    {st : GraphStore.Walk} {search : Search Uuid} (hwalk : Walking pkgs store st search)
    (hstored : ∀ id ∈ search.level, store.nodeRowExists id = true) :
    ∃ nodes, store.walkLevels pkgs scan label depth st = .ok nodes ∧
      ReadAs pkgs store (visitLevels (linkedTargets scan store [label]) depth search) nodes := by
  induction depth generalizing st search with
  | zero => exact ⟨st.result, rfl, hwalk.result⟩
  | succ depth ih =>
      rw [GraphStore.walkLevels, hwalk.level]
      by_cases hempty : search.level = []
      · rw [hempty]
        refine ⟨st.result, rfl, ?_⟩
        obtain ⟨found, level⟩ := search
        dsimp only at hempty
        rw [hempty, visitLevels_nil]
        exact hwalk.result
      · obtain ⟨st', hfold, hst'⟩ := @foldlM_visitNode_walking pkgs scan store h label search.level
          hstored { st with level := [] } { search with level := [] }
          ⟨hwalk.visited, hwalk.result, rfl⟩
        rw [if_neg (by simpa using hempty), hfold]
        refine ih hst' fun id hid => ?_
        rcases (@foldl_visit_visited _ (linkedTargets scan store [label]) _ search.level
          { search with level := [] }).level id hid with hid | ⟨_, _, hid⟩
        · exact absurd hid List.not_mem_nil
        · exact (List.mem_filter.mp hid).2

/-- Where the start is not stored, nothing is found. -/
theorem walkFrom_missing {startId : Uuid} (hmissing : store.nodeRowExists startId = false)
    (label : String) (maxDepth : Nat) :
    store.walkFrom pkgs scan startId label maxDepth = .ok [] := by
  have hempty : ∀ depth visited,
      store.walkLevels pkgs scan label depth ⟨visited, [], []⟩ = .ok [] := by
    intro depth visited
    cases depth with
    | zero => rfl
    | succ depth => rfl
  cases maxDepth with
  | zero => rfl
  | succ depth =>
      have hvisit : store.visitNode pkgs scan label ⟨[], [], []⟩ startId =
          .ok ⟨[startId], [], []⟩ := by
        rw [GraphStore.visitNode, if_neg List.not_mem_nil, readNode_missing hmissing]
      have hfold : [startId].foldlM (store.visitNode pkgs scan label) ⟨[], [], []⟩ =
          .ok ⟨[startId], [], []⟩ := by
        rw [List.foldlM_cons, hvisit]
        rfl
      rw [GraphStore.walkFrom, GraphStore.walkLevels, if_neg (by simp)]
      dsimp only
      rw [hfold]
      exact hempty depth [startId]

/-- `walk_from` finds what is reached by fewer steps than its depth, in the order of distances. -/
theorem walkFrom_exact (h : Readable pkgs store) (hscan : ∀ rows, (scan rows).Perm rows)
    (startId : Uuid) (label : String) (maxDepth : Nat) :
    ∃ nodes, store.walkFrom pkgs scan startId label maxDepth = .ok nodes ∧
      store.ExactSearch pkgs (fun id => store.nodeRowExists startId = true ∧
        ∃ n < maxDepth, ReachedBy (store.Linked [label]) startId n id) nodes ∧
      nodes.Pairwise fun a b => ∀ n, ReachedBy (store.Linked [label]) startId n b.id →
        ∃ m ≤ n, ReachedBy (store.Linked [label]) startId m a.id := by
  cases hstored : store.nodeRowExists startId with
  | false =>
      refine ⟨[], walkFrom_missing hstored label maxDepth, ⟨fun node => ?_, List.nodup_nil⟩,
        List.Pairwise.nil⟩
      exact iff_of_false List.not_mem_nil fun hnode => Bool.noConfusion hnode.2.1
  | true =>
      obtain ⟨hmem, hnodup, hsorted⟩ :=
        @visitLevels_spec _ (linkedTargets scan store [label]) _ startId maxDepth
      obtain ⟨nodes, hrun, hread⟩ := @walkLevels_walking pkgs scan store h label maxDepth
        ⟨[], [], [startId]⟩ ⟨[], [startId]⟩
        ⟨fun _ => Iff.rfl, ⟨rfl, fun _ hnode => absurd hnode List.not_mem_nil⟩, rfl⟩
        (fun id hid => by rwa [List.mem_singleton.mp hid])
      refine ⟨nodes, hrun, hread.exactSearch hnodup fun id _ => ?_, ?_⟩
      · simp only [hmem, reaches_linkedTargets hscan, true_and]
      · rw [← hread.ids, List.pairwise_map] at hsorted
        refine hsorted.imp fun hcloser n hn => ?_
        simp only [Closer, reaches_linkedTargets hscan] at hcloser
        exact hcloser n hn

/-! ### `lineage` -/

/-- The state of `lineage`, and what the search behind it has found. Of the ids it has seen, those
that are not stored do not matter. -/
structure Tracing (pkgs : Packages) (store : GraphStore) (start : Uuid) (st : GraphStore.Lineage)
    (found : List Uuid) : Prop where
  visited : ∀ id, store.nodeRowExists id = true → (id ∈ st.visited ↔ id ∈ found)
  out : ∃ more, found = start :: more ∧ ReadAs pkgs store more st.out

theorem lineageTarget_tracing (h : Readable pkgs store) {start tid : Uuid} {depth : Nat}
    {st : GraphStore.Lineage} {found : List Uuid} {queue : List (Uuid × Nat)}
    (htrace : Tracing pkgs store start st found) :
    ∃ st', store.lineageTarget pkgs depth (st, queue) tid =
        .ok (st', ([tid].filter store.nodeRowExists).foldl (discover depth) (found, queue) |>.2) ∧
      Tracing pkgs store start st'
        (([tid].filter store.nodeRowExists).foldl (discover depth) (found, queue)).1 := by
  unfold GraphStore.lineageTarget
  cases hstored : store.nodeRowExists tid with
  | false =>
      rw [List.filter_cons_of_neg (by simp [hstored]), List.filter_nil, List.foldl_nil]
      by_cases hseen : tid ∈ st.visited
      · rw [if_pos hseen]
        exact ⟨st, rfl, htrace⟩
      · rw [if_neg hseen, readNode_missing hstored]
        refine ⟨_, rfl, fun id hid => ?_, htrace.out⟩
        rw [← htrace.visited id hid, List.mem_cons]
        refine or_iff_right ?_
        rintro rfl
        rw [hstored] at hid
        cases hid
  | true =>
      rw [List.filter_cons_of_pos hstored, List.filter_nil, List.foldl_cons, List.foldl_nil,
        discover]
      by_cases hseen : tid ∈ found
      · rw [if_pos ((htrace.visited tid hstored).mpr hseen), if_pos hseen]
        exact ⟨st, rfl, htrace⟩
      · obtain ⟨node, hnode, hid⟩ := h.stored hstored
        obtain ⟨more, hmore, hout⟩ := htrace.out
        rw [if_neg (mt (htrace.visited tid hstored).mp hseen), if_neg hseen, hnode]
        refine ⟨_, rfl, fun id hid => ?_, more ++ [tid], ?_, hout.concat hnode hid⟩
        · rw [List.mem_cons, List.mem_append, List.mem_singleton, htrace.visited id hid, or_comm]
        · rw [hmore, List.cons_append]

theorem foldlM_lineageTarget_tracing (h : Readable pkgs store) {start : Uuid} {depth : Nat}
    (targets : List Uuid) {st : GraphStore.Lineage} {found : List Uuid}
    {queue : List (Uuid × Nat)} (htrace : Tracing pkgs store start st found) :
    ∃ st', targets.foldlM (store.lineageTarget pkgs depth) (st, queue) =
        .ok (st', ((targets.filter store.nodeRowExists).foldl (discover depth) (found, queue)).2) ∧
      Tracing pkgs store start st'
        ((targets.filter store.nodeRowExists).foldl (discover depth) (found, queue)).1 := by
  induction targets generalizing st found queue with
  | nil => exact ⟨st, rfl, htrace⟩
  | cons tid targets ih =>
      obtain ⟨mid, htarget, hmid⟩ := @lineageTarget_tracing pkgs store h start tid depth st found
        queue htrace
      obtain ⟨st', hrest, hst'⟩ := ih hmid
      have hfilter : (tid :: targets).filter store.nodeRowExists =
          [tid].filter store.nodeRowExists ++ targets.filter store.nodeRowExists := by
        rw [← List.filter_append, List.singleton_append]
      rw [hfilter, List.foldl_append]
      refine ⟨st', ?_, hst'⟩
      rw [List.foldlM_cons, htarget]
      exact hrest

/-- The loop leaves what the search finds, without its start. -/
theorem lineageLoop_tracing (h : Readable pkgs store) {start : Uuid} (fuel : Nat)
    {st : GraphStore.Lineage} {found found' : List Uuid} {queue : List (Uuid × Nat)}
    (htrace : Tracing pkgs store start st found)
    (hdrain : drain (linkedTargets scan store GraphStore.lineageLabels) 20 fuel queue found =
      some found') :
    ∃ nodes more, store.lineageLoop pkgs scan fuel st queue = some (.ok nodes) ∧
      found' = start :: more ∧ ReadAs pkgs store more nodes := by
  induction fuel generalizing st found queue with
  | zero =>
      cases queue with
      | nil =>
          rw [drain] at hdrain
          obtain ⟨more, hmore, hout⟩ := htrace.out
          exact ⟨st.out, more, rfl, (Option.some.inj hdrain).symm.trans hmore, hout⟩
      | cons entry queue => cases hdrain
  | succ fuel ih =>
      cases queue with
      | nil =>
          rw [drain] at hdrain
          obtain ⟨more, hmore, hout⟩ := htrace.out
          exact ⟨st.out, more, rfl, (Option.some.inj hdrain).symm.trans hmore, hout⟩
      | cons entry queue =>
          obtain ⟨nid, depth⟩ := entry
          rw [drain] at hdrain
          rw [GraphStore.lineageLoop]
          by_cases hdeep : 20 ≤ depth
          · rw [if_pos hdeep] at hdrain ⊢
            exact ih htrace hdrain
          · rw [if_neg hdeep] at hdrain ⊢
            obtain ⟨st', hfold, hst'⟩ := @foldlM_lineageTarget_tracing pkgs store h start depth
              (store.edgeTargets scan GraphStore.lineageLabels nid) st found queue htrace
            rw [hfold]
            exact ih hst' hdrain

/-- `lineage` ends, and finds what is at a distance of 1 to 20. -/
theorem lineage_exact (h : Readable pkgs store) (hscan : ∀ rows, (scan rows).Perm rows)
    (nodeId : Uuid) :
    ∃ nodes, store.lineage pkgs scan nodeId = some (.ok nodes) ∧
      store.ExactSearch pkgs (fun id => ∃ d, 1 ≤ d ∧ d ≤ 20 ∧
        IsLeast {n | ReachedBy (store.Linked GraphStore.lineageLabels) nodeId n id} d) nodes := by
  classical
  obtain ⟨more, hmem, hnodup, hdrain⟩ :=
    @drain_spec _ (linkedTargets scan store GraphStore.lineageLabels) _ nodeId 20
  simp only [reaches_linkedTargets hscan] at hmem
  have hstart : nodeId ∉ more := (List.nodup_cons.mp hnodup).1
  have hstored : ∀ id ∈ more, store.nodeRowExists id = true := by
    intro id hid
    obtain ⟨m, -, hreach⟩ := (hmem id).mp (List.mem_cons_of_mem _ hid)
    cases hreach with
    | start => exact absurd hid hstart
    | step _ hrow => exact hrow.2
  have hlen : more.length ≤ store.nodes.entries.length := by
    have hsubset : more ⊆ store.nodes.entries.map NodeRow.id := by
      intro id hid
      obtain ⟨row, hrow, rfl⟩ := GraphStore.nodeRowExists_iff.mp (hstored id hid)
      exact List.mem_map_of_mem hrow
    have hle := (List.subperm_of_subset (List.nodup_cons.mp hnodup).2 hsubset).length_le
    rwa [List.length_map] at hle
  obtain ⟨extra, hextra⟩ := Nat.exists_eq_add_of_le hlen
  have hfuel : store.nodes.entries.length + 1 = (nodeId :: more).length + extra := by
    rw [List.length_cons]
    omega
  obtain ⟨nodes, more', hrun, hmore, hread⟩ := @lineageLoop_tracing pkgs scan store h nodeId
    (store.nodes.entries.length + 1) ⟨[nodeId], []⟩ [nodeId] (nodeId :: more) [(nodeId, 0)]
    ⟨fun _ _ => Iff.rfl, [], rfl, rfl, fun _ hnode => absurd hnode List.not_mem_nil⟩
    (by rw [hfuel, hdrain extra])
  obtain rfl : more = more' := List.tail_eq_of_cons_eq hmore
  refine ⟨nodes, hrun, hread.exactSearch (List.nodup_cons.mp hnodup).2 fun id _ => ?_⟩
  constructor
  · intro hid
    obtain ⟨m, hm, hreach⟩ := (hmem id).mp (List.mem_cons_of_mem _ hid)
    have hexists : ∃ n, ReachedBy (store.Linked GraphStore.lineageLabels) nodeId n id := ⟨m, hreach⟩
    refine ⟨Nat.find hexists, ?_, (Nat.find_min' hexists hreach).trans hm, Nat.find_spec hexists,
      fun n hn => Nat.find_min' hexists hn⟩
    refine Nat.one_le_iff_ne_zero.mpr fun hzero => ?_
    have hnone := Nat.find_spec hexists
    rw [hzero] at hnone
    cases hnone
    exact hstart hid
  · rintro ⟨d, hone, hd, hleast⟩
    rcases List.mem_cons.mp ((hmem id).mpr ⟨d, hd, hleast.1⟩) with rfl | hid
    · exact absurd (hleast.2 (ReachedBy.start)) (by omega)
    · exact hid

end Reading

/-! ### Every store -/

theorem readable_of_reachable {pkgs : Packages} {idText : Uuid → String} {store : GraphStore}
    (hreads : pkgs.ReadsIds) (hreach : Reachable pkgs idText store)
    (hread : ∀ row ∈ store.nodes.entries, ∃ node, pkgs.nodeFromStr row.payload = .ok node) :
    Readable pkgs store where
  read row hrow := by
    obtain ⟨node, hnode⟩ := hread row hrow
    exact ⟨node, hnode, (read_ids hreads (Written.of_reachable hreach) hrow hnode).1⟩

/-- For every store the calls lead to, whose payloads are read back: `walk_from` returns what is
reached through stored nodes by fewer edges than its depth, and `lineage` what is at a distance of 1
to 20, each once. -/
theorem walks_exact {pkgs : Packages} {idText : Uuid → String}
    {scan : List EdgeRow → List EdgeRow} {store : GraphStore} (hreads : pkgs.ReadsIds)
    (hscan : ∀ rows, (scan rows).Perm rows) (hreach : Reachable pkgs idText store)
    (hread : ∀ row ∈ store.nodes.entries, ∃ node, pkgs.nodeFromStr row.payload = .ok node)
    (start : Uuid) :
    (∀ label maxDepth, ∃ nodes, store.walkFrom pkgs scan start label maxDepth = .ok nodes ∧
      store.ExactSearch pkgs (fun id => store.nodeRowExists start = true ∧
        ∃ n < maxDepth, ReachedBy (store.Linked [label]) start n id) nodes ∧
      nodes.Pairwise fun a b => ∀ n, ReachedBy (store.Linked [label]) start n b.id →
        ∃ m ≤ n, ReachedBy (store.Linked [label]) start m a.id) ∧
    ∃ nodes, store.lineage pkgs scan start = some (.ok nodes) ∧
      store.ExactSearch pkgs (fun id => ∃ d, 1 ≤ d ∧ d ≤ 20 ∧
        IsLeast {n | ReachedBy (store.Linked GraphStore.lineageLabels) start n id} d) nodes := by
  have h := readable_of_reachable hreads hreach hread
  exact ⟨walkFrom_exact h hscan start, lineage_exact h hscan start⟩

/-- The store with two failures, the second behind the first. -/
theorem walks_exact_followed :
    (∀ label maxDepth, ∃ nodes,
      followedStore.walkFrom failurePackages (fun rows => rows) 2 label maxDepth = .ok nodes ∧
      followedStore.ExactSearch failurePackages (fun id => followedStore.nodeRowExists 2 = true ∧
        ∃ n < maxDepth, ReachedBy (followedStore.Linked [label]) 2 n id) nodes ∧
      nodes.Pairwise fun a b => ∀ n, ReachedBy (followedStore.Linked [label]) 2 n b.id →
        ∃ m ≤ n, ReachedBy (followedStore.Linked [label]) 2 m a.id) ∧
    ∃ nodes, followedStore.lineage failurePackages (fun rows => rows) 2 = some (.ok nodes) ∧
      followedStore.ExactSearch failurePackages (fun id => ∃ d, 1 ≤ d ∧ d ≤ 20 ∧
        IsLeast {n | ReachedBy (followedStore.Linked GraphStore.lineageLabels) 2 n id} d)
          nodes := by
  have hfailures : Reachable failurePackages (fun _ => "") failureStore :=
    .write 0 _ (.write 0 _ .empty)
  have hfollowed : Reachable failurePackages (fun _ => "") followedStore :=
    .insertGraphEdge 2 1 "follows" F32.half (some (.str "why")) hfailures rfl
  refine walks_exact failurePackages_readsIds (fun rows => List.Perm.refl rows) hfollowed
    (fun row hrow => ?_) 2
  have hpayload : row.payload = failureText 1 ∨ row.payload = failureText 2 := by
    revert row
    decide +kernel
  rcases hpayload with hpayload | hpayload
  · exact ⟨_, by rw [hpayload, Packages.nodeFromStr, wireFromStr_failureText_one]; rfl⟩
  · exact ⟨_, by rw [hpayload, Packages.nodeFromStr, wireFromStr_failureText_two]; rfl⟩

/-- Two failures, and edges from the first to the second by way of one that is missing. -/
def interruptedSnapshot : AgentGraphSnapshot :=
  ⟨"a", 0, snapshotSchemaVersion, [failureNode 1, failureNode 2],
    [⟨1, 3, "follows", F32.one, none⟩, ⟨3, 2, "follows", F32.one, none⟩]⟩

/-- The store a repair import makes of the empty one. -/
def interruptedStore : GraphStore :=
  (GraphStore.empty.importNodes failurePackages (fun _ => 0) interruptedSnapshot.nodes).addEdges
    (interruptedSnapshot.edges.map (snapshotEdgeRow failurePackages))

/-- Two edges lead to the second failure, and a walk with a depth of 3 does not find it. -/
theorem walkFrom_stops_at_missing :
    ¬ ∀ store start label maxDepth nodes, Reachable failurePackages (fun _ => "") store →
      store.walkFrom failurePackages (fun rows => rows) start label maxDepth = .ok nodes →
      ∀ id, store.nodeRowExists id = true →
        (∃ n < maxDepth, ReachedBy (store.Labelled [label]) start n id) →
        id ∈ nodes.map AinlMemoryNode.id := by
  intro h
  have hreach : Reachable failurePackages (fun _ => "") interruptedStore :=
    .importGraph (fun _ => 0) interruptedSnapshot true .empty rfl
  have hfirst : ReachedBy (interruptedStore.Labelled ["follows"]) 1 1 3 :=
    @ReachedBy.step _ 1 0 ⟨1, 3, "follows", F32.one, none⟩ .start
      ⟨by decide +kernel, List.mem_singleton_self _⟩
  have hsecond : ReachedBy (interruptedStore.Labelled ["follows"]) 1 2 2 :=
    @ReachedBy.step _ 1 1 ⟨3, 2, "follows", F32.one, none⟩ hfirst
      ⟨by decide +kernel, List.mem_singleton_self _⟩
  have hmem := h interruptedStore 1 "follows" 3 [failureNode 1] hreach (by decide +kernel) 2
    (by decide +kernel) ⟨2, by decide, hsecond⟩
  exact absurd hmem (by decide +kernel)

end ArmaraOS.Memory
