import Mathlib.Algebra.Ring.Nat
import Mathlib.Data.List.Basic
import ArmaraOS.Lib.Table
import ArmaraOS.Lib.Text
import ArmaraOS.Types.F64
import ArmaraOS.Types.Json

/-!
The graph memory of the agents (`ainl-memory/src/store.rs`): nodes, edges and trajectory details
in three tables of one SQLite database, the statements the store runs on them and the calls made
of these statements.

`PRAGMA foreign_keys` is on but for an import that allows dangling edges. An `INSERT OR REPLACE`
deletes the row in its way, and the deletion of a node's row takes with it, by `ON DELETE CASCADE`,
the edges at the node and the trajectories of the episode. The tables for full-text search are
left out: their statements change nothing else, and their errors are dropped.

An id stands in a column as its text; here it stands there itself.
-/

namespace ArmaraOS.Memory

open ArmaraOS.Lib ArmaraOS.Text

/-! ### Nodes -/

/-- `Uuid`. -/
abbrev Uuid := BitVec 128

instance : LawfulBEq Uuid := inferInstance

/-- `MemoryCategory`. -/
inductive MemoryCategory where
  | persona
  | semantic
  | episodic
  | procedural
  | runtimeState
  | trajectory
  | failure
deriving DecidableEq

/-- `RuntimeStateNode`. -/
structure RuntimeStateNode where
  agentId : String
  turnCount : Nat := 0
  lastExtractionAtTurn : Nat := 0
  personaSnapshotJson : Option String := none
  updatedAt : Int := 0
deriving DecidableEq

/-- `AinlNodeType`. `rest` are the fields of a kind the store does not look at, as JSON. -/
inductive AinlNodeType where
  | episode (timestamp : Int) (rest : Json)
  | semantic (rest : Json)
  | procedural (rest : Json)
  | persona (rest : Json)
  | runtimeState (runtimeState : RuntimeStateNode)
  | trajectory (recordedAt : Int) (rest : Json)
  | failure (recordedAt : Int) (rest : Json)
deriving DecidableEq

/-- `AinlEdge`. -/
structure AinlEdge where
  targetId : Uuid
  label : String
deriving DecidableEq

/-- `AinlMemoryNode`. -/
structure AinlMemoryNode where
  id : Uuid
  memoryCategory : MemoryCategory
  importanceScore : F32
  agentId : String
  projectId : Option String
  nodeType : AinlNodeType
  edges : List AinlEdge
deriving DecidableEq

/-- `AinlMemoryNodeWire`: a node as it is read, with the fields that may be missing. -/
structure AinlMemoryNodeWire where
  id : Uuid
  memoryCategory : Option MemoryCategory
  importanceScore : Option F32
  agentId : Option String
  projectId : Option String
  nodeType : AinlNodeType
  edges : List AinlEdge
deriving DecidableEq

/-- `MemoryCategory::from_node_type`. -/
def MemoryCategory.fromNodeType : AinlNodeType → MemoryCategory
  | .episode .. => .episodic
  | .semantic .. => .semantic
  | .procedural .. => .procedural
  | .persona .. => .persona
  | .runtimeState .. => .runtimeState
  | .trajectory .. => .trajectory
  | .failure .. => .failure

/-- A project id without the blanks around it; none if nothing is left. -/
def trimmedProject (projectId : Option String) : Option String :=
  (projectId.map trim).filter fun proj => !proj.isEmpty

/-- `AinlMemoryNode::from`. -/
def AinlMemoryNode.ofWire (w : AinlMemoryNodeWire) : AinlMemoryNode where
  id := w.id
  memoryCategory := w.memoryCategory.getD (.fromNodeType w.nodeType)
  importanceScore := w.importanceScore.getD F32.half
  agentId := w.agentId.getD ""
  projectId := trimmedProject w.projectId
  nodeType := w.nodeType
  edges := w.edges

/-- `SnapshotEdge`. -/
structure SnapshotEdge where
  sourceId : Uuid
  targetId : Uuid
  edgeType : String
  weight : F32
  metadata : Option Json
deriving DecidableEq

/-- `AgentGraphSnapshot`. -/
structure AgentGraphSnapshot where
  agentId : String
  exportedAt : Int
  schemaVersion : String
  nodes : List AinlMemoryNode
  edges : List SnapshotEdge
deriving DecidableEq

/-- `SNAPSHOT_SCHEMA_VERSION`. -/
def snapshotSchemaVersion : String := "1.0"

/-- `SnapshotImportError`. -/
inductive SnapshotImportError where
  | unsupportedSchemaVersion (got expected : String)
  | sqlite (error : String)

/-- What the store calls from other packages: `serde_json` on a node and on the metadata of an
edge, the agent that SQLite's `COALESCE(json_extract(payload, '$.agent_id'), '')` finds in a
payload, and `Uuid::new_v5` on the bytes of a name. -/
structure Packages where
  nodeToString : AinlMemoryNode → String
  wireFromStr : String → Except String AinlMemoryNodeWire
  metadataToString : Json → String
  metadataFromStr : String → Except String Json
  payloadAgentId : String → String
  newV5 : String → Uuid

/-- `serde_json::from_str` for a node. -/
def Packages.nodeFromStr (pkgs : Packages) (text : String) : Except String AinlMemoryNode :=
  (pkgs.wireFromStr text).map .ofWire

/-! ### Tables -/

/-- A row of `ainl_graph_nodes`. -/
structure NodeRow where
  id : Uuid
  nodeType : String
  payload : String
  timestamp : Int
  projectId : Option String
deriving DecidableEq

/-- A row of `ainl_graph_edges`. -/
structure EdgeRow where
  fromId : Uuid
  toId : Uuid
  label : String
  weight : F32
  metadata : Option String
deriving DecidableEq

/-- The primary key of an edge. -/
def EdgeRow.key (row : EdgeRow) : Uuid × Uuid × String := (row.fromId, row.toId, row.label)

/-- A row of `ainl_trajectories`. -/
structure TrajectoryRow where
  id : Uuid
  episodeId : Uuid
  graphTrajectoryNodeId : Option Uuid
  agentId : String
  sessionId : String
  projectId : Option String
  recordedAt : Int
  outcomeJson : String
  ainlSourceHash : Option String
  durationMs : Int
  stepsJson : String
  frameVarsJson : Option String
  fitnessDelta : Option F32

/-- `SqliteGraphStore`, by the contents of its tables. -/
structure GraphStore where
  nodes : Table NodeRow.id
  edges : Table EdgeRow.key
  trajectories : Table TrajectoryRow.id

namespace GraphStore

/-- The store `ensure_schema` leaves in a new database. -/
def empty : GraphStore := ⟨.empty, .empty, .empty⟩

/-- `node_row_exists`. -/
def nodeRowExists (store : GraphStore) (id : Uuid) : Bool := (store.nodes.find id).isSome

/-! ### Statements -/

/-- SQLite's error for a row that refers to a missing one. -/
def foreignKeyFailed : String := "FOREIGN KEY constraint failed"

/-- The row of a node deleted, with what the schema deletes after it. -/
def deleteNode (store : GraphStore) (id : Uuid) : GraphStore where
  nodes := store.nodes.erase id
  edges := store.edges.filter fun row => row.fromId != id && row.toId != id
  trajectories := store.trajectories.filter fun row => row.episodeId != id

/-- `INSERT OR REPLACE INTO ainl_graph_nodes`. -/
def replaceNode (store : GraphStore) (row : NodeRow) : GraphStore :=
  let cleared := if store.nodeRowExists row.id then store.deleteNode row.id else store
  { cleared with nodes := cleared.nodes.insert row }

/-- `INSERT OR IGNORE INTO ainl_graph_nodes`. -/
def ignoreNode (store : GraphStore) (row : NodeRow) : GraphStore :=
  { store with nodes := store.nodes.insertIgnore row }

/-- Both ends of an edge have their rows. -/
def endsExist (store : GraphStore) (row : EdgeRow) : Bool :=
  store.nodeRowExists row.fromId && store.nodeRowExists row.toId

/-- `INSERT OR REPLACE INTO ainl_graph_edges`. SQLite stores a NaN as a null, and a null that
replaces in a column that is not null stands for the default. -/
def replaceEdge (store : GraphStore) (row : EdgeRow) : Except String GraphStore :=
  if store.endsExist row then
    let weight := if row.weight.isNan then F32.one else row.weight
    .ok { store with edges := store.edges.insert { row with weight := weight } }
  else .error foreignKeyFailed

/-- `INSERT OR IGNORE INTO ainl_graph_edges`. The null of a NaN and a taken key are ignored; a
missing end is not. -/
def ignoreEdge (foreignKeys : Bool) (store : GraphStore) (row : EdgeRow) :
    Except String GraphStore :=
  if row.weight.isNan || (store.edges.find row.key).isSome then .ok store
  else if foreignKeys && !store.endsExist row then .error foreignKeyFailed
  else .ok { store with edges := store.edges.insert row }

/-- `INSERT OR REPLACE INTO ainl_trajectories`. -/
def replaceTrajectory (store : GraphStore) (row : TrajectoryRow) : Except String GraphStore :=
  if store.nodeRowExists row.episodeId then
    let fitnessDelta := row.fitnessDelta.filter fun delta => !delta.isNan
    let row := { row with fitnessDelta := fitnessDelta }
    .ok { store with trajectories := store.trajectories.insert row }
  else .error foreignKeyFailed

end GraphStore

/-! ### Calls -/

/-- `node_type_name`. -/
def nodeTypeName (node : AinlMemoryNode) : String :=
  match node.nodeType with
  | .episode .. => "episode"
  | .semantic .. => "semantic"
  | .procedural .. => "procedural"
  | .persona .. => "persona"
  | .runtimeState .. => "runtime_state"
  | .trajectory .. => "trajectory"
  | .failure .. => "failure"

/-- `node_timestamp`, where the clock shows `now`. -/
def nodeTimestamp (now : Int) (node : AinlMemoryNode) : Int :=
  match node.nodeType with
  | .episode timestamp _ => timestamp
  | .runtimeState runtimeState => runtimeState.updatedAt
  | .trajectory recordedAt _ => recordedAt
  | .failure recordedAt _ => recordedAt
  | _ => now

/-- The row a node is written as. -/
def nodeRow (pkgs : Packages) (now : Int) (node : AinlMemoryNode) : NodeRow where
  id := node.id
  nodeType := nodeTypeName node
  payload := pkgs.nodeToString node
  timestamp := nodeTimestamp now node
  projectId := trimmedProject node.projectId

/-- The row `persist_node` writes for an edge of its node. -/
def embeddedEdgeRow (fromId : Uuid) (edge : AinlEdge) : EdgeRow :=
  ⟨fromId, edge.targetId, edge.label, F32.one, none⟩

/-- The row `try_insert_edge_ignore` writes for the edge of a snapshot. -/
def snapshotEdgeRow (pkgs : Packages) (edge : SnapshotEdge) : EdgeRow :=
  ⟨edge.sourceId, edge.targetId, edge.edgeType, edge.weight,
    edge.metadata.map pkgs.metadataToString⟩

namespace GraphStore

/-- The loop of `persist_node` over the edges. It ends at the first error; what is written stays. -/
def persistEdges (fromId : Uuid) (store : GraphStore) :
    List AinlEdge → Except String Unit × GraphStore
  | [] => (.ok (), store)
  | edge :: edges =>
      match store.replaceEdge (embeddedEdgeRow fromId edge) with
      | .error e => (.error e, store)
      | .ok store => persistEdges fromId store edges

/-- `persist_node`. -/
def persistNode (pkgs : Packages) (now : Int) (store : GraphStore) (node : AinlMemoryNode) :
    Except String Unit × GraphStore :=
  persistEdges node.id (store.replaceNode (nodeRow pkgs now node)) node.edges

/-- `write_node`. -/
def writeNode (pkgs : Packages) (now : Int) (store : GraphStore) (node : AinlMemoryNode) :
    Except String Unit × GraphStore :=
  store.persistNode pkgs now node

/-- The node `write_runtime_state` writes. -/
def runtimeStateNode (pkgs : Packages) (state : RuntimeStateNode) : AinlMemoryNode where
  id := pkgs.newV5 state.agentId
  memoryCategory := .runtimeState
  importanceScore := F32.half
  agentId := state.agentId
  projectId := none
  nodeType := .runtimeState state
  edges := []

/-- `write_runtime_state`. -/
def writeRuntimeState (pkgs : Packages) (now : Int) (store : GraphStore)
    (state : RuntimeStateNode) : Except String Unit × GraphStore :=
  store.writeNode pkgs now (runtimeStateNode pkgs state)

/-- `write_node_with_edges`: a transaction, rolled back at an error. `idText` is the text of an
id. -/
def writeNodeWithEdges (pkgs : Packages) (idText : Uuid → String) (now : Int)
    (store : GraphStore) (node : AinlMemoryNode) : Except String Unit × GraphStore :=
  match node.edges.find? fun edge => !store.nodeRowExists edge.targetId with
  | some edge =>
      (.error ("write_node_with_edges: missing target node " ++ idText edge.targetId), store)
  | none =>
      match store.persistNode pkgs now node with
      | (.ok (), store') => (.ok (), store')
      | (.error e, _) => (.error e, store)

/-- `insert_graph_edge_with_meta`, and `insert_graph_edge` for weight 1 and no metadata. -/
def insertGraphEdge (pkgs : Packages) (store : GraphStore) (fromId toId : Uuid) (label : String)
    (weight : F32) (metadata : Option Json) : Except String GraphStore :=
  store.replaceEdge ⟨fromId, toId, label, weight, metadata.map pkgs.metadataToString⟩

/-- `insert_trajectory_detail`, of a record given by its columns. -/
def insertTrajectoryDetail (store : GraphStore) (row : TrajectoryRow) : Except String GraphStore :=
  store.replaceTrajectory row

/-- `delete_trajectory_details_before`. -/
def deleteTrajectoryDetailsBefore (store : GraphStore) (agentId : String) (beforeUnix : Int) :
    Except String GraphStore :=
  if (trim agentId).isEmpty then .error "agent_id is empty"
  else
    .ok { store with
      trajectories := store.trajectories.filter fun row =>
        !(row.agentId == agentId && decide (row.recordedAt < beforeUnix)) }

/-! ### Snapshots -/

/-- The edge of a snapshot for a row. -/
def snapshotEdge (pkgs : Packages) (row : EdgeRow) : Except String SnapshotEdge :=
  match row.metadata.filter fun s => !s.isEmpty with
  | none => .ok ⟨row.fromId, row.toId, row.label, row.weight, none⟩
  | some s => (pkgs.metadataFromStr s).map fun v =>
      ⟨row.fromId, row.toId, row.label, row.weight, some v⟩

/-- `collect_snapshot_edges_for_id_set`. -/
def collectSnapshotEdgesForIdSet (pkgs : Packages) (store : GraphStore) (idSet : List Uuid) :
    Except String (List SnapshotEdge) :=
  (store.edges.entries.filter fun row => row.fromId ∈ idSet && row.toId ∈ idSet).mapM
    (snapshotEdge pkgs)

/-- `export_graph`. -/
def exportGraph (pkgs : Packages) (now : Int) (store : GraphStore) (agentId : String) :
    Except String AgentGraphSnapshot := do
  let nodes ← (store.nodes.entries.filter fun row =>
    pkgs.payloadAgentId row.payload == agentId).mapM fun row => pkgs.nodeFromStr row.payload
  let edges ← store.collectSnapshotEdgesForIdSet pkgs (nodes.map (·.id))
  return ⟨agentId, now, snapshotSchemaVersion, nodes, edges⟩

/-- The nodes of a snapshot, in the transaction of an import. The clock shows `now n` at the
`n`-th. -/
def importNodes (pkgs : Packages) (now : Nat → Int) (store : GraphStore)
    (nodes : List AinlMemoryNode) : GraphStore :=
  nodes.zipIdx.foldl (fun store node => store.ignoreNode (nodeRow pkgs (now node.2) node.1)) store

/-- `import_graph_checked`: a transaction, rolled back at an error. -/
def importGraphChecked (pkgs : Packages) (now : Nat → Int) (store : GraphStore)
    (snapshot : AgentGraphSnapshot) (allowDanglingEdges : Bool) :
    Except SnapshotImportError GraphStore :=
  if snapshot.schemaVersion ≠ snapshotSchemaVersion then
    .error (.unsupportedSchemaVersion snapshot.schemaVersion snapshotSchemaVersion)
  else
    ((snapshot.edges.map (snapshotEdgeRow pkgs)).foldlM (ignoreEdge !allowDanglingEdges)
      (store.importNodes pkgs now snapshot.nodes)).mapError .sqlite

end GraphStore

/-! ### Runs -/

/-- The calls that write a node. -/
inductive NodeWrite where
  | writeNode (node : AinlMemoryNode)
  | writeNodeWithEdges (node : AinlMemoryNode)
  | writeRuntimeState (state : RuntimeStateNode)

namespace NodeWrite

/-- The node a call writes. -/
def node (pkgs : Packages) : NodeWrite → AinlMemoryNode
  | .writeNode node => node
  | .writeNodeWithEdges node => node
  | .writeRuntimeState state => GraphStore.runtimeStateNode pkgs state

/-- A call on a store, where the clock shows `now`. -/
def run (pkgs : Packages) (idText : Uuid → String) (now : Int) (store : GraphStore) :
    NodeWrite → Except String Unit × GraphStore
  | .writeNode node => store.writeNode pkgs now node
  | .writeNodeWithEdges node => store.writeNodeWithEdges pkgs idText now node
  | .writeRuntimeState state => store.writeRuntimeState pkgs now state

end NodeWrite

/-- The stores the calls lead to from a new database. A call that fails leaves the store as it
is, but for `write_node`, which keeps what it has written. -/
inductive Reachable (pkgs : Packages) (idText : Uuid → String) : GraphStore → Prop where
  | empty : Reachable pkgs idText .empty
  | write {store : GraphStore} (now : Int) (call : NodeWrite) :
      Reachable pkgs idText store → Reachable pkgs idText (call.run pkgs idText now store).2
  | insertGraphEdge {store store' : GraphStore} (fromId toId : Uuid) (label : String)
      (weight : F32) (metadata : Option Json) : Reachable pkgs idText store →
      store.insertGraphEdge pkgs fromId toId label weight metadata = .ok store' →
      Reachable pkgs idText store'
  | insertTrajectoryDetail {store store' : GraphStore} (row : TrajectoryRow) :
      Reachable pkgs idText store → store.insertTrajectoryDetail row = .ok store' →
      Reachable pkgs idText store'
  | deleteTrajectoryDetailsBefore {store store' : GraphStore} (agentId : String)
      (beforeUnix : Int) : Reachable pkgs idText store →
      store.deleteTrajectoryDetailsBefore agentId beforeUnix = .ok store' →
      Reachable pkgs idText store'
  | importGraph {store store' : GraphStore} (now : Nat → Int) (snapshot : AgentGraphSnapshot)
      (allowDanglingEdges : Bool) : Reachable pkgs idText store →
      store.importGraphChecked pkgs now snapshot allowDanglingEdges = .ok store' →
      Reachable pkgs idText store'

end ArmaraOS.Memory
