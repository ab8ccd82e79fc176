import ArmaraOS.Lib.Machine
import ArmaraOS.Wire.Peer

/-!
The state of the peers and the connections that are open (`connect_to_peer`, `handle_inbound` and
`mark_disconnected` of `peer.rs` and `registry.rs`).

A connection is open from the handshake to the end of its `connection_loop`. All connections to
one node share an entry of the registry, which each of them overwrites when it opens and marks
as disconnected when it ends.
-/

namespace ArmaraOS.Wire

open ArmaraOS.Lib

/-! ### Runs of a node -/

/-- A connection in its `connection_loop`. -/
structure Connection where
  id : Nat
  peerNodeId : String
  sessionKey : String

/-- A node with its open connections; `opened` were opened so far. -/
structure Serving where
  node : PeerNode
  connections : Table Connection.id
  opened : Nat

namespace Serving

/-- `PeerNode::start`, with an empty registry. -/
def start (config : PeerConfig) : Serving := ⟨⟨config, .empty, ⟨[]⟩⟩, .empty, 0⟩

/-- What a handshake comes to: if it was completed, the connection loop is entered. -/
def enter (s : Serving) (node : PeerNode) : Except WireError (String × String) → Serving
  | .error _ => { s with node := node }
  | .ok (peerNodeId, sessionKey) =>
      { node := node
        connections := s.connections.insert ⟨s.opened, peerNodeId, sessionKey⟩
        opened := s.opened + 1 }

end Serving

/-- What happens at a node: a response to a handshake of `connect_to_peer` or of `send_to_peer`, a
first message on an inbound connection, a notification on an open connection, the end of one. -/
inductive PeerStep where
  | connectToPeer (env : Surroundings) (ourNonce : String) (response : WireMessage)
  | sendToPeer (env : Surroundings) (ourNonce : String) (response : WireMessage)
  | handleInbound (env : Surroundings) (msg : WireMessage)
  | notified (id : Nat) (notif : WireNotification)
  | ended (id : Nat)

section Step

variable (hmacSha256 : List UInt8 → List UInt8 → List UInt8)

/-- One step of a node. -/
def peerStep (s : Serving) : PeerStep → Serving
  | .connectToPeer env ourNonce response =>
      let (node, result) := s.node.connectToPeer hmacSha256 env ourNonce response
      s.enter node result
  | .sendToPeer env ourNonce response =>
      { s with node := (s.node.sendToPeer hmacSha256 env ourNonce response).1 }
  | .handleInbound env msg =>
      let (node, _, result) := s.node.handleInbound hmacSha256 env msg
      s.enter node result
  | .notified id notif =>
      match s.connections.find id with
      | none => s
      | some connection =>
          { s with node := { s.node with
              registry := handleNotification connection.peerNodeId notif s.node.registry } }
  | .ended id =>
      match s.connections.find id with
      | none => s
      | some connection =>
          { s with
            node := { s.node with
              registry := s.node.registry.markDisconnected connection.peerNodeId }
            connections := s.connections.erase id }

end Step

/-- A peer is connected exactly if a connection to it is open. -/
def StatesMatch (s : Serving) : Prop :=
  ∀ entry ∈ s.node.registry.entries, entry.state = .connected ↔
    ∃ connection ∈ s.connections.entries, connection.peerNodeId = entry.nodeId

instance (s : Serving) : Decidable (StatesMatch s) :=
  inferInstanceAs (Decidable (∀ entry ∈ s.node.registry.entries, _ ↔ _))

/-- No `ShuttingDown` is received. -/
def NotShuttingDown (_ : Serving) : PeerStep → Prop
  | .notified _ .shuttingDown => False
  | _ => True

/-- A connection that ends is the last one that is open for its peer. -/
def LastOfPeer (s : Serving) : PeerStep → Prop
  | .ended id => ∀ connection ∈ s.connections.entries, connection.id = id →
      ∀ other ∈ s.connections.entries, other.id ≠ id → other.peerNodeId ≠ connection.peerNodeId
  | _ => True

instance (s : Serving) (step : PeerStep) : Decidable (LastOfPeer s step) :=
  match step with
  | .ended _ => inferInstanceAs (Decidable (∀ connection ∈ s.connections.entries, _ → _))
  | .connectToPeer .. | .sendToPeer .. | .handleInbound .. | .notified .. => isTrue trivial

/-! ### What one step preserves -/

section Registry

variable {peers : PeerRegistry} {nodeId : String} {entry : PeerEntry}

/-- A rewrite of the entry at a node id that keeps the state keeps all states. -/
theorem mem_modify_agents {f : List RemoteAgentInfo → List RemoteAgentInfo}
    (h : entry ∈ (peers.modify nodeId (fun e => { e with agents := f e.agents })
      fun _ h => h).entries) :
    ∃ e ∈ peers.entries, entry.nodeId = e.nodeId ∧ entry.state = e.state := by
  rcases (Table.mem_modify _).mp h with ⟨hmem, -⟩ | ⟨e, hmem, -, rfl⟩
  · exact ⟨entry, hmem, rfl, rfl⟩
  · exact ⟨e, hmem, rfl, rfl⟩

theorem mem_modify_agents_of_mem (nodeId : String)
    (f : List RemoteAgentInfo → List RemoteAgentInfo) (h : entry ∈ peers.entries) :
    ∃ e ∈ (peers.modify nodeId (fun e => { e with agents := f e.agents }) fun _ h => h).entries,
      e.nodeId = entry.nodeId := by
  by_cases hself : entry.nodeId = nodeId
  · exact ⟨_, (Table.mem_modify _).mpr (.inr ⟨entry, h, hself, rfl⟩), rfl⟩
  · exact ⟨entry, (Table.mem_modify _).mpr (.inl ⟨h, hself⟩), rfl⟩

theorem mem_markDisconnected {e : PeerEntry} :
    e ∈ (peers.markDisconnected nodeId).entries ↔
      (e ∈ peers.entries ∧ e.nodeId ≠ nodeId) ∨
        ∃ e' ∈ peers.entries, e'.nodeId = nodeId ∧ { e' with state := .disconnected } = e :=
  Table.mem_modify _

end Registry

/-- The invariant: the states match, the open connections have distinct ids, and each has an
entry for its peer. -/
structure Consistent (s : Serving) : Prop where
  states : StatesMatch s
  opened : ∀ connection ∈ s.connections.entries, connection.id < s.opened
  known : ∀ connection ∈ s.connections.entries,
    ∃ entry ∈ s.node.registry.entries, entry.nodeId = connection.peerNodeId

namespace Consistent

variable {s : Serving}

theorem start (config : PeerConfig) : Consistent (.start config) where
  states _ hmem := absurd hmem Table.not_mem_empty
  opened _ hmem := absurd hmem Table.not_mem_empty
  known _ hmem := absurd hmem Table.not_mem_empty

/-- A step that leaves registry and connections. -/
theorem same (h : Consistent s) {node : PeerNode} (hregistry : node.registry = s.node.registry) :
    Consistent { s with node := node } where
  states := by
    intro entry hmem
    exact h.states entry (hregistry ▸ hmem)
  opened := h.opened
  known := by
    intro connection hmem
    dsimp only
    rw [hregistry]
    exact h.known connection hmem

/-- A connection opens: its peer is registered as connected. -/
theorem enter (h : Consistent s) {node : PeerNode} (entry : PeerEntry) {sessionKey : String}
    (hregistry : node.registry = s.node.registry.addPeer entry)
    (hstate : entry.state = .connected) :
    Consistent (s.enter node (.ok (entry.nodeId, sessionKey))) := by
  have hfresh : ∀ connection ∈ s.connections.entries, connection.id ≠ s.opened :=
    fun connection hmem => (h.opened connection hmem).ne
  have hconnections : ∀ connection,
      connection ∈ (s.enter node (.ok (entry.nodeId, sessionKey))).connections.entries ↔
        connection = ⟨s.opened, entry.nodeId, sessionKey⟩ ∨
          connection ∈ s.connections.entries := by
    intro connection
    refine Table.mem_insert.trans (or_congr_right ?_)
    exact and_iff_left_of_imp (hfresh connection)
  have hentries : ∀ e, e ∈ (s.enter node (.ok (entry.nodeId, sessionKey))).node.registry.entries ↔
      e = entry ∨ (e ∈ s.node.registry.entries ∧ e.nodeId ≠ entry.nodeId) := by
    intro e
    simp only [Serving.enter, hregistry]
    exact Table.mem_insert
  constructor
  · intro e he
    simp only [hconnections]
    rcases (hentries e).mp he with rfl | ⟨he, hother⟩
    · exact iff_of_true hstate ⟨_, .inl rfl, rfl⟩
    · rw [h.states e he]
      constructor
      · rintro ⟨connection, hmem, hpeer⟩
        exact ⟨connection, .inr hmem, hpeer⟩
      · rintro ⟨connection, rfl | hmem, hpeer⟩
        · exact absurd hpeer.symm hother
        · exact ⟨connection, hmem, hpeer⟩
  · intro connection hmem
    rcases (hconnections connection).mp hmem with rfl | hmem
    · exact Nat.lt_succ_self _
    · exact Nat.lt_succ_of_lt (h.opened connection hmem)
  · intro connection hmem
    rcases (hconnections connection).mp hmem with rfl | hmem
    · exact ⟨entry, (hentries entry).mpr (.inl rfl), rfl⟩
    · obtain ⟨e, he, hpeer⟩ := h.known connection hmem
      by_cases hself : e.nodeId = entry.nodeId
      · exact ⟨entry, (hentries entry).mpr (.inl rfl), hself.symm.trans hpeer⟩
      · exact ⟨e, (hentries e).mpr (.inr ⟨he, hself⟩), hpeer⟩

/-- The agents of a peer change. -/
theorem agents (h : Consistent s) (nodeId : String)
    (f : List RemoteAgentInfo → List RemoteAgentInfo) :
    Consistent { s with node := { s.node with
      registry := s.node.registry.modify nodeId (fun e => { e with agents := f e.agents })
        (fun _ h => h) } } where
  states := by
    intro entry hmem
    obtain ⟨e, he, hid, hstate⟩ := mem_modify_agents hmem
    rw [hstate, hid]
    exact h.states e he
  opened := h.opened
  known := by
    intro connection hmem
    obtain ⟨e, he, hpeer⟩ := h.known connection hmem
    obtain ⟨e', he', hid⟩ := mem_modify_agents_of_mem nodeId f he
    exact ⟨e', he', hid.trans hpeer⟩

/-- The last connection of a peer ends. -/
theorem ended (h : Consistent s) {connection : Connection}
    (hopen : connection ∈ s.connections.entries)
    (hlast : ∀ other ∈ s.connections.entries, other.id ≠ connection.id →
      other.peerNodeId ≠ connection.peerNodeId) :
    Consistent { s with
      node := { s.node with
        registry := s.node.registry.markDisconnected connection.peerNodeId }
      connections := s.connections.erase connection.id } where
  states := by
    intro entry hmem
    simp only [Table.mem_erase]
    rcases mem_markDisconnected.mp hmem with ⟨hmem, hother⟩ | ⟨e, -, hself, rfl⟩
    · rw [h.states entry hmem]
      constructor
      · rintro ⟨other, hother', hpeer⟩
        refine ⟨other, ⟨hother', ?_⟩, hpeer⟩
        intro hid
        rw [Table.eq_of_key_eq hother' hopen hid] at hpeer
        exact hother hpeer.symm
      · rintro ⟨other, ⟨hother', -⟩, hpeer⟩
        exact ⟨other, hother', hpeer⟩
    · refine iff_of_false (by simp) ?_
      rintro ⟨other, ⟨hmem, hne⟩, hpeer⟩
      exact hlast other hmem hne (hpeer.trans hself)
  opened := fun other hmem => h.opened other (Table.mem_erase.mp hmem).1
  known := by
    intro other hmem
    obtain ⟨e, he, hpeer⟩ := h.known other (Table.mem_erase.mp hmem).1
    by_cases hself : e.nodeId = connection.peerNodeId
    · exact ⟨_, mem_markDisconnected.mpr (.inr ⟨e, he, hself, rfl⟩), hpeer⟩
    · exact ⟨e, mem_markDisconnected.mpr (.inl ⟨he, hself⟩), hpeer⟩

end Consistent

section Runs

variable {hmacSha256 : List UInt8 → List UInt8 → List UInt8}

theorem consistent_peerStep (s : Serving) (step : PeerStep) (h : Consistent s)
    (hquiet : NotShuttingDown s step) (hlast : LastOfPeer s step) :
    Consistent (peerStep hmacSha256 s step) := by
  cases step with
  | connectToPeer env ourNonce response =>
      simp only [peerStep]
      by_cases hrefused : ∀ ack, response.kind = .response (.handshakeAck ack) →
          ¬ s.node.Admits hmacSha256 env.now ack
      · obtain ⟨node, e, hresult, hregistry, -⟩ := PeerNode.connectToPeer_refused ourNonce hrefused
        rw [hresult]
        exact h.same hregistry
      · push Not at hrefused
        obtain ⟨ack, hkind, hadmits⟩ := hrefused
        rw [PeerNode.connectToPeer_admitted hkind hadmits]
        exact h.enter (registered ack env) rfl rfl
  | sendToPeer env ourNonce response =>
      exact h.same (PeerNode.sendToPeer_registry env ourNonce response).1
  | handleInbound env msg =>
      simp only [peerStep]
      by_cases hrefused : ∀ fields, msg.kind = .request (.handshake fields) →
          ¬ s.node.Admits hmacSha256 env.now fields
      · obtain ⟨node, code, message, e, hresult, hnode⟩ :=
          PeerNode.handleInbound_refused hrefused
        rw [hresult]
        refine h.same ?_
        rcases hnode with rfl | ⟨nonce, rfl⟩ <;> rfl
      · push Not at hrefused
        obtain ⟨fields, hkind, hadmits⟩ := hrefused
        rw [PeerNode.handleInbound_admitted hkind hadmits]
        cases env.writeError with
        | some message => exact h.same rfl
        | none => exact h.enter (registered fields env) rfl rfl
  | notified id notif =>
      simp only [peerStep]
      split
      · exact h
      · rename_i connection hfind
        cases notif with
        | agentSpawned agent => exact h.agents _ _
        | agentTerminated agentId => exact h.agents _ _
        | shuttingDown => exact hquiet.elim
  | ended id =>
      simp only [peerStep]
      split
      · exact h
      · rename_i connection hfind
        obtain ⟨hopen, rfl⟩ := Table.find_eq_some_iff.mp hfind
        exact h.ended hopen (hlast connection hopen rfl)

/-- When a connection ends while another one to its peer is open, the peer is marked as
disconnected. -/
theorem not_statesMatch_peerStep (s : Serving) (step : PeerStep) (h : Consistent s)
    (hquiet : NotShuttingDown s step) (hnot : ¬ LastOfPeer s step) :
    ¬ StatesMatch (peerStep hmacSha256 s step) := by
  cases step with
  | ended id =>
      simp only [LastOfPeer] at hnot
      push Not at hnot
      obtain ⟨connection, hopen, rfl, other, hother, hne, hpeer⟩ := hnot
      obtain ⟨e, he, hid⟩ := h.known connection hopen
      rw [peerStep, Table.find_eq_some_iff.mpr ⟨hopen, rfl⟩]
      intro hmatch
      have hmarked : { e with state := .disconnected } ∈
          (s.node.registry.markDisconnected connection.peerNodeId).entries :=
        mem_markDisconnected.mpr (.inr ⟨e, he, hid, rfl⟩)
      have hstate : PeerState.disconnected = .connected := (hmatch _ hmarked).mpr
        ⟨other, Table.mem_erase.mpr ⟨hother, hne⟩, hpeer.trans hid.symm⟩
      cases hstate
  | _ => exact absurd trivial hnot

/-- **The states of the peers and the open connections.** In a run without `ShuttingDown`, a
registered peer is at every point connected exactly while a connection to it is open, if and only
if every connection that ends is the last one open for its peer. -/
theorem peer_states_match_iff (hmacSha256 : List UInt8 → List UInt8 → List UInt8)
    (config : PeerConfig) (steps : List PeerStep)
    (hquiet : Guarded (peerStep hmacSha256) NotShuttingDown (.start config) steps) :
    (∀ s ∈ passed (peerStep hmacSha256) (.start config) steps, StatesMatch s) ↔
      Guarded (peerStep hmacSha256) LastOfPeer (.start config) steps :=
  passed_safe_iff_of_assumed (fun _ h => h.states) consistent_peerStep not_statesMatch_peerStep
    (Consistent.start config) hquiet

/-- `node-2` at work: `node-1` opens a connection and, in `send_to_peer`, another one for a single
message, which ends; or the first one ends before the second one opens. -/
def firstInbound : PeerStep := .handleInbound (Sample.env 0 Sample.serverNonce)
  ⟨"m1", .request (.handshake
    ((Sample.node "node-1").ownFields Sample.hmacSha256 (Sample.env 0 Sample.clientNonce)))⟩

@[inherit_doc firstInbound] def secondInbound : PeerStep :=
  .handleInbound (Sample.env 1 Sample.laterServerNonce)
    ⟨"m2", .request (.handshake
      ((Sample.node "node-1").ownFields Sample.hmacSha256 (Sample.env 1 Sample.laterNonce)))⟩

/-- The end of the short connection marks the peer as disconnected while the first one is open. -/
theorem short_connection_disconnects : ¬ ∀ (hmacSha256 : List UInt8 → List UInt8 → List UInt8)
    (config : PeerConfig) (steps : List PeerStep),
    Guarded (peerStep hmacSha256) NotShuttingDown (.start config) steps →
      ∀ s ∈ passed (peerStep hmacSha256) (.start config) steps, StatesMatch s := by
  intro h
  have hmatch := h Sample.hmacSha256 (Sample.node "node-2").config
    [firstInbound, secondInbound, .ended 1] ⟨trivial, trivial, trivial, trivial⟩
  revert hmatch
  decide +kernel

theorem peer_states_match_iff_successive :
    Guarded (peerStep Sample.hmacSha256) LastOfPeer (.start (Sample.node "node-2").config)
        [firstInbound, .ended 0, secondInbound] ∧
      ∀ s ∈ passed (peerStep Sample.hmacSha256) (.start (Sample.node "node-2").config)
        [firstInbound, .ended 0, secondInbound], StatesMatch s := by
  have hiff := peer_states_match_iff Sample.hmacSha256 (Sample.node "node-2").config
    [firstInbound, .ended 0, secondInbound] ⟨trivial, trivial, trivial, trivial⟩
  have hlast : Guarded (peerStep Sample.hmacSha256) LastOfPeer
      (.start (Sample.node "node-2").config) [firstInbound, .ended 0, secondInbound] := by
    decide +kernel
  exact ⟨hlast, hiff.mpr hlast⟩

end Runs

end ArmaraOS.Wire
