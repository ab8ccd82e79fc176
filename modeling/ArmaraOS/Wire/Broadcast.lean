import ArmaraOS.Wire.Frames

/-!
Broadcast notifications (`broadcast_notification` of `peer.rs`), and a connection as its receiver
takes it, from the first byte on.

A broadcast dials a peer and writes one authenticated frame, under a key made of the shared secret
and a nonce that it tells nobody. The receiver reads the first frame of a connection without
authentication and takes nothing but a handshake for it.
-/

namespace ArmaraOS.Wire

open ArmaraOS.Lib

/-! ### The receiver -/

/-- `PeerHandle`. -/
structure PeerHandle where
  localAgents : List RemoteAgentInfo
  handleAgentMessage : String → String → Option String → Except String String
  discoverAgents : String → List RemoteAgentInfo
  uptimeSecs : UInt64

/-- `handle_request_in_loop`. -/
def handleRequestInLoop (handle : PeerHandle) (msg : WireMessage) : WireMessage :=
  let response : WireResponse :=
    match msg.kind with
    | .request .ping => .pong handle.uptimeSecs
    | .request (.discover query) => .discoverResult (handle.discoverAgents query)
    | .request (.agentMessage agent message sender) =>
        match handle.handleAgentMessage agent message sender with
        | .ok text => .agentResponse text
        | .error e => .error 500 e
    | _ => .error 400 "Unexpected request in connection loop"
  ⟨msg.id, .response response⟩

/-- `read_message`, behind the length. -/
def readUnsigned (json : WireJson) (len : Nat) (bytes : List UInt8) : ReadResult :=
  if maxMessageSize < len then
    .failed (.messageTooLarge (.ofNat len) (.ofNat maxMessageSize))
  else if bytes.length < len then .waiting
  else
    match json.fromSlice (bytes.take len) with
    | .error e => .failed (.json e)
    | .ok msg => .message msg (bytes.drop len)

/-- `read_message`, from the bytes that have arrived. -/
def readMessage (json : WireJson) : List UInt8 → ReadResult
  | b₀ :: b₁ :: b₂ :: b₃ :: bytes => readUnsigned json (decodeLength b₀ b₁ b₂ b₃) bytes
  | _ => .waiting

/-- What a connection has done: the registry, the notifications that were applied and the
responses that were written, in their order. -/
structure Handled where
  registry : PeerRegistry
  notifications : List WireNotification
  responses : List WireMessage

/-- A notification that was applied before all others. -/
def Handled.notified (notif : WireNotification) (h : Handled) : Handled :=
  { h with notifications := notif :: h.notifications }

/-- A response that was written before all others. -/
def Handled.responded (response : WireMessage) (h : Handled) : Handled :=
  { h with responses := response :: h.responses }

section Receiver

variable (hmacSha256 : List UInt8 → List UInt8 → List UInt8) (json : WireJson)
  (handle : PeerHandle)

/-- `connection_loop` with a session key, over all bytes that arrive; each frame takes some of
them. `writes` says which responses can be written. -/
def connectionLoop (writes : WireMessage → Bool) (peerNodeId sessionKey : String) :
    Nat → PeerRegistry → List UInt8 → Handled
  | 0, registry, _ => ⟨registry, [], []⟩
  | fuel + 1, registry, bytes =>
      match readMessageAuthenticated hmacSha256 json sessionKey bytes with
      | .message msg rest =>
          match msg.kind with
          | .notification notif =>
              (connectionLoop writes peerNodeId sessionKey fuel
                (handleNotification peerNodeId notif registry) rest).notified notif
          | .request _ =>
              let response := handleRequestInLoop handle msg
              if writes response then
                (connectionLoop writes peerNodeId sessionKey fuel registry rest).responded response
              else ⟨registry, [], []⟩
          | .response _ => connectionLoop writes peerNodeId sessionKey fuel registry rest
      | _ => ⟨registry, [], []⟩

/-- `PeerNode::handle_inbound` on all bytes that arrive on a connection: the node afterwards and
what the connection has done. -/
def PeerNode.inbound (node : PeerNode) (env : Surroundings) (writes : WireMessage → Bool)
    (bytes : List UInt8) : PeerNode × Handled :=
  match readMessage json bytes with
  | .message msg rest =>
      match node.handleInbound hmacSha256 env msg with
      | (node, _, .ok (peerNodeId, sessionKey)) =>
          let handled := connectionLoop hmacSha256 json handle writes peerNodeId sessionKey
            rest.length node.registry rest
          ({ node with registry := handled.registry.markDisconnected peerNodeId }, handled)
      | (node, _, .error _) => (node, ⟨node.registry, [], []⟩)
  | _ => (node, ⟨node.registry, [], []⟩)

end Receiver

/-! ### The sender -/

/-- `PeerRegistry::connected_peers`. -/
def PeerRegistry.connectedPeers (peers : PeerRegistry) : List PeerEntry :=
  peers.entries.filter fun entry => entry.state == .connected

/-- What a broadcast meets at one peer: the two UUIDs it draws, and the errors of connecting and
of writing. -/
structure Dial where
  msgId : String
  nonce : String
  connectError : Option String
  writeError : Option String

section Sender

variable (hmacSha256 : List UInt8 → List UInt8 → List UInt8) (json : WireJson)

/-- The body of the loop of `broadcast_notification`: the bytes written to one peer. -/
def notifyPeer (notification : WireNotification) (sharedSecret : String) (peer : PeerEntry)
    (dial : Dial) : Except (String × WireError) (List UInt8) :=
  match dial.connectError, dial.writeError with
  | some e, _ => .error (peer.nodeId, .io e)
  | none, some e => .error (peer.nodeId, .io e)
  | none, none =>
      let sessionKey := hmacSign hmacSha256 sharedSecret (asBytes dial.nonce)
      .ok (writeMessageAuthenticated hmacSha256 json sessionKey
        ⟨dial.msgId, .notification notification⟩)

/-- `broadcast_notification`: what it comes to at each connected peer. -/
def notifyPeers (registry : PeerRegistry) (notification : WireNotification)
    (sharedSecret : String) (dial : PeerEntry → Dial) :
    List (PeerEntry × Except (String × WireError) (List UInt8)) :=
  registry.connectedPeers.map fun peer =>
    (peer, notifyPeer hmacSha256 json notification sharedSecret peer (dial peer))

/-- The bytes that arrive lead the receiver to apply the notification exactly once. -/
def AppliedOnce (handle : PeerHandle) (receiver : PeerNode) (env : Surroundings)
    (writes : WireMessage → Bool) (notification : WireNotification) (bytes : List UInt8) : Prop :=
  (receiver.inbound hmacSha256 json handle env writes bytes).2.notifications.count notification = 1

end Sender

/-! ### What a connection applies -/

section Reading

variable {hmacSha256 : List UInt8 → List UInt8 → List UInt8} {json : WireJson}
  {handle : PeerHandle}

/-- The reader sees the length that was written, up to the width of the field. -/
theorem readMessage_toBeBytes (n : Nat) (bytes : List UInt8) :
    readMessage json (toBeBytes n ++ bytes) = readUnsigned json (n % 2 ^ 32) bytes := by
  rw [← decodeLength_toBeBytes n]
  rfl

end Reading

/-! ### The first frame of a broadcast -/

/-- The whitespace of JSON. -/
def jsonSpaces : List UInt8 := [0x20, 0x0A, 0x0D, 0x09]

/-- `serde_json::from_slice` takes a whole text: not one that is cut off, and none with more than
whitespace behind it. -/
structure WireJson.TakesWhole (json : WireJson) : Prop where
  truncated : ∀ msg front, front <+: json.toVec msg → front ≠ json.toVec msg →
    ∃ e, json.fromSlice front = .error e
  trailing : ∀ msg behind, (∃ b ∈ behind, b ∉ jsonSpaces) →
    ∃ e, json.fromSlice (json.toVec msg ++ behind) = .error e

/-- No hexadecimal digit is whitespace. -/
theorem hexDigit_not_space : ∀ {n : Nat}, n < 16 →
    ∀ b ∈ String.utf8EncodeChar n.digitChar, b ∉ jsonSpaces := by
  decide +kernel

section Broadcast

variable {hmacSha256 : List UInt8 → List UInt8 → List UInt8} {json : WireJson}
  (hdigest : ∀ key data, (hmacSha256 key data).length = 32) (hjson : json.TakesWhole)

include hdigest

theorem exists_mac_not_space (secret : String) (data : List UInt8) :
    ∃ b ∈ asBytes (hmacSign hmacSha256 secret data), b ∉ jsonSpaces := by
  have hlength := hdigest (asBytes secret) data
  cases hmac : hmacSha256 (asBytes secret) data with
  | nil => simp [hmac] at hlength
  | cons b bytes =>
      have hdigit : b.toNat / 16 < 16 := by
        have hlt := b.toNat_lt
        omega
      obtain ⟨c, hc⟩ : ∃ c, c ∈ String.utf8EncodeChar (b.toNat / 16).digitChar :=
        List.exists_mem_of_length_pos (String.length_utf8EncodeChar _ ▸ Char.utf8Size_pos _)
      refine ⟨c, ?_, hexDigit_not_space hdigit c hc⟩
      rw [hmacSign, hmac, hexEncode, asBytes_ofList, List.flatMap_cons]
      exact List.mem_append_left _ hc

include hjson

/-- An authenticated frame is no message for the reader that does not authenticate. -/
theorem readMessage_writeMessageAuthenticated (sessionKey : String) (msg msg' : WireMessage)
    (rest : List UInt8) :
    readMessage json (writeMessageAuthenticated hmacSha256 json sessionKey msg) ≠
      .message msg' rest := by
  obtain ⟨b, hb, hdigit⟩ := exists_mac_not_space hdigest sessionKey (json.toVec msg)
  simp only [writeMessageAuthenticated]
  set mac := asBytes (hmacSign hmacSha256 sessionKey (json.toVec msg))
  rw [readMessage_toBeBytes, readUnsigned]
  split
  · intro h
    cases h
  · next hfits =>
      split
      · intro h
        cases h
      · have hrefused : ∃ e, json.fromSlice
            ((json.toVec msg ++ mac).take (((json.toVec msg).length + mac.length) % 2 ^ 32)) =
              .error e := by
          by_cases hwidth : (json.toVec msg).length + mac.length < 2 ^ 32
          · rw [Nat.mod_eq_of_lt hwidth, List.take_of_length_le (by simp)]
            exact hjson.trailing msg mac ⟨b, hb, hdigit⟩
          · -- The length was cut to the width of the field, far below that of the text.
            have hmac : mac.length = 64 := by
              simp only [mac, hmacSign, length_asBytes_hexEncode, hdigest]
            have hshort : ((json.toVec msg).length + mac.length) % 2 ^ 32 <
                (json.toVec msg).length := by
              unfold maxMessageSize at hfits
              omega
            rw [List.take_append_of_le_length hshort.le]
            apply hjson.truncated msg _ (List.take_prefix _ _)
            intro hwhole
            have hlength := congrArg List.length hwhole
            rw [List.length_take] at hlength
            omega
        obtain ⟨e, he⟩ := hrefused
        rw [he]
        intro h
        cases h

/-- A receiver does nothing on a connection that a broadcast has opened. -/
theorem inbound_notifyPeer {notification : WireNotification} {sharedSecret : String}
    {peer : PeerEntry} {dial : Dial} {bytes : List UInt8}
    (hsent : notifyPeer hmacSha256 json notification sharedSecret peer dial = .ok bytes)
    (handle : PeerHandle) (receiver : PeerNode) (env : Surroundings)
    (writes : WireMessage → Bool) :
    receiver.inbound hmacSha256 json handle env writes bytes =
      (receiver, ⟨receiver.registry, [], []⟩) := by
  unfold notifyPeer at hsent
  split at hsent
  · cases hsent
  · cases hsent
  · cases hsent
    rw [PeerNode.inbound]
    split
    · next hread =>
        exact absurd hread (readMessage_writeMessageAuthenticated hdigest hjson _ _ _ _)
    · rfl

end Broadcast

/-- **No receiver applies a notification that is broadcast.** -/
theorem broadcast_not_applied (hmacSha256 : List UInt8 → List UInt8 → List UInt8)
    (json : WireJson) (hdigest : ∀ key data, (hmacSha256 key data).length = 32)
    (hjson : json.TakesWhole) (registry : PeerRegistry) (notification : WireNotification)
    (sharedSecret : String) (dial : PeerEntry → Dial) :
    ∀ peer bytes, (peer, .ok bytes) ∈
        notifyPeers hmacSha256 json registry notification sharedSecret dial →
      ∀ handle receiver env writes, receiver.config.sharedSecret = sharedSecret →
        ¬ AppliedOnce hmacSha256 json handle receiver env writes notification bytes := by
  intro peer bytes hmem handle receiver env writes _
  obtain ⟨peer', -, heq⟩ := List.mem_map.mp hmem
  obtain ⟨rfl, hsent⟩ := Prod.mk.inj heq
  rw [AppliedOnce, inbound_notifyPeer hdigest hjson hsent]
  simp

/-! ### A peer that is told of a shutdown -/

/-- The message that tells a peer of a shutdown, its JSON text, and HMAC-SHA256 of the nonce and
of the text. -/
def shutdownMessage : WireMessage := ⟨"m3", .notification .shuttingDown⟩

@[inherit_doc shutdownMessage] def shutdownText : List UInt8 :=
  asBytes "\x7b\"id\":\"m3\",\"type\":\"notification\",\"event\":\"shutting_down\"\x7d"

@[inherit_doc shutdownMessage] def shutdownHmac (_ data : List UInt8) : List UInt8 :=
  if data = asBytes Sample.clientNonce then
    [172, 108, 218, 88, 62, 120, 108, 190, 100, 13, 181, 175, 191, 101, 113, 105,
      44, 115, 191, 46, 144, 69, 217, 80, 153, 239, 30, 20, 229, 230, 221, 103]
  else
    [5, 164, 183, 107, 63, 16, 122, 164, 246, 198, 254, 122, 208, 85, 175, 65,
      127, 51, 172, 75, 216, 191, 90, 24, 188, 108, 106, 174, 146, 137, 213, 226]

@[inherit_doc shutdownMessage] def shutdownJson : WireJson where
  toVec _ := shutdownText
  fromSlice bytes := if bytes = shutdownText then .ok shutdownMessage else .error "expected value"

theorem length_shutdownHmac (key data : List UInt8) : (shutdownHmac key data).length = 32 := by
  unfold shutdownHmac
  split <;> rfl

theorem shutdownJson_takesWhole : shutdownJson.TakesWhole where
  truncated _ _ _ hne := ⟨"expected value", if_neg hne⟩
  trailing _ behind h := by
    refine ⟨"expected value", if_neg fun hsame => ?_⟩
    obtain ⟨b, hb, -⟩ := h
    rw [List.append_right_eq_self.mp hsame] at hb
    exact List.not_mem_nil hb

/-- A peer that is connected, and the registry of the node that broadcasts. -/
def shutdownPeer : PeerEntry :=
  ⟨"node-2", "node-2", "127.0.0.1:9001", [], .connected, 0, protocolVersion⟩

@[inherit_doc shutdownPeer] def shutdownRegistry : PeerRegistry :=
  PeerRegistry.addPeer .empty shutdownPeer

/-- The peer is reached. -/
def shutdownDial (_ : PeerEntry) : Dial := ⟨"m3", Sample.clientNonce, none, none⟩

/-- The bytes that reach the peer. -/
def shutdownBytes : List UInt8 :=
  writeMessageAuthenticated shutdownHmac shutdownJson
    (hmacSign shutdownHmac Sample.secret (asBytes Sample.clientNonce)) shutdownMessage

/-- A handle without agents. -/
def idleHandle : PeerHandle := ⟨[], fun _ _ _ => .error "no such agent", fun _ => [], 0⟩

theorem shutdown_sent : (shutdownPeer, .ok shutdownBytes) ∈ notifyPeers shutdownHmac shutdownJson
    shutdownRegistry .shuttingDown Sample.secret shutdownDial :=
  List.mem_cons_self

theorem broadcast_not_applied_shutdown :
    ¬ AppliedOnce shutdownHmac shutdownJson idleHandle (Sample.node "node-2")
      (Sample.env 0 Sample.serverNonce) (fun _ => true) .shuttingDown shutdownBytes :=
  broadcast_not_applied shutdownHmac shutdownJson length_shutdownHmac shutdownJson_takesWhole
    shutdownRegistry .shuttingDown Sample.secret shutdownDial shutdownPeer shutdownBytes
    shutdown_sent idleHandle (Sample.node "node-2") (Sample.env 0 Sample.serverNonce)
    (fun _ => true) rfl

theorem shutdown_is_lost :
    ¬ ∀ (hmacSha256 : List UInt8 → List UInt8 → List UInt8) (json : WireJson),
      (∀ key data, (hmacSha256 key data).length = 32) → json.TakesWhole →
      ∀ (registry : PeerRegistry) (notification : WireNotification) (sharedSecret : String)
        (dial : PeerEntry → Dial), ∀ peer bytes, (peer, .ok bytes) ∈
          notifyPeers hmacSha256 json registry notification sharedSecret dial →
        ∀ handle receiver env writes, receiver.config.sharedSecret = sharedSecret →
          AppliedOnce hmacSha256 json handle receiver env writes notification bytes := by
  intro hall
  have happlied := hall shutdownHmac shutdownJson length_shutdownHmac shutdownJson_takesWhole
    shutdownRegistry .shuttingDown Sample.secret shutdownDial shutdownPeer shutdownBytes
    shutdown_sent idleHandle (Sample.node "node-2") (Sample.env 0 Sample.serverNonce)
    (fun _ => true) rfl
  have hsent : notifyPeer shutdownHmac shutdownJson .shuttingDown Sample.secret shutdownPeer
      (shutdownDial shutdownPeer) = .ok shutdownBytes := rfl
  rw [AppliedOnce, inbound_notifyPeer length_shutdownHmac shutdownJson_takesWhole hsent]
    at happlied
  exact absurd happlied Nat.zero_ne_one

end ArmaraOS.Wire
