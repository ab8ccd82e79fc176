import ArmaraOS.Lib.Text
import ArmaraOS.Wire.Registry

/-!
The handshake of a peer node (`openfang-wire/src/peer.rs`).

HMAC-SHA256 is a parameter, a function of a key and data to a digest. An `Instant` is a number of
nanoseconds. A task that waits for a message is cut there: each function below stands for what
runs from the message that was read to the next wait.
-/

namespace ArmaraOS.Wire

open ArmaraOS.Text ArmaraOS.Lib

/-! ### Message authentication -/

/-- `str::as_bytes`. -/
def asBytes (text : String) : List UInt8 := text.toUTF8.data.toList

/-- `hex::encode`. -/
def hexEncode (bytes : List UInt8) : String :=
  String.ofList (bytes.flatMap fun b => [(b.toNat / 16).digitChar, (b.toNat % 16).digitChar])

section Hmac

variable (hmacSha256 : List UInt8 → List UInt8 → List UInt8)

/-- `hmac_sign`. -/
def hmacSign (secret : String) (data : List UInt8) : String :=
  hexEncode (hmacSha256 (asBytes secret) data)

/-- `hmac_verify`. -/
def hmacVerify (secret : String) (data : List UInt8) (signature : String) : Bool :=
  asBytes (hmacSign hmacSha256 secret data) == asBytes signature

/-- `derive_session_key`. -/
def deriveSessionKey (sharedSecret ourNonce theirNonce : String) : String :=
  hmacSign hmacSha256 sharedSecret (asBytes (ourNonce ++ theirNonce))

end Hmac

theorem asBytes_injective : Function.Injective asBytes := by
  intro s t h
  have hbytes : s.toUTF8 = t.toUTF8 := ByteArray.ext (Array.toList_inj.mp h)
  exact String.toByteArray_inj.mp hbytes

@[simp] theorem asBytes_inj {s t : String} : asBytes s = asBytes t ↔ s = t :=
  asBytes_injective.eq_iff

theorem utf8Size_digitChar : ∀ {n : Nat}, n < 16 → n.digitChar.utf8Size = 1 := by
  decide

theorem asBytes_ofList (cs : List Char) :
    asBytes (String.ofList cs) = cs.flatMap String.utf8EncodeChar := by
  simp [asBytes, List.utf8Encode, List.data_toByteArray]

/-- A character that is no digit is in no encoded text. -/
theorem notMem_hexEncode {c : Char} (hc : ∀ n, n < 16 → c ≠ n.digitChar) (bytes : List UInt8) :
    c ∉ (hexEncode bytes).toList := by
  intro hmem
  rw [hexEncode, String.toList_ofList] at hmem
  obtain ⟨b, -, hb⟩ := List.mem_flatMap.mp hmem
  have hlt := b.toNat_lt
  simp only [List.mem_cons, List.not_mem_nil, or_false] at hb
  rcases hb with hb | hb
  · exact hc _ (by omega) hb
  · exact hc _ (by omega) hb

/-- Two characters for a byte. -/
theorem length_asBytes_hexEncode (bytes : List UInt8) :
    (asBytes (hexEncode bytes)).length = 2 * bytes.length := by
  rw [hexEncode, asBytes_ofList]
  induction bytes with
  | nil => rfl
  | cons b bytes ih =>
      have hhigh : b.toNat / 16 < 16 := by have := b.toNat_lt; omega
      have hlow : b.toNat % 16 < 16 := Nat.mod_lt _ (by decide)
      simp only [List.flatMap_cons, List.flatMap_append, List.length_append, ih, List.flatMap_nil,
        List.length_nil, String.length_utf8EncodeChar, utf8Size_digitChar hhigh,
        utf8Size_digitChar hlow, List.length_cons]
      omega

@[simp] theorem hmacVerify_iff {hmacSha256 : List UInt8 → List UInt8 → List UInt8}
    {secret signature : String} {data : List UInt8} :
    hmacVerify hmacSha256 secret data signature = true ↔
      signature = hmacSign hmacSha256 secret data := by
  rw [hmacVerify, beq_iff_eq, asBytes_inj, eq_comm]

/-! ### Nonces -/

/-- The window of `NonceTracker::new`: 300 seconds. -/
def nonceWindow : Nat := 300 * 10 ^ 9

/-- `NonceTracker`. -/
structure NonceTracker where
  seen : List (String × Nat)

namespace NonceTracker

/-- The nonces within the window. -/
def live (tracker : NonceTracker) (now : Nat) : List (String × Nat) :=
  tracker.seen.filter fun entry => now - entry.2 < nonceWindow

/-- A nonce was seen within the window. -/
def contains (tracker : NonceTracker) (nonce : String) (now : Nat) : Bool :=
  (tracker.live now).any fun entry => entry.1 == nonce

/-- `NonceTracker::check_and_record`. -/
def checkAndRecord (tracker : NonceTracker) (nonce : String) (now : Nat) :
    NonceTracker × Except String Unit :=
  if tracker.contains nonce now then
    (⟨tracker.live now⟩, .error s!"Nonce replay detected: {truncateStr nonce 16}")
  else (⟨(nonce, now) :: tracker.live now⟩, .ok ())

end NonceTracker

/-! ### The node -/

/-- `WireError`. -/
inductive WireError where
  | io (message : String)
  | json (message : String)
  | handshakeFailed (message : String)
  | connectionClosed
  | messageTooLarge (size max : UInt32)
  | versionMismatch (localVersion remoteVersion : UInt32)

/-- `PeerConfig`. -/
structure PeerConfig where
  nodeId : String
  nodeName : String
  sharedSecret : String

/-- `PeerNode`. -/
structure PeerNode where
  config : PeerConfig
  registry : PeerRegistry
  nonceTracker : NonceTracker

/-- What a handshake meets: the address of the other end, the clocks, the agents of this node,
the UUID that is drawn, and the error of writing the answer, if that fails. -/
structure Surroundings where
  addr : String
  now : Nat
  utcNow : Int
  localAgents : List RemoteAgentInfo
  uuid : String
  writeError : Option String

/-- The entry that is registered after a handshake. -/
def registered (fields : Handshake) (env : Surroundings) : PeerEntry where
  nodeId := fields.nodeId
  nodeName := fields.nodeName
  address := env.addr
  agents := fields.agents
  state := .connected
  connectedAt := env.utcNow
  protocolVersion := fields.protocolVersion

namespace PeerNode

variable (hmacSha256 : List UInt8 → List UInt8 → List UInt8) (node : PeerNode)

/-- The fields a node sends about itself, in a handshake as in an acknowledgement. -/
def ownFields (env : Surroundings) : Handshake where
  nodeId := node.config.nodeId
  nodeName := node.config.nodeName
  protocolVersion := protocolVersion
  agents := env.localAgents
  nonce := env.uuid
  authHmac := hmacSign hmacSha256 node.config.sharedSecret
    (asBytes (env.uuid ++ node.config.nodeId))

/-- The signature of the fields that another node sent is right. -/
def verifies (fields : Handshake) : Bool :=
  hmacVerify hmacSha256 node.config.sharedSecret (asBytes (fields.nonce ++ fields.nodeId))
    fields.authHmac

/-- The check of an acknowledgement in `connect_to_peer` and in `send_to_peer`. -/
def checkAck (now : Nat) (response : WireMessage) : PeerNode × Except WireError Handshake :=
  match response.kind with
  | .response (.handshakeAck ack) =>
      if ack.protocolVersion ≠ protocolVersion then
        (node, .error (.versionMismatch protocolVersion ack.protocolVersion))
      else
        match node.nonceTracker.checkAndRecord ack.nonce now with
        | (tracker, .error replayErr) =>
            ({ node with nonceTracker := tracker }, .error (.handshakeFailed replayErr))
        | (tracker, .ok ()) =>
            if !node.verifies hmacSha256 ack then
              ({ node with nonceTracker := tracker },
                .error (.handshakeFailed "HMAC verification failed on HandshakeAck"))
            else ({ node with nonceTracker := tracker }, .ok ack)
  | .response (.error code message) =>
      (node, .error (.handshakeFailed s!"Remote error {code}: {message}"))
  | _ => (node, .error (.handshakeFailed "Unexpected response to handshake"))

/-- `PeerNode::connect_to_peer`, from the response to its handshake with `ourNonce` on: the node
id of the peer and the session key with which the connection loop is entered. -/
def connectToPeer (env : Surroundings) (ourNonce : String) (response : WireMessage) :
    PeerNode × Except WireError (String × String) :=
  match node.checkAck hmacSha256 env.now response with
  | (node, .error e) => (node, .error e)
  | (node, .ok ack) =>
      ({ node with registry := node.registry.addPeer (registered ack env) },
        .ok (ack.nodeId,
          deriveSessionKey hmacSha256 node.config.sharedSecret ourNonce ack.nonce))

/-- `PeerNode::send_to_peer`, from the response to its handshake to the session key. -/
def sendToPeer (env : Surroundings) (ourNonce : String) (response : WireMessage) :
    PeerNode × Except WireError String :=
  match node.checkAck hmacSha256 env.now response with
  | (node, .error e) => (node, .error e)
  | (node, .ok ack) =>
      (node, .ok (deriveSessionKey hmacSha256 node.config.sharedSecret ourNonce ack.nonce))

/-- The error after an answer that reports it: that of the writing, if it fails. -/
def failing (env : Surroundings) (e : WireError) : Except WireError (String × String) :=
  match env.writeError with
  | some message => .error (.io message)
  | none => .error e

/-- `PeerNode::handle_inbound`, from the first message to the connection loop: the answer, and
the node id of the peer and the session key with which the loop is entered. -/
def handleInbound (env : Surroundings) (msg : WireMessage) :
    PeerNode × WireMessage × Except WireError (String × String) :=
  let refuse (code : Int32) (message : String) : WireMessage :=
    ⟨msg.id, .response (.error code message)⟩
  match msg.kind with
  | .request (.handshake fields) =>
      if fields.protocolVersion ≠ protocolVersion then
        (node,
          refuse 1 s!"Protocol version mismatch: expected {protocolVersion}, got {
            fields.protocolVersion}",
          failing env (.versionMismatch protocolVersion fields.protocolVersion))
      else
        match node.nonceTracker.checkAndRecord fields.nonce env.now with
        | (tracker, .error replayErr) =>
            ({ node with nonceTracker := tracker }, refuse 403 "Nonce replay rejected",
              failing env (.handshakeFailed replayErr))
        | (tracker, .ok ()) =>
            let node := { node with nonceTracker := tracker }
            if !node.verifies hmacSha256 fields then
              (node, refuse 403 "HMAC authentication failed",
                failing env (.handshakeFailed "HMAC verification failed on incoming Handshake"))
            else
              let ack : WireMessage :=
                ⟨msg.id, .response (.handshakeAck (node.ownFields hmacSha256 env))⟩
              match env.writeError with
              | some message => (node, ack, .error (.io message))
              | none =>
                  ({ node with registry := node.registry.addPeer (registered fields env) }, ack,
                    .ok (fields.nodeId,
                      deriveSessionKey hmacSha256 node.config.sharedSecret fields.nonce env.uuid))
  | _ =>
      (node, refuse 401 "Authentication required: complete HMAC handshake first",
        failing env
          (.handshakeFailed "Rejected unauthenticated request — handshake required"))

end PeerNode

/-- `handle_notification`. -/
def handleNotification (peerNodeId : String) (notif : WireNotification)
    (registry : PeerRegistry) : PeerRegistry :=
  match notif with
  | .agentSpawned agent => registry.addAgent peerNodeId agent
  | .agentTerminated agentId => registry.removeAgent peerNodeId agentId
  | .shuttingDown => registry.markDisconnected peerNodeId

/-! ### What the handshakes do to a node -/

namespace NonceTracker

variable {tracker : NonceTracker} {nonce : String} {now : Nat}

theorem checkAndRecord_new (h : tracker.contains nonce now = false) :
    tracker.checkAndRecord nonce now = (⟨(nonce, now) :: tracker.live now⟩, .ok ()) := by
  simp [checkAndRecord, h]

theorem checkAndRecord_seen (h : tracker.contains nonce now = true) :
    tracker.checkAndRecord nonce now =
      (⟨tracker.live now⟩, .error s!"Nonce replay detected: {truncateStr nonce 16}") := by
  simp [checkAndRecord, h]

end NonceTracker

namespace PeerNode

variable {hmacSha256 : List UInt8 → List UInt8 → List UInt8} {node : PeerNode}

/-- The fields another node sent are accepted: the version is right, the nonce is new and the
signature is right. -/
def Admits (hmacSha256 : List UInt8 → List UInt8 → List UInt8) (node : PeerNode) (now : Nat)
    (fields : Handshake) : Prop :=
  fields.protocolVersion = protocolVersion ∧ node.nonceTracker.contains fields.nonce now = false ∧
    node.verifies hmacSha256 fields = true

/-- The node with a nonce recorded. -/
def record (node : PeerNode) (nonce : String) (now : Nat) : PeerNode :=
  { node with nonceTracker := (node.nonceTracker.checkAndRecord nonce now).1 }

/-- The node with a peer registered. -/
def register (node : PeerNode) (entry : PeerEntry) : PeerNode :=
  { node with registry := node.registry.addPeer entry }

theorem checkAck_admitted {now : Nat} {response : WireMessage} {ack : Handshake}
    (hkind : response.kind = .response (.handshakeAck ack)) (h : node.Admits hmacSha256 now ack) :
    node.checkAck hmacSha256 now response = (node.record ack.nonce now, .ok ack) := by
  obtain ⟨hversion, hnonce, hverifies⟩ := h
  have hverifies' : ∀ tracker, PeerNode.verifies hmacSha256 { node with nonceTracker := tracker }
      ack = true := fun _ => hverifies
  simp [checkAck, hkind, hversion, NonceTracker.checkAndRecord_new hnonce, hverifies, record]

/-- What is not admitted fails the check. -/
theorem checkAck_refused {now : Nat} {response : WireMessage}
    (h : ∀ ack, response.kind = .response (.handshakeAck ack) → ¬ node.Admits hmacSha256 now ack) :
    ∃ node' e, node.checkAck hmacSha256 now response = (node', .error e) ∧
      node'.registry = node.registry ∧ node'.config = node.config := by
  unfold checkAck
  split
  · rename_i ack hkind
    split
    · exact ⟨_, _, rfl, rfl, rfl⟩
    · rename_i hversion
      split
      · exact ⟨_, _, rfl, rfl, rfl⟩
      · rename_i tracker hcheck
        split
        · exact ⟨_, _, rfl, rfl, rfl⟩
        · rename_i hverifies
          have hverified : node.verifies hmacSha256 ack = true := by simpa using hverifies
          exfalso
          refine h ack hkind ⟨by simpa using hversion, ?_, hverified⟩
          cases hseen : node.nonceTracker.contains ack.nonce now with
          | false => rfl
          | true => simp [NonceTracker.checkAndRecord_seen hseen] at hcheck
  · exact ⟨_, _, rfl, rfl, rfl⟩
  · exact ⟨_, _, rfl, rfl, rfl⟩

/-- **`connect_to_peer`.** It registers the node that an admitted acknowledgement names, and
otherwise leaves the registry. -/
theorem connectToPeer_admitted {env : Surroundings} {ourNonce : String} {response : WireMessage}
    {ack : Handshake} (hkind : response.kind = .response (.handshakeAck ack))
    (h : node.Admits hmacSha256 env.now ack) :
    node.connectToPeer hmacSha256 env ourNonce response =
      ((node.record ack.nonce env.now).register (registered ack env),
        .ok (ack.nodeId,
          deriveSessionKey hmacSha256 node.config.sharedSecret ourNonce ack.nonce)) := by
  rw [connectToPeer, checkAck_admitted hkind h]
  rfl

theorem connectToPeer_refused (ourNonce : String) {env : Surroundings} {response : WireMessage}
    (h : ∀ ack, response.kind = .response (.handshakeAck ack) →
      ¬ node.Admits hmacSha256 env.now ack) :
    ∃ node' e, node.connectToPeer hmacSha256 env ourNonce response = (node', .error e) ∧
      node'.registry = node.registry ∧ node'.config = node.config := by
  obtain ⟨node', e, hcheck, hregistry, hconfig⟩ := checkAck_refused h
  refine ⟨node', e, ?_, hregistry, hconfig⟩
  rw [connectToPeer, hcheck]

/-- `send_to_peer` registers nobody. -/
theorem sendToPeer_registry (env : Surroundings) (ourNonce : String) (response : WireMessage) :
    (node.sendToPeer hmacSha256 env ourNonce response).1.registry = node.registry ∧
      (node.sendToPeer hmacSha256 env ourNonce response).1.config = node.config := by
  by_cases h : ∀ ack, response.kind = .response (.handshakeAck ack) →
      ¬ node.Admits hmacSha256 env.now ack
  · obtain ⟨node', e, hcheck, hsame⟩ := checkAck_refused h
    simpa [sendToPeer, hcheck] using hsame
  · push Not at h
    obtain ⟨ack, hkind, hadmits⟩ := h
    rw [sendToPeer, checkAck_admitted hkind hadmits]
    exact ⟨rfl, rfl⟩

/-- **`handle_inbound`.** An admitted handshake is answered with the fields of the node, and the
node that it names is registered if the answer can be written. -/
theorem handleInbound_admitted {env : Surroundings} {msg : WireMessage} {fields : Handshake}
    (hkind : msg.kind = .request (.handshake fields)) (h : node.Admits hmacSha256 env.now fields) :
    node.handleInbound hmacSha256 env msg =
      match env.writeError with
      | some message =>
          (node.record fields.nonce env.now,
            ⟨msg.id, .response (.handshakeAck (node.ownFields hmacSha256 env))⟩,
            .error (.io message))
      | none =>
          ((node.record fields.nonce env.now).register (registered fields env),
            ⟨msg.id, .response (.handshakeAck (node.ownFields hmacSha256 env))⟩,
            .ok (fields.nodeId,
              deriveSessionKey hmacSha256 node.config.sharedSecret fields.nonce env.uuid)) := by
  obtain ⟨hversion, hnonce, hverifies⟩ := h
  have hverifies' : ∀ tracker, PeerNode.verifies hmacSha256 { node with nonceTracker := tracker }
      fields = true := fun _ => hverifies
  unfold handleInbound
  simp only [hkind, hversion, ne_eq, not_true_eq_false, if_false,
    NonceTracker.checkAndRecord_new hnonce, hverifies', Bool.not_true, Bool.false_eq_true]
  cases env.writeError with
  | none => simp [record, register, NonceTracker.checkAndRecord_new hnonce, ownFields]
  | some message => simp [record, NonceTracker.checkAndRecord_new hnonce, ownFields]

/-- What is not admitted is refused: no acknowledgement, no registration. The nonce may be
recorded. -/
theorem handleInbound_refused {env : Surroundings} {msg : WireMessage}
    (h : ∀ fields, msg.kind = .request (.handshake fields) →
      ¬ node.Admits hmacSha256 env.now fields) :
    ∃ node' code message e, node.handleInbound hmacSha256 env msg =
        (node', ⟨msg.id, .response (.error code message)⟩, .error e) ∧
      (node' = node ∨ ∃ nonce, node' = node.record nonce env.now) := by
  have hfailing : ∀ e, ∃ e', failing env e = .error e' := by
    intro e
    unfold failing
    split
    · exact ⟨_, rfl⟩
    · exact ⟨_, rfl⟩
  unfold handleInbound
  dsimp only
  split
  · rename_i fields hkind
    split
    · obtain ⟨e, he⟩ := hfailing (.versionMismatch protocolVersion fields.protocolVersion)
      exact ⟨_, _, _, e, by rw [he], .inl rfl⟩
    · rename_i hversion
      split
      · rename_i tracker replayErr hcheck
        obtain ⟨e, he⟩ := hfailing (.handshakeFailed replayErr)
        refine ⟨_, _, _, e, by rw [he], .inr ⟨fields.nonce, ?_⟩⟩
        rw [record, hcheck]
      · rename_i tracker hcheck
        split
        · obtain ⟨e, he⟩ := hfailing
            (.handshakeFailed "HMAC verification failed on incoming Handshake")
          refine ⟨_, _, _, e, by rw [he], .inr ⟨fields.nonce, ?_⟩⟩
          rw [record, hcheck]
        · rename_i hverifies
          exfalso
          have hverified : node.verifies hmacSha256 fields = true := by
            simpa [verifies] using hverifies
          refine h fields hkind ⟨by simpa using hversion, ?_, hverified⟩
          cases hseen : node.nonceTracker.contains fields.nonce env.now with
          | false => rfl
          | true => simp [NonceTracker.checkAndRecord_seen hseen] at hcheck
  · obtain ⟨e, he⟩ := hfailing
      (.handshakeFailed "Rejected unauthenticated request — handshake required")
    exact ⟨_, _, _, e, by rw [he], .inl rfl⟩

end PeerNode

/-! ### Sample values -/

namespace Sample

/-- Nonces of two handshakes and of their acknowledgements. -/
def clientNonce : String := "1f0c9d3e-8a42-4b6f-9c1d-2e5a7b904c11"
@[inherit_doc clientNonce] def laterNonce : String := "2b7e4a90-0d5c-4f3e-8b62-6a1c9d0f3e22"
@[inherit_doc clientNonce] def serverNonce : String := "3c91f6d2-7b1e-4a08-a5d4-90e2c7b83f33"
@[inherit_doc clientNonce] def laterServerNonce : String := "4d05e8b7-6c2a-4e91-b7f3-18d4a6c95e44"

def secret : String := "test-secret-for-unit-tests"

/-- HMAC-SHA256 digests under `secret`. -/
def digests : List (String × List UInt8) :=
  [
    (clientNonce ++ "node-1",
      [57, 238, 165, 19, 155, 87, 92, 27, 92, 117, 71, 104, 231, 206, 112, 68,
        76, 232, 13, 16, 135, 191, 172, 113, 223, 236, 141, 76, 35, 11, 82, 235]),
    (laterNonce ++ "node-1",
      [34, 129, 68, 120, 192, 204, 107, 21, 218, 162, 122, 55, 195, 159, 2, 196,
        185, 210, 118, 64, 181, 107, 44, 40, 234, 168, 64, 252, 116, 49, 167, 252]),
    (serverNonce ++ "node-2",
      [60, 36, 157, 83, 120, 125, 34, 54, 27, 124, 41, 6, 101, 53, 168, 209,
        43, 249, 91, 19, 57, 131, 19, 143, 15, 228, 18, 220, 219, 162, 50, 156]),
    (laterServerNonce ++ "node-2",
      [34, 90, 160, 248, 249, 235, 84, 110, 246, 4, 34, 21, 43, 115, 216, 167,
        88, 44, 35, 26, 234, 132, 217, 233, 102, 234, 100, 140, 119, 66, 210, 10]),
    (clientNonce ++ serverNonce,
      [159, 233, 120, 201, 66, 241, 88, 176, 135, 123, 163, 204, 140, 81, 171, 44,
        21, 213, 85, 129, 244, 63, 224, 104, 64, 167, 237, 133, 134, 14, 163, 93]),
    (laterNonce ++ laterServerNonce,
      [218, 182, 60, 18, 209, 203, 5, 163, 34, 28, 118, 189, 26, 207, 120, 235,
        32, 172, 36, 144, 97, 26, 18, 183, 141, 40, 48, 132, 199, 249, 155, 251]),
    (clientNonce ++ clientNonce,
      [80, 200, 224, 205, 254, 186, 146, 74, 139, 76, 252, 170, 146, 237, 177, 165,
        248, 15, 97, 42, 67, 29, 112, 35, 200, 28, 90, 99, 249, 129, 111, 18])
  ]

/-- HMAC-SHA256 on the data of `digests`. -/
def hmacSha256 (key data : List UInt8) : List UInt8 :=
  let digest := digests.find? fun entry => data == asBytes entry.1 && key == asBytes secret
  (digest.map (·.2)).getD (List.replicate 32 0)

/-- A node that was just started. -/
def node (nodeId : String) : PeerNode := ⟨⟨nodeId, nodeId, secret⟩, .empty, ⟨[]⟩⟩

/-- A handshake at a time, with a nonce. -/
def env (now : Nat) (uuid : String) : Surroundings := ⟨"127.0.0.1:9000", now, 0, [], uuid, none⟩

end Sample

end ArmaraOS.Wire
