import Mathlib.Algebra.Ring.Nat

/-!
The messages of the wire protocol (`openfang-wire/src/message.rs`).

The fields of a handshake and of its acknowledgement are the same; they stand in one structure.
-/

namespace ArmaraOS.Wire

/-- `RemoteAgentInfo`. -/
structure RemoteAgentInfo where
  id : String
  name : String
  description : String
  tags : List String
  tools : List String
  state : String
deriving DecidableEq

/-- The fields of `Handshake` and of `HandshakeAck`. -/
structure Handshake where
  nodeId : String
  nodeName : String
  protocolVersion : UInt32
  agents : List RemoteAgentInfo
  nonce : String
  authHmac : String
deriving DecidableEq

/-- `WireRequest`. -/
inductive WireRequest where
  | handshake (fields : Handshake)
  | discover (query : String)
  | agentMessage (agent message : String) (sender : Option String)
  | ping
deriving DecidableEq

/-- `WireResponse`. -/
inductive WireResponse where
  | handshakeAck (fields : Handshake)
  | discoverResult (agents : List RemoteAgentInfo)
  | agentResponse (text : String)
  | pong (uptimeSecs : UInt64)
  | error (code : Int32) (message : String)
deriving DecidableEq

/-- `WireNotification`. -/
inductive WireNotification where
  | agentSpawned (agent : RemoteAgentInfo)
  | agentTerminated (agentId : String)
  | shuttingDown
deriving DecidableEq

/-- `WireMessageKind`. -/
inductive WireMessageKind where
  | request (request : WireRequest)
  | response (response : WireResponse)
  | notification (notification : WireNotification)
deriving DecidableEq

/-- `WireMessage`. -/
structure WireMessage where
  id : String
  kind : WireMessageKind
deriving DecidableEq

/-- `PROTOCOL_VERSION`. -/
def protocolVersion : UInt32 := 1

end ArmaraOS.Wire
