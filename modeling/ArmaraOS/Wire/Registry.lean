import ArmaraOS.Lib.Table
import ArmaraOS.Wire.Message

/-!
The peer registry (`openfang-wire/src/registry.rs`).
-/

namespace ArmaraOS.Wire

open ArmaraOS.Lib

/-- `PeerState`. -/
inductive PeerState where
  | connected
  | disconnected
deriving DecidableEq

/-- `PeerEntry`; the address is its text, and the time is in seconds. -/
structure PeerEntry where
  nodeId : String
  nodeName : String
  address : String
  agents : List RemoteAgentInfo
  state : PeerState
  connectedAt : Int
  protocolVersion : UInt32

/-- `PeerRegistry`. -/
abbrev PeerRegistry := Table PeerEntry.nodeId

namespace PeerRegistry

variable (peers : PeerRegistry)

/-- `PeerRegistry::add_peer`. -/
def addPeer (entry : PeerEntry) : PeerRegistry := peers.insert entry

/-- `PeerRegistry::mark_disconnected`. -/
def markDisconnected (nodeId : String) : PeerRegistry :=
  peers.modify nodeId (fun entry => { entry with state := .disconnected }) fun _ h => h

/-- An agent in the place of the first one with its id, or else behind all. -/
def replaceOrPush (agent : RemoteAgentInfo) : List RemoteAgentInfo → List RemoteAgentInfo
  | [] => [agent]
  | existing :: agents =>
      if existing.id = agent.id then agent :: agents
      else existing :: replaceOrPush agent agents

/-- `PeerRegistry::add_agent`. -/
def addAgent (nodeId : String) (agent : RemoteAgentInfo) : PeerRegistry :=
  peers.modify nodeId (fun entry => { entry with agents := replaceOrPush agent entry.agents })
    fun _ h => h

/-- `PeerRegistry::remove_agent`. -/
def removeAgent (nodeId agentId : String) : PeerRegistry :=
  peers.modify nodeId
    (fun entry => { entry with agents := entry.agents.filter fun a => a.id != agentId })
    fun _ h => h

end PeerRegistry

end ArmaraOS.Wire
