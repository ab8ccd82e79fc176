import ArmaraOS.Lib.Text
import ArmaraOS.Types.Message

/-!
Pruning of heartbeat turns (`prune_heartbeat_turns` in `session_repair.rs`).
-/

namespace ArmaraOS.Session

open ArmaraOS.Text

/-- The two texts that stand for no reply. -/
def isNoReplyText (s : String) : Bool := trim s == "NO_REPLY" || trim s == "[no reply needed]"

/-- `is_no_reply`, for an Assistant message. -/
def isNoReply (m : Message) : Bool :=
  m.role == .assistant &&
    match m.content with
    | .text s => isNoReplyText s
    | .blocks [.text s _] => isNoReplyText s
    | .blocks _ => false

/-- The positions put into `to_remove`: a reply of no content among the first
`pruneEnd` messages, and the User message right before it. -/
def isPruned (messages : List Message) (pruneEnd i : Nat) : Bool :=
  (decide (i < pruneEnd) && (messages[i]?.map isNoReply).getD false) ||
    (decide (i + 1 < pruneEnd) && (messages[i + 1]?.map isNoReply).getD false &&
      (messages[i]?.map fun m => m.role == .user).getD false)

/-- `prune_heartbeat_turns`. -/
def pruneHeartbeatTurns (messages : List Message) (keepRecent : Nat) : List Message :=
  if messages.length ≤ keepRecent then messages
  else
    (messages.zipIdx.filter fun p =>
      !isPruned messages (messages.length - keepRecent) p.2).map Prod.fst

end ArmaraOS.Session
