import Mathlib.Algebra.Ring.Nat
import Mathlib.Data.List.Basic
import ArmaraOS.Lib.Text
import ArmaraOS.Types.Message

/-!
The canonical session of an agent (`openfang-memory/src/session.rs`): `append_canonical` with its
compaction, and `store_llm_summary`. Both load the row, change the loaded value and save it; what
stands here is the change, the loads and saves are steps of the kernel. `agent_id` is the key of
the row and `updated_at` is never read, so both are left out. The field `compacted` is no column:
it records what the compactions have taken out of `messages`.
-/

namespace ArmaraOS.Memory

open ArmaraOS.Text

/-- `DEFAULT_CANONICAL_WINDOW`. -/
def defaultCanonicalWindow : Nat := 50

/-- `DEFAULT_COMPACTION_THRESHOLD`. -/
def defaultCompactionThreshold : Nat := 100

/-- `CanonicalSession`. -/
structure CanonicalSession where
  messages : List Message := []
  compactionCursor : Nat := 0
  compactedSummary : Option String := none
  compacted : List Message := []

/-- The text of a Text block. -/
def textOf? : ContentBlock → Option String
  | .text text _ => some text
  | _ => none

/-- `MessageContent::text_content`. -/
def textContent : MessageContent → String
  | .text s => s
  | .blocks bs => join "" (bs.filterMap textOf?)

/-- The name of a role in a summary. -/
def roleName : Role → String
  | .user => "User"
  | .assistant => "Assistant"
  | .system => "System"

/-- The line of a compacted message in the summary; none for a message without text. -/
def summaryPart (msg : Message) : Option String :=
  let text := textContent msg.content
  if text.isEmpty then none
  else
    let truncated := if 200 < text.utf8ByteSize then truncateStr text 200 ++ "..." else text
    some (roleName msg.role ++ ": " ++ truncated)

/-- The longest suffix of at most `n` bytes. -/
def lastBytes (n : Nat) (s : String) : String :=
  String.ofList (takeBytes n s.toList.reverse).reverse

/-- `full_summary`: the old summary and the new lines, the last 4000 bytes of it. -/
def fullSummary (existing : Option String) (compacting : List Message) : String :=
  lastBytes 4000 (join "\n" (existing.toList ++ compacting.filterMap summaryPart))

/-- The compaction of `append_canonical`. -/
def CanonicalSession.compact (c : CanonicalSession) (threshold : Nat) : CanonicalSession :=
  let toCompact := c.messages.length - defaultCanonicalWindow
  if threshold < c.messages.length ∧ c.compactionCursor < toCompact then
    { messages := c.messages.drop toCompact
      compactionCursor := 0
      compactedSummary := some (fullSummary c.compactedSummary
        ((c.messages.take toCompact).drop c.compactionCursor))
      compacted := c.compacted ++ c.messages.take toCompact }
  else c

/-- `append_canonical`, on the loaded row. -/
def CanonicalSession.append (c : CanonicalSession) (newMessages : List Message)
    (compactionThreshold : Option Nat) : CanonicalSession :=
  { c with messages := c.messages ++ newMessages }.compact
    (compactionThreshold.getD defaultCompactionThreshold)

/-- `store_llm_summary`, on the loaded row. The messages in front of as many as are kept count
as compacted. -/
def CanonicalSession.storeLlmSummary (c : CanonicalSession) (summary : String)
    (keptMessages : List Message) : CanonicalSession :=
  { messages := keptMessages
    compactionCursor := 0
    compactedSummary := some summary
    compacted := c.compacted ++ c.messages.take (c.messages.length - keptMessages.length) }

namespace CanonicalSession

/-- The messages before their compaction. -/
def history (c : CanonicalSession) : List Message := c.compacted ++ c.messages

@[simp] theorem history_empty : history {} = [] := rfl

@[simp] theorem history_compact (c : CanonicalSession) (threshold : Nat) :
    (c.compact threshold).history = c.history := by
  unfold compact
  dsimp only
  split
  · rw [history, history, List.append_assoc, List.take_append_drop]
  · rfl

/-- An append adds its messages to the history, whether or not it compacts. -/
@[simp] theorem history_append (c : CanonicalSession) (newMessages : List Message)
    (compactionThreshold : Option Nat) :
    (c.append newMessages compactionThreshold).history = c.history ++ newMessages := by
  rw [append, history_compact, history, history, List.append_assoc]

end CanonicalSession

end ArmaraOS.Memory
