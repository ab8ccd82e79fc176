import ArmaraOS.Lib.Grouping
import ArmaraOS.Lib.Text
import ArmaraOS.Types.Message

/-!
Session history validation and repair (`openfang-runtime/src/session_repair.rs`),
phase by phase. A `HashSet` is the list of its members; a `HashMap` is the list
of its insertions, newest first, so `List.lookup` reads the value inserted last.
Grouping maps keep their keys distinct and are sorted before use, as in the
source, so no result depends on an iteration order.
-/

namespace ArmaraOS.Session

open ArmaraOS.Lib ArmaraOS.Text

/-- `RepairStats`. -/
structure RepairStats where
  orphanedResultsRemoved : Nat := 0
  emptyMessagesRemoved : Nat := 0
  messagesMerged : Nat := 0
  resultsReordered : Nat := 0
  syntheticResultsInserted : Nat := 0
  duplicatesRemoved : Nat := 0

/-! ### Phase 2: orphaned results and empty messages -/

/-- The condition of the three `retain` calls: a message that has content. -/
def hasContent (m : Message) : Bool :=
  match m.content with
  | .text s => !s.isEmpty
  | .blocks bs => !bs.isEmpty

/-- The closures of the `filter` and `retain` calls: a ToolResult stays if its id
passes `keep`, any other block stays. -/
def keepsResult (keep : String → Bool) : ContentBlock → Bool
  | .toolResult id _ _ _ => keep id
  | _ => true

/-- `m` without the blocks that `keep` rejects. -/
def retainBlocks (keep : ContentBlock → Bool) (m : Message) : Message :=
  match m.content with
  | .text _ => m
  | .blocks bs => { m with content := .blocks (bs.filter keep) }

/-- Phase 2 of `validate_and_repair_with_stats`: drop the ToolResults that answer
no ToolUse of the history, then the messages that have no content. -/
def filterOrphans (messages : List Message) : List Message :=
  let ids := messages.flatMap Message.toolUses
  (messages.map (retainBlocks (keepsResult fun id => decide (id ∈ ids)))).filter hasContent

/-! ### Phase 2b: misplaced results -/

/-- `content_to_blocks`. -/
def contentToBlocks : MessageContent → List ContentBlock
  | .text s => [.text s none]
  | .blocks bs => bs

/-- Add `blocks` at the end of a message, turning plain text into a block first. -/
def appendBlocks (m : Message) (blocks : List ContentBlock) : Message :=
  { m with content := .blocks (contentToBlocks m.content ++ blocks) }

/-- Put `blocks` at the head of `rest`: into the first message when it is a User
message, else into a new User message before it. -/
def attachBlocks (blocks : List ContentBlock) : List Message → List Message
  | [] => [Message.userWithBlocks blocks]
  | next :: rest =>
      if next.role = .user then appendBlocks next blocks :: rest
      else Message.userWithBlocks blocks :: next :: rest

/-- Insert `blocks` behind position `idx`. -/
def insertBehind (messages : List Message) (idx : Nat) (blocks : List ContentBlock) :
    List Message :=
  editBehind messages idx (attachBlocks blocks)

/-- The pairs of an id and the position of the Assistant message that uses it, in
order of occurrence. -/
def assistantUses (messages : List Message) : List (String × Nat) :=
  messages.zipIdx.flatMap fun (m, idx) =>
    if m.role = .assistant then m.toolUses.map (·, idx) else []

/-- `tool_use_index`: reading it gives the position inserted last for an id. -/
def toolUseIndex (messages : List Message) : List (String × Nat) :=
  (assistantUses messages).reverse

/-- The ToolResult `block` at position `msgIdx` with the position of its
Assistant message, if that is not the position directly before. -/
def misplacedBlock (index : List (String × Nat)) (msgIdx : Nat) :
    ContentBlock → Option (Nat × String × ContentBlock × Nat)
  | .toolResult id name content isError =>
      match index.lookup id with
      | some assistantIdx =>
          if msgIdx ≠ assistantIdx + 1 then
            some (msgIdx, id, .toolResult id name content isError, assistantIdx)
          else none
      | none => none
  | _ => none

/-- `misplaced`: `(msg_idx, tool_use_id, block, target_assistant_idx)`. -/
def misplacedResults (messages : List Message) : List (Nat × String × ContentBlock × Nat) :=
  let index := toolUseIndex messages
  messages.zipIdx.flatMap fun (m, idx) =>
    if m.role = .user then m.content.blockList.filterMap (misplacedBlock index idx) else []

/-- Drop from the User message at `idx` the results listed in `sources`. -/
def removeMisplaced (sources : List (Nat × String)) (m : Message) (idx : Nat) : Message :=
  if m.role = .user then
    retainBlocks (keepsResult fun id => decide ((idx, id) ∉ sources)) m
  else m

/-- `misplaced_sources`. -/
def misplacedSources (messages : List Message) : List (Nat × String) :=
  (misplacedResults messages).map fun e => (e.1, e.2.1)

/-- The misplaced blocks under their target positions, before grouping. -/
def misplacedEntries (messages : List Message) : List (Nat × ContentBlock) :=
  (misplacedResults messages).map fun e => (e.2.2.2, e.2.2.1)

/-- `current_assistant_positions`: from the original position of an Assistant
message to its position in `kept`. -/
def currentAssistantPositions (index : List (String × Nat)) (kept : List Message) :
    List (Nat × Nat) :=
  ((assistantUses kept).filterMap fun p => (index.lookup p.1).map (·, p.2)).reverse

/-- `reorder_tool_results`: the messages and the number of results moved. -/
def reorderToolResults (messages : List Message) : List Message × Nat :=
  let misplaced := misplacedResults messages
  if misplaced.isEmpty then (messages, 0)
  else
    let kept := (messages.zipIdx.map fun p =>
      removeMisplaced (misplacedSources messages) p.1 p.2).filter hasContent
    let positions := currentAssistantPositions (toolUseIndex messages) kept
    let inserted := (sortDescending (groupEntries (misplacedEntries messages))).foldl
      (fun msgs group =>
        match positions.lookup group.1 with
        | some currentIdx => insertBehind msgs currentIdx group.2
        | none => msgs) kept
    (inserted, misplaced.length)

/-! ### Phase 2c: synthetic results -/

/-- The result inserted for a call that has none. -/
def syntheticResult (id : String) : ContentBlock :=
  .toolResult id "" "[Tool execution was interrupted or lost]" true

/-- `orphaned_uses`: the calls without a result anywhere, with their positions. -/
def orphanedUses (messages : List Message) : List (String × Nat) :=
  (assistantUses messages).filter fun p =>
    decide (p.1 ∉ messages.flatMap Message.toolResults)

/-- The synthetic results under the positions of their calls, before grouping. -/
def syntheticEntries (messages : List Message) : List (Nat × ContentBlock) :=
  (orphanedUses messages).map fun p => (p.2, syntheticResult p.1)

/-- `insert_synthetic_results`: the messages and the number of results inserted. -/
def insertSyntheticResults (messages : List Message) : List Message × Nat :=
  if (orphanedUses messages).isEmpty then (messages, 0)
  else
    ((sortDescending (groupEntries (syntheticEntries messages))).foldl
      (fun msgs group => insertBehind msgs group.1 group.2) messages,
      (orphanedUses messages).length)

/-! ### Phase 2d: duplicate results -/

/-- One `retain` pass over a block list, threading `seen_ids`. -/
def dedupBlocks (seen : List String) : List ContentBlock → List ContentBlock × List String
  | [] => ([], seen)
  | .toolResult id name content isError :: rest =>
      if id ∈ seen then dedupBlocks seen rest
      else
        let (kept, seen') := dedupBlocks (id :: seen) rest
        (.toolResult id name content isError :: kept, seen')
  | b :: rest =>
      let (kept, seen') := dedupBlocks seen rest
      (b :: kept, seen')

/-- The pass over all messages: the first result for an id survives. -/
def dedupMessages (seen : List String) : List Message → List Message
  | [] => []
  | m :: rest =>
      match m.content with
      | .text _ => m :: dedupMessages seen rest
      | .blocks bs =>
          let (kept, seen') := dedupBlocks seen bs
          { m with content := .blocks kept } :: dedupMessages seen' rest

/-- The number of blocks in a history. -/
def blockCount (messages : List Message) : Nat :=
  (messages.map fun m => m.content.blockList.length).sum

/-- `deduplicate_tool_results`: the messages and the number of results dropped. -/
def deduplicateToolResults (messages : List Message) : List Message × Nat :=
  let deduped := dedupMessages [] messages
  (deduped.filter hasContent, blockCount messages - blockCount deduped)

/-! ### Phase 2e: aborted Assistant messages -/

/-- The test of one block in `is_empty_or_blank_content`. -/
def isBlankBlock : ContentBlock → Bool
  | .text s _ => isBlank s
  | .unknown => true
  | _ => false

/-- `is_empty_or_blank_content`. -/
def isEmptyOrBlankContent : MessageContent → Bool
  | .text s => isBlank s
  | .blocks bs => bs.isEmpty || bs.all isBlankBlock

/-- `remove_aborted_assistant_messages`: a blank Assistant message goes unless it
is the last one. -/
def removeAbortedAssistantMessages (messages : List Message) : List Message :=
  if messages.length < 2 then messages
  else
    (messages.zipIdx.filter fun (m, i) =>
      !(m.role == .assistant && isEmptyOrBlankContent m.content &&
        decide (i + 1 < messages.length))).map Prod.fst

/-! ### Phase 3: consecutive messages of one role -/

/-- `merge_content`, on the messages: the first keeps its other fields. -/
def mergeContent (dst src : Message) : Message :=
  { dst with content := .blocks (contentToBlocks dst.content ++ contentToBlocks src.content) }

/-- One iteration of the merge loop: `merged.last_mut()` absorbs `msg` or is
followed by it. -/
def mergeStep (merged : List Message) (msg : Message) : List Message :=
  match merged.getLast? with
  | some last =>
      if last.role = msg.role then merged.dropLast ++ [mergeContent last msg]
      else merged ++ [msg]
  | none => merged ++ [msg]

/-- Phase 3 of `validate_and_repair_with_stats`. -/
def mergeConsecutive (messages : List Message) : List Message :=
  messages.foldl mergeStep []

/-! ### The pipeline -/

/-- `validate_and_repair_with_stats`. -/
def validateAndRepairWithStats (messages : List Message) : List Message × RepairStats :=
  let ids := messages.flatMap Message.toolUses
  let filtered := messages.map (retainBlocks (keepsResult fun id => decide (id ∈ ids)))
  let cleaned := filterOrphans messages
  let reordered := reorderToolResults cleaned
  let answered := insertSyntheticResults reordered.1
  let deduped := deduplicateToolResults answered.1
  let unaborted := removeAbortedAssistantMessages deduped.1
  let merged := mergeConsecutive unaborted
  (merged,
    { orphanedResultsRemoved := blockCount messages - blockCount filtered
      emptyMessagesRemoved :=
        (messages.length - cleaned.length) + (deduped.1.length - unaborted.length)
      messagesMerged := unaborted.length - merged.length
      resultsReordered := reordered.2
      syntheticResultsInserted := answered.2
      duplicatesRemoved := deduped.2 })

/-- `validate_and_repair`. -/
@[irreducible] def validateAndRepair (messages : List Message) : List Message :=
  (validateAndRepairWithStats messages).1

end ArmaraOS.Session
