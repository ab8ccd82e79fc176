import ArmaraOS.Agent.Library
import ArmaraOS.Lib.Text
import ArmaraOS.Types.Llm

/-!
Context size control: the token estimate (`compactor.rs`), the overflow recovery
pipeline (`context_overflow.rs`) and the tool-result budget (`context_budget.rs`).
-/

namespace ArmaraOS.Agent

open ArmaraOS.Text

/-! ### The estimate -/

/-- The contribution of one block to `MessageContent::text_length`. -/
def blockLength (lib : Library) : ContentBlock → Nat
  | .text s _ => s.utf8ByteSize
  | .toolResult _ _ content _ => content.utf8ByteSize
  | .thinking s => s.utf8ByteSize
  | .toolUse _ name input _ => name.utf8ByteSize + (lib.jsonToString input).utf8ByteSize
  | .image .. => 0
  | .unknown => 0

/-- `MessageContent::text_length`. -/
def textLength (lib : Library) : MessageContent → Nat
  | .text s => s.utf8ByteSize
  | .blocks bs => (bs.map (blockLength lib)).sum

/-- `estimate_token_count`, with the system prompt and the tools given. -/
def estimateTokens (lib : Library) (messages : List Message) (systemPrompt : String)
    (tools : List ToolDefinition) : Nat :=
  (systemPrompt.utf8ByteSize
    + (messages.map fun m => textLength lib m.content + 16).sum
    + (tools.map fun t => t.name.utf8ByteSize + t.description.utf8ByteSize
        + (lib.jsonToString t.inputSchema).utf8ByteSize).sum) / 4

/-! ### Overflow recovery -/

/-- `RecoveryStage`. -/
inductive RecoveryStage where
  | none
  | autoCompaction (removed : Nat)
  | overflowCompaction (removed : Nat)
  | toolResultTruncation (truncated : Nat)
  | finalError
deriving DecidableEq

/-- `safe_drain_boundary`. Its second case changes nothing: the boundary is below
the length already. -/
def safeDrainBoundary (messages : List Message) (boundary : Nat) : Nat :=
  if boundary = 0 then boundary
  else match messages[boundary]?, messages[boundary - 1]? with
    | some kept, some drained =>
        if kept.role = .user ∧ kept.toolResults ≠ [] ∧ drained.role = .assistant ∧
            drained.toolUses ≠ [] then
          boundary - 1
        else boundary
    | _, _ => boundary

/-- The message that stands for `removed` drained messages. -/
def overflowSummary (removed : Nat) : Message :=
  .user (s!"[System: {removed} earlier messages were removed due to context overflow. " ++
    "The conversation continues from here. Use /compact for smarter summarization.]")

/-- Stage 3 on the content of one tool result. -/
def overflowTruncate (content : String) : String :=
  let kept := takeBytes 1920 content.toList
  String.ofList kept ++
    s!"\n\n[OVERFLOW RECOVERY: truncated from {content.utf8ByteSize} to {byteLength kept} chars]"

/-- A tool result that stage 3 truncates. -/
def isOversized : ContentBlock → Bool
  | .toolResult _ _ content _ => decide (2000 < content.utf8ByteSize)
  | _ => false

/-- Apply `edit` to the content of the tool results that `sel` picks. -/
def editResult (sel : ContentBlock → Bool) (edit : String → String) (b : ContentBlock) :
    ContentBlock :=
  match b with
  | .toolResult id name content isError =>
      if sel b then .toolResult id name (edit content) isError else b
  | _ => b

/-- `editResult` on all blocks of a message. -/
def editResults (sel : ContentBlock → Bool) (edit : String → String) (m : Message) : Message :=
  match m.content with
  | .text _ => m
  | .blocks bs => { m with content := .blocks (bs.map (editResult sel edit)) }

/-- Stages 3 and 4 of `recover_from_overflow`. -/
def truncateOversized (lib : Library) (messages : List Message) (systemPrompt : String)
    (tools : List ToolDefinition) (threshold90 : Nat) : List Message × RecoveryStage :=
  let truncated := ((messages.flatMap fun m => m.content.blockList).filter isOversized).length
  let edited := messages.map (editResults isOversized overflowTruncate)
  if 0 < truncated ∧ estimateTokens lib edited systemPrompt tools ≤ threshold90 then
    (edited, .toolResultTruncation truncated)
  else (edited, .finalError)

/-- Stages 2 to 4 of `recover_from_overflow`. -/
def compactOverflow (lib : Library) (messages : List Message) (systemPrompt : String)
    (tools : List ToolDefinition) (threshold90 : Nat) : List Message × RecoveryStage :=
  let remove := safeDrainBoundary messages (messages.length - min 4 messages.length)
  if 0 < remove then
    let compacted := overflowSummary remove :: messages.drop remove
    if estimateTokens lib compacted systemPrompt tools ≤ threshold90 then
      (compacted, .overflowCompaction remove)
    else truncateOversized lib compacted systemPrompt tools threshold90
  else truncateOversized lib messages systemPrompt tools threshold90

/-- `recover_from_overflow`. -/
def recoverFromOverflow (lib : Library) (messages : List Message) (systemPrompt : String)
    (tools : List ToolDefinition) (contextWindow : Nat) : List Message × RecoveryStage :=
  let estimated := estimateTokens lib messages systemPrompt tools
  let threshold70 := scaleF64 contextWindow 3152519739159347 52
  let threshold90 := scaleF64 contextWindow 8106479329266893 53
  if estimated ≤ threshold70 then (messages, .none)
  else if estimated ≤ threshold90 then
    let remove := safeDrainBoundary messages (messages.length - min 10 messages.length)
    if 0 < remove then
      let trimmed := messages.drop remove
      if estimateTokens lib trimmed systemPrompt tools ≤ threshold70 then
        (trimmed, .autoCompaction remove)
      else compactOverflow lib trimmed systemPrompt tools threshold90
    else compactOverflow lib messages systemPrompt tools threshold90
  else compactOverflow lib messages systemPrompt tools threshold90

/-! ### The tool-result budget -/

/-- `ContextBudget::per_result_cap`. -/
def perResultCap (contextWindow : Nat) : Nat := 2 * scaleF64 contextWindow 5404319552844595 54

/-- `ContextBudget::single_result_max`. -/
def singleResultMax (contextWindow : Nat) : Nat := 2 * scaleF64 contextWindow 1 1

/-- `ContextBudget::total_tool_headroom_chars`. -/
def totalToolHeadroomChars (contextWindow : Nat) : Nat := 2 * scaleF64 contextWindow 3 2

/-- `truncate_tool_result_dynamic`. -/
def truncateToolResultDynamic (content : String) (contextWindow : Nat) : String :=
  if content.utf8ByteSize ≤ perResultCap contextWindow then content
  else
    let capped := takeBytes (perResultCap contextWindow) content.toList
    let front := takeBytes (byteLength capped - 200) capped
    let shown :=
      match beforeLast '\n' (capped.drop front.length) with
      | some middle => front ++ middle
      | none => takeBytes (byteLength capped - 100) capped
    String.ofList shown ++
      (s!"\n\n[TRUNCATED: result was {content.utf8ByteSize} chars, showing first " ++
        s!"{byteLength shown} (budget: 30% of {contextWindow / 1000}K context window)]")

/-- `truncate_to`. -/
def truncateTo (maxChars : Nat) (content : String) : String :=
  if content.utf8ByteSize ≤ maxChars then content
  else
    let kept := takeBytes (maxChars - 80) content.toList
    let front := takeBytes (byteLength kept - 100) kept
    let shown :=
      match beforeLast '\n' (kept.drop front.length) with
      | some middle => front ++ middle
      | none => kept
    String.ofList shown ++
      s!"\n\n[COMPACTED: {content.utf8ByteSize} → {byteLength shown} chars by context guard]"

/-- The length of a tool result; `none` for another block. -/
def resultLength : ContentBlock → Option Nat
  | .toolResult _ _ content _ => some content.utf8ByteSize
  | _ => none

/-- The total length of the tool results of a history. -/
def totalResultLength (messages : List Message) : Nat :=
  ((messages.flatMap fun m => m.content.blockList).filterMap resultLength).sum

/-- The first pass of the guard on one block. -/
def capSingle (singleMax : Nat) : ContentBlock → ContentBlock :=
  editResult (fun b => decide (singleMax < (resultLength b).getD 0)) (truncateTo singleMax)

/-- Both passes over a block list, given the total length `total` left by the
first: compact the oldest results that were and still are longer than 2000 bytes
while the total exceeds the headroom. -/
def compactBlocks (headroom singleMax total : Nat) :
    List ContentBlock → List ContentBlock × Nat
  | [] => ([], total)
  | b :: rest =>
      match capSingle singleMax b with
      | .toolResult id name content isError =>
          if total ≤ headroom ∨ (resultLength b).getD 0 ≤ 2000 ∨ content.utf8ByteSize ≤ 2000 then
            let out := compactBlocks headroom singleMax total rest
            (.toolResult id name content isError :: out.1, out.2)
          else
            let compacted := truncateTo 2000 content
            let out := compactBlocks headroom singleMax
              (total - content.utf8ByteSize + compacted.utf8ByteSize) rest
            (.toolResult id name compacted isError :: out.1, out.2)
      | capped =>
          let out := compactBlocks headroom singleMax total rest
          (capped :: out.1, out.2)

/-- Both passes over the messages. -/
def compactMessages (headroom singleMax total : Nat) : List Message → List Message
  | [] => []
  | m :: rest =>
      match m.content with
      | .text _ => m :: compactMessages headroom singleMax total rest
      | .blocks bs =>
          let out := compactBlocks headroom singleMax total bs
          { m with content := .blocks out.1 } :: compactMessages headroom singleMax out.2 rest

/-- The first pass over one message. -/
def capMessage (singleMax : Nat) (m : Message) : Message :=
  match m.content with
  | .text _ => m
  | .blocks bs => { m with content := .blocks (bs.map (capSingle singleMax)) }

/-- `apply_context_guard`: the messages it leaves. -/
def applyContextGuard (messages : List Message) (contextWindow : Nat) : List Message :=
  if totalResultLength messages ≤ totalToolHeadroomChars contextWindow then messages
  else
    let singleMax := singleResultMax contextWindow
    compactMessages (totalToolHeadroomChars contextWindow) singleMax
      (totalResultLength (messages.map (capMessage singleMax))) messages

end ArmaraOS.Agent
