import ArmaraOS.Agent.Context
import ArmaraOS.Agent.Script
import ArmaraOS.Lib.Fallible
import ArmaraOS.Session.ToolResults
import ArmaraOS.Types.F64

/-!
The compaction of a session (`compactor.rs`): the text that is given to the model to summarise, and
the messages that are kept.

A text that is too long is cut to its tail. The start of the tail is a number of bytes; where it
falls inside a character, the search for the next boundary slices the text at that very byte and
panics. So a tail is taken, and is then the longest one that fits, exactly where the byte is on a
boundary.
-/

namespace ArmaraOS.Agent

open ArmaraOS.Lib ArmaraOS.Session ArmaraOS.Text

/-- `CompactionConfig`, as far as it is read here. -/
structure CompactionConfig where
  keepRecent : Nat := 10
  maxChunkChars : Nat := 80000
  safetyMargin : F64

/-! ### The conversation as text -/

section Text

variable (lib : Library) (lc : Lowercase) (config : CompactionConfig)

/-- `is_oversized`. -/
def isOversizedMessage (message : Message) : Bool :=
  config.maxChunkChars / 2 < textLength lib message.content

/-- The label of a role. -/
def roleLabel : Role → String
  | .user => "User"
  | .assistant => "Assistant"
  | .system => "System"

/-- The part of a text of a message; of an oversized one only the front. -/
def conversationPart (label : String) (oversized : Bool) (text : String) : List Char :=
  let limit := config.maxChunkChars / 4
  if text.isEmpty then []
  else if oversized && decide (limit < text.utf8ByteSize) then
    label.toList ++ ": ".toList ++ takeBytes limit text.toList ++
      s!"...[truncated from {text.utf8ByteSize} chars]\n\n".toList
  else label.toList ++ ": ".toList ++ text.toList ++ "\n\n".toList

/-- A text that is cut to its first bytes. -/
def previewOf (limit : Nat) (text : List Char) : List Char :=
  if limit < byteLength text then takeBytes limit text ++ "...".toList else text

/-- The part of a block; `none` where `strip_tool_result_details` panics. -/
def blockPart (label : String) (oversized : Bool) : ContentBlock → Option (List Char)
  | .text text _ => some (conversationPart config label oversized text)
  | .toolUse _ name input _ =>
      some ("[Used tool '".toList ++ name.toList ++ "' with params: ".toList ++
        previewOf 200 (lib.jsonToString input).toList ++ "]\n\n".toList)
  | .toolResult _ _ content isError =>
      (stripToolResultDetails lc content.toList).map fun cleaned =>
        "[Tool result (".toList ++ (if isError then "ERROR" else "OK").toList ++ "): ".toList ++
          previewOf 2000 cleaned ++ "]\n\n".toList
  | .image mediaType _ => some ("[Image: ".toList ++ mediaType.toList ++ "]\n\n".toList)
  | .thinking _ => some []
  | .unknown => some []

/-- The parts of a message. -/
def messageParts (message : Message) : Option (List (List Char)) :=
  let label := roleLabel message.role
  let oversized := isOversizedMessage lib config message
  match message.content with
  | .text text => some [conversationPart config label oversized text]
  | .blocks blocks => blocks.mapM (blockPart lib lc config label oversized)

/-- `build_conversation_text`. -/
def buildConversationText (messages : List Message) : Option (List Char) :=
  (messages.mapM (messageParts lib lc config)).map fun parts => parts.flatten.flatten

end Text

/-! ### The tail -/

/-- The truncation in `summarize_messages`; `none` where a slice panics. -/
def keepTail (effectiveMax : Nat) (text : List Char) : Option (List Char) :=
  if effectiveMax < byteLength text then
    let start := byteLength text - effectiveMax
    let safeStart :=
      if isCharBoundary start text then some start
      else (sliceFrom start text).map fun rest =>
        if rest.isEmpty then byteLength text else start
    safeStart.bind fun safeStart => sliceFrom safeStart text
  else some text

/-- The longest tail of a text with at most so many bytes. -/
structure LongestTail (limit : Nat) (text kept : List Char) : Prop where
  tail : kept <:+ text
  fits : byteLength kept ≤ limit
  longest : ∀ other, other <:+ text → byteLength other ≤ limit → byteLength other ≤ byteLength kept

/-- The tail that is kept is the longest one that fits. -/
theorem keepTail_longest {effectiveMax : Nat} {text kept : List Char}
    (h : keepTail effectiveMax text = some kept) : LongestTail effectiveMax text kept := by
  unfold keepTail at h
  split at h
  · rename_i hlong
    dsimp only at h
    cases hsplit : splitAtByte (byteLength text - effectiveMax) text with
    | none =>
        rw [isCharBoundary, sliceFrom, hsplit] at h
        cases h
    | some parts =>
        rw [isCharBoundary, hsplit, Option.isSome_some, if_pos rfl, Option.bind_some, sliceFrom,
          hsplit] at h
        obtain rfl : parts.2 = kept := Option.some.inj h
        obtain ⟨htext, hbytes⟩ := splitAtByte_eq_some hsplit
        have hkept : byteLength parts.2 = effectiveMax := by
          have hall := congrArg byteLength htext
          rw [byteLength_append] at hall
          omega
        exact
          { tail := ⟨parts.1, htext.symm⟩
            fits := Nat.le_of_eq hkept
            longest := fun _ _ hother => hother.trans (Nat.le_of_eq hkept.symm) }
  · rename_i hshort
    obtain rfl := Option.some.inj h
    exact
      { tail := List.suffix_rfl
        fits := Nat.le_of_not_lt hshort
        longest := fun _ hother _ => byteLength_le_of_suffix hother }

/-- A tail is taken exactly where the text fits or is cut on a boundary. -/
theorem keepTail_isSome {effectiveMax : Nat} {text : List Char} :
    (keepTail effectiveMax text).isSome = true ↔
      byteLength text ≤ effectiveMax ∨
        isCharBoundary (byteLength text - effectiveMax) text = true := by
  unfold keepTail
  split
  · rename_i hlong
    dsimp only
    rw [or_iff_right (Nat.not_le.mpr hlong)]
    cases hsplit : splitAtByte (byteLength text - effectiveMax) text with
    | none => simp [isCharBoundary, sliceFrom, hsplit]
    | some parts => simp [isCharBoundary, sliceFrom, hsplit]
  · rename_i hshort
    exact iff_of_true rfl (.inl (Nat.le_of_not_lt hshort))

/-! ### The text that is summarised -/

section Summary

-- `quotient n x` is `(n as f64 / x) as usize`.
variable (quotient : Nat → F64 → Nat) (lib : Library) (lc : Lowercase)
  (config : CompactionConfig) (messages : List Message)

/-- `effective_max`. -/
def effectiveMax : Nat := quotient config.maxChunkChars config.safetyMargin

/-- The text preparation of `summarize_messages`. -/
def summaryText : Option (List Char) :=
  (buildConversationText lib lc config messages).bind (keepTail (effectiveMax quotient config))

/-- The text is prepared without a panic, and is the longest tail that fits. -/
def Prepared : Prop :=
  ∃ text kept, buildConversationText lib lc config messages = some text ∧
    summaryText quotient lib lc config messages = some kept ∧
    LongestTail (effectiveMax quotient config) text kept

/-- The content of a tool result. -/
def resultContent : ContentBlock → Option (List Char)
  | .toolResult _ _ content _ => some content.toList
  | _ => none

/-- No tool result makes `strip_tool_result_details` panic. -/
def ResultsStrip : Prop :=
  ∀ message ∈ messages, ∀ block ∈ message.content.blockList, ∀ content,
    resultContent block = some content → (stripToolResultDetails lc content).isSome = true

theorem buildConversationText_isSome :
    (buildConversationText lib lc config messages).isSome = true ↔ ResultsStrip lc messages := by
  have hblock : ∀ label oversized block,
      (blockPart lib lc config label oversized block).isSome = true ↔
        ∀ content, resultContent block = some content →
          (stripToolResultDetails lc content).isSome = true := by
    intro label oversized block
    cases block with
    | toolResult id name content isError => simp [blockPart, resultContent]
    | _ => simp [blockPart, resultContent]
  rw [buildConversationText, Option.isSome_map, isSome_mapM_iff]
  refine forall₂_congr fun message _ => ?_
  rw [messageParts]
  split
  · rename_i text hcontent
    simp [hcontent, MessageContent.blockList]
  · rename_i blocks hcontent
    rw [isSome_mapM_iff, hcontent]
    exact forall₂_congr fun block _ => hblock _ _ block

/-- For every history: the text is prepared if and only if no tool result makes the stripping
panic, and the conversation fits or its tail starts on a boundary. -/
theorem summaryText_prepared_iff :
    Prepared quotient lib lc config messages ↔
      ResultsStrip lc messages ∧
        ∀ text, buildConversationText lib lc config messages = some text →
          byteLength text ≤ effectiveMax quotient config ∨
            isCharBoundary (byteLength text - effectiveMax quotient config) text = true := by
  rw [← buildConversationText_isSome lib lc config messages]
  constructor
  · rintro ⟨text, kept, htext, hkept, -⟩
    refine ⟨by rw [htext]; rfl, fun other hother => ?_⟩
    obtain rfl : text = other := Option.some.inj (htext.symm.trans hother)
    rw [summaryText, htext, Option.bind_some] at hkept
    rw [← keepTail_isSome, hkept]
    rfl
  · rintro ⟨hbuilt, hcut⟩
    obtain ⟨text, htext⟩ := Option.isSome_iff_exists.mp hbuilt
    obtain ⟨kept, hkept⟩ := Option.isSome_iff_exists.mp (keepTail_isSome.mpr (hcut text htext))
    refine ⟨text, kept, htext, ?_, keepTail_longest hkept⟩
    rw [summaryText, htext, Option.bind_some, hkept]

end Summary

/-- Two, as an `f64`. -/
def marginOfTwo : F64 := ⟨0x4000000000000000⟩

/-- The quotient of a small number by two. -/
def halved (n : Nat) (x : F64) : Nat := if x = marginOfTwo then n / 2 else n

/-- A text of 18 bytes with room for 11: its tail starts within a letter of two bytes. -/
theorem summaryText_not_prepared :
    ¬ ∀ messages : List Message, Prepared halved asciiLibrary fewLowercase
      { maxChunkChars := 22, safetyMargin := marginOfTwo } messages := by
  intro h
  obtain ⟨text, kept, -, hkept, -⟩ := h [.user "ééééé"]
  have hnone : summaryText halved asciiLibrary fewLowercase
      { maxChunkChars := 22, safetyMargin := marginOfTwo } [.user "ééééé"] = none := by
    decide +kernel
  rw [hnone] at hkept
  cases hkept

/-! ### The messages that are kept -/

/-- `adjust_split_for_tool_pairs`. -/
def adjustSplitForToolPairs (messages : List Message) (split : Nat) : Nat :=
  if split = 0 ∨ messages.length ≤ split then split
  else match messages[split - 1]?, messages[split]? with
    | some prev, some curr =>
        if prev.role ≠ .assistant ∨ curr.role ≠ .user then split
        else if prev.toolUses ≠ [] ∧ curr.toolResults ≠ [] then split - 1
        else split
    | _, _ => split

/-- `CompactionResult`. -/
structure CompactionResult where
  summary : String
  keptMessages : List Message
  compactedCount : Nat
  chunksUsed : Nat
  usedFallback : Bool

/-- What the calls of the model return: the summary of all messages at once, the summary in chunks,
and the number of chunks. -/
structure Summarizer where
  summarizeMessages : List Message → Except String String
  summarizeInChunks : List Message → Except String String
  numChunks : List Message → Nat

/-- `compact_session`. -/
def compactSession (summarizer : Summarizer) (config : CompactionConfig)
    (messages : List Message) : CompactionResult :=
  if messages.length ≤ config.keepRecent then
    { summary := ""
      keptMessages := messages
      compactedCount := 0
      chunksUsed := 0
      usedFallback := false }
  else
    let splitAt := adjustSplitForToolPairs messages (messages.length - config.keepRecent)
    let toCompact := messages.take splitAt
    let kept := messages.drop splitAt
    match summarizer.summarizeMessages toCompact with
    | .ok summary => ⟨summary, kept, toCompact.length, 1, false⟩
    | .error _ =>
        match summarizer.summarizeInChunks toCompact with
        | .ok summary =>
            ⟨summary, kept, toCompact.length, max (summarizer.numChunks toCompact) 1, false⟩
        | .error _ =>
            ⟨s!"[Session compacted: {toCompact.length} messages removed. " ++
              s!"Recent {kept.length} messages preserved. Summarization was unavailable.]",
              kept, toCompact.length, 0, true⟩

end ArmaraOS.Agent
