import ArmaraOS.Agent.Replies
import ArmaraOS.Lib.Framing
import ArmaraOS.Lib.Utf8

/-!
The replies of the OpenAI driver (`openfang-runtime/src/drivers/openai.rs`): how `complete` turns
a success body and how `stream` turns a stream of server-sent events into a response, and how
both recover a response from a failed generation.

What `stream` sends to the consumer while it reads stands outside; no response depends on it.
-/

namespace ArmaraOS.Drivers

open ArmaraOS.Agent ArmaraOS.Lib ArmaraOS.Text

/-! ### Wire types -/

/-- `OaiFunction`. -/
structure OaiFunction where
  name : String
  arguments : String

/-- `OaiToolCall`. -/
structure OaiToolCall where
  id : String
  callType : String
  function : OaiFunction

/-- `OaiResponseMessage`. -/
structure OaiResponseMessage where
  content : Option String
  toolCalls : Option (List OaiToolCall)
  reasoningContent : Option String

/-- `OaiChoice`, without the logprobs, which only the vitals are made of. -/
structure OaiChoice where
  message : OaiResponseMessage
  finishReason : Option String

/-- `OaiUsage`. -/
structure OaiUsage where
  promptTokens : Nat
  completionTokens : Nat

/-- `OaiResponse`. -/
structure OaiResponse where
  choices : List OaiChoice
  usage : Option OaiUsage

/-- What a driver method returns; `none` where the code panics. -/
abbrev Outcome := Option (Except LlmError CompletionResponse)

/-! ### Thinking -/

/-- `str::find` for two tags in the loop of `extract_think_tags`: what stands before the block,
what stands in it, and what stands behind it. -/
inductive ThinkBlock where
  | closed (before thought behind : List Char)
  | unclosed (before thought : List Char)
  | absent

/-- The next `<think>` block. A closing tag that stands before the opening one ends the search. -/
def nextThinkBlock (cleaned : List Char) : ThinkBlock :=
  match Framing.cutAt "<think>".toList cleaned with
  | none => .absent
  | some (before, inside) =>
      match Framing.cutAt "</think>".toList cleaned with
      | none => .unclosed before inside
      | some (front, behind) =>
          if before.length + 7 ≤ front.length then
            .closed before (front.drop (before.length + 7)) behind
          else .absent

theorem nextThinkBlock_closed {cleaned before thought behind : List Char}
    (h : nextThinkBlock cleaned = .closed before thought behind) :
    (before ++ behind).length < cleaned.length := by
  unfold nextThinkBlock at h
  split at h
  · cases h
  · split at h
    · cases h
    · rename_i front behind' hclose
      split at h
      · obtain ⟨rfl, -, rfl⟩ : _ ∧ _ ∧ _ := by simpa using h
        rw [Framing.cutAt_eq_some hclose]
        simp only [List.length_append]
        omega
      · cases h

/-- `thinking_parts` with one more thought, unless it is blank. -/
def addThought (parts : List (List Char)) (thought : List Char) : List (List Char) :=
  let thought := trimChars isWhitespace thought
  if thought.isEmpty then parts else parts ++ [thought]

/-- The loop of `extract_think_tags`: the text without the blocks, and the thoughts in them. -/
def thinkLoop (cleaned : List Char) (parts : List (List Char)) :
    List Char × List (List Char) :=
  match _h : nextThinkBlock cleaned with
  | .absent => (cleaned, parts)
  | .unclosed before thought => (before, addThought parts thought)
  | .closed before thought behind => thinkLoop (before ++ behind) (addThought parts thought)
termination_by cleaned.length
decreasing_by exact nextThinkBlock_closed ‹_›

/-- `extract_think_tags`. -/
def extractThinkTags (text : String) : String × Option String :=
  let (cleaned, parts) := thinkLoop text.toList []
  (String.ofList (trimChars isWhitespace cleaned),
    if parts.isEmpty then none else some (join "\n\n" (parts.map String.ofList)))

/-- The last `n` bytes of a text that is longer; `none` where they start inside a character. -/
def lastBytes (n : Nat) : List Char → Option (List Char)
  | [] => some []
  | c :: cs =>
      if byteLength (c :: cs) = n then some (c :: cs)
      else if byteLength (c :: cs) < n then none else lastBytes n cs

/-- The text that stands for a reply of thinking without an answer. -/
def noAnswer : String :=
  "[The model produced reasoning but no final answer. Try rephrasing your question.]"

/-- The pattern between two paragraphs. -/
def paragraphBreak : Framing Char := Framing.delimited ['\n', '\n'] (by simp)

/-- `extract_thinking_summary`; `none` where the slice of a long paragraph panics. -/
def extractThinkingSummary (thinking : String) : Option String :=
  let trimmed := trimChars isWhitespace thinking.toList
  if trimmed.isEmpty then some noAnswer
  else
    let paragraphs :=
      ((paragraphBreak.pieces trimmed).map (trimChars isWhitespace)).filter (!·.isEmpty)
    match paragraphs.getLast? with
    | none => some noAnswer
    | some last =>
        if byteLength last ≤ 2000 then some (String.ofList last)
        else (lastBytes 2000 last).map String.ofList

/-! ### Assembly -/

/-- The text of a Thinking block. -/
def thinking? : ContentBlock → Option String
  | .thinking text => some text
  | _ => none

/-- The Thinking and Text blocks for a text and a separate reasoning text. -/
def spokenBlocks (reasoning : String) (hasReasoning : Bool) (text : String) :
    List ContentBlock :=
  let reasoned := if reasoning.isEmpty then [] else [ContentBlock.thinking reasoning]
  if text.isEmpty then reasoned
  else
    let (cleaned, thinking) := extractThinkTags text
    reasoned ++
      (match thinking with
        | some thought => if hasReasoning then [] else [.thinking thought]
        | none => []) ++
      if cleaned.isEmpty then [] else [.text cleaned none]

/-- The Text block that is synthesised for a reply of thinking alone. -/
def synthesizedBlocks (content : List ContentBlock) (noCalls : Bool) :
    Option (List ContentBlock) :=
  let hasText := content.any fun b => (CompletionResponse.blockText b).isSome
  let hasThinking := content.any fun b => (thinking? b).isSome
  if hasThinking && !hasText && noCalls then
    (extractThinkingSummary ((content.findSome? thinking?).getD "")).map fun summary =>
      [.text summary none]
  else some []

/-- A tool call with its arguments parsed. -/
def toolCallOf (lib : Library) (id name arguments : String) : ToolCall :=
  ⟨id, name, (lib.jsonFromStr arguments).getD (.obj [])⟩

/-- The ToolUse block of a tool call. -/
def callBlock (call : ToolCall) : ContentBlock := .toolUse call.id call.name call.input none

/-- The stop reason for a finish reason. -/
def oaiStopReason (finishReason : Option String) (toolCalls : List ToolCall) : StopReason :=
  if finishReason = some "stop" then .endTurn
  else if finishReason = some "tool_calls" then .toolUse
  else if finishReason = some "length" then .maxTokens
  else if toolCalls.isEmpty then .endTurn else .toolUse

/-- One output token, where there is content and the usage is missing. -/
def guardUsage (content : List ContentBlock) (usage : TokenUsage) : TokenUsage :=
  if !content.isEmpty && usage.inputTokens == 0 && usage.outputTokens == 0 then
    { usage with outputTokens := 1 }
  else usage

/-- The response, from what was said and the calls. -/
def assemble (spoken : List ContentBlock) (noCalls : Bool) (toolCalls : List ToolCall)
    (finishReason : Option String) (usage : TokenUsage) : Option CompletionResponse :=
  (synthesizedBlocks spoken noCalls).map fun synthesized =>
    let content := spoken ++ synthesized ++ toolCalls.map callBlock
    { content := content
      stopReason := oaiStopReason finishReason toolCalls
      toolCalls := toolCalls
      usage := guardUsage content usage }

/-! ### A success body -/

/-- The response for a success body that has been parsed. -/
def oaiCompleteResponse (lib : Library) (response : OaiResponse) : Outcome :=
  match response.choices with
  | [] => some (.error (.parse "No choices in response"))
  | choice :: _ =>
      let message := choice.message
      let spoken := spokenBlocks (message.reasoningContent.getD "")
        message.reasoningContent.isSome (message.content.getD "")
      let toolCalls := (message.toolCalls.getD []).map fun call =>
        toolCallOf lib call.id call.function.name call.function.arguments
      let usage := (response.usage.map fun u =>
        { inputTokens := u.promptTokens, outputTokens := u.completionTokens : TokenUsage }).getD {}
      (assemble spoken message.toolCalls.isNone toolCalls choice.finishReason usage).map .ok

/-! ### Server-sent events -/

/-- Lines that end with a line feed. -/
def lineFraming : Framing Char := Framing.delimited ['\n'] (by simp)

/-- What stands behind `data:` in a line; nothing for an empty line or a comment. -/
def dataOf (line : List Char) : Option (List Char) :=
  let line := trimEnd line
  if line.isEmpty || line.head? == some ':' then none
  else ("data:".toList.isPrefixOf? line).map trimStart

/-- The event in a line. -/
def oaiEvent? (lib : Library) (line : List Char) : Option Json :=
  (dataOf line).bind fun data =>
    if data = "[DONE]".toList then none else lib.jsonFromStr (String.ofList data)

/-- An entry of `tool_accum`. -/
structure ToolAccum where
  id : String := ""
  name : String := ""
  arguments : String := ""

/-- What `stream` accumulates. -/
structure OaiAccum where
  textContent : String := ""
  reasoningContent : String := ""
  toolAccum : List ToolAccum := []
  finishReason : Option String := none
  usage : TokenUsage := {}

/-- The index of a tool call delta. -/
def callIndex (call : Json) : Nat := ((call.field "index").asU64).getD 0

/-- The id in a tool call delta, unless it is empty. -/
def sentId? (call : Json) : Option String :=
  ((call.field "id").asStr).filter fun id => !id.isEmpty

/-- One tool call delta on its own entry. -/
def ToolAccum.push (call : Json) (entry : ToolAccum) : ToolAccum :=
  let entry := { entry with id := (sentId? call).getD entry.id }
  match call.get "function" with
  | none => entry
  | some func =>
      { entry with
        name := ((func.field "name").asStr).getD entry.name
        arguments := entry.arguments ++ ((func.field "arguments").asStr).getD "" }

/-- One tool call delta: there are enough entries, and its own one is changed. -/
def pushCall (accum : List ToolAccum) (call : Json) : List ToolAccum :=
  let padded := accum ++ List.replicate (callIndex call + 1 - accum.length) (ToolAccum.mk "" "" "")
  padded.modify (callIndex call) (ToolAccum.push call)

/-- The tool call deltas of a choice. -/
def choiceCalls (choice : Json) : List Json :=
  (asArray ((choice.field "delta").field "tool_calls")).getD []

/-- One choice of an event. -/
def OaiAccum.pushChoice (st : OaiAccum) (choice : Json) : OaiAccum :=
  let delta := choice.field "delta"
  let text := ((delta.field "content").asStr).getD ""
  let reasoning :=
    (((delta.field "reasoning_content").asStr).orElse fun _ =>
      (delta.field "reasoning").asStr).getD ""
  { st with
    textContent := st.textContent ++ text
    reasoningContent := st.reasoningContent ++ reasoning
    toolAccum := (choiceCalls choice).foldl pushCall st.toolAccum
    finishReason := ((choice.field "finish_reason").asStr).orElse fun _ => st.finishReason }

/-- The usage of an event. -/
def OaiAccum.pushUsage (st : OaiAccum) (event : Json) : OaiAccum :=
  match event.get "usage" with
  | none => st
  | some u =>
      { st with usage :=
          { st.usage with
            inputTokens := ((u.field "prompt_tokens").asU64).getD st.usage.inputTokens
            outputTokens := ((u.field "completion_tokens").asU64).getD st.usage.outputTokens } }

/-- The choices of an event. -/
def eventChoices (event : Json) : List Json := (asArray (event.field "choices")).getD []

/-- One event. -/
def OaiAccum.pushEvent (st : OaiAccum) (event : Json) : OaiAccum :=
  (eventChoices event).foldl OaiAccum.pushChoice (st.pushUsage event)

/-- One line. -/
def OaiAccum.pushLine (lib : Library) (st : OaiAccum) (line : List Char) : OaiAccum :=
  match oaiEvent? lib line with
  | none => st
  | some event => st.pushEvent event

/-- The body of a streamed reply: the chunks in which its bytes arrive, and the error that ends
it, if one does. -/
structure ByteStream where
  chunks : List (List UInt8)
  error : Option String := none

/-- The response for what was accumulated. An unterminated last line is left in the buffer. -/
def OaiAccum.finish (lib : Library) (st : OaiAccum) : Option CompletionResponse :=
  let spoken := spokenBlocks st.reasoningContent (!st.reasoningContent.isEmpty) st.textContent
  let toolCalls := st.toolAccum.map fun entry =>
    toolCallOf lib entry.id entry.name entry.arguments
  assemble spoken st.toolAccum.isEmpty toolCalls st.finishReason st.usage

/-- What `stream` has accumulated when its body has ended. -/
def oaiAccumulate (lib : Library) (chunks : List (List UInt8)) : OaiAccum :=
  (lineFraming.readChunks (OaiAccum.pushLine lib) {} (chunks.map Utf8.fromUtf8Lossy)).2

/-- `stream`, from a success status on. -/
def oaiStreamResponse (lib : Library) (body : ByteStream) : Outcome :=
  match body.error with
  | some e => some (.error (.http e))
  | none => ((oaiAccumulate lib body.chunks).finish lib).map .ok

/-! ### A failed generation -/

/-- One call of a failed generation. -/
def groqCall (lib : Library) (index : Nat) (callContent : List Char) : ToolCall :=
  let callContent := ((['>'].isSuffixOf? callContent).getD callContent)
  let (name, args) :=
    match Framing.cutAt ['{'] callContent with
    | some (name, args) => (name, '{' :: args)
    | none => (callContent, "\x7b\x7d".toList)
  { id := s!"groq_recovered_{index}"
    name := String.ofList (trimChars isWhitespace name)
    input := (lib.jsonFromStr (String.ofList args)).getD (.obj []) }

/-- The calls of a failed generation; `none` where one is not closed. -/
def groqCalls (lib : Library) (remaining : List Char) (toolCalls : List ToolCall) :
    Option (List ToolCall) :=
  match _h : Framing.cutAt "<function=".toList remaining with
  | none => some toolCalls
  | some (_, inside) =>
      match _h' : Framing.cutAt "</function>".toList inside with
      | none => none
      | some (callContent, behind) =>
          groqCalls lib behind (toolCalls ++ [groqCall lib toolCalls.length callContent])
termination_by remaining.length
decreasing_by
  rw [Framing.cutAt_eq_some _h, Framing.cutAt_eq_some _h']
  simp only [List.length_append]
  have hopen : "<function=".toList.length = 10 := by decide
  omega

/-- `parse_groq_failed_tool_call`. -/
def parseGroqFailedToolCall (lib : Library) (body : String) : Option CompletionResponse :=
  (lib.jsonFromStr body).bind fun jsonBody =>
    ((jsonBody.get "error").bind (·.get "failed_generation")).bind fun value =>
      value.asStr.bind fun failed =>
        (groqCalls lib failed.toList []).bind fun toolCalls =>
          if toolCalls.isEmpty then
            if isBlank failed then none
            else some ⟨[.text failed none], .endTurn, [], {}⟩
          else some ⟨[], .toolUse, toolCalls, {}⟩

end ArmaraOS.Drivers
