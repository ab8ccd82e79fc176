import ArmaraOS.Agent.Script
import ArmaraOS.Drivers.OpenAiResponse
import ArmaraOS.Session.WellFormed

/-!
The messages that the OpenAI driver sends (`openfang-runtime/src/drivers/openai.rs`).

`complete` and `stream` convert the history with their own copies of one loop. The copies differ
in the branch for a User message of blocks: `complete` collects Text and Image blocks and sends
them unless the message has a ToolResult, `stream` sends ToolResults only. The other branches
are spelt alike and stand here once.
-/

namespace ArmaraOS.Drivers

open ArmaraOS.Agent ArmaraOS.Lib ArmaraOS.Text

/-! ### The request format -/

/-- `OaiContentPart`; the image stands with the URL of its `OaiImageUrl`. -/
inductive OaiContentPart where
  | text (text : String)
  | imageUrl (url : String)

/-- `OaiMessageContent`. -/
inductive OaiMessageContent where
  | text (text : String)
  | parts (parts : List OaiContentPart)

/-- `OaiMessage`. -/
structure OaiMessage where
  role : String
  content : Option OaiMessageContent
  toolCalls : Option (List OaiToolCall) := none
  toolCallId : Option String := none
  reasoningContent : Option String := none

/-- `needs_reasoning_content`. -/
def needsReasoningContent (lib : Library) (baseUrl model : String) : Bool :=
  contains baseUrl "moonshot" || contains (lib.toLowercase model) "kimi" ||
    contains (lib.toLowercase model) "reasoner"

/-! ### The conversion -/

/-- A message of plain text. -/
def textMessage (role text : String) : OaiMessage :=
  { role := role, content := some (.text text) }

/-- The text that is sent for the content of a result. -/
def shownResult (content : String) : String :=
  if content.isEmpty then "(empty)" else content

/-- The tool message for a ToolResult. -/
def toolMessage? : ContentBlock → Option OaiMessage
  | .toolResult id _ content _ =>
      some { textMessage "tool" (shownResult content) with toolCallId := some id }
  | _ => none

/-- The URL of an image. -/
def imageUrl (mediaType data : String) : String := s!"data:{mediaType};base64,{data}"

/-- The part for a Text or Image block. -/
def contentPart? : ContentBlock → Option OaiContentPart
  | .text text _ => some (.text text)
  | .image mediaType data => some (.imageUrl (imageUrl mediaType data))
  | _ => none

/-- A User message of blocks, in `complete`. -/
def completeUserBlocks (blocks : List ContentBlock) : List OaiMessage :=
  let parts := blocks.filterMap contentPart?
  let hasToolResults := blocks.any fun b => b.resultId?.isSome
  blocks.filterMap toolMessage? ++
    if !parts.isEmpty && !hasToolResults then
      [{ role := "user", content := some (.parts parts) }]
    else []

/-- A User message of blocks, in `stream`. -/
def streamUserBlocks (blocks : List ContentBlock) : List OaiMessage :=
  blocks.filterMap toolMessage?

/-- The tool call for a ToolUse. -/
def toolCall? (lib : Library) : ContentBlock → Option OaiToolCall
  | .toolUse id name input _ => some ⟨id, "function", ⟨name, lib.jsonToString input⟩⟩
  | _ => none

/-- An Assistant message of blocks. The last Thinking block is the reasoning. -/
def assistantMessage (lib : Library) (needsReasoning : Bool) (blocks : List ContentBlock) :
    OaiMessage :=
  let textParts := blocks.filterMap CompletionResponse.blockText
  let toolCalls := blocks.filterMap (toolCall? lib)
  { role := "assistant"
    content :=
      if textParts.isEmpty then (if toolCalls.isEmpty then none else some (.text ""))
      else some (.text (String.join textParts))
    toolCalls := if toolCalls.isEmpty then none else some toolCalls
    reasoningContent :=
      if needsReasoning then some ((blocks.filterMap thinking?).getLast?.getD "") else none }

/-- The messages for one message of the history. -/
def convertMessage (userBlocks : List ContentBlock → List OaiMessage) (lib : Library)
    (needsReasoning : Bool) (system : Option String) (msg : Message) : List OaiMessage :=
  match msg.role, msg.content with
  | .system, .text text => if system.isNone then [textMessage "system" text] else []
  | .user, .text text => [textMessage "user" text]
  | .assistant, .text text => [textMessage "assistant" text]
  | .user, .blocks blocks => userBlocks blocks
  | .assistant, .blocks blocks => [assistantMessage lib needsReasoning blocks]
  | .system, .blocks _ => []

/-- `oai_messages`. -/
def oaiMessages (userBlocks : List ContentBlock → List OaiMessage) (lib : Library)
    (baseUrl : String) (request : CompletionRequest) : List OaiMessage :=
  (request.system.map (textMessage "system")).toList ++
    request.messages.flatMap (convertMessage userBlocks lib
      (needsReasoningContent lib baseUrl request.model) request.system)

/-- The messages that `complete` sends, in every attempt. -/
def completeMessages (lib : Library) (baseUrl : String) (request : CompletionRequest) :
    List OaiMessage :=
  oaiMessages completeUserBlocks lib baseUrl request

/-- The messages that `stream` sends, in every attempt. -/
def streamMessages (lib : Library) (baseUrl : String) (request : CompletionRequest) :
    List OaiMessage :=
  oaiMessages streamUserBlocks lib baseUrl request

/-! ### What is said -/

/-- What a conversation consists of. -/
inductive Utterance where
  | userText (text : String)
  | image (url : String)
  | assistantText (text : String)
  | toolCall (id name arguments : String)
  | toolResult (id content : String)

/-- A text, unless it is empty. -/
def said (form : String → Utterance) (text : String) : List Utterance :=
  if text.isEmpty then [] else [form text]

/-- The utterances in a part of a sent message. -/
def OaiContentPart.utterances : OaiContentPart → List Utterance
  | .text t => said .userText t
  | .imageUrl url => [.image url]

/-- The utterances in a content that is sent by the user or the assistant. -/
def OaiMessageContent.utterances (form : String → Utterance) : OaiMessageContent → List Utterance
  | .text t => said form t
  | .parts ps => ps.flatMap OaiContentPart.utterances

/-- The result in a content that is sent under the id of a call. -/
def OaiMessageContent.resultUtterances (id : String) : OaiMessageContent → List Utterance
  | .text t => [.toolResult id t]
  | .parts _ => []

/-- The utterance in a sent call. -/
def OaiToolCall.utterance (call : OaiToolCall) : Utterance :=
  .toolCall call.id call.function.name call.function.arguments

/-- The utterances in a sent message. -/
def OaiMessage.utterances (m : OaiMessage) : List Utterance :=
  if m.role = "user" then m.content.toList.flatMap (OaiMessageContent.utterances .userText)
  else if m.role = "assistant" then
    m.content.toList.flatMap (OaiMessageContent.utterances .assistantText) ++
      m.toolCalls.toList.flatten.map OaiToolCall.utterance
  else if m.role = "tool" then
    m.content.toList.flatMap (OaiMessageContent.resultUtterances (m.toolCallId.getD ""))
  else []

/-- The utterances in a block that is not text. -/
def blockUtterances (lib : Library) : ContentBlock → List Utterance
  | .image mediaType data => [.image (imageUrl mediaType data)]
  | .toolUse id name input _ => [.toolCall id name (lib.jsonToString input)]
  | .toolResult id _ content _ => [.toolResult id (shownResult content)]
  | _ => []

/-- The utterances in a block of a User message. -/
def userUtterances (lib : Library) : ContentBlock → List Utterance
  | .text text _ => said .userText text
  | b => blockUtterances lib b

/-- The utterances in a message of the history: a User message block by block, an Assistant
message with its text, which is one text in the request format, before the other blocks. -/
def messageUtterances (lib : Library) (msg : Message) : List Utterance :=
  match msg.role, msg.content with
  | .system, _ => []
  | .user, .text text => said .userText text
  | .user, .blocks blocks => blocks.flatMap (userUtterances lib)
  | .assistant, .text text => said .assistantText text
  | .assistant, .blocks blocks =>
      said .assistantText (String.join (blocks.filterMap CompletionResponse.blockText)) ++
        blocks.flatMap (blockUtterances lib)

/-- The utterances of a history, in order. -/
def utterances (lib : Library) (messages : List Message) : List Utterance :=
  messages.flatMap (messageUtterances lib)

/-- Both paths send the same messages, and these say what the history says: in order, everything
once. -/
structure SendsWhole (lib : Library) (baseUrl : String) (request : CompletionRequest) : Prop where
  agree : completeMessages lib baseUrl request = streamMessages lib baseUrl request
  complete : (completeMessages lib baseUrl request).flatMap OaiMessage.utterances =
    utterances lib request.messages
  stream : (streamMessages lib baseUrl request).flatMap OaiMessage.utterances =
    utterances lib request.messages

/-- A block of a User message that is sent on both paths or says nothing. -/
def CarriedForUser : ContentBlock → Prop
  | .text text _ => text.isEmpty
  | .image .. => False
  | .toolUse .. => False
  | _ => True

/-- A block of an Assistant message that is sent or says nothing. -/
def CarriedForAssistant : ContentBlock → Prop
  | .image .. => False
  | .toolResult .. => False
  | _ => True

/-- `stream` says all that the message says. -/
def KeptByStream (msg : Message) : Prop :=
  match msg.role, msg.content with
  | .user, .blocks blocks => ∀ b ∈ blocks, CarriedForUser b
  | .assistant, .blocks blocks => ∀ b ∈ blocks, CarriedForAssistant b
  | _, _ => True

/-- Both paths send the message alike: a User message of blocks has no text and no image, or a
result, beside which `complete` drops them as well. -/
def SentAlike (msg : Message) : Prop :=
  match msg.role, msg.content with
  | .user, .blocks blocks =>
      (∀ b ∈ blocks, contentPart? b = none) ∨ ∃ b ∈ blocks, b.resultId?.isSome
  | _, _ => True

/-! ### What a sent message says -/

@[simp] theorem said_empty (form : String → Utterance) : said form "" = [] := rfl

theorem said_eq_nil_iff (form : String → Utterance) (text : String) :
    said form text = [] ↔ text.isEmpty := by
  unfold said
  split <;> simp_all

@[simp] theorem utterances_system (text : String) :
    (textMessage "system" text).utterances = [] := by
  simp [OaiMessage.utterances, textMessage]

@[simp] theorem utterances_user (text : String) :
    (textMessage "user" text).utterances = said .userText text := by
  simp [OaiMessage.utterances, textMessage, OaiMessageContent.utterances]

@[simp] theorem utterances_assistant (text : String) :
    (textMessage "assistant" text).utterances = said .assistantText text := by
  simp [OaiMessage.utterances, textMessage, OaiMessageContent.utterances]

/-- What `stream` says for a block of a User message. -/
def resultUtterances (b : ContentBlock) : List Utterance :=
  (toolMessage? b).toList.flatMap OaiMessage.utterances

@[simp] theorem resultUtterances_toolResult (id name content : String) (isError : Bool) :
    resultUtterances (.toolResult id name content isError) =
      [.toolResult id (shownResult content)] := by
  simp [resultUtterances, toolMessage?, OaiMessage.utterances, textMessage,
    OaiMessageContent.resultUtterances]

theorem utterances_streamUserBlocks (blocks : List ContentBlock) :
    (streamUserBlocks blocks).flatMap OaiMessage.utterances = blocks.flatMap resultUtterances := by
  induction blocks with
  | nil => rfl
  | cons b rest ih =>
      rw [List.flatMap_cons, ← ih, resultUtterances, ← List.flatMap_append]
      cases h : toolMessage? b with
      | none => simp [streamUserBlocks, List.filterMap_cons_none h]
      | some m => simp [streamUserBlocks, List.filterMap_cons_some h]

theorem resultUtterances_sublist (lib : Library) (b : ContentBlock) :
    (resultUtterances b).Sublist (userUtterances lib b) := by
  cases b with
  | toolResult id name content isError => simp [userUtterances, blockUtterances]
  | _ => exact List.nil_sublist _

theorem resultUtterances_eq_iff (lib : Library) (b : ContentBlock) :
    resultUtterances b = userUtterances lib b ↔ CarriedForUser b := by
  cases b with
  | text text metadata =>
      rw [CarriedForUser, ← said_eq_nil_iff .userText]
      exact eq_comm
  | toolResult id name content isError =>
      simp [userUtterances, blockUtterances, CarriedForUser]
  | _ => simp [resultUtterances, toolMessage?, userUtterances, blockUtterances, CarriedForUser]

/-- What is sent for a block of an Assistant message besides its text. -/
def callUtterances (lib : Library) (b : ContentBlock) : List Utterance :=
  (toolCall? lib b).toList.map OaiToolCall.utterance

theorem callUtterances_sublist (lib : Library) (b : ContentBlock) :
    (callUtterances lib b).Sublist (blockUtterances lib b) := by
  cases b <;> simp [callUtterances, toolCall?, blockUtterances, OaiToolCall.utterance]

theorem callUtterances_eq_iff (lib : Library) (b : ContentBlock) :
    callUtterances lib b = blockUtterances lib b ↔ CarriedForAssistant b := by
  cases b <;>
    simp [callUtterances, toolCall?, blockUtterances, OaiToolCall.utterance, CarriedForAssistant]

theorem utterances_assistantMessage (lib : Library) (needsReasoning : Bool)
    (blocks : List ContentBlock) :
    (assistantMessage lib needsReasoning blocks).utterances =
      said .assistantText (String.join (blocks.filterMap CompletionResponse.blockText)) ++
        blocks.flatMap (callUtterances lib) := by
  have hcalls : (blocks.filterMap (toolCall? lib)).map OaiToolCall.utterance =
      blocks.flatMap (callUtterances lib) := by
    induction blocks with
    | nil => rfl
    | cons b rest ih =>
        rw [List.flatMap_cons, ← ih, callUtterances]
        cases h : toolCall? lib b with
        | none => simp [List.filterMap_cons_none h]
        | some c => simp [List.filterMap_cons_some h]
  rw [← hcalls]
  unfold OaiMessage.utterances assistantMessage
  generalize blocks.filterMap (toolCall? lib) = calls
  generalize blocks.filterMap CompletionResponse.blockText = texts
  cases texts <;> cases calls <;> simp [OaiMessageContent.utterances]

/-! ### One message -/

/-- What `stream` says for a message of the history. -/
def streamedUtterances (lib : Library) (msg : Message) : List Utterance :=
  match msg.role, msg.content with
  | .system, _ => []
  | .user, .text text => said .userText text
  | .user, .blocks blocks => blocks.flatMap resultUtterances
  | .assistant, .text text => said .assistantText text
  | .assistant, .blocks blocks =>
      said .assistantText (String.join (blocks.filterMap CompletionResponse.blockText)) ++
        blocks.flatMap (callUtterances lib)

section OneMessage

variable (lib : Library) (needsReasoning : Bool) (system : Option String) (msg : Message)

theorem utterances_convertMessage_stream :
    (convertMessage streamUserBlocks lib needsReasoning system msg).flatMap
      OaiMessage.utterances = streamedUtterances lib msg := by
  obtain ⟨role, content, ctx⟩ := msg
  cases role with
  | system =>
      cases content with
      | text text => cases system <;> simp [convertMessage, streamedUtterances]
      | blocks blocks => rfl
  | user =>
      cases content with
      | text text => simp [convertMessage, streamedUtterances]
      | blocks blocks => exact utterances_streamUserBlocks blocks
  | assistant =>
      cases content with
      | text text => simp [convertMessage, streamedUtterances]
      | blocks blocks =>
          simp [convertMessage, streamedUtterances, utterances_assistantMessage]

/-- `stream` says nothing that the message does not say. -/
theorem streamedUtterances_sublist :
    (streamedUtterances lib msg).Sublist (messageUtterances lib msg) := by
  unfold streamedUtterances messageUtterances
  split
  · exact List.Sublist.refl _
  · exact List.Sublist.refl _
  · exact List.Sublist.flatMap_right _ fun b _ => resultUtterances_sublist lib b
  · exact List.Sublist.refl _
  · exact (List.Sublist.flatMap_right _ fun b _ => callUtterances_sublist lib b).append_left _

theorem streamedUtterances_eq_iff :
    streamedUtterances lib msg = messageUtterances lib msg ↔ KeptByStream msg := by
  obtain ⟨role, content, ctx⟩ := msg
  cases role <;> cases content
  case user.blocks blocks =>
    simp only [streamedUtterances, messageUtterances, KeptByStream, ← resultUtterances_eq_iff lib]
    exact flatMap_eq_flatMap_iff fun b _ => resultUtterances_sublist lib b
  case assistant.blocks blocks =>
    simp only [streamedUtterances, messageUtterances, KeptByStream, ← callUtterances_eq_iff lib,
      List.append_cancel_left_eq]
    exact flatMap_eq_flatMap_iff fun b _ => callUtterances_sublist lib b
  all_goals exact ⟨fun _ => trivial, fun _ => rfl⟩

/-- What `stream` sends for a message, `complete` sends as well. -/
theorem convertMessage_stream_sublist :
    (convertMessage streamUserBlocks lib needsReasoning system msg).Sublist
      (convertMessage completeUserBlocks lib needsReasoning system msg) := by
  obtain ⟨role, content, ctx⟩ := msg
  cases role <;> cases content
  case user.blocks blocks => exact List.sublist_append_left _ _
  all_goals exact List.Sublist.refl _

theorem convertMessage_eq_iff :
    convertMessage streamUserBlocks lib needsReasoning system msg =
      convertMessage completeUserBlocks lib needsReasoning system msg ↔ SentAlike msg := by
  obtain ⟨role, content, ctx⟩ := msg
  cases role <;> cases content
  case user.blocks blocks =>
    have hparts : blocks.filterMap contentPart? = [] ↔ ∀ b ∈ blocks, contentPart? b = none :=
      List.filterMap_eq_nil_iff
    have hresults : (blocks.any fun b => b.resultId?.isSome) = true ↔
        ∃ b ∈ blocks, b.resultId?.isSome := List.any_eq_true
    simp only [convertMessage, streamUserBlocks, completeUserBlocks, SentAlike, ← hparts,
      ← hresults, List.self_eq_append_right]
    cases blocks.filterMap contentPart? <;>
      cases (blocks.any fun b => b.resultId?.isSome) <;> simp
  all_goals exact ⟨fun _ => trivial, fun _ => rfl⟩

end OneMessage

/-! ### The whole history -/

section Whole

variable (lib : Library) (baseUrl : String) (request : CompletionRequest)

/-- What `stream` sends says what it says for each message; the system prompt is no part of the
history. -/
theorem utterances_streamMessages :
    (streamMessages lib baseUrl request).flatMap OaiMessage.utterances =
      request.messages.flatMap (streamedUtterances lib) := by
  have hsystem : (request.system.map (textMessage "system")).toList.flatMap
      OaiMessage.utterances = [] := by
    cases request.system <;> simp
  rw [streamMessages, oaiMessages, List.flatMap_append, hsystem, List.nil_append,
    List.flatMap_assoc]
  simp only [utterances_convertMessage_stream]

theorem streamMessages_says_all_iff :
    (streamMessages lib baseUrl request).flatMap OaiMessage.utterances =
      utterances lib request.messages ↔ ∀ msg ∈ request.messages, KeptByStream msg := by
  rw [utterances_streamMessages, utterances,
    flatMap_eq_flatMap_iff fun msg _ => streamedUtterances_sublist lib msg]
  simp only [streamedUtterances_eq_iff]

theorem completeMessages_eq_streamMessages_iff :
    completeMessages lib baseUrl request = streamMessages lib baseUrl request ↔
      ∀ msg ∈ request.messages, SentAlike msg := by
  rw [eq_comm, completeMessages, streamMessages, oaiMessages, oaiMessages,
    List.append_cancel_left_eq,
    flatMap_eq_flatMap_iff fun msg _ => convertMessage_stream_sublist lib _ request.system msg]
  simp only [convertMessage_eq_iff]

/-- The driver sends the whole conversation on both paths exactly if no User message of blocks
has an image or a text that is not empty, none has an empty text without a result, and no
Assistant message has an image. -/
theorem sendsWhole_iff : SendsWhole lib baseUrl request ↔
    ∀ msg ∈ request.messages, KeptByStream msg ∧ SentAlike msg := by
  rw [forall₂_and, ← streamMessages_says_all_iff lib baseUrl,
    ← completeMessages_eq_streamMessages_iff lib baseUrl]
  constructor
  · intro h
    exact ⟨h.stream, h.agree⟩
  · rintro ⟨hstream, hagree⟩
    exact ⟨hagree, hagree ▸ hstream, hstream⟩

end Whole

/-- A question that session repair has merged behind a result. -/
def mergedRequest : CompletionRequest where
  model := "gpt-4o"
  messages :=
    [.user "read the file",
      { role := .assistant, content := .blocks [.toolUse "call_0" "file_read" .null none] },
      .userWithBlocks [.toolResult "call_0" "file_read" "one" false, .text "and now?" none]]
  tools := []
  maxTokens := 4096
  temperature := 0
  system := none

/-- The merged question is sent on neither path. -/
theorem merged_question_is_lost : ¬ ∀ lib baseUrl request,
    Session.WellFormed request.messages → SendsWhole lib baseUrl request := by
  intro h
  have hwhole := h asciiLibrary "https://api.openai.com/v1" mergedRequest
    (Session.wellFormed_of_decidable (by decide) (by decide) (by decide) (by decide) (by decide)
      (by decide))
  have hkept := ((sendsWhole_iff asciiLibrary _ _).mp hwhole _
    (List.mem_of_getElem? (i := 2) rfl)).1
  have hquestion : CarriedForUser (.text "and now?" none) := hkept _ (by decide)
  exact absurd hquestion (by simp [CarriedForUser])

end ArmaraOS.Drivers
