import ArmaraOS.Drivers.OpenAiResponse

/-!
The replies of the Gemini driver (`openfang-runtime/src/drivers/gemini.rs`): `convert_response`
for a success body, and `stream` for server-sent events.

Gemini gives its calls no ids; the driver takes a new UUID for each. The UUIDs are numbered in
the order in which they are taken, and each method says how many it has taken.
-/

namespace ArmaraOS.Drivers

open ArmaraOS.Lib ArmaraOS.Text

/-! ### Wire types -/

/-- `GeminiPart`; what stands in inline data and in function responses is not read. -/
inductive GeminiPart where
  | thought (text : String) (thought : Bool) (thoughtSignature : Option String)
  | text (text : String) (thoughtSignature : Option String)
  | inlineData
  | functionCall (name : String) (args : Json) (thoughtSignature : Option String)
  | functionResponse
deriving DecidableEq

/-- `GeminiCandidate`; its content stands with its parts. -/
structure GeminiCandidate where
  content : Option (List GeminiPart)
  finishReason : Option String
deriving DecidableEq

/-- `GeminiUsageMetadata`. -/
structure GeminiUsageMetadata where
  promptTokenCount : Nat
  candidatesTokenCount : Nat
deriving DecidableEq

/-- `GeminiResponse`. -/
structure GeminiResponse where
  candidates : List GeminiCandidate
  usageMetadata : Option GeminiUsageMetadata
deriving DecidableEq

/-- `serde_json::from_str` at the response types; the error is its text. -/
structure Decoders where
  oaiResponse : String → Except String OaiResponse
  geminiResponse : String → Except String GeminiResponse

/-- The id of a call under a UUID. -/
def callId (uuid : Nat → String) (n : Nat) : String := "call_" ++ uuid n

/-- The provider metadata for a thought signature. -/
def signatureMetadata (thoughtSignature : Option String) : Option Json :=
  thoughtSignature.map fun sig => .obj [("thought_signature", .str sig)]

/-- The usage for a usage metadata. -/
def geminiUsage (u : GeminiUsageMetadata) : TokenUsage :=
  { inputTokens := u.promptTokenCount, outputTokens := u.candidatesTokenCount }

/-! ### A success body -/

/-- What `convert_response` has built; `taken` UUIDs are gone. -/
structure GeminiContent where
  content : List ContentBlock := []
  toolCalls : List ToolCall := []
  taken : Nat

/-- One part of the candidate. -/
def GeminiContent.pushPart (uuid : Nat → String) (st : GeminiContent) :
    GeminiPart → GeminiContent
  | .text text sig =>
      if text.isEmpty then st
      else { st with content := st.content ++ [.text text (signatureMetadata sig)] }
  | .functionCall name args sig =>
      let id := callId uuid st.taken
      { content := st.content ++ [.toolUse id name args (signatureMetadata sig)]
        toolCalls := st.toolCalls ++ [⟨id, name, args⟩]
        taken := st.taken + 1 }
  | .thought text _ _ =>
      if text.isEmpty then st else { st with content := st.content ++ [.thinking text] }
  | .inlineData | .functionResponse => st

/-- The stop reason of `convert_response`. -/
def geminiStopReason (finishReason : Option String) (toolCalls : List ToolCall) : StopReason :=
  if !toolCalls.isEmpty then .toolUse
  else if finishReason = some "MAX_TOKENS" then .maxTokens else .endTurn

/-- `convert_response`, when `taken` UUIDs are gone. -/
def convertResponse (uuid : Nat → String) (taken : Nat) (resp : GeminiResponse) :
    Except LlmError CompletionResponse × Nat :=
  match resp.candidates with
  | [] => (.error (.parse "No candidates in Gemini response"), taken)
  | candidate :: _ =>
      match candidate.content with
      | none =>
          let reason := candidate.finishReason.getD "unknown"
          (.error (.parse s!"Gemini returned empty response (finish_reason: {reason})"), taken)
      | some parts =>
          let st := parts.foldl (GeminiContent.pushPart uuid) { taken := taken }
          (.ok
            { content := st.content
              stopReason := geminiStopReason candidate.finishReason st.toolCalls
              toolCalls := st.toolCalls
              usage := (resp.usageMetadata.map geminiUsage).getD {} },
            st.taken)

/-- `complete`, from a success status on. -/
def geminiCompleteResponse (decoders : Decoders) (uuid : Nat → String) (taken : Nat)
    (body : String) : Except LlmError CompletionResponse × Nat :=
  match decoders.geminiResponse body with
  | .error e => (.error (.parse e), taken)
  | .ok resp => convertResponse uuid taken resp

/-! ### Server-sent events -/

/-- An entry of `fn_calls`. -/
structure GeminiCall where
  name : String
  args : Json
  thoughtSignature : Option String

/-- What `stream` accumulates; `taken` UUIDs are gone. -/
structure GeminiAccum where
  textContent : String := ""
  textThoughtSig : Option String := none
  fnCalls : List GeminiCall := []
  finishReason : Option String := none
  usage : TokenUsage := {}
  taken : Nat

/-- One part. The id that a function call is announced with is not the one it is returned with. -/
def GeminiAccum.pushPart (st : GeminiAccum) : GeminiPart → GeminiAccum
  | .text text sig =>
      { st with
        textContent := st.textContent ++ text
        textThoughtSig := sig.orElse fun _ => st.textThoughtSig }
  | .functionCall name args sig =>
      { st with fnCalls := st.fnCalls ++ [⟨name, args, sig⟩], taken := st.taken + 1 }
  | .thought .. | .inlineData | .functionResponse => st

/-- One candidate of an event. -/
def GeminiAccum.pushCandidate (st : GeminiAccum) (candidate : GeminiCandidate) : GeminiAccum :=
  (candidate.content.getD []).foldl GeminiAccum.pushPart
    { st with finishReason := candidate.finishReason.orElse fun _ => st.finishReason }

/-- The usage of an event. -/
def GeminiAccum.pushUsage (st : GeminiAccum) (event : GeminiResponse) : GeminiAccum :=
  match event.usageMetadata with
  | none => st
  | some u =>
      { st with usage :=
          { st.usage with
            inputTokens := u.promptTokenCount
            outputTokens := u.candidatesTokenCount } }

/-- One event. -/
def GeminiAccum.pushEvent (st : GeminiAccum) (event : GeminiResponse) : GeminiAccum :=
  event.candidates.foldl GeminiAccum.pushCandidate (st.pushUsage event)

/-- An event in its JSON text. -/
def geminiParse (decoders : Decoders) (data : List Char) : Option GeminiResponse :=
  if data.isEmpty then none else (decoders.geminiResponse (String.ofList data)).toOption

/-- The event in a line. -/
def geminiEvent? (decoders : Decoders) (line : List Char) : Option GeminiResponse :=
  (dataOf line).bind (geminiParse decoders)

/-- The event in what is left in the buffer when the body has ended. -/
def geminiLeftover? (decoders : Decoders) (left : List Char) : Option GeminiResponse :=
  ("data:".toList.isPrefixOf? (trimChars isWhitespace left)).bind fun data =>
    geminiParse decoders (trimChars isWhitespace data)

/-- An event, if there is one. -/
def GeminiAccum.pushEvent? (st : GeminiAccum) (event : Option GeminiResponse) : GeminiAccum :=
  match event with
  | none => st
  | some event => st.pushEvent event

/-- The stop reason of `stream`. -/
def geminiStreamStopReason (finishReason : Option String) (toolCalls : List ToolCall) :
    StopReason :=
  if finishReason = some "STOP" then .endTurn
  else if finishReason = some "MAX_TOKENS" then .maxTokens
  else if finishReason = some "SAFETY" then .endTurn
  else if toolCalls.isEmpty then .endTurn else .toolUse

/-- The ToolUse block of an accumulated function call. -/
def GeminiCall.block (uuid : Nat → String) (call : GeminiCall × Nat) : ContentBlock :=
  .toolUse (callId uuid call.2) call.1.name call.1.args (signatureMetadata call.1.thoughtSignature)

/-- The tool call of an accumulated function call. -/
def GeminiCall.toolCall (uuid : Nat → String) (call : GeminiCall × Nat) : ToolCall :=
  ⟨callId uuid call.2, call.1.name, call.1.args⟩

/-- The response for what was accumulated. -/
def GeminiAccum.finish (uuid : Nat → String) (st : GeminiAccum) : CompletionResponse :=
  let numbered := st.fnCalls.zipIdx st.taken
  let toolCalls := numbered.map (GeminiCall.toolCall uuid)
  { content :=
      (if st.textContent.isEmpty then []
        else [.text st.textContent (signatureMetadata st.textThoughtSig)]) ++
        numbered.map (GeminiCall.block uuid)
    stopReason := geminiStreamStopReason st.finishReason toolCalls
    toolCalls := toolCalls
    usage := st.usage }

/-- The buffer and what `stream` has accumulated when no more bytes come. -/
def geminiRead (decoders : Decoders) (taken : Nat) (chunks : List (List UInt8)) :
    List Char × GeminiAccum :=
  lineFraming.readChunks (fun st line => GeminiAccum.pushEvent? st (geminiEvent? decoders line))
    { taken := taken } (chunks.map Utf8.fromUtf8Lossy)

/-- What `stream` has accumulated with the unterminated last line. -/
def geminiAccumulate (decoders : Decoders) (taken : Nat) (chunks : List (List UInt8)) :
    GeminiAccum :=
  let (left, st) := geminiRead decoders taken chunks
  st.pushEvent? (geminiLeftover? decoders left)

/-- `stream`, from a success status on. -/
def geminiStreamResponse (decoders : Decoders) (uuid : Nat → String) (taken : Nat)
    (body : ByteStream) : Except LlmError CompletionResponse × Nat :=
  match body.error with
  | some e => (.error (.http e), (geminiRead decoders taken body.chunks).2.taken)
  | none =>
      let st := geminiAccumulate decoders taken body.chunks
      (.ok (st.finish uuid), st.taken + st.fnCalls.length)

end ArmaraOS.Drivers
