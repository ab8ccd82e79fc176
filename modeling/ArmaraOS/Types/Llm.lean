import ArmaraOS.Types.Message

/-!
The driver interface of `openfang-runtime/src/llm_driver.rs` and the tool types of
`openfang-types/src/tool.rs`.
-/

namespace ArmaraOS

/-- `ToolDefinition`. -/
structure ToolDefinition where
  name : String
  description : String
  inputSchema : Json

/-- `ToolCall`. -/
structure ToolCall where
  id : String
  name : String
  input : Json
deriving DecidableEq

/-- `ToolResult`. -/
structure ToolResult where
  toolUseId : String
  content : String
  isError : Bool

/-- `CompletionRequest`. The agent loop never sets `thinking`; the temperature is
the bit pattern of its `f32`. -/
structure CompletionRequest where
  model : String
  messages : List Message
  tools : List ToolDefinition
  maxTokens : Nat
  temperature : UInt32
  system : Option String

/-- `CompletionResponse`, without the vitals, which no modelled function reads. -/
structure CompletionResponse where
  content : List ContentBlock
  stopReason : StopReason
  toolCalls : List ToolCall
  usage : TokenUsage

/-- `LlmError`. -/
inductive LlmError where
  | http (message : String)
  | api (status : Nat) (message : String)
  | rateLimited (retryAfterMs : Nat)
  | parse (message : String)
  | missingApiKey (message : String)
  | overloaded (retryAfterMs : Nat)
  | authenticationFailed (message : String)
  | modelNotFound (message : String)

/-- The `Display` text of an error. -/
def LlmError.toText : LlmError → String
  | .http m => s!"HTTP error: {m}"
  | .api status m => s!"API error ({status}): {m}"
  | .rateLimited ms => s!"Rate limited, retry after {ms}ms"
  | .parse m => s!"Parse error: {m}"
  | .missingApiKey m => s!"Missing API key: {m}"
  | .overloaded ms => s!"Model overloaded, retry after {ms}ms"
  | .authenticationFailed m => s!"Authentication failed: {m}"
  | .modelNotFound m => s!"Model not found: {m}"

/-- `StreamEvent`: what a driver and the streaming loop send to the consumer. -/
inductive StreamEvent where
  | textDelta (text : String)
  | toolUseStart (id name : String)
  | toolInputDelta (text : String)
  | toolUseEnd (id name : String) (input : Json)
  | thinkingDelta (text : String)
  | contentComplete (stopReason : StopReason) (usage : TokenUsage)
  | phaseChange (phase : String) (detail : Option String)
  | toolExecutionResult (id name resultPreview : String) (isError : Bool)
  | compressionStats (savingsPct : Nat) (compressedText : String)
  | ainlRuntimeTelemetry (payload : Json)

namespace CompletionResponse

/-- The text of a Text block. -/
def blockText : ContentBlock → Option String
  | .text s _ => some s
  | _ => none

/-- `CompletionResponse::text`. -/
def text (r : CompletionResponse) : String := String.join (r.content.filterMap blockText)

/-- The condition of `has_any_content` on one block. -/
def blockHasContent : ContentBlock → Bool
  | .text s _ => !s.isEmpty
  | .thinking s => !s.isEmpty
  | .toolUse .. => true
  | .image .. => true
  | _ => false

/-- `CompletionResponse::has_any_content`. -/
def hasAnyContent (r : CompletionResponse) : Bool := r.content.any blockHasContent

end CompletionResponse

end ArmaraOS
