import ArmaraOS.Types.Json

/-!
The conversation types of `openfang-types/src/message.rs`: roles, content
blocks, messages, stop reasons and usage, with the views of a message that the
pairing results are stated over (`toolUses`, `toolResults`).
-/

namespace ArmaraOS

/-- `Role`. -/
inductive Role where
  | system
  | user
  | assistant
deriving DecidableEq

/-- `ContentBlock`. -/
inductive ContentBlock where
  | text (text : String) (providerMetadata : Option Json)
  | image (mediaType data : String)
  | toolUse (id name : String) (input : Json) (providerMetadata : Option Json)
  | toolResult (toolUseId toolName content : String) (isError : Bool)
  | thinking (thinking : String)
  | unknown
deriving DecidableEq

/-- `MessageContent`. -/
inductive MessageContent where
  | text (text : String)
  | blocks (blocks : List ContentBlock)
deriving DecidableEq

/-- `MapReducePhase`. -/
inductive MapReducePhase where
  | map
  | reduce
deriving DecidableEq

/-- `OrchestrationPattern`. -/
inductive OrchestrationPattern where
  | adHoc
  | workflow (workflowId : String) (stepIndex : Nat) (stepName : String)
  | mapReduce (jobId : String) (phase : MapReducePhase) (itemIndex : Option Nat)
  | supervisor (supervisorId taskType : String)
  | delegation (delegatorId capabilityRequired : String)
  | coordination (coordinatorId taskId : String)
deriving DecidableEq

/-- `OrchestrationContext`, carried by a message and copied with it. -/
structure OrchestrationContext where
  orchestratorId : String
  callChain : List String
  depth : Nat
  sharedVars : List (String × Json)
  pattern : OrchestrationPattern
  remainingBudgetMs : Option Nat
  traceId : String
  createdAt : Int
  efficientMode : Option String
deriving DecidableEq

/-- `Message`. -/
structure Message where
  role : Role
  content : MessageContent
  orchestrationCtx : Option OrchestrationContext := none
deriving DecidableEq

/-- `StopReason`. -/
inductive StopReason where
  | endTurn
  | toolUse
  | maxTokens
  | stopSequence
deriving DecidableEq

/-- `TokenUsage`. -/
structure TokenUsage where
  inputTokens : Nat := 0
  outputTokens : Nat := 0
  cacheCreationInputTokens : Nat := 0
  cacheReadInputTokens : Nat := 0
deriving DecidableEq

/-- `ReplyDirectives`. -/
structure ReplyDirectives where
  replyTo : Option String := none
  currentThread : Bool := false
  silent : Bool := false
deriving DecidableEq

namespace Message

/-- `Message::system`. -/
def system (content : String) : Message := { role := .system, content := .text content }

/-- `Message::user`. -/
def user (content : String) : Message := { role := .user, content := .text content }

/-- `Message::user_with_blocks`. -/
def userWithBlocks (blocks : List ContentBlock) : Message :=
  { role := .user, content := .blocks blocks }

/-- `Message::assistant`. -/
def assistant (content : String) : Message := { role := .assistant, content := .text content }

end Message

/-! ### Tool blocks of a message -/

/-- The id of a ToolUse block. -/
def ContentBlock.useId? : ContentBlock → Option String
  | .toolUse id _ _ _ => some id
  | _ => none

/-- The id that a ToolResult block answers. -/
def ContentBlock.resultId? : ContentBlock → Option String
  | .toolResult id _ _ _ => some id
  | _ => none

/-- The ids of the ToolUse blocks of a block list, in order. -/
def toolUseIds (bs : List ContentBlock) : List String := bs.filterMap ContentBlock.useId?

/-- The ids that the ToolResult blocks of a block list answer, in order. -/
def toolResultIds (bs : List ContentBlock) : List String := bs.filterMap ContentBlock.resultId?

/-- The blocks of a content: none for plain text. -/
def MessageContent.blockList : MessageContent → List ContentBlock
  | .text _ => []
  | .blocks bs => bs

namespace Message

/-- The ToolUse ids of a message. -/
def toolUses (m : Message) : List String := toolUseIds m.content.blockList

/-- The ToolResult ids of a message. -/
def toolResults (m : Message) : List String := toolResultIds m.content.blockList

end Message

section ToolIds

variable (bs cs : List ContentBlock)

@[simp] theorem toolUseIds_nil : toolUseIds [] = [] := rfl

@[simp] theorem toolResultIds_nil : toolResultIds [] = [] := rfl

@[simp] theorem toolUseIds_append : toolUseIds (bs ++ cs) = toolUseIds bs ++ toolUseIds cs :=
  List.filterMap_append

@[simp] theorem toolResultIds_append :
    toolResultIds (bs ++ cs) = toolResultIds bs ++ toolResultIds cs :=
  List.filterMap_append

theorem toolUseIds_cons (b : ContentBlock) :
    toolUseIds (b :: bs) = b.useId?.toList ++ toolUseIds bs := by
  cases b <;> rfl

theorem toolResultIds_cons (b : ContentBlock) :
    toolResultIds (b :: bs) = b.resultId?.toList ++ toolResultIds bs := by
  cases b <;> rfl

theorem mem_toolResultIds {x : String} :
    x ∈ toolResultIds bs ↔ ∃ name content isError,
      ContentBlock.toolResult x name content isError ∈ bs := by
  simp only [toolResultIds, List.mem_filterMap]
  constructor
  · rintro ⟨b, hb, hx⟩
    cases b with
    | toolResult id name content isError =>
        obtain rfl : id = x := by simpa [ContentBlock.resultId?] using hx
        exact ⟨name, content, isError, hb⟩
    | _ => simp [ContentBlock.resultId?] at hx
  · rintro ⟨name, content, isError, hb⟩
    exact ⟨_, hb, rfl⟩

end ToolIds

end ArmaraOS
