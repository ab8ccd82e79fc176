import ArmaraOS.Agent.LoopGuard
import ArmaraOS.Agent.Replies
import ArmaraOS.Agent.ToolNames

/-!
The surroundings of one turn of the agent loop and its local variables.

Everything outside the loop (drivers, tools, hooks, the `/btw` and `/redirect`
channels, the session store, fresh ids, hash orders) is a `World` over an
arbitrary state type: what it answers may depend on all that happened before.
`TurnConfig` holds what is fixed for a turn. `LoopState` holds the mutable
variables of `run_agent_loop`, the state of the world, and three ghosts: the log of
what the turn did, the events it streamed, and the session as a final answer left it
before old heartbeat turns were pruned.
-/

namespace ArmaraOS.Agent

/-- Which driver a request goes to: the agent's own, the fallback model at an
index of the manifest, or the OpenRouter alternate. -/
inductive DriverRef where
  | primary
  | fallback (index : Nat)
  | openrouter

/-- The outcome of a performed tool call. -/
structure ToolOutcome where
  content : String
  isError : Bool

/-- What the native planner did at the start of a turn: nothing the loop uses, or
a plan whose steps were dispatched in the given order. `summary` is the text of a
completed plan and `none` when the executor fell back to the tool loop. -/
inductive PlanReply where
  | unusable
  | executed (usage : TokenUsage) (steps : List ToolCall) (summary : Option String)

/-- The surroundings of the loop. A tool batch runs concurrently and is answered
slot by slot; no answer for a slot is a timeout. -/
structure World (σ : Type) where
  complete : DriverRef → CompletionRequest → σ → Except LlmError CompletionResponse × σ
  stream : DriverRef → CompletionRequest → σ →
    (Except LlmError CompletionResponse × List StreamEvent) × σ
  adhocDriver : DriverRef → σ → Bool × σ
  drainBtw : σ → List String × σ
  recvRedirect : σ → Option String × σ
  beforeToolCall : ToolCall → σ → Option String × σ
  runBatch : List (Option Invocation) → σ → (Nat → Option ToolOutcome) × σ
  saveSession : List Message → σ → Option String × σ
  newUuid : σ → String × σ
  hashOrder : List String → σ → List String × σ
  plan : List Message → σ → PlanReply × σ
  progressTicks : σ → Nat

/-- The classification of a driver error (`llm_errors.rs`), as far as it is read. -/
structure ClassifiedError where
  isModelNotFound : Bool
  isFormat : Bool
  sanitizedMessage : String

/-- Text functions of the repository that the loop calls as they are:
`recover_text_tool_calls` (names and inputs of the calls it finds),
`classify_error`, `corrective_hint_for_failures`,
`assistant_output_compress::apply_if_env` and
`process_compose_telemetry_for_turn`. -/
structure TextRules where
  recoverTextToolCalls : String → List ToolDefinition → List (String × Json)
  classifyError : String → Option Nat → ClassifiedError
  correctiveHint : List (String × String) → Option String
  compressReply : String → String
  compose : String → List Message → String × List Message

/-- `FallbackModel`, as far as the loop reads it. -/
structure FallbackModel where
  provider : String
  model : String

/-- The parts of the system prompt, in the order they are appended. -/
structure PromptParts where
  base : String
  memories : String
  orchestration : String
  graphMemory : String
  persona : String
  readiness : String

/-- What is fixed for one turn: manifest, limits, tools, user message and prompt.
`suppressesPersona` says that the planner's snapshot holds a persona. -/
structure TurnConfig where
  lib : Library
  rules : TextRules
  provider : String
  model : String
  maxTokens : Nat
  temperature : UInt32
  fallbackModels : List FallbackModel
  tools : List ToolDefinition
  contextWindowTokens : Option Nat
  maxIterations : Nat
  maxHistoryMessages : Nat
  maxContinuations : Nat
  canonicalContext : Option String
  prompt : PromptParts
  userMessage : String
  compressedMessage : Option String
  userBlocks : Option (List ContentBlock)
  plannerPathEligible : Bool
  suppressesPersona : Bool
  compressionEvent : Option StreamEvent
  telemetryEvent : Option StreamEvent

/-- The errors a turn returns. -/
inductive LoopError where
  | llmDriver (message : String)
  | internal (message : String)
  | memory (message : String)
deriving DecidableEq

/-- `LlmFallbackUsed`. -/
structure LlmFallbackUsed where
  note : String
  provider : String
  model : String
deriving DecidableEq

/-- `AgentLoopOutcome`. -/
inductive AgentLoopOutcome where
  | completed
  | silent
  | failedSafely
  | blockedByLoopGuard
  | providerFailure
  | maxContinuations
  | maxIterations
  | ainlAuthoringUnresolved
  | plannerCompleted
deriving DecidableEq

/-- `AgentLoopResult`, without its latency, cost and compression statistics. -/
structure AgentLoopResult where
  response : String
  totalUsage : TokenUsage
  iterations : Nat
  silent : Bool := false
  outcome : AgentLoopOutcome
  directives : ReplyDirectives := {}
  fallbackUsed : Option LlmFallbackUsed := none
deriving DecidableEq

/-- What a turn did: requests sent to a driver, responses as the loop handles
them, calls performed, and the results of performed calls as they are recorded. -/
inductive Event where
  | request (driver : DriverRef) (request : CompletionRequest)
  | response (response : CompletionResponse)
  | toolStarted (invocation : Invocation)
  | toolFinished (invocation : Invocation) (content : String) (isError : Bool)

/-- The mutable variables of the loop, with the state of the world. -/
structure LoopState (σ : Type) where
  world : σ
  log : List Event := []
  streamed : List StreamEvent := []
  unpruned : Option (List Message) := none
  systemPrompt : String
  session : List Message
  messages : List Message
  totalUsage : TokenUsage := {}
  loopGuard : LoopGuard
  consecutiveMaxTokens : Nat := 0
  consecutiveAllBlocked : Nat := 0
  consecutiveSilentFailures : Nat := 0
  toolErrorTracker : ToolErrorTracker := {}
  lastToolsCalled : List String := []
  pendingAinlAuthoringFailure : Option PendingAinlAuthoringFailure := none
  lastAinlProof : Option AinlProof := none
  lastStrictValidateCodeSha256 : Option String := none
  anyToolsExecuted : Bool := false
  silentToolsOverrideAttempts : Nat := 0
  fallbackUsed : Option LlmFallbackUsed := none

/-- How an iteration ends: with the next one, or with the turn. -/
inductive Step (σ : Type) where
  | next (st : LoopState σ)
  | done (result : Except LoopError AgentLoopResult) (st : LoopState σ)

namespace TurnConfig

/-- `session_user_message`: the compressed message when there is one. -/
def sessionUserMessage (cfg : TurnConfig) : String := cfg.compressedMessage.getD cfg.userMessage

/-- `ctx_window`: the model's window, else `DEFAULT_CONTEXT_WINDOW`. -/
def ctxWindow (cfg : TurnConfig) : Nat := cfg.contextWindowTokens.getD 200000

/-- `allow_non_strict`. -/
def allowNonStrict (cfg : TurnConfig) : Bool :=
  userExplicitlyRequestedNonStrict cfg.sessionUserMessage

/-- `allowed_tool_names`. -/
def allowedToolNames (cfg : TurnConfig) : List String := cfg.tools.map ToolDefinition.name

/-- `loop_guard_config`. -/
def loopGuardConfig (cfg : TurnConfig) : LoopGuardConfig :=
  if 30 < cfg.maxIterations then { globalCircuitBreaker := cfg.maxIterations * 3 } else {}

end TurnConfig

end ArmaraOS.Agent
