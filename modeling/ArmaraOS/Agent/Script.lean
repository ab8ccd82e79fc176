import ArmaraOS.Agent.World

/-!
Surroundings that are written down in advance. A `Script` lists what the drivers, the
tools, the redirect channel and the planner will answer; `scriptedWorld` plays it, so
that a turn can be computed.
-/

namespace ArmaraOS.Agent

open ArmaraOS.Text

/-! ### Library functions -/

mutual

/-- Compact JSON text, for strings that need no escapes. -/
def compactJson : Json → String
  | .null => "null"
  | .bool b => if b then "true" else "false"
  | .int n => toString n
  | .float bits => toString bits.toNat
  | .str s => "\"" ++ s ++ "\""
  | .arr items => "[" ++ compactItems items ++ "]"
  | .obj fields => "\x7b" ++ compactFields fields ++ "\x7d"

/-- The items of an array, each followed by a comma unless it is the last. -/
def compactItems : List Json → String
  | [] => ""
  | [item] => compactJson item
  | item :: rest => compactJson item ++ "," ++ compactItems rest

/-- The entries of an object. -/
def compactFields : List (String × Json) → String
  | [] => ""
  | [(key, value)] => "\"" ++ key ++ "\":" ++ compactJson value
  | (key, value) :: rest => "\"" ++ key ++ "\":" ++ compactJson value ++ "," ++ compactFields rest

end

/-- The body of a successful AINL tool result. -/
def okBody : String := "\x7b\"ok\":true\x7d"

/-- The body of a failed AINL tool result. -/
def failedBody : String := "\x7b\"ok\":false\x7d"

/-- Library functions for texts in ASCII. Hashes are the hashed text itself, and only the
two bodies above parse as JSON. -/
def asciiLibrary : Library where
  sha256Hex := id
  jsonToString := compactJson
  jsonFromStr body :=
    if body = okBody then some (.obj [("ok", .bool true)])
    else if body = failedBody then some (.obj [("ok", .bool false)])
    else none
  toLowercase := toAsciiLowercase

/-- Text rules that find, change and compose nothing. -/
def plainRules : TextRules where
  recoverTextToolCalls _ _ := []
  classifyError message _ := ⟨false, false, message⟩
  correctiveHint _ := none
  compressReply text := text
  compose prompt messages := (prompt, messages)

/-! ### The world -/

/-- What the surroundings will answer, each list from its head. `fresh` numbers the new
ids. -/
structure Script where
  replies : List (Except LlmError CompletionResponse)
  outcomes : List ToolOutcome := []
  redirects : List (Option String) := []
  plan : PlanReply := .unusable
  fresh : Nat := 0

/-- The next reply; a script that has run out refuses the connection. -/
def Script.reply (s : Script) : Except LlmError CompletionResponse × Script :=
  match s.replies with
  | [] => (.error (.http "connection refused"), s)
  | r :: rest => (r, { s with replies := rest })

/-- The deltas of a reply. -/
def replyDeltas : Except LlmError CompletionResponse → List StreamEvent
  | .ok response => [.textDelta response.text]
  | .error _ => []

/-- The world that plays a script. -/
def scriptedWorld : World Script where
  complete _ _ s := s.reply
  stream _ _ s := ((s.reply.1, replyDeltas s.reply.1), s.reply.2)
  adhocDriver _ s := (false, s)
  drainBtw s := ([], s)
  recvRedirect s := (s.redirects.head?.join, { s with redirects := s.redirects.tail })
  beforeToolCall _ s := (none, s)
  runBatch batch s :=
    ((s.outcomes[·]?), { s with outcomes := s.outcomes.drop batch.length })
  saveSession _ s := (none, s)
  newUuid s := (toString s.fresh, { s with fresh := s.fresh + 1 })
  hashOrder names s := (names, s)
  plan _ s := (s.plan, s)
  progressTicks _ := 0

/-- A turn of an agent with the given tools, user message and iteration limit. -/
def scriptedTurn (tools : List String) (userMessage : String) (maxIterations : Nat) :
    TurnConfig where
  lib := asciiLibrary
  rules := plainRules
  provider := "openai"
  model := "gpt-4o"
  maxTokens := 4096
  temperature := 0x3f333333
  fallbackModels := []
  tools := tools.map fun name => ⟨name, "", .obj []⟩
  contextWindowTokens := none
  maxIterations := maxIterations
  maxHistoryMessages := 20
  maxContinuations := 5
  canonicalContext := none
  prompt := ⟨"You are an assistant.", "", "", "", "", ""⟩
  userMessage := userMessage
  compressedMessage := none
  userBlocks := none
  plannerPathEligible := false
  suppressesPersona := false
  compressionEvent := none
  telemetryEvent := none

/-- A reply that calls tools. -/
def callReply (calls : List ToolCall) : CompletionResponse where
  content := calls.map fun tc => .toolUse tc.id tc.name tc.input none
  stopReason := .toolUse
  toolCalls := calls
  usage := ⟨10, 10, 0, 0⟩

/-- A reply that ends the turn. -/
def textReply (text : String) : CompletionResponse where
  content := [.text text none]
  stopReason := .endTurn
  toolCalls := []
  usage := ⟨10, 10, 0, 0⟩

end ArmaraOS.Agent
