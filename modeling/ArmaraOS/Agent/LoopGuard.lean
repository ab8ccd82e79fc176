import ArmaraOS.Agent.Library
import ArmaraOS.Lib.Text

/-!
The tool loop guard (`openfang-runtime/src/loop_guard.rs`). A `HashMap` is the
list of its insertions, newest first, read by `List.lookup`; a `HashSet` is the
list of its members. The counters are unbounded.
-/

namespace ArmaraOS.Agent

open ArmaraOS.Text

/-- `LoopGuardConfig`, with the values of its `Default`. -/
structure LoopGuardConfig where
  warnThreshold : Nat := 3
  blockThreshold : Nat := 5
  globalCircuitBreaker : Nat := 30
  pollMultiplier : Nat := 3
  outcomeWarnThreshold : Nat := 2
  outcomeBlockThreshold : Nat := 3
  pingPongMinRepeats : Nat := 3
  maxWarningsPerCall : Nat := 3

/-- `LoopGuardVerdict`. -/
inductive LoopGuardVerdict where
  | allow
  | warn (message : String)
  | block (message : String)
  | circuitBreak (message : String)

/-- `LoopGuard`, without the poll backoff counts, which the agent loop never
reads. -/
structure LoopGuard where
  config : LoopGuardConfig
  callCounts : List (String × Nat) := []
  totalCalls : Nat := 0
  outcomeCounts : List (String × Nat) := []
  blockedOutcomes : List String := []
  recentCalls : List String := []
  warningsEmitted : List (String × Nat) := []
  blockedCalls : Nat := 0
  hashToTool : List (String × String) := []

/-- `POLL_TOOLS`. -/
def pollTools : List String := ["shell_exec"]

/-- `HISTORY_SIZE`. -/
def historySize : Nat := 30

/-- `is_mcp_ainl_tool`. -/
def isMcpAinlTool (toolName : String) : Bool := startsWith toolName "mcp_ainl_"

/-- `ainl_run_body_is_adapter_registration_failure`. -/
def ainlRunBodyIsAdapterRegistrationFailure (lib : Library) (result : String) : Bool :=
  if !startsWith (String.ofList (result.toList.dropWhile isWhitespace)) "\x7b" then false
  else match lib.jsonFromStr result with
    | none => false
    | some v =>
        if (v.get "error_kind").bind Json.asStr = some "adapter_registration" then true
        else match (v.get "error").bind Json.asStr with
          | some s => contains (toAsciiLowercase s) "adapter not registered"
          | none => false

/-- `entry(key).or_insert(0)` followed by `+= 1`: the map and the new count. -/
def bump (key : String) (counts : List (String × Nat)) : List (String × Nat) × Nat :=
  let count := (counts.lookup key).getD 0 + 1
  ((key, count) :: counts, count)

namespace LoopGuard

/-- `LoopGuard::compute_hash`. -/
def computeHash (lib : Library) (toolName : String) (params : Json) : String :=
  lib.sha256Hex (toolName ++ "|" ++ lib.jsonToString params)

/-- `LoopGuard::compute_outcome_hash`. -/
def computeOutcomeHash (lib : Library) (toolName : String) (params : Json) (result : String) :
    String :=
  lib.sha256Hex
    (toolName ++ "|" ++ lib.jsonToString params ++ "|" ++ truncateStr result 1000)

/-- The status words of a polling shell command. -/
def pollWords : List String :=
  ["status", "poll", "wait", "watch", "tail", "ps ", "jobs", "pgrep", "docker ps", "kubectl get"]

/-- `LoopGuard::is_poll_call`. -/
def isPollCall (lib : Library) (toolName : String) (params : Json) : Bool :=
  let shellPoll :=
    decide (toolName ∈ pollTools) &&
      match (params.get "command").bind Json.asStr with
      | some cmd => pollWords.any (contains (lib.toLowercase cmd))
      | none => false
  let text := lib.toLowercase (lib.jsonToString params)
  shellPoll || contains text "status" || contains text "poll" || contains text "wait"

/-- The name recorded for a call hash. -/
def toolOf (g : LoopGuard) (hash : String) : String := (g.hashToTool.lookup hash).getD "unknown"

/-- `detect_ping_pong_impl`, read from the newest call backwards. -/
def detectPingPong (g : LoopGuard) : Option String :=
  let pairMessage : Option String :=
    match g.recentCalls.reverse with
    | b :: a :: b₁ :: a₁ :: b₂ :: a₂ :: _ =>
        if a₂ ≠ b₂ ∧ a₁ = a₂ ∧ b₁ = b₂ ∧ a = a₂ ∧ b = b₂ then
          some (s!"Ping-pong detected: tools '{g.toolOf a₂}' and '{g.toolOf b₂}' are alternating " ++
            "repeatedly. Break the cycle by trying a different approach.")
        else none
    | _ => none
  match pairMessage with
  | some message => some message
  | none =>
      match g.recentCalls.reverse with
      | c :: b :: a :: c₁ :: b₁ :: a₁ :: c₂ :: b₂ :: a₂ :: _ =>
          if ¬(a₂ = b₂ ∧ b₂ = c₂) ∧ a₁ = a₂ ∧ b₁ = b₂ ∧ c₁ = c₂ ∧ a = a₂ ∧ b = b₂ ∧ c = c₂ then
            some (s!"Ping-pong detected: tools '{g.toolOf a₂}', '{g.toolOf b₂}', " ++
              s!"'{g.toolOf c₂}' are cycling repeatedly. " ++
              "Break the cycle by trying a different approach.")
          else none
      | _ => none

/-- How often the newest pair `b, a` repeats at the head of a reversed history. -/
def countPairs (a b : String) : List String → Nat
  | y :: x :: rest => if x = a ∧ y = b then countPairs a b rest + 1 else 0
  | _ => 0

/-- How often the newest triple `c, b, a` repeats at the head of a reversed history. -/
def countTriples (a b c : String) : List String → Nat
  | z :: y :: x :: rest => if x = a ∧ y = b ∧ z = c then countTriples a b c rest + 1 else 0
  | _ => 0

/-- `count_ping_pong_repeats`. -/
def countPingPongRepeats (g : LoopGuard) : Nat :=
  let recent := g.recentCalls.reverse
  let pairs :=
    match recent with
    | b :: a :: _ => if 4 ≤ recent.length ∧ a ≠ b then countPairs a b recent else 0
    | _ => 0
  if 2 ≤ pairs then pairs
  else
    let triples :=
      match recent with
      | c :: b :: a :: _ =>
          if 6 ≤ recent.length ∧ ¬(a = b ∧ b = c) then countTriples a b c recent else 0
      | _ => 0
    if 2 ≤ triples then triples else 0

/-- The record of a call that passed the circuit breaker: its tool name, and its
hash at the end of the bounded history. -/
def noteCall (g : LoopGuard) (hash toolName : String) : LoopGuard :=
  { g with
    hashToTool :=
      if (g.hashToTool.lookup hash).isSome then g.hashToTool else (hash, toolName) :: g.hashToTool
    recentCalls :=
      (if historySize ≤ g.recentCalls.length then g.recentCalls.tail else g.recentCalls) ++ [hash] }

/-- The ping-pong stage of `check`. -/
def checkPingPong (g : LoopGuard) (hash : String) : LoopGuard × LoopGuardVerdict :=
  match g.detectPingPong with
  | none => (g, .allow)
  | some message =>
      if g.config.pingPongMinRepeats ≤ g.countPingPongRepeats then
        ({ g with blockedCalls := g.blockedCalls + 1 }, .block message)
      else
        let warned := bump s!"pingpong_{hash}" g.warningsEmitted
        let g := { g with warningsEmitted := warned.1 }
        if warned.2 ≤ g.config.maxWarningsPerCall then (g, .warn message) else (g, .allow)

/-- The per-hash stage of `check`, for a call made `count` times. -/
def checkCount (lib : Library) (g : LoopGuard) (hash toolName : String) (params : Json)
    (count : Nat) : LoopGuard × LoopGuardVerdict :=
  let multiplier :=
    if isPollCall lib toolName params || isMcpAinlTool toolName then g.config.pollMultiplier else 1
  if g.config.blockThreshold * multiplier ≤ count then
    ({ g with blockedCalls := g.blockedCalls + 1 },
      .block (s!"Blocked: tool '{toolName}' called {count} times with identical parameters. " ++
        "Try a different approach or different parameters."))
  else if g.config.warnThreshold * multiplier ≤ count then
    let warned := bump hash g.warningsEmitted
    let g := { g with warningsEmitted := warned.1 }
    if g.config.maxWarningsPerCall < warned.2 ∧ isMcpAinlTool toolName = false then
      ({ g with blockedCalls := g.blockedCalls + 1 },
        .block (s!"Blocked: tool '{toolName}' called {count} times with identical parameters " ++
          "(warnings exhausted). Try a different approach."))
    else
      (g, .warn (s!"Warning: tool '{toolName}' has been called {count} times with identical " ++
        "parameters. Consider a different approach."))
  else g.checkPingPong hash

/-- `LoopGuard::check`. -/
def check (lib : Library) (g : LoopGuard) (toolName : String) (params : Json) :
    LoopGuard × LoopGuardVerdict :=
  let g := { g with totalCalls := g.totalCalls + 1 }
  if g.config.globalCircuitBreaker < g.totalCalls then
    ({ g with blockedCalls := g.blockedCalls + 1 },
      .circuitBreak (s!"Circuit breaker: exceeded {g.config.globalCircuitBreaker} total tool " ++
        "calls in this loop. The agent appears to be stuck."))
  else
    let hash := computeHash lib toolName params
    let g := g.noteCall hash toolName
    if hash ∈ g.blockedOutcomes then
      ({ g with blockedCalls := g.blockedCalls + 1 },
        .block (s!"Blocked: tool '{toolName}' is returning identical results repeatedly. " ++
          "The current approach is not working — try something different."))
    else
      let counted := bump hash g.callCounts
      checkCount lib { g with callCounts := counted.1 } hash toolName params counted.2

/-- The warning of `record_outcome`. -/
def identicalResults (toolName : String) : String :=
  s!"Tool '{toolName}' is returning identical results — the approach isn't working."

/-- `LoopGuard::record_outcome`. -/
def recordOutcome (lib : Library) (g : LoopGuard) (toolName : String) (params : Json)
    (result : String) : LoopGuard × Option String :=
  let counted := bump (computeOutcomeHash lib toolName params result) g.outcomeCounts
  let g := { g with outcomeCounts := counted.1 }
  let relaxed :=
    isMcpAinlTool toolName &&
      !(toolName == "mcp_ainl_ainl_run" && ainlRunBodyIsAdapterRegistrationFailure lib result)
  let blockThreshold :=
    if relaxed then g.config.outcomeBlockThreshold * g.config.pollMultiplier
    else g.config.outcomeBlockThreshold
  let warnThreshold :=
    if relaxed then max (blockThreshold - 1) 1 else g.config.outcomeWarnThreshold
  if blockThreshold ≤ counted.2 then
    ({ g with blockedOutcomes := computeHash lib toolName params :: g.blockedOutcomes },
      some (identicalResults toolName))
  else if warnThreshold ≤ counted.2 then (g, some (identicalResults toolName))
  else (g, none)

end LoopGuard

end ArmaraOS.Agent
