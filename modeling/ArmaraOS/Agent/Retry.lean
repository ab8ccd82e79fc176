import ArmaraOS.Agent.World

/-!
`call_with_retry` and `stream_with_retry` of `openfang-runtime/src/agent_loop.rs`,
as the agent loop calls them: without a provider cooldown. The waits between
attempts change nothing the loop reads.
-/

namespace ArmaraOS.Agent

variable {σ : Type}

/-- `MAX_RETRIES`. -/
def maxRetries : Nat := 3

/-- `FB_MODELS`: the OpenRouter alternates. -/
def openrouterFallbackModels : List String :=
  ["stepfun/step-3.5-flash:free", "meta-llama/llama-3.1-8b-instruct:free"]

/-- The note of an OpenRouter fallback. -/
def openrouterFallback (model : String) : LlmFallbackUsed :=
  { note := "OpenRouter free-tier model (primary rate limited or overloaded)"
    provider := "openrouter"
    model := model }

/-- The note of a manifest fallback. -/
def manifestFallback (fb : FallbackModel) : LlmFallbackUsed :=
  { note := s!"Fallback {fb.provider}/{fb.model} (primary model not found)"
    provider := fb.provider
    model := fb.model }

/-- The classified message of an error that ends the call. -/
def userErrorMessage (classified : ClassifiedError) (rawError : String) : String :=
  if classified.isFormat then s!"{classified.sanitizedMessage} — raw: {rawError}"
  else classified.sanitizedMessage

/-- The HTTP status of an error. -/
def errorStatus : LlmError → Option Nat
  | .api status _ => some status
  | _ => none

/-- `driver.complete(request)`. -/
def callComplete (W : World σ) (driver : DriverRef) (req : CompletionRequest)
    (st : LoopState σ) : Except LlmError CompletionResponse × LoopState σ :=
  let out := W.complete driver req st.world
  (out.1, { st with world := out.2, log := st.log ++ [.request driver req] })

/-- `driver.stream(request, tx)`. -/
def callStream (W : World σ) (driver : DriverRef) (req : CompletionRequest)
    (st : LoopState σ) : Except LlmError CompletionResponse × LoopState σ :=
  let out := W.stream driver req st.world
  (out.1.1,
    { st with
      world := out.2
      log := st.log ++ [.request driver req]
      streamed := st.streamed ++ out.1.2 })

/-! ### Plain calls -/

/-- The loop over `FB_MODELS` in `try_openrouter_free_fallbacks`. -/
def tryOpenrouterModels (W : World σ) (req : CompletionRequest) :
    List String → LoopState σ → Option (CompletionResponse × String) × LoopState σ
  | [], st => (none, st)
  | model :: rest, st =>
      let out := callComplete W .openrouter { req with model := model } st
      match out.1 with
      | .ok response => (some (response, model), out.2)
      | .error _ => tryOpenrouterModels W req rest out.2

/-- `try_openrouter_free_fallbacks`. -/
def tryOpenrouterFreeFallbacks (W : World σ) (req : CompletionRequest) (st : LoopState σ) :
    Option (CompletionResponse × String) × LoopState σ :=
  let resolved := W.adhocDriver .openrouter st.world
  let st := { st with world := resolved.2 }
  if resolved.1 then tryOpenrouterModels W req openrouterFallbackModels st else (none, st)

/-- The loop over the manifest's fallback models in `call_with_retry`. -/
def tryFallbackModels (W : World σ) (req : CompletionRequest) :
    Nat → List FallbackModel → LoopState σ →
      Option (CompletionResponse × LlmFallbackUsed) × LoopState σ
  | _, [], st => (none, st)
  | idx, fb :: rest, st =>
      let resolved := W.adhocDriver (.fallback idx) st.world
      let st := { st with world := resolved.2 }
      if resolved.1 then
        let out := callComplete W (.fallback idx) { req with model := fb.model } st
        match out.1 with
        | .ok response => (some (response, manifestFallback fb), out.2)
        | .error _ => tryFallbackModels W req (idx + 1) rest out.2
      else tryFallbackModels W req (idx + 1) rest st

/-- The end of a rate-limited or overloaded call after the last attempt. -/
def throttledCall (W : World σ) (req : CompletionRequest) (message : String)
    (st : LoopState σ) :
    Except LoopError (CompletionResponse × Option LlmFallbackUsed) × LoopState σ :=
  let out := tryOpenrouterFreeFallbacks W req st
  match out.1 with
  | some (response, model) => (.ok (response, some (openrouterFallback model)), out.2)
  | none => (.error (.llmDriver message), out.2)

/-- The end of a call on any other error. -/
def failedCall (W : World σ) (cfg : TurnConfig) (req : CompletionRequest) (e : LlmError)
    (st : LoopState σ) :
    Except LoopError (CompletionResponse × Option LlmFallbackUsed) × LoopState σ :=
  let classified := cfg.rules.classifyError e.toText (errorStatus e)
  let failure : Except LoopError (CompletionResponse × Option LlmFallbackUsed) :=
    .error (.llmDriver (userErrorMessage classified e.toText))
  if classified.isModelNotFound && !cfg.fallbackModels.isEmpty then
    let out := tryFallbackModels W req 0 cfg.fallbackModels st
    match out.1 with
    | some (response, used) => (.ok (response, some used), out.2)
    | none => (failure, out.2)
  else (failure, st)

/-- The attempts of `call_with_retry`; `retries` are left after this one. -/
def callAttempts (W : World σ) (cfg : TurnConfig) (req : CompletionRequest) :
    Nat → LoopState σ →
      Except LoopError (CompletionResponse × Option LlmFallbackUsed) × LoopState σ
  | retries, st =>
      let out := callComplete W .primary req st
      match out.1 with
      | .ok response => (.ok (response, none), out.2)
      | .error (.rateLimited _) =>
          match retries with
          | 0 => throttledCall W req s!"Rate limited after {maxRetries} retries" out.2
          | n + 1 => callAttempts W cfg req n out.2
      | .error (.overloaded _) =>
          match retries with
          | 0 => throttledCall W req s!"Model overloaded after {maxRetries} retries" out.2
          | n + 1 => callAttempts W cfg req n out.2
      | .error e => failedCall W cfg req e out.2

/-- `call_with_retry`. -/
def callWithRetry (W : World σ) (cfg : TurnConfig) (req : CompletionRequest)
    (st : LoopState σ) :
    Except LoopError (CompletionResponse × Option LlmFallbackUsed) × LoopState σ :=
  callAttempts W cfg req maxRetries st

/-! ### Streaming calls -/

/-- The loop over `FB_MODELS` in `try_openrouter_free_fallbacks_stream`. -/
def tryOpenrouterModelsStream (W : World σ) (req : CompletionRequest) :
    List String → LoopState σ → Option (CompletionResponse × String) × LoopState σ
  | [], st => (none, st)
  | model :: rest, st =>
      let out := callStream W .openrouter { req with model := model } st
      match out.1 with
      | .ok response => (some (response, model), out.2)
      | .error _ => tryOpenrouterModelsStream W req rest out.2

/-- `try_openrouter_free_fallbacks_stream`. -/
def tryOpenrouterFreeFallbacksStream (W : World σ) (req : CompletionRequest)
    (st : LoopState σ) : Option (CompletionResponse × String) × LoopState σ :=
  let resolved := W.adhocDriver .openrouter st.world
  let st := { st with world := resolved.2 }
  if resolved.1 then tryOpenrouterModelsStream W req openrouterFallbackModels st
  else (none, st)

/-- The loop over the manifest's fallback models in `stream_with_retry`. -/
def tryFallbackModelsStream (W : World σ) (req : CompletionRequest) :
    Nat → List FallbackModel → LoopState σ →
      Option (CompletionResponse × LlmFallbackUsed) × LoopState σ
  | _, [], st => (none, st)
  | idx, fb :: rest, st =>
      let resolved := W.adhocDriver (.fallback idx) st.world
      let st := { st with world := resolved.2 }
      if resolved.1 then
        let out := callStream W (.fallback idx) { req with model := fb.model } st
        match out.1 with
        | .ok response => (some (response, manifestFallback fb), out.2)
        | .error _ => tryFallbackModelsStream W req (idx + 1) rest out.2
      else tryFallbackModelsStream W req (idx + 1) rest st

/-- The end of a rate-limited or overloaded streaming call after the last attempt. -/
def throttledStream (W : World σ) (req : CompletionRequest) (message : String)
    (st : LoopState σ) :
    Except LoopError (CompletionResponse × Option LlmFallbackUsed) × LoopState σ :=
  let out := tryOpenrouterFreeFallbacksStream W req st
  match out.1 with
  | some (response, model) => (.ok (response, some (openrouterFallback model)), out.2)
  | none => (.error (.llmDriver message), out.2)

/-- The end of a streaming call on any other error. -/
def failedStream (W : World σ) (cfg : TurnConfig) (req : CompletionRequest) (e : LlmError)
    (st : LoopState σ) :
    Except LoopError (CompletionResponse × Option LlmFallbackUsed) × LoopState σ :=
  let classified := cfg.rules.classifyError e.toText (errorStatus e)
  let failure : Except LoopError (CompletionResponse × Option LlmFallbackUsed) :=
    .error (.llmDriver (userErrorMessage classified e.toText))
  if classified.isModelNotFound && !cfg.fallbackModels.isEmpty then
    let out := tryFallbackModelsStream W req 0 cfg.fallbackModels st
    match out.1 with
    | some (response, used) => (.ok (response, some used), out.2)
    | none => (failure, out.2)
  else (failure, st)

/-- The attempts of `stream_with_retry`; `retries` are left after this one. -/
def streamAttempts (W : World σ) (cfg : TurnConfig) (req : CompletionRequest) :
    Nat → LoopState σ →
      Except LoopError (CompletionResponse × Option LlmFallbackUsed) × LoopState σ
  | retries, st =>
      let out := callStream W .primary req st
      match out.1 with
      | .ok response => (.ok (response, none), out.2)
      | .error (.rateLimited _) =>
          match retries with
          | 0 => throttledStream W req s!"Rate limited after {maxRetries} retries" out.2
          | n + 1 => streamAttempts W cfg req n out.2
      | .error (.overloaded _) =>
          match retries with
          | 0 => throttledStream W req s!"Model overloaded after {maxRetries} retries" out.2
          | n + 1 => streamAttempts W cfg req n out.2
      | .error e => failedStream W cfg req e out.2

/-- `stream_with_retry`. -/
def streamWithRetry (W : World σ) (cfg : TurnConfig) (req : CompletionRequest)
    (st : LoopState σ) :
    Except LoopError (CompletionResponse × Option LlmFallbackUsed) × LoopState σ :=
  streamAttempts W cfg req maxRetries st

end ArmaraOS.Agent
