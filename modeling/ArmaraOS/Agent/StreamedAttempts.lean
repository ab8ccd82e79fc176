import ArmaraOS.Agent.Retry
import ArmaraOS.Agent.Script
import ArmaraOS.Runtime.Cooldown

/-!
What the receiver of a streamed call is sent (`FallbackDriver::stream` of
`openfang-runtime/src/drivers/fallback.rs`, and `stream_with_retry` above it).

All attempts of a call write to one channel, and only the last of them answers. A driver that sends
text and then fails leaves that text in front of the answer of the next one. `World.recorded` runs
the calls with a list of the attempts that were made.
-/

namespace ArmaraOS.Agent

open ArmaraOS.Runtime (CooldownVerdict)

variable {σ : Type}

/-! ### Drivers -/

/-- What a driver returned, and what it sent before that. -/
abbrev Attempt := Except LlmError CompletionResponse × List StreamEvent

/-- `LlmDriver::stream`. -/
abbrev Driver (σ : Type) := CompletionRequest → σ → Attempt × σ

/-- The loop of `FallbackDriver::stream`, with `last_error`. -/
def fallbackLoop (request : CompletionRequest) :
    List (Driver σ × String) → Option LlmError → σ → Attempt × σ
  | [], lastError, s =>
      ((.error (lastError.getD (.api 0 "No drivers configured in fallback chain")), []), s)
  | (driver, modelName) :: rest, _, s =>
      let req := if modelName = "" then request else { request with model := modelName }
      let out := driver req s
      match out.1.1 with
      | .ok _ => out
      | .error e =>
          let later := fallbackLoop request rest (some e) out.2
          ((later.1.1, out.1.2 ++ later.1.2), later.2)

/-- `FallbackDriver::stream`. -/
def fallbackStream (drivers : List (Driver σ × String)) : Driver σ :=
  fun request => fallbackLoop request drivers none

/-- `stream_with_retry`, after what the circuit breaker says of the provider, if there is one. -/
def streamWithCooldown (W : World σ) (cfg : TurnConfig) (verdict : Option CooldownVerdict)
    (req : CompletionRequest) (st : LoopState σ) :
    Except LoopError (CompletionResponse × Option LlmFallbackUsed) × LoopState σ :=
  match verdict with
  | some (.reject reason retryAfterSecs) =>
      (.error (.llmDriver
        s!"Provider '{cfg.provider}' is in cooldown ({reason}). Retry in {retryAfterSecs}s."), st)
  | _ => streamWithRetry W cfg req st

/-- The text of the `TextDelta` events. -/
def deltaText (events : List StreamEvent) : String :=
  String.join (events.filterMap fun event =>
    match event with
    | .textDelta text => some text
    | _ => none)

/-! ### The attempts of a call -/

/-- A state of the surroundings, with the attempts that were made. -/
structure Attempted (σ : Type) where
  world : σ
  attempts : List Attempt := []

/-- The driver, with its attempts written down. -/
def Driver.recorded (driver : Driver σ) : Driver (Attempted σ) := fun req s =>
  let out := driver req s.world
  (out.1, { world := out.2, attempts := s.attempts ++ [out.1] })

/-- A call that is no attempt. -/
def onWorld {α : Type} (f : σ → α × σ) (s : Attempted σ) : α × Attempted σ :=
  ((f s.world).1, { s with world := (f s.world).2 })

/-- The surroundings with a chain of drivers for the agent's own one, and every attempt of a driver
written down. -/
def World.recorded (W : World σ) (chain : List (Driver σ × String)) : World (Attempted σ) where
  complete ref req := onWorld (W.complete ref req)
  stream
    | .primary => fallbackStream (chain.map fun link => (link.1.recorded, link.2))
    | ref => Driver.recorded (W.stream ref)
  adhocDriver ref := onWorld (W.adhocDriver ref)
  drainBtw := onWorld W.drainBtw
  recvRedirect := onWorld W.recvRedirect
  beforeToolCall call := onWorld (W.beforeToolCall call)
  runBatch batch := onWorld (W.runBatch batch)
  saveSession messages := onWorld (W.saveSession messages)
  newUuid := onWorld W.newUuid
  hashOrder names := onWorld (W.hashOrder names)
  plan messages := onWorld (W.plan messages)
  progressTicks s := W.progressTicks s.world

/-- A successful attempt sends exactly the text of its response. -/
def SendsAnswer (attempt : Attempt) : Prop :=
  ∀ response, attempt.1 = .ok response → deltaText attempt.2 = response.text

/-- Every successful attempt of the driver sends exactly the text of its response. -/
def Driver.Faithful (driver : Driver σ) : Prop := ∀ req s, SendsAnswer (driver req s).1

/-- No text was sent by an attempt that failed. -/
def FailedSilently (made : List Attempt) : Prop :=
  ∀ attempt ∈ made, attempt.1.toOption = none → deltaText attempt.2 = ""

/-- What a call sent is what its attempts sent, and at most one of them succeeded, with the answer
of the call. -/
structure Tells (made : List Attempt) (sent : List StreamEvent)
    (answer : Option CompletionResponse) : Prop where
  sent_eq : sent = made.flatMap Prod.snd
  answered : (made.filterMap fun attempt => attempt.1.toOption) = answer.toList
  faithful : ∀ attempt ∈ made, SendsAnswer attempt

theorem deltaText_append (events events' : List StreamEvent) :
    deltaText (events ++ events') = deltaText events ++ deltaText events' := by
  rw [deltaText, List.filterMap_append, String.join_append, deltaText, deltaText]

theorem deltaText_flatMap_eq_empty {made : List Attempt} :
    deltaText (made.flatMap Prod.snd) = "" ↔ ∀ attempt ∈ made, deltaText attempt.2 = "" := by
  induction made with
  | nil => simp [deltaText]
  | cons attempt made ih =>
      rw [List.flatMap_cons, deltaText_append, String.append_eq_empty_iff, ih, List.forall_mem_cons]

theorem append_eq_middle {front text back : String} :
    front ++ (text ++ back) = text ↔ front = "" ∧ back = "" := by
  constructor
  · intro h
    have hlength := congrArg String.length h
    rw [String.length_append, String.length_append] at hlength
    exact ⟨String.length_eq_zero_iff.mp (by omega), String.length_eq_zero_iff.mp (by omega)⟩
  · rintro ⟨rfl, rfl⟩
    simp

theorem Tells.text_eq_iff {made : List Attempt} {sent : List StreamEvent}
    {response : CompletionResponse} (h : Tells made sent (some response)) :
    deltaText sent = response.text ↔ FailedSilently made := by
  obtain ⟨front, attempt, back, hmade, hfront, hok, hback⟩ :=
    List.filterMap_eq_cons_iff.mp h.answered
  have hsent : deltaText attempt.2 = response.text := by
    refine h.faithful attempt (by simp [hmade]) response ?_
    cases hresult : attempt.1 with
    | error e => simp [hresult, Except.toOption] at hok
    | ok r => simpa [hresult, Except.toOption] using hok
  have hfailed : ∀ a ∈ back, a.1.toOption = none := by
    simpa [List.filterMap_eq_nil_iff] using hback
  rw [h.sent_eq, hmade, List.flatMap_append, List.flatMap_cons, deltaText_append,
    deltaText_append, hsent, append_eq_middle, deltaText_flatMap_eq_empty,
    deltaText_flatMap_eq_empty, FailedSilently]
  constructor
  · rintro ⟨hbefore, hafter⟩ a ha hnone
    rcases List.mem_append.mp ha with hmem | hmem
    · exact hbefore a hmem
    · rcases List.mem_cons.mp hmem with rfl | hmem
      · rw [hnone] at hok
        cases hok
      · exact hafter a hmem
  · intro hall
    refine ⟨fun a ha => hall a (by simp [ha]) (hfront a ha), fun a ha => ?_⟩
    exact hall a (by simp [ha]) (hfailed a ha)

theorem Tells.append {made made' : List Attempt} {sent sent' : List StreamEvent}
    {answer : Option CompletionResponse} (h : Tells made sent none)
    (h' : Tells made' sent' answer) : Tells (made ++ made') (sent ++ sent') answer where
  sent_eq := by rw [h.sent_eq, h'.sent_eq, List.flatMap_append]
  answered := by rw [List.filterMap_append, h.answered, h'.answered, Option.toList_none,
    List.nil_append]
  faithful attempt hmem := (List.mem_append.mp hmem).elim (h.faithful attempt) (h'.faithful attempt)

theorem tells_nothing : Tells [] [] none := ⟨rfl, rfl, fun _ h => absurd h List.not_mem_nil⟩

theorem SendsAnswer.tells {attempt : Attempt} (h : SendsAnswer attempt) :
    Tells [attempt] attempt.2 attempt.1.toOption where
  sent_eq := by simp
  answered := by cases hresult : attempt.1 <;> simp [hresult, Except.toOption]
  faithful a ha := List.mem_singleton.mp ha ▸ h

/-! ### A chain of drivers -/

theorem fallbackLoop_tells {chain : List (Driver σ × String)}
    (hchain : ∀ link ∈ chain, link.1.Faithful) (request : CompletionRequest)
    (lastError : Option LlmError) (s : Attempted σ) :
    ∃ made,
      (fallbackLoop request (chain.map fun link => (link.1.recorded, link.2))
        lastError s).2.attempts = s.attempts ++ made ∧
      Tells made
        (fallbackLoop request (chain.map fun link => (link.1.recorded, link.2)) lastError s).1.2
        (fallbackLoop request (chain.map fun link => (link.1.recorded, link.2))
          lastError s).1.1.toOption := by
  induction chain generalizing lastError s with
  | nil => exact ⟨[], (List.append_nil _).symm, tells_nothing⟩
  | cons link chain ih =>
      obtain ⟨hlink, hrest⟩ := List.forall_mem_cons.mp hchain
      rw [List.map_cons, fallbackLoop]
      generalize (if link.2 = "" then request else { request with model := link.2 }) = req
      have htells := (hlink req s.world).tells
      dsimp only [Driver.recorded]
      cases hresult : (link.1 req s.world).1.1 with
      | ok response =>
          exact ⟨[(link.1 req s.world).1], rfl, htells⟩
      | error e =>
          rw [hresult] at htells
          obtain ⟨made, hmade, hlater⟩ := ih hrest (some e)
            { world := (link.1 req s.world).2
              attempts := s.attempts ++ [(link.1 req s.world).1] }
          exact ⟨(link.1 req s.world).1 :: made, hmade.trans (List.append_assoc _ _ _),
            Tells.append htells hlater⟩

/-! ### Retries -/

/-- A piece of the call made attempts, sent what they sent, and got the answer. -/
def Streams (before after : LoopState (Attempted σ)) (answer : Option CompletionResponse) : Prop :=
  ∃ made sent, after.world.attempts = before.world.attempts ++ made ∧
    after.streamed = before.streamed ++ sent ∧ Tells made sent answer

theorem Streams.refl {before after : LoopState (Attempted σ)}
    (hattempts : after.world.attempts = before.world.attempts)
    (hstreamed : after.streamed = before.streamed) : Streams before after none :=
  ⟨[], [], by rw [hattempts, List.append_nil], by rw [hstreamed, List.append_nil], tells_nothing⟩

theorem Streams.trans {before middle after : LoopState (Attempted σ)}
    {answer : Option CompletionResponse} (h : Streams before middle none)
    (h' : Streams middle after answer) : Streams before after answer := by
  obtain ⟨made, sent, hattempts, hstreamed, htells⟩ := h
  obtain ⟨made', sent', hattempts', hstreamed', htells'⟩ := h'
  refine ⟨made ++ made', sent ++ sent', ?_, ?_, htells.append htells'⟩
  · rw [hattempts', hattempts, List.append_assoc]
  · rw [hstreamed', hstreamed, List.append_assoc]

section Retries

variable {W : World σ} {chain : List (Driver σ × String)}

/-- Every driver of the surroundings sends exactly the text of the responses that it returns. -/
structure Faithful (W : World σ) (chain : List (Driver σ × String)) : Prop where
  links : ∀ link ∈ chain, link.1.Faithful
  fallbacks : ∀ idx, Driver.Faithful (W.stream (.fallback idx))
  openrouter : Driver.Faithful (W.stream .openrouter)

theorem recorded_tells {driver : Driver σ} (h : driver.Faithful) (req : CompletionRequest)
    (s : Attempted σ) : ∃ made, (driver.recorded req s).2.attempts = s.attempts ++ made ∧
      Tells made (driver.recorded req s).1.2 (driver.recorded req s).1.1.toOption :=
  ⟨[(driver req s.world).1], rfl, (h req s.world).tells⟩

theorem callStream_streams (h : Faithful W chain) (ref : DriverRef) (req : CompletionRequest)
    (st : LoopState (Attempted σ)) :
    Streams st (callStream (W.recorded chain) ref req st).2
      (callStream (W.recorded chain) ref req st).1.toOption := by
  have hdriver : ∃ made,
      ((W.recorded chain).stream ref req st.world).2.attempts = st.world.attempts ++ made ∧
      Tells made ((W.recorded chain).stream ref req st.world).1.2
        ((W.recorded chain).stream ref req st.world).1.1.toOption := by
    cases ref with
    | primary => exact fallbackLoop_tells h.links req none st.world
    | fallback idx => exact recorded_tells (h.fallbacks idx) req st.world
    | openrouter => exact recorded_tells h.openrouter req st.world
  obtain ⟨made, hattempts, htells⟩ := hdriver
  exact ⟨made, _, hattempts, rfl, htells⟩

/-- The driver is looked for, which is no attempt. -/
theorem adhocDriver_streams (ref : DriverRef) (st : LoopState (Attempted σ)) :
    Streams st { st with world := ((W.recorded chain).adhocDriver ref st.world).2 } none :=
  .refl rfl rfl

theorem tryOpenrouterModelsStream_streams (h : Faithful W chain) (req : CompletionRequest)
    (models : List String) (st : LoopState (Attempted σ)) :
    Streams st (tryOpenrouterModelsStream (W.recorded chain) req models st).2
      ((tryOpenrouterModelsStream (W.recorded chain) req models st).1.map Prod.fst) := by
  induction models generalizing st with
  | nil => exact .refl rfl rfl
  | cons model models ih =>
      have hcall := callStream_streams h .openrouter { req with model := model } st
      unfold tryOpenrouterModelsStream
      dsimp only
      cases hresult :
          (callStream (W.recorded chain) .openrouter { req with model := model } st).1 with
      | ok response =>
          rw [hresult] at hcall
          exact hcall
      | error e =>
          rw [hresult] at hcall
          exact Streams.trans hcall (ih _)

theorem tryFallbackModelsStream_streams (h : Faithful W chain) (req : CompletionRequest)
    (models : List FallbackModel) (idx : Nat) (st : LoopState (Attempted σ)) :
    Streams st (tryFallbackModelsStream (W.recorded chain) req idx models st).2
      ((tryFallbackModelsStream (W.recorded chain) req idx models st).1.map Prod.fst) := by
  induction models generalizing idx st with
  | nil => exact .refl rfl rfl
  | cons fb models ih =>
      have hlooked := @adhocDriver_streams σ W chain (.fallback idx) st
      unfold tryFallbackModelsStream
      dsimp only
      split
      · refine hlooked.trans ?_
        generalize { st with world := ((W.recorded chain).adhocDriver (.fallback idx) st.world).2 }
          = found
        have hcall := callStream_streams h (.fallback idx) { req with model := fb.model } found
        cases hresult :
            (callStream (W.recorded chain) (.fallback idx) { req with model := fb.model } found).1
            with
        | ok response =>
            rw [hresult] at hcall
            exact hcall
        | error e =>
            rw [hresult] at hcall
            exact Streams.trans hcall (ih _ _)
      · exact hlooked.trans (ih _ _)

theorem throttledStream_streams (h : Faithful W chain) (req : CompletionRequest)
    (message : String) (st : LoopState (Attempted σ)) :
    Streams st (throttledStream (W.recorded chain) req message st).2
      ((throttledStream (W.recorded chain) req message st).1.toOption.map Prod.fst) := by
  have hfree : Streams st (tryOpenrouterFreeFallbacksStream (W.recorded chain) req st).2
      ((tryOpenrouterFreeFallbacksStream (W.recorded chain) req st).1.map Prod.fst) := by
    have hlooked := @adhocDriver_streams σ W chain .openrouter st
    unfold tryOpenrouterFreeFallbacksStream
    dsimp only
    split
    · exact hlooked.trans (tryOpenrouterModelsStream_streams h req _ _)
    · exact hlooked
  unfold throttledStream
  dsimp only
  cases hresult : (tryOpenrouterFreeFallbacksStream (W.recorded chain) req st).1 with
  | none =>
      rw [hresult] at hfree
      exact hfree
  | some served =>
      rw [hresult] at hfree
      exact hfree

theorem failedStream_streams (h : Faithful W chain) (cfg : TurnConfig) (req : CompletionRequest)
    (e : LlmError) (st : LoopState (Attempted σ)) :
    Streams st (failedStream (W.recorded chain) cfg req e st).2
      ((failedStream (W.recorded chain) cfg req e st).1.toOption.map Prod.fst) := by
  have hmodels := tryFallbackModelsStream_streams h req cfg.fallbackModels 0 st
  unfold failedStream
  dsimp only
  split
  · cases hresult : (tryFallbackModelsStream (W.recorded chain) req 0 cfg.fallbackModels st).1 with
    | none =>
        rw [hresult] at hmodels
        exact hmodels
    | some served =>
        rw [hresult] at hmodels
        exact hmodels
  · exact .refl rfl rfl

theorem streamAttempts_streams (h : Faithful W chain) (cfg : TurnConfig)
    (req : CompletionRequest) (retries : Nat) (st : LoopState (Attempted σ)) :
    Streams st (streamAttempts (W.recorded chain) cfg req retries st).2
      ((streamAttempts (W.recorded chain) cfg req retries st).1.toOption.map Prod.fst) := by
  induction retries generalizing st with
  | zero =>
      have hcall := callStream_streams h .primary req st
      unfold streamAttempts
      dsimp only
      cases hresult : (callStream (W.recorded chain) .primary req st).1 with
      | ok response =>
          rw [hresult] at hcall
          exact hcall
      | error e =>
          rw [hresult] at hcall
          cases e with
          | rateLimited after => exact Streams.trans hcall (throttledStream_streams h req _ _)
          | overloaded after => exact Streams.trans hcall (throttledStream_streams h req _ _)
          | _ => exact Streams.trans hcall (failedStream_streams h cfg req _ _)
  | succ n ih =>
      have hcall := callStream_streams h .primary req st
      unfold streamAttempts
      dsimp only
      cases hresult : (callStream (W.recorded chain) .primary req st).1 with
      | ok response =>
          rw [hresult] at hcall
          exact hcall
      | error e =>
          rw [hresult] at hcall
          cases e with
          | rateLimited after => exact Streams.trans hcall (ih _)
          | overloaded after => exact Streams.trans hcall (ih _)
          | _ => exact Streams.trans hcall (failedStream_streams h cfg req _ _)

theorem streamWithCooldown_streams (h : Faithful W chain) (cfg : TurnConfig)
    (verdict : Option CooldownVerdict) (req : CompletionRequest) (st : LoopState (Attempted σ)) :
    Streams st (streamWithCooldown (W.recorded chain) cfg verdict req st).2
      ((streamWithCooldown (W.recorded chain) cfg verdict req st).1.toOption.map Prod.fst) := by
  unfold streamWithCooldown
  split
  · exact .refl rfl rfl
  · exact streamAttempts_streams h cfg req maxRetries st

end Retries

/-- For every chain of drivers that send exactly the text of what they answer, every surroundings,
every retry and every verdict of the circuit breaker: when the chain, or the call with retries above
it, returns a response, the text that was sent is the text of the response exactly when no attempt
of the call that failed sent any text. -/
theorem one_answer_streamed_iff {W : World σ} {chain : List (Driver σ × String)}
    (h : Faithful W chain) (req : CompletionRequest) (response : CompletionResponse) :
    (∀ (s : Attempted σ),
      let out := (W.recorded chain).stream .primary req s
      out.1.1 = .ok response → ∃ made, out.2.attempts = s.attempts ++ made ∧
        (deltaText out.1.2 = response.text ↔ FailedSilently made)) ∧
    ∀ (cfg : TurnConfig) (verdict : Option CooldownVerdict) (st : LoopState (Attempted σ)) used,
      let out := streamWithCooldown (W.recorded chain) cfg verdict req st
      out.1 = .ok (response, used) → ∃ made sent,
        out.2.world.attempts = st.world.attempts ++ made ∧
        out.2.streamed = st.streamed ++ sent ∧
        (deltaText sent = response.text ↔ FailedSilently made) := by
  constructor
  · intro s out hok
    obtain ⟨made, hattempts, htells⟩ := fallbackLoop_tells h.links req none s
    have hanswer : out.1.1.toOption = some response := by rw [hok]; rfl
    exact ⟨made, hattempts, Tells.text_eq_iff (hanswer ▸ htells)⟩
  · intro cfg verdict st used out hok
    obtain ⟨made, sent, hattempts, hstreamed, htells⟩ :=
      streamWithCooldown_streams h cfg verdict req st
    have hanswer : out.1.toOption.map Prod.fst = some response := by rw [hok]; rfl
    exact ⟨made, sent, hattempts, hstreamed, Tells.text_eq_iff (hanswer ▸ htells)⟩

/-- A driver whose connection is reset after the first words. -/
def resetDriver : Driver σ := fun _ s =>
  ((.error (.http "connection reset"), [.textDelta "Hel"]), s)

/-- A driver that answers. -/
def helloDriver : Driver σ := fun _ s =>
  ((.ok (textReply "Hello"), [.textDelta "Hello"]), s)

theorem faithful_links : ∀ link ∈ [((resetDriver : Driver σ), "gpt-4o"), (helloDriver, "llama3")],
    link.1.Faithful := by
  intro link hlink req s response hok
  simp only [List.mem_cons, List.not_mem_nil, or_false] at hlink
  rcases hlink with rfl | rfl
  · cases hok
  · obtain rfl := Except.ok.inj hok
    have htext : deltaText [.textDelta "Hello"] = (textReply "Hello").text := by decide
    exact htext

/-- A request of an agent. -/
def helloRequest : CompletionRequest where
  model := "gpt-4o"
  messages := []
  tools := []
  maxTokens := 4096
  temperature := 0x3f333333
  system := none

theorem faithful_reset_hello :
    Faithful scriptedWorld [(resetDriver, "gpt-4o"), (helloDriver, "llama3")] where
  links := faithful_links
  fallbacks _ _ s := replyDeltas_sends s
  openrouter _ s := replyDeltas_sends s
where
  replyDeltas_sends (s : Script) : SendsAnswer (s.reply.1, replyDeltas s.reply.1) := by
    intro response hok
    rw [show s.reply.1 = .ok response from hok]
    simp [replyDeltas, deltaText]

/-- The chain answers, after its first driver sent some text. -/
theorem one_answer_streamed_iff_reset_hello :
    ∃ made,
      ((scriptedWorld.recorded [(resetDriver, "gpt-4o"), (helloDriver, "llama3")]).stream .primary
        helloRequest { world := { replies := [] } }).2.attempts = [] ++ made ∧
      (deltaText ((scriptedWorld.recorded [(resetDriver, "gpt-4o"),
        (helloDriver, "llama3")]).stream .primary helloRequest
          { world := { replies := [] } }).1.2 = (textReply "Hello").text ↔ FailedSilently made) :=
  (one_answer_streamed_iff faithful_reset_hello helloRequest (textReply "Hello")).1
    { world := { replies := [] } } rfl

/-- The receiver is sent `HelHello` for the answer `Hello`. -/
theorem reset_driver_leaves_text : ¬ ∀ (chain : List (Driver Unit × String))
    (req : CompletionRequest) (response : CompletionResponse) (sent : List StreamEvent),
    (∀ link ∈ chain, link.1.Faithful) →
    fallbackStream chain req () = ((.ok response, sent), ()) →
    deltaText sent = response.text := by
  intro h
  have htext := h [(resetDriver, "gpt-4o"), (helloDriver, "llama3")] helloRequest
    (textReply "Hello") [.textDelta "Hel", .textDelta "Hello"] faithful_links rfl
  exact absurd htext (by decide)

end ArmaraOS.Agent
