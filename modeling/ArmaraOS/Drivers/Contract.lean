import Mathlib.Data.List.Nodup
import Mathlib.Data.Set.Function
import ArmaraOS.Drivers.GeminiResponse
import ArmaraOS.Lib.Slots

/-!
What the agent loop relies on in a response of the OpenAI or the Gemini driver: it executes
`tool_calls`, stores `content` and branches on `stop_reason`.

The two agree on every path but one: the response that is recovered from a failed generation has
calls and no content. The stop reason is `ToolUse` unless the finish reason says otherwise:
`stop` for OpenAI, and `STOP` or `SAFETY` in a stream of Gemini, where `STOP` is what every call
ends with. An id is returned twice only where two calls were sent without one.
-/

namespace ArmaraOS.Drivers

open ArmaraOS.Agent ArmaraOS.Lib ArmaraOS.Text

/-! ### Replies -/

/-- A reply of a provider as `complete` and `stream` read it: the body of a success, a stream, or
the status and the body of a failure. -/
inductive Reply where
  | oaiBody (body : String)
  | oaiStream (body : ByteStream)
  | oaiFailure (status : Nat) (body : String)
  | geminiBody (body : String)
  | geminiStream (body : ByteStream)

/-- `complete` of the OpenAI driver, from a success status on. -/
def oaiBodyResponse (lib : Library) (decoders : Decoders) (body : String) : Outcome :=
  match decoders.oaiResponse body with
  | .error e => some (.error (.parse e))
  | .ok response => oaiCompleteResponse lib response

/-- What both methods of the OpenAI driver recover from a failure. -/
def oaiRecovered (lib : Library) (status : Nat) (body : String) : Option CompletionResponse :=
  if status = 400 ∧ contains body "tool_use_failed" = true then parseGroqFailedToolCall lib body
  else none

/-- The response that is returned. -/
def returned (outcome : Outcome) : Option CompletionResponse := outcome.bind Except.toOption

/-- The response that is returned `Ok` for a reply, and the UUIDs that are gone. -/
def Reply.answer (lib : Library) (decoders : Decoders) (uuid : Nat → String) (taken : Nat) :
    Reply → Option CompletionResponse × Nat
  | .oaiBody body => (returned (oaiBodyResponse lib decoders body), taken)
  | .oaiStream body => (returned (oaiStreamResponse lib body), taken)
  | .oaiFailure status body => (oaiRecovered lib status body, taken)
  | .geminiBody body =>
      let (result, taken) := geminiCompleteResponse decoders uuid taken body
      (result.toOption, taken)
  | .geminiStream body =>
      let (result, taken) := geminiStreamResponse decoders uuid taken body
      (result.toOption, taken)

/-- The responses that are returned for the replies of a run, each with its reply. -/
def answers (lib : Library) (decoders : Decoders) (uuid : Nat → String) :
    Nat → List Reply → List (Reply × CompletionResponse)
  | _, [] => []
  | taken, reply :: replies =>
      let (response, taken) := reply.answer lib decoders uuid taken
      response.toList.map (Prod.mk reply) ++ answers lib decoders uuid taken replies

/-- The UUIDs that are gone after a run. -/
def takenAfter (lib : Library) (decoders : Decoders) (uuid : Nat → String) :
    Nat → List Reply → Nat
  | taken, [] => taken
  | taken, reply :: replies =>
      takenAfter lib decoders uuid (reply.answer lib decoders uuid taken).2 replies

/-! ### What a reply says -/

/-- The choice of a success body. -/
def bodyChoice? (decoders : Decoders) (body : String) : Option OaiChoice :=
  (decoders.oaiResponse body).toOption.bind (·.choices.head?)

/-- The candidate of a success body. -/
def bodyCandidate? (decoders : Decoders) (body : String) : Option GeminiCandidate :=
  (decoders.geminiResponse body).toOption.bind (·.candidates.head?)

/-- The events of a stream of OpenAI. -/
def oaiEvents (lib : Library) (chunks : List (List UInt8)) : List Json :=
  (lineFraming.readItems (oaiEvent? lib) (chunks.map Utf8.fromUtf8Lossy)).2

/-- The events of a stream of Gemini, with the one that is not terminated. -/
def geminiEvents (decoders : Decoders) (chunks : List (List UInt8)) : List GeminiResponse :=
  let (left, events) :=
    lineFraming.readItems (geminiEvent? decoders) (chunks.map Utf8.fromUtf8Lossy)
  events ++ (geminiLeftover? decoders left).toList

/-- The choices of the events. -/
def eventsChoices (events : List Json) : List Json := events.flatMap eventChoices

/-- The finish reason of a choice. -/
def choiceFinish? (choice : Json) : Option String := (choice.field "finish_reason").asStr

/-- The tool call deltas of the events. -/
def eventsDeltas (events : List Json) : List Json := (eventsChoices events).flatMap choiceCalls

/-- The candidates of the events. -/
def eventsCandidates (events : List GeminiResponse) : List GeminiCandidate :=
  events.flatMap GeminiResponse.candidates

/-- The function call of a part. -/
def GeminiPart.call? : GeminiPart → Option GeminiCall
  | .functionCall name args sig => some ⟨name, args, sig⟩
  | _ => none

/-- The function calls of a candidate. -/
def GeminiCandidate.calls (candidate : GeminiCandidate) : List GeminiCall :=
  (candidate.content.getD []).filterMap GeminiPart.call?

/-- The last finish reason that a reply gives. -/
def Reply.finishReason (lib : Library) (decoders : Decoders) : Reply → Option String
  | .oaiBody body => (bodyChoice? decoders body).bind OaiChoice.finishReason
  | .oaiStream body =>
      ((eventsChoices (oaiEvents lib body.chunks)).filterMap choiceFinish?).getLast?
  | .oaiFailure .. => none
  | .geminiBody body => (bodyCandidate? decoders body).bind GeminiCandidate.finishReason
  | .geminiStream body =>
      ((eventsCandidates (geminiEvents decoders body.chunks)).filterMap
        GeminiCandidate.finishReason).getLast?

/-- The reply was cut by its length limit. -/
def Reply.CutByLength (lib : Library) (decoders : Decoders) (reply : Reply) : Prop :=
  reply.finishReason lib decoders =
    some (match reply with
      | .oaiBody _ | .oaiStream _ | .oaiFailure .. => "length"
      | .geminiBody _ | .geminiStream _ => "MAX_TOKENS")

/-- The ids that the tool call deltas send for each call, the empty ones apart. -/
def streamedIds (deltas : List Json) : List (List String) :=
  (List.range (Slots.slotCount callIndex deltas)).map fun i =>
    (deltas.filter fun delta => callIndex delta = i).filterMap sentId?

/-- The ids that a reply of OpenAI sends for each of its calls, the empty ones apart. Gemini sends
no ids. -/
def Reply.sentIds (lib : Library) (decoders : Decoders) : Reply → List (List String)
  | .oaiBody body =>
      (((bodyChoice? decoders body).bind (·.message.toolCalls)).getD []).map fun call =>
        [call.id].filter fun id => !id.isEmpty
  | .oaiStream body =>
      if body.error = none then streamedIds (eventsDeltas (oaiEvents lib body.chunks)) else []
  | .oaiFailure .. | .geminiBody _ | .geminiStream _ => []

/-- Every `<function=` in a failed generation is closed. -/
inductive CallsClosed : List Char → Prop where
  | done {text : List Char} : Framing.cutAt "<function=".toList text = none → CallsClosed text
  | call {text before inside callContent behind : List Char} :
      Framing.cutAt "<function=".toList text = some (before, inside) →
      Framing.cutAt "</function>".toList inside = some (callContent, behind) →
      CallsClosed behind → CallsClosed text

/-- The failed generation in a body. -/
def failedGeneration? (lib : Library) (body : String) : Option String :=
  (((lib.jsonFromStr body).bind (·.get "error")).bind (·.get "failed_generation")).bind Json.asStr

/-- The failure has a generation with calls, all of them closed. -/
def FailedCalls (lib : Library) (status : Nat) (body : String) : Prop :=
  status = 400 ∧ contains body "tool_use_failed" = true ∧
    ∃ failed ∈ failedGeneration? lib body,
      Framing.cutAt "<function=".toList failed.toList ≠ none ∧ CallsClosed failed.toList

/-- The reply does not say `stop` of calls that it has; and it is no failed generation of calls. -/
def Reply.Consistent (lib : Library) (decoders : Decoders) (reply : Reply) : Prop :=
  match reply with
  | .oaiBody _ | .oaiStream _ =>
      reply.finishReason lib decoders = some "stop" → reply.sentIds lib decoders = []
  | .oaiFailure status body => ¬ FailedCalls lib status body
  | .geminiBody _ => True
  | .geminiStream body =>
      body.error = none →
        reply.finishReason lib decoders = some "STOP" ∨
          reply.finishReason lib decoders = some "SAFETY" →
        (eventsCandidates (geminiEvents decoders body.chunks)).flatMap GeminiCandidate.calls = []

/-! ### What the loop relies on -/

/-- The call of a ToolUse block. -/
def toolUse? : ContentBlock → Option ToolCall
  | .toolUse id name input _ => some ⟨id, name, input⟩
  | _ => none

/-- The calls are those of the content, and the stop reason tells of them. -/
structure Agrees (lib : Library) (decoders : Decoders) (reply : Reply)
    (response : CompletionResponse) : Prop where
  calls : response.toolCalls = response.content.filterMap toolUse?
  stopReason : response.toolCalls ≠ [] → ¬ reply.CutByLength lib decoders →
    response.stopReason = .toolUse

/-- The ids of the calls of a response. -/
def callIds (response : CompletionResponse) : List String := response.toolCalls.map ToolCall.id

/-- The contract, for the responses of a run. -/
structure ContractKept (lib : Library) (decoders : Decoders)
    (run : List (Reply × CompletionResponse)) : Prop where
  agrees : ∀ answer ∈ run, Agrees lib decoders answer.1 answer.2
  ids : (run.flatMap fun answer => callIds answer.2).Nodup

/-! ### The assembly of a response -/

/-- What a response says of its calls. -/
structure Assembled (calls : List ToolCall) (finishReason : Option String)
    (response : CompletionResponse) : Prop where
  toolCalls : response.toolCalls = calls
  content : response.content.filterMap toolUse? = calls
  stopReason : response.stopReason = oaiStopReason finishReason calls

theorem filterMap_toolUse?_callBlock (calls : List ToolCall) :
    (calls.map callBlock).filterMap toolUse? = calls := by
  rw [List.filterMap_map]
  exact List.filterMap_some

theorem filterMap_toolUse?_spokenBlocks (reasoning : String) (hasReasoning : Bool)
    (text : String) : (spokenBlocks reasoning hasReasoning text).filterMap toolUse? = [] := by
  have hreasoned : (if reasoning.isEmpty then [] else [ContentBlock.thinking reasoning]).filterMap
      toolUse? = [] := by
    split <;> rfl
  unfold spokenBlocks
  dsimp only
  split
  · exact hreasoned
  · rw [List.filterMap_append, List.filterMap_append, hreasoned]
    cases (extractThinkTags text).2 <;> cases hasReasoning <;>
      cases (extractThinkTags text).1.isEmpty <;> rfl

theorem filterMap_toolUse?_synthesizedBlocks {content synthesized : List ContentBlock}
    {noCalls : Bool} (h : synthesizedBlocks content noCalls = some synthesized) :
    synthesized.filterMap toolUse? = [] := by
  unfold synthesizedBlocks at h
  dsimp only at h
  split at h
  · obtain ⟨summary, -, rfl⟩ := Option.map_eq_some_iff.mp h
    rfl
  · cases h
    rfl

/-- The calls of an assembled response are the ToolUse blocks behind what was spoken. -/
theorem assemble_spec {spoken : List ContentBlock} {noCalls : Bool} {calls : List ToolCall}
    {finishReason : Option String} {usage : TokenUsage} {response : CompletionResponse}
    (hspoken : spoken.filterMap toolUse? = [])
    (h : assemble spoken noCalls calls finishReason usage = some response) :
    Assembled calls finishReason response := by
  obtain ⟨synthesized, hsynthesized, rfl⟩ := Option.map_eq_some_iff.mp h
  refine ⟨rfl, ?_, rfl⟩
  rw [List.filterMap_append, List.filterMap_append, hspoken,
    filterMap_toolUse?_synthesizedBlocks hsynthesized, filterMap_toolUse?_callBlock]
  rfl

/-- Where there are calls, a response is assembled. -/
theorem assemble_isSome (spoken : List ContentBlock) (calls : List ToolCall)
    (finishReason : Option String) (usage : TokenUsage) :
    (assemble spoken false calls finishReason usage).isSome = true := by
  simp [assemble, synthesizedBlocks]

theorem oaiStopReason_eq_toolUse_iff {finishReason : Option String} {calls : List ToolCall}
    (hcalls : calls ≠ []) :
    oaiStopReason finishReason calls = .toolUse ↔
      finishReason ≠ some "stop" ∧ finishReason ≠ some "length" := by
  have hnonempty : calls.isEmpty = false := by simpa using hcalls
  unfold oaiStopReason
  by_cases hstop : finishReason = some "stop"
  · simp [hstop]
  · by_cases hcalled : finishReason = some "tool_calls"
    · simp [hcalled]
    · by_cases hlength : finishReason = some "length" <;>
        simp [hstop, hcalled, hlength, hnonempty]

/-- What was assembled agrees with its reply, unless the finish reason is `stop`. -/
theorem Assembled.agrees_iff {lib : Library} {decoders : Decoders} {reply : Reply}
    {calls : List ToolCall} {response : CompletionResponse}
    (h : Assembled calls (reply.finishReason lib decoders) response)
    (hcut : reply.CutByLength lib decoders ↔ reply.finishReason lib decoders = some "length") :
    Agrees lib decoders reply response ↔
      (reply.finishReason lib decoders = some "stop" → calls = []) := by
  constructor
  · intro hagrees hstop
    by_contra hcalls
    have huse := hagrees.stopReason (h.toolCalls ▸ hcalls) (by simp [hcut, hstop])
    rw [h.stopReason, oaiStopReason_eq_toolUse_iff hcalls] at huse
    exact huse.1 hstop
  · intro hstop
    refine ⟨h.toolCalls.trans h.content.symm, fun hcalls hnot => ?_⟩
    rw [h.toolCalls] at hcalls
    rw [h.stopReason, oaiStopReason_eq_toolUse_iff hcalls]
    exact ⟨fun hfinish => hcalls (hstop hfinish), fun hlength => hnot (hcut.mpr hlength)⟩

/-! ### A body of OpenAI -/

/-- The tool calls of a choice. -/
def choiceToolCalls (lib : Library) (choice : OaiChoice) : List ToolCall :=
  (choice.message.toolCalls.getD []).map fun call =>
    toolCallOf lib call.id call.function.name call.function.arguments

theorem returned_map_ok (response : Option CompletionResponse) :
    returned (response.map .ok) = response := by
  cases response <;> rfl

theorem oaiBody_none {lib : Library} {decoders : Decoders} {body : String}
    (h : bodyChoice? decoders body = none) : returned (oaiBodyResponse lib decoders body) = none := by
  unfold bodyChoice? at h
  unfold oaiBodyResponse
  cases hdecoded : decoders.oaiResponse body with
  | error e => rfl
  | ok decoded =>
      have hchoices : decoded.choices = [] := by simpa [hdecoded, Except.toOption] using h
      simp only [oaiCompleteResponse, hchoices]
      rfl

/-- `complete` assembles its response from the calls of the first choice. -/
theorem oaiBody_eq (lib : Library) {decoders : Decoders} {body : String} {choice : OaiChoice}
    (h : bodyChoice? decoders body = some choice) :
    ∃ spoken usage, spoken.filterMap toolUse? = [] ∧
      returned (oaiBodyResponse lib decoders body) =
        assemble spoken choice.message.toolCalls.isNone (choiceToolCalls lib choice)
          choice.finishReason usage := by
  unfold bodyChoice? at h
  cases hdecoded : decoders.oaiResponse body with
  | error e => simp [hdecoded, Except.toOption] at h
  | ok decoded =>
      cases hchoices : decoded.choices with
      | nil => simp [hdecoded, hchoices, Except.toOption] at h
      | cons first choices =>
          obtain rfl : first = choice := by simpa [hdecoded, hchoices, Except.toOption] using h
          simp only [oaiBodyResponse, hdecoded, oaiCompleteResponse, hchoices, returned_map_ok]
          exact ⟨_, _, filterMap_toolUse?_spokenBlocks .., rfl⟩

/-! ### A stream of OpenAI -/

theorem oaiAccumulate_eq (lib : Library) (chunks : List (List UInt8)) :
    oaiAccumulate lib chunks = (oaiEvents lib chunks).foldl OaiAccum.pushEvent {} := by
  have hread := @Framing.readChunks_eq_readItems Char OaiAccum lineFraming Json (oaiEvent? lib)
    OaiAccum.pushEvent (OaiAccum.pushLine lib)
    (fun st line => by unfold OaiAccum.pushLine; cases oaiEvent? lib line <;> rfl) {}
    (chunks.map Utf8.fromUtf8Lossy)
  rw [oaiAccumulate, hread]
  rfl

theorem pushChoice_fold (choices : List Json) (st : OaiAccum) :
    (choices.foldl OaiAccum.pushChoice st).toolAccum =
        (choices.flatMap choiceCalls).foldl pushCall st.toolAccum ∧
      (choices.foldl OaiAccum.pushChoice st).finishReason =
        choices.foldl (fun latest choice => (choiceFinish? choice).orElse fun _ => latest)
          st.finishReason := by
  induction choices generalizing st with
  | nil => exact ⟨rfl, rfl⟩
  | cons choice choices ih =>
      rw [List.foldl_cons, List.flatMap_cons, List.foldl_append]
      exact ih (st.pushChoice choice)

theorem pushEvent_fold (events : List Json) (st : OaiAccum) :
    (events.foldl OaiAccum.pushEvent st).toolAccum =
        (eventsDeltas events).foldl pushCall st.toolAccum ∧
      (events.foldl OaiAccum.pushEvent st).finishReason =
        (eventsChoices events).foldl
          (fun latest choice => (choiceFinish? choice).orElse fun _ => latest) st.finishReason := by
  induction events generalizing st with
  | nil => exact ⟨rfl, rfl⟩
  | cons event events ih =>
      have husage : (st.pushUsage event).toolAccum = st.toolAccum ∧
          (st.pushUsage event).finishReason = st.finishReason := by
        unfold OaiAccum.pushUsage
        split <;> exact ⟨rfl, rfl⟩
      obtain ⟨hcalls, hfinish⟩ := ih (st.pushEvent event)
      obtain ⟨hcalls', hfinish'⟩ := pushChoice_fold (eventChoices event) (st.pushUsage event)
      rw [List.foldl_cons, hcalls, hfinish, OaiAccum.pushEvent, hcalls', hfinish', husage.1,
        husage.2, ← List.foldl_append, ← List.foldl_append, eventsDeltas, eventsDeltas,
        eventsChoices, eventsChoices, List.flatMap_cons, List.flatMap_append]
      exact ⟨rfl, rfl⟩

/-- The entry that some deltas of one call leave. -/
def accumOf (deltas : List Json) : ToolAccum :=
  deltas.foldl (fun entry delta => ToolAccum.push delta entry) {}

theorem pushCall_fold (deltas : List Json) :
    deltas.foldl pushCall [] = (List.range (Slots.slotCount callIndex deltas)).map fun i =>
      accumOf (deltas.filter fun delta => callIndex delta = i) :=
  @Slots.foldl_pushAt _ _ callIndex (fun entry delta => ToolAccum.push delta entry) {} deltas

theorem push_id (delta : Json) (entry : ToolAccum) :
    (ToolAccum.push delta entry).id = (sentId? delta).getD entry.id := by
  unfold ToolAccum.push
  dsimp only
  split <;> rfl

/-- The id of an entry is the last one that was sent, and empty if none was. -/
theorem accumOf_id (deltas : List Json) :
    (accumOf deltas).id = (deltas.filterMap sentId?).getLast?.getD "" := by
  have hfold : ∀ entry : ToolAccum,
      (deltas.foldl (fun entry delta => ToolAccum.push delta entry) entry).id =
        deltas.foldl (fun latest delta => (sentId? delta).getD latest) entry.id := by
    induction deltas with
    | nil => exact fun _ => rfl
    | cons delta deltas ih =>
        intro entry
        rw [List.foldl_cons, ih, push_id, List.foldl_cons]
  rw [accumOf, hfold, Slots.foldl_getD]

/-- The tool calls for some deltas. -/
def streamToolCalls (lib : Library) (deltas : List Json) : List ToolCall :=
  (deltas.foldl pushCall []).map fun entry => toolCallOf lib entry.id entry.name entry.arguments

/-- `stream` assembles its response from the calls of the deltas. -/
theorem oaiStream_eq (lib : Library) {body : ByteStream} (h : body.error = none) :
    ∃ spoken usage, spoken.filterMap toolUse? = [] ∧
      returned (oaiStreamResponse lib body) =
        assemble spoken ((eventsDeltas (oaiEvents lib body.chunks)).foldl pushCall []).isEmpty
          (streamToolCalls lib (eventsDeltas (oaiEvents lib body.chunks)))
          ((eventsChoices (oaiEvents lib body.chunks)).filterMap choiceFinish?).getLast? usage := by
  obtain ⟨hcalls, hfinish⟩ := pushEvent_fold (oaiEvents lib body.chunks) {}
  rw [Slots.foldl_orElse, Option.or_none] at hfinish
  simp only [oaiStreamResponse, h, returned_map_ok, oaiAccumulate_eq]
  unfold OaiAccum.finish
  rw [hcalls, hfinish]
  exact ⟨_, _, filterMap_toolUse?_spokenBlocks .., rfl⟩

/-! ### The ids of OpenAI -/

/-- The id that a call is returned with. -/
def chosenId (ids : List String) : String := ids.getLast?.getD ""

theorem ids_choiceToolCalls (lib : Library) (choice : OaiChoice) :
    (choiceToolCalls lib choice).map ToolCall.id =
      ((choice.message.toolCalls.getD []).map fun call =>
        [call.id].filter fun id => !id.isEmpty).map chosenId := by
  rw [choiceToolCalls, List.map_map, List.map_map]
  refine List.map_congr_left fun call _ => ?_
  by_cases hid : call.id = "" <;> simp [toolCallOf, chosenId, hid]

theorem ids_streamToolCalls (lib : Library) (deltas : List Json) :
    (streamToolCalls lib deltas).map ToolCall.id = (streamedIds deltas).map chosenId := by
  rw [streamToolCalls, pushCall_fold, streamedIds, List.map_map, List.map_map, List.map_map]
  refine List.map_congr_left fun i _ => ?_
  exact accumOf_id _

/-- What the OpenAI driver returns for a reply with some calls; where it returns nothing, there
are none. -/
inductive OaiAnswer (calls : List ToolCall) (finishReason : Option String) :
    Option CompletionResponse → Prop where
  | missing : calls = [] → OaiAnswer calls finishReason none
  | given {response : CompletionResponse} :
      Assembled calls finishReason response → OaiAnswer calls finishReason (some response)

theorem OaiAnswer.of_assemble {spoken : List ContentBlock} {noCalls : Bool}
    {calls : List ToolCall} {finishReason : Option String} {usage : TokenUsage}
    (hspoken : spoken.filterMap toolUse? = []) (hnone : noCalls = true → calls = []) :
    OaiAnswer calls finishReason (assemble spoken noCalls calls finishReason usage) := by
  cases hresponse : assemble spoken noCalls calls finishReason usage with
  | some response => exact .given (assemble_spec hspoken hresponse)
  | none =>
      cases noCalls with
      | true => exact .missing (hnone rfl)
      | false =>
          have hsome := assemble_isSome spoken calls finishReason usage
          rw [hresponse] at hsome
          cases hsome

theorem oaiBody_answer (lib : Library) (decoders : Decoders) (body : String) :
    ∃ calls, calls.map ToolCall.id = ((Reply.oaiBody body).sentIds lib decoders).map chosenId ∧
      OaiAnswer calls ((Reply.oaiBody body).finishReason lib decoders)
        (returned (oaiBodyResponse lib decoders body)) := by
  cases hchoice : bodyChoice? decoders body with
  | none =>
      rw [oaiBody_none hchoice]
      exact ⟨[], by simp [Reply.sentIds, hchoice], .missing rfl⟩
  | some choice =>
      obtain ⟨spoken, usage, hspoken, heq⟩ := oaiBody_eq lib hchoice
      have hids := ids_choiceToolCalls lib choice
      have hfinish : (Reply.oaiBody body).finishReason lib decoders = choice.finishReason := by
        simp [Reply.finishReason, hchoice]
      rw [heq, hfinish]
      refine ⟨choiceToolCalls lib choice, by simpa [Reply.sentIds, hchoice] using hids,
        .of_assemble hspoken fun hnone => ?_⟩
      simp [choiceToolCalls, Option.isNone_iff_eq_none.mp hnone]

theorem oaiStream_answer (lib : Library) (decoders : Decoders) (body : ByteStream) :
    ∃ calls, calls.map ToolCall.id = ((Reply.oaiStream body).sentIds lib decoders).map chosenId ∧
      OaiAnswer calls ((Reply.oaiStream body).finishReason lib decoders)
        (returned (oaiStreamResponse lib body)) := by
  cases herror : body.error with
  | some e =>
      refine ⟨[], by simp [Reply.sentIds, herror], ?_⟩
      simp only [oaiStreamResponse, herror]
      exact .missing rfl
  | none =>
      obtain ⟨spoken, usage, hspoken, heq⟩ := oaiStream_eq lib herror
      have hids := ids_streamToolCalls lib (eventsDeltas (oaiEvents lib body.chunks))
      rw [heq, Reply.finishReason]
      refine ⟨streamToolCalls lib _, by simpa [Reply.sentIds, herror] using hids,
        .of_assemble hspoken fun hnone => ?_⟩
      rw [streamToolCalls, List.isEmpty_iff.mp hnone, List.map_nil]

theorem OaiAnswer.ids {calls : List ToolCall} {finishReason : Option String}
    {answer : Option CompletionResponse} (h : OaiAnswer calls finishReason answer) :
    answer.toList.flatMap callIds = calls.map ToolCall.id := by
  cases h with
  | missing hcalls => simp [hcalls]
  | given hassembled => simp [callIds, hassembled.toolCalls]

theorem OaiAnswer.agrees_iff {lib : Library} {decoders : Decoders} {reply : Reply}
    {calls : List ToolCall} {answer : Option CompletionResponse}
    (h : OaiAnswer calls (reply.finishReason lib decoders) answer)
    (hids : calls.map ToolCall.id = (reply.sentIds lib decoders).map chosenId)
    (hcut : reply.CutByLength lib decoders ↔ reply.finishReason lib decoders = some "length") :
    (∀ response ∈ answer, Agrees lib decoders reply response) ↔
      (reply.finishReason lib decoders = some "stop" → reply.sentIds lib decoders = []) := by
  have hnil : calls = [] ↔ reply.sentIds lib decoders = [] := by
    rw [← List.map_eq_nil_iff, hids, List.map_eq_nil_iff]
  rw [← hnil]
  cases h with
  | missing hcalls => simp [hcalls]
  | given hassembled => simpa using hassembled.agrees_iff hcut

/-! ### A failed generation -/

theorem groqCalls_done (lib : Library) {text : List Char} (calls : List ToolCall)
    (hopen : Framing.cutAt "<function=".toList text = none) :
    groqCalls lib text calls = some calls := by
  rw [groqCalls]
  split
  · rfl
  · rename_i h
    cases hopen.symm.trans h

theorem groqCalls_open (lib : Library) {text before inside : List Char} (calls : List ToolCall)
    (hopen : Framing.cutAt "<function=".toList text = some (before, inside)) :
    groqCalls lib text calls =
      (Framing.cutAt "</function>".toList inside).bind fun cut =>
        groqCalls lib cut.2 (calls ++ [groqCall lib calls.length cut.1]) := by
  rw [groqCalls]
  split
  · rename_i h
    cases hopen.symm.trans h
  · rename_i h
    cases hopen.symm.trans h
    split
    · rename_i hclose
      rw [hclose]
      rfl
    · rename_i hclose
      rw [hclose]
      rfl

/-- The calls of a text are found if each is closed, and there are some if there is a first. -/
theorem groqCalls_of_closed (lib : Library) {text : List Char} (h : CallsClosed text) :
    ∀ before : List ToolCall, ∃ calls, groqCalls lib text before = some (before ++ calls) ∧
      (calls = [] ↔ Framing.cutAt "<function=".toList text = none) := by
  induction h with
  | done hopen =>
      intro before
      exact ⟨[], by rw [groqCalls_done lib before hopen, List.append_nil], by rw [hopen]; simp⟩
  | @call text front inside callContent behind hopen hclose _ ih =>
      intro before
      obtain ⟨calls, hcalls, -⟩ := ih (before ++ [groqCall lib before.length callContent])
      refine ⟨groqCall lib before.length callContent :: calls, ?_, by rw [hopen]; simp⟩
      rw [groqCalls_open lib before hopen, hclose, Option.bind_some, hcalls, List.append_assoc]
      rfl

theorem closed_of_groqCalls (lib : Library) (text : List Char) (before calls : List ToolCall)
    (h : groqCalls lib text before = some calls) : CallsClosed text := by
  induction hlength : text.length using Nat.strong_induction_on generalizing text before with
  | _ length ih =>
      cases hopen : Framing.cutAt "<function=".toList text with
      | none => exact .done hopen
      | some cut =>
          obtain ⟨front, inside⟩ := cut
          rw [groqCalls_open lib before hopen] at h
          obtain ⟨⟨callContent, behind⟩, hclose, hrest⟩ := Option.bind_eq_some_iff.mp h
          refine .call hopen hclose (ih behind.length ?_ behind _ hrest rfl)
          rw [← hlength, Framing.cutAt_eq_some hopen, Framing.cutAt_eq_some hclose]
          simp only [List.length_append]
          have hlong : 0 < "<function=".toList.length := by decide
          omega

theorem parseGroqFailedToolCall_eq (lib : Library) (body : String) :
    parseGroqFailedToolCall lib body =
      (failedGeneration? lib body).bind fun failed =>
        (groqCalls lib failed.toList []).bind fun toolCalls =>
          if toolCalls.isEmpty then
            if isBlank failed then none
            else some ⟨[.text failed none], .endTurn, [], {}⟩
          else some ⟨[], .toolUse, toolCalls, {}⟩ := by
  unfold parseGroqFailedToolCall failedGeneration?
  simp only [Option.bind_assoc]

/-- A response that is recovered is consistent unless calls were recovered. -/
theorem oaiRecovered_spec (lib : Library) (status : Nat) (body : String) :
    (FailedCalls lib status body → ∃ response, oaiRecovered lib status body = some response ∧
      response.toolCalls ≠ [] ∧ response.content = []) ∧
    (¬ FailedCalls lib status body → ∀ response ∈ oaiRecovered lib status body,
      response.toolCalls = [] ∧ response.content.filterMap toolUse? = []) := by
  constructor
  · rintro ⟨hstatus, hfailed, failed, hgeneration, hopen, hclosed⟩
    obtain ⟨calls, hcalls, hnil⟩ := groqCalls_of_closed lib hclosed []
    have hne : calls ≠ [] := fun hempty => hopen (hnil.mp hempty)
    refine ⟨⟨[], .toolUse, calls, {}⟩, ?_, hne, rfl⟩
    rw [oaiRecovered, if_pos ⟨hstatus, hfailed⟩, parseGroqFailedToolCall_eq, hgeneration,
      Option.bind_some, hcalls, Option.bind_some, List.nil_append,
      if_neg (by simpa using hne)]
  · intro hnot response hresponse
    unfold oaiRecovered at hresponse
    split at hresponse
    · rename_i hfailure
      rw [parseGroqFailedToolCall_eq] at hresponse
      obtain ⟨failed, hgeneration, hresponse⟩ := Option.bind_eq_some_iff.mp hresponse
      obtain ⟨calls, hcalls, hresponse⟩ := Option.bind_eq_some_iff.mp hresponse
      split at hresponse
      · split at hresponse
        · cases hresponse
        · cases hresponse
          exact ⟨rfl, rfl⟩
      · rename_i hne
        have hclosed := closed_of_groqCalls lib failed.toList [] calls hcalls
        obtain ⟨found, hfound, hnil⟩ := groqCalls_of_closed lib hclosed []
        obtain rfl : found = calls := by simpa [hcalls] using hfound.symm
        have hopen : Framing.cutAt "<function=".toList failed.toList ≠ none :=
          fun hempty => hne (List.isEmpty_iff.mpr (hnil.mpr hempty))
        exact absurd ⟨hfailure.1, hfailure.2, failed, hgeneration, hopen, hclosed⟩ hnot
    · cases hresponse

/-! ### Gemini -/

/-- The ids that are made from `count` UUIDs. -/
def madeIds (uuid : Nat → String) (first count : Nat) : List String :=
  (List.range' first count).map (callId uuid)

/-- What a candidate is read to: the calls are those of the content, and each has a new id. -/
structure PartsRead (uuid : Nat → String) (taken : Nat) (st : GeminiContent) : Prop where
  calls : st.toolCalls = st.content.filterMap toolUse?
  counted : st.taken = taken + st.toolCalls.length
  ids : st.toolCalls.map ToolCall.id = madeIds uuid taken st.toolCalls.length

theorem PartsRead.pushPart {uuid : Nat → String} {taken : Nat} {st : GeminiContent}
    (h : PartsRead uuid taken st) (part : GeminiPart) :
    PartsRead uuid taken (st.pushPart uuid part) := by
  obtain ⟨hcalls, htaken, hids⟩ := h
  have hspoken : ∀ block, toolUse? block = none →
      PartsRead uuid taken { st with content := st.content ++ [block] } := by
    intro block hblock
    exact ⟨by simp [hcalls, hblock], htaken, hids⟩
  cases part with
  | text text sig =>
      unfold GeminiContent.pushPart
      dsimp only
      split
      · exact ⟨hcalls, htaken, hids⟩
      · exact hspoken _ rfl
  | thought text thought sig =>
      unfold GeminiContent.pushPart
      dsimp only
      split
      · exact ⟨hcalls, htaken, hids⟩
      · exact hspoken _ rfl
  | functionCall name args sig =>
      refine ⟨?_, ?_, ?_⟩
      · simp [GeminiContent.pushPart, hcalls, toolUse?]
      · simp only [GeminiContent.pushPart, htaken, List.length_append, List.length_singleton]
        omega
      · simp only [GeminiContent.pushPart, List.map_append, hids, htaken, madeIds,
          List.length_append, List.length_singleton, List.range'_1_concat, List.map_singleton]
  | inlineData => exact ⟨hcalls, htaken, hids⟩
  | functionResponse => exact ⟨hcalls, htaken, hids⟩

theorem partsRead (uuid : Nat → String) (taken : Nat) (parts : List GeminiPart) :
    PartsRead uuid taken (parts.foldl (GeminiContent.pushPart uuid) { taken := taken }) := by
  induction parts using List.reverseRecOn with
  | nil => exact ⟨rfl, rfl, rfl⟩
  | append_singleton parts part ih =>
      rw [List.foldl_append]
      exact ih.pushPart part

theorem geminiStopReason_eq_toolUse {finishReason : Option String} {calls : List ToolCall}
    (h : calls ≠ []) : geminiStopReason finishReason calls = .toolUse := by
  simp [geminiStopReason, h]

/-- A success body of Gemini agrees with its response, whose calls have new ids. -/
theorem geminiBody_spec (lib : Library) (decoders : Decoders) (uuid : Nat → String) (taken : Nat)
    (body : String) :
    ∃ count, (geminiCompleteResponse decoders uuid taken body).2 = taken + count ∧
      (geminiCompleteResponse decoders uuid taken body).1.toOption.toList.flatMap callIds =
        madeIds uuid taken count ∧
      ∀ response ∈ (geminiCompleteResponse decoders uuid taken body).1.toOption,
        Agrees lib decoders (.geminiBody body) response := by
  have hnothing : ∀ e : LlmError, ∃ count,
      ((.error e, taken) : Except LlmError CompletionResponse × Nat).2 = taken + count ∧
      ((.error e, taken) : Except LlmError CompletionResponse × Nat).1.toOption.toList.flatMap
        callIds = madeIds uuid taken count ∧
      ∀ response ∈ ((.error e, taken) : Except LlmError CompletionResponse × Nat).1.toOption,
        Agrees lib decoders (.geminiBody body) response :=
    fun e => ⟨0, rfl, rfl, fun _ h => by cases h⟩
  unfold geminiCompleteResponse
  split
  · exact hnothing _
  · unfold convertResponse
    split
    · exact hnothing _
    · split
      · exact hnothing _
      · rename_i parts _
        obtain ⟨hcalls, htaken, hids⟩ := partsRead uuid taken parts
        refine ⟨_, htaken, by simpa [Except.toOption, callIds] using hids, ?_⟩
        rintro response ⟨rfl⟩
        exact ⟨hcalls, fun hne _ => geminiStopReason_eq_toolUse hne⟩

theorem geminiRead_eq (decoders : Decoders) (taken : Nat) (chunks : List (List UInt8)) :
    geminiRead decoders taken chunks =
      ((lineFraming.readItems (geminiEvent? decoders) (chunks.map Utf8.fromUtf8Lossy)).1,
        (lineFraming.readItems (geminiEvent? decoders) (chunks.map Utf8.fromUtf8Lossy)).2.foldl
          GeminiAccum.pushEvent { taken := taken }) :=
  Framing.readChunks_eq_readItems (geminiEvent? decoders) GeminiAccum.pushEvent _
    (fun st line => by unfold GeminiAccum.pushEvent?; cases geminiEvent? decoders line <;> rfl) _ _

theorem geminiAccumulate_eq (decoders : Decoders) (taken : Nat) (chunks : List (List UInt8)) :
    geminiAccumulate decoders taken chunks =
      (geminiEvents decoders chunks).foldl GeminiAccum.pushEvent { taken := taken } := by
  rw [geminiAccumulate, geminiRead_eq, geminiEvents, List.foldl_append]
  dsimp only
  cases geminiLeftover? decoders _ <;> rfl

theorem pushPart_fold (parts : List GeminiPart) (st : GeminiAccum) :
    (parts.foldl GeminiAccum.pushPart st).fnCalls =
        st.fnCalls ++ parts.filterMap GeminiPart.call? ∧
      (parts.foldl GeminiAccum.pushPart st).finishReason = st.finishReason ∧
      (parts.foldl GeminiAccum.pushPart st).taken =
        st.taken + (parts.filterMap GeminiPart.call?).length := by
  induction parts generalizing st with
  | nil => simp
  | cons part parts ih =>
      obtain ⟨hcalls, hfinish, htaken⟩ := ih (st.pushPart part)
      rw [List.foldl_cons, hcalls, hfinish, htaken]
      cases part <;>
        simp [GeminiAccum.pushPart, GeminiPart.call?, List.filterMap_cons, Nat.add_assoc,
          Nat.add_comm 1]

theorem pushCandidate_fold (candidates : List GeminiCandidate) (st : GeminiAccum) :
    (candidates.foldl GeminiAccum.pushCandidate st).fnCalls =
        st.fnCalls ++ candidates.flatMap GeminiCandidate.calls ∧
      (candidates.foldl GeminiAccum.pushCandidate st).finishReason =
        candidates.foldl (fun latest candidate => candidate.finishReason.orElse fun _ => latest)
          st.finishReason ∧
      (candidates.foldl GeminiAccum.pushCandidate st).taken =
        st.taken + (candidates.flatMap GeminiCandidate.calls).length := by
  induction candidates generalizing st with
  | nil => simp
  | cons candidate candidates ih =>
      obtain ⟨hcalls, hfinish, htaken⟩ := ih (st.pushCandidate candidate)
      obtain ⟨hcalls', hfinish', htaken'⟩ := pushPart_fold (candidate.content.getD [])
        { st with finishReason := candidate.finishReason.orElse fun _ => st.finishReason }
      rw [List.foldl_cons, hcalls, hfinish, htaken, GeminiAccum.pushCandidate, hcalls', hfinish',
        htaken']
      simp [GeminiCandidate.calls, Nat.add_assoc]

theorem geminiEvents_fold (events : List GeminiResponse) (st : GeminiAccum) :
    (events.foldl GeminiAccum.pushEvent st).fnCalls =
        st.fnCalls ++ (eventsCandidates events).flatMap GeminiCandidate.calls ∧
      (events.foldl GeminiAccum.pushEvent st).finishReason =
        (eventsCandidates events).foldl
          (fun latest candidate => candidate.finishReason.orElse fun _ => latest)
          st.finishReason ∧
      (events.foldl GeminiAccum.pushEvent st).taken =
        st.taken + ((eventsCandidates events).flatMap GeminiCandidate.calls).length := by
  induction events generalizing st with
  | nil => simp [eventsCandidates]
  | cons event events ih =>
      obtain ⟨hcalls, hfinish, htaken⟩ := ih (st.pushEvent event)
      have husage : (st.pushUsage event).fnCalls = st.fnCalls ∧
          (st.pushUsage event).finishReason = st.finishReason ∧
          (st.pushUsage event).taken = st.taken := by
        unfold GeminiAccum.pushUsage
        split <;> exact ⟨rfl, rfl, rfl⟩
      obtain ⟨hcalls', hfinish', htaken'⟩ :=
        pushCandidate_fold event.candidates (st.pushUsage event)
      rw [List.foldl_cons, hcalls, hfinish, htaken, GeminiAccum.pushEvent, hcalls', hfinish',
        htaken', husage.1, husage.2.1, husage.2.2]
      simp [eventsCandidates, Nat.add_assoc]

theorem geminiStreamStopReason_eq_toolUse_iff {finishReason : Option String}
    {calls : List ToolCall} (h : calls ≠ []) :
    geminiStreamStopReason finishReason calls = .toolUse ↔
      ¬ (finishReason = some "STOP" ∨ finishReason = some "SAFETY") ∧
        finishReason ≠ some "MAX_TOKENS" := by
  have hnonempty : calls.isEmpty = false := by simpa using h
  unfold geminiStreamStopReason
  by_cases hstop : finishReason = some "STOP"
  · simp [hstop]
  · by_cases hlength : finishReason = some "MAX_TOKENS"
    · simp [hlength]
    · by_cases hsafety : finishReason = some "SAFETY" <;>
        simp [hstop, hsafety, hlength, hnonempty]

/-- The calls of a finished response are those of its content, under new ids. -/
theorem geminiFinish_spec (uuid : Nat → String) (st : GeminiAccum) :
    (st.finish uuid).toolCalls = (st.finish uuid).content.filterMap toolUse? ∧
      callIds (st.finish uuid) = madeIds uuid st.taken st.fnCalls.length ∧
      (st.finish uuid).toolCalls.length = st.fnCalls.length := by
  have hblocks : ((st.fnCalls.zipIdx st.taken).map (GeminiCall.block uuid)).filterMap toolUse? =
      (st.fnCalls.zipIdx st.taken).map (GeminiCall.toolCall uuid) := by
    rw [List.filterMap_map]
    exact congrFun (List.filterMap_eq_map (f := GeminiCall.toolCall uuid)) _
  refine ⟨?_, ?_, by simp [GeminiAccum.finish]⟩
  · simp only [GeminiAccum.finish, List.filterMap_append, hblocks]
    split <;> rfl
  · have hids : ToolCall.id ∘ GeminiCall.toolCall uuid = callId uuid ∘ Prod.snd := rfl
    rw [callIds, GeminiAccum.finish, List.map_map, hids, ← List.map_map, madeIds,
      List.zipIdx_map_snd]

/-- A stream of Gemini makes new ids for its calls, and agrees with its response if it is
consistent. -/
theorem geminiStream_spec (lib : Library) (decoders : Decoders) (uuid : Nat → String)
    (taken : Nat) (body : ByteStream) :
    ∃ first count, taken ≤ first ∧
      (geminiStreamResponse decoders uuid taken body).2 = first + count ∧
      (geminiStreamResponse decoders uuid taken body).1.toOption.toList.flatMap callIds =
        madeIds uuid first count ∧
      ((∀ response ∈ (geminiStreamResponse decoders uuid taken body).1.toOption,
          Agrees lib decoders (.geminiStream body) response) ↔
        (Reply.geminiStream body).Consistent lib decoders) := by
  unfold geminiStreamResponse
  cases herror : body.error with
  | some e =>
      obtain ⟨-, -, htaken⟩ := geminiEvents_fold (lineFraming.readItems (geminiEvent? decoders)
        (body.chunks.map Utf8.fromUtf8Lossy)).2 { taken := taken }
      refine ⟨(geminiRead decoders taken body.chunks).2.taken, 0, ?_, rfl, rfl, ?_⟩
      · rw [geminiRead_eq, htaken]
        exact Nat.le_add_right ..
      · simp [Except.toOption, Reply.Consistent, herror]
  | none =>
      obtain ⟨hcalls, hfinish, htaken⟩ :=
        geminiEvents_fold (geminiEvents decoders body.chunks) { taken := taken }
      rw [← geminiAccumulate_eq] at hcalls hfinish htaken
      rw [Slots.foldl_orElse, Option.or_none] at hfinish
      dsimp only
      generalize geminiAccumulate decoders taken body.chunks = st at *
      obtain ⟨hcontent, hids, hlength⟩ := geminiFinish_spec uuid st
      have hstop : (st.finish uuid).stopReason =
          geminiStreamStopReason st.finishReason (st.finish uuid).toolCalls := rfl
      have hreply : (Reply.geminiStream body).finishReason lib decoders = st.finishReason :=
        hfinish.symm
      refine ⟨st.taken, st.fnCalls.length, by rw [htaken]; exact Nat.le_add_right .., rfl,
        by simpa [Except.toOption] using hids, ?_⟩
      have hnil : (st.finish uuid).toolCalls = [] ↔
          (eventsCandidates (geminiEvents decoders body.chunks)).flatMap
            GeminiCandidate.calls = [] := by
        rw [← List.length_eq_zero_iff, hlength, hcalls, List.nil_append, List.length_eq_zero_iff]
      simp only [Except.toOption, Option.mem_def, Option.some.injEq, forall_eq',
        Reply.Consistent, herror, forall_const, hreply, ← hnil]
      constructor
      · intro hagrees hfinal
        by_contra hne
        have huse := hagrees.stopReason hne (by
          rw [Reply.CutByLength, hreply]
          rcases hfinal with hfinal | hfinal <;> simp [hfinal])
        rw [hstop, geminiStreamStopReason_eq_toolUse_iff hne] at huse
        exact huse.1 hfinal
      · intro hconsistent
        refine ⟨hcontent, fun hne hcut => ?_⟩
        rw [hstop, geminiStreamStopReason_eq_toolUse_iff hne]
        rw [Reply.CutByLength, hreply] at hcut
        exact ⟨fun hfinal => hne (hconsistent hfinal), hcut⟩

/-! ### One reply -/

section Answers

variable (lib : Library) (decoders : Decoders) (uuid : Nat → String)

/-- What is returned for a reply agrees with it exactly if the reply is consistent. -/
theorem answer_agrees_iff (taken : Nat) (reply : Reply) :
    (∀ response ∈ (reply.answer lib decoders uuid taken).1,
        Agrees lib decoders reply response) ↔ reply.Consistent lib decoders := by
  cases reply with
  | oaiBody body =>
      obtain ⟨calls, hids, hanswer⟩ := oaiBody_answer lib decoders body
      exact hanswer.agrees_iff hids Iff.rfl
  | oaiStream body =>
      obtain ⟨calls, hids, hanswer⟩ := oaiStream_answer lib decoders body
      exact hanswer.agrees_iff hids Iff.rfl
  | oaiFailure status body =>
      obtain ⟨hfailed, hother⟩ := oaiRecovered_spec lib status body
      constructor
      · intro hagrees hcalls
        obtain ⟨response, hresponse, hne, hcontent⟩ := hfailed hcalls
        have hagree := (hagrees response hresponse).calls
        rw [hcontent] at hagree
        exact hne hagree
      · intro hnot response hresponse
        obtain ⟨hcalls, hcontent⟩ := hother hnot response hresponse
        exact ⟨hcalls.trans hcontent.symm, fun hne _ => absurd hcalls hne⟩
  | geminiBody body =>
      obtain ⟨_, -, -, hagrees⟩ := geminiBody_spec lib decoders uuid taken body
      exact iff_of_true hagrees trivial
  | geminiStream body =>
      obtain ⟨_, _, -, -, -, hiff⟩ := geminiStream_spec lib decoders uuid taken body
      exact hiff

/-- The ids of what is returned for a reply: those that were sent, then new ones. -/
theorem answer_ids (taken : Nat) {reply : Reply} (h : reply.Consistent lib decoders) :
    ∃ first count, taken ≤ first ∧ (reply.answer lib decoders uuid taken).2 = first + count ∧
      (reply.answer lib decoders uuid taken).1.toList.flatMap callIds =
        (reply.sentIds lib decoders).map chosenId ++ madeIds uuid first count := by
  cases reply with
  | oaiBody body =>
      obtain ⟨calls, hids, hanswer⟩ := oaiBody_answer lib decoders body
      refine ⟨taken, 0, Nat.le_refl _, rfl, ?_⟩
      rw [← hids, ← hanswer.ids]
      exact (List.append_nil _).symm
  | oaiStream body =>
      obtain ⟨calls, hids, hanswer⟩ := oaiStream_answer lib decoders body
      refine ⟨taken, 0, Nat.le_refl _, rfl, ?_⟩
      rw [← hids, ← hanswer.ids]
      exact (List.append_nil _).symm
  | oaiFailure status body =>
      have hother := (oaiRecovered_spec lib status body).2 h
      refine ⟨taken, 0, Nat.le_refl _, rfl, ?_⟩
      change (oaiRecovered lib status body).toList.flatMap callIds = []
      rw [List.flatMap_eq_nil_iff]
      intro response hresponse
      rw [callIds, (hother response (Option.mem_toList.mp hresponse)).1, List.map_nil]
  | geminiBody body =>
      obtain ⟨count, htaken, hids, -⟩ := geminiBody_spec lib decoders uuid taken body
      exact ⟨taken, count, Nat.le_refl _, htaken, hids⟩
  | geminiStream body =>
      obtain ⟨first, count, hle, htaken, hids, -⟩ :=
        geminiStream_spec lib decoders uuid taken body
      exact ⟨first, count, hle, htaken, hids⟩

/-! ### A run -/

theorem answers_agree_iff (taken : Nat) (replies : List Reply) :
    (∀ answer ∈ answers lib decoders uuid taken replies,
        Agrees lib decoders answer.1 answer.2) ↔
      ∀ reply ∈ replies, reply.Consistent lib decoders := by
  induction replies generalizing taken with
  | nil => simp [answers]
  | cons reply replies ih =>
      rw [List.forall_mem_cons, ← answer_agrees_iff lib decoders uuid taken,
        ← ih (reply.answer lib decoders uuid taken).2]
      simp only [answers, List.forall_mem_append, List.forall_mem_map, Option.mem_toList,
        Option.mem_def]

/-- The ids of a run: those that were sent, and new ones, each made once. -/
theorem answers_ids (taken : Nat) {replies : List Reply}
    (h : ∀ reply ∈ replies, reply.Consistent lib decoders) :
    ∃ made : List Nat, made.Nodup ∧ taken ≤ takenAfter lib decoders uuid taken replies ∧
      (∀ n ∈ made, taken ≤ n ∧ n < takenAfter lib decoders uuid taken replies) ∧
      ((answers lib decoders uuid taken replies).flatMap fun answer => callIds answer.2).Perm
        ((replies.flatMap (Reply.sentIds lib decoders)).map chosenId ++
          made.map (callId uuid)) := by
  induction replies generalizing taken with
  | nil => exact ⟨[], List.nodup_nil, Nat.le_refl _, by simp, .nil⟩
  | cons reply replies ih =>
      obtain ⟨hreply, hreplies⟩ := List.forall_mem_cons.mp h
      obtain ⟨first, count, hfirst, htaken, hids⟩ := answer_ids lib decoders uuid taken hreply
      obtain ⟨made, hmade, hle, hlater, hperm⟩ :=
        ih (reply.answer lib decoders uuid taken).2 hreplies
      have hrange : ∀ n ∈ List.range' first count, first ≤ n ∧ n < first + count :=
        fun n hn => List.mem_range'_1.mp hn
      have hend : first + count ≤ takenAfter lib decoders uuid taken (reply :: replies) :=
        htaken ▸ hle
      refine ⟨List.range' first count ++ made, ?_, by omega, ?_, ?_⟩
      · refine List.nodup_append.mpr ⟨List.nodup_range', hmade, fun n hn m hm heq => ?_⟩
        have hbefore := (hrange n hn).2
        have hafter := (hlater m hm).1
        omega
      · intro n hn
        rcases List.mem_append.mp hn with hn | hn
        · obtain ⟨hlow, hhigh⟩ := hrange n hn
          exact ⟨hfirst.trans hlow, hhigh.trans_le hend⟩
        · obtain ⟨hlow, hhigh⟩ := hlater n hn
          exact ⟨by omega, hhigh⟩
      · have hhead : (((reply.answer lib decoders uuid taken).1.toList.map
            (Prod.mk reply)).flatMap fun answer => callIds answer.2) =
              (reply.answer lib decoders uuid taken).1.toList.flatMap callIds := by
          rw [List.flatMap_map]
        rw [answers, List.flatMap_append, hhead, hids, List.flatMap_cons, List.map_append,
          List.map_append, madeIds]
        refine (hperm.append_left _).trans ?_
        simp only [List.append_assoc]
        refine List.Perm.append_left _ ?_
        rw [← List.append_assoc, ← List.append_assoc]
        exact List.perm_append_comm.append_right _

end Answers

theorem chosenId_eq_empty_iff {ids : List String} (h : "" ∉ ids) : chosenId ids = "" ↔ ids = [] := by
  cases hlast : ids.getLast? with
  | none => simp [chosenId, List.getLast?_eq_none_iff.mp hlast]
  | some id =>
      have hmem : id ∈ ids := List.mem_of_getLast? hlast
      have hne : id ≠ "" := fun heq => h (heq ▸ hmem)
      simp [chosenId, hlast, hne, List.ne_nil_of_mem hmem]

theorem chosenId_mem {ids : List String} (h : ids ≠ []) : chosenId ids ∈ ids := by
  rw [chosenId, List.getLast?_eq_some_getLast h]
  exact List.getLast_mem h

/-- Calls with ids of their own are told apart; so is one call without an id. -/
theorem nodup_chosenId_iff {sent : List (List String)} (hown : sent.Pairwise List.Disjoint)
    (hempty : ∀ ids ∈ sent, "" ∉ ids) :
    (sent.map chosenId).Nodup ↔ sent.count [] ≤ 1 := by
  induction sent with
  | nil => simp
  | cons ids sent ih =>
      obtain ⟨hdisjoint, hown⟩ := List.pairwise_cons.mp hown
      obtain ⟨hids, hrest⟩ := List.forall_mem_cons.mp hempty
      rw [List.map_cons, List.nodup_cons, ih hown hrest, List.count_cons]
      by_cases hnil : ids = []
      · subst hnil
        have hmem : chosenId [] ∈ sent.map chosenId ↔ 0 < sent.count [] := by
          rw [List.count_pos_iff, List.mem_map]
          constructor
          · rintro ⟨other, hother, heq⟩
            exact (chosenId_eq_empty_iff (hrest other hother)).mp heq ▸ hother
          · exact fun hmem => ⟨[], hmem, rfl⟩
        rw [hmem, if_pos (by simp)]
        omega
      · have hnot : chosenId ids ∉ sent.map chosenId := by
          rw [List.mem_map]
          rintro ⟨other, hother, heq⟩
          have hmem := heq ▸ chosenId_mem hnil
          by_cases hnil' : other = []
          · rw [hnil'] at hmem
            exact hids hmem
          · exact hdisjoint other hother hmem (chosenId_mem hnil')
        rw [if_neg (by simpa using hnil)]
        exact and_iff_right hnot

theorem empty_notMem_sentIds (lib : Library) (decoders : Decoders) (reply : Reply) :
    ∀ ids ∈ reply.sentIds lib decoders, "" ∉ ids := by
  intro ids hids hmem
  cases reply with
  | oaiBody body =>
      obtain ⟨call, -, rfl⟩ := List.mem_map.mp hids
      simp at hmem
  | oaiStream body =>
      simp only [Reply.sentIds] at hids
      split at hids
      · obtain ⟨i, -, rfl⟩ := List.mem_map.mp hids
        obtain ⟨delta, -, hdelta⟩ := List.mem_filterMap.mp hmem
        have hnonempty := (Option.filter_eq_some_iff.mp hdelta).2
        simp at hnonempty
      · cases hids
  | oaiFailure status body => cases hids
  | geminiBody body => cases hids
  | geminiStream body => cases hids

theorem callId_ne_empty (uuid : Nat → String) (n : Nat) : callId uuid n ≠ "" := by
  simp [callId]

theorem callId_inj {uuid : Nat → String} {n m : Nat} :
    callId uuid n = callId uuid m ↔ uuid n = uuid m := by
  refine ⟨fun heq => ?_, fun heq => by rw [callId, callId, heq]⟩
  have hlist := congrArg String.toList heq
  rw [callId, callId, String.toList_append, String.toList_append] at hlist
  exact String.toList_injective (List.append_cancel_left hlist)

/-- **The contract between the drivers and the loop.** Over a run of any replies, to a provider
that gives no id to two calls, the calls of every response are those of its content, its stop
reason tells of them unless the length cut it, and no id is returned twice, if and only if every
reply is consistent with its finish reason and at most one call was sent without an id. -/
theorem contract_kept_iff (lib : Library) (decoders : Decoders) (uuid : Nat → String)
    (replies : List Reply)
    (huuid : Set.InjOn uuid {n | n < takenAfter lib decoders uuid 0 replies})
    (hown : (replies.flatMap (Reply.sentIds lib decoders)).Pairwise List.Disjoint)
    (hfresh : ∀ n < takenAfter lib decoders uuid 0 replies,
      ∀ ids ∈ replies.flatMap (Reply.sentIds lib decoders), callId uuid n ∉ ids) :
    ContractKept lib decoders (answers lib decoders uuid 0 replies) ↔
      (∀ reply ∈ replies, reply.Consistent lib decoders) ∧
        (replies.flatMap (Reply.sentIds lib decoders)).count [] ≤ 1 := by
  have hempty : ∀ ids ∈ replies.flatMap (Reply.sentIds lib decoders), "" ∉ ids := by
    intro ids hids
    obtain ⟨reply, -, hreply⟩ := List.mem_flatMap.mp hids
    exact empty_notMem_sentIds lib decoders reply ids hreply
  -- Once every reply is consistent, the ids of the run are known.
  have hids : (∀ reply ∈ replies, reply.Consistent lib decoders) →
      (((answers lib decoders uuid 0 replies).flatMap fun answer => callIds answer.2).Nodup ↔
        (replies.flatMap (Reply.sentIds lib decoders)).count [] ≤ 1) := by
    intro hconsistent
    obtain ⟨made, hmade, -, hbound, hperm⟩ := answers_ids lib decoders uuid 0 hconsistent
    have hmadeIds : (made.map (callId uuid)).Nodup :=
      hmade.map_on fun n hn m hm heq =>
        huuid (hbound n hn).2 (hbound m hm).2 (callId_inj.mp heq)
    have hapart : ∀ id ∈ (replies.flatMap (Reply.sentIds lib decoders)).map chosenId,
        ∀ id' ∈ made.map (callId uuid), id ≠ id' := by
      intro id hid id' hid' heq
      obtain ⟨ids, hsent, rfl⟩ := List.mem_map.mp hid
      obtain ⟨n, hn, rfl⟩ := List.mem_map.mp hid'
      by_cases hnil : ids = []
      · rw [hnil] at heq
        exact callId_ne_empty uuid n heq.symm
      · exact hfresh n (hbound n hn).2 ids hsent (heq ▸ chosenId_mem hnil)
    rw [hperm.nodup_iff, ← nodup_chosenId_iff hown hempty, List.nodup_append]
    exact ⟨fun h => h.1, fun h => ⟨h, hmadeIds, hapart⟩⟩
  constructor
  · intro hkept
    have hconsistent := (answers_agree_iff lib decoders uuid 0 replies).mp hkept.agrees
    exact ⟨hconsistent, (hids hconsistent).mp hkept.ids⟩
  · rintro ⟨hconsistent, hcount⟩
    exact ⟨(answers_agree_iff lib decoders uuid 0 replies).mpr hconsistent,
      (hids hconsistent).mpr hcount⟩

/-! ### A call in a stream of Gemini, and one in a body -/

namespace Sample

/-- A Gemini reply with one call; `STOP` is what it ends with. -/
def callJson : String :=
  "\x7b\"candidates\":[\x7b\"content\":\x7b\"parts\":[\x7b\"functionCall\":" ++
    "\x7b\"name\":\"now\",\"args\":\x7b\x7d\x7d\x7d]\x7d,\"finishReason\":\"STOP\"\x7d]\x7d"

@[inherit_doc callJson] def callResponse : GeminiResponse :=
  ⟨[⟨some [.functionCall "now" (.obj []) none], some "STOP"⟩], none⟩

/-- An OpenAI reply with one call. -/
def bodyJson : String :=
  "\x7b\"choices\":[\x7b\"message\":\x7b\"tool_calls\":[\x7b\"id\":\"a1\",\"type\":\"function\"," ++
    "\"function\":\x7b\"name\":\"now\",\"arguments\":\"\x7b\x7d\"\x7d\x7d]\x7d," ++
    "\"finish_reason\":\"tool_calls\"\x7d]\x7d"

@[inherit_doc bodyJson] def bodyResponse : OaiResponse :=
  ⟨[⟨⟨none, some [⟨"a1", "function", "now", "\x7b\x7d"⟩], none⟩, some "tool_calls"⟩], none⟩

/-- What these replies parse to, -/
def decoders : Decoders where
  oaiResponse _ := .ok bodyResponse
  geminiResponse _ := .ok callResponse

/-- and the arguments of the calls. -/
def library : Library where
  sha256Hex := id
  jsonToString _ := "\x7b\x7d"
  jsonFromStr _ := some (.obj [])
  toLowercase := id

/-- The first two UUIDs. -/
def uuid (n : Nat) : String :=
  if n = 0 then "6f1d2c3b4a5948678796a5b4c3d2e1f0" else "0f1e2d3c4b5a49688776655443322110"

theorem uuid_injOn : Set.InjOn uuid {n | n < 2} := by
  intro n hn m hm heq
  rcases Nat.lt_succ_iff_lt_or_eq.mp hn with hn | rfl <;>
    rcases Nat.lt_succ_iff_lt_or_eq.mp hm with hm | rfl
  · omega
  · obtain rfl : n = 0 := by omega
    simp [uuid] at heq
  · obtain rfl : m = 0 := by omega
    simp [uuid] at heq
  · rfl

/-- The stream with the call in it. -/
def callStream : ByteStream := ⟨[Utf8.encode ("data: " ++ callJson ++ "\n").toList], none⟩

theorem callStream_events : geminiEvents decoders callStream.chunks = [callResponse] := by
  rw [geminiEvents, callStream, List.map_singleton, Utf8.fromUtf8Lossy_encode]
  decide +kernel

end Sample

/-- The call of the stream is returned with `EndTurn`. -/
theorem streamed_call_ends_turn : ¬ ∀ (lib : Library) (decoders : Decoders)
    (uuid : Nat → String) (replies : List Reply),
    Set.InjOn uuid {n | n < takenAfter lib decoders uuid 0 replies} →
    (replies.flatMap (Reply.sentIds lib decoders)).Pairwise List.Disjoint →
    (∀ n < takenAfter lib decoders uuid 0 replies,
      ∀ ids ∈ replies.flatMap (Reply.sentIds lib decoders), callId uuid n ∉ ids) →
    ContractKept lib decoders (answers lib decoders uuid 0 replies) := by
  intro h
  have htaken : takenAfter Sample.library Sample.decoders Sample.uuid 0
      [.geminiStream Sample.callStream] = 2 := by
    simp only [takenAfter, Reply.answer, geminiStreamResponse, geminiAccumulate_eq,
      Sample.callStream_events]
    rfl
  have hkept := h Sample.library Sample.decoders Sample.uuid [.geminiStream Sample.callStream]
    (htaken ▸ Sample.uuid_injOn) .nil (fun _ _ ids hids => absurd hids List.not_mem_nil)
  have hconsistent := (answers_agree_iff _ _ _ _ _).mp hkept.agrees _ List.mem_cons_self
  simp only [Reply.Consistent, Reply.finishReason, Sample.callStream_events] at hconsistent
  exact absurd (hconsistent rfl (.inl rfl)) (by decide)

theorem contract_kept_iff_bodies :
    ContractKept Sample.library Sample.decoders
      (answers Sample.library Sample.decoders Sample.uuid 0
        [.oaiBody Sample.bodyJson, .geminiBody Sample.callJson]) := by
  have htaken : takenAfter Sample.library Sample.decoders Sample.uuid 0
      [.oaiBody Sample.bodyJson, .geminiBody Sample.callJson] = 1 := by
    simp [takenAfter, Reply.answer, geminiCompleteResponse, convertResponse, Sample.decoders,
      Sample.callResponse, GeminiContent.pushPart]
  have hsent : [Reply.oaiBody Sample.bodyJson, .geminiBody Sample.callJson].flatMap
      (Reply.sentIds Sample.library Sample.decoders) = [["a1"]] := by
    simp [Reply.sentIds, bodyChoice?, Sample.decoders, Except.toOption, Sample.bodyResponse]
  have huuid : Set.InjOn Sample.uuid {n | n < takenAfter Sample.library Sample.decoders
      Sample.uuid 0 [.oaiBody Sample.bodyJson, .geminiBody Sample.callJson]} := by
    rw [htaken]
    exact Sample.uuid_injOn.mono fun n hn => Nat.lt_succ_of_lt hn
  have hiff := contract_kept_iff Sample.library Sample.decoders Sample.uuid
    [.oaiBody Sample.bodyJson, .geminiBody Sample.callJson] huuid
    (by rw [hsent]; exact List.pairwise_singleton _ _)
    (by rw [htaken, hsent]; decide)
  rw [hsent] at hiff
  refine hiff.mpr ⟨?_, by decide⟩
  intro reply hreply
  rcases List.mem_pair.mp hreply with rfl | rfl
  · intro hstop
    simp [Reply.finishReason, bodyChoice?, Sample.decoders, Except.toOption,
      Sample.bodyResponse] at hstop
  · exact trivial

end ArmaraOS.Drivers
