import ArmaraOS.Drivers.Contract
import ArmaraOS.Drivers.ThinkTags
import ArmaraOS.Lib.Affix
import ArmaraOS.Lib.ByteSlices

/-!
The answer that `stream` of the OpenAI driver shows while it reads, and the one that it returns
(`openfang-runtime/src/drivers/openai.rs`).

What is shown passes the think filter. What is returned is extracted from the whole text, and where
nothing but thinking is left, from the last paragraph of that, cut at a byte. The two are the same
answer where the text is clean and the cut, if there is one, falls between two characters.
-/

namespace ArmaraOS.Drivers

open ArmaraOS.Agent ArmaraOS.Lib ArmaraOS.Lib.Framing ArmaraOS.Runtime ArmaraOS.Text

/-! ### Reading and showing -/

/-- What the loop of `stream` keeps, with what it has sent of the content. -/
structure OaiSession where
  accum : OaiAccum := {}
  thinkFilter : StreamingThinkFilter := .new
  sent : List FilterAction := []

/-- The content of a choice. -/
def choiceText (choice : Json) : String := (((choice.field "delta").field "content").asStr).getD ""

/-- The separate reasoning of a choice. -/
def choiceReasoning (choice : Json) : String :=
  let delta := choice.field "delta"
  (((delta.field "reasoning_content").asStr).orElse fun _ =>
    (delta.field "reasoning").asStr).getD ""

/-- One choice: its content goes through the filter, unless it is empty. -/
def OaiSession.pushChoice (st : OaiSession) (choice : Json) : OaiSession :=
  let (actions, thinkFilter) :=
    if (choiceText choice).isEmpty then ([], st.thinkFilter)
    else st.thinkFilter.process (choiceText choice).toList
  ⟨st.accum.pushChoice choice, thinkFilter, st.sent ++ actions⟩

/-- One event. -/
def OaiSession.pushEvent (st : OaiSession) (event : Json) : OaiSession :=
  (eventChoices event).foldl OaiSession.pushChoice
    { st with accum := st.accum.pushUsage event }

/-- One line. -/
def OaiSession.pushLine (lib : Library) (st : OaiSession) (line : List Char) : OaiSession :=
  match oaiEvent? lib line with
  | none => st
  | some event => st.pushEvent event

/-- What `stream` keeps and has sent when its body has ended. -/
def oaiSession (lib : Library) (chunks : List (List UInt8)) : OaiSession :=
  (lineFraming.readChunks (OaiSession.pushLine lib) {} (chunks.map Utf8.fromUtf8Lossy)).2

/-- The text deltas of a session, with those of the flush. -/
def OaiSession.shown (st : OaiSession) : List Char :=
  (Split.ofActions (st.sent ++ st.thinkFilter.flush.1)).visible

/-- The content of the events. -/
def contentText (events : List Json) : List Char :=
  (eventsChoices events).flatMap fun choice => (choiceText choice).toList

/-- A choice without separate reasoning and tool calls. -/
def PlainChoice (choice : Json) : Prop :=
  choiceReasoning choice = "" ∧ choiceCalls choice = []

instance : DecidablePred PlainChoice := fun choice =>
  inferInstanceAs (Decidable (choiceReasoning choice = "" ∧ choiceCalls choice = []))

/-- `stream` returns a response, and the text that it has shown is the text of that, unless it is
blank. -/
def StoresShown (lib : Library) (chunks : List (List UInt8)) : Prop :=
  ∃ response, oaiStreamResponse lib ⟨chunks, none⟩ = some (.ok response) ∧
    (trimmed (oaiSession lib chunks).shown ≠ [] →
      response.content.filterMap CompletionResponse.blockText =
        [String.ofList (trimmed (oaiSession lib chunks).shown)])

/-! ### The text that is shown -/

/-- A session has shown, or still holds, what the filter makes of a text. -/
def Shows (st : OaiSession) (text : List Char) : Prop :=
  cutAt (StreamingThinkFilter.awaited st.thinkFilter.insideThink) st.thinkFilter.pending = none ∧
    ∀ more, Split.ofActions st.sent ++
      referenceSplit st.thinkFilter.insideThink (st.thinkFilter.pending ++ more) =
        referenceSplit false (text ++ more)

section Session

variable {st : OaiSession} {text : List Char}

theorem Shows.pushChoice (h : Shows st text) (choice : Json) :
    Shows (st.pushChoice choice) (text ++ (choiceText choice).toList) := by
  unfold OaiSession.pushChoice
  split
  rename_i actions thinkFilter hfilter
  split at hfilter
  · rename_i hempty
    cases hfilter
    have hnil : (choiceText choice).toList = [] := by
      rw [String.toList_eq_nil_iff]
      exact String.isEmpty_iff.mp hempty
    rw [hnil, List.append_nil, List.append_nil]
    exact h
  · have hprocess := (Prod.mk.inj hfilter)
    refine ⟨?_, fun more => ?_⟩
    · rw [← hprocess.2]
      exact StreamingThinkFilter.processLoop_settled _ _
    · have hone := StreamingThinkFilter.referenceSplit_processLoop st.thinkFilter.insideThink
        (st.thinkFilter.pending ++ (choiceText choice).toList) more
      rw [List.append_assoc] at hone
      rw [List.append_assoc, ← h.2, hone, ← Split.append_assoc, ← Split.ofActions_append,
        ← hprocess.1, ← hprocess.2]

theorem Shows.pushEvent (h : Shows st text) (event : Json) :
    Shows (st.pushEvent event) (text ++ contentText [event]) := by
  have hfold : ∀ (choices : List Json) (st : OaiSession) (text : List Char), Shows st text →
      Shows (choices.foldl OaiSession.pushChoice st)
        (text ++ choices.flatMap fun choice => (choiceText choice).toList) := by
    intro choices
    induction choices with
    | nil =>
        intro st text h
        rwa [List.flatMap_nil, List.append_nil]
    | cons choice choices ih =>
        intro st text h
        rw [List.flatMap_cons, ← List.append_assoc]
        exact ih _ _ (h.pushChoice choice)
  have hone : contentText [event] =
      (eventChoices event).flatMap fun choice => (choiceText choice).toList := by
    rw [contentText, eventsChoices, List.flatMap_cons, List.flatMap_nil, List.append_nil]
  rw [hone]
  exact hfold _ _ _ h

end Session

theorem contentText_cons (event : Json) (events : List Json) :
    contentText (event :: events) = contentText [event] ++ contentText events := by
  simp only [contentText, eventsChoices, List.flatMap_cons, List.flatMap_nil, List.append_nil,
    List.flatMap_append]

theorem oaiSession_eq (lib : Library) (chunks : List (List UInt8)) :
    oaiSession lib chunks = (oaiEvents lib chunks).foldl OaiSession.pushEvent {} := by
  have hread := @Framing.readChunks_eq_readItems Char OaiSession lineFraming Json (oaiEvent? lib)
    OaiSession.pushEvent (OaiSession.pushLine lib)
    (fun st line => by unfold OaiSession.pushLine; cases oaiEvent? lib line <;> rfl) {}
    (chunks.map Utf8.fromUtf8Lossy)
  rw [oaiSession, hread]
  rfl

/-- What is shown is the visible text of the content. -/
theorem oaiSession_shown (lib : Library) (chunks : List (List UInt8)) :
    (oaiSession lib chunks).shown = shownText (contentText (oaiEvents lib chunks)) := by
  have hfold : ∀ (events : List Json) (st : OaiSession) (text : List Char), Shows st text →
      Shows (events.foldl OaiSession.pushEvent st) (text ++ contentText events) := by
    intro events
    induction events with
    | nil =>
        intro st text h
        simpa [contentText, eventsChoices] using h
    | cons event events ih =>
        intro st text h
        rw [contentText_cons, ← List.append_assoc]
        exact ih _ _ (h.pushEvent event)
  have hstart : Shows {} [] := ⟨by decide, fun more => rfl⟩
  obtain ⟨hsettled, hshows⟩ := hfold (oaiEvents lib chunks) {} [] hstart
  have hall := hshows []
  rw [← oaiSession_eq] at hsettled hall
  rw [List.append_nil, List.append_nil, List.nil_append, referenceSplit_of_none hsettled] at hall
  rw [← referenceSplit_visible, ← hall, OaiSession.shown, Split.ofActions_append,
    StreamingThinkFilter.flush, Split.ofActions_emit]

/-! ### The text that is stored -/

/-- The texts of the response for a content without separate reasoning and calls; `none` where the
code panics. -/
def storedTexts (text : String) : Option (List String) :=
  let (cleaned, thinking) := extractThinkTags text
  if cleaned.isEmpty then
    match thinking with
    | none => some []
    | some thinking => (extractThinkingSummary thinking).map fun summary => [summary]
  else some [cleaned]

theorem extractThinkTags_empty : extractThinkTags "" = ("", none) := by
  have hloop : thinkLoop [] [] = ([], []) := thinkLoop_absent (nextThinkBlock_plain rfl)
  rw [extractThinkTags, String.toList_empty, hloop]
  rfl

theorem finish_texts (lib : Library) {st : OaiAccum} (hreasoning : st.reasoningContent = "")
    (hcalls : st.toolAccum = []) :
    (st.finish lib).map (fun response => response.content.filterMap CompletionResponse.blockText) =
      storedTexts st.textContent := by
  unfold OaiAccum.finish storedTexts assemble spokenBlocks
  rw [hreasoning, hcalls]
  cases hempty : st.textContent.isEmpty with
  | true =>
      rw [String.isEmpty_iff.mp hempty, extractThinkTags_empty]
      rfl
  | false =>
      cases hextract : extractThinkTags st.textContent with
      | mk cleaned thinking =>
          cases hcleaned : cleaned.isEmpty with
          | false =>
              cases thinking with
              | none => simp [hcleaned, synthesizedBlocks, CompletionResponse.blockText]
              | some thinking =>
                  simp only [hcleaned, synthesizedBlocks]
                  rfl
          | true =>
              cases thinking with
              | none => simp [hcleaned, synthesizedBlocks]
              | some thinking =>
                  cases hsummary : extractThinkingSummary thinking with
                  | none => simp [hcleaned, synthesizedBlocks, CompletionResponse.blockText,
                      thinking?, hsummary]
                  | some summary =>
                      simp [hcleaned, synthesizedBlocks, CompletionResponse.blockText, thinking?,
                        hsummary]
                      rfl

/-- The last paragraph of a thinking text. -/
def lastParagraph (thinking : List Char) : Option (List Char) :=
  (((paragraphBreak.pieces (trimmed thinking)).map trimmed).filter (!·.isEmpty)).getLast?

/-- A paragraph is short, or can be cut to its last 2000 bytes. -/
def Cuttable (paragraph : List Char) : Prop :=
  byteLength paragraph ≤ 2000 ∨ ∃ tail, tail <:+ paragraph ∧ byteLength tail = 2000

theorem byteLength_le_of_suffix {cs ds : List Char} (h : cs <:+ ds) :
    byteLength cs ≤ byteLength ds :=
  @room_le_of_suffix Char Char.utf8Size cs ds h

theorem lastBytes_isSome {n : Nat} (hn : 4 ≤ n) {cs : List Char} (h : n < byteLength cs) :
    (lastBytes n cs).isSome = true ↔ ∃ tail, tail <:+ cs ∧ byteLength tail = n := by
  induction cs with
  | nil => exact absurd h (Nat.not_lt_zero n)
  | cons c cs ih =>
      have hlater : ∀ {tail}, byteLength tail = n → (tail <:+ c :: cs ↔ tail <:+ cs) := by
        intro tail htail
        rw [List.suffix_cons_iff, or_iff_right]
        rintro rfl
        omega
      have hthere : (∃ tail, tail <:+ c :: cs ∧ byteLength tail = n) ↔
          ∃ tail, tail <:+ cs ∧ byteLength tail = n :=
        exists_congr fun tail => and_congr_left fun htail => hlater htail
      rw [lastBytes, if_neg (by omega), if_neg (by omega), hthere]
      rcases Nat.lt_trichotomy n (byteLength cs) with hlonger | hsame | hshorter
      · exact ih hlonger
      · refine iff_of_true ?_ ⟨cs, List.suffix_rfl, hsame.symm⟩
        cases cs with
        | nil => rfl
        | cons d cs => rw [lastBytes, if_pos hsame.symm]; rfl
      · refine iff_of_false ?_ ?_
        · have hsize := Char.utf8Size_le_four c
          rw [byteLength_cons] at h
          cases cs with
          | nil =>
              have hnil : byteLength [] = 0 := rfl
              omega
          | cons d cs =>
              rw [lastBytes, if_neg (by omega), if_pos hshorter]
              simp
        · rintro ⟨tail, htail, hlen⟩
          have hle := byteLength_le_of_suffix htail
          omega

/-- The summary of a thinking text panics where its last paragraph is to be cut inside a
character. -/
theorem extractThinkingSummary_isSome (thinking : String) :
    (extractThinkingSummary thinking).isSome = true ↔
      ∀ last ∈ lastParagraph thinking.toList, Cuttable last := by
  unfold extractThinkingSummary
  dsimp only
  split
  · rename_i hblank
    refine iff_of_true rfl ?_
    have hnil : trimmed thinking.toList = [] := List.isEmpty_iff.mp hblank
    rw [lastParagraph, hnil]
    exact fun last h => by cases h
  · have hparagraphs : (((paragraphBreak.pieces (trimChars isWhitespace thinking.toList)).map
        (trimChars isWhitespace)).filter (!·.isEmpty)).getLast? =
          lastParagraph thinking.toList := rfl
    rw [hparagraphs]
    cases lastParagraph thinking.toList with
    | none => exact iff_of_true rfl fun last h => by cases h
    | some last =>
        dsimp only
        split
        · rename_i hshort
          refine iff_of_true rfl fun last' h => ?_
          cases h
          exact .inl hshort
        · rename_i hlong
          rw [Option.isSome_map, lastBytes_isSome (by omega) (by omega)]
          constructor
          · intro h last' hlast
            cases hlast
            exact .inr h
          · intro h
            exact (h last rfl).resolve_left hlong

/-! ### What is accumulated -/

section Accumulated

variable {events : List Json} {st : OaiAccum}

theorem pushChoice_text (st : OaiAccum) (choice : Json) :
    (st.pushChoice choice).textContent = st.textContent ++ choiceText choice ∧
      (st.pushChoice choice).reasoningContent = st.reasoningContent ++ choiceReasoning choice :=
  ⟨rfl, rfl⟩

theorem pushUsage_text (st : OaiAccum) (event : Json) :
    (st.pushUsage event).textContent = st.textContent ∧
      (st.pushUsage event).reasoningContent = st.reasoningContent := by
  unfold OaiAccum.pushUsage
  split <;> exact ⟨rfl, rfl⟩

theorem choices_text (choices : List Json) (st : OaiAccum)
    (hplain : ∀ choice ∈ choices, PlainChoice choice) :
    (choices.foldl OaiAccum.pushChoice st).textContent.toList =
        st.textContent.toList ++ choices.flatMap (fun choice => (choiceText choice).toList) ∧
      (choices.foldl OaiAccum.pushChoice st).reasoningContent = st.reasoningContent := by
  induction choices generalizing st with
  | nil => simp
  | cons choice choices ih =>
      obtain ⟨hchoice, hrest⟩ := List.forall_mem_cons.mp hplain
      obtain ⟨htext, hreasoning⟩ := ih (st.pushChoice choice) hrest
      rw [List.foldl_cons, htext, hreasoning, (pushChoice_text st choice).1,
        (pushChoice_text st choice).2, hchoice.1, String.toList_append, List.flatMap_cons,
        List.append_assoc, String.append_empty]
      exact ⟨rfl, rfl⟩

/-- The text that is accumulated is the content of the events. -/
theorem events_text (events : List Json) (st : OaiAccum)
    (hplain : ∀ choice ∈ eventsChoices events, PlainChoice choice) :
    (events.foldl OaiAccum.pushEvent st).textContent.toList =
        st.textContent.toList ++ contentText events ∧
      (events.foldl OaiAccum.pushEvent st).reasoningContent = st.reasoningContent := by
  induction events generalizing st with
  | nil => simp [contentText, eventsChoices]
  | cons event events ih =>
      have hhere : ∀ choice ∈ eventChoices event, PlainChoice choice := fun choice h =>
        hplain choice (List.mem_flatMap.mpr ⟨event, List.mem_cons_self, h⟩)
      have hlater : ∀ choice ∈ eventsChoices events, PlainChoice choice := by
        intro choice h
        obtain ⟨event', hevent', hchoice⟩ := List.mem_flatMap.mp h
        exact hplain choice
          (List.mem_flatMap.mpr ⟨event', List.mem_cons_of_mem _ hevent', hchoice⟩)
      obtain ⟨htext, hreasoning⟩ := ih (st.pushEvent event) hlater
      obtain ⟨htext', hreasoning'⟩ := choices_text (eventChoices event) (st.pushUsage event) hhere
      rw [List.foldl_cons, htext, hreasoning, OaiAccum.pushEvent, htext', hreasoning',
        (pushUsage_text st event).1, (pushUsage_text st event).2, contentText, contentText,
        eventsChoices, eventsChoices, List.flatMap_cons, List.flatMap_append, List.append_assoc]
      exact ⟨rfl, rfl⟩

theorem events_calls (hplain : ∀ choice ∈ eventsChoices events, PlainChoice choice) :
    eventsDeltas events = [] := by
  rw [eventsDeltas, List.flatMap_eq_nil_iff]
  exact fun choice h => (hplain choice h).2

end Accumulated

/-! ### One answer -/

/-- All of the visible text is taken out with the blocks, and the end of the thoughts happens to
read like it. -/
def Swallowed (text : List Char) : Prop :=
  trimmed (shownText text) ≠ [] ∧ trimmed (thinkLoop text []).1 = [] ∧
    ∃ thinking, (extractThinkTags (String.ofList text)).2 = some thinking ∧
      extractThinkingSummary thinking = some (String.ofList (trimmed (shownText text)))

/-- The thoughts of a text that shows nothing can be summarized. -/
def Summarizable (text : List Char) : Prop :=
  trimmed (shownText text) = [] → storedThoughts [] text ≠ [] →
    ∀ last ∈ lastParagraph (join "\n\n" ((storedThoughts [] text).map String.ofList)).toList,
      Cuttable last

section Answer

variable {text : List Char}

/-- A text that is not clean shows something. -/
theorem shown_of_not_clean (h : ¬ Clean text) : trimmed (shownText text) ≠ [] := by
  intro hblank
  have hnone : ∀ tag : List Char, '<' ∈ tag → ¬ tag <:+: shownText text := by
    intro tag hmem hwithin
    have hfilter := filter_trimmed (shownText text)
    rw [hblank] at hfilter
    have hmark : '<' ∈ (shownText text).filter fun c => !isWhitespace c :=
      List.mem_filter.mpr ⟨hwithin.subset hmem, by decide⟩
    rw [← hfilter] at hmark
    exact List.not_mem_nil hmark
  refine h ⟨fun hclosing => hnone closeTag List.mem_cons_self ?_, hnone openTag List.mem_cons_self⟩
  exact hclosing.trans (List.prefix_append _ _).isInfix

/-- The extraction returns what is shown, as the texts of the response. -/
def AnswersShown (text : List Char) : Prop :=
  ∃ texts, storedTexts (String.ofList text) = some texts ∧
    (trimmed (shownText text) ≠ [] → texts = [String.ofList (trimmed (shownText text))])

/-- Where something is kept, that is the answer. -/
theorem storedTexts_kept (h : trimmed (thinkLoop text []).1 ≠ []) :
    storedTexts (String.ofList text) = some [String.ofList (trimmed (thinkLoop text []).1)] := by
  unfold storedTexts extractThinkTags
  rw [String.toList_ofList]
  refine if_neg fun hempty => h ?_
  rw [String.isEmpty_iff] at hempty
  exact String.ofList_eq_empty_iff.mp hempty

/-- Where nothing is kept, the answer comes from the thoughts. -/
theorem storedTexts_nothing (h : trimmed (thinkLoop text []).1 = []) :
    storedTexts (String.ofList text) =
      match (extractThinkTags (String.ofList text)).2 with
      | none => some []
      | some thinking => (extractThinkingSummary thinking).map fun summary => [summary] := by
  unfold storedTexts
  refine if_pos ?_
  rw [String.toList_ofList]
  change (String.ofList (trimmed (thinkLoop text []).1)).isEmpty = true
  rw [h]
  rfl

/-- The answer of a clean text is right exactly if its thoughts can be summarized. -/
theorem answersShown_clean (hclean : Clean text) : AnswersShown text ↔ Summarizable text := by
  have hloop : thinkLoop ([] ++ text) [] = ([] ++ shownText text, storedThoughts [] text) :=
    thinkLoop_clean hclean.closing hclean.opening
  rw [List.nil_append, List.nil_append] at hloop
  by_cases hblank : trimmed (shownText text) = []
  · have hnothing : trimmed (thinkLoop text []).1 = [] := by rw [hloop, hblank]
    have hthinking : (extractThinkTags (String.ofList text)).2 =
        if (storedThoughts [] text).isEmpty then none
        else some (join "\n\n" ((storedThoughts [] text).map String.ofList)) := by
      rw [extractThinkTags, String.toList_ofList, hloop]
    unfold AnswersShown Summarizable
    rw [storedTexts_nothing hnothing, hthinking]
    split_ifs with hnone
    · exact iff_of_true ⟨[], rfl, fun h => absurd hblank h⟩
        fun _ h => absurd (List.isEmpty_iff.mp hnone) h
    · rw [List.isEmpty_iff] at hnone
      rw [← extractThinkingSummary_isSome]
      constructor
      · rintro ⟨texts, htexts, -⟩ - -
        obtain ⟨summary, hsummary, -⟩ := Option.map_eq_some_iff.mp htexts
        exact Option.isSome_iff_exists.mpr ⟨summary, hsummary⟩
      · intro h
        obtain ⟨summary, hsummary⟩ := Option.isSome_iff_exists.mp (h hblank hnone)
        exact ⟨[summary], congrArg (Option.map fun summary => [summary]) hsummary,
          fun h => absurd hblank h⟩
  · have hkept : trimmed (thinkLoop text []).1 = trimmed (shownText text) := by rw [hloop]
    refine iff_of_true ⟨_, storedTexts_kept (hkept ▸ hblank), fun _ => by rw [hkept]⟩
      fun h => absurd h hblank

/-- The answer of any other text is right exactly if the text is swallowed. -/
theorem answersShown_not_clean (hclean : ¬ Clean text) : AnswersShown text ↔ Swallowed text := by
  have hshown := shown_of_not_clean hclean
  have hother : trimmed (thinkLoop text []).1 ≠ trimmed (shownText text) := fun heq =>
    hclean (thinkLoop_eq_iff.mp heq)
  unfold AnswersShown Swallowed
  by_cases hnothing : trimmed (thinkLoop text []).1 = []
  · rw [storedTexts_nothing hnothing]
    constructor
    · rintro ⟨texts, htexts, hanswer⟩
      refine ⟨hshown, hnothing, ?_⟩
      rw [hanswer hshown] at htexts
      cases hthinking : (extractThinkTags (String.ofList text)).2 with
      | none =>
          rw [hthinking] at htexts
          cases htexts
      | some thinking =>
          rw [hthinking] at htexts
          obtain ⟨summary, hsummary, hsame⟩ := Option.map_eq_some_iff.mp htexts
          exact ⟨thinking, rfl, hsummary.trans (congrArg some (List.cons.inj hsame).1)⟩
    · rintro ⟨-, -, thinking, hthinking, hsummary⟩
      rw [hthinking]
      exact ⟨_, congrArg (Option.map _) hsummary, fun _ => rfl⟩
  · rw [storedTexts_kept hnothing]
    refine iff_of_false ?_ fun h => hnothing h.2.1
    rintro ⟨texts, htexts, hanswer⟩
    rw [hanswer hshown] at htexts
    exact hother (String.ofList_injective (List.cons.inj (Option.some.inj htexts)).1)

end Answer

section Stream

variable {lib : Library} {chunks : List (List UInt8)}

/-- Of a stream of content alone, the response is assembled from the content. -/
theorem storesShown_iff_answersShown
    (hplain : ∀ choice ∈ eventsChoices (oaiEvents lib chunks), PlainChoice choice) :
    StoresShown lib chunks ↔ AnswersShown (contentText (oaiEvents lib chunks)) := by
  obtain ⟨htext, hreasoning⟩ := events_text (oaiEvents lib chunks) {} hplain
  have hcalls := (pushEvent_fold (oaiEvents lib chunks) {}).1
  rw [events_calls hplain, List.foldl_nil] at hcalls
  rw [← oaiAccumulate_eq] at htext hreasoning hcalls
  have hcontent : (oaiAccumulate lib chunks).textContent =
      String.ofList (contentText (oaiEvents lib chunks)) := by
    rw [← String.ofList_toList (s := (oaiAccumulate lib chunks).textContent), htext]
    rfl
  have htexts := finish_texts lib hreasoning hcalls
  rw [hcontent] at htexts
  unfold StoresShown AnswersShown
  rw [← htexts, oaiSession_shown]
  constructor
  · rintro ⟨response, hresponse, hshown⟩
    obtain ⟨response', hfinish, hsame⟩ := Option.map_eq_some_iff.mp hresponse
    cases hsame
    exact ⟨_, congrArg (Option.map _) hfinish, hshown⟩
  · rintro ⟨texts, hmap, hshown⟩
    obtain ⟨response, hfinish, rfl⟩ := Option.map_eq_some_iff.mp hmap
    exact ⟨response, congrArg (Option.map _) hfinish, hshown⟩

/-- **The stored answer.** The response of a stream of content, in whatever deltas, is assembled
without a panic and has the text that was shown, exactly if the content is clean and its thoughts
can be summarized where nothing is shown, or if it is swallowed. -/
theorem stream_stores_shown_iff (lib : Library) (chunks : List (List UInt8))
    (hplain : ∀ choice ∈ eventsChoices (oaiEvents lib chunks), PlainChoice choice) :
    StoresShown lib chunks ↔
      Clean (contentText (oaiEvents lib chunks)) ∧
          Summarizable (contentText (oaiEvents lib chunks)) ∨
        Swallowed (contentText (oaiEvents lib chunks)) := by
  rw [storesShown_iff_answersShown hplain]
  by_cases hclean : Clean (contentText (oaiEvents lib chunks))
  · rw [answersShown_clean hclean]
    constructor
    · exact fun h => .inl ⟨hclean, h⟩
    · rintro (⟨-, h⟩ | ⟨hshown, hnothing, -⟩)
      · exact h
      · have hkept := thinkLoop_eq_iff.mpr hclean
        exact absurd (hkept.symm.trans hnothing) hshown
  · rw [answersShown_not_clean hclean, or_iff_right fun h => hclean h.1]

end Stream

/-! ### A tag among the visible text -/

/-- A decoder that reads every event as one content delta. -/
def contentLibrary (content : String) : Library where
  sha256Hex s := s
  jsonToString _ := ""
  jsonFromStr _ := some (.obj [("choices",
    .arr [.obj [("delta", .obj [("content", .str content)])]])])
  toLowercase s := s

/-- The bytes of one event. -/
def oneEvent : List (List UInt8) := [Utf8.encode "data:1\n".toList]

/-- An answer behind a block is stored as it is shown. -/
theorem stream_stores_answer :
    StoresShown (contentLibrary "<think>2 + 2</think> It is 4.") oneEvent :=
  (stream_stores_shown_iff _ _ (by decide +kernel)).mpr
    (.inl ⟨⟨by decide +kernel, by decide +kernel⟩,
      fun hblank => absurd hblank (by decide +kernel)⟩)

/-- An answer that speaks of the closing tag is stored with the block behind it. -/
theorem stream_stores_block : ¬ ∀ (lib : Library) (chunks : List (List UInt8)),
    (∀ choice ∈ eventsChoices (oaiEvents lib chunks), PlainChoice choice) →
      StoresShown lib chunks := by
  intro h
  have hstores := h (contentLibrary "Write </think> last.<think>Why?</think> Done.") oneEvent
    (by decide +kernel)
  rw [storesShown_iff_answersShown (by decide +kernel), answersShown_not_clean
    fun hclean => hclean.closing (by decide +kernel)] at hstores
  exact absurd hstores.2.1 (by decide +kernel)

end ArmaraOS.Drivers
