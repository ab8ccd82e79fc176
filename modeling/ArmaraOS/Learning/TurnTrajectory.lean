import ArmaraOS.Learning.ProposalLedger
import ArmaraOS.Lib.ByteSlices
import ArmaraOS.Lib.Fallible
import ArmaraOS.Memory.ProcedureArtifacts

/-!
What a turn leaves behind as a trajectory (`trajectory_steps_for_runtime_turn` in
`ainl-runtime/src/runtime.rs`, with the types of `ainl-contracts/src/learner.rs`).

The output of a patch adapter is kept as a preview of its JSON text, which is cut at a byte. The cut
panics where that byte stands inside a character, so a turn is recorded exactly when no output is
too long and has such a character there.
-/

namespace ArmaraOS.Learning

open ArmaraOS.Lib ArmaraOS.Text

/-! ### Steps -/

/-- `CognitiveVitals`, as far as it is read. -/
structure CognitiveVitals where
  trust : ℚ

/-- `TrajectoryStep`. -/
structure TrajectoryStep where
  stepId : String
  timestampMs : Int
  adapter : String
  operation : String
  inputsPreview : Option String := none
  outputsPreview : Option String := none
  durationMs : Nat := 0
  success : Bool := true
  error : Option String := none
  vitals : Option CognitiveVitals := none
  freshnessAtStep : Option ContextFreshness := none
  frameVars : Option Json := none
  toolTelemetry : Option Json := none

/-- `PatchDispatchResult`, as far as it is read. -/
structure PatchDispatchResult where
  label : String
  dispatched : Bool
  adapterOutput : Option Json
  adapterName : Option String
  dispatchDurationMs : Nat

/-- `TRAJECTORY_PREVIEW_MAX`. -/
def trajectoryPreviewMax : Nat := 512

/-- `truncate_trajectory_preview`; `none` where it panics. -/
def truncateTrajectoryPreview (s : String) : Option String :=
  if byteLength s.toList ≤ trajectoryPreviewMax then some s
  else (truncate trajectoryPreviewMax s.toList).map fun t => String.ofList (t ++ ['…'])

/-- Whether a patch ran, and the error of one that did not. -/
def dispatchOutcome (r : PatchDispatchResult) : Bool × Option String :=
  if r.dispatched then
    if r.adapterOutput.isSome then (true, none)
    else if r.adapterName.isSome then (false, some "adapter_execute_patch_failed")
    else (true, none)
  else (true, none)

section Turn

variable (toText : Json → Option String)

/-- The JSON text of what an adapter returned; `serde_json::to_string` is a parameter. -/
def outputText (r : PatchDispatchResult) : Option String := r.adapterOutput.bind toText

/-- The step of a patch; `none` where its preview panics. -/
def patchStep (baseMs : Int) (r : PatchDispatchResult) (i : Nat) : Option TrajectoryStep :=
  ((outputText toText r).mapM truncateTrajectoryPreview).map fun outputsPreview =>
    { stepId := "patch_" ++ toString i
      timestampMs := baseMs + i
      adapter := r.adapterName.getD "patch"
      operation := if r.label.isEmpty then "procedural_patch" else r.label
      outputsPreview := outputsPreview
      durationMs := r.dispatchDurationMs
      success := (dispatchOutcome r).1
      error := (dispatchOutcome r).2 }

/-- The step of a tool. -/
def toolStep (toolBase : Int) (name : String) (i : Nat) : TrajectoryStep where
  stepId := "tool_" ++ toString i
  timestampMs := toolBase + i
  adapter := "builtin"
  operation := name

/-- `trajectory_steps_for_runtime_turn`, at the time `baseMs`; `none` where it panics. -/
def trajectoryStepsForRuntimeTurn (baseMs : Int) (patchResults : List PatchDispatchResult)
    (toolsCanonical : List String) : Option (List TrajectoryStep) :=
  (patchResults.zipIdx.mapM fun p => patchStep toText baseMs p.1 p.2).map fun steps =>
    let toolBase := baseMs + patchResults.length
    steps ++ toolsCanonical.zipIdx.map fun p => toolStep toolBase p.1 p.2

end Turn

/-! ### Previews -/

/-- The whole of a text, or its front within the limit and an ellipsis. -/
def IsPreview (source preview : String) : Prop :=
  ∃ front, front <+: source.toList ∧ byteLength front ≤ trajectoryPreviewMax ∧
    (preview.toList = front ∧ front = source.toList ∨ preview.toList = front ++ ['…'])

/-- A text is within the limit, or has no character across it. -/
def CutsCleanly (text : String) : Prop :=
  byteLength text.toList ≤ trajectoryPreviewMax ∨
    isCharBoundary trajectoryPreviewMax text.toList = true

theorem truncateTrajectoryPreview_of_clean {text : String} (h : CutsCleanly text) :
    ∃ preview, truncateTrajectoryPreview text = some preview ∧ IsPreview text preview := by
  by_cases hshort : byteLength text.toList ≤ trajectoryPreviewMax
  · refine ⟨text, if_pos hshort, text.toList, List.prefix_rfl, hshort, .inl ⟨rfl, rfl⟩⟩
  · obtain ⟨front, behind, htext, hbytes⟩ := isCharBoundary_iff.mp (h.resolve_left hshort)
    have hcut : truncate trajectoryPreviewMax text.toList = some front := by
      rw [truncate, if_pos (Nat.le_of_not_le hshort), htext, ← hbytes, splitAtByte_append]
      rfl
    refine ⟨String.ofList (front ++ ['…']), ?_, front, ⟨behind, htext.symm⟩, hbytes.le, .inr ?_⟩
    · rw [truncateTrajectoryPreview, if_neg hshort, hcut]
      rfl
    · exact String.toList_ofList

theorem truncateTrajectoryPreview_of_not_clean {text : String} (h : ¬ CutsCleanly text) :
    truncateTrajectoryPreview text = none := by
  obtain ⟨hlong, hinside⟩ := not_or.mp h
  rw [isCharBoundary, Option.not_isSome_iff_eq_none] at hinside
  rw [truncateTrajectoryPreview, if_neg hlong, truncate, if_pos (Nat.le_of_not_le hlong), hinside]
  rfl

/-- **One preview.** It is taken exactly of the texts that are cut between two characters. -/
theorem preview_taken_iff (text : String) :
    (∃ preview, truncateTrajectoryPreview text = some preview ∧ IsPreview text preview) ↔
      CutsCleanly text := by
  refine ⟨?_, truncateTrajectoryPreview_of_clean⟩
  rintro ⟨preview, htaken, -⟩
  by_contra hnot
  rw [truncateTrajectoryPreview_of_not_clean hnot] at htaken
  cases htaken

/-! ### The steps of a turn -/

section Recorded

variable (toText : Json → Option String)

/-- Each dispatch result and each tool has its step, each output its preview, and no other step has
one. -/
structure TurnRecorded (patchResults : List PatchDispatchResult) (tools : List String)
    (steps : List TrajectoryStep) : Prop where
  length : steps.length = patchResults.length + tools.length
  previews : ∀ (i : Nat) (r : PatchDispatchResult), patchResults[i]? = some r →
    ∃ step, steps[i]? = some step ∧
      Option.Rel IsPreview (outputText toText r) step.outputsPreview
  others : ∀ (i : Nat) (step : TrajectoryStep), patchResults.length ≤ i →
    steps[i]? = some step → step.outputsPreview = none
  inputs : ∀ step ∈ steps, step.inputsPreview = none

variable {toText} {baseMs : Int} {r : PatchDispatchResult} {i : Nat} {step : TrajectoryStep}

theorem patchStep_inputs (h : patchStep toText baseMs r i = some step) :
    step.inputsPreview = none := by
  obtain ⟨preview, -, rfl⟩ := Option.map_eq_some_iff.mp h
  rfl

theorem patchStep_of_clean (h : ∀ text ∈ outputText toText r, CutsCleanly text) :
    ∃ step, patchStep toText baseMs r i = some step ∧
      Option.Rel IsPreview (outputText toText r) step.outputsPreview := by
  cases htext : outputText toText r with
  | none =>
      refine ⟨_, by rw [patchStep, htext]; rfl, ?_⟩
      exact .none
  | some text =>
      obtain ⟨preview, htaken, hpreview⟩ := truncateTrajectoryPreview_of_clean (h text htext)
      refine ⟨_, by rw [patchStep, htext, Option.mapM_some, htaken]; rfl, ?_⟩
      exact .some hpreview

theorem clean_of_patchStep (h : (patchStep toText baseMs r i).isSome = true) :
    ∀ text ∈ outputText toText r, CutsCleanly text := by
  intro text htext
  by_contra hnot
  rw [patchStep, Option.mem_def.mp htext, Option.mapM_some,
    truncateTrajectoryPreview_of_not_clean hnot] at h
  cases h

/-- The step of each dispatch result is found at its place. -/
theorem recorded_append {patchResults : List PatchDispatchResult} {tools : List String}
    {patchSteps : List TrajectoryStep} {toolBase : Int}
    (hsteps : List.Forall₂ (fun p step => patchStep toText baseMs p.1 p.2 = some step ∧
      Option.Rel IsPreview (outputText toText p.1) step.outputsPreview)
      patchResults.zipIdx patchSteps) :
    TurnRecorded toText patchResults tools
      (patchSteps ++ tools.zipIdx.map fun p => toolStep toolBase p.1 p.2) := by
  have hlength : patchSteps.length = patchResults.length := by
    rw [← hsteps.length_eq, List.length_zipIdx]
  refine ⟨?_, ?_, ?_, ?_⟩
  · rw [List.length_append, List.length_map, List.length_zipIdx, hlength]
  · intro i r hr
    obtain ⟨hi, rfl⟩ := List.getElem?_eq_some_iff.mp hr
    have hi' : i < patchSteps.length := hlength ▸ hi
    have hstep := hsteps.get (by rwa [List.length_zipIdx]) hi'
    rw [List.get_eq_getElem, List.getElem_zipIdx] at hstep
    refine ⟨patchSteps[i], ?_, hstep.2⟩
    rw [List.getElem?_append_left hi', List.getElem?_eq_getElem hi']
  · intro i step hi hstep
    rw [List.getElem?_append_right (hlength ▸ hi), List.getElem?_map] at hstep
    obtain ⟨p, -, rfl⟩ := Option.map_eq_some_iff.mp hstep
    rfl
  · intro step hstep
    rcases List.mem_append.mp hstep with hpatch | htool
    · obtain ⟨i, hi, rfl⟩ := List.getElem_of_mem hpatch
      exact patchStep_inputs (hsteps.get (hsteps.length_eq ▸ hi) hi).1
    · obtain ⟨p, -, rfl⟩ := List.mem_map.mp htool
      rfl

theorem clean_of_taken {patchResults : List PatchDispatchResult} {tools : List String}
    {steps : List TrajectoryStep}
    (h : trajectoryStepsForRuntimeTurn toText baseMs patchResults tools = some steps) :
    ∀ r ∈ patchResults, ∀ text ∈ outputText toText r, CutsCleanly text := by
  intro r hr
  obtain ⟨patchSteps, hpatch, -⟩ := Option.map_eq_some_iff.mp h
  obtain ⟨i, hi⟩ := List.getElem?_of_mem hr
  have hall := isSome_mapM_iff.mp (Option.isSome_iff_exists.mpr ⟨patchSteps, hpatch⟩)
  exact clean_of_patchStep (hall (r, i) (List.mem_zipIdx_iff_getElem?.mpr hi))

theorem taken_of_clean {patchResults : List PatchDispatchResult} (tools : List String)
    (h : ∀ r ∈ patchResults, ∀ text ∈ outputText toText r, CutsCleanly text) :
    ∃ steps, trajectoryStepsForRuntimeTurn toText baseMs patchResults tools = some steps ∧
      TurnRecorded toText patchResults tools steps := by
  have hstep : ∀ p ∈ patchResults.zipIdx, ∃ step, patchStep toText baseMs p.1 p.2 = some step ∧
      Option.Rel IsPreview (outputText toText p.1) step.outputsPreview := by
    intro p hp
    exact patchStep_of_clean (h p.1 (List.fst_mem_of_mem_zipIdx hp))
  obtain ⟨patchSteps, hpatch, hsteps⟩ := exists_mapM_some hstep
  exact ⟨_, by rw [trajectoryStepsForRuntimeTurn, hpatch]; rfl, recorded_append hsteps⟩

end Recorded

/-- For every dispatch results, tools, time and JSON text: the turn is recorded, each output with
its preview, exactly when every output has at most 512 bytes of text or no character across byte
512. A text by itself has its preview exactly then. -/
theorem turn_recorded_iff (toText : Json → Option String) (baseMs : Int)
    (patchResults : List PatchDispatchResult) (tools : List String) :
    ((∃ steps, trajectoryStepsForRuntimeTurn toText baseMs patchResults tools = some steps ∧
        TurnRecorded toText patchResults tools steps) ↔
      ∀ r ∈ patchResults, ∀ text ∈ outputText toText r, CutsCleanly text) ∧
    ∀ text, (∃ preview, truncateTrajectoryPreview text = some preview ∧ IsPreview text preview) ↔
      CutsCleanly text := by
  refine ⟨⟨?_, taken_of_clean tools⟩, preview_taken_iff⟩
  rintro ⟨steps, hsteps, -⟩
  exact clean_of_taken hsteps

/-- The JSON text of a string that needs no escapes. -/
def quotedText : Json → Option String
  | .str s => some ("\"" ++ s ++ "\"")
  | _ => none

/-- An adapter returned a text of 510 letters and one accented letter. -/
def accentedResult : PatchDispatchResult where
  label := "lint"
  dispatched := true
  adapterOutput := some (.str (String.ofList (List.replicate 510 'a' ++ ['é'])))
  adapterName := some "linter"
  dispatchDurationMs := 7

theorem toList_accented (cs : List Char) :
    ("\"" ++ String.ofList (cs ++ ['é']) ++ "\"").toList = ('"' :: cs) ++ 'é' :: ['"'] := by
  rw [String.toList_append, String.toList_append, @String.toList_ofList (cs ++ ['é']),
    List.append_assoc, List.append_assoc]
  rfl

/-- Its JSON text has the accented letter at the bytes 511 and 512. -/
theorem accented_result_panics : ¬ ∀ (toText : Json → Option String) (baseMs : Int)
    (patchResults : List PatchDispatchResult) (tools : List String),
    ∃ steps, trajectoryStepsForRuntimeTurn toText baseMs patchResults tools = some steps ∧
      TurnRecorded toText patchResults tools steps := by
  intro h
  obtain ⟨steps, hsteps, -⟩ := h quotedText 0 [accentedResult] []
  have hclean := clean_of_taken hsteps accentedResult (List.mem_singleton.mpr rfl) _ rfl
  have hbytes : byteLength ('"' :: List.replicate 510 'a') = 511 := by
    rw [byteLength_of_ascii, List.length_cons, List.length_replicate]
    intro c hc
    rcases List.mem_cons.mp hc with rfl | hc
    · rfl
    · rw [List.eq_of_mem_replicate hc]
      rfl
  rw [CutsCleanly, toList_accented, byteLength_append, hbytes] at hclean
  rcases hclean with hshort | hboundary
  · exact absurd hshort (by decide)
  · rw [not_isCharBoundary_within (by rw [hbytes]; decide) (by rw [hbytes]; decide)] at hboundary
    cases hboundary

end ArmaraOS.Learning
