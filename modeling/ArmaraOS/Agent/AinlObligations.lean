import ArmaraOS.Agent.Runs
import ArmaraOS.Agent.Script
import ArmaraOS.Lib.Trace

/-!
The repair obligation of the AINL gate.

A failed validate, compile or run call opens an obligation that a later `ok: true` of the
same tool, for the same path when the failed call had one, closes. The loop keeps a single
pending failure; `Covers` says which obligations it stands for. A round can lose one (it
records its first failure only, and over a failure that is still pending), so can a plan
that falls back to the loop and a given-up failure after which the loop goes on. In a turn
that meets `GateKept` at every iteration the pending failure covers all that is
outstanding (`Reaches.gateInvariant`), so a completed or silent turn has repaired every failure
(`completed_failures_repaired`). The condition on a round is on its calls and results; that the
gate records the first failure that a round reports is `recorded_of_firstFailure`.
-/

namespace ArmaraOS.Agent

open ArmaraOS.Lib ArmaraOS.Text

variable {σ : Type}

/-! ### The obligation -/

/-- What a failed gate call asks for: `ok: true` from this tool, for this path if any. -/
@[ext] structure GateFailure where
  tool : String
  path : Option String
deriving DecidableEq

/-- The executed calls of a gate tool whose result is an error, but not a wiring error. -/
def gateFailureOf (lib : Library) : Event → Option GateFailure
  | .toolFinished inv content true =>
      if isAinlAuthoringGateTool inv.tool && !toolResultIsAinlToolWiringError lib content then
        some ⟨inv.tool, pathArg inv.args⟩
      else none
  | _ => none

/-- A result of the same tool, for the same path if any, that parses as `ok: true`. -/
def repairs (lib : Library) (f : GateFailure) : Event → Bool
  | .toolFinished inv content _ =>
      inv.tool == f.tool && (f.path.isNone || pathArg inv.args == f.path) &&
        toolResultJsonOkTrue lib content
  | _ => false

/-- Every failed gate call is followed by a repair. -/
def FailuresRepaired (lib : Library) (log : List Event) : Prop :=
  Settled (gateFailureOf lib) (repairs lib) log

/-- The failures that no later result repaired. -/
def unrepaired (lib : Library) (log : List Event) : List GateFailure :=
  outstanding (gateFailureOf lib) (repairs lib) log

/-- A success that clears the pending failure `p` also repairs `f`. -/
def Covers (p : PendingAinlAuthoringFailure) (f : GateFailure) : Prop :=
  p.toolName = f.tool ∧ (f.path = none ∨ p.targetPath = f.path)

/-- The pending failure of a state stands for all that is outstanding. -/
def GateInvariant (lib : Library) (log : List Event)
    (pending : Option PendingAinlAuthoringFailure) : Prop :=
  ∀ f ∈ unrepaired lib log, ∃ p, pending = some p ∧ Covers p f

theorem FinalAttempt.covered {pending pending' : Option PendingAinlAuthoringFailure}
    {f : GateFailure} (h : FinalAttempt pending pending') (hleft : pending' = none → pending = none)
    (hf : ∃ p, pending = some p ∧ Covers p f) : ∃ p, pending' = some p ∧ Covers p f := by
  obtain ⟨p, hp, hcovers⟩ := hf
  cases h with
  | kept => exact ⟨p, hp, hcovers⟩
  | counted q =>
      obtain rfl := Option.some.inj hp
      exact ⟨_, rfl, hcovers⟩
  | dropped => cases hleft rfl

/-! ### Rounds -/

/-- The result event of a decided call and the block it is answered with. -/
def resultEvent (cfg : TurnConfig) : ToolDispatch × ContentBlock → Option Event
  | (.pending tc _, .toolResult _ _ content isError) =>
      match resolveCall cfg.allowedToolNames tc.name tc.input with
      | .perform inv => some (.toolFinished inv content isError)
      | .refused _ => none
  | _ => none

/-- The result events of a round. -/
def roundResults (cfg : TurnConfig) (dispatches : List ToolDispatch)
    (blocks : List ContentBlock) : List Event :=
  (dispatches.zip blocks).filterMap (resultEvent cfg)

theorem roundResults_merged {cfg : TurnConfig} {dispatches : List ToolDispatch}
    {parts : List (ContentBlock × List Event)}
    (h : List.Forall₂ (fun d p => Merged cfg d p.1 p.2) dispatches parts) :
    roundResults cfg dispatches (parts.map Prod.fst) = parts.flatMap Prod.snd := by
  induction h with
  | nil => rfl
  | @cons d p ds ps hd _ ih =>
      obtain ⟨block, events⟩ := p
      unfold roundResults at ih ⊢
      rw [List.map_cons, List.zip_cons_cons, List.flatMap_cons, ← ih]
      cases hd with
      | resolved tc => rfl
      | denied tc verdict reason content hres =>
          rw [List.filterMap_cons_none (by simp [resultEvent, hres]), List.nil_append]
      | performed tc verdict inv content isError hres =>
          exact List.filterMap_cons_some (by simp [resultEvent, hres])

/-- The failure that a round records: its first one. -/
def recordedFailure (cfg : TurnConfig) (dispatches : List ToolDispatch)
    (blocks : List ContentBlock) : Option PendingAinlAuthoringFailure :=
  ainlAuthoringFailureFromToolResults cfg.lib blocks (toolCallsById (pendingCalls dispatches))

/-- A result of the round clears the pending failure. -/
def clearsPending (cfg : TurnConfig) (dispatches : List ToolDispatch)
    (blocks : List ContentBlock) (pending : Option PendingAinlAuthoringFailure) : Bool :=
  ainlAuthoringSuccessInToolResults cfg.lib blocks pending
    (toolCallsById (pendingCalls dispatches)) cfg.allowNonStrict

/-- The call that a round has under an id. -/
def callOf (dispatches : List ToolDispatch) (id : String) : Option ToolCall :=
  (toolCallsById (pendingCalls dispatches)).lookup id

/-- The failure that a result reports under the name of a gate tool: an error, but not a wiring
error, with the path of the call that it answers. -/
def reportedFailure (lib : Library) (dispatches : List ToolDispatch) :
    ContentBlock → Option GateFailure
  | .toolResult id name content true =>
      if isAinlAuthoringGateTool name && !toolResultIsAinlToolWiringError lib content then
        some ⟨name, (callOf dispatches id).bind fun tc => pathArg tc.input⟩
      else none
  | _ => none

/-- The first failure among the results of a round. -/
def FirstFailure (lib : Library) (dispatches : List ToolDispatch) (blocks : List ContentBlock)
    (g : GateFailure) : Prop :=
  ∃ before b behind, blocks = before ++ b :: behind ∧
    (∀ x ∈ before, reportedFailure lib dispatches x = none) ∧
      reportedFailure lib dispatches b = some g

/-- A repair of `g` is a repair of `f` as well. -/
def GateFailure.StandsFor (g f : GateFailure) : Prop :=
  g.tool = f.tool ∧ (f.path = none ∨ g.path = f.path)

instance (g f : GateFailure) : Decidable (g.StandsFor f) := inferInstanceAs (Decidable (_ ∧ _))

/-- A round that loses no failure. The first failure that its results report stands for those
that the results leave unrepaired, and for those that were unrepaired before; and gate calls that
share an id share their path, so that a result is read with the path of its own call. -/
structure RoundKept (cfg : TurnConfig) (log : List Event) (dispatches : List ToolDispatch)
    (blocks : List ContentBlock) : Prop where
  reported : ∀ f ∈ unrepaired cfg.lib (roundResults cfg dispatches blocks),
    ∃ g, FirstFailure cfg.lib dispatches blocks g ∧ g.StandsFor f
  displaced : ∀ f ∈ unrepaired cfg.lib log,
    (∀ e ∈ roundResults cfg dispatches blocks, repairs cfg.lib f e = false) →
      ∀ g, FirstFailure cfg.lib dispatches blocks g → g.StandsFor f
  ownPath : ∀ tc ∈ pendingCalls dispatches, isAinlAuthoringGateTool tc.name = true →
    ∀ tc' ∈ callOf dispatches tc.id, pathArg tc'.input = pathArg tc.input

theorem firstFailure_iff {lib : Library} {dispatches : List ToolDispatch}
    {blocks : List ContentBlock} {g : GateFailure} :
    FirstFailure lib dispatches blocks g ↔
      blocks.findSome? (reportedFailure lib dispatches) = some g := by
  rw [List.findSome?_eq_some_iff]
  constructor
  · rintro ⟨before, b, behind, hblocks, hnone, hb⟩
    exact ⟨before, b, behind, hblocks, hb, hnone⟩
  · rintro ⟨before, b, behind, hblocks, hb, hnone⟩
    exact ⟨before, b, behind, hblocks, hnone, hb⟩

/-- The gate takes tool and path of a failure from the result that reports it. -/
theorem ainlFailureOfBlock_reported (lib : Library) (dispatches : List ToolDispatch)
    (b : ContentBlock) :
    (ainlFailureOfBlock lib (toolCallsById (pendingCalls dispatches)) b).map
        (fun p => (⟨p.toolName, p.targetPath⟩ : GateFailure)) =
      reportedFailure lib dispatches b := by
  unfold ainlFailureOfBlock reportedFailure
  cases b with
  | toolResult id name content isError =>
      cases isError with
      | false => rfl
      | true =>
          dsimp only
          split
          · cases hcall : (toolCallsById (pendingCalls dispatches)).lookup id with
            | none => simp [callOf, hcall]
            | some tc => simp [callOf, hcall, extractAinlTargetFromToolCall]
          · rfl
  | _ => rfl

/-- The gate records the first failure that the results of a round report, and no other. -/
theorem recorded_of_firstFailure {cfg : TurnConfig} {dispatches : List ToolDispatch}
    {blocks : List ContentBlock} {g : GateFailure} :
    FirstFailure cfg.lib dispatches blocks g ↔
      ∃ p, recordedFailure cfg dispatches blocks = some p ∧ p.toolName = g.tool ∧
        p.targetPath = g.path := by
  have hmap : (recordedFailure cfg dispatches blocks).map
      (fun p => (⟨p.toolName, p.targetPath⟩ : GateFailure)) =
        blocks.findSome? (reportedFailure cfg.lib dispatches) := by
    rw [recordedFailure, ainlAuthoringFailureFromToolResults, List.map_findSome?]
    exact congrArg (fun f => blocks.findSome? f)
      (funext (ainlFailureOfBlock_reported cfg.lib dispatches))
  rw [firstFailure_iff, ← hmap, Option.map_eq_some_iff]
  simp only [GateFailure.ext_iff]

/-- The failure of a call that was run under its own name, when no result in front of it
reports one, is recorded. -/
theorem lone_failure_recorded {cfg : TurnConfig} {dispatches : List ToolDispatch}
    {before behind : List ContentBlock} {tc : ToolCall} {content : String}
    (hgate : isAinlAuthoringGateTool tc.name = true)
    (hwired : toolResultIsAinlToolWiringError cfg.lib content = false)
    (hcall : callOf dispatches tc.id = some tc)
    (hlone : ∀ b ∈ before, reportedFailure cfg.lib dispatches b = none) :
    ∃ p, recordedFailure cfg dispatches
        (before ++ .toolResult tc.id tc.name content true :: behind) = some p ∧
      Covers p ⟨tc.name, pathArg tc.input⟩ := by
  have hreported : reportedFailure cfg.lib dispatches (.toolResult tc.id tc.name content true) =
      some ⟨tc.name, pathArg tc.input⟩ := by
    simp [reportedFailure, hgate, hwired, hcall]
  obtain ⟨p, hp, hname, hpath⟩ := recorded_of_firstFailure.mp
    ⟨before, _, behind, rfl, hlone, hreported⟩
  exact ⟨p, hp, hname, .inr hpath⟩

/-- A result that clears the pending failure `p` repairs all that `p` covers. -/
theorem repaired_of_clears {cfg : TurnConfig} {validated : Option String}
    {calls : List ToolCall} {log : List Event} {dispatches : List ToolDispatch}
    {parts : List (ContentBlock × List Event)} {p : PendingAinlAuthoringFailure}
    {f : GateFailure} (hdecided : List.Forall₂ (Decided cfg validated) calls dispatches)
    (hmerged : List.Forall₂ (fun d p => Merged cfg d p.1 p.2) dispatches parts)
    (hkept : RoundKept cfg log dispatches (parts.map Prod.fst))
    (hclears : clearsPending cfg dispatches (parts.map Prod.fst) (some p) = true)
    (hcovers : Covers p f) :
    ∃ e ∈ parts.flatMap Prod.snd, repairs cfg.lib f e = true := by
  obtain ⟨b, hb, hsuccess⟩ := List.any_eq_true.mp hclears
  unfold ainlSuccessOfBlock at hsuccess
  split at hsuccess
  · rename_i id name content
    simp only [Bool.and_eq_true, beq_iff_eq] at hsuccess
    obtain ⟨⟨hgate, hok⟩, htool, htarget⟩ := hsuccess
    obtain ⟨tc, verdict, inv, hmem, rfl, rfl, hres, hevent⟩ :=
      executed_of_success hdecided hmerged hb
    obtain rfl := resolveCall_gate hgate hres
    refine ⟨_, hevent, ?_⟩
    have hpath : f.path = none ∨ pathArg tc.input = f.path := by
      rcases hcovers.2 with hnone | hsame
      · exact .inl hnone
      · refine or_iff_not_imp_left.mpr fun hsome => ?_
        obtain ⟨path, hfpath⟩ := Option.ne_none_iff_exists'.mp hsome
        have hp : p.targetPath = some path := hsame.trans hfpath
        rw [hp] at htarget
        simp only [Option.isNone_some, Bool.false_and, Bool.false_or] at htarget
        split at htarget
        · cases htarget
        · rename_i tc' hlookup
          have hown := hkept.ownPath tc (mem_pendingCalls hmem) hgate tc' hlookup
          simp only [matchesPendingTarget, hp, Option.isNone_some, Bool.false_or,
            Bool.and_eq_true, beq_iff_eq] at htarget
          rw [← hown, htarget.1.1, hfpath]
    have htool' : tc.name = f.tool := htool.symm.trans hcovers.1
    simpa [repairs, htool', hok] using hpath
  · cases hsuccess

theorem unrepaired_of_no_failure {lib : Library} {log : List Event}
    (h : ∀ e ∈ log, gateFailureOf lib e = none) : unrepaired lib log = [] :=
  outstanding_of_quiet h

theorem mem_unrepaired_append {lib : Library} {log added : List Event} {f : GateFailure}
    (hadded : ∀ e ∈ added, gateFailureOf lib e = none) (h : f ∈ unrepaired lib (log ++ added)) :
    f ∈ unrepaired lib log := by
  rcases outstanding_append h with h | h
  · exact h.1
  · have hnone := unrepaired_of_no_failure hadded
    unfold unrepaired at hnone
    rw [hnone] at h
    cases h

/-- **The step lemma of a round.** A round that loses no failure keeps the invariant. -/
theorem GateInvariant.round {cfg : TurnConfig} {validated : Option String}
    {calls : List ToolCall} {log : List Event} {dispatches : List ToolDispatch}
    {parts : List (ContentBlock × List Event)} {pending : Option PendingAinlAuthoringFailure}
    (hinv : GateInvariant cfg.lib log pending)
    (hdecided : List.Forall₂ (Decided cfg validated) calls dispatches)
    (hmerged : List.Forall₂ (fun d p => Merged cfg d p.1 p.2) dispatches parts)
    (hkept : RoundKept cfg log dispatches (parts.map Prod.fst)) :
    GateInvariant cfg.lib (roundLog cfg log dispatches parts)
      (pendingAfterRound cfg dispatches (parts.map Prod.fst) pending) := by
  intro f hf
  have hresults := roundResults_merged hmerged
  have hpending : pendingAfterRound cfg dispatches (parts.map Prod.fst) pending =
      (recordedFailure cfg dispatches (parts.map Prod.fst)).orElse fun _ =>
        if clearsPending cfg dispatches (parts.map Prod.fst) pending then none else pending := rfl
  have hstarts : ∀ e ∈ startEvents cfg (pendingCalls dispatches),
      gateFailureOf cfg.lib e = none := by
    simp [startEvents, gateFailureOf]
  rw [hpending]
  rcases outstanding_append hf with ⟨hold, hopen⟩ | hnew
  · have hbefore : f ∈ unrepaired cfg.lib log := mem_unrepaired_append hstarts hold
    obtain ⟨p, hp, hcovers⟩ := hinv f hbefore
    cases hrecorded : recordedFailure cfg dispatches (parts.map Prod.fst) with
    | some p' =>
        have hfirst : FirstFailure cfg.lib dispatches (parts.map Prod.fst)
            ⟨p'.toolName, p'.targetPath⟩ :=
          recorded_of_firstFailure.mpr ⟨p', hrecorded, rfl, rfl⟩
        exact ⟨p', rfl, hkept.displaced f hbefore (hresults ▸ hopen) _ hfirst⟩
    | none =>
        refine ⟨p, ?_, hcovers⟩
        subst hp
        rw [Option.orElse_none, if_neg]
        intro hclears
        obtain ⟨e, he, hrepairs⟩ := repaired_of_clears hdecided hmerged hkept hclears hcovers
        rw [hopen e he] at hrepairs
        cases hrepairs
  · obtain ⟨g, hfirst, htool, hpath⟩ := hkept.reported f (hresults ▸ hnew)
    obtain ⟨p, hp, hname, htarget⟩ := recorded_of_firstFailure.mp hfirst
    exact ⟨p, by rw [hp]; rfl, hname.trans htool, hpath.imp_right htarget.trans⟩

/-! ### Giving up -/

/-- One of the checks for claims sends a final text back. -/
def claimDetected (cfg : TurnConfig) (iteration : Nat) (text : String) (st : LoopState σ) :
    Bool :=
  (!st.anyToolsExecuted && iteration == 0 && phantomActionDetected cfg.lib text) ||
    schedulingPhantomDetected cfg.lib cfg.sessionUserMessage text st.lastToolsCalled ||
    terminalHandoffDetected cfg.lib cfg.sessionUserMessage text st.lastToolsCalled ||
    processPhantomDetected cfg.lib text st.lastToolsCalled

theorem checkClaims_of_not_detected {W : World σ} {cfg : TurnConfig} {iteration : Nat}
    {text : String} {outcome : AgentLoopOutcome} {st : LoopState σ}
    (h : claimDetected cfg iteration text st = false) :
    checkClaims W cfg iteration text outcome st =
      finishAnswer W cfg iteration text outcome st := by
  simp only [claimDetected, Bool.or_eq_false_iff] at h
  obtain ⟨⟨⟨haction, hscheduling⟩, hhandoff⟩, hprocess⟩ := h
  unfold checkClaims
  rw [haction, hscheduling, hhandoff, hprocess]
  rfl

/-- The response is a final text: it is neither silent nor retried as empty. -/
def isFinalText (iteration : Nat) (response : CompletionResponse) : Bool :=
  let parsed := parseDirectives response.text
  !assistantIntendedSilent parsed.1 parsed.2 &&
    !(isBlank parsed.1 && response.toolCalls.isEmpty && !response.hasAnyContent &&
      (iteration == 0 || (response.usage.inputTokens == 0 && response.usage.outputTokens == 0)))

/-- A failure that a final text gives up, at the third attempt, ends the turn: no check for
claims sends the summary back. -/
def GiveUpStands (cfg : TurnConfig) (iteration : Nat) (response : CompletionResponse)
    (st : LoopState σ) : Prop :=
  isFinalText iteration response = true → ∀ p ∈ st.pendingAinlAuthoringFailure,
    maxAinlAuthoringPrematureFinalAttempts ≤ p.blockedFinalAttempts + 1 →
      claimDetected cfg iteration
        (ainlAuthoringUnresolvedSummary
          { p with blockedFinalAttempts := p.blockedFinalAttempts + 1 } st.lastAinlProof) st = false

instance (cfg : TurnConfig) (iteration : Nat) (response : CompletionResponse)
    (st : LoopState σ) : Decidable (GiveUpStands cfg iteration response st) :=
  inferInstanceAs (Decidable (_ → ∀ p ∈ _, _ → _))

theorem finishAnswer_not_next (W : World σ) (cfg : TurnConfig) (iteration : Nat)
    (text : String) (outcome : AgentLoopOutcome) (st st' : LoopState σ) :
    finishAnswer W cfg iteration text outcome st ≠ .next st' := by
  unfold finishAnswer
  dsimp only
  split <;> exact fun h => nomatch h

theorem checkPending_keeps {W : World σ} {cfg : TurnConfig} {iteration : Nat} {text : String}
    {st st' : LoopState σ}
    (hstands : ∀ p ∈ st.pendingAinlAuthoringFailure,
      maxAinlAuthoringPrematureFinalAttempts ≤ p.blockedFinalAttempts + 1 →
        claimDetected cfg iteration
          (ainlAuthoringUnresolvedSummary
            { p with blockedFinalAttempts := p.blockedFinalAttempts + 1 } st.lastAinlProof) st =
          false)
    (hstep : checkPending W cfg iteration text st = .next st')
    (hnone : st'.pendingAinlAuthoringFailure = none) : st.pendingAinlAuthoringFailure = none := by
  unfold checkPending at hstep
  split at hstep
  · assumption
  · rename_i p hp
    dsimp only at hstep
    split at hstep
    · rename_i hlast
      have hclaim : claimDetected cfg iteration
          (ainlAuthoringUnresolvedSummary
            { p with blockedFinalAttempts := p.blockedFinalAttempts + 1 } st.lastAinlProof)
          { st with pendingAinlAuthoringFailure := none } = false := hstands p hp hlast
      rw [checkClaims_of_not_detected hclaim] at hstep
      exact (finishAnswer_not_next _ _ _ _ _ _ _ hstep).elim
    · cases hstep
      cases hnone

theorem retryEmpty_keeps {W : World σ} {iteration : Nat} {silentFailure : Bool}
    {st st' : LoopState σ} (hstep : retryEmpty W iteration silentFailure st = .next st')
    (hnone : st'.pendingAinlAuthoringFailure = none) : st.pendingAinlAuthoringFailure = none := by
  unfold retryEmpty at hstep
  dsimp only at hstep
  generalize (st.consecutiveSilentFailures + if silentFailure then 1 else 0) = failures at hstep
  by_cases hthird : 3 ≤ failures
  · rw [if_pos hthird] at hstep
    cases hstep
  · rw [if_neg hthird] at hstep
    cases hstep
    exact hnone

theorem endTurnReply_keeps {W : World σ} {cfg : TurnConfig} {iteration : Nat}
    {response : CompletionResponse} {st st' : LoopState σ}
    (hloud : assistantIntendedSilent (parseDirectives response.text).1
      (parseDirectives response.text).2 = false)
    (hstands : GiveUpStands cfg iteration response st)
    (hstep : endTurnReply W cfg iteration response (parseDirectives response.text).1 st =
      .next st')
    (hnone : st'.pendingAinlAuthoringFailure = none) : st.pendingAinlAuthoringFailure = none := by
  unfold GiveUpStands isFinalText at hstands
  unfold endTurnReply at hstep
  dsimp only at hstep hstands
  rw [hloud] at hstands
  split at hstep
  · rename_i hempty
    split at hstep
    · exact retryEmpty_keeps hstep hnone
    · rename_i hretry
      rw [Bool.not_eq_true] at hretry
      exact checkPending_keeps (hstands (by rw [hretry]; simp)) hstep hnone
  · rename_i hfull
    rw [Bool.not_eq_true] at hfull
    have hstands' := hstands (by rw [hfull]; rfl)
    generalize hst : { st with consecutiveSilentFailures := 0 } = st₀ at hstep
    have hsame : st₀.pendingAinlAuthoringFailure = st.pendingAinlAuthoringFailure := by rw [← hst]
    rw [← hsame]
    exact checkPending_keeps (by rw [← hst]; exact hstands') hstep hnone

/-- A final reply that does not end the turn leaves the failure pending. -/
theorem endTurn_keeps {W : World σ} {cfg : TurnConfig} {iteration : Nat}
    {response : CompletionResponse} {st st' : LoopState σ}
    (hstands : GiveUpStands cfg iteration response st)
    (hstep : endTurn W cfg iteration response st = .next st')
    (hnone : st'.pendingAinlAuthoringFailure = none) : st.pendingAinlAuthoringFailure = none := by
  unfold endTurn at hstep
  dsimp only at hstep
  split at hstep
  · split at hstep
    · cases hstep
      cases hnone
    · assumption
  · rename_i hloud
    rw [Bool.not_eq_true] at hloud
    exact endTurnReply_keeps hloud hstands hstep hnone

/-! ### The whole turn -/

/-- An iteration that loses no failure: a plan that falls back to the loop leaves nothing
new unrepaired, a tool round loses nothing, and giving up ends the turn. -/
structure GateKept (W : World σ) (cfg : TurnConfig) (iteration : Nat) (st : LoopState σ) :
    Prop where
  plan : ∀ ready ∈ requesting W cfg iteration st,
    ∀ f ∈ unrepaired cfg.lib ready.log, f ∈ unrepaired cfg.lib st.log
  round : ∀ r ∈ handled W cfg iteration st, r.1.stopReason = .toolUse →
    ∀ ran ∈ roundOf W cfg r.1 (r.2.logged r.1),
      RoundKept cfg (r.2.logged r.1).log ran.1 ran.2
  givesUp : ∀ r ∈ handled W cfg iteration st,
    r.1.stopReason = .endTurn ∨ r.1.stopReason = .stopSequence →
      GiveUpStands cfg iteration r.1 r.2

/-- What an iteration may end in: the next state meets the invariant, and a completed or
silent turn has repaired every failure. -/
def StepsSettled (cfg : TurnConfig) (step : Step σ) : Prop :=
  (∀ st', step = .next st' → GateInvariant cfg.lib st'.log st'.pendingAinlAuthoringFailure) ∧
    ∀ r st', step = .done (.ok r) st' → r.outcome = .completed ∨ r.outcome = .silent →
      FailuresRepaired cfg.lib st'.log

theorem stepsSettled_next {cfg : TurnConfig} {st : LoopState σ}
    (h : GateInvariant cfg.lib st.log st.pendingAinlAuthoringFailure) :
    StepsSettled cfg (.next st) := by
  refine ⟨fun st' hstep => ?_, fun _ _ hstep => nomatch hstep⟩
  obtain rfl := Step.next.inj hstep
  exact h

theorem stepsSettled_done {cfg : TurnConfig} {result : Except LoopError AgentLoopResult}
    {st : LoopState σ}
    (h : ∀ r, result = .ok r → r.outcome = .completed ∨ r.outcome = .silent →
      FailuresRepaired cfg.lib st.log) : StepsSettled cfg (.done result st) := by
  refine ⟨fun _ hstep => (nomatch hstep), fun r st' hstep hout => ?_⟩
  obtain ⟨hresult, rfl⟩ := Step.done.inj hstep
  exact h r hresult hout

theorem GateInvariant.repaired {lib : Library} {log : List Event}
    {pending : Option PendingAinlAuthoringFailure} (h : GateInvariant lib log pending)
    (hnone : pending = none) : FailuresRepaired lib log := by
  refine settled_iff.mpr (List.eq_nil_iff_forall_not_mem.mpr fun f hf => ?_)
  obtain ⟨p, hp, -⟩ := h f hf
  cases hnone.symm.trans hp

theorem EndsTurn.settled {cfg : TurnConfig} {c : Core} {step : Step σ}
    (hinv : GateInvariant cfg.lib c.log c.pending) (h : EndsTurn c step) :
    StepsSettled cfg step := by
  obtain ⟨result, st', rfl, ⟨_, _, _, _, hcore⟩, houtcome⟩ := h
  have hlog : st'.log = c.log := congrArg Core.log hcore
  apply stepsSettled_done
  intro r hr hout
  rw [hlog]
  exact hinv.repaired (houtcome r hr hout)

theorem endTurn_settled {W : World σ} {cfg : TurnConfig} {iteration : Nat}
    {response : CompletionResponse} {st : LoopState σ}
    (hinv : GateInvariant cfg.lib st.log st.pendingAinlAuthoringFailure)
    (hstands : GiveUpStands cfg iteration response st) :
    StepsSettled cfg (endTurn W cfg iteration response st) := by
  rcases endTurn_cases W cfg iteration response st with
    ⟨pending, st', hstep, hattempt, _, _, _, _, hcore⟩ | hend
  · have hlog : st'.log = st.log := congrArg Core.log hcore
    have hpending : st'.pendingAinlAuthoringFailure = pending := congrArg Core.pending hcore
    have hleft : pending = none → st.pendingAinlAuthoringFailure = none := fun hnone =>
      endTurn_keeps hstands hstep (hpending.trans hnone)
    rw [hstep]
    apply stepsSettled_next
    intro f hf
    rw [hlog] at hf
    rw [hpending]
    exact hattempt.covered hleft (hinv f hf)
  · exact hend.settled hinv

theorem toolRound_settled {W : World σ} {cfg : TurnConfig} {iteration : Nat}
    {response : CompletionResponse} {st : LoopState σ}
    (hinv : GateInvariant cfg.lib st.log st.pendingAinlAuthoringFailure)
    (hkept : ∀ ran ∈ roundOf W cfg response st, RoundKept cfg st.log ran.1 ran.2) :
    StepsSettled cfg (toolRound W cfg iteration response st) := by
  rcases toolRound_cases W cfg iteration response st with
    ⟨_, st', hstep, _⟩ | ⟨dispatches, parts, hround, hdecided, hmerged, hcases⟩
  · rw [hstep]
    exact stepsSettled_done fun _ hr => nomatch hr
  · rcases hcases with ⟨result, st', hstep, houtcome, _⟩ | ⟨_, _, st', hstep, _, hcore⟩
    · rw [hstep]
      apply stepsSettled_done
      intro r hr hout
      obtain rfl := Except.ok.inj hr
      simp [houtcome] at hout
    · have hlog : st'.log = roundLog cfg st.log dispatches parts := congrArg Core.log hcore
      have hpending : st'.pendingAinlAuthoringFailure =
          pendingAfterRound cfg dispatches (parts.map Prod.fst) st.pendingAinlAuthoringFailure :=
        congrArg Core.pending hcore
      rw [hstep]
      apply stepsSettled_next
      rw [hlog, hpending]
      exact hinv.round hdecided hmerged (hkept _ hround)

theorem handleResponse_settled {W : World σ} {cfg : TurnConfig} {iteration : Nat}
    {response : CompletionResponse} {st : LoopState σ}
    (hinv : GateInvariant cfg.lib (st.logged response).log st.pendingAinlAuthoringFailure)
    (hround : response.stopReason = .toolUse →
      ∀ ran ∈ roundOf W cfg response (st.logged response),
        RoundKept cfg (st.logged response).log ran.1 ran.2)
    (hstands : response.stopReason = .endTurn ∨ response.stopReason = .stopSequence →
      GiveUpStands cfg iteration response st) :
    StepsSettled cfg (handleResponse W cfg iteration response st) := by
  have hinv' : GateInvariant cfg.lib (st.logged response).log
      (st.logged response).pendingAinlAuthoringFailure := hinv
  rw [handleResponse_logged]
  cases hstop : response.stopReason with
  | endTurn => exact endTurn_settled hinv' (hstands (.inl hstop))
  | stopSequence => exact endTurn_settled hinv' (hstands (.inr hstop))
  | toolUse => exact toolRound_settled hinv' (hround hstop)
  | maxTokens =>
      rcases continueTokens_cases W cfg iteration response (st.logged response) with
        ⟨st', hnext, hcore⟩ | hend
      · have hlog : st'.log = (st.logged response).log := congrArg Core.log hcore
        have hpending : st'.pendingAinlAuthoringFailure = st.pendingAinlAuthoringFailure :=
          congrArg Core.pending hcore
        simp only [hnext]
        apply stepsSettled_next
        rw [hlog, hpending]
        exact hinv
      · exact hend.settled hinv

/-- **The step lemma.** An iteration that loses no failure keeps the invariant. -/
theorem iterate_settled {W : World σ} {cfg : TurnConfig} {iteration : Nat} {st : LoopState σ}
    (hinv : GateInvariant cfg.lib st.log st.pendingAinlAuthoringFailure)
    (hkept : GateKept W cfg iteration st) : StepsSettled cfg (iterate W cfg iteration st) := by
  have hprep := prepareRequest_core W cfg st
  have hpending : (prepareRequest W cfg st).pendingAinlAuthoringFailure =
      st.pendingAinlAuthoringFailure := congrArg Core.pending hprep
  rcases iterate_cases W cfg iteration st with
    ⟨result, st', _, hstep, hresult, _⟩ |
    ⟨requests, ready, asked, hready, hreadyCore, honly, hasked, h⟩
  · rw [hstep]
    apply stepsSettled_done
    intro r hr hout
    simp [hresult r hr] at hout
  · rcases h with ⟨e, hstep⟩ | ⟨response, hhandled, hstep⟩
    · rw [hstep]
      exact stepsSettled_done fun _ hr => nomatch hr
    · have haskedLog : asked.log = ready.log ++ requests := congrArg Core.log hasked
      have hsame : asked.pendingAinlAuthoringFailure = ready.pendingAinlAuthoringFailure :=
        congrArg Core.pending hasked
      have hready' : ready.pendingAinlAuthoringFailure =
          (prepareRequest W cfg st).pendingAinlAuthoringFailure := congrArg Core.pending hreadyCore
      have haskedPending : asked.pendingAinlAuthoringFailure = st.pendingAinlAuthoringFailure :=
        (hsame.trans hready').trans hpending
      have hquiet : ∀ e ∈ requests ++ [Event.response response],
          gateFailureOf cfg.lib e = none := by
        intro e he
        rcases List.mem_append.mp he with he | he
        · obtain ⟨_, _, rfl, _⟩ := honly e he
          rfl
        · obtain rfl := List.mem_singleton.mp he
          rfl
      have hinv' : GateInvariant cfg.lib (asked.logged response).log
          asked.pendingAinlAuthoringFailure := by
        intro f hf
        have hlogged : (asked.logged response).log =
            ready.log ++ (requests ++ [Event.response response]) := by
          rw [← List.append_assoc, ← haskedLog]
          rfl
        rw [hlogged] at hf
        rw [haskedPending]
        exact hinv f (hkept.plan ready hready f (mem_unrepaired_append hquiet hf))
      rw [hstep]
      exact handleResponse_settled hinv' (hkept.round _ hhandled) (hkept.givesUp _ hhandled)

section Turn

variable {W : World σ} {cfg : TurnConfig} {session : List Message} {world : σ}

/-- **The run lemma.** In a turn whose iterations lose no failure, the pending failure
covers all that is outstanding. -/
theorem Reaches.gateInvariant
    (hkept : ∀ iteration st, Reaches W cfg session world iteration st →
      iteration < cfg.maxIterations → GateKept W cfg iteration st)
    {iteration : Nat} {st : LoopState σ} (h : Reaches W cfg session world iteration st) :
    GateInvariant cfg.lib st.log st.pendingAinlAuthoringFailure := by
  induction h with
  | start => exact fun _ hf => nomatch hf
  | @next iteration st st' hreach hlt hstep ih =>
      exact (iterate_settled ih (hkept iteration st hreach hlt)).1 st' hstep

/-- A completed or silent turn has repaired every failed validate, compile and run call,
when no iteration loses one: the first failure that a round reports stands for all that is
unrepaired, a plan that falls back leaves none behind, and giving up ends the turn. -/
theorem completed_failures_repaired
    (hkept : ∀ iteration st, Reaches W cfg session world iteration st →
      iteration < cfg.maxIterations → GateKept W cfg iteration st) :
    ∀ r, (runAgentLoop W cfg session world).1 = .ok r →
      r.outcome = .completed ∨ r.outcome = .silent →
        FailuresRepaired cfg.lib (runAgentLoop W cfg session world).2.log := by
  refine runAgentLoop_rule (Q := fun result st => ∀ r, result = .ok r →
    r.outcome = .completed ∨ r.outcome = .silent → FailuresRepaired cfg.lib st.log) ?_ ?_
  · intro iteration st result st' hreach hlt hstep r hr hout
    subst hr
    exact (iterate_settled (hreach.gateInvariant hkept) (hkept iteration st hreach hlt)).2
      r st' hstep hout
  · intro st _ r hr hout
    obtain rfl := Except.ok.inj hr
    have houtcome : (fallbackReply cfg st).2 = .completed ∨ (fallbackReply cfg st).2 = .silent :=
      hout
    unfold fallbackReply at houtcome
    split at houtcome <;> simp at houtcome

end Turn

/-! ### Turns that can be computed -/

instance (lib : Library) (log : List Event) : Decidable (FailuresRepaired lib log) :=
  inferInstanceAs (Decidable (Settled _ _ log))

instance (cfg : TurnConfig) (log : List Event) (dispatches : List ToolDispatch)
    (blocks : List ContentBlock) : Decidable (RoundKept cfg log dispatches blocks) :=
  decidable_of_iff
    ((∀ f ∈ unrepaired cfg.lib (roundResults cfg dispatches blocks),
        ∃ g ∈ blocks.findSome? (reportedFailure cfg.lib dispatches), g.StandsFor f) ∧
      (∀ f ∈ unrepaired cfg.lib log,
        (∀ e ∈ roundResults cfg dispatches blocks, repairs cfg.lib f e = false) →
          ∀ g ∈ blocks.findSome? (reportedFailure cfg.lib dispatches), g.StandsFor f) ∧
      ∀ tc ∈ pendingCalls dispatches, isAinlAuthoringGateTool tc.name = true →
        ∀ tc' ∈ callOf dispatches tc.id, pathArg tc'.input = pathArg tc.input)
    ⟨fun h => ⟨by simpa only [firstFailure_iff, Option.mem_def] using h.1,
      by simpa only [firstFailure_iff, Option.mem_def] using h.2.1, h.2.2⟩,
      fun h => ⟨by simpa only [firstFailure_iff, Option.mem_def] using h.reported,
        by simpa only [firstFailure_iff, Option.mem_def] using h.displaced, h.ownPath⟩⟩

instance (W : World σ) (cfg : TurnConfig) (iteration : Nat) (st : LoopState σ) :
    Decidable (GateKept W cfg iteration st) :=
  decidable_of_iff
    ((∀ ready ∈ requesting W cfg iteration st,
        ∀ f ∈ unrepaired cfg.lib ready.log, f ∈ unrepaired cfg.lib st.log) ∧
      (∀ r ∈ handled W cfg iteration st, r.1.stopReason = .toolUse →
        ∀ ran ∈ roundOf W cfg r.1 (r.2.logged r.1),
          RoundKept cfg (r.2.logged r.1).log ran.1 ran.2) ∧
      ∀ r ∈ handled W cfg iteration st,
        r.1.stopReason = .endTurn ∨ r.1.stopReason = .stopSequence →
          GiveUpStands cfg iteration r.1 r.2)
    ⟨fun h => ⟨h.1, h.2.1, h.2.2⟩, fun h => ⟨h.plan, h.round, h.givesUp⟩⟩

/-- A `mcp_ainl_ainl_validate` of the program at a path. -/
def validateCall (id path : String) : ToolCall :=
  ⟨id, "mcp_ainl_ainl_validate", .obj [("path", .str path)]⟩

/-- A validation fails, its repetition succeeds, and the turn completes. -/
def repairedScript : Script where
  replies :=
    [.ok (callReply [validateCall "c1" "a.ainl"]), .ok (callReply [validateCall "c2" "a.ainl"]),
      .ok (textReply "The program is valid now.")]
  outcomes := [⟨failedBody, true⟩, ⟨okBody, false⟩]

theorem completed_failures_repaired_retry :
    let turn := runAgentLoop scriptedWorld
      (scriptedTurn ["mcp_ainl_ainl_validate"] "Check a.ainl" 5) [] repairedScript
    ∀ r, turn.1 = .ok r → r.outcome = .completed ∨ r.outcome = .silent →
      FailuresRepaired asciiLibrary turn.2.log := by
  apply completed_failures_repaired
  have h : ∀ iteration < 5, ∀ st ∈ stateBefore scriptedWorld
      (scriptedTurn ["mcp_ainl_ainl_validate"] "Check a.ainl" 5) [] repairedScript iteration,
      GateKept scriptedWorld (scriptedTurn ["mcp_ainl_ainl_validate"] "Check a.ainl" 5)
        iteration st := by
    decide +kernel
  exact fun iteration st hreach hlt => h iteration hlt st (reaches_iff.mp hreach)

/-- **A completed turn with an unrepaired failure.** Two validations fail in one round. Only
the first is recorded, so its repair lets the turn complete. -/
theorem completed_with_unrepaired_failure :
    let script : Script :=
      { replies :=
          [.ok (callReply [validateCall "c1" "a.ainl", validateCall "c2" "b.ainl"]),
            .ok (callReply [validateCall "c3" "a.ainl"]),
            .ok (textReply "Both programs are valid now.")]
        outcomes := [⟨failedBody, true⟩, ⟨failedBody, true⟩, ⟨okBody, false⟩] }
    let turn := runAgentLoop scriptedWorld
      (scriptedTurn ["mcp_ainl_ainl_validate"] "Check both" 5) [] script
    turn.1.toOption.map AgentLoopResult.outcome = some .completed ∧
      ¬FailuresRepaired asciiLibrary turn.2.log := by
  decide +kernel

end ArmaraOS.Agent
