import ArmaraOS.Agent.Runs
import ArmaraOS.Agent.Script
import ArmaraOS.Lib.Trace

/-!
Programs that `mcp_ainl_ainl_run` executes.

A tool round refuses a run call unless its code has the hash of the last program that a strict
validation accepted. Aliases do not reach the tool and a `shell_exec` of its name passes no code, so
in a round this check is all there is; it trusts the hash, which the round takes from the call that
came last for the id of a result. The planner dispatches its steps without the check. In a turn that
meets `StrictKept` at every iteration each program that is run was strictly validated before
(`run_programs_validated`).
-/

namespace ArmaraOS.Agent

open ArmaraOS.Lib

variable {σ : Type}

/-! ### Runs and validations -/

/-- The program that an invocation runs, if it is handed one. -/
def runCode (inv : Invocation) : Option String :=
  if inv.tool = "mcp_ainl_ainl_run" then codeArg inv.args else none

/-- The program that an event starts. -/
def startedProgram : Event → Option String
  | .toolStarted inv => runCode inv
  | _ => none

/-- The program that a result validates strictly: it is a validation with `strict: true`,
no error, and parses as `ok: true`. -/
def strictlyValidated (lib : Library) : Event → Option String
  | .toolFinished inv content false =>
      if inv.tool = "mcp_ainl_ainl_validate" ∧ strictArg inv.args = some true ∧
          toolResultJsonOkTrue lib content = true then codeArg inv.args
      else none
  | _ => none

/-- The event validates the program strictly. -/
def validates (lib : Library) (code : String) (e : Event) : Bool :=
  strictlyValidated lib e == some code

/-- Every program that is run was strictly validated before. -/
def RunsValidated (lib : Library) (log : List Event) : Prop :=
  Preceded startedProgram (validates lib) log

/-- The program that an invocation of a tool carries. -/
def Event.program : Event → Option String
  | .toolStarted inv => codeArg inv.args
  | .toolFinished inv _ _ => codeArg inv.args
  | _ => none

/-- No two programs of the turn have the same hash. -/
def CollisionFree (lib : Library) (log : List Event) : Prop :=
  ∀ c ∈ log.filterMap Event.program, ∀ c' ∈ log.filterMap Event.program,
    lib.sha256Hex c = lib.sha256Hex c' → c = c'

theorem CollisionFree.of_longer {lib : Library} {log log' : List Event}
    (h : CollisionFree lib log') (hle : log <+: log') : CollisionFree lib log :=
  fun c hc c' hc' =>
    h c ((hle.filterMap Event.program).subset hc) c'
      ((hle.filterMap Event.program).subset hc')

theorem program_of_validated {lib : Library} {e : Event} {code : String}
    (h : strictlyValidated lib e = some code) : e.program = some code := by
  unfold strictlyValidated at h
  split at h
  · split at h
    · exact h
    · cases h
  · cases h

theorem program_of_started {e : Event} {code : String} (h : startedProgram e = some code) :
    e.program = some code := by
  cases e with
  | toolStarted inv =>
      have hrun : runCode inv = some code := h
      unfold runCode at hrun
      split at hrun
      · exact hrun
      · cases hrun
  | _ => cases h

/-- Runs are validated, and the stored hash is that of a program that was. -/
structure StrictInvariant (lib : Library) (log : List Event) (validated : Option String) :
    Prop where
  runs : RunsValidated lib log
  stored : ∀ h ∈ validated, ∃ e ∈ log, ∃ code,
    lib.sha256Hex code = h ∧ strictlyValidated lib e = some code

/-! ### The routes to the tool -/

theorem normalizeToolName_eq_run {name : String}
    (h : normalizeToolName name = "mcp_ainl_ainl_run") : name = "mcp_ainl_ainl_run" := by
  unfold normalizeToolName at h
  split at h
  · exact h
  · cases hmap : mapToolName name with
    | none => rwa [hmap] at h
    | some mapped =>
        rw [hmap] at h
        obtain rfl : mapped = "mcp_ainl_ainl_run" := h
        exact absurd (mapToolName_target hmap) (by decide)

/-- A call that runs a program has the tool's own name: an alias does not lead to it, and
a rerouted `shell_exec` hands it no code. -/
theorem resolveCall_run {allowed : List String} {tc : ToolCall} {inv : Invocation}
    {code : String} (h : resolveCall allowed tc.name tc.input = .perform inv)
    (hcode : runCode inv = some code) :
    tc.name = "mcp_ainl_ainl_run" ∧ codeArg tc.input = some code := by
  unfold resolveCall at h
  dsimp only at h
  split at h
  · split at h
    · obtain rfl := Resolution.perform.inj h
      simp [runCode, codeArg, Json.get] at hcode
    · cases h
  · split at h
    · obtain rfl := Resolution.perform.inj h
      unfold runCode at hcode
      split at hcode
      · rename_i hrun
        exact ⟨normalizeToolName_eq_run hrun, hcode⟩
      · cases hcode
    · cases h

/-- A run call that passes the gate has the code that was last validated. -/
theorem validated_of_gate {lib : Library} {tc : ToolCall} {validated : Option String}
    {code : String} (hname : tc.name = "mcp_ainl_ainl_run")
    (hcode : codeArg tc.input = some code)
    (h : ainlRunRequiresStrictValidateFirst lib tc validated false = none) :
    validated = some (lib.sha256Hex code) := by
  unfold ainlRunRequiresStrictValidateFirst at h
  rw [if_neg (not_not_intro hname), if_neg (by simp), hcode] at h
  dsimp only at h
  split at h
  · cases h
  · rename_i hsame
    exact (not_not.mp hsame).symm

/-! ### Rounds -/

/-- A validation's result is read with the arguments of its own call: calls that share an id
with it carry the same program, and are strict only if it is. -/
def ValidatesOwn (dispatches : List ToolDispatch) : Prop :=
  ∀ tc ∈ pendingCalls dispatches, tc.name = "mcp_ainl_ainl_validate" →
    ∀ tc' ∈ (toolCallsById (pendingCalls dispatches)).lookup tc.id,
      strictArg tc'.input = some true →
        strictArg tc.input = some true ∧ codeArg tc.input = codeArg tc'.input

instance (dispatches : List ToolDispatch) : Decidable (ValidatesOwn dispatches) :=
  inferInstanceAs (Decidable (∀ tc ∈ _, _ → ∀ tc' ∈ _, _ → _))

/-- The hash after one block is the hash before, or that of a strict success. -/
theorem updateLastStrictStep_cases {lib : Library} {calls : List (String × ToolCall)}
    {last : Option String} {b : ContentBlock} {h : String}
    (hstep : updateLastStrictStep lib calls last b = some h) :
    last = some h ∨ ∃ id content tc code,
      b = .toolResult id "mcp_ainl_ainl_validate" content false ∧
      toolResultJsonOkTrue lib content = true ∧ calls.lookup id = some tc ∧
      strictArg tc.input = some true ∧ codeArg tc.input = some code ∧ lib.sha256Hex code = h := by
  unfold updateLastStrictStep at hstep
  split at hstep
  · rename_i id name content
    split at hstep
    · rename_i hvalidate
      obtain ⟨rfl, hok⟩ := hvalidate
      split at hstep
      · exact .inl hstep
      · rename_i tc hlookup
        split at hstep
        · rename_i hstrict
          split at hstep
          · rename_i code hcode
            exact .inr ⟨id, content, tc, code, rfl, hok, hlookup, hstrict, hcode,
              Option.some.inj hstep⟩
          · exact .inl hstep
        · exact .inl hstep
    · exact .inl hstep
  · exact .inl hstep

/-- The hash after a round is the hash before, or that of a strict success of the round. -/
theorem updateLastStrict_cases {lib : Library} {calls : List (String × ToolCall)} {h : String} :
    ∀ {blocks : List ContentBlock} {last : Option String},
      updateLastStrictValidateSha256 lib last blocks calls = some h →
      last = some h ∨ ∃ id content tc code,
        .toolResult id "mcp_ainl_ainl_validate" content false ∈ blocks ∧
        toolResultJsonOkTrue lib content = true ∧ calls.lookup id = some tc ∧
        strictArg tc.input = some true ∧ codeArg tc.input = some code ∧ lib.sha256Hex code = h
  | [], _, hfold => .inl hfold
  | b :: rest, last, hfold => by
      have hrest : updateLastStrictValidateSha256 lib (updateLastStrictStep lib calls last b)
          rest calls = some h := hfold
      rcases updateLastStrict_cases hrest with hb | ⟨id, content, tc, code, hmem, hfound⟩
      · rcases updateLastStrictStep_cases hb with hlast | ⟨id, content, tc, code, rfl, hfound⟩
        · exact .inl hlast
        · exact .inr ⟨id, content, tc, code, List.mem_cons_self, hfound⟩
      · exact .inr ⟨id, content, tc, code, List.mem_cons_of_mem _ hmem, hfound⟩

theorem finished_of_merged {cfg : TurnConfig} {dispatches : List ToolDispatch}
    {parts : List (ContentBlock × List Event)}
    (h : List.Forall₂ (fun d p => Merged cfg d p.1 p.2) dispatches parts) {e : Event}
    (he : e ∈ parts.flatMap Prod.snd) : startedProgram e = none := by
  induction h with
  | nil => cases he
  | @cons d p ds ps hd _ ih =>
      obtain ⟨block, events⟩ := p
      rcases List.mem_append.mp he with he | he
      · cases hd with
        | resolved tc => cases he
        | denied tc verdict reason content hres => cases he
        | performed tc verdict inv content isError hres =>
            obtain rfl := List.mem_singleton.mp he
            rfl
      · exact ih he

/-- The calls of a round that run a program have the code that was last validated. -/
theorem started_validated {cfg : TurnConfig} {validated : Option String}
    {calls : List ToolCall} {dispatches : List ToolDispatch}
    (hstrict : cfg.allowNonStrict = false)
    (hdecided : List.Forall₂ (Decided cfg validated) calls dispatches) {e : Event}
    {code : String} (he : e ∈ startEvents cfg (pendingCalls dispatches))
    (hcode : startedProgram e = some code) : validated = some (cfg.lib.sha256Hex code) := by
  obtain ⟨inv, hinv, rfl⟩ := List.mem_map.mp he
  obtain ⟨slot, hslot, rfl⟩ := List.mem_filterMap.mp hinv
  obtain ⟨tc, htc, hres⟩ := List.mem_map.mp hslot
  have hperform : resolveCall cfg.allowedToolNames tc.name tc.input = .perform inv := by
    cases hr : resolveCall cfg.allowedToolNames tc.name tc.input with
    | refused reason =>
        rw [hr] at hres
        cases hres
    | perform inv' =>
        rw [hr] at hres
        rw [Option.some.inj hres]
  obtain ⟨hname, harg⟩ := resolveCall_run hperform hcode
  have hgate := gate_of_decided hdecided htc
  rw [hstrict] at hgate
  exact validated_of_gate hname harg hgate

/-- **The step lemma of a round.** A round that reads its validations with their own
arguments keeps the invariant. -/
theorem StrictInvariant.round {cfg : TurnConfig} {validated : Option String}
    {calls : List ToolCall} {log : List Event} {dispatches : List ToolDispatch}
    {parts : List (ContentBlock × List Event)} (hstrict : cfg.allowNonStrict = false)
    (hinv : StrictInvariant cfg.lib log validated)
    (hdecided : List.Forall₂ (Decided cfg validated) calls dispatches)
    (hmerged : List.Forall₂ (fun d p => Merged cfg d p.1 p.2) dispatches parts)
    (hown : ValidatesOwn dispatches)
    (hfree : CollisionFree cfg.lib (roundLog cfg log dispatches parts)) :
    StrictInvariant cfg.lib (roundLog cfg log dispatches parts)
      (validatedAfterRound cfg dispatches (parts.map Prod.fst) validated) := by
  constructor
  · refine (hinv.runs.append ?_).append ?_
    · intro e he code hcode
      have hstored := started_validated hstrict hdecided he hcode
      obtain ⟨e', he', code', hhash, hvalidated⟩ := hinv.stored _ hstored
      have hcode' : code' ∈ (roundLog cfg log dispatches parts).filterMap Event.program :=
        List.mem_filterMap.mpr ⟨e', by simp [roundLog, he'], program_of_validated hvalidated⟩
      have hstarted : code ∈ (roundLog cfg log dispatches parts).filterMap Event.program := by
        refine List.mem_filterMap.mpr ⟨e, by simp [roundLog, he], ?_⟩
        exact program_of_started hcode
      obtain rfl := hfree code' hcode' code hstarted hhash
      exact ⟨e', he', by simp [validates, hvalidated]⟩
    · intro e he code hcode
      rw [finished_of_merged hmerged he] at hcode
      cases hcode
  · intro h hh
    rcases updateLastStrict_cases hh with hold | ⟨id, content, tc', code, hmem, hok, hlookup,
        hstrict', hcode, hhash⟩
    · obtain ⟨e, he, code, hcode⟩ := hinv.stored h hold
      exact ⟨e, by simp [roundLog, he], code, hcode⟩
    · obtain ⟨tc, verdict, inv, htc, rfl, hname, hres, hevent⟩ :=
        executed_of_success hdecided hmerged hmem
      obtain ⟨hown', hsame⟩ := hown tc (mem_pendingCalls htc) hname.symm tc' hlookup hstrict'
      have hgate : isAinlAuthoringGateTool tc.name = true := by
        rw [← hname]
        decide
      obtain rfl := resolveCall_gate hgate hres
      refine ⟨_, List.mem_append_right _ hevent, code, hhash, ?_⟩
      simp [strictlyValidated, ← hname, hown', hok, hsame, hcode]

/-! ### Plans -/

/-- The check that the dispatch of a plan lacks: a step that runs a program comes after
steps whose results validated it strictly. `seen` are the programs validated so far. -/
def PlanGated (W : World σ) (cfg : TurnConfig) :
    List String → List ToolCall → LoopState σ → Prop
  | _, [], _ => True
  | seen, step :: rest, st =>
      (∀ code ∈ (stepEvents W cfg step st).filterMap startedProgram, code ∈ seen) ∧
        PlanGated W cfg (seen ++ (stepEvents W cfg step st).filterMap (strictlyValidated cfg.lib))
          rest (dispatchPlannedToolCall W cfg step st)

/-- A gated plan that follows a log whose runs are validated keeps it so. -/
theorem RunsValidated.plan {W : World σ} {cfg : TurnConfig} :
    ∀ {steps : List ToolCall} {seen : List String} {st : LoopState σ} {log : List Event},
      RunsValidated cfg.lib log →
      (∀ code ∈ seen, ∃ e ∈ log, strictlyValidated cfg.lib e = some code) →
      PlanGated W cfg seen steps st →
      RunsValidated cfg.lib (log ++ planEvents W cfg steps st)
  | [], _, _, log, hlog, _, _ => by
      rw [planEvents, List.append_nil]
      exact hlog
  | step :: rest, seen, st, log, hlog, hseen, hgated => by
      obtain ⟨hstep, hrest⟩ := hgated
      rw [planEvents, ← List.append_assoc]
      refine RunsValidated.plan (hlog.append fun e he code hcode => ?_) (fun code hcode => ?_)
        hrest
      · have hstarted : code ∈ (stepEvents W cfg step st).filterMap startedProgram :=
          List.mem_filterMap.mpr ⟨e, he, hcode⟩
        obtain ⟨e', he', hvalidated⟩ := hseen code (hstep code hstarted)
        exact ⟨e', he', by simp [validates, hvalidated]⟩
      · rcases List.mem_append.mp hcode with hcode | hcode
        · obtain ⟨e, he, hvalidated⟩ := hseen code hcode
          exact ⟨e, List.mem_append_left _ he, hvalidated⟩
        · obtain ⟨e, he, hvalidated⟩ := List.mem_filterMap.mp hcode
          exact ⟨e, List.mem_append_right _ he, hvalidated⟩

/-! ### The whole turn -/

/-- An iteration whose plan, if it dispatches one, is gated, and whose round reads its
validations with their own arguments. -/
structure StrictKept (W : World σ) (cfg : TurnConfig) (iteration : Nat) (st : LoopState σ) :
    Prop where
  plan : iteration = 0 → cfg.plannerPathEligible = true →
    PlanGated W cfg [] (plannedSteps W (prepareRequest W cfg st))
      (planState W (prepareRequest W cfg st))
  round : ∀ r ∈ handled W cfg iteration st, r.1.stopReason = .toolUse →
    ∀ ran ∈ roundOf W cfg r.1 (r.2.logged r.1), ValidatesOwn ran.1

/-- What an iteration may end in: runs are validated, and the next state meets the
invariant. -/
def StepsValidated (cfg : TurnConfig) (step : Step σ) : Prop :=
  RunsValidated cfg.lib step.state.log ∧
    ∀ st', step = .next st' → StrictInvariant cfg.lib st'.log st'.lastStrictValidateCodeSha256

theorem stepsValidated_done {cfg : TurnConfig} {result : Except LoopError AgentLoopResult}
    {st : LoopState σ} (h : RunsValidated cfg.lib st.log) :
    StepsValidated cfg (.done result st) :=
  ⟨h, fun _ hstep => nomatch hstep⟩

theorem stepsValidated_next {cfg : TurnConfig} {st : LoopState σ}
    (h : StrictInvariant cfg.lib st.log st.lastStrictValidateCodeSha256) :
    StepsValidated cfg (.next st) := by
  refine ⟨h.runs, fun st' hstep => ?_⟩
  obtain rfl := Step.next.inj hstep
  exact h

/-- Events that start and validate nothing keep the invariant. -/
theorem StrictInvariant.append {lib : Library} {log added : List Event}
    {validated : Option String} (h : StrictInvariant lib log validated)
    (hadded : ∀ e ∈ added, startedProgram e = none) : StrictInvariant lib (log ++ added) validated := by
  constructor
  · refine h.runs.append fun e he code hcode => ?_
    rw [hadded e he] at hcode
    cases hcode
  · intro hash hhash
    obtain ⟨e, he, hcode⟩ := h.stored hash hhash
    exact ⟨e, List.mem_append_left _ he, hcode⟩

theorem StrictInvariant.core {cfg : TurnConfig} {c : Core} {st : LoopState σ}
    (h : StrictInvariant cfg.lib c.log c.validated) (hlog : st.log = c.log)
    (hvalidated : st.lastStrictValidateCodeSha256 = c.validated) :
    StrictInvariant cfg.lib st.log st.lastStrictValidateCodeSha256 := by
  rw [hlog, hvalidated]
  exact h

theorem EndsTurn.stepsValidated {cfg : TurnConfig} {c : Core} {step : Step σ}
    (hinv : StrictInvariant cfg.lib c.log c.validated) (h : EndsTurn c step) :
    StepsValidated cfg step := by
  obtain ⟨result, st', rfl, ⟨_, _, _, _, hcore⟩, _⟩ := h
  have hlog : st'.log = c.log := congrArg Core.log hcore
  apply stepsValidated_done
  rw [hlog]
  exact hinv.runs

theorem endTurn_stepsValidated {W : World σ} {cfg : TurnConfig} {iteration : Nat}
    {response : CompletionResponse} {st : LoopState σ}
    (hinv : StrictInvariant cfg.lib st.log st.lastStrictValidateCodeSha256) :
    StepsValidated cfg (endTurn W cfg iteration response st) := by
  rcases endTurn_cases W cfg iteration response st with
    ⟨_, st', hstep, _, _, _, _, _, hcore⟩ | hend
  · rw [hstep]
    apply stepsValidated_next
    exact hinv.core (c := st.core) (congrArg Core.log hcore) (congrArg Core.validated hcore)
  · exact hend.stepsValidated hinv

theorem toolRound_stepsValidated {W : World σ} {cfg : TurnConfig} {iteration : Nat}
    {response : CompletionResponse} {st : LoopState σ} (hstrict : cfg.allowNonStrict = false)
    (hinv : StrictInvariant cfg.lib st.log st.lastStrictValidateCodeSha256)
    (hown : ∀ ran ∈ roundOf W cfg response st, ValidatesOwn ran.1)
    (hfree : CollisionFree cfg.lib (toolRound W cfg iteration response st).state.log) :
    StepsValidated cfg (toolRound W cfg iteration response st) := by
  rcases toolRound_cases W cfg iteration response st with
    ⟨_, st', hstep, hcore⟩ | ⟨dispatches, parts, hround, hdecided, hmerged, hcases⟩
  · have hlog : st'.log = st.log := congrArg Core.log hcore
    rw [hstep]
    apply stepsValidated_done
    rw [hlog]
    exact hinv.runs
  · have hkept := fun hfree => hinv.round hstrict hdecided hmerged (hown _ hround) hfree
    rcases hcases with ⟨result, st', hstep, _, hcore⟩ | ⟨_, _, st', hstep, _, hcore⟩
    · have hlog : st'.log = roundLog cfg st.log dispatches parts := congrArg Core.log hcore
      rw [hstep, state_done, hlog] at hfree
      rw [hstep]
      apply stepsValidated_done
      rw [hlog]
      exact (hkept hfree).runs
    · have hlog : st'.log = roundLog cfg st.log dispatches parts := congrArg Core.log hcore
      have hvalidated : st'.lastStrictValidateCodeSha256 =
          validatedAfterRound cfg dispatches (parts.map Prod.fst)
            st.lastStrictValidateCodeSha256 := congrArg Core.validated hcore
      rw [hstep, state_next, hlog] at hfree
      rw [hstep]
      apply stepsValidated_next
      rw [hlog, hvalidated]
      exact hkept hfree

theorem handleResponse_stepsValidated {W : World σ} {cfg : TurnConfig} {iteration : Nat}
    {response : CompletionResponse} {st : LoopState σ} (hstrict : cfg.allowNonStrict = false)
    (hinv : StrictInvariant cfg.lib st.log st.lastStrictValidateCodeSha256)
    (hown : response.stopReason = .toolUse →
      ∀ ran ∈ roundOf W cfg response (st.logged response), ValidatesOwn ran.1)
    (hfree : CollisionFree cfg.lib (handleResponse W cfg iteration response st).state.log) :
    StepsValidated cfg (handleResponse W cfg iteration response st) := by
  have hinv' : StrictInvariant cfg.lib (st.logged response).log
      (st.logged response).lastStrictValidateCodeSha256 :=
    hinv.append fun e he => by
      obtain rfl := List.mem_singleton.mp he
      rfl
  rw [handleResponse_logged] at hfree ⊢
  cases hstop : response.stopReason with
  | endTurn => exact endTurn_stepsValidated hinv'
  | stopSequence => exact endTurn_stepsValidated hinv'
  | toolUse =>
      rw [hstop] at hfree
      exact toolRound_stepsValidated hstrict hinv' (hown hstop) hfree
  | maxTokens =>
      rcases continueTokens_cases W cfg iteration response (st.logged response) with
        ⟨st', hnext, hcore⟩ | hend
      · simp only [hnext]
        apply stepsValidated_next
        exact hinv'.core (c := (st.logged response).core) (congrArg Core.log hcore)
          (congrArg Core.validated hcore)
      · exact hend.stepsValidated hinv'

/-- **The step lemma.** An iteration that meets the condition keeps the invariant. -/
theorem iterate_stepsValidated {W : World σ} {cfg : TurnConfig} {iteration : Nat}
    {st : LoopState σ} (hstrict : cfg.allowNonStrict = false)
    (hinv : StrictInvariant cfg.lib st.log st.lastStrictValidateCodeSha256)
    (hkept : StrictKept W cfg iteration st)
    (hfree : CollisionFree cfg.lib (iterate W cfg iteration st).state.log) :
    StepsValidated cfg (iterate W cfg iteration st) := by
  have hvalidated : (prepareRequest W cfg st).lastStrictValidateCodeSha256 =
      st.lastStrictValidateCodeSha256 := congrArg Core.validated (prepareRequest_core W cfg st)
  have hplan : RunsValidated cfg.lib
      (st.log ++ planned W cfg iteration (prepareRequest W cfg st)) := by
    unfold planned
    split
    · rename_i hfirst
      exact hinv.runs.plan (by simp) (hkept.plan hfirst.1 hfirst.2)
    · rw [List.append_nil]
      exact hinv.runs
  rcases iterate_cases W cfg iteration st with
    ⟨_, st', _, hstep, _, hcore⟩ | ⟨requests, ready, asked, _, hready, honly, hasked, h⟩
  · have hlog : st'.log = st.log ++ planned W cfg iteration (prepareRequest W cfg st) :=
      congrArg Core.log hcore
    rw [hstep]
    apply stepsValidated_done
    rw [hlog]
    exact hplan
  · have hreadyLog : ready.log = st.log ++ planned W cfg iteration (prepareRequest W cfg st) :=
      congrArg Core.log hready
    have hreadyHash : ready.lastStrictValidateCodeSha256 =
        (prepareRequest W cfg st).lastStrictValidateCodeSha256 := congrArg Core.validated hready
    have hinv' : StrictInvariant cfg.lib ready.log ready.lastStrictValidateCodeSha256 := by
      rw [hreadyLog, hreadyHash, hvalidated]
      refine ⟨hplan, fun hash hhash => ?_⟩
      obtain ⟨e, he, hcode⟩ := hinv.stored hash hhash
      exact ⟨e, List.mem_append_left _ he, hcode⟩
    have hquiet : ∀ e ∈ requests, startedProgram e = none := by
      intro e he
      obtain ⟨_, _, rfl, _⟩ := honly e he
      rfl
    have haskedInv : StrictInvariant cfg.lib asked.log asked.lastStrictValidateCodeSha256 :=
      (hinv'.append hquiet).core (c := { ready.core with log := ready.log ++ requests })
        (congrArg Core.log hasked) (congrArg Core.validated hasked)
    rcases h with ⟨e, hstep⟩ | ⟨response, hhandled, hstep⟩
    · rw [hstep]
      exact stepsValidated_done haskedInv.runs
    · rw [hstep] at hfree ⊢
      exact handleResponse_stepsValidated hstrict haskedInv (hkept.round _ hhandled) hfree

section Turn

variable {W : World σ} {cfg : TurnConfig} {session : List Message} {world : σ}

/-- **The run lemma.** Every state before an iteration meets the invariant. -/
theorem Reaches.strictInvariant (hstrict : cfg.allowNonStrict = false)
    (hfree : CollisionFree cfg.lib (runAgentLoop W cfg session world).2.log)
    (hkept : ∀ iteration st, Reaches W cfg session world iteration st →
      iteration < cfg.maxIterations → StrictKept W cfg iteration st)
    {iteration : Nat} {st : LoopState σ} (h : Reaches W cfg session world iteration st) :
    StrictInvariant cfg.lib st.log st.lastStrictValidateCodeSha256 := by
  induction h with
  | start => exact ⟨preceded_nil, fun _ hhash => nomatch hhash⟩
  | @next iteration st st' hreach hlt hstep ih =>
      have hfree' : CollisionFree cfg.lib (iterate W cfg iteration st).state.log := by
        rw [hstep]
        exact hfree.of_longer (hreach.next hlt hstep).log_grows
      exact (iterate_stepsValidated hstrict ih (hkept iteration st hreach hlt) hfree').2 st' hstep

/-- In a turn that is not asked for non-strict mode, every program that is run was strictly
validated before, when a plan gates its own steps and each round reads a validation with the
arguments of its own call. -/
theorem run_programs_validated (hstrict : cfg.allowNonStrict = false)
    (hfree : CollisionFree cfg.lib (runAgentLoop W cfg session world).2.log)
    (hkept : ∀ iteration st, Reaches W cfg session world iteration st →
      iteration < cfg.maxIterations → StrictKept W cfg iteration st) :
    RunsValidated cfg.lib (runAgentLoop W cfg session world).2.log := by
  refine runAgentLoop_rule (Q := fun _ st => RunsValidated cfg.lib st.log) ?_ ?_
  · intro iteration st result st' hreach hlt hstep
    have hinv := hreach.strictInvariant hstrict hfree hkept
    have hfree' : CollisionFree cfg.lib (iterate W cfg iteration st).state.log := by
      rw [hreach.done hlt hstep] at hfree
      rw [hstep]
      exact hfree
    have h := (iterate_stepsValidated hstrict hinv (hkept iteration st hreach hlt) hfree').1
    rw [hstep] at h
    exact h
  · intro st hreach
    exact (hreach.strictInvariant hstrict hfree hkept).runs

end Turn

/-! ### Turns that can be computed -/

instance (lib : Library) (log : List Event) : Decidable (RunsValidated lib log) :=
  inferInstanceAs (Decidable (Preceded _ _ log))

instance (lib : Library) (log : List Event) : Decidable (CollisionFree lib log) :=
  inferInstanceAs (Decidable (∀ c ∈ _, ∀ c' ∈ _, _ → _))

instance decidablePlanGated (W : World σ) (cfg : TurnConfig) :
    ∀ (seen : List String) (steps : List ToolCall) (st : LoopState σ),
      Decidable (PlanGated W cfg seen steps st)
  | _, [], _ => .isTrue trivial
  | seen, step :: rest, st =>
      have : Decidable (PlanGated W cfg
          (seen ++ (stepEvents W cfg step st).filterMap (strictlyValidated cfg.lib)) rest
          (dispatchPlannedToolCall W cfg step st)) :=
        decidablePlanGated W cfg _ rest _
      inferInstanceAs (Decidable (_ ∧ _))

instance (W : World σ) (cfg : TurnConfig) (iteration : Nat) (st : LoopState σ) :
    Decidable (StrictKept W cfg iteration st) :=
  decidable_of_iff
    ((iteration = 0 → cfg.plannerPathEligible = true →
        PlanGated W cfg [] (plannedSteps W (prepareRequest W cfg st))
          (planState W (prepareRequest W cfg st))) ∧
      ∀ r ∈ handled W cfg iteration st, r.1.stopReason = .toolUse →
        ∀ ran ∈ roundOf W cfg r.1 (r.2.logged r.1), ValidatesOwn ran.1)
    ⟨fun h => ⟨h.1, h.2⟩, fun h => ⟨h.plan, h.round⟩⟩

/-- A strict validation of a program. -/
def strictValidateCall (id code : String) : ToolCall :=
  ⟨id, "mcp_ainl_ainl_validate", .obj [("code", .str code), ("strict", .bool true)]⟩

/-- A run of a program. -/
def runCall (id code : String) : ToolCall :=
  ⟨id, "mcp_ainl_ainl_run", .obj [("code", .str code)]⟩

/-- Two programs are validated, and the second is run. -/
def validatedScript : Script where
  replies :=
    [.ok (callReply [strictValidateCall "c1" "R 1", strictValidateCall "c2" "R 2"]),
      .ok (callReply [runCall "c3" "R 2"]), .ok (textReply "It returns 2.")]
  outcomes := [⟨okBody, false⟩, ⟨okBody, false⟩, ⟨okBody, false⟩]

/-- The SHA-256 of the two programs. The loop guard alone hashes other texts, and they stand for
themselves. -/
def programSha256 (text : String) : String :=
  if text = "R 1" then "6b5f8c32314339bcffa5cd57ee865b7c5c0bf81200cc4afccb07c361e602f328"
  else if text = "R 2" then "b4ff968e54a421d5a0c81cdd28e8101a86f690f5b472dc65d45d94354476fee4"
  else text

/-- The turns below may validate and run programs. -/
def ainlTurn : TurnConfig :=
  { scriptedTurn ["mcp_ainl_ainl_validate", "mcp_ainl_ainl_run"] "Run it" 5 with
    lib := { asciiLibrary with sha256Hex := programSha256 } }

theorem run_programs_validated_once :
    let turn := runAgentLoop scriptedWorld ainlTurn [] validatedScript
    RunsValidated ainlTurn.lib turn.2.log := by
  have hstrict : ainlTurn.allowNonStrict = false := by decide +kernel
  have hfree : CollisionFree ainlTurn.lib
      (runAgentLoop scriptedWorld ainlTurn [] validatedScript).2.log := by
    decide +kernel
  have h : ∀ iteration < 5, ∀ st ∈ stateBefore scriptedWorld ainlTurn [] validatedScript iteration,
      StrictKept scriptedWorld ainlTurn iteration st := by
    decide +kernel
  exact run_programs_validated hstrict hfree
    fun iteration st hreach hlt => h iteration hlt st (reaches_iff.mp hreach)

/-- **Two turns that run a program without its strict validation.** The planner dispatches a
run without the check. Two validations share an id, and the success of the first is stored
under the hash of the second. -/
theorem run_without_validation :
    (let script : Script :=
      { replies := []
        outcomes := [⟨okBody, false⟩]
        plan := .executed ⟨10, 10, 0, 0⟩ [runCall "s1" "R 1"] (some "Done.") }
    let cfg := { ainlTurn with plannerPathEligible := true }
    cfg.allowNonStrict = false ∧
      ¬RunsValidated cfg.lib (runAgentLoop scriptedWorld cfg [] script).2.log) ∧
    (let script : Script :=
      { replies :=
          [.ok (callReply [strictValidateCall "c1" "R 1", strictValidateCall "c1" "R 2"]),
            .ok (callReply [runCall "c2" "R 2"]), .ok (textReply "It returns 2.")]
        outcomes := [⟨okBody, false⟩, ⟨failedBody, true⟩, ⟨okBody, false⟩] }
    ainlTurn.allowNonStrict = false ∧
      ¬RunsValidated ainlTurn.lib (runAgentLoop scriptedWorld ainlTurn [] script).2.log) := by
  decide +kernel

end ArmaraOS.Agent
