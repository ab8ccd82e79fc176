import ArmaraOS.Lib.Trace
import ArmaraOS.Runtime.DryPlans

/-!
What an execution of a plan has carried out when it reports success.

A turn of the loop works on one step, the first that is ready, and completes it, skips it or ends
the execution (`planTurn_spec`); everything else follows from that. A step is called for only after
its dependencies. The loop also ends where no step is ready, and then reports success, whatever is
left: a step whose dependencies cannot be met, or may be skipped, is passed over. And the limit on
steps is checked before the loop sees that nothing is left to do. Every execution makes a dry run
of the plan (`execute_spec`), and some surroundings follow any dry run (`followed_dryRun`), so that
a plan is carried out in all of them if and only if its dry runs are good (`kept_iff_dryKept`).
-/

namespace ArmaraOS.Runtime

open ArmaraOS.Lib

/-! ### One turn -/

/-- An event of the work on the step at a place. -/
def PlanEvent.worksOn (position : Nat) : PlanEvent → Prop
  | .called n _ _ _ => n = position
  | .inferred _ _ => True
  | .completed _ => False

/-- Work on the step at a place: it adds events of this work and decides nothing yet. -/
structure Worked (position : Nat) (st st' : PlanRun) : Prop where
  completed : st'.completed = st.completed
  skipped : st'.skipped = st.skipped
  outputs : st'.outputs = st.outputs
  events : ∃ work, st'.events = st.events ++ work ∧ ∀ event ∈ work, event.worksOn position

namespace Worked

variable {position : Nat} {st st' st'' : PlanRun}

theorem trans (h : Worked position st st') (h' : Worked position st' st'') :
    Worked position st st'' := by
  obtain ⟨work, hwork, hon⟩ := h.events
  obtain ⟨work', hwork', hon'⟩ := h'.events
  refine ⟨h'.completed.trans h.completed, h'.skipped.trans h.skipped, h'.outputs.trans h.outputs,
    work ++ work', ?_, ?_⟩
  · rw [hwork', hwork, List.append_assoc]
  · intro event hevent
    exact (List.mem_append.mp hevent).elim (hon event) (hon' event)

theorem record {event : PlanEvent} (h : event.worksOn position) (st : PlanRun) :
    Worked position st (st.record event) :=
  ⟨rfl, rfl, rfl, [event], rfl, fun _ hmem => List.mem_singleton.mp hmem ▸ h⟩

theorem refl (st : PlanRun) : Worked position st st :=
  ⟨rfl, rfl, rfl, [], (List.append_nil _).symm, fun _ hmem => absurd hmem List.not_mem_nil⟩

end Worked

section Turns

variable {env : PlanEnv} {plan : DeterministicPlan} {limits : PolicyCaps}

theorem worked_attempt (env : PlanEnv) (plan : DeterministicPlan) (st : PlanRun)
    (position : Nat) (stepId : String) (step : PlanStep) (args : Json) :
    Worked position st (attempt env plan st position stepId step args).2 := by
  refine Worked.record ?_ st
  rfl

theorem worked_attemptStep (env : PlanEnv) (plan : DeterministicPlan) (st : PlanRun)
    (position : Nat) (step : PlanStep) (args : Json) :
    Worked position st (attemptStep env plan st position step args).2 := by
  have hfirst := worked_attempt env plan st position step.id step args
  rw [attemptStep]
  split
  · rename_i st' hattempt
    rw [hattempt] at hfirst
    exact hfirst
  · rename_i st' hattempt
    rw [hattempt] at hfirst
    split
    · exact hfirst.trans (worked_attempt env plan st' position step.id step args)
    · exact hfirst

/-- A call has failed. -/
def CallFailed (st : PlanRun) : Prop :=
  ∃ position tool args e, .called position tool args (.error e) ∈ st.events

/-- A failure that `attemptStep` returns is the last call's. -/
theorem callFailed_attemptStep {st st' : PlanRun} {position : Nat} {step : PlanStep} {args : Json}
    {e : PlanStepError} (h : attemptStep env plan st position step args = (.error e, st')) :
    CallFailed st' := by
  have hlast : ∀ {st st' : PlanRun} {e : PlanStepError},
      attempt env plan st position step.id step args = (.error e, st') → CallFailed st' := by
    intro st st' e hattempt
    rw [attempt, Prod.mk.injEq] at hattempt
    obtain ⟨hout, rfl⟩ := hattempt
    refine ⟨position, step.tool, args, e, List.mem_append_right _ (List.mem_singleton.mpr ?_)⟩
    rw [hout]
  rw [attemptStep] at h
  split at h
  · cases h
  · rename_i hfirst
    split at h
    · exact hlast h
    · cases h
      exact hlast hfirst

/-- How the loop may end other than by success or at the limit on steps. -/
def GivesUp (out : Except PlanExecutionError PlanExecutionResult) : Prop :=
  out ≠ .error .maxStepsExceeded ∧ ∀ result, out = .ok result → result.fellBackToLegacy = true

theorem givesUp_error {e : PlanExecutionError} (h : e ≠ .maxStepsExceeded) :
    GivesUp (.error e) := by
  refine ⟨fun heq => h (Except.error.inj heq), fun result heq => ?_⟩
  cases heq

/-- The loop takes a step: there is room, it is the first that is ready, and its arguments can be
filled in. -/
structure Takes (plan : DeterministicPlan) (limits : PolicyCaps) (st : PlanRun) (step : PlanStep)
    (position : Nat) : Prop where
  room : st.completed.length < max limits.maxSteps 1
  next : TakesNext plan st.completed st.skipped step position
  args : ∃ args, resolveOutputTemplates st.outputs step.args = .ok args

/-- What one turn can do. -/
inductive TurnSpec (plan : DeterministicPlan) (limits : PolicyCaps) (st : PlanRun) :
    Lib.Turn PlanRun PlanOutcome → Prop where
  | maxSteps : max limits.maxSteps 1 ≤ st.completed.length →
      TurnSpec plan limits st (.exit (.error .maxStepsExceeded, st.events))
  | done : st.completed.length < max limits.maxSteps 1 →
      (∀ step ∈ plan.steps, ¬ Ready st.completed st.skipped step) →
      TurnSpec plan limits st (.exit (.ok (st.result false), st.events))
  | wallClock : TurnSpec plan limits st (.exit (.error .wallClockExceeded, st.events))
  | givesUp {step : PlanStep} {position : Nat} {st' : PlanRun}
      {out : Except PlanExecutionError PlanExecutionResult} :
      TakesNext plan st.completed st.skipped step position → Worked position st st' →
      GivesUp out → TurnSpec plan limits st (.exit (out, st'.events))
  | completes {step : PlanStep} {position : Nat} {st' : PlanRun} {v : Json} :
      Takes plan limits st step position → Worked position st st' →
      TurnSpec plan limits st (.next (st'.complete position step.id v))
  | skips {step : PlanStep} {position : Nat} {st' : PlanRun} :
      Takes plan limits st step position → Worked position st st' → CallFailed st' →
      step.optional = true → TurnSpec plan limits st (.next (st'.skip step.id))

section Step

variable {st st' : PlanRun} {step : PlanStep} {position : Nat}

theorem localPatch_spec {e : PlanStepError} (htakes : Takes plan limits st step position)
    (hworked : Worked position st st') :
    TurnSpec plan limits st (localPatch env plan limits st' position step e) := by
  unfold localPatch
  split
  · exact .givesUp htakes.next hworked (givesUp_error (by simp))
  · split
    · exact .givesUp htakes.next hworked (givesUp_error (by simp))
    · rename_i infer _
      dsimp only
      set context : RepairContext := ⟨step.id, step.tool, e.toMessage, st'.outputsValue⟩
      have hinferred : Worked position st
          (st'.record (.inferred context (infer st'.events context))) := by
        refine hworked.trans (Worked.record ?_ st')
        trivial
      split
      · exact .givesUp htakes.next hinferred (givesUp_error (by simp))
      · have hcounted : Worked position st
            { st'.record (.inferred context (infer st'.events context)) with
              replansUsed := (st'.record (.inferred context
                (infer st'.events context))).replansUsed + 1 } :=
          ⟨hinferred.completed, hinferred.skipped, hinferred.outputs, hinferred.events⟩
        split
        · refine .givesUp htakes.next hinferred ⟨fun h => ?_, fun result h => ?_⟩
          · cases h
          · cases h
            rfl
        · split
          · exact .givesUp htakes.next hinferred (givesUp_error (by simp))
          · rename_i replacement _
            split
            · exact .givesUp htakes.next hinferred (givesUp_error (by simp))
            · rename_i mergedArgs _
              have hattempted := hcounted.trans
                (worked_attempt env plan _ position step.id replacement mergedArgs)
              split
              · rename_i hattempt
                rw [hattempt] at hattempted
                exact .completes htakes hattempted
              · rename_i hattempt
                rw [hattempt] at hattempted
                exact .givesUp htakes.next hattempted (givesUp_error (by simp))

theorem runStep_spec (hroom : st.completed.length < max limits.maxSteps 1)
    (hnext : TakesNext plan st.completed st.skipped step position) :
    TurnSpec plan limits st (runStep env plan limits st step position) := by
  unfold runStep
  split
  · exact .givesUp hnext (.refl st) (givesUp_error (by simp))
  · rename_i args hargs
    have htakes : Takes plan limits st step position := ⟨hroom, hnext, args, hargs⟩
    have hworked := worked_attemptStep env plan st position step args
    split
    · rename_i hattempt
      rw [hattempt] at hworked
      exact .completes htakes hworked
    · rename_i hattempt
      rw [hattempt] at hworked
      split
      · rename_i hoptional
        exact .skips htakes hworked (callFailed_attemptStep hattempt) hoptional
      · split
        · exact localPatch_spec htakes hworked
        · exact .givesUp hnext hworked (givesUp_error (by simp))

end Step

theorem planTurn_spec (env : PlanEnv) (plan : DeterministicPlan) (limits : PolicyCaps)
    (st : PlanRun) : TurnSpec plan limits st (planTurn env plan limits st) := by
  unfold planTurn
  split
  · exact .wallClock
  · split
    · rename_i hmax
      exact .maxSteps hmax
    · rename_i hmax
      split
      · rename_i hnone
        exact .done (not_le.mp hmax) (find_ready_none.mp hnone)
      · rename_i step position hfind
        exact runStep_spec (not_le.mp hmax) (find_ready_iff.mp hfind)

end Turns

/-! ### The loop -/

theorem PlanRun.mem_complete {st : PlanRun} {position : Nat} {stepId d : String} {v : Json} :
    d ∈ (st.complete position stepId v).completed ↔ d = stepId ∨ d ∈ st.completed := by
  rw [PlanRun.complete]
  dsimp only
  split
  · rename_i hmem
    exact ⟨.inr, fun h => h.elim (fun heq => heq ▸ hmem) id⟩
  · exact List.mem_cons

theorem countP_lt_of_mem {α : Type} {p q : α → Bool} {xs : List α} {x : α} (hx : x ∈ xs)
    (hle : ∀ y, p y = true → q y = true) (hq : q x = true) (hp : p x = false) :
    xs.countP p < xs.countP q := by
  obtain ⟨front, back, rfl⟩ := List.append_of_mem hx
  have hfront := List.countP_mono_left (l := front) fun y _ => hle y
  have hback := List.countP_mono_left (l := back) fun y _ => hle y
  rw [List.countP_append, List.countP_append, List.countP_cons_of_pos hq,
    List.countP_cons_of_neg (by simp [hp])]
  omega

/-- A ready step is open, and it is not after it is completed or skipped. -/
theorem openSteps_lt {plan : DeterministicPlan} {st st' : PlanRun} {step : PlanStep}
    (hmem : step ∈ plan.steps) (hready : Ready st.completed st.skipped step)
    (hcompleted : ∀ d ∈ st.completed, d ∈ st'.completed)
    (hskipped : ∀ d ∈ st.skipped, d ∈ st'.skipped)
    (hdone : step.id ∈ st'.completed ∨ step.id ∈ st'.skipped) :
    openSteps plan st' < openSteps plan st := by
  refine countP_lt_of_mem hmem (fun other hother => ?_) ?_ ?_
  · simp only [List.contains_eq_mem, Bool.and_eq_true, Bool.not_eq_true',
      decide_eq_false_iff_not] at hother ⊢
    exact ⟨fun h => hother.1 (hcompleted _ h), fun h => hother.2 (hskipped _ h)⟩
  · simp [hready.pending, hready.kept]
  · rcases hdone with h | h
    · simp [h]
    · simp [h]

theorem descends (env : PlanEnv) (plan : DeterministicPlan) (limits : PolicyCaps)
    (st st' : PlanRun) (h : planTurn env plan limits st = .next st') :
    openSteps plan st' < openSteps plan st := by
  have hspec := planTurn_spec env plan limits st
  rw [h] at hspec
  cases hspec with
  | completes htakes hworked =>
      refine openSteps_lt htakes.next.mem htakes.next.ready (fun d hd => ?_) (fun d hd => ?_)
        (.inl ?_)
      · rw [← hworked.completed] at hd
        exact PlanRun.mem_complete.mpr (.inr hd)
      · rw [← hworked.skipped] at hd
        exact hd
      · exact PlanRun.mem_complete.mpr (.inl rfl)
  | skips htakes hworked _ _ =>
      refine openSteps_lt htakes.next.mem htakes.next.ready (fun d hd => ?_) (fun d hd => ?_)
        (.inr ?_)
      · rw [← hworked.completed] at hd
        exact hd
      · rw [← hworked.skipped] at hd
        exact List.mem_append_left _ hd
      · exact List.mem_append_right _ (List.mem_singleton.mpr rfl)

/-- The loop of `execute`. -/
def planLoop (env : PlanEnv) (plan : DeterministicPlan) (limits : PolicyCaps) :
    Loop PlanRun PlanOutcome :=
  ⟨planTurn env plan limits, openSteps plan, descends env plan limits⟩

/-- `PlanExecutor::execute`. -/
def execute (env : PlanEnv) (plan : DeterministicPlan) (limits : PolicyCaps) : PlanOutcome :=
  (planLoop env plan limits).run {}

/-! ### What every run keeps -/

/-- The id an event needs to have completed before it. -/
def needsId (plan : DeterministicPlan) (d : String) : PlanEvent → Option String
  | .called n _ _ _ =>
      match plan.steps[n]? with
      | some step => if d ∈ step.dependsOn then some d else none
      | none => none
  | _ => none

/-- An event that completes an id. -/
def completesId (plan : DeterministicPlan) (d : String) : PlanEvent → Bool
  | .completed n => (plan.steps[n]?).any fun step => step.id == d
  | _ => false

/-- A call for a step comes after the completion of every id in its `depends_on`. -/
def DependenciesFirst (plan : DeterministicPlan) (events : List PlanEvent) : Prop :=
  ∀ d, Preceded (needsId plan d) (completesId plan) events

/-- What holds at every turn: the state is that of a dry run, of which the events tell. -/
structure PlanInv (plan : DeterministicPlan) (limits : PolicyCaps) (st : PlanRun) : Prop where
  dry : ∃ done, DryRun plan limits st.completed st.skipped done ∧
    ∀ position ∈ done, .completed position ∈ st.events
  completed : ∀ d ∈ st.completed, ∃ event ∈ st.events, completesId plan d event = true
  outputs : ∀ output ∈ st.outputs, output.1 ∈ st.completed
  failed : st.skipped ≠ [] → CallFailed st
  order : DependenciesFirst plan st.events

namespace PlanInv

variable {plan : DeterministicPlan} {limits : PolicyCaps} {st st' : PlanRun} {step : PlanStep}
  {position : Nat}

theorem init (plan : DeterministicPlan) (limits : PolicyCaps) : PlanInv plan limits {} where
  dry := ⟨[], .start, fun _ h => absurd h List.not_mem_nil⟩
  completed _ h := absurd h List.not_mem_nil
  outputs _ h := absurd h List.not_mem_nil
  failed h := absurd rfl h
  order _ := preceded_nil

/-- The calls for a ready step come after its dependencies. -/
theorem order_worked (h : PlanInv plan limits st)
    (hnext : TakesNext plan st.completed st.skipped step position)
    (hworked : Worked position st st') : DependenciesFirst plan st'.events := by
  obtain ⟨work, hwork, hon⟩ := hworked.events
  intro d
  rw [hwork]
  refine (h.order d).append fun event hevent f hneeds => ?_
  cases event with
  | called n tool args result =>
      have hn : n = position := hon _ hevent
      rw [hn, needsId, hnext.place] at hneeds
      dsimp only at hneeds
      split at hneeds
      · rename_i hd
        cases hneeds
        exact h.completed d (hnext.ready.depends d hd)
      · cases hneeds
  | inferred context result => cases hneeds
  | completed n => cases hneeds

/-- Work on a step keeps what holds. -/
theorem worked (h : PlanInv plan limits st)
    (hnext : TakesNext plan st.completed st.skipped step position)
    (hworked : Worked position st st') : PlanInv plan limits st' := by
  have horder := h.order_worked hnext hworked
  obtain ⟨hcompleted, hskipped, houtputs, work, hwork, -⟩ := hworked
  have hkeeps : ∀ event ∈ st.events, event ∈ st'.events :=
    fun event hevent => hwork ▸ List.mem_append_left _ hevent
  refine ⟨?_, ?_, ?_, ?_, horder⟩
  · obtain ⟨done, hrun, hdone⟩ := h.dry
    rw [hcompleted, hskipped]
    exact ⟨done, hrun, fun position hposition => hkeeps _ (hdone position hposition)⟩
  · intro d hd
    rw [hcompleted] at hd
    obtain ⟨event, hevent, hcompletes⟩ := h.completed d hd
    exact ⟨event, hkeeps event hevent, hcompletes⟩
  · rw [houtputs, hcompleted]
    exact h.outputs
  · rw [hskipped]
    intro hne
    obtain ⟨n, tool, args, e, hcall⟩ := h.failed hne
    exact ⟨n, tool, args, e, hkeeps _ hcall⟩

/-- The arguments of a step that is taken name ids that have completed. -/
theorem resolvable (h : PlanInv plan limits st) (htakes : Takes plan limits st step position) :
    Resolvable st.completed step.args := by
  intro parts hparts
  obtain ⟨stepId, key, path, out, v, rfl, hlookup, -⟩ :=
    resolves_iff step.args |>.mp htakes.args parts hparts
  obtain ⟨output, houtput, hid⟩ :=
    List.lookup_isSome_iff.mp (Option.isSome_of_eq_some hlookup)
  exact ⟨stepId, key, path, rfl, beq_iff_eq.mp hid ▸ h.outputs output houtput⟩

theorem complete (h : PlanInv plan limits st') (hworked : Worked position st st')
    (htakes : Takes plan limits st step position) (hargs : Resolvable st.completed step.args)
    (v : Json) : PlanInv plan limits (st'.complete position step.id v) where
  dry := by
    obtain ⟨done, hrun, hdone⟩ := h.dry
    rw [hworked.completed, hworked.skipped] at hrun
    have hids : (st'.complete position step.id v).completed = step.id :: st.completed := by
      rw [PlanRun.complete, hworked.completed]
      exact if_neg htakes.next.ready.pending
    refine ⟨position :: done, ?_, fun n hn => ?_⟩
    · rw [hids, show (st'.complete position step.id v).skipped = st.skipped from hworked.skipped]
      exact hrun.takes htakes.room htakes.next hargs
    · rcases List.mem_cons.mp hn with rfl | hn
      · exact List.mem_append_right _ (List.mem_singleton_self _)
      · exact List.mem_append_left _ (hdone n hn)
  completed d hd := by
    rcases PlanRun.mem_complete.mp hd with rfl | hd
    · refine ⟨.completed position, List.mem_append_right _ (List.mem_singleton.mpr rfl), ?_⟩
      rw [completesId, htakes.next.place]
      exact beq_self_eq_true step.id
    · obtain ⟨event, hevent, hcompletes⟩ := h.completed d hd
      exact ⟨event, List.mem_append_left _ hevent, hcompletes⟩
  outputs output houtput := by
    rcases List.mem_cons.mp houtput with rfl | houtput
    · exact PlanRun.mem_complete.mpr (.inl rfl)
    · exact PlanRun.mem_complete.mpr (.inr (h.outputs output (List.mem_of_mem_filter houtput)))
  failed hne := by
    obtain ⟨n, tool, args, e, hcall⟩ := h.failed hne
    exact ⟨n, tool, args, e, List.mem_append_left _ hcall⟩
  order d := by
    refine (h.order d).append fun event hevent f hneeds => ?_
    rw [List.mem_singleton.mp hevent] at hneeds
    cases hneeds

theorem skip (h : PlanInv plan limits st') (hworked : Worked position st st')
    (htakes : Takes plan limits st step position) (hargs : Resolvable st.completed step.args)
    (hfailed : CallFailed st') (hoptional : step.optional = true) :
    PlanInv plan limits (st'.skip step.id) where
  dry := by
    obtain ⟨done, hrun, hdone⟩ := h.dry
    rw [hworked.completed, hworked.skipped] at hrun
    refine ⟨done, ?_, hdone⟩
    rw [PlanRun.skip, hworked.completed, hworked.skipped]
    exact hrun.skips htakes.room htakes.next hargs hoptional
  completed := h.completed
  outputs := h.outputs
  failed _ := hfailed
  order := h.order

/-- A turn keeps what holds. -/
theorem next (h : PlanInv plan limits st) (hspec : TurnSpec plan limits st (.next st')) :
    PlanInv plan limits st' := by
  cases hspec with
  | completes htakes hworked =>
      exact (h.worked htakes.next hworked).complete hworked htakes (h.resolvable htakes) _
  | skips htakes hworked hfailed hoptional =>
      exact (h.worked htakes.next hworked).skip hworked htakes (h.resolvable htakes) hfailed
        hoptional

end PlanInv

/-- An execution ends by a turn out of a state in which all that holds at every turn does. -/
theorem execute_spec (env : PlanEnv) (plan : DeterministicPlan) (limits : PolicyCaps) :
    ∃ st, PlanInv plan limits st ∧ TurnSpec plan limits st (.exit (execute env plan limits)) := by
  refine (planLoop env plan limits).run_of_invariant (PlanInv plan limits)
    (fun out => ∃ st, PlanInv plan limits st ∧ TurnSpec plan limits st (.exit out))
    (fun st st' h hbody => ?_) (fun st out h hbody => ⟨st, h, ?_⟩) (PlanInv.init plan limits)
  · have hspec := planTurn_spec env plan limits st
    rw [show planTurn env plan limits st = .next st' from hbody] at hspec
    exact h.next hspec
  · have hspec := planTurn_spec env plan limits st
    rwa [show planTurn env plan limits st = .exit out from hbody] at hspec

/-! ### Success -/

/-- An execution that reports success has completed every step that is not optional. -/
def CarriedOut (plan : DeterministicPlan) (out : PlanOutcome) : Prop :=
  ∀ result, out.1 = .ok result → result.fellBackToLegacy = false →
    ∀ (position : Nat) (step : PlanStep), plan.steps[position]? = some step →
      step.optional = false → .completed position ∈ out.2

/-- An execution of no more steps than allowed, in time and without a failed call, does not end at
the limit on steps. -/
def WithinLimit (env : PlanEnv) (plan : DeterministicPlan) (limits : PolicyCaps)
    (out : PlanOutcome) : Prop :=
  plan.steps.length ≤ limits.maxSteps → (∀ events, env.elapsedMs events ≤ limits.maxWallMs) →
    (∀ position tool args result, .called position tool args result ∈ out.2 →
      ∃ v, result = .ok v) →
    out.1 ≠ .error .maxStepsExceeded

section Success

variable {env : PlanEnv} {plan : DeterministicPlan} {limits : PolicyCaps}

/-- Success means that the plan is carried out, where its dry runs are good. -/
theorem carriedOut_of_dryKept (h : DryKept plan limits) :
    CarriedOut plan (execute env plan limits) := by
  intro result hok hfell position step hstep hoptional
  obtain ⟨st, hinv, hspec⟩ := execute_spec env plan limits
  generalize execute env plan limits = out at hok hspec
  cases hspec with
  | maxSteps _ => cases hok
  | wallClock => cases hok
  | givesUp _ _ hgives =>
      rw [hgives.2 result hok] at hfell
      cases hfell
  | done hroom hnone =>
      obtain ⟨done, hrun, hdone⟩ := hinv.dry
      exact hdone position (h.success _ _ _ hrun hroom hnone position step hstep hoptional)

/-- The limit on steps does not end an execution that it has room for. -/
theorem withinLimit_of_dryKept (h : DryKept plan limits) :
    WithinLimit env plan limits (execute env plan limits) := by
  intro hlength _ hcalls herror
  obtain ⟨st, hinv, hspec⟩ := execute_spec env plan limits
  generalize execute env plan limits = out at herror hcalls hspec
  cases hspec with
  | done _ _ => cases herror
  | wallClock => cases herror
  | givesUp _ _ hgives => exact hgives.1 herror
  | maxSteps hmax =>
      have hskipped : st.skipped = [] := by
        by_contra hne
        obtain ⟨n, tool, args, e, hcall⟩ := hinv.failed hne
        obtain ⟨v, hv⟩ := hcalls n tool args _ hcall
        cases hv
      obtain ⟨done, hrun, -⟩ := hinv.dry
      rw [hskipped] at hrun
      exact absurd hmax (not_le.mpr (h.room hlength _ _ hrun))

/-- The calls of every execution come after what they depend on. -/
theorem dependenciesFirst_execute (env : PlanEnv) (plan : DeterministicPlan) (limits : PolicyCaps) :
    DependenciesFirst plan (execute env plan limits).2 := by
  obtain ⟨st, hinv, hspec⟩ := execute_spec env plan limits
  generalize execute env plan limits = out at hspec
  cases hspec with
  | maxSteps _ => exact hinv.order
  | wallClock => exact hinv.order
  | done _ _ => exact hinv.order
  | givesUp hnext hworked _ => exact hinv.order_worked hnext hworked

end Success

/-! ### Surroundings that follow a dry run -/

/-- Surroundings in which every call is answered with one value, but for the calls for some steps,
which fail. -/
def answering (v : Json) (refused : List String) : PlanEnv where
  elapsedMs _ := 0
  dispatch _ stepId _ _ := if stepId ∈ refused then .error .timeout else .ok v
  reasoningDriver := some fun _ request =>
    if request.stepId ∈ refused then .error (.lasting "model not found") else .ok "answer"
  nativeInfer := none
  jsonFromStr _ := .ok v
  stepFromValue _ := .error "missing field id"
  validate _ _ := .ok ()

section Answering

variable {plan : DeterministicPlan} {limits : PolicyCaps} {v : Json} {refused : List String}
  {st : PlanRun} {step : PlanStep} {position : Nat} {args : Json}

variable (refused) in
theorem validate_answering {declared : Json} (hobject : ∃ fields, v = .obj fields)
    (hrequired : ∀ key ∈ requiredKeys declared, ∃ found, v.get key = some found) :
    validateAgainstSchema (answering v refused) v declared = .ok () := by
  obtain ⟨fields, rfl⟩ := hobject
  have hmissing : (requiredKeys declared).find? (fun key => ((Json.obj fields).get key).isNone) =
      none :=
    List.find?_eq_none.mpr fun key hkey => by
      obtain ⟨found, hfound⟩ := hrequired key hkey
      rw [hfound]
      exact Bool.false_ne_true
  rw [requiredKeys] at hmissing
  unfold validateAgainstSchema
  cases hreq : declared.get "required" with
  | none => rfl
  | some required =>
      rw [hreq] at hmissing
      cases required with
      | arr req =>
          dsimp only at hmissing ⊢
          rw [hmissing]
          rfl
      | _ => rfl

theorem runReasoningStep_answering (hfits : FitsAll plan v) (hmem : step ∈ plan.steps) :
    runReasoningStep (answering v refused) st step args =
      if step.id ∈ refused then .error (.deterministic "model not found") else .ok v := by
  by_cases hrefused : step.id ∈ refused
  · simp [runReasoningStep, answering, hrefused]
  · rw [if_neg hrefused, runReasoningStep]
    simp only [answering, hrefused, if_false]
    cases hschema : step.expectedOutputSchema with
    | none => rfl
    | some declared =>
        have hvalid := validate_answering refused hfits.object
          (hfits.required step hmem declared hschema)
        rw [answering] at hvalid
        simp only [hvalid]

variable (refused position args) in
/-- A call succeeds unless it is refused. -/
theorem attempt_answering (hfits : FitsAll plan v) (hmem : step ∈ plan.steps) (st : PlanRun) :
    ∃ out, attempt (answering v refused) plan st position step.id step args =
        (out, st.record (.called position step.tool args out)) ∧
      (step.id ∉ refused → out = .ok v) ∧ (step.id ∈ refused → ∃ e, out = .error e) := by
  refine ⟨_, rfl, fun h => ?_, fun h => ?_⟩
  · split
    · rw [runReasoningStep_answering hfits hmem, if_neg h]
    · simp [answering, h]
  · split
    · rw [runReasoningStep_answering hfits hmem, if_pos h]
      exact ⟨_, rfl⟩
    · simp [answering, h]

/-- What holds of a run that follows a dry run: the states agree, every output is the value, and no
call has failed before something is skipped. -/
structure Follows (v : Json) (completed skipped : List String) (done : List Nat) (st : PlanRun) :
    Prop where
  sameCompleted : st.completed = completed
  sameSkipped : st.skipped = skipped
  outputs : ∀ d ∈ completed, st.outputs.lookup d = some v
  places : ∀ position, .completed position ∈ st.events → position ∈ done
  calls : skipped = [] → ¬ CallFailed st

variable {completed skipped : List String} {done : List Nat}

/-- The arguments of a step that a dry run takes can be filled in. -/
theorem Follows.resolves (hfollows : Follows v completed skipped done st)
    (hfits : FitsAll plan v) (hmem : step ∈ plan.steps)
    (hargs : Resolvable completed step.args) :
    ∃ args, resolveOutputTemplates st.outputs step.args = .ok args := by
  refine (resolves_iff step.args).mpr fun parts hparts => ?_
  obtain ⟨stepId, key, path, rfl, hid⟩ := hargs parts hparts
  obtain ⟨found, hfound⟩ := hfits.paths step hmem _ hparts
  exact ⟨stepId, key, path, v, found, rfl, hfollows.outputs stepId hid, hfound⟩

theorem lookup_complete_ne {d : String} (h : d ≠ step.id) :
    (st.complete position step.id v).outputs.lookup d = st.outputs.lookup d := by
  rw [PlanRun.complete]
  dsimp only
  rw [List.lookup_cons, beq_eq_false_iff_ne.mpr h]
  dsimp only
  induction st.outputs with
  | nil => rfl
  | cons output outputs ih =>
      by_cases hid : output.1 = step.id
      · rw [List.filter_cons_of_neg (by simp [hid]), ih, List.lookup_cons, hid,
          beq_eq_false_iff_ne.mpr h]
      · rw [List.filter_cons_of_pos (by simpa using hid), List.lookup_cons, List.lookup_cons, ih]

/-- A turn takes the step that the dry run takes, and completes it unless it is refused. -/
theorem Follows.turn_takes (hfollows : Follows v completed skipped done st)
    (hfits : FitsAll plan v) (hroom : completed.length < max limits.maxSteps 1)
    (hnext : TakesNext plan completed skipped step position)
    (hargs : Resolvable completed step.args) (haccepted : step.id ∉ refused) :
    ∃ st', planTurn (answering v refused) plan limits st = .next st' ∧
      Follows v (step.id :: completed) skipped (position :: done) st' := by
  obtain ⟨args, hresolved⟩ := hfollows.resolves hfits hnext.mem hargs
  obtain ⟨out, hattempt, hout, -⟩ := attempt_answering refused position args hfits hnext.mem st
  obtain rfl := hout haccepted
  obtain ⟨rfl, rfl, houtputs, hdone, hcalls⟩ := hfollows
  refine ⟨(st.record (.called position step.tool args (.ok v))).complete position step.id v, ?_,
    ?_, rfl, fun d hd => ?_, fun n hn => ?_, fun hskipped hfailed => ?_⟩
  · have htime : ¬ limits.maxWallMs < (answering v refused).elapsedMs st.events :=
      Nat.not_lt_zero _
    rw [planTurn, if_neg htime, if_neg (not_le.mpr hroom), find_ready_iff.mpr hnext]
    dsimp only
    rw [runStep, hresolved]
    dsimp only
    rw [attemptStep, hattempt]
  · exact if_neg hnext.ready.pending
  · by_cases heq : d = step.id
    · rw [heq, PlanRun.complete]
      exact List.lookup_cons_self
    · rw [lookup_complete_ne heq]
      exact houtputs d ((List.mem_cons.mp hd).resolve_left heq)
  · rcases List.mem_append.mp hn with hn | hn
    · rcases List.mem_append.mp hn with hn | hn
      · exact List.mem_cons_of_mem _ (hdone n hn)
      · cases List.mem_singleton.mp hn
    · cases List.mem_singleton.mp hn
      exact List.mem_cons_self
  · obtain ⟨n, tool, args', e, hcall⟩ := hfailed
    rcases List.mem_append.mp hcall with hcall | hcall
    · rcases List.mem_append.mp hcall with hcall | hcall
      · exact hcalls hskipped ⟨n, tool, args', e, hcall⟩
      · cases List.mem_singleton.mp hcall
    · cases List.mem_singleton.mp hcall

/-- A turn skips the optional step that the dry run skips, if it is refused. -/
theorem Follows.turn_skips (hfollows : Follows v completed skipped done st)
    (hfits : FitsAll plan v) (hroom : completed.length < max limits.maxSteps 1)
    (hnext : TakesNext plan completed skipped step position)
    (hargs : Resolvable completed step.args) (hrefused : step.id ∈ refused)
    (hoptional : step.optional = true) :
    ∃ st', planTurn (answering v refused) plan limits st = .next st' ∧
      Follows v completed (skipped ++ [step.id]) done st' := by
  obtain ⟨args, hresolved⟩ := hfollows.resolves hfits hnext.mem hargs
  obtain ⟨rfl, rfl, houtputs, hdone, hcalls⟩ := hfollows
  have hworked := worked_attemptStep (answering v refused) plan st position step args
  obtain ⟨e, st', herror⟩ :
      ∃ e st', attemptStep (answering v refused) plan st position step args = (.error e, st') := by
    have hattempt := fun st => attempt_answering refused position args hfits hnext.mem st
    obtain ⟨out, hfirst, -, hout⟩ := hattempt st
    obtain ⟨e, rfl⟩ := hout hrefused
    rw [attemptStep, hfirst]
    dsimp only
    split
    · obtain ⟨out, hagain, -, hout'⟩ := hattempt (st.record (.called position step.tool args
        (.error e)))
      obtain ⟨e', rfl⟩ := hout' hrefused
      exact ⟨e', _, hagain⟩
    · exact ⟨e, _, rfl⟩
  rw [herror] at hworked
  obtain ⟨hcompleted, hskipped, houtputs', work, hwork, hon⟩ := hworked
  refine ⟨st'.skip step.id, ?_, hcompleted, ?_, fun d hd => ?_, fun n hn => ?_, fun hnil => ?_⟩
  · have htime : ¬ limits.maxWallMs < (answering v refused).elapsedMs st.events :=
      Nat.not_lt_zero _
    rw [planTurn, if_neg htime, if_neg (not_le.mpr hroom), find_ready_iff.mpr hnext]
    dsimp only
    rw [runStep, hresolved]
    dsimp only
    rw [herror]
    dsimp only
    rw [if_pos hoptional]
  · rw [PlanRun.skip, hskipped]
  · rw [PlanRun.skip, houtputs']
    exact houtputs d hd
  · have hn' : .completed n ∈ st.events ++ work := hwork ▸ hn
    rcases List.mem_append.mp hn' with hn | hn
    · exact hdone n hn
    · exact absurd (hon _ hn) id
  · exact absurd hnil (by simp)

variable (refused) in
/-- Surroundings that refuse what a dry run skips follow it. -/
theorem followed_dryRun (hfits : FitsAll plan v)
    (h : DryRun plan limits completed skipped done) (haccepted : ∀ d ∈ completed, d ∉ refused)
    (hrefused : ∀ d ∈ skipped, d ∈ refused) :
    ∃ st, execute (answering v refused) plan limits =
        (planLoop (answering v refused) plan limits).run st ∧
      Follows v completed skipped done st := by
  induction h with
  | start =>
      refine ⟨{}, rfl, rfl, rfl, fun d hd => absurd hd List.not_mem_nil,
        fun n hn => absurd hn List.not_mem_nil, fun _ hfailed => ?_⟩
      obtain ⟨n, tool, args, e, hcall⟩ := hfailed
      exact absurd hcall List.not_mem_nil
  | takes _ hroom hnext hargs ih =>
      obtain ⟨haccepts, hothers⟩ := List.forall_mem_cons.mp haccepted
      obtain ⟨st, hrun, hfollows⟩ := ih hothers hrefused
      obtain ⟨st', hturn, hfollows'⟩ := hfollows.turn_takes hfits hroom hnext hargs haccepts
      exact ⟨st', hrun.trans (Loop.run_next hturn), hfollows'⟩
  | skips _ hroom hnext hargs hoptional ih =>
      obtain ⟨hothers, hrefuses⟩ := List.forall_mem_append.mp hrefused
      obtain ⟨st, hrun, hfollows⟩ := ih haccepted hothers
      obtain ⟨st', hturn, hfollows'⟩ := hfollows.turn_skips hfits hroom hnext hargs
        (hrefuses _ (List.mem_singleton_self _)) hoptional
      exact ⟨st', hrun.trans (Loop.run_next hturn), hfollows'⟩

end Answering

/-! ### Which plans are carried out -/

/-- What an execution should do in any surroundings. -/
structure PlanKept (env : PlanEnv) (plan : DeterministicPlan) (limits : PolicyCaps)
    (out : PlanOutcome) : Prop where
  order : DependenciesFirst plan out.2
  success : CarriedOut plan out
  limit : WithinLimit env plan limits out

/-- Where all surroundings carry the plan out, its dry runs are good: some surroundings follow each
of them. -/
theorem dryKept_of_kept {plan : DeterministicPlan} {limits : PolicyCaps}
    (h : ∀ env, PlanKept env plan limits (execute env plan limits)) : DryKept plan limits := by
  obtain ⟨v, hfits⟩ := exists_fitsAll plan
  have htime : ∀ st skipped, ¬ limits.maxWallMs < (answering v skipped).elapsedMs st :=
    fun _ _ => Nat.not_lt_zero _
  constructor
  · intro completed skipped done hdry hroom hnone position step hstep hoptional
    obtain ⟨st, hrun, hcompleted, hskipped, -, hdone, -⟩ :=
      followed_dryRun skipped hfits hdry hdry.notMem_skipped fun _ hd => hd
    have hend : execute (answering v skipped) plan limits = (.ok (st.result false), st.events) := by
      refine hrun.trans (Loop.run_exit ?_)
      rw [← hcompleted] at hroom
      rw [← hcompleted, ← hskipped] at hnone
      change planTurn (answering v skipped) plan limits st = _
      rw [planTurn, if_neg (htime _ _), if_neg (not_le.mpr hroom), find_ready_none.mpr hnone]
    have hkept := (h (answering v skipped)).success
    rw [hend] at hkept
    exact hdone position (hkept _ rfl rfl position step hstep hoptional)
  · intro hlength completed done hdry
    obtain ⟨st, hrun, hcompleted, -, -, -, hcalls⟩ :=
      followed_dryRun [] hfits hdry (fun _ _ => List.not_mem_nil) fun _ hd => hd
    by_contra hfull
    have hend : execute (answering v []) plan limits =
        (.error .maxStepsExceeded, st.events) := by
      refine hrun.trans (Loop.run_exit ?_)
      rw [← hcompleted, not_lt] at hfull
      change planTurn (answering v []) plan limits st = _
      rw [planTurn, if_neg (htime _ _), if_pos hfull]
    have hkept := (h (answering v [])).limit
    rw [hend] at hkept
    refine hkept hlength (fun _ => Nat.zero_le _) (fun n tool args result hcall => ?_) rfl
    cases result with
    | ok found => exact ⟨found, rfl⟩
    | error e => exact absurd ⟨n, tool, args, e, hcall⟩ (hcalls rfl)

/-- A plan is carried out in all surroundings if and only if its dry runs are good. -/
theorem kept_iff_dryKept (plan : DeterministicPlan) (limits : PolicyCaps) :
    (∀ env, PlanKept env plan limits (execute env plan limits)) ↔ DryKept plan limits :=
  ⟨dryKept_of_kept, fun h env => ⟨dependenciesFirst_execute env plan limits,
    carriedOut_of_dryKept h, withinLimit_of_dryKept h⟩⟩

/-- A step without dependencies. -/
def readStep : PlanStep where
  id := "read"
  tool := "file_read"

/-- A step that works on the output of another. -/
def writeStep : PlanStep where
  id := "write"
  tool := "file_write"
  dependsOn := ["read"]
  args := .obj [("content", .str "$\x7boutputs.read.text\x7d"), ("path", .str "out.txt")]

/-- A file is read, and then written to. -/
def copyPlan : DeterministicPlan where
  steps := [readStep, writeStep]

/-- The limits of a plan. -/
def capsOf (maxSteps : Nat) : PolicyCaps := ⟨maxSteps, 30000, 1⟩

theorem copyPlan_completable : Completable copyPlan (capsOf 3) where
  ids := by simp [copyPlan, readStep, writeStep]
  grounded := by
    have hread : Grounded copyPlan readStep.id :=
      .step (List.mem_cons_self ..) rfl fun _ h => absurd h List.not_mem_nil
    have hwrite : Grounded copyPlan writeStep.id :=
      .step (List.mem_cons_of_mem _ (List.mem_cons_self ..)) rfl fun d hd =>
        List.mem_singleton.mp hd ▸ hread
    refine .inl fun step hmem _ => ?_
    rcases List.mem_cons.mp hmem with rfl | hmem
    · exact hread
    · rw [List.mem_singleton.mp hmem]
      exact hwrite
  room := .inr (.inl (by simp [copyPlan, capsOf]))

/-- What the tools answer a copy. -/
def copyEnv : PlanEnv := answering (.obj [("text", .str "draft")]) []

/-- With a step to spare the copy is carried out. -/
theorem copyPlan_kept :
    (execute copyEnv copyPlan (capsOf 3)).1 =
        .ok ⟨["write", "read"], [], [("write", .obj [("text", .str "draft")]),
          ("read", .obj [("text", .str "draft")])], false⟩ ∧
      PlanKept copyEnv copyPlan (capsOf 3) (execute copyEnv copyPlan (capsOf 3)) := by
  refine ⟨?_, (kept_iff_dryKept copyPlan (capsOf 3)).mpr copyPlan_completable.dryKept copyEnv⟩
  have hrun : execute copyEnv copyPlan (capsOf 3) = (.ok _, _) :=
    (Loop.run_next rfl).trans ((Loop.run_next rfl).trans (Loop.run_exit rfl))
  rw [hrun]
  rfl

/-- A plan of one step that waits for an id nobody has. -/
def strandedPlan : DeterministicPlan where
  steps := [writeStep]

/-- A plan of one step. -/
def lonePlan : DeterministicPlan where
  steps := [readStep]

/-- A plan reports success with its only step never called for; and a plan of one step, which is
carried out, ends at a limit of one step. -/
theorem stranded_plan_succeeds :
    ¬ CarriedOut strandedPlan (execute copyEnv strandedPlan (capsOf 8)) ∧
      ¬ WithinLimit copyEnv lonePlan (capsOf 1) (execute copyEnv lonePlan (capsOf 1)) := by
  constructor
  · have hrun : execute copyEnv strandedPlan (capsOf 8) =
        (.ok ⟨[], [], [], false⟩, []) := Loop.run_exit rfl
    rw [hrun]
    intro h
    exact List.not_mem_nil (h _ rfl rfl 0 _ rfl rfl)
  · have hrun : execute copyEnv lonePlan (capsOf 1) = (.error .maxStepsExceeded, [_, _]) :=
      (Loop.run_next rfl).trans (Loop.run_exit rfl)
    rw [hrun]
    intro h
    refine h (le_refl 1) (fun _ => Nat.zero_le _) (fun n tool args result hcall => ?_) rfl
    rcases List.mem_cons.mp hcall with hcall | hcall
    · cases hcall
      exact ⟨_, rfl⟩
    · cases List.mem_singleton.mp hcall

end ArmaraOS.Runtime
