import Mathlib.Data.List.Nodup
import Mathlib.Data.List.Perm.Subperm
import ArmaraOS.Runtime.PlanExecutor

/-!
Dry runs of a plan: which steps the queue can take, and in which order, without a call.

A step is taken once its dependencies have completed, the first ready one first, and its arguments
are filled in if their templates name ids that have completed (`resolves_iff`). It then completes,
or is skipped if it is optional. The plans that are carried out in all surroundings are those of
which every dry run that gets stuck has done its steps (`DryKept`). For that it is enough that ids
are distinct, that what has to be done needs no optional steps, and that the limit leaves room
(`Completable.dryKept`). There is a value that fits all templates and schemas of a plan
(`exists_fitsAll`), so that surroundings can follow any dry run.
-/

namespace ArmaraOS.Runtime

open ArmaraOS.Text

/-! ### Templates -/

mutual

/-- The templates in the arguments of a step, in the parts between their dots. -/
def templates : Json → List (List String)
  | .str s =>
      match stripTemplate s with
      | none => []
      | some inner => [(inner.toList.splitOn '.').map String.ofList]
  | .arr items => templatesOfItems items
  | .obj fields => templatesOfFields fields
  | _ => []

def templatesOfItems : List Json → List (List String)
  | [] => []
  | item :: items => templates item ++ templatesOfItems items

def templatesOfFields : List (String × Json) → List (List String)
  | [] => []
  | (_, value) :: fields => templates value ++ templatesOfFields fields

end

/-- The outputs hold what a template names. -/
def Found (outputs : List (String × Json)) (parts : List String) : Prop :=
  ∃ stepId key path out v, parts = stepId :: key :: path ∧ outputs.lookup stepId = some out ∧
    navigateJsonPath out (key :: path) = some v

theorem resolveString_iff {outputs : List (String × Json)} {s : String} :
    (∃ v, resolveString outputs s = .ok v) ↔
      ∀ parts ∈ templates (.str s), Found outputs parts := by
  rw [resolveString, templates]
  cases stripTemplate s with
  | none => simp
  | some inner =>
      dsimp only
      rw [List.forall_mem_singleton, Found]
      cases (inner.toList.splitOn '.').map String.ofList with
      | nil => simp
      | cons stepId path =>
          cases path with
          | nil => simp
          | cons key path =>
              cases hout : outputs.lookup stepId with
              | none => simp [hout]
              | some out =>
                  cases hv : navigateJsonPath out (key :: path) with
                  | none => simp [hout, hv]
                  | some v => simp [hout, hv]

theorem exists_ok_map {ε α β : Type} {f : α → β} {x : Except ε α} :
    (∃ b, x.map f = .ok b) ↔ ∃ a, x = .ok a := by
  cases x with
  | error e => exact ⟨fun ⟨_, h⟩ => (nomatch h), fun ⟨_, h⟩ => nomatch h⟩
  | ok a => exact ⟨fun _ => ⟨a, rfl⟩, fun _ => ⟨f a, rfl⟩⟩

theorem exists_ok_bind_pure {ε α β γ : Type} {g : α → β → γ} {x : Except ε α} {y : Except ε β} :
    (∃ c, (do let a ← x; return g a (← y)) = .ok c) ↔ (∃ a, x = .ok a) ∧ ∃ b, y = .ok b := by
  cases x with
  | error e => exact ⟨fun ⟨_, h⟩ => (nomatch h), fun ⟨⟨_, h⟩, _⟩ => nomatch h⟩
  | ok a =>
      cases y with
      | error e => exact ⟨fun ⟨_, h⟩ => (nomatch h), fun ⟨_, ⟨_, h⟩⟩ => nomatch h⟩
      | ok b => exact ⟨fun _ => ⟨⟨a, rfl⟩, ⟨b, rfl⟩⟩, fun _ => ⟨g a b, rfl⟩⟩

mutual

/-- Arguments are filled in if and only if the outputs hold what their templates name. -/
theorem resolves_iff {outputs : List (String × Json)} : ∀ args : Json,
    (∃ v, resolveOutputTemplates outputs args = .ok v) ↔
      ∀ parts ∈ templates args, Found outputs parts
  | .str s => by
      rw [resolveOutputTemplates]
      exact resolveString_iff
  | .arr items => by
      rw [resolveOutputTemplates, templates, exists_ok_map]
      exact resolvesItems_iff items
  | .obj fields => by
      rw [resolveOutputTemplates, templates, exists_ok_map]
      exact resolvesFields_iff fields
  | .null | .bool _ | .int _ | .float _ => by simp [resolveOutputTemplates, templates]

theorem resolvesItems_iff {outputs : List (String × Json)} : ∀ items : List Json,
    (∃ v, resolveItems outputs items = .ok v) ↔
      ∀ parts ∈ templatesOfItems items, Found outputs parts
  | [] => by simp [resolveItems, templatesOfItems]
  | item :: items => by
      rw [resolveItems, templatesOfItems, exists_ok_bind_pure, resolves_iff item,
        resolvesItems_iff items, List.forall_mem_append]

theorem resolvesFields_iff {outputs : List (String × Json)} : ∀ fields : List (String × Json),
    (∃ v, resolveFields outputs fields = .ok v) ↔
      ∀ parts ∈ templatesOfFields fields, Found outputs parts
  | [] => by simp [resolveFields, templatesOfFields]
  | (key, value) :: fields => by
      rw [resolveFields, templatesOfFields, exists_ok_bind_pure, resolves_iff value,
        resolvesFields_iff fields, List.forall_mem_append]

end

/-- The templates in some arguments name ids that have completed, and something in their outputs. -/
def Resolvable (completed : List String) (args : Json) : Prop :=
  ∀ parts ∈ templates args, ∃ stepId key path, parts = stepId :: key :: path ∧
    stepId ∈ completed

/-! ### The queue -/

/-- A step is neither done nor skipped and has its dependencies. -/
structure Ready (completed skipped : List String) (step : PlanStep) : Prop where
  pending : step.id ∉ completed
  kept : step.id ∉ skipped
  depends : ∀ d ∈ step.dependsOn, d ∈ completed

theorem ready_iff {st : PlanRun} {step : PlanStep} :
    st.ready step = true ↔ Ready st.completed st.skipped step := by
  simp only [PlanRun.ready, List.contains_eq_mem, Bool.and_eq_true, Bool.not_eq_true',
    decide_eq_false_iff_not, List.all_eq_true, decide_eq_true_eq]
  exact ⟨fun ⟨⟨hpending, hkept⟩, hdepends⟩ => ⟨hpending, hkept, hdepends⟩,
    fun ⟨hpending, hkept, hdepends⟩ => ⟨⟨hpending, hkept⟩, hdepends⟩⟩

/-- The step that is taken next: the first one of the plan that is ready. -/
structure TakesNext (plan : DeterministicPlan) (completed skipped : List String) (step : PlanStep)
    (position : Nat) : Prop where
  place : plan.steps[position]? = some step
  ready : Ready completed skipped step
  first : ∀ (earlier : Nat) (other : PlanStep), earlier < position →
    plan.steps[earlier]? = some other → ¬ Ready completed skipped other

theorem find_ready_iff {plan : DeterministicPlan} {st : PlanRun} {step : PlanStep}
    {position : Nat} :
    plan.steps.zipIdx.find? (fun step => st.ready step.1) = some (step, position) ↔
      TakesNext plan st.completed st.skipped step position := by
  rw [List.find?_eq_some_iff_getElem]
  constructor
  · rintro ⟨hready, i, hi, hat, hfirst⟩
    rw [List.getElem_zipIdx, Prod.mk.injEq] at hat
    obtain ⟨hstep, rfl⟩ := hat
    rw [Nat.zero_add]
    refine ⟨List.getElem?_eq_some_iff.mpr ⟨by simpa using hi, hstep⟩, ready_iff.mp hready,
      fun earlier other hlt hother hnot => ?_⟩
    obtain ⟨hlength, rfl⟩ := List.getElem?_eq_some_iff.mp hother
    have hnone := hfirst earlier hlt
    rw [List.getElem_zipIdx, ready_iff.mpr hnot] at hnone
    cases hnone
  · rintro ⟨hplace, hready, hfirst⟩
    obtain ⟨hlength, hstep⟩ := List.getElem?_eq_some_iff.mp hplace
    refine ⟨ready_iff.mpr hready, position, by simpa using hlength, ?_, fun earlier hlt => ?_⟩
    · rw [List.getElem_zipIdx, hstep, Nat.zero_add]
    · have hearlier : earlier < plan.steps.length := hlt.trans hlength
      rw [List.getElem_zipIdx, Bool.not_eq_true', Bool.eq_false_iff, Ne, ready_iff]
      exact hfirst earlier _ hlt (List.getElem?_eq_getElem hearlier)

theorem find_ready_none {plan : DeterministicPlan} {st : PlanRun} :
    plan.steps.zipIdx.find? (fun step => st.ready step.1) = none ↔
      ∀ step ∈ plan.steps, ¬ Ready st.completed st.skipped step := by
  rw [List.find?_eq_none]
  constructor
  · intro h step hstep hready
    obtain ⟨position, hposition⟩ := List.getElem?_of_mem hstep
    exact h (step, position) (List.mem_zipIdx_iff_getElem?.mpr hposition) (ready_iff.mpr hready)
  · rintro h ⟨step, position⟩ hmem hready
    exact h step (List.mem_of_getElem? (List.mem_zipIdx_iff_getElem?.mp hmem))
      (ready_iff.mp hready)

/-! ### Dry runs -/

/-- What a run of a plan can come to: the ids that have completed and those that were skipped, and
the places of the steps that have completed. -/
inductive DryRun (plan : DeterministicPlan) (limits : PolicyCaps) :
    List String → List String → List Nat → Prop where
  | start : DryRun plan limits [] [] []
  | takes {completed skipped : List String} {done : List Nat} {step : PlanStep} {position : Nat} :
      DryRun plan limits completed skipped done → completed.length < max limits.maxSteps 1 →
      TakesNext plan completed skipped step position → Resolvable completed step.args →
      DryRun plan limits (step.id :: completed) skipped (position :: done)
  | skips {completed skipped : List String} {done : List Nat} {step : PlanStep} {position : Nat} :
      DryRun plan limits completed skipped done → completed.length < max limits.maxSteps 1 →
      TakesNext plan completed skipped step position → Resolvable completed step.args →
      step.optional = true → DryRun plan limits completed (skipped ++ [step.id]) done

/-- Every dry run that stops below the limit, since no step is ready, has done all that is not
optional; and none of a plan that the limit has room for is stopped by it before something is
skipped. -/
structure DryKept (plan : DeterministicPlan) (limits : PolicyCaps) : Prop where
  success : ∀ completed skipped done, DryRun plan limits completed skipped done →
    completed.length < max limits.maxSteps 1 →
    (∀ step ∈ plan.steps, ¬ Ready completed skipped step) →
    ∀ (position : Nat) (step : PlanStep), plan.steps[position]? = some step →
      step.optional = false → position ∈ done
  room : plan.steps.length ≤ limits.maxSteps → ∀ completed done,
    DryRun plan limits completed [] done → completed.length < max limits.maxSteps 1

/-- An id that some step completes once all steps it depends on have completed. -/
inductive Feasible (plan : DeterministicPlan) : String → Prop where
  | step {step : PlanStep} : step ∈ plan.steps → (∀ d ∈ step.dependsOn, Feasible plan d) →
      Feasible plan step.id

/-- An id that is feasible without steps that may be skipped. -/
inductive Grounded (plan : DeterministicPlan) : String → Prop where
  | step {step : PlanStep} : step ∈ plan.steps → step.optional = false →
      (∀ d ∈ step.dependsOn, Grounded plan d) → Grounded plan step.id

/-- No two steps share an id; every step that is not optional is reached without optional ones,
unless those that are reached fill the limit; and the limit leaves room, since not exactly so many
steps as it allows can be completed. -/
structure Completable (plan : DeterministicPlan) (limits : PolicyCaps) : Prop where
  ids : (plan.steps.map (·.id)).Nodup
  grounded : (∀ step ∈ plan.steps, step.optional = false → Grounded plan step.id) ∨
    ∃ ids : List String, ids.Nodup ∧ (∀ d ∈ ids, Grounded plan d) ∧
      max limits.maxSteps 1 ≤ ids.length
  room : plan.steps = [] ∨ plan.steps.length ≠ limits.maxSteps ∨
    ∃ step ∈ plan.steps, ¬ Feasible plan step.id

section DryRuns

variable {plan : DeterministicPlan} {limits : PolicyCaps} {completed skipped : List String}
  {done : List Nat}

theorem TakesNext.mem {step : PlanStep} {position : Nat}
    (h : TakesNext plan completed skipped step position) : step ∈ plan.steps :=
  List.mem_of_getElem? h.place

namespace DryRun

theorem nodup (h : DryRun plan limits completed skipped done) : completed.Nodup := by
  induction h with
  | start => exact List.nodup_nil
  | takes _ _ hnext _ ih => exact List.nodup_cons.mpr ⟨hnext.ready.pending, ih⟩
  | skips _ _ _ _ _ ih => exact ih

theorem feasible (h : DryRun plan limits completed skipped done) :
    ∀ d ∈ completed, Feasible plan d := by
  induction h with
  | start => exact fun d hd => absurd hd List.not_mem_nil
  | takes _ _ hnext _ ih =>
      intro d hd
      rcases List.mem_cons.mp hd with rfl | hd
      · exact .step hnext.mem fun d hd => ih d (hnext.ready.depends d hd)
      · exact ih d hd
  | skips _ _ _ _ _ ih => exact ih

theorem optional_of_skipped (h : DryRun plan limits completed skipped done) :
    ∀ d ∈ skipped, ∃ step ∈ plan.steps, step.optional = true ∧ step.id = d := by
  induction h with
  | start => exact fun d hd => absurd hd List.not_mem_nil
  | takes _ _ _ _ ih => exact ih
  | skips _ _ hnext _ hoptional ih =>
      intro d hd
      rcases List.mem_append.mp hd with hd | hd
      · exact ih d hd
      · exact ⟨_, hnext.mem, hoptional, (List.mem_singleton.mp hd).symm⟩

theorem notMem_skipped (h : DryRun plan limits completed skipped done) :
    ∀ d ∈ completed, d ∉ skipped := by
  induction h with
  | start => exact fun d hd => absurd hd List.not_mem_nil
  | takes _ _ hnext _ ih =>
      intro d hd
      rcases List.mem_cons.mp hd with rfl | hd
      · exact hnext.ready.kept
      · exact ih d hd
  | skips _ _ hnext _ _ ih =>
      intro d hd hskipped
      rcases List.mem_append.mp hskipped with hskipped | hskipped
      · exact ih d hd hskipped
      · exact hnext.ready.pending (List.mem_singleton.mp hskipped ▸ hd)

/-- An id is completed by a step at a place that is done. -/
theorem place_of_completed (h : DryRun plan limits completed skipped done) :
    ∀ d ∈ completed, ∃ position ∈ done, (plan.steps.map (·.id))[position]? = some d := by
  induction h with
  | start => exact fun d hd => absurd hd List.not_mem_nil
  | takes _ _ hnext _ ih =>
      intro d hd
      rcases List.mem_cons.mp hd with rfl | hd
      · exact ⟨_, List.mem_cons_self, by rw [List.getElem?_map, hnext.place, Option.map_some]⟩
      · obtain ⟨position, hposition, hid⟩ := ih d hd
        exact ⟨position, List.mem_cons_of_mem _ hposition, hid⟩
  | skips _ _ _ _ _ ih => exact ih

/-- Where no step is ready, every id that needs no optional step is completed. -/
theorem mem_of_grounded (h : DryRun plan limits completed skipped done)
    (hids : (plan.steps.map (·.id)).Nodup)
    (hnone : ∀ step ∈ plan.steps, ¬ Ready completed skipped step) {d : String}
    (hd : Grounded plan d) : d ∈ completed := by
  induction hd with
  | @step step hmem hoptional _ ih =>
      by_contra hpending
      refine hnone step hmem ⟨hpending, fun hskipped => ?_, ih⟩
      obtain ⟨other, hother, hotherOptional, hid⟩ := h.optional_of_skipped _ hskipped
      rw [List.inj_on_of_nodup_map hids hother hmem hid, hoptional] at hotherOptional
      cases hotherOptional

end DryRun

theorem Feasible.mem_ids {d : String} (h : Feasible plan d) : d ∈ plan.steps.map (·.id) := by
  cases h with
  | step hmem _ => exact List.mem_map_of_mem hmem

/-- The dry runs of a completable plan do what has to be done. -/
theorem Completable.dryKept (h : Completable plan limits) : DryKept plan limits where
  success completed skipped done hrun hlimit hnone position step hstep hoptional := by
    have hall : ∀ d, Grounded plan d → d ∈ completed :=
      fun d hd => hrun.mem_of_grounded h.ids hnone hd
    rcases h.grounded with hgrounded | ⟨ids, hnodup, hgrounded, hmany⟩
    · have hid := hall _ (hgrounded step (List.mem_of_getElem? hstep) hoptional)
      obtain ⟨place, hplace, hsame⟩ := hrun.place_of_completed _ hid
      have hat : (plan.steps.map (·.id))[position]? = some step.id := by
        rw [List.getElem?_map, hstep, Option.map_some]
      have hlt := (List.getElem?_eq_some_iff.mp hsame).1
      rwa [(List.getElem?_inj hlt h.ids).mp (hsame.trans hat.symm)] at hplace
    · have hle := (List.subperm_of_subset hnodup fun d hd => hall d (hgrounded d hd)).length_le
      omega
  room hlength completed done hrun := by
    have hsub : completed ⊆ plan.steps.map (·.id) := fun d hd => (hrun.feasible d hd).mem_ids
    have hle := (List.subperm_of_subset hrun.nodup hsub).length_le
    rw [List.length_map] at hle
    rcases h.room with hempty | hlength' | ⟨step, hmem, hnot⟩
    · rw [hempty, List.length_nil] at hle
      omega
    · omega
    · have hnodup : (step.id :: completed).Nodup :=
        List.nodup_cons.mpr ⟨fun hd => hnot (hrun.feasible _ hd), hrun.nodup⟩
      have hle' := (List.subperm_of_subset hnodup
        (List.cons_subset.mpr ⟨List.mem_map_of_mem hmem, hsub⟩)).length_le
      rw [List.length_map, List.length_cons] at hle'
      omega

end DryRuns

/-! ### A value for every call -/

/-- A value with all these keys, and again below each, so many levels deep. -/
def deepObj (keys : List String) : Nat → Json
  | 0 => .null
  | depth + 1 => .obj (keys.map fun key => (key, deepObj keys depth))

theorem lookup_map_const {v : Json} {keys : List String} {key : String} (h : key ∈ keys) :
    (keys.map fun key => (key, v)).lookup key = some v := by
  induction keys with
  | nil => cases h
  | cons other keys ih =>
      rw [List.map_cons, List.lookup_cons]
      by_cases heq : key = other
      · rw [heq, beq_self_eq_true]
      · rw [beq_eq_false_iff_ne.mpr heq]
        exact ih ((List.mem_cons.mp h).resolve_left heq)

theorem get_deepObj {keys : List String} {key : String} (h : key ∈ keys) (depth : Nat) :
    (deepObj keys (depth + 1)).get key = some (deepObj keys depth) :=
  lookup_map_const h

theorem navigate_deepObj {keys path : List String} (h : path ⊆ keys) {depth : Nat}
    (hdepth : path.length ≤ depth) :
    ∃ found, navigateJsonPath (deepObj keys depth) path = some found := by
  induction path generalizing depth with
  | nil => exact ⟨_, rfl⟩
  | cons key path ih =>
      obtain ⟨hkey, hpath⟩ := List.cons_subset.mp h
      cases depth with
      | zero => cases hdepth
      | succ depth =>
          rw [navigateJsonPath, get_deepObj hkey]
          exact ih hpath (Nat.le_of_succ_le_succ hdepth)

/-- The keys that a schema asks for. -/
def requiredKeys (declared : Json) : List String :=
  match declared.get "required" with
  | some (.arr req) => req.filterMap Json.asStr
  | _ => []

/-- A value that fits what the templates and the schemas of a plan ask of an output. -/
structure FitsAll (plan : DeterministicPlan) (v : Json) : Prop where
  paths : ∀ step ∈ plan.steps, ∀ parts ∈ templates step.args,
    ∃ found, navigateJsonPath v parts.tail = some found
  object : ∃ fields, v = .obj fields
  required : ∀ step ∈ plan.steps, ∀ declared, step.expectedOutputSchema = some declared →
    ∀ key ∈ requiredKeys declared, ∃ found, v.get key = some found

/-- Every plan has one: all its keys below each other, as deep as its templates go. -/
theorem exists_fitsAll (plan : DeterministicPlan) : ∃ v, FitsAll plan v := by
  set parts := (plan.steps.flatMap fun step => templates step.args).flatten with hparts
  set keys := parts ++
    plan.steps.flatMap fun step => step.expectedOutputSchema.toList.flatMap requiredKeys with hkeys
  refine ⟨deepObj keys (parts.length + 1), fun step hstep path hpath => ?_, ⟨_, rfl⟩,
    fun step hstep declared hdeclared key hkey => ⟨_, get_deepObj ?_ _⟩⟩
  · have hmem : path ∈ plan.steps.flatMap fun step => templates step.args :=
      List.mem_flatMap.mpr ⟨step, hstep, hpath⟩
    have hsub := List.sublist_flatten_of_mem hmem
    refine navigate_deepObj (fun key hkey => ?_) ?_
    · exact List.mem_append_left _ (hsub.subset (List.mem_of_mem_tail hkey))
    · exact (List.tail_sublist path).length_le.trans (hsub.length_le.trans (Nat.le_succ _))
  · refine List.mem_append_right _ (List.mem_flatMap.mpr ⟨step, hstep, ?_⟩)
    rw [hdeclared]
    exact List.mem_flatMap.mpr ⟨declared, List.mem_singleton_self _, hkey⟩

end ArmaraOS.Runtime
