import Mathlib.Logic.Function.Basic
import ArmaraOS.Agent.Library
import ArmaraOS.Lib.Machine
import ArmaraOS.Lib.Table
import ArmaraOS.Lib.Text
import ArmaraOS.Types.Message

/-!
The trigger engine (`openfang-kernel/src/triggers.rs`).

Trigger ids are numbered in the order in which their UUIDs are drawn. The index is a function of
the agent id; an agent without an entry has no triggers. An event stands with its description,
the text that `describe_event` makes of it, and with the parts of its payload that patterns read.
-/

namespace ArmaraOS.Kernel

open ArmaraOS.Agent ArmaraOS.Lib ArmaraOS.Text Function

/-! ### Events and patterns -/

/-- `OrchestrationTraceEvent`; the type of the event stands as its discriminant name. -/
structure OrchestrationTraceEvent where
  traceId : String
  orchestratorId : String
  agentId : String
  eventType : String
  metadata : List (String × Json)

/-- `LifecycleEvent`. -/
inductive LifecycleEvent where
  | spawned (name : String)
  | started
  | suspended
  | resumed
  | terminated
  | crashed

/-- `EventPayload`; a system event stands as its `Debug` text. -/
inductive EventPayload where
  | message
  | toolResult
  | memoryUpdate (key : String)
  | lifecycle (event : LifecycleEvent)
  | network
  | system (debugText : String)
  | orchestrationTrace (event : OrchestrationTraceEvent)
  | custom

/-- `Event`, with the text of `describe_event`. -/
structure Event where
  payload : EventPayload
  description : String

/-- `TriggerPattern`. -/
inductive TriggerPattern where
  | lifecycle
  | agentSpawned (namePattern : String)
  | agentTerminated
  | system
  | systemKeyword (keyword : String)
  | memoryUpdate
  | memoryKeyPattern (keyPattern : String)
  | all
  | contentMatch (substring : String)
  | orchestrationTrace (eventTypes : List String) (traceIdSubstring orchestratorId : Option String)
deriving DecidableEq

/-- `trigger_pattern_kind`. -/
def triggerPatternKind : TriggerPattern → String
  | .all => "all"
  | .lifecycle => "lifecycle"
  | .agentSpawned _ => "agent_spawned"
  | .agentTerminated => "agent_terminated"
  | .system => "system"
  | .systemKeyword _ => "system_keyword"
  | .memoryUpdate => "memory_update"
  | .memoryKeyPattern _ => "memory_key_pattern"
  | .contentMatch _ => "content_match"
  | .orchestrationTrace .. => "orchestration_trace"

/-- `matches_pattern`. -/
def matchesPattern (lib : Library) (pattern : TriggerPattern) (event : Event) : Bool :=
  match pattern, event.payload with
  | .all, _ => true
  | .lifecycle, .lifecycle _ => true
  | .agentSpawned namePattern, .lifecycle (.spawned name) =>
      contains name namePattern || namePattern == "*"
  | .agentTerminated, .lifecycle .terminated => true
  | .agentTerminated, .lifecycle .crashed => true
  | .system, .system _ => true
  | .systemKeyword keyword, .system debugText =>
      contains (lib.toLowercase debugText) (lib.toLowercase keyword)
  | .memoryUpdate, .memoryUpdate _ => true
  | .memoryKeyPattern keyPattern, .memoryUpdate key =>
      contains key keyPattern || keyPattern == "*"
  | .contentMatch substring, _ =>
      contains (lib.toLowercase event.description) (lib.toLowercase substring)
  | .orchestrationTrace eventTypes traceIdSubstring orchestratorId, .orchestrationTrace ev =>
      orchestratorId.all (· == ev.orchestratorId) && traceIdSubstring.all (contains ev.traceId) &&
        (eventTypes.isEmpty || eventTypes.contains ev.eventType)
  | _, _ => false

/-! ### The engine -/

/-- `Trigger`. -/
structure Trigger where
  id : Nat
  agentId : String
  pattern : TriggerPattern
  promptTemplate : String
  enabled : Bool
  createdAt : Int
  fireCount : Nat
  maxFires : Nat
deriving DecidableEq

/-- `TriggerDispatch`. -/
structure TriggerDispatch where
  agentId : String
  message : String
  orchestrationCtx : Option OrchestrationContext

/-- `TriggerEngine`; `drawn` UUIDs have been drawn for trigger ids. -/
structure TriggerEngine where
  triggers : Table Trigger.id
  agentTriggers : String → List Nat
  drawn : Nat

/-- What `evaluate` runs with: the text of a UUID, the time and the default budget. -/
structure EvaluateInput where
  lib : Library
  uuidText : Nat → String
  event : Event
  now : Int
  defaultOrchBudgetMs : Option Nat

namespace EvaluateInput

variable (input : EvaluateInput)

/-- `orchestration_ctx_for_generic_trigger`. -/
def orchestrationCtxForGenericTrigger (trigger : Trigger) : OrchestrationContext where
  orchestratorId := trigger.agentId
  callChain := [trigger.agentId]
  depth := 0
  sharedVars :=
    [("trigger_event_preview", .str (truncateStr input.event.description 500)),
      ("trigger_id", .str (input.uuidText trigger.id)),
      ("trigger_pattern", .str (triggerPatternKind trigger.pattern))]
  pattern := .adHoc
  remainingBudgetMs := input.defaultOrchBudgetMs
  traceId := s!"trigger-wake-{input.uuidText trigger.id}"
  createdAt := input.now
  efficientMode := none

/-- A map with an entry written. -/
def setVar (key : String) (value : Json) (vars : List (String × Json)) : List (String × Json) :=
  (key, value) :: vars.filter fun entry => entry.1 != key

/-- `orchestration_ctx_for_trace_trigger`. -/
def orchestrationCtxForTraceTrigger (ev : OrchestrationTraceEvent) (subscriber : String) :
    OrchestrationContext where
  orchestratorId := ev.orchestratorId
  callChain := [ev.orchestratorId, subscriber]
  depth := 1
  sharedVars := setVar "trigger_event_type" (.str ev.eventType)
    (setVar "trigger_source_agent" (.str ev.agentId) ev.metadata)
  pattern := .adHoc
  remainingBudgetMs := input.defaultOrchBudgetMs
  traceId := ev.traceId
  createdAt := input.now
  efficientMode := none

/-- The dispatch of a trigger that matches. -/
def dispatch (trigger : Trigger) : TriggerDispatch where
  agentId := trigger.agentId
  message := replace trigger.promptTemplate "\x7b\x7bevent\x7d\x7d" input.event.description
  orchestrationCtx := some <|
    match input.event.payload with
    | .orchestrationTrace ev => input.orchestrationCtxForTraceTrigger ev trigger.agentId
    | _ => input.orchestrationCtxForGenericTrigger trigger

/-- The body of the loop of `evaluate`: the trigger afterwards, and its dispatch. -/
def fire (trigger : Trigger) : Trigger × Option TriggerDispatch :=
  if !trigger.enabled then (trigger, none)
  else if 0 < trigger.maxFires ∧ trigger.maxFires ≤ trigger.fireCount then
    ({ trigger with enabled := false }, none)
  else if matchesPattern input.lib trigger.pattern input.event then
    ({ trigger with fireCount := trigger.fireCount + 1 }, some (input.dispatch trigger))
  else (trigger, none)

@[simp] theorem fire_id (trigger : Trigger) : (input.fire trigger).1.id = trigger.id := by
  unfold fire
  split_ifs <;> rfl

@[simp] theorem fire_agentId (trigger : Trigger) :
    (input.fire trigger).1.agentId = trigger.agentId := by
  unfold fire
  split_ifs <;> rfl

end EvaluateInput

namespace TriggerEngine

variable (e : TriggerEngine)

/-- `TriggerEngine::new`. -/
def new : TriggerEngine := ⟨.empty, fun _ => [], 0⟩

/-- A trigger stored under its id, which is pushed to the list of its agent. -/
def store (trigger : Trigger) : TriggerEngine where
  triggers := e.triggers.insert trigger
  agentTriggers := update e.agentTriggers trigger.agentId
    (e.agentTriggers trigger.agentId ++ [trigger.id])
  drawn := e.drawn + 1

/-- `TriggerEngine::register`. -/
def register (agentId : String) (pattern : TriggerPattern) (promptTemplate : String)
    (maxFires : Nat) (now : Int) : TriggerEngine × Nat :=
  (e.store ⟨e.drawn, agentId, pattern, promptTemplate, true, now, 0, maxFires⟩, e.drawn)

/-- `TriggerEngine::remove`. -/
def remove (triggerId : Nat) : TriggerEngine × Bool :=
  match e.triggers.find triggerId with
  | none => (e, false)
  | some trigger =>
      ({ e with
         triggers := e.triggers.erase triggerId
         agentTriggers := update e.agentTriggers trigger.agentId
           ((e.agentTriggers trigger.agentId).filter (· != triggerId)) }, true)

/-- Removing the triggers under some ids, one after another; `taken` are those found. -/
def takeLoop : List Nat → Table Trigger.id → List Trigger → Table Trigger.id × List Trigger
  | [], triggers, taken => (triggers, taken)
  | id :: ids, triggers, taken =>
      match triggers.find id with
      | none => takeLoop ids triggers taken
      | some trigger => takeLoop ids (triggers.erase id) (taken ++ [trigger])

/-- `TriggerEngine::take_agent_triggers`. -/
def takeAgentTriggers (agentId : String) : TriggerEngine × List Trigger :=
  let (triggers, taken) := takeLoop (e.agentTriggers agentId) e.triggers []
  ({ e with triggers := triggers, agentTriggers := update e.agentTriggers agentId [] }, taken)

/-- `TriggerEngine::remove_agent_triggers`. -/
def removeAgentTriggers (agentId : String) : TriggerEngine := (e.takeAgentTriggers agentId).1

/-- `TriggerEngine::restore_triggers`. -/
def restoreTriggers (newAgentId : String) (triggers : List Trigger) : TriggerEngine :=
  triggers.foldl (fun e old => e.store { old with id := e.drawn, agentId := newAgentId }) e

/-- `TriggerEngine::reassign_agent_triggers`. -/
def reassignAgentTriggers (oldAgentId newAgentId : String) : TriggerEngine :=
  let triggerIds := e.agentTriggers oldAgentId
  let agentTriggers := update e.agentTriggers oldAgentId []
  { e with
    triggers := e.triggers.map
      (fun t => if t.id ∈ triggerIds then { t with agentId := newAgentId } else t)
      (fun t => by split <;> rfl)
    agentTriggers := update agentTriggers newAgentId (agentTriggers newAgentId ++ triggerIds) }

/-- `TriggerEngine::set_enabled`. -/
def setEnabled (triggerId : Nat) (enabled : Bool) : TriggerEngine :=
  { e with
    triggers := e.triggers.modify triggerId (fun t => { t with enabled := enabled })
      (fun _ h => h) }

/-- `TriggerEngine::evaluate`. Each dispatch stands with the id of its trigger. -/
def evaluate (input : EvaluateInput) : TriggerEngine × List (Nat × TriggerDispatch) :=
  ({ e with triggers := e.triggers.map (fun t => (input.fire t).1) input.fire_id },
    e.triggers.entries.filterMap fun t => (input.fire t).2.map fun dispatch => (t.id, dispatch))

end TriggerEngine

/-! ### Runs -/

/-- One call of the engine. -/
inductive TriggerOp where
  | register (agentId : String) (pattern : TriggerPattern) (promptTemplate : String)
      (maxFires : Nat) (now : Int)
  | remove (triggerId : Nat)
  | removeAgentTriggers (agentId : String)
  | takeAgentTriggers (agentId : String)
  | restoreTriggers (newAgentId : String) (triggers : List Trigger)
  | reassignAgentTriggers (oldAgentId newAgentId : String)
  | setEnabled (triggerId : Nat) (enabled : Bool)
  | evaluate (input : EvaluateInput)

/-- What the history records of a trigger: a dispatch for it, or that it was restored under a
new id. -/
inductive TriggerEvent where
  | dispatched (id : Nat)
  | restored (old new : Nat)

/-- The number of dispatches for the trigger with an id, those under the ids it had before it was
restored included. The newest event comes first. -/
def dispatches : List TriggerEvent → Nat → Nat
  | [], _ => 0
  | .dispatched i :: history, id => dispatches history id + if i = id then 1 else 0
  | .restored old new :: history, id =>
      if new = id then dispatches history old else dispatches history id

/-- The engine in a run. `taken` are the triggers that were taken from it, `history` what
happened to its triggers. -/
structure TriggerRun where
  engine : TriggerEngine
  taken : List Trigger
  history : List TriggerEvent

/-- A run that has not begun. -/
def TriggerRun.new : TriggerRun := ⟨.new, [], []⟩

/-- The history behind `restore_triggers`. -/
def restoredHistory : Nat → List Trigger → List TriggerEvent → List TriggerEvent
  | _, [], history => history
  | drawn, old :: triggers, history =>
      restoredHistory (drawn + 1) triggers (.restored old.id drawn :: history)

/-- One call in a run. -/
def triggerStep (s : TriggerRun) : TriggerOp → TriggerRun
  | .register agentId pattern promptTemplate maxFires now =>
      { s with engine := (s.engine.register agentId pattern promptTemplate maxFires now).1 }
  | .remove triggerId => { s with engine := (s.engine.remove triggerId).1 }
  | .removeAgentTriggers agentId => { s with engine := s.engine.removeAgentTriggers agentId }
  | .takeAgentTriggers agentId =>
      { s with
        engine := (s.engine.takeAgentTriggers agentId).1
        taken := s.taken ++ (s.engine.takeAgentTriggers agentId).2 }
  | .restoreTriggers newAgentId triggers =>
      { s with
        engine := s.engine.restoreTriggers newAgentId triggers
        history := restoredHistory s.engine.drawn triggers s.history }
  | .reassignAgentTriggers oldAgentId newAgentId =>
      { s with engine := s.engine.reassignAgentTriggers oldAgentId newAgentId }
  | .setEnabled triggerId enabled => { s with engine := s.engine.setEnabled triggerId enabled }
  | .evaluate input =>
      { s with
        engine := (s.engine.evaluate input).1
        history := (s.engine.evaluate input).2.map (fun d => .dispatched d.1) ++ s.history }

/-- Only triggers that were taken from the engine are restored. -/
def RestoresTaken (s : TriggerRun) : TriggerOp → Prop
  | .restoreTriggers _ triggers => ∀ t ∈ triggers, t ∈ s.taken
  | _ => True

/-- The index lists every trigger exactly once, under its own agent, and nothing else. -/
structure IndexSound (e : TriggerEngine) : Prop where
  listed : ∀ t ∈ e.triggers.entries, (e.agentTriggers t.agentId).count t.id = 1
  nowhereElse : ∀ t ∈ e.triggers.entries, ∀ agentId, agentId ≠ t.agentId →
    t.id ∉ e.agentTriggers agentId
  stored : ∀ agentId, ∀ id ∈ e.agentTriggers agentId, ∃ t ∈ e.triggers.entries, t.id = id

/-- The dispatches for a limited trigger, stored or taken, are those it counts and within its
limit. -/
def LimitsKept (s : TriggerRun) : Prop :=
  ∀ t ∈ s.engine.triggers.entries ++ s.taken, 0 < t.maxFires →
    dispatches s.history t.id = t.fireCount ∧ t.fireCount ≤ t.maxFires

/-! ### The index -/

/-- An agent owns the trigger with an id. -/
def Owns (triggers : Table Trigger.id) (agentId : String) (id : Nat) : Prop :=
  ∃ t ∈ triggers.entries, t.id = id ∧ t.agentId = agentId

/-- The invariant of the engine: the lists of the index have no duplicates and hold what their
agent owns, and every id was drawn. -/
structure Indexed (e : TriggerEngine) : Prop where
  nodup : ∀ agentId, (e.agentTriggers agentId).Nodup
  mem_iff : ∀ agentId id, id ∈ e.agentTriggers agentId ↔ Owns e.triggers agentId id
  drawn : ∀ t ∈ e.triggers.entries, t.id < e.drawn

section Owning

variable {triggers : Table Trigger.id} {agentId : String} {id : Nat}

/-- A trigger has one owner. -/
theorem owns_iff {t : Trigger} (ht : t ∈ triggers.entries) :
    Owns triggers agentId t.id ↔ t.agentId = agentId := by
  constructor
  · rintro ⟨t', ht', hid, rfl⟩
    rw [Table.eq_of_key_eq ht ht' hid.symm]
  · intro howner
    exact ⟨t, ht, rfl, howner⟩

theorem owns_erase {gone : Nat} :
    Owns (triggers.erase gone) agentId id ↔ Owns triggers agentId id ∧ id ≠ gone := by
  constructor
  · rintro ⟨t, ht, rfl, howner⟩
    obtain ⟨ht, hne⟩ := Table.mem_erase.mp ht
    exact ⟨⟨t, ht, rfl, howner⟩, hne⟩
  · rintro ⟨⟨t, ht, rfl, howner⟩, hne⟩
    exact ⟨t, Table.mem_erase.mpr ⟨ht, hne⟩, rfl, howner⟩

theorem owns_insert {trigger : Trigger} (hfresh : ∀ t ∈ triggers.entries, t.id ≠ trigger.id) :
    Owns (triggers.insert trigger) agentId id ↔
      (id = trigger.id ∧ trigger.agentId = agentId) ∨ Owns triggers agentId id := by
  constructor
  · rintro ⟨t, ht, rfl, howner⟩
    rcases Table.mem_insert.mp ht with rfl | ⟨ht, -⟩
    · exact .inl ⟨rfl, howner⟩
    · exact .inr ⟨t, ht, rfl, howner⟩
  · rintro (⟨rfl, howner⟩ | ⟨t, ht, rfl, howner⟩)
    · exact ⟨trigger, Table.mem_insert.mpr (.inl rfl), rfl, howner⟩
    · exact ⟨t, Table.mem_insert.mpr (.inr ⟨ht, hfresh t ht⟩), rfl, howner⟩

theorem owns_map {f : Trigger → Trigger} (hf : ∀ t, (f t).id = t.id) :
    Owns (triggers.map f hf) agentId id ↔
      ∃ t ∈ triggers.entries, t.id = id ∧ (f t).agentId = agentId := by
  constructor
  · rintro ⟨t, ht, rfl, howner⟩
    obtain ⟨t', ht', rfl⟩ := (Table.mem_map hf).mp ht
    exact ⟨t', ht', (hf t').symm, howner⟩
  · rintro ⟨t, ht, rfl, howner⟩
    exact ⟨f t, (Table.mem_map hf).mpr ⟨t, ht, rfl⟩, hf t, howner⟩

end Owning

/-- What stays stored when triggers are taken. -/
theorem mem_takeLoop_stored {ids : List Nat} {triggers : Table Trigger.id} {taken : List Trigger}
    {t : Trigger} : t ∈ (TriggerEngine.takeLoop ids triggers taken).1.entries ↔
      t ∈ triggers.entries ∧ t.id ∉ ids := by
  fun_induction TriggerEngine.takeLoop ids triggers taken with
  | case1 triggers taken => simp
  | case2 id ids triggers taken hnone ih =>
      rw [ih]
      have hother : t ∈ triggers.entries → t.id ≠ id := by
        rintro ht rfl
        rw [Table.find_eq_some_iff.mpr ⟨ht, rfl⟩] at hnone
        cases hnone
      simp only [List.mem_cons, not_or]
      exact ⟨fun h => ⟨h.1, hother h.1, h.2⟩, fun h => ⟨h.1, h.2.2⟩⟩
  | case3 id ids triggers taken trigger hsome ih =>
      rw [ih, Table.mem_erase, List.mem_cons, not_or, and_assoc]

/-- What is taken: the triggers under the ids. -/
theorem mem_takeLoop_taken {ids : List Nat} {triggers : Table Trigger.id} {taken : List Trigger}
    {t : Trigger} : t ∈ (TriggerEngine.takeLoop ids triggers taken).2 ↔
      t ∈ taken ∨ (t ∈ triggers.entries ∧ t.id ∈ ids) := by
  fun_induction TriggerEngine.takeLoop ids triggers taken with
  | case1 triggers taken => simp
  | case2 id ids triggers taken hnone ih =>
      have hother : t ∈ triggers.entries → t.id ≠ id := by
        rintro ht rfl
        rw [Table.find_eq_some_iff.mpr ⟨ht, rfl⟩] at hnone
        cases hnone
      rw [ih]
      simp only [List.mem_cons]
      grind
  | case3 id ids triggers taken trigger hsome ih =>
      obtain ⟨hmem, rfl⟩ := Table.find_eq_some_iff.mp hsome
      have hself : t ∈ triggers.entries → t.id = trigger.id → t = trigger :=
        fun ht hid => Table.eq_of_key_eq ht hmem hid
      rw [ih]
      simp only [List.mem_append, List.mem_cons, List.not_mem_nil, or_false, Table.mem_erase]
      grind

namespace Indexed

variable {e : TriggerEngine}

theorem new : Indexed .new where
  nodup agentId := List.nodup_nil
  mem_iff agentId id := by simp [TriggerEngine.new, Owns]
  drawn t ht := absurd ht Table.not_mem_empty

/-- A stored trigger is in the list of an agent exactly if it is the agent's. -/
theorem mem_iff_agentId (h : Indexed e) {t : Trigger} (ht : t ∈ e.triggers.entries)
    (agentId : String) : t.id ∈ e.agentTriggers agentId ↔ t.agentId = agentId :=
  (h.mem_iff agentId t.id).trans (owns_iff ht)

theorem indexSound (h : Indexed e) : IndexSound e where
  listed t ht := List.count_eq_one_of_mem (h.nodup t.agentId) ((h.mem_iff_agentId ht _).mpr rfl)
  nowhereElse t ht agentId hne hmem := hne ((h.mem_iff_agentId ht agentId).mp hmem).symm
  stored agentId id hmem := by
    obtain ⟨t, ht, hid, -⟩ := (h.mem_iff agentId id).mp hmem
    exact ⟨t, ht, hid⟩

theorem store (h : Indexed e) {trigger : Trigger} (hid : trigger.id = e.drawn) :
    Indexed (e.store trigger) := by
  have hfresh : ∀ t ∈ e.triggers.entries, t.id ≠ trigger.id := by
    intro t ht hsame
    exact absurd (h.drawn t ht) (by omega)
  have hunlisted : ∀ agentId, trigger.id ∉ e.agentTriggers agentId := by
    intro agentId hmem
    obtain ⟨t, ht, hsame, -⟩ := (h.mem_iff agentId trigger.id).mp hmem
    exact hfresh t ht hsame
  constructor
  · intro agentId
    by_cases hself : agentId = trigger.agentId
    · subst hself
      simp only [TriggerEngine.store, update_self]
      exact List.nodup_append_comm.mp (List.nodup_cons.mpr ⟨hunlisted _, h.nodup _⟩)
    · simp only [TriggerEngine.store, update_of_ne hself]
      exact h.nodup agentId
  · intro agentId id
    simp only [TriggerEngine.store]
    rw [owns_insert hfresh, ← h.mem_iff]
    by_cases hself : agentId = trigger.agentId
    · subst hself
      simp [or_comm]
    · simp [update_of_ne hself, Ne.symm hself]
  · intro t ht
    rcases Table.mem_insert.mp ht with rfl | ⟨ht, -⟩
    · simp [TriggerEngine.store, hid]
    · exact Nat.lt_succ_of_lt (h.drawn t ht)

theorem remove (h : Indexed e) (triggerId : Nat) : Indexed (e.remove triggerId).1 := by
  unfold TriggerEngine.remove
  split
  · exact h
  · rename_i trigger hfind
    obtain ⟨hmem, rfl⟩ := Table.find_eq_some_iff.mp hfind
    constructor
    · intro agentId
      by_cases hself : agentId = trigger.agentId
      · subst hself
        simp only [update_self]
        exact (h.nodup _).filter _
      · simp only [update_of_ne hself]
        exact h.nodup agentId
    · intro agentId id
      dsimp only
      rw [owns_erase, ← h.mem_iff]
      by_cases hself : agentId = trigger.agentId
      · subst hself
        simp
      · rw [update_of_ne hself]
        constructor
        · intro hid
          refine ⟨hid, ?_⟩
          rintro rfl
          exact hself ((h.mem_iff_agentId hmem agentId).mp hid).symm
        · exact fun hid => hid.1
    · intro t ht
      exact h.drawn t (Table.mem_erase.mp ht).1

theorem takeAgentTriggers (h : Indexed e) (agentId : String) :
    Indexed (e.takeAgentTriggers agentId).1 := by
  constructor
  · intro agentId'
    by_cases hself : agentId' = agentId
    · simp [TriggerEngine.takeAgentTriggers, hself]
    · simp only [TriggerEngine.takeAgentTriggers, update_of_ne hself]
      exact h.nodup agentId'
  · intro agentId' id
    simp only [TriggerEngine.takeAgentTriggers]
    have hstays : Owns (TriggerEngine.takeLoop (e.agentTriggers agentId) e.triggers []).1
        agentId' id ↔ agentId' ≠ agentId ∧ Owns e.triggers agentId' id := by
      constructor
      · rintro ⟨t, ht, rfl, rfl⟩
        obtain ⟨ht, hout⟩ := mem_takeLoop_stored.mp ht
        exact ⟨fun hself => hout ((h.mem_iff_agentId ht agentId).mpr hself), t, ht, rfl, rfl⟩
      · rintro ⟨hne, t, ht, rfl, rfl⟩
        refine ⟨t, mem_takeLoop_stored.mpr ⟨ht, fun hin => hne ?_⟩, rfl, rfl⟩
        exact (h.mem_iff_agentId ht agentId).mp hin
    rw [hstays, ← h.mem_iff]
    by_cases hself : agentId' = agentId
    · simp [hself]
    · simp [hself]
  · intro t ht
    exact h.drawn t (mem_takeLoop_stored.mp ht).1

/-- Rewriting triggers that keep their owners. -/
theorem map (h : Indexed e) {f : Trigger → Trigger} (hf : ∀ t, (f t).id = t.id)
    (howner : ∀ t, (f t).agentId = t.agentId) :
    Indexed { e with triggers := e.triggers.map f hf } where
  nodup := h.nodup
  mem_iff agentId id := by
    rw [h.mem_iff, owns_map]
    simp only [howner]
    rfl
  drawn t ht := by
    obtain ⟨t', ht', rfl⟩ := (Table.mem_map hf).mp ht
    rw [hf]
    exact h.drawn t' ht'

theorem reassignAgentTriggers (h : Indexed e) (oldAgentId newAgentId : String) :
    Indexed (e.reassignAgentTriggers oldAgentId newAgentId) := by
  constructor
  · intro agentId
    simp only [TriggerEngine.reassignAgentTriggers]
    by_cases hnew : agentId = newAgentId
    · subst hnew
      rw [update_self]
      by_cases hold : agentId = oldAgentId
      · simp [hold, h.nodup]
      · rw [update_of_ne hold]
        refine List.nodup_append.mpr ⟨h.nodup _, h.nodup _, ?_⟩
        rintro id hid id' hid' rfl
        obtain ⟨t, ht, rfl, rfl⟩ := (h.mem_iff agentId id).mp hid
        exact hold ((h.mem_iff_agentId ht oldAgentId).mp hid')
    · rw [update_of_ne hnew]
      by_cases hold : agentId = oldAgentId
      · simp [hold]
      · rw [update_of_ne hold]
        exact h.nodup agentId
  · intro agentId id
    simp only [TriggerEngine.reassignAgentTriggers]
    rw [owns_map]
    -- a trigger moves exactly if it was the old agent's
    have hmoved : (∃ t ∈ e.triggers.entries, t.id = id ∧
        (if t.id ∈ e.agentTriggers oldAgentId then { t with agentId := newAgentId }
          else t).agentId = agentId) ↔
        (agentId = newAgentId ∧ Owns e.triggers oldAgentId id) ∨
          (agentId ≠ oldAgentId ∧ Owns e.triggers agentId id) := by
      constructor
      · rintro ⟨t, ht, rfl, howner⟩
        by_cases hin : t.id ∈ e.agentTriggers oldAgentId
        · rw [if_pos hin] at howner
          exact .inl ⟨howner.symm, (h.mem_iff oldAgentId t.id).mp hin⟩
        · rw [if_neg hin] at howner
          refine .inr ⟨?_, t, ht, rfl, howner⟩
          rintro rfl
          exact hin ((h.mem_iff_agentId ht _).mpr howner)
      · rintro (⟨rfl, t, ht, rfl, howner⟩ | ⟨hne, t, ht, rfl, rfl⟩)
        · exact ⟨t, ht, rfl, by rw [if_pos ((h.mem_iff_agentId ht _).mpr howner)]⟩
        · refine ⟨t, ht, rfl, ?_⟩
          rw [if_neg (fun hin => hne ((h.mem_iff_agentId ht _).mp hin))]
    rw [hmoved, ← h.mem_iff, ← h.mem_iff]
    by_cases hnew : agentId = newAgentId
    · subst hnew
      by_cases hold : agentId = oldAgentId
      · simp [hold]
      · simp [hold, or_comm]
    · rw [update_of_ne hnew]
      by_cases hold : agentId = oldAgentId
      · subst hold
        simp [hnew]
      · simp [hold, hnew]
  · intro t ht
    obtain ⟨t', ht', rfl⟩ := List.mem_map.mp ht
    split
    · exact h.drawn t' ht'
    · exact h.drawn t' ht'

end Indexed

/-! ### The dispatches -/

/-- The ids of the triggers that an event fires. -/
def firedIds (e : TriggerEngine) (input : EvaluateInput) : List Nat :=
  (e.evaluate input).2.map (·.1)

theorem firedIds_eq (e : TriggerEngine) (input : EvaluateInput) : firedIds e input =
    (e.triggers.entries.filter fun t => (input.fire t).2.isSome).map Trigger.id := by
  unfold firedIds TriggerEngine.evaluate
  induction e.triggers.entries with
  | nil => rfl
  | cons t entries ih =>
      cases hfire : (input.fire t).2 with
      | none => simpa [hfire] using ih
      | some dispatch => simpa [hfire] using ih

theorem dispatches_dispatched (ids : List Nat) (history : List TriggerEvent) (id : Nat) :
    dispatches (ids.map .dispatched ++ history) id = dispatches history id + ids.count id := by
  induction ids with
  | nil => simp
  | cons i ids ih =>
      simp only [List.map_cons, List.cons_append, dispatches, ih, List.count_cons, beq_iff_eq]
      omega

/-- A trigger that fires counts the dispatch, one that does not keeps its count. -/
theorem fire_fireCount (input : EvaluateInput) (t : Trigger) : (input.fire t).1.fireCount =
    t.fireCount + if (input.fire t).2.isSome then 1 else 0 := by
  unfold EvaluateInput.fire
  split_ifs <;> simp_all

theorem fire_maxFires (input : EvaluateInput) (t : Trigger) :
    (input.fire t).1.maxFires = t.maxFires := by
  unfold EvaluateInput.fire
  split_ifs <;> rfl

/-- A limited trigger that has not passed its limit does not pass it by firing. -/
theorem fire_within (input : EvaluateInput) (t : Trigger) (hlimited : 0 < t.maxFires)
    (h : t.fireCount ≤ t.maxFires) : (input.fire t).1.fireCount ≤ t.maxFires := by
  unfold EvaluateInput.fire
  split_ifs with henabled hspent hmatch
  · exact h
  · exact h
  · have hleft : ¬ t.maxFires ≤ t.fireCount := fun hle => hspent ⟨hlimited, hle⟩
    simp only
    omega
  · exact h

/-- The invariant of a run: every trigger, stored or taken, counts its dispatches and is within
its limit, what was taken is not stored, and nothing happened under an id not yet drawn. -/
structure Counted (s : TriggerRun) : Prop where
  indexed : Indexed s.engine
  counted : ∀ t ∈ s.engine.triggers.entries ++ s.taken, dispatches s.history t.id = t.fireCount
  within : ∀ t ∈ s.engine.triggers.entries ++ s.taken, 0 < t.maxFires → t.fireCount ≤ t.maxFires
  takenDrawn : ∀ t ∈ s.taken, t.id < s.engine.drawn
  takenGone : ∀ t ∈ s.taken, ∀ t' ∈ s.engine.triggers.entries, t'.id ≠ t.id
  undrawn : ∀ id, s.engine.drawn ≤ id → dispatches s.history id = 0

namespace Counted

variable {s : TriggerRun}

theorem new : Counted .new where
  indexed := .new
  counted t ht := by simp [TriggerRun.new, TriggerEngine.new, Table.empty] at ht
  within t ht := by simp [TriggerRun.new, TriggerEngine.new, Table.empty] at ht
  takenDrawn t ht := absurd ht List.not_mem_nil
  takenGone t ht := absurd ht List.not_mem_nil
  undrawn id _ := rfl

/-- A trigger with a fresh id is stored, and its count is what the history says of the id. -/
theorem store (h : Counted s) {trigger : Trigger} {history : List TriggerEvent}
    (hid : trigger.id = s.engine.drawn)
    (hcount : dispatches history trigger.id = trigger.fireCount)
    (hwithin : 0 < trigger.maxFires → trigger.fireCount ≤ trigger.maxFires)
    (hothers : ∀ id, id ≠ s.engine.drawn → dispatches history id = dispatches s.history id) :
    Counted { s with engine := s.engine.store trigger, history := history } := by
  have hold : ∀ t ∈ (s.engine.store trigger).triggers.entries ++ s.taken, t = trigger ∨
      (t ∈ s.engine.triggers.entries ++ s.taken ∧ t.id ≠ s.engine.drawn) := by
    intro t ht
    rcases List.mem_append.mp ht with ht | ht
    · rcases Table.mem_insert.mp ht with rfl | ⟨ht, -⟩
      · exact .inl rfl
      · exact .inr ⟨List.mem_append_left _ ht, (h.indexed.drawn t ht).ne⟩
    · exact .inr ⟨List.mem_append_right _ ht, (h.takenDrawn t ht).ne⟩
  constructor
  · exact h.indexed.store hid
  · intro t ht
    rcases hold t ht with rfl | ⟨ht, hne⟩
    · exact hcount
    · rw [hothers t.id hne]
      exact h.counted t ht
  · intro t ht
    rcases hold t ht with rfl | ⟨ht, -⟩
    · exact hwithin
    · exact h.within t ht
  · intro t ht
    exact Nat.lt_succ_of_lt (h.takenDrawn t ht)
  · intro t ht t' ht'
    rcases Table.mem_insert.mp ht' with rfl | ⟨ht', -⟩
    · rw [hid]
      exact (h.takenDrawn t ht).ne'
    · exact h.takenGone t ht t' ht'
  · intro id hle
    have hlt : s.engine.drawn < id := hle
    rw [hothers id hlt.ne']
    exact h.undrawn id hlt.le

/-- Triggers are dropped, and some of those dropped are taken. -/
theorem drop (h : Counted s) {e : TriggerEngine} {taken : List Trigger} (hindexed : Indexed e)
    (hdrawn : e.drawn = s.engine.drawn)
    (hstored : ∀ t ∈ e.triggers.entries, t ∈ s.engine.triggers.entries)
    (htaken : ∀ t ∈ taken, t ∈ s.taken ∨
      (t ∈ s.engine.triggers.entries ∧ ∀ t' ∈ e.triggers.entries, t'.id ≠ t.id)) :
    Counted { s with engine := e, taken := taken } := by
  have hold : ∀ t ∈ e.triggers.entries ++ taken, t ∈ s.engine.triggers.entries ++ s.taken := by
    intro t ht
    rcases List.mem_append.mp ht with ht | ht
    · exact List.mem_append_left _ (hstored t ht)
    · rcases htaken t ht with ht | ⟨ht, -⟩
      · exact List.mem_append_right _ ht
      · exact List.mem_append_left _ ht
  constructor
  · exact hindexed
  · exact fun t ht => h.counted t (hold t ht)
  · exact fun t ht => h.within t (hold t ht)
  · intro t ht
    dsimp only
    rw [hdrawn]
    rcases htaken t ht with ht | ⟨ht, -⟩
    · exact h.takenDrawn t ht
    · exact h.indexed.drawn t ht
  · intro t ht t' ht'
    rcases htaken t ht with ht | ⟨-, hgone⟩
    · exact h.takenGone t ht t' (hstored t' ht')
    · exact hgone t' ht'
  · intro id hle
    exact h.undrawn id (hdrawn ▸ hle)

/-- Triggers are rewritten but for what is counted. -/
theorem rewrite (h : Counted s) {f : Trigger → Trigger} (hf : ∀ t, (f t).id = t.id)
    (hcount : ∀ t, (f t).fireCount = t.fireCount) (hmax : ∀ t, (f t).maxFires = t.maxFires)
    {e : TriggerEngine} (hindexed : Indexed e) (hdrawn : e.drawn = s.engine.drawn)
    (htriggers : e.triggers = s.engine.triggers.map f hf) :
    Counted { s with engine := e } := by
  have hold : ∀ t ∈ e.triggers.entries ++ s.taken, ∃ t' ∈ s.engine.triggers.entries ++ s.taken,
      t.id = t'.id ∧ t.fireCount = t'.fireCount ∧ t.maxFires = t'.maxFires := by
    intro t ht
    rcases List.mem_append.mp ht with ht | ht
    · rw [htriggers] at ht
      obtain ⟨t', ht', rfl⟩ := (Table.mem_map hf).mp ht
      exact ⟨t', List.mem_append_left _ ht', hf t', hcount t', hmax t'⟩
    · exact ⟨t, List.mem_append_right _ ht, rfl, rfl, rfl⟩
  constructor
  · exact hindexed
  · intro t ht
    obtain ⟨t', ht', hid, hfires, -⟩ := hold t ht
    rw [hid, hfires]
    exact h.counted t' ht'
  · intro t ht
    obtain ⟨t', ht', -, hfires, hlimit⟩ := hold t ht
    rw [hfires, hlimit]
    exact h.within t' ht'
  · intro t ht
    dsimp only
    rw [hdrawn]
    exact h.takenDrawn t ht
  · intro t ht t' ht'
    dsimp only at ht'
    rw [htriggers] at ht'
    obtain ⟨t₀, ht₀, rfl⟩ := (Table.mem_map hf).mp ht'
    rw [hf]
    exact h.takenGone t ht t₀ ht₀
  · intro id hle
    exact h.undrawn id (hdrawn ▸ hle)

theorem restoreTriggers (h : Counted s) (newAgentId : String) {triggers : List Trigger}
    (htaken : ∀ t ∈ triggers, t ∈ s.taken) :
    Counted { s with
      engine := s.engine.restoreTriggers newAgentId triggers
      history := restoredHistory s.engine.drawn triggers s.history } := by
  induction triggers generalizing s with
  | nil => exact h
  | cons old triggers ih =>
      have hold : old ∈ s.taken := htaken old List.mem_cons_self
      have hmem : old ∈ s.engine.triggers.entries ++ s.taken := List.mem_append_right _ hold
      have hstored : Counted { s with
          engine := s.engine.store { old with id := s.engine.drawn, agentId := newAgentId }
          history := .restored old.id s.engine.drawn :: s.history } := by
        refine h.store rfl ?_ (h.within old hmem) ?_
        · simp only [dispatches, if_true]
          exact h.counted old hmem
        · intro id hne
          simp only [dispatches, if_neg (Ne.symm hne)]
      exact ih hstored fun t ht => htaken t (List.mem_cons_of_mem _ ht)

theorem evaluate (h : Counted s) (input : EvaluateInput) :
    Counted { s with
      engine := (s.engine.evaluate input).1
      history := (firedIds s.engine input).map .dispatched ++ s.history } := by
  have hnodup : (firedIds s.engine input).Nodup := by
    rw [firedIds_eq]
    exact s.engine.triggers.distinct.sublist (List.filter_sublist.map _)
  have hfired : ∀ id ∈ firedIds s.engine input, ∃ t ∈ s.engine.triggers.entries,
      (input.fire t).2.isSome ∧ t.id = id := by
    intro id hid
    rw [firedIds_eq] at hid
    obtain ⟨t, ht, rfl⟩ := List.mem_map.mp hid
    exact ⟨t, (List.mem_filter.mp ht).1, (List.mem_filter.mp ht).2, rfl⟩
  have hcount : ∀ t ∈ s.engine.triggers.entries, (firedIds s.engine input).count t.id =
      if (input.fire t).2.isSome then 1 else 0 := by
    intro t ht
    split
    · rename_i hsome
      apply List.count_eq_one_of_mem hnodup
      rw [firedIds_eq]
      exact List.mem_map_of_mem (List.mem_filter.mpr ⟨ht, hsome⟩)
    · rename_i hnone
      apply List.count_eq_zero_of_not_mem
      intro hmem
      obtain ⟨t', ht', hsome, hid⟩ := hfired _ hmem
      rw [Table.eq_of_key_eq ht' ht hid] at hsome
      exact hnone hsome
  have hquiet : ∀ id, (∀ t ∈ s.engine.triggers.entries, t.id ≠ id) →
      (firedIds s.engine input).count id = 0 := by
    intro id hnobody
    apply List.count_eq_zero_of_not_mem
    intro hmem
    obtain ⟨t, ht, -, hid⟩ := hfired id hmem
    exact hnobody t ht hid
  constructor
  · exact h.indexed.map _ input.fire_agentId
  · intro t ht
    dsimp only
    rw [dispatches_dispatched]
    rcases List.mem_append.mp ht with ht | ht
    · obtain ⟨t', ht', rfl⟩ := List.mem_map.mp ht
      rw [input.fire_id, hcount t' ht', h.counted t' (List.mem_append_left _ ht'),
        fire_fireCount]
    · rw [hquiet t.id (h.takenGone t ht), h.counted t (List.mem_append_right _ ht), Nat.add_zero]
  · intro t ht
    rcases List.mem_append.mp ht with ht | ht
    · obtain ⟨t', ht', rfl⟩ := List.mem_map.mp ht
      rw [fire_maxFires]
      intro hlimited
      exact fire_within input t' hlimited (h.within t' (List.mem_append_left _ ht') hlimited)
    · exact h.within t (List.mem_append_right _ ht)
  · exact h.takenDrawn
  · intro t ht t' ht'
    obtain ⟨t₀, ht₀, rfl⟩ := List.mem_map.mp ht'
    rw [input.fire_id]
    exact h.takenGone t ht t₀ ht₀
  · intro id hle
    dsimp only
    rw [dispatches_dispatched, h.undrawn id hle, Nat.zero_add]
    exact hquiet id fun t ht => ((h.indexed.drawn t ht).trans_le hle).ne

end Counted

/-! ### Runs of the engine -/

/-- One call keeps the index, whatever is restored. -/
theorem indexed_triggerStep (s : TriggerRun) (op : TriggerOp) (h : Indexed s.engine) :
    Indexed (triggerStep s op).engine := by
  cases op with
  | register agentId pattern promptTemplate maxFires now => exact h.store rfl
  | remove triggerId => exact h.remove triggerId
  | removeAgentTriggers agentId => exact h.takeAgentTriggers agentId
  | takeAgentTriggers agentId => exact h.takeAgentTriggers agentId
  | restoreTriggers newAgentId triggers =>
      simp only [triggerStep, TriggerEngine.restoreTriggers]
      induction triggers generalizing s with
      | nil => exact h
      | cons old triggers ih =>
          exact ih ⟨s.engine.store { old with id := s.engine.drawn, agentId := newAgentId },
            s.taken, s.history⟩ (h.store rfl)
  | reassignAgentTriggers oldAgentId newAgentId =>
      exact h.reassignAgentTriggers oldAgentId newAgentId
  | setEnabled triggerId enabled =>
      refine h.map _ fun t => ?_
      split <;> rfl
  | evaluate input => exact h.map _ input.fire_agentId

/-- One call keeps the counts where only taken triggers are restored. -/
theorem counted_triggerStep (s : TriggerRun) (op : TriggerOp) (h : Counted s)
    (hguard : RestoresTaken s op) : Counted (triggerStep s op) := by
  have hindexed := indexed_triggerStep s op h.indexed
  cases op with
  | register agentId pattern promptTemplate maxFires now =>
      exact h.store rfl (h.undrawn _ (Nat.le_refl _)) (fun _ => Nat.zero_le _) fun _ _ => rfl
  | remove triggerId =>
      simp only [triggerStep, TriggerEngine.remove] at hindexed ⊢
      split at hindexed
      · exact h
      · refine h.drop hindexed rfl ?_ fun t ht => .inl ht
        exact fun t ht => (Table.mem_erase.mp ht).1
  | removeAgentTriggers agentId =>
      refine h.drop hindexed rfl ?_ fun t ht => .inl ht
      exact fun t ht => (mem_takeLoop_stored.mp ht).1
  | takeAgentTriggers agentId =>
      refine h.drop hindexed rfl ?_ ?_
      · exact fun t ht => (mem_takeLoop_stored.mp ht).1
      · intro t ht
        rcases List.mem_append.mp ht with ht | ht
        · exact .inl ht
        · rcases mem_takeLoop_taken.mp ht with ht | ⟨ht, hin⟩
          · exact absurd ht List.not_mem_nil
          · refine .inr ⟨ht, ?_⟩
            rintro t' ht' hid
            exact (mem_takeLoop_stored.mp ht').2 (hid ▸ hin)
  | restoreTriggers newAgentId triggers => exact h.restoreTriggers newAgentId hguard
  | reassignAgentTriggers oldAgentId newAgentId =>
      refine h.rewrite (fun t => ?_) (fun t => ?_) (fun t => ?_) hindexed rfl rfl
      all_goals split <;> rfl
  | setEnabled triggerId enabled =>
      refine h.rewrite (fun t => ?_) (fun t => ?_) (fun t => ?_) hindexed rfl rfl
      all_goals split <;> rfl
  | evaluate input =>
      have hstep := h.evaluate input
      rw [firedIds, List.map_map] at hstep
      exact hstep

/-- **The trigger index and the fire limits.** Whatever is called on an empty engine, the index
lists every stored trigger once, under its own agent and nowhere else, and lists nothing that is
not stored; and where only triggers taken from the engine are restored, a trigger with a limit
counts every dispatch made for it, under whatever id and agent, and stays within the limit. -/
theorem trigger_index_and_limits (ops : List TriggerOp) :
    IndexSound (runOps triggerStep .new ops).engine ∧
      (Guarded triggerStep RestoresTaken .new ops → LimitsKept (runOps triggerStep .new ops)) := by
  constructor
  · have hinv : ∀ s : TriggerRun, Indexed s.engine → Indexed (runOps triggerStep s ops).engine :=
      fun s h => runOps_invariant' indexed_triggerStep h ops
    exact (hinv .new .new).indexSound
  · intro hguard
    have hinv : Counted (runOps triggerStep .new ops) :=
      runOps_invariant counted_triggerStep Counted.new hguard
    intro t ht hlimited
    exact ⟨hinv.counted t ht, hinv.within t ht hlimited⟩

/-- The evaluation of a message in ASCII. -/
def messageInput : EvaluateInput where
  lib := ⟨id, fun _ => "", fun _ => none, fun text => text.map Char.toLower⟩
  uuidText := toString
  event := ⟨.message, "Message from a to b"⟩
  now := 0
  defaultOrchBudgetMs := none

/-- A one-shot trigger fires, moves to another agent, is enabled again and does not fire. -/
def movedOneShot : List TriggerOp :=
  [.register "old" (.contentMatch "message") "Run: {{event}}" 1 0,
    .evaluate messageInput, .takeAgentTriggers "old",
    .restoreTriggers "new" [⟨0, "old", .contentMatch "message", "Run: {{event}}",
      true, 0, 1, 1⟩],
    .evaluate messageInput, .setEnabled 1 true, .evaluate messageInput]

theorem trigger_index_and_limits_movedOneShot :
    IndexSound (runOps triggerStep .new movedOneShot).engine ∧
      LimitsKept (runOps triggerStep .new movedOneShot) := by
  have htaken : Guarded triggerStep RestoresTaken .new movedOneShot := by
    refine ⟨trivial, trivial, trivial, ?_, trivial, trivial, trivial, trivial⟩
    intro t ht
    cases List.mem_singleton.mp ht
    decide +kernel
  have hsound := trigger_index_and_limits movedOneShot
  exact ⟨hsound.1, hsound.2 htaken⟩

end ArmaraOS.Kernel
