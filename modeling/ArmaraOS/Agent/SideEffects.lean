import ArmaraOS.Agent.Script
import ArmaraOS.Agent.Stages

/-!
The side effects of a tool round.

A round drops a parallel-lane call that repeats an earlier one and runs adjacent parallel-lane calls
at once, and its lanes come from a table of names that sends every name it does not know to the
parallel lane. `recording` keeps the batches that a world is handed, so that what a round started
can be compared with what the response asked for. The effects of a round happen once each, alone and
in order exactly when no effectful call of the parallel lane repeats an earlier one or stands next
to another (`round_effects_iff_lanes_sound`).
-/

namespace ArmaraOS.Agent

open ArmaraOS.Text

variable {σ : Type}

/-! ### Effects -/

/-- The tools of the dispatcher whose handlers only read, and the MCP tools that the lane
table knows to. `web_fetch` is judged by its method. -/
def readOnlyTools : List String :=
  ["file_read", "file_list", "document_extract", "web_search", "agent_list", "memory_recall",
    "memory_list", "agent_find", "agent_find_capabilities", "agent_pool_list", "task_list",
    "schedule_list", "channels_list", "knowledge_query", "image_analyze", "media_describe",
    "media_transcribe", "speech_to_text", "location_get", "system_time", "cron_list",
    "process_list", "workspace_actions_list", "script_detect", "hand_list", "hand_status",
    "a2a_discover", "hermes_a2a_status", "a2a_discover_hermes", "browser_read_page",
    "browser_snapshot", "browser_wait", "browser_session_status", "email_read", "email_search",
    "mcp_resource_read", "mcp_ainl_ainl_validate", "mcp_ainl_ainl_compile",
    "mcp_ainl_ainl_capabilities", "mcp_ainl_ainl_security_report", "mcp_ainl_ainl_ir_diff",
    "mcp_ainl_ainl_ptc_signature_check"]

/-- The invocation may change state outside the call. -/
def changesState (inv : Invocation) : Bool :=
  if inv.tool = "web_fetch" then
    decide (((inv.args.get "method").bind Json.asStr).map toAsciiLowercase ∈
      [some "post", some "put", some "patch", some "delete"])
  else decide (inv.tool ∉ readOnlyTools)

/-- What is performed for a call. -/
def performed (cfg : TurnConfig) (tc : ToolCall) : Option Invocation :=
  (resolveCall cfg.allowedToolNames tc.name tc.input).invocation?

/-- An effectful invocation is performed for the call. -/
def hasEffect (effectful : Invocation → Bool) (cfg : TurnConfig) (tc : ToolCall) : Bool :=
  (performed cfg tc).any effectful

/-! ### Batches -/

section Batches

variable {α : Type} {parallel effect : α → Bool}

/-- Neighbours in the parallel lane have no effect. -/
def Apart (parallel effect : α → Bool) (x y : α) : Prop :=
  parallel x = true → parallel y = true → effect x = false ∧ effect y = false

/-- Whatever has an effect is alone in its batch. -/
def Alone (effect : α → Bool) (batch : List α) : Prop :=
  ∀ x ∈ batch, effect x = true → batch = [x]

theorem alone_singleton (x : α) : Alone effect [x] := by
  intro y hy _
  obtain rfl := List.mem_singleton.mp hy
  rfl

/-- In a batch of parallel calls, effects are alone when no neighbour has one. -/
theorem alone_iff_isChain : ∀ {batch : List α}, (∀ x ∈ batch, parallel x = true) →
    (Alone effect batch ↔ batch.IsChain (Apart parallel effect))
  | [], _ => by simp [Alone]
  | [x], _ => by simp [alone_singleton]
  | x :: y :: rest, hpar => by
      have hquiet : Alone effect (x :: y :: rest) ↔
          ∀ z ∈ x :: y :: rest, effect z = false := by
        constructor
        · intro h z hz
          refine Bool.eq_false_iff.mpr fun heff => ?_
          simpa using h z hz heff
        · intro h z hz heff
          rw [h z hz] at heff
          cases heff
      have hrest : (y :: rest).IsChain (Apart parallel effect) ↔ Alone effect (y :: rest) :=
        (alone_iff_isChain fun z hz => hpar z (List.mem_cons_of_mem _ hz)).symm
      rw [hquiet, List.isChain_cons_cons, hrest]
      constructor
      · intro h
        refine ⟨fun _ _ => ⟨h x (by simp), h y (by simp)⟩, fun z hz heff => ?_⟩
        rw [h z (List.mem_cons_of_mem _ hz)] at heff
        cases heff
      · rintro ⟨hapart, halone⟩ z hz
        obtain ⟨hx, hy⟩ := hapart (hpar x (by simp)) (hpar y (by simp))
        rcases List.mem_cons.mp hz with rfl | hz
        · exact hx
        · refine Bool.eq_false_iff.mpr fun heff => ?_
          have hone := halone z hz heff
          obtain ⟨rfl, -⟩ := List.cons.inj hone
          rw [hy] at heff
          cases heff

theorem apart_of_serial_left {x y : α} (h : parallel x = false) : Apart parallel effect x y := by
  intro hx
  rw [h] at hx
  cases hx

theorem apart_of_serial_right {x y : α} (h : parallel y = false) : Apart parallel effect x y := by
  intro _ hy
  rw [h] at hy
  cases hy

theorem isChain_cons_serial {x : α} {items : List α} (h : parallel x = false) :
    (x :: items).IsChain (Apart parallel effect) ↔ items.IsChain (Apart parallel effect) := by
  rw [List.isChain_cons]
  exact and_iff_right fun y _ => apart_of_serial_left h

theorem isChain_append_serial {batch items : List α} {x : α} (h : parallel x = false) :
    (batch ++ x :: items).IsChain (Apart parallel effect) ↔
      batch.IsChain (Apart parallel effect) ∧ items.IsChain (Apart parallel effect) := by
  rw [List.isChain_append, isChain_cons_serial h]
  refine and_congr_right fun _ => and_iff_left ?_
  intro y _ z hz
  obtain rfl : x = z := by simpa using hz
  exact apart_of_serial_right h

/-- The batches leave every effect alone exactly when no effectful item of the parallel lane
has a neighbour in it. -/
theorem batchesFrom_alone : ∀ (items batch : List α), (∀ x ∈ batch, parallel x = true) →
    ((∀ b ∈ batchesFrom parallel batch items, Alone effect b) ↔
      (batch ++ items).IsChain (Apart parallel effect))
  | [], batch, hpar => by
      rw [batchesFrom, List.append_nil, ← alone_iff_isChain hpar]
      split
      · rename_i hempty
        rw [List.isEmpty_iff] at hempty
        simp [hempty, Alone]
      · simp
  | x :: rest, batch, hpar => by
      rw [batchesFrom]
      split
      · rename_i hx
        have hpar' : ∀ y ∈ batch ++ [x], parallel y = true := by
          intro y hy
          rcases List.mem_append.mp hy with hy | hy
          · exact hpar y hy
          · obtain rfl := List.mem_singleton.mp hy
            exact hx
        rw [batchesFrom_alone rest (batch ++ [x]) hpar', List.append_assoc]
        rfl
      · rename_i hx
        rw [Bool.not_eq_true] at hx
        have hrest : (∀ b ∈ batchesFrom parallel [] rest, Alone effect b) ↔
            rest.IsChain (Apart parallel effect) := batchesFrom_alone rest [] (by simp)
        rw [isChain_append_serial hx, ← hrest, ← alone_iff_isChain hpar]
        split
        · rename_i hempty
          rw [List.isEmpty_iff] at hempty
          simp [hempty, Alone]
        · simp [alone_singleton]

theorem orderedBatches_alone {items : List α} :
    (∀ b ∈ orderedBatches parallel items, Alone effect b) ↔
      items.IsChain (Apart parallel effect) :=
  batchesFrom_alone items [] (by simp)

end Batches

/-! ### Repeated calls -/

/-- The later call is effectful and does not repeat the earlier one in the parallel lane. -/
def Unrepeated (lib : Library) (effect : ToolCall → Bool) (earlier later : ToolCall) : Prop :=
  isParallelRead earlier.name = true → isParallelRead later.name = true → effect later = true →
    LoopGuard.computeHash lib earlier.name earlier.input ≠
      LoopGuard.computeHash lib later.name later.input

theorem deduplicateFrom_sublist (lib : Library) : ∀ (calls : List ToolCall) (seen : List String),
    (deduplicateFrom lib seen calls).Sublist calls
  | [], _ => .slnil
  | tc :: rest, seen => by
      unfold deduplicateFrom
      split
      · dsimp only
        split
        · exact (deduplicateFrom_sublist lib rest seen).cons tc
        · exact (deduplicateFrom_sublist lib rest _).cons_cons tc
      · exact (deduplicateFrom_sublist lib rest seen).cons_cons tc

theorem filter_cons_eq_iff {α : Type} {p : α → Bool} {x : α} {xs ys : List α} :
    (x :: xs).filter p = (x :: ys).filter p ↔ xs.filter p = ys.filter p := by
  by_cases hx : p x = true
  · rw [List.filter_cons_of_pos hx, List.filter_cons_of_pos hx]
    exact ⟨List.tail_eq_of_cons_eq, congrArg _⟩
  · rw [List.filter_cons_of_neg hx, List.filter_cons_of_neg hx]

/-- Deduplication keeps every effectful call exactly when none repeats a call that was seen
in the parallel lane. -/
theorem deduplicateFrom_keeps {lib : Library} {effect : ToolCall → Bool} :
    ∀ {calls : List ToolCall} {seen : List String},
      (deduplicateFrom lib seen calls).filter effect = calls.filter effect ↔
        calls.Pairwise (Unrepeated lib effect) ∧
          ∀ tc ∈ calls, isParallelRead tc.name = true → effect tc = true →
            LoopGuard.computeHash lib tc.name tc.input ∉ seen
  | [], _ => by simp [deduplicateFrom]
  | tc :: rest, seen => by
      rw [deduplicateFrom, List.pairwise_cons, List.forall_mem_cons]
      split
      · rename_i hpar
        dsimp only
        split
        · rename_i hseen
          by_cases heff : effect tc = true
          · rw [List.filter_cons_of_pos heff]
            constructor
            · intro h
              have hle := ((deduplicateFrom_sublist lib rest seen).filter effect).length_le
              rw [h, List.length_cons] at hle
              omega
            · rintro ⟨-, hnew, -⟩
              exact absurd hseen (hnew hpar heff)
          · rw [List.filter_cons_of_neg heff, deduplicateFrom_keeps]
            constructor
            · rintro ⟨hrest, hnew⟩
              refine ⟨⟨fun later hlater _ hpar' heff' heq => ?_, hrest⟩,
                fun _ heff' => absurd heff' heff, hnew⟩
              exact hnew later hlater hpar' heff' (heq ▸ hseen)
            · rintro ⟨⟨-, hrest⟩, -, hnew⟩
              exact ⟨hrest, hnew⟩
        · rename_i hseen
          rw [filter_cons_eq_iff, deduplicateFrom_keeps]
          constructor
          · rintro ⟨hrest, hnew⟩
            refine ⟨⟨fun later hlater _ hpar' heff' heq => ?_, hrest⟩, fun _ _ => hseen,
              fun later hlater hpar' heff' hmem => ?_⟩
            · exact hnew later hlater hpar' heff' (heq ▸ List.mem_cons_self)
            · exact hnew later hlater hpar' heff' (List.mem_cons_of_mem _ hmem)
          · rintro ⟨⟨hfirst, hrest⟩, -, hnew⟩
            refine ⟨hrest, fun later hlater hpar' heff' hmem => ?_⟩
            rcases List.mem_cons.mp hmem with heq | hmem
            · exact hfirst later hlater hpar hpar' heff' heq.symm
            · exact hnew later hlater hpar' heff' hmem
      · rename_i hserial
        rw [filter_cons_eq_iff, deduplicateFrom_keeps]
        constructor
        · rintro ⟨hrest, hnew⟩
          exact ⟨⟨fun _ _ hpar => absurd hpar hserial, hrest⟩, fun hpar => absurd hpar hserial,
            hnew⟩
        · rintro ⟨⟨-, hrest⟩, -, hnew⟩
          exact ⟨hrest, hnew⟩

theorem deduplicateToolCalls_keeps {lib : Library} {effect : ToolCall → Bool}
    {calls : List ToolCall} :
    (deduplicateToolCalls lib calls).filter effect = calls.filter effect ↔
      calls.Pairwise (Unrepeated lib effect) := by
  unfold deduplicateToolCalls
  rw [deduplicateFrom_keeps]
  exact and_iff_left (by simp)

/-! ### What the world is handed -/

/-- The calls that run at once; a call that the dispatcher refuses leaves its slot empty. -/
abbrev Batch : Type := List (Option Invocation)

/-- Pass a request on to the world, beside the record. -/
def beside {α : Type} (f : σ → α × σ) (w : σ × List Batch) : α × (σ × List Batch) :=
  ((f w.1).1, (f w.1).2, w.2)

/-- The world, with a record of the batches it is handed. -/
def recording (W : World σ) : World (σ × List Batch) where
  complete driver req := beside (W.complete driver req)
  stream driver req := beside (W.stream driver req)
  adhocDriver driver := beside (W.adhocDriver driver)
  drainBtw := beside W.drainBtw
  recvRedirect := beside W.recvRedirect
  beforeToolCall tc := beside (W.beforeToolCall tc)
  runBatch batch w :=
    ((W.runBatch batch w.1).1, (W.runBatch batch w.1).2, w.2 ++ [batch])
  saveSession messages := beside (W.saveSession messages)
  newUuid := beside W.newUuid
  hashOrder names := beside (W.hashOrder names)
  plan messages := beside (W.plan messages)
  progressTicks w := W.progressTicks w.1

/-- The batches that the world of a state was handed. -/
def LoopState.record (st : LoopState (σ × List Batch)) : List Batch := st.world.2

section Record

variable (W : World σ) (cfg : TurnConfig)

theorem precheckCall_record (tc : ToolCall) (verdict : LoopGuardVerdict)
    (st : LoopState (σ × List Batch)) :
    (precheckCall (recording W) cfg tc verdict st).2.record = st.record := by
  unfold precheckCall
  dsimp only
  split
  · rfl
  · split <;> rfl

theorem dispatchCall_record (tc : ToolCall) (st : LoopState (σ × List Batch)) :
    (dispatchCall (recording W) cfg tc st).2.record = st.record := by
  unfold dispatchCall
  split
  · rfl
  · dsimp only
    split
    · rfl
    · rfl
    · exact precheckCall_record W cfg tc _ _

theorem dispatchCalls_record : ∀ (calls : List ToolCall) (st : LoopState (σ × List Batch)),
    (dispatchCalls (recording W) cfg calls st).2.record = st.record
  | [], _ => rfl
  | tc :: rest, st => by
      have hhead := dispatchCall_record W cfg tc st
      have htail := dispatchCalls_record rest (dispatchCall (recording W) cfg tc st).2
      unfold dispatchCalls
      dsimp only
      split
      · exact hhead
      · split <;> exact htail.trans hhead

theorem runBatches_record : ∀ (batches : List (List ToolCall)) (st : LoopState (σ × List Batch)),
    (runBatches (recording W) cfg batches st).2.record =
      st.record ++ batches.map (batchInvocations cfg)
  | [], st => by simp [runBatches]
  | batch :: rest, st => by
      have hhead : (runBatch (recording W) cfg batch st).2.record =
          st.record ++ [batchInvocations cfg batch] := rfl
      rw [runBatches, runBatches_record rest, hhead, List.map_cons, List.append_assoc]
      rfl

theorem mergeResults_record : ∀ (dispatches : List ToolDispatch)
    (results : List (ToolResult × Option Invocation)) (st : LoopState (σ × List Batch)),
    (mergeResults cfg dispatches results st).2.record = st.record := by
  intro dispatches
  induction dispatches with
  | nil => exact fun _ _ => rfl
  | cons dispatch rest ih =>
      intro results st
      cases dispatch with
      | resolved tc block => exact ih results st
      | pending tc verdict =>
          cases results with
          | nil => rfl
          | cons result results =>
              exact ih results (mergeResult cfg tc verdict result st).2

theorem finishRound_record (iteration : Nat) (dispatches : List ToolDispatch)
    (blocks : List ContentBlock) (st : LoopState (σ × List Batch)) :
    (finishRound (recording W) cfg iteration dispatches blocks st).state.record = st.record := by
  have hwrap : ∀ st' : LoopState (σ × List Batch),
      (injectWrapUp cfg iteration st').record = st'.record := by
    intro st'
    unfold injectWrapUp
    split
    · split <;> rfl
    · rfl
  exact hwrap _

theorem checkAllBlocked_record (iteration : Nat) (dispatches : List ToolDispatch)
    (blocks : List ContentBlock) (st : LoopState (σ × List Batch)) :
    (checkAllBlocked (recording W) cfg iteration dispatches blocks st).state.record =
      st.record := by
  unfold checkAllBlocked
  dsimp only
  generalize (if allBlocked blocks then st.consecutiveAllBlocked + 1 else 0) = count
  by_cases hcount : 3 ≤ count
  · rw [if_pos hcount]
    rfl
  · rw [if_neg hcount]
    exact finishRound_record W cfg iteration dispatches blocks _

end Record

/-- The calls of a response that pass the loop guard and the other checks, in a round that
the circuit breaker does not stop. -/
def approved (W : World σ) (cfg : TurnConfig) (response : CompletionResponse)
    (st : LoopState σ) : List ToolCall :=
  match (dispatchCalls W cfg (deduplicateToolCalls cfg.lib response.toolCalls)
      (openRound response st)).1 with
  | .error _ => []
  | .ok dispatches => pendingCalls dispatches

/-- The batches that a round hands to its world. -/
def batchesRun (W : World σ) (cfg : TurnConfig) (iteration : Nat)
    (response : CompletionResponse) (st : LoopState (σ × List Batch)) : List Batch :=
  (toolRound (recording W) cfg iteration response st).state.record.drop st.record.length

/-- A round hands over the ordered batches of the calls that pass its checks, and nothing
else. -/
theorem batchesRun_eq (W : World σ) (cfg : TurnConfig) (iteration : Nat)
    (response : CompletionResponse) (st : LoopState (σ × List Batch)) :
    batchesRun W cfg iteration response st =
      (orderedBatches (fun tc => isParallelRead tc.name)
        (approved (recording W) cfg response st)).map (batchInvocations cfg) := by
  suffices h : (toolRound (recording W) cfg iteration response st).state.record =
      st.record ++ (orderedBatches (fun tc => isParallelRead tc.name)
        (approved (recording W) cfg response st)).map (batchInvocations cfg) by
    rw [batchesRun, h, List.drop_left]
  have hpassed := dispatchCalls_record W cfg
    (deduplicateToolCalls cfg.lib response.toolCalls) (openRound response st)
  unfold toolRound approved
  dsimp only
  generalize dispatchCalls (recording W) cfg (deduplicateToolCalls cfg.lib response.toolCalls)
    (openRound response st) = passed at hpassed ⊢
  obtain ⟨outcome, after⟩ := passed
  have hafter : after.record = st.record := hpassed
  cases outcome with
  | error message =>
      rw [← hafter]
      exact (List.append_nil _).symm
  | ok dispatches =>
      dsimp only
      rw [checkAllBlocked_record]
      unfold runDispatches
      dsimp only
      rw [mergeResults_record, runBatches_record, hafter]

/-! ### Effects in order -/

/-- A batch that hands over an effectful invocation hands over nothing else. -/
def Isolated (effectful : Invocation → Bool) (batch : Batch) : Prop :=
  ∀ inv ∈ batch.filterMap id, effectful inv = true → batch = [some inv]

/-- What a round must do with the side effects of the calls it is given: none is dropped as a
repetition, those of the calls that pass the checks are started once each and in order, and
none beside another call. -/
structure EffectsInOrder (effectful : Invocation → Bool) (cfg : TurnConfig)
    (calls passed : List ToolCall) (batches : List Batch) : Prop where
  kept : (deduplicateToolCalls cfg.lib calls).filter (hasEffect effectful cfg) =
    calls.filter (hasEffect effectful cfg)
  ordered : passed.Sublist calls
  started : (batches.flatten.filterMap id).filter effectful =
    (passed.filterMap (performed cfg)).filter effectful
  isolated : ∀ batch ∈ batches, Isolated effectful batch

/-- The lanes suffice for a response: no effectful call of the parallel lane repeats an
earlier call of it, and among the calls that pass the checks none has a neighbour in it. -/
structure LanesSound (effectful : Invocation → Bool) (cfg : TurnConfig)
    (calls passed : List ToolCall) : Prop where
  unrepeated : calls.Pairwise (Unrepeated cfg.lib (hasEffect effectful cfg))
  apart : passed.IsChain (Apart (fun tc => isParallelRead tc.name) (hasEffect effectful cfg))

theorem batchInvocations_eq (cfg : TurnConfig) (batch : List ToolCall) :
    batchInvocations cfg batch = batch.map (performed cfg) := rfl

theorem isolated_iff_alone {effectful : Invocation → Bool} {cfg : TurnConfig}
    {batch : List ToolCall} :
    Isolated effectful (batchInvocations cfg batch) ↔
      Alone (hasEffect effectful cfg) batch := by
  rw [batchInvocations_eq]
  constructor
  · intro h tc htc heff
    obtain ⟨inv, hinv, heff⟩ := (Option.any_eq_true _ _).mp heff
    have hone := h inv (List.mem_filterMap.mpr ⟨some inv, List.mem_map.mpr ⟨tc, htc, hinv⟩, rfl⟩)
      heff
    obtain ⟨tc', rfl, -⟩ := List.map_eq_singleton_iff.mp hone
    obtain rfl := List.mem_singleton.mp htc
    rfl
  · intro h inv hinv heff
    obtain ⟨slot, hslot, rfl⟩ := List.mem_filterMap.mp hinv
    obtain ⟨tc, htc, hperformed⟩ := List.mem_map.mp hslot
    rw [h tc htc ((Option.any_eq_true _ _).mpr ⟨inv, hperformed, heff⟩), List.map_singleton,
      hperformed]

theorem deduplicateToolCalls_sublist (lib : Library) (calls : List ToolCall) :
    (deduplicateToolCalls lib calls).Sublist calls :=
  deduplicateFrom_sublist lib calls []

theorem pendingCalls_sublist {cfg : TurnConfig} {validated : Option String}
    {calls : List ToolCall} {dispatches : List ToolDispatch}
    (h : List.Forall₂ (Decided cfg validated) calls dispatches) :
    (pendingCalls dispatches).Sublist calls := by
  induction h with
  | nil => exact .slnil
  | @cons tc dispatch _ _ hdec _ ih =>
      rcases hdec with ⟨message, rfl⟩ | ⟨verdict, rfl, -⟩
      · exact ih.cons tc
      · exact ih.cons_cons tc

theorem approved_sublist (W : World σ) (cfg : TurnConfig) (response : CompletionResponse)
    (st : LoopState σ) : (approved W cfg response st).Sublist response.toolCalls := by
  refine List.Sublist.trans ?_ (deduplicateToolCalls_sublist cfg.lib response.toolCalls)
  unfold approved
  split
  · exact List.nil_sublist _
  · rename_i dispatches hpassed
    exact pendingCalls_sublist (dispatchCalls_decided W cfg _ _ _ hpassed)

/-- A round starts the effects of its calls once each, alone and in the order of the
response exactly when its lanes suffice. This holds of every classification of the
invocations, `changesState` among them. -/
theorem round_effects_iff_lanes_sound (effectful : Invocation → Bool) (W : World σ)
    (cfg : TurnConfig) (iteration : Nat) (response : CompletionResponse)
    (st : LoopState (σ × List Batch)) :
    EffectsInOrder effectful cfg response.toolCalls (approved (recording W) cfg response st)
        (batchesRun W cfg iteration response st) ↔
      LanesSound effectful cfg response.toolCalls (approved (recording W) cfg response st) := by
  have hsublist := approved_sublist (recording W) cfg response st
  rw [batchesRun_eq]
  generalize approved (recording W) cfg response st = passed at hsublist ⊢
  have hisolated : (∀ batch ∈ (orderedBatches (fun tc => isParallelRead tc.name) passed).map
        (batchInvocations cfg), Isolated effectful batch) ↔
      passed.IsChain
        (Apart (fun tc => isParallelRead tc.name) (hasEffect effectful cfg)) := by
    rw [List.forall_mem_map, ← orderedBatches_alone]
    exact forall₂_congr fun batch _ => isolated_iff_alone
  constructor
  · intro h
    exact ⟨deduplicateToolCalls_keeps.mp h.kept, hisolated.mp h.isolated⟩
  · intro h
    refine ⟨deduplicateToolCalls_keeps.mpr h.unrepeated, hsublist, ?_, hisolated.mpr h.apart⟩
    have hflat : ((orderedBatches (fun tc : ToolCall => isParallelRead tc.name) passed).map
        (batchInvocations cfg)).flatten = passed.map (performed cfg) := by
      have hmap : (batchInvocations cfg) = List.map (performed cfg) := rfl
      rw [hmap, ← List.map_flatten, orderedBatches_flatten]
    rw [hflat, List.filterMap_map]
    rfl

/-! ### Rounds that can be computed -/

instance (effectful : Invocation → Bool) (batch : Batch) :
    Decidable (Isolated effectful batch) :=
  inferInstanceAs (Decidable (∀ inv ∈ _, _ → _))

instance (effectful : Invocation → Bool) (cfg : TurnConfig) (calls passed : List ToolCall)
    (batches : List Batch) : Decidable (EffectsInOrder effectful cfg calls passed batches) :=
  decidable_of_iff
    ((deduplicateToolCalls cfg.lib calls).filter (hasEffect effectful cfg) =
        calls.filter (hasEffect effectful cfg) ∧ passed.Sublist calls ∧
      (batches.flatten.filterMap id).filter effectful =
        (passed.filterMap (performed cfg)).filter effectful ∧
      ∀ batch ∈ batches, Isolated effectful batch)
    ⟨fun h => ⟨h.1, h.2.1, h.2.2.1, h.2.2.2⟩,
      fun h => ⟨h.kept, h.ordered, h.started, h.isolated⟩⟩

/-- **Effects that are lost and that run at once.** Of two identical claims of a task one is
dropped; a write to the memory and one through an alias to a file run beside each other. -/
theorem effects_out_of_order :
    (let cfg := scriptedTurn ["task_claim"] "Claim two tasks" 5
    let response := callReply
      [⟨"c1", "task_claim", .obj []⟩, ⟨"c2", "task_claim", .obj []⟩]
    let st := startTurn cfg [] (({ replies := [] } : Script), ([] : List Batch))
    ¬EffectsInOrder changesState cfg response.toolCalls
      (approved (recording scriptedWorld) cfg response st)
      (batchesRun scriptedWorld cfg 0 response st)) ∧
    (let cfg := scriptedTurn ["memory_store", "file_write"] "Note it" 5
    let response := callReply
      [⟨"c1", "memory_store", .obj [("key", .str "k"), ("value", .str "v")]⟩,
        ⟨"c2", "fs-write", .obj [("path", .str "a.txt"), ("content", .str "v")]⟩]
    let st := startTurn cfg [] (({ replies := [] } : Script), ([] : List Batch))
    ¬EffectsInOrder changesState cfg response.toolCalls
      (approved (recording scriptedWorld) cfg response st)
      (batchesRun scriptedWorld cfg 0 response st)) := by
  decide +kernel

end ArmaraOS.Agent
