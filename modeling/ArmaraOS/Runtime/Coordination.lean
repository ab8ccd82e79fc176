import ArmaraOS.Agent.Replies
import ArmaraOS.Kernel.WorkflowVariables
import ArmaraOS.Lib.Trace
import ArmaraOS.Lib.Waves

/-!
Tasks of several agents that depend on one another (`agent_coordinate` in
`openfang-runtime/src/tool_runner.rs`).

A wave sends all tasks at once whose dependencies have an output, and waits for all of them. The
orchestration context that goes with a message is not part of the model.
-/

namespace ArmaraOS.Runtime

open ArmaraOS.Agent ArmaraOS.Kernel ArmaraOS.Lib ArmaraOS.Text

/-! ### Tasks -/

/-- `Node`. -/
structure Node where
  id : String
  agent : String
  prompt : String
  deps : List String
deriving DecidableEq

/-- A task as it is read. -/
def readTask (t : Json) : Except String Node :=
  match (t.field "id").asStr with
  | none => .error "task missing id"
  | some id =>
      match (t.field "agent").asStr with
      | none => .error "task missing agent"
      | some agent =>
          match (t.field "prompt").asStr with
          | none => .error "task missing prompt"
          | some prompt =>
              .ok ⟨id, agent, prompt,
                ((asArray (t.field "depends_on")).getD []).filterMap Json.asStr⟩

/-- The tasks as they are read. -/
def readTasks (input : Json) : Except String (List Node) :=
  match asArray (input.field "tasks") with
  | none => .error "Missing 'tasks'"
  | some [] => .error "tasks array is empty"
  | some tasks => tasks.mapM readTask

/-! ### Waves -/

/-- What a message comes back with in the time of a task. -/
inductive TaskReply where
  | text (text : String)
  | failed (e : String)
  | timedOut

/-- A message that was sent for a task. -/
structure TaskMessage where
  node : Node
  prompt : String

/-- What the messages come back with, by their number, and the order in which a map is gone
through. -/
structure Agents where
  reply : Nat → TaskReply
  mapOrder : List (String × String) → List (String × String)
  mapOrder_perm : ∀ outputs, (mapOrder outputs).Perm outputs

/-- The variables of the loop, and the messages that were sent. -/
structure Progress where
  pending : List String
  outputs : List (String × String)
  results : List (String × String)
  waves : List (List TaskMessage)

/-- The ids of the tasks that were sent. -/
def sentIds (waves : List (List TaskMessage)) : List String := waves.flatten.map (·.node.id)

/-- `outputs.insert`. -/
def setOutput (outputs : List (String × String)) (result : String × String) :
    List (String × String) :=
  result :: outputs.filter fun output => output.1 != result.1

/-- The outputs put into a prompt. -/
def fillPrompt (a : Agents) (outputs : List (String × String)) (prompt : String) : String :=
  (a.mapOrder outputs).foldl (fun text (k, v) => replace text (placeholder k) v) prompt

/-- The tasks that are pending and have all that they depend on. -/
def ready (nodes : List Node) (p : Progress) : List Node :=
  nodes.filter fun n =>
    p.pending.contains n.id && n.deps.all fun d => (p.outputs.map Prod.fst).contains d

/-- The messages of a wave. -/
def wave (a : Agents) (nodes : List Node) (p : Progress) : List TaskMessage :=
  (ready nodes p).map fun n => ⟨n, fillPrompt a p.outputs n.prompt⟩

/-- A wave on its way. -/
def sendWave (a : Agents) (nodes : List Node) (p : Progress) : Progress :=
  { p with
    pending := p.pending.filter fun k => !((ready nodes p).map Node.id).contains k
    waves := p.waves ++ [wave a nodes p] }

/-- The replies of a wave taken up; `number` is that of its first message. -/
def collect (a : Agents) (timeoutPerTask : Nat) :
    Nat → List TaskMessage → Progress → Except String Progress
  | _, [], p => .ok p
  | number, m :: rest, p =>
      match a.reply number with
      | .text text =>
          collect a timeoutPerTask (number + 1) rest
            { p with
              outputs := setOutput p.outputs (m.node.id, text)
              results := p.results ++ [(m.node.id, text)] }
      | .failed e => .error ("Task " ++ m.node.id ++ " failed: " ++ e)
      | .timedOut =>
          .error ("Task " ++ m.node.id ++ " timed out after " ++ toString timeoutPerTask ++ "s")

/-- What the tool ends with, and what it sent. -/
structure Coordinated where
  outcome : Except String (List (String × String))
  waves : List (List TaskMessage)

/-- A turn of the loop. -/
def coordinateTurn (a : Agents) (timeoutPerTask : Nat) (nodes : List Node) (p : Progress) :
    Lib.Turn Progress Coordinated :=
  if p.pending.isEmpty then .exit ⟨.ok p.results, p.waves⟩
  else if (ready nodes p).isEmpty then
    .exit ⟨.error "Coordinate: cyclic dependency or missing task id", p.waves⟩
  else
    match collect a timeoutPerTask p.waves.flatten.length (wave a nodes p) (sendWave a nodes p) with
    | .error e => .exit ⟨.error e, (sendWave a nodes p).waves⟩
    | .ok p' => .next p'

section Collect

variable {a : Agents} {timeoutPerTask : Nat}

/-- Results that answer messages: they carry their ids and the texts of the replies. -/
structure Answers (a : Agents) (number : Nat) (ids : List String)
    (results : List (String × String)) : Prop where
  ids : results.map Prod.fst = ids
  texts : ∀ (i : Nat) r, results[i]? = some r → a.reply (number + i) = .text r.2

/-- What a wave does that is taken up. -/
theorem collect_ok {number : Nat} {messages : List TaskMessage} {p p' : Progress}
    (h : collect a timeoutPerTask number messages p = .ok p') :
    ∃ results, Answers a number (messages.map (·.node.id)) results ∧
      p' = { p with
        outputs := results.foldl setOutput p.outputs
        results := p.results ++ results } := by
  induction messages generalizing number p with
  | nil =>
      cases h
      exact ⟨[], ⟨rfl, fun _ _ hr => by simp at hr⟩, by simp⟩
  | cons m rest ih =>
      rw [collect] at h
      cases hreply : a.reply number with
      | text text =>
          rw [hreply] at h
          obtain ⟨results, ⟨hids, htexts⟩, rfl⟩ := ih h
          refine ⟨(m.node.id, text) :: results, ⟨by simp [hids], fun i r hr => ?_⟩, by simp⟩
          cases i with
          | zero =>
              obtain rfl := Option.some.inj hr
              exact hreply
          | succ i =>
              rw [Nat.add_comm i 1, ← Nat.add_assoc]
              exact htexts i r hr
      | failed e =>
          rw [hreply] at h
          cases h
      | timedOut =>
          rw [hreply] at h
          cases h

/-- A wave that is not taken up has a message that was not answered. -/
theorem collect_error {number : Nat} {messages : List TaskMessage} {p : Progress} {e : String}
    (h : collect a timeoutPerTask number messages p = .error e) :
    ∃ i < messages.length, ∀ text, a.reply (number + i) ≠ .text text := by
  induction messages generalizing number p with
  | nil => cases h
  | cons m rest ih =>
      rw [collect] at h
      cases hreply : a.reply number with
      | text text =>
          rw [hreply] at h
          obtain ⟨i, hi, hno⟩ := ih h
          refine ⟨i + 1, Nat.succ_lt_succ hi, ?_⟩
          rwa [Nat.add_comm i 1, ← Nat.add_assoc]
      | failed e => exact ⟨0, Nat.succ_pos _, fun text htext => by simp [hreply] at htext⟩
      | timedOut => exact ⟨0, Nat.succ_pos _, fun text htext => by simp [hreply] at htext⟩

end Collect

section Ready

variable {a : Agents} {nodes : List Node} {p : Progress}

theorem mem_ready {n : Node} :
    n ∈ ready nodes p ↔
      n ∈ nodes ∧ n.id ∈ p.pending ∧ ∀ d ∈ n.deps, d ∈ p.outputs.map Prod.fst := by
  rw [ready, List.mem_filter, Bool.and_eq_true, List.contains_iff_mem, List.all_eq_true]
  simp only [List.contains_iff_mem]

theorem mem_pending_sendWave {k : String} :
    k ∈ (sendWave a nodes p).pending ↔ k ∈ p.pending ∧ k ∉ (ready nodes p).map Node.id := by
  rw [sendWave, List.mem_filter, Bool.not_eq_true', ← Bool.not_eq_true, List.contains_iff_mem]

theorem map_id_wave : (wave a nodes p).map (·.node.id) = (ready nodes p).map Node.id := by
  rw [wave, List.map_map]
  rfl

theorem map_node_wave : (wave a nodes p).map TaskMessage.node = ready nodes p := by
  rw [wave, List.map_map]
  exact List.map_id _

end Ready

/-- The loop; each turn that goes on takes a pending task out. -/
def coordinateLoop (a : Agents) (timeoutPerTask : Nat) (nodes : List Node) :
    Loop Progress Coordinated where
  body := coordinateTurn a timeoutPerTask nodes
  rank p := p.pending.length
  descends p p' h := by
    unfold coordinateTurn at h
    split at h
    · cases h
    split at h
    · cases h
    rename_i hready
    split at h
    · cases h
    · rename_i hcollect
      cases h
      obtain ⟨_, -, rfl⟩ := collect_ok hcollect
      obtain ⟨n, hn⟩ := List.exists_mem_of_ne_nil _ (mt List.isEmpty_iff.mpr hready)
      refine List.length_filter_lt_length_iff_exists.mpr ⟨n.id, (mem_ready.mp hn).2.1, ?_⟩
      simpa using ⟨n, hn, rfl⟩

/-- The tasks done. -/
def coordinate (a : Agents) (timeoutPerTask : Nat) (nodes : List Node) : Coordinated :=
  (coordinateLoop a timeoutPerTask nodes).run ⟨nodes.map Node.id, [], [], []⟩

/-- `tool_agent_coordinate`, and what it sent. -/
def toolAgentCoordinate (kernel : Option Agents) (input : Json) :
    Except String Json × List (List TaskMessage) :=
  match kernel with
  | none =>
      (.error "Kernel handle not available. Inter-agent tools require a running kernel.", [])
  | some a =>
      match readTasks input with
      | .error e => (.error e, [])
      | .ok nodes =>
          let run := coordinate a (((input.field "timeout_per_task").asU64).getD 300) nodes
          (run.outcome.map fun results =>
            .obj [("results", .arr (results.map fun (id, text) =>
              .obj [("id", .str id), ("output", .str text)]))], run.waves)

/-! ### What is sent, and when -/

section Sends

variable (a : Agents) (nodes : List Node)

/-- A wave that is in order after the waves before it: its messages are for tasks of the list that
were not sent before, all that they depend on was sent and answered with a text, and their prompts
are those of the tasks with the placeholders of all outputs replaced at once, where no output
completes one. -/
structure WaveAllowed (pre : List (List TaskMessage)) (wave : List TaskMessage) : Prop where
  tasks : (wave.map TaskMessage.node).Sublist nodes
  fresh : ∀ m ∈ wave, m.node.id ∉ sentIds pre
  needs : ∀ m ∈ wave, ∀ d ∈ m.node.deps, d ∈ sentIds pre
  prompts : ∃ results, Answers a 0 (sentIds pre) results ∧ ∀ m ∈ wave,
    NoPlaceholderArises [] (results.foldl setOutput []) m.node.prompt →
      m.prompt = expandAtOnce (results.foldl setOutput []) m.node.prompt

/-- What the turns keep. -/
structure InProgress (p : Progress) : Prop where
  pending : ∀ k, k ∈ p.pending ↔ k ∈ nodes.map Node.id ∧ k ∉ sentIds p.waves
  answers : Answers a 0 (sentIds p.waves) p.results
  outputs : p.outputs = p.results.foldl setOutput []
  lawful : Lawful (WaveAllowed a nodes) p.waves

/-- How the tool ends. -/
inductive Ended : Coordinated → Prop where
  | done {results waves} (hanswers : Answers a 0 (sentIds waves) results)
      (hall : ∀ n ∈ nodes, n.id ∈ sentIds waves) : Ended ⟨.ok results, waves⟩
  | stuck {e waves} {n : Node} (hn : n ∈ nodes)
      (hno : ¬ Obtainable Node.id Node.deps nodes n.id) : Ended ⟨.error e, waves⟩
  | unanswered {e waves} {i : Nat} (hi : i < waves.flatten.length)
      (hno : ∀ text, a.reply i ≠ .text text) : Ended ⟨.error e, waves⟩

variable {a nodes}

@[simp] theorem sentIds_snoc (waves : List (List TaskMessage)) (wave : List TaskMessage) :
    sentIds (waves ++ [wave]) = sentIds waves ++ wave.map (·.node.id) := by
  simp [sentIds]

@[simp] theorem length_sentIds (waves : List (List TaskMessage)) :
    (sentIds waves).length = waves.flatten.length := List.length_map _

theorem Answers.length {number : Nat} {ids : List String} {results : List (String × String)}
    (h : Answers a number ids results) : results.length = ids.length := by
  rw [← h.ids, List.length_map]

theorem Answers.append {ids ids' : List String} {results results' : List (String × String)}
    (h : Answers a 0 ids results) (h' : Answers a ids.length ids' results') :
    Answers a 0 (ids ++ ids') (results ++ results') := by
  refine ⟨by rw [List.map_append, h.ids, h'.ids], fun i r hr => ?_⟩
  rcases Nat.lt_or_ge i results.length with hlt | hge
  · rw [List.getElem?_append_left hlt] at hr
    exact h.texts i r hr
  · rw [List.getElem?_append_right hge] at hr
    have htext := h'.texts _ r hr
    rwa [← h.length, Nat.add_sub_cancel' hge, ← Nat.zero_add i] at htext

/-- Outputs have the ids of the results they come from, each once. -/
theorem mem_keys_outputs {results : List (String × String)} {k : String} :
    k ∈ (results.foldl setOutput []).map Prod.fst ↔ k ∈ results.map Prod.fst := by
  induction results using List.reverseRecOn with
  | nil => simp
  | append_singleton results r ih =>
      rw [List.foldl_append, List.foldl_cons, List.foldl_nil, setOutput, List.map_cons,
        List.map_append, List.mem_append, ← ih]
      by_cases hk : k = r.1
      · simp [hk]
      · simp [hk]

theorem nodup_keys_outputs (results : List (String × String)) :
    ((results.foldl setOutput []).map Prod.fst).Nodup := by
  induction results using List.reverseRecOn with
  | nil => simp
  | append_singleton results r ih =>
      rw [List.foldl_append, List.foldl_cons, List.foldl_nil, setOutput, List.map_cons,
        List.nodup_cons]
      refine ⟨fun hmem => ?_, ih.sublist (List.filter_sublist.map _)⟩
      obtain ⟨output, houtput, heq⟩ := List.mem_map.mp hmem
      have hne := (List.mem_filter.mp houtput).2
      simp [heq] at hne

theorem fillPrompt_eq {outputs : List (String × String)} {prompt : String}
    (hkeys : (outputs.map Prod.fst).Nodup) (h : NoPlaceholderArises [] outputs prompt) :
    fillPrompt a outputs prompt = expandAtOnce outputs prompt :=
  foldl_replace_eq_expandAtOnce hkeys (a.mapOrder_perm outputs) h

theorem InProgress.start : InProgress a nodes ⟨nodes.map Node.id, [], [], []⟩ where
  pending k := by simp [sentIds]
  answers := ⟨rfl, fun _ _ hr => by simp at hr⟩
  outputs := rfl
  lawful := lawful_nil

/-- The wave of a turn is in order. -/
theorem InProgress.allowed {p : Progress} (h : InProgress a nodes p) :
    WaveAllowed a nodes p.waves (wave a nodes p) := by
  have hready : ∀ m ∈ wave a nodes p, m.node ∈ ready nodes p := by
    intro m hm
    rw [← map_node_wave (a := a)]
    exact List.mem_map_of_mem hm
  refine ⟨?_, fun m hm => ?_, fun m hm d hd => ?_, p.results, h.answers, fun m hm hno => ?_⟩
  · rw [map_node_wave]
    exact List.filter_sublist
  · exact ((h.pending _).mp (mem_ready.mp (hready m hm)).2.1).2
  · have hmem := (mem_ready.mp (hready m hm)).2.2 d hd
    rwa [h.outputs, mem_keys_outputs, h.answers.ids] at hmem
  · obtain ⟨n, -, rfl⟩ := List.mem_map.mp hm
    rw [← h.outputs] at hno ⊢
    exact fillPrompt_eq (h.outputs ▸ nodup_keys_outputs _) hno

theorem InProgress.lawful_sendWave {p : Progress} (h : InProgress a nodes p) :
    Lawful (WaveAllowed a nodes) (sendWave a nodes p).waves := h.lawful.snoc h.allowed

/-- **Step.** A wave that is taken up. -/
theorem InProgress.next {timeoutPerTask : Nat} {p p' : Progress} (h : InProgress a nodes p)
    (hcollect : collect a timeoutPerTask p.waves.flatten.length (wave a nodes p)
      (sendWave a nodes p) = .ok p') : InProgress a nodes p' := by
  obtain ⟨results, hanswers, rfl⟩ := collect_ok hcollect
  refine ⟨fun k => ?_, ?_, ?_, h.lawful_sendWave⟩
  · change k ∈ (sendWave a nodes p).pending ↔ _ ∧ k ∉ sentIds (p.waves ++ [wave a nodes p])
    rw [mem_pending_sendWave, h.pending, sentIds_snoc, map_id_wave, List.mem_append, not_or,
      and_assoc]
  · change Answers a 0 (sentIds (p.waves ++ [wave a nodes p])) (p.results ++ results)
    rw [sentIds_snoc]
    rw [← length_sentIds] at hanswers
    exact h.answers.append hanswers
  · change results.foldl setOutput p.outputs = (p.results ++ results).foldl setOutput []
    rw [List.foldl_append, h.outputs]

/-- **Step.** A turn that leaves the loop. -/
theorem InProgress.exit {timeoutPerTask : Nat} {p : Progress} {r : Coordinated}
    (h : InProgress a nodes p) (hturn : coordinateTurn a timeoutPerTask nodes p = .exit r) :
    Lawful (WaveAllowed a nodes) r.waves ∧ Ended a nodes r := by
  unfold coordinateTurn at hturn
  split at hturn
  · rename_i hnone
    cases hturn
    refine ⟨h.lawful, .done h.answers fun n hn => ?_⟩
    by_contra hopen
    have hmem := (h.pending n.id).mpr ⟨List.mem_map_of_mem hn, hopen⟩
    rw [List.isEmpty_iff.mp hnone] at hmem
    cases hmem
  split at hturn
  · rename_i hsome hready
    cases hturn
    obtain ⟨k, hk⟩ := List.exists_mem_of_ne_nil _ (mt List.isEmpty_iff.mpr hsome)
    obtain ⟨n, hn, rfl⟩ := List.mem_map.mp ((h.pending k).mp hk).1
    refine ⟨h.lawful, .stuck hn fun hobtainable => ?_⟩
    have hall : ∀ m ∈ nodes, m.id ∈ p.pending ∨ m.id ∈ p.outputs.map Prod.fst := by
      intro m hm
      rw [h.pending, h.outputs, mem_keys_outputs, h.answers.ids]
      by_cases hsent : m.id ∈ sentIds p.waves
      · exact .inr hsent
      · exact .inl ⟨List.mem_map_of_mem hm, hsent⟩
    obtain ⟨m, hm, hopen, hneeds⟩ := exists_ready hall hobtainable hk
    have hmem := mem_ready.mpr ⟨hm, hopen, hneeds⟩
    rw [List.isEmpty_iff.mp hready] at hmem
    cases hmem
  split at hturn
  · rename_i hcollect
    cases hturn
    obtain ⟨i, hi, hno⟩ := collect_error hcollect
    refine ⟨h.lawful_sendWave, .unanswered (i := p.waves.flatten.length + i) ?_ hno⟩
    change _ < (p.waves ++ [wave a nodes p]).flatten.length
    rw [List.flatten_append, List.length_append, List.flatten_singleton]
    exact Nat.add_lt_add_left hi _
  · cases hturn

/-- **Run.** -/
theorem coordinate_spec (timeoutPerTask : Nat) :
    Lawful (WaveAllowed a nodes) (coordinate a timeoutPerTask nodes).waves ∧
      Ended a nodes (coordinate a timeoutPerTask nodes) := by
  refine Loop.run_of_invariant (InProgress a nodes)
    (fun r => Lawful (WaveAllowed a nodes) r.waves ∧ Ended a nodes r) ?_ ?_ .start
  · intro p p' h hturn
    change coordinateTurn a timeoutPerTask nodes p = _ at hturn
    unfold coordinateTurn at hturn
    split at hturn
    · cases hturn
    split at hturn
    · cases hturn
    split at hturn
    · cases hturn
    · rename_i hcollect
      cases hturn
      exact h.next hcollect
  · intro p r h hturn
    exact h.exit hturn

variable {waves : List (List TaskMessage)}

/-- All that was sent can be had. -/
theorem obtainable_of_sent (h : Lawful (WaveAllowed a nodes) waves) :
    ∀ k ∈ sentIds waves, Obtainable Node.id Node.deps nodes k := by
  induction waves using List.reverseRecOn with
  | nil => simp [sentIds]
  | append_singleton waves wave ih =>
      obtain ⟨hwaves, hwave⟩ := h.of_snoc
      intro k hk
      rw [sentIds_snoc, List.mem_append] at hk
      rcases hk with hk | hk
      · exact ih hwaves k hk
      · obtain ⟨m, hm, rfl⟩ := List.mem_map.mp hk
        refine .of (hwave.tasks.subset (List.mem_map_of_mem hm)) fun d hd => ?_
        exact ih hwaves d (hwave.needs m hm d hd)

/-- Tasks with distinct ids are sent at most once each. -/
theorem nodup_sent (hids : (nodes.map Node.id).Nodup) (h : Lawful (WaveAllowed a nodes) waves) :
    (sentIds waves).Nodup ∧ waves.flatten.map TaskMessage.node ⊆ nodes := by
  induction waves using List.reverseRecOn with
  | nil => simp [sentIds]
  | append_singleton waves wave ih =>
      obtain ⟨hwaves, hwave⟩ := h.of_snoc
      obtain ⟨hnodup, hsub⟩ := ih hwaves
      have hids' : (wave.map (·.node.id)).Nodup := by
        have hsublist := hwave.tasks.map Node.id
        rw [List.map_map] at hsublist
        exact hids.sublist hsublist
      constructor
      · rw [sentIds_snoc]
        refine List.nodup_append.mpr ⟨hnodup, hids', ?_⟩
        rintro k hk _ hk' rfl
        obtain ⟨m, hm, rfl⟩ := List.mem_map.mp hk'
        exact hwave.fresh m hm hk
      · rw [List.flatten_append, List.map_append, List.flatten_singleton]
        exact List.append_subset.mpr ⟨hsub, hwave.tasks.subset⟩

/-- When all ids were sent and the ids are distinct, the tasks are sent once each. -/
theorem perm_of_sent (hids : (nodes.map Node.id).Nodup)
    (h : Lawful (WaveAllowed a nodes) waves) (hall : ∀ n ∈ nodes, n.id ∈ sentIds waves) :
    (waves.flatten.map TaskMessage.node).Perm nodes := by
  obtain ⟨hnodup, hsub⟩ := nodup_sent hids h
  have hnodup' : (waves.flatten.map TaskMessage.node).Nodup := by
    refine List.Nodup.of_map Node.id ?_
    rwa [List.map_map]
  refine (List.perm_ext_iff_of_nodup hnodup' hids.of_map).mpr fun n => ⟨fun hn => hsub hn, ?_⟩
  intro hn
  obtain ⟨m, hm, hid⟩ := List.mem_map.mp (hall n hn)
  have hmem := List.mem_map_of_mem (f := TaskMessage.node) hm
  rwa [← List.inj_on_of_nodup_map hids (hsub hmem) hn hid]

/-- **Dependency order.** Whatever the agents reply, every wave is in order. With a result, every
id was sent, and the results are the replies in the order of the messages; tasks with distinct ids
were then sent exactly once each. -/
theorem coordinate_sends (a : Agents) (timeoutPerTask : Nat) (nodes : List Node) :
    Lawful (WaveAllowed a nodes) (coordinate a timeoutPerTask nodes).waves ∧
      ∀ results, (coordinate a timeoutPerTask nodes).outcome = .ok results →
        Answers a 0 (sentIds (coordinate a timeoutPerTask nodes).waves) results ∧
          (∀ n ∈ nodes, n.id ∈ sentIds (coordinate a timeoutPerTask nodes).waves) ∧
          ((nodes.map Node.id).Nodup →
            ((coordinate a timeoutPerTask nodes).waves.flatten.map TaskMessage.node).Perm
              nodes) := by
  obtain ⟨hlawful, hended⟩ := @coordinate_spec a nodes timeoutPerTask
  refine ⟨hlawful, fun results hok => ?_⟩
  generalize coordinate a timeoutPerTask nodes = run at hlawful hended hok ⊢
  cases hended with
  | done hanswers hall =>
      cases hok
      exact ⟨hanswers, hall, fun hids => perm_of_sent hids hlawful hall⟩
  | stuck => cases hok
  | unanswered => cases hok

/-- There is a result exactly if all tasks can be done and all messages are answered. -/
theorem coordinate_ok_iff (a : Agents) (timeoutPerTask : Nat) (nodes : List Node) :
    (∃ results, (coordinate a timeoutPerTask nodes).outcome = .ok results) ↔
      (∀ n ∈ nodes, Obtainable Node.id Node.deps nodes n.id) ∧
        ∀ i < (coordinate a timeoutPerTask nodes).waves.flatten.length,
          ∃ text, a.reply i = .text text := by
  obtain ⟨hlawful, hended⟩ := @coordinate_spec a nodes timeoutPerTask
  generalize coordinate a timeoutPerTask nodes = run at hlawful hended ⊢
  cases hended with
  | @done results waves hanswers hall =>
      refine iff_of_true ⟨results, rfl⟩ ⟨fun n hn => obtainable_of_sent hlawful _ (hall n hn), ?_⟩
      intro i hi
      have hi' : i < results.length := by rwa [hanswers.length, length_sentIds]
      have htext := hanswers.texts i _ (List.getElem?_eq_getElem hi')
      rw [Nat.zero_add] at htext
      exact ⟨_, htext⟩
  | stuck hn hno =>
      exact iff_of_false (fun ⟨_, hok⟩ => by cases hok) fun h => hno (h.1 _ hn)
  | unanswered hi hno =>
      refine iff_of_false (fun ⟨_, hok⟩ => by cases hok) fun h => ?_
      obtain ⟨text, htext⟩ := h.2 _ hi
      exact hno text htext

/-- **The tool ends with a result**, for tasks with distinct ids, exactly if every dependency is
the id of a task, no task depends on itself on the way, and all messages that are sent are answered
with a text. -/
theorem toolAgentCoordinate_ok_iff {input : Json} (hread : readTasks input = .ok nodes)
    (hids : (nodes.map Node.id).Nodup) :
    (∃ result, (toolAgentCoordinate (some a) input).1 = .ok result) ↔
      ((∀ n ∈ nodes, ∀ d ∈ n.deps, d ∈ nodes.map Node.id) ∧
          Acyclic (Needs Node.id Node.deps nodes)) ∧
        ∀ i < (toolAgentCoordinate (some a) input).2.flatten.length,
          ∃ text, a.reply i = .text text := by
  rw [← forall_obtainable_iff hids, toolAgentCoordinate, hread]
  dsimp only
  rw [← coordinate_ok_iff]
  cases (coordinate a (((input.field "timeout_per_task").asU64).getD 300) nodes).outcome with
  | ok results => exact ⟨fun _ => ⟨results, rfl⟩, fun _ => ⟨_, rfl⟩⟩
  | error e => exact iff_of_false (fun ⟨_, h⟩ => by cases h) fun ⟨_, h⟩ => by cases h

/-- Two tasks that wait for each other. -/
def waitingTasks : Json :=
  .obj [("tasks", .arr [
    .obj [("id", .str "a"), ("agent", .str "x"), ("prompt", .str ""),
      ("depends_on", .arr [.str "b"])],
    .obj [("id", .str "b"), ("agent", .str "x"), ("prompt", .str ""),
      ("depends_on", .arr [.str "a"])]])]

theorem toolAgentCoordinate_ok_iff_waitingTasks :
    ¬ ∃ result, (toolAgentCoordinate (some ⟨fun _ => .text "done", id, fun _ => .rfl⟩)
      waitingTasks).1 = .ok result := by
  intro hresult
  have hread : readTasks waitingTasks = .ok [⟨"a", "x", "", ["b"]⟩, ⟨"b", "x", "", ["a"]⟩] := by
    decide
  obtain ⟨⟨-, hacyclic⟩, -⟩ := (toolAgentCoordinate_ok_iff hread (by decide)).mp hresult
  refine hacyclic "a" (.tail (.single ⟨⟨"a", "x", "", ["b"]⟩, ?_, rfl, ?_⟩)
    ⟨⟨"b", "x", "", ["a"]⟩, ?_, rfl, ?_⟩)
  all_goals simp

end Sends

end ArmaraOS.Runtime
