import ArmaraOS.Kernel.Workflow
import ArmaraOS.Lib.StableSort

/-!
What `create_run` keeps of the stored runs.

The new run is stored first; then the completed and failed runs that are too old leave, and after
them the oldest completed and failed runs beyond the cap. A run that is still pending or running
never leaves, so the cap can be exceeded by such runs alone (`createRun_retained`). The order in
which the `HashMap` of the runs is read is a parameter.
-/

namespace ArmaraOS.Kernel

open ArmaraOS.Lib

/-- `WorkflowRetentionLimits`. -/
structure WorkflowRetentionLimits where
  maxRetainedRuns : Nat
  runTtlSecs : Option UInt64

/-- `matches!(state, Completed | Failed)`. -/
def WorkflowRunState.isTerminal : WorkflowRunState → Bool
  | .completed | .failed => true
  | .pending | .running => false

/-! ### `create_run` -/

/-- `ChronoDuration::seconds` in nanoseconds; `none` where it panics. -/
def durationSeconds (secs : Int) : Option Int :=
  if secs.natAbs ≤ 9223372036854775 then some (secs * 1000000000) else none

/-- The test of `runs.retain`; `none` where it panics. -/
def withinTtl (ttlSecs : UInt64) (now : Int) (run : WorkflowRun) : Option Bool :=
  if run.state.isTerminal then
    let age := now - run.completedAt.getD run.startedAt
    (durationSeconds ttlSecs.toInt64.toInt).map fun ttl => !decide (ttl < age)
  else some true

/-- The runs without those that are too old; `none` where a test panics. -/
def evictExpired (retention : WorkflowRetentionLimits) (now : Int) (runs : Table WorkflowRun.id) :
    Option (Table WorkflowRun.id) :=
  match retention.runTtlSecs with
  | none => some runs
  | some ttlSecs =>
      if runs.entries.any fun run => (withinTtl ttlSecs now run).isNone then none
      else some (runs.filter fun run => withinTtl ttlSecs now run == some true)

section Order

variable (runOrder : List WorkflowRun → List WorkflowRun)

/-- `evictable`, before it is sorted. -/
def evictable (runs : Table WorkflowRun.id) : List (Nat × Int) :=
  ((runOrder runs.entries).filter fun run => run.state.isTerminal).map
    fun run => (run.id, run.startedAt)

/-- The ids that the cap evicts. -/
def beyondCap (maxRetainedRuns : Nat) (runs : Table WorkflowRun.id) : List Nat :=
  let sorted := (evictable runOrder runs).mergeSort fun a b => decide (a.2 ≤ b.2)
  (sorted.take (runs.size - maxRetainedRuns)).map Prod.fst

/-- The runs without the oldest completed and failed ones beyond the cap. -/
def evictOldest (maxRetainedRuns : Nat) (runs : Table WorkflowRun.id) : Table WorkflowRun.id :=
  if maxRetainedRuns < runs.size then runs.eraseAll (beyondCap runOrder maxRetainedRuns runs)
  else runs

/-- The run that `create_run` stores. -/
def pendingRun (workflow : Workflow) (input : String) (runId : Nat) (startedAt : Int) :
    WorkflowRun where
  id := runId
  workflowId := workflow.id
  workflowName := workflow.name
  input := input
  state := .pending
  stepResults := []
  output := none
  error := none
  startedAt := startedAt
  completedAt := none

/-- `create_run` with the id it draws and the two times it reads; `none` where it panics. -/
def createRun (engine : WorkflowEngine) (workflowId : Nat) (input : String)
    (retention : WorkflowRetentionLimits) (runId : Nat) (startedAt now : Int) :
    Option (Option Nat × WorkflowEngine) :=
  match engine.workflows.find workflowId with
  | none => some (none, engine)
  | some workflow =>
      let runs := engine.runs.insert (pendingRun workflow input runId startedAt)
      (evictExpired retention now runs).map fun runs =>
        (some runId, { engine with runs := evictOldest runOrder retention.maxRetainedRuns runs })

end Order

/-! ### The runs that are too old -/

/-- No run that is pending or running is too old. -/
theorem evictExpired_keeps {retention : WorkflowRetentionLimits} {now : Int}
    {runs fresh : Table WorkflowRun.id} (h : evictExpired retention now runs = some fresh)
    {run : WorkflowRun} (hrun : run ∈ runs.entries) (hlive : run.state.isTerminal = false) :
    run ∈ fresh.entries := by
  unfold evictExpired at h
  cases httl : retention.runTtlSecs with
  | none =>
      rw [httl] at h
      obtain rfl := Option.some.inj h
      exact hrun
  | some ttlSecs =>
      simp only [httl] at h
      split at h
      · cases h
      · obtain rfl := Option.some.inj h
        exact Table.mem_filter.mpr ⟨hrun, by simp [withinTtl, hlive]⟩

/-! ### The runs beyond the cap -/

section Cap

variable {runOrder : List WorkflowRun → List WorkflowRun} {cap : Nat}
  {runs : Table WorkflowRun.id}

theorem mem_evictable (horder : ∀ runs, (runOrder runs).Perm runs) {entry : Nat × Int} :
    entry ∈ evictable runOrder runs ↔
      ∃ run ∈ runs.entries, run.state.isTerminal = true ∧ (run.id, run.startedAt) = entry := by
  simp only [evictable, List.mem_map, List.mem_filter, (horder runs.entries).mem_iff, and_assoc]

theorem length_evictable (horder : ∀ runs, (runOrder runs).Perm runs) :
    (evictable runOrder runs).length = runs.count fun run => run.state.isTerminal := by
  rw [evictable, List.length_map, ← List.countP_eq_length_filter]
  exact (horder runs.entries).countP_eq _

/-- The ids are of completed and failed runs, each of them once. -/
theorem nodup_evictable (horder : ∀ runs, (runOrder runs).Perm runs) :
    ((evictable runOrder runs).map Prod.fst).Nodup := by
  have hids : ((runOrder runs.entries).map WorkflowRun.id).Nodup :=
    ((horder runs.entries).map WorkflowRun.id).nodup_iff.mpr runs.distinct
  rw [evictable, List.map_map]
  exact hids.sublist (List.filter_sublist.map WorkflowRun.id)

theorem mem_beyondCap (horder : ∀ runs, (runOrder runs).Perm runs) {runId : Nat}
    (h : runId ∈ beyondCap runOrder cap runs) :
    ∃ run ∈ runs.entries, run.state.isTerminal = true ∧ run.id = runId := by
  obtain ⟨entry, hentry, rfl⟩ := List.mem_map.mp h
  have hmem := List.mem_mergeSort.mp (List.mem_of_mem_take hentry)
  obtain ⟨run, hrun, hterminal, rfl⟩ := (mem_evictable horder).mp hmem
  exact ⟨run, hrun, hterminal, rfl⟩

/-- As many runs leave as the cap asks for, or all that may. -/
theorem length_beyondCap (horder : ∀ runs, (runOrder runs).Perm runs) :
    (beyondCap runOrder cap runs).length =
      min (runs.size - cap) (runs.count fun run => run.state.isTerminal) := by
  rw [beyondCap, List.length_map, List.length_take, List.length_mergeSort,
    length_evictable horder]

theorem nodup_beyondCap (horder : ∀ runs, (runOrder runs).Perm runs) :
    (beyondCap runOrder cap runs).Nodup := by
  have hsorted := ((evictable runOrder runs).mergeSort_perm fun a b => decide (a.2 ≤ b.2))
  have hnodup := (hsorted.map Prod.fst).nodup_iff.mpr (nodup_evictable horder)
  exact hnodup.sublist ((List.take_sublist _ _).map Prod.fst)

/-- A run that the cap evicts started no later than a completed or failed one that it keeps. -/
theorem startedAt_le_of_beyondCap (horder : ∀ runs, (runOrder runs).Perm runs)
    {gone run : WorkflowRun} (hgone : gone ∈ runs.entries)
    (hout : gone.id ∈ beyondCap runOrder cap runs) (hrun : run ∈ runs.entries)
    (hkept : run.id ∉ beyondCap runOrder cap runs) (hterminal : run.state.isTerminal = true) :
    gone.startedAt ≤ run.startedAt := by
  obtain ⟨entry, hentry, hid⟩ := List.mem_map.mp hout
  have hmem := List.mem_mergeSort.mp (List.mem_of_mem_take hentry)
  obtain ⟨gone', hgone', -, rfl⟩ := (mem_evictable horder).mp hmem
  obtain rfl := Table.eq_of_key_eq hgone' hgone hid
  have hother : (run.id, run.startedAt) ∈ evictable runOrder runs :=
    (mem_evictable horder).mpr ⟨run, hrun, hterminal, rfl⟩
  have hle := le_of_mem_take_mergeSort (by simpa using fun _ _ _ => Int.le_trans)
    (by simpa using Int.le_total) hentry hother
    fun hin => hkept (List.mem_map_of_mem hin)
  exact of_decide_eq_true hle

/-- A run is kept unless its id is among those that the cap evicts. -/
theorem mem_evictOldest {run : WorkflowRun} :
    run ∈ (evictOldest runOrder cap runs).entries ↔
      run ∈ runs.entries ∧ (cap < runs.size → run.id ∉ beyondCap runOrder cap runs) := by
  unfold evictOldest
  split
  · rename_i hcap
    simp [hcap]
  · rename_i hcap
    simp [hcap]

theorem evictOldest_keeps (horder : ∀ runs, (runOrder runs).Perm runs) {run : WorkflowRun}
    (hrun : run ∈ runs.entries) (hlive : run.state.isTerminal = false) :
    run ∈ (evictOldest runOrder cap runs).entries := by
  refine mem_evictOldest.mpr ⟨hrun, fun _ hout => ?_⟩
  obtain ⟨run', hrun', hterminal, hid⟩ := mem_beyondCap horder hout
  rw [Table.eq_of_key_eq hrun' hrun hid, hlive] at hterminal
  cases hterminal

/-- What is left is within the cap, or no completed or failed run is left. -/
theorem size_evictOldest_le (horder : ∀ runs, (runOrder runs).Perm runs) :
    (evictOldest runOrder cap runs).size ≤
      max cap (runs.count fun run => !run.state.isTerminal) := by
  unfold evictOldest
  split
  · have htaken : ∀ runId ∈ beyondCap runOrder cap runs, ∃ run ∈ runs.entries, run.id = runId := by
      intro runId hout
      obtain ⟨run, hrun, -, hid⟩ := mem_beyondCap horder hout
      exact ⟨run, hrun, hid⟩
    have hsize := Table.size_eraseAll_add_length (nodup_beyondCap horder) htaken
    rw [length_beyondCap horder] at hsize
    have hkinds : runs.size = (runs.count fun run => run.state.isTerminal) +
        runs.count fun run => !run.state.isTerminal := by
      have hsplit := List.length_eq_countP_add_countP
        (fun run : WorkflowRun => run.state.isTerminal) (l := runs.entries)
      simp only [decide_not, Bool.decide_eq_true] at hsplit
      exact hsplit
    omega
  · omega

end Cap

/-! ### The stored runs after `create_run` -/

/-- What `create_run` has kept: `fresh` are the stored runs, the new one among them, that are not
too old, and `after` those that are left. -/
structure Retained (before : Table WorkflowRun.id) (new : WorkflowRun) (cap : Nat)
    (fresh after : Table WorkflowRun.id) : Prop where
  new_mem : new ∈ after.entries
  live_mem : ∀ run ∈ before.entries, run.state = .pending ∨ run.state = .running →
    run ∈ after.entries
  size_le : after.size ≤ max cap (after.count fun run => !run.state.isTerminal)
  oldest_first : ∀ gone ∈ fresh.entries, gone ∉ after.entries →
    ∀ run ∈ after.entries, run.state.isTerminal = true → gone.startedAt ≤ run.startedAt
  subset : ∀ run ∈ after.entries, run ∈ fresh.entries

/-- For all stored runs, all limits, every order of the map and an id that is new: `create_run`
keeps the new run and each pending or running one, leaves no more runs than the cap or the pending
and running ones, and evicts for the cap only what started no later than each completed or failed
run that is left. -/
theorem createRun_retained {runOrder : List WorkflowRun → List WorkflowRun}
    (horder : ∀ runs, (runOrder runs).Perm runs) {engine engine' : WorkflowEngine}
    {workflowId : Nat} {input : String} {retention : WorkflowRetentionLimits} {runId newId : Nat}
    {startedAt now : Int} (hnew : ∀ run ∈ engine.runs.entries, run.id ≠ runId)
    (h : createRun runOrder engine workflowId input retention runId startedAt now =
      some (some newId, engine')) :
    newId = runId ∧
      ∃ workflow fresh, engine.workflows.find workflowId = some workflow ∧
        evictExpired retention now
          (engine.runs.insert (pendingRun workflow input runId startedAt)) = some fresh ∧
        Retained engine.runs (pendingRun workflow input runId startedAt) retention.maxRetainedRuns
          fresh engine'.runs := by
  unfold createRun at h
  cases hworkflow : engine.workflows.find workflowId with
  | none => simp [hworkflow] at h
  | some workflow =>
      simp only [hworkflow, Option.map_eq_some_iff, Prod.mk.injEq, Option.some.injEq] at h
      obtain ⟨fresh, hfresh, rfl, rfl⟩ := h
      refine ⟨rfl, workflow, fresh, rfl, hfresh, ?_⟩
      have hlive : ∀ run ∈ (engine.runs.insert (pendingRun workflow input runId startedAt)).entries,
          run.state.isTerminal = false →
          run ∈ (evictOldest runOrder retention.maxRetainedRuns fresh).entries :=
        fun run hrun hlive => evictOldest_keeps horder (evictExpired_keeps hfresh hrun hlive) hlive
      constructor
      · exact hlive _ (Table.mem_insert.mpr (.inl rfl)) rfl
      · intro run hrun hstate
        refine hlive run (Table.mem_insert.mpr (.inr ⟨hrun, hnew run hrun⟩)) ?_
        rcases hstate with hstate | hstate <;> rw [hstate] <;> rfl
      · have hcount : (fresh.count fun run => !run.state.isTerminal) ≤
            (evictOldest runOrder retention.maxRetainedRuns fresh).count
              fun run => !run.state.isTerminal :=
          Table.count_le_count fun run hrun hlive =>
            evictOldest_keeps horder hrun (by simpa using hlive)
        have hsize : (evictOldest runOrder retention.maxRetainedRuns fresh).size ≤ _ :=
          size_evictOldest_le horder
        refine hsize.trans (Nat.max_le.mpr ⟨Nat.le_max_left _ _, ?_⟩)
        exact hcount.trans (Nat.le_max_right _ _)
      · intro gone hgone hout run hrun hterminal
        rw [mem_evictOldest] at hout hrun
        have hcap : retention.maxRetainedRuns < fresh.size := by
          by_contra hcap
          exact hout ⟨hgone, fun h => absurd h hcap⟩
        have hbeyond : gone.id ∈ beyondCap runOrder retention.maxRetainedRuns fresh := by
          by_contra hin
          exact hout ⟨hgone, fun _ => hin⟩
        exact startedAt_le_of_beyondCap horder hgone hbeyond hrun.1 (hrun.2 hcap) hterminal
      · exact fun run hrun => (mem_evictOldest.mp hrun).1

/-! ### An engine with three runs -/

/-- A stored run with an id, a state and a time. -/
def storedRun (id : Nat) (state : WorkflowRunState) (startedAt : Int) : WorkflowRun :=
  ⟨id, 1, "report", "", state, [], none, none, startedAt, none⟩

/-- An engine with a running, a failed and a completed run. -/
def busyEngine : WorkflowEngine where
  workflows := ⟨[⟨1, "report", []⟩], by decide⟩
  runs := ⟨[storedRun 1 .running 0, storedRun 2 .failed 10, storedRun 3 .completed 20], by decide⟩

theorem createRun_retained_busyEngine :
    ∃ fresh after : Table WorkflowRun.id, after.entries.map WorkflowRun.id = [4, 1, 3] ∧
      Retained busyEngine.runs (pendingRun ⟨1, "report", []⟩ "go" 4 30) 3 fresh after := by
  have hrun : createRun List.reverse busyEngine 1 "go" ⟨3, some 60⟩ 4 30 30 =
      some (some 4, ⟨busyEngine.workflows, evictOldest List.reverse 3
        (busyEngine.runs.insert (pendingRun ⟨1, "report", []⟩ "go" 4 30))⟩) := rfl
  obtain ⟨-, workflow, fresh, hfind, -, hretained⟩ :=
    createRun_retained List.reverse_perm (by decide) hrun
  obtain rfl : (⟨1, "report", []⟩ : Workflow) = workflow := Option.some.inj hfind
  refine ⟨fresh, _, ?_, hretained⟩
  simp [evictOldest, beyondCap, evictable, busyEngine, storedRun, pendingRun,
    WorkflowRunState.isTerminal, Table.insert, Table.erase, Table.filter, Table.eraseAll,
    Table.size, List.mergeSort]

end ArmaraOS.Kernel
