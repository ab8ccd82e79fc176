import ArmaraOS.Lib.Machine
import ArmaraOS.Lib.Table
import ArmaraOS.Types.Json

/-!
The task queue (`openfang-memory/src/substrate.rs`).

One statement is one step. A claim looks a task up in one statement and takes it in a later one,
so any number of statements of other calls may come between. `found` and `moves` are written for
the statements of this module: the row that a claim met when it took its task, and every change of
a status.
-/

namespace ArmaraOS.Memory

open ArmaraOS.Lib

/-! ### Rows and calls -/

/-- The texts of the column `status`. -/
inductive TaskStatus where
  | pending
  | inProgress
  | completed
deriving DecidableEq

/-- A row of `task_queue`. -/
structure QueuedTask where
  id : String
  title : String
  description : String
  assignedTo : String
  createdBy : String
  createdAt : String
  payload : Json
  priority : Int
  status : TaskStatus
  result : Option String
  completedAt : Option String

/-- `TaskClaimStrategy`. -/
inductive TaskClaimStrategy where
  | default
  | preferUnassigned
  | stickyOnly
deriving DecidableEq

/-- The JSON that a claim returns. -/
structure ClaimedTask where
  id : String
  title : String
  description : String
  status : TaskStatus
  assignedTo : String
  createdBy : String
  createdAt : String
  payload : Json

/-- Where a call of `task_claim` stands. -/
inductive ClaimPhase where
  /-- Before the query for the preferred trace. -/
  | sticky (traceId : String)
  /-- Before the query for the queue. -/
  | queue
  /-- Before `finish_claim`, with the row selected. -/
  | finish (row : QueuedTask)
  /-- Returned; `found` is the row that `finish_claim` met. -/
  | returned (found : Option QueuedTask) (result : Except String (Option ClaimedTask))

/-- A call of `task_claim`. -/
structure ClaimCall where
  number : Nat
  agentId : String
  strategy : TaskClaimStrategy
  phase : ClaimPhase

/-- The queue with the calls of `task_claim` that were begun. -/
structure TaskQueue where
  tasks : Table QueuedTask.id
  claims : Table ClaimCall.number
  moves : List (TaskStatus × TaskStatus)

/-- A queue without tasks and calls. -/
def TaskQueue.new : TaskQueue := ⟨.empty, .empty, []⟩

/-! ### The statements -/

/-- The first of some rows in an order; of equal rows the one that stands first. -/
def firstBy (before : QueuedTask → QueuedTask → Bool) : List QueuedTask → Option QueuedTask
  | [] => none
  | row :: rows =>
      match firstBy before rows with
      | none => some row
      | some other => if before other row then some other else some row

/-- `ORDER BY priority DESC, created_at ASC`. -/
def beforeByPriority (a b : QueuedTask) : Bool :=
  b.priority < a.priority || a.priority == b.priority && decide (a.createdAt < b.createdAt)

/-- `ORDER BY CASE WHEN assigned_to = '' THEN 0 ELSE 1 END, priority DESC, created_at ASC`. -/
def beforeUnassigned (a b : QueuedTask) : Bool :=
  a.assignedTo.isEmpty && !b.assignedTo.isEmpty ||
    a.assignedTo.isEmpty == b.assignedTo.isEmpty && beforeByPriority a b

/-- The order of a strategy. -/
def TaskClaimStrategy.before : TaskClaimStrategy → QueuedTask → QueuedTask → Bool
  | .preferUnassigned => beforeUnassigned
  | .default | .stickyOnly => beforeByPriority

/-- `WHERE status = 'pending' AND (assigned_to = ?1 OR assigned_to = '')`. -/
def isEligible (agentId : String) (row : QueuedTask) : Bool :=
  row.status == .pending && (row.assignedTo == agentId || row.assignedTo.isEmpty)

/-- `json_extract(CAST(payload AS TEXT), '$.orchestration.trace_id') = ?2`. -/
def hasTrace (traceId : String) (row : QueuedTask) : Bool :=
  ((row.payload.get "orchestration").bind (Json.get "trace_id")) == some (.str traceId)

/-- The query for the preferred trace. -/
def selectSticky (tasks : Table QueuedTask.id) (agentId traceId : String) : Option QueuedTask :=
  firstBy beforeByPriority
    (tasks.entries.reverse.filter fun row => isEligible agentId row && hasTrace traceId row)

/-- The query for the queue. -/
def selectQueue (tasks : Table QueuedTask.id) (agentId : String) (strategy : TaskClaimStrategy) :
    Option QueuedTask :=
  firstBy strategy.before (tasks.entries.reverse.filter (isEligible agentId))

/-- The row that `finish_claim` writes. -/
def QueuedTask.claimed (row : QueuedTask) (agentId : String) : QueuedTask :=
  { row with status := .inProgress, assignedTo := agentId }

/-- The row that `task_complete` writes. -/
def QueuedTask.done (row : QueuedTask) (result now : String) : QueuedTask :=
  { row with status := .completed, result := some result, completedAt := some now }

/-- The JSON of `finish_claim`. -/
def claimedTask (agentId : String) (row : QueuedTask) : ClaimedTask where
  id := row.id
  title := row.title
  description := row.description
  status := .inProgress
  assignedTo := if row.assignedTo.isEmpty then agentId else row.assignedTo
  createdBy := row.createdBy
  createdAt := row.createdAt
  payload := row.payload

/-- The beginning of `task_claim`, up to its first statement. -/
def claimStart (prefer : Option String) (strategy : TaskClaimStrategy) : ClaimPhase :=
  match prefer with
  | some traceId => .sticky traceId
  | none => if strategy = .stickyOnly then .returned none (.ok none) else .queue

/-- One statement of a call of `task_claim`; `fails` is the error of the statement. -/
def claimStatement (s : TaskQueue) (call : ClaimCall) (fails : Option String) :
    ClaimPhase × TaskQueue :=
  match call.phase, fails with
  | .returned found result, _ => (.returned found result, s)
  | _, some e => (.returned none (.error e), s)
  | .sticky traceId, none =>
      match selectSticky s.tasks call.agentId traceId with
      | some row => (.finish row, s)
      | none => (if call.strategy = .stickyOnly then .returned none (.ok none) else .queue, s)
  | .queue, none =>
      match selectQueue s.tasks call.agentId call.strategy with
      | some row => (.finish row, s)
      | none => (.returned none (.ok none), s)
  | .finish row, none =>
      (.returned (s.tasks.find row.id) (.ok (some (claimedTask call.agentId row))),
        { s with
          tasks := s.tasks.modify row.id (fun stored => stored.claimed call.agentId) fun _ h => h
          moves := ((s.tasks.find row.id).map fun stored => (stored.status, .inProgress)).toList ++
            s.moves })

/-- One step: a row posted, a call of `task_claim` begun or taken one statement further, or a task
completed. -/
inductive QueueOp where
  | post (row : QueuedTask)
  | claim (number : Nat) (agentId : String) (prefer : Option String)
      (strategy : TaskClaimStrategy)
  | statement (number : Nat) (fails : Option String)
  | complete (id result now : String)

/-- `task_complete`. -/
def taskComplete (s : TaskQueue) (id result now : String) : Except String Unit × TaskQueue :=
  match s.tasks.find id with
  | none => (.error s!"Task not found: {id}", s)
  | some stored =>
      (.ok (),
        { s with
          tasks := s.tasks.modify id (fun row => row.done result now) fun _ h => h
          moves := (stored.status, .completed) :: s.moves })

/-- The row that `task_post` inserts. -/
def QueuedTask.posted (row : QueuedTask) : QueuedTask :=
  { row with status := .pending, result := none, completedAt := none }

/-- The effect of a step. -/
def queueStep (s : TaskQueue) : QueueOp → TaskQueue
  | .post row => { s with tasks := s.tasks.insertIgnore row.posted }
  | .claim number agentId prefer strategy =>
      { s with
        claims := s.claims.insertIgnore ⟨number, agentId, strategy, claimStart prefer strategy⟩ }
  | .statement number fails =>
      match s.claims.find number with
      | none => s
      | some call =>
          let (phase, s) := claimStatement s call fails
          { s with
            claims := s.claims.modify number (fun call => { call with phase := phase })
              fun _ h => h }
  | .complete id result now => (taskComplete s id result now).2

/-! ### What a run keeps -/

/-- The task that a call returned. -/
def ClaimCall.task (call : ClaimCall) : Option String :=
  match call.phase with
  | .returned _ (.ok (some t)) => some t.id
  | _ => none

/-- A status stays or goes one step forward. -/
def Forward (move : TaskStatus × TaskStatus) : Prop :=
  move.1 = move.2 ∨ move = (.pending, .inProgress) ∨ move = (.inProgress, .completed)

/-- A task has one owner: no two calls returned it, no status went back, and the row that a call
met when it took its task was pending and assigned to the caller or to nobody. -/
structure OneOwner (s : TaskQueue) : Prop where
  exclusive : ∀ c ∈ s.claims.entries, ∀ c' ∈ s.claims.entries, ∀ id,
    c.task = some id → c'.task = some id → c = c'
  forward : ∀ move ∈ s.moves, Forward move
  eligible : ∀ c ∈ s.claims.entries, ∀ found t, c.phase = .returned found (.ok (some t)) →
    ∃ row, found = some row ∧ row.id = t.id ∧ isEligible c.agentId row = true

/-- The step takes a task that is still pending, or completes one that is not. -/
def StillOpen (s : TaskQueue) : QueueOp → Prop
  | .statement number none => ∀ call, s.claims.find number = some call →
      ∀ row, call.phase = .finish row → ∀ stored, s.tasks.find row.id = some stored →
        stored.status = .pending
  | .complete id _ _ => ∀ stored, s.tasks.find id = some stored → stored.status ≠ .pending
  | _ => True

/-- The invariant: a selected row is stored as it was as long as it is pending, a task that was
returned is not pending, and what is in progress was returned. -/
structure QueueInv (s : TaskQueue) : Prop extends OneOwner s where
  selected : ∀ c ∈ s.claims.entries, ∀ row, c.phase = .finish row →
    isEligible c.agentId row = true ∧
      ∃ stored ∈ s.tasks.entries, stored.id = row.id ∧ (stored.status = .pending → stored = row)
  taken : ∀ c ∈ s.claims.entries, ∀ id, c.task = some id →
    ∃ stored ∈ s.tasks.entries, stored.id = id ∧ stored.status ≠ .pending
  owned : ∀ stored ∈ s.tasks.entries, stored.status = .inProgress →
    ∃ c ∈ s.claims.entries, c.task = some stored.id

/-- No rewrite changes an id. -/
theorem done_id (result now : String) {id : String} :
    ∀ row : QueuedTask, row.id = id → (row.done result now).id = id := fun _ h => h

theorem claimed_id (agentId : String) {id : String} :
    ∀ row : QueuedTask, row.id = id → (row.claimed agentId).id = id := fun _ h => h

theorem firstBy_mem {before : QueuedTask → QueuedTask → Bool} {rows : List QueuedTask}
    {row : QueuedTask} (h : firstBy before rows = some row) : row ∈ rows := by
  induction rows with
  | nil => cases h
  | cons first rows ih =>
      rw [firstBy] at h
      split at h
      · cases h
        exact List.mem_cons_self
      · rename_i other hother
        split at h
        · cases h
          exact List.mem_cons_of_mem first (ih hother)
        · cases h
          exact List.mem_cons_self

section Selection

variable {tasks : Table QueuedTask.id} {agentId : String} {row : QueuedTask}

theorem selectSticky_eligible {traceId : String}
    (h : selectSticky tasks agentId traceId = some row) :
    row ∈ tasks.entries ∧ isEligible agentId row = true := by
  obtain ⟨hmem, htest⟩ := List.mem_filter.mp (firstBy_mem h)
  exact ⟨List.mem_reverse.mp hmem, (Bool.and_eq_true_iff.mp htest).1⟩

theorem selectQueue_eligible {strategy : TaskClaimStrategy}
    (h : selectQueue tasks agentId strategy = some row) :
    row ∈ tasks.entries ∧ isEligible agentId row = true := by
  obtain ⟨hmem, htest⟩ := List.mem_filter.mp (firstBy_mem h)
  exact ⟨List.mem_reverse.mp hmem, htest⟩

theorem pending_of_isEligible (h : isEligible agentId row = true) : row.status = .pending :=
  beq_iff_eq.mp (Bool.and_eq_true_iff.mp h).1

end Selection

theorem task_eq_none {call : ClaimCall}
    (h : ∀ found result, call.phase ≠ .returned found result) : call.task = none := by
  unfold ClaimCall.task
  split
  · rename_i heq
    exact absurd heq (h _ _)
  · rfl

/-- What a statement that takes no task does: nothing to a call that has returned, else the call
goes on with a row that it selected or without a task. -/
inductive Looked (s : TaskQueue) (call : ClaimCall) : ClaimPhase → Prop where
  | same : Looked s call call.phase
  | idle {phase : ClaimPhase} (hopen : call.task = none) (hfinish : ∀ row, phase ≠ .finish row)
      (hnothing : ∀ found t, phase ≠ .returned found (.ok (some t))) : Looked s call phase
  | selected {row : QueuedTask} (hopen : call.task = none) (hstored : row ∈ s.tasks.entries)
      (heligible : isEligible call.agentId row = true) : Looked s call (.finish row)

/-- A statement either looks up or takes the row that the call selected. -/
theorem claimStatement_cases (s : TaskQueue) (call : ClaimCall) (fails : Option String) :
    (Looked s call (claimStatement s call fails).1 ∧ (claimStatement s call fails).2 = s) ∨
      fails = none ∧ ∃ row, call.phase = .finish row := by
  have hidle : ∀ {result : Except String (Option ClaimedTask)}, call.task = none →
      (∀ t, result ≠ .ok (some t)) → Looked s call (.returned none result) := by
    intro result hopen hnothing
    refine .idle hopen (fun _ h => by cases h) fun found t h => ?_
    cases h
    exact hnothing t rfl
  unfold claimStatement
  split
  · rename_i found result hphase
    rw [← hphase]
    exact .inl ⟨.same, rfl⟩
  · rename_i hopen
    exact .inl ⟨hidle (task_eq_none hopen) (fun _ h => by cases h), rfl⟩
  · rename_i traceId hphase
    have hopen : call.task = none := by rw [ClaimCall.task, hphase]
    left
    split
    · rename_i hselect
      obtain ⟨hstored, heligible⟩ := selectSticky_eligible hselect
      exact ⟨.selected hopen hstored heligible, rfl⟩
    · split
      · exact ⟨hidle hopen (fun _ h => by cases h), rfl⟩
      · exact ⟨.idle hopen (fun _ h => by cases h) (fun _ _ h => by cases h), rfl⟩
  · rename_i hphase
    have hopen : call.task = none := by rw [ClaimCall.task, hphase]
    left
    split
    · rename_i hselect
      obtain ⟨hstored, heligible⟩ := selectQueue_eligible hselect
      exact ⟨.selected hopen hstored heligible, rfl⟩
    · exact ⟨hidle hopen (fun _ h => by cases h), rfl⟩
  · rename_i row hphase
    exact .inr ⟨rfl, row, hphase⟩

namespace QueueInv

variable {s : TaskQueue}

theorem new : QueueInv .new := by
  refine ⟨⟨?_, ?_, ?_⟩, ?_, ?_, ?_⟩ <;> simp [TaskQueue.new]

/-- A call that has no task is replaced or added, and takes none. -/
theorem withCalls (h : QueueInv s) (call : ClaimCall) {claims : Table ClaimCall.number}
    (hnew : ∀ c ∈ claims.entries, c ∈ s.claims.entries ∨ c = call)
    (hkept : ∀ c ∈ s.claims.entries, c.task ≠ none → c ∈ claims.entries)
    (hopen : call.task = none)
    (hnothing : ∀ found t, call.phase ≠ .returned found (.ok (some t)))
    (hselected : ∀ row, call.phase = .finish row →
      row ∈ s.tasks.entries ∧ isEligible call.agentId row = true) :
    QueueInv { s with claims := claims } := by
  have hold : ∀ c ∈ claims.entries, ∀ id, c.task = some id → c ∈ s.claims.entries := by
    intro c hc id htask
    rcases hnew c hc with hc | rfl
    · exact hc
    · rw [hopen] at htask
      cases htask
  constructor
  · constructor
    · intro c hc c' hc' id htask htask'
      exact h.exclusive c (hold c hc id htask) c' (hold c' hc' id htask') id htask htask'
    · exact h.forward
    · intro c hc found t hphase
      rcases hnew c hc with hc | rfl
      · exact h.eligible c hc found t hphase
      · exact absurd hphase (hnothing found t)
  · intro c hc row hphase
    rcases hnew c hc with hc | rfl
    · exact h.selected c hc row hphase
    · obtain ⟨hstored, heligible⟩ := hselected row hphase
      exact ⟨heligible, row, hstored, rfl, fun _ => rfl⟩
  · intro c hc id htask
    exact h.taken c (hold c hc id htask) id htask
  · intro stored hstored hstatus
    obtain ⟨c, hc, htask⟩ := h.owned stored hstored hstatus
    exact ⟨c, hkept c hc (by rw [htask]; exact Option.some_ne_none _), htask⟩

theorem look (h : QueueInv s) {number : Nat} {call : ClaimCall}
    (hcall : s.claims.find number = some call) {phase : ClaimPhase} (hlooked : Looked s call phase)
    (hf) : QueueInv { s with
      claims := s.claims.modify number (fun call => { call with phase := phase }) hf } := by
  have hnew : ∀ c ∈ (s.claims.modify number (fun call => { call with phase := phase }) hf).entries,
      c ∈ s.claims.entries ∨ c = { call with phase := phase } := fun c hc =>
    ((Table.mem_modify_of_find hf hcall).mp hc).elim .inr fun hold => .inl hold.1
  have hkept : call.task = none → ∀ c ∈ s.claims.entries, c.task ≠ none →
      c ∈ (s.claims.modify number (fun call => { call with phase := phase }) hf).entries := by
    intro hopen c hc htask
    refine (Table.mem_modify_of_find hf hcall).mpr (.inr ⟨hc, fun hnumber => htask ?_⟩)
    obtain ⟨hmem, hkey⟩ := Table.find_eq_some_iff.mp hcall
    rw [Table.eq_of_key_eq hc hmem (hnumber.trans hkey.symm)]
    exact hopen
  cases hlooked with
  | same =>
      have hsame : s.claims.modify number (fun c => { c with phase := call.phase }) hf =
          s.claims := by
        refine Table.modify_eq_self hf fun c hc hnumber => ?_
        obtain ⟨hmem, hkey⟩ := Table.find_eq_some_iff.mp hcall
        rw [Table.eq_of_key_eq hc hmem (hnumber.trans hkey.symm)]
      rw [hsame]
      exact h
  | idle hopen hfinish hnothing =>
      refine h.withCalls _ hnew (hkept hopen) ?_ hnothing fun row hrow => absurd hrow (hfinish row)
      unfold ClaimCall.task
      split
      · rename_i hphase
        exact absurd hphase (hnothing _ _)
      · rfl
  | selected hopen hstored heligible =>
      refine h.withCalls _ hnew (hkept hopen) rfl (fun _ _ heq => by cases heq) fun row hrow => ?_
      cases hrow
      exact ⟨hstored, heligible⟩

theorem begin (h : QueueInv s) (number : Nat) (agentId : String) (prefer : Option String)
    (strategy : TaskClaimStrategy) :
    QueueInv (queueStep s (.claim number agentId prefer strategy)) := by
  have hstart : ∀ found result, claimStart prefer strategy = .returned found result →
      found = none ∧ result = .ok none := by
    intro found result heq
    unfold claimStart at heq
    split at heq
    · cases heq
    · split at heq
      · cases heq
        exact ⟨rfl, rfl⟩
      · cases heq
  refine h.withCalls ⟨number, agentId, strategy, claimStart prefer strategy⟩
    (fun c hc => (Table.mem_insertIgnore.mp hc).imp_right And.left)
    (fun c hc _ => Table.mem_insertIgnore.mpr (.inl hc)) ?_ ?_ ?_
  · unfold ClaimCall.task
    split
    · rename_i hphase
      cases (hstart _ _ hphase).2
    · rfl
  · intro found t hphase
    cases (hstart _ _ hphase).2
  · intro row hphase
    unfold claimStart at hphase
    split at hphase
    · cases hphase
    · split at hphase <;> cases hphase

theorem post (h : QueueInv s) (row : QueuedTask) : QueueInv (queueStep s (.post row)) := by
  constructor
  · exact ⟨h.exclusive, h.forward, h.eligible⟩
  · intro c hc selected hphase
    obtain ⟨heligible, stored, hstored, hrest⟩ := h.selected c hc selected hphase
    exact ⟨heligible, stored, Table.mem_insertIgnore.mpr (.inl hstored), hrest⟩
  · intro c hc id htask
    obtain ⟨stored, hstored, hrest⟩ := h.taken c hc id htask
    exact ⟨stored, Table.mem_insertIgnore.mpr (.inl hstored), hrest⟩
  · intro stored hstored hstatus
    rcases Table.mem_insertIgnore.mp hstored with hstored | ⟨rfl, -⟩
    · exact h.owned stored hstored hstatus
    · cases hstatus

section Rewritten

variable {id : String} {f : QueuedTask → QueuedTask} (hf : ∀ row, row.id = id → (f row).id = id)

/-- A row that is not pending any more says nothing about what a call selected. -/
theorem selected_modify (hstatus : ∀ row, (f row).status ≠ .pending) {row : QueuedTask}
    (h : ∃ stored ∈ s.tasks.entries, stored.id = row.id ∧
      (stored.status = .pending → stored = row)) :
    ∃ stored ∈ (s.tasks.modify id f hf).entries, stored.id = row.id ∧
      (stored.status = .pending → stored = row) := by
  obtain ⟨stored, hstored, hid, hsame⟩ := h
  by_cases hmet : stored.id = id
  · exact ⟨f stored, (Table.mem_modify hf).mpr (.inr ⟨stored, hstored, hmet, rfl⟩),
      (hf stored hmet).trans (hmet.symm.trans hid), fun hp => absurd hp (hstatus stored)⟩
  · exact ⟨stored, (Table.mem_modify hf).mpr (.inl ⟨hstored, hmet⟩), hid, hsame⟩

theorem taken_modify (hstatus : ∀ row, (f row).status ≠ .pending) {id' : String}
    (h : ∃ stored ∈ s.tasks.entries, stored.id = id' ∧ stored.status ≠ .pending) :
    ∃ stored ∈ (s.tasks.modify id f hf).entries, stored.id = id' ∧ stored.status ≠ .pending := by
  obtain ⟨stored, hstored, hid, hopen⟩ := h
  by_cases hmet : stored.id = id
  · exact ⟨f stored, (Table.mem_modify hf).mpr (.inr ⟨stored, hstored, hmet, rfl⟩),
      (hf stored hmet).trans (hmet.symm.trans hid), hstatus stored⟩
  · exact ⟨stored, (Table.mem_modify hf).mpr (.inl ⟨hstored, hmet⟩), hid, hopen⟩

end Rewritten

/-- A completed row was not pending, so it goes forward. -/
theorem complete (h : QueueInv s) {id result now : String}
    (hopen : StillOpen s (.complete id result now)) :
    QueueInv (queueStep s (.complete id result now)) := by
  change QueueInv (taskComplete s id result now).2
  unfold taskComplete
  split
  · exact h
  · rename_i stored hstored
    constructor
    · refine ⟨h.exclusive, ?_, h.eligible⟩
      intro move hmove
      rcases List.mem_cons.mp hmove with rfl | hmove
      · have hstatus := hopen stored hstored
        cases hs : stored.status with
        | pending => exact absurd hs hstatus
        | inProgress => exact .inr (.inr rfl)
        | completed => exact .inl rfl
      · exact h.forward move hmove
    · intro c hc row hphase
      obtain ⟨heligible, hrow⟩ := h.selected c hc row hphase
      exact ⟨heligible, selected_modify (done_id result now)
        (fun _ heq => by cases heq) hrow⟩
    · intro c hc id' htask
      exact taken_modify (done_id result now)
        (fun _ heq => by cases heq) (h.taken c hc id' htask)
    · intro row hrow hstatus
      rcases (Table.mem_modify (done_id result now)).mp hrow with ⟨hrow, -⟩ | ⟨row, -, -, rfl⟩
      · exact h.owned row hrow hstatus
      · cases hstatus

/-- A call that finds its row still pending takes it, and nobody took it before. -/
theorem finish (h : QueueInv s) {number : Nat} {call : ClaimCall} {row : QueuedTask}
    (hcall : s.claims.find number = some call) (hphase : call.phase = .finish row)
    (hopen : StillOpen s (.statement number none)) :
    QueueInv (queueStep s (.statement number none)) := by
  obtain ⟨hmem, hnumber⟩ := Table.find_eq_some_iff.mp hcall
  obtain ⟨heligible, stored, hstored, hid, hsame⟩ := h.selected call hmem row hphase
  have hfind := Table.find_eq_some_iff.mpr ⟨hstored, hid⟩
  obtain rfl := hsame (hopen call hcall row hphase stored hfind)
  have hpending := pending_of_isEligible heligible
  have hnone : call.task = none := by rw [ClaimCall.task, hphase]
  have htaken : ∀ c ∈ s.claims.entries, ∀ id, c.task = some id → c.number ≠ number ∧
      id ≠ stored.id := by
    intro c hc id htask
    constructor
    · intro hsame
      rw [Table.eq_of_key_eq hc hmem (hsame.trans hnumber.symm), hnone] at htask
      cases htask
    · rintro rfl
      obtain ⟨other, hother, hid, hstatus⟩ := h.taken c hc _ htask
      rw [Table.eq_of_key_eq hother hstored hid] at hstatus
      exact hstatus hpending
  have hstep : queueStep s (.statement number none) =
      { tasks := s.tasks.modify stored.id (fun row => row.claimed call.agentId) fun _ h => h
        claims := s.claims.modify number (fun c => { c with
          phase := .returned (some stored) (.ok (some (claimedTask call.agentId stored))) })
          fun _ h => h
        moves := (stored.status, .inProgress) :: s.moves } := by
    simp only [queueStep, hcall, claimStatement, hphase, hfind]
    rfl
  rw [hstep]
  have hcalls := fun {c : ClaimCall} => Table.mem_modify_of_find (w := c)
    (f := fun c => { c with
      phase := .returned (some stored) (.ok (some (claimedTask call.agentId stored))) })
    (fun _ h => h) hcall
  constructor
  · constructor
    · intro c hc c' hc' id htask htask'
      rcases hcalls.mp hc with rfl | ⟨hc, -⟩ <;> rcases hcalls.mp hc' with rfl | ⟨hc', -⟩
      · rfl
      · cases htask
        exact absurd rfl (htaken c' hc' _ htask').2
      · cases htask'
        exact absurd rfl (htaken c hc _ htask).2
      · exact h.exclusive c hc c' hc' id htask htask'
    · intro move hmove
      rcases List.mem_cons.mp hmove with rfl | hmove
      · exact .inr (.inl (by rw [hpending]))
      · exact h.forward move hmove
    · intro c hc found t hreturned
      rcases hcalls.mp hc with rfl | ⟨hc, -⟩
      · cases hreturned
        exact ⟨stored, rfl, rfl, heligible⟩
      · exact h.eligible c hc found t hreturned
  · intro c hc selected hselected
    rcases hcalls.mp hc with rfl | ⟨hc, -⟩
    · cases hselected
    · obtain ⟨heligible, hrow⟩ := h.selected c hc selected hselected
      exact ⟨heligible, selected_modify (claimed_id call.agentId)
        (fun _ heq => by cases heq) hrow⟩
  · intro c hc id htask
    rcases hcalls.mp hc with rfl | ⟨hc, -⟩
    · cases htask
      exact ⟨stored.claimed call.agentId,
        (Table.mem_modify (claimed_id call.agentId)).mpr (.inr ⟨stored, hstored, rfl, rfl⟩), rfl,
        fun heq => by cases heq⟩
    · exact taken_modify (claimed_id call.agentId)
        (fun _ heq => by cases heq) (h.taken c hc id htask)
  · intro row hrow hstatus
    rcases (Table.mem_modify (claimed_id call.agentId)).mp hrow with
      ⟨hrow, hother⟩ | ⟨row, hrow, hsame, rfl⟩
    · obtain ⟨c, hc, htask⟩ := h.owned row hrow hstatus
      exact ⟨c, hcalls.mpr (.inr ⟨hc, (htaken c hc _ htask).1⟩), htask⟩
    · exact ⟨_, hcalls.mpr (.inl rfl), congrArg some hsame.symm⟩

theorem step (h : QueueInv s) {op : QueueOp} (hopen : StillOpen s op) :
    QueueInv (queueStep s op) := by
  cases op with
  | post row => exact h.post row
  | claim number agentId prefer strategy => exact h.begin number agentId prefer strategy
  | complete id result now => exact h.complete hopen
  | statement number fails =>
      cases hcall : s.claims.find number with
      | none =>
          simp only [queueStep, hcall]
          exact h
      | some call =>
          rcases claimStatement_cases s call fails with ⟨hlooked, hsame⟩ | ⟨rfl, row, hphase⟩
          · simp only [queueStep, hcall, hsame]
            exact h.look hcall hlooked fun _ h => h
          · exact h.finish hcall hphase hopen

/-- A step that takes a task which is not pending any more, or completes one that still is,
breaks the promise. -/
theorem not_oneOwner (h : QueueInv s) {op : QueueOp} (hnot : ¬ StillOpen s op) :
    ¬ OneOwner (queueStep s op) := by
  intro hafter
  cases op with
  | post row => exact hnot trivial
  | claim number agentId prefer strategy => exact hnot trivial
  | complete id result now =>
      refine hnot fun stored hstored hpending => ?_
      have hmove := hafter.forward (.pending, .completed)
        (by simp [queueStep, taskComplete, hstored, hpending])
      rcases hmove with h | h | h <;> cases h
  | statement number fails =>
      cases fails with
      | some e => exact hnot trivial
      | none =>
          refine hnot fun call hcall row hphase stored hstored => ?_
          obtain ⟨hmem, hnumber⟩ := Table.find_eq_some_iff.mp hcall
          obtain ⟨hrow, hid⟩ := Table.find_eq_some_iff.mp hstored
          cases hstatus : stored.status with
          | pending => rfl
          | completed =>
              have hmove := hafter.forward (.completed, .inProgress)
                (by simp [queueStep, hcall, claimStatement, hphase, hstored, hstatus])
              rcases hmove with h | h | h <;> cases h
          | inProgress =>
              obtain ⟨c, hc, htask⟩ := h.owned stored hrow hstatus
              have hne : c.number ≠ number := by
                intro hsame
                rw [Table.eq_of_key_eq hc hmem (hsame.trans hnumber.symm), ClaimCall.task,
                  hphase] at htask
                cases htask
              have hclaims : (queueStep s (.statement number none)).claims =
                  s.claims.modify number (fun c => { c with
                    phase := .returned (some stored)
                      (.ok (some (claimedTask call.agentId row))) }) fun _ h => h := by
                simp only [queueStep, hcall, claimStatement, hphase, hstored]
              have hcalls := fun {c' : ClaimCall} => Table.mem_modify_of_find (w := c')
                (f := fun c => { c with
                  phase := .returned (some stored)
                    (.ok (some (claimedTask call.agentId row))) }) (fun _ h => h) hcall
              have hother := hclaims ▸ hcalls.mpr (.inr ⟨hc, hne⟩)
              have hself := hclaims ▸ hcalls.mpr (.inl rfl)
              have hequal := hafter.exclusive c hother _ hself stored.id htask
                (congrArg some hid.symm)
              exact absurd (hequal ▸ hnumber) hne

end QueueInv

/-- **A queued task has one owner exactly in the runs in which every task is still pending when it
is taken and is not when it is completed.** For any number of calls, whatever their statements come
between, these are the runs in which no task is returned twice, no status goes back or skips a
step, and what a call takes was pending and assigned to the caller or to nobody. -/
theorem queue_one_owner_iff (ops : List QueueOp) :
    (∀ s ∈ passed queueStep TaskQueue.new ops, OneOwner s) ↔
      Guarded queueStep StillOpen TaskQueue.new ops :=
  passed_safe_iff (fun _ h => h.toOneOwner) (fun _ _ h hopen => h.step hopen)
    (fun _ _ h hnot => h.not_oneOwner hnot) QueueInv.new

/-! ### Two workers -/

/-- A task for anybody. -/
def openTask : QueuedTask where
  id := "t"
  title := "Audit"
  description := ""
  assignedTo := ""
  createdBy := ""
  createdAt := ""
  payload := .obj []
  priority := 0
  status := .pending
  result := none
  completedAt := none

/-- Two workers that both look before either takes. -/
def crossedClaims : List QueueOp :=
  [.post openTask, .claim 1 "a" none .default, .claim 2 "b" none .default, .statement 1 none,
    .statement 2 none, .statement 1 none, .statement 2 none]

/-- Both workers are given the task. -/
theorem crossed_claims_share :
    ((runOps queueStep .new crossedClaims).claims.entries.map fun c => (c.agentId, c.task)) =
        [("b", some "t"), ("a", some "t")] ∧
      ¬ ∀ s ∈ passed queueStep TaskQueue.new crossedClaims, OneOwner s := by
  have hcalls : (runOps queueStep .new crossedClaims).claims.entries.map
      (fun c => (c.agentId, c.task)) = [("b", some "t"), ("a", some "t")] := by decide +kernel
  refine ⟨hcalls, fun hall => ?_⟩
  have hend := hall _ (mem_passed.mpr ⟨crossedClaims, List.prefix_rfl, rfl⟩)
  obtain ⟨c, hc, hca⟩ := List.mem_map.mp (hcalls ▸ List.mem_cons_self)
  obtain ⟨c', hc', hcb⟩ := List.mem_map.mp
    (hcalls ▸ List.mem_cons_of_mem _ List.mem_cons_self)
  obtain ⟨hagent, htask⟩ := Prod.mk.inj hca
  obtain ⟨hagent', htask'⟩ := Prod.mk.inj hcb
  rw [hend.exclusive c hc c' hc' "t" htask htask', hagent'] at hagent
  exact absurd hagent (by decide)

end ArmaraOS.Memory
