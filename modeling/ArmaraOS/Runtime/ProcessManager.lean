import ArmaraOS.Lib.Backlog
import ArmaraOS.Lib.Machine
import ArmaraOS.Lib.Overlap
import ArmaraOS.Lib.Table
import ArmaraOS.Lib.Text

/-!
Persistent processes of agents (`openfang-runtime/src/process_manager.rs`).

Several calls may be under way at once. What a call does with the map of processes under one guard
is one step: so are the count of an agent's processes, the check of their owner, the write to
standard input with its flush, and the drain of both buffers. The number of a process is taken and
the process is inserted in one step, as no other call can use the number before. The environment and
the working directory only go to the operating system and are left out, and so is standard input
that is closed: it is always piped.
-/

namespace ArmaraOS.Runtime

open ArmaraOS.Lib

/-! ### Children, processes and calls -/

/-- The pipes that a reader task reads line by line. -/
inductive Pipe where
  | stdout
  | stderr
deriving DecidableEq

/-- A child process: the agent that `start` was called for, its buffers, and for the record the
writes to its standard input and the calls that killed it, each with its agent. -/
structure Child where
  agentId : String
  stdoutBuf : Backlog String
  stderrBuf : Backlog String
  input : List (String × List UInt8)
  killers : List (Option String)

namespace Child

/-- A child that was spawned. -/
def spawn (agentId : String) : Child := ⟨agentId, .empty, .empty, [], []⟩

/-- The buffer of a pipe. -/
def buffer (child : Child) : Pipe → Backlog String
  | .stdout => child.stdoutBuf
  | .stderr => child.stderrBuf

/-- A reader task has read a line. -/
def readLine (pipe : Pipe) (line : String) (child : Child) : Child :=
  match pipe with
  | .stdout => { child with stdoutBuf := child.stdoutBuf.push 1000 100 line }
  | .stderr => { child with stderrBuf := child.stderrBuf.push 1000 100 line }

/-- Both buffers are drained. -/
def drain (child : Child) : Child :=
  { child with stdoutBuf := child.stdoutBuf.drain, stderrBuf := child.stderrBuf.drain }

/-- An agent has written to standard input. -/
def write (agentId : String) (data : List UInt8) (child : Child) : Child :=
  { child with input := (agentId, data) :: child.input }

/-- It is killed, for an agent or by the cleanup. -/
def kill (killer : Option String) (child : Child) : Child :=
  { child with killers := killer :: child.killers }

end Child

/-- `ManagedProcess`, with the place of its child in the order of spawning. Times are in
nanoseconds. -/
structure ManagedProcess where
  id : String
  agentId : String
  command : String
  startedAt : Nat
  handle : Nat

/-- Where a call is that has started and has not returned. -/
inductive ProcessCall where
  /-- `start` has counted the agent's processes. -/
  | counted (agentId command : String) (args : List String)
  /-- It has spawned a child. -/
  | spawned (agentId command : String) (args : List String) (handle : Nat)
  /-- `read_for_agent` has checked the owner. -/
  | reading (processId agentId : String)
  /-- `write_for_agent` has checked the owner. -/
  | writing (processId agentId : String) (data : List UInt8)
  /-- `kill_for_agent` has checked the owner. -/
  | killing (processId agentId : String)
  /-- `cleanup` has collected the processes that it has yet to kill. -/
  | cleaning (processIds : List String)

/-- What a call returns: the id, the lines of a child, or that it is done. -/
inductive ProcessAnswer where
  | started (processId : String)
  | lines (handle : Nat) (stdout stderr : List String)
  | done

/-- `ProcessManager`, with the children, the calls under way and what calls have returned to an
agent. -/
structure ProcessManager where
  now : Nat
  processes : Table ManagedProcess.id
  nextId : Nat
  children : List Child
  calls : List ProcessCall
  returned : List (String × Except String ProcessAnswer)

/-- `ProcessManager::new`. -/
def ProcessManager.new : ProcessManager := ⟨0, .empty, 1, [], [], []⟩

/-- `max_per_agent`, and `str::to_lowercase`. -/
structure ProcessEnv where
  maxPerAgent : Nat
  toLowercase : String → String

/-- What the operating system does. -/
inductive OsAnswer where
  | ok
  | spawnFailed (error : String)
  /-- Only a part of the data is written. -/
  | writeFailed (accepted : Nat) (error : String)
  | flushFailed (error : String)

/-- A call starts, a reader task reads a line of a child, a call at a place goes on, or the clock
is set. -/
inductive ProcessOp where
  | clock (now : Nat)
  | start (agentId command : String) (args : List String)
  | readForAgent (processId agentId : String)
  | writeForAgent (processId agentId : String) (data : List UInt8)
  | killForAgent (processId agentId : String)
  | cleanup (maxAgeSecs : Nat)
  | readLine (handle : Nat) (pipe : Pipe) (line : String)
  | proceed (place : Nat) (os : OsAnswer)

/-! ### Steps -/

/-- The id with a number. -/
def processId (n : Nat) : String := "proc_" ++ toString n

/-- The command that a process is listed with. -/
def cmdDisplay (command : String) (args : List String) : String :=
  if args.isEmpty then command else command ++ " " ++ " ".intercalate args

/-- The error of `start` where the operating system has one. -/
def ProcessEnv.spawnError (env : ProcessEnv) (command : String) (args : List String)
    (es : String) : String :=
  let msg :=
    if args.isEmpty then "Failed to start process `" ++ command ++ "`: " ++ es
    else "Failed to start process `" ++ command ++ "` with args `" ++ " ".intercalate args ++
      "`: " ++ es
  if Text.contains es "No such file or directory" || Text.contains es "entity not found" ||
      Text.contains es "cannot find the file" ||
      Text.contains es "The system cannot find the file" then
    msg ++ " Hint: the executable was not found on PATH for this working directory — " ++
      "pass an absolute path to the interpreter (e.g. `/path/to/venv/bin/python3`) " ++
      "and set `cwd` to the directory that contains your script, `venv/`, or `.env`."
  else if Text.contains (env.toLowercase es) "permission denied" ||
      Text.contains es "access is denied" then
    msg ++ " Hint: permission denied when spawning — check file mode (chmod +x) or " ++
      "Gatekeeper / antivirus blocks on the binary path."
  else msg

/-- `err_not_found_or_wrong_owner`. -/
def errNotFoundOrWrongOwner (processId : String) : String :=
  "Process '" ++ processId ++ "' not found or not owned by this agent"

/-- The error of the calls that do not look at the owner. -/
def errNotFound (processId : String) : String := "Process '" ++ processId ++ "' not found"

namespace ProcessManager

/-- A call is under way. -/
def await (s : ProcessManager) (call : ProcessCall) : ProcessManager :=
  { s with calls := call :: s.calls }

/-- A call returns to an agent. -/
def answer (s : ProcessManager) (agentId : String) (result : Except String ProcessAnswer) :
    ProcessManager :=
  { s with returned := (agentId, result) :: s.returned }

/-- A child changes. -/
def touch (s : ProcessManager) (handle : Nat) (f : Child → Child) : ProcessManager :=
  { s with children := s.children.modify handle f }

/-- The number of an agent's processes. -/
def agentCount (s : ProcessManager) (agentId : String) : Nat :=
  s.processes.count fun process => process.agentId == agentId

/-- `start`, up to the count. -/
def start (env : ProcessEnv) (s : ProcessManager) (agentId command : String)
    (args : List String) : ProcessManager :=
  if env.maxPerAgent ≤ s.agentCount agentId then
    s.answer agentId (.error ("Agent '" ++ agentId ++ "' already has " ++
      toString (s.agentCount agentId) ++ " processes (max: " ++ toString env.maxPerAgent ++ ")"))
  else s.await (.counted agentId command args)

/-- `ensure_agent_owns`, and the call that goes on if it holds. -/
def ensureAgentOwns (s : ProcessManager) (processId agentId : String) (call : ProcessCall) :
    ProcessManager :=
  match s.processes.find processId with
  | none => s.answer agentId (.error (errNotFoundOrWrongOwner processId))
  | some process =>
      if process.agentId ≠ agentId then
        s.answer agentId (.error (errNotFoundOrWrongOwner processId))
      else s.await call

/-- `cleanup`, up to the ids that it collects. -/
def cleanup (s : ProcessManager) (maxAgeSecs : Nat) : ProcessManager :=
  s.await (.cleaning ((s.processes.entries.filter fun process =>
    decide (maxAgeSecs < (s.now - process.startedAt) / 1000000000)).map ManagedProcess.id))

/-- The step of a call that was taken out of those under way. -/
def goOn (env : ProcessEnv) (s : ProcessManager) (os : OsAnswer) : ProcessCall → ProcessManager
  | .counted agentId command args =>
      match os with
      | .spawnFailed error => s.answer agentId (.error (env.spawnError command args error))
      | _ =>
          { s with children := s.children ++ [Child.spawn agentId] }.await
            (.spawned agentId command args s.children.length)
  | .spawned agentId command args handle =>
      { s with
        nextId := s.nextId + 1
        processes := s.processes.insert
          ⟨processId s.nextId, agentId, cmdDisplay command args, s.now, handle⟩ }.answer
        agentId (.ok (.started (processId s.nextId)))
  | .reading processId agentId =>
      match s.processes.find processId with
      | none => s.answer agentId (.error (errNotFound processId))
      | some process =>
          match s.children[process.handle]? with
          | none => s
          | some child =>
              (s.touch process.handle Child.drain).answer agentId
                (.ok (.lines process.handle child.stdoutBuf.waiting child.stderrBuf.waiting))
  | .writing processId agentId data =>
      match s.processes.find processId with
      | none => s.answer agentId (.error (errNotFound processId))
      | some process =>
          match os with
          | .writeFailed accepted error =>
              (s.touch process.handle (Child.write agentId (data.take accepted))).answer agentId
                (.error ("Write failed: " ++ error))
          | .flushFailed error =>
              (s.touch process.handle (Child.write agentId data)).answer agentId
                (.error ("Flush failed: " ++ error))
          | _ => (s.touch process.handle (Child.write agentId data)).answer agentId (.ok .done)
  | .killing processId agentId =>
      match s.processes.find processId with
      | none => s.answer agentId (.error (errNotFound processId))
      | some process =>
          ({ s with processes := s.processes.erase processId }.touch process.handle
            (Child.kill (some agentId))).answer agentId (.ok .done)
  | .cleaning [] => s
  | .cleaning (processId :: processIds) =>
      match s.processes.find processId with
      | none => s.await (.cleaning processIds)
      | some process =>
          ({ s with processes := s.processes.erase processId }.touch process.handle
            (Child.kill none)).await (.cleaning processIds)

end ProcessManager

/-- The effect of a step. -/
def processStep (env : ProcessEnv) (s : ProcessManager) : ProcessOp → ProcessManager
  | .clock now => { s with now := now }
  | .start agentId command args => s.start env agentId command args
  | .readForAgent processId agentId =>
      s.ensureAgentOwns processId agentId (.reading processId agentId)
  | .writeForAgent processId agentId data =>
      s.ensureAgentOwns processId agentId (.writing processId agentId data)
  | .killForAgent processId agentId =>
      s.ensureAgentOwns processId agentId (.killing processId agentId)
  | .cleanup maxAgeSecs => s.cleanup maxAgeSecs
  | .readLine handle pipe line => s.touch handle (Child.readLine pipe line)
  | .proceed place os =>
      match s.calls[place]? with
      | none => s
      | some call => { s with calls := s.calls.eraseIdx place }.goOn env os call

/-! ### Isolation -/

/-- The agent that a child was spawned for. -/
def owner (children : List Child) (handle : Nat) : Option String :=
  children[handle]?.map Child.agentId

/-- The lines of a pipe of a child that were returned. -/
def linesOf (handle : Nat) (pipe : Pipe) : String × Except String ProcessAnswer → List String
  | (_, .ok (.lines other stdout stderr)) =>
      if other = handle then (match pipe with | .stdout => stdout | .stderr => stderr) else []
  | _ => []

/-- Lines are returned. -/
def hasLines : Except String ProcessAnswer → Bool
  | .ok (.lines _ _ _) => true
  | _ => false

/-- All lines of a pipe of a child that were returned, in the order of the reads. -/
def answered (handle : Nat) (pipe : Pipe) (returned : List (String × Except String ProcessAnswer)) :
    List String :=
  returned.reverse.flatMap (linesOf handle pipe)

/-- An id that was given to a process. -/
def Numbered (nextId : Nat) (id : String) : Prop := ∃ n < nextId, id = processId n

/-- Only the agent of a child has written to it, only that agent or the cleanup has killed it, and
its buffers are sound. -/
structure Child.Sound (child : Child) : Prop where
  input : ∀ entry ∈ child.input, entry.1 = child.agentId
  killers : ∀ killer ∈ child.killers, ∀ agentId ∈ killer, agentId = child.agentId
  buffers : ∀ pipe, (child.buffer pipe).Sound 1000

/-- A call that has checked the owner still acts for the owner, or its process is gone: another
process never gets the id. -/
def CallOwned (processes : Table ManagedProcess.id) (nextId : Nat) (children : List Child) :
    ProcessCall → Prop
  | .spawned agentId _ _ handle => owner children handle = some agentId
  | .reading id agentId | .writing id agentId _ | .killing id agentId =>
      Numbered nextId id ∧ ∀ process ∈ processes.entries, process.id = id →
        process.agentId = agentId
  | _ => True

/-- What holds of the processes, the children, the calls under way and what was returned. -/
structure Isolated (processes : Table ManagedProcess.id) (nextId : Nat) (children : List Child)
    (calls : List ProcessCall) (returned : List (String × Except String ProcessAnswer)) :
    Prop where
  owned : ∀ process ∈ processes.entries, owner children process.handle = some process.agentId
  numbered : ∀ process ∈ processes.entries, Numbered nextId process.id
  calls : ∀ call ∈ calls, CallOwned processes nextId children call
  sound : ∀ child ∈ children, child.Sound
  taken : ∀ handle child, children[handle]? = some child →
    ∀ pipe, (child.buffer pipe).taken = answered handle pipe returned
  answers : ∀ entry ∈ returned, ∀ handle stdout stderr,
    entry.2 = .ok (.lines handle stdout stderr) → owner children handle = some entry.1

theorem processId_injective {n n' : Nat} (h : processId n = processId n') : n = n' := by
  have hdigits : (toString n).toList = (toString n').toList := by
    have hlist := congrArg String.toList h
    simpa only [processId, String.toList_append, List.append_cancel_left_eq] using hlist
  have hvalue : ∀ m : Nat, Nat.ofDigitChars 10 (toString m).toList 0 = m := by
    intro m
    simp
  rw [← hvalue n, hdigits, hvalue n']

@[simp] theorem answered_cons (handle : Nat) (pipe : Pipe)
    (entry : String × Except String ProcessAnswer)
    (returned : List (String × Except String ProcessAnswer)) :
    answered handle pipe (entry :: returned) =
      answered handle pipe returned ++ linesOf handle pipe entry := by
  simp [answered]

theorem linesOf_lines (handle other : Nat) (pipe : Pipe) (agentId : String)
    (stdout stderr : List String) :
    linesOf handle pipe (agentId, .ok (.lines other stdout stderr)) =
      if other = handle then (match pipe with | .stdout => stdout | .stderr => stderr) else [] :=
  rfl

theorem linesOf_of_hasLines {result : Except String ProcessAnswer} (h : hasLines result = false)
    {handle : Nat} {pipe : Pipe} {agentId : String} :
    linesOf handle pipe (agentId, result) = [] := by
  cases result with
  | error => rfl
  | ok answer =>
      cases answer with
      | lines => cases h
      | started | done => rfl

theorem owner_modify {f : Child → Child} (hf : ∀ child, (f child).agentId = child.agentId)
    (children : List Child) (place handle : Nat) :
    owner (children.modify place f) handle = owner children handle := by
  rw [owner, owner, List.getElem?_modify]
  cases children[handle]? with
  | none => rfl
  | some child =>
      rw [Option.map_eq_map, Option.map_some, Option.map_some, Option.map_some]
      split
      · rw [hf]
      · rfl

theorem owner_append {children : List Child} {handle : Nat} {agentId : String}
    (h : owner children handle = some agentId) (child : Child) :
    owner (children ++ [child]) handle = some agentId := by
  obtain ⟨c, hc, hagent⟩ := Option.map_eq_some_iff.mp h
  have hlt := (List.getElem?_eq_some_iff.mp hc).1
  rw [owner, List.getElem?_append_left hlt, hc, Option.map_some, hagent]

theorem Numbered.mono {nextId nextId' : Nat} {id : String} (h : Numbered nextId id)
    (hle : nextId ≤ nextId') : Numbered nextId' id := by
  obtain ⟨n, hn, hid⟩ := h
  exact ⟨n, Nat.lt_of_lt_of_le hn hle, hid⟩

theorem CallOwned.carry {processes processes' : Table ManagedProcess.id} {nextId nextId' : Nat}
    {children children' : List Child} {call : ProcessCall}
    (h : CallOwned processes nextId children call) (hnext : nextId ≤ nextId')
    (hprocesses : ∀ process ∈ processes'.entries, Numbered nextId process.id →
      process ∈ processes.entries)
    (howner : ∀ handle agentId, owner children handle = some agentId →
      owner children' handle = some agentId) :
    CallOwned processes' nextId' children' call := by
  have hchecked : ∀ {id agentId : String}, (Numbered nextId id ∧
      ∀ process ∈ processes.entries, process.id = id → process.agentId = agentId) →
      Numbered nextId' id ∧
        ∀ process ∈ processes'.entries, process.id = id → process.agentId = agentId := by
    intro id agentId ⟨hid, hagent⟩
    refine ⟨hid.mono hnext, fun process hprocess hsame => ?_⟩
    exact hagent process (hprocesses process hprocess (hsame ▸ hid)) hsame
  cases call with
  | counted => trivial
  | spawned agentId command args handle => exact howner handle agentId h
  | reading => exact hchecked h
  | writing => exact hchecked h
  | killing => exact hchecked h
  | cleaning => trivial

namespace Isolated

variable {processes : Table ManagedProcess.id} {nextId : Nat} {children : List Child}
  {calls calls' : List ProcessCall} {returned : List (String × Except String ProcessAnswer)}
  {call : ProcessCall}

theorem of_subset (h : Isolated processes nextId children calls returned)
    (hsub : calls' ⊆ calls) : Isolated processes nextId children calls' returned :=
  { h with calls := fun call hcall => h.calls call (hsub hcall) }

theorem add (h : Isolated processes nextId children calls returned)
    (hcall : CallOwned processes nextId children call) :
    Isolated processes nextId children (call :: calls) returned :=
  { h with calls := List.forall_mem_cons.mpr ⟨hcall, h.calls⟩ }

/-- A call returns no lines. -/
theorem answer (h : Isolated processes nextId children calls returned) {agentId : String}
    {result : Except String ProcessAnswer}
    (hresult : hasLines result = false) :
    Isolated processes nextId children calls ((agentId, result) :: returned) := by
  refine { h with taken := fun handle child hchild pipe => ?_, answers := ?_ }
  · rw [answered_cons, linesOf_of_hasLines hresult, List.append_nil]
    exact h.taken handle child hchild pipe
  · refine List.forall_mem_cons.mpr ⟨fun handle stdout stderr heq => ?_, h.answers⟩
    obtain rfl : result = .ok (.lines handle stdout stderr) := heq
    cases hresult

/-- A child changes, and lines of it may be returned. -/
theorem change (h : Isolated processes nextId children calls returned) (place : Nat)
    {f : Child → Child} (hagent : ∀ child, (f child).agentId = child.agentId)
    {returned' : List (String × Except String ProcessAnswer)}
    (htaken : ∀ handle child, children[handle]? = some child → ∀ pipe,
      ((if place = handle then f child else child).buffer pipe).taken =
        answered handle pipe returned')
    (hanswers : ∀ entry ∈ returned', ∀ handle stdout stderr,
      entry.2 = .ok (.lines handle stdout stderr) → owner children handle = some entry.1)
    (hsound : ∀ child, children[place]? = some child → child.Sound → (f child).Sound) :
    Isolated processes nextId (children.modify place f) calls returned' where
  owned process hprocess := by
    rw [owner_modify hagent]
    exact h.owned process hprocess
  numbered := h.numbered
  calls call hcall := by
    refine (h.calls call hcall).carry (Nat.le_refl _) (fun _ hprocess _ => hprocess) ?_
    intro handle agentId howner
    rw [owner_modify hagent, howner]
  sound child hchild := by
    obtain ⟨handle, hhandle⟩ := List.mem_iff_getElem?.mp hchild
    rw [List.getElem?_modify] at hhandle
    obtain ⟨old, hold, rfl⟩ := Option.map_eq_some_iff.mp hhandle
    have hmem := List.mem_of_getElem? hold
    split
    · rename_i hplace
      exact hsound old (hplace ▸ hold) (h.sound old hmem)
    · exact h.sound old hmem
  taken handle child hchild pipe := by
    rw [List.getElem?_modify] at hchild
    obtain ⟨old, hold, rfl⟩ := Option.map_eq_some_iff.mp hchild
    exact htaken handle old hold pipe
  answers entry hentry handle stdout stderr heq := by
    rw [owner_modify hagent]
    exact hanswers entry hentry handle stdout stderr heq

/-- A child changes but for what was taken from its buffers. -/
theorem touch (h : Isolated processes nextId children calls returned) (place : Nat)
    {f : Child → Child} (hagent : ∀ child, (f child).agentId = child.agentId)
    (htaken : ∀ child pipe, ((f child).buffer pipe).taken = (child.buffer pipe).taken)
    (hsound : ∀ child, children[place]? = some child → child.Sound → (f child).Sound) :
    Isolated processes nextId (children.modify place f) calls returned := by
  refine h.change place hagent (fun handle child hchild pipe => ?_) h.answers hsound
  rw [← h.taken handle child hchild pipe]
  split
  · exact htaken child pipe
  · rfl

/-- A child is spawned. -/
theorem spawn (h : Isolated processes nextId children calls returned) (agentId : String) :
    Isolated processes nextId (children ++ [Child.spawn agentId]) calls returned where
  owned process hprocess := owner_append (h.owned process hprocess) _
  numbered := h.numbered
  calls call hcall := (h.calls call hcall).carry (Nat.le_refl _) (fun _ hprocess _ => hprocess)
    fun _ _ howner => owner_append howner _
  sound child hchild := by
    rcases List.mem_append.mp hchild with hchild | hchild
    · exact h.sound child hchild
    · obtain rfl := List.mem_singleton.mp hchild
      refine ⟨List.forall_mem_nil _, List.forall_mem_nil _, fun pipe => ?_⟩
      cases pipe
      · exact .empty
      · exact .empty
  taken handle child hchild pipe := by
    by_cases hlt : handle < children.length
    · rw [List.getElem?_append_left hlt] at hchild
      exact h.taken handle child hchild pipe
    · -- no answer is from a child that there was not
      rw [List.getElem?_append_right (Nat.le_of_not_lt hlt)] at hchild
      obtain rfl := List.mem_singleton.mp (List.mem_of_getElem? hchild)
      have hnone : answered handle pipe returned = [] := by
        refine List.flatMap_eq_nil_iff.mpr fun entry hentry => ?_
        unfold linesOf
        split
        · rename_i agent other stdout stderr
          have howner := h.answers _ (List.mem_reverse.mp hentry) other stdout stderr rfl
          rw [owner, Option.map_eq_some_iff] at howner
          obtain ⟨c, hc, -⟩ := howner
          have hother := (List.getElem?_eq_some_iff.mp hc).1
          have hne : other ≠ handle := fun heq => hlt (heq ▸ hother)
          exact if_neg hne
        · rfl
      rw [hnone]
      cases pipe
      · rfl
      · rfl
  answers entry hentry handle stdout stderr heq :=
    owner_append (h.answers entry hentry handle stdout stderr heq) _

/-- A process is inserted under the next id. -/
theorem register (h : Isolated processes nextId children calls returned) {agentId : String}
    {handle : Nat} (howner : owner children handle = some agentId) (command : String)
    (startedAt : Nat) :
    Isolated (processes.insert ⟨processId nextId, agentId, command, startedAt, handle⟩)
      (nextId + 1) children calls returned := by
  refine { h with owned := ?owned, numbered := ?numbered, calls := fun call hcall => ?calls }
  case owned =>
    intro process hprocess
    rcases Table.mem_insert.mp hprocess with rfl | ⟨hprocess, -⟩
    · exact howner
    · exact h.owned process hprocess
  case numbered =>
    intro process hprocess
    rcases Table.mem_insert.mp hprocess with rfl | ⟨hprocess, -⟩
    · exact ⟨nextId, Nat.lt_succ_self nextId, rfl⟩
    · exact (h.numbered process hprocess).mono (Nat.le_succ nextId)
  case calls =>
    refine (h.calls call hcall).carry (Nat.le_succ nextId) ?_ fun _ _ howner => howner
    intro process hprocess hnumbered
    rcases Table.mem_insert.mp hprocess with rfl | ⟨hprocess, -⟩
    · -- the id is new
      obtain ⟨n, hn, hid⟩ := hnumbered
      exact absurd (processId_injective hid) (Nat.ne_of_gt hn)
    · exact hprocess

/-- A process is removed. -/
theorem remove (h : Isolated processes nextId children calls returned) (id : String) :
    Isolated (processes.erase id) nextId children calls returned :=
  { h with
    owned := fun process hprocess => h.owned process (Table.mem_erase.mp hprocess).1
    numbered := fun process hprocess => h.numbered process (Table.mem_erase.mp hprocess).1
    calls := fun call hcall => (h.calls call hcall).carry (Nat.le_refl _)
      (fun _ hprocess _ => (Table.mem_erase.mp hprocess).1) fun _ _ howner => howner }

/-- A read drains both buffers and returns their lines to the owner. -/
theorem drain (h : Isolated processes nextId children calls returned) {place : Nat} {child : Child}
    (hchild : children[place]? = some child) :
    Isolated processes nextId (children.modify place Child.drain) calls
      ((child.agentId, .ok (.lines place child.stdoutBuf.waiting child.stderrBuf.waiting)) ::
        returned) := by
  refine h.change place (f := Child.drain) (fun _ => rfl) (fun handle old hold pipe => ?_) ?_
    fun old _ hsound => ?_
  · rw [answered_cons, ← h.taken handle old hold pipe, linesOf_lines]
    split
    · rename_i hplace
      subst hplace
      obtain rfl := Option.some.inj (hchild.symm.trans hold)
      cases pipe
      · rfl
      · rfl
    · rw [List.append_nil]
  · refine List.forall_mem_cons.mpr ⟨fun handle stdout stderr heq => ?_, h.answers⟩
    obtain ⟨rfl, -, -⟩ := ProcessAnswer.lines.inj (Except.ok.inj heq)
    rw [owner, hchild]
    rfl
  · refine ⟨hsound.input, hsound.killers, fun pipe => ?_⟩
    cases pipe
    · exact (hsound.buffers .stdout).drain
    · exact (hsound.buffers .stderr).drain

end Isolated

namespace Child.Sound

variable {child : Child}

theorem readLine (h : child.Sound) (pipe : Pipe) (line : String) :
    (child.readLine pipe line).Sound := by
  have hpush : ∀ pipe, ((child.buffer pipe).push 1000 100 line).Sound 1000 := fun pipe =>
    (h.buffers pipe).push (by decide) (by decide) line
  cases pipe with
  | stdout =>
      refine ⟨h.input, h.killers, fun pipe => ?_⟩
      cases pipe
      · exact hpush .stdout
      · exact h.buffers .stderr
  | stderr =>
      refine ⟨h.input, h.killers, fun pipe => ?_⟩
      cases pipe
      · exact h.buffers .stdout
      · exact hpush .stderr

theorem write (h : child.Sound) (data : List UInt8) : (child.write child.agentId data).Sound :=
  ⟨List.forall_mem_cons.mpr ⟨rfl, h.input⟩, h.killers, h.buffers⟩

theorem kill (h : child.Sound) {killer : Option String}
    (hkiller : ∀ agentId ∈ killer, agentId = child.agentId) : (child.kill killer).Sound :=
  ⟨h.input, List.forall_mem_cons.mpr ⟨hkiller, h.killers⟩, h.buffers⟩

end Child.Sound

/-- **Step.** A call goes on. -/
theorem ProcessManager.goOn_isolated {env : ProcessEnv} {s : ProcessManager} {os : OsAnswer}
    {call : ProcessCall}
    (h : Isolated s.processes s.nextId s.children (call :: s.calls) s.returned)
    {s' : ProcessManager} (hs' : s' = s.goOn env os call) :
    Isolated s'.processes s'.nextId s'.children s'.calls s'.returned := by
  have hcall := h.calls call List.mem_cons_self
  have hdrop := h.of_subset (List.subset_cons_self call s.calls)
  -- the child of a process was spawned for the agent that the call has checked
  have hfound : ∀ {id agentId : String} {process : ManagedProcess}, (Numbered s.nextId id ∧
      ∀ process ∈ s.processes.entries, process.id = id → process.agentId = agentId) →
      s.processes.find id = some process →
      ∀ child, s.children[process.handle]? = some child → child.agentId = agentId := by
    intro id agentId process hid hfind child hchild
    obtain ⟨hmem, hsame⟩ := Table.find_eq_some_iff.mp hfind
    have howned := h.owned process hmem
    rw [owner, hchild] at howned
    exact (Option.some.inj howned).trans (hid.2 process hmem hsame)
  subst hs'
  cases call with
  | counted agentId command args =>
      have howner : CallOwned s.processes s.nextId (s.children ++ [Child.spawn agentId])
          (.spawned agentId command args s.children.length) := by
        simp [CallOwned, owner, Child.spawn]
      have hspawned := (hdrop.spawn agentId).add howner
      cases os with
      | spawnFailed error => exact hdrop.answer rfl
      | ok | writeFailed | flushFailed => exact hspawned
  | spawned agentId command args handle =>
      exact (hdrop.register hcall (cmdDisplay command args) s.now).answer rfl
  | reading id agentId =>
      rw [goOn]
      split
      · exact hdrop.answer rfl
      rename_i process hfind
      split
      · exact hdrop
      rename_i child hchild
      obtain rfl := hfound hcall hfind child hchild
      exact hdrop.drain hchild
  | writing id agentId data =>
      have hwrite : ∀ process, s.processes.find id = some process → ∀ data : List UInt8,
          Isolated s.processes s.nextId
            (s.children.modify process.handle (Child.write agentId data)) s.calls s.returned := by
        intro process hfind data
        refine hdrop.touch process.handle (fun _ => rfl) (fun _ _ => rfl) fun child hchild hs => ?_
        obtain rfl := hfound hcall hfind child hchild
        exact hs.write data
      rw [goOn]
      split
      · exact hdrop.answer rfl
      rename_i process hfind
      split
      · exact (hwrite process hfind _).answer rfl
      · exact (hwrite process hfind _).answer rfl
      · exact (hwrite process hfind _).answer rfl
  | killing id agentId =>
      rw [goOn]
      split
      · exact hdrop.answer rfl
      rename_i process hfind
      refine ((hdrop.remove id).touch process.handle (f := Child.kill (some agentId))
        (fun _ => rfl) (fun _ _ => rfl) fun child hchild hs =>
          hs.kill fun killer hkiller => ?_).answer rfl
      obtain rfl := hfound hcall hfind child hchild
      exact (Option.some.inj hkiller).symm
  | cleaning ids =>
      cases ids with
      | nil => exact hdrop
      | cons id ids =>
          rw [goOn]
          split
          · exact hdrop.add trivial
          rename_i process hfind
          exact ((hdrop.remove id).touch process.handle (f := Child.kill none) (fun _ => rfl)
            (fun _ _ => rfl) fun child hchild hs => hs.kill nofun).add trivial

/-- **Step.** -/
theorem processStep_isolated {env : ProcessEnv} {s : ProcessManager} {op : ProcessOp}
    (h : Isolated s.processes s.nextId s.children s.calls s.returned)
    {s' : ProcessManager} (hs' : s' = processStep env s op) :
    Isolated s'.processes s'.nextId s'.children s'.calls s'.returned := by
  have hensure : ∀ id agentId call, (Numbered s.nextId id →
      (∀ process ∈ s.processes.entries, process.id = id → process.agentId = agentId) →
      CallOwned s.processes s.nextId s.children call) →
      ∀ s', s' = s.ensureAgentOwns id agentId call →
        Isolated s'.processes s'.nextId s'.children s'.calls s'.returned := by
    rintro id agentId call hcall _ rfl
    unfold ProcessManager.ensureAgentOwns
    split
    · exact h.answer rfl
    rename_i process hfind
    obtain ⟨hmem, rfl⟩ := Table.find_eq_some_iff.mp hfind
    split
    · exact h.answer rfl
    rename_i hagent
    refine h.add (hcall (h.numbered process hmem) fun other hother hsame => ?_)
    rw [Table.eq_of_key_eq hother hmem hsame]
    exact not_not.mp hagent
  cases op with
  | clock now =>
      subst hs'
      exact h
  | start agentId command args =>
      subst hs'
      unfold processStep ProcessManager.start
      dsimp only
      split
      · exact h.answer rfl
      · exact h.add trivial
  | readForAgent id agentId =>
      exact hensure id agentId (.reading id agentId) (fun hid hagent => ⟨hid, hagent⟩) _ hs'
  | writeForAgent id agentId data =>
      exact hensure id agentId (.writing id agentId data) (fun hid hagent => ⟨hid, hagent⟩) _ hs'
  | killForAgent id agentId =>
      exact hensure id agentId (.killing id agentId) (fun hid hagent => ⟨hid, hagent⟩) _ hs'
  | cleanup maxAgeSecs =>
      subst hs'
      exact h.add trivial
  | readLine handle pipe line =>
      subst hs'
      refine h.touch handle (fun _ => ?_) (fun _ other => ?_) fun _ _ hs => hs.readLine pipe line
      · cases pipe <;> rfl
      · cases pipe <;> cases other <;> rfl
  | proceed place os =>
      simp only [processStep] at hs'
      split at hs'
      · subst hs'
        exact h
      · rename_i call hcall
        exact ProcessManager.goOn_isolated (s := { s with calls := s.calls.eraseIdx place })
          (h.of_subset (perm_cons_eraseIdx hcall).symm.subset) hs'

/-- **Isolation.** In every state of every run and every interleaving, a child was written to and
killed for the agent that it was spawned for alone, the cleanup apart, and only that agent was
returned its lines: each at most once and in order, and all but those that wait unless some were
dropped. -/
theorem processes_isolated (env : ProcessEnv) (ops : List ProcessOp) :
    ∀ s ∈ passed (processStep env) .new ops,
      (∀ entry ∈ s.returned, ∀ handle stdout stderr,
        entry.2 = .ok (.lines handle stdout stderr) → owner s.children handle = some entry.1) ∧
      ∀ handle child, s.children[handle]? = some child →
        (∀ entry ∈ child.input, entry.1 = child.agentId) ∧
        (∀ killer ∈ child.killers, ∀ agentId ∈ killer, agentId = child.agentId) ∧
        ∀ pipe,
          (answered handle pipe s.returned ++ (child.buffer pipe).waiting).Sublist
            (child.buffer pipe).arrived ∧
          (child.buffer pipe).waiting.length ≤ 1000 ∧
          ((child.buffer pipe).dropped = 0 →
            answered handle pipe s.returned ++ (child.buffer pipe).waiting =
              (child.buffer pipe).arrived) := by
  intro s hs
  have hinit : Isolated .empty 1 [] [] [] := by
    constructor
    all_goals simp
  have hstep : ∀ s op, Isolated s.processes s.nextId s.children s.calls s.returned →
      ∀ s', s' = processStep env s op →
      Isolated s'.processes s'.nextId s'.children s'.calls s'.returned :=
    fun _ _ h _ hs' => processStep_isolated h hs'
  have h : Isolated s.processes s.nextId s.children s.calls s.returned :=
    passed_invariant (fun s op h (_ : True) => hstep s op h _ rfl) hinit
      (guarded_of_forall (fun _ _ => trivial) _ ops) s hs
  refine ⟨h.answers, fun handle child hchild => ?_⟩
  have hsound := h.sound child (List.mem_of_getElem? hchild)
  refine ⟨hsound.input, hsound.killers, fun pipe => ?_⟩
  rw [← h.taken handle child hchild pipe]
  have hbuffer := hsound.buffers pipe
  exact ⟨hbuffer.order, hbuffer.bounded, hbuffer.complete⟩

/-- A process that has started and printed a line is read by its agent. -/
def startedRun : List ProcessOp :=
  [.start "a" "cat" [], .proceed 0 .ok, .proceed 0 .ok, .readLine 0 .stdout "hi",
    .readForAgent "proc_1" "a", .proceed 0 .ok, .proceed 0 .ok]

/-- All that was returned came from the process of the agent that called. -/
theorem processes_isolated_started :
    startedRun.length = 7 ∧
      ∀ entry ∈ (runOps (processStep ⟨1, id⟩) .new startedRun).returned,
        ∀ handle stdout stderr, entry.2 = .ok (.lines handle stdout stderr) →
          owner (runOps (processStep ⟨1, id⟩) .new startedRun).children handle = some entry.1 :=
  ⟨rfl, (processes_isolated ⟨1, id⟩ startedRun _
    (mem_passed.mpr ⟨startedRun, List.prefix_rfl, rfl⟩)).1⟩

/-! ### The limit -/

/-- It is a `start` of an agent that has passed the check of the limit. -/
def ProcessCall.starts (agentId : String) : ProcessCall → Bool
  | .counted other _ _ | .spawned other _ _ _ => other == agentId
  | _ => false

section Limit

variable (env : ProcessEnv) (p : Nat) (agentId : String)

/-- At most `p` starts of an agent are under way. -/
def StartsApart (s : ProcessManager) (op : ProcessOp) : Prop :=
  (processStep env s op).calls.countP (ProcessCall.starts agentId) ≤ p

instance (s : ProcessManager) (op : ProcessOp) : Decidable (StartsApart env p agentId s op) :=
  inferInstanceAs (Decidable (_ ≤ p))

variable {env p agentId}

theorem agentCount_insert_le (processes : Table ManagedProcess.id) (process : ManagedProcess) :
    ((processes.insert process).count fun other => other.agentId == agentId) ≤
      (processes.count fun other => other.agentId == agentId) +
        if process.agentId == agentId then 1 else 0 :=
  Table.count_insert_le processes process _

/-- **Step.** A call goes on. -/
theorem ProcessManager.goOn_within {s : ProcessManager} {os : OsAnswer} {call : ProcessCall}
    (h : WithinLimit env.maxPerAgent p 0 (s.agentCount agentId)
      ((call :: s.calls).countP (ProcessCall.starts agentId))) :
    WithinLimit env.maxPerAgent p 0 ((s.goOn env os call).agentCount agentId)
      ((s.goOn env os call).calls.countP (ProcessCall.starts agentId)) := by
  have hdrop : WithinLimit env.maxPerAgent p 0 (s.agentCount agentId)
      (s.calls.countP (ProcessCall.starts agentId)) :=
    h.mono (Nat.add_le_add_left (List.sublist_cons_self ..).countP_le _)
  have herase : ∀ id, WithinLimit env.maxPerAgent p 0
      ((s.processes.erase id).count fun process => process.agentId == agentId)
      (s.calls.countP (ProcessCall.starts agentId)) := fun id =>
    hdrop.mono (Nat.add_le_add_right (Table.count_filter_le _ _ _) _)
  cases call with
  | counted other command args =>
      cases os with
      | spawnFailed error => exact hdrop
      | ok | writeFailed | flushFailed => exact h
  | spawned other command args handle =>
      refine h.mono ?_
      rw [List.countP_cons]
      have hcount := @agentCount_insert_le agentId s.processes
        ⟨processId s.nextId, other, cmdDisplay command args, s.now, handle⟩
      change (Table.count _ _) + _ ≤ Table.count _ _ + (_ + if other == agentId then 1 else 0)
      rw [Nat.add_comm (s.calls.countP _), ← Nat.add_assoc]
      exact Nat.add_le_add_right hcount _
  | reading id other =>
      rw [goOn]
      split
      · exact hdrop
      split
      · exact hdrop
      · exact hdrop
  | writing id other data =>
      rw [goOn]
      split
      · exact hdrop
      split
      · exact hdrop
      · exact hdrop
      · exact hdrop
  | killing id other =>
      rw [goOn]
      split
      · exact hdrop
      · exact herase id
  | cleaning ids =>
      cases ids with
      | nil => exact hdrop
      | cons id ids =>
          rw [goOn]
          split
          · exact hdrop
          · exact herase id

/-- **Step.** -/
theorem processStep_within {s : ProcessManager} {op : ProcessOp}
    (h : WithinLimit env.maxPerAgent p 0 (s.agentCount agentId)
      (s.calls.countP (ProcessCall.starts agentId)))
    (hapart : StartsApart env p agentId s op) :
    WithinLimit env.maxPerAgent p 0 ((processStep env s op).agentCount agentId)
      ((processStep env s op).calls.countP (ProcessCall.starts agentId)) := by
  have hensure : ∀ id other call, call.starts agentId = false → WithinLimit env.maxPerAgent p 0
      ((s.ensureAgentOwns id other call).agentCount agentId)
      ((s.ensureAgentOwns id other call).calls.countP (ProcessCall.starts agentId)) := by
    intro id other call hcall
    unfold ProcessManager.ensureAgentOwns
    split
    · exact h
    split
    · exact h
    · change WithinLimit _ _ _ (s.agentCount agentId) (List.countP _ (call :: s.calls))
      rw [List.countP_cons_of_neg (by rw [hcall]; exact Bool.false_ne_true)]
      exact h
  cases op with
  | clock now => exact h
  | start other command args =>
      unfold StartsApart at hapart
      simp only [processStep, ProcessManager.start] at hapart ⊢
      split
      · exact h
      rename_i hroom
      rw [if_neg hroom] at hapart
      by_cases hother : other = agentId
      · subst hother
        exact .checked (Nat.lt_of_not_le hroom) hapart
      · change WithinLimit _ _ _ (s.agentCount agentId)
          (List.countP _ (.counted other command args :: s.calls))
        rw [List.countP_cons_of_neg (by simpa [ProcessCall.starts] using hother)]
        exact h
  | readForAgent id other => exact hensure id other _ rfl
  | writeForAgent id other data => exact hensure id other _ rfl
  | killForAgent id other => exact hensure id other _ rfl
  | cleanup maxAgeSecs => exact h
  | readLine handle pipe line => exact h
  | proceed place os =>
      simp only [processStep]
      split
      · exact h
      · rename_i call hcall
        refine ProcessManager.goOn_within (s := { s with calls := s.calls.eraseIdx place }) ?_
        rw [← (perm_cons_eraseIdx hcall).countP_eq]
        exact h

end Limit

/-- **Limit.** In every run in which at most `p` starts of an agent are under way at a time, the
agent has at most `max_per_agent + p - 1` processes, whatever other agents do; without overlap, at
most `max_per_agent`. -/
theorem processes_within_limit {env : ProcessEnv} {p : Nat} {agentId : String}
    {ops : List ProcessOp}
    (hapart : Guarded (processStep env) (StartsApart env p agentId) .new ops) :
    ∀ s ∈ passed (processStep env) .new ops, s.agentCount agentId ≤ env.maxPerAgent + p - 1 := by
  intro s hs
  have hstep : ∀ s op, WithinLimit env.maxPerAgent p 0 (s.agentCount agentId)
        (s.calls.countP (ProcessCall.starts agentId)) →
      StartsApart env p agentId s op → WithinLimit env.maxPerAgent p 0
        ((processStep env s op).agentCount agentId)
        ((processStep env s op).calls.countP (ProcessCall.starts agentId)) :=
    fun _ _ h hapart => processStep_within h hapart
  have h := passed_invariant hstep .init hapart s hs
  exact h.size_le.trans (by simp)

/-- Two starts of an agent that both count no process. -/
def racingRun : List ProcessOp :=
  [.start "a" "cat" [], .start "a" "cat" [], .proceed 0 .ok, .proceed 1 .ok, .proceed 0 .ok,
    .proceed 0 .ok]

/-- The state after both. -/
def racingStarts : ProcessManager := runOps (processStep ⟨1, id⟩) .new racingRun

/-- Both start, although the limit is one process: the bound for two starts at a time allows it. -/
theorem processes_within_limit_racing :
    racingStarts.agentCount "a" = 2 ∧ racingStarts.agentCount "a" ≤ 2 := by
  have hapart : Guarded (processStep ⟨1, id⟩) (StartsApart ⟨1, id⟩ 2 "a") .new racingRun := by
    decide
  exact ⟨by decide, processes_within_limit hapart racingStarts
    (mem_passed.mpr ⟨racingRun, List.prefix_rfl, rfl⟩)⟩

end ArmaraOS.Runtime
