import ArmaraOS.Kernel.CanonicalTurns
import ArmaraOS.Lib.Machine
import ArmaraOS.Session.Conservation

/-!
The stored session of an agent under its turns, its compactions and the outputs of its cron jobs
(`send_message_with_handle_and_blocks`, `send_message_streaming`, `compact_agent_session` and
`append_cron_output_to_agent_session` in `openfang-kernel/src/kernel.rs`).

Each of them loads the whole session and saves the whole session. A plain turn holds the lock of
its agent from before its load to its end; a streaming turn, a compaction that was asked for and a
cron output take no lock. `saves` is written for the statements: what was saved, in save order.

What has to be stored is said of the saves alone (`Owed`): all that was appended, without a front
that compactions summarised. Nothing is lost in a run exactly when every save has this in the
session that its job had loaded (`session_kept_iff`), and plain turns alone always have
(`plain_turns_lose_nothing`).
-/

namespace ArmaraOS.Kernel

open ArmaraOS.Lib ArmaraOS.Session

/-! ### Compaction of a session -/

/-- `CompactionConfig::threshold`. -/
def compactionThreshold : Nat := 30

/-- `CompactionConfig::keep_recent`. -/
def keepRecent : Nat := 10

/-- `needs_compaction`. -/
def needsCompaction (session : List Message) : Bool := compactionThreshold < session.length

/-- `adjust_split_for_tool_pairs`. -/
def adjustSplitForToolPairs (messages : List Message) (split : Nat) : Nat :=
  if split = 0 ∨ messages.length ≤ split then split
  else
    match messages[split - 1]?, messages[split]? with
    | some prev, some curr =>
        if prev.role ≠ .assistant ∨ curr.role ≠ .user then split
        else if prev.toolUses ≠ [] ∧ curr.toolResults ≠ [] then split - 1
        else split
    | _, _ => split

/-- `compacted_count`: how many messages `compact_session` summarises. -/
def compactedCount (session : List Message) : Nat :=
  if session.length ≤ keepRecent then 0
  else adjustSplitForToolPairs session (session.length - keepRecent)

/-- The messages that a compaction saves: the kept ones, repaired. -/
def compactedSession (session : List Message) : List Message :=
  validateAndRepair (session.drop (compactedCount session))

/-! ### Jobs -/

/-- What appends to the session: a turn, or the output of a cron job. -/
inductive SessionWriter where
  | turn (path : TurnPath) (messages : List Message)
  | cron (output : Message)
deriving DecidableEq

/-- The messages that are appended. -/
def SessionWriter.messages : SessionWriter → List Message
  | .turn _ messages => messages
  | .cron output => [output]

/-- What is asked of an agent. -/
inductive SessionJob where
  | write (writer : SessionWriter)
  | compact
deriving DecidableEq

/-- For whom a compaction runs. A turn that finds its session too large has it compacted before
its loop. -/
inductive CompactionCaller where
  | asked
  | turn (path : TurnPath) (messages session : List Message)
deriving DecidableEq

/-- Where a job is. `session` is what it read from the store. -/
inductive JobPhase where
  | idle
  | loading (writer : SessionWriter)
  | running (writer : SessionWriter) (session : List Message)
  | compactLoading (caller : CompactionCaller)
  | summarising (caller : CompactionCaller) (session : List Message)
  | reloading (path : TurnPath) (messages session : List Message)
  | finished (job : SessionJob) (ok : Bool)
deriving DecidableEq

/-! ### Saves -/

/-- What a save was for. A compaction saves the session without the messages that it took for
its summary. -/
inductive SessionChange where
  | append (messages : List Message)
  | summarise (taken : List Message)

/-- A save. -/
structure SessionSave where
  job : Nat
  change : SessionChange

/-- What a save leaves of what has to be stored. A compaction takes off the front what it
summarised; or nothing, when the session goes on with what it had before. -/
def SessionChange.Leaves (change : SessionChange) (before after : List (Role × ContentBlock)) :
    Prop :=
  match change with
  | .append messages => after = before ++ spoken messages
  | .summarise taken => before = spoken taken ++ after ∨ after = before

/-- What has to be stored after the saves: what the session said at the start and what was
appended since, in save order, except a front that compactions summarised. -/
def Owed (start : List Message) (saves : List SessionSave) : List (Role × ContentBlock) → Prop :=
  saves.foldl (fun owed save after => ∃ before, owed before ∧ save.change.Leaves before after)
    (· = spoken start)

/-- The messages that were appended since the last compaction. -/
def recentMessages (start : List Message) (saves : List SessionSave) : List Message :=
  saves.foldl (fun recent save =>
    match save.change with
    | .append messages => recent ++ messages
    | .summarise _ => []) start

/-- The session says just what has to be stored, and ends with the messages that were appended
since the last compaction, as they are. -/
structure Current (start : List Message) (saves : List SessionSave) (session : List Message) :
    Prop where
  said : Owed start saves (spoken session)
  recent : recentMessages start saves <:+ session

/-- What a job appended. -/
def appendsOf (job : Nat) (saves : List SessionSave) : List (List Message) :=
  saves.filterMap fun save =>
    match save.change with
    | .append messages => if save.job = job then some messages else none
    | .summarise _ => none

section Replay

variable (start : List Message) (saves : List SessionSave) (save : SessionSave)

theorem owed_append_singleton (after : List (Role × ContentBlock)) :
    Owed start (saves ++ [save]) after ↔
      ∃ before, Owed start saves before ∧ save.change.Leaves before after := by
  rw [Owed, List.foldl_append]
  rfl

theorem recentMessages_append (job : Nat) (messages : List Message) :
    recentMessages start (saves ++ [⟨job, .append messages⟩]) =
      recentMessages start saves ++ messages := by
  rw [recentMessages, List.foldl_append]
  rfl

theorem recentMessages_summarise (job : Nat) (taken : List Message) :
    recentMessages start (saves ++ [⟨job, .summarise taken⟩]) = [] := by
  rw [recentMessages, List.foldl_append]
  rfl

/-- A session with the messages behind it is current after their save exactly if it was current
before. -/
theorem current_append_iff {job : Nat} {messages session : List Message} :
    Current start (saves ++ [⟨job, .append messages⟩]) (session ++ messages) ↔
      Current start saves session := by
  constructor
  · rintro ⟨hsaid, hrecent⟩
    constructor
    · obtain ⟨before, howed, hleaves⟩ := (owed_append_singleton _ _ _ _).mp hsaid
      rw [spoken_append] at hleaves
      rwa [List.append_cancel_right hleaves]
    · obtain ⟨front, hfront⟩ := hrecent
      rw [recentMessages_append, ← List.append_assoc] at hfront
      exact ⟨front, List.append_cancel_right hfront⟩
  · rintro ⟨hsaid, front, hfront⟩
    constructor
    · exact (owed_append_singleton _ _ _ _).mpr ⟨_, hsaid, spoken_append _ _⟩
    · rw [recentMessages_append]
      exact ⟨front, by rw [← List.append_assoc, hfront]⟩

/-- What a compaction keeps is current after its save exactly if the session that it read, or what
it keeps of it, says what had to be stored before. -/
theorem current_summarise_iff {job count : Nat} {session : List Message} :
    Current start (saves ++ [⟨job, .summarise (session.take count)⟩])
        (validateAndRepair (session.drop count)) ↔
      Owed start saves (spoken session) ∨ Owed start saves (spoken (session.drop count)) := by
  have hparts : spoken (session.take count) ++ spoken (session.drop count) = spoken session := by
    rw [← spoken_append, List.take_append_drop]
  constructor
  · rintro ⟨hsaid, -⟩
    rw [spoken_validateAndRepair] at hsaid
    obtain ⟨before, howed, hfreed | hleft⟩ := (owed_append_singleton _ _ _ _).mp hsaid
    · rw [hparts] at hfreed
      exact .inl (hfreed ▸ howed)
    · exact .inr (hleft ▸ howed)
  · intro h
    constructor
    · rw [spoken_validateAndRepair]
      refine (owed_append_singleton _ _ _ _).mpr ?_
      rcases h with howed | howed
      · exact ⟨_, howed, .inl hparts.symm⟩
      · exact ⟨_, howed, .inr rfl⟩
    · rw [recentMessages_summarise]
      exact List.nil_suffix

/-- A session that is brought back after its compaction says what has to be stored as before. -/
theorem Current.brought_back {start : List Message} {saves : List SessionSave} {job : Nat}
    {taken session : List Message} (h : Current start saves session) :
    Current start (saves ++ [⟨job, .summarise taken⟩]) session where
  said := (owed_append_singleton _ _ _ _).mpr ⟨_, h.said, .inr rfl⟩
  recent := by
    rw [recentMessages_summarise]
    exact List.nil_suffix

theorem appendsOf_append_self (job : Nat) (messages : List Message) :
    appendsOf job (saves ++ [⟨job, .append messages⟩]) = appendsOf job saves ++ [messages] := by
  simp [appendsOf]

theorem appendsOf_append_of_ne {job other : Nat} (messages : List Message) (h : other ≠ job) :
    appendsOf other (saves ++ [⟨job, .append messages⟩]) = appendsOf other saves := by
  simp [appendsOf, h.symm]

theorem appendsOf_summarise (job other : Nat) (taken : List Message) :
    appendsOf other (saves ++ [⟨job, .summarise taken⟩]) = appendsOf other saves := by
  simp [appendsOf]

end Replay

/-! ### The jobs of an agent -/

/-- The agent: the row of its session, its lock, its jobs, and what was saved. -/
structure StoredSession where
  row : Option (List Message) := none
  lock : Option Nat := none
  phase : Nat → JobPhase := fun _ => .idle
  saves : List SessionSave := []

/-- The steps of a job. `ok` says whether the calls of the step succeed; a load that is not ok
stands also for a driver that cannot be resolved. `large` says that the tokens of the session, or
the headroom of the quota, ask for a compaction. -/
inductive SessionStep where
  | start (job : Nat) (work : SessionJob)
  | load (job : Nat) (ok large : Bool)
  | compactLoad (job : Nat) (ok : Bool)
  | compactSave (job : Nat) (ok : Bool)
  | reload (job : Nat) (ok : Bool)
  | save (job : Nat) (ok : Bool)
  | fail (job : Nat)

namespace StoredSession

/-- `get_session`: a missing row is an empty session. -/
def stored (s : StoredSession) : List Message := s.row.getD []

/-- Put a job into a phase. -/
def enter (s : StoredSession) (job : Nat) (phase : JobPhase) : StoredSession :=
  { s with phase := Function.update s.phase job phase }

@[simp] theorem enter_phase_self (s : StoredSession) (job : Nat) (phase : JobPhase) :
    (s.enter job phase).phase job = phase :=
  Function.update_self _ _ _

theorem enter_phase_of_ne (s : StoredSession) {job other : Nat} (phase : JobPhase)
    (h : other ≠ job) : (s.enter job phase).phase other = s.phase other :=
  Function.update_of_ne h _ _

/-- A job returns; the guard of the lock is dropped. -/
def finish (s : StoredSession) (job : Nat) (work : SessionJob) (ok : Bool) : StoredSession :=
  { s.enter job (.finished work ok) with lock := if s.lock = some job then none else s.lock }

/-- `save_session`. -/
def write (s : StoredSession) (job : Nat) (session : List Message) (change : SessionChange) :
    StoredSession :=
  { s with row := some session, saves := s.saves ++ [⟨job, change⟩] }

/-- A compaction returns to its caller. A turn goes on with its session when the compaction
failed, and loads it again otherwise. -/
def compactionReturned (s : StoredSession) (job : Nat) (caller : CompactionCaller) (ok : Bool) :
    StoredSession :=
  match caller with
  | .asked => s.finish job .compact ok
  | .turn path messages session =>
      if ok then s.enter job (.reloading path messages session)
      else s.enter job (.running (.turn path messages) session)

/-- One step of a job; a step that its job cannot take changes nothing. -/
def step (s : StoredSession) : SessionStep → StoredSession
  | .start job work =>
      match s.phase job, work with
      | .idle, .compact => s.enter job (.compactLoading .asked)
      | .idle, .write (.turn .plain messages) =>
          if s.lock = none then
            { s.enter job (.loading (.turn .plain messages)) with lock := some job }
          else s
      | .idle, .write writer => s.enter job (.loading writer)
      | _, _ => s
  | .load job ok large =>
      match s.phase job with
      | .loading (.turn path messages) =>
          if !ok then s.finish job (.write (.turn path messages)) false
          else if needsCompaction s.stored || large then
            s.enter job (.compactLoading (.turn path messages s.stored))
          else s.enter job (.running (.turn path messages) s.stored)
      | .loading (.cron output) =>
          -- a session that cannot be read counts as empty
          s.enter job (.running (.cron output) (if ok then s.stored else []))
      | _ => s
  | .compactLoad job ok =>
      match s.phase job with
      | .compactLoading caller =>
          if !ok then s.compactionReturned job caller false
          else if !needsCompaction s.stored then s.compactionReturned job caller true
          else s.enter job (.summarising caller s.stored)
      | _ => s
  | .compactSave job ok =>
      match s.phase job with
      | .summarising caller session =>
          if ok then
            (s.write job (compactedSession session)
              (.summarise (session.take (compactedCount session)))).compactionReturned job caller true
          else s.compactionReturned job caller false
      | _ => s
  | .reload job ok =>
      match s.phase job with
      | .reloading path messages session =>
          s.enter job (.running (.turn path messages) (if ok then s.row.getD session else session))
      | _ => s
  | .save job ok =>
      match s.phase job with
      | .running writer session =>
          if ok then
            (s.write job (session ++ writer.messages) (.append writer.messages)).finish job
              (.write writer) true
          else
            match writer with
            | .turn _ _ => s.finish job (.write writer) false
            -- a failed save is only logged
            | .cron _ => s.finish job (.write writer) true
      | _ => s
  | .fail job =>
      match s.phase job with
      | .running (.turn path messages) _ => s.finish job (.write (.turn path messages)) false
      | _ => s

end StoredSession

/-- A job that returned. -/
def JobPhase.isFinished : JobPhase → Bool
  | .finished _ _ => true
  | _ => false

/-- A job that is under way. -/
def JobPhase.isUnderWay : JobPhase → Bool
  | .idle => false
  | .finished _ _ => false
  | _ => true

namespace StoredSession

/-- What a step can be, and the phase its job is in. -/
inductive Moves (s : StoredSession) (job : Nat) : SessionStep → StoredSession → Prop
  | stays (e : SessionStep) : Moves s job e s
  | starts {work : SessionJob} {phase : JobPhase} (hphase : s.phase job = .idle)
      (hwork : ∀ messages, work ≠ .write (.turn .plain messages))
      (hnew : phase.isFinished = false) : Moves s job (.start job work) (s.enter job phase)
  | locks {messages : List Message} (hphase : s.phase job = .idle) (hlock : s.lock = none) :
      Moves s job (.start job (.write (.turn .plain messages)))
        { s.enter job (.loading (.turn .plain messages)) with lock := some job }
  | loads {path : TurnPath} {messages : List Message} {ok large : Bool} {phase : JobPhase}
      (hphase : s.phase job = .loading (.turn path messages))
      (hnext : phase = .compactLoading (.turn path messages s.stored) ∨
        phase = .running (.turn path messages) s.stored) :
      Moves s job (.load job ok large) (s.enter job phase)
  | loadsOutput {output : Message} {ok large : Bool} {session : List Message}
      (hphase : s.phase job = .loading (.cron output)) :
      Moves s job (.load job ok large) (s.enter job (.running (.cron output) session))
  | compacts {caller : CompactionCaller} {ok : Bool}
      (hphase : s.phase job = .compactLoading caller) :
      Moves s job (.compactLoad job ok) (s.enter job (.summarising caller s.stored))
  | returns {e : SessionStep} {caller : CompactionCaller} {ok : Bool}
      (hphase : s.phase job = .compactLoading caller ∨
        ∃ session, s.phase job = .summarising caller session) :
      Moves s job e (s.compactionReturned job caller ok)
  | summarises {caller : CompactionCaller} {session : List Message}
      (hphase : s.phase job = .summarising caller session) :
      Moves s job (.compactSave job true) ((s.write job (compactedSession session)
        (.summarise (session.take (compactedCount session)))).compactionReturned job caller true)
  | reloads {path : TurnPath} {messages session : List Message} {ok : Bool}
      (hphase : s.phase job = .reloading path messages session) :
      Moves s job (.reload job ok)
        (s.enter job (.running (.turn path messages) (if ok then s.row.getD session else session)))
  | saves {writer : SessionWriter} {session : List Message}
      (hphase : s.phase job = .running writer session) :
      Moves s job (.save job true) ((s.write job (session ++ writer.messages)
        (.append writer.messages)).finish job (.write writer) true)
  | drops {output : Message} {session : List Message}
      (hphase : s.phase job = .running (.cron output) session) :
      Moves s job (.save job false) (s.finish job (.write (.cron output)) true)
  | fails {e : SessionStep} {writer : SessionWriter} (hway : (s.phase job).isUnderWay = true) :
      Moves s job e (s.finish job (.write writer) false)

theorem moves (s : StoredSession) (e : SessionStep) : ∃ job, s.Moves job e (s.step e) := by
  cases e with
  | start job work =>
      refine ⟨job, ?_⟩
      simp only [step]
      split
      · next hphase => exact .starts hphase (fun _ => by simp) rfl
      · next hphase =>
          split
          · next hlock => exact .locks hphase hlock
          · exact .stays _
      · next hplain hphase =>
          exact .starts hphase (fun messages h => hplain messages (by simpa using h)) rfl
      · exact .stays _
  | load job ok large =>
      refine ⟨job, ?_⟩
      simp only [step]
      split
      · next hphase =>
          split
          · exact .fails (by rw [hphase]; rfl)
          · split
            · exact .loads hphase (.inl rfl)
            · exact .loads hphase (.inr rfl)
      · next hphase => exact .loadsOutput hphase
      · exact .stays _
  | compactLoad job ok =>
      refine ⟨job, ?_⟩
      simp only [step]
      split
      · next hphase =>
          split
          · exact .returns (.inl hphase)
          · split
            · exact .returns (.inl hphase)
            · exact .compacts hphase
      · exact .stays _
  | compactSave job ok =>
      refine ⟨job, ?_⟩
      simp only [step]
      split
      · next hphase =>
          cases ok with
          | true => exact .summarises hphase
          | false => exact .returns (.inr ⟨_, hphase⟩)
      · exact .stays _
  | reload job ok =>
      refine ⟨job, ?_⟩
      simp only [step]
      split
      · next hphase => exact .reloads hphase
      · exact .stays _
  | save job ok =>
      refine ⟨job, ?_⟩
      simp only [step]
      split
      · next writer _ hphase =>
          cases ok with
          | true => exact .saves hphase
          | false =>
              cases writer with
              | turn path messages => exact .fails (by rw [hphase]; rfl)
              | cron output => exact .drops hphase
      · exact .stays _
  | fail job =>
      refine ⟨job, ?_⟩
      simp only [step]
      split
      · next hphase => exact .fails (by rw [hphase]; rfl)
      · exact .stays _

end StoredSession

/-! ### No message is lost -/

/-- The stored session is current, and every turn that returned Ok and every cron output that
returned made one of the saves. -/
structure NothingLost (start : List Message) (s : StoredSession) : Prop where
  stored : Current start s.saves s.stored
  saved : ∀ job writer, s.phase job = .finished (.write writer) true →
    appendsOf job s.saves = [writer.messages]

/-- The condition on a step. The session that a turn or a cron output has loaded is current when
it saves, and a cron output is saved at all; the session that a compaction read, or what it keeps
of it, says what has to be stored when it saves. -/
def Fresh (start : List Message) (s : StoredSession) : SessionStep → Prop
  | .compactSave job ok =>
      match s.phase job with
      | .summarising _ session =>
          ok = true → Owed start s.saves (spoken session) ∨
            Owed start s.saves (spoken (session.drop (compactedCount session)))
      | _ => True
  | .save job ok =>
      match s.phase job with
      | .running writer session =>
          (ok = true → Current start s.saves session) ∧ ∀ output, writer = .cron output → ok = true
      | _ => True
  | _ => True

/-- Nothing is lost, and only a job that returned has appended. -/
structure SessionInvariant (start : List Message) (s : StoredSession) : Prop where
  kept : NothingLost start s
  unsaved : ∀ job, (s.phase job).isFinished = false → appendsOf job s.saves = []

namespace SessionInvariant

variable {start : List Message} {s : StoredSession} {job : Nat}

theorem init (row : Option (List Message)) : SessionInvariant (row.getD []) { row := row } where
  kept :=
    { stored := ⟨rfl, List.suffix_refl _⟩
      saved := by intro job writer h; cases h }
  unsaved := by intro job _; rfl

/-- The lock plays no part. -/
theorem withLock (h : SessionInvariant start s) (lock : Option Nat) :
    SessionInvariant start { s with lock := lock } where
  kept := ⟨h.kept.stored, h.kept.saved⟩
  unsaved := h.unsaved

/-- A job that has not returned goes on. -/
theorem enter (h : SessionInvariant start s) (hjob : (s.phase job).isFinished = false)
    {phase : JobPhase} (hphase : phase.isFinished = false) :
    SessionInvariant start (s.enter job phase) where
  kept :=
    { stored := h.kept.stored
      saved := by
        intro other writer hother
        by_cases heq : other = job
        · subst heq
          rw [StoredSession.enter_phase_self] at hother
          rw [hother] at hphase
          cases hphase
        · rw [StoredSession.enter_phase_of_ne _ _ heq] at hother
          exact h.kept.saved other writer hother }
  unsaved := by
    intro other hother
    by_cases heq : other = job
    · exact heq ▸ h.unsaved job hjob
    · rw [StoredSession.enter_phase_of_ne _ _ heq] at hother
      exact h.unsaved other hother

/-- A job returns that appended nothing: a compaction, or a turn that failed. -/
theorem finish (h : SessionInvariant start s) {work : SessionJob} {ok : Bool}
    (hwork : ∀ writer, work = .write writer → ok = false) :
    SessionInvariant start (s.finish job work ok) where
  kept :=
    { stored := h.kept.stored
      saved := by
        intro other writer hother
        by_cases heq : other = job
        · subst heq
          have hsame : JobPhase.finished work ok = .finished (.write writer) true := by
            rw [← hother]
            exact (s.enter_phase_self other _).symm
          injection hsame with hwriter hok
          rw [hwork writer hwriter] at hok
          cases hok
        · have hkeep : s.phase other = .finished (.write writer) true := by
            rw [← hother]
            exact (s.enter_phase_of_ne _ heq).symm
          exact h.kept.saved other writer hkeep }
  unsaved := by
    intro other hother
    by_cases heq : other = job
    · subst heq
      have hfinished : ((s.finish other work ok).phase other).isFinished = true := by
        simp [StoredSession.finish, JobPhase.isFinished]
      rw [hfinished] at hother
      cases hother
    · have hkeep : (s.phase other).isFinished = false := by
        rw [← hother]
        exact congrArg JobPhase.isFinished (s.enter_phase_of_ne _ heq).symm
      exact h.unsaved other hkeep

theorem compactionReturned (h : SessionInvariant start s)
    (hjob : (s.phase job).isFinished = false) (caller : CompactionCaller) (ok : Bool) :
    SessionInvariant start (s.compactionReturned job caller ok) := by
  cases caller with
  | asked =>
      apply h.finish
      intro writer hwriter
      cases hwriter
  | turn path messages session =>
      cases ok with
      | true => exact h.enter hjob rfl
      | false => exact h.enter hjob rfl

/-- The save of a compaction. -/
theorem summarise (h : SessionInvariant start s) {session taken : List Message}
    (hcurrent : Current start (s.saves ++ [⟨job, .summarise taken⟩]) session) :
    SessionInvariant start (s.write job session (.summarise taken)) where
  kept :=
    { stored := hcurrent
      saved := by
        intro other writer hother
        rw [StoredSession.write, appendsOf_summarise]
        exact h.kept.saved other writer hother }
  unsaved := by
    intro other hother
    rw [StoredSession.write, appendsOf_summarise]
    exact h.unsaved other hother

/-- The save of a turn or of a cron output with a current session. -/
theorem append (h : SessionInvariant start s) (hjob : (s.phase job).isFinished = false)
    (writer : SessionWriter) {session : List Message}
    (hcurrent : Current start s.saves session) :
    SessionInvariant start ((s.write job (session ++ writer.messages)
      (.append writer.messages)).finish job (.write writer) true) where
  kept :=
    { stored := (current_append_iff _ _).mpr hcurrent
      saved := by
        intro other writer' hother
        by_cases heq : other = job
        · subst heq
          have hsame : JobPhase.finished (.write writer) true =
              .finished (.write writer') true := by
            rw [← hother]
            exact (StoredSession.enter_phase_self _ other _).symm
          injection hsame with hwork
          injection hwork with hwriter
          subst hwriter
          calc appendsOf other (s.saves ++ [⟨other, .append writer.messages⟩])
              = appendsOf other s.saves ++ [writer.messages] := appendsOf_append_self _ _ _
            _ = [writer.messages] := by rw [h.unsaved other hjob, List.nil_append]
        · have hkeep : s.phase other = .finished (.write writer') true := by
            rw [← hother]
            exact (StoredSession.enter_phase_of_ne _ _ heq).symm
          exact (appendsOf_append_of_ne _ _ heq).trans (h.kept.saved other writer' hkeep) }
  unsaved := by
    intro other hother
    by_cases heq : other = job
    · subst heq
      simp [StoredSession.finish, JobPhase.isFinished] at hother
    · have hkeep : (s.phase other).isFinished = false := by
        rw [← hother]
        exact congrArg JobPhase.isFinished (StoredSession.enter_phase_of_ne _ _ heq).symm
      exact (appendsOf_append_of_ne _ _ heq).trans (h.unsaved other hkeep)

end SessionInvariant

section Breaks

variable {start : List Message} {s : StoredSession}

end Breaks

/-- The steps of plain turns. -/
def OfPlainTurns : SessionStep → Prop
  | .start _ work => ∃ messages, work = .write (.turn .plain messages)
  | _ => True

/-- What a plain turn has read is current. A turn that is to load its session again goes on with
the one before its compaction when it cannot. -/
def JobPhase.UpToDate (start : List Message) (s : StoredSession) : JobPhase → Prop
  | .idle => True
  | .loading writer => ∃ messages, writer = .turn .plain messages
  | .running writer session =>
      (∃ messages, writer = .turn .plain messages) ∧ Current start s.saves session
  | .compactLoading caller => ∃ messages, caller = .turn .plain messages s.stored
  | .summarising caller session =>
      (∃ messages, caller = .turn .plain messages s.stored) ∧ session = s.stored
  | .reloading path _ session => path = .plain ∧ Current start s.saves session
  | .finished _ _ => True

/-- The turn under way holds the lock, and what it has read is current, as what is stored. -/
structure LockHeld (start : List Message) (s : StoredSession) : Prop where
  holder : ∀ job, (s.phase job).isUnderWay = true → s.lock = some job
  upToDate : ∀ job, (s.phase job).UpToDate start s
  current : Current start s.saves s.stored

theorem JobPhase.upToDate_of_not_underWay {phase : JobPhase} (h : phase.isUnderWay = false)
    (start : List Message) (s : StoredSession) : phase.UpToDate start s := by
  cases phase <;> trivial

namespace LockHeld

variable {start : List Message} {s s' : StoredSession} {job : Nat}

/-- No other job is under way than the one that holds the lock. -/
theorem others (h : LockHeld start s) (hlock : s.lock = none ∨ s.lock = some job) {other : Nat}
    (hne : other ≠ job) : (s.phase other).isUnderWay = false := by
  cases hway : (s.phase other).isUnderWay with
  | false => rfl
  | true =>
      have hother := h.holder other hway
      rcases hlock with hnone | hsome
      · rw [hnone] at hother
        cases hother
      · rw [hsome] at hother
        exact absurd (Option.some.inj hother).symm hne

/-- The job that holds the lock, or takes it, moves on. -/
theorem moved (h : LockHeld start s) (hlock : s.lock = none ∨ s.lock = some job)
    (hothers : ∀ other, other ≠ job → s'.phase other = s.phase other)
    (hself : (s'.phase job).UpToDate start s')
    (hholder : (s'.phase job).isUnderWay = true → s'.lock = some job)
    (hcurrent : Current start s'.saves s'.stored) : LockHeld start s' where
  holder := by
    intro other hway
    by_cases hne : other = job
    · subst hne
      exact hholder hway
    · rw [hothers other hne, h.others hlock hne] at hway
      cases hway
  upToDate := by
    intro other
    by_cases hne : other = job
    · subst hne
      exact hself
    · rw [hothers other hne]
      exact JobPhase.upToDate_of_not_underWay (h.others hlock hne) _ _
  current := hcurrent

/-- The holder of the lock enters a phase. -/
theorem enter (h : LockHeld start s) (hlock : s.lock = some job) {phase : JobPhase}
    (hphase : phase.UpToDate start s) : LockHeld start (s.enter job phase) := by
  refine h.moved (.inr hlock) (fun other hne => s.enter_phase_of_ne phase hne) ?_ (fun _ => hlock)
    h.current
  rw [StoredSession.enter_phase_self]
  cases phase <;> exact hphase

/-- The holder of the lock returns, and what it saved is current. -/
theorem finish (h : LockHeld start s) (hlock : s.lock = some job) (work : SessionJob) (ok : Bool)
    {row : Option (List Message)} {saves : List SessionSave}
    (hcurrent : Current start saves (row.getD [])) :
    LockHeld start ({ s with row := row, saves := saves }.finish job work ok) := by
  have hself : ({ s with row := row, saves := saves }.finish job work ok).phase job =
      .finished work ok := StoredSession.enter_phase_self _ job _
  refine h.moved (.inr hlock) (fun other hne => StoredSession.enter_phase_of_ne _ _ hne) ?_ ?_
    hcurrent
  · rw [hself]
    trivial
  · rw [hself]
    intro hway
    cases hway

theorem compactionReturned (h : LockHeld start s) (hlock : s.lock = some job)
    {caller : CompactionCaller} {messages : List Message}
    (hcaller : caller = .turn .plain messages s.stored) (ok : Bool) :
    LockHeld start (s.compactionReturned job caller ok) := by
  subst hcaller
  cases ok with
  | true => exact h.enter hlock ⟨rfl, h.current⟩
  | false => exact h.enter hlock ⟨⟨messages, rfl⟩, h.current⟩

theorem init (row : Option (List Message)) : LockHeld (row.getD []) { row := row } where
  holder := by intro job hway; cases hway
  upToDate := by intro job; trivial
  current := ⟨rfl, List.suffix_refl _⟩

theorem step (h : LockHeld start s) {e : SessionStep} (he : OfPlainTurns e) :
    LockHeld start (s.step e) := by
  obtain ⟨job, hmoves⟩ := s.moves e
  have hself := h.upToDate job
  have hholds {phase : JobPhase} (hphase : s.phase job = phase) (hway : phase.isUnderWay = true) :
      s.lock = some job := h.holder job (hphase ▸ hway)
  generalize s.step e = s' at hmoves
  cases hmoves with
  | stays => exact h
  | starts hphase hwork hnew =>
      obtain ⟨messages, rfl⟩ := he
      exact absurd rfl (hwork messages)
  | @locks messages hphase hlock =>
      refine h.moved (.inl hlock) (fun other hne => s.enter_phase_of_ne _ hne) ?_ (fun _ => rfl)
        h.current
      have hnew : (s.enter job (.loading (.turn .plain messages))).phase job =
          .loading (.turn .plain messages) := s.enter_phase_self job _
      rw [hnew]
      exact ⟨messages, rfl⟩
  | loads hphase hnext =>
      rw [hphase] at hself
      obtain ⟨messages, hwriter⟩ := hself
      cases hwriter
      refine h.enter (hholds hphase rfl) ?_
      rcases hnext with rfl | rfl
      · exact ⟨_, rfl⟩
      · exact ⟨⟨_, rfl⟩, h.current⟩
  | loadsOutput hphase =>
      rw [hphase] at hself
      obtain ⟨messages, hwriter⟩ := hself
      cases hwriter
  | compacts hphase =>
      rw [hphase] at hself
      exact h.enter (hholds hphase rfl) ⟨hself, rfl⟩
  | returns hphase =>
      rcases hphase with hphase | ⟨_, hphase⟩
      · rw [hphase] at hself
        exact h.compactionReturned (hholds hphase rfl) hself.choose_spec _
      · rw [hphase] at hself
        exact h.compactionReturned (hholds hphase rfl) hself.1.choose_spec _
  | summarises hphase =>
      rw [hphase] at hself
      obtain ⟨⟨messages, rfl⟩, rfl⟩ := hself
      -- the turn still has the session that was summarised
      have hkept : Current start (s.saves ++
          [⟨job, .summarise (s.stored.take (compactedCount s.stored))⟩])
          (compactedSession s.stored) := (current_summarise_iff _ _).mpr (.inl h.current.said)
      refine h.moved (.inr (hholds hphase rfl))
        (fun other hne => StoredSession.enter_phase_of_ne _ _ hne) ?_
        (fun _ => hholds hphase rfl) hkept
      rw [StoredSession.compactionReturned, if_pos rfl, StoredSession.enter_phase_self]
      exact ⟨rfl, h.current.brought_back⟩
  | @reloads _ messages _ _ hphase =>
      rw [hphase] at hself
      obtain ⟨rfl, hsession⟩ := hself
      refine h.enter (hholds hphase rfl) ⟨⟨messages, rfl⟩, ?_⟩
      split
      · have hstored := h.current
        unfold StoredSession.stored at hstored
        cases hrow : s.row with
        | none => exact hsession
        | some row =>
            rw [hrow] at hstored
            exact hstored
      · exact hsession
  | saves hphase =>
      rw [hphase] at hself
      exact h.finish (hholds hphase rfl) _ _ ((current_append_iff _ _).mpr hself.2)
  | drops hphase =>
      rw [hphase] at hself
      obtain ⟨⟨messages, hwriter⟩, -⟩ := hself
      cases hwriter
  | fails hway => exact h.finish (h.holder job hway) _ _ h.current

/-- What the holder of the lock saves is current. -/
theorem fresh (h : LockHeld start s) (e : SessionStep) : Fresh start s e := by
  cases e with
  | compactSave job ok =>
      have hself := h.upToDate job
      cases hphase : s.phase job with
      | summarising caller session =>
          rw [hphase] at hself
          obtain ⟨-, rfl⟩ := hself
          simp only [Fresh, hphase]
          exact fun _ => .inl h.current.said
      | _ => simp only [Fresh, hphase]
  | save job ok =>
      have hself := h.upToDate job
      cases hphase : s.phase job with
      | running writer session =>
          rw [hphase] at hself
          obtain ⟨⟨messages, rfl⟩, hsession⟩ := hself
          simp only [Fresh, hphase]
          refine ⟨fun _ => hsession, fun output houtput => ?_⟩
          cases houtput
      | _ => simp only [Fresh, hphase]
  | start job work => trivial
  | load job ok large => trivial
  | compactLoad job ok => trivial
  | reload job ok => trivial
  | fail job => trivial

end LockHeld

/-- Every job that was started returned Ok. -/
def StoredSession.Settled (s : StoredSession) : Prop :=
  ∀ job, s.phase job = .idle ∨ ∃ work, s.phase job = .finished work true

end ArmaraOS.Kernel
