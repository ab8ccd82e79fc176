import ArmaraOS.Lib.Machine
import ArmaraOS.Lib.Table
import ArmaraOS.Types.Scheduler
import Mathlib.Data.List.Sort

/-!
The cron scheduler (`openfang-kernel/src/cron.rs`).

The jobs are a table by id. An operation takes the times that its reads of the clock return:
one for each read of the source, and where the source reads the clock once for every entry of
a loop, a function of the entry. Parsing a cron expression or a time zone and finding the next
time of an expression are the parameters `CronLibrary`; the file of `persist` and `load` holds
the entries of the table.
-/

namespace ArmaraOS.Kernel

open ArmaraOS.Lib ArmaraOS.Text

/-- `MAX_CONSECUTIVE_ERRORS`. -/
def maxConsecutiveErrors : Nat := 5

/-- The library functions that the scheduler calls, and the times at which a parsed expression
fires in a zone. -/
structure CronLibrary (Expr Zone : Type) extends JobText where
  /-- `str::parse::<cron::Schedule>`. -/
  parseExpr : String → Option Expr
  /-- `str::parse::<chrono_tz::Tz>`. -/
  parseZone : String → Option Zone
  /-- The zone `Utc`. -/
  utc : Zone
  /-- `Schedule::after(base).next()`, with the base in a zone. -/
  next : Expr → Zone → Int → Option Int
  /-- The times that match an expression in a zone. -/
  Fires : Expr → Zone → Int → Prop
  /-- `{:?}` of an optional string. -/
  debugText : Option String → String
  /-- `DateTime::to_rfc3339`. -/
  rfc3339 : Int → String

/-- `after(base).next()` is a time of the expression from the base on, and it is only `None`
when none is left. -/
def CronLibrary.NextFires {Expr Zone : Type} (lib : CronLibrary Expr Zone) : Prop :=
  ∀ expr zone base,
    (∀ u, lib.next expr zone base = some u → base ≤ u ∧ lib.Fires expr zone u) ∧
      (lib.next expr zone base = none → ∀ u, lib.Fires expr zone u → u ≤ base)

/-- `OpenFangError`, the two kinds that the scheduler returns. -/
inductive CronError where
  | internal (message : String)
  | invalidInput (message : String)

/-- `ClaimError`. -/
inductive ClaimError where
  | notFound
  | disabled
deriving DecidableEq

/-- `JobMeta`. -/
structure JobMeta where
  job : CronJob
  oneShot : Bool
  lastStatus : Option String
  consecutiveErrors : Nat

namespace JobMeta

/-- The key of an entry. -/
def key (entry : JobMeta) : Nat := entry.job.id

/-- `JobMeta::new`. -/
def new (job : CronJob) (oneShot : Bool) : JobMeta :=
  { job := job, oneShot := oneShot, lastStatus := none, consecutiveErrors := 0 }

/-- The last run failed because the agent did not exist. -/
def lostAgent (entry : JobMeta) : Bool :=
  entry.lastStatus.any fun s => contains s "not found" || contains s "No such agent"

end JobMeta

/-- `CronScheduler`, without the path of its file. -/
structure CronScheduler where
  jobs : Table JobMeta.key
  maxTotalJobs : Nat

section Library

variable {Expr Zone : Type} (lib : CronLibrary Expr Zone)

/-! ### The next run -/

/-- The seven fields that the `cron` crate reads. -/
def sevenField (expr : String) : String :=
  let trimmed := trim expr
  match (splitWhitespace trimmed).length with
  | 5 => "0 " ++ trimmed ++ " *"
  | 6 => trimmed ++ " *"
  | _ => expr

/-- The zone in which an expression is read: UTC when none is given or the name is unknown. -/
def scheduleZone (tz : Option String) : Zone :=
  match tz with
  | some name =>
      if name.isEmpty || name == "UTC" then lib.utc else (lib.parseZone name).getD lib.utc
  | none => lib.utc

/-- `compute_next_run_after`. -/
def computeNextRunAfter (schedule : CronSchedule) (after : Int) : Int :=
  match schedule with
  | .at time => time
  | .every everySecs => after + seconds everySecs
  | .cron expr tz =>
      let base := after + seconds 1
      match lib.parseExpr (sevenField expr) with
      | some parsed =>
          (lib.next parsed (scheduleZone lib tz) base).getD (after + seconds 3600)
      | none => after + seconds 3600

/-- `next_run` set for a run after `now`. -/
def JobMeta.advance (entry : JobMeta) (now : Int) : JobMeta :=
  { entry with
    job := { entry.job with nextRun := some (computeNextRunAfter lib entry.job.schedule now) } }

/-- `next_run` is at or before `now`. -/
def JobMeta.isDue (entry : JobMeta) (now : Int) : Bool := entry.job.nextRun.any (· ≤ now)

namespace CronScheduler

/-- `CronScheduler::new`. -/
def new (maxTotalJobs : Nat) : CronScheduler := ⟨.empty, maxTotalJobs⟩

/-- `load`, with the entries of the file. -/
def load (s : CronScheduler) (metas : List JobMeta) : CronScheduler :=
  { s with jobs := metas.foldl Table.insert s.jobs }

/-- `set_max_total_jobs`. -/
def setMaxTotalJobs (s : CronScheduler) (newMax : Nat) : CronScheduler :=
  { s with maxTotalJobs := newMax }

/-- The number of jobs of an agent. -/
def agentCount (s : CronScheduler) (agentId : Nat) : Nat :=
  s.jobs.count fun entry => entry.job.agentId == agentId

/-- The error of an unknown id. -/
def notFound (id : Nat) : CronError := .internal s!"Cron job {id} not found"

/-! ### Jobs in and out -/

/-- `add_job`. -/
def addJob (s : CronScheduler) (job : CronJob) (oneShot : Bool) (validNow nextNow : Int) :
    CronScheduler × Except CronError Nat :=
  if s.maxTotalJobs ≤ s.jobs.size then
    (s, .error (.internal s!"Global cron job limit reached ({s.maxTotalJobs})"))
  else
    match job.validate lib.toJobText (s.agentCount job.agentId) validNow with
    | .error message => (s, .error (.invalidInput message))
    | .ok () =>
        let job := { job with nextRun := some (computeNextRunAfter lib job.schedule nextNow) }
        ({ s with jobs := s.jobs.insert (.new job oneShot) }, .ok job.id)

/-- `remove_job`. -/
def removeJob (s : CronScheduler) (id : Nat) : CronScheduler × Except CronError CronJob :=
  match s.jobs.find id with
  | some entry => ({ s with jobs := s.jobs.erase id }, .ok entry.job)
  | none => (s, .error (notFound id))

/-- The job that `update_job` stores. -/
def updatedJob (id : Nat) (old : CronJob) (job : CronJob) : CronJob :=
  { job with id := id, createdAt := old.createdAt, lastRun := old.lastRun }

/-- `update_job`. -/
def updateJob (s : CronScheduler) (id : Nat) (job : CronJob) (validNow nextNow : Int) :
    CronScheduler × Except CronError Unit :=
  match s.jobs.find id with
  | none => (s, .error (notFound id))
  | some old =>
      let job := updatedJob id old.job job
      let others := s.jobs.count fun entry => entry.job.agentId == job.agentId && entry.key != id
      match job.validate lib.toJobText others validNow with
      | .error message => (s, .error (.invalidInput message))
      | .ok () =>
          let job := { job with nextRun := some (computeNextRunAfter lib job.schedule nextNow) }
          ({ s with
              jobs := s.jobs.modify id
                (fun entry =>
                  { entry with job := job, oneShot := old.oneShot, consecutiveErrors := 0 })
                fun _ _ => rfl },
            .ok ())

/-- The entry that `set_enabled` leaves. -/
def enabledEntry (enabled : Bool) (now : Int) (entry : JobMeta) : JobMeta :=
  let entry := { entry with job := { entry.job with enabled := enabled } }
  if enabled then { entry with consecutiveErrors := 0 }.advance lib now else entry

/-- `set_enabled`. -/
def setEnabled (s : CronScheduler) (id : Nat) (enabled : Bool) (now : Int) :
    CronScheduler × Except CronError Unit :=
  match s.jobs.find id with
  | none => (s, .error (notFound id))
  | some _ =>
      ({ s with
          jobs := s.jobs.modify id (enabledEntry lib enabled now) fun entry hkey => by
            cases enabled <;> exact hkey },
        .ok ())

/-- `get_job`. -/
def getJob (s : CronScheduler) (id : Nat) : Option CronJob := (s.jobs.find id).map (·.job)

/-- The entry that `reassign_jobs_from_missing_agents` leaves of one whose agent is missing. -/
def rescuedEntry (fallback : Nat) (now : Int) (entry : JobMeta) : JobMeta :=
  let moved : JobMeta :=
    { entry with job := { entry.job with agentId := fallback }, consecutiveErrors := 0 }
  let moved := moved.advance lib now
  if !entry.job.enabled && entry.lostAgent then
    { moved with job := { moved.job with enabled := true } }
  else moved

theorem rescuedEntry_key (fallback : Nat) (now : Int) (entry : JobMeta) :
    (rescuedEntry lib fallback now entry).key = entry.key := by
  simp only [rescuedEntry]
  split <;> rfl

/-- `reassign_jobs_from_missing_agents`. -/
def reassignJobsFromMissingAgents (s : CronScheduler) (alive : List Nat) (fallback : Nat)
    (now : Nat → Int) : CronScheduler × Nat :=
  if alive.contains fallback then
    ({ s with
        jobs := s.jobs.map
          (fun entry =>
            if alive.contains entry.job.agentId then entry
            else rescuedEntry lib fallback (now entry.key) entry)
          fun entry => by
            split
            · rfl
            · exact rescuedEntry_key lib fallback _ entry },
      s.jobs.count fun entry => !alive.contains entry.job.agentId)
  else (s, 0)

/-- The ids that share their label with a smaller one: of each group all but the first, by
id. -/
def duplicateIds {L : Type} [DecidableEq L] (label : JobMeta → Option L) (s : CronScheduler) :
    List Nat :=
  (s.jobs.entries.filterMap label).dedup.flatMap fun l =>
    (((s.jobs.entries.filter fun entry => label entry == some l).map JobMeta.key).insertionSort
      (· ≤ ·)).tail

/-- The duplicates removed, and how many there were. -/
def dedupe {L : Type} [DecidableEq L] (label : JobMeta → Option L) (s : CronScheduler) :
    CronScheduler × Nat :=
  let ids := duplicateIds label s
  ({ s with jobs := s.jobs.filter fun entry => !ids.contains entry.key }, ids.length)

/-- `dedupe_jobs_by_name`. -/
def dedupeJobsByName (s : CronScheduler) : CronScheduler × Nat :=
  dedupe (fun entry => some entry.job.name) s

/-- `{:?}` of an optional number. -/
def debugNumber : Option Nat → String
  | some n => s!"Some({n})"
  | none => "None"

/-- `bucket`, the signature of an `AinlRun` job. -/
def bucket (entry : JobMeta) : Option (Nat × String) :=
  match entry.job.action with
  | .ainlRun programPath cwd ainlBinary timeoutSecs jsonOutput frame =>
      let sched := match entry.job.schedule with
        | .cron expr tz => s!"c:{expr}:{lib.debugText tz}"
        | .every everySecs => s!"e:{everySecs}"
        | .at time => s!"a:{lib.rfc3339 time}"
      let frameText := (frame.map lib.jsonText).getD ""
      some (entry.job.agentId,
        s!"{sched}|{programPath}|{lib.debugText cwd}|{lib.debugText ainlBinary}|" ++
          s!"{debugNumber timeoutSecs}|{jsonOutput}|{frameText}")
  | _ => none

/-- `dedupe_ainl_run_jobs_same_signature`. -/
def dedupeAinlRunJobsSameSignature (s : CronScheduler) : CronScheduler × Nat :=
  dedupe (bucket lib) s

/-- A bundled job that is not in the catalog. -/
def isDiscontinued (curatedNames : List String) (entry : JobMeta) : Bool :=
  (entry.job.action matches .ainlRun ..) &&
    (startsWith entry.job.name "armaraos-" || startsWith entry.job.name "ainl-upstream-") &&
    !curatedNames.contains entry.job.name

/-- The entries that pass a test removed, and how many there were. -/
def removeWhere (p : JobMeta → Bool) (s : CronScheduler) : CronScheduler × Nat :=
  ({ s with jobs := s.jobs.filter fun entry => !p entry }, s.jobs.count p)

/-- `remove_discontinued_curated_ainl_jobs`. -/
def removeDiscontinuedCuratedAinlJobs (s : CronScheduler) (curatedNames : List String) :
    CronScheduler × Nat :=
  removeWhere (isDiscontinued curatedNames) s

/-- The entry that `reassign_agent_jobs` leaves of one of the old agent. -/
def reassignedEntry (newAgentId : Nat) (now : Int) (entry : JobMeta) : JobMeta :=
  let moved : JobMeta :=
    { entry with job := { entry.job with agentId := newAgentId }, consecutiveErrors := 0 }
  if !entry.job.enabled && entry.lostAgent then
    { moved with job := { moved.job with enabled := true } }.advance lib now
  else moved

theorem reassignedEntry_key (newAgentId : Nat) (now : Int) (entry : JobMeta) :
    (reassignedEntry lib newAgentId now entry).key = entry.key := by
  simp only [reassignedEntry]
  split <;> rfl

/-- `reassign_agent_jobs`. -/
def reassignAgentJobs (s : CronScheduler) (oldAgentId newAgentId : Nat) (now : Nat → Int) :
    CronScheduler × Nat :=
  ({ s with
      jobs := s.jobs.map
        (fun entry =>
          if entry.job.agentId == oldAgentId then
            reassignedEntry lib newAgentId (now entry.key) entry
          else entry)
        fun entry => by
          split
          · exact reassignedEntry_key lib newAgentId _ entry
          · rfl },
    s.jobs.count fun entry => entry.job.agentId == oldAgentId)

/-- `remove_agent_jobs`. -/
def removeAgentJobs (s : CronScheduler) (agentId : Nat) : CronScheduler × Nat :=
  removeWhere (fun entry => entry.job.agentId == agentId) s

/-! ### Ticks and outcomes -/

/-- The entry that a tick hands out. -/
def isReady (now : Int) (entry : JobMeta) : Bool := entry.job.enabled && entry.isDue now

/-- `due_jobs`. -/
def dueJobs (s : CronScheduler) (now : Int) : CronScheduler × List CronJob :=
  ({ s with
      jobs := s.jobs.map (fun entry => if isReady now entry then entry.advance lib now else entry)
        fun entry => by
          split <;> rfl },
    (s.jobs.entries.filter (isReady now)).map (·.job))

/-- The entry that `try_claim_for_run` leaves. -/
def claimedEntry (now : Int) (entry : JobMeta) : JobMeta :=
  if entry.isDue now then entry.advance lib now else entry

theorem claimedEntry_key (now : Int) (entry : JobMeta) :
    (claimedEntry lib now entry).key = entry.key := by
  unfold claimedEntry
  split <;> rfl

/-- `try_claim_for_run`. -/
def tryClaimForRun (s : CronScheduler) (id : Nat) (now : Int) :
    CronScheduler × Except ClaimError CronJob :=
  match s.jobs.find id with
  | none => (s, .error .notFound)
  | some entry =>
      if entry.job.enabled then
        ({ s with
            jobs := s.jobs.modify id (claimedEntry lib now) fun entry hkey =>
              (claimedEntry_key lib now entry).trans hkey },
          .ok (claimedEntry lib now entry).job)
      else (s, .error .disabled)

/-- `record_success`. -/
def recordSuccess (s : CronScheduler) (id : Nat) (now : Int) : CronScheduler :=
  match s.jobs.find id with
  | none => s
  | some entry =>
      if entry.oneShot then { s with jobs := s.jobs.erase id }
      else
        { s with
          jobs := s.jobs.modify id
            (fun entry =>
              { entry with
                job := { entry.job with lastRun := some now }
                lastStatus := some "ok"
                consecutiveErrors := 0 })
            fun _ hkey => hkey }

/-- The entry that `record_failure` leaves. -/
def failedEntry (errorMsg : String) (lastNow now : Int) (entry : JobMeta) : JobMeta :=
  let failed : JobMeta :=
    { entry with
      job := { entry.job with lastRun := some lastNow }
      lastStatus := some s!"error: {truncateStr errorMsg 256}"
      consecutiveErrors := (entry.consecutiveErrors + 1) % 2 ^ 32 }
  if maxConsecutiveErrors ≤ failed.consecutiveErrors then
    { failed with job := { failed.job with enabled := false } }
  else if entry.job.nextRun.all (· ≤ now) then failed.advance lib now
  else failed

theorem failedEntry_key (errorMsg : String) (lastNow now : Int) (entry : JobMeta) :
    (failedEntry lib errorMsg lastNow now entry).key = entry.key := by
  simp only [failedEntry]
  split
  · rfl
  · split <;> rfl

/-- `record_failure`. -/
def recordFailure (s : CronScheduler) (id : Nat) (errorMsg : String) (lastNow now : Int) :
    CronScheduler :=
  { s with
    jobs := s.jobs.modify id (failedEntry lib errorMsg lastNow now) fun entry hkey =>
      (failedEntry_key lib errorMsg lastNow now entry).trans hkey }

end CronScheduler

/-! ### Operations -/

/-- The calls that change the jobs. -/
inductive CronOp where
  | addJob (job : CronJob) (oneShot : Bool) (validNow nextNow : Int)
  | updateJob (id : Nat) (job : CronJob) (validNow nextNow : Int)
  | removeJob (id : Nat)
  | setEnabled (id : Nat) (enabled : Bool) (now : Int)
  | reassignAgentJobs (oldAgentId newAgentId : Nat) (now : Nat → Int)
  | reassignJobsFromMissingAgents (alive : List Nat) (fallback : Nat) (now : Nat → Int)
  | dedupeJobsByName
  | dedupeAinlRunJobsSameSignature
  | removeDiscontinuedCuratedAinlJobs (curatedNames : List String)
  | removeAgentJobs (agentId : Nat)
  | dueJobs (now : Int)
  | tryClaimForRun (id : Nat) (now : Int)
  | recordSuccess (id : Nat) (now : Int)
  | recordFailure (id : Nat) (errorMsg : String) (lastNow now : Int)

/-- The scheduler after a call. -/
def cronStep (s : CronScheduler) : CronOp → CronScheduler
  | .addJob job oneShot validNow nextNow => (s.addJob lib job oneShot validNow nextNow).1
  | .updateJob id job validNow nextNow => (s.updateJob lib id job validNow nextNow).1
  | .removeJob id => (s.removeJob id).1
  | .setEnabled id enabled now => (s.setEnabled lib id enabled now).1
  | .reassignAgentJobs oldAgentId newAgentId now =>
      (s.reassignAgentJobs lib oldAgentId newAgentId now).1
  | .reassignJobsFromMissingAgents alive fallback now =>
      (s.reassignJobsFromMissingAgents lib alive fallback now).1
  | .dedupeJobsByName => s.dedupeJobsByName.1
  | .dedupeAinlRunJobsSameSignature => (s.dedupeAinlRunJobsSameSignature lib).1
  | .removeDiscontinuedCuratedAinlJobs curatedNames =>
      (s.removeDiscontinuedCuratedAinlJobs curatedNames).1
  | .removeAgentJobs agentId => (s.removeAgentJobs agentId).1
  | .dueJobs now => (s.dueJobs lib now).1
  | .tryClaimForRun id now => (s.tryClaimForRun lib id now).1
  | .recordSuccess id now => s.recordSuccess id now
  | .recordFailure id errorMsg lastNow now => s.recordFailure lib id errorMsg lastNow now

end Library

/-! ### A library for examples -/

/-- One minute. -/
def minute : Int := seconds 60

/-- The library functions on ASCII names, UTC and the expression that fires every minute. -/
def minutely : CronLibrary Unit Unit where
  isAlphanumeric := Char.isAlphanum
  jsonText _ := "{}"
  parseExpr expr := if expr = "0 * * * * * *" then some () else none
  parseZone name := if name = "Etc/UTC" then some () else none
  utc := ()
  next _ _ base := some ((base / minute + 1) * minute)
  Fires _ _ time := ∃ k : Int, time = k * minute
  debugText
    | some text => "Some(\"" ++ text ++ "\")"
    | none => "None"
  rfc3339 time := toString time

/-- A job that publishes an event. -/
def eventJob (id agentId : Nat) (schedule : CronSchedule) : CronJob where
  id := id
  agentId := agentId
  name := "report"
  enabled := true
  schedule := schedule
  action := .systemEvent "report"
  delivery := .none
  createdAt := 0
  lastRun := none
  nextRun := none

end ArmaraOS.Kernel
