import ArmaraOS.Lib.Text
import ArmaraOS.Types.Json

/-!
Scheduled jobs (`openfang-types/src/scheduler.rs`).

A time is a number of nanoseconds since the epoch. Which characters are alphanumeric and how
a JSON value is written are the parameters `JobText`.
-/

namespace ArmaraOS

open ArmaraOS.Text

/-- The library functions that validation of a job reads. -/
structure JobText where
  /-- `char::is_alphanumeric`. -/
  isAlphanumeric : Char → Bool
  /-- `serde_json::to_string`, and `Value::to_string`. -/
  jsonText : Json → String

/-- `Duration::seconds`. -/
def seconds (n : Nat) : Int := n * 1000000000

/-- `MAX_JOBS_PER_AGENT`. -/
def maxJobsPerAgent : Nat := 50

/-- `MAX_NAME_LEN`. -/
def maxNameLen : Nat := 128

/-- `MIN_EVERY_SECS`. -/
def minEverySecs : Nat := 60

/-- `MAX_EVERY_SECS`. -/
def maxEverySecs : Nat := 86400

/-- `MAX_AT_HORIZON_SECS`. -/
def maxAtHorizonSecs : Nat := 365 * 24 * 3600

/-- `MAX_EVENT_TEXT_LEN`. -/
def maxEventTextLen : Nat := 4096

/-- `MAX_TURN_MESSAGE_LEN`. -/
def maxTurnMessageLen : Nat := 16384

/-- `MIN_TIMEOUT_SECS`. -/
def minTimeoutSecs : Nat := 10

/-- `MAX_TIMEOUT_SECS`. -/
def maxTimeoutSecs : Nat := 600

/-- `MAX_WEBHOOK_URL_LEN`. -/
def maxWebhookUrlLen : Nat := 2048

/-- `CronSchedule`. -/
inductive CronSchedule where
  | at (time : Int)
  | every (everySecs : Nat)
  | cron (expr : String) (tz : Option String)
deriving DecidableEq

/-- `CronAction`. -/
inductive CronAction where
  | systemEvent (text : String)
  | agentTurn (message : String) (modelOverride : Option String) (timeoutSecs : Option Nat)
  | workflowRun (workflowId : String) (input : Option String) (timeoutSecs : Option Nat)
  | ainlRun (programPath : String) (cwd ainlBinary : Option String) (timeoutSecs : Option Nat)
      (jsonOutput : Bool) (frame : Option Json)
  | workspaceAction (actionName : String) (args : List String) (env : List (String × String))
      (mode : Option String) (timeoutSecs : Option Nat)
deriving DecidableEq

/-- `CronDelivery`. -/
inductive CronDelivery where
  | none
  | channel (channel recipient : String)
  | lastChannel
  | webhook (url : String)
deriving DecidableEq

/-- `CronJob`. -/
structure CronJob where
  id : Nat
  agentId : Nat
  name : String
  enabled : Bool
  schedule : CronSchedule
  action : CronAction
  delivery : CronDelivery
  createdAt : Int
  lastRun : Option Int
  nextRun : Option Int
deriving DecidableEq

/-- An error unless the condition holds. -/
def ensure (cond : Bool) (error : String) : Except String Unit :=
  if cond then .ok () else .error error

/-- A check that passes only runs the rest. -/
theorem bind_eq_ok {α : Type} {x : Except String Unit} {f : Unit → Except String α} {a : α} :
    (x >>= f) = .ok a ↔ x = .ok () ∧ f () = .ok a := by
  cases x <;> simp [bind, Except.bind]

@[simp] theorem ensure_eq_ok {cond : Bool} {error : String} :
    ensure cond error = .ok () ↔ cond = true := by
  cases cond <;> simp [ensure]

/-- The two bounds on `timeout_secs`, where one is set. -/
def validateTimeout (max : Nat) : Option Nat → Except String Unit
  | none => .ok ()
  | some t => do
      ensure (minTimeoutSecs ≤ t) s!"timeout_secs too small ({t}, min {minTimeoutSecs})"
      ensure (t ≤ max) s!"timeout_secs too large ({t}, max {max})"

/-- `validate_cron_expr`. -/
def validateCronExpr (expr : String) : Except String Unit := do
  let trimmed := trim expr
  ensure (!trimmed.isEmpty) "cron expression must not be empty"
  let fields := splitWhitespace trimmed
  ensure (fields.length == 5)
    ("cron expression must have exactly 5 fields " ++ s!"(got {fields.length}): \"{trimmed}\"")
  for (field, i) in fields.zipIdx do
    ensure (!field.isEmpty) s!"cron field {i} is empty"
    ensure
      (field.toList.all fun c =>
        c.isDigit || c == '*' || c == '/' || c == '-' || c == ',' || c == '?')
      s!"cron field {i} contains invalid characters: \"{field}\""

namespace CronJob

/-- The part of `validate` that is about the name. -/
def validateName (lib : JobText) (job : CronJob) : Except String Unit := do
  ensure (!job.name.isEmpty) "name must not be empty"
  let length := byteLength job.name.toList
  ensure (length ≤ maxNameLen) s!"name too long ({length} chars, max {maxNameLen})"
  ensure (job.name.toList.all fun c => lib.isAlphanumeric c || c == ' ' || c == '-' || c == '_')
    ("name may only contain alphanumeric characters, " ++ "spaces, hyphens, and underscores")

/-- `validate_schedule`; `now` is the time it reads. -/
def validateSchedule (job : CronJob) (now : Int) : Except String Unit :=
  match job.schedule with
  | .every everySecs => do
      ensure (minEverySecs ≤ everySecs) s!"every_secs too small ({everySecs}, min {minEverySecs})"
      ensure (everySecs ≤ maxEverySecs) s!"every_secs too large ({everySecs}, max {maxEverySecs})"
  | .at time => do
      ensure (now < time) "scheduled time must be in the future"
      ensure ((time - now).tdiv (seconds 1) ≤ maxAtHorizonSecs)
        ("scheduled time too far in the future " ++ s!"(max {maxAtHorizonSecs}s / ~1 year)")
  | .cron expr _ => validateCronExpr expr

/-- `validate_action`. -/
def validateAction (lib : JobText) (job : CronJob) : Except String Unit :=
  match job.action with
  | .systemEvent text => do
      let length := byteLength text.toList
      ensure (!text.isEmpty) "system event text must not be empty"
      ensure (length ≤ maxEventTextLen)
        s!"system event text too long ({length} chars, max {maxEventTextLen})"
  | .agentTurn message _ timeoutSecs => do
      let length := byteLength message.toList
      ensure (!message.isEmpty) "agent turn message must not be empty"
      ensure (length ≤ maxTurnMessageLen)
        s!"agent turn message too long ({length} chars, max {maxTurnMessageLen})"
      validateTimeout maxTimeoutSecs timeoutSecs
  | .workflowRun workflowId input timeoutSecs => do
      ensure (!workflowId.isEmpty) "workflow_id must not be empty"
      if let some i := input then
        let length := byteLength i.toList
        ensure (length ≤ maxTurnMessageLen)
          s!"workflow input too long ({length} chars, max {maxTurnMessageLen})"
      validateTimeout 3600 timeoutSecs
  | .ainlRun programPath _ _ timeoutSecs _ frame => do
      ensure (!programPath.isEmpty) "ainl program_path must not be empty"
      ensure (byteLength programPath.toList ≤ 4096) "ainl program_path too long"
      validateTimeout 3600 timeoutSecs
      if let some f := frame then
        ensure (f matches .obj _) "ainl frame must be a JSON object when set"
        let n := byteLength (lib.jsonText f).toList
        ensure (n ≤ 256 * 1024) s!"ainl frame JSON too large ({n} bytes, max {256 * 1024})"
  | .workspaceAction actionName _ _ mode timeoutSecs => do
      ensure (!(trim actionName).isEmpty) "workspace action_name must not be empty"
      ensure (byteLength actionName.toList ≤ 128) "workspace action_name too long (max 128 chars)"
      if let some m := mode then
        let m := toAsciiLowercase (trim m)
        ensure (m == "oneshot" || m == "daemon") "workspace action mode must be oneshot or daemon"
      validateTimeout 3600 timeoutSecs

/-- `validate_delivery`. -/
def validateDelivery (job : CronJob) : Except String Unit :=
  match job.delivery with
  | .channel channel recipient => do
      ensure (!channel.isEmpty) "delivery channel must not be empty"
      ensure (!recipient.isEmpty) "delivery recipient must not be empty"
  | .webhook url => do
      let length := byteLength url.toList
      ensure (startsWith url "http://" || startsWith url "https://")
        "webhook URL must start with http:// or https://"
      ensure (length ≤ maxWebhookUrlLen)
        s!"webhook URL too long ({length} chars, max {maxWebhookUrlLen})"
  | .none | .lastChannel => .ok ()

/-- `CronJob::validate`; `existingCount` counts the other jobs of the agent. -/
def validate (lib : JobText) (job : CronJob) (existingCount : Nat) (now : Int) :
    Except String Unit := do
  ensure (existingCount < maxJobsPerAgent)
    s!"agent already has {existingCount} jobs (max {maxJobsPerAgent})"
  job.validateName lib
  job.validateSchedule now
  job.validateAction lib
  job.validateDelivery

/-- What an accepted job guarantees to the scheduler. -/
theorem validate_ok {lib : JobText} {job : CronJob} {existingCount : Nat} {now : Int}
    (h : job.validate lib existingCount now = .ok ()) :
    existingCount < maxJobsPerAgent ∧ job.validateSchedule now = .ok () := by
  obtain ⟨hcount, h⟩ := bind_eq_ok.mp h
  obtain ⟨-, h⟩ := bind_eq_ok.mp h
  obtain ⟨hschedule, -⟩ := bind_eq_ok.mp h
  exact ⟨by simpa using hcount, hschedule⟩

theorem minEverySecs_le_of_validateSchedule {job : CronJob} {now : Int} {everySecs : Nat}
    (h : job.validateSchedule now = .ok ()) (hevery : job.schedule = .every everySecs) :
    minEverySecs ≤ everySecs := by
  rw [validateSchedule, hevery] at h
  obtain ⟨hmin, -⟩ := bind_eq_ok.mp h
  simpa using hmin

end CronJob

end ArmaraOS
