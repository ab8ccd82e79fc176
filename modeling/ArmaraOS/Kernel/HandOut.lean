import ArmaraOS.Kernel.CronScheduler
import Mathlib.Algebra.Order.Ring.Nat

/-!
How often a job is handed out.

A tick or a claim that finds a job due sets its next run at once, and the job is handed out
again from that time on. After a hand-out at `t₁` the next run of an `Every` job is a later
scheduled time, and so is that of a `Cron` job which still has one. The next run of an `At`
job stays the time that has passed, and an expression without a time left runs every hour.
-/

namespace ArmaraOS.Kernel

open ArmaraOS.Lib

section Library

variable {Expr Zone : Type} (lib : CronLibrary Expr Zone)

/-! ### What a call does to the entries -/

namespace CronOp

/-- The times that a call reads from the clock. -/
def Reads : CronOp → Int → Prop
  | addJob _ _ validNow nextNow, now => now = validNow ∨ now = nextNow
  | updateJob _ _ validNow nextNow, now => now = validNow ∨ now = nextNow
  | setEnabled _ _ time, now => now = time
  | reassignAgentJobs _ _ clock, now => ∃ id, now = clock id
  | reassignJobsFromMissingAgents _ _ clock, now => ∃ id, now = clock id
  | dueJobs time, now => now = time
  | tryClaimForRun _ time, now => now = time
  | recordSuccess _ time, now => now = time
  | recordFailure _ _ lastNow time, now => now = lastNow ∨ now = time
  | _, _ => False

/-- The call is no record, update or re-enabling of the job. -/
def Spares (id : Nat) : CronOp → Prop
  | addJob job _ _ _ => job.id ≠ id
  | updateJob id' _ _ _ => id' ≠ id
  | setEnabled id' enabled _ => enabled = true → id' ≠ id
  | recordSuccess id' _ => id' ≠ id
  | recordFailure id' _ _ _ => id' ≠ id
  | _ => True

/-- The clock stays between two times during the call. -/
def Within (t₁ t₂ : Int) (op : CronOp) : Prop := ∀ now, op.Reads now → t₁ ≤ now ∧ now ≤ t₂

end CronOp

/-- An entry that a call keeps: its schedule stays, and a new next run is computed for a time
read from the clock. -/
structure Carries (op : CronOp) (entry entry' : JobMeta) : Prop where
  key : entry'.key = entry.key
  schedule : entry'.job.schedule = entry.job.schedule
  nextRun : entry'.job.nextRun = entry.job.nextRun ∨ ∃ now, op.Reads now ∧
    entry'.job.nextRun = some (computeNextRunAfter lib entry.job.schedule now)

/-- An entry that a call stores: its schedule was validated, and its next run is computed. -/
structure Stores (op : CronOp) (entry : JobMeta) : Prop where
  touched : ¬ op.Spares entry.key
  valid : ∃ now, entry.job.validateSchedule now = .ok ()
  nextRun : ∃ now, entry.job.nextRun = some (computeNextRunAfter lib entry.job.schedule now)

variable {lib}

theorem Carries.refl {op : CronOp} (entry : JobMeta) : Carries lib op entry entry :=
  ⟨rfl, rfl, .inl rfl⟩

theorem Carries.advance {op : CronOp} {now : Int} (hreads : op.Reads now) {entry moved : JobMeta}
    (hkey : moved.key = entry.key) (hschedule : moved.job.schedule = entry.job.schedule) :
    Carries lib op entry (moved.advance lib now) :=
  ⟨hkey, hschedule, .inr ⟨now, hreads, by rw [JobMeta.advance, hschedule]⟩⟩

/-- Every entry is one from before, kept. -/
def KeepsEntries (lib : CronLibrary Expr Zone) (op : CronOp) (s s' : CronScheduler) : Prop :=
  ∀ entry' ∈ s'.jobs.entries, ∃ entry ∈ s.jobs.entries, Carries lib op entry entry'

theorem KeepsEntries.refl {op : CronOp} (s : CronScheduler) : KeepsEntries lib op s s :=
  fun entry hentry => ⟨entry, hentry, .refl entry⟩

theorem KeepsEntries.filter {op : CronOp} (s : CronScheduler) (p : JobMeta → Bool) :
    KeepsEntries lib op s { s with jobs := s.jobs.filter p } :=
  fun entry hentry => ⟨entry, (Table.mem_filter.mp hentry).1, .refl entry⟩

theorem KeepsEntries.map {op : CronOp} {s : CronScheduler} {f : JobMeta → JobMeta} {hf}
    (h : ∀ entry, Carries lib op entry (f entry)) :
    KeepsEntries lib op s { s with jobs := s.jobs.map f hf } := by
  intro entry' hentry'
  obtain ⟨entry, hentry, rfl⟩ := (Table.mem_map hf).mp hentry'
  exact ⟨entry, hentry, h entry⟩

theorem KeepsEntries.modify {op : CronOp} {s : CronScheduler} {id : Nat} {f : JobMeta → JobMeta}
    {hf} (h : ∀ entry, Carries lib op entry (f entry)) :
    KeepsEntries lib op s { s with jobs := s.jobs.modify id f hf } := by
  apply KeepsEntries.map
  intro entry
  split
  · exact h entry
  · exact .refl entry

/-- A call that stores no job keeps the entries it does not remove. -/
theorem cronStep_keepsEntries (s : CronScheduler) (op : CronOp)
    (hadd : ∀ job oneShot validNow nextNow, op ≠ .addJob job oneShot validNow nextNow)
    (hupdate : ∀ id job validNow nextNow, op ≠ .updateJob id job validNow nextNow) :
    KeepsEntries lib op s (cronStep lib s op) := by
  cases op with
  | addJob job oneShot validNow nextNow => exact absurd rfl (hadd job oneShot validNow nextNow)
  | updateJob id job validNow nextNow => exact absurd rfl (hupdate id job validNow nextNow)
  | removeJob id =>
      simp only [cronStep, CronScheduler.removeJob]
      split
      · exact .filter s _
      · exact .refl s
  | setEnabled id enabled now =>
      simp only [cronStep, CronScheduler.setEnabled]
      split
      · exact .refl s
      · apply KeepsEntries.modify
        intro entry
        cases enabled with
        | false => exact ⟨rfl, rfl, .inl rfl⟩
        | true =>
            have hreads : (CronOp.setEnabled id true now).Reads now := rfl
            exact .advance hreads rfl rfl
  | reassignAgentJobs oldAgentId newAgentId now =>
      apply KeepsEntries.map
      intro entry
      have hreads : (CronOp.reassignAgentJobs oldAgentId newAgentId now).Reads (now entry.key) :=
        ⟨entry.key, rfl⟩
      split
      · unfold CronScheduler.reassignedEntry
        dsimp only
        split
        · exact .advance hreads rfl rfl
        · exact ⟨rfl, rfl, .inl rfl⟩
      · exact .refl entry
  | reassignJobsFromMissingAgents alive fallback now =>
      simp only [cronStep, CronScheduler.reassignJobsFromMissingAgents]
      split
      · apply KeepsEntries.map
        intro entry
        have hreads : (CronOp.reassignJobsFromMissingAgents alive fallback now).Reads
            (now entry.key) := ⟨entry.key, rfl⟩
        split
        · exact .refl entry
        · unfold CronScheduler.rescuedEntry
          dsimp only
          split
          · exact ⟨rfl, rfl, .inr ⟨_, hreads, rfl⟩⟩
          · exact .advance hreads rfl rfl
      · exact .refl s
  | dedupeJobsByName => exact .filter s _
  | dedupeAinlRunJobsSameSignature => exact .filter s _
  | removeDiscontinuedCuratedAinlJobs curatedNames => exact .filter s _
  | removeAgentJobs agentId => exact .filter s _
  | dueJobs now =>
      apply KeepsEntries.map
      intro entry
      have hreads : (CronOp.dueJobs now).Reads now := rfl
      split
      · exact .advance hreads rfl rfl
      · exact .refl entry
  | tryClaimForRun id now =>
      simp only [cronStep, CronScheduler.tryClaimForRun]
      split
      · exact .refl s
      · split
        · apply KeepsEntries.modify
          intro entry
          have hreads : (CronOp.tryClaimForRun id now).Reads now := rfl
          unfold CronScheduler.claimedEntry
          split
          · exact .advance hreads rfl rfl
          · exact .refl entry
        · exact .refl s
  | recordSuccess id now =>
      simp only [cronStep, CronScheduler.recordSuccess]
      split
      · exact .refl s
      · split
        · exact .filter s _
        · exact KeepsEntries.modify fun entry => ⟨rfl, rfl, .inl rfl⟩
  | recordFailure id errorMsg lastNow now =>
      apply KeepsEntries.modify
      intro entry
      have hreads : (CronOp.recordFailure id errorMsg lastNow now).Reads now := .inr rfl
      simp only [CronScheduler.failedEntry]
      split
      · exact ⟨rfl, rfl, .inl rfl⟩
      · split
        · exact .advance hreads rfl rfl
        · exact ⟨rfl, rfl, .inl rfl⟩

/-- Every entry after a call is one from before, kept, or was stored by the call. -/
theorem cronStep_entry {s : CronScheduler} {op : CronOp} {entry' : JobMeta}
    (h : entry' ∈ (cronStep lib s op).jobs.entries) :
    (∃ entry ∈ s.jobs.entries, Carries lib op entry entry') ∨ Stores lib op entry' := by
  cases op with
  | addJob job oneShot validNow nextNow =>
      simp only [cronStep, CronScheduler.addJob] at h
      split at h
      · exact .inl ⟨entry', h, .refl entry'⟩
      · split at h
        · exact .inl ⟨entry', h, .refl entry'⟩
        · next hvalid =>
            rcases Table.mem_insert.mp h with rfl | ⟨hentry, -⟩
            · exact .inr ⟨fun hspares => hspares rfl,
                ⟨validNow, (CronJob.validate_ok hvalid).2⟩, nextNow, rfl⟩
            · exact .inl ⟨entry', hentry, .refl entry'⟩
  | updateJob id job validNow nextNow =>
      simp only [cronStep, CronScheduler.updateJob] at h
      split at h
      · exact .inl ⟨entry', h, .refl entry'⟩
      · split at h
        · exact .inl ⟨entry', h, .refl entry'⟩
        · next hvalid =>
            obtain ⟨entry, hentry, rfl⟩ := List.mem_map.mp h
            split
            · exact .inr ⟨fun hspares => hspares rfl,
                ⟨validNow, (CronJob.validate_ok hvalid).2⟩, nextNow, rfl⟩
            · exact .inl ⟨entry, hentry, .refl entry⟩
  | _ =>
      refine .inl (cronStep_keepsEntries s _ ?_ ?_ entry' h)
      · intro job oneShot validNow nextNow heq
        cases heq
      · intro id job validNow nextNow heq
        cases heq

/-! ### Reachable schedulers -/

/-- What validation leaves of a stored job: an interval is long enough, and the next run of a
job with a time is this time. -/
structure JobMeta.Planned (entry : JobMeta) : Prop where
  every : ∀ everySecs, entry.job.schedule = .every everySecs → minEverySecs ≤ everySecs
  atTime : ∀ time, entry.job.schedule = .at time → entry.job.nextRun = some time

theorem JobMeta.Planned.carry {op : CronOp} {entry entry' : JobMeta} (h : entry.Planned)
    (hcarries : Carries lib op entry entry') : entry'.Planned where
  every everySecs hevery := h.every everySecs (hcarries.schedule ▸ hevery)
  atTime time htime := by
    have hschedule : entry.job.schedule = .at time := hcarries.schedule ▸ htime
    rcases hcarries.nextRun with hsame | ⟨now, -, hnext⟩
    · rw [hsame]
      exact h.atTime time hschedule
    · rw [hnext, hschedule]
      rfl

theorem Stores.planned {op : CronOp} {entry : JobMeta} (h : Stores lib op entry) :
    entry.Planned where
  every everySecs hevery := by
    obtain ⟨now, hvalid⟩ := h.valid
    exact CronJob.minEverySecs_le_of_validateSchedule hvalid hevery
  atTime time htime := by
    obtain ⟨now, hnext⟩ := h.nextRun
    rw [hnext, htime]
    rfl

variable (lib) in
/-- The schedulers that calls lead to, also across restarts that load the jobs from the file
where they were persisted. -/
inductive Reachable : CronScheduler → Prop
  | new (maxTotalJobs : Nat) : Reachable (.new maxTotalJobs)
  | setMaxTotalJobs {s : CronScheduler} (newMax : Nat) :
      Reachable s → Reachable (s.setMaxTotalJobs newMax)
  | restart {s : CronScheduler} (maxTotalJobs : Nat) {metas : List JobMeta} :
      Reachable s → metas.Perm s.jobs.entries →
        Reachable ((CronScheduler.new maxTotalJobs).load metas)
  | call {s : CronScheduler} (op : CronOp) : Reachable s → Reachable (cronStep lib s op)

theorem mem_load {metas : List JobMeta} {s : CronScheduler} {entry : JobMeta}
    (h : entry ∈ (s.load metas).jobs.entries) : entry ∈ s.jobs.entries ∨ entry ∈ metas := by
  induction metas generalizing s with
  | nil => exact .inl h
  | cons first metas ih =>
      have h : entry ∈ (CronScheduler.load { s with jobs := s.jobs.insert first }
        metas).jobs.entries := h
      rcases ih h with h | h
      · rcases Table.mem_insert.mp h with rfl | ⟨h, -⟩
        · exact .inr List.mem_cons_self
        · exact .inl h
      · exact .inr (List.mem_cons_of_mem first h)

theorem Reachable.planned {s : CronScheduler} (h : Reachable lib s) :
    ∀ entry ∈ s.jobs.entries, entry.Planned := by
  induction h with
  | new maxTotalJobs => exact fun entry hentry => absurd hentry Table.not_mem_empty
  | setMaxTotalJobs newMax _ ih => exact ih
  | restart maxTotalJobs _ hmetas ih =>
      intro entry hentry
      rcases mem_load hentry with hentry | hentry
      · exact absurd hentry Table.not_mem_empty
      · exact ih entry (hmetas.mem_iff.mp hentry)
  | call op _ ih =>
      intro entry' hentry'
      rcases cronStep_entry hentry' with ⟨entry, hentry, hcarries⟩ | hstores
      · exact (ih entry hentry).carry hcarries
      · exact hstores.planned

/-! ### Scheduled times -/

variable (lib) in
/-- The times of a schedule after a hand-out at `t₁`. -/
def Scheduled (t₁ : Int) : CronSchedule → Int → Prop
  | .at time, u => u = time
  | .every everySecs, u => ∃ k : Nat, 0 < k ∧ u = t₁ + k * seconds everySecs
  | .cron expr tz, u => ∃ parsed, lib.parseExpr (sevenField expr) = some parsed ∧
      lib.Fires parsed (scheduleZone lib tz) u

variable (lib) in
/-- A job that was due at `t₁` has another time: it is periodic, or its expression matches a
later time. -/
def RunsAgain (t₁ : Int) : CronSchedule → Prop
  | .at _ => False
  | .every _ => True
  | .cron expr tz => ∃ parsed, lib.parseExpr (sevenField expr) = some parsed ∧
      ∃ u, t₁ < u ∧ lib.Fires parsed (scheduleZone lib tz) u

/-- From `t₁` on, the computed next run of a job that runs again is not before a further
scheduled time. -/
theorem computeNextRunAfter_scheduled (hnext : lib.NextFires) {schedule : CronSchedule}
    {t₁ now : Int} (hruns : RunsAgain lib t₁ schedule)
    (hevery : ∀ everySecs, schedule = .every everySecs → minEverySecs ≤ everySecs)
    (hnow : t₁ ≤ now) :
    ∃ u, t₁ < u ∧ u ≤ computeNextRunAfter lib schedule now ∧ Scheduled lib t₁ schedule u := by
  cases schedule with
  | «at» time => exact absurd hruns not_false
  | every everySecs =>
      have hmin := hevery everySecs rfl
      refine ⟨t₁ + seconds everySecs, ?_, ?_, 1, Nat.one_pos, ?_⟩
      · simp only [seconds, minEverySecs] at hmin ⊢
        omega
      · simp only [computeNextRunAfter]
        omega
      · simp
  | cron expr tz =>
      obtain ⟨parsed, hparsed, u, hu, hfires⟩ := hruns
      obtain ⟨hsome, hnone⟩ := hnext parsed (scheduleZone lib tz) (now + seconds 1)
      simp only [computeNextRunAfter, hparsed]
      cases hlast : lib.next parsed (scheduleZone lib tz) (now + seconds 1) with
      | some v =>
          obtain ⟨hbase, hv⟩ := hsome v hlast
          refine ⟨v, ?_, le_refl v, parsed, hparsed, hv⟩
          simp only [seconds] at hbase
          omega
      | none =>
          have hbound := hnone hlast u hfires
          refine ⟨u, hu, ?_, parsed, hparsed, hfires⟩
          simp only [seconds, Option.getD_none] at hbound ⊢
          omega

/-! ### Hand-outs -/

variable (lib) in
/-- A call at `now` returns the job as due, and leaves the scheduler `s'`. -/
inductive HandedOut (s : CronScheduler) (job : CronJob) (now : Int) : CronScheduler → Prop
  | tick : job ∈ (s.dueJobs lib now).2 → HandedOut s job now (s.dueJobs lib now).1
  | claim {claimed : CronJob} : s.getJob job.id = some job → job.nextRun.any (· ≤ now) = true →
      (s.tryClaimForRun lib job.id now).2 = .ok claimed →
        HandedOut s job now (s.tryClaimForRun lib job.id now).1

/-- A job handed out is enabled and due, and its next run is set. -/
theorem HandedOut.entry {s s' : CronScheduler} {job : CronJob} {now : Int}
    (h : HandedOut lib s job now s') :
    ∃ entry ∈ s.jobs.entries, entry.job = job ∧ entry.job.enabled = true ∧
      entry.isDue now = true ∧ entry.advance lib now ∈ s'.jobs.entries := by
  cases h with
  | tick hjob =>
      obtain ⟨entry, hentry, hjob⟩ := List.mem_map.mp hjob
      obtain ⟨hentry, hready⟩ := List.mem_filter.mp hentry
      obtain ⟨henabled, hdue⟩ := Bool.and_eq_true_iff.mp hready
      refine ⟨entry, hentry, hjob, henabled, hdue, ?_⟩
      exact List.mem_map.mpr ⟨entry, hentry, if_pos hready⟩
  | claim hget hdue hclaim =>
      obtain ⟨entry, hfind, rfl⟩ := Option.map_eq_some_iff.mp hget
      obtain ⟨hentry, hkey⟩ := Table.find_eq_some_iff.mp hfind
      have hdue : entry.isDue now = true := hdue
      simp only [CronScheduler.tryClaimForRun, hfind] at hclaim ⊢
      by_cases henabled : entry.job.enabled = true
      · rw [if_pos henabled]
        refine ⟨entry, hentry, rfl, henabled, hdue, ?_⟩
        refine List.mem_map.mpr ⟨entry, hentry, ?_⟩
        rw [if_pos hkey, CronScheduler.claimedEntry, if_pos hdue]
      · rw [if_neg henabled] at hclaim
        cases hclaim

/-- A tick returns a job exactly when its entry is enabled and due. -/
theorem mem_dueJobs_iff {s : CronScheduler} {id : Nat} {now : Int} :
    (∃ job ∈ (s.dueJobs lib now).2, job.id = id) ↔
      ∃ entry ∈ s.jobs.entries, entry.key = id ∧ entry.job.enabled = true ∧
        entry.isDue now = true := by
  constructor
  · rintro ⟨job, hjob, hid⟩
    obtain ⟨entry, hentry, rfl⟩ := List.mem_map.mp hjob
    obtain ⟨hentry, hready⟩ := List.mem_filter.mp hentry
    obtain ⟨henabled, hdue⟩ := Bool.and_eq_true_iff.mp hready
    exact ⟨entry, hentry, hid, henabled, hdue⟩
  · rintro ⟨entry, hentry, hid, henabled, hdue⟩
    refine ⟨entry.job, List.mem_map.mpr ⟨entry, List.mem_filter.mpr ⟨hentry, ?_⟩, rfl⟩, hid⟩
    exact Bool.and_eq_true_iff.mpr ⟨henabled, hdue⟩

variable (lib) in
/-- The job keeps its schedule, and its next run is not before a further scheduled time. -/
def Later (t₁ : Int) (id : Nat) (schedule : CronSchedule) (s : CronScheduler) : Prop :=
  ∀ entry ∈ s.jobs.entries, entry.key = id → entry.job.schedule = schedule ∧
    ∃ next u, entry.job.nextRun = some next ∧ t₁ < u ∧ u ≤ next ∧ Scheduled lib t₁ schedule u

theorem Later.step (hnext : lib.NextFires) {schedule : CronSchedule} {t₁ t₂ : Int} {id : Nat}
    (hruns : RunsAgain lib t₁ schedule)
    (hevery : ∀ everySecs, schedule = .every everySecs → minEverySecs ≤ everySecs)
    {s : CronScheduler} (h : Later lib t₁ id schedule s) {op : CronOp} (hspares : op.Spares id)
    (hwithin : op.Within t₁ t₂) : Later lib t₁ id schedule (cronStep lib s op) := by
  intro entry' hentry' hkey'
  rcases cronStep_entry hentry' with ⟨entry, hentry, hcarries⟩ | hstores
  · obtain ⟨hschedule, next, u, hrun, hu⟩ := h entry hentry (hcarries.key.symm.trans hkey')
    refine ⟨hcarries.schedule.trans hschedule, ?_⟩
    rcases hcarries.nextRun with hsame | ⟨now, hreads, hcomputed⟩
    · exact ⟨next, u, hsame.trans hrun, hu⟩
    · obtain ⟨u', hu'⟩ :=
        computeNextRunAfter_scheduled hnext hruns hevery (hwithin now hreads).1
      exact ⟨_, u', hschedule ▸ hcomputed, hu'⟩
  · exact absurd (hkey' ▸ hspares) hstores.touched

theorem Later.run (hnext : lib.NextFires) {schedule : CronSchedule} {t₁ t₂ : Int} {id : Nat}
    (hruns : RunsAgain lib t₁ schedule)
    (hevery : ∀ everySecs, schedule = .every everySecs → minEverySecs ≤ everySecs)
    {ops : List CronOp} (hops : ∀ op ∈ ops, op.Spares id ∧ op.Within t₁ t₂) {s : CronScheduler}
    (h : Later lib t₁ id schedule s) :
    Later lib t₁ id schedule (runOps (cronStep lib) s ops) := by
  induction ops generalizing s with
  | nil => exact h
  | cons op ops ih =>
      obtain ⟨hspares, hwithin⟩ := hops op List.mem_cons_self
      exact ih (fun op' hop' => hops op' (List.mem_cons_of_mem op hop'))
        (h.step hnext hruns hevery hspares hwithin)

/-- For every reachable scheduler and every job handed out at `t₁`: over every run of calls
until `t₂` that neither record, update nor re-enable the job, a tick at `t₂` returns it again
only if a further scheduled time lies in between, exactly when the job runs again after `t₁`:
when it is periodic, or its expression matches a later time. -/
theorem handed_out_once_iff (hnext : lib.NextFires) {s s' : CronScheduler}
    (hreachable : Reachable lib s) {job : CronJob} {t₁ : Int} (h : HandedOut lib s job t₁ s') :
    (∀ ops t₂, t₁ ≤ t₂ → (∀ op ∈ ops, op.Spares job.id ∧ op.Within t₁ t₂) →
        (∃ job' ∈ ((runOps (cronStep lib) s' ops).dueJobs lib t₂).2, job'.id = job.id) →
          ∃ u, t₁ < u ∧ u ≤ t₂ ∧ Scheduled lib t₁ job.schedule u) ↔
      RunsAgain lib t₁ job.schedule := by
  obtain ⟨entry, hentry, rfl, henabled, hdue, hadvanced⟩ := h.entry
  have hplanned := hreachable.planned entry hentry
  constructor
  · intro honce
    -- the first tick at which the job can come back
    obtain ⟨u, hu, -, hscheduled⟩ := honce []
      (max t₁ (computeNextRunAfter lib entry.job.schedule t₁)) (le_max_left _ _)
      (fun op hop => absurd hop List.not_mem_nil)
      (mem_dueJobs_iff.mpr ⟨_, hadvanced, rfl, henabled, by
        simp [JobMeta.isDue, JobMeta.advance]⟩)
    cases hschedule : entry.job.schedule with
    | «at» time =>
        rw [hschedule] at hscheduled
        have htime : u = time := hscheduled
        simp only [JobMeta.isDue, hplanned.atTime time hschedule, Option.any_some,
          decide_eq_true_eq] at hdue
        omega
    | every everySecs => trivial
    | cron expr tz =>
        rw [hschedule] at hscheduled
        obtain ⟨parsed, hparsed, hfires⟩ := hscheduled
        exact ⟨parsed, hparsed, u, hu, hfires⟩
  · intro hruns ops t₂ ht hops hreturned
    have hlater : Later lib t₁ entry.job.id entry.job.schedule s' := by
      intro entry' hentry' hkey'
      have hsame : entry' = entry.advance lib t₁ := Table.eq_of_key_eq hentry' hadvanced hkey'
      obtain ⟨u, hu⟩ := computeNextRunAfter_scheduled hnext hruns hplanned.every (le_refl t₁)
      exact hsame ▸ ⟨rfl, _, u, rfl, hu⟩
    obtain ⟨entry', hentry', hkey', -, hdue'⟩ := mem_dueJobs_iff.mp hreturned
    obtain ⟨-, next, u, hrun, hu, hle, hscheduled⟩ :=
      hlater.run hnext hruns hplanned.every hops entry' hentry' hkey'
    simp only [JobMeta.isDue, hrun, Option.any_some, decide_eq_true_eq] at hdue'
    exact ⟨u, hu, by omega, hscheduled⟩

end Library

theorem minutely_nextFires : minutely.NextFires := by
  intro expr zone base
  constructor
  · intro u hu
    obtain rfl : (base / minute + 1) * minute = u := by simpa [minutely] using hu
    refine ⟨?_, base / minute + 1, rfl⟩
    simp only [minute, seconds]
    omega
  · intro hnone
    cases hnone

/-- A scheduler with one job. -/
def oneJob (schedule : CronSchedule) : CronScheduler :=
  cronStep minutely (.new 500) (.addJob (eventJob 1 1 schedule) false 0 0)

/-- The job of `oneJob` as it is stored. -/
def storedJob (schedule : CronSchedule) : CronJob :=
  { eventJob 1 1 schedule with nextRun := some (computeNextRunAfter minutely schedule 0) }

theorem handed_out_once_iff_every_minute :
    (∀ ops t₂, seconds 90 ≤ t₂ → (∀ op ∈ ops, op.Spares 1 ∧ op.Within (seconds 90) t₂) →
        (∃ job' ∈ ((runOps (cronStep minutely)
          ((oneJob (.cron "* * * * *" none)).dueJobs minutely (seconds 90)).1 ops).dueJobs
            minutely t₂).2, job'.id = 1) →
          ∃ u, seconds 90 < u ∧ u ≤ t₂ ∧
            Scheduled minutely (seconds 90) (.cron "* * * * *" none) u) ↔
      RunsAgain minutely (seconds 90) (.cron "* * * * *" none) := by
  have hdue : storedJob (.cron "* * * * *" none) ∈
      ((oneJob (.cron "* * * * *" none)).dueJobs minutely (seconds 90)).2 := by
    decide +kernel
  exact handed_out_once_iff minutely_nextFires ((Reachable.new 500).call _) (.tick hdue)

/-- An `At` job is handed out again one second after its time has passed. -/
theorem at_job_handed_out_twice :
    ∃ s job s' t₁ t₂, Reachable minutely s ∧ HandedOut minutely s job t₁ s' ∧ t₁ ≤ t₂ ∧
      (∃ job' ∈ (s'.dueJobs minutely t₂).2, job'.id = job.id) ∧
        ¬ ∃ u, t₁ < u ∧ u ≤ t₂ ∧ Scheduled minutely t₁ job.schedule u := by
  have hdue : storedJob (.at (seconds 10)) ∈
      ((oneJob (.at (seconds 10))).dueJobs minutely (seconds 10)).2 := by
    decide +kernel
  have hagain : storedJob (.at (seconds 10)) ∈
      (((oneJob (.at (seconds 10))).dueJobs minutely (seconds 10)).1.dueJobs minutely
        (seconds 11)).2 := by
    decide +kernel
  refine ⟨_, _, _, seconds 10, seconds 11, (Reachable.new 500).call _, .tick hdue, by decide,
    ⟨_, hagain, rfl⟩, ?_⟩
  rintro ⟨u, hu, -, htime⟩
  have htime : u = seconds 10 := htime
  omega

end ArmaraOS.Kernel
