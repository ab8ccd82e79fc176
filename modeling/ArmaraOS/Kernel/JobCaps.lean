import ArmaraOS.Kernel.CronScheduler

/-!
The limits on scheduled jobs, over runs of the scheduler.

`add_job` and `update_job` check the number of jobs of the owner before they store one; the two
calls that give the jobs of one agent to another do not. A run keeps all limits exactly when each of
these calls leaves its new owner with few enough jobs (`job_caps_hold_iff`).
-/

namespace ArmaraOS.Kernel

open ArmaraOS.Lib

/-- An enabled job has failed fewer times in a row than disable it. -/
def JobMeta.FewErrors (entry : JobMeta) : Prop :=
  entry.job.enabled = true → entry.consecutiveErrors < maxConsecutiveErrors

/-- The limits: on all jobs, on those of each agent, and on the errors of the enabled ones. -/
structure Capped (s : CronScheduler) : Prop where
  total : s.jobs.size ≤ s.maxTotalJobs
  perAgent : ∀ agentId, s.agentCount agentId ≤ maxJobsPerAgent
  errors : ∀ entry ∈ s.jobs.entries, entry.FewErrors

/-- A call that moves jobs to another owner leaves the owner with few enough. -/
def ReassignFits (s : CronScheduler) : CronOp → Prop
  | .reassignAgentJobs oldAgentId newAgentId _ =>
      (s.jobs.count fun entry =>
        entry.job.agentId == oldAgentId || entry.job.agentId == newAgentId) ≤ maxJobsPerAgent
  | .reassignJobsFromMissingAgents alive fallback _ =>
      alive.contains fallback →
        (s.jobs.count fun entry =>
          !alive.contains entry.job.agentId || entry.job.agentId == fallback) ≤ maxJobsPerAgent
  | _ => True

/-! ### Calls that keep the owners -/

theorem Capped.filter {s : CronScheduler} (h : Capped s) (p : JobMeta → Bool) :
    Capped { s with jobs := s.jobs.filter p } where
  total := Nat.le_trans (Table.size_filter_le s.jobs p) h.total
  perAgent agentId := Nat.le_trans (Table.count_filter_le s.jobs p _) (h.perAgent agentId)
  errors entry hentry := h.errors entry (Table.mem_filter.mp hentry).1

/-- Entries may be rewritten as long as each keeps its owner and its errors stay few. -/
theorem Capped.map {s : CronScheduler} (h : Capped s) {f : JobMeta → JobMeta} {hf}
    (howner : ∀ entry, (f entry).job.agentId = entry.job.agentId)
    (herrors : ∀ entry, entry.FewErrors → (f entry).FewErrors) :
    Capped { s with jobs := s.jobs.map f hf } where
  total := by
    rw [Table.size_map]
    exact h.total
  perAgent agentId := by
    have hcount : (CronScheduler.mk (s.jobs.map f hf) s.maxTotalJobs).agentCount agentId =
        s.agentCount agentId := by
      rw [CronScheduler.agentCount, Table.count_map]
      simp only [howner]
      rfl
    exact hcount ▸ h.perAgent agentId
  errors entry hentry := by
    obtain ⟨entry', hentry', rfl⟩ := (Table.mem_map hf).mp hentry
    exact herrors entry' (h.errors entry' hentry')

theorem Capped.modify {s : CronScheduler} (h : Capped s) {id : Nat} {f : JobMeta → JobMeta} {hf}
    (howner : ∀ entry, (f entry).job.agentId = entry.job.agentId)
    (herrors : ∀ entry, entry.FewErrors → (f entry).FewErrors) :
    Capped { s with jobs := s.jobs.modify id f hf } := by
  apply h.map
  · intro entry
    split
    · exact howner entry
    · rfl
  · intro entry hentry
    split
    · exact herrors entry hentry
    · exact hentry

section Library

variable {Expr Zone : Type} (lib : CronLibrary Expr Zone)

theorem JobMeta.FewErrors.advance {entry : JobMeta} (h : entry.FewErrors) (now : Int) :
    (entry.advance lib now).FewErrors := h

/-- A failure either leaves the errors few or disables the job. -/
theorem failedEntry_fewErrors (errorMsg : String) (lastNow now : Int) (entry : JobMeta) :
    (CronScheduler.failedEntry lib errorMsg lastNow now entry).FewErrors := by
  simp only [CronScheduler.failedEntry]
  split
  · intro henabled
    cases henabled
  · next hfew =>
      have hfew := Nat.lt_of_not_le hfew
      split
      · exact JobMeta.FewErrors.advance lib (fun _ => hfew) now
      · exact fun _ => hfew

theorem failedEntry_agentId (errorMsg : String) (lastNow now : Int) (entry : JobMeta) :
    (CronScheduler.failedEntry lib errorMsg lastNow now entry).job.agentId =
      entry.job.agentId := by
  simp only [CronScheduler.failedEntry]
  split
  · rfl
  · split <;> rfl

theorem enabledEntry_fewErrors {enabled : Bool} (now : Int) (entry : JobMeta) :
    (CronScheduler.enabledEntry lib enabled now entry).FewErrors := by
  cases enabled with
  | false => exact fun henabled => Bool.noConfusion henabled
  | true => exact fun _ => Nat.zero_lt_succ 4

theorem claimedEntry_fewErrors {entry : JobMeta} (h : entry.FewErrors) (now : Int) :
    (CronScheduler.claimedEntry lib now entry).FewErrors := by
  unfold CronScheduler.claimedEntry
  split
  · exact h.advance lib now
  · exact h

/-! ### Calls that store a job -/

/-- A new entry is one more of its owner, and only of its owner. -/
theorem Capped.insert {s : CronScheduler} (h : Capped s) {entry : JobMeta}
    (hroom : s.jobs.size < s.maxTotalJobs)
    (hcount : s.agentCount entry.job.agentId < maxJobsPerAgent) (hfew : entry.FewErrors) :
    Capped { s with jobs := s.jobs.insert entry } where
  total := Nat.le_trans (Table.size_insert_le s.jobs entry) hroom
  perAgent agentId := by
    refine Nat.le_trans (Table.count_insert_le s.jobs entry _) ?_
    by_cases howner : entry.job.agentId = agentId
    · subst howner
      rw [if_pos (beq_self_eq_true _)]
      exact hcount
    · rw [if_neg (by simpa using howner)]
      exact h.perAgent agentId
  errors entry' hentry' := by
    rcases Table.mem_insert.mp hentry' with rfl | ⟨hentry', -⟩
    · exact hfew
    · exact h.errors entry' hentry'

/-- An entry replaced is one more of its owner beside the others. -/
theorem Capped.replace {s : CronScheduler} (h : Capped s) {id owner : Nat}
    {f : JobMeta → JobMeta} {hf}
    (hcount : (s.jobs.count fun entry => entry.job.agentId == owner && entry.key != id) <
      maxJobsPerAgent)
    (howner : ∀ entry, (f entry).job.agentId = owner) (hfew : ∀ entry, (f entry).FewErrors) :
    Capped { s with jobs := s.jobs.modify id f hf } where
  total := by
    rw [Table.size_modify]
    exact h.total
  perAgent agentId := by
    refine Nat.le_trans (Table.count_modify_le_add s.jobs id f hf _) ?_
    simp only [howner]
    by_cases hagent : owner = agentId
    · subst hagent
      have hone := Table.count_key_le_one s.jobs id
      simp only [beq_self_eq_true, Bool.and_true]
      omega
    · have hnone : (s.jobs.count fun entry => entry.key == id && (owner == agentId)) = 0 := by
        simp [Table.count, hagent]
      have hfewer : (s.jobs.count fun entry =>
          entry.job.agentId == agentId && entry.key != id) ≤ s.agentCount agentId := by
        apply List.countP_mono_left
        intro entry _ hentry
        exact (Bool.and_eq_true_iff.mp hentry).1
      have hothers := h.perAgent agentId
      omega
  errors entry hentry := by
    rcases (Table.mem_modify hf).mp hentry with ⟨hentry, -⟩ | ⟨entry', -, -, rfl⟩
    · exact h.errors entry hentry
    · exact hfew entry'

theorem Capped.addJob {s : CronScheduler} (h : Capped s) (job : CronJob) (oneShot : Bool)
    (validNow nextNow : Int) : Capped (s.addJob lib job oneShot validNow nextNow).1 := by
  unfold CronScheduler.addJob
  split
  · exact h
  · next hroom =>
      split
      · exact h
      · next hvalid =>
          exact h.insert (Nat.lt_of_not_le hroom) (CronJob.validate_ok hvalid).1
            fun _ => Nat.zero_lt_succ 4

theorem Capped.updateJob {s : CronScheduler} (h : Capped s) (id : Nat) (job : CronJob)
    (validNow nextNow : Int) : Capped (s.updateJob lib id job validNow nextNow).1 := by
  unfold CronScheduler.updateJob
  split
  · exact h
  · dsimp only
    split
    · exact h
    · next hvalid =>
        exact h.replace (CronJob.validate_ok hvalid).1 (fun _ => rfl)
          fun _ _ => Nat.zero_lt_succ 4

/-! ### Calls that move jobs -/

/-- Jobs that pass a test are given to an agent and keep few errors: the others keep their
owner, and the new owner has its own jobs and those given. -/
theorem Capped.give {s : CronScheduler} (h : Capped s) (gives : JobMeta → Bool) (owner : Nat)
    {f : JobMeta → JobMeta} {hf} (hgiven : ∀ entry, gives entry = true →
      (f entry).job.agentId = owner ∧ (f entry).FewErrors)
    (hkept : ∀ entry, gives entry = false → f entry = entry) :
    Capped { s with jobs := s.jobs.map f hf } ↔
      (s.jobs.count fun entry => gives entry || entry.job.agentId == owner) ≤
        maxJobsPerAgent := by
  have howner : (s.jobs.map f hf).count (fun entry => entry.job.agentId == owner) =
      s.jobs.count fun entry => gives entry || entry.job.agentId == owner := by
    rw [Table.count_map]
    congr 1
    funext entry
    cases hgives : gives entry with
    | true => simp [(hgiven entry hgives).1]
    | false => rw [hkept entry hgives, Bool.false_or]
  constructor
  · intro hcapped
    exact howner ▸ hcapped.perAgent owner
  · intro hfits
    refine ⟨?_, fun agentId => ?_, fun entry hentry => ?_⟩
    · rw [Table.size_map]
      exact h.total
    · by_cases hagent : agentId = owner
      · subst hagent
        exact Nat.le_trans (Nat.le_of_eq howner) hfits
      · refine Nat.le_trans ?_ (h.perAgent agentId)
        rw [CronScheduler.agentCount, Table.count_map]
        apply List.countP_mono_left
        intro entry _ hentry
        cases hgives : gives entry with
        | true =>
            rw [(hgiven entry hgives).1] at hentry
            exact absurd (by simpa using hentry) (Ne.symm hagent)
        | false => rwa [hkept entry hgives] at hentry
    · obtain ⟨entry', hentry', rfl⟩ := (Table.mem_map hf).mp hentry
      cases hgives : gives entry' with
      | true => exact (hgiven entry' hgives).2
      | false =>
          rw [hkept entry' hgives]
          exact h.errors entry' hentry'

theorem Capped.reassignAgentJobs_iff {s : CronScheduler} (h : Capped s)
    (oldAgentId newAgentId : Nat) (now : Nat → Int) :
    Capped (s.reassignAgentJobs lib oldAgentId newAgentId now).1 ↔
      ReassignFits s (.reassignAgentJobs oldAgentId newAgentId now) := by
  apply h.give (fun entry => entry.job.agentId == oldAgentId) newAgentId
  · intro entry hgives
    rw [if_pos hgives]
    unfold CronScheduler.reassignedEntry
    dsimp only
    split
    · exact ⟨rfl, fun _ => Nat.zero_lt_succ 4⟩
    · exact ⟨rfl, fun _ => Nat.zero_lt_succ 4⟩
  · intro entry hgives
    rw [if_neg (Bool.eq_false_iff.mp hgives)]

theorem Capped.reassignJobsFromMissingAgents_iff {s : CronScheduler} (h : Capped s)
    (alive : List Nat) (fallback : Nat) (now : Nat → Int) :
    Capped (s.reassignJobsFromMissingAgents lib alive fallback now).1 ↔
      ReassignFits s (.reassignJobsFromMissingAgents alive fallback now) := by
  unfold CronScheduler.reassignJobsFromMissingAgents
  split
  · next hfallback =>
      refine Iff.trans ?_ (imp_iff_right hfallback).symm
      apply h.give (fun entry => !alive.contains entry.job.agentId) fallback
      · intro entry hgives
        rw [if_neg (by simpa using hgives)]
        unfold CronScheduler.rescuedEntry
        dsimp only
        split
        · exact ⟨rfl, fun _ => Nat.zero_lt_succ 4⟩
        · exact ⟨rfl, fun _ => Nat.zero_lt_succ 4⟩
      · intro entry hgives
        rw [if_pos (by simpa using hgives)]
  · next hfallback => exact ⟨fun _ h => absurd h hfallback, fun _ => h⟩

/-! ### Runs -/

/-- A call keeps the limits exactly when it leaves a new owner with few enough jobs. -/
theorem Capped.step_iff {s : CronScheduler} (h : Capped s) (op : CronOp) :
    Capped (cronStep lib s op) ↔ ReassignFits s op := by
  cases op with
  | reassignAgentJobs oldAgentId newAgentId now =>
      exact h.reassignAgentJobs_iff lib oldAgentId newAgentId now
  | reassignJobsFromMissingAgents alive fallback now =>
      exact h.reassignJobsFromMissingAgents_iff lib alive fallback now
  | addJob job oneShot validNow nextNow =>
      exact iff_of_true (h.addJob lib job oneShot validNow nextNow) trivial
  | updateJob id job validNow nextNow =>
      exact iff_of_true (h.updateJob lib id job validNow nextNow) trivial
  | removeJob id =>
      refine iff_of_true ?_ trivial
      simp only [cronStep, CronScheduler.removeJob]
      split
      · exact h.filter _
      · exact h
  | setEnabled id enabled now =>
      refine iff_of_true ?_ trivial
      simp only [cronStep, CronScheduler.setEnabled]
      split
      · exact h
      · apply h.modify
        · intro entry
          cases enabled <;> rfl
        · exact fun entry _ => enabledEntry_fewErrors lib now entry
  | dedupeJobsByName => exact iff_of_true (h.filter _) trivial
  | dedupeAinlRunJobsSameSignature => exact iff_of_true (h.filter _) trivial
  | removeDiscontinuedCuratedAinlJobs curatedNames => exact iff_of_true (h.filter _) trivial
  | removeAgentJobs agentId => exact iff_of_true (h.filter _) trivial
  | dueJobs now =>
      refine iff_of_true (h.map ?_ ?_) trivial
      · intro entry
        split <;> rfl
      · intro entry hentry
        split
        · exact hentry.advance lib now
        · exact hentry
  | tryClaimForRun id now =>
      refine iff_of_true ?_ trivial
      simp only [cronStep, CronScheduler.tryClaimForRun]
      split
      · exact h
      · split
        · apply h.modify
          · intro entry
            unfold CronScheduler.claimedEntry
            split <;> rfl
          · exact fun entry hentry => claimedEntry_fewErrors lib hentry now
        · exact h
  | recordSuccess id now =>
      refine iff_of_true ?_ trivial
      simp only [cronStep, CronScheduler.recordSuccess]
      split
      · exact h
      · split
        · exact h.filter _
        · exact h.modify (fun _ => rfl) fun _ _ _ => Nat.zero_lt_succ 4
  | recordFailure id errorMsg lastNow now =>
      refine iff_of_true (h.modify ?_ ?_) trivial
      · exact failedEntry_agentId lib errorMsg lastNow now
      · exact fun entry _ => failedEntry_fewErrors lib errorMsg lastNow now entry

/-- For every run from an empty scheduler: the limits hold in all its states exactly when every
call that moves jobs to another owner leaves this owner with at most `maxJobsPerAgent`. -/
theorem job_caps_hold_iff (maxTotalJobs : Nat) (ops : List CronOp) :
    (∀ s ∈ passed (cronStep lib) (.new maxTotalJobs) ops, Capped s) ↔
      Guarded (cronStep lib) ReassignFits (.new maxTotalJobs) ops := by
  have hnew : Capped (.new maxTotalJobs) :=
    ⟨Nat.zero_le _, fun _ => Nat.zero_le _, fun _ hentry => absurd hentry Table.not_mem_empty⟩
  exact passed_safe_iff (fun _ h => h) (fun _ op h hfits => (h.step_iff lib op).mpr hfits)
    (fun _ op h hfits hcapped => hfits ((h.step_iff lib op).mp hcapped)) hnew

end Library

/-- An agent with fifty jobs is given the job of another one. -/
def handOver : List CronOp :=
  (List.range 50).map (fun id => .addJob (eventJob id 1 (.every 3600)) false 0 0) ++
    [.addJob (eventJob 50 2 (.every 3600)) false 0 0, .reassignAgentJobs 2 1 fun _ => 0]

/-- Giving one job more to an agent with fifty breaks its limit. -/
theorem reassigned_job_exceeds_cap :
    ¬ ∀ s ∈ passed (cronStep minutely) (.new 500) handOver, Capped s := by
  intro hcapped
  have hlast := hcapped (runOps (cronStep minutely) (.new 500) handOver)
    (mem_passed.mpr ⟨handOver, List.prefix_rfl, rfl⟩)
  have hcount : (runOps (cronStep minutely) (.new 500) handOver).agentCount 1 = 51 := by
    decide +kernel
  have hfew := hlast.perAgent 1
  rw [hcount] at hfew
  exact absurd hfew (by decide)

end ArmaraOS.Kernel
