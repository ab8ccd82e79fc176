import ArmaraOS.Security.AuditTampering

/-!
The audit trail over restarts.

`record` numbers an entry by the entries in memory, links it to the tip in memory, and does not look
at the result of its INSERT. A row that is lost is therefore missing from the next chain that is
loaded, and everything recorded on top of it no longer links. As long as no INSERT is executed while
memory is ahead of the table, the table holds an initial part of the chain in memory: what is lost
is the end of it, and the trail that a restart loads is a chain that holds every entry whose INSERT
went through (`trail_survives_restarts`).
-/

namespace ArmaraOS.Security

open ArmaraOS.Lib

/-- What happens to the trail: a call, or the end of the process and a `with_db` on the same
table. -/
inductive AuditOp where
  | record (call : RecordCall)
  | restart
deriving DecidableEq

section Restarts

variable (sha256Hex : String → String)

/-- The rows of the database behind a log. -/
def AuditLog.rows (log : AuditLog) : AuditTable := log.db.getD []

/-- One step of the trail. -/
def auditStep (log : AuditLog) : AuditOp → AuditLog
  | .record call => log.record sha256Hex call
  | .restart => .withDb log.rows

/-- No INSERT is executed while rows are missing from the table. -/
def InsertsInStep (log : AuditLog) : AuditOp → Prop
  | .record call => call.insertFails = false → log.rows.length = log.entries.length
  | .restart => True

instance (log : AuditLog) (op : AuditOp) : Decidable (InsertsInStep log op) := by
  cases op <;> unfold InsertsInStep <;> infer_instance

/-- The table holds `kept`, and memory has `lost` on top of it. -/
structure Stored (log : AuditLog) (kept lost : List AuditEntry) : Prop where
  entries_eq : log.entries = kept ++ lost
  db_eq : log.db = some (kept.map AuditEntry.toRow)
  chained : ChainedLog sha256Hex log
  numbered : log.entries.map AuditEntry.seq = List.range log.entries.length

/-- The table holds an initial part of the chain in memory. -/
def TrailInvariant (log : AuditLog) : Prop := ∃ kept lost, Stored sha256Hex log kept lost

variable {sha256Hex}

@[simp] theorem toEntry_toRow (e : AuditEntry) : e.toRow.toEntry = e := by
  simp [AuditEntry.toRow, AuditRow.toEntry]

theorem Stored.rows_eq {log : AuditLog} {kept lost : List AuditEntry}
    (h : Stored sha256Hex log kept lost) : log.rows = kept.map AuditEntry.toRow := by
  rw [AuditLog.rows, h.db_eq]
  rfl

/-- The numbers of the entries that are kept. -/
theorem Stored.kept_numbered {log : AuditLog} {kept lost : List AuditEntry}
    (h : Stored sha256Hex log kept lost) : kept.map AuditEntry.seq = List.range kept.length := by
  have hall := congrArg (List.take kept.length) h.numbered
  rw [h.entries_eq, List.map_append, List.length_append, List.take_range] at hall
  rw [List.take_left' (List.length_map _)] at hall
  rw [hall, Nat.min_eq_left (Nat.le_add_right _ _)]

/-- The rows are read back as they were written. -/
theorem Stored.select_rows {log : AuditLog} {kept lost : List AuditEntry}
    (h : Stored sha256Hex log kept lost) :
    (selectRows log.rows).map AuditRow.toEntry = kept := by
  have hsorted : log.rows.Pairwise fun a b => a.seq ≤ b.seq := by
    rw [h.rows_eq, List.pairwise_map]
    have hrange : (kept.map AuditEntry.seq).Pairwise (· ≤ ·) := by
      rw [h.kept_numbered]
      exact List.pairwise_le_range
    exact List.pairwise_map.mp hrange
  rw [selectRows, hsorted.insertionSort_eq, h.rows_eq, List.map_map]
  simp [Function.comp_def]

/-- A restart drops the entries that the table does not hold. -/
theorem Stored.restart {log : AuditLog} {kept lost : List AuditEntry}
    (h : Stored sha256Hex log kept lost) :
    Stored sha256Hex (auditStep sha256Hex log .restart) kept [] := by
  have hentries : (auditStep sha256Hex log .restart).entries = kept := h.select_rows
  have htip : (auditStep sha256Hex log .restart).tip =
      kept.foldl (fun _ e => e.hash) genesisHash := by
    conv_rhs => rw [← h.select_rows]
    rfl
  refine ⟨?_, ?_, ⟨?_, ?_⟩, ?_⟩
  · rw [hentries, List.append_nil]
  · exact congrArg some h.rows_eq
  · rw [hentries]
    exact h.chained.linked.of_longer (h.entries_eq ▸ List.prefix_append kept lost)
  · rw [htip, hentries]
    rfl
  · rw [hentries]
    exact h.kept_numbered

/-- The number of a new entry is not taken. -/
theorem Stored.insertRow_eq {log : AuditLog} {kept lost : List AuditEntry}
    (h : Stored sha256Hex log kept lost) (call : RecordCall) :
    insertRow log.rows (log.newEntry sha256Hex call).toRow false =
      (kept ++ [log.newEntry sha256Hex call]).map AuditEntry.toRow := by
  have hfresh : (log.rows.any fun r => r.seq == (log.newEntry sha256Hex call).toRow.seq) =
      false := by
    rw [List.any_eq_false]
    intro r hr
    rw [h.rows_eq, List.mem_map] at hr
    obtain ⟨e, he, rfl⟩ := hr
    have hseq : e.seq ∈ List.range kept.length := by
      rw [← h.kept_numbered]
      exact List.mem_map_of_mem he
    have hlt := List.mem_range.mp hseq
    have hlen : log.entries.length = kept.length + lost.length := by
      rw [h.entries_eq, List.length_append]
    have hnew : (log.newEntry sha256Hex call).toRow.seq = log.entries.length := rfl
    have hold : e.toRow.seq = e.seq := rfl
    rw [hnew, hold, beq_iff_eq]
    omega
  rw [insertRow, hfresh, h.rows_eq]
  simp

/-- An entry is recorded. It is kept if its INSERT is executed with nothing missing. -/
theorem Stored.record {log : AuditLog} {kept lost : List AuditEntry}
    (h : Stored sha256Hex log kept lost) (call : RecordCall)
    (hstep : InsertsInStep log (.record call)) :
    let entry := log.newEntry sha256Hex call
    (call.insertFails = true ∧ Stored sha256Hex (log.record sha256Hex call) kept (lost ++ [entry])) ∨
      (call.insertFails = false ∧ lost = [] ∧
        Stored sha256Hex (log.record sha256Hex call) (kept ++ [entry]) []) := by
  intro entry
  have hentries : (log.record sha256Hex call).entries = log.entries ++ [entry] := rfl
  have hdb : (log.record sha256Hex call).db =
      some (insertRow log.rows entry.toRow call.insertFails) := by
    rw [AuditLog.record, AuditLog.rows, h.db_eq]
    rfl
  have hnumbered : (log.record sha256Hex call).entries.map AuditEntry.seq =
      List.range (log.record sha256Hex call).entries.length := by
    rw [hentries, List.map_append, h.numbered, List.length_append]
    exact List.range_succ.symm
  have hchained := h.chained.record sha256Hex call
  cases hfails : call.insertFails with
  | true =>
      refine .inl ⟨rfl, ?_, ?_, hchained, hnumbered⟩
      · rw [hentries, h.entries_eq, List.append_assoc]
      · rw [hdb, hfails, h.rows_eq]
        rfl
  | false =>
      have hlost : lost = [] := by
        have hlen := hstep hfails
        rw [h.rows_eq, h.entries_eq, List.length_map, List.length_append] at hlen
        exact List.eq_nil_of_length_eq_zero (by omega)
      subst hlost
      refine .inr ⟨rfl, rfl, ?_, ?_, hchained, hnumbered⟩
      · rw [hentries, h.entries_eq, List.append_nil, List.append_nil]
      · rw [hdb, hfails, h.insertRow_eq call]

theorem trailInvariant_step {log : AuditLog} {op : AuditOp} (h : TrailInvariant sha256Hex log)
    (hstep : InsertsInStep log op) : TrailInvariant sha256Hex (auditStep sha256Hex log op) := by
  obtain ⟨kept, lost, hstored⟩ := h
  cases op with
  | record call =>
      rcases hstored.record call hstep with ⟨-, hrecord⟩ | ⟨-, -, hrecord⟩
      · exact ⟨_, _, hrecord⟩
      · exact ⟨_, _, hrecord⟩
  | restart => exact ⟨_, _, hstored.restart⟩

theorem trailInvariant_start : TrailInvariant sha256Hex (AuditLog.withDb []) :=
  ⟨[], [], rfl, rfl, ⟨trivial, rfl⟩, rfl⟩

/-- The log after a restart passes the check. -/
theorem TrailInvariant.verify_restart {log : AuditLog} (h : TrailInvariant sha256Hex log) :
    (auditStep sha256Hex log .restart).verifyIntegrity sha256Hex = .ok () := by
  obtain ⟨kept, lost, hstored⟩ := h
  exact (verifyFrom_ok sha256Hex).mpr hstored.restart.chained.linked

/-- A row stays in the table. -/
theorem rows_mono {log : AuditLog} {row : AuditRow} (hrow : row ∈ log.rows) (op : AuditOp) :
    row ∈ (auditStep sha256Hex log op).rows := by
  cases op with
  | restart => exact hrow
  | record call =>
      cases hdb : log.db with
      | none => simp [AuditLog.rows, hdb] at hrow
      | some table =>
          have htable : row ∈ table := by simpa [AuditLog.rows, hdb] using hrow
          simp only [auditStep, AuditLog.record, AuditLog.rows, hdb, Option.map_some,
            Option.getD_some, insertRow]
          split
          · exact htable
          · exact List.mem_append_left _ htable

theorem rows_mono_run {log : AuditLog} {row : AuditRow} (hrow : row ∈ log.rows)
    (ops : List AuditOp) : row ∈ (runOps (auditStep sha256Hex) log ops).rows := by
  induction ops generalizing log with
  | nil => exact hrow
  | cons op ops ih => exact ih (rows_mono hrow op)

/-- An entry whose row is in the table is loaded. -/
theorem mem_entries_restart {log : AuditLog} {e : AuditEntry} (hrow : e.toRow ∈ log.rows) :
    e ∈ (auditStep sha256Hex log .restart).entries := by
  have hselect : e.toRow ∈ selectRows log.rows := (List.mem_insertionSort _).mpr hrow
  have hentry := List.mem_map_of_mem (f := AuditRow.toEntry) hselect
  rwa [toEntry_toRow] at hentry

/-- **The trail survives restarts as long as inserts stay in step.** In a run on a table that
starts empty, where no INSERT is executed while memory is ahead of the table, every log that
a restart loads passes the check, and it holds the entry of every earlier call whose INSERT
did not fail for an external reason. -/
theorem trail_survives_restarts (ops : List AuditOp)
    (hstep : Guarded (auditStep sha256Hex) InsertsInStep (.withDb []) ops) :
    (∀ front, front ++ [.restart] <+: ops →
      (runOps (auditStep sha256Hex) (.withDb []) (front ++ [.restart])).verifyIntegrity sha256Hex =
        .ok ()) ∧
    (∀ front call middle, front ++ .record call :: middle ++ [.restart] <+: ops →
      call.insertFails = false →
      (runOps (auditStep sha256Hex) (.withDb []) front).newEntry sha256Hex call ∈
        (runOps (auditStep sha256Hex) (.withDb [])
          (front ++ .record call :: middle ++ [.restart])).entries) := by
  have hinv : ∀ front, Guarded (auditStep sha256Hex) InsertsInStep (.withDb []) front →
      TrailInvariant sha256Hex (runOps (auditStep sha256Hex) (.withDb []) front) := by
    intro front hfront
    exact runOps_invariant (fun _ _ hlog hop => trailInvariant_step hlog hop)
      trailInvariant_start hfront
  constructor
  · rintro front ⟨back, rfl⟩
    rw [List.append_assoc, guarded_append] at hstep
    rw [runOps_append]
    exact (hinv front hstep.1).verify_restart
  · rintro front call middle ⟨back, rfl⟩ hfails
    rw [List.append_assoc, List.append_assoc, guarded_append] at hstep
    obtain ⟨hfront, hcall, -⟩ := hstep
    obtain ⟨kept, lost, hstored⟩ := hinv front hfront
    rw [List.append_assoc, runOps_append, List.cons_append, runOps_cons, runOps_append]
    rw [runOps_cons, runOps_nil]
    apply mem_entries_restart
    refine rows_mono_run ?_ middle
    rcases hstored.record call hcall with ⟨hlost, -⟩ | ⟨-, -, hrecord⟩
    · rw [hfails] at hlost
      cases hlost
    · change _ ∈ (AuditLog.record sha256Hex _ call).rows
      rw [hrecord.rows_eq]
      exact List.mem_map_of_mem (List.mem_append_right kept List.mem_cons_self)

end Restarts

/-! ### Lost rows -/

/-- The first of the two calls is stored, the second once it is made again after a restart. -/
theorem trail_survives_restarts_retried :
    (runOps (auditStep sampleSha256) (.withDb []) [.record sampleFirst,
      .record { sampleSecond with insertFails := true }, .restart, .record sampleSecond,
      .restart]).verifyIntegrity sampleSha256 = .ok () :=
  (trail_survives_restarts ([.record sampleFirst,
      .record { sampleSecond with insertFails := true }, .restart, .record sampleSecond,
      .restart]) (by decide +kernel)).1 [.record sampleFirst,
      .record { sampleSecond with insertFails := true }, .restart, .record sampleSecond]
    (by decide +kernel)

/-- **A row lost in the middle.** The second INSERT fails and the third is executed: the trail
that the restart loads does not pass the check. The next call takes a number that is in use, so
that its entry is gone after the restart behind it. -/
theorem trail_breaks_after_lost_row :
    let ops : List AuditOp := [.record sampleFirst,
      .record { sampleSecond with insertFails := true }, .record sampleFirst, .restart]
    let loaded := runOps (auditStep sampleSha256) (.withDb []) ops
    loaded.verifyIntegrity sampleSha256 ≠ .ok () ∧
      loaded.newEntry sampleSha256 sampleSecond ∉
        (runOps (auditStep sampleSha256) loaded [.record sampleSecond, .restart]).entries := by
  refine ⟨?_, by decide +kernel⟩
  dsimp only
  rw [ne_eq, AuditLog.verifyIntegrity, verifyFrom_ok, ← rehash_eq_iff]
  decide +kernel

end ArmaraOS.Security
