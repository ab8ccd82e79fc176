import Mathlib.Algebra.Ring.Nat
import ArmaraOS.Lib.HashChain
import ArmaraOS.Lib.Machine
import Mathlib.Data.List.Sort

/-!
The audit trail (`openfang-runtime/src/audit.rs`, with the table of schema V8 in
`openfang-memory/src/migration.rs`).

The SHA-256 of the `sha2` crate is the parameter `sha256Hex`, from the text whose bytes are
hashed to the 64 hex digits of the digest. Timestamps are given with each call. A write to
the table fails when the caller of the model says so, or when its `seq` is taken.
-/

namespace ArmaraOS.Security

open ArmaraOS.Lib

/-- `AuditAction`. -/
inductive AuditAction where
  | toolInvoke | capabilityCheck | agentSpawn | agentKill | agentMessage | memoryAccess
  | fileAccess | networkAccess | shellExec | authAttempt | wireConnect | configChange
  | credentialChange | agentManifestUpdate | cronJobRun | cronJobOutput | cronJobFailure
  | updateCheck | updateInstall
deriving DecidableEq

/-- `AuditAction::to_string`. -/
def AuditAction.toString : AuditAction → String
  | .toolInvoke => "ToolInvoke"
  | .capabilityCheck => "CapabilityCheck"
  | .agentSpawn => "AgentSpawn"
  | .agentKill => "AgentKill"
  | .agentMessage => "AgentMessage"
  | .memoryAccess => "MemoryAccess"
  | .fileAccess => "FileAccess"
  | .networkAccess => "NetworkAccess"
  | .shellExec => "ShellExec"
  | .authAttempt => "AuthAttempt"
  | .wireConnect => "WireConnect"
  | .configChange => "ConfigChange"
  | .credentialChange => "CredentialChange"
  | .agentManifestUpdate => "AgentManifestUpdate"
  | .cronJobRun => "CronJobRun"
  | .cronJobOutput => "CronJobOutput"
  | .cronJobFailure => "CronJobFailure"
  | .updateCheck => "UpdateCheck"
  | .updateInstall => "UpdateInstall"

/-- The `match` on `action_str` in `with_db`. -/
def AuditAction.fromString : String → AuditAction
  | "ToolInvoke" => .toolInvoke
  | "CapabilityCheck" => .capabilityCheck
  | "AgentSpawn" => .agentSpawn
  | "AgentKill" => .agentKill
  | "AgentMessage" => .agentMessage
  | "MemoryAccess" => .memoryAccess
  | "FileAccess" => .fileAccess
  | "NetworkAccess" => .networkAccess
  | "ShellExec" => .shellExec
  | "AuthAttempt" => .authAttempt
  | "WireConnect" => .wireConnect
  | "ConfigChange" => .configChange
  | "CredentialChange" => .credentialChange
  | "AgentManifestUpdate" => .agentManifestUpdate
  | "CronJobRun" => .cronJobRun
  | "CronJobOutput" => .cronJobOutput
  | "CronJobFailure" => .cronJobFailure
  | "UpdateCheck" => .updateCheck
  | "UpdateInstall" => .updateInstall
  | _ => .toolInvoke

@[simp] theorem AuditAction.fromString_toString (a : AuditAction) :
    fromString a.toString = a := by
  cases a <;> rfl

/-- `AuditEntry`. -/
structure AuditEntry where
  seq : Nat
  timestamp : String
  agentId : String
  action : AuditAction
  detail : String
  outcome : String
  prevHash : String
  hash : String
deriving DecidableEq

/-- A row of `audit_entries`. -/
structure AuditRow where
  seq : Nat
  timestamp : String
  agentId : String
  action : String
  detail : String
  outcome : String
  prevHash : String
  hash : String

/-- The rows of `audit_entries`, in the order of their insertion. -/
abbrev AuditTable := List AuditRow

/-- `AuditLog`. The pool's table is part of it, as far as there is one. -/
structure AuditLog where
  entries : List AuditEntry
  tip : String
  db : Option AuditTable

/-- The genesis sentinel, `"0".repeat(64)`. -/
def genesisHash : String := String.ofList (List.replicate 64 '0')

/-- The text whose bytes `compute_entry_hash` feeds to the hasher, one field behind the other. -/
def hashedText (seq : Nat) (timestamp agentId : String) (action : AuditAction)
    (detail outcome prevHash : String) : String :=
  toString seq ++ timestamp ++ agentId ++ action.toString ++ detail ++ outcome ++ prevHash

/-- The hashed text of an entry. -/
def AuditEntry.text (e : AuditEntry) : String :=
  hashedText e.seq e.timestamp e.agentId e.action e.detail e.outcome e.prevHash

section Model

variable (sha256Hex : String → String)

/-- `compute_entry_hash`. -/
def computeEntryHash (seq : Nat) (timestamp agentId : String) (action : AuditAction)
    (detail outcome prevHash : String) : String :=
  sha256Hex (hashedText seq timestamp agentId action detail outcome prevHash)

/-- `AuditLog::new`. -/
def AuditLog.new : AuditLog := { entries := [], tip := genesisHash, db := none }

/-- The closure of `query_map`: an entry from a row. -/
def AuditRow.toEntry (r : AuditRow) : AuditEntry :=
  { seq := r.seq
    timestamp := r.timestamp
    agentId := r.agentId
    action := .fromString r.action
    detail := r.detail
    outcome := r.outcome
    prevHash := r.prevHash
    hash := r.hash }

/-- The values of the INSERT statement. -/
def AuditEntry.toRow (e : AuditEntry) : AuditRow :=
  { seq := e.seq
    timestamp := e.timestamp
    agentId := e.agentId
    action := e.action.toString
    detail := e.detail
    outcome := e.outcome
    prevHash := e.prevHash
    hash := e.hash }

/-- `SELECT .. FROM audit_entries ORDER BY seq ASC`. -/
def selectRows (table : AuditTable) : List AuditRow :=
  table.insertionSort fun a b => a.seq ≤ b.seq

/-- `AuditLog::with_db`. -/
def AuditLog.withDb (pool : AuditTable) : AuditLog :=
  let entries := (selectRows pool).map AuditRow.toEntry
  { entries := entries
    tip := entries.foldl (fun _ e => e.hash) genesisHash
    db := some pool }

/-- The INSERT statement: `seq` is the primary key, and `fails` says that the statement fails
for another reason. The result of the statement is not looked at. -/
def insertRow (table : AuditTable) (row : AuditRow) (fails : Bool) : AuditTable :=
  if fails || table.any fun r => r.seq == row.seq then table else table ++ [row]

/-- The arguments of a call of `record`, with its timestamp and whether the database refuses
the write. -/
structure RecordCall where
  timestamp : String
  agentId : String
  action : AuditAction
  detail : String
  outcome : String
  insertFails : Bool := false
deriving DecidableEq

/-- The entry that `record` builds. -/
def AuditLog.newEntry (log : AuditLog) (call : RecordCall) : AuditEntry :=
  { seq := log.entries.length
    timestamp := call.timestamp
    agentId := call.agentId
    action := call.action
    detail := call.detail
    outcome := call.outcome
    prevHash := log.tip
    hash := computeEntryHash sha256Hex log.entries.length call.timestamp call.agentId call.action
      call.detail call.outcome log.tip }

/-- `AuditLog::record`. -/
def AuditLog.record (log : AuditLog) (call : RecordCall) : AuditLog :=
  let entry := log.newEntry sha256Hex call
  { entries := log.entries ++ [entry]
    tip := entry.hash
    db := log.db.map fun table => insertRow table entry.toRow call.insertFails }

/-- The loop of `verify_integrity`. -/
def verifyFrom (expectedPrev : String) : List AuditEntry → Except String Unit
  | [] => .ok ()
  | e :: rest =>
      if e.prevHash ≠ expectedPrev then
        .error (s!"chain break at seq {e.seq}: expected prev_hash {expectedPrev} " ++
          s!"but found {e.prevHash}")
      else
        let recomputed := computeEntryHash sha256Hex e.seq e.timestamp e.agentId e.action e.detail
          e.outcome e.prevHash
        if recomputed ≠ e.hash then
          .error s!"hash mismatch at seq {e.seq}: expected {recomputed} but found {e.hash}"
        else verifyFrom e.hash rest

/-- `AuditLog::verify_integrity`. -/
def AuditLog.verifyIntegrity (log : AuditLog) : Except String Unit :=
  verifyFrom sha256Hex genesisHash log.entries

/-! ### The chain of the entries -/

/-- How the entries of the trail are hashed and linked. -/
def auditChaining : Chaining AuditEntry String String where
  prev := AuditEntry.prevHash
  hash := AuditEntry.hash
  image := AuditEntry.text
  digest := sha256Hex

/-- What `verify_integrity` accepts is a chain from the sentinel. -/
theorem verifyFrom_ok {h : String} {entries : List AuditEntry} :
    verifyFrom sha256Hex h entries = .ok () ↔ (auditChaining sha256Hex).Linked h entries := by
  induction entries generalizing h with
  | nil => simp [verifyFrom, Chaining.Linked]
  | cons e rest ih =>
      have hdigest : computeEntryHash sha256Hex e.seq e.timestamp e.agentId e.action e.detail
          e.outcome e.prevHash = sha256Hex e.text := rfl
      rw [verifyFrom, Chaining.Linked]
      dsimp only
      rw [hdigest]
      by_cases hprev : e.prevHash = h
      · by_cases hhash : sha256Hex e.text = e.hash
        · rw [if_neg (not_not_intro hprev), if_neg (not_not_intro hhash), ih]
          exact ⟨fun hrest => ⟨hprev, hhash, hrest⟩, fun hlink => hlink.2.2⟩
        · rw [if_neg (not_not_intro hprev), if_pos hhash]
          simp only [reduceCtorEq, false_iff]
          exact fun hlink => hhash hlink.2.1
      · rw [if_pos hprev]
        simp only [reduceCtorEq, false_iff]
        exact fun hlink => hprev hlink.1

/-- `verify_integrity` either accepts or returns an error. -/
theorem verifyFrom_error {h : String} {entries : List AuditEntry} :
    (∃ msg, verifyFrom sha256Hex h entries = .error msg) ↔
      ¬ (auditChaining sha256Hex).Linked h entries := by
  rw [← verifyFrom_ok]
  cases verifyFrom sha256Hex h entries with
  | error msg => simp
  | ok value => simp

/-- The state of a log in memory: a chain that ends in the tip. -/
structure ChainedLog (log : AuditLog) : Prop where
  linked : (auditChaining sha256Hex).Linked genesisHash log.entries
  tip_eq : log.tip = (auditChaining sha256Hex).endHash genesisHash log.entries

theorem chainedLog_new : ChainedLog sha256Hex AuditLog.new := ⟨trivial, rfl⟩

theorem ChainedLog.record {log : AuditLog} (h : ChainedLog sha256Hex log) (call : RecordCall) :
    ChainedLog sha256Hex (log.record sha256Hex call) := by
  constructor
  · exact Chaining.linked_append.mpr ⟨h.linked, Chaining.linked_singleton.mpr ⟨h.tip_eq, rfl⟩⟩
  · exact (Chaining.endHash_concat (C := auditChaining sha256Hex) genesisHash log.entries
      (log.newEntry sha256Hex call)).symm

/-- The log after any calls of `record`. -/
theorem chainedLog_runOps {log : AuditLog} (h : ChainedLog sha256Hex log)
    (calls : List RecordCall) :
    ChainedLog sha256Hex (runOps (AuditLog.record sha256Hex) log calls) :=
  runOps_invariant' (fun _ call hlog => hlog.record sha256Hex call) h calls

end Model

end ArmaraOS.Security
