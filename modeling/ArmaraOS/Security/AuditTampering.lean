import ArmaraOS.Security.AuditLog

/-!
Edits of the audit trail and what `verify_integrity` sees of them.

The check recomputes each hash from the fields next to it and follows the links from the
sentinel. It accepts exactly the lists that hash to themselves, whatever was recorded: a
trail whose last entries are gone, one with entries added on top, and one that was hashed
anew are all accepted, since the stored tip is not compared. Of the edits that leave the
last hash at the tip, the check sees those that change a hashed text, and misses those that
only move characters between neighbouring fields, because the fields are hashed one behind
the other.
-/

namespace ArmaraOS.Security

open ArmaraOS.Lib

section Tampering

variable (sha256Hex : String → String)

/-- The entry with the fields of `e` that `record` would build behind the hash `h`. -/
def AuditEntry.resealed (h : String) (e : AuditEntry) : AuditEntry :=
  { e with
    prevHash := h
    hash := computeEntryHash sha256Hex e.seq e.timestamp e.agentId e.action e.detail e.outcome h }

/-- The trail with the fields of `entries` that `record` would build behind the hash `h`. -/
def rehash (h : String) : List AuditEntry → List AuditEntry
  | [] => []
  | e :: rest => e.resealed sha256Hex h :: rehash (e.resealed sha256Hex h).hash rest

theorem resealed_eq_iff {h : String} {e : AuditEntry} :
    e.resealed sha256Hex h = e ↔ e.prevHash = h ∧ sha256Hex e.text = e.hash := by
  constructor
  · intro heq
    have hprev : h = e.prevHash := congrArg AuditEntry.prevHash heq
    have hhash := congrArg AuditEntry.hash heq
    subst hprev
    exact ⟨rfl, hhash⟩
  · rintro ⟨rfl, hhash⟩
    have hsame : computeEntryHash sha256Hex e.seq e.timestamp e.agentId e.action e.detail
      e.outcome e.prevHash = e.hash := hhash
    rw [AuditEntry.resealed, hsame]

/-- The chains are the trails that hash to themselves. -/
theorem rehash_eq_iff {h : String} {entries : List AuditEntry} :
    rehash sha256Hex h entries = entries ↔ (auditChaining sha256Hex).Linked h entries := by
  induction entries generalizing h with
  | nil => simp [rehash, Chaining.Linked]
  | cons e rest ih =>
      rw [rehash, List.cons_eq_cons, resealed_eq_iff, Chaining.Linked]
      constructor
      · rintro ⟨⟨hprev, hhash⟩, htail⟩
        rw [(resealed_eq_iff sha256Hex).mpr ⟨hprev, hhash⟩] at htail
        exact ⟨hprev, hhash, ih.mp htail⟩
      · rintro ⟨hprev, hhash, hrest⟩
        refine ⟨⟨hprev, hhash⟩, ?_⟩
        rw [(resealed_eq_iff sha256Hex).mpr ⟨hprev, hhash⟩]
        exact ih.mpr hrest

/-- The edited trail is the recorded one up to where its fields begin and end: entry by entry
the hashed texts, the links and the hashes agree. -/
def Respelled (entries edited : List AuditEntry) : Prop :=
  List.Forall₂ (auditChaining sha256Hex).SameLink entries edited

variable {sha256Hex}

theorem respelled_iff_map {entries edited : List AuditEntry} :
    Respelled sha256Hex entries edited ↔
      entries.map (fun e => (e.text, e.prevHash, e.hash)) =
        edited.map fun e => (e.text, e.prevHash, e.hash) := by
  rw [← List.forall₂_eq_eq_eq, List.forall₂_map_left_iff, List.forall₂_map_right_iff]
  simp only [Prod.mk.injEq]
  rfl

theorem length_genesisHash : genesisHash.length = 64 := by
  unfold genesisHash
  simp only [String.length_ofList, List.length_replicate]

/-- The links of a chain have the length of a digest. -/
theorem length_prevHash (hlength : ∀ s, (sha256Hex s).length = 64) {entries : List AuditEntry}
    (hlinked : (auditChaining sha256Hex).Linked genesisHash entries) :
    ∀ e ∈ entries, e.prevHash.length = 64 := by
  intro e he
  rcases hlinked.prev_eq e he with hgenesis | ⟨text, hdigest⟩
  · rw [show e.prevHash = genesisHash from hgenesis, length_genesisHash]
  · rw [show e.prevHash = sha256Hex text from hdigest, hlength]

/-- A hashed text determines the link at its end. -/
theorem prevHash_of_text {e f : AuditEntry} (htext : e.text = f.text)
    (he : e.prevHash.length = 64) (hf : f.prevHash.length = 64) : e.prevHash = f.prevHash := by
  have hchars := congrArg String.toList htext
  simp only [AuditEntry.text, hashedText, String.toList_append] at hchars
  apply String.toList_injective
  apply List.append_inj_right' hchars
  rw [String.length_toList, String.length_toList, he, hf]

/-- Chains that end in one hash are respellings of each other. -/
theorem respelled_of_linked (hlength : ∀ s, (sha256Hex s).length = 64)
    {entries edited : List AuditEntry}
    (hentries : (auditChaining sha256Hex).Linked genesisHash entries)
    (hedited : (auditChaining sha256Hex).Linked genesisHash edited)
    (hend : (auditChaining sha256Hex).endHash genesisHash entries =
      (auditChaining sha256Hex).endHash genesisHash edited)
    (hfree : (auditChaining sha256Hex).CollisionFree entries edited)
    (hgenesis : ∀ e ∈ entries ++ edited, e.hash ≠ genesisHash) :
    Respelled sha256Hex entries edited := by
  refine hentries.commits hedited hend hfree ?_ ?_ ?_
  · intro e he f hf htext
    exact prevHash_of_text htext (length_prevHash hlength hentries e he)
      (length_prevHash hlength hedited f hf)
  · exact fun e he => hgenesis e (List.mem_append_left _ he)
  · exact fun f hf => hgenesis f (List.mem_append_right _ hf)

/-- **The edits that `verify_integrity` sees.** After any calls of `record`, an edit of the
entries is seen exactly when the edited trail does not hash to itself. An edit that leaves
the last hash at the stored tip is seen exactly when it is no respelling, if the digest
separates the hashed texts and none of them hashes to the sentinel. -/
theorem tampering_detected_iff (hlength : ∀ s, (sha256Hex s).length = 64)
    (calls : List RecordCall) (edited : List AuditEntry) :
    let log := runOps (AuditLog.record sha256Hex) AuditLog.new calls
    let seen := ∃ msg,
      ({ log with entries := edited } : AuditLog).verifyIntegrity sha256Hex = .error msg
    (seen ↔ rehash sha256Hex genesisHash edited ≠ edited) ∧
      ((auditChaining sha256Hex).endHash genesisHash edited = log.tip →
        (auditChaining sha256Hex).CollisionFree log.entries edited →
        (∀ e ∈ log.entries ++ edited, e.hash ≠ genesisHash) →
        (seen ↔ ¬ Respelled sha256Hex log.entries edited)) := by
  intro log seen
  have hlog : ChainedLog sha256Hex log :=
    chainedLog_runOps sha256Hex (chainedLog_new sha256Hex) calls
  have hseen : seen ↔ ¬ (auditChaining sha256Hex).Linked genesisHash edited :=
    verifyFrom_error sha256Hex
  constructor
  · rw [hseen, ne_eq, rehash_eq_iff]
  · intro hend hfree hgenesis
    rw [hseen, not_iff_not]
    constructor
    · intro hedited
      exact respelled_of_linked hlength hlog.linked hedited (hlog.tip_eq.symm.trans hend.symm)
        hfree hgenesis
    · intro hsame
      exact (Chaining.linked_congr hsame).mp hlog.linked

end Tampering

/-! ### Two entries -/

/-- The digests of the texts below. -/
def sampleSha256 (text : String) : String :=
  if text = "02026-01-01T00:00:00+00:00agent-1ToolInvokeread_file /tmp/aok" ++ genesisHash then
    "662cdf6aeb76cdc65b37a1b1315535e429c93bcd1967f14d499f5c303c9cebec"
  else if text = "12026-01-01T00:00:01+00:00agent-1ShellExecrm -rf /denied" ++
      "662cdf6aeb76cdc65b37a1b1315535e429c93bcd1967f14d499f5c303c9cebec" then
    "af52e3c09b59714dae359d1f63421ee580afa512dc44dcc01879130624a724ae"
  else if text = "12026-01-01T00:00:01+00:00agent-1ShellExececho hellodenied" ++
      "662cdf6aeb76cdc65b37a1b1315535e429c93bcd1967f14d499f5c303c9cebec" then
    "7d3315a02107e05908f2d8ee65a427ddfd1ffe8a1f433eb0dbb598562baedf51"
  else String.ofList (List.replicate 64 'f')

/-- A call that was allowed. -/
def sampleFirst : RecordCall :=
  { timestamp := "2026-01-01T00:00:00+00:00"
    agentId := "agent-1"
    action := .toolInvoke
    detail := "read_file /tmp/a"
    outcome := "ok" }

/-- A call that was denied. -/
def sampleSecond : RecordCall :=
  { timestamp := "2026-01-01T00:00:01+00:00"
    agentId := "agent-1"
    action := .shellExec
    detail := "rm -rf /"
    outcome := "denied" }

/-- The trail of the two calls. -/
def sampleLog : AuditLog := runOps (AuditLog.record sampleSha256) AuditLog.new [sampleFirst, sampleSecond]

/-- The trail with other fields in the second entry. -/
def sampleEdit (detail outcome : String) : List AuditEntry :=
  sampleLog.entries.map fun e =>
    if e.seq = 1 then { e with detail := detail, outcome := outcome } else e

theorem length_sampleSha256 (text : String) : (sampleSha256 text).length = 64 := by
  unfold sampleSha256
  split
  · decide +kernel
  · split
    · decide +kernel
    · split
      · decide +kernel
      · rw [String.length_ofList, List.length_replicate]

/-- Both edits leave the last hash at the tip. Another command is seen, and a respelling is not. -/
theorem tampering_detected_command :
    let seen := fun edited => ∃ msg,
      ({ sampleLog with entries := edited } : AuditLog).verifyIntegrity sampleSha256 = .error msg
    seen (sampleEdit "echo hello" "denied") ∧ ¬ seen (sampleEdit "rm -rf /de" "nied") := by
  have hiff := fun edited =>
    (tampering_detected_iff length_sampleSha256 [sampleFirst, sampleSecond] edited).2
  constructor
  · refine (hiff _ (by decide +kernel) ?_ (by decide +kernel)).mpr ?_
    · intro e he f hf
      revert e f
      decide +kernel
    · rw [respelled_iff_map]
      decide +kernel
  · refine mt (hiff _ (by decide +kernel) ?_ (by decide +kernel)).mp (not_not_intro ?_)
    · intro e he f hf
      revert e f
      decide +kernel
    · rw [respelled_iff_map]
      decide +kernel

/-- **Two edits that are not seen.** The second entry is dropped. Characters move from the
outcome of the second entry to its detail. -/
theorem edits_undetected :
    let cut := sampleLog.entries.dropLast
    let moved := sampleEdit "rm -rf /de" "nied"
    (auditChaining sampleSha256).CollisionFree sampleLog.entries sampleLog.entries ∧
      cut ≠ sampleLog.entries ∧
      ({ sampleLog with entries := cut } : AuditLog).verifyIntegrity sampleSha256 = .ok () ∧
      moved ≠ sampleLog.entries ∧
      ({ sampleLog with entries := moved } : AuditLog).verifyIntegrity sampleSha256 = .ok () := by
  refine ⟨?_, by decide +kernel, ?_, by decide +kernel, ?_⟩
  · intro e he f hf
    revert e f
    decide +kernel
  · exact (verifyFrom_ok sampleSha256).mpr ((rehash_eq_iff sampleSha256).mp (by decide +kernel))
  · exact (verifyFrom_ok sampleSha256).mpr ((rehash_eq_iff sampleSha256).mp (by decide +kernel))

end ArmaraOS.Security
