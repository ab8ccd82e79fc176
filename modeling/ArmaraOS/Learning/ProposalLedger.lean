import ArmaraOS.Lib.Machine
import ArmaraOS.Lib.Table
import ArmaraOS.Lib.Text
import ArmaraOS.Wire.Peer

/-!
The ledger of improvement proposals (`ainl-improvement-proposals/src/ledger.rs`).

Verdict and adoption are columns of one row, written by separate UPDATE statements. The one that
adopts has a guard; the two that write a verdict have none, so a second verdict replaces the first
whatever the row already says. The ledger moves forward in the runs in which no verdict takes back
what the row holds (`ledger_forward_iff`).
-/

namespace ArmaraOS.Learning

open ArmaraOS.Lib
open ArmaraOS.Text (trim toAsciiLowercase)
open ArmaraOS.Wire (asBytes hexEncode)

/-! ### Proposals and their rows -/

/-- `ContextFreshness`. -/
inductive ContextFreshness where
  | fresh | stale | unknown
deriving DecidableEq

/-- `ImpactDecision`. -/
inductive ImpactDecision where
  | allowExecute | requireImpactFirst | blockUntilFresh
deriving DecidableEq

/-- `ProposalEnvelope`. -/
structure ProposalEnvelope where
  schemaVersion : Nat
  originalHash : String
  proposedHash : String
  kind : String
  rationale : String
  freshnessAtProposal : ContextFreshness
  impactDecision : ImpactDecision

/-- A row of `improvement_proposals`. -/
structure ProposalRow where
  id : Nat
  agentId : String
  kind : String
  originalHash : String
  proposedHash : String
  envelopeJson : String
  proposedAinlText : String
  accepted : Bool
  validationError : Option String
  createdAt : Int
  adoptedAt : Option Int
  adoptedGraphNodeId : Option String

/-- `ProposalLedger`: the table, whose primary key is the id. -/
abbrev ProposalLedger := Table ProposalRow.id

/-- `ProposalLedgerError`. -/
inductive ProposalLedgerError where
  | hashMismatch
  | rusqlite (message : String)
  | adoptState

/-- `AdoptResult`. -/
structure AdoptResult where
  id : Nat
  accepted : Bool
  error : Option String

section Sha256

variable (sha256 : List UInt8 → List UInt8)

/-- `sha256_hex_lower`. -/
def sha256HexLower (s : String) : String := hexEncode (sha256 (asBytes s))

/-- A text has a hash, whitespace around the hash and its case aside. -/
def HashMatches (proposedHash proposedAinlText : String) : Prop :=
  sha256HexLower sha256 proposedAinlText = toAsciiLowercase (trim proposedHash)

instance (proposedHash proposedAinlText : String) :
    Decidable (HashMatches sha256 proposedHash proposedAinlText) :=
  inferInstanceAs (Decidable (_ = _))

/-- `proposed_hash_matches`. -/
def proposedHashMatches (envelope : ProposalEnvelope) (proposedAinlText : String) : Bool :=
  decide (HashMatches sha256 envelope.proposedHash proposedAinlText)

end Sha256

/-! ### The three calls -/

namespace ProposalRow

/-- The values of the INSERT statement. -/
def submitted (toJson : ProposalEnvelope → String) (id : Nat) (agentId : String)
    (envelope : ProposalEnvelope) (proposedAinlText : String) (now : Int) : ProposalRow where
  id := id
  agentId := agentId
  kind := envelope.kind
  originalHash := envelope.originalHash
  proposedHash := envelope.proposedHash
  envelopeJson := toJson envelope
  proposedAinlText := proposedAinlText
  accepted := false
  validationError := none
  createdAt := now
  adoptedAt := none
  adoptedGraphNodeId := none

/-- `SET accepted = 1, validation_error = NULL`. -/
def accept (row : ProposalRow) : ProposalRow :=
  { row with accepted := true, validationError := none }

/-- `SET accepted = 0, validation_error = ?1`. -/
def reject (err : String) (row : ProposalRow) : ProposalRow :=
  { row with accepted := false, validationError := some err }

/-- The guard of the statement that adopts. -/
def adoptable (row : ProposalRow) : Bool := row.accepted && row.adoptedAt.isNone

/-- `SET adopted_at = ?1, adopted_graph_node_id = ?2`, where the guard holds. -/
def adopt (now : Int) (nodeId : String) (row : ProposalRow) : ProposalRow :=
  if row.adoptable then
    { row with adoptedAt := some now, adoptedGraphNodeId := some nodeId }
  else
    row

theorem accept_id (row : ProposalRow) : row.accept.id = row.id := rfl

theorem reject_id (err : String) (row : ProposalRow) : (row.reject err).id = row.id := rfl

theorem adopt_id (now : Int) (nodeId : String) (row : ProposalRow) :
    (row.adopt now nodeId).id = row.id := by
  unfold adopt
  split <;> rfl

theorem adopt_of_adoptable {row : ProposalRow} (h : row.adoptable = true) (now : Int)
    (nodeId : String) :
    row.adopt now nodeId =
      { row with adoptedAt := some now, adoptedGraphNodeId := some nodeId } :=
  if_pos h

end ProposalRow

namespace ProposalLedger

/-- `ProposalLedger::submit`. `drawn` is the fresh UUID, `fault` the error of a statement that
is not carried out. -/
def submit (sha256 : List UInt8 → List UInt8) (toJson : ProposalEnvelope → String)
    (ledger : ProposalLedger) (agentId : String) (envelope : ProposalEnvelope)
    (proposedAinlText : String) (drawn : Nat) (now : Int) (fault : Option String) :
    ProposalLedger × Except ProposalLedgerError Nat :=
  if proposedHashMatches sha256 envelope proposedAinlText = false then
    (ledger, .error .hashMismatch)
  else
    match fault, ledger.find drawn with
    | some message, _ => (ledger, .error (.rusqlite message))
    | none, some _ =>
        (ledger, .error (.rusqlite "UNIQUE constraint failed: improvement_proposals.id"))
    | none, none =>
        (ledger.insert (.submitted toJson drawn agentId envelope proposedAinlText now), .ok drawn)

/-- The UPDATE of an accepting verdict. -/
def acceptRow (ledger : ProposalLedger) (id : Nat) : ProposalLedger :=
  ledger.modify id .accept fun row h => row.accept_id.trans h

/-- The UPDATE of a rejecting verdict. -/
def rejectRow (ledger : ProposalLedger) (id : Nat) (err : String) : ProposalLedger :=
  ledger.modify id (.reject err) fun row h => (row.reject_id err).trans h

/-- The UPDATE of an adoption. -/
def adoptRow (ledger : ProposalLedger) (id : Nat) (now : Int) (nodeId : String) :
    ProposalLedger :=
  ledger.modify id (.adopt now nodeId) fun row h => (row.adopt_id now nodeId).trans h

/-- `ProposalLedger::validate_and_record`. -/
def validateAndRecord (ledger : ProposalLedger) (id : Nat)
    (validate : String → Except String Unit) (readFault writeFault : Option String) :
    ProposalLedger × Except ProposalLedgerError AdoptResult :=
  match readFault, ledger.find id with
  | some message, _ => (ledger, .error (.rusqlite message))
  | none, none => (ledger, .error (.rusqlite "Query returned no rows"))
  | none, some row =>
      match writeFault, validate row.proposedAinlText with
      | some message, _ => (ledger, .error (.rusqlite message))
      | none, .ok () => (ledger.acceptRow id, .ok ⟨id, true, none⟩)
      | none, .error err => (ledger.rejectRow id err, .ok ⟨id, false, some err⟩)

/-- `ProposalLedger::mark_adopted`. -/
def markAdopted (ledger : ProposalLedger) (id : Nat) (adoptedGraphNodeId : String) (now : Int)
    (fault : Option String) : ProposalLedger × Except ProposalLedgerError Unit :=
  match fault with
  | some message => (ledger, .error (.rusqlite message))
  | none =>
      let n := ledger.count fun row => row.id == id && row.adoptable
      let updated := ledger.adoptRow id now adoptedGraphNodeId
      if n = 0 then (updated, .error .adoptState) else (updated, .ok ())

end ProposalLedger

/-! ### Runs -/

/-- A call on the ledger, with what it meets. -/
inductive LedgerCall where
  | submit (agentId : String) (envelope : ProposalEnvelope) (proposedAinlText : String)
      (drawn : Nat) (now : Int) (fault : Option String)
  | validateAndRecord (id : Nat) (validate : String → Except String Unit)
      (readFault writeFault : Option String)
  | markAdopted (id : Nat) (adoptedGraphNodeId : String) (now : Int) (fault : Option String)

/-- What a call reports that it recorded. -/
inductive LedgerEvent where
  | accepted (id : Nat)
  | rejected (id : Nat)
  | adopted (id : Nat)
deriving DecidableEq

/-- The proposal of an event. -/
@[simp] def LedgerEvent.id : LedgerEvent → Nat
  | .accepted id => id
  | .rejected id => id
  | .adopted id => id

/-- A ledger, with the events so far, the last one first. -/
structure Recorded where
  ledger : ProposalLedger
  events : List LedgerEvent

/-- A new ledger. -/
def Recorded.start : Recorded := ⟨.empty, []⟩

section Steps

variable (sha256 : List UInt8 → List UInt8) (toJson : ProposalEnvelope → String)

/-- One call, with the event it reports. -/
def ledgerStep (s : Recorded) : LedgerCall → Recorded
  | .submit agentId envelope text drawn now fault =>
      ⟨(s.ledger.submit sha256 toJson agentId envelope text drawn now fault).1, s.events⟩
  | .validateAndRecord id validate readFault writeFault =>
      match s.ledger.validateAndRecord id validate readFault writeFault with
      | (ledger, .ok ⟨id, true, _⟩) => ⟨ledger, .accepted id :: s.events⟩
      | (ledger, .ok ⟨id, false, _⟩) => ⟨ledger, .rejected id :: s.events⟩
      | (ledger, .error _) => ⟨ledger, s.events⟩
  | .markAdopted id nodeId now fault =>
      match s.ledger.markAdopted id nodeId now fault with
      | (ledger, .ok ()) => ⟨ledger, .adopted id :: s.events⟩
      | (ledger, .error _) => ⟨ledger, s.events⟩

/-- The ledger has only moved forward. -/
structure Forward (s : Recorded) : Prop where
  /-- No acceptance comes after a rejection of the same proposal. -/
  rejectedForGood : s.events.Pairwise fun later earlier =>
    ∀ id, later = .accepted id → earlier ≠ .rejected id
  staysRejected : ∀ row ∈ s.ledger.entries, .rejected row.id ∈ s.events → row.accepted = false
  adoptedOnce : ∀ id, s.events.count (.adopted id) ≤ 1
  adoptedAccepted : ∀ id, .adopted id ∈ s.events →
    ∃ row, s.ledger.find id = some row ∧ row.accepted = true
  staysAccepted : ∀ row ∈ s.ledger.entries, row.adoptedAt.isSome → row.accepted = true
  hashed : ∀ row ∈ s.ledger.entries, HashMatches sha256 row.proposedHash row.proposedAinlText

/-- A call takes no verdict back: what it records as accepted holds no rejection, and what it
records as rejected is not adopted. -/
def KeepsVerdict (s : Recorded) : LedgerCall → Prop
  | .validateAndRecord id validate none none =>
      ∀ row, s.ledger.find id = some row →
        match validate row.proposedAinlText with
        | .ok () => row.validationError = none
        | .error _ => row.adoptedAt = none
  | _ => True

/-- The rows say what the events were. -/
structure Faithful (s : Recorded) : Prop where
  forward : Forward sha256 s
  known : ∀ event ∈ s.events, ∃ row ∈ s.ledger.entries, row.id = event.id
  rejected : ∀ row ∈ s.ledger.entries, .rejected row.id ∈ s.events ↔ row.validationError.isSome
  adopted : ∀ row ∈ s.ledger.entries, .adopted row.id ∈ s.events ↔ row.adoptedAt.isSome

end Steps

/-! ### One call -/

section Calls

variable {sha256 : List UInt8 → List UInt8} {toJson : ProposalEnvelope → String}

variable (sha256 toJson) in
/-- A submission adds a row without verdict, under a new id and with the hash of its text, or
nothing. -/
theorem submit_cases (s : Recorded) (agentId : String) (envelope : ProposalEnvelope)
    (text : String) (drawn : Nat) (now : Int) (fault : Option String) :
    let s' := ledgerStep sha256 toJson s (.submit agentId envelope text drawn now fault)
    s' = s ∨ s.ledger.find drawn = none ∧ HashMatches sha256 envelope.proposedHash text ∧
      s' = ⟨s.ledger.insert (.submitted toJson drawn agentId envelope text now), s.events⟩ := by
  simp only [ledgerStep, ProposalLedger.submit]
  by_cases hmatches : proposedHashMatches sha256 envelope text = false
  · rw [if_pos hmatches]
    exact .inl rfl
  · rw [if_neg hmatches]
    rw [Bool.not_eq_false, proposedHashMatches, decide_eq_true_eq] at hmatches
    cases fault with
    | some message => exact .inl rfl
    | none =>
        cases hfind : s.ledger.find drawn with
        | some row => exact .inl rfl
        | none => exact .inr ⟨rfl, hmatches, rfl⟩

variable (sha256 toJson) in
/-- A verdict is written into the row of its proposal, or nothing is. -/
theorem validateAndRecord_cases (s : Recorded) (id : Nat) (validate : String → Except String Unit)
    (readFault writeFault : Option String) :
    let s' := ledgerStep sha256 toJson s (.validateAndRecord id validate readFault writeFault)
    s' = s ∨ ∃ row, readFault = none ∧ writeFault = none ∧ s.ledger.find id = some row ∧
      ((validate row.proposedAinlText = .ok () ∧
          s' = ⟨s.ledger.acceptRow id, .accepted id :: s.events⟩) ∨
        ∃ err, validate row.proposedAinlText = .error err ∧
          s' = ⟨s.ledger.rejectRow id err, .rejected id :: s.events⟩) := by
  simp only [ledgerStep, ProposalLedger.validateAndRecord]
  cases readFault with
  | some message => exact .inl rfl
  | none =>
      cases hfind : s.ledger.find id with
      | none => exact .inl rfl
      | some row =>
          cases writeFault with
          | some message => exact .inl rfl
          | none =>
              refine .inr ⟨row, rfl, rfl, rfl, ?_⟩
              cases hverdict : validate row.proposedAinlText with
              | ok verdict => exact .inl ⟨rfl, by simp only [hverdict]⟩
              | error err => exact .inr ⟨err, rfl, by simp only [hverdict]⟩

variable (sha256 toJson) in
/-- An adoption is written into a row that is accepted and not yet adopted, or nothing is. -/
theorem markAdopted_cases (s : Recorded) (id : Nat) (nodeId : String) (now : Int)
    (fault : Option String) :
    let s' := ledgerStep sha256 toJson s (.markAdopted id nodeId now fault)
    s' = s ∨ ∃ row, s.ledger.find id = some row ∧ row.adoptable = true ∧
      s' = ⟨s.ledger.adoptRow id now nodeId, .adopted id :: s.events⟩ := by
  simp only [ledgerStep, ProposalLedger.markAdopted]
  cases fault with
  | some message => exact .inl rfl
  | none =>
      by_cases hn : (s.ledger.count fun row => row.id == id && row.adoptable) = 0
      · left
        simp only [if_pos hn, ProposalLedger.adoptRow]
        rw [Table.modify_eq_self]
        intro row hrow hid
        refine if_neg fun hguard => ?_
        have hfails := List.countP_eq_zero.mp hn row hrow
        simp [hid, hguard] at hfails
      · right
        obtain ⟨row, hrow, hguard⟩ := List.countP_pos_iff.mp (Nat.pos_of_ne_zero hn)
        rw [Bool.and_eq_true, beq_iff_eq] at hguard
        refine ⟨row, Table.find_eq_some_iff.mpr ⟨hrow, hguard.1⟩, hguard.2, ?_⟩
        simp only [if_neg hn]

theorem Faithful.start : Faithful sha256 .start where
  forward :=
    { rejectedForGood := .nil
      staysRejected := fun _ hrow => absurd hrow Table.not_mem_empty
      adoptedOnce := fun _ => Nat.zero_le 1
      adoptedAccepted := fun _ hmem => absurd hmem List.not_mem_nil
      staysAccepted := fun _ hrow => absurd hrow Table.not_mem_empty
      hashed := fun _ hrow => absurd hrow Table.not_mem_empty }
  known := fun _ hmem => absurd hmem List.not_mem_nil
  rejected := fun _ hrow => absurd hrow Table.not_mem_empty
  adopted := fun _ hrow => absurd hrow Table.not_mem_empty

/-- A row without verdict, under an id that no event has. -/
theorem Faithful.insert {s : Recorded} (h : Faithful sha256 s) {row : ProposalRow}
    (hnew : s.ledger.find row.id = none) (hverdict : row.validationError = none)
    (hadopted : row.adoptedAt = none)
    (hhash : HashMatches sha256 row.proposedHash row.proposedAinlText) :
    Faithful sha256 ⟨s.ledger.insert row, s.events⟩ := by
  have hold : ∀ row' ∈ s.ledger.entries, row' ∈ (s.ledger.insert row).entries :=
    fun row' hrow' =>
      Table.mem_insert.mpr (.inr ⟨hrow', Table.find_eq_none_iff.mp hnew row' hrow'⟩)
  have hsilent : ∀ event ∈ s.events, event.id ≠ row.id := by
    intro event hevent hid
    obtain ⟨row', hrow', hid'⟩ := h.known event hevent
    exact Table.find_eq_none_iff.mp hnew row' hrow' (hid'.trans hid)
  refine ⟨⟨h.forward.rejectedForGood, ?_, h.forward.adoptedOnce, ?_, ?_, ?_⟩, ?_, ?_, ?_⟩
  · intro row' hrow' hmem
    rcases Table.mem_insert.mp hrow' with rfl | ⟨hrow', -⟩
    · exact absurd rfl (hsilent _ hmem)
    · exact h.forward.staysRejected row' hrow' hmem
  · intro id hmem
    obtain ⟨row', hfind, haccepted⟩ := h.forward.adoptedAccepted id hmem
    obtain ⟨hrow', hid⟩ := Table.find_eq_some_iff.mp hfind
    exact ⟨row', Table.find_eq_some_iff.mpr ⟨hold row' hrow', hid⟩, haccepted⟩
  · intro row' hrow' hsome
    rcases Table.mem_insert.mp hrow' with rfl | ⟨hrow', -⟩
    · simp [hadopted] at hsome
    · exact h.forward.staysAccepted row' hrow' hsome
  · intro row' hrow'
    rcases Table.mem_insert.mp hrow' with rfl | ⟨hrow', -⟩
    · exact hhash
    · exact h.forward.hashed row' hrow'
  · intro event hevent
    obtain ⟨row', hrow', hid⟩ := h.known event hevent
    exact ⟨row', hold row' hrow', hid⟩
  · intro row' hrow'
    rcases Table.mem_insert.mp hrow' with rfl | ⟨hrow', -⟩
    · have hnone : .rejected row'.id ∉ s.events := fun hmem => hsilent _ hmem rfl
      simp [hverdict, hnone]
    · exact h.rejected row' hrow'
  · intro row' hrow'
    rcases Table.mem_insert.mp hrow' with rfl | ⟨hrow', -⟩
    · have hnone : .adopted row'.id ∉ s.events := fun hmem => hsilent _ hmem rfl
      simp [hadopted, hnone]
    · exact h.adopted row' hrow'

/-- A row rewritten so that it says what the events with the new one were. -/
theorem Faithful.rewrite {s : Recorded} (h : Faithful sha256 s) {row : ProposalRow}
    {f : ProposalRow → ProposalRow} (event : LedgerEvent)
    {hf : ∀ row, row.id = event.id → (f row).id = event.id}
    (hfind : s.ledger.find event.id = some row)
    (hnotRejected : event = .accepted event.id → .rejected event.id ∉ s.events)
    (hnotAdopted : event = .adopted event.id → .adopted event.id ∉ s.events)
    (hrejected : .rejected event.id ∈ event :: s.events ↔ (f row).validationError.isSome)
    (hadopted : .adopted event.id ∈ event :: s.events ↔ (f row).adoptedAt.isSome)
    (hstaysRejected : (f row).validationError.isSome → (f row).accepted = false)
    (hstaysAccepted : (f row).adoptedAt.isSome → (f row).accepted = true)
    (hhash : HashMatches sha256 (f row).proposedHash (f row).proposedAinlText) :
    Faithful sha256 ⟨s.ledger.modify event.id f hf, event :: s.events⟩ := by
  obtain ⟨hrow, hid⟩ := Table.find_eq_some_iff.mp hfind
  have hfid : (f row).id = event.id := hf row hid
  have hmem : ∀ {row'}, row' ∈ (s.ledger.modify event.id f hf).entries ↔
      row' = f row ∨ row' ∈ s.ledger.entries ∧ row'.id ≠ event.id :=
    Table.mem_modify_of_find hf hfind
  -- For the other rows, the new event is none of theirs.
  have hother : ∀ {id : Nat} {e : LedgerEvent}, id ≠ event.id → e.id = id →
      e ∈ event :: s.events → e ∈ s.events := by
    intro id e hne he hmem
    rcases List.mem_cons.mp hmem with rfl | hmem
    · exact absurd he.symm hne
    · exact hmem
  refine ⟨⟨?_, ?_, ?_, ?_, ?_, ?_⟩, ?_, ?_, ?_⟩
  · refine List.pairwise_cons.mpr ⟨?_, h.forward.rejectedForGood⟩
    rintro earlier hearlier id rfl rfl
    exact hnotRejected rfl hearlier
  · intro row' hrow' hevent
    rcases hmem.mp hrow' with rfl | ⟨hrow', hne⟩
    · rw [hfid] at hevent
      exact hstaysRejected (hrejected.mp hevent)
    · exact h.forward.staysRejected row' hrow' (hother hne rfl hevent)
  · intro id
    by_cases hevent : event = .adopted id
    · subst hevent
      have hnone : .adopted id ∉ s.events := hnotAdopted rfl
      rw [List.count_cons_self, List.count_eq_zero.mpr hnone]
    · rw [List.count_cons_of_ne hevent]
      exact h.forward.adoptedOnce id
  · intro id hevent
    by_cases hne : id = event.id
    · subst hne
      exact ⟨f row, Table.find_modify hf hfind, hstaysAccepted (hadopted.mp hevent)⟩
    · obtain ⟨row', hfind', haccepted⟩ := h.forward.adoptedAccepted id (hother hne rfl hevent)
      obtain ⟨hrow', hid'⟩ := Table.find_eq_some_iff.mp hfind'
      refine ⟨row', Table.find_eq_some_iff.mpr ⟨hmem.mpr (.inr ⟨hrow', ?_⟩), hid'⟩, haccepted⟩
      rw [hid']
      exact hne
  · intro row' hrow' hsome
    rcases hmem.mp hrow' with rfl | ⟨hrow', -⟩
    · exact hstaysAccepted hsome
    · exact h.forward.staysAccepted row' hrow' hsome
  · intro row' hrow'
    rcases hmem.mp hrow' with rfl | ⟨hrow', -⟩
    · exact hhash
    · exact h.forward.hashed row' hrow'
  · intro e he
    by_cases hne : e.id = event.id
    · exact ⟨f row, hmem.mpr (.inl rfl), hfid.trans hne.symm⟩
    · obtain ⟨row', hrow', hid'⟩ := h.known e (hother hne rfl he)
      refine ⟨row', hmem.mpr (.inr ⟨hrow', ?_⟩), hid'⟩
      rw [hid']
      exact hne
  · intro row' hrow'
    rcases hmem.mp hrow' with rfl | ⟨hrow', hne⟩
    · rw [hfid]
      exact hrejected
    · rw [← h.rejected row' hrow']
      exact ⟨hother hne rfl, List.mem_cons_of_mem _⟩
  · intro row' hrow'
    rcases hmem.mp hrow' with rfl | ⟨hrow', hne⟩
    · rw [hfid]
      exact hadopted
    · rw [← h.adopted row' hrow']
      exact ⟨hother hne rfl, List.mem_cons_of_mem _⟩

end Calls

/-! ### Whole runs -/

section Runs

variable {sha256 : List UInt8 → List UInt8} {toJson : ProposalEnvelope → String}

/-- An accepted row holds no rejection. -/
theorem Faithful.not_rejected {s : Recorded} (h : Faithful sha256 s) {row : ProposalRow}
    (hrow : row ∈ s.ledger.entries) (haccepted : row.accepted = true) :
    row.validationError = none := by
  by_contra hsome
  have hevent : .rejected row.id ∈ s.events :=
    (h.rejected row hrow).mpr (Option.isSome_iff_ne_none.mpr hsome)
  simp [h.forward.staysRejected row hrow hevent] at haccepted

/-- **Step lemma.** A call that takes no verdict back keeps the rows and the events together. -/
theorem Faithful.step {s : Recorded} (h : Faithful sha256 s) {call : LedgerCall}
    (hkeeps : KeepsVerdict s call) : Faithful sha256 (ledgerStep sha256 toJson s call) := by
  cases call with
  | submit agentId envelope text drawn now fault =>
      rcases submit_cases sha256 toJson s agentId envelope text drawn now fault with
        hsame | ⟨hnew, hmatches, hstep⟩
      · rw [hsame]
        exact h
      · rw [hstep]
        exact h.insert hnew rfl rfl hmatches
  | validateAndRecord id validate readFault writeFault =>
      rcases validateAndRecord_cases sha256 toJson s id validate readFault
        writeFault with hsame | ⟨row, rfl, rfl, hfind, hwritten⟩
      · rw [hsame]
        exact h
      · obtain ⟨hrow, rfl⟩ := Table.find_eq_some_iff.mp hfind
        have hverdict := hkeeps row hfind
        rcases hwritten with ⟨haccept, hstep⟩ | ⟨err, hreject, hstep⟩
        · rw [hstep]
          rw [haccept] at hverdict
          have hnotRejected : .rejected row.id ∉ s.events := by
            rw [h.rejected row hrow, hverdict]
            exact Bool.false_ne_true
          refine h.rewrite (.accepted row.id) hfind (fun _ => hnotRejected) nofun ?_ ?_
            nofun (fun _ => rfl) (h.forward.hashed row hrow)
          · simpa [ProposalRow.accept] using hnotRejected
          · simpa [ProposalRow.accept] using h.adopted row hrow
        · rw [hstep]
          rw [hreject] at hverdict
          have hnotAdopted : .adopted row.id ∉ s.events := by
            rw [h.adopted row hrow, hverdict]
            exact Bool.false_ne_true
          refine h.rewrite (.rejected row.id) hfind nofun nofun ?_ ?_ (fun _ => rfl) ?_
            (h.forward.hashed row hrow)
          · simp [ProposalRow.reject]
          · simpa [ProposalRow.reject, hverdict] using hnotAdopted
          · simp [ProposalRow.reject, hverdict]
  | markAdopted id nodeId now fault =>
      rcases markAdopted_cases sha256 toJson s id nodeId now fault with
        hsame | ⟨row, hfind, hadoptable, hstep⟩
      · rw [hsame]
        exact h
      · obtain ⟨hrow, rfl⟩ := Table.find_eq_some_iff.mp hfind
        obtain ⟨haccepted, hnew⟩ := Bool.and_eq_true_iff.mp hadoptable
        rw [Option.isNone_iff_eq_none] at hnew
        have hnotAdopted : .adopted row.id ∉ s.events := by
          rw [h.adopted row hrow, hnew]
          exact Bool.false_ne_true
        have hclean := h.not_rejected hrow haccepted
        rw [hstep]
        refine h.rewrite (.adopted row.id) hfind nofun (fun _ => hnotAdopted) ?_ ?_ ?_ ?_
          ?_
        all_goals rw [ProposalRow.adopt_of_adoptable hadoptable]
        · simpa [hclean] using h.rejected row hrow
        · simp
        · simp [hclean]
        · exact fun _ => haccepted
        · exact h.forward.hashed row hrow

/-- A verdict that takes back what the row holds shows in the next state. -/
theorem Faithful.not_forward {s : Recorded} (h : Faithful sha256 s) {call : LedgerCall}
    (htakes : ¬ KeepsVerdict s call) : ¬ Forward sha256 (ledgerStep sha256 toJson s call) := by
  unfold KeepsVerdict at htakes
  split at htakes
  · next id validate =>
      push Not at htakes
      obtain ⟨row, hfind, htakes⟩ := htakes
      obtain ⟨hrow, rfl⟩ := Table.find_eq_some_iff.mp hfind
      intro hforward
      simp only [ledgerStep, ProposalLedger.validateAndRecord, hfind] at hforward
      cases hverdict : validate row.proposedAinlText with
      | ok verdict =>
          simp only [hverdict] at htakes hforward
          have hevent : .rejected row.id ∈ s.events :=
            (h.rejected row hrow).mpr (Option.isSome_iff_ne_none.mpr htakes)
          exact (List.pairwise_cons.mp hforward.rejectedForGood).1 _ hevent row.id rfl rfl
      | error err =>
          simp only [hverdict] at htakes hforward
          have hevent : .adopted row.id ∈ s.events :=
            (h.adopted row hrow).mpr (Option.isSome_iff_ne_none.mpr htakes)
          obtain ⟨row', hfind', haccepted⟩ :=
            hforward.adoptedAccepted row.id (List.mem_cons_of_mem _ hevent)
          have hrejected := Table.find_modify (f := ProposalRow.reject err)
            (fun row' h => (row'.reject_id err).trans h) hfind
          obtain rfl := Option.some.inj (hrejected.symm.trans hfind')
          exact Bool.false_ne_true haccepted
  · exact absurd trivial htakes

end Runs

/-- **A ledger moves forward throughout a run exactly if no call of it takes a verdict back.** -/
theorem ledger_forward_iff (sha256 : List UInt8 → List UInt8)
    (toJson : ProposalEnvelope → String) (calls : List LedgerCall) :
    (∀ s ∈ passed (ledgerStep sha256 toJson) .start calls, Forward sha256 s) ↔
      Guarded (ledgerStep sha256 toJson) KeepsVerdict .start calls :=
  passed_safe_iff (fun _ h => h.forward) (fun _ _ h hkeeps => h.step hkeeps)
    (fun _ _ h htakes => h.not_forward htakes) Faithful.start

/-! ### A proposal accepted after its rejection -/

/-- SHA-256 on the text `graph t1` in two lines. -/
def graphDigest (bytes : List UInt8) : List UInt8 :=
  if bytes = asBytes "graph\nt1\n" then
    [83, 179, 43, 133, 137, 170, 248, 67, 227, 162, 218, 66, 18, 231, 207, 202,
      154, 177, 56, 125, 114, 171, 31, 88, 114, 4, 63, 81, 118, 106, 101, 108]
  else
    []

/-- A proposal of that text. -/
def graphProposal : ProposalEnvelope where
  schemaVersion := 1
  originalHash := String.ofList (List.replicate 64 'a')
  proposedHash := "53b32b8589aaf843e3a2da4212e7cfca9ab1387d72ab1f5872043f51766a656c"
  kind := "pattern_promote"
  rationale := "test"
  freshnessAtProposal := .fresh
  impactDecision := .allowExecute

/-- The proposal is submitted and rejected, and a second validation accepts it. -/
def retriedCalls : List LedgerCall :=
  [.submit "a1" graphProposal "graph\nt1\n" 1 1759000000 none,
    .validateAndRecord 1 (fun _ => .error "no") none none,
    .validateAndRecord 1 (fun _ => .ok ()) none none]

theorem retried_proposal_accepted :
    ¬ ∀ (sha256 : List UInt8 → List UInt8) (toJson : ProposalEnvelope → String)
        (calls : List LedgerCall),
      ∀ s ∈ passed (ledgerStep sha256 toJson) .start calls, Forward sha256 s := by
  intro hall
  let last := runOps (ledgerStep graphDigest fun _ => "") .start retriedCalls
  have hlast : Forward graphDigest last :=
    hall graphDigest (fun _ => "") retriedCalls last
      (mem_passed.mpr ⟨retriedCalls, List.prefix_rfl, rfl⟩)
  have hevents : last.events = [.accepted 1, .rejected 1] := by decide +kernel
  have hforGood := hlast.rejectedForGood
  rw [hevents] at hforGood
  exact (List.pairwise_cons.mp hforGood).1 _ List.mem_cons_self 1 rfl rfl

end ArmaraOS.Learning
