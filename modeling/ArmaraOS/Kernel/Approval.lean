import ArmaraOS.Lib.Machine
import Mathlib.Algebra.Ring.Nat

/-!
Approval requests and their resolution (`openfang-kernel/src/approval.rs`).

One `request_approval` and one `resolve` for the same id take their atomic steps in any order: the
entry in `pending`, the record in `recent` and the oneshot channel are separate. A waiting request
may run out of time as long as nothing was sent, also after `resolve` has taken its entry; and
`resolve` may still take the entry of a request that has run out of time. Both ways the two sides
cross: each writes its record, and the request returns `TimedOut` whatever the decision was. Runs in
which they do not cross are the runs in which they agree (`approval_sides_agree_iff`).
-/

namespace ArmaraOS.Kernel

open ArmaraOS.Lib

/-- `RiskLevel`. -/
inductive RiskLevel where
  | low | medium | high | critical
deriving DecidableEq

/-- `ApprovalDecision`. -/
inductive ApprovalDecision where
  | approved | denied | timedOut
deriving DecidableEq

/-- `ApprovalRequest`. -/
structure ApprovalRequest where
  id : Nat
  agentId : String
  toolName : String
  description : String
  actionSummary : String
  riskLevel : RiskLevel
  requestedAt : Int
  timeoutSecs : Nat
deriving DecidableEq

/-- `ApprovalRecord`. -/
structure ApprovalRecord where
  request : ApprovalRequest
  decision : ApprovalDecision
  decidedAt : Int
  decidedBy : Option String

/-- `MAX_PENDING_PER_AGENT`. -/
def maxPendingPerAgent : Nat := 5

/-- `MAX_RECENT_APPROVALS`. -/
def maxRecentApprovals : Nat := 100

/-- `ApprovalManager`, without its policy. The sender of a pending request is the channel of
the exchange below. -/
structure ApprovalManager where
  pending : List ApprovalRequest
  recent : List ApprovalRecord

namespace ApprovalManager

/-- `pending.get(&id)`. -/
def find (m : ApprovalManager) (id : Nat) : Option ApprovalRequest :=
  m.pending.find? fun r => r.id == id

/-- `pending.remove(&id)`, the map. -/
def erase (m : ApprovalManager) (id : Nat) : ApprovalManager :=
  { m with pending := m.pending.filter fun r => r.id != id }

/-- `pending.insert(id, ..)`. -/
def insert (m : ApprovalManager) (request : ApprovalRequest) : ApprovalManager :=
  { m with pending := request :: (m.erase request.id).pending }

/-- `agent_pending`. -/
def agentPending (m : ApprovalManager) (agentId : String) : Nat :=
  m.pending.countP fun r => r.agentId == agentId

/-- `push_recent`. -/
def pushRecent (m : ApprovalManager) (r : ApprovalRecord) : ApprovalManager :=
  { m with recent := (r :: m.recent).take maxRecentApprovals }

/-- The number of recent records of a request. -/
def records (m : ApprovalManager) (id : Nat) : Nat :=
  m.recent.countP fun r => r.request.id == id

@[simp] theorem find_insert (m : ApprovalManager) (request : ApprovalRequest) :
    (m.insert request).find request.id = some request := by
  simp [insert, find]

@[simp] theorem find_erase (m : ApprovalManager) (id : Nat) : (m.erase id).find id = none := by
  simp [erase, find]

/-- The newest records are `n` of a request, and no others are of it. -/
def FewRecords (m : ApprovalManager) (id n : Nat) : Prop :=
  n ≤ 2 ∧ ∃ front back, m.recent = front ++ back ∧ front.length = n ∧
    (∀ r ∈ front, r.request.id = id) ∧ ∀ r ∈ back, r.request.id ≠ id

theorem FewRecords.records_eq {m : ApprovalManager} {id n : Nat} (h : m.FewRecords id n) :
    m.records id = n := by
  obtain ⟨-, front, back, hrecent, hlength, hfront, hback⟩ := h
  have hall : front.countP (fun r => r.request.id == id) = front.length :=
    List.countP_eq_length.mpr fun r hr => by simpa using hfront r hr
  have hnone : back.countP (fun r => r.request.id == id) = 0 :=
    List.countP_eq_zero.mpr fun r hr => by simpa using hback r hr
  rw [records, hrecent, List.countP_append, hall, hnone, hlength]
  rfl

/-- A new record of the request does not push out the others of it. -/
theorem FewRecords.pushRecent {m : ApprovalManager} {id n : Nat} (h : m.FewRecords id n)
    {r : ApprovalRecord} (hid : r.request.id = id) (hn : n < 2) :
    (m.pushRecent r).FewRecords id (n + 1) := by
  obtain ⟨-, front, back, hrecent, hlength, hfront, hback⟩ := h
  refine ⟨hn, r :: front, back.take (maxRecentApprovals - (n + 1)), ?_, ?_, ?_, ?_⟩
  · have hshort : (r :: front).length ≤ maxRecentApprovals := by
      rw [List.length_cons, hlength, maxRecentApprovals]
      omega
    rw [ApprovalManager.pushRecent, hrecent, ← List.cons_append, List.take_append,
      List.take_of_length_le hshort, List.length_cons, hlength]
  · rw [List.length_cons, hlength]
  · intro r' hr'
    rcases List.mem_cons.mp hr' with rfl | hr'
    · exact hid
    · exact hfront r' hr'
  · exact fun r' hr' => hback r' (List.take_subset _ _ hr')

end ApprovalManager

/-! ### The two sides -/

/-- Where `request_approval` stands. -/
inductive Requester where
  | idle
  | counted
  | waiting
  | elapsed
  | removed (request : ApprovalRequest)
  | received (decision : ApprovalDecision)
  | timedOut
  | rejected
deriving DecidableEq

/-- Where `resolve` stands. -/
inductive Resolver where
  | idle
  | removed (request : ApprovalRequest) (decidedAt : Int)
  | recorded
  | accepted
  | refused
deriving DecidableEq

namespace Requester

/-- What `request_approval` returned. -/
def result? : Requester → Option ApprovalDecision
  | received decision => some decision
  | timedOut => some .timedOut
  | rejected => some .denied
  | _ => none

/-- The entry was inserted and not removed by the request. -/
def isRegistered : Requester → Bool
  | waiting | elapsed => true
  | _ => false

/-- The timeout has fired. -/
def isOverdue : Requester → Bool
  | elapsed | removed _ | timedOut => true
  | _ => false

/-- The number of records that the request has written. -/
def written : Requester → Nat
  | timedOut => 1
  | _ => 0

theorem written_le (r : Requester) : r.written ≤ 1 := by
  cases r <;> simp [written]

/-- The request was submitted. -/
def isSubmitted : Requester → Bool
  | idle | counted | rejected => false
  | _ => true

end Requester

namespace Resolver

/-- What `resolve` returned: whether it is `Ok`. -/
def result? : Resolver → Option Bool
  | accepted => some true
  | refused => some false
  | _ => none

/-- `resolve` has taken the entry. -/
def tookEntry : Resolver → Bool
  | removed _ _ | recorded | accepted => true
  | _ => false

/-- The number of records that `resolve` has written. -/
def written : Resolver → Nat
  | recorded | accepted => 1
  | _ => 0

theorem written_le (r : Resolver) : r.written ≤ 1 := by
  cases r <;> simp [written]

end Resolver

/-- The shared state and the two sides. The channel holds a decision that was sent and not
received; sending to a request that has run out of time fails. -/
structure Exchange where
  manager : ApprovalManager
  channel : Option ApprovalDecision
  requester : Requester
  resolver : Resolver

/-- The atomic steps. -/
inductive ApprovalStep where
  | countPending
  | insertPending
  | receive
  | timeOut
  | removeTimedOut
  | pushTimedOut (now : Int)
  | removeResolved (now : Int)
  | pushResolved
  | send

/-- The steps of `request_approval`, for a request `req`. -/
def requestStep (req : ApprovalRequest) (x : Exchange) : ApprovalStep → Exchange
  | .countPending =>
      match x.requester with
      | .idle =>
          if maxPendingPerAgent ≤ x.manager.agentPending req.agentId then
            { x with requester := .rejected }
          else { x with requester := .counted }
      | _ => x
  | .insertPending =>
      match x.requester with
      | .counted => { x with manager := x.manager.insert req, requester := .waiting }
      | _ => x
  | .receive =>
      match x.requester, x.channel with
      | .waiting, some decision => { x with channel := none, requester := .received decision }
      | _, _ => x
  | .timeOut =>
      match x.requester, x.channel with
      | .waiting, none => { x with requester := .elapsed }
      | _, _ => x
  | .removeTimedOut =>
      match x.requester with
      | .elapsed =>
          { x with
            manager := x.manager.erase req.id
            requester := .removed ((x.manager.find req.id).getD req) }
      | _ => x
  | .pushTimedOut now =>
      match x.requester with
      | .removed request =>
          { x with
            manager := x.manager.pushRecent
              { request := request, decision := .timedOut, decidedAt := now, decidedBy := none }
            requester := .timedOut }
      | _ => x
  | _ => x

/-- The steps of `resolve`, for the id of `req`. -/
def resolveStep (req : ApprovalRequest) (decision : ApprovalDecision) (decidedBy : Option String)
    (x : Exchange) : ApprovalStep → Exchange
  | .removeResolved now =>
      match x.resolver with
      | .idle =>
          match x.manager.find req.id with
          | some request =>
              { x with manager := x.manager.erase req.id, resolver := .removed request now }
          | none => { x with resolver := .refused }
      | _ => x
  | .pushResolved =>
      match x.resolver with
      | .removed request decidedAt =>
          { x with
            manager := x.manager.pushRecent
              { request := request, decision := decision, decidedAt := decidedAt,
                decidedBy := decidedBy }
            resolver := .recorded }
      | _ => x
  | .send =>
      match x.resolver with
      | .recorded =>
          { x with
            channel := if x.requester.isOverdue then x.channel else some decision
            resolver := .accepted }
      | _ => x
  | _ => x

/-- A step of either side. A step that its side is not ready for changes nothing. -/
def exchangeStep (req : ApprovalRequest) (decision : ApprovalDecision)
    (decidedBy : Option String) (x : Exchange) (step : ApprovalStep) : Exchange :=
  match step with
  | .removeResolved _ | .pushResolved | .send => resolveStep req decision decidedBy x step
  | _ => requestStep req x step

/-- Neither side has started. -/
def Exchange.start (manager : ApprovalManager) : Exchange :=
  { manager := manager, channel := none, requester := .idle, resolver := .idle }

/-- The step does not let the two sides cross: a request does not run out of time once
`resolve` has taken its entry, and `resolve` does not take the entry of a request that has run
out of time. -/
def StaysApart (req : ApprovalRequest) (x : Exchange) : ApprovalStep → Prop
  | .timeOut => x.requester = .waiting → x.channel = none → x.resolver.tookEntry = false
  | .removeResolved _ => x.resolver = .idle → x.manager.find req.id ≠ none →
      x.requester.isOverdue = false
  | _ => True

instance (req : ApprovalRequest) (x : Exchange) (step : ApprovalStep) :
    Decidable (StaysApart req x step) := by
  cases step <;> unfold StaysApart <;> infer_instance

/-- If `resolve` returns `Ok`, the request returns its decision and has exactly one record. -/
def SidesAgree (req : ApprovalRequest) (decision : ApprovalDecision) (x : Exchange) : Prop :=
  x.resolver.result? = some true →
    x.requester.result? = some decision ∧ x.manager.records req.id = 1

/-! ### The invariant of an exchange -/

/-- The two sides have crossed. -/
def Crossed (x : Exchange) : Prop := x.requester.isOverdue = true ∧ x.resolver.tookEntry = true

/-- The decision that lies in the channel. -/
def inChannel (decision : ApprovalDecision) : Requester → Resolver → Option ApprovalDecision
  | .waiting, .accepted => some decision
  | _, _ => none

/-- How the shared state follows from where the two sides stand. -/
structure ExchangeInv (req : ApprovalRequest) (decision : ApprovalDecision) (x : Exchange) :
    Prop where
  found : x.manager.find req.id =
    if x.requester.isRegistered && !x.resolver.tookEntry then some req else none
  channel : x.channel = inChannel decision x.requester x.resolver
  received : ∀ d, x.requester = .received d → d = decision ∧ x.resolver = .accepted
  submitted : x.resolver.tookEntry = true → x.requester.isSubmitted = true
  removed : ∀ r, x.requester = .removed r → r.id = req.id
  taken : ∀ r t, x.resolver = .removed r t → r.id = req.id
  records : x.manager.FewRecords req.id (x.requester.written + x.resolver.written)

section Proofs

variable {req : ApprovalRequest} {decision : ApprovalDecision} {decidedBy : Option String}

theorem ExchangeInv.start {manager : ApprovalManager} (hfind : manager.find req.id = none)
    (hrecent : ∀ r ∈ manager.recent, r.request.id ≠ req.id) :
    ExchangeInv req decision (.start manager) where
  found := hfind
  channel := rfl
  received _ h := (nomatch h)
  submitted h := (nomatch h)
  removed _ h := (nomatch h)
  taken _ _ h := (nomatch h)
  records := ⟨Nat.zero_le 2, [], manager.recent, rfl, rfl, fun _ h => (nomatch h), hrecent⟩

/-- The steps of the request keep the invariant. -/
theorem ExchangeInv.requestStep {x : Exchange} (h : ExchangeInv req decision x)
    (step : ApprovalStep) : ExchangeInv req decision (requestStep req x step) := by
  obtain ⟨manager, channel, requester, resolver⟩ := x
  have hinv := h
  obtain ⟨hfound, hchannel, hreceived, hsubmitted, hremoved, htaken, hrecords⟩ := h
  dsimp only at hfound hchannel hreceived hsubmitted hremoved htaken hrecords
  cases step with
  | countPending =>
      cases requester with
      | idle =>
          simp only [Kernel.requestStep]
          split
          · exact ⟨hfound, hchannel, fun _ h => (nomatch h), fun h => (nomatch hsubmitted h),
              fun _ h => (nomatch h), htaken, hrecords⟩
          · exact ⟨hfound, hchannel, fun _ h => (nomatch h), fun h => (nomatch hsubmitted h),
              fun _ h => (nomatch h), htaken, hrecords⟩
      | _ => exact hinv
  | insertPending =>
      cases requester with
      | counted =>
          have htook : resolver.tookEntry = false :=
            Bool.eq_false_iff.mpr fun htook => (nomatch hsubmitted htook)
          refine ⟨?_, ?_, fun _ h => (nomatch h), fun _ => rfl, fun _ h => (nomatch h), htaken,
            hrecords⟩
          · simp [Kernel.requestStep, Requester.isRegistered, htook]
          · cases resolver with
            | accepted => cases htook
            | _ => exact hchannel
      | _ => exact hinv
  | receive =>
      cases requester with
      | waiting =>
          cases channel with
          | none => exact hinv
          | some d =>
              cases resolver with
              | accepted =>
                  obtain rfl : d = decision := Option.some.inj hchannel
                  refine ⟨hfound, rfl, ?_, fun _ => rfl, fun _ h => (nomatch h), htaken, hrecords⟩
                  intro d' hd'
                  exact ⟨(Requester.received.inj hd').symm, rfl⟩
              | _ => cases hchannel
      | _ => exact hinv
  | timeOut =>
      cases requester with
      | waiting =>
          cases channel with
          | some d => exact hinv
          | none => exact ⟨hfound, rfl, fun _ h => (nomatch h), fun _ => rfl, fun _ h => (nomatch h),
              htaken, hrecords⟩
      | _ => exact hinv
  | removeTimedOut =>
      cases requester with
      | elapsed =>
          refine ⟨?_, hchannel, fun _ h => (nomatch h), fun _ => rfl, ?_, htaken, hrecords⟩
          · exact ApprovalManager.find_erase manager req.id
          · intro r hr
            rw [← Requester.removed.inj hr, hfound]
            split <;> rfl
      | _ => exact hinv
  | pushTimedOut now =>
      cases requester with
      | removed request =>
          refine ⟨hfound, hchannel, fun _ h => (nomatch h), fun _ => rfl, fun _ h => (nomatch h),
            htaken, ?_⟩
          have hone := resolver.written_le
          have hwritten : Requester.timedOut.written + resolver.written =
              (Requester.removed request).written + resolver.written + 1 := by
            simp only [Requester.written]
            omega
          refine hwritten ▸ hrecords.pushRecent (hremoved request rfl) ?_
          simp only [Requester.written]
          omega
      | _ => exact hinv
  | _ => exact hinv

/-- The steps of the resolution keep the invariant. -/
theorem ExchangeInv.resolveStep {x : Exchange} (h : ExchangeInv req decision x)
    (step : ApprovalStep) :
    ExchangeInv req decision (resolveStep req decision decidedBy x step) := by
  obtain ⟨manager, channel, requester, resolver⟩ := x
  have hinv := h
  obtain ⟨hfound, hchannel, hreceived, hsubmitted, hremoved, htaken, hrecords⟩ := h
  dsimp only at hfound hchannel hreceived hsubmitted hremoved htaken hrecords
  cases step with
  | removeResolved now =>
      cases resolver with
      | idle =>
          have hempty : channel = none := by
            rw [hchannel]
            cases requester <;> rfl
          simp only [Kernel.resolveStep]
          cases hfind : manager.find req.id with
          | none =>
              rw [hfind] at hfound
              refine ⟨hfind.trans hfound, ?_, fun d hd => (nomatch (hreceived d hd).2),
                fun h => (nomatch h), hremoved, fun _ _ h => (nomatch h), hrecords⟩
              exact hempty.trans (by cases requester <;> rfl)
          | some request =>
              rw [hfind] at hfound
              have hregistered : requester.isRegistered = true ∧ request = req := by
                cases hr : requester.isRegistered with
                | false => simp [hr] at hfound
                | true => exact ⟨rfl, by simpa [hr, Resolver.tookEntry] using hfound⟩
              obtain ⟨hregistered, rfl⟩ := hregistered
              refine ⟨?_, ?_, fun d hd => (nomatch (hreceived d hd).2), fun _ => ?_, hremoved,
                ?_, hrecords⟩
              · simp [Resolver.tookEntry]
              · exact hempty.trans (by cases requester <;> rfl)
              · cases requester with
                | waiting => rfl
                | elapsed => rfl
                | _ => cases hregistered
              · intro r t hr
                rw [(Resolver.removed.inj hr).1]
      | _ => exact hinv
  | pushResolved =>
      cases resolver with
      | removed request decidedAt =>
          have hempty : channel = none := by
            rw [hchannel]
            cases requester <;> rfl
          refine ⟨hfound, ?_, fun d hd => (nomatch (hreceived d hd).2), hsubmitted, hremoved,
            fun _ _ h => (nomatch h), ?_⟩
          · exact hempty.trans (by cases requester <;> rfl)
          · have hone := requester.written_le
            exact hrecords.pushRecent (htaken request decidedAt rfl) (Nat.lt_succ_of_le hone)
      | _ => exact hinv
  | send =>
      cases resolver with
      | recorded =>
          refine ⟨hfound, ?_, ?_, hsubmitted, hremoved, fun _ _ h => (nomatch h), hrecords⟩
          · cases requester with
            | waiting => rfl
            | received d => exact absurd (hreceived d rfl).2 (by decide)
            | idle => cases hsubmitted rfl
            | counted => cases hsubmitted rfl
            | rejected => cases hsubmitted rfl
            | _ => exact hchannel
          · exact fun d hd => (nomatch (hreceived d hd).2)
      | _ => exact hinv
  | _ => exact hinv

/-- Every step keeps the invariant. -/
theorem ExchangeInv.step {x : Exchange} (h : ExchangeInv req decision x) (step : ApprovalStep) :
    ExchangeInv req decision (exchangeStep req decision decidedBy x step) := by
  have hrequest := ExchangeInv.requestStep h step
  have hresolve : ExchangeInv req decision (Kernel.resolveStep req decision decidedBy x step) :=
    ExchangeInv.resolveStep h step
  cases step with
  | removeResolved _ => exact hresolve
  | pushResolved => exact hresolve
  | send => exact hresolve
  | _ => exact hrequest

/-- Every run keeps the invariant. -/
theorem ExchangeInv.run {x : Exchange} (h : ExchangeInv req decision x)
    (steps : List ApprovalStep) :
    ExchangeInv req decision (runOps (exchangeStep req decision decidedBy) x steps) := by
  have hstep : ∀ x step, ExchangeInv req decision x →
      ExchangeInv req decision (exchangeStep req decision decidedBy x step) :=
    fun _ step h => h.step step
  exact runOps_invariant' hstep h steps

/-! ### Crossing -/

/-- A step of the request does not move the resolution, and is the only way to run out of
time. -/
theorem requestStep_sides (req : ApprovalRequest) (x : Exchange) (step : ApprovalStep) :
    (requestStep req x step).resolver = x.resolver ∧
      ((requestStep req x step).requester.isOverdue = true ↔
        x.requester.isOverdue = true ∨
          step = .timeOut ∧ x.requester = .waiting ∧ x.channel = none) := by
  obtain ⟨manager, channel, requester, resolver⟩ := x
  cases step with
  | countPending =>
      cases requester with
      | idle =>
          simp only [Kernel.requestStep]
          split <;> simp [Requester.isOverdue]
      | _ => simp [Kernel.requestStep, Requester.isOverdue]
  | receive => cases requester <;> cases channel <;> simp [Kernel.requestStep, Requester.isOverdue]
  | timeOut => cases requester <;> cases channel <;> simp [Kernel.requestStep, Requester.isOverdue]
  | _ => cases requester <;> simp [Kernel.requestStep, Requester.isOverdue]

/-- A step of the resolution does not move the request, and taking the entry is done in one
step. -/
theorem resolveStep_sides (req : ApprovalRequest) (decision : ApprovalDecision)
    (decidedBy : Option String) (x : Exchange) (step : ApprovalStep) :
    (resolveStep req decision decidedBy x step).requester = x.requester ∧
      ((resolveStep req decision decidedBy x step).resolver.tookEntry = true ↔
        x.resolver.tookEntry = true ∨
          (∃ now, step = .removeResolved now) ∧ x.resolver = .idle ∧
            x.manager.find req.id ≠ none) := by
  obtain ⟨manager, channel, requester, resolver⟩ := x
  cases step with
  | removeResolved now =>
      cases resolver with
      | idle =>
          cases hfind : manager.find req.id <;> simp [Kernel.resolveStep, Resolver.tookEntry, hfind]
      | _ => simp [Kernel.resolveStep, Resolver.tookEntry]
  | pushResolved => cases resolver <;> simp [Kernel.resolveStep, Resolver.tookEntry]
  | send => cases resolver <;> simp [Kernel.resolveStep, Resolver.tookEntry]
  | _ => simp [Kernel.resolveStep]

/-- The sides have crossed after a step exactly when they had crossed before or the step does
not stay apart. -/
theorem crossed_step_iff (x : Exchange) (step : ApprovalStep) :
    Crossed (exchangeStep req decision decidedBy x step) ↔
      Crossed x ∨ ¬ StaysApart req x step := by
  obtain ⟨hresolver, hoverdue⟩ := requestStep_sides req x step
  obtain ⟨hrequester, htook⟩ := resolveStep_sides req decision decidedBy x step
  cases step with
  | timeOut =>
      simp only [exchangeStep, Crossed, StaysApart, hresolver, hoverdue]
      grind
  | removeResolved now =>
      simp only [exchangeStep, Crossed, StaysApart, hrequester, htook]
      grind
  | pushResolved => simp [exchangeStep, Crossed, StaysApart, hrequester, htook]
  | send => simp [exchangeStep, Crossed, StaysApart, hrequester, htook]
  | _ => simp [exchangeStep, Crossed, StaysApart, hresolver, hoverdue]

/-- Sides that have crossed stay so. -/
theorem Crossed.run {x : Exchange} (h : Crossed x) (steps : List ApprovalStep) :
    Crossed (runOps (exchangeStep req decision decidedBy) x steps) :=
  runOps_invariant' (fun x step h => (crossed_step_iff x step).mpr (.inl h)) h steps

/-- The guarded runs are those in which the sides do not cross. -/
theorem guarded_iff_not_crossed {x : Exchange} (hx : ¬ Crossed x) (steps : List ApprovalStep) :
    Guarded (exchangeStep req decision decidedBy) (StaysApart req) x steps ↔
      ¬ Crossed (runOps (exchangeStep req decision decidedBy) x steps) := by
  induction steps generalizing x with
  | nil => simp [Guarded, hx]
  | cons step steps ih =>
      have hstep : Crossed (exchangeStep req decision decidedBy x step) ↔
          Crossed x ∨ ¬ StaysApart req x step := crossed_step_iff x step
      rw [Guarded, runOps_cons]
      by_cases happart : StaysApart req x step
      · have hnext : ¬ Crossed (exchangeStep req decision decidedBy x step) := by
          rw [hstep]
          exact fun h => h.elim hx fun h => h happart
        rw [ih hnext]
        exact and_iff_right happart
      · have hnext : Crossed (exchangeStep req decision decidedBy x step) :=
          hstep.mpr (.inr happart)
        have hlast : Crossed (runOps (exchangeStep req decision decidedBy) _ steps) :=
          hnext.run steps
        exact ⟨fun h => absurd h.1 happart, fun h => absurd hlast h⟩

/-! ### Agreement -/

/-- Once both sides have returned, they agree unless they have crossed. -/
theorem ExchangeInv.sidesAgree_iff {x : Exchange} (h : ExchangeInv req decision x)
    (hrequest : x.requester.result?.isSome) (hresolve : x.resolver.result?.isSome) :
    SidesAgree req decision x ↔ ¬ Crossed x := by
  have hrecords := h.records.records_eq
  obtain ⟨manager, channel, requester, resolver⟩ := x
  cases resolver with
  | accepted =>
      cases requester with
      | received d =>
          obtain ⟨rfl, -⟩ := h.received d rfl
          exact ⟨fun _ hcross => (nomatch hcross.1), fun _ _ => ⟨rfl, hrecords⟩⟩
      | timedOut =>
          refine ⟨fun hagree => ?_, fun hcross => absurd ⟨rfl, rfl⟩ hcross⟩
          have hone : manager.records req.id = 1 := (hagree rfl).2
          have htwo : manager.records req.id = 2 := hrecords
          omega
      | rejected => exact (nomatch h.submitted rfl)
      | _ => cases hrequest
  | refused => exact ⟨fun _ hcross => (nomatch hcross.2), fun _ hok => (nomatch hok)⟩
  | _ => cases hresolve

end Proofs

/-- For every order of the steps of one request and one resolution of its id: when both have
returned, they agree exactly when the request did not run out of time after `resolve` had taken
its entry, and `resolve` did not take the entry after the request had run out of time. -/
theorem approval_sides_agree_iff (req : ApprovalRequest) (decision : ApprovalDecision)
    (decidedBy : Option String) {manager : ApprovalManager}
    (hfind : manager.find req.id = none) (hrecent : ∀ r ∈ manager.recent, r.request.id ≠ req.id)
    (steps : List ApprovalStep)
    (hrequest : (runOps (exchangeStep req decision decidedBy) (.start manager)
      steps).requester.result?.isSome)
    (hresolve : (runOps (exchangeStep req decision decidedBy) (.start manager)
      steps).resolver.result?.isSome) :
    SidesAgree req decision
        (runOps (exchangeStep req decision decidedBy) (.start manager) steps) ↔
      Guarded (exchangeStep req decision decidedBy) (StaysApart req) (.start manager) steps := by
  have hinv : ExchangeInv req decision
      (runOps (exchangeStep req decision decidedBy) (.start manager) steps) :=
    (ExchangeInv.start hfind hrecent).run steps
  rw [hinv.sidesAgree_iff hrequest hresolve]
  exact (guarded_iff_not_crossed (fun h => Bool.noConfusion h.1) steps).symm

/-- A request for the examples below. -/
def buildRequest : ApprovalRequest where
  id := 7
  agentId := "builder"
  toolName := "shell_exec"
  description := "Run the build"
  actionSummary := "cargo build"
  riskLevel := .critical
  requestedAt := 0
  timeoutSecs := 60

theorem approval_sides_agree_iff_in_time :
    SidesAgree buildRequest .approved
        (runOps (exchangeStep buildRequest .approved none) (.start ⟨[], []⟩)
          [.countPending, .insertPending, .removeResolved 5, .pushResolved, .send, .receive]) ↔
      Guarded (exchangeStep buildRequest .approved none) (StaysApart buildRequest)
        (.start ⟨[], []⟩)
        [.countPending, .insertPending, .removeResolved 5, .pushResolved, .send, .receive] :=
  approval_sides_agree_iff buildRequest .approved none rfl
    (fun _ h => absurd h List.not_mem_nil) _ rfl rfl

/-- The timeout fires between taking the entry and sending the decision: `resolve` returns
`Ok`, the request returns `TimedOut`, and both have written a record. -/
theorem approval_sides_cross :
    ∃ steps, ¬ SidesAgree buildRequest .approved
      (runOps (exchangeStep buildRequest .approved none) (.start ⟨[], []⟩) steps) := by
  refine ⟨[.countPending, .insertPending, .removeResolved 60, .timeOut, .removeTimedOut,
    .pushTimedOut 60, .pushResolved, .send], fun h => ?_⟩
  have hresult := (h rfl).1
  exact absurd hresult (by decide)

end ArmaraOS.Kernel
