import Mathlib.Data.List.Nodup
import ArmaraOS.Agent.SessionGrowth
import ArmaraOS.Lib.Machine
import ArmaraOS.Memory.Canonical

/-!
The turns of an agent and its canonical session (`send_message_streaming`, `execute_llm_agent` in
`openfang-kernel/src/kernel.rs`).

Any number of turns are under way on one agent; the rows of other agents are other rows. A plain
turn holds the agent's lock from its start to its end, a streaming turn takes no lock. A turn may
compact before its loop, then runs its loop, and hands the new messages to `append_canonical`.
Load and save of the row are steps of their own, since nothing makes them one. `records` and
`given` are written for the statements: what each turn that returned Ok handed over, and what the
appends that returned were given.
-/

namespace ArmaraOS.Kernel

open ArmaraOS.Agent ArmaraOS.Lib ArmaraOS.Memory ArmaraOS.Session

variable {σ : Type}

/-! ### One turn -/

/-- The two ways to run a turn. -/
inductive TurnPath where
  | plain
  | streaming
deriving DecidableEq

/-- What a turn runs with; `session` is what it read from the store, after any compaction. -/
structure TurnRun (σ : Type) where
  world : World σ
  cfg : TurnConfig
  session : List Message
  state : σ

/-- The loop of a turn. -/
def runTurn (path : TurnPath) (run : TurnRun σ) :
    Except LoopError AgentLoopResult × LoopState σ :=
  match path with
  | .plain => runAgentLoop run.world run.cfg run.session run.state
  | .streaming => Streaming.runAgentLoopStreaming run.world run.cfg run.session run.state

/-- `new_messages`: what stands behind position `messages_before`; none when the session is not
longer than it was. -/
def newMessages (messagesBefore : Nat) (session : List Message) : Option (List Message) :=
  if messagesBefore < session.length then some (session.drop messagesBefore) else none

/-- A turn that returned Ok: the session that it read, the session at its end before the pruning,
and what it handed to `append_canonical`. -/
structure TurnRecord where
  turn : Nat
  before : List Message
  grown : List Message
  handed : Option (List Message)

/-- The messages that the turn added to the session. -/
def TurnRecord.added (r : TurnRecord) : List Message := r.grown.drop r.before.length

/-- The record of a turn. -/
def recordOf (turn : Nat) (run : TurnRun σ) (st : LoopState σ) : TurnRecord where
  turn := turn
  before := run.session
  grown := st.grownSession
  handed := newMessages run.session.length st.session

/-- No message but the last ten is a reply of no content. -/
def HeartbeatFree (session : List Message) : Prop :=
  ∀ i, i + 10 < session.length → (session[i]?.map isNoReply).getD false = false

/-- The pruning at the end of a turn finds nothing to prune. -/
theorem pruneHeartbeatTurns_of_free {session : List Message} (h : HeartbeatFree session) :
    pruneHeartbeatTurns session 10 = session := by
  unfold pruneHeartbeatTurns
  split
  · rfl
  · have hall : ∀ p ∈ session.zipIdx, (!isPruned session (session.length - 10) p.2) = true := by
      intro p _
      have hat : ∀ i, i < session.length - 10 →
          (session[i]?.map isNoReply).getD false = false := by
        intro i hi
        exact h i (by omega)
      simp only [isPruned, Bool.not_eq_true', Bool.or_eq_false_iff, Bool.and_eq_false_iff,
        decide_eq_false_iff_not]
      by_cases hi : p.2 < session.length - 10 <;> by_cases hi' : p.2 + 1 < session.length - 10 <;>
        simp [hi, hi', hat]
    rw [List.filter_eq_self.mpr hall, List.zipIdx_map_fst]

/-- With a reply of no content further back the pruned session is shorter. -/
theorem length_pruneHeartbeatTurns {session : List Message} (h : ¬ HeartbeatFree session) :
    (pruneHeartbeatTurns session 10).length < session.length := by
  obtain ⟨i, hnot⟩ := not_forall.mp h
  obtain ⟨hi, hreply⟩ := Classical.not_imp.mp hnot
  rw [Bool.not_eq_false] at hreply
  obtain ⟨m, hm⟩ : ∃ m, session[i]? = some m := ⟨_, List.getElem?_eq_getElem (by omega)⟩
  have hpruned : isPruned session (session.length - 10) i = true := by
    have hlt : i < session.length - 10 := by omega
    simp [isPruned, hlt, hreply]
  unfold pruneHeartbeatTurns
  rw [if_neg (by omega), List.length_map]
  have hmem : (m, i) ∈ session.zipIdx := List.mem_zipIdx_iff_getElem?.mpr hm
  have hlt : (session.zipIdx.filter fun p => !isPruned session (session.length - 10) p.2).length <
      session.zipIdx.length :=
    List.length_filter_lt_length_iff_exists.mpr ⟨(m, i), hmem, by simp [hpruned]⟩
  rwa [List.length_zipIdx] at hlt

/-- A pruned session hands over what stands behind a position exactly when nothing was pruned. -/
theorem newMessages_pruned_iff {n : Nat} {session : List Message} (hn : n < session.length) :
    newMessages n (pruneHeartbeatTurns session 10) = some (session.drop n) ↔
      HeartbeatFree session := by
  constructor
  · intro h
    by_contra hfree
    have hlt := length_pruneHeartbeatTurns hfree
    unfold newMessages at h
    split at h
    · have hlen := congrArg List.length (Option.some.inj h)
      rw [List.length_drop, List.length_drop] at hlen
      omega
    · exact absurd h (by simp)
  · intro h
    rw [pruneHeartbeatTurns_of_free h, newMessages, if_pos hn]

/-- The record of a turn whose session grew from what it read. -/
theorem recordOf_spec (turn : Nat) {run : TurnRun σ} {st : LoopState σ} {user : Message}
    (h : Grown ((run.session ++ [user]).map stripImages) st) :
    (recordOf turn run st).grown =
        run.session.map stripImages ++ (recordOf turn run st).added ∧
      (recordOf turn run st).added ≠ [] ∧
      ((recordOf turn run st).handed = some (recordOf turn run st).added ↔
        ∀ full ∈ st.unpruned, HeartbeatFree full) := by
  obtain ⟨pushed, hcases⟩ := h
  have hfull : st.grownSession = run.session.map stripImages ++ (stripImages user :: pushed) := by
    rcases hcases with ⟨hnone, hsession⟩ | ⟨hsome, -⟩
    · simp [LoopState.grownSession, hnone, hsession]
    · simp [LoopState.grownSession, hsome]
  have hadded : (recordOf turn run st).added = stripImages user :: pushed := by
    have hlen : run.session.length = (run.session.map stripImages).length :=
      (List.length_map _).symm
    rw [TurnRecord.added, recordOf, hfull, hlen, List.drop_left]
  have hlt : run.session.length < st.grownSession.length := by
    simp [hfull]
  refine ⟨?_, ?_, ?_⟩
  · rw [hadded]
    exact hfull
  · rw [hadded]
    exact List.cons_ne_nil _ _
  · rcases hcases with ⟨hnone, hsession⟩ | ⟨hsome, hsession⟩
    · have hsame : st.grownSession = st.session := by rw [LoopState.grownSession, hnone]; rfl
      have hhanded : (recordOf turn run st).handed = some (recordOf turn run st).added := by
        rw [TurnRecord.added, recordOf, newMessages, ← hsame, if_pos hlt]
      simp [hhanded, hnone]
    · have hgrown : st.grownSession = (run.session ++ [user]).map stripImages ++ pushed := by
        rw [LoopState.grownSession, hsome]
        rfl
      rw [TurnRecord.added, recordOf]
      rw [hgrown] at hlt ⊢
      rw [hsession, newMessages_pruned_iff hlt]
      simp [hsome]

theorem runTurn_grown (path : TurnPath) (run : TurnRun σ) :
    Grown ((run.session ++ [turnUserMessage run.cfg]).map stripImages) (runTurn path run).2 := by
  cases path with
  | plain => exact runAgentLoop_grown run.world run.cfg run.session run.state
  | streaming => exact runAgentLoopStreaming_grown run.world run.cfg run.session run.state

/-! ### The turns of an agent -/

/-- Where a turn is. -/
inductive TurnPhase where
  | idle
  | running (path : TurnPath)
  | summarising (path : TurnPath) (summary : String) (kept : List Message)
      (canonical : CanonicalSession)
  | appending (new : List Message)
  | extending (new : List Message) (canonical : CanonicalSession)
  | finished

/-- The agent: its row, its lock, its turns, and what is recorded of them. -/
structure AgentTurns where
  row : Option CanonicalSession := none
  lock : Option Nat := none
  phase : Nat → TurnPhase := fun _ => .idle
  records : List TurnRecord := []
  given : List (Nat × List Message) := []

/-- The steps of a turn. `ok` says whether the database call succeeds. -/
inductive TurnStep (σ : Type) where
  | start (turn : Nat) (path : TurnPath)
  | loadForSummary (turn : Nat) (summary : String) (kept : List Message)
  | storeSummary (turn : Nat) (ok : Bool)
  | loop (turn : Nat) (run : TurnRun σ)
  | loadCanonical (turn : Nat) (ok : Bool)
  | saveCanonical (turn : Nat) (ok : Bool)

namespace AgentTurns

/-- `load_canonical`: a missing row is an empty session. -/
def loadCanonical (s : AgentTurns) : CanonicalSession := s.row.getD {}

/-- Put a turn into a phase. -/
def enter (s : AgentTurns) (turn : Nat) (phase : TurnPhase) : AgentTurns :=
  { s with phase := Function.update s.phase turn phase }

@[simp] theorem enter_phase_self (s : AgentTurns) (turn : Nat) (phase : TurnPhase) :
    (s.enter turn phase).phase turn = phase :=
  Function.update_self _ _ _

theorem enter_phase_of_ne (s : AgentTurns) {turn other : Nat} (phase : TurnPhase)
    (h : other ≠ turn) : (s.enter turn phase).phase other = s.phase other :=
  Function.update_of_ne h _ _

/-- The end of a turn: the guard of the lock is dropped. -/
def finish (s : AgentTurns) (turn : Nat) : AgentTurns :=
  { s.enter turn .finished with lock := if s.lock = some turn then none else s.lock }

/-- An append returns. -/
def returned (s : AgentTurns) (turn : Nat) (new : List Message) : AgentTurns :=
  { s.finish turn with given := s.given ++ [(turn, new)] }

/-- One step of a turn; a step that its turn cannot take changes nothing. -/
def step (s : AgentTurns) : TurnStep σ → AgentTurns
  | .start turn path =>
      match s.phase turn with
      | .idle =>
          match path with
          | .plain =>
              if s.lock = none then { s.enter turn (.running .plain) with lock := some turn } else s
          | .streaming => s.enter turn (.running .streaming)
      | _ => s
  | .loadForSummary turn summary kept =>
      match s.phase turn with
      | .running path => s.enter turn (.summarising path summary kept s.loadCanonical)
      | _ => s
  | .storeSummary turn ok =>
      match s.phase turn with
      | .summarising path summary kept canonical =>
          { s.enter turn (.running path) with
            row := if ok then some (canonical.storeLlmSummary summary kept) else s.row }
      | _ => s
  | .loop turn run =>
      match s.phase turn with
      | .running path =>
          let out := runTurn path run
          match out.1 with
          | .error _ => s.finish turn
          | .ok _ =>
              let record := recordOf turn run out.2
              match record.handed with
              | some new =>
                  { s.enter turn (.appending new) with records := s.records ++ [record] }
              | none => { s.finish turn with records := s.records ++ [record] }
      | _ => s
  | .loadCanonical turn ok =>
      match s.phase turn with
      | .appending new =>
          if ok then s.enter turn (.extending new s.loadCanonical) else s.returned turn new
      | _ => s
  | .saveCanonical turn ok =>
      match s.phase turn with
      | .extending new canonical =>
          { s.returned turn new with
            row := if ok then some (canonical.append new none) else s.row }
      | _ => s

end AgentTurns

/-! ### Delivery -/

/-- A turn whose append is called and has not returned. -/
inductive TurnPhase.Appends (new : List Message) : TurnPhase → Prop where
  | called : Appends new (.appending new)
  | loaded (canonical : CanonicalSession) : Appends new (.extending new canonical)

/-- The canonical session got the messages of each turn once: every turn that returned Ok handed
over what it added behind the session that it had read, what it handed over is in an append under
way or in one that returned, no append was given anything else, and the messages of the row
before their compaction are what the appends that returned were given. -/
structure Delivered (s : AgentTurns) : Prop where
  handed : ∀ r ∈ s.records, r.handed = some r.added
  grown : ∀ r ∈ s.records, r.grown = r.before.map stripImages ++ r.added
  accounted : ∀ r ∈ s.records,
    (s.phase r.turn).Appends r.added ∨ (r.turn, r.added) ∈ s.given
  distinct : (s.records.map TurnRecord.turn).Nodup
  once : (s.given.map Prod.fst).Nodup
  added : ∀ g ∈ s.given, ∃ r ∈ s.records, r.turn = g.1 ∧ r.added = g.2
  history : s.loadCanonical.history = (s.given.map Prod.snd).flatten

/-- The condition on a step. A loop that ends well finds no heartbeat reply to prune, the calls of
an append succeed, its save finds the history that its load read, and a summary that is stored
stands, with the messages it keeps, for the history. -/
def InOrder (s : AgentTurns) : TurnStep σ → Prop
  | .start _ _ => True
  | .loadForSummary _ _ _ => True
  | .storeSummary turn ok =>
      match s.phase turn with
      | .summarising _ _ kept canonical =>
          ok = true → canonical.compacted ++
            canonical.messages.take (canonical.messages.length - kept.length) ++ kept =
              s.loadCanonical.history
      | _ => True
  | .loop turn run =>
      match s.phase turn with
      | .running path =>
          ∀ result, (runTurn path run).1 = .ok result →
            ∀ full ∈ (runTurn path run).2.unpruned, HeartbeatFree full
      | _ => True
  | .loadCanonical turn ok =>
      match s.phase turn with
      | .appending _ => ok = true
      | _ => True
  | .saveCanonical turn ok =>
      match s.phase turn with
      | .extending _ canonical => ok = true ∧ canonical.history = s.loadCanonical.history
      | _ => True

/-- Delivery, with what the phases of the turns say about it. -/
structure TurnInvariant (s : AgentTurns) : Prop where
  delivered : Delivered s
  returned : ∀ g ∈ s.given, s.phase g.1 = .finished
  pending : ∀ turn new, (s.phase turn).Appends new →
    new ≠ [] ∧ ∃ r ∈ s.records, r.turn = turn ∧ r.added = new

namespace TurnInvariant

variable {s : AgentTurns} {turn : Nat}

theorem init : TurnInvariant {} where
  delivered :=
    { handed := by intro r hr; cases hr
      grown := by intro r hr; cases hr
      accounted := by intro r hr; cases hr
      distinct := List.nodup_nil
      once := List.nodup_nil
      added := by intro g hg; cases hg
      history := rfl }
  returned := by intro g hg; cases hg
  pending := by intro turn new h; cases h

/-- The lock plays no part. -/
theorem withLock (h : TurnInvariant s) (lock : Option Nat) :
    TurnInvariant { s with lock := lock } where
  delivered := ⟨h.1.1, h.1.2, h.1.3, h.1.4, h.1.5, h.1.6, h.1.7⟩
  returned := h.returned
  pending := h.pending

/-- The row can change within its history. -/
theorem withRow (h : TurnInvariant s) {row : Option CanonicalSession}
    (hrow : (row.getD {}).history = s.loadCanonical.history) :
    TurnInvariant { s with row := row } where
  delivered := ⟨h.1.1, h.1.2, h.1.3, h.1.4, h.1.5, h.1.6, hrow.trans h.1.7⟩
  returned := h.returned
  pending := h.pending

/-- A turn whose append was not called has no record. -/
theorem no_record (h : TurnInvariant s) (happends : ∀ new, ¬ (s.phase turn).Appends new)
    (hfinished : s.phase turn ≠ .finished) : ∀ r ∈ s.records, r.turn ≠ turn := by
  rintro r hr rfl
  rcases h.delivered.accounted r hr with hphase | hgiven
  · exact happends _ hphase
  · exact hfinished (h.returned _ hgiven)

theorem not_given (h : TurnInvariant s) (hfinished : s.phase turn ≠ .finished) :
    ∀ g ∈ s.given, g.1 ≠ turn := by
  rintro g hg rfl
  exact hfinished (h.returned g hg)

/-- A turn that is not in an append moves on to a phase that is none. -/
theorem enter (h : TurnInvariant s) {phase : TurnPhase}
    (happends : ∀ new, ¬ (s.phase turn).Appends new) (hfinished : s.phase turn ≠ .finished)
    (hphase : ∀ new, ¬ phase.Appends new) : TurnInvariant (s.enter turn phase) where
  delivered :=
    { handed := h.delivered.handed
      grown := h.delivered.grown
      accounted := by
        intro r hr
        rw [s.enter_phase_of_ne phase (h.no_record happends hfinished r hr)]
        exact h.delivered.accounted r hr
      distinct := h.delivered.distinct
      once := h.delivered.once
      added := h.delivered.added
      history := h.delivered.history }
  returned := by
    intro g hg
    rw [s.enter_phase_of_ne phase (h.not_given hfinished g hg)]
    exact h.returned g hg
  pending := by
    intro other new hnew
    by_cases hother : other = turn
    · rw [hother, s.enter_phase_self] at hnew
      exact absurd hnew (hphase new)
    · rw [s.enter_phase_of_ne phase hother] at hnew
      exact h.pending other new hnew

theorem finish (h : TurnInvariant s) (happends : ∀ new, ¬ (s.phase turn).Appends new)
    (hfinished : s.phase turn ≠ .finished) : TurnInvariant (s.finish turn) :=
  (h.enter happends hfinished (by intro new hnew; cases hnew)).withLock _

/-- A loop that ended well: its record, and the append that it calls. -/
theorem record (h : TurnInvariant s) {r : TurnRecord} (hturn : r.turn = turn)
    (happends : ∀ new, ¬ (s.phase turn).Appends new) (hfinished : s.phase turn ≠ .finished)
    (hgrown : r.grown = r.before.map stripImages ++ r.added) (hadded : r.added ≠ [])
    (hhanded : r.handed = some r.added) :
    TurnInvariant
      { s.enter turn (.appending r.added) with records := s.records ++ [r] } where
  delivered :=
    { handed := by
        intro r' hr'
        rcases List.mem_append.mp hr' with hr' | hr'
        · exact h.delivered.handed r' hr'
        · obtain rfl := List.mem_singleton.mp hr'
          exact hhanded
      grown := by
        intro r' hr'
        rcases List.mem_append.mp hr' with hr' | hr'
        · exact h.delivered.grown r' hr'
        · obtain rfl := List.mem_singleton.mp hr'
          exact hgrown
      accounted := by
        intro r' hr'
        dsimp only
        rcases List.mem_append.mp hr' with hr' | hr'
        · rw [s.enter_phase_of_ne _ (h.no_record happends hfinished r' hr')]
          exact h.delivered.accounted r' hr'
        · obtain rfl := List.mem_singleton.mp hr'
          rw [hturn, s.enter_phase_self]
          exact .inl .called
      distinct := by
        dsimp only
        rw [List.map_append, List.nodup_append]
        refine ⟨h.delivered.distinct, List.nodup_singleton _, ?_⟩
        intro t ht t' ht'
        obtain ⟨r', hr', rfl⟩ := List.mem_map.mp ht
        obtain rfl := List.mem_singleton.mp ht'
        rw [hturn]
        exact h.no_record happends hfinished r' hr'
      once := h.delivered.once
      added := by
        intro g hg
        obtain ⟨r', hr', hsame⟩ := h.delivered.added g hg
        exact ⟨r', List.mem_append_left _ hr', hsame⟩
      history := h.delivered.history }
  returned := by
    intro g hg
    dsimp only
    rw [s.enter_phase_of_ne _ (h.not_given hfinished g hg)]
    exact h.returned g hg
  pending := by
    intro other new hnew
    dsimp only at hnew
    by_cases hother : other = turn
    · rw [hother, s.enter_phase_self] at hnew
      cases hnew
      exact ⟨hadded, r, List.mem_append_right _ List.mem_cons_self, hturn.trans hother.symm, rfl⟩
    · rw [s.enter_phase_of_ne _ hother] at hnew
      obtain ⟨hne, r', hr', heq⟩ := h.pending other new hnew
      exact ⟨hne, r', List.mem_append_left _ hr', heq⟩

/-- An append loads the row. -/
theorem load (h : TurnInvariant s) {new : List Message} (hphase : s.phase turn = .appending new)
    (canonical : CanonicalSession) : TurnInvariant (s.enter turn (.extending new canonical)) where
  delivered :=
    { handed := h.delivered.handed
      grown := h.delivered.grown
      accounted := by
        intro r hr
        have hr' := h.delivered.accounted r hr
        by_cases hturn : r.turn = turn
        · rw [hturn, s.enter_phase_self]
          rw [hturn, hphase] at hr'
          rcases hr' with hcalled | hgiven
          · cases hcalled
            exact .inl (.loaded canonical)
          · exact .inr hgiven
        · rw [s.enter_phase_of_ne _ hturn]
          exact hr'
      distinct := h.delivered.distinct
      once := h.delivered.once
      added := h.delivered.added
      history := h.delivered.history }
  returned := by
    intro g hg
    have hfinished : s.phase turn ≠ .finished := by rw [hphase]; exact nofun
    rw [s.enter_phase_of_ne _ (h.not_given hfinished g hg)]
    exact h.returned g hg
  pending := by
    intro other new' hnew
    by_cases hother : other = turn
    · rw [hother, s.enter_phase_self] at hnew
      cases hnew
      rw [hother]
      exact h.pending turn new (hphase ▸ .called)
    · rw [s.enter_phase_of_ne _ hother] at hnew
      exact h.pending other new' hnew

/-- An append returns with its messages behind the history. -/
theorem returns (h : TurnInvariant s) {new : List Message} (hnew : (s.phase turn).Appends new)
    {row : Option CanonicalSession}
    (hrow : (row.getD {}).history = s.loadCanonical.history ++ new) :
    TurnInvariant { s.returned turn new with row := row } := by
  have hfinished : s.phase turn ≠ .finished := by
    intro hphase
    rw [hphase] at hnew
    cases hnew
  have hphase : ∀ other, ({ s.returned turn new with row := row } : AgentTurns).phase other =
      (s.enter turn .finished).phase other := fun _ => rfl
  have honly : ∀ new', (s.phase turn).Appends new' → new' = new := by
    intro new' hnew'
    generalize s.phase turn = phase at hnew hnew'
    cases hnew <;> cases hnew' <;> rfl
  obtain ⟨-, r, hr, hturn, hadded⟩ := h.pending turn new hnew
  refine ⟨⟨h.delivered.handed, h.delivered.grown, ?_, h.delivered.distinct, ?_, ?_, ?_⟩, ?_, ?_⟩
  · intro r' hr'
    rw [hphase]
    have hr'' := h.delivered.accounted r' hr'
    by_cases hsame : r'.turn = turn
    · rw [hsame] at hr'' ⊢
      rcases hr'' with hpending | hgiven
      · rw [honly _ hpending]
        exact .inr (List.mem_append_right _ List.mem_cons_self)
      · exact .inr (List.mem_append_left _ hgiven)
    · rw [s.enter_phase_of_ne _ hsame]
      rcases hr'' with hpending | hgiven
      · exact .inl hpending
      · exact .inr (List.mem_append_left _ hgiven)
  · change ((s.given ++ [(turn, new)]).map Prod.fst).Nodup
    rw [List.map_append, List.nodup_append]
    refine ⟨h.delivered.once, List.nodup_singleton _, ?_⟩
    intro t ht t' ht'
    obtain ⟨g, hg, rfl⟩ := List.mem_map.mp ht
    obtain rfl := List.mem_singleton.mp ht'
    exact h.not_given hfinished g hg
  · intro g hg
    rcases List.mem_append.mp hg with hg | hg
    · exact h.delivered.added g hg
    · obtain rfl := List.mem_singleton.mp hg
      exact ⟨r, hr, hturn, hadded⟩
  · change (row.getD {}).history = ((s.given ++ [(turn, new)]).map Prod.snd).flatten
    rw [hrow, h.delivered.history]
    simp
  · intro g hg
    rw [hphase]
    rcases List.mem_append.mp hg with hg | hg
    · rw [s.enter_phase_of_ne _ (h.not_given hfinished g hg)]
      exact h.returned g hg
    · obtain rfl := List.mem_singleton.mp hg
      exact s.enter_phase_self turn _
  · intro other new' hnew'
    rw [hphase] at hnew'
    by_cases hother : other = turn
    · rw [hother, s.enter_phase_self] at hnew'
      cases hnew'
    · rw [s.enter_phase_of_ne _ hother] at hnew'
      exact h.pending other new' hnew'

end TurnInvariant

/-! ### Steps and runs -/

section Steps

variable {s : AgentTurns}

theorem running_not_appends {turn : Nat} {path : TurnPath} (hphase : s.phase turn = .running path) :
    (∀ new, ¬ (s.phase turn).Appends new) ∧ s.phase turn ≠ .finished := by
  rw [hphase]
  exact ⟨(by intro new hnew; cases hnew), nofun⟩

/-- A step in order keeps the invariant. -/
theorem step_invariant (h : TurnInvariant s) (e : TurnStep σ) (horder : InOrder s e) :
    TurnInvariant (s.step e) := by
  cases e with
  | start turn path =>
      cases hphase : s.phase turn with
      | idle =>
          have hidle : (∀ new, ¬ (s.phase turn).Appends new) ∧ s.phase turn ≠ .finished := by
            rw [hphase]
            exact ⟨(by intro new hnew; cases hnew), nofun⟩
          cases path with
          | plain =>
              simp only [AgentTurns.step, hphase]
              split
              · exact (h.enter hidle.1 hidle.2 (by intro new hnew; cases hnew)).withLock _
              · exact h
          | streaming =>
              simp only [AgentTurns.step, hphase]
              exact h.enter hidle.1 hidle.2 (by intro new hnew; cases hnew)
      | _ =>
          simp only [AgentTurns.step, hphase]
          exact h
  | loadForSummary turn summary kept =>
      cases hphase : s.phase turn with
      | running path =>
          obtain ⟨happends, hfinished⟩ := running_not_appends hphase
          simp only [AgentTurns.step, hphase]
          exact h.enter happends hfinished (by intro new hnew; cases hnew)
      | _ =>
          simp only [AgentTurns.step, hphase]
          exact h
  | storeSummary turn ok =>
      cases hphase : s.phase turn with
      | summarising path summary kept canonical =>
          have hnone : (∀ new, ¬ (s.phase turn).Appends new) ∧ s.phase turn ≠ .finished := by
            rw [hphase]
            exact ⟨(by intro new hnew; cases hnew), nofun⟩
          simp only [InOrder, hphase] at horder
          simp only [AgentTurns.step, hphase]
          refine (h.enter hnone.1 hnone.2 (by intro new hnew; cases hnew)).withRow ?_
          cases ok with
          | true => exact horder rfl
          | false => rfl
      | _ =>
          simp only [AgentTurns.step, hphase]
          exact h
  | loop turn run =>
      cases hphase : s.phase turn with
      | running path =>
          obtain ⟨happends, hfinished⟩ := running_not_appends hphase
          obtain ⟨hgrown, hadded, hhanded⟩ := recordOf_spec turn (runTurn_grown path run)
          simp only [InOrder, hphase] at horder
          simp only [AgentTurns.step, hphase]
          cases hresult : (runTurn path run).1 with
          | error e => exact h.finish happends hfinished
          | ok result =>
              have hall := hhanded.mpr (horder result hresult)
              simp only [hall]
              exact h.record rfl happends hfinished hgrown hadded hall
      | _ =>
          simp only [AgentTurns.step, hphase]
          exact h
  | loadCanonical turn ok =>
      cases hphase : s.phase turn with
      | appending new =>
          simp only [InOrder, hphase] at horder
          simp only [AgentTurns.step, hphase, horder, if_true]
          exact h.load hphase _
      | _ =>
          simp only [AgentTurns.step, hphase]
          exact h
  | saveCanonical turn ok =>
      cases hphase : s.phase turn with
      | extending new canonical =>
          simp only [InOrder, hphase] at horder
          obtain ⟨hok, hhistory⟩ := horder
          simp only [AgentTurns.step, hphase, hok, if_true]
          refine h.returns (hphase ▸ .loaded canonical) ?_
          rw [Option.getD_some, CanonicalSession.history_append, hhistory]
      | _ =>
          simp only [AgentTurns.step, hphase]
          exact h

/-- A step out of order loses messages, or hands over other messages than the turn added. -/
theorem step_breaks (h : TurnInvariant s) (e : TurnStep σ) (horder : ¬ InOrder s e) :
    ¬ Delivered (s.step e) := by
  intro hdelivered
  cases e with
  | start turn path => exact horder trivial
  | loadForSummary turn summary kept => exact horder trivial
  | storeSummary turn ok =>
      cases hphase : s.phase turn with
      | summarising path summary kept canonical =>
          simp only [InOrder, hphase] at horder
          obtain ⟨rfl, hne⟩ := Classical.not_imp.mp horder
          have hhistory := hdelivered.history
          simp only [AgentTurns.step, hphase, if_true] at hhistory
          exact hne (hhistory.trans h.delivered.history.symm)
      | _ =>
          simp only [InOrder, hphase, not_true_eq_false] at horder
  | loop turn run =>
      cases hphase : s.phase turn with
      | running path =>
          obtain ⟨-, -, hhanded⟩ := recordOf_spec turn (runTurn_grown path run)
          simp only [InOrder, hphase] at horder
          obtain ⟨result, hnot⟩ := not_forall.mp horder
          obtain ⟨hresult, hprunes⟩ := Classical.not_imp.mp hnot
          have hmem : recordOf turn run (runTurn path run).2 ∈ (s.step (.loop turn run)).records := by
            simp only [AgentTurns.step, hphase, hresult]
            cases (recordOf turn run (runTurn path run).2).handed with
            | some new => exact List.mem_append_right _ List.mem_cons_self
            | none => exact List.mem_append_right _ List.mem_cons_self
          exact hprunes (hhanded.mp (hdelivered.handed _ hmem))
      | _ =>
          simp only [InOrder, hphase, not_true_eq_false] at horder
  | loadCanonical turn ok =>
      cases hphase : s.phase turn with
      | appending new =>
          simp only [InOrder, hphase, Bool.not_eq_true] at horder
          obtain ⟨hnew, -⟩ := h.pending turn new (hphase ▸ .called)
          have hhistory := hdelivered.history
          simp only [AgentTurns.step, hphase, horder, AgentTurns.returned, Bool.false_eq_true,
            if_false, List.map_append, List.flatten_append] at hhistory
          have hsame : s.loadCanonical.history =
              (s.given.map Prod.snd).flatten ++ new := hhistory.trans (by simp)
          rw [← h.delivered.history] at hsame
          exact hnew (List.self_eq_append_right.mp hsame)
      | _ =>
          simp only [InOrder, hphase, not_true_eq_false] at horder
  | saveCanonical turn ok =>
      cases hphase : s.phase turn with
      | extending new canonical =>
          simp only [InOrder, hphase] at horder
          obtain ⟨hnew, -⟩ := h.pending turn new (hphase ▸ .loaded canonical)
          have hhistory := hdelivered.history
          simp only [AgentTurns.step, hphase, AgentTurns.returned, List.map_append,
            List.flatten_append, ← h.delivered.history] at hhistory
          cases ok with
          | true =>
              refine horder ⟨rfl, ?_⟩
              have hsame : canonical.history ++ new = s.loadCanonical.history ++ new := by
                rw [← CanonicalSession.history_append canonical new none]
                exact hhistory.trans (by simp)
              exact List.append_cancel_right hsame
          | false =>
              have hsame : s.loadCanonical.history = s.loadCanonical.history ++ new :=
                hhistory.trans (by simp)
              exact hnew (List.self_eq_append_right.mp hsame)
      | _ =>
          simp only [InOrder, hphase, not_true_eq_false] at horder

end Steps

/-- Every state of a run has the messages of its turns once, exactly when every step of the run is
in order. -/
theorem canonical_delivered_iff (steps : List (TurnStep σ)) :
    (∀ s ∈ passed AgentTurns.step {} steps, Delivered s) ↔
      Guarded AgentTurns.step InOrder {} steps := by
  have hstep : ∀ (s : AgentTurns) (e : TurnStep σ), TurnInvariant s → InOrder s e →
      TurnInvariant (AgentTurns.step s e) := fun _ e h horder => step_invariant h e horder
  have hbreak : ∀ (s : AgentTurns) (e : TurnStep σ), TurnInvariant s → ¬ InOrder s e →
      ¬ Delivered (AgentTurns.step s e) := fun _ e h horder => step_breaks h e horder
  exact passed_safe_iff (fun _ h => h.delivered) hstep hbreak .init

/-! ### A pruned heartbeat -/

/-- A session that starts with a heartbeat and its reply, followed by five exchanges. -/
def heartbeatSession : List Message :=
  [.user "tick", .assistant "NO_REPLY"] ++ (List.replicate 5 [Message.user "question",
    Message.assistant "answer"]).flatten

/-- A turn on this session that is answered in words. -/
def heartbeatRun : TurnRun Script where
  world := scriptedWorld
  cfg := scriptedTurn [] "hello" 8
  session := heartbeatSession
  state := { replies := [.ok (textReply "Hello!")] }

/-- The turn returns Ok and appends two messages. The heartbeat is pruned, so that the session is
as long as before, and nothing is handed over. -/
theorem pruned_turn_hands_over_nothing : ¬ ∀ steps : List (TurnStep Script),
    ∀ s ∈ passed AgentTurns.step {} steps, Delivered s := by
  intro h
  have hrun : (runTurn .streaming heartbeatRun).1.isOk = true ∧
      (recordOf 0 heartbeatRun (runTurn .streaming heartbeatRun).2).handed = none := by
    decide +kernel
  obtain ⟨hok, hnone⟩ := hrun
  let started : AgentTurns := AgentTurns.step {} (.start 0 .streaming : TurnStep Script)
  have hmem : started.step (.loop 0 heartbeatRun) ∈
      passed AgentTurns.step {} [.start 0 .streaming, .loop 0 heartbeatRun] :=
    mem_passed.mpr ⟨_, List.prefix_rfl, rfl⟩
  have hphase : started.phase 0 = .running .streaming := rfl
  have hdelivered := h _ _ hmem
  cases hresult : (runTurn .streaming heartbeatRun).1 with
  | error e =>
      rw [hresult] at hok
      cases hok
  | ok result =>
      have hrecord : recordOf 0 heartbeatRun (runTurn .streaming heartbeatRun).2 ∈
          (started.step (.loop 0 heartbeatRun)).records := by
        simp only [AgentTurns.step, hphase, hresult, hnone]
        exact List.mem_append_right _ List.mem_cons_self
      have hhanded := hdelivered.handed _ hrecord
      rw [hnone] at hhanded
      cases hhanded

end ArmaraOS.Kernel
