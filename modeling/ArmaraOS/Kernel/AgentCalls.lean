import ArmaraOS.Lib.Acyclic
import ArmaraOS.Lib.Machine
import ArmaraOS.Lib.Table

/-!
Turns of agents that call one another (`agent_send`, `agent_delegate`, `agent_map_reduce`,
`agent_supervise` and `agent_coordinate` in `openfang-runtime/src/tool_runner.rs`,
`send_message_with_handle_and_blocks` in `openfang-kernel/src/kernel.rs`).

A turn waits for the lock of its agent, holds it to its end, and waits for every turn that its
tools have started. A tool that starts several turns at once does so in several steps. A turn that
ends, fails or runs into a timeout is gone.
-/

namespace ArmaraOS.Kernel

open ArmaraOS.Lib Relation

/-! ### Turns and calls -/

/-- The tools that start a turn of another agent and wait for it. -/
inductive CallTool where
  | agentSend
  | agentDelegate
  | agentMapReduce
  | agentSupervise
  | agentCoordinate
deriving DecidableEq

/-- A turn. `chain` are the turns that it is nested in, its caller first. -/
structure AgentTurn where
  number : Nat
  agentId : Nat
  chain : List Nat
  /-- `AGENT_CALL_DEPTH` in its task. -/
  depth : Nat
  /-- `MAX_AGENT_CALL_DEPTH_LIMIT` in its loop. -/
  maxDepth : Nat
  /-- It holds the lock of its agent. -/
  running : Bool
deriving DecidableEq

/-- `effective_max_agent_call_depth`, called in a turn. -/
def AgentTurn.effectiveMaxAgentCallDepth (t : AgentTurn) : Nat := max t.maxDepth 1

/-- What a call meets besides the depth: the error of a parameter that is missing, whether the
orchestration budget is exhausted, and the agent that is named or selected. -/
structure CallInput where
  missing : Option String
  budgetExhausted : Bool
  target : Except String Nat

/-- No parameter is missing. -/
def CallInput.complete (input : CallInput) : Except String Unit :=
  match input.missing with
  | some e => .error e
  | none => .ok ()

/-- The orchestration budget is not exhausted. -/
def CallInput.withinBudget (input : CallInput) (call : String) : Except String Unit :=
  if input.budgetExhausted then
    .error ("Orchestration wall-clock budget is exhausted; cannot " ++ call ++ ".")
  else .ok ()

/-- The checks of a call that stand before the one of the depth. `agent_delegate` looks at the
budget before it reads its parameters, and the tools for several agents do not look at it. -/
def CallInput.checked (input : CallInput) : CallTool → Except String Unit
  | .agentSend => do
      input.complete
      input.withinBudget "agent_send"
  | .agentDelegate => do
      input.withinBudget "delegate"
      input.complete
  | .agentMapReduce | .agentSupervise | .agentCoordinate => input.complete

/-- The agent of a call that passes all checks but the one of the depth. -/
def CallInput.accepted (input : CallInput) (tool : CallTool) : Except String Nat :=
  match input.checked tool with
  | .error e => .error e
  | .ok () => input.target

/-- `tool_agent_send` and the other four, up to the turn that they start: its agent and its
`AGENT_CALL_DEPTH`. Only `agent_send` reads and raises the depth. -/
def startCall (tool : CallTool) (caller : AgentTurn) (input : CallInput) :
    Except String (Nat × Nat) :=
  match input.checked tool with
  | .error e => .error e
  | .ok () =>
      if tool = .agentSend then
        if caller.effectiveMaxAgentCallDepth ≤ caller.depth then
          .error (s!"Inter-agent call depth exceeded (max {caller.effectiveMaxAgentCallDepth}). " ++
            "A->B->C chain is too deep. Use the task queue instead.")
        else input.target.map fun target => (target, caller.depth + 1)
      else input.target.map fun target => (target, caller.depth)

/-- A call that was made: the limit of its caller, the number of turns that the new one is to be
nested in, and the new turn or the error. -/
structure CallRecord where
  limit : Nat
  above : Nat
  outcome : Except String Nat

/-- The turns under way, and the calls made so far. -/
structure AgentCalls where
  turns : Table AgentTurn.number
  calls : List CallRecord

/-- No turn is under way. -/
def AgentCalls.new : AgentCalls := ⟨.empty, []⟩

namespace AgentCalls

/-- Some turn holds the lock of an agent. -/
def isLocked (s : AgentCalls) (agentId : Nat) : Bool :=
  s.turns.entries.any fun t => t.running && t.agentId == agentId

/-- A turn waits for one that it started. -/
def isCaller (s : AgentCalls) (number : Nat) : Bool :=
  s.turns.entries.any fun t => t.chain.head? == some number

/-- The turn that makes a call, with a number for the new turn that is free. -/
def caller (s : AgentCalls) (caller number : Nat) : Option AgentTurn :=
  match s.turns.find caller with
  | some t => if t.running && (s.turns.find number).isNone then some t else none
  | none => none

end AgentCalls

/-- One step. -/
inductive CallOp where
  | start (number agentId maxDepth : Nat)
  | call (caller : Nat) (tool : CallTool) (input : CallInput) (number maxDepth : Nat)
  | acquire (number : Nat)
  | finish (number : Nat)

/-- The turn that a call starts. -/
def nestedTurn (c : AgentTurn) (number agentId depth maxDepth : Nat) : AgentTurn :=
  ⟨number, agentId, c.number :: c.chain, depth, maxDepth, false⟩

/-- A call of a tool. -/
def callTurn (s : AgentCalls) (c : AgentTurn) (tool : CallTool) (input : CallInput)
    (number maxDepth : Nat) : AgentCalls :=
  match startCall tool c input with
  | .error e =>
      { s with calls := ⟨c.effectiveMaxAgentCallDepth, c.chain.length + 1, .error e⟩ :: s.calls }
  | .ok (agentId, depth) =>
      { turns := s.turns.insert (nestedTurn c number agentId depth maxDepth)
        calls := ⟨c.effectiveMaxAgentCallDepth, c.chain.length + 1, .ok number⟩ :: s.calls }

/-- The effect of a step. -/
def callStep (s : AgentCalls) : CallOp → AgentCalls
  | .start number agentId maxDepth =>
      { s with turns := s.turns.insertIgnore ⟨number, agentId, [], 0, maxDepth, false⟩ }
  | .call caller tool input number maxDepth =>
      match s.caller caller number with
      | none => s
      | some c => callTurn s c tool input number maxDepth
  | .acquire number =>
      match s.turns.find number with
      | none => s
      | some t =>
          if s.isLocked t.agentId then s
          else
            { s with
              turns := s.turns.modify number (fun t => { t with running := true }) fun _ h => h }
  | .finish number =>
      if s.isCaller number then s else { s with turns := s.turns.erase number }

/-! ### The call chains -/

/-- Every turn that is nested in another one is nested in a turn under way that runs, and in those
that this one is nested in. -/
def Nested (s : AgentCalls) : Prop :=
  ∀ u ∈ s.turns.entries, ∀ p rest, u.chain = p :: rest →
    ∃ t ∈ s.turns.entries, t.number = p ∧ t.chain = rest ∧ t.running = true

theorem caller_eq_some {s : AgentCalls} {caller number : Nat} {c : AgentTurn} :
    s.caller caller number = some c ↔ (c ∈ s.turns.entries ∧ c.number = caller) ∧
      c.running = true ∧ ∀ t ∈ s.turns.entries, t.number ≠ number := by
  unfold AgentCalls.caller
  constructor
  · intro h
    split at h
    · rename_i t hfind
      split at h
      · rename_i htest
        cases h
        obtain ⟨hrunning, hfree⟩ := Bool.and_eq_true_iff.mp htest
        refine ⟨Table.find_eq_some_iff.mp hfind, hrunning, ?_⟩
        exact Table.find_eq_none_iff.mp (Option.isNone_iff_eq_none.mp hfree)
      · cases h
    · cases h
  · rintro ⟨hmem, hrunning, hfree⟩
    have hnone := Table.find_eq_none_iff.mpr hfree
    rw [Table.find_eq_some_iff.mpr hmem]
    simp [hrunning, hnone]

/-- With a free number, inserting adds an entry. -/
theorem mem_insert_free {t : Table AgentTurn.number} {new u : AgentTurn}
    (hfree : ∀ v ∈ t.entries, v.number ≠ new.number) :
    u ∈ (t.insert new).entries ↔ u = new ∨ u ∈ t.entries := by
  rw [Table.mem_insert]
  exact or_congr_right (and_iff_left_of_imp fun hu => hfree u hu)

theorem mem_acquire {s : AgentCalls} {number : Nat} {t u : AgentTurn}
    (ht : s.turns.find number = some t) :
    u ∈ (s.turns.modify number (fun t => { t with running := true }) fun _ h => h).entries ↔
      u = { t with running := true } ∨ u ∈ s.turns.entries ∧ u.number ≠ number :=
  Table.mem_modify_of_find (f := fun t => { t with running := true }) (fun _ h => h) ht

/-- What a step does to the turns under way. -/
inductive Stepped (s : AgentCalls) : CallOp → Table AgentTurn.number → Prop where
  | same {op : CallOp} : Stepped s op s.turns
  | started {number agentId maxDepth : Nat} (hfree : ∀ t ∈ s.turns.entries, t.number ≠ number) :
      Stepped s (.start number agentId maxDepth)
        (s.turns.insert ⟨number, agentId, [], 0, maxDepth, false⟩)
  | called {caller : Nat} {tool : CallTool} {input : CallInput} {number maxDepth : Nat}
      {c : AgentTurn} {agentId depth : Nat} (hc : s.caller caller number = some c)
      (hstart : startCall tool c input = .ok (agentId, depth)) :
      Stepped s (.call caller tool input number maxDepth)
        (s.turns.insert (nestedTurn c number agentId depth maxDepth))
  | acquired {number : Nat} {t : AgentTurn} (ht : s.turns.find number = some t)
      (hwaiting : t.running = false) :
      Stepped s (.acquire number)
        (s.turns.modify number (fun t => { t with running := true }) fun _ h => h)
  | finished {number : Nat} (hleaf : ∀ u ∈ s.turns.entries, u.chain.head? ≠ some number) :
      Stepped s (.finish number) (s.turns.erase number)

theorem callStep_turns (s : AgentCalls) (op : CallOp) : Stepped s op (callStep s op).turns := by
  cases op with
  | start number agentId maxDepth =>
      change Stepped s _ (s.turns.insertIgnore _)
      unfold Table.insertIgnore
      split
      · exact .same
      · rename_i hfree
        have hnone := Option.not_isSome_iff_eq_none.mp hfree
        exact .started (Table.find_eq_none_iff.mp hnone)
  | call caller tool input number maxDepth =>
      simp only [callStep]
      split
      · exact .same
      · rename_i c hc
        unfold callTurn
        split
        · exact .same
        · rename_i agentId depth hstart
          exact .called hc hstart
  | acquire number =>
      simp only [callStep]
      split
      · exact .same
      · rename_i t ht
        split
        · exact .same
        · rename_i hopen
          refine .acquired ht ?_
          cases hrunning : t.running with
          | false => rfl
          | true =>
              refine absurd (List.any_eq_true.mpr ⟨t, (Table.find_eq_some_iff.mp ht).1, ?_⟩) hopen
              simp [hrunning]
  | finish number =>
      simp only [callStep]
      split
      · exact .same
      · rename_i hleaf
        refine .finished fun u hu hhead => hleaf (List.any_eq_true.mpr ⟨u, hu, ?_⟩)
        exact beq_iff_eq.mpr hhead

theorem Nested.new : Nested .new := fun _ hu => absurd hu List.not_mem_nil

theorem Nested.step {s : AgentCalls} (h : Nested s) (op : CallOp) : Nested (callStep s op) := by
  have hkept : ∀ (new : AgentTurn), (∀ t ∈ s.turns.entries, t.number ≠ new.number) →
      (∀ p rest, new.chain = p :: rest →
        ∃ t ∈ s.turns.entries, t.number = p ∧ t.chain = rest ∧ t.running = true) →
      ∀ u ∈ (s.turns.insert new).entries, ∀ p rest, u.chain = p :: rest →
        ∃ t ∈ (s.turns.insert new).entries, t.number = p ∧ t.chain = rest ∧ t.running = true := by
    intro new hfree hchain u hu p rest hu'
    have hfound : ∃ t ∈ s.turns.entries, t.number = p ∧ t.chain = rest ∧ t.running = true := by
      rcases (mem_insert_free hfree).mp hu with rfl | hold
      · exact hchain p rest hu'
      · exact h u hold p rest hu'
    obtain ⟨t, ht, hrest⟩ := hfound
    exact ⟨t, (mem_insert_free hfree).mpr (.inr ht), hrest⟩
  have hstep := callStep_turns s op
  unfold Nested
  generalize (callStep s op).turns = turns at hstep ⊢
  cases hstep with
  | same => exact h
  | started hfree => exact hkept _ hfree fun _ _ heq => by cases heq
  | @called _ _ _ _ _ c _ _ hc hstart =>
      obtain ⟨⟨hmem, hnumber⟩, hrunning, hfree⟩ := caller_eq_some.mp hc
      refine hkept _ hfree fun p rest heq => ?_
      cases heq
      exact ⟨c, hmem, rfl, rfl, hrunning⟩
  | @acquired number t ht hwaiting =>
      have hchain : ∀ u ∈ s.turns.entries, ∀ p rest, u.chain = p :: rest →
          ∃ v ∈ (s.turns.modify number (fun t => { t with running := true }) fun _ h => h).entries,
            v.number = p ∧ v.chain = rest ∧ v.running = true := by
        intro u hu p rest heq
        obtain ⟨v, hv, hp, hrest, hrunning⟩ := h u hu p rest heq
        refine ⟨v, (mem_acquire ht).mpr (.inr ⟨hv, fun hnumber => ?_⟩), hp, hrest, hrunning⟩
        obtain ⟨hmem, hkey⟩ := Table.find_eq_some_iff.mp ht
        rw [Table.eq_of_key_eq hv hmem (hnumber.trans hkey.symm), hwaiting] at hrunning
        cases hrunning
      intro u hu p rest heq
      rcases (mem_acquire ht).mp hu with rfl | ⟨hold, -⟩
      · exact hchain t (Table.find_eq_some_iff.mp ht).1 p rest heq
      · exact hchain u hold p rest heq
  | @finished number hleaf =>
      intro u hu p rest heq
      obtain ⟨hold, -⟩ := Table.mem_erase.mp hu
      obtain ⟨t, ht, hp, hrest⟩ := h u hold p rest heq
      refine ⟨t, Table.mem_erase.mpr ⟨ht, fun hnumber => hleaf u hold ?_⟩, hp, hrest⟩
      rw [heq, ← hp, hnumber]
      rfl

/-! ### Waiting -/

/-- A turn waits for another one: the other was started by one of its tools, or holds the lock
that it waits for. -/
def Waits (turns : Table AgentTurn.number) (a b : Nat) : Prop :=
  ∃ t ∈ turns.entries, ∃ u ∈ turns.entries, t.number = a ∧ u.number = b ∧
    (u.chain.head? = some a ∨ t.running = false ∧ u.running = true ∧ u.agentId = t.agentId)

/-- No turns wait for one another in a cycle, and no turn waits for the lock of an agent in its
own call chain. -/
structure NoDeadlock (s : AgentCalls) : Prop where
  acyclic : Acyclic (Waits s.turns)
  notOwnChain : ∀ t ∈ s.turns.entries, t.running = false → ∀ u ∈ s.turns.entries,
    u.running = true → u.agentId = t.agentId → u.number ∉ t.chain

/-- The lock of the agent that a call addresses is not held by the caller, nor by a turn that
waits, over any number of others, for the caller. -/
def AsksNoWaiter (s : AgentCalls) : CallOp → Prop
  | .call caller tool input number _ => ∀ c agentId depth, s.caller caller number = some c →
      startCall tool c input = .ok (agentId, depth) → ∀ u ∈ s.turns.entries,
        u.running = true → u.agentId = agentId → ¬ ReflTransGen (Waits s.turns) u.number caller
  | _ => True

/-- The turns of a call chain wait for the turn at its end. -/
theorem Nested.chain_waits {s : AgentCalls} (h : Nested s) {t : AgentTurn}
    (ht : t ∈ s.turns.entries) {k : Nat} (hk : k ∈ t.chain) :
    TransGen (Waits s.turns) k t.number := by
  generalize hchain : t.chain = chain at hk
  induction chain generalizing t with
  | nil => cases hk
  | cons p rest ih =>
      obtain ⟨u, hu, hp, hrest, -⟩ := h t ht p rest hchain
      have hedge : Waits s.turns u.number t.number :=
        ⟨u, hu, t, ht, rfl, rfl, .inl (by rw [hchain, hp]; rfl)⟩
      rcases List.mem_cons.mp hk with rfl | hk
      · exact hp ▸ .single hedge
      · exact (ih hu hrest hk).tail hedge

theorem Nested.noDeadlock {s : AgentCalls} (h : Nested s) (hacyclic : Acyclic (Waits s.turns)) :
    NoDeadlock s := by
  refine ⟨hacyclic, fun t ht hwaiting u hu hrunning hagent hmem => ?_⟩
  have hedge : Waits s.turns t.number u.number :=
    ⟨t, ht, u, hu, rfl, rfl, .inr ⟨hwaiting, hrunning, hagent⟩⟩
  exact hacyclic _ (.head hedge (h.chain_waits ht hmem))

section Adding

variable {s : AgentCalls} (new : AgentTurn)

/-- A new turn adds edges at its own ends only. -/
theorem waits_insert (hfree : ∀ t ∈ s.turns.entries, t.number ≠ new.number) {a b : Nat}
    (h : Waits (s.turns.insert new) a b) : Waits s.turns a b ∨ a = new.number ∨ b = new.number := by
  obtain ⟨t, ht, u, hu, rfl, rfl, hwaits⟩ := h
  rcases (mem_insert_free hfree).mp ht with rfl | ht
  · exact .inr (.inl rfl)
  · rcases (mem_insert_free hfree).mp hu with rfl | hu
    · exact .inr (.inr rfl)
    · exact .inl ⟨t, ht, u, hu, rfl, rfl, hwaits⟩

/-- Nothing waits for a new turn but its caller. -/
theorem waits_new (hfree : ∀ t ∈ s.turns.entries, t.number ≠ new.number)
    (hwaiting : new.running = false) {a : Nat} (h : Waits (s.turns.insert new) a new.number) :
    new.chain.head? = some a := by
  obtain ⟨t, -, u, hu, rfl, hnumber, hwaits⟩ := h
  rcases (mem_insert_free hfree).mp hu with rfl | hu
  · rcases hwaits with hchild | ⟨-, hrunning, -⟩
    · exact hchild
    · rw [hwaiting] at hrunning
      cases hrunning
  · exact absurd hnumber (hfree u hu)

/-- A new turn waits for the holder of its lock only. -/
theorem new_waits (hnested : Nested s) (hfree : ∀ t ∈ s.turns.entries, t.number ≠ new.number)
    (hwaiting : new.running = false) (hown : new.number ∉ new.chain) {b : Nat}
    (h : Waits (s.turns.insert new) new.number b) :
    ∃ u ∈ s.turns.entries, u.number = b ∧ u.running = true ∧ u.agentId = new.agentId := by
  obtain ⟨t, ht, u, hu, hnumber, rfl, hwaits⟩ := h
  have ht' : t = new := ((mem_insert_free hfree).mp ht).elim id fun ht =>
    absurd hnumber (hfree t ht)
  subst ht'
  rcases (mem_insert_free hfree).mp hu with rfl | hu
  · rcases hwaits with hchild | ⟨-, hrunning, -⟩
    · exact absurd (List.mem_of_mem_head? hchild) hown
    · rw [hwaiting] at hrunning
      cases hrunning
  · rcases hwaits with hchild | ⟨-, hrunning, hagent⟩
    · obtain ⟨rest, hrest⟩ := List.head?_eq_some_iff.mp hchild
      obtain ⟨v, hv, hsame, -⟩ := hnested u hu _ _ hrest
      exact absurd hsame (hfree v hv)
    · exact ⟨u, hu, rfl, hrunning, hagent⟩

end Adding

/-- A call adds no cycle where the holder of the lock does not wait for the caller. -/
theorem acyclic_called {s : AgentCalls} (hnested : Nested s) (h : Acyclic (Waits s.turns))
    {caller number : Nat} {c : AgentTurn} (hc : s.caller caller number = some c)
    {agentId depth maxDepth : Nat}
    (hask : ∀ u ∈ s.turns.entries, u.running = true → u.agentId = agentId →
      ¬ ReflTransGen (Waits s.turns) u.number caller) :
    Acyclic (Waits (s.turns.insert (nestedTurn c number agentId depth maxDepth))) := by
  obtain ⟨⟨hmem, rfl⟩, -, hfree⟩ := caller_eq_some.mp hc
  have hown : number ∉ (nestedTurn c number agentId depth maxDepth).chain := by
    intro hin
    rcases List.mem_cons.mp hin with hcaller | hin
    · exact hfree c hmem hcaller.symm
    · obtain ⟨b, hfirst, -⟩ := TransGen.head'_iff.mp (hnested.chain_waits hmem hin)
      obtain ⟨t, ht, -, -, hnumber, -⟩ := hfirst
      exact hfree t ht hnumber
  -- Without the edge from the caller, the new turn is a source.
  let kept := fun a b => Waits (s.turns.insert (nestedTurn c number agentId depth maxDepth)) a b ∧
    b ≠ number
  have hkept : ∀ a b, kept a b → Waits s.turns a b ∨ a = number := by
    rintro a b ⟨hedge, hne⟩
    rcases waits_insert (nestedTurn c number agentId depth maxDepth) hfree hedge with
      hold | hnew | hnew
    · exact .inl hold
    · exact .inr hnew
    · exact absurd hnew hne
  have hsource : ∀ a, ¬ kept a number := fun a hedge => hedge.2 rfl
  refine (h.add_source hkept hsource).add_edge (c := c.number) (t := number) ?_ ?_
  · intro a b hedge
    by_cases hb : b = number
    · rw [hb] at hedge
      have hhead := waits_new (nestedTurn c number agentId depth maxDepth) hfree rfl hedge
      exact .inr ⟨(Option.some.inj hhead).symm, hb⟩
    · exact .inl ⟨hedge, hb⟩
  · intro hback
    rcases ReflTransGen.cases_head hback with hsame | ⟨b, ⟨hedge, hb⟩, hrest⟩
    · exact hfree c hmem hsame.symm
    · obtain ⟨u, hu, rfl, hrunning, hagent⟩ :=
        new_waits (nestedTurn c number agentId depth maxDepth) hnested hfree rfl hown hedge
      exact hask u hu hrunning hagent (reflTransGen_avoids hkept hsource hb hrest).1

theorem acyclic_callStep {s : AgentCalls} (hnested : Nested s) (h : Acyclic (Waits s.turns))
    {op : CallOp} (hask : AsksNoWaiter s op) : Acyclic (Waits (callStep s op).turns) := by
  have hstep := callStep_turns s op
  generalize (callStep s op).turns = turns at hstep ⊢
  cases hstep with
  | same => exact h
  | @started number agentId maxDepth hfree =>
      let new : AgentTurn := ⟨number, agentId, [], 0, maxDepth, false⟩
      have hsource : ∀ a, ¬ Waits (s.turns.insert new) a number := by
        intro a hedge
        have hhead := waits_new new hfree rfl hedge
        cases hhead
      refine h.add_source (t := number) (fun a b hedge => ?_) hsource
      rcases waits_insert new hfree hedge with hold | hnew | hnew
      · exact .inl hold
      · exact .inr hnew
      · rw [hnew] at hedge
        exact absurd hedge (hsource a)
  | called hc hstart => exact acyclic_called hnested h hc (hask _ _ _ hc hstart)
  | @acquired number t ht hwaiting =>
      obtain ⟨hmem, hnumber⟩ := Table.find_eq_some_iff.mp ht
      -- What a turn of the new table was before the step.
      have hbefore : ∀ u ∈
          (s.turns.modify number (fun t => { t with running := true }) fun _ h => h).entries,
          ∃ v ∈ s.turns.entries, v.number = u.number ∧ v.chain = u.chain ∧
            v.agentId = u.agentId ∧ (u.number ≠ number → v.running = u.running) ∧
            (u.number = number → u.running = true) := by
        intro u hu
        rcases (mem_acquire ht).mp hu with rfl | ⟨hold, hne⟩
        · exact ⟨t, hmem, rfl, rfl, rfl, fun hne => absurd hnumber hne, fun _ => rfl⟩
        · exact ⟨u, hold, rfl, rfl, rfl, fun _ => rfl, fun heq => absurd heq hne⟩
      refine h.add_sink (t := number) ?_ ?_
      · rintro a b ⟨v, hv, w, hw, rfl, rfl, hwaits⟩
        obtain ⟨v', hv', hvn, -, hva, hvr, hvrun⟩ := hbefore v hv
        obtain ⟨w', hw', hwn, hwc, hwa, hwr, -⟩ := hbefore w hw
        by_cases hwnumber : w.number = number
        · exact .inr hwnumber
        · refine .inl ⟨v', hv', w', hw', hvn, hwn, ?_⟩
          rcases hwaits with hchild | ⟨hvwait, hwrun, hagent⟩
          · exact .inl (hwc ▸ hchild)
          · have hvne : v.number ≠ number := by
              intro heq
              rw [hvrun heq] at hvwait
              cases hvwait
            exact .inr ⟨(hvr hvne).trans hvwait, (hwr hwnumber).trans hwrun,
              hwa.trans (hagent.trans hva.symm)⟩
      · rintro b ⟨v, hv, w, hw, hvn, rfl, hwaits⟩
        obtain ⟨v', -, -, -, -, -, hvrun⟩ := hbefore v hv
        rcases hwaits with hchild | ⟨hvwait, -, -⟩
        · obtain ⟨w', hw', -, hwc, -⟩ := hbefore w hw
          obtain ⟨rest, hrest⟩ := List.head?_eq_some_iff.mp hchild
          obtain ⟨p, hp, hpn, -, hprun⟩ := hnested w' hw' _ _ (hwc.trans hrest)
          rw [Table.eq_of_key_eq hp hmem (hpn.trans hnumber.symm), hwaiting] at hprun
          cases hprun
        · rw [hvrun hvn] at hvwait
          cases hvwait
  | finished hleaf =>
      refine h.mono fun a b hedge => ?_
      obtain ⟨t, ht, u, hu, hrest⟩ := hedge
      exact ⟨t, (Table.mem_erase.mp ht).1, u, (Table.mem_erase.mp hu).1, hrest⟩

/-- A call whose lock is held by a turn that waits for the caller closes a cycle. -/
theorem not_noDeadlock {s : AgentCalls} {op : CallOp} (hnot : ¬ AsksNoWaiter s op) :
    ¬ NoDeadlock (callStep s op) := by
  intro hafter
  cases op with
  | start | acquire | finish => exact hnot trivial
  | call caller tool input number maxDepth =>
      refine hnot fun c agentId depth hc hstart u hu hrunning hagent hwaits => ?_
      obtain ⟨⟨hmem, rfl⟩, -, hfree⟩ := caller_eq_some.mp hc
      let new := nestedTurn c number agentId depth maxDepth
      have hturns : (callStep s (.call c.number tool input number maxDepth)).turns =
          s.turns.insert new := by
        simp only [callStep, hc, callTurn, hstart]
        rfl
      have hacyclic := hafter.acyclic
      rw [hturns] at hacyclic
      have hin : ∀ {t}, t ∈ (s.turns.insert new).entries ↔ t = new ∨ t ∈ s.turns.entries :=
        mem_insert_free hfree
      have hold : ReflTransGen (Waits (s.turns.insert new)) u.number c.number := by
        refine ReflTransGen.mono ?_ _ _ hwaits
        rintro a b ⟨t, ht, v, hv, hrest⟩
        exact ⟨t, hin.mpr (.inr ht), v, hin.mpr (.inr hv), hrest⟩
      have hlock : Waits (s.turns.insert new) number u.number :=
        ⟨new, hin.mpr (.inl rfl), u, hin.mpr (.inr hu), rfl, rfl, .inr ⟨rfl, hrunning, hagent⟩⟩
      have hchild : Waits (s.turns.insert new) c.number number :=
        ⟨c, hin.mpr (.inr hmem), new, hin.mpr (.inl rfl), rfl, rfl, .inl rfl⟩
      exact not_acyclic_of_edge hchild (.head hlock hold) hacyclic

/-- **Calls wait for one another in a cycle exactly in the runs in which a call addresses an agent
whose lock waits for the caller.** In every other run, with any number of turns and calls by all
five tools, no turns wait for one another in a cycle in any state, and no turn waits for the lock
of an agent in its own call chain. -/
theorem calls_never_wait_iff (ops : List CallOp) :
    (∀ s ∈ passed callStep AgentCalls.new ops, NoDeadlock s) ↔
      Guarded callStep AsksNoWaiter AgentCalls.new ops := by
  have hstep : ∀ s op, Nested s ∧ Acyclic (Waits s.turns) → AsksNoWaiter s op →
      Nested (callStep s op) ∧ Acyclic (Waits (callStep s op).turns) :=
    fun _ op h hask => ⟨h.1.step op, acyclic_callStep h.1 h.2 hask⟩
  have hnew : Acyclic (Waits AgentCalls.new.turns) := by
    refine acyclic_empty fun _ _ hedge => ?_
    obtain ⟨t, ht, -⟩ := hedge
    exact absurd ht List.not_mem_nil
  exact passed_safe_iff (fun _ h => h.1.noDeadlock h.2) hstep
    (fun _ _ _ hnot => not_noDeadlock hnot) ⟨.new, hnew⟩

/-! ### Depth -/

/-- No turn is nested in more turns than its caller's limit allows, and each call that would have
led beyond it returned an error. -/
structure DepthBounded (s : AgentCalls) : Prop where
  nested : ∀ t ∈ s.turns.entries, ∀ c ∈ s.turns.entries, t.chain.head? = some c.number →
    t.chain.length + 1 ≤ c.effectiveMaxAgentCallDepth + 1
  refused : ∀ r ∈ s.calls, r.limit < r.above → ∃ e, r.outcome = .error e

/-- A call from a turn that is nested in as many turns as its limit, or more, is refused for
another reason, or it is an `agent_send` and `AGENT_CALL_DEPTH` has reached the limit. -/
def DepthCounted (s : AgentCalls) : CallOp → Prop
  | .call caller tool input number _ => ∀ c agentId, s.caller caller number = some c →
      input.accepted tool = .ok agentId → c.effectiveMaxAgentCallDepth ≤ c.chain.length →
        tool = .agentSend ∧ c.effectiveMaxAgentCallDepth ≤ c.depth
  | _ => True

/-- A call that is not refused for another reason starts a turn, but for an `agent_send` at the
limit. -/
theorem startCall_ok_iff {tool : CallTool} {c : AgentTurn} {input : CallInput} :
    (∃ started, startCall tool c input = .ok started) ↔
      (∃ agentId, input.accepted tool = .ok agentId) ∧
        ¬ (tool = .agentSend ∧ c.effectiveMaxAgentCallDepth ≤ c.depth) := by
  unfold startCall CallInput.accepted
  cases input.checked tool with
  | error e => simp
  | ok _ =>
      cases input.target with
      | error e =>
          dsimp only
          split
          · split <;> simp [Except.map]
          · simp [Except.map]
      | ok agentId =>
          dsimp only
          split
          · rename_i htool
            split
            · rename_i hlimit
              simp [htool, hlimit]
            · rename_i hlimit
              simp [Except.map, hlimit]
          · rename_i htool
            simp [Except.map, htool]

theorem calls_eq_of_not_call {s : AgentCalls} {op : CallOp}
    (h : ∀ caller tool input number maxDepth, op ≠ .call caller tool input number maxDepth) :
    (callStep s op).calls = s.calls := by
  cases op with
  | start => rfl
  | call caller tool input number maxDepth => exact absurd rfl (h _ _ _ _ _)
  | acquire number =>
      simp only [callStep]
      split
      · rfl
      · split <;> rfl
  | finish number =>
      simp only [callStep]
      split <;> rfl

/-- Turns that stay, with their chains and limits, stay within them. -/
theorem DepthBounded.of_turns {s : AgentCalls} (h : DepthBounded s)
    {turns : Table AgentTurn.number}
    (hbefore : ∀ u ∈ turns.entries, ∃ v ∈ s.turns.entries, v.number = u.number ∧
      v.chain = u.chain ∧ v.maxDepth = u.maxDepth) :
    ∀ t ∈ turns.entries, ∀ c ∈ turns.entries, t.chain.head? = some c.number →
      t.chain.length + 1 ≤ c.effectiveMaxAgentCallDepth + 1 := by
  intro t ht c hc hhead
  obtain ⟨t', ht', -, hchain, -⟩ := hbefore t ht
  obtain ⟨c', hc', hnumber, -, hmax⟩ := hbefore c hc
  have hbound := h.nested t' ht' c' hc' (by rw [hchain, hhead, hnumber])
  rwa [hchain, AgentTurn.effectiveMaxAgentCallDepth, hmax] at hbound

theorem DepthBounded.callTurn {s : AgentCalls} (hnested : Nested s) (h : DepthBounded s)
    {caller number : Nat} {c : AgentTurn} (hc : s.caller caller number = some c)
    {tool : CallTool} {input : CallInput} {maxDepth : Nat}
    (hcounted : DepthCounted s (.call caller tool input number maxDepth)) :
    DepthBounded (callTurn s c tool input number maxDepth) := by
  obtain ⟨⟨hmem, hcaller⟩, -, hfree⟩ := caller_eq_some.mp hc
  unfold ArmaraOS.Kernel.callTurn
  split
  · rename_i e hstart
    refine ⟨h.nested, fun r hr hbeyond => ?_⟩
    rcases List.mem_cons.mp hr with rfl | hr
    · exact ⟨e, rfl⟩
    · exact h.refused r hr hbeyond
  · rename_i agentId depth hstart
    obtain ⟨⟨target, haccepted⟩, hnot⟩ := startCall_ok_iff.mp ⟨_, hstart⟩
    have hroom : c.chain.length < c.effectiveMaxAgentCallDepth :=
      lt_of_not_ge fun hfull => hnot (hcounted c target hc haccepted hfull)
    constructor
    · intro t ht u hu hhead
      rcases (mem_insert_free hfree).mp ht with rfl | ht
      · have hu' : u.number = c.number := (Option.some.inj hhead).symm
        rcases (mem_insert_free hfree).mp hu with rfl | hu
        · exact absurd hu'.symm (hfree c hmem)
        · rw [Table.eq_of_key_eq hu hmem hu']
          exact Nat.succ_le_succ hroom
      · rcases (mem_insert_free hfree).mp hu with rfl | hu
        · obtain ⟨rest, hrest⟩ := List.head?_eq_some_iff.mp hhead
          obtain ⟨v, hv, hnumber, -⟩ := hnested t ht _ _ hrest
          exact absurd hnumber (hfree v hv)
        · exact h.nested t ht u hu hhead
    · intro r hr hbeyond
      rcases List.mem_cons.mp hr with rfl | hr
      · exact absurd hbeyond (Nat.not_lt.mpr hroom)
      · exact h.refused r hr hbeyond

theorem DepthBounded.step {s : AgentCalls} (hnested : Nested s) (h : DepthBounded s)
    {op : CallOp} (hcounted : DepthCounted s op) : DepthBounded (callStep s op) := by
  have hcalls : (∀ caller tool input number maxDepth,
      op ≠ .call caller tool input number maxDepth) →
      ∀ r ∈ (callStep s op).calls, r.limit < r.above → ∃ e, r.outcome = .error e := by
    intro hop
    rw [calls_eq_of_not_call hop]
    exact h.refused
  cases op with
  | call caller tool input number maxDepth =>
      cases hc : s.caller caller number with
      | none =>
          simp only [callStep, hc]
          exact h
      | some c =>
          simp only [callStep, hc]
          exact h.callTurn hnested hc hcounted
  | start number agentId maxDepth =>
      refine ⟨?_, hcalls fun _ _ _ _ _ heq => by cases heq⟩
      have hstep := callStep_turns s (.start number agentId maxDepth)
      generalize (callStep s (.start number agentId maxDepth)).turns = turns at hstep ⊢
      cases hstep with
      | same => exact h.nested
      | started hfree =>
          intro t ht c hc hhead
          rcases (mem_insert_free hfree).mp ht with rfl | ht
          · cases hhead
          · rcases (mem_insert_free hfree).mp hc with rfl | hc
            · obtain ⟨rest, hrest⟩ := List.head?_eq_some_iff.mp hhead
              obtain ⟨v, hv, hnumber, -⟩ := hnested t ht _ _ hrest
              exact absurd hnumber (hfree v hv)
            · exact h.nested t ht c hc hhead
  | acquire number =>
      refine ⟨h.of_turns ?_, hcalls fun _ _ _ _ _ heq => by cases heq⟩
      have hstep := callStep_turns s (.acquire number)
      generalize (callStep s (.acquire number)).turns = turns at hstep ⊢
      cases hstep with
      | same => exact fun u hu => ⟨u, hu, rfl, rfl, rfl⟩
      | @acquired _ t ht _ =>
          intro u hu
          rcases (mem_acquire ht).mp hu with rfl | ⟨hold, -⟩
          · exact ⟨t, (Table.find_eq_some_iff.mp ht).1, rfl, rfl, rfl⟩
          · exact ⟨u, hold, rfl, rfl, rfl⟩
  | finish number =>
      refine ⟨h.of_turns ?_, hcalls fun _ _ _ _ _ heq => by cases heq⟩
      have hstep := callStep_turns s (.finish number)
      generalize (callStep s (.finish number)).turns = turns at hstep ⊢
      cases hstep with
      | same => exact fun u hu => ⟨u, hu, rfl, rfl, rfl⟩
      | finished hleaf => exact fun u hu => ⟨u, (Table.mem_erase.mp hu).1, rfl, rfl, rfl⟩

theorem DepthBounded.new : DepthBounded .new :=
  ⟨fun _ ht => absurd ht List.not_mem_nil, fun _ hr => absurd hr List.not_mem_nil⟩

/-- A call beyond the limit that nothing refuses starts a turn. -/
theorem not_depthBounded {s : AgentCalls} {op : CallOp} (hnot : ¬ DepthCounted s op) :
    ¬ DepthBounded (callStep s op) := by
  intro hafter
  cases op with
  | start | acquire | finish => exact hnot trivial
  | call caller tool input number maxDepth =>
      refine hnot fun c agentId hc haccepted hfull => by_contra fun hsend => ?_
      obtain ⟨⟨target, depth⟩, hstart⟩ := startCall_ok_iff.mpr ⟨⟨agentId, haccepted⟩, hsend⟩
      obtain ⟨e, herror⟩ := hafter.refused
        ⟨c.effectiveMaxAgentCallDepth, c.chain.length + 1, .ok number⟩
        (by simp [callStep, hc, callTurn, hstart]) (Nat.lt_succ_of_le hfull)
      cases herror

/-- **The call depth is bounded exactly in the runs whose calls beyond the limit are counted.** For
any mix of the five tools, these are the runs in which no turn is nested in more turns than the
limit of its caller, and a call that would lead beyond it returns an error and starts no turn. -/
theorem call_depth_bounded_iff (ops : List CallOp) :
    (∀ s ∈ passed callStep AgentCalls.new ops, DepthBounded s) ↔
      Guarded callStep DepthCounted AgentCalls.new ops := by
  have hstep : ∀ s op, Nested s ∧ DepthBounded s → DepthCounted s op →
      Nested (callStep s op) ∧ DepthBounded (callStep s op) :=
    fun _ op h hcounted => ⟨h.1.step op, h.2.step h.1 hcounted⟩
  exact passed_safe_iff (fun _ h => h.2) hstep (fun _ _ _ hnot => not_depthBounded hnot)
    ⟨.new, .new⟩

/-- The step is no call by another tool than `agent_send`. -/
def SendsOnly : CallOp → Prop
  | .call _ tool _ _ _ => tool = .agentSend
  | _ => True

/-- `AGENT_CALL_DEPTH` counts the turns that a turn is nested in. -/
def DepthExact (s : AgentCalls) : Prop := ∀ t ∈ s.turns.entries, t.depth = t.chain.length

theorem DepthExact.step {s : AgentCalls} (h : DepthExact s) {op : CallOp} (hsends : SendsOnly op) :
    DepthExact (callStep s op) := by
  have hstep := callStep_turns s op
  unfold DepthExact
  generalize (callStep s op).turns = turns at hstep ⊢
  cases hstep with
  | same => exact h
  | started hfree =>
      intro t ht
      rcases (mem_insert_free hfree).mp ht with rfl | ht
      · rfl
      · exact h t ht
  | @called _ tool input _ _ c agentId depth hc hstart =>
      obtain ⟨⟨hmem, -⟩, -, hfree⟩ := caller_eq_some.mp hc
      have hdepth : depth = c.depth + 1 := by
        obtain rfl : tool = .agentSend := hsends
        unfold startCall at hstart
        split at hstart
        · cases hstart
        · rw [if_pos rfl] at hstart
          split at hstart
          · cases hstart
          · cases htarget : input.target with
            | error e =>
                rw [htarget] at hstart
                cases hstart
            | ok target =>
                rw [htarget] at hstart
                cases hstart
                rfl
      intro t ht
      rcases (mem_insert_free hfree).mp ht with rfl | ht
      · exact hdepth.trans (congrArg Nat.succ (h c hmem))
      · exact h t ht
  | @acquired _ t ht _ =>
      intro t' ht'
      rcases (mem_acquire ht).mp ht' with rfl | ⟨hold, -⟩
      · exact h t (Table.find_eq_some_iff.mp ht).1
      · exact h t' hold
  | finished hleaf => exact fun t ht => h t (Table.mem_erase.mp ht).1

/-- Where the depth is exact, an `agent_send` is counted. -/
theorem DepthExact.counted {s : AgentCalls} (h : DepthExact s) {op : CallOp}
    (hsends : SendsOnly op) : DepthCounted s op := by
  cases op with
  | start | acquire | finish => trivial
  | call caller tool input number maxDepth =>
      intro c agentId hc _ hfull
      obtain ⟨⟨hmem, -⟩, -, -⟩ := caller_eq_some.mp hc
      exact ⟨hsends, h c hmem ▸ hfull⟩

/-- Where every call is an `agent_send`, every call is counted, so the depth is bounded. -/
theorem sends_counted {ops : List CallOp} (h : ∀ op ∈ ops, SendsOnly op) :
    Guarded callStep DepthCounted AgentCalls.new ops :=
  guarded_of_invariant (fun _ _ hexact hsends => DepthExact.step hexact hsends)
    (fun _ _ hexact hsends => hexact.counted hsends) (fun _ ht => absurd ht List.not_mem_nil) h

/-- A call that meets nothing but the depth. -/
def plainCall (target : Nat) : CallInput := ⟨none, false, .ok target⟩

/-- Three agents with a limit of one, each delegating to the next. -/
def delegateChain : List CallOp :=
  [.start 0 1 1, .acquire 0, .call 0 .agentDelegate (plainCall 2) 1 1, .acquire 1,
    .call 1 .agentDelegate (plainCall 3) 2 1]

/-- Three turns stand inside one another where two are allowed. -/
theorem delegate_chain_unbounded :
    (runOps callStep .new delegateChain).turns.entries.head? =
        some ⟨2, 3, [1, 0], 0, 1, false⟩ ∧
      ¬ ∀ s ∈ passed callStep AgentCalls.new delegateChain, DepthBounded s := by
  have hturns : (runOps callStep .new delegateChain).turns.entries =
      [⟨2, 3, [1, 0], 0, 1, false⟩, ⟨1, 2, [0], 0, 1, true⟩, ⟨0, 1, [], 0, 1, true⟩] := by
    decide
  refine ⟨by rw [hturns]; rfl, fun hall => ?_⟩
  have hend := hall _ (mem_passed.mpr ⟨delegateChain, List.prefix_rfl, rfl⟩)
  have hbound := hend.nested ⟨2, 3, [1, 0], 0, 1, false⟩ (by simp [hturns])
    ⟨1, 2, [0], 0, 1, true⟩ (by simp [hturns]) rfl
  exact absurd hbound (by decide)

/-- An agent that sends a message to itself. -/
def selfSend : List CallOp :=
  [.start 0 1 5, .acquire 0, .call 0 .agentSend (plainCall 1) 1 5]

/-- The turn waits for the new one, and the new one for the lock that the turn holds. -/
theorem self_send_deadlocks :
    (runOps callStep .new selfSend).turns.entries =
        [⟨1, 1, [0], 1, 5, false⟩, ⟨0, 1, [], 0, 5, true⟩] ∧
      ¬ ∀ s ∈ passed callStep AgentCalls.new selfSend, NoDeadlock s := by
  have hturns : (runOps callStep .new selfSend).turns.entries =
      [⟨1, 1, [0], 1, 5, false⟩, ⟨0, 1, [], 0, 5, true⟩] := by decide
  refine ⟨hturns, fun hall => ?_⟩
  have hend := hall _ (mem_passed.mpr ⟨selfSend, List.prefix_rfl, rfl⟩)
  refine hend.notOwnChain ⟨1, 1, [0], 1, 5, false⟩ ?_ rfl ⟨0, 1, [], 0, 5, true⟩ ?_ rfl rfl ?_ <;>
  simp [hturns]

end ArmaraOS.Kernel
