import ArmaraOS.Agent.LoopGuard
import ArmaraOS.Lib.Machine

/-!
Identical calls under the loop guard.

A guard is run on any sequence of `check` and `record_outcome`. The call count of a pair of tool and
parameters grows with each of its checks that passes, and a check passes only below the block
threshold. A block on the count, on the warnings or on the outcomes leaves the guard `Stuck` on the
pair: counts never go down and blocked outcomes stay blocked, so no later check passes
(`identical_calls_bounded`).
-/

namespace ArmaraOS.Agent

open ArmaraOS.Lib

/-! ### Runs of a guard -/

/-- A call on a guard. -/
inductive GuardCall where
  | check (toolName : String) (params : Json)
  | recordOutcome (toolName : String) (params : Json) (result : String)

/-- A verdict, with the pair it is about. -/
structure Checked where
  toolName : String
  params : Json
  verdict : LoopGuardVerdict

/-- A guard, and the verdicts it has given, oldest first. -/
structure GuardRun where
  guard : LoopGuard
  checked : List Checked := []

/-- `LoopGuard::new`. -/
def LoopGuard.new (config : LoopGuardConfig) : LoopGuard := { config := config }

/-- One call on the guard. -/
def GuardRun.step (lib : Library) (run : GuardRun) : GuardCall → GuardRun
  | .check toolName params =>
      let next := run.guard.check lib toolName params
      ⟨next.1, run.checked ++ [⟨toolName, params, next.2⟩]⟩
  | .recordOutcome toolName params result =>
      { run with guard := (run.guard.recordOutcome lib toolName params result).1 }

/-- The run of a new guard. -/
def guardRun (lib : Library) (config : LoopGuardConfig) (ops : List GuardCall) : GuardRun :=
  runOps (GuardRun.step lib) ⟨LoopGuard.new config, []⟩ ops

namespace LoopGuardVerdict

/-- The call goes ahead. -/
def passes : LoopGuardVerdict → Bool
  | .allow => true
  | .warn _ => true
  | .block _ => false
  | .circuitBreak _ => false

end LoopGuardVerdict

/-- `multiplier` of `check`. -/
def LoopGuardConfig.multiplier (config : LoopGuardConfig) (lib : Library) (toolName : String)
    (params : Json) : Nat :=
  if LoopGuard.isPollCall lib toolName params || isMcpAinlTool toolName then config.pollMultiplier
  else 1

/-- A verdict about the pair under which the call goes ahead. -/
def Checked.passesOn (toolName : String) (params : Json) (c : Checked) : Bool :=
  c.toolName == toolName && c.params == params && c.verdict.passes

/-- The number of `Allow` and `Warn` verdicts for a pair. -/
def GuardRun.passes (run : GuardRun) (toolName : String) (params : Json) : Nat :=
  run.checked.countP (Checked.passesOn toolName params)

namespace LoopGuard

/-- The text of a block because of the call count. -/
def countText (toolName : String) (count : Nat) : String :=
  s!"Blocked: tool '{toolName}' called {count} times with identical parameters. " ++
    "Try a different approach or different parameters."

/-- The text of a block because of exhausted warnings. -/
def exhaustedText (toolName : String) (count : Nat) : String :=
  s!"Blocked: tool '{toolName}' called {count} times with identical parameters " ++
    "(warnings exhausted). Try a different approach."

/-- The text of a block because of repeated identical outcomes. -/
def identicalText (toolName : String) : String :=
  s!"Blocked: tool '{toolName}' is returning identical results repeatedly. " ++
    "The current approach is not working — try something different."

/-- How often a call of this hash was counted. -/
def calls (g : LoopGuard) (hash : String) : Nat := (g.callCounts.lookup hash).getD 0

/-- How many warnings were counted under a key. -/
def warnings (g : LoopGuard) (key : String) : Nat := (g.warningsEmitted.lookup key).getD 0

end LoopGuard

/-- The verdict is a block because of the call count, exhausted warnings or repeated identical
outcomes. -/
def Checked.Lasting (c : Checked) : Prop :=
  (∃ count, c.verdict = .block (LoopGuard.countText c.toolName count)) ∨
    (∃ count, c.verdict = .block (LoopGuard.exhaustedText c.toolName count)) ∨
    c.verdict = .block (LoopGuard.identicalText c.toolName)

/-- After a lasting block of the pair, a verdict about it stops the call. -/
def StaysBlocked (c c' : Checked) : Prop :=
  c.Lasting → c'.toolName = c.toolName → c'.params = c.params → c'.verdict.passes = false

namespace LoopGuard

variable {lib : Library} {g g' g'' : LoopGuard} {toolName : String} {params : Json}

/-! ### Counts -/

theorem bump_lookup (key key' : String) (counts : List (String × Nat)) :
    ((bump key counts).1.lookup key').getD 0 =
      (counts.lookup key').getD 0 + if key' = key then 1 else 0 := by
  simp only [bump, List.lookup_cons]
  by_cases h : key' = key
  · subst h
    simp
  · have hkey : (key' == key) = false := beq_false_of_ne h
    simp [h, hkey]

/-- A later state of a guard. -/
structure Later (g g' : LoopGuard) : Prop where
  config : g'.config = g.config
  calls : ∀ hash, g.calls hash ≤ g'.calls hash
  warnings : ∀ key, g.warnings key ≤ g'.warnings key
  blockedOutcomes : g.blockedOutcomes ⊆ g'.blockedOutcomes

theorem Later.refl (g : LoopGuard) : Later g g :=
  ⟨rfl, fun _ => Nat.le_refl _, fun _ => Nat.le_refl _, List.Subset.refl _⟩

theorem Later.trans (h : Later g g') (h' : Later g' g'') : Later g g'' where
  config := h'.config.trans h.config
  calls := fun hash => (h.calls hash).trans (h'.calls hash)
  warnings := fun key => (h.warnings key).trans (h'.warnings key)
  blockedOutcomes := List.Subset.trans h.blockedOutcomes h'.blockedOutcomes

/-- What counts a warning is later. -/
theorem Later.warned (h : Later g g') (key : String) :
    Later g { g' with warningsEmitted := (bump key g'.warningsEmitted).1 } where
  config := h.config
  calls := h.calls
  warnings := fun key' => by
    have hbefore := h.warnings key'
    simp only [LoopGuard.warnings, bump_lookup] at hbefore ⊢
    omega
  blockedOutcomes := h.blockedOutcomes

theorem recordOutcome_later (lib : Library) (g : LoopGuard) (toolName : String) (params : Json)
    (result : String) : Later g (g.recordOutcome lib toolName params result).1 := by
  unfold recordOutcome
  extract_lets counted g' relaxed blockThreshold warnThreshold
  split
  · exact ⟨rfl, fun _ => Nat.le_refl _, fun _ => Nat.le_refl _, List.subset_cons_self _ _⟩
  · split <;> exact ⟨rfl, fun _ => Nat.le_refl _, fun _ => Nat.le_refl _, List.Subset.refl _⟩

/-! ### One check -/

theorem head_append {text rest : String} {c : Char} (h : text.toList.head? = some c) :
    (text ++ rest).toList.head? = some c := by
  rw [String.toList_append, List.head?_append, h, Option.some_or]

theorem detectPingPong_head {message : String} (h : g.detectPingPong = some message) :
    message.toList.head? = some 'P' := by
  have hhead : (toString "Ping-pong detected: tools '").toList.head? = some 'P' := by decide
  simp only [detectPingPong] at h
  split at h
  · rename_i message' hpair
    split at hpair
    · split at hpair
      · obtain rfl := Option.some.inj h
        rw [← Option.some.inj hpair]
        refine head_append (head_append ?_)
        exact head_append (head_append (head_append hhead))
      · cases hpair
    · cases hpair
  · split at h
    · split at h
      · rw [← Option.some.inj h]
        refine head_append (head_append ?_)
        exact head_append (head_append (head_append (head_append hhead)))
      · cases h
    · cases h

theorem checkPingPong_later (g : LoopGuard) (hash : String) :
    Later g (g.checkPingPong hash).1 := by
  rw [checkPingPong]
  split
  · exact Later.refl g
  · split
    · exact ⟨rfl, fun _ => Nat.le_refl _, fun _ => Nat.le_refl _, List.Subset.refl _⟩
    · extract_lets warned g'
      split <;> exact (Later.refl g).warned _

theorem checkPingPong_callCounts (g : LoopGuard) (hash : String) :
    (g.checkPingPong hash).1.callCounts = g.callCounts := by
  rw [checkPingPong]
  split
  · rfl
  · split
    · rfl
    · extract_lets warned g'
      split <;> rfl

theorem checkPingPong_verdict (g : LoopGuard) (hash : String) :
    (g.checkPingPong hash).2.passes = true ∨
      ∃ message, message.toList.head? = some 'P' ∧ (g.checkPingPong hash).2 = .block message := by
  rw [checkPingPong]
  split
  · exact .inl rfl
  · rename_i message hmessage
    split
    · exact .inr ⟨message, detectPingPong_head hmessage, rfl⟩
    · extract_lets warned g'
      split <;> exact .inl rfl

/-- A call of the given hash has passed: it was counted, and no threshold was met. -/
structure Passed (lib : Library) (toolName : String) (params : Json) (hash : String)
    (before after : LoopGuard) : Prop where
  calls : after.calls hash = before.calls hash + 1
  blockedOutcomes : hash ∉ before.blockedOutcomes
  block : after.calls hash <
    after.config.blockThreshold * after.config.multiplier lib toolName params
  warn : after.config.warnThreshold * after.config.multiplier lib toolName params ≤
    after.calls hash → isMcpAinlTool toolName = false →
      after.warnings hash ≤ after.config.maxWarningsPerCall

/-- The verdict on a call of the given hash, and the guard after it. -/
inductive Verdict (lib : Library) (toolName : String) (params : Json) (hash : String)
    (before after : LoopGuard) : LoopGuardVerdict → Prop
  | circuitBreak (message : String) :
      Verdict lib toolName params hash before after (.circuitBreak message)
  | identical (hblocked : hash ∈ after.blockedOutcomes) :
      Verdict lib toolName params hash before after (.block (identicalText toolName))
  | count (count : Nat)
      (hblock : after.config.blockThreshold * after.config.multiplier lib toolName params ≤
        after.calls hash) :
      Verdict lib toolName params hash before after (.block (countText toolName count))
  | exhausted (count : Nat)
      (hwarn : after.config.warnThreshold * after.config.multiplier lib toolName params ≤
        after.calls hash)
      (hmax : after.config.maxWarningsPerCall < after.warnings hash)
      (htool : isMcpAinlTool toolName = false) :
      Verdict lib toolName params hash before after (.block (exhaustedText toolName count))
  | pingPong (message : String) (hhead : message.toList.head? = some 'P') :
      Verdict lib toolName params hash before after (.block message)
  | passes {verdict : LoopGuardVerdict} (hpasses : verdict.passes = true)
      (hpassed : Passed lib toolName params hash before after) :
      Verdict lib toolName params hash before after verdict

theorem checkCount_later (g : LoopGuard) (hash toolName : String) (params : Json) (count : Nat) :
    Later g (checkCount lib g hash toolName params count).1 := by
  unfold checkCount
  extract_lets multiplier warned g'
  split
  · exact ⟨rfl, fun _ => Nat.le_refl _, fun _ => Nat.le_refl _, List.Subset.refl _⟩
  · split
    · have hlater : Later g g' := (Later.refl g).warned hash
      split
      · exact ⟨hlater.config, hlater.calls, hlater.warnings, hlater.blockedOutcomes⟩
      · exact hlater
    · exact checkPingPong_later g hash

/-- The stage behind the count, for a call that has just been counted. -/
theorem checkCount_verdict (lib : Library) (toolName : String) (params : Json)
    {before : LoopGuard} {hash : String}
    (hcalls : g.calls hash = before.calls hash + 1) (hblocked : hash ∉ before.blockedOutcomes) :
    Verdict lib toolName params hash before
      (checkCount lib g hash toolName params (g.calls hash)).1
      (checkCount lib g hash toolName params (g.calls hash)).2 := by
  unfold checkCount
  extract_lets multiplier warned g'
  split
  · rename_i hblock
    exact .count _ hblock
  · rename_i hblock
    split
    · rename_i hwarn
      have hwarned : g'.warnings hash = warned.2 := by simp [LoopGuard.warnings, g', warned, bump]
      split
      · rename_i hmax
        exact .exhausted _ hwarn (by rw [← hwarned] at hmax; exact hmax.1) hmax.2
      · rename_i hmax
        refine .passes rfl ⟨hcalls, hblocked, Nat.lt_of_not_le hblock, fun _ htool => ?_⟩
        rw [hwarned]
        exact Nat.le_of_not_lt fun hlt => hmax ⟨hlt, htool⟩
    · rename_i hwarn
      have hsame : (g.checkPingPong hash).1.calls hash = g.calls hash := by
        rw [LoopGuard.calls, checkPingPong_callCounts, LoopGuard.calls]
      have hconfig := (checkPingPong_later g hash).config
      obtain hpasses | ⟨message, hhead, hverdict⟩ := checkPingPong_verdict g hash
      · refine .passes hpasses ⟨hsame.trans hcalls, hblocked, ?_, ?_⟩
        · rw [hsame, hconfig]
          exact Nat.lt_of_not_le hblock
        · rw [hsame, hconfig]
          exact fun hle => absurd hle hwarn
      · rw [hverdict]
        exact .pingPong message hhead

theorem check_later (lib : Library) (g : LoopGuard) (toolName : String) (params : Json) :
    Later g (g.check lib toolName params).1 := by
  unfold check
  extract_lets counting hash noted counted
  have hnoted : Later g noted :=
    ⟨rfl, fun _ => Nat.le_refl _, fun _ => Nat.le_refl _, List.Subset.refl _⟩
  split
  · exact ⟨rfl, fun _ => Nat.le_refl _, fun _ => Nat.le_refl _, List.Subset.refl _⟩
  · split
    · exact ⟨hnoted.config, hnoted.calls, hnoted.warnings, hnoted.blockedOutcomes⟩
    · refine Later.trans ?_ (checkCount_later _ hash toolName params counted.2)
      refine ⟨hnoted.config, fun hash' => ?_, hnoted.warnings, hnoted.blockedOutcomes⟩
      have hbefore := hnoted.calls hash'
      simp only [LoopGuard.calls, counted, bump_lookup] at hbefore ⊢
      omega

theorem check_verdict (lib : Library) (g : LoopGuard) (toolName : String) (params : Json) :
    Verdict lib toolName params (computeHash lib toolName params) g
      (g.check lib toolName params).1 (g.check lib toolName params).2 := by
  unfold check
  extract_lets counting hash noted counted
  split
  · exact .circuitBreak _
  · split
    · rename_i hblocked
      exact .identical hblocked
    · rename_i hblocked
      let g' : LoopGuard := { noted with callCounts := counted.1 }
      have hcount : g'.calls hash = counted.2 := by simp [LoopGuard.calls, g', counted, bump]
      have hcalls : g'.calls hash = g.calls hash + 1 := hcount
      have hverdict := checkCount_verdict lib toolName params hcalls hblocked
      rw [hcount] at hverdict
      exact hverdict

/-! ### Pairs that are blocked for good -/

/-- Whatever comes, no check of the pair passes. -/
inductive Stuck (lib : Library) (g : LoopGuard) (toolName : String) (params : Json) : Prop
  | identical (hblocked : computeHash lib toolName params ∈ g.blockedOutcomes)
  | count (hblock : g.config.blockThreshold * g.config.multiplier lib toolName params ≤
      g.calls (computeHash lib toolName params))
  | exhausted (hwarn : g.config.warnThreshold * g.config.multiplier lib toolName params ≤
        g.calls (computeHash lib toolName params))
      (hmax : g.config.maxWarningsPerCall < g.warnings (computeHash lib toolName params))
      (htool : isMcpAinlTool toolName = false)

theorem Stuck.later (h : Stuck lib g toolName params) (hlater : Later g g') :
    Stuck lib g' toolName params := by
  have hcalls := hlater.calls (computeHash lib toolName params)
  cases h with
  | identical hblocked => exact .identical (hlater.blockedOutcomes hblocked)
  | count hblock =>
      refine .count ?_
      rw [hlater.config]
      exact hblock.trans hcalls
  | exhausted hwarn hmax htool =>
      refine .exhausted ?_ ?_ htool
      · rw [hlater.config]
        exact hwarn.trans hcalls
      · rw [hlater.config]
        exact hmax.trans_le (hlater.warnings _)

/-- The three lasting texts start alike. -/
theorem text_of_lasting {c : Checked} (h : c.Lasting) :
    ∃ message, message.toList.head? = some 'B' ∧ c.verdict = .block message := by
  have hstart : (toString "Blocked: tool '").toList.head? = some 'B' := by decide
  rcases h with ⟨count, h⟩ | ⟨count, h⟩ | h <;> refine ⟨_, ?_, h⟩
  · unfold countText
    exact head_append (head_append (head_append (head_append (head_append hstart))))
  · unfold exhaustedText
    exact head_append (head_append (head_append (head_append (head_append hstart))))
  · unfold identicalText
    exact head_append (head_append (head_append hstart))

/-- A lasting block leaves the pair stuck. -/
theorem stuck_of_lasting
    (h : Checked.Lasting ⟨toolName, params, (g.check lib toolName params).2⟩) :
    Stuck lib (g.check lib toolName params).1 toolName params := by
  obtain ⟨text, hhead, htext⟩ := text_of_lasting h
  have hverdict := check_verdict lib g toolName params
  change (g.check lib toolName params).2 = .block text at htext
  rw [htext] at hverdict
  cases hverdict with
  | identical hblocked => exact .identical hblocked
  | count count hblock => exact .count hblock
  | exhausted count hwarn hmax htool => exact .exhausted hwarn hmax htool
  | pingPong message hhead' =>
      -- a ping-pong text starts with another letter
      rw [hhead] at hhead'
      cases hhead'
  | passes hpasses => cases hpasses

theorem passed_of_passes (h : (g.check lib toolName params).2.passes = true) :
    Passed lib toolName params (computeHash lib toolName params) g
      (g.check lib toolName params).1 := by
  have hverdict := check_verdict lib g toolName params
  generalize (g.check lib toolName params).2 = verdict at h hverdict
  cases hverdict with
  | circuitBreak => cases h
  | identical => cases h
  | count => cases h
  | exhausted => cases h
  | pingPong => cases h
  | passes hpasses hpassed => exact hpassed

/-- A check of a stuck pair does not pass. -/
theorem Stuck.not_passes (h : Stuck lib g toolName params) :
    (g.check lib toolName params).2.passes = false := by
  have hlater := check_later lib g toolName params
  by_contra hpasses
  have hpassed := passed_of_passes (eq_true_of_ne_false hpasses)
  cases h with
  | identical hblocked => exact hpassed.blockedOutcomes hblocked
  | count hblock =>
      have hlt := hpassed.block
      rw [hpassed.calls, hlater.config] at hlt
      omega
  | exhausted hwarn hmax htool =>
      have hwarnings := hlater.warnings (computeHash lib toolName params)
      have hcalls := hlater.calls (computeHash lib toolName params)
      have hle := hpassed.warn (by rw [hlater.config]; exact hwarn.trans hcalls) htool
      rw [hlater.config] at hle
      omega

end LoopGuard

/-! ### Runs -/

namespace GuardRun

open LoopGuard

variable {lib : Library} {config : LoopGuardConfig}

/-- What holds of a run: each pair has been counted for each verdict that let it pass, and a pair
with a lasting block is stuck. -/
structure GuardInv (lib : Library) (config : LoopGuardConfig) (run : GuardRun) : Prop where
  sameConfig : run.guard.config = config
  counted : ∀ toolName params,
    run.passes toolName params ≤ run.guard.calls (computeHash lib toolName params)
  bounded : ∀ toolName params, 0 < run.passes toolName params →
    run.passes toolName params < config.blockThreshold * config.multiplier lib toolName params
  stuck : ∀ c ∈ run.checked, c.Lasting → Stuck lib run.guard c.toolName c.params
  staysBlocked : run.checked.Pairwise StaysBlocked

theorem passes_concat (guard : LoopGuard) (checked : List Checked) (c : Checked)
    (toolName : String) (params : Json) :
    passes ⟨guard, checked ++ [c]⟩ toolName params =
      passes ⟨guard, checked⟩ toolName params +
        if c.passesOn toolName params = true then 1 else 0 := by
  rw [passes, List.countP_append, List.countP_singleton, passes]

theorem guardInv_step (run : GuardRun) (op : GuardCall) (h : GuardInv lib config run) :
    GuardInv lib config (run.step lib op) := by
  cases op with
  | recordOutcome toolName params result =>
      have hlater := recordOutcome_later lib run.guard toolName params result
      refine ⟨hlater.config.trans h.sameConfig, fun t p => ?_, h.bounded, fun c hc hlasting => ?_,
        h.staysBlocked⟩
      · exact (h.counted t p).trans (hlater.calls _)
      · exact (h.stuck c hc hlasting).later hlater
  | check toolName params =>
      have hlater := check_later lib run.guard toolName params
      have hcounted : ∀ t p, (run.step lib (.check toolName params)).passes t p ≤
          (run.guard.check lib toolName params).1.calls (computeHash lib t p) ∧
          (0 < (run.step lib (.check toolName params)).passes t p →
            (run.step lib (.check toolName params)).passes t p <
              config.blockThreshold * config.multiplier lib t p) := by
        intro t p
        have hbefore := h.counted t p
        have hcalls := hlater.calls (computeHash lib t p)
        rw [GuardRun.step, passes_concat]
        split
        · -- a verdict that counts for the pair
          rename_i hpasses
          simp only [Checked.passesOn, Bool.and_eq_true, beq_iff_eq] at hpasses
          obtain ⟨⟨rfl, rfl⟩, hpasses⟩ := hpasses
          have hpassed := passed_of_passes hpasses
          have hlt := hpassed.block
          rw [hlater.config, h.sameConfig] at hlt
          rw [hpassed.calls] at hlt ⊢
          have hle := Nat.add_le_add_right hbefore 1
          exact ⟨hle, fun _ => hle.trans_lt hlt⟩
        · exact ⟨hbefore.trans hcalls, h.bounded t p⟩
      have hstuck : ∀ c ∈ run.checked, StaysBlocked c
          ⟨toolName, params, (run.guard.check lib toolName params).2⟩ := by
        rintro c hc hlasting rfl rfl
        exact (h.stuck c hc hlasting).not_passes
      refine ⟨hlater.config.trans h.sameConfig, fun t p => (hcounted t p).1,
        fun t p => (hcounted t p).2, fun c hc hlasting => ?_, ?_⟩
      · rcases List.mem_append.mp hc with hc | hc
        · exact (h.stuck c hc hlasting).later hlater
        · obtain rfl := List.mem_singleton.mp hc
          exact stuck_of_lasting hlasting
      · refine List.pairwise_append.mpr ⟨h.staysBlocked, List.pairwise_singleton _ _, ?_⟩
        intro c hc c' hc'
        obtain rfl := List.mem_singleton.mp hc'
        exact hstuck c hc

theorem guardInv_guardRun (ops : List GuardCall) :
    GuardInv lib config (guardRun lib config ops) := by
  have hinit : GuardInv lib config ⟨LoopGuard.new config, []⟩ :=
    { sameConfig := rfl
      counted := fun _ _ => Nat.zero_le _
      bounded := fun _ _ hpos => absurd hpos (Nat.lt_irrefl 0)
      stuck := fun _ hc => absurd hc List.not_mem_nil
      staysBlocked := List.Pairwise.nil }
  exact runOps_invariant' guardInv_step hinit ops

end GuardRun

/-! ### The bound -/

/-- **The loop guard bounds identical calls and never unblocks.** In every run, the number of
`Allow` and `Warn` verdicts for a pair is less than the block threshold times the multiplier of
the pair, or zero; and after a block because of the call count, exhausted warnings or repeated
identical outcomes, every later verdict for the pair is `Block` or `CircuitBreak`. -/
theorem identical_calls_bounded (lib : Library) (config : LoopGuardConfig)
    (ops : List GuardCall) :
    (∀ toolName params, 0 < (guardRun lib config ops).passes toolName params →
      (guardRun lib config ops).passes toolName params <
        config.blockThreshold * config.multiplier lib toolName params) ∧
    (guardRun lib config ops).checked.Pairwise StaysBlocked :=
  ⟨(GuardRun.guardInv_guardRun ops).bounded, (GuardRun.guardInv_guardRun ops).staysBlocked⟩

/-- Without a single call, the number of verdicts is not less than a threshold of zero. -/
theorem zero_threshold_is_not_undercut :
    ∃ lib : Library, Function.Injective lib.sha256Hex ∧
      ¬ (guardRun lib { blockThreshold := 0 } []).passes "file_read" .null <
        LoopGuardConfig.blockThreshold { blockThreshold := 0 } *
          LoopGuardConfig.multiplier { blockThreshold := 0 } lib "file_read" .null := by
  refine ⟨⟨id, fun _ => "", fun _ => none, id⟩, Function.injective_id, ?_⟩
  rw [Nat.zero_mul]
  exact Nat.not_lt_zero _

end ArmaraOS.Agent
