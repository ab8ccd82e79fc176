import ArmaraOS.Agent.Context
import ArmaraOS.Agent.Script
import ArmaraOS.Session.Pairing

/-!
What the overflow recovery says it has done (`context_overflow.rs`).

The recovery returns a stage, and the list with a marker in front that states a number. Both speak
of messages that were removed. A stage that does not reach its threshold falls through to the
next one, so what is returned last may speak of a part of what was done: the second trim counts the
messages it removes itself, and where no stage finds anything to remove or to truncate the final
error is returned though the messages are below the threshold of that error.
-/

namespace ArmaraOS.Agent

open ArmaraOS.Text ArmaraOS.Session

/-! ### The boundary of a trim -/

/-- A boundary is moved back by at most one message. -/
theorem safeDrainBoundary_bounds (messages : List Message) (boundary : Nat) :
    boundary - 1 ≤ safeDrainBoundary messages boundary ∧
      safeDrainBoundary messages boundary ≤ boundary := by
  unfold safeDrainBoundary
  split
  · omega
  · split
    · split <;> omega
    · omega

/-- The number of messages that a trim to the last `keep` removes. -/
def trimTo (keep : Nat) (messages : List Message) : Nat :=
  safeDrainBoundary messages (messages.length - min keep messages.length)

theorem trimTo_bounds (keep : Nat) (messages : List Message) :
    messages.length - keep - 1 ≤ trimTo keep messages ∧
      trimTo keep messages ≤ messages.length - keep := by
  have hbounds := safeDrainBoundary_bounds messages (messages.length - min keep messages.length)
  rw [trimTo]
  omega

/-! ### The truncated results -/

theorem editResult_ids (sel : ContentBlock → Bool) (edit : String → String) (b : ContentBlock) :
    (editResult sel edit b).useId? = b.useId? ∧
      (editResult sel edit b).resultId? = b.resultId? := by
  unfold editResult
  split
  · split <;> exact ⟨rfl, rfl⟩
  · exact ⟨rfl, rfl⟩

theorem sameTools_editResults (sel : ContentBlock → Bool) (edit : String → String)
    (m : Message) : SameTools m (editResults sel edit m) := by
  obtain ⟨role, content | bs, ctx⟩ := m
  · exact SameTools.refl _
  · refine ⟨rfl, ?_, ?_⟩
    · simp [editResults, Message.toolUses, MessageContent.blockList, toolUseIds,
        List.filterMap_map, editResult_ids]
    · simp [editResults, Message.toolResults, MessageContent.blockList, toolResultIds,
        List.filterMap_map, editResult_ids]

theorem editResult_of_not (sel : ContentBlock → Bool) (edit : String → String) {b : ContentBlock}
    (h : sel b = false) : editResult sel edit b = b := by
  unfold editResult
  split
  · rw [if_neg (by simp [h])]
  · rfl

/-- Where nothing is picked nothing is edited. -/
theorem map_editResults_of_none {sel : ContentBlock → Bool} {edit : String → String}
    {messages : List Message}
    (h : ((messages.flatMap fun m => m.content.blockList).filter sel).length = 0) :
    messages.map (editResults sel edit) = messages := by
  have hnone : ∀ m ∈ messages, ∀ b ∈ m.content.blockList, sel b = false := by
    intro m hm b hb
    have hempty := List.length_eq_zero_iff.mp h
    rw [List.filter_eq_nil_iff] at hempty
    exact Bool.eq_false_iff.mpr (hempty b (List.mem_flatMap.mpr ⟨m, hm, hb⟩))
  refine (List.map_congr_left fun m hm => ?_).trans (List.map_id messages)
  obtain ⟨role, content | bs, ctx⟩ := m
  · rfl
  · have hbs : bs.map (editResult sel edit) = bs :=
      (List.map_congr_left fun b hb => editResult_of_not sel edit (hnone _ hm b hb)).trans
        (List.map_id bs)
    simp only [editResults, hbs, id]

/-! ### The recovery with its counts -/

/-- What a recovery leaves, the stage it returns, how many messages of the input are no longer in
the list, and the number in the marker that it inserts. -/
structure CountedRecovery where
  messages : List Message
  stage : RecoveryStage
  removed : Nat
  marker : Option Nat

section

variable (lib : Library) (messages : List Message) (systemPrompt : String)
  (tools : List ToolDefinition) (contextWindow : Nat)

/-- `threshold_70`. -/
def threshold70 : Nat := scaleF64 contextWindow 3152519739159347 52

/-- `threshold_90`. -/
def threshold90 : Nat := scaleF64 contextWindow 8106479329266893 53

/-- How many messages stage 1 removes. -/
def removedByTrim : Nat :=
  if estimateTokens lib messages systemPrompt tools ≤ threshold90 contextWindow then
    trimTo 10 messages
  else 0

/-- Stages 2 to 4, behind `before` messages that are removed already. -/
def compactCounting (before : Nat) : CountedRecovery :=
  let remove := trimTo 4 messages
  let out := compactOverflow lib messages systemPrompt tools (threshold90 contextWindow)
  { messages := out.1
    stage := out.2
    removed := before + remove
    marker := if 0 < remove then some remove else none }

/-- `recover_from_overflow`, with its counts. -/
def recoverCounting : CountedRecovery :=
  let before := removedByTrim lib messages systemPrompt tools contextWindow
  let trimmed := messages.drop before
  if estimateTokens lib messages systemPrompt tools ≤ threshold70 contextWindow then
    ⟨messages, .none, 0, none⟩
  else if 0 < before ∧
      estimateTokens lib trimmed systemPrompt tools ≤ threshold70 contextWindow then
    ⟨trimmed, .autoCompaction before, before, none⟩
  else compactCounting lib trimmed systemPrompt tools contextWindow before

end

section

variable (lib : Library) (messages : List Message) (systemPrompt : String)
  (tools : List ToolDefinition) (contextWindow : Nat)

/-- It does what `recover_from_overflow` does. -/
theorem recoverCounting_eq :
    recoverFromOverflow lib messages systemPrompt tools contextWindow =
      ((recoverCounting lib messages systemPrompt tools contextWindow).messages,
        (recoverCounting lib messages systemPrompt tools contextWindow).stage) := by
  unfold recoverFromOverflow recoverCounting removedByTrim compactCounting threshold70 threshold90
    trimTo
  dsimp only
  split
  · rfl
  · split
    · split
      · rename_i hremove
        simp only [hremove, true_and]
        split
        · rfl
        · exact Prod.mk.eta.symm
      · rename_i hremove
        simp only [hremove, false_and, if_false]
        have hzero := Nat.eq_zero_of_not_pos hremove
        rw [hzero, List.drop_zero]
    · rw [if_neg (by simp), List.drop_zero]

/-! ### What a recovery leaves -/

/-- An edit of a message that the recovery makes: none, or the truncation of its results. -/
def RecoveryEdit (edit : Message → Message) : Prop :=
  edit = id ∨ edit = editResults isOversized overflowTruncate

/-- A list is what is left of a history without its first `removed` messages, behind the marker if
there is one. -/
structure Leaves (removed : Nat) (marker : Option Nat) (out : List Message) : Prop where
  removed_le : removed ≤ messages.length
  list : ∃ edit, RecoveryEdit edit ∧
    out = (marker.map overflowSummary).toList ++ (messages.drop removed).map edit

variable {messages} in
theorem Leaves.behind {before removed : Nat} {marker : Option Nat} {out : List Message}
    (h : Leaves (messages.drop before) removed marker out) (hbefore : before ≤ messages.length) :
    Leaves messages (before + removed) marker out := by
  obtain ⟨hle, edit, hedit, hout⟩ := h
  rw [List.length_drop] at hle
  rw [List.drop_drop] at hout
  exact ⟨by omega, edit, hedit, hout⟩

theorem truncateOversized_leaves (removed : Nat) (marker : Option Nat) {ms : List Message}
    (threshold : Nat) (hle : removed ≤ messages.length)
    (hms : ms = (marker.map overflowSummary).toList ++ messages.drop removed) :
    Leaves messages removed marker
      (truncateOversized lib ms systemPrompt tools threshold).1 := by
  refine ⟨hle, editResults isOversized overflowTruncate, .inr rfl, ?_⟩
  have hfirst : (truncateOversized lib ms systemPrompt tools threshold).1 =
      ms.map (editResults isOversized overflowTruncate) := by
    unfold truncateOversized
    dsimp only
    split <;> rfl
  rw [hfirst, hms, List.map_append]
  cases marker <;> rfl

theorem compactCounting_leaves :
    let r := compactCounting lib messages systemPrompt tools contextWindow 0
    Leaves messages r.removed r.marker r.messages := by
  have hle := (trimTo_bounds 4 messages).2
  unfold compactCounting compactOverflow
  rw [← trimTo]
  dsimp only
  rw [Nat.zero_add]
  by_cases hremove : 0 < trimTo 4 messages
  · simp only [if_pos hremove]
    split
    · exact ⟨by omega, id, .inl rfl, by rw [List.map_id]; rfl⟩
    · exact truncateOversized_leaves lib messages systemPrompt tools _ (some _) _ (by omega) rfl
  · simp only [if_neg hremove]
    have hzero := Nat.eq_zero_of_not_pos hremove
    rw [hzero]
    exact truncateOversized_leaves lib messages systemPrompt tools 0 none _ (Nat.zero_le _) rfl

theorem compactCounting_eq (before : Nat) :
    compactCounting lib messages systemPrompt tools contextWindow before =
      { compactCounting lib messages systemPrompt tools contextWindow 0 with
        removed := before +
          (compactCounting lib messages systemPrompt tools contextWindow 0).removed } := by
  simp only [compactCounting, Nat.zero_add]

theorem removedByTrim_le :
    removedByTrim lib messages systemPrompt tools contextWindow ≤ messages.length := by
  have hle := (trimTo_bounds 10 messages).2
  unfold removedByTrim
  split <;> omega

/-- The counts are the true ones: the list is the input without as many messages. -/
theorem recoverCounting_leaves :
    let r := recoverCounting lib messages systemPrompt tools contextWindow
    Leaves messages r.removed r.marker r.messages := by
  have hbefore := removedByTrim_le lib messages systemPrompt tools contextWindow
  unfold recoverCounting
  dsimp only
  split
  · exact ⟨Nat.zero_le _, id, .inl rfl, by rw [List.map_id, List.drop_zero]; rfl⟩
  · split
    · exact ⟨hbefore, id, .inl rfl, by rw [List.map_id]; rfl⟩
    · rw [compactCounting_eq]
      exact (compactCounting_leaves lib _ systemPrompt tools contextWindow).behind hbefore

/-! ### The verdict -/

/-- The stage and the marker say what is true of the list. -/
structure CountedRecovery.Honest (r : CountedRecovery) : Prop where
  fits : (r.stage = .none ∨ ∃ n, r.stage = .autoCompaction n) →
    estimateTokens lib r.messages systemPrompt tools ≤ threshold70 contextWindow
  compacted : ((∃ n, r.stage = .overflowCompaction n) ∨ ∃ n, r.stage = .toolResultTruncation n) →
    estimateTokens lib r.messages systemPrompt tools ≤ threshold90 contextWindow
  final : r.stage = .finalError →
    threshold90 contextWindow < estimateTokens lib r.messages systemPrompt tools
  counted : ∀ n, r.stage = .autoCompaction n ∨ r.stage = .overflowCompaction n → n = r.removed
  marked : ∀ n, r.marker = some n → n = r.removed

/-- Stage 3 ends with a list below the threshold, or with the final error. -/
theorem truncateOversized_cases (threshold : Nat) :
    let out := truncateOversized lib messages systemPrompt tools threshold
    (∃ n, out.2 = .toolResultTruncation n ∧
        estimateTokens lib out.1 systemPrompt tools ≤ threshold) ∨
      out.2 = .finalError ∧ (threshold < estimateTokens lib out.1 systemPrompt tools ∨
        out.1 = messages ∧
          (messages.flatMap fun m => m.content.blockList).any isOversized = false) := by
  unfold truncateOversized
  dsimp only
  split
  · rename_i hbelow
    exact .inl ⟨_, rfl, hbelow.2⟩
  · rename_i hover
    refine .inr ⟨rfl, ?_⟩
    by_cases hnone : 0 < ((messages.flatMap fun m => m.content.blockList).filter isOversized).length
    · exact .inl (Nat.lt_of_not_le fun hle => hover ⟨hnone, hle⟩)
    · have hzero := Nat.eq_zero_of_not_pos hnone
      refine .inr ⟨map_editResults_of_none hzero, ?_⟩
      rw [List.any_eq_false]
      exact List.filter_eq_nil_iff.mp (List.length_eq_zero_iff.mp hzero)

/-- Stages 2 to 4 keep to their threshold, but where they have nothing to do. -/
theorem compactOverflow_cases (threshold : Nat) :
    let out := compactOverflow lib messages systemPrompt tools threshold
    (out.2 = .overflowCompaction (trimTo 4 messages) ∧ 0 < trimTo 4 messages ∧
        estimateTokens lib out.1 systemPrompt tools ≤ threshold) ∨
      (∃ n, out.2 = .toolResultTruncation n ∧
        estimateTokens lib out.1 systemPrompt tools ≤ threshold) ∨
      out.2 = .finalError ∧ (threshold < estimateTokens lib out.1 systemPrompt tools ∨
        trimTo 4 messages = 0 ∧ out.1 = messages ∧
          (messages.flatMap fun m => m.content.blockList).any isOversized = false) := by
  unfold compactOverflow
  rw [← trimTo]
  dsimp only
  split
  · rename_i hremove
    split
    · rename_i hbelow
      exact .inl ⟨rfl, hremove, hbelow⟩
    · rename_i hover
      rcases truncateOversized_cases lib
        (overflowSummary (trimTo 4 messages) :: messages.drop (trimTo 4 messages)) systemPrompt
        tools threshold with htruncated | ⟨hfinal, habove | ⟨hsame, -⟩⟩
      · exact .inr (.inl htruncated)
      · exact .inr (.inr ⟨hfinal, .inl habove⟩)
      · exact .inr (.inr ⟨hfinal, .inl (by rw [hsame]; exact Nat.lt_of_not_le hover)⟩)
  · rename_i hremove
    rcases truncateOversized_cases lib messages systemPrompt tools threshold with
      htruncated | ⟨hfinal, habove | hsame⟩
    · exact .inr (.inl htruncated)
    · exact .inr (.inr ⟨hfinal, .inl habove⟩)
    · exact .inr (.inr ⟨hfinal, .inr ⟨Nat.eq_zero_of_not_pos hremove, hsame⟩⟩)

/-- With nothing to remove and nothing to truncate, stages 2 to 4 return the final error. -/
theorem compactOverflow_nothing (threshold : Nat) (htrim : trimTo 4 messages = 0)
    (hnone : (messages.flatMap fun m => m.content.blockList).any isOversized = false) :
    compactOverflow lib messages systemPrompt tools threshold = (messages, .finalError) := by
  have hzero : ((messages.flatMap fun m => m.content.blockList).filter isOversized).length = 0 := by
    rw [List.length_eq_zero_iff, List.filter_eq_nil_iff]
    exact List.any_eq_false.mp hnone
  unfold compactOverflow
  rw [← trimTo, htrim]
  dsimp only
  rw [if_neg (Nat.lt_irrefl 0), truncateOversized]
  rw [hzero, if_neg (fun h => Nat.lt_irrefl 0 h.1), map_editResults_of_none hzero]

/-- The messages are between the thresholds, and either the first trim removes some but not enough,
or there is nothing to remove and nothing to truncate. -/
def FallsThrough : Prop :=
  threshold70 contextWindow < estimateTokens lib messages systemPrompt tools ∧
    estimateTokens lib messages systemPrompt tools ≤ threshold90 contextWindow ∧
    (0 < trimTo 10 messages ∧ threshold70 contextWindow <
        estimateTokens lib (messages.drop (trimTo 10 messages)) systemPrompt tools ∨
      trimTo 4 messages = 0 ∧
        (messages.flatMap fun m => m.content.blockList).any isOversized = false)

/-- Behind a first trim the second one counts too few messages. -/
theorem compactCounting_not_honest {before : Nat} (hbefore : 0 < before)
    (hlong : 5 < messages.length) :
    ¬ (compactCounting lib messages systemPrompt tools contextWindow before).Honest lib
        systemPrompt tools contextWindow := by
  have hremove : 0 < trimTo 4 messages := by
    have hbounds := trimTo_bounds 4 messages
    omega
  intro h
  have hcount := h.marked (trimTo 4 messages) (if_pos hremove)
  simp only [compactCounting] at hcount
  omega

/-- Without a first trim they are honest, but where they have nothing to do. -/
theorem compactCounting_honest_iff :
    (compactCounting lib messages systemPrompt tools contextWindow 0).Honest lib systemPrompt tools
        contextWindow ↔
      ¬ (estimateTokens lib messages systemPrompt tools ≤ threshold90 contextWindow ∧
        trimTo 4 messages = 0 ∧
          (messages.flatMap fun m => m.content.blockList).any isOversized = false) := by
  constructor
  · rintro h ⟨hbelow, htrim, hnone⟩
    have hout := compactOverflow_nothing lib messages systemPrompt tools
      (threshold90 contextWindow) htrim hnone
    have hfinal := h.final (by rw [compactCounting, hout])
    rw [compactCounting, hout] at hfinal
    exact absurd hbelow (Nat.not_le.mpr hfinal)
  · intro hsome
    have hmarked : ∀ n,
        (if 0 < trimTo 4 messages then some (trimTo 4 messages) else none) = some n →
          n = 0 + trimTo 4 messages := by
      intro n hn
      split at hn
      · rw [Nat.zero_add, Option.some.inj hn]
      · cases hn
    rcases compactOverflow_cases lib messages systemPrompt tools (threshold90 contextWindow) with
      ⟨hstage, -, hbelow⟩ | ⟨n, hstage, hbelow⟩ | ⟨hstage, hfinal⟩
    · exact
        { fits := fun h => by simp [compactCounting, hstage] at h
          compacted := fun _ => hbelow
          final := fun h => by simp [compactCounting, hstage] at h
          counted := fun n h => by simpa [compactCounting, hstage, eq_comm] using h
          marked := hmarked }
    · exact
        { fits := fun h => by simp [compactCounting, hstage] at h
          compacted := fun _ => hbelow
          final := fun h => by simp [compactCounting, hstage] at h
          counted := fun n h => by simp [compactCounting, hstage] at h
          marked := hmarked }
    · exact
        { fits := fun h => by simp [compactCounting, hstage] at h
          compacted := fun h => by simp [compactCounting, hstage] at h
          final := fun _ => by
            rcases hfinal with habove | ⟨htrim, hsame, hnone⟩
            · exact habove
            · refine Nat.lt_of_not_le fun hbelow => hsome ⟨?_, htrim, hnone⟩
              rwa [compactCounting, hsame] at hbelow
          counted := fun n h => by simp [compactCounting, hstage] at h
          marked := hmarked }

/-- For every history: the verdict is honest if and only if, between the thresholds, the first trim
is enough or does nothing, and then something is left to remove or to truncate. -/
theorem recoverFromOverflow_honest_iff :
    recoverFromOverflow lib messages systemPrompt tools contextWindow =
        ((recoverCounting lib messages systemPrompt tools contextWindow).messages,
          (recoverCounting lib messages systemPrompt tools contextWindow).stage) ∧
      let r := recoverCounting lib messages systemPrompt tools contextWindow
      Leaves messages r.removed r.marker r.messages ∧
      (r.Honest lib systemPrompt tools contextWindow ↔
        ¬ FallsThrough lib messages systemPrompt tools contextWindow) := by
  refine ⟨recoverCounting_eq lib messages systemPrompt tools contextWindow,
    recoverCounting_leaves lib messages systemPrompt tools contextWindow, ?_⟩
  have hfour := trimTo_bounds 4 messages
  have hten := trimTo_bounds 10 messages
  unfold recoverCounting FallsThrough
  dsimp only
  by_cases hfits : estimateTokens lib messages systemPrompt tools ≤ threshold70 contextWindow
  · rw [if_pos hfits]
    refine iff_of_true ?_ fun h => absurd hfits (Nat.not_le.mpr h.1)
    exact
      { fits := fun _ => hfits
        compacted := fun h => by simp at h
        final := fun h => by simp at h
        counted := fun n h => by simp at h
        marked := fun n h => by simp at h }
  · rw [if_neg hfits]
    have hover := Nat.lt_of_not_le hfits
    by_cases hbelow : estimateTokens lib messages systemPrompt tools ≤ threshold90 contextWindow
    · have htrim : removedByTrim lib messages systemPrompt tools contextWindow =
          trimTo 10 messages := if_pos hbelow
      rw [htrim]
      by_cases hremove : 0 < trimTo 10 messages
      · by_cases henough : estimateTokens lib (messages.drop (trimTo 10 messages)) systemPrompt
            tools ≤ threshold70 contextWindow
        · rw [if_pos ⟨hremove, henough⟩]
          refine iff_of_true ?_ ?_
          · exact
              { fits := fun _ => henough
                compacted := fun h => by simp at h
                final := fun h => by simp at h
                counted := fun n h => by simpa [eq_comm] using h
                marked := fun n h => by simp at h }
          · rintro ⟨-, -, ⟨-, hmore⟩ | ⟨hzero, -⟩⟩
            · exact absurd henough (Nat.not_le.mpr hmore)
            · omega
        · rw [if_neg fun h => henough h.2]
          refine iff_of_false ?_ ?_
          · refine compactCounting_not_honest lib _ systemPrompt tools contextWindow hremove ?_
            rw [List.length_drop]
            omega
          · exact not_not_intro ⟨hover, hbelow, .inl ⟨hremove, Nat.lt_of_not_le henough⟩⟩
      · rw [if_neg fun h => hremove h.1, Nat.eq_zero_of_not_pos hremove, List.drop_zero,
          compactCounting_honest_iff]
        simp only [hover, hbelow, Nat.lt_irrefl, false_and, true_and, false_or]
    · have hnone : removedByTrim lib messages systemPrompt tools contextWindow = 0 :=
        if_neg hbelow
      rw [hnone, if_neg fun h => Nat.lt_irrefl 0 h.1, List.drop_zero, compactCounting_honest_iff]
      exact iff_of_true (fun h => hbelow h.1) fun h => hbelow h.2.1

end

/-- One message of eight tokens in a window of ten: nothing can be removed, and the final error is
returned. -/
theorem recoverFromOverflow_not_honest :
    ¬ ∀ messages : List Message,
      (recoverCounting asciiLibrary messages "" [] 10).Honest asciiLibrary "" [] 10 := by
  intro h
  have hstage : (recoverCounting asciiLibrary [.user "0123456789abcdef"] "" [] 10).stage =
      .finalError := by
    decide +kernel
  have hbelow : estimateTokens asciiLibrary
      (recoverCounting asciiLibrary [.user "0123456789abcdef"] "" [] 10).messages "" [] ≤
        threshold90 10 := by
    decide +kernel
  exact absurd ((h [.user "0123456789abcdef"]).final hstage) (Nat.not_lt.mpr hbelow)

/-- Two trims: of eleven messages the first removes one and the second six. The marker states the
six. -/
example :
    let messages := List.replicate 11 (Message.user "0123456789abcdef01234567")
    let r := recoverCounting asciiLibrary messages "" [] 140
    (r.removed, r.marker, r.stage) = (7, some 6, .overflowCompaction 6) := by
  decide +kernel

end ArmaraOS.Agent
