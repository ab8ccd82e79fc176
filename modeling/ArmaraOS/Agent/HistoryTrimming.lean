import ArmaraOS.Agent.Compactor
import ArmaraOS.Agent.OverflowRecovery

/-!
Tool calls and their results, where a history is trimmed (`context_overflow.rs`, `compactor.rs`).

Both trims cut a history in two and keep the part behind. Only a boundary between a call and its
result can part them; both move such a boundary back by one message, so that the part behind starts
with a message without results. From there on every call has its result in the next message.
-/

namespace ArmaraOS.Agent

open ArmaraOS.Session

/-- Each ToolUse of an Assistant message is answered in the User message behind it, and each
ToolResult answers the Assistant message in front of it. -/
structure Exchanged (messages : List Message) : Prop where
  answered : ∀ (i : Nat) (m : Message), messages[i]? = some m → m.role = .assistant →
    ∀ x ∈ m.toolUses,
      ∃ n : Message, messages[i + 1]? = some n ∧ n.role = .user ∧ x ∈ n.toolResults
  answers : ∀ (j : Nat) (n : Message), messages[j]? = some n → ∀ x ∈ n.toolResults,
    ∃ (i : Nat) (m : Message), j = i + 1 ∧ messages[i]? = some m ∧ m.role = .assistant ∧
      x ∈ m.toolUses

variable {messages : List Message}

/-! ### Where a history may be cut -/

/-- A message with results is a User message, behind an Assistant message with calls. -/
theorem Exchanged.behind_calls (h : Exchanged messages) {j : Nat} {n : Message}
    (hn : messages[j]? = some n) (hresults : n.toolResults ≠ []) :
    n.role = .user ∧ ∃ (i : Nat) (m : Message), j = i + 1 ∧ messages[i]? = some m ∧
      m.role = .assistant ∧ m.toolUses ≠ [] := by
  obtain ⟨x, hx⟩ := List.exists_mem_of_ne_nil _ hresults
  obtain ⟨i, m, rfl, hm, hrole, hcall⟩ := h.answers j n hn x hx
  obtain ⟨n', hn', huser, -⟩ := h.answered i m hm hrole x hcall
  obtain rfl : n = n' := Option.some.inj (hn.symm.trans hn')
  exact ⟨huser, i, m, rfl, hm, hrole, List.ne_nil_of_mem hcall⟩

/-- Cut in front of a message without results, what is behind is exchanged. -/
theorem Exchanged.drop (h : Exchanged messages) {k : Nat}
    (hcut : ∀ n, messages[k]? = some n → n.toolResults = []) : Exchanged (messages.drop k) where
  answered i m hm hrole x hx := by
    rw [List.getElem?_drop] at hm ⊢
    exact h.answered (k + i) m hm hrole x hx
  answers j n hn x hx := by
    rw [List.getElem?_drop] at hn
    obtain ⟨i, m, hj, hm, hrole, hcall⟩ := h.answers (k + j) n hn x hx
    cases j with
    | zero => exact absurd hx (by simp [hcut n hn])
    | succ j =>
        obtain rfl : i = k + j := by omega
        exact ⟨j, m, rfl, by rwa [List.getElem?_drop], hrole, hcall⟩

/-- The boundary of a trim stands in front of a message without results. -/
theorem Exchanged.safeDrainBoundary_cut (h : Exchanged messages) (boundary : Nat) {n : Message}
    (hn : messages[safeDrainBoundary messages boundary]? = some n) : n.toolResults = [] := by
  by_contra hresults
  obtain ⟨huser, i, m, hj, hm, hassistant, huses⟩ := h.behind_calls hn hresults
  unfold safeDrainBoundary at hn hj
  split at hj
  · omega
  · rename_i hpos
    rw [if_neg hpos] at hn
    split at hj
    · rename_i kept drained hkept hdrained
      rw [hkept, hdrained] at hn
      dsimp only at hn
      split at hj
      · rename_i hpair
        -- Moved back, the boundary stands in front of the Assistant message.
        rw [if_pos hpair, hdrained] at hn
        obtain rfl := Option.some.inj hn
        rw [huser] at hpair
        cases hpair.2.2.1
      · rename_i hpair
        rw [if_neg hpair, hkept] at hn
        obtain rfl := Option.some.inj hn
        rw [hj, Nat.add_sub_cancel, hm] at hdrained
        obtain rfl := Option.some.inj hdrained
        exact hpair ⟨huser, hresults, hassistant, huses⟩
    · rename_i hnone
      have hn' : messages[boundary]? = some n := by
        split at hn
        · rename_i kept drained hkept hdrained
          exact absurd hdrained (hnone kept drained hkept)
        · exact hn
      rw [hj] at hn'
      refine hnone n m ?_ ?_
      · rwa [hj]
      · rwa [hj, Nat.add_sub_cancel]

theorem Exchanged.drop_trimTo (h : Exchanged messages) (keep : Nat) :
    Exchanged (messages.drop (trimTo keep messages)) :=
  h.drop fun _ => h.safeDrainBoundary_cut _

/-- The two trims move a boundary in the same way. -/
theorem adjustSplitForToolPairs_eq (messages : List Message) (split : Nat) :
    adjustSplitForToolPairs messages split = safeDrainBoundary messages split := by
  unfold adjustSplitForToolPairs safeDrainBoundary
  by_cases hzero : split = 0
  · rw [if_pos (.inl hzero), if_pos hzero]
  · rw [if_neg hzero]
    by_cases hlong : messages.length ≤ split
    · rw [if_pos (.inr hlong), List.getElem?_eq_none hlong]
    · have hkept : messages[split]? = some messages[split] := List.getElem?_eq_getElem _
      have hdrained : messages[split - 1]? = some messages[split - 1] := List.getElem?_eq_getElem _
      rw [if_neg (by simp [hzero, hlong]), hkept, hdrained]
      dsimp only
      by_cases hroles : messages[split - 1].role = .assistant ∧ messages[split].role = .user
      · rw [if_neg (by simp [hroles])]
        simp only [hroles, true_and, and_comm]
      · rw [if_pos (not_and_or.mp hroles), if_neg]
        exact fun h => hroles ⟨h.2.2.1, h.1⟩

/-! ### What is done to the kept messages -/

/-- A message in front that has no results and is no Assistant message changes nothing. -/
theorem Exchanged.cons (h : Exchanged messages) {m : Message} (hrole : m.role ≠ .assistant)
    (hresults : m.toolResults = []) : Exchanged (m :: messages) where
  answered i n hn hassistant x hx := by
    cases i with
    | zero =>
        obtain rfl := Option.some.inj hn
        exact absurd hassistant hrole
    | succ i => exact h.answered i n hn hassistant x hx
  answers j n hn x hx := by
    cases j with
    | zero =>
        obtain rfl := Option.some.inj hn
        exact absurd hx (by simp [hresults])
    | succ j =>
        obtain ⟨i, m', rfl, hm', hassistant, hcall⟩ := h.answers j n hn x hx
        exact ⟨i + 1, m', rfl, hm', hassistant, hcall⟩

/-- An edit that leaves the ids of the tool blocks changes nothing. -/
theorem Exchanged.map (h : Exchanged messages) {f : Message → Message}
    (hf : ∀ m, SameTools m (f m)) : Exchanged (messages.map f) where
  answered i n hn hassistant x hx := by
    rw [List.getElem?_map, Option.map_eq_some_iff] at hn
    obtain ⟨m, hm, rfl⟩ := hn
    obtain ⟨hrole, huses, -⟩ := hf m
    obtain ⟨n, hn, huser, hanswer⟩ := h.answered i m hm (hrole ▸ hassistant) x (huses ▸ hx)
    obtain ⟨hrole', -, hresults'⟩ := hf n
    refine ⟨f n, ?_, hrole' ▸ huser, hresults' ▸ hanswer⟩
    rw [List.getElem?_map, hn, Option.map_some]
  answers j n hn x hx := by
    rw [List.getElem?_map, Option.map_eq_some_iff] at hn
    obtain ⟨n, hn, rfl⟩ := hn
    obtain ⟨-, -, hresults⟩ := hf n
    obtain ⟨i, m, rfl, hm, hassistant, hcall⟩ := h.answers j n hn x (hresults ▸ hx)
    obtain ⟨hrole, huses, -⟩ := hf m
    refine ⟨i, f m, rfl, ?_, hrole ▸ hassistant, huses ▸ hcall⟩
    rw [List.getElem?_map, hm, Option.map_some]

/-! ### The two trims -/

/-- The messages the recovery keeps of the input are exchanged. -/
theorem Exchanged.drop_removed (h : Exchanged messages) (lib : Library) (systemPrompt : String)
    (tools : List ToolDefinition) (contextWindow : Nat) :
    Exchanged (messages.drop
      (recoverCounting lib messages systemPrompt tools contextWindow).removed) := by
  have hbefore : Exchanged (messages.drop
      (removedByTrim lib messages systemPrompt tools contextWindow)) := by
    unfold removedByTrim
    split
    · exact h.drop_trimTo 10
    · exact h
  unfold recoverCounting
  dsimp only
  split
  · exact h
  · split
    · exact hbefore
    · rw [compactCounting, ← List.drop_drop]
      exact hbefore.drop_trimTo 4

theorem Leaves.exchanged {removed : Nat} {marker : Option Nat} {out : List Message}
    (h : Leaves messages removed marker out) (hkept : Exchanged (messages.drop removed)) :
    Exchanged out := by
  obtain ⟨-, edit, hedit, rfl⟩ := h
  have hsame : ∀ m, SameTools m (edit m) := by
    rcases hedit with rfl | rfl
    · exact SameTools.refl
    · exact sameTools_editResults _ _
  have hedited := hkept.map hsame
  cases marker with
  | none => exact hedited
  | some n => exact hedited.cons (by simp [overflowSummary, Message.user]) rfl

theorem compactSession_keptMessages (summarizer : Summarizer) (config : CompactionConfig)
    (messages : List Message) :
    (compactSession summarizer config messages).keptMessages =
      messages.drop (trimTo config.keepRecent messages) := by
  unfold compactSession
  split
  · rename_i hshort
    have hbounds := trimTo_bounds config.keepRecent messages
    have hzero : trimTo config.keepRecent messages = 0 := by omega
    rw [hzero, List.drop_zero]
  · rename_i hlong
    have hsplit : messages.length - config.keepRecent =
        messages.length - min config.keepRecent messages.length := by
      omega
    rw [adjustSplitForToolPairs_eq, hsplit, ← trimTo]
    dsimp only
    split
    · rfl
    · split <;> rfl

/-- For every history whose calls and results stand in pairs: what the overflow recovery leaves and
what the compaction keeps has them in pairs, and both are a tail of the history, apart from the
marker in front and the results that the recovery has truncated. -/
theorem trims_keep_exchanged (h : Exchanged messages) (lib : Library) (systemPrompt : String)
    (tools : List ToolDefinition) (contextWindow : Nat) (summarizer : Summarizer)
    (config : CompactionConfig) :
    (Exchanged (recoverFromOverflow lib messages systemPrompt tools contextWindow).1 ∧
      ∃ removed marker, Leaves messages removed marker
        (recoverFromOverflow lib messages systemPrompt tools contextWindow).1) ∧
    Exchanged (compactSession summarizer config messages).keptMessages ∧
      (compactSession summarizer config messages).keptMessages <:+ messages := by
  have hleaves := recoverCounting_leaves lib messages systemPrompt tools contextWindow
  refine ⟨?_, ?_⟩
  · rw [recoverCounting_eq]
    exact ⟨hleaves.exchanged (h.drop_removed lib systemPrompt tools contextWindow), _, _, hleaves⟩
  · rw [compactSession_keptMessages]
    exact ⟨h.drop_trimTo _, List.drop_suffix _ _⟩

/-- A call and its result. -/
def oneExchange : List Message :=
  [{ role := .assistant, content := .blocks [.toolUse "t1" "file_read" .null none] },
    .userWithBlocks [.toolResult "t1" "file_read" "text" false]]

theorem exchanged_oneExchange : Exchanged oneExchange where
  answered i m hm hrole x hx := by
    rcases i with _ | _ | i
    · obtain rfl := Option.some.inj hm
      exact ⟨_, rfl, rfl, hx⟩
    · obtain rfl := Option.some.inj hm
      cases hrole
    · cases hm
  answers j n hn x hx := by
    rcases j with _ | _ | j
    · obtain rfl := Option.some.inj hn
      cases hx
    · obtain rfl := Option.some.inj hn
      exact ⟨0, _, rfl, rfl, rfl, hx⟩
    · cases hn

/-- A cut to the last message keeps both. -/
theorem trims_keep_exchanged_pair :
    Exchanged (recoverFromOverflow asciiLibrary oneExchange "" [] 5).1 ∧
      (compactSession ⟨fun _ => .ok "", fun _ => .ok "", fun _ => 1⟩
        { keepRecent := 1, safetyMargin := marginOfTwo } oneExchange).keptMessages =
          oneExchange := by
  have h := trims_keep_exchanged exchanged_oneExchange asciiLibrary "" [] 5
    ⟨fun _ => .ok "", fun _ => .ok "", fun _ => 1⟩
    { keepRecent := 1, safetyMargin := marginOfTwo }
  exact ⟨h.1.1, by decide +kernel⟩

end ArmaraOS.Agent
