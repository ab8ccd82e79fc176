import ArmaraOS.Session.NormalForm

/-!
Session repair on histories that need none.

Well-formedness is local: each Assistant message and the User message behind it. Repair reads a
tool-use id over the whole history, so a history in which two messages use one id is changed: its
first results are taken for misplaced ones, and of the results for the id only one survives. Every
other well-formed history is left alone (`repair_leaves_wellFormed_iff`).
-/

namespace ArmaraOS.Session

open ArmaraOS.Lib

/-- A history that a provider accepts as it is. -/
structure WellFormed (messages : List Message) : Prop where
  alternates : messages.IsChain fun a b => a.role ≠ b.role
  notEmpty : ∀ m ∈ messages, m.content ≠ .text "" ∧ m.content ≠ .blocks []
  notBlank : ∀ m ∈ messages, m.role = .assistant → isEmptyOrBlankContent m.content = false
  distinct : ∀ m ∈ messages, m.role = .assistant → m.toolUses.Nodup
  answered : ∀ (i : Nat) (m : Message), messages[i]? = some m → ∀ x ∈ m.toolUses,
    ∃ n : Message, messages[i + 1]? = some n ∧ n.role = .user ∧ n.toolResults.count x = 1
  answers : ∀ (j : Nat) (n : Message), messages[j]? = some n → ∀ x ∈ n.toolResults,
    ∃ (i : Nat) (m : Message), j = i + 1 ∧ messages[i]? = some m ∧ m.role = .assistant ∧
      x ∈ m.toolUses

/-- No tool-use id is used by two messages. -/
def NoReuse (messages : List Message) : Prop :=
  ∀ (i j : Nat) (m n : Message), messages[i]? = some m → messages[j]? = some n →
    ∀ x ∈ m.toolUses, x ∈ n.toolUses → i = j

namespace WellFormed

variable {messages : List Message}

theorem hasContent (h : WellFormed messages) : ∀ m ∈ messages, hasContent m = true := by
  intro m hm
  obtain ⟨htext, hblocks⟩ := h.notEmpty m hm
  unfold Session.hasContent
  split
  · next s hs =>
      rw [hs] at htext
      simpa using htext
  · next bs hbs =>
      rw [hbs] at hblocks
      simpa using hblocks

/-- The blocks of the two kinds are where they belong. -/
theorem separated (h : WellFormed messages) : Separated messages := by
  constructor
  · intro m hm hne
    obtain ⟨i, hi⟩ := List.mem_iff_getElem?.mp hm
    obtain ⟨x, hx⟩ := List.exists_mem_of_ne_nil _ hne
    obtain ⟨n, hn, -, hcount⟩ := h.answered i m hi x hx
    have hresult : x ∈ n.toolResults := List.count_pos_iff.mp (by omega)
    obtain ⟨i', m', hi', hm', hrole, -⟩ := h.answers (i + 1) n hn x hresult
    obtain rfl : i = i' := by omega
    obtain rfl : m = m' := Option.some.inj (hi.symm.trans hm')
    exact hrole
  · intro n hn hne
    obtain ⟨j, hj⟩ := List.mem_iff_getElem?.mp hn
    obtain ⟨x, hx⟩ := List.exists_mem_of_ne_nil _ hne
    obtain ⟨i, m, rfl, hm, -, huse⟩ := h.answers j n hj x hx
    obtain ⟨n', hn', hrole, -⟩ := h.answered i m hm x huse
    obtain rfl : n = n' := Option.some.inj (hj.symm.trans hn')
    exact hrole

theorem paired (h : WellFormed messages) : Paired [] messages := by
  apply wellPaired_iff.mp
  constructor
  · intro i m hm x hx
    obtain ⟨n, hn, -, hcount⟩ := h.answered i m hm x hx
    exact ⟨n, hn, hcount⟩
  · intro j n hn x hx
    obtain ⟨i, m, hj, hm, -, huse⟩ := h.answers j n hn x hx
    exact ⟨i, m, hj, hm, huse⟩

theorem nodup_toolUses (h : WellFormed messages) : ∀ m ∈ messages, m.toolUses.Nodup := by
  intro m hm
  by_cases hrole : m.role = .assistant
  · exact h.distinct m hm hrole
  · rw [h.separated.uses_nil hm hrole]
    exact List.nodup_nil

end WellFormed

/-! ### Ids over the whole history -/

section Ids

variable {messages : List Message} {open' : List String}

/-- Distinct results answer distinct ids. -/
theorem Paired.nodup_uses (h : Paired open' messages) (hopen : open'.Nodup)
    (hdistinct : ∀ m ∈ messages, m.toolUses.Nodup)
    (hnodup : (messages.flatMap Message.toolResults).Nodup) :
    (open' ++ messages.flatMap Message.toolUses).Nodup := by
  induction messages generalizing open' with
  | nil => simpa using hopen
  | cons m rest ih =>
      have hrest := h.2.2
      rw [List.flatMap_cons] at hnodup ⊢
      obtain ⟨-, hresults, hdisjoint⟩ := List.nodup_append.mp hnodup
      have huses := ih hrest (hdistinct m List.mem_cons_self)
        (fun n hn => hdistinct n (List.mem_cons_of_mem m hn)) hresults
      refine List.nodup_append.mpr ⟨hopen, huses, ?_⟩
      intro x hx y hy
      have hone := h.2.1 x hx
      have hresult : x ∈ m.toolResults := List.count_pos_iff.mp (by omega)
      exact hdisjoint x hresult y (hrest.mem_results.mpr hy)

end Ids

/-- The ids of a history are distinct when those of each message are and none is used twice. -/
theorem nodup_toolUses_iff {messages : List Message}
    (hdistinct : ∀ m ∈ messages, m.toolUses.Nodup) :
    (messages.flatMap Message.toolUses).Nodup ↔ NoReuse messages := by
  rw [List.nodup_flatMap, and_iff_right hdistinct, List.pairwise_iff_getElem]
  constructor
  · intro hpairwise i j m n hm hn x hx hx'
    obtain ⟨hi, rfl⟩ := List.getElem?_eq_some_iff.mp hm
    obtain ⟨hj, rfl⟩ := List.getElem?_eq_some_iff.mp hn
    rcases Nat.lt_trichotomy i j with hlt | heq | hgt
    · exact absurd hx' (hpairwise i j hi hj hlt hx)
    · exact heq
    · exact absurd hx (hpairwise j i hj hi hgt hx')
  · intro hreuse i j hi hj hlt x hx hx'
    have heq := hreuse i j _ _ (List.getElem?_eq_getElem hi) (List.getElem?_eq_getElem hj) x hx hx'
    omega

/-- With distinct ids a well-formed history is normal. -/
theorem WellFormed.normal {messages : List Message} (h : WellFormed messages)
    (hnodup : (messages.flatMap Message.toolUses).Nodup) : Normal messages where
  alternates := h.alternates
  hasContent := h.hasContent
  notAborted := by
    intro m hm
    by_cases hrole : m.role = .assistant
    · simp [isAborted, h.notBlank m (List.dropLast_subset messages hm) hrole]
    · simp [isAborted, hrole]
  separated := h.separated
  paired := h.paired
  nodup := hnodup

/-! ### Results after a repair -/

theorem flatMap_toolResults_foldl_mergeStep (messages merged : List Message) :
    (messages.foldl mergeStep merged).flatMap Message.toolResults =
      merged.flatMap Message.toolResults ++ messages.flatMap Message.toolResults := by
  induction messages generalizing merged with
  | nil => simp
  | cons msg rest ih =>
      rw [List.foldl_cons, ih]
      cases merged using List.reverseRecOn with
      | nil => simp [mergeStep]
      | append_singleton front last =>
          by_cases hrole : last.role = msg.role <;> simp [mergeStep, hrole]

/-- Of the results for an id the first one stays, unless the id was seen before. -/
theorem count_results_dedupMessages (seen : List String) (messages : List Message) (x : String) :
    ((dedupMessages seen messages).flatMap Message.toolResults).count x =
      if x ∈ messages.flatMap Message.toolResults ∧ x ∉ seen then 1 else 0 := by
  induction messages generalizing seen with
  | nil => simp [dedupMessages]
  | cons m rest ih =>
      obtain ⟨role, content | bs, ctx⟩ := m
      · simpa [dedupMessages, Message.toolResults, MessageContent.blockList] using ih seen
      · obtain ⟨-, hseen, hcount⟩ := dedupBlocks_spec seen bs
        have hhead : (Message.mk role (.blocks (dedupBlocks seen bs).1) ctx).toolResults =
            toolResultIds (dedupBlocks seen bs).1 := rfl
        have hold : (Message.mk role (.blocks bs) ctx).toolResults = toolResultIds bs := rfl
        simp only [dedupMessages, List.flatMap_cons, List.count_append, hhead, hold, hcount, ih,
          hseen, List.mem_append, not_or]
        by_cases hbs : x ∈ toolResultIds bs <;> by_cases hx : x ∈ seen <;> simp [hbs, hx]

/-- After the first three phases, only the duplicates are removed. -/
theorem flatMap_toolResults_validateAndRepair (messages : List Message) :
    (validateAndRepair messages).flatMap Message.toolResults =
      (dedupMessages [] (insertSyntheticResults (reorderToolResults
        (filterOrphans messages)).1).1).flatMap Message.toolResults := by
  rw [validateAndRepair_eq, mergeConsecutive, flatMap_toolResults_foldl_mergeStep,
    List.flatMap_nil, List.nil_append, (dropsInert_removeAborted _).flatMap_toolResults,
    deduplicateToolResults, (dropsInert_hasContent _).flatMap_toolResults]

/-- A repaired history holds one result for an id. -/
theorem nodup_results_validateAndRepair (messages : List Message) :
    ((validateAndRepair messages).flatMap Message.toolResults).Nodup := by
  rw [flatMap_toolResults_validateAndRepair, List.nodup_iff_count_le_one]
  intro x
  rw [count_results_dedupMessages]
  split
  · exact Nat.le_refl 1
  · exact Nat.zero_le 1

/-- For every well-formed history: repair returns it exactly when no tool-use id is used by two
of its messages. -/
theorem repair_leaves_wellFormed_iff {messages : List Message} (h : WellFormed messages) :
    validateAndRepair messages = messages ↔ NoReuse messages := by
  rw [← nodup_toolUses_iff h.nodup_toolUses]
  constructor
  · intro heq
    have hresults := nodup_results_validateAndRepair messages
    rw [heq] at hresults
    simpa using h.paired.nodup_uses List.nodup_nil h.nodup_toolUses hresults
  · intro hnodup
    rw [validateAndRepair, (h.normal hnodup).repair_eq]

/-! ### Two calls -/

theorem wellFormed_of_decidable {messages : List Message}
    (halternates : messages.IsChain fun a b => a.role ≠ b.role)
    (hempty : ∀ m ∈ messages, m.content ≠ .text "" ∧ m.content ≠ .blocks [])
    (hblank : ∀ m ∈ messages, m.role = .assistant → isEmptyOrBlankContent m.content = false)
    (hdistinct : ∀ m ∈ messages, m.role = .assistant → m.toolUses.Nodup)
    (hsep : Separated messages) (hpaired : Paired [] messages) : WellFormed messages := by
  obtain ⟨hanswered, hanswers⟩ := wellPaired_iff.mpr hpaired
  refine ⟨halternates, hempty, hblank, hdistinct, ?_, ?_⟩
  · intro i m hm x hx
    obtain ⟨n, hn, hcount⟩ := hanswered i m hm x hx
    have hresult : x ∈ n.toolResults := List.count_pos_iff.mp (by omega)
    exact ⟨n, hn, hsep.results n (List.mem_of_getElem? hn) (List.ne_nil_of_mem hresult), hcount⟩
  · intro j n hn x hx
    obtain ⟨i, m, hj, hm, huse⟩ := hanswers j n hn x hx
    exact ⟨i, m, hj, hm, hsep.uses m (List.mem_of_getElem? hm) (List.ne_nil_of_mem huse), huse⟩

/-- Two turns, each with one call under a given id. -/
def twoCalls (first second : String) : List Message :=
  [.user "read both files",
    { role := .assistant, content := .blocks [.toolUse first "file_read" .null none] },
    .userWithBlocks [.toolResult first "file_read" "one" false],
    { role := .assistant, content := .blocks [.toolUse second "file_read" .null none] },
    .userWithBlocks [.toolResult second "file_read" "two" false],
    .assistant "done"]

theorem repair_leaves_wellFormed_iff_two_calls :
    validateAndRepair (twoCalls "call_0" "call_1") = twoCalls "call_0" "call_1" ↔
      NoReuse (twoCalls "call_0" "call_1") :=
  repair_leaves_wellFormed_iff
    (wellFormed_of_decidable (by decide) (by decide) (by decide) (by decide) (by decide) (by decide))

/-- Two turns that use one id: the history is well-formed, and repair changes it. -/
theorem repair_changes_reused_id : ¬ ∀ messages, WellFormed messages →
    validateAndRepair messages = messages := by
  intro h
  have hsame := h (twoCalls "groq_recovered_0" "groq_recovered_0")
    (wellFormed_of_decidable (by decide) (by decide) (by decide) (by decide) (by decide) (by decide))
  have hresults := nodup_results_validateAndRepair (twoCalls "groq_recovered_0" "groq_recovered_0")
  rw [hsame] at hresults
  exact absurd hresults (by decide)

end ArmaraOS.Session
