import ArmaraOS.Session.RepairPairing

/-!
The normal form of a repaired history.

A repaired history alternates, has content everywhere, pairs its calls under distinct ids, and holds
a blank Assistant message at most at its end (`normal_validateAndRepair`). Every phase finds nothing
in such a history (`Normal.repair_eq`), so a second repair changes and counts nothing
(`repair_idempotent`).
-/

namespace ArmaraOS.Session

open ArmaraOS.Lib

/-- The Assistant messages that phase 2e removes, unless they are last. -/
def isAborted (m : Message) : Bool :=
  m.role == .assistant && isEmptyOrBlankContent m.content

/-- What a repair leaves. -/
structure Normal (messages : List Message) : Prop where
  alternates : messages.IsChain fun a b => a.role ≠ b.role
  hasContent : ∀ m ∈ messages, hasContent m = true
  notAborted : ∀ m ∈ messages.dropLast, isAborted m = false
  separated : Separated messages
  paired : Paired [] messages
  nodup : (messages.flatMap Message.toolUses).Nodup

/-! ### Ids over the whole history -/

section Ids

variable {messages : List Message} {open' : List String}

/-- In a paired history the ids that are open or used are those that have results. -/
theorem Paired.mem_results (h : Paired open' messages) {x : String} :
    x ∈ messages.flatMap Message.toolResults ↔
      x ∈ open' ++ messages.flatMap Message.toolUses := by
  induction messages generalizing open' with
  | nil =>
      obtain rfl := paired_nil.mp h
      rfl
  | cons m rest ih =>
      obtain ⟨hresults, hcount, hrest⟩ := h
      rw [List.flatMap_cons, List.flatMap_cons, List.mem_append, ih hrest]
      have hopen : x ∈ m.toolResults ↔ x ∈ open' := by
        constructor
        · exact hresults x
        · intro hx
          have hone := hcount x hx
          exact List.count_pos_iff.mp (by omega)
      rw [hopen, List.mem_append, List.mem_append, List.mem_append]

/-- Distinct ids have distinct results. -/
theorem Paired.nodup_results (h : Paired open' messages)
    (hnodup : (open' ++ messages.flatMap Message.toolUses).Nodup) :
    (messages.flatMap Message.toolResults).Nodup := by
  induction messages generalizing open' with
  | nil => exact List.nodup_nil
  | cons m rest ih =>
      have hrest := h.2.2
      obtain ⟨-, huses, hdisjoint⟩ := List.nodup_append.mp hnodup
      rw [List.flatMap_cons] at huses hdisjoint ⊢
      refine List.nodup_append.mpr ⟨?_, ih hrest huses, ?_⟩
      · rw [List.nodup_iff_count_le_one]
        intro x
        by_cases hx : x ∈ m.toolResults
        · exact Nat.le_of_eq (h.2.1 x (h.1 x hx))
        · rw [List.count_eq_zero.mpr hx]
          exact Nat.zero_le 1
      · intro x hx y hy
        exact hdisjoint x (h.1 x hx) y (hrest.mem_results.mp hy)

end Ids

/-! ### Phases that find nothing -/

section Phases

variable {messages : List Message}

theorem filter_keepsResult_eq {keep : String → Bool} (bs : List ContentBlock)
    (h : ∀ x ∈ toolResultIds bs, keep x = true) : bs.filter (keepsResult keep) = bs := by
  rw [List.filter_eq_self]
  intro b hb
  cases b with
  | toolResult id name content isError =>
      exact h id ((mem_toolResultIds bs).mpr ⟨name, content, isError, hb⟩)
  | _ => rfl

theorem retainBlocks_eq {keep : String → Bool} {m : Message}
    (h : ∀ x ∈ m.toolResults, keep x = true) : retainBlocks (keepsResult keep) m = m := by
  obtain ⟨role, content | bs, ctx⟩ := m
  · rfl
  · have hbs := filter_keepsResult_eq bs h
    simp only [retainBlocks, hbs]

theorem retained_eq (h : Normal messages) :
    messages.map (retainBlocks (keepsResult fun id =>
      decide (id ∈ messages.flatMap Message.toolUses))) = messages := by
  refine (List.map_congr_left fun m hm => ?_).trans (List.map_id messages)
  apply retainBlocks_eq
  intro x hx
  have hresult : x ∈ messages.flatMap Message.toolResults := List.mem_flatMap.mpr ⟨m, hm, hx⟩
  simpa using h.paired.mem_results.mp hresult

theorem filterOrphans_eq (h : Normal messages) : filterOrphans messages = messages := by
  simp only [filterOrphans, retained_eq h]
  exact List.filter_eq_self.mpr h.hasContent

/-- With distinct ids the index finds the message before a result. -/
theorem misplacedResults_eq (h : Normal messages) : misplacedResults messages = [] := by
  rw [misplacedResults, List.flatMap_eq_nil_iff]
  rintro ⟨n, j⟩ hmem
  have hn := List.mem_zipIdx_iff_getElem?.mp hmem
  dsimp only
  split
  · rw [List.filterMap_eq_nil_iff]
    intro b hb
    cases b with
    | toolResult id name content isError =>
        have hresult : id ∈ n.toolResults :=
          (mem_toolResultIds _).mpr ⟨name, content, isError, hb⟩
        obtain ⟨i, m, hj, hm, huse⟩ := (wellPaired_iff.mpr h.paired).answers j n hn id hresult
        have hlookup := (lookup_toolUseIndex h.separated h.nodup).mpr ⟨m, hm, huse⟩
        simp only [misplacedBlock, hlookup]
        exact if_neg fun hne => hne hj
    | _ => rfl
  · rfl

theorem reorderToolResults_eq (h : Normal messages) :
    reorderToolResults messages = (messages, 0) := by
  simp [reorderToolResults, misplacedResults_eq h]

theorem insertSyntheticResults_eq (h : Normal messages) :
    insertSyntheticResults messages = (messages, 0) := by
  have hnone : orphanedUses messages = [] := by
    rw [orphanedUses, List.filter_eq_nil_iff]
    rintro ⟨id, k⟩ hmem
    obtain ⟨m, hm, -, huse⟩ := mem_assistantUses.mp hmem
    have hused : id ∈ messages.flatMap Message.toolUses :=
      List.mem_flatMap.mpr ⟨m, List.mem_of_getElem? hm, huse⟩
    have hresult := h.paired.mem_results.mpr (List.mem_append_right [] hused)
    simpa using hresult
  simp [insertSyntheticResults, hnone]

/-- Distinct ids that were not seen before all survive. -/
theorem dedupBlocks_eq {seen : List String} {bs : List ContentBlock}
    (hnodup : (toolResultIds bs).Nodup) (hfresh : ∀ x ∈ toolResultIds bs, x ∉ seen) :
    (dedupBlocks seen bs).1 = bs := by
  induction bs generalizing seen with
  | nil => rfl
  | cons b bs ih =>
      rw [toolResultIds_cons] at hnodup hfresh
      cases b with
      | toolResult id name content isError =>
          obtain ⟨hnew, hrest⟩ := List.nodup_cons.mp hnodup
          have hseen : id ∉ seen := hfresh id List.mem_cons_self
          simp only [dedupBlocks, if_neg hseen]
          rw [ih hrest]
          intro x hx hmem
          rcases List.mem_cons.mp hmem with rfl | hmem
          · exact hnew hx
          · exact hfresh x (List.mem_cons_of_mem id hx) hmem
      | _ => simp only [dedupBlocks, ih hnodup hfresh]

theorem dedupMessages_eq {seen : List String}
    (hnodup : (messages.flatMap Message.toolResults).Nodup)
    (hfresh : ∀ x ∈ messages.flatMap Message.toolResults, x ∉ seen) :
    dedupMessages seen messages = messages := by
  induction messages generalizing seen with
  | nil => rfl
  | cons m rest ih =>
      rw [List.flatMap_cons] at hnodup hfresh
      obtain ⟨hhead, hrest, hdisjoint⟩ := List.nodup_append.mp hnodup
      obtain ⟨role, content | bs, ctx⟩ := m
      · rw [dedupMessages, ih hrest hfresh]
      · have hblocks : (dedupBlocks seen bs).1 = bs :=
          dedupBlocks_eq hhead fun x hx => hfresh x (List.mem_append_left _ hx)
        have hseen := (dedupBlocks_spec seen bs).2.1
        have hlater : ∀ x ∈ rest.flatMap Message.toolResults, x ∉ (dedupBlocks seen bs).2 := by
          intro x hx hmem
          rcases (hseen x).mp hmem with hmem | hmem
          · exact hfresh x (List.mem_append_right _ hx) hmem
          · exact hdisjoint x hmem x hx rfl
        simp only [dedupMessages, hblocks, ih hrest hlater]

theorem deduplicateToolResults_eq (h : Normal messages) :
    deduplicateToolResults messages = (messages, 0) := by
  have hresults := h.paired.nodup_results (by simpa using h.nodup)
  have hdedup : dedupMessages [] messages = messages :=
    dedupMessages_eq hresults fun _ _ => List.not_mem_nil
  simp only [deduplicateToolResults, hdedup, Nat.sub_self]
  rw [List.filter_eq_self.mpr h.hasContent]

/-- The last message stays, whatever it is. -/
theorem removeAborted_concat (front : List Message) (last : Message) :
    removeAbortedAssistantMessages (front ++ [last]) =
      (front.filter fun m => !isAborted m) ++ [last] := by
  cases front with
  | nil => rfl
  | cons m rest =>
      have hlong : ¬ (m :: rest ++ [last]).length < 2 := by simp
      rw [removeAbortedAssistantMessages, if_neg hlong, List.zipIdx_append, List.filter_append,
        List.map_append]
      generalize m :: rest = front
      congr 1
      · have hfilter : front.zipIdx.filter (fun p => !(p.1.role == .assistant &&
            isEmptyOrBlankContent p.1.content && decide (p.2 + 1 < (front ++ [last]).length))) =
            front.zipIdx.filter ((fun m => !isAborted m) ∘ Prod.fst) := by
          refine List.filter_congr ?_
          rintro ⟨m, i⟩ hmem
          have hi := (List.getElem?_eq_some_iff.mp (List.mem_zipIdx_iff_getElem?.mp hmem)).1
          simp [isAborted, hi]
        rw [hfilter, ← List.filter_map, List.zipIdx_map_fst]
      · simp

theorem removeAborted_eq (h : ∀ m ∈ messages.dropLast, isAborted m = false) :
    removeAbortedAssistantMessages messages = messages := by
  cases messages using List.reverseRecOn with
  | nil => rfl
  | append_singleton front last =>
      rw [List.dropLast_concat] at h
      rw [removeAborted_concat, List.filter_eq_self.mpr]
      intro m hm
      rw [h m hm, Bool.not_false]

/-- The merge loop appends what alternates. -/
theorem foldl_mergeStep_eq {merged : List Message}
    (h : (merged ++ messages).IsChain fun a b => a.role ≠ b.role) :
    messages.foldl mergeStep merged = merged ++ messages := by
  induction messages generalizing merged with
  | nil => exact (List.append_nil merged).symm
  | cons msg rest ih =>
      have hstep : mergeStep merged msg = merged ++ [msg] := by
        cases merged using List.reverseRecOn with
        | nil => rfl
        | append_singleton front last =>
            have hrole : last.role ≠ msg.role :=
              (List.isChain_append.mp h).2.2 last (by simp) msg (by simp)
            simp [mergeStep, hrole]
      rw [List.foldl_cons, hstep, ih (by simpa using h), List.append_assoc,
        List.singleton_append]

/-- Every phase leaves a normal history alone and counts nothing. -/
theorem Normal.repair_eq (h : Normal messages) :
    validateAndRepairWithStats messages = (messages, {}) := by
  have hfiltered : messages.map (retainBlocks (keepsResult fun id =>
      decide (id ∈ messages.flatMap Message.toolUses))) = messages := retained_eq h
  have hmerge : mergeConsecutive messages = messages := by
    rw [mergeConsecutive, foldl_mergeStep_eq (by simpa using h.alternates), List.nil_append]
  simp only [validateAndRepairWithStats, filterOrphans_eq h, reorderToolResults_eq h,
    insertSyntheticResults_eq h, deduplicateToolResults_eq h, removeAborted_eq h.notAborted, hmerge,
    hfiltered, Nat.sub_self]

end Phases

/-! ### The output of a repair -/

section Output

variable {messages : List Message}

/-- What merging keeps holds of everything that the merge loop leaves. -/
theorem forall_foldl_mergeStep {P : Message → Prop}
    (hmerge : ∀ last msg, P last → P (mergeContent last msg)) {merged : List Message}
    (hmerged : ∀ m ∈ merged, P m) (hmessages : ∀ m ∈ messages, P m) :
    ∀ m ∈ messages.foldl mergeStep merged, P m := by
  induction messages generalizing merged with
  | nil => exact hmerged
  | cons msg rest ih =>
      obtain ⟨hmsg, hrest⟩ := List.forall_mem_cons.mp hmessages
      refine ih ?_ hrest
      cases merged using List.reverseRecOn with
      | nil => simpa [mergeStep] using hmsg
      | append_singleton front last =>
          obtain ⟨hfront, hlast⟩ := List.forall_mem_append.mp hmerged
          have hlast' : P last := hlast last List.mem_cons_self
          by_cases hrole : last.role = msg.role
          · simpa [mergeStep, hrole, or_imp, forall_and] using
              And.intro hfront (hmerge last msg hlast')
          · simpa [mergeStep, hrole, or_imp, forall_and] using
              And.intro hfront (And.intro hlast' hmsg)

theorem hasContent_mergeContent (last msg : Message) (h : hasContent last = true) :
    hasContent (mergeContent last msg) = true := by
  obtain ⟨role, content | bs, ctx⟩ := last
  · rfl
  · simp only [hasContent, mergeContent, contentToBlocks, Bool.not_eq_true',
      List.isEmpty_eq_false_iff] at h ⊢
    simp [h]

/-- A merged message is aborted only if its first part was. -/
theorem isAborted_mergeContent (last msg : Message) (h : isAborted last = false) :
    isAborted (mergeContent last msg) = false := by
  by_cases hrole : last.role = .assistant
  · have hblank : isEmptyOrBlankContent last.content = false := by simpa [isAborted, hrole] using h
    have hblocks : (contentToBlocks last.content).all isBlankBlock = false := by
      obtain ⟨role, content | bs, ctx⟩ := last
      · simpa [contentToBlocks, isEmptyOrBlankContent, isBlankBlock] using hblank
      · exact (Bool.or_eq_false_iff.mp hblank).2
    have hall : (mergeContent last msg).content.blockList.all isBlankBlock = false := by
      simp [mergeContent, MessageContent.blockList, List.all_append, hblocks]
    have hne : (mergeContent last msg).content.blockList ≠ [] := by
      intro hnil
      simp [hnil] at hall
    simp only [mergeContent, MessageContent.blockList] at hall hne
    simp [isAborted, mergeContent, isEmptyOrBlankContent, hall, hne]
  · simp [isAborted, hrole]

/-- Only the last message of a merged history is merged with an aborted last one. -/
theorem notAborted_mergeConsecutive (h : ∀ m ∈ messages.dropLast, isAborted m = false) :
    ∀ m ∈ (mergeConsecutive messages).dropLast, isAborted m = false := by
  cases messages using List.reverseRecOn with
  | nil => simp [mergeConsecutive]
  | append_singleton front last =>
      rw [List.dropLast_concat] at h
      have hfront := forall_foldl_mergeStep isAborted_mergeContent
        (List.forall_mem_nil _) h
      rw [mergeConsecutive, List.foldl_append, List.foldl_cons, List.foldl_nil]
      generalize front.foldl mergeStep [] = merged at hfront
      cases merged using List.reverseRecOn with
      | nil => simp [mergeStep]
      | append_singleton before prev =>
          intro m hm
          by_cases hrole : prev.role = last.role
          · exact hfront m (List.mem_append_left _ (by simpa [mergeStep, hrole] using hm))
          · exact hfront m (by simpa [mergeStep, hrole] using hm)

theorem notAborted_removeAborted (messages : List Message) :
    ∀ m ∈ (removeAbortedAssistantMessages messages).dropLast, isAborted m = false := by
  cases messages using List.reverseRecOn with
  | nil => simp [removeAbortedAssistantMessages]
  | append_singleton front last =>
      rw [removeAborted_concat, List.dropLast_concat]
      intro m hm
      simpa using (List.mem_filter.mp hm).2

/-- **A repaired history is normal.** -/
theorem normal_validateAndRepair (hsep : Separated messages)
    (hnodup : (messages.flatMap Message.toolUses).Nodup) : Normal (validateAndRepair messages) := by
  obtain ⟨hseparated, hpaired, halternates⟩ := validateAndRepair_paired hsep hnodup
  refine ⟨halternates, ?_, ?_, hseparated, hpaired, ?_⟩
  · rw [validateAndRepair_eq]
    refine forall_foldl_mergeStep hasContent_mergeContent (List.forall_mem_nil _) fun m hm => ?_
    have hdeduped := (dropsOnly_removeAborted _).sublist.subset hm
    exact (List.mem_filter.mp hdeduped).2
  · rw [validateAndRepair_eq]
    exact notAborted_mergeConsecutive (notAborted_removeAborted _)
  · rw [flatMap_toolUses_validateAndRepair hsep hnodup]
    exact hnodup

end Output

/-- **Session repair is idempotent**: a second repair returns what the first one returned, and
counts nothing. -/
theorem repair_idempotent {messages : List Message} (hsep : Separated messages)
    (hnodup : (messages.flatMap Message.toolUses).Nodup) :
    validateAndRepair (validateAndRepair messages) = validateAndRepair messages ∧
      (validateAndRepairWithStats (validateAndRepair messages)).2 = {} := by
  have hnormal := (normal_validateAndRepair hsep hnodup).repair_eq
  constructor
  · nth_rewrite 1 [validateAndRepair]
    rw [hnormal]
  · rw [hnormal]

theorem repair_idempotent_tangled :
    validateAndRepair (validateAndRepair tangledHistory) = validateAndRepair tangledHistory ∧
      (validateAndRepairWithStats (validateAndRepair tangledHistory)).2 = {} :=
  repair_idempotent (by decide) (by decide)

end ArmaraOS.Session
