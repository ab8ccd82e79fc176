import ArmaraOS.Session.Pairing
import ArmaraOS.Session.Repair

/-!
Session repair pairs every tool call.

Each phase has one lemma. Phase 2 leaves no result without its call
(`filterOrphans_spec`), 2b puts every result behind its call
(`reorderToolResults_placed`), 2c answers the calls that have none
(`insertSyntheticResults_answered`), 2d keeps one result for each call
(`deduplicateToolResults_paired`), and the removal of blank messages and the
merge keep the pairing (`removeAborted_paired`, `mergeConsecutive_paired`).
The two inserting phases collect their edits by position and apply them from the
back, so both are a `Lib.weave` over the messages (`insertGroups_eq_weave`).
-/

namespace ArmaraOS.Session

open ArmaraOS.Lib

/-! ### Tool blocks under the block edits -/

@[simp] theorem toolUseIds_contentToBlocks (c : MessageContent) :
    toolUseIds (contentToBlocks c) = toolUseIds c.blockList := by
  cases c <;> rfl

@[simp] theorem toolResultIds_contentToBlocks (c : MessageContent) :
    toolResultIds (contentToBlocks c) = toolResultIds c.blockList := by
  cases c <;> rfl

@[simp] theorem toolUses_appendBlocks (m : Message) (bs : List ContentBlock) :
    (appendBlocks m bs).toolUses = m.toolUses ++ toolUseIds bs := by
  simp [appendBlocks, Message.toolUses, MessageContent.blockList]

@[simp] theorem toolResults_appendBlocks (m : Message) (bs : List ContentBlock) :
    (appendBlocks m bs).toolResults = m.toolResults ++ toolResultIds bs := by
  simp [appendBlocks, Message.toolResults, MessageContent.blockList]

@[simp] theorem toolUses_userWithBlocks (bs : List ContentBlock) :
    (Message.userWithBlocks bs).toolUses = toolUseIds bs := rfl

@[simp] theorem toolResults_userWithBlocks (bs : List ContentBlock) :
    (Message.userWithBlocks bs).toolResults = toolResultIds bs := rfl

theorem toolUseIds_filter_keepsResult (keep : String → Bool) (bs : List ContentBlock) :
    toolUseIds (bs.filter (keepsResult keep)) = toolUseIds bs := by
  induction bs with
  | nil => rfl
  | cons b bs ih =>
      rw [List.filter_cons, toolUseIds_cons, ← ih]
      cases b with
      | toolResult id name content isError =>
          by_cases h : keep id = true <;>
            simp [keepsResult, h, toolUseIds_cons, ContentBlock.useId?]
      | _ => simp [keepsResult, toolUseIds_cons]

theorem toolResultIds_filter_keepsResult (keep : String → Bool) (bs : List ContentBlock) :
    toolResultIds (bs.filter (keepsResult keep)) = (toolResultIds bs).filter keep := by
  induction bs with
  | nil => rfl
  | cons b bs ih =>
      rw [List.filter_cons, toolResultIds_cons, List.filter_append, ← ih]
      cases b with
      | toolResult id name content isError =>
          by_cases h : keep id = true <;>
            simp [keepsResult, h, toolResultIds_cons, ContentBlock.resultId?]
      | _ => simp [keepsResult, toolResultIds_cons, ContentBlock.resultId?]

@[simp] theorem role_retainBlocks (keep : ContentBlock → Bool) (m : Message) :
    (retainBlocks keep m).role = m.role := by
  unfold retainBlocks
  split <;> rfl

@[simp] theorem toolUses_retainBlocks (keep : String → Bool) (m : Message) :
    (retainBlocks (keepsResult keep) m).toolUses = m.toolUses := by
  obtain ⟨role, content | bs, ctx⟩ := m
  · rfl
  · exact toolUseIds_filter_keepsResult keep bs

@[simp] theorem toolResults_retainBlocks (keep : String → Bool) (m : Message) :
    (retainBlocks (keepsResult keep) m).toolResults = m.toolResults.filter keep := by
  obtain ⟨role, content | bs, ctx⟩ := m
  · rfl
  · exact toolResultIds_filter_keepsResult keep bs

/-- What the `retain` calls on messages drop has no tool block. -/
theorem inert_of_not_hasContent {m : Message} (h : hasContent m = false) : Inert m := by
  obtain ⟨role, content | bs, ctx⟩ := m
  · exact ⟨rfl, rfl⟩
  · obtain rfl : bs = [] := by simpa [hasContent] using h
    exact ⟨rfl, rfl⟩

theorem dropsInert_hasContent (messages : List Message) :
    DropsInert messages (messages.filter hasContent) :=
  dropsInert_filter fun _ _ h => inert_of_not_hasContent h

/-! ### Phase 2 -/

/-- Every ToolResult answers some ToolUse of the list. -/
def NoOrphans (messages : List Message) : Prop :=
  ∀ m ∈ messages, ∀ x ∈ m.toolResults, x ∈ messages.flatMap Message.toolUses

/-- Phase 2 keeps every ToolUse and leaves no orphaned result. -/
theorem filterOrphans_spec {messages : List Message} (hsep : Separated messages) :
    Separated (filterOrphans messages) ∧ NoOrphans (filterOrphans messages) ∧
      (filterOrphans messages).flatMap Message.toolUses
        = messages.flatMap Message.toolUses := by
  set ids := messages.flatMap Message.toolUses with hids
  set retained := messages.map (retainBlocks (keepsResult fun id => decide (id ∈ ids)))
    with hretained
  have huses : retained.flatMap Message.toolUses = ids := by
    simp [hretained, hids, List.flatMap_map]
  have hdrop : DropsInert retained (filterOrphans messages) := dropsInert_hasContent retained
  have hsep' : Separated retained := by
    constructor <;> intro m hm hne <;> obtain ⟨m', hm', rfl⟩ := List.mem_map.mp hm
    · exact (role_retainBlocks _ _).trans (hsep.uses m' hm' (by simpa using hne))
    · rw [toolResults_retainBlocks] at hne
      refine (role_retainBlocks _ _).trans (hsep.results m' hm' fun hnil => hne ?_)
      rw [hnil, List.filter_nil]
  have hflat : (filterOrphans messages).flatMap Message.toolUses = ids :=
    hdrop.flatMap_toolUses.trans huses
  refine ⟨hsep'.dropsInert hdrop, fun m hm x hx => ?_, hflat⟩
  obtain ⟨m', -, rfl⟩ := List.mem_map.mp (hdrop.mem m hm)
  rw [hflat]
  rw [toolResults_retainBlocks, List.mem_filter] at hx
  exact of_decide_eq_true hx.2

/-! ### The tool-use index -/

theorem mem_assistantUses {messages : List Message} {id : String} {k : Nat} :
    (id, k) ∈ assistantUses messages ↔
      ∃ m, messages[k]? = some m ∧ m.role = .assistant ∧ id ∈ m.toolUses := by
  simp only [assistantUses, List.mem_flatMap, Prod.exists, List.mem_zipIdx_iff_getElem?]
  constructor
  · rintro ⟨m, idx, hm, hmem⟩
    split at hmem
    · rename_i hrole
      obtain ⟨id', hid', heq⟩ := List.mem_map.mp hmem
      obtain ⟨rfl, rfl⟩ := Prod.mk.inj heq
      exact ⟨m, hm, hrole, hid'⟩
    · simp at hmem
  · rintro ⟨m, hm, hrole, hid⟩
    exact ⟨m, k, hm, by simpa [hrole] using hid⟩

/-- The ids of the index are the ToolUse ids, in order. -/
theorem fst_assistantUses {messages : List Message} (hsep : Separated messages) :
    (assistantUses messages).map Prod.fst = messages.flatMap Message.toolUses := by
  have hstep : ∀ p ∈ messages.zipIdx,
      ((if p.1.role = .assistant then p.1.toolUses.map (·, p.2) else []).map Prod.fst)
        = p.1.toolUses := by
    rintro ⟨m, idx⟩ hp
    have hm : m ∈ messages := List.mem_of_getElem? (List.mem_zipIdx_iff_getElem?.mp hp)
    by_cases hrole : m.role = .assistant
    · simp [hrole, Function.comp_def]
    · simp [hrole, hsep.uses_nil hm hrole]
  have hflat : (assistantUses messages).map Prod.fst
      = messages.zipIdx.flatMap fun p => p.1.toolUses := by
    rw [assistantUses, List.map_flatMap]
    exact List.flatMap_congr hstep
  have hfst : messages.zipIdx.flatMap (fun p => p.1.toolUses)
      = (messages.zipIdx.map Prod.fst).flatMap Message.toolUses := by
    rw [List.flatMap_map]
  rw [hflat, hfst, List.zipIdx_map_fst]

section Index

variable {messages : List Message} (hsep : Separated messages)
  (hnodup : (messages.flatMap Message.toolUses).Nodup)

include hsep hnodup

/-- With distinct ids the index finds the one message that uses an id. -/
theorem lookup_toolUseIndex {id : String} {k : Nat} :
    (toolUseIndex messages).lookup id = some k ↔
      ∃ m, messages[k]? = some m ∧ id ∈ m.toolUses := by
  have hkeys : ((toolUseIndex messages).map Prod.fst).Nodup := by
    rw [toolUseIndex, List.map_reverse, List.nodup_reverse, fst_assistantUses hsep]
    exact hnodup
  rw [lookup_eq_some_iff hkeys, toolUseIndex, List.mem_reverse, mem_assistantUses]
  constructor
  · rintro ⟨m, hm, -, hid⟩
    exact ⟨m, hm, hid⟩
  · rintro ⟨m, hm, hid⟩
    exact ⟨m, hm, hsep.uses m (List.mem_of_getElem? hm) (List.ne_nil_of_mem hid), hid⟩

/-- Two messages that use one id are the same message. -/
theorem position_unique {id : String} {i j : Nat} {m n : Message} (hm : messages[i]? = some m)
    (hn : messages[j]? = some n) (hi : id ∈ m.toolUses) (hj : id ∈ n.toolUses) : i = j := by
  have hi' := (lookup_toolUseIndex hsep hnodup).mpr ⟨m, hm, hi⟩
  have hj' := (lookup_toolUseIndex hsep hnodup).mpr ⟨n, hn, hj⟩
  exact Option.some.inj (hi'.symm.trans hj')

end Index

/-! ### Inserting results behind their calls -/

/-- The ToolResult ids of the first message. -/
def headResults : List Message → List String
  | [] => []
  | m :: _ => m.toolResults

/-- Behind a message with key `k`, attach the blocks `g k`, if any. -/
def attachAt (g : Nat → List ContentBlock) (k : Nat) (rest : List Message) : List Message :=
  if g k = [] then rest else attachBlocks (g k) rest

theorem answered_iff {open' : List String} {messages : List Message} :
    Answered open' messages ↔
      (∀ x ∈ open', x ∈ headResults messages) ∧ Answered [] messages := by
  cases messages with
  | nil => simp [Answered, headResults, List.eq_nil_iff_forall_not_mem]
  | cons m rest => simp [headResults]

section Attach

variable {bs : List ContentBlock} {open' : List String} {rest : List Message}
  (hsep : Separated rest)

include hsep

theorem placed_attachBlocks (hplaced : Placed open' rest)
    (hbs : ∀ x ∈ toolResultIds bs, x ∈ open') (huses : toolUseIds bs = []) :
    Placed open' (attachBlocks bs rest) := by
  cases rest with
  | nil => exact ⟨hbs, trivial⟩
  | cons n rest =>
      by_cases hrole : n.role = .user
      · rw [attachBlocks, if_pos hrole, placed_cons, toolUses_appendBlocks, huses,
          List.append_nil, toolResults_appendBlocks]
        refine ⟨fun x hx => ?_, hplaced.2⟩
        rcases List.mem_append.mp hx with hx | hx
        · exact hplaced.1 x hx
        · exact hbs x hx
      · rw [attachBlocks, if_neg hrole]
        have hn := hsep.results_nil List.mem_cons_self hrole
        exact ⟨hbs, by simp [hn], hplaced.2⟩

theorem answered_attachBlocks (hanswered : Answered [] rest) (huses : toolUseIds bs = []) :
    Answered [] (attachBlocks bs rest) := by
  cases rest with
  | nil => exact ⟨by simp, huses⟩
  | cons n rest =>
      by_cases hrole : n.role = .user
      · rw [attachBlocks, if_pos hrole, answered_cons, toolUses_appendBlocks, huses,
          List.append_nil]
        exact ⟨by simp, hanswered.2⟩
      · rw [attachBlocks, if_neg hrole, answered_cons, toolUses_userWithBlocks, huses]
        exact ⟨by simp, hanswered⟩

/-- The message behind holds the attached results and those it held before. -/
theorem mem_headResults_attachBlocks {x : String}
    (hx : x ∈ toolResultIds bs ∨ x ∈ headResults rest) :
    x ∈ headResults (attachBlocks bs rest) := by
  cases rest with
  | nil => simpa [headResults, attachBlocks] using hx
  | cons n rest =>
      by_cases hrole : n.role = .user
      · rw [attachBlocks, if_pos hrole, headResults, toolResults_appendBlocks, List.mem_append]
        exact hx.symm
      · have hn := hsep.results_nil List.mem_cons_self hrole
        rw [attachBlocks, if_neg hrole, headResults, toolResults_userWithBlocks]
        simpa [headResults, hn] using hx

theorem separated_attachBlocks (huses : toolUseIds bs = []) :
    Separated (attachBlocks bs rest) := by
  have hnew : Separated [Message.userWithBlocks bs] := by
    constructor <;> intro m hm hne <;> obtain rfl := List.mem_singleton.mp hm
    · exact absurd huses hne
    · rfl
  cases rest with
  | nil => exact hnew
  | cons n rest =>
      by_cases hrole : n.role = .user
      · rw [attachBlocks, if_pos hrole]
        constructor <;> intro m hm hne <;> rcases List.mem_cons.mp hm with rfl | hm
        · rw [toolUses_appendBlocks, huses, List.append_nil] at hne
          exact hsep.uses n List.mem_cons_self hne
        · exact hsep.uses m (List.mem_cons_of_mem _ hm) hne
        · exact hrole
        · exact hsep.results m (List.mem_cons_of_mem _ hm) hne
      · rw [attachBlocks, if_neg hrole]
        constructor <;> intro m hm hne <;> rcases List.mem_cons.mp hm with rfl | hm
        · exact hnew.uses _ List.mem_cons_self hne
        · exact hsep.uses m hm hne
        · exact hnew.results _ List.mem_cons_self hne
        · exact hsep.results m hm hne

omit hsep in
theorem flatMap_toolUses_attachBlocks (huses : toolUseIds bs = []) :
    (attachBlocks bs rest).flatMap Message.toolUses = rest.flatMap Message.toolUses := by
  cases rest with
  | nil => simp [attachBlocks, huses]
  | cons n rest =>
      by_cases hrole : n.role = .user
      · rw [attachBlocks, if_pos hrole]
        simp [huses]
      · rw [attachBlocks, if_neg hrole]
        simp [huses]

end Attach

/-! ### The woven history -/

section Weave

variable {g : Nat → List ContentBlock} (hg : ∀ k, toolUseIds (g k) = [])

include hg

theorem separated_weave : ∀ {xs : List (Nat × Message)}, Separated (xs.map Prod.snd) →
    Separated (weave (attachAt g) xs [])
  | [], _ => ⟨by simp, by simp⟩
  | (k, m) :: xs, hsep => by
      have ih := separated_weave hsep.cons
      have hrest : Separated (attachAt g k (weave (attachAt g) xs [])) := by
        unfold attachAt
        split
        · exact ih
        · exact separated_attachBlocks ih (hg k)
      constructor <;> intro n hn hne <;> rcases List.mem_cons.mp hn with rfl | hn
      · exact hsep.uses _ List.mem_cons_self hne
      · exact hrest.uses n hn hne
      · exact hsep.results _ List.mem_cons_self hne
      · exact hrest.results n hn hne

theorem flatMap_toolUses_weave : ∀ xs : List (Nat × Message),
    (weave (attachAt g) xs []).flatMap Message.toolUses
      = (xs.map Prod.snd).flatMap Message.toolUses
  | [] => rfl
  | (k, m) :: xs => by
      rw [weave_cons, List.flatMap_cons, List.map_cons, List.flatMap_cons,
        ← flatMap_toolUses_weave xs, attachAt]
      split
      · rfl
      · rw [flatMap_toolUses_attachBlocks (hg k)]

/-- Attaching results only behind the calls they answer keeps results placed. -/
theorem placed_weave : ∀ {xs : List (Nat × Message)} {open' : List String},
    Separated (xs.map Prod.snd) →
    (∀ x ∈ xs, ∀ id ∈ toolResultIds (g x.1), id ∈ x.2.toolUses) →
    Placed open' (xs.map Prod.snd) → Placed open' (weave (attachAt g) xs [])
  | [], _, _, _, _ => trivial
  | (k, m) :: xs, open', hsep, hmem, h => by
      have ih := placed_weave hsep.cons (fun x hx => hmem x (List.mem_cons_of_mem _ hx)) h.2
      refine ⟨h.1, ?_⟩
      unfold attachAt
      split
      · exact ih
      · exact placed_attachBlocks (separated_weave hg hsep.cons) ih
          (hmem (k, m) List.mem_cons_self) (hg k)

/-- If behind every message each of its calls has a result there or an attached
one, every call of the woven history is answered. -/
theorem answered_weave : ∀ {xs : List (Nat × Message)},
    Separated (xs.map Prod.snd) →
    (∀ front x back, xs = front ++ x :: back → ∀ id ∈ x.2.toolUses,
      id ∈ toolResultIds (g x.1) ∨ id ∈ headResults (back.map Prod.snd)) →
    Answered [] (weave (attachAt g) xs [])
  | [], _, _ => rfl
  | (k, m) :: xs, hsep, hmem => by
      have ih := answered_weave hsep.cons fun front x back heq =>
        hmem ((k, m) :: front) x back (by rw [heq]; rfl)
      have hhead : headResults (weave (attachAt g) xs []) = headResults (xs.map Prod.snd) := by
        cases xs <;> rfl
      have hopen := hmem [] (k, m) xs rfl
      rw [weave_cons, answered_cons, answered_iff, attachAt]
      refine ⟨by simp, ?_⟩
      by_cases hnil : g k = []
      · rw [if_pos hnil]
        refine ⟨fun id hid => ?_, ih⟩
        rcases hopen id hid with hid | hid
        · simp [hnil] at hid
        · rwa [hhead]
      · rw [if_neg hnil]
        have hwoven := separated_weave hg hsep.cons
        refine ⟨fun id hid => ?_, answered_attachBlocks hwoven ih (hg k)⟩
        refine mem_headResults_attachBlocks hwoven ?_
        rw [hhead]
        exact hopen id hid

end Weave

/-- **The inserting phases weave.** Grouping `entries` by key and inserting the
groups from the last position to the first attaches to each keyed message the
blocks that `entries` holds for it. -/
theorem insertGroups_eq_weave (entries : List (Nat × ContentBlock)) (pos : Nat → Nat)
    (xs : List (Nat × Message)) (hasc : (xs.map Prod.fst).Pairwise (· < ·))
    (hsub : ∀ e ∈ entries, e.1 ∈ xs.map Prod.fst)
    (hpos : ∀ front x back, xs = front ++ x :: back → valuesAt entries x.1 ≠ [] →
      pos x.1 = front.length) :
    (sortDescending (groupEntries entries)).foldl
        (fun msgs group => insertBehind msgs (pos group.1) group.2) (xs.map Prod.snd)
      = weave (attachAt (valuesAt entries)) xs [] := by
  have hkey : ∀ k, k ∈ (sortDescending (groupEntries entries)).map Prod.fst ↔
      valuesAt entries k ≠ [] := by
    intro k
    simp only [List.mem_map, mem_sortDescending, Prod.exists, exists_and_right,
      exists_eq_right, mem_groupEntries]
  -- each group holds the values of its key, so the fold runs over the keys alone
  have hfold : (sortDescending (groupEntries entries)).foldl
        (fun msgs group => insertBehind msgs (pos group.1) group.2) (xs.map Prod.snd)
      = ((sortDescending (groupEntries entries)).map Prod.fst).foldl
        (fun l k => editBehind l (pos k) (attachBlocks (valuesAt entries k)))
        (xs.map Prod.snd ++ []) := by
    rw [List.foldl_map, List.append_nil]
    refine List.foldl_ext _ _ _ fun msgs group hmem => ?_
    obtain ⟨-, heq⟩ := mem_groupEntries.mp (mem_sortDescending.mp hmem)
    rw [insertBehind, heq]
  rw [hfold, foldl_editBehind (fun k => attachBlocks (valuesAt entries k)) pos _ xs []
    (pairwise_sortDescending (groupEntries_spec entries).1) hasc]
  · refine weave_congr (fun x _ => funext fun rest => ?_) []
    by_cases hx : valuesAt entries x.1 = []
    · have hout := mt (hkey x.1).mp (not_not_intro hx)
      simp only [if_neg hout, attachAt, if_pos hx, id_eq]
    · simp only [if_pos ((hkey x.1).mpr hx), attachAt, if_neg hx]
  · intro k hk
    obtain ⟨v, hv⟩ := List.exists_mem_of_ne_nil _ ((hkey k).mp hk)
    exact hsub (k, v) (mem_valuesAt.mp hv)
  · exact fun front x back heq hx => hpos front x back heq ((hkey x.1).mp hx)

/-! ### Phase 2b -/

theorem mem_misplacedResults {messages : List Message} {j k : Nat} {id : String}
    {b : ContentBlock} : (j, id, b, k) ∈ misplacedResults messages ↔
      ∃ m, messages[j]? = some m ∧ m.role = .user ∧ b ∈ m.content.blockList ∧
        b.resultId? = some id ∧ (toolUseIndex messages).lookup id = some k ∧ j ≠ k + 1 := by
  simp only [misplacedResults, List.mem_flatMap, Prod.exists, List.mem_zipIdx_iff_getElem?]
  constructor
  · rintro ⟨m, idx, hm, hmem⟩
    split at hmem
    · rename_i hrole
      obtain ⟨b', hb', heq⟩ := List.mem_filterMap.mp hmem
      cases b' with
      | toolResult id' name content isError =>
          simp only [misplacedBlock] at heq
          split at heq
          · rename_i k' hlookup
            split at heq
            · rename_i hne
              obtain ⟨rfl, rfl, rfl, rfl⟩ := by simpa using heq
              exact ⟨m, hm, hrole, hb', rfl, hlookup, hne⟩
            · simp at heq
          · simp at heq
      | _ => simp [misplacedBlock] at heq
    · simp at hmem
  · rintro ⟨m, hm, hrole, hb, hid, hlookup, hne⟩
    refine ⟨m, j, hm, ?_⟩
    rw [if_pos hrole, List.mem_filterMap]
    refine ⟨b, hb, ?_⟩
    cases b with
    | toolResult id' name content isError =>
        obtain rfl : id' = id := by simpa [ContentBlock.resultId?] using hid
        simp [misplacedBlock, hlookup, hne]
    | _ => simp [ContentBlock.resultId?] at hid

/-- The history after the misplaced results are taken out, each message under its
original position. -/
def keyedKept (messages : List Message) (sources : List (Nat × String)) :
    List (Nat × Message) :=
  (messages.zipIdx.map fun p => (p.2, removeMisplaced sources p.1 p.2)).filter
    fun x => hasContent x.2

section Reorder

variable {messages : List Message} {sources : List (Nat × String)}

@[simp] theorem role_removeMisplaced (m : Message) (idx : Nat) :
    (removeMisplaced sources m idx).role = m.role := by
  unfold removeMisplaced
  split
  · exact role_retainBlocks _ m
  · rfl

@[simp] theorem toolUses_removeMisplaced (m : Message) (idx : Nat) :
    (removeMisplaced sources m idx).toolUses = m.toolUses := by
  unfold removeMisplaced
  split
  · exact toolUses_retainBlocks _ m
  · rfl

theorem toolResults_removeMisplaced {m : Message} (idx : Nat) (hrole : m.role = .user) :
    (removeMisplaced sources m idx).toolResults
      = m.toolResults.filter fun id => decide ((idx, id) ∉ sources) := by
  rw [removeMisplaced, if_pos hrole, toolResults_retainBlocks]

theorem snd_keyedKept : (keyedKept messages sources).map Prod.snd
    = (messages.zipIdx.map fun p => removeMisplaced sources p.1 p.2).filter hasContent := by
  rw [keyedKept, List.filter_map, List.filter_map, List.map_map]
  rfl

/-- Original positions stay in ascending order. -/
theorem pairwise_fst_keyedKept :
    ((keyedKept messages sources).map Prod.fst).Pairwise (· < ·) := by
  have hsub : ((keyedKept messages sources).map Prod.fst).Sublist
      ((messages.zipIdx.map fun p => (p.2, removeMisplaced sources p.1 p.2)).map Prod.fst) :=
    List.filter_sublist.map _
  refine List.Pairwise.sublist hsub ?_
  have hidx : (messages.zipIdx.map fun p => (p.2, removeMisplaced sources p.1 p.2)).map Prod.fst
      = messages.zipIdx.map Prod.snd := by
    rw [List.map_map]
    rfl
  rw [hidx, List.zipIdx_map_snd]
  exact List.pairwise_lt_range'

theorem mem_keyedKept {k : Nat} {m : Message} : (k, m) ∈ keyedKept messages sources ↔
    ∃ m', messages[k]? = some m' ∧ m = removeMisplaced sources m' k ∧ hasContent m = true := by
  simp only [keyedKept, List.mem_filter, List.mem_map, Prod.exists,
    List.mem_zipIdx_iff_getElem?, Prod.mk.injEq]
  constructor
  · rintro ⟨⟨m', idx, hm', rfl, rfl⟩, hcontent⟩
    exact ⟨m', hm', rfl, hcontent⟩
  · rintro ⟨m', hm', rfl, hcontent⟩
    exact ⟨⟨m', k, hm', rfl, rfl⟩, hcontent⟩

/-- A message that uses a tool survives the removals. -/
theorem mem_keyedKept_of_use {k : Nat} {m : Message} {id : String} (hm : messages[k]? = some m)
    (hid : id ∈ m.toolUses) : (k, removeMisplaced sources m k) ∈ keyedKept messages sources := by
  refine mem_keyedKept.mpr ⟨m, hm, rfl, ?_⟩
  by_contra hempty
  have hinert := inert_of_not_hasContent (Bool.eq_false_iff.mpr hempty)
  have huses : m.toolUses = [] := (toolUses_removeMisplaced m k).symm.trans hinert.1
  simp [huses] at hid

theorem getElem?_keyedKept_map {k : Nat} {m : Message} (hm : messages[k]? = some m) :
    (messages.zipIdx.map fun p => removeMisplaced sources p.1 p.2)[k]?
      = some (removeMisplaced sources m k) := by
  simp [List.getElem?_zipIdx, hm]

/-- After the removals every result stands behind its call, if those that did not
are among the removed. -/
theorem placed_keyedKept (hsep : Separated messages)
    (hcover : ∀ j m, messages[j]? = some m → ∀ x ∈ m.toolResults, (j, x) ∉ sources →
      ∃ k n, j = k + 1 ∧ messages[k]? = some n ∧ x ∈ n.toolUses) :
    Placed [] ((keyedKept messages sources).map Prod.snd) := by
  rw [snd_keyedKept]
  refine Placed.dropsInert (dropsInert_hasContent _) (placed_iff.mpr ?_)
  have hresult : ∀ j n x,
      (messages.zipIdx.map fun p => removeMisplaced sources p.1 p.2)[j]? = some n →
      x ∈ n.toolResults → ∃ m, messages[j]? = some m ∧ x ∈ m.toolResults ∧ (j, x) ∉ sources := by
    intro j n x hn hx
    rw [List.getElem?_map, Option.map_eq_some_iff] at hn
    obtain ⟨⟨m, idx⟩, hm, rfl⟩ := hn
    rw [List.getElem?_zipIdx, Option.map_eq_some_iff] at hm
    obtain ⟨m', hm', heq⟩ := hm
    obtain ⟨rfl, rfl⟩ := Prod.mk.inj heq
    have hrole : m'.role = .user := by
      by_contra hrole
      simp [removeMisplaced, hrole, hsep.results_nil (List.mem_of_getElem? hm') hrole] at hx
    rw [toolResults_removeMisplaced _ hrole, List.mem_filter] at hx
    exact ⟨m', hm', hx.1, by simpa using of_decide_eq_true hx.2⟩
  constructor
  · intro n hn x hx
    obtain ⟨m, hm, hxm, hout⟩ := hresult 0 n x hn hx
    obtain ⟨k, -, hk, -⟩ := hcover 0 m hm x hxm hout
    omega
  · intro j n hn x hx
    obtain ⟨m, hm, hxm, hout⟩ := hresult (j + 1) n x hn hx
    obtain ⟨k, m', hk, hm', hx'⟩ := hcover (j + 1) m hm x hxm hout
    obtain rfl : j = k := by omega
    exact ⟨_, getElem?_keyedKept_map hm', by simpa using hx'⟩

theorem separated_keyedKept (hsep : Separated messages) :
    Separated ((keyedKept messages sources).map Prod.snd) := by
  constructor <;> intro m hm hne <;> obtain ⟨⟨k, m⟩, hk, rfl⟩ := List.mem_map.mp hm <;>
    obtain ⟨m', hm', rfl, -⟩ := mem_keyedKept.mp hk
  · simpa using hsep.uses m' (List.mem_of_getElem? hm') (by simpa using hne)
  · have hrole : m'.role = .user := by
      by_contra hrole
      simp [removeMisplaced, hrole, hsep.results_nil (List.mem_of_getElem? hm') hrole] at hne
    simpa using hrole

theorem flatMap_toolUses_keyedKept :
    ((keyedKept messages sources).map Prod.snd).flatMap Message.toolUses
      = messages.flatMap Message.toolUses := by
  have hmap : (messages.zipIdx.map fun p => removeMisplaced sources p.1 p.2).flatMap
      Message.toolUses = (messages.zipIdx.map Prod.fst).flatMap Message.toolUses := by
    rw [List.flatMap_map, List.flatMap_map]
    simp
  rw [snd_keyedKept, (dropsInert_hasContent _).flatMap_toolUses, hmap, List.zipIdx_map_fst]

end Reorder

/-- The position map of the source finds each kept message that is a target. -/
theorem lookup_positions {messages : List Message} {sources : List (Nat × String)}
    (hsep : Separated messages) (hnodup : (messages.flatMap Message.toolUses).Nodup)
    {front back : List (Nat × Message)} {x : Nat × Message}
    (heq : keyedKept messages sources = front ++ x :: back) {id : String}
    (hid : id ∈ x.2.toolUses) :
    (currentAssistantPositions (toolUseIndex messages)
        ((keyedKept messages sources).map Prod.snd)).lookup x.1 = some front.length := by
  have hsep' : Separated ((keyedKept messages sources).map Prod.snd) := separated_keyedKept hsep
  have horig : ∀ k m id', (k, m) ∈ keyedKept messages sources → id' ∈ m.toolUses →
      (toolUseIndex messages).lookup id' = some k := by
    intro k m id' hk hid'
    obtain ⟨m', hm', rfl, -⟩ := mem_keyedKept.mp hk
    exact (lookup_toolUseIndex hsep hnodup).mpr ⟨m', hm', by simpa using hid'⟩
  have hx : x ∈ keyedKept messages sources := heq ▸ by simp
  have hat : ∀ (p : Nat) (m : Message), ((keyedKept messages sources).map Prod.snd)[p]? = some m →
      ∃ k, (keyedKept messages sources)[p]? = some (k, m) := by
    intro p m hm
    rw [List.getElem?_map, Option.map_eq_some_iff] at hm
    obtain ⟨⟨k, m'⟩, hk, rfl⟩ := hm
    exact ⟨k, hk⟩
  refine lookup_of_unique ?_ ?_
  · rw [currentAssistantPositions, List.mem_reverse, List.mem_filterMap]
    refine ⟨(id, front.length), mem_assistantUses.mpr ⟨x.2, by simp [heq], ?_, hid⟩, ?_⟩
    · exact hsep'.uses x.2 (List.mem_map_of_mem hx) (List.ne_nil_of_mem hid)
    · simp [horig x.1 x.2 id hx hid]
  · intro p hp
    rw [currentAssistantPositions, List.mem_reverse, List.mem_filterMap] at hp
    obtain ⟨⟨id', p'⟩, hmem, hmap⟩ := hp
    obtain ⟨m, hm, -, hid'⟩ := mem_assistantUses.mp hmem
    obtain ⟨k, hk⟩ := hat p' m hm
    rw [horig k m id' (List.mem_of_getElem? hk) hid'] at hmap
    obtain ⟨rfl, rfl⟩ := by simpa using hmap
    -- two entries of the kept history with one key are at one position
    have hkeys : ((keyedKept messages sources).map Prod.fst).Nodup :=
      pairwise_fst_keyedKept.imp ne_of_lt
    have hfront : ((keyedKept messages sources).map Prod.fst)[front.length]? = some x.1 := by
      simp [heq]
    have hother : ((keyedKept messages sources).map Prod.fst)[p']? = some x.1 := by
      simp [hk]
    have hlt : p' < ((keyedKept messages sources).map Prod.fst).length := by
      by_contra hge
      rw [List.getElem?_eq_none (by omega)] at hother
      simp at hother
    exact (List.getElem?_inj hlt hkeys).mp (hother.trans hfront.symm)

/-- A misplaced block is the result of a call in the message it moves behind. -/
theorem target_misplacedEntries {messages : List Message} (hsep : Separated messages)
    (hnodup : (messages.flatMap Message.toolUses).Nodup) {k : Nat} {b : ContentBlock}
    (hmem : (k, b) ∈ misplacedEntries messages) :
    ∃ id n, b.resultId? = some id ∧ messages[k]? = some n ∧ id ∈ n.toolUses := by
  obtain ⟨⟨j, id, b', k'⟩, hmis, heq⟩ := List.mem_map.mp hmem
  obtain ⟨rfl, rfl⟩ := Prod.mk.inj heq
  obtain ⟨-, -, -, -, hid, hlookup, -⟩ := mem_misplacedResults.mp hmis
  obtain ⟨n, hn, hidn⟩ := (lookup_toolUseIndex hsep hnodup).mp hlookup
  exact ⟨id, n, hid, hn, hidn⟩

theorem toolUseIds_misplacedEntries {messages : List Message} (hsep : Separated messages)
    (hnodup : (messages.flatMap Message.toolUses).Nodup) (k : Nat) :
    toolUseIds (valuesAt (misplacedEntries messages) k) = [] := by
  rw [List.eq_nil_iff_forall_not_mem]
  intro x hx
  obtain ⟨b, hb, hbx⟩ := List.mem_filterMap.mp hx
  obtain ⟨id, -, hid, -⟩ := target_misplacedEntries hsep hnodup (mem_valuesAt.mp hb)
  cases b <;> simp [ContentBlock.useId?, ContentBlock.resultId?] at hbx hid

/-- With misplaced results, phase 2b attaches them behind their calls in what is
left of the history. -/
theorem reorderToolResults_eq_weave {messages : List Message} (hsep : Separated messages)
    (hnodup : (messages.flatMap Message.toolUses).Nodup)
    (hsome : (misplacedResults messages).isEmpty = false) :
    (reorderToolResults messages).1
      = weave (attachAt (valuesAt (misplacedEntries messages)))
          (keyedKept messages (misplacedSources messages)) [] := by
  set xs := keyedKept messages (misplacedSources messages) with hxs
  set positions := currentAssistantPositions (toolUseIndex messages) (xs.map Prod.snd)
    with hpositions
  -- every target is found at its current position
  have hfind : ∀ k b, (k, b) ∈ misplacedEntries messages → ∃ n, (k, n) ∈ xs ∧
      ∀ front x back, xs = front ++ x :: back → x.1 = k → positions.lookup k = some front.length := by
    intro k b hmem
    obtain ⟨id, n, -, hn, hidn⟩ := target_misplacedEntries hsep hnodup hmem
    refine ⟨_, mem_keyedKept_of_use hn hidn, fun front x back heq hk => ?_⟩
    subst hk
    have hx : x ∈ xs := heq ▸ by simp
    obtain ⟨m', hm', hx2, -⟩ := mem_keyedKept.mp (show (x.1, x.2) ∈ _ from hx)
    obtain rfl : n = m' := Option.some.inj (hn.symm.trans hm')
    exact lookup_positions hsep hnodup heq (by rw [hx2]; simpa using hidn)
  rw [← insertGroups_eq_weave (misplacedEntries messages)
    (fun k => (positions.lookup k).getD 0) xs pairwise_fst_keyedKept]
  · have hkept : xs.map Prod.snd = (messages.zipIdx.map fun p =>
        removeMisplaced (misplacedSources messages) p.1 p.2).filter hasContent := snd_keyedKept
    simp only [reorderToolResults, hsome, Bool.false_eq_true, if_false, ← hkept, ← hpositions]
    refine List.foldl_ext _ _ _ fun msgs group hgroup => ?_
    obtain ⟨hne, hvals⟩ := mem_groupEntries.mp (mem_sortDescending.mp hgroup)
    obtain ⟨b, hb⟩ := List.exists_mem_of_ne_nil _ hne
    obtain ⟨n, hn, hlookup⟩ := hfind group.1 b (mem_valuesAt.mp (hvals ▸ hb))
    obtain ⟨front, back, hsplit⟩ := List.append_of_mem hn
    rw [hlookup front _ back hsplit rfl, Option.getD_some]
  · intro e he
    obtain ⟨n, hn, -⟩ := hfind e.1 e.2 he
    exact List.mem_map_of_mem hn
  · intro front x back heq hne
    obtain ⟨b, hb⟩ := List.exists_mem_of_ne_nil _ hne
    obtain ⟨n, -, hlookup⟩ := hfind x.1 b (mem_valuesAt.mp hb)
    rw [hlookup front x back heq rfl, Option.getD_some]

/-- **Phase 2b.** Afterwards every result stands directly behind its call. -/
theorem reorderToolResults_placed {messages : List Message} (hsep : Separated messages)
    (hnodup : (messages.flatMap Message.toolUses).Nodup) (horphan : NoOrphans messages) :
    Separated (reorderToolResults messages).1 ∧ Placed [] (reorderToolResults messages).1 ∧
      (reorderToolResults messages).1.flatMap Message.toolUses
        = messages.flatMap Message.toolUses := by
  have hindexed : ∀ m ∈ messages, ∀ x ∈ m.toolResults, ∃ k n, messages[k]? = some n ∧
      x ∈ n.toolUses ∧ (toolUseIndex messages).lookup x = some k := by
    intro m hm x hx
    obtain ⟨n, hn, hxn⟩ := List.mem_flatMap.mp (horphan m hm x hx)
    obtain ⟨k, hk⟩ := List.getElem?_of_mem hn
    exact ⟨k, n, hk, hxn, (lookup_toolUseIndex hsep hnodup).mpr ⟨n, hk, hxn⟩⟩
  -- a result that is not behind its call is listed as misplaced
  have hcover : ∀ j m, messages[j]? = some m → ∀ x ∈ m.toolResults,
      (j, x) ∉ misplacedSources messages →
      ∃ k n, j = k + 1 ∧ messages[k]? = some n ∧ x ∈ n.toolUses := by
    intro j m hm x hx hout
    have hmem := List.mem_of_getElem? hm
    obtain ⟨k, n, hk, hxn, hlookup⟩ := hindexed m hmem x hx
    refine ⟨k, n, ?_, hk, hxn⟩
    by_contra hne
    obtain ⟨name, content, isError, hb⟩ := (mem_toolResultIds _).mp hx
    exact hout (List.mem_map.mpr ⟨(j, x, .toolResult x name content isError, k),
      mem_misplacedResults.mpr ⟨m, hm, hsep.results m hmem (List.ne_nil_of_mem hx), hb, rfl,
        hlookup, hne⟩, rfl⟩)
  by_cases hnone : (misplacedResults messages).isEmpty = true
  · have hstep : (reorderToolResults messages).1 = messages := by
      simp [reorderToolResults, hnone]
    rw [hstep]
    have hout : ∀ e, e ∉ misplacedSources messages := by
      simp [misplacedSources, List.isEmpty_iff.mp hnone]
    refine ⟨hsep, placed_iff.mpr ⟨fun n hn x hx => ?_, fun j n hn x hx => ?_⟩, rfl⟩
    · obtain ⟨k, -, hk, -⟩ := hcover 0 n hn x hx (hout _)
      omega
    · obtain ⟨k, m, hk, hm, hxm⟩ := hcover (j + 1) n hn x hx (hout _)
      obtain rfl : j = k := by omega
      exact ⟨m, hm, hxm⟩
  · have hsep' : Separated ((keyedKept messages (misplacedSources messages)).map Prod.snd) :=
      separated_keyedKept hsep
    have huses := toolUseIds_misplacedEntries hsep hnodup
    rw [reorderToolResults_eq_weave hsep hnodup (by simpa using hnone)]
    refine ⟨separated_weave huses hsep', ?_, ?_⟩
    · refine placed_weave huses hsep' (fun x hx id hid => ?_) (placed_keyedKept hsep hcover)
      obtain ⟨b, hb, hbid⟩ := List.mem_filterMap.mp hid
      obtain ⟨id', n, hid', hn, hidn⟩ :=
        target_misplacedEntries hsep hnodup (mem_valuesAt.mp hb)
      obtain rfl : id' = id := Option.some.inj (hid'.symm.trans hbid)
      obtain ⟨m', hm', hx2, -⟩ := mem_keyedKept.mp (show (x.1, x.2) ∈ _ from hx)
      obtain rfl : n = m' := Option.some.inj (hn.symm.trans hm')
      rw [hx2]
      simpa using hidn
    · rw [flatMap_toolUses_weave huses, flatMap_toolUses_keyedKept]

/-! ### Phase 2c -/

/-- The history with each message under its own position. -/
def keyed (messages : List Message) : List (Nat × Message) :=
  messages.zipIdx.map fun p => (p.2, p.1)

theorem snd_keyed (messages : List Message) : (keyed messages).map Prod.snd = messages := by
  have hswap : (keyed messages).map Prod.snd = messages.zipIdx.map Prod.fst := by
    rw [keyed, List.map_map]
    rfl
  rw [hswap, List.zipIdx_map_fst]

theorem fst_keyed (messages : List Message) :
    (keyed messages).map Prod.fst = List.range' 0 messages.length := by
  have hswap : (keyed messages).map Prod.fst = messages.zipIdx.map Prod.snd := by
    rw [keyed, List.map_map]
    rfl
  rw [hswap, List.zipIdx_map_snd]

theorem getElem?_of_keyed_split {messages : List Message} {front back : List (Nat × Message)}
    {x : Nat × Message} (heq : keyed messages = front ++ x :: back) :
    x.1 = front.length ∧ messages[front.length]? = some x.2 ∧
      messages[front.length + 1]? = (back.map Prod.snd)[0]? := by
  have hsnd : messages = front.map Prod.snd ++ x.2 :: back.map Prod.snd := by
    rw [← snd_keyed messages, heq]
    simp
  have hat : (keyed messages)[front.length]? = some x := by simp [heq]
  refine ⟨?_, by simp [hsnd], ?_⟩
  · rw [keyed, List.getElem?_map, List.getElem?_zipIdx, Option.map_map,
      Option.map_eq_some_iff] at hat
    obtain ⟨m, -, hx⟩ := hat
    simp [← hx]
  · rw [hsnd, List.getElem?_append_right (by simp)]
    simp

theorem mem_syntheticEntries {messages : List Message} {k : Nat} {b : ContentBlock} :
    (k, b) ∈ syntheticEntries messages ↔ ∃ id, b = syntheticResult id ∧
      (id, k) ∈ assistantUses messages ∧ id ∉ messages.flatMap Message.toolResults := by
  simp only [syntheticEntries, orphanedUses, List.mem_map, List.mem_filter, decide_eq_true_eq, Prod.exists,
    Prod.mk.injEq]
  constructor
  · rintro ⟨id, idx, ⟨hmem, hout⟩, rfl, rfl⟩
    exact ⟨id, rfl, hmem, hout⟩
  · rintro ⟨id, rfl, hmem, hout⟩
    exact ⟨id, k, ⟨hmem, hout⟩, rfl, rfl⟩

theorem insertSyntheticResults_eq_weave (messages : List Message) :
    (insertSyntheticResults messages).1
      = weave (attachAt (valuesAt (syntheticEntries messages))) (keyed messages) [] := by
  rw [← insertGroups_eq_weave (syntheticEntries messages) id (keyed messages), snd_keyed]
  · unfold insertSyntheticResults
    split
    · rename_i hnone
      have hnil : syntheticEntries messages = [] := by
        rw [syntheticEntries, List.isEmpty_iff.mp hnone, List.map_nil]
      simp [hnil, groupEntries, sortDescending]
    · rfl
  · rw [fst_keyed]
    exact List.pairwise_lt_range'
  · intro e he
    obtain ⟨id, -, hmem, -⟩ := mem_syntheticEntries.mp (show (e.1, e.2) ∈ _ from he)
    obtain ⟨m, hm, -⟩ := mem_assistantUses.mp hmem
    rw [fst_keyed, List.mem_range'_1]
    have := (List.getElem?_eq_some_iff.mp hm).1
    omega
  · exact fun front x back heq _ => (getElem?_of_keyed_split heq).1

/-- **Phase 2c.** Afterwards every call has a result behind it. -/
theorem insertSyntheticResults_answered {messages : List Message} (hsep : Separated messages)
    (hnodup : (messages.flatMap Message.toolUses).Nodup) (hplaced : Placed [] messages) :
    Separated (insertSyntheticResults messages).1 ∧ Placed [] (insertSyntheticResults messages).1 ∧
      Answered [] (insertSyntheticResults messages).1 ∧
      (insertSyntheticResults messages).1.flatMap Message.toolUses
        = messages.flatMap Message.toolUses := by
  have huses : ∀ k, toolUseIds (valuesAt (syntheticEntries messages) k) = [] := by
    intro k
    rw [List.eq_nil_iff_forall_not_mem]
    intro x hx
    obtain ⟨b, hb, hbx⟩ := List.mem_filterMap.mp hx
    obtain ⟨id, rfl, -⟩ := mem_syntheticEntries.mp (mem_valuesAt.mp hb)
    simp [syntheticResult, ContentBlock.useId?] at hbx
  have hsep' : Separated ((keyed messages).map Prod.snd) := by rwa [snd_keyed]
  rw [insertSyntheticResults_eq_weave]
  refine ⟨separated_weave huses hsep', placed_weave huses hsep' ?_ (by rwa [snd_keyed]),
    answered_weave huses hsep' ?_, by rw [flatMap_toolUses_weave huses, snd_keyed]⟩
  · intro x hx id hid
    obtain ⟨b, hb, hbid⟩ := List.mem_filterMap.mp hid
    obtain ⟨id', rfl, hmem, -⟩ := mem_syntheticEntries.mp (mem_valuesAt.mp hb)
    obtain rfl : id' = id := by simpa [syntheticResult, ContentBlock.resultId?] using hbid
    obtain ⟨m, hm, -, hidm⟩ := mem_assistantUses.mp hmem
    obtain ⟨front, back, heq⟩ := List.append_of_mem hx
    obtain ⟨hpos, hat, -⟩ := getElem?_of_keyed_split heq
    rw [hpos] at hm
    obtain rfl : m = x.2 := Option.some.inj (hm.symm.trans hat)
    exact hidm
  · intro front x back heq id hid
    obtain ⟨hpos, hat, hnext⟩ := getElem?_of_keyed_split heq
    by_cases hexist : id ∈ messages.flatMap Message.toolResults
    · -- an existing result stands behind its call, and this is the only message that calls it
      right
      obtain ⟨n, hn, hidn⟩ := List.mem_flatMap.mp hexist
      obtain ⟨j, hj⟩ := List.getElem?_of_mem hn
      cases j with
      | zero => exact absurd ((placed_iff.mp hplaced).1 n hj id hidn) (by simp)
      | succ j =>
          obtain ⟨m, hm, hidm⟩ := (placed_iff.mp hplaced).2 j n hj id hidn
          obtain rfl := position_unique hsep hnodup hat hm hid hidm
          rw [hnext] at hj
          cases hback : back.map Prod.snd with
          | nil => simp [hback] at hj
          | cons n' rest =>
              obtain rfl : n' = n := by simpa [hback] using hj
              exact hidn
    · left
      refine (mem_toolResultIds _).mpr ⟨"", "[Tool execution was interrupted or lost]", true, ?_⟩
      refine mem_valuesAt.mpr (mem_syntheticEntries.mpr ⟨id, rfl, ?_, hexist⟩)
      rw [hpos]
      exact mem_assistantUses.mpr
        ⟨x.2, hat, hsep.uses x.2 (List.mem_of_getElem? hat) (List.ne_nil_of_mem hid), hid⟩

/-! ### Phase 2d -/

/-- One pass over a block list: calls stay, and of the results for an id the first
unseen one stays. -/
theorem dedupBlocks_spec : ∀ (seen : List String) (bs : List ContentBlock),
    toolUseIds (dedupBlocks seen bs).1 = toolUseIds bs ∧
    (∀ x, x ∈ (dedupBlocks seen bs).2 ↔ x ∈ seen ∨ x ∈ toolResultIds bs) ∧
    (∀ x, (toolResultIds (dedupBlocks seen bs).1).count x
      = if x ∈ toolResultIds bs ∧ x ∉ seen then 1 else 0)
  | seen, [] => by simp [dedupBlocks]
  | seen, b :: bs => by
      have other : b.resultId? = none →
          dedupBlocks seen (b :: bs) = (b :: (dedupBlocks seen bs).1, (dedupBlocks seen bs).2) := by
        intro hb
        cases b <;> first | rfl | simp [ContentBlock.resultId?] at hb
      cases hb : b.resultId? with
      | none =>
          obtain ⟨huses, hseen, hcount⟩ := dedupBlocks_spec seen bs
          rw [other hb, toolUseIds_cons, toolUseIds_cons, toolResultIds_cons, toolResultIds_cons, hb]
          exact ⟨by rw [huses], hseen, hcount⟩
      | some id =>
          cases b with
          | toolResult id' name content isError =>
              obtain rfl : id' = id := by simpa [ContentBlock.resultId?] using hb
              by_cases hold : id' ∈ seen
              · obtain ⟨huses, hseen, hcount⟩ := dedupBlocks_spec seen bs
                rw [dedupBlocks, if_pos hold, toolUseIds_cons, toolResultIds_cons]
                refine ⟨by simp [huses, ContentBlock.useId?], fun x => ?_, fun x => ?_⟩
                · rw [hseen]
                  by_cases hx : x = id' <;> simp [ContentBlock.resultId?, hx, hold]
                · rw [hcount]
                  by_cases hx : x = id' <;> simp [ContentBlock.resultId?, hx, hold]
              · obtain ⟨huses, hseen, hcount⟩ := dedupBlocks_spec (id' :: seen) bs
                rw [dedupBlocks, if_neg hold, toolUseIds_cons, toolUseIds_cons,
                  toolResultIds_cons, toolResultIds_cons]
                refine ⟨by simp [huses, ContentBlock.useId?], fun x => ?_, fun x => ?_⟩
                · rw [hseen]
                  by_cases hx : x = id' <;> simp [ContentBlock.resultId?, hx]
                · rw [List.count_append, hcount]
                  by_cases hx : x = id'
                  · simp [ContentBlock.resultId?, hx, hold]
                  · simp [ContentBlock.resultId?, hx, Ne.symm hx]
          | _ => simp [ContentBlock.resultId?] at hb

/-- A result is dropped only where its id was seen before, and an id is seen only
behind its call; so every call keeps exactly one result. -/
theorem dedupMessages_paired : ∀ {messages : List Message} {open' seen : List String},
    Placed open' messages → Answered open' messages →
    (messages.flatMap Message.toolUses).Nodup →
    (∀ x ∈ open', x ∉ seen ∧ x ∉ messages.flatMap Message.toolUses) →
    (∀ x ∈ messages.flatMap Message.toolUses, x ∉ seen) →
    Paired open' (dedupMessages seen messages)
  | [], _, _, _, hanswered, _, _, _ => hanswered
  | m :: rest, open', seen, hplaced, hanswered, hnodup, hopen, hfresh => by
      rw [List.flatMap_cons, List.nodup_append] at hnodup
      obtain ⟨-, hnodup', hdisj⟩ := hnodup
      simp only [List.flatMap_cons, List.mem_append, not_or] at hopen hfresh
      obtain ⟨role, content | bs, ctx⟩ := m
      · refine ⟨hplaced.1, fun x hx => absurd (hanswered.1 x hx) (by
          simp [Message.toolResults, MessageContent.blockList]), ?_⟩
        exact dedupMessages_paired hplaced.2 hanswered.2 hnodup'
          (by simp [Message.toolUses, MessageContent.blockList])
          fun x hx => hfresh x (.inr hx)
      · obtain ⟨huses, hseen, hcount⟩ := dedupBlocks_spec seen bs
        have hplaced1 : ∀ x ∈ toolResultIds bs, x ∈ open' := hplaced.1
        have hanswered1 : ∀ x ∈ open', x ∈ toolResultIds bs := hanswered.1
        have hnew : ∀ x, x ∈ seen ∨ x ∈ open' → x ∉ toolUseIds bs ∧
            x ∉ rest.flatMap Message.toolUses := by
          rintro x (hx | hx)
          · exact ⟨fun h => hfresh x (.inl h) hx, fun h => hfresh x (.inr h) hx⟩
          · exact (hopen x hx).2
        refine ⟨fun x hx => ?_, fun x hx => ?_, ?_⟩
        · have hpos := List.count_pos_iff.mpr hx
          rw [Message.toolResults] at hpos
          simp only [MessageContent.blockList, hcount] at hpos
          split at hpos
          · rename_i h
            exact hplaced1 x h.1
          · omega
        · rw [Message.toolResults]
          simp only [MessageContent.blockList, hcount]
          rw [if_pos ⟨hanswered1 x hx, (hopen x hx).1⟩]
        · have hnext : (Message.mk role (.blocks (dedupBlocks seen bs).1) ctx).toolUses
              = toolUseIds bs := huses
          rw [hnext]
          refine dedupMessages_paired hplaced.2 hanswered.2 hnodup' (fun x hx => ⟨?_, ?_⟩)
            fun x hx hx' => ?_
          · rw [hseen]
            rintro (hx' | hx')
            · exact (hnew x (.inl hx')).1 hx
            · exact (hnew x (.inr (hplaced1 x hx'))).1 hx
          · exact fun hx' => hdisj x hx x hx' rfl
          · rcases (hseen x).mp hx' with hx' | hx'
            · exact (hnew x (.inl hx')).2 hx
            · exact (hnew x (.inr (hplaced1 x hx'))).2 hx

theorem role_dedupMessages : ∀ (seen : List String) {messages : List Message},
    Separated messages → Separated (dedupMessages seen messages)
  | _, [], h => h
  | seen, m :: rest, h => by
      obtain ⟨role, content | bs, ctx⟩ := m
      · have ih := role_dedupMessages seen h.cons
        constructor <;> intro n hn hne <;> rcases List.mem_cons.mp hn with rfl | hn
        · exact absurd rfl hne
        · exact ih.uses n hn hne
        · exact absurd rfl hne
        · exact ih.results n hn hne
      · have ih := role_dedupMessages (dedupBlocks seen bs).2 h.cons
        obtain ⟨huses, -, hcount⟩ := dedupBlocks_spec seen bs
        constructor <;> intro n hn hne <;> rcases List.mem_cons.mp hn with rfl | hn
        · exact h.uses ⟨role, .blocks bs, ctx⟩ List.mem_cons_self fun hnil =>
            hne (huses.trans hnil)
        · exact ih.uses n hn hne
        · refine h.results ⟨role, .blocks bs, ctx⟩ List.mem_cons_self fun hnil => ?_
          obtain ⟨x, hx⟩ := List.exists_mem_of_ne_nil _ hne
          have hpos := List.count_pos_iff.mpr hx
          have hbs : toolResultIds bs = [] := hnil
          rw [Message.toolResults] at hpos
          simp [MessageContent.blockList, hcount, hbs] at hpos
        · exact ih.results n hn hne

theorem flatMap_toolUses_dedupMessages : ∀ (seen : List String) (messages : List Message),
    (dedupMessages seen messages).flatMap Message.toolUses = messages.flatMap Message.toolUses
  | _, [] => rfl
  | seen, m :: rest => by
      obtain ⟨role, content | bs, ctx⟩ := m
      · simp only [dedupMessages, List.flatMap_cons, flatMap_toolUses_dedupMessages]
      · have huses : (Message.mk role (.blocks (dedupBlocks seen bs).1) ctx).toolUses =
            (Message.mk role (.blocks bs) ctx).toolUses := (dedupBlocks_spec seen bs).1
        simp only [dedupMessages, List.flatMap_cons, huses, flatMap_toolUses_dedupMessages]

theorem flatMap_toolUses_deduplicate (messages : List Message) :
    (deduplicateToolResults messages).1.flatMap Message.toolUses =
      messages.flatMap Message.toolUses :=
  (dropsInert_hasContent (dedupMessages [] messages)).flatMap_toolUses.trans
    (flatMap_toolUses_dedupMessages [] messages)

/-- **Phase 2d.** Afterwards the history is paired. -/
theorem deduplicateToolResults_paired {messages : List Message} (hsep : Separated messages)
    (hnodup : (messages.flatMap Message.toolUses).Nodup) (hplaced : Placed [] messages)
    (hanswered : Answered [] messages) :
    Separated (deduplicateToolResults messages).1 ∧
      Paired [] (deduplicateToolResults messages).1 := by
  have hdrop := dropsInert_hasContent (dedupMessages [] messages)
  exact ⟨(role_dedupMessages [] hsep).dropsInert hdrop,
    (dedupMessages_paired hplaced hanswered hnodup (by simp) (by simp)).dropsInert hdrop⟩

/-! ### Phase 2e -/

/-- A blank message has no tool blocks. -/
theorem inert_of_blank {m : Message} (h : isEmptyOrBlankContent m.content = true) : Inert m := by
  obtain ⟨role, content | bs, ctx⟩ := m
  · exact ⟨rfl, rfl⟩
  · have hall : ∀ b ∈ bs, isBlankBlock b = true := by
      intro b hb
      rcases Bool.or_eq_true_iff.mp h with hnil | hall
      · rw [List.isEmpty_iff.mp hnil] at hb
        simp at hb
      · exact List.all_eq_true.mp hall b hb
    refine ⟨List.filterMap_eq_nil_iff.mpr fun b hb => ?_,
      List.filterMap_eq_nil_iff.mpr fun b hb => ?_⟩ <;>
      · have := hall b hb
        cases b <;> first | rfl | simp [isBlankBlock] at this

/-- Phase 2e drops only blank Assistant messages. -/
theorem dropsOnly_removeAborted (messages : List Message) :
    DropsOnly (fun m => m.role = .assistant ∧ isEmptyOrBlankContent m.content = true) messages
      (removeAbortedAssistantMessages messages) := by
  unfold removeAbortedAssistantMessages
  split
  · exact .refl messages
  · refine .filter_zipIdx ?_
    rintro ⟨m, i⟩ - hx
    have hdropped := Bool.and_eq_true_iff.mp (Bool.not_eq_eq_eq_not.mp hx)
    obtain ⟨hrole, hblank⟩ := Bool.and_eq_true_iff.mp hdropped.1
    exact ⟨of_decide_eq_true hrole, hblank⟩

theorem dropsInert_removeAborted (messages : List Message) :
    DropsInert messages (removeAbortedAssistantMessages messages) :=
  dropsInert_iff.mpr ((dropsOnly_removeAborted messages).mono fun _ _ h => inert_of_blank h.2)

/-! ### Phase 3 -/

@[simp] theorem toolUses_mergeContent (dst src : Message) :
    (mergeContent dst src).toolUses = dst.toolUses ++ src.toolUses := by
  simp [mergeContent, Message.toolUses, MessageContent.blockList]

@[simp] theorem toolResults_mergeContent (dst src : Message) :
    (mergeContent dst src).toolResults = dst.toolResults ++ src.toolResults := by
  simp [mergeContent, Message.toolResults, MessageContent.blockList]

@[simp] theorem role_mergeContent (dst src : Message) :
    (mergeContent dst src).role = dst.role := rfl

theorem separated_mergeContent {front rest : List Message} {last msg : Message}
    (h : Separated (front ++ last :: msg :: rest)) (hrole : last.role = msg.role) :
    Separated (front ++ mergeContent last msg :: rest) := by
  have hlast : last ∈ front ++ last :: msg :: rest := by simp
  have hmsg : msg ∈ front ++ last :: msg :: rest := by simp
  have hother : ∀ n ∈ front ++ mergeContent last msg :: rest, n ≠ mergeContent last msg →
      n ∈ front ++ last :: msg :: rest := by
    intro n hn hne
    rcases List.mem_append.mp hn with hn | hn
    · exact List.mem_append_left _ hn
    · rcases List.mem_cons.mp hn with rfl | hn
      · exact absurd rfl hne
      · simp [hn]
  constructor <;> intro n hn hne <;> by_cases heq : n = mergeContent last msg
  · subst heq
    rw [toolUses_mergeContent] at hne
    by_cases hnil : last.toolUses = []
    · exact hrole.trans (h.uses msg hmsg (by simpa [hnil] using hne))
    · exact h.uses last hlast hnil
  · exact h.uses n (hother n hn heq) hne
  · subst heq
    rw [toolResults_mergeContent] at hne
    by_cases hnil : last.toolResults = []
    · exact hrole.trans (h.results msg hmsg (by simpa [hnil] using hne))
    · exact h.results last hlast hnil
  · exact h.results n (hother n hn heq) hne

/-- Two adjacent messages of one role never stand between a call and its result,
so merging them keeps the pairing. -/
theorem paired_mergeContent {last msg : Message} {rest : List Message}
    (hrole : last.role = msg.role) :
    ∀ {front : List Message} {open' : List String},
      Separated (front ++ last :: msg :: rest) → Paired open' (front ++ last :: msg :: rest) →
      Paired open' (front ++ mergeContent last msg :: rest)
  | [], open', hsep, h => by
      obtain ⟨hresults, hcount, hrest⟩ := h
      have huses : last.toolUses = [] := by
        by_contra hne
        have hlast := hsep.uses last (by simp) hne
        have hmsg := hsep.results msg (by simp) (hrest.head_results hne)
        rw [hlast, hmsg] at hrole
        cases hrole
      have hmsg : msg.toolResults = [] := by
        rw [List.eq_nil_iff_forall_not_mem]
        intro x hx
        exact absurd (hrest.1 x hx) (by simp [huses])
      simp only [List.nil_append, paired_cons, toolUses_mergeContent, toolResults_mergeContent,
        huses, hmsg, List.append_nil]
      exact ⟨hresults, hcount, hrest.2.2⟩
  | m :: front, open', hsep, h =>
      ⟨h.1, h.2.1, paired_mergeContent hrole hsep.cons h.2.2⟩

/-- The merge loop: what is merged so far, followed by what is left, stays
separated and paired, and the merged part alternates. -/
theorem foldl_mergeStep : ∀ {messages merged : List Message},
    Separated (merged ++ messages) → Paired [] (merged ++ messages) →
    merged.IsChain (fun a b => a.role ≠ b.role) →
    Separated (messages.foldl mergeStep merged) ∧ Paired [] (messages.foldl mergeStep merged) ∧
      (messages.foldl mergeStep merged).IsChain fun a b => a.role ≠ b.role
  | [], merged, hsep, hpaired, halt => by
      rw [List.append_nil] at hsep hpaired
      exact ⟨hsep, hpaired, halt⟩
  | msg :: rest, merged, hsep, hpaired, halt => by
      rw [List.foldl_cons]
      cases merged using List.reverseRecOn with
      | nil => exact foldl_mergeStep hsep hpaired (List.isChain_singleton msg)
      | append_singleton front last =>
          by_cases hrole : last.role = msg.role
          · have hstep : mergeStep (front ++ [last]) msg = front ++ [mergeContent last msg] := by
              simp [mergeStep, hrole]
            rw [List.append_assoc, List.singleton_append] at hsep hpaired
            rw [hstep]
            refine foldl_mergeStep ?_ ?_ ?_
            · simpa using separated_mergeContent hsep hrole
            · simpa using paired_mergeContent hrole hsep hpaired
            · rw [List.isChain_append] at halt ⊢
              exact ⟨halt.1, List.isChain_singleton _, by simpa using halt.2.2⟩
          · have hstep : mergeStep (front ++ [last]) msg = front ++ [last] ++ [msg] := by
              simp [mergeStep, hrole]
            rw [hstep]
            refine foldl_mergeStep (by simpa using hsep) (by simpa using hpaired) ?_
            rw [List.isChain_append]
            exact ⟨halt, List.isChain_singleton _, by simpa using hrole⟩

theorem flatMap_toolUses_foldl_mergeStep : ∀ messages merged : List Message,
    (messages.foldl mergeStep merged).flatMap Message.toolUses =
      merged.flatMap Message.toolUses ++ messages.flatMap Message.toolUses
  | [], merged => by simp
  | msg :: rest, merged => by
      rw [List.foldl_cons, flatMap_toolUses_foldl_mergeStep rest]
      cases merged using List.reverseRecOn with
      | nil => simp [mergeStep]
      | append_singleton front last =>
          by_cases hrole : last.role = msg.role <;> simp [mergeStep, hrole]

/-! ### The pipeline -/

theorem validateAndRepair_eq (messages : List Message) : validateAndRepair messages
    = mergeConsecutive (removeAbortedAssistantMessages (deduplicateToolResults
        (insertSyntheticResults (reorderToolResults (filterOrphans messages)).1).1).1) := by
  simp only [validateAndRepair, validateAndRepairWithStats]

/-- **Session repair pairs a separated history.** -/
theorem validateAndRepair_paired {messages : List Message} (hsep : Separated messages)
    (hnodup : (messages.flatMap Message.toolUses).Nodup) :
    Separated (validateAndRepair messages) ∧ Paired [] (validateAndRepair messages) ∧
      (validateAndRepair messages).IsChain fun a b => a.role ≠ b.role := by
  rw [validateAndRepair_eq]
  obtain ⟨hsep1, horphan, huses1⟩ := filterOrphans_spec hsep
  have hnodup1 : ((filterOrphans messages).flatMap Message.toolUses).Nodup := by
    rw [huses1]
    exact hnodup
  generalize filterOrphans messages = cleaned at *
  obtain ⟨hsep2, hplaced2, huses2⟩ := reorderToolResults_placed hsep1 hnodup1 horphan
  rw [← huses2] at hnodup1
  generalize (reorderToolResults cleaned).1 = reordered at *
  obtain ⟨hsep3, hplaced3, hanswered3, huses3⟩ :=
    insertSyntheticResults_answered hsep2 hnodup1 hplaced2
  rw [← huses3] at hnodup1
  generalize (insertSyntheticResults reordered).1 = answered at *
  obtain ⟨hsep4, hpaired4⟩ := deduplicateToolResults_paired hsep3 hnodup1 hplaced3 hanswered3
  have hdrop := dropsInert_removeAborted (deduplicateToolResults answered).1
  exact foldl_mergeStep (hsep4.dropsInert hdrop) (hpaired4.dropsInert hdrop) List.isChain_nil

theorem paired_validateAndRepair {messages : List Message} (hsep : Separated messages)
    (hnodup : (messages.flatMap Message.toolUses).Nodup) :
    Paired [] (validateAndRepair messages) :=
  (validateAndRepair_paired hsep hnodup).2.1

/-- Session repair keeps every ToolUse of a separated history, in order. -/
theorem flatMap_toolUses_validateAndRepair {messages : List Message} (hsep : Separated messages)
    (hnodup : (messages.flatMap Message.toolUses).Nodup) :
    (validateAndRepair messages).flatMap Message.toolUses =
      messages.flatMap Message.toolUses := by
  rw [validateAndRepair_eq]
  obtain ⟨hsep1, horphan, huses1⟩ := filterOrphans_spec hsep
  rw [← huses1] at hnodup ⊢
  generalize filterOrphans messages = cleaned at *
  obtain ⟨hsep2, hplaced2, huses2⟩ := reorderToolResults_placed hsep1 hnodup horphan
  rw [← huses2] at hnodup ⊢
  generalize (reorderToolResults cleaned).1 = reordered at *
  obtain ⟨-, -, -, huses3⟩ := insertSyntheticResults_answered hsep2 hnodup hplaced2
  rw [← huses3]
  generalize (insertSyntheticResults reordered).1 = answered at *
  rw [mergeConsecutive, flatMap_toolUses_foldl_mergeStep,
    (dropsInert_removeAborted (deduplicateToolResults answered).1).flatMap_toolUses,
    flatMap_toolUses_deduplicate]
  rfl

theorem keepsCalls_validateAndRepair (messages : List Message) :
    KeepsCalls messages (validateAndRepair messages) := by
  intro hsep hnodup
  refine ⟨(validateAndRepair_paired hsep hnodup).1, ?_⟩
  rw [flatMap_toolUses_validateAndRepair hsep hnodup]

/-- What a repaired list promises: adjacent messages have different roles, every
ToolUse of an Assistant message is answered by exactly one ToolResult in the next
message, a User message, and no other ToolResult occurs. -/
structure PairsEveryCall (repaired : List Message) : Prop where
  alternates : ∀ (i : Nat) (m n : Message), repaired[i]? = some m → repaired[i + 1]? = some n →
    m.role ≠ n.role
  answered : ∀ (i : Nat) (m : Message), repaired[i]? = some m → m.role = .assistant →
    ∀ x ∈ m.toolUses, ∃ n : Message, repaired[i + 1]? = some n ∧ n.role = .user ∧
      n.toolResults.count x = 1
  answers : ∀ (j : Nat) (n : Message), repaired[j]? = some n → ∀ x ∈ n.toolResults,
    ∃ (i : Nat) (m : Message), j = i + 1 ∧ repaired[i]? = some m ∧ m.role = .assistant ∧
      x ∈ m.toolUses

theorem PairsEveryCall.of_paired {repaired : List Message} (h : Separated repaired ∧
    Paired [] repaired ∧ repaired.IsChain fun a b => a.role ≠ b.role) :
    PairsEveryCall repaired := by
  obtain ⟨hsep, hpaired, halt⟩ := h
  obtain ⟨answered, answers⟩ := wellPaired_iff.mpr hpaired
  refine ⟨fun i m n hm hn => ?_, fun i m hm _ x hx => ?_, fun j n hn x hx => ?_⟩
  · obtain ⟨hi, rfl⟩ := List.getElem?_eq_some_iff.mp hm
    obtain ⟨hi', rfl⟩ := List.getElem?_eq_some_iff.mp hn
    exact List.isChain_iff_getElem.mp halt i hi'
  · obtain ⟨n, hn, hcount⟩ := answered i m hm x hx
    have hmem : x ∈ n.toolResults := List.count_pos_iff.mp (by omega)
    exact ⟨n, hn, hsep.results n (List.mem_of_getElem? hn) (List.ne_nil_of_mem hmem), hcount⟩
  · obtain ⟨i, m, hj, hm, hx⟩ := answers j n hn x hx
    exact ⟨i, m, hj, hm, hsep.uses m (List.mem_of_getElem? hm) (List.ne_nil_of_mem hx), hx⟩

/-- **Session repair pairs every tool call**, for every history whose ToolUse
blocks are in Assistant messages under distinct ids and whose ToolResult blocks
are in User messages. -/
theorem validateAndRepair_pairs_every_call (messages : List Message)
    (hsep : Separated messages) (hnodup : (messages.flatMap Message.toolUses).Nodup) :
    PairsEveryCall (validateAndRepair messages) :=
  PairsEveryCall.of_paired (validateAndRepair_paired hsep hnodup)

/-- A history with a late, a duplicate and a missing result. -/
def tangledHistory : List Message :=
  [.user "go",
    { role := .assistant
      content := .blocks [.toolUse "a" "file_read" .null none, .toolUse "b" "file_list" .null none] },
    .user "and then?",
    .userWithBlocks [.toolResult "a" "file_read" "one" false, .toolResult "a" "file_read" "two" false]]

theorem tangledHistory_repaired : PairsEveryCall (validateAndRepair tangledHistory) :=
  validateAndRepair_pairs_every_call tangledHistory
    ⟨by simp [tangledHistory, Message.toolUses, MessageContent.blockList, toolUseIds_cons,
        Message.user, Message.userWithBlocks, ContentBlock.useId?],
      by simp [tangledHistory, Message.toolResults, MessageContent.blockList, toolResultIds_cons,
        Message.user, Message.userWithBlocks, ContentBlock.resultId?]⟩
    (by decide)

end ArmaraOS.Session
