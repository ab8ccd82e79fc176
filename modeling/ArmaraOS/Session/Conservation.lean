import ArmaraOS.Session.WellFormed

/-!
Session repair loses no conversation.

The conversation of a history is what its messages hold besides ToolResults. It is read message
by message (`turns`), since the phases before the merge neither split nor join messages and only
the removal of empty and blank ones takes blocks away; the merge joins messages of one role and
keeps the pairs of role and block. A ToolResult that is moved is the same block, and no
synthetic one is made for an id that has a result.
-/

namespace ArmaraOS.Session

open ArmaraOS.Lib

/-! ### The conversation -/

/-- The blocks of a message besides ToolResults; plain text counts as one block. -/
def saidBlocks (m : Message) : List ContentBlock :=
  (contentToBlocks m.content).filter fun b => b.resultId?.isNone

/-- The pairs of role and block of all blocks besides ToolResults. -/
def conversation (messages : List Message) : List (Role × ContentBlock) :=
  messages.flatMap fun m => (saidBlocks m).map (m.role, ·)

/-- A block that says nothing: a blank text, or an Unknown block. -/
def isSilent : ContentBlock → Bool
  | .text s _ => Text.isBlank s
  | .unknown => true
  | _ => false

/-- What a history says: its conversation without the blocks that say nothing. -/
def spoken (messages : List Message) : List (Role × ContentBlock) :=
  (conversation messages).filter fun said => !isSilent said.2

theorem spoken_append (front back : List Message) :
    spoken (front ++ back) = spoken front ++ spoken back := by
  rw [spoken, conversation, List.flatMap_append, List.filter_append]
  rfl

/-- The ToolResult blocks of a history. -/
def resultBlocks (messages : List Message) : List ContentBlock :=
  messages.flatMap fun m => m.content.blockList.filter fun b => b.resultId?.isSome

/-- An Assistant message of whitespace text and Unknown blocks. -/
def IsBlankReply (m : Message) : Prop :=
  m.role = .assistant ∧ ∀ b ∈ contentToBlocks m.content,
    b = .unknown ∨ ∃ s md, b = .text s md ∧ Text.isBlank s = true

/-- What a message adds to the conversation: nothing if it holds only ToolResults. -/
def turn? (m : Message) : Option (Role × List ContentBlock) :=
  if saidBlocks m = [] then none else some (m.role, saidBlocks m)

/-- The conversation by messages. -/
def turns (messages : List Message) : List (Role × List ContentBlock) :=
  messages.filterMap turn?

theorem conversation_eq (messages : List Message) :
    conversation messages = (turns messages).flatMap fun t => t.2.map (t.1, ·) := by
  induction messages with
  | nil => rfl
  | cons m rest ih =>
      have hhead : conversation (m :: rest) =
          (saidBlocks m).map (m.role, ·) ++ conversation rest := rfl
      rw [hhead, ih, turns, turns, List.filterMap_cons, turn?]
      by_cases hm : saidBlocks m = []
      · simp [hm]
      · simp [hm]

theorem turn?_eq_some {m : Message} {t : Role × List ContentBlock} (h : turn? m = some t) :
    t = (m.role, saidBlocks m) := by
  unfold turn? at h
  split at h
  · exact absurd h (by simp)
  · exact (Option.some.inj h).symm

theorem turn?_eq_of {m m' : Message} (hrole : m'.role = m.role)
    (hsaid : saidBlocks m' = saidBlocks m) : turn? m' = turn? m := by
  rw [turn?, turn?, hsaid, hrole]

/-- No message is an empty text. -/
def NoEmptyText (messages : List Message) : Prop :=
  ∀ m ∈ messages, m.content ≠ .text ""

/-- A message without content that is not an empty text adds nothing. -/
theorem turn?_of_not_hasContent {m : Message} (htext : m.content ≠ .text "")
    (h : hasContent m = false) : turn? m = none := by
  obtain ⟨role, content | bs, ctx⟩ := m
  · have hempty : content = "" := by simpa [hasContent] using h
    exact absurd (congrArg MessageContent.text hempty) htext
  · obtain rfl : bs = [] := by simpa [hasContent] using h
    rfl

theorem turns_filter_hasContent {messages : List Message} (h : NoEmptyText messages) :
    turns (messages.filter hasContent) = turns messages := by
  have hdrop : DropsOnly (fun m => turn? m = none) messages (messages.filter hasContent) :=
    .filter fun m hm hempty => turn?_of_not_hasContent (h m hm) hempty
  exact hdrop.filterMap_eq fun _ hm => hm

theorem noEmptyText_filter_hasContent (messages : List Message) :
    NoEmptyText (messages.filter hasContent) := by
  intro m hm htext
  have hcontent := (List.mem_filter.mp hm).2
  simp [hasContent, htext] at hcontent

/-! ### Block edits -/

section Edits

variable {keep : String → Bool}

theorem saidBlocks_filter_keepsResult (bs : List ContentBlock) :
    (bs.filter (keepsResult keep)).filter (fun b => b.resultId?.isNone) =
      bs.filter fun b => b.resultId?.isNone := by
  rw [List.filter_filter]
  refine List.filter_congr fun b _ => ?_
  cases b <;> simp [keepsResult, ContentBlock.resultId?]

theorem saidBlocks_retainBlocks (m : Message) :
    saidBlocks (retainBlocks (keepsResult keep) m) = saidBlocks m := by
  obtain ⟨role, content | bs, ctx⟩ := m
  · rfl
  · exact saidBlocks_filter_keepsResult bs

theorem turn?_retainBlocks (m : Message) :
    turn? (retainBlocks (keepsResult keep) m) = turn? m :=
  turn?_eq_of (role_retainBlocks _ m) (saidBlocks_retainBlocks m)

theorem content_retainBlocks {m : Message} (h : m.content ≠ .text "") :
    (retainBlocks (keepsResult keep) m).content ≠ .text "" := by
  obtain ⟨role, content | bs, ctx⟩ := m
  · exact h
  · simp [retainBlocks]

theorem mem_resultBlocks {messages : List Message} {b : ContentBlock} :
    b ∈ resultBlocks messages ↔
      ∃ m ∈ messages, b ∈ m.content.blockList ∧ b.resultId?.isSome = true := by
  simp only [resultBlocks, List.mem_flatMap, List.mem_filter]

theorem mem_blockList_retainBlocks {m : Message} {b : ContentBlock} :
    b ∈ (retainBlocks (keepsResult keep) m).content.blockList ↔
      b ∈ m.content.blockList ∧ keepsResult keep b = true := by
  obtain ⟨role, content | bs, ctx⟩ := m
  · simp [retainBlocks, MessageContent.blockList]
  · exact List.mem_filter

/-- A ToolResult for `x` is among the result blocks exactly when `x` has a result. -/
theorem exists_resultBlocks {messages : List Message} {x : String} :
    x ∈ messages.flatMap Message.toolResults ↔
      ∃ b ∈ resultBlocks messages, b.resultId? = some x := by
  rw [List.mem_flatMap]
  constructor
  · rintro ⟨m, hm, hx⟩
    obtain ⟨b, hb, hid⟩ := List.mem_filterMap.mp hx
    exact ⟨b, mem_resultBlocks.mpr ⟨m, hm, hb, by simp [hid]⟩, hid⟩
  · rintro ⟨b, hb, hid⟩
    obtain ⟨m, hm, hmem, -⟩ := mem_resultBlocks.mp hb
    exact ⟨m, hm, List.mem_filterMap.mpr ⟨b, hmem, hid⟩⟩

/-- Dropping messages that hold no blocks keeps the results. -/
theorem resultBlocks_filter_hasContent (messages : List Message) :
    resultBlocks (messages.filter hasContent) = resultBlocks messages := by
  have hdrop : DropsOnly (fun m => m.content.blockList = []) messages
      (messages.filter hasContent) := by
    refine .filter fun m _ hempty => ?_
    obtain ⟨role, content | bs, ctx⟩ := m
    · rfl
    · simpa [hasContent, MessageContent.blockList] using hempty
  exact hdrop.flatMap_eq fun m hm => by rw [hm, List.filter_nil]

end Edits

/-! ### Phase 2 -/

/-- An empty text has no content, whatever is retained. -/
theorem filter_hasContent_retained (keep : String → Bool) (messages : List Message) :
    (messages.map (retainBlocks (keepsResult keep))).filter hasContent =
      ((messages.filter fun m => decide (m.content ≠ .text "")).map
        (retainBlocks (keepsResult keep))).filter hasContent := by
  rw [List.filter_map, List.filter_map, List.filter_filter]
  refine congrArg _ (List.filter_congr fun m _ => ?_)
  obtain ⟨role, content | bs, ctx⟩ := m
  · simp [retainBlocks, hasContent]
  · simp

/-- Phase 2 drops the empty texts from the conversation, and nothing else. -/
theorem turns_filterOrphans (messages : List Message) :
    turns (filterOrphans messages) =
      turns (messages.filter fun m => decide (m.content ≠ .text "")) := by
  rw [filterOrphans, filter_hasContent_retained, turns_filter_hasContent]
  · rw [turns, List.filterMap_map]
    exact List.filterMap_congr fun m _ => turn?_retainBlocks m
  · intro m hm
    obtain ⟨m', hm', rfl⟩ := List.mem_map.mp hm
    exact content_retainBlocks (of_decide_eq_true (List.mem_filter.mp hm').2)

/-- Phase 2 keeps the results of the ids that are used. -/
theorem mem_resultBlocks_filterOrphans {messages : List Message} {b : ContentBlock} {x : String}
    (hx : b.resultId? = some x) : b ∈ resultBlocks (filterOrphans messages) ↔
      b ∈ resultBlocks messages ∧ x ∈ messages.flatMap Message.toolUses := by
  rw [filterOrphans, resultBlocks_filter_hasContent, mem_resultBlocks, mem_resultBlocks]
  have hkeep : ∀ keep : String → Bool, keepsResult keep b = keep x := by
    intro keep
    cases b with
    | toolResult id name content isError =>
        obtain rfl : id = x := by simpa [ContentBlock.resultId?] using hx
        rfl
    | _ => simp [ContentBlock.resultId?] at hx
  constructor
  · rintro ⟨m', hm', hb, hresult⟩
    obtain ⟨m, hm, rfl⟩ := List.mem_map.mp hm'
    obtain ⟨hb, hkept⟩ := mem_blockList_retainBlocks.mp hb
    rw [hkeep] at hkept
    exact ⟨⟨m, hm, hb, hresult⟩, of_decide_eq_true hkept⟩
  · rintro ⟨⟨m, hm, hb, hresult⟩, hused⟩
    refine ⟨_, List.mem_map_of_mem hm, mem_blockList_retainBlocks.mpr ⟨hb, ?_⟩, hresult⟩
    rw [hkeep]
    exact decide_eq_true hused

/-! ### Insertions -/

section Insert

variable {bs : List ContentBlock} (hbs : ∀ b ∈ bs, b.resultId?.isSome = true)

include hbs

theorem saidBlocks_results : (bs.filter fun b => b.resultId?.isNone) = [] := by
  rw [List.filter_eq_nil_iff]
  intro b hb
  simp [Option.isSome_iff_ne_none.mp (hbs b hb)]

theorem turn?_appendBlocks (m : Message) : turn? (appendBlocks m bs) = turn? m := by
  refine turn?_eq_of rfl ?_
  rw [saidBlocks, appendBlocks, contentToBlocks, List.filter_append, saidBlocks_results hbs,
    List.append_nil, saidBlocks]

theorem turn?_userWithBlocks : turn? (Message.userWithBlocks bs) = none := by
  have hsaid : saidBlocks (Message.userWithBlocks bs) = [] := saidBlocks_results hbs
  rw [turn?, if_pos hsaid]

/-- Inserted results add nothing to the conversation. -/
theorem turns_insertBehind (messages : List Message) (idx : Nat) :
    turns (insertBehind messages idx bs) = turns messages := by
  have hattach : ∀ rest, turns (attachBlocks bs rest) = turns rest := by
    intro rest
    cases rest with
    | nil => simp [attachBlocks, turns, turn?_userWithBlocks hbs]
    | cons next rest =>
        by_cases hrole : next.role = .user
        · rw [attachBlocks, if_pos hrole, turns, turns, List.filterMap_cons, List.filterMap_cons,
            turn?_appendBlocks hbs]
        · rw [attachBlocks, if_neg hrole, turns,
            List.filterMap_cons_none (turn?_userWithBlocks hbs), turns]
  rw [insertBehind, editBehind, turns, List.filterMap_append, ← turns, ← turns, hattach, turns,
    turns, ← List.filterMap_append, List.take_append_drop, turns]

theorem mem_resultBlocks_insertBehind {messages : List Message} {idx : Nat} {b : ContentBlock} :
    b ∈ resultBlocks (insertBehind messages idx bs) ↔ b ∈ bs ∨ b ∈ resultBlocks messages := by
  have hnew : (bs.filter fun b => b.resultId?.isSome) = bs := List.filter_eq_self.mpr hbs
  have happend : ∀ ms ms', resultBlocks (ms ++ ms') = resultBlocks ms ++ resultBlocks ms' :=
    fun ms ms' => List.flatMap_append
  have hattach : ∀ rest, b ∈ resultBlocks (attachBlocks bs rest) ↔
      b ∈ bs ∨ b ∈ resultBlocks rest := by
    intro rest
    cases rest with
    | nil => simp [attachBlocks, resultBlocks, Message.userWithBlocks, MessageContent.blockList, hnew]
    | cons next rest =>
        by_cases hrole : next.role = .user
        · have hold : (contentToBlocks next.content).filter (fun b => b.resultId?.isSome) =
              next.content.blockList.filter fun b => b.resultId?.isSome := by
            cases next.content <;> rfl
          rw [attachBlocks, if_pos hrole, resultBlocks, resultBlocks, List.flatMap_cons,
            List.flatMap_cons, appendBlocks, MessageContent.blockList, List.filter_append, hnew,
            hold]
          simp only [List.mem_append]
          tauto
        · rw [attachBlocks, if_neg hrole, resultBlocks, List.flatMap_cons, List.mem_append,
            Message.userWithBlocks, MessageContent.blockList, hnew, ← resultBlocks]
  rw [insertBehind, editBehind, happend, List.mem_append, hattach]
  nth_rewrite 3 [← List.take_append_drop (idx + 1) messages]
  rw [happend, List.mem_append]
  tauto

end Insert

/-! ### Inserted groups -/

section Groups

variable {groups : List (Nat × List ContentBlock)}
  (hgroups : ∀ g ∈ groups, ∀ b ∈ g.2, b.resultId?.isSome = true) (place : Nat → Option Nat)

include hgroups

/-- Groups of results, inserted where `place` puts them, add nothing to the conversation. -/
theorem turns_foldl_insertBehind (messages : List Message) :
    turns (groups.foldl (fun msgs group =>
      match place group.1 with
      | some idx => insertBehind msgs idx group.2
      | none => msgs) messages) = turns messages := by
  induction groups generalizing messages with
  | nil => rfl
  | cons g groups ih =>
      rw [List.foldl_cons, ih fun g' hg' => hgroups g' (List.mem_cons_of_mem _ hg')]
      cases place g.1 with
      | none => rfl
      | some idx => exact turns_insertBehind (hgroups g List.mem_cons_self) messages idx

theorem mem_resultBlocks_foldl {messages : List Message} {b : ContentBlock} :
    b ∈ resultBlocks (groups.foldl (fun msgs group =>
      match place group.1 with
      | some idx => insertBehind msgs idx group.2
      | none => msgs) messages) ↔
      b ∈ resultBlocks messages ∨ ∃ g ∈ groups, (place g.1).isSome = true ∧ b ∈ g.2 := by
  induction groups generalizing messages with
  | nil => simp
  | cons g groups ih =>
      rw [List.foldl_cons, ih fun g' hg' => hgroups g' (List.mem_cons_of_mem _ hg')]
      cases hplace : place g.1 with
      | none => simp [hplace]
      | some idx =>
          rw [mem_resultBlocks_insertBehind (hgroups g List.mem_cons_self)]
          simp only [List.mem_cons, exists_eq_or_imp, hplace, Option.isSome_some, true_and]
          tauto

end Groups

/-- The blocks of the groups are those of the entries. -/
theorem mem_grouped {entries : List (Nat × ContentBlock)} {k : Nat} {b : ContentBlock} :
    (∃ vs, (k, vs) ∈ sortDescending (groupEntries entries) ∧ b ∈ vs) ↔ (k, b) ∈ entries := by
  simp only [mem_sortDescending, mem_groupEntries]
  constructor
  · rintro ⟨vs, ⟨-, rfl⟩, hb⟩
    exact mem_valuesAt.mp hb
  · intro hb
    have hmem := mem_valuesAt.mpr hb
    exact ⟨_, ⟨List.ne_nil_of_mem hmem, rfl⟩, hmem⟩

/-! ### Phase 2b -/

section Reorder

variable {messages : List Message}

theorem results_misplacedEntries {k : Nat} {b : ContentBlock}
    (h : (k, b) ∈ misplacedEntries messages) : b ∈ resultBlocks messages := by
  obtain ⟨⟨j, id, b', k'⟩, hmis, heq⟩ := List.mem_map.mp h
  obtain ⟨rfl, rfl⟩ := Prod.mk.inj heq
  obtain ⟨m, hm, -, hb, hid, -⟩ := mem_misplacedResults.mp hmis
  exact mem_resultBlocks.mpr ⟨m, List.mem_of_getElem? hm, hb, by simp [hid]⟩

/-- The history without the misplaced results. -/
def unmisplaced (messages : List Message) : List Message :=
  messages.zipIdx.map fun p => removeMisplaced (misplacedSources messages) p.1 p.2

theorem getElem?_unmisplaced (j : Nat) : (unmisplaced messages)[j]? =
    messages[j]?.map fun m => removeMisplaced (misplacedSources messages) m j := by
  rw [unmisplaced, List.getElem?_map, List.getElem?_zipIdx, Option.map_map]
  simp [Function.comp_def]

theorem turn?_removeMisplaced (sources : List (Nat × String)) (m : Message) (idx : Nat) :
    turn? (removeMisplaced sources m idx) = turn? m := by
  unfold removeMisplaced
  split
  · exact turn?_retainBlocks m
  · rfl

theorem turns_unmisplaced : turns (unmisplaced messages) = turns messages := by
  have hfst : (messages.zipIdx.map Prod.fst).filterMap turn? = messages.filterMap turn? := by
    rw [List.zipIdx_map_fst]
  rw [unmisplaced, turns, List.filterMap_map, turns, ← hfst, List.filterMap_map]
  exact List.filterMap_congr fun p _ => turn?_removeMisplaced _ p.1 p.2

theorem noEmptyText_unmisplaced (h : NoEmptyText messages) : NoEmptyText (unmisplaced messages) := by
  intro m hm
  obtain ⟨⟨m', idx⟩, hmem, rfl⟩ := List.mem_map.mp hm
  have hm' := h m' (List.mem_of_getElem? (List.mem_zipIdx_iff_getElem?.mp hmem))
  dsimp only [removeMisplaced]
  split
  · exact content_retainBlocks hm'
  · exact hm'

/-- The index of the source finds every Assistant message that is the last to use some id, also
where other messages use its ids. -/
theorem isSome_currentPosition {x : String} {k : Nat}
    (hlookup : (toolUseIndex messages).lookup x = some k) :
    ((currentAssistantPositions (toolUseIndex messages)
      ((unmisplaced messages).filter hasContent)).lookup k).isSome = true := by
  obtain ⟨m, hm, hrole, hx⟩ := mem_assistantUses.mp (List.mem_reverse.mp (mem_of_lookup hlookup))
  have hkept : removeMisplaced (misplacedSources messages) m k ∈
      (unmisplaced messages).filter hasContent := by
    rw [unmisplaced, ← snd_keyedKept]
    exact List.mem_map_of_mem (mem_keyedKept_of_use hm hx)
  obtain ⟨p, hp⟩ := List.mem_iff_getElem?.mp hkept
  have huse : (x, p) ∈ assistantUses ((unmisplaced messages).filter hasContent) :=
    mem_assistantUses.mpr ⟨_, hp, by simpa using hrole, by simpa using hx⟩
  have hentry : (k, p) ∈ currentAssistantPositions (toolUseIndex messages)
      ((unmisplaced messages).filter hasContent) := by
    rw [currentAssistantPositions, List.mem_reverse, List.mem_filterMap]
    exact ⟨(x, p), huse, by rw [hlookup, Option.map_some]⟩
  exact List.lookup_isSome_iff.mpr ⟨(k, p), hentry, beq_self_eq_true k⟩

theorem results_groups {entries : List (Nat × ContentBlock)}
    (h : ∀ k b, (k, b) ∈ entries → b.resultId?.isSome = true) :
    ∀ g ∈ sortDescending (groupEntries entries), ∀ b ∈ g.2, b.resultId?.isSome = true :=
  fun g hg b hb => h g.1 b (mem_grouped.mp ⟨g.2, hg, hb⟩)

theorem results_misplaced (k : Nat) (b : ContentBlock) (h : (k, b) ∈ misplacedEntries messages) :
    b.resultId?.isSome = true := by
  obtain ⟨-, -, -, hresult⟩ := mem_resultBlocks.mp (results_misplacedEntries h)
  exact hresult

/-- Phase 2b as one insertion of groups, when there is something to move. -/
theorem reorderToolResults_fst : (reorderToolResults messages).1 =
    if (misplacedResults messages).isEmpty then messages
    else (sortDescending (groupEntries (misplacedEntries messages))).foldl (fun msgs group =>
      match (currentAssistantPositions (toolUseIndex messages)
        ((unmisplaced messages).filter hasContent)).lookup group.1 with
      | some idx => insertBehind msgs idx group.2
      | none => msgs) ((unmisplaced messages).filter hasContent) := by
  unfold reorderToolResults
  dsimp only
  split
  · rfl
  · rfl

/-- Phase 2b moves results only. -/
theorem turns_reorderToolResults (h : NoEmptyText messages) :
    turns (reorderToolResults messages).1 = turns messages := by
  rw [reorderToolResults_fst]
  split
  · rfl
  · rw [turns_foldl_insertBehind (results_groups results_misplaced) fun k =>
        (currentAssistantPositions (toolUseIndex messages)
          ((unmisplaced messages).filter hasContent)).lookup k,
      turns_filter_hasContent (noEmptyText_unmisplaced h), turns_unmisplaced]

/-- Phase 2b keeps every result, whichever messages use its id. -/
theorem mem_resultBlocks_reorderToolResults (hsep : Separated messages) {b : ContentBlock} :
    b ∈ resultBlocks (reorderToolResults messages).1 ↔ b ∈ resultBlocks messages := by
  rw [reorderToolResults_fst]
  split
  · rfl
  · rw [mem_resultBlocks_foldl (results_groups results_misplaced) fun k =>
        (currentAssistantPositions (toolUseIndex messages)
          ((unmisplaced messages).filter hasContent)).lookup k, resultBlocks_filter_hasContent]
    constructor
    · rintro (hold | ⟨⟨k, vs⟩, hg, -, hb⟩)
      · obtain ⟨m, hm, hb, hresult⟩ := mem_resultBlocks.mp hold
        obtain ⟨⟨m', j⟩, hmem, rfl⟩ := List.mem_map.mp hm
        refine mem_resultBlocks.mpr
          ⟨m', List.mem_of_getElem? (List.mem_zipIdx_iff_getElem?.mp hmem), ?_, hresult⟩
        dsimp only [removeMisplaced] at hb
        split at hb
        · exact (mem_blockList_retainBlocks.mp hb).1
        · exact hb
      · exact results_misplacedEntries (mem_grouped.mp ⟨vs, hg, hb⟩)
    · intro hold
      obtain ⟨m, hm, hb, hresult⟩ := mem_resultBlocks.mp hold
      obtain ⟨j, hj⟩ := List.mem_iff_getElem?.mp hm
      obtain ⟨x, hx⟩ := Option.isSome_iff_exists.mp hresult
      have hrole : m.role = .user := by
        have hmem : x ∈ m.toolResults := List.mem_filterMap.mpr ⟨b, hb, hx⟩
        exact hsep.results m hm (List.ne_nil_of_mem hmem)
      by_cases hsource : (j, x) ∈ misplacedSources messages
      · -- the block is inserted behind the last message that uses its id
        right
        obtain ⟨⟨j', x', b', k⟩, hmis, heq⟩ := List.mem_map.mp hsource
        obtain ⟨rfl, rfl⟩ := Prod.mk.inj heq
        obtain ⟨-, -, -, -, -, hlookup, hne⟩ := mem_misplacedResults.mp hmis
        have hmoved : (j', x', b, k) ∈ misplacedResults messages :=
          mem_misplacedResults.mpr ⟨m, hj, hrole, hb, hx, hlookup, hne⟩
        obtain ⟨vs, hg, hmem⟩ := mem_grouped.mpr
          (List.mem_map.mpr ⟨_, hmoved, rfl⟩ : (k, b) ∈ misplacedEntries messages)
        exact ⟨(k, vs), hg, isSome_currentPosition hlookup, hmem⟩
      · left
        have hat : removeMisplaced (misplacedSources messages) m j ∈ unmisplaced messages := by
          refine List.mem_of_getElem? (i := j) ?_
          rw [getElem?_unmisplaced, hj, Option.map_some]
        refine mem_resultBlocks.mpr ⟨_, hat, ?_, hresult⟩
        rw [removeMisplaced, if_pos hrole]
        refine mem_blockList_retainBlocks.mpr ⟨hb, ?_⟩
        cases b with
        | toolResult id name content isError =>
            obtain rfl : id = x := by simpa [ContentBlock.resultId?] using hx
            exact decide_eq_true hsource
        | _ => rfl

theorem noEmptyText_attachBlocks {bs : List ContentBlock} {rest : List Message}
    (h : NoEmptyText rest) : NoEmptyText (attachBlocks bs rest) := by
  intro m hm
  cases rest with
  | nil =>
      obtain rfl := List.mem_singleton.mp hm
      intro hempty
      cases hempty
  | cons next rest =>
      rw [attachBlocks] at hm
      split at hm
      · rcases List.mem_cons.mp hm with rfl | hm
        · intro hempty
          cases hempty
        · exact h m (List.mem_cons_of_mem _ hm)
      · rcases List.mem_cons.mp hm with rfl | hm
        · intro hempty
          cases hempty
        · exact h m hm

theorem noEmptyText_insertBehind {bs : List ContentBlock} {idx : Nat} (h : NoEmptyText messages) :
    NoEmptyText (insertBehind messages idx bs) := by
  intro m hm
  rcases List.mem_append.mp hm with hm | hm
  · exact h m (List.mem_of_mem_take hm)
  · exact noEmptyText_attachBlocks (fun n hn => h n (List.mem_of_mem_drop hn)) m hm

theorem noEmptyText_foldl_insertBehind (place : Nat → Option Nat)
    (groups : List (Nat × List ContentBlock)) (h : NoEmptyText messages) :
    NoEmptyText (groups.foldl (fun msgs group =>
      match place group.1 with
      | some idx => insertBehind msgs idx group.2
      | none => msgs) messages) := by
  induction groups generalizing messages with
  | nil => exact h
  | cons g groups ih =>
      rw [List.foldl_cons]
      apply ih
      cases place g.1 with
      | none => exact h
      | some idx => exact noEmptyText_insertBehind h

theorem noEmptyText_reorderToolResults (h : NoEmptyText messages) :
    NoEmptyText (reorderToolResults messages).1 := by
  rw [reorderToolResults_fst]
  split
  · exact h
  · exact noEmptyText_foldl_insertBehind (fun k =>
      (currentAssistantPositions (toolUseIndex messages)
        ((unmisplaced messages).filter hasContent)).lookup k) _ (noEmptyText_filter_hasContent _)

end Reorder

/-! ### Phase 2c -/

section Synthetic

variable {messages : List Message}

theorem insertSyntheticResults_fst : (insertSyntheticResults messages).1 =
    (sortDescending (groupEntries (syntheticEntries messages))).foldl (fun msgs group =>
      match some group.1 with
      | some idx => insertBehind msgs idx group.2
      | none => msgs) messages := by
  unfold insertSyntheticResults
  split
  · next hnone =>
      have hnil : syntheticEntries messages = [] := by
        rw [syntheticEntries, List.isEmpty_iff.mp hnone, List.map_nil]
      simp [hnil, groupEntries, sortDescending]
  · rfl

theorem results_syntheticEntries (k : Nat) (b : ContentBlock)
    (h : (k, b) ∈ syntheticEntries messages) : b.resultId?.isSome = true := by
  obtain ⟨id, rfl, -⟩ := mem_syntheticEntries.mp h
  rfl

theorem turns_insertSyntheticResults :
    turns (insertSyntheticResults messages).1 = turns messages := by
  rw [insertSyntheticResults_fst]
  exact turns_foldl_insertBehind (results_groups results_syntheticEntries) some messages

theorem noEmptyText_insertSyntheticResults (h : NoEmptyText messages) :
    NoEmptyText (insertSyntheticResults messages).1 := by
  rw [insertSyntheticResults_fst]
  exact noEmptyText_foldl_insertBehind some _ h

/-- Phase 2c makes no result for an id that has one. -/
theorem mem_resultBlocks_insertSyntheticResults {x : String}
    (hx : x ∈ messages.flatMap Message.toolResults) {b : ContentBlock}
    (hb : b.resultId? = some x) :
    b ∈ resultBlocks (insertSyntheticResults messages).1 ↔ b ∈ resultBlocks messages := by
  rw [insertSyntheticResults_fst,
    mem_resultBlocks_foldl (results_groups results_syntheticEntries) some]
  refine or_iff_left ?_
  rintro ⟨⟨k, vs⟩, hg, -, hmem⟩
  obtain ⟨id, rfl, -, hnone⟩ := mem_syntheticEntries.mp (mem_grouped.mp ⟨vs, hg, hmem⟩)
  obtain rfl : id = x := Option.some.inj hb
  exact hnone hx

end Synthetic

/-! ### Phase 2d -/

section Dedup

theorem dedupBlocks_keeps (seen : List String) (bs : List ContentBlock) :
    ((dedupBlocks seen bs).1.filter fun b => b.resultId?.isNone) =
        (bs.filter fun b => b.resultId?.isNone) ∧
      (dedupBlocks seen bs).1.Sublist bs := by
  induction bs generalizing seen with
  | nil => exact ⟨rfl, .slnil⟩
  | cons b bs ih =>
      cases b with
      | toolResult id name content isError =>
          by_cases hid : id ∈ seen
          · simp only [dedupBlocks, if_pos hid]
            exact ⟨(ih seen).1, (ih seen).2.cons _⟩
          · simp only [dedupBlocks, if_neg hid]
            exact ⟨(ih (id :: seen)).1, (ih (id :: seen)).2.cons_cons _⟩
      | _ =>
          refine ⟨?_, (ih seen).2.cons_cons _⟩
          exact congrArg (List.cons _) (ih seen).1

theorem turns_dedupMessages (seen : List String) (messages : List Message) :
    turns (dedupMessages seen messages) = turns messages := by
  induction messages generalizing seen with
  | nil => rfl
  | cons m rest ih =>
      obtain ⟨role, content | bs, ctx⟩ := m
      · rw [dedupMessages, turns, List.filterMap_cons, ← turns, ih, turns, turns,
          List.filterMap_cons]
      · have hturn : turn? ⟨role, .blocks (dedupBlocks seen bs).1, ctx⟩ =
            turn? ⟨role, .blocks bs, ctx⟩ := turn?_eq_of rfl (dedupBlocks_keeps seen bs).1
        rw [dedupMessages, turns, List.filterMap_cons, hturn, ← turns, ih, turns, turns,
          List.filterMap_cons]

theorem noEmptyText_dedupMessages (seen : List String) {messages : List Message}
    (h : NoEmptyText messages) : NoEmptyText (dedupMessages seen messages) := by
  induction messages generalizing seen with
  | nil => exact h
  | cons m rest ih =>
      have hrest : NoEmptyText rest := fun n hn => h n (List.mem_cons_of_mem _ hn)
      obtain ⟨role, content | bs, ctx⟩ := m
      · intro n hn
        rcases List.mem_cons.mp hn with rfl | hn
        · exact h _ List.mem_cons_self
        · exact ih seen hrest n hn
      · intro n hn
        rcases List.mem_cons.mp hn with rfl | hn
        · exact nofun
        · exact ih _ hrest n hn

theorem resultBlocks_dedupMessages (seen : List String) {messages : List Message} :
    (resultBlocks (dedupMessages seen messages)).Sublist (resultBlocks messages) := by
  induction messages generalizing seen with
  | nil => exact .slnil
  | cons m rest ih =>
      obtain ⟨role, content | bs, ctx⟩ := m
      · exact ih seen
      · exact ((dedupBlocks_keeps seen bs).2.filter _).append (ih _)

end Dedup

/-! ### Phases 2e and 3 -/

theorem isBlankReply_of {m : Message}
    (h : m.role = .assistant ∧ isEmptyOrBlankContent m.content = true) : IsBlankReply m := by
  refine ⟨h.1, fun b hb => ?_⟩
  have hblank : isBlankBlock b = true := by
    obtain ⟨role, content | bs, ctx⟩ := m
    · obtain rfl := List.mem_singleton.mp hb
      exact h.2
    · rcases Bool.or_eq_true_iff.mp h.2 with hnil | hall
      · rw [List.isEmpty_iff.mp hnil] at hb
        exact absurd hb List.not_mem_nil
      · exact List.all_eq_true.mp hall b hb
  cases b with
  | text s md => exact .inr ⟨s, md, rfl, hblank⟩
  | unknown => exact .inl rfl
  | _ => exact absurd hblank Bool.false_ne_true

theorem conversation_foldl_mergeStep (messages merged : List Message) :
    conversation (messages.foldl mergeStep merged) =
      conversation merged ++ conversation messages := by
  induction messages generalizing merged with
  | nil => simp [conversation]
  | cons msg rest ih =>
      have hstep : conversation (mergeStep merged msg) =
          conversation merged ++ (saidBlocks msg).map (msg.role, ·) := by
        cases merged using List.reverseRecOn with
        | nil => simp [mergeStep, conversation]
        | append_singleton front last =>
            by_cases hrole : last.role = msg.role
            · simp [mergeStep, hrole, conversation, saidBlocks, mergeContent, contentToBlocks]
            · simp [mergeStep, hrole, conversation]
      rw [List.foldl_cons, ih, hstep, List.append_assoc]
      rfl

theorem resultBlocks_foldl_mergeStep (messages merged : List Message) :
    resultBlocks (messages.foldl mergeStep merged) =
      resultBlocks merged ++ resultBlocks messages := by
  have hblocks : ∀ c : MessageContent, (contentToBlocks c).filter (fun b => b.resultId?.isSome) =
      c.blockList.filter fun b => b.resultId?.isSome := by
    intro c
    cases c <;> rfl
  induction messages generalizing merged with
  | nil => simp [resultBlocks]
  | cons msg rest ih =>
      have hstep : resultBlocks (mergeStep merged msg) = resultBlocks merged ++
          msg.content.blockList.filter fun b => b.resultId?.isSome := by
        cases merged using List.reverseRecOn with
        | nil => simp [mergeStep, resultBlocks]
        | append_singleton front last =>
            by_cases hrole : last.role = msg.role
            · simp [mergeStep, hrole, resultBlocks, mergeContent, MessageContent.blockList, hblocks]
            · simp [mergeStep, hrole, resultBlocks]
      rw [List.foldl_cons, ih, hstep, List.append_assoc]
      rfl

/-! ### The pipeline -/

/-- What repair may drop from a history. -/
def Droppable (m : Message) : Prop := m.content = .text "" ∨ IsBlankReply m

section Pipeline

variable {messages : List Message}

/-- Before the merge the conversation is that of phase 2, without some blank replies. -/
theorem conversation_validateAndRepair (messages : List Message) :
    ∃ kept, DropsOnly (fun t => t.1 = .assistant ∧ ∀ b ∈ t.2,
        b = .unknown ∨ ∃ s md, b = .text s md ∧ Text.isBlank s = true)
      (turns (filterOrphans messages)) kept ∧
      conversation (validateAndRepair messages) = kept.flatMap fun t => t.2.map (t.1, ·) := by
  have htext := noEmptyText_filter_hasContent (messages.map (retainBlocks (keepsResult fun id =>
    decide (id ∈ messages.flatMap Message.toolUses))))
  rw [← filterOrphans] at htext
  have htext' := noEmptyText_insertSyntheticResults (noEmptyText_reorderToolResults htext)
  set answered := (insertSyntheticResults (reorderToolResults (filterOrphans messages)).1).1
    with hanswered
  have hturns : turns (deduplicateToolResults answered).1 = turns (filterOrphans messages) := by
    rw [deduplicateToolResults, turns_filter_hasContent (noEmptyText_dedupMessages [] htext'),
      turns_dedupMessages, hanswered, turns_insertSyntheticResults, turns_reorderToolResults htext]
  have hdrop := (dropsOnly_removeAborted (deduplicateToolResults answered).1).mono
    fun _ _ h => isBlankReply_of h
  refine ⟨turns (removeAbortedAssistantMessages (deduplicateToolResults answered).1), ?_, ?_⟩
  · rw [← hturns]
    refine hdrop.filterMap fun m _ hblank t ht => ?_
    obtain rfl := turn?_eq_some ht
    exact ⟨hblank.1, fun b hb => hblank.2 b (List.mem_filter.mp hb).1⟩
  · have hnil : conversation [] = [] := rfl
    rw [validateAndRepair_eq, mergeConsecutive, conversation_foldl_mergeStep, ← hanswered,
      ← conversation_eq, hnil, List.nil_append]

theorem resultBlocks_validateAndRepair (messages : List Message) :
    (resultBlocks (validateAndRepair messages)).Sublist (resultBlocks
      (insertSyntheticResults (reorderToolResults (filterOrphans messages)).1).1) := by
  rw [validateAndRepair_eq, mergeConsecutive, resultBlocks_foldl_mergeStep]
  generalize (insertSyntheticResults (reorderToolResults (filterOrphans messages)).1).1 = answered
  have hdrop := (dropsOnly_removeAborted (deduplicateToolResults answered).1).sublist
  refine (hdrop.flatMap _).trans ?_
  rw [← resultBlocks, deduplicateToolResults, resultBlocks_filter_hasContent]
  exact resultBlocks_dedupMessages []

/-- Repair keeps what a history says, in order. -/
theorem spoken_validateAndRepair (messages : List Message) :
    spoken (validateAndRepair messages) = spoken messages := by
  have hempty : DropsOnly (fun m : Message => m.content = .text "") messages
      (messages.filter fun m => decide (m.content ≠ .text "")) :=
    .filter fun m _ hm => not_not.mp (of_decide_eq_false hm)
  have hturns : ∀ l : List Message, spoken l =
      (turns l).flatMap fun t => (t.2.map (t.1, ·)).filter fun said => !isSilent said.2 :=
    fun l => by rw [spoken, conversation_eq, List.filter_flatMap]
  obtain ⟨kept, hdrop, hkept⟩ := conversation_validateAndRepair messages
  calc spoken (validateAndRepair messages)
      = kept.flatMap fun t => (t.2.map (t.1, ·)).filter fun said => !isSilent said.2 := by
        rw [spoken, hkept, List.filter_flatMap]
    _ = spoken (filterOrphans messages) := by
        rw [hturns, hdrop.flatMap_eq]
        rintro ⟨role, bs⟩ ⟨-, hblank⟩
        refine List.filter_eq_nil_iff.mpr fun said hsaid => ?_
        obtain ⟨b, hb, rfl⟩ := List.mem_map.mp hsaid
        rcases hblank b hb with rfl | ⟨s, md, rfl, hs⟩
        · exact Bool.false_ne_true
        · simp [isSilent, hs]
    _ = spoken (messages.filter fun m => decide (m.content ≠ .text "")) := by
        rw [hturns, turns_filterOrphans, ← hturns]
    _ = spoken messages := by
        rw [spoken, spoken, conversation, conversation, List.filter_flatMap, List.filter_flatMap]
        refine hempty.flatMap_eq fun m hm => ?_
        rw [saidBlocks, hm]
        cases m.role <;> rfl

/-- Repair drops from the conversation only empty texts and blank replies. -/
theorem repair_keeps_conversation (hsep : Separated messages) :
    ∃ kept, DropsOnly Droppable messages kept ∧
      conversation (validateAndRepair messages) = conversation kept := by
  obtain ⟨repaired, hdrop, hrepaired⟩ := conversation_validateAndRepair messages
  rw [turns_filterOrphans, turns] at hdrop
  obtain ⟨kept, hdrop', hkept⟩ := hdrop.exists_of_filterMap
  have htexts : DropsOnly Droppable messages
      (messages.filter fun m => decide (m.content ≠ .text "")) :=
    .filter fun m _ hm => .inl (not_not.mp (of_decide_eq_false hm))
  refine ⟨kept, htexts.trans (hdrop'.mono ?_), ?_⟩
  · rintro m hm ⟨t, ht, hrole, hblank⟩
    have hmem := (List.mem_filter.mp hm).1
    obtain rfl := turn?_eq_some ht
    refine .inr ⟨hrole, fun b hb => hblank b (List.mem_filter.mpr ⟨hb, ?_⟩)⟩
    -- an Assistant message holds no ToolResult
    have hnone := hsep.results_nil hmem (by rw [show m.role = .assistant from hrole]; simp)
    obtain ⟨role, content | bs, ctx⟩ := m
    · obtain rfl := List.mem_singleton.mp hb
      rfl
    · have hb' := List.filterMap_eq_nil_iff.mp hnone b hb
      simp [hb']
  · rw [hrepaired, conversation_eq kept, turns, hkept]

/-- An id that is used and has a result keeps one of its results. -/
theorem repair_keeps_result (hsep : Separated messages) {x : String}
    (huse : x ∈ messages.flatMap Message.toolUses)
    (hresult : x ∈ messages.flatMap Message.toolResults) :
    ∃ b ∈ resultBlocks (validateAndRepair messages),
      b.resultId? = some x ∧ b ∈ resultBlocks messages := by
  obtain ⟨b, hb, hid⟩ := exists_resultBlocks.mp hresult
  have hsep' := (filterOrphans_spec hsep).1
  have hcleaned := (mem_resultBlocks_filterOrphans hid).mpr ⟨hb, huse⟩
  have hreordered := (mem_resultBlocks_reorderToolResults hsep').mpr hcleaned
  have hx := exists_resultBlocks.mpr ⟨b, hreordered, hid⟩
  have hanswered := (mem_resultBlocks_insertSyntheticResults hx hid).mpr hreordered
  have hfinal : x ∈ (validateAndRepair messages).flatMap Message.toolResults := by
    rw [flatMap_toolResults_validateAndRepair, ← List.count_pos_iff, count_results_dedupMessages,
      if_pos ⟨exists_resultBlocks.mpr ⟨b, hanswered, hid⟩, List.not_mem_nil⟩]
    exact Nat.one_pos
  obtain ⟨b', hb', hid'⟩ := exists_resultBlocks.mp hfinal
  refine ⟨b', hb', hid', ?_⟩
  have hback := (resultBlocks_validateAndRepair messages).subset hb'
  have hback' := (mem_resultBlocks_insertSyntheticResults hx hid').mp hback
  exact ((mem_resultBlocks_filterOrphans hid').mp
    ((mem_resultBlocks_reorderToolResults hsep').mp hback')).1

end Pipeline

/-- Session repair loses no conversation content. -/
theorem repair_conserves {messages : List Message} (hsep : Separated messages) :
    (∃ kept, DropsOnly Droppable messages kept ∧
      conversation (validateAndRepair messages) = conversation kept) ∧
    ∀ x ∈ messages.flatMap Message.toolUses, x ∈ messages.flatMap Message.toolResults →
      ∃ b ∈ resultBlocks (validateAndRepair messages),
        b.resultId? = some x ∧ b ∈ resultBlocks messages :=
  ⟨repair_keeps_conversation hsep, fun _ huse hresult => repair_keeps_result hsep huse hresult⟩

/-- The first of two results for one id is moved and the second is dropped; one of them stays. -/
theorem repair_conserves_two_calls :
    (∃ kept, DropsOnly Droppable (twoCalls "call_0" "call_0") kept ∧
      conversation (validateAndRepair (twoCalls "call_0" "call_0")) = conversation kept) ∧
    ∀ x ∈ (twoCalls "call_0" "call_0").flatMap Message.toolUses,
      x ∈ (twoCalls "call_0" "call_0").flatMap Message.toolResults →
      ∃ b ∈ resultBlocks (validateAndRepair (twoCalls "call_0" "call_0")),
        b.resultId? = some x ∧ b ∈ resultBlocks (twoCalls "call_0" "call_0") :=
  repair_conserves (by decide)

end ArmaraOS.Session
