import ArmaraOS.Drivers.OpenAiResponse
import ArmaraOS.Lib.Lines
import ArmaraOS.Lib.Marks
import ArmaraOS.Runtime.ThinkFilter

/-!
The two readers of `<think>` blocks: the filter that shows a text while it is streamed
(`openfang-runtime/src/think_filter.rs`) and `extract_think_tags`, which makes the stored text out
of the whole (`openfang-runtime/src/drivers/openai.rs`).

The filter looks for one tag at a time. The extractor looks for both in the text as it stands, and
takes a block out before it looks on. A closing tag among the visible text stops it at the next
block, and where what is left and right of a block makes up an opening tag it takes out what the
filter has shown. On every other text the two agree.
-/

namespace ArmaraOS.Drivers

open ArmaraOS.Lib.Framing ArmaraOS.Runtime ArmaraOS.Text

/-! ### The blocks of a text -/

/-- The tag that opens a block. -/
def openTag : List Char := '<' :: "think>".toList

/-- The tag that closes a block. -/
def closeTag : List Char := '<' :: "/think>".toList

/-- The blocks of a text, each with the visible text in front of it, and the visible text behind the
last one. The last block may be left open. -/
def thinkBlocks (text : List Char) : List (List Char × List Char) × List Char :=
  match _h : cutAt openTag text with
  | none => ([], text)
  | some (shown, inside) =>
      match _h' : cutAt closeTag inside with
      | none => ([(shown, inside)], [])
      | some (thought, rest) =>
          let next := thinkBlocks rest
          ((shown, thought) :: next.1, next.2)
termination_by text.length
decreasing_by
  rw [cutAt_eq_some _h, cutAt_eq_some _h']
  simp only [List.length_append]
  have hopen : openTag.length = 7 := by decide
  omega

/-- The visible text in front of the last block. -/
def shownBefore (text : List Char) : List Char := ((thinkBlocks text).1.map Prod.fst).flatten

/-- The visible text. -/
def shownText (text : List Char) : List Char := shownBefore text ++ (thinkBlocks text).2

/-- The thoughts in the blocks, as they are stored. -/
def storedThoughts (parts : List (List Char)) (text : List Char) : List (List Char) :=
  ((thinkBlocks text).1.map Prod.snd).foldl addThought parts

/-- No closing tag stands among the visible text in front of the last block, and the visible text
makes up no opening tag. -/
structure Clean (text : List Char) : Prop where
  closing : ¬ closeTag <:+: shownBefore text
  opening : ¬ openTag <:+: shownText text

section Blocks

variable {text shown inside thought rest : List Char}

theorem thinkBlocks_plain (h : cutAt openTag text = none) : thinkBlocks text = ([], text) := by
  rw [thinkBlocks]
  split
  · rfl
  · rename_i h'
    cases h.symm.trans h'

theorem thinkBlocks_unclosed (h : cutAt openTag text = some (shown, inside))
    (hclose : cutAt closeTag inside = none) : thinkBlocks text = ([(shown, inside)], []) := by
  rw [thinkBlocks]
  split
  · rename_i h'
    cases h.symm.trans h'
  · rename_i h'
    cases h.symm.trans h'
    split
    · rfl
    · rename_i h''
      cases hclose.symm.trans h''

theorem thinkBlocks_block (h : cutAt openTag text = some (shown, inside))
    (hclose : cutAt closeTag inside = some (thought, rest)) :
    thinkBlocks text = ((shown, thought) :: (thinkBlocks rest).1, (thinkBlocks rest).2) := by
  rw [thinkBlocks]
  split
  · rename_i h'
    cases h.symm.trans h'
  · rename_i h'
    cases h.symm.trans h'
    split
    · rename_i h''
      cases hclose.symm.trans h''
    · rename_i h''
      cases hclose.symm.trans h''
      rfl

theorem shownText_plain (h : cutAt openTag text = none) : shownText text = text := by
  rw [shownText, shownBefore, thinkBlocks_plain h]
  rfl

theorem shownBefore_plain (h : cutAt openTag text = none) : shownBefore text = [] := by
  rw [shownBefore, thinkBlocks_plain h]
  rfl

theorem shownText_unclosed (h : cutAt openTag text = some (shown, inside))
    (hclose : cutAt closeTag inside = none) : shownText text = shown := by
  rw [shownText, shownBefore, thinkBlocks_unclosed h hclose]
  simp

theorem shownBefore_unclosed (h : cutAt openTag text = some (shown, inside))
    (hclose : cutAt closeTag inside = none) : shownBefore text = shown := by
  rw [shownBefore, thinkBlocks_unclosed h hclose]
  simp

theorem shownText_block (h : cutAt openTag text = some (shown, inside))
    (hclose : cutAt closeTag inside = some (thought, rest)) :
    shownText text = shown ++ shownText rest := by
  rw [shownText, shownBefore, thinkBlocks_block h hclose]
  simp [shownText, shownBefore]

theorem shownBefore_block (h : cutAt openTag text = some (shown, inside))
    (hclose : cutAt closeTag inside = some (thought, rest)) :
    shownBefore text = shown ++ shownBefore rest := by
  rw [shownBefore, thinkBlocks_block h hclose]
  simp [shownBefore]

theorem awaited_false : StreamingThinkFilter.awaited false = openTag := rfl

theorem awaited_true : StreamingThinkFilter.awaited true = closeTag := rfl

/-- The filter shows the visible text. -/
theorem referenceSplit_visible (text : List Char) :
    (referenceSplit false text).visible = shownText text := by
  induction text using thinkBlocks.induct with
  | case1 text hopen =>
      rw [shownText_plain hopen]
      rw [← awaited_false] at hopen
      rw [referenceSplit_of_none hopen]
      rfl
  | case2 text shown inside hopen hclose =>
      rw [shownText_unclosed hopen hclose]
      rw [← awaited_false] at hopen
      rw [← awaited_true] at hclose
      rw [referenceSplit_of_some hopen, Bool.not_false, referenceSplit_of_none hclose]
      exact List.append_nil shown
  | case3 text shown inside hopen thought rest hclose ih =>
      rw [shownText_block hopen hclose, ← ih]
      rw [← awaited_false] at hopen
      rw [← awaited_true] at hclose
      rw [referenceSplit_of_some hopen, Bool.not_false, referenceSplit_of_some hclose]
      rfl

/-- The visible text is what is left of the text. -/
theorem shownText_sublist (text : List Char) : (shownText text).Sublist text := by
  induction text using thinkBlocks.induct with
  | case1 text hopen => rw [shownText_plain hopen]
  | case2 text shown inside hopen hclose =>
      rw [shownText_unclosed hopen hclose, cutAt_eq_some hopen, List.append_assoc]
      exact List.sublist_append_left shown _
  | case3 text shown inside hopen thought rest hclose ih =>
      rw [shownText_block hopen hclose, cutAt_eq_some hopen, cutAt_eq_some hclose,
        List.append_assoc]
      refine (List.Sublist.refl shown).append (ih.trans ?_)
      rw [← List.append_assoc]
      exact List.sublist_append_right _ rest

end Blocks

/-! ### One block of the extractor -/

section Extractor

variable {cleaned front inside : List Char}

theorem mark_notMem_open : '<' ∉ "think>".toList := by decide

theorem mark_notMem_close : '<' ∉ "/think>".toList := by decide

/-- Behind an opening tag, without a closing tag in front of it, the first closing tag is the first
one inside. -/
theorem cutAt_closeTag (hfront : ¬ closeTag <:+: front) :
    cutAt closeTag (front ++ (openTag ++ inside)) =
      (cutAt closeTag inside).map fun cut => (front ++ (openTag ++ cut.1), cut.2) := by
  have hnot : ¬ closeTag <+: '<' :: ("think>".toList ++ inside) := by
    intro hpre
    obtain ⟨-, hbehind⟩ := List.cons_prefix_cons.mp hpre
    cases (List.cons_prefix_cons.mp hbehind).1
  rw [openTag, List.cons_append, closeTag, cutAt_append_mark mark_notMem_close hfront,
    ← closeTag, cutAt_cons_of_not_prefix hnot, closeTag, cutAt_append_plain mark_notMem_open,
    Option.map_map, Option.map_map]
  rfl

/-- `nextThinkBlock`, by the names of the tags. -/
theorem nextThinkBlock_tags (cleaned : List Char) :
    nextThinkBlock cleaned =
      match cutAt openTag cleaned with
      | none => .absent
      | some (before, inside) =>
          match cutAt closeTag cleaned with
          | none => .unclosed before inside
          | some (front, behind) =>
              if before.length + 7 ≤ front.length then
                .closed before (front.drop (before.length + 7)) behind
              else .absent :=
  rfl

theorem nextThinkBlock_plain (h : cutAt openTag cleaned = none) :
    nextThinkBlock cleaned = .absent := by
  rw [nextThinkBlock_tags, h]

/-- A closing tag in front of the first opening one ends the search. -/
theorem nextThinkBlock_stray (h : cutAt openTag cleaned = some (front, inside))
    (hclose : closeTag <:+: front) : nextThinkBlock cleaned = .absent := by
  cases hcut : cutAt closeTag front with
  | none => exact absurd hclose (cutAt_eq_none_iff.mp hcut)
  | some cut =>
      obtain ⟨before, behind⟩ := cut
      have hwhole := cutAt_append (openTag ++ inside) hcut
      rw [← List.append_assoc, ← cutAt_eq_some h] at hwhole
      have hlen := congrArg List.length (cutAt_eq_some hcut)
      simp only [List.length_append] at hlen
      rw [nextThinkBlock_tags, h, hwhole]
      exact if_neg (by omega)

/-- The next block: from the first opening tag to the first closing tag behind it. -/
theorem nextThinkBlock_open (h : cutAt openTag cleaned = some (front, inside))
    (hclose : ¬ closeTag <:+: front) :
    nextThinkBlock cleaned =
      match cutAt closeTag inside with
      | none => .unclosed front inside
      | some (thought, behind) => .closed front thought behind := by
  have hwhole : cutAt closeTag (front ++ (openTag ++ inside)) = _ := cutAt_closeTag hclose
  rw [← List.append_assoc, ← cutAt_eq_some h] at hwhole
  rw [nextThinkBlock_tags, h, hwhole]
  cases cutAt closeTag inside with
  | none => rfl
  | some cut =>
      have hlen : (front ++ openTag).length = front.length + 7 := by
        rw [List.length_append]
        rfl
      dsimp only [Option.map_some]
      rw [← List.append_assoc, if_pos (by rw [List.length_append]; omega), ← hlen,
        List.drop_left]

variable {before thought behind : List Char} {parts : List (List Char)}

theorem thinkLoop_absent (h : nextThinkBlock cleaned = .absent) :
    thinkLoop cleaned parts = (cleaned, parts) := by
  rw [thinkLoop]
  split
  · rfl
  · rename_i h'
    cases h.symm.trans h'
  · rename_i h'
    cases h.symm.trans h'

theorem thinkLoop_unclosed (h : nextThinkBlock cleaned = .unclosed before thought) :
    thinkLoop cleaned parts = (before, addThought parts thought) := by
  rw [thinkLoop]
  split
  · rename_i h'
    cases h.symm.trans h'
  · rename_i h'
    cases h.symm.trans h'
    rfl
  · rename_i h'
    cases h.symm.trans h'

theorem thinkLoop_closed (h : nextThinkBlock cleaned = .closed before thought behind) :
    thinkLoop cleaned parts = thinkLoop (before ++ behind) (addThought parts thought) := by
  rw [thinkLoop]
  split
  · rename_i h'
    cases h.symm.trans h'
  · rename_i h'
    cases h.symm.trans h'
  · rename_i h'
    cases h.symm.trans h'
    rfl

end Extractor

/-! ### Clean texts -/

section Loop

variable {kept text : List Char} {parts : List (List Char)}

/-- Behind text that is kept, the first opening tag stays the first. -/
theorem cutAt_kept {shown inside : List Char} (h : cutAt openTag text = some (shown, inside))
    (hkept : ¬ openTag <:+: kept ++ shown) :
    cutAt openTag (kept ++ text) = some (kept ++ shown, inside) := by
  rw [cutAt_eq_some h, List.append_assoc, ← List.append_assoc, openTag,
    cutAt_first mark_notMem_open hkept]

/-- Of a clean text the extractor keeps what is shown, and stores the thoughts. -/
theorem thinkLoop_clean (hclosing : ¬ closeTag <:+: kept ++ shownBefore text)
    (hopening : ¬ openTag <:+: kept ++ shownText text) :
    thinkLoop (kept ++ text) parts = (kept ++ shownText text, storedThoughts parts text) := by
  induction text using thinkBlocks.induct generalizing kept parts with
  | case1 text hopen =>
      rw [shownText_plain hopen] at hopening ⊢
      rw [thinkLoop_absent (nextThinkBlock_plain (cutAt_eq_none_iff.mpr hopening)),
        storedThoughts, thinkBlocks_plain hopen]
      rfl
  | case2 text shown inside hopen hclose =>
      rw [shownText_unclosed hopen hclose] at hopening ⊢
      rw [shownBefore_unclosed hopen hclose] at hclosing
      have hnext := nextThinkBlock_open (cutAt_kept hopen hopening) hclosing
      rw [hclose] at hnext
      rw [thinkLoop_unclosed hnext, storedThoughts, thinkBlocks_unclosed hopen hclose]
      rfl
  | case3 text shown inside hopen thought rest hclose ih =>
      rw [shownText_block hopen hclose, ← List.append_assoc] at hopening ⊢
      rw [shownBefore_block hopen hclose, ← List.append_assoc] at hclosing
      have hopening' : ¬ openTag <:+: kept ++ shown := fun h =>
        hopening (h.trans (List.prefix_append _ _).isInfix)
      have hclosing' : ¬ closeTag <:+: kept ++ shown := fun h =>
        hclosing (h.trans (List.prefix_append _ _).isInfix)
      have hnext := nextThinkBlock_open (cutAt_kept hopen hopening') hclosing'
      rw [hclose] at hnext
      rw [thinkLoop_closed hnext, ih hclosing hopening, storedThoughts, storedThoughts,
        thinkBlocks_block hopen hclose]
      rfl

/-! ### Other texts -/

/-- An opening tag stands in a text without a closing one in front of it. -/
def OpensFirst (text : List Char) : Prop :=
  ∃ front inside, cutAt openTag text = some (front, inside) ∧ ¬ closeTag <:+: front

/-- The extractor stops where no opening tag is left without a closing one in front of it. -/
theorem thinkLoop_not_opensFirst (cleaned : List Char) (parts : List (List Char)) :
    ¬ OpensFirst (thinkLoop cleaned parts).1 := by
  induction cleaned, parts using thinkLoop.induct with
  | case1 cleaned parts habsent =>
      rw [thinkLoop_absent habsent]
      rintro ⟨front, inside, hopen, hclose⟩
      rw [nextThinkBlock_open hopen hclose] at habsent
      split at habsent <;> cases habsent
  | case2 cleaned parts before thought hunclosed =>
      rw [thinkLoop_unclosed hunclosed]
      rintro ⟨front, inside, hopen, -⟩
      rw [nextThinkBlock_tags] at hunclosed
      split at hunclosed
      · cases hunclosed
      · rename_i hfirst
        split at hunclosed
        · cases hunclosed
          have hnone := cutAt_eq_none_iff.mpr (cutAt_front (List.cons_ne_nil _ _) hfirst)
          cases hopen.symm.trans hnone
        · split at hunclosed <;> cases hunclosed
  | case3 cleaned parts before thought behind hclosed ih =>
      rw [thinkLoop_closed hclosed]
      exact ih

/-- Where the visible text makes up an opening tag, that stands in front of what comes later. -/
theorem opensFirst_made_up {shown : List Char} (more : List Char)
    (hkept : ¬ closeTag <:+: kept) (hshown : ¬ openTag <:+: shown)
    (hmade : openTag <:+: kept ++ shown) : OpensFirst (kept ++ shown ++ more) := by
  cases hcut : cutAt openTag (kept ++ shown) with
  | none => exact absurd hmade (cutAt_eq_none_iff.mp hcut)
  | some cut =>
      obtain ⟨front, inside⟩ := cut
      refine ⟨front, inside ++ more, cutAt_append more hcut, fun hclose => ?_⟩
      exact hkept (hclose.trans (cutAt_straddles hshown hcut).isInfix)

/-- A text, with what trimming takes off. -/
theorem exists_trimmed (text : List Char) :
    ∃ front back, text = front ++ (trimmed text ++ back) ∧
      (∀ c ∈ front, isWhitespace c = true) ∧ ∀ c ∈ back, isWhitespace c = true := by
  refine ⟨text.takeWhile isWhitespace, (text.dropWhile isWhitespace).rtakeWhile isWhitespace,
    ?_, fun c hc => List.mem_takeWhile_imp hc, fun c hc => List.mem_rtakeWhile_imp hc⟩
  have hback : trimmed text ++ (text.dropWhile isWhitespace).rtakeWhile isWhitespace =
      text.dropWhile isWhitespace := List.rdropWhile_append_rtakeWhile
  rw [hback, List.takeWhile_append_dropWhile]

/-- Trimming takes off none of the characters that count. -/
theorem filter_trimmed (text : List Char) :
    (trimmed text).filter (fun c => !isWhitespace c) =
      text.filter fun c => !isWhitespace c := by
  obtain ⟨front, back, htext, hfront, hback⟩ := exists_trimmed text
  have hnil : ∀ cs : List Char, (∀ c ∈ cs, isWhitespace c = true) →
      cs.filter (fun c => !isWhitespace c) = [] := fun cs hcs =>
    List.filter_eq_nil_iff.mpr fun c hc => by simp [hcs c hc]
  conv_rhs => rw [htext]
  rw [List.filter_append, List.filter_append, hnil front hfront, hnil back hback,
    List.nil_append, List.append_nil]

/-- Trimming changes nothing about which tag comes first. -/
theorem opensFirst_trimmed (text : List Char) : OpensFirst (trimmed text) ↔ OpensFirst text := by
  obtain ⟨front, back, htext, hfront, hback⟩ := exists_trimmed text
  have hmark : '<' ∉ front := fun h => absurd (hfront _ h) (by decide)
  have hend : '>' ∉ back := fun h => absurd (hback _ h) (by decide)
  have hwhole : cutAt openTag text =
      (cutAt openTag (trimmed text ++ back)).map fun cut => (front ++ cut.1, cut.2) := by
    conv_lhs => rw [htext]
    exact cutAt_append_plain hmark
  constructor
  · rintro ⟨shown, inside, hopen, hclose⟩
    rw [cutAt_append back hopen] at hwhole
    exact ⟨front ++ shown, inside ++ back, hwhole, fun h => hclose (infix_of_notMem hmark h)⟩
  · rintro ⟨shown, inside, hopen, hclose⟩
    cases hcut : cutAt openTag (trimmed text) with
    | none =>
        have hnone : cutAt openTag (trimmed text ++ back) = none := by
          refine cutAt_eq_none_iff.mpr fun h => cutAt_eq_none_iff.mp hcut ?_
          have htag : openTag = "<think".toList ++ ['>'] := rfl
          rw [htag] at h ⊢
          exact infix_of_notMem_right hend h
        rw [hnone, hopen] at hwhole
        cases hwhole
    | some cut =>
        obtain ⟨shown', inside'⟩ := cut
        rw [cutAt_append back hcut, hopen] at hwhole
        cases hwhole
        refine ⟨shown', inside', hcut, fun h => hclose ?_⟩
        exact h.trans (List.suffix_append front shown').isInfix

/-- A block that is kept with its tags is more than what is shown of it. -/
theorem trimmed_kept_ne {front inside more : List Char} (hmore : more.Sublist inside) :
    trimmed (front ++ openTag ++ inside) ≠ trimmed (front ++ more) := by
  intro heq
  have hcount := congrArg (fun cs => (cs.filter fun c => !isWhitespace c).length) heq
  have hless := (hmore.filter fun c => !isWhitespace c).length_le
  have htag : (openTag.filter fun c => !isWhitespace c).length = 7 := by decide
  simp only [filter_trimmed, List.filter_append, List.length_append, htag] at hcount
  omega

/-- Where the visible text makes up an opening tag, the extractor keeps something else. -/
theorem thinkLoop_made_up {shown more : List Char} (hcloseKept : ¬ closeTag <:+: kept)
    (hshown : ¬ openTag <:+: shown) (hmade : openTag <:+: kept ++ shown)
    (htext : shownText text = shown ++ more) :
    trimmed (thinkLoop (kept ++ text) parts).1 ≠ trimmed (kept ++ shownText text) := by
  intro heq
  have hfirst := opensFirst_made_up more hcloseKept hshown hmade
  rw [List.append_assoc, ← htext, ← opensFirst_trimmed, ← heq, opensFirst_trimmed] at hfirst
  exact thinkLoop_not_opensFirst _ _ hfirst

/-- So it does where a closing tag among the visible text stops it at a block. -/
theorem thinkLoop_stray {shown inside more : List Char}
    (hopen : cutAt openTag text = some (shown, inside)) (hmade : ¬ openTag <:+: kept ++ shown)
    (hclose : closeTag <:+: kept ++ shown) (hmore : more.Sublist inside)
    (htext : shownText text = shown ++ more) :
    trimmed (thinkLoop (kept ++ text) parts).1 ≠ trimmed (kept ++ shownText text) := by
  have hstop : kept ++ text = kept ++ shown ++ openTag ++ inside := by
    rw [cutAt_eq_some hopen]
    simp only [List.append_assoc]
  rw [thinkLoop_absent (nextThinkBlock_stray (cutAt_kept hopen hmade) hclose), hstop, htext,
    ← List.append_assoc]
  exact trimmed_kept_ne hmore

/-- Of any other text the extractor keeps something else than what is shown. -/
theorem thinkLoop_unclean (hcloseKept : ¬ closeTag <:+: kept)
    (h : closeTag <:+: kept ++ shownBefore text ∨ openTag <:+: kept ++ shownText text) :
    trimmed (thinkLoop (kept ++ text) parts).1 ≠ trimmed (kept ++ shownText text) := by
  induction text using thinkBlocks.induct generalizing kept parts with
  | case1 text hopen =>
      have htext := shownText_plain hopen
      rw [shownBefore_plain hopen, List.append_nil] at h
      refine thinkLoop_made_up hcloseKept (cutAt_eq_none_iff.mp hopen) ?_
        (htext.trans (List.append_nil text).symm)
      rw [← htext]
      exact h.resolve_left hcloseKept
  | case2 text shown inside hopen hclose =>
      have hshown : ¬ openTag <:+: shown := cutAt_front (List.cons_ne_nil _ _) hopen
      have htext : shownText text = shown ++ [] := by
        rw [shownText_unclosed hopen hclose, List.append_nil]
      rw [shownBefore_unclosed hopen hclose, shownText_unclosed hopen hclose] at h
      by_cases hmade : openTag <:+: kept ++ shown
      · exact thinkLoop_made_up hcloseKept hshown hmade htext
      · exact thinkLoop_stray hopen hmade (h.resolve_right hmade) (List.nil_sublist _) htext
  | case3 text shown inside hopen thought rest hclose ih =>
      have hshown : ¬ openTag <:+: shown := cutAt_front (List.cons_ne_nil _ _) hopen
      have htext := shownText_block hopen hclose
      by_cases hmade : openTag <:+: kept ++ shown
      · exact thinkLoop_made_up hcloseKept hshown hmade htext
      by_cases hstray : closeTag <:+: kept ++ shown
      · have hmore : (shownText rest).Sublist inside := by
          rw [cutAt_eq_some hclose]
          exact (shownText_sublist rest).trans (List.sublist_append_right _ rest)
        exact thinkLoop_stray hopen hmade hstray hmore htext
      · have hnext := nextThinkBlock_open (cutAt_kept hopen hmade) hstray
        rw [hclose] at hnext
        rw [shownBefore_block hopen hclose, htext, ← List.append_assoc, ← List.append_assoc] at h
        rw [thinkLoop_closed hnext, htext, ← List.append_assoc]
        exact ih hstray h

/-- **The two readers.** What the extractor keeps of a text is what the filter shows of it, up to
the whitespace around it, exactly if the text is clean. -/
theorem thinkLoop_eq_iff :
    trimmed (thinkLoop text []).1 = trimmed (shownText text) ↔ Clean text := by
  constructor
  · intro heq
    by_contra hclean
    have hunclean : closeTag <:+: [] ++ shownBefore text ∨ openTag <:+: [] ++ shownText text →
        trimmed (thinkLoop ([] ++ text) []).1 ≠ trimmed ([] ++ shownText text) :=
      thinkLoop_unclean (by decide)
    refine hunclean ?_ heq
    by_contra hnot
    rw [not_or] at hnot
    exact hclean ⟨hnot.1, hnot.2⟩
  · intro hclean
    have hloop : thinkLoop ([] ++ text) [] = ([] ++ shownText text, storedThoughts [] text) :=
      thinkLoop_clean hclean.closing hclean.opening
    rw [List.nil_append] at hloop
    rw [hloop, List.nil_append]

end Loop

end ArmaraOS.Drivers
