import ArmaraOS.Agent.ReplyDirectives
import ArmaraOS.Lib.Spans

/-!
What a whole reply shows, compared with the reply without its tags.

The tags are the spans from `[[` to the next `]]`. A tag that is not ASCII is skipped by its
length in bytes, so characters behind it are lost with it. The visible text is the text without its
tags, and the directives are theirs, where every tag is ASCII or ends the text.
-/

namespace ArmaraOS.Agent

open ArmaraOS.Lib ArmaraOS.Lib.Framing ArmaraOS.Text StreamingDirectiveAccumulator

/-! ### The tags as spans -/

/-- `[[` and `]]`. -/
def tagBrackets : Brackets Char := ⟨"[[".toList, "]]".toList, by decide⟩

/-- The text without its tags. -/
def withoutTags (text : List Char) : List Char :=
  Brackets.outside (tagBrackets.split text).1 (tagBrackets.split text).2

/-- The contents of the tags, in order. -/
def tagContents (text : List Char) : List (List Char) := (tagBrackets.split text).1.map Prod.snd

/-- All characters are ASCII. -/
def AsciiTag (content : List Char) : Prop := ∀ c ∈ content, c.utf8Size = 1

/-- Every tag is ASCII, or nothing stands behind it. -/
def NothingSkipped : List (List Char × List Char) → List Char → Prop
  | [], _ => True
  | (_, content) :: parts, tail =>
      (AsciiTag content ∨ parts = [] ∧ tail = []) ∧ NothingSkipped parts tail

/-- Every tag but the last is ASCII. -/
def AsciiButLast : List (List Char × List Char) → Prop
  | [] => True
  | (_, content) :: parts => (AsciiTag content ∨ parts = []) ∧ AsciiButLast parts

/-! ### Reading to the first tag -/

theorem tagAt_eq_none_of_cut {text : List Char} (h : tagBrackets.cut text = none) :
    tagAt text = none := by
  cases htag : tagAt text with
  | none => rfl
  | some content =>
      obtain ⟨behind, rfl, -⟩ := tagAt_eq_some_iff.mp htag
      refine absurd ⟨[], _, rfl, ?_⟩ (Brackets.cut_eq_none_iff.mp h)
      exact ⟨content, behind, rfl⟩

/-- A text without tags is shown as it is. -/
theorem visible_of_cut_none {text : List Char} (h : tagBrackets.cut text = none) :
    visible text = text ∧ contents text = [] := by
  induction text with
  | nil => exact ⟨by rw [visible, consumeLoop], by rw [contents, tagsFrom]; rfl⟩
  | cons c text ih =>
      have htag := tagAt_eq_none_of_cut h
      obtain ⟨hvisible, hcontents⟩ := ih (Brackets.cut_eq_none_of_cons h)
      exact ⟨by rw [visible_literal htag, hvisible], by rw [contents_literal htag, hcontents]⟩

/-- The characters behind a tag that are skipped with it. -/
def overrun (content : List Char) : Nat := byteLength content - content.length

theorem overrun_eq_zero {content : List Char} (h : AsciiTag content) : overrun content = 0 := by
  have hlen := tagLen_eq h
  rw [tagLen] at hlen
  rw [overrun]
  omega

theorem overrun_pos {content : List Char} (h : ¬ AsciiTag content) : 0 < overrun content := by
  refine Nat.sub_pos_of_lt (Nat.lt_of_le_of_ne (length_le_byteLength content) fun heq => h ?_)
  induction content with
  | nil => exact fun c hc => absurd hc List.not_mem_nil
  | cons c cs ih =>
      have hc := c.utf8Size_pos
      have hcs := length_le_byteLength cs
      rw [byteLength_cons, List.length_cons] at heq
      rw [AsciiTag, List.forall_mem_cons]
      exact ⟨by omega, ih (fun hall => h (List.forall_mem_cons.mpr ⟨by omega, hall⟩)) (by omega)⟩

theorem drop_tag (content behind : List Char) :
    ("[[".toList ++ (content ++ "]]".toList ++ behind)).drop (tagLen content) =
      behind.drop (overrun content) := by
  have htwo : "[[".toList.length = 2 ∧ "]]".toList.length = 2 := by decide
  have hlen := length_le_byteLength content
  have hskip : tagLen content =
      ("[[".toList ++ (content ++ "]]".toList)).length + overrun content := by
    simp only [List.length_append, htwo.1, htwo.2, tagLen, overrun]
    omega
  have hwhole : "[[".toList ++ (content ++ "]]".toList ++ behind) =
      "[[".toList ++ (content ++ "]]".toList) ++ behind := by
    simp only [List.append_assoc]
  rw [hskip, hwhole, ← List.drop_drop, List.drop_left]

/-- What stands before the first tag is shown, and reading goes on behind the characters that are
skipped with the tag. -/
theorem visible_of_cut_some {content behind : List Char} : ∀ {before text : List Char},
    tagBrackets.cut text = some (before, content, behind) →
    visible text = before ++ visible (behind.drop (overrun content)) ∧
      contents text = content :: contents (behind.drop (overrun content))
  | [], text, h => by
      obtain ⟨hopen, hclose⟩ := Brackets.cut_eq_some h
      have htext : text = "[[".toList ++ (content ++ "]]".toList ++ behind) := cutAt_eq_some hopen
      have htag : tagAt text = some content := tagAt_eq_some_iff.mpr ⟨behind, htext, hclose⟩
      rw [visible_tag htag, contents_tag htag, htext, drop_tag]
      exact ⟨rfl, rfl⟩
  | c :: before, text, h => by
      obtain ⟨text, rfl⟩ : ∃ rest, text = c :: rest := ⟨_, Brackets.eq_of_cut h⟩
      obtain ⟨hplain, hrest⟩ := Brackets.cut_of_cons h
      have htag : tagAt (c :: text) = none := by
        cases htag : tagAt (c :: text) with
        | none => rfl
        | some content =>
            obtain ⟨behind, htext, -⟩ := tagAt_eq_some_iff.mp htag
            exact absurd ⟨_, htext.symm⟩ hplain
      obtain ⟨hvisible, hcontents⟩ := visible_of_cut_some hrest
      rw [visible_literal htag, contents_literal htag, hvisible, hcontents]
      exact ⟨rfl, rfl⟩

/-! ### All tags -/

theorem withoutTags_of_cut_some {text before content behind : List Char}
    (h : tagBrackets.cut text = some (before, content, behind)) :
    withoutTags text = before ++ withoutTags behind ∧
      tagContents text = content :: tagContents behind := by
  rw [withoutTags, tagContents, Brackets.split_of_some h]
  exact ⟨List.append_assoc _ _ _, rfl⟩

/-- Where nothing is skipped behind a tag, the text is shown without its tags. -/
theorem visible_eq_withoutTags {text : List Char}
    (h : NothingSkipped (tagBrackets.split text).1 (tagBrackets.split text).2) :
    visible text = withoutTags text ∧ contents text = tagContents text := by
  induction text using Brackets.split.induct tagBrackets with
  | case1 text hcut =>
      rw [withoutTags, tagContents, Brackets.split_of_none hcut]
      exact visible_of_cut_none hcut
  | case2 text before content behind hcut ih =>
      rw [Brackets.split_of_some hcut] at h
      obtain ⟨hcontent, hbehind⟩ := h
      have hdrop : behind.drop (overrun content) = behind := by
        rcases hcontent with hascii | ⟨hparts, htail⟩
        · rw [overrun_eq_zero hascii, List.drop_zero]
        · have hempty := tagBrackets.join_split behind
          rw [hparts, htail] at hempty
          rw [← hempty]
          exact List.drop_nil
      obtain ⟨hvisible, hcontents⟩ := ih hbehind
      obtain ⟨hshown, hread⟩ := visible_of_cut_some hcut
      obtain ⟨houtside, htags⟩ := withoutTags_of_cut_some hcut
      rw [hshown, hread, houtside, htags, hdrop, hvisible, hcontents]
      exact ⟨rfl, rfl⟩

/-- Where only the last tag may be skipped too far, it is seen in what is shown. -/
theorem nothingSkipped_of_visible {text : List Char}
    (hlast : AsciiButLast (tagBrackets.split text).1) (h : visible text = withoutTags text) :
    NothingSkipped (tagBrackets.split text).1 (tagBrackets.split text).2 := by
  induction text using Brackets.split.induct tagBrackets with
  | case1 text hcut =>
      rw [Brackets.split_of_none hcut]
      trivial
  | case2 text before content behind hcut ih =>
      rw [Brackets.split_of_some hcut] at hlast ⊢
      obtain ⟨hcontent, hbehind⟩ := hlast
      obtain ⟨hshown, -⟩ := visible_of_cut_some hcut
      obtain ⟨houtside, -⟩ := withoutTags_of_cut_some hcut
      rw [hshown, houtside, List.append_cancel_left_eq] at h
      by_cases hascii : AsciiTag content
      · rw [overrun_eq_zero hascii, List.drop_zero] at h
        exact ⟨.inl hascii, ih hbehind h⟩
      · -- The last tag: what stands behind it is shown only from the overrun on.
        have hparts := hcontent.resolve_left hascii
        have hplain : tagBrackets.cut behind = none := by
          cases hnext : tagBrackets.cut behind with
          | none => rfl
          | some cut =>
              rw [Brackets.split_of_some hnext] at hparts
              cases hparts
        have hall : withoutTags behind = behind := by
          rw [withoutTags, Brackets.split_of_none hplain]
          rfl
        rw [(visible_of_cut_none (Brackets.cut_drop_eq_none hplain _)).1, hall] at h
        have hlen := congrArg List.length h
        have hpos := overrun_pos hascii
        rw [List.length_drop] at hlen
        have hempty : behind = [] := List.length_eq_zero_iff.mp (by omega)
        subst hempty
        rw [Brackets.split_of_none hplain]
        exact ⟨.inr ⟨rfl, rfl⟩, trivial⟩

/-! ### The directives -/

/-- The directives of some tags, in order. -/
def directivesOf (contents : List (List Char)) (directives : DirectiveSet) : DirectiveSet :=
  contents.foldl (fun directives content => parseTag content directives) directives

theorem consumeLoop_directives (directives : DirectiveSet) (text : List Char) :
    (consumeLoop true directives text).2.directives = directivesOf (contents text) directives := by
  suffices h : ∀ (pos : Nat) (text : List Char) (directives : DirectiveSet),
      (consumeLoop true directives text).2.directives = directivesOf (contents text) directives from
    h 0 text directives
  intro pos text
  induction pos, text using tagsFrom_induction with
  | nil pos =>
      intro directives
      rw [consumeLoop, contents, tagsFrom]
      rfl
  | tag pos ch rest content htag ih =>
      intro directives
      rw [consumeLoop_tag htag, contents_tag htag]
      exact ih _
  | literal pos ch rest htag ih =>
      intro directives
      rw [consumeLoop_literal htag (holdsBack_final _), contents_literal htag]
      exact ih _

/-- A whole text is shown without its tags, and the directives are those of its tags. -/
def StripsTags (text : List Char) : Prop :=
  let read := StreamingDirectiveAccumulator.consume {} text true
  read.1 = withoutTags text ∧ read.2.directives = directivesOf (tagContents text) {}

/-- For every text: it is shown without its tags, with the directives of its tags, if every tag is
ASCII or ends the text. For a text whose tags are ASCII up to the last one, only then. -/
theorem consume_strips_tags (text : List Char) :
    (NothingSkipped (tagBrackets.split text).1 (tagBrackets.split text).2 → StripsTags text) ∧
      (AsciiButLast (tagBrackets.split text).1 →
        (StripsTags text ↔
          NothingSkipped (tagBrackets.split text).1 (tagBrackets.split text).2)) := by
  obtain ⟨hshown, hset⟩ := consume_final {} text
  rw [List.nil_append, consumeLoop_visible] at hshown
  rw [List.nil_append, consumeLoop_directives] at hset
  have hstrips : NothingSkipped (tagBrackets.split text).1 (tagBrackets.split text).2 →
      StripsTags text := by
    intro h
    obtain ⟨hvisible, hcontents⟩ := visible_eq_withoutTags h
    rw [StripsTags, hshown, hset, hvisible, hcontents]
    exact ⟨rfl, rfl⟩
  refine ⟨hstrips, fun hlast => ⟨fun h => ?_, hstrips⟩⟩
  exact nothingSkipped_of_visible hlast (hshown ▸ h.1)

theorem consume_strips_tags_accent : StripsTags "a[[silent]]b[[é]]".toList := by
  have hfirst : tagBrackets.cut "a[[silent]]b[[é]]".toList =
      some ("a".toList, "silent".toList, "b[[é]]".toList) := by
    decide
  have hsecond : tagBrackets.cut "b[[é]]".toList = some ("b".toList, "é".toList, []) := by decide
  have hnone : tagBrackets.cut [] = none := by decide
  have hascii : AsciiTag "silent".toList := by simp [AsciiTag, Char.utf8Size]
  refine (consume_strips_tags _).1 ?_
  rw [Brackets.split_of_some hfirst, Brackets.split_of_some hsecond, Brackets.split_of_none hnone]
  exact ⟨.inl hascii, .inr ⟨rfl, rfl⟩, trivial⟩

/-- The character behind a tag that is not ASCII is lost with it. -/
theorem accent_tag_takes_next : ¬ ∀ text, StripsTags text := by
  intro h
  have hcut : tagBrackets.cut "[[é]]x".toList = some ([], "é".toList, "x".toList) := by decide
  have hnone : tagBrackets.cut "x".toList = none := by decide
  have hshown := (h "[[é]]x".toList).1
  rw [(consume_final {} _).1, List.nil_append, consumeLoop_visible] at hshown
  have hlast : AsciiButLast (tagBrackets.split "[[é]]x".toList).1 := by
    rw [Brackets.split_of_some hcut, Brackets.split_of_none hnone]
    exact ⟨.inr rfl, trivial⟩
  have hskipped := nothingSkipped_of_visible hlast hshown
  rw [Brackets.split_of_some hcut, Brackets.split_of_none hnone] at hskipped
  rcases hskipped.1 with hascii | ⟨-, htail⟩
  · exact absurd (hascii 'é' (by decide)) (by decide)
  · exact absurd htail (by decide)

end ArmaraOS.Agent
