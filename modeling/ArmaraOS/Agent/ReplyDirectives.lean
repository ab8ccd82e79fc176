import ArmaraOS.Agent.Replies
import ArmaraOS.Lib.ByteSlices
import ArmaraOS.Lib.HoldBack

/-!
Reply directives in a stream (`openfang-runtime/src/reply_directives.rs`).

The accumulator reads a text chunk by chunk. What it shows and the directives it collects are
compared with those of the whole text, for texts whose tags are short enough to be held back.
They are the same when no chunk ends between the two opening brackets of a tag, nor within the
characters that are skipped behind a tag because a tag is skipped by its length in bytes.
-/

namespace ArmaraOS.Agent

open ArmaraOS.Lib.Framing ArmaraOS.Text

/-! ### The accumulator -/

/-- `StreamingDirectiveAccumulator`. -/
structure StreamingDirectiveAccumulator where
  partialTag : List Char := []
  directives : DirectiveSet := {}

/-- `MAX_PARTIAL_LEN`. -/
def maxPartialLen : Nat := 30

/-- The content of the tag that a text starts with. -/
def tagAt (input : List Char) : Option (List Char) :=
  ("[[".toList.isPrefixOf? input).bind fun afterOpen =>
    (cutAt "]]".toList afterOpen).map Prod.fst

/-- The length of a tag in bytes: `[[`, content and `]]`. -/
def tagLen (content : List Char) : Nat := 2 + byteLength content + 2

namespace StreamingDirectiveAccumulator

/-- The loop of `consume`. A tag is skipped by as many characters as it has bytes. -/
def consumeLoop (isFinal : Bool) (directives : DirectiveSet) :
    List Char → List Char × StreamingDirectiveAccumulator
  | [] => ([], { directives := directives })
  | ch :: rest =>
      match tagAt (ch :: rest) with
      | some content =>
          consumeLoop isFinal (parseTag content directives) ((ch :: rest).drop (tagLen content))
      | none =>
          if "[[".toList.isPrefixOf (ch :: rest) && !isFinal &&
              decide (byteLength (ch :: rest) < maxPartialLen) then
            ([], { partialTag := ch :: rest, directives := directives })
          else
            let next := consumeLoop isFinal directives rest
            (ch :: next.1, next.2)
termination_by input => input.length
decreasing_by
  · simp only [List.length_drop, List.length_cons, tagLen]
    omega
  · exact Nat.lt_succ_self _

/-- `consume`. -/
def consume (acc : StreamingDirectiveAccumulator) (chunk : List Char) (isFinal : Bool) :
    List Char × StreamingDirectiveAccumulator :=
  let read := consumeLoop isFinal acc.directives (acc.partialTag ++ chunk)
  if isFinal then (read.1 ++ read.2.partialTag, { read.2 with partialTag := [] }) else read

/-- The chunks one after the other, the last one final: the visible text, and the directives. -/
def stream (acc : StreamingDirectiveAccumulator) :
    List (List Char) → List Char → List Char × DirectiveSet
  | [], last => ((acc.consume last true).1, (acc.consume last true).2.directives)
  | chunk :: chunks, last =>
      let next := (acc.consume chunk false).2.stream chunks last
      ((acc.consume chunk false).1 ++ next.1, next.2)

end StreamingDirectiveAccumulator

/-! ### The tags of a text -/

/-- A tag: where it starts, and its content. -/
structure Tag where
  start : Nat
  content : List Char

/-- The tags that the whole text is read with, from a position on. -/
def tagsFrom (pos : Nat) : List Char → List Tag
  | [] => []
  | ch :: rest =>
      match tagAt (ch :: rest) with
      | some content =>
          ⟨pos, content⟩ ::
            tagsFrom (pos + tagLen content) ((ch :: rest).drop (tagLen content))
      | none => tagsFrom (pos + 1) rest
termination_by input => input.length
decreasing_by
  · simp only [List.length_drop, List.length_cons, tagLen]
    omega
  · exact Nat.lt_succ_self _

/-- Induction along the reading of a text: a tag is left behind as a whole. -/
theorem tagsFrom_induction {motive : Nat → List Char → Prop} (nil : ∀ pos, motive pos [])
    (tag : ∀ pos ch rest content, tagAt (ch :: rest) = some content →
      motive (pos + tagLen content) ((ch :: rest).drop (tagLen content)) → motive pos (ch :: rest))
    (literal : ∀ pos ch rest, tagAt (ch :: rest) = none → motive (pos + 1) rest →
      motive pos (ch :: rest)) (pos : Nat) (input : List Char) : motive pos input :=
  tagsFrom.induct motive nil tag literal pos input

/-- All characters of the tag are ASCII. -/
def Tag.IsAscii (tag : Tag) : Prop := ∀ c ∈ tag.content, c.utf8Size = 1

/-- No chunk may end here: between the opening brackets of the tag, or among the characters that
are skipped behind it. -/
def Tag.Splits (tag : Tag) (cut : Nat) : Prop :=
  cut = tag.start + 1 ∨
    (tag.start + (tag.content.length + 4) ≤ cut ∧ cut < tag.start + tagLen tag.content)

/-- Where the chunks end, the last one apart. -/
def cutsFrom (pos : Nat) : List (List Char) → List Nat
  | [] => []
  | chunk :: chunks => (pos + chunk.length) :: cutsFrom (pos + chunk.length) chunks

/-! ### Reading one character or one tag -/

theorem tagAt_eq_some_iff {input content : List Char} :
    tagAt input = some content ↔ ∃ behind,
      input = "[[".toList ++ (content ++ "]]".toList ++ behind) ∧
      cutAt "]]".toList (content ++ "]]".toList ++ behind) = some (content, behind) := by
  constructor
  · intro h
    obtain ⟨afterOpen, hopen, hclose⟩ := Option.bind_eq_some_iff.mp h
    obtain ⟨⟨content', behind⟩, hcut, rfl⟩ := Option.map_eq_some_iff.mp hclose
    have hafter := cutAt_eq_some hcut
    rw [← List.isPrefixOf?_eq_some_iff_append_eq.mp hopen, hafter]
    exact ⟨behind, rfl, hafter ▸ hcut⟩
  · rintro ⟨behind, rfl, hcut⟩
    rw [tagAt, List.isPrefixOf?_eq_some_iff_append_eq.mpr rfl, Option.bind_some, hcut]
    rfl

theorem tagAt_append {input content : List Char} (h : tagAt input = some content)
    (more : List Char) : tagAt (input ++ more) = some content := by
  obtain ⟨behind, rfl, hcut⟩ := tagAt_eq_some_iff.mp h
  refine tagAt_eq_some_iff.mpr ⟨behind ++ more, ?_, ?_⟩
  · simp only [List.append_assoc]
  · have hmore := cutAt_append more hcut
    simpa only [List.append_assoc] using hmore

/-- A tag is a piece of the text. -/
theorem tagAt_length {input content : List Char} (h : tagAt input = some content) :
    content.length + 4 ≤ input.length := by
  obtain ⟨behind, rfl, -⟩ := tagAt_eq_some_iff.mp h
  have htwo : "[[".toList.length = 2 ∧ "]]".toList.length = 2 := by decide
  simp only [List.length_append, htwo.1, htwo.2]
  omega

theorem tagLen_le (content : List Char) : content.length + 4 ≤ tagLen content := by
  have h := length_le_byteLength content
  rw [tagLen]
  omega

theorem tagLen_eq {content : List Char} (h : ∀ c ∈ content, c.utf8Size = 1) :
    tagLen content = content.length + 4 := by
  rw [tagLen, byteLength_of_ascii h]
  omega

/-- An ASCII tag is skipped exactly. -/
theorem exists_behind_tag {input content : List Char} (h : tagAt input = some content)
    (hascii : ∀ c ∈ content, c.utf8Size = 1) :
    ∃ behind, input = "[[".toList ++ (content ++ "]]".toList ++ behind) ∧
      cutAt "]]".toList (content ++ "]]".toList ++ behind) = some (content, behind) ∧
      input.drop (tagLen content) = behind := by
  obtain ⟨behind, rfl, hcut⟩ := tagAt_eq_some_iff.mp h
  refine ⟨behind, rfl, hcut, ?_⟩
  have htwo : "[[".toList.length = 2 ∧ "]]".toList.length = 2 := by decide
  have hlength : ("[[".toList ++ (content ++ "]]".toList)).length = tagLen content := by
    rw [tagLen_eq hascii, List.length_append, List.length_append, htwo.1, htwo.2]
    omega
  rw [← List.append_assoc, List.drop_left' hlength]

/-! #### The whole text -/

theorem tagsFrom_tag {pos : Nat} {input content : List Char} (h : tagAt input = some content) :
    tagsFrom pos input =
      ⟨pos, content⟩ :: tagsFrom (pos + tagLen content) (input.drop (tagLen content)) := by
  cases input with
  | nil => cases h
  | cons ch rest =>
      rw [tagsFrom, h]

theorem tagsFrom_literal {pos : Nat} {ch : Char} {rest : List Char}
    (h : tagAt (ch :: rest) = none) : tagsFrom pos (ch :: rest) = tagsFrom (pos + 1) rest := by
  rw [tagsFrom, h]

namespace StreamingDirectiveAccumulator

theorem consumeLoop_tag {isFinal : Bool} {directives : DirectiveSet} {input content : List Char}
    (h : tagAt input = some content) :
    consumeLoop isFinal directives input =
      consumeLoop isFinal (parseTag content directives) (input.drop (tagLen content)) := by
  cases input with
  | nil => cases h
  | cons ch rest =>
      rw [consumeLoop, h]

/-- Whether a text without a tag in front is held back. -/
def holdsBack (isFinal : Bool) (input : List Char) : Bool :=
  "[[".toList.isPrefixOf input && !isFinal && decide (byteLength input < maxPartialLen)

theorem consumeLoop_held {isFinal : Bool} {directives : DirectiveSet} {ch : Char}
    {rest : List Char} (h : tagAt (ch :: rest) = none)
    (hheld : holdsBack isFinal (ch :: rest) = true) :
    consumeLoop isFinal directives (ch :: rest) =
      ([], { partialTag := ch :: rest, directives := directives }) := by
  rw [consumeLoop, h]
  exact if_pos hheld

theorem consumeLoop_literal {isFinal : Bool} {directives : DirectiveSet} {ch : Char}
    {rest : List Char} (h : tagAt (ch :: rest) = none)
    (hheld : holdsBack isFinal (ch :: rest) = false) :
    consumeLoop isFinal directives (ch :: rest) =
      (ch :: (consumeLoop isFinal directives rest).1, (consumeLoop isFinal directives rest).2) := by
  rw [consumeLoop, h]
  exact if_neg (by rw [← holdsBack, hheld]; exact Bool.false_ne_true)

@[simp] theorem holdsBack_final (input : List Char) : holdsBack true input = false := by
  simp [holdsBack]

end StreamingDirectiveAccumulator

/-! ### What more text does to a tag -/

theorem byteLength_brackets :
    byteLength "[[".toList = 2 ∧ byteLength "]]".toList = 2 := by
  decide

/-- A tag that lies in front of what arrives later was there before. -/
theorem tagAt_of_append {input more content : List Char} (h : tagAt (input ++ more) = some content)
    (hlen : content.length + 4 ≤ input.length) : tagAt input = some content := by
  obtain ⟨behind, htext, -⟩ := tagAt_eq_some_iff.mp h
  cases hinput : tagAt input with
  | some content' => exact (tagAt_append hinput more).symm.trans h
  | none =>
      have htag : "[[".toList ++ (content ++ "]]".toList) <+: input := by
        have hwhole : "[[".toList ++ (content ++ "]]".toList) <+: input ++ more :=
          ⟨behind, by rw [htext]; simp only [List.append_assoc]⟩
        refine List.prefix_of_prefix_length_le hwhole (List.prefix_append _ _) ?_
        have htwo : "[[".toList.length = 2 ∧ "]]".toList.length = 2 := by decide
        simp only [List.length_append, htwo.1, htwo.2]
        omega
      obtain ⟨tail, rfl⟩ := htag
      rw [tagAt, List.append_assoc, List.isPrefixOf?_eq_some_iff_append_eq.mpr rfl,
        Option.bind_some, Option.map_eq_none_iff, cutAt_eq_none_iff] at hinput
      exact absurd ⟨content, tail, rfl⟩ hinput

/-- What is there of a tag that is completed later is no longer than the tag. -/
theorem byteLength_le_tagLen {input more content : List Char}
    (h : tagAt (input ++ more) = some content) (hnone : tagAt input = none) :
    byteLength input ≤ tagLen content := by
  obtain ⟨behind, htext, -⟩ := tagAt_eq_some_iff.mp h
  have hprefix : input <+: "[[".toList ++ (content ++ "]]".toList) := by
    rcases Nat.lt_or_ge input.length (content.length + 4) with hlt | hge
    · refine List.prefix_of_prefix_length_le (List.prefix_append input more) ?_ ?_
      · exact ⟨behind, by rw [htext]; simp only [List.append_assoc]⟩
      · have htwo : "[[".toList.length = 2 ∧ "]]".toList.length = 2 := by decide
        simp only [List.length_append, htwo.1, htwo.2]
        omega
    · cases hnone.symm.trans (tagAt_of_append h hge)
  obtain ⟨tail, htail⟩ := hprefix
  have hbytes := congrArg byteLength htail
  simp only [byteLength_append, byteLength_brackets.1, byteLength_brackets.2] at hbytes
  rw [tagLen]
  omega

/-- A text that is completed to a tag, and is not the start of one yet, is a single bracket. -/
theorem eq_bracket_of_append {ch : Char} {rest more content : List Char}
    (h : tagAt (ch :: rest ++ more) = some content)
    (hopen : "[[".toList.isPrefixOf (ch :: rest) = false) : ch = '[' ∧ rest = [] := by
  obtain ⟨behind, htext, -⟩ := tagAt_eq_some_iff.mp h
  have hbrackets : "[[".toList = ['[', '['] := by decide
  rw [hbrackets] at htext hopen
  obtain ⟨rfl, hrest⟩ := List.cons.inj htext
  cases rest with
  | nil => exact ⟨rfl, rfl⟩
  | cons c rest =>
      obtain ⟨rfl, -⟩ := List.cons.inj hrest
      exact absurd hopen (by simp [List.isPrefixOf])

/-- Where nothing closes a tag, there is none. -/
theorem tagAt_eq_none {input : List Char} (h : ¬ "]]".toList <:+: input) : tagAt input = none := by
  cases hinput : tagAt input with
  | none => rfl
  | some content =>
      obtain ⟨behind, rfl, -⟩ := tagAt_eq_some_iff.mp hinput
      exact absurd ⟨"[[".toList ++ content, behind, by simp only [List.append_assoc]⟩ h

theorem tagsFrom_eq_nil {pos : Nat} {input : List Char} (h : ¬ "]]".toList <:+: input) :
    tagsFrom pos input = [] := by
  induction input generalizing pos with
  | nil => rw [tagsFrom]
  | cons ch rest ih =>
      rw [tagsFrom_literal (tagAt_eq_none h)]
      exact ih fun hrest => h (List.infix_cons hrest)

/-- An opening that nothing closes has no tag behind it either. -/
theorem tagsFrom_eq_nil_of_open {pos : Nat} {input : List Char}
    (hopen : "[[".toList.isPrefixOf input = true) (h : tagAt input = none) :
    tagsFrom pos input = [] := by
  obtain ⟨afterOpen, rfl⟩ := List.isPrefixOf_iff_prefix.mp hopen
  rw [tagAt, List.isPrefixOf?_eq_some_iff_append_eq.mpr rfl, Option.bind_some,
    Option.map_eq_none_iff, cutAt_eq_none_iff] at h
  apply tagsFrom_eq_nil
  have hbrackets : "[[".toList = ['[', '['] ∧ "]]".toList = [']', ']'] := by decide
  rw [hbrackets.2] at h ⊢
  rw [hbrackets.1]
  simpa [List.infix_cons_iff] using h

/-- The tags lie in the text. -/
theorem start_of_mem_tagsFrom {pos : Nat} {input : List Char} {tag : Tag}
    (h : tag ∈ tagsFrom pos input) :
    pos ≤ tag.start ∧ tag.start + 4 ≤ pos + input.length := by
  induction pos, input using tagsFrom_induction with
  | nil pos => simp [tagsFrom] at h
  | tag pos ch rest content htag ih =>
      rw [tagsFrom_tag htag] at h
      have hlong := tagLen_le content
      have hlen := tagAt_length htag
      rcases List.mem_cons.mp h with rfl | h
      · exact ⟨Nat.le_refl _, by dsimp only; omega⟩
      · obtain ⟨hle, hin⟩ := ih h
        rw [List.length_drop] at hin
        omega
  | literal pos ch rest htag ih =>
      rw [tagsFrom_literal htag] at h
      obtain ⟨hle, hin⟩ := ih h
      rw [List.length_cons]
      omega

namespace StreamingDirectiveAccumulator

/-! ### One chunk -/

/-- Reading a chunk, with what is held back, goes on like reading the whole: what it shows and
what is shown from there on make up the whole, and so do the tags. -/
structure Resumes (directives : DirectiveSet) (pos : Nat) (input more : List Char)
    (shown : List Char) (acc : StreamingDirectiveAccumulator) : Prop where
  read : consumeLoop true directives (input ++ more) =
    (shown ++ (consumeLoop true acc.directives (acc.partialTag ++ more)).1,
      (consumeLoop true acc.directives (acc.partialTag ++ more)).2)
  tags : ∃ pos' done,
    tagsFrom pos (input ++ more) = done ++ tagsFrom pos' (acc.partialTag ++ more) ∧
    (more ≠ [] → pos' + acc.partialTag.length = pos + input.length ∧
      ∀ tag ∈ done, tag.start + 4 ≤ pos + input.length)

/-- **A chunk that splits no tag.** -/
theorem resumes_consumeLoop (more : List Char) {pos : Nat} {input : List Char}
    (hshort : ∀ tag ∈ tagsFrom pos (input ++ more), tagLen tag.content < maxPartialLen)
    (hcut : more ≠ [] → ∀ tag ∈ tagsFrom pos (input ++ more), ¬ tag.Splits (pos + input.length))
    (directives : DirectiveSet) :
    Resumes directives pos input more (consumeLoop false directives input).1
      (consumeLoop false directives input).2 := by
  induction pos, input using tagsFrom_induction generalizing directives with
  | nil pos =>
      rw [consumeLoop]
      exact ⟨rfl, pos, [], rfl, fun _ => ⟨rfl, fun _ h => absurd h List.not_mem_nil⟩⟩
  | tag pos ch rest content htag ih =>
      have htag' := tagAt_append htag more
      rw [tagsFrom_tag htag'] at hshort hcut
      -- the skipped characters are there, or nothing follows
      have hskip : more ≠ [] → tagLen content ≤ (ch :: rest).length := by
        intro hmore
        have hnot := hcut hmore _ List.mem_cons_self
        have hlen := tagAt_length htag
        simp only [Tag.Splits, not_or, not_and] at hnot
        have hle := hnot.2 (by omega)
        omega
      have hdrop : (ch :: rest ++ more).drop (tagLen content) =
          (ch :: rest).drop (tagLen content) ++ more := by
        rcases eq_or_ne more [] with rfl | hmore
        · simp only [List.append_nil]
        · exact List.drop_append_of_le_length (hskip hmore)
      rw [hdrop] at hshort hcut
      have hpos : more ≠ [] → pos + tagLen content + ((ch :: rest).drop (tagLen content)).length =
          pos + (ch :: rest).length := by
        intro hmore
        have hle := hskip hmore
        rw [List.length_drop]
        omega
      have hrest := ih (List.forall_mem_cons.mp hshort).2
        (fun hmore => by rw [hpos hmore]; exact (List.forall_mem_cons.mp (hcut hmore)).2)
        (parseTag content directives)
      rw [consumeLoop_tag htag]
      refine ⟨?_, ?_⟩
      · rw [consumeLoop_tag htag', hdrop]
        exact hrest.read
      · obtain ⟨pos', done, htags, hbounds⟩ := hrest.tags
        refine ⟨pos', ⟨pos, content⟩ :: done, ?_, fun hmore => ?_⟩
        · rw [tagsFrom_tag htag', hdrop, htags]
          rfl
        · obtain ⟨hend, hdone⟩ := hbounds hmore
          rw [hpos hmore] at hend hdone
          have hlen := tagAt_length htag
          exact ⟨hend, List.forall_mem_cons.mpr ⟨by dsimp only; omega, hdone⟩⟩
  | literal pos ch rest htag ih =>
      cases hheld : holdsBack false (ch :: rest) with
      | true =>
          rw [consumeLoop_held htag hheld]
          exact ⟨rfl, pos, [], rfl, fun _ => ⟨rfl, fun _ h => absurd h List.not_mem_nil⟩⟩
      | false =>
          -- no tag starts here in the whole text either
          have htag' : tagAt (ch :: (rest ++ more)) = none := by
            cases hwhole : tagAt (ch :: rest ++ more) with
            | none => exact hwhole
            | some content =>
                rw [tagsFrom_tag hwhole] at hshort hcut
                have hshort' := hshort _ List.mem_cons_self
                have hbytes := byteLength_le_tagLen hwhole htag
                cases hopen : "[[".toList.isPrefixOf (ch :: rest) with
                | true =>
                    simp only [holdsBack, hopen, Bool.not_false, Bool.true_and,
                      decide_eq_false_iff_not] at hheld
                    dsimp only at hshort'
                    omega
                | false =>
                    obtain ⟨rfl, rfl⟩ := eq_bracket_of_append hwhole hopen
                    have hmore : more ≠ [] := by
                      rintro rfl
                      cases htag.symm.trans hwhole
                    exact absurd (.inl rfl) (hcut hmore _ List.mem_cons_self)
          rw [List.cons_append, tagsFrom_literal htag'] at hshort hcut
          have hpos : pos + 1 + rest.length = pos + (ch :: rest).length := by
            rw [List.length_cons]
            omega
          have hrest := ih hshort (by rw [hpos]; exact hcut) directives
          rw [consumeLoop_literal htag hheld]
          refine ⟨?_, ?_⟩
          · rw [List.cons_append, consumeLoop_literal htag' (holdsBack_final _), hrest.read]
            rfl
          · obtain ⟨pos', done, htags, hbounds⟩ := hrest.tags
            rw [hpos] at hbounds
            refine ⟨pos', done, ?_, hbounds⟩
            rw [List.cons_append, tagsFrom_literal htag', htags]

/-- In the end nothing is held back, and what is shown does not depend on the directives. -/
theorem consumeLoop_final (pos : Nat) (directives : DirectiveSet) (input : List Char) :
    consumeLoop true directives input =
      ((consumeLoop true {} input).1,
        { directives := (tagsFrom pos input).foldl (fun d tag => parseTag tag.content d)
            directives }) := by
  induction pos, input using tagsFrom_induction generalizing directives with
  | nil pos =>
      rw [consumeLoop, consumeLoop, tagsFrom]
      rfl
  | tag pos ch rest content htag ih =>
      rw [consumeLoop_tag htag, consumeLoop_tag htag, tagsFrom_tag htag, ih, ih (parseTag content {})]
      rfl
  | literal pos ch rest htag ih =>
      rw [consumeLoop_literal htag (holdsBack_final _), consumeLoop_literal htag (holdsBack_final _),
        tagsFrom_literal htag, ih]

theorem consume_final (acc : StreamingDirectiveAccumulator) (chunk : List Char) :
    (acc.consume chunk true).1 =
        (consumeLoop true acc.directives (acc.partialTag ++ chunk)).1 ∧
      (acc.consume chunk true).2.directives =
        (consumeLoop true acc.directives (acc.partialTag ++ chunk)).2.directives := by
  rw [consume, if_pos rfl, consumeLoop_final 0, List.append_nil]
  exact ⟨rfl, rfl⟩

theorem consume_chunk (acc : StreamingDirectiveAccumulator) (chunk : List Char) :
    acc.consume chunk false = consumeLoop false acc.directives (acc.partialTag ++ chunk) := by
  rw [consume, if_neg Bool.false_ne_true]

/-! ### All chunks -/

theorem le_of_mem_cutsFrom {pos cut : Nat} {chunks : List (List Char)}
    (h : cut ∈ cutsFrom pos chunks) : pos ≤ cut := by
  induction chunks generalizing pos with
  | nil => cases h
  | cons chunk chunks ih =>
      rcases List.mem_cons.mp h with rfl | h
      · exact Nat.le_add_right _ _
      · exact (Nat.le_add_right _ _).trans (ih h)

/-- Where no chunk ends within a tag's opening or behind it, the stream is read like the whole. -/
theorem stream_eq {chunks : List (List Char)} {last : List Char} {pos : Nat}
    {acc : StreamingDirectiveAccumulator}
    (hshort : ∀ tag ∈ tagsFrom pos (acc.partialTag ++ (chunks.flatten ++ last)),
      tagLen tag.content < maxPartialLen)
    (hcuts : ∀ cut ∈ cutsFrom (pos + acc.partialTag.length) chunks,
      cut < pos + acc.partialTag.length + (chunks.flatten ++ last).length →
        ∀ tag ∈ tagsFrom pos (acc.partialTag ++ (chunks.flatten ++ last)), ¬ tag.Splits cut) :
    acc.stream chunks last =
      ((consumeLoop true acc.directives (acc.partialTag ++ (chunks.flatten ++ last))).1,
        (consumeLoop true acc.directives
          (acc.partialTag ++ (chunks.flatten ++ last))).2.directives) := by
  induction chunks generalizing pos acc with
  | nil =>
      rw [stream, (consume_final acc last).1, (consume_final acc last).2]
      rfl
  | cons chunk chunks ih =>
      let more := chunks.flatten ++ last
      have htext : acc.partialTag ++ ((chunk :: chunks).flatten ++ last) =
          acc.partialTag ++ chunk ++ more := by
        simp only [more, List.flatten_cons, List.append_assoc]
      have hlength : pos + (acc.partialTag ++ chunk).length =
          pos + acc.partialTag.length + chunk.length := by
        rw [List.length_append]
        omega
      rw [htext] at hshort hcuts ⊢
      rw [cutsFrom, List.forall_mem_cons, ← hlength] at hcuts
      have htotal : pos + acc.partialTag.length + ((chunk :: chunks).flatten ++ last).length =
          pos + (acc.partialTag ++ chunk).length + more.length := by
        simp only [more, List.flatten_cons, List.length_append]
        omega
      rw [htotal] at hcuts
      have hone := resumes_consumeLoop more hshort
        (fun hmore => hcuts.1 (Nat.lt_add_of_pos_right (List.length_pos_iff.mpr hmore)))
        acc.directives
      rw [stream, consume_chunk]
      obtain ⟨pos', done, htags, hbounds⟩ := hone.tags
      rw [htags] at hshort hcuts
      generalize consumeLoop false acc.directives (acc.partialTag ++ chunk) = next
        at hone htags hbounds hshort hcuts ⊢
      have hcuts' : ∀ cut ∈ cutsFrom (pos' + next.2.partialTag.length) chunks,
          cut < pos' + next.2.partialTag.length + more.length →
            ∀ tag ∈ tagsFrom pos' (next.2.partialTag ++ more), ¬ tag.Splits cut := by
        intro cut hcut hlt tag htag
        have hle := le_of_mem_cutsFrom hcut
        have hmore : more ≠ [] := by
          rintro hnil
          rw [hnil, List.length_nil] at hlt
          omega
        rw [(hbounds hmore).1] at hcut hlt
        exact hcuts.2 cut hcut hlt tag (List.mem_append_right _ htag)
      rw [ih (fun tag htag => hshort tag (List.mem_append_right _ htag)) hcuts', hone.read]

/-! ### What the whole text shows -/

/-- The visible text of the whole. -/
def visible (input : List Char) : List Char := (consumeLoop true {} input).1

theorem consumeLoop_visible (directives : DirectiveSet) (input : List Char) :
    (consumeLoop true directives input).1 = visible input := by
  rw [consumeLoop_final 0]
  rfl

theorem visible_tag {input content : List Char} (h : tagAt input = some content) :
    visible input = visible (input.drop (tagLen content)) := by
  rw [visible, consumeLoop_tag h, consumeLoop_visible]

theorem visible_literal {ch : Char} {rest : List Char} (h : tagAt (ch :: rest) = none) :
    visible (ch :: rest) = ch :: visible rest := by
  rw [visible, consumeLoop_literal h (holdsBack_final _), consumeLoop_visible]

/-- The contents of the tags of a text. -/
def contents (input : List Char) : List (List Char) := (tagsFrom 0 input).map Tag.content

theorem contents_eq (pos : Nat) (input : List Char) :
    (tagsFrom pos input).map Tag.content = contents input := by
  suffices h : ∀ (pos pos' : Nat) (input : List Char),
      (tagsFrom pos input).map Tag.content = (tagsFrom pos' input).map Tag.content from
    h pos 0 input
  intro pos pos' input
  induction pos, input using tagsFrom_induction generalizing pos' with
  | nil pos => rw [tagsFrom, tagsFrom]
  | tag pos ch rest content htag ih =>
      rw [tagsFrom_tag htag, tagsFrom_tag htag, List.map_cons, List.map_cons, ih]
  | literal pos ch rest htag ih =>
      rw [tagsFrom_literal htag, tagsFrom_literal htag, ih]

theorem contents_tag {input content : List Char} (h : tagAt input = some content) :
    contents input = content :: contents (input.drop (tagLen content)) := by
  rw [contents, tagsFrom_tag h, List.map_cons, contents_eq]

theorem contents_literal {ch : Char} {rest : List Char} (h : tagAt (ch :: rest) = none) :
    contents (ch :: rest) = contents rest := by
  rw [contents, tagsFrom_literal h, contents_eq]

/-! ### A chunk that ends within an opening -/

/-- **A chunk that splits an opening.** It shows the bracket; the whole shows what stands behind
the tag. -/
theorem consumeLoop_split {more : List Char} {tag : Tag} {pos : Nat} {input : List Char}
    (htag : tag ∈ tagsFrom pos (input ++ more)) (hcut : pos + input.length = tag.start + 1)
    (directives : DirectiveSet) :
    tagAt ('[' :: more) = some tag.content ∧ ∃ front,
      (consumeLoop false directives input).1 = front ++ ['['] ∧
      (consumeLoop false directives input).2.partialTag = [] ∧
      visible (input ++ more) = front ++ visible (('[' :: more).drop (tagLen tag.content)) ∧
      contents (('[' :: more).drop (tagLen tag.content)) ⊆ contents (input ++ more) := by
  induction pos, input using tagsFrom_induction generalizing directives with
  | nil pos =>
      have hstart := (start_of_mem_tagsFrom htag).1
      rw [List.length_nil] at hcut
      omega
  | tag pos ch rest content hhere ih =>
      have hwhole := tagAt_append hhere more
      have hlen := tagAt_length hhere
      rw [tagsFrom_tag hwhole] at htag
      rcases List.mem_cons.mp htag with rfl | htag
      · dsimp only at hcut
        omega
      · have hstart := (start_of_mem_tagsFrom htag).1
        have hdrop : (ch :: rest ++ more).drop (tagLen content) =
            (ch :: rest).drop (tagLen content) ++ more :=
          List.drop_append_of_le_length (by omega)
        rw [hdrop] at htag
        obtain ⟨hmore, front, hshown, hheld, hvisible, hcontents⟩ :=
          ih htag (by rw [List.length_drop]; omega) (parseTag content directives)
        rw [consumeLoop_tag hhere, visible_tag hwhole, contents_tag hwhole, hdrop]
        exact ⟨hmore, front, hshown, hheld, hvisible,
          fun v hv => List.mem_cons_of_mem _ (hcontents hv)⟩
  | literal pos ch rest hhere ih =>
      cases hwhole : tagAt (ch :: rest ++ more) with
      | some content =>
          rw [tagsFrom_tag hwhole] at htag
          rcases List.mem_cons.mp htag with rfl | htag
          · -- the chunk ends with the first bracket of this tag
            have hrest : rest = [] := by
              rw [List.length_cons] at hcut
              exact List.length_eq_zero_iff.mp (by dsimp only at hcut; omega)
            subst hrest
            have hopen : "[[".toList.isPrefixOf [ch] = false := by simp [List.isPrefixOf]
            obtain ⟨rfl, -⟩ := eq_bracket_of_append hwhole hopen
            have hheld : holdsBack false ['['] = false := by
              rw [holdsBack, hopen]
              rfl
            rw [consumeLoop_literal hhere hheld, consumeLoop, visible_tag hwhole,
              contents_tag hwhole]
            exact ⟨hwhole, [], rfl, rfl, rfl, List.subset_cons_self _ _⟩
          · have hstart := (start_of_mem_tagsFrom htag).1
            have hlong := tagLen_le content
            cases hhere.symm.trans (tagAt_of_append hwhole (by omega))
      | none =>
          cases hopen : "[[".toList.isPrefixOf (ch :: rest) with
          | true =>
              have hopen' : "[[".toList.isPrefixOf (ch :: rest ++ more) = true := by
                rw [List.isPrefixOf_iff_prefix] at hopen ⊢
                exact hopen.trans (List.prefix_append _ _)
              rw [tagsFrom_eq_nil_of_open hopen' hwhole] at htag
              cases htag
          | false =>
              have hheld : holdsBack false (ch :: rest) = false := by
                rw [holdsBack, hopen]
                rfl
              rw [List.cons_append] at htag hwhole
              rw [tagsFrom_literal hwhole] at htag
              obtain ⟨hmore, front, hshown, hheld', hvisible, hcontents⟩ :=
                ih htag (by rw [List.length_cons] at hcut; omega) directives
              rw [consumeLoop_literal hhere hheld, List.cons_append, visible_literal hwhole,
                contents_literal hwhole]
              refine ⟨hmore, ch :: front, ?_, hheld', ?_, hcontents⟩
              · rw [hshown]
                rfl
              · rw [hvisible]
                rfl

/-- Behind the first bracket of a tag, the text shows at least what it shows behind the tag, and
its tags lie within the tag or behind it. -/
theorem visible_inside {behind : List Char} : ∀ {u : List Char},
    cutAt "]]".toList (u ++ "]]".toList ++ behind) = some (u, behind) →
    (∀ c ∈ u, c.utf8Size = 1) →
    (visible behind).length ≤ (visible (u ++ "]]".toList ++ behind)).length ∧
      ∀ v ∈ contents (u ++ "]]".toList ++ behind),
        "[[".toList ++ v <:+ u ∨ v ∈ contents behind
  | [], _, _ => by
      have hbracket : ∀ rest, tagAt (']' :: rest) = none := by
        intro rest
        rfl
      have htext : [] ++ "]]".toList ++ behind = ']' :: ']' :: behind := rfl
      rw [htext, visible_literal (hbracket _), visible_literal (hbracket _),
        contents_literal (hbracket _), contents_literal (hbracket _)]
      refine ⟨?_, fun v hv => .inr hv⟩
      simp only [List.length_cons]
      omega
  | c :: u, hcut, hascii => by
      have hrest : cutAt "]]".toList (u ++ "]]".toList ++ behind) = some (u, behind) :=
        cutAt_of_cons hcut
      obtain ⟨hlength, hcontents⟩ := visible_inside hrest
        (fun d hd => hascii d (List.mem_cons_of_mem _ hd))
      rw [List.cons_append, List.cons_append]
      cases htag : tagAt (c :: (u ++ "]]".toList ++ behind)) with
      | none =>
          rw [visible_literal htag, contents_literal htag]
          refine ⟨hlength.trans (Nat.le_succ _), fun v hv => ?_⟩
          exact (hcontents v hv).imp_left fun h => h.trans (List.suffix_cons _ _)
      | some v =>
          obtain ⟨behind', htext, hcut'⟩ := tagAt_eq_some_iff.mp htag
          have hopen : "[[".toList ++ (v ++ "]]".toList ++ behind') =
              '[' :: '[' :: (v ++ "]]".toList ++ behind') := rfl
          obtain ⟨rfl, hsecond⟩ := List.cons.inj (htext.trans hopen)
          cases u with
          | nil => cases hsecond
          | cons d u =>
              -- the inner tag is closed where the outer one is
              obtain ⟨rfl, hsame⟩ := List.cons.inj hsecond
              have hsame' : u ++ "]]".toList ++ behind = v ++ "]]".toList ++ behind' := hsame
              have hinner : cutAt "]]".toList (u ++ "]]".toList ++ behind) = some (u, behind) :=
                cutAt_of_cons hrest
              rw [hsame', hcut'] at hinner
              obtain ⟨rfl, rfl⟩ := Prod.mk.inj (Option.some.inj hinner)
              obtain ⟨behind, htext', -, hdrop⟩ := exists_behind_tag htag fun e he =>
                hascii e (List.mem_cons_of_mem _ (List.mem_cons_of_mem _ he))
              obtain rfl : behind' = behind := by
                have hboth := htext.symm.trans htext'
                simpa only [List.append_cancel_left_eq] using hboth
              rw [visible_tag htag, contents_tag htag, hdrop]
              refine ⟨Nat.le_refl _, fun w hw => ?_⟩
              rcases List.mem_cons.mp hw with rfl | hw
              · exact .inl (List.suffix_refl _)
              · exact .inr hw

/-! ### The chunks show at least as much -/

/-- The tags of a text are ASCII, and short enough to be held back. -/
def PlainTags (input : List Char) : Prop :=
  ∀ v ∈ contents input, (∀ c ∈ v, c.utf8Size = 1) ∧ tagLen v < maxPartialLen

theorem PlainTags.tag {input : List Char} (h : PlainTags input) {pos : Nat} {tag : Tag}
    (htag : tag ∈ tagsFrom pos input) :
    tag.IsAscii ∧ tagLen tag.content < maxPartialLen := by
  apply h
  rw [← contents_eq pos]
  exact List.mem_map_of_mem htag

/-- What is left of a tag behind its first bracket, and the text behind the tag. -/
theorem PlainTags.inside {more content : List Char} (htag : tagAt ('[' :: more) = some content)
    (hascii : ∀ c ∈ content, c.utf8Size = 1) (hshort : tagLen content < maxPartialLen)
    (h : PlainTags (('[' :: more).drop (tagLen content))) :
    PlainTags more ∧
      (visible (('[' :: more).drop (tagLen content))).length ≤ (visible more).length := by
  obtain ⟨behind, htext, hcut, hdrop⟩ := exists_behind_tag htag hascii
  obtain rfl : more = '[' :: content ++ "]]".toList ++ behind := (List.cons.inj htext).2
  have hcut' : cutAt "]]".toList ('[' :: content ++ "]]".toList ++ behind) =
      some ('[' :: content, behind) := by
    have hnot : ¬ "]]".toList <+: '[' :: (content ++ "]]".toList ++ behind) := by
      rintro ⟨rest, hrest⟩
      exact absurd (List.cons.inj hrest).1 (by decide)
    rw [List.cons_append, List.cons_append, cutAt_cons_of_not_prefix hnot, hcut]
    rfl
  obtain ⟨hlength, hcontents⟩ :=
    visible_inside hcut' (List.forall_mem_cons.mpr ⟨by decide, hascii⟩)
  rw [hdrop] at h ⊢
  refine ⟨fun v hv => ?_, hlength⟩
  rcases hcontents v hv with hsuffix | hbehind
  · -- an inner tag is shorter
    have hsuffix' : v <:+ content := by
      have hopen : "[[".toList ++ v = '[' :: '[' :: v := rfl
      rw [hopen, List.suffix_cons_iff] at hsuffix
      rcases hsuffix with heq | hsuffix
      · rw [← (List.cons.inj heq).2]
        exact List.suffix_cons _ _
      · exact ((List.suffix_cons _ _).trans (List.suffix_cons _ _)).trans hsuffix
    obtain ⟨front, rfl⟩ := hsuffix'
    refine ⟨fun c hc => hascii c (List.mem_append_right _ hc), ?_⟩
    rw [tagLen, byteLength_append] at hshort
    rw [tagLen]
    omega
  · exact h v hbehind

/-- With ASCII tags, the chunks show at least what the whole shows, and more than that if a chunk
ends within an opening. -/
theorem visible_le_stream {chunks : List (List Char)} {last : List Char} {pos : Nat}
    {acc : StreamingDirectiveAccumulator}
    (hplain : PlainTags (acc.partialTag ++ (chunks.flatten ++ last))) :
    (visible (acc.partialTag ++ (chunks.flatten ++ last))).length ≤
        (acc.stream chunks last).1.length ∧
      ((∃ cut ∈ cutsFrom (pos + acc.partialTag.length) chunks,
          ∃ tag ∈ tagsFrom pos (acc.partialTag ++ (chunks.flatten ++ last)),
            cut = tag.start + 1) →
        (visible (acc.partialTag ++ (chunks.flatten ++ last))).length <
          (acc.stream chunks last).1.length) := by
  induction chunks generalizing pos acc with
  | nil =>
      rw [stream, (consume_final acc last).1, consumeLoop_visible]
      refine ⟨Nat.le_refl _, ?_⟩
      rintro ⟨cut, hcut, -⟩
      cases hcut
  | cons chunk chunks ih =>
      let more := chunks.flatten ++ last
      have htext : acc.partialTag ++ ((chunk :: chunks).flatten ++ last) =
          acc.partialTag ++ chunk ++ more := by
        simp only [more, List.flatten_cons, List.append_assoc]
      have hlength : pos + (acc.partialTag ++ chunk).length =
          pos + acc.partialTag.length + chunk.length := by
        rw [List.length_append]
        omega
      rw [htext] at hplain ⊢
      rw [cutsFrom, ← hlength, stream, consume_chunk]
      dsimp only
      rw [List.length_append]
      by_cases hsplit : ∃ tag ∈ tagsFrom pos (acc.partialTag ++ chunk ++ more),
          pos + (acc.partialTag ++ chunk).length = tag.start + 1
      · obtain ⟨tag, htag, hcut⟩ := hsplit
        obtain ⟨hmore, front, hshown, hheld, hvisible, hcontents⟩ :=
          consumeLoop_split htag hcut acc.directives
        obtain ⟨hascii, hshort⟩ := hplain.tag htag
        obtain ⟨hinside, hle⟩ := PlainTags.inside hmore hascii hshort fun v hv =>
          hplain v (hcontents hv)
        generalize consumeLoop false acc.directives (acc.partialTag ++ chunk) = next
          at hshown hheld ⊢
        have hplain' : PlainTags (next.2.partialTag ++ more) := by
          rw [hheld]
          exact hinside
        have hrest : (visible (next.2.partialTag ++ more)).length ≤
            (next.2.stream chunks last).1.length := (@ih pos next.2 hplain').1
        have hmore' : visible (next.2.partialTag ++ more) = visible more := by
          rw [hheld]
          rfl
        rw [hmore'] at hrest
        have hlt : (visible (acc.partialTag ++ chunk ++ more)).length <
            next.1.length + (next.2.stream chunks last).1.length := by
          rw [hvisible, hshown]
          simp only [List.length_append, List.length_singleton]
          omega
        exact ⟨hlt.le, fun _ => hlt⟩
      · have hclean : ∀ tag ∈ tagsFrom pos (acc.partialTag ++ chunk ++ more),
            ¬ tag.Splits (pos + (acc.partialTag ++ chunk).length) := by
          rintro tag htag (hopen | ⟨hend, hskipped⟩)
          · exact hsplit ⟨tag, htag, hopen⟩
          · rw [tagLen_eq (hplain.tag htag).1] at hskipped
            omega
        have hone := resumes_consumeLoop more (fun tag htag => (hplain.tag htag).2)
          (fun _ => hclean) acc.directives
        obtain ⟨pos', done, htags, hbounds⟩ := hone.tags
        have hread := congrArg Prod.fst hone.read
        rw [consumeLoop_visible] at hread
        generalize consumeLoop false acc.directives (acc.partialTag ++ chunk) = next
          at hread htags hbounds ⊢
        dsimp only at hread
        rw [consumeLoop_visible] at hread
        have hplain' : PlainTags (next.2.partialTag ++ more) := by
          intro v hv
          apply hplain v
          rw [← contents_eq pos, htags, List.map_append, contents_eq]
          exact List.mem_append_right _ hv
        obtain ⟨hle, hlt⟩ := @ih pos' next.2 hplain'
        rw [hread, List.length_append]
        refine ⟨Nat.add_le_add_left hle _, ?_⟩
        rintro ⟨cut, hcut, tag, htag, hopen⟩
        rcases List.mem_cons.mp hcut with rfl | hcut
        · exact absurd ⟨tag, htag, hopen⟩ hsplit
        · have hbehind := le_of_mem_cutsFrom hcut
          have hmore : more ≠ [] := by
            intro hnil
            have hin := (start_of_mem_tagsFrom htag).2
            rw [hnil, List.append_nil] at hin
            omega
          obtain ⟨hend, hdone⟩ := hbounds hmore
          rw [htags] at htag
          rcases List.mem_append.mp htag with htag | htag
          · have hin := hdone tag htag
            omega
          · apply Nat.add_lt_add_left
            refine hlt ⟨cut, ?_, tag, htag, hopen⟩
            rw [hend]
            exact hcut

/-! ### Chunks and the whole -/

/-- The whole text at once, final. -/
def whole (text : List Char) : List Char × DirectiveSet :=
  let read := consume {} text true
  (read.1, read.2.directives)

/-- No chunk ends between the opening brackets of a tag of the text, or among the characters that
are skipped behind it. -/
def CutsNoTag (chunks : List (List Char)) (text : List Char) : Prop :=
  ∀ cut ∈ cutsFrom 0 chunks, cut < text.length → ∀ tag ∈ tagsFrom 0 text, ¬ tag.Splits cut

theorem whole_eq (text : List Char) :
    whole text = (visible text, (consumeLoop true {} text).2.directives) :=
  Prod.ext (consume_final {} text).1 (consume_final {} text).2

theorem map_fst_cutAt (pat cs : List Char) :
    (cutAt pat cs).map Prod.fst =
      if occursIn pat cs = true then some (beforeFirst pat cs) else none := by
  induction cs with
  | nil => cases pat <;> rfl
  | cons c cs ih =>
      rw [cutAt, occursIn, beforeFirst]
      cases hpre : pat.isPrefixOf? (c :: cs) with
      | some rest =>
          have htrue : pat.isPrefixOf (c :: cs) = true := by
            rw [List.isPrefixOf_iff_prefix]
            exact ⟨rest, List.isPrefixOf?_eq_some_iff_append_eq.mp hpre⟩
          rw [htrue, Bool.true_or, if_pos rfl, if_pos rfl]
          rfl
      | none =>
          have hfalse : pat.isPrefixOf (c :: cs) = false := by
            rw [Bool.eq_false_iff, ne_eq, List.isPrefixOf_iff_prefix]
            rintro ⟨rest, hrest⟩
            cases hpre.symm.trans (List.isPrefixOf?_eq_some_iff_append_eq.mpr hrest)
          rw [hfalse, Bool.false_or, if_neg Bool.false_ne_true]
          dsimp only
          have hcons := congrArg (Option.map (c :: ·)) ih
          rw [Option.map_map] at hcons ⊢
          exact hcons.trans (by split <;> rfl)

theorem tagAt_cons (c : Char) (cs : List Char) :
    tagAt (c :: cs) =
      if c = '[' ∧ cs.head? = some '[' ∧ occursIn "]]".toList (cs.drop 1) = true then
        some (beforeFirst "]]".toList (cs.drop 1)) else none := by
  rw [tagAt, show "[[".toList = ['[', '['] from rfl]
  by_cases hc : '[' = c
  · subst hc
    cases cs with
    | nil => simp [List.isPrefixOf?]
    | cons d ds =>
        by_cases hd : '[' = d
        · subst hd
          simp [List.isPrefixOf?, map_fst_cutAt]
        · simp [List.isPrefixOf?, hd, Ne.symm hd]
  · simp [List.isPrefixOf?, hc, Ne.symm hc]

/-- The loop of `parse_directives` is the loop of the accumulator on a final chunk. -/
theorem consumeFinal_eq {fuel : Nat} {input : List Char} (h : input.length ≤ fuel)
    (directives : DirectiveSet) :
    consumeFinal fuel input directives =
      ((consumeLoop true directives input).1, (consumeLoop true directives input).2.directives) := by
  induction fuel generalizing input directives with
  | zero =>
      obtain rfl := List.length_eq_zero_iff.mp (Nat.le_zero.mp h)
      rw [consumeLoop]
      rfl
  | succ fuel ih =>
      cases input with
      | nil =>
          rw [consumeLoop]
          rfl
      | cons c cs =>
          have htag := tagAt_cons c cs
          rw [List.length_cons] at h
          rw [consumeFinal]
          dsimp only
          split
          · next hcond =>
            rw [if_pos hcond] at htag
            rw [consumeLoop_tag htag, ih (by rw [List.length_drop, List.length_cons]; omega), tagLen,
              Nat.add_comm 2, Nat.add_assoc]
          · next hcond =>
            rw [if_neg hcond] at htag
            rw [consumeLoop_literal htag (holdsBack_final _), ih (by omega)]

/-- A reply that is not streamed is read like the whole text. -/
theorem parseDirectives_eq (text : String) :
    parseDirectives text =
      (String.ofList (trimChars isWhitespace (whole text.toList).1), (whole text.toList).2) := by
  rw [parseDirectives, consumeFinal_eq (Nat.le_refl _), whole_eq]
  rfl

theorem stream_eq_whole {chunks : List (List Char)} {last : List Char}
    (hshort : ∀ tag ∈ tagsFrom 0 (chunks.flatten ++ last), tagLen tag.content < maxPartialLen)
    (hcuts : CutsNoTag chunks (chunks.flatten ++ last)) :
    stream {} chunks last = whole (chunks.flatten ++ last) := by
  rw [whole_eq]
  refine stream_eq hshort fun cut hcut hlt => ?_
  rw [List.length_nil, Nat.zero_add] at hlt
  exact hcuts cut hcut hlt

theorem cutsNoTag_of_stream_eq {chunks : List (List Char)} {last : List Char}
    (hshort : ∀ tag ∈ tagsFrom 0 (chunks.flatten ++ last), tagLen tag.content < maxPartialLen)
    (hascii : ∀ tag ∈ tagsFrom 0 (chunks.flatten ++ last), tag.IsAscii)
    (h : stream {} chunks last = whole (chunks.flatten ++ last)) :
    CutsNoTag chunks (chunks.flatten ++ last) := by
  have hplain : PlainTags (chunks.flatten ++ last) := by
    intro v hv
    obtain ⟨tag, htag, rfl⟩ := List.mem_map.mp hv
    exact ⟨hascii tag htag, hshort tag htag⟩
  rintro cut hcut hlt tag htag (hopen | ⟨hend, hskipped⟩)
  · have hmore : (visible (chunks.flatten ++ last)).length < (stream {} chunks last).1.length :=
      (@visible_le_stream chunks last 0 {} hplain).2 ⟨cut, hcut, tag, htag, hopen⟩
    rw [h, whole_eq] at hmore
    exact absurd hmore (Nat.lt_irrefl _)
  · rw [tagLen_eq (hascii tag htag)] at hskipped
    omega

/-- Character by character, everything is shown. -/
theorem stream_singletons (directives : DirectiveSet) (text : List Char) (last : Char) :
    (stream { directives := directives } (text.map fun c => [c]) [last]).1 = text ++ [last] := by
  have hnone : ∀ c, tagAt [c] = none := by
    intro c
    cases htag : tagAt [c] with
    | none => rfl
    | some content =>
        have hlen := tagAt_length htag
        rw [List.length_singleton] at hlen
        omega
  have hheld : ∀ isFinal c, holdsBack isFinal [c] = false := by
    intro isFinal c
    simp [holdsBack, List.isPrefixOf]
  induction text with
  | nil =>
      rw [List.map_nil, stream, (consume_final _ _).1, List.nil_append,
        consumeLoop_literal (hnone last) (hheld true last), consumeLoop]
  | cons c text ih =>
      rw [List.map_cons, stream, consume_chunk, List.nil_append,
        consumeLoop_literal (hnone c) (hheld false c), consumeLoop]
      dsimp only
      rw [ih]
      rfl

/-- The whole shows no tag. -/
theorem visible_length {pos : Nat} {text : List Char} :
    (visible text).length ≤ text.length ∧
      (tagsFrom pos text ≠ [] → (visible text).length < text.length) := by
  induction pos, text using tagsFrom_induction with
  | nil pos =>
      rw [tagsFrom, visible, consumeLoop]
      exact ⟨Nat.le_refl _, fun h => absurd rfl h⟩
  | tag pos ch rest content htag ih =>
      have hlen := tagAt_length htag
      have hlong := tagLen_le content
      have hle := ih.1
      rw [List.length_drop] at hle
      rw [visible_tag htag]
      exact ⟨by omega, fun _ => by omega⟩
  | literal pos ch rest htag ih =>
      rw [visible_literal htag, tagsFrom_literal htag, List.length_cons, List.length_cons]
      exact ⟨Nat.succ_le_succ ih.1, fun h => Nat.succ_lt_succ (ih.2 h)⟩

/-- A text with a tag is not read alike character by character. -/
theorem exists_stream_ne {text : List Char} (h : tagsFrom 0 text ≠ []) :
    ∃ chunks last, chunks.flatten ++ last = text ∧ stream {} chunks last ≠ whole text := by
  have hne : text ≠ [] := by
    rintro rfl
    rw [tagsFrom] at h
    exact h rfl
  refine ⟨text.dropLast.map fun c => [c], [text.getLast hne], ?_, fun heq => ?_⟩
  · rw [← List.flatMap_def, List.flatMap_singleton', List.dropLast_concat_getLast]
  · have hshown := stream_singletons {} text.dropLast (text.getLast hne)
    rw [heq, whole_eq, List.dropLast_concat_getLast] at hshown
    dsimp only at hshown
    have hlt := visible_length.2 h
    rw [hshown] at hlt
    exact absurd hlt (Nat.lt_irrefl _)

end StreamingDirectiveAccumulator

open StreamingDirectiveAccumulator

/-- **Chunks and directives.** A text with short tags is read from its chunks as it is read whole
when no chunk ends between the opening brackets of a tag or among the characters skipped behind
it. For ASCII tags, behind which nothing is skipped, these are the only chunks that are read so.
Every way of cutting is read so exactly for the texts without a tag. -/
theorem directives_ignore_chunks_iff {text : List Char}
    (hshort : ∀ tag ∈ tagsFrom 0 text, tagLen tag.content < maxPartialLen) :
    (∀ chunks last, chunks.flatten ++ last = text → CutsNoTag chunks text →
      stream {} chunks last = whole text) ∧
    ((∀ tag ∈ tagsFrom 0 text, tag.IsAscii) → ∀ chunks last, chunks.flatten ++ last = text →
      (stream {} chunks last = whole text ↔ CutsNoTag chunks text)) ∧
    ((∀ chunks last, chunks.flatten ++ last = text → stream {} chunks last = whole text) ↔
      tagsFrom 0 text = []) := by
  refine ⟨?_, ?_, ?_⟩
  · rintro chunks last rfl hcuts
    exact stream_eq_whole hshort hcuts
  · rintro hascii chunks last rfl
    exact ⟨cutsNoTag_of_stream_eq hshort hascii, stream_eq_whole hshort⟩
  · constructor
    · intro hall
      by_contra htags
      obtain ⟨chunks, last, htext, hne⟩ := exists_stream_ne htags
      exact hne (hall chunks last htext)
    · rintro hnone chunks last rfl
      refine stream_eq_whole hshort fun cut _ _ tag htag => ?_
      rw [hnone] at htag
      cases htag

theorem tagsFrom_silent :
    tagsFrom 0 "[[silent]] ok".toList = [⟨0, "silent".toList⟩] := by
  have htag : tagAt "[[silent]] ok".toList = some "silent".toList := by decide
  have hbehind : "[[silent]] ok".toList.drop (tagLen "silent".toList) = " ok".toList := by decide
  rw [tagsFrom_tag htag, hbehind, tagsFrom_eq_nil (by decide)]

/-- A chunk may end within the closing pair: `[[silent]` and `] ok`. -/
theorem directives_ignore_chunks_iff_closing :
    stream {} ["[[silent]".toList] "] ok".toList = whole "[[silent]] ok".toList := by
  have htags : ∀ tag ∈ tagsFrom 0 "[[silent]] ok".toList, tag = ⟨0, "silent".toList⟩ := by
    rw [tagsFrom_silent]
    exact fun tag htag => List.mem_singleton.mp htag
  have hshort : ∀ tag ∈ tagsFrom 0 "[[silent]] ok".toList, tagLen tag.content < maxPartialLen := by
    intro tag htag
    rw [htags tag htag]
    decide
  refine (directives_ignore_chunks_iff hshort).1 ["[[silent]".toList] "] ok".toList rfl ?_
  intro cut hcut _ tag htag
  rw [htags tag htag]
  obtain rfl : cut = 9 := by simpa [cutsFrom] using hcut
  rintro (hopen | ⟨hend, -⟩)
  · exact absurd hopen (by decide)
  · exact absurd hend (by decide)

/-- A chunk that ends with the first bracket of `[[silent]]`: the tag is shown. -/
theorem split_opening_is_shown :
    (∀ tag ∈ tagsFrom 0 "[[silent]] ok".toList, tagLen tag.content < maxPartialLen) ∧
      stream {} ["[".toList] "[silent]] ok".toList ≠ whole "[[silent]] ok".toList := by
  have hascii : ∀ tag ∈ tagsFrom 0 "[[silent]] ok".toList,
      tagLen tag.content < maxPartialLen ∧ tag.IsAscii := by
    rw [tagsFrom_silent]
    intro tag htag
    rw [List.mem_singleton.mp htag]
    exact ⟨by decide, by simp [Tag.IsAscii, Char.utf8Size]⟩
  refine ⟨fun tag htag => (hascii tag htag).1, fun heq => ?_⟩
  have hcuts : CutsNoTag ["[".toList] "[[silent]] ok".toList :=
    @cutsNoTag_of_stream_eq ["[".toList] "[silent]] ok".toList
      (fun tag htag => (hascii tag htag).1) (fun tag htag => (hascii tag htag).2) heq
  have hmem : (⟨0, "silent".toList⟩ : Tag) ∈ tagsFrom 0 "[[silent]] ok".toList := by
    rw [tagsFrom_silent]
    exact List.mem_singleton_self _
  exact hcuts 1 (by decide) (by decide) _ hmem (.inl rfl)

end ArmaraOS.Agent
