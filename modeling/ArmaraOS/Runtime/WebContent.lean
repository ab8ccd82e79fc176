import ArmaraOS.Lib.Entities
import ArmaraOS.Lib.Framing
import ArmaraOS.Lib.HoldBack
import ArmaraOS.Lib.Lines

/-!
Web pages as text (`openfang-runtime/src/web_content.rs`).

A position in a page is the text from there on. Every pass over a page but the decoding of entities
looks for a `<` or a `>`, so all of them leave a text without these alone.
-/

namespace ArmaraOS.Runtime

open ArmaraOS.Lib ArmaraOS.Text
open ArmaraOS.Lib.Framing (cutAt)

/-! ### Finding -/

/-- The text starts with the needle, whatever the case of its ASCII letters. -/
def startsWithCi (needle cs : List Char) : Bool :=
  (cs.take needle.length).map Char.toLower == needle.map Char.toLower

/-- `find_ci`: the text in front of the needle, and the text from it on. -/
def findCi (needle : List Char) : List Char → Option (List Char × List Char)
  | [] => none
  | c :: cs =>
      if startsWithCi needle (c :: cs) then some ([], c :: cs)
      else (findCi needle cs).map fun found => (c :: found.1, found.2)

/-- The text behind the first `>`, or nothing. -/
def afterGt (cs : List Char) : List Char := (cs.dropWhile (· != '>')).tail

/-- A needle that is found cuts the text in two, and the second part is not empty. -/
theorem length_findCi {needle cs front rest : List Char}
    (h : findCi needle cs = some (front, rest)) :
    front.length + rest.length = cs.length ∧ 0 < rest.length ∧
      (afterGt rest).length < rest.length := by
  induction cs generalizing front with
  | nil => cases h
  | cons c cs ih =>
      rw [findCi] at h
      split at h
      · obtain ⟨rfl, rfl⟩ := Prod.mk.inj (Option.some.inj h)
        have hdrop := (List.dropWhile_suffix (· != '>') (l := c :: cs)).length_le
        rw [afterGt, List.length_tail]
        rw [List.length_cons] at hdrop ⊢
        exact ⟨Nat.zero_add _, Nat.succ_pos _, by omega⟩
      · obtain ⟨found, hfound, heq⟩ := Option.map_eq_some_iff.mp h
        obtain ⟨rfl, rfl⟩ := Prod.mk.inj heq
        obtain ⟨hlen, hrest⟩ := ih hfound
        exact ⟨by rw [List.length_cons, List.length_cons, ← hlen]; omega, hrest⟩

/-! ### Removing -/

/-- The closing tag of a name. -/
def closeTag (tag : List Char) : List Char := '<' :: '/' :: (tag ++ ['>'])

/-- `remove_tag_blocks`. -/
def removeTagBlocks (tag html : List Char) : List Char :=
  match _hfound : findCi ('<' :: tag) html with
  | none => html
  | some (front, rest) =>
      let behind :=
        match findCi (closeTag tag) rest with
        | some (_, close) => close.drop (closeTag tag).length
        | none => afterGt rest
      front ++ removeTagBlocks tag behind
termination_by html.length
decreasing_by
  obtain ⟨hlen, hpos, hgt⟩ := length_findCi _hfound
  split
  · rename_i inside close hclose
    obtain ⟨hrest, -⟩ := length_findCi hclose
    rw [List.length_drop, closeTag, List.length_cons]
    omega
  · omega

/-- The comments are cut out, until the first `-->` does not stand behind the first `<!--`. -/
def removeComments (html : List Char) : List Char :=
  match cutAt "<!--".toList html, _hstop : cutAt "-->".toList html with
  | some (front, _), some (before, behind) =>
      if front.length < before.length then removeComments (front ++ behind) else html
  | _, _ => html
termination_by html.length
decreasing_by
  have hlen := congrArg List.length (Framing.cutAt_eq_some _hstop)
  rw [List.length_append, List.length_append] at hlen
  rw [List.length_append]
  have hmark : "-->".toList.length = 3 := rfl
  omega

/-- `tags_to_remove`. -/
def tagsToRemove : List (List Char) :=
  ["script".toList, "style".toList, "nav".toList, "footer".toList, "iframe".toList, "svg".toList,
    "form".toList, "noscript".toList, "header".toList]

/-- `remove_non_content_blocks`. -/
def removeNonContentBlocks (html : List Char) : List Char :=
  removeComments (tagsToRemove.foldl (fun html tag => removeTagBlocks tag html) html)

/-- What stands in the first element with the tag. -/
def elementContent (tag html : List Char) : Option (List Char) :=
  match findCi ('<' :: tag) html with
  | none => none
  | some (_, rest) =>
      if '>' ∈ rest then (findCi (closeTag tag) (afterGt rest)).map Prod.fst else none

/-- `extract_main_content`. -/
def extractMainContent (html : List Char) : List Char :=
  (["main".toList, "article".toList, "body".toList].findSome? fun tag =>
    elementContent tag html).getD html

/-! ### Converting -/

/-- `convert_inline_tag`. -/
def convertInlineTag (openPrefix close mdOpen mdClose html : List Char) : List Char :=
  match _hfound : findCi openPrefix html with
  | none => html
  | some (front, rest) =>
      if '>' ∈ rest then
        match _hclose : findCi close (afterGt rest) with
        | some (content, behind) =>
            front ++ mdOpen ++ content ++ mdClose ++
              convertInlineTag openPrefix close mdOpen mdClose (behind.drop close.length)
        | none =>
            front ++ mdOpen ++ convertInlineTag openPrefix close mdOpen mdClose (afterGt rest)
      else
        front ++ rest.take 1 ++ convertInlineTag openPrefix close mdOpen mdClose (rest.drop 1)
termination_by html.length
decreasing_by
  all_goals
    obtain ⟨hlen, hpos, hgt⟩ := length_findCi _hfound
  · obtain ⟨hrest, -⟩ := length_findCi _hclose
    rw [List.length_drop]
    omega
  · omega
  · rw [List.length_drop]
    omega

/-- The text up to the quote, behind the first occurrence of the pattern. -/
def quotedAfter (pattern : List Char) (quote : Char) (tag : List Char) : Option (List Char) :=
  match findCi pattern tag with
  | none => none
  | some (_, rest) =>
      let value := rest.drop pattern.length
      if quote ∈ value then some (value.takeWhile (· != quote)) else none

/-- `extract_attribute`. -/
def extractAttribute (tag attr : List Char) : Option (List Char) :=
  (quotedAfter (attr ++ "=\"".toList) '"' tag).or (quotedAfter (attr ++ "='".toList) '\'' tag)

/-- The loop of `strip_all_tags`. -/
def stripTagsFrom (inTag : Bool) : List Char → List Char
  | [] => []
  | c :: cs =>
      if c = '<' then stripTagsFrom true cs
      else if c = '>' then stripTagsFrom false cs
      else if inTag then stripTagsFrom inTag cs
      else c :: stripTagsFrom inTag cs

/-- `strip_all_tags`. -/
def stripAllTags (cs : List Char) : List Char := stripTagsFrom false cs

/-- `convert_links`. -/
def convertLinks (html : List Char) : List Char :=
  match _hfound : findCi "<a ".toList html with
  | none => html
  | some (front, rest) =>
      if '>' ∈ rest then
        match _hclose : findCi "</a>".toList (afterGt rest) with
        | some (text, behind) =>
            let linkText := trimmed (stripAllTags text)
            let link :=
              match extractAttribute rest "href".toList with
              | some url => '[' :: (linkText ++ "](".toList ++ url ++ [')'])
              | none => linkText
            front ++ link ++ convertLinks (behind.drop 4)
        | none => front ++ convertLinks (afterGt rest)
      else front ++ rest.take 1 ++ convertLinks (rest.drop 1)
termination_by html.length
decreasing_by
  all_goals
    obtain ⟨hlen, hpos, hgt⟩ := length_findCi _hfound
  · obtain ⟨hrest, -⟩ := length_findCi _hclose
    rw [List.length_drop]
    omega
  · omega
  · rw [List.length_drop]
    omega

/-- The tags that are rewritten in front of the line breaks: opening prefix, closing tag, and what
they become. -/
def blockTags : List (String × String × String × String) :=
  [("<h6", "</h6>", "\n\n###### ", "\n\n"), ("<h5", "</h5>", "\n\n##### ", "\n\n"),
    ("<h4", "</h4>", "\n\n#### ", "\n\n"), ("<h3", "</h3>", "\n\n### ", "\n\n"),
    ("<h2", "</h2>", "\n\n## ", "\n\n"), ("<h1", "</h1>", "\n\n# ", "\n\n"),
    ("<p", "</p>", "\n\n", "\n\n")]

/-- The tags that are rewritten between the line breaks and the links. -/
def inlineTags : List (String × String × String × String) :=
  [("<strong", "</strong>", "**", "**"), ("<b", "</b>", "**", "**"), ("<em", "</em>", "*", "*"),
    ("<i", "</i>", "*", "*"), ("<pre", "</pre>", "\n```\n", "\n```\n"),
    ("<code", "</code>", "`", "`"), ("<blockquote", "</blockquote>", "\n> ", "\n"),
    ("<ul", "</ul>", "\n", "\n"), ("<ol", "</ol>", "\n", "\n"), ("<li", "</li>", "- ", "\n")]

/-- The tags that are rewritten after the links. -/
def boxTags : List (String × String × String × String) :=
  [("<div", "</div>", "\n", "\n"), ("<span", "</span>", "", ""),
    ("<section", "</section>", "\n", "\n")]

/-- One rewriting after the other. -/
def convertTags (tags : List (String × String × String × String)) (html : List Char) :
    List Char :=
  tags.foldl (fun html tag =>
    convertInlineTag tag.1.toList tag.2.1.toList tag.2.2.1.toList tag.2.2.2.toList html) html

/-- The line breaks. -/
def convertBreaks (html : List Char) : List Char :=
  ["<br>", "<br/>", "<br />"].foldl (fun html tag => replaceFrom tag.toList ['\n'] 0 html) html

/-- The entities that are decoded after the ampersand. -/
def laterEntities : List (List Char × List Char) :=
  [("&lt;".toList, ['<']), ("&gt;".toList, ['>']), ("&quot;".toList, ['"']),
    ("&#x27;".toList, ['\'']), ("&#39;".toList, ['\'']), ("&nbsp;".toList, [' ']),
    ("&mdash;".toList, ['\u2014']), ("&ndash;".toList, ['\u2013']),
    ("&hellip;".toList, ['\u2026']), ("&copy;".toList, ['\u00a9']), ("&reg;".toList, ['\u00ae']),
    ("&trade;".toList, ['\u2122'])]

/-- `decode_entities`. -/
def decodeEntities (cs : List Char) : List Char :=
  replaceAll laterEntities (replaceFrom "&amp;".toList ['&'] 0 cs)

/-- `convert_elements`. -/
def convertElements (html : List Char) : List Char :=
  decodeEntities <| stripAllTags <| convertTags boxTags <| convertLinks <|
    convertTags inlineTags <| convertBreaks <| convertTags blockTags html

/-- The loop of `collapse_whitespace`. -/
def collapseLines (blankCount : Nat) : List (List Char) → List Char
  | [] => []
  | line :: rest =>
      if line.isEmpty then
        (if blankCount + 1 ≤ 2 then ['\n'] else []) ++ collapseLines (blankCount + 1) rest
      else line ++ '\n' :: collapseLines 0 rest

/-- `collapse_whitespace`. -/
def collapseWhitespace (cs : List Char) : List Char :=
  trimmed (collapseLines 0 ((lines cs).map trimmed))

/-- `html_to_markdown`. -/
def htmlToMarkdown (html : String) : String :=
  String.ofList <| collapseWhitespace <| convertElements <| extractMainContent <|
    removeNonContentBlocks html.toList

/-! ### Text without tags -/

section NoTags

variable {cs : List Char}

theorem findCi_of_notMem {c : Char} {needle : List Char} (hc : c.toLower = c)
    (h : ∀ d ∈ cs, d.toLower ≠ c) : findCi (c :: needle) cs = none := by
  induction cs with
  | nil => rfl
  | cons d cs ih =>
      obtain ⟨hd, hrest⟩ := List.forall_mem_cons.mp h
      have hnot : ¬ startsWithCi (c :: needle) (d :: cs) = true := by
        rw [startsWithCi, beq_iff_eq, List.length_cons, List.take_succ_cons, List.map_cons,
          List.map_cons, List.cons.injEq, hc]
        exact fun hsame => hd hsame.1
      rw [findCi, if_neg hnot, ih hrest]
      rfl

/-- The lower case of no other character is `<`. -/
theorem eq_lt_of_toLower {d : Char} (h : d.toLower = '<') : d = '<' := by
  by_cases hupper : d.val ≥ 'A'.val ∧ d.val ≤ 'Z'.val
  · have hraised : d.toLower = _ := dif_pos hupper
    rw [hraised] at h
    have hval := congrArg (fun c : Char => c.val.toNat) h
    obtain ⟨hlow, hhigh⟩ := hupper
    simp only [UInt32.le_iff_toNat_le] at hlow hhigh
    simp at hval hlow hhigh
    omega
  · have hsame : d.toLower = d := dif_neg hupper
    rwa [hsame] at h

theorem findCi_lt (h : '<' ∉ cs) (needle : List Char) : findCi ('<' :: needle) cs = none :=
  findCi_of_notMem (by decide) fun _ hd hlow => h (eq_lt_of_toLower hlow ▸ hd)

theorem removeTagBlocks_noTags (h : '<' ∉ cs) (tag : List Char) : removeTagBlocks tag cs = cs := by
  rw [removeTagBlocks]
  split
  · rfl
  · rename_i hfound
    rw [findCi_lt h] at hfound
    cases hfound

theorem removeComments_noTags (h : '<' ∉ cs) : removeComments cs = cs := by
  have hnone : cutAt "<!--".toList cs = none := by
    rw [Framing.cutAt_eq_none_iff]
    exact fun hin => h (hin.subset List.mem_cons_self)
  rw [removeComments]
  split
  · rename_i hfound _
    rw [hnone] at hfound
    cases hfound
  · rfl

theorem removeNonContentBlocks_noTags (h : '<' ∉ cs) : removeNonContentBlocks cs = cs := by
  have hfold : ∀ tags : List (List Char),
      tags.foldl (fun html tag => removeTagBlocks tag html) cs = cs := by
    intro tags
    induction tags with
    | nil => rfl
    | cons tag tags ih => rw [List.foldl_cons, removeTagBlocks_noTags h, ih]
  rw [removeNonContentBlocks, hfold, removeComments_noTags h]

theorem extractMainContent_noTags (h : '<' ∉ cs) : extractMainContent cs = cs := by
  have hnone : ∀ tag, elementContent tag cs = none := by
    intro tag
    rw [elementContent, findCi_lt h]
  simp [extractMainContent, hnone]

theorem convertInlineTag_noTags (h : '<' ∉ cs) (needle close mdOpen mdClose : List Char) :
    convertInlineTag ('<' :: needle) close mdOpen mdClose cs = cs := by
  rw [convertInlineTag]
  split
  · rfl
  · rename_i hfound
    rw [findCi_lt h] at hfound
    cases hfound

theorem convertTags_noTags (h : '<' ∉ cs) {tags : List (String × String × String × String)}
    (htags : ∀ tag ∈ tags, tag.1.toList.head? = some '<') : convertTags tags cs = cs := by
  rw [convertTags]
  induction tags with
  | nil => rfl
  | cons tag tags ih =>
      obtain ⟨htag, hrest⟩ := List.forall_mem_cons.mp htags
      obtain ⟨needle, hneedle⟩ := List.head?_eq_some_iff.mp htag
      rw [List.foldl_cons, hneedle, convertInlineTag_noTags h, ih hrest]

theorem convertBreaks_noTags (h : '<' ∉ cs) : convertBreaks cs = cs := by
  have hbreak : ∀ body : List Char, replaceFrom ('<' :: body) ['\n'] 0 cs = cs :=
    fun body => replaceFrom_of_notMem h
  rw [convertBreaks, List.foldl_cons, List.foldl_cons, List.foldl_cons, List.foldl_nil]
  rw [show "<br>".toList = '<' :: "br>".toList from rfl, hbreak,
    show "<br/>".toList = '<' :: "br/>".toList from rfl, hbreak,
    show "<br />".toList = '<' :: "br />".toList from rfl, hbreak]

theorem convertLinks_noTags (h : '<' ∉ cs) : convertLinks cs = cs := by
  rw [convertLinks]
  split
  · rfl
  · rename_i hfound
    rw [show "<a ".toList = '<' :: "a ".toList from rfl, findCi_lt h] at hfound
    cases hfound

theorem stripAllTags_noTags (h : '<' ∉ cs) (h' : '>' ∉ cs) : stripAllTags cs = cs := by
  rw [stripAllTags]
  induction cs with
  | nil => rfl
  | cons c cs ih =>
      obtain ⟨hlt, hrest⟩ := List.ne_and_not_mem_of_not_mem_cons h
      obtain ⟨hgt, hrest'⟩ := List.ne_and_not_mem_of_not_mem_cons h'
      rw [stripTagsFrom, if_neg hlt.symm, if_neg hgt.symm, if_neg Bool.false_ne_true,
        ih hrest hrest']

/-- Text without `<` and `>` is decoded, and nothing else. -/
theorem htmlToMarkdown_noTags {html : String} (h : '<' ∉ html.toList) (h' : '>' ∉ html.toList) :
    htmlToMarkdown html = String.ofList (collapseWhitespace (decodeEntities html.toList)) := by
  rw [htmlToMarkdown, removeNonContentBlocks_noTags h, extractMainContent_noTags h,
    convertElements, @convertTags_noTags _ h blockTags (by decide), convertBreaks_noTags h,
    @convertTags_noTags _ h inlineTags (by decide), convertLinks_noTags h,
    @convertTags_noTags _ h boxTags (by decide), stripAllTags_noTags h h']

end NoTags

end ArmaraOS.Runtime
