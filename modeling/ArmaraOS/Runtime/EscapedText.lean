import ArmaraOS.Runtime.WebContent

/-!
Escaped text as a web page.

Escaped text has no tags, so it is decoded and collapsed. The ampersand is decoded before the other
entities: what was escaped as `&amp;lt;` is decoded twice. The text reads back exactly when none of
the entities that are decoded after the ampersand stands in it.
-/

namespace ArmaraOS.Runtime

open ArmaraOS.Lib ArmaraOS.Text

/-! ### Escaping -/

/-- The escape of a character other than the ampersand. -/
def escapeOther (c : Char) : List Char :=
  if c = '<' then "&lt;".toList
  else if c = '>' then "&gt;".toList
  else if c = '"' then "&quot;".toList
  else if c = '\'' then "&#39;".toList
  else [c]

/-- The escape of a character. -/
def escapeChar (c : Char) : List Char := if c = '&' then "&amp;".toList else escapeOther c

/-- The HTML escaping of a text. -/
def escapeText (s : String) : String := String.ofList (s.toList.flatMap escapeChar)

/-- An entity that is decoded after the ampersand stands in the text. -/
def HoldsEntity (cs : List Char) : Prop := ∃ entity ∈ laterEntities, entity.1 <:+: cs

instance (cs : List Char) : Decidable (HoldsEntity cs) :=
  inferInstanceAs (Decidable (∃ entity ∈ laterEntities, entity.1 <:+: cs))

theorem escapeOther_of_ne {c : Char} (hlt : c ≠ '<') (hgt : c ≠ '>') (hquot : c ≠ '"')
    (hapos : c ≠ '\'') : escapeOther c = [c] := by
  rw [escapeOther, if_neg hlt, if_neg hgt, if_neg hquot, if_neg hapos]

/-- A character other than the ampersand stays, or becomes an entity that stands for it. -/
theorem escapeOther_cases (c : Char) :
    escapeOther c = [c] ∨ (escapeOther c, [c]) ∈ laterEntities := by
  by_cases hlt : c = '<'
  · subst hlt
    exact .inr (by decide)
  by_cases hgt : c = '>'
  · subst hgt
    exact .inr (by decide)
  by_cases hquot : c = '"'
  · subst hquot
    exact .inr (by decide)
  by_cases hapos : c = '\''
  · subst hapos
    exact .inr (by decide)
  exact .inl (escapeOther_of_ne hlt hgt hquot hapos)

/-- A character that an entity is written with. -/
def isEntityChar (c : Char) : Bool := c.isAlphanum || c == '&' || c == '#' || c == ';'

/-- What the entities look like. -/
theorem laterEntities_facts :
    (∀ entity ∈ laterEntities, entity.1.head? = some '&' ∧ '&' ∉ entity.1.tail ∧ entity.2 ≠ [] ∧
      '<' ∉ entity.1 ∧ '>' ∉ entity.1 ∧ ¬ "&amp;".toList <+: entity.1 ∧
      ¬ entity.1 <+: "&amp;".toList ∧ entity.1.flatMap escapeOther = entity.1) ∧
    (∀ entity ∈ laterEntities, entity.1.all isEntityChar ∧
      entity.2.all fun c => !isEntityChar c) ∧
    (∀ entity ∈ laterEntities, ∀ other ∈ laterEntities, entity.1 <+: other.1 → entity = other) ∧
    laterEntities.Nodup := by
  decide +kernel

theorem entities_later : Entities '&' laterEntities where
  marked entity hmem := by
    obtain ⟨hhead, hmark, -⟩ := laterEntities_facts.1 entity hmem
    obtain ⟨body, hbody⟩ := List.head?_eq_some_iff.mp hhead
    rw [hbody] at hmark
    exact ⟨body, hbody, hmark⟩
  value_ne entity hmem := (laterEntities_facts.1 entity hmem).2.2.1
  foreign entity hmem other hother c hc hc' := by
    have hvalue := List.all_eq_true.mp (laterEntities_facts.2.1 entity hmem).2 c hc
    rw [List.all_eq_true.mp (laterEntities_facts.2.1 other hother).1 c hc'] at hvalue
    cases hvalue
  apart := laterEntities_facts.2.2.1

/-- Decoding the ampersand leaves the other escapes. -/
theorem replace_amp_escapeText (cs : List Char) :
    replaceFrom "&amp;".toList ['&'] 0 (cs.flatMap escapeChar) = cs.flatMap escapeOther := by
  induction cs with
  | nil => rfl
  | cons c cs ih =>
      rw [List.flatMap_cons, List.flatMap_cons]
      by_cases hamp : c = '&'
      · subst hamp
        rw [escapeChar, if_pos rfl, Symbol.replaceFrom_start (by decide), ih]
        rfl
      · rw [escapeChar, if_neg hamp]
        have hplain : ∀ i < (escapeOther c).length,
            ¬ "&amp;".toList <+: (escapeOther c ++ cs.flatMap escapeChar).drop i := by
          rcases escapeOther_cases c with hstay | hentity
          · rw [hstay]
            intro i hi hpre
            obtain rfl : i = 0 := by simpa using hi
            exact hamp (List.cons_prefix_cons.mp hpre).1.symm
          · obtain ⟨-, hmark, -, -, -, hnot, hnot', -⟩ := laterEntities_facts.1 _ hentity
            intro i hi hpre
            cases i with
            | zero =>
                rcases List.prefix_or_prefix_of_prefix hpre
                  (List.prefix_append (escapeOther c) _) with hin | hover
                · exact hnot hin
                · exact hnot' hover
            | succ i =>
                obtain ⟨rest, hrest⟩ := hpre
                rw [← List.drop_tail, List.tail_append_of_ne_nil (by
                  exact List.ne_nil_of_length_pos (by omega)),
                  List.drop_append_of_le_length (by rw [List.length_tail]; omega)] at hrest
                cases hdrop : (escapeOther c).tail.drop i with
                | nil =>
                    have hlength := congrArg List.length hdrop
                    rw [List.length_drop, List.length_tail, List.length_nil] at hlength
                    omega
                | cons d tail =>
                    rw [hdrop] at hrest
                    obtain ⟨rfl, -⟩ := List.cons.inj hrest
                    refine hmark (List.mem_of_mem_drop (i := i) ?_)
                    rw [hdrop]
                    exact List.mem_cons_self
        rw [Symbol.replaceFrom_plain ['&'] hplain, ih]

theorem decodeEntities_escapeText (cs : List Char) :
    decodeEntities (cs.flatMap escapeChar) = replaceAll laterEntities (cs.flatMap escapeOther) := by
  rw [decodeEntities, replace_amp_escapeText]

/-! ### Decoding -/

/-- A body without an ampersand is not made by escaping. -/
theorem prefix_of_escaped {body cs : List Char} (hamp : '&' ∉ body)
    (h : body <+: cs.flatMap escapeOther) : body <+: cs := by
  induction cs generalizing body with
  | nil => exact h
  | cons c cs ih =>
      cases body with
      | nil => exact List.nil_prefix
      | cons d body =>
          obtain ⟨hd, hbody⟩ := List.ne_and_not_mem_of_not_mem_cons hamp
          rw [List.flatMap_cons] at h
          rcases escapeOther_cases c with hstay | hentity
          · rw [hstay] at h
            obtain ⟨rfl, hrest⟩ := List.cons_prefix_cons.mp h
            exact List.cons_prefix_cons.mpr ⟨rfl, ih hbody hrest⟩
          · obtain ⟨tail, htail, -⟩ := entities_later.marked _ hentity
            rw [show escapeOther c = '&' :: tail from htail] at h
            exact absurd (List.cons_prefix_cons.mp h).1.symm hd

/-- An entity is escaped by its ampersand alone. -/
theorem flatMap_escapeOther_entity {entity : List Char × List Char}
    (h : entity ∈ laterEntities) : entity.1.flatMap escapeOther = entity.1 :=
  (laterEntities_facts.1 entity h).2.2.2.2.2.2.2

/-- What decoding does at the start of an escaped text. -/
theorem decoded_cons {c : Char} {cs : List Char}
    (h : ∀ entity ∈ laterEntities, ¬ entity.1 <+: c :: cs) :
    replaceAll laterEntities ((c :: cs).flatMap escapeOther) =
      c :: replaceAll laterEntities (cs.flatMap escapeOther) := by
  rw [List.flatMap_cons]
  rcases escapeOther_cases c with hstay | hentity
  · rw [hstay, List.singleton_append]
    by_cases hamp : c = '&'
    · subst hamp
      refine entities_later.replaceAll_mark fun entity hmem hpre => h entity hmem ?_
      obtain ⟨body, hbody, hmark⟩ := entities_later.marked entity hmem
      rw [hbody] at hpre ⊢
      exact List.cons_prefix_cons.mpr
        ⟨rfl, prefix_of_escaped hmark (List.cons_prefix_cons.mp hpre).2⟩
    · exact entities_later.replaceAll_cons_of_ne hamp _
  · have hvalue : replaceAll laterEntities (escapeOther c ++ cs.flatMap escapeOther) =
        [c] ++ replaceAll laterEntities (cs.flatMap escapeOther) :=
      entities_later.replaceAll_entity laterEntities_facts.2.2.2 hentity _
    rw [hvalue, List.singleton_append]

/-- Text without entities is read back. -/
theorem decoded_of_plain {cs : List Char} (h : ¬ HoldsEntity cs) :
    replaceAll laterEntities (cs.flatMap escapeOther) = cs := by
  induction cs with
  | nil => exact Entities.replaceAll_nil laterEntities
  | cons c cs ih =>
      rw [decoded_cons fun entity hmem hpre => h ⟨entity, hmem, hpre.isInfix⟩, ih]
      rintro ⟨entity, hmem, hin⟩
      exact h ⟨entity, hmem, hin.trans (List.suffix_cons c cs).isInfix⟩

/-- Each entity in the text costs an ampersand. -/
theorem count_decoded (n : Nat) (cs : List Char) (hlen : cs.length ≤ n) :
    (replaceAll laterEntities (cs.flatMap escapeOther)).count '&' ≤ cs.count '&' ∧
      (HoldsEntity cs →
        (replaceAll laterEntities (cs.flatMap escapeOther)).count '&' < cs.count '&') := by
  induction n generalizing cs with
  | zero =>
      obtain rfl := List.length_eq_zero_iff.mp (Nat.le_zero.mp hlen)
      exact ⟨Nat.le_refl _, by decide⟩
  | succ n ih =>
      by_cases hstart : ∃ entity ∈ laterEntities, entity.1 <+: cs
      · obtain ⟨entity, hmem, rest, rfl⟩ := hstart
        obtain ⟨body, hbody, hmark⟩ := entities_later.marked entity hmem
        have hvalue : entity.2.count '&' = 0 :=
          List.count_eq_zero.mpr (entities_later.mark_notMem_value hmem)
        have hpat : entity.1.count '&' = 1 := by
          rw [hbody, List.count_cons_self, List.count_eq_zero.mpr hmark]
        have hpos : 0 < entity.1.length := by simp [hbody]
        rw [List.length_append] at hlen
        have hrest := (ih rest (by omega)).1
        rw [List.flatMap_append, flatMap_escapeOther_entity hmem,
          entities_later.replaceAll_entity laterEntities_facts.2.2.2 hmem, List.count_append,
          List.count_append, hvalue, hpat]
        exact ⟨by omega, fun _ => by omega⟩
      · cases cs with
        | nil => exact ⟨Nat.le_refl _, by decide⟩
        | cons c cs =>
            have hnone : ∀ entity ∈ laterEntities, ¬ entity.1 <+: c :: cs :=
              fun entity hmem hpre => hstart ⟨entity, hmem, hpre⟩
            obtain ⟨hle, hlt⟩ := ih cs (Nat.le_of_succ_le_succ hlen)
            rw [decoded_cons hnone, List.count_cons, List.count_cons]
            refine ⟨by omega, ?_⟩
            rintro ⟨entity, hmem, hin⟩
            rcases List.infix_cons_iff.mp hin with hpre | hlater
            · exact absurd hpre (hnone entity hmem)
            · have hfewer := hlt ⟨entity, hmem, hlater⟩
              omega

/-! ### Whitespace -/

/-- The characters of a text that are no whitespace. -/
def ink (cs : List Char) : List Char := cs.filter fun c => !isWhitespace c

theorem ink_append (cs ds : List Char) : ink (cs ++ ds) = ink cs ++ ink ds := List.filter_append ..

theorem ink_dropWhile (cs : List Char) : ink (cs.dropWhile isWhitespace) = ink cs := by
  induction cs with
  | nil => rfl
  | cons c cs ih =>
      cases hc : isWhitespace c with
      | true =>
          rw [List.dropWhile_cons_of_pos hc, ih, ink, ink, List.filter_cons_of_neg (by simp [hc])]
      | false => rw [List.dropWhile_cons_of_neg (by simp [hc])]

theorem ink_reverse (cs : List Char) : ink cs.reverse = (ink cs).reverse := List.filter_reverse ..

theorem ink_trimmed (cs : List Char) : ink (trimmed cs) = ink cs := by
  rw [trimmed, trimChars, ink_reverse, ink_dropWhile, ink_reverse, ink_dropWhile,
    List.reverse_reverse]

theorem ink_stripCarriageReturn (line : List Char) : ink (stripCarriageReturn line) = ink line := by
  rw [stripCarriageReturn]
  split
  · rename_i hlast
    obtain ⟨front, rfl⟩ := List.getLast?_eq_some_iff.mp hlast
    rw [List.dropLast_concat, ink_append]
    exact (List.append_nil _).symm
  · rfl

theorem ink_lines (cs : List Char) : ((lines cs).map ink).flatten = ink cs := by
  have hjoined : ∀ pieces : List (List Char),
      ink (['\n'].intercalate pieces) = (pieces.map ink).flatten := by
    intro pieces
    induction pieces with
    | nil => rfl
    | cons piece pieces ih =>
        cases pieces with
        | nil => simp
        | cons next pieces =>
            rw [List.intercalate_cons_cons, ink_append, ink_append, ih,
              show ink ['\n'] = [] from rfl, List.append_nil]
            rfl
  have hpieces := hjoined (cs.splitOn '\n')
  rw [List.intercalate_splitOn] at hpieces
  rw [hpieces, lines]
  cases hsplit : cs.splitOn '\n' using List.reverseRecOn with
  | nil => exact absurd hsplit (List.splitOn_ne_nil _ _)
  | append_singleton front last _ =>
      rw [List.dropLast_concat, List.getLast?_concat, Option.getD_some, List.map_append,
        List.map_append, List.flatten_append, List.flatten_append, List.map_map]
      congr 1
      · exact congrArg List.flatten (List.map_congr_left fun line _ => ink_stripCarriageReturn line)
      · cases last <;> rfl

theorem ink_collapseLines (blankCount : Nat) (ls : List (List Char)) :
    ink (collapseLines blankCount ls) = (ls.map ink).flatten := by
  induction ls generalizing blankCount with
  | nil => rfl
  | cons line ls ih =>
      rw [collapseLines, List.map_cons, List.flatten_cons]
      split
      · rename_i hempty
        obtain rfl := List.isEmpty_iff.mp hempty
        rw [ink_append, ih]
        split <;> rfl
      · rw [ink_append, ← ih 0]
        rfl

/-- Collapsing whitespace keeps everything else. -/
theorem ink_collapseWhitespace (cs : List Char) : ink (collapseWhitespace cs) = ink cs := by
  rw [collapseWhitespace, ink_trimmed, ink_collapseLines, List.map_map, ← ink_lines cs]
  exact congrArg List.flatten (List.map_congr_left fun line _ => ink_trimmed line)

theorem count_ink (cs : List Char) : (ink cs).count '&' = cs.count '&' :=
  List.count_filter (by decide)

/-! ### Reading back -/

theorem escapeText_noTags (s : String) :
    '<' ∉ (escapeText s).toList ∧ '>' ∉ (escapeText s).toList := by
  have hchar : ∀ c, '<' ∉ escapeChar c ∧ '>' ∉ escapeChar c := by
    intro c
    rw [escapeChar]
    split
    · decide
    · rcases escapeOther_cases c with hstay | hentity
      · rw [hstay]
        refine ⟨fun hmem => ?_, fun hmem => ?_⟩
        · obtain rfl := List.mem_singleton.mp hmem
          exact absurd hstay (by decide)
        · obtain rfl := List.mem_singleton.mp hmem
          exact absurd hstay (by decide)
      · obtain ⟨-, -, -, hlt, hgt, -⟩ := laterEntities_facts.1 _ hentity
        exact ⟨hlt, hgt⟩
  rw [escapeText, String.toList_ofList, List.mem_flatMap, List.mem_flatMap]
  exact ⟨fun ⟨c, _, hmem⟩ => (hchar c).1 hmem, fun ⟨c, _, hmem⟩ => (hchar c).2 hmem⟩

theorem htmlToMarkdown_escapeText (s : String) :
    htmlToMarkdown (escapeText s) = String.ofList
      (collapseWhitespace (replaceAll laterEntities (s.toList.flatMap escapeOther))) := by
  obtain ⟨hlt, hgt⟩ := escapeText_noTags s
  rw [htmlToMarkdown_noTags hlt hgt, escapeText, String.toList_ofList, decodeEntities_escapeText]

theorem reads_back_ne {s : String} (h : HoldsEntity s.toList) :
    htmlToMarkdown (escapeText s) ≠ String.ofList (collapseWhitespace s.toList) := by
  intro hsame
  rw [htmlToMarkdown_escapeText, String.ofList_inj] at hsame
  have hcount := (count_decoded _ s.toList (Nat.le_refl _)).2 h
  have hink := congrArg (fun cs => (ink cs).count '&') hsame
  simp only [ink_collapseWhitespace, count_ink] at hink
  omega

/-- For every text: its escaping is read as the text with its whitespace collapsed exactly when none
of the entities that are decoded after the ampersand stands in it. -/
theorem escaped_text_reads_back_iff (s : String) :
    htmlToMarkdown (escapeText s) = String.ofList (collapseWhitespace s.toList) ↔
      ¬ HoldsEntity s.toList := by
  constructor
  · exact fun hsame hentity => reads_back_ne hentity hsame
  · intro hplain
    rw [htmlToMarkdown_escapeText, decoded_of_plain hplain]

/-- The text `&lt;` comes back as `<`. -/
theorem escaped_entity_decoded_twice : ¬ ∀ s : String,
    htmlToMarkdown (escapeText s) = String.ofList (collapseWhitespace s.toList) :=
  fun h => reads_back_ne (by decide) (h "&lt;")

end ArmaraOS.Runtime
