import ArmaraOS.Lib.Placeholders

/-!
Replacing one pattern after the other, where all patterns start with one mark.

A table of entities is replaced in turn. Where no pattern is the start of another one and no value
holds a character of a pattern, the order does not matter: every entity that stands in the text is
replaced once, and nothing that comes out is replaced again.
-/

namespace ArmaraOS.Lib

open ArmaraOS.Text

/-- Replacing the patterns of a table in its order. -/
def replaceAll (table : List (List Char × List Char)) (cs : List Char) : List Char :=
  table.foldl (fun cs entity => replaceFrom entity.1 entity.2 0 cs) cs

/-- A table whose patterns start with the mark, which is nowhere else in them; its values are not
empty and hold no character of a pattern. -/
structure Entities (mark : Char) (table : List (List Char × List Char)) : Prop where
  marked : ∀ entity ∈ table, ∃ body, entity.1 = mark :: body ∧ mark ∉ body
  value_ne : ∀ entity ∈ table, entity.2 ≠ []
  foreign : ∀ entity ∈ table, ∀ other ∈ table, ∀ c ∈ entity.2, c ∉ other.1
  apart : ∀ entity ∈ table, ∀ other ∈ table, entity.1 <+: other.1 → entity = other

section Replacing

variable {mark : Char} {body value : List Char}

theorem replaceFrom_cons_of_ne {c : Char} (hc : c ≠ mark) (cs : List Char) :
    replaceFrom (mark :: body) value 0 (c :: cs) = c :: replaceFrom (mark :: body) value 0 cs := by
  have hnot : ¬ (mark :: body).isPrefixOf (c :: cs) = true := fun hpre =>
    hc (List.cons_prefix_cons.mp (List.isPrefixOf_iff_prefix.mp hpre)).1.symm
  rw [replaceFrom, if_neg hnot]

theorem replaceFrom_append_of_notMem {plain : List Char} (hplain : mark ∉ plain)
    (cs : List Char) :
    replaceFrom (mark :: body) value 0 (plain ++ cs) =
      plain ++ replaceFrom (mark :: body) value 0 cs := by
  induction plain with
  | nil => rfl
  | cons c plain ih =>
      obtain ⟨hne, hrest⟩ := List.ne_and_not_mem_of_not_mem_cons hplain
      rw [List.cons_append, replaceFrom_cons_of_ne hne.symm, ih hrest, List.cons_append]

theorem replaceFrom_of_notMem {cs : List Char} (h : mark ∉ cs) :
    replaceFrom (mark :: body) value 0 cs = cs := by
  have hplain := @replaceFrom_append_of_notMem mark body value cs h []
  rw [List.append_nil] at hplain
  rw [hplain]
  exact List.append_nil cs

theorem replaceFrom_mark {cs : List Char} (h : ¬ mark :: body <+: mark :: cs) :
    replaceFrom (mark :: body) value 0 (mark :: cs) =
      mark :: replaceFrom (mark :: body) value 0 cs := by
  rw [replaceFrom, if_neg fun hpre => h (List.isPrefixOf_iff_prefix.mp hpre)]

/-- Replacing does not complete the body of a pattern. -/
theorem prefix_of_replaced {other : List Char} (hvalue : value ≠ [])
    (hforeign : ∀ c ∈ value, c ∉ other) (hmark : mark ∉ other) {cs : List Char}
    (h : other <+: replaceFrom (mark :: body) value 0 cs) : other <+: cs := by
  induction cs generalizing other with
  | nil => exact h
  | cons c cs ih =>
      cases other with
      | nil => exact List.nil_prefix
      | cons d other =>
          rw [replaceFrom] at h
          split at h
          · -- the value starts with a character that the pattern does not have
            cases value with
            | nil => exact absurd rfl hvalue
            | cons v value =>
                obtain ⟨rfl, -⟩ := List.cons_prefix_cons.mp h
                exact absurd List.mem_cons_self (hforeign d List.mem_cons_self)
          · obtain ⟨rfl, hrest⟩ := List.cons_prefix_cons.mp h
            refine List.cons_prefix_cons.mpr ⟨rfl, ih ?_ ?_ hrest⟩
            · exact fun v hv hmem => hforeign v hv (List.mem_cons_of_mem _ hmem)
            · exact fun hmem => hmark (List.mem_cons_of_mem _ hmem)

end Replacing

namespace Entities

variable {mark : Char} {table : List (List Char × List Char)}

theorem of_subset {table' : List (List Char × List Char)} (h : Entities mark table)
    (hsub : ∀ entity ∈ table', entity ∈ table) : Entities mark table' where
  marked entity hmem := h.marked entity (hsub entity hmem)
  value_ne entity hmem := h.value_ne entity (hsub entity hmem)
  foreign entity hmem other hother := h.foreign entity (hsub entity hmem) other (hsub other hother)
  apart entity hmem other hother := h.apart entity (hsub entity hmem) other (hsub other hother)

theorem tail {entity : List Char × List Char} (h : Entities mark (entity :: table)) :
    Entities mark table :=
  h.of_subset fun _ hmem => List.mem_cons_of_mem entity hmem

theorem mark_notMem_value (h : Entities mark table) {entity : List Char × List Char}
    (hmem : entity ∈ table) : mark ∉ entity.2 := by
  intro hmark
  obtain ⟨body, hbody, -⟩ := h.marked entity hmem
  refine h.foreign entity hmem entity hmem mark hmark ?_
  rw [hbody]
  exact List.mem_cons_self

theorem replaceAll_nil (table : List (List Char × List Char)) : replaceAll table [] = [] := by
  induction table with
  | nil => rfl
  | cons entity table ih => exact ih

/-- Text in front of the first mark is kept. -/
theorem replaceAll_append_of_notMem (h : Entities mark table) {plain : List Char}
    (hplain : mark ∉ plain) (cs : List Char) :
    replaceAll table (plain ++ cs) = plain ++ replaceAll table cs := by
  induction table generalizing cs with
  | nil => rfl
  | cons entity table ih =>
      obtain ⟨body, hbody, -⟩ := h.marked entity List.mem_cons_self
      rw [replaceAll, List.foldl_cons, hbody, replaceFrom_append_of_notMem hplain,
        ← replaceAll, ih h.tail, replaceAll, replaceAll, List.foldl_cons, hbody]

theorem replaceAll_cons_of_ne (h : Entities mark table) {c : Char} (hc : c ≠ mark)
    (cs : List Char) : replaceAll table (c :: cs) = c :: replaceAll table cs :=
  @replaceAll_append_of_notMem mark table h [c] (by simpa using hc.symm) cs

/-- A mark that starts no entity is kept. -/
theorem replaceAll_mark (h : Entities mark table) {cs : List Char}
    (hnone : ∀ entity ∈ table, ¬ entity.1 <+: mark :: cs) :
    replaceAll table (mark :: cs) = mark :: replaceAll table cs := by
  induction table generalizing cs with
  | nil => rfl
  | cons entity table ih =>
      obtain ⟨body, hbody, -⟩ := h.marked entity List.mem_cons_self
      have hthis : ¬ mark :: body <+: mark :: cs := hbody ▸ hnone entity List.mem_cons_self
      have hlater : ∀ other ∈ table,
          ¬ other.1 <+: mark :: replaceFrom (mark :: body) entity.2 0 cs := by
        intro other hother hpre
        obtain ⟨body', hbody', hmark'⟩ := h.marked other (List.mem_cons_of_mem _ hother)
        rw [hbody'] at hpre
        refine hnone other (List.mem_cons_of_mem _ hother) ?_
        rw [hbody']
        refine List.cons_prefix_cons.mpr ⟨rfl, prefix_of_replaced
          (h.value_ne entity List.mem_cons_self) ?_ hmark' (List.cons_prefix_cons.mp hpre).2⟩
        intro c hc hmem
        refine h.foreign entity List.mem_cons_self other (List.mem_cons_of_mem _ hother) c hc ?_
        rw [hbody']
        exact List.mem_cons_of_mem _ hmem
      rw [replaceAll, List.foldl_cons, hbody, replaceFrom_mark hthis, ← replaceAll,
        ih h.tail hlater, replaceAll, replaceAll, List.foldl_cons, hbody]

/-- A pattern that is not the entity starts nowhere in it. -/
theorem not_prefix_within (h : Entities mark table) {entity other : List Char × List Char}
    (hentity : entity ∈ table) (hother : other ∈ table) (hne : entity ≠ other) (cs : List Char) :
    ∀ i < entity.1.length, ¬ other.1 <+: (entity.1 ++ cs).drop i := by
  obtain ⟨body, hbody, hmark⟩ := h.marked entity hentity
  obtain ⟨body', hbody', -⟩ := h.marked other hother
  intro i hi hpre
  cases i with
  | zero =>
      rcases List.prefix_or_prefix_of_prefix hpre (List.prefix_append entity.1 cs) with hin | hover
      · exact hne (h.apart other hother entity hentity hin).symm
      · exact hne (h.apart entity hentity other hother hover)
  | succ i =>
      rw [hbody, List.length_cons] at hi
      rw [hbody, hbody', List.cons_append, List.drop_succ_cons,
        List.drop_append_of_le_length (by omega)] at hpre
      cases hdrop : body.drop i with
      | nil =>
          have hlength := congrArg List.length hdrop
          rw [List.length_drop, List.length_nil] at hlength
          omega
      | cons c rest =>
          rw [hdrop, List.cons_append] at hpre
          obtain ⟨rfl, -⟩ := List.cons_prefix_cons.mp hpre
          refine hmark (List.mem_of_mem_drop (i := i) ?_)
          rw [hdrop]
          exact List.mem_cons_self

/-- An entity of the table is replaced by its value, whatever stands behind it. -/
theorem replaceAll_entity (h : Entities mark table) (hnodup : table.Nodup)
    {entity : List Char × List Char} (hentity : entity ∈ table) (cs : List Char) :
    replaceAll table (entity.1 ++ cs) = entity.2 ++ replaceAll table cs := by
  induction table generalizing cs with
  | nil => exact absurd hentity List.not_mem_nil
  | cons first table ih =>
      obtain ⟨hfirst, hrest⟩ := List.nodup_cons.mp hnodup
      obtain ⟨body, hbody, -⟩ := h.marked first List.mem_cons_self
      rw [replaceAll, replaceAll, List.foldl_cons, List.foldl_cons, ← replaceAll, ← replaceAll]
      rcases List.mem_cons.mp hentity with rfl | hmem
      · have hne : entity.1 ≠ [] := by simp [hbody]
        rw [Symbol.replaceFrom_start hne, h.tail.replaceAll_append_of_notMem
          (h.mark_notMem_value List.mem_cons_self)]
      · have hother : entity ≠ first := fun heq => hfirst (heq ▸ hmem)
        rw [Symbol.replaceFrom_plain first.2 (h.not_prefix_within hentity List.mem_cons_self
          hother cs), ih h.tail hrest hmem]

end Entities

end ArmaraOS.Lib
