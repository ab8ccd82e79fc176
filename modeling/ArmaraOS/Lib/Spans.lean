import ArmaraOS.Lib.HoldBack

/-!
Texts with bracketed spans.

A span starts with the first opening pattern and ends with the first closing one behind it; the
next span is looked for behind that. A text is what stands between its spans, the spans, and a tail
without a span.
-/

namespace ArmaraOS.Lib

open Framing

/-- The patterns that a span starts and ends with. -/
structure Brackets (α : Type) where
  opening : List α
  closing : List α
  opening_ne : opening ≠ []

namespace Brackets

variable {α : Type} [DecidableEq α] (b : Brackets α)

/-- What stands before the first span, what it contains, and what stands behind it. -/
def cut (text : List α) : Option (List α × List α × List α) :=
  (cutAt b.opening text).bind fun opened =>
    (cutAt b.closing opened.2).map fun closed => (opened.1, closed)

variable {b}

theorem cut_eq_some {text before content behind : List α}
    (h : b.cut text = some (before, content, behind)) :
    cutAt b.opening text = some (before, content ++ b.closing ++ behind) ∧
      cutAt b.closing (content ++ b.closing ++ behind) = some (content, behind) := by
  obtain ⟨⟨before', opened⟩, hopen, hclose⟩ := Option.bind_eq_some_iff.mp h
  obtain ⟨⟨content', behind'⟩, hcut, heq⟩ := Option.map_eq_some_iff.mp hclose
  obtain ⟨rfl, hclosed⟩ := Prod.mk.inj heq
  obtain ⟨rfl, rfl⟩ := Prod.mk.inj hclosed
  have hafter := cutAt_eq_some hcut
  exact ⟨hafter ▸ hopen, hafter ▸ hcut⟩

theorem eq_of_cut {text before content behind : List α}
    (h : b.cut text = some (before, content, behind)) :
    text = before ++ b.opening ++ (content ++ b.closing ++ behind) :=
  cutAt_eq_some (cut_eq_some h).1

theorem length_behind_lt {text before content behind : List α}
    (h : b.cut text = some (before, content, behind)) : behind.length < text.length := by
  have hpos := List.length_pos_iff.mpr b.opening_ne
  rw [eq_of_cut h]
  simp only [List.length_append]
  omega

/-- There is no span where no opening pattern has a closing one behind it. -/
theorem cut_eq_none_iff {text : List α} :
    b.cut text = none ↔
      ¬ ∃ before inside, text = before ++ b.opening ++ inside ∧ b.closing <:+: inside := by
  constructor
  · rintro h ⟨before, inside, rfl, hclosing⟩
    cases hopen : cutAt b.opening (before ++ b.opening ++ inside) with
    | none => exact cutAt_eq_none_iff.mp hopen (List.infix_append before b.opening inside)
    | some opened =>
        obtain ⟨front, opened⟩ := opened
        have hwhole := cutAt_eq_some hopen
        have hlength := congrArg List.length hwhole
        have hfirst := length_le_of_cutAt hopen
        simp only [List.length_append] at hlength
        rw [cut, hopen, Option.bind_some, Option.map_eq_none_iff, cutAt_eq_none_iff] at h
        have hsuffix : inside <:+ opened := by
          refine List.suffix_of_suffix_length_le ⟨before ++ b.opening, rfl⟩
            ⟨front ++ b.opening, hwhole.symm⟩ ?_
          omega
        exact h (hclosing.trans hsuffix.isInfix)
  · intro h
    cases hcut : b.cut text with
    | none => rfl
    | some cut =>
        obtain ⟨before, content, behind⟩ := cut
        refine absurd ⟨before, _, eq_of_cut hcut, content, behind, rfl⟩ h

/-- What stands in front of a text without an opening pattern there does not change its spans. -/
theorem cut_cons {c : α} {text : List α} (h : ¬ b.opening <+: c :: text) :
    b.cut (c :: text) = (b.cut text).map fun (before, rest) => (c :: before, rest) := by
  rw [cut, cutAt_cons_of_not_prefix h, cut]
  cases cutAt b.opening text with
  | none => rfl
  | some opened =>
      simp only [Option.map_some, Option.bind_some, Option.map_map]
      rfl

/-- The first span behind the first element. -/
theorem cut_of_cons {c : α} {text before content behind : List α}
    (h : b.cut (c :: text) = some (c :: before, content, behind)) :
    ¬ b.opening <+: c :: text ∧ b.cut text = some (before, content, behind) := by
  have hplain : ¬ b.opening <+: c :: text := by
    rintro ⟨rest, hrest⟩
    have hopen := (cut_eq_some h).1
    rw [cutAt, List.isPrefixOf?_eq_some_iff_append_eq.mpr hrest] at hopen
    cases hopen
  rw [cut_cons hplain, Option.map_eq_some_iff] at h
  obtain ⟨⟨before', rest⟩, hcut, heq⟩ := h
  obtain ⟨hbefore, rfl⟩ := Prod.mk.inj heq
  obtain ⟨-, rfl⟩ := List.cons.inj hbefore
  exact ⟨hplain, hcut⟩

theorem cut_eq_none_of_cons {c : α} {text : List α} (h : b.cut (c :: text) = none) :
    b.cut text = none := by
  rw [cut_eq_none_iff] at h ⊢
  rintro ⟨before, inside, rfl, hclosing⟩
  exact h ⟨c :: before, inside, rfl, hclosing⟩

theorem cut_drop_eq_none {text : List α} (h : b.cut text = none) (n : Nat) :
    b.cut (text.drop n) = none := by
  induction n generalizing text with
  | zero => exact h
  | succ n ih =>
      cases text with
      | nil => exact h
      | cons c text => exact ih (cut_eq_none_of_cons h)

variable (b) in
/-- The spans of a text, each with what stands before it, and what stands behind the last one. -/
def split (text : List α) : List (List α × List α) × List α :=
  match _h : b.cut text with
  | none => ([], text)
  | some (before, content, behind) =>
      ((before, content) :: (split behind).1, (split behind).2)
termination_by text.length
decreasing_by
  all_goals exact length_behind_lt _h

theorem split_of_none {text : List α} (h : b.cut text = none) : b.split text = ([], text) := by
  rw [split]
  split
  · rfl
  · rename_i h'
    cases h.symm.trans h'

theorem split_of_some {text before content behind : List α}
    (h : b.cut text = some (before, content, behind)) :
    b.split text = ((before, content) :: (b.split behind).1, (b.split behind).2) := by
  rw [split]
  split
  · rename_i h'
    cases h.symm.trans h'
  · rename_i h'
    cases h.symm.trans h'
    rfl

variable (b) in
/-- The text with these spans. -/
def join (parts : List (List α × List α)) (tail : List α) : List α :=
  parts.foldr (fun part rest => part.1 ++ b.opening ++ (part.2 ++ b.closing ++ rest)) tail

/-- A text is its spans and what stands around them. -/
theorem join_split (text : List α) : b.join (b.split text).1 (b.split text).2 = text := by
  induction text using split.induct b with
  | case1 text h => rw [split_of_none h, join, List.foldr_nil]
  | case2 text before content behind h ih =>
      rw [split_of_some h, eq_of_cut h]
      exact congrArg (fun rest => before ++ b.opening ++ (content ++ b.closing ++ rest)) ih

/-- What is left of a text without its spans. -/
def outside (parts : List (List α × List α)) (tail : List α) : List α :=
  parts.flatMap Prod.fst ++ tail

end Brackets

end ArmaraOS.Lib
