import ArmaraOS.Lib.HoldBack

/-!
Looking for a pattern whose first element is a mark: it occurs nowhere else in the pattern.

Such a pattern does not overlap itself, and it does not straddle a place where a mark stands. So
what stands in front of a mark and does not hold the pattern has no part in where it is found.
-/

namespace ArmaraOS.Lib.Framing

variable {α : Type*} {a : α} {pat plain xs ys : List α}

/-! ### Occurrences -/

/-- Text without a mark holds no start of the pattern. -/
theorem infix_of_notMem (hplain : a ∉ plain) (h : a :: pat <:+: plain ++ xs) :
    a :: pat <:+: xs := by
  induction plain with
  | nil => exact h
  | cons b plain ih =>
      obtain ⟨hne, hrest⟩ := List.ne_and_not_mem_of_not_mem_cons hplain
      rcases List.infix_cons_iff.mp h with hpre | hinfix
      · exact absurd (List.cons_prefix_cons.mp hpre).1 hne
      · exact ih hrest hinfix

/-- Text without the last element of the pattern holds no end of it. -/
theorem infix_of_notMem_right {z : α} (hplain : z ∉ plain) (h : pat ++ [z] <:+: xs ++ plain) :
    pat ++ [z] <:+: xs := by
  rw [← List.reverse_infix] at h ⊢
  rw [List.reverse_concat, List.reverse_append] at h
  rw [List.reverse_concat]
  exact infix_of_notMem (by rwa [List.mem_reverse]) h

/-- The pattern does not reach over a mark. -/
theorem prefix_of_mark (ha : a ∉ pat) {b : α} (h : a :: pat <+: b :: (xs ++ a :: ys)) :
    a :: pat <+: b :: xs := by
  obtain ⟨rfl, hpre⟩ := List.cons_prefix_cons.mp h
  refine List.cons_prefix_cons.mpr ⟨rfl, ?_⟩
  rcases List.prefix_or_prefix_of_prefix hpre (List.prefix_append xs (a :: ys)) with hin | hover
  · exact hin
  · obtain ⟨rest, rfl⟩ := hover
    cases rest with
    | nil => simp
    | cons b rest =>
        obtain ⟨rfl, -⟩ := List.cons_prefix_cons.mp ((List.prefix_append_right_inj xs).mp hpre)
        exact absurd (List.mem_append_right xs List.mem_cons_self) ha

/-! ### The first occurrence -/

section Cut

variable [DecidableEq α]

theorem cutAt_start (rest : List α) :
    cutAt (a :: pat) (a :: pat ++ rest) = some ([], rest) := by
  have hpre : (a :: pat).isPrefixOf? (a :: (pat ++ rest)) = some rest :=
    List.isPrefixOf?_eq_some_iff_append_eq.mpr rfl
  rw [List.cons_append, cutAt, hpre]

/-- The first occurrence is not behind an earlier one. -/
theorem cutAt_front {front rest : List α} (hpat : pat ≠ [])
    (h : cutAt pat xs = some (front, rest)) : ¬ pat <:+: front := by
  intro hinfix
  cases hcut : cutAt pat front with
  | none => exact cutAt_eq_none_iff.mp hcut hinfix
  | some cut =>
      obtain ⟨front', rest'⟩ := cut
      have hwhole := cutAt_append (pat ++ rest) hcut
      rw [← List.append_assoc, ← cutAt_eq_some h, h] at hwhole
      obtain ⟨hsame, -⟩ := Prod.mk.inj (Option.some.inj hwhole)
      have hlen := congrArg List.length (cutAt_eq_some hcut)
      have hpos := List.length_pos_iff.mpr hpat
      rw [hsame, List.length_append, List.length_append] at hlen
      omega

/-- Text without a mark has no part in where the pattern is found. -/
theorem cutAt_append_plain (hplain : a ∉ plain) :
    cutAt (a :: pat) (plain ++ xs) =
      (cutAt (a :: pat) xs).map fun cut => (plain ++ cut.1, cut.2) := by
  induction plain with
  | nil => simp
  | cons b plain ih =>
      obtain ⟨hne, hrest⟩ := List.ne_and_not_mem_of_not_mem_cons hplain
      have hnot : ¬ a :: pat <+: b :: (plain ++ xs) := fun hpre =>
        hne (List.cons_prefix_cons.mp hpre).1
      rw [List.cons_append, cutAt_cons_of_not_prefix hnot, ih hrest]
      cases cutAt (a :: pat) xs <;> rfl

/-- Neither has text without the pattern in front of a mark. -/
theorem cutAt_append_mark (ha : a ∉ pat) (hxs : ¬ a :: pat <:+: xs) :
    cutAt (a :: pat) (xs ++ a :: ys) =
      (cutAt (a :: pat) (a :: ys)).map fun cut => (xs ++ cut.1, cut.2) := by
  induction xs with
  | nil => simp
  | cons b xs ih =>
      rw [List.infix_cons_iff, not_or] at hxs
      have hnot : ¬ a :: pat <+: b :: (xs ++ a :: ys) := fun hpre =>
        hxs.1 (prefix_of_mark ha hpre)
      rw [List.cons_append, cutAt_cons_of_not_prefix hnot, ih hxs.2]
      cases cutAt (a :: pat) (a :: ys) <;> rfl

/-- The pattern is found behind text that does not hold it. -/
theorem cutAt_first (ha : a ∉ pat) (hxs : ¬ a :: pat <:+: xs) (rest : List α) :
    cutAt (a :: pat) (xs ++ (a :: pat ++ rest)) = some (xs, rest) := by
  rw [List.cons_append, cutAt_append_mark ha hxs, ← List.cons_append, cutAt_start]
  simp

/-- A pattern that neither part holds starts in the first part. -/
theorem cutAt_straddles {front rest : List α} (hys : ¬ pat <:+: ys)
    (h : cutAt pat (xs ++ ys) = some (front, rest)) : front <+: xs := by
  have hwhole := cutAt_eq_some h
  have hpre : front <+: xs ++ ys := by
    rw [hwhole, List.append_assoc]
    exact List.prefix_append front _
  rcases List.prefix_or_prefix_of_prefix hpre (List.prefix_append xs ys) with hin | hover
  · exact hin
  · obtain ⟨mid, rfl⟩ := hover
    rw [List.append_assoc, List.append_assoc, List.append_cancel_left_eq] at hwhole
    exact absurd ⟨mid, rest, by rw [hwhole, List.append_assoc]⟩ hys

end Cut

end ArmaraOS.Lib.Framing
