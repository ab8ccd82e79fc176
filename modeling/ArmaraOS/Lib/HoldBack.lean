import Mathlib.Data.List.Infix
import ArmaraOS.Lib.Framing

/-!
Looking for a pattern in a stream while letting go of what cannot belong to it.

A reader that has not found the pattern in its buffer may let the front of the buffer go, as long
as it keeps the longest suffix that could be the start of the pattern: then it finds the pattern
later where it would have found it in the whole text (`cutAt_append_of_held`).
-/

namespace ArmaraOS.Lib.Framing

variable {α : Type*} {pat : List α}

/-! ### The first occurrence -/

section Occurrence

variable [DecidableEq α]

theorem cutAt_cons_eq_none {a : α} {as : List α} :
    cutAt pat (a :: as) = none ↔ ¬ pat <+: a :: as ∧ cutAt pat as = none := by
  rw [cutAt]
  cases hpre : pat.isPrefixOf? (a :: as) with
  | none =>
      have hnot : ¬ pat <+: a :: as := by
        rintro ⟨rest, hrest⟩
        rw [List.isPrefixOf?_eq_some_iff_append_eq.mpr hrest] at hpre
        cases hpre
      simp [hnot]
  | some rest =>
      have hpre' : pat <+: a :: as := ⟨rest, List.isPrefixOf?_eq_some_iff_append_eq.mp hpre⟩
      simp [hpre']

/-- Nothing is cut where the pattern does not occur. -/
theorem cutAt_eq_none_iff {as : List α} : cutAt pat as = none ↔ ¬ pat <:+: as := by
  induction as with
  | nil => simp [cutAt, List.isEmpty_iff]
  | cons a as ih => rw [cutAt_cons_eq_none, ih, List.infix_cons_iff, not_or]

theorem cutAt_cons_of_not_prefix {a : α} {as : List α} (h : ¬ pat <+: a :: as) :
    cutAt pat (a :: as) = (cutAt pat as).map fun cut => (a :: cut.1, cut.2) := by
  rw [cutAt]
  cases hpre : pat.isPrefixOf? (a :: as) with
  | none => rfl
  | some rest => exact absurd ⟨rest, List.isPrefixOf?_eq_some_iff_append_eq.mp hpre⟩ h

theorem cutAt_prefix (hpat : pat ≠ []) (rest : List α) :
    cutAt pat (pat ++ rest) = some ([], rest) := by
  cases hwhole : pat ++ rest with
  | nil => exact absurd (List.append_eq_nil_iff.mp hwhole).1 hpat
  | cons a as => rw [cutAt, List.isPrefixOf?_eq_some_iff_append_eq.mpr hwhole]

/-- Text that no occurrence starts in has no part in where the pattern is found. -/
theorem cutAt_append_of_not_prefix {front rest : List α}
    (h : ∀ i < front.length, ¬ pat <+: (front ++ rest).drop i) :
    cutAt pat (front ++ rest) = (cutAt pat rest).map fun cut => (front ++ cut.1, cut.2) := by
  induction front with
  | nil => simp
  | cons a front ih =>
      have hstart : ¬ pat <+: a :: (front ++ rest) := h 0 (Nat.zero_lt_succ _)
      have hrest : ∀ i < front.length, ¬ pat <+: (front ++ rest).drop i := fun i hi =>
        h (i + 1) (Nat.succ_lt_succ hi)
      rw [List.cons_append, cutAt_cons_of_not_prefix hstart, ih hrest]
      cases cutAt pat rest <;> rfl

/-- The first occurrence behind the first element. -/
theorem cutAt_of_cons {a : α} {as front rest : List α}
    (h : cutAt pat (a :: as) = some (a :: front, rest)) : cutAt pat as = some (front, rest) := by
  rw [cutAt] at h
  split at h
  · simp at h
  · obtain ⟨⟨front', rest'⟩, hcut, heq⟩ := Option.map_eq_some_iff.mp h
    obtain ⟨hfront, rfl⟩ := Prod.mk.inj heq
    obtain ⟨-, rfl⟩ := List.cons.inj hfront
    exact hcut

/-- No occurrence starts before the first one. -/
theorem length_le_of_cutAt {before rest : List α} : ∀ {front behind : List α},
    cutAt pat (before ++ pat ++ rest) = some (front, behind) → front.length ≤ before.length := by
  induction before with
  | nil =>
      intro front behind h
      have hpre : pat <+: [] ++ pat ++ rest := List.prefix_append pat rest
      cases htext : [] ++ pat ++ rest with
      | nil =>
          rw [htext] at h
          have hwhole := congrArg List.length (cutAt_eq_some h)
          simp only [List.length_append, List.length_nil] at hwhole ⊢
          omega
      | cons c text =>
          rw [htext] at h hpre
          obtain ⟨tail, htail⟩ := hpre
          rw [cutAt, List.isPrefixOf?_eq_some_iff_append_eq.mpr htail] at h
          obtain ⟨rfl, -⟩ := Prod.mk.inj (Option.some.inj h)
          exact Nat.zero_le _
  | cons c before ih =>
      intro front behind h
      cases front with
      | nil => exact Nat.zero_le _
      | cons c' front =>
          rw [List.cons_append, List.cons_append] at h
          have hhead := cutAt_eq_some h
          rw [List.cons_append, List.cons_append] at hhead
          obtain ⟨rfl, -⟩ := List.cons.inj hhead
          exact Nat.succ_le_succ (ih (cutAt_of_cons h))

/-- Where the pattern does not occur, it does not occur in the end either. -/
theorem cutAt_eq_none_of_append {front held : List α} (h : cutAt pat (front ++ held) = none) :
    cutAt pat held = none := by
  induction front with
  | nil => exact h
  | cons a front ih => exact ih (cutAt_cons_eq_none.mp h).2

end Occurrence

/-! ### What is kept -/

/-- What is kept is at least as long as every suffix that could be the start of the pattern. -/
def Holds (pat buffer : List α) (kept : Nat) : Prop :=
  ∀ len, kept < len → len < pat.length → ¬ pat.take len <:+ buffer

theorem Holds.tail {a : α} {as : List α} {kept : Nat} (h : Holds pat (a :: as) kept) :
    Holds pat as kept :=
  fun len hkept hlen hsuffix => h len hkept hlen (hsuffix.trans (List.suffix_cons a as))

/-- **Letting go.** The pattern is not in the buffer, and all that could be its start is kept:
then its first occurrence in the whole is its first occurrence behind what was let go. -/
theorem cutAt_append_of_held [DecidableEq α] {front held : List α} (more : List α)
    (hnone : cutAt pat (front ++ held) = none)
    (hheld : Holds pat (front ++ held) held.length) :
    cutAt pat (front ++ (held ++ more)) =
      (cutAt pat (held ++ more)).map fun cut => (front ++ cut.1, cut.2) := by
  induction front with
  | nil => simp
  | cons a front ih =>
      obtain ⟨hnot, hnone⟩ := cutAt_cons_eq_none.mp hnone
      have hnot' : ¬ pat <+: a :: (front ++ (held ++ more)) := by
        intro hpre
        rcases Nat.lt_or_ge (a :: (front ++ held)).length pat.length with hlong | hshort
        · -- the buffer would be the start of the pattern
          apply hheld (a :: (front ++ held)).length ?_ hlong
          · have hbuffer : a :: (front ++ held) <+: pat := by
              refine List.prefix_of_prefix_length_le ?_ hpre hlong.le
              exact ⟨more, by simp⟩
            rw [← List.prefix_iff_eq_take.mp hbuffer]
            exact List.suffix_rfl
          · simp only [List.length_cons, List.length_append]
            omega
        · apply hnot
          refine List.prefix_of_prefix_length_le hpre ?_ hshort
          exact ⟨more, by simp⟩
      rw [List.cons_append, cutAt_cons_of_not_prefix hnot', ih hnone hheld.tail]
      cases cutAt pat (held ++ more) <;> rfl

end ArmaraOS.Lib.Framing
