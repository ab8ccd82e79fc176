import Mathlib.Data.List.Basic
import Mathlib.Order.Bounds.Defs
import Mathlib.Order.Lattice.Nat
import ArmaraOS.Lib.Affix

/-!
Replacing a stretch of a list (`Vec::splice`), and the places where a list occurs in another.

The same replacement at two places gives the same list if and only if it can be moved over what
stands between them. Behind or in front of a separator that it does not have, a list occurs once
exactly when it does not occur on the other side.
-/

namespace ArmaraOS.Lib

variable {α : Type}

/-- `pat` occurs in `xs` at `i`. -/
def OccursAt (pat xs : List α) (i : Nat) : Prop := pat <+: xs.drop i

instance [DecidableEq α] (pat xs : List α) (i : Nat) : Decidable (OccursAt pat xs i) :=
  inferInstanceAs (Decidable (pat <+: xs.drop i))

/-- `xs.splice(i..i + n, ys)`. -/
def splice (xs : List α) (i n : Nat) (ys : List α) : List α :=
  xs.take i ++ ys ++ xs.drop (i + n)

theorem OccursAt.add_length_le {pat xs : List α} {i : Nat} (h : OccursAt pat xs i)
    (hne : pat ≠ []) : i + pat.length ≤ xs.length := by
  have hlen := List.IsPrefix.length_le h
  have hpos := List.length_pos_of_ne_nil hne
  rw [List.length_drop] at hlen
  omega

theorem occursAt_append (front pat behind : List α) :
    OccursAt pat (front ++ pat ++ behind) front.length := by
  rw [OccursAt, List.append_assoc, List.drop_left]
  exact List.prefix_append pat behind

theorem OccursAt.of_append {front pat xs : List α} {i : Nat} (h : OccursAt (front ++ pat) xs i) :
    OccursAt front xs i :=
  (List.prefix_append front pat).trans h

theorem OccursAt.eq_append {pat xs : List α} {i : Nat} (h : OccursAt pat xs i) :
    xs = xs.take i ++ pat ++ xs.drop (i + pat.length) := by
  obtain ⟨behind, hbehind⟩ := h
  rw [← List.drop_drop, ← hbehind, List.drop_left, List.append_assoc, hbehind,
    List.take_append_drop]

theorem OccursAt.behind {front pat xs : List α} {i : Nat} (h : OccursAt (front ++ pat) xs i) :
    OccursAt pat xs (i + front.length) := by
  obtain ⟨behind, hbehind⟩ := h
  rw [OccursAt, ← List.drop_drop, ← hbehind, List.append_assoc, List.drop_left]
  exact List.prefix_append pat behind

/-- What occurs at a place can stand in front of the replacement, or be left in the list. -/
theorem OccursAt.splice_append {front pat xs : List α} {i : Nat}
    (h : OccursAt (front ++ pat) xs i) (ys : List α) :
    splice xs i (front.length + pat.length) (front ++ ys) =
      splice xs (i + front.length) pat.length ys := by
  obtain ⟨behind, hbehind⟩ := h.of_append
  rw [splice, splice, List.take_add, ← hbehind, List.take_left, Nat.add_assoc, List.append_assoc,
    List.append_assoc, List.append_assoc, List.append_assoc]

theorem splice_append (front old behind ys : List α) :
    splice (front ++ old ++ behind) front.length old.length ys = front ++ ys ++ behind := by
  rw [splice, List.append_assoc front old behind, List.take_left, ← List.append_assoc,
    ← List.length_append, List.drop_left]

/-- The replacement at an earlier place gives the same list if and only if it can be moved over what
stands between. -/
theorem splice_eq_splice_iff {xs ys : List α} {i j n : Nat} (hle : i ≤ j) :
    splice xs i n ys = splice xs j n ys ↔
      ys ++ (xs.drop (i + n)).take (j - i) = (xs.drop i).take (j - i) ++ ys := by
  have hfront : xs.take j = xs.take i ++ (xs.drop i).take (j - i) := by
    rw [← List.take_add, Nat.add_sub_cancel' hle]
  have hbehind : xs.drop (i + n) = (xs.drop (i + n)).take (j - i) ++ xs.drop (j + n) := by
    conv_lhs => rw [← List.take_append_drop (j - i) (xs.drop (i + n)), List.drop_drop]
    rw [show i + n + (j - i) = j + n by omega]
  rw [splice, splice, hfront]
  conv_lhs => rw [hbehind]
  rw [List.append_assoc, List.append_assoc (xs.take i), List.append_assoc (xs.take i),
    List.append_cancel_left_eq, ← List.append_assoc, List.append_cancel_right_eq]

/-! ### Occurring once -/

section Once

variable {pat front behind : List α} {sep : α}

theorem occursAt_append_iff {i : Nat} (hsep : sep ∉ pat) (hi : i ≤ front.length) :
    OccursAt pat (front ++ sep :: behind) i ↔ OccursAt pat front i := by
  rw [OccursAt, List.drop_append_of_le_length hi]
  exact ⟨prefix_of_notMem hsep, fun h => h.trans (List.prefix_append _ _)⟩

theorem occursAt_behind_iff {k : Nat} :
    OccursAt pat (front ++ sep :: behind) (front.length + 1 + k) ↔ OccursAt pat behind k := by
  have hdrop : (front ++ sep :: behind).drop (front.length + 1 + k) = behind.drop k := by
    rw [Nat.add_assoc, ← List.drop_drop, List.drop_left, Nat.add_comm, List.drop_succ_cons]
  rw [OccursAt, OccursAt, hdrop]

theorem OccursAt.isInfix {i : Nat} (h : OccursAt pat front i) : pat <:+: front :=
  List.IsInfix.trans (List.IsPrefix.isInfix h) (List.drop_suffix i front).isInfix

theorem exists_occursAt (h : pat <:+: front) : ∃ i ≤ front.length, OccursAt pat front i := by
  obtain ⟨before, after, rfl⟩ := h
  exact ⟨before.length, by simp only [List.length_append]; omega, occursAt_append _ _ _⟩

/-- The pattern at the end is the only one. -/
theorem existsUnique_last_iff (hsep : sep ∉ pat) (hne : pat ≠ []) :
    (∃! i, OccursAt pat (front ++ sep :: pat) i) ↔ ¬ pat <:+: front := by
  have hlast : OccursAt pat (front ++ sep :: pat) (front.length + 1 + 0) :=
    occursAt_behind_iff.mpr (List.prefix_refl pat)
  constructor
  · rintro hunique hin
    obtain ⟨i, hi, hoccurs⟩ := exists_occursAt hin
    have hsame := hunique.unique ((occursAt_append_iff hsep hi).mpr hoccurs) hlast
    omega
  · intro hnot
    refine ⟨front.length + 1 + 0, hlast, fun i hi => ?_⟩
    rcases Nat.lt_or_ge front.length i with hlt | hle
    · obtain ⟨k, rfl⟩ := Nat.exists_eq_add_of_le (Nat.succ_le_of_lt hlt)
      have hlen := (occursAt_behind_iff.mp hi).add_length_le hne
      omega
    · exact absurd ((occursAt_append_iff hsep hle).mp hi).isInfix hnot

/-- The pattern at the start is the only one. -/
theorem existsUnique_first_iff (hsep : sep ∉ pat) (hne : pat ≠ []) :
    (∃! i, OccursAt pat (pat ++ sep :: behind) i) ↔ ¬ pat <:+: behind := by
  have hfirst : OccursAt pat (pat ++ sep :: behind) 0 := List.prefix_append _ _
  constructor
  · rintro hunique hin
    obtain ⟨k, -, hoccurs⟩ := exists_occursAt hin
    have hsame := hunique.unique hfirst (occursAt_behind_iff.mpr hoccurs)
    omega
  · intro hnot
    refine ⟨0, hfirst, fun i hi => ?_⟩
    rcases Nat.lt_or_ge pat.length i with hlt | hle
    · obtain ⟨k, rfl⟩ := Nat.exists_eq_add_of_le (Nat.succ_le_of_lt hlt)
      exact absurd (occursAt_behind_iff.mp hi).isInfix hnot
    · have hlen := ((occursAt_append_iff hsep hle).mp hi).add_length_le hne
      omega

end Once

end ArmaraOS.Lib
