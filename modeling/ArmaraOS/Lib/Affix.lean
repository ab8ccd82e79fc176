import Mathlib.Algebra.Ring.Nat
import Mathlib.Data.List.Basic

/-!
Lists that begin with one list and end with another, the two not overlapping.

The room that a list takes is the sum of the weights of its elements, so that the same
facts serve lengths and byte counts. An element that occurs in neither affix separates
them: a list with such an element in the middle is framed exactly by the prefixes of what
stands before it and the suffixes of what stands behind it.
-/

namespace ArmaraOS.Lib

variable {α : Type} (w : α → Nat)

/-- The sum of the weights of a list. -/
def room (xs : List α) : Nat := (xs.map w).sum

/-- `xs` begins with `u` and ends with `v`, with room for both. -/
def Framed (u v xs : List α) : Prop :=
  u <+: xs ∧ v <:+ xs ∧ room w u + room w v ≤ room w xs

variable {w}

@[simp] theorem room_append (xs ys : List α) :
    room w (xs ++ ys) = room w xs + room w ys := by
  simp [room]

@[simp] theorem room_cons (x : α) (xs : List α) :
    room w (x :: xs) = w x + room w xs := by
  simp [room]

theorem room_le_of_prefix {xs ys : List α} (h : xs <+: ys) : room w xs ≤ room w ys := by
  obtain ⟨zs, rfl⟩ := h
  rw [room_append]
  omega

theorem room_le_of_suffix {xs ys : List α} (h : xs <:+ ys) : room w xs ≤ room w ys := by
  obtain ⟨zs, rfl⟩ := h
  rw [room_append]
  omega

/-- A prefix that avoids `a` ends before the first `a`. -/
theorem prefix_of_notMem {u xs ys : List α} {a : α} (hmem : a ∉ u) (h : u <+: xs ++ a :: ys) :
    u <+: xs := by
  rcases List.prefix_or_prefix_of_prefix h (List.prefix_append xs (a :: ys)) with hu | hxs
  · exact hu
  · obtain ⟨rest, rfl⟩ := hxs
    rw [List.prefix_append_right_inj] at h
    cases rest with
    | nil => exact (List.append_nil xs).symm ▸ List.prefix_refl xs
    | cons b rest =>
        obtain ⟨rfl, -⟩ := List.cons_prefix_cons.mp h
        exact absurd (List.mem_append_right xs List.mem_cons_self) hmem

/-- A suffix that avoids `a` starts behind the last `a`. -/
theorem suffix_of_notMem {v xs ys : List α} {a : α} (hmem : a ∉ v) (h : v <:+ xs ++ a :: ys) :
    v <:+ ys := by
  rw [← List.reverse_prefix] at h ⊢
  have hmem' : a ∉ v.reverse := by rwa [List.mem_reverse]
  have hprefix : v.reverse <+: ys.reverse ++ a :: xs.reverse := by simpa using h
  exact prefix_of_notMem hmem' hprefix

theorem framed_nil_left {v xs : List α} : Framed w [] v xs ↔ v <:+ xs := by
  constructor
  · exact fun h => h.2.1
  · intro h
    refine ⟨List.nil_prefix, h, ?_⟩
    have hroom := room_le_of_suffix (w := w) h
    simpa [room] using hroom

theorem framed_nil_right {u xs : List α} : Framed w u [] xs ↔ u <+: xs := by
  constructor
  · exact fun h => h.1
  · intro h
    refine ⟨h, List.nil_suffix, ?_⟩
    have hroom := room_le_of_prefix (w := w) h
    simpa [room] using hroom

/-- Shorter affixes frame what longer ones do. -/
theorem Framed.of_affixes {u v u' v' xs : List α} (h : Framed w u v xs) (hu : u' <+: u)
    (hv : v' <:+ v) : Framed w u' v' xs := by
  refine ⟨hu.trans h.1, hv.trans h.2.1, ?_⟩
  have hleft := room_le_of_prefix (w := w) hu
  have hright := room_le_of_suffix (w := w) hv
  have hroom := h.2.2
  omega

/-- Affixes that avoid `a` frame a list around an `a` part by part. -/
theorem framed_around {u v xs ys : List α} {a : α} (hu : a ∉ u) (hv : a ∉ v) :
    Framed w u v (xs ++ a :: ys) ↔ u <+: xs ∧ v <:+ ys := by
  constructor
  · intro h
    exact ⟨prefix_of_notMem hu h.1, suffix_of_notMem hv h.2.1⟩
  · rintro ⟨hleft, hright⟩
    refine ⟨hleft.trans (List.prefix_append _ _),
      hright.trans ((List.suffix_cons a ys).trans (List.suffix_append _ _)), ?_⟩
    have h₁ := room_le_of_prefix (w := w) hleft
    have h₂ := room_le_of_suffix (w := w) hright
    rw [room_append, room_cons]
    omega

end ArmaraOS.Lib
