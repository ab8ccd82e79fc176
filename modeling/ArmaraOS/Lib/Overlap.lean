import Mathlib.Data.List.Perm.Basic
import Mathlib.Order.Lattice.Nat

/-!
Operations that are under way at the same time, and limits that one of their steps checks and a
later one uses up.

The operations under way are a list from which the one that goes on is taken out. With at most `p`
of them at a time, a limit that is checked first is exceeded by less than `p`.
-/

namespace ArmaraOS.Lib

/-! ### The operation that goes on -/

/-- The operations under way are the one at a place and the others. -/
theorem perm_cons_eraseIdx {α : Type} {xs : List α} {i : Nat} {x : α} (h : xs[i]? = some x) :
    xs.Perm (x :: xs.eraseIdx i) := by
  obtain ⟨hi, rfl⟩ := List.getElem?_eq_some_iff.mp h
  rw [List.eraseIdx_eq_take_drop_succ]
  calc xs = xs.take i ++ xs[i] :: xs.drop (i + 1) := by
        rw [← List.drop_eq_getElem_cons hi, List.take_append_drop]
    _ |>.Perm (xs[i] :: (xs.take i ++ xs.drop (i + 1))) := List.perm_middle

/-! ### Limits -/

/-- Of a limit, `size` is used up and `promised` operations have passed its check; at most `p` are
under way at once, and at the start `start` was used up. -/
def WithinLimit (limit p start size promised : Nat) : Prop :=
  size + promised < max (start + 1) (limit + p)

namespace WithinLimit

variable {limit p start size promised size' promised' : Nat}

theorem init : WithinLimit limit p start start 0 := by
  unfold WithinLimit
  omega

/-- What is promised may be used up, and both may be given back. -/
theorem mono (h : WithinLimit limit p start size promised)
    (hle : size' + promised' ≤ size + promised) : WithinLimit limit p start size' promised' :=
  Nat.lt_of_le_of_lt hle h

/-- The check lets an operation pass. -/
theorem checked (hcheck : size < limit) (hpromised : promised ≤ p) :
    WithinLimit limit p start size promised := by
  unfold WithinLimit
  omega

theorem size_le (h : WithinLimit limit p start size promised) :
    size ≤ max start (limit + p - 1) := by
  unfold WithinLimit at h
  omega

end WithinLimit

end ArmaraOS.Lib
