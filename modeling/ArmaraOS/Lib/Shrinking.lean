import Mathlib.Algebra.BigOperators.Group.List.Basic
import Mathlib.Algebra.Ring.Nat
import Mathlib.Data.List.Basic

/-!
Shrinking the items of a list from the front until their weight fits.

Each item has a form it is kept in and a form it is shrunk to, which weighs no more. The loop looks
at the weight before each item: the items in front are shrunk by then, the others are not. While
that weight is above the limit the item is shrunk. So in the end the weight fits, or every item is
shrunk; and an item is shrunk exactly if the weight at it is above the limit.
-/

namespace ArmaraOS.Lib

variable {α β : Type}

section Shrink

variable (weight : β → Nat) (keep shrink : α → β) (limit : Nat)

/-- The weight at an item: of the items in front shrunk, and of the others kept. -/
def weightAt (older rest : List α) : Nat :=
  (older.map fun x => weight (shrink x)).sum + (rest.map fun x => weight (keep x)).sum

/-- The items shrunk from the front, behind items of weight `done`. -/
def shrinkUntil (done : Nat) : List α → List β
  | [] => []
  | x :: xs =>
      if limit < done + weightAt weight keep shrink [] (x :: xs) then
        shrink x :: shrinkUntil (done + weight (shrink x)) xs
      else (x :: xs).map keep

/-- The items that are shrunk. -/
def shrunk (done : Nat) : List α → List α
  | [] => []
  | x :: xs =>
      if limit < done + weightAt weight keep shrink [] (x :: xs) then
        x :: shrunk (done + weight (shrink x)) xs
      else []

end Shrink

variable {weight : β → Nat} {keep shrink : α → β} {limit : Nat}

theorem weightAt_cons (x : α) (older rest : List α) :
    weightAt weight keep shrink (x :: older) rest =
      weight (shrink x) + weightAt weight keep shrink older rest := by
  rw [weightAt, weightAt, List.map_cons, List.sum_cons, Nat.add_assoc]

/-- The weight goes down from item to item. -/
theorem weightAt_append_le {older : List α}
    (hle : ∀ x ∈ older, weight (shrink x) ≤ weight (keep x)) (rest : List α) :
    weightAt weight keep shrink older rest ≤ weightAt weight keep shrink [] (older ++ rest) := by
  induction older with
  | nil => exact Nat.le_refl _
  | cons x older ih =>
      obtain ⟨hx, holder⟩ := List.forall_mem_cons.mp hle
      have hrest := ih holder
      rw [weightAt_cons]
      simp only [weightAt, List.map_nil, List.sum_nil, List.cons_append, List.map_cons,
        List.sum_cons, Nat.zero_add] at hrest ⊢
      exact Nat.add_le_add hx hrest

/-- In the end the weight fits, or every item is shrunk. -/
theorem shrinkUntil_fits (done : Nat) (xs : List α) :
    done + ((shrinkUntil weight keep shrink limit done xs).map weight).sum ≤ limit ∨
      shrinkUntil weight keep shrink limit done xs = xs.map shrink := by
  induction xs generalizing done with
  | nil => exact .inr rfl
  | cons x xs ih =>
      rw [shrinkUntil]
      split
      · rcases ih (done + weight (shrink x)) with hfits | hall
        · left
          rwa [List.map_cons, List.sum_cons, ← Nat.add_assoc]
        · right
          rw [hall, List.map_cons]
      · rename_i hfits
        left
        rw [weightAt, List.map_nil, List.sum_nil, Nat.zero_add] at hfits
        rw [List.map_map]
        exact Nat.le_of_not_lt hfits

/-- An item is shrunk exactly if the weight at it is above the limit. -/
theorem getElem?_shrinkUntil {older : List α}
    (hle : ∀ x ∈ older, weight (shrink x) ≤ weight (keep x)) (done : Nat) (newer : List α)
    (x : α) :
    (shrinkUntil weight keep shrink limit done (older ++ x :: newer))[older.length]? =
      some (if limit < done + weightAt weight keep shrink older (x :: newer) then shrink x
        else keep x) := by
  induction older generalizing done with
  | nil =>
      rw [List.nil_append, shrinkUntil]
      split <;> rfl
  | cons y older ih =>
      rw [List.cons_append, shrinkUntil]
      split
      · rw [List.length_cons, List.getElem?_cons_succ, ih (List.forall_mem_cons.mp hle).2,
          weightAt_cons, Nat.add_assoc]
      · rename_i hfits
        have hdown := weightAt_append_le hle (x :: newer)
        rw [if_neg fun hover => hfits (Nat.lt_of_lt_of_le hover (Nat.add_le_add_left hdown done))]
        simp

/-- Where the weight fits nothing is shrunk. -/
theorem shrinkUntil_of_fits {done : Nat} {xs : List α}
    (h : done + weightAt weight keep shrink [] xs ≤ limit) :
    shrinkUntil weight keep shrink limit done xs = xs.map keep ∧
      shrunk weight keep shrink limit done xs = [] := by
  cases xs with
  | nil => exact ⟨rfl, rfl⟩
  | cons x xs => exact ⟨if_neg (Nat.not_lt.mpr h), if_neg (Nat.not_lt.mpr h)⟩

end ArmaraOS.Lib
