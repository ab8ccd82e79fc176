import Mathlib.Order.Basic

/-!
Loops with exits in their body.

A turn of the body goes on with a new state or leaves the loop with a result. A rank that
every turn lowers makes the loop total. What holds of the result is decided by the turn that
leaves: a law for one turn, with an invariant, is a law for the loop.
-/

namespace ArmaraOS.Lib

/-- What one turn of a loop does. -/
inductive Turn (S R : Type) where
  | next (s : S)
  | exit (r : R)

/-- A loop whose turns lower a rank. -/
structure Loop (S R : Type) where
  body : S → Turn S R
  rank : S → Nat
  descends : ∀ s s', body s = .next s' → rank s' < rank s

namespace Loop

variable {S R : Type} (l : Loop S R)

/-- The result of the loop. -/
def run (s : S) : R :=
  match _h : l.body s with
  | .next s' => run s'
  | .exit r => r
termination_by l.rank s
decreasing_by exact l.descends s s' (by assumption)

/-- The states at which a turn starts. -/
inductive Reached : S → S → Prop
  | start (s : S) : Reached s s
  | turn {s s' s'' : S} : l.body s = .next s' → Reached s' s'' → Reached s s''

/-- The states at which turns started before the one at hand, in order. -/
inductive Visits (start : S) : List S → S → Prop
  | start : Visits start [] start
  | turn {visited : List S} {s s' : S} : Visits start visited s → l.body s = .next s' →
      Visits start (visited ++ [s]) s'

variable {l}

theorem run_next {s s' : S} (h : l.body s = .next s') : l.run s = l.run s' := by
  rw [run]
  split
  · next h' =>
      rw [h] at h'
      cases h'
      rfl
  · next h' =>
      rw [h] at h'
      cases h'

theorem run_exit {s : S} {r : R} (h : l.body s = .exit r) : l.run s = r := by
  rw [run]
  split
  · next h' =>
      rw [h] at h'
      cases h'
  · next h' =>
      rw [h] at h'
      cases h'
      rfl

/-- **Induction along a run.** -/
theorem induction {motive : S → Prop}
    (next : ∀ s s', l.body s = .next s' → motive s' → motive s)
    (exit : ∀ s r, l.body s = .exit r → motive s) (s : S) : motive s := by
  induction hrank : l.rank s using Nat.strongRecOn generalizing s with
  | ind n ih =>
      cases hbody : l.body s with
      | next s' => exact next s s' hbody (ih (l.rank s') (hrank ▸ l.descends s s' hbody) s' rfl)
      | exit r => exact exit s r hbody

/-- **Invariant rule.** What turns keep, and what makes every turn that leaves the loop leave it
with a good result, makes the result good. -/
theorem run_of_invariant (Inv : S → Prop) (P : R → Prop)
    (hnext : ∀ s s', Inv s → l.body s = .next s' → Inv s')
    (hexit : ∀ s r, Inv s → l.body s = .exit r → P r) {s : S} (hinit : Inv s) : P (l.run s) := by
  induction s using l.induction with
  | next s s' hbody ih =>
      rw [run_next hbody]
      exact ih (hnext s s' hinit hbody)
  | exit s r hbody =>
      rw [run_exit hbody]
      exact hexit s r hinit hbody

/-- **Exact rule.** Where an invariant makes a turn go on only if it meets a condition, and
leave with a good result exactly if it meets the condition, the loop ends with a good result
exactly if every turn meets the condition. -/
theorem run_iff {Inv guard : S → Prop} {P : R → Prop}
    (hnext : ∀ s s', Inv s → l.body s = .next s' → Inv s' ∧ guard s)
    (hexit : ∀ s r, Inv s → l.body s = .exit r → (P r ↔ guard s)) {s : S} (hinit : Inv s) :
    P (l.run s) ↔ ∀ s', l.Reached s s' → guard s' := by
  induction s using l.induction with
  | next s s' hbody ih =>
      obtain ⟨hinv, hguard⟩ := hnext s s' hinit hbody
      rw [run_next hbody, ih hinv]
      constructor
      · intro h s'' hreached
        cases hreached with
        | start => exact hguard
        | turn hbody' hrest =>
            rw [hbody] at hbody'
            cases hbody'
            exact h s'' hrest
      · exact fun h s'' hreached => h s'' (.turn hbody hreached)
  | exit s r hbody =>
      rw [run_exit hbody, hexit s r hinit hbody]
      constructor
      · intro h s' hreached
        cases hreached with
        | start => exact h
        | turn hbody' _ =>
            rw [hbody] at hbody'
            cases hbody'
      · exact fun h => h s (.start s)

end Loop

end ArmaraOS.Lib
