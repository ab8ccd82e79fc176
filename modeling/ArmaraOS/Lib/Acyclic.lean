import Mathlib.Data.Finset.Card
import Mathlib.Logic.Relation

/-!
Relations without cycles, and what may be added to one.

A node that nothing leaves, a node that nothing enters and an edge whose ends are not joined the
other way round add no cycle. Where only finitely many nodes can be entered, every path from a node
ends exactly if none of the nodes that it reaches is on a cycle.
-/

namespace ArmaraOS.Lib

open Relation

variable {α : Type} {r r' : α → α → Prop}

/-- No node reaches itself. -/
def Acyclic (r : α → α → Prop) : Prop := ∀ a, ¬ TransGen r a a

/-- An edge back closes a cycle. -/
theorem not_acyclic_of_edge {a b : α} (hedge : r a b) (hback : ReflTransGen r b a) :
    ¬ Acyclic r := fun h => h a (.head' hedge hback)

theorem acyclic_empty (h : ∀ a b, ¬ r a b) : Acyclic r := by
  intro a hcycle
  obtain ⟨b, -, hlast⟩ := TransGen.tail'_iff.mp hcycle
  exact h b a hlast

namespace Acyclic

theorem mono (h : Acyclic r) (hsub : ∀ a b, r' a b → r a b) : Acyclic r' :=
  fun a hcycle => h a (TransGen.mono hsub a a hcycle)

/-- A node that nothing leaves adds no cycle. -/
theorem add_sink (h : Acyclic r) {t : α} (hnew : ∀ a b, r' a b → r a b ∨ b = t)
    (hsink : ∀ b, ¬ r' t b) : Acyclic r' := by
  have hpath : ∀ a b, TransGen r' a b → TransGen r a b ∨ b = t := by
    intro a b hab
    induction hab with
    | single hedge => exact (hnew _ _ hedge).imp_left .single
    | tail _ hedge ih =>
        rcases ih with ih | rfl
        · exact (hnew _ _ hedge).imp_left ih.tail
        · exact absurd hedge (hsink _)
  intro a hcycle
  rcases hpath a a hcycle with hold | rfl
  · exact h a hold
  · obtain ⟨b, hfirst, -⟩ := TransGen.head'_iff.mp hcycle
    exact hsink b hfirst

/-- A node that nothing enters adds no cycle. -/
theorem add_source (h : Acyclic r) {t : α} (hnew : ∀ a b, r' a b → r a b ∨ a = t)
    (hsource : ∀ a, ¬ r' a t) : Acyclic r' := by
  have hpath : ∀ a b, TransGen r' a b → TransGen r a b ∨ a = t := by
    intro a b hab
    induction hab with
    | single hedge => exact (hnew _ _ hedge).imp_left .single
    | @tail b c _ hedge ih =>
        rcases ih with ih | rfl
        · rcases hnew b c hedge with hold | rfl
          · exact .inl (ih.tail hold)
          · rename_i hab
            obtain ⟨b', -, hlast⟩ := TransGen.tail'_iff.mp hab
            exact absurd hlast (hsource b')
        · exact .inr rfl
  intro a hcycle
  rcases hpath a a hcycle with hold | rfl
  · exact h a hold
  · obtain ⟨b, -, hlast⟩ := TransGen.tail'_iff.mp hcycle
    exact hsource b hlast

/-- An edge adds no cycle where its ends are not joined the other way round. -/
theorem add_edge (h : Acyclic r) {c t : α} (hnew : ∀ a b, r' a b → r a b ∨ a = c ∧ b = t)
    (hapart : ¬ ReflTransGen r t c) : Acyclic r' := by
  have hpath : ∀ a b, TransGen r' a b →
      TransGen r a b ∨ ReflTransGen r a c ∧ ReflTransGen r t b := by
    intro a b hab
    induction hab with
    | single hedge =>
        rcases hnew _ _ hedge with hold | ⟨rfl, rfl⟩
        · exact .inl (.single hold)
        · exact .inr ⟨.refl, .refl⟩
    | tail _ hedge ih =>
        rcases hnew _ _ hedge with hold | ⟨rfl, rfl⟩
        · exact ih.imp (·.tail hold) (.imp_right (·.tail hold))
        · exact .inr ⟨ih.elim TransGen.to_reflTransGen And.left, .refl⟩
  intro a hcycle
  rcases hpath a a hcycle with hold | ⟨hto, hfrom⟩
  · exact h a hold
  · exact hapart (hfrom.trans hto)

end Acyclic

/-- Where nothing enters a node, a path from elsewhere does without it. -/
theorem reflTransGen_avoids {t a b : α} (hnew : ∀ a b, r' a b → r a b ∨ a = t)
    (hsource : ∀ a, ¬ r' a t) (ha : a ≠ t) (hpath : ReflTransGen r' a b) :
    ReflTransGen r a b ∧ b ≠ t := by
  induction hpath with
  | refl => exact ⟨.refl, ha⟩
  | tail _ hedge ih =>
      obtain ⟨hold, hne⟩ := ih
      refine ⟨hold.tail ((hnew _ _ hedge).resolve_right hne), ?_⟩
      rintro rfl
      exact hsource _ hedge

/-! ### Paths that end -/

theorem not_transGen_of_acc {a : α} (h : Acc (fun b a => r a b) a) : ¬ TransGen r a a := by
  intro hcycle
  induction h with
  | intro a _ ih =>
      obtain ⟨b, hfirst, hrest⟩ := TransGen.head'_iff.mp hcycle
      exact ih b hfirst (TransGen.tail' hrest hfirst)

/-- Among finitely many nodes the paths from a node end exactly if it reaches no cycle. -/
theorem acc_iff_no_cycle {nodes : List α} (hnodes : ∀ a b, r a b → b ∈ nodes) (a : α) :
    Acc (fun b a => r a b) a ↔ ∀ b, ReflTransGen r a b → ¬ TransGen r b b := by
  classical
  constructor
  · intro h b hab
    have hacc : Acc (fun b a => r a b) b := by
      induction hab with
      | refl => exact h
      | tail _ hbc ih => exact ih.inv hbc
    exact not_transGen_of_acc hacc
  · -- by induction on the number of nodes that can be reached
    intro h
    generalize hn : (nodes.toFinset.filter (TransGen r a)).card = n
    induction n using Nat.strong_induction_on generalizing a with
    | _ n ih =>
        refine Acc.intro a fun b hab => ?_
        refine ih _ ?_ b (fun c hbc => h c (.head hab hbc)) rfl
        rw [← hn]
        apply Finset.card_lt_card
        refine ⟨fun c hc => ?_, fun hsub => ?_⟩
        · obtain ⟨hmem, hbc⟩ := Finset.mem_filter.mp hc
          exact Finset.mem_filter.mpr ⟨hmem, .head hab hbc⟩
        · have hb : b ∈ nodes.toFinset.filter (TransGen r a) :=
            Finset.mem_filter.mpr ⟨List.mem_toFinset.mpr (hnodes a b hab), .single hab⟩
          exact h b (.single hab) (Finset.mem_filter.mp (hsub hb)).2

end ArmaraOS.Lib
