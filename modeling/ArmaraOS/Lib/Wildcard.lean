import ArmaraOS.Lib.Affix
import ArmaraOS.Lib.HoldBack

/-!
Wildcard patterns.

A pattern is read as its literal pieces. It denotes the lists that hold them in order, the first
piece at the start, the last one at the end, and anything between two of them (`Fills`). Taking each
piece where it first occurs decides this (`trails_cons_of_cutAt`): what any other occurrence leaves
behind it is also left behind the first.
-/

namespace ArmaraOS.Lib

open Framing

variable {α : Type} {p q xs : List α} {ps : List (List α)}

/-- `xs` is the pieces in order, with anything between two of them. -/
def Fills : List (List α) → List α → Prop
  | [], xs => xs = []
  | [p], xs => xs = p
  | p :: q :: ps, xs => ∃ gap rest, xs = p ++ gap ++ rest ∧ Fills (q :: ps) rest

/-- `xs` ends with the pieces in order. -/
def Trails (ps : List (List α)) (xs : List α) : Prop :=
  ∃ gap rest, xs = gap ++ rest ∧ Fills ps rest

/-! ### Pieces from the start -/

@[simp] theorem fills_singleton : Fills [p] xs ↔ xs = p := Iff.rfl

/-- Behind the first piece the others trail. -/
theorem fills_cons_cons :
    Fills (p :: q :: ps) xs ↔ ∃ rest, xs = p ++ rest ∧ Trails (q :: ps) rest := by
  constructor
  · rintro ⟨gap, rest, rfl, hrest⟩
    exact ⟨gap ++ rest, List.append_assoc p gap rest, gap, rest, rfl, hrest⟩
  · rintro ⟨tail, rfl, gap, rest, rfl, hrest⟩
    exact ⟨gap, rest, (List.append_assoc p gap rest).symm, hrest⟩

/-- Two pieces frame what they denote. -/
theorem fills_pair_iff_framed {w : α → Nat} (hw : ∀ a, 0 < w a) :
    Fills [p, q] xs ↔ Framed w p q xs := by
  constructor
  · rintro ⟨gap, rest, rfl, rfl⟩
    refine ⟨⟨gap ++ rest, (List.append_assoc _ _ _).symm⟩, ⟨p ++ gap, rfl⟩, ?_⟩
    rw [room_append, room_append]
    omega
  · rintro ⟨⟨tail, rfl⟩, hsuffix, hroom⟩
    rw [room_append] at hroom
    rcases List.suffix_or_suffix_of_suffix hsuffix (List.suffix_append p tail) with hq | htail
    · obtain ⟨gap, rfl⟩ := hq
      exact ⟨gap, q, (List.append_assoc _ _ _).symm, rfl⟩
    · -- the end piece reaches into the front one only if it takes no more room than the tail
      obtain ⟨both, rfl⟩ := htail
      rw [room_append] at hroom
      cases both with
      | nil => exact ⟨[], tail, by simp, rfl⟩
      | cons a both =>
          have ha := hw a
          rw [room_cons] at hroom
          omega

/-- The separators between the pieces fill the gaps. -/
theorem fills_intercalate (sep : List α) : ∀ {ps : List (List α)}, ps ≠ [] →
    Fills ps (sep.intercalate ps)
  | [], h => absurd rfl h
  | [p], _ => by simp [Fills]
  | p :: q :: ps, _ => by
      rw [List.intercalate_cons_cons]
      exact ⟨sep, sep.intercalate (q :: ps), rfl, fills_intercalate sep (List.cons_ne_nil q ps)⟩

/-! ### Pieces that trail -/

theorem trails_singleton : Trails [p] xs ↔ p <:+ xs := by
  constructor
  · rintro ⟨gap, rest, rfl, rfl⟩
    exact List.suffix_append gap _
  · rintro ⟨gap, rfl⟩
    exact ⟨gap, p, rfl, rfl⟩

/-- What trails a list trails every list that it ends. -/
theorem Trails.of_suffix {ys : List α} (h : Trails ps ys) (hsuffix : ys <:+ xs) : Trails ps xs := by
  obtain ⟨gap, rest, rfl, hrest⟩ := h
  obtain ⟨front, rfl⟩ := hsuffix
  exact ⟨front ++ gap, rest, (List.append_assoc _ _ _).symm, hrest⟩

/-- An empty piece adds nothing. -/
theorem trails_nil_cons : Trails ([] :: q :: ps) xs ↔ Trails (q :: ps) xs := by
  constructor
  · rintro ⟨gap, rest, rfl, hrest⟩
    obtain ⟨tail, rfl, htrails⟩ := fills_cons_cons.mp hrest
    exact htrails.of_suffix (List.suffix_append gap _)
  · intro h
    exact ⟨[], xs, rfl, fills_cons_cons.mpr ⟨xs, rfl, h⟩⟩

section Cut

variable [DecidableEq α] {front rest : List α}

/-- The first occurrence of a pattern leaves at least what another occurrence leaves. -/
theorem suffix_of_cutAt {gap tail : List α}
    (h : cutAt p (gap ++ (p ++ tail)) = some (front, rest)) : tail <:+ rest := by
  have hwhole := cutAt_eq_some h
  have hfront : front.length ≤ gap.length := by
    cases hgap : cutAt p (gap ++ p) with
    | none => exact absurd (List.suffix_append gap p).isInfix (cutAt_eq_none_iff.mp hgap)
    | some cut =>
        obtain ⟨front', rest'⟩ := cut
        have hmore := cutAt_append tail hgap
        rw [List.append_assoc, h] at hmore
        obtain ⟨rfl, -⟩ := Prod.mk.inj (Option.some.inj hmore)
        have hlen := congrArg List.length (cutAt_eq_some hgap)
        simp only [List.length_append] at hlen
        omega
  have htail : tail <:+ front ++ p ++ rest := by
    rw [← hwhole, ← List.append_assoc]
    exact List.suffix_append _ tail
  refine List.suffix_of_suffix_length_le htail (List.suffix_append _ rest) ?_
  have hlen := congrArg List.length hwhole
  simp only [List.length_append] at hlen
  omega

/-- The pieces trail exactly when they do behind the first occurrence of the first one. -/
theorem trails_cons_of_cutAt (h : cutAt p xs = some (front, rest)) :
    Trails (p :: q :: ps) xs ↔ Trails (q :: ps) rest := by
  constructor
  · rintro ⟨gap, filled, rfl, hfills⟩
    obtain ⟨tail, rfl, htrails⟩ := fills_cons_cons.mp hfills
    exact htrails.of_suffix (suffix_of_cutAt h)
  · intro htrails
    rw [cutAt_eq_some h, List.append_assoc]
    exact ⟨front, p ++ rest, rfl, fills_cons_cons.mpr ⟨rest, rfl, htrails⟩⟩

theorem not_trails_of_cutAt (h : cutAt p xs = none) : ¬ Trails (p :: q :: ps) xs := by
  rintro ⟨gap, filled, rfl, hfills⟩
  obtain ⟨tail, rfl, -⟩ := fills_cons_cons.mp hfills
  exact cutAt_eq_none_iff.mp h ⟨gap, tail, List.append_assoc _ _ _⟩

end Cut

end ArmaraOS.Lib
