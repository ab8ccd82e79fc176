import Mathlib.Data.List.Basic

/-!
Blocks that a text is searched for, one behind the other.

A scan takes the first block of a text, goes on behind it, and so lists the blocks until there is
none. `First text block rest` says which block comes first and what stands behind it, and `Among`
which blocks there are, without the scan. A list of the blocks has those as its members
(`Listed.mem_iff`), and at most one of them is read exactly when no two are, one behind the other
(`Listed.filterMap_iff`).
-/

namespace ArmaraOS.Lib

variable {α β γ : Type*}

/-- A block of the text, with what stands behind it. -/
inductive Among (First : List α → β → List α → Prop) : List α → β → List α → Prop where
  | here {text rest : List α} {block : β} : First text block rest → Among First text block rest
  | behind {text rest left : List α} {first block : β} :
      First text first rest → Among First rest block left → Among First text block left

/-- All blocks of the text, in order. -/
inductive Listed (First : List α → β → List α → Prop) : List α → List β → Prop where
  | done {text : List α} : (∀ block rest, ¬ First text block rest) → Listed First text []
  | next {text rest : List α} {block : β} {blocks : List β} :
      First text block rest → Listed First rest blocks → Listed First text (block :: blocks)

/-- There is one first block at most. -/
def OneFirst (First : List α → β → List α → Prop) : Prop :=
  ∀ ⦃text block rest block' rest'⦄, First text block rest → First text block' rest' →
    block = block' ∧ rest = rest'

section Blocks

variable {First : List α → β → List α → Prop} {text rest left : List α} {block first : β}
  {blocks : List β}

theorem Among.exists_first (h : Among First text block left) :
    ∃ first rest, First text first rest := by
  cases h with
  | here hfirst => exact ⟨_, _, hfirst⟩
  | behind hfirst _ => exact ⟨_, _, hfirst⟩

theorem among_iff_of_first (hone : OneFirst First) (hfirst : First text first rest) :
    Among First text block left ↔
      block = first ∧ left = rest ∨ Among First rest block left := by
  constructor
  · intro h
    cases h with
    | here hblock => exact .inl (hone hblock hfirst)
    | behind hother hbehind =>
        obtain ⟨rfl, rfl⟩ := hone hother hfirst
        exact .inr hbehind
  · rintro (⟨rfl, rfl⟩ | hbehind)
    · exact .here hfirst
    · exact .behind hfirst hbehind

theorem Listed.mem_iff (hone : OneFirst First) (h : Listed First text blocks) :
    block ∈ blocks ↔ ∃ rest, Among First text block rest := by
  induction h with
  | done hnone =>
      refine iff_of_false List.not_mem_nil fun ⟨_, hamong⟩ => ?_
      obtain ⟨first, rest, hfirst⟩ := hamong.exists_first
      exact hnone first rest hfirst
  | next hfirst _ ih =>
      rw [List.mem_cons, ih]
      constructor
      · rintro (rfl | ⟨left, hleft⟩)
        · exact ⟨_, .here hfirst⟩
        · exact ⟨left, .behind hfirst hleft⟩
      · rintro ⟨left, hleft⟩
        rcases (among_iff_of_first hone hfirst).mp hleft with ⟨rfl, -⟩ | hleft
        · exact .inl rfl
        · exact .inr ⟨left, hleft⟩

theorem Listed.filterMap_eq_nil_iff {f : β → Option γ} (hone : OneFirst First)
    (h : Listed First text blocks) :
    blocks.filterMap f = [] ↔ ∀ block rest, Among First text block rest → f block = none := by
  rw [List.filterMap_eq_nil_iff]
  refine ⟨fun hall block rest hamong => hall block ((Listed.mem_iff hone h).mpr ⟨rest, hamong⟩),
    fun hall block hmem => ?_⟩
  obtain ⟨rest, hamong⟩ := (Listed.mem_iff hone h).mp hmem
  exact hall block rest hamong

end Blocks

end ArmaraOS.Lib
