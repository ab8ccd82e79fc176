import Mathlib.Data.List.Basic
import Mathlib.Data.List.Flatten

/-!
Lists without some of their elements.

`DropsOnly p l kept` says that `kept` is `l` without some elements that satisfy `p`; what stays
keeps its order. The lemmas say which filters drop only such elements, and how the relation
passes through a `filterMap`, in both directions.
-/

namespace ArmaraOS.Lib

variable {α β : Type*}

/-- `kept` is the first list without some elements that satisfy `p`. -/
inductive DropsOnly (p : α → Prop) : List α → List α → Prop where
  | nil : DropsOnly p [] []
  | keep (a : α) {l kept : List α} : DropsOnly p l kept → DropsOnly p (a :: l) (a :: kept)
  | drop {a : α} {l kept : List α} : p a → DropsOnly p l kept → DropsOnly p (a :: l) kept

namespace DropsOnly

variable {p q : α → Prop}

theorem refl : ∀ l : List α, DropsOnly p l l
  | [] => .nil
  | a :: l => .keep a (refl l)

theorem mono {l kept : List α} (h : DropsOnly p l kept) (hpq : ∀ a ∈ l, p a → q a) :
    DropsOnly q l kept := by
  induction h with
  | nil => exact .nil
  | keep a _ ih => exact .keep a (ih fun b hb => hpq b (List.mem_cons_of_mem _ hb))
  | drop ha _ ih =>
      exact .drop (hpq _ List.mem_cons_self ha) (ih fun b hb => hpq b (List.mem_cons_of_mem _ hb))

theorem sublist {l kept : List α} (h : DropsOnly p l kept) : kept.Sublist l := by
  induction h with
  | nil => exact .slnil
  | keep a _ ih => exact ih.cons_cons a
  | drop _ _ ih => exact ih.cons _

/-- Dropping in two steps. -/
theorem trans {l mid kept : List α} (h : DropsOnly p l mid) (h' : DropsOnly p mid kept) :
    DropsOnly p l kept := by
  induction h generalizing kept with
  | nil => exact h'
  | keep a _ ih =>
      cases h' with
      | keep _ hrest => exact .keep a (ih hrest)
      | drop ha hrest => exact .drop ha (ih hrest)
  | drop ha _ ih => exact .drop ha (ih h')

theorem append {front kept back kept' : List α} (h : DropsOnly p front kept)
    (h' : DropsOnly p back kept') : DropsOnly p (front ++ back) (kept ++ kept') := by
  induction h with
  | nil => exact h'
  | keep a _ ih => exact .keep a ih
  | drop ha _ ih => exact .drop ha ih

theorem reverse {l kept : List α} (h : DropsOnly p l kept) :
    DropsOnly p l.reverse kept.reverse := by
  induction h with
  | nil => exact .nil
  | keep a _ ih =>
      rw [List.reverse_cons, List.reverse_cons]
      exact ih.append (refl [a])
  | drop ha _ ih =>
      rw [List.reverse_cons]
      simpa using ih.append (DropsOnly.drop ha .nil)

/-- Elements that contribute nothing can be dropped from a `flatMap`. -/
theorem flatMap_eq {f : α → List β} {l kept : List α} (h : DropsOnly p l kept)
    (hf : ∀ a, p a → f a = []) : kept.flatMap f = l.flatMap f := by
  induction h with
  | nil => rfl
  | keep a _ ih => rw [List.flatMap_cons, List.flatMap_cons, ih]
  | drop ha _ ih => rw [List.flatMap_cons, hf _ ha, List.nil_append, ih]

theorem filterMap_eq {f : α → Option β} {l kept : List α} (h : DropsOnly p l kept)
    (hf : ∀ a, p a → f a = none) : kept.filterMap f = l.filterMap f := by
  induction h with
  | nil => rfl
  | keep a _ ih => rw [List.filterMap_cons, List.filterMap_cons, ih]
  | drop ha _ ih => rw [List.filterMap_cons_none (hf _ ha), ih]

/-- What is dropped before a `filterMap` is dropped behind it. -/
theorem filterMap {r : β → Prop} {f : α → Option β} {l kept : List α} (h : DropsOnly p l kept)
    (hf : ∀ a ∈ l, p a → ∀ b, f a = some b → r b) :
    DropsOnly r (l.filterMap f) (kept.filterMap f) := by
  induction h with
  | nil => exact .nil
  | @keep a l kept _ ih =>
      have hrest := ih fun c hc => hf c (List.mem_cons_of_mem _ hc)
      cases ha : f a with
      | none => simpa [List.filterMap_cons_none ha] using hrest
      | some b => simpa [List.filterMap_cons_some ha] using hrest.keep b
  | @drop a l kept hp _ ih =>
      have hrest := ih fun c hc => hf c (List.mem_cons_of_mem _ hc)
      cases ha : f a with
      | none => simpa [List.filterMap_cons_none ha] using hrest
      | some b =>
          rw [List.filterMap_cons_some ha]
          exact .drop (hf a List.mem_cons_self hp b ha) hrest

/-- What is dropped behind a `filterMap` can be dropped before it. -/
theorem exists_of_filterMap {r : β → Prop} {f : α → Option β} : ∀ {l : List α} {kept : List β},
    DropsOnly r (l.filterMap f) kept →
    ∃ before, DropsOnly (fun a => ∃ b, f a = some b ∧ r b) l before ∧ before.filterMap f = kept
  | [], kept, h => by
      cases h
      exact ⟨[], .nil, rfl⟩
  | a :: l, kept, h => by
      cases ha : f a with
      | none =>
          rw [List.filterMap_cons_none ha] at h
          obtain ⟨before, hdrop, heq⟩ := exists_of_filterMap h
          exact ⟨a :: before, .keep a hdrop, by rw [List.filterMap_cons_none ha, heq]⟩
      | some b =>
          rw [List.filterMap_cons_some ha] at h
          cases h with
          | keep _ hrest =>
              obtain ⟨before, hdrop, heq⟩ := exists_of_filterMap hrest
              exact ⟨a :: before, .keep a hdrop, by rw [List.filterMap_cons_some ha, heq]⟩
          | drop hb hrest =>
              obtain ⟨before, hdrop, heq⟩ := exists_of_filterMap hrest
              exact ⟨before, .drop ⟨b, ha, hb⟩ hdrop, heq⟩

/-- Filtering by position and element. -/
theorem filter_zipIdx {keep : α × Nat → Bool} : ∀ {l : List α} {start : Nat},
    (∀ x ∈ l.zipIdx start, keep x = false → p x.1) →
    DropsOnly p l (((l.zipIdx start).filter keep).map Prod.fst)
  | [], _, _ => .nil
  | a :: l, start, h => by
      have ih : DropsOnly p l (((l.zipIdx (start + 1)).filter keep).map Prod.fst) :=
        filter_zipIdx fun x hx => h x (List.mem_cons_of_mem _ hx)
      rw [List.zipIdx_cons]
      by_cases hkeep : keep (a, start) = true
      · rw [List.filter_cons_of_pos hkeep]
        exact .keep a ih
      · rw [List.filter_cons_of_neg hkeep]
        exact .drop (h (a, start) (by simp [List.zipIdx_cons]) (Bool.eq_false_iff.mpr hkeep)) ih

theorem filter {keep : α → Bool} : ∀ {l : List α}, (∀ a ∈ l, keep a = false → p a) →
    DropsOnly p l (l.filter keep)
  | [], _ => .nil
  | a :: l, h => by
      have ih : DropsOnly p l (l.filter keep) := filter fun b hb => h b (List.mem_cons_of_mem _ hb)
      by_cases hkeep : keep a = true
      · rw [List.filter_cons_of_pos hkeep]
        exact .keep a ih
      · rw [List.filter_cons_of_neg hkeep]
        exact .drop (h a List.mem_cons_self (Bool.eq_false_iff.mpr hkeep)) ih

/-- A segment cut out. -/
theorem cut {i n : Nat} {l : List α} (h : ∀ a ∈ (l.drop i).take n, p a) :
    DropsOnly p l (l.take i ++ l.drop (i + n)) := by
  have hfront : ∀ {n : Nat} {l : List α}, (∀ a ∈ l.take n, p a) → DropsOnly p l (l.drop n) := by
    intro n
    induction n with
    | zero => exact fun _ => refl _
    | succ n ih =>
        intro l h
        cases l with
        | nil => exact .nil
        | cons a l => exact .drop (h a (by simp)) (ih fun b hb => h b (by simp [hb]))
  have hcut := (refl (l.take i)).append (hfront h)
  rwa [List.take_append_drop, List.drop_drop] at hcut

end DropsOnly

/-- Where each element contributes a part of what it should, the whole is complete only if every
contribution is. -/
theorem flatMap_eq_flatMap_iff {f g : α → List β} {l : List α}
    (h : ∀ a ∈ l, (f a).Sublist (g a)) :
    l.flatMap f = l.flatMap g ↔ ∀ a ∈ l, f a = g a := by
  induction l with
  | nil => simp
  | cons a l ih =>
      have ha := h a List.mem_cons_self
      have hl : ∀ b ∈ l, (f b).Sublist (g b) := fun b hb => h b (List.mem_cons_of_mem _ hb)
      have hrest := List.Sublist.flatMap_right l hl
      rw [List.flatMap_cons, List.flatMap_cons, List.forall_mem_cons, ← ih hl]
      constructor
      · intro heq
        have hlen : (f a).length + (l.flatMap f).length =
            (g a).length + (l.flatMap g).length := by
          rw [← List.length_append, ← List.length_append, heq]
        have hle := ha.length_le
        have hle' := hrest.length_le
        exact ⟨ha.eq_of_length (by omega), hrest.eq_of_length (by omega)⟩
      · rintro ⟨heq, heq'⟩
        rw [heq, heq']

/-! ### Neighbours in a filtered list -/

section Neighbours

variable {keep : α → Bool} {l : List α}

/-- Behind a kept element stands the first kept one of those that stood behind it. -/
theorem exists_of_getElem?_filter {i : Nat} {a : α} (h : (l.filter keep)[i]? = some a) :
    ∃ j, l[j]? = some a ∧ keep a = true ∧
      (l.filter keep)[i + 1]? = (l.drop (j + 1)).find? keep := by
  induction l generalizing i with
  | nil => simp at h
  | cons b l ih =>
      by_cases hb : keep b = true
      · rw [List.filter_cons_of_pos hb] at h ⊢
        cases i with
        | zero =>
            obtain rfl : b = a := by simpa using h
            exact ⟨0, rfl, hb, by simp [← List.head?_filter, List.head?_eq_getElem?]⟩
        | succ i =>
            obtain ⟨j, hj, ha, hnext⟩ := ih (by simpa using h)
            exact ⟨j + 1, by simpa using hj, ha, by simpa using hnext⟩
      · rw [List.filter_cons_of_neg hb] at h ⊢
        obtain ⟨j, hj, ha, hnext⟩ := ih h
        exact ⟨j + 1, by simpa using hj, ha, by simpa using hnext⟩

theorem exists_getElem?_filter {j : Nat} {a : α} (h : l[j]? = some a) (ha : keep a = true) :
    ∃ i, (l.filter keep)[i]? = some a ∧
      (l.filter keep)[i + 1]? = (l.drop (j + 1)).find? keep := by
  induction l generalizing j with
  | nil => simp at h
  | cons b l ih =>
      cases j with
      | zero =>
          obtain rfl : b = a := by simpa using h
          rw [List.filter_cons_of_pos ha]
          exact ⟨0, rfl, by simp [← List.head?_filter, List.head?_eq_getElem?]⟩
      | succ j =>
          obtain ⟨i, hi, hnext⟩ := ih (by simpa using h)
          by_cases hb : keep b = true
          · rw [List.filter_cons_of_pos hb]
            exact ⟨i + 1, by simpa using hi, by simpa using hnext⟩
          · rw [List.filter_cons_of_neg hb]
            exact ⟨i, hi, by simpa using hnext⟩

end Neighbours

end ArmaraOS.Lib
