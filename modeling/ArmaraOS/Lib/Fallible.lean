import Mathlib.Data.List.Forall2

/-!
Lists worked through by a function that may fail, in `Except`.
-/

namespace ArmaraOS.Lib

variable {ε α β γ : Type}

/-- A list is read item by item exactly if each item is. -/
theorem mapM_eq_ok_iff {f : α → Except ε β} {xs : List α} {ys : List β} :
    xs.mapM f = .ok ys ↔ List.Forall₂ (fun x y => f x = .ok y) xs ys := by
  induction xs generalizing ys with
  | nil =>
      rw [List.mapM_nil, List.forall₂_nil_left_iff]
      exact ⟨fun h => (Except.ok.inj h).symm, fun h => congrArg Except.ok h.symm⟩
  | cons x xs ih =>
      rw [List.mapM_cons, List.forall₂_cons_left_iff]
      cases hx : f x with
      | error e => simp [bind, Except.bind]
      | ok y =>
          cases hxs : xs.mapM f with
          | error e => simp [bind, Except.bind, ← ih, hxs]
          | ok rest => simp [bind, Except.bind, pure, Except.pure, ← ih, hxs, eq_comm]

/-- What a list is read as has the items its own are read as. -/
theorem mem_of_mapM_ok {f : α → Except ε β} {xs : List α} {ys : List β}
    (h : xs.mapM f = .ok ys) {y : β} : y ∈ ys ↔ ∃ x ∈ xs, f x = .ok y := by
  induction mapM_eq_ok_iff.mp h with
  | nil => simp
  | cons hx hxs ih =>
      rw [List.mem_cons, ih (mapM_eq_ok_iff.mpr hxs), List.exists_mem_cons_iff, hx]
      simp [eq_comm]

/-- What every item keeps when it is read, the list keeps. -/
theorem map_eq_of_mapM_ok {f : α → Except ε β} {xs : List α} {ys : List β} {before : α → γ}
    {after : β → γ} (h : xs.mapM f = .ok ys)
    (hkeep : ∀ x ∈ xs, ∀ y, f x = .ok y → after y = before x) :
    ys.map after = xs.map before := by
  induction mapM_eq_ok_iff.mp h with
  | nil => rfl
  | cons hx hxs ih =>
      rw [List.forall_mem_cons] at hkeep
      rw [List.map_cons, List.map_cons, hkeep.1 _ hx, ih (mapM_eq_ok_iff.mpr hxs) hkeep.2]

/-- A list is read if each of its items is. -/
theorem exists_mapM_ok (f : α → Except ε β) (xs : List α) (h : ∀ x ∈ xs, ∃ y, f x = .ok y) :
    ∃ ys, xs.mapM f = .ok ys := by
  induction xs with
  | nil => exact ⟨[], rfl⟩
  | cons x xs ih =>
      rw [List.forall_mem_cons] at h
      obtain ⟨⟨y, hy⟩, hxs⟩ := h
      obtain ⟨ys, hys⟩ := ih hxs
      exact ⟨y :: ys, mapM_eq_ok_iff.mpr (.cons hy (mapM_eq_ok_iff.mp hys))⟩

/-- A run of partial steps succeeds if each of them does. -/
theorem isSome_mapM_iff {f : α → Option β} {xs : List α} :
    (xs.mapM f).isSome = true ↔ ∀ x ∈ xs, (f x).isSome = true := by
  induction xs with
  | nil => simp
  | cons x xs ih =>
      rw [List.forall_mem_cons, ← ih, List.mapM_cons]
      cases f x <;> cases xs.mapM f <;> simp

theorem exists_mapM_some {f : α → Option β} {q : α → β → Prop} {xs : List α}
    (h : ∀ x ∈ xs, ∃ y, f x = some y ∧ q x y) :
    ∃ ys, xs.mapM f = some ys ∧ List.Forall₂ (fun x y => f x = some y ∧ q x y) xs ys := by
  induction xs with
  | nil => exact ⟨[], rfl, .nil⟩
  | cons x xs ih =>
      obtain ⟨⟨y, hy⟩, hxs⟩ := List.forall_mem_cons.mp h
      obtain ⟨ys, hys, hall⟩ := ih hxs
      refine ⟨y :: ys, ?_, .cons hy hall⟩
      rw [List.mapM_cons, hy.1, hys]
      rfl

/-! ### The first error -/

/-- The error of the first item that cannot be read. -/
def firstError (f : α → Except ε β) (xs : List α) : Option ε :=
  xs.findSome? fun x =>
    match f x with
    | .error e => some e
    | .ok _ => none

/-- The items that can be read. -/
def readItems (f : α → Except ε β) (xs : List α) : List β := xs.filterMap fun x => (f x).toOption

/-- A list is read up to its first error. -/
theorem mapM_eq_firstError (f : α → Except ε β) (xs : List α) :
    xs.mapM f = (firstError f xs).elim (.ok (readItems f xs)) .error := by
  induction xs with
  | nil => rfl
  | cons x xs ih =>
      rw [List.mapM_cons, ih]
      cases hx : f x with
      | error e =>
          have hfirst : firstError f (x :: xs) = some e := by simp [firstError, hx]
          rw [hfirst]
          rfl
      | ok y =>
          have hfirst : firstError f (x :: xs) = firstError f xs := by simp [firstError, hx]
          have hitems : readItems f (x :: xs) = y :: readItems f xs := by
            simp [readItems, hx, Except.toOption]
          rw [hfirst, hitems]
          cases firstError f xs <;> rfl

/-- A test of what is read is a test of the items. -/
theorem filter_readItems (f : α → Except ε β) (p : β → Bool) (xs : List α) :
    (readItems f xs).filter p = readItems f (xs.filter fun x => (f x).toOption.any p) := by
  induction xs with
  | nil => rfl
  | cons x xs ih =>
      rw [readItems, List.filterMap_cons, List.filter_cons]
      cases hx : (f x).toOption with
      | none => simpa [readItems] using ih
      | some y =>
          rw [List.filter_cons, Option.any_some]
          cases hy : p y with
          | false => simpa [readItems] using ih
          | true => simpa [readItems, hx] using ih

/-- Where every item can be read, none is lost. -/
theorem length_readItems {f : α → Except ε β} {xs : List α}
    (h : ∀ x ∈ xs, (f x).toOption.isSome = true) : (readItems f xs).length = xs.length := by
  induction xs with
  | nil => rfl
  | cons x xs ih =>
      rw [List.forall_mem_cons] at h
      obtain ⟨y, hy⟩ := Option.isSome_iff_exists.mp h.1
      rw [readItems, List.filterMap_cons, hy, List.length_cons, List.length_cons, ← ih h.2]
      rfl

end ArmaraOS.Lib
