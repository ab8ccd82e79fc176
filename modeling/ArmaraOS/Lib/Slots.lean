import Mathlib.Algebra.Ring.Nat
import Mathlib.Data.List.Basic
import Mathlib.Data.List.Induction

/-!
A table that grows by index.

Each item names the slot it belongs to; the table is filled up with a default entry as far as
needed, and the item is pushed onto its own entry. Afterwards each entry is what its own items
make of the default, in their order (`foldl_pushAt`).
-/

namespace ArmaraOS.Lib.Slots

variable {α β : Type*} (index : β → Nat) (push : α → β → α) (default : α)

/-- Fill the table up and push one item. -/
def pushAt (slots : List α) (item : β) : List α :=
  (slots ++ List.replicate (index item + 1 - slots.length) default).modify (index item)
    fun entry => push entry item

/-- The number of slots that some items need. -/
def slotCount (items : List β) : Nat := items.foldl (fun n item => max n (index item + 1)) 0

/-- The entry that some items leave in a slot. -/
def entry (items : List β) (i : Nat) : α :=
  (items.filter fun item => index item = i).foldl push default

variable {index push default}

theorem slotCount_concat (items : List β) (item : β) :
    slotCount index (items ++ [item]) = max (slotCount index items) (index item + 1) := by
  simp [slotCount]

theorem entry_concat_self (items : List β) (item : β) :
    entry index push default (items ++ [item]) (index item) =
      push (entry index push default items (index item)) item := by
  simp [entry]

theorem entry_concat_of_ne (items : List β) {item : β} {i : Nat} (h : index item ≠ i) :
    entry index push default (items ++ [item]) i = entry index push default items i := by
  simp [entry, h]

/-- An entry without items is the default. -/
theorem entry_of_le {items : List β} {i : Nat} (h : slotCount index items ≤ i) :
    entry index push default items i = default := by
  induction items using List.reverseRecOn with
  | nil => rfl
  | append_singleton items item ih =>
      rw [slotCount_concat] at h
      rw [entry_concat_of_ne items (by omega), ih (by omega)]

/-- Every entry is made by its own items. -/
theorem foldl_pushAt (items : List β) :
    items.foldl (pushAt index push default) [] =
      (List.range (slotCount index items)).map (entry index push default items) := by
  induction items using List.reverseRecOn with
  | nil => rfl
  | append_singleton items item ih =>
      rw [List.foldl_append, ih, List.foldl_cons, List.foldl_nil]
      apply List.ext_getElem?
      intro i
      have hlen : ((List.range (slotCount index items)).map
          (entry index push default items)).length = slotCount index items := by simp
      have hentry : (((List.range (slotCount index items)).map (entry index push default items)) ++
          List.replicate (index item + 1 - slotCount index items) default)[i]? =
            if i < max (slotCount index items) (index item + 1) then
              some (entry index push default items i)
            else none := by
        by_cases hi : i < slotCount index items
        · rw [List.getElem?_append_left (by simpa using hi), if_pos (by omega)]
          simp [hi]
        · rw [List.getElem?_append_right (by simpa using hi), hlen, List.getElem?_replicate,
            entry_of_le (by omega)]
          exact if_congr (by omega) rfl rfl
      rw [pushAt, hlen, List.getElem?_modify, hentry, List.getElem?_map, slotCount_concat]
      by_cases hi : i < max (slotCount index items) (index item + 1)
      · rw [if_pos hi, List.getElem?_range hi]
        by_cases hself : index item = i
        · subst hself
          simp [entry_concat_self]
        · simp [hself, entry_concat_of_ne items hself]
      · rw [if_neg hi, List.getElem?_eq_none (by simpa using hi)]
        rfl

/-! ### The latest value -/

/-- A reader that keeps what an item says, and otherwise what it has, has the latest. -/
theorem foldl_getD {γ : Type*} (value : β → Option γ) (items : List β) (before : γ) :
    items.foldl (fun latest item => (value item).getD latest) before =
      (items.filterMap value).getLast?.getD before := by
  induction items using List.reverseRecOn with
  | nil => rfl
  | append_singleton items item ih =>
      rw [List.foldl_append, ih, List.filterMap_append]
      cases hitem : value item <;> simp [hitem]

@[inherit_doc foldl_getD]
theorem foldl_orElse {γ : Type*} (value : β → Option γ) (items : List β) (before : Option γ) :
    items.foldl (fun latest item => (value item).orElse fun _ => latest) before =
      (items.filterMap value).getLast?.or before := by
  induction items using List.reverseRecOn with
  | nil => simp
  | append_singleton items item ih =>
      rw [List.foldl_append, ih, List.filterMap_append]
      cases hitem : value item <;> simp [hitem]

end ArmaraOS.Lib.Slots
