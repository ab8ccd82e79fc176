import Mathlib.Data.List.Induction
import Mathlib.Data.List.Sort

/-!
Grouping values by a numeric key, and editing a list behind several positions.

A program that collects edits in a map from positions to values and applies them
from the last position to the first does one right-to-left pass over the list:
`foldl_editBehind` equates the two. The grouping lemmas say what such a map holds
(`mem_groupEntries`) and that visiting it in descending key order is a strictly
descending visit (`pairwise_sortDescending`).
-/

namespace ArmaraOS.Lib

/-! ### Grouping -/

section Grouping

variable {α : Type*}

/-- `entry(key).or_default().push(value)` on a map with distinct keys. -/
def pushEntry (key : Nat) (value : α) : List (Nat × List α) → List (Nat × List α)
  | [] => [(key, [value])]
  | (k, vs) :: rest =>
      if k = key then (k, vs ++ [value]) :: rest else (k, vs) :: pushEntry key value rest

/-- Group values by key, each group in order of arrival. -/
def groupEntries (entries : List (Nat × α)) : List (Nat × List α) :=
  entries.foldl (fun groups entry => pushEntry entry.1 entry.2 groups) []

/-- The groups in descending order of their keys. -/
def sortDescending (groups : List (Nat × α)) : List (Nat × α) :=
  groups.insertionSort fun a b => b.1 ≤ a.1

/-- The values that `entries` holds for a key, in order. -/
def valuesAt (entries : List (Nat × α)) (key : Nat) : List α :=
  entries.filterMap fun entry => if entry.1 = key then some entry.2 else none

theorem valuesAt_append_singleton (entries : List (Nat × α)) (key k : Nat) (v : α) :
    valuesAt (entries ++ [(k, v)]) key
      = valuesAt entries key ++ if k = key then [v] else [] := by
  rw [valuesAt, List.filterMap_append]
  by_cases h : k = key <;> simp [valuesAt, h]

theorem mem_valuesAt {entries : List (Nat × α)} {key : Nat} {v : α} :
    v ∈ valuesAt entries key ↔ (key, v) ∈ entries := by
  simp only [valuesAt, List.mem_filterMap]
  constructor
  · rintro ⟨⟨k, w⟩, hmem, hv⟩
    by_cases hk : k = key
    · obtain rfl : w = v := by simpa [hk] using hv
      exact hk ▸ hmem
    · simp [hk] at hv
  · intro hmem
    exact ⟨(key, v), hmem, by simp⟩

/-- Pushing adds the key, if new, behind the others. -/
theorem keys_pushEntry (key : Nat) (value : α) :
    ∀ groups : List (Nat × List α), (pushEntry key value groups).map Prod.fst
      = if key ∈ groups.map Prod.fst then groups.map Prod.fst
        else groups.map Prod.fst ++ [key]
  | [] => by simp [pushEntry]
  | (k, vs) :: rest => by
      have ih := keys_pushEntry key value rest
      by_cases hk : k = key
      · simp [pushEntry, hk]
      · rw [pushEntry, if_neg hk, List.map_cons, ih]
        by_cases hmem : key ∈ rest.map Prod.fst
        · simp [hmem]
        · simp [hmem, Ne.symm hk]

theorem nodup_keys_pushEntry {key : Nat} {value : α} {groups : List (Nat × List α)}
    (h : (groups.map Prod.fst).Nodup) : ((pushEntry key value groups).map Prod.fst).Nodup := by
  rw [keys_pushEntry]
  split
  · exact h
  · rename_i hnew
    exact List.Nodup.append h (List.nodup_singleton key) (by simpa using hnew)

/-- A pushed value joins the group of its key and touches no other group. -/
theorem mem_pushEntry {key : Nat} {value : α} {k : Nat} {vs : List α} :
    ∀ {groups : List (Nat × List α)}, (groups.map Prod.fst).Nodup →
      ((k, vs) ∈ pushEntry key value groups ↔
        (k ≠ key ∧ (k, vs) ∈ groups) ∨
        (k = key ∧ ∃ ws, vs = ws ++ [value] ∧
          ((k, ws) ∈ groups ∨ (ws = [] ∧ key ∉ groups.map Prod.fst))))
  | [], _ => by
      simp only [pushEntry, List.mem_singleton, Prod.mk.injEq, List.not_mem_nil, and_false,
        List.map_nil, not_false_eq_true, and_true, false_or]
      constructor
      · rintro ⟨rfl, rfl⟩
        exact ⟨rfl, [], rfl, rfl⟩
      · rintro ⟨rfl, ws, rfl, rfl⟩
        exact ⟨rfl, rfl⟩
  | (j, us) :: rest, hnodup => by
      obtain ⟨hj, hrest⟩ := List.nodup_cons.mp hnodup
      have hfree : ∀ ws, (j, ws) ∉ rest := fun ws hmem =>
        hj (List.mem_map.mpr ⟨(j, ws), hmem, rfl⟩)
      by_cases hjk : j = key
      · subst hjk
        rw [pushEntry, if_pos rfl]
        constructor
        · intro hmem
          rcases List.mem_cons.mp hmem with heq | hmem
          · obtain ⟨rfl, rfl⟩ := Prod.mk.inj heq
            exact .inr ⟨rfl, us, rfl, .inl (by simp)⟩
          · have hk : k ≠ j := fun h => hfree vs (h ▸ hmem)
            exact .inl ⟨hk, List.mem_cons_of_mem _ hmem⟩
        · rintro (⟨hk, hmem⟩ | ⟨rfl, ws, rfl, hmem | ⟨-, hnew⟩⟩)
          · rcases List.mem_cons.mp hmem with heq | hmem
            · exact absurd (Prod.mk.inj heq).1 hk
            · exact List.mem_cons_of_mem _ hmem
          · rcases List.mem_cons.mp hmem with heq | hmem
            · obtain ⟨-, rfl⟩ := Prod.mk.inj heq
              simp
            · exact absurd hmem (hfree ws)
          · simp at hnew
      · rw [pushEntry, if_neg hjk, List.mem_cons, mem_pushEntry hrest]
        constructor
        · rintro (heq | ⟨hk, hmem⟩ | ⟨rfl, ws, rfl, hmem | ⟨rfl, hnew⟩⟩)
          · obtain ⟨rfl, rfl⟩ := Prod.mk.inj heq
            exact .inl ⟨hjk, by simp⟩
          · exact .inl ⟨hk, List.mem_cons_of_mem _ hmem⟩
          · exact .inr ⟨rfl, ws, rfl, .inl (List.mem_cons_of_mem _ hmem)⟩
          · refine .inr ⟨rfl, [], rfl, .inr ⟨rfl, ?_⟩⟩
            rw [List.map_cons, List.mem_cons, not_or]
            exact ⟨fun h => hjk h.symm, hnew⟩
        · rintro (⟨hk, hmem⟩ | ⟨rfl, ws, rfl, hmem | ⟨rfl, hnew⟩⟩)
          · rcases List.mem_cons.mp hmem with heq | hmem
            · exact .inl heq
            · exact .inr (.inl ⟨hk, hmem⟩)
          · rcases List.mem_cons.mp hmem with heq | hmem
            · exact absurd (Prod.mk.inj heq).1.symm hjk
            · exact .inr (.inr ⟨rfl, ws, rfl, .inl hmem⟩)
          · rw [List.map_cons, List.mem_cons, not_or] at hnew
            exact .inr (.inr ⟨rfl, [], rfl, .inr ⟨rfl, hnew.2⟩⟩)

/-- The groups of a list of entries, characterised: distinct keys, and under each
key the values the entries hold for it. -/
theorem groupEntries_spec (entries : List (Nat × α)) :
    ((groupEntries entries).map Prod.fst).Nodup ∧
      ∀ k vs, (k, vs) ∈ groupEntries entries ↔ vs ≠ [] ∧ vs = valuesAt entries k := by
  induction entries using List.reverseRecOn with
  | nil => simp [groupEntries, valuesAt]
  | append_singleton entries e ih =>
      obtain ⟨hnodup, hmem⟩ := ih
      have hstep : groupEntries (entries ++ [e]) = pushEntry e.1 e.2 (groupEntries entries) := by
        simp [groupEntries]
      refine ⟨by rw [hstep]; exact nodup_keys_pushEntry hnodup, fun k vs => ?_⟩
      have hkeys : e.1 ∉ (groupEntries entries).map Prod.fst ↔ valuesAt entries e.1 = [] := by
        constructor
        · intro hnew
          by_contra hne
          exact hnew (List.mem_map.mpr ⟨(e.1, _), (hmem e.1 _).mpr ⟨hne, rfl⟩, rfl⟩)
        · rintro hnil hold
          obtain ⟨⟨k, ws⟩, hws, hk⟩ := List.mem_map.mp hold
          obtain ⟨hne, heq⟩ := (hmem k ws).mp hws
          rw [show k = e.1 from hk] at heq
          exact hne (heq.trans hnil)
      rw [hstep, mem_pushEntry hnodup, valuesAt_append_singleton]
      by_cases hk : k = e.1
      · subst hk
        simp only [ne_eq, not_true_eq_false, false_and, false_or, true_and, if_true, hmem, hkeys]
        constructor
        · rintro ⟨ws, rfl, ⟨-, rfl⟩ | ⟨rfl, hnil⟩⟩
          · simp
          · simp [hnil]
        · rintro ⟨-, rfl⟩
          refine ⟨valuesAt entries e.1, rfl, ?_⟩
          by_cases hnil : valuesAt entries e.1 = []
          · exact .inr ⟨hnil, hnil⟩
          · exact .inl ⟨hnil, rfl⟩
      · simp [hk, hmem, Ne.symm hk]

theorem mem_groupEntries {entries : List (Nat × α)} {k : Nat} {vs : List α} :
    (k, vs) ∈ groupEntries entries ↔ vs ≠ [] ∧ vs = valuesAt entries k :=
  (groupEntries_spec entries).2 k vs

theorem mem_sortDescending {groups : List (Nat × α)} {g : Nat × α} :
    g ∈ sortDescending groups ↔ g ∈ groups :=
  (List.perm_insertionSort _ groups).mem_iff

/-- Sorting a map with distinct keys visits them in strictly descending order. -/
theorem pairwise_sortDescending {groups : List (Nat × α)} (h : (groups.map Prod.fst).Nodup) :
    ((sortDescending groups).map Prod.fst).Pairwise (· > ·) := by
  have hsorted : (sortDescending groups).Pairwise fun a b => b.1 ≤ a.1 :=
    List.pairwise_insertionSort _ _
  have hnodup : ((sortDescending groups).map Prod.fst).Nodup :=
    ((List.perm_insertionSort _ groups).map Prod.fst).nodup_iff.mpr h
  rw [List.Nodup, List.pairwise_map] at hnodup
  rw [List.pairwise_map]
  exact List.Pairwise.imp₂ (fun _ _ hle hne => lt_of_le_of_ne hle (Ne.symm hne)) hsorted hnodup

end Grouping

/-! ### Association lists -/

section Lookup

variable {α β : Type*} [DecidableEq α]

/-- A key whose entries all agree is looked up to their value. -/
theorem lookup_of_unique {key : α} {value : β} :
    ∀ {entries : List (α × β)}, (key, value) ∈ entries →
      (∀ v, (key, v) ∈ entries → v = value) → entries.lookup key = some value
  | [], hmem, _ => absurd hmem (by simp)
  | (k, v) :: rest, hmem, huniq => by
      by_cases hk : k = key
      · subst hk
        rw [List.lookup_cons_self, huniq v (by simp)]
      · have hne : (key == k) = false := beq_eq_false_iff_ne.mpr (Ne.symm hk)
        rw [List.lookup_cons, hne]
        refine lookup_of_unique ?_ fun w hw => huniq w (List.mem_cons_of_mem _ hw)
        rcases List.mem_cons.mp hmem with heq | hmem
        · exact absurd (Prod.mk.inj heq).1.symm hk
        · exact hmem

theorem mem_of_lookup {key : α} {value : β} :
    ∀ {entries : List (α × β)}, entries.lookup key = some value → (key, value) ∈ entries
  | [], h => by simp at h
  | (k, v) :: rest, h => by
      by_cases hk : key = k
      · subst hk
        rw [List.lookup_cons_self] at h
        obtain rfl := Option.some.inj h
        simp
      · rw [List.lookup_cons, beq_eq_false_iff_ne.mpr hk] at h
        exact List.mem_cons_of_mem _ (mem_of_lookup h)

/-- With distinct keys, lookup is membership. -/
theorem lookup_eq_some_iff {key : α} {value : β} {entries : List (α × β)}
    (h : (entries.map Prod.fst).Nodup) :
    entries.lookup key = some value ↔ (key, value) ∈ entries := by
  refine ⟨mem_of_lookup, fun hmem => lookup_of_unique hmem fun v hv => ?_⟩
  exact congrArg Prod.snd (List.inj_on_of_nodup_map h hv hmem rfl)

/-- With distinct keys, the order of the entries does not matter. -/
theorem lookup_perm {entries entries' : List (α × β)} (h : (entries.map Prod.fst).Nodup)
    (hperm : entries'.Perm entries) (key : α) : entries'.lookup key = entries.lookup key := by
  have h' : (entries'.map Prod.fst).Nodup := (hperm.map Prod.fst).nodup_iff.mpr h
  refine Option.ext fun value => ?_
  rw [lookup_eq_some_iff h', lookup_eq_some_iff h, hperm.mem_iff]

end Lookup

/-! ### Editing behind positions -/

section Weave

variable {ι α : Type*}

/-- Edit what stands behind position `idx`. -/
def editBehind (l : List α) (idx : Nat) (edit : List α → List α) : List α :=
  l.take (idx + 1) ++ edit (l.drop (idx + 1))

/-- One pass from the right: behind each keyed element, the edit of its key. -/
def weave (edit : ι → List α → List α) (xs : List (ι × α)) (tail : List α) : List α :=
  xs.foldr (fun x rest => x.2 :: edit x.1 rest) tail

@[simp] theorem weave_nil (edit : ι → List α → List α) (tail : List α) :
    weave edit [] tail = tail := rfl

@[simp] theorem weave_cons (edit : ι → List α → List α) (x : ι × α) (xs : List (ι × α))
    (tail : List α) : weave edit (x :: xs) tail = x.2 :: edit x.1 (weave edit xs tail) := rfl

theorem weave_append (edit : ι → List α → List α) (xs ys : List (ι × α)) (tail : List α) :
    weave edit (xs ++ ys) tail = weave edit xs (weave edit ys tail) :=
  List.foldr_append

theorem weave_congr {edit edit' : ι → List α → List α} {xs : List (ι × α)}
    (h : ∀ x ∈ xs, edit x.1 = edit' x.1) (tail : List α) :
    weave edit xs tail = weave edit' xs tail := by
  induction xs with
  | nil => rfl
  | cons x xs ih =>
      rw [weave_cons, weave_cons, h x (by simp), ih fun y hy => h y (List.mem_cons_of_mem _ hy)]

/-- A pass that edits nowhere restores the list. -/
theorem weave_id {edit : ι → List α → List α} {xs : List (ι × α)}
    (h : ∀ x ∈ xs, edit x.1 = id) (tail : List α) :
    weave edit xs tail = xs.map Prod.snd ++ tail := by
  induction xs with
  | nil => rfl
  | cons x xs ih =>
      rw [weave_cons, h x (by simp), ih fun y hy => h y (List.mem_cons_of_mem _ hy)]
      rfl

theorem editBehind_split (front back : List α) (a : α) (edit : List α → List α) :
    editBehind (front ++ a :: back) front.length edit = front ++ a :: edit back := by
  have htake : (front ++ a :: back).take (front.length + 1) = front ++ [a] := by
    simp [List.take_append, List.take_of_length_le]
  have hdrop : (front ++ a :: back).drop (front.length + 1) = back := by
    simp [List.drop_append]
  rw [editBehind, htake, hdrop]
  simp

end Weave

/-- **Edits applied from the last position to the first are one right-to-left
pass.** The elements carry ascending keys, `pos` finds the position of a key, and
`keys` visits some of them in descending order. -/
theorem foldl_editBehind {α : Type*} (edit : Nat → List α → List α) (pos : Nat → Nat) :
    ∀ (keys : List Nat) (xs : List (Nat × α)) (tail : List α),
      keys.Pairwise (· > ·) → (xs.map Prod.fst).Pairwise (· < ·) →
      (∀ k ∈ keys, k ∈ xs.map Prod.fst) →
      (∀ front x back, xs = front ++ x :: back → x.1 ∈ keys → pos x.1 = front.length) →
      keys.foldl (fun l k => editBehind l (pos k) (edit k)) (xs.map Prod.snd ++ tail)
        = weave (fun k => if k ∈ keys then edit k else id) xs tail
  | [], xs, tail, _, _, _, _ => by
      rw [List.foldl_nil, weave_id (by simp)]
  | k :: keys, xs, tail, hdesc, hasc, hsub, hpos => by
      obtain ⟨hk, hdesc'⟩ := List.pairwise_cons.mp hdesc
      obtain ⟨x, hx, rfl⟩ := List.mem_map.mp (hsub k (by simp))
      obtain ⟨front, back, rfl⟩ := List.append_of_mem hx
      rw [List.map_append, List.map_cons, List.pairwise_append, List.pairwise_cons] at hasc
      obtain ⟨hfront, ⟨hback, -⟩, hlt⟩ := hasc
      have hfrontLt : ∀ y ∈ front, y.1 < x.1 := fun y hy =>
        hlt y.1 (List.mem_map_of_mem hy) x.1 (by simp)
      -- Nothing behind `x` is edited: its keys exceed every key that is visited.
      have hbackId : weave (fun k => if k ∈ x.1 :: keys then edit k else id) back tail
          = back.map Prod.snd ++ tail := by
        refine weave_id (fun y hy => if_neg fun hmem => ?_) tail
        have hgt := hback y.1 (List.mem_map_of_mem hy)
        rcases List.mem_cons.mp hmem with heq | hmem
        · omega
        · have := hk y.1 hmem
          omega
      have hfirst : editBehind ((front ++ x :: back).map Prod.snd ++ tail) (pos x.1) (edit x.1)
          = front.map Prod.snd ++ (x.2 :: edit x.1 (back.map Prod.snd ++ tail)) := by
        have hlen : pos x.1 = (front.map Prod.snd).length := by
          rw [hpos front x back rfl (by simp), List.length_map]
        rw [hlen, List.map_append, List.map_cons, List.append_assoc, List.cons_append,
          editBehind_split]
      rw [List.foldl_cons, hfirst, weave_append, weave_cons, hbackId,
        if_pos (by simp : x.1 ∈ x.1 :: keys)]
      have ih := foldl_editBehind edit pos keys front
        (x.2 :: edit x.1 (back.map Prod.snd ++ tail)) hdesc' hfront ?_ ?_
      · rw [ih]
        refine weave_congr (fun y hy => ?_) _
        have hne : y.1 ≠ x.1 := (hfrontLt y hy).ne
        simp [hne]
      · intro j hj
        have hjlt := hk j hj
        have hmem := hsub j (List.mem_cons_of_mem _ hj)
        rw [List.map_append, List.map_cons, List.mem_append, List.mem_cons] at hmem
        rcases hmem with hmem | rfl | hmem
        · exact hmem
        · omega
        · have := hback j hmem
          omega
      · intro front' y back' heq hy
        exact hpos front' y (back' ++ x :: back) (by rw [heq]; simp) (List.mem_cons_of_mem _ hy)

end ArmaraOS.Lib
