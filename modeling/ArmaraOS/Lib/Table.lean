import Mathlib.Data.List.Nodup
import Mathlib.Data.List.Count
import Mathlib.Algebra.Ring.Nat

/-!
Tables: entries that carry their own key, no two of them the same.

The operations are those of a concurrent map whose values know their key: inserting,
rewriting one entry or all of them, and removing those that fail a test. What they do to the
number of entries that pass a test is what limits on such a table rest on.
-/

namespace ArmaraOS.Lib

/-- A table of values with distinct keys. -/
structure Table {K V : Type} (key : V → K) where
  entries : List V
  distinct : (entries.map key).Nodup

namespace Table

/-! ### All entries -/

section All

variable {K V : Type} {key : V → K}

/-- The table without entries. -/
def empty : Table key := ⟨[], List.nodup_nil⟩

/-- The number of entries. -/
def size (t : Table key) : Nat := t.entries.length

/-- The number of entries that pass a test. -/
def count (t : Table key) (p : V → Bool) : Nat := t.entries.countP p

/-- The entries that pass a test. -/
def filter (t : Table key) (p : V → Bool) : Table key :=
  ⟨t.entries.filter p, t.distinct.sublist (List.filter_sublist.map key)⟩

/-- All entries rewritten; their keys stay. -/
def map (t : Table key) (f : V → V) (hf : ∀ v, key (f v) = key v) : Table key where
  entries := t.entries.map f
  distinct := by
    have hkeys : (t.entries.map f).map key = t.entries.map key := by
      rw [List.map_map]
      exact List.map_congr_left fun v _ => hf v
    rw [hkeys]
    exact t.distinct

theorem ext {t t' : Table key} (h : t.entries = t'.entries) : t = t' := by
  cases t
  cases t'
  cases h
  rfl

@[simp] theorem not_mem_empty {v : V} : v ∉ (empty : Table key).entries := List.not_mem_nil

@[simp] theorem mem_filter {t : Table key} {p : V → Bool} {v : V} :
    v ∈ (t.filter p).entries ↔ v ∈ t.entries ∧ p v = true := List.mem_filter

theorem mem_map {t : Table key} {f : V → V} (hf) {v : V} :
    v ∈ (t.map f hf).entries ↔ ∃ v' ∈ t.entries, f v' = v := List.mem_map

/-- Two entries with one key are one entry. -/
theorem eq_of_key_eq {t : Table key} {v v' : V} (hv : v ∈ t.entries) (hv' : v' ∈ t.entries)
    (hkey : key v = key v') : v = v' :=
  List.inj_on_of_nodup_map t.distinct hv hv' hkey

theorem count_filter_le (t : Table key) (p q : V → Bool) : (t.filter p).count q ≤ t.count q :=
  List.filter_sublist.countP_le

theorem size_filter_le (t : Table key) (p : V → Bool) : (t.filter p).size ≤ t.size :=
  List.filter_sublist.length_le

@[simp] theorem size_map (t : Table key) (f : V → V) (hf) : (t.map f hf).size = t.size :=
  List.length_map f

/-- A table with all entries that pass a test has at least as many of them. -/
theorem count_le_count {t t' : Table key} {p : V → Bool}
    (h : ∀ v ∈ t.entries, p v = true → v ∈ t'.entries) : t.count p ≤ t'.count p := by
  have hsub : t.entries.filter p ⊆ t'.entries.filter p := fun v hv => by
    obtain ⟨hmem, hp⟩ := List.mem_filter.mp hv
    exact List.mem_filter.mpr ⟨h v hmem hp, hp⟩
  have hnodup : (t.entries.filter p).Nodup := t.distinct.of_map.filter p
  rw [count, count, List.countP_eq_length_filter, List.countP_eq_length_filter]
  exact (List.subperm_of_subset hnodup hsub).length_le

theorem count_map (t : Table key) (f : V → V) (hf) (p : V → Bool) :
    (t.map f hf).count p = t.count fun v => p (f v) := List.countP_map

end All

/-! ### The entry at a key -/

section Keyed

variable {K V : Type} [DecidableEq K] {key : V → K}

/-- The entry at a key. -/
def find (t : Table key) (k : K) : Option V := t.entries.find? fun v => key v == k

/-- The table without the entry at a key. -/
def erase (t : Table key) (k : K) : Table key := t.filter fun v => key v != k

/-- The table with a value in the place of the entry at its key. -/
def insert (t : Table key) (v : V) : Table key where
  entries := v :: (t.erase (key v)).entries
  distinct := by
    rw [List.map_cons, List.nodup_cons]
    refine ⟨fun hmem => ?_, (t.erase (key v)).distinct⟩
    obtain ⟨v', hv', hkey⟩ := List.mem_map.mp hmem
    have hother := (List.mem_filter.mp hv').2
    simp [hkey] at hother

/-- The table with a value, unless its key is taken. -/
def insertIgnore (t : Table key) (v : V) : Table key :=
  if (t.find (key v)).isSome then t else t.insert v

/-- The table without the entries at some keys. -/
def eraseAll (t : Table key) (ks : List K) : Table key := ks.foldl erase t

/-- The entry at a key rewritten; its key stays. -/
def modify (t : Table key) (k : K) (f : V → V) (hf : ∀ v, key v = k → key (f v) = k) :
    Table key :=
  t.map (fun v => if key v = k then f v else v) fun v => by
    by_cases hk : key v = k
    · rw [if_pos hk, hf v hk, hk]
    · rw [if_neg hk]

@[simp] theorem mem_erase {t : Table key} {k : K} {v : V} :
    v ∈ (t.erase k).entries ↔ v ∈ t.entries ∧ key v ≠ k := by
  simp [erase]

@[simp] theorem mem_insert {t : Table key} {v v' : V} :
    v ∈ (t.insert v').entries ↔ v = v' ∨ v ∈ t.entries ∧ key v ≠ key v' := by
  rw [insert, List.mem_cons, mem_erase]

/-- A value with a new key comes before the entries that are there. -/
theorem entries_insert_of_fresh {t : Table key} {v : V}
    (hfresh : ∀ v' ∈ t.entries, key v' ≠ key v) : (t.insert v).entries = v :: t.entries := by
  refine congrArg (List.cons v) (List.filter_eq_self.mpr fun v' hv' => ?_)
  simpa using hfresh v' hv'

theorem mem_modify {t : Table key} {k : K} {f : V → V} (hf) {v : V} :
    v ∈ (t.modify k f hf).entries ↔
      (v ∈ t.entries ∧ key v ≠ k) ∨ ∃ v' ∈ t.entries, key v' = k ∧ f v' = v := by
  rw [modify, mem_map]
  constructor
  · rintro ⟨v', hv', rfl⟩
    by_cases hk : key v' = k
    · rw [if_pos hk]
      exact .inr ⟨v', hv', hk, rfl⟩
    · rw [if_neg hk]
      exact .inl ⟨hv', hk⟩
  · rintro (⟨hv, hk⟩ | ⟨v', hv', hk, rfl⟩)
    · exact ⟨v, hv, if_neg hk⟩
    · exact ⟨v', hv', if_pos hk⟩

theorem find_eq_some_iff {t : Table key} {k : K} {v : V} :
    t.find k = some v ↔ v ∈ t.entries ∧ key v = k := by
  constructor
  · intro h
    exact ⟨List.mem_of_find?_eq_some h, by simpa using List.find?_some h⟩
  · rintro ⟨hv, rfl⟩
    cases hfind : t.find (key v) with
    | none => exact absurd (by simp) (List.find?_eq_none.mp hfind v hv)
    | some v' =>
        have hkey : key v' = key v := by simpa using List.find?_some hfind
        rw [eq_of_key_eq (List.mem_of_find?_eq_some hfind) hv hkey]

/-- The entry at the key of a rewrite is the rewritten one. -/
theorem find_modify {t : Table key} {k : K} {f : V → V} (hf) {v : V} (h : t.find k = some v) :
    (t.modify k f hf).find k = some (f v) := by
  obtain ⟨hv, hkey⟩ := find_eq_some_iff.mp h
  exact find_eq_some_iff.mpr ⟨(mem_modify hf).mpr (.inr ⟨v, hv, hkey, rfl⟩), hf v hkey⟩

/-- Where the entry at a key is known, the rewrite has its new value and the other entries. -/
theorem mem_modify_of_find {t : Table key} {k : K} {f : V → V} (hf) {v w : V}
    (h : t.find k = some v) :
    w ∈ (t.modify k f hf).entries ↔ w = f v ∨ (w ∈ t.entries ∧ key w ≠ k) := by
  obtain ⟨hv, hkey⟩ := find_eq_some_iff.mp h
  rw [mem_modify, or_comm]
  constructor
  · rintro (⟨v₀, hv₀, hkey₀, rfl⟩ | hother)
    · rw [eq_of_key_eq hv₀ hv (hkey₀.trans hkey.symm)]
      exact .inl rfl
    · exact .inr hother
  · rintro (rfl | hother)
    · exact .inl ⟨v, hv, hkey, rfl⟩
    · exact .inr hother

theorem find_eq_none_iff {t : Table key} {k : K} :
    t.find k = none ↔ ∀ v ∈ t.entries, key v ≠ k := by
  simp [find, List.find?_eq_none]

@[simp] theorem isSome_find_iff {t : Table key} {k : K} :
    (t.find k).isSome ↔ ∃ v ∈ t.entries, key v = k := by
  simp [find, List.find?_isSome]

@[simp] theorem mem_insertIgnore {t : Table key} {v v' : V} :
    v ∈ (t.insertIgnore v').entries ↔
      v ∈ t.entries ∨ v = v' ∧ ∀ u ∈ t.entries, key u ≠ key v' := by
  unfold insertIgnore
  split
  · rename_i htaken
    obtain ⟨u, hu, hkey⟩ := isSome_find_iff.mp htaken
    exact ⟨.inl, fun h => h.elim id fun hnew => absurd hkey (hnew.2 u hu)⟩
  · rename_i hfree
    have hother : ∀ u ∈ t.entries, key u ≠ key v' := fun u hu hkey =>
      hfree (isSome_find_iff.mpr ⟨u, hu, hkey⟩)
    rw [mem_insert]
    constructor
    · rintro (rfl | ⟨hv, -⟩)
      · exact .inr ⟨rfl, hother⟩
      · exact .inl hv
    · rintro (hv | ⟨rfl, -⟩)
      · exact .inr ⟨hv, hother v hv⟩
      · exact .inl rfl

theorem find_insert (t : Table key) (v : V) (k : K) :
    (t.insert v).find k = if k = key v then some v else t.find k := by
  by_cases hk : k = key v
  · rw [if_pos hk]
    exact find_eq_some_iff.mpr ⟨mem_insert.mpr (.inl rfl), hk.symm⟩
  · rw [if_neg hk]
    refine Option.ext fun v' => ?_
    rw [find_eq_some_iff, find_eq_some_iff, mem_insert]
    constructor
    · rintro ⟨rfl | ⟨hmem, -⟩, hkey⟩
      · exact absurd hkey.symm hk
      · exact ⟨hmem, hkey⟩
    · rintro ⟨hmem, rfl⟩
      exact ⟨.inr ⟨hmem, hk⟩, rfl⟩

theorem find_erase (t : Table key) (gone k : K) :
    (t.erase gone).find k = if k = gone then none else t.find k := by
  by_cases hk : k = gone
  · rw [if_pos hk]
    refine find_eq_none_iff.mpr fun v hv hkey => ?_
    exact (mem_erase.mp hv).2 (hkey.trans hk)
  · rw [if_neg hk]
    refine Option.ext fun v => ?_
    rw [find_eq_some_iff, find_eq_some_iff, mem_erase]
    constructor
    · rintro ⟨⟨hmem, -⟩, hkey⟩
      exact ⟨hmem, hkey⟩
    · rintro ⟨hmem, rfl⟩
      exact ⟨⟨hmem, hk⟩, rfl⟩

theorem find_modify_eq (t : Table key) (place : K) (f : V → V) (hf) (k : K) :
    (t.modify place f hf).find k = if k = place then (t.find k).map f else t.find k := by
  by_cases hk : k = place
  · subst hk
    rw [if_pos rfl]
    cases hfind : t.find k with
    | some v => exact find_modify hf hfind
    | none =>
        refine find_eq_none_iff.mpr fun v hv hkey => ?_
        rcases (mem_modify hf).mp hv with ⟨-, hne⟩ | ⟨v', hv', hkey', rfl⟩
        · exact hne hkey
        · exact find_eq_none_iff.mp hfind v' hv' hkey'
  · rw [if_neg hk]
    refine Option.ext fun v => ?_
    rw [find_eq_some_iff, find_eq_some_iff, mem_modify]
    constructor
    · rintro ⟨⟨hmem, -⟩ | ⟨v', hv', hkey', rfl⟩, hkey⟩
      · exact ⟨hmem, hkey⟩
      · exact absurd (hkey.symm.trans (hf v' hkey')) hk
    · rintro ⟨hmem, rfl⟩
      exact ⟨.inl ⟨hmem, hk⟩, rfl⟩

/-- A list of values inserted, none over a taken key: each key has the first value for it. -/
theorem mem_foldl_insertIgnore {t : Table key} {vs : List V} {v : V} :
    v ∈ (vs.foldl insertIgnore t).entries ↔
      v ∈ t.entries ∨ (∀ u ∈ t.entries, key u ≠ key v) ∧
        vs.find? (fun u => key u == key v) = some v := by
  induction vs generalizing t with
  | nil => simp
  | cons w vs ih =>
      rw [List.foldl_cons, ih, List.find?_cons]
      by_cases hkey : key w = key v
      · rw [beq_iff_eq.mpr hkey]
        simp only [mem_insertIgnore, Option.some.injEq]
        constructor
        · rintro ((hv | ⟨rfl, hfree⟩) | ⟨hfree, -⟩)
          · exact .inl hv
          · exact .inr ⟨hfree, rfl⟩
          · refine .inl (by_contra fun hv => ?_)
            by_cases htaken : ∀ u ∈ t.entries, key u ≠ key w
            · exact hfree w (.inr ⟨rfl, htaken⟩) hkey
            · simp only [not_forall, not_not] at htaken
              obtain ⟨u, hu, huw⟩ := htaken
              exact hfree u (.inl hu) (huw.trans hkey)
        · rintro (hv | ⟨hfree, rfl⟩)
          · exact .inl (.inl hv)
          · exact .inl (.inr ⟨rfl, hfree⟩)
      · rw [beq_eq_false_iff_ne.mpr hkey]
        simp only [mem_insertIgnore]
        constructor
        · rintro ((hv | ⟨rfl, -⟩) | ⟨hfree, hfind⟩)
          · exact .inl hv
          · exact absurd rfl hkey
          · exact .inr ⟨fun u hu => hfree u (.inl hu), hfind⟩
        · rintro (hv | ⟨hfree, hfind⟩)
          · exact .inl (.inl hv)
          · refine .inr ⟨?_, hfind⟩
            rintro u (hu | ⟨rfl, -⟩)
            · exact hfree u hu
            · exact hkey

/-- A list of values with distinct keys, inserted into the empty table, is the table. -/
theorem mem_foldl_insertIgnore_empty {vs : List V} (h : (vs.map key).Nodup) {v : V} :
    v ∈ (vs.foldl insertIgnore (empty : Table key)).entries ↔ v ∈ vs := by
  rw [mem_foldl_insertIgnore]
  have hfind : vs.find? (fun u => key u == key v) = some v ↔ v ∈ vs ∧ key v = key v :=
    find_eq_some_iff (t := ⟨vs, h⟩)
  rw [hfind]
  simp

/-- A rewrite that leaves the entry at its key as it is changes nothing. -/
theorem modify_eq_self {t : Table key} {k : K} {f : V → V} (hf)
    (h : ∀ v ∈ t.entries, key v = k → f v = v) : t.modify k f hf = t := by
  refine ext ((List.map_congr_left fun v hv => ?_).trans (List.map_id _))
  by_cases hk : key v = k
  · rw [if_pos hk, h v hv hk]
    rfl
  · rw [if_neg hk]
    rfl

theorem size_insert_le (t : Table key) (v : V) : (t.insert v).size ≤ t.size + 1 :=
  Nat.succ_le_succ (size_filter_le t _)

/-- An inserted value counts if it passes the test, whatever it replaces. -/
theorem count_insert_le (t : Table key) (v : V) (p : V → Bool) :
    (t.insert v).count p ≤ t.count p + if p v then 1 else 0 := by
  change (v :: (t.erase (key v)).entries).countP p ≤ _
  rw [List.countP_cons]
  exact Nat.add_le_add_right (count_filter_le t _ p) _

@[simp] theorem size_modify (t : Table key) (k : K) (f : V → V) (hf) :
    (t.modify k f hf).size = t.size := List.length_map _

/-- At most one entry is at a key. -/
theorem count_key_le_one (t : Table key) (k : K) : (t.count fun v => key v == k) ≤ 1 := by
  have hcount : (t.count fun v => key v == k) = (t.entries.map key).count k := by
    rw [List.count_eq_countP, List.countP_map]
    rfl
  rw [hcount]
  exact List.nodup_iff_count_le_one.mp t.distinct k

@[simp] theorem mem_eraseAll {t : Table key} {ks : List K} {v : V} :
    v ∈ (t.eraseAll ks).entries ↔ v ∈ t.entries ∧ key v ∉ ks := by
  induction ks generalizing t with
  | nil => simp [eraseAll]
  | cons k ks ih =>
      change v ∈ ((t.erase k).eraseAll ks).entries ↔ _
      rw [ih, mem_erase, List.mem_cons, not_or, and_assoc]

/-- One entry less. -/
theorem size_erase_add_one {t : Table key} {v : V} (hv : v ∈ t.entries) :
    (t.erase (key v)).size + 1 = t.size := by
  have hone : (t.count fun v' => key v' == key v) = 1 := by
    refine Nat.le_antisymm (count_key_le_one t (key v)) ?_
    exact List.countP_pos_iff.mpr ⟨v, hv, beq_self_eq_true _⟩
  have hsplit := List.length_eq_countP_add_countP (fun v' => key v' == key v) (l := t.entries)
  have hrest : (t.erase (key v)).size = t.entries.countP fun v' => !(key v' == key v) :=
    List.countP_eq_length_filter.symm
  simp only [decide_not, Bool.decide_eq_true] at hsplit
  rw [hrest, size, hsplit, Nat.add_comm]
  exact congrArg (· + _) hone.symm

/-- One entry less for each key that is taken. -/
theorem size_eraseAll_add_length {t : Table key} {ks : List K} (hnodup : ks.Nodup)
    (htaken : ∀ k ∈ ks, ∃ v ∈ t.entries, key v = k) :
    (t.eraseAll ks).size + ks.length = t.size := by
  induction ks generalizing t with
  | nil => rfl
  | cons k ks ih =>
      obtain ⟨v, hv, rfl⟩ := htaken k (List.mem_cons_self ..)
      obtain ⟨hk, hks⟩ := List.nodup_cons.mp hnodup
      have hrest : ((t.erase (key v)).eraseAll ks).size + ks.length = (t.erase (key v)).size := by
        refine ih hks fun k' hk' => ?_
        obtain ⟨v', hv', rfl⟩ := htaken k' (List.mem_cons_of_mem _ hk')
        exact ⟨v', mem_erase.mpr ⟨hv', fun heq => hk (heq ▸ hk')⟩, rfl⟩
      rw [← size_erase_add_one hv, ← hrest]
      rfl

/-- After a rewrite, an entry passes the test as one of the others or as the rewritten one. -/
theorem count_modify_le_add (t : Table key) (k : K) (f : V → V) (hf) (p : V → Bool) :
    (t.modify k f hf).count p ≤
      (t.count fun v => p v && key v != k) + t.count fun v => key v == k && p (f v) := by
  rw [modify, count_map]
  simp only [count]
  induction t.entries with
  | nil => simp
  | cons v vs ih =>
      simp only [List.countP_cons]
      by_cases hk : key v = k
      · simp only [hk, if_true, beq_self_eq_true, Bool.true_and, bne_self_eq_false,
          Bool.and_false, Bool.false_eq_true, if_false]
        omega
      · simp only [if_neg hk, bne_iff_ne.mpr hk, Bool.and_true, beq_eq_false_iff_ne.mpr hk,
          Bool.false_and, Bool.false_eq_true, if_false]
        omega

end Keyed

end Table

end ArmaraOS.Lib
