import Mathlib.Data.List.Basic
import Mathlib.Data.List.Nodup

/-!
The first element of a kind in a list that was sorted by rank.

A stable sort keeps the order of equal ranks. So the element that is found first is the one that
no earlier element of the kind equals in rank and no later one outranks; and what is taken from
the front outranks nothing that stays behind. Taking elements out before the sort or after it leaves
the same.
-/

namespace ArmaraOS.Lib

variable {α : Type} {le : α → α → Bool} {p : α → Bool} {x y : α}

/-- An element of the kind is found exactly if nothing of the kind stands before it. -/
theorem find?_split_iff {before after : List α} (hp : p x = true) (hx : x ∉ before) :
    (before ++ x :: after).find? p = some x ↔ ∀ a ∈ before, p a = false := by
  rw [List.find?_append, List.find?_cons_of_pos hp]
  cases hbefore : before.find? p with
  | none => simpa using List.find?_eq_none.mp hbefore
  | some b =>
      have hmem := List.mem_of_find?_eq_some hbefore
      have hpb := List.find?_some hbefore
      constructor
      · intro h
        obtain rfl := Option.some.inj h
        exact absurd hmem hx
      · intro h
        rw [h b hmem] at hpb
        cases hpb

/-- What stands before `x` in some sublist stands before it in the list, if nothing is repeated. -/
theorem mem_before_of_sublist {before after : List α} (hnodup : (before ++ x :: after).Nodup)
    (hne : y ≠ x) (h : [y, x].Sublist (before ++ x :: after)) : y ∈ before := by
  induction before with
  | nil =>
      have htail := List.Sublist.of_cons_of_ne hne h
      have hx : x ∈ after := htail.subset (by simp)
      exact absurd hx (List.nodup_cons.mp hnodup).1
  | cons b before ih =>
      by_cases hb : y = b
      · simp [hb]
      · have htail := List.Sublist.of_cons_of_ne hb h
        exact List.mem_cons_of_mem _ (ih (List.nodup_cons.mp hnodup).2 htail)

/-- Where the ranks of the elements before `x` and behind it leave `x` the first of its kind. -/
theorem find?_mergeSort_iff (trans : ∀ a b c, le a b → le b c → le a c)
    (total : ∀ a b, le a b || le b a) {front back : List α}
    (hnodup : (front ++ x :: back).Nodup) (hp : p x = true) :
    ((front ++ x :: back).mergeSort le).find? p = some x ↔
      (∀ y ∈ front, p y = true → le y x = false) ∧ ∀ y ∈ back, p y = true → le x y = true := by
  have hperm := List.mergeSort_perm (front ++ x :: back) le
  have hsorted := List.pairwise_mergeSort trans total (front ++ x :: back)
  have hnodup' := hperm.nodup_iff.mpr hnodup
  have hfront : x ∉ front := fun hx =>
    (List.nodup_append.mp hnodup).2.2 x hx x (by simp) rfl
  have hback : x ∉ back := (List.nodup_cons.mp (List.nodup_append.mp hnodup).2.1).1
  have hmem : ∀ {a}, a ∈ (front ++ x :: back).mergeSort le ↔ a ∈ front ++ x :: back :=
    hperm.mem_iff
  have hpair : ∀ {a b}, le a b = true → [a, b].Sublist (front ++ x :: back) →
      [a, b].Sublist ((front ++ x :: back).mergeSort le) :=
    fun hab h => List.pair_sublist_mergeSort trans total hab h
  obtain ⟨before, after, hsplit⟩ := List.append_of_mem (hmem.mpr (by simp : x ∈ front ++ x :: back))
  rw [hsplit] at hsorted hnodup' hpair ⊢
  have hbefore : x ∉ before := fun hx =>
    (List.nodup_append.mp hnodup').2.2 x hx x (by simp) rfl
  rw [find?_split_iff hp hbefore]
  constructor
  · intro h
    refine ⟨fun y hy hpy => ?_, fun y hy hpy => ?_⟩
    · by_contra hle
      have hsub : [y, x].Sublist (front ++ x :: back) := by
        obtain ⟨s, t, rfl⟩ := List.append_of_mem hy
        simp
      have hyx : y ≠ x := fun hyx => hfront (hyx ▸ hy)
      have hin := mem_before_of_sublist hnodup' hyx (hpair (by simpa using hle) hsub)
      simp [h y hin] at hpy
    · by_contra hle
      have hyx : y ≠ x := fun hyx => hback (hyx ▸ hy)
      have hin : y ∈ before ++ x :: after := hsplit ▸ hmem.mpr (by simp [hy])
      rcases List.mem_append.mp hin with hin | hin
      · simp [h y hin] at hpy
      · rcases List.mem_cons.mp hin with hin | hin
        · exact hyx hin
        · exact hle (List.rel_of_pairwise_cons (List.pairwise_append.mp hsorted).2.1 hin)
  · rintro ⟨hearly, hlate⟩ a ha
    by_contra hpa
    rw [Bool.not_eq_false] at hpa
    have hax : a ≠ x := fun hax => hbefore (hax ▸ ha)
    have hin : a ∈ front ++ x :: back := hmem.mp (hsplit ▸ by simp [ha])
    rcases List.mem_append.mp hin with hin | hin
    · have hle := (List.pairwise_append.mp hsorted).2.2 a ha x (by simp)
      simp [hearly a hin hpa] at hle
    · have hin := List.mem_of_ne_of_mem hax hin
      have hsub : [x, a].Sublist (front ++ x :: back) := by
        obtain ⟨s, t, rfl⟩ := List.append_of_mem hin
        simp
      have hafter := hpair (hlate a hin hpa) hsub
      obtain ⟨s, t, rfl⟩ := List.append_of_mem ha
      have hrev : x ∈ s := mem_before_of_sublist (x := a) (y := x)
        (by simpa using hnodup' : (s ++ a :: (t ++ x :: after)).Nodup) hax.symm
        (by simpa using hafter)
      exact hbefore (by simp [hrev])

/-- What is among the first of a sorted list is outranked by nothing that is not. -/
theorem le_of_mem_take_mergeSort (trans : ∀ a b c, le a b → le b c → le a c)
    (total : ∀ a b, le a b || le b a) {l : List α} {n : Nat} (hx : x ∈ (l.mergeSort le).take n)
    (hy : y ∈ l) (hy' : y ∉ (l.mergeSort le).take n) : le x y = true := by
  have hsorted := List.pairwise_mergeSort trans total l
  have hmem : y ∈ l.mergeSort le := List.mem_mergeSort.mpr hy
  rw [← List.take_append_drop n (l.mergeSort le)] at hsorted hmem
  have hdrop := (List.mem_append.mp hmem).resolve_left hy'
  exact (List.pairwise_append.mp hsorted).2.2 x hx y hdrop

/-! ### What a filter leaves of it -/

/-- A list cut in two where a test holds of the first part only is cut there. -/
theorem eq_of_append_eq_append {before before' after after' : List α}
    (h : before ++ after = before' ++ after') (hbefore : ∀ a ∈ before, p a = true)
    (hbefore' : ∀ a ∈ before', p a = true) (hafter : ∀ a ∈ after, p a = false)
    (hafter' : ∀ a ∈ after', p a = false) : before = before' ∧ after = after' := by
  have hfirst : before = before' := by
    have hfilter := congrArg (List.filter p) h
    rwa [List.filter_append, List.filter_append, List.filter_eq_self.mpr hbefore,
      List.filter_eq_self.mpr hbefore', List.filter_eq_nil_iff.mpr (by simpa using hafter),
      List.filter_eq_nil_iff.mpr (by simpa using hafter'), List.append_nil,
      List.append_nil] at hfilter
  rw [hfirst] at h
  exact ⟨hfirst, List.append_cancel_left h⟩

/-- A stable sort does not look at what a filter would take out. -/
theorem filter_mergeSort (trans : ∀ a b c, le a b → le b c → le a c)
    (total : ∀ a b, le a b || le b a) (p : α → Bool) (l : List α) :
    (l.mergeSort le).filter p = (l.filter p).mergeSort le := by
  induction l with
  | nil => simp
  | cons a l ih =>
      obtain ⟨before, after, hcons, hl, hfirst⟩ := List.mergeSort_cons trans total a l
      rw [hcons, List.filter_append]
      rw [hl, List.filter_append] at ih
      cases ha : p a with
      | false =>
          rw [List.filter_cons_of_neg (by simp [ha]), List.filter_cons_of_neg (by simp [ha]), ih]
      | true =>
          rw [List.filter_cons_of_pos ha, List.filter_cons_of_pos ha]
          obtain ⟨before', after', hcons', hl', hfirst'⟩ :=
            List.mergeSort_cons trans total a (l.filter p)
          have hsorted := List.pairwise_mergeSort trans total (a :: l)
          have hsorted' := List.pairwise_mergeSort trans total (a :: l.filter p)
          rw [hcons, List.pairwise_append] at hsorted
          rw [hcons', List.pairwise_append] at hsorted'
          -- `a` stands before exactly what it does not come behind.
          have hcut := @eq_of_append_eq_append α (fun b => !le a b) _ _ _ _ (ih.trans hl')
            (fun b hb => hfirst b (List.mem_filter.mp hb).1) hfirst'
            (fun b hb => by
              simp [List.rel_of_pairwise_cons hsorted.2.1 (List.mem_filter.mp hb).1])
            (fun b hb => by simp [List.rel_of_pairwise_cons hsorted'.2.1 hb])
          rw [hcons', hcut.1, hcut.2]

/-- What a filter leaves of the first `n` elements are the first that it leaves. -/
theorem filter_take (p : α → Bool) (n : Nat) (l : List α) :
    (l.take n).filter p = (l.filter p).take ((l.take n).countP p) := by
  have hfirst : (l.take n).filter p <+: l.filter p := (List.take_prefix n l).filter p
  rw [List.countP_eq_length_filter]
  exact List.prefix_iff_eq_take.mp hfirst

end ArmaraOS.Lib
