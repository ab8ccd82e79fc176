import Mathlib.Data.List.Infix
import Mathlib.Algebra.BigOperators.Group.List.Basic
import Mathlib.Algebra.Ring.Int.Defs

/-!
Replacing the occurrences of a pattern by a text that no pattern can share a part of.

Occurrences are read up to a normal form of the elements, such as lower case. A replacement is
foreign to a pattern if no occurrence of it can lie in the replacement or overlap one of its ends.
What replaces a pattern then creates no occurrence of a foreign one, and moves those that stay
only along with what stands around them.
-/

namespace ArmaraOS.Lib

variable {α : Type}

/-! ### Foreign replacements -/

/-- No occurrence of `pat` starts in `repl`, or reaches into it from the front. -/
structure Foreign (repl pat : List α) : Prop where
  from_inside : ∀ i < repl.length, ¬ pat <+: repl.drop i ∧ ¬ repl.drop i <+: pat
  from_front : ∀ j < pat.length, 0 < j → ¬ pat.drop j <+: repl ∧ ¬ repl <+: pat.drop j

instance decidableForeign [DecidableEq α] (repl pat : List α) : Decidable (Foreign repl pat) :=
  decidable_of_iff ((∀ i < repl.length, ¬ pat <+: repl.drop i ∧ ¬ repl.drop i <+: pat) ∧
      ∀ j < pat.length, 0 < j → ¬ pat.drop j <+: repl ∧ ¬ repl <+: pat.drop j)
    ⟨fun h => ⟨h.1, h.2⟩, fun h => ⟨h.1, h.2⟩⟩

/-- An occurrence lies in front of a foreign replacement or behind it. -/
theorem Foreign.apart {repl pat front behind : List α} (h : Foreign repl pat) {k : Nat}
    (hpat : pat <+: (front ++ (repl ++ behind)).drop k) :
    (k + pat.length ≤ front.length ∧ pat <+: front.drop k) ∨
      ∃ j, k = front.length + repl.length + j ∧ pat <+: behind.drop j := by
  rcases Nat.lt_or_ge k front.length with hk | hk
  · left
    rw [List.drop_append_of_le_length (Nat.le_of_lt hk)] at hpat
    rcases Nat.lt_or_ge front.length (k + pat.length) with hover | hin
    · exfalso
      -- The occurrence reaches into the replacement.
      obtain ⟨rest, hrest⟩ := hpat
      have hj : front.length - k < pat.length := by omega
      have htail : pat.drop (front.length - k) ++ rest = repl ++ behind := by
        have hdrop := congrArg (List.drop (front.length - k)) hrest
        rw [List.drop_append_of_le_length (Nat.le_of_lt hj),
          List.drop_left' (List.length_drop)] at hdrop
        exact hdrop
      have hnot := h.from_front (front.length - k) hj (by omega)
      have hpre : repl <+: pat.drop (front.length - k) ++ rest := ⟨behind, htail.symm⟩
      rcases List.prefix_or_prefix_of_prefix hpre (List.prefix_append _ rest) with hin | hout
      · exact hnot.2 hin
      · exact hnot.1 hout
    · refine ⟨hin, List.prefix_of_prefix_length_le hpat (List.prefix_append _ _) ?_⟩
      rw [List.length_drop]
      omega
  · obtain ⟨i, rfl⟩ := Nat.exists_eq_add_of_le hk
    rw [← List.drop_drop, List.drop_left] at hpat
    rcases Nat.lt_or_ge i repl.length with hi | hi
    · exfalso
      rw [List.drop_append_of_le_length (Nat.le_of_lt hi)] at hpat
      have hnot := h.from_inside i hi
      rcases List.prefix_or_prefix_of_prefix hpat (List.prefix_append _ behind) with hin | hout
      · exact hnot.1 hin
      · exact hnot.2 hout
    · obtain ⟨j, rfl⟩ := Nat.exists_eq_add_of_le hi
      rw [← List.drop_drop, List.drop_left] at hpat
      exact .inr ⟨j, by omega, hpat⟩

/-- An occurrence does not reach over an element that the pattern does not have. -/
theorem infix_of_separator {pat front behind : List α} {a : α} (ha : a ∉ pat)
    (h : pat <:+: front ++ a :: behind) : pat <:+: front ∨ pat <:+: behind := by
  induction front with
  | nil =>
      rw [List.nil_append, List.infix_cons_iff] at h
      rcases h with hpre | hin
      · cases pat with
        | nil => exact .inl List.infix_rfl
        | cons p pat =>
            obtain ⟨rfl, -⟩ := List.cons_prefix_cons.mp hpre
            exact absurd List.mem_cons_self ha
      · exact .inr hin
  | cons b front ih =>
      rw [List.cons_append, List.infix_cons_iff] at h
      rcases h with hpre | hin
      · left
        rw [← List.cons_append] at hpre
        rcases List.prefix_or_prefix_of_prefix hpre (List.prefix_append _ _) with hin | hout
        · exact hin.isInfix
        · obtain ⟨rest, rfl⟩ := hout
          rw [List.prefix_append_right_inj] at hpre
          cases rest with
          | nil => simp
          | cons c rest =>
              obtain ⟨rfl, -⟩ := List.cons_prefix_cons.mp hpre
              exact absurd (List.mem_append_right _ List.mem_cons_self) ha
      · exact (ih hin).imp (fun hfront => hfront.trans (List.suffix_cons b front).isInfix) id

/-! ### Replacing -/

variable (norm : α → α) (pat repl : List α)

/-- `Excised text out`: in `out` each occurrence of the pattern in `text`, from the left, is
replaced. -/
inductive Excised : List α → List α → Prop
  | plain {text : List α} : ¬ pat <:+: text.map norm → Excised text text
  | found {front found back out : List α} :
      found.map norm = pat →
      (∀ i < front.length, ¬ pat <+: ((front ++ (found ++ back)).drop i).map norm) →
      Excised back out → Excised (front ++ (found ++ back)) (front ++ (repl ++ out))

theorem infix_iff_exists_drop {xs : List α} : pat <:+: xs ↔ ∃ k, pat <+: xs.drop k := by
  constructor
  · rintro ⟨front, back, rfl⟩
    refine ⟨front.length, back, ?_⟩
    rw [List.append_assoc, List.drop_left]
  · rintro ⟨k, hpre⟩
    exact hpre.isInfix.trans (List.drop_suffix k xs).isInfix

variable {norm pat repl}

/-- A text with the pattern has a first occurrence of it. -/
theorem exists_found {text : List α} (h : pat <:+: text.map norm) :
    ∃ front found back, text = front ++ (found ++ back) ∧ found.map norm = pat ∧
      ∀ i < front.length, ¬ pat <+: ((front ++ (found ++ back)).drop i).map norm := by
  induction text with
  | nil =>
      obtain rfl := List.infix_nil.mp h
      exact ⟨[], [], [], rfl, rfl, fun i hi => absurd hi (Nat.not_lt_zero i)⟩
  | cons a text ih =>
      by_cases hstart : pat <+: (a :: text).map norm
      · refine ⟨[], (a :: text).take pat.length, (a :: text).drop pat.length, ?_, ?_, ?_⟩
        · rw [List.nil_append, List.take_append_drop]
        · rw [List.map_take]
          exact (List.prefix_iff_eq_take.mp hstart).symm
        · exact fun i hi => absurd hi (Nat.not_lt_zero i)
      · rw [List.map_cons, List.infix_cons_iff, ← List.map_cons, or_iff_right hstart] at h
        obtain ⟨front, found, back, rfl, hfound, hfirst⟩ := ih h
        refine ⟨a :: front, found, back, rfl, hfound, fun i hi => ?_⟩
        cases i with
        | zero => exact hstart
        | succ i => exact hfirst i (Nat.lt_of_succ_lt_succ hi)

/-- The pattern is gone. -/
theorem Excised.not_infix {text out : List α} (h : Excised norm pat repl text out)
    (hpat : pat ≠ []) (hforeign : Foreign (repl.map norm) pat) : ¬ pat <:+: out.map norm := by
  induction h with
  | plain hplain => exact hplain
  | @found front found back out hfound hfirst _ ih =>
      rw [infix_iff_exists_drop]
      rintro ⟨k, hk⟩
      rw [List.map_append, List.map_append] at hk
      rcases hforeign.apart hk with ⟨hin, hpre⟩ | ⟨j, -, hpre⟩
      · rw [List.length_map] at hin
        have hpos := List.length_pos_iff.mpr hpat
        refine hfirst k (by omega) ?_
        rw [List.drop_append_of_le_length (by omega), List.map_append, List.map_drop]
        exact hpre.trans (List.prefix_append _ _)
      · exact ih (infix_iff_exists_drop _ |>.mpr ⟨j, hpre⟩)

/-- An occurrence of a foreign pattern was there before, behind text of the same weight. -/
theorem Excised.exists_start {text out other : List α} (h : Excised norm pat repl text out)
    (hforeign : Foreign (repl.map norm) other) {weight : α → Int}
    (hrepl : (repl.map weight).sum = 0)
    (hpat : ∀ found : List α, found.map norm = pat → (found.map weight).sum = 0)
    {k : Nat} (hk : other <+: (out.drop k).map norm) :
    ∃ k', other <+: (text.drop k').map norm ∧
      ((text.take k').map weight).sum = ((out.take k).map weight).sum := by
  induction h generalizing k with
  | plain _ => exact ⟨k, hk, rfl⟩
  | @found front found back out hfound _ _ ih =>
      rw [List.map_drop, List.map_append, List.map_append] at hk
      rcases hforeign.apart hk with ⟨hin, hpre⟩ | ⟨j, hj, hpre⟩
      · rw [List.length_map] at hin
        refine ⟨k, ?_, ?_⟩
        · rw [List.drop_append_of_le_length (by omega), List.map_append, List.map_drop]
          exact hpre.trans (List.prefix_append _ _)
        · rw [List.take_append_of_le_length (by omega), List.take_append_of_le_length (by omega)]
      · rw [List.length_map, List.length_map] at hj
        rw [← List.map_drop] at hpre
        obtain ⟨k', hstart, hweight⟩ := ih hpre
        refine ⟨front.length + found.length + k', ?_, ?_⟩
        · rw [← List.append_assoc, ← List.length_append, ← List.drop_drop, List.drop_left]
          exact hstart
        · have htake : ∀ (a b c : List α) (n : Nat),
              (a ++ (b ++ c)).take (a.length + b.length + n) = a ++ (b ++ c.take n) := by
            intro a b c n
            rw [← List.append_assoc, ← List.length_append, List.take_length_add_append,
              List.append_assoc]
          rw [hj, htake, htake]
          simp only [List.map_append, List.sum_append, hweight, hrepl, hpat found hfound]

end ArmaraOS.Lib
