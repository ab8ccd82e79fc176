import ArmaraOS.Lib.ByteSlices
import ArmaraOS.Lib.HoldBack
import Mathlib.Algebra.Ring.Int.Defs

/-!
Looking for an ASCII pattern in the lower case of a text.

Lower case may have another length than the text, in characters and in bytes. A pattern of ASCII
characters that no other character turns into is found in the lower case exactly where it is found
in the text when only its ASCII letters are lowered; how far the two positions are apart in bytes
is the drift of what stands in front.
-/

namespace ArmaraOS.Lib

open Framing ArmaraOS.Text

/-- `str::to_lowercase`: the lower case of each character, and whether a sigma between two texts
ends a word. A character outside ASCII has ASCII in its lower case only where it turns into `k` (the
Kelvin sign) or into `i` and a dot above (the dotted capital I). -/
structure Lowercase where
  char : Char → List Char
  finalSigma : List Char → List Char → Bool
  char_ne : ∀ c, char c ≠ []
  ascii : ∀ c, c.toNat < 128 → char c = [c.toLower]
  folded : ∀ c, 128 ≤ c.toNat → ∀ d ∈ char c, d.toNat < 128 →
    char c = ['k'] ∨ char c = ['i', '\u0307']

namespace Lowercase

variable (lc : Lowercase)

/-- The lower case of a character between two texts. -/
def image (before : List Char) (c : Char) (after : List Char) : List Char :=
  if c = 'Σ' then [if lc.finalSigma before after then 'ς' else 'σ'] else lc.char c

/-- The lower case of a text between two others. -/
def lowerIn (before : List Char) : List Char → List Char → List Char
  | [], _ => []
  | c :: cs, after => lc.image before c (cs ++ after) ++ lowerIn (before ++ [c]) cs after

/-- `str::to_lowercase`. -/
def toLowercase (cs : List Char) : List Char := lc.lowerIn [] cs []

/-! ### One character -/

variable {lc}

theorem toLower_of_not_ascii {c : Char} (h : ¬ c.toNat < 128) : c.toLower = c := by
  refine dif_neg fun hupper => h ?_
  exact Nat.lt_of_le_of_lt (UInt32.le_iff_toNat_le.mp hupper.2) (by decide)

theorem utf8Size_ascii {c : Char} (h : c.toNat < 128) : c.utf8Size = 1 :=
  Char.utf8Size_eq_one_iff.mpr (UInt32.le_iff_toNat_le.mpr (Nat.le_of_lt_succ h))

theorem toLower_ascii {c : Char} (h : c.toNat < 128) : c.toLower.toNat < 128 := by
  by_cases hupper : c.val ≥ 'A'.val ∧ c.val ≤ 'Z'.val
  · have hle : c.toNat ≤ 90 := UInt32.le_iff_toNat_le.mp hupper.2
    have hraised : c.toLower = _ := dif_pos hupper
    have hlower : c.toLower.toNat = (c.toNat + 32) % 2 ^ 32 := by
      rw [hraised]
      rfl
    rw [hlower]
    omega
  · have hsame : c.toLower = c := dif_neg hupper
    rwa [hsame]

theorem ascii_of_toLower {c : Char} (h : c.toLower.toNat < 128) : c.toNat < 128 := by
  by_contra hc
  rw [toLower_of_not_ascii hc] at h
  exact hc h

theorem image_ascii {c : Char} (h : c.toNat < 128) (before after : List Char) :
    lc.image before c after = [c.toLower] := by
  have hsigma : c ≠ 'Σ' := by
    rintro rfl
    exact absurd h (by decide)
  rw [image, if_neg hsigma, lc.ascii c h]

variable (lc) in
theorem image_ne (before : List Char) (c : Char) (after : List Char) :
    lc.image before c after ≠ [] := by
  rw [image]
  split
  · exact List.cons_ne_nil _ _
  · exact lc.char_ne c

/-- ASCII in the lower case of another character. -/
theorem image_folded {c : Char} (hc : ¬ c.toNat < 128) {before after : List Char} {d : Char}
    (hd : d ∈ lc.image before c after) (hascii : d.toNat < 128) :
    lc.image before c after = ['k'] ∨ lc.image before c after = ['i', '\u0307'] := by
  rw [image] at hd ⊢
  split at hd
  · rw [List.mem_singleton] at hd
    subst hd
    split at hascii <;> exact absurd hascii (by decide)
  · rename_i hsigma
    rw [if_neg hsigma]
    exact lc.folded c (Nat.not_lt.mp hc) d hd hascii

/-! ### Where a pattern is found -/

/-- A pattern of ASCII that no other character turns into: it has no `k` and does not end with
`i`. -/
structure Plain (pat : List Char) : Prop where
  ascii : ∀ c ∈ pat, c.toNat < 128
  no_k : 'k' ∉ pat
  no_last_i : pat.getLast? ≠ some 'i'

theorem Plain.tail {p : Char} {pat : List Char} (h : Plain (p :: pat)) : Plain pat where
  ascii c hc := h.ascii c (List.mem_cons_of_mem _ hc)
  no_k hk := h.no_k (List.mem_cons_of_mem _ hk)
  no_last_i := by
    cases pat with
    | nil => simp
    | cons q pat => simpa using h.no_last_i

/-- The pattern does not start within the lower case of a character outside ASCII. -/
theorem Plain.not_prefix_image {p : Char} {pat : List Char} (h : Plain (p :: pat)) {c : Char}
    (hc : ¬ c.toNat < 128) (before after : List Char) (rest : List Char) {i : Nat}
    (hi : i < (lc.image before c after).length) :
    ¬ p :: pat <+: (lc.image before c after ++ rest).drop i := by
  intro hpre
  have hp := h.ascii p List.mem_cons_self
  have hdot : ¬ '\u0307'.toNat < 128 := by decide
  have hfold : lc.image before c after = ['k'] ∨ lc.image before c after = ['i', '\u0307'] := by
    rw [List.drop_append_of_le_length (Nat.le_of_lt hi)] at hpre
    cases hdrop : (lc.image before c after).drop i with
    | nil => exact absurd (List.drop_eq_nil_iff.mp hdrop) (Nat.not_le.mpr hi)
    | cons d image =>
        rw [hdrop] at hpre
        obtain ⟨rfl, -⟩ := List.cons_prefix_cons.mp hpre
        refine image_folded hc (List.mem_of_mem_drop (i := i) ?_) hp
        rw [hdrop]
        exact List.mem_cons_self
  rcases hfold with hk | hdotted
  · rw [hk] at hpre hi
    obtain rfl : i = 0 := Nat.lt_one_iff.mp hi
    obtain ⟨rfl, -⟩ := List.cons_prefix_cons.mp hpre
    exact h.no_k List.mem_cons_self
  · rw [hdotted] at hpre hi
    rcases i with _ | _ | i
    · obtain ⟨rfl, hrest⟩ := List.cons_prefix_cons.mp hpre
      cases pat with
      | nil => exact h.no_last_i rfl
      | cons q pat =>
          obtain ⟨rfl, -⟩ := List.cons_prefix_cons.mp hrest
          exact hdot (h.ascii _ (List.mem_cons_of_mem _ List.mem_cons_self))
    · obtain ⟨rfl, -⟩ := List.cons_prefix_cons.mp hpre
      exact hdot hp
    · exact absurd hi (by simp)

theorem occursIn_iff {pat cs : List Char} : occursIn pat cs = true ↔ pat <:+: cs := by
  induction cs with
  | nil => simp [occursIn]
  | cons c cs ih =>
      rw [occursIn, Bool.or_eq_true, List.isPrefixOf_iff_prefix, ih, List.infix_cons_iff]

variable (lc) in
theorem Plain.prefix_lowerIn_iff {pat : List Char} (h : Plain pat) (before cs after : List Char) :
    pat <+: lc.lowerIn before cs after ↔ pat <+: cs.map Char.toLower := by
  induction pat generalizing before cs with
  | nil => simp
  | cons p pat ih =>
      cases cs with
      | nil => simp [lowerIn]
      | cons c cs =>
          rw [lowerIn, List.map_cons, List.cons_prefix_cons]
          by_cases hc : c.toNat < 128
          · rw [image_ascii hc, List.singleton_append, List.cons_prefix_cons, ih h.tail]
          · refine iff_of_false ?_ ?_
            · have hpos := List.length_pos_iff.mpr (image_ne lc before c (cs ++ after))
              exact h.not_prefix_image hc before (cs ++ after) _ hpos
            · rintro ⟨rfl, -⟩
              have hp := h.ascii c.toLower List.mem_cons_self
              exact hc (ascii_of_toLower hp)

variable (lc) in
/-- Where the text does not start with the pattern, the pattern does not start within the lower case
of its first character. -/
theorem Plain.not_prefix_within {pat : List Char} (h : Plain pat) (hne : pat ≠ [])
    (before : List Char) {c : Char} {cs : List Char} (after : List Char)
    (hstart : ¬ pat <+: (c :: cs).map Char.toLower) :
    ∀ i < (lc.image before c (cs ++ after)).length,
      ¬ pat <+: (lc.image before c (cs ++ after) ++
        lc.lowerIn (before ++ [c]) cs after).drop i := by
  intro i hi
  by_cases hc : c.toNat < 128
  · rw [image_ascii hc, List.length_singleton, Nat.lt_one_iff] at hi
    subst hi
    have hwhole := h.prefix_lowerIn_iff lc before (c :: cs) after
    rw [lowerIn] at hwhole
    exact mt hwhole.mp hstart
  · cases pat with
    | nil => exact absurd rfl hne
    | cons p pat => exact h.not_prefix_image hc before (cs ++ after) _ hi

variable (lc) in
/-- The pattern occurs in the lower case where it occurs in the text with its ASCII lowered. -/
theorem Plain.infix_lowerIn_iff {pat : List Char} (h : Plain pat) (hne : pat ≠ [])
    (before cs after : List Char) :
    pat <:+: lc.lowerIn before cs after ↔ pat <:+: cs.map Char.toLower := by
  induction cs generalizing before with
  | nil => rfl
  | cons c cs ih =>
      rw [List.map_cons, List.infix_cons_iff, ← List.map_cons, ← ih (before ++ [c])]
      by_cases hstart : pat <+: (c :: cs).map Char.toLower
      · have hlower := (h.prefix_lowerIn_iff lc before (c :: cs) after).mpr hstart
        exact iff_of_true hlower.isInfix (.inl hstart)
      · have hcut := cutAt_append_of_not_prefix
          (h.not_prefix_within lc hne before after hstart)
        rw [or_iff_right hstart, lowerIn, ← not_iff_not, ← cutAt_eq_none_iff, hcut,
          Option.map_eq_none_iff, cutAt_eq_none_iff]

theorem lowerIn_append (before xs ys after : List Char) :
    lc.lowerIn before (xs ++ ys) after =
      lc.lowerIn before xs (ys ++ after) ++ lc.lowerIn (before ++ xs) ys after := by
  induction xs generalizing before with
  | nil => rw [List.nil_append, lowerIn, List.nil_append, List.append_nil]
  | cons c xs ih =>
      rw [List.cons_append, lowerIn, lowerIn, ih, List.append_assoc, List.append_assoc,
        List.append_assoc]
      rfl

/-- In lower case, ASCII is ASCII again, character by character. -/
theorem lowerIn_ascii {before cs after : List Char} (h : ∀ c ∈ cs, c.toNat < 128) :
    lc.lowerIn before cs after = cs.map Char.toLower := by
  induction cs generalizing before with
  | nil => rfl
  | cons c cs ih =>
      obtain ⟨hc, hcs⟩ := List.forall_mem_cons.mp h
      rw [lowerIn, image_ascii hc, ih hcs]
      rfl

theorem ascii_of_map_toLower {cs pat : List Char} (h : cs.map Char.toLower = pat)
    (hpat : ∀ c ∈ pat, c.toNat < 128) : ∀ c ∈ cs, c.toNat < 128 := by
  rintro c hc
  exact ascii_of_toLower (hpat _ (h ▸ List.mem_map_of_mem hc))

theorem byteLength_ascii {cs : List Char} (h : ∀ c ∈ cs, c.toNat < 128) :
    byteLength cs = cs.length :=
  byteLength_of_ascii fun c hc => utf8Size_ascii (h c hc)

/-- An occurrence of the pattern has as many bytes as the pattern. -/
theorem byteLength_found {found pat : List Char} (hfound : found.map Char.toLower = pat)
    (hpat : ∀ c ∈ pat, c.toNat < 128) : byteLength found = byteLength pat := by
  rw [byteLength_ascii hpat, byteLength_ascii (ascii_of_map_toLower hfound hpat), ← hfound,
    List.length_map]

/-- In lower case an occurrence of the pattern is the pattern. -/
theorem Plain.lowerIn_found {pat : List Char} (h : Plain pat) {found : List Char}
    (hfound : found.map Char.toLower = pat) (before front back after : List Char) :
    lc.lowerIn before (front ++ (found ++ back)) after =
      lc.lowerIn before front (found ++ back ++ after) ++ pat ++
        lc.lowerIn (before ++ front ++ found) back after := by
  rw [lowerIn_append, lowerIn_append, lowerIn_ascii (ascii_of_map_toLower hfound h.ascii), hfound]
  simp only [List.append_assoc]

variable (lc) in
/-- The first occurrence in the lower case is the first one in the text. -/
theorem Plain.cutAt_lowerIn {pat : List Char} (h : Plain pat) (hne : pat ≠ [])
    (before : List Char) {front back : List Char} (after : List Char)
    (hback : pat <+: back.map Char.toLower)
    (hfirst : ∀ i < front.length, ¬ pat <+: ((front ++ back).drop i).map Char.toLower) :
    cutAt pat (lc.lowerIn before (front ++ back) after) =
      some (lc.lowerIn before front (back ++ after),
        (lc.lowerIn (before ++ front) back after).drop pat.length) := by
  induction front generalizing before with
  | nil =>
      obtain ⟨rest, hrest⟩ := (h.prefix_lowerIn_iff lc before back after).mpr hback
      rw [List.nil_append, List.append_nil, lowerIn, ← hrest, List.drop_left, cutAt_prefix hne]
  | cons c front ih =>
      have hstart : ¬ pat <+: (c :: (front ++ back)).map Char.toLower :=
        hfirst 0 (Nat.zero_lt_succ _)
      have hrest := ih (before ++ [c]) fun i hi => hfirst (i + 1) (Nat.succ_lt_succ hi)
      rw [List.cons_append, lowerIn, cutAt_append_of_not_prefix
        (h.not_prefix_within lc hne before after hstart), hrest, lowerIn]
      simp

/-! ### Lengths -/

variable (lc) in
/-- How many bytes more the lower case of a character has than the character. -/
def growth (c : Char) : Int :=
  (if c = 'Σ' then 2 else byteLength (lc.char c) : Nat) - (c.utf8Size : Nat)

variable (lc) in
/-- How many bytes more the lower case of a text has than the text. -/
def drift (cs : List Char) : Int := (cs.map lc.growth).sum

theorem drift_append (xs ys : List Char) : lc.drift (xs ++ ys) = lc.drift xs + lc.drift ys := by
  rw [drift, List.map_append, List.sum_append, drift, drift]

variable (lc) in
theorem byteLength_lowerIn (before cs after : List Char) :
    (byteLength (lc.lowerIn before cs after) : Int) = byteLength cs + lc.drift cs := by
  induction cs generalizing before with
  | nil => rfl
  | cons c cs ih =>
      have himage : byteLength (lc.image before c (cs ++ after)) =
          if c = 'Σ' then 2 else byteLength (lc.char c) := by
        rw [image]
        split
        · split <;> rfl
        · rfl
      have hrest := ih (before ++ [c])
      rw [lowerIn, byteLength_append, himage, byteLength_cons]
      simp only [drift, List.map_cons, List.sum_cons, growth] at hrest ⊢
      omega

theorem growth_ascii {c : Char} (h : c.toNat < 128) : lc.growth c = 0 := by
  have hsigma : c ≠ 'Σ' := by
    rintro rfl
    exact absurd h (by decide)
  have hc : c.utf8Size = 1 := utf8Size_ascii h
  have hlower : c.toLower.utf8Size = 1 := utf8Size_ascii (toLower_ascii h)
  rw [growth, if_neg hsigma, lc.ascii c h, byteLength_cons, hlower, hc]
  rfl

theorem drift_eq_zero {cs : List Char} (h : ∀ c ∈ cs, lc.growth c = 0) : lc.drift cs = 0 := by
  induction cs with
  | nil => rfl
  | cons c cs ih =>
      obtain ⟨hc, hcs⟩ := List.forall_mem_cons.mp h
      have hrest := ih hcs
      rw [drift] at hrest
      rw [drift, List.map_cons, List.sum_cons, hc, hrest]
      rfl

theorem drift_ascii {cs : List Char} (h : ∀ c ∈ cs, c.toNat < 128) : lc.drift cs = 0 :=
  drift_eq_zero fun c hc => growth_ascii (h c hc)

end Lowercase

end ArmaraOS.Lib
