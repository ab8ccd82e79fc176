import ArmaraOS.Types.Capability
import Mathlib.Data.List.Chain

/-!
Capabilities along a chain of spawns.

The check at a spawn matches the pattern of a child as plain text against the patterns of
its parent. For a parent pattern with at most one star this is sound: the pattern names the
texts between two affixes, and it matches the text of another such pattern only if the
affixes of the child extend its own. A pattern with two stars or more matches no text
without stars, and still accepts a child pattern that contains its tail: behind a `**`, any
pattern that ends in a star. Spawns whose children are covered by parent patterns with at most
one star never add a concrete grant.
-/

namespace ArmaraOS.Security

open ArmaraOS.Lib ArmaraOS.Text

/-! ### What a pattern matches -/

theorem stripStar_cons {c : Char} {rest : List Char} (h : c ≠ '*') :
    stripStar (c :: rest) = none := by
  unfold stripStar
  split
  · next heq => exact absurd (List.cons.inj heq).1 h
  · rfl

/-- `strip_suffix('*')` takes the last star off. -/
theorem stripStar_reverse (pattern : List Char) :
    (stripStar pattern.reverse).map List.reverse =
      if pattern.getLast? = some '*' then some pattern.dropLast else none := by
  cases pattern using List.reverseRec with
  | nil => rfl
  | append_singleton front c =>
      rw [List.reverse_append, List.reverse_singleton, List.singleton_append,
        List.getLast?_concat, List.dropLast_concat]
      by_cases hc : c = '*'
      · subst hc
        simp [stripStar]
      · rw [stripStar_cons hc, if_neg fun h => hc (Option.some.inj h)]
        rfl

theorem splitAtStar_of_notMem {pattern : List Char} (h : '*' ∉ pattern) :
    splitAtStar pattern = none := by
  induction pattern with
  | nil => rfl
  | cons c rest ih =>
      have hc : c ≠ '*' := fun heq => h (heq ▸ List.mem_cons_self)
      rw [splitAtStar, if_neg hc, ih fun hmem => h (List.mem_cons_of_mem c hmem)]
      rfl

theorem splitAtStar_append {u v : List Char} (h : '*' ∉ u) :
    splitAtStar (u ++ '*' :: v) = some (u, v) := by
  induction u with
  | nil => rfl
  | cons c rest ih =>
      have hc : c ≠ '*' := fun heq => h (heq ▸ List.mem_cons_self)
      rw [List.cons_append, splitAtStar, if_neg hc,
        ih fun hmem => h (List.mem_cons_of_mem c hmem)]
      rfl

/-- A pattern without stars matches itself alone. -/
theorem globMatchesChars_noStar {pattern value : List Char} (h : '*' ∉ pattern) :
    globMatchesChars pattern value = true ↔ value = pattern := by
  have hone : pattern ≠ ['*'] := by
    rintro rfl
    exact h List.mem_cons_self
  have hfront : stripStar pattern = none := by
    cases pattern with
    | nil => rfl
    | cons c rest => exact stripStar_cons fun heq => h (heq ▸ List.mem_cons_self)
  have hback : stripStar pattern.reverse = none := by
    rw [← Option.map_eq_none_iff (f := List.reverse), stripStar_reverse, if_neg]
    exact fun hlast => h (List.mem_of_getLast? hlast)
  rw [globMatchesChars, if_neg hone, hfront]
  dsimp only
  rw [hback]
  dsimp only
  rw [splitAtStar_of_notMem h]
  by_cases heq : pattern = value
  · simp [heq]
  · simp [heq, Ne.symm heq]

/-- How a pattern with a star is read: without its first character when that is a star, else
without its last when that is a star, else around its first star. -/
theorem globMatchesChars_star {u v value : List Char} (hu : '*' ∉ u) :
    globMatchesChars (u ++ '*' :: v) value = true ↔
      value = u ++ '*' :: v ∨
        if u = [] then v <:+ value
        else if ('*' :: v).getLast? = some '*' then u ++ ('*' :: v).dropLast <+: value
        else Framed Char.utf8Size u v value := by
  by_cases heq : u ++ '*' :: v = value
  · have hself : globMatchesChars (u ++ '*' :: v) value = true := by
      rw [globMatchesChars, if_pos heq, ite_self]
    exact iff_of_true hself (.inl heq.symm)
  · rw [or_iff_right (Ne.symm heq)]
    cases u with
    | nil =>
        cases v with
        | nil => simp [globMatchesChars]
        | cons c v =>
            have hone : [] ++ '*' :: c :: v ≠ ['*'] := by simp
            rw [globMatchesChars, if_neg hone, if_neg heq, if_pos rfl]
            exact List.isSuffixOf_iff_suffix
    | cons c u =>
        have hc : c ≠ '*' := fun heq => hu (heq ▸ List.mem_cons_self)
        have hone : c :: u ++ '*' :: v ≠ ['*'] := by simp
        have hlast := stripStar_reverse (c :: u ++ '*' :: v)
        rw [List.getLast?_append_cons, List.dropLast_append_of_ne_nil (List.cons_ne_nil _ _)]
          at hlast
        rw [globMatchesChars, if_neg hone, if_neg heq, if_neg (List.cons_ne_nil c u),
          List.cons_append, stripStar_cons hc]
        dsimp only
        rw [← List.cons_append]
        by_cases hstar : ('*' :: v).getLast? = some '*'
        · rw [if_pos hstar] at hlast ⊢
          obtain ⟨front, hfront, hrev⟩ := Option.map_eq_some_iff.mp hlast
          rw [hfront]
          dsimp only
          rw [hrev]
          exact List.isPrefixOf_iff_prefix
        · rw [if_neg hstar] at hlast ⊢
          rw [Option.map_eq_none_iff.mp hlast]
          dsimp only
          rw [splitAtStar_append hu]
          simp only [Bool.and_eq_true, List.isPrefixOf_iff_prefix, List.isSuffixOf_iff_suffix,
            decide_eq_true_eq, and_assoc]
          rfl

/-- A pattern with one star matches itself and what is framed by the parts around it. -/
theorem globMatchesChars_oneStar {u v value : List Char} (hu : '*' ∉ u) (hv : '*' ∉ v) :
    globMatchesChars (u ++ '*' :: v) value = true ↔
      value = u ++ '*' :: v ∨ Framed Char.utf8Size u v value := by
  rw [globMatchesChars_star hu]
  cases u with
  | nil => rw [if_pos rfl, framed_nil_left]
  | cons c u =>
      rw [if_neg (List.cons_ne_nil c u)]
      cases v with
      | nil => simp [framed_nil_right]
      | cons d v =>
          rw [if_neg]
          intro hlast
          rw [List.getLast?_cons_cons] at hlast
          exact hv (List.mem_of_getLast? hlast)

/-- A pattern that matches a text without stars has at most one star. -/
theorem count_le_one_of_matches {pattern value : List Char} (hvalue : '*' ∉ value)
    (h : globMatchesChars pattern value = true) : pattern.count '*' ≤ 1 := by
  by_cases hmem : '*' ∈ pattern
  · obtain ⟨u, v, rfl, hu⟩ := List.eq_append_cons_of_mem hmem
    have hv : '*' ∉ v := by
      intro hv
      rcases (globMatchesChars_star hu).mp h with rfl | hrest
      · exact hvalue (by simp)
      · split at hrest
        · exact hvalue (hrest.subset hv)
        · split at hrest
          · refine hvalue (hrest.subset (List.mem_append_right u ?_))
            rw [List.dropLast_cons_of_ne_nil (List.ne_nil_of_mem hv)]
            exact List.mem_cons_self
          · exact hvalue (hrest.2.1.subset hv)
    simp [List.count_eq_zero.mpr hu, List.count_eq_zero.mpr hv]
  · rw [List.count_eq_zero.mpr hmem]
    exact Nat.zero_le 1

/-! ### Passing a match on -/

/-- A pattern with at most one star is without stars or has one between two parts without. -/
theorem star_split {pattern : List Char} (h : pattern.count '*' ≤ 1) :
    '*' ∉ pattern ∨ ∃ u v, pattern = u ++ '*' :: v ∧ '*' ∉ u ∧ '*' ∉ v := by
  by_cases hmem : '*' ∈ pattern
  · obtain ⟨u, v, rfl, hu⟩ := List.eq_append_cons_of_mem hmem
    refine .inr ⟨u, v, rfl, hu, fun hv => ?_⟩
    have hpos := List.count_pos_iff.mpr hv
    rw [List.count_append, List.count_cons_self] at h
    omega
  · exact .inl hmem

/-- What a pattern with at most one star matches of the text of another pattern, it matches
of the texts that the other matches. -/
theorem globMatchesChars_trans {p c value : List Char} (hp : p.count '*' ≤ 1)
    (hpc : globMatchesChars p c = true) (hc : globMatchesChars c value = true) :
    globMatchesChars p value = true := by
  rcases star_split hp with hexact | ⟨u', v', rfl, hu', hv'⟩
  · obtain rfl := (globMatchesChars_noStar hexact).mp hpc
    exact hc
  rcases (globMatchesChars_oneStar hu' hv').mp hpc with heq | hcover
  · exact heq ▸ hc
  by_cases hmem : '*' ∈ c
  · -- the affixes of `p` lie outside the first star of `c`, whatever stars follow it
    obtain ⟨u, v, rfl, hu⟩ := List.eq_append_cons_of_mem hmem
    obtain ⟨hleft, hright⟩ := (framed_around hu' hv').mp hcover
    refine (globMatchesChars_oneStar hu' hv').mpr ?_
    rcases (globMatchesChars_star hu).mp hc with rfl | hrest
    · exact .inr hcover
    split at hrest
    · next hnil =>
        subst hnil
        obtain rfl := List.prefix_nil.mp hleft
        exact .inr (framed_nil_left.mpr (hright.trans hrest))
    · split at hrest
      · next hlast =>
          have hempty : v' = [] := by
            by_contra hne
            have hend := (hright.trans (List.suffix_cons '*' v)).getLast hne
            rw [List.getLast?_eq_some_getLast (List.cons_ne_nil '*' v), ← hend] at hlast
            exact hv' (Option.some.inj hlast ▸ List.getLast_mem hne)
          subst hempty
          exact .inr (framed_nil_right.mpr
            ((hleft.trans (List.prefix_append _ _)).trans hrest))
      · exact .inr (hrest.of_affixes hleft hright)
  · obtain rfl := (globMatchesChars_noStar hmem).mp hc
    exact hpc

/-- A text that a pattern with one star matches, and that another pattern matches only if it
has at most one star and matches the text of the first: put a character that the other does
not use in place of the star. -/
theorem exists_separating {u v : List Char} {a : Char} (hu : '*' ∉ u) (hv : '*' ∉ v)
    (ha : a ≠ '*') :
    '*' ∉ u ++ a :: v ∧ globMatchesChars (u ++ '*' :: v) (u ++ a :: v) = true ∧
      ∀ p, a ∉ p → globMatchesChars p (u ++ a :: v) = true →
        p.count '*' ≤ 1 ∧ globMatchesChars p (u ++ '*' :: v) = true := by
  have hclean : '*' ∉ u ++ a :: v := by
    simp [hu, hv, ha.symm]
  refine ⟨hclean, ?_, ?_⟩
  · refine (globMatchesChars_oneStar hu hv).mpr (.inr ⟨List.prefix_append _ _, ?_, ?_⟩)
    · exact (List.suffix_cons a v).trans (List.suffix_append _ _)
    · rw [room_append, room_cons]
      omega
  · intro p hfresh hmatch
    have hcount := count_le_one_of_matches hclean hmatch
    refine ⟨hcount, ?_⟩
    rcases star_split hcount with hexact | ⟨u', v', rfl, hu', hv'⟩
    · obtain rfl := (globMatchesChars_noStar hexact).mp hmatch
      exact absurd (List.mem_append_right u List.mem_cons_self) hfresh
    · have hfu : a ∉ u' := fun h => hfresh (List.mem_append_left _ h)
      have hfv : a ∉ v' := fun h => hfresh (List.mem_append_right _ (List.mem_cons_of_mem _ h))
      rcases (globMatchesChars_oneStar hu' hv').mp hmatch with heq | hframed
      · exact absurd (heq ▸ List.mem_append_right u' List.mem_cons_self) hclean
      · exact (globMatchesChars_oneStar hu' hv').mpr
          (.inr ((framed_around hu' hv').mpr ((framed_around hfu hfv).mp hframed)))

/-! ### Passing a grant on -/

/-- A grant of the concrete request `r`. -/
def Grants (caps : List Capability) (r : Capability) : Prop :=
  ∃ c ∈ caps, capabilityMatches c r = true

instance (caps : List Capability) (r : Capability) : Decidable (Grants caps r) :=
  inferInstanceAs (Decidable (∃ c ∈ caps, capabilityMatches c r = true))

/-- Every concrete request that `child` grants is one that `parent` grants. -/
def EscalationFree (parent child : List Capability) : Prop :=
  ∀ r : Capability, r.Concrete → Grants child r → Grants parent r

/-- Each child capability whose pattern has exactly one star is covered by a parent
capability whose pattern has at most one. -/
def CoveredSimply (parent child : List Capability) : Prop :=
  ∀ c ∈ child, c.stars = 1 → ∃ p ∈ parent, p.stars ≤ 1 ∧ capabilityMatches p c = true

instance (parent child : List Capability) : Decidable (CoveredSimply parent child) :=
  inferInstanceAs (Decidable (∀ c ∈ child, c.stars = 1 →
    ∃ p ∈ parent, p.stars ≤ 1 ∧ capabilityMatches p c = true))

/-- Some character other than `'*'` occurs in no glob pattern of `caps`. -/
def SparesCharacter (caps : List Capability) : Prop :=
  ∃ a : Char, a ≠ '*' ∧ ∀ c ∈ caps, ∀ scope pattern, c.glob? = some (scope, pattern) →
    a ∉ pattern.toList

theorem concrete_of_matches {c : Capability} {scope : GlobScope} {pattern : String}
    (hc : c.glob? = some (scope, pattern)) {r : Capability} (hr : r.Concrete)
    (hmatch : capabilityMatches c r = true) :
    ∃ value, r = .ofGlob scope value ∧ '*' ∉ value.toList ∧
      globMatchesChars pattern.toList value.toList = true := by
  obtain rfl := Capability.glob?_eq_some.mp hc
  obtain ⟨value, rfl, hvalue⟩ := Capability.matches_ofGlob.mp hmatch
  exact ⟨value, rfl, Capability.concrete_ofGlob.mp hr, hvalue⟩

/-- A capability with at most one star in its pattern grants what it lets a child have. -/
theorem capabilityMatches_trans {p c r : Capability} (hp : p.stars ≤ 1)
    (hpc : capabilityMatches p c = true) (hcr : capabilityMatches c r = true) :
    capabilityMatches p r = true := by
  cases hc : c.glob? with
  | none => exact Capability.matches_trans_of_not_glob hc hpc hcr
  | some found =>
      obtain ⟨scope, pattern⟩ := found
      obtain rfl := Capability.glob?_eq_some.mp hc
      obtain ⟨value, rfl, hmatch⟩ := Capability.matches_ofGlob.mp hcr
      obtain ⟨pattern', rfl, hcover⟩ := Capability.matches_to_glob hpc
      rw [Capability.stars_ofGlob] at hp
      exact Capability.matches_ofGlob.mpr ⟨value, rfl, globMatchesChars_trans hp hcover hmatch⟩

/-- A capability whose pattern has no star grants itself alone of what is concrete. -/
theorem eq_of_matches {c r : Capability} (hc : c.stars = 0) {scope : GlobScope} {pattern : String}
    (hglob : c.glob? = some (scope, pattern)) (hr : r.Concrete)
    (hmatch : capabilityMatches c r = true) : r = c := by
  obtain ⟨value, rfl, -, hvalue⟩ := concrete_of_matches hglob hr hmatch
  obtain rfl := Capability.glob?_eq_some.mp hglob
  rw [Capability.stars_ofGlob, List.count_eq_zero] at hc
  have hchars := (globMatchesChars_noStar hc).mp hvalue
  rw [String.toList_injective hchars]

/-- A validated spawn whose children are covered simply adds no concrete grant. -/
theorem escalationFree_of_coveredSimply {parent child : List Capability}
    (hvalid : validateCapabilityInheritance parent child = .ok ())
    (hcover : CoveredSimply parent child) : EscalationFree parent child := by
  rintro r hr ⟨c, hc, hcr⟩
  cases hglob : c.glob? with
  | none =>
      obtain ⟨p, hp, hpc⟩ := validateCapabilityInheritance_ok.mp hvalid c hc
      exact ⟨p, hp, Capability.matches_trans_of_not_glob hglob hpc hcr⟩
  | some found =>
      obtain ⟨scope, pattern⟩ := found
      have hstars : c.stars ≤ 1 := by
        obtain ⟨value, -, hvalue, hmatch⟩ := concrete_of_matches hglob hr hcr
        rw [Capability.stars, hglob]
        exact count_le_one_of_matches hvalue hmatch
      rcases Nat.le_one_iff_eq_zero_or_eq_one.mp hstars with hzero | hone
      · obtain rfl := eq_of_matches hzero hglob hr hcr
        exact validateCapabilityInheritance_ok.mp hvalid r hc
      · obtain ⟨p, hp, hsimple, hpc⟩ := hcover c hc hone
        exact ⟨p, hp, capabilityMatches_trans hsimple hpc hcr⟩

/-- A child that is not covered simply grants something that its parent does not, as long as
the parent's patterns do not use up all characters. -/
theorem coveredSimply_of_escalationFree {parent child : List Capability}
    (hspare : SparesCharacter parent) (hfree : EscalationFree parent child) :
    CoveredSimply parent child := by
  intro c hc hone
  obtain ⟨a, ha, hfresh⟩ := hspare
  cases hglob : c.glob? with
  | none => simp [Capability.stars, hglob] at hone
  | some found =>
      obtain ⟨scope, pattern⟩ := found
      obtain rfl := Capability.glob?_eq_some.mp hglob
      rw [Capability.stars_ofGlob] at hone
      obtain ⟨u, v, heq, hu, hv⟩ : ∃ u v, pattern.toList = u ++ '*' :: v ∧ '*' ∉ u ∧ '*' ∉ v := by
        rcases star_split hone.le with hexact | hsplit
        · rw [List.count_eq_zero.mpr hexact] at hone
          cases hone
        · exact hsplit
      obtain ⟨hclean, hmatch, hsep⟩ := exists_separating (a := a) hu hv ha
      have hvalue : (String.ofList (u ++ a :: v)).toList = u ++ a :: v := String.toList_ofList
      have hgrant : Grants child (.ofGlob scope (String.ofList (u ++ a :: v))) := by
        refine ⟨_, hc, Capability.matches_ofGlob.mpr ⟨_, rfl, ?_⟩⟩
        rw [globMatches, hvalue, heq]
        exact hmatch
      have hconcrete : (Capability.ofGlob scope (String.ofList (u ++ a :: v))).Concrete := by
        rw [Capability.concrete_ofGlob, hvalue]
        exact hclean
      obtain ⟨p, hp, hpr⟩ := hfree _ hconcrete hgrant
      obtain ⟨pattern', rfl, hmatch'⟩ := Capability.matches_to_glob hpr
      rw [globMatches, hvalue] at hmatch'
      obtain ⟨hcount, hcover⟩ := hsep pattern'.toList
        (hfresh _ hp scope pattern' (Capability.glob?_ofGlob scope pattern')) hmatch'
      refine ⟨_, hp, ?_, Capability.matches_ofGlob.mpr ⟨pattern, rfl, ?_⟩⟩
      · rwa [Capability.stars_ofGlob]
      · rwa [globMatches, heq]

/-! ### Spawn chains -/

/-- A spawn that the check let through. -/
def Spawned (parent child : List Capability) : Prop :=
  validateCapabilityInheritance parent child = .ok ()

instance (parent child : List Capability) : Decidable (Spawned parent child) :=
  decidable_of_iff _ validateCapabilityInheritance_ok.symm

theorem EscalationFree.trans {a b c : List Capability} (hab : EscalationFree a b)
    (hbc : EscalationFree b c) : EscalationFree a c :=
  fun r hr hgrant => hab r hr (hbc r hr hgrant)

/-- Down a chain of validated spawns that cover simply there is no escalation from the
root. -/
theorem escalationFree_of_chain {root : List Capability} {chain : List (List Capability)}
    (hspawned : List.IsChain Spawned (root :: chain))
    (hcover : List.IsChain CoveredSimply (root :: chain)) :
    ∀ caps ∈ chain, EscalationFree root caps := by
  induction chain generalizing root with
  | nil => simp
  | cons child rest ih =>
      obtain ⟨hlink, hspawned⟩ := List.isChain_cons_cons.mp hspawned
      obtain ⟨hsimple, hcover⟩ := List.isChain_cons_cons.mp hcover
      have hfree := escalationFree_of_coveredSimply hlink hsimple
      intro caps hcaps
      rcases List.mem_cons.mp hcaps with rfl | hmem
      · exact hfree
      · exact hfree.trans (ih hspawned hcover caps hmem)

/-- **Inheritance adds no concrete grant exactly where it covers simply.** Down a chain of
validated spawns each covering the next simply, no descendant grants a concrete request that
the root does not. A single validated spawn from a parent whose patterns leave some character
unused adds no concrete grant if and only if it covers simply. -/
theorem spawn_chain_escalation_free (root : List Capability) (chain : List (List Capability))
    (hspawned : List.IsChain Spawned (root :: chain)) :
    (List.IsChain CoveredSimply (root :: chain) →
      ∀ caps ∈ chain, EscalationFree root caps) ∧
    ∀ child ∈ chain.head?, SparesCharacter root →
      (EscalationFree root child ↔ CoveredSimply root child) := by
  constructor
  · exact escalationFree_of_chain hspawned
  · intro child hchild hspare
    constructor
    · exact coveredSimply_of_escalationFree hspare
    · intro hcover
      cases chain with
      | nil => simp at hchild
      | cons first rest =>
          obtain rfl : first = child := by simpa using hchild
          exact escalationFree_of_coveredSimply (List.isChain_cons_cons.mp hspawned).1 hcover

theorem spawn_chain_escalation_free_data :
    EscalationFree [.fileRead "/data/*", .toolAll] [.fileRead "/data/in/a.txt", .toolInvoke "*"] :=
  (spawn_chain_escalation_free [.fileRead "/data/*", .toolAll]
    [[.fileRead "/data/in/*", .toolInvoke "*"], [.fileRead "/data/in/a.txt", .toolInvoke "*"]]
    (.cons_cons (by decide +kernel) (.cons_cons (by decide +kernel) (.singleton _)))).1
    (.cons_cons (by decide +kernel) (.cons_cons (by decide +kernel) (.singleton _)))
    _ (by simp)

/-- **A spawn that adds grants.** A parent that may read what matches `**` grants no concrete
path at all, and its child may read everything. -/
theorem inheritance_escalates :
    Spawned [.fileRead "**"] [.fileRead "*"] ∧
      (Capability.fileRead "/etc/shadow").Concrete ∧
      Grants [.fileRead "*"] (.fileRead "/etc/shadow") ∧
      ¬ Grants [.fileRead "**"] (.fileRead "/etc/shadow") := by
  refine ⟨by decide +kernel, ?_, by decide +kernel, by decide +kernel⟩
  rw [show Capability.fileRead "/etc/shadow" = .ofGlob .fileRead "/etc/shadow" from rfl,
    Capability.concrete_ofGlob]
  decide +kernel

end ArmaraOS.Security
