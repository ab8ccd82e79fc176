import Mathlib.Data.List.MinMax
import Mathlib.Data.List.Perm.Basic
import ArmaraOS.Kernel.WorkflowCollects

/-!
The vote of the `Consensus` aggregation.

The votes are counted in a `HashMap` and the winner is the first entry of the largest count, in the
order in which the map is read. That order decides where two answers share the largest count and
the count is enough; it decides nothing else, and the winner always has enough votes and at least
as many as every other answer.
-/

namespace ArmaraOS.Kernel

open ArmaraOS.Lib ArmaraOS.Text

/-! ### The count -/

/-- `counts`. -/
def tally (outputs : List String) : List (String × Nat) := (outputs.map trim).foldl countVote []

/-- The number of outputs that are this answer. -/
def votesFor (outputs : List String) (answer : String) : Nat := (outputs.map trim).count answer

/-- `counts` holds each answer once, with the number of its votes. -/
structure Counts (counts : List (String × Nat)) (votes : List String) : Prop where
  distinct : (counts.map Prod.fst).Nodup
  mem : ∀ answer count, (answer, count) ∈ counts ↔ answer ∈ votes ∧ count = votes.count answer

/-- One more vote. -/
theorem Counts.countVote {counts : List (String × Nat)} {votes : List String}
    (h : Counts counts votes) (key : String) : Counts (countVote counts key) (votes ++ [key]) := by
  have hany : counts.any (·.1 == key) = true ↔ key ∈ votes := by
    rw [List.any_eq_true]
    constructor
    · rintro ⟨⟨answer, count⟩, hmem, hkey⟩
      obtain rfl := of_decide_eq_true hkey
      exact ((h.mem _ _).mp hmem).1
    · exact fun hkey => ⟨(key, votes.count key), (h.mem _ _).mpr ⟨hkey, rfl⟩, by simp⟩
  by_cases hkey : key ∈ votes
  · have hfst : (Kernel.countVote counts key).map Prod.fst = counts.map Prod.fst := by
      rw [Kernel.countVote, if_pos (hany.mpr hkey), List.map_map]
      refine List.map_congr_left ?_
      rintro ⟨k, c⟩ -
      by_cases hk : k = key <;> simp [hk]
    have hdistinct : ((Kernel.countVote counts key).map Prod.fst).Nodup := hfst ▸ h.distinct
    rw [Kernel.countVote, if_pos (hany.mpr hkey)] at hdistinct ⊢
    refine ⟨hdistinct, fun answer count => ?_⟩
    rw [List.mem_map, List.mem_append, List.mem_singleton, List.count_append]
    constructor
    · rintro ⟨⟨k, c⟩, hmem, heq⟩
      obtain ⟨hvotes, rfl⟩ := (h.mem k c).mp hmem
      by_cases hk : k = key
      · subst hk
        obtain ⟨rfl, rfl⟩ : k = answer ∧ votes.count k + 1 = count := by simpa using heq
        exact ⟨.inl hvotes, by simp⟩
      · obtain ⟨rfl, rfl⟩ : k = answer ∧ votes.count k = count := by simpa [hk] using heq
        exact ⟨.inl hvotes, by simp [Ne.symm hk]⟩
    · rintro ⟨hvotes, rfl⟩
      have hvotes' : answer ∈ votes := hvotes.elim id fun heq => heq ▸ hkey
      refine ⟨(answer, votes.count answer), (h.mem _ _).mpr ⟨hvotes', rfl⟩, ?_⟩
      by_cases hk : answer = key
      · simp [hk]
      · simp [hk, Ne.symm hk]
  · rw [Kernel.countVote, if_neg (mt hany.mp hkey)]
    have hfresh : key ∉ counts.map Prod.fst := by
      rw [List.mem_map]
      rintro ⟨⟨k, c⟩, hmem, rfl⟩
      exact hkey ((h.mem k c).mp hmem).1
    refine ⟨?_, fun answer count => ?_⟩
    · rw [List.map_append, List.nodup_append]
      refine ⟨h.distinct, List.nodup_singleton key, fun k hk k' hk' heq => hfresh ?_⟩
      obtain rfl := List.mem_singleton.mp hk'
      exact heq ▸ hk
    · rw [List.mem_append, List.mem_append, List.mem_singleton, List.mem_singleton, h.mem,
        List.count_append, Prod.mk.injEq]
      constructor
      · rintro (⟨hvotes, rfl⟩ | ⟨rfl, rfl⟩)
        · have hne : key ≠ answer := fun heq => hkey (heq ▸ hvotes)
          exact ⟨.inl hvotes, by simp [hne]⟩
        · exact ⟨.inr rfl, by simp [List.count_eq_zero.mpr hkey]⟩
      · rintro ⟨hvotes | rfl, rfl⟩
        · have hne : key ≠ answer := fun heq => hkey (heq ▸ hvotes)
          exact .inl ⟨hvotes, by simp [hne]⟩
        · exact .inr ⟨rfl, by simp [List.count_eq_zero.mpr hkey]⟩

theorem counts_tally (outputs : List String) : Counts (tally outputs) (outputs.map trim) := by
  have hrun : ∀ (votes before : List String) (counts : List (String × Nat)),
      Counts counts before → Counts (votes.foldl countVote counts) (before ++ votes) := by
    intro votes
    induction votes with
    | nil => exact fun before counts h => by simpa using h
    | cons vote votes ih =>
        intro before counts h
        have hrest := ih (before ++ [vote]) _ (h.countVote vote)
        rwa [List.append_assoc] at hrest
  exact hrun (outputs.map trim) [] [] ⟨List.nodup_nil, by simp⟩

theorem mem_tally {outputs : List String} {answer : String} {count : Nat} :
    (answer, count) ∈ tally outputs ↔
      answer ∈ outputs.map trim ∧ count = votesFor outputs answer :=
  (counts_tally outputs).mem answer count

/-- The scan for the winner is a search for the first maximum. -/
theorem bestVote_eq_argmax (counts : List (String × Nat)) :
    bestVote counts = counts.argmax Prod.snd := by
  rw [bestVote, List.argmax]
  congr 1
  funext best entry
  cases best <;> rfl

/-! ### The order of the map -/

/-- A way to read a map. -/
def IsMapOrder (order : {V : Type} → List (String × V) → List (String × V)) : Prop :=
  ∀ (V : Type) (entries : List (String × V)), (order entries).Perm entries

/-- The entry of this key first. -/
def firstKey (key : String) {V : Type} (entries : List (String × V)) : List (String × V) :=
  (entries.filter fun e => e.1 == key) ++ entries.filter fun e => !(e.1 == key)

theorem isMapOrder_firstKey (key : String) : IsMapOrder (firstKey key) :=
  fun _ entries => List.filter_append_perm _ entries

section Vote

variable {W : Type} (env : WorkflowEnv W)

/-- The environment with another order of its maps. -/
def WorkflowEnv.inOrder (order : {V : Type} → List (String × V) → List (String × V)) :
    WorkflowEnv W :=
  { env with mapOrder := order }

/-- `need`. -/
def votesNeededOf (threshold : UInt32) (outputs : List String) : Nat :=
  env.votesNeeded threshold outputs.length

/-- The winner of the vote, if it has enough votes. -/
def voteWinner (threshold : UInt32) (outputs : List String) : Option String :=
  (bestVote (env.mapOrder (tally outputs))).bind fun best =>
    if votesNeededOf env threshold outputs ≤ best.2 then some best.1 else none

/-- An answer that no other one beats. -/
def IsTop (outputs : List String) (answer : String) : Prop :=
  answer ∈ outputs.map trim ∧
    ∀ other ∈ outputs.map trim, votesFor outputs other ≤ votesFor outputs answer

/-- No two answers with enough votes share the largest count. -/
def NoTie (threshold : UInt32) (outputs : List String) : Prop :=
  ∀ answer other, IsTop outputs answer → IsTop outputs other →
    votesNeededOf env threshold outputs ≤ votesFor outputs answer → answer = other

variable {env} {threshold : UInt32} {outputs : List String}

theorem applyAggregation_consensus (hne : outputs ≠ []) :
    applyAggregation env (.consensus threshold) outputs =
      .ok ((voteWinner env threshold outputs).getD (join "\n" outputs)) := by
  have hsome : outputs.isEmpty = false := List.isEmpty_eq_false_iff.mpr hne
  have hcounts : (outputs.map trim).foldl countVote [] = tally outputs := rfl
  simp only [applyAggregation, hsome, Bool.false_eq_true, if_false, hcounts, voteWinner]
  cases bestVote (env.mapOrder (tally outputs)) with
  | none => rfl
  | some best =>
      obtain ⟨answer, count⟩ := best
      simp only [votesNeededOf, Option.bind_some]
      by_cases hneed : env.votesNeeded threshold outputs.length ≤ count <;> simp [hneed]

/-- The scan finds an answer that no other one beats, whatever the order. -/
theorem exists_bestVote (hne : outputs ≠ []) {counts : List (String × Nat)}
    (horder : counts.Perm (tally outputs)) :
    ∃ answer, bestVote counts = some (answer, votesFor outputs answer) ∧
      IsTop outputs answer := by
  rw [bestVote_eq_argmax]
  cases hbest : counts.argmax Prod.snd with
  | none =>
      rw [List.argmax_eq_none] at hbest
      obtain ⟨output, hout⟩ := List.exists_mem_of_ne_nil outputs hne
      have hmem : (trim output, votesFor outputs (trim output)) ∈ tally outputs :=
        mem_tally.mpr ⟨List.mem_map_of_mem hout, rfl⟩
      rw [hbest, List.nil_perm] at horder
      rw [horder] at hmem
      exact absurd hmem List.not_mem_nil
  | some best =>
      obtain ⟨answer, count⟩ := best
      have hmem := horder.mem_iff.mp (List.argmax_mem hbest)
      obtain ⟨hanswer, rfl⟩ := mem_tally.mp hmem
      refine ⟨answer, rfl, hanswer, fun other hother => ?_⟩
      have hother' : (other, votesFor outputs other) ∈ counts :=
        horder.mem_iff.mpr (mem_tally.mpr ⟨hother, rfl⟩)
      have hle : (other, votesFor outputs other).2 ≤ (answer, votesFor outputs answer).2 :=
        List.le_of_mem_argmax hother' hbest
      exact hle

/-- The winner has enough votes, and no answer has more. -/
theorem isTop_of_voteWinner (hne : outputs ≠ [])
    (horder : (env.mapOrder (tally outputs)).Perm (tally outputs)) {answer : String}
    (h : voteWinner env threshold outputs = some answer) :
    IsTop outputs answer ∧ votesNeededOf env threshold outputs ≤ votesFor outputs answer := by
  obtain ⟨best, hbest, htop⟩ := exists_bestVote hne horder
  rw [voteWinner, hbest, Option.bind_some] at h
  dsimp only at h
  split at h
  · rename_i hneed
    obtain rfl := Option.some.inj h
    exact ⟨htop, hneed⟩
  · cases h

theorem voteWinner_eq_none (hne : outputs ≠ [])
    (horder : (env.mapOrder (tally outputs)).Perm (tally outputs)) :
    voteWinner env threshold outputs = none ↔
      ∀ answer ∈ outputs.map trim,
        votesFor outputs answer < votesNeededOf env threshold outputs := by
  obtain ⟨best, hbest, hmem, htop⟩ := exists_bestVote hne horder
  rw [voteWinner, hbest, Option.bind_some]
  dsimp only
  split
  · rename_i hneed
    refine iff_of_false (by simp) fun hall => ?_
    exact absurd (hall best hmem) (Nat.not_lt.mpr hneed)
  · rename_i hneed
    refine iff_of_true rfl fun answer hanswer => ?_
    exact Nat.lt_of_le_of_lt (htop answer hanswer) (Nat.lt_of_not_le hneed)

/-- The first entry read wins if no other one beats it. -/
theorem voteWinner_firstKey {answer : String} (htop : IsTop outputs answer)
    (hneed : votesNeededOf env threshold outputs ≤ votesFor outputs answer) :
    voteWinner (env.inOrder (firstKey answer)) threshold outputs = some answer := by
  have hhead : (tally outputs).filter (fun e => e.1 == answer) =
      [(answer, votesFor outputs answer)] := by
    have hnodup : (tally outputs).Nodup := (counts_tally outputs).distinct.of_map
    have hmem := mem_tally.mpr ⟨htop.1, rfl⟩
    have heq : (tally outputs).filter (fun e => e.1 == answer) =
        (tally outputs).filter (· == (answer, votesFor outputs answer)) := by
      refine List.filter_congr ?_
      rintro ⟨k, c⟩ hkc
      obtain ⟨-, rfl⟩ := mem_tally.mp hkc
      by_cases hk : k = answer
      · simp [hk]
      · simp [hk]
    rw [heq, List.filter_beq, List.count_eq_one_of_mem hnodup hmem, List.replicate_one]
  have hbest : bestVote (firstKey answer (tally outputs)) =
      some (answer, votesFor outputs answer) := by
    rw [firstKey, hhead, List.singleton_append, bestVote_eq_argmax, List.argmax_cons]
    cases hrest : ((tally outputs).filter fun e => !(e.1 == answer)).argmax Prod.snd with
    | none => rfl
    | some entry =>
        obtain ⟨k, c⟩ := entry
        obtain ⟨hk, rfl⟩ := mem_tally.mp (List.mem_filter.mp (List.argmax_mem hrest)).1
        exact if_neg (Nat.not_lt.mpr (htop.2 k hk))
  have horder : (env.inOrder (firstKey answer)).mapOrder (tally outputs) =
      firstKey answer (tally outputs) := rfl
  rw [voteWinner, horder, hbest, Option.bind_some]
  exact if_pos hneed

/-- For every non-empty list of outputs and every count that is needed: the vote is the same for
any two orders of the map exactly when no two answers with enough votes share the largest count. In
every order the winner, if there is one, has enough votes and no answer has more. -/
theorem consensus_ignores_order_iff (env : WorkflowEnv W) (threshold : UInt32)
    {outputs : List String} (hne : outputs ≠ []) :
    ((∀ order order' : {V : Type} → List (String × V) → List (String × V),
        IsMapOrder order → IsMapOrder order' →
        applyAggregation (env.inOrder order) (.consensus threshold) outputs =
          applyAggregation (env.inOrder order') (.consensus threshold) outputs) ∧
      ∀ order : {V : Type} → List (String × V) → List (String × V), IsMapOrder order →
        ∀ answer, voteWinner (env.inOrder order) threshold outputs = some answer →
          votesNeededOf env threshold outputs ≤ votesFor outputs answer ∧
            ∀ other ∈ outputs.map trim, votesFor outputs other ≤ votesFor outputs answer) ↔
      NoTie env threshold outputs := by
  constructor
  · rintro ⟨hsame, -⟩ answer other htop htop' hneed
    have hneed' : votesNeededOf env threshold outputs ≤ votesFor outputs other :=
      hneed.trans (htop'.2 answer htop.1)
    have heq := hsame (firstKey answer) (firstKey other) (isMapOrder_firstKey answer)
      (isMapOrder_firstKey other)
    rw [applyAggregation_consensus hne, applyAggregation_consensus hne,
      voteWinner_firstKey htop hneed, voteWinner_firstKey htop' hneed'] at heq
    exact Except.ok.inj heq
  · intro hnoTie
    refine ⟨fun order order' horder horder' => ?_, fun order horder answer hwinner => ?_⟩
    · rw [applyAggregation_consensus hne, applyAggregation_consensus hne]
      have hperm : ((env.inOrder order).mapOrder (tally outputs)).Perm (tally outputs) :=
        horder _ _
      have hperm' : ((env.inOrder order').mapOrder (tally outputs)).Perm (tally outputs) :=
        horder' _ _
      cases hwinner : voteWinner (env.inOrder order) threshold outputs with
      | none =>
          have hnone := (voteWinner_eq_none hne hperm).mp hwinner
          rw [(voteWinner_eq_none hne hperm').mpr hnone]
      | some answer =>
          obtain ⟨htop, hneed⟩ := isTop_of_voteWinner hne hperm hwinner
          cases hwinner' : voteWinner (env.inOrder order') threshold outputs with
          | none =>
              have hless := (voteWinner_eq_none hne hperm').mp hwinner' answer htop.1
              exact absurd hneed (Nat.not_le.mpr hless)
          | some other =>
              obtain ⟨htop', -⟩ := isTop_of_voteWinner hne hperm' hwinner'
              rw [hnoTie answer other htop htop' hneed]
    · obtain ⟨htop, hneed⟩ := isTop_of_voteWinner hne (horder _ (tally outputs)) hwinner
      exact ⟨hneed, htop.2⟩

end Vote

/-! ### Two votes -/

/-- An environment in which half of the votes are enough. -/
def halfNeeded : WorkflowEnv Unit := { sameAnswer with votesNeeded := fun _ n => (n + 1) / 2 }

theorem consensus_ignores_order_iff_majority :
    ((∀ order order' : {V : Type} → List (String × V) → List (String × V),
        IsMapOrder order → IsMapOrder order' →
        applyAggregation (halfNeeded.inOrder order) (.consensus 0) ["yes", " yes", "no"] =
          applyAggregation (halfNeeded.inOrder order') (.consensus 0) ["yes", " yes", "no"]) ∧
      ∀ order : {V : Type} → List (String × V) → List (String × V), IsMapOrder order →
        ∀ answer, voteWinner (halfNeeded.inOrder order) 0 ["yes", " yes", "no"] = some answer →
          votesNeededOf halfNeeded 0 ["yes", " yes", "no"] ≤
              votesFor ["yes", " yes", "no"] answer ∧
            ∀ other ∈ ["yes", " yes", "no"].map trim,
              votesFor ["yes", " yes", "no"] other ≤ votesFor ["yes", " yes", "no"] answer) ↔
      NoTie halfNeeded 0 ["yes", " yes", "no"] :=
  consensus_ignores_order_iff halfNeeded 0 (List.cons_ne_nil _ _)

/-- One vote each: the order of the map decides. -/
theorem consensus_tie_depends_on_order :
    ¬ ∀ (env : WorkflowEnv Unit) (threshold : UInt32) (outputs : List String), outputs ≠ [] →
      1 ≤ votesNeededOf env threshold outputs →
      ∀ order order' : {V : Type} → List (String × V) → List (String × V),
        IsMapOrder order → IsMapOrder order' →
        applyAggregation (env.inOrder order) (.consensus threshold) outputs =
          applyAggregation (env.inOrder order') (.consensus threshold) outputs := by
  intro h
  have htop : ∀ answer ∈ ["yes", "no"].map trim, IsTop ["yes", "no"] answer := by
    have hvotes : ∀ answer ∈ ["yes", "no"].map trim, votesFor ["yes", "no"] answer = 1 := by decide
    intro answer hanswer
    refine ⟨hanswer, fun other hother => ?_⟩
    rw [hvotes answer hanswer, hvotes other hother]
  have heq := h halfNeeded 0 ["yes", "no"] (List.cons_ne_nil _ _) (by decide) (firstKey "yes")
    (firstKey "no") (isMapOrder_firstKey "yes") (isMapOrder_firstKey "no")
  rw [applyAggregation_consensus (List.cons_ne_nil _ _),
    applyAggregation_consensus (List.cons_ne_nil _ _),
    voteWinner_firstKey (htop "yes" (by decide)) (by decide),
    voteWinner_firstKey (htop "no" (by decide)) (by decide)] at heq
  exact absurd (Except.ok.inj heq) (by decide)

end ArmaraOS.Kernel
