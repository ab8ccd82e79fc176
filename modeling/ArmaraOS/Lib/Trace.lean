import Mathlib.Data.List.Basic

/-!
Obligations over a trace of events.

An event may open an obligation that a later event has to close (`Settled`), or may need a
grant that an earlier event has to have given (`Preceded`). Both are stated over all ways
of cutting the trace at an event; `outstanding` and `unmet` compute what is missing. What an event
may do can also depend on all events before it (`Lawful`). The lemmas say what appending to a trace
does to each, which is all that an invariant over a run needs.
-/

namespace ArmaraOS.Lib

variable {α β : Type}

/-! ### Obligations that later events close -/

section Settled

variable (opens : α → Option β) (closes : β → α → Bool)

/-- What the events of a trace opened and no later event closed. -/
def outstanding : List α → List β
  | [] => []
  | e :: rest =>
      match opens e with
      | some f => if rest.any (closes f) then outstanding rest else f :: outstanding rest
      | none => outstanding rest

/-- Whatever an event opens, a later event closes. -/
def Settled (trace : List α) : Prop :=
  ∀ pre e post f, trace = pre ++ e :: post → opens e = some f →
    ∃ e' ∈ post, closes f e' = true

variable {opens closes}

theorem mem_outstanding {f : β} : ∀ {trace : List α},
    f ∈ outstanding opens closes trace ↔
      ∃ pre e post, trace = pre ++ e :: post ∧ opens e = some f ∧
        ∀ e' ∈ post, closes f e' = false
  | [] => by simp [outstanding]
  | e :: rest => by
      have hrest : f ∈ outstanding opens closes rest ↔
          ∃ pre e' post, e :: rest = (e :: pre) ++ e' :: post ∧ opens e' = some f ∧
            ∀ e'' ∈ post, closes f e'' = false := by
        rw [mem_outstanding]
        simp
      have hsplit : (∃ pre e' post, e :: rest = pre ++ e' :: post ∧ opens e' = some f ∧
            ∀ e'' ∈ post, closes f e'' = false) ↔
          (opens e = some f ∧ ∀ e' ∈ rest, closes f e' = false) ∨
            f ∈ outstanding opens closes rest := by
        rw [hrest]
        constructor
        · rintro ⟨pre, e', post, heq, hopen, hclose⟩
          cases pre with
          | nil =>
              obtain ⟨rfl, rfl⟩ := List.cons.inj heq
              exact .inl ⟨hopen, hclose⟩
          | cons x pre =>
              obtain ⟨rfl, -⟩ := List.cons.inj heq
              exact .inr ⟨pre, e', post, heq, hopen, hclose⟩
        · rintro (⟨hopen, hclose⟩ | ⟨pre, e', post, heq, hopen, hclose⟩)
          · exact ⟨[], e, rest, rfl, hopen, hclose⟩
          · exact ⟨e :: pre, e', post, heq, hopen, hclose⟩
      rw [hsplit, outstanding]
      cases he : opens e with
      | none => simp
      | some g =>
          dsimp only
          split
          · rename_i hany
            constructor
            · exact .inr
            · rintro (⟨heq, hclose⟩ | h)
              · obtain rfl := Option.some.inj heq
                obtain ⟨e', he', hc⟩ := List.any_eq_true.mp hany
                rw [hclose e' he'] at hc
                cases hc
              · exact h
          · rename_i hany
            rw [List.mem_cons]
            constructor
            · rintro (rfl | h)
              · refine .inl ⟨rfl, fun e' he' => ?_⟩
                exact Bool.eq_false_iff.mpr fun hc => hany (List.any_eq_true.mpr ⟨e', he', hc⟩)
              · exact .inr h
            · rintro (⟨heq, -⟩ | h)
              · exact .inl (Option.some.inj heq).symm
              · exact .inr h

/-- A trace is settled when nothing is outstanding. -/
theorem settled_iff {trace : List α} :
    Settled opens closes trace ↔ outstanding opens closes trace = [] := by
  rw [List.eq_nil_iff_forall_not_mem]
  constructor
  · intro h f hf
    obtain ⟨pre, e, post, heq, hopen, hclose⟩ := mem_outstanding.mp hf
    obtain ⟨e', he', hc⟩ := h pre e post f heq hopen
    rw [hclose e' he'] at hc
    cases hc
  · intro h pre e post f heq hopen
    by_contra hnone
    refine h f (mem_outstanding.mpr ⟨pre, e, post, heq, hopen, fun e' he' => ?_⟩)
    exact Bool.eq_false_iff.mpr fun hc => hnone ⟨e', he', hc⟩

instance [DecidableEq β] (trace : List α) : Decidable (Settled opens closes trace) :=
  decidable_of_iff _ settled_iff.symm

/-- What is outstanding in a longer trace was outstanding and is not closed by the new
events, or is outstanding among these. -/
theorem outstanding_append {trace trace' : List α} {f : β}
    (h : f ∈ outstanding opens closes (trace ++ trace')) :
    (f ∈ outstanding opens closes trace ∧ ∀ e ∈ trace', closes f e = false) ∨
      f ∈ outstanding opens closes trace' := by
  obtain ⟨pre, e, post, heq, hopen, hclose⟩ := mem_outstanding.mp h
  rcases List.append_eq_append_iff.mp heq with ⟨mid, rfl, rfl⟩ | ⟨mid, rfl, hmid⟩
  · exact .inr (mem_outstanding.mpr ⟨mid, e, post, rfl, hopen, hclose⟩)
  · cases mid with
    | nil =>
        exact .inr (mem_outstanding.mpr ⟨[], e, post, hmid.symm, hopen, hclose⟩)
    | cons x mid =>
        obtain ⟨rfl, rfl⟩ := List.cons.inj hmid
        refine .inl ⟨mem_outstanding.mpr ⟨pre, e, mid, rfl, hopen, fun e' he' => ?_⟩,
          fun e' he' => hclose e' (List.mem_append_right _ he')⟩
        exact hclose e' (List.mem_append_left _ he')

theorem outstanding_of_quiet {trace : List α} (h : ∀ e ∈ trace, opens e = none) :
    outstanding opens closes trace = [] := by
  refine List.eq_nil_iff_forall_not_mem.mpr fun f hf => ?_
  obtain ⟨pre, e, post, rfl, hopen, -⟩ := mem_outstanding.mp hf
  rw [h e (by simp)] at hopen
  cases hopen

end Settled

/-! ### Needs that earlier events grant -/

section Preceded

variable (needs : α → Option β) (grants : β → α → Bool)

/-- Whatever an event needs, an earlier event granted. -/
def Preceded (trace : List α) : Prop :=
  ∀ pre e post f, trace = pre ++ e :: post → needs e = some f →
    ∃ e' ∈ pre, grants f e' = true

/-- What the events of a trace need and no event before granted; `past` comes before the
trace. -/
def unmet : List α → List α → List β
  | _, [] => []
  | past, e :: rest =>
      match needs e with
      | some f =>
          if past.any (grants f) then unmet (past ++ [e]) rest else f :: unmet (past ++ [e]) rest
      | none => unmet (past ++ [e]) rest

variable {needs grants}

theorem mem_unmet {f : β} : ∀ {past trace : List α},
    f ∈ unmet needs grants past trace ↔
      ∃ pre e post, trace = pre ++ e :: post ∧ needs e = some f ∧
        ∀ e' ∈ past ++ pre, grants f e' = false
  | past, [] => by simp [unmet]
  | past, e :: rest => by
      have hsplit : (∃ pre e' post, e :: rest = pre ++ e' :: post ∧ needs e' = some f ∧
            ∀ e'' ∈ past ++ pre, grants f e'' = false) ↔
          (needs e = some f ∧ ∀ e' ∈ past, grants f e' = false) ∨
            f ∈ unmet needs grants (past ++ [e]) rest := by
        rw [mem_unmet]
        constructor
        · rintro ⟨pre, e', post, heq, hneed, hgrant⟩
          cases pre with
          | nil =>
              obtain ⟨rfl, rfl⟩ := List.cons.inj heq
              exact .inl ⟨hneed, by simpa using hgrant⟩
          | cons x pre =>
              obtain ⟨rfl, rfl⟩ := List.cons.inj heq
              exact .inr ⟨pre, e', post, rfl, hneed, by simpa using hgrant⟩
        · rintro (⟨hneed, hgrant⟩ | ⟨pre, e', post, rfl, hneed, hgrant⟩)
          · exact ⟨[], e, rest, rfl, hneed, by simpa using hgrant⟩
          · exact ⟨e :: pre, e', post, rfl, hneed, by simpa using hgrant⟩
      rw [hsplit, unmet]
      cases he : needs e with
      | none => simp
      | some g =>
          dsimp only
          split
          · rename_i hany
            obtain ⟨e', he', hg⟩ := List.any_eq_true.mp hany
            constructor
            · exact .inr
            · rintro (⟨heq, hgrant⟩ | h)
              · obtain rfl := Option.some.inj heq
                rw [hgrant e' he'] at hg
                cases hg
              · exact h
          · rename_i hany
            have hnone : ∀ e' ∈ past, grants g e' = false := fun e' he' =>
              Bool.eq_false_iff.mpr fun hg => hany (List.any_eq_true.mpr ⟨e', he', hg⟩)
            rw [List.mem_cons]
            constructor
            · rintro (rfl | h)
              · exact .inl ⟨rfl, hnone⟩
              · exact .inr h
            · rintro (⟨heq, -⟩ | h)
              · exact .inl (Option.some.inj heq).symm
              · exact .inr h

/-- A trace is preceded when it has no unmet need. -/
theorem preceded_iff {trace : List α} :
    Preceded needs grants trace ↔ unmet needs grants [] trace = [] := by
  rw [List.eq_nil_iff_forall_not_mem]
  constructor
  · intro h f hf
    obtain ⟨pre, e, post, heq, hneed, hgrant⟩ := mem_unmet.mp hf
    obtain ⟨e', he', hg⟩ := h pre e post f heq hneed
    rw [hgrant e' he'] at hg
    cases hg
  · intro h pre e post f heq hneed
    by_contra hnone
    refine h f (mem_unmet.mpr ⟨pre, e, post, heq, hneed, fun e' he' => ?_⟩)
    exact Bool.eq_false_iff.mpr fun hg => hnone ⟨e', he', hg⟩

instance [DecidableEq β] (trace : List α) : Decidable (Preceded needs grants trace) :=
  decidable_of_iff _ preceded_iff.symm

theorem preceded_nil : Preceded needs grants [] := by
  intro pre e post f heq
  simp at heq

/-- New events whose needs are granted by the old trace keep it preceded. -/
theorem Preceded.append {trace trace' : List α} (h : Preceded needs grants trace)
    (h' : ∀ e ∈ trace', ∀ f, needs e = some f → ∃ e' ∈ trace, grants f e' = true) :
    Preceded needs grants (trace ++ trace') := by
  intro pre e post f heq hneed
  rcases List.append_eq_append_iff.mp heq with ⟨mid, rfl, rfl⟩ | ⟨mid, rfl, hmid⟩
  · obtain ⟨e', he', hg⟩ := h' e (by simp) f hneed
    exact ⟨e', List.mem_append_left _ he', hg⟩
  · cases mid with
    | nil =>
        rw [List.nil_append] at hmid
        obtain ⟨e', he', hg⟩ := h' e (hmid ▸ List.mem_cons_self) f hneed
        exact ⟨e', by simpa using he', hg⟩
    | cons x mid =>
        obtain ⟨rfl, rfl⟩ := List.cons.inj hmid
        exact h pre e mid f rfl hneed

end Preceded

/-! ### What the events before allow -/

section Lawful

variable (allowed : List α → α → Prop)

/-- Every event is allowed by the events before it. -/
def Lawful (trace : List α) : Prop :=
  ∀ pre e post, trace = pre ++ e :: post → allowed pre e

variable {allowed}

theorem lawful_nil : Lawful allowed [] := by
  intro pre e post heq
  simp at heq

theorem Lawful.snoc {trace : List α} {e : α} (h : Lawful allowed trace) (he : allowed trace e) :
    Lawful allowed (trace ++ [e]) := by
  intro pre e' post heq
  rcases List.append_eq_append_iff.mp heq with ⟨mid, rfl, hlast⟩ | ⟨mid, rfl, hmid⟩
  · cases mid with
    | nil =>
        obtain ⟨rfl, -⟩ := List.cons.inj hlast
        rwa [List.append_nil]
    | cons x mid => simp at hlast
  · cases mid with
    | nil =>
        obtain ⟨rfl, -⟩ := List.cons.inj hmid
        rwa [List.append_nil] at he
    | cons x mid =>
        obtain ⟨rfl, -⟩ := List.cons.inj hmid
        exact h pre e' mid rfl

theorem Lawful.of_snoc {trace : List α} {e : α} (h : Lawful allowed (trace ++ [e])) :
    Lawful allowed trace ∧ allowed trace e :=
  ⟨fun pre e' post heq => h pre e' (post ++ [e]) (by simp [heq]), h trace e [] rfl⟩

end Lawful

end ArmaraOS.Lib
