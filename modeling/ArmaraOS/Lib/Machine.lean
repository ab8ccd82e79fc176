import Mathlib.Data.List.Basic

/-!
Runs of a machine that takes one operation after another.

`Guarded` says that each operation of a run meets a condition in the state it meets. What
guarded operations preserve holds in every state that a guarded run passes; where every
operation outside the guard breaks a property at once, the property holds in every state
exactly of the guarded runs.
-/

namespace ArmaraOS.Lib

variable {S A : Type} (step : S → A → S)

/-- The state after a run. -/
def runOps (s : S) (ops : List A) : S := ops.foldl step s

/-- The states that a run passes, the first one included. -/
def passed (s : S) : List A → List S
  | [] => [s]
  | a :: ops => s :: passed (step s a) ops

/-- Each operation of a run meets `guard` in the state it is applied to. -/
def Guarded (guard : S → A → Prop) (s : S) : List A → Prop
  | [] => True
  | a :: ops => guard s a ∧ Guarded guard (step s a) ops

instance decidableGuarded {guard : S → A → Prop} [∀ s a, Decidable (guard s a)] (s : S)
    (ops : List A) : Decidable (Guarded step guard s ops) :=
  match ops with
  | [] => isTrue trivial
  | a :: ops =>
      have : Decidable (Guarded step guard (step s a) ops) := decidableGuarded (step s a) ops
      inferInstanceAs (Decidable (guard s a ∧ Guarded step guard (step s a) ops))

variable {step}

@[simp] theorem runOps_nil (s : S) : runOps step s [] = s := rfl

@[simp] theorem runOps_cons (s : S) (a : A) (ops : List A) :
    runOps step s (a :: ops) = runOps step (step s a) ops := rfl

@[simp] theorem runOps_append (s : S) (ops ops' : List A) :
    runOps step s (ops ++ ops') = runOps step (runOps step s ops) ops' :=
  List.foldl_append

theorem guarded_append {guard : S → A → Prop} {s : S} {ops ops' : List A} :
    Guarded step guard s (ops ++ ops') ↔
      Guarded step guard s ops ∧ Guarded step guard (runOps step s ops) ops' := by
  induction ops generalizing s with
  | nil => simp [Guarded]
  | cons a ops ih => simp [Guarded, ih, and_assoc]

/-- A run of operations that meet the guard in every state is guarded. -/
theorem guarded_of_forall_mem {guard : S → A → Prop} {ops : List A}
    (h : ∀ a ∈ ops, ∀ s, guard s a) (s : S) : Guarded step guard s ops := by
  induction ops generalizing s with
  | nil => trivial
  | cons a ops ih =>
      obtain ⟨hhead, hrest⟩ := List.forall_mem_cons.mp h
      exact ⟨hhead s, ih hrest (step s a)⟩

/-- What holds of every operation of a guarded run joins the guard. -/
theorem Guarded.and_forall_mem {guard : S → A → Prop} {P : A → Prop} {s : S} {ops : List A}
    (h : Guarded step guard s ops) (hops : ∀ a ∈ ops, P a) :
    Guarded step (fun s a => guard s a ∧ P a) s ops := by
  induction ops generalizing s with
  | nil => trivial
  | cons a ops ih =>
      obtain ⟨hhead, hrest⟩ := List.forall_mem_cons.mp hops
      exact ⟨⟨h.1, hhead⟩, ih h.2 hrest⟩

/-- Where every operation meets the guard, every run does. -/
theorem guarded_of_forall {guard : S → A → Prop} (h : ∀ s a, guard s a) (s : S)
    (ops : List A) : Guarded step guard s ops :=
  guarded_of_forall_mem (fun a _ s => h s a) s

/-- The states that a run passes are the ends of its initial parts. -/
theorem mem_passed {s s' : S} {ops : List A} :
    s' ∈ passed step s ops ↔ ∃ front, front <+: ops ∧ s' = runOps step s front := by
  induction ops generalizing s with
  | nil => simp [passed, List.prefix_nil]
  | cons a ops ih =>
      rw [passed, List.mem_cons, ih]
      constructor
      · rintro (rfl | ⟨front, hfront, rfl⟩)
        · exact ⟨[], List.nil_prefix, rfl⟩
        · exact ⟨a :: front, List.cons_prefix_cons.mpr ⟨rfl, hfront⟩, rfl⟩
      · rintro ⟨front, hfront, rfl⟩
        cases front with
        | nil => exact .inl rfl
        | cons b front =>
            obtain ⟨rfl, hrest⟩ := List.cons_prefix_cons.mp hfront
            exact .inr ⟨front, hrest, rfl⟩

section Invariant

variable {guard : S → A → Prop} {Inv P : S → Prop}

/-- **Invariant rule, at the end of a run.** -/
theorem runOps_invariant (hstep : ∀ s a, Inv s → guard s a → Inv (step s a)) {s : S}
    (hinit : Inv s) {ops : List A} (hguard : Guarded step guard s ops) :
    Inv (runOps step s ops) := by
  induction ops generalizing s with
  | nil => exact hinit
  | cons a ops ih => exact ih (hstep s a hinit hguard.1) hguard.2

/-- **Invariant rule, for unguarded machines.** -/
theorem runOps_invariant' (hstep : ∀ s a, Inv s → Inv (step s a)) {s : S} (hinit : Inv s)
    (ops : List A) : Inv (runOps step s ops) :=
  runOps_invariant (fun s a hinv (_ : True) => hstep s a hinv) hinit
    (guarded_of_forall (fun _ _ => trivial) s ops)

/-- **Invariant rule, in every state of a run.** -/
theorem passed_invariant (hstep : ∀ s a, Inv s → guard s a → Inv (step s a)) {s : S}
    (hinit : Inv s) {ops : List A} (hguard : Guarded step guard s ops) :
    ∀ s' ∈ passed step s ops, Inv s' := by
  intro s' hmem
  obtain ⟨front, ⟨rest, rfl⟩, rfl⟩ := mem_passed.mp hmem
  exact runOps_invariant hstep hinit (guarded_append.mp hguard).1

/-- Where operations of a kind preserve an invariant under which they meet the guard, every run of
such operations is guarded. -/
theorem guarded_of_invariant {P : A → Prop} (hstep : ∀ s a, Inv s → P a → Inv (step s a))
    (hguard : ∀ s a, Inv s → P a → guard s a) {s : S} (hinit : Inv s) {ops : List A}
    (hops : ∀ a ∈ ops, P a) : Guarded step guard s ops := by
  induction ops generalizing s with
  | nil => trivial
  | cons a ops ih =>
      obtain ⟨hhead, hrest⟩ := List.forall_mem_cons.mp hops
      exact ⟨hguard s a hinit hhead, ih (hstep s a hinit hhead) hrest⟩

/-- **Exact safety rule, for the runs that meet an assumption.** When the guarded operations
preserve an invariant that makes the states safe, and every other operation leads out of the safe
states, a run is safe throughout if and only if it is guarded. -/
theorem passed_safe_iff_of_assumed {assumed : S → A → Prop} (hsafe : ∀ s, Inv s → P s)
    (hstep : ∀ s a, Inv s → assumed s a → guard s a → Inv (step s a))
    (hbreak : ∀ s a, Inv s → assumed s a → ¬ guard s a → ¬ P (step s a)) {s : S} (hinit : Inv s)
    {ops : List A} (hassumed : Guarded step assumed s ops) :
    (∀ s' ∈ passed step s ops, P s') ↔ Guarded step guard s ops := by
  induction ops generalizing s with
  | nil => simpa [passed, Guarded] using hsafe s hinit
  | cons a ops ih =>
      have hpassed : (∀ s' ∈ passed step s (a :: ops), P s') ↔
          P s ∧ ∀ s' ∈ passed step (step s a) ops, P s' := by
        rw [passed, List.forall_mem_cons]
      rw [hpassed]
      constructor
      · rintro ⟨-, htail⟩
        have hguard : guard s a := by
          by_contra hnot
          apply hbreak s a hinit hassumed.1 hnot
          exact htail _ (mem_passed.mpr ⟨[], List.nil_prefix, rfl⟩)
        exact ⟨hguard, (ih (hstep s a hinit hassumed.1 hguard) hassumed.2).mp htail⟩
      · rintro ⟨hguard, hrest⟩
        exact ⟨hsafe s hinit, (ih (hstep s a hinit hassumed.1 hguard) hassumed.2).mpr hrest⟩

/-- **Exact safety rule.** -/
theorem passed_safe_iff (hsafe : ∀ s, Inv s → P s)
    (hstep : ∀ s a, Inv s → guard s a → Inv (step s a))
    (hbreak : ∀ s a, Inv s → ¬ guard s a → ¬ P (step s a)) {s : S} (hinit : Inv s)
    {ops : List A} : (∀ s' ∈ passed step s ops, P s') ↔ Guarded step guard s ops :=
  passed_safe_iff_of_assumed hsafe (fun s a hinv (_ : True) => hstep s a hinv)
    (fun s a hinv _ => hbreak s a hinv) hinit (guarded_of_forall (fun _ _ => trivial) s ops)

end Invariant

end ArmaraOS.Lib
