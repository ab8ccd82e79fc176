import Mathlib.Data.Int.LeastGreatest
import Mathlib.Order.Bounds.Basic
import ArmaraOS.Kernel.CronScheduler

/-!
Which match of a cron expression `compute_next_run_after` finds.

The search starts one second after `after`. It finds the least match behind `after` exactly when
the schedule has no match inside that second. Whether the `cron` crate counts the start of the
search itself is left open: both readings are covered.
-/

namespace ArmaraOS.Kernel

open ArmaraOS.Text

/-- Whether `Schedule::after` leaves out its base. -/
inductive AfterBound where
  | later
  | atOrLater
deriving DecidableEq

/-- A time that `Schedule::after(base)` may yield. -/
def AfterBound.Passes : AfterBound → Int → Int → Prop
  | .later, base, u => base < u
  | .atOrLater, base, u => base ≤ u

theorem AfterBound.Passes.le {bound : AfterBound} {base u : Int} (h : bound.Passes base u) :
    base ≤ u := by
  cases bound with
  | later => exact Int.le_of_lt h
  | atOrLater => exact h

theorem AfterBound.passes_of_lt {bound : AfterBound} {base u : Int} (h : base < u) :
    bound.Passes base u := by
  cases bound with
  | later => exact h
  | atOrLater => exact Int.le_of_lt h

theorem AfterBound.Passes.trans_le {bound : AfterBound} {base u v : Int}
    (h : bound.Passes base u) (hle : u ≤ v) : bound.Passes base v := by
  cases bound with
  | later => exact Int.lt_of_lt_of_le h hle
  | atOrLater => exact Int.le_trans h hle

section Library

variable {Expr Zone : Type} (lib : CronLibrary Expr Zone)

/-- `Schedule::after` yields the matches that pass its base, in order. -/
def CronLibrary.Yields (bound : AfterBound) : Prop :=
  ∀ expr zone base u, lib.next expr zone base = some u ↔
    IsLeast {u | lib.Fires expr zone u ∧ bound.Passes base u} u

variable {lib} {bound : AfterBound}

/-- A search that has a match ahead of it finds one. -/
theorem CronLibrary.Yields.exists_next (hyields : lib.Yields bound) {expr : Expr} {zone : Zone}
    {base u : Int} (hfires : lib.Fires expr zone u) (hpasses : bound.Passes base u) :
    ∃ v, lib.next expr zone base = some v := by
  obtain ⟨v, hv, hleast⟩ := Int.exists_least_of_bdd
    (P := fun u => lib.Fires expr zone u ∧ bound.Passes base u)
    ⟨base, fun _ h => h.2.le⟩ ⟨u, hfires, hpasses⟩
  exact ⟨v, (hyields expr zone base v).mpr ⟨hv, fun w hw => hleast w hw⟩⟩

/-- For every expression that parses, with or without a zone, and every time with a match behind
it: the computed next run is the least match strictly after that time exactly if each such match
passes the base of the search, one second later. -/
theorem computeNextRunAfter_isLeast_iff (lib : CronLibrary Expr Zone) (bound : AfterBound)
    (hyields : lib.Yields bound) {expr : String} {tz : Option String} {parsed : Expr}
    (hparsed : lib.parseExpr (sevenField expr) = some parsed) {after : Int}
    (hmatch : ∃ u, lib.Fires parsed (scheduleZone lib tz) u ∧ after < u) :
    IsLeast {u | lib.Fires parsed (scheduleZone lib tz) u ∧ after < u}
        (computeNextRunAfter lib (.cron expr tz) after) ↔
      ∀ u, lib.Fires parsed (scheduleZone lib tz) u → after < u →
        bound.Passes (after + seconds 1) u := by
  simp only [computeNextRunAfter, hparsed]
  constructor
  · rintro ⟨⟨hfires, -⟩, hleast⟩ u hu hafter
    cases hnext : lib.next parsed (scheduleZone lib tz) (after + seconds 1) with
    | some v =>
        rw [hnext, Option.getD_some] at hleast
        have hv := ((hyields _ _ _ v).mp hnext).1.2
        exact hv.trans_le (hleast ⟨hu, hafter⟩)
    | none =>
        -- The fallback of one hour is itself a match, so the search would have found one.
        rw [hnext, Option.getD_none] at hfires
        have hlate : after + seconds 1 < after + seconds 3600 := by
          simp only [seconds]
          omega
        obtain ⟨v, hv⟩ := hyields.exists_next hfires (AfterBound.passes_of_lt hlate)
        rw [hnext] at hv
        cases hv
  · intro hpasses
    obtain ⟨u, hu, hafter⟩ := hmatch
    obtain ⟨v, hv⟩ := hyields.exists_next hu (hpasses u hu hafter)
    obtain ⟨⟨hfires, hbase⟩, hleast⟩ := (hyields _ _ _ v).mp hv
    have hlater : after < v := by
      have hle := hbase.le
      simp only [seconds] at hle
      omega
    rw [hv, Option.getD_some]
    exact ⟨⟨hfires, hlater⟩, fun w hw => hleast ⟨hw.1, hpasses w hw.1 hw.2⟩⟩

end Library

/-! ### The expression of every minute -/

/-- `minutely`, with a search that may count its base. -/
def minutelyFrom : AfterBound → CronLibrary Unit Unit
  | .later => minutely
  | .atOrLater => { minutely with next := fun _ _ base => some (-(-base / minute) * minute) }

theorem minutelyFrom_fires {bound : AfterBound} {u : Int} :
    (minutelyFrom bound).Fires () () u ↔ ∃ k : Int, u = k * minute := by
  cases bound <;> rfl

theorem minutelyFrom_yields (bound : AfterBound) : (minutelyFrom bound).Yields bound := by
  intro expr zone base u
  have hleast : ∀ v, (minutelyFrom bound).next () () base = some v →
      IsLeast {u | (minutelyFrom bound).Fires () () u ∧ bound.Passes base u} v := by
    intro v hv
    cases bound with
    | later =>
        obtain rfl := Option.some.inj hv
        refine ⟨⟨⟨_, rfl⟩, ?_⟩, ?_⟩
        · simp only [AfterBound.Passes, minute, seconds]
          omega
        · rintro w ⟨⟨k, rfl⟩, hk⟩
          simp only [AfterBound.Passes, minute, seconds] at hk ⊢
          omega
    | atOrLater =>
        obtain rfl := Option.some.inj hv
        refine ⟨⟨⟨_, rfl⟩, ?_⟩, ?_⟩
        · simp only [AfterBound.Passes, minute, seconds]
          omega
        · rintro w ⟨⟨k, rfl⟩, hk⟩
          simp only [AfterBound.Passes, minute, seconds] at hk ⊢
          omega
  obtain ⟨v, hv⟩ : ∃ v, (minutelyFrom bound).next () () base = some v := by
    cases bound <;> exact ⟨_, rfl⟩
  constructor
  · exact hleast u
  · intro hu
    rw [(hleast v hv).unique hu] at hv
    exact hv

theorem computeNextRunAfter_isLeast_iff_minutely :
    IsLeast {u | minutely.Fires () () u ∧ seconds 30 < u}
        (computeNextRunAfter minutely (.cron "* * * * *" none) (seconds 30)) ↔
      ∀ u, minutely.Fires () () u → seconds 30 < u →
        AfterBound.later.Passes (seconds 30 + seconds 1) u :=
  @computeNextRunAfter_isLeast_iff _ _ minutely .later (minutelyFrom_yields .later) _ none _
    (by decide +kernel) _ ⟨minute, ⟨1, (Int.one_mul _).symm⟩, by decide⟩

/-- Half a second before a minute that minute is skipped, whichever way the crate reads its
base. -/
theorem computeNextRunAfter_skips_match :
    ¬ ∃ bound : AfterBound, ∀ lib : CronLibrary Unit Unit, lib.Yields bound →
      ∀ (expr : String) (tz : Option String) (parsed : Unit) (after : Int),
        (splitWhitespace (trim expr)).length = 5 →
        lib.parseExpr (sevenField expr) = some parsed →
        (∃ u, lib.Fires parsed (scheduleZone lib tz) u ∧ after < u) →
        IsLeast {u | lib.Fires parsed (scheduleZone lib tz) u ∧ after < u}
          (computeNextRunAfter lib (.cron expr tz) after) := by
  rintro ⟨bound, h⟩
  have hparsed : (minutelyFrom bound).parseExpr (sevenField "* * * * *") = some () := by
    cases bound <;> decide +kernel
  have hnext : computeNextRunAfter (minutelyFrom bound) (.cron "* * * * *" none) 59500000000 =
      seconds 120 := by
    cases bound <;> decide +kernel
  have hmatch : (minutelyFrom bound).Fires () () (seconds 60) :=
    minutelyFrom_fires.mpr ⟨1, (Int.one_mul _).symm⟩
  have hleast := h (minutelyFrom bound) (minutelyFrom_yields bound) "* * * * *" none ()
    59500000000 (by decide +kernel) hparsed ⟨seconds 60, hmatch, by decide⟩
  rw [hnext] at hleast
  exact absurd (hleast.2 ⟨hmatch, by decide⟩) (by decide)

end ArmaraOS.Kernel
