import Mathlib.Algebra.Ring.Int.Defs
import Mathlib.Algebra.Ring.Nat
import Mathlib.Data.List.TakeWhile

/-!
Texts that are cut at a separator (`str::splitn`), and signed numbers in decimal.

A text that is put together from fields without the separator in them is cut into the same
fields again. A number is written without any character but digits and a minus sign, so a
separator is never part of it.
-/

namespace ArmaraOS.Lib

/-! ### Fields -/

/-- `splitn(n, sep)`. -/
def splitn (sep : Char) : Nat → List Char → List (List Char)
  | 0, _ => []
  | 1, cs => [cs]
  | n + 2, cs =>
      if sep ∈ cs then
        cs.takeWhile (· != sep) :: splitn sep (n + 1) (cs.dropWhile (· != sep)).tail
      else [cs]

section Splitn

variable {sep : Char}

theorem takeWhile_field {field rest : List Char} (h : sep ∉ field) :
    (field ++ sep :: rest).takeWhile (· != sep) = field := by
  rw [List.takeWhile_append_of_pos, List.takeWhile_cons_of_neg (by simp), List.append_nil]
  intro c hc
  simpa using ne_of_mem_of_not_mem hc h

theorem dropWhile_field {field rest : List Char} (h : sep ∉ field) :
    (field ++ sep :: rest).dropWhile (· != sep) = sep :: rest := by
  rw [List.dropWhile_append_of_pos, List.dropWhile_cons_of_neg (by simp)]
  intro c hc
  simpa using ne_of_mem_of_not_mem hc h

theorem splitn_field {field rest : List Char} (h : sep ∉ field) (n : Nat) :
    splitn sep (n + 2) (field ++ sep :: rest) = field :: splitn sep (n + 1) rest := by
  rw [splitn, if_pos (by simp), takeWhile_field h, dropWhile_field h, List.tail_cons]

/-- A text with the separator in it is a field, the separator, and the rest. -/
theorem exists_field {cs : List Char} (h : sep ∈ cs) :
    ∃ field rest, cs = field ++ sep :: rest ∧ sep ∉ field :=
  List.eq_append_cons_of_mem h

/-- The separator that stands last cuts a text in one way. -/
theorem lastField_inj {front front' field field' : List Char} (h : sep ∉ field)
    (h' : sep ∉ field') (heq : front ++ sep :: field = front' ++ sep :: field') :
    front = front' ∧ field = field' := by
  rcases List.append_eq_append_iff.mp heq with ⟨mid, hfront, hfield⟩ | ⟨mid, hfront, hfield⟩
  all_goals
    cases mid with
    | nil => simp_all
    | cons c mid =>
        obtain ⟨rfl, hrest⟩ := List.cons_eq_cons.mp hfield
        simp [hrest] at h h'

/-- A text with the separator once is cut in one way. -/
theorem onlyField_inj {front front' field field' : List Char} (hfront : sep ∉ front)
    (hfield : sep ∉ field) (heq : front' ++ sep :: field' = front ++ sep :: field) :
    front' = front ∧ field' = field := by
  rcases List.append_eq_append_iff.mp heq with ⟨mid, hmid, hrest⟩ | ⟨mid, hmid, hrest⟩
  · cases mid with
    | nil => simp_all
    | cons c mid =>
        obtain ⟨rfl, -⟩ := List.cons_eq_cons.mp hrest
        simp [hmid] at hfront
  · cases mid with
    | nil => simp_all
    | cons c mid =>
        obtain ⟨rfl, htail⟩ := List.cons_eq_cons.mp hrest
        simp [htail] at hfield

/-- A text without the separator is cut off in front of one in one way. -/
theorem firstField_inj {field field' rest rest' : List Char} (h : sep ∉ field) (h' : sep ∉ field')
    (hrest : ∀ c ∈ rest.head?, c = sep) (hrest' : ∀ c ∈ rest'.head?, c = sep)
    (heq : field ++ rest = field' ++ rest') : field = field' ∧ rest = rest' := by
  have htake : ∀ {field rest : List Char}, sep ∉ field → (∀ c ∈ rest.head?, c = sep) →
      (field ++ rest).takeWhile (· != sep) = field := by
    intro field rest hfield hrest
    cases rest with
    | nil =>
        rw [List.append_nil, List.takeWhile_eq_self_iff]
        exact fun c hc => by simpa using ne_of_mem_of_not_mem hc hfield
    | cons c rest =>
        obtain rfl := hrest c rfl
        exact takeWhile_field hfield
  have hfield : field = field' := by
    rw [← htake h hrest, heq, htake h' hrest']
  rw [hfield] at heq
  exact ⟨hfield, List.append_cancel_left heq⟩

/-- Three fields are found where the separator stands at least twice. -/
theorem splitn_three_iff {cs a b c : List Char} :
    splitn sep 3 cs = [a, b, c] ↔ cs = a ++ sep :: (b ++ sep :: c) ∧ sep ∉ a ∧ sep ∉ b := by
  constructor
  · intro h
    by_cases hfirst : sep ∈ cs
    · obtain ⟨field, rest, rfl, hfield⟩ := exists_field hfirst
      rw [splitn_field hfield] at h
      by_cases hsecond : sep ∈ rest
      · obtain ⟨field', rest', rfl, hfield'⟩ := exists_field hsecond
        rw [splitn_field hfield', splitn] at h
        simp only [List.cons.injEq, and_true] at h
        obtain ⟨rfl, rfl, rfl⟩ := h
        exact ⟨rfl, hfield, hfield'⟩
      · rw [splitn, if_neg hsecond] at h
        simp at h
    · rw [splitn, if_neg hfirst] at h
      simp at h
  · rintro ⟨rfl, ha, hb⟩
    rw [splitn_field ha, splitn_field hb, splitn]

end Splitn

/-! ### Numbers -/

/-- The values of an `i64`. -/
def FitsI64 (n : Int) : Prop := -2 ^ 63 ≤ n ∧ n < 2 ^ 63

instance (n : Int) : Decidable (FitsI64 n) := inferInstanceAs (Decidable (_ ∧ _))

/-- `to_string` of a signed number. -/
def formatInt (n : Int) : List Char :=
  if n < 0 then '-' :: Nat.toDigits 10 n.natAbs else Nat.toDigits 10 n.natAbs

/-- The number of a text of digits. -/
def digitsValue (digits : List Char) : Option Nat :=
  if !digits.isEmpty && digits.all Char.isDigit then some (Nat.ofDigitChars 10 digits 0) else none

/-- `str::parse::<i64>`. -/
def parseI64 (cs : List Char) : Option Int :=
  let value : Option Int :=
    match cs with
    | '-' :: digits => (digitsValue digits).map fun n => -(n : Int)
    | '+' :: digits => (digitsValue digits).map Int.ofNat
    | _ => (digitsValue cs).map Int.ofNat
  value.filter fun n => decide (FitsI64 n)

theorem digitsValue_toDigits (n : Nat) : digitsValue (Nat.toDigits 10 n) = some n := by
  have hdigits : (Nat.toDigits 10 n).all Char.isDigit = true := by
    rw [List.all_eq_true]
    intro c hc
    exact Nat.isDigit_of_mem_toDigits (by decide) (by decide) hc
  simp [digitsValue, hdigits]

/-- Nothing but digits and a minus sign is written. -/
theorem notMem_formatInt {c : Char} (hdigit : c.isDigit = false) (hminus : c ≠ '-') (n : Int) :
    c ∉ formatInt n := by
  have hnot : c ∉ Nat.toDigits 10 n.natAbs := by
    intro hc
    rw [Nat.isDigit_of_mem_toDigits (by decide) (by decide) hc] at hdigit
    cases hdigit
  unfold formatInt
  split
  · simp [hminus, hnot]
  · exact hnot

theorem parseI64_formatInt (n : Int) :
    parseI64 (formatInt n) = if FitsI64 n then some n else none := by
  have hvalue : parseI64 (formatInt n) = (some n).filter fun n => decide (FitsI64 n) := by
    by_cases hneg : n < 0
    · rw [formatInt, if_pos hneg, parseI64]
      have habs : -(n.natAbs : Int) = n := by omega
      rw [digitsValue_toDigits]
      exact congrArg (fun m : Int => (some m).filter fun n => decide (FitsI64 n)) habs
    · rw [formatInt, if_neg hneg]
      have habs : (n.natAbs : Int) = n := by omega
      have hminus : '-' ∉ Nat.toDigits 10 n.natAbs := fun hc => by
        simpa using Nat.isDigit_of_mem_toDigits (by decide) (by decide) hc
      have hplus : '+' ∉ Nat.toDigits 10 n.natAbs := fun hc => by
        simpa using Nat.isDigit_of_mem_toDigits (by decide) (by decide) hc
      unfold parseI64
      split
      · next h => simp [h] at hminus
      · next h => simp [h] at hplus
      · simp [digitsValue_toDigits, habs]
  rw [hvalue]
  by_cases hfits : FitsI64 n <;> simp [hfits]

end ArmaraOS.Lib
