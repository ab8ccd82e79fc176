import Mathlib.Algebra.Group.Nat.Even
import Mathlib.Data.List.DropRight
import Mathlib.Data.Nat.Bits

/-!
Counting the lines of a text that have a property, piece by piece.

Lines keep the separator that ends them; the last one may be open. Behind a closed line a text is
counted by itself. What is put behind an open line counts as the difference that it makes to that
line.
-/

namespace ArmaraOS.Lib

variable {α : Type*} [DecidableEq α] (sep : α)

/-! ### Lines -/

/-- The lines of a text, each with the separator that ends it. -/
def splitInclusive : List α → List (List α)
  | [] => []
  | a :: as =>
      if a = sep then [sep] :: splitInclusive as
      else
        match splitInclusive as with
        | [] => [[a]]
        | line :: lines => (a :: line) :: lines

/-- What stands behind the last separator. -/
def openLine (text : List α) : List α := text.rtakeWhile (· != sep)

/-- What stands in front of that. -/
def closedLines (text : List α) : List α := text.rdropWhile (· != sep)

/-- A text that is empty or ends with a separator. -/
def Ended (text : List α) : Prop := ∀ a ∈ text.getLast?, a = sep

section Lines

variable {sep} {text more line : List α}

theorem splitInclusive_nil : splitInclusive sep [] = [] := rfl

theorem splitInclusive_cons (a : α) (as : List α) :
    splitInclusive sep (a :: as) =
      if a = sep then [sep] :: splitInclusive sep as
      else
        match splitInclusive sep as with
        | [] => [[a]]
        | line :: lines => (a :: line) :: lines := rfl

theorem closedLines_append_openLine (text : List α) :
    closedLines sep text ++ openLine sep text = text :=
  List.rdropWhile_append_rtakeWhile

theorem ended_closedLines (text : List α) : Ended sep (closedLines sep text) := by
  intro a ha
  have hne : closedLines sep text ≠ [] := by
    intro hnil
    rw [hnil] at ha
    cases ha
  have hlast : ¬ ((closedLines sep text).getLast hne != sep) = true :=
    List.rdropWhile_last_not (· != sep) text hne
  rw [List.getLast?_eq_some_getLast hne] at ha
  cases ha
  simpa using hlast

theorem notMem_openLine (text : List α) : sep ∉ openLine sep text := by
  intro hmem
  have h := List.mem_rtakeWhile_imp hmem
  simp at h

theorem splitInclusive_ne_nil {a : α} : splitInclusive sep (a :: text) ≠ [] := by
  rw [splitInclusive_cons]
  split
  · exact List.cons_ne_nil _ _
  · split <;> exact List.cons_ne_nil _ _

theorem flatten_splitInclusive (text : List α) : (splitInclusive sep text).flatten = text := by
  induction text with
  | nil => rfl
  | cons a text ih =>
      rw [splitInclusive_cons]
      split
      · rename_i ha
        rw [List.flatten_cons, ih, ha]
        rfl
      · cases hsplit : splitInclusive sep text with
        | nil =>
            rw [hsplit] at ih
            rw [← ih]
            rfl
        | cons line lines =>
            rw [hsplit] at ih
            rw [← ih]
            rfl

/-- Behind a closed line, a text is split by itself. -/
theorem splitInclusive_append (h : Ended sep text) :
    splitInclusive sep (text ++ more) = splitInclusive sep text ++ splitInclusive sep more := by
  induction text with
  | nil => rfl
  | cons a text ih =>
      cases text with
      | nil =>
          obtain rfl := h a rfl
          simp [splitInclusive_nil, splitInclusive_cons]
      | cons b text =>
          have hrest : Ended sep (b :: text) := fun c hc => h c (by rwa [List.getLast?_cons_cons])
          rw [List.cons_append, splitInclusive_cons, ih hrest]
          conv_rhs => rw [splitInclusive_cons]
          split
          · rfl
          · cases hsplit : splitInclusive sep (b :: text) with
            | nil => exact absurd hsplit splitInclusive_ne_nil
            | cons line lines => rfl

/-- A line without a separator is one line. -/
theorem splitInclusive_open (hline : sep ∉ line) (hne : line ≠ []) :
    splitInclusive sep line = [line] := by
  induction line with
  | nil => exact absurd rfl hne
  | cons a line ih =>
      obtain ⟨ha, hrest⟩ := List.ne_and_not_mem_of_not_mem_cons hline
      rw [splitInclusive_cons, if_neg ha.symm]
      cases line with
      | nil => rfl
      | cons b line => rw [ih hrest (List.cons_ne_nil _ _)]

/-- So is one with the separator behind it. -/
theorem splitInclusive_line (hline : sep ∉ line) :
    splitInclusive sep (line ++ [sep]) = [line ++ [sep]] := by
  induction line with
  | nil => simp [splitInclusive_nil, splitInclusive_cons]
  | cons a line ih =>
      obtain ⟨ha, hrest⟩ := List.ne_and_not_mem_of_not_mem_cons hline
      rw [List.cons_append, splitInclusive_cons, if_neg ha.symm, ih hrest]

end Lines

/-! ### Counting -/

section Count

variable {sep} (p : List α → Bool) {text more line : List α}

/-- How many lines of a text have the property. -/
def countLines (sep : α) (p : List α → Bool) (text : List α) : Nat :=
  (splitInclusive sep text).countP p

/-- The text has an odd number of such lines. -/
def oddLines (sep : α) (p : List α → Bool) (text : List α) : Bool := (countLines sep p text).bodd

theorem even_countLines_iff : Even (countLines sep p text) ↔ oddLines sep p text = false := by
  rw [oddLines, Nat.even_iff, Nat.mod_two_of_bodd]
  cases (countLines sep p text).bodd <;> simp

@[simp] theorem oddLines_nil : oddLines sep p [] = false := by
  simp [oddLines, countLines, splitInclusive_nil]

theorem oddLines_append (h : Ended sep text) :
    oddLines sep p (text ++ more) = (oddLines sep p text ^^ oddLines sep p more) := by
  rw [oddLines, countLines, splitInclusive_append h, List.countP_append, Nat.bodd_add]
  rfl

/-- What a text adds to another is what it adds to the open line of that. -/
theorem oddLines_append_open (text more : List α) :
    oddLines sep p (text ++ more) =
      (oddLines sep p text ^^
        (oddLines sep p (openLine sep text) ^^ oddLines sep p (openLine sep text ++ more))) := by
  have hended : Ended sep (closedLines sep text) := ended_closedLines text
  have htext : closedLines sep text ++ openLine sep text = text := closedLines_append_openLine text
  have hwhole : oddLines sep p (text ++ more) = (oddLines sep p (closedLines sep text) ^^
      oddLines sep p (openLine sep text ++ more)) := by
    rw [← oddLines_append p hended, ← List.append_assoc, htext]
  have hfront : oddLines sep p text = (oddLines sep p (closedLines sep text) ^^
      oddLines sep p (openLine sep text)) := by
    rw [← oddLines_append p hended, htext]
  rw [hwhole, hfront]
  cases oddLines sep p (openLine sep text) <;> simp

theorem oddLines_open (hnil : p [] = false) (hline : sep ∉ line) :
    oddLines sep p line = p line := by
  by_cases hne : line = []
  · rw [hne, oddLines_nil, hnil]
  · rw [oddLines, countLines, splitInclusive_open hline hne]
    cases hp : p line <;> simp [hp]

theorem oddLines_line (hline : sep ∉ line) :
    oddLines sep p (line ++ [sep]) = p (line ++ [sep]) := by
  rw [oddLines, countLines, splitInclusive_line hline]
  cases hp : p (line ++ [sep]) <;> simp [hp]

/-- A separator closes the open line, which counts as before. -/
theorem oddLines_append_sep (hnil : p [] = false) (hend : ∀ line, p (line ++ [sep]) = p line)
    (text more : List α) :
    oddLines sep p (text ++ sep :: more) = (oddLines sep p text ^^ oddLines sep p more) := by
  have hended : Ended sep (closedLines sep text) := ended_closedLines text
  have hopen : sep ∉ openLine sep text := notMem_openLine text
  have htext : closedLines sep text ++ openLine sep text = text := closedLines_append_openLine text
  have hsame : oddLines sep p (openLine sep text ++ [sep]) =
      oddLines sep p (openLine sep text) := by
    rw [oddLines_line p hopen, hend, oddLines_open p hnil hopen]
  have hline : Ended sep (openLine sep text ++ [sep]) := by
    intro a ha
    rw [List.getLast?_concat] at ha
    exact (Option.some.inj ha).symm
  calc oddLines sep p (text ++ sep :: more)
      = oddLines sep p (closedLines sep text ++ (openLine sep text ++ [sep] ++ more)) := by
        rw [← List.append_assoc, ← List.append_assoc, htext, List.append_assoc]
        rfl
    _ = (oddLines sep p (closedLines sep text) ^^
          (oddLines sep p (openLine sep text) ^^ oddLines sep p more)) := by
        rw [oddLines_append p hended, oddLines_append p hline, hsame]
    _ = (oddLines sep p text ^^ oddLines sep p more) := by
        rw [← Bool.xor_assoc, ← oddLines_append p hended, htext]

/-- The lines of a text change the parity one by one. -/
theorem foldl_oddLines (text : List α) (odd : Bool) :
    (splitInclusive sep text).foldl (fun odd line => odd ^^ p line) odd =
      (odd ^^ oddLines sep p text) := by
  rw [oddLines, countLines]
  induction splitInclusive sep text generalizing odd with
  | nil => simp
  | cons line lines ih =>
      rw [List.foldl_cons, ih, List.countP_cons]
      cases hline : p line <;> cases odd <;> simp

end Count

end ArmaraOS.Lib
