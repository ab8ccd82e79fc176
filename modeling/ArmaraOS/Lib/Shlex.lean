import Mathlib.Algebra.Ring.Nat
import Mathlib.Data.List.Basic

/-!
The words of a command line, as a POSIX shell splits it without expanding anything: blanks
separate, quotes and backslashes keep characters as they are, and `#` at the start of a word
comments out the rest of the line.
-/

namespace ArmaraOS.Lib

/-- Where a lexer is. -/
inductive LexState where
  | between
  | comment
  | word
  | escape
  | single
  | double
  | doubleEscape
deriving DecidableEq

/-- A lexer with the words it has finished and the one it is reading. -/
structure Lexer where
  words : List (List Char)
  state : LexState
  word : List Char

namespace Lexer

/-- The lexer at the start of a line. -/
def start : Lexer := ⟨[], .between, []⟩

/-- The characters that separate words. -/
def isBlank (c : Char) : Bool := c == ' ' || c == '\t' || c == '\n'

/-- A character behind those of the word. -/
def push (l : Lexer) (c : Char) : Lexer := { l with state := .word, word := l.word ++ [c] }

/-- A character outside quotes, in a word or at its start. -/
def inWord (l : Lexer) (c : Char) : Lexer :=
  if c == '"' then { l with state := .double }
  else if c == '\'' then { l with state := .single }
  else if c == '\\' then { l with state := .escape }
  else if isBlank c then ⟨l.words ++ [l.word], .between, []⟩
  else l.push c

/-- One character. -/
def step (l : Lexer) (c : Char) : Lexer :=
  match l.state with
  | .between =>
      if isBlank c then l
      else if c == '#' then { l with state := .comment }
      else l.inWord c
  | .comment => if c == '\n' then { l with state := .between } else l
  | .word => l.inWord c
  | .escape => if c == '\n' then { l with state := .word } else l.push c
  | .single =>
      if c == '\'' then { l with state := .word } else { l with word := l.word ++ [c] }
  | .double =>
      if c == '\\' then { l with state := .doubleEscape }
      else if c == '"' then { l with state := .word }
      else { l with word := l.word ++ [c] }
  | .doubleEscape =>
      if c == '$' || c == '`' || c == '"' || c == '\\' then
        { l with state := .double, word := l.word ++ [c] }
      else if c == '\n' then { l with state := .double }
      else { l with state := .double, word := l.word ++ ['\\', c] }

/-- The words at the end of the line; none where a quote or an escape is open. -/
def finish (l : Lexer) : Option (List (List Char)) :=
  match l.state with
  | .between | .comment => some l.words
  | .word => some (l.words ++ [l.word])
  | .escape | .single | .double | .doubleEscape => none

/-- A character that stands for itself wherever it stands. -/
def isPlain (c : Char) : Bool :=
  !(isBlank c || c == '"' || c == '\'' || c == '\\' || c == '#')

theorem inWord_plain {c : Char} (h : isPlain c = true) (l : Lexer) : l.inWord c = l.push c := by
  simp only [isPlain, Bool.not_eq_true', Bool.or_eq_false_iff] at h
  obtain ⟨⟨⟨⟨hblank, hdouble⟩, hsingle⟩, hescape⟩, -⟩ := h
  simp [inWord, hblank, hdouble, hsingle, hescape]

/-- Plain characters are put behind those of the word. -/
theorem foldl_plain {cs : List Char} (h : ∀ c ∈ cs, isPlain c = true) {l : Lexer}
    (hstate : l.state = .word) :
    cs.foldl step l = { l with word := l.word ++ cs } := by
  induction cs generalizing l with
  | nil => simp
  | cons c cs ih =>
      obtain ⟨hc, hcs⟩ := List.forall_mem_cons.mp h
      have hstep : l.step c = l.push c := by
        rw [step, hstate]
        exact inWord_plain hc l
      rw [List.foldl_cons, hstep, ih hcs rfl]
      simp [push, hstate]

/-- The words that are finished stay. -/
theorem words_step (l : Lexer) (c : Char) : l.words <+: (l.step c).words := by
  have hinWord : l.words <+: (l.inWord c).words := by
    unfold inWord
    repeat' split
    all_goals simp [push]
  unfold step
  split
  · repeat' split
    all_goals first | exact List.prefix_rfl | exact hinWord
  · split <;> exact List.prefix_rfl
  · exact hinWord
  · split <;> exact List.prefix_rfl
  · split <;> exact List.prefix_rfl
  · repeat' split
    all_goals exact List.prefix_rfl
  · repeat' split
    all_goals exact List.prefix_rfl

theorem words_foldl (cs : List Char) (l : Lexer) : l.words <+: (cs.foldl step l).words := by
  induction cs generalizing l with
  | nil => exact List.prefix_rfl
  | cons c cs ih => exact (words_step l c).trans (ih _)

theorem words_finish {l : Lexer} {words : List (List Char)} (h : l.finish = some words) :
    l.words <+: words := by
  unfold finish at h
  split at h <;> cases h
  · exact List.prefix_rfl
  · exact List.prefix_rfl
  · exact List.prefix_append _ _

end Lexer

/-- The words of a line. -/
def shlexChars (cs : List Char) : Option (List (List Char)) :=
  (cs.foldl Lexer.step .start).finish

/-- The words of a line. -/
def shlexSplit (line : String) : Option (List String) :=
  (shlexChars line.toList).map fun words => words.map String.ofList

theorem foldl_blank {gap : List Char} (h : ∀ c ∈ gap, Lexer.isBlank c = true) {l : Lexer}
    (hstate : l.state = .between) : gap.foldl Lexer.step l = l := by
  induction gap with
  | nil => rfl
  | cons c gap ih =>
      obtain ⟨hc, hgap⟩ := List.forall_mem_cons.mp h
      have hstep : l.step c = l := by simp [Lexer.step, hstate, hc]
      rw [List.foldl_cons, hstep, ih hgap]

/-- A line that starts with plain characters, up to a blank or its end, has them as its first
word. -/
theorem shlexChars_plain {gap w rest : List Char} {words : List (List Char)}
    (hgap : ∀ c ∈ gap, Lexer.isBlank c = true) (hw : ∀ c ∈ w, Lexer.isPlain c = true)
    (hne : w ≠ []) (hrest : ∀ c ∈ rest.head?, Lexer.isBlank c = true)
    (h : shlexChars (gap ++ w ++ rest) = some words) : words.head? = some w := by
  obtain ⟨c, w, rfl⟩ := List.exists_cons_of_ne_nil hne
  obtain ⟨hc, hw⟩ := List.forall_mem_cons.mp hw
  have hfirst : Lexer.step .start c = ⟨[], .word, [c]⟩ := by
    have hplain := hc
    simp only [Lexer.isPlain, Bool.not_eq_true', Bool.or_eq_false_iff] at hc
    simp [Lexer.step, Lexer.start, hc.1.1.1.1, hc.2, Lexer.inWord_plain hplain, Lexer.push]
  have hread : (gap ++ (c :: w)).foldl Lexer.step .start = ⟨[], .word, c :: w⟩ := by
    rw [List.foldl_append, foldl_blank hgap rfl, List.foldl_cons, hfirst,
      Lexer.foldl_plain hw rfl]
    rfl
  rw [shlexChars, List.foldl_append, hread] at h
  cases rest with
  | nil =>
      cases h
      rfl
  | cons b rest =>
      have hb : Lexer.isBlank b = true := hrest b rfl
      have hend : Lexer.step ⟨[], .word, c :: w⟩ b = ⟨[c :: w], .between, []⟩ := by
        have hcases : b = ' ' ∨ b = '\t' ∨ b = '\n' := by
          simpa [Lexer.isBlank, or_assoc] using hb
        rcases hcases with rfl | rfl | rfl <;> rfl
      rw [List.foldl_cons, hend] at h
      obtain ⟨behind, rfl⟩ := (Lexer.words_foldl rest _).trans (Lexer.words_finish h)
      rfl

end ArmaraOS.Lib
