import Mathlib.Data.List.DropRight
import ArmaraOS.Lib.Text

/-!
Lines of a text (`str::lines`), and what trimming does to a line.

A text that is joined from lines is cut into the same lines again, when none of them holds a
newline or ends with the carriage return that would become part of the line ending.
-/

namespace ArmaraOS.Text

/-! ### Lines -/

/-- A line without the carriage return of its line ending. -/
def stripCarriageReturn (line : List Char) : List Char :=
  if line.getLast? = some '\r' then line.dropLast else line

/-- `str::lines`. -/
def lines (text : List Char) : List (List Char) :=
  let pieces := text.splitOn '\n'
  let last := pieces.getLast?.getD []
  pieces.dropLast.map stripCarriageReturn ++ if last.isEmpty then [] else [last]

/-- `lines.join("\n")`. -/
def joinLines (ls : List (List Char)) : List Char := ['\n'].intercalate ls

/-- A line that comes back as it is: no newline, and no carriage return in front of one. -/
structure IsLine (line : List Char) : Prop where
  newline : '\n' ∉ line
  carriageReturn : line.getLast? ≠ some '\r'

instance : DecidablePred IsLine := fun line =>
  decidable_of_iff ('\n' ∉ line ∧ line.getLast? ≠ some '\r')
    ⟨fun h => ⟨h.1, h.2⟩, fun h => ⟨h.newline, h.carriageReturn⟩⟩

theorem joinLines_splitOn (text : List Char) : joinLines (text.splitOn '\n') = text :=
  List.intercalate_splitOn '\n'

theorem joinLines_cons (line : List Char) {ls : List (List Char)} (hne : ls ≠ []) :
    joinLines (line :: ls) = line ++ '\n' :: joinLines ls := by
  cases ls with
  | nil => exact absurd rfl hne
  | cons l ls => simp [joinLines, List.intercalate]

theorem joinLines_concat {front : List (List Char)} (hne : front ≠ []) (last : List Char) :
    joinLines (front ++ [last]) = joinLines front ++ '\n' :: last := by
  induction front with
  | nil => exact absurd rfl hne
  | cons line front ih =>
      rcases List.eq_nil_or_concat' front with rfl | hfront
      · simp [joinLines, List.intercalate]
      · have hfront : front ≠ [] := by
          obtain ⟨_, _, rfl⟩ := hfront
          simp
        rw [List.cons_append, joinLines_cons line (by simp), joinLines_cons line hfront,
          ih hfront, List.append_assoc, List.cons_append]

/-- Joined lines without newlines are cut where they were joined. -/
theorem lines_joinLines_concat {front : List (List Char)} {last : List Char}
    (hfree : ∀ line ∈ front ++ [last], '\n' ∉ line) :
    lines (joinLines (front ++ [last])) =
      front.map stripCarriageReturn ++ if last.isEmpty then [] else [last] := by
  have hpieces : (joinLines (front ++ [last])).splitOn '\n' = front ++ [last] :=
    List.splitOn_intercalate '\n' hfree (by simp)
  simp [lines, hpieces]

theorem lines_joinLines {front : List (List Char)} {last : List Char}
    (hfront : ∀ line ∈ front, IsLine line) (hlast : '\n' ∉ last) (hne : last ≠ []) :
    lines (joinLines (front ++ [last])) = front ++ [last] := by
  have hstrip : front.map stripCarriageReturn = front := by
    refine (List.map_congr_left fun line hline => ?_).trans (List.map_id front)
    exact if_neg (hfront line hline).carriageReturn
  rw [lines_joinLines_concat fun line hline => ?_, hstrip, if_neg (by simpa using hne)]
  rcases List.mem_append.mp hline with hline | hline
  · exact (hfront line hline).newline
  · rwa [List.mem_singleton.mp hline]

theorem newline_not_mem_splitOn {text piece : List Char} (h : piece ∈ text.splitOn '\n') :
    '\n' ∉ piece := by
  induction text generalizing piece with
  | nil =>
      obtain rfl : piece = [] := by simpa using h
      exact List.not_mem_nil
  | cons c text ih =>
      rw [List.splitOn_cons_eq_if_modifyHead] at h
      split at h
      · rcases List.mem_cons.mp h with rfl | h
        · exact List.not_mem_nil
        · exact ih h
      · rename_i hc
        cases hsplit : text.splitOn '\n' with
        | nil => exact absurd hsplit (List.splitOn_ne_nil '\n' text)
        | cons head pieces =>
            rw [hsplit, List.modifyHead_cons] at h
            rw [hsplit] at ih
            rcases List.mem_cons.mp h with rfl | h
            · rw [List.mem_cons, not_or]
              exact ⟨fun hnewline => hc (beq_iff_eq.mpr hnewline.symm), ih List.mem_cons_self⟩
            · exact ih (List.mem_cons_of_mem _ h)

theorem stripCarriageReturn_isPrefix (line : List Char) : stripCarriageReturn line <+: line := by
  unfold stripCarriageReturn
  split
  · exact List.dropLast_prefix line
  · exact List.prefix_rfl

/-- No line of a text holds a newline. -/
theorem newline_not_mem_lines {text line : List Char} (h : line ∈ lines text) : '\n' ∉ line := by
  unfold lines at h
  rcases List.mem_append.mp h with h | h
  · obtain ⟨piece, hpiece, rfl⟩ := List.mem_map.mp h
    have hfree := newline_not_mem_splitOn (List.dropLast_subset _ hpiece)
    exact fun hnewline => hfree ((stripCarriageReturn_isPrefix piece).subset hnewline)
  · split at h
    · exact absurd h List.not_mem_nil
    · rename_i hne
      obtain rfl := List.mem_singleton.mp h
      cases hlast : (text.splitOn '\n').getLast? with
      | none => simp [hlast] at hne
      | some last => exact newline_not_mem_splitOn (List.mem_of_getLast? hlast)

/-! ### Lines with their endings -/

/-- What ends a line; `none` at the end of a text. -/
inductive LineEnding where
  | none
  | lf
  | crlf
deriving DecidableEq

/-- The characters of an ending. -/
def LineEnding.chars : LineEnding → List Char
  | .none => []
  | .lf => ['\n']
  | .crlf => ['\r', '\n']

/-- A line of a text, with what ends it. -/
structure RawLine where
  text : List Char
  ending : LineEnding
deriving DecidableEq

/-- A line that a newline ends. -/
def RawLine.ofPiece (piece : List Char) : RawLine where
  text := stripCarriageReturn piece
  ending := if piece.getLast? = some '\r' then .crlf else .lf

/-- `str::lines`, with the endings. -/
def rawLines (text : List Char) : List RawLine :=
  let pieces := text.splitOn '\n'
  let last := pieces.getLast?.getD []
  pieces.dropLast.map RawLine.ofPiece ++ if last.isEmpty then [] else [⟨last, .none⟩]

theorem map_text_rawLines (text : List Char) : (rawLines text).map RawLine.text = lines text := by
  unfold rawLines lines
  dsimp only
  rw [List.map_append, List.map_map]
  refine congrArg₂ (· ++ ·) rfl ?_
  split
  · rfl
  · rfl

theorem RawLine.ofPiece_chars (piece : List Char) :
    (RawLine.ofPiece piece).text ++ (RawLine.ofPiece piece).ending.chars = piece ++ ['\n'] := by
  unfold RawLine.ofPiece stripCarriageReturn
  dsimp only
  split
  · rename_i hreturn
    obtain ⟨front, rfl⟩ := List.getLast?_eq_some_iff.mp hreturn
    rw [List.dropLast_concat, List.append_assoc]
    rfl
  · rfl

theorem flatMap_joinLines (front : List (List Char)) (last : List Char) :
    front.flatMap (fun piece => piece ++ ['\n']) ++ last = joinLines (front ++ [last]) := by
  induction front with
  | nil => simp [joinLines, List.intercalate]
  | cons piece front ih =>
      rw [List.cons_append, joinLines_cons piece (by simp), ← ih, List.flatMap_cons,
        List.append_assoc, List.append_assoc, List.singleton_append]

/-- A text is its lines with their endings. -/
theorem flatMap_rawLines (text : List Char) :
    (rawLines text).flatMap (fun raw => raw.text ++ raw.ending.chars) = text := by
  conv => rhs; rw [← joinLines_splitOn text]
  unfold rawLines
  dsimp only
  generalize hpieces : text.splitOn '\n' = pieces
  rcases List.eq_nil_or_concat' pieces with rfl | ⟨front, last, rfl⟩
  · exact absurd hpieces (List.splitOn_ne_nil '\n' text)
  · rw [List.dropLast_concat, List.getLast?_concat, Option.getD_some, List.flatMap_append,
      List.flatMap_map, ← flatMap_joinLines]
    simp only [RawLine.ofPiece_chars]
    refine congrArg _ ?_
    split
    · rename_i hempty
      rw [List.isEmpty_iff.mp hempty]
      rfl
    · simp [LineEnding.chars]

/-! ### Trimming -/

/-- `str::trim`, on characters. -/
def trimmed (line : List Char) : List Char := trimChars isWhitespace line

theorem trimmed_space {line : List Char} : trimmed (' ' :: line) = trimmed line := by
  simp [trimmed, trimChars, show isWhitespace ' ' = true by decide]

theorem trimmed_concat_blank {c : Char} (hc : isWhitespace c = true) (line : List Char) :
    trimmed (line ++ [c]) = trimmed line := by
  rw [trimmed, trimmed, trimChars, trimChars, List.dropWhile_append]
  split
  · rename_i hblank
    simp [List.isEmpty_iff.mp hblank, hc]
  · rw [List.reverse_append, List.reverse_singleton, List.singleton_append,
      List.dropWhile_cons_of_pos hc]

theorem trimmed_concat_space {line : List Char} : trimmed (line ++ [' ']) = trimmed line :=
  trimmed_concat_blank (by decide) line

theorem trimmed_cons {c : Char} (hc : isWhitespace c = false) (line : List Char) :
    trimmed (c :: line) = (c :: line).rdropWhile isWhitespace := by
  rw [trimmed, trimChars, List.dropWhile_cons_of_neg (by simp [hc]), List.rdropWhile]

theorem trimmed_cons_head {c : Char} (hc : isWhitespace c = false) (line : List Char) :
    ∃ rest, trimmed (c :: line) = c :: rest := by
  have hpre : trimmed (c :: line) <+: c :: line := by
    rw [trimmed_cons hc]
    exact List.rdropWhile_prefix _ _
  cases htrim : trimmed (c :: line) with
  | nil =>
      rw [trimmed_cons hc, List.rdropWhile_eq_nil_iff] at htrim
      exact absurd (htrim c List.mem_cons_self) (by simp [hc])
  | cons d rest =>
      rw [htrim] at hpre
      obtain ⟨rfl, -⟩ := List.cons_prefix_cons.mp hpre
      exact ⟨rest, rfl⟩

theorem trimmed_cons_blank {c : Char} (hc : isWhitespace c = true) (line : List Char) :
    trimmed (c :: line) = trimmed line := by
  rw [trimmed, trimmed, trimChars, trimChars, List.dropWhile_cons_of_pos hc]

theorem trimmed_trimmed (line : List Char) : trimmed (trimmed line) = trimmed line := by
  induction line with
  | nil => rfl
  | cons c line ih =>
      cases hc : isWhitespace c with
      | true => rw [trimmed_cons_blank hc, ih]
      | false =>
          obtain ⟨rest, hrest⟩ := trimmed_cons_head hc line
          have hstable : (c :: rest).rdropWhile isWhitespace = c :: rest := by
            rw [← hrest, trimmed_cons hc, List.rdropWhile_idempotent]
          rw [hrest, trimmed_cons hc, hstable]

/-- A text that is trimmed stays as it is when it is trimmed again. -/
theorem trim_trim (s : String) : trim (trim s) = trim s := by
  have h := trimmed_trimmed s.toList
  rw [trimmed, trimmed] at h
  rw [trim, trim, String.toList_ofList, h]

/-- A trimmed line does not end in whitespace. -/
theorem isWhitespace_getLast {line : List Char} (hline : trimmed line = line) (hne : line ≠ []) :
    isWhitespace (line.getLast hne) = false := by
  have hdrop : (line.dropWhile isWhitespace).rdropWhile isWhitespace = line := hline
  have h := List.rdropWhile_last_not isWhitespace (line.dropWhile isWhitespace)
    (by rw [hdrop]; exact hne)
  simpa only [hdrop, Bool.not_eq_true] using h

/-- A trimmed line does not start with whitespace. -/
theorem exists_of_trimmed {line : List Char} (hline : trimmed line = line) (hne : line ≠ []) :
    ∃ c rest, line = c :: rest ∧ isWhitespace c = false := by
  cases line with
  | nil => exact absurd rfl hne
  | cons c rest =>
      refine ⟨c, rest, rfl, Bool.eq_false_iff.mpr fun hc => ?_⟩
      have hprefix : trimmed (c :: rest) <+: rest.dropWhile isWhitespace := by
        rw [trimmed, trimChars, List.dropWhile_cons_of_pos hc]
        exact List.rdropWhile_prefix _ _
      rw [hline] at hprefix
      have hlong := hprefix.length_le
      have hshort := (List.dropWhile_suffix isWhitespace (l := rest)).length_le
      rw [List.length_cons] at hlong
      omega

theorem trimmed_of_noSpace {line : List Char} (h : ∀ c ∈ line, isWhitespace c = false) :
    trimmed line = line := by
  cases line with
  | nil => rfl
  | cons c line =>
      rw [trimmed_cons (h c List.mem_cons_self), List.rdropWhile_eq_self_iff]
      intro hne
      simp [h _ (List.getLast_mem hne)]

/-- A line that starts with text and ends with a trimmed one is trimmed. -/
theorem trimmed_append {c : Char} (hc : isWhitespace c = false) (front : List Char)
    {path : List Char} (hne : path ≠ []) (hpath : trimmed path = path) :
    trimmed (c :: front ++ path) = c :: front ++ path := by
  rw [List.cons_append, trimmed_cons hc, List.rdropWhile_eq_self_iff]
  intro hne'
  have hlast := isWhitespace_getLast hpath hne
  simpa [List.getLast_append_of_ne_nil, hne] using hlast

/-! ### Lines in front of which something stands -/

theorem IsLine.cons {line : List Char} (h : IsLine line) {c : Char} (hnewline : c ≠ '\n')
    (hreturn : c ≠ '\r') : IsLine (c :: line) where
  newline := by
    rw [List.mem_cons, not_or]
    exact ⟨hnewline.symm, h.newline⟩
  carriageReturn := by
    cases line with
    | nil => simpa using hreturn
    | cons d line => simpa using h.carriageReturn

theorem isLine_append {front line : List Char} (hfront : '\n' ∉ front) (hline : '\n' ∉ line)
    (htrim : trimmed line = line) (hne : line ≠ []) : IsLine (front ++ line) where
  newline := by
    rw [List.mem_append, not_or]
    exact ⟨hfront, hline⟩
  carriageReturn := by
    have hlast := isWhitespace_getLast htrim hne
    rw [List.getLast?_append_of_ne_nil _ hne, List.getLast?_eq_some_getLast hne]
    intro hreturn
    rw [Option.some.inj hreturn] at hlast
    exact absurd hlast (by decide)

end ArmaraOS.Text
