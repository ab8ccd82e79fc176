import ArmaraOS.Lib.Drops
import ArmaraOS.Runtime.ApplyHunks

/-!
What a patch leaves of a file (`apply_hunks` in `apply_patch.rs`).

Each line of the patched file is a line of the file, kept, or one that a hunk inserted. The code
carries the texts of the lines only: it writes the context of a hunk over the lines it matched,
which may differ in their trailing whitespace, and ends every line with the same newline. A file
that shows neither meets `Frame` (`applyHunks_frame_iff`).
-/

namespace ArmaraOS.Runtime

open ArmaraOS.Lib ArmaraOS.Text

/-! ### Lines with their origin -/

/-- A line of the patched file. A kept one is `raw` in the file; `spelling` is how the last hunk
whose context it matched spells it. -/
inductive PatchedLine where
  | kept (raw : RawLine) (spelling : List Char)
  | inserted (text : List Char)
deriving DecidableEq

namespace PatchedLine

/-- The text the code carries for the line. -/
def text : PatchedLine → List Char
  | kept _ spelling => spelling
  | inserted text => text

/-- The line of the file. -/
def raw? : PatchedLine → Option RawLine
  | kept raw _ => some raw
  | inserted _ => none

/-- The line as the context of a hunk spells it. -/
def respell : PatchedLine → List Char → PatchedLine
  | kept raw _, spelling => kept raw spelling
  | inserted _, spelling => inserted spelling

/-- What ends a line that no hunk touches: its own ending, or the newline that it gets where others
follow it. -/
def terminator (ending : LineEnding) : List Char :=
  if ending = .none then LineEnding.lf.chars else ending.chars

/-- The bytes of the line: those it has in the file, or those inserted. -/
def bytes (terminated : Bool) : PatchedLine → List Char
  | kept raw _ => raw.text ++ if terminated then terminator raw.ending else []
  | inserted text => text ++ if terminated then LineEnding.lf.chars else []

@[simp]
theorem text_respell (line : PatchedLine) (spelling : List Char) :
    (line.respell spelling).text = spelling := by
  cases line <;> rfl

@[simp]
theorem raw?_respell (line : PatchedLine) (spelling : List Char) :
    (line.respell spelling).raw? = line.raw? := by
  cases line <;> rfl

end PatchedLine

/-- The file, before any hunk. -/
def fileLayout (content : List Char) : List PatchedLine :=
  (rawLines content).map fun raw => .kept raw raw.text

/-- One hunk, on lines with their origin. -/
def patchHunk (number : Nat) (hunk : Hunk) (layout : List PatchedLine) :
    Except String (List PatchedLine) :=
  if hunk.anchor.isEmpty && hunk.oldLines.isEmpty then
    .ok (layout ++ hunk.newLines.map .inserted)
  else
    match hunk.place (layout.map PatchedLine.text) with
    | none => .error s!"Hunk {number} failed: could not find context/old lines in file"
    | some pos =>
        .ok (splice layout pos (hunk.contextBefore.length + hunk.oldLines.length)
          (List.zipWith PatchedLine.respell (layout.drop pos) hunk.contextBefore ++
            hunk.newLines.map .inserted))

/-- The hunks from the one with this number on. -/
def patchHunksFrom (number : Nat) : List Hunk → List PatchedLine → Except String (List PatchedLine)
  | [], layout => .ok layout
  | hunk :: hunks, layout =>
      match patchHunk number hunk layout with
      | .error e => .error e
      | .ok patched => patchHunksFrom (number + 1) hunks patched

/-- The lines that the hunks leave of a file. -/
def patchLayout (content : List Char) (hunks : List Hunk) : Except String (List PatchedLine) :=
  patchHunksFrom 1 hunks (fileLayout content)

/-! ### The code carries the texts -/

theorem findAnchorBy_le {same : List Char → List Char → Bool} {fileLines anchor : List (List Char)}
    {pos : Nat} (hne : anchor ≠ []) (h : findAnchorBy same fileLines anchor = some pos) :
    pos + anchor.length ≤ fileLines.length := by
  rw [findAnchorBy, if_neg (by simpa using hne)] at h
  split at h
  · cases h
  · have hmem := List.mem_of_find?_eq_some h
    rw [List.mem_range] at hmem
    omega

theorem Hunk.place_le {hunk : Hunk} {fileLines : List (List Char)} {pos : Nat}
    (hne : hunk.anchor ≠ []) (h : hunk.place fileLines = some pos) :
    pos + (hunk.contextBefore.length + hunk.oldLines.length) ≤ fileLines.length := by
  rw [← List.length_append]
  rcases Option.or_eq_some_iff.mp h with hexact | ⟨-, hfuzzy⟩
  · exact findAnchorBy_le hne hexact
  · exact findAnchorBy_le hne hfuzzy

theorem map_text_zipWith_respell {layout : List PatchedLine} {spellings : List (List Char)}
    (hlen : spellings.length ≤ layout.length) :
    (List.zipWith PatchedLine.respell layout spellings).map PatchedLine.text = spellings := by
  induction spellings generalizing layout with
  | nil => rw [List.zipWith_nil_right, List.map_nil]
  | cons spelling spellings ih =>
      cases layout with
      | nil => exact absurd hlen (Nat.not_succ_le_zero _)
      | cons line layout =>
          rw [List.zipWith_cons_cons, List.map_cons, PatchedLine.text_respell,
            ih (Nat.le_of_succ_le_succ hlen)]

theorem map_text_inserted (new : List (List Char)) :
    (new.map PatchedLine.inserted).map PatchedLine.text = new := by
  rw [List.map_map]
  exact List.map_id new

theorem map_text_fileLayout (content : List Char) :
    (fileLayout content).map PatchedLine.text = lines content := by
  rw [fileLayout, List.map_map, ← map_text_rawLines]
  rfl

/-- A hunk does the same to the texts of the lines. -/
theorem patchHunk_text (number : Nat) (hunk : Hunk) (layout : List PatchedLine) :
    (patchHunk number hunk layout).map (List.map PatchedLine.text) =
      applyHunk number hunk (layout.map PatchedLine.text) := by
  unfold patchHunk applyHunk
  by_cases hempty : (hunk.anchor.isEmpty && hunk.oldLines.isEmpty) = true
  · rw [if_pos hempty, if_pos hempty, Except.map, List.map_append, map_text_inserted]
  · rw [if_neg hempty, if_neg hempty]
    have hne : hunk.anchor ≠ [] := fun h => hempty (by
      obtain ⟨-, hold⟩ := List.append_eq_nil_iff.mp h
      rw [h, hold]
      rfl)
    cases hplace : hunk.place (layout.map PatchedLine.text) with
    | none => rfl
    | some pos =>
        have hle := Hunk.place_le hne hplace
        rw [List.length_map] at hle
        have hcontext := @map_text_zipWith_respell (layout.drop pos) hunk.contextBefore
          (by rw [List.length_drop]; omega)
        dsimp only [Except.map]
        rw [splice, splice, List.map_append, List.map_append, List.map_append, hcontext,
          map_text_inserted, List.map_take, List.map_drop]

theorem patchHunksFrom_text (number : Nat) (hunks : List Hunk) (layout : List PatchedLine) :
    (patchHunksFrom number hunks layout).map (List.map PatchedLine.text) =
      applyHunksFrom number hunks (layout.map PatchedLine.text) := by
  induction hunks generalizing number layout with
  | nil => rfl
  | cons hunk hunks ih =>
      rw [patchHunksFrom, applyHunksFrom, ← patchHunk_text]
      cases hpatch : patchHunk number hunk layout with
      | error e => rfl
      | ok patched => exact ih (number + 1) patched

/-- What `apply_hunks` returns, from the lines with their origin. -/
theorem applyHunks_eq (content : List Char) (hunks : List Hunk) :
    applyHunks content hunks =
      (patchLayout content hunks).map fun layout =>
        rejoin (endsWithNewline content) (layout.map PatchedLine.text) := by
  rw [applyHunks, ← map_text_fileLayout, ← patchHunksFrom_text, patchLayout]
  cases patchHunksFrom 1 hunks (fileLayout content) with
  | error e => rfl
  | ok layout => rfl

/-! ### What is kept -/

/-- Lines of a hunk, none of which holds a newline. -/
def Hunk.OfLines (hunk : Hunk) : Prop :=
  ∀ line ∈ hunk.contextBefore ++ hunk.oldLines ++ hunk.newLines ++ hunk.contextAfter, '\n' ∉ line

theorem raw?_zipWith_respell (layout : List PatchedLine) (spellings : List (List Char)) :
    (List.zipWith PatchedLine.respell layout spellings).filterMap PatchedLine.raw? =
      (layout.take spellings.length).filterMap PatchedLine.raw? := by
  induction spellings generalizing layout with
  | nil => rw [List.zipWith_nil_right, List.length_nil, List.take_zero]
  | cons spelling spellings ih =>
      cases layout with
      | nil => rfl
      | cons line layout =>
          rw [List.zipWith_cons_cons, List.length_cons, List.take_succ_cons, List.filterMap_cons,
            List.filterMap_cons, PatchedLine.raw?_respell, ih]

theorem raw?_inserted (new : List (List Char)) :
    (new.map PatchedLine.inserted).filterMap PatchedLine.raw? = [] := by
  rw [List.filterMap_map]
  exact List.filterMap_none new

/-- A hunk goes where the lines are those of its anchor, up to the blanks at their ends. -/
theorem Hunk.trimEnd_eq_of_place {hunk : Hunk} {fileLines : List (List Char)} {pos : Nat}
    (hne : hunk.anchor ≠ []) (h : hunk.place fileLines = some pos) {i : Nat}
    {expected line : List Char} (hexpected : hunk.anchor[i]? = some expected)
    (hline : fileLines[pos + i]? = some line) : trimEnd expected = trimEnd line := by
  have hfound : ∀ same : List Char → List Char → Bool,
      findAnchorBy same fileLines hunk.anchor = some pos → same line expected = true := by
    intro same hfind
    rw [findAnchorBy, if_neg (by simpa using hne)] at hfind
    split at hfind
    · cases hfind
    · rw [← List.getElem?_drop] at hline
      have hat : anchorAt same fileLines hunk.anchor pos = true := List.find?_some hfind
      exact List.all_eq_true.mp hat (expected, line)
        (List.mem_of_getElem? (List.getElem?_zip_eq_some.mpr ⟨hexpected, hline⟩))
  rcases Option.or_eq_some_iff.mp h with hexact | ⟨-, hfuzzy⟩
  · rw [beq_iff_eq.mp (hfound _ hexact)]
  · have heq := hfound _ hfuzzy
    exact (beq_iff_eq.mp heq).symm

/-- The hunk has the line among those it takes out. -/
def Hunk.Removes (hunk : Hunk) (raw : RawLine) : Prop :=
  ∃ old ∈ hunk.oldLines, trimEnd old = trimEnd raw.text

/-- The code carries the text of the file, up to the blanks at its end. -/
def PatchedLine.Spelled (line : PatchedLine) : Prop :=
  ∀ raw ∈ line.raw?, trimEnd line.text = trimEnd raw.text

/-- A hunk takes out lines that it has, and no other; it copies and moves none. -/
theorem patchHunk_drops {number : Nat} {hunk : Hunk} {layout patched : List PatchedLine}
    (h : patchHunk number hunk layout = .ok patched) (hspelled : ∀ line ∈ layout, line.Spelled) :
    (∀ line ∈ patched, line.Spelled) ∧ DropsOnly hunk.Removes
      (layout.filterMap PatchedLine.raw?) (patched.filterMap PatchedLine.raw?) := by
  have hinserted : ∀ line ∈ hunk.newLines.map PatchedLine.inserted, line.Spelled := by
    simp [PatchedLine.Spelled, PatchedLine.raw?]
  unfold patchHunk at h
  split at h
  · obtain rfl := Except.ok.inj h
    rw [List.filterMap_append, raw?_inserted, List.append_nil]
    exact ⟨List.forall_mem_append.mpr ⟨hspelled, hinserted⟩, .refl _⟩
  · rename_i hempty
    split at h
    · cases h
    · rename_i pos hplace
      obtain rfl := Except.ok.inj h
      have hne : hunk.anchor ≠ [] := fun h => hempty (by
        rw [h, (List.append_eq_nil_iff.mp h).2]
        rfl)
      have hmatch : ∀ {i : Nat} {line : PatchedLine} {expected : List Char},
          layout[pos + i]? = some line → hunk.anchor[i]? = some expected →
            trimEnd expected = trimEnd line.text := fun hline hexpected =>
        Hunk.trimEnd_eq_of_place hne hplace hexpected (by rw [List.getElem?_map, hline]; rfl)
      rw [splice]
      constructor
      · refine List.forall_mem_append.mpr ⟨List.forall_mem_append.mpr
          ⟨fun line hline => hspelled line (List.mem_of_mem_take hline),
            List.forall_mem_append.mpr ⟨fun line hline raw hraw => ?_, hinserted⟩⟩,
          fun line hline => hspelled line (List.mem_of_mem_drop hline)⟩
        obtain ⟨i, hi⟩ := List.mem_iff_getElem?.mp hline
        obtain ⟨before, spelling, hbefore, hspelling, rfl⟩ := List.getElem?_zipWith_eq_some.mp hi
        rw [List.getElem?_drop] at hbefore
        rw [PatchedLine.raw?_respell] at hraw
        rw [PatchedLine.text_respell, hmatch hbefore ((List.getElem?_append_left
          (List.getElem?_eq_some_iff.mp hspelling).1).trans hspelling)]
        exact hspelled before (List.mem_of_getElem? hbefore) raw hraw
      · rw [List.filterMap_append, List.filterMap_append, List.filterMap_append,
          raw?_zipWith_respell, raw?_inserted, List.append_nil,
          ← List.filterMap_append, ← List.take_add, ← List.filterMap_append, ← Nat.add_assoc]
        refine (DropsOnly.cut (p := fun line => ∀ raw ∈ line.raw?, hunk.Removes raw)
          fun line hline raw hraw => ?_).filterMap fun line _ hgone => hgone
        obtain ⟨i, hi⟩ := List.mem_iff_getElem?.mp hline
        rw [List.getElem?_take, Option.ite_none_right_eq_some, List.getElem?_drop] at hi
        refine ⟨hunk.oldLines[i], List.getElem_mem hi.1, (hmatch ((Nat.add_assoc ..) ▸ hi.2) ?_).trans
          (hspelled line (List.mem_of_getElem? hi.2) raw hraw)⟩
        rw [Hunk.anchor, List.getElem?_append_right (Nat.le_add_right _ _), Nat.add_sub_cancel_left,
          List.getElem?_eq_getElem hi.1]

/-- No hunk copies or moves a line of the file, and each line that goes is one of a hunk's. -/
theorem patchLayout_drops {content : List Char} {hunks : List Hunk} {layout : List PatchedLine}
    (h : patchLayout content hunks = .ok layout) :
    DropsOnly (fun raw => ∃ hunk ∈ hunks, hunk.Removes raw) (rawLines content)
      (layout.filterMap PatchedLine.raw?) := by
  have hfrom : ∀ {number : Nat} {hunks : List Hunk} {layout patched : List PatchedLine},
      patchHunksFrom number hunks layout = .ok patched → (∀ line ∈ layout, line.Spelled) →
        DropsOnly (fun raw => ∃ hunk ∈ hunks, hunk.Removes raw)
          (layout.filterMap PatchedLine.raw?) (patched.filterMap PatchedLine.raw?) := by
    intro number hunks
    induction hunks generalizing number with
    | nil =>
        intro layout patched h _
        obtain rfl := Except.ok.inj h
        exact .refl _
    | cons hunk hunks ih =>
        intro layout patched h hspelled
        rw [patchHunksFrom] at h
        split at h
        · cases h
        · rename_i middle hmiddle
          obtain ⟨hspelled, hdrops⟩ := patchHunk_drops hmiddle hspelled
          exact (hdrops.mono fun raw _ hraw => ⟨hunk, List.mem_cons_self, hraw⟩).trans
            ((ih h hspelled).mono fun raw _ ⟨later, hlater, hraw⟩ =>
              ⟨later, List.mem_cons_of_mem _ hlater, hraw⟩)
  have hfile : (fileLayout content).filterMap PatchedLine.raw? = rawLines content := by
    rw [fileLayout, List.filterMap_map]
    exact List.filterMap_some
  have hkept := hfrom h (by simp [fileLayout, PatchedLine.Spelled, PatchedLine.raw?, PatchedLine.text])
  rwa [hfile] at hkept

theorem applyHunk_newline {number : Nat} {hunk : Hunk} {fileLines patched : List (List Char)}
    (hhunk : hunk.OfLines) (hfile : ∀ line ∈ fileLines, '\n' ∉ line)
    (h : applyHunk number hunk fileLines = .ok patched) : ∀ line ∈ patched, '\n' ∉ line := by
  unfold applyHunk at h
  split at h
  · obtain rfl := Except.ok.inj h
    intro line hline
    rcases List.mem_append.mp hline with hline | hline
    · exact hfile line hline
    · exact hhunk line (by simp [hline])
  · split at h
    · cases h
    · obtain rfl := Except.ok.inj h
      refine newline_not_mem_splice hfile fun line hline => hhunk line ?_
      rcases List.mem_append.mp hline with hline | hline <;> simp [hline]

theorem applyHunksFrom_newline {number : Nat} {hunks : List Hunk}
    {fileLines patched : List (List Char)} (hhunks : ∀ hunk ∈ hunks, hunk.OfLines)
    (hfile : ∀ line ∈ fileLines, '\n' ∉ line)
    (h : applyHunksFrom number hunks fileLines = .ok patched) :
    ∀ line ∈ patched, '\n' ∉ line := by
  induction hunks generalizing number fileLines with
  | nil =>
      obtain rfl := Except.ok.inj h
      exact hfile
  | cons hunk hunks ih =>
      obtain ⟨hhunk, hrest⟩ := List.forall_mem_cons.mp hhunks
      rw [applyHunksFrom] at h
      split at h
      · cases h
      · rename_i middle hmiddle
        exact ih hrest (applyHunk_newline hhunk hfile hmiddle) h

/-- Without a newline in the line or in the text the code carries for it. -/
def PatchedLine.OneLine (line : PatchedLine) : Prop :=
  '\n' ∉ line.text ∧ ∀ raw ∈ line.raw?, '\n' ∉ raw.text

theorem patchLayout_oneLine {content : List Char} {hunks : List Hunk} {layout : List PatchedLine}
    (hhunks : ∀ hunk ∈ hunks, hunk.OfLines) (h : patchLayout content hunks = .ok layout) :
    ∀ line ∈ layout, line.OneLine := by
  have htexts := patchHunksFrom_text 1 hunks (fileLayout content)
  rw [← patchLayout, h, map_text_fileLayout] at htexts
  intro line hline
  refine ⟨applyHunksFrom_newline hhunks (fun _ => newline_not_mem_lines) htexts.symm _
    (List.mem_map_of_mem hline), fun raw hraw => ?_⟩
  have hmem := (patchLayout_drops h).sublist.subset (List.mem_filterMap.mpr ⟨line, hline, hraw⟩)
  refine @newline_not_mem_lines content _ ?_
  rw [← map_text_rawLines]
  exact List.mem_map_of_mem hmem

/-! ### The frame -/

/-- The bytes of the lines, with a newline at the end if the file had one. -/
def untouched (trailingNewline : Bool) (layout : List PatchedLine) : List Char :=
  match layout.getLast? with
  | none => if trailingNewline then LineEnding.lf.chars else []
  | some last => layout.dropLast.flatMap (PatchedLine.bytes true) ++ last.bytes trailingNewline

/-- The patched file keeps the lines that no hunk has among its old ones, in order, with their bytes
and endings, and whether there is a newline at its end. -/
structure Frame (content : List Char) (hunks : List Hunk) (layout : List PatchedLine)
    (result : List Char) : Prop where
  kept : DropsOnly (fun raw => ∃ hunk ∈ hunks, hunk.Removes raw) (rawLines content)
    (layout.filterMap PatchedLine.raw?)
  bytes : result = untouched (endsWithNewline content) layout
  finalNewline : endsWithNewline result = endsWithNewline content

/-- The text the code carries for the line, and its newline, are what the line has in the file. -/
def PatchedLine.SpelledAsInFile (terminated : Bool) (line : PatchedLine) : Prop :=
  line.text ++ (if terminated then LineEnding.lf.chars else []) = line.bytes terminated

/-- The lines stay as they are when the code joins their texts. -/
structure JoinsAsInFile (trailingNewline : Bool) (layout : List PatchedLine) : Prop where
  lines : ∀ line ∈ layout.dropLast, line.SpelledAsInFile true
  last : ∀ last ∈ layout.getLast?, last.SpelledAsInFile trailingNewline
  blank : ∀ last ∈ layout.getLast?, last.text = [] → layout.length = 1

theorem append_newline_inj {u v xs ys : List Char} (hu : '\n' ∉ u) (hv : '\n' ∉ v) :
    u ++ '\n' :: xs = v ++ '\n' :: ys ↔ u = v ∧ xs = ys := by
  induction u generalizing v with
  | nil =>
      cases v with
      | nil => simp
      | cons d v =>
          rw [List.mem_cons, not_or] at hv
          simp [hv.1]
  | cons c u ih =>
      rw [List.mem_cons, not_or] at hu
      cases v with
      | nil => simp [Ne.symm hu.1]
      | cons d v =>
          rw [List.mem_cons, not_or] at hv
          rw [List.cons_append, List.cons_append, List.cons.injEq, ih hu.2 hv.2, List.cons.injEq,
            and_assoc]

theorem PatchedLine.OneLine.exists_bytes {line : PatchedLine} (h : line.OneLine) :
    ∃ front, '\n' ∉ front ∧ line.bytes true = front ++ ['\n'] := by
  cases line with
  | kept raw spelling =>
      have hraw := h.2 raw rfl
      obtain ⟨text, ending⟩ := raw
      cases ending with
      | none => exact ⟨text, hraw, rfl⟩
      | lf => exact ⟨text, hraw, rfl⟩
      | crlf => exact ⟨text ++ ['\r'], by simpa using hraw, by simp [bytes, terminator,
          LineEnding.chars]⟩
  | inserted text => exact ⟨text, h.1, rfl⟩

/-- Texts with a newline each are the bytes of the lines if and only if each of them is. -/
theorem flatMap_text_eq_iff {front : List PatchedLine} (hfront : ∀ line ∈ front, line.OneLine)
    {xs ys : List Char} :
    front.flatMap (fun line => line.text ++ ['\n']) ++ xs =
        front.flatMap (PatchedLine.bytes true) ++ ys ↔
      (∀ line ∈ front, line.SpelledAsInFile true) ∧ xs = ys := by
  induction front with
  | nil => simp
  | cons line front ih =>
      obtain ⟨hline, hfront⟩ := List.forall_mem_cons.mp hfront
      obtain ⟨u, hu, hbytes⟩ := hline.exists_bytes
      have hspelled : line.SpelledAsInFile true ↔ line.text = u := by
        rw [PatchedLine.SpelledAsInFile, hbytes, if_pos rfl]
        exact List.append_left_inj ['\n']
      rw [List.flatMap_cons, List.flatMap_cons, hbytes, List.append_assoc, List.append_assoc,
        List.append_assoc, List.append_assoc, List.singleton_append, List.singleton_append,
        append_newline_inj hline.1 hu, ih hfront, List.forall_mem_cons, hspelled, and_assoc]

theorem joinLines_texts (front : List PatchedLine) (last : PatchedLine) :
    joinLines ((front ++ [last]).map PatchedLine.text) =
      front.flatMap (fun line => line.text ++ ['\n']) ++ last.text := by
  rw [List.map_append, List.map_singleton, ← flatMap_joinLines, List.flatMap_map]

/-- The texts joined are the lines untouched if and only if each line is spelled as in the file and
the last one is not lost. -/
theorem rejoin_eq_untouched_iff {trailingNewline : Bool} {layout : List PatchedLine}
    (hlines : ∀ line ∈ layout, line.OneLine) :
    (rejoin trailingNewline (layout.map PatchedLine.text) = untouched trailingNewline layout ∧
      endsWithNewline (rejoin trailingNewline (layout.map PatchedLine.text)) = trailingNewline) ↔
      JoinsAsInFile trailingNewline layout := by
  rcases List.eq_nil_or_concat' layout with rfl | ⟨front, last, rfl⟩
  · refine iff_of_true ?_ ⟨by simp, by simp, by simp⟩
    cases trailingNewline <;> exact ⟨rfl, rfl⟩
  have hfront : ∀ line ∈ front, line.OneLine := fun line h => hlines line (by simp [h])
  have hlast : last.OneLine := hlines last (by simp)
  have hends : endsWithNewline (joinLines ((front ++ [last]).map PatchedLine.text)) = true ↔
      last.text = [] ∧ front ≠ [] := by
    rw [List.map_append, List.map_singleton, endsWithNewline_concat hlast.1]
    simp
  have huntouched : untouched trailingNewline (front ++ [last]) =
      front.flatMap (PatchedLine.bytes true) ++ last.bytes trailingNewline := by
    rw [untouched, List.getLast?_concat, List.dropLast_concat]
  rw [huntouched, rejoin]
  by_cases hblank : last.text = [] ∧ front ≠ []
  · -- The last line is lost, or read as the newline at the end.
    have hnone : (trailingNewline && !endsWithNewline
        (joinLines ((front ++ [last]).map PatchedLine.text))) = false := by
      rw [hends.mpr hblank, Bool.not_true, Bool.and_false]
    rw [hnone, if_neg Bool.false_ne_true]
    refine iff_of_false ?_ fun h => ?_
    · rintro ⟨hbytes, hnewline⟩
      rw [hends.mpr hblank] at hnewline
      rw [joinLines_texts, flatMap_text_eq_iff hfront, ← hnewline, hblank.1] at hbytes
      obtain ⟨u, -, hu⟩ := hlast.exists_bytes
      rw [hu] at hbytes
      exact List.append_ne_nil_of_right_ne_nil u (List.cons_ne_nil _ _) hbytes.2.symm
    · have hone := h.blank last List.getLast?_concat hblank.1
      rw [List.length_append, List.length_singleton, Nat.add_eq_right,
        List.length_eq_zero_iff] at hone
      exact hblank.2 hone
  · have hnone : endsWithNewline (joinLines ((front ++ [last]).map PatchedLine.text)) = false :=
      Bool.eq_false_iff.mpr (mt hends.mp hblank)
    have hresult : (if (trailingNewline && !endsWithNewline
          (joinLines ((front ++ [last]).map PatchedLine.text))) = true then
          joinLines ((front ++ [last]).map PatchedLine.text) ++ ['\n']
        else joinLines ((front ++ [last]).map PatchedLine.text)) =
        joinLines ((front ++ [last]).map PatchedLine.text) ++
          if trailingNewline then LineEnding.lf.chars else [] := by
      rw [hnone]
      cases trailingNewline
      · exact (List.append_nil _).symm
      · rfl
    have hnewline : endsWithNewline (joinLines ((front ++ [last]).map PatchedLine.text) ++
        if trailingNewline then LineEnding.lf.chars else []) = trailingNewline := by
      cases trailingNewline
      · rw [if_neg Bool.false_ne_true, List.append_nil, hnone]
      · rw [if_pos rfl, endsWithNewline_iff]
        exact List.getLast?_concat
    rw [hresult, hnewline, joinLines_texts, List.append_assoc, flatMap_text_eq_iff hfront,
      and_iff_left rfl]
    constructor
    · rintro ⟨hspelled, hend⟩
      exact
        { lines := by rwa [List.dropLast_concat]
          last := fun line hline => by
            rw [List.getLast?_concat, Option.mem_some_iff] at hline
            rwa [← hline]
          blank := fun line hline hempty => by
            rw [List.getLast?_concat, Option.mem_some_iff] at hline
            rw [← hline] at hempty
            have hnil : front = [] := not_not.mp fun hne => hblank ⟨hempty, hne⟩
            rw [hnil]
            rfl }
    · intro h
      have hspelled := h.lines
      rw [List.dropLast_concat] at hspelled
      exact ⟨hspelled, h.last last List.getLast?_concat⟩

/-- For every file and hunks: what is kept stays untouched if and only if each kept line, as the
code carries it, reads as in the file with a newline behind it, and the last line left is not
empty. -/
theorem applyHunks_frame_iff {content result : List Char} {hunks : List Hunk}
    (hhunks : ∀ hunk ∈ hunks, hunk.OfLines) (hrun : applyHunks content hunks = .ok result) :
    ∃ layout, patchLayout content hunks = .ok layout ∧
      (Frame content hunks layout result ↔ JoinsAsInFile (endsWithNewline content) layout) := by
  rw [applyHunks_eq] at hrun
  cases hlayout : patchLayout content hunks with
  | error e =>
      rw [hlayout] at hrun
      cases hrun
  | ok layout =>
      rw [hlayout] at hrun
      obtain rfl := Except.ok.inj hrun
      refine ⟨layout, rfl, ?_⟩
      rw [← rejoin_eq_untouched_iff (patchLayout_oneLine hhunks hlayout)]
      refine ⟨fun h => ⟨h.bytes, h.finalNewline⟩, fun h => ?_⟩
      exact
        { kept := patchLayout_drops hlayout
          bytes := h.1
          finalNewline := h.2 }

/-- A file with two lines, and a hunk for the second. -/
theorem applyHunks_frame_iff_second :
    let hunk : Hunk :=
      { contextBefore := ["a".toList], oldLines := ["b".toList], newLines := ["c".toList] }
    ∃ layout, patchLayout "a\nb\n".toList [hunk] = .ok layout ∧
      (Frame "a\nb\n".toList [hunk] layout "a\nc\n".toList ↔ JoinsAsInFile true layout) := by
  refine applyHunks_frame_iff (fun hunk hhunk => ?_) (by decide +kernel)
  obtain rfl := List.mem_singleton.mp hhunk
  unfold Hunk.OfLines
  decide +kernel

/-- A line that no hunk matches loses its carriage return. -/
theorem applyHunks_not_frame :
    ¬ ∀ content hunks result layout, applyHunks content hunks = .ok result →
      patchLayout content hunks = .ok layout → Frame content hunks layout result := by
  intro h
  have hframe := h "a\r\nb\r\n".toList [{ oldLines := ["b".toList], newLines := ["c".toList] }]
    "a\nc\n".toList [.kept ⟨"a".toList, .crlf⟩ "a".toList, .inserted "c".toList]
    (by decide +kernel) (by decide +kernel)
  exact absurd hframe.bytes (by decide +kernel)

/-! ### The hunks of a patch -/

theorem HunkReader.context_ofLines {r : HunkReader} {text : List Char} (hr : r.hunk.OfLines)
    (htext : '\n' ∉ text) : (r.context text).hunk.OfLines := by
  unfold HunkReader.context
  unfold Hunk.OfLines at hr ⊢
  split
  · intro line hline
    simp only [List.mem_append, List.mem_singleton] at hr hline
    grind
  · intro line hline
    simp only [List.mem_append, List.mem_singleton] at hr hline
    grind

theorem HunkReader.read_ofLines {r : HunkReader} {hl : List Char} (hr : r.hunk.OfLines)
    (hline : '\n' ∉ hl) : (r.read hl).hunk.OfLines := by
  have hstripped : ∀ {pat : String} {stripped : List Char}, stripPrefix pat hl = some stripped →
      '\n' ∉ stripped := by
    intro pat stripped h hnewline
    rw [stripPrefix_eq_some] at h
    exact hline (h ▸ List.mem_append_right _ hnewline)
  unfold HunkReader.read
  split
  · rename_i stripped hold
    have hfree := hstripped hold
    unfold Hunk.OfLines at hr ⊢
    intro line hmem
    simp only [List.mem_append, List.mem_singleton] at hr hmem
    grind
  · split
    · rename_i stripped hnew
      have hfree := hstripped hnew
      unfold Hunk.OfLines at hr ⊢
      intro line hmem
      simp only [List.mem_append, List.mem_singleton] at hr hmem
      grind
    · split
      · rename_i stripped hcontext
        exact HunkReader.context_ofLines hr (hstripped hcontext)
      · split
        · exact HunkReader.context_ofLines hr List.not_mem_nil
        · exact HunkReader.context_ofLines hr hline

theorem parseHunkBody_ofLines {r : HunkReader} {ls : List (List Char)} (hr : r.hunk.OfLines)
    (hls : ∀ line ∈ ls, '\n' ∉ line) :
    (parseHunkBody r ls).1.OfLines ∧ (parseHunkBody r ls).2 ⊆ ls := by
  induction ls generalizing r with
  | nil => exact ⟨hr, List.Subset.refl _⟩
  | cons hl rest ih =>
      obtain ⟨hline, hrest⟩ := List.forall_mem_cons.mp hls
      rw [parseHunkBody]
      split
      · exact ⟨hr, List.Subset.refl _⟩
      · obtain ⟨hhunk, hbehind⟩ := ih (HunkReader.read_ofLines hr hline) hrest
        exact ⟨hhunk, fun line h => List.mem_cons_of_mem _ (hbehind h)⟩

theorem parseHunks_ofLines {ls : List (List Char)} (hls : ∀ line ∈ ls, '\n' ∉ line) :
    (∀ hunk ∈ (parseHunks ls).1, hunk.OfLines) ∧ (parseHunks ls).2 ⊆ ls := by
  have hempty : Hunk.OfLines {} := fun line h => absurd h List.not_mem_nil
  induction ls using parseHunks.induct with
  | case1 =>
      rw [parseHunks]
      exact ⟨fun _ h => absurd h List.not_mem_nil, List.Subset.refl _⟩
  | case2 l rest hsection =>
      rw [parseHunks, if_pos hsection]
      exact ⟨fun _ h => absurd h List.not_mem_nil, List.Subset.refl _⟩
  | case3 l rest hsection hhunk body ih =>
      obtain ⟨-, hrest⟩ := List.forall_mem_cons.mp hls
      obtain ⟨hbody, hsubset⟩ := @parseHunkBody_ofLines {} rest hempty hrest
      obtain ⟨hhunks, hbehind⟩ := ih fun line h => hrest line (hsubset h)
      rw [parseHunks, if_neg hsection, if_pos hhunk]
      exact ⟨List.forall_mem_cons.mpr ⟨hbody, hhunks⟩,
        fun line h => List.mem_cons_of_mem _ (hsubset (hbehind h))⟩
  | case4 l rest hsection hhunk ih =>
      obtain ⟨-, hrest⟩ := List.forall_mem_cons.mp hls
      obtain ⟨hhunks, hbehind⟩ := ih hrest
      rw [parseHunks, if_neg hsection, if_neg hhunk]
      exact ⟨hhunks, fun line h => List.mem_cons_of_mem _ (hbehind h)⟩

theorem parseContent_subset {ls content behind : List (List Char)}
    (h : parseContent ls = .ok (content, behind)) : behind ⊆ ls := by
  induction ls generalizing content with
  | nil =>
      obtain ⟨-, rfl⟩ := Prod.mk.inj (Except.ok.inj h)
      exact List.Subset.refl _
  | cons l rest ih =>
      rw [parseContent] at h
      split at h
      · obtain ⟨-, rfl⟩ := Prod.mk.inj (Except.ok.inj h)
        exact List.Subset.refl _
      · split at h
        · split at h
          · cases h
          · rename_i content' behind' hrest
            obtain ⟨-, rfl⟩ := Prod.mk.inj (Except.ok.inj h)
            exact fun line hline => List.mem_cons_of_mem _ (ih hrest hline)
        · split at h
          · cases h
          · exact fun line hline => List.mem_cons_of_mem _ (ih h hline)

theorem Turn.ofLines {line : List Char} {rest behind : List (List Char)} {op : Option PatchOp}
    (h : Turn line rest op behind) (hrest : ∀ l ∈ rest, '\n' ∉ l) :
    (∀ hunk ∈ op.toList.flatMap PatchOp.hunks, hunk.OfLines) ∧ behind ⊆ rest := by
  cases h with
  | added _ hcontent =>
      exact ⟨fun _ h => absurd h List.not_mem_nil, parseContent_subset hcontent⟩
  | updated _ _ => simpa [PatchOp.hunks] using parseHunks_ofLines hrest
  | deleted _ => exact ⟨fun _ h => absurd h List.not_mem_nil, List.Subset.refl _⟩
  | blank _ => exact ⟨fun _ h => absurd h List.not_mem_nil, List.Subset.refl _⟩

theorem parseOps_ofLines {ls : List (List Char)} {ops : List PatchOp}
    (hls : ∀ line ∈ ls, '\n' ∉ line) (h : parseOps ls = .ok ops) :
    ∀ hunk ∈ ops.flatMap PatchOp.hunks, hunk.OfLines := by
  induction hlen : ls.length using Nat.strong_induction_on generalizing ls ops with
  | _ n ih =>
      cases ls with
      | nil =>
          rw [parseOps] at h
          obtain rfl := Except.ok.inj h
          exact fun _ h => absurd h List.not_mem_nil
      | cons l rest =>
          obtain ⟨op, behind, ops', hturn, hbehind, rfl⟩ := exists_of_parseOps_cons h
          obtain ⟨-, hrest⟩ := List.forall_mem_cons.mp hls
          obtain ⟨hhunks, hsubset⟩ := hturn.ofLines hrest
          have hshort : behind.length < n := by
            rw [← hlen]
            exact Nat.lt_succ_of_le hturn.passes.length
          rw [List.flatMap_append]
          exact List.forall_mem_append.mpr
            ⟨hhunks, ih _ hshort (fun line h => hrest line (hsubset h)) hbehind rfl⟩

/-- The hunks of a patch that is parsed are lists of lines. -/
theorem parsePatch_ofLines {input : List Char} {ops : List PatchOp}
    (h : parsePatch input = .ok ops) : ∀ hunk ∈ ops.flatMap PatchOp.hunks, hunk.OfLines := by
  unfold parsePatch at h
  dsimp only at h
  split at h
  · cases h
  · split at h
    · cases h
    · split at h
      · cases h
      · split at h
        · cases h
        · rename_i ops' hops
          split at h
          · cases h
          · obtain rfl := Except.ok.inj h
            refine parseOps_ofLines (fun line hline => ?_) hops
            exact newline_not_mem_lines
              (List.mem_of_mem_take (List.mem_of_mem_drop hline))

end ArmaraOS.Runtime
