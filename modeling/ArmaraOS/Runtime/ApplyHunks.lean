import ArmaraOS.Lib.Splice
import ArmaraOS.Runtime.ApplyPatch

/-!
Applying hunks to the content of a file (`apply_hunks` in `apply_patch.rs`).

A hunk goes to the first place where its context in front and its old lines stand. The context
behind is not read, so the place can be another than the one where the whole hunk fits.
-/

namespace ArmaraOS.Runtime

open ArmaraOS.Lib ArmaraOS.Text

/-! ### The anchor -/

/-- The lines that are searched for. -/
def Hunk.anchor (hunk : Hunk) : List (List Char) := hunk.contextBefore ++ hunk.oldLines

section Search

variable (same : List Char → List Char → Bool) (fileLines anchor : List (List Char))

/-- From the line `start` on the file has the lines of the anchor. -/
def anchorAt (start : Nat) : Bool :=
  (anchor.zip (fileLines.drop start)).all fun (expected, line) => same line expected

/-- The search of `find_anchor` and `find_anchor_fuzzy`, which differ in how they compare lines. -/
def findAnchorBy : Option Nat :=
  if anchor.isEmpty then some fileLines.length
  else if fileLines.length < anchor.length then none
  else
    (List.range (fileLines.length - anchor.length + 1)).find? (anchorAt same fileLines anchor)

end Search

/-- `find_anchor`. -/
def findAnchor : List (List Char) → List (List Char) → Option Nat :=
  findAnchorBy fun line expected => line == expected

/-- `find_anchor_fuzzy`. -/
def findAnchorFuzzy : List (List Char) → List (List Char) → Option Nat :=
  findAnchorBy fun line expected => trimEnd line == trimEnd expected

/-- Where a hunk is applied. -/
def Hunk.place (hunk : Hunk) (fileLines : List (List Char)) : Option Nat :=
  (findAnchor fileLines hunk.anchor).or (findAnchorFuzzy fileLines hunk.anchor)

/-! ### The hunks -/

/-- One hunk; `number` counts from 1. -/
def applyHunk (number : Nat) (hunk : Hunk) (fileLines : List (List Char)) :
    Except String (List (List Char)) :=
  if hunk.anchor.isEmpty && hunk.oldLines.isEmpty then .ok (fileLines ++ hunk.newLines)
  else
    match hunk.place fileLines with
    | none => .error s!"Hunk {number} failed: could not find context/old lines in file"
    | some pos =>
        .ok (splice fileLines pos (hunk.contextBefore.length + hunk.oldLines.length)
          (hunk.contextBefore ++ hunk.newLines))

/-- The hunks from the one with this number on. -/
def applyHunksFrom (number : Nat) :
    List Hunk → List (List Char) → Except String (List (List Char))
  | [], fileLines => .ok fileLines
  | hunk :: hunks, fileLines =>
      match applyHunk number hunk fileLines with
      | .error e => .error e
      | .ok patched => applyHunksFrom (number + 1) hunks patched

/-- `content.ends_with('\n')`. -/
def endsWithNewline (content : List Char) : Bool := content.getLast? == some '\n'

/-- The lines as a text again. -/
def rejoin (trailingNewline : Bool) (fileLines : List (List Char)) : List Char :=
  let result := joinLines fileLines
  if trailingNewline && !endsWithNewline result then result ++ ['\n'] else result

/-- `apply_hunks`. -/
def applyHunks (content : List Char) (hunks : List Hunk) : Except String (List Char) :=
  match applyHunksFrom 1 hunks (lines content) with
  | .error e => .error e
  | .ok patched => .ok (rejoin (endsWithNewline content) patched)

/-! ### The place -/

theorem all_zip_beq_iff {anchor fileLines : List (List Char)}
    (hlen : anchor.length ≤ fileLines.length) :
    ((anchor.zip fileLines).all fun (expected, line) => line == expected) = true ↔
      anchor <+: fileLines := by
  induction anchor generalizing fileLines with
  | nil => exact iff_of_true rfl List.nil_prefix
  | cons expected anchor ih =>
      cases fileLines with
      | nil => exact absurd hlen (Nat.not_succ_le_zero _)
      | cons line fileLines =>
          rw [List.zip_cons_cons, List.all_cons, Bool.and_eq_true, ih (Nat.le_of_succ_le_succ hlen),
            List.cons_prefix_cons, beq_iff_eq, eq_comm]

/-- The exact search finds the first place where the anchor occurs. -/
theorem findAnchor_eq_some_iff {fileLines anchor : List (List Char)} {pos : Nat}
    (hne : anchor ≠ []) :
    findAnchor fileLines anchor = some pos ↔
      IsLeast {i | OccursAt anchor fileLines i} pos := by
  have hempty : anchor.isEmpty = false := by rwa [List.isEmpty_eq_false_iff]
  have hat : ∀ i, i ≤ fileLines.length - anchor.length → anchor.length ≤ fileLines.length →
      (anchorAt (fun line expected => line == expected) fileLines anchor i = true ↔
        OccursAt anchor fileLines i) := by
    intro i hi hlen
    exact all_zip_beq_iff (by rw [List.length_drop]; omega)
  rw [findAnchor, findAnchorBy, hempty, if_neg Bool.false_ne_true]
  split
  · rename_i hshort
    refine iff_of_false (Option.some_ne_none pos).symm fun hleast => ?_
    have hfits := OccursAt.add_length_le hleast.1 hne
    omega
  · rename_i hlong
    rw [List.find?_range_eq_some, List.mem_range, Nat.lt_succ_iff]
    constructor
    · rintro ⟨hfound, hpos, hbefore⟩
      refine ⟨(hat pos hpos (Nat.le_of_not_lt hlong)).mp hfound, fun i hi => ?_⟩
      refine Nat.le_of_not_lt fun hlt => ?_
      have hmissed := hbefore i hlt
      rw [Bool.not_eq_true', Bool.eq_false_iff] at hmissed
      exact hmissed ((hat i (by omega) (Nat.le_of_not_lt hlong)).mpr hi)
    · intro hleast
      have hfits := OccursAt.add_length_le hleast.1 hne
      refine ⟨(hat pos (by omega) (Nat.le_of_not_lt hlong)).mpr hleast.1, by omega,
        fun i hi => ?_⟩
      rw [Bool.not_eq_true', Bool.eq_false_iff]
      intro hfound
      exact absurd (hleast.2 ((hat i (by omega) (Nat.le_of_not_lt hlong)).mp hfound))
        (Nat.not_le.mpr hi)

/-- A hunk whose anchor occurs is applied at the first place where it does. -/
theorem Hunk.place_eq {hunk : Hunk} {fileLines : List (List Char)} {pos : Nat}
    (hne : hunk.anchor ≠ []) (hleast : IsLeast {i | OccursAt hunk.anchor fileLines i} pos) :
    hunk.place fileLines = some pos := by
  rw [Hunk.place, (findAnchor_eq_some_iff hne).mpr hleast, Option.some_or]

/-! ### The lines of the result -/

/-- The lines come back when they are joined: no line holds a newline, none that is terminated ends
with a carriage return, and the last one is not lost. -/
structure Rejoins (trailingNewline : Bool) (ls : List (List Char)) : Prop where
  newline : ∀ line ∈ ls, '\n' ∉ line
  carriageReturn : ∀ line ∈ ls.dropLast, line.getLast? ≠ some '\r'
  lastCarriageReturn : trailingNewline = true → ∀ last ∈ ls.getLast?, last.getLast? ≠ some '\r'
  empty : ls = [] → trailingNewline = false
  blank : ls.getLast? = some [] → ls = [[]] ∧ trailingNewline = true

theorem endsWithNewline_iff {content : List Char} :
    endsWithNewline content = true ↔ content.getLast? = some '\n' := by
  rw [endsWithNewline, beq_iff_eq]

theorem endsWithNewline_concat {front : List (List Char)} {last : List Char}
    (hfree : '\n' ∉ last) :
    endsWithNewline (joinLines (front ++ [last])) = true ↔ last = [] ∧ front ≠ [] := by
  have hlast : last.getLast? ≠ some '\n' := fun h => hfree (List.mem_of_getLast? h)
  rw [endsWithNewline_iff]
  by_cases hfront : front = []
  · rw [hfront]
    refine iff_of_false ?_ fun h => h.2 rfl
    simpa [joinLines, List.intercalate] using hlast
  · rw [joinLines_concat hfront]
    cases last with
    | nil => simpa using hfront
    | cons c last =>
        refine iff_of_false ?_ fun h => List.cons_ne_nil _ _ h.1
        rwa [List.getLast?_append_of_ne_nil _ (List.cons_ne_nil _ _), List.getLast?_cons_cons]

theorem lines_rejoin_nil (trailingNewline : Bool) :
    lines (rejoin trailingNewline []) = if trailingNewline then [[]] else [] := by
  cases trailingNewline <;> rfl

/-- Lines without newlines come back, but for carriage returns at their ends, and a last one that is
empty. -/
theorem lines_rejoin_concat (trailingNewline : Bool) {front : List (List Char)} {last : List Char}
    (hfree : ∀ line ∈ front ++ [last], '\n' ∉ line) :
    lines (rejoin trailingNewline (front ++ [last])) =
      if trailingNewline = true ∧ (last = [] → front = []) then
        (front ++ [last]).map stripCarriageReturn
      else front.map stripCarriageReturn ++ if last.isEmpty then [] else [last] := by
  have hlast := hfree last (by simp)
  have hends := @endsWithNewline_concat front last hlast
  have hpushed : (trailingNewline && !endsWithNewline (joinLines (front ++ [last]))) = true ↔
      trailingNewline = true ∧ (last = [] → front = []) := by
    rw [Bool.and_eq_true, Bool.not_eq_true', Bool.eq_false_iff, Ne, hends, not_and, not_not]
  unfold rejoin
  dsimp only
  by_cases hpush : trailingNewline = true ∧ (last = [] → front = [])
  · rw [if_pos (hpushed.mpr hpush), if_pos hpush, ← List.append_nil (List.map _ _),
      ← joinLines_concat (by simp) []]
    refine lines_joinLines_concat fun line hline => ?_
    rcases List.mem_append.mp hline with hline | hline
    · exact hfree line hline
    · rw [List.mem_singleton.mp hline]
      exact List.not_mem_nil
  · rw [if_neg (mt hpushed.mp hpush), if_neg hpush]
    exact lines_joinLines_concat hfree

theorem stripCarriageReturn_eq_iff {line : List Char} :
    stripCarriageReturn line = line ↔ line.getLast? ≠ some '\r' := by
  unfold stripCarriageReturn
  split
  · rename_i hreturn
    refine iff_of_false (fun hsame => ?_) (not_not_intro hreturn)
    have hlen := congrArg List.length hsame
    have hpos := List.length_pos_of_ne_nil
      (List.ne_nil_of_mem (List.mem_of_getLast? hreturn))
    rw [List.length_dropLast] at hlen
    omega
  · rename_i hreturn
    exact iff_of_true rfl hreturn

theorem map_stripCarriageReturn_iff {ls : List (List Char)} :
    ls.map stripCarriageReturn = ls ↔ ∀ line ∈ ls, line.getLast? ≠ some '\r' := by
  have hid := @List.map_eq_map_iff _ _ stripCarriageReturn ls id
  rw [List.map_id] at hid
  rw [hid]
  exact forall₂_congr fun line _ => stripCarriageReturn_eq_iff

theorem lines_rejoin_iff (trailingNewline : Bool) (ls : List (List Char)) :
    lines (rejoin trailingNewline ls) = ls ↔ Rejoins trailingNewline ls := by
  by_cases hfree : ∀ line ∈ ls, '\n' ∉ line
  case neg =>
    refine iff_of_false (fun hsame => hfree fun line hline => ?_) fun h => hfree h.newline
    rw [← hsame] at hline
    exact newline_not_mem_lines hline
  rcases List.eq_nil_or_concat' ls with rfl | ⟨front, last, rfl⟩
  · rw [lines_rejoin_nil]
    cases trailingNewline with
    | true => exact iff_of_false (List.cons_ne_nil _ _) fun h => Bool.noConfusion (h.empty rfl)
    | false =>
        refine iff_of_true rfl ?_
        exact
          { newline := hfree
            carriageReturn := by simp
            lastCarriageReturn := by simp
            empty := fun _ => rfl
            blank := by simp }
  · have hblank : front ++ [last] = [[]] ↔ front = [] ∧ last = [] := by
      cases front <;> simp
    rw [lines_rejoin_concat trailingNewline hfree]
    split
    · rename_i hpush
      rw [map_stripCarriageReturn_iff]
      constructor
      · intro hreturn
        exact
          { newline := hfree
            carriageReturn := fun line hline => hreturn line (List.dropLast_subset _ hline)
            lastCarriageReturn := fun _ line hline => hreturn line (List.mem_of_getLast? hline)
            empty := by simp
            blank := fun hlast => by
              rw [List.getLast?_concat, Option.some.injEq] at hlast
              exact ⟨hblank.mpr ⟨hpush.2 hlast, hlast⟩, hpush.1⟩ }
      · intro h line hline
        rcases List.mem_append.mp hline with hline | hline
        · exact h.carriageReturn line (by rwa [List.dropLast_concat])
        · exact h.lastCarriageReturn hpush.1 line (by
            rw [List.mem_singleton.mp hline]
            exact List.getLast?_concat)
    · rename_i hpush
      by_cases hempty : last = []
      · rw [if_pos (by rw [hempty]; rfl), List.append_nil]
        refine iff_of_false (fun hsame => ?_) fun h => ?_
        · simpa using congrArg List.length hsame
        · obtain ⟨hone, htrailing⟩ := h.blank (by rw [hempty, List.getLast?_concat])
          exact hpush ⟨htrailing, fun _ => (hblank.mp hone).1⟩
      · rw [if_neg (by simpa using hempty), List.append_cancel_right_eq,
          map_stripCarriageReturn_iff]
        constructor
        · intro hreturn
          exact
            { newline := hfree
              carriageReturn := by rwa [List.dropLast_concat]
              lastCarriageReturn := fun htrailing =>
                absurd ⟨htrailing, fun h => absurd h hempty⟩ hpush
              empty := by simp
              blank := fun hlast => by
                rw [List.getLast?_concat, Option.some.injEq] at hlast
                exact absurd hlast hempty }
        · intro h
          have hreturn := h.carriageReturn
          rwa [List.dropLast_concat] at hreturn

/-- The lines that come back are no longer than those that were joined. -/
theorem lines_rejoin_isPrefix (trailingNewline : Bool) {ls : List (List Char)}
    (hfree : ∀ line ∈ ls, '\n' ∉ line)
    (hlen : (lines (rejoin trailingNewline ls)).length = ls.length) :
    List.Forall₂ (fun back line => back <+: line) (lines (rejoin trailingNewline ls)) ls := by
  have hstrip : ∀ ls : List (List Char),
      List.Forall₂ (fun back line => back <+: line) (ls.map stripCarriageReturn) ls := by
    intro ls
    rw [List.forall₂_map_left_iff, List.forall₂_same]
    exact fun line _ => stripCarriageReturn_isPrefix line
  rcases List.eq_nil_or_concat' ls with rfl | ⟨front, last, rfl⟩
  · rw [List.length_nil, List.length_eq_zero_iff] at hlen
    rw [hlen]
    exact .nil
  · rw [lines_rejoin_concat trailingNewline hfree] at hlen ⊢
    split
    · exact hstrip _
    · rename_i hpush
      rw [if_neg hpush] at hlen
      by_cases hempty : last.isEmpty = true
      · rw [if_pos hempty] at hlen
        simp at hlen
      · rw [if_neg hempty]
        exact List.rel_append (hstrip front) (.cons List.prefix_rfl .nil)

/-- Prefixes that are as long together are the lines themselves. -/
theorem eq_of_forall₂_isPrefix {backs ls : List (List Char)}
    (h : List.Forall₂ (fun back line => back <+: line) backs ls)
    (hlen : ls.flatten.length ≤ backs.flatten.length) : backs = ls := by
  have hle : ∀ {backs ls : List (List Char)},
      List.Forall₂ (fun back line => back <+: line) backs ls →
        backs.flatten.length ≤ ls.flatten.length := by
    intro backs ls h
    induction h with
    | nil => exact Nat.le_refl _
    | cons hback _ ih =>
        have hone := hback.length_le
        rw [List.flatten_cons, List.flatten_cons, List.length_append, List.length_append]
        omega
  induction h with
  | nil => rfl
  | cons hback hrest ih =>
      have hone := hback.length_le
      have hmore := hle hrest
      rw [List.flatten_cons, List.flatten_cons, List.length_append, List.length_append] at hlen
      rw [hback.eq_of_length (by omega), ih (by omega)]

/-! ### One hunk -/

/-- At the first place of its anchor the hunk makes the same lines as at `place`: its new lines can
be moved over what stands between the old lines of both. -/
def Hunk.SameAtFirst (hunk : Hunk) (fileLines : List (List Char)) (place : Nat) : Prop :=
  ∀ first, IsLeast {i | OccursAt hunk.anchor fileLines i} first →
    let start := first + hunk.contextBefore.length
    hunk.newLines ++ (fileLines.drop (start + hunk.oldLines.length)).take (place - first) =
      (fileLines.drop start).take (place - first) ++ hunk.newLines

/-- A hunk that fits is applied, at the first place of its anchor. -/
theorem applyHunks_single {content : List Char} {hunk : Hunk} {pos : Nat}
    (hne : hunk.anchor ≠ []) (hleast : IsLeast {i | OccursAt hunk.anchor (lines content) i} pos) :
    applyHunks content [hunk] = .ok (rejoin (endsWithNewline content)
      (splice (lines content) (pos + hunk.contextBefore.length) hunk.oldLines.length
        hunk.newLines)) := by
  have hempty : hunk.anchor.isEmpty = false := by rwa [List.isEmpty_eq_false_iff]
  have hsplice := OccursAt.splice_append hleast.1 hunk.newLines
  rw [applyHunks, applyHunksFrom, applyHunk, hempty, Bool.false_and, if_neg Bool.false_ne_true,
    Hunk.place_eq hne hleast]
  dsimp only
  rw [hsplice, applyHunksFrom]

/-- Replacing the same lines at two places gives lines of the same number and length. -/
theorem length_splice_eq {fileLines old new : List (List Char)} {i j : Nat}
    (hi : OccursAt old fileLines i) (hj : OccursAt old fileLines j) :
    (splice fileLines i old.length new).length = (splice fileLines j old.length new).length ∧
      (splice fileLines i old.length new).flatten.length =
        (splice fileLines j old.length new).flatten.length := by
  have hboth : ∀ {k}, OccursAt old fileLines k →
      (splice fileLines k old.length new).length + old.length = fileLines.length + new.length ∧
        (splice fileLines k old.length new).flatten.length + old.flatten.length =
          fileLines.flatten.length + new.flatten.length := by
    intro k hk
    conv => lhs; rhs; rw [hk.eq_append]
    conv => rhs; rhs; rw [hk.eq_append]
    rw [splice]
    simp only [List.length_append, List.flatten_append]
    omega
  obtain ⟨hlen, hflat⟩ := hboth hi
  obtain ⟨hlen', hflat'⟩ := hboth hj
  omega

theorem newline_not_mem_splice {fileLines new : List (List Char)} {i n : Nat}
    (hfile : ∀ line ∈ fileLines, '\n' ∉ line) (hnew : ∀ line ∈ new, '\n' ∉ line) :
    ∀ line ∈ splice fileLines i n new, '\n' ∉ line := by
  intro line hline
  rcases List.mem_append.mp hline with hline | hline
  · rcases List.mem_append.mp hline with hline | hline
    · exact hfile line (List.mem_of_mem_take hline)
    · exact hnew line hline
  · exact hfile line (List.mem_of_mem_drop hline)

/-- For every file and hunk: where the whole hunk fits, its new lines are put in the place of its
old ones if and only if the first place of the anchor gives the same lines, and these can be
joined. -/
theorem applyHunks_applies_iff {content : List Char} {hunk : Hunk}
    {front behind : List (List Char)} (hne : hunk.contextBefore ++ hunk.oldLines ≠ [])
    (hfile : lines content =
      front ++ hunk.contextBefore ++ hunk.oldLines ++ hunk.contextAfter ++ behind) :
    (∃ patched, applyHunks content [hunk] = .ok patched ∧
      lines patched =
        front ++ hunk.contextBefore ++ hunk.newLines ++ hunk.contextAfter ++ behind) ↔
      hunk.SameAtFirst (lines content) front.length ∧
        Rejoins (endsWithNewline content)
          (front ++ hunk.contextBefore ++ hunk.newLines ++ hunk.contextAfter ++ behind) := by
  have htarget : splice (lines content) (front.length + hunk.contextBefore.length)
      hunk.oldLines.length hunk.newLines =
        front ++ hunk.contextBefore ++ hunk.newLines ++ hunk.contextAfter ++ behind := by
    rw [hfile, ← List.length_append, List.append_assoc _ hunk.contextAfter, splice_append,
      ← List.append_assoc]
  have hfits : OccursAt hunk.anchor (lines content) front.length := by
    have hoccurs := occursAt_append front hunk.anchor (hunk.contextAfter ++ behind)
    rwa [Hunk.anchor, ← List.append_assoc, ← List.append_assoc, ← hfile] at hoccurs
  have hexists : ∃ i, OccursAt hunk.anchor (lines content) i := ⟨_, hfits⟩
  have hleast : IsLeast {i | OccursAt hunk.anchor (lines content) i} (Nat.find hexists) :=
    ⟨Nat.find_spec hexists, fun i hi => Nat.find_min' hexists hi⟩
  generalize Nat.find hexists = first at hleast
  have hle : first ≤ front.length := hleast.2 hfits
  have hsame : hunk.SameAtFirst (lines content) front.length ↔
      splice (lines content) (first + hunk.contextBefore.length) hunk.oldLines.length
          hunk.newLines =
        front ++ hunk.contextBefore ++ hunk.newLines ++ hunk.contextAfter ++ behind := by
    rw [← htarget, splice_eq_splice_iff (Nat.add_le_add_right hle _), Nat.add_sub_add_right]
    refine ⟨fun h => h first hleast, fun h other hother => ?_⟩
    rw [hother.unique hleast]
    exact h
  rw [applyHunks_single hne hleast, hsame, ← lines_rejoin_iff]
  obtain ⟨hlen, hflat⟩ := @length_splice_eq _ _ hunk.newLines _ _ (OccursAt.behind hleast.1)
    (OccursAt.behind hfits)
  rw [htarget] at hlen hflat
  generalize htext : front ++ hunk.contextBefore ++ hunk.newLines ++ hunk.contextAfter ++ behind =
    target at *
  constructor
  · rintro ⟨patched, hpatched, hlines⟩
    obtain rfl := Except.ok.inj hpatched
    have hnew : ∀ line ∈ hunk.newLines, '\n' ∉ line := by
      intro line hline
      have hmem : line ∈ target := by simp [← htext, hline]
      rw [← hlines] at hmem
      exact newline_not_mem_lines hmem
    have hback := lines_rejoin_isPrefix (endsWithNewline content)
      (newline_not_mem_splice (fun _ => newline_not_mem_lines) hnew) (by rw [hlines, hlen])
    have hstays := eq_of_forall₂_isPrefix hback (by rw [hlines, hflat])
    have hactual := hstays.symm.trans hlines
    rw [hactual] at hstays
    exact ⟨hactual, hstays⟩
  · rintro ⟨hactual, hstays⟩
    exact ⟨_, rfl, by rw [hactual, hstays]⟩

/-- The second of two equal lines, with the line behind it. -/
def repeatedLine : Hunk where
  oldLines := ["x".toList]
  newLines := ["z".toList]
  contextAfter := ["y".toList]

theorem applyHunks_applies_iff_repeatedLine :
    (∃ patched, applyHunks "x\ny\nx\n".toList [repeatedLine] = .ok patched ∧
      lines patched = ["z".toList, "y".toList, "x".toList]) ↔
      repeatedLine.SameAtFirst (lines "x\ny\nx\n".toList) 0 ∧
        Rejoins true ["z".toList, "y".toList, "x".toList] :=
  @applyHunks_applies_iff "x\ny\nx\n".toList repeatedLine [] ["x".toList] (by decide +kernel)
    (by decide +kernel)

/-- In `x x y` the hunk fits at the second line only, and is applied at the first. -/
theorem applyHunks_elsewhere :
    ¬ ∀ content (hunk : Hunk) (front behind : List (List Char)),
      hunk.contextBefore ++ hunk.oldLines ≠ [] →
      lines content =
        front ++ hunk.contextBefore ++ hunk.oldLines ++ hunk.contextAfter ++ behind →
      (∀ i, OccursAt (hunk.contextBefore ++ hunk.oldLines ++ hunk.contextAfter) (lines content) i ↔
        i = front.length) →
      ∃ patched, applyHunks content [hunk] = .ok patched ∧
        lines patched =
          front ++ hunk.contextBefore ++ hunk.newLines ++ hunk.contextAfter ++ behind := by
  intro h
  have hfile : lines "x\nx\ny\n".toList = ["x".toList, "x".toList, "y".toList] := by
    decide +kernel
  have hplace : ∀ i, OccursAt ["x".toList, "y".toList] (lines "x\nx\ny\n".toList) i ↔ i = 1 := by
    rw [hfile]
    intro i
    match i with
    | 0 => decide +kernel
    | 1 => decide +kernel
    | 2 => decide +kernel
    | i + 3 =>
        refine iff_of_false (fun hoccurs => ?_) (by omega)
        have hlen := OccursAt.add_length_le hoccurs (List.cons_ne_nil _ _)
        simp at hlen
  obtain ⟨patched, hpatched, hlines⟩ := h _ repeatedLine ["x".toList] []
    (List.cons_ne_nil _ _) hfile hplace
  have hrun : applyHunks "x\nx\ny\n".toList [repeatedLine] = .ok "z\nx\ny\n".toList := by
    decide +kernel
  obtain rfl := Except.ok.inj (hrun.symm.trans hpatched)
  exact absurd hlines (by decide +kernel)

end ArmaraOS.Runtime
