import ArmaraOS.Lib.Lines
import Mathlib.Data.List.TakeDrop

/-!
The repair of `config.toml` on load (`openfang-kernel/src/config_toml_repair.rs`).

The text is cut into lines and joined again, without the lines that look like the rest of a longer
array behind the `env` of an `[[mcp_servers]]` table (`repairLines_concat`). A line with a quoted
key can look like that too. The line ends are written anew, and of the blank lines at the end one
goes each time. When repairing again changes nothing is `repair_repair_eq_iff`, and when a valid
text keeps its value `repair_safe`.
-/

namespace ArmaraOS.Kernel

open ArmaraOS.Text

/-! ### Lines of a table -/

/-- A line, without what ends it. -/
abbrev Line := List Char

/-- The line is `[[mcp_servers]]`. -/
def isHeader (line : Line) : Bool := trimmed line == "[[mcp_servers]]".toList

/-- The line is an assignment to `env`. -/
def isEnvLine (line : Line) : Bool := "env = ".toList.isPrefixOf (trimStart line)

/-- `bracket_depth_delta`. -/
def bracketDepthDelta (s : Line) : Int := (s.count '[' : Int) - s.count ']'

/-- What is behind the first `=`. -/
def behindEquals (s : Line) : Option Line :=
  match s.dropWhile (· != '=') with
  | [] => none
  | _ :: rhs => some rhs

/-- The loop of `env_array_balanced_end`: the lines that it passes, and the others. -/
def passBalanced (depth : Int) : List Line → List Line × List Line
  | [] => ([], [])
  | line :: rest =>
      if 0 < depth then
        let (more, tail) := passBalanced (depth + bracketDepthDelta line) rest
        (line :: more, tail)
      else ([], line :: rest)

/-- `env_array_balanced_end`, behind the line of the assignment. -/
def envArrayBalancedEnd (env : Line) (rest : List Line) : List Line × List Line :=
  passBalanced (bracketDepthDelta ((behindEquals env).getD [])) rest

/-- `env_assignment_rhs`. -/
def envAssignmentRhs (assignment : List Line) : Line :=
  ((behindEquals (joinLines assignment)).map trimmed).getD []

/-- `is_stale_env_continuation_line`. -/
def isStaleEnvContinuationLine (line : Line) : Bool :=
  let s := (trimmed line).rdropWhile (· == '\r')
  if s.isEmpty then false
  else if s == [']'] then true
  else
    s.head? == some '"' &&
      (s.getLast? == some ',' || (decide (2 ≤ byteLength s) && s.getLast? == some '"'))

section Library

variable (jsonStrings : Line → Option (List String))

/-- `parse_json_string_array`, on top of the JSON reader of lists of strings. -/
def parseJsonStringArray (rhs : Line) : Option (List String) := jsonStrings (trimmed rhs)

/-- `repair_mcp_servers_segment`. -/
def repairMcpServersSegment (segment : List Line) : List Line :=
  match segment.span (fun l => !isEnvLine l) with
  | (_, []) => segment
  | (before, env :: rest) =>
      let (more, tail) := envArrayBalancedEnd env rest
      if (parseJsonStringArray jsonStrings (envAssignmentRhs (env :: more))).isNone then segment
      else before ++ env :: (more ++ tail.dropWhile isStaleEnvContinuationLine)

/-- The lines in front of the first header, and each header with the lines up to the next one. -/
def cutAtHeaders : List Line → List Line × List (Line × List Line)
  | [] => ([], [])
  | line :: lines =>
      let (front, tables) := cutAtHeaders lines
      if isHeader line then ([], (line, front) :: tables) else (line :: front, tables)

/-- The loop of `repair_stale_mcp_env_continuations`. -/
def repairLines (ls : List Line) : List Line :=
  let (front, tables) := cutAtHeaders ls
  front ++ tables.flatMap fun table => table.1 :: repairMcpServersSegment jsonStrings table.2

/-- The lines joined, with a newline at the end if there was one. -/
def joinEnded (endsWithNewline : Bool) (ls : List Line) : List Char :=
  let s := joinLines ls
  if endsWithNewline && s.getLast? != some '\n' then s ++ ['\n'] else s

/-- `repair_stale_mcp_env_continuations`. -/
def repairStaleMcpEnvContinuations (raw : List Char) : List Char :=
  joinEnded (raw.getLast? == some '\n') (repairLines jsonStrings (lines raw))

end Library

/-! ### Repairing once -/

theorem passBalanced_append {depth : Int} {ls more tail tail' : List Line}
    (h : passBalanced depth ls = (more, tail)) (htail : tail = [] → tail' = []) :
    passBalanced depth (more ++ tail') = (more, tail') := by
  induction ls generalizing depth more with
  | nil =>
      cases h
      rw [htail rfl]
      rfl
  | cons line ls ih =>
      rw [passBalanced] at h
      split at h
      · next hdepth =>
          generalize hpass : passBalanced (depth + bracketDepthDelta line) ls = passed at h
          obtain ⟨more', tail''⟩ := passed
          cases h
          rw [List.cons_append, passBalanced, if_pos hdepth, ih hpass]
      · next hdepth =>
          cases h
          cases tail' with
          | nil => rfl
          | cons line' ls' => rw [List.nil_append, passBalanced, if_neg hdepth]

theorem passBalanced_join {depth : Int} {ls more tail : List Line}
    (h : passBalanced depth ls = (more, tail)) : more ++ tail = ls := by
  induction ls generalizing depth more with
  | nil =>
      cases h
      rfl
  | cons line ls ih =>
      rw [passBalanced] at h
      split at h
      · generalize hpass : passBalanced (depth + bracketDepthDelta line) ls = passed at h
        obtain ⟨more', tail'⟩ := passed
        cases h
        rw [List.cons_append, ih hpass]
      · cases h
        rfl

section Segments

variable {jsonStrings : Line → Option (List String)}

/-- A table is left alone, or the lines behind an array of strings for its `env` are dropped. -/
theorem repairMcpServersSegment_cases (segment : List Line) :
    repairMcpServersSegment jsonStrings segment = segment ∨
    ∃ before env rest more tail, segment.span (fun l => !isEnvLine l) = (before, env :: rest) ∧
      envArrayBalancedEnd env rest = (more, tail) ∧
      (parseJsonStringArray jsonStrings (envAssignmentRhs (env :: more))).isNone = false ∧
      repairMcpServersSegment jsonStrings segment =
        before ++ env :: (more ++ tail.dropWhile isStaleEnvContinuationLine) := by
  unfold repairMcpServersSegment
  split
  · exact .inl rfl
  · next before env rest hspan =>
      generalize hend : envArrayBalancedEnd env rest = passed
      obtain ⟨more, tail⟩ := passed
      dsimp only
      split
      · exact .inl rfl
      · next hjson =>
          exact .inr ⟨before, env, rest, more, tail, hspan, hend, Bool.eq_false_iff.mpr hjson, rfl⟩

/-- What the repair does to a table with an array of strings for its `env`. -/
theorem repairMcpServersSegment_read {segment before rest more tail : List Line} {env : Line}
    (hspan : segment.span (fun l => !isEnvLine l) = (before, env :: rest))
    (hend : envArrayBalancedEnd env rest = (more, tail))
    (hjson : (parseJsonStringArray jsonStrings (envAssignmentRhs (env :: more))).isNone = false) :
    repairMcpServersSegment jsonStrings segment =
      before ++ env :: (more ++ tail.dropWhile isStaleEnvContinuationLine) := by
  unfold repairMcpServersSegment
  rw [hspan]
  dsimp only
  rw [hend]
  dsimp only
  rw [hjson, if_neg Bool.false_ne_true]

theorem span_join {segment before : List Line} {env : Line} {rest : List Line}
    (hspan : segment.span (fun l => !isEnvLine l) = (before, env :: rest)) :
    before ++ env :: rest = segment ∧ (∀ l ∈ before, isEnvLine l = false) ∧
      isEnvLine env = true := by
  rw [List.span_eq_takeWhile_dropWhile] at hspan
  obtain ⟨rfl, hdrop⟩ := Prod.mk.inj hspan
  refine ⟨?_, fun l hl => ?_, ?_⟩
  · rw [← hdrop]
    exact List.takeWhile_append_dropWhile
  · simpa using List.mem_takeWhile_imp hl
  · have hhead := List.head?_dropWhile_not (fun l => !isEnvLine l) segment
    rw [hdrop] at hhead
    simpa using hhead

theorem span_of_parts {before : List Line} {env : Line}
    (hbefore : ∀ l ∈ before, isEnvLine l = false)
    (henv : isEnvLine env = true) (rest : List Line) :
    (before ++ env :: rest).span (fun l => !isEnvLine l) = (before, env :: rest) := by
  rw [List.span_eq_takeWhile_dropWhile,
    List.takeWhile_append_of_pos fun l hl => by simp [hbefore l hl],
    List.dropWhile_append_of_pos fun l hl => by simp [hbefore l hl],
    List.takeWhile_cons_of_neg (by simp [henv]), List.dropWhile_cons_of_neg (by simp [henv]),
    List.append_nil]

theorem repairMcpServersSegment_sublist (segment : List Line) :
    (repairMcpServersSegment jsonStrings segment).Sublist segment := by
  rcases @repairMcpServersSegment_cases jsonStrings segment with
    hkept | ⟨before, env, rest, more, tail, hspan, hend, -, hread⟩
  · rw [hkept]
  · rw [hread, ← (span_join hspan).1, ← passBalanced_join hend]
    have htail := List.dropWhile_sublist isStaleEnvContinuationLine (l := tail)
    exact ((htail.append_left more).cons_cons env).append_left before

/-- A table is repaired once. -/
theorem repairMcpServersSegment_idem (segment : List Line) :
    repairMcpServersSegment jsonStrings (repairMcpServersSegment jsonStrings segment) =
      repairMcpServersSegment jsonStrings segment := by
  rcases @repairMcpServersSegment_cases jsonStrings segment with
    hkept | ⟨before, env, rest, more, tail, hspan, hend, hjson, hread⟩
  · rw [hkept, hkept]
  · obtain ⟨-, hbefore, henv⟩ := span_join hspan
    have hend' : envArrayBalancedEnd env (more ++ tail.dropWhile isStaleEnvContinuationLine) =
        (more, tail.dropWhile isStaleEnvContinuationLine) := by
      apply passBalanced_append hend
      rintro rfl
      rfl
    rw [hread, repairMcpServersSegment_read (span_of_parts hbefore henv _) hend' hjson,
      List.dropWhile_idempotent]

/-- A line that ends an array is not blank. -/
theorem passBalanced_getLast {depth : Int} {ls more tail : List Line}
    (h : passBalanced depth ls = (more, tail)) (htail : tail ≠ []) :
    ∀ last, more.getLast? = some last → last ≠ [] := by
  induction ls generalizing depth more with
  | nil =>
      cases h
      exact absurd rfl htail
  | cons line ls ih =>
      rw [passBalanced] at h
      split at h
      · next hdepth =>
          generalize hpass : passBalanced (depth + bracketDepthDelta line) ls = passed at h
          obtain ⟨more', tail'⟩ := passed
          cases h
          cases more' with
          | nil =>
              rintro last hlast rfl
              cases hlast
              obtain rfl : tail = ls := passBalanced_join hpass
              cases tail with
              | nil => exact htail rfl
              | cons next tail =>
                  rw [show bracketDepthDelta [] = 0 from rfl, Int.add_zero, passBalanced,
                    if_pos hdepth] at hpass
                  cases hpass
          | cons line' more' =>
              intro last hlast
              rw [List.getLast?_cons_cons] at hlast
              exact ih hpass last hlast
      · cases h
        intro last hlast
        cases hlast

/-- One line more is passed with all lines in front of it, or stays behind with what does. -/
theorem passBalanced_concat (depth : Int) (ls : List Line) (line : Line) :
    (passBalanced depth (ls ++ [line]) = (ls ++ [line], []) ∧
        passBalanced depth ls = (ls, [])) ∨
      ∃ more tail, passBalanced depth (ls ++ [line]) = (more, tail ++ [line]) ∧
        passBalanced depth ls = (more, tail) := by
  induction ls generalizing depth with
  | nil =>
      rw [List.nil_append, passBalanced, passBalanced]
      split
      · exact .inl ⟨rfl, rfl⟩
      · exact .inr ⟨[], [], rfl, rfl⟩
  | cons first ls ih =>
      rw [List.cons_append, passBalanced, passBalanced]
      split
      · rcases ih (depth + bracketDepthDelta first) with ⟨hmore, hall⟩ | ⟨more, tail, hmore, hall⟩
        · rw [hmore, hall]
          exact .inl ⟨rfl, rfl⟩
        · rw [hmore, hall]
          exact .inr ⟨first :: more, tail, rfl, rfl⟩
      · exact .inr ⟨[], first :: ls, rfl, rfl⟩

theorem isEnvLine_ne_nil {line : Line} (h : isEnvLine line = true) : line ≠ [] := by
  rintro rfl
  exact absurd h (by decide)

theorem repair_of_unread {segment before rest more tail : List Line} {env : Line}
    (hspan : segment.span (fun l => !isEnvLine l) = (before, env :: rest))
    (hend : envArrayBalancedEnd env rest = (more, tail))
    (hjson : (parseJsonStringArray jsonStrings (envAssignmentRhs (env :: more))).isNone = true) :
    repairMcpServersSegment jsonStrings segment = segment := by
  unfold repairMcpServersSegment
  rw [hspan]
  dsimp only
  rw [hend]
  dsimp only
  rw [if_pos hjson]

theorem repair_of_end {segment before rest more tail : List Line} {env : Line}
    (hspan : segment.span (fun l => !isEnvLine l) = (before, env :: rest))
    (hend : envArrayBalancedEnd env rest = (more, tail))
    (htail : tail.dropWhile isStaleEnvContinuationLine = tail) :
    repairMcpServersSegment jsonStrings segment = before ++ env :: (more ++ tail) := by
  cases hjson : (parseJsonStringArray jsonStrings (envAssignmentRhs (env :: more))).isNone with
  | true => rw [repair_of_unread hspan hend hjson, passBalanced_join hend, (span_join hspan).1]
  | false => rw [repairMcpServersSegment_read hspan hend hjson, htail]

/-- A line behind the lines of a table looks like more of its `env`: that reads as an array of
strings, which ends before the line, and so do the lines between. -/
def StaleIn (jsonStrings : Line → Option (List String)) (segment : List Line) (line : Line) :
    Prop :=
  ∃ before env rest more tail, segment.span (fun l => !isEnvLine l) = (before, env :: rest) ∧
    envArrayBalancedEnd env (rest ++ [line]) = (more, tail ++ [line]) ∧
    (parseJsonStringArray jsonStrings (envAssignmentRhs (env :: more))).isSome = true ∧
    ∀ l ∈ tail ++ [line], isStaleEnvContinuationLine l = true

/-- One line more in a table is dropped if it is stale, and stays otherwise. -/
theorem repairMcpServersSegment_concat (segment : List Line) (line : Line) :
    (StaleIn jsonStrings segment line ∧ repairMcpServersSegment jsonStrings (segment ++ [line]) =
        repairMcpServersSegment jsonStrings segment) ∨
      (¬ StaleIn jsonStrings segment line ∧
        repairMcpServersSegment jsonStrings (segment ++ [line]) =
          repairMcpServersSegment jsonStrings segment ++ [line]) := by
  cases hspan : segment.span (fun l => !isEnvLine l) with
  | mk before fromEnv =>
  cases fromEnv with
  | nil =>
      have hplain : repairMcpServersSegment jsonStrings segment = segment := by
        unfold repairMcpServersSegment
        rw [hspan]
      refine .inr ⟨fun ⟨_, _, _, _, _, hstale, _⟩ => ?_, ?_⟩
      · rw [hspan] at hstale
        cases hstale
      · rw [hplain]
        rw [List.span_eq_takeWhile_dropWhile] at hspan
        have hnone := List.dropWhile_eq_nil_iff.mp (Prod.mk.inj hspan).2
        by_cases henv : isEnvLine line = true
        · have hspan' := span_of_parts (fun l hl => by simpa using hnone l hl) henv []
          rw [repair_of_end hspan' rfl rfl, List.append_nil]
        · unfold repairMcpServersSegment
          rw [List.span_eq_takeWhile_dropWhile, List.dropWhile_append_of_pos hnone,
            List.dropWhile_cons_of_pos (by simpa using henv), List.dropWhile_nil]
  | cons env rest =>
      obtain ⟨hjoin, hbefore, henv⟩ := span_join hspan
      have hspan' : (segment ++ [line]).span (fun l => !isEnvLine l) =
          (before, env :: (rest ++ [line])) := by
        rw [← hjoin, List.append_assoc, List.cons_append]
        exact span_of_parts hbefore henv _
      have hstale : ∀ {more tail}, envArrayBalancedEnd env (rest ++ [line]) = (more, tail) →
          StaleIn jsonStrings segment line → ∃ tail', tail = tail' ++ [line] ∧
            (parseJsonStringArray jsonStrings (envAssignmentRhs (env :: more))).isSome = true ∧
            ∀ l ∈ tail' ++ [line], isStaleEnvContinuationLine l = true := by
        rintro more tail hmore ⟨_, _, _, _, tail', hspan'', hmore', hjson, hall⟩
        rw [hspan] at hspan''
        cases hspan''
        rw [hmore] at hmore'
        cases hmore'
        exact ⟨tail', rfl, hjson, hall⟩
      rcases passBalanced_concat (bracketDepthDelta ((behindEquals env).getD [])) rest line with
        ⟨hmore, hrest⟩ | ⟨more, tail, hmore, hrest⟩
      · -- The array does not end before the line.
        refine .inr ⟨fun h => ?_, ?_⟩
        · obtain ⟨tail', htail', -⟩ := hstale hmore h
          exact absurd htail'.symm (List.append_ne_nil_of_right_ne_nil _ (List.cons_ne_nil _ _))
        · rw [repair_of_end hspan' hmore rfl, repair_of_end hspan hrest rfl]
          simp
      · cases hjson :
            (parseJsonStringArray jsonStrings (envAssignmentRhs (env :: more))).isNone with
        | true =>
            refine .inr ⟨fun h => ?_, ?_⟩
            · obtain ⟨tail', -, hsome, -⟩ := hstale hmore h
              rw [← Option.not_isSome, hsome] at hjson
              cases hjson
            · rw [repair_of_unread hspan' hmore hjson, repair_of_unread hspan hrest hjson]
        | false =>
            rw [repairMcpServersSegment_read hspan hrest hjson,
              repairMcpServersSegment_read hspan' hmore hjson, List.dropWhile_append]
            by_cases hall : ∀ l ∈ tail ++ [line], isStaleEnvContinuationLine l = true
            · refine .inl ⟨⟨before, env, rest, more, tail, hspan, hmore, ?_, hall⟩, ?_⟩
              · rw [← Option.not_isNone, hjson]
                rfl
              · obtain ⟨htail, hline⟩ := List.forall_mem_append.mp hall
                rw [List.dropWhile_eq_nil_iff.mpr htail, List.dropWhile_eq_nil_iff.mpr hline]
                rfl
            · refine .inr ⟨fun h => ?_, ?_⟩
              · obtain ⟨tail', htail', -, hall'⟩ := hstale hmore h
                obtain rfl := List.append_cancel_right htail'
                exact hall hall'
              · have hdrop : (if (tail.dropWhile isStaleEnvContinuationLine).isEmpty = true then
                    [line].dropWhile isStaleEnvContinuationLine
                    else tail.dropWhile isStaleEnvContinuationLine ++ [line]) =
                    tail.dropWhile isStaleEnvContinuationLine ++ [line] := by
                  split
                  · next hnone =>
                      have htail := List.dropWhile_eq_nil_iff.mp (List.isEmpty_iff.mp hnone)
                      rw [List.isEmpty_iff.mp hnone, List.dropWhile_cons_of_neg, List.nil_append]
                      exact fun hline => hall (List.forall_mem_append.mpr
                        ⟨htail, List.forall_mem_singleton.mpr hline⟩)
                  · rfl
                rw [hdrop]
                simp

/-- The last line of a table that does not end in a blank line is none, after the repair too. -/
theorem repairMcpServersSegment_getLast {segment : List Line}
    (h : ∀ last, segment.getLast? = some last → last ≠ []) :
    ∀ last, (repairMcpServersSegment jsonStrings segment).getLast? = some last → last ≠ [] := by
  rcases @repairMcpServersSegment_cases jsonStrings segment with
    hkept | ⟨before, env, rest, more, tail, hspan, hend, -, hread⟩
  · rw [hkept]
    exact h
  · obtain ⟨hjoin, -, henv⟩ := span_join hspan
    rw [← hjoin, ← passBalanced_join hend] at h
    rw [hread]
    rcases List.eq_nil_or_concat' (tail.dropWhile isStaleEnvContinuationLine) with
      hnone | ⟨front, last', hsome⟩
    · rw [hnone, List.append_nil]
      rcases List.eq_nil_or_concat' more with rfl | ⟨front, last', rfl⟩
      · intro last hlast
        rw [List.getLast?_concat] at hlast
        cases hlast
        exact isEnvLine_ne_nil henv
      · intro last hlast
        rw [← List.cons_append, ← List.append_assoc, List.getLast?_concat] at hlast
        cases hlast
        by_cases htail : tail = []
        · rw [htail, List.append_nil, ← List.cons_append, ← List.append_assoc,
            List.getLast?_concat] at h
          exact h last' rfl
        · exact passBalanced_getLast hend htail last' List.getLast?_concat
    · intro last hlast
      rw [hsome, ← List.append_assoc more, ← List.cons_append, ← List.append_assoc,
        List.getLast?_concat] at hlast
      cases hlast
      have hsuffix : front ++ [last'] <:+ tail := hsome ▸ List.dropWhile_suffix _
      obtain ⟨dropped, rfl⟩ := hsuffix
      apply h
      have hlast : before ++ env :: (more ++ (dropped ++ (front ++ [last']))) =
          (before ++ env :: (more ++ (dropped ++ front))) ++ [last'] := by
        simp
      rw [hlast, List.getLast?_concat]

/-! ### Headers -/

/-- The parts of a text that is cut at its headers. -/
structure CutParts (front : List Line) (tables : List (Line × List Line)) : Prop where
  front : ∀ line ∈ front, isHeader line = false
  header : ∀ table ∈ tables, isHeader table.1 = true
  lines : ∀ table ∈ tables, ∀ line ∈ table.2, isHeader line = false

/-- The lines of the parts. -/
def joinParts (front : List Line) (tables : List (Line × List Line)) : List Line :=
  front ++ tables.flatMap fun table => table.1 :: table.2

theorem cutAtHeaders_parts {ls front : List Line} {tables : List (Line × List Line)}
    (h : cutAtHeaders ls = (front, tables)) :
    CutParts front tables ∧ joinParts front tables = ls := by
  induction ls generalizing front tables with
  | nil =>
      cases h
      exact ⟨⟨by simp, by simp, by simp⟩, rfl⟩
  | cons line ls ih =>
      rw [cutAtHeaders] at h
      generalize hcut : cutAtHeaders ls = cut at h
      obtain ⟨front', tables'⟩ := cut
      obtain ⟨hparts, hjoin⟩ := ih hcut
      dsimp only at h
      split at h
      · next hheader =>
          cases h
          refine ⟨⟨by simp, ?_, ?_⟩, ?_⟩
          · exact List.forall_mem_cons.mpr ⟨hheader, hparts.header⟩
          · exact List.forall_mem_cons.mpr ⟨hparts.front, hparts.lines⟩
          · rw [← hjoin]
            rfl
      · next hheader =>
          cases h
          refine ⟨⟨?_, hparts.header, hparts.lines⟩, ?_⟩
          · exact List.forall_mem_cons.mpr ⟨Bool.eq_false_iff.mpr hheader, hparts.front⟩
          · rw [← hjoin]
            rfl

/-- Lines in front of a text without headers come to its front. -/
theorem cutAtHeaders_append {plain : List Line} (hplain : ∀ line ∈ plain, isHeader line = false)
    (ls : List Line) :
    cutAtHeaders (plain ++ ls) = (plain ++ (cutAtHeaders ls).1, (cutAtHeaders ls).2) := by
  induction plain with
  | nil => rfl
  | cons line plain ih =>
      obtain ⟨hline, hrest⟩ := List.forall_mem_cons.mp hplain
      rw [List.cons_append, cutAtHeaders, ih hrest]
      dsimp only
      rw [hline, if_neg Bool.false_ne_true]
      rfl

/-- Joined parts are cut where they were joined. -/
theorem cutAtHeaders_joinParts {front : List Line} {tables : List (Line × List Line)}
    (h : CutParts front tables) : cutAtHeaders (joinParts front tables) = (front, tables) := by
  have htables : cutAtHeaders (joinParts [] tables) = ([], tables) := by
    obtain ⟨-, hheader, hlines⟩ := h
    induction tables with
    | nil => rfl
    | cons table tables ih =>
        obtain ⟨hhead, hheader⟩ := List.forall_mem_cons.mp hheader
        obtain ⟨hfirst, hlines⟩ := List.forall_mem_cons.mp hlines
        have hunfold : joinParts [] (table :: tables) =
            table.1 :: (table.2 ++ joinParts [] tables) := rfl
        rw [hunfold, cutAtHeaders, cutAtHeaders_append hfirst, ih hheader hlines]
        dsimp only
        rw [if_pos hhead, List.append_nil]
  have hunfold : joinParts front tables = front ++ joinParts [] tables := rfl
  rw [hunfold, cutAtHeaders_append h.front, htables, List.append_nil]

/-- The tables, each repaired. -/
def repairTables (jsonStrings : Line → Option (List String)) (tables : List (Line × List Line)) :
    List (Line × List Line) :=
  tables.map fun table => (table.1, repairMcpServersSegment jsonStrings table.2)

theorem repairLines_joinParts {front : List Line} {tables : List (Line × List Line)}
    (h : CutParts front tables) : repairLines jsonStrings (joinParts front tables) =
      joinParts front (repairTables jsonStrings tables) := by
  rw [repairLines, cutAtHeaders_joinParts h, joinParts, repairTables, List.flatMap_map]

theorem CutParts.repairTables {front : List Line} {tables : List (Line × List Line)}
    (h : CutParts front tables) : CutParts front (repairTables jsonStrings tables) where
  front := h.front
  header := by
    intro table htable
    obtain ⟨old, hold, rfl⟩ := List.mem_map.mp htable
    exact h.header old hold
  lines := by
    intro table htable line hline
    obtain ⟨old, hold, rfl⟩ := List.mem_map.mp htable
    exact h.lines old hold line ((repairMcpServersSegment_sublist old.2).subset hline)

/-- The parts of a text. -/
theorem exists_parts (ls : List Line) : ∃ front tables, CutParts front tables ∧
    joinParts front tables = ls :=
  ⟨_, _, cutAtHeaders_parts rfl⟩

theorem repairLines_sublist (ls : List Line) : (repairLines jsonStrings ls).Sublist ls := by
  obtain ⟨front, tables, hparts, rfl⟩ := exists_parts ls
  rw [repairLines_joinParts hparts, joinParts, joinParts, repairTables, List.flatMap_map]
  apply List.Sublist.append_left
  clear hparts
  induction tables with
  | nil => rfl
  | cons table tables ih =>
      rw [List.flatMap_cons, List.flatMap_cons]
      exact ((repairMcpServersSegment_sublist table.2).cons_cons table.1).append ih

/-- The lines of a text are repaired once. -/
theorem repairLines_idem (ls : List Line) :
    repairLines jsonStrings (repairLines jsonStrings ls) = repairLines jsonStrings ls := by
  obtain ⟨front, tables, hparts, rfl⟩ := exists_parts ls
  rw [repairLines_joinParts hparts, repairLines_joinParts hparts.repairTables]
  congr 1
  unfold repairTables
  rw [List.map_map]
  apply List.map_congr_left
  intro table _
  exact congrArg (Prod.mk table.1) (repairMcpServersSegment_idem table.2)

/-- The parts of a text with one line more, when it is no header. -/
theorem joinParts_concat {front : List Line} {tables : List (Line × List Line)}
    (h : CutParts front tables) {line : Line} (hline : isHeader line = false) :
    (tables = [] ∧ CutParts (front ++ [line]) [] ∧
      joinParts front tables ++ [line] = joinParts (front ++ [line]) []) ∨
    ∃ before table, tables = before ++ [table] ∧
      CutParts front (before ++ [(table.1, table.2 ++ [line])]) ∧
      joinParts front tables ++ [line] =
        joinParts front (before ++ [(table.1, table.2 ++ [line])]) := by
  rcases List.eq_nil_or_concat' tables with rfl | ⟨before, table, rfl⟩
  · refine .inl ⟨rfl, ⟨?_, by simp, by simp⟩, by simp [joinParts]⟩
    intro l hl
    rcases List.mem_append.mp hl with hl | hl
    · exact h.front l hl
    · rwa [List.mem_singleton.mp hl]
  · refine .inr ⟨before, table, rfl, ⟨h.front, ?_, ?_⟩, by simp [joinParts]⟩
    · intro t ht
      rcases List.mem_append.mp ht with ht | ht
      · exact h.header t (List.mem_append_left _ ht)
      · rw [List.mem_singleton.mp ht]
        exact h.header table (by simp)
    · intro t ht l hl
      rcases List.mem_append.mp ht with ht | ht
      · exact h.lines t (List.mem_append_left _ ht) l hl
      · rw [List.mem_singleton.mp ht] at hl
        rcases List.mem_append.mp hl with hl | hl
        · exact h.lines table (by simp) l hl
        · rwa [List.mem_singleton.mp hl]

/-- A line is stale behind the lines in front of it: it is in their last table. -/
def Stale (jsonStrings : Line → Option (List String)) (front : List Line) (line : Line) : Prop :=
  ∃ table, (cutAtHeaders front).2.getLast? = some table ∧ StaleIn jsonStrings table.2 line

theorem isHeader_not_stale {line : Line} (h : isHeader line = true) :
    isStaleEnvContinuationLine line = false := by
  rw [isStaleEnvContinuationLine, beq_iff_eq.mp h]
  decide

/-- One line more is dropped if it is stale, and stays otherwise. -/
theorem repairLines_concat (ls : List Line) (line : Line) :
    (Stale jsonStrings ls line ∧
        repairLines jsonStrings (ls ++ [line]) = repairLines jsonStrings ls) ∨
      (¬ Stale jsonStrings ls line ∧
        repairLines jsonStrings (ls ++ [line]) = repairLines jsonStrings ls ++ [line]) := by
  obtain ⟨front, tables, hparts, rfl⟩ := exists_parts ls
  have hcut := cutAtHeaders_joinParts hparts
  rw [repairLines_joinParts hparts]
  by_cases hheader : isHeader line = true
  · refine .inr ⟨?_, ?_⟩
    · rintro ⟨table, -, -, -, -, -, tail, -, -, -, hall⟩
      have hline := hall line (List.mem_append_right _ (List.mem_singleton_self _))
      rw [isHeader_not_stale hheader] at hline
      cases hline
    · have hmore : CutParts front (tables ++ [(line, [])]) := by
        refine ⟨hparts.front, List.forall_mem_append.mpr ⟨hparts.header, ?_⟩,
          List.forall_mem_append.mpr ⟨hparts.lines, ?_⟩⟩
        · exact List.forall_mem_singleton.mpr hheader
        · exact List.forall_mem_singleton.mpr fun _ h => absurd h List.not_mem_nil
      have hjoin : joinParts front tables ++ [line] = joinParts front (tables ++ [(line, [])]) := by
        simp [joinParts]
      rw [hjoin, repairLines_joinParts hmore]
      simp [joinParts, repairTables, repairMcpServersSegment]
  · rcases joinParts_concat hparts (Bool.eq_false_iff.mpr hheader) with
      ⟨rfl, hmore, hjoin⟩ | ⟨before, table, rfl, hmore, hjoin⟩
    · refine .inr ⟨?_, ?_⟩
      · rintro ⟨table, htable, -⟩
        rw [hcut] at htable
        cases htable
      · rw [hjoin, repairLines_joinParts hmore]
        simp [joinParts, repairTables]
    · have hstale : Stale jsonStrings (joinParts front (before ++ [table])) line ↔
          StaleIn jsonStrings table.2 line := by
        rw [Stale, hcut]
        simp
      rw [hstale, hjoin, repairLines_joinParts hmore]
      rcases @repairMcpServersSegment_concat jsonStrings table.2 line with
        ⟨hyes, hsame⟩ | ⟨hno, hmoreLine⟩
      · refine .inl ⟨hyes, ?_⟩
        simp [joinParts, repairTables, hsame]
      · refine .inr ⟨hno, ?_⟩
        simp [joinParts, repairTables, hmoreLine]

/-- A blank line at the end of a text stays there. -/
theorem repairLines_concat_nil (ls : List Line) :
    repairLines jsonStrings (ls ++ [[]]) = repairLines jsonStrings ls ++ [[]] := by
  rcases @repairLines_concat jsonStrings ls [] with ⟨hstale, -⟩ | ⟨-, hkept⟩
  · obtain ⟨-, -, -, -, -, -, tail, -, -, -, hall⟩ := hstale
    exact absurd (hall [] (List.mem_append_right _ (List.mem_singleton_self _))) (by decide)
  · exact hkept

theorem concat_eq_append_cons {ls front back : List Line} {last line : Line} :
    ls ++ [last] = front ++ line :: back ↔
      (back = [] ∧ front = ls ∧ line = last) ∨
        ∃ mid, back = mid ++ [last] ∧ ls = front ++ line :: mid := by
  rcases List.eq_nil_or_concat' back with rfl | ⟨mid, last', rfl⟩
  · constructor
    · intro h
      obtain ⟨rfl, hlast⟩ := List.append_inj' h rfl
      exact .inl ⟨rfl, rfl, (List.singleton_inj.mp hlast).symm⟩
    · rintro (⟨-, rfl, rfl⟩ | ⟨mid, hmid, -⟩)
      · rfl
      · exact absurd hmid.symm (List.append_ne_nil_of_right_ne_nil _ (List.cons_ne_nil _ _))
  · rw [← List.cons_append, ← List.append_assoc]
    constructor
    · intro h
      obtain ⟨rfl, hlast⟩ := List.append_inj' h rfl
      exact .inr ⟨mid, by rw [List.singleton_inj.mp hlast], rfl⟩
    · rintro (⟨hnil, -⟩ | ⟨mid', hmid, rfl⟩)
      · exact absurd hnil (List.append_ne_nil_of_right_ne_nil _ (List.cons_ne_nil _ _))
      · obtain ⟨rfl, hlast⟩ := List.append_inj' hmid rfl
        rw [List.singleton_inj.mp hlast]

/-- A line of a text that is kept, with the lines in front of it and behind it. -/
def KeptAt (jsonStrings : Line → Option (List String)) (ls front : List Line) (line : Line)
    (back : List Line) : Prop :=
  ls = front ++ line :: back ∧ ¬ Stale jsonStrings front line

theorem keptAt_concat {ls front back : List Line} {last line : Line} :
    KeptAt jsonStrings (ls ++ [last]) front line back ↔
      (back = [] ∧ front = ls ∧ line = last ∧ ¬ Stale jsonStrings ls last) ∨
        ∃ mid, back = mid ++ [last] ∧ KeptAt jsonStrings ls front line mid := by
  rw [KeptAt, concat_eq_append_cons]
  constructor
  · rintro ⟨⟨hback, rfl, rfl⟩ | ⟨mid, hmid, hls⟩, hkept⟩
    · exact .inl ⟨hback, rfl, rfl, hkept⟩
    · exact .inr ⟨mid, hmid, hls, hkept⟩
  · rintro (⟨hback, rfl, rfl, hkept⟩ | ⟨mid, hmid, hls, hkept⟩)
    · exact ⟨.inl ⟨hback, rfl, rfl⟩, hkept⟩
    · exact ⟨.inr ⟨mid, hmid, hls⟩, hkept⟩

/-- The repair keeps the lines that are not stale. -/
theorem mem_repairLines_iff {ls : List Line} {line : Line} :
    line ∈ repairLines jsonStrings ls ↔ ∃ front back, KeptAt jsonStrings ls front line back := by
  induction ls using List.reverseRecOn with
  | nil =>
      refine ⟨fun h => absurd h List.not_mem_nil, ?_⟩
      rintro ⟨front, back, hnil, -⟩
      exact absurd hnil.symm (List.append_ne_nil_of_right_ne_nil _ (List.cons_ne_nil _ _))
  | append_singleton ls last ih =>
      simp only [keptAt_concat]
      rcases @repairLines_concat jsonStrings ls last with ⟨hstale, hrepaired⟩ | ⟨hkept, hrepaired⟩
      · rw [hrepaired, ih]
        constructor
        · exact fun ⟨front, mid, h⟩ => ⟨front, mid ++ [last], .inr ⟨mid, rfl, h⟩⟩
        · rintro ⟨front, back, ⟨-, -, -, hnot⟩ | ⟨mid, -, h⟩⟩
          · exact absurd hstale hnot
          · exact ⟨front, mid, h⟩
      · rw [hrepaired, List.mem_append, ih, List.mem_singleton]
        constructor
        · rintro (⟨front, mid, h⟩ | rfl)
          · exact ⟨front, mid ++ [last], .inr ⟨mid, rfl, h⟩⟩
          · exact ⟨ls, [], .inl ⟨rfl, rfl, rfl, hkept⟩⟩
        · rintro ⟨front, back, ⟨-, -, rfl, -⟩ | ⟨mid, -, h⟩⟩
          · exact .inr rfl
          · exact .inl ⟨front, mid, h⟩

/-- All but the last of them have one that is not stale behind them. -/
theorem mem_dropLast_repairLines_iff {ls : List Line} {line : Line} :
    line ∈ (repairLines jsonStrings ls).dropLast ↔ ∃ front back,
      KeptAt jsonStrings ls front line back ∧ ∃ mid later rest, back = mid ++ later :: rest ∧
        ¬ Stale jsonStrings (front ++ line :: mid) later := by
  induction ls using List.reverseRecOn with
  | nil =>
      refine ⟨fun h => absurd h List.not_mem_nil, ?_⟩
      rintro ⟨front, back, ⟨hnil, -⟩, -⟩
      exact absurd hnil.symm (List.append_ne_nil_of_right_ne_nil _ (List.cons_ne_nil _ _))
  | append_singleton ls last ih =>
      simp only [keptAt_concat]
      rcases @repairLines_concat jsonStrings ls last with ⟨hstale, hrepaired⟩ | ⟨hkept, hrepaired⟩
      · rw [hrepaired, ih]
        constructor
        · rintro ⟨front, back, h, mid, later, rest, rfl, hlater⟩
          exact ⟨front, _, .inr ⟨_, rfl, h⟩, mid, later, rest ++ [last], by simp, hlater⟩
        · rintro ⟨front, back, ⟨-, -, -, hnot⟩ | ⟨mid', rfl, h⟩, mid, later, rest, hback, hlater⟩
          · exact absurd hstale hnot
          · rcases concat_eq_append_cons.mp hback with ⟨-, rfl, rfl⟩ | ⟨rest', -, hmid⟩
            · rw [h.1] at hstale
              exact absurd hstale hlater
            · exact ⟨front, mid', h, mid, later, rest', hmid, hlater⟩
      · rw [hrepaired, List.dropLast_concat, mem_repairLines_iff]
        constructor
        · rintro ⟨front, mid, h⟩
          refine ⟨front, _, .inr ⟨mid, rfl, h⟩, mid, last, [], rfl, ?_⟩
          rw [← h.1]
          exact hkept
        · rintro ⟨front, back, ⟨rfl, -⟩ | ⟨mid', -, h⟩, mid, later, rest, hback, -⟩
          · exact absurd hback.symm (List.append_ne_nil_of_right_ne_nil _ (List.cons_ne_nil _ _))
          · exact ⟨front, mid', h⟩

/-- The last line of a text that does not end in a blank line is none, after the repair too. -/
theorem repairLines_getLast {ls : List Line} (h : ∀ last, ls.getLast? = some last → last ≠ []) :
    ∀ last, (repairLines jsonStrings ls).getLast? = some last → last ≠ [] := by
  obtain ⟨front, tables, hparts, rfl⟩ := exists_parts ls
  rw [repairLines_joinParts hparts]
  rcases List.eq_nil_or_concat' tables with rfl | ⟨before, table, rfl⟩
  · exact h
  · have hheader : table.1 ≠ [] := by
      intro hnil
      have := hparts.header table (by simp)
      rw [hnil] at this
      exact absurd this (by decide)
    have hjoin : ∀ ts (t : Line × List Line), joinParts front (ts ++ [t]) =
        (joinParts front ts ++ [t.1]) ++ t.2 := by
      intro ts t
      simp [joinParts]
    intro last hlast
    rw [repairTables, List.map_append, List.map_singleton, hjoin] at hlast
    rw [hjoin] at h
    by_cases hnone : repairMcpServersSegment jsonStrings table.2 = []
    · rw [hnone, List.append_nil, List.getLast?_concat] at hlast
      cases hlast
      exact hheader
    · rw [List.getLast?_append_of_ne_nil _ hnone] at hlast
      refine repairMcpServersSegment_getLast (fun last' hlast' => h last' ?_) last hlast
      have hsome : table.2 ≠ [] := by
        intro hnil
        rw [hnil] at hlast'
        cases hlast'
      rw [List.getLast?_append_of_ne_nil _ hsome, hlast']

theorem repairLines_ne_nil {ls : List Line} (h : ls ≠ []) : repairLines jsonStrings ls ≠ [] := by
  obtain ⟨front, tables, hparts, rfl⟩ := exists_parts ls
  rw [repairLines_joinParts hparts]
  intro hnil
  apply h
  obtain ⟨rfl, htables⟩ := List.append_eq_nil_iff.mp hnil
  cases tables with
  | nil => rfl
  | cons table tables => cases htables

end Segments

/-! ### Line ends -/

/-- The characters of lines that are joined with newlines, one newline more. -/
def weight (ls : List Line) : Nat := (ls.map fun l => l.length + 1).sum

theorem weight_pos {ls : List Line} (h : ls ≠ []) : 0 < weight ls := by
  cases ls with
  | nil => exact absurd rfl h
  | cons line ls =>
      unfold weight
      rw [List.map_cons, List.sum_cons]
      omega

theorem length_joinLines (ls : List Line) : (joinLines ls).length = weight ls - 1 := by
  induction ls with
  | nil => rfl
  | cons line ls ih =>
      cases ls with
      | nil =>
          unfold weight joinLines
          simp
      | cons line' ls =>
          have hpos : 0 < weight (line' :: ls) := weight_pos (by simp)
          have hweight : weight (line :: line' :: ls) =
              line.length + 1 + weight (line' :: ls) := rfl
          rw [joinLines_cons line (by simp), List.length_append, List.length_cons, ih, hweight]
          omega

theorem weight_le_of_sublist {ls ls' : List Line} (h : ls.Sublist ls') :
    weight ls ≤ weight ls' := by
  induction h with
  | slnil => exact Nat.le_refl _
  | cons line _ ih => exact Nat.le_trans ih (Nat.le_add_left _ _)
  | cons_cons line _ ih => exact Nat.add_le_add_left ih _

/-- No line ends in a carriage return. -/
def NoReturns (ls : List Line) : Prop := ∀ line ∈ ls, line.getLast? ≠ some '\r'

theorem map_stripCarriageReturn {ls : List Line} (h : NoReturns ls) :
    ls.map stripCarriageReturn = ls :=
  (List.map_congr_left fun line hline => if_neg (h line hline)).trans (List.map_id ls)

/-- Stripping carriage returns makes a text shorter when there are any. -/
theorem weight_strip (ls : List Line) : weight (ls.map stripCarriageReturn) ≤ weight ls ∧
    (¬ NoReturns ls → weight (ls.map stripCarriageReturn) < weight ls) := by
  induction ls with
  | nil =>
      refine ⟨Nat.le_refl _, fun h => absurd ?_ h⟩
      exact fun line hline => absurd hline List.not_mem_nil
  | cons line ls ih =>
      have hunfold : ∀ (l : Line) (ls : List Line), weight (l :: ls) = l.length + 1 + weight ls :=
        fun _ _ => rfl
      have hline : (stripCarriageReturn line).length ≤ line.length :=
        (stripCarriageReturn_isPrefix line).length_le
      rw [List.map_cons, hunfold, hunfold]
      refine ⟨by omega, fun hreturns => ?_⟩
      by_cases hreturn : line.getLast? = some '\r'
      · obtain ⟨front, rfl⟩ := List.getLast?_eq_some_iff.mp hreturn
        have hstrip : stripCarriageReturn (front ++ ['\r']) = front := by
          rw [stripCarriageReturn, if_pos hreturn, List.dropLast_concat]
        rw [hstrip, List.length_append, List.length_singleton]
        omega
      · have hrest : ¬ NoReturns ls := fun h => hreturns (List.forall_mem_cons.mpr ⟨hreturn, h⟩)
        have := ih.2 hrest
        omega

/-! ### Joining -/

theorem joinLines_closed {ls : List Line} (h : ls ≠ []) :
    joinLines (ls ++ [[]]) = joinLines ls ++ ['\n'] := joinLines_concat h []

theorem joinEnded_of_ended {ls : List Line} (h : (joinLines ls).getLast? = some '\n') :
    joinEnded true ls = joinLines ls := by
  rw [joinEnded, if_neg (by simp [h])]

theorem joinEnded_of_open {ls : List Line} (h : (joinLines ls).getLast? ≠ some '\n')
    (hne : ls ≠ []) :
    joinEnded true ls = joinLines (ls ++ [[]]) := by
  rw [joinEnded, if_pos (by simpa using h), joinLines_closed hne]

/-- Joined lines end in a newline when the last of several is blank. -/
theorem getLast?_joinLines_blank {front : List Line} (h : front ≠ []) :
    (joinLines (front ++ [[]])).getLast? = some '\n' := by
  rw [joinLines_closed h, List.getLast?_concat]

theorem getLast?_joinLines_concat {front : List Line} {last : Line} (hlast : last ≠ [])
    (hfree : '\n' ∉ last) : (joinLines (front ++ [last])).getLast? ≠ some '\n' := by
  intro hnewline
  apply hfree
  have hmem : last.getLast? = some '\n' := by
    rcases eq_or_ne front [] with rfl | hfront
    · simpa [joinLines, List.intercalate] using hnewline
    · rw [joinLines_concat hfront, List.getLast?_append_of_ne_nil _ (by simp),
        List.getLast?_cons_of_ne_nil hlast] at hnewline
      exact hnewline
  exact List.mem_of_getLast? hmem

section Twice

variable {jsonStrings : Line → Option (List String)}

theorem length_joinEnded_le (ended : Bool) (ls : List Line) :
    (joinEnded ended ls).length ≤ (joinLines ls).length + 1 := by
  unfold joinEnded
  dsimp only
  split
  · rw [List.length_append, List.length_singleton]
  · exact Nat.le_succ _

/-- A text with closed lines, repaired. -/
theorem repair_closed {ls : List Line} (hne : ls ≠ []) (hfree : ∀ line ∈ ls, '\n' ∉ line) :
    repairStaleMcpEnvContinuations jsonStrings (joinLines (ls ++ [[]])) =
      joinEnded true (repairLines jsonStrings (ls.map stripCarriageReturn)) := by
  have hlines : lines (joinLines (ls ++ [[]])) = ls.map stripCarriageReturn := by
    rw [lines_joinLines_concat, if_pos List.isEmpty_nil, List.append_nil]
    intro line hline
    rcases List.mem_append.mp hline with hline | hline
    · exact hfree line hline
    · rw [List.mem_singleton.mp hline]
      exact List.not_mem_nil
  rw [repairStaleMcpEnvContinuations, hlines, getLast?_joinLines_blank hne]
  rfl

/-- A text whose last line is open, repaired. -/
theorem repair_open {front : List Line} {last : Line} (hlast : last ≠ [])
    (hfree : ∀ line ∈ front ++ [last], '\n' ∉ line) :
    repairStaleMcpEnvContinuations jsonStrings (joinLines (front ++ [last])) =
      joinLines (repairLines jsonStrings (front.map stripCarriageReturn ++ [last])) := by
  have hopen := @getLast?_joinLines_concat front _ hlast (hfree last (by simp))
  rw [repairStaleMcpEnvContinuations, lines_joinLines_concat hfree,
    if_neg (by simpa using hlast), beq_eq_false_iff_ne.mpr hopen]
  rfl

/-- A repaired text with closed lines is left alone exactly when no line ends in a carriage return
and it does not end in a blank line. -/
theorem repair_closed_eq_self_iff {ls : List Line} (hne : ls ≠ [])
    (hfree : ∀ line ∈ ls, '\n' ∉ line) (hstable : repairLines jsonStrings ls = ls) :
    repairStaleMcpEnvContinuations jsonStrings (joinLines (ls ++ [[]])) = joinLines (ls ++ [[]]) ↔
      NoReturns ls ∧ ∀ front, ls = front ++ [[]] → front = [] := by
  have hlength : (joinLines (ls ++ [[]])).length = (joinLines ls).length + 1 := by
    rw [joinLines_closed hne, List.length_append, List.length_singleton]
  rw [repair_closed hne hfree]
  by_cases hreturns : NoReturns ls
  · rw [map_stripCarriageReturn hreturns, hstable]
    constructor
    · refine fun hsame => ⟨hreturns, ?_⟩
      rintro front rfl
      by_contra hfront
      rw [joinEnded_of_ended (getLast?_joinLines_blank hfront)] at hsame
      rw [← hsame] at hlength
      omega
    · rintro ⟨-, hblank⟩
      rcases List.eq_nil_or_concat' ls with rfl | ⟨front, last, rfl⟩
      · exact absurd rfl hne
      · rcases eq_or_ne last [] with rfl | hlast
        · rw [hblank front rfl]
          rfl
        · exact joinEnded_of_open (getLast?_joinLines_concat hlast (hfree last (by simp))) hne
  · refine iff_of_false (fun hsame => ?_) fun h => hreturns h.1
    have hshort := (weight_strip ls).2 hreturns
    have hpos : 0 < weight (ls.map stripCarriageReturn) := weight_pos (by simpa using hne)
    have hrepaired := weight_le_of_sublist
      (@repairLines_sublist jsonStrings (ls.map stripCarriageReturn))
    have hlong := length_joinEnded_le true (repairLines jsonStrings (ls.map stripCarriageReturn))
    rw [hsame, hlength, length_joinLines, length_joinLines] at hlong
    omega

/-- A repaired text whose last line is open is left alone exactly when no other line ends in a
carriage return. -/
theorem repair_open_eq_self_iff {front : List Line} {last : Line} (hlast : last ≠ [])
    (hfree : ∀ line ∈ front ++ [last], '\n' ∉ line)
    (hstable : repairLines jsonStrings (front ++ [last]) = front ++ [last]) :
    repairStaleMcpEnvContinuations jsonStrings (joinLines (front ++ [last])) =
      joinLines (front ++ [last]) ↔ NoReturns front := by
  rw [repair_open hlast hfree]
  by_cases hreturns : NoReturns front
  · rw [map_stripCarriageReturn hreturns, hstable]
    exact iff_of_true rfl hreturns
  · refine iff_of_false (fun hsame => ?_) hreturns
    have hunfold : ∀ ls : List Line, weight (ls ++ [last]) = weight ls + (last.length + 1) := by
      intro ls
      simp [weight]
    have hshort := (weight_strip front).2 hreturns
    have hrepaired := weight_le_of_sublist (@repairLines_sublist jsonStrings
      (front.map stripCarriageReturn ++ [last]))
    have hlength := congrArg List.length hsame
    rw [length_joinLines, length_joinLines, hunfold] at hlength
    rw [hunfold] at hrepaired
    omega

/-! ### Repairing again -/

/-- The lines that end in a newline when a text has been repaired: all that are kept, or all but
the last. -/
def endedLines (jsonStrings : Line → Option (List String)) (raw : List Char) : List Line :=
  let kept := repairLines jsonStrings (lines raw)
  if raw.getLast? = some '\n' then kept else kept.dropLast

/-- No line that is kept and ended ends in a carriage return once its line end is gone, and not
more than two line ends stand behind the text. -/
structure SettledLines (jsonStrings : Line → Option (List String)) (raw : List Char) : Prop where
  returns : NoReturns (endedLines jsonStrings raw)
  blanks : ∀ front, lines raw = front ++ [[], []] → front = []

/-- The same, said of the text: a line that is not stale, and is not the last such line of a text
without a newline at its end, does not end in a carriage return once its line end is gone. -/
structure Settled (jsonStrings : Line → Option (List String)) (raw : List Char) : Prop where
  returns : ∀ front line back, KeptAt jsonStrings (lines raw) front line back →
    (raw.getLast? = some '\n' ∨ ∃ mid later rest, back = mid ++ later :: rest ∧
      ¬ Stale jsonStrings (front ++ line :: mid) later) →
    line.getLast? ≠ some '\r'
  blanks : ∀ front, lines raw = front ++ [[], []] → front = []

theorem settledLines_iff {raw : List Char} :
    SettledLines jsonStrings raw ↔ Settled jsonStrings raw := by
  have hreturns : NoReturns (endedLines jsonStrings raw) ↔ ∀ front line back,
      KeptAt jsonStrings (lines raw) front line back →
      (raw.getLast? = some '\n' ∨ ∃ mid later rest, back = mid ++ later :: rest ∧
        ¬ Stale jsonStrings (front ++ line :: mid) later) → line.getLast? ≠ some '\r' := by
    rw [NoReturns, endedLines]
    by_cases hended : raw.getLast? = some '\n'
    · rw [if_pos hended]
      constructor
      · exact fun h front line back hkept _ => h line (mem_repairLines_iff.mpr ⟨front, back, hkept⟩)
      · intro h line hline
        obtain ⟨front, back, hkept⟩ := mem_repairLines_iff.mp hline
        exact h front line back hkept (.inl hended)
    · rw [if_neg hended]
      constructor
      · intro h front line back hkept hlater
        exact h line (mem_dropLast_repairLines_iff.mpr
          ⟨front, back, hkept, hlater.resolve_left hended⟩)
      · intro h line hline
        obtain ⟨front, back, hkept, hlater⟩ := mem_dropLast_repairLines_iff.mp hline
        exact h front line back hkept (.inr hlater)
  exact ⟨fun h => ⟨hreturns.mp h.returns, h.blanks⟩, fun h => ⟨hreturns.mpr h.returns, h.blanks⟩⟩

/-- A text without a newline at its end does not have a blank last line. -/
theorem lines_getLast_of_open {raw : List Char} (hopen : raw.getLast? ≠ some '\n') :
    ∀ last, (lines raw).getLast? = some last → last ≠ [] := by
  have hjoin := joinLines_splitOn raw
  rcases List.eq_nil_or_concat' (raw.splitOn '\n') with hpieces | ⟨front, last, hpieces⟩
  · exact absurd hpieces (List.splitOn_ne_nil '\n' raw)
  · rw [lines, hpieces]
    rw [hpieces] at hjoin
    simp only [List.dropLast_concat, List.getLast?_concat, Option.getD_some]
    rcases eq_or_ne last [] with rfl | hlast
    · have hfront : front = [] := by
        by_contra hne
        rw [← hjoin] at hopen
        exact hopen (getLast?_joinLines_blank hne)
      rw [hfront]
      intro last hlast
      cases hlast
    · rw [if_neg (by simpa using hlast), List.getLast?_concat]
      rintro last' ⟨rfl⟩
      exact hlast

theorem lines_ne_nil_of_ended {raw : List Char} (hended : raw.getLast? = some '\n') :
    lines raw ≠ [] := by
  have hjoin := joinLines_splitOn raw
  rcases List.eq_nil_or_concat' (raw.splitOn '\n') with hpieces | ⟨front, last, hpieces⟩
  · exact absurd hpieces (List.splitOn_ne_nil '\n' raw)
  · rw [lines, hpieces]
    rw [hpieces] at hjoin
    simp only [List.dropLast_concat, List.getLast?_concat, Option.getD_some]
    intro hnil
    obtain ⟨hfront, hlast⟩ := List.append_eq_nil_iff.mp hnil
    have hblank : last = [] := by
      by_contra hne
      rw [if_neg (by simpa using hne)] at hlast
      cases hlast
    rw [List.map_eq_nil_iff.mp hfront, hblank] at hjoin
    rw [← hjoin] at hended
    cases hended

/-- The repair keeps a blank line at the end, and makes none. -/
theorem repairLines_eq_concat_nil_iff {ls : List Line} :
    (∃ front, front ≠ [] ∧ repairLines jsonStrings ls = front ++ [[]]) ↔
      ∃ front, front ≠ [] ∧ ls = front ++ [[]] := by
  constructor
  · rintro ⟨front, hne, hrepaired⟩
    have hblank : ∃ last, ls.getLast? = some last ∧ last = [] := by
      by_contra hnone
      refine @repairLines_getLast jsonStrings _ (fun last hlast hnil => ?_) []
        (by rw [hrepaired, List.getLast?_concat]) rfl
      exact hnone ⟨last, hlast, hnil⟩
    obtain ⟨last, hlast, rfl⟩ := hblank
    obtain ⟨front', rfl⟩ := List.getLast?_eq_some_iff.mp hlast
    rw [repairLines_concat_nil] at hrepaired
    refine ⟨front', ?_, rfl⟩
    rintro rfl
    exact hne (List.append_cancel_right hrepaired).symm
  · rintro ⟨front, hne, rfl⟩
    exact ⟨_, repairLines_ne_nil hne, repairLines_concat_nil front⟩

theorem blanks_append_pair {front front' : List Line} :
    front ++ [[]] = front' ++ [[], []] ↔ front = front' ++ [[]] := by
  rw [show front' ++ [[], []] = (front' ++ [[]]) ++ [[]] by simp]
  exact List.append_left_inj [[]]

/-- A text that ends in a blank line is repaired to one with a line end less. -/
theorem repair_repair_of_blank {raw : List Char} {front : List Line}
    (hended : raw.getLast? = some '\n') (hlines : lines raw = front ++ [[]]) (hfront : front ≠ []) :
    repairStaleMcpEnvContinuations jsonStrings (repairStaleMcpEnvContinuations jsonStrings raw) =
      repairStaleMcpEnvContinuations jsonStrings raw ↔ SettledLines jsonStrings raw := by
  have hkept : repairLines jsonStrings front ≠ [] := repairLines_ne_nil hfront
  have hrepaired : repairLines jsonStrings (lines raw) = repairLines jsonStrings front ++ [[]] := by
    rw [hlines, repairLines_concat_nil]
  have hfree : ∀ line ∈ repairLines jsonStrings front, '\n' ∉ line := by
    intro line hline
    apply @newline_not_mem_lines raw
    rw [hlines]
    exact List.mem_append_left _ ((repairLines_sublist front).subset hline)
  have htext : repairStaleMcpEnvContinuations jsonStrings raw =
      joinLines (repairLines jsonStrings front ++ [[]]) := by
    rw [repairStaleMcpEnvContinuations, hended, hrepaired]
    exact joinEnded_of_ended (getLast?_joinLines_blank hkept)
  have hreturns : endedLines jsonStrings raw = repairLines jsonStrings front ++ [[]] := by
    rw [endedLines, if_pos hended, hrepaired]
  rw [htext, repair_closed_eq_self_iff hkept hfree (repairLines_idem front)]
  have hnoReturns : NoReturns (endedLines jsonStrings raw) ↔
      NoReturns (repairLines jsonStrings front) := by
    rw [hreturns]
    refine ⟨fun h line hline => h line (List.mem_append_left _ hline), fun h line hline => ?_⟩
    rcases List.mem_append.mp hline with hline | hline
    · exact h line hline
    · cases List.mem_singleton.mp hline
      simp
  have hblanks : (∀ front', repairLines jsonStrings front = front' ++ [[]] → front' = []) ↔
      ∀ front', lines raw = front' ++ [[], []] → front' = [] := by
    have hiff := (@repairLines_eq_concat_nil_iff jsonStrings front).not
    simp only [not_exists, not_and] at hiff
    rw [hlines]
    constructor
    · intro h front' hfront'
      by_contra hne'
      exact hiff.mp (fun f hf hrep => hf (h f hrep)) front' hne' (blanks_append_pair.mp hfront')
    · intro h front' hfront'
      by_contra hne'
      refine hiff.mpr (fun f hf hsame => hf (h f ?_)) front' hne' hfront'
      exact blanks_append_pair.mpr hsame
  constructor
  · rintro ⟨hall, hblank⟩
    exact ⟨hnoReturns.mpr hall, hblanks.mp hblank⟩
  · rintro ⟨hall, hblank⟩
    exact ⟨hnoReturns.mp hall, hblanks.mpr hblank⟩

/-- A text with a newline behind its last line is repaired to one of the same kind. -/
theorem repair_repair_of_ended {raw : List Char} (hended : raw.getLast? = some '\n')
    (hlast : ∀ last, (lines raw).getLast? = some last → last ≠ []) :
    repairStaleMcpEnvContinuations jsonStrings (repairStaleMcpEnvContinuations jsonStrings raw) =
      repairStaleMcpEnvContinuations jsonStrings raw ↔ SettledLines jsonStrings raw := by
  have hkept : repairLines jsonStrings (lines raw) ≠ [] :=
    repairLines_ne_nil (lines_ne_nil_of_ended hended)
  have hlastKept := @repairLines_getLast jsonStrings _ hlast
  have hfree : ∀ line ∈ repairLines jsonStrings (lines raw), '\n' ∉ line := fun line hline =>
    newline_not_mem_lines ((repairLines_sublist (lines raw)).subset hline)
  have hopen : (joinLines (repairLines jsonStrings (lines raw))).getLast? ≠ some '\n' := by
    obtain ⟨front, last, hconcat⟩ := (List.eq_nil_or_concat' _).resolve_left hkept
    rw [hconcat] at hlastKept hfree ⊢
    exact getLast?_joinLines_concat (hlastKept last List.getLast?_concat) (hfree last (by simp))
  have htext : repairStaleMcpEnvContinuations jsonStrings raw =
      joinLines (repairLines jsonStrings (lines raw) ++ [[]]) := by
    rw [repairStaleMcpEnvContinuations, hended]
    exact joinEnded_of_open hopen hkept
  have hreturns : endedLines jsonStrings raw = repairLines jsonStrings (lines raw) := if_pos hended
  rw [htext, repair_closed_eq_self_iff hkept hfree (repairLines_idem (lines raw)), ← hreturns]
  constructor
  · rintro ⟨hall, -⟩
    refine ⟨hall, fun front hfront => ?_⟩
    exact absurd rfl (hlast [] (by rw [hfront]; simp))
  · rintro ⟨hall, -⟩
    refine ⟨hall, fun front hfront => ?_⟩
    rw [hreturns] at hfront
    exact absurd rfl (hlastKept [] (by rw [hfront, List.getLast?_concat]))

/-- A text without a newline at its end is repaired to one of the same kind. -/
theorem repair_repair_of_open {raw : List Char} (hopen : raw.getLast? ≠ some '\n') :
    repairStaleMcpEnvContinuations jsonStrings (repairStaleMcpEnvContinuations jsonStrings raw) =
      repairStaleMcpEnvContinuations jsonStrings raw ↔ SettledLines jsonStrings raw := by
  have hfree : ∀ line ∈ repairLines jsonStrings (lines raw), '\n' ∉ line := fun line hline =>
    newline_not_mem_lines ((repairLines_sublist (lines raw)).subset hline)
  have hidem := @repairLines_idem jsonStrings (lines raw)
  have htext : repairStaleMcpEnvContinuations jsonStrings raw =
      joinLines (repairLines jsonStrings (lines raw)) := by
    rw [repairStaleMcpEnvContinuations, beq_eq_false_iff_ne.mpr hopen]
    rfl
  have hreturns : endedLines jsonStrings raw = (repairLines jsonStrings (lines raw)).dropLast :=
    if_neg hopen
  have hlast := lines_getLast_of_open hopen
  have hblanks : ∀ front, lines raw = front ++ [[], []] → front = [] := by
    intro front hfront
    exact absurd rfl (hlast [] (by rw [hfront]; simp))
  rw [htext]
  rcases List.eq_nil_or_concat' (repairLines jsonStrings (lines raw)) with
    hnil | ⟨front, last, hconcat⟩
  · rw [hnil] at hreturns ⊢
    refine iff_of_true (by rfl) ⟨?_, hblanks⟩
    rw [hreturns]
    exact fun line hline => absurd hline List.not_mem_nil
  · have hlast' : last ≠ [] :=
      repairLines_getLast hlast last (by rw [hconcat, List.getLast?_concat])
    rw [hconcat] at hfree hidem hreturns ⊢
    rw [repair_open_eq_self_iff hlast' hfree hidem]
    rw [List.dropLast_concat] at hreturns
    exact ⟨fun h => ⟨hreturns ▸ h, hblanks⟩, fun h => hreturns ▸ h.returns⟩

/-- For every text: repairing its repair changes nothing exactly when it is settled. -/
theorem repair_repair_eq_iff (raw : List Char) :
    repairStaleMcpEnvContinuations jsonStrings (repairStaleMcpEnvContinuations jsonStrings raw) =
      repairStaleMcpEnvContinuations jsonStrings raw ↔ Settled jsonStrings raw := by
  rw [← settledLines_iff]
  by_cases hended : raw.getLast? = some '\n'
  · obtain ⟨front, last, hlines⟩ :=
      (List.eq_nil_or_concat' (lines raw)).resolve_left (lines_ne_nil_of_ended hended)
    rcases eq_or_ne last [] with rfl | hlast
    · rcases eq_or_ne front [] with rfl | hfront
      · have hkept : repairLines jsonStrings (lines raw) = [[]] := by
          rw [hlines]
          rfl
        have htext : repairStaleMcpEnvContinuations jsonStrings raw = ['\n'] := by
          rw [repairStaleMcpEnvContinuations, hended, hkept]
          rfl
        refine iff_of_true (by rw [htext]; rfl) ⟨?_, fun front' hfront' => ?_⟩
        · rw [endedLines, if_pos hended, hkept]
          intro line hline
          cases List.mem_singleton.mp hline
          simp
        · rw [hlines] at hfront'
          have hlength := congrArg List.length hfront'
          simp at hlength
      · exact repair_repair_of_blank hended hlines hfront
    · apply repair_repair_of_ended hended
      rw [hlines, List.getLast?_concat]
      rintro l ⟨rfl⟩
      exact hlast
  · exact repair_repair_of_open hended

end Twice

/-! ### Valid texts -/

section Valid

variable {V : Type} {parse : List Char → Option V} {jsonStrings : Line → Option (List String)}

/-- A reader of TOML takes a carriage return and a newline for a newline, and does not need a
blank line at the end. -/
structure ReadsLineEnds (parse : List Char → Option V) : Prop where
  crlf : ∀ front back v, parse (front ++ '\r' :: '\n' :: back) = some v →
    parse (front ++ '\n' :: back) = some v
  blank : ∀ front v, parse (front ++ ['\n', '\n']) = some v → parse (front ++ ['\n']) = some v

/-- No line of the text is stale. -/
def FindsNothing (jsonStrings : Line → Option (List String)) (raw : List Char) : Prop :=
  ∀ front line back, lines raw = front ++ line :: back → ¬ Stale jsonStrings front line

/-- What is asked of the repair of a text: a valid one keeps its value, and repairing again changes
nothing. -/
structure Safe (parse : List Char → Option V) (jsonStrings : Line → Option (List String))
    (raw : List Char) : Prop where
  value : ∀ v, parse raw = some v →
    parse (repairStaleMcpEnvContinuations jsonStrings raw) = some v
  again : repairStaleMcpEnvContinuations jsonStrings
      (repairStaleMcpEnvContinuations jsonStrings raw) =
    repairStaleMcpEnvContinuations jsonStrings raw

/-- A stale line is dropped. -/
theorem length_repairLines_lt {front : List Line} {line : Line} (h : Stale jsonStrings front line)
    (back : List Line) :
    (repairLines jsonStrings (front ++ line :: back)).length < (front ++ line :: back).length := by
  induction back using List.reverseRecOn with
  | nil =>
      rcases @repairLines_concat jsonStrings front line with ⟨-, hsame⟩ | ⟨hnot, -⟩
      · have hle := (@repairLines_sublist jsonStrings front).length_le
        rw [hsame, List.length_append, List.length_singleton]
        omega
      · exact absurd h hnot
  | append_singleton back last ih =>
      have hsplit : front ++ line :: (back ++ [last]) = front ++ line :: back ++ [last] := by simp
      have hlength : (front ++ line :: back ++ [last]).length = (front ++ line :: back).length + 1 :=
        List.length_append
      rw [hsplit, hlength]
      rcases @repairLines_concat jsonStrings (front ++ line :: back) last with
        ⟨-, hsame⟩ | ⟨-, hmore⟩
      · rw [hsame]
        omega
      · rw [hmore, List.length_append, List.length_singleton]
        omega

/-- Nothing is found if and only if no line is dropped. -/
theorem findsNothing_iff {raw : List Char} :
    FindsNothing jsonStrings raw ↔ repairLines jsonStrings (lines raw) = lines raw := by
  rw [FindsNothing]
  constructor
  · generalize lines raw = ls
    intro h
    induction ls using List.reverseRecOn with
    | nil => rfl
    | append_singleton ls last ih =>
        rcases @repairLines_concat jsonStrings ls last with ⟨hstale, -⟩ | ⟨-, hmore⟩
        · exact absurd hstale (h ls last [] rfl)
        · rw [hmore, ih fun front line back hls => h front line (back ++ [last]) (by simp [hls])]
  · intro hsame front line back hlines hstale
    have hlt := length_repairLines_lt hstale back
    rw [← hlines, hsame] at hlt
    exact lt_irrefl _ hlt

/-- The characters of a line ending, without a carriage return. -/
def unixChars : LineEnding → List Char
  | .none => []
  | .lf => ['\n']
  | .crlf => ['\n']

/-- A reader takes a text with other line ends for the same. -/
theorem parse_unix (h : ReadsLineEnds parse) {v : V} (ls : List RawLine) (front : List Char)
    (hparse : parse (front ++ ls.flatMap fun raw => raw.text ++ raw.ending.chars) = some v) :
    parse (front ++ ls.flatMap fun raw => raw.text ++ unixChars raw.ending) = some v := by
  induction ls generalizing front with
  | nil => exact hparse
  | cons raw ls ih =>
      rw [List.flatMap_cons] at hparse ⊢
      have hline : parse ((front ++ raw.text ++ unixChars raw.ending) ++
          ls.flatMap fun raw => raw.text ++ raw.ending.chars) = some v := by
        cases hending : raw.ending with
        | none => simpa [hending, LineEnding.chars, unixChars] using hparse
        | lf => simpa [hending, LineEnding.chars, unixChars] using hparse
        | crlf =>
            have hcrlf := h.crlf (front ++ raw.text)
              (ls.flatMap fun raw => raw.text ++ raw.ending.chars) v
              (by simpa [hending, LineEnding.chars] using hparse)
            simpa [unixChars] using hcrlf
      have hrest := ih _ hline
      simpa using hrest

/-- The lines of a text with newlines as line ends. -/
theorem flatMap_unix (raw : List Char) :
    ((rawLines raw).flatMap fun raw => raw.text ++ unixChars raw.ending) =
      if raw.getLast? = some '\n' then joinLines (lines raw ++ [[]])
      else joinLines (lines raw) := by
  have hjoin := joinLines_splitOn raw
  have hpiece : ∀ piece, (RawLine.ofPiece piece).text ++ unixChars (RawLine.ofPiece piece).ending =
      stripCarriageReturn piece ++ ['\n'] := by
    intro piece
    unfold RawLine.ofPiece
    dsimp only
    split <;> rfl
  rcases List.eq_nil_or_concat' (raw.splitOn '\n') with hpieces | ⟨front, last, hpieces⟩
  · exact absurd hpieces (List.splitOn_ne_nil '\n' raw)
  · have hfront : (front.map RawLine.ofPiece).flatMap
        (fun raw => raw.text ++ unixChars raw.ending) =
        (front.map stripCarriageReturn).flatMap fun piece => piece ++ ['\n'] := by
      rw [List.flatMap_map, List.flatMap_map]
      exact List.flatMap_congr fun piece _ => hpiece piece
    have hfree : '\n' ∉ last := newline_not_mem_splitOn (hpieces ▸ List.mem_append_right _
      List.mem_cons_self)
    rw [hpieces] at hjoin
    unfold rawLines lines
    rw [hpieces]
    simp only [List.dropLast_concat, List.getLast?_concat, Option.getD_some]
    rcases eq_or_ne last [] with rfl | hlast
    · rw [if_pos List.isEmpty_nil, if_pos List.isEmpty_nil, List.append_nil, List.append_nil,
        hfront]
      have hflat := flatMap_joinLines (front.map stripCarriageReturn) []
      rw [List.append_nil] at hflat
      rw [hflat]
      rcases eq_or_ne front [] with rfl | hne
      · split <;> rfl
      · rw [if_pos (hjoin ▸ getLast?_joinLines_blank hne)]
    · have hempty : ¬ last.isEmpty = true := by simpa using hlast
      rw [if_neg hempty, if_neg hempty, List.flatMap_append, hfront,
        if_neg (hjoin ▸ getLast?_joinLines_concat hlast hfree), ← flatMap_joinLines]
      simp [unixChars]

/-- Where nothing is found, a valid text keeps its value. -/
theorem parse_repair (h : ReadsLineEnds parse) {raw : List Char}
    (hnothing : FindsNothing jsonStrings raw) {v : V} (hparse : parse raw = some v) :
    parse (repairStaleMcpEnvContinuations jsonStrings raw) = some v := by
  have hunix : parse ((rawLines raw).flatMap fun raw => raw.text ++ unixChars raw.ending) =
      some v := by
    apply parse_unix h (rawLines raw) []
    rw [List.nil_append, flatMap_rawLines]
    exact hparse
  rw [flatMap_unix] at hunix
  rw [repairStaleMcpEnvContinuations, findsNothing_iff.mp hnothing]
  by_cases hended : raw.getLast? = some '\n'
  · rw [if_pos hended] at hunix
    rw [hended]
    obtain ⟨front, last, hlines⟩ :=
      (List.eq_nil_or_concat' (lines raw)).resolve_left (lines_ne_nil_of_ended hended)
    have hfree : '\n' ∉ last := newline_not_mem_lines (hlines ▸ List.mem_append_right _
      List.mem_cons_self)
    rw [hlines] at hunix ⊢
    rcases eq_or_ne last [] with rfl | hlast
    · rcases eq_or_ne front [] with rfl | hfront
      · exact hunix
      · rw [show ((some '\n' == some '\n') : Bool) = true from rfl,
          joinEnded_of_ended (getLast?_joinLines_blank hfront)]
        rw [joinLines_closed (by simp), joinLines_closed hfront, List.append_assoc] at hunix
        rw [joinLines_closed hfront]
        exact h.blank (joinLines front) v hunix
    · rw [show ((some '\n' == some '\n') : Bool) = true from rfl,
        joinEnded_of_open (getLast?_joinLines_concat hlast hfree) (by simp)]
      exact hunix
  · rw [if_neg hended] at hunix
    rw [beq_eq_false_iff_ne.mpr hended]
    exact hunix

/-- For every reader of TOML and every text: the repair is safe when the text is settled and, where
it is valid, nothing is found in it; and it is safe only for settled texts. -/
theorem repair_safe (h : ReadsLineEnds parse) (jsonStrings : Line → Option (List String))
    (raw : List Char) :
    (Settled jsonStrings raw ∧ ((parse raw).isSome → FindsNothing jsonStrings raw) →
      Safe parse jsonStrings raw) ∧ (Safe parse jsonStrings raw → Settled jsonStrings raw) := by
  refine ⟨?_, fun hsafe => (repair_repair_eq_iff raw).mp hsafe.again⟩
  rintro ⟨hsettled, hnothing⟩
  refine ⟨fun v hparse => ?_, (repair_repair_eq_iff raw).mpr hsettled⟩
  apply parse_repair h _ hparse
  exact hnothing (by rw [hparse]; rfl)

/-- A text without carriage returns and without newlines at its end. -/
def plainText (raw : List Char) : List Char := (raw.filter (· != '\r')).rdropWhile (· == '\n')

/-- A reader that knows one text, however its lines are ended. -/
def readKnown {V : Type} (known : List Char) (v : V) (raw : List Char) : Option V :=
  if plainText raw = plainText known then some v else none

theorem readsLineEnds_readKnown (known : List Char) (v : V) :
    ReadsLineEnds (readKnown known v) where
  crlf front back v' hparse := by
    have hsame : plainText (front ++ '\n' :: back) = plainText (front ++ '\r' :: '\n' :: back) := by
      simp [plainText]
    rwa [readKnown, hsame]
  blank front v' hparse := by
    have hsame : plainText (front ++ ['\n']) = plainText (front ++ ['\n', '\n']) := by
      simp [plainText, List.rdropWhile]
    rwa [readKnown, hsame]

/-- Two servers, one with an array over several lines, in a text with carriage returns. -/
def twoServers : List Char :=
  ("[[mcp_servers]]\r\nname = \"files\"\r\nenv = [\r\n\"ROOT\",\r\n\"MODE\"\r\n]\r\n\r\n" ++
    "[[mcp_servers]]\r\nname = \"web\"\r\nenv = [\"TOKEN\"]\r\nurl = \"x\"\r\n").toList

/-- A reader of the arrays in it. -/
def readArrays (rhs : Line) : Option (List String) :=
  if rhs = "[\n\"ROOT\",\n\"MODE\"\n]".toList then some ["ROOT", "MODE"]
  else if rhs = "[\"TOKEN\"]".toList then some ["TOKEN"] else none

/-- The two servers keep what is known of them, though elements of an array look stale. -/
theorem repair_safe_servers :
    Safe (readKnown twoServers [("files", ["ROOT", "MODE"]), ("web", ["TOKEN"])]) readArrays
      twoServers := by
  refine (repair_safe (readsLineEnds_readKnown twoServers _) readArrays twoServers).1
    ⟨⟨fun front line back hkept _ => ?_, fun front hfront => ?_⟩, fun _ => ?_⟩
  · have hall : ∀ line ∈ lines twoServers, line.getLast? ≠ some '\r' := by decide +kernel
    exact hall line (by rw [hkept.1]; simp)
  · have hlast : (lines twoServers).getLast? = some "url = \"x\"".toList := by decide +kernel
    rw [hfront] at hlast
    simp at hlast
  · exact findsNothing_iff.mpr (by decide +kernel)

/-- A server whose name is under a quoted key. -/
def quotedKey : List Char := "[[mcp_servers]]\nenv = [\"A\"]\n\"name\" = \"x\"\n".toList

/-- The same without the name. -/
def unnamed : List Char := "[[mcp_servers]]\nenv = [\"A\"]\n".toList

/-- A reader of these two texts, which lists the keys of the server. -/
def readServer (raw : List Char) : Option (List String) :=
  if raw = quotedKey then some ["env", "name"] else if raw = unnamed then some ["env"] else none

/-- A reader of the array in them. -/
def readArray (rhs : Line) : Option (List String) :=
  if rhs = "[\"A\"]".toList then some ["A"] else none

theorem readServer_texts {raw : List Char} {v : List String} (h : readServer raw = some v) :
    '\r' ∉ raw ∧ ¬ ['\n', '\n'] <:+ raw := by
  unfold readServer at h
  split at h
  · next htext =>
      rw [htext]
      exact ⟨by decide, by decide⟩
  · split at h
    · next htext =>
        rw [htext]
        exact ⟨by decide, by decide⟩
    · cases h

theorem readsLineEnds_readServer : ReadsLineEnds readServer where
  crlf front back v hparse := absurd (by simp) (readServer_texts hparse).1
  blank front v hparse := absurd (List.suffix_append front _) (readServer_texts hparse).2

/-- The line with the quoted key goes, and the server is without its name. -/
theorem quoted_key_dropped : ¬ ∀ (V : Type) (parse : List Char → Option V),
    ReadsLineEnds parse → ∀ (jsonStrings : Line → Option (List String)) (raw : List Char),
      Safe parse jsonStrings raw := by
  intro h
  have hvalue := (h _ readServer readsLineEnds_readServer readArray quotedKey).value
    ["env", "name"] (if_pos rfl)
  have hrepaired : repairStaleMcpEnvContinuations readArray quotedKey = unnamed := by
    decide +kernel
  have hunnamed : readServer unnamed = some ["env"] := by decide +kernel
  rw [hrepaired, hunnamed] at hvalue
  exact absurd (Option.some.inj hvalue) (by decide)

end Valid

end ArmaraOS.Kernel
