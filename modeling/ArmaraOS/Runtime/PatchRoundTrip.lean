import ArmaraOS.Runtime.ApplyPatch

/-!
The round trip of the patch format.

The parser looks for headers before it looks at the prefix of a line, and trims a line for it, so
a line of context can be taken for a header. A patch comes back as it was rendered exactly when
none is, and every update has a hunk: one direction follows the parser over the rendered lines,
the other counts headers, since the parser makes one operation of each section header and one
hunk of each hunk header.
-/

namespace ArmaraOS.Runtime

open ArmaraOS.Lib.Framing ArmaraOS.Text

/-! ### Operations that can be rendered -/

/-- A path: not empty, trimmed, on one line, and without `->`. -/
structure IsPath (path : List Char) : Prop where
  nonempty : path ≠ []
  trimmed : trimmed path = path
  newline : '\n' ∉ path
  arrow : ¬ "->".toList <:+: path

/-- A hunk of lines without line terminators that changes something. -/
structure Hunk.WellFormed (h : Hunk) : Prop where
  isLine : ∀ text ∈ h.contextBefore ++ h.oldLines ++ h.newLines ++ h.contextAfter, IsLine text
  changes : h.oldLines ≠ [] ∨ h.newLines ≠ []

instance (path : List Char) : Decidable (IsPath path) :=
  decidable_of_iff (path ≠ [] ∧ trimmed path = path ∧ '\n' ∉ path ∧ ¬ "->".toList <:+: path)
    ⟨fun h => ⟨h.1, h.2.1, h.2.2.1, h.2.2.2⟩,
      fun h => ⟨h.nonempty, h.trimmed, h.newline, h.arrow⟩⟩

instance (h : Hunk) : Decidable h.WellFormed :=
  decidable_of_iff
    ((∀ text ∈ h.contextBefore ++ h.oldLines ++ h.newLines ++ h.contextAfter, IsLine text) ∧
      (h.oldLines ≠ [] ∨ h.newLines ≠ []))
    ⟨fun h => ⟨h.1, h.2⟩, fun h => ⟨h.isLine, h.changes⟩⟩

/-- The paths are paths, the texts are lines, and every hunk changes something. -/
def PatchOp.WellFormed : PatchOp → Prop
  | .addFile path content => IsPath path ∧ ∀ text ∈ content.splitOn '\n', IsLine text
  | .updateFile path moveTo hunks =>
      IsPath path ∧ (∀ target ∈ moveTo, IsPath target) ∧ ∀ h ∈ hunks, h.WellFormed
  | .deleteFile path => IsPath path

instance : DecidablePred PatchOp.WellFormed
  | .addFile path content =>
      inferInstanceAs (Decidable (IsPath path ∧ ∀ text ∈ content.splitOn '\n', IsLine text))
  | .updateFile path moveTo hunks =>
      inferInstanceAs (Decidable
        (IsPath path ∧ (∀ target ∈ moveTo, IsPath target) ∧ ∀ h ∈ hunks, h.WellFormed))
  | .deleteFile path => inferInstanceAs (Decidable (IsPath path))

/-- The lines of context of a hunk. -/
def Hunk.context (h : Hunk) : List (List Char) := h.contextBefore ++ h.contextAfter

/-- A line of context that is not taken for a header. -/
def PlainContext (text : List Char) : Prop :=
  isSectionHeader text = false ∧ isHunkHeader text = false

/-- An update with a hunk, and no line of its context is taken for a header. -/
def PatchOp.Plain : PatchOp → Prop
  | .addFile _ _ => True
  | .updateFile _ _ hunks =>
      hunks ≠ [] ∧ ∀ h ∈ hunks, ∀ text ∈ h.context, PlainContext text
  | .deleteFile _ => True

instance : DecidablePred PlainContext := fun text =>
  inferInstanceAs (Decidable (isSectionHeader text = false ∧ isHunkHeader text = false))

instance : DecidablePred PatchOp.Plain
  | .addFile _ _ => isTrue trivial
  | .updateFile _ _ hunks =>
      inferInstanceAs (Decidable
        (hunks ≠ [] ∧ ∀ h ∈ hunks, ∀ text ∈ h.context, PlainContext text))
  | .deleteFile _ => isTrue trivial

/-! ### Reading back one operation -/

/-- Nothing, or a line that ends a hunk. -/
def StopsHunk : List (List Char) → Prop
  | [] => True
  | l :: _ => isHunkHeader l = true ∨ isSectionHeader l = true

/-- Nothing, or a section header. -/
def StopsOp : List (List Char) → Prop
  | [] => True
  | l :: _ => isSectionHeader l = true

theorem parseContent_render {behind : List (List Char)} (hbehind : StopsOp behind)
    (content : List (List Char)) :
    parseContent (content.map ('+' :: ·) ++ behind) = .ok (content, behind) := by
  induction content with
  | nil =>
      cases behind with
      | nil => rfl
      | cons l rest =>
          rw [List.map_nil, List.nil_append, parseContent,
            if_pos (show isSectionHeader l = true from hbehind)]
  | cons text content ih =>
      rw [List.map_cons, List.cons_append, parseContent,
        isSectionHeader_cons (c := '+') rfl (by decide),
        stripPrefix_eq_some.mpr (show "+".toList ++ text = '+' :: text from rfl)]
      simp only [ih]
      rfl

/-- Lines that are no headers are read one after the other. -/
theorem parseHunkBody_append {ls behind : List (List Char)} (hbehind : StopsHunk behind)
    (hplain : ∀ l ∈ ls, isHunkHeader l = false ∧ isSectionHeader l = false) (r : HunkReader) :
    parseHunkBody r (ls ++ behind) = ((ls.foldl HunkReader.read r).hunk, behind) := by
  induction ls generalizing r with
  | nil =>
      cases behind with
      | nil => rfl
      | cons l rest =>
          rw [List.nil_append, parseHunkBody, if_pos (by simpa [StopsHunk] using hbehind)]
          rfl
  | cons l ls ih =>
      obtain ⟨hl, hls⟩ := List.forall_mem_cons.mp hplain
      rw [List.cons_append, parseHunkBody, hl.1, hl.2, List.foldl_cons, ← ih hls]
      rfl

theorem read_context (r : HunkReader) (text : List Char) :
    r.read (' ' :: text) = r.context text := by
  simp [HunkReader.read, stripPrefix, List.isPrefixOf?]

theorem foldl_before (texts : List (List Char)) (h : Hunk) :
    (texts.map (' ' :: ·)).foldl HunkReader.read { hunk := h } =
      { hunk := { h with contextBefore := h.contextBefore ++ texts } } := by
  induction texts generalizing h with
  | nil => simp
  | cons text texts ih =>
      rw [List.map_cons, List.foldl_cons, read_context]
      simp [HunkReader.context, ih]

theorem foldl_old (texts : List (List Char)) (h : Hunk) (changed : Bool) :
    (texts.map ('-' :: ·)).foldl HunkReader.read { hunk := h, inChange := changed } =
      { hunk := { h with oldLines := h.oldLines ++ texts }
        inChange := changed || !texts.isEmpty } := by
  induction texts generalizing h changed with
  | nil => simp
  | cons text texts ih =>
      rw [List.map_cons, List.foldl_cons]
      simp [HunkReader.read, stripPrefix, List.isPrefixOf?, ih]

theorem foldl_new (texts : List (List Char)) (h : Hunk) (changed : Bool) :
    (texts.map ('+' :: ·)).foldl HunkReader.read { hunk := h, inChange := changed } =
      { hunk := { h with newLines := h.newLines ++ texts }
        inChange := changed || !texts.isEmpty } := by
  induction texts generalizing h changed with
  | nil => simp
  | cons text texts ih =>
      rw [List.map_cons, List.foldl_cons]
      simp [HunkReader.read, stripPrefix, List.isPrefixOf?, ih]

theorem foldl_after (texts : List (List Char)) (r : HunkReader)
    (hr : (r.inChange || r.pastChange) = true) :
    ((texts.map (' ' :: ·)).foldl HunkReader.read r).hunk =
      { r.hunk with contextAfter := r.hunk.contextAfter ++ texts } := by
  induction texts generalizing r with
  | nil => simp
  | cons text texts ih =>
      rw [List.map_cons, List.foldl_cons, read_context]
      simp [HunkReader.context, hr, ih]

/-- The lines of a hunk whose context is plain are no headers. -/
theorem body_plain {h : Hunk} (hplain : ∀ text ∈ h.context, PlainContext text) :
    ∀ l ∈ h.contextBefore.map (' ' :: ·) ++ h.oldLines.map ('-' :: ·) ++
        h.newLines.map ('+' :: ·) ++ h.contextAfter.map (' ' :: ·),
      isHunkHeader l = false ∧ isSectionHeader l = false := by
  have hcontext : ∀ text ∈ h.context,
      isHunkHeader (' ' :: text) = false ∧ isSectionHeader (' ' :: text) = false := by
    intro text htext
    rw [isHunkHeader, isSectionHeader, trimmed_space]
    exact ⟨(hplain text htext).2, (hplain text htext).1⟩
  intro l hl
  simp only [List.mem_append, List.mem_map] at hl
  rcases hl with ((⟨text, htext, rfl⟩ | ⟨text, -, rfl⟩) | ⟨text, -, rfl⟩) | ⟨text, htext, rfl⟩
  · exact hcontext text (List.mem_append_left _ htext)
  · exact ⟨isHunkHeader_cons rfl (by decide) text, isSectionHeader_cons rfl (by decide) text⟩
  · exact ⟨isHunkHeader_cons rfl (by decide) text, isSectionHeader_cons rfl (by decide) text⟩
  · exact hcontext text (List.mem_append_right _ htext)

theorem parseHunkBody_render {h : Hunk} (hchanges : h.oldLines ≠ [] ∨ h.newLines ≠ [])
    (hplain : ∀ text ∈ h.context, PlainContext text)
    {behind : List (List Char)} (hbehind : StopsHunk behind) :
    parseHunkBody {} (h.contextBefore.map (' ' :: ·) ++ h.oldLines.map ('-' :: ·) ++
      h.newLines.map ('+' :: ·) ++ h.contextAfter.map (' ' :: ·) ++ behind) = (h, behind) := by
  rw [parseHunkBody_append hbehind (body_plain hplain)]
  simp only [List.foldl_append]
  rw [foldl_before, foldl_old, foldl_new, foldl_after]
  · simp
  · simpa [List.isEmpty_iff] using hchanges

theorem parseHunks_render {behind : List (List Char)} (hbehind : StopsOp behind)
    {hunks : List Hunk} (hchanges : ∀ h ∈ hunks, h.oldLines ≠ [] ∨ h.newLines ≠ [])
    (hplain : ∀ h ∈ hunks, ∀ text ∈ h.context, PlainContext text) :
    parseHunks (hunks.flatMap Hunk.render ++ behind) = (hunks, behind) := by
  induction hunks with
  | nil =>
      cases behind with
      | nil => rw [List.flatMap_nil, List.nil_append, parseHunks]
      | cons l rest =>
          rw [List.flatMap_nil, List.nil_append, parseHunks,
            if_pos (show isSectionHeader l = true from hbehind)]
  | cons h hunks ih =>
      obtain ⟨hchange, hchanges⟩ := List.forall_mem_cons.mp hchanges
      obtain ⟨hcontext, hplain⟩ := List.forall_mem_cons.mp hplain
      have hstop : StopsHunk (hunks.flatMap Hunk.render ++ behind) := by
        cases hunks with
        | nil =>
            cases behind with
            | nil => trivial
            | cons l rest => exact .inr hbehind
        | cons h' hunks' => exact .inl (by decide)
      rw [List.flatMap_cons, Hunk.render, List.cons_append, List.cons_append, parseHunks,
        if_neg (by decide), if_pos (by decide), List.append_assoc _ _ behind,
        parseHunkBody_render hchange hcontext hstop]
      dsimp only
      rw [ih hchanges hplain]

theorem updateTarget_path {path : List Char} (h : IsPath path) :
    updateTarget path = (path, none) := by
  rw [updateTarget, cutAt_eq_none_iff.mpr h.arrow]

theorem updateTarget_move {path moveTo : List Char} (h : IsPath path) (h' : IsPath moveTo) :
    updateTarget (path ++ " -> ".toList ++ moveTo) = (path, some moveTo) := by
  have hnone : cutAt "->".toList (path ++ [' '] ++ []) = none := by
    rw [cutAt_eq_none_iff, List.append_nil, List.infix_concat_iff, not_or]
    refine ⟨fun hsuffix => ?_, h.arrow⟩
    obtain ⟨t, ht⟩ := hsuffix
    have hlast := congrArg List.getLast? ht
    simp at hlast
  have hholds : Holds "->".toList (path ++ [' '] ++ []) ([] : List Char).length := by
    intro len hpos hlt hsuffix
    obtain rfl : len = 1 := by
      have hlt' : len < 2 := hlt
      have hpos' : 0 < len := hpos
      omega
    obtain ⟨t, ht⟩ := hsuffix
    have hlast := congrArg List.getLast? ht
    simp at hlast
  have hcut := cutAt_append_of_held ("->".toList ++ ' ' :: moveTo) hnone hholds
  have hfirst : cutAt "->".toList ("->".toList ++ ' ' :: moveTo) = some ([], ' ' :: moveTo) := by
    rfl
  rw [List.nil_append, hfirst] at hcut
  have htext : path ++ " -> ".toList ++ moveTo =
      path ++ [' '] ++ ("->".toList ++ ' ' :: moveTo) := by
    simp
  rw [updateTarget, htext, hcut]
  simp [trimmed_concat_space, trimmed_space, h.trimmed, h'.trimmed]

/-! ### Reading back a patch -/

theorem IsPath.trimmed_moved {path moveTo : List Char} (h : IsPath path) (h' : IsPath moveTo) :
    Text.trimmed (path ++ " -> ".toList ++ moveTo) = path ++ " -> ".toList ++ moveTo := by
  obtain ⟨c, rest, rfl, hc⟩ := exists_of_trimmed h.trimmed h.nonempty
  exact trimmed_append hc (rest ++ " -> ".toList) h'.nonempty h'.trimmed

/-- The text behind the header of an operation: its paths. -/
def PatchOp.paths : PatchOp → List Char
  | .addFile path _ => path
  | .updateFile path none _ => path
  | .updateFile path (some moveTo) _ => path ++ " -> ".toList ++ moveTo
  | .deleteFile path => path

theorem PatchOp.WellFormed.paths {op : PatchOp} (h : op.WellFormed) :
    op.paths ≠ [] ∧ Text.trimmed op.paths = op.paths ∧ '\n' ∉ op.paths := by
  cases op with
  | addFile path content => exact ⟨h.1.nonempty, h.1.trimmed, h.1.newline⟩
  | deleteFile path => exact ⟨h.nonempty, h.trimmed, h.newline⟩
  | updateFile path moveTo hunks =>
      obtain ⟨hpath, hmove, -⟩ := h
      cases moveTo with
      | none => exact ⟨hpath.nonempty, hpath.trimmed, hpath.newline⟩
      | some target =>
          have htarget := hmove target rfl
          refine ⟨by simp [PatchOp.paths], hpath.trimmed_moved htarget, ?_⟩
          simp [PatchOp.paths, hpath.newline, htarget.newline]

theorem trimmed_section {pat : String} (hpat : "***".toList <+: pat.toList) {paths : List Char}
    (hne : paths ≠ []) (htrim : trimmed paths = paths) :
    trimmed (pat.toList ++ paths) = pat.toList ++ paths := by
  obtain ⟨front, hfront⟩ := hpat
  rw [← hfront]
  exact trimmed_append (c := '*') rfl _ hne htrim

theorem parseOp_add {path : List Char} (h : IsPath path) {rest content behind : List (List Char)}
    (hcontent : parseContent rest = .ok (content, behind)) :
    parseOp ("*** Add File: ".toList ++ path) rest =
      .ok (some (.addFile path (joinLines content)), behind) := by
  have hpath : stripPrefix "*** Add File:" ("*** Add File: ".toList ++ path) =
      some (' ' :: path) := rfl
  rw [parseOp, hpath]
  dsimp only
  rw [trimmed_space, h.trimmed, if_neg (by simpa using h.nonempty), hcontent]

theorem parseOp_delete {path : List Char} (h : IsPath path) (rest : List (List Char)) :
    parseOp ("*** Delete File: ".toList ++ path) rest = .ok (some (.deleteFile path), rest) := by
  have hadd : stripPrefix "*** Add File:" ("*** Delete File: ".toList ++ path) = none := rfl
  have hupdate : stripPrefix "*** Update File:" ("*** Delete File: ".toList ++ path) = none := rfl
  have hpath : stripPrefix "*** Delete File:" ("*** Delete File: ".toList ++ path) =
      some (' ' :: path) := rfl
  rw [parseOp, hadd, hupdate, hpath]
  dsimp only
  rw [trimmed_space, h.trimmed, if_neg (by simpa using h.nonempty)]

theorem parseOp_update {paths path : List Char} {moveTo : Option (List Char)}
    (hpaths : updateTarget (trimmed paths) = (path, moveTo)) (hpath : path ≠ [])
    {rest behind : List (List Char)} {hunks : List Hunk}
    (hhunks : parseHunks rest = (hunks, behind)) (hne : hunks ≠ []) :
    parseOp ("*** Update File: ".toList ++ paths) rest =
      .ok (some (.updateFile path moveTo hunks), behind) := by
  have hadd : stripPrefix "*** Add File:" ("*** Update File: ".toList ++ paths) = none := rfl
  have hupdate : stripPrefix "*** Update File:" ("*** Update File: ".toList ++ paths) =
      some (' ' :: paths) := rfl
  rw [parseOp, hadd, hupdate]
  dsimp only
  rw [trimmed_space, hpaths, if_neg (by simpa using hpath), hhunks, if_neg (by simpa using hne)]

/-- The lines of an operation behind its header. -/
def PatchOp.body : PatchOp → List (List Char)
  | .addFile _ content => (content.splitOn '\n').map ('+' :: ·)
  | .updateFile _ _ hunks => hunks.flatMap Hunk.render
  | .deleteFile _ => []

/-- An operation is rendered as a section header and the lines of its body. -/
theorem exists_render (op : PatchOp) : ∃ pat : String, "***".toList <+: pat.toList ∧
    '\n' ∉ pat.toList ∧ op.render = (pat.toList ++ op.paths) :: op.body := by
  cases op with
  | addFile path content => exact ⟨"*** Add File: ", by decide, by decide, rfl⟩
  | deleteFile path => exact ⟨"*** Delete File: ", by decide, by decide, rfl⟩
  | updateFile path moveTo hunks =>
      cases moveTo with
      | none => exact ⟨"*** Update File: ", by decide, by decide, rfl⟩
      | some target => exact ⟨"*** Update File: ", by decide, by decide, rfl⟩

theorem PatchOp.WellFormed.header {op : PatchOp} (h : op.WellFormed) {pat : String}
    (hpat : "***".toList <+: pat.toList) :
    isSectionHeader (pat.toList ++ op.paths) = true ∧
      isHunkHeader (pat.toList ++ op.paths) = false := by
  obtain ⟨hne, htrim, -⟩ := h.paths
  rw [isSectionHeader, isHunkHeader, trimmed_section hpat hne htrim]
  obtain ⟨tail, htail⟩ := hpat
  rw [← htail]
  exact ⟨rfl, rfl⟩

theorem stopsOp_render {ops : List PatchOp} (hops : ∀ op ∈ ops, op.WellFormed) :
    StopsOp (ops.flatMap PatchOp.render) := by
  cases ops with
  | nil => trivial
  | cons op ops =>
      obtain ⟨pat, hpat, -, hrender⟩ := exists_render op
      rw [List.flatMap_cons, hrender, List.cons_append]
      exact ((hops op List.mem_cons_self).header hpat).1

theorem parseOps_section {pat : String} (hpat : "***".toList <+: pat.toList) {paths : List Char}
    (hne : paths ≠ []) (htrim : trimmed paths = paths) {rest behind : List (List Char)}
    {op : PatchOp} {ops : List PatchOp}
    (hparse : parseOp (pat.toList ++ paths) rest = .ok (some op, behind))
    (hbehind : parseOps behind = .ok ops) :
    parseOps ((pat.toList ++ paths) :: rest) = .ok (op :: ops) := by
  rw [← trimmed_section hpat hne htrim] at hparse
  exact parseOps_of_ok hparse hbehind

/-- One operation in front of the lines of others. -/
theorem parseOps_render_cons {op : PatchOp} (hop : op.WellFormed) (hplain : op.Plain)
    {behind : List (List Char)} (hstop : StopsOp behind) {ops : List PatchOp}
    (hbehind : parseOps behind = .ok ops) :
    parseOps (op.render ++ behind) = .ok (op :: ops) := by
  obtain ⟨hne, htrim, -⟩ := hop.paths
  cases op with
  | addFile path content =>
      have hparse := parseOp_add hop.1 (parseContent_render hstop (content.splitOn '\n'))
      rw [joinLines_splitOn] at hparse
      exact parseOps_section (by decide) hne htrim hparse hbehind
  | deleteFile path =>
      exact parseOps_section (by decide) hne htrim (parseOp_delete hop behind) hbehind
  | updateFile path moveTo hunks =>
      obtain ⟨hpath, hmove, hhunks⟩ := hop
      have hread := parseHunks_render hstop (fun h hh => (hhunks h hh).changes) hplain.2
      cases moveTo with
      | none =>
          have htarget : updateTarget (trimmed path) = (path, none) := by
            rw [hpath.trimmed, updateTarget_path hpath]
          have hparse := parseOp_update htarget hpath.nonempty hread hplain.1
          exact parseOps_section (by decide) hne htrim hparse hbehind
      | some target =>
          have htarget : updateTarget (trimmed (path ++ " -> ".toList ++ target)) =
              (path, some target) := by
            rw [hpath.trimmed_moved (hmove target rfl), updateTarget_move hpath (hmove target rfl)]
          have hparse := parseOp_update htarget hpath.nonempty hread hplain.1
          exact parseOps_section (by decide) hne htrim hparse hbehind

theorem parseOps_render {ops : List PatchOp} (hops : ∀ op ∈ ops, op.WellFormed)
    (hplain : ∀ op ∈ ops, op.Plain) : parseOps (ops.flatMap PatchOp.render) = .ok ops := by
  induction ops with
  | nil => rw [List.flatMap_nil, parseOps]
  | cons op ops ih =>
      obtain ⟨hop, hops⟩ := List.forall_mem_cons.mp hops
      obtain ⟨hop', hplain⟩ := List.forall_mem_cons.mp hplain
      exact parseOps_render_cons hop hop' (stopsOp_render hops) (ih hops hplain)

/-! ### Counting headers -/

/-- The line that a turn reads is a section header exactly if it starts an operation, and never a
hunk header. -/
theorem Turn.line {l : List Char} {rest behind : List (List Char)} {op : Option PatchOp}
    (h : Turn (trimmed l) rest op behind) :
    isSectionHeader l = op.isSome ∧ isHunkHeader l = false := by
  have hsection : "***".toList <+: trimmed l →
      isSectionHeader l = true ∧ isHunkHeader l = false := by
    rintro ⟨tail, htail⟩
    rw [isSectionHeader, isHunkHeader, ← htail]
    exact ⟨rfl, rfl⟩
  cases h with
  | added hline => exact hsection hline
  | updated hline => exact hsection hline
  | deleted hline => exact hsection hline
  | blank hline =>
      rw [isSectionHeader, isHunkHeader, hline]
      exact ⟨rfl, rfl⟩

theorem Turn.counts {l : List Char} {rest behind : List (List Char)} {op : Option PatchOp}
    (h : Turn (trimmed l) rest op behind) :
    (l :: rest).countP isSectionHeader = behind.countP isSectionHeader + op.toList.length ∧
      (l :: rest).countP isHunkHeader =
        behind.countP isHunkHeader + (op.toList.flatMap PatchOp.hunks).length := by
  rw [List.countP_cons, List.countP_cons, h.line.1, h.line.2, h.passes.sectionHeaders,
    h.passes.hunkHeaders]
  cases op <;> exact ⟨rfl, rfl⟩

/-- What a parse finds: an operation for each section header, a hunk for each hunk header, and
no update without a hunk. -/
theorem parseOps_counts : ∀ {ls : List (List Char)} {ops : List PatchOp},
    parseOps ls = .ok ops →
    ls.countP isSectionHeader = ops.length ∧
      ls.countP isHunkHeader = (ops.flatMap PatchOp.hunks).length ∧
      ∀ path moveTo, PatchOp.updateFile path moveTo [] ∉ ops
  | [], ops, h => by
      rw [parseOps] at h
      obtain rfl := Except.ok.inj h
      exact ⟨rfl, rfl, fun _ _ => List.not_mem_nil⟩
  | l :: rest, ops, h => by
      obtain ⟨op, behind, ops', hturn, hbehind, rfl⟩ := exists_of_parseOps_cons h
      obtain ⟨hsections, hhunks, hnonempty⟩ := parseOps_counts hbehind
      rw [hturn.counts.1, hturn.counts.2, hsections, hhunks]
      refine ⟨by simp [Nat.add_comm], by simp [Nat.add_comm], fun path moveTo hmem => ?_⟩
      rcases List.mem_append.mp hmem with hmem | hmem
      · cases hturn with
        | added => simp at hmem
        | deleted => simp at hmem
        | blank => simp at hmem
        | updated _ hne =>
            rw [Option.toList_some, List.mem_singleton] at hmem
            exact hne (PatchOp.updateFile.inj hmem).2.2.symm
      · exact hnonempty path moveTo hmem
termination_by ls => ls.length
decreasing_by exact Nat.lt_succ_of_le hturn.passes.length

theorem isSectionHeader_space (text : List Char) :
    isSectionHeader (' ' :: text) = isSectionHeader text := by
  rw [isSectionHeader, isSectionHeader, trimmed_space]

theorem isHunkHeader_space (text : List Char) :
    isHunkHeader (' ' :: text) = isHunkHeader text := by
  rw [isHunkHeader, isHunkHeader, trimmed_space]

/-- Prefixed lines are no headers. -/
theorem countP_prefixed {isHeader : List Char → Bool} {c : Char}
    (h : ∀ text, isHeader (c :: text) = false) (texts : List (List Char)) :
    (texts.map (c :: ·)).countP isHeader = 0 := by
  rw [List.countP_map, List.countP_eq_zero]
  intro text _
  simp [h text]

/-- The headers among the lines of a hunk: its own, and the lines of context taken for one. -/
theorem countP_hunk (h : Hunk) :
    h.render.countP isSectionHeader = h.context.countP isSectionHeader ∧
      h.render.countP isHunkHeader = h.context.countP isHunkHeader + 1 := by
  have hold : ∀ text, isSectionHeader ('-' :: text) = false ∧ isHunkHeader ('-' :: text) = false :=
    fun text => ⟨isSectionHeader_cons rfl (by decide) text, isHunkHeader_cons rfl (by decide) text⟩
  have hnew : ∀ text, isSectionHeader ('+' :: text) = false ∧ isHunkHeader ('+' :: text) = false :=
    fun text => ⟨isSectionHeader_cons rfl (by decide) text, isHunkHeader_cons rfl (by decide) text⟩
  have hsection : ∀ texts : List (List Char),
      (texts.map (' ' :: ·)).countP isSectionHeader = texts.countP isSectionHeader := by
    intro texts
    simp only [List.countP_map, Function.comp_def, isSectionHeader_space]
  have hhunk : ∀ texts : List (List Char),
      (texts.map (' ' :: ·)).countP isHunkHeader = texts.countP isHunkHeader := by
    intro texts
    simp only [List.countP_map, Function.comp_def, isHunkHeader_space]
  have hfirst : isSectionHeader "@@".toList = false ∧ isHunkHeader "@@".toList = true := by
    decide
  simp only [Hunk.render, Hunk.context, List.countP_cons, List.countP_append, hsection, hhunk,
    countP_prefixed fun text => (hold text).1, countP_prefixed fun text => (hold text).2,
    countP_prefixed fun text => (hnew text).1, countP_prefixed fun text => (hnew text).2, hfirst]
  exact ⟨rfl, rfl⟩

/-- All lines of context. -/
def PatchOp.context (op : PatchOp) : List (List Char) := op.hunks.flatMap Hunk.context

theorem countP_hunks (hunks : List Hunk) :
    (hunks.flatMap Hunk.render).countP isSectionHeader =
        (hunks.flatMap Hunk.context).countP isSectionHeader ∧
      (hunks.flatMap Hunk.render).countP isHunkHeader =
        (hunks.flatMap Hunk.context).countP isHunkHeader + hunks.length := by
  induction hunks with
  | nil => exact ⟨rfl, rfl⟩
  | cons h hunks ih =>
      simp only [List.flatMap_cons, List.countP_append, List.length_cons, ih.1, ih.2,
        (countP_hunk h).1, (countP_hunk h).2]
      exact ⟨trivial, by omega⟩

theorem countP_render {op : PatchOp} (hop : op.WellFormed) :
    op.render.countP isSectionHeader = op.context.countP isSectionHeader + 1 ∧
      op.render.countP isHunkHeader = op.context.countP isHunkHeader + op.hunks.length := by
  have hplus : ∀ text, isSectionHeader ('+' :: text) = false ∧ isHunkHeader ('+' :: text) = false :=
    fun text => ⟨isSectionHeader_cons rfl (by decide) text, isHunkHeader_cons rfl (by decide) text⟩
  have hbody : op.body.countP isSectionHeader = op.context.countP isSectionHeader ∧
      op.body.countP isHunkHeader = op.context.countP isHunkHeader + op.hunks.length := by
    cases op with
    | addFile path content =>
        exact ⟨countP_prefixed (fun text => (hplus text).1) _,
          countP_prefixed (fun text => (hplus text).2) _⟩
    | updateFile path moveTo hunks => exact countP_hunks hunks
    | deleteFile path => exact ⟨rfl, rfl⟩
  obtain ⟨pat, hpat, -, hrender⟩ := exists_render op
  obtain ⟨hsection, hhunk⟩ := hop.header hpat
  rw [hrender, List.countP_cons_of_pos hsection, List.countP_cons_of_neg (by simp [hhunk]),
    hbody.1, hbody.2]
  exact ⟨rfl, rfl⟩

theorem countP_renders {ops : List PatchOp} (hops : ∀ op ∈ ops, op.WellFormed) :
    (ops.flatMap PatchOp.render).countP isSectionHeader =
        (ops.flatMap PatchOp.context).countP isSectionHeader + ops.length ∧
      (ops.flatMap PatchOp.render).countP isHunkHeader =
        (ops.flatMap PatchOp.context).countP isHunkHeader +
          (ops.flatMap PatchOp.hunks).length := by
  induction ops with
  | nil => exact ⟨rfl, rfl⟩
  | cons op ops ih =>
      obtain ⟨hop, hops⟩ := List.forall_mem_cons.mp hops
      have hrest := ih hops
      simp only [List.flatMap_cons, List.countP_append, List.length_cons, List.length_append,
        (countP_render hop).1, (countP_render hop).2, hrest.1, hrest.2]
      omega

/-- If the lines of some operations are parsed as these, no line of context was taken for a
header. -/
theorem plain_of_parseOps {ops : List PatchOp} (hops : ∀ op ∈ ops, op.WellFormed)
    (h : parseOps (ops.flatMap PatchOp.render) = .ok ops) : ∀ op ∈ ops, op.Plain := by
  obtain ⟨hsections, hhunks, hnonempty⟩ := parseOps_counts h
  rw [(countP_renders hops).1] at hsections
  rw [(countP_renders hops).2] at hhunks
  have hsection : (ops.flatMap PatchOp.context).countP isSectionHeader = 0 := by omega
  have hhunk : (ops.flatMap PatchOp.context).countP isHunkHeader = 0 := by omega
  rw [List.countP_eq_zero] at hsection hhunk
  intro op hop
  cases op with
  | addFile => trivial
  | deleteFile => trivial
  | updateFile path moveTo hunks =>
      refine ⟨?_, fun h hh text htext => ?_⟩
      · rintro rfl
        exact hnonempty path moveTo hop
      · have hmem : text ∈ ops.flatMap PatchOp.context :=
          List.mem_flatMap.mpr ⟨_, hop, List.mem_flatMap.mpr ⟨h, hh, htext⟩⟩
        exact ⟨Bool.eq_false_iff.mpr (hsection text hmem),
          Bool.eq_false_iff.mpr (hhunk text hmem)⟩

/-! ### Reading back a whole patch -/

theorem Hunk.WellFormed.isLine_render {h : Hunk} (hh : h.WellFormed) :
    ∀ line ∈ h.render, IsLine line := by
  have hprefixed : ∀ {c : Char} {text : List Char}, c ≠ '\n' → c ≠ '\r' →
      text ∈ h.contextBefore ++ h.oldLines ++ h.newLines ++ h.contextAfter → IsLine (c :: text) :=
    fun hnewline hreturn htext => (hh.isLine _ htext).cons hnewline hreturn
  intro line hline
  rw [Hunk.render, List.mem_cons] at hline
  rcases hline with rfl | hline
  · exact ⟨by decide, by decide⟩
  · simp only [List.mem_append, List.mem_map] at hline hprefixed
    rcases hline with ((⟨text, htext, rfl⟩ | ⟨text, htext, rfl⟩) | ⟨text, htext, rfl⟩) |
      ⟨text, htext, rfl⟩
    · exact hprefixed (by decide) (by decide) (.inl (.inl (.inl htext)))
    · exact hprefixed (by decide) (by decide) (.inl (.inl (.inr htext)))
    · exact hprefixed (by decide) (by decide) (.inl (.inr htext))
    · exact hprefixed (by decide) (by decide) (.inr htext)

theorem PatchOp.WellFormed.isLine_render {op : PatchOp} (hop : op.WellFormed) :
    ∀ line ∈ op.render, IsLine line := by
  obtain ⟨hne, htrim, hnewline⟩ := hop.paths
  obtain ⟨pat, -, hpat, hrender⟩ := exists_render op
  intro line hline
  rw [hrender, List.mem_cons] at hline
  rcases hline with rfl | hline
  · exact isLine_append hpat hnewline htrim hne
  · cases op with
    | addFile path content =>
        obtain ⟨text, htext, rfl⟩ := List.mem_map.mp hline
        exact (hop.2 text htext).cons (by decide) (by decide)
    | updateFile path moveTo hunks =>
        obtain ⟨h, hh, hline⟩ := List.mem_flatMap.mp hline
        exact (hop.2.2 h hh).isLine_render line hline
    | deleteFile path => cases hline

theorem lines_renderPatch {ops : List PatchOp} (hops : ∀ op ∈ ops, op.WellFormed) :
    lines (renderPatch ops) =
      "*** Begin Patch".toList :: ops.flatMap PatchOp.render ++ ["*** End Patch".toList] := by
  refine lines_joinLines (fun line hline => ?_) (by decide) (by decide)
  rcases List.mem_cons.mp hline with rfl | hline
  · exact ⟨by decide, by decide⟩
  · obtain ⟨op, hop, hline⟩ := List.mem_flatMap.mp hline
    exact (hops op hop).isLine_render line hline

/-- The markers of a rendered patch are its first and its last line. -/
theorem parsePatch_render {ops : List PatchOp} (hops : ∀ op ∈ ops, op.WellFormed) :
    parsePatch (renderPatch ops) =
      match parseOps (ops.flatMap PatchOp.render) with
      | .error e => .error e
      | .ok ops => if ops.isEmpty then .error "Patch contains no operations" else .ok ops := by
  have hbegin : trimmed "*** Begin Patch".toList = "*** Begin Patch".toList := by decide
  have hend : trimmed "*** End Patch".toList = "*** End Patch".toList := by decide
  rw [parsePatch, lines_renderPatch hops]
  generalize "*** Begin Patch".toList = first at hbegin ⊢
  generalize "*** End Patch".toList = last at hend ⊢
  generalize ops.flatMap PatchOp.render = body
  have hstart : (first :: body ++ [last]).findIdx? (fun l => trimmed l = first) = some 0 := by
    rw [List.cons_append, List.findIdx?_cons, if_pos (decide_eq_true hbegin)]
  have hstop : (first :: body ++ [last]).reverse.findIdx? (fun l => trimmed l = last) =
      some 0 := by
    rw [List.reverse_append, List.reverse_singleton, List.singleton_append, List.findIdx?_cons,
      if_pos (decide_eq_true hend)]
  have hlength : (first :: body ++ [last]).length - 1 - 0 = body.length + 1 := by simp
  have hbody : ((first :: body ++ [last]).take (body.length + 1)).drop (0 + 1) = body := by simp
  dsimp only
  rw [hstart, hstop]
  dsimp only
  rw [hlength, hbody]
  exact if_neg (by omega)

/-- **When a patch comes back.** For operations that can be rendered, `parse_patch` returns from
the rendering the operations themselves if and only if every update has a hunk and no line of
context, trimmed, starts with `***` or `@@`. -/
theorem parsePatch_render_iff {ops : List PatchOp} (hne : ops ≠ [])
    (hops : ∀ op ∈ ops, op.WellFormed) :
    parsePatch (renderPatch ops) = .ok ops ↔ ∀ op ∈ ops, op.Plain := by
  rw [parsePatch_render hops]
  constructor
  · intro h
    split at h
    · cases h
    · rename_i ops' hparse
      split at h
      · cases h
      · obtain rfl := Except.ok.inj h
        exact plain_of_parseOps hops hparse
  · intro hplain
    rw [parseOps_render hops hplain]
    simpa using hne

/-- **The patch format comes back.** Operations that can be rendered, each update with a hunk and
no line of context that is taken for a header, are parsed back from their rendering. -/
theorem patch_round_trips {ops : List PatchOp} (hne : ops ≠ [])
    (hops : ∀ op ∈ ops, op.WellFormed) (hplain : ∀ op ∈ ops, op.Plain) :
    parsePatch (renderPatch ops) = .ok ops :=
  (parsePatch_render_iff hne hops).mpr hplain

/-- A file is added, one is changed and moved, and one is deleted. -/
theorem patch_round_trips_three_files :
    let hunk : Hunk := ⟨["fn f() \x7b".toList], ["  old();".toList], ["  new();".toList],
      ["\x7d".toList, []]⟩
    let ops : List PatchOp := [.addFile "a.txt".toList "+one\n\n@@".toList,
      .updateFile "b.rs".toList (some "c.rs".toList) [hunk], .deleteFile "d".toList]
    parsePatch (renderPatch ops) = .ok ops := by
  intro hunk ops
  exact patch_round_trips (by decide) (by decide) (by decide)

/-- A file that is moved without a change is refused, and a line of context that starts with
`***` ends the hunk. -/
theorem patches_that_do_not_come_back :
    let moved : List PatchOp := [.updateFile "a".toList (some "b".toList) []]
    let marked : List PatchOp :=
      [.updateFile "a".toList none [⟨["*** note".toList], ["old".toList], [], []⟩]]
    ((∀ op ∈ moved, op.WellFormed) ∧ parsePatch (renderPatch moved) ≠ .ok moved) ∧
      (∀ op ∈ marked, op.WellFormed) ∧ parsePatch (renderPatch marked) ≠ .ok marked := by
  intro moved marked
  have hmoved : ∀ op ∈ moved, op.WellFormed := by decide
  have hmarked : ∀ op ∈ marked, op.WellFormed := by decide
  refine ⟨⟨hmoved, ?_⟩, hmarked, ?_⟩
  · rw [ne_eq, parsePatch_render_iff (by decide) hmoved]
    decide
  · rw [ne_eq, parsePatch_render_iff (by decide) hmarked]
    decide

end ArmaraOS.Runtime
