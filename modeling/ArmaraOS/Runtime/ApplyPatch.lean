import ArmaraOS.Lib.HoldBack
import ArmaraOS.Lib.Lines

/-!
The patch parser (`openfang-runtime/src/apply_patch.rs`).

A text is the list of its characters. The index `i` into the body of the patch is the list of
the lines from there on.
-/

namespace ArmaraOS.Runtime

open ArmaraOS.Lib.Framing ArmaraOS.Text

/-- `Hunk`. -/
structure Hunk where
  contextBefore : List (List Char) := []
  oldLines : List (List Char) := []
  newLines : List (List Char) := []
  contextAfter : List (List Char) := []

/-- `PatchOp`. -/
inductive PatchOp where
  | addFile (path content : List Char)
  | updateFile (path : List Char) (moveTo : Option (List Char)) (hunks : List Hunk)
  | deleteFile (path : List Char)

/-! ### The lines of the format -/

/-- `str::strip_prefix`. -/
def stripPrefix (pat : String) (line : List Char) : Option (List Char) :=
  pat.toList.isPrefixOf? line

/-- `body[i].trim().starts_with("***")`. -/
def isSectionHeader (line : List Char) : Bool := "***".toList.isPrefixOf (trimmed line)

/-- `body[i].trim().starts_with("@@")`. -/
def isHunkHeader (line : List Char) : Bool := "@@".toList.isPrefixOf (trimmed line)

theorem stripPrefix_eq_some {pat : String} {line rest : List Char} :
    stripPrefix pat line = some rest ↔ pat.toList ++ rest = line :=
  List.isPrefixOf?_eq_some_iff_append_eq

/-- A line that starts with text is a header only if its first character says so. -/
theorem header_cons {c d : Char} {pat line : List Char} (hc : isWhitespace c = false)
    (hne : d ≠ c) : (d :: pat).isPrefixOf (trimmed (c :: line)) = false := by
  obtain ⟨rest, hrest⟩ := trimmed_cons_head hc line
  rw [hrest, List.isPrefixOf, beq_false_of_ne hne, Bool.false_and]

theorem isSectionHeader_cons {c : Char} (hc : isWhitespace c = false) (hne : '*' ≠ c)
    (line : List Char) : isSectionHeader (c :: line) = false :=
  header_cons hc hne

theorem isHunkHeader_cons {c : Char} (hc : isWhitespace c = false) (hne : '@' ≠ c)
    (line : List Char) : isHunkHeader (c :: line) = false :=
  header_cons hc hne

theorem isHunkHeader_of_blank {line : List Char} (h : (trimmed line).isEmpty = true) :
    isHunkHeader line = false := by
  rw [isHunkHeader, List.isEmpty_iff.mp h]
  rfl

/-- Between some lines and those behind them there is no section header, and a number of hunk
headers. -/
structure Passes (ls behind : List (List Char)) (hunks : Nat) : Prop where
  length : behind.length ≤ ls.length
  sectionHeaders : ls.countP isSectionHeader = behind.countP isSectionHeader
  hunkHeaders : ls.countP isHunkHeader = behind.countP isHunkHeader + hunks

theorem Passes.refl (ls : List (List Char)) : Passes ls ls 0 := ⟨Nat.le_refl _, rfl, rfl⟩

theorem Passes.trans {ls ls' ls'' : List (List Char)} {hunks hunks' : Nat}
    (h : Passes ls ls' hunks) (h' : Passes ls' ls'' hunks') :
    Passes ls ls'' (hunks' + hunks) where
  length := h'.length.trans h.length
  sectionHeaders := h.sectionHeaders.trans h'.sectionHeaders
  hunkHeaders := by rw [h.hunkHeaders, h'.hunkHeaders, Nat.add_assoc]

theorem Passes.cons {l : List Char} {ls behind : List (List Char)} {hunks : Nat}
    (h : Passes ls behind hunks) (hsection : isSectionHeader l = false)
    (hhunk : isHunkHeader l = false) : Passes (l :: ls) behind hunks where
  length := h.length.trans (Nat.le_succ _)
  sectionHeaders := by rw [List.countP_cons_of_neg (by simp [hsection]), h.sectionHeaders]
  hunkHeaders := by rw [List.countP_cons_of_neg (by simp [hhunk]), h.hunkHeaders]

/-! ### The parser -/

/-- The content lines of an added file, and the lines behind them. -/
def parseContent : List (List Char) → Except String (List (List Char) × List (List Char))
  | [] => .ok ([], [])
  | l :: rest =>
      if isSectionHeader l then .ok ([], l :: rest)
      else match stripPrefix "+" l with
        | some stripped =>
            match parseContent rest with
            | .error e => .error e
            | .ok (content, behind) => .ok (stripped :: content, behind)
        | none =>
            if !(trimmed l).isEmpty then
              let got := String.ofList l
              .error s!"Expected '+' prefix in Add File content, got: {got}"
            else parseContent rest

/-- A hunk that is being read. -/
structure HunkReader where
  hunk : Hunk := {}
  inChange : Bool := false
  pastChange : Bool := false

/-- A line of context. -/
def HunkReader.context (r : HunkReader) (text : List Char) : HunkReader :=
  if r.inChange || r.pastChange then
    { hunk := { r.hunk with contextAfter := r.hunk.contextAfter ++ [text] }
      pastChange := true
      inChange := false }
  else
    { r with hunk := { r.hunk with contextBefore := r.hunk.contextBefore ++ [text] } }

/-- One line of a hunk body. -/
def HunkReader.read (r : HunkReader) (hl : List Char) : HunkReader :=
  match stripPrefix "-" hl with
  | some stripped =>
      { hunk := { r.hunk with oldLines := r.hunk.oldLines ++ [stripped] }
        inChange := true
        pastChange := false }
  | none =>
      match stripPrefix "+" hl with
      | some stripped =>
          { hunk := { r.hunk with newLines := r.hunk.newLines ++ [stripped] }
            inChange := true
            pastChange := false }
      | none =>
          match stripPrefix " " hl with
          | some stripped => r.context stripped
          | none => if (trimmed hl).isEmpty then r.context [] else r.context hl

/-- The body of a hunk, and the lines behind it. -/
def parseHunkBody (r : HunkReader) : List (List Char) → Hunk × List (List Char)
  | [] => (r.hunk, [])
  | hl :: rest =>
      if isHunkHeader hl || isSectionHeader hl then (r.hunk, hl :: rest)
      else parseHunkBody (r.read hl) rest

theorem parseHunkBody_passes (r : HunkReader) (ls : List (List Char)) :
    Passes ls (parseHunkBody r ls).2 0 := by
  induction ls generalizing r with
  | nil => exact Passes.refl _
  | cons hl rest ih =>
      rw [parseHunkBody]
      split
      · exact Passes.refl _
      · rename_i hplain
        rw [Bool.not_eq_true, Bool.or_eq_false_iff] at hplain
        exact (ih _).cons hplain.2 hplain.1

/-- The hunks of an updated file, and the lines behind them. -/
def parseHunks : List (List Char) → List Hunk × List (List Char)
  | [] => ([], [])
  | l :: rest =>
      if isSectionHeader l then ([], l :: rest)
      else if isHunkHeader l then
        let body := parseHunkBody {} rest
        let next := parseHunks body.2
        (body.1 :: next.1, next.2)
      else parseHunks rest
termination_by ls => ls.length
decreasing_by
  · exact Nat.lt_succ_of_le (parseHunkBody_passes _ _).length
  · exact Nat.lt_succ_self _

/-- `old -> new`, or a path alone. -/
def updateTarget (rest : List Char) : List Char × Option (List Char) :=
  match cutAt "->".toList rest with
  | some (old, new) => (trimmed old, some (trimmed new))
  | none => (rest, none)

/-- One turn of the loop over the body: the operation that a line starts, if it starts one, and
the lines behind it. -/
def parseOp (line : List Char) (rest : List (List Char)) :
    Except String (Option PatchOp × List (List Char)) :=
  match stripPrefix "*** Add File:" line with
  | some path =>
      let path := trimmed path
      if path.isEmpty then .error "Empty path in '*** Add File:'"
      else match parseContent rest with
        | .error e => .error e
        | .ok (content, behind) => .ok (some (.addFile path (joinLines content)), behind)
  | none =>
      match stripPrefix "*** Update File:" line with
      | some paths =>
          let target := updateTarget (trimmed paths)
          if target.1.isEmpty then .error "Empty path in '*** Update File:'"
          else
            let hunks := parseHunks rest
            if hunks.1.isEmpty then
              let path := String.ofList target.1
              .error s!"Update File '{path}' has no hunks"
            else .ok (some (.updateFile target.1 target.2 hunks.1), hunks.2)
      | none =>
          match stripPrefix "*** Delete File:" line with
          | some path =>
              let path := trimmed path
              if path.isEmpty then .error "Empty path in '*** Delete File:'"
              else .ok (some (.deleteFile path), rest)
          | none =>
              if line.isEmpty then .ok (none, rest)
              else
                let unexpected := String.ofList line
                .error s!"Unexpected line in patch: {unexpected}"

theorem parseContent_passes {ls content behind : List (List Char)}
    (h : parseContent ls = .ok (content, behind)) : Passes ls behind 0 := by
  induction ls generalizing content with
  | nil =>
      obtain ⟨rfl, rfl⟩ : content = [] ∧ behind = [] := by simpa [parseContent, eq_comm] using h
      exact Passes.refl _
  | cons l rest ih =>
      rw [parseContent] at h
      split at h
      · obtain ⟨rfl, rfl⟩ : content = [] ∧ behind = l :: rest := by simpa [eq_comm] using h
        exact Passes.refl _
      · rename_i hsection
        rw [Bool.not_eq_true] at hsection
        split at h
        · rename_i stripped hplus
          split at h
          · cases h
          · rename_i content' behind' hrest
            obtain ⟨rfl, rfl⟩ : stripped :: content' = content ∧ behind' = behind := by
              simpa using h
            rw [← stripPrefix_eq_some.mp hplus]
            exact (ih hrest).cons (isSectionHeader_cons rfl (by decide) stripped)
              (isHunkHeader_cons rfl (by decide) stripped)
        · split at h
          · cases h
          · rename_i hblank
            exact (ih h).cons hsection (isHunkHeader_of_blank (by simpa using hblank))

theorem parseHunks_passes (ls : List (List Char)) :
    Passes ls (parseHunks ls).2 (parseHunks ls).1.length := by
  induction ls using parseHunks.induct with
  | case1 =>
      rw [parseHunks]
      exact Passes.refl _
  | case2 l rest hsection =>
      rw [parseHunks, if_pos hsection]
      exact Passes.refl _
  | case3 l rest hsection hhunk body ih =>
      rw [parseHunks, if_neg hsection, if_pos hhunk]
      have hbehind := (parseHunkBody_passes {} rest).trans ih
      exact
        { length := hbehind.length.trans (Nat.le_succ _)
          sectionHeaders := by
            rw [List.countP_cons_of_neg hsection, hbehind.sectionHeaders]
          hunkHeaders := by
            rw [List.countP_cons_of_pos hhunk, hbehind.hunkHeaders]
            rfl }
  | case4 l rest hsection hhunk ih =>
      rw [parseHunks, if_neg hsection, if_neg hhunk]
      exact ih.cons (Bool.eq_false_iff.mpr hsection) (Bool.eq_false_iff.mpr hhunk)

/-- What one turn of the loop finds. -/
inductive Turn (line : List Char) (rest : List (List Char)) :
    Option PatchOp → List (List Char) → Prop where
  | added {path : List Char} {content behind : List (List Char)}
      (hline : "***".toList <+: line) (hcontent : parseContent rest = .ok (content, behind)) :
      Turn line rest (some (.addFile path (joinLines content))) behind
  | updated {path : List Char} {moveTo : Option (List Char)} (hline : "***".toList <+: line)
      (hhunks : (parseHunks rest).1 ≠ []) :
      Turn line rest (some (.updateFile path moveTo (parseHunks rest).1)) (parseHunks rest).2
  | deleted {path : List Char} (hline : "***".toList <+: line) :
      Turn line rest (some (.deleteFile path)) rest
  | blank (hline : line = []) : Turn line rest none rest

theorem section_of_stripPrefix {pat : String} (hpat : "***".toList <+: pat.toList)
    {line path : List Char} (h : stripPrefix pat line = some path) : "***".toList <+: line :=
  hpat.trans ⟨path, stripPrefix_eq_some.mp h⟩

theorem turn_of_parseOp {line : List Char} {rest behind : List (List Char)}
    {op : Option PatchOp} (h : parseOp line rest = .ok (op, behind)) :
    Turn line rest op behind := by
  rw [parseOp] at h
  split at h
  · rename_i path hpath
    dsimp only at h
    split at h
    · cases h
    · split at h
      · cases h
      · rename_i content behind' hcontent
        obtain ⟨rfl, rfl⟩ := Prod.mk.inj (Except.ok.inj h)
        exact .added (section_of_stripPrefix (by decide) hpath) hcontent
  · split at h
    · rename_i paths hpaths
      dsimp only at h
      split at h
      · cases h
      · split at h
        · cases h
        · rename_i hhunks
          obtain ⟨rfl, rfl⟩ := Prod.mk.inj (Except.ok.inj h)
          exact .updated (section_of_stripPrefix (by decide) hpaths) (by simpa using hhunks)
    · split at h
      · rename_i path hpath
        dsimp only at h
        split at h
        · cases h
        · obtain ⟨rfl, rfl⟩ := Prod.mk.inj (Except.ok.inj h)
          exact .deleted (section_of_stripPrefix (by decide) hpath)
      · split at h
        · rename_i hline
          obtain ⟨rfl, rfl⟩ := Prod.mk.inj (Except.ok.inj h)
          exact .blank (List.isEmpty_iff.mp hline)
        · cases h

/-- The hunks of an operation. -/
def PatchOp.hunks : PatchOp → List Hunk
  | .updateFile _ _ hunks => hunks
  | .addFile _ _ => []
  | .deleteFile _ => []

theorem Turn.passes {line : List Char} {rest behind : List (List Char)} {op : Option PatchOp}
    (h : Turn line rest op behind) :
    Passes rest behind (op.toList.flatMap PatchOp.hunks).length := by
  cases h with
  | added _ hcontent => exact parseContent_passes hcontent
  | updated _ _ =>
      simp only [Option.toList_some, List.flatMap_cons, List.flatMap_nil, List.append_nil,
        PatchOp.hunks]
      exact parseHunks_passes rest
  | deleted _ => exact Passes.refl _
  | blank _ => exact Passes.refl _

/-- The operations of a patch body. -/
def parseOps : List (List Char) → Except String (List PatchOp)
  | [] => .ok []
  | l :: rest =>
      match _h : parseOp (trimmed l) rest with
      | .error e => .error e
      | .ok (op, behind) =>
          match parseOps behind with
          | .error e => .error e
          | .ok ops => .ok (op.toList ++ ops)
termination_by ls => ls.length
decreasing_by exact Nat.lt_succ_of_le (turn_of_parseOp ‹_›).passes.length

theorem parseOps_of_ok {l : List Char} {rest behind : List (List Char)} {op : Option PatchOp}
    {ops : List PatchOp} (h : parseOp (trimmed l) rest = .ok (op, behind))
    (hbehind : parseOps behind = .ok ops) : parseOps (l :: rest) = .ok (op.toList ++ ops) := by
  rw [parseOps]
  split
  · rename_i h'
    cases h.symm.trans h'
  · rename_i op' behind' h'
    obtain ⟨rfl, rfl⟩ := Prod.mk.inj (Except.ok.inj (h.symm.trans h'))
    rw [hbehind]

theorem exists_of_parseOps_cons {l : List Char} {rest : List (List Char)} {ops : List PatchOp}
    (h : parseOps (l :: rest) = .ok ops) :
    ∃ op behind ops', Turn (trimmed l) rest op behind ∧ parseOps behind = .ok ops' ∧
      ops = op.toList ++ ops' := by
  rw [parseOps] at h
  split at h
  · cases h
  · rename_i op behind hturn
    split at h
    · cases h
    · rename_i ops' hbehind
      exact ⟨op, behind, ops', turn_of_parseOp hturn, hbehind, (Except.ok.inj h).symm⟩

/-- `parse_patch`. -/
def parsePatch (input : List Char) : Except String (List PatchOp) :=
  let ls := lines input
  match ls.findIdx? fun l => trimmed l = "*** Begin Patch".toList with
  | none => .error "Missing '*** Begin Patch' marker"
  | some start =>
      match ls.reverse.findIdx? fun l => trimmed l = "*** End Patch".toList with
      | none => .error "Missing '*** End Patch' marker"
      | some fromEnd =>
          let stop := ls.length - 1 - fromEnd
          if stop ≤ start then .error "'*** End Patch' must come after '*** Begin Patch'"
          else match parseOps ((ls.take stop).drop (start + 1)) with
            | .error e => .error e
            | .ok ops => if ops.isEmpty then .error "Patch contains no operations" else .ok ops

/-! ### The documented rendering -/

/-- `@@`, and the prefixed lines of a hunk. -/
def Hunk.render (h : Hunk) : List (List Char) :=
  "@@".toList :: (h.contextBefore.map (' ' :: ·) ++ h.oldLines.map ('-' :: ·) ++
    h.newLines.map ('+' :: ·) ++ h.contextAfter.map (' ' :: ·))

/-- The header of an operation, and its lines. -/
def PatchOp.render : PatchOp → List (List Char)
  | .addFile path content =>
      ("*** Add File: ".toList ++ path) :: (content.splitOn '\n').map ('+' :: ·)
  | .updateFile path none hunks =>
      ("*** Update File: ".toList ++ path) :: hunks.flatMap Hunk.render
  | .updateFile path (some moveTo) hunks =>
      ("*** Update File: ".toList ++ (path ++ " -> ".toList ++ moveTo)) ::
        hunks.flatMap Hunk.render
  | .deleteFile path => ["*** Delete File: ".toList ++ path]

/-- A patch of operations. -/
def renderPatch (ops : List PatchOp) : List Char :=
  joinLines ("*** Begin Patch".toList :: ops.flatMap PatchOp.render ++ ["*** End Patch".toList])

end ArmaraOS.Runtime
