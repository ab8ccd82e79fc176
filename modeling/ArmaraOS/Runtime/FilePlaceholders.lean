import ArmaraOS.Session.ToolResults

/-!
Placeholders in what is written to a file (`detect_truncation_placeholder` in `tool_runner.rs`).

A pattern is looked for in the lower case of the content, and the bytes of the place where it is
found, widened by 16 to both sides, are sliced out of the content itself. The slice panics where one
of its ends is not a boundary there: inside a character in front of the pattern or behind it, or
where the lower case of what stands in front has another length.
-/

namespace ArmaraOS.Runtime

open ArmaraOS.Lib ArmaraOS.Lib.Framing ArmaraOS.Lib.Lowercase ArmaraOS.Text

/-! ### Looking for a pattern -/

/-- `PATTERNS`. -/
def truncationPatterns : List String :=
  ["truncated for brevity", "truncated for readability", "[... full content", "[... rest of",
    "[... remaining", "// ... rest of file ...", "# ... rest of file ...", "<!-- truncated -->",
    "(content truncated)", "...truncated..."]

/-- The byte where the first pattern is found, and how many bytes that has. -/
def findPattern (lower : List Char) : Option (Nat × Nat) :=
  truncationPatterns.findSome? fun p =>
    (cutAt p.toList lower).map fun cut => (byteLength cut.1, byteLength p.toList)

/-- `detect_truncation_placeholder`; the outer `none` where the slice panics. -/
def detectTruncationPlaceholder (lc : Lowercase) (content : List Char) : Option (Option String) :=
  match findPattern (lc.toLowercase content) with
  | none => some none
  | some (idx, len) =>
      let start := idx - 16
      let stop := min (idx + len + 16) (byteLength content)
      (slice start stop content).map fun piece =>
        some (trim (String.ofList (piece.map fun c => if c = '\n' then ' ' else c)))

/-- The content is searched without a panic, and a placeholder is found exactly where its lower case
has one. -/
def Detects (lc : Lowercase) (content : List Char) : Prop :=
  ∃ found, detectTruncationPlaceholder lc content = some found ∧
    (found.isSome = true ↔ ∃ p ∈ truncationPatterns, p.toList <:+: lc.toLowercase content)

/-! ### Where the first pattern stands -/

theorem truncationPatterns_plain : ∀ p ∈ truncationPatterns,
    p.toList.all (fun c => c.toNat < 128) = true ∧ 'k' ∉ p.toList ∧
      p.toList.getLast? ≠ some 'i' ∧ p.toList ≠ [] := by
  decide +kernel

theorem plain_of_mem {p : String} (h : p ∈ truncationPatterns) : Plain p.toList := by
  obtain ⟨hascii, hk, hi, -⟩ := truncationPatterns_plain p h
  exact ⟨by simpa using hascii, hk, hi⟩

theorem ne_of_mem {p : String} (h : p ∈ truncationPatterns) : p.toList ≠ [] := by
  obtain ⟨-, -, -, hne⟩ := truncationPatterns_plain p h
  exact hne

/-- Of the patterns that the content has in any case, `p` is the first on the list; its first
occurrence is `found`. -/
structure FirstPattern (content : List Char) (p : String) (front found back : List Char) :
    Prop where
  earlier : ∃ before after, truncationPatterns = before ++ p :: after ∧
    ∀ q ∈ before, ¬ q.toList <:+: content.map Char.toLower
  text : content = front ++ (found ++ back)
  reads : found.map Char.toLower = p.toList
  first : ∀ i < front.length, ¬ p.toList <+: (content.drop i).map Char.toLower

variable {lc : Lowercase} {content front found back : List Char} {p : String}

theorem FirstPattern.mem (h : FirstPattern content p front found back) :
    p ∈ truncationPatterns := by
  obtain ⟨before, after, hlist, -⟩ := h.earlier
  rw [hlist]
  exact List.mem_append_right _ List.mem_cons_self

theorem FirstPattern.infix (h : FirstPattern content p front found back) :
    p.toList <:+: content.map Char.toLower := by
  rw [h.text, List.map_append, List.map_append, h.reads, ← List.append_assoc]
  exact List.infix_append _ _ _

/-- A content with a pattern has a first one. -/
theorem exists_firstPattern (h : ∃ p ∈ truncationPatterns, p.toList <:+: content.map Char.toLower) :
    ∃ p front found back, FirstPattern content p front found back := by
  classical
  have hfind : (truncationPatterns.find? fun q =>
      decide (q.toList <:+: content.map Char.toLower)).isSome = true := by
    rw [List.find?_isSome]
    simpa using h
  obtain ⟨p, hp⟩ := Option.isSome_iff_exists.mp hfind
  obtain ⟨hp, before, after, hlist, hbefore⟩ := List.find?_eq_some_iff_append.mp hp
  rw [decide_eq_true_iff] at hp
  obtain ⟨front, found, back, rfl, hfound, hfirst⟩ := exists_found hp
  exact ⟨p, front, found, back, ⟨before, after, hlist, by simpa using hbefore⟩, rfl, hfound,
    hfirst⟩

variable (lc) in
/-- The lower case has a pattern where the content has it in any case. -/
theorem infix_toLowercase_iff (h : p ∈ truncationPatterns) :
    p.toList <:+: lc.toLowercase content ↔ p.toList <:+: content.map Char.toLower :=
  (plain_of_mem h).infix_lowerIn_iff lc (ne_of_mem h) [] content []

theorem findPattern_eq_none
    (h : ¬ ∃ p ∈ truncationPatterns, p.toList <:+: content.map Char.toLower) :
    findPattern (lc.toLowercase content) = none := by
  refine List.findSome?_eq_none_iff.mpr fun p hp => ?_
  rw [Option.map_eq_none_iff, cutAt_eq_none_iff, infix_toLowercase_iff lc hp]
  exact fun hin => h ⟨p, hp, hin⟩

/-- It is found behind the lower case of what stands in front. -/
theorem FirstPattern.findPattern (h : FirstPattern content p front found back) :
    findPattern (lc.toLowercase content) =
      some (byteLength (lc.lowerIn [] front (found ++ back)), byteLength p.toList) := by
  obtain ⟨before, after, hlist, hbefore⟩ := h.earlier
  have hnone : before.findSome? (fun q => (cutAt q.toList (lc.toLowercase content)).map fun cut =>
      (byteLength cut.1, byteLength q.toList)) = none := by
    refine List.findSome?_eq_none_iff.mpr fun q hq => ?_
    have hmem : q ∈ truncationPatterns := hlist ▸ List.mem_append_left _ hq
    rw [Option.map_eq_none_iff, cutAt_eq_none_iff, infix_toLowercase_iff lc hmem]
    exact hbefore q hq
  have hback : p.toList <+: (found ++ back).map Char.toLower := by
    rw [List.map_append, h.reads]
    exact List.prefix_append _ _
  have hcut := (plain_of_mem h.mem).cutAt_lowerIn lc (ne_of_mem h.mem) [] [] hback
    (h.text ▸ h.first)
  rw [← h.text, ← toLowercase, List.append_nil] at hcut
  rw [Runtime.findPattern, hlist, List.findSome?_append, hnone, Option.none_or,
    List.findSome?_cons, hcut]
  rfl

/-! ### The slice -/

variable (lc) in
/-- Both ends of the slice are boundaries of the content. -/
def SlicedCleanly (content : List Char) : Prop :=
  ∀ p front found back, FirstPattern content p front found back →
    let idx := byteLength (lc.lowerIn [] front (found ++ back))
    isCharBoundary (idx - 16) content = true ∧
      isCharBoundary (min (idx + byteLength p.toList + 16) (byteLength content)) content = true

/-- With a pattern in it, the content is searched without a panic where the slice is clean. -/
theorem FirstPattern.detects_iff (h : FirstPattern content p front found back) :
    Detects lc content ↔
      isCharBoundary (byteLength (lc.lowerIn [] front (found ++ back)) - 16) content = true ∧
      isCharBoundary (min (byteLength (lc.lowerIn [] front (found ++ back)) +
        byteLength p.toList + 16) (byteLength content)) content = true := by
  have hin : ∃ p ∈ truncationPatterns, p.toList <:+: lc.toLowercase content :=
    ⟨p, h.mem, (infix_toLowercase_iff lc h.mem).mpr h.infix⟩
  rw [Detects, detectTruncationPlaceholder, h.findPattern]
  dsimp only
  generalize byteLength (lc.lowerIn [] front (found ++ back)) = idx
  constructor
  · rintro ⟨out, hout, -⟩
    obtain ⟨piece, hpiece, -⟩ := Option.map_eq_some_iff.mp hout
    exact (slice_isSome_iff.mp (Option.isSome_iff_exists.mpr ⟨piece, hpiece⟩)).2
  · rintro ⟨hstart, hstop⟩
    have hle : idx - 16 ≤ min (idx + byteLength p.toList + 16) (byteLength content) :=
      le_min (by omega) (le_byteLength_of_isCharBoundary hstart)
    obtain ⟨piece, hpiece⟩ :=
      Option.isSome_iff_exists.mp (slice_isSome_iff.mpr ⟨hle, hstart, hstop⟩)
    refine ⟨_, by rw [hpiece]; rfl, ?_⟩
    exact iff_of_true rfl hin

theorem detects_of_none
    (h : ¬ ∃ p ∈ truncationPatterns, p.toList <:+: content.map Char.toLower) :
    Detects lc content := by
  refine ⟨none, by rw [detectTruncationPlaceholder, findPattern_eq_none h], ?_⟩
  refine iff_of_false Bool.false_ne_true ?_
  rintro ⟨p, hp, hin⟩
  exact h ⟨p, hp, (infix_toLowercase_iff lc hp).mp hin⟩

/-- For every lower case and content: it is searched without a panic, and a placeholder is found
exactly where the lower case has a pattern, if and only if the widened place of the first pattern
ends on boundaries of the content. -/
theorem placeholder_detected_iff (lc : Lowercase) (content : List Char) :
    Detects lc content ↔ SlicedCleanly lc content := by
  by_cases hin : ∃ p ∈ truncationPatterns, p.toList <:+: content.map Char.toLower
  · obtain ⟨p, front, found, back, hfirst⟩ := exists_firstPattern hin
    constructor
    · exact fun h p front found back hfirst => hfirst.detects_iff.mp h
    · exact fun h => hfirst.detects_iff.mpr (h p front found back hfirst)
  · refine iff_of_true (detects_of_none hin) ?_
    exact fun p _ _ _ hfirst => absurd ⟨p, hfirst.mem, hfirst.infix⟩ hin

/-- The pattern stands at byte 17. The slice starts at byte 1, inside the accented letter. -/
theorem accented_placeholder_panics :
    ¬ ∀ content, Detects Session.fewLowercase content := by
  intro h
  obtain ⟨out, hout, -⟩ := h "é---------------(content truncated)".toList
  have hnone : detectTruncationPlaceholder Session.fewLowercase
      "é---------------(content truncated)".toList = none := by
    decide +kernel
  rw [hnone] at hout
  exact Option.some_ne_none out hout.symm

end ArmaraOS.Runtime
