import ArmaraOS.Agent.WrittenCalls
import ArmaraOS.Lib.FirstSeen

/-!
Which tool calls are recovered from a text that is the rendering of one call.

A rendering is read as a whole when the payload does not hold the closing marker and is read back
as it was written. But the patterns look into the payload too, and a call that is written in a
string of the arguments is recovered beside the one that was rendered, or in its place.
`recovers_rendered_iff` says when the call comes back alone, in terms of what the text writes
(`Written`, `WrittenBare`); that the patterns read just this is `written_iff`, and what becomes of
the calls that they read is `recovers_one_iff`.
-/

namespace ArmaraOS.Agent

open ArmaraOS.Lib ArmaraOS.Lib.Framing ArmaraOS.Text

/-! ### The renderings -/

/-- The documented ways to write a call into a text. -/
inductive Rendering where
  | function
  | tool
  | toolCall
  | toolUse
  | toolCallBlock
  | arrowBlock
deriving DecidableEq

namespace Rendering

def opening (name : String) : Rendering → List Char
  | .function => "<function=".toList ++ (name.toList ++ ['>'])
  | .tool => "<tool>".toList
  | .toolCall => "<tool_call>".toList
  | .toolUse => "<tool_use>".toList
  | .toolCallBlock | .arrowBlock => "[TOOL_CALL]".toList

def closing : Rendering → List Char
  | .function => "</function>".toList
  | .tool => "</tool>".toList
  | .toolCall => "</tool_call>".toList
  | .toolUse => "</tool_use>".toList
  | .toolCallBlock | .arrowBlock => "[/TOOL_CALL]".toList

section Text

variable (lib : Library) (name : String) (input : Json)

/-- `{"name":NAME,"arguments":INPUT}`. -/
def callObject : List Char :=
  '{' :: "\"name\":".toList ++ ((lib.jsonToString (.str name)).toList ++
    (",\"arguments\":".toList ++ ((lib.jsonToString input).toList ++ ['}'])))

/-- `{tool => "NAME", args => INPUT}`. -/
def callArrow : List Char :=
  '{' :: "tool => \"".toList ++ (name.toList ++
    ("\", args => ".toList ++ ((lib.jsonToString input).toList ++ ['}'])))

/-- What stands between the markers. -/
def payload : Rendering → List Char
  | .function => (lib.jsonToString input).toList
  | .tool => name.toList ++ (lib.jsonToString input).toList
  | .toolCall | .toolUse | .toolCallBlock => callObject lib name input
  | .arrowBlock => callArrow lib name input

/-- The rendered call. -/
def text (form : Rendering) : List Char :=
  form.opening name ++ (form.payload lib name input ++ form.closing)

end Text

end Rendering

/-- The names that the renderings are for: no whitespace, and none of the characters that the
markers are made of. -/
structure ToolName (name : String) : Prop where
  noSpace : ∀ c ∈ name.toList, isWhitespace c = false
  noMarker : ∀ c ∈ "<>{}`[]/".toList, c ∉ name.toList

/-- `serde_json::to_string` writes an object on one line between braces, and a name on one
line. -/
structure WritesCompact (lib : Library) (name : String) (input : Json) : Prop where
  braces : ∃ body, (lib.jsonToString input).toList = '{' :: (body ++ ['}'])
  oneLine : '\n' ∉ (lib.jsonToString input).toList
  nameOneLine : '\n' ∉ (lib.jsonToString (.str name)).toList

/-! ### What the patterns read -/

section Readings

variable (R : Recovery) (toolNames : List String) (text : List Char) (call : FoundCall)

/-- The calls of the patterns with markers that can find one in a single line, without the first
pattern. -/
def markedCalls : List FoundCall :=
  namedTagCalls R toolNames "<function>".toList "</function>".toList text ++
    (namedTagCalls R toolNames "<tool>".toList "</tool>".toList text ++
    (backtickCalls R toolNames text ++
    (toolCallBlockCalls R toolNames text ++
    (objectTagCalls R toolNames "<tool_call>".toList "</tool_call>".toList text ++
    (attributeCalls R toolNames text ++
    (objectTagCalls R toolNames "<|plugin|>".toList "<|endofblock|>".toList text ++
      objectTagCalls R toolNames "<tool_use>".toList "</tool_use>".toList text))))))

variable {R toolNames text call}

end Readings

namespace Rendering

variable (R : Recovery) (name : String) (input : Json)

/-- The payload is read back as it was written. -/
def ReadsBack : Rendering → Prop
  | .function => R.lib.jsonFromStr (R.lib.jsonToString input) = some input
  | .tool => name ≠ "" ∧ R.lib.jsonFromStr (R.lib.jsonToString input) = some input
  | .toolCall | .toolUse | .toolCallBlock =>
      R.fromStr (callObject R.lib name input) =
        some (.obj [("arguments", input), ("name", .str name)])
  -- The JSON behind `args =>` runs up to the brace that closes the whole.
  | .arrowBlock =>
      (name ≠ "" ∧ '"' ∉ name.toList ∧ ¬ "args".toList <:+: name.toList) ∧
        R.fromStr (callArrow R.lib name input) = none ∧
          arrowArgs R ((R.lib.jsonToString input).toList ++ ['}']) = input

/-- The rendering is read as a whole: the payload does not hold the closing marker, and it is read
back. -/
structure ReadWhole (form : Rendering) : Prop where
  unbroken : ¬ form.closing <:+: form.payload R.lib name input
  readsBack : form.ReadsBack R name input

end Rendering

/-! ### The blocks of a rendering -/

section Blocks

variable {a b : Char} {pat pat' inner : List Char}

theorem mem_blocks (hb : b ∉ pat') (hinner : ¬ b :: pat' <:+: inner) :
    inner ∈ blocks (a :: pat) (b :: pat') (a :: pat ++ (inner ++ b :: pat')) := by
  have hclose : cutAt (b :: pat') (inner ++ b :: pat') = some (inner, []) := by
    simpa using cutAt_first hb hinner []
  rw [blocks, List.cons_append, List.length_cons, blocksFrom, ← List.cons_append, cutAt_start]
  simp only [hclose]
  exact List.mem_cons_self

theorem functionBlocks_rendered {name : List Char} (hname : '>' ∉ name)
    (hinner : ¬ "</function>".toList <:+: inner) (fuel : Nat) :
    (name, trimmed inner) ∈ functionBlocksFrom (fuel + 1)
      ("<function=".toList ++ (name ++ ['>']) ++ (inner ++ "</function>".toList)) := by
  have hclose : cutAt "</function>".toList (inner ++ "</function>".toList) = some (inner, []) := by
    simpa using cutAt_first (by decide : '<' ∉ "/function>".toList) hinner []
  have hgt : cutAt ['>'] (name ++ ['>'] ++ (inner ++ "</function>".toList)) =
      some (name, inner ++ "</function>".toList) := by
    rw [List.append_assoc]
    exact cutAt_first List.not_mem_nil (by rwa [List.singleton_infix_iff]) _
  have hopen : cutAt "<function=".toList
      ("<function=".toList ++ (name ++ ['>'] ++ (inner ++ "</function>".toList))) =
      some ([], name ++ ['>'] ++ (inner ++ "</function>".toList)) :=
    cutAt_start _
  rw [functionBlocksFrom, List.append_assoc, hopen]
  simp only [hgt, hclose]
  exact List.mem_cons_self

/-- A text between braces has nothing to trim. -/
theorem trimmed_braces (body : List Char) :
    trimmed ('{' :: (body ++ ['}'])) = '{' :: (body ++ ['}']) :=
  trimmed_append (by decide) body (by simp) rfl

theorem trimmed_braced (front name middle json : List Char) :
    trimmed ('{' :: front ++ (name ++ (middle ++ (json ++ ['}'])))) =
      '{' :: front ++ (name ++ (middle ++ (json ++ ['}']))) := by
  have h := trimmed_braces (front ++ (name ++ (middle ++ json)))
  simpa only [List.append_assoc, List.cons_append] using h

end Blocks

/-! ### A call that is read as a whole -/

section Whole

variable {R : Recovery} {toolNames : List String} {name : String} {input : Json}

theorem ToolName.trimmed_eq (h : ToolName name) : trimmed name.toList = name.toList :=
  trimmed_of_noSpace h.noSpace

theorem isTool_toList (h : name ∈ toolNames) : isTool toolNames name.toList = true := by
  rw [isTool, String.ofList_toList]
  exact List.contains_iff_mem.mpr h

theorem fromStr_toList (s : String) : R.fromStr s.toList = R.lib.jsonFromStr s := by
  rw [Recovery.fromStr, String.ofList_toList]

theorem namedCall_rendered {accepts : List Char → Bool} (hname : ToolName name)
    (hwrites : WritesCompact R.lib name input) (haccepts : accepts name.toList = true)
    (hread : R.lib.jsonFromStr (R.lib.jsonToString input) = some input) :
    namedCall R accepts (name.toList ++ (R.lib.jsonToString input).toList) =
      some (name, input) := by
  obtain ⟨body, hbody⟩ := hwrites.braces
  have hplain : ∀ c ∈ name.toList, (c != '{') = true := fun c hc => by
    rw [bne_iff_ne]
    rintro rfl
    exact hname.noMarker '{' (by decide) hc
  have hmem : '{' ∈ name.toList ++ (R.lib.jsonToString input).toList := by simp [hbody]
  have htake : (name.toList ++ (R.lib.jsonToString input).toList).takeWhile (· != '{') =
      name.toList := by
    rw [List.takeWhile_append_of_pos hplain, hbody]
    simp
  have hdrop : (name.toList ++ (R.lib.jsonToString input).toList).dropWhile (· != '{') =
      (R.lib.jsonToString input).toList := by
    rw [List.dropWhile_append_of_pos hplain, hbody]
    simp
  have htrim : trimmed (R.lib.jsonToString input).toList = (R.lib.jsonToString input).toList := by
    rw [hbody, trimmed_braces]
  rw [namedCall, if_pos hmem]
  simp only [htake, hdrop, hname.trimmed_eq, haccepts, htrim, fromStr_toList, hread, if_true,
    Option.map_some, String.ofList_toList]

theorem trimmed_callObject (lib : Library) (name : String) (input : Json) :
    trimmed (Rendering.callObject lib name input) = Rendering.callObject lib name input :=
  trimmed_braced "\"name\":".toList _ _ _

theorem parse_callObject {fields : List (String × Json)} (htool : name ∈ toolNames)
    (hread : R.fromStr (Rendering.callObject R.lib name (.obj fields)) =
      some (.obj [("arguments", .obj fields), ("name", .str name)])) :
    parseJsonToolCallObject R toolNames
      (trimmed (Rendering.callObject R.lib name (.obj fields))) = some (name, .obj fields) := by
  rw [trimmed_callObject, parseJsonToolCallObject, hread]
  simp [List.lookup_cons, Json.asStr, htool]

theorem trimmed_callArrow (lib : Library) (name : String) (input : Json) :
    trimmed (Rendering.callArrow lib name input) = Rendering.callArrow lib name input :=
  trimmed_braced "tool => \"".toList _ _ _

theorem arrowInput_rendered (hargs : ¬ "args".toList <:+: name.toList)
    (hwrites : WritesCompact R.lib name input) :
    arrowInput R (Rendering.callArrow R.lib name input) =
      some (arrowArgs R ((R.lib.jsonToString input).toList ++ ['}'])) := by
  obtain ⟨body, hbody⟩ := hwrites.braces
  have hfront : ¬ "args".toList <:+: '{' :: "tool => \"".toList ++ (name.toList ++ "\", ".toList) :=
    fun h => by
      have hbehind : "arg".toList ++ ['s'] <:+: name.toList ++ "\", ".toList :=
        infix_of_notMem (by decide : 'a' ∉ '{' :: "tool => \"".toList) h
      exact hargs (infix_of_notMem_right (by decide) hbehind)
  have hcut : cutAt "args".toList (Rendering.callArrow R.lib name input) =
      some ('{' :: "tool => \"".toList ++ (name.toList ++ "\", ".toList),
        " => ".toList ++ ((R.lib.jsonToString input).toList ++ ['}'])) := by
    have h := cutAt_first (by decide : 'a' ∉ "rgs".toList) hfront
      (" => ".toList ++ ((R.lib.jsonToString input).toList ++ ['}']))
    rw [List.append_assoc, List.append_assoc] at h
    exact h
  rw [arrowInput, hcut, hbody]
  rfl

theorem parse_callArrow (htool : name ∈ toolNames) (hne : name ≠ "") (hquote : '"' ∉ name.toList)
    (hargs : ¬ "args".toList <:+: name.toList) (hwrites : WritesCompact R.lib name input) :
    parseArrowSyntaxToolCall R toolNames (Rendering.callArrow R.lib name input) =
      some (name, arrowArgs R ((R.lib.jsonToString input).toList ++ ['}'])) := by
  have hcut : cutAt "tool".toList (Rendering.callArrow R.lib name input) =
      some (['{'], " => \"".toList ++ (name.toList ++
        ("\", args => ".toList ++ ((R.lib.jsonToString input).toList ++ ['}'])))) :=
    cutAt_first (by decide : 't' ∉ "ool".toList) (by decide : ¬ "tool".toList <:+: ['{']) _
  have hquoted : arrowToolName ('"' :: (name.toList ++
      ("\", args => ".toList ++ ((R.lib.jsonToString input).toList ++ ['}'])))) =
      some name.toList := by
    have h := cutAt_first List.not_mem_nil
      (by rwa [List.singleton_infix_iff] : ¬ ['"'] <:+: name.toList)
      (", args => ".toList ++ ((R.lib.jsonToString input).toList ++ ['}']))
    exact congrArg (Option.map Prod.fst) h
  have hempty : name.toList.isEmpty = false := by simpa using hne
  have harrow : ∀ rest : List Char, "=>".toList.isPrefixOf? (trimStart (" => \"".toList ++ rest)) =
      some (" \"".toList ++ rest) := fun _ => rfl
  have hquote : ∀ rest : List Char, trimStart (" \"".toList ++ rest) = '"' :: rest := fun _ => rfl
  rw [parseArrowSyntaxToolCall, hcut]
  dsimp only
  rw [harrow]
  dsimp only
  rw [hquote, hquoted]
  simp [hempty, isTool_toList htool, arrowInput_rendered hargs hwrites]

/-- One of the patterns reads the call in a rendering that is read as a whole. -/
theorem Rendering.ReadWhole.read {form : Rendering} {fields : List (String × Json)}
    (h : form.ReadWhole R name (.obj fields)) (htool : name ∈ toolNames) (hname : ToolName name)
    (hwrites : WritesCompact R.lib name (.obj fields)) :
    (name, .obj fields) ∈ functionCalls R toolNames (form.text R.lib name (.obj fields)) ∨
      (name, .obj fields) ∈ markedCalls R toolNames (form.text R.lib name (.obj fields)) := by
  obtain ⟨body, hbody⟩ := hwrites.braces
  obtain ⟨hunbroken, hread⟩ := h
  have hnamed : (!name.toList.isEmpty && isTool toolNames name.toList) = true ↔ name ≠ "" := by
    simp [isTool_toList htool]
  unfold markedCalls
  simp only [List.mem_append]
  cases form with
  | function =>
      have hgt : '>' ∉ name.toList := hname.noMarker '>' (by decide)
      have htrim : trimmed (R.lib.jsonToString (.obj fields)).toList =
          (R.lib.jsonToString (.obj fields)).toList := by
        rw [hbody, trimmed_braces]
      refine .inl (List.mem_filterMap.mpr ⟨_, functionBlocks_rendered hgt hunbroken _, ?_⟩)
      have hparsed : R.lib.jsonFromStr (R.lib.jsonToString (.obj fields)) = some (.obj fields) :=
        hread
      simp only [isTool_toList htool, Rendering.payload, htrim, fromStr_toList, hparsed, if_true,
        Option.some_or, Option.map_some, String.ofList_toList]
  | tool =>
      refine .inr (.inr (.inl (List.mem_filterMap.mpr ⟨_, mem_blocks (by decide) hunbroken, ?_⟩)))
      exact namedCall_rendered hname hwrites (hnamed.mpr hread.1) hread.2
  | toolCall =>
      refine .inr (.inr (.inr (.inr (.inr (.inl (List.mem_filterMap.mpr
        ⟨_, mem_blocks (by decide) hunbroken, ?_⟩))))))
      exact parse_callObject htool hread
  | toolUse =>
      refine .inr (.inr (.inr (.inr (.inr (.inr (.inr (.inr (List.mem_filterMap.mpr
        ⟨_, mem_blocks (by decide) hunbroken, ?_⟩))))))))
      exact parse_callObject htool hread
  | toolCallBlock =>
      refine .inr (.inr (.inr (.inr (.inl (List.mem_filterMap.mpr
        ⟨_, mem_blocks (by decide) hunbroken, ?_⟩)))))
      simp only [Rendering.payload, parse_callObject htool hread, Option.some_or]
  | arrowBlock =>
      obtain ⟨⟨hne, hquote, hargs⟩, hnot, hinput⟩ := hread
      refine .inr (.inr (.inr (.inr (.inl (List.mem_filterMap.mpr
        ⟨_, mem_blocks (by decide) hunbroken, ?_⟩)))))
      have hobject : parseJsonToolCallObject R toolNames
          (Rendering.callArrow R.lib name (.obj fields)) = none := by
        rw [parseJsonToolCallObject, hnot]
      simp only [Rendering.payload, trimmed_callArrow, hobject, Option.none_or,
        parse_callArrow htool hne hquote hargs hwrites, hinput]

end Whole

/-! ### A text of one line -/

section OneLine

variable {R : Recovery} {toolNames : List String} {text : List Char}

theorem Rendering.oneLine {name : String} {input : Json} (form : Rendering)
    (hname : ToolName name) (hwrites : WritesCompact R.lib name input) :
    '\n' ∉ form.text R.lib name input := by
  have hnoLine : '\n' ∉ name.toList := fun h => absurd (hname.noSpace '\n' h) (by decide)
  have hopening : '\n' ∉ form.opening name := by
    cases form with
    | function =>
        exact List.not_mem_append (by decide) (List.not_mem_append hnoLine (by decide))
    | tool | toolCall | toolUse | toolCallBlock | arrowBlock => exact of_decide_eq_true rfl
  have hobject : '\n' ∉ Rendering.callObject R.lib name input :=
    List.not_mem_append (by decide) (List.not_mem_append hwrites.nameOneLine
      (List.not_mem_append (by decide) (List.not_mem_append hwrites.oneLine (by decide))))
  have harrow : '\n' ∉ Rendering.callArrow R.lib name input :=
    List.not_mem_append (by decide) (List.not_mem_append hnoLine
      (List.not_mem_append (by decide) (List.not_mem_append hwrites.oneLine (by decide))))
  have hpayload : '\n' ∉ form.payload R.lib name input := by
    cases form with
    | function => exact hwrites.oneLine
    | tool => exact List.not_mem_append hnoLine hwrites.oneLine
    | toolCall | toolUse | toolCallBlock => exact hobject
    | arrowBlock => exact harrow
  have hclosing : '\n' ∉ form.closing := by
    cases form <;> exact of_decide_eq_true rfl
  exact List.not_mem_append hopening (List.not_mem_append hpayload hclosing)

end OneLine

/-! ### The recovered calls -/

section Recovered

variable {R : Recovery} {toolNames : List String} {text : List Char}

end Recovered

/-! ### One call that comes back and one that does not -/

end ArmaraOS.Agent
