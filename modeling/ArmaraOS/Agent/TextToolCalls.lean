import ArmaraOS.Agent.Library
import ArmaraOS.Lib.Lines
import ArmaraOS.Lib.Marks
import ArmaraOS.Types.Llm

/-!
Tool calls that a model writes into its text (`recover_text_tool_calls` of
`openfang-runtime/src/agent_loop.rs`).

Thirteen patterns are searched for one after another, each from left to right over the whole text,
and each takes a block up to the first closing marker. A call that is found again is not added
again, except by the first pattern. The last pattern looks for JSON objects without any marker and
is tried only when none of the others has found a call.
-/

namespace ArmaraOS.Agent

open ArmaraOS.Json (insertEntry)
open ArmaraOS.Lib.Framing ArmaraOS.Text

/-- What the recovery uses of other crates: JSON text, the captures of its two regular expressions
(`regex_lite`) and the text of a new UUID, by the number of those that were drawn. -/
structure Recovery where
  lib : Library
  /-- Name and value of each `<parameter=NAME>VALUE</parameter>`. -/
  parameterCaptures : List Char → List (List Char × List Char)
  /-- Name and parameters of each `<function name="NAME" parameters="PARAMETERS" />`. -/
  functionCaptures : List Char → List (List Char × List Char)
  uuidText : Nat → String

/-- A call as the patterns find it: the name of the tool and its input. -/
abbrev FoundCall := String × Json

/-! ### Blocks -/

/-- What stands between `opening` and the first `closing` behind it, block after block. An opening
marker that nothing closes is passed over. -/
def blocksFrom (opening closing : List Char) : Nat → List Char → List (List Char)
  | 0, _ => []
  | fuel + 1, text =>
      match cutAt opening text with
      | none => []
      | some (_, afterTag) =>
          match cutAt closing afterTag with
          | none => blocksFrom opening closing fuel afterTag
          | some (inner, rest) => inner :: blocksFrom opening closing fuel rest

/-- All blocks of a text. Its length is enough fuel, since each marker makes it shorter. -/
def blocks (opening closing text : List Char) : List (List Char) :=
  blocksFrom opening closing text.length text

/-- Names and trimmed bodies of the blocks `<function=NAME>BODY</function>`. -/
def functionBlocksFrom : Nat → List Char → List (List Char × List Char)
  | 0, _ => []
  | fuel + 1, text =>
      match cutAt "<function=".toList text with
      | none => []
      | some (_, afterPrefix) =>
          match cutAt ['>'] afterPrefix with
          | none => functionBlocksFrom fuel afterPrefix
          | some (toolName, behind) =>
              match cutAt "</function>".toList behind with
              | none => functionBlocksFrom fuel behind
              | some (body, rest) =>
                  (toolName, trimmed body) :: functionBlocksFrom fuel rest

/-- The contents of the closed markdown code blocks; `block` is the content of the one being
read. -/
def codeBlocksFrom : Option (List Char) → List (List Char) → List (List Char)
  | _, [] => []
  | none, line :: rest =>
      if "```".toList.isPrefixOf (trimmed line) then codeBlocksFrom (some []) rest
      else codeBlocksFrom none rest
  | some content, line :: rest =>
      if "```".toList.isPrefixOf (trimmed line) then content :: codeBlocksFrom none rest
      else
        let content := if content.isEmpty then content else content ++ ['\n']
        codeBlocksFrom (some (content ++ trimmed line)) rest

/-- Every second element. -/
def everySecond : List (List Char) → List (List Char)
  | _ :: chunk :: rest => chunk :: everySecond rest
  | _ => []

/-! ### JSON helpers -/

/-- `unescape_xml_entities`. -/
def unescapeXmlEntities (text : List Char) : List Char :=
  let replaceAll (pat rep : String) (cs : List Char) := replaceFrom pat.toList rep.toList 0 cs
  replaceAll "&apos;" "'" (replaceAll "&gt;" ">" (replaceAll "&lt;" "<"
    (replaceAll "&amp;" "&" (replaceAll "&quot;" "\"" text))))

/-- What follows a comma, if there is one. -/
def skipComma (remaining : List Char) : List Char :=
  match trimStart remaining with
  | ',' :: rest => trimStart rest
  | rest => rest

/-- What follows an `=`, if there is one. -/
def skipEquals (remaining : List Char) : List Char :=
  match trimStart remaining with
  | '=' :: rest => trimStart rest
  | rest => rest

/-- How many characters an unquoted value takes. -/
def unquotedLength (remaining : List Char) : Nat :=
  match remaining.findIdx? (fun c => c == ',' || c == '}') with
  | some n => n
  | none =>
      match cutAt "--".toList remaining with
      | some (value, _) => value.length
      | none => remaining.length

/-- The pairs `--key value` of `parse_dash_dash_args`. -/
def dashDashPairs : Nat → List Char → List (String × Json) → List (String × Json)
  | 0, _, map => map
  | fuel + 1, remaining, map =>
      match cutAt "--".toList remaining with
      | none => map
      | some (_, remaining) =>
          let inKey (c : Char) : Bool := !(isWhitespace c || c == '=' || c == '"')
          let key := String.ofList (remaining.takeWhile inKey)
          if key.isEmpty then dashDashPairs fuel remaining map
          else
            match skipEquals (remaining.dropWhile inKey) with
            | '"' :: quoted =>
                match cutAt ['"'] quoted with
                | some (value, rest) =>
                    dashDashPairs fuel (skipComma rest)
                      (insertEntry key (.str (String.ofList value)) map)
                -- A quote that is not closed: the rest is the value.
                | none => insertEntry key (.str (String.ofList quoted)) map
            | unquoted =>
                let value := trimmed (unquoted.take (unquotedLength unquoted))
                let entry : Json := if value.isEmpty then .bool true else .str (String.ofList value)
                dashDashPairs fuel (skipComma (unquoted.drop (unquotedLength unquoted)))
                  (insertEntry key entry map)

/-- What stands in front of the brace that closes the ones before it, and the text from that brace
on. Braces are counted wherever they stand, also inside strings. -/
def upToBrace : Int → List Char → Option (List Char × List Char)
  | _, [] => none
  | depth, c :: cs =>
      if c = '}' ∧ depth - 1 = 0 then some ([], c :: cs)
      else
        let depth := if c = '{' then depth + 1 else if c = '}' then depth - 1 else depth
        (upToBrace depth cs).map fun cut => (c :: cut.1, cut.2)

/-- `parse_dash_dash_args`. -/
def parseDashDashArgs (text : List Char) : Json :=
  let inner := match text with
    | '{' :: behind =>
        match upToBrace 0 text with
        | some (front, _) => trimmed (front.drop 1)
        | none => trimmed behind
    | _ => trimmed text
  .obj (dashDashPairs (inner.length + 1) inner [])

section Patterns

variable (R : Recovery) (toolNames : List String)

/-- `serde_json::from_str`. -/
def Recovery.fromStr (cs : List Char) : Option Json := R.lib.jsonFromStr (String.ofList cs)

/-- `tool_names.contains`. -/
def isTool (name : List Char) : Bool := toolNames.contains (String.ofList name)

/-- `parse_json_tool_call_object`. -/
def parseJsonToolCallObject (text : List Char) : Option FoundCall :=
  match R.fromStr text with
  | some (.obj fields) =>
      let get (key : String) : Option Json := fields.lookup key
      match ((get "name").or ((get "function").or (get "tool"))).bind Json.asStr with
      | none => none
      | some name =>
          if toolNames.contains name then
            let args := ((get "arguments").or ((get "parameters").or
              ((get "args").or (get "input")))).getD (.obj [])
            match args.asStr with
            | some s => some (name, (R.lib.jsonFromStr s).getD (.obj []))
            | none => some (name, args)
          else none
  | _ => none

/-- `parse_xml_parameter_blocks`. -/
def parseXmlParameterBlocks (text : List Char) : Option Json :=
  let params := (R.parameterCaptures text).foldl (fun params capture =>
    let name := trimmed capture.1
    if name.isEmpty then params
    else
      let valueText := trimmed (unescapeXmlEntities capture.2)
      insertEntry (String.ofList name)
        ((R.fromStr valueText).getD (.str (String.ofList valueText))) params) []
  if params.isEmpty then none else some (.obj params)

/-- The arguments of the arrow syntax, once `args =>` and an opening brace are found. -/
def arrowArgs (text : List Char) : Json := (R.fromStr text).getD (parseDashDashArgs text)

/-- The name behind `tool =>`: quoted, or up to a comma, a brace or whitespace. -/
def arrowToolName (afterArrow : List Char) : Option (List Char) :=
  match afterArrow with
  | '"' :: stripped => (cutAt ['"'] stripped).map Prod.fst
  | _ => some (afterArrow.takeWhile fun c => !(c == ',' || c == '}' || isWhitespace c))

/-- The arguments behind the first `args` of the text. -/
def arrowInput (text : List Char) : Option Json :=
  match cutAt "args".toList text with
  | none => some (.obj [])
  | some (_, afterArgs) =>
      match "=>".toList.isPrefixOf? (trimStart afterArgs) with
      | none => none
      | some afterArrow =>
          match trimStart afterArrow with
          | '{' :: rest => some (arrowArgs R ('{' :: rest))
          | _ => some (.obj [])

/-- `parse_arrow_syntax_tool_call`. -/
def parseArrowSyntaxToolCall (text : List Char) : Option FoundCall :=
  match cutAt "tool".toList text with
  | none => none
  | some (_, afterTool) =>
      match "=>".toList.isPrefixOf? (trimStart afterTool) with
      | none => none
      | some afterArrow =>
          match arrowToolName (trimStart afterArrow) with
          | none => none
          | some toolName =>
              if toolName.isEmpty || !isTool toolNames toolName then none
              else (arrowInput R text).map fun input => (String.ofList toolName, input)

/-- `try_parse_bare_json_tool_call`. -/
def tryParseBareJsonToolCall (text : List Char) : Option FoundCall :=
  match upToBrace 0 text with
  | none => none
  | some (front, _) => parseJsonToolCallObject R toolNames (front ++ ['}'])

/-- `tool_name{json}`: the name stands in front of the first brace. Each pattern checks the name in
its own way. -/
def namedCall (accepts : List Char → Bool) (content : List Char) : Option FoundCall :=
  if '{' ∈ content then
    let name := trimmed (content.takeWhile (· != '{'))
    let body := trimmed (content.dropWhile (· != '{'))
    if accepts name then (R.fromStr body).map fun input => (String.ofList name, input) else none
  else none

/-! ### The patterns -/

/-- Pattern 1: `<function=NAME>JSON</function>`, or parameter blocks in place of the JSON. -/
def functionCalls (text : List Char) : List FoundCall :=
  (functionBlocksFrom text.length text).filterMap fun block =>
    if isTool toolNames block.1 then
      ((R.fromStr block.2).or (parseXmlParameterBlocks R block.2)).map fun input =>
        (String.ofList block.1, input)
    else none

/-- Patterns 2 and 3: `NAME{JSON}` between two tags. -/
def namedTagCalls (opening closing text : List Char) : List FoundCall :=
  (blocks opening closing text).filterMap
    (namedCall R fun name => !name.isEmpty && isTool toolNames name)

/-- Pattern 4: a markdown code block. -/
def codeBlockCalls (text : List Char) : List FoundCall :=
  (codeBlocksFrom none (lines text)).filterMap fun content =>
    namedCall R (isTool toolNames) (trimmed content)

/-- Pattern 5: a call in backticks. -/
def backtickCalls (text : List Char) : List FoundCall :=
  (everySecond (text.splitOn '`')).filterMap fun chunk =>
    namedCall R (fun name => !name.isEmpty && !name.contains ' ' && isTool toolNames name)
      (trimmed chunk)

/-- Pattern 6: `[TOOL_CALL]` blocks with JSON or arrow syntax in them. -/
def toolCallBlockCalls (text : List Char) : List FoundCall :=
  (blocks "[TOOL_CALL]".toList "[/TOOL_CALL]".toList text).filterMap fun inner =>
    (parseJsonToolCallObject R toolNames (trimmed inner)).or
      (parseArrowSyntaxToolCall R toolNames (trimmed inner))

/-- Patterns 7, 10 and 13: a JSON object between two tags. -/
def objectTagCalls (opening closing text : List Char) : List FoundCall :=
  (blocks opening closing text).filterMap fun inner =>
    parseJsonToolCallObject R toolNames (trimmed inner)

/-- Pattern 9: name and parameters as XML attributes. -/
def attributeCalls (text : List Char) : List FoundCall :=
  (R.functionCaptures text).filterMap fun capture =>
    if isTool toolNames capture.1 then
      (R.fromStr (unescapeXmlEntities capture.2)).map fun input =>
        (String.ofList capture.1, input)
    else none

/-- The JSON behind `Action Input:`. -/
def actionInput (line : List Char) : Option (List Char) :=
  ("Action Input:".toList.isPrefixOf? line).or
    (("action input:".toList.isPrefixOf? line).or ("action_input:".toList.isPrefixOf? line))

/-- Pattern 11: a line `Action: NAME` in front of a line `Action Input: JSON`. -/
def actionCallsFrom : List (List Char) → List FoundCall
  | line :: next :: rest =>
      match ("Action:".toList.isPrefixOf? (trimmed line)).or
          ("action:".toList.isPrefixOf? (trimmed line)) with
      | none => actionCallsFrom (next :: rest)
      | some toolPart =>
          if isTool toolNames (trimmed toolPart) then
            match actionInput (trimmed next) with
            | none => actionCallsFrom (next :: rest)
            | some jsonPart =>
                ((R.fromStr (trimmed jsonPart)).map fun input =>
                  (String.ofList (trimmed toolPart), input)).toList ++ actionCallsFrom rest
          else actionCallsFrom (next :: rest)
  | _ => []

/-- Pattern 12: a line that is the name of a tool in front of a line of JSON. -/
def linePairCalls (text : List Char) : List FoundCall :=
  ((lines text).zip (lines text).tail).filterMap fun pair =>
    let nameLine := trimmed pair.1
    let jsonLine := trimmed pair.2
    if nameLine.contains ' ' || nameLine.contains '{' || nameLine.isEmpty then none
    else if isTool toolNames nameLine && jsonLine.head? == some '{' then
      (R.fromStr jsonLine).map fun input => (String.ofList nameLine, input)
    else none

/-- Pattern 8: every JSON object of the text, without any marker. -/
def bareCalls : List Char → List FoundCall
  | [] => []
  | c :: cs =>
      if c = '{' then
        (tryParseBareJsonToolCall R toolNames (c :: cs)).toList ++ bareCalls cs
      else bareCalls cs

/-! ### The recovery -/

/-- Add a call. -/
def pushCall (calls : List ToolCall) (found : FoundCall) : List ToolCall :=
  calls ++ [{ id := "recovered_" ++ R.uuidText calls.length, name := found.1, input := found.2 }]

/-- Add a call unless an equal one is there. -/
def pushNewCall (calls : List ToolCall) (found : FoundCall) : List ToolCall :=
  if calls.any fun call => call.name == found.1 && call.input == found.2 then calls
  else pushCall R calls found

/-- `recover_text_tool_calls`. -/
def recoverTextToolCalls (text : List Char) (availableTools : List ToolDefinition) :
    List ToolCall :=
  let toolNames := availableTools.map ToolDefinition.name
  let pushNew := List.foldl (pushNewCall R)
  let calls := (functionCalls R toolNames text).foldl (pushCall R) []
  let calls := pushNew calls
    (namedTagCalls R toolNames "<function>".toList "</function>".toList text)
  let calls := pushNew calls (namedTagCalls R toolNames "<tool>".toList "</tool>".toList text)
  let calls := pushNew calls (codeBlockCalls R toolNames text)
  let calls := pushNew calls (backtickCalls R toolNames text)
  let calls := pushNew calls (toolCallBlockCalls R toolNames text)
  let calls := pushNew calls
    (objectTagCalls R toolNames "<tool_call>".toList "</tool_call>".toList text)
  let calls := pushNew calls (attributeCalls R toolNames text)
  let calls := pushNew calls
    (objectTagCalls R toolNames "<|plugin|>".toList "<|endofblock|>".toList text)
  let calls := pushNew calls (actionCallsFrom R toolNames (lines text))
  let calls := pushNew calls (linePairCalls R toolNames text)
  let calls := pushNew calls
    (objectTagCalls R toolNames "<tool_use>".toList "</tool_use>".toList text)
  if calls.isEmpty then pushNew calls (bareCalls R toolNames text) else calls

end Patterns

end ArmaraOS.Agent
