import ArmaraOS.Lib.Shlex
import ArmaraOS.Lib.Text
import ArmaraOS.Types.Json
import Mathlib.Data.List.DropRight
import Mathlib.Data.List.TakeWhile

/-!
The `shell_exec` tool up to the process that it spawns (`subprocess_sandbox.rs`, and
`tool_shell_exec` of `tool_runner.rs`).

The allowlist is checked against the first word between whitespace, cut at slashes and backslashes;
what runs is the first word of the shell lexer, which also reads quotes, escapes and comments. The
allowlist vets the program of a command exactly if the two words agree (`vetted_iff_namesAgree`).
-/

namespace ArmaraOS.Runtime

open ArmaraOS.Lib
open ArmaraOS.Text

/-! ### The policy -/

/-- `ExecSecurityMode`. -/
inductive ExecSecurityMode where
  | deny | allowlist | full
deriving DecidableEq

/-- `{:?}` of a mode. -/
def ExecSecurityMode.debug : ExecSecurityMode → String
  | deny => "Deny"
  | allowlist => "Allowlist"
  | full => "Full"

/-- `ShellPathGuardMode`. -/
inductive ShellPathGuardMode where
  | off | warn | enforce
deriving DecidableEq

/-- `ShellPidGuardMode`. -/
inductive ShellPidGuardMode where
  | off | enforce
deriving DecidableEq

/-- `ExecPolicy`. -/
structure ExecPolicy where
  mode : ExecSecurityMode
  safeBins : List String
  allowedCommands : List String
  timeoutSecs : Nat
  shellPathGuard : ShellPathGuardMode
  shellPidGuard : ShellPidGuardMode
  extraAllowedPathPrefixes : List String
deriving DecidableEq

/-! ### The allowlist -/

/-- `contains_shell_metacharacters`. -/
def containsShellMetacharacters (command : String) : Option String :=
  let has (c : Char) : Bool := command.toList.contains c
  if has '`' then some "backtick command substitution"
  else if contains command "$(" then some "$() command substitution"
  else if contains command "$\x7b" then some "$\x7b\x7d variable expansion"
  else if has ';' then some "semicolon command chaining"
  else if has '|' then some "pipe operator"
  else if has '>' || has '<' then some "I/O redirection"
  else if has '\x7b' || has '\x7d' then some "brace expansion"
  else if has '\n' || has '\r' then some "embedded newline"
  else if has '\x00' then some "null byte"
  else if has '&' then some "ampersand operator"
  else none

/-- `s.rsplit(c).next()`. -/
def afterLast (c : Char) (cs : List Char) : List Char := (cs.reverse.takeWhile (· != c)).reverse

/-- `extract_base_command`. -/
def extractBaseCommand (cmd : List Char) : List Char :=
  let trimmed := trimChars isWhitespace cmd
  let firstWord := (wordsFrom [] trimmed).head?.getD []
  afterLast '\\' (afterLast '/' firstWord)

/-- The segments between the separators `&&`, `||`, `|` and `;`, with the one being read in
`segment`. -/
def segmentsFrom (segment : List Char) : List Char → List (List Char)
  | [] => [segment]
  | '&' :: '&' :: cs => segment :: segmentsFrom [] cs
  | '|' :: '|' :: cs => segment :: segmentsFrom [] cs
  | '|' :: cs => segment :: segmentsFrom [] cs
  | ';' :: cs => segment :: segmentsFrom [] cs
  | c :: cs => segmentsFrom (segment ++ [c]) cs

/-- `extract_all_commands`. -/
def extractAllCommands (command : String) : List String :=
  (((segmentsFrom [] command.toList).map extractBaseCommand).filter fun base => !base.isEmpty).map
    String.ofList

/-- `validate_command_allowlist`. -/
def validateCommandAllowlist (command : String) (policy : ExecPolicy) : Except String Unit :=
  match policy.mode with
  | .deny => .error "Shell execution is disabled (exec_policy.mode = deny)"
  | .full => .ok ()
  | .allowlist =>
      match containsShellMetacharacters command with
      | some reason =>
          .error (s!"Command blocked: contains {reason}. " ++
            "Shell metacharacters are not allowed in Allowlist mode.")
      | none =>
          match (extractAllCommands command).find? fun base =>
            !(policy.safeBins.contains base || policy.allowedCommands.contains base) with
          | some base =>
              .error (s!"Command '{base}' is not in the exec allowlist. " ++
                "Add it to exec_policy.allowed_commands or exec_policy.safe_bins.")
          | none => .ok ()

/-! ### The tool -/

/-- The guards that look at a command before it is spawned: `preflight_shell_job_control`,
`preflight_shell_exec` and `preflight_shell_listen_ports`. They read the file system, the
processes and the ports; of the policy they see no list of commands. -/
structure ShellGuards where
  jobControl (command : String) (useDirectExec : Bool) : Except String Unit
  paths (command : String) (useDirectExec : Bool) (extraAllowedPathPrefixes : List String)
    (pathMode : ShellPathGuardMode) (pidMode : ShellPidGuardMode) : Except String Unit
  listenPorts (command : String) : Except String Unit

/-- The process that a call spawns. -/
inductive Spawn where
  | direct (program : String) (args : List String)
  | shell (command : String)
deriving DecidableEq

/-- `check_taint_shell_exec`. -/
def checkTaintShellExec (command : String) : Option String :=
  match containsShellMetacharacters command with
  | some reason => some s!"Shell metacharacter injection blocked: {reason}"
  | none =>
      if ["curl ", "wget ", "| sh", "| bash", "base64 -d", "eval "].any (contains command) then
        some ("taint violation: label 'ExternalNetwork' from source 'llm_tool_call' is not " ++
          "allowed to reach sink 'shell_exec'")
      else none

/-- `tool_shell_exec`, up to the process it spawns. -/
def toolShellExec (guards : ShellGuards) (execPolicy : Option ExecPolicy) (input : Json) :
    Except String Spawn := do
  let some command := (input.field "command").asStr
    | .error "Missing 'command' parameter"
  let useDirectExec := (execPolicy.map (·.mode == .allowlist)).getD true
  let pathMode := (execPolicy.map (·.shellPathGuard)).getD .enforce
  let pidMode := (execPolicy.map (·.shellPidGuard)).getD .enforce
  let extra := (execPolicy.map (·.extraAllowedPathPrefixes)).getD []
  guards.jobControl command useDirectExec
  guards.paths command useDirectExec extra pathMode pidMode
  let spawn ←
    if useDirectExec then
      match shlexSplit command with
      | none => .error "Command contains unmatched quotes or invalid shell syntax"
      | some [] => .error "Empty command after parsing"
      | some (program :: args) => .ok (Spawn.direct program args)
    else .ok (Spawn.shell command)
  guards.listenPorts command
  return spawn

/-- The branch `shell_exec` of `execute_tool_with_trajectory`: the text of the error, or the
process that is spawned. -/
def shellExec (guards : ShellGuards) (execPolicy : Option ExecPolicy) (input : Json) :
    Except String Spawn := do
  let command := ((input.field "command").asStr).getD ""
  let isFullExec := (execPolicy.map (·.mode == .full)).getD false
  if !isFullExec then
    if let some reason := containsShellMetacharacters command then
      .error (s!"shell_exec blocked: command contains {reason}. Shell metacharacters (pipes, " ++
        "redirects, etc.) require exec_policy.mode = 'full' in the agent manifest.")
  if let some policy := execPolicy then
    if let .error reason := validateCommandAllowlist command policy then
      .error (s!"shell_exec blocked: {reason}. Current exec_policy.mode = " ++
        s!"'{policy.mode.debug}'. To allow shell commands, set exec_policy.mode = 'full' in the " ++
        "agent manifest or config.toml.")
  if !isFullExec then
    if let some violation := checkTaintShellExec command then
      .error s!"Taint violation: {violation}"
  toolShellExec guards execPolicy input

/-! ### What is vetted and what runs -/

/-- The last path component: what follows the last slash. -/
def lastComponent (path : String) : String := String.ofList (afterLast '/' path.toList)

/-- The name that the allowlist is asked for. -/
def vettedName (command : String) : String := String.ofList (extractBaseCommand command.toList)

/-- A policy in allowlist mode, with its lists. -/
def ExecPolicy.allowing (policy : ExecPolicy) (safeBins allowedCommands : List String) :
    ExecPolicy :=
  { policy with mode := .allowlist, safeBins := safeBins, allowedCommands := allowedCommands }

/-- A program that is spawned for a command is on one of the lists. -/
def Vetted (guards : ShellGuards) (policy : ExecPolicy) (input : Json) : Prop :=
  ∀ program args, shellExec guards (some policy) input = .ok (.direct program args) →
    lastComponent program ∈ policy.safeBins ∨ lastComponent program ∈ policy.allowedCommands

/-- The checks that do not ask the lists pass in allowlist mode. -/
structure PassesGuards (guards : ShellGuards) (policy : ExecPolicy) (command : String) : Prop where
  metacharacters : containsShellMetacharacters command = none
  taint : checkTaintShellExec command = none
  jobControl : guards.jobControl command true = .ok ()
  paths : guards.paths command true policy.extraAllowedPathPrefixes policy.shellPathGuard
    policy.shellPidGuard = .ok ()
  listenPorts : guards.listenPorts command = .ok ()

/-- The program that the lexer finds has the name that the allowlist is asked for. -/
def NamesAgree (command : String) : Prop :=
  ∀ program args, shlexSplit command = some (program :: args) →
    vettedName command ≠ "" ∧ lastComponent program = vettedName command

section Vetting

variable {guards : ShellGuards} {policy : ExecPolicy} {command : String}

/-- What no metacharacter is in has no separator. -/
theorem not_mem_of_no_metacharacters (h : containsShellMetacharacters command = none) :
    ∀ c ∈ command.toList, c ≠ '&' ∧ c ≠ '|' ∧ c ≠ ';' := by
  simp only [containsShellMetacharacters, ite_eq_iff, reduceCtorEq, and_false, false_or,
    List.contains_iff_mem] at h
  rintro c hc
  refine ⟨?_, ?_, ?_⟩ <;> rintro rfl <;> simp [hc] at h

theorem segmentsFrom_of_not_mem {cs : List Char} (h : ∀ c ∈ cs, c ≠ '&' ∧ c ≠ '|' ∧ c ≠ ';')
    (segment : List Char) : segmentsFrom segment cs = [segment ++ cs] := by
  induction cs generalizing segment with
  | nil => simp [segmentsFrom]
  | cons c cs ih =>
      obtain ⟨⟨hand, hbar, hsemi⟩, hcs⟩ := List.forall_mem_cons.mp h
      unfold segmentsFrom
      split
      · next heq => exact absurd heq (List.cons_ne_nil _ _)
      · next heq => exact absurd (List.cons.inj heq).1 hand
      · next heq => exact absurd (List.cons.inj heq).1 hbar
      · next heq => exact absurd (List.cons.inj heq).1 hbar
      · next heq => exact absurd (List.cons.inj heq).1 hsemi
      · next heq =>
          obtain ⟨rfl, rfl⟩ := List.cons.inj heq
          rw [ih hcs]
          simp

/-- Without metacharacters, one name at most is asked for. -/
theorem extractAllCommands_eq (h : containsShellMetacharacters command = none) :
    extractAllCommands command = if vettedName command = "" then [] else [vettedName command] := by
  rw [extractAllCommands, segmentsFrom_of_not_mem (not_mem_of_no_metacharacters h), vettedName]
  cases hbase : extractBaseCommand command.toList with
  | nil => simp [hbase]
  | cons c base => simp [hbase]

/-- In allowlist mode, a command without metacharacters passes if its name is on a list, or if
no name is found. -/
theorem validateCommandAllowlist_eq_ok_iff (hmode : policy.mode = .allowlist)
    (h : containsShellMetacharacters command = none) :
    validateCommandAllowlist command policy = .ok () ↔
      vettedName command = "" ∨ vettedName command ∈ policy.safeBins ∨
        vettedName command ∈ policy.allowedCommands := by
  simp only [validateCommandAllowlist, hmode, h, extractAllCommands_eq h]
  by_cases hempty : vettedName command = ""
  · simp [hempty]
  · by_cases hsafe : vettedName command ∈ policy.safeBins
    · simp [hempty, hsafe]
    · by_cases hallowed : vettedName command ∈ policy.allowedCommands
      · simp [hempty, hallowed]
      · simp [hempty, hsafe, hallowed]

/-- In allowlist mode, `tool_shell_exec` spawns what the lexer finds, when its guards pass. -/
theorem toolShellExec_eq_direct_iff (hmode : policy.mode = .allowlist) {input : Json}
    (hinput : (input.field "command").asStr = some command) {program : String}
    {args : List String} :
    toolShellExec guards (some policy) input = .ok (.direct program args) ↔
      guards.jobControl command true = .ok () ∧
        guards.paths command true policy.extraAllowedPathPrefixes policy.shellPathGuard
          policy.shellPidGuard = .ok () ∧
        guards.listenPorts command = .ok () ∧ shlexSplit command = some (program :: args) := by
  have hallowlist : (policy.mode == .allowlist) = true := by rw [hmode]; rfl
  simp only [toolShellExec, hinput, Option.map_some, Option.getD_some, hallowlist, if_true]
  cases guards.jobControl command true with
  | error e => simp [bind, Except.bind]
  | ok _ =>
  cases guards.paths command true policy.extraAllowedPathPrefixes policy.shellPathGuard
    policy.shellPidGuard with
  | error e => simp [bind, Except.bind]
  | ok _ =>
  cases shlexSplit command with
  | none => simp [bind, Except.bind]
  | some argv =>
      cases argv with
      | nil => simp [bind, Except.bind]
      | cons program' args' =>
          cases guards.listenPorts command with
          | error e => simp [bind, Except.bind]
          | ok _ => simp [bind, Except.bind, pure, Except.pure]

/-- In allowlist mode, what is spawned is what the lexer finds, when all checks pass. -/
theorem shellExec_eq_direct_iff (hmode : policy.mode = .allowlist) {input : Json}
    (hinput : (input.field "command").asStr = some command) {program : String}
    {args : List String} :
    shellExec guards (some policy) input = .ok (.direct program args) ↔
      PassesGuards guards policy command ∧ validateCommandAllowlist command policy = .ok () ∧
        shlexSplit command = some (program :: args) := by
  have hfull : (policy.mode == .full) = false := by rw [hmode]; rfl
  cases hmeta : containsShellMetacharacters command with
  | some reason =>
      have hnot : ¬ PassesGuards guards policy command := fun h => by
        simp [h.metacharacters] at hmeta
      simp [shellExec, hinput, hfull, hmeta, hnot, bind, Except.bind]
  | none =>
  cases hvalid : validateCommandAllowlist command policy with
  | error reason => simp [shellExec, hinput, hfull, hmeta, hvalid, bind, Except.bind]
  | ok _ =>
  cases htaint : checkTaintShellExec command with
  | some violation =>
      have hnot : ¬ PassesGuards guards policy command := fun h => by simp [h.taint] at htaint
      simp [shellExec, hinput, hfull, hmeta, hvalid, htaint, hnot, bind, Except.bind]
  | none =>
  have hrest : shellExec guards (some policy) input = toolShellExec guards (some policy) input := by
    simp [shellExec, hinput, hfull, hmeta, hvalid, htaint]
  rw [hrest, toolShellExec_eq_direct_iff hmode hinput]
  constructor
  · rintro ⟨hjob, hpaths, hports, hsplit⟩
    exact ⟨⟨hmeta, htaint, hjob, hpaths, hports⟩, rfl, hsplit⟩
  · rintro ⟨hpasses, -, hsplit⟩
    exact ⟨hpasses.jobControl, hpasses.paths, hpasses.listenPorts, hsplit⟩

end Vetting

/-! ### Commands that start with a plain word -/

section Plain

theorem wordsFrom_append {w rest : List Char} (hw : ∀ c ∈ w, isWhitespace c = false)
    (word : List Char) : wordsFrom word (w ++ rest) = wordsFrom (word ++ w) rest := by
  induction w generalizing word with
  | nil => simp
  | cons c w ih =>
      obtain ⟨hc, hw⟩ := List.forall_mem_cons.mp hw
      rw [List.cons_append, wordsFrom, hc, if_neg Bool.false_ne_true, ih hw]
      simp

/-- The first word of a text that starts with a word. -/
theorem head?_wordsFrom {w rest : List Char} (hw : ∀ c ∈ w, isWhitespace c = false)
    (hne : w ≠ []) (hrest : ∀ c ∈ rest.head?, isWhitespace c = true) :
    (wordsFrom [] (w ++ rest)).head? = some w := by
  have hword : w.isEmpty = false := List.isEmpty_eq_false_iff.mpr hne
  rw [wordsFrom_append hw, List.nil_append]
  cases rest with
  | nil => simp [wordsFrom, hword]
  | cons c rest => simp [wordsFrom, hrest c rfl, hword]

/-- Trimming a text that starts with blanks and a word leaves the word. -/
theorem trimChars_word {gap w : List Char} (rest : List Char)
    (hgap : ∀ c ∈ gap, isWhitespace c = true)
    (hw : ∀ c ∈ w, isWhitespace c = false) (hne : w ≠ []) :
    ∃ rest', rest' <+: rest ∧ trimChars isWhitespace (gap ++ w ++ rest) = w ++ rest' := by
  obtain ⟨c, w', rfl⟩ := List.exists_cons_of_ne_nil hne
  have hc : isWhitespace c = false := hw c List.mem_cons_self
  have hstart : (gap ++ (c :: w') ++ rest).dropWhile isWhitespace = (c :: w') ++ rest := by
    rw [List.append_assoc, List.dropWhile_append_of_pos hgap, List.cons_append,
      List.dropWhile_cons_of_neg (by simp [hc])]
  have hword : (c :: w').reverse.dropWhile isWhitespace = (c :: w').reverse :=
    List.dropWhile_eq_self_iff.mpr fun _ =>
      Bool.eq_false_iff.mp (hw _ (List.mem_reverse.mp (List.getElem_mem _)))
  rw [trimChars, hstart, List.reverse_append, List.dropWhile_append]
  split
  · exact ⟨[], List.nil_prefix, by rw [hword, List.reverse_reverse, List.append_nil]⟩
  · refine ⟨(rest.reverse.dropWhile isWhitespace).reverse, List.rdropWhile_prefix _ _, ?_⟩
    rw [List.reverse_append, List.reverse_reverse]

theorem afterLast_of_not_mem {c : Char} {cs : List Char} (h : c ∉ cs) : afterLast c cs = cs := by
  have hall : cs.reverse.takeWhile (· != c) = cs.reverse :=
    List.takeWhile_eq_self_iff.mpr fun d hd => by
      rw [List.mem_reverse] at hd
      simpa using fun hsame : d = c => h (hsame ▸ hd)
  rw [afterLast, hall, List.reverse_reverse]

theorem isWhitespace_of_isBlank {c : Char} (h : Lexer.isBlank c = true) :
    isWhitespace c = true := by
  have hcases : c = ' ' ∨ c = '\t' ∨ c = '\n' := by
    simpa [Lexer.isBlank, or_assoc] using h
  rcases hcases with rfl | rfl | rfl <;> rfl

/-- For a command that starts with a word of plain characters, which does not end in a slash, the
two ways of reading its name agree. -/
theorem namesAgree_of_plain {gap w rest : List Char}
    (hgap : ∀ c ∈ gap, Lexer.isBlank c = true)
    (hw : ∀ c ∈ w, Lexer.isPlain c = true ∧ isWhitespace c = false)
    (hname : afterLast '/' w ≠ []) (hrest : ∀ c ∈ rest.head?, Lexer.isBlank c = true) :
    NamesAgree (String.ofList (gap ++ w ++ rest)) := by
  have hne : w ≠ [] := by
    rintro rfl
    exact hname rfl
  have hbackslash : '\\' ∉ afterLast '/' w := by
    intro hmem
    have hin : '\\' ∈ w := by
      rw [afterLast, List.mem_reverse] at hmem
      exact List.mem_reverse.mp ((List.takeWhile_sublist _).subset hmem)
    exact absurd (hw _ hin).1 (by decide)
  obtain ⟨rest', hprefix, htrim⟩ := trimChars_word rest
    (fun c hc => isWhitespace_of_isBlank (hgap c hc)) (fun c hc => (hw c hc).2) hne
  have hbehind : ∀ c ∈ rest'.head?, isWhitespace c = true := by
    intro c hc
    cases rest' with
    | nil => cases hc
    | cons d rest' =>
        obtain ⟨behind, rfl⟩ := hprefix
        exact isWhitespace_of_isBlank (hrest c hc)
  have hvetted : vettedName (String.ofList (gap ++ w ++ rest)) =
      String.ofList (afterLast '/' w) := by
    rw [vettedName, String.toList_ofList, extractBaseCommand, htrim]
    simp only [head?_wordsFrom (fun c hc => (hw c hc).2) hne hbehind, Option.getD_some,
      afterLast_of_not_mem hbackslash]
  intro program args hsplit
  obtain ⟨words, hwords, hargv⟩ := Option.map_eq_some_iff.mp hsplit
  rw [String.toList_ofList] at hwords
  have hfirst := shlexChars_plain hgap (fun c hc => (hw c hc).1) hne hrest hwords
  obtain ⟨word, args', rfl⟩ : ∃ word args', words = word :: args' := by
    cases words with
    | nil => cases hfirst
    | cons word args' => exact ⟨word, args', rfl⟩
  obtain rfl : word = w := Option.some.inj hfirst
  obtain rfl : String.ofList word = program := (List.cons.inj hargv).1
  rw [hvetted, lastComponent, String.toList_ofList]
  exact ⟨fun hempty => hname (by simpa using hempty), rfl⟩

end Plain

/-- **The allowlist vets the program of a command, whatever the lists are, exactly if the names
agree or a guard refuses the command.** -/
theorem vetted_iff_namesAgree (guards : ShellGuards) (policy : ExecPolicy) (command : String) :
    (∀ safeBins allowedCommands input, (input.field "command").asStr = some command →
        Vetted guards (policy.allowing safeBins allowedCommands) input) ↔
      (PassesGuards guards policy command → NamesAgree command) := by
  constructor
  · intro hvetted hpasses program args hsplit
    have hspawns : ∀ safeBins allowedCommands : List String,
        vettedName command = "" ∨ vettedName command ∈ safeBins ∨
          vettedName command ∈ allowedCommands →
        lastComponent program ∈ safeBins ∨ lastComponent program ∈ allowedCommands := by
      intro safeBins allowedCommands hlisted
      refine hvetted safeBins allowedCommands (.obj [("command", .str command)]) rfl program args ?_
      refine (shellExec_eq_direct_iff rfl rfl).mpr ⟨⟨hpasses.1, hpasses.2, hpasses.3, hpasses.4,
        hpasses.5⟩, ?_, hsplit⟩
      exact (validateCommandAllowlist_eq_ok_iff rfl hpasses.metacharacters).mpr hlisted
    constructor
    · intro hempty
      simpa using hspawns [] [] (.inl hempty)
    · simpa using hspawns [vettedName command] [] (.inr (.inl List.mem_cons_self))
  · intro hagree safeBins allowedCommands input hinput program args hspawn
    obtain ⟨hpasses, hvalid, hsplit⟩ := (shellExec_eq_direct_iff rfl hinput).mp hspawn
    obtain ⟨hne, hsame⟩ := hagree ⟨hpasses.1, hpasses.2, hpasses.3, hpasses.4, hpasses.5⟩ program
      args hsplit
    rw [hsame]
    exact ((validateCommandAllowlist_eq_ok_iff rfl hpasses.metacharacters).mp hvalid).resolve_left
      hne

/-! ### A backslash in the name -/

/-- A policy that allows `ls`. -/
def lsPolicy : ExecPolicy := ⟨.allowlist, ["ls"], [], 30, .enforce, .enforce, []⟩

/-- Guards that find nothing wrong, as with a command without absolute paths, signals, ports and
background jobs. -/
def quietGuards : ShellGuards := ⟨fun _ _ => .ok (), fun _ _ _ _ _ => .ok (), fun _ => .ok ()⟩

theorem backslash_command_runs :
    ¬ ∀ (guards : ShellGuards) (policy : ExecPolicy) (input : Json),
      policy.mode = .allowlist → Vetted guards policy input := by
  intro hall
  have hspawn : shellExec quietGuards (some lsPolicy) (.obj [("command", .str "py\\ls")]) =
      .ok (.direct "pyls" []) := by decide +kernel
  have hvetted := hall quietGuards lsPolicy (.obj [("command", .str "py\\ls")]) rfl "pyls" [] hspawn
  simp [lsPolicy, lastComponent, afterLast] at hvetted

end ArmaraOS.Runtime
