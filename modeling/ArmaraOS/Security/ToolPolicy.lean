import ArmaraOS.Lib.Text
import ArmaraOS.Lib.Wildcard

/-!
The tool policy (`openfang-runtime/src/tool_policy.rs`).

A rule names tools by a glob pattern, or by a group: `@` and the name of a group that has a pattern
for the tool. `glob_match` places the pieces of a pattern from left to right and decides the
wildcard language (`globMatch_iff`), so a rule applies to exactly the tools that it names
(`matchesPattern_iff`), and what a deny rule names is not allowed (`deny_rules_hold`).
-/

namespace ArmaraOS.Security

open ArmaraOS.Lib ArmaraOS.Lib.Framing ArmaraOS.Text

/-! ### The policy -/

/-- `PolicyEffect`. -/
inductive PolicyEffect where
  | allow
  | deny
deriving DecidableEq

/-- `ToolPolicyRule`. -/
structure ToolPolicyRule where
  pattern : String
  effect : PolicyEffect
deriving DecidableEq

/-- `ToolGroup`. -/
structure ToolGroup where
  name : String
  tools : List String

/-- `ToolPolicy`, with the fields that the check reads. -/
structure ToolPolicy where
  agentRules : List ToolPolicyRule
  globalRules : List ToolPolicyRule
  groups : List ToolGroup
  subagentMaxDepth : Nat

/-- `ToolAccessResult`. -/
inductive ToolAccessResult where
  | allowed
  | denied (rulePattern source : String)
  | depthExceeded (current max : Nat)

/-! ### Glob patterns -/

/-- The parts behind the first: each is found in what the ones before it leave, and the last one
ends it. -/
def globRest : List (List Char) → List Char → Bool
  | [], _ => true
  | [last], text => last.isEmpty || last.isSuffixOf text
  | part :: parts, text =>
      if part.isEmpty then globRest parts text
      else
        match cutAt part text with
        | some (_, rest) => globRest parts rest
        | none => false

/-- The loop of `glob_match`. -/
def globLoop (parts : List (List Char)) (text : List Char) : Bool :=
  match parts with
  | [] => true
  | first :: parts =>
      if first.isEmpty then globRest parts text
      else
        match first.isPrefixOf? text with
        | some rest => globRest parts rest
        | none => false

/-- `glob_match`. -/
def globMatch (pattern text : String) : Bool :=
  if pattern == "*" then true
  else if !pattern.toList.contains '*' then pattern == text
  else
    match pattern.toList.splitOn '*' with
    | [front, back] =>
        front.isPrefixOf text.toList && back.isSuffixOf text.toList &&
          decide (byteLength front + byteLength back ≤ byteLength text.toList)
    | parts => globLoop parts text.toList

/-! ### Access -/

/-- `is_subagent_tool`. -/
def isSubagentTool (name : String) : Bool :=
  name == "agent_spawn" || name == "agent_call" || name == "spawn_agent"

/-- `expand_groups`. -/
def expandGroups (toolName : String) (groups : List ToolGroup) : List String :=
  toolName :: groups.flatMap fun group =>
    (group.tools.filter (globMatch · toolName)).map fun _ => "@" ++ group.name

/-- `matches_pattern`. -/
def matchesPattern (pattern toolName : String) (expanded : List String) : Bool :=
  globMatch pattern toolName || (startsWith pattern "@" && expanded.any (· == pattern))

/-- A rule of this effect that matches the tool. -/
def applies (effect : PolicyEffect) (toolName : String) (expanded : List String)
    (rule : ToolPolicyRule) : Bool :=
  rule.effect == effect && matchesPattern rule.pattern toolName expanded

/-- `resolve_tool_access`. -/
def resolveToolAccess (toolName : String) (policy : ToolPolicy) (depth : Nat) :
    ToolAccessResult :=
  if isSubagentTool toolName && decide (policy.subagentMaxDepth < depth) then
    .depthExceeded depth policy.subagentMaxDepth
  else
    let expanded := expandGroups toolName policy.groups
    match policy.agentRules.find? (applies .deny toolName expanded) with
    | some rule => .denied rule.pattern "agent"
    | none =>
        match policy.globalRules.find? (applies .deny toolName expanded) with
        | some rule => .denied rule.pattern "global"
        | none =>
            if policy.agentRules.any (·.effect == .allow) ||
                policy.globalRules.any (·.effect == .allow) then
              if policy.agentRules.any (applies .allow toolName expanded) ||
                  policy.globalRules.any (applies .allow toolName expanded) then .allowed
              else .denied "(not in any allow list)" "implicit_deny"
            else .allowed

/-! ### What a pattern names -/

/-- The text is the literal pieces of the pattern in order, with any text for each star. -/
def Denotes (pattern text : String) : Prop :=
  Fills (pattern.toList.splitOn '*') text.toList

/-- The pattern names the tool, or a group that has a pattern for it. -/
def NamesTool (groups : List ToolGroup) (pattern toolName : String) : Prop :=
  Denotes pattern toolName ∨
    ∃ group ∈ groups, pattern = "@" ++ group.name ∧ ∃ part ∈ group.tools, Denotes part toolName

theorem globRest_iff {parts : List (List Char)} {text : List Char} (hparts : parts ≠ []) :
    globRest parts text = true ↔ Trails parts text := by
  induction parts generalizing text with
  | nil => exact absurd rfl hparts
  | cons part parts ih =>
      cases parts with
      | nil =>
          rw [globRest, trails_singleton]
          cases part <;> simp [List.isSuffixOf_iff_suffix]
      | cons next parts =>
          rw [globRest]
          · by_cases hpart : part.isEmpty = true
            · rw [if_pos hpart]
              obtain rfl := List.isEmpty_iff.mp hpart
              rw [trails_nil_cons]
              exact ih (List.cons_ne_nil next parts)
            · rw [if_neg hpart]
              cases hcut : cutAt part text with
              | none => exact iff_of_false Bool.false_ne_true (not_trails_of_cutAt hcut)
              | some cut =>
                  rw [trails_cons_of_cutAt hcut]
                  exact ih (List.cons_ne_nil next parts)
          · simp

theorem globLoop_iff {first next : List Char} {parts : List (List Char)} {text : List Char} :
    globLoop (first :: next :: parts) text = true ↔ Fills (first :: next :: parts) text := by
  have hrest : next :: parts ≠ [] := List.cons_ne_nil next parts
  rw [globLoop, fills_cons_cons]
  by_cases hfirst : first.isEmpty = true
  · rw [if_pos hfirst, globRest_iff hrest]
    obtain rfl := List.isEmpty_iff.mp hfirst
    simp
  · rw [if_neg hfirst]
    cases hprefix : first.isPrefixOf? text with
    | none =>
        refine iff_of_false Bool.false_ne_true ?_
        rintro ⟨rest, rfl, -⟩
        rw [List.isPrefixOf?_eq_some_iff_append_eq.mpr rfl] at hprefix
        cases hprefix
    | some rest =>
        obtain rfl := List.isPrefixOf?_eq_some_iff_append_eq.mp hprefix
        dsimp only
        rw [globRest_iff hrest]
        simp

/-- A pattern with a star has two pieces at least. -/
theorem exists_pieces {pattern : List Char} (h : '*' ∈ pattern) :
    ∃ first next parts, pattern.splitOn '*' = first :: next :: parts := by
  obtain ⟨front, back, rfl, hfront⟩ := List.eq_append_cons_of_mem h
  rw [List.splitOn_append_cons_self_of_not_mem hfront]
  obtain ⟨next, parts, hback⟩ := List.exists_cons_of_ne_nil (List.splitOn_ne_nil '*' back)
  exact ⟨front, next, parts, by rw [hback]⟩

/-- **`glob_match` decides the wildcard language.** -/
theorem globMatch_iff (pattern text : String) :
    globMatch pattern text = true ↔ Denotes pattern text := by
  unfold globMatch Denotes
  by_cases hstar : pattern = "*"
  · subst hstar
    have hpieces : "*".toList.splitOn '*' = [[], []] := by decide
    rw [if_pos (beq_self_eq_true "*"), hpieces, fills_cons_cons]
    exact iff_of_true rfl ⟨text.toList, rfl, trails_singleton.mpr List.nil_suffix⟩
  · rw [if_neg (by simpa using hstar)]
    by_cases hmem : '*' ∈ pattern.toList
    · obtain ⟨first, next, parts, hpieces⟩ := exists_pieces hmem
      rw [if_neg (by simpa using hmem), hpieces]
      cases parts with
      | nil =>
          have hframed := @fills_pair_iff_framed _ first next text.toList _ Char.utf8Size_pos
          rw [hframed]
          simp only [Bool.and_eq_true, decide_eq_true_eq, and_assoc, List.isPrefixOf_iff_prefix,
            List.isSuffixOf_iff_suffix]
          rfl
      | cons last parts => exact globLoop_iff
    · rw [if_pos (by simpa using hmem), List.splitOn_eq_singleton hmem, fills_singleton]
      constructor
      · exact fun heq => congrArg String.toList (of_decide_eq_true heq).symm
      · exact fun heq => decide_eq_true (String.toList_inj.mp heq.symm)

theorem denotes_self (pattern : String) : Denotes pattern pattern := by
  have hfills := fills_intercalate ['*'] (List.splitOn_ne_nil '*' pattern.toList)
  rwa [List.intercalate_splitOn] at hfills

/-! ### What a rule applies to -/

theorem mem_expandGroups {toolName name : String} {groups : List ToolGroup} :
    name ∈ expandGroups toolName groups ↔ name = toolName ∨
      ∃ group ∈ groups, name = "@" ++ group.name ∧ ∃ part ∈ group.tools, Denotes part toolName := by
  simp only [expandGroups, List.mem_cons, List.mem_flatMap, List.mem_map, List.mem_filter,
    globMatch_iff]
  refine or_congr_right (exists_congr fun group => and_congr_right fun _ => ?_)
  constructor
  · rintro ⟨part, hpart, rfl⟩
    exact ⟨rfl, part, hpart⟩
  · rintro ⟨rfl, part, hpart⟩
    exact ⟨part, hpart, rfl⟩

/-- A rule applies to exactly the tools that its pattern names. -/
theorem matchesPattern_iff {pattern toolName : String} {groups : List ToolGroup} :
    matchesPattern pattern toolName (expandGroups toolName groups) = true ↔
      NamesTool groups pattern toolName := by
  have hany : (expandGroups toolName groups).any (· == pattern) = true ↔
      pattern ∈ expandGroups toolName groups := by
    simp
  rw [matchesPattern, Bool.or_eq_true, Bool.and_eq_true, globMatch_iff, hany, mem_expandGroups,
    NamesTool]
  constructor
  · rintro (hdirect | ⟨-, rfl | hgroup⟩)
    · exact .inl hdirect
    · exact .inl (denotes_self pattern)
    · exact .inr hgroup
  · rintro (hdirect | ⟨group, hgroup, rfl, hpart⟩)
    · exact .inl hdirect
    · refine .inr ⟨?_, .inr ⟨group, hgroup, rfl, hpart⟩⟩
      rw [startsWith, String.toList_append, List.isPrefixOf_iff_prefix]
      exact List.prefix_append _ _

theorem applies_iff {effect : PolicyEffect} {toolName : String} {groups : List ToolGroup}
    {rule : ToolPolicyRule} :
    applies effect toolName (expandGroups toolName groups) rule = true ↔
      rule.effect = effect ∧ NamesTool groups rule.pattern toolName := by
  rw [applies, Bool.and_eq_true, matchesPattern_iff, beq_iff_eq]

/-- The rules of the policy. -/
def ToolPolicy.rules (policy : ToolPolicy) : List ToolPolicyRule :=
  policy.agentRules ++ policy.globalRules

/-- A deny rule that names the tool is found among the agent rules or among the global ones. -/
theorem exists_denied {toolName : String} {policy : ToolPolicy} {depth : Nat}
    (hdepth : ¬ (isSubagentTool toolName = true ∧ policy.subagentMaxDepth < depth))
    (h : ∃ rule ∈ policy.rules, rule.effect = .deny ∧
      NamesTool policy.groups rule.pattern toolName) :
    ∃ rule ∈ policy.rules, ∃ source, rule.effect = .deny ∧
      NamesTool policy.groups rule.pattern toolName ∧
      resolveToolAccess toolName policy depth = .denied rule.pattern source := by
  have hgate : ¬ (isSubagentTool toolName && decide (policy.subagentMaxDepth < depth)) = true := by
    rwa [Bool.and_eq_true, decide_eq_true_eq]
  unfold resolveToolAccess
  rw [if_neg hgate]
  dsimp only
  cases hagent : policy.agentRules.find?
      (applies .deny toolName (expandGroups toolName policy.groups)) with
  | some rule =>
      obtain ⟨heffect, hnames⟩ := applies_iff.mp (List.find?_some hagent)
      exact ⟨rule, List.mem_append_left _ (List.mem_of_find?_eq_some hagent), "agent", heffect,
        hnames, rfl⟩
  | none =>
      cases hglobal : policy.globalRules.find?
          (applies .deny toolName (expandGroups toolName policy.groups)) with
      | some rule =>
          obtain ⟨heffect, hnames⟩ := applies_iff.mp (List.find?_some hglobal)
          exact ⟨rule, List.mem_append_right _ (List.mem_of_find?_eq_some hglobal), "global",
            heffect, hnames, rfl⟩
      | none =>
          obtain ⟨rule, hrule, heffect, hnames⟩ := h
          have happlies := applies_iff.mpr ⟨heffect, hnames⟩
          rcases List.mem_append.mp hrule with hrule | hrule
          · exact absurd happlies (List.find?_eq_none.mp hagent rule hrule)
          · exact absurd happlies (List.find?_eq_none.mp hglobal rule hrule)

/-- **Deny rules cannot be dodged.** A glob pattern matches exactly the texts of its wildcard
language. What a deny rule names, by its pattern or by a group, is not allowed: it is denied by
such a rule, or was refused for its depth before the rules were read. -/
theorem deny_rules_hold :
    (∀ pattern text, globMatch pattern text = true ↔ Denotes pattern text) ∧
    ∀ toolName policy depth, ∀ rule ∈ policy.rules, rule.effect = .deny →
      NamesTool policy.groups rule.pattern toolName →
      if isSubagentTool toolName = true ∧ policy.subagentMaxDepth < depth then
        resolveToolAccess toolName policy depth = .depthExceeded depth policy.subagentMaxDepth
      else
        ∃ rule ∈ policy.rules, ∃ source, rule.effect = .deny ∧
          NamesTool policy.groups rule.pattern toolName ∧
          resolveToolAccess toolName policy depth = .denied rule.pattern source := by
  refine ⟨globMatch_iff, fun toolName policy depth rule hrule heffect hnames => ?_⟩
  split
  · rename_i hdepth
    have hgate : (isSubagentTool toolName && decide (policy.subagentMaxDepth < depth)) = true := by
      rwa [Bool.and_eq_true, decide_eq_true_eq]
    rw [resolveToolAccess, if_pos hgate]
  · rename_i hdepth
    exact exists_denied hdepth ⟨rule, hrule, heffect, hnames⟩

/-- A group of shell tools, denied, while `*_exec` is allowed. -/
def shellPolicy : ToolPolicy where
  agentRules := [⟨"*_exec", .allow⟩]
  globalRules := [⟨"@shell", .deny⟩]
  groups := [⟨"shell", ["process_*", "sh*_ex*"]⟩]
  subagentMaxDepth := 10

theorem deny_rules_hold_shell_exec :
    ∃ rule ∈ shellPolicy.rules, ∃ source, rule.effect = .deny ∧
      NamesTool shellPolicy.groups rule.pattern "shell_exec" ∧
      resolveToolAccess "shell_exec" shellPolicy 0 = .denied rule.pattern source := by
  have hpart : Denotes "sh*_ex*" "shell_exec" := (deny_rules_hold.1 _ _).mp (by decide)
  have hdenied := deny_rules_hold.2 "shell_exec" shellPolicy 0 ⟨"@shell", .deny⟩ (by decide) rfl
    (.inr ⟨_, List.mem_singleton_self _, rfl, "sh*_ex*", by decide, hpart⟩)
  rwa [if_neg (by decide)] at hdenied

end ArmaraOS.Security
