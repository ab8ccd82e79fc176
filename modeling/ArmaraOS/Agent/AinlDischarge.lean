import ArmaraOS.Agent.AinlObligations

/-!
Which later call discharges an obligation of the AINL gate.

The repair prompt asks for the same tool again with the updated source. The gate compares the
target of the success with the target that the failed call left behind: its path, the hash of its
code and its strict flag, each only if the failed call had one. So a success with corrected code
discharges nothing where the failed call carried its code, and a success in another mode discharges
the obligation of a failed call without a strict flag.
-/

namespace ArmaraOS.Agent

open ArmaraOS.Lib ArmaraOS.Text

variable {σ : Type}

/-! ### The failed call and the later one -/

/-- The pending failure, as the round recorded it: only its attempts have been counted since. -/
def Recorded (cfg : TurnConfig) (dispatches : List ToolDispatch) (blocks : List ContentBlock)
    (p : PendingAinlAuthoringFailure) : Prop :=
  recordedFailure cfg dispatches blocks = some { p with blockedFinalAttempts := 0 }

/-- A failed call created the pending failure. -/
structure Created (cfg : TurnConfig) (dispatches : List ToolDispatch)
    (blocks : List ContentBlock) (failed : ToolCall) (p : PendingAinlAuthoringFailure) :
    Prop where
  recorded : Recorded cfg dispatches blocks p
  named : p.toolUseId = some failed.id ∧ p.toolName = failed.name
  call : callOf dispatches failed.id = some failed

/-- A call was executed in a round, and its result is not an error. -/
structure Succeeded (dispatches : List ToolDispatch) (blocks : List ContentBlock)
    (later : ToolCall) (content : String) : Prop where
  call : callOf dispatches later.id = some later
  result : .toolResult later.id later.name content false ∈ blocks

/-- The later call is of the same tool, for the same path, in the same mode. -/
def Repeats (failed later : ToolCall) : Prop :=
  later.name = failed.name ∧ pathArg later.input = pathArg failed.input ∧
    strictArg later.input = strictArg failed.input

/-- The later call is of another tool, for another path, or in another mode that the user did not
ask for. -/
def Departs (allowNonStrict : Bool) (failed later : ToolCall) : Prop :=
  later.name ≠ failed.name ∨ pathArg later.input ≠ pathArg failed.input ∨
    (allowNonStrict = false ∧ strictArg later.input ≠ strictArg failed.input)

/-- The later call carries the code of the failed one, if that carried any. -/
def KeepsCode (lib : Library) (failed later : ToolCall) : Prop :=
  ∀ code, codeArg failed.input = some code →
    (codeArg later.input).map lib.sha256Hex = some (lib.sha256Hex code)

/-- The comparison of targets decides between the two calls: a repetition brings no other code, and
a call for the same target in an explicit mode follows a call in an explicit mode. -/
structure TargetsSuffice (lib : Library) (allowNonStrict : Bool) (failed later : ToolCall) :
    Prop where
  code : Repeats failed later → KeepsCode lib failed later
  mode : later.name = failed.name → pathArg later.input = pathArg failed.input →
    KeepsCode lib failed later → allowNonStrict = false → strictArg failed.input = none →
      strictArg later.input = none

/-! ### What a result of the gate clears -/

section Clears

variable {cfg : TurnConfig} {dispatches : List ToolDispatch} {blocks : List ContentBlock}
  {failed later : ToolCall} {p : PendingAinlAuthoringFailure} {content : String}

instance : Decidable (Recorded cfg dispatches blocks p) := inferInstanceAs (Decidable (_ = _))

/-- What a failed call leaves of itself in the pending failure. -/
theorem Created.target (h : Created cfg dispatches blocks failed p) :
    isAinlAuthoringGateTool failed.name = true ∧ p.targetPath = pathArg failed.input ∧
      p.targetCodeSha256 = (codeArg failed.input).map cfg.lib.sha256Hex ∧
      p.strict = strictArg failed.input := by
  obtain ⟨hrecorded, ⟨hid, hname⟩, hcall⟩ := h
  obtain ⟨b, -, hb⟩ := List.exists_of_findSome?_eq_some hrecorded
  unfold ainlFailureOfBlock at hb
  split at hb
  · next id name content =>
    split at hb
    · next hgate =>
      rw [Bool.and_eq_true] at hgate
      have hp := (Option.some.inj hb).symm
      rw [PendingAinlAuthoringFailure.mk.injEq] at hp
      obtain ⟨htool, huse, hpath, hcode, hstrict, -, -⟩ := hp
      obtain rfl : failed.id = id := Option.some.inj (hid.symm.trans huse)
      have hlookup : (toolCallsById (pendingCalls dispatches)).lookup failed.id = some failed :=
        hcall
      rw [hlookup] at hpath hcode hstrict
      refine ⟨?_, hpath, hcode, hstrict⟩
      rw [← hname, htool]
      exact hgate.1
    · cases hb
  · cases hb

/-- The result of a later call clears the failure exactly if tool and path are the same, and code
and mode are where the failed call had one. -/
theorem Created.clears_iff (h : Created cfg dispatches blocks failed p)
    (hpath : (pathArg failed.input).isSome = true)
    (hok : toolResultJsonOkTrue cfg.lib content = true)
    {calls : List (String × ToolCall)} (hcall : calls.lookup later.id = some later) :
    ainlSuccessOfBlock cfg.lib (some p) calls cfg.allowNonStrict
        (.toolResult later.id later.name content false) = true ↔
      later.name = failed.name ∧ pathArg later.input = pathArg failed.input ∧
        KeepsCode cfg.lib failed later ∧
        (strictArg failed.input = none ∨ cfg.allowNonStrict = true ∨
          strictArg later.input = strictArg failed.input) := by
  obtain ⟨hgate, hp, hcode, hstrict⟩ := h.target
  obtain ⟨path, hpath⟩ := Option.isSome_iff_exists.mp hpath
  have hkeeps : (p.targetCodeSha256.isNone ||
      (codeArg later.input).map cfg.lib.sha256Hex == p.targetCodeSha256) = true ↔
      KeepsCode cfg.lib failed later := by
    rw [hcode, KeepsCode]
    cases codeArg failed.input <;> simp
  have hname : p.toolName = failed.name := h.named.2
  simp only [ainlSuccessOfBlock, hok, hname, hp, hpath, hcall, matchesPendingTarget, hstrict,
    Option.isNone_some, Bool.false_and, Bool.false_or, Bool.and_eq_true, beq_iff_eq, hkeeps,
    Bool.and_true, Bool.or_eq_true, Option.isNone_iff_eq_none]
  constructor
  · rintro ⟨-, hsame, ⟨hlater, hkept⟩, hmode⟩
    exact ⟨hsame.symm, hlater, hkept, or_assoc.mp hmode⟩
  · rintro ⟨hsame, hlater, hkept, hmode⟩
    exact ⟨hsame ▸ hgate, hsame.symm, ⟨hlater, hkept⟩, or_assoc.mpr hmode⟩

theorem findSome?_filter_of_none {α β : Type} {f : α → Option β} {keep : α → Bool} {xs : List α}
    (h : ∀ x ∈ xs, keep x = false → f x = none) :
    (xs.filter keep).findSome? f = xs.findSome? f := by
  induction xs with
  | nil => rfl
  | cons x xs ih =>
      have hrest := ih fun y hy => h y (List.mem_cons_of_mem _ hy)
      cases hkeep : keep x with
      | true => rw [List.filter_cons_of_pos hkeep, List.findSome?_cons, List.findSome?_cons, hrest]
      | false =>
          rw [List.filter_cons_of_neg (by simp [hkeep]), hrest, List.findSome?_cons,
            h x (by simp) hkeep]

/-- A success records no failure. -/
theorem recordedFailure_without {b : ContentBlock}
    (hb : b = .toolResult later.id later.name content false) :
    recordedFailure cfg dispatches (blocks.filter fun x => x != b) =
      recordedFailure cfg dispatches blocks := by
  refine findSome?_filter_of_none fun x _ hx => ?_
  obtain rfl : x = b := by simpa using hx
  rw [hb]
  rfl

/-- A round whose results include one that clears the failure leaves what it recorded itself. -/
theorem pendingAfterRound_of_clears {b : ContentBlock} (hb : b ∈ blocks)
    (hclears : ainlSuccessOfBlock cfg.lib (some p) (toolCallsById (pendingCalls dispatches))
      cfg.allowNonStrict b = true) :
    pendingAfterRound cfg dispatches blocks (some p) = recordedFailure cfg dispatches blocks := by
  have hany : ainlAuthoringSuccessInToolResults cfg.lib blocks (some p)
      (toolCallsById (pendingCalls dispatches)) cfg.allowNonStrict = true :=
    List.any_eq_true.mpr ⟨b, hb, hclears⟩
  rw [pendingAfterRound]
  simp only [hany, ↓reduceIte]
  change (recordedFailure cfg dispatches blocks).orElse _ = _
  cases recordedFailure cfg dispatches blocks <;> rfl

/-- A result that does not clear the failure makes no difference to the round. -/
theorem pendingAfterRound_without {b : ContentBlock}
    (hb : b = .toolResult later.id later.name content false)
    (hkeeps : ainlSuccessOfBlock cfg.lib (some p) (toolCallsById (pendingCalls dispatches))
      cfg.allowNonStrict b = false) :
    pendingAfterRound cfg dispatches blocks (some p) =
      pendingAfterRound cfg dispatches (blocks.filter fun x => x != b) (some p) := by
  have hany : ainlAuthoringSuccessInToolResults cfg.lib (blocks.filter fun x => x != b) (some p)
        (toolCallsById (pendingCalls dispatches)) cfg.allowNonStrict =
      ainlAuthoringSuccessInToolResults cfg.lib blocks (some p)
        (toolCallsById (pendingCalls dispatches)) cfg.allowNonStrict := by
    rw [Bool.eq_iff_iff]
    simp only [ainlAuthoringSuccessInToolResults, List.any_eq_true, List.mem_filter, bne_iff_ne]
    constructor
    · rintro ⟨x, ⟨hx, -⟩, hclears⟩
      exact ⟨x, hx, hclears⟩
    · rintro ⟨x, hx, hclears⟩
      refine ⟨x, ⟨hx, ?_⟩, hclears⟩
      rintro rfl
      rw [hkeeps] at hclears
      cases hclears
  have hfailure := @recordedFailure_without cfg dispatches blocks later content b hb
  unfold recordedFailure at hfailure
  simp only [pendingAfterRound, hany, hfailure]

end Clears

/-! ### Which calls discharge the obligation -/

/-- **In every round where a later call succeeds, a repetition of the failed call clears the
pending failure and a departure from it makes no difference, exactly if the repetition brings no
code other than the failed call's, and a departure in the mode alone is from a call that had
one.** -/
theorem repair_discharges_iff {cfg : TurnConfig} {dispatches : List ToolDispatch}
    {blocks : List ContentBlock} {failed later : ToolCall} {p : PendingAinlAuthoringFailure}
    {content : String} (hcreated : Created cfg dispatches blocks failed p)
    (hpath : (pathArg failed.input).isSome = true)
    (hok : toolResultJsonOkTrue cfg.lib content = true) :
    (∀ dispatches' blocks', Succeeded dispatches' blocks' later content →
      (Repeats failed later →
        pendingAfterRound cfg dispatches' blocks' (some p) =
          recordedFailure cfg dispatches' blocks') ∧
      (Departs cfg.allowNonStrict failed later →
        pendingAfterRound cfg dispatches' blocks' (some p) =
          pendingAfterRound cfg dispatches'
            (blocks'.filter fun b => b != .toolResult later.id later.name content false)
            (some p))) ↔
      TargetsSuffice cfg.lib cfg.allowNonStrict failed later := by
  constructor
  · intro hall
    -- the round of the later call alone
    have hlookup : callOf [.pending later .allow] later.id = some later := by
      simp [callOf, toolCallsById, pendingCalls]
    obtain ⟨hrepeats, hdeparts⟩ := hall [.pending later .allow]
      [.toolResult later.id later.name content false] ⟨hlookup, by simp⟩
    have hclears := hcreated.clears_iff hpath hok hlookup
    refine ⟨fun hsame => ?_, fun htool hsamePath hkeeps hstrict hnone => ?_⟩
    · by_contra hother
      have hkept := mt hclears.mp fun h => hother h.2.2.1
      rw [Bool.not_eq_true] at hkept
      have hround := hrepeats hsame
      rw [pendingAfterRound_without rfl hkept] at hround
      simp [pendingAfterRound, ainlAuthoringFailureFromToolResults, recordedFailure,
        ainlAuthoringSuccessInToolResults, ainlFailureOfBlock] at hround
    · by_contra hmode
      have hcleared := hclears.mpr ⟨htool, hsamePath, hkeeps, .inl hnone⟩
      have hround := hdeparts (.inr (.inr ⟨hstrict, hnone ▸ hmode⟩))
      rw [pendingAfterRound_of_clears (by simp) hcleared] at hround
      simp [pendingAfterRound, ainlAuthoringFailureFromToolResults, recordedFailure,
        ainlAuthoringSuccessInToolResults, ainlFailureOfBlock] at hround
  · rintro ⟨hcode, hmode⟩ dispatches' blocks' ⟨hcall, hresult⟩
    have hclears := hcreated.clears_iff hpath hok hcall
    refine ⟨fun hsame => ?_, fun hdeparts => ?_⟩
    · exact pendingAfterRound_of_clears hresult
        (hclears.mpr ⟨hsame.1, hsame.2.1, hcode hsame, .inr (.inr hsame.2.2)⟩)
    · refine pendingAfterRound_without rfl (Bool.not_eq_true _ ▸ mt hclears.mp ?_)
      rintro ⟨htool, hsamePath, hkeeps, hstrict⟩
      rcases hdeparts with hother | hother | ⟨hmust, hother⟩
      · exact hother htool
      · exact hother hsamePath
      · rcases hstrict with hnone | hallowed | hsame
        · exact hother ((hmode htool hsamePath hkeeps hmust hnone).trans hnone.symm)
        · rw [hmust] at hallowed
          cases hallowed
        · exact hother hsame

/-! ### A validation and its correction -/

/-- The turn in which a program is validated. -/
def validatingTurn : TurnConfig := scriptedTurn ["mcp_ainl_ainl_validate"] "Check a.ainl" 5

/-- A strict validation of a program text for a path. -/
def validateCodeCall (id path code : String) : ToolCall :=
  ⟨id, "mcp_ainl_ainl_validate",
    .obj [("path", .str path), ("code", .str code), ("strict", .bool true)]⟩

/-- The round of one call and its result. -/
def roundResult (call : ToolCall) (content : String) (isError : Bool) : List ContentBlock :=
  [.toolResult call.id call.name content isError]

/-- The failure of a validation without code is cleared by its repetition. -/
theorem repair_discharges_path :
    pendingAfterRound validatingTurn [.pending (validateCall "c2" "a.ainl") .allow]
      (roundResult (validateCall "c2" "a.ainl") okBody false)
      (recordedFailure validatingTurn [.pending (validateCall "c1" "a.ainl") .allow]
        (roundResult (validateCall "c1" "a.ainl") failedBody true)) = none := by
  have hsuffice : TargetsSuffice asciiLibrary false (validateCall "c1" "a.ainl")
      (validateCall "c2" "a.ainl") :=
    ⟨fun _ code hcode => (nomatch hcode), fun _ _ _ _ _ => rfl⟩
  have hpair := (@repair_discharges_iff validatingTurn
    [.pending (validateCall "c1" "a.ainl") .allow]
    (roundResult (validateCall "c1" "a.ainl") failedBody true) (validateCall "c1" "a.ainl")
    (validateCall "c2" "a.ainl")
    ⟨"mcp_ainl_ainl_validate", some "c1", some "a.ainl", none, none, failedBody, 0⟩ okBody
    ⟨by decide +kernel, ⟨rfl, rfl⟩, by decide +kernel⟩ rfl (by decide +kernel)).mpr hsuffice
  have hround := hpair [.pending (validateCall "c2" "a.ainl") .allow]
    (roundResult (validateCall "c2" "a.ainl") okBody false)
    ⟨by decide +kernel, by simp [roundResult]⟩
  have hcleared := hround.1 ⟨rfl, rfl, rfl⟩
  have hrecorded : recordedFailure validatingTurn [.pending (validateCall "c1" "a.ainl") .allow]
      (roundResult (validateCall "c1" "a.ainl") failedBody true) =
      some ⟨"mcp_ainl_ainl_validate", some "c1", some "a.ainl", none, none, failedBody, 0⟩ := by
    decide +kernel
  rw [hrecorded, hcleared]
  rfl

/-- The failure of a validation with its code stays pending when the corrected code passes. -/
theorem corrected_code_stays_pending :
    ¬ ∀ (cfg : TurnConfig) (dispatches : List ToolDispatch) (blocks : List ContentBlock)
        (failed later : ToolCall) (p : PendingAinlAuthoringFailure) (content : String),
      Created cfg dispatches blocks failed p → (pathArg failed.input).isSome = true →
        toolResultJsonOkTrue cfg.lib content = true →
        ∀ dispatches' blocks', Succeeded dispatches' blocks' later content →
          (Repeats failed later →
            pendingAfterRound cfg dispatches' blocks' (some p) =
              recordedFailure cfg dispatches' blocks') ∧
          (Departs cfg.allowNonStrict failed later →
            pendingAfterRound cfg dispatches' blocks' (some p) =
              pendingAfterRound cfg dispatches'
                (blocks'.filter fun b => b != .toolResult later.id later.name content false)
                (some p)) := by
  intro hall
  have hround := hall validatingTurn
    [.pending (validateCodeCall "c1" "a.ainl" "demo:\n  outt 1\n") .allow]
    (roundResult (validateCodeCall "c1" "a.ainl" "demo:\n  outt 1\n") failedBody true)
    (validateCodeCall "c1" "a.ainl" "demo:\n  outt 1\n")
    (validateCodeCall "c2" "a.ainl" "demo:\n  out 1\n")
    ⟨"mcp_ainl_ainl_validate", some "c1", some "a.ainl", some "demo:\n  outt 1\n", some true,
      failedBody, 0⟩
    okBody ⟨by decide +kernel, ⟨rfl, rfl⟩, by decide +kernel⟩ rfl (by decide +kernel)
    [.pending (validateCodeCall "c2" "a.ainl" "demo:\n  out 1\n") .allow]
    (roundResult (validateCodeCall "c2" "a.ainl" "demo:\n  out 1\n") okBody false)
    ⟨by decide +kernel, by simp [roundResult]⟩
  have hcleared := hround.1 ⟨rfl, rfl, rfl⟩
  revert hcleared
  decide +kernel

end ArmaraOS.Agent
