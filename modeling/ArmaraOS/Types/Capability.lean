import ArmaraOS.Lib.Affix
import ArmaraOS.Lib.Text
import ArmaraOS.Types.F64

/-!
Capabilities, their matching and the inheritance check at a spawn
(`openfang-types/src/capability.rs`).
-/

namespace ArmaraOS

open ArmaraOS.Text

/-! ### Glob patterns -/

/-- `pattern.strip_prefix('*')`. -/
def stripStar : List Char → Option (List Char)
  | '*' :: rest => some rest
  | _ => none

/-- The parts around the first `'*'`, as `pattern.find('*')` cuts them. -/
def splitAtStar : List Char → Option (List Char × List Char)
  | [] => none
  | c :: rest =>
      if c = '*' then some ([], rest)
      else (splitAtStar rest).map fun parts => (c :: parts.1, parts.2)

/-- `glob_matches`, on characters. -/
def globMatchesChars (pattern value : List Char) : Bool :=
  if pattern = ['*'] then true
  else if pattern = value then true
  else
    match stripStar pattern with
    | some suffix => suffix.isSuffixOf value
    | none =>
        match stripStar pattern.reverse with
        | some front => front.reverse.isPrefixOf value
        | none =>
            match splitAtStar pattern with
            | some (front, suffix) =>
                front.isPrefixOf value && suffix.isSuffixOf value &&
                  decide (byteLength front + byteLength suffix ≤ byteLength value)
            | none => false

/-- `glob_matches`. -/
def globMatches (pattern value : String) : Bool := globMatchesChars pattern.toList value.toList

/-! ### Capabilities -/

/-- `Capability`. -/
inductive Capability where
  | fileRead (pattern : String)
  | fileWrite (pattern : String)
  | netConnect (pattern : String)
  | netListen (port : UInt16)
  | toolInvoke (id : String)
  | toolAll
  | llmQuery (pattern : String)
  | llmMaxTokens (max : UInt64)
  | agentSpawn
  | agentMessage (pattern : String)
  | agentKill (pattern : String)
  | memoryRead (pattern : String)
  | memoryWrite (pattern : String)
  | shellExec (pattern : String)
  | envRead (pattern : String)
  | ofpDiscover
  | ofpConnect (pattern : String)
  | ofpAdvertise
  | econSpend (max : F64)
  | econEarn
  | econTransfer (pattern : String)
deriving DecidableEq

/-- `capability_matches`. -/
def capabilityMatches (granted required : Capability) : Bool :=
  match granted, required with
  | .toolAll, .toolInvoke _ => true
  | .fileRead pattern, .fileRead path => globMatches pattern path
  | .fileWrite pattern, .fileWrite path => globMatches pattern path
  | .netConnect pattern, .netConnect host => globMatches pattern host
  | .toolInvoke grantedId, .toolInvoke requiredId => grantedId == requiredId || grantedId == "*"
  | .llmQuery pattern, .llmQuery model => globMatches pattern model
  | .agentMessage pattern, .agentMessage target => globMatches pattern target
  | .agentKill pattern, .agentKill target => globMatches pattern target
  | .memoryRead pattern, .memoryRead scope => globMatches pattern scope
  | .memoryWrite pattern, .memoryWrite scope => globMatches pattern scope
  | .shellExec pattern, .shellExec cmd => globMatches pattern cmd
  | .envRead pattern, .envRead var => globMatches pattern var
  | .ofpConnect pattern, .ofpConnect peer => globMatches pattern peer
  | .econTransfer pattern, .econTransfer target => globMatches pattern target
  | .agentSpawn, .agentSpawn => true
  | .ofpDiscover, .ofpDiscover => true
  | .ofpAdvertise, .ofpAdvertise => true
  | .econEarn, .econEarn => true
  | .netListen grantedPort, .netListen requiredPort => grantedPort == requiredPort
  | .llmMaxTokens grantedMax, .llmMaxTokens requiredMax => decide (requiredMax ≤ grantedMax)
  | .econSpend grantedMax, .econSpend requiredAmount => grantedMax.ge requiredAmount
  | _, _ => false

/-- `granted_capabilities_cover_required`. -/
def grantedCapabilitiesCoverRequired (granted required : List Capability) : Bool :=
  if required.isEmpty then true
  else required.all fun req => granted.any fun g => capabilityMatches g req

/-- `validate_capability_inheritance`. The error names the first capability that the parent
has no matching grant for ("Privilege escalation denied: child requests .. but parent does
not have a matching grant"). -/
def validateCapabilityInheritance (parentCaps : List Capability) :
    List Capability → Except Capability Unit
  | [] => .ok ()
  | childCap :: rest =>
      if parentCaps.any fun parentCap => capabilityMatches parentCap childCap then
        validateCapabilityInheritance parentCaps rest
      else .error childCap

theorem validateCapabilityInheritance_ok {parentCaps childCaps : List Capability} :
    validateCapabilityInheritance parentCaps childCaps = .ok () ↔
      ∀ childCap ∈ childCaps, ∃ parentCap ∈ parentCaps,
        capabilityMatches parentCap childCap = true := by
  induction childCaps with
  | nil => simp [validateCapabilityInheritance]
  | cons childCap rest ih =>
      rw [validateCapabilityInheritance, List.forall_mem_cons, ← ih, ← List.any_eq_true]
      split
      · next hcovered => simp [hcovered]
      · next hcovered => simp [hcovered]

/-! ### Views of a capability -/

/-- The variants whose strings are glob patterns. -/
inductive GlobScope where
  | fileRead | fileWrite | netConnect | llmQuery | agentMessage | agentKill | memoryRead
  | memoryWrite | shellExec | envRead | ofpConnect | econTransfer
deriving DecidableEq

namespace Capability

/-- The scope and the pattern of a capability that is matched as a glob. -/
def glob? : Capability → Option (GlobScope × String)
  | fileRead pattern => some (.fileRead, pattern)
  | fileWrite pattern => some (.fileWrite, pattern)
  | netConnect pattern => some (.netConnect, pattern)
  | llmQuery pattern => some (.llmQuery, pattern)
  | agentMessage pattern => some (.agentMessage, pattern)
  | agentKill pattern => some (.agentKill, pattern)
  | memoryRead pattern => some (.memoryRead, pattern)
  | memoryWrite pattern => some (.memoryWrite, pattern)
  | shellExec pattern => some (.shellExec, pattern)
  | envRead pattern => some (.envRead, pattern)
  | ofpConnect pattern => some (.ofpConnect, pattern)
  | econTransfer pattern => some (.econTransfer, pattern)
  | _ => none

/-- The capability of a scope with a pattern. -/
def ofGlob : GlobScope → String → Capability
  | .fileRead => fileRead
  | .fileWrite => fileWrite
  | .netConnect => netConnect
  | .llmQuery => llmQuery
  | .agentMessage => agentMessage
  | .agentKill => agentKill
  | .memoryRead => memoryRead
  | .memoryWrite => memoryWrite
  | .shellExec => shellExec
  | .envRead => envRead
  | .ofpConnect => ofpConnect
  | .econTransfer => econTransfer

/-- The string of a capability that has one. -/
def string? : Capability → Option String
  | toolInvoke id => some id
  | c => c.glob?.map Prod.snd

/-- The number of stars in the glob pattern of a capability. -/
def stars (c : Capability) : Nat :=
  match c.glob? with
  | some (_, pattern) => pattern.toList.count '*'
  | none => 0

/-- No `'*'` in the strings of a capability. -/
def Concrete (c : Capability) : Prop := ∀ s, c.string? = some s → '*' ∉ s.toList

@[simp] theorem glob?_ofGlob (scope : GlobScope) (pattern : String) :
    (ofGlob scope pattern).glob? = some (scope, pattern) := by
  cases scope <;> rfl

theorem glob?_eq_some {c : Capability} {scope : GlobScope} {pattern : String} :
    c.glob? = some (scope, pattern) ↔ c = ofGlob scope pattern := by
  constructor
  · intro h
    cases c <;> simp only [glob?, Option.some.injEq, Prod.mk.injEq, reduceCtorEq] at h
    all_goals
      obtain ⟨rfl, rfl⟩ := h
      rfl
  · rintro rfl
    exact glob?_ofGlob scope pattern

@[simp] theorem stars_ofGlob (scope : GlobScope) (pattern : String) :
    (ofGlob scope pattern).stars = pattern.toList.count '*' := by
  rw [stars, glob?_ofGlob]

theorem concrete_ofGlob {scope : GlobScope} {pattern : String} :
    (ofGlob scope pattern).Concrete ↔ '*' ∉ pattern.toList := by
  cases scope <;> simp [Concrete, string?, ofGlob, glob?]

/-- A glob capability grants what it matches in its own scope. -/
theorem matches_ofGlob {scope : GlobScope} {pattern : String} {r : Capability} :
    capabilityMatches (ofGlob scope pattern) r = true ↔
      ∃ value, r = ofGlob scope value ∧ globMatches pattern value = true := by
  cases scope <;> cases r <;> simp [ofGlob, capabilityMatches]

/-- Only a glob capability of the same scope grants a glob capability. -/
theorem matches_to_glob {scope : GlobScope} {value : String} {g : Capability}
    (h : capabilityMatches g (ofGlob scope value) = true) :
    ∃ pattern, g = ofGlob scope pattern ∧ globMatches pattern value = true := by
  cases hg : g.glob? with
  | some found =>
      obtain ⟨scope', pattern⟩ := found
      obtain rfl := glob?_eq_some.mp hg
      obtain ⟨value', hvalue, hmatch⟩ := matches_ofGlob.mp h
      have hsame := congrArg glob? hvalue
      rw [glob?_ofGlob, glob?_ofGlob] at hsame
      obtain ⟨rfl, rfl⟩ := Prod.mk.inj (Option.some.inj hsame)
      exact ⟨pattern, rfl, hmatch⟩
  | none => cases g <;> cases scope <;> simp [glob?, ofGlob, capabilityMatches] at hg h

/-- Outside the glob scopes a grant is passed on. -/
theorem matches_trans_of_not_glob {p c r : Capability} (hc : c.glob? = none)
    (hpc : capabilityMatches p c = true) (hcr : capabilityMatches c r = true) :
    capabilityMatches p r = true := by
  cases c with
  | toolInvoke id =>
      cases r with
      | toolInvoke requested =>
          have hid : id = requested ∨ id = "*" := by simpa [capabilityMatches] using hcr
          cases p with
          | toolAll => rfl
          | toolInvoke granted =>
              have hgranted : granted = id ∨ granted = "*" := by
                simpa [capabilityMatches] using hpc
              simp only [capabilityMatches, Bool.or_eq_true, beq_iff_eq]
              rcases hgranted with rfl | rfl
              · exact hid
              · exact .inr rfl
          | _ => simp [capabilityMatches] at hpc
      | _ => simp [capabilityMatches] at hcr
  | econSpend max =>
      cases r with
      | econSpend amount =>
          cases p with
          | econSpend granted => exact F64.ge_trans hpc hcr
          | _ => simp [capabilityMatches] at hpc
      | _ => simp [capabilityMatches] at hcr
  | llmMaxTokens max =>
      cases r with
      | llmMaxTokens amount =>
          cases p with
          | llmMaxTokens granted =>
              simp only [capabilityMatches, decide_eq_true_eq] at hpc hcr ⊢
              exact UInt64.le_trans hcr hpc
          | _ => simp [capabilityMatches] at hpc
      | _ => simp [capabilityMatches] at hcr
  | netListen port =>
      cases r with
      | netListen requested =>
          obtain rfl : port = requested := by simpa [capabilityMatches] using hcr
          exact hpc
      | _ => simp [capabilityMatches] at hcr
  | toolAll => cases p <;> simp [capabilityMatches] at hpc
  | agentSpawn => cases r <;> simp [capabilityMatches] at hcr; exact hpc
  | ofpDiscover => cases r <;> simp [capabilityMatches] at hcr; exact hpc
  | ofpAdvertise => cases r <;> simp [capabilityMatches] at hcr; exact hpc
  | econEarn => cases r <;> simp [capabilityMatches] at hcr; exact hpc
  | _ => simp [glob?] at hc

end Capability

end ArmaraOS
