import ArmaraOS.Lib.Machine
import ArmaraOS.Types.F64
import Mathlib.Algebra.Order.Ring.Nat

/-!
The provider circuit breaker (`openfang-runtime/src/auth_cooldown.rs`) and the probes that it
lets through.

An `Instant` is a number of nanoseconds, a `Duration` a difference of two. The product of a
base with a power of a multiplier, which the source computes in `f64`, is the parameter
`scaled`; nothing depends on its values. `check` only reads: between two results recorded for
a provider it gives every request of one moment the same verdict, so a tripped circuit lets
through as many probes as there are checks from the moment on at which the first is due.
-/

namespace ArmaraOS.Runtime

open ArmaraOS.Lib

/-- `CooldownConfig`. -/
structure CooldownConfig where
  baseCooldownSecs : Nat
  maxCooldownSecs : Nat
  backoffMultiplier : F64
  maxExponent : Nat
  billingBaseCooldownSecs : Nat
  billingMaxCooldownSecs : Nat
  billingMultiplier : F64
  failureWindowSecs : Nat
  probeEnabled : Bool
  probeIntervalSecs : Nat

/-- `CircuitState`. -/
inductive CircuitState where
  | closed
  | open
  | halfOpen
deriving DecidableEq

/-- `ProviderState`. -/
structure ProviderState where
  errorCount : Nat := 0
  isBilling : Bool := false
  cooldownStart : Option Nat := none
  cooldownDuration : Nat := 0
  lastProbe : Option Nat := none
  totalErrorsInWindow : Nat := 0
  windowStart : Option Nat := none
deriving DecidableEq

/-- `CooldownVerdict`. -/
inductive CooldownVerdict where
  | allow
  | allowProbe
  | reject (reason : String) (retryAfterSecs : Nat)
deriving DecidableEq

/-- `Duration::from_secs`. -/
def fromSecs (secs : Nat) : Nat := secs * 1000000000

/-- `Duration::as_secs`. -/
def asSecs (duration : Nat) : Nat := duration / 1000000000

/-- `n.saturating_add(1)` of a `u32`. -/
def saturatingSucc (n : Nat) : Nat := min (n + 1) 4294967295

/-- `ProviderCooldown`, with the time at which it was used last. -/
structure ProviderCooldown where
  now : Nat
  states : String → Option ProviderState

/-- The calls of the methods that read or write the states of the providers. -/
inductive CooldownOp where
  | check (provider : String)
  | recordSuccess (provider : String)
  | recordFailure (provider : String) (isBilling : Bool)
  | recordProbeResult (provider : String) (success : Bool)
  | clearExpired
  | forceReset (provider : String)
  | advanceProfile (provider failedProfile : String) (isBilling : Bool)
deriving DecidableEq

section Model

variable (scaled : Nat → F64 → Nat → Nat) (cfg : CooldownConfig)

/-- `calculate_cooldown`. -/
def calculateCooldown (errorCount : Nat) (isBilling : Bool) : Nat :=
  if isBilling then
    let exponent := min (errorCount - 1) 10
    let secs := scaled cfg.billingBaseCooldownSecs cfg.billingMultiplier exponent
    fromSecs (min secs cfg.billingMaxCooldownSecs)
  else
    let exponent := min (errorCount - 1) cfg.maxExponent
    let secs := scaled cfg.baseCooldownSecs cfg.backoffMultiplier exponent
    fromSecs (min secs cfg.maxCooldownSecs)

/-- `ProviderCooldown::check`, on the state of the provider. -/
def checkState (now : Nat) (state : ProviderState) : CooldownVerdict :=
  match state.cooldownStart with
  | none => .allow
  | some cooldownStart =>
      let elapsed := now - cooldownStart
      if elapsed < state.cooldownDuration then
        let remaining := state.cooldownDuration - elapsed
        let probeOk :=
          match state.lastProbe with
          | some last => decide (fromSecs cfg.probeIntervalSecs ≤ now - last)
          | none => true
        if cfg.probeEnabled && probeOk then .allowProbe
        else
          let reason :=
            if state.isBilling then s!"billing cooldown ({state.errorCount} errors)"
            else s!"error cooldown ({state.errorCount} errors)"
          .reject reason (asSecs remaining)
      else .allowProbe

/-- `ProviderCooldown::check`. -/
def ProviderCooldown.check (pc : ProviderCooldown) (now : Nat) (provider : String) :
    CooldownVerdict :=
  match pc.states provider with
  | none => .allow
  | some state => checkState cfg now state

/-- `ProviderCooldown::get_state`. -/
def ProviderCooldown.getState (pc : ProviderCooldown) (now : Nat) (provider : String) :
    CircuitState :=
  match pc.states provider with
  | none => .closed
  | some state =>
      match state.cooldownStart with
      | none => .closed
      | some cooldownStart =>
          if now - cooldownStart < state.cooldownDuration then .open
          else if 0 < state.errorCount then .halfOpen
          else .closed

/-- The update of `record_success`. -/
def ProviderState.succeed (state : ProviderState) : ProviderState :=
  { state with
    errorCount := 0
    isBilling := false
    cooldownStart := none
    cooldownDuration := 0
    lastProbe := none }

/-- The failure window of `record_failure`. -/
def ProviderState.window (now : Nat) (state : ProviderState) : ProviderState :=
  match state.windowStart with
  | some start =>
      if fromSecs cfg.failureWindowSecs ≤ now - start then
        { state with totalErrorsInWindow := 0, windowStart := some now }
      else state
  | none => { state with windowStart := some now }

/-- The part of the update that `record_failure` and `advance_profile` share. -/
def ProviderState.cool (now : Nat) (isBilling : Bool) (state : ProviderState) : ProviderState :=
  let errorCount := saturatingSucc state.errorCount
  { state with
    errorCount := errorCount
    isBilling := isBilling
    cooldownStart := some now
    cooldownDuration := calculateCooldown scaled cfg errorCount isBilling }

/-- The update of `record_failure`. -/
def ProviderState.fail (now : Nat) (isBilling : Bool) (state : ProviderState) : ProviderState :=
  let windowed := state.window cfg now
  ProviderState.cool scaled cfg now isBilling
    { windowed with totalErrorsInWindow := saturatingSucc windowed.totalErrorsInWindow }

/-- The update of `record_probe_result` for a failed probe. -/
def ProviderState.failProbe (now : Nat) (state : ProviderState) : ProviderState :=
  { ProviderState.cool scaled cfg now state.isBilling state with lastProbe := some now }

/-- The entry that `clear_expired` removes. -/
def ProviderState.isExpired (now : Nat) (state : ProviderState) : Bool :=
  match state.cooldownStart with
  | some start => decide (state.cooldownDuration ≤ now - start) && state.errorCount == 0
  | none => false

/-- The key of an auth profile. -/
def profileKey (provider failedProfile : String) : String := s!"{provider}::{failedProfile}"

/-- The states of the providers after a call at `now`. -/
def nextStates (now : Nat) (states : String → Option ProviderState) :
    CooldownOp → String → Option ProviderState
  | .check _ => states
  | .recordSuccess provider =>
      Function.update states provider ((states provider).map ProviderState.succeed)
  | .recordFailure provider isBilling =>
      Function.update states provider
        (some (((states provider).getD {}).fail scaled cfg now isBilling))
  | .recordProbeResult provider success =>
      Function.update states provider ((states provider).map
        (if success then ProviderState.succeed else ProviderState.failProbe scaled cfg now))
  | .clearExpired => fun provider => (states provider).filter fun s => !s.isExpired now
  | .forceReset provider => Function.update states provider none
  | .advanceProfile provider failedProfile isBilling =>
      Function.update states (profileKey provider failedProfile)
        (some (((states (profileKey provider failedProfile)).getD {}).cool scaled cfg now isBilling))

/-- A call at a time. -/
def ProviderCooldown.step (pc : ProviderCooldown) (call : Nat × CooldownOp) : ProviderCooldown :=
  { now := call.1, states := nextStates scaled cfg call.1 pc.states call.2 }

/-- `ProviderCooldown::new`, at time `now`. -/
def ProviderCooldown.new (now : Nat) : ProviderCooldown := { now := now, states := fun _ => none }

/-- Time does not run backwards. -/
def InOrder (pc : ProviderCooldown) (call : Nat × CooldownOp) : Prop := pc.now ≤ call.1

/-- The verdicts that the checks of `provider` get in a run. -/
def verdicts (provider : String) (pc : ProviderCooldown) :
    List (Nat × CooldownOp) → List CooldownVerdict
  | [] => []
  | (now, .check p) :: calls =>
      let rest := verdicts provider (pc.step scaled cfg (now, .check p)) calls
      if p = provider then pc.check cfg now provider :: rest else rest
  | call :: calls => verdicts provider (pc.step scaled cfg call) calls

end Model

instance (pc : ProviderCooldown) (call : Nat × CooldownOp) : Decidable (InOrder pc call) :=
  inferInstanceAs (Decidable (_ ≤ _))

/-- The times of the checks of `provider` among the calls. -/
def checkTimes (provider : String) (calls : List (Nat × CooldownOp)) : List Nat :=
  calls.filterMap fun call => if call.2 = .check provider then some call.1 else none

/-- The call records no result for `provider` and does not reset it. -/
def LeavesAlone (provider : String) : CooldownOp → Prop
  | .check _ => True
  | .recordSuccess p => p ≠ provider
  | .recordFailure p _ => p ≠ provider
  | .recordProbeResult p _ => p ≠ provider
  | .clearExpired => True
  | .forceReset p => p ≠ provider
  | .advanceProfile p profile _ => profileKey p profile ≠ provider

instance (provider : String) (op : CooldownOp) : Decidable (LeavesAlone provider op) := by
  cases op <;> unfold LeavesAlone <;> infer_instance

/-- At most one probe is let through, and all other requests are rejected. -/
def OneProbe (vs : List CooldownVerdict) : Prop :=
  vs.countP (fun v => decide (v = .allowProbe)) ≤ 1 ∧
    ∀ v ∈ vs, v = .allowProbe ∨ ∃ reason secs, v = .reject reason secs

/-- The instant from which on a check of a tripped circuit gets a probe: the end of the
cooldown or, before that, the probe interval after the last failed probe. -/
def probeDueAt (cfg : CooldownConfig) (state : ProviderState) : Nat :=
  min (state.cooldownStart.getD 0 + state.cooldownDuration)
    (match state.lastProbe with
      | some last => last + fromSecs cfg.probeIntervalSecs
      | none => 0)

/-! ### States -/

/-- What a recorded state says of the past. -/
structure StateSound (now : Nat) (state : ProviderState) : Prop where
  start_le : ∀ start, state.cooldownStart = some start → start ≤ now
  probe_le : ∀ last, state.lastProbe = some last → last ≤ now
  counted : state.cooldownStart.isSome → 0 < state.errorCount

/-- Every recorded state is sound. -/
def Sound (pc : ProviderCooldown) : Prop :=
  ∀ provider state, pc.states provider = some state → StateSound pc.now state

section Proofs

variable {scaled : Nat → F64 → Nat → Nat} {cfg : CooldownConfig}

theorem StateSound.later {now now' : Nat} {state : ProviderState} (h : StateSound now state)
    (hle : now ≤ now') : StateSound now' state :=
  ⟨fun start hs => (h.start_le start hs).trans hle,
    fun last hl => (h.probe_le last hl).trans hle, h.counted⟩

theorem stateSound_default (now : Nat) : StateSound now {} :=
  ⟨fun _ h => (nomatch h), fun _ h => (nomatch h), fun h => (nomatch h)⟩

theorem stateSound_succeed (now : Nat) (state : ProviderState) : StateSound now state.succeed :=
  ⟨fun _ h => (nomatch h), fun _ h => (nomatch h), fun h => (nomatch h)⟩

theorem saturatingSucc_pos (n : Nat) : 0 < saturatingSucc n := by
  unfold saturatingSucc
  omega

theorem StateSound.cool {now : Nat} {state : ProviderState}
    (h : ∀ last, state.lastProbe = some last → last ≤ now) (isBilling : Bool) :
    StateSound now (state.cool scaled cfg now isBilling) :=
  ⟨fun _ hs => (Option.some.inj hs).ge, h, fun _ => saturatingSucc_pos _⟩

theorem lastProbe_window (now : Nat) (state : ProviderState) :
    (state.window cfg now).lastProbe = state.lastProbe := by
  unfold ProviderState.window
  split
  · split <;> rfl
  · rfl

theorem StateSound.fail {now : Nat} {state : ProviderState} (h : StateSound now state)
    (isBilling : Bool) : StateSound now (state.fail scaled cfg now isBilling) := by
  apply StateSound.cool
  intro last hlast
  apply h.probe_le
  rwa [← lastProbe_window now state]

theorem stateSound_failProbe (now : Nat) (state : ProviderState) :
    StateSound now (state.failProbe scaled cfg now) :=
  ⟨fun _ hs => (Option.some.inj hs).ge, fun _ hl => (Option.some.inj hl).ge,
    fun _ => saturatingSucc_pos _⟩

theorem sound_update {now : Nat} {states : String → Option ProviderState} {p : String}
    {new : Option ProviderState}
    (h : ∀ provider state, states provider = some state → StateSound now state)
    (hnew : ∀ state, new = some state → StateSound now state) :
    ∀ provider state, Function.update states p new provider = some state →
      StateSound now state := by
  intro provider state hstate
  by_cases hp : provider = p
  · subst hp
    rw [Function.update_self] at hstate
    exact hnew state hstate
  · rw [Function.update_of_ne hp] at hstate
    exact h provider state hstate

theorem stateSound_getD {now : Nat} {found : Option ProviderState}
    (h : ∀ state, found = some state → StateSound now state) :
    StateSound now (found.getD {}) := by
  cases found with
  | none => exact stateSound_default now
  | some state => exact h state rfl

/-- A call keeps the states sound. -/
theorem sound_step {pc : ProviderCooldown} {call : Nat × CooldownOp} (h : Sound pc)
    (horder : InOrder pc call) : Sound (pc.step scaled cfg call) := by
  have hlater : ∀ provider state, pc.states provider = some state → StateSound call.1 state :=
    fun provider state hstate => (h provider state hstate).later horder
  obtain ⟨now, op⟩ := call
  cases op with
  | check p => exact hlater
  | recordSuccess p =>
      refine sound_update hlater fun state hstate => ?_
      obtain ⟨old, -, rfl⟩ := Option.map_eq_some_iff.mp hstate
      exact stateSound_succeed now old
  | recordFailure p isBilling =>
      refine sound_update hlater fun state hstate => ?_
      obtain rfl := Option.some.inj hstate
      exact (stateSound_getD (hlater p)).fail isBilling
  | recordProbeResult p success =>
      refine sound_update hlater fun state hstate => ?_
      obtain ⟨old, -, rfl⟩ := Option.map_eq_some_iff.mp hstate
      cases success with
      | true => exact stateSound_succeed now old
      | false => exact stateSound_failProbe now old
  | clearExpired =>
      intro provider state hstate
      exact hlater provider state (Option.filter_eq_some_iff.mp hstate).1
  | forceReset p => exact sound_update hlater fun state hstate => nomatch hstate
  | advanceProfile p profile isBilling =>
      refine sound_update hlater fun state hstate => ?_
      obtain rfl := Option.some.inj hstate
      exact StateSound.cool (stateSound_getD (hlater _)).probe_le isBilling

theorem sound_new (now : Nat) : Sound (.new now) := fun _ _ h => nomatch h

/-- A call that leaves a provider alone leaves its tripped state as it is. -/
theorem states_step_of_leavesAlone {pc : ProviderCooldown} {call : Nat × CooldownOp}
    {provider : String} {state : ProviderState} (hstate : pc.states provider = some state)
    (htripped : state.cooldownStart.isSome) (hsound : StateSound pc.now state)
    (halone : LeavesAlone provider call.2) :
    (pc.step scaled cfg call).states provider = some state := by
  obtain ⟨now, op⟩ := call
  cases op with
  | check p => exact hstate
  | recordSuccess p => exact (Function.update_of_ne (Ne.symm halone) _ _).trans hstate
  | recordFailure p isBilling => exact (Function.update_of_ne (Ne.symm halone) _ _).trans hstate
  | recordProbeResult p success => exact (Function.update_of_ne (Ne.symm halone) _ _).trans hstate
  | clearExpired =>
      have hkept : state.isExpired now = false := by
        have hcount := hsound.counted htripped
        unfold ProviderState.isExpired
        split
        · simp [hcount.ne']
        · rfl
      change (pc.states provider).filter _ = some state
      rw [hstate]
      simp [Option.filter, hkept]
  | forceReset p => exact (Function.update_of_ne (Ne.symm halone) _ _).trans hstate
  | advanceProfile p profile isBilling =>
      exact (Function.update_of_ne (Ne.symm halone) _ _).trans hstate

/-! ### Verdicts -/

/-- A circuit that is open or half open has a cooldown. -/
theorem isSome_of_getState {pc : ProviderCooldown} {now : Nat} {provider : String}
    {state : ProviderState} (hstate : pc.states provider = some state)
    (htripped : pc.getState now provider ≠ .closed) : state.cooldownStart.isSome := by
  rw [ProviderCooldown.getState, hstate] at htripped
  cases hstart : state.cooldownStart with
  | some start => rfl
  | none => simp [hstart] at htripped

/-- A check of a tripped circuit gets a probe from the instant on at which one is due, and is
rejected before. -/
theorem checkState_tripped {now : Nat} {state : ProviderState} (hprobe : cfg.probeEnabled = true)
    (htripped : state.cooldownStart.isSome) (hsound : StateSound now state) :
    if probeDueAt cfg state ≤ now then checkState cfg now state = .allowProbe
    else ∃ reason secs, checkState cfg now state = .reject reason secs := by
  obtain ⟨start, hstart⟩ := Option.isSome_iff_exists.mp htripped
  have hle := hsound.start_le start hstart
  unfold checkState probeDueAt
  rw [hstart, hprobe]
  dsimp only [Option.getD_some]
  by_cases hopen : now - start < state.cooldownDuration
  · rw [if_pos hopen]
    cases hlast : state.lastProbe with
    | none =>
        rw [if_pos (Nat.le_trans (Nat.min_le_right _ _) (Nat.zero_le now))]
        rfl
    | some last =>
        have hpast := hsound.probe_le last hlast
        dsimp only
        by_cases hdue : fromSecs cfg.probeIntervalSecs ≤ now - last
        · rw [if_pos (by omega)]
          simp [hdue]
        · rw [if_neg (by omega)]
          simp [hdue]
  · rw [if_neg hopen, if_pos]
    have hend : start + state.cooldownDuration ≤ now := by omega
    exact (Nat.min_le_left _ _).trans hend

/-- The verdicts of a run that leaves a tripped provider alone are those of its state at the
times of the checks. -/
theorem verdicts_eq {provider : String} {state : ProviderState}
    (htripped : state.cooldownStart.isSome) {calls : List (Nat × CooldownOp)} :
    ∀ {pc : ProviderCooldown}, Sound pc → pc.states provider = some state →
      Guarded (ProviderCooldown.step scaled cfg) InOrder pc calls →
      (∀ call ∈ calls, LeavesAlone provider call.2) →
      verdicts scaled cfg provider pc calls =
        (checkTimes provider calls).map fun now => checkState cfg now state := by
  induction calls with
  | nil => intros; rfl
  | cons call calls ih =>
      intro pc hsound hstate horder halone
      have hstate' : (pc.step scaled cfg call).states provider = some state :=
        states_step_of_leavesAlone hstate htripped (hsound provider state hstate)
          (halone call List.mem_cons_self)
      have hrest := ih (sound_step hsound horder.1) hstate' horder.2
        fun c hc => halone c (List.mem_cons_of_mem _ hc)
      obtain ⟨now, op⟩ := call
      cases op with
      | check p =>
          rw [verdicts, checkTimes, List.filterMap_cons]
          dsimp only
          by_cases hp : p = provider
          · subst hp
            rw [if_pos rfl, if_pos rfl, hrest, ProviderCooldown.check, hstate]
            rfl
          · have hother : CooldownOp.check p ≠ .check provider := by simpa using hp
            rw [if_neg hp, if_neg hother, hrest]
            rfl
      | _ => exact hrest

/-- The times at which a tripped circuit is checked, none before the state was recorded. -/
theorem le_of_mem_checkTimes {provider : String} {calls : List (Nat × CooldownOp)} :
    ∀ {pc : ProviderCooldown}, Guarded (ProviderCooldown.step scaled cfg) InOrder pc calls →
      ∀ t ∈ checkTimes provider calls, pc.now ≤ t := by
  induction calls with
  | nil =>
      intro pc _ t ht
      cases ht
  | cons call calls ih =>
      intro pc horder t ht
      have hhead : pc.now ≤ call.1 := horder.1
      rw [checkTimes, List.filterMap_cons] at ht
      have hrest : ∀ t ∈ checkTimes provider calls, pc.now ≤ t :=
        fun t ht => hhead.trans (ih horder.2 t ht)
      by_cases hcheck : call.2 = .check provider
      · rw [if_pos hcheck] at ht
        rcases List.mem_cons.mp ht with rfl | ht
        · exact hhead
        · exact hrest t ht
      · rw [if_neg hcheck] at ht
        exact hrest t ht

/-- **One probe exactly if one check is due.** In every reachable state of a breaker with
probes enabled, let the circuit of a provider be tripped, and let any calls follow that record
nothing for it. At most one of its checks is let through as a probe, all others being
rejected, if and only if at most one of them comes at or after the instant at which a probe is
due. -/
theorem single_probe_iff (hprobe : cfg.probeEnabled = true) (start : Nat)
    (history calls : List (Nat × CooldownOp)) (provider : String) (state : ProviderState)
    (hhistory : Guarded (ProviderCooldown.step scaled cfg) InOrder (.new start) history)
    (hstate : (runOps (ProviderCooldown.step scaled cfg) (.new start) history).states provider =
      some state)
    (htripped : (runOps (ProviderCooldown.step scaled cfg) (.new start) history).getState
      (runOps (ProviderCooldown.step scaled cfg) (.new start) history).now provider ≠ .closed)
    (hcalls : Guarded (ProviderCooldown.step scaled cfg) InOrder
      (runOps (ProviderCooldown.step scaled cfg) (.new start) history) calls)
    (halone : ∀ call ∈ calls, LeavesAlone provider call.2) :
    OneProbe (verdicts scaled cfg provider
        (runOps (ProviderCooldown.step scaled cfg) (.new start) history) calls) ↔
      (checkTimes provider calls).countP (fun t => decide (probeDueAt cfg state ≤ t)) ≤ 1 := by
  have hsound : Sound (runOps (ProviderCooldown.step scaled cfg) (.new start) history) :=
    runOps_invariant (fun _ _ hpc hcall => sound_step hpc hcall) (sound_new start) hhistory
  replace htripped := isSome_of_getState hstate htripped
  have hverdict : ∀ t ∈ checkTimes provider calls,
      if probeDueAt cfg state ≤ t then checkState cfg t state = .allowProbe
      else ∃ reason secs, checkState cfg t state = .reject reason secs := by
    intro t ht
    refine checkState_tripped hprobe htripped ((hsound provider state hstate).later ?_)
    exact le_of_mem_checkTimes hcalls t ht
  have hcount : (verdicts scaled cfg provider
      (runOps (ProviderCooldown.step scaled cfg) (.new start) history) calls).countP
        (fun v => decide (v = .allowProbe)) =
      (checkTimes provider calls).countP (fun t => decide (probeDueAt cfg state ≤ t)) := by
    rw [verdicts_eq htripped hsound hstate hcalls halone, List.countP_map]
    apply List.countP_congr
    intro t ht
    have h := hverdict t ht
    simp only [Function.comp_apply, decide_eq_true_eq]
    split at h
    · next hdue => exact iff_of_true h hdue
    · next hdue =>
        obtain ⟨reason, secs, hreject⟩ := h
        exact iff_of_false (by simp [hreject]) hdue
  rw [OneProbe, hcount, and_iff_left_iff_imp]
  intro _ v hv
  rw [verdicts_eq htripped hsound hstate hcalls halone] at hv
  obtain ⟨t, ht, rfl⟩ := List.mem_map.mp hv
  have h := hverdict t ht
  split at h
  · exact .inl h
  · exact .inr h

end Proofs

/-! ### One provider -/

/-- `CooldownConfig::default`, with its two multipliers 5 and 2. -/
def defaultConfig : CooldownConfig where
  baseCooldownSecs := 60
  maxCooldownSecs := 3600
  backoffMultiplier := ⟨0x4014000000000000#64⟩
  maxExponent := 3
  billingBaseCooldownSecs := 18000
  billingMaxCooldownSecs := 86400
  billingMultiplier := ⟨0x4000000000000000#64⟩
  failureWindowSecs := 86400
  probeEnabled := true
  probeIntervalSecs := 30

/-- The products for the multiplier 5. -/
def scaledByFive (base : Nat) (_ : F64) (exponent : Nat) : Nat := base * 5 ^ exponent

/-- After a failed probe only the check behind the probe interval is let through. -/
theorem single_probe_iff_spaced :
    OneProbe (verdicts scaledByFive defaultConfig "openai"
      (runOps (ProviderCooldown.step scaledByFive defaultConfig) (.new 0)
        [(0, .recordFailure "openai" false), (fromSecs 1, .recordProbeResult "openai" false)])
      [(fromSecs 2, .check "openai"), (fromSecs 30, .check "openai"),
        (fromSecs 31, .check "openai")]) :=
  (single_probe_iff rfl 0
    [(0, .recordFailure "openai" false), (fromSecs 1, .recordProbeResult "openai" false)]
    [(fromSecs 2, .check "openai"), (fromSecs 30, .check "openai"),
      (fromSecs 31, .check "openai")]
    "openai"
    { errorCount := 2
      cooldownStart := some (fromSecs 1)
      cooldownDuration := fromSecs 300
      lastProbe := some (fromSecs 1)
      totalErrorsInWindow := 1
      windowStart := some 0 }
    (by decide +kernel) (by decide +kernel) (by decide +kernel) (by decide +kernel)
    (by decide +kernel)).mpr (by decide +kernel)

/-- **Two probes.** Two requests check a provider one second after its first failure. -/
theorem two_probes_allowed :
    verdicts scaledByFive defaultConfig "openai"
      (runOps (ProviderCooldown.step scaledByFive defaultConfig) (.new 0)
        [(0, .recordFailure "openai" false)])
      [(fromSecs 1, .check "openai"), (fromSecs 1, .check "openai")] =
        [.allowProbe, .allowProbe] ∧
      ¬ OneProbe [.allowProbe, .allowProbe] := by
  refine ⟨by decide +kernel, fun h => ?_⟩
  have hcount := h.1
  revert hcount
  decide

end ArmaraOS.Runtime
