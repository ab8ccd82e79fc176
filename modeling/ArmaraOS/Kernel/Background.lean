import ArmaraOS.Kernel.Manifest
import ArmaraOS.Lib.Fields
import ArmaraOS.Lib.Machine
import ArmaraOS.Lib.Overlap

/-!
Background loops of autonomous agents (`openfang-kernel/src/background.rs`).

A loop is a task that goes from one await to the next: it sleeps until its interval is over or the
shutdown signal comes, looks at its busy flag, waits for a permit and sends its prompt. A watcher
waits for the end of the prompt, drops the permit and then clears the flag. An aborted loop is
cancelled at an await; it may be on its way to one. A permit may go to any loop that waits, and the
random choice of `select!` is left open where both branches are ready.
-/

namespace ArmaraOS.Kernel

open ArmaraOS.Agent ArmaraOS.Lib
open ArmaraOS.Kernel.Agents (ScheduleMode stripPrefix)
open ArmaraOS.Text (trim)

/-! ### Schedules -/

/-- `str::parse::<u64>`. -/
def parseU64 (s : String) : Option Nat :=
  let digits :=
    match s.toList with
    | '+' :: digits => digits
    | digits => digits
  (digitsValue digits).filter fun n => decide (n < 2 ^ 64)

/-- The number before a unit. -/
def numberOf (unit : Char) (rest : String) : Option Nat :=
  if rest.toList.getLast? = some unit then
    parseU64 (trim (String.ofList rest.toList.dropLast))
  else none

/-- `parse_cron_to_secs`. A product may wrap around. -/
def parseCronToSecs (lib : Library) (cron : String) : Nat :=
  match stripPrefix (lib.toLowercase (trim cron)) "every " with
  | none => 300
  | some rest =>
      let rest := trim rest
      match numberOf 's' rest, numberOf 'm' rest, numberOf 'h' rest, numberOf 'd' rest with
      | some n, _, _, _ => n
      | none, some n, _, _ => n * 60 % 2 ^ 64
      | none, none, some n, _ => n * 3600 % 2 ^ 64
      | none, none, none, some n => n * 86400 % 2 ^ 64
      | none, none, none, none => 300

/-! ### Loops and watchers -/

/-- Where a loop is. -/
inductive LoopPlace where
  /-- It is about to look at its busy flag. -/
  | ready
  /-- It waits for a permit. -/
  | waiting
  /-- It is in `select!`, which it entered after the shutdown signal or before it. -/
  | sleeping (late : Bool)
  | ended
deriving DecidableEq

/-- The task of a loop, with its busy flag. -/
structure BackgroundLoop where
  agentId : String
  prompt : String
  intervalSecs : Nat
  place : LoopPlace
  busy : Bool
  aborted : Bool

/-- The watcher of a prompt that a loop has sent, and whether it has dropped the permit. -/
structure PromptWatcher where
  loop : Nat
  released : Bool

/-- An entry of `tasks`: the place of an agent's loop in the order of starting. -/
structure BackgroundTask where
  agentId : String
  loop : Nat

/-- `BackgroundExecutor`, with the loops, the watchers and the loops that have sent the prompts so
far. -/
structure BackgroundExecutor where
  tasks : Table BackgroundTask.agentId
  permits : Nat
  shutdown : Bool
  loops : List BackgroundLoop
  watchers : List PromptWatcher
  sent : List Nat

/-- `MAX_CONCURRENT_BG_LLM`. -/
def maxConcurrentBgLlm : Nat := 5

/-- `BackgroundExecutor::new`. -/
def BackgroundExecutor.new : BackgroundExecutor :=
  ⟨.empty, maxConcurrentBgLlm, false, [], [], []⟩

/-- `start_agent`, `stop_agent`, the shutdown signal, or what a loop or the watcher at a place
does next. -/
inductive BackgroundOp where
  | startAgent (agentId name : String) (schedule : ScheduleMode)
  | stopAgent (agentId : String)
  | shutdown
  /-- The interval is over. -/
  | tick (loop : Nat)
  /-- The shutdown signal has come. -/
  | wake (loop : Nat)
  /-- It looks at its busy flag. -/
  | look (loop : Nat)
  /-- It has a permit and sends its prompt. -/
  | send (loop : Nat)
  /-- It was aborted and is cancelled. -/
  | cancel (loop : Nat)
  /-- The prompt is done, and the watcher drops the permit. -/
  | release (place : Nat)
  /-- The watcher clears the busy flag. -/
  | clear (place : Nat)

/-! ### Steps -/

namespace BackgroundLoop

/-- In the loop's `select!`, the interval may end the sleep. -/
def canTick (l : BackgroundLoop) : Bool :=
  match l.place with
  | .sleeping late => !l.aborted && (!late || l.intervalSecs == 0)
  | _ => false

/-- It enters `select!`. -/
def sleep (shutdown : Bool) (l : BackgroundLoop) : BackgroundLoop :=
  { l with place := .sleeping shutdown }

end BackgroundLoop

namespace BackgroundExecutor

/-- A loop does its next step. -/
def advance (s : BackgroundExecutor) (loop : Nat) (f : BackgroundLoop → BackgroundLoop) :
    BackgroundExecutor :=
  { s with loops := s.loops.modify loop f }

/-- The loop of a schedule starts, at its first await or before it. -/
def spawn (s : BackgroundExecutor) (agentId prompt : String) (intervalSecs : Nat)
    (place : LoopPlace) : BackgroundExecutor :=
  { s with
    tasks := s.tasks.insert ⟨agentId, s.loops.length⟩
    loops := s.loops ++ [⟨agentId, prompt, intervalSecs, place, false, false⟩] }

/-- `start_agent`. -/
def startAgent (lib : Library) (s : BackgroundExecutor) (agentId name : String) :
    ScheduleMode → BackgroundExecutor
  | .reactive => s
  | .continuous checkIntervalSecs =>
      s.spawn agentId ("[AUTONOMOUS TICK] You are running in continuous mode. " ++
        "Check your goals, review shared memory for pending tasks, " ++
        "and take any necessary actions. Agent: " ++ name) checkIntervalSecs .ready
  | .periodic cron =>
      s.spawn agentId ("[SCHEDULED TICK] You are running on a periodic schedule (" ++ cron ++
        "). Perform your routine duties. Agent: " ++ name) (parseCronToSecs lib cron)
        (.sleeping s.shutdown)
  | .proactive _ => s

/-- `stop_agent`. -/
def stopAgent (s : BackgroundExecutor) (agentId : String) : BackgroundExecutor :=
  match s.tasks.find agentId with
  | none => s
  | some task =>
      { s with tasks := s.tasks.erase agentId }.advance task.loop fun l =>
        { l with aborted := true }

end BackgroundExecutor

/-- The effect of a step; one that cannot be taken changes nothing. -/
def backgroundStep (lib : Library) (s : BackgroundExecutor) : BackgroundOp → BackgroundExecutor
  | .startAgent agentId name schedule => s.startAgent lib agentId name schedule
  | .stopAgent agentId => s.stopAgent agentId
  | .shutdown => { s with shutdown := true }
  | .tick loop => s.advance loop fun l => if l.canTick then { l with place := .ready } else l
  | .wake loop => s.advance loop fun l =>
      match l.place with
      | .sleeping _ => if s.shutdown then { l with place := .ended } else l
      | _ => l
  | .look loop => s.advance loop fun l =>
      if l.place ≠ .ready then l
      else if l.busy then l.sleep s.shutdown
      else { l with place := .waiting, busy := true }
  | .send loop =>
      match s.loops[loop]? with
      | none => s
      | some l =>
          if l.place = .waiting ∧ 0 < s.permits then
            { s with
              permits := s.permits - 1
              watchers := ⟨loop, false⟩ :: s.watchers
              sent := loop :: s.sent }.advance loop (BackgroundLoop.sleep s.shutdown)
          else s
  | .cancel loop => s.advance loop fun l =>
      match l.place with
      | .sleeping _ | .waiting => if l.aborted then { l with place := .ended } else l
      | _ => l
  | .release place =>
      match s.watchers[place]? with
      | some ⟨loop, false⟩ =>
          { s with
            permits := s.permits + 1
            watchers := ⟨loop, true⟩ :: s.watchers.eraseIdx place }
      | _ => s
  | .clear place =>
      match s.watchers[place]? with
      | some ⟨loop, true⟩ =>
          { s with watchers := s.watchers.eraseIdx place }.advance loop fun l =>
            { l with busy := false }
      | _ => s

/-! ### What a step can do -/

/-- What a loop does apart from its prompts: it leaves its sleep, goes back to it or asks for a
permit when it has looked at its busy flag, or ends. -/
inductive LoopMove (shutdown : Bool) (l : BackgroundLoop) : BackgroundLoop → Prop where
  | stay : LoopMove shutdown l l
  | tick (hticks : l.canTick = true) : LoopMove shutdown l { l with place := .ready }
  | skip : LoopMove shutdown l (l.sleep shutdown)
  | ask (hready : l.place = .ready) (hidle : l.busy = false) :
      LoopMove shutdown l { l with place := .waiting, busy := true }
  | stop : LoopMove shutdown l { l with place := .ended }

theorem LoopMove.keeps {shutdown : Bool} {l l' : BackgroundLoop} (h : LoopMove shutdown l l') :
    l'.agentId = l.agentId ∧ l'.aborted = l.aborted := by
  cases h with
  | stay | tick | skip | ask | stop => exact ⟨rfl, rfl⟩

/-- What a step makes of the executor. -/
inductive BackgroundMove (s : BackgroundExecutor) : BackgroundExecutor → Prop where
  | stay : BackgroundMove s s
  | spawn (agentId prompt : String) (intervalSecs : Nat) {place : LoopPlace}
      (hplace : place ≠ .waiting) : BackgroundMove s (s.spawn agentId prompt intervalSecs place)
  | abort {agentId : String} {task : BackgroundTask} (hfind : s.tasks.find agentId = some task) :
      BackgroundMove s ({ s with tasks := s.tasks.erase agentId }.advance task.loop fun l =>
        { l with aborted := true })
  | shutdown : BackgroundMove s { s with shutdown := true }
  | move (loop : Nat) {f : BackgroundLoop → BackgroundLoop}
      (hf : ∀ l, LoopMove s.shutdown l (f l)) : BackgroundMove s (s.advance loop f)
  | send {loop : Nat} {l : BackgroundLoop} (hl : s.loops[loop]? = some l)
      (hplace : l.place = .waiting) (hpermits : 0 < s.permits) :
      BackgroundMove s ({ s with
        permits := s.permits - 1
        watchers := ⟨loop, false⟩ :: s.watchers
        sent := loop :: s.sent }.advance loop (BackgroundLoop.sleep s.shutdown))
  | release {place loop : Nat} (hw : s.watchers[place]? = some ⟨loop, false⟩) :
      BackgroundMove s { s with
        permits := s.permits + 1
        watchers := ⟨loop, true⟩ :: s.watchers.eraseIdx place }
  | clear {place loop : Nat} (hw : s.watchers[place]? = some ⟨loop, true⟩) :
      BackgroundMove s ({ s with watchers := s.watchers.eraseIdx place }.advance loop fun l =>
        { l with busy := false })

theorem backgroundStep_cases (lib : Library) (s : BackgroundExecutor) (op : BackgroundOp) :
    BackgroundMove s (backgroundStep lib s op) := by
  cases op with
  | startAgent agentId name schedule =>
      cases schedule with
      | reactive | proactive => exact .stay
      | continuous | periodic => exact .spawn _ _ _ nofun
  | stopAgent agentId =>
      simp only [backgroundStep, BackgroundExecutor.stopAgent]
      split
      · exact .stay
      · rename_i task hfind
        exact .abort hfind
  | shutdown => exact .shutdown
  | tick loop =>
      refine .move loop fun l => ?_
      split
      · rename_i hticks
        exact .tick hticks
      · exact .stay
  | wake loop =>
      refine .move loop fun l => ?_
      split
      · split
        · exact .stop
        · exact .stay
      · exact .stay
  | look loop =>
      refine .move loop fun l => ?_
      split
      · exact .stay
      · rename_i hready
        split
        · exact .skip
        · rename_i hidle
          exact .ask (not_not.mp hready) (Bool.eq_false_of_not_eq_true hidle)
  | send loop =>
      simp only [backgroundStep]
      split
      · exact .stay
      · rename_i l hl
        split
        · rename_i hgranted
          exact .send hl hgranted.1 hgranted.2
        · exact .stay
  | cancel loop =>
      refine .move loop fun l => ?_
      split
      · split
        · exact .stop
        · exact .stay
      · split
        · exact .stop
        · exact .stay
      · exact .stay
  | release place =>
      simp only [backgroundStep]
      split
      · rename_i loop hw
        exact .release hw
      · exact .stay
  | clear place =>
      simp only [backgroundStep]
      split
      · rename_i loop hw
        exact .clear hw
      · exact .stay

/-! ### Permits and prompts in flight -/

/-- The number of prompts of a loop whose watcher is not done. -/
def inFlight (watchers : List PromptWatcher) (loop : Nat) : Nat :=
  watchers.countP fun w => w.loop == loop

/-- The number of watchers that have a permit. -/
def permitsHeld (watchers : List PromptWatcher) : Nat := watchers.countP fun w => !w.released

/-- With so many prompts in flight: a loop with a prompt in flight or waiting for a permit is busy,
and it does not have two of either. -/
def BackgroundLoop.Single (count : Nat) (l : BackgroundLoop) : Prop :=
  count + (if l.place = .waiting then 1 else 0) ≤ if l.busy then 1 else 0

/-- What holds of the permits, the loops and the watchers. -/
structure Throttled (permits : Nat) (loops : List BackgroundLoop)
    (watchers : List PromptWatcher) : Prop where
  permits : permits + permitsHeld watchers = maxConcurrentBgLlm
  known : ∀ w ∈ watchers, w.loop < loops.length
  single : ∀ (loop : Nat) (l : BackgroundLoop), loops[loop]? = some l →
    l.Single (inFlight watchers loop)

theorem inFlight_cons (w : PromptWatcher) (watchers : List PromptWatcher) (loop : Nat) :
    inFlight (w :: watchers) loop = inFlight watchers loop + if w.loop = loop then 1 else 0 := by
  rw [inFlight, List.countP_cons]
  simp only [beq_iff_eq, inFlight]

namespace Throttled

variable {permits : Nat} {loops : List BackgroundLoop} {watchers watchers' : List PromptWatcher}
  {loop : Nat} {f : BackgroundLoop → BackgroundLoop}

/-- A loop does a step, which may open or close one of its prompts. -/
theorem advance_of (h : Throttled permits loops watchers) (hcount : ∀ other ≠ loop,
      inFlight watchers' other = inFlight watchers other)
    (hknown : ∀ w ∈ watchers', w.loop < loops.length) {permits' : Nat}
    (hpermits : permits' + permitsHeld watchers' = maxConcurrentBgLlm)
    (hf : ∀ l, loops[loop]? = some l → l.Single (inFlight watchers loop) →
      (f l).Single (inFlight watchers' loop)) :
    Throttled permits' (loops.modify loop f) watchers' where
  permits := hpermits
  known w hw := by
    rw [List.length_modify]
    exact hknown w hw
  single other l hl := by
    rw [List.getElem?_modify] at hl
    obtain ⟨old, hold, rfl⟩ := Option.map_eq_some_iff.mp hl
    split
    · rename_i heq
      subst heq
      exact hf old hold (h.single _ old hold)
    · rename_i hne
      rw [hcount other (Ne.symm hne)]
      exact h.single other old hold

/-- A loop does a step that leaves its prompts. -/
theorem advance (h : Throttled permits loops watchers)
    (hf : ∀ l n, l.Single n → (f l).Single n) :
    Throttled permits (loops.modify loop f) watchers :=
  h.advance_of (fun _ _ => rfl) h.known h.permits fun l _ hl => hf l _ hl

/-- A loop starts. -/
theorem spawn (h : Throttled permits loops watchers) {l : BackgroundLoop}
    (hplace : l.place ≠ .waiting) : Throttled permits (loops ++ [l]) watchers where
  permits := h.permits
  known w hw := by
    rw [List.length_append]
    exact Nat.lt_of_lt_of_le (h.known w hw) (Nat.le_add_right _ _)
  single other l' hl' := by
    by_cases hlt : other < loops.length
    · rw [List.getElem?_append_left hlt] at hl'
      exact h.single other l' hl'
    · rw [List.getElem?_append_right (Nat.le_of_not_lt hlt)] at hl'
      obtain rfl := List.mem_singleton.mp (List.mem_of_getElem? hl')
      have hnone : inFlight watchers other = 0 := by
        refine List.countP_eq_zero.mpr fun w hw heq => ?_
        exact hlt (beq_iff_eq.mp heq ▸ h.known w hw)
      rw [BackgroundLoop.Single, hnone, if_neg hplace]
      exact Nat.zero_le _

/-- A loop that waits gets a permit and sends its prompt. -/
theorem send (h : Throttled permits loops watchers) {l : BackgroundLoop}
    (hl : loops[loop]? = some l) (hplace : l.place = .waiting) (hpermits : 0 < permits)
    (shutdown : Bool) :
    Throttled (permits - 1) (loops.modify loop (BackgroundLoop.sleep shutdown))
      (⟨loop, false⟩ :: watchers) := by
  refine h.advance_of (fun other hne => ?_) ?_ ?_ fun l' hl' hsingle => ?_
  · rw [inFlight_cons, if_neg (Ne.symm hne)]
    rfl
  · exact List.forall_mem_cons.mpr ⟨(List.getElem?_eq_some_iff.mp hl).1, h.known⟩
  · have hheld : permitsHeld (⟨loop, false⟩ :: watchers) = permitsHeld watchers + 1 :=
      List.countP_cons_of_pos rfl
    have hsum := h.permits
    omega
  · obtain rfl := Option.some.inj (hl.symm.trans hl')
    rw [BackgroundLoop.Single, if_pos hplace] at hsingle
    rw [inFlight_cons, if_pos rfl, BackgroundLoop.sleep, BackgroundLoop.Single, if_neg nofun]
    exact hsingle

/-- A watcher drops its permit. -/
theorem release (h : Throttled permits loops watchers) {place : Nat}
    (hw : watchers[place]? = some ⟨loop, false⟩) :
    Throttled (permits + 1) loops (⟨loop, true⟩ :: watchers.eraseIdx place) := by
  have hperm := perm_cons_eraseIdx hw
  have hcount : ∀ other, inFlight (⟨loop, true⟩ :: watchers.eraseIdx place) other =
      inFlight watchers other := by
    intro other
    rw [inFlight_cons, ← inFlight_cons ⟨loop, false⟩]
    exact (hperm.countP_eq _).symm
  constructor
  case permits =>
    have hheld : permitsHeld watchers = permitsHeld (watchers.eraseIdx place) + 1 := by
      rw [permitsHeld, hperm.countP_eq, List.countP_cons_of_pos rfl]
      rfl
    have hdropped : permitsHeld (⟨loop, true⟩ :: watchers.eraseIdx place) =
        permitsHeld (watchers.eraseIdx place) := List.countP_cons_of_neg Bool.false_ne_true
    have hsum := h.permits
    omega
  case known =>
    refine List.forall_mem_cons.mpr ⟨?_, fun w hmem => h.known w (List.mem_of_mem_eraseIdx hmem)⟩
    exact h.known ⟨loop, false⟩ (List.mem_of_getElem? hw)
  case single =>
    intro other l hl
    rw [hcount]
    exact h.single other l hl

/-- A watcher clears the flag of its loop. -/
theorem clear (h : Throttled permits loops watchers) {place : Nat}
    (hw : watchers[place]? = some ⟨loop, true⟩) :
    Throttled permits (loops.modify loop fun l => { l with busy := false })
      (watchers.eraseIdx place) := by
  have hperm := perm_cons_eraseIdx hw
  have hcount : ∀ other, inFlight watchers other =
      inFlight (watchers.eraseIdx place) other + if loop = other then 1 else 0 := by
    intro other
    rw [← inFlight_cons ⟨loop, true⟩]
    exact hperm.countP_eq _
  refine h.advance_of (fun other hne => ?_) ?_ ?_ fun l hl hsingle => ?_
  · rw [hcount other, if_neg (Ne.symm hne)]
    rfl
  · exact fun w hmem => h.known w (List.mem_of_mem_eraseIdx hmem)
  · have hheld : permitsHeld watchers = permitsHeld (watchers.eraseIdx place) := by
      rw [permitsHeld, hperm.countP_eq, List.countP_cons_of_neg Bool.false_ne_true]
      rfl
    exact hheld ▸ h.permits
  · -- the watcher was the only one, and the loop does not wait
    have hflag : (if l.busy = true then 1 else 0) ≤ 1 := by split <;> decide
    rw [hcount, if_pos rfl, BackgroundLoop.Single] at hsingle
    rw [BackgroundLoop.Single, if_neg Bool.false_ne_true]
    dsimp only
    omega

end Throttled

/-- A loop that leaves a wait, or sets its flag when no prompt of it is in flight. -/
theorem LoopMove.single {shutdown : Bool} {l l' : BackgroundLoop} (h : LoopMove shutdown l l')
    {n : Nat} (hl : l.Single n) : l'.Single n := by
  have hleaves : ∀ place ≠ .waiting, ({ l with place := place } : BackgroundLoop).Single n := by
    intro place hplace
    rw [BackgroundLoop.Single, if_neg hplace]
    exact Nat.le_trans (Nat.le_add_right _ _) hl
  cases h with
  | stay => exact hl
  | tick | skip | stop => exact hleaves _ nofun
  | ask hready hidle =>
      have hnone : n = 0 := by
        rw [BackgroundLoop.Single, hidle, if_neg Bool.false_ne_true] at hl
        omega
      subst hnone
      exact Nat.le_refl 1

/-- **Step.** -/
theorem BackgroundMove.throttled {s s' : BackgroundExecutor} (hs' : BackgroundMove s s')
    (h : Throttled s.permits s.loops s.watchers) :
    Throttled s'.permits s'.loops s'.watchers := by
  cases hs' with
  | stay | shutdown => exact h
  | spawn _ _ _ hplace => exact h.spawn hplace
  | abort => exact h.advance fun _ _ hl => hl
  | move loop hf => exact h.advance fun l n hl => (hf l).single hl
  | send hl hplace hpermits => exact h.send hl hplace hpermits s.shutdown
  | release hw => exact h.release hw
  | clear hw => exact h.clear hw

/-- **Permits.** In every state of every run, at most five prompts have a permit, and the permits
that no prompt has are free; a loop has at most one prompt in flight, and none while it waits for a
permit. -/
theorem background_throttled (lib : Library) (ops : List BackgroundOp) :
    ∀ s ∈ passed (backgroundStep lib) .new ops,
      s.permits + permitsHeld s.watchers = maxConcurrentBgLlm ∧
        ∀ loop, inFlight s.watchers loop ≤ 1 ∧
          ∀ l, s.loops[loop]? = some l → l.place = .waiting → inFlight s.watchers loop = 0 := by
  intro s hs
  have hinit : Throttled maxConcurrentBgLlm [] [] := ⟨rfl, nofun, nofun⟩
  have h : Throttled s.permits s.loops s.watchers :=
    passed_invariant (fun s op h (_ : True) => (backgroundStep_cases lib s op).throttled h) hinit
      (guarded_of_forall (fun _ _ => trivial) _ ops) s hs
  have hsingle : ∀ loop l, s.loops[loop]? = some l →
      inFlight s.watchers loop + (if l.place = .waiting then 1 else 0) ≤ 1 := by
    intro loop l hl
    have hflag : (if l.busy = true then 1 else 0) ≤ 1 := by split <;> decide
    exact Nat.le_trans (h.single loop l hl) hflag
  refine ⟨h.permits, fun loop => ⟨?_, fun l hl hplace => ?_⟩⟩
  · cases hl : s.loops[loop]? with
    | some l => exact Nat.le_trans (Nat.le_add_right _ _) (hsingle loop l hl)
    | none =>
        have hnone : inFlight s.watchers loop = 0 := by
          refine List.countP_eq_zero.mpr fun w hw heq => ?_
          have hlt := h.known w hw
          rw [beq_iff_eq.mp heq] at hlt
          exact Nat.not_lt.mpr (List.getElem?_eq_none_iff.mp hl) hlt
        rw [hnone]
        exact Nat.zero_le 1
  · have hone := hsingle loop l hl
    rw [if_pos hplace] at hone
    omega

/-- A loop that has sent its prompt. -/
def sentRun : List BackgroundOp :=
  [.startAgent "a" "A" (.continuous 60), .look 0, .send 0]

/-- The state after it. -/
def sentOne : BackgroundExecutor :=
  runOps (backgroundStep ⟨id, fun _ => "", fun _ => none, id⟩) .new sentRun

/-- The prompt has one of the five permits. -/
theorem background_throttled_sent :
    sentOne.permits + permitsHeld sentOne.watchers = maxConcurrentBgLlm :=
  (background_throttled ⟨id, fun _ => "", fun _ => none, id⟩ sentRun sentOne
    (mem_passed.mpr ⟨sentRun, List.prefix_rfl, rfl⟩)).1

/-! ### Loops that stop -/

/-- A loop was aborted, or the shutdown signal has come and it does not spin. -/
def Stopped (shutdown : Bool) (l : BackgroundLoop) : Prop :=
  l.aborted = true ∨ shutdown = true ∧ 0 < l.intervalSecs

/-- A loop may send a prompt without starting another sleep that the interval ends. -/
def BackgroundLoop.pending (l : BackgroundLoop) : Bool :=
  match l.place with
  | .ready | .waiting => true
  | .sleeping _ => l.canTick
  | .ended => false

/-- From `start` prompts on, a loop that has stopped sends at most one more. -/
structure Winding (loop start : Nat) (s : BackgroundExecutor) : Prop where
  stopped : ∃ l, s.loops[loop]? = some l ∧ Stopped s.shutdown l
  bounded : ∀ l, s.loops[loop]? = some l →
    s.sent.count loop + (if l.pending then 1 else 0) ≤ start + 1

/-- A stopped loop that goes to sleep sends no other prompt. -/
theorem pending_sleep {shutdown : Bool} {l : BackgroundLoop} (h : Stopped shutdown l) :
    (l.sleep shutdown).pending = false := by
  rcases h with haborted | ⟨rfl, hinterval⟩
  · simp [BackgroundLoop.pending, BackgroundLoop.sleep, BackgroundLoop.canTick, haborted]
  · simp [BackgroundLoop.pending, BackgroundLoop.sleep, BackgroundLoop.canTick,
      Nat.ne_of_gt hinterval]

namespace Winding

variable {loop start : Nat} {s : BackgroundExecutor}

/-- A loop does a step that sends no prompt, stays stopped and does not become pending. -/
theorem advance (h : Winding loop start s) (other : Nat) {f : BackgroundLoop → BackgroundLoop}
    (hstopped : ∀ l, Stopped s.shutdown l → Stopped s.shutdown (f l))
    (hpending : ∀ l, Stopped s.shutdown l → l.pending = false → (f l).pending = false) :
    Winding loop start (s.advance other f) := by
  obtain ⟨l, hl, hstop⟩ := h.stopped
  have hbound := h.bounded l hl
  have hnext : (s.loops.modify other f)[loop]? = some (if other = loop then f l else l) := by
    rw [List.getElem?_modify, hl]
    rfl
  constructor
  case stopped =>
    refine ⟨_, hnext, ?_⟩
    split
    · exact hstopped l hstop
    · exact hstop
  case bounded =>
    intro l' hl'
    obtain rfl := Option.some.inj (hnext.symm.trans hl')
    refine Nat.le_trans (Nat.add_le_add_left ?_ _) hbound
    split
    · cases hp : l.pending with
      | false => rw [hpending l hstop hp]
      | true => split <;> decide
    · exact Nat.le_refl _

/-- A loop starts. -/
theorem spawn (h : Winding loop start s) (agentId prompt : String) (intervalSecs : Nat)
    (place : LoopPlace) : Winding loop start (s.spawn agentId prompt intervalSecs place) := by
  obtain ⟨l, hl, hstop⟩ := h.stopped
  have hsame : (s.spawn agentId prompt intervalSecs place).loops[loop]? = s.loops[loop]? :=
    List.getElem?_append_left (List.getElem?_eq_some_iff.mp hl).1
  exact ⟨⟨l, hsame.trans hl, hstop⟩, fun l hl => h.bounded l (hsame.symm.trans hl)⟩

/-- A loop that waits sends its prompt. -/
theorem send (h : Winding loop start s) {other : Nat} {l : BackgroundLoop}
    (hl : s.loops[other]? = some l) (hplace : l.place = .waiting) (permits : Nat)
    (watchers : List PromptWatcher) :
    Winding loop start ({ s with
      permits := permits
      watchers := watchers
      sent := other :: s.sent }.advance other (BackgroundLoop.sleep s.shutdown)) := by
  by_cases hother : other = loop
  · subst hother
    obtain ⟨l', hl', hstop⟩ := h.stopped
    obtain rfl := Option.some.inj (hl.symm.trans hl')
    have hbound := h.bounded l hl
    have hwaits : l.pending = true := by rw [BackgroundLoop.pending, hplace]
    rw [if_pos hwaits] at hbound
    have hnext : (s.loops.modify other (BackgroundLoop.sleep s.shutdown))[other]? =
        some (l.sleep s.shutdown) := by
      rw [List.getElem?_modify, hl]
      simp
    refine ⟨⟨_, hnext, hstop⟩, fun l' hl' => ?_⟩
    obtain rfl := Option.some.inj (hnext.symm.trans hl')
    rw [pending_sleep hstop, if_neg Bool.false_ne_true]
    exact (List.count_cons_self (a := other) (l := s.sent)).symm ▸ hbound
  · have hcount : (other :: s.sent).count loop = s.sent.count loop :=
      List.count_cons_of_ne hother
    obtain ⟨l', hl', hstop⟩ := h.stopped
    have hnext : (s.loops.modify other (BackgroundLoop.sleep s.shutdown))[loop]? = some l' := by
      rw [List.getElem?_modify, hl']
      simp [hother]
    refine ⟨⟨l', hnext, hstop⟩, fun l'' hl'' => ?_⟩
    obtain rfl := Option.some.inj (hnext.symm.trans hl'')
    exact (congrArg (· + _) hcount).trans_le (h.bounded l' hl')

end Winding

/-- A stopped loop stays stopped and does not become pending. -/
theorem LoopMove.winding {shutdown : Bool} {l l' : BackgroundLoop} (h : LoopMove shutdown l l')
    (hstop : Stopped shutdown l) :
    Stopped shutdown l' ∧ (l.pending = false → l'.pending = false) := by
  cases h with
  | stay => exact ⟨hstop, id⟩
  | tick hticks =>
      refine ⟨hstop, fun hp => ?_⟩
      -- a sleep that the interval ends is pending
      unfold BackgroundLoop.canTick at hticks
      unfold BackgroundLoop.pending BackgroundLoop.canTick at hp
      split at hticks <;> simp_all
  | skip => exact ⟨hstop, fun _ => pending_sleep hstop⟩
  | ask hready =>
      refine ⟨hstop, fun hp => ?_⟩
      rw [BackgroundLoop.pending, hready] at hp
      cases hp
  | stop => exact ⟨hstop, fun _ => rfl⟩

/-- **Step.** -/
theorem BackgroundMove.winding {loop start : Nat} {s s' : BackgroundExecutor}
    (hs' : BackgroundMove s s') (h : Winding loop start s) : Winding loop start s' := by
  cases hs' with
  | stay => exact h
  | spawn => exact h.spawn ..
  | abort =>
      refine Winding.advance ?_ _ ?_ ?_
      · exact ⟨h.stopped, h.bounded⟩
      · exact fun l _ => .inl rfl
      · intro l _ hp
        unfold BackgroundLoop.pending at hp ⊢
        split at hp <;> simp_all [BackgroundLoop.canTick]
  | shutdown =>
      obtain ⟨l, hl, hstop⟩ := h.stopped
      exact ⟨⟨l, hl, hstop.imp_right fun hboth => ⟨rfl, hboth.2⟩⟩, h.bounded⟩
  | move other hf =>
      exact h.advance other (fun l hl => ((hf l).winding hl).1) fun l hl => ((hf l).winding hl).2
  | send hl hplace => exact h.send hl hplace _ _
  | release => exact ⟨h.stopped, h.bounded⟩
  | clear =>
      refine Winding.advance ?_ _ ?_ ?_
      · exact ⟨h.stopped, h.bounded⟩
      · exact fun l hl => hl
      · exact fun l _ hp => hp

/-- A loop that has stopped sends at most one more prompt. -/
theorem count_sent_le {lib : Library} {s : BackgroundExecutor} {loop : Nat} {l : BackgroundLoop}
    (hl : s.loops[loop]? = some l) (hstop : Stopped s.shutdown l) (ops : List BackgroundOp) :
    (runOps (backgroundStep lib) s ops).sent.count loop ≤ s.sent.count loop + 1 := by
  have hinit : Winding loop (s.sent.count loop) s := by
    refine ⟨⟨l, hl, hstop⟩, fun l' _ => Nat.add_le_add_left ?_ _⟩
    split <;> decide
  have h := runOps_invariant' (fun s op h => (backgroundStep_cases lib s op).winding h) hinit ops
  obtain ⟨l', hl', -⟩ := h.stopped
  exact Nat.le_trans (Nat.le_add_right _ _) (h.bounded l' hl')

/-! ### The loops of agents -/

/-- The loop of an entry was started for its agent. -/
def Tasked (s : BackgroundExecutor) : Prop :=
  ∀ task ∈ s.tasks.entries, ∃ l, s.loops[task.loop]? = some l ∧ l.agentId = task.agentId

/-- The agent and the interval of a loop stay. -/
theorem tasked_advance {s : BackgroundExecutor} (h : Tasked s) (loop : Nat)
    {f : BackgroundLoop → BackgroundLoop} (hf : ∀ l, (f l).agentId = l.agentId) :
    Tasked (s.advance loop f) := by
  intro task htask
  obtain ⟨l, hl, hagent⟩ := h task htask
  refine ⟨if loop = task.loop then f l else l, ?_, ?_⟩
  · rw [BackgroundExecutor.advance, List.getElem?_modify, hl]
    rfl
  · split
    · exact (hf l).trans hagent
    · exact hagent

theorem tasked_spawn {s : BackgroundExecutor} (h : Tasked s) (agentId prompt : String)
    (intervalSecs : Nat) (place : LoopPlace) :
    Tasked (s.spawn agentId prompt intervalSecs place) := by
  intro task htask
  rcases Table.mem_insert.mp htask with rfl | ⟨htask, -⟩
  · exact ⟨_, List.getElem?_concat_length, rfl⟩
  · obtain ⟨l, hl, hagent⟩ := h task htask
    have hlt := (List.getElem?_eq_some_iff.mp hl).1
    exact ⟨l, (List.getElem?_append_left hlt).trans hl, hagent⟩

/-- **Step.** -/
theorem BackgroundMove.tasked {s s' : BackgroundExecutor} (hs' : BackgroundMove s s')
    (h : Tasked s) : Tasked s' := by
  cases hs' with
  | stay | shutdown | release => exact h
  | spawn => exact tasked_spawn h _ _ _ _
  | @abort agentId =>
      have herase : Tasked { s with tasks := s.tasks.erase agentId } := fun task htask =>
        h task (Table.mem_erase.mp htask).1
      exact tasked_advance herase _ fun _ => rfl
  | move loop hf => exact tasked_advance h loop fun l => (hf l).keeps.1
  | send | clear =>
      refine tasked_advance ?_ _ fun _ => rfl
      exact h

theorem tasked_of_passed {lib : Library} {ops : List BackgroundOp} {s : BackgroundExecutor}
    (hs : s ∈ passed (backgroundStep lib) .new ops) : Tasked s :=
  passed_invariant (fun s op h (_ : True) => (backgroundStep_cases lib s op).tasked h)
    (fun _ htask => absurd htask Table.not_mem_empty)
    (guarded_of_forall (fun _ _ => trivial) _ ops) s hs

/-- **Stopping.** From any reachable state on, and whatever comes: after `stop_agent` the agent's
loop sends at most one more prompt, and after the shutdown signal each loop does whose interval is
not zero. -/
theorem background_stops (lib : Library) (front : List BackgroundOp) :
    ∀ s ∈ passed (backgroundStep lib) .new front, ∀ ops,
      (∀ agentId task, s.tasks.find agentId = some task →
        (runOps (backgroundStep lib) s (.stopAgent agentId :: ops)).sent.count task.loop ≤
          s.sent.count task.loop + 1) ∧
      ∀ loop l, s.loops[loop]? = some l → 0 < l.intervalSecs →
        (runOps (backgroundStep lib) s (.shutdown :: ops)).sent.count loop ≤
          s.sent.count loop + 1 := by
  intro s hs ops
  constructor
  · intro agentId task hfind
    obtain ⟨l, hl, -⟩ := tasked_of_passed hs task (Table.find_eq_some_iff.mp hfind).1
    have hstep : backgroundStep lib s (.stopAgent agentId) =
        { s with tasks := s.tasks.erase agentId }.advance task.loop fun l =>
          { l with aborted := true } := by
      rw [backgroundStep, BackgroundExecutor.stopAgent, hfind]
    have hnext : (backgroundStep lib s (.stopAgent agentId)).loops[task.loop]? =
        some { l with aborted := true } := by
      rw [hstep, BackgroundExecutor.advance, List.getElem?_modify, hl]
      simp
    have hsent : (backgroundStep lib s (.stopAgent agentId)).sent = s.sent := by rw [hstep]; rfl
    rw [runOps_cons, ← hsent]
    exact count_sent_le hnext (.inl rfl) ops
  · intro loop l hl hinterval
    exact count_sent_le (s := { s with shutdown := true }) hl (.inr ⟨rfl, hinterval⟩) ops

/-- The loop that has sent one prompt sends at most one more once it was stopped. -/
theorem background_stops_sent :
    (runOps (backgroundStep ⟨id, fun _ => "", fun _ => none, id⟩) sentOne
      [.stopAgent "a", .release 0]).sent.count 0 ≤ sentOne.sent.count 0 + 1 :=
  (background_stops ⟨id, fun _ => "", fun _ => none, id⟩ sentRun sentOne
    (mem_passed.mpr ⟨sentRun, List.prefix_rfl, rfl⟩) [.release 0]).1 "a" ⟨"a", 0⟩ rfl

/-- A loop that no entry has, and whether it was aborted. -/
structure Detached (loop : Nat) (aborted : Bool) (s : BackgroundExecutor) : Prop where
  unlisted : ∀ task ∈ s.tasks.entries, task.loop ≠ loop
  started : ∃ l, s.loops[loop]? = some l ∧ l.aborted = aborted

namespace Detached

variable {loop : Nat} {aborted : Bool} {s : BackgroundExecutor}

theorem advance (h : Detached loop aborted s) (other : Nat) {f : BackgroundLoop → BackgroundLoop}
    (hf : ∀ l, (f l).aborted = l.aborted ∨ other ≠ loop) :
    Detached loop aborted (s.advance other f) := by
  obtain ⟨l, hl, haborted⟩ := h.started
  refine ⟨h.unlisted, if other = loop then f l else l, ?_, ?_⟩
  · rw [BackgroundExecutor.advance, List.getElem?_modify, hl]
    rfl
  · split
    · rename_i heq
      exact ((hf l).resolve_right fun hne => hne heq).trans haborted
    · exact haborted

theorem spawn (h : Detached loop aborted s) (agentId prompt : String) (intervalSecs : Nat)
    (place : LoopPlace) : Detached loop aborted (s.spawn agentId prompt intervalSecs place) := by
  obtain ⟨l, hl, haborted⟩ := h.started
  have hlt := (List.getElem?_eq_some_iff.mp hl).1
  refine ⟨fun task htask => ?_, l, (List.getElem?_append_left hlt).trans hl, haborted⟩
  rcases Table.mem_insert.mp htask with rfl | ⟨htask, -⟩
  · exact Nat.ne_of_gt hlt
  · exact h.unlisted task htask

end Detached

/-- **Step.** -/
theorem BackgroundMove.detached {loop : Nat} {aborted : Bool} {s s' : BackgroundExecutor}
    (hs' : BackgroundMove s s') (h : Detached loop aborted s) : Detached loop aborted s' := by
  cases hs' with
  | stay => exact h
  | spawn => exact h.spawn ..
  | abort hfind =>
      have hne := h.unlisted _ (Table.find_eq_some_iff.mp hfind).1
      refine Detached.advance ?_ _ fun _ => .inr hne
      exact ⟨fun task htask => h.unlisted task (Table.mem_erase.mp htask).1, h.started⟩
  | shutdown | release => exact ⟨h.unlisted, h.started⟩
  | move other hf => exact h.advance other fun l => .inl (hf l).keeps.2
  | send | clear =>
      refine Detached.advance ?_ _ ?_
      · exact ⟨h.unlisted, h.started⟩
      · exact fun _ => .inl rfl

/-- The schedule has a loop. -/
def hasLoop : ScheduleMode → Bool
  | .continuous _ | .periodic _ => true
  | _ => false

/-- **Restarting.** An agent that is started again before it was stopped leaves its former loop
behind: no stop aborts it any more, whatever comes. -/
theorem background_detached {lib : Library} {front : List BackgroundOp} {agentId name : String}
    {schedule : ScheduleMode} {task : BackgroundTask}
    (hfind : (runOps (backgroundStep lib) .new front).tasks.find agentId = some task)
    (hloop : hasLoop schedule = true) (ops : List BackgroundOp) :
    ((runOps (backgroundStep lib) .new
        (front ++ .startAgent agentId name schedule :: ops)).loops[task.loop]?.map
      BackgroundLoop.aborted) =
      (runOps (backgroundStep lib) .new front).loops[task.loop]?.map BackgroundLoop.aborted := by
  rw [runOps_append, runOps_cons]
  have htasked : Tasked (runOps (backgroundStep lib) .new front) :=
    tasked_of_passed (mem_passed.mpr ⟨front, List.prefix_rfl, rfl⟩)
  generalize runOps (backgroundStep lib) .new front = s at hfind htasked ⊢
  obtain ⟨hmem, rfl⟩ := Table.find_eq_some_iff.mp hfind
  obtain ⟨l, hl, hagent⟩ := htasked task hmem
  have hlt := (List.getElem?_eq_some_iff.mp hl).1
  have hspawn : ∀ prompt intervalSecs place,
      Detached task.loop l.aborted (s.spawn task.agentId prompt intervalSecs place) := by
    intro prompt intervalSecs place
    refine ⟨fun other hother => ?_, l, (List.getElem?_append_left hlt).trans hl, rfl⟩
    rcases Table.mem_insert.mp hother with rfl | ⟨hother, hkey⟩
    · exact Nat.ne_of_gt hlt
    · -- another entry is of another agent, and so is its loop
      intro hsame
      obtain ⟨l', hl', hagent'⟩ := htasked other hother
      rw [hsame, hl] at hl'
      obtain rfl := Option.some.inj hl'
      exact hkey (hagent'.symm.trans hagent)
  have hstart : Detached task.loop l.aborted
      (backgroundStep lib s (.startAgent task.agentId name schedule)) := by
    cases schedule with
    | reactive | proactive => cases hloop
    | continuous | periodic => exact hspawn _ _ _
  obtain ⟨l', hl', haborted⟩ :=
    (runOps_invariant' (fun s op h => (backgroundStep_cases lib s op).detached h) hstart
      ops).started
  rw [hl', hl, Option.map_some, Option.map_some, haborted]

/-- Of two loops that were started for one agent, a stop leaves the first running. -/
theorem background_detached_restarted :
    ((runOps (backgroundStep ⟨id, fun _ => "", fun _ => none, id⟩) .new
        ([.startAgent "a" "A" (.continuous 60)] ++
          .startAgent "a" "A" (.continuous 60) :: [.stopAgent "a"])).loops[0]?.map
      BackgroundLoop.aborted) = some false :=
  (@background_detached _ [.startAgent "a" "A" (.continuous 60)] "a" "A" (.continuous 60) ⟨"a", 0⟩
    rfl rfl [.stopAgent "a"]).trans rfl

end ArmaraOS.Kernel
