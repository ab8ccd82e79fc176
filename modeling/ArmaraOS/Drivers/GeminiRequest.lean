import Mathlib.Data.List.Chain
import ArmaraOS.Types.Message

/-!
The turns that the Gemini driver sends (`openfang-runtime/src/drivers/gemini.rs`).

Gemini wants the roles to alternate, every function call answered in the next turn, and every
function response in the turn after its call. `sanitize_gemini_turns` brings a history into this
form: it merges, takes out what is unpaired, takes out what is empty, and merges again. Each pass
is a scan that knows the turn before or the turn behind, so one predicate (`Linked`) says after
each of them what is paired.
-/

namespace ArmaraOS.Drivers.GeminiRequest

/-! ### Wire types -/

/-- `GeminiPart`. -/
inductive GeminiPart where
  | thought (text : String) (thought : Bool) (thoughtSignature : Option String)
  | text (text : String) (thoughtSignature : Option String)
  | inlineData (mimeType data : String)
  | functionCall (name : String) (args : Json) (thoughtSignature : Option String)
  | functionResponse (name : String) (response : Json)

namespace GeminiPart

/-- `matches!(p, GeminiPart::FunctionCall { .. })`. -/
def isFunctionCall : GeminiPart → Bool
  | functionCall .. => true
  | _ => false

/-- `matches!(p, GeminiPart::FunctionResponse { .. })`. -/
def isFunctionResponse : GeminiPart → Bool
  | functionResponse .. => true
  | _ => false

/-- A part that is neither a call nor a response. -/
def isPlain (p : GeminiPart) : Bool := !p.isFunctionCall && !p.isFunctionResponse

end GeminiPart

/-- `GeminiContent`. -/
structure GeminiContent where
  role : Option String
  parts : List GeminiPart

namespace GeminiContent

variable (t : GeminiContent)

/-- A turn of the model. -/
def isModel : Bool := t.role == some "model"

/-- A turn of the user. -/
def isUser : Bool := t.role == some "user"

/-- `has_function_call`. -/
def hasFunctionCall : Bool := t.parts.any GeminiPart.isFunctionCall

/-- `has_function_response`. -/
def hasFunctionResponse : Bool := t.parts.any GeminiPart.isFunctionResponse

/-- The turn without its calls. -/
def dropCalls : GeminiContent :=
  { t with parts := t.parts.filter fun p => !p.isFunctionCall }

/-- The turn without its responses. -/
def dropResponses : GeminiContent :=
  { t with parts := t.parts.filter fun p => !p.isFunctionResponse }

/-- The turn with the parts of another one behind its own. -/
def extend (u : GeminiContent) : GeminiContent := { t with parts := t.parts ++ u.parts }

/-- The parts of a turn that are neither calls nor responses, each with the role. -/
def plainParts : List (Option String × GeminiPart) :=
  (t.parts.filter GeminiPart.isPlain).map fun p => (t.role, p)

end GeminiContent

open GeminiContent

/-! ### `sanitize_gemini_turns` -/

/-- The merge of consecutive turns with one role; `last` is `merged.last_mut()`. -/
def mergeFrom (last : GeminiContent) : List GeminiContent → List GeminiContent
  | [] => [last]
  | entry :: rest =>
      if last.role = entry.role then mergeFrom (last.extend entry) rest
      else last :: mergeFrom entry rest

/-- Steps 1 and 5. -/
def mergeTurns : List GeminiContent → List GeminiContent
  | [] => []
  | entry :: rest => mergeFrom entry rest

/-- `next_has_response`, on the turns behind. -/
def nextHasResponse : List GeminiContent → Bool
  | [] => false
  | next :: _ => next.isUser && next.hasFunctionResponse

/-- Step 2: calls without a response in the next turn. -/
def dropOrphanedCalls : List GeminiContent → List GeminiContent
  | [] => []
  | t :: rest =>
      (if t.isModel && t.hasFunctionCall && !nextHasResponse rest then t.dropCalls else t) ::
        dropOrphanedCalls rest

/-- `prev_has_call`, on the turn before. -/
def prevHasCall (prev : Option GeminiContent) : Bool :=
  prev.any fun t => t.isModel && t.hasFunctionCall

/-- Step 3: responses without a call in the turn before. -/
def dropOrphanedResponses (prev : Option GeminiContent) :
    List GeminiContent → List GeminiContent
  | [] => []
  | t :: rest =>
      let kept :=
        if t.isUser && t.hasFunctionResponse && !prevHasCall prev then t.dropResponses else t
      kept :: dropOrphanedResponses (some kept) rest

/-- Step 4: turns that ended up empty. -/
def dropEmpty (turns : List GeminiContent) : List GeminiContent :=
  turns.filter fun t => !t.parts.isEmpty

/-- `sanitize_gemini_turns`. -/
def sanitizeGeminiTurns (contents : List GeminiContent) : List GeminiContent :=
  mergeTurns (dropEmpty (dropOrphanedResponses none (dropOrphanedCalls (mergeTurns contents))))

/-! ### What Gemini wants -/

/-- The turns are of the user and of the model, with the calls in the model's turns and the
responses in the user's. -/
structure Typed (t : GeminiContent) : Prop where
  role : t.role = some "user" ∨ t.role = some "model"
  call : t.hasFunctionCall = true → t.role = some "model"
  response : t.hasFunctionResponse = true → t.role = some "user"

/-- Gemini's rules for the order of turns. -/
structure Ordered (turns : List GeminiContent) : Prop where
  alternates : turns.IsChain fun t u => t.role ≠ u.role
  nonempty : ∀ t ∈ turns, t.parts ≠ []
  answered : ∀ front t rest, turns = front ++ t :: rest → t.isModel = true →
    t.hasFunctionCall = true →
      ∃ u ∈ rest.head?, u.isUser = true ∧ u.hasFunctionResponse = true
  asked : ∀ front u rest, turns = front ++ u :: rest → u.isUser = true →
    u.hasFunctionResponse = true →
      ∃ t ∈ front.getLast?, t.isModel = true ∧ t.hasFunctionCall = true

/-- Every turn has responses exactly when the turn before it has calls. `asks` says whether the
turn before the list has. -/
def Linked (asks : Bool) : List GeminiContent → Prop
  | [] => asks = false
  | t :: rest => t.hasFunctionResponse = asks ∧ Linked t.hasFunctionCall rest

/-- Every turn with calls is followed by one with responses. -/
def Answered : List GeminiContent → Prop
  | [] => True
  | t :: rest => (t.hasFunctionCall = true → nextHasResponse rest = true) ∧ Answered rest

section Turn

variable {t u : GeminiContent}

theorem Typed.isModel (h : Typed t) (hcall : t.hasFunctionCall = true) : t.isModel = true := by
  simp [GeminiContent.isModel, h.call hcall]

theorem Typed.isUser (h : Typed t) (hresponse : t.hasFunctionResponse = true) :
    t.isUser = true := by
  simp [GeminiContent.isUser, h.response hresponse]

@[simp] theorem hasFunctionCall_extend :
    (t.extend u).hasFunctionCall = (t.hasFunctionCall || u.hasFunctionCall) := by
  simp [hasFunctionCall, extend]

@[simp] theorem hasFunctionResponse_extend :
    (t.extend u).hasFunctionResponse = (t.hasFunctionResponse || u.hasFunctionResponse) := by
  simp [hasFunctionResponse, extend]

@[simp] theorem role_dropCalls : t.dropCalls.role = t.role := rfl

@[simp] theorem hasFunctionCall_dropCalls : t.dropCalls.hasFunctionCall = false := by
  simp [hasFunctionCall, dropCalls]

@[simp] theorem hasFunctionResponse_dropResponses :
    t.dropResponses.hasFunctionResponse = false := by
  simp [hasFunctionResponse, dropResponses]

@[simp] theorem hasFunctionResponse_dropCalls :
    t.dropCalls.hasFunctionResponse = t.hasFunctionResponse := by
  simp only [hasFunctionResponse, dropCalls, List.any_filter]
  congr 1
  funext p
  cases p <;> rfl

@[simp] theorem hasFunctionCall_dropResponses :
    t.dropResponses.hasFunctionCall = t.hasFunctionCall := by
  simp only [hasFunctionCall, dropResponses, List.any_filter]
  congr 1
  funext p
  cases p <;> rfl

@[simp] theorem plainParts_dropCalls : t.dropCalls.plainParts = t.plainParts := by
  simp only [plainParts, dropCalls, List.filter_filter]
  congr 2
  funext p
  cases p <;> rfl

@[simp] theorem plainParts_dropResponses : t.dropResponses.plainParts = t.plainParts := by
  simp only [plainParts, dropResponses, List.filter_filter]
  congr 2
  funext p
  cases p <;> rfl

theorem plainParts_extend (h : t.role = u.role) :
    (t.extend u).plainParts = t.plainParts ++ u.plainParts := by
  simp [plainParts, extend, h]

theorem Typed.extend (ht : Typed t) (hu : Typed u) (h : t.role = u.role) :
    Typed (t.extend u) where
  role := ht.role
  call hcall := by
    rw [hasFunctionCall_extend, Bool.or_eq_true] at hcall
    rcases hcall with hcall | hcall
    · exact ht.call hcall
    · exact h.trans (hu.call hcall)
  response hresponse := by
    rw [hasFunctionResponse_extend, Bool.or_eq_true] at hresponse
    rcases hresponse with hresponse | hresponse
    · exact ht.response hresponse
    · exact h.trans (hu.response hresponse)

theorem Typed.dropCalls (h : Typed t) : Typed t.dropCalls where
  role := h.role
  call hcall := by simp at hcall
  response hresponse := h.response (by simpa using hresponse)

theorem Typed.dropResponses (h : Typed t) : Typed t.dropResponses where
  role := h.role
  call hcall := h.call (by simpa using hcall)
  response hresponse := by simp at hresponse

end Turn
/-! ### The merge -/

section Merge

variable {last entry : GeminiContent} {rest turns : List GeminiContent}

theorem mergeFrom_nil : mergeFrom last [] = [last] := rfl

theorem mergeFrom_same (h : last.role = entry.role) :
    mergeFrom last (entry :: rest) = mergeFrom (last.extend entry) rest :=
  if_pos h

theorem mergeFrom_other (h : ¬ last.role = entry.role) :
    mergeFrom last (entry :: rest) = last :: mergeFrom entry rest :=
  if_neg h

theorem mergeFrom_head (last : GeminiContent) (turns : List GeminiContent) :
    ∃ u rest, mergeFrom last turns = u :: rest ∧ u.role = last.role := by
  induction turns generalizing last with
  | nil => exact ⟨last, [], rfl, rfl⟩
  | cons entry rest ih =>
      by_cases hrole : last.role = entry.role
      · rw [mergeFrom_same hrole]
        exact ih (last.extend entry)
      · rw [mergeFrom_other hrole]
        exact ⟨last, _, rfl, rfl⟩

theorem mergeFrom_alternates (last : GeminiContent) (turns : List GeminiContent) :
    (mergeFrom last turns).IsChain fun t u => t.role ≠ u.role := by
  induction turns generalizing last with
  | nil => exact List.isChain_singleton _
  | cons entry rest ih =>
      by_cases hrole : last.role = entry.role
      · rw [mergeFrom_same hrole]
        exact ih _
      · rw [mergeFrom_other hrole]
        obtain ⟨u, us, hmerged, hu⟩ := mergeFrom_head entry rest
        have hchain := ih entry
        rw [hmerged] at hchain ⊢
        exact List.isChain_cons_cons.mpr ⟨by rwa [hu], hchain⟩

theorem mergeFrom_typed (hlast : Typed last) (hturns : ∀ t ∈ turns, Typed t) :
    ∀ t ∈ mergeFrom last turns, Typed t := by
  induction turns generalizing last with
  | nil => simpa [mergeFrom_nil] using hlast
  | cons entry rest ih =>
      obtain ⟨hentry, hrest⟩ := List.forall_mem_cons.mp hturns
      by_cases hrole : last.role = entry.role
      · rw [mergeFrom_same hrole]
        exact ih (hlast.extend hentry hrole) hrest
      · rw [mergeFrom_other hrole]
        exact List.forall_mem_cons.mpr ⟨hlast, ih hentry hrest⟩

theorem mergeFrom_plainParts (last : GeminiContent) (turns : List GeminiContent) :
    (mergeFrom last turns).flatMap plainParts = last.plainParts ++ turns.flatMap plainParts := by
  induction turns generalizing last with
  | nil => simp [mergeFrom_nil]
  | cons entry rest ih =>
      by_cases hrole : last.role = entry.role
      · rw [mergeFrom_same hrole, ih, plainParts_extend hrole, List.append_assoc,
          List.flatMap_cons]
      · rw [mergeFrom_other hrole, List.flatMap_cons, ih, List.flatMap_cons]

theorem mergeFrom_nonempty (hlast : last.parts ≠ []) (hturns : ∀ t ∈ turns, t.parts ≠ []) :
    ∀ t ∈ mergeFrom last turns, t.parts ≠ [] := by
  induction turns generalizing last with
  | nil => simpa [mergeFrom_nil] using hlast
  | cons entry rest ih =>
      obtain ⟨hentry, hrest⟩ := List.forall_mem_cons.mp hturns
      by_cases hrole : last.role = entry.role
      · rw [mergeFrom_same hrole]
        exact ih (by simp [extend, hlast]) hrest
      · rw [mergeFrom_other hrole]
        exact List.forall_mem_cons.mpr ⟨hlast, ih hentry hrest⟩

/-- Merging keeps what is paired: between two turns of one role there is nothing to pair. -/
theorem mergeFrom_linked {asks : Bool} (hlast : Typed last) (hturns : ∀ t ∈ turns, Typed t)
    (h : Linked asks (last :: turns)) : Linked asks (mergeFrom last turns) := by
  induction turns generalizing last asks with
  | nil => exact h
  | cons entry rest ih =>
      obtain ⟨hentry, hrest⟩ := List.forall_mem_cons.mp hturns
      obtain ⟨hresponse, hnext, htail⟩ := h
      by_cases hrole : last.role = entry.role
      · rw [mergeFrom_same hrole]
        have hasks : last.hasFunctionCall = false := by
          by_contra hcall
          have hmodel := hlast.call (by simpa using hcall)
          have huser := hentry.response (by simpa [hnext] using hcall)
          simp [hrole, huser] at hmodel
        refine ih (hlast.extend hentry hrole) hrest ⟨?_, ?_⟩
        · simp [hresponse, hnext, hasks]
        · simpa [hasks] using htail
      · rw [mergeFrom_other hrole]
        exact ⟨hresponse, ih hentry hrest ⟨hnext, htail⟩⟩

theorem mergeFrom_eq_self (h : (last :: turns).IsChain fun t u => t.role ≠ u.role) :
    mergeFrom last turns = last :: turns := by
  induction turns generalizing last with
  | nil => rfl
  | cons entry rest ih =>
      obtain ⟨hrole, hrest⟩ := List.isChain_cons_cons.mp h
      rw [mergeFrom_other hrole, ih hrest]

theorem mergeTurns_alternates (turns : List GeminiContent) :
    (mergeTurns turns).IsChain fun t u => t.role ≠ u.role := by
  cases turns with
  | nil => exact List.isChain_nil
  | cons entry rest => exact mergeFrom_alternates entry rest

theorem mergeTurns_typed (h : ∀ t ∈ turns, Typed t) : ∀ t ∈ mergeTurns turns, Typed t := by
  cases turns with
  | nil => exact h
  | cons entry rest =>
      obtain ⟨hentry, hrest⟩ := List.forall_mem_cons.mp h
      exact mergeFrom_typed hentry hrest

theorem mergeTurns_plainParts (turns : List GeminiContent) :
    (mergeTurns turns).flatMap plainParts = turns.flatMap plainParts := by
  cases turns with
  | nil => rfl
  | cons entry rest => rw [mergeTurns, mergeFrom_plainParts, List.flatMap_cons]

theorem mergeTurns_nonempty (h : ∀ t ∈ turns, t.parts ≠ []) :
    ∀ t ∈ mergeTurns turns, t.parts ≠ [] := by
  cases turns with
  | nil => exact h
  | cons entry rest =>
      obtain ⟨hentry, hrest⟩ := List.forall_mem_cons.mp h
      exact mergeFrom_nonempty hentry hrest

theorem mergeTurns_linked (htyped : ∀ t ∈ turns, Typed t) (h : Linked false turns) :
    Linked false (mergeTurns turns) := by
  cases turns with
  | nil => exact h
  | cons entry rest =>
      obtain ⟨hentry, hrest⟩ := List.forall_mem_cons.mp htyped
      exact mergeFrom_linked hentry hrest h

theorem mergeTurns_eq_self (h : turns.IsChain fun t u => t.role ≠ u.role) :
    mergeTurns turns = turns := by
  cases turns with
  | nil => rfl
  | cons entry rest => exact mergeFrom_eq_self h

end Merge

/-! ### The removals -/

section Removals

variable {turns : List GeminiContent} {prev : Option GeminiContent}

/-- Taking calls out of a turn takes no response out of it. -/
theorem nextHasResponse_dropOrphanedCalls (turns : List GeminiContent) :
    nextHasResponse (dropOrphanedCalls turns) = nextHasResponse turns := by
  cases turns with
  | nil => rfl
  | cons t rest =>
      rw [dropOrphanedCalls, nextHasResponse, nextHasResponse]
      split <;> simp [GeminiContent.isUser]

theorem dropOrphanedCalls_typed (h : ∀ t ∈ turns, Typed t) :
    ∀ t ∈ dropOrphanedCalls turns, Typed t := by
  induction turns with
  | nil => exact h
  | cons t rest ih =>
      obtain ⟨ht, hrest⟩ := List.forall_mem_cons.mp h
      refine List.forall_mem_cons.mpr ⟨?_, ih hrest⟩
      split
      · exact ht.dropCalls
      · exact ht

theorem dropOrphanedCalls_plainParts (turns : List GeminiContent) :
    (dropOrphanedCalls turns).flatMap plainParts = turns.flatMap plainParts := by
  induction turns with
  | nil => rfl
  | cons t rest ih =>
      rw [dropOrphanedCalls, List.flatMap_cons, List.flatMap_cons, ih]
      split <;> simp

/-- After step 2 every call is answered in the next turn. -/
theorem dropOrphanedCalls_answered (h : ∀ t ∈ turns, Typed t) :
    Answered (dropOrphanedCalls turns) := by
  induction turns with
  | nil => trivial
  | cons t rest ih =>
      obtain ⟨ht, hrest⟩ := List.forall_mem_cons.mp h
      refine ⟨fun hcall => ?_, ih hrest⟩
      rw [nextHasResponse_dropOrphanedCalls]
      split at hcall
      · simp at hcall
      · next hkept =>
        by_contra hnext
        exact hkept (by simp [ht.isModel hcall, hcall, hnext])

theorem dropOrphanedResponses_typed (h : ∀ t ∈ turns, Typed t) :
    ∀ t ∈ dropOrphanedResponses prev turns, Typed t := by
  induction turns generalizing prev with
  | nil => exact h
  | cons t rest ih =>
      obtain ⟨ht, hrest⟩ := List.forall_mem_cons.mp h
      refine List.forall_mem_cons.mpr ⟨?_, ih hrest⟩
      split
      · exact ht.dropResponses
      · exact ht

theorem dropOrphanedResponses_plainParts (prev : Option GeminiContent)
    (turns : List GeminiContent) :
    (dropOrphanedResponses prev turns).flatMap plainParts = turns.flatMap plainParts := by
  induction turns generalizing prev with
  | nil => rfl
  | cons t rest ih =>
      rw [dropOrphanedResponses, List.flatMap_cons, List.flatMap_cons, ih]
      split <;> simp

/-- Step 3 behind step 2 leaves pairs only. A turn with calls has its responses already, so it is
the responses without a call that go. -/
theorem dropOrphanedResponses_linked (htyped : ∀ t ∈ turns, Typed t) (h : Answered turns)
    (hprev : prevHasCall prev = true → nextHasResponse turns = true) :
    Linked (prevHasCall prev) (dropOrphanedResponses prev turns) := by
  induction turns generalizing prev with
  | nil =>
      by_contra hcall
      simpa [nextHasResponse] using hprev (by simpa [dropOrphanedResponses, Linked] using hcall)
  | cons t rest ih =>
      obtain ⟨ht, hrest⟩ := List.forall_mem_cons.mp htyped
      obtain ⟨hnext, hanswered⟩ := h
      rw [dropOrphanedResponses]
      generalize hkept : (if t.isUser && t.hasFunctionResponse && !prevHasCall prev
        then t.dropResponses else t) = kept
      have hcalls : kept.hasFunctionCall = t.hasFunctionCall := by
        rw [← hkept]
        split <;> simp
      have hmodel : prevHasCall (some kept) = kept.hasFunctionCall := by
        have hrole : kept.role = t.role := by
          rw [← hkept]
          split <;> rfl
        cases hcall : kept.hasFunctionCall with
        | false => simp [prevHasCall, hcall]
        | true => simp [prevHasCall, hcall, GeminiContent.isModel, hrole, ht.call (hcalls ▸ hcall)]
      refine ⟨?_, ?_⟩
      · cases hasks : prevHasCall prev with
        | true =>
            have hnext := hprev hasks
            rw [nextHasResponse, Bool.and_eq_true] at hnext
            have hresponse : t.hasFunctionResponse = true := hnext.2
            simp [← hkept, hasks, hresponse]
        | false =>
            cases hresponse : t.hasFunctionResponse with
            | false => simp [← hkept, hresponse]
            | true => simp [← hkept, hasks, hresponse, ht.isUser hresponse]
      · rw [← hmodel]
        exact ih hrest hanswered fun hcall => hnext (by rwa [← hcalls, ← hmodel])

theorem dropEmpty_plainParts (turns : List GeminiContent) :
    (dropEmpty turns).flatMap plainParts = turns.flatMap plainParts := by
  induction turns with
  | nil => rfl
  | cons t rest ih =>
      rw [List.flatMap_cons, ← ih]
      cases hparts : t.parts with
      | nil => simp [dropEmpty, plainParts, hparts]
      | cons p ps => simp [dropEmpty, hparts]

theorem dropEmpty_linked {asks : Bool} (h : Linked asks turns) : Linked asks (dropEmpty turns) := by
  induction turns generalizing asks with
  | nil => exact h
  | cons t rest ih =>
      obtain ⟨hresponse, hrest⟩ := h
      cases hparts : t.parts with
      | nil =>
          have hcall : t.hasFunctionCall = false := by simp [hasFunctionCall, hparts]
          have hasks : asks = false := by rw [← hresponse]; simp [hasFunctionResponse, hparts]
          rw [hcall] at hrest
          simpa [dropEmpty, hparts, hasks] using ih hrest
      | cons p ps =>
          simp only [dropEmpty, List.filter_cons, hparts]
          exact ⟨hresponse, ih hrest⟩

end Removals

/-! ### The form of what is sent -/

section Form

variable {turns : List GeminiContent}

theorem Linked.answered {asks : Bool} (htyped : ∀ t ∈ turns, Typed t) (h : Linked asks turns) :
    ∀ front t rest, turns = front ++ t :: rest → t.hasFunctionCall = true →
      ∃ u ∈ rest.head?, u.isUser = true ∧ u.hasFunctionResponse = true := by
  intro front t rest hturns hcall
  induction front generalizing asks turns with
  | nil =>
      subst hturns
      obtain ⟨-, hrest⟩ := h
      rw [hcall] at hrest
      cases rest with
      | nil => simp [Linked] at hrest
      | cons u us =>
          obtain ⟨hresponse, -⟩ := hrest
          exact ⟨u, rfl, (htyped u (by simp)).isUser hresponse, hresponse⟩
  | cons t' front ih =>
      subst hturns
      exact ih (fun u hu => htyped u (List.mem_cons_of_mem _ hu)) h.2 rfl

/-- A turn with responses is the first one behind a turn that asks, or has its call before it. -/
theorem Linked.asked {asks : Bool} (htyped : ∀ t ∈ turns, Typed t) (h : Linked asks turns) :
    ∀ front u rest, turns = front ++ u :: rest → u.hasFunctionResponse = true →
      (front = [] ∧ asks = true) ∨
        ∃ t ∈ front.getLast?, t.isModel = true ∧ t.hasFunctionCall = true := by
  intro front u rest hturns hresponse
  induction front generalizing asks turns with
  | nil =>
      subst hturns
      exact .inl ⟨rfl, by rw [← h.1, hresponse]⟩
  | cons t front ih =>
      subst hturns
      right
      have htail := ih (fun u hu => htyped u (List.mem_cons_of_mem _ hu)) h.2 rfl
      rcases htail with ⟨rfl, hcall⟩ | ⟨t', ht', hasked⟩
      · exact ⟨t, rfl, (htyped t (by simp)).isModel hcall, hcall⟩
      · refine ⟨t', ?_, hasked⟩
        rw [List.getLast?_cons, Option.mem_def.mp ht']
        rfl

/-- The rules, read from the front of the list. -/
theorem linked_of_rules {asks : Bool} (hfirst : asks = true → nextHasResponse turns = true)
    (hanswered : ∀ front t rest, turns = front ++ t :: rest → t.hasFunctionCall = true →
      nextHasResponse rest = true)
    (hasked : ∀ front u rest, turns = front ++ u :: rest → u.hasFunctionResponse = true →
      (front = [] ∧ asks = true) ∨ ∃ t ∈ front.getLast?, t.hasFunctionCall = true) :
    Linked asks turns := by
  induction turns generalizing asks with
  | nil =>
      by_contra hasks
      simpa [nextHasResponse] using hfirst (by simpa [Linked] using hasks)
  | cons t rest ih =>
      refine ⟨?_, ih (hanswered [] t rest rfl) ?_ ?_⟩
      · cases hresponse : t.hasFunctionResponse with
        | true =>
            rcases hasked [] t rest rfl hresponse with ⟨-, hasks⟩ | ⟨u, hu, -⟩
            · exact hasks.symm
            · simp at hu
        | false =>
            by_contra hasks
            have hnext := hfirst (by simpa using hasks)
            simp [nextHasResponse, hresponse] at hnext
      · intro front u us hrest hcall
        exact hanswered (t :: front) u us (by rw [hrest, List.cons_append]) hcall
      · intro front u us hrest hresponse
        have hbefore := hasked (t :: front) u us (by rw [hrest, List.cons_append]) hresponse
        rcases hbefore with ⟨hnil, -⟩ | ⟨t', ht', hcall⟩
        · simp at hnil
        · cases hfront : front.getLast? with
          | none =>
              rw [List.getLast?_eq_none_iff] at hfront
              subst hfront
              obtain rfl : t = t' := by simpa using ht'
              exact .inl ⟨rfl, hcall⟩
          | some last =>
              rw [List.getLast?_cons, hfront] at ht'
              obtain rfl : last = t' := by simpa using ht'
              exact .inr ⟨last, rfl, hcall⟩

theorem Ordered.linked (htyped : ∀ t ∈ turns, Typed t) (h : Ordered turns) :
    Linked false turns := by
  refine linked_of_rules (by simp) ?_ ?_
  · intro front t rest hturns hcall
    have ht : Typed t := htyped t (by simp [hturns])
    obtain ⟨u, hu, huser, hresponse⟩ := h.answered front t rest hturns (ht.isModel hcall) hcall
    cases rest with
    | nil => simp at hu
    | cons u' us =>
        obtain rfl : u' = u := by simpa using hu
        simp [nextHasResponse, huser, hresponse]
  · intro front u rest hturns hresponse
    have hu : Typed u := htyped u (by simp [hturns])
    obtain ⟨t, ht, -, hcall⟩ := h.asked front u rest hturns (hu.isUser hresponse) hresponse
    exact .inr ⟨t, ht, hcall⟩

theorem ordered_of_linked (htyped : ∀ t ∈ turns, Typed t) (h : Linked false turns)
    (halternates : turns.IsChain fun t u => t.role ≠ u.role)
    (hnonempty : ∀ t ∈ turns, t.parts ≠ []) : Ordered turns where
  alternates := halternates
  nonempty := hnonempty
  answered front t rest hturns _ hcall := h.answered htyped front t rest hturns hcall
  asked front u rest hturns _ hresponse := by
    rcases h.asked htyped front u rest hturns hresponse with ⟨-, hasks⟩ | hasked
    · simp at hasks
    · exact hasked

/-! ### Turns that need nothing done -/

theorem Linked.dropOrphanedCalls_eq_self {asks : Bool} (htyped : ∀ t ∈ turns, Typed t)
    (h : Linked asks turns) : dropOrphanedCalls turns = turns := by
  induction turns generalizing asks with
  | nil => rfl
  | cons t rest ih =>
      obtain ⟨-, hrest⟩ := h
      have htail := List.forall_mem_cons.mp htyped
      rw [dropOrphanedCalls, ih htail.2 hrest, if_neg]
      intro horphan
      simp only [Bool.and_eq_true, Bool.not_eq_true'] at horphan
      rw [horphan.1.2] at hrest
      cases rest with
      | nil => simp [Linked] at hrest
      | cons u us =>
          have huser := (htail.2 u (by simp)).isUser hrest.1
          simp [nextHasResponse, huser, hrest.1] at horphan

theorem Linked.dropOrphanedResponses_eq_self {prev : Option GeminiContent}
    (htyped : ∀ t ∈ turns, Typed t) (h : Linked (prevHasCall prev) turns) :
    dropOrphanedResponses prev turns = turns := by
  induction turns generalizing prev with
  | nil => rfl
  | cons t rest ih =>
      obtain ⟨hresponse, hrest⟩ := h
      have htail := List.forall_mem_cons.mp htyped
      have hkept : (if t.isUser && t.hasFunctionResponse && !prevHasCall prev
          then t.dropResponses else t) = t := by
        rw [if_neg]
        simp [hresponse]
      have hcall : prevHasCall (some t) = t.hasFunctionCall := by
        cases hcall : t.hasFunctionCall with
        | false => simp [prevHasCall, hcall]
        | true => simp [prevHasCall, hcall, htail.1.isModel hcall]
      rw [dropOrphanedResponses, hkept, ih htail.2 (by rwa [hcall])]

theorem dropEmpty_eq_self (h : ∀ t ∈ turns, t.parts ≠ []) : dropEmpty turns = turns := by
  rw [dropEmpty, List.filter_eq_self]
  intro t ht
  simpa using h t ht

theorem sanitizeGeminiTurns_eq_self (htyped : ∀ t ∈ turns, Typed t) (h : Ordered turns) :
    sanitizeGeminiTurns turns = turns := by
  have hlinked := h.linked htyped
  have hmerged := mergeTurns_eq_self h.alternates
  have hlinked' : Linked (prevHasCall none) turns := hlinked
  rw [sanitizeGeminiTurns, hmerged, hlinked.dropOrphanedCalls_eq_self htyped,
    hlinked'.dropOrphanedResponses_eq_self htyped, dropEmpty_eq_self h.nonempty, hmerged]

end Form

/-! ### The sanitized turns -/

/-- What the first four steps leave is typed, paired and nowhere empty. -/
theorem paired_turns {contents : List GeminiContent} (htyped : ∀ t ∈ contents, Typed t) :
    let paired := dropEmpty (dropOrphanedResponses none (dropOrphanedCalls (mergeTurns contents)))
    (∀ t ∈ paired, Typed t) ∧ Linked false paired ∧ ∀ t ∈ paired, t.parts ≠ [] := by
  have hcalls := dropOrphanedCalls_typed (mergeTurns_typed htyped)
  have hanswered := dropOrphanedCalls_answered (mergeTurns_typed htyped)
  have hresponses := @dropOrphanedResponses_typed _ none hcalls
  refine ⟨fun t ht => hresponses t (List.mem_of_mem_filter ht), ?_, fun t ht => ?_⟩
  · have hlinked : Linked (prevHasCall none) _ :=
      dropOrphanedResponses_linked hcalls hanswered (by simp [prevHasCall])
    exact dropEmpty_linked hlinked
  · simpa using (List.mem_filter.mp ht).2

/-- Whatever the history, the turns that are sent follow Gemini's order and hold all that is
neither a call nor a response; turns that follow the order already are sent as they are. -/
theorem sanitizeGeminiTurns_ordered {contents : List GeminiContent}
    (htyped : ∀ t ∈ contents, Typed t) :
    Ordered (sanitizeGeminiTurns contents) ∧
      (sanitizeGeminiTurns contents).flatMap plainParts = contents.flatMap plainParts ∧
      (Ordered contents → sanitizeGeminiTurns contents = contents) := by
  obtain ⟨hpaired, hlinked, hnonempty⟩ := paired_turns htyped
  refine ⟨?_, ?_, sanitizeGeminiTurns_eq_self htyped⟩
  · exact ordered_of_linked (mergeTurns_typed hpaired) (mergeTurns_linked hpaired hlinked)
      (mergeTurns_alternates _) (mergeTurns_nonempty hnonempty)
  · rw [sanitizeGeminiTurns, mergeTurns_plainParts, dropEmpty_plainParts,
      dropOrphanedResponses_plainParts, dropOrphanedCalls_plainParts, mergeTurns_plainParts]

/-- A history with an orphaned response, a call without a response between two model turns, and
an answered call. -/
def trimmedHistory : List GeminiContent :=
  [⟨some "user", [.functionResponse "read" .null]⟩,
    ⟨some "model", [.text "One." none, .functionCall "list" .null none]⟩,
    ⟨some "model", [.text "Two." none]⟩,
    ⟨some "user", [.text "Go on." none]⟩,
    ⟨some "model", [.functionCall "read" .null none]⟩,
    ⟨some "user", [.functionResponse "read" .null]⟩]

theorem sanitizeGeminiTurns_ordered_trimmed :
    Ordered (sanitizeGeminiTurns trimmedHistory) ∧
      (sanitizeGeminiTurns trimmedHistory).flatMap plainParts =
        trimmedHistory.flatMap plainParts ∧
      (Ordered trimmedHistory → sanitizeGeminiTurns trimmedHistory = trimmedHistory) := by
  apply sanitizeGeminiTurns_ordered
  intro t ht
  simp only [trimmedHistory, List.mem_cons, List.not_mem_nil, or_false] at ht
  rcases ht with rfl | rfl | rfl | rfl | rfl | rfl <;> exact ⟨by simp, by decide, by decide⟩

end ArmaraOS.Drivers.GeminiRequest
