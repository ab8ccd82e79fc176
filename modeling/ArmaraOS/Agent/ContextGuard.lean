import ArmaraOS.Agent.Context
import ArmaraOS.Lib.ByteSlices
import ArmaraOS.Lib.Shrinking

/-!
The context guard in its two passes, and the number it returns (`apply_context_guard` in
`context_budget.rs`).

The first pass caps each tool result that is too long alone, the second compacts the oldest results
until the total is within the headroom. The number returned counts the truncations. That is the
number of results that changed, unless a result is truncated in both passes, or is its own
truncation.
-/

namespace ArmaraOS.Agent

open ArmaraOS.Lib ArmaraOS.Text

/-! ### The budget -/

/-- `ContextBudget`. `toolChars n` is `(n as f64 * tool_chars_per_token) as usize`. -/
structure ContextBudget where
  contextWindowTokens : Nat
  toolChars : Nat → Nat

namespace ContextBudget

/-- `ContextBudget::new`, with its two characters for a token of a tool result. -/
def new (contextWindowTokens : Nat) : ContextBudget := ⟨contextWindowTokens, fun n => 2 * n⟩

/-- `ContextBudget::single_result_max`. -/
def singleResultMax (budget : ContextBudget) : Nat :=
  budget.toolChars (scaleF64 budget.contextWindowTokens 1 1)

/-- `ContextBudget::total_tool_headroom_chars`. -/
def totalToolHeadroomChars (budget : ContextBudget) : Nat :=
  budget.toolChars (scaleF64 budget.contextWindowTokens 3 2)

end ContextBudget

/-! ### The passes -/

/-- What a pass carries from result to result: the running total, the number of truncations, and the
lengths that the results from here on had before the first pass. -/
structure GuardState where
  totalChars : Nat
  compacted : Nat
  charLens : List Nat

/-- The content of a result put, and the change of the state. -/
def GuardState.truncate (st : GuardState) (content truncated : String) : String × GuardState :=
  (truncated,
    { st with
      totalChars := st.totalChars - content.utf8ByteSize + truncated.utf8ByteSize
      compacted := st.compacted + 1 })

/-- The first pass at one result. -/
def capResult (singleMax : Nat) (st : GuardState) (content : String) : String × GuardState :=
  if singleMax < content.utf8ByteSize then st.truncate content (truncateTo singleMax content)
  else (content, st)

/-- The second pass at one result. Once the total is within the headroom it stays there, which is
where the loop ends. -/
def compactResult (headroom : Nat) (st : GuardState) (content : String) : String × GuardState :=
  let behind := { st with charLens := st.charLens.tail }
  if st.totalChars ≤ headroom ∨ st.charLens.headD 0 ≤ 2000 ∨ content.utf8ByteSize ≤ 2000 then
    (content, behind)
  else behind.truncate content (truncateTo 2000 content)

section Pass

variable (step : GuardState → String → String × GuardState)

/-- A pass over the tool results of a block list. -/
def passBlocks : GuardState → List ContentBlock → List ContentBlock × GuardState
  | st, [] => ([], st)
  | st, .toolResult id name content isError :: rest =>
      let edited := step st content
      let out := passBlocks edited.2 rest
      (.toolResult id name edited.1 isError :: out.1, out.2)
  | st, b :: rest =>
      let out := passBlocks st rest
      (b :: out.1, out.2)

/-- A pass over the tool results of the messages. -/
def passMessages : GuardState → List Message → List Message × GuardState
  | st, [] => ([], st)
  | st, m :: rest =>
      match m.content with
      | .text _ =>
          let out := passMessages st rest
          (m :: out.1, out.2)
      | .blocks bs =>
          let edited := passBlocks step st bs
          let out := passMessages edited.2 rest
          ({ m with content := .blocks edited.1 } :: out.1, out.2)

/-- A pass over contents. -/
def passContents : GuardState → List String → List String × GuardState
  | st, [] => ([], st)
  | st, content :: rest =>
      let edited := step st content
      let out := passContents edited.2 rest
      (edited.1 :: out.1, out.2)

end Pass

/-- The content of a tool result; `none` for another block. -/
def resultText : ContentBlock → Option String
  | .toolResult _ _ content _ => some content
  | _ => none

/-- The contents of the tool results of the messages, oldest first. -/
def resultTexts (messages : List Message) : List String :=
  (messages.flatMap fun m => m.content.blockList).filterMap resultText

/-- The total length of contents. -/
def totalLength (contents : List String) : Nat := (contents.map String.utf8ByteSize).sum

/-- `apply_context_guard`: the messages it leaves, and the number it returns. -/
def contextGuard (budget : ContextBudget) (messages : List Message) : List Message × Nat :=
  let contents := resultTexts messages
  if totalLength contents ≤ budget.totalToolHeadroomChars then (messages, 0)
  else
    let first := passMessages (capResult budget.singleResultMax)
      ⟨totalLength contents, 0, contents.map String.utf8ByteSize⟩ messages
    let second := passMessages (compactResult budget.totalToolHeadroomChars) first.2 first.1
    (second.1, second.2.compacted)

/-! ### A pass changes contents only -/

/-- Messages with the contents of their tool results taken out. -/
def eraseResults (messages : List Message) : List Message :=
  messages.map (editResults (fun _ => true) fun _ => "")

section Pass

variable (step : GuardState → String → String × GuardState)

theorem passBlocks_eq (st : GuardState) (bs : List ContentBlock) :
    (passBlocks step st bs).1.map (editResult (fun _ => true) fun _ => "") =
        bs.map (editResult (fun _ => true) fun _ => "") ∧
      ((passBlocks step st bs).1.filterMap resultText, (passBlocks step st bs).2) =
        passContents step st (bs.filterMap resultText) := by
  induction bs generalizing st with
  | nil => exact ⟨rfl, rfl⟩
  | cons b bs ih =>
      cases b with
      | toolResult id name content isError =>
          obtain ⟨herased, hcontents⟩ := ih (step st content).2
          refine ⟨congrArg (List.cons _) herased, ?_⟩
          have hread : (ContentBlock.toolResult id name content isError :: bs).filterMap
              resultText = content :: bs.filterMap resultText := rfl
          rw [hread, passContents, ← hcontents]
          rfl
      | _ =>
          obtain ⟨herased, hcontents⟩ := ih st
          exact ⟨congrArg (List.cons _) herased, hcontents⟩

theorem passContents_append (st : GuardState) (xs ys : List String) :
    passContents step st (xs ++ ys) =
      ((passContents step st xs).1 ++ (passContents step (passContents step st xs).2 ys).1,
        (passContents step (passContents step st xs).2 ys).2) := by
  induction xs generalizing st with
  | nil => rfl
  | cons x xs ih => simp only [List.cons_append, passContents, ih]

theorem passMessages_eq (st : GuardState) (messages : List Message) :
    eraseResults (passMessages step st messages).1 = eraseResults messages ∧
      (resultTexts (passMessages step st messages).1, (passMessages step st messages).2) =
        passContents step st (resultTexts messages) := by
  induction messages generalizing st with
  | nil => exact ⟨rfl, rfl⟩
  | cons m messages ih =>
      obtain ⟨role, content | bs, ctx⟩ := m
      · obtain ⟨herased, hcontents⟩ := ih st
        exact ⟨congrArg (List.cons _) herased, hcontents⟩
      · obtain ⟨hblocks, htexts⟩ := passBlocks_eq step st bs
        obtain ⟨herased, hcontents⟩ := ih (passBlocks step st bs).2
        refine ⟨?_, ?_⟩
        · simp only [eraseResults, passMessages, List.map_cons, editResults, hblocks] at herased ⊢
          rw [herased]
        · simp only [resultTexts, passMessages, List.flatMap_cons, List.filterMap_append,
            MessageContent.blockList, passContents_append] at hcontents htexts ⊢
          rw [← htexts, ← hcontents]

end Pass

/-! ### The length of a truncation -/

/-- What `truncate_to` keeps of a content that is too long. -/
def compactedFront (maxChars : Nat) (cs : List Char) : List Char :=
  let kept := takeBytes (maxChars - 80) cs
  let front := takeBytes (byteLength kept - 100) kept
  match beforeLast '\n' (kept.drop front.length) with
  | some middle => front ++ middle
  | none => kept

theorem byteLength_compactedFront (maxChars : Nat) (cs : List Char) :
    byteLength (compactedFront maxChars cs) ≤ maxChars - 80 := by
  refine Nat.le_trans ?_ (byteLength_takeBytes_le (maxChars - 80) cs)
  unfold compactedFront
  dsimp only
  generalize takeBytes (maxChars - 80) cs = kept
  split
  · rename_i middle hmiddle
    have hfront := takeBytes_isPrefix (byteLength kept - 100) kept
    generalize takeBytes (byteLength kept - 100) kept = front at hfront hmiddle ⊢
    obtain ⟨behind, rfl⟩ := hfront
    rw [List.drop_left] at hmiddle
    exact byteLength_le_of_prefix
      ((List.prefix_append_right_inj front).mpr (beforeLast_isPrefix hmiddle))
  · exact Nat.le_refl _

/-- The text of the marker has 43 bytes without its numbers. -/
theorem utf8ByteSize_compactedMarker (len shown : Nat) :
    (s!"\n\n[COMPACTED: {len} → {shown} chars by context guard]").utf8ByteSize =
      43 + (toString len).utf8ByteSize + (toString shown).utf8ByteSize := by
  have hfront : (toString "\n\n[COMPACTED: ").utf8ByteSize = 14 := by decide +kernel
  have hmiddle : (toString " → ").utf8ByteSize = 5 := by decide +kernel
  have hbehind : (toString " chars by context guard]").utf8ByteSize = 24 := by decide +kernel
  rw [String.utf8ByteSize_append, String.utf8ByteSize_append, String.utf8ByteSize_append,
    String.utf8ByteSize_append, hfront, hmiddle, hbehind]
  omega

theorem truncateTo_of_le {maxChars : Nat} {content : String}
    (h : content.utf8ByteSize ≤ maxChars) : truncateTo maxChars content = content := if_pos h

theorem utf8ByteSize_truncateTo {maxChars : Nat} {content : String}
    (h : maxChars < content.utf8ByteSize) :
    (truncateTo maxChars content).utf8ByteSize =
      byteLength (compactedFront maxChars content.toList) + (43 +
        (toString content.utf8ByteSize).utf8ByteSize +
          (toString (byteLength (compactedFront maxChars content.toList))).utf8ByteSize) := by
  have htruncated : truncateTo maxChars content =
      String.ofList (compactedFront maxChars content.toList) ++ _ := if_neg (Nat.not_le.mpr h)
  rw [htruncated, String.utf8ByteSize_append, utf8ByteSize_ofList, utf8ByteSize_compactedMarker]
  rfl

/-- A truncation to 2000 bytes or fewer has at most 2000. -/
theorem utf8ByteSize_truncateTo_le {maxChars : Nat} {content : String}
    (h : content.utf8ByteSize < 10 ^ 30) (hmax : maxChars ≤ 2000) :
    (truncateTo maxChars content).utf8ByteSize ≤ 2000 := by
  rcases Nat.lt_or_ge maxChars content.utf8ByteSize with hlong | hfits
  · have hfront := byteLength_compactedFront maxChars content.toList
    have hlen : (toString content.utf8ByteSize).utf8ByteSize ≤ 30 :=
      utf8ByteSize_toString_le (by decide) h
    have hshown : (toString (byteLength (compactedFront maxChars content.toList))).utf8ByteSize ≤
        4 := utf8ByteSize_toString_le (by decide) (by omega)
    rw [utf8ByteSize_truncateTo hlong]
    omega
  · rw [truncateTo_of_le hfits]
    exact hfits.trans hmax

/-- No truncation makes a length that is none. -/
theorem utf8ByteSize_truncateTo_lt (maxChars : Nat) {content : String}
    (h : content.utf8ByteSize < 2 ^ 64) :
    (truncateTo maxChars content).utf8ByteSize < 10 ^ 30 := by
  rcases Nat.lt_or_ge maxChars content.utf8ByteSize with hlong | hfits
  · have hfront := byteLength_compactedFront maxChars content.toList
    have hlen : (toString content.utf8ByteSize).utf8ByteSize ≤ 20 :=
      utf8ByteSize_toString_le (by decide) (by omega)
    have hshown : (toString (byteLength (compactedFront maxChars content.toList))).utf8ByteSize ≤
        20 := utf8ByteSize_toString_le (by decide) (by omega)
    rw [utf8ByteSize_truncateTo hlong]
    omega
  · rw [truncateTo_of_le hfits]
    omega

/-! ### The passes over contents -/

section Contents

variable (headroom singleMax : Nat)

/-- A result that the second pass truncates where it comes to it. -/
def isCompactable (content : String) : Bool :=
  decide (2000 < content.utf8ByteSize) &&
    decide (2000 < (truncateTo singleMax content).utf8ByteSize)

/-- What both passes make of a content that the second one comes to. -/
def compactedForm (content : String) : String :=
  if isCompactable singleMax content then truncateTo 2000 (truncateTo singleMax content)
  else truncateTo singleMax content

variable {headroom singleMax}

variable (singleMax) in
theorem utf8ByteSize_compactedForm_le {content : String} (h : content.utf8ByteSize < 2 ^ 64) :
    (compactedForm singleMax content).utf8ByteSize ≤ 2000 := by
  unfold compactedForm isCompactable
  split
  · exact utf8ByteSize_truncateTo_le (utf8ByteSize_truncateTo_lt singleMax h) (Nat.le_refl _)
  · rename_i hshort
    rw [Bool.and_eq_true, decide_eq_true_eq, decide_eq_true_eq, not_and_or, Nat.not_lt,
      Nat.not_lt] at hshort
    rcases hshort with hshort | hshort
    · rcases Nat.lt_or_ge singleMax content.utf8ByteSize with hlong | hfits
      · exact utf8ByteSize_truncateTo_le (by omega) (by omega)
      · rwa [truncateTo_of_le hfits]
    · exact hshort

/-- The second pass makes no content longer. -/
theorem utf8ByteSize_compactedForm_le_cap {content : String} (h : content.utf8ByteSize < 2 ^ 64) :
    (compactedForm singleMax content).utf8ByteSize ≤
      (truncateTo singleMax content).utf8ByteSize := by
  have hbound := utf8ByteSize_compactedForm_le singleMax h
  unfold compactedForm isCompactable at hbound ⊢
  split
  · rename_i hlong
    rw [Bool.and_eq_true, decide_eq_true_eq, decide_eq_true_eq] at hlong
    rw [if_pos (by simpa using hlong)] at hbound
    omega
  · exact Nat.le_refl _

/-- The first pass caps every content, and counts those it truncates. -/
theorem passContents_cap (st : GuardState) (contents : List String)
    (h : totalLength contents ≤ st.totalChars) :
    passContents (capResult singleMax) st contents =
      (contents.map (truncateTo singleMax),
        { st with
          totalChars := st.totalChars - totalLength contents +
            totalLength (contents.map (truncateTo singleMax))
          compacted := st.compacted +
            contents.countP fun content => decide (singleMax < content.utf8ByteSize) }) := by
  induction contents generalizing st with
  | nil => rfl
  | cons content contents ih =>
      have hsum : totalLength (content :: contents) =
          content.utf8ByteSize + totalLength contents := by
        rw [totalLength, List.map_cons, List.sum_cons, totalLength]
      have hcapped : totalLength ((content :: contents).map (truncateTo singleMax)) =
          (truncateTo singleMax content).utf8ByteSize +
            totalLength (contents.map (truncateTo singleMax)) := by
        rw [totalLength, List.map_cons, List.map_cons, List.sum_cons, totalLength]
      rw [hsum] at h
      rw [hsum, hcapped, passContents, capResult]
      rcases Nat.lt_or_ge singleMax content.utf8ByteSize with hlong | hfits
      · rw [if_pos hlong, GuardState.truncate]
        dsimp only
        rw [ih _ (by dsimp only; omega), List.countP_cons_of_pos (by simpa using hlong),
          List.map_cons]
        simp only [Prod.mk.injEq, GuardState.mk.injEq, true_and, and_true]
        omega
      · rw [if_neg (Nat.not_lt.mpr hfits)]
        dsimp only
        rw [ih _ (by omega), List.countP_cons_of_neg (by simpa using hfits), List.map_cons,
          truncateTo_of_le hfits]
        simp only [Prod.mk.injEq, GuardState.mk.injEq, true_and, and_true]
        omega

variable (headroom singleMax) in
/-- The contents that both passes leave, behind contents of length `done`. -/
def guarded (done : Nat) (contents : List String) : List String :=
  shrinkUntil String.utf8ByteSize (truncateTo singleMax) (compactedForm singleMax) headroom done
    contents

variable (headroom singleMax) in
/-- The contents that the second pass comes to. -/
def reached (done : Nat) (contents : List String) : List String :=
  shrunk String.utf8ByteSize (truncateTo singleMax) (compactedForm singleMax) headroom done
    contents

variable (singleMax) in
/-- The total at a content: those in front are through both passes, the others through the first. -/
def totalAt (older rest : List String) : Nat :=
  weightAt String.utf8ByteSize (truncateTo singleMax) (compactedForm singleMax) older rest

theorem totalAt_nil (contents : List String) :
    totalAt singleMax [] contents = totalLength (contents.map (truncateTo singleMax)) := by
  rw [totalAt, weightAt, List.map_nil, List.sum_nil, Nat.zero_add, totalLength, List.map_map]
  rfl

/-- The second pass shrinks the contents until the total fits, and counts those it truncates. -/
theorem passContents_compact (st : GuardState) (contents : List String) {done : Nat}
    (hlens : st.charLens = contents.map String.utf8ByteSize)
    (htotal : st.totalChars = done + totalAt singleMax [] contents) :
    (passContents (compactResult headroom) st (contents.map (truncateTo singleMax))).1 =
        guarded headroom singleMax done contents ∧
      (passContents (compactResult headroom) st (contents.map (truncateTo singleMax))).2.compacted =
        st.compacted +
          (reached headroom singleMax done contents).countP (isCompactable singleMax) := by
  induction contents generalizing st done with
  | nil => exact ⟨rfl, rfl⟩
  | cons content contents ih =>
      have hsum : totalAt singleMax [] (content :: contents) =
          (truncateTo singleMax content).utf8ByteSize + totalAt singleMax [] contents := by
        rw [totalAt_nil, totalAt_nil, List.map_cons, totalLength, List.map_cons, List.sum_cons,
          totalLength]
      rw [hsum] at htotal
      rw [List.map_cons, passContents, compactResult, hlens, List.map_cons, List.headD_cons,
        List.tail_cons]
      by_cases hfits : st.totalChars ≤ headroom
      · have hall : done + totalAt singleMax [] (content :: contents) ≤ headroom := by
          rwa [hsum, ← htotal]
        have hbehind : done + (truncateTo singleMax content).utf8ByteSize +
            totalAt singleMax [] contents ≤ headroom := by
          rwa [Nat.add_assoc, ← htotal]
        obtain ⟨hleft, hcount⟩ := ih { st with charLens := contents.map String.utf8ByteSize } rfl
          (htotal.trans (Nat.add_assoc _ _ _).symm)
        rw [if_pos (.inl hfits), guarded, reached, (shrinkUntil_of_fits hall).1,
          (shrinkUntil_of_fits hall).2]
        rw [guarded, (shrinkUntil_of_fits hbehind).1] at hleft
        rw [reached, (shrinkUntil_of_fits hbehind).2] at hcount
        exact ⟨congrArg (List.cons _) hleft, hcount⟩
      · have hover : headroom < done + totalAt singleMax [] (content :: contents) := by
          rw [hsum, ← htotal]
          exact Nat.lt_of_not_le hfits
        rw [totalAt] at hover
        rw [guarded, reached, shrinkUntil, shrunk, if_pos hover, if_pos hover]
        by_cases hlong : isCompactable singleMax content = true
        · have hform : compactedForm singleMax content =
              truncateTo 2000 (truncateTo singleMax content) := if_pos hlong
          obtain ⟨hleft, hcount⟩ := @ih
            { totalChars := done + (compactedForm singleMax content).utf8ByteSize +
                totalAt singleMax [] contents
              compacted := st.compacted + 1
              charLens := contents.map String.utf8ByteSize } _ rfl rfl
          have hlong' := hlong
          rw [isCompactable, Bool.and_eq_true, decide_eq_true_eq, decide_eq_true_eq] at hlong'
          rw [if_neg (by omega), GuardState.truncate, List.countP_cons_of_pos hlong, hform]
          have hnext : st.totalChars - (truncateTo singleMax content).utf8ByteSize +
              (truncateTo 2000 (truncateTo singleMax content)).utf8ByteSize =
                done + (truncateTo 2000 (truncateTo singleMax content)).utf8ByteSize +
                  totalAt singleMax [] contents := by
            omega
          rw [hform] at hleft hcount
          dsimp only
          rw [hnext]
          refine ⟨congrArg (List.cons _) hleft, hcount.trans ?_⟩
          rw [reached]
          dsimp only
          omega
        · have hform : compactedForm singleMax content = truncateTo singleMax content :=
            if_neg hlong
          obtain ⟨hleft, hcount⟩ := ih { st with charLens := contents.map String.utf8ByteSize } rfl
            (htotal.trans (Nat.add_assoc _ _ _).symm)
          have hlong' := hlong
          rw [isCompactable, Bool.and_eq_true, decide_eq_true_eq, decide_eq_true_eq] at hlong'
          rw [if_pos (by omega), List.countP_cons_of_neg hlong, hform]
          exact ⟨congrArg (List.cons _) hleft, hcount⟩

/-! ### The number returned -/

/-- How many contents differ. -/
def changed (before after : List String) : Nat :=
  (before.zip after).countP fun pair => decide (pair.1 ≠ pair.2)

theorem changed_cons (x y : String) (xs ys : List String) :
    changed (x :: xs) (y :: ys) = changed xs ys + if x ≠ y then 1 else 0 := by
  rw [changed, List.zip_cons_cons, List.countP_cons, changed]
  simp

theorem changed_map (f : String → String) (xs : List String) :
    changed xs (xs.map f) = xs.countP fun x => decide (x ≠ f x) := by
  induction xs with
  | nil => rfl
  | cons x xs ih =>
      rw [List.map_cons, changed_cons, ih, List.countP_cons]
      simp

/-- Every content that satisfies the one satisfies the other if as many satisfy both. -/
theorem countP_eq_countP_iff {α : Type} {p q : α → Bool} {xs : List α}
    (h : ∀ x ∈ xs, p x = true → q x = true) :
    xs.countP p ≤ xs.countP q ∧
      (xs.countP q = xs.countP p ↔ ∀ x ∈ xs, q x = true → p x = true) := by
  induction xs with
  | nil => simp
  | cons x xs ih =>
      obtain ⟨hx, hxs⟩ := List.forall_mem_cons.mp h
      obtain ⟨hle, hiff⟩ := ih hxs
      rw [List.countP_cons, List.countP_cons, List.forall_mem_cons, ← hiff]
      cases hp : p x with
      | true => simp [hx hp, hle]
      | false =>
          cases hq : q x with
          | true => simp; omega
          | false => simp [hle]

variable (headroom singleMax) in
/-- No content is its own truncation or truncated in both passes. -/
def TruncatedOnce (done : Nat) (contents : List String) : Prop :=
  ∀ older content newer, contents = older ++ content :: newer →
    singleMax < content.utf8ByteSize →
      truncateTo singleMax content ≠ content ∧
        ¬ (2000 < (truncateTo singleMax content).utf8ByteSize ∧
          headroom < done + totalAt singleMax older (content :: newer))

theorem truncatedOnce_cons {done : Nat} {content : String} {contents : List String}
    (h : headroom < done + totalAt singleMax [] (content :: contents)) :
    TruncatedOnce headroom singleMax done (content :: contents) ↔
      (singleMax < content.utf8ByteSize → truncateTo singleMax content ≠ content ∧
          ¬ 2000 < (truncateTo singleMax content).utf8ByteSize) ∧
        TruncatedOnce headroom singleMax
          (done + (compactedForm singleMax content).utf8ByteSize) contents := by
  have hcons : ∀ older rest, done + totalAt singleMax (content :: older) rest =
      done + (compactedForm singleMax content).utf8ByteSize + totalAt singleMax older rest := by
    intro older rest
    rw [totalAt, weightAt_cons, Nat.add_assoc, totalAt]
  constructor
  · intro honce
    refine ⟨fun hlong => ?_, fun older x newer hsplit hlong => ?_⟩
    · obtain ⟨hown, hboth⟩ := honce [] content contents rfl hlong
      exact ⟨hown, fun hcapped => hboth ⟨hcapped, h⟩⟩
    · have hx := honce (content :: older) x newer (by rw [hsplit, List.cons_append]) hlong
      rwa [hcons] at hx
  · rintro ⟨hhead, htail⟩ older x newer hsplit hlong
    cases older with
    | nil =>
        obtain ⟨rfl, rfl⟩ := List.cons.inj hsplit
        obtain ⟨hown, hshort⟩ := hhead hlong
        exact ⟨hown, fun hboth => hshort hboth.1⟩
    | cons y older =>
        obtain ⟨rfl, hrest⟩ := List.cons.inj hsplit
        rw [hcons]
        exact htail older x newer hrest hlong

theorem truncatedOnce_of_fits {done : Nat} {contents : List String}
    (hbound : ∀ content ∈ contents, content.utf8ByteSize < 2 ^ 64)
    (h : done + totalAt singleMax [] contents ≤ headroom) :
    TruncatedOnce headroom singleMax done contents ↔
      ∀ content ∈ contents, singleMax < content.utf8ByteSize →
        truncateTo singleMax content ≠ content := by
  constructor
  · intro honce content hmem hlong
    obtain ⟨older, newer, hsplit⟩ := List.append_of_mem hmem
    exact (honce older content newer hsplit hlong).1
  · rintro hown older content newer rfl hlong
    refine ⟨hown content (by simp) hlong, fun hboth => ?_⟩
    have holder : ∀ x ∈ older, (compactedForm singleMax x).utf8ByteSize ≤
        (truncateTo singleMax x).utf8ByteSize := fun x hx =>
      utf8ByteSize_compactedForm_le_cap (hbound x (List.mem_append_left _ hx))
    have hdown : totalAt singleMax older (content :: newer) ≤ _ :=
      weightAt_append_le holder (content :: newer)
    rw [totalAt] at h
    omega

/-- The truncations of one content, and whether it changes. -/
theorem truncations_eq_iff {content : String} (h : content.utf8ByteSize < 2 ^ 64) :
    let truncations := (if singleMax < content.utf8ByteSize then 1 else 0) +
      if isCompactable singleMax content then 1 else 0
    let change := if content ≠ compactedForm singleMax content then 1 else 0
    change ≤ truncations ∧ (truncations = change ↔
      (singleMax < content.utf8ByteSize → truncateTo singleMax content ≠ content ∧
        ¬ 2000 < (truncateTo singleMax content).utf8ByteSize)) := by
  have hbound := utf8ByteSize_compactedForm_le singleMax h
  dsimp only
  rcases Nat.lt_or_ge singleMax content.utf8ByteSize with hlong | hfits
  · by_cases hcompactable : isCompactable singleMax content = true
    · -- Truncated in both passes.
      rw [if_pos hlong, if_pos hcompactable]
      rw [isCompactable, Bool.and_eq_true, decide_eq_true_eq, decide_eq_true_eq] at hcompactable
      refine ⟨by split <;> omega, iff_of_false (by split <;> omega) fun hshort => ?_⟩
      exact (hshort hlong).2 hcompactable.2
    · have hform : compactedForm singleMax content = truncateTo singleMax content :=
        if_neg hcompactable
      rw [hform] at hbound
      rw [if_pos hlong, if_neg hcompactable, hform]
      refine ⟨by split <;> omega, ?_⟩
      by_cases hown : content = truncateTo singleMax content
      · rw [if_neg (not_not_intro hown)]
        exact iff_of_false (by omega) fun hchange => (hchange hlong).1 hown.symm
      · rw [if_pos hown]
        exact iff_of_true rfl fun _ => ⟨Ne.symm hown, Nat.not_lt.mpr hbound⟩
  · have hcap := truncateTo_of_le hfits
    rw [if_neg (Nat.not_lt.mpr hfits)]
    refine ⟨?_, iff_of_true ?_ fun hlong => absurd hlong (Nat.not_lt.mpr hfits)⟩
    all_goals
      by_cases hcompactable : isCompactable singleMax content = true
      · have hchange : content ≠ compactedForm singleMax content := by
          intro hsame
          rw [← hsame] at hbound
          rw [isCompactable, Bool.and_eq_true, decide_eq_true_eq] at hcompactable
          omega
        rw [if_pos hcompactable, if_pos hchange]
      · have hform : compactedForm singleMax content = content := by
          rw [compactedForm, if_neg hcompactable, hcap]
        rw [if_neg hcompactable, hform, if_neg (not_not_intro rfl)]

/-- As many contents change as are truncated, unless one is its own truncation or is truncated in
both passes. -/
theorem truncations_eq_changed_iff {done : Nat} {contents : List String}
    (hbound : ∀ content ∈ contents, content.utf8ByteSize < 2 ^ 64) :
    let truncations := (contents.countP fun content => decide (singleMax < content.utf8ByteSize)) +
      (reached headroom singleMax done contents).countP (isCompactable singleMax)
    let changes := changed contents (guarded headroom singleMax done contents)
    changes ≤ truncations ∧
      (truncations = changes ↔ TruncatedOnce headroom singleMax done contents) := by
  dsimp only
  induction contents generalizing done with
  | nil => exact ⟨Nat.le_refl _, iff_of_true rfl fun older content newer h => by simp at h⟩
  | cons content contents ih =>
      obtain ⟨hcontent, hcontents⟩ := List.forall_mem_cons.mp hbound
      rcases Nat.lt_or_ge headroom (done + totalAt singleMax [] (content :: contents)) with
        hover | hfits
      · obtain ⟨hle, hiff⟩ := @ih (done + (compactedForm singleMax content).utf8ByteSize) hcontents
        obtain ⟨hhead, hheadIff⟩ := @truncations_eq_iff singleMax _ hcontent
        have hover' := hover
        rw [totalAt] at hover'
        rw [truncatedOnce_cons hover, ← hiff, ← hheadIff, guarded, reached, shrinkUntil, shrunk,
          if_pos hover', if_pos hover', changed_cons, List.countP_cons, List.countP_cons]
        simp only [decide_eq_true_eq] at hhead hheadIff ⊢
        rw [guarded, reached] at hle ⊢
        omega
      · rw [truncatedOnce_of_fits hbound hfits, guarded, reached, (shrinkUntil_of_fits hfits).1,
          (shrinkUntil_of_fits hfits).2, changed_map, List.countP_nil, Nat.add_zero]
        have hsub : ∀ x ∈ content :: contents, decide (x ≠ truncateTo singleMax x) = true →
            decide (singleMax < x.utf8ByteSize) = true := by
          intro x _ hx
          rw [decide_eq_true_eq] at hx ⊢
          exact Nat.lt_of_not_le fun hle => hx (truncateTo_of_le hle).symm
        obtain ⟨hle, hiff⟩ := countP_eq_countP_iff hsub
        refine ⟨hle, hiff.trans ?_⟩
        simp only [decide_eq_true_eq, ne_comm]

end Contents

/-! ### Plain results -/

theorem takeBytes_replicate (k n : Nat) :
    takeBytes k (List.replicate n 'a') = List.replicate (min k n) 'a' := by
  induction n generalizing k with
  | zero => rw [Nat.min_zero, List.replicate_zero, takeBytes]
  | succ n ih =>
      rw [List.replicate_succ, takeBytes, show 'a'.utf8Size = 1 from rfl]
      cases k with
      | zero => rfl
      | succ k =>
          rw [if_pos (Nat.le_add_left 1 k), Nat.add_sub_cancel, ih, ← List.replicate_succ,
            Nat.succ_min_succ]

theorem beforeLast_replicate (n : Nat) : beforeLast '\n' (List.replicate n 'a') = none := by
  induction n with
  | zero => rfl
  | succ n ih =>
      rw [List.replicate_succ, beforeLast, ih]
      rfl

theorem byteLength_replicate (n : Nat) : byteLength (List.replicate n 'a') = n := by
  rw [byteLength_of_ascii fun c hc => by rw [List.eq_of_mem_replicate hc]; rfl,
    List.length_replicate]

theorem compactedFront_replicate (maxChars n : Nat) :
    compactedFront maxChars (List.replicate n 'a') =
      List.replicate (min (maxChars - 80) n) 'a' := by
  rw [compactedFront, takeBytes_replicate, takeBytes_replicate, List.drop_replicate,
    beforeLast_replicate]

/-- A result of `n` bytes. -/
def plainResult (n : Nat) : String := String.ofList (List.replicate n 'a')

theorem utf8ByteSize_plainResult (n : Nat) : (plainResult n).utf8ByteSize = n := by
  rw [plainResult, utf8ByteSize_ofList, byteLength_replicate]

theorem utf8ByteSize_truncateTo_plainResult {maxChars n : Nat} (h : maxChars < n) :
    (truncateTo maxChars (plainResult n)).utf8ByteSize =
      maxChars - 80 +
        (43 + (toString n).utf8ByteSize + (toString (maxChars - 80)).utf8ByteSize) := by
  rw [utf8ByteSize_truncateTo (by rwa [utf8ByteSize_plainResult]), utf8ByteSize_plainResult,
    plainResult, String.toList_ofList, compactedFront_replicate, byteLength_replicate,
    Nat.min_eq_left (by omega)]

/-! ### The guard -/

section Guard

variable (budget : ContextBudget) (messages : List Message)

/-- The guard reaches its bound, leaves the rest alone, and returns how many results changed. -/
structure GuardHonest (out : List Message × Nat) : Prop where
  frame : eraseResults out.1 = eraseResults messages
  bounded : totalLength (resultTexts out.1) ≤ budget.totalToolHeadroomChars ∨
    ∀ content ∈ resultTexts out.1, content.utf8ByteSize ≤ 2000
  newer : ∀ older content newer, resultTexts messages = older ++ content :: newer →
    totalAt budget.singleResultMax older (content :: newer) ≤ budget.totalToolHeadroomChars →
      content.utf8ByteSize ≤ budget.singleResultMax →
        (resultTexts out.1)[older.length]? = some content
  counted : out.2 = changed (resultTexts messages) (resultTexts out.1)

theorem changed_self (contents : List String) : changed contents contents = 0 := by
  induction contents with
  | nil => rfl
  | cons content contents ih =>
      rw [changed_cons, ih, if_neg (not_not_intro rfl)]

variable {messages} in
/-- Above the headroom: the contents that both passes leave, and the number of truncations. -/
theorem contextGuard_eq
    (h : budget.totalToolHeadroomChars < totalLength (resultTexts messages)) :
    eraseResults (contextGuard budget messages).1 = eraseResults messages ∧
      resultTexts (contextGuard budget messages).1 =
        guarded budget.totalToolHeadroomChars budget.singleResultMax 0 (resultTexts messages) ∧
      (contextGuard budget messages).2 =
        ((resultTexts messages).countP fun content =>
          decide (budget.singleResultMax < content.utf8ByteSize)) +
        (reached budget.totalToolHeadroomChars budget.singleResultMax 0
          (resultTexts messages)).countP (isCompactable budget.singleResultMax) := by
  unfold contextGuard
  dsimp only
  rw [if_neg (Nat.not_le.mpr h)]
  generalize hstart : (GuardState.mk (totalLength (resultTexts messages)) 0
    ((resultTexts messages).map String.utf8ByteSize)) = st
  obtain ⟨hframe, htexts⟩ := passMessages_eq (capResult budget.singleResultMax) st messages
  rw [passContents_cap st (resultTexts messages) (by rw [← hstart])] at htexts
  obtain ⟨hcapped, hstate⟩ := Prod.mk.inj htexts
  obtain ⟨hframe', htexts'⟩ := passMessages_eq (compactResult budget.totalToolHeadroomChars)
    (passMessages (capResult budget.singleResultMax) st messages).2
    (passMessages (capResult budget.singleResultMax) st messages).1
  rw [hcapped] at htexts'
  have hlens : (passMessages (capResult budget.singleResultMax) st messages).2.charLens =
      (resultTexts messages).map String.utf8ByteSize := by
    rw [hstate, ← hstart]
  have htotal : (passMessages (capResult budget.singleResultMax) st messages).2.totalChars =
      0 + totalAt budget.singleResultMax [] (resultTexts messages) := by
    rw [hstate, ← hstart, totalAt_nil]
    dsimp only
    rw [Nat.sub_self]
  obtain ⟨hleft, hcount⟩ :=
    @passContents_compact budget.totalToolHeadroomChars _ _ _ _ hlens htotal
  obtain ⟨hout, hend⟩ := Prod.mk.inj htexts'
  refine ⟨hframe'.trans hframe, hout.trans hleft, ?_⟩
  rw [hend, hcount, hstate, ← hstart, Nat.zero_add]

variable {messages} in
/-- For every history and budget: the guard is honest if and only if the results are within the
headroom, or none of them is its own truncation or truncated in both passes. -/
theorem contextGuard_honest_iff
    (hbound : ∀ content ∈ resultTexts messages, content.utf8ByteSize < 2 ^ 64) :
    GuardHonest budget messages (contextGuard budget messages) ↔
      totalLength (resultTexts messages) ≤ budget.totalToolHeadroomChars ∨
        TruncatedOnce budget.totalToolHeadroomChars budget.singleResultMax 0
          (resultTexts messages) := by
  rcases Nat.lt_or_ge budget.totalToolHeadroomChars (totalLength (resultTexts messages)) with
    hover | hfits
  · obtain ⟨hframe, htexts, hcount⟩ := contextGuard_eq budget hover
    obtain ⟨-, hiff⟩ := @truncations_eq_changed_iff budget.totalToolHeadroomChars
      budget.singleResultMax 0 _ hbound
    rw [or_iff_right (Nat.not_le.mpr hover), ← hiff, ← hcount, ← htexts]
    refine ⟨GuardHonest.counted, fun hcounted => ?_⟩
    exact
      { frame := hframe
        bounded := by
          rw [htexts, guarded]
          rcases shrinkUntil_fits 0 (resultTexts messages) with hsum | hall
          · rw [Nat.zero_add] at hsum
            exact .inl hsum
          · right
            rw [hall]
            intro content hcontent
            obtain ⟨original, horiginal, rfl⟩ := List.mem_map.mp hcontent
            exact utf8ByteSize_compactedForm_le _ (hbound original horiginal)
        newer := by
          intro older content newer hsplit hfits hshort
          have holder : ∀ x ∈ older, (compactedForm budget.singleResultMax x).utf8ByteSize ≤
              (truncateTo budget.singleResultMax x).utf8ByteSize := by
            intro x hx
            refine utf8ByteSize_compactedForm_le_cap (hbound x ?_)
            rw [hsplit]
            exact List.mem_append_left _ hx
          rw [htexts, hsplit, guarded, getElem?_shrinkUntil holder, Nat.zero_add, ← totalAt,
            if_neg (Nat.not_lt.mpr hfits), truncateTo_of_le hshort]
        counted := hcounted }
  · have hsame : contextGuard budget messages = (messages, 0) := if_pos hfits
    rw [hsame]
    refine iff_of_true ?_ (.inl hfits)
    exact
      { frame := rfl
        bounded := .inl hfits
        newer := fun older content newer hsplit _ _ => by rw [hsplit]; simp
        counted := (changed_self _).symm }

/-- A result that is within the cap, and one that is beyond it. -/
def mixedResults (n m : Nat) : List Message :=
  [.userWithBlocks [.toolResult "t1" "file_read" (plainResult n) false, .text "next" none,
    .toolResult "t2" "file_read" (plainResult m) false]]

/-- Where the second pass has compacted the first result, the total is within the headroom. -/
theorem truncatedOnce_mixed {n m : Nat} (hn : n ≤ 10000) (hm : 10000 < m) (hfits : m < 10 ^ 20) :
    TruncatedOnce 15000 10000 0 (resultTexts (mixedResults n m)) := by
  have hcapped := utf8ByteSize_truncateTo_plainResult hm
  have hlen : (toString m).utf8ByteSize ≤ 20 := utf8ByteSize_toString_le (by decide) hfits
  have hshown : (toString (10000 - 80)).utf8ByteSize ≤ 4 := by decide +kernel
  have hold : (compactedForm 10000 (plainResult n)).utf8ByteSize ≤ 2000 :=
    utf8ByteSize_compactedForm_le _ (by rw [utf8ByteSize_plainResult]; omega)
  rw [show resultTexts (mixedResults n m) = [plainResult n, plainResult m] from rfl]
  intro older content newer hsplit hlong
  rcases List.cons_eq_append_iff.mp hsplit with ⟨rfl, hcons⟩ | ⟨older', rfl, hrest⟩
  · obtain ⟨rfl, -⟩ := List.cons.inj hcons
    rw [utf8ByteSize_plainResult] at hlong
    omega
  · rcases List.cons_eq_append_iff.mp hrest with ⟨rfl, hcons⟩ | ⟨older'', rfl, hnil⟩
    · obtain ⟨rfl, rfl⟩ := List.cons.inj hcons
      refine ⟨fun hsame => ?_, fun hboth => ?_⟩
      · rw [hsame, utf8ByteSize_plainResult] at hcapped
        omega
      · have hover := hboth.2
        simp only [totalAt, weightAt, List.map_cons, List.map_nil, List.sum_cons, List.sum_nil]
          at hover
        omega
    · simp at hnil

/-- The first pass truncates the second result, the second pass the first. -/
theorem contextGuard_honest_iff_mixed :
    GuardHonest (.new 10000) (mixedResults 9000 20000)
      (contextGuard (.new 10000) (mixedResults 9000 20000)) := by
  have hmax : (ContextBudget.new 10000).singleResultMax = 10000 := by decide +kernel
  have hheadroom : (ContextBudget.new 10000).totalToolHeadroomChars = 15000 := by decide +kernel
  refine (contextGuard_honest_iff (.new 10000) ?_).mpr (.inr ?_)
  · intro content hcontent
    rcases List.mem_pair.mp hcontent with rfl | rfl
    · rw [utf8ByteSize_plainResult]
      decide
    · rw [utf8ByteSize_plainResult]
      decide
  · rw [hmax, hheadroom]
    exact truncatedOnce_mixed (by decide) (by decide) (by decide)

end Guard

/-! ### Both passes at once -/

theorem capResult_fst (singleMax : Nat) (st : GuardState) (content : String) :
    (capResult singleMax st content).1 = truncateTo singleMax content := by
  unfold capResult
  split
  · rfl
  · rename_i hfits
    exact (truncateTo_of_le (Nat.le_of_not_lt hfits)).symm

theorem capSingle_toolResult (singleMax : Nat) (id name content : String) (isError : Bool) :
    capSingle singleMax (.toolResult id name content isError) =
      .toolResult id name (truncateTo singleMax content) isError := by
  rw [capSingle, editResult, resultLength, Option.getD_some]
  split
  · rfl
  · rename_i hfits
    rw [truncateTo_of_le (by simpa using hfits)]

theorem passBlocks_compact (headroom singleMax : Nat) (first st : GuardState)
    (bs : List ContentBlock) {more : List Nat}
    (hlens : st.charLens = (bs.filterMap resultText).map String.utf8ByteSize ++ more) :
    let capped := (passBlocks (capResult singleMax) first bs).1
    let out := passBlocks (compactResult headroom) st capped
    (out.1, out.2.totalChars) = compactBlocks headroom singleMax st.totalChars bs ∧
      out.2.charLens = more := by
  induction bs generalizing first st with
  | nil => exact ⟨rfl, hlens⟩
  | cons b bs ih =>
      cases b with
      | toolResult id name content isError =>
          have hread : (ContentBlock.toolResult id name content isError :: bs).filterMap
              resultText = content :: bs.filterMap resultText := rfl
          have hlength : (resultLength (.toolResult id name content isError)).getD 0 =
              content.utf8ByteSize := rfl
          rw [hread, List.map_cons, List.cons_append] at hlens
          dsimp only
          rw [passBlocks, passBlocks, capResult_fst, compactResult, hlens, List.headD_cons,
            List.tail_cons, compactBlocks, capSingle_toolResult]
          dsimp only
          rw [hlength]
          by_cases hleave : st.totalChars ≤ headroom ∨ content.utf8ByteSize ≤ 2000 ∨
              (truncateTo singleMax content).utf8ByteSize ≤ 2000
          · rw [if_pos hleave, if_pos hleave]
            obtain ⟨hout, hleft⟩ := ih (capResult singleMax first content).2
              { st with charLens := (bs.filterMap resultText).map String.utf8ByteSize ++ more } rfl
            rw [← hout]
            exact ⟨rfl, hleft⟩
          · rw [if_neg hleave, if_neg hleave]
            obtain ⟨hout, hleft⟩ := ih (capResult singleMax first content).2
              { totalChars := st.totalChars - (truncateTo singleMax content).utf8ByteSize +
                  (truncateTo 2000 (truncateTo singleMax content)).utf8ByteSize
                compacted := st.compacted + 1
                charLens := (bs.filterMap resultText).map String.utf8ByteSize ++ more } rfl
            rw [← hout]
            exact ⟨rfl, hleft⟩
      | _ =>
          obtain ⟨hout, hleft⟩ := ih first st hlens
          refine ⟨?_, hleft⟩
          simp only [compactBlocks, capSingle, editResult, ← hout]
          rfl

theorem passMessages_compact (headroom singleMax : Nat) (first st : GuardState)
    (messages : List Message) {more : List Nat}
    (hlens : st.charLens = (resultTexts messages).map String.utf8ByteSize ++ more) :
    (passMessages (compactResult headroom) st
        (passMessages (capResult singleMax) first messages).1).1 =
      compactMessages headroom singleMax st.totalChars messages := by
  induction messages generalizing first st with
  | nil => rfl
  | cons m messages ih =>
      obtain ⟨role, content | bs, ctx⟩ := m
      · exact congrArg (List.cons _) (ih first st hlens)
      · have hread : resultTexts (⟨role, .blocks bs, ctx⟩ :: messages) =
            bs.filterMap resultText ++ resultTexts messages := by
          rw [resultTexts, List.flatMap_cons, List.filterMap_append]
          rfl
        rw [hread, List.map_append, List.append_assoc] at hlens
        obtain ⟨hout, hleft⟩ := passBlocks_compact headroom singleMax first st bs hlens
        rw [passMessages, passMessages, compactMessages]
        dsimp only
        rw [← hout, ih _ _ hleft]

theorem totalResultLength_eq (messages : List Message) :
    totalResultLength messages = totalLength (resultTexts messages) := by
  have hlength : resultLength = fun b => (resultText b).map String.utf8ByteSize := by
    funext b
    cases b <;> rfl
  rw [totalResultLength, hlength, totalLength, resultTexts, List.map_filterMap]

theorem resultTexts_capMessage (singleMax : Nat) (messages : List Message) :
    resultTexts (messages.map (capMessage singleMax)) =
      (resultTexts messages).map (truncateTo singleMax) := by
  have hblock : ∀ b, resultText (capSingle singleMax b) =
      (resultText b).map (truncateTo singleMax) := by
    intro b
    cases b with
    | toolResult id name content isError =>
        rw [capSingle_toolResult]
        rfl
    | _ => rfl
  have hmessage : ∀ m, (capMessage singleMax m).content.blockList =
      m.content.blockList.map (capSingle singleMax) := by
    intro m
    obtain ⟨role, content | bs, ctx⟩ := m
    · rfl
    · rfl
  rw [resultTexts, resultTexts, List.flatMap_map]
  simp only [hmessage]
  rw [← List.map_flatMap, List.filterMap_map, List.map_filterMap]
  exact congrArg (fun f => List.filterMap f _) (funext hblock)

/-- The messages the guard leaves are those of `applyContextGuard`, which makes both passes at
once. -/
theorem contextGuard_new (contextWindow : Nat) (messages : List Message) :
    (contextGuard (.new contextWindow) messages).1 = applyContextGuard messages contextWindow := by
  unfold contextGuard applyContextGuard
  dsimp only
  rw [totalResultLength_eq, totalResultLength_eq, resultTexts_capMessage]
  split
  · rename_i hfits
    exact (if_pos hfits).symm
  · rename_i hover
    refine Eq.trans ?_ (if_neg hover).symm
    generalize hstart : (GuardState.mk (totalLength (resultTexts messages)) 0
      ((resultTexts messages).map String.utf8ByteSize)) = st
    obtain ⟨-, htexts⟩ :=
      passMessages_eq (capResult (ContextBudget.new contextWindow).singleResultMax) st messages
    rw [passContents_cap st (resultTexts messages) (by rw [← hstart])] at htexts
    obtain ⟨-, hstate⟩ := Prod.mk.inj htexts
    rw [@passMessages_compact _ _ _ _ _ [] (by rw [hstate, ← hstart, List.append_nil]),
      hstate, ← hstart]
    dsimp only
    rw [Nat.sub_self, Nat.zero_add]
    rfl

/-! ### Two long results -/

/-- Two results of `n` bytes. -/
def plainResults (n : Nat) : List Message :=
  [.userWithBlocks [.toolResult "t1" "file_read" (plainResult n) false,
    .toolResult "t2" "file_read" (plainResult n) false]]

/-- In a window of 2400 tokens two longer results are truncated in both passes: counted twice. -/
theorem contextGuard_plainResults {n : Nat} (hlong : 2400 < n) (hn : n < 2 ^ 64) :
    ¬ GuardHonest (.new 2400) (plainResults n) (contextGuard (.new 2400) (plainResults n)) := by
  intro h
  have hmax : (ContextBudget.new 2400).singleResultMax = 2400 := by decide +kernel
  have hheadroom : (ContextBudget.new 2400).totalToolHeadroomChars = 3600 := by decide +kernel
  have htexts : resultTexts (plainResults n) = [plainResult n, plainResult n] := rfl
  have htotal : totalLength (resultTexts (plainResults n)) = n + n := by
    rw [htexts, totalLength]
    simp only [List.map_cons, List.map_nil, List.sum_cons, List.sum_nil, utf8ByteSize_plainResult,
      Nat.add_zero]
  have hbound : ∀ content ∈ resultTexts (plainResults n), content.utf8ByteSize < 2 ^ 64 := by
    rw [htexts]
    simpa [utf8ByteSize_plainResult] using hn
  have hcapped := utf8ByteSize_truncateTo_plainResult hlong
  obtain ⟨-, hleft, hcount⟩ := @contextGuard_eq (.new 2400) (plainResults n)
    (by rw [hheadroom, htotal]; omega)
  obtain ⟨-, hiff⟩ := @truncations_eq_changed_iff 3600 2400 0 _ hbound
  have hcounted := h.counted
  rw [hcount, hleft, hmax, hheadroom] at hcounted
  have honce := hiff.mp hcounted [] (plainResult n) [plainResult n] htexts
    (by rwa [utf8ByteSize_plainResult])
  refine honce.2 ⟨by omega, ?_⟩
  rw [totalAt_nil, totalLength]
  simp only [List.map_cons, List.map_nil, List.sum_cons, List.sum_nil]
  omega

/-- Of two results of 3000 bytes four are returned. -/
theorem contextGuard_not_honest :
    ¬ ∀ messages, GuardHonest (.new 2400) messages (contextGuard (.new 2400) messages) := fun h =>
  contextGuard_plainResults (show 2400 < 3000 by decide) (by decide) (h (plainResults 3000))

end ArmaraOS.Agent
