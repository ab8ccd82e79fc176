import ArmaraOS.Lib.HoldBack

/-!
The streaming think filter (`openfang-runtime/src/think_filter.rs`).

A text is the list of its characters. The tags are ASCII, so the byte positions at which the
source cuts a text are positions between its characters.
-/

namespace ArmaraOS.Runtime

open ArmaraOS.Lib.Framing

/-! ### The filter -/

/-- `FilterAction`. -/
inductive FilterAction where
  | emitText (text : List Char)
  | emitThinking (text : List Char)

/-- The loop of `partial_suffix_match`, from a length downwards. -/
def suffixMatchFrom (haystack needle : List Char) : Nat → Nat
  | 0 => 0
  | len + 1 =>
      if (needle.take (len + 1)).isSuffixOf haystack then len + 1
      else suffixMatchFrom haystack needle len

/-- `partial_suffix_match`. -/
def partialSuffixMatch (haystack needle : List Char) : Nat :=
  suffixMatchFrom haystack needle (min haystack.length (needle.length - 1))

/-- `StreamingThinkFilter`. -/
structure StreamingThinkFilter where
  insideThink : Bool
  pending : List Char

namespace StreamingThinkFilter

/-- `StreamingThinkFilter::new`. -/
def new : StreamingThinkFilter := ⟨false, []⟩

/-- The tag that ends the part the filter is in. -/
def awaited (insideThink : Bool) : List Char :=
  if insideThink then "</think>".toList else "<think>".toList

/-- The action for a part of the text, unless it is empty. -/
def emit (insideThink : Bool) (text : List Char) : List FilterAction :=
  if text.isEmpty then []
  else if insideThink then [.emitThinking text] else [.emitText text]

theorem rest_length_lt {insideThink : Bool} {pending before rest : List Char}
    (h : cutAt (awaited insideThink) pending = some (before, rest)) :
    rest.length < pending.length := by
  have htag : 0 < (awaited insideThink).length := by cases insideThink <;> decide
  rw [cutAt_eq_some h]
  simp only [List.length_append]
  omega

/-- The loop of `process`. -/
def processLoop (insideThink : Bool) (pending : List Char) :
    List FilterAction × StreamingThinkFilter :=
  match _h : cutAt (awaited insideThink) pending with
  | some (before, rest) =>
      let next := processLoop (!insideThink) rest
      (emit insideThink before ++ next.1, next.2)
  | none =>
      let keep := partialSuffixMatch pending (awaited insideThink)
      let emitLen := pending.length - keep
      (emit insideThink (pending.take emitLen), ⟨insideThink, pending.drop emitLen⟩)
termination_by pending.length
decreasing_by exact rest_length_lt ‹_›

/-- `StreamingThinkFilter::process`. -/
def process (filter : StreamingThinkFilter) (delta : List Char) :
    List FilterAction × StreamingThinkFilter :=
  processLoop filter.insideThink (filter.pending ++ delta)

/-- `StreamingThinkFilter::flush`. -/
def flush (filter : StreamingThinkFilter) : List FilterAction × StreamingThinkFilter :=
  (emit filter.insideThink filter.pending, { filter with pending := [] })

/-- The actions for all deltas, and then for the flush. -/
def stream (filter : StreamingThinkFilter) : List (List Char) → List FilterAction
  | [] => filter.flush.1
  | delta :: deltas => (filter.process delta).1 ++ (filter.process delta).2.stream deltas

end StreamingThinkFilter

/-! ### The reference -/

/-- A visible text and a thinking text. -/
@[ext] structure Split where
  visible : List Char
  thinking : List Char
deriving DecidableEq

namespace Split

instance : Append Split := ⟨fun s t => ⟨s.visible ++ t.visible, s.thinking ++ t.thinking⟩⟩

/-- A part of a text, visible or not. -/
def part (insideThink : Bool) (text : List Char) : Split :=
  if insideThink then ⟨[], text⟩ else ⟨text, []⟩

/-- What a sequence of actions emits. -/
def ofActions (actions : List FilterAction) : Split where
  visible := actions.flatMap fun
    | .emitText text => text
    | .emitThinking _ => []
  thinking := actions.flatMap fun
    | .emitText _ => []
    | .emitThinking text => text

theorem append_def (s t : Split) :
    s ++ t = ⟨s.visible ++ t.visible, s.thinking ++ t.thinking⟩ := rfl

theorem append_assoc (s t u : Split) : s ++ t ++ u = s ++ (t ++ u) := by
  simp only [append_def, List.append_assoc]

theorem part_append (insideThink : Bool) (front back : List Char) :
    part insideThink (front ++ back) = part insideThink front ++ part insideThink back := by
  cases insideThink <;> rfl

theorem ofActions_append (actions actions' : List FilterAction) :
    ofActions (actions ++ actions') = ofActions actions ++ ofActions actions' := by
  simp only [ofActions, append_def, List.flatMap_append]

theorem ofActions_emit (insideThink : Bool) (text : List Char) :
    ofActions (StreamingThinkFilter.emit insideThink text) = part insideThink text := by
  cases text <;> cases insideThink <;> simp [StreamingThinkFilter.emit, ofActions, part]

end Split

open StreamingThinkFilter

/-- The split of a text by the leftmost `<think>` outside and the leftmost `</think>` inside, one
after the other; the tags are dropped. -/
def referenceSplit (insideThink : Bool) (text : List Char) : Split :=
  match _h : cutAt (awaited insideThink) text with
  | some (before, rest) => .part insideThink before ++ referenceSplit (!insideThink) rest
  | none => .part insideThink text
termination_by text.length
decreasing_by exact rest_length_lt ‹_›

theorem referenceSplit_of_some {insideThink : Bool} {text before rest : List Char}
    (h : cutAt (awaited insideThink) text = some (before, rest)) :
    referenceSplit insideThink text =
      .part insideThink before ++ referenceSplit (!insideThink) rest := by
  rw [referenceSplit]
  split
  · rename_i before' rest' h'
    obtain ⟨rfl, rfl⟩ : before' = before ∧ rest' = rest := by simpa using h'.symm.trans h
    rfl
  · rename_i h'
    exact absurd (h'.symm.trans h) (by simp)

theorem referenceSplit_of_none {insideThink : Bool} {text : List Char}
    (h : cutAt (awaited insideThink) text = none) :
    referenceSplit insideThink text = .part insideThink text := by
  rw [referenceSplit]
  split
  · rename_i before rest h'
    exact absurd (h'.symm.trans h) (by simp)
  · rfl

/-! ### What is held back -/

theorem suffixMatchFrom_spec (haystack needle : List Char) (maxLen : Nat) :
    suffixMatchFrom haystack needle maxLen ≤ maxLen ∧
      ∀ len, suffixMatchFrom haystack needle maxLen < len → len ≤ maxLen →
        ¬ needle.take len <:+ haystack := by
  induction maxLen with
  | zero => exact ⟨Nat.le_refl _, fun len hlt hle => absurd hlt (by simp [suffixMatchFrom]; omega)⟩
  | succ n ih =>
      rw [suffixMatchFrom]
      split
      · exact ⟨Nat.le_refl _, fun len hlt hle => absurd hle (by omega)⟩
      · rename_i hnot
        refine ⟨ih.1.trans (Nat.le_succ n), fun len hlt hle => ?_⟩
        rcases Nat.lt_or_ge n len with hmax | hmin
        · obtain rfl : len = n + 1 := by omega
          simpa using hnot
        · exact ih.2 len hlt hmin

/-- All that could be the start of the tag is kept, and no more than there is. -/
theorem partialSuffixMatch_spec (haystack needle : List Char) :
    partialSuffixMatch haystack needle ≤ haystack.length ∧
      Holds needle haystack (partialSuffixMatch haystack needle) := by
  obtain ⟨hle, hlongest⟩ := suffixMatchFrom_spec haystack needle
    (min haystack.length (needle.length - 1))
  refine ⟨hle.trans (Nat.min_le_left _ _), fun len hkept hlen hsuffix => ?_⟩
  have hshort := hsuffix.length_le
  rw [List.length_take] at hshort
  exact hlongest len hkept (by omega) hsuffix

namespace StreamingThinkFilter

theorem processLoop_of_some {insideThink : Bool} {pending before rest : List Char}
    (h : cutAt (awaited insideThink) pending = some (before, rest)) :
    processLoop insideThink pending =
      (emit insideThink before ++ (processLoop (!insideThink) rest).1,
        (processLoop (!insideThink) rest).2) := by
  rw [processLoop]
  split
  · rename_i before' rest' h'
    obtain ⟨rfl, rfl⟩ : before' = before ∧ rest' = rest := by simpa using h'.symm.trans h
    rfl
  · rename_i h'
    exact absurd (h'.symm.trans h) (by simp)

/-- Without the tag, what is pending is emitted up to what could be the start of the tag. -/
theorem processLoop_of_none {insideThink : Bool} {pending : List Char}
    (h : cutAt (awaited insideThink) pending = none) :
    ∃ front held, pending = front ++ held ∧ Holds (awaited insideThink) pending held.length ∧
      processLoop insideThink pending = (emit insideThink front, ⟨insideThink, held⟩) := by
  obtain ⟨hle, hholds⟩ := partialSuffixMatch_spec pending (awaited insideThink)
  let emitLen := pending.length - partialSuffixMatch pending (awaited insideThink)
  refine ⟨pending.take emitLen, pending.drop emitLen, (List.take_append_drop _ _).symm, ?_, ?_⟩
  · have hlen : (pending.drop emitLen).length =
        partialSuffixMatch pending (awaited insideThink) := by
      rw [List.length_drop]
      omega
    rw [hlen]
    exact hholds
  · rw [processLoop]
    split
    · rename_i before rest h'
      exact absurd (h'.symm.trans h) (by simp)
    · rfl

/-- **One delta.** What is emitted, and the split of what is pending and of all that follows, are
the split of the whole. -/
theorem referenceSplit_processLoop (insideThink : Bool) (pending more : List Char) :
    referenceSplit insideThink (pending ++ more) =
      .ofActions (processLoop insideThink pending).1 ++
        referenceSplit (processLoop insideThink pending).2.insideThink
          ((processLoop insideThink pending).2.pending ++ more) := by
  induction insideThink, pending using processLoop.induct with
  | case1 insideThink pending before rest hcut ih =>
      rw [processLoop_of_some hcut, referenceSplit_of_some (cutAt_append more hcut), ih,
        Split.ofActions_append, Split.ofActions_emit, Split.append_assoc]
  | case2 insideThink pending hcut =>
      obtain ⟨front, held, rfl, hholds, hloop⟩ := processLoop_of_none hcut
      have hbehind := cutAt_append_of_held more hcut hholds
      rw [hloop, Split.ofActions_emit, List.append_assoc]
      dsimp only
      cases hheld : cutAt (awaited insideThink) (held ++ more) with
      | none =>
          rw [hheld] at hbehind
          rw [referenceSplit_of_none hbehind, referenceSplit_of_none hheld, Split.part_append]
      | some cut =>
          rw [hheld] at hbehind
          rw [referenceSplit_of_some hbehind, referenceSplit_of_some hheld, Split.part_append,
            Split.append_assoc]

/-- After a delta, the tag is not among what is pending. -/
theorem processLoop_settled (insideThink : Bool) (pending : List Char) :
    cutAt (awaited (processLoop insideThink pending).2.insideThink)
      (processLoop insideThink pending).2.pending = none := by
  induction insideThink, pending using processLoop.induct with
  | case1 insideThink pending before rest hcut ih =>
      rw [processLoop_of_some hcut]
      exact ih
  | case2 insideThink pending hcut =>
      obtain ⟨front, held, rfl, -, hloop⟩ := processLoop_of_none hcut
      rw [hloop]
      exact cutAt_eq_none_of_append hcut

/-- **All deltas.** -/
theorem ofActions_stream {filter : StreamingThinkFilter}
    (h : cutAt (awaited filter.insideThink) filter.pending = none) (deltas : List (List Char)) :
    Split.ofActions (filter.stream deltas) =
      referenceSplit filter.insideThink (filter.pending ++ deltas.flatten) := by
  induction deltas generalizing filter with
  | nil =>
      rw [List.flatten_nil, List.append_nil, referenceSplit_of_none h]
      exact Split.ofActions_emit _ _
  | cons delta deltas ih =>
      have hone := referenceSplit_processLoop filter.insideThink (filter.pending ++ delta)
        deltas.flatten
      have hprocess : filter.process delta =
          processLoop filter.insideThink (filter.pending ++ delta) := rfl
      rw [stream, Split.ofActions_append, hprocess, ih (processLoop_settled _ _),
        List.flatten_cons, ← List.append_assoc, hone]

/-- **The think filter and chunks.** However a text is split into deltas, the filter emits, once it
is flushed, the visible and the thinking text that it emits for the whole text in one delta, and
these are the reference split of the text. -/
theorem think_filter_ignores_chunks (deltas : List (List Char)) :
    Split.ofActions (new.stream deltas) = Split.ofActions (new.stream [deltas.flatten]) ∧
      Split.ofActions (new.stream [deltas.flatten]) = referenceSplit false deltas.flatten := by
  have hnew : cutAt (awaited new.insideThink) new.pending = none := by decide
  have hwhole := ofActions_stream hnew [deltas.flatten]
  rw [List.flatten_singleton] at hwhole
  exact ⟨(ofActions_stream hnew deltas).trans hwhole.symm, hwhole⟩

/-- A closing tag in three deltas, behind a false start. -/
example : Split.ofActions (new.stream ["<think>a<".toList, "/think".toList, ">b<thin".toList]) =
    ⟨"b<thin".toList, "a".toList⟩ := by decide +kernel

end StreamingThinkFilter

end ArmaraOS.Runtime
