import ArmaraOS.Lib.ByteSlices
import ArmaraOS.Lib.LineCount
import ArmaraOS.Lib.Lines
import ArmaraOS.Lib.Machine

/-!
The chunker of a streamed text (`openfang-api/src/stream_chunker.rs`).

It tracks by the lines of each push whether it is in a code fence, and describes with that the end
of its buffer; a chunk ends at the last break of a range anywhere in the buffer.

* `BestBreak.nextFlush`, `bestBreak_of_nextFlush` — outside a fence, a buffer is broken at its best
  break: the last paragraph, line or sentence end of the range, or the place at the limit.
* `Accounted`, `accounted` — the text comes out as it went in, but for the lines with which a fence
  is closed and opened again.
* `chunks_keep_fences` — the fences stay whole where a push goes on with no line that it changes,
  and the best break of a buffer lies outside its fences.
-/

namespace ArmaraOS.Api

open ArmaraOS.Lib ArmaraOS.Text

/-! ### The chunker -/

/-- The marker of a code fence. -/
def fence : List Char := "```".toList

/-- A line whose trimmed text starts with the marker. -/
def isFence (line : List Char) : Bool := fence.isPrefixOf (trimmed line)

/-- `StreamChunker`. A fence has always the one marker. -/
structure StreamChunker where
  buffer : List Char
  inCodeFence : Bool
  fenceMarker : List Char
  minChunkChars : Nat
  maxChunkChars : Nat
  marker : fenceMarker = if inCodeFence then fence else []

namespace StreamChunker

/-- `StreamChunker::new`. -/
def new (minChunkChars maxChunkChars : Nat) : StreamChunker :=
  ⟨[], false, [], minChunkChars, maxChunkChars, rfl⟩

/-- One line of a push. -/
def pushLine (st : StreamChunker) (line : List Char) : StreamChunker :=
  let buffer := st.buffer ++ line
  if fence.isPrefixOf (trimmed line) then
    if st.inCodeFence then
      if trimmed line == fence || st.fenceMarker.isPrefixOf (trimmed line) then
        { st with buffer := buffer, inCodeFence := false, fenceMarker := [], marker := rfl }
      else { st with buffer := buffer }
    else { st with buffer := buffer, inCodeFence := true, fenceMarker := fence, marker := rfl }
  else { st with buffer := buffer }

/-- `push`. -/
def push (st : StreamChunker) (text : List Char) : StreamChunker :=
  (splitInclusive '\n' text).foldl pushLine st

/-- The last place where a pattern starts, as `rfind` finds it. -/
def rfind (pat : List Char) : List Char → Option Nat
  | [] => if pat.isEmpty then some 0 else none
  | c :: cs =>
      match rfind pat cs with
      | some i => some (i + 1)
      | none => if pat.isPrefixOf (c :: cs) then some 0 else none

/-- The characters up to the first boundary at or behind byte `n`. -/
def charsUpTo : Nat → List Char → Nat
  | 0, _ => 0
  | _ + 1, [] => 0
  | n + 1, c :: cs => charsUpTo (n + 1 - c.utf8Size) cs + 1

/-- `find_last_in_range`, in characters: the end of the range is walked back to a boundary, and the
start forward, but not behind the end. -/
def findLastInRange (text pat : List Char) (start stop : Nat) : Option Nat :=
  let front := takeBytes stop text
  let skipped := charsUpTo start front
  (rfind pat (front.drop skipped)).map fun pos => skipped + pos

/-- What `try_flush` does with the buffer. -/
inductive Flush where
  | wait
  | forceClose
  | breakAt (n : Nat)
deriving DecidableEq

/-- The break points behind which `try_flush` looks for one, best first. -/
def breaks : List (List Char) :=
  ["\n\n".toList, "\n".toList, ". ".toList, "! ".toList, "? ".toList]

/-- The choice of `try_flush`: a break is counted in characters. -/
def nextFlush (st : StreamChunker) : Flush :=
  let len := byteLength st.buffer
  if len < st.minChunkChars then .wait
  else if st.inCodeFence && len < st.maxChunkChars then .wait
  else if st.inCodeFence && st.maxChunkChars ≤ len then .forceClose
  else
    let found := breaks.findSome? fun ending =>
      (findLastInRange st.buffer ending st.minChunkChars (min len st.maxChunkChars)).map
        fun pos => pos + ending.length
    match found with
    | some breakAt => .breakAt breakAt
    | none =>
        if st.maxChunkChars ≤ len then
          let breakAt := (takeBytes st.maxChunkChars st.buffer).length
          .breakAt (if breakAt = 0 then st.buffer.length else breakAt)
        else .wait

/-- What force-closing puts behind a chunk. -/
def closing : List Char := "\n```\n".toList

/-- What force-closing leaves in the buffer. -/
def reopening (st : StreamChunker) : List Char :=
  fence ++ st.fenceMarker.dropWhile (· == '`') ++ ['\n']

/-- `try_flush`. -/
def tryFlush (st : StreamChunker) : Option (List Char) × StreamChunker :=
  match st.nextFlush with
  | .wait => (none, st)
  | .forceClose => (some (st.buffer ++ closing), { st with buffer := st.reopening })
  | .breakAt n => (some (st.buffer.take n), { st with buffer := st.buffer.drop n })

/-- `flush_remaining`. -/
def flushRemaining (st : StreamChunker) : Option (List Char) × StreamChunker :=
  if st.buffer.isEmpty then (none, st) else (some st.buffer, { st with buffer := [] })

/-! ### The best break of a buffer -/

/-- An ending stands in the range in which a break is looked for, right behind `front`. -/
def EndsAt (minChars maxChars : Nat) (buffer ending front : List Char) : Prop :=
  front ++ ending <+: buffer ∧ minChars ≤ byteLength front ∧ byteLength (front ++ ending) ≤ maxChars

/-- The endings at which a buffer is broken: a paragraph, a line, a sentence. -/
def breakKinds : List (List Char) :=
  ["\n\n".toList, "\n".toList, ". ".toList, "! ".toList, "? ".toList]

/-- The best break of a buffer lies behind `front`: at the last ending in the range, of the first
kind that there is; where there is none and the buffer is long enough, at the longest front of at
most `maxChars` bytes, or at the end. -/
inductive BestBreak (minChars maxChars : Nat) (buffer : List Char) : List Char → Prop
  | ending {better worse : List (List Char)} {ending front : List Char}
      (hkinds : breakKinds = better ++ ending :: worse)
      (hbest : ∀ kind ∈ better, ∀ other, ¬ EndsAt minChars maxChars buffer kind other)
      (hends : EndsAt minChars maxChars buffer ending front)
      (hlast : ∀ other, EndsAt minChars maxChars buffer ending other →
        other.length ≤ front.length) :
      BestBreak minChars maxChars buffer (front ++ ending)
  | full {front : List Char}
      (hnone : ∀ kind ∈ breakKinds, ∀ other, ¬ EndsAt minChars maxChars buffer kind other)
      (hlong : maxChars ≤ byteLength buffer) (hfront : front <+: buffer)
      (hfits : byteLength front ≤ maxChars) (hne : front ≠ [])
      (hlongest : ∀ other, other <+: buffer → byteLength other ≤ maxChars →
        other.length ≤ front.length) :
      BestBreak minChars maxChars buffer front
  | whole
      (hnone : ∀ kind ∈ breakKinds, ∀ other, ¬ EndsAt minChars maxChars buffer kind other)
      (hlong : maxChars ≤ byteLength buffer)
      (hwide : ∀ other, other <+: buffer → byteLength other ≤ maxChars → other = []) :
      BestBreak minChars maxChars buffer buffer

section Ends
variable {minChars maxChars : Nat} {buffer ending front : List Char}

theorem rfind_spec (hpat : ending ≠ []) (text : List Char) :
    (∀ pos, rfind ending text = some pos →
      ending <+: text.drop pos ∧ ∀ i, ending <+: text.drop i → i ≤ pos) ∧
    (rfind ending text = none → ∀ i, ¬ ending <+: text.drop i) := by
  induction text with
  | nil =>
      have hnone : rfind ending [] = none := by simp [rfind, hpat]
      rw [hnone]
      refine ⟨fun _ h => (nomatch h), fun _ i hi => hpat ?_⟩
      simpa using hi
  | cons c cs ih =>
      rw [rfind]
      cases hlast : rfind ending cs with
      | some last =>
          obtain ⟨hends, hlater⟩ := ih.1 last hlast
          refine ⟨fun pos hpos => ?_, fun h => (nomatch h)⟩
          obtain rfl := Option.some.inj hpos
          refine ⟨hends, fun i hi => ?_⟩
          cases i with
          | zero => exact Nat.zero_le _
          | succ i => exact Nat.succ_le_succ (hlater i hi)
      | none =>
          have hnone := ih.2 hlast
          dsimp only
          split
          · rename_i hhere
            refine ⟨fun pos hpos => ?_, fun h => (nomatch h)⟩
            obtain rfl := Option.some.inj hpos
            refine ⟨List.isPrefixOf_iff_prefix.mp hhere, fun i hi => ?_⟩
            cases i with
            | zero => exact Nat.le_refl _
            | succ i => exact absurd hi (hnone i)
          · rename_i hhere
            refine ⟨fun _ h => (nomatch h), fun _ i hi => ?_⟩
            cases i with
            | zero => exact hhere (List.isPrefixOf_iff_prefix.mpr hi)
            | succ i => exact hnone i hi

/-- In front of the rest of a text, `charsUpTo` is at most so many characters where that front has
the bytes. -/
theorem charsUpTo_le_iff {n : Nat} {xs ys : List Char} (hys : ys ≠ []) :
    charsUpTo n (xs ++ ys) ≤ xs.length ↔ n ≤ byteLength xs := by
  induction xs generalizing n with
  | nil =>
      obtain ⟨y, ys, rfl⟩ := List.exists_cons_of_ne_nil hys
      cases n with
      | zero => simp [charsUpTo]
      | succ n => simp [charsUpTo, byteLength]
  | cons x xs ih =>
      cases n with
      | zero => simp [charsUpTo]
      | succ n =>
          rw [List.cons_append, charsUpTo, List.length_cons, Nat.add_le_add_iff_right, ih,
            byteLength_cons]
          omega

/-- Where an ending stands in the range, in the text that is searched for it. -/
theorem endsAt_iff (hending : ending ≠ []) :
    EndsAt minChars maxChars buffer ending front ↔
      ∃ i, ending <+: ((takeBytes (min (byteLength buffer) maxChars) buffer).drop
          (charsUpTo minChars (takeBytes (min (byteLength buffer) maxChars) buffer))).drop i ∧
        front = buffer.take
          (charsUpTo minChars (takeBytes (min (byteLength buffer) maxChars) buffer) + i) := by
  set searched := takeBytes (min (byteLength buffer) maxChars) buffer with hsearched
  have hbuffer : searched <+: buffer := takeBytes_isPrefix _ _
  constructor
  · rintro ⟨hends, hmin, hmax⟩
    have hlen := byteLength_le_of_prefix hends
    have hin : front ++ ending <+: searched :=
      isPrefix_takeBytes_iff.mpr ⟨hends, Nat.le_min.mpr ⟨hlen, hmax⟩⟩
    obtain ⟨behind, hbehind⟩ := hin
    have hskipped : charsUpTo minChars searched ≤ front.length := by
      rw [← hbehind, List.append_assoc, charsUpTo_le_iff (by simp [hending])]
      exact hmin
    refine ⟨front.length - charsUpTo minChars searched, ?_, ?_⟩
    · rw [List.drop_drop, Nat.add_sub_cancel' hskipped, ← hbehind, List.append_assoc,
        List.drop_left]
      exact List.prefix_append _ _
    · rw [Nat.add_sub_cancel' hskipped]
      exact List.prefix_iff_eq_take.mp ((List.prefix_append _ _).trans hends)
  · rintro ⟨i, hends, rfl⟩
    rw [List.drop_drop] at hends
    have hrest : searched.drop (charsUpTo minChars searched + i) ≠ [] := by
      intro hnil
      rw [hnil] at hends
      exact hending (List.prefix_nil.mp hends)
    have hshort : charsUpTo minChars searched + i ≤ searched.length := by
      by_contra hlong
      exact hrest (List.drop_eq_nil_of_le (by omega))
    have hfront : buffer.take (charsUpTo minChars searched + i) =
        searched.take (charsUpTo minChars searched + i) := by
      obtain ⟨behind, hbehind⟩ := hbuffer
      rw [← hbehind, List.take_append_of_le_length hshort]
    have hin : searched.take (charsUpTo minChars searched + i) ++ ending <+: searched := by
      obtain ⟨behind, hbehind⟩ := hends
      refine ⟨behind, ?_⟩
      rw [List.append_assoc, hbehind, List.take_append_drop]
    rw [hfront]
    refine ⟨hin.trans hbuffer, ?_, ?_⟩
    · rw [← charsUpTo_le_iff hrest, List.take_append_drop, List.length_take_of_le hshort]
      exact Nat.le_add_right _ _
    · exact (isPrefix_takeBytes_iff.mp hin).2.trans (Nat.min_le_right _ _)

/-- The last place of an ending in the range is the one that is found. -/
theorem findLastInRange_spec (minChars maxChars : Nat) (buffer : List Char) (hending : ending ≠ []) :
    (∀ pos, findLastInRange buffer ending minChars (min (byteLength buffer) maxChars) = some pos →
      EndsAt minChars maxChars buffer ending (buffer.take pos) ∧ pos ≤ buffer.length ∧
        ∀ front, EndsAt minChars maxChars buffer ending front → front.length ≤ pos) ∧
    (findLastInRange buffer ending minChars (min (byteLength buffer) maxChars) = none →
      ∀ front, ¬ EndsAt minChars maxChars buffer ending front) := by
  have hspec := rfind_spec hending ((takeBytes (min (byteLength buffer) maxChars) buffer).drop
    (charsUpTo minChars (takeBytes (min (byteLength buffer) maxChars) buffer)))
  unfold findLastInRange
  dsimp only
  constructor
  · intro pos hpos
    obtain ⟨i, hi, rfl⟩ := Option.map_eq_some_iff.mp hpos
    obtain ⟨hends, hlast⟩ := hspec.1 i hi
    have hat := (endsAt_iff hending).mpr ⟨i, hends, rfl⟩
    refine ⟨hat, ?_, ?_⟩
    · by_contra hlong
      have hall := hat.1.length_le
      rw [List.take_of_length_le (by omega), List.length_append] at hall
      have := List.length_pos_of_ne_nil hending
      omega
    · intro front hfront
      obtain ⟨j, hj, rfl⟩ := (endsAt_iff hending).mp hfront
      have := hlast j hj
      rw [List.length_take]
      omega
  · intro hnone front hfront
    rw [Option.map_eq_none_iff] at hnone
    obtain ⟨i, hi, -⟩ := (endsAt_iff hending).mp hfront
    exact hspec.2 hnone i hi

end Ends

section Best

variable {buffer front : List Char} {st : StreamChunker}

/-- Two places behind which the same buffer goes on are the same where they are equally far. -/
theorem eq_of_isPrefix {xs ys : List Char} (hxs : xs <+: buffer) (hys : ys <+: buffer)
    (h : xs.length = ys.length) : xs = ys := by
  rw [List.prefix_iff_eq_take.mp hxs, List.prefix_iff_eq_take.mp hys, h]

/-- A buffer outside a fence is broken at its best break. -/
theorem bestBreak_of_nextFlush (hopen : st.inCodeFence = false) {n : Nat}
    (h : st.nextFlush = .breakAt n) :
    BestBreak st.minChunkChars st.maxChunkChars st.buffer (st.buffer.take n) := by
  have hkinds : ∀ kind ∈ breaks, kind ≠ [] := by decide
  unfold nextFlush at h
  dsimp only at h
  rw [hopen, Bool.false_and, Bool.false_and, if_neg Bool.false_ne_true,
    if_neg Bool.false_ne_true] at h
  split at h
  · cases h
  · split at h
    · rename_i hfound
      obtain ⟨better, ending, worse, hsplit, hends, hbefore⟩ :=
        List.findSome?_eq_some_iff.mp hfound
      obtain ⟨pos, hpos, rfl⟩ := Option.map_eq_some_iff.mp hends
      cases h
      have hending : ending ≠ [] := hkinds _ (hsplit ▸ List.mem_append_right _ List.mem_cons_self)
      obtain ⟨hat, hshort, hlast⟩ := (findLastInRange_spec _ _ _ hending).1 pos hpos
      have htake : st.buffer.take (pos + ending.length) = st.buffer.take pos ++ ending := by
        refine eq_of_isPrefix (List.take_prefix _ _) hat.1 ?_
        have hlength := hat.1.length_le
        simp only [List.length_append, List.length_take] at hlength ⊢
        omega
      rw [htake]
      refine .ending hsplit (fun kind hkind other => ?_) hat ?_
      · have hkind' : kind ≠ [] := hkinds _ (hsplit ▸ List.mem_append_left _ hkind)
        exact (findLastInRange_spec _ _ _ hkind').2 (by simpa using hbefore kind hkind) other
      · rw [List.length_take_of_le hshort]
        exact hlast
    · rename_i hfound
      have hnone : ∀ kind ∈ breakKinds, ∀ other,
          ¬ EndsAt st.minChunkChars st.maxChunkChars st.buffer kind other := by
        intro kind hkind other
        rw [List.findSome?_eq_none_iff] at hfound
        exact (findLastInRange_spec _ _ _ (hkinds kind hkind)).2
          (by simpa using hfound kind hkind) other
      split at h
      · rename_i hlong
        cases h
        have hfront := takeBytes_isPrefix st.maxChunkChars st.buffer
        split
        · rename_i hnil
          rw [List.take_length]
          refine .whole hnone hlong fun other hother hfits => ?_
          have hin := (isPrefix_takeBytes_iff.mpr ⟨hother, hfits⟩).length_le
          exact List.eq_nil_of_length_eq_zero (by omega)
        · rename_i hne
          rw [← List.prefix_iff_eq_take.mp hfront]
          exact .full hnone hlong hfront (byteLength_takeBytes_le _ _)
            (fun hnil => hne (by rw [hnil]; rfl))
            fun other hother hfits => (isPrefix_takeBytes_iff.mpr ⟨hother, hfits⟩).length_le
      · cases h

/-- A buffer that is broken has the bytes for a chunk. -/
theorem minChunkChars_le_of_nextFlush {n : Nat} (h : st.nextFlush = .breakAt n) :
    st.minChunkChars ≤ byteLength st.buffer := by
  unfold nextFlush at h
  dsimp only at h
  split at h
  · cases h
  · omega

/-- The best break is the one that is taken. -/
theorem BestBreak.nextFlush (h : BestBreak st.minChunkChars st.maxChunkChars st.buffer front)
    (hopen : st.inCodeFence = false) (hmin : st.minChunkChars ≤ byteLength st.buffer) :
    st.nextFlush = .breakAt front.length := by
  have hkinds : ∀ kind ∈ breakKinds, kind ≠ [] := by decide
  have hnone : ∀ kinds ⊆ breakKinds,
      (∀ kind ∈ kinds, ∀ other,
        ¬ EndsAt st.minChunkChars st.maxChunkChars st.buffer kind other) →
      kinds.findSome? (fun kind => (findLastInRange st.buffer kind st.minChunkChars
        (min (byteLength st.buffer) st.maxChunkChars)).map fun pos => pos + kind.length) =
          none := by
    intro kinds hsub hnowhere
    rw [List.findSome?_eq_none_iff]
    intro kind hkind
    rw [Option.map_eq_none_iff, Option.eq_none_iff_forall_not_mem]
    exact fun pos hpos =>
      hnowhere kind hkind _ ((findLastInRange_spec _ _ _ (hkinds kind (hsub hkind))).1 pos hpos).1
  unfold StreamChunker.nextFlush
  dsimp only
  rw [hopen, Bool.false_and, Bool.false_and, if_neg (by omega), if_neg Bool.false_ne_true,
    if_neg Bool.false_ne_true]
  change (match breakKinds.findSome? _ with | some n => Flush.breakAt n | none => _) = _
  cases h with
  | ending hsplit hbest hends hlast =>
      rename_i better worse ending front
      have hmem : ending ∈ breakKinds := hsplit ▸ List.mem_append_right _ List.mem_cons_self
      have hspec := findLastInRange_spec st.minChunkChars st.maxChunkChars st.buffer
        (hkinds ending hmem)
      cases hfound : findLastInRange st.buffer ending st.minChunkChars
          (min (byteLength st.buffer) st.maxChunkChars) with
      | none => exact absurd hends (hspec.2 hfound front)
      | some pos =>
          obtain ⟨hat, hshort, hlater⟩ := hspec.1 pos hfound
          have hpos : pos = front.length := by
            have hle := hlast _ hat
            rw [List.length_take_of_le hshort] at hle
            exact Nat.le_antisymm hle (hlater front hends)
          have hbetter := hnone better (hsplit ▸ List.subset_append_left _ _) hbest
          rw [hsplit, List.findSome?_append, hbetter, Option.none_or, List.findSome?_cons, hfound,
            hpos, List.length_append]
          rfl
  | full hnowhere hlong hfront hfits hne hlongest =>
      have htake : takeBytes st.maxChunkChars st.buffer = front :=
        eq_of_isPrefix (takeBytes_isPrefix _ _) hfront (Nat.le_antisymm
          (hlongest _ (takeBytes_isPrefix _ _) (byteLength_takeBytes_le _ _))
          (isPrefix_takeBytes_iff.mpr ⟨hfront, hfits⟩).length_le)
      rw [hnone _ (List.Subset.refl _) hnowhere]
      dsimp only
      rw [if_pos hlong, htake, if_neg (by simpa using hne)]
  | whole hnowhere hlong hwide =>
      rw [hnone _ (List.Subset.refl _) hnowhere,
        hwide _ (takeBytes_isPrefix _ _) (byteLength_takeBytes_le _ _)]
      dsimp only
      rw [if_pos hlong]
      rfl

end Best

end StreamChunker

/-! ### Runs -/

/-- A call of the chunker while the text arrives. -/
inductive ChunkOp where
  | push (text : List Char)
  | tryFlush

/-- The chunker with what it was given and what it has emitted. Every character of the buffer and of
the chunks is marked if force-closing put it there. -/
structure ChunkRun where
  chunker : StreamChunker
  text : List Char := []
  emitted : List (List Char) := []
  markedBuffer : List (Char × Bool) := []
  markedEmitted : List (List (Char × Bool)) := []
  closings : Nat := 0

namespace ChunkRun

/-- A run at its start. -/
def start (minChunkChars maxChunkChars : Nat) : ChunkRun :=
  { chunker := .new minChunkChars maxChunkChars }

/-- A text, marked as a whole. -/
def mark (inserted : Bool) (text : List Char) : List (Char × Bool) := text.map (·, inserted)

/-- The marked chunk of a flush, and the marked buffer behind it. -/
def flushMarks (run : ChunkRun) : StreamChunker.Flush →
    Option (List (Char × Bool)) × List (Char × Bool)
  | .wait => (none, run.markedBuffer)
  | .forceClose =>
      (some (run.markedBuffer ++ mark true StreamChunker.closing),
        mark true run.chunker.reopening)
  | .breakAt n => (some (run.markedBuffer.take n), run.markedBuffer.drop n)

/-- One call. -/
def step (run : ChunkRun) : ChunkOp → ChunkRun
  | .push text =>
      { run with
        chunker := run.chunker.push text
        text := run.text ++ text
        markedBuffer := run.markedBuffer ++ mark false text }
  | .tryFlush =>
      let flush := run.chunker.nextFlush
      { run with
        chunker := run.chunker.tryFlush.2
        emitted := run.emitted ++ run.chunker.tryFlush.1.toList
        markedBuffer := (run.flushMarks flush).2
        markedEmitted := run.markedEmitted ++ (run.flushMarks flush).1.toList
        closings := if flush = .forceClose then run.closings + 1 else run.closings }

/-- The last call, `flush_remaining`. -/
def finish (run : ChunkRun) : ChunkRun :=
  { run with
    chunker := run.chunker.flushRemaining.2
    emitted := run.emitted ++ run.chunker.flushRemaining.1.toList
    markedBuffer := []
    markedEmitted := run.markedEmitted ++
      if run.markedBuffer.isEmpty then [] else [run.markedBuffer] }

/-- A whole run. -/
def whole (minChunkChars maxChunkChars : Nat) (ops : List ChunkOp) : ChunkRun :=
  (runOps step (start minChunkChars maxChunkChars) ops).finish

/-- The chunks without what is marked are the text, and what is marked are the closing and the
reopening line, once for every fence that was force-closed. -/
structure Restores (run : ChunkRun) : Prop where
  chunks : run.markedEmitted.map (List.map Prod.fst) = run.emitted
  kept : (run.markedEmitted.flatten.filter fun c => !c.2).map Prod.fst = run.text
  inserted : (run.markedEmitted.flatten.filter fun c => c.2).map Prod.fst =
    (List.replicate run.closings (StreamChunker.closing ++ fence ++ ['\n'])).flatten

/-- How many fence lines a text has. -/
def fenceLines (text : List Char) : Nat := countLines '\n' isFence text

/-- Where every fence of the text is closed, every chunk has an even number of fence lines. -/
def KeepsFences (run : ChunkRun) : Prop :=
  Even (fenceLines run.text) → ∀ chunk ∈ run.emitted, Even (fenceLines chunk)

/-! ### The condition on a call -/

/-- A text goes on with a line that has begun: its own lines are fence lines as they are behind what
stands there. -/
def GoesOn (line text : List Char) : Prop :=
  oddLines '\n' isFence (line ++ text) =
    (oddLines '\n' isFence line ^^ oddLines '\n' isFence text)

/-- A break between `front` and `back` lies outside the fences of the text that they are: of the
line that it cuts, one side at most has the marker of a fence line, and no fence is open in front of
that line, unless the line closes it in front of the break. -/
def OutsideFences (front back : List Char) : Prop :=
  let line := openLine '\n' front
  let rest := back.takeWhile (· != '\n')
  isFence (line ++ rest) = (isFence line ^^ isFence rest) ∧
    (Even (fenceLines (closedLines '\n' front)) ↔ isFence line = false)

/-- Where no fence of a buffer is open at its end, the best break of the buffer lies outside its
fences. -/
def BreaksOutside (minChars maxChars : Nat) (buffer : List Char) : Prop :=
  Even (fenceLines buffer) → minChars ≤ byteLength buffer → ∀ front back, buffer = front ++ back →
    StreamChunker.BestBreak minChars maxChars buffer front → OutsideFences front back

/-- A call that keeps the fences whole. -/
def Sound (run : ChunkRun) : ChunkOp → Prop
  | .push text =>
      GoesOn (openLine '\n' run.chunker.buffer) text ∧ GoesOn (openLine '\n' run.text) text
  | .tryFlush =>
      BreaksOutside run.chunker.minChunkChars run.chunker.maxChunkChars run.chunker.buffer

instance (line text : List Char) : Decidable (GoesOn line text) :=
  inferInstanceAs (Decidable (_ = _))

instance (front back : List Char) : Decidable (OutsideFences front back) :=
  inferInstanceAs (Decidable (_ ∧ _))

/-- The one break of a buffer that counts is the one that is taken of it outside a fence. -/
theorem breaksOutside_iff {minChars maxChars : Nat} {buffer : List Char} :
    BreaksOutside minChars maxChars buffer ↔
      (Even (fenceLines buffer) → minChars ≤ byteLength buffer →
        match StreamChunker.nextFlush ⟨buffer, false, [], minChars, maxChars, rfl⟩ with
        | .breakAt n => OutsideFences (buffer.take n) (buffer.drop n)
        | _ => True) := by
  unfold BreaksOutside
  refine imp_congr_right fun _ => imp_congr_right fun hmin => ?_
  constructor
  · intro h
    split
    · rename_i n hflush
      exact h _ _ (List.take_append_drop n buffer).symm
        (StreamChunker.bestBreak_of_nextFlush rfl hflush)
    · trivial
  · rintro h front back rfl hbest
    have hflush : StreamChunker.nextFlush ⟨front ++ back, false, [], minChars, maxChars, rfl⟩ =
        .breakAt front.length := StreamChunker.BestBreak.nextFlush hbest rfl hmin
    rw [hflush] at h
    simpa using h

instance (minChars maxChars : Nat) (buffer : List Char) :
    Decidable (BreaksOutside minChars maxChars buffer) :=
  let flush := StreamChunker.nextFlush ⟨buffer, false, [], minChars, maxChars, rfl⟩
  have : Decidable (match flush with
      | .breakAt n => OutsideFences (buffer.take n) (buffer.drop n)
      | _ => True) :=
    match flush with
    | .breakAt _ => inferInstanceAs (Decidable (OutsideFences _ _))
    | .wait => isTrue trivial
    | .forceClose => isTrue trivial
  decidable_of_iff _ breaksOutside_iff.symm

instance (run : ChunkRun) (op : ChunkOp) : Decidable (run.Sound op) :=
  match op with
  | .push _ => inferInstanceAs (Decidable (_ ∧ _))
  | .tryFlush => inferInstanceAs (Decidable (BreaksOutside _ _ _))

/-! ### What the calls do -/

section Chunker

variable {st : StreamChunker}

theorem isFence_nil : isFence [] = false := by decide

theorem isFence_concat (line : List Char) : isFence (line ++ ['\n']) = isFence line := by
  rw [isFence, trimmed_concat_blank (by decide), isFence]

/-- A line of a push goes behind the buffer, and a fence line opens or closes a fence. -/
theorem pushLine_spec (st : StreamChunker) (line : List Char) :
    (st.pushLine line).buffer = st.buffer ++ line ∧
      (st.pushLine line).inCodeFence = (st.inCodeFence ^^ isFence line) := by
  unfold StreamChunker.pushLine isFence
  dsimp only
  split
  · rename_i hline
    split
    · rename_i hfence
      have hmarker : st.fenceMarker = fence := by rw [st.marker, if_pos hfence]
      have hcloses :
          (trimmed line == fence || st.fenceMarker.isPrefixOf (trimmed line)) = true := by
        rw [hmarker, hline, Bool.or_true]
      rw [if_pos hcloses, hfence, hline]
      exact ⟨rfl, rfl⟩
    · rename_i hfence
      rw [Bool.not_eq_true] at hfence
      simp [hline, hfence]
  · rename_i hline
    rw [Bool.not_eq_true] at hline
    simp [hline]

theorem push_spec (st : StreamChunker) (text : List Char) :
    (st.push text).buffer = st.buffer ++ text ∧
      (st.push text).inCodeFence = (st.inCodeFence ^^ oddLines '\n' isFence text) := by
  have hfold : ∀ (lines : List (List Char)) (st : StreamChunker),
      (lines.foldl StreamChunker.pushLine st).buffer = st.buffer ++ lines.flatten ∧
        (lines.foldl StreamChunker.pushLine st).inCodeFence =
          lines.foldl (fun odd line => odd ^^ isFence line) st.inCodeFence := by
    intro lines
    induction lines with
    | nil => simp
    | cons line lines ih =>
        intro st
        obtain ⟨hbuffer, hfence⟩ := ih (st.pushLine line)
        obtain ⟨hbuffer', hfence'⟩ := pushLine_spec st line
        rw [List.foldl_cons, List.foldl_cons, hbuffer, hfence, hbuffer', hfence',
          List.flatten_cons, List.append_assoc]
        exact ⟨rfl, rfl⟩
  obtain ⟨hbuffer, hfence⟩ := hfold (splitInclusive '\n' text) st
  rw [flatten_splitInclusive] at hbuffer
  rw [foldl_oddLines] at hfence
  exact ⟨hbuffer, hfence⟩

/-- A break is taken outside a fence, and force-closing happens in one. -/
theorem nextFlush_fence (st : StreamChunker) :
    (∀ n, st.nextFlush = .breakAt n → st.inCodeFence = false) ∧
      (st.nextFlush = .forceClose → st.inCodeFence = true) := by
  unfold StreamChunker.nextFlush
  dsimp only
  split
  · exact ⟨fun _ h => (nomatch h), fun h => (nomatch h)⟩
  · split
    · exact ⟨fun _ h => (nomatch h), fun h => (nomatch h)⟩
    · rename_i hshort
      split
      · rename_i hclose
        rw [Bool.and_eq_true] at hclose
        exact ⟨fun _ h => (nomatch h), fun _ => hclose.1⟩
      · rename_i hopen
        have hfence : st.inCodeFence = false := by
          cases hfence : st.inCodeFence with
          | false => rfl
          | true =>
              rw [hfence, Bool.true_and, decide_eq_true_eq] at hshort hopen
              omega
        refine ⟨fun _ _ => hfence, fun h => ?_⟩
        split at h
        · cases h
        · split at h <;> cases h

theorem reopening_eq (h : st.inCodeFence = true) : st.reopening = fence ++ ['\n'] := by
  rw [StreamChunker.reopening, st.marker, h, if_pos rfl]
  rfl

end Chunker

/-! ### The text is restored -/

section Accounting

variable {run : ChunkRun}

/-- The chunks and the buffer together restore the text. -/
structure Accounted (run : ChunkRun) : Prop where
  chunks : run.markedEmitted.map (List.map Prod.fst) = run.emitted
  buffer : run.markedBuffer.map Prod.fst = run.chunker.buffer
  kept : ((run.markedEmitted.flatten ++ run.markedBuffer).filter fun c => !c.2).map Prod.fst =
    run.text
  inserted : ((run.markedEmitted.flatten ++ run.markedBuffer).filter fun c => c.2).map Prod.fst =
    (List.replicate run.closings (StreamChunker.closing ++ fence ++ ['\n'])).flatten

theorem filter_mark (inserted : Bool) (text : List Char) :
    ((mark inserted text).filter fun c => c.2).map Prod.fst =
        (if inserted then text else []) ∧
      ((mark inserted text).filter fun c => !c.2).map Prod.fst =
        if inserted then [] else text := by
  cases inserted <;> simp [mark, List.filter_map, Function.comp_def]

theorem map_mark (inserted : Bool) (text : List Char) :
    (mark inserted text).map Prod.fst = text := by
  simp [mark, Function.comp_def]

theorem step_wait (h : run.chunker.nextFlush = .wait) : run.step .tryFlush = run := by
  simp [step, StreamChunker.tryFlush, h, flushMarks]

theorem step_forceClose (h : run.chunker.nextFlush = .forceClose) :
    run.step .tryFlush =
      { run with
        chunker := { run.chunker with buffer := run.chunker.reopening }
        emitted := run.emitted ++ [run.chunker.buffer ++ StreamChunker.closing]
        markedBuffer := mark true run.chunker.reopening
        markedEmitted := run.markedEmitted ++ [run.markedBuffer ++ mark true StreamChunker.closing]
        closings := run.closings + 1 } := by
  simp [step, StreamChunker.tryFlush, h, flushMarks]

theorem step_breakAt {n : Nat} (h : run.chunker.nextFlush = .breakAt n) :
    run.step .tryFlush =
      { run with
        chunker := { run.chunker with buffer := run.chunker.buffer.drop n }
        emitted := run.emitted ++ [run.chunker.buffer.take n]
        markedBuffer := run.markedBuffer.drop n
        markedEmitted := run.markedEmitted ++ [run.markedBuffer.take n] } := by
  simp [step, StreamChunker.tryFlush, h, flushMarks]

theorem Accounted.push (h : Accounted run) (text : List Char) :
    Accounted (run.step (.push text)) where
  chunks := h.chunks
  buffer := by
    rw [step, List.map_append, h.buffer, map_mark, (push_spec run.chunker text).1]
  kept := by
    rw [step, ← List.append_assoc, List.filter_append, List.map_append, h.kept,
      (filter_mark false text).2, if_neg Bool.false_ne_true]
  inserted := by
    rw [step, ← List.append_assoc, List.filter_append, List.map_append, h.inserted,
      (filter_mark false text).1, if_neg Bool.false_ne_true, List.append_nil]

theorem Accounted.tryFlush (h : Accounted run) : Accounted (run.step .tryFlush) := by
  cases hflush : run.chunker.nextFlush with
  | wait =>
      rw [step_wait hflush]
      exact h
  | forceClose =>
      have hfence := (nextFlush_fence run.chunker).2 hflush
      have hwhole : ∀ marked reopening : List (Char × Bool),
          (run.markedEmitted ++ [run.markedBuffer ++ marked]).flatten ++ reopening =
            run.markedEmitted.flatten ++ run.markedBuffer ++ (marked ++ reopening) := by
        intro marked reopening
        simp
      rw [step_forceClose hflush]
      refine ⟨?_, map_mark true _, ?_, ?_⟩
      · rw [List.map_append, h.chunks, List.map_singleton, List.map_append, h.buffer, map_mark]
      · rw [hwhole, List.filter_append, List.map_append, h.kept, List.filter_append,
          List.map_append, (filter_mark true _).2, (filter_mark true _).2]
        exact List.append_nil _
      · rw [hwhole, List.filter_append, List.map_append, h.inserted, List.filter_append,
          List.map_append, (filter_mark true _).1, (filter_mark true _).1, reopening_eq hfence,
          List.replicate_succ', List.flatten_append, List.flatten_singleton, List.append_assoc]
        rfl
  | breakAt n =>
      have hwhole : (run.markedEmitted ++ [run.markedBuffer.take n]).flatten ++
          run.markedBuffer.drop n = run.markedEmitted.flatten ++ run.markedBuffer := by
        rw [List.flatten_append, List.flatten_singleton, List.append_assoc,
          List.take_append_drop]
      rw [step_breakAt hflush]
      refine ⟨?_, ?_, by rw [hwhole, h.kept], by rw [hwhole, h.inserted]⟩
      · rw [List.map_append, h.chunks, List.map_singleton, List.map_take, h.buffer]
      · rw [List.map_drop, h.buffer]

/-- Every run accounts for the text. -/
theorem accounted (minChunkChars maxChunkChars : Nat) (ops : List ChunkOp) :
    Accounted (runOps step (start minChunkChars maxChunkChars) ops) := by
  refine runOps_invariant' (fun run op h => ?_) ⟨rfl, rfl, rfl, rfl⟩ ops
  cases op with
  | push text => exact h.push text
  | tryFlush => exact h.tryFlush

theorem Accounted.restores (h : Accounted run) : Restores run.finish := by
  have hwhole : (run.markedEmitted ++
      if run.markedBuffer.isEmpty then [] else [run.markedBuffer]).flatten =
        run.markedEmitted.flatten ++ run.markedBuffer := by
    split
    · rename_i hempty
      rw [List.isEmpty_iff.mp hempty]
      simp
    · simp
  refine ⟨?_, ?_, ?_⟩
  · rw [finish, List.map_append, h.chunks, StreamChunker.flushRemaining, ← h.buffer]
    cases run.markedBuffer <;> simp
  · rw [finish, hwhole, h.kept]
  · rw [finish, hwhole, h.inserted]

end Accounting

/-! ### The fences are kept -/

section Fences

variable {run : ChunkRun}

/-- The flag tells whether the buffer has an open fence, and whether the text has. -/
structure Fenced (run : ChunkRun) : Prop where
  buffer : oddLines '\n' isFence run.chunker.buffer = run.chunker.inCodeFence
  text : oddLines '\n' isFence run.text = run.chunker.inCodeFence
  emitted : ∀ chunk ∈ run.emitted, oddLines '\n' isFence chunk = false

/-- A text that goes on with the open line of another adds its own fence lines. -/
theorem GoesOn.append {text more : List Char} (h : GoesOn (openLine '\n' text) more) :
    oddLines '\n' isFence (text ++ more) =
      (oddLines '\n' isFence text ^^ oddLines '\n' isFence more) := by
  rw [oddLines_append_open, h]
  cases oddLines '\n' isFence (openLine '\n' text) <;> simp

theorem oddLines_fence : oddLines '\n' isFence (fence ++ ['\n']) = true := by decide

theorem oddLines_closing (buffer : List Char) :
    oddLines '\n' isFence (buffer ++ StreamChunker.closing) =
      !oddLines '\n' isFence buffer := by
  have hclosing : StreamChunker.closing = '\n' :: (fence ++ ['\n']) := rfl
  rw [hclosing, oddLines_append_sep isFence isFence_nil isFence_concat, oddLines_fence,
    Bool.xor_true]

/-- Outside the fences of a text that has none open, neither side of a break has one open. -/
theorem OutsideFences.sides {front back : List Char} (h : OutsideFences front back)
    (hclosed : oddLines '\n' isFence (front ++ back) = false) :
    oddLines '\n' isFence front = false ∧ oddLines '\n' isFence back = false := by
  obtain ⟨hmarker, hbefore⟩ := h
  rw [fenceLines, even_countLines_iff] at hbefore
  have hline : '\n' ∉ openLine '\n' front := notMem_openLine front
  have hended : Ended '\n' (closedLines '\n' front) := ended_closedLines front
  have hfront : closedLines '\n' front ++ openLine '\n' front = front :=
    closedLines_append_openLine front
  have hrest : '\n' ∉ back.takeWhile (· != '\n') := fun hmem => by
    simpa using List.mem_takeWhile_imp hmem
  have hback : back.takeWhile (· != '\n') ++ back.dropWhile (· != '\n') = back :=
    List.takeWhile_append_dropWhile
  generalize closedLines '\n' front = before at *
  generalize openLine '\n' front = line at *
  generalize back.takeWhile (· != '\n') = rest at *
  -- behind the line that is cut, the lines count for themselves
  have hbehind : ∀ text, '\n' ∉ text →
      oddLines '\n' isFence (text ++ back.dropWhile (· != '\n')) =
        (isFence text ^^ oddLines '\n' isFence (back.dropWhile (· != '\n'))) := by
    intro text htext
    cases hdrop : back.dropWhile (· != '\n') with
    | nil => simp [oddLines_open isFence isFence_nil htext]
    | cons c more =>
        have hc := List.head_dropWhile_not (l := back) (· != '\n') (by simp [hdrop])
        simp only [hdrop, List.head_cons, bne_eq_false_iff_eq] at hc
        have hempty := oddLines_append_sep isFence isFence_nil isFence_concat [] more
        rw [List.nil_append, oddLines_nil, Bool.false_xor] at hempty
        rw [hc, oddLines_append_sep isFence isFence_nil isFence_concat,
          oddLines_open isFence isFence_nil htext, hempty]
  have hodd : oddLines '\n' isFence before = isFence line := by
    cases hb : oddLines '\n' isFence before <;> cases hl : isFence line <;> simp_all
  have hwhole : oddLines '\n' isFence (front ++ back) = (oddLines '\n' isFence before ^^
      (isFence (line ++ rest) ^^ oddLines '\n' isFence (back.dropWhile (· != '\n')))) := by
    rw [← hbehind _ (by simp [hline, hrest]), ← oddLines_append isFence hended,
      List.append_assoc, hback, ← List.append_assoc, hfront]
  constructor
  · rw [← hfront, oddLines_append isFence hended, oddLines_open isFence isFence_nil hline, hodd,
      Bool.xor_self]
  · rw [← hback, hbehind _ hrest]
    rw [hclosed, hodd, hmarker] at hwhole
    simpa using hwhole.symm

theorem Fenced.step (h : Fenced run) (op : ChunkOp) (hsound : run.Sound op) :
    Fenced (run.step op) := by
  cases op with
  | push text =>
      obtain ⟨hbuffer, htext⟩ := hsound
      obtain ⟨hpush, hfence⟩ := push_spec run.chunker text
      refine ⟨?_, ?_, h.emitted⟩
      · rw [ChunkRun.step, hpush, hbuffer.append, h.buffer, hfence]
      · rw [ChunkRun.step, htext.append, h.text, hfence]
  | tryFlush =>
      cases hflush : run.chunker.nextFlush with
      | wait =>
          rw [step_wait hflush]
          exact h
      | forceClose =>
          have hfence := (nextFlush_fence run.chunker).2 hflush
          rw [step_forceClose hflush]
          refine ⟨?_, h.text, List.forall_mem_append.mpr ⟨h.emitted, ?_⟩⟩
          · rw [reopening_eq hfence]
            exact oddLines_fence.trans hfence.symm
          · rw [List.forall_mem_singleton, oddLines_closing, h.buffer, hfence]
            rfl
      | breakAt n =>
          have hfence := (nextFlush_fence run.chunker).1 n hflush
          have hclosed : oddLines '\n' isFence run.chunker.buffer = false := h.buffer.trans hfence
          have houtside : OutsideFences (run.chunker.buffer.take n) (run.chunker.buffer.drop n) :=
            hsound ((even_countLines_iff isFence).mpr hclosed)
              (StreamChunker.minChunkChars_le_of_nextFlush hflush) _ _
              (List.take_append_drop n _).symm (StreamChunker.bestBreak_of_nextFlush hfence hflush)
          obtain ⟨hchunk, hrest⟩ := houtside.sides (by rw [List.take_append_drop, hclosed])
          rw [step_breakAt hflush]
          refine ⟨hrest.trans hfence.symm, h.text, List.forall_mem_append.mpr ⟨h.emitted, ?_⟩⟩
          rw [List.forall_mem_singleton]
          exact hchunk

theorem Fenced.keepsFences (h : Fenced run) : KeepsFences run.finish := by
  intro hclosed chunk hchunk
  rw [fenceLines, even_countLines_iff] at hclosed ⊢
  rcases List.mem_append.mp hchunk with hearlier | hlast
  · exact h.emitted chunk hearlier
  · have hbuffer : chunk = run.chunker.buffer := by
      rw [StreamChunker.flushRemaining] at hlast
      split at hlast
      · cases hlast
      · exact List.mem_singleton.mp hlast
    rw [hbuffer, h.buffer, ← h.text]
    exact hclosed

end Fences

/-- **Stream chunks.** Whatever the pushes and flushes, the chunks restore the text. In every run
whose calls are sound, no chunk ends in a fence of the text. -/
theorem chunks_keep_fences (minChunkChars maxChunkChars : Nat) (ops : List ChunkOp) :
    Restores (whole minChunkChars maxChunkChars ops) ∧
      (Guarded step Sound (start minChunkChars maxChunkChars) ops →
        KeepsFences (whole minChunkChars maxChunkChars ops)) := by
  refine ⟨(accounted minChunkChars maxChunkChars ops).restores, fun hsound => ?_⟩
  have hstart : Fenced (start minChunkChars maxChunkChars) :=
    ⟨oddLines_nil isFence, oddLines_nil isFence, fun _ h => absurd h List.not_mem_nil⟩
  exact (runOps_invariant (fun _ op h => h.step op) hstart hsound).keepsFences

/-- A fence that comes in three pushes is kept whole. -/
theorem chunks_keep_fences_whole :
    KeepsFences (whole 4 40 [.push "A:\n```lean\n".toList, .tryFlush, .push "x\n".toList,
      .tryFlush, .push "y\n```\n".toList, .tryFlush]) :=
  (chunks_keep_fences 4 40 _).2 (by decide +kernel)

/-- A fence that is in the buffer as a whole is broken at the blank line in it. -/
theorem chunk_ends_in_fence : ¬ ∀ (minChunkChars maxChunkChars : Nat) (ops : List ChunkOp),
    0 < minChunkChars → minChunkChars ≤ maxChunkChars →
      Restores (whole minChunkChars maxChunkChars ops) ∧
        KeepsFences (whole minChunkChars maxChunkChars ops) := by
  intro h
  have hkeeps := (h 1 200 [.push "```\na\n\nb\n```\n".toList, .tryFlush] (by decide)
    (by decide)).2
  exact absurd (hkeeps (by decide +kernel) "```\na\n\n".toList (by decide +kernel))
    (by decide +kernel)

end ChunkRun

end ArmaraOS.Api
