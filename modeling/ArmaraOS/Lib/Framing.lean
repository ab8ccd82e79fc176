import Mathlib.Algebra.Ring.Nat
import Mathlib.Data.List.Basic

/-!
Reading a stream frame by frame from a buffer.

A reader appends each chunk it receives to a buffer and then takes frames off the front of the
buffer for as long as there is one. `Framing` is what it needs of the rule that finds a frame:
a frame does not change when more arrives behind it. Then the frames, and what is left in the
buffer, depend only on the concatenation of the chunks (`readChunks_eq`).
-/

namespace ArmaraOS.Lib

/-- A rule that takes the first frame off a buffer. -/
structure Framing (α : Type*) where
  cut : List α → Option (List α × List α)
  shorter : ∀ {buffer frame rest : List α}, cut buffer = some (frame, rest) →
    rest.length < buffer.length
  stable : ∀ {buffer frame rest : List α} (more : List α), cut buffer = some (frame, rest) →
    cut (buffer ++ more) = some (frame, rest ++ more)

namespace Framing

variable {α σ : Type*}

/-! ### The reader -/

section Reader

variable (fr : Framing α) (handle : σ → List α → σ)

/-- Take frames off the buffer, at most `fuel` of them, and hand each to `handle`. -/
def drain : Nat → List α → σ → List α × σ
  | 0, buffer, st => (buffer, st)
  | fuel + 1, buffer, st =>
      match fr.cut buffer with
      | none => (buffer, st)
      | some (frame, rest) => drain fuel rest (handle st frame)

/-- One chunk: append it and take off all frames. The length of the buffer is enough fuel, since
each frame makes it shorter. -/
def feed (s : List α × σ) (chunk : List α) : List α × σ :=
  fr.drain handle (s.1 ++ chunk).length (s.1 ++ chunk) s.2

/-- All chunks, from an empty buffer. -/
def readChunks (st : σ) (chunks : List (List α)) : List α × σ :=
  chunks.foldl (fr.feed handle) ([], st)

end Reader

/-! ### The frames of a buffer -/

/-- The frames of a buffer, and what is left of it. -/
inductive Splits (fr : Framing α) : List α → List (List α) → List α → Prop where
  | stop {buffer : List α} : fr.cut buffer = none → Splits fr buffer [] buffer
  | frame {buffer frame rest left : List α} {frames : List (List α)} :
      fr.cut buffer = some (frame, rest) → Splits fr rest frames left →
      Splits fr buffer (frame :: frames) left

variable {fr : Framing α} {handle : σ → List α → σ}

theorem cut_nil (fr : Framing α) : fr.cut [] = none := by
  cases hcut : fr.cut [] with
  | none => rfl
  | some split => exact absurd (@shorter _ fr [] split.1 split.2 hcut) (Nat.not_lt_zero _)

theorem Splits.cut_left {buffer left : List α} {frames : List (List α)}
    (h : Splits fr buffer frames left) : fr.cut left = none := by
  induction h with
  | stop hcut => exact hcut
  | frame _ _ ih => exact ih

/-- Every buffer splits. -/
theorem exists_splits (fr : Framing α) (buffer : List α) :
    ∃ frames left, Splits fr buffer frames left := by
  cases hcut : fr.cut buffer with
  | none => exact ⟨[], buffer, .stop hcut⟩
  | some split =>
      obtain ⟨frames, left, hrest⟩ := exists_splits fr split.2
      exact ⟨split.1 :: frames, left, .frame hcut hrest⟩
termination_by buffer.length
decreasing_by exact fr.shorter hcut

/-- A buffer splits in one way. -/
theorem Splits.unique {buffer left left' : List α} {frames frames' : List (List α)}
    (h : Splits fr buffer frames left) (h' : Splits fr buffer frames' left') :
    frames = frames' ∧ left = left' := by
  induction h generalizing frames' with
  | stop hcut =>
      cases h' with
      | stop _ => exact ⟨rfl, rfl⟩
      | frame hcut' _ => exact absurd (hcut.symm.trans hcut') (by simp)
  | frame hcut _ ih =>
      cases h' with
      | stop hcut' => exact absurd (hcut.symm.trans hcut') (by simp)
      | frame hcut' hrest =>
          obtain ⟨rfl, rfl⟩ : _ ∧ _ := by simpa using hcut.symm.trans hcut'
          obtain ⟨rfl, rfl⟩ := ih hrest
          exact ⟨rfl, rfl⟩

/-- What arrives behind a buffer does not change the frames that are there. -/
theorem Splits.append {buffer left more left' : List α} {frames frames' : List (List α)}
    (h : Splits fr buffer frames left) (h' : Splits fr (left ++ more) frames' left') :
    Splits fr (buffer ++ more) (frames ++ frames') left' := by
  induction h with
  | stop _ => exact h'
  | frame hcut _ ih => exact .frame (fr.stable more hcut) (ih h')

/-- Draining with enough fuel handles the frames in order. -/
theorem Splits.drain_eq {buffer left : List α} {frames : List (List α)}
    (h : Splits fr buffer frames left) {fuel : Nat} (hfuel : buffer.length ≤ fuel) (st : σ) :
    fr.drain handle fuel buffer st = (left, frames.foldl handle st) := by
  induction h generalizing fuel st with
  | stop hcut =>
      cases fuel with
      | zero => rfl
      | succ fuel => simp [drain, hcut]
  | frame hcut _ ih =>
      have hshort := fr.shorter hcut
      obtain ⟨n, rfl⟩ : ∃ n, fuel = n + 1 := ⟨fuel - 1, by omega⟩
      simp only [drain, hcut]
      exact ih (by omega) _

theorem feed_eq {before chunk left : List α} {frames : List (List α)}
    (h : Splits fr (before ++ chunk) frames left) (st : σ) :
    fr.feed handle (before, st) chunk = (left, frames.foldl handle st) :=
  h.drain_eq (Nat.le_refl _) st

/-- From a buffer without a frame in it. -/
theorem foldl_feed_eq : ∀ {chunks : List (List α)} {before left : List α}
    {frames : List (List α)} (st : σ), fr.cut before = none →
    Splits fr (before ++ chunks.flatten) frames left →
    chunks.foldl (fr.feed handle) (before, st) = (left, frames.foldl handle st)
  | [], before, left, frames, st, hbefore, h => by
      rw [List.flatten_nil, List.append_nil] at h
      obtain ⟨rfl, rfl⟩ := h.unique (.stop hbefore)
      rfl
  | chunk :: chunks, before, left, frames, st, hbefore, h => by
      obtain ⟨frames₁, left₁, h₁⟩ := exists_splits fr (before ++ chunk)
      obtain ⟨frames₂, left₂, h₂⟩ := exists_splits fr (left₁ ++ chunks.flatten)
      have hall := h₁.append h₂
      rw [List.append_assoc, ← List.flatten_cons] at hall
      obtain ⟨rfl, rfl⟩ := h.unique hall
      rw [List.foldl_cons, feed_eq h₁, foldl_feed_eq _ h₁.cut_left h₂, List.foldl_append]

/-- The chunks are read as their concatenation is. -/
theorem readChunks_eq {chunks : List (List α)} {left : List α} {frames : List (List α)}
    (h : Splits fr chunks.flatten frames left) (st : σ) :
    fr.readChunks handle st chunks = (left, frames.foldl handle st) :=
  foldl_feed_eq st fr.cut_nil h

/-- The frames of a buffer, and what is left of it behind them. -/
def pieces (fr : Framing α) (buffer : List α) : List (List α) :=
  let (left, frames) :=
    fr.drain (fun frames frame => frames ++ [frame]) buffer.length buffer []
  frames ++ [left]

/-- All frames that the chunks bring, each turned into at most one item. -/
def readItems {β : Type*} (fr : Framing α) (item : List α → Option β) (chunks : List (List α)) :
    List α × List β :=
  fr.readChunks (fun items frame => items ++ (item frame).toList) [] chunks

theorem readItems_eq {β : Type*} {item : List α → Option β} {chunks : List (List α)}
    {left : List α} {frames : List (List α)} (h : Splits fr chunks.flatten frames left) :
    fr.readItems item chunks = (left, frames.filterMap item) := by
  have hfold : ∀ (fs : List (List α)) (items : List β),
      fs.foldl (fun items frame => items ++ (item frame).toList) items =
        items ++ fs.filterMap item := by
    intro fs
    induction fs with
    | nil => simp
    | cons f fs ih =>
        intro items
        rw [List.foldl_cons, ih]
        cases hf : item f with
        | none => simp [List.filterMap_cons_none hf]
        | some b => simp [List.filterMap_cons_some hf]
  rw [readItems, readChunks_eq h, hfold, List.nil_append]

/-- A reader that takes at most one item from each frame, and hands it on, hands on the items
in order. -/
theorem readChunks_eq_readItems {β : Type*} (item : List α → Option β) (step : σ → β → σ)
    (handle : σ → List α → σ)
    (hhandle : ∀ st frame, handle st frame = (item frame).elim st (step st)) (st : σ)
    (chunks : List (List α)) :
    fr.readChunks handle st chunks =
      ((fr.readItems item chunks).1, (fr.readItems item chunks).2.foldl step st) := by
  obtain ⟨frames, left, h⟩ := exists_splits fr chunks.flatten
  have hfold : ∀ (fs : List (List α)) (st : σ),
      fs.foldl handle st = (fs.filterMap item).foldl step st := by
    intro fs
    induction fs with
    | nil => intro st; rfl
    | cons f fs ih =>
        intro st
        rw [List.foldl_cons, ih, hhandle]
        cases hf : item f with
        | none => rw [List.filterMap_cons_none hf]; rfl
        | some b => rw [List.filterMap_cons_some hf]; rfl
  rw [readChunks_eq h, readItems_eq h, hfold]

/-! ### Frames that end with a delimiter -/

section Delimited

variable [DecidableEq α]

/-- What stands before and behind the first occurrence of a pattern. -/
def cutAt (pat : List α) : List α → Option (List α × List α)
  | [] => if pat.isEmpty then some ([], []) else none
  | a :: as =>
      match pat.isPrefixOf? (a :: as) with
      | some rest => some ([], rest)
      | none => (cutAt pat as).map fun cut => (a :: cut.1, cut.2)

theorem cutAt_eq_some {pat : List α} : ∀ {buffer frame rest : List α},
    cutAt pat buffer = some (frame, rest) → buffer = frame ++ pat ++ rest
  | [], frame, rest, h => by
      cases pat with
      | nil =>
          obtain ⟨rfl, rfl⟩ : [] = frame ∧ [] = rest := by simpa [cutAt] using h
          rfl
      | cons p pat => exact absurd h (by simp [cutAt])
  | a :: as, frame, rest, h => by
      unfold cutAt at h
      split at h
      · rename_i behind hprefix
        obtain ⟨rfl, rfl⟩ : [] = frame ∧ behind = rest := by simpa using h
        exact (List.isPrefixOf?_eq_some_iff_append_eq.mp hprefix).symm
      · cases hcut : cutAt pat as with
        | none => simp [hcut] at h
        | some cut =>
            obtain ⟨front, behind⟩ := cut
            obtain ⟨rfl, rfl⟩ : a :: front = frame ∧ behind = rest := by simpa [hcut] using h
            rw [cutAt_eq_some hcut]
            rfl

/-- The first occurrence stays the first when more arrives. -/
theorem cutAt_append {pat : List α} (more : List α) : ∀ {buffer frame rest : List α},
    cutAt pat buffer = some (frame, rest) →
    cutAt pat (buffer ++ more) = some (frame, rest ++ more)
  | [], frame, rest, h => by
      cases pat with
      | nil =>
          obtain ⟨rfl, rfl⟩ : [] = frame ∧ [] = rest := by simpa [cutAt] using h
          cases more <;> simp [cutAt, List.isPrefixOf?]
      | cons p pat => exact absurd h (by simp [cutAt])
  | a :: as, frame, rest, h => by
      unfold cutAt at h
      split at h
      · rename_i behind hprefix
        obtain ⟨rfl, rfl⟩ : [] = frame ∧ behind = rest := by simpa using h
        have happend : pat ++ (behind ++ more) = a :: (as ++ more) := by
          rw [← List.append_assoc, List.isPrefixOf?_eq_some_iff_append_eq.mp hprefix]
          rfl
        rw [List.cons_append, cutAt, List.isPrefixOf?_eq_some_iff_append_eq.mpr happend]
      · rename_i hprefix
        cases hcut : cutAt pat as with
        | none => simp [hcut] at h
        | some cut =>
            obtain ⟨front, behind⟩ := cut
            obtain ⟨rfl, rfl⟩ : a :: front = frame ∧ behind = rest := by simpa [hcut] using h
            -- The pattern fits into what is there, so it does not start at `a` later either.
            have hlen : pat.length ≤ as.length := by
              rw [cutAt_eq_some hcut]
              simp only [List.length_append]
              omega
            have hnot : pat.isPrefixOf? (a :: as ++ more) = none := by
              cases hsome : pat.isPrefixOf? (a :: as ++ more) with
              | none => rfl
              | some behind' =>
                  have hpre : pat <+: a :: as ++ more :=
                    ⟨_, List.isPrefixOf?_eq_some_iff_append_eq.mp hsome⟩
                  obtain ⟨tail, htail⟩ := List.prefix_of_prefix_length_le hpre
                    (List.prefix_append _ _) (by simp only [List.length_cons]; omega)
                  rw [List.isPrefixOf?_eq_some_iff_append_eq.mpr htail] at hprefix
                  exact absurd hprefix (by simp)
            rw [List.cons_append] at hnot
            rw [List.cons_append, cutAt, hnot, cutAt_append more hcut]
            rfl

/-- Frames that end with `pat`. -/
def delimited (pat : List α) (hpat : pat ≠ []) : Framing α where
  cut := cutAt pat
  shorter h := by
    have hlen := List.length_pos_iff.mpr hpat
    rw [cutAt_eq_some h]
    simp only [List.length_append]
    omega
  stable more h := cutAt_append more h

end Delimited

end Framing

end ArmaraOS.Lib
