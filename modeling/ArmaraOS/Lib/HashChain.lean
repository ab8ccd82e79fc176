import Mathlib.Data.List.Basic
import Mathlib.Data.List.Forall2
import Mathlib.Data.List.Induction

/-!
Chains of entries in which each entry holds the hash of the entry before it.

An entry is hashed through its image, which need not determine the entry. What a chain
commits to by its last hash is therefore its sequence of images, and only while no two
images in play share a digest and no entry hashes to the value that the chain starts from.
-/

namespace ArmaraOS.Lib

variable {E I H : Type}

/-- How entries are hashed and linked. -/
structure Chaining (E I H : Type) where
  prev : E → H
  hash : E → H
  image : E → I
  digest : I → H

namespace Chaining

variable (C : Chaining E I H)

/-- Each entry holds the digest of its image and, as its `prev`, the hash before it. -/
def Linked : H → List E → Prop
  | _, [] => True
  | h, e :: es => C.prev e = h ∧ C.digest (C.image e) = C.hash e ∧ Linked (C.hash e) es

/-- The hash that a chain from `h` ends in. -/
def endHash (h : H) (es : List E) : H := es.foldl (fun _ e => C.hash e) h

/-- The entries carry the same image and the same hashes. -/
def SameLink (e f : E) : Prop :=
  C.image e = C.image f ∧ C.prev e = C.prev f ∧ C.hash e = C.hash f

/-- No two of the entries have different images with one digest. -/
def CollisionFree (es fs : List E) : Prop :=
  ∀ e ∈ es, ∀ f ∈ fs, C.digest (C.image e) = C.digest (C.image f) → C.image e = C.image f

variable {C}

@[simp] theorem endHash_nil (h : H) : C.endHash h [] = h := rfl

@[simp] theorem endHash_concat (h : H) (es : List E) (e : E) :
    C.endHash h (es ++ [e]) = C.hash e := by
  simp [endHash]

theorem linked_append {h : H} {es fs : List E} :
    C.Linked h (es ++ fs) ↔ C.Linked h es ∧ C.Linked (C.endHash h es) fs := by
  induction es generalizing h with
  | nil => simp [Linked]
  | cons e es ih => simp [Linked, ih, endHash, and_assoc]

theorem linked_singleton {h : H} {e : E} :
    C.Linked h [e] ↔ C.prev e = h ∧ C.digest (C.image e) = C.hash e := by
  simp [Linked]

/-- An initial part of a chain is a chain. -/
theorem Linked.of_longer {h : H} {es fs : List E} (hlinked : C.Linked h fs) (hle : es <+: fs) :
    C.Linked h es := by
  obtain ⟨rest, rfl⟩ := hle
  exact (linked_append.mp hlinked).1

/-- The entries of a chain hold the start of the chain or a digest as their `prev`. -/
theorem Linked.prev_eq {h : H} {es : List E} (hlinked : C.Linked h es) :
    ∀ e ∈ es, C.prev e = h ∨ ∃ i, C.prev e = C.digest i := by
  induction es generalizing h with
  | nil => simp
  | cons e es ih =>
      intro f hf
      rcases List.mem_cons.mp hf with rfl | hf
      · exact .inl hlinked.1
      · rcases ih hlinked.2.2 f hf with hprev | hdigest
        · exact .inr ⟨C.image e, hprev.trans hlinked.2.1.symm⟩
        · exact .inr hdigest

/-- Entries with the same links can stand for each other in a chain. -/
theorem linked_congr {h : H} {es fs : List E} (hsame : List.Forall₂ C.SameLink es fs) :
    C.Linked h es ↔ C.Linked h fs := by
  induction hsame generalizing h with
  | nil => rfl
  | cons hlink _ ih =>
      obtain ⟨himage, hprev, hhash⟩ := hlink
      rw [Linked, Linked, himage, hprev, hhash, ih]

/-- **A chain commits to its images.** Two chains from `h` that end in one hash have the same
links entry by entry, when the digest separates their images, an image determines the `prev`
in it, and no entry of either hashes to `h`. -/
theorem Linked.commits {h : H} {es fs : List E} (hes : C.Linked h es) (hfs : C.Linked h fs)
    (hend : C.endHash h es = C.endHash h fs) (hfree : C.CollisionFree es fs)
    (hprev : ∀ e ∈ es, ∀ f ∈ fs, C.image e = C.image f → C.prev e = C.prev f)
    (hstart : ∀ e ∈ es, C.hash e ≠ h) (hstart' : ∀ f ∈ fs, C.hash f ≠ h) :
    List.Forall₂ C.SameLink es fs := by
  induction es using List.reverseRec generalizing fs with
  | nil =>
      cases fs using List.reverseRec with
      | nil => exact .nil
      | append_singleton fs f =>
          rw [endHash_nil, endHash_concat] at hend
          exact absurd hend.symm (hstart' f (by simp))
  | append_singleton es e ih =>
      cases fs using List.reverseRec with
      | nil =>
          rw [endHash_nil, endHash_concat] at hend
          exact absurd hend (hstart e (by simp))
      | append_singleton fs f =>
          obtain ⟨hes, he⟩ := linked_append.mp hes
          obtain ⟨hfs, hf⟩ := linked_append.mp hfs
          obtain ⟨hpe, hde⟩ := linked_singleton.mp he
          obtain ⟨hpf, hdf⟩ := linked_singleton.mp hf
          rw [endHash_concat, endHash_concat] at hend
          have himage : C.image e = C.image f := by
            apply hfree e (by simp) f (by simp)
            rw [hde, hdf, hend]
          have hsame : C.prev e = C.prev f := hprev e (by simp) f (by simp) himage
          have hbefore : List.Forall₂ C.SameLink es fs := by
            refine ih hes hfs (hpe.symm.trans (hsame.trans hpf)) ?_ ?_ ?_ ?_
            · exact fun e he f hf => hfree e (by simp [he]) f (by simp [hf])
            · exact fun e he f hf => hprev e (by simp [he]) f (by simp [hf])
            · exact fun e he => hstart e (by simp [he])
            · exact fun f hf => hstart' f (by simp [hf])
          exact List.rel_append hbefore (.cons ⟨himage, hsame, hend⟩ .nil)

end Chaining

end ArmaraOS.Lib
