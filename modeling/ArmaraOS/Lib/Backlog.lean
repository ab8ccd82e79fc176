import Mathlib.Data.List.Basic

/-!
A backlog: what arrives waits until it is taken, all at once, and when too much waits the oldest is
dropped.

What was taken and what waits are in the order of arrival, without repetition, and together they are
all that arrived but for what was dropped.
-/

namespace ArmaraOS.Lib

/-- What waits, and for the record all that arrived, what was taken and how much was dropped. -/
structure Backlog (α : Type) where
  arrived : List α
  waiting : List α
  taken : List α
  dropped : Nat

namespace Backlog

variable {α : Type}

/-- Nothing has arrived. -/
def empty : Backlog α := ⟨[], [], [], 0⟩

/-- One more arrives. If `cap` wait already, the oldest `drop` of them are dropped. -/
def push (cap drop : Nat) (b : Backlog α) (x : α) : Backlog α :=
  let gone := if cap ≤ b.waiting.length then drop else 0
  { b with
    arrived := b.arrived ++ [x]
    waiting := b.waiting.drop gone ++ [x]
    dropped := b.dropped + min gone b.waiting.length }

/-- All that waits is taken. -/
def drain (b : Backlog α) : Backlog α :=
  { b with
    waiting := []
    taken := b.taken ++ b.waiting }

/-- What was taken and what waits are in order, the most recent wait, at most `cap`, and the rest
was dropped. -/
structure Sound (cap : Nat) (b : Backlog α) : Prop where
  order : (b.taken ++ b.waiting).Sublist b.arrived
  recent : b.waiting <:+ b.arrived
  bounded : b.waiting.length ≤ cap
  counted : b.arrived.length = b.taken.length + b.waiting.length + b.dropped

namespace Sound

variable {cap drop : Nat} {b : Backlog α}

theorem empty : Sound cap (Backlog.empty : Backlog α) :=
  ⟨.slnil, List.suffix_rfl, Nat.zero_le cap, rfl⟩

theorem push (h : Sound cap b) (hcap : 0 < cap) (hdrop : 0 < drop) (x : α) :
    Sound cap (b.push cap drop x) := by
  unfold Backlog.push
  constructor
  case order =>
    rw [← List.append_assoc]
    exact .append (((List.drop_sublist _ _).append_left b.taken).trans h.order) (.refl [x])
  case recent =>
    obtain ⟨front, hfront⟩ := (List.drop_suffix _ b.waiting).trans h.recent
    exact ⟨front, by rw [← List.append_assoc, hfront]⟩
  case bounded =>
    have hbounded := h.bounded
    simp only [List.length_append, List.length_drop, List.length_singleton]
    split <;> omega
  case counted =>
    have hcounted := h.counted
    simp only [List.length_append, List.length_drop, List.length_singleton]
    omega

theorem drain (h : Sound cap b) : Sound cap b.drain where
  order := by
    rw [Backlog.drain, List.append_nil]
    exact h.order
  recent := List.nil_suffix
  bounded := Nat.zero_le cap
  counted := by
    have hcounted := h.counted
    simp only [Backlog.drain, List.length_append, List.length_nil]
    omega

/-- Where nothing was dropped, what was taken and what waits are all that arrived. -/
theorem complete (h : Sound cap b) (hnone : b.dropped = 0) : b.taken ++ b.waiting = b.arrived := by
  refine h.order.eq_of_length ?_
  rw [List.length_append, h.counted, hnone]
  rfl

end Sound

end Backlog

end ArmaraOS.Lib
