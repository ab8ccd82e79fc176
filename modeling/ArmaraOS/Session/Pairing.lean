import Mathlib.Data.List.Chain
import Mathlib.Data.List.Flatten
import ArmaraOS.Lib.Drops
import ArmaraOS.Lib.Grouping
import ArmaraOS.Types.Message

/-!
Pairing of tool calls with their results over a message list.

`WellPaired` is the contract of a provider: each ToolUse is answered by exactly
one ToolResult in the next message, and each ToolResult answers a ToolUse of the
message before it. `Paired` is the same property by recursion, relative to the
ids `open'` that the message before leaves unanswered (`wellPaired_iff`); its two
halves are `Placed` (results only where they belong) and `Answered` (no call
without a result). The lemmas say which edits keep them: an edit behind each
message (`Placed.weave`, `Answered.weave`), the removal of messages without tool
blocks (`Paired.dropsInert`), and appending a message without tool blocks
(`Paired.append_inert`).
-/

namespace ArmaraOS.Session

open ArmaraOS.Lib

/-- ToolUse blocks occur only in Assistant messages and ToolResult blocks only in
User messages. -/
structure Separated (messages : List Message) : Prop where
  uses : ∀ m ∈ messages, m.toolUses ≠ [] → m.role = .assistant
  results : ∀ m ∈ messages, m.toolResults ≠ [] → m.role = .user

/-- Each ToolUse is answered by exactly one ToolResult in the next message, and
each ToolResult answers a ToolUse of the message before it. -/
structure WellPaired (messages : List Message) : Prop where
  answered : ∀ (i : Nat) (m : Message), messages[i]? = some m → ∀ x ∈ m.toolUses,
    ∃ n : Message, messages[i + 1]? = some n ∧ n.toolResults.count x = 1
  answers : ∀ (j : Nat) (n : Message), messages[j]? = some n → ∀ x ∈ n.toolResults,
    ∃ (i : Nat) (m : Message), j = i + 1 ∧ messages[i]? = some m ∧ x ∈ m.toolUses

/-- Every ToolResult answers a ToolUse of the message before it; before the first
message stand the ids `open'`. -/
def Placed (open' : List String) : List Message → Prop
  | [] => True
  | m :: rest => (∀ x ∈ m.toolResults, x ∈ open') ∧ Placed m.toolUses rest

/-- Every ToolUse has a ToolResult in the next message. -/
def Answered (open' : List String) : List Message → Prop
  | [] => open' = []
  | m :: rest => (∀ x ∈ open', x ∈ m.toolResults) ∧ Answered m.toolUses rest

/-- `WellPaired` by recursion. -/
def Paired (open' : List String) : List Message → Prop
  | [] => open' = []
  | m :: rest =>
      (∀ x ∈ m.toolResults, x ∈ open') ∧ (∀ x ∈ open', m.toolResults.count x = 1) ∧
        Paired m.toolUses rest

/-- A message without tool blocks. -/
def Inert (m : Message) : Prop := m.toolUses = [] ∧ m.toolResults = []

/-! ### The recursive form -/

section Recursive

variable {open' : List String} {m : Message} {rest messages : List Message}

@[simp] theorem paired_nil : Paired open' [] ↔ open' = [] := Iff.rfl

@[simp] theorem paired_cons : Paired open' (m :: rest) ↔
    (∀ x ∈ m.toolResults, x ∈ open') ∧ (∀ x ∈ open', m.toolResults.count x = 1) ∧
      Paired m.toolUses rest := Iff.rfl

@[simp] theorem placed_cons : Placed open' (m :: rest) ↔
    (∀ x ∈ m.toolResults, x ∈ open') ∧ Placed m.toolUses rest := Iff.rfl

@[simp] theorem answered_cons : Answered open' (m :: rest) ↔
    (∀ x ∈ open', x ∈ m.toolResults) ∧ Answered m.toolUses rest := Iff.rfl

/-- More open ids admit more results. -/
theorem Placed.mono {open'' : List String} (sub : ∀ x ∈ open', x ∈ open'') :
    Placed open' messages → Placed open'' messages := by
  cases messages with
  | nil => exact fun _ => trivial
  | cons m rest => exact fun h => ⟨fun x hx => sub x (h.1 x hx), h.2⟩

/-- Open ids are answered by a message that has results. -/
theorem Paired.head_results (h : Paired open' (m :: rest)) (hopen : open' ≠ []) :
    m.toolResults ≠ [] := by
  obtain ⟨x, hx⟩ := List.exists_mem_of_ne_nil _ hopen
  have hcount := h.2.1 x hx
  intro hnil
  rw [hnil, List.count_nil] at hcount
  omega

/-- A message without results leaves no id open before it. -/
theorem Paired.open_nil (h : Paired open' (m :: rest)) (hm : m.toolResults = []) :
    open' = [] := by
  by_contra hopen
  exact h.head_results hopen hm

/-- The recursive form read at a position. -/
theorem paired_iff : ∀ {messages : List Message} {open' : List String},
    Paired open' messages ↔
      (∀ x ∈ open', ∃ n : Message, messages[0]? = some n ∧ n.toolResults.count x = 1) ∧
      (∀ (i : Nat) (m : Message), messages[i]? = some m → ∀ x ∈ m.toolUses,
        ∃ n : Message, messages[i + 1]? = some n ∧ n.toolResults.count x = 1) ∧
      (∀ n : Message, messages[0]? = some n → ∀ x ∈ n.toolResults, x ∈ open') ∧
      (∀ (j : Nat) (n : Message), messages[j + 1]? = some n → ∀ x ∈ n.toolResults,
        ∃ m : Message, messages[j]? = some m ∧ x ∈ m.toolUses)
  | [], open' => by
      simp [List.eq_nil_iff_forall_not_mem]
  | m :: rest, open' => by
      rw [paired_cons, paired_iff]
      constructor
      · rintro ⟨hresults, hcount, hhead, huses, hfirst, hlater⟩
        refine ⟨fun x hx => ⟨m, rfl, hcount x hx⟩, ?_, ?_, ?_⟩
        · intro i m' hm' x hx
          cases i with
          | zero =>
              obtain rfl : m = m' := by simpa using hm'
              exact hhead x hx
          | succ i => exact huses i m' hm' x hx
        · intro n hn x hx
          obtain rfl : m = n := by simpa using hn
          exact hresults x hx
        · intro j n hn x hx
          cases j with
          | zero => exact ⟨m, rfl, hfirst n hn x hx⟩
          | succ j => exact hlater j n hn x hx
      · rintro ⟨hopen, huses, hfirst, hlater⟩
        refine ⟨hfirst m rfl, fun x hx => ?_, huses 0 m rfl, fun i => huses (i + 1), ?_,
          fun j => hlater (j + 1)⟩
        · obtain ⟨n, hn, hcount⟩ := hopen x hx
          obtain rfl : m = n := by simpa using hn
          exact hcount
        · intro n hn x hx
          obtain ⟨m', hm', hx'⟩ := hlater 0 n hn x hx
          obtain rfl : m = m' := by simpa using hm'
          exact hx'

/-- The provider's contract is the recursive form from no open ids. -/
theorem wellPaired_iff : WellPaired messages ↔ Paired [] messages := by
  rw [paired_iff]
  constructor
  · rintro ⟨answered, answers⟩
    refine ⟨by simp, answered, fun n hn x hx => ?_, fun j n hn x hx => ?_⟩
    · obtain ⟨i, -, hi, -⟩ := answers 0 n hn x hx
      omega
    · obtain ⟨i, m, hi, hm, hx⟩ := answers (j + 1) n hn x hx
      obtain rfl : j = i := by omega
      exact ⟨m, hm, hx⟩
  · rintro ⟨-, answered, hfirst, hlater⟩
    refine ⟨answered, fun j n hn x hx => ?_⟩
    cases j with
    | zero => exact absurd (hfirst n hn x hx) (by simp)
    | succ j =>
        obtain ⟨m, hm, hx⟩ := hlater j n hn x hx
        exact ⟨j, m, rfl, hm, hx⟩

/-- `Placed` read at a position. -/
theorem placed_iff : ∀ {messages : List Message} {open' : List String},
    Placed open' messages ↔
      (∀ n : Message, messages[0]? = some n → ∀ x ∈ n.toolResults, x ∈ open') ∧
      (∀ (j : Nat) (n : Message), messages[j + 1]? = some n → ∀ x ∈ n.toolResults,
        ∃ m : Message, messages[j]? = some m ∧ x ∈ m.toolUses)
  | [], open' => by simp [Placed]
  | m :: rest, open' => by
      rw [placed_cons, placed_iff]
      constructor
      · rintro ⟨hresults, hfirst, hlater⟩
        refine ⟨fun n hn x hx => ?_, fun j n hn x hx => ?_⟩
        · obtain rfl : m = n := by simpa using hn
          exact hresults x hx
        · cases j with
          | zero => exact ⟨m, rfl, hfirst n hn x hx⟩
          | succ j => exact hlater j n hn x hx
      · rintro ⟨hfirst, hlater⟩
        refine ⟨hfirst m rfl, fun n hn x hx => ?_, fun j => hlater (j + 1)⟩
        obtain ⟨m', hm', hx'⟩ := hlater 0 n hn x hx
        obtain rfl : m = m' := by simpa using hm'
        exact hx'

end Recursive

instance instDecidablePaired : ∀ (open' : List String) (messages : List Message),
    Decidable (Paired open' messages)
  | open', [] => inferInstanceAs (Decidable (open' = []))
  | open', m :: rest =>
      have := instDecidablePaired m.toolUses rest
      inferInstanceAs (Decidable ((∀ x ∈ m.toolResults, x ∈ open') ∧
        (∀ x ∈ open', m.toolResults.count x = 1) ∧ Paired m.toolUses rest))

instance (messages : List Message) : Decidable (Separated messages) :=
  decidable_of_iff
    ((∀ m ∈ messages, m.toolUses ≠ [] → m.role = .assistant) ∧
      ∀ m ∈ messages, m.toolResults ≠ [] → m.role = .user)
    ⟨fun h => ⟨h.1, h.2⟩, fun h => ⟨h.uses, h.results⟩⟩

/-! ### Messages without tool blocks -/

theorem inert_user (s : String) : Inert (.user s) := ⟨rfl, rfl⟩

theorem inert_assistant (s : String) : Inert (.assistant s) := ⟨rfl, rfl⟩

theorem inert_system (s : String) : Inert (.system s) := ⟨rfl, rfl⟩

/-- Appending a message without tool blocks keeps the pairing. -/
theorem Paired.append_inert {n : Message} (hn : Inert n) :
    ∀ {messages : List Message} {open' : List String},
      Paired open' messages → Paired open' (messages ++ [n])
  | [], open', h => by
      obtain rfl := h
      simp [hn.1, hn.2]
  | m :: rest, open', h => ⟨h.1, h.2.1, h.2.2.append_inert hn⟩

/-- Putting a message without tool blocks in front keeps the pairing. -/
theorem Paired.cons_inert {n : Message} (hn : Inert n) {messages : List Message}
    (h : Paired [] messages) : Paired [] (n :: messages) := by
  simpa [hn.1, hn.2] using h

/-- `DropsInert messages kept`: `kept` is `messages` without some messages that
have no tool blocks. -/
inductive DropsInert : List Message → List Message → Prop where
  | nil : DropsInert [] []
  | keep (m : Message) {messages kept : List Message} :
      DropsInert messages kept → DropsInert (m :: messages) (m :: kept)
  | drop {m : Message} {messages kept : List Message} :
      Inert m → DropsInert messages kept → DropsInert (m :: messages) kept

/-- It is the library's relation at this condition. -/
theorem dropsInert_iff {messages kept : List Message} :
    DropsInert messages kept ↔ DropsOnly Inert messages kept := by
  constructor
  · intro h
    induction h with
    | nil => exact .nil
    | keep m _ ih => exact .keep m ih
    | drop hm _ ih => exact .drop hm ih
  · intro h
    induction h with
    | nil => exact .nil
    | keep m _ ih => exact .keep m ih
    | drop hm _ ih => exact .drop hm ih

theorem dropsInert_refl (messages : List Message) : DropsInert messages messages :=
  dropsInert_iff.mpr (.refl messages)

theorem dropsInert_filter {p : Message → Bool} {messages : List Message}
    (h : ∀ m ∈ messages, p m = false → Inert m) : DropsInert messages (messages.filter p) :=
  dropsInert_iff.mpr (.filter h)

theorem Paired.dropsInert {messages kept : List Message} (hdrop : DropsInert messages kept) :
    ∀ {open' : List String}, Paired open' messages → Paired open' kept := by
  induction hdrop with
  | nil => exact id
  | keep m _ ih => exact fun h => ⟨h.1, h.2.1, ih h.2.2⟩
  | drop hm _ ih =>
      intro open' h
      obtain rfl := h.open_nil hm.2
      have hrest := h.2.2
      rw [hm.1] at hrest
      exact ih hrest

theorem Placed.dropsInert {messages kept : List Message} (hdrop : DropsInert messages kept) :
    ∀ {open' : List String}, Placed open' messages → Placed open' kept := by
  induction hdrop with
  | nil => exact id
  | keep m _ ih => exact fun h => ⟨h.1, ih h.2⟩
  | drop hm _ ih =>
      intro open' h
      have hrest := h.2
      rw [hm.1] at hrest
      exact (ih hrest).mono (by simp)

theorem DropsInert.mem {messages kept : List Message} (hdrop : DropsInert messages kept) :
    ∀ m ∈ kept, m ∈ messages :=
  fun _ hm => (dropsInert_iff.mp hdrop).sublist.subset hm

/-- Dropping such messages loses no ToolUse. -/
theorem DropsInert.flatMap_toolUses {messages kept : List Message}
    (hdrop : DropsInert messages kept) :
    kept.flatMap Message.toolUses = messages.flatMap Message.toolUses :=
  (dropsInert_iff.mp hdrop).flatMap_eq fun _ hm => hm.1

theorem DropsInert.flatMap_toolResults {messages kept : List Message}
    (hdrop : DropsInert messages kept) :
    kept.flatMap Message.toolResults = messages.flatMap Message.toolResults :=
  (dropsInert_iff.mp hdrop).flatMap_eq fun _ hm => hm.2

theorem Separated.of_mem {messages kept : List Message} (h : Separated messages)
    (hmem : ∀ m ∈ kept, m ∈ messages) : Separated kept :=
  ⟨fun m hm => h.uses m (hmem m hm), fun m hm => h.results m (hmem m hm)⟩

theorem Separated.dropsInert {messages kept : List Message} (h : Separated messages)
    (hdrop : DropsInert messages kept) : Separated kept :=
  h.of_mem hdrop.mem

theorem Separated.cons {m : Message} {rest : List Message} (h : Separated (m :: rest)) :
    Separated rest :=
  h.of_mem fun _ hn => List.mem_cons_of_mem _ hn

/-- A message never holds both kinds of tool block. -/
theorem Separated.results_nil {messages : List Message} (h : Separated messages) {m : Message}
    (hm : m ∈ messages) (hrole : m.role ≠ .user) : m.toolResults = [] := by
  by_contra hne
  exact hrole (h.results m hm hne)

theorem Separated.uses_nil {messages : List Message} (h : Separated messages) {m : Message}
    (hm : m ∈ messages) (hrole : m.role ≠ .assistant) : m.toolUses = [] := by
  by_contra hne
  exact hrole (h.uses m hm hne)

theorem Separated.append {front back : List Message} (h : Separated front)
    (h' : Separated back) : Separated (front ++ back) := by
  constructor <;> intro m hm hne <;> rcases List.mem_append.mp hm with hm | hm
  · exact h.uses m hm hne
  · exact h'.uses m hm hne
  · exact h.results m hm hne
  · exact h'.results m hm hne

theorem separated_of_inert {added : List Message} (h : ∀ m ∈ added, Inert m) :
    Separated added :=
  ⟨fun m hm hne => absurd (h m hm).1 hne, fun m hm hne => absurd (h m hm).2 hne⟩

theorem flatMap_toolUses_of_inert {added : List Message} (h : ∀ m ∈ added, Inert m) :
    added.flatMap Message.toolUses = [] :=
  List.flatMap_eq_nil_iff.mpr fun m hm => (h m hm).1

theorem Paired.append {back : List Message} (hback : Paired [] back) :
    ∀ {front : List Message} {open' : List String},
      Paired open' front → Paired open' (front ++ back)
  | [], _, h => by
      obtain rfl := h
      exact hback
  | _ :: _, _, h => ⟨h.1, h.2.1, Paired.append hback h.2.2⟩

theorem paired_of_inert : ∀ {added : List Message}, (∀ m ∈ added, Inert m) → Paired [] added
  | [], _ => rfl
  | m :: _, h =>
      Paired.cons_inert (h m List.mem_cons_self)
        (paired_of_inert fun n hn => h n (List.mem_cons_of_mem _ hn))

theorem DropsInert.reverse {messages kept : List Message} (h : DropsInert messages kept) :
    DropsInert messages.reverse kept.reverse :=
  dropsInert_iff.mpr (dropsInert_iff.mp h).reverse

/-! ### Edits of the content of messages -/

/-- The same role and the same tool blocks. -/
def SameTools (m m' : Message) : Prop :=
  m'.role = m.role ∧ m'.toolUses = m.toolUses ∧ m'.toolResults = m.toolResults

theorem SameTools.refl (m : Message) : SameTools m m := ⟨rfl, rfl, rfl⟩

theorem Separated.sameTools {messages edited : List Message}
    (h : List.Forall₂ SameTools messages edited) (hsep : Separated messages) :
    Separated edited := by
  constructor <;> intro n hn hne
  · obtain ⟨i, hi, rfl⟩ := List.getElem_of_mem hn
    have hlen := h.length_eq
    obtain ⟨hrole, huses, -⟩ := h.get (hlen ▸ hi) hi
    simp only [List.get_eq_getElem] at hrole huses
    rw [hrole]
    exact hsep.uses _ (List.getElem_mem _) (huses ▸ hne)
  · obtain ⟨i, hi, rfl⟩ := List.getElem_of_mem hn
    have hlen := h.length_eq
    obtain ⟨hrole, -, hresults⟩ := h.get (hlen ▸ hi) hi
    simp only [List.get_eq_getElem] at hrole hresults
    rw [hrole]
    exact hsep.results _ (List.getElem_mem _) (hresults ▸ hne)

theorem flatMap_toolUses_sameTools {messages edited : List Message}
    (h : List.Forall₂ SameTools messages edited) :
    edited.flatMap Message.toolUses = messages.flatMap Message.toolUses := by
  induction h with
  | nil => rfl
  | cons hm _ ih => rw [List.flatMap_cons, List.flatMap_cons, hm.2.1, ih]

theorem Paired.sameTools {messages edited : List Message}
    (h : List.Forall₂ SameTools messages edited) :
    ∀ {open' : List String}, Paired open' messages → Paired open' edited := by
  induction h with
  | nil => exact fun hp => hp
  | cons hm _ ih =>
      intro open' hp
      rw [paired_cons, hm.2.1, hm.2.2]
      exact ⟨hp.1, hp.2.1, ih hp.2.2⟩

/-! ### Edits that keep the calls -/

/-- The edit keeps ToolUse and ToolResult blocks where they belong and adds no ToolUse. -/
def KeepsCalls (before after : List Message) : Prop :=
  Separated before → (before.flatMap Message.toolUses).Nodup →
    Separated after ∧
      (after.flatMap Message.toolUses).Sublist (before.flatMap Message.toolUses)

theorem KeepsCalls.refl (messages : List Message) : KeepsCalls messages messages :=
  fun h _ => ⟨h, List.Sublist.refl _⟩

theorem KeepsCalls.trans {ms ms' ms'' : List Message} (h : KeepsCalls ms ms')
    (h' : KeepsCalls ms' ms'') : KeepsCalls ms ms'' := by
  intro hsep hnodup
  obtain ⟨hsep', hsub⟩ := h hsep hnodup
  obtain ⟨hsep'', hsub'⟩ := h' hsep' (hsub.nodup hnodup)
  exact ⟨hsep'', hsub'.trans hsub⟩

theorem keepsCalls_of_sublist {ms ms' : List Message} (h : ms'.Sublist ms) :
    KeepsCalls ms ms' :=
  fun hsep _ => ⟨hsep.of_mem fun _ hm => h.subset hm, h.flatMap _⟩

theorem keepsCalls_of_sameTools {ms ms' : List Message} (h : List.Forall₂ SameTools ms ms') :
    KeepsCalls ms ms' :=
  fun hsep _ => ⟨hsep.sameTools h, flatMap_toolUses_sameTools h ▸ List.Sublist.refl _⟩

theorem keepsCalls_append_inert (messages : List Message) {added : List Message}
    (h : ∀ m ∈ added, Inert m) : KeepsCalls messages (messages ++ added) := by
  intro hsep _
  refine ⟨hsep.append (separated_of_inert h), ?_⟩
  rw [List.flatMap_append, flatMap_toolUses_of_inert h, List.append_nil]

theorem keepsCalls_cons_inert (messages : List Message) {m : Message} (h : Inert m) :
    KeepsCalls messages (m :: messages) := by
  intro hsep _
  refine ⟨(separated_of_inert (by simpa using h) : Separated [m]).append hsep, ?_⟩
  rw [List.flatMap_cons, h.1, List.nil_append]

end ArmaraOS.Session
