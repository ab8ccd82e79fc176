import ArmaraOS.Lib.Drops
import ArmaraOS.Session.Heartbeat

/-!
Tool calls under heartbeat pruning.

`prune_heartbeat_turns` removes a reply of no content and, whatever it holds, the User message
right before it. Where that message holds the results of the Assistant message before it, the
calls stay in the history and their results do not (`Stranded`). Every other call keeps its
results, since of two messages that stand next to each other the second is removed only so.
-/

namespace ArmaraOS.Session

open ArmaraOS.Lib

/-- Every ToolUse of an Assistant message is answered in the User message right behind it. -/
def AnsweredByUser (messages : List Message) : Prop :=
  ∀ (i : Nat) (m : Message), messages[i]? = some m → m.role = .assistant → ∀ x ∈ m.toolUses,
    ∃ n : Message, messages[i + 1]? = some n ∧ n.role = .user ∧ x ∈ n.toolResults

/-- Every ToolUse of an Assistant message is answered in the message right behind it. -/
def AnsweredNext (messages : List Message) : Prop :=
  ∀ (i : Nat) (m : Message), messages[i]? = some m → m.role = .assistant → ∀ x ∈ m.toolUses,
    ∃ n : Message, messages[i + 1]? = some n ∧ x ∈ n.toolResults

section Pruning

variable (messages : List Message) (keepRecent : Nat)

/-- `prune_end`. -/
def pruneEnd : Nat := messages.length - keepRecent

/-- The message with its position stays. -/
def staysAt (p : Message × Nat) : Bool :=
  !isPruned messages (pruneEnd messages keepRecent) p.2

/-- The messages that stay, with their positions. -/
def keptMessages : List (Message × Nat) :=
  messages.zipIdx.filter (staysAt messages keepRecent)

/-- The first message that stays, from position `j` on. -/
def firstKeptFrom (j : Nat) : Option Message :=
  ((messages.zipIdx.drop j).find? (staysAt messages keepRecent)).map Prod.fst

/-- The position of a reply of no content before the end of the pruning. -/
def HeartbeatAt (i : Nat) : Prop :=
  i < pruneEnd messages keepRecent ∧ ∃ m, messages[i]? = some m ∧ isNoReply m = true

/-- An Assistant message with calls two places before a heartbeat: its results are pruned. -/
def Stranded (i : Nat) (m : Message) : Prop :=
  messages[i]? = some m ∧ m.role = .assistant ∧ m.toolUses ≠ [] ∧
    HeartbeatAt messages keepRecent (i + 2)

end Pruning

variable {messages : List Message} {keepRecent : Nat}

/-! ### What is pruned -/

/-- A reply of no content is an Assistant message that calls no tool. -/
theorem role_of_isNoReply {m : Message} (h : isNoReply m = true) : m.role = .assistant :=
  of_decide_eq_true (Bool.and_eq_true_iff.mp h).1

theorem toolUses_of_isNoReply {m : Message} (h : isNoReply m = true) : m.toolUses = [] := by
  have hcontent := (Bool.and_eq_true_iff.mp h).2
  obtain ⟨role, content | bs, ctx⟩ := m
  · rfl
  · cases bs with
    | nil => rfl
    | cons b bs =>
        cases bs with
        | nil => cases b <;> first | rfl | exact absurd hcontent Bool.false_ne_true
        | cons _ _ => cases b <;> exact absurd hcontent Bool.false_ne_true

theorem isPruned_iff {i : Nat} {m : Message} (hm : messages[i]? = some m) :
    isPruned messages (pruneEnd messages keepRecent) i = true ↔
      HeartbeatAt messages keepRecent i ∨
        (HeartbeatAt messages keepRecent (i + 1) ∧ m.role = .user) := by
  have hheartbeat : ∀ j, HeartbeatAt messages keepRecent j ↔
      j < pruneEnd messages keepRecent ∧ (messages[j]?.map isNoReply).getD false = true := by
    intro j
    unfold HeartbeatAt
    cases messages[j]? <;> simp
  simp [isPruned, hheartbeat, hm, and_assoc]

/-- An Assistant message with calls stays. -/
theorem kept_of_toolUses {i : Nat} {m : Message} (hm : messages[i]? = some m)
    (hrole : m.role = .assistant) (huses : m.toolUses ≠ []) :
    isPruned messages (pruneEnd messages keepRecent) i = false := by
  rw [Bool.eq_false_iff]
  intro hpruned
  rcases (isPruned_iff hm).mp hpruned with ⟨-, m', hm', hreply⟩ | ⟨-, huser⟩
  · obtain rfl := Option.some.inj (hm.symm.trans hm')
    exact huses (toolUses_of_isNoReply hreply)
  · rw [hrole] at huser
    cases huser

/-- A User message is removed exactly by a heartbeat right behind it. -/
theorem isPruned_user {i : Nat} {n : Message} (hn : messages[i]? = some n)
    (hrole : n.role = .user) :
    isPruned messages (pruneEnd messages keepRecent) i = true ↔
      HeartbeatAt messages keepRecent (i + 1) := by
  rw [isPruned_iff hn]
  constructor
  · rintro (⟨-, n', hn', hreply⟩ | ⟨hnext, -⟩)
    · obtain rfl := Option.some.inj (hn.symm.trans hn')
      rw [role_of_isNoReply hreply] at hrole
      cases hrole
    · exact hnext
  · exact fun hnext => .inr ⟨hnext, hrole⟩

theorem firstKeptFrom_of_kept {i : Nat} {n : Message} (hn : messages[i]? = some n)
    (hkept : isPruned messages (pruneEnd messages keepRecent) i = false) :
    firstKeptFrom messages keepRecent i = some n := by
  obtain ⟨hi, rfl⟩ := List.getElem?_eq_some_iff.mp hn
  have hi' : i < messages.zipIdx.length := by simpa using hi
  simp [firstKeptFrom, staysAt, List.drop_eq_getElem_cons hi', hkept]

theorem firstKeptFrom_of_pruned {i : Nat} {n : Message} (hn : messages[i]? = some n)
    (hpruned : isPruned messages (pruneEnd messages keepRecent) i = true) :
    firstKeptFrom messages keepRecent i = firstKeptFrom messages keepRecent (i + 1) := by
  obtain ⟨hi, rfl⟩ := List.getElem?_eq_some_iff.mp hn
  have hi' : i < messages.zipIdx.length := by simpa using hi
  rw [firstKeptFrom, List.drop_eq_getElem_cons hi',
    List.find?_cons_of_neg (by simp [staysAt, hpruned]), firstKeptFrom]

/-! ### The pruned history -/

theorem pruneHeartbeatTurns_eq (messages : List Message) (keepRecent : Nat) :
    pruneHeartbeatTurns messages keepRecent =
      (keptMessages messages keepRecent).map Prod.fst := by
  unfold pruneHeartbeatTurns
  split
  · rename_i hall
    have hend : pruneEnd messages keepRecent = 0 := Nat.sub_eq_zero_of_le hall
    have hkeep : keptMessages messages keepRecent = messages.zipIdx := by
      rw [keptMessages]
      exact List.filter_eq_self.mpr fun p _ => by simp [staysAt, isPruned, hend]
    rw [hkeep, List.zipIdx_map_fst]
  · rfl

theorem getElem?_of_keptMessages {i : Nat} {m : Message}
    (h : (pruneHeartbeatTurns messages keepRecent)[i]? = some m) :
    ∃ j, messages[j]? = some m ∧
      isPruned messages (pruneEnd messages keepRecent) j = false ∧
      (pruneHeartbeatTurns messages keepRecent)[i + 1]? =
        firstKeptFrom messages keepRecent (j + 1) := by
  rw [pruneHeartbeatTurns_eq, List.getElem?_map, Option.map_eq_some_iff] at h
  obtain ⟨⟨m', j⟩, hkept, rfl⟩ := h
  obtain ⟨j', hj', hkeep, hnext⟩ := exists_of_getElem?_filter hkept
  rw [List.getElem?_zipIdx, Option.map_eq_some_iff] at hj'
  obtain ⟨m'', hm, heq⟩ := hj'
  obtain ⟨rfl, rfl⟩ := Prod.mk.inj heq
  rw [Nat.zero_add] at *
  refine ⟨j', hm, by simpa [staysAt] using hkeep, ?_⟩
  rw [pruneHeartbeatTurns_eq, List.getElem?_map, keptMessages, hnext, firstKeptFrom]

theorem exists_getElem?_keptMessages {j : Nat} {m : Message} (hm : messages[j]? = some m)
    (hkept : isPruned messages (pruneEnd messages keepRecent) j = false) :
    ∃ i, (pruneHeartbeatTurns messages keepRecent)[i]? = some m ∧
      (pruneHeartbeatTurns messages keepRecent)[i + 1]? =
        firstKeptFrom messages keepRecent (j + 1) := by
  have hj : messages.zipIdx[j]? = some (m, j) := by simp [List.getElem?_zipIdx, hm]
  have hkeep : staysAt messages keepRecent (m, j) = true := by simp [staysAt, hkept]
  obtain ⟨i, hi, hnext⟩ := exists_getElem?_filter hj hkeep
  refine ⟨i, ?_, ?_⟩
  · rw [pruneHeartbeatTurns_eq, List.getElem?_map, keptMessages, hi, Option.map_some]
  · rw [pruneHeartbeatTurns_eq, List.getElem?_map, keptMessages, hnext, firstKeptFrom]

/-- The last `keepRecent` messages stay at the end. -/
theorem suffix_pruneHeartbeatTurns (messages : List Message) (keepRecent : Nat) :
    messages.drop (pruneEnd messages keepRecent) <:+ pruneHeartbeatTurns messages keepRecent := by
  rw [pruneHeartbeatTurns_eq, keptMessages]
  set e := pruneEnd messages keepRecent with he
  have hrecent : (messages.zipIdx.drop e).filter (staysAt messages keepRecent) =
      messages.zipIdx.drop e := by
    refine List.filter_eq_self.mpr ?_
    rintro ⟨m, i⟩ hmem
    rw [List.mem_drop_iff_getElem] at hmem
    obtain ⟨k, hk, heq⟩ := hmem
    have hi : e + k = i := by simpa using congrArg Prod.snd heq
    have hout : ¬ i < e ∧ ¬ i + 1 < e := by omega
    simp [staysAt, isPruned, ← he, hout.1, hout.2]
  have hdrop : (messages.zipIdx.drop e).map Prod.fst = messages.drop e := by
    rw [List.map_drop, List.zipIdx_map_fst]
  rw [← List.take_append_drop e messages.zipIdx, List.filter_append, hrecent, List.map_append,
    hdrop]
  exact List.suffix_append _ _

/-! ### Calls and results -/

/-- The result message of a stranded call is removed with the heartbeat. -/
theorem firstKeptFrom_of_stranded (h : AnsweredByUser messages) {i : Nat} {m : Message}
    (hm : Stranded messages keepRecent i m) :
    firstKeptFrom messages keepRecent (i + 1) = firstKeptFrom messages keepRecent (i + 3) := by
  obtain ⟨hi, hrole, huses, hheartbeat⟩ := hm
  obtain ⟨x, hx⟩ := List.exists_mem_of_ne_nil _ huses
  obtain ⟨n, hn, huser, -⟩ := h i m hi hrole x hx
  obtain ⟨reply, hreply, -⟩ := hheartbeat.2
  rw [firstKeptFrom_of_pruned hn ((isPruned_user hn huser).mpr hheartbeat),
    firstKeptFrom_of_pruned hreply ((isPruned_iff hreply).mpr (.inl hheartbeat))]

/-- For every history whose calls are answered: pruning leaves every call answered, and the recent
messages at the end, exactly when no call is stranded by a heartbeat, unless the first message that
stays behind the heartbeat holds results for the same ids. -/
theorem heartbeat_keeps_calls_iff (h : AnsweredByUser messages) :
    (AnsweredNext (pruneHeartbeatTurns messages keepRecent) ∧
      messages.drop (messages.length - keepRecent) <:+ pruneHeartbeatTurns messages keepRecent) ↔
    ∀ i m, Stranded messages keepRecent i m →
      ∃ n, firstKeptFrom messages keepRecent (i + 3) = some n ∧
        ∀ x ∈ m.toolUses, x ∈ n.toolResults := by
  refine (and_iff_left (suffix_pruneHeartbeatTurns messages keepRecent)).trans ?_
  constructor
  · intro hanswered i m hm
    have hnext := firstKeptFrom_of_stranded h hm
    obtain ⟨hi, hrole, huses, -⟩ := hm
    obtain ⟨k, hk, hbehind⟩ :=
      exists_getElem?_keptMessages hi (kept_of_toolUses hi hrole huses)
    rw [hnext] at hbehind
    obtain ⟨x, hx⟩ := List.exists_mem_of_ne_nil _ huses
    obtain ⟨n, hn, -⟩ := hanswered k m hk hrole x hx
    refine ⟨n, hbehind.symm.trans hn, fun y hy => ?_⟩
    obtain ⟨n', hn', hresult⟩ := hanswered k m hk hrole y hy
    obtain rfl := Option.some.inj (hn.symm.trans hn')
    exact hresult
  · intro hstranded k m hk hrole x hx
    obtain ⟨i, hi, -, hbehind⟩ := getElem?_of_keptMessages hk
    rw [hbehind]
    obtain ⟨n, hn, huser, hresult⟩ := h i m hi hrole x hx
    by_cases hheartbeat : HeartbeatAt messages keepRecent (i + 2)
    · have hm : Stranded messages keepRecent i m := ⟨hi, hrole, List.ne_nil_of_mem hx, hheartbeat⟩
      obtain ⟨n', hn', hall⟩ := hstranded i m hm
      exact ⟨n', (firstKeptFrom_of_stranded h hm).trans hn', hall x hx⟩
    · have hkept : isPruned messages (pruneEnd messages keepRecent) (i + 1) = false := by
        rw [Bool.eq_false_iff, ne_eq, isPruned_user hn huser]
        exact hheartbeat
      exact ⟨n, firstKeptFrom_of_kept hn hkept, hresult⟩

/-! ### A heartbeat behind a call -/

/-- A call with its result, a reply of no content, and the next question. -/
def quietCall : List Message :=
  [{ role := .assistant, content := .blocks [.toolUse "call_1" "file_read" .null none] },
    .userWithBlocks [.toolResult "call_1" "file_read" "one" false],
    .assistant "NO_REPLY",
    .user "and then?"]

theorem quietCall_answered : AnsweredByUser quietCall := by
  intro i m hm hrole x hx
  match i with
  | 0 =>
      obtain rfl := Option.some.inj hm
      obtain rfl : x = "call_1" := List.mem_singleton.mp hx
      exact ⟨_, rfl, rfl, List.mem_singleton_self _⟩
  | 1 | 2 | 3 =>
      obtain rfl := Option.some.inj hm
      exact absurd hx List.not_mem_nil
  | i + 4 => cases hm

theorem heartbeat_keeps_calls_iff_quietCall :
    (AnsweredNext (pruneHeartbeatTurns quietCall 1) ∧
      quietCall.drop (quietCall.length - 1) <:+ pruneHeartbeatTurns quietCall 1) ↔
    ∀ i m, Stranded quietCall 1 i m →
      ∃ n, firstKeptFrom quietCall 1 (i + 3) = some n ∧ ∀ x ∈ m.toolUses, x ∈ n.toolResults :=
  heartbeat_keeps_calls_iff quietCall_answered

/-- Of the call and its result the call stays. -/
theorem heartbeat_strands_call : ¬ ∀ messages keepRecent, AnsweredByUser messages →
    AnsweredNext (pruneHeartbeatTurns messages keepRecent) ∧
      messages.drop (messages.length - keepRecent) <:+
        pruneHeartbeatTurns messages keepRecent := by
  intro h
  have hpruned : pruneHeartbeatTurns quietCall 1 =
      [{ role := .assistant, content := .blocks [.toolUse "call_1" "file_read" .null none] },
        .user "and then?"] := by
    decide
  have hanswered := (h quietCall 1 quietCall_answered).1
  rw [hpruned] at hanswered
  obtain ⟨n, hn, hresult⟩ := hanswered 0 _ rfl rfl "call_1" List.mem_cons_self
  obtain rfl := Option.some.inj hn
  exact absurd hresult List.not_mem_nil

end ArmaraOS.Session
