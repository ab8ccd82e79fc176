import ArmaraOS.Agent.OverflowRecovery
import ArmaraOS.Agent.Runs
import ArmaraOS.Agent.Script
import ArmaraOS.Session.RepairPairing

/-!
The tool calls in the requests of a turn.

Every edit of the working messages keeps tool blocks where they belong and ids distinct
(`KeepsCalls`), but two steps can break the pairing: a redirect removes an Assistant message and
leaves the results of its calls, and a round drops a repeated call whose ToolUse it keeps. The
messages are repaired only when the overflow recovery acts. `RequestSafe` says of a state before an
iteration that neither happened since the last repair; in a turn whose iterations all start safe,
every request is well paired (`requests_wellPaired`).
-/

namespace ArmaraOS.Agent

open ArmaraOS.Session

variable {σ : Type}

/-! ### Redirects -/

theorem pruneAssistants_sublist : ∀ (budget : Nat) (messages : List Message),
    (pruneAssistants budget messages).Sublist messages
  | 0, messages => by
      rw [pruneAssistants]
  | _ + 1, [] => List.Sublist.refl _
  | budget + 1, m :: rest => by
      unfold pruneAssistants
      split
      · exact (pruneAssistants_sublist budget rest).cons m
      · exact (pruneAssistants_sublist (budget + 1) rest).cons_cons m

theorem pruneForRedirect_sublist (messages : List Message) :
    (pruneForRedirect messages).Sublist messages := by
  have h := (pruneAssistants_sublist 8 messages.reverse).reverse
  rwa [List.reverse_reverse] at h

theorem length_flatMap_reverse {α β : Type} (f : α → List β) (xs : List α) :
    (xs.reverse.flatMap f).length = (xs.flatMap f).length := by
  simp [List.length_flatMap, List.map_reverse, List.sum_reverse]

/-- If the walk loses no ToolUse, all it drops are messages without tool blocks. -/
theorem dropsInert_pruneAssistants : ∀ (budget : Nat) {messages : List Message},
    Separated messages →
    ((pruneAssistants budget messages).flatMap Message.toolUses).length =
      (messages.flatMap Message.toolUses).length →
    DropsInert messages (pruneAssistants budget messages)
  | 0, messages, _, _ => by
      rw [pruneAssistants]
      exact dropsInert_refl messages
  | _ + 1, [], _, _ => .nil
  | budget + 1, m :: rest, hsep, hlen => by
      unfold pruneAssistants at hlen ⊢
      split at hlen
      · rename_i hrole
        rw [if_pos hrole]
        have hle := ((pruneAssistants_sublist budget rest).flatMap Message.toolUses).length_le
        rw [List.flatMap_cons, List.length_append] at hlen
        have huses : m.toolUses = [] := List.length_eq_zero_iff.mp (by omega)
        have hresults : m.toolResults = [] :=
          hsep.results_nil List.mem_cons_self (by simp [hrole])
        exact .drop ⟨huses, hresults⟩ (dropsInert_pruneAssistants budget hsep.cons (by omega))
      · rename_i hrole
        rw [if_neg hrole]
        simp only [List.flatMap_cons, List.length_append] at hlen
        exact .keep m (dropsInert_pruneAssistants (budget + 1) hsep.cons (by omega))

theorem dropsInert_pruneForRedirect {messages : List Message} (hsep : Separated messages)
    (h : (pruneForRedirect messages).flatMap Message.toolUses =
      messages.flatMap Message.toolUses) :
    DropsInert messages (pruneForRedirect messages) := by
  have hsep' : Separated messages.reverse := hsep.of_mem fun m hm => List.mem_reverse.mp hm
  have hlen := congrArg List.length h
  rw [pruneForRedirect, length_flatMap_reverse, ← length_flatMap_reverse _ messages] at hlen
  simpa [pruneForRedirect] using (dropsInert_pruneAssistants 8 hsep' hlen).reverse

/-- A redirect that arrives removes no ToolUse from the messages. -/
def RedirectHarmless (redirect : Option String) (messages : List Message) : Prop :=
  redirect.isSome → (pruneForRedirect messages).flatMap Message.toolUses =
    messages.flatMap Message.toolUses

theorem keepsCalls_redirected (redirect : Option String) (messages : List Message) :
    KeepsCalls messages (redirected redirect messages) := by
  cases redirect with
  | none => exact .refl messages
  | some text =>
      exact (keepsCalls_of_sublist (pruneForRedirect_sublist messages)).trans
        (keepsCalls_append_inert _ (by simp [redirectMessage, inert_system]))

theorem paired_redirected {redirect : Option String} {messages : List Message}
    (hsep : Separated messages) (h : RedirectHarmless redirect messages)
    (hpaired : Paired [] messages) : Paired [] (redirected redirect messages) := by
  cases redirect with
  | none => exact hpaired
  | some text =>
      have hdrop := dropsInert_pruneForRedirect hsep (h rfl)
      exact (hpaired.dropsInert hdrop).append_inert (inert_system _)

/-! ### Overflow recovery and the context guard -/

theorem forall₂_map_sameTools {f : Message → Message} (h : ∀ m, SameTools m (f m)) :
    ∀ messages : List Message, List.Forall₂ SameTools messages (messages.map f)
  | [] => .nil
  | m :: rest => .cons (h m) (forall₂_map_sameTools h rest)

theorem keepsCalls_truncateOversized (lib : Library) (messages : List Message)
    (systemPrompt : String) (tools : List ToolDefinition) (threshold90 : Nat) :
    KeepsCalls messages
      (truncateOversized lib messages systemPrompt tools threshold90).1 := by
  have h := keepsCalls_of_sameTools
    (forall₂_map_sameTools (sameTools_editResults isOversized overflowTruncate) messages)
  unfold truncateOversized
  dsimp only
  split <;> exact h

theorem keepsCalls_compactOverflow (lib : Library) (messages : List Message)
    (systemPrompt : String) (tools : List ToolDefinition) (threshold90 : Nat) :
    KeepsCalls messages
      (compactOverflow lib messages systemPrompt tools threshold90).1 := by
  have hcompact : ∀ n, KeepsCalls messages (overflowSummary n :: messages.drop n) := fun n =>
    (keepsCalls_of_sublist (List.drop_sublist n messages)).trans
      (keepsCalls_cons_inert _ (inert_user _))
  unfold compactOverflow
  dsimp only
  split
  · split
    · exact hcompact _
    · exact (hcompact _).trans (keepsCalls_truncateOversized lib _ systemPrompt tools _)
  · exact keepsCalls_truncateOversized lib messages systemPrompt tools _

theorem keepsCalls_recoverFromOverflow (lib : Library) (messages : List Message)
    (systemPrompt : String) (tools : List ToolDefinition) (contextWindow : Nat) :
    KeepsCalls messages
      (recoverFromOverflow lib messages systemPrompt tools contextWindow).1 := by
  have hdrop : ∀ n, KeepsCalls messages (messages.drop n) := fun n =>
    keepsCalls_of_sublist (List.drop_sublist n messages)
  unfold recoverFromOverflow
  dsimp only
  split
  · exact .refl messages
  · split
    · split
      · split
        · exact hdrop _
        · exact (hdrop _).trans (keepsCalls_compactOverflow lib _ systemPrompt tools _)
      · exact keepsCalls_compactOverflow lib messages systemPrompt tools _
    · exact keepsCalls_compactOverflow lib messages systemPrompt tools _

/-- When the recovery does nothing, it leaves the messages as they are. -/
theorem recoverFromOverflow_none {lib : Library} {messages : List Message}
    {systemPrompt : String} {tools : List ToolDefinition} {contextWindow : Nat}
    (h : (recoverFromOverflow lib messages systemPrompt tools contextWindow).2 = .none) :
    (recoverFromOverflow lib messages systemPrompt tools contextWindow).1 = messages := by
  have htrunc : ∀ ms threshold,
      (truncateOversized lib ms systemPrompt tools threshold).2 ≠ .none := by
    intro ms threshold
    unfold truncateOversized
    dsimp only
    split <;> simp
  have hcompact : ∀ ms threshold,
      (compactOverflow lib ms systemPrompt tools threshold).2 ≠ .none := by
    intro ms threshold
    unfold compactOverflow
    dsimp only
    split
    · split
      · simp
      · exact htrunc _ _
    · exact htrunc _ _
  unfold recoverFromOverflow at h ⊢
  dsimp only at h ⊢
  split at h
  · rename_i hfits
    rw [if_pos hfits]
  · split at h
    · split at h
      · split at h
        · cases h
        · exact absurd h (hcompact _ _)
      · exact absurd h (hcompact _ _)
    · exact absurd h (hcompact _ _)

theorem sameTools_capSingle (singleMax : Nat) (b : ContentBlock) :
    (capSingle singleMax b).useId? = b.useId? ∧ (capSingle singleMax b).resultId? = b.resultId? :=
  editResult_ids _ _ b

theorem compactBlocks_ids (headroom singleMax : Nat) :
    ∀ (total : Nat) (bs : List ContentBlock),
      toolUseIds (compactBlocks headroom singleMax total bs).1 = toolUseIds bs ∧
        toolResultIds (compactBlocks headroom singleMax total bs).1 = toolResultIds bs
  | _, [] => ⟨rfl, rfl⟩
  | total, b :: rest => by
      obtain ⟨huse, hresult⟩ := sameTools_capSingle singleMax b
      rw [toolUseIds_cons, toolResultIds_cons, ← huse, ← hresult]
      unfold compactBlocks
      split
      · rename_i id name content isError hcap
        rw [hcap]
        dsimp only
        split
        · obtain ⟨huses, hresults⟩ := compactBlocks_ids headroom singleMax total rest
          rw [toolUseIds_cons, toolResultIds_cons, huses, hresults]
          exact ⟨rfl, rfl⟩
        · obtain ⟨huses, hresults⟩ := compactBlocks_ids headroom singleMax
            (total - content.utf8ByteSize + (truncateTo 2000 content).utf8ByteSize) rest
          rw [toolUseIds_cons, toolResultIds_cons, huses, hresults]
          exact ⟨rfl, rfl⟩
      · obtain ⟨huses, hresults⟩ := compactBlocks_ids headroom singleMax total rest
        dsimp only
        rw [toolUseIds_cons, toolResultIds_cons, huses, hresults]
        exact ⟨rfl, rfl⟩

theorem sameTools_compactMessages (headroom singleMax : Nat) :
    ∀ (total : Nat) (messages : List Message),
      List.Forall₂ SameTools messages (compactMessages headroom singleMax total messages)
  | _, [] => .nil
  | total, m :: rest => by
      obtain ⟨role, content | bs, ctx⟩ := m
      · exact .cons (SameTools.refl _) (sameTools_compactMessages headroom singleMax total rest)
      · have hids := compactBlocks_ids headroom singleMax total bs
        exact .cons ⟨rfl, hids.1, hids.2⟩ (sameTools_compactMessages headroom singleMax _ rest)

/-- The context guard edits contents only. -/
theorem sameTools_applyContextGuard (messages : List Message) (contextWindow : Nat) :
    List.Forall₂ SameTools messages (applyContextGuard messages contextWindow) := by
  unfold applyContextGuard
  split
  · exact List.forall₂_same.mpr fun m _ => SameTools.refl m
  · exact sameTools_compactMessages _ _ _ messages

/-! ### Before the request -/

/-- The working messages after `/btw` and `/redirect`. -/
def steered (W : World σ) (st : LoopState σ) : LoopState σ := applyRedirect W (injectBtw W st)

/-- The overflow recovery acts in an iteration, so that the messages are repaired. -/
def Recovers (W : World σ) (cfg : TurnConfig) (st : LoopState σ) : Prop :=
  (overflowRecovery cfg (steered W st)).2 ≠ .none

theorem messages_steered (W : World σ) (st : LoopState σ) :
    (steered W st).messages = redirected (redirectOf W (injectBtw W st))
      (st.messages ++ btwMessages W st) :=
  congrArg Core.messages (applyRedirect_core W (injectBtw W st))

theorem messages_prepareRequest (W : World σ) (cfg : TurnConfig) (st : LoopState σ) :
    (prepareRequest W cfg st).messages =
      applyContextGuard (recoverOverflow cfg (steered W st)).messages cfg.ctxWindow := rfl

theorem inert_btwMessages (W : World σ) (st : LoopState σ) :
    ∀ m ∈ btwMessages W st, Inert m := by
  simp [btwMessages, inert_user]

theorem keepsCalls_steered (W : World σ) (st : LoopState σ) :
    KeepsCalls st.messages (steered W st).messages := by
  rw [messages_steered]
  exact (keepsCalls_append_inert _ (inert_btwMessages W st)).trans (keepsCalls_redirected _ _)

theorem keepsCalls_overflowRecovery (cfg : TurnConfig) (st : LoopState σ) :
    KeepsCalls st.messages (overflowRecovery cfg st).1 :=
  keepsCalls_recoverFromOverflow cfg.lib st.messages st.systemPrompt cfg.tools cfg.ctxWindow

theorem keepsCalls_recovered (cfg : TurnConfig) (st : LoopState σ) :
    KeepsCalls st.messages (recoverOverflow cfg st).messages := by
  have h := keepsCalls_overflowRecovery cfg st
  unfold recoverOverflow
  dsimp only
  split
  · exact h
  · exact h.trans (keepsCalls_validateAndRepair _)

theorem keepsCalls_prepareRequest (W : World σ) (cfg : TurnConfig) (st : LoopState σ) :
    KeepsCalls st.messages (prepareRequest W cfg st).messages := by
  rw [messages_prepareRequest]
  exact ((keepsCalls_steered W st).trans (keepsCalls_recovered cfg (steered W st))).trans
    (keepsCalls_of_sameTools (sameTools_applyContextGuard _ _))

theorem paired_steered {W : World σ} {st : LoopState σ} (hsep : Separated st.messages)
    (hnodup : (st.messages.flatMap Message.toolUses).Nodup) (hpaired : Paired [] st.messages)
    (hharmless :
      RedirectHarmless (redirectOf W (injectBtw W st)) (st.messages ++ btwMessages W st)) :
    Paired [] (steered W st).messages := by
  have hbtw := Paired.append (paired_of_inert (inert_btwMessages W st)) hpaired
  have hsepbtw := (keepsCalls_append_inert _ (inert_btwMessages W st) hsep hnodup).1
  rw [messages_steered]
  exact paired_redirected hsepbtw hharmless hbtw

theorem paired_recovered {cfg : TurnConfig} {st : LoopState σ} (hsep : Separated st.messages)
    (hnodup : (st.messages.flatMap Message.toolUses).Nodup)
    (h : (overflowRecovery cfg st).2 ≠ .none ∨ Paired [] st.messages) :
    Paired [] (recoverOverflow cfg st).messages := by
  have hkeeps := keepsCalls_overflowRecovery cfg st hsep hnodup
  have hnone : (overflowRecovery cfg st).2 = .none → (overflowRecovery cfg st).1 = st.messages :=
    recoverFromOverflow_none
  unfold recoverOverflow
  generalize overflowRecovery cfg st = recovery at hkeeps hnone h ⊢
  obtain ⟨recovered, stage⟩ := recovery
  obtain ⟨hsep', hsub⟩ := hkeeps
  dsimp only at hnone h ⊢
  split
  · rename_i hacts
    rw [hnone hacts]
    exact h.resolve_left (not_not_intro hacts)
  · exact paired_validateAndRepair hsep' (hsub.nodup hnodup)

/-- The request is paired when the recovery acts, or when the messages were paired and the
redirect removed no ToolUse. -/
theorem paired_prepareRequest {W : World σ} {cfg : TurnConfig} {st : LoopState σ}
    (hsep : Separated st.messages) (hnodup : (st.messages.flatMap Message.toolUses).Nodup)
    (h : Recovers W cfg st ∨ Paired [] st.messages ∧
      RedirectHarmless (redirectOf W (injectBtw W st)) (st.messages ++ btwMessages W st)) :
    Paired [] (prepareRequest W cfg st).messages := by
  obtain ⟨hsep', hsub⟩ := keepsCalls_steered W st hsep hnodup
  have hrec : Paired [] (recoverOverflow cfg (steered W st)).messages :=
    paired_recovered hsep' (hsub.nodup hnodup)
      (h.imp_right fun hp => paired_steered hsep hnodup hp.1 hp.2)
  have hguard := sameTools_applyContextGuard (recoverOverflow cfg (steered W st)).messages
    cfg.ctxWindow
  rw [messages_prepareRequest]
  generalize (recoverOverflow cfg (steered W st)).messages = recovered at hrec hguard ⊢
  generalize applyContextGuard recovered cfg.ctxWindow = guarded at hguard ⊢
  exact hrec.sameTools hguard

/-! ### The tool round -/

/-- The call that a ToolUse block asks for. -/
def ContentBlock.call? : ContentBlock → Option ToolCall
  | .toolUse id name input _ => some ⟨id, name, input⟩
  | _ => none

/-- The calls of a response are the ToolUse blocks of its content, which holds no
ToolResult. -/
structure Coherent (r : CompletionResponse) : Prop where
  calls : r.toolCalls = r.content.filterMap ContentBlock.call?
  noResults : toolResultIds r.content = []

theorem map_id_filterMap_call (bs : List ContentBlock) :
    (bs.filterMap ContentBlock.call?).map ToolCall.id = toolUseIds bs := by
  rw [toolUseIds, List.map_filterMap]
  congr 1
  funext b
  cases b <;> rfl

/-- The results of a round answer its calls, in order. -/
theorem toolResultIds_round {cfg : TurnConfig} {validated : Option String}
    {calls : List ToolCall} {dispatches : List ToolDispatch}
    (hdecided : List.Forall₂ (Decided cfg validated) calls dispatches) :
    ∀ {parts : List (ContentBlock × List Event)},
      List.Forall₂ (fun d p => Merged cfg d p.1 p.2) dispatches parts →
        toolResultIds (parts.map Prod.fst) = calls.map ToolCall.id ∧
          toolUseIds (parts.map Prod.fst) = [] := by
  induction hdecided with
  | nil =>
      intro parts hmerged
      cases hmerged
      exact ⟨rfl, rfl⟩
  | cons hdecided _ ih =>
      intro parts hmerged
      cases hmerged with
      | @cons _ part _ _ hpart hrest =>
          obtain ⟨block, events⟩ := part
          obtain ⟨hresults, huses⟩ := ih hrest
          rw [List.map_cons, toolResultIds_cons, toolUseIds_cons, hresults, huses]
          rcases hdecided with ⟨message, rfl⟩ | ⟨verdict, rfl, _⟩
          · cases hpart
            exact ⟨rfl, rfl⟩
          · cases hpart <;> exact ⟨rfl, rfl⟩

theorem toolResultIds_notes (notes : List String) :
    toolResultIds (notes.map fun s => ContentBlock.text s none) = [] := by
  simp [toolResultIds, ContentBlock.resultId?]

theorem toolUseIds_notes (notes : List String) :
    toolUseIds (notes.map fun s => ContentBlock.text s none) = [] := by
  simp [toolUseIds, ContentBlock.useId?]

/-- A round that runs every call of a coherent response with distinct ids is paired. -/
theorem paired_round {response : CompletionResponse} (hcoherent : Coherent response)
    (hnodup : (toolUseIds response.content).Nodup) {blocks : List ContentBlock}
    (hresults : toolResultIds blocks = response.toolCalls.map ToolCall.id)
    (huses : toolUseIds blocks = []) (notes : List String) :
    Paired [] [toolUseMessage response, resultsMessage blocks notes] := by
  have hids : (resultsMessage blocks notes).toolResults = toolUseIds response.content := by
    show toolResultIds (blocks ++ _) = _
    rw [toolResultIds_append, toolResultIds_notes, List.append_nil, hresults, hcoherent.calls,
      map_id_filterMap_call]
  have hopen : (toolUseMessage response).toolUses = toolUseIds response.content := rfl
  have hnone : (toolUseMessage response).toolResults = [] := hcoherent.noResults
  have hlast : (resultsMessage blocks notes).toolUses = [] := by
    show toolUseIds (blocks ++ _) = _
    rw [toolUseIds_append, toolUseIds_notes, List.append_nil, huses]
  simp only [paired_cons, paired_nil, hids, hopen, hnone, hlast]
  exact ⟨by simp, by simp, fun x hx => hx,
    fun x hx => List.count_eq_one_of_mem hnodup hx, trivial⟩

/-! ### Runs -/

/-- The responses in a log, in order. -/
def responses (log : List Event) : List CompletionResponse :=
  log.filterMap fun
    | .response r => some r
    | _ => none

/-- The calls of the last response in the log were all kept, if they were to be run. -/
def RoundComplete (cfg : TurnConfig) (log : List Event) : Prop :=
  ∀ r ∈ (responses log).getLast?, r.stopReason = .toolUse →
    deduplicateToolCalls cfg.lib r.toolCalls = r.toolCalls

/-- An iteration starts safe: the overflow recovery will repair the messages, or the last
round kept all its calls and no redirect removes a ToolUse. -/
def RequestSafe (W : World σ) (cfg : TurnConfig) (st : LoopState σ) : Prop :=
  Recovers W cfg st ∨ RoundComplete cfg st.log ∧
    RedirectHarmless (redirectOf W (injectBtw W st)) (st.messages ++ btwMessages W st)

/-- The ids of the ToolUse blocks of the responses in a log. -/
def responseIds (log : List Event) : List String :=
  (responses log).flatMap fun r => toolUseIds r.content

/-- What the model is taken to send: coherent responses, with ToolUse ids that are distinct
and new to the session. -/
structure LawfulResponses (session : List Message) (log : List Event) : Prop where
  coherent : ∀ r ∈ responses log, Coherent r
  distinct : (session.flatMap Message.toolUses ++ responseIds log).Nodup

theorem responses_append (log log' : List Event) :
    responses (log ++ log') = responses log ++ responses log' := List.filterMap_append

theorem responses_response (log : List Event) (response : CompletionResponse) :
    responses (log ++ [.response response]) = responses log ++ [response] := by
  rw [responses_append]
  rfl

theorem LawfulResponses.of_longer {session : List Message} {log log' : List Event}
    (hpre : log <+: log') (h : LawfulResponses session log') : LawfulResponses session log := by
  obtain ⟨rest, rfl⟩ := hpre
  refine ⟨fun r hr => h.coherent r ?_, ?_⟩
  · rw [responses_append]
    exact List.mem_append_left _ hr
  · have hdistinct := h.distinct
    rw [responseIds, responses_append, List.flatMap_append, ← List.append_assoc] at hdistinct
    exact (List.nodup_append.mp hdistinct).1

/-- The events that are neither requests nor responses say nothing about the conversation. -/
theorem responses_of_quiet {events : List Event}
    (h : ∀ e ∈ events, ∀ r, e ≠ .response r) : responses events = [] := by
  refine List.filterMap_eq_nil_iff.mpr fun e he => ?_
  cases e with
  | response r => exact absurd rfl (h _ he r)
  | _ => rfl

/-- The messages of the requests in a log are well paired. -/
def RequestsPaired (log : List Event) : Prop :=
  ∀ driver req, Event.request driver req ∈ log → Paired [] req.messages

theorem RequestsPaired.append {log log' : List Event} (h : RequestsPaired log)
    (h' : RequestsPaired log') : RequestsPaired (log ++ log') := by
  intro driver req hreq
  rcases List.mem_append.mp hreq with hreq | hreq
  · exact h driver req hreq
  · exact h' driver req hreq

theorem RequestsPaired.of_only {messages : List Message} {events : List Event}
    (hpaired : Paired [] messages) (h : OnlyRequests messages events) :
    RequestsPaired events := by
  intro driver req hreq
  obtain ⟨driver', req', heq, hmessages⟩ := h _ hreq
  obtain ⟨-, rfl⟩ := Event.request.inj heq
  exact hmessages ▸ hpaired

theorem requestsPaired_of_tools {events : List Event}
    (h : ∀ e ∈ events, e.isTool = true) : RequestsPaired events :=
  fun driver req hreq => by
    have := h _ hreq
    simp [Event.isTool] at this

/-- Tool blocks of `messages` are where they belong, and the ToolUse ids are distinct and
come from the session or from a logged response. -/
structure Ordered (session : List Message) (log : List Event) (messages : List Message) :
    Prop where
  separated : Separated messages
  distinct : (messages.flatMap Message.toolUses).Nodup
  known : ∀ x ∈ messages.flatMap Message.toolUses,
    x ∈ session.flatMap Message.toolUses ∨ x ∈ responseIds log

theorem Ordered.keeps {session messages messages' : List Message} {log log' : List Event}
    (hkeeps : KeepsCalls messages messages') (hpre : log <+: log')
    (h : Ordered session log messages) : Ordered session log' messages' := by
  obtain ⟨hsep, hsub⟩ := hkeeps h.separated h.distinct
  refine ⟨hsep, hsub.nodup h.distinct, fun x hx => (h.known x (hsub.subset hx)).imp_right ?_⟩
  intro hx
  obtain ⟨rest, rfl⟩ := hpre
  rw [responseIds, responses_append, List.flatMap_append]
  exact List.mem_append_left _ hx

/-- The blocks of a round that runs on a lawful response. -/
theorem Ordered.round {session messages : List Message} {log : List Event}
    {response : CompletionResponse} (h : Ordered session log messages)
    (hlawful : LawfulResponses session (log ++ [.response response])) {blocks : List ContentBlock}
    (huses : toolUseIds blocks = []) (notes : List String) :
    Ordered session (log ++ [.response response])
      (messages ++ [toolUseMessage response, resultsMessage blocks notes]) := by
  have hids : responseIds (log ++ [.response response]) =
      responseIds log ++ toolUseIds response.content := by
    simp [responseIds, responses]
  have hcoherent : Coherent response :=
    hlawful.coherent response (by simp [responses])
  have hdistinct := hlawful.distinct
  rw [hids, ← List.append_assoc, List.nodup_append] at hdistinct
  obtain ⟨-, hnodup, hfresh⟩ := hdistinct
  have hlast : (resultsMessage blocks notes).toolUses = [] := by
    show toolUseIds (blocks ++ _) = _
    rw [toolUseIds_append, toolUseIds_notes, List.append_nil, huses]
  have hflat : (messages ++ [toolUseMessage response, resultsMessage blocks notes]).flatMap
      Message.toolUses = messages.flatMap Message.toolUses ++ toolUseIds response.content := by
    simp only [List.flatMap_append, List.flatMap_cons, List.flatMap_nil, List.append_nil, hlast]
    rfl
  refine ⟨h.separated.append ⟨?_, ?_⟩, ?_, ?_⟩
  · intro m hm hne
    rcases List.mem_pair.mp hm with rfl | rfl
    · rfl
    · exact absurd hlast hne
  · intro m hm hne
    rcases List.mem_pair.mp hm with rfl | rfl
    · exact absurd hcoherent.noResults hne
    · rfl
  · rw [hflat, List.nodup_append]
    refine ⟨h.distinct, hnodup, fun x hx y hy hxy => hfresh x ?_ y hy hxy⟩
    exact List.mem_append.mpr (h.known x hx)
  · intro x hx
    rw [hflat] at hx
    rw [hids, List.mem_append]
    rcases List.mem_append.mp hx with hx | hx
    · exact (h.known x hx).imp_right .inl
    · exact .inr (.inr hx)

/-- The working messages of a turn before an iteration. -/
structure TurnInvariant (cfg : TurnConfig) (session : List Message) (st : LoopState σ) :
    Prop where
  ordered : Ordered session st.log st.messages
  paired : RoundComplete cfg st.log → Paired [] st.messages
  requests : RequestsPaired st.log

theorem isTool_merged {cfg : TurnConfig} {dispatches : List ToolDispatch}
    {parts : List (ContentBlock × List Event)}
    (h : List.Forall₂ (fun d p => Merged cfg d p.1 p.2) dispatches parts) :
    ∀ e ∈ parts.flatMap Prod.snd, e.isTool = true := by
  induction h with
  | nil => simp
  | @cons _ part _ _ hpart _ ih =>
      intro e he
      rw [List.flatMap_cons] at he
      rcases List.mem_append.mp he with he | he
      · obtain ⟨block, events⟩ := part
        cases hpart <;> simp_all [Event.isTool]
      · exact ih e he

theorem isTool_startEvents (cfg : TurnConfig) (calls : List ToolCall) :
    ∀ e ∈ startEvents cfg calls, e.isTool = true := by
  intro e he
  obtain ⟨inv, -, rfl⟩ := List.mem_map.mp he
  rfl

theorem responses_of_tools {events : List Event} (h : ∀ e ∈ events, e.isTool = true) :
    responses events = [] :=
  responses_of_quiet fun e he r heq => by
    have := h e he
    simp [heq, Event.isTool] at this

theorem responses_roundLog {cfg : TurnConfig} {dispatches : List ToolDispatch}
    {parts : List (ContentBlock × List Event)}
    (h : List.Forall₂ (fun d p => Merged cfg d p.1 p.2) dispatches parts) (log : List Event) :
    responses (roundLog cfg log dispatches parts) = responses log := by
  rw [roundLog, responses_append, responses_append,
    responses_of_tools (isTool_startEvents cfg _), responses_of_tools (isTool_merged h)]
  simp

theorem requestsPaired_roundLog {cfg : TurnConfig} {dispatches : List ToolDispatch}
    {parts : List (ContentBlock × List Event)}
    (h : List.Forall₂ (fun d p => Merged cfg d p.1 p.2) dispatches parts) {log : List Event}
    (hlog : RequestsPaired log) : RequestsPaired (roundLog cfg log dispatches parts) :=
  (hlog.append (requestsPaired_of_tools (isTool_startEvents cfg _))).append
    (requestsPaired_of_tools (isTool_merged h))

theorem requestsPaired_response {log : List Event} (h : RequestsPaired log)
    (response : CompletionResponse) : RequestsPaired (log ++ [.response response]) :=
  h.append fun driver req hreq => by simp at hreq

theorem roundLog_grows (cfg : TurnConfig) (log : List Event) (dispatches : List ToolDispatch)
    (parts : List (ContentBlock × List Event)) : log <+: roundLog cfg log dispatches parts := by
  rw [roundLog, List.append_assoc]
  exact List.prefix_append _ _

/-- The step keeps the requests in the log paired, and a next iteration starts from the
invariant. -/
def StepsWell (cfg : TurnConfig) (session : List Message) (step : Step σ) : Prop :=
  RequestsPaired step.state.log ∧ ∀ st', step = .next st' → TurnInvariant cfg session st'

theorem stepsWell_done {cfg : TurnConfig} {session : List Message}
    {result : Except LoopError AgentLoopResult} {st : LoopState σ} (h : RequestsPaired st.log) :
    StepsWell cfg session (.done result st) :=
  ⟨h, fun _ hst' => nomatch hst'⟩

theorem stepsWell_next {cfg : TurnConfig} {session : List Message} {st : LoopState σ}
    (h : TurnInvariant cfg session st) : StepsWell cfg session (.next st) :=
  ⟨h.requests, fun _ hst' => Step.next.inj hst' ▸ h⟩

theorem endTurn_stepsWell {cfg : TurnConfig} {session : List Message} {st : LoopState σ}
    {step : Step σ} (hordered : Ordered session st.log st.messages)
    (hpaired : Paired [] st.messages) (hrequests : RequestsPaired st.log)
    (h : EndTurnCases st.core step) : StepsWell cfg session step := by
  rcases h with ⟨_, st', rfl, _, base, added, hbase, hadded, hcore⟩ |
    ⟨_, st', rfl, ⟨_, _, _, _, hcore⟩, _⟩
  · have hlog : st'.log = st.log := congrArg Core.log hcore
    have hmessages : st'.messages = base ++ added := congrArg Core.messages hcore
    have hbase' : KeepsCalls st.messages base ∧ Paired [] base := by
      rcases hbase with rfl | rfl
      · exact ⟨.refl _, hpaired⟩
      · exact ⟨keepsCalls_validateAndRepair _,
          paired_validateAndRepair hordered.separated hordered.distinct⟩
    apply stepsWell_next
    refine ⟨?_, fun _ => ?_, hlog ▸ hrequests⟩
    · rw [hlog, hmessages]
      exact hordered.keeps (hbase'.1.trans (keepsCalls_append_inert _ hadded)) List.prefix_rfl
    · rw [hmessages]
      exact Paired.append (paired_of_inert hadded) hbase'.2
  · have hlog : st'.log = st.log := congrArg Core.log hcore
    exact stepsWell_done (hlog ▸ hrequests)

theorem toolRound_stepsWell {W : World σ} {cfg : TurnConfig} {session : List Message}
    {iteration : Nat} {response : CompletionResponse} {st : LoopState σ} {log : List Event}
    (hlog : st.log = log ++ [.response response]) (hstop : response.stopReason = .toolUse)
    (hordered : Ordered session log st.messages) (hpaired : Paired [] st.messages)
    (hrequests : RequestsPaired st.log) (hlawful : LawfulResponses session st.log) :
    StepsWell cfg session (toolRound W cfg iteration response st) := by
  rcases toolRound_cases W cfg iteration response st with
    ⟨_, st', hstep, hcore⟩ | ⟨dispatches, parts, _, hdecided, hmerged, hcases⟩
  · have hlog' : st'.log = st.log := congrArg Core.log hcore
    rw [hstep]
    exact stepsWell_done (hlog' ▸ hrequests)
  have hround := requestsPaired_roundLog hmerged hrequests
  rcases hcases with ⟨_, st', hstep, _, hcore⟩ | ⟨notes, added, st', hstep, hadded, hcore⟩
  · have hlog' : st'.log = roundLog cfg st.log dispatches parts := congrArg Core.log hcore
    rw [hstep]
    exact stepsWell_done (hlog' ▸ hround)
  have hlog' : st'.log = roundLog cfg st.log dispatches parts := congrArg Core.log hcore
  have hmessages : st'.messages = st.messages ++ [toolUseMessage response,
      resultsMessage (parts.map Prod.fst) notes] ++ added := by
    have h : st'.messages = st.messages ++ [toolUseMessage response] ++
        resultsMessage (parts.map Prod.fst) notes :: added := congrArg Core.messages hcore
    rw [h]
    simp
  obtain ⟨hresults, huses⟩ := toolResultIds_round hdecided hmerged
  have hcoherent : Coherent response := hlawful.coherent response (by simp [hlog, responses])
  rw [hstep]
  apply stepsWell_next
  refine ⟨?_, fun hcomplete => ?_, hlog' ▸ hround⟩
  · have hord := hordered.round (hlog ▸ hlawful) huses notes
    rw [hmessages, hlog']
    exact hord.keeps (keepsCalls_append_inert _ hadded)
      (hlog ▸ roundLog_grows cfg st.log dispatches parts)
  · -- The last response in the log is the one of this round.
    have hlast : response ∈ (responses st'.log).getLast? := by
      rw [hlog', responses_roundLog hmerged, hlog, responses_response, List.getLast?_concat]
      rfl
    have hkept := hcomplete response hlast hstop
    rw [hkept] at hresults
    have hnodup : (toolUseIds response.content).Nodup := by
      have hdistinct := (List.nodup_append.mp hlawful.distinct).2.1
      rw [hlog, responseIds, responses_append, List.flatMap_append] at hdistinct
      simpa [responses] using (List.nodup_append.mp hdistinct).2.1
    rw [hmessages]
    exact Paired.append (paired_of_inert hadded)
      (Paired.append (paired_round hcoherent hnodup hresults huses notes) hpaired)

/-- What a response does to a turn whose working messages are ordered and paired. -/
theorem handleResponse_stepsWell {W : World σ} {cfg : TurnConfig} {session : List Message}
    {iteration : Nat} {response : CompletionResponse} {st : LoopState σ}
    (hordered : Ordered session st.log st.messages) (hpaired : Paired [] st.messages)
    (hrequests : RequestsPaired st.log)
    (hlawful : LawfulResponses session (st.log ++ [.response response])) :
    StepsWell cfg session (handleResponse W cfg iteration response st) := by
  rw [handleResponse_logged]
  have hlog : (st.logged response).log = st.log ++ [.response response] := rfl
  have hmessages : (st.logged response).messages = st.messages := rfl
  generalize st.logged response = st₁ at hlog hmessages ⊢
  have hrequests₁ : RequestsPaired st₁.log := hlog ▸ requestsPaired_response hrequests response
  have hordered₁ : Ordered session st₁.log st₁.messages := by
    rw [hlog, hmessages]
    exact hordered.keeps (KeepsCalls.refl _) (List.prefix_append _ _)
  have hend : StepsWell cfg session (endTurn W cfg iteration response st₁) :=
    endTurn_stepsWell hordered₁ (hmessages ▸ hpaired) hrequests₁
    (endTurn_cases W cfg iteration response st₁)
  cases hstop : response.stopReason with
  | endTurn => exact hend
  | stopSequence => exact hend
  | toolUse =>
      exact toolRound_stepsWell hlog hstop (hmessages ▸ hordered) (hmessages ▸ hpaired) hrequests₁
        (hlog ▸ hlawful)
  | maxTokens =>
      dsimp only
      rcases continueTokens_cases W cfg iteration response st₁ with
        ⟨st', hnext, hcore'⟩ | ⟨_, st', hdone, ⟨_, _, _, _, hcore'⟩, _⟩
      · have hlog' : st'.log = st₁.log := congrArg Core.log hcore'
        have hmessages' : st'.messages =
            st₁.messages ++ [.assistant response.text, .user "Please continue."] :=
          congrArg Core.messages hcore'
        have hinert : ∀ m ∈ [Message.assistant response.text, .user "Please continue."],
            Inert m := by
          simp [inert_user, inert_assistant]
        rw [hnext]
        apply stepsWell_next
        refine ⟨?_, fun _ => ?_, hlog' ▸ hrequests₁⟩
        · rw [hlog', hmessages']
          exact hordered₁.keeps (keepsCalls_append_inert _ hinert) List.prefix_rfl
        · rw [hmessages', hmessages]
          exact Paired.append (paired_of_inert hinert) hpaired
      · have hlog' : st'.log = st₁.log := congrArg Core.log hcore'
        rw [hdone]
        exact stepsWell_done (hlog' ▸ hrequests₁)

/-- **The step lemma.** An iteration that starts from the invariant, and safe, keeps it. -/
theorem iterate_stepsWell {W : World σ} {cfg : TurnConfig} {session : List Message}
    {iteration : Nat} {st : LoopState σ} (hinv : TurnInvariant cfg session st)
    (hsafe : RequestSafe W cfg st)
    (hlawful : LawfulResponses session (iterate W cfg iteration st).state.log) :
    StepsWell cfg session (iterate W cfg iteration st) := by
  have hkeeps := keepsCalls_prepareRequest W cfg st
  have hpaired : Paired [] (prepareRequest W cfg st).messages :=
    paired_prepareRequest hinv.ordered.separated hinv.ordered.distinct
      (hsafe.imp_right fun h => ⟨hinv.paired h.1, h.2⟩)
  have htools := isTool_planned W cfg iteration (prepareRequest W cfg st)
  rcases iterate_cases W cfg iteration st with
    ⟨_, st', _, hstep, _, hcore⟩ | ⟨requests, ready, asked, _, hready, honly, hasked, h⟩
  · have hlog : st'.log = st.log ++ planned W cfg iteration (prepareRequest W cfg st) :=
      congrArg Core.log hcore
    rw [hstep]
    apply stepsWell_done
    rw [hlog]
    exact hinv.requests.append (requestsPaired_of_tools htools)
  · have hreadyLog : ready.log = st.log ++ planned W cfg iteration (prepareRequest W cfg st) :=
      congrArg Core.log hready
    have hlog : asked.log =
        st.log ++ planned W cfg iteration (prepareRequest W cfg st) ++ requests := by
      rw [← hreadyLog]
      exact congrArg Core.log hasked
    have hsame : asked.messages = ready.messages := congrArg Core.messages hasked
    have hmessages : asked.messages = (prepareRequest W cfg st).messages :=
      hsame.trans (congrArg Core.messages hready)
    have hrequests : RequestsPaired asked.log := by
      rw [hlog]
      exact (hinv.requests.append (requestsPaired_of_tools htools)).append
        (.of_only hpaired honly)
    have hordered : Ordered session asked.log asked.messages := by
      rw [hlog, hmessages, List.append_assoc]
      exact hinv.ordered.keeps hkeeps (List.prefix_append _ _)
    rcases h with ⟨e, hstep⟩ | ⟨response, _, hstep⟩
    · rw [hstep]
      exact stepsWell_done hrequests
    · rw [hstep] at hlawful ⊢
      exact handleResponse_stepsWell hordered (hmessages ▸ hpaired) hrequests
        (hlawful.of_longer (handleResponse_log W cfg iteration response asked))

/-! ### The start of a turn and the whole run -/

theorem keepsCalls_insertCanonicalContext (cfg : TurnConfig) (messages : List Message) :
    KeepsCalls messages (insertCanonicalContext cfg messages) := by
  unfold insertCanonicalContext
  split
  · split
    · exact .refl messages
    · exact keepsCalls_cons_inert messages (inert_user _)
  · exact .refl messages

theorem paired_insertCanonicalContext {cfg : TurnConfig} {messages : List Message}
    (h : Paired [] messages) : Paired [] (insertCanonicalContext cfg messages) := by
  unfold insertCanonicalContext
  split
  · split
    · exact h
    · exact h.cons_inert (inert_user _)
  · exact h

theorem keepsCalls_trimHistory (cfg : TurnConfig) (messages : List Message) :
    KeepsCalls messages (trimHistory cfg messages) := by
  unfold trimHistory
  split
  · exact (keepsCalls_of_sublist (List.drop_sublist _ messages)).trans
      (keepsCalls_validateAndRepair _)
  · exact .refl messages

theorem paired_trimHistory {cfg : TurnConfig} {messages : List Message}
    (hsep : Separated messages) (hnodup : (messages.flatMap Message.toolUses).Nodup)
    (h : Paired [] messages) : Paired [] (trimHistory cfg messages) := by
  unfold trimHistory
  split
  · obtain ⟨hsep', hsub⟩ :=
      keepsCalls_of_sublist (List.drop_sublist _ messages) hsep hnodup
    exact paired_validateAndRepair hsep' (hsub.nodup hnodup)
  · exact h

/-- A stored session: ToolUse blocks only in Assistant messages, with distinct ids, and
ToolResult blocks only in User messages. -/
structure StoredSession (session : List Message) : Prop where
  separated : Separated session
  distinct : (session.flatMap Message.toolUses).Nodup

/-- What a turn may assume: a stored session, a user message without ToolUse blocks, and a
context compiler that does not rewrite the prompt. -/
structure TurnInputs (cfg : TurnConfig) (session : List Message) : Prop where
  stored : StoredSession session
  userMessage : (turnUserMessage cfg).toolUses = []
  composeOff : ∀ systemPrompt messages,
    cfg.rules.compose systemPrompt messages = (systemPrompt, messages)

theorem role_turnUserMessage (cfg : TurnConfig) : (turnUserMessage cfg).role = .user := by
  unfold turnUserMessage
  split <;> rfl

theorem openingMessages_spec {cfg : TurnConfig} {session : List Message}
    (h : TurnInputs cfg session) :
    Ordered session [] (openingMessages cfg session) ∧
      Paired [] (openingMessages cfg session) := by
  have hsep : Separated (session ++ [turnUserMessage cfg]) := by
    refine h.stored.separated.append ⟨fun m hm hne => ?_, fun m hm _ => ?_⟩
    · obtain rfl := List.mem_singleton.mp hm
      exact absurd h.userMessage hne
    · obtain rfl := List.mem_singleton.mp hm
      exact role_turnUserMessage cfg
  have hids : (session ++ [turnUserMessage cfg]).flatMap Message.toolUses =
      session.flatMap Message.toolUses := by
    simp [h.userMessage]
  have hnodup : ((session ++ [turnUserMessage cfg]).flatMap Message.toolUses).Nodup :=
    hids ▸ h.stored.distinct
  have hfilter := keepsCalls_of_sublist
    (List.filter_sublist (p := fun m => m.role != .system) (l := session ++ [turnUserMessage cfg]))
  unfold openingMessages
  generalize (session ++ [turnUserMessage cfg]).filter (fun m => m.role != .system) = kept
    at hfilter ⊢
  obtain ⟨hsep₁, hsub₁⟩ := hfilter hsep hnodup
  have hnodup₁ := hsub₁.nodup hnodup
  have hkeeps := (keepsCalls_validateAndRepair kept).trans
    (keepsCalls_insertCanonicalContext cfg (validateAndRepair kept))
  have hpaired : Paired [] (insertCanonicalContext cfg (validateAndRepair kept)) :=
    paired_insertCanonicalContext
    (paired_validateAndRepair hsep₁ hnodup₁)
  obtain ⟨hsep₂, hsub₂⟩ := hkeeps hsep₁ hnodup₁
  have hnodup₂ := hsub₂.nodup hnodup₁
  obtain ⟨hsep₃, hsub₃⟩ := keepsCalls_trimHistory cfg _ hsep₂ hnodup₂
  refine ⟨⟨hsep₃, hsub₃.nodup hnodup₂, fun x hx => .inl ?_⟩,
    paired_trimHistory hsep₂ hnodup₂ hpaired⟩
  exact hids ▸ hsub₁.subset (hsub₂.subset (hsub₃.subset hx))

theorem startTurn_invariant {cfg : TurnConfig} {session : List Message}
    (h : TurnInputs cfg session) (world : σ) :
    TurnInvariant cfg session (startTurn cfg session world) := by
  have hmessages : (startTurn cfg session world).messages = openingMessages cfg session := by
    simp [startTurn, h.composeOff]
  obtain ⟨hordered, hpaired⟩ := openingMessages_spec h
  exact ⟨hmessages ▸ hordered, fun _ => hmessages ▸ hpaired, fun _ _ hreq => nomatch hreq⟩

section Turn

variable {W : World σ} {cfg : TurnConfig} {session : List Message} {world : σ}

/-- **The run lemma.** In a turn whose iterations start safe, every state before an
iteration meets the invariant. -/
theorem Reaches.turnInvariant (hin : TurnInputs cfg session)
    (hlawful : LawfulResponses session (runAgentLoop W cfg session world).2.log)
    (hsafe : ∀ iteration st, Reaches W cfg session world iteration st →
      iteration < cfg.maxIterations → RequestSafe W cfg st)
    {iteration : Nat} {st : LoopState σ} (h : Reaches W cfg session world iteration st) :
    TurnInvariant cfg session st := by
  induction h with
  | start => exact startTurn_invariant hin world
  | @next iteration st st' hreach hlt hstep ih =>
      have hlog := (hreach.next hlt hstep).log_grows
      have hlawful' : LawfulResponses session (iterate W cfg iteration st).state.log := by
        rw [hstep]
        exact hlawful.of_longer hlog
      exact (iterate_stepsWell ih (hsafe iteration st hreach hlt) hlawful').2 st' hstep

/-- Every request of a turn carries paired tool calls, when each iteration starts safe: the
overflow recovery repairs the messages, or the last round kept all its calls and no redirect
removes a ToolUse. -/
theorem requests_wellPaired (hin : TurnInputs cfg session)
    (hlawful : LawfulResponses session (runAgentLoop W cfg session world).2.log)
    (hsafe : ∀ iteration st, Reaches W cfg session world iteration st →
      iteration < cfg.maxIterations → RequestSafe W cfg st) :
    ∀ driver req, Event.request driver req ∈ (runAgentLoop W cfg session world).2.log →
      WellPaired req.messages := by
  suffices h : RequestsPaired (runAgentLoop W cfg session world).2.log from
    fun driver req hreq => wellPaired_iff.mpr (h driver req hreq)
  refine runAgentLoop_rule (Q := fun _ st => RequestsPaired st.log) ?_ ?_
  · intro iteration st result st' hreach hlt hstep
    have hinv := hreach.turnInvariant hin hlawful hsafe
    have hlawful' : LawfulResponses session (iterate W cfg iteration st).state.log := by
      rw [hreach.done hlt hstep] at hlawful
      rw [hstep]
      exact hlawful
    have h := (iterate_stepsWell hinv (hsafe iteration st hreach hlt) hlawful').1
    rw [hstep] at h
    exact h
  · intro st hreach
    exact (hreach.turnInvariant hin hlawful hsafe).requests

end Turn

/-! ### Turns that can be computed -/

instance (r : CompletionResponse) : Decidable (Coherent r) :=
  decidable_of_iff
    (r.toolCalls = r.content.filterMap ContentBlock.call? ∧ toolResultIds r.content = [])
    ⟨fun h => ⟨h.1, h.2⟩, fun h => ⟨h.calls, h.noResults⟩⟩

instance (session : List Message) (log : List Event) :
    Decidable (LawfulResponses session log) :=
  decidable_of_iff
    ((∀ r ∈ responses log, Coherent r) ∧
      (session.flatMap Message.toolUses ++ responseIds log).Nodup)
    ⟨fun h => ⟨h.1, h.2⟩, fun h => ⟨h.coherent, h.distinct⟩⟩

instance (redirect : Option String) (messages : List Message) :
    Decidable (RedirectHarmless redirect messages) :=
  inferInstanceAs (Decidable (_ → _))

instance (cfg : TurnConfig) (log : List Event) : Decidable (RoundComplete cfg log) :=
  inferInstanceAs (Decidable (∀ r ∈ (responses log).getLast?, _))

instance (W : World σ) (cfg : TurnConfig) (st : LoopState σ) :
    Decidable (RequestSafe W cfg st) :=
  inferInstanceAs (Decidable ((overflowRecovery cfg (steered W st)).2 ≠ .none ∨ _ ∧ _))

/-- The messages of the requests in a log. -/
def requestMessages (log : List Event) : List (List Message) :=
  log.filterMap fun
    | .request _ req => some req.messages
    | _ => none

theorem exists_unpaired_request {session : List Message} {log : List Event}
    (h : LawfulResponses session log ∧ ∃ messages ∈ requestMessages log, ¬Paired [] messages) :
    LawfulResponses session log ∧
      ∃ driver req, Event.request driver req ∈ log ∧ ¬WellPaired req.messages := by
  obtain ⟨hlawful, messages, hmem, hunpaired⟩ := h
  obtain ⟨e, he, heq⟩ := List.mem_filterMap.mp hmem
  cases e with
  | request driver req =>
      obtain rfl := Option.some.inj heq
      exact ⟨hlawful, driver, req, he, fun hw => hunpaired (wellPaired_iff.mp hw)⟩
  | _ => cases heq

theorem turnInputs_scripted (tools : List String) (text : String) (n : Nat) :
    TurnInputs (scriptedTurn tools text n) [] :=
  ⟨⟨by decide, by decide⟩, rfl, fun _ _ => rfl⟩

/-- A turn that reads a file and answers. -/
theorem requests_wellPaired_one_call :
    let script : Script :=
      { replies :=
          [.ok (callReply [⟨"c1", "file_read", .obj [("path", .str "a.txt")]⟩]),
            .ok (textReply "It says hello.")]
        outcomes := [⟨"hello", false⟩] }
    let turn := runAgentLoop scriptedWorld (scriptedTurn ["file_read"] "Read a.txt" 2) [] script
    ∀ driver req, Event.request driver req ∈ turn.2.log → WellPaired req.messages := by
  apply requests_wellPaired (turnInputs_scripted _ _ _)
  · decide +kernel
  · have h : ∀ iteration < 2, ∀ st ∈ stateBefore scriptedWorld
        (scriptedTurn ["file_read"] "Read a.txt" 2) []
        { replies :=
            [.ok (callReply [⟨"c1", "file_read", .obj [("path", .str "a.txt")]⟩]),
              .ok (textReply "It says hello.")]
          outcomes := [⟨"hello", false⟩] } iteration,
        RequestSafe scriptedWorld (scriptedTurn ["file_read"] "Read a.txt" 2) st := by
      decide +kernel
    exact fun iteration st hreach hlt => h iteration hlt st (reaches_iff.mp hreach)

/-- **Two requests with unpaired calls.** The model asks to read one file twice in a round:
the second call is dropped and its ToolUse is never answered. The user redirects after a
round: the Assistant message goes and the result of its call stays. -/
theorem unpaired_requests :
    (let script : Script :=
      { replies :=
          [.ok (callReply [⟨"c1", "file_read", .obj [("path", .str "a.txt")]⟩,
              ⟨"c2", "file_read", .obj [("path", .str "a.txt")]⟩]),
            .ok (textReply "It says hello.")]
        outcomes := [⟨"hello", false⟩] }
    let cfg := scriptedTurn ["file_read"] "Read a.txt" 2
    let log := (runAgentLoop scriptedWorld cfg [] script).2.log
    TurnInputs cfg [] ∧ LawfulResponses [] log ∧
      ∃ driver req, Event.request driver req ∈ log ∧ ¬WellPaired req.messages) ∧
    (let script : Script :=
      { replies :=
          [.ok (callReply [⟨"c1", "file_read", .obj [("path", .str "a.txt")]⟩]),
            .ok (textReply "Reading b.txt instead.")]
        outcomes := [⟨"hello", false⟩]
        redirects := [none, some "Read b.txt instead"] }
    let cfg := scriptedTurn ["file_read"] "Read a.txt" 2
    let log := (runAgentLoop scriptedWorld cfg [] script).2.log
    TurnInputs cfg [] ∧ LawfulResponses [] log ∧
      ∃ driver req, Event.request driver req ∈ log ∧ ¬WellPaired req.messages) :=
  ⟨⟨turnInputs_scripted _ _ _, exists_unpaired_request (by decide +kernel)⟩,
    ⟨turnInputs_scripted _ _ _, exists_unpaired_request (by decide +kernel)⟩⟩

end ArmaraOS.Agent
