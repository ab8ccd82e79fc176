import ArmaraOS.Lib.Machine
import ArmaraOS.Wire.Peer

/-!
How often `handle_inbound` accepts one credential.

A credential is a nonce, a node id, and the HMAC of the two written one behind the other. The
tracker remembers the nonce, while the HMAC covers the concatenation. Whoever has seen a
credential can move characters from the nonce to the node id or back: the HMAC stays right, and
the nonce becomes a new one.
-/

namespace ArmaraOS.Wire

open ArmaraOS.Lib

/-! ### Deliveries -/

/-- What an honest node signed: the nonce it drew, and its node id. -/
structure Credential where
  nonce : String
  nodeId : String

/-- What is signed. -/
def Credential.data (c : Credential) : String := c.nonce ++ c.nodeId

/-- A first message that reaches `handle_inbound`. -/
structure Delivery where
  env : Surroundings
  msg : WireMessage

/-- A node with the handshakes it has completed, the last one first. -/
structure Answering where
  node : PeerNode
  completed : List Handshake

section Hmac

variable (hmacSha256 : List UInt8 → List UInt8 → List UInt8) (secret : String)

/-- The HMAC of a credential. -/
def Credential.hmac (c : Credential) : String := hmacSign hmacSha256 secret (asBytes c.data)

/-- `handle_inbound` takes a delivery. -/
def answer (s : Answering) (d : Delivery) : Answering :=
  match d.msg.kind, s.node.handleInbound hmacSha256 d.env d.msg with
  | .request (.handshake fields), (node, _, .ok _) => ⟨node, fields :: s.completed⟩
  | _, (node, _, _) => ⟨node, s.completed⟩

/-- Each credential is accepted at most once, and only under the node id it was made for. -/
def OncePerCredential (created : List Credential) (s : Answering) : Prop :=
  ∀ c ∈ created,
    (s.completed.filter fun fields => fields.authHmac == c.hmac hmacSha256 secret).length ≤ 1 ∧
      ∀ fields ∈ s.completed, fields.authHmac = c.hmac hmacSha256 secret →
        fields.nodeId = c.nodeId

instance (created : List Credential) (s : Answering) :
    Decidable (OncePerCredential hmacSha256 secret created s) :=
  inferInstanceAs (Decidable (∀ c ∈ created, _ ∧ ∀ fields ∈ s.completed, _ → _))

/-- Nobody who does not know the secret makes a signature: what is rightly signed was signed by an
honest node. -/
def Unforged (created : List Credential) (d : Delivery) : Prop :=
  ∀ fields, d.msg.kind = .request (.handshake fields) →
    hmacVerify hmacSha256 secret (asBytes (fields.nonce ++ fields.nodeId)) fields.authHmac = true →
      ∃ c ∈ created, c.data = fields.nonce ++ fields.nodeId

/-- A handshake with a new nonce whose nonce and node id, one behind the other, are those of a
credential, names the node of the credential. -/
def KeepsCut (created : List Credential) (s : Answering) (d : Delivery) : Prop :=
  ∀ fields, d.msg.kind = .request (.handshake fields) →
    fields.protocolVersion = protocolVersion →
    s.node.nonceTracker.contains fields.nonce d.env.now = false → d.env.writeError = none →
      ∀ c ∈ created, fields.authHmac = c.hmac hmacSha256 secret →
        c.data = fields.nonce ++ fields.nodeId → fields.nodeId = c.nodeId

end Hmac

/-! ### One delivery -/

section Steps

variable {hmacSha256 : List UInt8 → List UInt8 → List UInt8} {secret : String}

/-- A handshake that is completed was admitted. -/
theorem answer_completed {s : Answering} {d : Delivery} {fields : Handshake}
    (hkind : d.msg.kind = .request (.handshake fields))
    (hadmits : s.node.Admits hmacSha256 d.env.now fields) (hwritten : d.env.writeError = none) :
    answer hmacSha256 s d =
      ⟨(s.node.record fields.nonce d.env.now).register (registered fields d.env),
        fields :: s.completed⟩ := by
  unfold answer
  rw [hkind, PeerNode.handleInbound_admitted hkind hadmits, hwritten]

/-- Any other delivery at most records a nonce. -/
theorem answer_refused {s : Answering} {d : Delivery}
    (h : ∀ fields, d.msg.kind = .request (.handshake fields) →
      s.node.Admits hmacSha256 d.env.now fields → d.env.writeError ≠ none) :
    ∃ node, answer hmacSha256 s d = ⟨node, s.completed⟩ ∧
      (node = s.node ∨ ∃ nonce, node = s.node.record nonce d.env.now) := by
  unfold answer
  by_cases hrefused : ∀ fields, d.msg.kind = .request (.handshake fields) →
      ¬ s.node.Admits hmacSha256 d.env.now fields
  · obtain ⟨node, code, message, e, hresult, hnode⟩ := PeerNode.handleInbound_refused hrefused
    refine ⟨node, ?_, hnode⟩
    rw [hresult]
    split <;> simp_all
  · push Not at hrefused
    obtain ⟨fields, hkind, hadmits⟩ := hrefused
    obtain ⟨message, hfailed⟩ := Option.ne_none_iff_exists'.mp (h fields hkind hadmits)
    refine ⟨s.node.record fields.nonce d.env.now, ?_, .inr ⟨_, rfl⟩⟩
    rw [PeerNode.handleInbound_admitted hkind hadmits, hkind, hfailed]

/-- The nonces that were recorded from `start` on are within the window. -/
theorem mem_seen_record {node : PeerNode} {nonce nonce' : String} {start now time : Nat}
    (hnow : now < start + nonceWindow) (htime : start ≤ time)
    (h : (nonce', time) ∈ node.nonceTracker.seen) :
    (nonce', time) ∈ (node.record nonce now).nonceTracker.seen := by
  have hlive : (nonce', time) ∈ node.nonceTracker.live now := by
    refine List.mem_filter.mpr ⟨h, ?_⟩
    have hpositive : 0 < nonceWindow := by decide
    simp only [decide_eq_true_eq]
    omega
  simp only [PeerNode.record, NonceTracker.checkAndRecord]
  split
  · exact hlive
  · exact List.mem_cons_of_mem _ hlive

theorem contains_of_mem_seen {tracker : NonceTracker} {nonce : String} {start now time : Nat}
    (hnow : now < start + nonceWindow) (htime : start ≤ time) (h : (nonce, time) ∈ tracker.seen) :
    tracker.contains nonce now = true := by
  have hpositive : 0 < nonceWindow := by decide
  refine List.any_eq_true.mpr ⟨(nonce, time), List.mem_filter.mpr ⟨h, ?_⟩, by simp⟩
  simp only [decide_eq_true_eq]
  omega

theorem mem_seen_recorded {node : PeerNode} {nonce : String} {now : Nat}
    (hnew : node.nonceTracker.contains nonce now = false) :
    (nonce, now) ∈ (node.record nonce now).nonceTracker.seen := by
  rw [PeerNode.record, NonceTracker.checkAndRecord_new hnew]
  exact List.mem_cons_self

/-! ### Runs within a window -/

/-- Entries with one value under a function that has no value twice are at most one. -/
theorem length_le_one_of_nodup {α β : Type} {f : α → β} {xs : List α} {y : β}
    (hnodup : (xs.map f).Nodup) (hall : ∀ x ∈ xs, f x = y) : xs.length ≤ 1 := by
  have hmap : xs.map f = List.replicate xs.length y := by
    refine List.eq_replicate_iff.mpr ⟨List.length_map f, ?_⟩
    intro y' hmem
    obtain ⟨x, hx, rfl⟩ := List.mem_map.mp hmem
    exact hall x hx
  rw [hmap] at hnodup
  exact List.nodup_replicate.mp hnodup

variable (hmacSha256 secret) in
/-- The invariant: a handshake that was completed with the HMAC of a credential is the credential,
no nonce was completed twice, and the nonces are in the tracker since they were. -/
structure Recorded (created : List Credential) (start : Nat) (s : Answering) : Prop where
  shared : s.node.config.sharedSecret = secret
  cut : ∀ fields ∈ s.completed, ∀ c ∈ created, fields.authHmac = c.hmac hmacSha256 secret →
    fields.nonce = c.nonce ∧ fields.nodeId = c.nodeId
  nodup : (s.completed.map Handshake.nonce).Nodup
  seen : ∀ fields ∈ s.completed, ∃ time, start ≤ time ∧
    (fields.nonce, time) ∈ s.node.nonceTracker.seen

variable (hmacSha256 secret) in
/-- What holds of a delivery within the window: it carries no forged signature. -/
def Delivered (created : List Credential) (start : Nat) (d : Delivery) : Prop :=
  start ≤ d.env.now ∧ d.env.now < start + nonceWindow ∧
    Unforged hmacSha256 secret created d

variable {created : List Credential} {start : Nat}

theorem Recorded.oncePerCredential {s : Answering}
    (h : Recorded hmacSha256 secret created start s) :
    OncePerCredential hmacSha256 secret created s := by
  intro c hc
  constructor
  · refine length_le_one_of_nodup (f := Handshake.nonce) (y := c.nonce) ?_ ?_
    · exact h.nodup.sublist (List.filter_sublist.map _)
    · intro fields hmem
      obtain ⟨hmem, hhmac⟩ := List.mem_filter.mp hmem
      exact (h.cut fields hmem c hc (beq_iff_eq.mp hhmac)).1
  · intro fields hmem hhmac
    exact (h.cut fields hmem c hc hhmac).2

theorem Recorded.answer {s : Answering} {d : Delivery}
    (hdistinct : ∀ c ∈ created, ∀ c' ∈ created,
      c.hmac hmacSha256 secret = c'.hmac hmacSha256 secret → c.data = c'.data)
    (h : Recorded hmacSha256 secret created start s)
    (hdelivered : Delivered hmacSha256 secret created start d)
    (hcut : KeepsCut hmacSha256 secret created s d) :
    Recorded hmacSha256 secret created start (answer hmacSha256 s d) := by
  obtain ⟨hstart, hnow, hunforged⟩ := hdelivered
  by_cases hdone : ∃ fields, d.msg.kind = .request (.handshake fields) ∧
      s.node.Admits hmacSha256 d.env.now fields ∧ d.env.writeError = none
  · obtain ⟨fields, hkind, hadmits, hwritten⟩ := hdone
    obtain ⟨hversion, hnew, hverifies⟩ := hadmits
    rw [answer_completed hkind ⟨hversion, hnew, hverifies⟩ hwritten]
    rw [PeerNode.verifies, h.shared] at hverifies
    constructor
    · exact h.shared
    · intro f hmem c hc hhmac
      rcases List.mem_cons.mp hmem with rfl | hmem
      · -- what was signed for this HMAC is the credential's data
        obtain ⟨c', hc', hdata'⟩ := hunforged f hkind hverifies
        have hsame : c.hmac hmacSha256 secret = c'.hmac hmacSha256 secret := by
          rw [← hhmac, hmacVerify_iff.mp hverifies, ← hdata', Credential.hmac]
        have hdata : c.data = f.nonce ++ f.nodeId := (hdistinct c hc c' hc' hsame).trans hdata'
        have hid : f.nodeId = c.nodeId := hcut f hkind hversion hnew hwritten c hc hhmac hdata
        refine ⟨?_, hid⟩
        rw [Credential.data, hid] at hdata
        exact (String.append_left_inj c.nodeId).mp hdata.symm
      · exact h.cut f hmem c hc hhmac
    · refine List.nodup_cons.mpr ⟨?_, h.nodup⟩
      intro hmem
      obtain ⟨f, hf, hnonce⟩ := List.mem_map.mp hmem
      obtain ⟨time, htime, hseen⟩ := h.seen f hf
      rw [← hnonce, contains_of_mem_seen hnow htime hseen] at hnew
      cases hnew
    · intro f hmem
      rcases List.mem_cons.mp hmem with rfl | hmem
      · exact ⟨d.env.now, hstart, mem_seen_recorded hnew⟩
      · obtain ⟨time, htime, hseen⟩ := h.seen f hmem
        exact ⟨time, htime, mem_seen_record hnow htime hseen⟩
  · have hrefused : ∀ fields, d.msg.kind = .request (.handshake fields) →
        s.node.Admits hmacSha256 d.env.now fields → d.env.writeError ≠ none :=
      fun fields hkind hadmits hwritten => hdone ⟨fields, hkind, hadmits, hwritten⟩
    obtain ⟨node, hanswer, hnode⟩ := answer_refused hrefused
    rw [hanswer]
    refine ⟨?_, h.cut, h.nodup, ?_⟩
    · rcases hnode with rfl | ⟨nonce, rfl⟩
      · exact h.shared
      · exact h.shared
    · intro f hmem
      obtain ⟨time, htime, hseen⟩ := h.seen f hmem
      rcases hnode with rfl | ⟨nonce, rfl⟩
      · exact ⟨time, htime, hseen⟩
      · exact ⟨time, htime, mem_seen_record hnow htime hseen⟩

/-- A credential that is cut at another place is accepted under another node id. -/
theorem not_oncePerCredential_answer {s : Answering} {d : Delivery}
    (h : Recorded hmacSha256 secret created start s)
    (hnot : ¬ KeepsCut hmacSha256 secret created s d) :
    ¬ OncePerCredential hmacSha256 secret created (answer hmacSha256 s d) := by
  simp only [KeepsCut] at hnot
  push Not at hnot
  obtain ⟨fields, hkind, hversion, hnew, hwritten, c, hc, hhmac, hdata, hother⟩ := hnot
  have hverifies : s.node.verifies hmacSha256 fields = true := by
    rw [PeerNode.verifies, hmacVerify_iff, hhmac, ← hdata, h.shared, Credential.hmac]
  rw [answer_completed hkind ⟨hversion, hnew, hverifies⟩ hwritten]
  intro honce
  exact hother ((honce c hc).2 fields List.mem_cons_self hhmac)

/-- **Credentials within a window.** A node takes first messages within one window, among them
any that an attacker rebuilds without the secret. It completes at most one handshake for each
HMAC that an honest node made, and only under that node's id, if and only if no handshake
with a new nonce carries the nonce and the node id of such a credential cut at another place. -/
theorem credential_once_iff (hmacSha256 : List UInt8 → List UInt8 → List UInt8) (node : PeerNode)
    (created : List Credential) (start : Nat) (deliveries : List Delivery)
    (hdistinct : ∀ c ∈ created, ∀ c' ∈ created,
      c.hmac hmacSha256 node.config.sharedSecret = c'.hmac hmacSha256 node.config.sharedSecret →
        c.data = c'.data)
    (hdelivered : ∀ d ∈ deliveries,
      Delivered hmacSha256 node.config.sharedSecret created start d) :
    (∀ s ∈ passed (answer hmacSha256) ⟨node, []⟩ deliveries,
        OncePerCredential hmacSha256 node.config.sharedSecret created s) ↔
      Guarded (answer hmacSha256) (KeepsCut hmacSha256 node.config.sharedSecret created)
        ⟨node, []⟩ deliveries := by
  have hinit : Recorded hmacSha256 node.config.sharedSecret created start ⟨node, []⟩ := by
    constructor <;> simp
  have hassumed : Guarded (answer hmacSha256)
      (fun _ => Delivered hmacSha256 node.config.sharedSecret created start) ⟨node, []⟩
      deliveries := guarded_of_forall_mem (fun d hmem _ => hdelivered d hmem) _
  have hsafe : ∀ s, Recorded hmacSha256 node.config.sharedSecret created start s →
      OncePerCredential hmacSha256 node.config.sharedSecret created s :=
    fun _ h => h.oncePerCredential
  exact passed_safe_iff_of_assumed hsafe (fun _ _ h => h.answer hdistinct)
    (fun _ _ h _ => not_oncePerCredential_answer h) hinit hassumed

/-! ### A credential cut twice -/

/-- The handshake of `node-1`, and the same characters cut behind the next one. -/
def genuineDelivery : Delivery :=
  ⟨Sample.env 0 Sample.serverNonce, "m1", .request (.handshake
    ((Sample.node "node-1").ownFields Sample.hmacSha256 (Sample.env 0 Sample.clientNonce)))⟩

@[inherit_doc genuineDelivery] def recutDelivery : Delivery :=
  ⟨Sample.env 1 Sample.laterServerNonce, "m2", .request (.handshake
    { (Sample.node "node-1").ownFields Sample.hmacSha256 (Sample.env 0 Sample.clientNonce) with
      nonce := Sample.clientNonce ++ "n", nodeId := "ode-1" })⟩

theorem delivered_genuineDelivery : Delivered Sample.hmacSha256 Sample.secret
    [⟨Sample.clientNonce, "node-1"⟩] 0 genuineDelivery := by
  refine ⟨Nat.le_refl _, by decide, ?_⟩
  rintro fields ⟨rfl⟩ -
  exact ⟨_, List.mem_singleton_self _, rfl⟩

theorem delivered_recutDelivery : Delivered Sample.hmacSha256 Sample.secret
    [⟨Sample.clientNonce, "node-1"⟩] 0 recutDelivery := by
  refine ⟨Nat.zero_le _, by decide, ?_⟩
  rintro fields ⟨rfl⟩ -
  exact ⟨_, List.mem_singleton_self _, by decide⟩

/-- The credential of `node-1` is accepted twice, the second time under the node id `ode-1`. -/
theorem recut_credential_is_accepted : ¬ ∀ (hmacSha256 : List UInt8 → List UInt8 → List UInt8)
    (node : PeerNode) (created : List Credential) (start : Nat) (deliveries : List Delivery),
    (∀ c ∈ created, ∀ c' ∈ created,
      c.hmac hmacSha256 node.config.sharedSecret = c'.hmac hmacSha256 node.config.sharedSecret →
        c.data = c'.data) →
    (∀ d ∈ deliveries, Delivered hmacSha256 node.config.sharedSecret created start d) →
    ∀ s ∈ passed (answer hmacSha256) ⟨node, []⟩ deliveries,
      OncePerCredential hmacSha256 node.config.sharedSecret created s := by
  intro h
  have honce := h Sample.hmacSha256 (Sample.node "node-2") [⟨Sample.clientNonce, "node-1"⟩] 0
    [genuineDelivery, recutDelivery] (by simp)
    (List.forall_mem_cons.mpr ⟨delivered_genuineDelivery,
      List.forall_mem_singleton.mpr delivered_recutDelivery⟩)
  revert honce
  decide +kernel

/-- A credential that is replayed is refused. -/
theorem credential_once_iff_replayed :
    Guarded (answer Sample.hmacSha256)
        (KeepsCut Sample.hmacSha256 Sample.secret [⟨Sample.clientNonce, "node-1"⟩])
        ⟨Sample.node "node-2", []⟩ [genuineDelivery, genuineDelivery] ∧
      ∀ s ∈ passed (answer Sample.hmacSha256) ⟨Sample.node "node-2", []⟩
        [genuineDelivery, genuineDelivery],
        OncePerCredential Sample.hmacSha256 Sample.secret [⟨Sample.clientNonce, "node-1"⟩] s := by
  have hdelivered : ∀ d ∈ [genuineDelivery, genuineDelivery], Delivered Sample.hmacSha256
      Sample.secret [⟨Sample.clientNonce, "node-1"⟩] 0 d := by
    intro d hmem
    obtain rfl : d = genuineDelivery := by simpa using hmem
    exact delivered_genuineDelivery
  have hiff := credential_once_iff Sample.hmacSha256 (Sample.node "node-2")
    [⟨Sample.clientNonce, "node-1"⟩] 0 [genuineDelivery, genuineDelivery] (by simp) hdelivered
  have hkeeps : Guarded (answer Sample.hmacSha256)
      (KeepsCut Sample.hmacSha256 Sample.secret [⟨Sample.clientNonce, "node-1"⟩])
      ⟨Sample.node "node-2", []⟩ [genuineDelivery, genuineDelivery] := by
    refine ⟨?_, ?_, trivial⟩
    all_goals
      rintro fields ⟨rfl⟩ - - - c hc - -
      obtain rfl := List.mem_singleton.mp hc
      rfl
  exact ⟨hkeeps, hiff.mpr hkeeps⟩

end Steps

end ArmaraOS.Wire
