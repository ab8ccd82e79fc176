import Mathlib.Logic.Function.Basic
import ArmaraOS.Lib.Machine
import ArmaraOS.Wire.Peer

/-!
Whom `connect_to_peer` has authenticated when it accepts an acknowledgement.

Any number of nodes share a secret; every message goes through the hands of an attacker, who may
keep it back, deliver it anywhere and any number of times, and make up others, but does not know
the secret. The HMAC of an acknowledgement covers the nonce of the responder and its node id. It
does not cover the nonce it answers, nor the role: a handshake is signed in the same way. So what
a run accepts is genuine as far as the attacker wires it to the inbound run that got its handshake.

* `trusted_networkStep` — what a step of the network keeps, where its delivery is wired.
* `not_authenticated_networkStep` — a delivery that is not wired is accepted.
* `handshake_authenticates_iff` — a run of the network accepts genuine acknowledgements only,
  exactly if every delivery in it is wired.
-/

namespace ArmaraOS.Wire

open ArmaraOS.Lib Function

/-! ### The network -/

/-- A run that has sent its handshake: of `connect_to_peer`, or else of `send_to_peer`. -/
structure Connecting where
  node : Nat
  ourNonce : String
  toConnect : Bool
deriving DecidableEq

/-- An acknowledgement that a run of `handle_inbound` generated, and the nonce it answers. -/
structure Generated where
  node : Nat
  inboundRun : Nat
  answered : String
  ack : Handshake

/-- An acknowledgement that a run of `connect_to_peer` accepted. -/
structure Accepted where
  run : Nat
  node : Nat
  ourNonce : String
  ack : Handshake

/-- What was delivered to a run of `handle_inbound`, and what the run wrote. -/
structure Exchange where
  node : Nat
  inboundRun : Nat
  got : WireMessage
  wrote : WireMessage

/-- The acknowledgement that a run generated, if it answered a handshake. -/
def Exchange.generated (e : Exchange) : Option Generated :=
  match e.got.kind, e.wrote.kind with
  | .request (.handshake fields), .response (.handshakeAck ack) =>
      some ⟨e.node, e.inboundRun, fields.nonce, ack⟩
  | _, _ => none

/-- The nodes, the runs that wait for a message, and what has happened. A run is known by the
time at which it started. -/
structure Network where
  nodes : Nat → PeerNode
  clock : Nat
  connecting : Nat → Option Connecting
  inbound : Nat → Option Nat
  signed : List Handshake
  exchanges : List Exchange
  accepted : List Accepted

/-- The acknowledgements that were generated. -/
def Network.generated (s : Network) : List Generated := s.exchanges.filterMap Exchange.generated

/-- Nothing has happened. -/
def Network.start (nodes : Nat → PeerNode) : Network :=
  ⟨nodes, 0, fun _ => none, fun _ => none, [], [], []⟩

/-- A node sends a handshake, an inbound connection is accepted, a first message is delivered on
one, a response is delivered to the sender of a handshake. -/
inductive NetworkStep where
  | sendHandshake (node : Nat) (toConnect : Bool) (env : Surroundings)
  | acceptConnection (node : Nat)
  | deliverFirst (inboundRun : Nat) (env : Surroundings) (msg : WireMessage)
  | deliverResponse (run : Nat) (env : Surroundings) (msg : WireMessage)

/-- The nonce that is drawn in a step. -/
def NetworkStep.drawn : NetworkStep → Option String
  | sendHandshake _ _ env => some env.uuid
  | deliverFirst _ env _ => some env.uuid
  | _ => none

/-- The signed fields that a delivered message carries. -/
def NetworkStep.carried : NetworkStep → Option Handshake
  | deliverFirst _ _ ⟨_, .request (.handshake fields)⟩ => some fields
  | deliverResponse _ _ ⟨_, .response (.handshakeAck fields)⟩ => some fields
  | _ => none

/-- The acknowledgement that `connect_to_peer` accepted. -/
def acceptedBy (run : Nat) (connecting : Connecting) (msg : WireMessage) :
    Except WireError (String × String) → Option Accepted
  | .error _ => none
  | .ok _ =>
      match msg.kind with
      | .response (.handshakeAck ack) => some ⟨run, connecting.node, connecting.ourNonce, ack⟩
      | _ => none

section Step

variable (hmacSha256 : List UInt8 → List UInt8 → List UInt8)

/-- One step of the network, without the clock. -/
def networkMove (s : Network) : NetworkStep → Network
  | .sendHandshake node toConnect env =>
      { s with
        connecting := update s.connecting s.clock (some ⟨node, env.uuid, toConnect⟩)
        signed := (s.nodes node).ownFields hmacSha256 env :: s.signed }
  | .acceptConnection node => { s with inbound := update s.inbound s.clock (some node) }
  | .deliverFirst inboundRun env msg =>
      match s.inbound inboundRun with
      | none => s
      | some node =>
          let (node', reply, _) := (s.nodes node).handleInbound hmacSha256 env msg
          let exchange := ⟨node, inboundRun, msg, reply⟩
          { s with
            nodes := update s.nodes node node'
            inbound := update s.inbound inboundRun none
            signed := exchange.generated.toList.map Generated.ack ++ s.signed
            exchanges := exchange :: s.exchanges }
  | .deliverResponse run env msg =>
      match s.connecting run with
      | none => s
      | some connecting =>
          let s := { s with connecting := update s.connecting run none }
          if connecting.toConnect then
            let (node', result) :=
              (s.nodes connecting.node).connectToPeer hmacSha256 env connecting.ourNonce msg
            { s with
              nodes := update s.nodes connecting.node node'
              accepted := (acceptedBy run connecting msg result).toList ++ s.accepted }
          else
            let (node', _) :=
              (s.nodes connecting.node).sendToPeer hmacSha256 env connecting.ourNonce msg
            { s with nodes := update s.nodes connecting.node node' }

/-- One step of the network. -/
def networkStep (s : Network) (step : NetworkStep) : Network :=
  { networkMove hmacSha256 s step with clock := s.clock + 1 }

/-- Nobody who does not know the secret makes a signature: what is rightly signed was signed by a
node before. -/
def SignedBefore (secret : String) (s : Network) (step : NetworkStep) : Prop :=
  ∀ fields ∈ step.carried,
    hmacVerify hmacSha256 secret (asBytes (fields.nonce ++ fields.nodeId)) fields.authHmac = true →
      ∃ h ∈ s.signed, h.nonce ++ h.nodeId = fields.nonce ++ fields.nodeId

instance (secret : String) (s : Network) (step : NetworkStep) :
    Decidable (SignedBefore hmacSha256 secret s step) :=
  inferInstanceAs (Decidable (∀ fields ∈ step.carried, _ → ∃ h ∈ s.signed, _))

end Step

/-- The node that an acknowledgement names has generated it, in an inbound run that started after
the handshake with `ourNonce` was sent and that answers this nonce; and it is another node. -/
def Genuine (s : Network) (acc : Accepted) : Prop :=
  ∃ g ∈ s.generated, g.ack = acc.ack ∧ (s.nodes g.node).config.nodeId = acc.ack.nodeId ∧
    acc.run < g.inboundRun ∧ g.answered = acc.ourNonce ∧
    acc.ack.nodeId ≠ (s.nodes acc.node).config.nodeId

instance (s : Network) (acc : Accepted) : Decidable (Genuine s acc) :=
  inferInstanceAs (Decidable (∃ g ∈ s.generated, _))

/-- Every acknowledgement that was accepted is genuine. -/
def Authenticated (s : Network) : Prop := ∀ acc ∈ s.accepted, Genuine s acc

instance (s : Network) : Decidable (Authenticated s) :=
  inferInstanceAs (Decidable (∀ acc ∈ s.accepted, _))

/-- A message brings what a node signed, for this version and with a nonce that is new to the
receiver. -/
def BringsSignature (s : Network) (node now : Nat) (msg : WireMessage) : Prop :=
  ∃ ack, msg.kind = .response (.handshakeAck ack) ∧ ack.protocolVersion = protocolVersion ∧
    (s.nodes node).nonceTracker.contains ack.nonce now = false ∧
    ∃ h ∈ s.signed, h.authHmac = ack.authHmac ∧ h.nonce ++ h.nodeId = ack.nonce ++ ack.nodeId

/-- A run of `handle_inbound` got a handshake with this nonce and wrote the message; the connection
was accepted behind the sending of the handshake, at a node of another name. -/
structure WiredTo (s : Network) (run : Nat) (connecting : Connecting) (msg : WireMessage)
    (e : Exchange) : Prop where
  got : ∃ fields, e.got.kind = .request (.handshake fields) ∧ fields.nonce = connecting.ourNonce
  wrote : e.wrote.kind = msg.kind
  behind : run < e.inboundRun
  other : (s.nodes e.node).config.nodeId ≠ (s.nodes connecting.node).config.nodeId

/-- Signatures are delivered to a run of `connect_to_peer` in what a run of `handle_inbound` wrote
that got its handshake. -/
def Wired (s : Network) : NetworkStep → Prop
  | .deliverResponse run env msg =>
      ∀ connecting ∈ s.connecting run, connecting.toConnect = true →
        BringsSignature s connecting.node env.now msg →
          ∃ e ∈ s.exchanges, WiredTo s run connecting msg e
  | _ => True

/-! ### One step -/

section Steps

variable {hmacSha256 : List UInt8 → List UInt8 → List UInt8}

variable (hmacSha256) in
/-- An acknowledgement is generated of the node's own fields; the configuration stays. -/
theorem handleInbound_generated (node : PeerNode) (env : Surroundings) (msg : WireMessage) :
    (node.handleInbound hmacSha256 env msg).1.config = node.config ∧
      ∀ n run, ∀ g ∈ Exchange.generated ⟨n, run, msg, (node.handleInbound hmacSha256 env msg).2.1⟩,
        g.node = n ∧ g.ack = node.ownFields hmacSha256 env := by
  by_cases hrefused : ∀ fields, msg.kind = .request (.handshake fields) →
      ¬ node.Admits hmacSha256 env.now fields
  · obtain ⟨node', code, message, e, hresult, hnode⟩ := PeerNode.handleInbound_refused hrefused
    rw [hresult]
    constructor
    · rcases hnode with rfl | ⟨nonce, rfl⟩ <;> rfl
    · intro n run g hg
      simp [Exchange.generated] at hg
  · push Not at hrefused
    obtain ⟨fields, hkind, hadmits⟩ := hrefused
    have hnew : ∀ n run ack,
        ∀ g ∈ Exchange.generated ⟨n, run, msg, ⟨msg.id, .response (.handshakeAck ack)⟩⟩,
          g.node = n ∧ g.ack = ack := by
      rintro n run ack g hg
      rw [Exchange.generated, hkind] at hg
      cases hg
      exact ⟨rfl, rfl⟩
    rw [PeerNode.handleInbound_admitted hkind hadmits]
    cases env.writeError with
    | some message => exact ⟨rfl, fun n run => hnew n run _⟩
    | none => exact ⟨rfl, fun n run => hnew n run _⟩

variable (hmacSha256) in
/-- What `connect_to_peer` accepts it has admitted; the configuration stays. -/
theorem connectToPeer_accepted (node : PeerNode) (env : Surroundings) (ourNonce : String)
    (msg : WireMessage) :
    (node.connectToPeer hmacSha256 env ourNonce msg).1.config = node.config ∧
      ∀ run connecting acc,
        acc ∈ acceptedBy run connecting msg (node.connectToPeer hmacSha256 env ourNonce msg).2 ↔
          ∃ ack, msg.kind = .response (.handshakeAck ack) ∧
            node.Admits hmacSha256 env.now ack ∧
            acc = ⟨run, connecting.node, connecting.ourNonce, ack⟩ := by
  by_cases hrefused : ∀ ack, msg.kind = .response (.handshakeAck ack) →
      ¬ node.Admits hmacSha256 env.now ack
  · obtain ⟨node', e, hresult, -, hconfig⟩ := PeerNode.connectToPeer_refused ourNonce
      hrefused
    rw [hresult]
    refine ⟨hconfig, fun run connecting acc => ?_⟩
    simp only [acceptedBy, Option.not_mem_none, false_iff]
    rintro ⟨ack, hkind, hadmits, -⟩
    exact hrefused ack hkind hadmits
  · push Not at hrefused
    obtain ⟨ack, hkind, hadmits⟩ := hrefused
    rw [PeerNode.connectToPeer_admitted hkind hadmits]
    refine ⟨rfl, fun run connecting acc => ?_⟩
    simp only [acceptedBy, hkind, Option.mem_def, Option.some.injEq, WireMessageKind.response.injEq,
      WireResponse.handshakeAck.injEq]
    constructor
    · rintro rfl
      exact ⟨ack, rfl, hadmits, rfl⟩
    · rintro ⟨ack', rfl, -, rfl⟩
      rfl

theorem update_config {nodes : Nat → PeerNode} {n : Nat} {node : PeerNode}
    (h : node.config = (nodes n).config) (m : Nat) :
    (update nodes n node m).config = (nodes m).config := by
  by_cases hself : m = n
  · subst hself
    rw [update_self, h]
  · rw [update_of_ne hself]

variable (hmacSha256) in
/-- The fields are rightly signed with the secret. -/
def RightlySigned (secret : String) (fields : Handshake) : Prop :=
  fields.authHmac = hmacSign hmacSha256 secret (asBytes (fields.nonce ++ fields.nodeId))

variable (hmacSha256) in
/-- The invariant: the nodes share the secret, what they signed is rightly signed, what they
generated names them, and what they accepted is genuine. -/
structure Trusted (secret : String) (s : Network) : Prop where
  shared : ∀ n, (s.nodes n).config.sharedSecret = secret
  signed : ∀ fields ∈ s.signed, RightlySigned hmacSha256 secret fields
  generated : ∀ g ∈ s.generated, (s.nodes g.node).config.nodeId = g.ack.nodeId
  authenticated : Authenticated s

variable {secret : String}

/-- The acknowledgements that were generated are those that answered a handshake. -/
theorem mem_generated_iff {s : Network} {g : Generated} :
    g ∈ s.generated ↔ ∃ e ∈ s.exchanges, ∃ fields,
      e.got.kind = .request (.handshake fields) ∧ e.wrote.kind = .response (.handshakeAck g.ack) ∧
        e.node = g.node ∧ e.inboundRun = g.inboundRun ∧ fields.nonce = g.answered := by
  rw [Network.generated, List.mem_filterMap]
  refine exists_congr fun e => and_congr_right fun _ => ?_
  constructor
  · intro hg
    unfold Exchange.generated at hg
    split at hg
    · rename_i fields ack hgot hwrote
      obtain rfl := Option.some.inj hg
      exact ⟨fields, hgot, hwrote, rfl, rfl, rfl⟩
    · cases hg
  · rintro ⟨fields, hgot, hwrote, hnode, hrun, hnonce⟩
    rw [Exchange.generated, hgot, hwrote]
    cases g
    simp_all

/-- A genuine acknowledgement stays genuine. -/
theorem Genuine.mono {s s' : Network} {acc : Accepted} (h : Genuine s acc)
    (hconfig : ∀ n, (s'.nodes n).config = (s.nodes n).config)
    (hgenerated : ∀ g ∈ s.generated, g ∈ s'.generated) : Genuine s' acc := by
  obtain ⟨g, hg, hack, hid, hafter, hanswered, hother⟩ := h
  refine ⟨g, hgenerated g hg, hack, ?_, hafter, hanswered, ?_⟩
  · rw [hconfig, hid]
  · rw [hconfig]
    exact hother

/-- What is added to a trusted network. -/
theorem Trusted.extend {s s' : Network} (h : Trusted hmacSha256 secret s)
    (hconfig : ∀ n, (s'.nodes n).config = (s.nodes n).config)
    (hsigned : ∀ fields ∈ s'.signed, fields ∈ s.signed ∨ RightlySigned hmacSha256 secret fields)
    (hkept : ∀ e ∈ s.exchanges, e ∈ s'.exchanges)
    (hgenerated : ∀ g ∈ s'.generated, g ∈ s.generated ∨
      (s.nodes g.node).config.nodeId = g.ack.nodeId)
    (haccepted : ∀ acc ∈ s'.accepted, acc ∈ s.accepted ∨ Genuine s' acc) :
    Trusted hmacSha256 secret s' where
  shared n := by rw [hconfig, h.shared]
  signed fields hmem := (hsigned fields hmem).elim (h.signed fields) id
  generated g hg := by
    rw [hconfig]
    exact (hgenerated g hg).elim (h.generated g) id
  authenticated acc hacc := by
    rcases haccepted acc hacc with hold | hnew
    · refine (h.authenticated acc hold).mono hconfig fun g hg => ?_
      obtain ⟨e, he, hgenerated⟩ := mem_generated_iff.mp hg
      exact mem_generated_iff.mpr ⟨e, hkept e he, hgenerated⟩
    · exact hnew

theorem ownFields_rightlySigned {node : PeerNode} (h : node.config.sharedSecret = secret)
    (env : Surroundings) : RightlySigned hmacSha256 secret (node.ownFields hmacSha256 env) := by
  rw [RightlySigned, ← h]
  rfl

theorem Trusted.sendHandshake {s : Network} (h : Trusted hmacSha256 secret s) (node : Nat)
    (toConnect : Bool) (env : Surroundings) :
    Trusted hmacSha256 secret (networkMove hmacSha256 s (.sendHandshake node toConnect env)) := by
  refine h.extend (fun _ => rfl) ?_ (fun _ hg => hg) (fun _ hg => .inl hg) fun _ hacc => .inl hacc
  intro fields hmem
  rcases List.mem_cons.mp hmem with rfl | hmem
  · exact .inr (ownFields_rightlySigned (h.shared node) env)
  · exact .inl hmem

theorem Trusted.deliverFirst {s : Network} (h : Trusted hmacSha256 secret s) (inboundRun : Nat)
    (env : Surroundings) (msg : WireMessage) :
    Trusted hmacSha256 secret (networkMove hmacSha256 s (.deliverFirst inboundRun env msg)) := by
  simp only [networkMove]
  split
  · exact h
  · rename_i node hinbound
    obtain ⟨hconfig, hown⟩ := handleInbound_generated hmacSha256 (s.nodes node) env msg
    refine h.extend (update_config hconfig) ?_ (fun e he => List.mem_cons_of_mem _ he) ?_
      fun _ hacc => .inl hacc
    · intro fields hmem
      rcases List.mem_append.mp hmem with hmem | hmem
      · obtain ⟨g, hg, rfl⟩ := List.mem_map.mp hmem
        rw [(hown node inboundRun g (Option.mem_toList.mp hg)).2]
        exact .inr (ownFields_rightlySigned (h.shared node) env)
      · exact .inl hmem
    · intro g hmem
      obtain ⟨e, he, hg⟩ := List.mem_filterMap.mp hmem
      rcases List.mem_cons.mp he with rfl | he
      · obtain ⟨hnode, hack⟩ := hown node inboundRun g hg
        rw [hnode, hack]
        exact .inr rfl
      · exact .inl (List.mem_filterMap.mpr ⟨e, he, hg⟩)

/-- An acknowledgement that is admitted brings a signature, since nobody else makes one. -/
theorem Trusted.bringsSignature {s : Network} {run : Nat} {env : Surroundings} {msg : WireMessage}
    {node : Nat} {ack : Handshake} (h : Trusted hmacSha256 secret s)
    (hsigned : SignedBefore hmacSha256 secret s (.deliverResponse run env msg))
    (hkind : msg.kind = .response (.handshakeAck ack))
    (hadmits : (s.nodes node).Admits hmacSha256 env.now ack) :
    BringsSignature s node env.now msg := by
  obtain ⟨hversion, hnew, hverifies⟩ := hadmits
  have hright : RightlySigned hmacSha256 secret ack := by
    rw [PeerNode.verifies, h.shared, hmacVerify_iff] at hverifies
    exact hverifies
  have hcarried : ack ∈ (NetworkStep.deliverResponse run env msg).carried := by
    obtain ⟨id, kind⟩ := msg
    cases hkind
    rfl
  obtain ⟨fields, hfields, hdata⟩ := hsigned ack hcarried (hmacVerify_iff.mpr hright)
  have hhmac : fields.authHmac = ack.authHmac := by
    rw [h.signed fields hfields, hright, hdata]
  exact ⟨ack, hkind, hversion, hnew, fields, hfields, hhmac, hdata⟩

/-- What a run wrote that got the handshake is genuine: it was generated there, in answer to the
handshake, and names the node of the run. -/
theorem Trusted.genuine {s : Network} {run : Nat} {msg : WireMessage} {connecting : Connecting}
    {ack : Handshake} {e : Exchange} (h : Trusted hmacSha256 secret s) (he : e ∈ s.exchanges)
    (hwired : WiredTo s run connecting msg e) (hkind : msg.kind = .response (.handshakeAck ack)) :
    Genuine s ⟨run, connecting.node, connecting.ourNonce, ack⟩ := by
  obtain ⟨⟨fields, hgot, hnonce⟩, hwrote, hbehind, hother⟩ := hwired
  have hg : (⟨e.node, e.inboundRun, fields.nonce, ack⟩ : Generated) ∈ s.generated :=
    mem_generated_iff.mpr ⟨e, he, fields, hgot, hwrote.trans hkind, rfl, rfl, rfl⟩
  have hnames : (s.nodes e.node).config.nodeId = ack.nodeId := h.generated _ hg
  exact ⟨_, hg, rfl, hnames, hbehind, hnonce, hnames ▸ hother⟩

theorem Trusted.deliverResponse {s : Network} {run : Nat} {env : Surroundings} {msg : WireMessage}
    (h : Trusted hmacSha256 secret s)
    (hsigned : SignedBefore hmacSha256 secret s (.deliverResponse run env msg))
    (hguard : Wired s (.deliverResponse run env msg)) :
    Trusted hmacSha256 secret (networkMove hmacSha256 s (.deliverResponse run env msg)) := by
  simp only [networkMove]
  split
  · exact h
  · rename_i connecting hrun
    split
    · rename_i htoConnect
      obtain ⟨hconfig, haccepted⟩ := connectToPeer_accepted hmacSha256
        (s.nodes connecting.node) env connecting.ourNonce msg
      refine h.extend (update_config hconfig) (fun _ hmem => .inl hmem) (fun _ hg => hg)
        (fun _ hg => .inl hg) ?_
      intro acc hacc
      rcases List.mem_append.mp hacc with hacc | hacc
      · obtain ⟨ack, hkind, hadmits, rfl⟩ :=
          (haccepted run connecting acc).mp (Option.mem_toList.mp hacc)
        refine .inr (Genuine.mono ?_ (update_config hconfig) fun _ hg => hg)
        obtain ⟨e, he, hwired⟩ :=
          hguard connecting hrun htoConnect (h.bringsSignature hsigned hkind hadmits)
        exact h.genuine he hwired hkind
      · exact .inl hacc
    · exact h.extend (update_config (PeerNode.sendToPeer_registry env connecting.ourNonce msg).2)
        (fun _ hmem => .inl hmem) (fun _ hg => hg) (fun _ hg => .inl hg) fun _ hacc => .inl hacc

theorem trusted_networkStep (s : Network) (step : NetworkStep) (h : Trusted hmacSha256 secret s)
    (hsigned : SignedBefore hmacSha256 secret s step) (hguard : Wired s step) :
    Trusted hmacSha256 secret (networkStep hmacSha256 s step) := by
  have hmove : Trusted hmacSha256 secret (networkMove hmacSha256 s step) := by
    cases step with
    | sendHandshake node toConnect env => exact h.sendHandshake node toConnect env
    | acceptConnection node =>
        exact h.extend (fun _ => rfl) (fun _ hmem => .inl hmem) (fun _ hg => hg)
          (fun _ hg => .inl hg) fun _ hacc => .inl hacc
    | deliverFirst inboundRun env msg => exact h.deliverFirst inboundRun env msg
    | deliverResponse run env msg => exact h.deliverResponse hsigned hguard
  exact ⟨hmove.shared, hmove.signed, hmove.generated, hmove.authenticated⟩

/-- A signature that reaches a run of `connect_to_peer` otherwise is accepted, and not genuine. -/
theorem not_authenticated_networkStep (s : Network) (step : NetworkStep)
    (h : Trusted hmacSha256 secret s) (hnot : ¬ Wired s step) :
    ¬ Authenticated (networkStep hmacSha256 s step) := by
  cases step with
  | deliverResponse run env msg =>
      simp only [Wired] at hnot
      push Not at hnot
      obtain ⟨connecting, hrun, htoConnect, ⟨ack, hkind, hversion, hnew, fields, hfields, hhmac,
        hdata⟩, hunwired⟩ := hnot
      have hverifies : (s.nodes connecting.node).verifies hmacSha256 ack = true := by
        rw [PeerNode.verifies, h.shared, hmacVerify_iff, ← hhmac, ← hdata]
        exact h.signed fields hfields
      obtain ⟨hconfig, haccepted⟩ := connectToPeer_accepted hmacSha256
        (s.nodes connecting.node) env connecting.ourNonce msg
      have hacc := (haccepted run connecting _).mpr
        ⟨ack, hkind, ⟨hversion, hnew, hverifies⟩, rfl⟩
      have hmem : (⟨run, connecting.node, connecting.ourNonce, ack⟩ : Accepted) ∈
          (networkStep hmacSha256 s (.deliverResponse run env msg)).accepted := by
        simp only [networkStep, networkMove, Option.mem_def.mp hrun, htoConnect, if_true]
        exact List.mem_append_left _ (Option.mem_toList.mpr hacc)
      intro hauth
      obtain ⟨g, hg, hack, hnames, hbehind, hanswered, hother⟩ := hauth _ hmem
      obtain ⟨e, he, got, hgot, hwrote, hnode, hinbound, hnonce⟩ := mem_generated_iff.mp hg
      simp only [networkStep, networkMove, Option.mem_def.mp hrun, htoConnect, if_true]
        at he hnames hother
      rw [update_config hconfig] at hnames hother
      refine hunwired e he ⟨⟨got, hgot, hnonce.trans hanswered⟩, ?_, hinbound ▸ hbehind, ?_⟩
      · rw [hwrote, hkind, hack]
      · rw [hnode, hnames]
        exact hother
  | _ => exact absurd trivial hnot

/-- **Whom a handshake authenticates.** Nodes that share a secret run against an attacker who
delivers what he likes and forges nothing. Every acknowledgement that `connect_to_peer` accepts
was generated by the other node it names, in answer to this very handshake and after it, if and
only if every signature that reaches a run of `connect_to_peer` is wired to it. -/
theorem handshake_authenticates_iff (hmacSha256 : List UInt8 → List UInt8 → List UInt8)
    (secret : String) (nodes : Nat → PeerNode) (steps : List NetworkStep)
    (hshared : ∀ n, (nodes n).config.sharedSecret = secret)
    (hsigned : Guarded (networkStep hmacSha256) (SignedBefore hmacSha256 secret) (.start nodes)
      steps) :
    (∀ s ∈ passed (networkStep hmacSha256) (.start nodes) steps, Authenticated s) ↔
      Guarded (networkStep hmacSha256) Wired (.start nodes) steps := by
  have hinit : Trusted hmacSha256 secret (.start nodes) := by
    constructor
    · exact hshared
    all_goals
      intro x hx
      exact absurd hx List.not_mem_nil
  exact passed_safe_iff_of_assumed (fun _ h => h.authenticated) trusted_networkStep
    (fun s step h _ => not_authenticated_networkStep s step h) hinit hsigned

/-! ### A handshake reflected, and one answered -/

/-- `node-1` is node 0, and all others are called `node-2`. -/
def twoNodes (n : Nat) : PeerNode := Sample.node (if n = 0 then "node-1" else "node-2")

/-- `node-1` sends its handshake, and gets the fields back as an acknowledgement. -/
def reflection : List NetworkStep :=
  [.sendHandshake 0 true (Sample.env 0 Sample.clientNonce),
    .deliverResponse 0 (Sample.env 1 Sample.laterNonce) ⟨"m1", .response (.handshakeAck
      ((twoNodes 0).ownFields Sample.hmacSha256 (Sample.env 0 Sample.clientNonce)))⟩]

/-- `node-1` accepts its own handshake as an acknowledgement. -/
theorem reflection_is_accepted : ¬ ∀ (hmacSha256 : List UInt8 → List UInt8 → List UInt8)
    (secret : String) (nodes : Nat → PeerNode) (steps : List NetworkStep),
    (∀ n, (nodes n).config.sharedSecret = secret) →
    (steps.filterMap NetworkStep.drawn).Nodup →
    Guarded (networkStep hmacSha256) (SignedBefore hmacSha256 secret) (.start nodes) steps →
    ∀ s ∈ passed (networkStep hmacSha256) (.start nodes) steps, Authenticated s := by
  intro h
  have hauth := h Sample.hmacSha256 Sample.secret twoNodes reflection (fun _ => rfl) (by decide)
    (by decide +kernel)
  revert hauth
  decide +kernel

/-- `node-2` answers the handshake of `node-1`. -/
def answered : List NetworkStep :=
  [.sendHandshake 0 true (Sample.env 0 Sample.clientNonce), .acceptConnection 1,
    .deliverFirst 1 (Sample.env 1 Sample.serverNonce) ⟨"m1", .request (.handshake
      ((twoNodes 0).ownFields Sample.hmacSha256 (Sample.env 0 Sample.clientNonce)))⟩,
    .deliverResponse 0 (Sample.env 2 Sample.laterNonce) ⟨"m1", .response (.handshakeAck
      ((twoNodes 1).ownFields Sample.hmacSha256 (Sample.env 1 Sample.serverNonce)))⟩]

theorem handshake_authenticates_iff_answered :
    Guarded (networkStep Sample.hmacSha256) Wired (.start twoNodes) answered ∧
      ∀ s ∈ passed (networkStep Sample.hmacSha256) (.start twoNodes) answered,
        Authenticated s := by
  have hiff := handshake_authenticates_iff Sample.hmacSha256 Sample.secret twoNodes answered
    (fun _ => rfl) (by decide +kernel)
  have hguarded : Guarded (networkStep Sample.hmacSha256) Wired (.start twoNodes)
      answered := by
    refine ⟨trivial, trivial, trivial, ?_, trivial⟩
    rintro connecting hrun - -
    obtain rfl : connecting = ⟨0, Sample.clientNonce, true⟩ :=
      Option.mem_unique hrun (by decide +kernel)
    exact ⟨_, List.mem_cons_self, ⟨_, rfl, rfl⟩, rfl, by decide, by decide +kernel⟩
  exact ⟨hguarded, hiff.mpr hguarded⟩

end Steps

end ArmaraOS.Wire
