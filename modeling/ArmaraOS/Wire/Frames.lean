import ArmaraOS.Lib.Machine
import ArmaraOS.Wire.Peer

/-!
Authenticated frames (`write_message_authenticated` and `read_message_authenticated` of
`peer.rs`), and the two ends of a connection after its handshake.

A frame is a length, a JSON body and the HMAC of the body under the session key. Neither a number
of the frame nor its direction goes into the HMAC: what is accepted was written by one of the ends
(`accepted_frames`), but a frame can be repeated, left out, or sent back to the end that wrote it.
-/

namespace ArmaraOS.Wire

open ArmaraOS.Lib

/-! ### Frames -/

/-- `serde_json` on wire messages. -/
structure WireJson where
  toVec : WireMessage → List UInt8
  fromSlice : List UInt8 → Except String WireMessage

/-- `u32::to_be_bytes`, of a length `as u32`. -/
def toBeBytes (n : Nat) : List UInt8 :=
  [.ofNat (n / 2 ^ 24), .ofNat (n / 2 ^ 16), .ofNat (n / 2 ^ 8), .ofNat n]

/-- `decode_length`. -/
def decodeLength (b₀ b₁ b₂ b₃ : UInt8) : Nat :=
  b₀.toNat * 2 ^ 24 + b₁.toNat * 2 ^ 16 + b₂.toNat * 2 ^ 8 + b₃.toNat

/-- `MAX_MESSAGE_SIZE`. -/
def maxMessageSize : Nat := 16 * 1024 * 1024

/-- `HMAC_HEX_LEN`. -/
def hmacHexLen : Nat := 64

/-- What reading a frame from the bytes that have arrived comes to. -/
inductive ReadResult where
  | waiting
  | failed (e : WireError)
  | message (msg : WireMessage) (rest : List UInt8)

section Codec

variable (hmacSha256 : List UInt8 → List UInt8 → List UInt8) (json : WireJson)
  (sessionKey : String)

/-- `write_message_authenticated`. -/
def writeMessageAuthenticated (msg : WireMessage) : List UInt8 :=
  let jsonBytes := json.toVec msg
  let macBytes := asBytes (hmacSign hmacSha256 sessionKey jsonBytes)
  toBeBytes (jsonBytes.length + macBytes.length) ++ (jsonBytes ++ macBytes)

/-- `read_message_authenticated`, from the verification on. -/
def readFrame (jsonBytes macBytes rest : List UInt8) : ReadResult :=
  match String.fromUTF8? macBytes.toByteArray with
  | none => .failed (.handshakeFailed "Invalid HMAC encoding")
  | some receivedMac =>
      if !hmacVerify hmacSha256 sessionKey jsonBytes receivedMac then
        .failed (.handshakeFailed
          "Per-message HMAC verification failed — message tampered or forged")
      else
        match json.fromSlice jsonBytes with
        | .error e => .failed (.json e)
        | .ok msg => .message msg rest

/-- `read_message_authenticated`, behind the length. -/
def readBody (len : Nat) (bytes : List UInt8) : ReadResult :=
  if maxMessageSize < len then
    .failed (.messageTooLarge (.ofNat len) (.ofNat maxMessageSize))
  else if len < hmacHexLen + 2 then
    .failed (.handshakeFailed "Message too short for authenticated frame")
  else if bytes.length < len then .waiting
  else
    let frame := bytes.take len
    readFrame hmacSha256 json sessionKey (frame.take (len - hmacHexLen))
      (frame.drop (len - hmacHexLen)) (bytes.drop len)

/-- `read_message_authenticated`. -/
def readMessageAuthenticated : List UInt8 → ReadResult
  | b₀ :: b₁ :: b₂ :: b₃ :: bytes =>
      readBody hmacSha256 json sessionKey (decodeLength b₀ b₁ b₂ b₃) bytes
  | _ => .waiting

/-- The messages that a reader has accepted, one frame after another up to the first one that
fails or is not complete; each takes some of the bytes. -/
def acceptedFrom : Nat → List UInt8 → List WireMessage
  | 0, _ => []
  | fuel + 1, bytes =>
      match readMessageAuthenticated hmacSha256 json sessionKey bytes with
      | .message msg rest => msg :: acceptedFrom fuel rest
      | _ => []

/-- The messages accepted of all bytes that have arrived. -/
def accepted (bytes : List UInt8) : List WireMessage :=
  acceptedFrom hmacSha256 json sessionKey bytes.length bytes

end Codec

/-! ### A connection -/

/-- The ends of a connection. -/
inductive Side where
  | initiator
  | responder
deriving DecidableEq

/-- The end across. -/
def Side.other : Side → Side
  | initiator => responder
  | responder => initiator

/-- What each end has written, and the bytes that have arrived at each end. -/
structure Channel where
  written : Side → List WireMessage
  arrived : Side → List UInt8

/-- After the handshake. -/
def Channel.start : Channel := ⟨fun _ => [], fun _ => []⟩

/-- An end writes a message, or the attacker lets bytes arrive at an end. -/
inductive ChannelStep where
  | write (side : Side) (msg : WireMessage)
  | arrive (side : Side) (bytes : List UInt8)

/-- One step. -/
def channelStep (s : Channel) : ChannelStep → Channel
  | .write side msg =>
      { s with written := Function.update s.written side (s.written side ++ [msg]) }
  | .arrive side bytes =>
      { s with arrived := Function.update s.arrived side (s.arrived side ++ bytes) }

section Forgery

variable (hmacSha256 : List UInt8 → List UInt8 → List UInt8) (json : WireJson)
  (sessionKey : String)

/-- No forgery is among some bytes: wherever a text is followed by its HMAC, an end has written the
text. -/
def NoForgery (written : Side → List WireMessage) (bytes : List UInt8) : Prop :=
  ∀ before jsonBytes behind,
    bytes = before ++ (jsonBytes ++ asBytes (hmacSign hmacSha256 sessionKey jsonBytes)) ++ behind →
      ∃ side, ∃ msg ∈ written side, json.toVec msg = jsonBytes

/-- The attacker, who does not know the session key, brings no forgery. -/
def Unforgeable (s : Channel) : ChannelStep → Prop
  | .arrive side bytes =>
      NoForgery hmacSha256 json sessionKey s.written (s.arrived side ++ bytes)
  | .write .. => True

/-- What has arrived at an end are the first frames that the end across wrote, and behind them
nothing that is accepted. -/
def InOrder (s : Channel) (side : Side) : Prop :=
  ∃ front tail, front <+: s.written side.other ∧
    s.arrived side =
      front.flatMap (writeMessageAuthenticated hmacSha256 json sessionKey) ++ tail ∧
    ∀ msg rest, readMessageAuthenticated hmacSha256 json sessionKey tail ≠ .message msg rest

end Forgery

/-! ### Reading -/

section Reading

variable {hmacSha256 : List UInt8 → List UInt8 → List UInt8} {json : WireJson}
  {sessionKey : String}

theorem toByteArray_asBytes (text : String) : (asBytes text).toByteArray = text.toByteArray := by
  apply ByteArray.ext
  simp [asBytes, List.data_toByteArray]

theorem fromUTF8?_asBytes (text : String) :
    String.fromUTF8? (asBytes text).toByteArray = some text := by
  rw [toByteArray_asBytes, String.fromUTF8?, dif_pos text.isValidUTF8]
  rfl

theorem asBytes_of_fromUTF8? {bytes : List UInt8} {text : String}
    (h : String.fromUTF8? bytes.toByteArray = some text) : asBytes text = bytes := by
  unfold String.fromUTF8? at h
  split at h
  · cases h
    simp [asBytes, String.fromUTF8, List.data_toByteArray]
  · cases h

/-- A frame is accepted exactly if its end is the HMAC of its body and the body is a message. -/
theorem readFrame_eq_message_iff {jsonBytes macBytes rest rest' : List UInt8} {msg : WireMessage} :
    readFrame hmacSha256 json sessionKey jsonBytes macBytes rest = .message msg rest' ↔
      macBytes = asBytes (hmacSign hmacSha256 sessionKey jsonBytes) ∧
        json.fromSlice jsonBytes = .ok msg ∧ rest = rest' := by
  constructor
  · intro h
    unfold readFrame at h
    split at h
    · cases h
    · rename_i receivedMac hmac
      split at h
      · cases h
      · rename_i hverified
        split at h
        · cases h
        · rename_i msg' hmsg
          cases h
          simp only [Bool.not_eq_true, Bool.not_eq_false', hmacVerify_iff] at hverified
          rw [← asBytes_of_fromUTF8? hmac, hverified]
          exact ⟨rfl, hmsg, rfl⟩
  · rintro ⟨rfl, hmsg, rfl⟩
    have hverified : hmacVerify hmacSha256 sessionKey jsonBytes
        (hmacSign hmacSha256 sessionKey jsonBytes) = true := hmacVerify_iff.mpr rfl
    simp [readFrame, fromUTF8?_asBytes, hverified, hmsg]

theorem readBody_message {len : Nat} {bytes rest : List UInt8} {msg : WireMessage}
    (h : readBody hmacSha256 json sessionKey len bytes = .message msg rest) :
    ∃ jsonBytes, json.fromSlice jsonBytes = .ok msg ∧
      bytes.take len = jsonBytes ++ asBytes (hmacSign hmacSha256 sessionKey jsonBytes) ∧
      bytes.drop len = rest := by
  unfold readBody at h
  split at h
  · cases h
  · split at h
    · cases h
    · split at h
      · cases h
      · obtain ⟨hmac, hmsg, hrest⟩ := readFrame_eq_message_iff.mp h
        refine ⟨_, hmsg, ?_, hrest⟩
        rw [← hmac, List.take_append_drop]

/-- What an accepted frame is made of. -/
theorem readMessageAuthenticated_message {bytes rest : List UInt8} {msg : WireMessage}
    (h : readMessageAuthenticated hmacSha256 json sessionKey bytes = .message msg rest) :
    ∃ header jsonBytes, header.length = 4 ∧ json.fromSlice jsonBytes = .ok msg ∧
      bytes = header ++ (jsonBytes ++ asBytes (hmacSign hmacSha256 sessionKey jsonBytes)) ++
        rest := by
  unfold readMessageAuthenticated at h
  split at h
  · rename_i b₀ b₁ b₂ b₃ body
    obtain ⟨jsonBytes, hmsg, hframe, hrest⟩ := readBody_message h
    refine ⟨[b₀, b₁, b₂, b₃], jsonBytes, rfl, hmsg, ?_⟩
    rw [← hframe, ← hrest, List.append_assoc, List.take_append_drop]
    rfl
  · cases h

theorem rest_length_lt {bytes rest : List UInt8} {msg : WireMessage}
    (h : readMessageAuthenticated hmacSha256 json sessionKey bytes = .message msg rest) :
    rest.length < bytes.length := by
  obtain ⟨header, jsonBytes, hheader, -, rfl⟩ := readMessageAuthenticated_message h
  simp only [List.length_append, hheader]
  omega

/-- The bytes that have arrived are fuel enough. -/
theorem acceptedFrom_eq {fuel : Nat} {bytes : List UInt8} (hfuel : bytes.length ≤ fuel) :
    acceptedFrom hmacSha256 json sessionKey fuel bytes =
      accepted hmacSha256 json sessionKey bytes := by
  suffices ∀ n m (bytes : List UInt8), bytes.length ≤ n → bytes.length ≤ m →
      acceptedFrom hmacSha256 json sessionKey n bytes =
        acceptedFrom hmacSha256 json sessionKey m bytes from
    this fuel bytes.length bytes hfuel (Nat.le_refl _)
  intro n
  induction n with
  | zero =>
      intro m bytes hn _
      obtain rfl : bytes = [] := List.length_eq_zero_iff.mp (by omega)
      cases m with
      | zero => rfl
      | succ m => rfl
  | succ n ih =>
      intro m bytes hn hm
      cases m with
      | zero =>
          obtain rfl : bytes = [] := List.length_eq_zero_iff.mp (by omega)
          rfl
      | succ m =>
          rw [acceptedFrom, acceptedFrom]
          cases hread : readMessageAuthenticated hmacSha256 json sessionKey bytes with
          | waiting => rfl
          | failed e => rfl
          | message msg rest =>
              have hshort := rest_length_lt hread
              simp only [ih m rest (by omega) (by omega)]

theorem accepted_of_message {bytes rest : List UInt8} {msg : WireMessage}
    (h : readMessageAuthenticated hmacSha256 json sessionKey bytes = .message msg rest) :
    accepted hmacSha256 json sessionKey bytes =
      msg :: accepted hmacSha256 json sessionKey rest := by
  have hshort := rest_length_lt h
  obtain ⟨n, hn⟩ : ∃ n, bytes.length = n + 1 := ⟨bytes.length - 1, by omega⟩
  rw [accepted, hn, acceptedFrom, h]
  simp only [acceptedFrom_eq (show rest.length ≤ n by omega)]

theorem accepted_of_not_message {bytes : List UInt8} (h : ∀ msg rest,
    readMessageAuthenticated hmacSha256 json sessionKey bytes ≠ .message msg rest) :
    accepted hmacSha256 json sessionKey bytes = [] := by
  cases hlen : bytes.length with
  | zero => rw [accepted, hlen, acceptedFrom]
  | succ n =>
      rw [accepted, hlen, acceptedFrom]
      split
      · rename_i msg rest hread
        exact absurd hread (h msg rest)
      · rfl

/-- What is accepted stands among the bytes, signed. -/
theorem accepted_signed {bytes : List UInt8} {msg : WireMessage}
    (h : msg ∈ accepted hmacSha256 json sessionKey bytes) :
    ∃ before jsonBytes behind, json.fromSlice jsonBytes = .ok msg ∧
      bytes = before ++ (jsonBytes ++ asBytes (hmacSign hmacSha256 sessionKey jsonBytes)) ++
        behind := by
  induction hlen : bytes.length using Nat.strong_induction_on generalizing bytes with
  | _ n ih =>
      cases hread : readMessageAuthenticated hmacSha256 json sessionKey bytes with
      | message msg' rest =>
          rw [accepted_of_message hread] at h
          obtain ⟨header, jsonBytes, -, hmsg, hbytes⟩ := readMessageAuthenticated_message hread
          rcases List.mem_cons.mp h with rfl | h
          · exact ⟨header, jsonBytes, rest, hmsg, hbytes⟩
          · obtain ⟨before, jsonBytes', behind, hmsg', rfl⟩ :=
              ih rest.length (hlen ▸ rest_length_lt hread) h rfl
            refine ⟨header ++ (jsonBytes ++ asBytes (hmacSign hmacSha256 sessionKey jsonBytes)) ++
              before, jsonBytes', behind, hmsg', ?_⟩
            rw [hbytes]
            simp only [List.append_assoc]
      | waiting =>
          rw [accepted_of_not_message (by simp [hread])] at h
          exact absurd h List.not_mem_nil
      | failed e =>
          rw [accepted_of_not_message (by simp [hread])] at h
          exact absurd h List.not_mem_nil

/-! ### Frames that were written -/

theorem decodeLength_toBeBytes (n : Nat) :
    decodeLength (.ofNat (n / 2 ^ 24)) (.ofNat (n / 2 ^ 16)) (.ofNat (n / 2 ^ 8)) (.ofNat n) =
      n % 2 ^ 32 := by
  simp only [decodeLength, UInt8.toNat_ofNat']
  omega

/-- The reader sees the length that was written, up to the width of the field. -/
theorem read_toBeBytes (n : Nat) (bytes : List UInt8) :
    readMessageAuthenticated hmacSha256 json sessionKey (toBeBytes n ++ bytes) =
      readBody hmacSha256 json sessionKey (n % 2 ^ 32) bytes := by
  rw [← decodeLength_toBeBytes n]
  rfl

variable (hmacSha256 json sessionKey) in
/-- The texts that are signed are those of messages of `messages`. -/
def SignedOnly (messages : List WireMessage) (bytes : List UInt8) : Prop :=
  ∀ before jsonBytes behind,
    bytes = before ++ (jsonBytes ++ asBytes (hmacSign hmacSha256 sessionKey jsonBytes)) ++ behind →
      ∃ msg ∈ messages, json.toVec msg = jsonBytes

theorem SignedOnly.suffix {messages : List WireMessage} {front bytes : List UInt8}
    (h : SignedOnly hmacSha256 json sessionKey messages (front ++ bytes)) :
    SignedOnly hmacSha256 json sessionKey messages bytes := by
  intro before jsonBytes behind hbytes
  apply h (front ++ before) jsonBytes behind
  rw [hbytes]
  simp only [List.append_assoc]

section Written

variable {messages : List WireMessage}
  (hroundTrip : ∀ msg ∈ messages, json.fromSlice (json.toVec msg) = .ok msg)
  (hprefixFree : ∀ msg ∈ messages, ∀ msg' ∈ messages,
    json.toVec msg <+: json.toVec msg' → json.toVec msg = json.toVec msg')
  (hdigest : ∀ key data, (hmacSha256 key data).length = 32)
include hroundTrip

/-- A message that is accepted is one of those whose text was signed. -/
theorem mem_messages_of_accepted {bytes : List UInt8} {msg : WireMessage}
    (hsigned : SignedOnly hmacSha256 json sessionKey messages bytes)
    (h : msg ∈ accepted hmacSha256 json sessionKey bytes) : msg ∈ messages := by
  obtain ⟨before, jsonBytes, behind, hmsg, hbytes⟩ := accepted_signed h
  obtain ⟨msg', hmem, rfl⟩ := hsigned before jsonBytes behind hbytes
  rw [hroundTrip msg' hmem] at hmsg
  cases hmsg
  exact hmem

/-- A frame whose length fits its field. -/
theorem readBody_written {msg : WireMessage} (hmem : msg ∈ messages) {tail : List UInt8}
    (hmac : (asBytes (hmacSign hmacSha256 sessionKey (json.toVec msg))).length = hmacHexLen) :
    (readBody hmacSha256 json sessionKey ((json.toVec msg).length + hmacHexLen)
        (json.toVec msg ++ asBytes (hmacSign hmacSha256 sessionKey (json.toVec msg)) ++ tail) =
          .message msg tail) ∨
      ∀ msg' rest, readBody hmacSha256 json sessionKey ((json.toVec msg).length + hmacHexLen)
        (json.toVec msg ++ asBytes (hmacSign hmacSha256 sessionKey (json.toVec msg)) ++ tail) ≠
          .message msg' rest := by
  unfold readBody
  split
  · exact .inr fun _ _ h => by cases h
  · split
    · exact .inr fun _ _ h => by cases h
    · split
      · exact .inr fun _ _ h => by cases h
      · have hlen : (json.toVec msg ++
            asBytes (hmacSign hmacSha256 sessionKey (json.toVec msg))).length =
              (json.toVec msg).length + hmacHexLen := by
          rw [List.length_append, hmac]
        refine .inl (readFrame_eq_message_iff.mpr ?_)
        rw [← hlen, List.take_left, List.drop_left, hlen, Nat.add_sub_cancel, List.take_left,
          List.drop_left]
        exact ⟨rfl, hroundTrip msg hmem, rfl⟩

include hprefixFree hdigest

/-- A frame that was written is read as the message, or as none: a length that does not fit its
field ends the frame within the text, where no signed text ends. -/
theorem read_written {msg : WireMessage} (hmem : msg ∈ messages) {tail : List UInt8}
    (hsigned : SignedOnly hmacSha256 json sessionKey messages
      (writeMessageAuthenticated hmacSha256 json sessionKey msg ++ tail)) :
    readMessageAuthenticated hmacSha256 json sessionKey
        (writeMessageAuthenticated hmacSha256 json sessionKey msg ++ tail) = .message msg tail ∨
      ∀ msg' rest, readMessageAuthenticated hmacSha256 json sessionKey
        (writeMessageAuthenticated hmacSha256 json sessionKey msg ++ tail) ≠ .message msg' rest := by
  have hmac : ∀ data, (asBytes (hmacSign hmacSha256 sessionKey data)).length = hmacHexLen := by
    intro data
    rw [hmacSign, length_asBytes_hexEncode, hdigest]
    rfl
  have hread : readMessageAuthenticated hmacSha256 json sessionKey
      (writeMessageAuthenticated hmacSha256 json sessionKey msg ++ tail) =
        readBody hmacSha256 json sessionKey (((json.toVec msg).length + hmacHexLen) % 2 ^ 32)
          (json.toVec msg ++ asBytes (hmacSign hmacSha256 sessionKey (json.toVec msg)) ++ tail) := by
    rw [writeMessageAuthenticated, List.append_assoc, read_toBeBytes, hmac]
  rw [hread]
  rcases Nat.lt_or_ge ((json.toVec msg).length + hmacHexLen) (2 ^ 32) with hfits | hwide
  · rw [Nat.mod_eq_of_lt hfits]
    exact readBody_written hroundTrip hmem (hmac _)
  · right
    intro msg' rest h
    obtain ⟨jsonBytes, -, hframe, hrest⟩ := readBody_message h
    set len := ((json.toVec msg).length + hmacHexLen) % 2 ^ 32 with hlen
    have hshort : len < (json.toVec msg).length + hmacHexLen :=
      (Nat.mod_lt _ (by decide)).trans_le hwide
    -- the text that is verified is one that was signed
    obtain ⟨msg'', hmem'', rfl⟩ := hsigned
      (toBeBytes ((json.toVec msg).length + hmacHexLen)) jsonBytes rest (by
        rw [← hframe, ← hrest, List.append_assoc, List.take_append_drop,
          writeMessageAuthenticated, hmac, List.append_assoc])
    have hlength := congrArg List.length hframe
    simp only [List.length_take, List.length_append, hmac] at hlength
    -- and it stands at the start of the text that was written
    have hprefix : json.toVec msg'' <+: json.toVec msg := by
      have hall : json.toVec msg'' <+:
          json.toVec msg ++ asBytes (hmacSign hmacSha256 sessionKey (json.toVec msg)) ++ tail :=
        (List.prefix_append _ _).trans (hframe ▸ List.take_prefix _ _)
      rw [List.append_assoc] at hall
      exact List.prefix_of_prefix_length_le hall (List.prefix_append _ _) (by omega)
    have hsame := congrArg List.length (hprefixFree msg'' hmem'' msg hmem hprefix)
    omega

/-- Of frames that were written one behind the other, the first messages are accepted. -/
theorem accepted_written {front : List WireMessage} (hfront : ∀ msg ∈ front, msg ∈ messages)
    {tail : List UInt8}
    (htail : ∀ msg rest, readMessageAuthenticated hmacSha256 json sessionKey tail ≠
      .message msg rest)
    (hsigned : SignedOnly hmacSha256 json sessionKey messages
      (front.flatMap (writeMessageAuthenticated hmacSha256 json sessionKey) ++ tail)) :
    accepted hmacSha256 json sessionKey
      (front.flatMap (writeMessageAuthenticated hmacSha256 json sessionKey) ++ tail) <+: front := by
  induction front with
  | nil =>
      have hnone := accepted_of_not_message htail
      simp [hnone]
  | cons msg front ih =>
      obtain ⟨hmem, hfront⟩ := List.forall_mem_cons.mp hfront
      rw [List.flatMap_cons, List.append_assoc] at hsigned ⊢
      rcases read_written hroundTrip hprefixFree hdigest hmem hsigned with hread | hnone
      · rw [accepted_of_message hread]
        exact List.cons_prefix_cons.mpr ⟨rfl, ih hfront hsigned.suffix⟩
      · rw [accepted_of_not_message hnone]
        exact List.nil_prefix

end Written

end Reading

/-! ### Runs of a connection -/

section Runs

variable {hmacSha256 : List UInt8 → List UInt8 → List UInt8} {json : WireJson}
  {sessionKey : String}

/-- The messages of both ends. -/
def Channel.messages (s : Channel) : List WireMessage :=
  s.written .initiator ++ s.written .responder

theorem Channel.mem_messages {s : Channel} {msg : WireMessage} :
    msg ∈ s.messages ↔ ∃ side, msg ∈ s.written side := by
  rw [messages, List.mem_append]
  constructor
  · rintro (h | h)
    · exact ⟨_, h⟩
    · exact ⟨_, h⟩
  · rintro ⟨side, h⟩
    cases side with
    | initiator => exact .inl h
    | responder => exact .inr h

variable (hmacSha256 json sessionKey) in
/-- The invariant: what was written are messages of the run, and no forgery has arrived. -/
structure Sound (steps : List ChannelStep) (s : Channel) : Prop where
  written : ∀ side, ∀ msg ∈ s.written side, ChannelStep.write side msg ∈ steps
  arrived : ∀ side, NoForgery hmacSha256 json sessionKey s.written (s.arrived side)

theorem sound_channelStep {steps : List ChannelStep} (s : Channel) (step : ChannelStep)
    (h : Sound hmacSha256 json sessionKey steps s)
    (hstep : Unforgeable hmacSha256 json sessionKey s step ∧ step ∈ steps) :
    Sound hmacSha256 json sessionKey steps (channelStep s step) := by
  obtain ⟨hunforged, hmem⟩ := hstep
  cases step with
  | write side msg =>
      have hgrown : ∀ side', ∀ msg' ∈ s.written side',
          msg' ∈ (channelStep s (.write side msg)).written side' := by
        intro side' msg' h'
        by_cases hself : side' = side
        · subst hself
          simp [channelStep, h']
        · simpa [channelStep, hself] using h'
      constructor
      · intro side' msg' h'
        by_cases hself : side' = side
        · subst hself
          simp only [channelStep, Function.update_self, List.mem_append, List.mem_singleton] at h'
          rcases h' with h' | rfl
          · exact h.written side' msg' h'
          · exact hmem
        · simp only [channelStep, Function.update_of_ne hself] at h'
          exact h.written side' msg' h'
      · intro side' before jsonBytes behind hbytes
        obtain ⟨writer, msg', h', htext⟩ := h.arrived side' before jsonBytes behind hbytes
        exact ⟨writer, msg', hgrown writer msg' h', htext⟩
  | arrive side bytes =>
      refine ⟨h.written, fun side' => ?_⟩
      by_cases hself : side' = side
      · subst hself
        simp only [channelStep, Function.update_self]
        exact hunforged
      · simp only [channelStep, Function.update_of_ne hself]
        exact h.arrived side'

/-- **Authenticated frames.** The session key is known to the two ends only, who write any messages
in any order, and an attacker lets arrive at each end what he likes. Every message that an end
accepts was written before, unaltered, by one of the two ends; and an end at which the first
frames of the end across have arrived in order, and behind them nothing that is accepted, has
accepted the first of its messages. -/
theorem accepted_frames (hmacSha256 : List UInt8 → List UInt8 → List UInt8) (json : WireJson)
    (sessionKey : String) (steps : List ChannelStep)
    (hdigest : ∀ key data, (hmacSha256 key data).length = 32)
    (hroundTrip : ∀ side msg, ChannelStep.write side msg ∈ steps →
      json.fromSlice (json.toVec msg) = .ok msg)
    (hprefixFree : ∀ side msg side' msg', ChannelStep.write side msg ∈ steps →
      ChannelStep.write side' msg' ∈ steps → json.toVec msg <+: json.toVec msg' →
        json.toVec msg = json.toVec msg')
    (hunforgeable : Guarded channelStep (Unforgeable hmacSha256 json sessionKey) .start steps) :
    ∀ s ∈ passed channelStep .start steps, ∀ side,
      (∀ msg ∈ accepted hmacSha256 json sessionKey (s.arrived side),
        ∃ writer, msg ∈ s.written writer) ∧
      (InOrder hmacSha256 json sessionKey s side →
        accepted hmacSha256 json sessionKey (s.arrived side) <+: s.written side.other) := by
  have hinit : Sound hmacSha256 json sessionKey steps .start := by
    constructor
    · intro side msg hmem
      exact absurd hmem List.not_mem_nil
    · intro side before jsonBytes behind hbytes
      have hlength := congrArg List.length hbytes
      simp only [List.length_append, hmacSign, length_asBytes_hexEncode, hdigest] at hlength
      have hnothing : (Channel.start.arrived side).length = 0 := rfl
      omega
  intro s hs side
  have hsound : Sound hmacSha256 json sessionKey steps s :=
    passed_invariant sound_channelStep hinit (hunforgeable.and_forall_mem fun _ h => h) s hs
  have hsigned : SignedOnly hmacSha256 json sessionKey s.messages (s.arrived side) := by
    intro before jsonBytes behind hbytes
    obtain ⟨writer, msg, hmem, htext⟩ := hsound.arrived side before jsonBytes behind hbytes
    exact ⟨msg, Channel.mem_messages.mpr ⟨writer, hmem⟩, htext⟩
  have hmessages : ∀ msg ∈ s.messages, ∃ writer, ChannelStep.write writer msg ∈ steps := by
    intro msg hmem
    obtain ⟨writer, hmem⟩ := Channel.mem_messages.mp hmem
    exact ⟨writer, hsound.written writer msg hmem⟩
  have hround : ∀ msg ∈ s.messages, json.fromSlice (json.toVec msg) = .ok msg := by
    intro msg hmem
    obtain ⟨writer, hwrite⟩ := hmessages msg hmem
    exact hroundTrip writer msg hwrite
  constructor
  · intro msg hmem
    exact Channel.mem_messages.mp (mem_messages_of_accepted hround hsigned hmem)
  · rintro ⟨front, tail, hfront, harrived, htail⟩
    rw [harrived] at hsigned ⊢
    refine (accepted_written hround ?_ hdigest ?_ htail hsigned).trans hfront
    · intro msg hmem msg' hmem'
      obtain ⟨writer, hwrite⟩ := hmessages msg hmem
      obtain ⟨writer', hwrite'⟩ := hmessages msg' hmem'
      exact hprefixFree writer msg writer' msg' hwrite hwrite'
    · intro msg hmem
      exact Channel.mem_messages.mpr ⟨side.other, hfront.subset hmem⟩

/-! ### A frame that arrives twice -/

/-- A ping, its JSON text, a session key, and HMAC-SHA256 of two such texts under the key. -/
def ping (id : String) : WireMessage := ⟨id, .request .ping⟩

@[inherit_doc ping] def pingText (id : String) : List UInt8 :=
  asBytes ("\x7b\"id\":\"" ++ id ++ "\",\"type\":\"request\",\"method\":\"ping\"\x7d")

@[inherit_doc ping] def pingKey : String :=
  "9fe978c942f158b0877ba3cc8c51ab2c15d55581f43fe06840a7ed85860ea35d"

@[inherit_doc ping] def pingHmac (key data : List UInt8) : List UInt8 :=
  if key = asBytes pingKey ∧ data = pingText "m3" then
    [21, 73, 143, 252, 2, 186, 110, 23, 11, 64, 200, 253, 158, 228, 116, 250,
      138, 232, 60, 243, 150, 69, 217, 53, 228, 138, 172, 187, 174, 12, 147, 192]
  else if key = asBytes pingKey ∧ data = pingText "m4" then
    [217, 207, 52, 56, 46, 135, 232, 44, 5, 0, 148, 199, 168, 121, 83, 246,
      133, 76, 250, 59, 120, 176, 109, 95, 113, 33, 66, 98, 129, 153, 124, 77]
  else List.replicate 32 0

@[inherit_doc ping] def pingJson : WireJson where
  toVec msg := pingText msg.id
  fromSlice bytes :=
    match ["m3", "m4"].find? fun id => pingText id = bytes with
    | some id => .ok (ping id)
    | none => .error "expected value"

@[inherit_doc ping] def pingFrame (id : String) : List UInt8 :=
  writeMessageAuthenticated pingHmac pingJson pingKey (ping id)

/-- A frame of an attacker, who cannot sign its text. -/
def forgedFrame : List UInt8 :=
  writeMessageAuthenticated (fun _ _ => List.replicate 32 255) pingJson pingKey (ping "m5")

/-- Two pings are written, and then bytes arrive across. -/
def pingSteps (arrivals : List (List UInt8)) : List ChannelStep :=
  [.write .initiator (ping "m3"), .write .initiator (ping "m4")] ++
    arrivals.map (.arrive .responder)

theorem length_pingHmac (key data : List UInt8) : (pingHmac key data).length = 32 := by
  unfold pingHmac
  split
  · rfl
  · split <;> rfl

theorem mem_pingSteps {arrivals : List (List UInt8)} {side : Side} {msg : WireMessage}
    (h : ChannelStep.write side msg ∈ pingSteps arrivals) : msg ∈ [ping "m3", ping "m4"] := by
  simp only [pingSteps, List.mem_append, List.mem_map, reduceCtorEq, and_false, exists_false,
    or_false, List.mem_cons, List.not_mem_nil, ChannelStep.write.injEq] at h
  rcases h with ⟨-, rfl⟩ | ⟨-, rfl⟩ <;> simp

theorem roundTrip_pingJson {arrivals : List (List UInt8)} (side : Side) (msg : WireMessage)
    (hmem : ChannelStep.write side msg ∈ pingSteps arrivals) :
    pingJson.fromSlice (pingJson.toVec msg) = .ok msg := by
  have hall : ∀ msg ∈ [ping "m3", ping "m4"], pingJson.fromSlice (pingJson.toVec msg) = .ok msg := by
    decide +kernel
  exact hall msg (mem_pingSteps hmem)

theorem prefixFree_pingJson {arrivals : List (List UInt8)} (side : Side) (msg : WireMessage)
    (side' : Side) (msg' : WireMessage) (hmem : ChannelStep.write side msg ∈ pingSteps arrivals)
    (hmem' : ChannelStep.write side' msg' ∈ pingSteps arrivals)
    (hstart : pingJson.toVec msg <+: pingJson.toVec msg') :
    pingJson.toVec msg = pingJson.toVec msg' := by
  have hall : ∀ msg ∈ [ping "m3", ping "m4"], (pingJson.toVec msg).length = 44 := by
    decide +kernel
  exact hstart.eq_of_length
    ((hall msg (mem_pingSteps hmem)).trans (hall msg' (mem_pingSteps hmem')).symm)

/-- Only the two pings are signed, where the digest of the other texts does not occur. -/
theorem noForgery_of_not_infix {written : Side → List WireMessage}
    (hwritten : written .initiator = [ping "m3", ping "m4"]) {bytes : List UInt8}
    (h : ¬ asBytes (hexEncode (List.replicate 32 0)) <:+: bytes) :
    NoForgery pingHmac pingJson pingKey written bytes := by
  intro before jsonBytes behind hbytes
  by_cases hfirst : jsonBytes = pingText "m3"
  · exact ⟨.initiator, ping "m3", by simp [hwritten], hfirst.symm⟩
  · by_cases hsecond : jsonBytes = pingText "m4"
    · exact ⟨.initiator, ping "m4", by simp [hwritten], hsecond.symm⟩
    · refine absurd ⟨before ++ jsonBytes, behind, ?_⟩ h
      rw [hbytes, hmacSign, pingHmac, if_neg fun hsame => hfirst hsame.2,
        if_neg fun hsame => hsecond hsame.2]
      simp only [List.append_assoc]

/-- The initiator writes two pings, and the frame of one arrives at the responder twice. -/
theorem repeated_frame_is_accepted :
    ¬ ∀ (hmacSha256 : List UInt8 → List UInt8 → List UInt8) (json : WireJson)
      (sessionKey : String) (steps : List ChannelStep),
      (∀ key data, (hmacSha256 key data).length = 32) →
      (∀ side msg, ChannelStep.write side msg ∈ steps →
        json.fromSlice (json.toVec msg) = .ok msg) →
      (∀ side msg side' msg', ChannelStep.write side msg ∈ steps →
        ChannelStep.write side' msg' ∈ steps → json.toVec msg <+: json.toVec msg' →
          json.toVec msg = json.toVec msg') →
      Guarded channelStep (Unforgeable hmacSha256 json sessionKey) .start steps →
      ∀ s ∈ passed channelStep .start steps, ∀ side,
        accepted hmacSha256 json sessionKey (s.arrived side) <+: s.written side.other := by
  intro h
  have hprefix := h pingHmac pingJson pingKey (pingSteps [pingFrame "m3" ++ pingFrame "m3"])
    length_pingHmac roundTrip_pingJson prefixFree_pingJson
    ⟨trivial, trivial, noForgery_of_not_infix rfl (by decide +kernel), trivial⟩
  have hrepeated := hprefix _ (mem_passed.mpr ⟨_, List.prefix_rfl, rfl⟩) .responder
  revert hrepeated
  decide +kernel

/-- Two pings arrive in two pieces, with a frame of an attacker behind them. -/
theorem accepted_frames_pings :
    accepted pingHmac pingJson pingKey (pingFrame "m3" ++ (pingFrame "m4" ++ forgedFrame)) <+:
      [ping "m3", ping "m4"] := by
  have hframes := accepted_frames pingHmac pingJson pingKey
    (pingSteps [pingFrame "m3", pingFrame "m4" ++ forgedFrame]) length_pingHmac
    roundTrip_pingJson prefixFree_pingJson
    ⟨trivial, trivial, noForgery_of_not_infix rfl (by decide +kernel),
      noForgery_of_not_infix rfl (by decide +kernel), trivial⟩
    _ (mem_passed.mpr ⟨_, List.prefix_rfl, rfl⟩) .responder
  have hforged : acceptedFrom pingHmac pingJson pingKey 1 forgedFrame = [] := by decide +kernel
  exact hframes.2 ⟨[ping "m3", ping "m4"], forgedFrame, List.prefix_rfl, by decide +kernel,
    fun _ _ hread => by
      rw [acceptedFrom, hread] at hforged
      cases hforged⟩

end Runs

end ArmaraOS.Wire
