import ArmaraOS.Lib.Fields
import ArmaraOS.Wire.Frames

/-!
The session tokens of the dashboard (`openfang-api/src/session_auth.rs`).

A token holds a username, an expiry and a signature of the two, joined by colons. The name is not
escaped and the reader cuts from the left, so a name with a colon in it is read as a shorter name
with another expiry. Such a token authenticates nobody; no re-cut of it passes for a token of
another user either, since what is signed for a name without a colon has one colon only.
-/

namespace ArmaraOS.Security

open ArmaraOS.Lib ArmaraOS.Wire

/-- `base64::engine::general_purpose::STANDARD`. -/
structure Base64 where
  encode : List UInt8 → String
  decode : String → Option (List UInt8)
  decode_encode : ∀ bytes, decode (encode bytes) = some bytes

/-- `payload`, for the text of an expiry. -/
def sessionPayload (username expiry : String) : String := username ++ ":" ++ expiry

/-- `expiry`, the end of a token's time. -/
def sessionExpiry (ttlHours : Nat) (now : Int) : Int := now + ttlHours * 3600

section Tokens

variable (base64 : Base64) (hmacSha256 : List UInt8 → List UInt8 → List UInt8)

/-- `signature` and `expected_sig`. -/
def sessionSignature (secret payload : String) : String :=
  hexEncode (hmacSha256 (asBytes secret) (asBytes payload))

/-- The text of a token. -/
def sessionText (secret payload : String) : String :=
  payload ++ ":" ++ sessionSignature hmacSha256 secret payload

/-- `create_session_token`. -/
def createSessionToken (username secret : String) (ttlHours : Nat) (now : Int) : String :=
  let expiry := sessionExpiry ttlHours now
  let payload := sessionPayload username (String.ofList (formatInt expiry))
  base64.encode (asBytes (sessionText hmacSha256 secret payload))

/-- `verify_session_token`. -/
def verifySessionToken (token secret : String) (now : Int) : Option String :=
  match base64.decode token with
  | none => none
  | some decoded =>
      match String.fromUTF8? decoded.toByteArray with
      | none => none
      | some decodedStr =>
          match splitn ':' 3 decodedStr.toList with
          | [username, expiryStr, providedSig] =>
              match parseI64 expiryStr with
              | none => none
              | some expiry =>
                  if expiry < now then none
                  else
                    let payload := sessionPayload (String.ofList username) (String.ofList expiryStr)
                    let expectedSig := asBytes (sessionSignature hmacSha256 secret payload)
                    let provided := asBytes (String.ofList providedSig)
                    if provided.length ≠ expectedSig.length then none
                    else if provided = expectedSig then some (String.ofList username)
                    else none
          | _ => none

/-! ### What a token stands for -/

/-- A call of `create_session_token`. -/
structure SessionCreated where
  username : String
  ttlHours : Nat
  now : Int

/-- The expiry of the token that a call made. -/
def SessionCreated.expiry (c : SessionCreated) : Int := sessionExpiry c.ttlHours c.now

/-- What a call signed. -/
def SessionCreated.payload (c : SessionCreated) : String :=
  sessionPayload c.username (String.ofList (formatInt c.expiry))

/-- Nobody who does not know the secret signs: a token that carries the signature of a payload
carries one that a call made. -/
def SessionUnforged (secret : String) (created : List SessionCreated) (token : String) : Prop :=
  ∀ payload, base64.decode token = some (asBytes (sessionText hmacSha256 secret payload)) →
    ∃ c ∈ created, c.payload = payload

/-- A token authenticates its user until it expires. -/
def TokenAccepted (username secret : String) (ttlHours : Nat) (now : Int) : Prop :=
  ∀ time, verifySessionToken base64 hmacSha256
      (createSessionToken base64 hmacSha256 username secret ttlHours now) secret time =
    if time ≤ sessionExpiry ttlHours now then some username else none

/-- Whoever is authenticated was given a token that has not expired. -/
def TokenAttested (secret : String) : Prop :=
  ∀ created token time username, SessionUnforged base64 hmacSha256 secret created token →
    verifySessionToken base64 hmacSha256 token secret time = some username →
      ∃ c ∈ created, c.username = username ∧ time ≤ c.expiry

end Tokens

section Reading

variable {base64 : Base64} {hmacSha256 : List UInt8 → List UInt8 → List UInt8}

theorem colon_notMem_hexEncode (bytes : List UInt8) : ':' ∉ (hexEncode bytes).toList :=
  notMem_hexEncode (by decide) bytes

theorem colon_notMem_formatInt (n : Int) : ':' ∉ formatInt n :=
  notMem_formatInt (by decide) (by decide) n

/-- The three fields of a token's text. -/
theorem toList_sessionText (secret username expiry : String) :
    (sessionText hmacSha256 secret (sessionPayload username expiry)).toList =
      username.toList ++ ':' :: (expiry.toList ++ ':' ::
        (sessionSignature hmacSha256 secret (sessionPayload username expiry)).toList) := by
  simp [sessionText, sessionPayload]

/-- A token is accepted exactly if it is the text of a name and an expiry without colons, with
their signature, and the expiry has not passed. -/
theorem verifySessionToken_eq_some_iff {token secret username : String} {time : Int} :
    verifySessionToken base64 hmacSha256 token secret time = some username ↔
      ∃ expiryStr expiry,
        base64.decode token =
          some (asBytes (sessionText hmacSha256 secret (sessionPayload username expiryStr))) ∧
        ':' ∉ username.toList ∧ ':' ∉ expiryStr.toList ∧
        parseI64 expiryStr.toList = some expiry ∧ time ≤ expiry := by
  constructor
  · intro h
    unfold verifySessionToken at h
    split at h
    · cases h
    next decoded hdecoded =>
    split at h
    · cases h
    next decodedStr hstr =>
    split at h
    next name expiryStr providedSig hfields =>
      split at h
      · cases h
      next expiry hexpiry =>
      split at h
      · cases h
      next htime =>
      dsimp only at h
      split at h
      · cases h
      split at h
      next hsig =>
        obtain ⟨hcut, hname, hcolon⟩ := splitn_three_iff.mp hfields
        obtain rfl : String.ofList name = username := Option.some.inj h
        rw [asBytes_inj] at hsig
        refine ⟨String.ofList expiryStr, expiry, ?_, by simpa using hname, by simpa using hcolon,
          by simpa using hexpiry, Int.not_lt.mp htime⟩
        have htext : decodedStr = sessionText hmacSha256 secret
            (sessionPayload (String.ofList name) (String.ofList expiryStr)) := by
          apply String.toList_injective
          rw [hcut, toList_sessionText, ← hsig]
          simp
        rw [hdecoded, ← htext, asBytes_of_fromUTF8? hstr]
      · cases h
    · cases h
  · rintro ⟨expiryStr, expiry, hdecode, hname, hcolon, hexpiry, htime⟩
    have hfields := splitn_three_iff.mpr
      ⟨@toList_sessionText hmacSha256 secret username expiryStr, hname, hcolon⟩
    unfold verifySessionToken
    simp [hdecode, fromUTF8?_asBytes, hfields, hexpiry, Int.not_lt.mpr htime]

/-- A payload determines its name and its expiry where the expiries hold no colon. -/
theorem sessionPayload_inj {username username' expiry expiry' : String}
    (h : ':' ∉ expiry.toList) (h' : ':' ∉ expiry'.toList)
    (heq : sessionPayload username expiry = sessionPayload username' expiry') :
    username = username' ∧ expiry = expiry' := by
  have hchars := congrArg String.toList heq
  simp only [sessionPayload, String.toList_append] at hchars
  obtain ⟨hname, hexpiry⟩ := lastField_inj h h' (by simpa using hchars)
  exact ⟨String.toList_injective hname, String.toList_injective hexpiry⟩

/-- The text of a token determines its payload. -/
theorem sessionText_inj {secret payload payload' : String}
    (heq : sessionText hmacSha256 secret payload = sessionText hmacSha256 secret payload') :
    payload = payload' := by
  have hchars := congrArg String.toList heq
  simp only [sessionText, String.toList_append] at hchars
  obtain ⟨hpayload, -⟩ := lastField_inj (colon_notMem_hexEncode _) (colon_notMem_hexEncode _)
    (by simpa [sessionSignature] using hchars)
  exact String.toList_injective hpayload

/-- A token that was made authenticates its own user only, and only if the name has no colon. -/
theorem verify_create_eq_some_iff {username secret username' : String} {ttlHours : Nat}
    {now time : Int} (hfits : FitsI64 (sessionExpiry ttlHours now)) :
    verifySessionToken base64 hmacSha256
        (createSessionToken base64 hmacSha256 username secret ttlHours now) secret time =
        some username' ↔
      username' = username ∧ ':' ∉ username.toList ∧ time ≤ sessionExpiry ttlHours now := by
  have hcolon : ':' ∉ (String.ofList (formatInt (sessionExpiry ttlHours now))).toList := by
    simpa using colon_notMem_formatInt _
  have hparse : parseI64 (formatInt (sessionExpiry ttlHours now)) =
      some (sessionExpiry ttlHours now) := by rw [parseI64_formatInt, if_pos hfits]
  rw [verifySessionToken_eq_some_iff, createSessionToken, base64.decode_encode]
  constructor
  · rintro ⟨expiryStr, expiry, hdecode, hname, hexpiryStr, hexpiry, htime⟩
    have hpayload := sessionText_inj (asBytes_injective (Option.some.inj hdecode))
    obtain ⟨rfl, rfl⟩ := sessionPayload_inj hcolon hexpiryStr hpayload
    rw [String.toList_ofList, hparse] at hexpiry
    obtain rfl := Option.some.inj hexpiry
    exact ⟨rfl, hname, htime⟩
  · rintro ⟨rfl, hname, htime⟩
    exact ⟨_, _, rfl, hname, hcolon, by rw [String.toList_ofList, hparse], htime⟩

theorem tokenAttested (secret : String) : TokenAttested base64 hmacSha256 secret := by
  intro created token time username hunforged hverify
  obtain ⟨expiryStr, expiry, hdecode, -, hcolon, hexpiry, htime⟩ :=
    verifySessionToken_eq_some_iff.mp hverify
  obtain ⟨c, hc, hpayload⟩ := hunforged _ hdecode
  obtain ⟨hname, rfl⟩ := sessionPayload_inj (by simpa using colon_notMem_formatInt _) hcolon
    hpayload
  refine ⟨c, hc, hname, ?_⟩
  rw [String.toList_ofList, parseI64_formatInt] at hexpiry
  split at hexpiry
  · rwa [← Option.some.inj hexpiry] at htime
  · cases hexpiry

end Reading

/-! ### The guarantee -/

/-- A session token authenticates exactly the user it was made for, and whoever is authenticated
was given a token: this holds exactly of names without a colon. -/
theorem session_token_iff (base64 : Base64) (hmacSha256 : List UInt8 → List UInt8 → List UInt8)
    (username secret : String) (ttlHours : Nat) (now : Int)
    (hfits : FitsI64 (sessionExpiry ttlHours now)) :
    (TokenAccepted base64 hmacSha256 username secret ttlHours now ∧
        TokenAttested base64 hmacSha256 secret) ↔
      ':' ∉ username.toList := by
  constructor
  · rintro ⟨haccepted, -⟩
    have haccept := haccepted (sessionExpiry ttlHours now)
    rw [if_pos (Int.le_refl _), verify_create_eq_some_iff hfits] at haccept
    exact haccept.2.1
  · intro hname
    refine ⟨fun time => ?_, tokenAttested secret⟩
    by_cases htime : time ≤ sessionExpiry ttlHours now
    · rw [if_pos htime, verify_create_eq_some_iff hfits]
      exact ⟨rfl, hname, htime⟩
    · rw [if_neg htime, Option.eq_none_iff_forall_ne_some]
      intro username' hverify
      exact htime ((verify_create_eq_some_iff hfits).mp hverify).2.2

/-- The tag of `"admin:1700086400"` under the key `"s3cret"`, and a stand-in for the others. -/
def sampleHmac (key data : List UInt8) : List UInt8 :=
  if data = asBytes "admin:1700086400" then
    [30, 92, 253, 210, 239, 128, 126, 165, 140, 149, 225, 97, 228, 150, 39, 13, 171, 72, 161, 187,
     89, 132, 130, 41, 74, 251, 80, 232, 217, 207, 30, 73]
  else key ++ data

/-- The text of the administrator's token. -/
def adminText : List UInt8 :=
  asBytes (sessionText sampleHmac "s3cret" (sessionPayload "admin" "1700086400"))

/-- Base64 of the administrator's token. Other bytes stand for themselves behind a `-`, which is no
character of the alphabet. -/
def sampleBase64 : Base64 where
  encode bytes :=
    if bytes = adminText then
      "YWRtaW46MTcwMDA4NjQwMDoxZTVjZmRkMmVmODA3ZWE1OGM5NWUxNjFlNDk2MjcwZGFiNDhh" ++
        "MWJiNTk4NDgyMjk0YWZiNTBlOGQ5Y2YxZTQ5"
    else String.ofList ('-' :: bytes.map fun b => Char.ofNat b.toNat)
  decode token :=
    match token.toList with
    | '-' :: cs => some (cs.map fun c => c.toNat.toUInt8)
    | _ => some adminText
  decode_encode bytes := by
    have hbyte : ∀ b : UInt8, (Char.ofNat b.toNat).toNat.toUInt8 = b := by
      intro b
      have hvalid : b.toNat.isValidChar := .inl (by have := b.toNat_lt; omega)
      have hchar : Char.ofNat b.toNat = Char.ofNatAux b.toNat hvalid := dif_pos hvalid
      have hnat : (Char.ofNatAux b.toNat hvalid).toNat = b.toNat := rfl
      rw [hchar, hnat]
      simp
    by_cases hadmin : bytes = adminText
    · rw [if_pos hadmin, hadmin]
      rfl
    · rw [if_neg hadmin]
      simp [List.map_map, Function.comp_def, hbyte]

/-- The token that was made for the administrator authenticates nobody else, and only in time. -/
theorem session_token_iff_admin :
    let token := createSessionToken sampleBase64 sampleHmac "admin" "s3cret" 24 1700000000
    verifySessionToken sampleBase64 sampleHmac token "s3cret" 1700000000 = some "admin" ∧
      ∀ time username,
        verifySessionToken sampleBase64 sampleHmac token "s3cret" time = some username →
          username = "admin" ∧ time ≤ 1700086400 := by
  obtain ⟨haccepted, hattested⟩ :=
    (session_token_iff sampleBase64 sampleHmac "admin" "s3cret" 24 1700000000 (by decide)).mpr
      (by decide)
  refine ⟨haccepted 1700000000, fun time username hverify => ?_⟩
  have hunforged : SessionUnforged sampleBase64 sampleHmac "s3cret" [⟨"admin", 24, 1700000000⟩]
      (createSessionToken sampleBase64 sampleHmac "admin" "s3cret" 24 1700000000) := by
    intro payload hdecode
    rw [createSessionToken, sampleBase64.decode_encode] at hdecode
    exact ⟨_, List.mem_singleton_self _,
      sessionText_inj (asBytes_injective (Option.some.inj hdecode))⟩
  obtain ⟨c, hc, rfl, htime⟩ := hattested _ _ _ _ hunforged hverify
  obtain rfl := List.mem_singleton.mp hc
  exact ⟨rfl, htime⟩

/-- A user whose name holds a colon is not authenticated by the token made for the name. -/
theorem colon_name_is_rejected : ¬ ∀ (base64 : Base64)
    (hmacSha256 : List UInt8 → List UInt8 → List UInt8) (username secret : String) (ttlHours : Nat)
    (now : Int), FitsI64 (sessionExpiry ttlHours now) →
      TokenAccepted base64 hmacSha256 username secret ttlHours now ∧
        TokenAttested base64 hmacSha256 secret := by
  intro h
  have hfits : FitsI64 (sessionExpiry 24 1700000000) := by decide
  have haccept := (h sampleBase64 sampleHmac "ops:admin" "s3cret" 24 1700000000 hfits).1 1700000000
  rw [if_pos (by decide), verify_create_eq_some_iff hfits] at haccept
  exact haccept.2.1 (by simp)

end ArmaraOS.Security
