import Globacl.Core.Json
import Mathlib.Data.Fintype.Fin
import Mathlib.Tactic.FinCases

/-!
# Payload signatures (`globacl-core/src/lib/rules.rs`, `signatures.rs`)

A signature is a JSON object with the algorithm, the id and the version of the key, and the bytes in
hex. The curve (`ed25519_dalek`) and `serde_json` are parameters.

* `decodeHexArray_hexEncode`: bytes are read back from their hex text.
* `verify_signPayload`: the verifier that trusts the key of a signer accepts a signature if and only
  if the curve does.
-/

namespace Globacl

open Lib

/-! ## Hex texts -/

/-- A character of `HEX`. -/
def hexChar (nibble : UInt8) : Char :=
  if nibble < 10 then Char.ofNat (48 + nibble.toNat) else Char.ofNat (87 + nibble.toNat)

/-- The two characters of a byte. -/
def hexPair (byte : UInt8) : List Char := [hexChar (byte >>> 4), hexChar (byte &&& 0x0f)]

/-- `hex_encode`. -/
def hexEncode (bytes : List UInt8) : String := String.ofList (bytes.flatMap hexPair)

/-- `hex_nibble`. -/
def hexNibble (byte : UInt8) (field : String) : Result UInt8 :=
  if 48 ≤ byte ∧ byte ≤ 57 then .ok (byte - 48)
  else if 97 ≤ byte ∧ byte ≤ 102 then .ok (byte - 97 + 10)
  else if 65 ≤ byte ∧ byte ≤ 70 then .ok (byte - 65 + 10)
  else
    let hex := hexEncode [byte]
    .error (.parse s!"{field} contains non-hex byte 0x{hex}")

/-- The loop of `decode_hex_array`. -/
def decodeHexPairs (field : String) : List UInt8 → Result (List UInt8)
  | high :: low :: rest => do
    let high ← hexNibble high field
    let low ← hexNibble low field
    let out ← decodeHexPairs field rest
    pure ((high <<< 4 ||| low) :: out)
  | _ => .ok []

/-- `value.trim().strip_prefix("hex:").unwrap_or_else(|| value.trim())`. -/
def stripHexPrefix (value : String) : String :=
  match (trim value).toList with
  | 'h' :: 'e' :: 'x' :: ':' :: rest => String.ofList rest
  | _ => trim value

/-- `decode_hex_array::<N>`. -/
def decodeHexArray (n : Nat) (value field : String) : Result (List UInt8) :=
  let bytes := utf8 (stripHexPrefix value)
  let expected := n * 2
  if bytes.length ≠ expected then
    .error (.parse s!"{field} must be {expected} hex characters, got {bytes.length}")
  else decodeHexPairs field bytes

theorem hexChar_spec : ∀ nibble : UInt8, nibble < 16 →
    (hexChar nibble).toNat < 128 ∧ isWhitespace (hexChar nibble) = false ∧ hexChar nibble ≠ 'h' ∧
      ∀ field, hexNibble (hexChar nibble).toNat.toUInt8 field = .ok nibble := by
  have hall : ∀ n : Fin 16, (hexChar (UInt8.ofNat n)).toNat < 128 ∧
      isWhitespace (hexChar (UInt8.ofNat n)) = false ∧ hexChar (UInt8.ofNat n) ≠ 'h' := by
    decide
  have hnibble : ∀ (n : Fin 16) field, hexNibble (hexChar (UInt8.ofNat n)).toNat.toUInt8 field =
      .ok (UInt8.ofNat n) := by
    intro n field
    fin_cases n <;> rfl
  intro nibble h
  have heq : nibble = UInt8.ofNat (⟨nibble.toNat, h⟩ : Fin 16) := UInt8.ofNat_toNat.symm
  rw [heq]
  exact ⟨(hall _).1, (hall _).2.1, (hall _).2.2, hnibble _⟩

theorem high_lt (byte : UInt8) : byte >>> 4 < 16 := by
  rw [UInt8.lt_iff_toNat_lt, UInt8.toNat_shiftRight]
  have := byte.toNat_lt
  simp only [UInt8.reduceToNat, Nat.reduceMod, Nat.shiftRight_eq_div_pow]
  omega

theorem low_lt (byte : UInt8) : byte &&& 0x0f < 16 := by
  rw [UInt8.lt_iff_toNat_lt, UInt8.toNat_and]
  exact Nat.lt_of_le_of_lt Nat.and_le_right (by decide)

theorem join_nibbles (byte : UInt8) : byte >>> 4 <<< 4 ||| byte &&& 0x0f = byte := by
  have hall : ∀ n : Fin 256, (UInt8.ofNat n) >>> 4 <<< 4 ||| (UInt8.ofNat n) &&& 0x0f = UInt8.ofNat n := by
    decide +kernel
  have heq : byte = UInt8.ofNat (⟨byte.toNat, byte.toNat_lt⟩ : Fin 256) := UInt8.ofNat_toNat.symm
  rw [heq]
  exact hall _

theorem mem_hexEncode {bytes : List UInt8} {c : Char} (hc : c ∈ (hexEncode bytes).toList) :
    ∃ nibble, nibble < 16 ∧ c = hexChar nibble := by
  rw [hexEncode, String.toList_ofList, List.mem_flatMap] at hc
  obtain ⟨byte, -, hc⟩ := hc
  rcases List.mem_pair.mp hc with rfl | rfl
  · exact ⟨_, high_lt byte, rfl⟩
  · exact ⟨_, low_lt byte, rfl⟩

theorem stripHexPrefix_hexEncode (bytes : List UInt8) :
    stripHexPrefix (hexEncode bytes) = hexEncode bytes := by
  have htrim : trim (hexEncode bytes) = hexEncode bytes := by
    refine trim_of_forall fun c hc => ?_
    obtain ⟨nibble, hlt, rfl⟩ := mem_hexEncode hc
    exact (hexChar_spec nibble hlt).2.1
  unfold stripHexPrefix
  rw [htrim]
  split
  · rename_i rest heq
    obtain ⟨nibble, hlt, hc⟩ := @mem_hexEncode bytes 'h' (by
      rw [heq]
      exact List.mem_cons_self)
    exact absurd hc.symm (hexChar_spec nibble hlt).2.2.1
  · rfl

theorem utf8_hexEncode (bytes : List UInt8) :
    utf8 (hexEncode bytes) = bytes.flatMap fun byte => (hexPair byte).map fun c => c.toNat.toUInt8 := by
  unfold hexEncode
  rw [utf8_ofList_ascii, List.map_flatMap]
  intro c hc
  obtain ⟨nibble, hlt, rfl⟩ := @mem_hexEncode bytes c (by
    rwa [hexEncode, String.toList_ofList])
  exact (hexChar_spec nibble hlt).1

theorem decodeHexPairs_flatMap (field : String) (bytes : List UInt8) :
    decodeHexPairs field (bytes.flatMap fun byte => (hexPair byte).map fun c => c.toNat.toUInt8) =
      .ok bytes := by
  induction bytes with
  | nil => rfl
  | cons byte bytes ih =>
    rw [List.flatMap_cons, hexPair, List.map_cons, List.map_singleton, List.cons_append,
      List.singleton_append, decodeHexPairs, (hexChar_spec _ (high_lt byte)).2.2.2,
      (hexChar_spec _ (low_lt byte)).2.2.2, ih]
    show Except.ok ((byte >>> 4 <<< 4 ||| byte &&& 0x0f) :: bytes) = _
    rw [join_nibbles]

/-- Bytes are read back from their hex text. -/
theorem decodeHexArray_hexEncode (bytes : List UInt8) (field : String) :
    decodeHexArray bytes.length (hexEncode bytes) field = .ok bytes := by
  have hlen : (utf8 (hexEncode bytes)).length = bytes.length * 2 := by
    rw [utf8_hexEncode, List.length_flatMap]
    simp [hexPair]
  unfold decodeHexArray
  dsimp only
  rw [stripHexPrefix_hexEncode, if_neg (not_not.mpr hlen), utf8_hexEncode, decodeHexPairs_flatMap]

/-! ## Signers and verifiers -/

/-- `ed25519_dalek` on the bytes of keys: `SigningKey::sign`, and `VerifyingKey::from_bytes` with
`verify_strict`, which fails if the bytes are no key. -/
structure Ed25519 where
  sign : List UInt8 → List UInt8 → List UInt8
  verifyStrict : List UInt8 → List UInt8 → List UInt8 → Except String Bool
  length_sign : ∀ privateKey payload, (sign privateKey payload).length = 64

def signatureAlgorithm : String := "ed25519"

structure SignatureEnvelope where
  algorithm : String
  keyId : String
  keyVersion : Nat
  signature : String

structure SignatureVerificationKey where
  keyId : String
  keyVersion : Nat
  publicKeyHex : String
  deriving DecidableEq

structure SignatureVerifier where
  keys : HashMap String SignatureVerificationKey
  minKeyVersion : Nat

/-- An external command is what it prints on a payload. -/
inductive SignatureProvider where
  | ed25519PrivateKey (privateKeyHex : String)
  | externalCommand (run : List UInt8 → Result String)

structure SignatureSigner where
  keyId : String
  keyVersion : Nat
  provider : SignatureProvider

section Curve

variable (ed : Ed25519) (serde : SerdeJson)

/-- `payload_signature_hex`. -/
def payloadSignatureHex (privateKeyHex : String) (payload : List UInt8) : Result String := do
  let privateKey ← decodeHexArray 32 privateKeyHex "ed25519 private key"
  pure (hexEncode (ed.sign privateKey payload))

/-- The object of `format_payload_signature_from_hex`. -/
def signatureFields (keyId : String) (keyVersion : Nat) (signature : String) :
    List (String × Json) :=
  [("algorithm", .string signatureAlgorithm), ("key_id", .string keyId),
    ("key_version", .ofNat keyVersion), ("signature", .string signature)]

/-- `format_payload_signature_from_hex`. -/
def formatPayloadSignatureFromHex (keyId : String) (keyVersion : Nat) (signatureHex : String) :
    Result String := do
  let signature ← decodeHexArray 64 signatureHex "ed25519 signature"
  pure (serde.toString (.object (signatureFields keyId keyVersion (hexEncode signature))))

/-- The signature of `SignatureSigner::sign_payload`, in hex. -/
def SignatureSigner.signatureHex (signer : SignatureSigner) (payload : List UInt8) : Result String :=
  match signer.provider with
  | .ed25519PrivateKey privateKeyHex => payloadSignatureHex ed privateKeyHex payload
  | .externalCommand run => run payload

/-- `SignatureSigner::sign_payload`. -/
def SignatureSigner.signPayload (signer : SignatureSigner) (payload : List UInt8) : Result String := do
  let signature ← signer.signatureHex ed payload
  formatPayloadSignatureFromHex serde signer.keyId signer.keyVersion signature

/-- `verify_payload_signature`. -/
def verifyPayloadSignature (publicKeyHex : String) (payload : List UInt8) (signatureHex : String) :
    Result Bool := do
  let publicKey ← decodeHexArray 32 publicKeyHex "ed25519 public key"
  let signature ← decodeHexArray 64 (trim signatureHex) "ed25519 signature"
  match ed.verifyStrict publicKey payload signature with
  | .ok valid => pure valid
  | .error err => throw (.invalidData s!"invalid ed25519 public key: {err}")

/-- `parse_payload_signature`. -/
def parsePayloadSignature (body : List UInt8) : Result SignatureEnvelope := do
  let fields ← parseJsonFields serde body
  let algorithm ← required fields "algorithm"
  let keyId ← required fields "key_id"
  let keyVersion ← parseU64 (fields.lookup "key_version") 0 "key_version"
  let signature ← required fields "signature"
  pure { algorithm, keyId, keyVersion, signature }

/-- `verify_payload_signature_with_verifier`. -/
def verifyPayloadSignatureWithVerifier (verifier : SignatureVerifier) (payload signatureBody : List UInt8) :
    Result Unit := do
  let envelope ← parsePayloadSignature serde signatureBody
  if envelope.algorithm ≠ signatureAlgorithm then
    throw (.invalidData s!"signature algorithm {debugStr envelope.algorithm} is not supported")
  if envelope.keyVersion < verifier.minKeyVersion then
    let minKeyVersion := verifier.minKeyVersion
    throw (.invalidData
      s!"signature key version {envelope.keyVersion} is below required minimum {minKeyVersion}")
  match verifier.keys.lookup envelope.keyId with
  | none => throw (.invalidData s!"signature key_id {debugStr envelope.keyId} is not trusted")
  | some key => do
    if envelope.keyVersion ≠ 0 ∧ key.keyVersion ≠ 0 ∧ envelope.keyVersion ≠ key.keyVersion then
      let version := envelope.keyVersion
      let trusted := key.keyVersion
      throw (.invalidData
        s!"signature key version {version} does not match trusted key {key.keyId} version {trusted}")
    let valid ← verifyPayloadSignature ed key.publicKeyHex payload envelope.signature
    if !valid then throw (.invalidData "payload signature verification failed")

end Curve

/-! ## A signer and a verifier that trusts it -/

/-- The verifier has the public key of the signer under its id, and asks for no other version. -/
structure SignatureVerifier.Trusts (verifier : SignatureVerifier) (signer : SignatureSigner)
    (publicKey : List UInt8) : Prop where
  keyId : trim signer.keyId ≠ ""
  keyVersion : signer.keyVersion < 2 ^ 64
  minKeyVersion : verifier.minKeyVersion ≤ signer.keyVersion
  key : ∃ key, verifier.keys.lookup signer.keyId = some key ∧
    decodeHexArray 32 key.publicKeyHex "ed25519 public key" = .ok publicKey ∧
    (signer.keyVersion = 0 ∨ key.keyVersion = 0 ∨ signer.keyVersion = key.keyVersion)

/-- The provider of the signer gives these 64 bytes for a payload. -/
def SignatureSigner.Signs (signer : SignatureSigner) (ed : Ed25519) (payload signature : List UInt8) :
    Prop :=
  signature.length = 64 ∧ ∃ hex, signer.signatureHex ed payload = .ok hex ∧
    decodeHexArray 64 hex "ed25519 signature" = .ok signature

section Trust

variable {ed : Ed25519} {serde : SerdeJson} {signer : SignatureSigner} {verifier : SignatureVerifier}

/-- A private key signs as the curve does. -/
theorem signs_privateKey {privateKeyHex : String} {privateKey : List UInt8}
    (hprovider : signer.provider = .ed25519PrivateKey privateKeyHex)
    (hkey : decodeHexArray 32 privateKeyHex "ed25519 private key" = .ok privateKey)
    (payload : List UInt8) : signer.Signs ed payload (ed.sign privateKey payload) := by
  have hlen := ed.length_sign privateKey payload
  refine ⟨hlen, hexEncode (ed.sign privateKey payload), ?_, ?_⟩
  · unfold SignatureSigner.signatureHex payloadSignatureHex
    rw [hprovider]
    dsimp only
    rw [hkey]
    rfl
  · have hdecode := decodeHexArray_hexEncode (ed.sign privateKey payload) "ed25519 signature"
    rwa [hlen] at hdecode

theorem nodup_signatureFields (keyId : String) (keyVersion : Nat) (signature : String) :
    ((signatureFields keyId keyVersion signature).map Prod.fst).Nodup := by
  simp [signatureFields]

theorem trim_hexEncode (bytes : List UInt8) : trim (hexEncode bytes) = hexEncode bytes := by
  refine trim_of_forall fun c hc => ?_
  obtain ⟨nibble, hlt, rfl⟩ := mem_hexEncode hc
  exact (hexChar_spec nibble hlt).2.1

theorem hexEncode_ne_empty {bytes : List UInt8} (h : bytes ≠ []) : hexEncode bytes ≠ "" := by
  obtain ⟨byte, bytes, rfl⟩ := List.exists_cons_of_ne_nil h
  intro heq
  have hlist := congrArg String.toList heq
  rw [hexEncode, String.toList_ofList, List.flatMap_cons, hexPair] at hlist
  cases hlist

/-- The envelope that is signed is read back. -/
theorem parsePayloadSignature_toString {keyId : String} {keyVersion : Nat} {signature : List UInt8}
    (hserde : serde.Restores (signatureFields keyId keyVersion (hexEncode signature)))
    (hid : trim keyId ≠ "") (hversion : keyVersion < 2 ^ 64) (hsignature : signature ≠ []) :
    parsePayloadSignature serde (utf8 (serde.toString
        (.object (signatureFields keyId keyVersion (hexEncode signature))))) =
      .ok ⟨signatureAlgorithm, keyId, keyVersion, hexEncode signature⟩ := by
  obtain ⟨form, hform, hfields⟩ := parseJsonFields_toString hserde (nodup_signatureFields _ _ _)
  have halgorithm := hfields "algorithm" (.string signatureAlgorithm) (by simp [signatureFields])
  have hkey := hfields "key_id" (.string keyId) (by simp [signatureFields])
  have hver : form.lookup "key_version" = some (toString keyVersion) :=
    hfields "key_version" (.ofNat keyVersion) (by simp [signatureFields])
  have hsig := hfields "signature" (.string (hexEncode signature)) (by simp [signatureFields])
  have hne : trim (jsonFieldToString serde (.string (hexEncode signature))) ≠ "" := by
    rw [jsonFieldToString, trim_hexEncode]
    exact hexEncode_ne_empty hsignature
  unfold parsePayloadSignature
  rw [hform, ok_bind, required_of_lookup halgorithm (by rw [jsonFieldToString]; decide), ok_bind,
    required_of_lookup hkey hid, ok_bind, hver, parseU64_toString hversion,
    ok_bind, required_of_lookup hsig hne]
  rfl

/-- The verifier accepts a signature if and only if the curve does. -/
theorem verify_signPayload {publicKey payload signed signature : List UInt8} {valid : Bool}
    (htrusts : verifier.Trusts signer publicKey) (hsigns : signer.Signs ed signed signature)
    (hserde : serde.Restores (signatureFields signer.keyId signer.keyVersion (hexEncode signature)))
    (hvalid : ed.verifyStrict publicKey payload signature = .ok valid) :
    ∃ text, signer.signPayload ed serde signed = .ok text ∧ text ≠ "" ∧
      verifyPayloadSignatureWithVerifier ed serde verifier payload (utf8 text) =
        if valid then .ok () else .error (.invalidData "payload signature verification failed") := by
  obtain ⟨hlen, hex, hhex, hdecode⟩ := hsigns
  obtain ⟨key, hlookup, hpublic, hversions⟩ := htrusts.key
  have hne : signature ≠ [] := by
    rintro rfl
    cases hlen
  refine ⟨serde.toString (.object (signatureFields signer.keyId signer.keyVersion (hexEncode signature))),
    ?_, ?_, ?_⟩
  · unfold SignatureSigner.signPayload formatPayloadSignatureFromHex
    rw [hhex, ok_bind, hdecode]
    rfl
  · obtain ⟨text, htext⟩ := hserde.braces
    rw [htext]
    intro heq
    have hlist := congrArg String.toList heq
    simp at hlist
  · have hcurve : verifyPayloadSignature ed key.publicKeyHex payload (hexEncode signature) = .ok valid := by
      have hdecode := decodeHexArray_hexEncode signature "ed25519 signature"
      rw [hlen] at hdecode
      unfold verifyPayloadSignature
      rw [hpublic, ok_bind, trim_hexEncode, hdecode, ok_bind, hvalid]
      rfl
    have halgorithm : ¬signatureAlgorithm ≠ signatureAlgorithm := not_not.mpr rfl
    have hmin : ¬signer.keyVersion < verifier.minKeyVersion := not_lt.mpr htrusts.minKeyVersion
    have hversion : ¬(signer.keyVersion ≠ 0 ∧ key.keyVersion ≠ 0 ∧
        signer.keyVersion ≠ key.keyVersion) := by
      rintro ⟨h₀, h₁, h₂⟩
      exact hversions.elim h₀ fun h => h.elim h₁ h₂
    unfold verifyPayloadSignatureWithVerifier
    rw [parsePayloadSignature_toString hserde htrusts.keyId htrusts.keyVersion hne, ok_bind]
    dsimp only
    rw [if_neg halgorithm, if_neg hmin, hlookup]
    dsimp only
    rw [if_neg hversion, hcurve, ok_bind]
    cases valid <;> rfl

end Trust

end Globacl
