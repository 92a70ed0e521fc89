import Globacl.Core.Query
import Globacl.Core.Signatures

/-!
# The keys that a verifier trusts (`globacl-core/src/lib/rules.rs`, `signatures.rs`)

A verifier is built from a list of keys, which an agent reads from the text of a keyring, and from
the least version of a key that it accepts. An envelope claims a version, and it is not signed.

* `SignatureVerifier.new_ok`: a verifier knows its keys by their ids.
* `verifier_keyVersion_iff`: the key that verified a payload is of the least version or a later one
  unless it has no version of its own.
-/

namespace Globacl

open Lib

def defaultSignatureKeyVersion : Nat := 1

/-! ## Keyrings -/

/-- `value.split([',', ';', '\n']).map(str::trim).filter(|part| !part.is_empty())`. -/
def keyringParts (value : String) : List String :=
  ((value.toList.splitOnP fun c => c = ',' ∨ c = ';' ∨ c = '\n').map fun part =>
    trim (String.ofList part)).filter fun part => part ≠ ""

/-- The body of the loop of `parse_signature_public_keys`. -/
def parseSignaturePublicKey (rawPart : String) : Result SignatureVerificationKey :=
  match splitOnce ':' rawPart with
  | none =>
    .error (.parse ("signature public key entry must be key_id:public_key or " ++
      s!"key_id:key_version:public_key, got {debugStr rawPart}"))
  | some (keyId, rest) =>
    let (keyVersion, publicKey) :=
      match splitOnce ':' rest with
      | some (maybeVersion, publicKey) =>
        match parseUnsigned (2 ^ 64 - 1) maybeVersion with
        | .ok keyVersion => (keyVersion, publicKey)
        | .error _ => (defaultSignatureKeyVersion, rest)
      | none => (defaultSignatureKeyVersion, rest)
    .ok ⟨keyId, keyVersion, publicKey⟩

/-- `parse_signature_public_keys`. -/
def parseSignaturePublicKeys (value : String) : Result (List SignatureVerificationKey) :=
  (keyringParts value).mapM parseSignaturePublicKey

namespace SignatureVerifier

/-- The body of the loop of `SignatureVerifier::new`. -/
def insertKey (byId : HashMap String SignatureVerificationKey) (key : SignatureVerificationKey) :
    Result (HashMap String SignatureVerificationKey) := do
  if trim key.keyId = "" then throw (.invalidData "signature key_id cannot be empty")
  let _ ← decodeHexArray 32 key.publicKeyHex "ed25519 public key"
  if (byId.lookup key.keyId).isSome then
    throw (.invalidData "duplicate signature key_id in verifier")
  pure (byId.insert key.keyId key)

/-- `SignatureVerifier::new`. -/
def new (keys : List SignatureVerificationKey) (minKeyVersion : Nat) :
    Result SignatureVerifier := do
  if keys = [] then
    throw (.invalidData "signature verifier requires at least one public key")
  let byId ← keys.foldlM insertKey ∅
  pure { keys := byId, minKeyVersion }

theorem insertKey_ok {byId byId' : HashMap String SignatureVerificationKey}
    {key : SignatureVerificationKey} (h : insertKey byId key = .ok byId') :
    byId' = byId.insert key.keyId key := by
  unfold insertKey at h
  by_cases hid : trim key.keyId = ""
  · rw [if_pos hid] at h
    cases h
  · rw [if_neg hid] at h
    dsimp only at h
    rw [bind_eq_ok] at h
    obtain ⟨bytes, -, h⟩ := h
    by_cases hdup : (byId.lookup key.keyId).isSome
    · rw [if_pos hdup] at h
      cases h
    · rw [if_neg hdup] at h
      cases h
      rfl

/-- A verifier knows the keys of its list by their ids. -/
theorem new_ok {keys : List SignatureVerificationKey} {minKeyVersion : Nat}
    {verifier : SignatureVerifier} (h : new keys minKeyVersion = .ok verifier) :
    verifier.minKeyVersion = minKeyVersion ∧
      ∀ id key, verifier.keys.lookup id = some key → key ∈ keys ∧ key.keyId = id := by
  unfold new at h
  by_cases hnil : keys = []
  · rw [if_pos hnil] at h
    cases h
  · rw [if_neg hnil] at h
    dsimp only at h
    rw [bind_eq_ok] at h
    obtain ⟨byId, hfold, h⟩ := h
    cases h
    refine ⟨rfl, ?_⟩
    have hstep : ∀ done (m m' : HashMap String SignatureVerificationKey) key,
        (∀ id k, m.lookup id = some k → k ∈ done ∧ k.keyId = id) → insertKey m key = .ok m' →
        ∀ id k, m'.lookup id = some k → k ∈ done ++ [key] ∧ k.keyId = id := by
      intro done m m' key hm hkey id k hk
      rw [insertKey_ok hkey, HashMap.lookup_insert_eq] at hk
      by_cases hid : id = key.keyId
      · rw [if_pos hid] at hk
        cases hk
        exact ⟨List.mem_append_right _ (List.mem_singleton.mpr rfl), hid.symm⟩
      · rw [if_neg hid] at hk
        exact ⟨List.mem_append_left _ (hm id k hk).1, (hm id k hk).2⟩
    have hnone : ∀ id k, (∅ : HashMap String SignatureVerificationKey).lookup id = some k →
        k ∈ ([] : List SignatureVerificationKey) ∧ k.keyId = id := by
      intro id k hk
      cases hk
    exact foldlM_collects hstep hnone hfold

end SignatureVerifier

/-! ## What is verified -/

section Verified

variable {ed : Ed25519} {serde : SerdeJson} {verifier : SignatureVerifier}
  {payload signatureBody : List UInt8}

/-- What is checked of an envelope before a payload is accepted. -/
structure Accepts (ed : Ed25519) (verifier : SignatureVerifier) (payload : List UInt8)
    (envelope : SignatureEnvelope) (key : SignatureVerificationKey) : Prop where
  minimum : verifier.minKeyVersion ≤ envelope.keyVersion
  trusted : verifier.keys.lookup envelope.keyId = some key
  version : envelope.keyVersion = 0 ∨ key.keyVersion = 0 ∨ envelope.keyVersion = key.keyVersion
  verified : verifyPayloadSignature ed key.publicKeyHex payload envelope.signature = .ok true

theorem verifyPayloadSignatureWithVerifier_ok
    (h : verifyPayloadSignatureWithVerifier ed serde verifier payload signatureBody = .ok ()) :
    ∃ envelope key, parsePayloadSignature serde signatureBody = .ok envelope ∧
      Accepts ed verifier payload envelope key := by
  unfold verifyPayloadSignatureWithVerifier at h
  rw [bind_eq_ok] at h
  obtain ⟨envelope, henvelope, h⟩ := h
  by_cases halgorithm : envelope.algorithm ≠ signatureAlgorithm
  · rw [if_pos halgorithm] at h
    cases h
  rw [if_neg halgorithm] at h
  dsimp only at h
  by_cases hmin : envelope.keyVersion < verifier.minKeyVersion
  · rw [if_pos hmin] at h
    cases h
  rw [if_neg hmin] at h
  cases hkey : verifier.keys.lookup envelope.keyId with
  | none =>
    rw [hkey] at h
    cases h
  | some key =>
    rw [hkey] at h
    dsimp only at h
    by_cases hversion : envelope.keyVersion ≠ 0 ∧ key.keyVersion ≠ 0 ∧
        envelope.keyVersion ≠ key.keyVersion
    · rw [if_pos hversion] at h
      cases h
    rw [if_neg hversion, bind_eq_ok] at h
    obtain ⟨valid, hvalid, h⟩ := h
    cases valid with
    | false => cases h
    | true => exact ⟨envelope, key, henvelope, by omega, hkey, by omega, hvalid⟩

end Verified

/-- The key that verified a payload is of the least version or a later one, whatever version the
envelope claims, if and only if the key has a version or there is no least one. -/
theorem verifier_keyVersion_iff (ed : Ed25519) (serde : SerdeJson)
    (keys : List SignatureVerificationKey) (minKeyVersion : Nat) (verifier : SignatureVerifier)
    (hnew : SignatureVerifier.new keys minKeyVersion = .ok verifier)
    (payload signatureBody : List UInt8)
    (haccepted :
      verifyPayloadSignatureWithVerifier ed serde verifier payload signatureBody = .ok ()) :
    ∃ envelope key, parsePayloadSignature serde signatureBody = .ok envelope ∧ key ∈ keys ∧
      key.keyId = envelope.keyId ∧
      verifyPayloadSignature ed key.publicKeyHex payload envelope.signature = .ok true ∧
      (minKeyVersion ≤ key.keyVersion ↔ key.keyVersion ≠ 0 ∨ minKeyVersion = 0) := by
  obtain ⟨hmin, hkeys⟩ := SignatureVerifier.new_ok hnew
  obtain ⟨envelope, key, henvelope, haccepts⟩ := verifyPayloadSignatureWithVerifier_ok haccepted
  obtain ⟨hmem, hid⟩ := hkeys _ _ haccepts.trusted
  have hminimum := haccepts.minimum
  have hversion := haccepts.version
  rw [hmin] at hminimum
  refine ⟨envelope, key, henvelope, hmem, hid, haccepts.verified, ?_⟩
  omega

/-! A retired key that the keyring gives no version. The curve stands for one whose public keys are
its private keys. -/

namespace RetiredKey

def front (payload : List UInt8) : List UInt8 := (payload ++ List.replicate 64 0).take 64

def curve : Ed25519 where
  sign privateKey payload := front (privateKey ++ payload)
  verifyStrict publicKey payload signature :=
    .ok (decide (signature = front (publicKey ++ payload)))
  length_sign _ payload := by
    rw [front, List.length_take, List.length_append, List.length_replicate]
    omega

def key : List UInt8 := List.replicate 32 7

/-- The holder of the retired key claims the version 2. -/
def signer : SignatureSigner := ⟨"old", 2, .ed25519PrivateKey (hexEncode key)⟩

def trusted : SignatureVerificationKey := ⟨"old", 0, hexEncode key⟩

def verifier : SignatureVerifier :=
  ⟨(∅ : HashMap String SignatureVerificationKey).insert "old" trusted, 2⟩

def payload : List UInt8 := [1]

def serde : SerdeJson := .only (signatureFields "old" 2 (hexEncode (front (key ++ payload))))

theorem parsed : parseSignaturePublicKeys ("old:0:" ++ hexEncode key) = .ok [trusted] := by
  decide +kernel

theorem created : SignatureVerifier.new [trusted] 2 = .ok verifier := by
  have hhex : decodeHexArray 32 trusted.publicKeyHex "ed25519 public key" = .ok key :=
    decodeHexArray_hexEncode key _
  have hinsert : SignatureVerifier.insertKey ∅ trusted = .ok verifier.keys := by
    unfold SignatureVerifier.insertKey
    rw [if_neg (by decide)]
    dsimp only
    rw [hhex, ok_bind]
    rfl
  unfold SignatureVerifier.new
  rw [if_neg (by decide), List.foldlM_cons, hinsert]
  rfl

theorem accepted : ∃ text,
    verifyPayloadSignatureWithVerifier curve serde verifier payload (utf8 text) = .ok () := by
  have htrusts : verifier.Trusts signer key :=
    { keyId := by decide
      keyVersion := by decide
      minKeyVersion := by decide
      key := ⟨trusted, AList.lookup_insert _, decodeHexArray_hexEncode key _, Or.inr (Or.inl rfl)⟩ }
  have hsigns : signer.Signs curve payload (curve.sign key payload) :=
    signs_privateKey rfl (decodeHexArray_hexEncode key _) payload
  obtain ⟨text, -, -, hverify⟩ := verify_signPayload htrusts hsigns
    (SerdeJson.only_restores _) (congrArg Except.ok (decide_eq_true rfl))
  exact ⟨text, hverify⟩

end RetiredKey

open RetiredKey in
theorem verifier_keyVersion_iff_retiredKey :
    ∃ text envelope key, parsePayloadSignature serde (utf8 text) = .ok envelope ∧ key ∈ [trusted] ∧
      key.keyId = envelope.keyId ∧
      verifyPayloadSignature curve key.publicKeyHex payload envelope.signature = .ok true ∧
      (2 ≤ key.keyVersion ↔ key.keyVersion ≠ 0 ∨ 2 = 0) := by
  obtain ⟨text, haccepted⟩ := accepted
  exact ⟨text, verifier_keyVersion_iff curve serde [trusted] 2 verifier created payload (utf8 text)
    haccepted⟩

open RetiredKey in
/-- A payload that the holder of a retired key has signed is accepted. -/
theorem not_verifier_minKeyVersion :
    ¬ ∀ (ed : Ed25519) (publicOf : List UInt8 → List UInt8),
      (∀ publicKey payload signature, ed.verifyStrict publicKey payload signature = .ok true →
        ∃ privateKey, publicOf privateKey = publicKey ∧ ed.sign privateKey payload = signature) →
      ∀ (serde : SerdeJson) (keyring : String) (keys : List SignatureVerificationKey)
        (minKeyVersion : Nat) (verifier : SignatureVerifier) (payload signatureBody : List UInt8),
        parseSignaturePublicKeys keyring = .ok keys →
        SignatureVerifier.new keys minKeyVersion = .ok verifier →
        verifyPayloadSignatureWithVerifier ed serde verifier payload signatureBody = .ok () →
        ∃ envelope key, parsePayloadSignature serde signatureBody = .ok envelope ∧
          verifier.keys.lookup envelope.keyId = some key ∧ minKeyVersion ≤ key.keyVersion := by
  intro h
  have hcurve : ∀ publicKey payload signature,
      curve.verifyStrict publicKey payload signature = .ok true →
      ∃ privateKey, id privateKey = publicKey ∧ curve.sign privateKey payload = signature := by
    intro publicKey payload signature hverify
    exact ⟨publicKey, rfl, (of_decide_eq_true (Except.ok.inj hverify)).symm⟩
  obtain ⟨text, haccepted⟩ := accepted
  obtain ⟨envelope, key, -, hkey, hmin⟩ :=
    h curve id hcurve serde _ _ _ _ _ _ parsed created haccepted
  obtain ⟨hmem, -⟩ := (SignatureVerifier.new_ok created).2 _ _ hkey
  cases List.mem_singleton.mp hmem
  exact absurd hmin (by decide)

end Globacl
