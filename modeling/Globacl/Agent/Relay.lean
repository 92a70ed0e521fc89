import Globacl.Edge.ActiveState
import Globacl.Core.Codec
import Globacl.Core.Http

/-!
# What an agent fetches from its relay (`globacl-agent/src/app/snapshot.rs`)

A `Relay` says how the relay answers each request of one poll. A body is given as what the agent
reads from it: the value that its decoder returns, or its error. A payload comes with the reply to
the request for its signature; `none` is an empty body, and otherwise the value is the result of
the verification.

* `Relay.fetchSnapshot`: the artifact that the manifest names, and if that fails the legacy
  snapshot.
-/

namespace Globacl

open Lib

/-- A payload, and the reply to the request for its signature. -/
structure Signed (α : Type) where
  response : Result (HttpResponse α)
  signature : Result (HttpResponse (Option (Result Unit)))

/-- `SnapshotManifest`, less its creation time and its largest sequence, which nothing reads. -/
structure SnapshotManifest where
  manifestVersion : Nat
  formatVersion : Nat
  artifactObject : String
  artifactSignatureObject : String
  artifactBytes : Nat
  artifactSha256 : String
  shardCount : Nat
  entryCount : Nat
  ruleCount : Nat
  watermarks : List Nat

/-- The bytes of a snapshot: their number, their digest and what they decode to. -/
structure SnapshotBytes where
  len : Nat
  sha256 : String
  decoded : Result Snapshot

/-- `PopAck` (`http.rs`). -/
structure PopAck where
  agentId : String
  shardId : Nat
  seq : Nat
  entries : Nat
  appliedAtUnix : Nat
  deriving DecidableEq, Repr

/-- What `check_canary` reads from the latest canary. A `seq` that is missing or no number is 0. -/
structure Canary where
  status : Option String
  key : Option String
  seq : Nat

/-- The answers of a relay during one poll of an agent, with the time and the outcome of the writes
to the disk of the agent. -/
structure Relay where
  nowUnix : Nat
  watermarks : Result (HttpResponse (Result (List Nat)))
  mutations : Nat → Nat → Signed (Result (List Mutation))
  deltaBundle : Nat → Nat → Nat → Signed (Result (List Mutation))
  snapshotManifest : Signed (Result SnapshotManifest)
  snapshotArtifact : String → Signed SnapshotBytes
  snapshot : Signed (Result Snapshot)
  ack : PopAck → Result (HttpResponse Unit)
  canary : Result (HttpResponse (Result Canary))
  writeFile : Snapshot → Result Unit

/-- A payload whose signature is there and is verified. -/
def Signed.Verified {α : Type} (payload : Signed α) : Prop :=
  payload.signature = .ok ⟨200, some (.ok ())⟩

/-- Every payload of the relay is correctly signed. -/
structure Relay.CorrectlySigned (relay : Relay) : Prop where
  mutations : ∀ shardId fromSeq, (relay.mutations shardId fromSeq).Verified
  deltaBundle : ∀ shardId fromSeq toSeq, (relay.deltaBundle shardId fromSeq toSeq).Verified
  snapshotManifest : relay.snapshotManifest.Verified
  snapshotArtifact : ∀ object, (relay.snapshotArtifact object).Verified
  snapshot : relay.snapshot.Verified

def snapshotManifestVersion : Nat := 1

/-- `is_safe_snapshot_object_name` (`snapshots.rs`). -/
def isSafeSnapshotObjectName (name : String) : Bool :=
  !name.isEmpty && name.toList.head? ≠ some '/' && '\\' ∉ name.toList &&
    ¬['.', '.'] <:+: name.toList && ¬['/', '/'] <:+: name.toList &&
    ['.', 'g', 'a', 'c', 'l'] <:+ name.toList &&
    name.toList.all fun ch => ch.isAlphanum || ch ∈ ['/', '.', '_', '-']

/-- `char::is_ascii_hexdigit`. -/
def isAsciiHexdigit (ch : Char) : Bool :=
  ch.isDigit || ch ∈ ['a', 'b', 'c', 'd', 'e', 'f', 'A', 'B', 'C', 'D', 'E', 'F']

namespace SnapshotManifest

/-- `SnapshotManifest::validate` (`signatures.rs`). -/
def validate (m : SnapshotManifest) : Result Unit :=
  if m.manifestVersion ≠ snapshotManifestVersion then
    .error (.invalidData s!"unsupported snapshot manifest version {m.manifestVersion}")
  else if m.formatVersion ≠ Globacl.formatVersion then
    .error (.invalidData s!"unsupported snapshot format version {m.formatVersion}")
  else if m.watermarks.length ≠ m.shardCount then
    .error (.invalidData
      s!"manifest has {m.watermarks.length} watermarks for {m.shardCount} shards")
  else if !isSafeSnapshotObjectName m.artifactObject then
    .error (.invalidData s!"unsafe snapshot artifact object {debugStr m.artifactObject}")
  else if m.artifactSignatureObject ≠ m.artifactObject ++ ".sig" then
    .error (.invalidData "snapshot artifact signature object does not match artifact object")
  else if m.artifactSha256.length ≠ 64 ∨ !m.artifactSha256.toList.all isAsciiHexdigit then
    .error (.invalidData "snapshot artifact sha256 must be 64 hex characters")
  else .ok ()

/-- `validate_artifact`. -/
def validateArtifact (m : SnapshotManifest) (artifact : SnapshotBytes) : Result Unit := do
  m.validate
  if artifact.len ≠ m.artifactBytes then
    throw (.invalidData
      s!"snapshot artifact has {artifact.len} bytes, manifest expected {m.artifactBytes}")
  if artifact.sha256 ≠ m.artifactSha256 then
    let expected := m.artifactSha256
    throw (.invalidData
      s!"snapshot artifact sha256 mismatch: expected {expected}, got {artifact.sha256}")

/-- `validate_snapshot`. -/
def validateSnapshot (m : SnapshotManifest) (s : Snapshot) : Result Unit := do
  m.validate
  s.validate
  if s.shardCount ≠ m.shardCount then
    throw (.invalidData s!"snapshot shard_count {s.shardCount} does not match manifest {m.shardCount}")
  if s.entries.length ≠ m.entryCount then
    let entries := s.entries.length
    throw (.invalidData s!"snapshot entry_count {entries} does not match manifest {m.entryCount}")
  if s.rules.length ≠ m.ruleCount then
    let rules := s.rules.length
    throw (.invalidData s!"snapshot rule_count {rules} does not match manifest {m.ruleCount}")
  if s.watermarks ≠ m.watermarks then
    throw (.invalidData "snapshot watermarks do not match manifest")

end SnapshotManifest

/-- `decode_snapshot` (`snapshots.rs`), on what the bytes spell out. -/
def Agent.decodeSnapshot (body : Result Snapshot) : Result Snapshot := do
  let s ← body
  if s.watermarks.length ≠ s.shardCount then
    throw (.invalidData
      s!"snapshot has {s.watermarks.length} watermarks for {s.shardCount} shards")
  pure s

/-- `decode_snapshot_manifest` (`snapshots.rs`), on what the bytes spell out. -/
def Agent.decodeSnapshotManifest (body : Result SnapshotManifest) : Result SnapshotManifest := do
  let m ← body
  m.validate
  pure m

/-- `verify_remote_payload_signature`: a missing signature passes. -/
def verifyRemotePayloadSignature (signature : Result (HttpResponse (Option (Result Unit)))) :
    Result Unit := do
  let response ← signature
  match response.body with
  | none => pure ()
  | some verified => if response.statusCode ≠ 200 then pure () else verified

/-- `verify_required_remote_payload_signature`. -/
def verifyRequiredRemotePayloadSignature (signaturePath : String)
    (signature : Result (HttpResponse (Option (Result Unit)))) : Result Unit := do
  let response ← signature
  match response.body with
  | none => throw (.invalidData s!"required signature missing at {signaturePath}")
  | some verified =>
    if response.statusCode ≠ 200 then
      throw (.invalidData s!"required signature missing at {signaturePath}")
    else verified

namespace Relay

/-- `fetch_watermarks`. -/
def fetchWatermarks (relay : Relay) : Result (List Nat) := do
  let response ← relay.watermarks
  if response.statusCode ≠ 200 then
    throw (.invalidData s!"relay returned status {response.statusCode} for watermarks")
  response.body

/-- `fetch_snapshot_from_manifest`. -/
def fetchSnapshotFromManifest (relay : Relay) : Result Snapshot := do
  let manifestResponse ← relay.snapshotManifest.response
  if manifestResponse.statusCode ≠ 200 then
    let status := manifestResponse.statusCode
    throw (.invalidData s!"relay returned status {status} for snapshot manifest")
  verifyRequiredRemotePayloadSignature "/v1/snapshot_manifest.sig" relay.snapshotManifest.signature
  let manifest ← Agent.decodeSnapshotManifest manifestResponse.body
  let object := manifest.artifactObject
  let artifact := relay.snapshotArtifact object
  let artifactResponse ← artifact.response
  if artifactResponse.statusCode ≠ 200 then
    let status := artifactResponse.statusCode
    throw (.invalidData s!"relay returned status {status} for snapshot artifact {object}")
  verifyRequiredRemotePayloadSignature s!"/v1/snapshot_artifact.sig?object={object}"
    artifact.signature
  manifest.validateArtifact artifactResponse.body
  let snapshot ← Agent.decodeSnapshot artifactResponse.body.decoded
  manifest.validateSnapshot snapshot
  pure snapshot

/-- `fetch_snapshot`. -/
def fetchSnapshot (relay : Relay) : Result Snapshot :=
  match relay.fetchSnapshotFromManifest with
  | .ok snapshot => .ok snapshot
  | .error _ => do
    let response ← relay.snapshot.response
    if response.statusCode ≠ 200 then
      throw (.invalidData s!"relay returned status {response.statusCode} for snapshot")
    verifyRemotePayloadSignature relay.snapshot.signature
    Agent.decodeSnapshot response.body

end Relay

/-! ## What is taken -/

/-- A body that the agent goes on with: the answer is a success, and the check of its signature,
which may be missing, passes. -/
def Signed.Taken {α : Type} (payload : Signed α) (body : α) : Prop :=
  payload.response = .ok ⟨200, body⟩ ∧ verifyRemotePayloadSignature payload.signature = .ok ()

/-- The check passes a reply without a signature, and one with a signature that is verified. -/
theorem verifyRemotePayloadSignature_ok_iff
    {signature : Result (HttpResponse (Option (Result Unit)))} :
    verifyRemotePayloadSignature signature = .ok () ↔
      ∃ response, signature = .ok response ∧
        (response.statusCode ≠ 200 ∨ response.body = none ∨ response.body = some (.ok ())) := by
  unfold verifyRemotePayloadSignature
  rw [bind_eq_ok]
  refine exists_congr fun response => and_congr_right fun _ => ?_
  cases hbody : response.body with
  | none => simp [pure, Except.pure]
  | some verified =>
    by_cases hstatus : response.statusCode = 200
    · simp [hstatus]
    · simp [hstatus, pure, Except.pure]

theorem verifyRequiredRemotePayloadSignature_ok {α : Type} {payload : Signed α} {path : String}
    (h : verifyRequiredRemotePayloadSignature path payload.signature = .ok ()) :
    payload.Verified := by
  obtain ⟨⟨statusCode, body⟩, hsignature, h⟩ := bind_eq_ok.mp h
  cases body with
  | none => cases h
  | some verified =>
    dsimp only at h
    split at h
    · cases h
    · rename_i hstatus
      rw [Decidable.not_not] at hstatus
      rw [Signed.Verified, hsignature, hstatus, h]

namespace Relay

/-- A snapshot is fetched as the artifact with a signature that is verified, or, if that fails, as
the legacy snapshot. -/
theorem fetchSnapshot_cases {relay : Relay} {snapshot : Snapshot}
    (h : relay.fetchSnapshot = .ok snapshot) :
    (∃ object bytes, (relay.snapshotArtifact object).response = .ok ⟨200, bytes⟩ ∧
      (relay.snapshotArtifact object).Verified ∧
      Agent.decodeSnapshot bytes.decoded = .ok snapshot) ∨
    (∃ err, relay.fetchSnapshotFromManifest = .error err) ∧
      ∃ body, relay.snapshot.Taken body ∧ Agent.decodeSnapshot body = .ok snapshot := by
  unfold fetchSnapshot at h
  split at h
  · rename_i s hmanifest
    cases h
    refine Or.inl ?_
    unfold fetchSnapshotFromManifest at hmanifest
    obtain ⟨_, -, hmanifest⟩ := bind_eq_ok.mp hmanifest
    split at hmanifest
    · cases hmanifest
    · obtain ⟨_, -, hmanifest⟩ := bind_eq_ok.mp hmanifest
      obtain ⟨manifest, -, hmanifest⟩ := bind_eq_ok.mp hmanifest
      obtain ⟨⟨status, bytes⟩, hresponse, hmanifest⟩ := bind_eq_ok.mp hmanifest
      split at hmanifest
      · cases hmanifest
      · rename_i hstatus
        obtain rfl : status = 200 := Decidable.not_not.mp hstatus
        obtain ⟨_, hverified, hmanifest⟩ := bind_eq_ok.mp hmanifest
        obtain ⟨_, -, hmanifest⟩ := bind_eq_ok.mp hmanifest
        obtain ⟨s, hs, hmanifest⟩ := bind_eq_ok.mp hmanifest
        obtain ⟨_, -, hmanifest⟩ := bind_eq_ok.mp hmanifest
        cases hmanifest
        exact ⟨_, bytes, hresponse, verifyRequiredRemotePayloadSignature_ok hverified, hs⟩
  · rename_i err hmanifest
    refine Or.inr ⟨⟨err, hmanifest⟩, ?_⟩
    obtain ⟨⟨status, body⟩, hresponse, h⟩ := bind_eq_ok.mp h
    split at h
    · cases h
    · rename_i hstatus
      obtain rfl : status = 200 := Decidable.not_not.mp hstatus
      obtain ⟨_, hverify, h⟩ := bind_eq_ok.mp h
      exact ⟨body, ⟨hresponse, hverify⟩, h⟩

end Relay

end Globacl
