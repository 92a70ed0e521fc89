import Globacl.Commitd.Publication
import Globacl.Core.Truncated

/-!
# Restoring a published snapshot (`globacl-commitd/src/app/storage.rs`, `globacl-agent/src/app/snapshot.rs`)

* `published_restored`: an agent and a node that has lost its files both get the snapshot that was
  published.
-/

namespace Globacl

open Lib Prog

/-! ## The checks pass -/

section Checks

variable {sha : Sha256} {ed : Ed25519} {serde : SerdeJson} {verifier : SignatureVerifier}
  {snapshot : Snapshot} {nowUnix : Nat}

theorem validateArtifact_manifest (hlen : snapshot.watermarks.length = snapshot.shardCount)
    (bytes : List UInt8) :
    (snapshot.manifest sha nowUnix bytes).validateArtifact (.ofBytes sha bytes) = .ok () := by
  unfold SnapshotManifest.validateArtifact
  rw [validate_manifest hlen bytes, ok_bind]
  simp [Snapshot.manifest, PublishedManifest.forSnapshot, SnapshotBytes.ofBytes]
  rfl

theorem validateSnapshot_manifest (hvalid : snapshot.validate = .ok ())
    (hlen : snapshot.watermarks.length = snapshot.shardCount) (bytes : List UInt8) :
    (snapshot.manifest sha nowUnix bytes).validateSnapshot snapshot = .ok () := by
  unfold SnapshotManifest.validateSnapshot
  rw [validate_manifest hlen bytes, ok_bind, hvalid, ok_bind]
  simp [Snapshot.manifest, PublishedManifest.forSnapshot]
  rfl

/-- A payload that is stored with its signature is served, and verified. -/
theorem signed_stored {α : Type} {s : SnapshotStorage} (objectStore : Option ObjectStoreConfig) {path text : String}
    {body : List UInt8} (hbody : s.files.lookup path = some body)
    (hsignature : s.files.lookup (signaturePath path) = some (utf8 text)) (hne : text ≠ "")
    (hverify : verifyPayloadSignatureWithVerifier ed serde verifier body (utf8 text) = .ok ())
    (read : List UInt8 → α) (object : String) :
    (s.signed ed serde objectStore verifier read path object).response = .ok ⟨200, read body⟩ ∧
      (s.signed ed serde objectStore verifier read path object).Verified := by
  unfold SnapshotStorage.signed Signed.Verified SnapshotStorage.serve
  rw [hbody, hsignature]
  refine ⟨rfl, ?_⟩
  dsimp only
  rw [ok_bind, ok_bind, if_neg (utf8_ne_nil hne), hverify]
  rfl

/-- What the agent fetches if manifest and artifact are stored with their signatures. -/
theorem fetch_stored {s : SnapshotStorage} {objectStore : Option ObjectStoreConfig} {m : PublishedManifest}
    {artifactPayload manifestPayload : List UInt8} {artifactText manifestText : String}
    (hmanifest : s.files.lookup latestManifestPath = some manifestPayload)
    (hmanifestSignature : s.files.lookup (signaturePath latestManifestPath) = some (utf8 manifestText))
    (hartifact : s.files.lookup (joinPath snapshotObjectDir m.artifactObject) = some artifactPayload)
    (hartifactSignature : s.files.lookup (signaturePath (joinPath snapshotObjectDir m.artifactObject)) =
      some (utf8 artifactText))
    (hne : manifestText ≠ "" ∧ artifactText ≠ "")
    (hverify : verifyPayloadSignatureWithVerifier ed serde verifier manifestPayload (utf8 manifestText) =
      .ok ())
    (hverify' : verifyPayloadSignatureWithVerifier ed serde verifier artifactPayload (utf8 artifactText) =
      .ok ())
    (hread : readSnapshotManifest serde manifestPayload = .ok m) (hvalid : m.validate = .ok ())
    (hsafe : isSafeSnapshotObjectName m.artifactObject = true)
    (hcheck : m.validateArtifact (.ofBytes sha artifactPayload) = .ok ())
    (hdecode : decodeSnapshot artifactPayload = .ok snapshot)
    (hlen : snapshot.watermarks.length = snapshot.shardCount)
    (hcheck' : m.validateSnapshot snapshot = .ok ()) (relay : Relay) :
    (s.relay sha ed serde objectStore verifier relay).fetchSnapshotFromManifest = .ok snapshot := by
  obtain ⟨hresponse, hverified⟩ := signed_stored objectStore hmanifest
    hmanifestSignature hne.1 hverify (fun body => (readSnapshotManifest serde body).map fun m =>
      m.toSnapshotManifest) latestManifestObject
  obtain ⟨hresponse', hverified'⟩ := signed_stored objectStore hartifact
    hartifactSignature hne.2 hverify' (SnapshotBytes.ofBytes sha) m.artifactObject
  have hagent : Agent.decodeSnapshotManifest ((readSnapshotManifest serde manifestPayload).map fun m =>
      m.toSnapshotManifest) = .ok m.toSnapshotManifest := by
    unfold Agent.decodeSnapshotManifest
    rw [hread]
    show (m.validate >>= fun _ => pure m.toSnapshotManifest) = _
    rw [hvalid]
    rfl
  have hagent' : Agent.decodeSnapshot (SnapshotBytes.ofBytes sha artifactPayload).decoded = .ok snapshot := by
    unfold Agent.decodeSnapshot SnapshotBytes.ofBytes
    dsimp only
    rw [hdecode, ok_bind, if_neg (not_not.mpr hlen)]
    rfl
  unfold Relay.fetchSnapshotFromManifest SnapshotStorage.relay
  dsimp only
  rw [hresponse, ok_bind, if_neg (not_not.mpr rfl), hverified]
  show (Agent.decodeSnapshotManifest _ >>= _) = _
  rw [hagent, ok_bind, if_pos hsafe, hresponse', ok_bind, if_neg (not_not.mpr rfl), hverified']
  show (m.validateArtifact _ >>= _) = _
  rw [hcheck, ok_bind, hagent', ok_bind, hcheck']
  rfl

end Checks

/-! ## Restoring -/

section Restore

variable {sha : Sha256} {serde : SerdeJson} {store : ObjectStoreConfig} {snapshot : Snapshot}

/-- A node that restores its files has those of the publication again. -/
theorem restore_runs {p : Stored} (h : p.manifest.Named)
    (hdecode : decodeSnapshotManifest serde p.manifestPayload = .ok p.manifest)
    (hvalid : p.manifest.validate = .ok ())
    (hcheck : p.manifest.validateArtifact (.ofBytes sha p.artifactPayload) = .ok ())
    (hsnapshot : decodeSnapshot p.artifactPayload = .ok snapshot)
    (hcheck' : p.manifest.validateSnapshot snapshot = .ok ())
    (files objects : HashMap String (List UInt8)) :
    Runs (restoreLatestSnapshotFromObjectStore sha serde store) ⟨files, p.objects store objects⟩ true
      ⟨((p.files files).insert latestSnapshotPath p.artifactPayload).insert
        (signaturePath latestSnapshotPath) p.artifactSignature, p.objects store objects⟩ := by
  obtain ⟨hartifact, hsignature, hlatest, hlatestSignature⟩ :=
    @Stored.lookup_objects p store h objects
  obtain ⟨hname, hsignatureName, -, -⟩ := h.keyNames
  unfold restoreLatestSnapshotFromObjectStore Stored.files
  refine (ObjectStoreConfig.getOptional_runs keyName_latest.1 hlatest).bind ?_
  split
  · rename_i hnone
    cases hnone
  rename_i payload hpayload
  obtain rfl := Option.some.inj hpayload
  refine (Runs.lift hdecode _).bind ((Runs.lift hvalid _).bind ?_)
  refine (ObjectStoreConfig.get_runs hname hartifact).bind ?_
  refine (ObjectStoreConfig.get_runs hsignatureName hsignature).bind ?_
  refine (ObjectStoreConfig.get_runs keyName_latest.2 hlatestSignature).bind ?_
  refine (Runs.lift hcheck _).bind ((Runs.lift hsnapshot _).bind ((Runs.lift hcheck' _).bind ?_))
  refine (Runs.step _ _).bind ((Runs.step _ _).bind ((Runs.step _ _).bind ((Runs.step _ _).bind ?_)))
  refine (Runs.step _ _).bind ((Runs.step _ _).bind ((Runs.step _ _).bind ((Runs.step _ _).bind ?_)))
  exact .pure _ _

end Restore

/-- What is true of every snapshot in the memory of a node, with its encoding beside it: the fields have
their widths, the vectors can be addressed, and no text has 4 GiB, since it came in a body of at most
1 MiB or from a decoder that reads lengths of 32 bits. -/
structure Snapshot.Typed (s : Snapshot) : Prop where
  fits : s.Fits
  encoded : (encodeSnapshot s).length ≤ isizeMax

/-! ## Publishing and restoring -/

section Identity

variable (sha : Sha256) (ed : Ed25519) (serde : SerdeJson) (signer : SignatureSigner)
  (verifier : SignatureVerifier) (store : ObjectStoreConfig)

/-- The snapshot is published, under a name that is accepted as it stands, and both an agent and a node
without files get it. -/
structure Republished (snapshot : Snapshot) (manifest : PublishedManifest) (published : SnapshotStorage) : Prop where
  safe : isSafeSnapshotObjectName manifest.artifactObject = true
  normalized : normalizeObjectPrefix manifest.artifactObject = .ok manifest.artifactObject
  objectKey : store.objectKey manifest.artifactObject = .ok (store.key manifest.artifactObject)
  fetched : ∀ relay, (published.relay sha ed serde (some store) verifier relay).fetchSnapshotFromManifest =
    .ok snapshot
  restored : ∀ files, ∃ restored payload, Runs (restoreLatestSnapshotFromObjectStore sha serde store)
      ⟨files, published.objects⟩ true restored ∧
    restored.files.lookup latestSnapshotPath = some payload ∧ decodeSnapshot payload = .ok snapshot

end Identity

section Identity

variable {sha : Sha256} {ed : Ed25519} {serde : SerdeJson} {signer : SignatureSigner}
  {verifier : SignatureVerifier} {store : ObjectStoreConfig} {publicKey : List UInt8}

theorem HonestKeys.sign {payload : List UInt8}
    (h : HonestKeys ed serde signer verifier publicKey payload payload) :
    ∃ text, signer.signPayload ed serde payload = .ok text ∧ text ≠ "" ∧
      verifyPayloadSignatureWithVerifier ed serde verifier payload (utf8 text) = .ok () := by
  obtain ⟨signature, hsigns, hserde, hvalid⟩ := h.signs
  obtain ⟨text, htext, hne, hverify⟩ := verify_signPayload h.trusts hsigns hserde hvalid
  rw [decide_eq_true rfl] at hverify
  exact ⟨text, htext, hne, hverify⟩

/-- What is stored under its names, with signatures that are verified and a manifest that fits the
artifact, is fetched and restored. -/
theorem republished_stored {p : Stored} {snapshot : Snapshot} {artifactText manifestText : String}
    (hsignature : p.artifactSignature = utf8 artifactText ∧ artifactText ≠ "" ∧
      verifyPayloadSignatureWithVerifier ed serde verifier p.artifactPayload (utf8 artifactText) = .ok ())
    (hsignature' : p.manifestSignature = utf8 manifestText ∧ manifestText ≠ "" ∧
      verifyPayloadSignatureWithVerifier ed serde verifier p.manifestPayload (utf8 manifestText) = .ok ())
    (hnamed : p.manifest.Named) (hsafe : isSafeSnapshotObjectName p.manifest.artifactObject = true)
    (hread : readSnapshotManifest serde p.manifestPayload = .ok p.manifest)
    (hvalid : p.manifest.validate = .ok ())
    (hcheck : p.manifest.validateArtifact (.ofBytes sha p.artifactPayload) = .ok ())
    (hdecode : decodeSnapshot p.artifactPayload = .ok snapshot)
    (hlen : snapshot.watermarks.length = snapshot.shardCount)
    (hcheck' : p.manifest.validateSnapshot snapshot = .ok ()) (s : SnapshotStorage) :
    Republished sha ed serde verifier store snapshot p.manifest
      ⟨p.files s.files, p.objects store s.objects⟩ where
  safe := hsafe
  normalized := hnamed.keyNames.1.normalized
  objectKey := ObjectStoreConfig.objectKey_eq hnamed.keyNames.1
  fetched relay := by
    obtain ⟨hfile, hfileSignature, hlatest, hlatestSignature⟩ := p.lookup_files s.files
    rw [hsignature.1] at hfileSignature
    rw [hsignature'.1] at hlatestSignature
    exact fetch_stored (m := p.manifest) (s := ⟨p.files s.files, p.objects store s.objects⟩) hlatest
      hlatestSignature hfile hfileSignature ⟨hsignature'.2.1, hsignature.2.1⟩ hsignature'.2.2 hsignature.2.2
      hread hvalid hsafe hcheck hdecode hlen hcheck' relay
  restored files := by
    have hdecodes : decodeSnapshotManifest serde p.manifestPayload = .ok p.manifest := by
      unfold decodeSnapshotManifest
      rw [hread, ok_bind, hvalid]
      rfl
    refine ⟨_, _, restore_runs hnamed hdecodes hvalid hcheck hdecode hcheck' files s.objects, ?_, hdecode⟩
    have hne : latestSnapshotPath ≠ signaturePath latestSnapshotPath := (append_sig_ne _).symm
    rw [HashMap.lookup_insert_eq, if_neg hne]
    exact AList.lookup_insert _

/-- A publication gives its consumers the snapshot that was published. -/
theorem published_restored {snapshot : Snapshot} {nowUnix : Nat} (htyped : snapshot.Typed)
    (hlen : snapshot.watermarks.length = snapshot.shardCount) (hvalid : snapshot.validate = .ok ())
    (htime : nowUnix < 2 ^ 64)
    (hartifact : HonestKeys ed serde signer verifier publicKey (encodeSnapshot snapshot)
      (encodeSnapshot snapshot))
    (hmanifest : HonestKeys ed serde signer verifier publicKey
      (encodeSnapshotManifest serde (snapshot.manifest sha nowUnix (encodeSnapshot snapshot)))
      (encodeSnapshotManifest serde (snapshot.manifest sha nowUnix (encodeSnapshot snapshot))))
    (hserde : serde.Restores (manifestFields (snapshot.manifest sha nowUnix (encodeSnapshot snapshot))))
    (s : SnapshotStorage) :
    ∃ manifest published, Runs (writeSnapshotManifestPublication sha ed serde signer (some store) nowUnix
        snapshot) s manifest published ∧
      Republished sha ed serde verifier store snapshot manifest published := by
  obtain ⟨hfits, hencoded⟩ := htyped
  obtain ⟨artifactText, hsign, hverify⟩ := hartifact.sign
  obtain ⟨manifestText, hsign', hverify'⟩ := hmanifest.sign
  refine ⟨_, _, writeSnapshotManifestPublication_runs hsign hsign' s, ?_⟩
  have hmanifestFits : (snapshot.manifest sha nowUnix (encodeSnapshot snapshot)).Fits := by
    have hentries := hfits.entryCount
    have hrules := hfits.ruleCount
    simp only [sizeOfDenyEntry, sizeOfRuleEntry, isizeMax] at hentries hrules hencoded
    exact fits_manifest hfits.shardCount hfits.watermarks (by omega) (by omega) hlen htime (by omega)
  have hnamed := named_manifest sha snapshot nowUnix (encodeSnapshot snapshot)
  have hsafe : isSafeSnapshotObjectName
      (snapshot.manifest sha nowUnix (encodeSnapshot snapshot)).artifactObject = true :=
    safe_immutableSnapshotObjectName snapshot _
  have hread := readSnapshotManifest_encode hmanifestFits hserde
  have hchecked := @validate_manifest snapshot sha nowUnix hlen (encodeSnapshot snapshot)
  have hcheck := @validateArtifact_manifest sha snapshot nowUnix hlen (encodeSnapshot snapshot)
  have hcheck' := @validateSnapshot_manifest sha snapshot nowUnix hvalid hlen (encodeSnapshot snapshot)
  have hdecode := decodeSnapshot_encode hfits hlen
  generalize encodeSnapshotManifest serde (snapshot.manifest sha nowUnix (encodeSnapshot snapshot)) =
    manifestPayload at *
  generalize snapshot.manifest sha nowUnix (encodeSnapshot snapshot) = manifest at *
  generalize encodeSnapshot snapshot = artifactPayload at *
  exact republished_stored (p := ⟨manifest, artifactPayload, utf8 artifactText, manifestPayload,
    utf8 manifestText⟩) ⟨rfl, hverify⟩ ⟨rfl, hverify'⟩ hnamed hsafe hread hchecked hcheck hdecode hlen hcheck' s

end Identity

/-! ## Two objects -/

/-- An object as `serde_json` prints it if no character is escaped: in the order of its keys. -/
def printObject (fields : List (String × Json)) : String :=
  let sorted := fields.insertionSort fun field field' => field.1 ≤ field'.1
  "\x7b" ++ String.ofList ([','].intercalate (sorted.map fun field => (printField field).toList)) ++ "\x7d"

/-- What `serde_json` does on a few objects. -/
def SerdeJson.among (objects : List (List (String × Json))) : SerdeJson where
  toString
    | .object fields => printObject fields
    | value => jsonFieldToString (.only []) value
  fromStr text :=
    match objects.find? fun fields => printObject fields = text with
    | some fields => .ok (.object fields)
    | none => .error "expected value at line 1 column 1"

theorem SerdeJson.among_restores {fields fields' : List (String × Json)}
    (h : printObject fields ≠ printObject fields') :
    (SerdeJson.among [fields, fields']).Restores fields ∧ (SerdeJson.among [fields, fields']).Restores fields' := by
  refine ⟨⟨⟨_, rfl⟩, fields, ?_, .refl _⟩, ⟨_, rfl⟩, fields', ?_, .refl _⟩ <;> unfold SerdeJson.among <;>
    dsimp only
  · simp
  · simp [h]

/-- The text of an object begins with one of its fields. -/
theorem printObject_head {fields : List (String × Json)} (hne : fields ≠ []) :
    ∃ field ∈ fields, ∃ rest, (printObject fields).toList = '{' :: ((printField field).toList ++ rest) := by
  have hperm := List.perm_insertionSort (fun field field' : String × Json => field.1 ≤ field'.1) fields
  unfold printObject
  generalize fields.insertionSort (fun field field' => field.1 ≤ field'.1) = sorted at hperm
  cases sorted with
  | nil => exact absurd hperm.symm.eq_nil hne
  | cons field sorted =>
    refine ⟨field, hperm.mem_iff.mp List.mem_cons_self, ?_⟩
    have hjoin : ∃ rest, [','].intercalate ((field :: sorted).map fun field => (printField field).toList) =
        (printField field).toList ++ rest := by
      cases sorted with
      | nil => exact ⟨[], by rw [List.map_singleton, List.intercalate_singleton, List.append_nil]⟩
      | cons field' sorted => exact ⟨_, by rw [List.map_cons, List.map_cons, List.intercalate_cons_cons,
          List.append_assoc]⟩
    obtain ⟨rest, hrest⟩ := hjoin
    exact ⟨rest ++ ['}'], by
      simp only [String.toList_append, String.toList_ofList, hrest]
      simp⟩

/-- How a field begins. -/
theorem printField_head (field : String × Json) :
    ∃ rest, (printField field).toList = '"' :: (field.1.toList ++ '"' :: rest) := by
  unfold printField
  split <;> simp only [String.toList_append, List.append_assoc] <;> exact ⟨_, rfl⟩

/-- How a key of a manifest begins. -/
theorem key_manifest {m : PublishedManifest} {field : String × Json} (h : field ∈ manifestFields m) :
    ∃ c c' rest, field.1.toList = c :: c' :: rest ∧ c' ∉ ['l', 'e', 'i'] := by
  unfold manifestFields at h
  rcases List.mem_append.mp h with h | h
  · have hkey := List.mem_map_of_mem (f := Prod.fst) h
    generalize field.1 = key at hkey
    simp only [List.map_cons, List.map_nil, List.mem_cons, List.not_mem_nil, or_false] at hkey
    rcases hkey with rfl | rfl | rfl | rfl | rfl | rfl | rfl | rfl | rfl | rfl | rfl <;>
      exact ⟨_, _, _, rfl, by decide⟩
  · obtain ⟨shard, -, rfl⟩ := List.mem_map.mp h
    have hkey : (shardKey shard.2).toList = 's' :: 'h' :: ("ard_".toList ++ (zeroPadded 4 shard.2).toList) := by
      unfold shardKey
      rw [String.toList_append]
      rfl
    exact ⟨_, _, _, hkey, by decide⟩

/-- How a key of a signature begins. -/
theorem key_signature {keyId signature : String} {keyVersion : Nat} {field : String × Json}
    (h : field ∈ signatureFields keyId keyVersion signature) :
    ∃ c c' rest, field.1.toList = c :: c' :: rest ∧ c' ∈ ['l', 'e', 'i'] := by
  have hkey := List.mem_map_of_mem (f := Prod.fst) h
  generalize field.1 = key at hkey
  simp only [signatureFields, List.map_cons, List.map_nil, List.mem_cons, List.not_mem_nil, or_false] at hkey
  rcases hkey with rfl | rfl | rfl | rfl <;> exact ⟨_, _, _, rfl, by decide⟩

/-- A manifest and a signature are printed as different texts: no key of one begins as a key of the other. -/
theorem printObject_manifest_ne (m : PublishedManifest) (keyId : String) (keyVersion : Nat)
    (signature : String) :
    printObject (manifestFields m) ≠ printObject (signatureFields keyId keyVersion signature) := by
  intro heq
  obtain ⟨field, hmem, rest, hprint⟩ := @printObject_head (manifestFields m) (List.cons_ne_nil _ _)
  obtain ⟨field', hmem', rest', hprint'⟩ :=
    @printObject_head (signatureFields keyId keyVersion signature) (List.cons_ne_nil _ _)
  obtain ⟨c, c₁, tail, hkey, hnot⟩ := key_manifest hmem
  obtain ⟨c', c₁', tail', hkey', hin⟩ := key_signature hmem'
  obtain ⟨back, hfield⟩ := printField_head field
  obtain ⟨back', hfield'⟩ := printField_head field'
  rw [heq, hprint', hfield, hfield', hkey, hkey'] at hprint
  simp only [List.cons_append, List.cons.injEq, true_and] at hprint
  exact hnot (hprint.2.1 ▸ hin)

/-! A node that publishes a snapshot of one shard with one entry. The curve stands for one on which
all that the node signs has one signature. -/

namespace OneEntry

open LateSignature (key signer verifier)

def entry : DenyEntry :=
  { tenantId := "acme", namespace' := "user", keyHash := 7, action := .deny, priority := 1,
    reasonCode := "fraud", expiresAt := 0, createdBy := "alice", commitSeq := 3, shardId := 0 }

def snapshot : Snapshot := ⟨1, [3], [entry], []⟩

theorem length_zeros (_ : List UInt8) : (List.replicate 32 (0 : UInt8)).length = 32 := rfl

def sha : Sha256 := ⟨fun _ => List.replicate 32 0, length_zeros⟩

def signature : List UInt8 := List.replicate 64 7

def curve : Ed25519 := ⟨fun _ _ => signature, fun _ _ given => .ok (decide (given = signature)), fun _ _ => rfl⟩

def store : ObjectStoreConfig := ⟨"cluster-1", true⟩

abbrev manifest : PublishedManifest := snapshot.manifest sha 100 (encodeSnapshot snapshot)

def serde : SerdeJson :=
  .among [manifestFields manifest, signatureFields "k1" 1 (hexEncode signature)]

theorem restores : serde.Restores (manifestFields manifest) ∧
    serde.Restores (signatureFields "k1" 1 (hexEncode signature)) :=
  SerdeJson.among_restores (printObject_manifest_ne _ _ _ _)

theorem honest (payload : List UInt8) :
    HonestKeys curve serde signer verifier key payload payload where
  trusts :=
    { keyId := by decide
      keyVersion := by decide
      minKeyVersion := by decide
      key := ⟨⟨"k1", 1, hexEncode key⟩, AList.lookup_insert _, decodeHexArray_hexEncode key _,
        Or.inr (Or.inr rfl)⟩ }
  signs := ⟨signature, signs_privateKey rfl (decodeHexArray_hexEncode key _) _, restores.2,
    congrArg Except.ok (decide_eq_decide.mpr (iff_of_true rfl rfl))⟩

theorem typed : snapshot.Typed where
  fits :=
    { shardCount := by decide
      watermarks := by decide
      entries e he := by
        cases List.mem_singleton.mp he
        exact ⟨by decide, by decide, by decide, by decide, by decide, by decide, by decide, by decide⟩
      entryCount := by decide
      rules _ h := by cases h
      ruleCount := by decide }
  encoded := by decide

end OneEntry

open OneEntry in
open LateSignature (key signer verifier) in
theorem published_restored_oneEntry :
    ∃ manifest published, Runs (writeSnapshotManifestPublication sha curve serde signer (some store) 100
        snapshot) ⟨∅, ∅⟩ manifest published ∧
      Republished sha curve serde verifier store snapshot manifest published :=
  published_restored typed rfl rfl (by decide) (honest _) (honest _) restores.1 ⟨∅, ∅⟩

end Globacl
