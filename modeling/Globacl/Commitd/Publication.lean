import Globacl.Commitd.ObjectStore
import Globacl.Agent.Verify

/-!
# Publishing and restoring a snapshot (`globacl-commitd/src/app/storage.rs`, `object_store.rs`)

A publication writes the artifact of a snapshot and its manifest, each with a signature, to the files
of the node and to the object store. An agent fetches them through the routes of the node, and a
node that has lost its files restores them from the object store.

* `writeSnapshotManifestPublication_runs`: what a publication stores.
* `Stored.lookup_files`, `Stored.lookup_objects`: it is found again under its names.
-/

namespace Globacl

open Lib Prog

/-! ## Writing -/

def snapshotObjectDir : String := "objects"
def snapshotManifestDir : String := "manifests"
def latestManifestPath : String := "manifests/latest.manifest"
def latestSnapshotPath : String := "latest.gacl"

/-- `LATEST_MANIFEST_OBJECT`. -/
def latestManifestObject : String := "manifests/latest.manifest"

/-- `LATEST_MANIFEST_SIGNATURE_OBJECT`. -/
def latestManifestSignatureObject : String := "manifests/latest.manifest.sig"

/-- `Path::join`. -/
def joinPath (dir name : String) : String := dir ++ "/" ++ name

/-- `signature_path`. -/
def signaturePath (path : String) : String := path ++ ".sig"

/-- `snapshot_manifest_file_name`. -/
def snapshotManifestFileName (m : PublishedManifest) : String :=
  "epoch_" ++ zeroPadded 20 m.createdAtUnix ++ "_seq_" ++ zeroPadded 20 m.maxSeq ++ "_sha256_" ++
    String.ofList (m.artifactSha256.toList.take 16) ++ ".manifest"

/-- `snapshot_manifest_object_name`. -/
def snapshotManifestObjectName (m : PublishedManifest) : String :=
  "manifests/" ++ snapshotManifestFileName m

/-- `fs::read` of a file that is missing. -/
def notFound : GlobAclError := .io "No such file or directory (os error 2)"

/-- `fs::read`. -/
def readFile (path : String) : StoreProgram (List UInt8) := do
  let s ← Prog.get
  match s.files.lookup path with
  | some payload => pure payload
  | none => Prog.lift (.error notFound)

/-- `write_payload_file`. -/
def writePayloadFile (path : String) (payload : List UInt8) : StoreProgram Unit :=
  Prog.step fun s => { s with files := s.files.insert path payload }

/-- `SnapshotPublication`. -/
structure SnapshotPublication where
  manifest : PublishedManifest
  artifactPayload : List UInt8
  artifactSignaturePayload : List UInt8
  immutableManifestPayload : List UInt8
  immutableManifestSignaturePayload : List UInt8
  latestManifestPayload : List UInt8
  latestManifestSignaturePayload : List UInt8

/-- `publish_snapshot_to_object_store` with a store. -/
def publishSnapshotToObjectStore (store : ObjectStoreConfig) (publication : SnapshotPublication) :
    StoreProgram Unit := do
  store.put publication.manifest.artifactObject publication.artifactPayload
  store.put publication.manifest.artifactSignatureObject publication.artifactSignaturePayload
  let immutableManifestObject := snapshotManifestObjectName publication.manifest
  store.put immutableManifestObject publication.immutableManifestPayload
  store.put (immutableManifestObject ++ ".sig") publication.immutableManifestSignaturePayload
  store.put latestManifestObject publication.latestManifestPayload
  store.put latestManifestSignatureObject publication.latestManifestSignaturePayload

/-- `publish_snapshot_to_object_store_best_effort`. -/
def publishSnapshotToObjectStoreBestEffort (objectStore : Option ObjectStoreConfig)
    (publication : SnapshotPublication) : StoreProgram Unit :=
  match objectStore with
  | none => pure ()
  | some store =>
    if store.requireUpload then publishSnapshotToObjectStore store publication
    else (publishSnapshotToObjectStore store publication).reported

section Publish

variable (sha : Sha256) (ed : Ed25519) (serde : SerdeJson)

/-- `write_signed_payload_file`. -/
def writeSignedPayloadFile (signer : SignatureSigner) (path : String) (payload : List UInt8) :
    StoreProgram Unit := do
  writePayloadFile path payload
  let signature ← Prog.lift (signer.signPayload ed serde payload)
  writePayloadFile (signaturePath path) (utf8 signature)

/-- `write_snapshot_manifest_publication`. -/
def writeSnapshotManifestPublication (signer : SignatureSigner) (objectStore : Option ObjectStoreConfig)
    (nowUnix : Nat) (snapshot : Snapshot) : StoreProgram PublishedManifest := do
  let payload := encodeSnapshot snapshot
  let artifactSha256 := snapshotArtifactSha256Hex sha payload
  let artifactObject := immutableSnapshotObjectName snapshot artifactSha256
  let artifactPath := joinPath snapshotObjectDir artifactObject
  writeSignedPayloadFile ed serde signer artifactPath payload
  let artifactSignaturePayload ← readFile (signaturePath artifactPath)
  let manifest :=
    PublishedManifest.forSnapshot snapshot nowUnix artifactObject payload.length artifactSha256
  let manifestPayload := encodeSnapshotManifest serde manifest
  let immutableManifestPath := joinPath snapshotManifestDir (snapshotManifestFileName manifest)
  writeSignedPayloadFile ed serde signer immutableManifestPath manifestPayload
  let immutableManifestSignaturePayload ← readFile (signaturePath immutableManifestPath)
  writeSignedPayloadFile ed serde signer latestManifestPath manifestPayload
  let latestManifestSignaturePayload ← readFile (signaturePath latestManifestPath)
  publishSnapshotToObjectStoreBestEffort objectStore
    { manifest, artifactPayload := payload, artifactSignaturePayload,
      immutableManifestPayload := manifestPayload, immutableManifestSignaturePayload,
      latestManifestPayload := manifestPayload, latestManifestSignaturePayload }
  pure manifest

/-! ## Reading -/

/-- What the agent looks at of the bytes of an artifact. -/
def SnapshotBytes.ofBytes (bytes : List UInt8) : SnapshotBytes :=
  ⟨bytes.length, snapshotArtifactSha256Hex sha bytes, decodeSnapshot bytes⟩

/-- `restore_latest_snapshot_from_object_store`. -/
def restoreLatestSnapshotFromObjectStore (store : ObjectStoreConfig) : StoreProgram Bool := do
  let manifestPayload ← store.getOptional latestManifestObject
  match manifestPayload with
  | none => pure false
  | some manifestPayload => do
    let manifest ← Prog.lift (decodeSnapshotManifest serde manifestPayload)
    Prog.lift manifest.validate
    let artifactPayload ← store.get manifest.artifactObject
    let artifactSignaturePayload ← store.get manifest.artifactSignatureObject
    let manifestSignaturePayload ← store.get latestManifestSignatureObject
    Prog.lift (manifest.validateArtifact (.ofBytes sha artifactPayload))
    let snapshot ← Prog.lift (decodeSnapshot artifactPayload)
    Prog.lift (manifest.validateSnapshot snapshot)
    let artifactPath := joinPath snapshotObjectDir manifest.artifactObject
    writePayloadFile artifactPath artifactPayload
    writePayloadFile (signaturePath artifactPath) artifactSignaturePayload
    let immutableManifestPath := joinPath snapshotManifestDir (snapshotManifestFileName manifest)
    writePayloadFile immutableManifestPath manifestPayload
    writePayloadFile (signaturePath immutableManifestPath) manifestSignaturePayload
    writePayloadFile latestManifestPath manifestPayload
    writePayloadFile (signaturePath latestManifestPath) manifestSignaturePayload
    writePayloadFile latestSnapshotPath artifactPayload
    writePayloadFile (signaturePath latestSnapshotPath) artifactSignaturePayload
    pure true

/-- `read_file_or_object_store`, without the copy that it keeps of an object. -/
def SnapshotStorage.serve (s : SnapshotStorage) (objectStore : Option ObjectStoreConfig) (path object : String) :
    Result (List UInt8) :=
  match s.files.lookup path with
  | some body => .ok body
  | none =>
    match objectStore with
    | none => .error notFound
    | some store => (store.get object s).result

/-- A payload and its signature as an agent fetches them. -/
def SnapshotStorage.signed {α : Type} (s : SnapshotStorage) (objectStore : Option ObjectStoreConfig)
    (verifier : SignatureVerifier) (read : List UInt8 → α) (path object : String) : Signed α where
  response := do
    let body ← s.serve objectStore path object
    pure ⟨200, read body⟩
  signature := do
    let body ← s.serve objectStore path object
    let signature ← s.serve objectStore (signaturePath path) (object ++ ".sig")
    pure ⟨200, if signature = [] then none
      else some (verifyPayloadSignatureWithVerifier ed serde verifier body signature)⟩

/-- A relay that passes on what `/v1/snapshot_manifest` and `/v1/snapshot_artifact` of a node answer. The
text of a refusal, which nothing reads, is left out. -/
def SnapshotStorage.relay (s : SnapshotStorage) (objectStore : Option ObjectStoreConfig) (verifier : SignatureVerifier)
    (relay : Relay) : Relay where
  __ := relay
  snapshotManifest := s.signed ed serde objectStore verifier
    (fun body => (readSnapshotManifest serde body).map fun m => m.toSnapshotManifest)
    latestManifestPath latestManifestObject
  snapshotArtifact object :=
    if isSafeSnapshotObjectName object then
      s.signed ed serde objectStore verifier (.ofBytes sha) (joinPath snapshotObjectDir object) object
    else ⟨.ok ⟨400, .ofBytes sha []⟩, .ok ⟨400, none⟩⟩

end Publish


/-! ## Names that differ -/

section Names

variable {V : Type} {m : HashMap String V} {a a' i i' l l' : String} {va va' vi vi' vl vl' : V}

/-- Six values under six names, of which the third and the fourth may be those of the last two. -/
theorem lookup_published (ha : a ∉ [a', i, i', l, l']) (ha' : a' ∉ [i, i', l, l']) (hl : l ≠ l') :
    let published := ((((((m.insert a va).insert a' va').insert i vi).insert i' vi').insert l vl).insert
      l' vl')
    published.lookup a = some va ∧ published.lookup a' = some va' ∧ published.lookup l = some vl ∧
      published.lookup l' = some vl' := by
  simp only [List.mem_cons, List.not_mem_nil, or_false, not_or] at ha ha'
  obtain ⟨haa', hai, hai', hal, hal'⟩ := ha
  obtain ⟨ha'i, ha'i', ha'l, ha'l'⟩ := ha'
  simp only [HashMap.lookup_insert_eq]
  simp [haa', hai, hai', hal, hal', ha'i, ha'i', ha'l, ha'l', hl]

end Names

theorem append_sig_ne (name : String) : name ++ ".sig" ≠ name := by
  intro h
  have hlen := congrArg String.length h
  rw [String.length_append] at hlen
  have : ".sig".length = 4 := rfl
  omega

theorem ne_of_head {name name' : String} {c c' : Char} (h : name.toList.head? = some c)
    (h' : name'.toList.head? = some c') (hne : c ≠ c') : name ≠ name' := by
  rintro rfl
  exact hne (Option.some.inj (h.symm.trans h'))

theorem PlainChar.allowed {c : Char} (h : PlainChar c) : c.isAlphanum = true ∨ c ∈ ['.', '-', '_'] :=
  h.imp id fun h => by rw [h]; decide

theorem keyName_artifact (snapshot : Snapshot) (bytes : List UInt8) {suffix : String}
    (hsuffix : ∀ c ∈ suffix.toList, c.isAlphanum = true ∨ c ∈ ['.', '-', '_']) :
    KeyName (immutableSnapshotObjectName snapshot (hexEncode bytes) ++ suffix) := by
  obtain ⟨stem, hstem, hname⟩ := immutableSnapshotObjectName_parts snapshot bytes
  have hdir : PlainPart "snapshots".toList :=
    plainPart_of_mem (by decide : 's' ∈ "snapshots".toList) (by decide)
      (List.all_iff_forall_prop.mp (by decide))
  have hparts : (immutableSnapshotObjectName snapshot (hexEncode bytes) ++ suffix).toList =
      "snapshots".toList ++ '/' :: (stem ++ (".gacl".toList ++ suffix.toList)) := by
    rw [String.toList_append, hname, List.append_assoc, List.cons_append, List.append_assoc]
  refine keyName_of_parts hparts hdir (List.mem_append_right _ (List.mem_append_left _ ?_))
    (by decide : 'g' ≠ '.') fun c hc => ?_
  · decide
  · rw [List.mem_append, List.mem_append] at hc
    rcases hc with hc | hc | hc
    · exact (hstem c hc).allowed
    · have hgacl : ∀ c ∈ ".gacl".toList, c.isAlphanum = true ∨ c ∈ ['.', '-', '_'] :=
    List.all_iff_forall_prop.mp (by decide)
      exact hgacl c hc
    · exact hsuffix c hc

theorem keyName_manifest {m : PublishedManifest} {bytes : List UInt8} (h : m.artifactSha256 = hexEncode bytes)
    {suffix : String} (hsuffix : ∀ c ∈ suffix.toList, c.isAlphanum = true ∨ c ∈ ['.', '-', '_']) :
    KeyName (snapshotManifestObjectName m ++ suffix) := by
  have hdir : PlainPart "manifests".toList :=
    plainPart_of_mem (by decide : 'm' ∈ "manifests".toList) (by decide)
      (List.all_iff_forall_prop.mp (by decide))
  have hfixed : ∀ c ∈ "epoch_".toList ++ "_seq_".toList ++ "_sha256_".toList ++ ".manifest".toList,
      c.isAlphanum = true ∨ c ∈ ['.', '-', '_'] :=
    List.all_iff_forall_prop.mp (by decide)
  simp only [List.mem_append] at hfixed
  have hslash : "manifests/".toList = "manifests".toList ++ ['/'] := by decide
  have hparts : (snapshotManifestObjectName m ++ suffix).toList =
      "manifests".toList ++ '/' :: ((snapshotManifestFileName m).toList ++ suffix.toList) := by
    unfold snapshotManifestObjectName
    simp only [String.toList_append, hslash, List.append_assoc, List.cons_append, List.nil_append]
  refine keyName_of_parts hparts hdir (c := 'e') (List.mem_append_left _ ?_) (by decide) fun c hc => ?_
  · unfold snapshotManifestFileName
    simp only [String.toList_append, List.mem_append]
    exact Or.inl (Or.inl (Or.inl (Or.inl (Or.inl (Or.inl (by decide))))))
  · rw [List.mem_append] at hc
    refine hc.elim (fun hc => ?_) (hsuffix c)
    unfold snapshotManifestFileName at hc
    simp only [String.toList_append, List.mem_append, String.toList_ofList] at hc
    rcases hc with (((((hc | hc) | hc) | hc) | hc) | hc) | hc
    · exact hfixed c (Or.inl (Or.inl (Or.inl hc)))
    · exact (plainChar_of_isDigit (isDigit_of_mem_zeroPadded hc)).allowed
    · exact hfixed c (Or.inl (Or.inl (Or.inr hc)))
    · exact (plainChar_of_isDigit (isDigit_of_mem_zeroPadded hc)).allowed
    · exact hfixed c (Or.inl (Or.inr hc))
    · rw [h] at hc
      exact (hexEncode_hexdigit (List.mem_of_mem_take hc)).1.allowed
    · exact hfixed c (Or.inr hc)

theorem keyName_latest : KeyName latestManifestObject ∧ KeyName latestManifestSignatureObject := by
  have hdir : PlainPart "manifests".toList :=
    plainPart_of_mem (by decide : 'm' ∈ "manifests".toList) (by decide)
      (List.all_iff_forall_prop.mp (by decide))
  have hlatest : latestManifestObject.toList = "manifests".toList ++ '/' :: "latest.manifest".toList := by
    decide
  have hsignature : latestManifestSignatureObject.toList =
      "manifests".toList ++ '/' :: "latest.manifest.sig".toList := by
    decide
  exact ⟨keyName_of_parts hlatest hdir (by decide : 'l' ∈ "latest.manifest".toList) (by decide)
      (List.all_iff_forall_prop.mp (by decide)),
    keyName_of_parts hsignature hdir (by decide : 'l' ∈ "latest.manifest.sig".toList) (by decide)
      (List.all_iff_forall_prop.mp (by decide))⟩

/-! ## A publication -/

/-- What is stored of a snapshot: the artifact, the manifest, and their signatures. -/
structure Stored where
  manifest : PublishedManifest
  artifactPayload : List UInt8
  artifactSignature : List UInt8
  manifestPayload : List UInt8
  manifestSignature : List UInt8

namespace Stored

variable (p : Stored) (store : ObjectStoreConfig)

def publication : SnapshotPublication where
  manifest := p.manifest
  artifactPayload := p.artifactPayload
  artifactSignaturePayload := p.artifactSignature
  immutableManifestPayload := p.manifestPayload
  immutableManifestSignaturePayload := p.manifestSignature
  latestManifestPayload := p.manifestPayload
  latestManifestSignaturePayload := p.manifestSignature

/-- The files after a publication. -/
def files (files : HashMap String (List UInt8)) : HashMap String (List UInt8) :=
  let artifactPath := joinPath snapshotObjectDir p.manifest.artifactObject
  let manifestPath := joinPath snapshotManifestDir (snapshotManifestFileName p.manifest)
  (((((files.insert artifactPath p.artifactPayload).insert (signaturePath artifactPath)
    p.artifactSignature).insert manifestPath p.manifestPayload).insert (signaturePath manifestPath)
    p.manifestSignature).insert latestManifestPath p.manifestPayload).insert
    (signaturePath latestManifestPath) p.manifestSignature

/-- The objects after a publication. -/
def objects (objects : HashMap String (List UInt8)) : HashMap String (List UInt8) :=
  let manifestObject := snapshotManifestObjectName p.manifest
  (((((objects.insert (store.key p.manifest.artifactObject) p.artifactPayload).insert
    (store.key p.manifest.artifactSignatureObject) p.artifactSignature).insert
    (store.key manifestObject) p.manifestPayload).insert (store.key (manifestObject ++ ".sig"))
    p.manifestSignature).insert (store.key latestManifestObject) p.manifestPayload).insert
    (store.key latestManifestSignatureObject) p.manifestSignature

end Stored

/-- The names in a manifest are those that a publication gives. -/
structure PublishedManifest.Named (m : PublishedManifest) : Prop where
  artifactObject : ∃ (snapshot : Snapshot) (bytes : List UInt8),
    m.artifactObject = immutableSnapshotObjectName snapshot (hexEncode bytes)
  artifactSignatureObject : m.artifactSignatureObject = m.artifactObject ++ ".sig"
  artifactSha256 : ∃ bytes, m.artifactSha256 = hexEncode bytes

theorem named_manifest (sha : Sha256) (snapshot : Snapshot) (nowUnix : Nat) (bytes : List UInt8) :
    (snapshot.manifest sha nowUnix bytes).Named := ⟨⟨_, _, rfl⟩, rfl, ⟨_, rfl⟩⟩

section Write

variable {sha : Sha256} {ed : Ed25519} {serde : SerdeJson} {signer : SignatureSigner}
  {store : ObjectStoreConfig}

theorem writeSignedPayloadFile_runs {path text : String} {payload : List UInt8} (s : SnapshotStorage)
    (hsign : signer.signPayload ed serde payload = .ok text) :
    Runs (writeSignedPayloadFile ed serde signer path payload) s () { s with
      files := (s.files.insert path payload).insert (signaturePath path) (utf8 text) } :=
  (Runs.step _ s).bind ((Runs.lift hsign _).bind (.step _ _))

theorem readFile_runs {path : String} {payload : List UInt8} {s : SnapshotStorage}
    (h : s.files.lookup path = some payload) : Runs (readFile path) s payload s := by
  refine .get_bind ?_
  rw [h]
  exact .pure _ s

/-- A file is signed, and its signature is read back. -/
theorem writeSigned_readFile_runs {α : Type} {path text : String} {payload : List UInt8} {s s' : SnapshotStorage}
    {f : List UInt8 → StoreProgram α} {a : α} (hsign : signer.signPayload ed serde payload = .ok text)
    (hf : Runs (f (utf8 text)) { s with
      files := (s.files.insert path payload).insert (signaturePath path) (utf8 text) } a s') :
    Runs (writeSignedPayloadFile ed serde signer path payload >>= fun _ =>
      readFile (signaturePath path) >>= f) s a s' :=
  (writeSignedPayloadFile_runs s hsign).bind ((readFile_runs (AList.lookup_insert _)).bind hf)

theorem PublishedManifest.Named.keyNames {m : PublishedManifest} (h : m.Named) :
    KeyName m.artifactObject ∧ KeyName m.artifactSignatureObject ∧
      KeyName (snapshotManifestObjectName m) ∧ KeyName (snapshotManifestObjectName m ++ ".sig") := by
  have hsig : ∀ c ∈ ".sig".toList, c.isAlphanum = true ∨ c ∈ ['.', '-', '_'] :=
    List.all_iff_forall_prop.mp (by decide)
  have hnil : ∀ c ∈ "".toList, c.isAlphanum = true ∨ c ∈ ['.', '-', '_'] :=
    List.all_iff_forall_prop.mp (by decide)
  obtain ⟨snapshot, bytes, hname⟩ := h.artifactObject
  obtain ⟨bytes', hsha⟩ := h.artifactSha256
  have hartifact := keyName_artifact snapshot bytes hnil
  have hmanifest := keyName_manifest hsha hnil
  rw [String.append_empty] at hartifact hmanifest
  rw [h.artifactSignatureObject, hname]
  exact ⟨hartifact, keyName_artifact snapshot bytes hsig, hmanifest, keyName_manifest hsha hsig⟩

/-- A publication under names that are keys stores its six objects. -/
theorem publishSnapshotToObjectStore_stores {publication : SnapshotPublication}
    (hartifact : KeyName publication.manifest.artifactObject)
    (hsignature : KeyName publication.manifest.artifactSignatureObject)
    (hmanifest : KeyName (snapshotManifestObjectName publication.manifest))
    (hmanifestSignature : KeyName (snapshotManifestObjectName publication.manifest ++ ".sig"))
    (s : SnapshotStorage) :
    Runs (publishSnapshotToObjectStore store publication) s () ⟨s.files,
      (((((s.objects.insert (store.key publication.manifest.artifactObject)
        publication.artifactPayload).insert
        (store.key publication.manifest.artifactSignatureObject)
        publication.artifactSignaturePayload).insert
        (store.key (snapshotManifestObjectName publication.manifest))
        publication.immutableManifestPayload).insert
        (store.key (snapshotManifestObjectName publication.manifest ++ ".sig"))
        publication.immutableManifestSignaturePayload).insert
        (store.key latestManifestObject) publication.latestManifestPayload).insert
        (store.key latestManifestSignatureObject) publication.latestManifestSignaturePayload⟩ := by
  unfold publishSnapshotToObjectStore
  dsimp only
  refine (ObjectStoreConfig.put_runs hartifact _ s).bind ?_
  refine (ObjectStoreConfig.put_runs hsignature _ _).bind ?_
  refine (ObjectStoreConfig.put_runs hmanifest _ _).bind ?_
  refine (ObjectStoreConfig.put_runs hmanifestSignature _ _).bind ?_
  refine (ObjectStoreConfig.put_runs keyName_latest.1 _ _).bind ?_
  exact ObjectStoreConfig.put_runs keyName_latest.2 _ _

theorem publishSnapshotToObjectStore_runs {p : Stored} (h : p.manifest.Named) (s : SnapshotStorage) :
    Runs (publishSnapshotToObjectStore store p.publication) s ()
      { s with objects := p.objects store s.objects } := by
  obtain ⟨hartifact, hsignature, hmanifest, hmanifestSignature⟩ := h.keyNames
  exact @publishSnapshotToObjectStore_stores store p.publication hartifact hsignature hmanifest
    hmanifestSignature s

theorem publishSnapshotToObjectStoreBestEffort_runs {p : Stored} (h : p.manifest.Named) (s : SnapshotStorage) :
    Runs (publishSnapshotToObjectStoreBestEffort (some store) p.publication) s ()
      { s with objects := p.objects store s.objects } := by
  have hruns := @publishSnapshotToObjectStore_runs store p h s
  unfold publishSnapshotToObjectStoreBestEffort
  dsimp only
  split
  · exact hruns
  · exact hruns.reported

/-- What a publication stores. -/
theorem writeSnapshotManifestPublication_runs {snapshot : Snapshot} {nowUnix : Nat}
    {artifactText manifestText : String}
    (hartifact : signer.signPayload ed serde (encodeSnapshot snapshot) = .ok artifactText)
    (hmanifest : signer.signPayload ed serde (encodeSnapshotManifest serde
      (snapshot.manifest sha nowUnix (encodeSnapshot snapshot))) = .ok manifestText) (s : SnapshotStorage) :
    let p : Stored := ⟨snapshot.manifest sha nowUnix (encodeSnapshot snapshot), encodeSnapshot snapshot,
      utf8 artifactText, encodeSnapshotManifest serde
        (snapshot.manifest sha nowUnix (encodeSnapshot snapshot)), utf8 manifestText⟩
    Runs (writeSnapshotManifestPublication sha ed serde signer (some store) nowUnix snapshot) s p.manifest
      ⟨p.files s.files, p.objects store s.objects⟩ := by
  intro p
  refine writeSigned_readFile_runs hartifact ?_
  refine writeSigned_readFile_runs hmanifest ?_
  refine writeSigned_readFile_runs hmanifest ?_
  have hnamed : p.manifest.Named := named_manifest sha snapshot nowUnix _
  exact (publishSnapshotToObjectStoreBestEffort_runs hnamed _).bind (.pure _ _)

end Write

/-! ## What is stored is found -/

section Lookups

variable {p : Stored} {store : ObjectStoreConfig}

theorem head_joinPath {dir name : String} {c : Char} (h : dir.toList.head? = some c) :
    (joinPath dir name).toList.head? = some c := by
  unfold joinPath
  simp only [String.toList_append, List.append_assoc, List.head?_append, h, Option.some_or]

theorem head_signaturePath {path : String} {c : Char} (h : path.toList.head? = some c) :
    (signaturePath path).toList.head? = some c := by
  unfold signaturePath
  simp only [String.toList_append, List.head?_append, h, Option.some_or]

/-- Names that begin with one letter are none of four names that begin with another one. -/
theorem not_mem_of_head {names : List String} {name : String} {c c' : Char}
    (h : name.toList.head? = some c) (hnames : ∀ name' ∈ names, name'.toList.head? = some c') (hne : c ≠ c') :
    name ∉ names := fun hmem => ne_of_head h (hnames _ hmem) hne rfl

theorem Stored.lookup_files (p : Stored) (files : HashMap String (List UInt8)) :
    let artifactPath := joinPath snapshotObjectDir p.manifest.artifactObject
    (p.files files).lookup artifactPath = some p.artifactPayload ∧
      (p.files files).lookup (signaturePath artifactPath) = some p.artifactSignature ∧
      (p.files files).lookup latestManifestPath = some p.manifestPayload ∧
      (p.files files).lookup (signaturePath latestManifestPath) = some p.manifestSignature := by
  intro artifactPath
  have hobjects : artifactPath.toList.head? = some 'o' := head_joinPath rfl
  have hmanifests : ∀ name ∈ [joinPath snapshotManifestDir (snapshotManifestFileName p.manifest),
      signaturePath (joinPath snapshotManifestDir (snapshotManifestFileName p.manifest)), latestManifestPath,
      signaturePath latestManifestPath], name.toList.head? = some 'm' := by
    have hdir : ∀ name, (joinPath snapshotManifestDir name).toList.head? = some 'm' :=
      fun name => head_joinPath rfl
    simp only [List.forall_mem_cons, List.not_mem_nil, false_imp_iff, implies_true, and_true]
    exact ⟨hdir _, head_signaturePath (hdir _), rfl, rfl⟩
  refine lookup_published (List.mem_cons.not.mpr (not_or.mpr ⟨(append_sig_ne artifactPath).symm, ?_⟩)) ?_
    (append_sig_ne latestManifestPath).symm
  · exact not_mem_of_head hobjects hmanifests (by decide)
  · exact not_mem_of_head (head_signaturePath hobjects) hmanifests (by decide)

theorem Stored.lookup_objects (h : p.manifest.Named) (objects : HashMap String (List UInt8)) :
    (p.objects store objects).lookup (store.key p.manifest.artifactObject) = some p.artifactPayload ∧
      (p.objects store objects).lookup (store.key p.manifest.artifactSignatureObject) =
        some p.artifactSignature ∧
      (p.objects store objects).lookup (store.key latestManifestObject) = some p.manifestPayload ∧
      (p.objects store objects).lookup (store.key latestManifestSignatureObject) =
        some p.manifestSignature := by
  obtain ⟨snapshot, bytes, hname⟩ := h.artifactObject
  obtain ⟨stem, -, hparts⟩ := immutableSnapshotObjectName_parts snapshot bytes
  have hsnapshots : p.manifest.artifactObject.toList.head? = some 's' := by
    rw [hname, hparts]
    rfl
  have hmanifest : (snapshotManifestObjectName p.manifest).toList.head? = some 'm' := by
    unfold snapshotManifestObjectName
    simp only [String.toList_append, List.head?_append]
    rfl
  have hmanifests : ∀ name ∈ [snapshotManifestObjectName p.manifest,
      snapshotManifestObjectName p.manifest ++ ".sig", latestManifestObject,
      latestManifestSignatureObject], name.toList.head? = some 'm' := by
    simp only [List.forall_mem_cons, List.not_mem_nil, false_imp_iff, implies_true, and_true]
    exact ⟨hmanifest, head_signaturePath hmanifest, rfl, rfl⟩
  -- different names have different keys
  have hkeys : ∀ {name : String} (names : List String), name ∉ names →
      store.key name ∉ names.map store.key := by
    intro name names hname hmem
    obtain ⟨name', hmem, heq⟩ := List.mem_map.mp hmem
    exact hname (ObjectStoreConfig.key_inj heq ▸ hmem)
  have hmanifestNames := not_mem_of_head hsnapshots hmanifests (by decide)
  refine lookup_published (hkeys (_ :: [_, _, _, _]) (List.mem_cons.not.mpr (not_or.mpr ⟨?_, hmanifestNames⟩)))
    (hkeys [_, _, _, _] ?_) fun heq => ?_
  · rw [h.artifactSignatureObject]
    exact (append_sig_ne _).symm
  · rw [h.artifactSignatureObject]
    exact not_mem_of_head (head_signaturePath hsnapshots) hmanifests (by decide)
  · exact absurd (ObjectStoreConfig.key_inj heq) (by decide)

end Lookups

end Globacl
