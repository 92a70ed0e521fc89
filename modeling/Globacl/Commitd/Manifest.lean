import Globacl.Agent.Relay
import Globacl.Core.Signatures
import Mathlib.Data.Bool.AllAny
import Mathlib.Data.List.TakeWhile

/-!
# The manifest of a snapshot (`globacl-core/src/lib/snapshots.rs`, `signatures.rs`)

A manifest names the artifact of a snapshot after its largest sequence and its digest, and lists the
watermarks under one key for each shard. The digest (`sha2`) and `serde_json` are parameters.

* `safe_immutableSnapshotObjectName`: the name of an artifact is a safe object name.
* `readSnapshotManifest_encode`: a manifest is read back from its JSON object.
-/

namespace Globacl

open Lib

/-! ## Names -/

/-- `sha2::Sha256`. -/
structure Sha256 where
  digest : List UInt8 → List UInt8
  length_digest : ∀ bytes, (digest bytes).length = 32

/-- `snapshot_artifact_sha256_hex`. -/
def snapshotArtifactSha256Hex (sha : Sha256) (bytes : List UInt8) : String :=
  hexEncode (sha.digest bytes)

/-- A number in decimal with zeros in front, as `{:0width}`. -/
def zeroPadded (width n : Nat) : String :=
  String.ofList ((toString n).toList.leftpad width '0')

/-- The largest watermark, or 0. -/
def Snapshot.maxSeq (snapshot : Snapshot) : Nat := snapshot.watermarks.max?.getD 0

/-- `immutable_snapshot_object_name`. -/
def immutableSnapshotObjectName (snapshot : Snapshot) (artifactSha256 : String) : String :=
  "snapshots/max_seq_" ++ zeroPadded 20 snapshot.maxSeq ++ "_sha256_" ++ artifactSha256 ++ ".gacl"

/-! ## Manifests -/

/-- `SnapshotManifest` with all its fields. -/
structure PublishedManifest extends SnapshotManifest where
  createdAtUnix : Nat
  maxSeq : Nat

/-- `SnapshotManifest::for_snapshot`. -/
def PublishedManifest.forSnapshot (snapshot : Snapshot) (createdAtUnix : Nat) (artifactObject : String)
    (artifactBytes : Nat) (artifactSha256 : String) : PublishedManifest where
  manifestVersion := snapshotManifestVersion
  formatVersion := Globacl.formatVersion
  createdAtUnix
  artifactSignatureObject := artifactObject ++ ".sig"
  artifactObject
  artifactBytes
  artifactSha256
  shardCount := snapshot.shardCount
  entryCount := snapshot.entries.length
  ruleCount := snapshot.rules.length
  maxSeq := snapshot.maxSeq
  watermarks := snapshot.watermarks

/-- The key of a shard. -/
def shardKey (shardId : Nat) : String := "shard_" ++ zeroPadded 4 shardId

/-- The object of `encode_snapshot_manifest`. -/
def manifestFields (m : PublishedManifest) : List (String × Json) :=
  [("manifest_version", .ofNat m.manifestVersion), ("format_version", .ofNat m.formatVersion),
    ("created_at_unix", .ofNat m.createdAtUnix), ("artifact_object", .string m.artifactObject),
    ("artifact_signature_object", .string m.artifactSignatureObject),
    ("artifact_bytes", .ofNat m.artifactBytes), ("artifact_sha256", .string m.artifactSha256),
    ("shard_count", .ofNat m.shardCount), ("entry_count", .ofNat m.entryCount),
    ("rule_count", .ofNat m.ruleCount), ("max_seq", .ofNat m.maxSeq)] ++
  m.watermarks.zipIdx.map fun shard => (shardKey shard.2, .ofNat shard.1)

section Serde

variable (serde : SerdeJson)

/-- `encode_snapshot_manifest`. -/
def encodeSnapshotManifest (m : PublishedManifest) : List UInt8 :=
  utf8 (serde.toString (.object (manifestFields m)))

/-- `parse_u64` of a field that is 0 when it is missing. -/
def parseU64Manifest (form : Form) (key : String) : Result Nat := parseU64 (form.lookup key) 0 key

/-- `parse_u16_manifest`. -/
def parseU16Manifest (form : Form) (key : String) : Result Nat := do
  let value ← parseU64Manifest form key
  if value < 2 ^ 16 then pure value
  else throw (.parse s!"{key} must fit in u16, got {value}")

/-- The manifest that the fields of an object spell out. -/
def manifestOfForm (form : Form) : Result PublishedManifest := do
  let shardCount ← parseU16Manifest form "shard_count"
  let watermarks ← (List.range shardCount).mapM fun shardId => parseU64Manifest form (shardKey shardId)
  let manifestVersion ← parseU16Manifest form "manifest_version"
  let formatVersion ← parseU16Manifest form "format_version"
  let createdAtUnix ← parseU64Manifest form "created_at_unix"
  let artifactObject ← required form "artifact_object"
  let artifactSignatureObject ← required form "artifact_signature_object"
  let artifactBytes ← parseU64Manifest form "artifact_bytes"
  let artifactSha256 ← required form "artifact_sha256"
  let entryCount ← parseU64Manifest form "entry_count"
  let ruleCount ← parseU64Manifest form "rule_count"
  let maxSeq ← parseU64Manifest form "max_seq"
  pure { manifestVersion, formatVersion, createdAtUnix, artifactObject, artifactSignatureObject,
         artifactBytes, artifactSha256, shardCount, entryCount, ruleCount, maxSeq, watermarks }

/-- `decode_snapshot_manifest` up to the validation. -/
def readSnapshotManifest (bytes : List UInt8) : Result PublishedManifest := do
  let form ← parseJsonFields serde bytes
  manifestOfForm form

/-- `decode_snapshot_manifest`. -/
def decodeSnapshotManifest (bytes : List UInt8) : Result PublishedManifest := do
  let m ← readSnapshotManifest serde bytes
  m.validate
  pure m

end Serde

/-! ## Names are safe -/

theorem isDigit_of_mem_zeroPadded {width n : Nat} {c : Char} (hc : c ∈ (zeroPadded width n).toList) :
    c.isDigit = true := by
  rw [zeroPadded, String.toList_ofList, List.leftpad, List.mem_append, List.mem_replicate] at hc
  rcases hc with ⟨-, rfl⟩ | hc
  · rfl
  · exact isDigit_of_mem_toString hc

/-- The zeros in front do not change the number. -/
theorem ofDigitChars_zeroPadded (width n : Nat) :
    Nat.ofDigitChars 10 (zeroPadded width n).toList 0 = n := by
  have hzeros : ∀ k cs, Nat.ofDigitChars 10 (List.replicate k '0' ++ cs) 0 = Nat.ofDigitChars 10 cs 0 := by
    intro k cs
    induction k with
    | zero => rfl
    | succ k ih => rw [List.replicate_succ, List.cons_append, Nat.ofDigitChars_cons]; exact ih
  rw [zeroPadded, String.toList_ofList, List.leftpad, hzeros, Nat.toString_eq_repr, Nat.toList_repr,
    Nat.ofDigitChars_ten_toDigits]

theorem zeroPadded_inj {width n n' : Nat} (h : zeroPadded width n = zeroPadded width n') : n = n' := by
  rw [← ofDigitChars_zeroPadded width n, h, ofDigitChars_zeroPadded]

/-- A character that is in no way special in an object name. -/
def PlainChar (c : Char) : Prop := c.isAlphanum = true ∨ c = '_'

instance : DecidablePred PlainChar := fun c =>
  inferInstanceAs (Decidable (c.isAlphanum = true ∨ c = '_'))

theorem plainChar_of_isDigit {c : Char} (h : c.isDigit = true) : PlainChar c :=
  Or.inl (by simp [Char.isAlphanum, h])

theorem hexChar_hexdigit : ∀ nibble : UInt8, nibble < 16 →
    (hexChar nibble).isAlphanum = true ∧ isAsciiHexdigit (hexChar nibble) = true := by
  have hall : ∀ n : Fin 16, (hexChar (UInt8.ofNat n)).isAlphanum = true ∧
      isAsciiHexdigit (hexChar (UInt8.ofNat n)) = true := by
    decide
  intro nibble h
  have heq : nibble = UInt8.ofNat (⟨nibble.toNat, h⟩ : Fin 16) := UInt8.ofNat_toNat.symm
  rw [heq]
  exact hall _

theorem hexEncode_hexdigit {bytes : List UInt8} {c : Char} (hc : c ∈ (hexEncode bytes).toList) :
    PlainChar c ∧ isAsciiHexdigit c = true := by
  obtain ⟨nibble, hlt, rfl⟩ := mem_hexEncode hc
  exact ⟨Or.inl (hexChar_hexdigit nibble hlt).1, (hexChar_hexdigit nibble hlt).2⟩

theorem length_hexEncode (bytes : List UInt8) : (hexEncode bytes).length = 2 * bytes.length := by
  rw [hexEncode, String.length_ofList, List.length_flatMap]
  simp [hexPair, Nat.mul_comm]

/-- The name of an artifact is made of two plain parts with a point in the second one. -/
theorem immutableSnapshotObjectName_parts (snapshot : Snapshot) (bytes : List UInt8) :
    ∃ stem, (∀ c ∈ stem, PlainChar c) ∧
      (immutableSnapshotObjectName snapshot (hexEncode bytes)).toList =
        "snapshots".toList ++ '/' :: (stem ++ ".gacl".toList) := by
  refine ⟨"max_seq_".toList ++ (zeroPadded 20 snapshot.maxSeq).toList ++ "_sha256_".toList ++
    (hexEncode bytes).toList, fun c hc => ?_, ?_⟩
  · simp only [List.mem_append] at hc
    rcases hc with ((hc | hc) | hc) | hc
    · exact List.all_iff_forall_prop.mp (by decide) c hc
    · exact plainChar_of_isDigit (isDigit_of_mem_zeroPadded hc)
    · exact List.all_iff_forall_prop.mp (by decide) c hc
    · exact (hexEncode_hexdigit hc).1
  · have hsplit : "snapshots/max_seq_".toList = "snapshots".toList ++ '/' :: "max_seq_".toList := by
      decide
    unfold immutableSnapshotObjectName
    simp only [String.toList_append, hsplit, List.append_assoc, List.cons_append]

theorem PlainChar.ne {c : Char} (h : PlainChar c) : c ≠ '.' ∧ c ≠ '/' ∧ c ≠ '\\' := by
  refine ⟨?_, ?_, ?_⟩ <;>
  · rintro rfl
    revert h
    unfold PlainChar
    decide

theorem count_plain {cs : List Char} (h : ∀ c ∈ cs, PlainChar c) :
    cs.count '.' = 0 ∧ cs.count '/' = 0 :=
  ⟨List.count_eq_zero.mpr fun hc => (h _ hc).ne.1 rfl,
    List.count_eq_zero.mpr fun hc => (h _ hc).ne.2.1 rfl⟩

/-- The name of an artifact is a safe object name. -/
theorem safe_immutableSnapshotObjectName (snapshot : Snapshot) (bytes : List UInt8) :
    isSafeSnapshotObjectName (immutableSnapshotObjectName snapshot (hexEncode bytes)) = true := by
  obtain ⟨stem, hstem, hname⟩ := immutableSnapshotObjectName_parts snapshot bytes
  generalize immutableSnapshotObjectName snapshot (hexEncode bytes) = name at hname
  have hne : name.isEmpty = false := by
    rw [Bool.eq_false_iff, ne_eq, String.isEmpty_iff]
    rintro rfl
    simp at hname
  obtain ⟨hpoint, hslash⟩ := count_plain hstem
  -- there is one point and one slash
  have hinfix : ∀ c, name.toList.count c ≤ 1 → ¬[c, c] <:+: name.toList := by
    intro c hcount hinfix
    have hle := hinfix.sublist.count_le c
    simp at hle
    omega
  have hsnapshots : ("snapshots".toList.all fun c =>
      c.isAlphanum = true ∨ c ∈ ['/', '.', '_', '-']) = true := by decide
  have hgacl : (".gacl".toList.all fun c =>
      c.isAlphanum = true ∨ c ∈ ['/', '.', '_', '-']) = true := by decide
  have hchars : ∀ c ∈ name.toList, c.isAlphanum = true ∨ c ∈ ['/', '.', '_', '-'] := by
    intro c hc
    rw [hname] at hc
    simp only [List.mem_append, List.mem_cons] at hc
    rcases hc with hc | rfl | hc | hc
    · exact List.all_iff_forall_prop.mp hsnapshots c hc
    · decide
    · exact (hstem c hc).imp id fun h => by rw [h]; decide
    · exact List.all_iff_forall_prop.mp hgacl c hc
  unfold isSafeSnapshotObjectName
  simp only [Bool.and_eq_true, decide_eq_true_eq, Bool.not_eq_true', hne, List.all_eq_true, Bool.or_eq_true]
  refine ⟨⟨⟨⟨⟨⟨trivial, ?_⟩, ?_⟩, ?_⟩, ?_⟩, ?_⟩, hchars⟩
  · rw [hname]
    simp
  · intro hc
    have := hchars _ hc
    revert this
    decide
  · refine hinfix '.' ?_
    rw [hname]
    simp [hpoint]
  · refine hinfix '/' ?_
    rw [hname]
    simp [hslash]
  · rw [hname]
    exact ⟨"snapshots".toList ++ '/' :: stem, by simp⟩

/-! ## A manifest is read back -/

/-- The numbers have the widths that the source gives them, and no text is blank. -/
structure PublishedManifest.Fits (m : PublishedManifest) : Prop where
  manifestVersion : m.manifestVersion < 2 ^ 16
  formatVersion : m.formatVersion < 2 ^ 16
  createdAtUnix : m.createdAtUnix < 2 ^ 64
  artifactObject : trim m.artifactObject ≠ ""
  artifactSignatureObject : trim m.artifactSignatureObject ≠ ""
  artifactBytes : m.artifactBytes < 2 ^ 64
  artifactSha256 : trim m.artifactSha256 ≠ ""
  shardCount : m.shardCount < 2 ^ 16
  entryCount : m.entryCount < 2 ^ 64
  ruleCount : m.ruleCount < 2 ^ 64
  maxSeq : m.maxSeq < 2 ^ 64
  watermarks : ∀ w ∈ m.watermarks, w < 2 ^ 64
  shards : m.watermarks.length = m.shardCount

/-- The key of a shard ends in digits alone, and no other key does that starts like it. -/
theorem shardKey_ne {key : String} (h : (key.toList.drop 6).all Char.isDigit = false) (shardId : Nat) :
    shardKey shardId ≠ key := by
  rintro rfl
  refine Bool.eq_false_iff.mp h (List.all_eq_true.mpr fun c hc => ?_)
  have hdrop : (shardKey shardId).toList.drop 6 = (zeroPadded 4 shardId).toList := by
    unfold shardKey
    simp only [String.toList_append]
    rfl
  rw [hdrop] at hc
  exact isDigit_of_mem_zeroPadded hc

theorem shardKey_inj {shardId shardId' : Nat} (h : shardKey shardId = shardKey shardId') :
    shardId = shardId' := by
  have hlist := congrArg String.toList h
  unfold shardKey at hlist
  simp only [String.toList_append] at hlist
  exact zeroPadded_inj (String.toList_injective (List.append_cancel_left hlist))

theorem nodup_manifestFields (m : PublishedManifest) : ((manifestFields m).map Prod.fst).Nodup := by
  have hshards : (m.watermarks.zipIdx.map fun shard => (shardKey shard.2, Json.ofNat shard.1)).map
      Prod.fst = (List.range' 0 m.watermarks.length).map shardKey := by
    rw [List.map_map, ← List.zipIdx_map_snd 0 m.watermarks, List.map_map]
    rfl
  unfold manifestFields
  rw [List.map_append, hshards, List.nodup_append]
  simp only [List.map_cons, List.map_nil]
  refine ⟨by decide, (List.nodup_map_iff fun _ _ => shardKey_inj).mpr List.nodup_range', ?_⟩
  intro key hkey key' hkey'
  obtain ⟨shardId, -, rfl⟩ := List.mem_map.mp hkey'
  have hfixed : (key.toList.drop 6).all Char.isDigit = false := by
    revert key
    decide
  exact (shardKey_ne hfixed shardId).symm

section Read

variable {form : Form} {key : String} {n : Nat}

theorem parseU64Manifest_toString (h : form.lookup key = some (toString n)) (hn : n < 2 ^ 64) :
    parseU64Manifest form key = .ok n := by
  rw [parseU64Manifest, h, parseU64_toString hn]

theorem parseU16Manifest_toString (h : form.lookup key = some (toString n)) (hn : n < 2 ^ 16) :
    parseU16Manifest form key = .ok n := by
  rw [parseU16Manifest, parseU64Manifest_toString h (by omega), ok_bind, if_pos hn]
  rfl

end Read

/-- A loop that reads what a list spells out. -/
theorem mapM_range_eq_ok {f : Nat → Result Nat} {l : List Nat}
    (h : ∀ i n, l[i]? = some n → f i = .ok n) : (List.range l.length).mapM f = .ok l := by
  induction l using List.reverseRecOn with
  | nil => rfl
  | append_singleton l n ih =>
    have hlast := h l.length n (by simp)
    have ih := ih fun i n hi => h i n (by
      rw [List.getElem?_append_left (List.getElem?_eq_some_iff.mp hi).1]
      exact hi)
    rw [List.length_append, List.length_singleton, List.range_succ, List.mapM_append, ih, ok_bind,
      List.mapM_cons, hlast]
    rfl

/-- A manifest is read back from its JSON object. -/
theorem readSnapshotManifest_encode {serde : SerdeJson} {m : PublishedManifest} (h : m.Fits)
    (hserde : serde.Restores (manifestFields m)) :
    readSnapshotManifest serde (encodeSnapshotManifest serde m) = .ok m := by
  obtain ⟨form, hform, hfields⟩ := parseJsonFields_toString hserde (nodup_manifestFields m)
  have hnum : ∀ key n, (key, Json.ofNat n) ∈ manifestFields m → form.lookup key = some (toString n) :=
    fun key n hmem => hfields key (.ofNat n) hmem
  have htext : ∀ key value, (key, Json.string value) ∈ manifestFields m → trim value ≠ "" →
      required form key = .ok value :=
    fun key value hmem hne => required_of_lookup (hfields key (.string value) hmem) hne
  have hshards : ∀ i n, m.watermarks[i]? = some n → parseU64Manifest form (shardKey i) = .ok n := by
    intro i n hi
    refine parseU64Manifest_toString (hnum _ _ ?_) (h.watermarks n (List.mem_of_getElem? hi))
    refine List.mem_append_right _ (List.mem_map.mpr ⟨(n, i), ?_, rfl⟩)
    exact List.mk_mem_zipIdx_iff_getElem?.mpr hi
  have hloop := mapM_range_eq_ok hshards
  rw [h.shards] at hloop
  unfold readSnapshotManifest encodeSnapshotManifest manifestOfForm
  rw [hform, ok_bind,
    parseU16Manifest_toString (hnum "shard_count" _ (by simp [manifestFields])) h.shardCount, ok_bind,
    hloop, ok_bind,
    parseU16Manifest_toString (hnum "manifest_version" _ (by simp [manifestFields])) h.manifestVersion,
    ok_bind,
    parseU16Manifest_toString (hnum "format_version" _ (by simp [manifestFields])) h.formatVersion,
    ok_bind,
    parseU64Manifest_toString (hnum "created_at_unix" _ (by simp [manifestFields])) h.createdAtUnix,
    ok_bind, htext "artifact_object" _ (by simp [manifestFields]) h.artifactObject, ok_bind,
    htext "artifact_signature_object" _ (by simp [manifestFields]) h.artifactSignatureObject, ok_bind,
    parseU64Manifest_toString (hnum "artifact_bytes" _ (by simp [manifestFields])) h.artifactBytes,
    ok_bind, htext "artifact_sha256" _ (by simp [manifestFields]) h.artifactSha256, ok_bind,
    parseU64Manifest_toString (hnum "entry_count" _ (by simp [manifestFields])) h.entryCount, ok_bind,
    parseU64Manifest_toString (hnum "rule_count" _ (by simp [manifestFields])) h.ruleCount, ok_bind,
    parseU64Manifest_toString (hnum "max_seq" _ (by simp [manifestFields])) h.maxSeq, ok_bind]
  rfl

/-! ## The manifest of a snapshot -/

/-- A text with a character that is no white space is not blank. -/
theorem trim_ne_empty {value : String} {c : Char} (hc : c ∈ value.toList) (hspace : isWhitespace c = false) :
    trim value ≠ "" := by
  intro h
  have hnil : ((value.toList.dropWhile isWhitespace).reverse.dropWhile isWhitespace).reverse = [] := by
    have hlist := congrArg String.toList h
    rwa [trim, trimEndMatches, String.toList_ofList] at hlist
  rw [List.reverse_eq_nil_iff, List.dropWhile_eq_nil_iff] at hnil
  have hall : ∀ c ∈ value.toList.dropWhile isWhitespace, isWhitespace c = true :=
    fun c hc => hnil c (List.mem_reverse.mpr hc)
  have hmem : c ∈ value.toList.takeWhile isWhitespace ++ value.toList.dropWhile isWhitespace := by
    rwa [List.takeWhile_append_dropWhile]
  rcases List.mem_append.mp hmem with hc | hc
  · rw [List.mem_takeWhile_imp hc] at hspace
    cases hspace
  · rw [hall c hc] at hspace
    cases hspace

theorem Snapshot.maxSeq_lt {snapshot : Snapshot} (h : ∀ w ∈ snapshot.watermarks, w < 2 ^ 64) :
    snapshot.maxSeq < 2 ^ 64 := by
  unfold Snapshot.maxSeq
  cases hmax : snapshot.watermarks.max? with
  | none => decide
  | some w => exact h w (List.max?_mem hmax)

section ForSnapshot

variable {snapshot : Snapshot} {sha : Sha256} {createdAtUnix artifactBytes : Nat}

/-- The manifest that is published with the artifact `bytes`. -/
def Snapshot.manifest (snapshot : Snapshot) (sha : Sha256) (createdAtUnix : Nat)
    (bytes : List UInt8) : PublishedManifest :=
  .forSnapshot snapshot createdAtUnix
    (immutableSnapshotObjectName snapshot (snapshotArtifactSha256Hex sha bytes)) bytes.length
    (snapshotArtifactSha256Hex sha bytes)

theorem validate_manifest (hlen : snapshot.watermarks.length = snapshot.shardCount)
    (bytes : List UInt8) : (snapshot.manifest sha createdAtUnix bytes).validate = .ok () := by
  have hhex : ¬((snapshotArtifactSha256Hex sha bytes).length ≠ 64 ∨
      (!(snapshotArtifactSha256Hex sha bytes).toList.all isAsciiHexdigit) = true) := by
    have hall : (snapshotArtifactSha256Hex sha bytes).toList.all isAsciiHexdigit = true :=
      List.all_eq_true.mpr fun c hc => (hexEncode_hexdigit hc).2
    have hlen : (snapshotArtifactSha256Hex sha bytes).length = 64 := by
      rw [snapshotArtifactSha256Hex, length_hexEncode, sha.length_digest]
    rw [hall, hlen]
    decide
  unfold SnapshotManifest.validate Snapshot.manifest PublishedManifest.forSnapshot
  dsimp only
  rw [if_neg (not_not.mpr rfl), if_neg (not_not.mpr rfl), if_neg (not_not.mpr hlen), if_neg, if_neg
    (not_not.mpr rfl), if_neg hhex]
  rw [snapshotArtifactSha256Hex, safe_immutableSnapshotObjectName]
  decide

theorem fits_manifest (hcount : snapshot.shardCount < 2 ^ 16)
    (hwatermarks : ∀ w ∈ snapshot.watermarks, w < 2 ^ 64) (hentries : snapshot.entries.length < 2 ^ 64)
    (hrules : snapshot.rules.length < 2 ^ 64) (hlen : snapshot.watermarks.length = snapshot.shardCount)
    (htime : createdAtUnix < 2 ^ 64) {bytes : List UInt8} (hbytes : bytes.length < 2 ^ 64) :
    (snapshot.manifest sha createdAtUnix bytes).Fits := by
  have hname : ∀ suffix, 's' ∈ (immutableSnapshotObjectName snapshot
      (snapshotArtifactSha256Hex sha bytes) ++ suffix).toList := by
    intro suffix
    obtain ⟨stem, -, hparts⟩ := immutableSnapshotObjectName_parts snapshot (sha.digest bytes)
    rw [String.toList_append, snapshotArtifactSha256Hex, hparts]
    simp
  have hhex : snapshotArtifactSha256Hex sha bytes ≠ "" := by
    refine hexEncode_ne_empty fun h => ?_
    have := sha.length_digest bytes
    rw [h] at this
    cases this
  exact {
    manifestVersion := (by decide : snapshotManifestVersion < 2 ^ 16)
    formatVersion := (by decide : formatVersion < 2 ^ 16)
    createdAtUnix := htime
    artifactObject := by
      have := hname ""
      rw [String.append_empty] at this
      exact trim_ne_empty this (by decide)
    artifactSignatureObject := trim_ne_empty (hname ".sig") (by decide)
    artifactBytes := hbytes
    artifactSha256 := by
      show trim (snapshotArtifactSha256Hex sha bytes) ≠ ""
      rwa [snapshotArtifactSha256Hex, trim_hexEncode]
    shardCount := hcount
    entryCount := hentries
    ruleCount := hrules
    maxSeq := Snapshot.maxSeq_lt hwatermarks
    watermarks := hwatermarks
    shards := hlen }

end ForSnapshot

end Globacl
