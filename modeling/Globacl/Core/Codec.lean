import Globacl.Core.Domain
import Globacl.Lib.Codec

/-!
# The binary formats (`globacl-core/src/lib/codec.rs`, `snapshots.rs`)

Mutations, streams of mutations and snapshots as bytes. The integers of the model are cut to the
width that the source has for them, so an encoder is what the code does on values that fit
(`Fits`), and a decoder returns only such values.

`Vec::with_capacity` panics where the elements could not be addressed, and the process is aborted
where the allocator refuses the memory; the sizes of the elements are those of their fields, with the
padding of a 64-bit target. Texts and frames, which have lengths of 32 bits, are taken to be granted.

* `formats_round_trip`: what is encoded is decoded to the same value.
-/

namespace Globacl

open Lib Parser

abbrev Decoder := Parser GlobAclError

/-! ## Text -/

/-- `str::as_bytes`. -/
def utf8 (value : String) : List UInt8 := value.toByteArray.data.toList

/-- `String::from_utf8`. -/
def fromUtf8 (bytes : List UInt8) : Option String := String.fromUTF8? ⟨bytes.toArray⟩

theorem fromUtf8_utf8 (value : String) : fromUtf8 (utf8 value) = some value := by
  unfold fromUtf8 utf8
  rw [Array.toArray_toList]
  exact dif_pos value.isValidUTF8

theorem utf8_ne_nil {text : String} (h : text ≠ "") : utf8 text ≠ [] := by
  intro hnil
  have hread := fromUtf8_utf8 text
  rw [hnil] at hread
  exact h (Option.some.inj (hread.symm.trans (fromUtf8_utf8 "")))

theorem utf8_of_fromUtf8 {bytes : List UInt8} {value : String} (h : fromUtf8 bytes = some value) :
    utf8 value = bytes := by
  unfold fromUtf8 String.fromUTF8? at h
  split at h
  · cases h
    rfl
  · cases h

/-- Each character below 128 is one byte. -/
theorem utf8_ofList_ascii {cs : List Char} (h : ∀ c ∈ cs, c.toNat < 128) :
    utf8 (String.ofList cs) = cs.map fun c => c.toNat.toUInt8 := by
  unfold utf8
  rw [String.toByteArray_ofList]
  induction cs with
  | nil => rfl
  | cons c cs ih =>
    have hc : c.utf8Size = 1 := by
      rw [Char.utf8Size_eq_one_iff]
      exact Nat.le_of_lt_succ (h c List.mem_cons_self)
    have hcs := ih fun c hc => h c (List.mem_cons_of_mem _ hc)
    rw [← List.singleton_append, List.utf8Encode_append, List.utf8Encode_singleton,
      String.utf8EncodeChar_eq_singleton hc, ByteArray.data_append, Array.toList_append,
      List.toList_data_toByteArray, hcs]
    rfl

/-- How many bytes at the front form a character, or fail to: a character with its length, or the
length of the bytes that `String::from_utf8_lossy` replaces by one replacement character. -/
def utf8Chunk : List UInt8 → Except Nat Nat
  | [] => .error 0
  | b₀ :: rest =>
    let cont := fun b : UInt8 => 0x80 ≤ b && b ≤ 0xbf
    -- the bytes after the first, and the range of the second
    let (need, low, high) : Nat × UInt8 × UInt8 :=
      if b₀ < 0x80 then (0, 0, 0)
      else if 0xc2 ≤ b₀ && b₀ ≤ 0xdf then (1, 0x80, 0xbf)
      else if b₀ == 0xe0 then (2, 0xa0, 0xbf)
      else if b₀ == 0xed then (2, 0x80, 0x9f)
      else if 0xe1 ≤ b₀ && b₀ ≤ 0xef then (2, 0x80, 0xbf)
      else if b₀ == 0xf0 then (3, 0x90, 0xbf)
      else if 0xf1 ≤ b₀ && b₀ ≤ 0xf3 then (3, 0x80, 0xbf)
      else if b₀ == 0xf4 then (3, 0x80, 0x8f)
      else (4, 0, 0)
    if need = 0 then .ok 1
    else if need = 4 then .error 1
    else
      match rest with
      | [] => .error 1
      | b₁ :: rest =>
        if !(low ≤ b₁ && b₁ ≤ high) then .error 1
        else
          let more := ((rest.take (need - 1)).takeWhile cont).length
          if more = need - 1 then .ok (need + 1) else .error (2 + more)

/-- The loop of `String::from_utf8_lossy` over bytes that are not valid as a whole. -/
def lossyChars : Nat → List UInt8 → List UInt8
  | 0, _ => []
  | _ + 1, [] => []
  | fuel + 1, bytes =>
    match utf8Chunk bytes with
    | .ok n => bytes.take n ++ lossyChars fuel (bytes.drop n)
    | .error n => [0xef, 0xbf, 0xbd] ++ lossyChars fuel (bytes.drop n)

/-- `String::from_utf8_lossy`. -/
def fromUtf8Lossy (bytes : List UInt8) : String :=
  match fromUtf8 bytes with
  | some value => value
  | none => (fromUtf8 (lossyChars bytes.length bytes)).getD ""

/-! ## Tags -/

/-- `Action::to_u8`. -/
def Action.toU8 : Action → UInt8
  | .deny => 1
  | .allowOverride => 2
  | .delete => 3

/-- `Action::from_u8`. -/
def Action.fromU8 (value : UInt8) : Result Action :=
  if value = 1 then .ok .deny
  else if value = 2 then .ok .allowOverride
  else if value = 3 then .ok .delete
  else .error (.invalidData s!"unknown action tag {value.toNat}")

/-- `DeliveryPriority::to_u8`. -/
def DeliveryPriority.toU8 : DeliveryPriority → UInt8
  | .p0 => 0
  | .p1 => 1
  | .p2 => 2

/-- `DeliveryPriority::from_u8`. -/
def DeliveryPriority.fromU8 (value : UInt8) : Result DeliveryPriority :=
  if value = 0 then .ok .p0
  else if value = 1 then .ok .p1
  else if value = 2 then .ok .p2
  else .error (.invalidData s!"unknown delivery priority tag {value.toNat}")

/-- `RuleKind::to_u8`. -/
def RuleKind.toU8 : RuleKind → UInt8
  | .ipv4Cidr => 1
  | .domainSuffix => 2

/-- `RuleKind::from_u8`. -/
def RuleKind.fromU8 (value : UInt8) : Result RuleKind :=
  if value = 1 then .ok .ipv4Cidr
  else if value = 2 then .ok .domainSuffix
  else .error (.invalidData s!"unknown rule kind tag {value.toNat}")

/-! ## Writing -/

def snapshotMagic : List UInt8 := utf8 "GACL"
def mutationMagic : List UInt8 := utf8 "GMUT"
def mutationStreamMagic : List UInt8 := utf8 "GLOG"
def formatVersion : Nat := 1

/-- `write_u16`. -/
def writeU16 (value : Nat) : List UInt8 := natToLe 2 value

/-- `write_u32`, also of a length that is cut to 32 bits. -/
def writeU32 (value : Nat) : List UInt8 := natToLe 4 value

/-- `write_u64`. -/
def writeU64 (value : Nat) : List UInt8 := natToLe 8 value

/-- `write_string`. -/
def writeString (value : String) : List UInt8 := writeU32 (utf8 value).length ++ utf8 value

/-- `encode_entry`. -/
def encodeEntry (entry : DenyEntry) : List UInt8 :=
  writeString entry.tenantId ++ (writeString entry.namespace' ++
    (writeU64 entry.keyHash.toNat ++ ([entry.action.toU8] ++ (writeU32 entry.priority ++
      (writeString entry.reasonCode ++ (writeU64 entry.expiresAt ++
        (writeString entry.createdBy ++ (writeU64 entry.commitSeq ++ writeU16 entry.shardId))))))))

/-- `encode_rule_entry`. -/
def encodeRuleEntry (rule : RuleEntry) : List UInt8 :=
  writeString rule.tenantId ++ ([rule.kind.toU8] ++ (writeString rule.pattern ++
    (writeU64 rule.ruleHash.toNat ++ ([rule.action.toU8] ++ (writeU32 rule.priority ++
      (writeString rule.reasonCode ++ (writeU64 rule.expiresAt ++
        (writeString rule.createdBy ++ (writeU64 rule.commitSeq ++ (writeU16 rule.shardId ++
          (writeU32 rule.ipv4Network.toNat ++ ([rule.ipv4PrefixLen] ++
            writeString rule.domainSuffix))))))))))))

/-- `encode_mutation` up to the entry. -/
def encodeMutationHead (m : Mutation) : List UInt8 :=
  mutationMagic ++ (writeU16 formatVersion ++ (writeString m.opId ++ (writeU16 m.commitId.shardId ++
    (writeU64 m.commitId.seq ++ (writeU64 m.commitId.epoch ++ (writeString m.commitId.sourceRegion ++
      encodeEntry m.entry))))))

/-- The end of `encode_mutation`. -/
def encodeMutationRule : Option RuleEntry → List UInt8
  | some rule => [1] ++ encodeRuleEntry rule
  | none => [0]

/-- `encode_mutation`. -/
def encodeMutation (m : Mutation) : List UInt8 :=
  encodeMutationHead m ++ ([m.deliveryPriority.toU8] ++ (writeU64 m.committedAtUnix ++
    encodeMutationRule m.rule))

/-- `encode_mutation_stream`. -/
def encodeMutationStream (mutations : List Mutation) : List UInt8 :=
  mutationStreamMagic ++ (writeU16 formatVersion ++ (writeU64 mutations.length ++
    mutations.flatMap fun m => writeU32 (encodeMutation m).length ++ encodeMutation m))

/-- `encode_snapshot` up to the entries. -/
def encodeSnapshotHead (snapshot : Snapshot) : List UInt8 :=
  snapshotMagic ++ (writeU16 formatVersion ++ (writeU16 snapshot.shardCount ++
    (writeU32 snapshot.watermarks.length ++ (writeU64 snapshot.entries.length ++
      (snapshot.watermarks.flatMap writeU64 ++ snapshot.entries.flatMap encodeEntry)))))

/-- The end of `encode_snapshot`. -/
def encodeSnapshotRules (rules : List RuleEntry) : List UInt8 :=
  writeU64 rules.length ++ rules.flatMap encodeRuleEntry

/-- `encode_snapshot`. -/
def encodeSnapshot (snapshot : Snapshot) : List UInt8 :=
  encodeSnapshotHead snapshot ++ encodeSnapshotRules snapshot.rules

/-! ## Reading -/

/-- The error of `Read::read_exact` at the end of a cursor. -/
def unexpectedEof : GlobAclError := .io "failed to fill whole buffer"

/-- `read_exact_vec`. -/
def readExactVec (len : Nat) : Decoder (List UInt8) := take unexpectedEof len

/-- `read_u8`. -/
def readU8 : Decoder UInt8 := do
  let n ← natLe unexpectedEof 1
  pure (UInt8.ofNat n)

/-- `read_u16`. -/
def readU16 : Decoder Nat := natLe unexpectedEof 2

/-- `read_u32`. -/
def readU32 : Decoder Nat := natLe unexpectedEof 4

/-- `read_u64`. -/
def readU64 : Decoder Nat := natLe unexpectedEof 8

/-- `read_string`. The text of the UTF-8 error is left out. -/
def readString : Decoder String := do
  let len ← readU32
  let bytes ← readExactVec len
  lift (match fromUtf8 bytes with
    | some value => .ok value
    | none => .error (.invalidData "string is not utf8"))

/-- `expect_magic`. -/
def expectMagic (expected : List UInt8) : Decoder Unit := do
  let actual ← readExactVec 4
  lift (if actual = expected then .ok ()
    else .error (.invalidData
      s!"bad magic {debugStr (fromUtf8Lossy actual)}, expected {debugStr (fromUtf8Lossy expected)}"))

/-- The check of the version. -/
def expectVersion (what : String) : Decoder Unit := do
  let version ← readU16
  lift (if version = formatVersion then .ok ()
    else .error (.invalidData s!"unsupported {what} version {version}"))

/-- `isize::MAX`. -/
def isizeMax : Nat := 2 ^ 63 - 1

/-- `size_of` of the elements of the vectors that are read. -/
def sizeOfU64 : Nat := 8
def sizeOfDenyEntry : Nat := 128
def sizeOfRuleEntry : Nat := 160
def sizeOfMutation : Nat := 376

/-- Whether the allocator grants a request of so many bytes. -/
abbrev Allocator := Nat → Bool

/-- The allocator that grants every request. -/
def unlimited : Allocator := fun _ => true

/-- `Vec::with_capacity`. A request that is refused goes to `handle_alloc_error`. -/
def withCapacity (alloc : Allocator) (size capacity : Nat) : Result Unit :=
  if size * capacity > isizeMax then .error (.panicked "capacity overflow")
  else if alloc (size * capacity) then .ok ()
  else .error (.panicked s!"memory allocation of {size * capacity} bytes failed")

/-- There is memory for a vector. -/
def Affords (alloc : Allocator) (size capacity : Nat) : Prop :=
  size * capacity ≤ isizeMax ∧ alloc (size * capacity) = true

instance (alloc : Allocator) (size capacity : Nat) : Decidable (Affords alloc size capacity) :=
  inferInstanceAs (Decidable (_ ∧ _))

theorem withCapacity_of_affords {alloc : Allocator} {size capacity : Nat}
    (h : Affords alloc size capacity) : withCapacity alloc size capacity = .ok () := by
  unfold withCapacity
  rw [if_neg (Nat.not_lt.mpr h.1), if_pos h.2]

theorem withCapacity_of_not {alloc : Allocator} {size capacity : Nat}
    (h : ¬Affords alloc size capacity) :
    ∃ message, withCapacity alloc size capacity = .error (.panicked message) := by
  unfold withCapacity
  by_cases hle : size * capacity ≤ isizeMax
  · rw [if_neg (Nat.not_lt.mpr hle), if_neg fun halloc => h ⟨hle, halloc⟩]
    exact ⟨_, rfl⟩
  · rw [if_pos (Nat.lt_of_not_le hle)]
    exact ⟨_, rfl⟩

theorem affords_unlimited {size capacity : Nat} (h : size * capacity ≤ isizeMax) :
    Affords unlimited size capacity := ⟨h, rfl⟩

/-- `Vec::with_capacity(n)` and the loop that fills it. -/
def readVec {α : Type} (alloc : Allocator) (size : Nat) (p : Decoder α) (n : Nat) :
    Decoder (List α) := do
  lift (withCapacity alloc size n)
  many p n

/-- `decode_entry`. -/
def decodeEntry : Decoder DenyEntry := do
  let tenantId ← readString
  let namespace' ← readString
  let keyHash ← readU64
  let action ← readU8
  let action ← lift (Action.fromU8 action)
  let priority ← readU32
  let reasonCode ← readString
  let expiresAt ← readU64
  let createdBy ← readString
  let commitSeq ← readU64
  let shardId ← readU16
  pure
    { tenantId, namespace', keyHash := UInt64.ofNat keyHash, action, priority, reasonCode,
      expiresAt, createdBy, commitSeq, shardId }

/-- `decode_rule_entry`. -/
def decodeRuleEntry : Decoder RuleEntry := do
  let tenantId ← readString
  let kind ← readU8
  let kind ← lift (RuleKind.fromU8 kind)
  let pattern ← readString
  let ruleHash ← readU64
  let action ← readU8
  let action ← lift (Action.fromU8 action)
  let priority ← readU32
  let reasonCode ← readString
  let expiresAt ← readU64
  let createdBy ← readString
  let commitSeq ← readU64
  let shardId ← readU16
  let ipv4Network ← readU32
  let ipv4PrefixLen ← readU8
  let domainSuffix ← readString
  pure
    { tenantId, kind, pattern, ruleHash := UInt64.ofNat ruleHash, action, priority, reasonCode,
      expiresAt, createdBy, commitSeq, shardId, ipv4Network := UInt32.ofNat ipv4Network,
      ipv4PrefixLen, domainSuffix }

/-- `decode_mutation_from_cursor` up to the entry: the mutation without what may be missing. -/
def decodeMutationHead : Decoder Mutation := do
  expectMagic mutationMagic
  expectVersion "mutation"
  let opId ← readString
  let shardId ← readU16
  let seq ← readU64
  let epoch ← readU64
  let sourceRegion ← readString
  let entry ← decodeEntry
  pure
    { opId, commitId := ⟨shardId, seq, epoch, sourceRegion⟩, entry, rule := none,
      deliveryPriority := .p1, committedAtUnix := 0 }

/-- The delivery priority of a mutation, `P1` at the end of the bytes. -/
def decodeDeliveryPriority : Decoder DeliveryPriority := do
  let left ← remaining
  if left ≥ 1 then do
    let value ← readU8
    lift (DeliveryPriority.fromU8 value)
  else pure .p1

/-- The time of a mutation, `0` if fewer than eight bytes are left. -/
def decodeCommittedAt : Decoder Nat := do
  let left ← remaining
  if left ≥ 8 then readU64 else pure 0

/-- The rule of a mutation, none at the end of the bytes. -/
def decodeMutationRule : Decoder (Option RuleEntry) := do
  let left ← remaining
  if left ≥ 1 then do
    let tag ← readU8
    if tag = 0 then pure none
    else if tag = 1 then do
      let rule ← decodeRuleEntry
      pure (some rule)
    else fail (.invalidData s!"unknown mutation rule tag {tag.toNat}")
  else pure none

/-- `decode_mutation_from_cursor`. -/
def decodeMutationFromCursor : Decoder Mutation := do
  let m ← decodeMutationHead
  let deliveryPriority ← decodeDeliveryPriority
  let committedAtUnix ← decodeCommittedAt
  let rule ← decodeMutationRule
  pure { m with deliveryPriority, committedAtUnix, rule }

/-- `decode_mutation`. What is left of the bytes is not looked at. -/
def decodeMutation (bytes : List UInt8) : Result Mutation :=
  (decodeMutationFromCursor bytes).map Prod.fst

/-- One turn of the loop of `decode_mutation_stream`. -/
def decodeFrame : Decoder Mutation := do
  let len ← readU32
  let bytes ← readExactVec len
  lift (decodeMutation bytes)

/-- The body of `decode_mutation_stream`. -/
def decodeMutationStreamFromCursor (alloc : Allocator) : Decoder (List Mutation) := do
  expectMagic mutationStreamMagic
  expectVersion "mutation stream"
  let count ← readU64
  readVec alloc sizeOfMutation decodeFrame count

/-- `decode_mutation_stream`, with what the allocator grants. -/
def decodeMutationStreamWith (alloc : Allocator) (bytes : List UInt8) : Result (List Mutation) :=
  (decodeMutationStreamFromCursor alloc bytes).map Prod.fst

/-- `decode_mutation_stream`, with all the memory that it asks for. -/
def decodeMutationStream : List UInt8 → Result (List Mutation) := decodeMutationStreamWith unlimited

/-- `decode_snapshot` up to the entries: the snapshot without rules. -/
def decodeSnapshotHead (alloc : Allocator) : Decoder Snapshot := do
  expectMagic snapshotMagic
  expectVersion "snapshot"
  let shardCount ← readU16
  let watermarkCount ← readU32
  let entryCount ← readU64
  lift (if watermarkCount ≠ shardCount then
      .error (.invalidData
        s!"snapshot has {watermarkCount} watermarks for {shardCount} shards")
    else .ok ())
  let watermarks ← readVec alloc sizeOfU64 readU64 watermarkCount
  let entries ← readVec alloc sizeOfDenyEntry decodeEntry entryCount
  pure { shardCount, watermarks, entries, rules := [] }

/-- The rules of a snapshot, none if fewer than eight bytes are left. -/
def decodeSnapshotRules (alloc : Allocator) : Decoder (List RuleEntry) := do
  let left ← remaining
  if left ≥ 8 then do
    let ruleCount ← readU64
    readVec alloc sizeOfRuleEntry decodeRuleEntry ruleCount
  else pure []

/-- The body of `decode_snapshot`. -/
def decodeSnapshotFromCursor (alloc : Allocator) : Decoder Snapshot := do
  let snapshot ← decodeSnapshotHead alloc
  let rules ← decodeSnapshotRules alloc
  pure { snapshot with rules }

/-- `decode_snapshot`, with what the allocator grants. -/
def decodeSnapshotWith (alloc : Allocator) (bytes : List UInt8) : Result Snapshot :=
  (decodeSnapshotFromCursor alloc bytes).map Prod.fst

/-- `decode_snapshot`, with all the memory that it asks for. -/
def decodeSnapshot : List UInt8 → Result Snapshot := decodeSnapshotWith unlimited

/-! ## Values that fit -/

/-- The length of a text fits the prefix of `write_string`. -/
def Short (value : String) : Prop := (utf8 value).length < 2 ^ 32

instance (value : String) : Decidable (Short value) := inferInstanceAs (Decidable (_ < _))

/-- The fields have the widths that the source gives them, and the texts are short. -/
structure DenyEntry.Fits (entry : DenyEntry) : Prop where
  tenantId : Short entry.tenantId
  space : Short entry.namespace'
  priority : entry.priority < 2 ^ 32
  reasonCode : Short entry.reasonCode
  expiresAt : entry.expiresAt < 2 ^ 64
  createdBy : Short entry.createdBy
  commitSeq : entry.commitSeq < 2 ^ 64
  shardId : entry.shardId < 2 ^ 16

/-- The fields have the widths that the source gives them, and the texts are short. -/
structure RuleEntry.Fits (rule : RuleEntry) : Prop where
  tenantId : Short rule.tenantId
  pattern : Short rule.pattern
  priority : rule.priority < 2 ^ 32
  reasonCode : Short rule.reasonCode
  expiresAt : rule.expiresAt < 2 ^ 64
  createdBy : Short rule.createdBy
  commitSeq : rule.commitSeq < 2 ^ 64
  shardId : rule.shardId < 2 ^ 16
  domainSuffix : Short rule.domainSuffix

/-- The fields have the widths that the source gives them, and the texts are short. -/
structure Mutation.Fits (m : Mutation) : Prop where
  opId : Short m.opId
  shardId : m.commitId.shardId < 2 ^ 16
  seq : m.commitId.seq < 2 ^ 64
  epoch : m.commitId.epoch < 2 ^ 64
  sourceRegion : Short m.commitId.sourceRegion
  entry : m.entry.Fits
  committedAtUnix : m.committedAtUnix < 2 ^ 64
  rule : ∀ rule ∈ m.rule, rule.Fits

/-- The fields have the widths that the source gives them, the texts are short and the vectors can
be addressed. -/
structure Snapshot.Fits (s : Snapshot) : Prop where
  shardCount : s.shardCount < 2 ^ 16
  watermarks : ∀ w ∈ s.watermarks, w < 2 ^ 64
  entries : ∀ entry ∈ s.entries, entry.Fits
  entryCount : sizeOfDenyEntry * s.entries.length ≤ isizeMax
  rules : ∀ rule ∈ s.rules, rule.Fits
  ruleCount : sizeOfRuleEntry * s.rules.length ≤ isizeMax

/-! ## Round trips -/

@[simp] theorem Action.fromU8_toU8 (action : Action) : Action.fromU8 action.toU8 = .ok action := by
  cases action <;> rfl

@[simp] theorem DeliveryPriority.fromU8_toU8 (priority : DeliveryPriority) :
    DeliveryPriority.fromU8 priority.toU8 = .ok priority := by
  cases priority <;> rfl

@[simp] theorem RuleKind.fromU8_toU8 (kind : RuleKind) : RuleKind.fromU8 kind.toU8 = .ok kind := by
  cases kind <;> rfl

theorem reads_u8 (value : UInt8) : Reads unexpectedEof readU8 [value] value := by
  have hlt : value.toNat < 256 ^ 1 := value.toNat_lt
  have hnat : Reads unexpectedEof (natLe unexpectedEof 1) (natToLe 1 value.toNat) value.toNat :=
    reads_natLe hlt
  have hread := hnat.map (g := UInt8.ofNat)
  simp only [natToLe, UInt8.ofNat_toNat] at hread
  exact hread

theorem reads_u16 {value : Nat} (h : value < 2 ^ 16) : Reads unexpectedEof readU16 (writeU16 value) value :=
  reads_natLe h

theorem reads_u32 {value : Nat} (h : value < 2 ^ 32) : Reads unexpectedEof readU32 (writeU32 value) value :=
  reads_natLe h

theorem reads_u64 {value : Nat} (h : value < 2 ^ 64) : Reads unexpectedEof readU64 (writeU64 value) value :=
  reads_natLe h

theorem reads_string {value : String} (h : Short value) :
    Reads unexpectedEof readString (writeString value) value := by
  refine (reads_u32 h).bind ((reads_take (utf8 value)).check ?_)
  rw [fromUtf8_utf8]

theorem reads_magic {magic : List UInt8} (h : magic.length = 4) :
    Reads unexpectedEof (expectMagic magic) magic () := by
  have hread : Reads unexpectedEof (take unexpectedEof magic.length) magic magic := reads_take magic
  rw [h] at hread
  exact hread.check (if_pos rfl)

theorem reads_version (what : String) : Reads unexpectedEof (expectVersion what) (writeU16 formatVersion) () :=
  (reads_u16 (by decide)).check (if_pos rfl)

theorem reads_entry {entry : DenyEntry} (h : entry.Fits) :
    Reads unexpectedEof decodeEntry (encodeEntry entry) entry := by
  refine (reads_string h.tenantId).bind ?_
  refine (reads_string h.space).bind ?_
  refine (reads_u64 entry.keyHash.toNat_lt).bind ?_
  refine (reads_u8 _).bind (.lift_bind (Action.fromU8_toU8 _) ?_)
  refine (reads_u32 h.priority).bind ?_
  refine (reads_string h.reasonCode).bind ?_
  refine (reads_u64 h.expiresAt).bind ?_
  refine (reads_string h.createdBy).bind ?_
  refine (reads_u64 h.commitSeq).bind ?_
  simpa using (reads_u16 h.shardId).map

theorem reads_ruleEntry {rule : RuleEntry} (h : rule.Fits) :
    Reads unexpectedEof decodeRuleEntry (encodeRuleEntry rule) rule := by
  refine (reads_string h.tenantId).bind ?_
  refine (reads_u8 _).bind (.lift_bind (RuleKind.fromU8_toU8 _) ?_)
  refine (reads_string h.pattern).bind ?_
  refine (reads_u64 rule.ruleHash.toNat_lt).bind ?_
  refine (reads_u8 _).bind (.lift_bind (Action.fromU8_toU8 _) ?_)
  refine (reads_u32 h.priority).bind ?_
  refine (reads_string h.reasonCode).bind ?_
  refine (reads_u64 h.expiresAt).bind ?_
  refine (reads_string h.createdBy).bind ?_
  refine (reads_u64 h.commitSeq).bind ?_
  refine (reads_u16 h.shardId).bind ?_
  refine (reads_u32 rule.ipv4Network.toNat_lt).bind ?_
  refine (reads_u8 _).bind ?_
  simpa using (reads_string h.domainSuffix).map

/-- What is decoded of a mutation whose bytes end at the entry. -/
def Mutation.head (m : Mutation) : Mutation :=
  { m with rule := none, deliveryPriority := .p1, committedAtUnix := 0 }

theorem reads_mutationHead {m : Mutation} (h : m.Fits) :
    Reads unexpectedEof decodeMutationHead (encodeMutationHead m) m.head := by
  refine (reads_magic rfl).bind ?_
  refine (reads_version "mutation").bind ?_
  refine (reads_string h.opId).bind ?_
  refine (reads_u16 h.shardId).bind ?_
  refine (reads_u64 h.seq).bind ?_
  refine (reads_u64 h.epoch).bind ?_
  refine (reads_string h.sourceRegion).bind ?_
  exact (reads_entry h.entry).map

theorem decodeDeliveryPriority_encode (priority : DeliveryPriority) (rest : List UInt8) :
    decodeDeliveryPriority ([priority.toU8] ++ rest) = .ok (priority, rest) := by
  unfold decodeDeliveryPriority
  rw [remaining_bind, if_pos (by simp)]
  exact ((reads_u8 _).check (DeliveryPriority.fromU8_toU8 priority)).ok rest

theorem decodeCommittedAt_encode {time : Nat} (h : time < 2 ^ 64) (rest : List UInt8) :
    decodeCommittedAt (writeU64 time ++ rest) = .ok (time, rest) := by
  unfold decodeCommittedAt
  rw [remaining_bind, if_pos (by simp [writeU64])]
  exact (reads_u64 h).ok rest

theorem decodeMutationRule_encode {rule : Option RuleEntry} (h : ∀ r ∈ rule, r.Fits)
    (rest : List UInt8) :
    decodeMutationRule (encodeMutationRule rule ++ rest) = .ok (rule, rest) := by
  unfold decodeMutationRule
  rw [remaining_bind]
  cases rule with
  | none =>
    rw [if_pos (by simp [encodeMutationRule])]
    exact bind_of_ok ((reads_u8 0).ok rest)
  | some r =>
    rw [if_pos (by simp [encodeMutationRule])]
    exact ((reads_u8 1).bind (reads_ruleEntry (h r rfl)).map).ok rest

theorem decodeMutationFromCursor_encode {m : Mutation} (h : m.Fits) (rest : List UInt8) :
    decodeMutationFromCursor (encodeMutation m ++ rest) = .ok (m, rest) := by
  unfold decodeMutationFromCursor encodeMutation
  rw [List.append_assoc, List.append_assoc, List.append_assoc, bind_of_ok ((reads_mutationHead h).ok _),
    bind_of_ok (decodeDeliveryPriority_encode _ _), bind_of_ok (decodeCommittedAt_encode h.committedAtUnix _),
    bind_of_ok (decodeMutationRule_encode h.rule _)]
  rfl

theorem decodeMutation_encodeMutation {m : Mutation} (h : m.Fits) :
    decodeMutation (encodeMutation m) = .ok m := by
  have hread := decodeMutationFromCursor_encode h []
  rw [List.append_nil] at hread
  unfold decodeMutation
  rw [hread]
  rfl

theorem reads_vec {α : Type} {alloc : Allocator} {size : Nat} {p : Decoder α}
    {enc : α → List UInt8} {l : List α} (hsize : Affords alloc size l.length)
    (h : ∀ a ∈ l, Reads unexpectedEof p (enc a) a) :
    Reads unexpectedEof (readVec alloc size p l.length) (l.flatMap enc) l :=
  .lift_bind (withCapacity_of_affords hsize) (.many h)

theorem reads_frame {m : Mutation} (h : m.Fits) (hlen : (encodeMutation m).length < 2 ^ 32) :
    Reads unexpectedEof decodeFrame (writeU32 (encodeMutation m).length ++ encodeMutation m) m := by
  refine (reads_u32 hlen).bind ((reads_take (encodeMutation m)).check ?_)
  exact decodeMutation_encodeMutation h

theorem decodeMutationStream_encode {ms : List Mutation} (h : ∀ m ∈ ms, m.Fits)
    (hlen : ∀ m ∈ ms, (encodeMutation m).length < 2 ^ 32)
    (hcount : sizeOfMutation * ms.length ≤ isizeMax) :
    decodeMutationStream (encodeMutationStream ms) = .ok ms := by
  have hread : Reads unexpectedEof (decodeMutationStreamFromCursor unlimited)
      (encodeMutationStream ms) ms := by
    refine (reads_magic rfl).bind ?_
    refine (reads_version "mutation stream").bind ?_
    refine (reads_u64 (by simp only [sizeOfMutation, isizeMax] at hcount; omega)).bind ?_
    exact reads_vec (affords_unlimited hcount) fun m hm => reads_frame (h m hm) (hlen m hm)
  unfold decodeMutationStream decodeMutationStreamWith
  rw [hread.all]
  rfl

/-- What is decoded of a snapshot whose bytes end at the entries. -/
def Snapshot.head (s : Snapshot) : Snapshot := { s with rules := [] }

theorem reads_snapshotHead {alloc : Allocator} {s : Snapshot} (h : s.Fits)
    (hlen : s.watermarks.length = s.shardCount)
    (hmarks : Affords alloc sizeOfU64 s.watermarks.length)
    (hentries : Affords alloc sizeOfDenyEntry s.entries.length) :
    Reads unexpectedEof (decodeSnapshotHead alloc) (encodeSnapshotHead s) s.head := by
  have hshards := h.shardCount
  have hcount := h.entryCount
  refine (reads_magic rfl).bind ?_
  refine (reads_version "snapshot").bind ?_
  refine (reads_u16 hshards).bind ?_
  refine (reads_u32 (by omega)).bind ?_
  refine (reads_u64 (by simp only [sizeOfDenyEntry, isizeMax] at hcount; omega)).bind ?_
  refine .lift_bind (if_neg fun hne => hne hlen) ?_
  refine (reads_vec hmarks fun w hw => reads_u64 (h.watermarks w hw)).bind ?_
  exact (reads_vec hentries fun entry he => reads_entry (h.entries entry he)).map

/-- The watermarks of a snapshot take less than 4 GiB. -/
theorem Snapshot.Fits.watermarks_lt {s : Snapshot} (h : s.Fits)
    (hlen : s.watermarks.length = s.shardCount) : sizeOfU64 * s.watermarks.length < 2 ^ 32 := by
  have := h.shardCount
  unfold sizeOfU64
  omega

theorem reads_snapshotHead_unlimited {s : Snapshot} (h : s.Fits)
    (hlen : s.watermarks.length = s.shardCount) :
    Reads unexpectedEof (decodeSnapshotHead unlimited) (encodeSnapshotHead s) s.head := by
  have hmarks := h.watermarks_lt hlen
  exact reads_snapshotHead h hlen (affords_unlimited (by unfold isizeMax; omega))
    (affords_unlimited h.entryCount)

/-- The rules of a snapshot after their guard. -/
theorem reads_snapshotRules {rules : List RuleEntry} (h : ∀ rule ∈ rules, rule.Fits)
    (hcount : sizeOfRuleEntry * rules.length ≤ isizeMax) :
    Reads unexpectedEof (do
      let count ← readU64
      readVec unlimited sizeOfRuleEntry decodeRuleEntry count) (encodeSnapshotRules rules) rules := by
  refine (reads_u64 ?_).bind (reads_vec (affords_unlimited hcount) fun r hr => reads_ruleEntry (h r hr))
  simp only [sizeOfRuleEntry, isizeMax] at hcount
  omega

theorem decodeSnapshotRules_encode {rules : List RuleEntry} (h : ∀ rule ∈ rules, rule.Fits)
    (hcount : sizeOfRuleEntry * rules.length ≤ isizeMax) (rest : List UInt8) :
    decodeSnapshotRules unlimited (encodeSnapshotRules rules ++ rest) = .ok (rules, rest) := by
  unfold decodeSnapshotRules
  rw [remaining_bind, if_pos (by simp [encodeSnapshotRules, writeU64])]
  exact (reads_snapshotRules h hcount).ok rest

theorem decodeSnapshot_encode {s : Snapshot} (h : s.Fits) (hlen : s.watermarks.length = s.shardCount) :
    decodeSnapshot (encodeSnapshot s) = .ok s := by
  have hrules := decodeSnapshotRules_encode h.rules h.ruleCount []
  rw [List.append_nil] at hrules
  unfold decodeSnapshot decodeSnapshotWith decodeSnapshotFromCursor encodeSnapshot
  rw [bind_of_ok ((reads_snapshotHead_unlimited h hlen).ok _), bind_of_ok hrules]
  rfl

/-- What is encoded is decoded to the same value. -/
theorem formats_round_trip :
    (∀ m : Mutation, m.Fits → decodeMutation (encodeMutation m) = .ok m) ∧
    (∀ ms : List Mutation, (∀ m ∈ ms, m.Fits) → (∀ m ∈ ms, (encodeMutation m).length < 2 ^ 32) →
      sizeOfMutation * ms.length ≤ isizeMax →
      decodeMutationStream (encodeMutationStream ms) = .ok ms) ∧
    (∀ s : Snapshot, s.Fits → s.watermarks.length = s.shardCount →
      decodeSnapshot (encodeSnapshot s) = .ok s) :=
  ⟨fun _ h => decodeMutation_encodeMutation h,
    fun _ h hlen hcount => decodeMutationStream_encode h hlen hcount,
    fun _ h hlen => decodeSnapshot_encode h hlen⟩

/-- A mutation with a rule. -/
def domainMutation : Mutation where
  opId := "op-é"
  commitId := ⟨0, 7, 2, "local"⟩
  entry := ⟨"t", "", 0, .delete, 3, "r", 0, "ops", 7, 0⟩
  rule := some ⟨"t", .domainSuffix, "*.a.b", 5, .deny, 3, "r", 9, "ops", 7, 0, 0, 0, "a.b"⟩
  deliveryPriority := .p0
  committedAtUnix := 4096

/-- A snapshot with an entry and a rule. -/
def domainSnapshot : Snapshot where
  shardCount := 1
  watermarks := [7]
  entries := [⟨"t", "ns", 11, .deny, 3, "r", 0, "ops", 6, 0⟩]
  rules := [⟨"t", .domainSuffix, "*.a.b", 5, .deny, 3, "r", 9, "ops", 7, 0, 0, 0, "a.b"⟩]

theorem domainMutation_fits : domainMutation.Fits where
  opId := by decide +kernel
  shardId := by decide
  seq := by decide
  epoch := by decide
  sourceRegion := by decide +kernel
  entry := ⟨by decide +kernel, by decide +kernel, by decide, by decide +kernel, by decide,
    by decide +kernel, by decide, by decide⟩
  committedAtUnix := by decide
  rule := by
    intro rule hrule
    cases hrule
    exact ⟨by decide +kernel, by decide +kernel, by decide, by decide +kernel, by decide,
      by decide +kernel, by decide, by decide, by decide +kernel⟩

theorem domainSnapshot_fits : domainSnapshot.Fits where
  shardCount := by decide
  watermarks := by decide
  entries := by
    intro entry hentry
    rw [List.mem_singleton.mp hentry]
    exact ⟨by decide +kernel, by decide +kernel, by decide, by decide +kernel, by decide,
      by decide +kernel, by decide, by decide⟩
  entryCount := by decide
  rules := by
    intro rule hrule
    rw [List.mem_singleton.mp hrule]
    exact ⟨by decide +kernel, by decide +kernel, by decide, by decide +kernel, by decide,
      by decide +kernel, by decide, by decide, by decide +kernel⟩
  ruleCount := by decide

theorem formats_round_trip_domain :
    decodeMutation (encodeMutation domainMutation) = .ok domainMutation ∧
    decodeMutationStream (encodeMutationStream [domainMutation]) = .ok [domainMutation] ∧
    decodeSnapshot (encodeSnapshot domainSnapshot) = .ok domainSnapshot := by
  refine ⟨formats_round_trip.1 _ domainMutation_fits, formats_round_trip.2.1 _ ?_ ?_ (by decide),
    formats_round_trip.2.2 _ domainSnapshot_fits rfl⟩
  · intro m hm
    rw [List.mem_singleton.mp hm]
    exact domainMutation_fits
  · intro m hm
    rw [List.mem_singleton.mp hm]
    decide +kernel

end Globacl
