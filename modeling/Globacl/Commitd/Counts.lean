import Globacl.Commitd.Manifest
import Globacl.Core.Truncated

/-!
# The counts of encoded data (`globacl-core/src/lib/snapshots.rs`, `nats.rs`)

A decoder reads the number of elements that follow and allocates a vector for them before it has
looked at the first one. `Vec::with_capacity` panics if the vector would take more than `isize::MAX`
bytes, and the process is aborted if the allocator refuses the memory, so a count that is too large is
not reported as an error.

* `OverstatesEntries`, `OverstatesRules`, `OverstatesMutations`, `OverstatesShards`: the bytes are, by
  the format, those of a value up to a count for which there is no memory. What follows is arbitrary.
* `decodeSnapshot_returns_iff`, `decodeMutationStream_returns_iff`, `parseWatermarks_returns_iff`: a
  decoder returns exactly when the bytes are not of this kind.
* `decoders_return_iff`: the three together.
-/

namespace Globacl

open Lib Lib.Parser

/-! ## Errors of the readers -/

theorem throws_magic (expected : List UInt8) : Throws Returned (expectMagic expected) := by
  refine (throws_take returned_eof 4).bind fun actual => .lift fun err herr message => ?_
  split at herr <;> cases herr
  nofun

theorem throws_version (what : String) : Throws Returned (expectVersion what) := by
  refine (throws_natLe returned_eof 2).bind fun version => .lift fun err herr message => ?_
  split at herr <;> cases herr
  nofun

theorem throws_entry : Throws Returned decodeEntry := by
  have hnat := throws_natLe returned_eof
  refine throws_string.bind fun _ => throws_string.bind fun _ => (hnat 8).bind fun _ => ?_
  refine throws_u8.bind fun _ => (throws_action _).bind fun _ => (hnat 4).bind fun _ => ?_
  refine throws_string.bind fun _ => (hnat 8).bind fun _ => throws_string.bind fun _ => ?_
  exact (hnat 8).bind fun _ => (hnat 2).bind fun _ => .pure _

theorem throws_deliveryPriority : Throws Returned decodeDeliveryPriority := by
  refine Throws.remaining.bind fun left => ?_
  split
  · refine throws_u8.bind fun value => .lift fun err herr message => ?_
    unfold DeliveryPriority.fromU8 at herr
    split_ifs at herr
    cases herr
    nofun
  · exact .pure _

theorem throws_mutation : Throws Returned decodeMutationFromCursor := by
  have hnat := throws_natLe returned_eof
  have hhead : Throws Returned decodeMutationHead := by
    refine (throws_magic _).bind fun _ => (throws_version _).bind fun _ => ?_
    refine throws_string.bind fun _ => (hnat 2).bind fun _ => (hnat 8).bind fun _ => ?_
    exact (hnat 8).bind fun _ => throws_string.bind fun _ => throws_entry.bind fun _ => .pure _
  have htime : Throws Returned decodeCommittedAt := by
    refine Throws.remaining.bind fun left => ?_
    split
    · exact hnat 8
    · exact .pure _
  refine hhead.bind fun _ => throws_deliveryPriority.bind fun _ => htime.bind fun _ => ?_
  exact throws_mutationRule.bind fun _ => .pure _

theorem map_fst_error {α : Type} {p : Decoder α} {bytes : List UInt8} {err : GlobAclError} :
    (p bytes).map Prod.fst = .error err ↔ p bytes = .error err := by
  cases p bytes <;> simp [Except.map]

/-- The value of a parser without the rest of the bytes: its panics are those of the parser. -/
theorem map_fst_returns_iff {α : Type} {p : Decoder α} {bytes : List UInt8} :
    (∀ message, (p bytes).map Prod.fst ≠ .error (.panicked message)) ↔
      ThrowsOn Returned p bytes := by
  simp only [ne_eq, map_fst_error]
  constructor
  · rintro h err herr message rfl
    exact h message herr
  · exact fun h message herr => h _ herr message rfl

theorem throws_frame : Throws Returned decodeFrame := by
  refine (throws_natLe returned_eof 4).bind fun len => (throws_take returned_eof len).bind fun bytes => ?_
  exact .lift fun err herr => throws_mutation bytes err (map_fst_error.mp herr)

section Vectors

variable {alloc : Allocator}

/-- A vector of a size that can be allocated is read without a panic if its elements are. -/
theorem throwsOn_vec {α : Type} {size n : Nat} {p : Decoder α} (h : Throws Returned p)
    (bytes : List UInt8) :
    ThrowsOn Returned (readVec alloc size p n) bytes ↔ Affords alloc size n := by
  unfold readVec
  rw [throwsOn_bind]
  by_cases hg : Affords alloc size n
  · rw [withCapacity_of_affords hg]
    refine iff_of_true ⟨fun err herr => ?_, fun _ rest _ => h.many n rest⟩ hg
    cases herr
  · obtain ⟨message, herr⟩ := withCapacity_of_not hg
    rw [herr]
    exact iff_of_false (fun hthrows => hthrows.1 (.panicked message) rfl message rfl) hg

/-- A vector that is read last. -/
theorem throwsOn_vec_bind {α β : Type} {size n : Nat} {p : Decoder α} (h : Throws Returned p)
    {f : List α → Decoder β} (hf : ∀ l, Throws Returned (f l)) (bytes : List UInt8) :
    ThrowsOn Returned (readVec alloc size p n >>= f) bytes ↔ Affords alloc size n := by
  rw [throwsOn_bind, throwsOn_vec h, and_iff_left_iff_imp]
  exact fun _ l rest _ => hf l rest

theorem spells_vec {α : Type} {size n : Nat} {p : Decoder α} {enc : α → List UInt8}
    (h : Spells enc p) : Spells (fun l => l.flatMap enc) (readVec alloc size p n) := by
  intro bytes l rest hl
  obtain ⟨u, mid, -, hmid, hl⟩ := (Spells.lift (withCapacity alloc size n)).bind_ok hl
  rw [hmid]
  exact h.many n mid l rest hl

end Vectors

/-! ## What announces too much -/

/-- The bytes of a snapshot up to its entries: the counts and the watermarks. -/
def encodeSnapshotCounts (watermarks : List Nat) (entryCount : Nat) : List UInt8 :=
  snapshotMagic ++ (writeU16 formatVersion ++ (writeU16 watermarks.length ++
    (writeU32 watermarks.length ++ (writeU64 entryCount ++ watermarks.flatMap writeU64))))

/-- The bytes are those of a snapshot up to its entries, and announce more entries than there is
memory for. -/
def OverstatesEntries (alloc : Allocator) (bytes : List UInt8) : Prop :=
  ∃ watermarks entryCount rest, watermarks.length < 2 ^ 16 ∧ (∀ w ∈ watermarks, w < 2 ^ 64) ∧
    entryCount < 2 ^ 64 ∧ bytes = encodeSnapshotCounts watermarks entryCount ++ rest ∧
    ¬Affords alloc sizeOfDenyEntry entryCount

/-- The bytes are those of a snapshot with its entries, for which there is memory, and announce more
rules behind them than there is memory for. -/
def OverstatesRules (alloc : Allocator) (bytes : List UInt8) : Prop :=
  ∃ (s : Snapshot) (ruleCount : Nat) (rest : List UInt8), s.Fits ∧
    s.watermarks.length = s.shardCount ∧ Affords alloc sizeOfDenyEntry s.entries.length ∧
    ruleCount < 2 ^ 64 ∧ bytes = encodeSnapshotHead s ++ (writeU64 ruleCount ++ rest) ∧
    ¬Affords alloc sizeOfRuleEntry ruleCount

/-- The bytes start a stream of mutations, and announce more of them than there is memory for. -/
def OverstatesMutations (alloc : Allocator) (bytes : List UInt8) : Prop :=
  ∃ count rest, count < 2 ^ 64 ∧
    bytes = mutationStreamMagic ++ (writeU16 formatVersion ++ (writeU64 count ++ rest)) ∧
    ¬Affords alloc sizeOfMutation count

/-- The body is a JSON object whose `shard_count` is a number of watermarks for which there is no
memory. -/
def OverstatesShards (alloc : Allocator) (serde : SerdeJson) (body : List UInt8) : Prop :=
  ∃ form text count, parseJsonFields serde body = .ok form ∧
    form.lookup "shard_count" = some text ∧ parseUnsigned (2 ^ 64 - 1) (trim text) = .ok count ∧
    ¬Affords alloc sizeOfU64 count

/-- The allocator grants what takes less than 4 GiB, as all texts do and the watermarks of a
snapshot. -/
def Allocator.Ample (alloc : Allocator) : Prop := ∀ bytes < 2 ^ 32, alloc bytes = true

theorem Allocator.Ample.affords {alloc : Allocator} (h : alloc.Ample) {size n : Nat}
    (hlt : size * n < 2 ^ 32) : Affords alloc size n :=
  ⟨by unfold isizeMax; omega, h _ hlt⟩

/-- `parse_watermarks`. -/
def parseWatermarks (alloc : Allocator) (serde : SerdeJson) (body : List UInt8) :
    Result (List Nat) := do
  let form ← parseJsonFields serde body
  let shardCount ← parseUsize (form.lookup "shard_count") 0 "shard_count"
  withCapacity alloc sizeOfU64 shardCount
  (List.range shardCount).mapM fun shardId =>
    parseU64 (form.lookup (shardKey shardId)) 0 (shardKey shardId)

/-! ## When a decoder returns -/

section Decoders

variable {alloc : Allocator} {bytes : List UInt8}

/-- `decode_snapshot` up to the vector of the entries: the watermarks and the number of entries. -/
def readSnapshotCounts (alloc : Allocator) : Decoder (List Nat × Nat) := do
  expectMagic snapshotMagic
  expectVersion "snapshot"
  let shardCount ← readU16
  let watermarkCount ← readU32
  let entryCount ← readU64
  lift (if watermarkCount ≠ shardCount then
      .error (.invalidData
        s!"snapshot has {watermarkCount} watermarks for {shardCount} shards")
    else .ok ())
  let watermarks ← readVec alloc sizeOfU64 readU64 watermarkCount
  pure (watermarks, entryCount)

/-- What is read before the entries. -/
theorem readSnapshotCounts_ok_iff (halloc : alloc.Ample) {watermarks : List Nat}
    {entryCount : Nat} {rest : List UInt8} :
    readSnapshotCounts alloc bytes = .ok ((watermarks, entryCount), rest) ↔
      watermarks.length < 2 ^ 16 ∧ (∀ w ∈ watermarks, w < 2 ^ 64) ∧ entryCount < 2 ^ 64 ∧
        bytes = encodeSnapshotCounts watermarks entryCount ++ rest := by
  have hnat := spells_natLe unexpectedEof
  constructor
  · intro h
    obtain ⟨-, b₁, -, h₁, h⟩ := (spells_magic snapshotMagic).bind_ok h
    obtain ⟨-, b₂, -, h₂, h⟩ := (spells_version "snapshot").bind_ok h
    obtain ⟨shardCount, b₃, hshards, h₃, h⟩ := (hnat 2).bind_ok h
    obtain ⟨watermarkCount, b₄, -, h₄, h⟩ := (hnat 4).bind_ok h
    obtain ⟨count, b₅, hcount, h₅, h⟩ := (hnat 8).bind_ok h
    obtain ⟨_, b₆, hcheck, h₆, h⟩ := (Spells.lift _).bind_ok h
    obtain ⟨marks, b₇, hmarks, h₇, h⟩ := (spells_vec (hnat 8)).bind_ok h
    cases h
    obtain ⟨-, hlen, hw⟩ := yields_vec (yields_natLe _ 8) _ _ _ _ hmarks
    have hlt : shardCount < 256 ^ 2 := yields_natLe _ 2 _ _ _ hshards
    have heq : watermarkCount = shardCount := by
      by_contra hne
      rw [if_pos hne] at hcheck
      cases hcheck
    refine ⟨by omega, hw, yields_natLe _ 8 _ _ _ hcount, ?_⟩
    have hlen₂ : watermarks.length = shardCount := hlen.trans heq
    rw [h₁, h₂, h₃, h₄, h₅, h₆, h₇, heq, ← hlen₂]
    simp only [encodeSnapshotCounts, writeU16, writeU32, writeU64, List.append_assoc,
      List.nil_append]
    rfl
  · rintro ⟨hlen, hw, hcount, rfl⟩
    have haffords : Affords alloc sizeOfU64 watermarks.length :=
      halloc.affords (by unfold sizeOfU64; omega)
    have hreads : Reads unexpectedEof (readSnapshotCounts alloc)
        (encodeSnapshotCounts watermarks entryCount) (watermarks, entryCount) := by
      refine (reads_magic rfl).bind ((reads_version "snapshot").bind ?_)
      refine (reads_u16 hlen).bind ((reads_u32 (by omega)).bind ((reads_u64 hcount).bind ?_))
      refine .lift_bind (if_neg fun hne => hne rfl) ?_
      exact (reads_vec haffords fun w hmem => reads_u64 (hw w hmem)).map
    exact hreads.ok rest

/-- The entries are read after the counts. -/
theorem decodeSnapshotHead_throwsOn_iff (halloc : alloc.Ample) :
    ThrowsOn Returned (decodeSnapshotHead alloc) bytes ↔ ¬OverstatesEntries alloc bytes := by
  have hyields : ThrowsOn Returned (decodeSnapshotHead alloc) bytes ↔
      YieldsOn (fun counts => Affords alloc sizeOfDenyEntry counts.2) (readSnapshotCounts alloc)
        bytes := by
    have hnat := throws_natLe returned_eof
    refine (throws_magic _).on_bind_iff fun _ rest _ => (throws_version _).on_bind_iff fun _ rest _ => ?_
    refine (hnat 2).on_bind_iff fun shardCount rest hshards => ?_
    refine (hnat 4).on_bind_iff fun watermarkCount rest _ => (hnat 8).on_bind_iff fun n rest _ => ?_
    refine Throws.on_bind_iff (.lift fun err herr message => ?_) fun _ rest hcheck => ?_
    · split at herr <;> cases herr
      nofun
    · -- the watermarks are as many as the shards, of which there are less than `2 ^ 16`
      have hlt : shardCount < 256 ^ 2 := yields_natLe _ 2 _ _ _ hshards
      have hcount : watermarkCount = shardCount := by
        by_contra hne
        rw [if_pos hne] at hcheck
        cases hcheck
      have hsmall : Affords alloc sizeOfU64 watermarkCount :=
        halloc.affords (by rw [hcount]; unfold sizeOfU64; omega)
      have hwatermarks : ∀ rest,
          ThrowsOn Returned (readVec alloc sizeOfU64 readU64 watermarkCount) rest :=
        fun rest => (throwsOn_vec (hnat 8) rest).mpr hsmall
      refine Throws.on_bind_iff hwatermarks fun watermarks rest _ => ?_
      rw [throwsOn_vec_bind throws_entry fun _ => .pure _]
      exact ⟨fun h a rest' heq => by cases heq; exact h, fun h => h (watermarks, n) rest rfl⟩
  rw [hyields]
  constructor
  · rintro h ⟨watermarks, entryCount, rest, hlen, hw, hcount, heq, hno⟩
    exact hno (h _ rest ((readSnapshotCounts_ok_iff halloc).mpr ⟨hlen, hw, hcount, heq⟩))
  · rintro h ⟨watermarks, entryCount⟩ rest hread
    obtain ⟨hlen, hw, hcount, heq⟩ := (readSnapshotCounts_ok_iff halloc).mp hread
    by_contra hno
    exact h ⟨watermarks, entryCount, rest, hlen, hw, hcount, heq, hno⟩

/-- The rules come later. -/
theorem rules_of_decodeSnapshotHead {s : Snapshot} {rest : List UInt8}
    (h : decodeSnapshotHead alloc bytes = .ok (s, rest)) : s.rules = [] := by
  have hyields : Yields (fun s : Snapshot => s.rules = []) (decodeSnapshotHead alloc) := by
    refine (Yields.any _).bind fun _ _ => (Yields.any _).bind fun _ _ => ?_
    refine (Yields.any _).bind fun _ _ => (Yields.any _).bind fun _ _ => ?_
    refine (Yields.any _).bind fun _ _ => (Yields.any _).bind fun _ _ => ?_
    exact (Yields.any _).bind fun _ _ => (Yields.any _).bind fun _ _ => .pure rfl
  exact hyields bytes s rest h

/-- What is read before the rules. -/
theorem decodeSnapshotHead_ok_iff (halloc : alloc.Ample) {s : Snapshot} {rest : List UInt8}
    (hrules : s.rules = []) :
    decodeSnapshotHead alloc bytes = .ok (s, rest) ↔
      s.Fits ∧ s.watermarks.length = s.shardCount ∧
        Affords alloc sizeOfDenyEntry s.entries.length ∧ bytes = encodeSnapshotHead s ++ rest := by
  have hnat := spells_natLe unexpectedEof
  constructor
  · intro h
    obtain ⟨hfits, hlen, haffords⟩ := yields_snapshotHead bytes s rest h
    refine ⟨hfits, hlen, haffords, ?_⟩
    obtain ⟨-, b₁, -, h₁, h⟩ := (spells_magic snapshotMagic).bind_ok h
    obtain ⟨-, b₂, -, h₂, h⟩ := (spells_version "snapshot").bind_ok h
    obtain ⟨shardCount, b₃, -, h₃, h⟩ := (hnat 2).bind_ok h
    obtain ⟨watermarkCount, b₄, -, h₄, h⟩ := (hnat 4).bind_ok h
    obtain ⟨entryCount, b₅, -, h₅, h⟩ := (hnat 8).bind_ok h
    obtain ⟨-, b₆, -, h₆, h⟩ := (Spells.lift _).bind_ok h
    obtain ⟨watermarks, b₇, hmarks, h₇, h⟩ := (spells_vec (hnat 8)).bind_ok h
    obtain ⟨entries, b₈, hentries, h₈, h⟩ := (spells_vec spells_entry).bind_ok h
    cases h
    have hmarksLen := (yields_vec (yields_natLe _ 8) _ _ _ _ hmarks).2.1
    have hentriesLen := (yields_vec yields_entry _ _ _ _ hentries).2.1
    rw [h₁, h₂, h₃, h₄, h₅, h₆, h₇, h₈, ← hmarksLen, ← hentriesLen]
    simp only [encodeSnapshotHead, writeU16, writeU32, writeU64, List.append_assoc,
      List.nil_append]
    rfl
  · rintro ⟨hfits, hlen, haffords, rfl⟩
    have hmarks : Affords alloc sizeOfU64 s.watermarks.length :=
      halloc.affords (hfits.watermarks_lt hlen)
    have hhead : s.head = s := by
      cases s
      cases hrules
      rfl
    rw [(reads_snapshotHead hfits hlen hmarks haffords).ok rest, hhead]

/-- A number of rules, or nothing, behind the entries. -/
theorem decodeSnapshotRules_throwsOn_iff :
    ThrowsOn Returned (decodeSnapshotRules alloc) bytes ↔
      ∀ ruleCount rest, ruleCount < 2 ^ 64 → bytes = writeU64 ruleCount ++ rest →
        Affords alloc sizeOfRuleEntry ruleCount := by
  have hremaining : ∀ f : Nat → Decoder (List RuleEntry),
      ThrowsOn Returned (remaining >>= f) bytes ↔ ThrowsOn Returned (f bytes.length) bytes :=
    fun _ => Iff.rfl
  unfold decodeSnapshotRules
  rw [hremaining]
  split
  · rw [throwsOn_bind, and_iff_right (Throws.on (p := readU64) (throws_natLe returned_eof 8) bytes)]
    constructor
    · rintro h ruleCount rest hcount rfl
      exact (throwsOn_vec throws_ruleEntry rest).mp (h ruleCount rest ((reads_u64 hcount).ok rest))
    · intro h ruleCount rest hread
      exact (throwsOn_vec throws_ruleEntry rest).mpr (h ruleCount rest
        (yields_natLe _ 8 _ _ _ hread) (spells_natLe unexpectedEof 8 _ _ _ hread))
  · rename_i hshort
    refine iff_of_true ((Throws.pure _).on bytes) ?_
    rintro ruleCount rest - rfl
    simp [writeU64] at hshort

theorem decodeSnapshot_returns_iff (halloc : alloc.Ample) (bytes : List UInt8) :
    (∀ message, decodeSnapshotWith alloc bytes ≠ .error (.panicked message)) ↔
      ¬OverstatesEntries alloc bytes ∧ ¬OverstatesRules alloc bytes := by
  rw [decodeSnapshotWith, map_fst_returns_iff, decodeSnapshotFromCursor, throwsOn_bind,
    decodeSnapshotHead_throwsOn_iff halloc]
  refine and_congr_right fun _ => ?_
  have hrules : ∀ (s : Snapshot) rest, ThrowsOn Returned (decodeSnapshotRules alloc >>= fun rules =>
      (pure { s with rules } : Decoder Snapshot)) rest ↔
      ThrowsOn Returned (decodeSnapshotRules alloc) rest := fun s rest => by
    rw [throwsOn_bind, and_iff_left fun rules rest _ => (Throws.pure _).on rest]
  simp only [hrules, decodeSnapshotRules_throwsOn_iff]
  constructor
  · rintro h ⟨s, ruleCount, rest, hfits, hlen, haffords, hcount, rfl, hno⟩
    -- the rules of the snapshot are not in these bytes
    have hhead : s.head.Fits :=
      ⟨hfits.shardCount, hfits.watermarks, hfits.entries, hfits.entryCount, fun _ hr => (by cases hr),
        Nat.zero_le _⟩
    exact hno (h s.head _ ((decodeSnapshotHead_ok_iff halloc rfl).mpr ⟨hhead, hlen, haffords, rfl⟩)
      ruleCount rest hcount rfl)
  · rintro h s rest hread ruleCount rest' hcount rfl
    have hnil : s.rules = [] := rules_of_decodeSnapshotHead hread
    obtain ⟨hfits, hlen, haffords, rfl⟩ := (decodeSnapshotHead_ok_iff halloc hnil).mp hread
    by_contra hno
    exact h ⟨s, ruleCount, rest', hfits, hlen, haffords, hcount, rfl, hno⟩

theorem decodeMutationStream_returns_iff (alloc : Allocator) (bytes : List UInt8) :
    (∀ message, decodeMutationStreamWith alloc bytes ≠ .error (.panicked message)) ↔
      ¬OverstatesMutations alloc bytes := by
  have hcount : (∀ message, decodeMutationStreamWith alloc bytes ≠ .error (.panicked message)) ↔
      YieldsOn (fun count => Affords alloc sizeOfMutation count) (do
        expectMagic mutationStreamMagic
        expectVersion "mutation stream"
        readU64) bytes := by
    rw [decodeMutationStreamWith, map_fst_returns_iff]
    refine (throws_magic _).on_bind_iff fun _ rest _ => (throws_version _).on_bind_iff fun _ rest _ => ?_
    rw [throwsOn_bind, and_iff_right (Throws.on (p := readU64) (throws_natLe returned_eof 8) rest)]
    refine forall_congr' fun n => forall_congr' fun rest => forall_congr' fun _ => ?_
    exact throwsOn_vec throws_frame rest
  rw [hcount]
  constructor
  · rintro h ⟨count, rest, hlt, rfl, hno⟩
    refine hno (h count rest ?_)
    have hreads := (@reads_magic mutationStreamMagic rfl).bind (f := fun _ => do
      expectVersion "mutation stream"
      readU64) ((reads_version "mutation stream").bind (f := fun _ => readU64) (reads_u64 hlt))
    have hok := hreads.ok rest
    rwa [List.append_assoc, List.append_assoc] at hok
  · intro h count rest hread
    obtain ⟨-, b₁, -, h₁, hread⟩ := (spells_magic mutationStreamMagic).bind_ok hread
    obtain ⟨-, b₂, -, h₂, hread⟩ := (spells_version "mutation stream").bind_ok hread
    have h₃ := spells_natLe unexpectedEof 8 _ _ _ hread
    by_contra hno
    exact h ⟨count, rest, yields_natLe _ 8 _ _ _ hread, by rw [h₁, h₂, h₃]; rfl, hno⟩

end Decoders

theorem parseU64_returned {value : Option String} {default : Nat} {field : String}
    {err : GlobAclError} (h : parseU64 value default field = .error err) : Returned err := by
  unfold parseU64 at h
  split at h
  · split at h
    · cases h
    · cases h
      nofun
  · cases h

theorem parseJsonFields_returned {serde : SerdeJson} {body : List UInt8} {err : GlobAclError}
    (h : parseJsonFields serde body = .error err) : Returned err := by
  unfold parseJsonFields at h
  split at h
  · cases h
    nofun
  · split at h
    · cases h
      nofun
    · split at h
      · cases h
        nofun
      · unfold jsonObjectToStringMap at h
        split at h
        · cases h
        · cases h
          nofun

/-- The errors of a loop are those of its turns. -/
theorem mapM_error {α β : Type} {E : GlobAclError → Prop} {f : α → Result β}
    (h : ∀ a err, f a = .error err → E err) :
    ∀ (l : List α) (err : GlobAclError), l.mapM f = .error err → E err := by
  intro l
  induction l with
  | nil => intro err herr; cases herr
  | cons a l ih =>
    intro err herr
    rw [List.mapM_cons] at herr
    cases ha : f a with
    | error err' =>
      rw [ha] at herr
      cases herr
      exact h a err ha
    | ok b =>
      rw [ha, ok_bind] at herr
      cases hl : l.mapM f with
      | error err' =>
        rw [hl] at herr
        cases herr
        exact ih err hl
      | ok bs =>
        rw [hl] at herr
        cases herr

/-- The number of shards of a watermark body. -/
theorem parseUsize_ok_iff {value : Option String} {field : String} {n : Nat} (hn : n ≠ 0) :
    parseUsize value 0 field = .ok n ↔
      ∃ text, value = some text ∧ parseUnsigned (2 ^ 64 - 1) (trim text) = .ok n := by
  unfold parseUsize parseU64
  cases value with
  | none => simpa using hn.symm
  | some text =>
    by_cases htrim : trim text = ""
    · rw [Option.filter_some, if_neg (by simpa using htrim)]
      refine iff_of_false (fun h => hn (Except.ok.inj h).symm) ?_
      rintro ⟨text', htext, hparse⟩
      cases htext
      rw [htrim] at hparse
      cases hparse
    · rw [Option.filter_some, if_pos (by simpa using htrim)]
      dsimp only
      cases hparse : parseUnsigned (2 ^ 64 - 1) (trim text) with
      | error err =>
        refine iff_of_false (fun h => by cases h) ?_
        rintro ⟨text', htext, h⟩
        cases htext
        rw [hparse] at h
        cases h
      | ok k =>
        constructor
        · intro h
          cases h
          exact ⟨text, rfl, hparse⟩
        · rintro ⟨text', htext, h⟩
          cases htext
          cases hparse.symm.trans h
          rfl

theorem parseWatermarks_returns_iff {alloc : Allocator} (halloc : alloc.Ample) (serde : SerdeJson)
    (body : List UInt8) :
    (∀ message, parseWatermarks alloc serde body ≠ .error (.panicked message)) ↔
      ¬OverstatesShards alloc serde body := by
  unfold parseWatermarks OverstatesShards
  cases hform : parseJsonFields serde body with
  | error err =>
    refine iff_of_true (fun message herr => ?_) (by rintro ⟨form, text, count, h, -⟩; cases h)
    cases herr
    exact parseJsonFields_returned hform _ rfl
  | ok form =>
    rw [ok_bind]
    cases hcount : parseUsize (form.lookup "shard_count") 0 "shard_count" with
    | error err =>
      refine iff_of_true (fun message herr => ?_) ?_
      · cases herr
        exact parseU64_returned hcount _ rfl
      · rintro ⟨form', text, count, hform', htext, hparse, hno⟩
        cases hform'
        have hne : count ≠ 0 := fun hzero => hno (by
          rw [hzero]
          exact halloc.affords (by decide))
        rw [(parseUsize_ok_iff hne).mpr ⟨text, htext, hparse⟩] at hcount
        cases hcount
    | ok n =>
      rw [ok_bind]
      by_cases hg : Affords alloc sizeOfU64 n
      · rw [withCapacity_of_affords hg, ok_bind]
        refine iff_of_true (fun message herr => ?_) ?_
        · exact mapM_error (fun _ _ h => parseU64_returned h) _ _ herr message rfl
        · rintro ⟨form', text, count, hform', htext, hparse, hno⟩
          cases hform'
          have hne : count ≠ 0 := fun hzero => hno (by
            rw [hzero]
            exact halloc.affords (by decide))
          rw [(parseUsize_ok_iff hne).mpr ⟨text, htext, hparse⟩] at hcount
          cases hcount
          exact hno hg
      · obtain ⟨message, herr⟩ := withCapacity_of_not hg
        rw [herr, error_bind]
        refine iff_of_false (fun h => h message rfl) fun h => h ?_
        have hne : n ≠ 0 := fun hzero => hg (by
          rw [hzero]
          exact halloc.affords (by decide))
        obtain ⟨text, htext, hparse⟩ := (parseUsize_ok_iff hne).mp hcount
        exact ⟨form, text, n, rfl, htext, hparse, hg⟩

/-- A decoder returns, with a value or an error, exactly when the bytes are not those of a value up to
a count for which there is no memory. -/
theorem decoders_return_iff {alloc : Allocator} (halloc : alloc.Ample) (serde : SerdeJson)
    (bytes : List UInt8) :
    ((∀ message, decodeSnapshotWith alloc bytes ≠ .error (.panicked message)) ↔
      ¬OverstatesEntries alloc bytes ∧ ¬OverstatesRules alloc bytes) ∧
      ((∀ message, decodeMutationStreamWith alloc bytes ≠ .error (.panicked message)) ↔
        ¬OverstatesMutations alloc bytes) ∧
      ((∀ message, parseWatermarks alloc serde bytes ≠ .error (.panicked message)) ↔
        ¬OverstatesShards alloc serde bytes) :=
  ⟨decodeSnapshot_returns_iff halloc bytes, decodeMutationStream_returns_iff alloc bytes,
    parseWatermarks_returns_iff halloc serde bytes⟩

/-- The head of a snapshot without shards that announces some entries. -/
def announcing (entryCount : Nat) : List UInt8 := encodeSnapshotCounts [] entryCount

/-- An allocator with 1 TiB. -/
def tebibyte : Allocator := fun bytes => decide (bytes ≤ 2 ^ 40)

theorem ample_tebibyte : tebibyte.Ample := fun bytes h => by
  unfold tebibyte
  rw [decide_eq_true_eq]
  omega

/-- With 1 TiB, `2 ^ 34` entries abort the process, of which a vector could be addressed. -/
theorem decoders_return_announcing :
    ((∀ message, decodeSnapshotWith tebibyte (announcing (2 ^ 34)) ≠ .error (.panicked message)) ↔
      ¬OverstatesEntries tebibyte (announcing (2 ^ 34)) ∧
        ¬OverstatesRules tebibyte (announcing (2 ^ 34))) ∧
      OverstatesEntries tebibyte (announcing (2 ^ 34)) :=
  ⟨(decoders_return_iff ample_tebibyte (.only []) (announcing (2 ^ 34))).1,
    [], 2 ^ 34, [], by decide, by simp, by decide, by simp [announcing], by decide⟩

/-- A snapshot of twenty bytes makes the decoder panic. -/
theorem not_decoders_return :
    ¬∀ bytes message, decodeSnapshot bytes ≠ .error (.panicked message) := by
  intro h
  have hne : decodeSnapshot (announcing (2 ^ 64 - 1)) ≠ .error (.panicked "capacity overflow") :=
    h _ _
  revert hne
  decide +kernel

end Globacl
