import Globacl.Core.Rules

/-!
# The source of truth (`globacl-core/src/lib/source.rs`)

The state that a commit node holds: the live entries and rules, the per-shard watermarks, the
retained mutations and the index of operation ids. A function that returns an error leaves the
state as it was, so an operation returns the new state only with a result. The clock
(`now_unix()`) and the iteration order of hash maps are arguments.

The fields at the end of `SourceOfTruth` are its invariant: there is at least one shard, both
watermark vectors have one slot for each shard, and each map stores a value under the value's own
key.
-/

namespace Globacl

open Lib

structure SourceOfTruth where
  shardCount : Nat
  entries : HashMap AclKey DenyEntry
  rules : HashMap RuleKey RuleEntry
  watermarks : List Nat
  compactedWatermarks : List Nat
  mutations : List Mutation
  opIndex : HashMap String Mutation
  epoch : Nat
  sourceRegion : String
  shardCount_pos : 0 < shardCount
  watermarks_length : watermarks.length = shardCount
  compacted_length : compactedWatermarks.length = shardCount
  entries_keyed : HashMap.Keyed DenyEntry.aclKey entries
  rules_keyed : HashMap.Keyed RuleEntry.ruleKey rules
  opIndex_keyed : HashMap.Keyed Mutation.opId opIndex

namespace SourceOfTruth

/-- `self.watermarks[shard_id]`. -/
def watermark (st : SourceOfTruth) (shardId : Nat) : Nat := st.watermarks.getD shardId 0

/-- `self.compacted_watermarks[shard_id]`. -/
def compactedWatermark (st : SourceOfTruth) (shardId : Nat) : Nat :=
  st.compactedWatermarks.getD shardId 0

/-- `SourceOfTruth::new`. -/
def new (shardCount : Nat) (sourceRegion : String) : SourceOfTruth where
  shardCount := max shardCount 1
  entries := ∅
  rules := ∅
  watermarks := List.replicate (max shardCount 1) 0
  compactedWatermarks := List.replicate (max shardCount 1) 0
  mutations := []
  opIndex := ∅
  epoch := 1
  sourceRegion := sourceRegion
  shardCount_pos := by omega
  watermarks_length := List.length_replicate
  compacted_length := List.length_replicate
  entries_keyed := .empty _
  rules_keyed := .empty _
  opIndex_keyed := .empty _

/-- The `match` of `apply_committed_mutation` on a rule: what becomes of the rules. -/
def applyRule (rules : HashMap RuleKey RuleEntry) (rule : RuleEntry) : HashMap RuleKey RuleEntry :=
  match rule.action with
  | .delete => rules.erase rule.ruleKey
  | .deny | .allowOverride => rules.insert rule.ruleKey rule

/-- The `match` of `apply_committed_mutation` on an entry. -/
def applyEntry (entries : HashMap AclKey DenyEntry) (entry : DenyEntry) :
    HashMap AclKey DenyEntry :=
  match entry.action with
  | .delete => entries.erase entry.aclKey
  | .deny | .allowOverride => entries.insert entry.aclKey entry

theorem applyRule_keyed {rules : HashMap RuleKey RuleEntry}
    (h : HashMap.Keyed RuleEntry.ruleKey rules) (rule : RuleEntry) :
    HashMap.Keyed RuleEntry.ruleKey (applyRule rules rule) := by
  unfold applyRule
  split
  · exact h.erase _
  · exact h.insert _
  · exact h.insert _

theorem applyEntry_keyed {entries : HashMap AclKey DenyEntry}
    (h : HashMap.Keyed DenyEntry.aclKey entries) (entry : DenyEntry) :
    HashMap.Keyed DenyEntry.aclKey (applyEntry entries entry) := by
  unfold applyEntry
  split
  · exact h.erase _
  · exact h.insert _
  · exact h.insert _

/-- The state after the effect of a mutation that passed the checks. -/
def advance (st : SourceOfTruth) (m : Mutation) : SourceOfTruth where
  __ := st
  entries := if m.rule.isSome then st.entries else applyEntry st.entries m.entry
  rules := match m.rule with
    | some rule => applyRule st.rules rule
    | none => st.rules
  watermarks := st.watermarks.set m.shard m.seq
  watermarks_length := by rw [List.length_set]; exact st.watermarks_length
  entries_keyed := by
    split
    · exact st.entries_keyed
    · exact applyEntry_keyed st.entries_keyed _
  rules_keyed := by
    split
    · exact applyRule_keyed st.rules_keyed _
    · exact st.rules_keyed

/-- `apply_committed_mutation`. -/
def applyCommittedMutation (st : SourceOfTruth) (m : Mutation) : Result SourceOfTruth :=
  if m.shard ≥ st.shardCount then
    .error (.invalidData s!"shard {m.shard} is outside shard_count {st.shardCount}")
  else if m.seq ≠ st.watermark m.shard + 1 then
    .error (.gap m.shard (st.watermark m.shard + 1) m.seq)
  else .ok (st.advance m)

/-- `self.op_index.insert(mutation.op_id, mutation)`. -/
def indexOp (st : SourceOfTruth) (m : Mutation) : SourceOfTruth where
  __ := st
  opIndex := st.opIndex.insert m.opId m
  opIndex_keyed := st.opIndex_keyed.insert m

/-- `self.mutations.push(mutation)`. -/
def pushMutation (st : SourceOfTruth) (m : Mutation) : SourceOfTruth :=
  { st with mutations := st.mutations ++ [m] }

/-- The text of the error of an operation id that is taken. -/
def opIdTaken (m : Mutation) : GlobAclError :=
  .invalidData s!"op_id {m.opId} already exists with a different mutation"

/-- `insert_op_index`. -/
def insertOpIndex (st : SourceOfTruth) (m : Mutation) : Result SourceOfTruth :=
  match st.opIndex.lookup m.opId with
  | some existing => if existing = m then .ok st else .error (opIdTaken m)
  | none => .ok (st.indexOp m)

/-- `apply_loaded_mutation`. -/
def applyLoadedMutation (st : SourceOfTruth) (m : Mutation) : Result SourceOfTruth := do
  let st ← st.applyCommittedMutation m
  let st ← st.insertOpIndex m
  pure (st.pushMutation m)

/-- `apply_replicated_mutation`. -/
def applyReplicatedMutation (st : SourceOfTruth) (m : Mutation) :
    Result (ApplyStatus × SourceOfTruth) :=
  match st.opIndex.lookup m.opId with
  | some existing =>
    if existing = m then .ok (.duplicateOrOld, st) else .error (opIdTaken m)
  | none =>
    if m.shard ≥ st.shardCount then
      .error (.invalidData s!"shard {m.shard} is outside shard_count {st.shardCount}")
    else if m.seq ≤ st.watermark m.shard then
      if st.mutations.any fun existing =>
          existing.shard = m.shard && existing.seq = m.seq && existing = m then
        .ok (.duplicateOrOld, st)
      else
        .error (.invalidData s!"stale or conflicting mutation for shard {m.shard} seq {m.seq}")
    else
      match st.applyCommittedMutation m with
      | .error err => .error err
      | .ok st => .ok (.applied, (st.indexOp m).pushMutation m)

/-! ## Loading -/

/-- The key `(shard_id, seq, op_id)` of the loaders' sort. -/
def compareBySlot (left right : Mutation) : Ordering :=
  (compare left.shard right.shard).then
    ((compare left.seq right.seq).then (compare left.opId right.opId))

/-- `from_mutations`. -/
def fromMutations (shardCount : Nat) (sourceRegion : String) (mutations : List Mutation) :
    Result SourceOfTruth :=
  (sortBy compareBySlot mutations).foldlM applyLoadedMutation (new shardCount sourceRegion)

/-- The state of a snapshot that passed the checks, with the compacted watermarks `compacted`. -/
def ofSnapshot (shardCount : Nat) (sourceRegion : String) (snapshot : Snapshot)
    (compacted : List Nat) (hpos : 0 < shardCount)
    (hlen : snapshot.watermarks.length = shardCount) (hcomp : compacted.length = shardCount) :
    SourceOfTruth where
  shardCount := shardCount
  entries := HashMap.collect DenyEntry.aclKey snapshot.entries ∅
  rules := HashMap.collect RuleEntry.ruleKey snapshot.rules ∅
  watermarks := snapshot.watermarks
  compactedWatermarks := compacted
  mutations := []
  opIndex := ∅
  epoch := 1
  sourceRegion := sourceRegion
  shardCount_pos := hpos
  watermarks_length := hlen
  compacted_length := hcomp
  entries_keyed := (HashMap.Keyed.empty _).collect _
  rules_keyed := (HashMap.Keyed.empty _).collect _
  opIndex_keyed := .empty _

/-- The check of a loader that the snapshot has the expected shard count. -/
def snapshotShardMismatch (shardCount : Nat) (snapshot : Snapshot) : GlobAclError :=
  .invalidData
    s!"snapshot shard_count {snapshot.shardCount} does not match expected {shardCount}"

/-- `from_snapshot_and_mutations`. The code builds the state with `SourceOfTruth::new`, which has
one shard where the shard count is `0`: a later access to its watermarks is then out of bounds, so
the model stops there. -/
def fromSnapshotAndMutations (shardCount : Nat) (sourceRegion : String) (snapshot : Snapshot)
    (idempotencyMutations mutations : List Mutation) : Result SourceOfTruth :=
  if snapshot.shardCount ≠ shardCount then .error (snapshotShardMismatch shardCount snapshot)
  else
    match snapshot.validate with
    | .error err => .error err
    | .ok () =>
      if h : 0 < shardCount ∧ snapshot.watermarks.length = shardCount then do
        let st := ofSnapshot shardCount sourceRegion snapshot snapshot.watermarks h.1 h.2 h.2
        let st ← idempotencyMutations.foldlM insertOpIndex st
        (sortBy compareBySlot mutations).foldlM applyLoadedMutation st
      else .error (.panicked "index out of bounds")

/-- A step of the loop of `from_snapshot_and_retained_history` over the sorted mutations, with
the last sequence number of each shard seen so far. -/
def retainMutation (acc : SourceOfTruth × List Nat) (m : Mutation) :
    Result (SourceOfTruth × List Nat) :=
  let (st, expectedHistorySeq) := acc
  if m.shard ≥ st.shardCount then
    .error (.invalidData s!"shard {m.shard} is outside shard_count {st.shardCount}")
  else if m.seq ≠ expectedHistorySeq.getD m.shard 0 + 1 then
    .error (.gap m.shard (expectedHistorySeq.getD m.shard 0 + 1) m.seq)
  else do
    let st ←
      if m.seq ≤ st.watermark m.shard then do
        let st ← st.insertOpIndex m
        pure (st.pushMutation m)
      else st.applyLoadedMutation m
    pure (st, expectedHistorySeq.set m.shard m.seq)

/-- The last loop of `from_snapshot_and_retained_history`: each shard's history reaches its
watermark. -/
def checkReplayed (st : SourceOfTruth) (expectedHistorySeq : List Nat) : Result Unit :=
  match (List.range expectedHistorySeq.length).find? fun shardId =>
      decide (expectedHistorySeq.getD shardId 0 < st.watermark shardId) with
  | some shardId =>
    .error (.gap shardId (expectedHistorySeq.getD shardId 0 + 1) (st.watermark shardId))
  | none => .ok ()

/-- `from_snapshot_and_retained_history`. -/
def fromSnapshotAndRetainedHistory (shardCount : Nat) (sourceRegion : String)
    (snapshot : Snapshot) (idempotencyMutations retainedMutations : List Mutation)
    (compactedWatermarks : List Nat) : Result SourceOfTruth :=
  if snapshot.shardCount ≠ shardCount then .error (snapshotShardMismatch shardCount snapshot)
  else
    match snapshot.validate with
    | .error err => .error err
    | .ok () =>
      if hc : compactedWatermarks.length ≠ shardCount then
        .error (.invalidData
          s!"retained history has {compactedWatermarks.length} compacted watermarks for {shardCount} shards")
      else
        match (List.range shardCount).find? fun shardId =>
            decide (compactedWatermarks.getD shardId 0 > snapshot.watermarks.getD shardId 0) with
        | some shardId =>
          .error (.invalidData
            s!"retained history compacted watermark {compactedWatermarks.getD shardId 0} exceeds shard {shardId} snapshot watermark {snapshot.watermarks.getD shardId 0}")
        | none =>
          if h : 0 < shardCount ∧ snapshot.watermarks.length = shardCount then do
            let st := ofSnapshot shardCount sourceRegion snapshot compactedWatermarks h.1 h.2
              (not_not.mp hc)
            let st ← idempotencyMutations.foldlM insertOpIndex st
            let (st, expectedHistorySeq) ←
              (sortBy compareBySlot retainedMutations).foldlM retainMutation
                (st, compactedWatermarks)
            checkReplayed st expectedHistorySeq
            pure st
          else .error (.panicked "index out of bounds")

/-! ## Committing -/

/-- `set_epoch`. -/
def setEpoch (st : SourceOfTruth) (epoch : Nat) : SourceOfTruth := { st with epoch := max epoch 1 }

/-- The next commit id of a shard. -/
def nextCommitId (st : SourceOfTruth) (shardId : Nat) : CommitId :=
  ⟨shardId, st.watermark shardId + 1, st.epoch, st.sourceRegion⟩

/-- `prepare_commit`. -/
def prepareCommit (now : Nat) (st : SourceOfTruth) (request : DenyRequest) : Result CommitOutcome :=
  if trim request.opId = "" then .error (.parse "op_id must not be empty")
  else
    match st.opIndex.lookup request.opId with
    | some existing => .ok ⟨existing, true⟩
    | none =>
      let key := AclKey.fromRaw request.tenantId request.namespace' request.key
      let commitId := st.nextCommitId (shardForHash key.keyHash st.shardCount)
      let entry : DenyEntry :=
        { tenantId := request.tenantId, namespace' := request.namespace', keyHash := key.keyHash,
          action := request.action, priority := request.priority,
          reasonCode := request.reasonCode, expiresAt := request.expiresAt,
          createdBy := request.createdBy, commitSeq := commitId.seq,
          shardId := commitId.shardId }
      .ok ⟨{ opId := request.opId, commitId, entry, rule := none,
             deliveryPriority := request.deliveryPriority, committedAtUnix := now }, false⟩

/-- The entry that stands beside a rule in its mutation. -/
def ruleShadowEntry (rule : RuleEntry) : DenyEntry :=
  { tenantId := rule.tenantId, namespace' := "__rule:" ++ rule.kind.asStr,
    keyHash := rule.ruleHash, action := rule.action, priority := rule.priority,
    reasonCode := rule.reasonCode, expiresAt := rule.expiresAt, createdBy := rule.createdBy,
    commitSeq := rule.commitSeq, shardId := rule.shardId }

/-- `prepare_rule_commit`. -/
def prepareRuleCommit (now : Nat) (st : SourceOfTruth) (request : RuleRequest) :
    Result CommitOutcome :=
  if trim request.opId = "" then .error (.parse "op_id must not be empty")
  else
    match st.opIndex.lookup request.opId with
    | some existing => .ok ⟨existing, true⟩
    | none =>
      match compileRulePattern request.kind request.pattern with
      | .error err => .error err
      | .ok compiled =>
        let ruleHash :=
          stableKeyHash request.tenantId request.kind.asStr compiled.canonicalPattern
        let commitId := st.nextCommitId (shardForHash ruleHash st.shardCount)
        let rule : RuleEntry :=
          { tenantId := request.tenantId, kind := request.kind,
            pattern := compiled.canonicalPattern, ruleHash, action := request.action,
            priority := request.priority, reasonCode := request.reasonCode,
            expiresAt := request.expiresAt, createdBy := request.createdBy,
            commitSeq := commitId.seq, shardId := commitId.shardId,
            ipv4Network := compiled.ipv4Network, ipv4PrefixLen := compiled.ipv4PrefixLen,
            domainSuffix := compiled.domainSuffix }
        .ok ⟨{ opId := request.opId, commitId, entry := ruleShadowEntry rule, rule := some rule,
               deliveryPriority := request.deliveryPriority, committedAtUnix := now }, false⟩

/-- The part that `commit` and `commit_rule` share: a new mutation is applied, a duplicate is
only reported. -/
def applyOutcome (st : SourceOfTruth) (outcome : CommitOutcome) :
    Result (CommitOutcome × SourceOfTruth) :=
  if outcome.duplicate then .ok (outcome, st)
  else
    match st.applyReplicatedMutation outcome.mutation with
    | .error err => .error err
    | .ok (_, st) => .ok (outcome, st)

/-- `commit`. -/
def commit (now : Nat) (st : SourceOfTruth) (request : DenyRequest) :
    Result (CommitOutcome × SourceOfTruth) := do
  let outcome ← st.prepareCommit now request
  st.applyOutcome outcome

/-- `commit_rule`. -/
def commitRule (now : Nat) (st : SourceOfTruth) (request : RuleRequest) :
    Result (CommitOutcome × SourceOfTruth) := do
  let outcome ← st.prepareRuleCommit now request
  st.applyOutcome outcome

/-! ## Reading -/

/-- `lookup`. -/
def lookup (st : SourceOfTruth) (tenantId namespace' rawKey : String) (nowUnix : Nat) : Decision :=
  decisionForEntry (st.entries.lookup (AclKey.fromRaw tenantId namespace' rawKey)) nowUnix

/-- The best rule of the loop of `check`. -/
def bestRule (ord : IterOrder) (st : SourceOfTruth) (tenantId namespace' rawValue : String)
    (nowUnix : Nat) : RuleMatch :=
  (st.rules.values ord).foldl
    (fun best rule =>
      if rule.tenantId = tenantId ∧ ruleMatchesNamespace rule namespace' rawValue then
        RuleMatch.consider nowUnix best rule
      else best)
    none

/-- `check`. -/
def check (ord : IterOrder) (st : SourceOfTruth) (tenantId namespace' rawValue : String)
    (nowUnix : Nat) : Decision :=
  let point := st.lookup tenantId namespace' rawValue nowUnix
  if point.isDenied then point
  else (st.bestRule ord tenantId namespace' rawValue nowUnix).intoDecision

/-- `mutations_for_shard`. -/
def mutationsForShard (st : SourceOfTruth) (shardId fromSeq : Nat) : List Mutation :=
  st.mutations.filter fun m => m.shard = shardId && decide (m.seq > fromSeq)

/-- `mutation_history_compacted`. -/
def mutationHistoryCompacted (st : SourceOfTruth) (shardId fromSeq : Nat) : Option Nat :=
  match st.compactedWatermarks[shardId]? with
  | none => none
  | some compactedSeq => if fromSeq < compactedSeq then some compactedSeq else none

/-- `snapshot`. -/
def snapshot (ord : IterOrder) (st : SourceOfTruth) : Snapshot :=
  ⟨st.shardCount, st.watermarks, st.entries.values ord, st.rules.values ord⟩

/-- `idempotency_mutations`. -/
def idempotencyMutations (ord : IterOrder) (st : SourceOfTruth) : List Mutation :=
  sortBy compareBySlot (st.opIndex.values ord)

/-- `compact_mutation_history`. -/
def compactMutationHistory (st : SourceOfTruth) (watermarks : List Nat) : Result SourceOfTruth :=
  if watermarks.length ≠ st.shardCount then
    .error (.invalidData
      s!"compaction has {watermarks.length} watermarks for {st.shardCount} shards")
  else
    match (List.range st.shardCount).find? fun shardId =>
        decide (watermarks.getD shardId 0 > st.watermark shardId) with
    | some shardId =>
      .error (.invalidData
        s!"compaction watermark {watermarks.getD shardId 0} exceeds shard {shardId} watermark {st.watermark shardId}")
    | none =>
      .ok { st with
        mutations := st.mutations.filter fun m => decide (m.seq > watermarks.getD m.shard 0)
        compactedWatermarks := (List.range st.shardCount).map fun shardId =>
          max (st.compactedWatermark shardId) (watermarks.getD shardId 0)
        compacted_length := by rw [List.length_map, List.length_range] }

/-! ## Restoring a snapshot by forward mutations -/

/-- `commit_entry_direct` and `commit_rule_direct` after they built the mutation. -/
def commitDirect (st : SourceOfTruth) (m : Mutation) : Result (Mutation × SourceOfTruth) :=
  match st.applyCommittedMutation m with
  | .error err => .error err
  | .ok st => .ok (m, (st.indexOp m).pushMutation m)

/-- `commit_entry_direct`. -/
def commitEntryDirect (now : Nat) (st : SourceOfTruth) (opId : String) (entry : DenyEntry) :
    Result (Mutation × SourceOfTruth) :=
  let commitId := st.nextCommitId (shardForHash entry.keyHash st.shardCount)
  let entry := { entry with shardId := commitId.shardId, commitSeq := commitId.seq }
  st.commitDirect
    { opId, commitId, entry, rule := none, deliveryPriority := .p0, committedAtUnix := now }

/-- `commit_rule_direct`. -/
def commitRuleDirect (now : Nat) (st : SourceOfTruth) (opId : String) (rule : RuleEntry) :
    Result (Mutation × SourceOfTruth) :=
  let commitId := st.nextCommitId (shardForHash rule.ruleHash st.shardCount)
  let rule := { rule with shardId := commitId.shardId, commitSeq := commitId.seq }
  st.commitDirect
    { opId, commitId, entry := ruleShadowEntry rule, rule := some rule, deliveryPriority := .p0,
      committedAtUnix := now }

/-- `format!("{op_prefix}-{index:06}")`. -/
def restoreOpId (opPrefix : String) (index : Nat) : String :=
  opPrefix ++ "-" ++ String.ofList (List.leftpad 6 '0' (toString index).toList)

/-- The loop of `next_restore_op_id`, for at most `fuel` indices that are taken. -/
def searchRestoreOpId (opIndex : HashMap String Mutation) (opPrefix : String) :
    Nat → Nat → String
  | 0, index => restoreOpId opPrefix index
  | fuel + 1, index =>
    if restoreOpId opPrefix index ∈ opIndex then
      searchRestoreOpId opIndex opPrefix fuel (index + 1)
    else restoreOpId opPrefix index

/-- `next_restore_op_id`: an index has as many taken ids at most as it has operations. -/
def nextRestoreOpId (opIndex : HashMap String Mutation) (opPrefix : String) (startIndex : Nat) :
    String :=
  searchRestoreOpId opIndex opPrefix opIndex.keys.length startIndex

/-- The state of `restore_snapshot` between two commits: the source and the mutations so far. -/
structure Restore where
  st : SourceOfTruth
  mutations : List Mutation

/-- One commit of `restore_snapshot`. -/
def Restore.commitEntry (clock : Nat → Nat) (opPrefix : String) (r : Restore) (entry : DenyEntry) :
    Result Restore := do
  let (m, st) ← r.st.commitEntryDirect (clock r.mutations.length)
    (nextRestoreOpId r.st.opIndex opPrefix r.mutations.length) entry
  pure ⟨st, r.mutations ++ [m]⟩

/-- One commit of `restore_snapshot` of a rule. -/
def Restore.commitRule (clock : Nat → Nat) (opPrefix : String) (r : Restore) (rule : RuleEntry) :
    Result Restore := do
  let (m, st) ← r.st.commitRuleDirect (clock r.mutations.length)
    (nextRestoreOpId r.st.opIndex opPrefix r.mutations.length) rule
  pure ⟨st, r.mutations ++ [m]⟩

/-- `restore_snapshot`. -/
def restoreSnapshot (clock : Nat → Nat) (ord : IterOrder) (st : SourceOfTruth)
    (snapshot : Snapshot) (opPrefix : String) : Result Restore :=
  if snapshot.shardCount ≠ st.shardCount then
    .error (.invalidData
      s!"rollback snapshot has shard_count {snapshot.shardCount}, expected {st.shardCount}")
  else do
    snapshot.validate
    let targetEntries := HashMap.collect DenyEntry.aclKey snapshot.entries ∅
    let targetRules := HashMap.collect RuleEntry.ruleKey snapshot.rules ∅
    let r ← (sortBy compareEntriesByKey (st.entries.values ord)).foldlM
      (fun r entry =>
        if entry.aclKey ∈ targetEntries then pure r
        else r.commitEntry clock opPrefix
          { entry with action := .delete, reasonCode := "rollback_delete", expiresAt := 0,
                       createdBy := "globacl-rollback" })
      ⟨st, []⟩
    let r ← (sortBy compareEntriesByKey (targetEntries.values ord)).foldlM
      (fun r entry =>
        match r.st.entries.lookup entry.aclKey with
        | some current =>
          if entrySemanticallyEqual current entry then pure r
          else r.commitEntry clock opPrefix entry
        | none => r.commitEntry clock opPrefix entry)
      r
    let r ← (sortBy compareRulesByKey (r.st.rules.values ord)).foldlM
      (fun r rule =>
        if rule.ruleKey ∈ targetRules then pure r
        else r.commitRule clock opPrefix
          { rule with action := .delete, reasonCode := "rollback_delete", expiresAt := 0,
                      createdBy := "globacl-rollback" })
      r
    (sortBy compareRulesByKey (targetRules.values ord)).foldlM
      (fun r rule =>
        match r.st.rules.lookup rule.ruleKey with
        | some current =>
          if ruleSemanticallyEqual current rule then pure r
          else r.commitRule clock opPrefix rule
        | none => r.commitRule clock opPrefix rule)
      r

end SourceOfTruth

end Globacl
