import Globacl.Core.Decisions
import Globacl.Core.Faults
import Globacl.Core.Serving

/-!
# The source of truth as it is loaded (`globacl-core/src/lib/source.rs`)

`SourceOfTruth` carries as an invariant that both watermark vectors have a slot for each shard. The
loaders do not establish it by themselves: `new` makes at least one shard, and then the vectors of
the snapshot, which may be empty, take the place of its own. `LoadedSource` is the record without
the invariant. An access to a watermark is an index that may be out of bounds, and the next sequence
number wraps.

* `Built.lengths_iff`: a source that a loader built has the slots of its shards exactly when the
  shard count is not zero.
* `assigns_next_iff`: it then assigns the next sequence number unless the watermark is the largest.
* `fromSnapshotAndMutations_toLoaded`, `fromSnapshotAndRetainedHistory_toLoaded`: in this case the
  loaders are those of `SourceOfTruth`.
-/

namespace Globacl

open Lib

/-- The fields of `SourceOfTruth`. -/
structure LoadedSource where
  shardCount : Nat
  entries : HashMap AclKey DenyEntry
  rules : HashMap RuleKey RuleEntry
  watermarks : List Nat
  compactedWatermarks : List Nat
  mutations : List Mutation
  opIndex : HashMap String Mutation
  epoch : Nat
  sourceRegion : String

namespace LoadedSource

/-- `SourceOfTruth::new`. -/
def new (shardCount : Nat) (sourceRegion : String) : LoadedSource where
  shardCount := max shardCount 1
  entries := ∅
  rules := ∅
  watermarks := List.replicate (max shardCount 1) 0
  compactedWatermarks := List.replicate (max shardCount 1) 0
  mutations := []
  opIndex := ∅
  epoch := 1
  sourceRegion := sourceRegion

/-- The state after the effect of a mutation that passed the checks. -/
def advance (st : LoadedSource) (m : Mutation) : LoadedSource where
  __ := st
  entries := if m.rule.isSome then st.entries else SourceOfTruth.applyEntry st.entries m.entry
  rules := match m.rule with
    | some rule => SourceOfTruth.applyRule st.rules rule
    | none => st.rules
  watermarks := st.watermarks.set m.shard m.seq

/-- The error of a mutation whose shard does not exist. -/
def shardOutside (shardId shardCount : Nat) : GlobAclError :=
  .invalidData s!"shard {shardId} is outside shard_count {shardCount}"

/-- `apply_committed_mutation`. -/
def applyCommittedMutation (st : LoadedSource) (m : Mutation) : Result LoadedSource :=
  if m.shard ≥ st.shardCount then .error (shardOutside m.shard st.shardCount)
  else do
    let expectedSeq := wrappingSucc (← index st.watermarks m.shard)
    if m.seq ≠ expectedSeq then .error (.gap m.shard expectedSeq m.seq)
    else pure (st.advance m)

/-- `self.op_index.insert(mutation.op_id, mutation)`. -/
def indexOp (st : LoadedSource) (m : Mutation) : LoadedSource :=
  { st with opIndex := st.opIndex.insert m.opId m }

/-- `self.mutations.push(mutation)`. -/
def pushMutation (st : LoadedSource) (m : Mutation) : LoadedSource :=
  { st with mutations := st.mutations ++ [m] }

/-- `insert_op_index`. -/
def insertOpIndex (st : LoadedSource) (m : Mutation) : Result LoadedSource :=
  match st.opIndex.lookup m.opId with
  | some existing => if existing = m then .ok st else .error (SourceOfTruth.opIdTaken m)
  | none => .ok (st.indexOp m)

/-- `apply_loaded_mutation`. -/
def applyLoadedMutation (st : LoadedSource) (m : Mutation) : Result LoadedSource := do
  let st ← st.applyCommittedMutation m
  let st ← st.insertOpIndex m
  pure (st.pushMutation m)

/-- `apply_replicated_mutation`. -/
def applyReplicatedMutation (st : LoadedSource) (m : Mutation) :
    Result (ApplyStatus × LoadedSource) :=
  match st.opIndex.lookup m.opId with
  | some existing =>
    if existing = m then .ok (.duplicateOrOld, st) else .error (SourceOfTruth.opIdTaken m)
  | none =>
    if m.shard ≥ st.shardCount then .error (shardOutside m.shard st.shardCount)
    else do
      if m.seq ≤ (← index st.watermarks m.shard) then
        if st.mutations.any fun existing =>
            existing.shard = m.shard && existing.seq = m.seq && existing = m then
          pure (.duplicateOrOld, st)
        else
          .error (.invalidData s!"stale or conflicting mutation for shard {m.shard} seq {m.seq}")
      else
        let st ← st.applyCommittedMutation m
        pure (.applied, (st.indexOp m).pushMutation m)

/-! ## The loaders -/

/-- `from_mutations`. -/
def fromMutations (shardCount : Nat) (sourceRegion : String) (mutations : List Mutation) :
    Result LoadedSource :=
  (sortBy SourceOfTruth.compareBySlot mutations).foldlM applyLoadedMutation
    (new shardCount sourceRegion)

/-- The state of a snapshot that passed the checks: that of `new` with the watermarks, the entries
and the rules of the snapshot. -/
def ofSnapshot (shardCount : Nat) (sourceRegion : String) (snapshot : Snapshot)
    (compacted : List Nat) : LoadedSource :=
  { new shardCount sourceRegion with
    entries := HashMap.collect DenyEntry.aclKey snapshot.entries ∅
    rules := HashMap.collect RuleEntry.ruleKey snapshot.rules ∅
    watermarks := snapshot.watermarks
    compactedWatermarks := compacted }

/-- `from_snapshot_and_mutations`. -/
def fromSnapshotAndMutations (shardCount : Nat) (sourceRegion : String) (snapshot : Snapshot)
    (idempotencyMutations mutations : List Mutation) : Result LoadedSource :=
  if snapshot.shardCount ≠ shardCount then
    .error (SourceOfTruth.snapshotShardMismatch shardCount snapshot)
  else do
    snapshot.validate
    let st ← idempotencyMutations.foldlM insertOpIndex
      (ofSnapshot shardCount sourceRegion snapshot snapshot.watermarks)
    (sortBy SourceOfTruth.compareBySlot mutations).foldlM applyLoadedMutation st

/-- A step of the loop of `from_snapshot_and_retained_history` over the sorted mutations, with
the last sequence number of each shard seen so far. -/
def retainMutation (shardCount : Nat) (acc : LoadedSource × List Nat) (m : Mutation) :
    Result (LoadedSource × List Nat) :=
  let (st, expectedHistorySeq) := acc
  if m.shard ≥ shardCount then .error (shardOutside m.shard shardCount)
  else do
    let expectedSeq := wrappingSucc (← index expectedHistorySeq m.shard)
    if m.seq ≠ expectedSeq then .error (.gap m.shard expectedSeq m.seq)
    else do
      let st ←
        if m.seq ≤ (← index st.watermarks m.shard) then do
          let st ← st.insertOpIndex m
          pure (st.pushMutation m)
        else st.applyLoadedMutation m
      pure (st, expectedHistorySeq.set m.shard m.seq)

/-- A loop over the places of `seqs` that compares each with the watermark of the shard. -/
def checkWatermarks (seqs watermarks : List Nat) (fails : Nat → Nat → Bool)
    (err : Nat → Nat → Nat → GlobAclError) : Result Unit :=
  (List.range seqs.length).forM fun shardId => do
    let watermark ← index watermarks shardId
    if fails (seqs.getD shardId 0) watermark then
      .error (err shardId (seqs.getD shardId 0) watermark)
    else pure ()

/-- The last loop of `from_snapshot_and_retained_history`: each shard's history reaches its
watermark. -/
def checkReplayed (st : LoadedSource) (expectedHistorySeq : List Nat) : Result Unit :=
  checkWatermarks expectedHistorySeq st.watermarks
    (fun replayedSeq watermark => decide (replayedSeq < watermark))
    fun shardId replayedSeq watermark => .gap shardId (replayedSeq + 1) watermark

/-- The loop of `from_snapshot_and_retained_history` over the compacted watermarks: none is beyond
the snapshot. -/
def checkCompacted (snapshot : Snapshot) (compactedWatermarks : List Nat) : Result Unit :=
  checkWatermarks compactedWatermarks snapshot.watermarks
    (fun compactedSeq watermark => decide (compactedSeq > watermark))
    fun shardId compactedSeq watermark => .invalidData
      s!"retained history compacted watermark {compactedSeq} exceeds shard {shardId} snapshot watermark {watermark}"

/-- `from_snapshot_and_retained_history`. -/
def fromSnapshotAndRetainedHistory (shardCount : Nat) (sourceRegion : String)
    (snapshot : Snapshot) (idempotencyMutations retainedMutations : List Mutation)
    (compactedWatermarks : List Nat) : Result LoadedSource :=
  if snapshot.shardCount ≠ shardCount then
    .error (SourceOfTruth.snapshotShardMismatch shardCount snapshot)
  else do
    snapshot.validate
    if compactedWatermarks.length ≠ shardCount then
      .error (.invalidData
        s!"retained history has {compactedWatermarks.length} compacted watermarks for {shardCount} shards")
    else do
      checkCompacted snapshot compactedWatermarks
      let st ← idempotencyMutations.foldlM insertOpIndex
        (ofSnapshot shardCount sourceRegion snapshot compactedWatermarks)
      let (st, expectedHistorySeq) ← (sortBy SourceOfTruth.compareBySlot retainedMutations).foldlM
        (retainMutation shardCount) (st, compactedWatermarks)
      checkReplayed st expectedHistorySeq
      pure st

/-! ## Later operations -/

/-- `set_epoch`. -/
def setEpoch (st : LoadedSource) (epoch : Nat) : LoadedSource := { st with epoch := max epoch 1 }

/-- `compact_mutation_history`. -/
def compactMutationHistory (st : LoadedSource) (watermarks : List Nat) : Result LoadedSource :=
  if watermarks.length ≠ st.shardCount then
    .error (.invalidData
      s!"compaction has {watermarks.length} watermarks for {st.shardCount} shards")
  else do
    checkWatermarks watermarks st.watermarks
      (fun compactedSeq watermark => decide (compactedSeq > watermark))
      fun shardId compactedSeq watermark => .invalidData
        s!"compaction watermark {compactedSeq} exceeds shard {shardId} watermark {watermark}"
    let mutations ← st.mutations.filterM fun m => do
      pure (decide (m.seq > (← index watermarks m.shard)))
    let compactedWatermarks ← (List.range watermarks.length).foldlM
      (fun (compacted : List Nat) shardId => do
        let compactedSeq ← index compacted shardId
        pure (compacted.set shardId (max compactedSeq (watermarks.getD shardId 0))))
      st.compactedWatermarks
    pure { st with mutations, compactedWatermarks }

/-- The next commit id of a shard. -/
def nextCommitId (st : LoadedSource) (shardId : Nat) : Result CommitId := do
  let seq := wrappingSucc (← index st.watermarks shardId)
  pure ⟨shardId, seq, st.epoch, st.sourceRegion⟩

/-- The mutation that `prepare_commit` builds. -/
def pointMutation (now : Nat) (request : DenyRequest) (commitId : CommitId) : Mutation :=
  { opId := request.opId, commitId, entry := request.entry commitId, rule := none,
    deliveryPriority := request.deliveryPriority, committedAtUnix := now }

/-- The mutation that `prepare_rule_commit` builds. -/
def ruleMutation (now : Nat) (request : RuleRequest) (compiled : CompiledRulePattern)
    (ruleHash : UInt64) (commitId : CommitId) : Mutation :=
  let rule : RuleEntry :=
    { tenantId := request.tenantId, kind := request.kind,
      pattern := compiled.canonicalPattern, ruleHash, action := request.action,
      priority := request.priority, reasonCode := request.reasonCode,
      expiresAt := request.expiresAt, createdBy := request.createdBy,
      commitSeq := commitId.seq, shardId := commitId.shardId,
      ipv4Network := compiled.ipv4Network, ipv4PrefixLen := compiled.ipv4PrefixLen,
      domainSuffix := compiled.domainSuffix }
  { opId := request.opId, commitId, entry := SourceOfTruth.ruleShadowEntry rule, rule := some rule,
    deliveryPriority := request.deliveryPriority, committedAtUnix := now }

/-- `prepare_commit`. -/
def prepareCommit (now : Nat) (st : LoadedSource) (request : DenyRequest) : Result CommitOutcome :=
  if trim request.opId = "" then .error (.parse "op_id must not be empty")
  else
    match st.opIndex.lookup request.opId with
    | some existing => .ok ⟨existing, true⟩
    | none => do
      let commitId ← st.nextCommitId (shardForHash request.aclKey.keyHash st.shardCount)
      pure ⟨pointMutation now request commitId, false⟩

/-- `prepare_rule_commit`. -/
def prepareRuleCommit (now : Nat) (st : LoadedSource) (request : RuleRequest) :
    Result CommitOutcome :=
  if trim request.opId = "" then .error (.parse "op_id must not be empty")
  else
    match st.opIndex.lookup request.opId with
    | some existing => .ok ⟨existing, true⟩
    | none =>
      match compileRulePattern request.kind request.pattern with
      | .error err => .error err
      | .ok compiled => do
        let ruleHash :=
          stableKeyHash request.tenantId request.kind.asStr compiled.canonicalPattern
        let commitId ← st.nextCommitId (shardForHash ruleHash st.shardCount)
        pure ⟨ruleMutation now request compiled ruleHash commitId, false⟩

/-- A request is prepared. -/
def prepare (st : LoadedSource) : Request → Result CommitOutcome
  | .point now request => prepareCommit now st request
  | .rule now request => prepareRuleCommit now st request

/-- The shard of a request that is new: its operation id is not empty and not known, and the pattern
of a rule can be compiled. -/
def target (st : LoadedSource) : Request → Option Nat
  | .point _ request =>
    if trim request.opId = "" ∨ request.opId ∈ st.opIndex then none
    else some (shardForHash request.aclKey.keyHash st.shardCount)
  | .rule _ request =>
    if trim request.opId = "" ∨ request.opId ∈ st.opIndex then none
    else
      match compileRulePattern request.kind request.pattern with
      | .error _ => none
      | .ok compiled =>
        some (shardForHash
          (stableKeyHash request.tenantId request.kind.asStr compiled.canonicalPattern)
          st.shardCount)

/-- The request is answered without a panic, and a new mutation has the number after the watermark
of its shard. -/
def AssignsNext (st : LoadedSource) (request : Request) : Prop :=
  Faultless (st.prepare request) ∧
    ∀ outcome, st.prepare request = .ok outcome → outcome.duplicate = false →
      ∃ watermark, st.watermarks[outcome.mutation.shard]? = some watermark ∧
        outcome.mutation.seq = watermark + 1

/-! ## The slots of the shards -/

/-- What every source has that was built from a snapshot with `n` watermarks. -/
structure Sized (n : Nat) (st : LoadedSource) : Prop where
  shardCount : st.shardCount = max n 1
  watermarks : st.watermarks.length = n
  compacted : st.compactedWatermarks.length = n

/-- A source that a loader built from a snapshot. -/
inductive Built (n : Nat) : LoadedSource → Prop
  | snapshotAndMutations {sourceRegion : String} {snapshot : Snapshot}
      {idempotencyMutations mutations : List Mutation} {st : LoadedSource}
      (h : fromSnapshotAndMutations n sourceRegion snapshot idempotencyMutations mutations =
        .ok st) : Built n st
  | retainedHistory {sourceRegion : String} {snapshot : Snapshot}
      {idempotencyMutations retainedMutations : List Mutation} {compactedWatermarks : List Nat}
      {st : LoadedSource}
      (h : fromSnapshotAndRetainedHistory n sourceRegion snapshot idempotencyMutations
        retainedMutations compactedWatermarks = .ok st) : Built n st

/-- An operation on a loaded source. -/
inductive Later : LoadedSource → LoadedSource → Prop
  | apply {st st' : LoadedSource} {m : Mutation} {status : ApplyStatus}
      (h : st.applyReplicatedMutation m = .ok (status, st')) : Later st st'
  | compact {st st' : LoadedSource} {watermarks : List Nat}
      (h : st.compactMutationHistory watermarks = .ok st') : Later st st'
  | setEpoch {st : LoadedSource} {epoch : Nat} : Later st (st.setEpoch epoch)

section Sized

variable {n : Nat} {st st' : LoadedSource} {m : Mutation}

theorem Sized.advance (h : Sized n st) (m : Mutation) : Sized n (st.advance m) :=
  ⟨h.shardCount, by rw [← h.watermarks]; exact List.length_set, h.compacted⟩

theorem Sized.indexOp (h : Sized n st) (m : Mutation) : Sized n (st.indexOp m) :=
  ⟨h.shardCount, h.watermarks, h.compacted⟩

theorem Sized.pushMutation (h : Sized n st) (m : Mutation) : Sized n (st.pushMutation m) :=
  ⟨h.shardCount, h.watermarks, h.compacted⟩

theorem applyCommittedMutation_ok (h : st.applyCommittedMutation m = .ok st') :
    m.shard < st.shardCount ∧ st' = st.advance m := by
  unfold applyCommittedMutation at h
  split at h
  · cases h
  · rw [bind_eq_ok] at h
    obtain ⟨watermark, -, h⟩ := h
    dsimp only at h
    split at h
    · cases h
    · cases h
      exact ⟨by omega, rfl⟩

theorem insertOpIndex_ok (h : st.insertOpIndex m = .ok st') : st' = st ∨ st' = st.indexOp m := by
  unfold insertOpIndex at h
  split at h
  · split at h
    · cases h
      exact Or.inl rfl
    · cases h
  · cases h
    exact Or.inr rfl

theorem Sized.insertOpIndex (h : Sized n st) (hm : st.insertOpIndex m = .ok st') : Sized n st' := by
  rcases insertOpIndex_ok hm with rfl | rfl
  · exact h
  · exact h.indexOp m

theorem Sized.applyLoadedMutation (h : Sized n st) (hm : st.applyLoadedMutation m = .ok st') :
    Sized n st' := by
  simp only [LoadedSource.applyLoadedMutation, bind_eq_ok] at hm
  obtain ⟨st₁, h₁, st₂, h₂, hm⟩ := hm
  obtain ⟨-, rfl⟩ := applyCommittedMutation_ok h₁
  cases hm
  exact ((h.advance m).insertOpIndex h₂).pushMutation m

theorem sized_ofSnapshot {sourceRegion : String} {snapshot : Snapshot} {compacted : List Nat}
    (hw : snapshot.watermarks.length = n) (hc : compacted.length = n) :
    Sized n (ofSnapshot n sourceRegion snapshot compacted) := ⟨rfl, hw, hc⟩

/-- A step of the loop over the retained mutations: the mutation has the next number. The source keeps it
for readers if its watermark is there already, and applies it otherwise. -/
theorem retainMutation_ok {e e' : List Nat}
    (hm : LoadedSource.retainMutation n (st, e) m = .ok (st', e')) :
    m.shard < e.length ∧ m.seq = wrappingSucc (e.getD m.shard 0) ∧ e' = e.set m.shard m.seq ∧
      ((m.shard < st.watermarks.length ∧ m.seq ≤ st.watermarks.getD m.shard 0 ∧
          ∃ st₁, st.insertOpIndex m = .ok st₁ ∧ st' = st₁.pushMutation m) ∨
        st.applyLoadedMutation m = .ok st') := by
  unfold LoadedSource.retainMutation at hm
  dsimp only at hm
  split at hm
  · cases hm
  by_cases hslot : m.shard < e.length
  swap
  · rw [index_of_length_le (Nat.le_of_not_lt hslot)] at hm
    cases hm
  rw [index_getD hslot 0, ok_bind] at hm
  split at hm
  · cases hm
  rename_i hseq
  refine ⟨hslot, not_not.mp hseq, ?_⟩
  by_cases hslot' : m.shard < st.watermarks.length
  swap
  · rw [index_of_length_le (Nat.le_of_not_lt hslot')] at hm
    cases hm
  rw [index_getD hslot' 0, ok_bind] at hm
  split at hm
  · rename_i hle
    simp only [bind_eq_ok] at hm
    obtain ⟨st₁, h₁, st₂, hpush, hm⟩ := hm
    cases hpush
    cases hm
    exact ⟨rfl, Or.inl ⟨hslot', hle, st₁, h₁, rfl⟩⟩
  · rw [bind_eq_ok] at hm
    obtain ⟨st₁, h₁, hm⟩ := hm
    cases hm
    exact ⟨rfl, Or.inr h₁⟩

theorem Sized.retainMutation {acc acc' : LoadedSource × List Nat} (h : Sized n acc.1)
    (hm : LoadedSource.retainMutation n acc m = .ok acc') : Sized n acc'.1 := by
  obtain ⟨-, -, -, ⟨-, -, st₁, hi, hst⟩ | hl⟩ := retainMutation_ok hm
  · rw [hst]
    exact (h.insertOpIndex hi).pushMutation m
  · exact h.applyLoadedMutation hl

theorem Built.sized (h : Built n st) : Sized n st := by
  cases h with
  | snapshotAndMutations h =>
    unfold fromSnapshotAndMutations at h
    split at h
    · cases h
    · rename_i hcount
      simp only [bind_eq_ok] at h
      obtain ⟨_, hv, st₁, h₁, h⟩ := h
      have hw := (Snapshot.validate_ok hv).trans (not_not.mp hcount)
      have hidx := foldlM_invariant (fun _ _ _ _ hs hm => hs.insertOpIndex hm)
        (sized_ofSnapshot hw hw) h₁
      exact foldlM_invariant (fun _ _ _ _ hs hm => hs.applyLoadedMutation hm) hidx h
  | retainedHistory h =>
    unfold fromSnapshotAndRetainedHistory at h
    split at h
    · cases h
    · rename_i hcount
      rw [bind_eq_ok] at h
      obtain ⟨_, hv, h⟩ := h
      have hw := (Snapshot.validate_ok hv).trans (not_not.mp hcount)
      split at h
      · cases h
      · rename_i hcompacted
        simp only [bind_eq_ok] at h
        obtain ⟨-, -, st₁, h₁, ⟨st₂, expected⟩, h₂, -, -, h⟩ := h
        cases h
        have hidx := foldlM_invariant (fun _ _ _ _ hs hm => hs.insertOpIndex hm)
          (sized_ofSnapshot hw (not_not.mp hcompacted)) h₁
        exact foldlM_invariant (p := fun acc : LoadedSource × List Nat => Sized n acc.1)
          (fun _ _ _ _ hs hm => hs.retainMutation hm) hidx h₂

theorem Sized.later (h : Sized n st) (hs : Later st st') : Sized n st' := by
  cases hs with
  | setEpoch => exact ⟨h.shardCount, h.watermarks, h.compacted⟩
  | apply hm =>
    rename_i m status
    unfold applyReplicatedMutation at hm
    split at hm
    · split at hm
      · cases hm
        exact h
      · cases hm
    · split at hm
      · cases hm
      · rw [bind_eq_ok] at hm
        obtain ⟨watermark, -, hm⟩ := hm
        split at hm
        · split at hm
          · cases hm
            exact h
          · cases hm
        · rw [bind_eq_ok] at hm
          obtain ⟨st₁, h₁, hm⟩ := hm
          cases hm
          obtain ⟨-, rfl⟩ := applyCommittedMutation_ok h₁
          exact ((h.advance m).indexOp m).pushMutation m
  | compact hc =>
    unfold compactMutationHistory at hc
    split at hc
    · cases hc
    · simp only [bind_eq_ok] at hc
      obtain ⟨-, -, mutations, -, compacted, hcompacted, hc⟩ := hc
      cases hc
      refine ⟨h.shardCount, h.watermarks, ?_⟩
      refine foldlM_invariant (p := fun l : List Nat => l.length = n)
        (fun l l' shardId _ hl hl' => ?_) h.compacted hcompacted
      rw [bind_eq_ok] at hl'
      obtain ⟨seq, -, hl'⟩ := hl'
      cases hl'
      rw [List.length_set]
      exact hl

end Sized

/-! ## The next sequence number -/

/-- A request that is not new gets no number; a new one gets the next one of its shard. -/
theorem prepare_cases (st : LoadedSource) (request : Request) :
    (st.target request = none ∧
      ((∃ existing, st.prepare request = .ok ⟨existing, true⟩) ∨
        ∃ message, st.prepare request = .error (.parse message))) ∨
    ∃ hash, st.target request = some (shardForHash hash st.shardCount) ∧
      ∃ mutation : CommitId → Mutation, (∀ commitId, (mutation commitId).commitId = commitId) ∧
        st.prepare request = (st.nextCommitId (shardForHash hash st.shardCount)).map fun commitId =>
          ⟨mutation commitId, false⟩ := by
  cases request with
  | point now request =>
    simp only [prepare, prepareCommit, target]
    by_cases hempty : trim request.opId = ""
    · rw [if_pos (Or.inl hempty), if_pos hempty]
      exact Or.inl ⟨rfl, Or.inr ⟨_, rfl⟩⟩
    · rw [if_neg hempty]
      cases hop : st.opIndex.lookup request.opId with
      | some existing =>
        rw [if_pos (Or.inr (HashMap.mem_iff_lookup.mpr ⟨existing, hop⟩))]
        exact Or.inl ⟨rfl, Or.inl ⟨existing, rfl⟩⟩
      | none =>
        rw [if_neg (not_or.mpr ⟨hempty, HashMap.not_mem_iff_lookup.mpr hop⟩)]
        refine Or.inr ⟨_, rfl, pointMutation now request, fun _ => rfl, ?_⟩
        cases st.nextCommitId (shardForHash request.aclKey.keyHash st.shardCount) <;> rfl
  | rule now request =>
    simp only [prepare, prepareRuleCommit, target]
    by_cases hempty : trim request.opId = ""
    · rw [if_pos (Or.inl hempty), if_pos hempty]
      exact Or.inl ⟨rfl, Or.inr ⟨_, rfl⟩⟩
    · rw [if_neg hempty]
      cases hop : st.opIndex.lookup request.opId with
      | some existing =>
        rw [if_pos (Or.inr (HashMap.mem_iff_lookup.mpr ⟨existing, hop⟩))]
        exact Or.inl ⟨rfl, Or.inl ⟨existing, rfl⟩⟩
      | none =>
        rw [if_neg (not_or.mpr ⟨hempty, HashMap.not_mem_iff_lookup.mpr hop⟩)]
        cases hp : compileRulePattern request.kind request.pattern with
        | error err =>
          obtain ⟨message, rfl⟩ := compileRulePattern_error hp
          exact Or.inl ⟨rfl, Or.inr ⟨message, rfl⟩⟩
        | ok compiled =>
          dsimp only
          generalize stableKeyHash request.tenantId request.kind.asStr compiled.canonicalPattern =
            ruleHash
          refine Or.inr
            ⟨ruleHash, rfl, ruleMutation now request compiled ruleHash, fun _ => rfl, ?_⟩
          cases st.nextCommitId (shardForHash ruleHash st.shardCount) <;> rfl

/-- A request to a loaded source, or to a later one, gets the next number of its shard, and the
source has the slots of its shards, exactly when there is a shard and the watermark of the request's
shard is not the largest number. -/
theorem assigns_next_iff {n : Nat} {st₀ st : LoadedSource} (h₀ : Built n st₀)
    (h : Relation.ReflTransGen Later st₀ st) (request : Request) :
    (st.watermarks.length = st.shardCount ∧ st.compactedWatermarks.length = st.shardCount ∧
        1 ≤ st.shardCount ∧ st.AssignsNext request) ↔
      1 ≤ n ∧ ∀ shardId, st.target request = some shardId →
        st.watermarks.getD shardId 0 < 2 ^ 64 - 1 := by
  have hsized : Sized n st := by
    induction h with
    | refl => exact h₀.sized
    | tail _ hs ih => exact ih.later hs
  have hcount := hsized.shardCount
  rw [hsized.watermarks, hsized.compacted]
  by_cases hpos : 1 ≤ n
  · rw [Nat.max_eq_left hpos] at hcount
    rw [hcount]
    simp only [true_and, hpos]
    rcases st.prepare_cases request with ⟨hnone, hprep⟩ | ⟨hash, hsome, mutation, hid, hprep⟩
    · rw [hnone]
      refine iff_of_true ?_ fun _ h => by cases h
      rcases hprep with ⟨existing, hprep⟩ | ⟨message, hprep⟩
      · refine ⟨fun err herr => ?_, fun outcome hout hnew => ?_⟩
        · rw [hprep] at herr
          cases herr
        · rw [hprep] at hout
          cases hout
          cases hnew
      · refine ⟨fun err herr => ?_, fun outcome hout => ?_⟩
        · rw [hprep] at herr
          cases herr
          exact not_isFault_parse message
        · rw [hprep] at hout
          cases hout
    · have hlt : shardForHash hash st.shardCount < st.watermarks.length := by
        rw [hsized.watermarks, hcount]
        exact shardForHash_lt hpos
      rw [hsome]
      generalize shardForHash hash st.shardCount = shardId at hlt hprep ⊢
      have hprepared : st.prepare request = .ok ⟨mutation ⟨shardId,
          wrappingSucc (st.watermarks.getD shardId 0), st.epoch, st.sourceRegion⟩, false⟩ := by
        rw [hprep, nextCommitId, index_getD hlt 0]
        rfl
      have hget : st.watermarks[shardId]? = some (st.watermarks.getD shardId 0) := by
        rw [List.getD_eq_getElem?_getD, List.getElem?_eq_getElem hlt, Option.getD_some]
      constructor
      · rintro ⟨-, hnext⟩ _ ⟨⟩
        obtain ⟨watermark, hw, hseq⟩ := hnext _ hprepared rfl
        simp only [Mutation.shard, Mutation.seq, hid] at hw hseq
        rw [hget] at hw
        cases hw
        have := wrappingSucc_eq_iff.mp hseq
        omega
      · intro hbound
        have hlast := hbound shardId rfl
        refine ⟨fun err herr => (by rw [hprepared] at herr; cases herr), fun outcome hout _ => ?_⟩
        rw [hprepared] at hout
        cases hout
        refine ⟨st.watermarks.getD shardId 0, ?_, ?_⟩
        · simp only [Mutation.shard, hid]
          exact hget
        · simp only [Mutation.seq, hid]
          exact wrappingSucc_eq_iff.mpr (by omega)
  · exact iff_of_false (fun h => by omega) fun h => hpos h.1

namespace NoEntries

/-- A snapshot without entries and rules. -/
def snapshot (watermarks : List Nat) : Snapshot := ⟨watermarks.length, watermarks, [], []⟩

/-- The source that is loaded from it. -/
def source (watermarks : List Nat) : LoadedSource :=
  ofSnapshot watermarks.length "eu" (snapshot watermarks) watermarks

/-- A denial of a user. -/
def request : Request :=
  .point 0 ⟨"op-1", "acme", "users", "alice", .deny, 1, "abuse", 0, "ops", .p1⟩

end NoEntries

open NoEntries in
theorem assigns_next_iff_oneShard :
    ((source [4]).watermarks.length = (source [4]).shardCount ∧
        (source [4]).compactedWatermarks.length = (source [4]).shardCount ∧
        1 ≤ (source [4]).shardCount ∧ (source [4]).AssignsNext request) ↔
      1 ≤ 1 ∧ ∀ shardId, (source [4]).target request = some shardId →
        (source [4]).watermarks.getD shardId 0 < 2 ^ 64 - 1 := by
  have hbuilt : Built 1 (source [4]) :=
    .snapshotAndMutations (show fromSnapshotAndMutations 1 "eu" (snapshot [4]) [] [] = _ from rfl)
  exact assigns_next_iff hbuilt .refl request

open NoEntries in
/-- Without shards, the loaded source has one shard and no watermark for it. -/
theorem not_assigns_next :
    ¬∀ (n : Nat) (st : LoadedSource) (request : Request), Built n st →
      st.watermarks.length = st.shardCount ∧ st.compactedWatermarks.length = st.shardCount ∧
        1 ≤ st.shardCount ∧ st.AssignsNext request := by
  intro h
  have hbuilt : Built 0 (source []) :=
    .snapshotAndMutations (show fromSnapshotAndMutations 0 "eu" (snapshot []) [] [] = _ from rfl)
  exact absurd (h 0 _ request hbuilt).1 (by decide)

end LoadedSource

/-! ## The sources that carry their invariant -/

namespace SourceOfTruth

/-- The fields of a source. -/
def toLoaded (st : SourceOfTruth) : LoadedSource where
  shardCount := st.shardCount
  entries := st.entries
  rules := st.rules
  watermarks := st.watermarks
  compactedWatermarks := st.compactedWatermarks
  mutations := st.mutations
  opIndex := st.opIndex
  epoch := st.epoch
  sourceRegion := st.sourceRegion

/-- No watermark is the largest number. -/
def BelowLast (st : SourceOfTruth) : Prop := ∀ s, st.watermark s + 1 < 2 ^ 64

section ToLoaded

variable {st st' : SourceOfTruth} {m : Mutation}

theorem index_watermarks (st : SourceOfTruth) {s : Nat} (h : s < st.shardCount) :
    index st.toLoaded.watermarks s = .ok (st.watermark s) :=
  index_getD (st.watermarks_length ▸ h) 0

theorem toLoaded_applyCommittedMutation (hb : st.BelowLast) :
    st.toLoaded.applyCommittedMutation m = (st.applyCommittedMutation m).map toLoaded := by
  unfold LoadedSource.applyCommittedMutation applyCommittedMutation
  by_cases hs : m.shard ≥ st.shardCount
  · rw [if_pos hs]
    exact if_pos hs
  · rw [if_neg hs]
    refine (if_neg hs).trans ?_
    rw [st.index_watermarks (Nat.lt_of_not_le hs)]
    simp only [bind, Except.bind, wrappingSucc_eq_iff.mpr (hb m.shard)]
    split <;> rfl

theorem toLoaded_insertOpIndex :
    st.toLoaded.insertOpIndex m = (st.insertOpIndex m).map toLoaded := by
  unfold LoadedSource.insertOpIndex insertOpIndex
  cases hop : st.opIndex.lookup m.opId with
  | none =>
    have : st.toLoaded.opIndex.lookup m.opId = none := hop
    rw [this]
    rfl
  | some existing =>
    have : st.toLoaded.opIndex.lookup m.opId = some existing := hop
    rw [this]
    dsimp only
    split <;> rfl

theorem toLoaded_applyLoadedMutation (hb : st.BelowLast) :
    st.toLoaded.applyLoadedMutation m = (st.applyLoadedMutation m).map toLoaded := by
  unfold LoadedSource.applyLoadedMutation applyLoadedMutation
  rw [toLoaded_applyCommittedMutation hb]
  cases st.applyCommittedMutation m with
  | error err => rfl
  | ok st₁ =>
    dsimp only [Except.map, bind, Except.bind]
    rw [toLoaded_insertOpIndex]
    cases st₁.insertOpIndex m <;> rfl

theorem BelowLast.applyLoadedMutation (hb : st.BelowLast) (hm : m.seq + 1 < 2 ^ 64)
    (h : st.applyLoadedMutation m = .ok st') : st'.BelowLast := by
  obtain ⟨-, -, hw, -⟩ := applyLoadedMutation_spec h
  intro s
  rw [hw]
  split
  · exact hm
  · exact hb s

theorem BelowLast.insertOpIndex (hb : st.BelowLast) (h : st.insertOpIndex m = .ok st') :
    st'.BelowLast := fun s => (alike_insertOpIndex h).watermark s ▸ hb s

theorem belowLast_new (shardCount : Nat) (sourceRegion : String) :
    (new shardCount sourceRegion).BelowLast := fun s => by
  have : (new shardCount sourceRegion).watermark s = 0 := by
    unfold watermark
    rw [List.getD_eq_getElem?_getD]
    cases h : (new shardCount sourceRegion).watermarks[s]? with
    | none => rfl
    | some w => exact List.eq_of_mem_replicate (List.mem_of_getElem? h)
  rw [this]
  decide

theorem toLoaded_foldlM_applyLoadedMutation {l : List Mutation}
    (hl : ∀ m ∈ l, m.seq + 1 < 2 ^ 64) (hb : st.BelowLast) :
    l.foldlM LoadedSource.applyLoadedMutation st.toLoaded =
      (l.foldlM applyLoadedMutation st).map toLoaded :=
  foldlM_map toLoaded BelowLast (fun _ m hm hb => ⟨toLoaded_applyLoadedMutation hb,
    fun _ h => hb.applyLoadedMutation (hl m hm) h⟩) hb

theorem toLoaded_foldlM_insertOpIndex {l : List Mutation} :
    l.foldlM LoadedSource.insertOpIndex st.toLoaded =
      (l.foldlM insertOpIndex st).map toLoaded :=
  foldlM_map toLoaded (fun _ => True) (fun _ _ _ _ => ⟨toLoaded_insertOpIndex, fun _ _ => trivial⟩)
    trivial

/-- The logs alone give the source of the model. -/
theorem fromMutations_toLoaded (shardCount : Nat) (sourceRegion : String)
    {mutations : List Mutation} (hl : ∀ m ∈ mutations, m.seq + 1 < 2 ^ 64) :
    LoadedSource.fromMutations shardCount sourceRegion mutations =
      (fromMutations shardCount sourceRegion mutations).map toLoaded :=
  toLoaded_foldlM_applyLoadedMutation (fun m hm => hl m (mem_sortBy.mp hm)) (belowLast_new _ _)

theorem ofSnapshot_toLoaded {n : Nat} {sourceRegion : String} {snapshot : Snapshot}
    {compacted : List Nat} (hpos : 0 < n) (hlen : snapshot.watermarks.length = n)
    (hcomp : compacted.length = n) :
    LoadedSource.ofSnapshot n sourceRegion snapshot compacted =
      (ofSnapshot n sourceRegion snapshot compacted hpos hlen hcomp).toLoaded := by
  unfold LoadedSource.ofSnapshot LoadedSource.new toLoaded ofSnapshot
  rw [Nat.max_eq_left hpos]

theorem BelowLast.foldlM_insertOpIndex {l : List Mutation} (hb : st.BelowLast)
    (h : l.foldlM SourceOfTruth.insertOpIndex st = .ok st') : st'.BelowLast :=
  foldlM_invariant (p := BelowLast) (fun _ _ _ _ hb h => hb.insertOpIndex h) hb h

/-- With at least one shard, and numbers below the largest, a snapshot and later mutations give the
source of the model. -/
theorem fromSnapshotAndMutations_toLoaded {n : Nat} (sourceRegion : String) {snapshot : Snapshot}
    (idempotencyMutations : List Mutation) {mutations : List Mutation} (hpos : 0 < n)
    (hw : ∀ s, snapshot.watermarks.getD s 0 + 1 < 2 ^ 64)
    (hl : ∀ m ∈ mutations, m.seq + 1 < 2 ^ 64) :
    LoadedSource.fromSnapshotAndMutations n sourceRegion snapshot idempotencyMutations mutations =
      (fromSnapshotAndMutations n sourceRegion snapshot idempotencyMutations mutations).map
        toLoaded := by
  unfold LoadedSource.fromSnapshotAndMutations fromSnapshotAndMutations
  by_cases hcount : snapshot.shardCount ≠ n
  · rw [if_pos hcount, if_pos hcount]
    rfl
  · rw [if_neg hcount, if_neg hcount]
    cases hv : snapshot.validate with
    | error err => rfl
    | ok _ =>
      have hlen := (Snapshot.validate_ok hv).trans (not_not.mp hcount)
      rw [dif_pos ⟨hpos, hlen⟩, ofSnapshot_toLoaded hpos hlen hlen]
      simp only [ok_bind, toLoaded_foldlM_insertOpIndex]
      have hb : (ofSnapshot n sourceRegion snapshot snapshot.watermarks hpos hlen hlen).BelowLast :=
        hw
      cases hidx : idempotencyMutations.foldlM insertOpIndex
          (ofSnapshot n sourceRegion snapshot snapshot.watermarks hpos hlen hlen) with
      | error err => rfl
      | ok st₁ =>
        exact toLoaded_foldlM_applyLoadedMutation (fun m hm => hl m (mem_sortBy.mp hm))
          (hb.foldlM_insertOpIndex hidx)

/-- The loop gives the error of the first shard that fails. -/
theorem checkWatermarks_eq {seqs watermarks : List Nat} (fails : Nat → Nat → Bool)
    (err : Nat → Nat → Nat → GlobAclError) (h : seqs.length ≤ watermarks.length) :
    LoadedSource.checkWatermarks seqs watermarks fails err =
      match (List.range seqs.length).find? fun s => fails (seqs.getD s 0) (watermarks.getD s 0) with
      | some s => .error (err s (seqs.getD s 0) (watermarks.getD s 0))
      | none => .ok () := by
  have hlt : ∀ s ∈ List.range seqs.length, s < watermarks.length := fun s hs =>
    Nat.lt_of_lt_of_le (List.mem_range.mp hs) h
  unfold LoadedSource.checkWatermarks
  generalize List.range seqs.length = l at hlt
  induction l with
  | nil => rfl
  | cons s l ih =>
    rw [List.forM, index_getD (hlt s List.mem_cons_self) 0, ok_bind, List.find?_cons]
    cases fails (seqs.getD s 0) (watermarks.getD s 0) with
    | true => rfl
    | false => exact ih fun s hs => hlt s (List.mem_cons_of_mem _ hs)

/-- The accumulator of the loop over retained mutations, with numbers below the largest. -/
structure RetainingBelow (n : Nat) (acc : SourceOfTruth × List Nat) : Prop where
  shardCount : acc.1.shardCount = n
  length : acc.2.length = n
  below : acc.1.BelowLast
  expected : ∀ s, acc.2.getD s 0 + 1 < 2 ^ 64

theorem RetainingBelow.toLoaded_retainMutation {n : Nat} {acc : SourceOfTruth × List Nat}
    (h : RetainingBelow n acc) (hm : m.seq + 1 < 2 ^ 64) :
    LoadedSource.retainMutation n (acc.map toLoaded id) m =
        (retainMutation acc m).map (Prod.map toLoaded id) ∧
      ∀ acc', retainMutation acc m = .ok acc' → RetainingBelow n acc' := by
  obtain ⟨st, expectedHistorySeq⟩ := acc
  obtain ⟨hcount, hlen, hbelow, hexpected⟩ := h
  dsimp only at hcount hlen hbelow hexpected
  unfold LoadedSource.retainMutation retainMutation
  dsimp only [Prod.map, id]
  by_cases hs : m.shard ≥ n
  · rw [if_pos hs, if_pos (hcount ▸ hs), hcount]
    exact ⟨rfl, fun acc' h => by cases h⟩
  · rw [if_neg hs, if_neg (hcount ▸ hs), index_getD (by omega) 0, ok_bind,
      wrappingSucc_eq_iff.mpr (hexpected m.shard)]
    by_cases hseq : m.seq ≠ expectedHistorySeq.getD m.shard 0 + 1
    · rw [if_pos hseq, if_pos hseq]
      exact ⟨rfl, fun acc' h => by cases h⟩
    · rw [if_neg hseq, if_neg hseq, st.index_watermarks (by omega), ok_bind]
      have hset : ∀ s, (expectedHistorySeq.set m.shard m.seq).getD s 0 + 1 < 2 ^ 64 := by
        intro s
        have hget := congrFun (getD_set_eq expectedHistorySeq (i := m.shard) (by omega) m.seq) s
        rw [hget, Function.update_apply]
        split
        · exact hm
        · exact hexpected s
      by_cases hle : m.seq ≤ st.watermark m.shard
      · rw [if_pos hle, if_pos hle, toLoaded_insertOpIndex]
        cases hi : st.insertOpIndex m with
        | error err => exact ⟨rfl, fun acc' h => by cases h⟩
        | ok st₁ =>
          refine ⟨rfl, fun acc' h => ?_⟩
          cases h
          exact ⟨(alike_insertOpIndex hi).shardCount.trans hcount,
            List.length_set.trans hlen, fun s => hbelow.insertOpIndex hi s, hset⟩
      · rw [if_neg hle, if_neg hle, toLoaded_applyLoadedMutation hbelow]
        cases hl : st.applyLoadedMutation m with
        | error err => exact ⟨rfl, fun acc' h => by cases h⟩
        | ok st₁ =>
          refine ⟨rfl, fun acc' h => ?_⟩
          cases h
          exact ⟨(applyLoadedMutation_spec hl).2.1.trans hcount,
            List.length_set.trans hlen, hbelow.applyLoadedMutation hm hl, hset⟩

theorem RetainingBelow.toLoaded_foldlM {n : Nat} {acc : SourceOfTruth × List Nat}
    (h : RetainingBelow n acc) {l : List Mutation} (hl : ∀ m ∈ l, m.seq + 1 < 2 ^ 64) :
    l.foldlM (LoadedSource.retainMutation n) (acc.map toLoaded id) =
        (l.foldlM retainMutation acc).map (Prod.map toLoaded id) ∧
      ∀ acc', l.foldlM retainMutation acc = .ok acc' → RetainingBelow n acc' :=
  ⟨foldlM_map (Prod.map toLoaded id) (RetainingBelow n)
      (fun _ m hm h => h.toLoaded_retainMutation (hl m hm)) h,
    fun _ hf => foldlM_invariant (p := RetainingBelow n)
      (fun _ _ m hm h hr => (h.toLoaded_retainMutation (hl m hm)).2 _ hr) h hf⟩

theorem checkReplayed_toLoaded {expectedHistorySeq : List Nat}
    (hlen : expectedHistorySeq.length = st.shardCount) :
    LoadedSource.checkReplayed st.toLoaded expectedHistorySeq =
      checkReplayed st expectedHistorySeq := by
  unfold LoadedSource.checkReplayed checkReplayed
  have hle : expectedHistorySeq.length ≤ st.toLoaded.watermarks.length :=
    Nat.le_of_eq (hlen.trans st.watermarks_length.symm)
  rw [checkWatermarks_eq _ _ hle]
  rfl

/-- With at least one shard, and numbers below the largest, a snapshot and the retained history give
the source of the model. -/
theorem fromSnapshotAndRetainedHistory_toLoaded {n : Nat} (sourceRegion : String)
    {snapshot : Snapshot} (idempotencyMutations : List Mutation) {retained : List Mutation}
    {compacted : List Nat} (hpos : 0 < n) (hw : ∀ s, snapshot.watermarks.getD s 0 + 1 < 2 ^ 64)
    (hc : ∀ s, compacted.getD s 0 + 1 < 2 ^ 64) (hl : ∀ m ∈ retained, m.seq + 1 < 2 ^ 64) :
    LoadedSource.fromSnapshotAndRetainedHistory n sourceRegion snapshot idempotencyMutations
        retained compacted =
      (fromSnapshotAndRetainedHistory n sourceRegion snapshot idempotencyMutations retained
        compacted).map toLoaded := by
  unfold LoadedSource.fromSnapshotAndRetainedHistory fromSnapshotAndRetainedHistory
  by_cases hcount : snapshot.shardCount ≠ n
  · rw [if_pos hcount, if_pos hcount]
    rfl
  rw [if_neg hcount, if_neg hcount]
  cases hv : snapshot.validate with
  | error err => rfl
  | ok _ =>
    have hlen := (Snapshot.validate_ok hv).trans (not_not.mp hcount)
    rw [ok_bind]
    dsimp only
    by_cases hcomp : compacted.length ≠ n
    · rw [if_pos hcomp, dif_pos hcomp]
      rfl
    have hcomp' := not_not.mp hcomp
    rw [if_neg hcomp, dif_neg hcomp]
    unfold LoadedSource.checkCompacted
    rw [checkWatermarks_eq _ _ (Nat.le_of_eq (hcomp'.trans hlen.symm)), hcomp']
    cases (List.range n).find? fun shardId =>
        decide (compacted.getD shardId 0 > snapshot.watermarks.getD shardId 0) with
    | some shardId => rfl
    | none =>
      dsimp only
      rw [dif_pos ⟨hpos, hlen⟩, ofSnapshot_toLoaded hpos hlen hcomp', ok_bind,
        toLoaded_foldlM_insertOpIndex]
      cases hidx : idempotencyMutations.foldlM insertOpIndex
          (ofSnapshot n sourceRegion snapshot compacted hpos hlen hcomp') with
      | error err => rfl
      | ok st₁ =>
        have hbelow : (ofSnapshot n sourceRegion snapshot compacted hpos hlen hcomp').BelowLast :=
          hw
        have hcount₁ : st₁.shardCount = n := foldlM_invariant
          (p := fun st : SourceOfTruth => st.shardCount = n)
          (fun _ _ _ _ hs hi => (alike_insertOpIndex hi).shardCount.trans hs) rfl hidx
        have hstart : RetainingBelow n (st₁, compacted) :=
          ⟨hcount₁, hcomp', hbelow.foldlM_insertOpIndex hidx, hc⟩
        obtain ⟨hfold, hkeep⟩ := hstart.toLoaded_foldlM
          (fun m hm => hl m (mem_sortBy.mp hm) : ∀ m ∈ sortBy compareBySlot retained, _)
        simp only [Except.map, ok_bind] at hfold ⊢
        rw [show (st₁.toLoaded, compacted) = Prod.map toLoaded id (st₁, compacted) from rfl, hfold]
        cases hr : (sortBy compareBySlot retained).foldlM retainMutation (st₁, compacted) with
        | error err => rfl
        | ok acc =>
          obtain ⟨st₂, expected⟩ := acc
          obtain ⟨hcount₂, hlen₂, -, -⟩ := hkeep _ hr
          dsimp only [Prod.map, id] at hcount₂ hlen₂ ⊢
          rw [ok_bind, ok_bind, checkReplayed_toLoaded (hlen₂.trans hcount₂.symm)]
          cases checkReplayed st₂ expected <;> rfl

theorem nextCommitId_toLoaded (hb : st.BelowLast) (hash : UInt64) :
    st.toLoaded.nextCommitId (shardForHash hash st.shardCount) =
      .ok (st.nextCommitId (shardForHash hash st.shardCount)) := by
  unfold LoadedSource.nextCommitId nextCommitId
  rw [st.index_watermarks (shardForHash_lt st.shardCount_pos), ok_bind,
    wrappingSucc_eq_iff.mpr (hb _)]
  rfl

/-- A point request is prepared as in the model. -/
theorem prepareCommit_toLoaded (now : Nat) (hb : st.BelowLast) (request : DenyRequest) :
    LoadedSource.prepareCommit now st.toLoaded request = st.prepareCommit now request := by
  unfold LoadedSource.prepareCommit prepareCommit
  split
  · rfl
  · rw [show st.toLoaded.opIndex = st.opIndex from rfl]
    cases st.opIndex.lookup request.opId with
    | some existing => rfl
    | none =>
      refine (congrArg (· >>= _) (nextCommitId_toLoaded hb _)).trans ?_
      rfl

/-- A rule request is prepared as in the model. -/
theorem prepareRuleCommit_toLoaded (now : Nat) (hb : st.BelowLast) (request : RuleRequest) :
    LoadedSource.prepareRuleCommit now st.toLoaded request = st.prepareRuleCommit now request := by
  unfold LoadedSource.prepareRuleCommit prepareRuleCommit
  split
  · rfl
  · rw [show st.toLoaded.opIndex = st.opIndex from rfl]
    cases st.opIndex.lookup request.opId with
    | some existing => rfl
    | none =>
      cases compileRulePattern request.kind request.pattern with
      | error err => rfl
      | ok compiled =>
        refine (congrArg (· >>= _) (nextCommitId_toLoaded hb _)).trans ?_
        rfl

end ToLoaded

end SourceOfTruth

end Globacl
