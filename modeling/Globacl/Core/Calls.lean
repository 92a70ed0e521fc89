import Globacl.Core.Loaded

/-!
# Everything that happens to a source (`globacl-core/src/lib/source.rs`)

The calls on a `LoadedSource`, with the 64-bit sequence numbers of the code. `commit`, `commit_rule` and
`apply_replicated_mutation` refuse a number that is not above the watermark, so they never pass the
largest number. The direct commits of `restore_snapshot` do: after the largest number they assign `0`.

* `Constructed`, `Call`, `call`: what builds a source and what happens to it, accepted or rejected.
* `call_cases`: what a call can do.
* `Commits`: a run of direct commits, and what it does to the numbers (`Commits.watermark`,
  `Commits.numbers`, `Commits.replayed`).
* `Keyed`: what every source has that was reached by calls.
-/

namespace Globacl

open Lib

namespace LoadedSource

/-- `self.watermarks[shard_id]`, where the shard has a slot. -/
def watermark (st : LoadedSource) (shardId : Nat) : Nat := st.watermarks.getD shardId 0

/-- `self.compacted_watermarks[shard_id]`, where the shard has a slot. -/
def compactedWatermark (st : LoadedSource) (shardId : Nat) : Nat :=
  st.compactedWatermarks.getD shardId 0

/-! ## Commits -/

/-- The part that `commit` and `commit_rule` share: a new mutation is applied, a duplicate is
only reported. -/
def applyOutcome (st : LoadedSource) (outcome : CommitOutcome) :
    Result (CommitOutcome × LoadedSource) :=
  if outcome.duplicate then .ok (outcome, st)
  else do
    let (_, st) ← st.applyReplicatedMutation outcome.mutation
    pure (outcome, st)

/-- `commit`. -/
def commit (now : Nat) (st : LoadedSource) (request : DenyRequest) :
    Result (CommitOutcome × LoadedSource) := do
  let outcome ← prepareCommit now st request
  st.applyOutcome outcome

/-- `commit_rule`. -/
def commitRule (now : Nat) (st : LoadedSource) (request : RuleRequest) :
    Result (CommitOutcome × LoadedSource) := do
  let outcome ← prepareRuleCommit now st request
  st.applyOutcome outcome

/-! ## Reading -/

/-- `mutations_for_shard`. -/
def mutationsForShard (st : LoadedSource) (shardId fromSeq : Nat) : List Mutation :=
  st.mutations.filter fun m => m.shard = shardId && decide (m.seq > fromSeq)

/-- `mutation_history_compacted`. -/
def mutationHistoryCompacted (st : LoadedSource) (shardId fromSeq : Nat) : Option Nat :=
  match st.compactedWatermarks[shardId]? with
  | none => none
  | some compactedSeq => if fromSeq < compactedSeq then some compactedSeq else none

/-! ## Restoring a snapshot -/

/-- `commit_entry_direct` and `commit_rule_direct` after they built the mutation. -/
def commitDirect (st : LoadedSource) (m : Mutation) : Result (Mutation × LoadedSource) := do
  let st ← st.applyCommittedMutation m
  pure (m, (st.indexOp m).pushMutation m)

/-- `commit_entry_direct`. -/
def commitEntryDirect (now : Nat) (st : LoadedSource) (opId : String) (entry : DenyEntry) :
    Result (Mutation × LoadedSource) := do
  let commitId ← st.nextCommitId (shardForHash entry.keyHash st.shardCount)
  let entry := { entry with shardId := commitId.shardId, commitSeq := commitId.seq }
  st.commitDirect
    { opId, commitId, entry, rule := none, deliveryPriority := .p0, committedAtUnix := now }

/-- `commit_rule_direct`. -/
def commitRuleDirect (now : Nat) (st : LoadedSource) (opId : String) (rule : RuleEntry) :
    Result (Mutation × LoadedSource) := do
  let commitId ← st.nextCommitId (shardForHash rule.ruleHash st.shardCount)
  let rule := { rule with shardId := commitId.shardId, commitSeq := commitId.seq }
  st.commitDirect
    { opId, commitId, entry := SourceOfTruth.ruleShadowEntry rule, rule := some rule,
      deliveryPriority := .p0, committedAtUnix := now }

/-- The state of `restore_snapshot` between two commits: the source and the mutations so far. -/
structure Restore where
  st : LoadedSource
  mutations : List Mutation

/-- One commit of `restore_snapshot`. -/
def Restore.commitEntry (clock : Nat → Nat) (opPrefix : String) (r : Restore) (entry : DenyEntry) :
    Result Restore := do
  let (m, st) ← commitEntryDirect (clock r.mutations.length) r.st
    (SourceOfTruth.nextRestoreOpId r.st.opIndex opPrefix r.mutations.length) entry
  pure ⟨st, r.mutations ++ [m]⟩

/-- One commit of `restore_snapshot` of a rule. -/
def Restore.commitRule (clock : Nat → Nat) (opPrefix : String) (r : Restore) (rule : RuleEntry) :
    Result Restore := do
  let (m, st) ← commitRuleDirect (clock r.mutations.length) r.st
    (SourceOfTruth.nextRestoreOpId r.st.opIndex opPrefix r.mutations.length) rule
  pure ⟨st, r.mutations ++ [m]⟩

/-- `restore_snapshot`. -/
def restoreSnapshot (clock : Nat → Nat) (ord : IterOrder) (st : LoadedSource)
    (snapshot : Snapshot) (opPrefix : String) : Result Restore :=
  if snapshot.shardCount ≠ st.shardCount then
    .error (.invalidData
      s!"rollback snapshot has shard_count {snapshot.shardCount}, expected {st.shardCount}")
  else do
    snapshot.validate
    let targetEntries := HashMap.collect DenyEntry.aclKey snapshot.entries ∅
    let targetRules := HashMap.collect RuleEntry.ruleKey snapshot.rules ∅
    let r ← (sortBy compareEntriesByKey (st.entries.values ord)).foldlM
      (fun r entry =>
        if entry.aclKey ∈ targetEntries then pure r
        else Restore.commitEntry clock opPrefix r
          { entry with action := .delete, reasonCode := "rollback_delete", expiresAt := 0,
                       createdBy := "globacl-rollback" })
      ⟨st, []⟩
    let r ← (sortBy compareEntriesByKey (targetEntries.values ord)).foldlM
      (fun r entry =>
        match r.st.entries.lookup entry.aclKey with
        | some current =>
          if entrySemanticallyEqual current entry then pure r
          else Restore.commitEntry clock opPrefix r entry
        | none => Restore.commitEntry clock opPrefix r entry)
      r
    let r ← (sortBy compareRulesByKey (r.st.rules.values ord)).foldlM
      (fun r rule =>
        if rule.ruleKey ∈ targetRules then pure r
        else Restore.commitRule clock opPrefix r
          { rule with action := .delete, reasonCode := "rollback_delete", expiresAt := 0,
                      createdBy := "globacl-rollback" })
      r
    (sortBy compareRulesByKey (targetRules.values ord)).foldlM
      (fun r rule =>
        match r.st.rules.lookup rule.ruleKey with
        | some current =>
          if ruleSemanticallyEqual current rule then pure r
          else Restore.commitRule clock opPrefix r rule
        | none => Restore.commitRule clock opPrefix r rule)
      r

/-! ## The life of a source -/

/-- What a constructor returns for the shard count `n`, on any input that it accepts. The watermarks of
a snapshot are 64-bit numbers. -/
inductive Constructed (n : Nat) : LoadedSource → Prop
  | new (sourceRegion : String) : Constructed n (new n sourceRegion)
  | fromMutations {sourceRegion : String} {mutations : List Mutation} {st : LoadedSource}
      (h : fromMutations n sourceRegion mutations = .ok st) : Constructed n st
  | fromSnapshotAndMutations {sourceRegion : String} {snapshot : Snapshot}
      {ids mutations : List Mutation} {st : LoadedSource}
      (hw : ∀ w ∈ snapshot.watermarks, w < 2 ^ 64)
      (h : fromSnapshotAndMutations n sourceRegion snapshot ids mutations = .ok st) :
      Constructed n st
  | fromSnapshotAndRetainedHistory {sourceRegion : String} {snapshot : Snapshot}
      {ids retained : List Mutation} {compacted : List Nat} {st : LoadedSource}
      (hw : ∀ w ∈ snapshot.watermarks, w < 2 ^ 64)
      (h : fromSnapshotAndRetainedHistory n sourceRegion snapshot ids retained compacted = .ok st) :
      Constructed n st

/-- What the effect of a mutation, the index of operations and the list of mutations keep, and what `new`
and a snapshot start with, holds of every constructed source. -/
theorem Constructed.keeps {n : Nat} {st : LoadedSource} {p : LoadedSource → Prop}
    (h : Constructed n st) (hadvance : ∀ st m, p st → p (st.advance m))
    (hindex : ∀ st m, p st → p (st.indexOp m)) (hpush : ∀ st m, p st → p (st.pushMutation m))
    (hnew : ∀ sourceRegion, p (LoadedSource.new n sourceRegion))
    (hsnapshot : ∀ sourceRegion snapshot compacted, p (ofSnapshot n sourceRegion snapshot compacted)) :
    p st := by
  have hinsert : ∀ {st st' : LoadedSource} {m : Mutation}, p st → st.insertOpIndex m = .ok st' →
      p st' := fun hp hm => by
    rcases insertOpIndex_ok hm with rfl | rfl
    · exact hp
    · exact hindex _ _ hp
  have hload : ∀ {st st' : LoadedSource} {m : Mutation}, p st → st.applyLoadedMutation m = .ok st' →
      p st' := fun hp hm => by
    simp only [applyLoadedMutation, bind_eq_ok] at hm
    obtain ⟨st₁, h₁, st₂, h₂, hm⟩ := hm
    obtain ⟨-, rfl⟩ := applyCommittedMutation_ok h₁
    cases hm
    exact hpush _ _ (hinsert (hadvance _ _ hp) h₂)
  cases h with
  | new sourceRegion => exact hnew sourceRegion
  | fromMutations h => exact foldlM_invariant (fun _ _ _ _ hp hm => hload hp hm) (hnew _) h
  | fromSnapshotAndMutations _ h =>
    unfold LoadedSource.fromSnapshotAndMutations at h
    split at h
    · cases h
    simp only [bind_eq_ok] at h
    obtain ⟨-, -, st₁, h₁, h⟩ := h
    exact foldlM_invariant (fun _ _ _ _ hp hm => hload hp hm)
      (foldlM_invariant (fun _ _ _ _ hp hm => hinsert hp hm) (hsnapshot _ _ _) h₁) h
  | fromSnapshotAndRetainedHistory _ h =>
    unfold LoadedSource.fromSnapshotAndRetainedHistory at h
    split at h
    · cases h
    simp only [bind_eq_ok] at h
    obtain ⟨-, -, h⟩ := h
    split at h
    · cases h
    simp only [bind_eq_ok] at h
    obtain ⟨-, -, st₁, h₁, ⟨st₂, e⟩, h₂, -, -, h⟩ := h
    cases h
    refine foldlM_invariant (p := fun acc : LoadedSource × List Nat => p acc.1)
      (fun acc acc' m _ hp hm => ?_)
      (foldlM_invariant (fun _ _ _ _ hp hm => hinsert hp hm) (hsnapshot _ _ _) h₁) h₂
    obtain ⟨-, -, -, ⟨-, -, st₃, hi, hst⟩ | hl⟩ := retainMutation_ok hm
    · rw [hst]
      exact hpush _ _ (hinsert hp hi)
    · exact hload hp hl

/-- A call on a source. -/
inductive Call where
  | commit (now : Nat) (request : DenyRequest)
  | commitRule (now : Nat) (request : RuleRequest)
  | applyReplicatedMutation (m : Mutation)
  | restoreSnapshot (clock : Nat → Nat) (ord : IterOrder) (snapshot : Snapshot) (opPrefix : String)
  | compactMutationHistory (watermarks : List Nat)
  | setEpoch (epoch : Nat)

/-- The state after a call: each call checks before it changes anything, so a rejected one leaves the
state as it was. -/
def after (st : LoadedSource) : Result LoadedSource → LoadedSource
  | .ok st' => st'
  | .error _ => st

/-- A call, accepted or rejected. -/
def call (st : LoadedSource) : Call → LoadedSource
  | .commit now request => st.after ((commit now st request).map Prod.snd)
  | .commitRule now request => st.after ((commitRule now st request).map Prod.snd)
  | .applyReplicatedMutation m => st.after ((st.applyReplicatedMutation m).map Prod.snd)
  | .restoreSnapshot clock ord snapshot opPrefix =>
    st.after ((restoreSnapshot clock ord st snapshot opPrefix).map Restore.st)
  | .compactMutationHistory watermarks => st.after (st.compactMutationHistory watermarks)
  | .setEpoch epoch => st.setEpoch epoch

/-! ## Numbers that wrap -/

theorem wrappingSucc_lt (w : Nat) : wrappingSucc w < 2 ^ 64 := Nat.mod_lt _ (by decide)

theorem wrappingSucc_of_lt {w : Nat} (h : w + 1 < 2 ^ 64) : wrappingSucc w = w + 1 :=
  wrappingSucc_eq_iff.mpr h

/-- The number after the largest one is not above any number. -/
theorem wrappingSucc_of_gt {w : Nat} (h : w < wrappingSucc w) : wrappingSucc w = w + 1 := by
  have := wrappingSucc_lt w
  exact wrappingSucc_of_lt (by omega)

theorem iterate_wrappingSucc {w n : Nat} (hn : 0 < n) : wrappingSucc^[n] w = (w + n) % 2 ^ 64 := by
  induction n with
  | zero => cases hn
  | succ n ih =>
    rw [Function.iterate_succ_apply']
    rcases Nat.eq_zero_or_pos n with rfl | hpos
    · rfl
    · rw [ih hpos, wrappingSucc]
      omega

/-- Numbers that stay below the width are counted up. -/
theorem iterate_wrappingSucc_of_lt {w n : Nat} (h : w + n < 2 ^ 64) : wrappingSucc^[n] w = w + n := by
  rcases Nat.eq_zero_or_pos n with rfl | hpos
  · rfl
  · rw [iterate_wrappingSucc hpos, Nat.mod_eq_of_lt h]

/-! ## Direct commits -/

/-- The state after a mutation is applied, indexed and kept in the log. -/
def record (st : LoadedSource) (m : Mutation) : LoadedSource :=
  ((st.advance m).indexOp m).pushMutation m

/-- A mutation that a source commits next, with a new operation id. -/
structure Next (st : LoadedSource) (m : Mutation) : Prop where
  shard_lt : m.shard < st.shardCount
  slot : m.shard < st.watermarks.length
  seq : m.seq = wrappingSucc (st.watermark m.shard)
  fresh : m.opId ∉ st.opIndex

section Next

variable {st st' : LoadedSource} {m : Mutation}

@[simp] theorem record_shardCount : (st.record m).shardCount = st.shardCount := rfl

@[simp] theorem record_compactedWatermarks :
    (st.record m).compactedWatermarks = st.compactedWatermarks := rfl

@[simp] theorem record_mutations : (st.record m).mutations = st.mutations ++ [m] := rfl

@[simp] theorem record_opIndex : (st.record m).opIndex = st.opIndex.insert m.opId m := rfl

@[simp] theorem length_watermarks_record :
    (st.record m).watermarks.length = st.watermarks.length := List.length_set

theorem advance_watermark (h : m.shard < st.watermarks.length) (s : Nat) :
    (st.advance m).watermark s = if s = m.shard then m.seq else st.watermark s := by
  have := congrFun (SourceOfTruth.getD_set_eq st.watermarks h m.seq) s
  rw [Function.update_apply] at this
  exact this

theorem record_watermark (h : m.shard < st.watermarks.length) (s : Nat) :
    (st.record m).watermark s = if s = m.shard then m.seq else st.watermark s :=
  advance_watermark h s

theorem applyCommittedMutation_iff : st.applyCommittedMutation m = .ok st' ↔
    m.shard < st.shardCount ∧ m.shard < st.watermarks.length ∧
      m.seq = wrappingSucc (st.watermark m.shard) ∧ st' = st.advance m := by
  unfold applyCommittedMutation
  by_cases hs : m.shard ≥ st.shardCount
  · rw [if_pos hs]
    exact iff_of_false (fun h => by cases h) fun h => absurd h.1 (Nat.not_lt.mpr hs)
  rw [if_neg hs, and_iff_right (Nat.lt_of_not_le hs)]
  by_cases hslot : m.shard < st.watermarks.length
  · rw [index_getD hslot 0, ok_bind, and_iff_right hslot]
    change (if m.seq ≠ wrappingSucc (st.watermark m.shard) then _ else _) = _ ↔ _
    by_cases hseq : m.seq ≠ wrappingSucc (st.watermark m.shard)
    · exact iff_of_false (fun h => by rw [if_pos hseq] at h; cases h) fun h => hseq h.1
    · rw [if_neg hseq, and_iff_right (not_not.mp hseq)]
      exact ⟨fun h => by cases h; rfl, fun h => h ▸ rfl⟩
  · rw [index_of_length_le (Nat.le_of_not_lt hslot)]
    exact iff_of_false (fun h => by cases h) fun h => hslot h.1

theorem Next.applyCommittedMutation (h : st.Next m) :
    st.applyCommittedMutation m = .ok (st.advance m) :=
  applyCommittedMutation_iff.mpr ⟨h.shard_lt, h.slot, h.seq, rfl⟩

/-- A copy of the source takes the mutation too, if its number is above the watermark. -/
theorem Next.applyReplicatedMutation (h : st.Next m) (hgt : st.watermark m.shard < m.seq) :
    st.applyReplicatedMutation m = .ok (.applied, st.record m) := by
  unfold LoadedSource.applyReplicatedMutation
  rw [HashMap.not_mem_iff_lookup.mp h.fresh]
  dsimp only
  rw [if_neg (Nat.not_le.mpr h.shard_lt), index_getD h.slot 0, ok_bind]
  change (if m.seq ≤ st.watermark m.shard then _ else _) = _
  rw [if_neg (Nat.not_le.mpr hgt), h.applyCommittedMutation]
  rfl

/-- What `apply_replicated_mutation` does: nothing, or it records the next mutation. -/
theorem applyReplicatedMutation_ok {status : ApplyStatus}
    (h : st.applyReplicatedMutation m = .ok (status, st')) :
    st' = st ∨ st.Next m ∧ st.watermark m.shard < m.seq ∧ st' = st.record m := by
  unfold LoadedSource.applyReplicatedMutation at h
  split at h
  · split at h
    · cases h
      exact Or.inl rfl
    · cases h
  · rename_i hnone
    split at h
    · cases h
    · rw [bind_eq_ok] at h
      obtain ⟨w, hw, h⟩ := h
      split at h
      · split at h
        · cases h
          exact Or.inl rfl
        · cases h
      · rename_i hgt
        rw [bind_eq_ok] at h
        obtain ⟨st₁, h₁, h⟩ := h
        cases h
        obtain ⟨hlt, hslot, hseq, rfl⟩ := applyCommittedMutation_iff.mp h₁
        rw [index_getD hslot 0] at hw
        cases hw
        exact Or.inr ⟨⟨hlt, hslot, hseq, HashMap.not_mem_iff_lookup.mpr hnone⟩,
          Nat.lt_of_not_le hgt, rfl⟩

/-- A direct commit goes to the shard of the hash, under the next number. -/
theorem commitDirect_ok {hash : UInt64} {commitId : CommitId} {m' : Mutation}
    (hid : st.nextCommitId (shardForHash hash st.shardCount) = .ok commitId)
    (hm : m.commitId = commitId) (hfresh : m.opId ∉ st.opIndex)
    (h : st.commitDirect m = .ok (m', st')) :
    m' = m ∧ st.Next m ∧ m.shard = shardForHash hash st.shardCount ∧ st' = st.record m := by
  unfold commitDirect at h
  rw [bind_eq_ok] at h
  obtain ⟨st₁, h₁, h⟩ := h
  cases h
  obtain ⟨hlt, hslot, hseq, rfl⟩ := applyCommittedMutation_iff.mp h₁
  refine ⟨rfl, ⟨hlt, hslot, hseq, hfresh⟩, ?_, rfl⟩
  unfold nextCommitId at hid
  rw [bind_eq_ok] at hid
  obtain ⟨w, -, hid⟩ := hid
  cases hid
  rw [Mutation.shard, hm]

/-- With a slot for the shard, a direct commit succeeds. -/
theorem exists_commitDirect {hash : UInt64} (hpos : 0 < st.shardCount)
    (hslot : shardForHash hash st.shardCount < st.watermarks.length) :
    ∃ commitId, st.nextCommitId (shardForHash hash st.shardCount) = .ok commitId ∧
      ∀ m : Mutation, m.commitId = commitId → st.commitDirect m = .ok (m, st.record m) := by
  refine ⟨⟨shardForHash hash st.shardCount,
    wrappingSucc (st.watermark (shardForHash hash st.shardCount)), st.epoch, st.sourceRegion⟩, ?_,
    fun m hm => ?_⟩
  · rw [nextCommitId, index_getD hslot 0]
    rfl
  · have hshard : m.shard = shardForHash hash st.shardCount := by rw [Mutation.shard, hm]
    have happly : st.applyCommittedMutation m = .ok (st.advance m) := by
      refine applyCommittedMutation_iff.mpr ⟨?_, ?_, ?_, rfl⟩
      · rw [hshard]
        exact shardForHash_lt hpos
      · rw [hshard]
        exact hslot
      · rw [hshard, Mutation.seq, hm]
    rw [commitDirect, happly]
    rfl

end Next

theorem Restore.commitEntry_ok {clock : Nat → Nat} {opPrefix : String} {r r' : Restore}
    {entry : DenyEntry} (h : r.commitEntry clock opPrefix entry = .ok r') :
    ∃ m : Mutation, r' = ⟨r.st.record m, r.mutations ++ [m]⟩ ∧ r.st.Next m ∧
      m.shard = shardForHash entry.keyHash r.st.shardCount ∧ m.rule = none ∧
      m.entry = { entry with shardId := m.shard, commitSeq := m.seq } := by
  unfold Restore.commitEntry commitEntryDirect at h
  simp only [bind_eq_ok] at h
  obtain ⟨⟨m, st⟩, ⟨commitId, hid, hc⟩, h⟩ := h
  cases h
  obtain ⟨rfl, hn, hshard, rfl⟩ :=
    commitDirect_ok hid rfl (SourceOfTruth.nextRestoreOpId_fresh _ _ _) hc
  exact ⟨_, rfl, hn, hshard, rfl, rfl⟩

theorem Restore.commitRule_ok {clock : Nat → Nat} {opPrefix : String} {r r' : Restore}
    {rule : RuleEntry} (h : r.commitRule clock opPrefix rule = .ok r') :
    ∃ m : Mutation, r' = ⟨r.st.record m, r.mutations ++ [m]⟩ ∧ r.st.Next m ∧
      m.shard = shardForHash rule.ruleHash r.st.shardCount ∧
      m.rule = some { rule with shardId := m.shard, commitSeq := m.seq } := by
  unfold Restore.commitRule commitRuleDirect at h
  simp only [bind_eq_ok] at h
  obtain ⟨⟨m, st⟩, ⟨commitId, hid, hc⟩, h⟩ := h
  cases h
  obtain ⟨rfl, hn, hshard, rfl⟩ :=
    commitDirect_ok hid rfl (SourceOfTruth.nextRestoreOpId_fresh _ _ _) hc
  exact ⟨_, rfl, hn, hshard, rfl⟩

theorem Restore.exists_commitEntry (clock : Nat → Nat) (opPrefix : String) {r : Restore}
    {entry : DenyEntry} (hpos : 0 < r.st.shardCount)
    (hslot : shardForHash entry.keyHash r.st.shardCount < r.st.watermarks.length) :
    ∃ r', r.commitEntry clock opPrefix entry = .ok r' := by
  obtain ⟨commitId, hid, hc⟩ := exists_commitDirect hpos hslot
  unfold Restore.commitEntry commitEntryDirect
  rw [hid, ok_bind, hc _ rfl]
  exact ⟨_, rfl⟩

theorem Restore.exists_commitRule (clock : Nat → Nat) (opPrefix : String) {r : Restore}
    {rule : RuleEntry} (hpos : 0 < r.st.shardCount)
    (hslot : shardForHash rule.ruleHash r.st.shardCount < r.st.watermarks.length) :
    ∃ r', r.commitRule clock opPrefix rule = .ok r' := by
  obtain ⟨commitId, hid, hc⟩ := exists_commitDirect hpos hslot
  unfold Restore.commitRule commitRuleDirect
  rw [hid, ok_bind, hc _ rfl]
  exact ⟨_, rfl⟩

/-- A run of commits, each of the next mutation. -/
inductive Commits : LoadedSource → List Mutation → LoadedSource → Prop
  | nil (st : LoadedSource) : Commits st [] st
  | cons {st st' : LoadedSource} {m : Mutation} {ms : List Mutation} (hn : st.Next m)
      (h : Commits (st.record m) ms st') : Commits st (m :: ms) st'

section Commits

variable {st st' : LoadedSource} {ms : List Mutation}

theorem Commits.kept (h : Commits st ms st') : st'.shardCount = st.shardCount ∧
    st'.watermarks.length = st.watermarks.length ∧
    st'.compactedWatermarks = st.compactedWatermarks ∧ st'.mutations = st.mutations ++ ms := by
  induction h with
  | nil st => exact ⟨rfl, rfl, rfl, (List.append_nil _).symm⟩
  | cons hn _ ih =>
    obtain ⟨hcount, hlen, hc, hms⟩ := ih
    refine ⟨hcount, hlen.trans length_watermarks_record, hc, ?_⟩
    rw [hms, record_mutations, List.append_assoc]
    rfl

theorem Commits.slot (h : Commits st ms st') : ∀ m ∈ ms, m.shard < st.watermarks.length := by
  induction h with
  | nil st => exact fun m hm => absurd hm List.not_mem_nil
  | cons hn _ ih =>
    rw [length_watermarks_record] at ih
    exact List.forall_mem_cons.mpr ⟨hn.slot, ih⟩

/-- The watermark of a shard goes on by one for each mutation of the shard. -/
theorem Commits.watermark (h : Commits st ms st') (s : Nat) :
    st'.watermark s = wrappingSucc^[(shardLog ms s).length] (st.watermark s) := by
  induction h with
  | nil st => rfl
  | @cons st st' m ms hn _ ih =>
    rw [ih, record_watermark hn.slot, ← List.singleton_append, shardLog_append, shardLog_singleton]
    by_cases hs : s = m.shard
    · subst hs
      rw [if_pos rfl, if_pos rfl, hn.seq, List.singleton_append, List.length_cons,
        Function.iterate_succ_apply]
    · rw [if_neg hs, if_neg (Ne.symm hs), List.nil_append]

/-- The mutations of a shard carry the numbers after its watermark. -/
theorem Commits.numbers (h : Commits st ms st') (s : Nat) :
    (shardLog ms s).map Mutation.seq =
      (List.range (shardLog ms s).length).map fun i => wrappingSucc^[i + 1] (st.watermark s) := by
  induction h with
  | nil st => rfl
  | @cons st st' m ms hn _ ih =>
    rw [record_watermark hn.slot] at ih
    rw [← List.singleton_append, shardLog_append, shardLog_singleton]
    by_cases hs : s = m.shard
    · subst hs
      rw [if_pos rfl, List.singleton_append, List.map_cons, List.length_cons, List.range_succ_eq_map,
        List.map_cons, List.map_map, ih, if_pos rfl, hn.seq]
      rfl
    · rw [if_neg (Ne.symm hs), List.nil_append, ih, if_neg hs]

/-- Below the largest number the mutations of a shard are numbered without a hole. -/
theorem Commits.numbers_of_lt (h : Commits st ms st') {s : Nat}
    (hw : st.watermark s + (shardLog ms s).length < 2 ^ 64) :
    (shardLog ms s).map Mutation.seq =
      List.range' (st.watermark s + 1) (shardLog ms s).length := by
  rw [h.numbers, List.range'_eq_map_range]
  refine List.map_congr_left fun i hi => ?_
  have := List.mem_range.mp hi
  rw [iterate_wrappingSucc_of_lt (by omega)]
  omega

/-- The operation ids are new and distinct. -/
theorem Commits.fresh (h : Commits st ms st') :
    (ms.map Mutation.opId).Nodup ∧ ∀ m ∈ ms, m.opId ∉ st.opIndex := by
  induction h with
  | nil st => exact ⟨List.nodup_nil, fun m hm => absurd hm List.not_mem_nil⟩
  | @cons st st' m ms hn _ ih =>
    obtain ⟨hnd, hfresh⟩ := ih
    simp only [record_opIndex, AList.mem_insert, not_or] at hfresh
    refine ⟨?_, fun m' hm' => ?_⟩
    · rw [List.map_cons, List.nodup_cons, List.mem_map]
      exact ⟨fun ⟨m', hm', hid⟩ => (hfresh m' hm').1 hid, hnd⟩
    · rcases List.mem_cons.mp hm' with rfl | hm'
      · exact hn.fresh
      · exact (hfresh m' hm').2

/-- A copy of the source takes the mutations one after the other, as long as no number wraps. -/
theorem Commits.replayed (h : Commits st ms st')
    (hw : ∀ m ∈ ms, st.watermark m.shard + (shardLog ms m.shard).length < 2 ^ 64) :
    ms.foldlM (fun st m => (st.applyReplicatedMutation m).map Prod.snd) st = .ok st' := by
  induction h with
  | nil st => rfl
  | @cons st st' m ms hn _ ih =>
    have hcons : ∀ s, shardLog (m :: ms) s = (if m.shard = s then [m] else []) ++ shardLog ms s :=
      fun s => by rw [← List.singleton_append, shardLog_append, shardLog_singleton]
    have hnext : m.seq = st.watermark m.shard + 1 := by
      have := hw m List.mem_cons_self
      rw [hcons, if_pos rfl, List.length_append, List.length_singleton] at this
      rw [hn.seq, wrappingSucc_of_lt (by omega)]
    have hstep : (st.applyReplicatedMutation m).map Prod.snd = .ok (st.record m) := by
      rw [hn.applyReplicatedMutation (by omega)]
      rfl
    rw [List.foldlM_cons, hstep]
    refine ih fun m' hm' => ?_
    have := hw m' (List.mem_cons_of_mem _ hm')
    rw [hcons, List.length_append] at this
    rw [record_watermark hn.slot]
    by_cases hs : m'.shard = m.shard
    · rw [if_pos hs.symm, List.length_singleton] at this
      rw [if_pos hs, hnext, ← hs]
      omega
    · rw [if_neg (Ne.symm hs), List.length_nil] at this
      rw [if_neg hs]
      omega

end Commits

/-! ## Compaction -/

/-- A loop of checks passes only if each of them does. -/
theorem forM_ok {α : Type} {f : α → Result Unit} {l : List α} (h : l.forM f = .ok ()) :
    ∀ a ∈ l, f a = .ok () := by
  induction l with
  | nil => exact fun a ha => absurd ha List.not_mem_nil
  | cons a l ih =>
    rw [List.forM, bind_eq_ok] at h
    obtain ⟨⟨⟩, ha, h⟩ := h
    exact List.forall_mem_cons.mpr ⟨ha, ih h⟩

theorem checkWatermarks_ok {seqs watermarks : List Nat} {fails : Nat → Nat → Bool}
    {err : Nat → Nat → Nat → GlobAclError} (h : checkWatermarks seqs watermarks fails err = .ok ())
    {s : Nat} (hs : s < seqs.length) : s < watermarks.length ∧
      fails (seqs.getD s 0) (watermarks.getD s 0) = false := by
  have hstep := forM_ok h s (List.mem_range.mpr hs)
  rw [bind_eq_ok] at hstep
  obtain ⟨w, hw, hstep⟩ := hstep
  by_cases hslot : s < watermarks.length
  · rw [index_getD hslot 0] at hw
    cases hw
    refine ⟨hslot, Bool.eq_false_iff.mpr fun hfails => ?_⟩
    rw [if_pos hfails] at hstep
    cases hstep
  · rw [index_of_length_le (Nat.le_of_not_lt hslot)] at hw
    cases hw

/-- A filter that may fail is the plain filter where it succeeds. -/
theorem filterM_ok {α : Type} {f : α → Result Bool} {p : α → Bool}
    (hf : ∀ a b, f a = .ok b → b = p a) {l l' : List α} (h : l.filterM f = .ok l') :
    l' = l.filter p := by
  have haux : ∀ (l acc acc' : List α), l.filterAuxM f acc = .ok acc' →
      acc' = (l.filter p).reverse ++ acc := by
    intro l
    induction l with
    | nil =>
      intro acc acc' h
      cases h
      rfl
    | cons a l ih =>
      intro acc acc' h
      rw [List.filterAuxM, bind_eq_ok] at h
      obtain ⟨b, hb, h⟩ := h
      rw [ih _ _ h, hf a b hb, List.filter_cons]
      cases p a <;> simp
  unfold List.filterM at h
  rw [bind_eq_ok] at h
  obtain ⟨acc, hacc, h⟩ := h
  cases h
  rw [haux _ _ _ hacc, List.append_nil, List.reverse_reverse]

theorem exists_filterM {α : Type} {f : α → Result Bool} {l : List α} (h : ∀ a ∈ l, ∃ b, f a = .ok b) :
    ∃ l', l.filterM f = .ok l' := by
  have haux : ∀ (l acc : List α), (∀ a ∈ l, ∃ b, f a = .ok b) → ∃ acc', l.filterAuxM f acc = .ok acc' := by
    intro l
    induction l with
    | nil => exact fun acc _ => ⟨acc, rfl⟩
    | cons a l ih =>
      intro acc h
      obtain ⟨⟨b, hb⟩, hl⟩ := List.forall_mem_cons.mp h
      rw [List.filterAuxM, hb]
      exact ih _ hl
  obtain ⟨acc, hacc⟩ := haux l [] h
  exact ⟨acc.reverse, bind_eq_ok.mpr ⟨acc, hacc, rfl⟩⟩

/-- The loop over the compacted watermarks raises each of them. -/
theorem foldlM_compact_ok {watermarks : List Nat} (k : Nat) {c c' : List Nat}
    (h : (List.range k).foldlM
      (fun (compacted : List Nat) shardId => do
        let compactedSeq ← index compacted shardId
        pure (compacted.set shardId (max compactedSeq (watermarks.getD shardId 0)))) c =
      (.ok c' : Result (List Nat))) :
    c'.length = c.length ∧ ∀ s, c'.getD s 0 =
      if s < k then max (c.getD s 0) (watermarks.getD s 0) else c.getD s 0 := by
  induction k generalizing c' with
  | zero =>
    cases h
    exact ⟨rfl, fun s => (if_neg (Nat.not_lt_zero s)).symm⟩
  | succ k ih =>
    rw [List.range_succ, List.foldlM_append, bind_eq_ok] at h
    obtain ⟨c₁, h₁, h⟩ := h
    obtain ⟨hlen, hget⟩ := ih h₁
    rw [List.foldlM_cons, bind_eq_ok] at h
    obtain ⟨c₂, h₂, h⟩ := h
    cases h
    rw [bind_eq_ok] at h₂
    obtain ⟨seq, hseq, h₂⟩ := h₂
    cases h₂
    by_cases hk : k < c₁.length
    · rw [index_getD hk 0] at hseq
      cases hseq
      refine ⟨List.length_set.trans hlen, fun s => ?_⟩
      have hset := congrFun (SourceOfTruth.getD_set_eq c₁ hk
        (max (c₁.getD k 0) (watermarks.getD k 0))) s
      rw [Function.update_apply] at hset
      rw [hset]
      by_cases hs : s = k
      · subst hs
        rw [if_pos rfl, if_pos (Nat.lt_succ_self s), hget, if_neg (Nat.lt_irrefl s)]
      · rw [if_neg hs, hget]
        congr 1
        exact propext ⟨fun h => by omega, fun h => by omega⟩
    · rw [index_of_length_le (Nat.le_of_not_lt hk)] at hseq
      cases hseq

theorem compactMutationHistory_ok {st st' : LoadedSource} {watermarks : List Nat}
    (h : st.compactMutationHistory watermarks = .ok st') :
    (∀ s, watermarks.getD s 0 ≤ st.watermark s) ∧
    ∃ compacted : List Nat, compacted.length = st.compactedWatermarks.length ∧
      (∀ s, compacted.getD s 0 = max (st.compactedWatermark s) (watermarks.getD s 0)) ∧
      st' = { st with
        mutations := st.mutations.filter fun m => decide (m.seq > watermarks.getD m.shard 0)
        compactedWatermarks := compacted } := by
  unfold compactMutationHistory at h
  split at h
  · cases h
  simp only [bind_eq_ok] at h
  obtain ⟨⟨⟩, hcheck, mutations, hms, compacted, hc, h⟩ := h
  cases h
  have hzero : ∀ s, ¬s < watermarks.length → watermarks.getD s 0 = 0 := fun s hs => by
    rw [List.getD_eq_getElem?_getD, List.getElem?_eq_none (Nat.le_of_not_lt hs)]
    rfl
  obtain ⟨hlen, hget⟩ := foldlM_compact_ok _ hc
  have hkept : mutations = st.mutations.filter fun m =>
      decide (m.seq > watermarks.getD m.shard 0) := by
    refine filterM_ok (fun m b hb => ?_) hms
    rw [bind_eq_ok] at hb
    obtain ⟨w, hw, hb⟩ := hb
    cases hb
    by_cases hslot : m.shard < watermarks.length
    · rw [index_getD hslot 0] at hw
      cases hw
      rfl
    · rw [index_of_length_le (Nat.le_of_not_lt hslot)] at hw
      cases hw
  refine ⟨fun s => ?_, compacted, hlen, fun s => ?_, by rw [hkept]⟩
  · by_cases hs : s < watermarks.length
    · have := (checkWatermarks_ok hcheck hs).2
      rw [decide_eq_false_iff_not] at this
      exact Nat.le_of_not_lt this
    · rw [hzero s hs]
      exact Nat.zero_le _
  · rw [hget]
    split
    · rfl
    · rename_i hs
      rw [hzero s hs]
      exact (Nat.max_eq_left (Nat.zero_le _)).symm

/-! ## What a call can do -/

theorem applyOutcome_ok {st st' : LoadedSource} {outcome outcome' : CommitOutcome}
    (h : st.applyOutcome outcome = .ok (outcome', st')) :
    st' = st ∨ ∃ m, st.Next m ∧ st.watermark m.shard < m.seq ∧ st' = st.record m := by
  unfold applyOutcome at h
  split at h
  · cases h
    exact Or.inl rfl
  · rw [bind_eq_ok] at h
    obtain ⟨⟨status, st₁⟩, h₁, h⟩ := h
    cases h
    exact (applyReplicatedMutation_ok h₁).imp_right fun h => ⟨_, h⟩

/-- A call leaves the source as it is, records the next mutation under a number above the watermark,
restores a snapshot, compacts or sets the epoch. -/
theorem call_cases (st : LoadedSource) (c : Call) :
    st.call c = st ∨
    (∃ m, st.Next m ∧ st.watermark m.shard < m.seq ∧ st.call c = st.record m) ∨
    (∃ clock ord snapshot opPrefix r, c = .restoreSnapshot clock ord snapshot opPrefix ∧
      restoreSnapshot clock ord st snapshot opPrefix = .ok r ∧ st.call c = r.st) ∨
    (∃ watermarks, st.compactMutationHistory watermarks = .ok (st.call c)) ∨
    ∃ epoch, st.call c = st.setEpoch epoch := by
  cases c with
  | commit now request =>
    rw [call]
    cases hc : commit now st request with
    | error err => exact Or.inl rfl
    | ok out =>
      obtain ⟨outcome, -, hout⟩ := bind_eq_ok.mp hc
      exact (applyOutcome_ok hout).imp_right Or.inl
  | commitRule now request =>
    rw [call]
    cases hc : commitRule now st request with
    | error err => exact Or.inl rfl
    | ok out =>
      obtain ⟨outcome, -, hout⟩ := bind_eq_ok.mp hc
      exact (applyOutcome_ok hout).imp_right Or.inl
  | applyReplicatedMutation m =>
    rw [call]
    cases hr : st.applyReplicatedMutation m with
    | error err => exact Or.inl rfl
    | ok out => exact (applyReplicatedMutation_ok hr).imp_right fun h => Or.inl ⟨m, h⟩
  | restoreSnapshot clock ord snapshot opPrefix =>
    rw [call]
    cases hr : restoreSnapshot clock ord st snapshot opPrefix with
    | error err => exact Or.inl rfl
    | ok r => exact Or.inr (Or.inr (Or.inl ⟨clock, ord, snapshot, opPrefix, r, rfl, hr, rfl⟩))
  | compactMutationHistory watermarks =>
    rw [call]
    cases hc : st.compactMutationHistory watermarks with
    | error err => exact Or.inl rfl
    | ok st' => exact Or.inr (Or.inr (Or.inr (Or.inl ⟨watermarks, hc⟩)))
  | setEpoch epoch => exact Or.inr (Or.inr (Or.inr (Or.inr ⟨epoch, rfl⟩)))

end LoadedSource

end Globacl
