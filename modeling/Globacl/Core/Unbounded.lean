import Globacl.Core.Operations
import Globacl.Core.Rollback

/-!
# Sequence numbers without a width (`globacl-core/src/lib/source.rs`)

`SourceOfTruth` counts with numbers of any size and carries the lengths of its vectors. Where no
watermark has come to the largest number, it is the `LoadedSource` of the code: each call that it accepts
is accepted there, with the same result. A watermark that is below the largest number now was below it
in every call before, so one look at the end of a run is enough.

* `BelowLast.of_le`: watermarks only rise.
* `toLoaded_commit` and the lemmas around it: the calls.
* `OpRun.reached`: a life of a source that ends below the largest number is a life of the code's source.
-/

namespace Globacl

open Lib

theorem LoadedSource.Reached.call {st : LoadedSource} (h : st.Reached) (c : LoadedSource.Call) :
    (st.call c).Reached := by
  obtain ⟨n, st₀, calls, h₀, rfl⟩ := h
  exact ⟨n, st₀, calls ++ [c], h₀, List.foldl_concat ..⟩

namespace SourceOfTruth

variable {st st' : SourceOfTruth} {m : Mutation} {ms : List Mutation}

/-! ## Watermarks rise -/

theorem BelowLast.of_le (hb : st'.BelowLast) (h : ∀ s, st.watermark s ≤ st'.watermark s) :
    st.BelowLast := fun s => Nat.lt_of_le_of_lt (Nat.add_le_add_right (h s) 1) (hb s)

theorem watermark_le_record (hshard : m.shard < st.shardCount)
    (hseq : m.seq = st.watermark m.shard + 1) (s : Nat) :
    st.watermark s ≤ (st.record m).watermark s := by
  rw [record_watermark st hshard]
  grind

theorem Commits.watermark_le (h : Commits st ms st') (s : Nat) : st.watermark s ≤ st'.watermark s := by
  obtain ⟨m, -, hn, rfl⟩ := h
  exact watermark_le_record hn.shard_lt hn.seq s

theorem Run.watermark_le (h : Run Commits st ms st') (s : Nat) : st.watermark s ≤ st'.watermark s := by
  induction h with
  | refl => exact Nat.le_refl _
  | tail _ hc ih => exact ih.trans (hc.watermark_le s)

theorem watermark_le_applyLoadedMutation (h : st.applyLoadedMutation m = .ok st') (s : Nat) :
    st.watermark s ≤ st'.watermark s := by
  obtain ⟨hseq, -, hw, -⟩ := applyLoadedMutation_spec h
  rw [hw]
  grind

theorem CommitStep.watermark_le (h : CommitStep st ms st') (s : Nat) :
    st.watermark s ≤ st'.watermark s := by
  cases h with
  | commit hc => exact Run.watermark_le (commit_run hc) s
  | commitRule hc => exact Run.watermark_le (commitRule_run hc) s
  | restoreSnapshot hc => exact Run.watermark_le (restoreSnapshot_run hc) s
  | setEpoch epoch => exact Nat.le_refl _
  | compactMutationHistory hc => exact ((compactMutationHistory_ok hc).2.1.watermark s).ge

/-! ## Calls -/

section Calls

theorem toLoaded_applyReplicatedMutation (hb : st.BelowLast) :
    st.toLoaded.applyReplicatedMutation m =
      (st.applyReplicatedMutation m).map (Prod.map id toLoaded) := by
  unfold LoadedSource.applyReplicatedMutation applyReplicatedMutation
  rw [show st.toLoaded.opIndex = st.opIndex from rfl]
  cases st.opIndex.lookup m.opId with
  | some existing =>
    dsimp only
    split <;> rfl
  | none =>
    dsimp only
    by_cases hs : m.shard ≥ st.shardCount
    · rw [if_pos hs]
      exact if_pos hs
    · rw [if_neg hs]
      refine (if_neg hs).trans ?_
      rw [st.index_watermarks (Nat.lt_of_not_le hs), ok_bind]
      by_cases hle : m.seq ≤ st.watermark m.shard
      · rw [if_pos hle, if_pos hle, show st.toLoaded.mutations = st.mutations from rfl]
        split <;> rfl
      · rw [if_neg hle, if_neg hle, toLoaded_applyCommittedMutation hb]
        cases st.applyCommittedMutation m <;> rfl

theorem toLoaded_applyOutcome (hb : st.BelowLast) (outcome : CommitOutcome) :
    st.toLoaded.applyOutcome outcome = (st.applyOutcome outcome).map (Prod.map id toLoaded) := by
  unfold LoadedSource.applyOutcome applyOutcome
  split
  · rfl
  · rw [toLoaded_applyReplicatedMutation hb]
    cases st.applyReplicatedMutation outcome.mutation <;> rfl

/-- `commit` is the call of the code. -/
theorem toLoaded_commit (now : Nat) (hb : st.BelowLast) (request : DenyRequest) :
    LoadedSource.commit now st.toLoaded request =
      (st.commit now request).map (Prod.map id toLoaded) := by
  unfold LoadedSource.commit commit
  rw [prepareCommit_toLoaded now hb]
  cases st.prepareCommit now request with
  | error err => rfl
  | ok outcome => exact toLoaded_applyOutcome hb outcome

/-- `commit_rule` is the call of the code. -/
theorem toLoaded_commitRule (now : Nat) (hb : st.BelowLast) (request : RuleRequest) :
    LoadedSource.commitRule now st.toLoaded request =
      (st.commitRule now request).map (Prod.map id toLoaded) := by
  unfold LoadedSource.commitRule commitRule
  rw [prepareRuleCommit_toLoaded now hb]
  cases st.prepareRuleCommit now request with
  | error err => rfl
  | ok outcome => exact toLoaded_applyOutcome hb outcome

/-! ### Restores -/

/-- The fields of a restore. -/
def Restore.toLoaded (r : Restore) : LoadedSource.Restore := ⟨r.st.toLoaded, r.mutations⟩

theorem toLoaded_commitDirect (hb : st.BelowLast) :
    st.toLoaded.commitDirect m = (st.commitDirect m).map (Prod.map id toLoaded) := by
  unfold LoadedSource.commitDirect commitDirect
  rw [toLoaded_applyCommittedMutation hb]
  cases st.applyCommittedMutation m <;> rfl

theorem toLoaded_commitEntryDirect (now : Nat) (hb : st.BelowLast) (opId : String)
    (entry : DenyEntry) : LoadedSource.commitEntryDirect now st.toLoaded opId entry =
      (st.commitEntryDirect now opId entry).map (Prod.map id toLoaded) := by
  unfold LoadedSource.commitEntryDirect commitEntryDirect
  rw [show st.toLoaded.shardCount = st.shardCount from rfl, nextCommitId_toLoaded hb, ok_bind]
  exact toLoaded_commitDirect hb

theorem toLoaded_commitRuleDirect (now : Nat) (hb : st.BelowLast) (opId : String)
    (rule : RuleEntry) : LoadedSource.commitRuleDirect now st.toLoaded opId rule =
      (st.commitRuleDirect now opId rule).map (Prod.map id toLoaded) := by
  unfold LoadedSource.commitRuleDirect commitRuleDirect
  rw [show st.toLoaded.shardCount = st.shardCount from rfl, nextCommitId_toLoaded hb, ok_bind]
  exact toLoaded_commitDirect hb

variable {clock : Nat → Nat} {ord : IterOrder} {opPrefix : String} {r r' : Restore}

/-- A commit of a restore that ends below the largest number began below it. -/
theorem Restore.toLoaded_commitEntry {entry : DenyEntry}
    (h : r.commitEntry clock opPrefix entry = .ok r') (hb : r'.st.BelowLast) :
    r.toLoaded.commitEntry clock opPrefix entry = .ok r'.toLoaded ∧ r.st.BelowLast := by
  obtain ⟨m, -, hc⟩ := Restore.commitEntry_ok h
  have hb₀ := hb.of_le hc.watermark_le
  refine ⟨?_, hb₀⟩
  unfold Restore.commitEntry at h
  obtain ⟨⟨m', st⟩, hm, h⟩ := bind_eq_ok.mp h
  cases h
  refine bind_eq_ok.mpr ⟨(m', st.toLoaded), ?_, rfl⟩
  exact (toLoaded_commitEntryDirect _ hb₀ _ entry).trans
    (congrArg (Except.map (Prod.map id SourceOfTruth.toLoaded)) hm)

theorem Restore.toLoaded_commitRule {rule : RuleEntry}
    (h : r.commitRule clock opPrefix rule = .ok r') (hb : r'.st.BelowLast) :
    r.toLoaded.commitRule clock opPrefix rule = .ok r'.toLoaded ∧ r.st.BelowLast := by
  obtain ⟨m, -, hc⟩ := Restore.commitRule_ok h
  have hb₀ := hb.of_le hc.watermark_le
  refine ⟨?_, hb₀⟩
  unfold Restore.commitRule at h
  obtain ⟨⟨m', st⟩, hm, h⟩ := bind_eq_ok.mp h
  cases h
  refine bind_eq_ok.mpr ⟨(m', st.toLoaded), ?_, rfl⟩
  exact (toLoaded_commitRuleDirect _ hb₀ _ rule).trans
    (congrArg (Except.map (Prod.map id SourceOfTruth.toLoaded)) hm)

/-- A turn of the loops of a restore: a record is passed over, or committed. -/
theorem Restore.toLoaded_ite {skip : Prop} [Decidable skip] {commit : Result Restore}
    {commit' : Result LoadedSource.Restore}
    (h : (if skip then pure r else commit) = .ok r') (hb : r'.st.BelowLast)
    (hcommit : commit = .ok r' → commit' = .ok r'.toLoaded ∧ r.st.BelowLast) :
    (if skip then pure r.toLoaded else commit') = .ok r'.toLoaded ∧ r.st.BelowLast := by
  by_cases hskip : skip
  · rw [if_pos hskip] at h ⊢
    cases h
    exact ⟨rfl, hb⟩
  · rw [if_neg hskip] at h ⊢
    exact hcommit h

/-- `restore_snapshot` is the call of the code. -/
theorem toLoaded_restoreSnapshot {snapshot : Snapshot}
    (h : st.restoreSnapshot clock ord snapshot opPrefix = .ok r) (hb : r.st.BelowLast) :
    LoadedSource.restoreSnapshot clock ord st.toLoaded snapshot opPrefix = .ok r.toLoaded := by
  let below : Restore → Prop := fun r => r.st.BelowLast
  unfold restoreSnapshot at h
  by_cases hcount : snapshot.shardCount ≠ st.shardCount
  · rw [if_pos hcount] at h
    cases h
  rw [if_neg hcount] at h
  refine (if_neg hcount).trans ?_
  obtain ⟨_, hv, h⟩ := bind_eq_ok.mp h
  refine bind_eq_ok.mpr ⟨_, hv, ?_⟩
  -- from the last loop to the first: below the largest number at its end, and so at its start
  refine (bind_map_of_ok (Q := below ⟨st, []⟩) Restore.toLoaded Restore.toLoaded below h
    (fun r₁ h₁ hb₁ => foldlM_map_of_ok Restore.toLoaded below (fun r r' entry _ hc hb => ?_) h₁ hb₁)
    fun r₁ h => ?_).1
  · exact Restore.toLoaded_ite hc hb fun hc => Restore.toLoaded_commitEntry hc hb
  refine bind_map_of_ok Restore.toLoaded Restore.toLoaded below h
    (fun r₂ h₂ hb₂ => foldlM_map_of_ok Restore.toLoaded below (fun r r' entry _ hc hb => ?_) h₂ hb₂)
    fun r₂ h => ?_
  · dsimp only [Restore.toLoaded, SourceOfTruth.toLoaded]
    cases hcurrent : r.st.entries.lookup entry.aclKey with
    | none =>
      rw [hcurrent] at hc
      exact Restore.toLoaded_commitEntry hc hb
    | some current =>
      rw [hcurrent] at hc
      exact Restore.toLoaded_ite hc hb fun hc => Restore.toLoaded_commitEntry hc hb
  refine bind_map_of_ok Restore.toLoaded Restore.toLoaded below h
    (fun r₃ h₃ hb₃ => foldlM_map_of_ok Restore.toLoaded below (fun r r' rule _ hc hb => ?_) h₃ hb₃)
    fun r₃ h => ?_
  · exact Restore.toLoaded_ite hc hb fun hc => Restore.toLoaded_commitRule hc hb
  refine foldlM_map_of_ok Restore.toLoaded below (fun r r' rule _ hc hb => ?_) h hb
  dsimp only [Restore.toLoaded, SourceOfTruth.toLoaded]
  cases hcurrent : r.st.rules.lookup rule.ruleKey with
  | none =>
    rw [hcurrent] at hc
    exact Restore.toLoaded_commitRule hc hb
  | some current =>
    rw [hcurrent] at hc
    exact Restore.toLoaded_ite hc hb fun hc => Restore.toLoaded_commitRule hc hb

/-! ### Compactions -/

/-- A compaction of the code succeeds if its list of mutations names no other shards. -/
theorem exists_compactMutationHistory_toLoaded {watermarks : List Nat}
    (hlen : watermarks.length = st.shardCount) (hle : ∀ s, watermarks.getD s 0 ≤ st.watermark s)
    (hms : ∀ m ∈ st.mutations, m.shard < st.shardCount) :
    ∃ loaded, st.toLoaded.compactMutationHistory watermarks = .ok loaded := by
  have hcheck : LoadedSource.checkWatermarks watermarks st.toLoaded.watermarks
      (fun compactedSeq watermark => decide (compactedSeq > watermark))
      (fun shardId compactedSeq watermark => .invalidData
        s!"compaction watermark {compactedSeq} exceeds shard {shardId} watermark {watermark}") =
        .ok () := by
    have hslots : watermarks.length ≤ st.toLoaded.watermarks.length :=
      (hlen.trans st.watermarks_length.symm).le
    rw [checkWatermarks_eq _ _ hslots, List.find?_eq_none.mpr]
    intro s _
    rw [decide_eq_true_eq, Nat.not_lt]
    exact hle s
  obtain ⟨mutations, hmutations⟩ := @LoadedSource.exists_filterM _
    (fun m : Mutation => do pure (decide (m.seq > (← index watermarks m.shard)))) st.mutations
    fun m hm => ⟨_, by rw [index_getD (hlen ▸ hms m hm) 0]; rfl⟩
  have hloop : ∀ k, k ≤ watermarks.length → ∃ compacted : List Nat,
      (List.range k).foldlM (fun (compacted : List Nat) shardId => do
        let compactedSeq ← index compacted shardId
        pure (compacted.set shardId (max compactedSeq (watermarks.getD shardId 0))))
        st.compactedWatermarks = (.ok compacted : Result (List Nat)) := by
    intro k hk
    induction k with
    | zero => exact ⟨_, rfl⟩
    | succ k ih =>
      obtain ⟨compacted, hc⟩ := ih (Nat.le_of_succ_le hk)
      have hlength := (LoadedSource.foldlM_compact_ok k hc).1
      rw [List.range_succ, List.foldlM_append, hc, ok_bind, List.foldlM_cons,
        index_getD (by rw [hlength, st.compacted_length]; omega) 0]
      exact ⟨_, rfl⟩
  obtain ⟨compacted, hcompacted⟩ := hloop _ (Nat.le_refl _)
  refine ⟨{ st.toLoaded with mutations, compactedWatermarks := compacted },
    (if_neg (not_not.mpr hlen)).trans (bind_eq_ok.mpr ⟨(), hcheck, ?_⟩)⟩
  exact bind_eq_ok.mpr ⟨mutations, hmutations, bind_eq_ok.mpr ⟨compacted, hcompacted, rfl⟩⟩

/-- `compact_mutation_history` is the call of the code. -/
theorem toLoaded_compactMutationHistory {watermarks : List Nat}
    (h : st.compactMutationHistory watermarks = .ok st')
    (hms : ∀ m ∈ st.mutations, m.shard < st.shardCount) :
    st.toLoaded.compactMutationHistory watermarks = .ok st'.toLoaded := by
  obtain ⟨hle, -, -, hget, -⟩ := compactMutationHistory_ok h
  unfold compactMutationHistory at h
  split at h
  · cases h
  rename_i hlen
  split at h
  · cases h
  cases h
  obtain ⟨loaded, hloaded⟩ :=
    exists_compactMutationHistory_toLoaded (not_not.mp hlen) hle hms
  obtain ⟨-, compacted, hlength, hcompacted, rfl⟩ := LoadedSource.compactMutationHistory_ok hloaded
  have heq : compacted = (List.range st.shardCount).map fun shardId =>
      max (st.compactedWatermark shardId) (watermarks.getD shardId 0) := by
    have hcount : compacted.length = st.shardCount := hlength.trans st.compacted_length
    refine List.ext_getElem (by rw [hcount, List.length_map, List.length_range]) fun s hs _ => ?_
    have hs' := hcompacted s
    rw [List.getD_eq_getElem?_getD, List.getElem?_eq_getElem hs, Option.getD_some] at hs'
    rw [hs', List.getElem_map, List.getElem_range]
    rfl
  rw [hloaded, heq]
  rfl

/-! ### Loads -/

/-- `from_snapshot_and_mutations` is the constructor of the code; the snapshot is below the largest number
too. -/
theorem toLoaded_fromSnapshotAndMutations {n : Nat} {sourceRegion : String} {snapshot : Snapshot}
    {ids mutations : List Mutation}
    (h : fromSnapshotAndMutations n sourceRegion snapshot ids mutations = .ok st')
    (hb : st'.BelowLast) :
    LoadedSource.fromSnapshotAndMutations n sourceRegion snapshot ids mutations = .ok st'.toLoaded ∧
      ∀ s, snapshot.watermarks.getD s 0 + 1 < 2 ^ 64 := by
  unfold fromSnapshotAndMutations at h
  by_cases hcount : snapshot.shardCount ≠ n
  · rw [if_pos hcount] at h
    cases h
  rw [if_neg hcount] at h
  split at h
  · cases h
  rename_i hv
  split at h
  swap
  · cases h
  rename_i hsizes
  obtain ⟨hpos, hlen⟩ := hsizes
  have hload : (ids.foldlM LoadedSource.insertOpIndex
        (ofSnapshot n sourceRegion snapshot snapshot.watermarks hpos hlen hlen).toLoaded >>=
      fun st => (sortBy compareBySlot mutations).foldlM LoadedSource.applyLoadedMutation st) =
        .ok st'.toLoaded ∧
      (ofSnapshot n sourceRegion snapshot snapshot.watermarks hpos hlen hlen).BelowLast := by
    refine bind_map_of_ok toLoaded toLoaded BelowLast h (fun st₁ h₁ hb₁ => ?_) fun st₁ h₁ => ?_
    · refine foldlM_map_of_ok toLoaded BelowLast (fun st st' m _ hi hb => ⟨?_, ?_⟩) h₁ hb₁
      · exact toLoaded_insertOpIndex.trans (congrArg (Except.map toLoaded) hi)
      · exact hb.of_le fun s => ((alike_insertOpIndex hi).watermark s).ge
    · refine foldlM_map_of_ok toLoaded BelowLast (fun st st' m _ hl hb => ?_) h₁ hb
      have hb₀ := hb.of_le (watermark_le_applyLoadedMutation hl)
      exact ⟨(toLoaded_applyLoadedMutation hb₀).trans (congrArg (Except.map toLoaded) hl), hb₀⟩
  refine ⟨(if_neg hcount).trans (bind_eq_ok.mpr ⟨_, hv, ?_⟩), hload.2⟩
  rw [ofSnapshot_toLoaded hpos hlen hlen]
  exact hload.1

end Calls

/-! ## Lives -/

/-- The list of mutations names the shards of the source. -/
def Sharded (st : SourceOfTruth) : Prop := ∀ m ∈ st.mutations, m.shard < st.shardCount

theorem Sharded.record (h : st.Sharded) (hm : m.shard < st.shardCount) : (st.record m).Sharded := by
  intro m' hm'
  rcases List.mem_append.mp hm' with hm' | hm'
  · exact h m' hm'
  · rw [List.mem_singleton.mp hm']
    exact hm

theorem Sharded.run (h : st.Sharded) (hr : Run Commits st ms st') : st'.Sharded := by
  induction hr with
  | refl => exact h
  | tail _ hc ih =>
    obtain ⟨m, -, hn, rfl⟩ := hc
    exact Sharded.record ih hn.shard_lt

theorem Sharded.commitStep (h : st.Sharded) (hc : CommitStep st ms st') : st'.Sharded := by
  cases hc with
  | commit hc => exact h.run (commit_run hc)
  | commitRule hc => exact h.run (commitRule_run hc)
  | restoreSnapshot hc => exact h.run (restoreSnapshot_run hc)
  | setEpoch epoch => exact h
  | compactMutationHistory hc =>
    obtain ⟨-, ha, -, -, hms⟩ := compactMutationHistory_ok hc
    intro m hm
    rw [hms] at hm
    rw [ha.shardCount]
    exact h m (List.mem_of_mem_filter hm)

/-- A step of the life of a source that ends below the largest number is a call of the code. -/
theorem CommitStep.toLoaded (hc : CommitStep st ms st') (h : st.Sharded) (hb : st'.BelowLast) :
    ∃ call, st.toLoaded.call call = st'.toLoaded := by
  have hb₀ := hb.of_le hc.watermark_le
  cases hc with
  | commit hc =>
    rename_i now request outcome
    refine ⟨.commit now request, ?_⟩
    unfold LoadedSource.call
    dsimp only
    rw [toLoaded_commit now hb₀, hc]
    rfl
  | commitRule hc =>
    rename_i now request outcome
    refine ⟨.commitRule now request, ?_⟩
    unfold LoadedSource.call
    dsimp only
    rw [toLoaded_commitRule now hb₀, hc]
    rfl
  | restoreSnapshot hc =>
    rename_i clock ord snapshot opPrefix r
    refine ⟨.restoreSnapshot clock ord snapshot opPrefix, ?_⟩
    unfold LoadedSource.call
    dsimp only
    rw [toLoaded_restoreSnapshot hc hb]
    rfl
  | setEpoch epoch => exact ⟨.setEpoch epoch, rfl⟩
  | compactMutationHistory hc =>
    rename_i watermarks
    refine ⟨.compactMutationHistory watermarks, ?_⟩
    unfold LoadedSource.call
    dsimp only
    rw [toLoaded_compactMutationHistory hc h]
    rfl

theorem Sharded.applyReplicatedMutation {status : ApplyStatus} (h : st.Sharded)
    (hr : st.applyReplicatedMutation m = .ok (status, st')) : st'.Sharded := by
  rcases applyReplicatedMutation_ok hr with ⟨-, rfl⟩ | ⟨-, -, hshard, -, rfl⟩
  · exact h
  · exact h.record hshard

theorem watermark_le_applyReplicatedMutation {status : ApplyStatus}
    (hr : st.applyReplicatedMutation m = .ok (status, st')) (s : Nat) :
    st.watermark s ≤ st'.watermark s := by
  rcases applyReplicatedMutation_ok hr with ⟨-, rfl⟩ | ⟨-, -, hshard, hseq, rfl⟩
  · exact Nat.le_refl _
  · exact watermark_le_record hshard hseq s

theorem sharded_fromSnapshotAndMutations {n : Nat} {sourceRegion : String} {snapshot : Snapshot}
    {ids mutations : List Mutation}
    (h : fromSnapshotAndMutations n sourceRegion snapshot ids mutations = .ok st') :
    st'.Sharded := by
  unfold fromSnapshotAndMutations at h
  split at h
  · cases h
  split at h
  · cases h
  split at h
  · rw [bind_eq_ok] at h
    obtain ⟨st₁, h₁, h⟩ := h
    have hstart : st₁.Sharded := foldlM_invariant (p := Sharded) (fun st st' m _ hs hi => by
      intro m' hm'
      rw [(insertOpIndex_kept hi).2] at hm'
      rw [(alike_insertOpIndex hi).shardCount]
      exact hs m' hm') (fun m hm => by cases hm) h₁
    refine foldlM_invariant (p := Sharded) (fun st st' m _ hs hl => ?_) hstart h
    obtain ⟨-, hcount, -, -, hms⟩ := applyLoadedMutation_spec hl
    intro m' hm'
    rw [hms] at hm'
    rw [hcount]
    rcases List.mem_append.mp hm' with hm' | hm'
    · exact hs m' hm'
    · rw [List.mem_singleton.mp hm']
      obtain ⟨st₂, hc, -⟩ := bind_eq_ok.mp hl
      exact (applyCommittedMutation_ok.mp hc).1
  · cases h

theorem OpRun.sharded {n : Nat} {sourceRegion : String} {applied : List Mutation}
    (h : OpRun n sourceRegion applied st) : st.Sharded := by
  induction h with
  | new => exact fun m hm => by cases hm
  | call _ hc ih => exact ih.commitStep hc
  | applyReplicatedMutation _ hr ih => exact ih.applyReplicatedMutation hr
  | rebuild _ _ _ hr => exact sharded_fromSnapshotAndMutations hr

/-- A life of a source that ends below the largest number is one of the code's source. -/
theorem OpRun.reached {n : Nat} {sourceRegion : String} {applied : List Mutation}
    (h : OpRun n sourceRegion applied st) (hb : st.BelowLast) : st.toLoaded.Reached := by
  induction h with
  | new => exact ⟨n, _, [], .new sourceRegion, rfl⟩
  | call h hc ih =>
    obtain ⟨c, hc'⟩ := hc.toLoaded h.sharded hb
    rw [← hc']
    exact (ih (hb.of_le hc.watermark_le)).call c
  | applyReplicatedMutation h hr ih =>
    rename_i m status
    have hb₀ := hb.of_le (watermark_le_applyReplicatedMutation hr)
    have hc := (ih hb₀).call (.applyReplicatedMutation m)
    unfold LoadedSource.call at hc
    dsimp only at hc
    rw [toLoaded_applyReplicatedMutation hb₀, hr] at hc
    exact hc
  | rebuild _ _ _ hr _ _ =>
    obtain ⟨hload, hw⟩ := toLoaded_fromSnapshotAndMutations hr hb
    refine ⟨_, _, [], .fromSnapshotAndMutations (fun w hmem => ?_) hload, rfl⟩
    obtain ⟨s, hs, rfl⟩ := List.getElem_of_mem hmem
    have := hw s
    rw [List.getD_eq_getElem?_getD, List.getElem?_eq_getElem hs, Option.getD_some] at this
    exact Nat.lt_of_succ_lt this

end SourceOfTruth

end Globacl
