import Globacl.Core.Loading

/-!
# Operation ids (`globacl-core/src/lib/source.rs`)

An operation id is used once in the life of a source: its index knows every mutation that was ever
applied, also those that a compaction took out of the list and those from before a rebuild.

* `OpRun`: the life of a source, with everything that was applied.
* `Tracks`: the invariant. `Tracks.run` and the lemmas around it: what each call makes of it.
* `appliedOnce`: the main result.
-/

namespace Globacl

open Lib

namespace SourceOfTruth

/-- What a replicated mutation adds to the applied ones. -/
def ApplyStatus.added (status : ApplyStatus) (m : Mutation) : List Mutation :=
  match status with
  | .applied => [m]
  | .duplicateOrOld => []

/-- The life of a source that started with `new`, and the mutations that were applied, in order. A
rebuild takes the snapshot and the operations of an earlier moment, when the mutations `before` had
been applied, and the mutations since then in any order. -/
inductive OpRun (shardCount : Nat) (sourceRegion : String) : List Mutation → SourceOfTruth → Prop
  | new : OpRun shardCount sourceRegion [] (new shardCount sourceRegion)
  | call {applied ms : List Mutation} {st st' : SourceOfTruth}
      (h : OpRun shardCount sourceRegion applied st) (hc : CommitStep st ms st') :
      OpRun shardCount sourceRegion (applied ++ ms) st'
  | applyReplicatedMutation {applied : List Mutation} {st st' : SourceOfTruth} {m : Mutation}
      {status : ApplyStatus} (h : OpRun shardCount sourceRegion applied st)
      (hr : st.applyReplicatedMutation m = .ok (status, st')) :
      OpRun shardCount sourceRegion (applied ++ ApplyStatus.added status m) st'
  | rebuild {before since l : List Mutation} {st₀ st st' : SourceOfTruth} {ord ord' : IterOrder}
      {count : Nat} {region : String} (h₀ : OpRun shardCount sourceRegion before st₀)
      (h : OpRun shardCount sourceRegion (before ++ since) st) (hl : l.Perm since)
      (hr : fromSnapshotAndMutations count region (st₀.snapshot ord)
        (st₀.idempotencyMutations ord') l = .ok st') :
      OpRun shardCount sourceRegion (before ++ since) st'

/-- The index holds exactly the applied mutations, and each operation id was applied once. -/
structure Tracks (applied : List Mutation) (st : SourceOfTruth) : Prop where
  indexes : Indexes applied st.opIndex
  once : (applied.map Mutation.opId).Nodup

section Tracks

variable {applied ms : List Mutation} {st st' : SourceOfTruth} {m : Mutation}

theorem Tracks.distinctOps (h : Tracks applied st) : DistinctOps applied :=
  fun _ hm _ hm' hid => List.inj_on_of_nodup_map h.once hm hm' hid

/-- A mutation with a new operation id. -/
theorem Tracks.concat (h : Tracks applied st) (hfresh : m.opId ∉ st.opIndex)
    (hi : st'.opIndex = st.opIndex.insert m.opId m) : Tracks (applied ++ [m]) st' := by
  refine ⟨?_, ?_⟩
  · rw [hi]
    exact h.indexes.insert hfresh
  · rw [List.map_append, List.map_singleton, List.nodup_append]
    refine ⟨h.once, List.nodup_singleton _, fun id hid id' hid' heq => ?_⟩
    obtain ⟨m', hm', rfl⟩ := List.mem_map.mp hid
    rw [List.mem_singleton.mp hid'] at heq
    exact hfresh (HashMap.mem_iff_lookup.mpr ⟨m', (h.indexes _ _).mpr ⟨hm', heq⟩⟩)

theorem Tracks.run (h : Tracks applied st) (hr : Run Commits st ms st') :
    Tracks (applied ++ ms) st' :=
  hr.invariant (I := Tracks) (fun _ _ _ _ hk hc => by
    obtain ⟨m, rfl, hn, rfl⟩ := hc
    exact hk.concat hn.fresh rfl) h

theorem Tracks.commitStep (h : Tracks applied st) (hc : CommitStep st ms st') :
    Tracks (applied ++ ms) st' := by
  cases hc with
  | commit hc => exact h.run (commit_run hc)
  | commitRule hc => exact h.run (commitRule_run hc)
  | restoreSnapshot hc => exact h.run (restoreSnapshot_run hc)
  | setEpoch epoch =>
    rw [List.append_nil]
    exact ⟨h.indexes, h.once⟩
  | compactMutationHistory hc =>
    obtain ⟨-, -, hi, -⟩ := compactMutationHistory_ok hc
    rw [List.append_nil]
    exact ⟨by rw [hi]; exact h.indexes, h.once⟩

theorem Tracks.applyReplicatedMutation {status : ApplyStatus} (h : Tracks applied st)
    (hr : st.applyReplicatedMutation m = .ok (status, st')) :
    Tracks (applied ++ ApplyStatus.added status m) st' := by
  have hkeep : Tracks (applied ++ ApplyStatus.added .duplicateOrOld m) st := by
    show Tracks (applied ++ []) st
    rwa [List.append_nil]
  unfold SourceOfTruth.applyReplicatedMutation at hr
  split at hr
  · split at hr
    · cases hr; exact hkeep
    · cases hr
  rename_i hnone
  split at hr
  · cases hr
  split at hr
  · split at hr
    · cases hr; exact hkeep
    · cases hr
  split at hr
  · cases hr
  · rename_i st₁ hc
    cases hr
    obtain ⟨-, -, rfl⟩ := applyCommittedMutation_ok.mp hc
    exact h.concat (HashMap.not_mem_iff_lookup.mpr hnone) rfl

/-- A loop of loads indexes what it loads. -/
theorem indexes_foldlM_applyLoadedMutation {l : List Mutation} :
    ∀ {ms : List Mutation} {st : SourceOfTruth}, Indexes ms st.opIndex → DistinctOps (ms ++ l) →
      l.foldlM SourceOfTruth.applyLoadedMutation st = .ok st' → Indexes (ms ++ l) st'.opIndex := by
  induction l with
  | nil =>
    intro ms st hi _ hl
    cases hl
    rwa [List.append_nil]
  | cons m l ih =>
    intro ms st hi hid hl
    rw [List.append_cons] at hid ⊢
    simp only [List.foldlM_cons, SourceOfTruth.applyLoadedMutation, bind_eq_ok] at hl
    obtain ⟨_, ⟨st₁, h₁, st₂, h₂, h₃⟩, hl⟩ := hl
    cases h₃
    obtain ⟨-, -, rfl⟩ := applyCommittedMutation_ok.mp h₁
    obtain ⟨opIndex, hk, hins, hi'⟩ :=
      @insertOpIndex_ok _ (st.advance m) m hi (hid.mono (List.subset_append_left _ l))
    cases h₂.symm.trans hins
    exact @ih _ (((st.advance m).reindex opIndex hk).pushMutation m) hi' hid hl

/-- A rebuild indexes the operations up to the snapshot and the mutations since. -/
theorem Tracks.rebuild {before since l : List Mutation} {st₀ : SourceOfTruth} {ord ord' : IterOrder}
    {count : Nat} {region : String} (h₀ : Tracks before st₀) (h : Tracks (before ++ since) st)
    (hl : l.Perm since)
    (hr : fromSnapshotAndMutations count region (st₀.snapshot ord) (st₀.idempotencyMutations ord') l =
      .ok st') : Tracks (before ++ since) st' := by
  refine ⟨?_, h.once⟩
  have hids : ∀ m, m ∈ st₀.idempotencyMutations ord' ↔ m ∈ before := fun m => by
    rw [idempotencyMutations, mem_sortBy, st₀.opIndex_keyed.mem_values, h₀.indexes]
    exact and_iff_left rfl
  have hmem : ∀ m, m ∈ st₀.idempotencyMutations ord' ++ sortBy compareBySlot l ↔
      m ∈ before ++ since := fun m => by
    rw [List.mem_append, List.mem_append, hids, mem_sortBy, hl.mem_iff]
  have hid : DistinctOps (st₀.idempotencyMutations ord' ++ sortBy compareBySlot l) :=
    h.distinctOps.mono fun m hm => (hmem m).mp hm
  unfold fromSnapshotAndMutations at hr
  split at hr
  · cases hr
  split at hr
  · cases hr
  split at hr
  · rw [bind_eq_ok] at hr
    obtain ⟨st₁, h₁, hr⟩ := hr
    obtain ⟨opIndex, hk, hfold, hi⟩ := @foldlM_insertOpIndex _ _
      (ofSnapshot count region (st₀.snapshot ord) _ _ _ _) indexes_nil
      (hid.mono (List.subset_append_left _ _))
    cases h₁.symm.trans hfold
    exact (indexes_foldlM_applyLoadedMutation hi hid hr).congr fun m => (hmem m).symm
  · cases hr

/-- Whatever happened to a source, its index is up to date. -/
theorem OpRun.tracks {shardCount : Nat} {sourceRegion : String}
    (h : OpRun shardCount sourceRegion applied st) : Tracks applied st := by
  induction h with
  | new => exact ⟨indexes_nil, List.nodup_nil⟩
  | call _ hc ih => exact ih.commitStep hc
  | applyReplicatedMutation _ hr ih => exact ih.applyReplicatedMutation hr
  | rebuild _ _ hl hr ih₀ ih => exact ih₀.rebuild ih hl hr

/-- A commit with an operation id of the index only reports what the id stands for. -/
theorem commit_duplicate {now : Nat} {request : DenyRequest} (hid : trim request.opId ≠ "")
    (hm : st.opIndex.lookup request.opId = some m) : st.commit now request = .ok (⟨m, true⟩, st) := by
  have hp : st.prepareCommit now request = .ok ⟨m, true⟩ := by
    rw [prepareCommit, if_neg hid, hm]
  rw [SourceOfTruth.commit, hp]
  rfl

theorem commitRule_duplicate {now : Nat} {request : RuleRequest} (hid : trim request.opId ≠ "")
    (hm : st.opIndex.lookup request.opId = some m) :
    st.commitRule now request = .ok (⟨m, true⟩, st) := by
  have hp : st.prepareRuleCommit now request = .ok ⟨m, true⟩ := by
    rw [prepareRuleCommit, if_neg hid, hm]
  rw [SourceOfTruth.commitRule, hp]
  rfl

end Tracks

/-- An operation id takes effect at most once in the life of a source. To commit a point or a rule
with an id that was ever applied, unless it is blank, returns the original mutation as a duplicate and
changes nothing. -/
theorem appliedOnce {shardCount : Nat} {sourceRegion : String} {applied : List Mutation}
    {st : SourceOfTruth} (h : OpRun shardCount sourceRegion applied st) :
    (applied.map Mutation.opId).Nodup ∧ ∀ m ∈ applied, trim m.opId ≠ "" →
      (∀ (now : Nat) (request : DenyRequest), request.opId = m.opId →
        st.commit now request = .ok (⟨m, true⟩, st)) ∧
      ∀ (now : Nat) (request : RuleRequest), request.opId = m.opId →
        st.commitRule now request = .ok (⟨m, true⟩, st) := by
  refine ⟨h.tracks.once, fun m hm hid => ⟨fun now request heq => ?_, fun now request heq => ?_⟩⟩
  · exact commit_duplicate (by rwa [heq]) (by rw [heq]; exact (h.tracks.indexes _ _).mpr ⟨hm, rfl⟩)
  · exact commitRule_duplicate (by rwa [heq])
      (by rw [heq]; exact (h.tracks.indexes _ _).mpr ⟨hm, rfl⟩)

/-! A mutation with a blank operation id comes from another node; no client can commit its id again. -/

namespace BlankId

def entry : DenyEntry :=
  { tenantId := "acme", namespace' := "user", keyHash := stableKeyHash "acme" "user" "ann",
    action := .deny, priority := 1, reasonCode := "abuse", expiresAt := 0, createdBy := "admin",
    commitSeq := 1, shardId := 0 }

def replicated (opId : String) : Mutation :=
  { opId, commitId := ⟨0, 1, 1, "eu"⟩, entry, rule := none, deliveryPriority := .p0,
    committedAtUnix := 100 }

def request (opId key : String) : DenyRequest :=
  { opId, tenantId := "acme", namespace' := "user", key, action := .deny, priority := 1,
    reasonCode := "abuse", expiresAt := 0, createdBy := "admin", deliveryPriority := .p0 }

/-- The mutation with this operation id is the first one that a source applies. -/
theorem replicated_run (opId : String) : ∃ st, OpRun 1 "eu" [replicated opId] st := by
  have happly : (SourceOfTruth.new 1 "eu").applyReplicatedMutation (replicated opId) =
      .ok (.applied, (SourceOfTruth.new 1 "eu").record (replicated opId)) := rfl
  exact ⟨_, OpRun.new.applyReplicatedMutation happly⟩

end BlankId

theorem appliedOnce_not_blank :
    ¬∀ (shardCount : Nat) (sourceRegion : String) (applied : List Mutation) (st : SourceOfTruth),
      OpRun shardCount sourceRegion applied st →
      (applied.map Mutation.opId).Nodup ∧ ∀ m ∈ applied,
        (∀ (now : Nat) (request : DenyRequest), request.opId = m.opId →
          st.commit now request = .ok (⟨m, true⟩, st)) ∧
        ∀ (now : Nat) (request : RuleRequest), request.opId = m.opId →
          st.commitRule now request = .ok (⟨m, true⟩, st) := by
  intro hall
  obtain ⟨st, h⟩ := BlankId.replicated_run " "
  obtain ⟨-, hdup⟩ := hall 1 "eu" _ st h
  have := (hdup _ List.mem_cons_self).1 100 (BlankId.request " " "ann") rfl
  have htrim : trim (BlankId.request " " "ann").opId = "" := by decide
  rw [SourceOfTruth.commit, prepareCommit, if_pos htrim] at this
  cases this

/-- A commit, a second one, a compaction of both, and a rebuild from the snapshot between them. -/
def rebuiltSource : Result (CommitOutcome × SourceOfTruth × CommitOutcome × SourceOfTruth ×
    SourceOfTruth × SourceOfTruth) := do
  let (first, st₀) ← (new 1 "eu").commit 0 (BlankId.request "op-1" "ann")
  let (second, st₁) ← st₀.commit 0 (BlankId.request "op-2" "bob")
  let st₂ ← st₁.compactMutationHistory [2]
  let st₃ ← fromSnapshotAndMutations 1 "eu" (st₀.snapshot .given) (st₀.idempotencyMutations .given)
    [second.mutation]
  pure (first, st₀, second, st₁, st₂, st₃)

theorem appliedOnce_rebuilt : ∃ (applied : List Mutation) (st : SourceOfTruth),
    OpRun 1 "eu" applied st ∧ (applied.map Mutation.opId).Nodup ∧
      ∃ m ∈ applied, st.commit 9 (BlankId.request "op-1" "eve") = .ok (⟨m, true⟩, st) := by
  have hrun : (rebuiltSource.map fun (first, _, second, _) =>
      (first.duplicate, first.mutation.opId, second.duplicate)) = .ok (false, "op-1", false) := by
    decide +kernel
  obtain ⟨⟨_, _, _, _, _, _⟩, hrun, hres⟩ := map_eq_ok.mp hrun
  simp only [rebuiltSource, bind_eq_ok] at hrun
  obtain ⟨⟨first, st₀⟩, h₀, ⟨second, st₁⟩, h₁, st₂, h₂, st₃, h₃, hrun⟩ := hrun
  cases hrun
  obtain ⟨hd₀, hid, hd₁⟩ : first.duplicate = false ∧ first.mutation.opId = "op-1" ∧
      second.duplicate = false := by simpa only [Prod.mk.injEq] using hres
  have hfirst := OpRun.call .new (.commit h₀)
  have hcompacted := (hfirst.call (.commit h₁)).call (.compactMutationHistory h₂)
  rw [List.append_nil] at hcompacted
  have h := hfirst.rebuild hcompacted (l := [second.mutation]) (by rw [hd₁]; exact .refl _) h₃
  obtain ⟨hnodup, honce⟩ := appliedOnce h
  have hmem : first.mutation ∈ ([] ++ if first.duplicate then [] else [first.mutation]) ++
      if second.duplicate then [] else [second.mutation] := by
    rw [hd₀]
    exact List.mem_append_left _ (List.mem_singleton_self _)
  have hblank : trim first.mutation.opId ≠ "" := by
    rw [hid]
    decide
  exact ⟨_, _, h, hnodup, _, hmem, (honce _ hmem hblank).1 9 _ hid.symm⟩

end SourceOfTruth

end Globacl
