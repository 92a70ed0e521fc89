import Globacl.Commitd.Storage
import Globacl.Core.Loaded

/-!
# What a start does with arbitrary files (`globacl-commitd/src/app/commit.rs`)

`load_source_of_truth` on records of any content. The branches check the shard of a logged record
before they use it, except one: without a publisher, the filter for the mutations after the snapshot
looks up the watermark of the shard that the record names.

* `returns_fromMutations`, `returns_fromSnapshotAndMutations`, `returns_retainedHistory`: the
  loaders return on records of any content.
* `load_returns_iff`: a start returns, and keeps mutations of its shards only, exactly when the
  records that reach the filter name shards of the snapshot.
* `load_toLoaded`: on files without such records and with numbers below the largest, a start loads
  the source of `loadSourceOfTruth`.
-/

namespace Globacl

open Lib

namespace LoadedSource

/-- The first attempt of `load_source_of_truth` with a publisher. -/
def replayCompleteLogs (shardCount : Nat) (clusterId : String) (snapshot : Snapshot)
    (logMutations : List Mutation) : Result (Option LoadedSource) :=
  if logMutations.isEmpty then .ok none
  else do
    match ← caught (fromMutations shardCount clusterId logMutations) with
    | some replayed =>
      pure (if replayed.watermarks = snapshot.watermarks then some replayed else none)
    | none => pure none

/-- `load_source_of_truth`. -/
def load (disk : Disk) (shardCount : Nat) (clusterId : String)
    (publisherOffsets : Option (List Nat)) : Result LoadedSource :=
  let allLogMutations := loadAllLogs disk shardCount
  match disk.snapshot with
  | none => fromMutations shardCount clusterId allLogMutations
  | some snapshot => do
    snapshot.validate
    if snapshot.shardCount ≠ shardCount then
      .error (.invalidData
        s!"snapshot shard_count {snapshot.shardCount} does not match configured {shardCount}")
    else
      let idempotencyMutations :=
        match disk.idempotency with
        | some mutations => mutations ++ allLogMutations
        | none => allLogMutations
      match publisherOffsets with
      | some publisherOffsets => do
        match ← replayCompleteLogs shardCount clusterId snapshot allLogMutations with
        | some replayed => pure replayed
        | none =>
          if publisherOffsets.length ≠ shardCount then
            .error (.invalidData
              s!"publisher offsets has {publisherOffsets.length} watermarks for {shardCount} shards")
          else
            let compactedWatermarks := List.zipWith min publisherOffsets snapshot.watermarks
            fromSnapshotAndRetainedHistory shardCount clusterId snapshot idempotencyMutations
              allLogMutations compactedWatermarks
      | none => do
        let tail ← tailMutations snapshot.watermarks allLogMutations
        fromSnapshotAndMutations shardCount clusterId snapshot idempotencyMutations tail

/-! ## The loaders return -/

/-- What the steps of a loader need and keep: the `n` shards have watermarks, and the mutations so
far are of these shards. -/
structure Kept (n : Nat) (st : LoadedSource) : Prop where
  shardCount : st.shardCount = max n 1
  watermarks : n ≤ st.watermarks.length
  shard : ∀ m ∈ st.mutations, m.shard < n

/-- A mutation that passes the check of its shard has a watermark. Without shards there is one shard
all the same, which has none. -/
def Addressed (n : Nat) (m : Mutation) : Prop := m.shard < max n 1 → m.shard < n

section Kept

variable {n : Nat} {st st' : LoadedSource} {m : Mutation}

theorem Kept.applyCommittedMutation (h : Kept n st) (hm : Addressed n m) :
    Returns (st.applyCommittedMutation m) := by
  unfold LoadedSource.applyCommittedMutation
  split
  · exact returns_error (returned_invalidData _)
  · rename_i hlt
    have hshard : m.shard < n := hm (h.shardCount ▸ Nat.lt_of_not_le hlt)
    rw [index_getD (Nat.lt_of_lt_of_le hshard h.watermarks) 0, ok_bind]
    dsimp only
    split
    · exact returns_error (returned_gap _ _ _)
    · exact returns_ok _

theorem returns_insertOpIndex : Returns (st.insertOpIndex m) := by
  unfold insertOpIndex
  split
  · split
    · exact returns_ok _
    · exact returns_error (returned_invalidData _)
  · exact returns_ok _

theorem Kept.insertOpIndex (h : Kept n st) (hi : st.insertOpIndex m = .ok st') : Kept n st' := by
  rcases insertOpIndex_ok hi with rfl | rfl
  · exact h
  · exact ⟨h.shardCount, h.watermarks, h.shard⟩

theorem Kept.pushMutation (h : Kept n st) (hm : m.shard < n) : Kept n (st.pushMutation m) := by
  refine ⟨h.shardCount, h.watermarks, fun m' hm' => ?_⟩
  rcases List.mem_append.mp hm' with hm' | hm'
  · exact h.shard m' hm'
  · rw [List.mem_singleton.mp hm']
    exact hm

/-- A step of the loop that applies mutations. -/
theorem Kept.applyLoadedMutation (h : Kept n st) (hm : Addressed n m) :
    Returns (st.applyLoadedMutation m) ∧
      ∀ st', st.applyLoadedMutation m = .ok st' → Kept n st' := by
  constructor
  · exact (h.applyCommittedMutation hm).bind fun _ _ =>
      returns_insertOpIndex.bind fun _ _ => returns_ok _
  · intro st' hl
    simp only [LoadedSource.applyLoadedMutation, bind_eq_ok] at hl
    obtain ⟨st₁, h₁, st₂, h₂, hl⟩ := hl
    obtain ⟨hlt, rfl⟩ := applyCommittedMutation_ok h₁
    cases hl
    have hadv : Kept n (st.advance m) :=
      ⟨h.shardCount, Nat.le_trans h.watermarks (Nat.le_of_eq List.length_set.symm), h.shard⟩
    exact (hadv.insertOpIndex h₂).pushMutation (hm (h.shardCount ▸ hlt))

theorem Kept.foldlM_applyLoadedMutation {l : List Mutation} (h : Kept n st)
    (hl : ∀ m ∈ l, Addressed n m) :
    Returns (l.foldlM LoadedSource.applyLoadedMutation st) ∧
      ∀ st', l.foldlM LoadedSource.applyLoadedMutation st = .ok st' → Kept n st' :=
  ⟨returns_foldlM (Kept n) (fun _ hs m hm => hs.applyLoadedMutation (hl m hm)) h,
    fun _ hf => foldlM_invariant (p := Kept n)
      (fun _ _ m hm hs hr => (hs.applyLoadedMutation (hl m hm)).2 _ hr) h hf⟩

theorem Kept.foldlM_insertOpIndex {l : List Mutation} (h : Kept n st) :
    Returns (l.foldlM LoadedSource.insertOpIndex st) ∧
      ∀ st', l.foldlM LoadedSource.insertOpIndex st = .ok st' → Kept n st' :=
  ⟨returns_foldlM (Kept n)
      (fun _ hs _ _ => ⟨returns_insertOpIndex, fun _ hi => hs.insertOpIndex hi⟩) h,
    fun _ hf => foldlM_invariant (p := Kept n) (fun _ _ _ _ hs hi => hs.insertOpIndex hi) h hf⟩

theorem kept_ofSnapshot {sourceRegion : String} {snapshot : Snapshot} {compacted : List Nat}
    (hlen : snapshot.watermarks.length = n) :
    Kept n (ofSnapshot n sourceRegion snapshot compacted) :=
  ⟨rfl, Nat.le_of_eq hlen.symm, fun _ hm => by cases hm⟩

/-- The logs alone. -/
theorem fromMutations_returns (sourceRegion : String) {mutations : List Mutation}
    (hl : ∀ m ∈ mutations, Addressed n m) :
    Returns (fromMutations n sourceRegion mutations) ∧
      ∀ st, fromMutations n sourceRegion mutations = .ok st → Kept n st := by
  have hnew : Kept n (new n sourceRegion) :=
    ⟨rfl, by simp only [new, List.length_replicate]; omega, fun _ hm => by cases hm⟩
  exact hnew.foldlM_applyLoadedMutation fun m hm => hl m (mem_sortBy.mp hm)

theorem returns_validate (snapshot : Snapshot) : Returns snapshot.validate := by
  intro err herr
  obtain ⟨message, rfl⟩ := Snapshot.validate_error herr
  exact returned_invalidData message

/-- A snapshot and later mutations. -/
theorem fromSnapshotAndMutations_returns (sourceRegion : String) (snapshot : Snapshot)
    (idempotencyMutations : List Mutation) {mutations : List Mutation}
    (hl : ∀ m ∈ mutations, Addressed n m) :
    Returns (fromSnapshotAndMutations n sourceRegion snapshot idempotencyMutations mutations) ∧
      ∀ st, fromSnapshotAndMutations n sourceRegion snapshot idempotencyMutations mutations =
        .ok st → Kept n st := by
  unfold fromSnapshotAndMutations
  by_cases hcount : snapshot.shardCount ≠ n
  · rw [if_pos hcount]
    exact ⟨returns_error (returned_invalidData _), fun _ h => by cases h⟩
  rw [if_neg hcount]
  cases hv : snapshot.validate with
  | error err => exact ⟨returns_error (returns_validate snapshot err hv), fun _ h => by cases h⟩
  | ok _ =>
    have hlen := (Snapshot.validate_ok hv).trans (not_not.mp hcount)
    rw [ok_bind]
    obtain ⟨hret, hkept⟩ := (kept_ofSnapshot hlen).foldlM_insertOpIndex (l := idempotencyMutations)
    have hsort : ∀ m ∈ sortBy SourceOfTruth.compareBySlot mutations, Addressed n m := fun m hm =>
      hl m (mem_sortBy.mp hm)
    refine ⟨hret.bind fun st hst => ((hkept st hst).foldlM_applyLoadedMutation hsort).1,
      fun st hst => ?_⟩
    rw [bind_eq_ok] at hst
    obtain ⟨st₁, h₁, hst⟩ := hst
    exact ((hkept st₁ h₁).foldlM_applyLoadedMutation hsort).2 st hst

/-- A step of the loop over the retained mutations, with the numbers that it expects. -/
theorem Kept.retainMutation {acc : LoadedSource × List Nat} (h : Kept n acc.1)
    (he : acc.2.length = n) (m : Mutation) :
    Returns (LoadedSource.retainMutation n acc m) ∧
      ∀ acc', LoadedSource.retainMutation n acc m = .ok acc' →
        Kept n acc'.1 ∧ acc'.2.length = n := by
  obtain ⟨st, expectedHistorySeq⟩ := acc
  dsimp only at h he
  unfold LoadedSource.retainMutation
  dsimp only
  by_cases hs : m.shard ≥ n
  · rw [if_pos hs]
    exact ⟨returns_error (returned_invalidData _), fun _ h => by cases h⟩
  have hlt : m.shard < n := Nat.lt_of_not_le hs
  rw [if_neg hs, index_getD (he ▸ hlt) 0, ok_bind]
  split
  · exact ⟨returns_error (returned_gap _ _ _), fun _ h => by cases h⟩
  rw [index_getD (Nat.lt_of_lt_of_le hlt h.watermarks) 0, ok_bind]
  split
  · refine ⟨returns_insertOpIndex.bind fun _ _ => returns_ok _, fun acc' hacc => ?_⟩
    simp only [bind_eq_ok] at hacc
    obtain ⟨st₁, h₁, st₂, h₂, hacc⟩ := hacc
    cases h₂
    cases hacc
    exact ⟨(h.insertOpIndex h₁).pushMutation hlt, List.length_set.trans he⟩
  · obtain ⟨hret, hkept⟩ := h.applyLoadedMutation (fun _ => hlt : Addressed n m)
    refine ⟨hret.bind fun _ _ => returns_ok _, fun acc' hacc => ?_⟩
    rw [bind_eq_ok] at hacc
    obtain ⟨st₁, h₁, hacc⟩ := hacc
    cases hacc
    exact ⟨hkept st₁ h₁, List.length_set.trans he⟩

theorem returns_checkWatermarks {seqs watermarks : List Nat} {fails : Nat → Nat → Bool}
    {err : Nat → Nat → Nat → GlobAclError} (h : seqs.length ≤ watermarks.length)
    (herr : ∀ s seq watermark, Returned (err s seq watermark)) :
    Returns (checkWatermarks seqs watermarks fails err) := by
  rw [SourceOfTruth.checkWatermarks_eq fails err h]
  split
  · exact returns_error (herr _ _ _)
  · exact returns_ok _

/-- A snapshot and the retained history, of any shards. -/
theorem fromSnapshotAndRetainedHistory_returns (sourceRegion : String) (snapshot : Snapshot)
    (idempotencyMutations retainedMutations : List Mutation) (compactedWatermarks : List Nat) :
    Returns (fromSnapshotAndRetainedHistory n sourceRegion snapshot idempotencyMutations
        retainedMutations compactedWatermarks) ∧
      ∀ st, fromSnapshotAndRetainedHistory n sourceRegion snapshot idempotencyMutations
        retainedMutations compactedWatermarks = .ok st → Kept n st := by
  unfold fromSnapshotAndRetainedHistory
  by_cases hcount : snapshot.shardCount ≠ n
  · rw [if_pos hcount]
    exact ⟨returns_error (returned_invalidData _), fun _ h => by cases h⟩
  rw [if_neg hcount]
  cases hv : snapshot.validate with
  | error err => exact ⟨returns_error (returns_validate snapshot err hv), fun _ h => by cases h⟩
  | ok _ =>
    have hlen := (Snapshot.validate_ok hv).trans (not_not.mp hcount)
    rw [ok_bind]
    by_cases hcomp : compactedWatermarks.length ≠ n
    · rw [if_pos hcomp]
      exact ⟨returns_error (returned_invalidData _), fun _ h => by cases h⟩
    rw [if_neg hcomp]
    have hcomp' := not_not.mp hcomp
    have hcheck : Returns (checkCompacted snapshot compactedWatermarks) :=
      returns_checkWatermarks (Nat.le_of_eq (hcomp'.trans hlen.symm)) fun _ _ _ =>
        returned_invalidData _
    have hstart : Kept n (ofSnapshot n sourceRegion snapshot compactedWatermarks) :=
      kept_ofSnapshot hlen
    obtain ⟨hret, hkept⟩ := hstart.foldlM_insertOpIndex (l := idempotencyMutations)
    have hloop : ∀ st₁ : LoadedSource, Kept n st₁ →
        Returns ((sortBy SourceOfTruth.compareBySlot retainedMutations).foldlM
          (LoadedSource.retainMutation n) (st₁, compactedWatermarks)) ∧
        ∀ acc, (sortBy SourceOfTruth.compareBySlot retainedMutations).foldlM
          (LoadedSource.retainMutation n) (st₁, compactedWatermarks) = .ok acc →
          Kept n acc.1 ∧ acc.2.length = n := fun st₁ h₁ =>
      ⟨returns_foldlM (fun acc : LoadedSource × List Nat => Kept n acc.1 ∧ acc.2.length = n)
          (fun _ hacc m _ => hacc.1.retainMutation hacc.2 m) ⟨h₁, hcomp'⟩,
        fun _ hf => foldlM_invariant
          (p := fun acc : LoadedSource × List Nat => Kept n acc.1 ∧ acc.2.length = n)
          (fun _ _ m _ hacc hr => (hacc.1.retainMutation hacc.2 m).2 _ hr) ⟨h₁, hcomp'⟩ hf⟩
    constructor
    · refine hcheck.bind fun _ _ => hret.bind fun st₁ h₁ => ?_
      obtain ⟨hretained, hacc⟩ := hloop st₁ (hkept st₁ h₁)
      refine hretained.bind fun acc hf => ?_
      obtain ⟨hkept₂, hlen₂⟩ := hacc acc hf
      exact (returns_checkWatermarks (hlen₂ ▸ hkept₂.watermarks) fun _ _ _ =>
        returned_gap _ _ _).bind fun _ _ => returns_ok _
    · intro st hst
      simp only [bind_eq_ok] at hst
      obtain ⟨-, -, st₁, h₁, acc, hf, -, -, hst⟩ := hst
      cases hst
      exact ((hloop st₁ (hkept st₁ h₁)).2 acc hf).1

end Kept

/-! ## The start -/

theorem addressed_loadAllLogs (disk : Disk) (n : Nat) :
    ∀ m ∈ loadAllLogs disk n, Addressed n m := by
  intro m hm hlt
  rcases Nat.eq_zero_or_pos n with rfl | hpos
  · cases hm
  · rwa [Nat.max_eq_left hpos] at hlt

/-- With a publisher, the complete logs are tried first. -/
theorem replayCompleteLogs_returns {n : Nat} {clusterId : String} {snapshot : Snapshot}
    {logMutations : List Mutation} (hl : ∀ m ∈ logMutations, Addressed n m) :
    ∃ complete, replayCompleteLogs n clusterId snapshot logMutations = .ok complete ∧
      ∀ st, complete = some st → Kept n st := by
  unfold replayCompleteLogs
  split
  · exact ⟨none, rfl, fun _ h => by cases h⟩
  obtain ⟨hret, hkept⟩ := fromMutations_returns clusterId hl
  cases hf : fromMutations n clusterId logMutations with
  | ok replayed =>
    refine ⟨_, rfl, fun st hst => ?_⟩
    split at hst
    · cases hst
      exact hkept replayed hf
    · cases hst
  | error err =>
    cases err with
    | panicked message => exact absurd rfl (hret _ hf message)
    | io | parse | invalidData | gap => exact ⟨none, rfl, fun _ h => by cases h⟩

/-- The records that reach the filter of the mutations after the snapshot. -/
def Filtered (disk : Disk) (n : Nat) (publisherOffsets : Option (List Nat)) (m : Mutation) : Prop :=
  (∃ snapshot, disk.snapshot = some snapshot ∧ snapshot.validate = .ok () ∧
    snapshot.shardCount = n) ∧ publisherOffsets = none ∧ m ∈ loadAllLogs disk n

/-- A start on files of any content returns, with a source whose retained mutations are of its
shards or with an error, exactly when each record that reaches the filter names a shard. -/
theorem load_returns_iff (disk : Disk) (n : Nat) (clusterId : String)
    (publisherOffsets : Option (List Nat)) :
    ((∀ message, load disk n clusterId publisherOffsets ≠ .error (.panicked message)) ∧
        ∀ st, load disk n clusterId publisherOffsets = .ok st → ∀ m ∈ st.mutations, m.shard < n) ↔
      ∀ m, Filtered disk n publisherOffsets m → m.shard < n := by
  have hlogs := addressed_loadAllLogs disk n
  -- what the loaders give is what is claimed
  have hfine : ∀ {result : Result LoadedSource},
      Returns result ∧ (∀ st, result = .ok st → Kept n st) →
      (∀ message, result ≠ .error (.panicked message)) ∧
        ∀ st, result = .ok st → ∀ m ∈ st.mutations, m.shard < n := fun ⟨hret, hkept⟩ =>
    ⟨fun message h => hret _ h message rfl, fun st hst => (hkept st hst).shard⟩
  unfold load Filtered
  cases hsnap : disk.snapshot with
  | none =>
    refine iff_of_true (hfine (fromMutations_returns clusterId hlogs)) fun m hm => ?_
    obtain ⟨⟨snapshot, hs, -⟩, -⟩ := hm
    cases hs
  | some snapshot =>
    dsimp only
    cases hv : snapshot.validate with
    | error err =>
      refine iff_of_true (hfine ⟨returns_error (returns_validate snapshot err hv),
        fun _ h => by cases h⟩) fun m hm => ?_
      obtain ⟨⟨snapshot', hs, hv', -⟩, -⟩ := hm
      cases hs
      cases hv.symm.trans hv'
    | ok _ =>
    rw [ok_bind]
    by_cases hcount : snapshot.shardCount ≠ n
    · rw [if_pos hcount]
      refine iff_of_true (hfine ⟨returns_error (returned_invalidData _), fun _ h => by cases h⟩)
        fun m hm => ?_
      obtain ⟨⟨snapshot', hs, -, hn⟩, -⟩ := hm
      cases hs
      exact absurd hn hcount
    rw [if_neg hcount]
    have hlen := (Snapshot.validate_ok hv).trans (not_not.mp hcount)
    cases publisherOffsets with
    | some offsets =>
      refine iff_of_true (hfine ?_) fun m hm => nomatch hm.2.1
      obtain ⟨complete, hcomplete, hkept⟩ :=
        @replayCompleteLogs_returns n clusterId snapshot (loadAllLogs disk n) hlogs
      dsimp only
      rw [hcomplete, ok_bind]
      cases complete with
      | some replayed =>
        exact ⟨returns_ok _, fun st hst => by cases hst; exact hkept replayed rfl⟩
      | none =>
        dsimp only
        split
        · exact ⟨returns_error (returned_invalidData _), fun _ h => by cases h⟩
        · exact fromSnapshotAndRetainedHistory_returns clusterId snapshot _ _ _
    | none =>
      dsimp only
      by_cases hall : ∀ m ∈ loadAllLogs disk n, m.shard < n
      · rw [tailMutations_eq (hlen.symm ▸ hall), ok_bind]
        refine iff_of_true (hfine (fromSnapshotAndMutations_returns clusterId snapshot _ ?_))
          fun m hm => hall m hm.2.2
        exact fun m hm => hlogs m (List.mem_of_mem_filter hm)
      · simp only [not_forall] at hall
        obtain ⟨m, hm, hout⟩ := hall
        rw [tailMutations_of_not ⟨m, hm, hlen.symm ▸ hout⟩]
        have hfiltered : ∃ s, some snapshot = some s ∧ s.validate = .ok () ∧ s.shardCount = n :=
          ⟨snapshot, rfl, hv, not_not.mp hcount⟩
        exact iff_of_false (fun h => h.1 _ rfl) fun h => hout (h m ⟨hfiltered, rfl, hm⟩)

/-- The files of a node with one shard whose log holds a record of another shard. -/
def misfiled : Disk :=
  { Disk.empty with
    logs := fun s => if s = 0 then [⟨"op-1", ⟨1, 1, 1, "eu"⟩,
      ⟨"acme", "users", 1, .deny, 1, "abuse", 0, "ops", 1, 1⟩, none, .p1, 0⟩] else []
    snapshot := some ⟨1, [0], [], []⟩ }

/-- A logged record of a shard that does not exist makes a start panic. -/
theorem not_load_returns :
    ¬∀ disk n clusterId publisherOffsets message,
      load disk n clusterId publisherOffsets ≠ .error (.panicked message) := by
  intro h
  have hpanic : load misfiled 1 "cluster" none = .error indexOutOfBounds := rfl
  exact h _ _ _ _ _ hpanic

/-! ## The start of the model -/

theorem replayCompleteLogs_toLoaded {n : Nat} {clusterId : String} {snapshot : Snapshot}
    {logMutations : List Mutation} (hl : ∀ m ∈ logMutations, m.seq + 1 < 2 ^ 64)
    (ha : ∀ m ∈ logMutations, Addressed n m) :
    replayCompleteLogs n clusterId snapshot logMutations =
      .ok ((Globacl.replayCompleteLogs n clusterId snapshot logMutations).map
        SourceOfTruth.toLoaded) := by
  have hret := (fromMutations_returns clusterId ha).1
  unfold replayCompleteLogs Globacl.replayCompleteLogs
  split
  · rfl
  rw [SourceOfTruth.fromMutations_toLoaded n clusterId hl] at hret ⊢
  cases hf : SourceOfTruth.fromMutations n clusterId logMutations with
  | ok replayed =>
    dsimp only [Except.map, caught]
    rw [ok_bind]
    dsimp only [SourceOfTruth.toLoaded]
    split <;> rfl
  | error err =>
    rw [hf] at hret
    cases err with
    | panicked message => exact absurd rfl (hret _ rfl message)
    | io | parse | invalidData | gap => rfl

/-- With at least one shard, and numbers below the largest, a start loads the source of the
model. -/
theorem load_toLoaded {disk : Disk} {n : Nat} (clusterId : String)
    (publisherOffsets : Option (List Nat)) (hpos : 0 < n)
    (hw : ∀ snapshot, disk.snapshot = some snapshot →
      ∀ s, snapshot.watermarks.getD s 0 + 1 < 2 ^ 64)
    (hl : ∀ m ∈ loadAllLogs disk n, m.seq + 1 < 2 ^ 64) :
    load disk n clusterId publisherOffsets =
      (loadSourceOfTruth disk n clusterId publisherOffsets).map SourceOfTruth.toLoaded := by
  unfold load loadSourceOfTruth
  cases hsnap : disk.snapshot with
  | none => exact SourceOfTruth.fromMutations_toLoaded n clusterId hl
  | some snapshot =>
    have hsnapshot := hw snapshot hsnap
    dsimp only
    cases hv : snapshot.validate with
    | error err => rfl
    | ok _ =>
    rw [ok_bind]
    dsimp only
    by_cases hcount : snapshot.shardCount ≠ n
    · rw [if_pos hcount, if_pos hcount]
      rfl
    rw [if_neg hcount, if_neg hcount]
    have hlen := (Snapshot.validate_ok hv).trans (not_not.mp hcount)
    cases publisherOffsets with
    | some offsets =>
      dsimp only
      rw [replayCompleteLogs_toLoaded hl (addressed_loadAllLogs disk n), ok_bind]
      cases Globacl.replayCompleteLogs n clusterId snapshot (loadAllLogs disk n) with
      | some replayed => rfl
      | none =>
        dsimp only [Option.map]
        by_cases hoffsets : offsets.length ≠ n
        · rw [if_pos hoffsets, if_pos hoffsets]
          rfl
        rw [if_neg hoffsets, if_neg hoffsets]
        refine SourceOfTruth.fromSnapshotAndRetainedHistory_toLoaded clusterId _ hpos hsnapshot
          (fun s => ?_) hl
        rw [getD_zipWith_min ((not_not.mp hoffsets).trans hlen.symm)]
        have := hsnapshot s
        omega
    | none =>
      dsimp only
      cases htail : tailMutations snapshot.watermarks (loadAllLogs disk n) with
      | error err => rfl
      | ok tail =>
        rw [ok_bind]
        refine SourceOfTruth.fromSnapshotAndMutations_toLoaded clusterId _ hpos hsnapshot
          fun m hm => hl m ?_
        rw [tailMutations_ok htail] at hm
        exact List.mem_of_mem_filter hm

end LoadedSource

end Globacl
