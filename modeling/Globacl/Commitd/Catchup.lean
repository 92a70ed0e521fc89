import Globacl.Commitd.Requests
import Globacl.Commitd.Sync

/-!
# What a follower keeps

The triples of the programs by which a follower gets what its leader committed.

* `settled_commitReplicatedMutation`: a mutation that the node has, or the next one.
* `Served`: a snapshot of the leader, and the stream of operations that it serves after it, when it
  may have committed more. `NothingAbove`: it has not.
* `idle_installSnapshotFromLeader`: a snapshot that is not behind the node replaces the whole history.
-/

namespace Globacl

open Lib Prog

section Programs

variable {n : Nat} {history : List Mutation}

theorem idle_setConsensus {st : SourceOfTruth} {e : App → Prop} (cs : ConsensusState) :
    Triple (fun app => app.state = st ∧ Idle n history app) (setConsensus cs)
      (fun _ app => app.state = st ∧ Idle n history app) e (CrashPoint n) := by
  refine Triple.bind (q := fun _ app => app.state = st ∧ Idle n history app) ?_ fun _ => ?_
  · exact Triple.step (fun _ h => ⟨h.1, h.2.of_consensus cs⟩)
      fun _ h => (h.2.of_consensus cs).crashPoint
  · exact Triple.step (fun _ h => ⟨h.1, h.2.of_unread rfl rfl rfl⟩)
      fun app h => (@Idle.of_unread _ _ _ h.2 { app.disk with consensus := some cs.file }
        rfl rfl rfl).crashPoint

/-- A mutation of the leader that the node has, or that is the next one. -/
theorem settled_applyPreparedMutation (ord : IterOrder) {m : Mutation} {st : SourceOfTruth}
    (hm : m.seq ≤ st.watermark m.shard ∨ GoodHistory n (history ++ [m])) :
    Triple (fun app => app.state = st ∧ Idle n history app) (applyPreparedMutation ord m)
      (fun _ => Settled n) (Settled n) (CrashPoint n) := by
  rcases hm with hold | hgood
  · exact (idle_applyPreparedMutation_old ord m).conseq (fun app h => ⟨h.1 ▸ hold, h.2⟩)
      (fun _ _ h => ⟨_, h⟩) (fun _ h => ⟨_, h⟩) fun _ h => h
  · exact (idle_applyPreparedMutation_next ord hgood).conseq (fun _ h => h.2)
      (fun _ _ h => ⟨_, h⟩) (fun _ h => h.elim) fun _ h => h

theorem settled_commitReplicatedMutation (ord : IterOrder) {m : Mutation} (requirePending : Bool)
    {st : SourceOfTruth}
    (hm : m.seq ≤ st.watermark m.shard ∨ GoodHistory n (history ++ [m])) :
    Triple (fun app => app.state = st ∧ Idle n history app)
      (commitReplicatedMutation ord m requirePending) (fun _ => Settled n) (Settled n)
      (CrashPoint n) := by
  refine triple_commitReplicatedMutation requirePending (fun _ h => ⟨_, h.2⟩) idle_setConsensus ?_
  exact settled_applyPreparedMutation ord hm

theorem settled_commitReplicatedMutationFromLeader (ord : IterOrder) {m : Mutation}
    (requirePending : Bool) (leaderId : String) {st : SourceOfTruth}
    (hm : m.seq ≤ st.watermark m.shard ∨ GoodHistory n (history ++ [m])) :
    Triple (fun app => app.state = st ∧ Idle n history app)
      (commitReplicatedMutationFromLeader ord m requirePending leaderId) (fun _ => Settled n)
      (Settled n) (CrashPoint n) := by
  refine triple_commitReplicatedMutationFromLeader requirePending leaderId (fun _ h => ⟨_, h.2⟩)
    idle_setConsensus ?_
  exact settled_applyPreparedMutation ord hm

/-- A snapshot that the leader served, and the stream of operations that it served after it may
have committed more. -/
structure Served (n : Nat) (snapshot : Snapshot) (ids before after : List Mutation) : Prop where
  snapshot_of : ∃ leader ord, SourceOfTruth.Represents n before leader ∧
    snapshot = leader.snapshot ord
  good : GoodHistory n after
  behind : Behind before after
  stream : ∀ m, m ∈ ids ↔ m ∈ after

/-- No operation of the stream is above the watermark of its shard in the snapshot. -/
def NothingAbove (snapshot : Snapshot) (ids : List Mutation) : Prop :=
  ∀ m ∈ ids, m.seq ≤ snapshot.watermarks.getD m.shard 0

instance (snapshot : Snapshot) (ids : List Mutation) : Decidable (NothingAbove snapshot ids) :=
  inferInstanceAs (Decidable (∀ m ∈ ids, _))

/-- The snapshot has reached the node in each shard. -/
def NotBehind (st : SourceOfTruth) (snapshot : Snapshot) : Prop :=
  ∀ s < st.shardCount, st.watermark s ≤ snapshot.watermarks.getD s 0

instance (st : SourceOfTruth) (snapshot : Snapshot) : Decidable (NotBehind st snapshot) :=
  inferInstanceAs (Decidable (∀ s < st.shardCount, _))

/-- With nothing above, the stream is exactly that of the snapshot. -/
theorem Served.stream_iff {snapshot : Snapshot} {ids before after : List Mutation}
    (h : Served n snapshot ids before after) (hna : NothingAbove snapshot ids) (m : Mutation) :
    m ∈ ids ↔ m ∈ before := by
  obtain ⟨leader, ord, hr, rfl⟩ := h.snapshot_of
  constructor
  · intro hm
    refine h.behind.mem h.good.valid ((h.stream m).mp hm) ?_
    rw [← hr.watermark]
    exact hna m hm
  · exact fun hm => (h.stream m).mpr (h.behind.subset hm)

/-- A snapshot that is not behind the node has what the logs of the node have. -/
theorem Idle.seq_le {app : App} (h : Idle n history app) {snapshot : Snapshot}
    (hnb : NotBehind app.state snapshot) (s : Nat) :
    ∀ m ∈ app.disk.logs s, m.seq ≤ snapshot.watermarks.getD s 0 := by
  obtain ⟨first, hd⟩ := h.disk
  have hcount : app.state.shardCount = n := h.mem.shardCount
  intro m hm
  rw [hd.logs] at hm
  obtain ⟨hmem, rfl⟩ := mem_shardLog.mp (List.mem_of_mem_drop hm)
  have hlt : m.shard < n := by
    rw [(h.mem.valid.routed m hmem).shard]
    exact shardForHash_lt (hcount ▸ app.state.shardCount_pos)
  have hle := hnb m.shard (by omega)
  have hin := (List.getElem?_eq_some_iff.mp (h.mem.valid.getElem?_seq hmem)).1
  rw [h.mem.watermark] at hle
  omega

/-- A snapshot that is not behind the node replaces the whole history. -/
theorem idle_installSnapshotFromLeader (ord : IterOrder) {snapshot : Snapshot}
    {ids before after : List Mutation} {st : SourceOfTruth}
    (hserved : Served n snapshot ids before after) (hna : NothingAbove snapshot ids)
    (hnb : NotBehind st snapshot) :
    Triple (fun app => app.state = st ∧ Idle n history app)
      (installSnapshotFromLeader ord snapshot ids) (fun _ => Idle n before) (fun _ => False)
      (fun _ => True) := by
  have hids := hserved.stream_iff hna
  obtain ⟨leader, ord', hr, rfl⟩ := hserved.snapshot_of
  refine Triple.get_bind fun app₀ hstart => ?_
  obtain ⟨rfl, h₀⟩ := hstart
  have hcount : app₀.state.shardCount = n := h₀.mem.shardCount
  rw [hr.validate_snapshot ord', hcount]
  refine Triple.bind (q := fun _ app => app = app₀)
    (Triple.lift (fun _ _ _ heq => heq) fun _ _ herr _ => by cases herr) fun _ => ?_
  have htail : ∀ s, shardLog [] s = (shardLog before s).drop (shardLog before s).length := fun s => by
    rw [List.drop_length, shardLog_nil]
  obtain ⟨rebuilt, hok, -, hrebuilt⟩ := SourceOfTruth.fromSnapshotAndMutations_ok
    app₀.config.replication.clusterId hr.toHolds ord' hr.valid hr.good.distinctOps
    (Behind.refl before) (fun m hm => (hids m).mp hm) (fun s => .of_eq (htail s))
    fun m hm => Or.inl ((hids m).mpr hm)
  rw [hok]
  refine Triple.bind (q := fun r app => rebuilt = r ∧ app = app₀)
    (Triple.lift (fun _ _ heq h => ⟨Except.ok.inj heq, h⟩) fun _ _ herr _ => by cases herr)
    fun _ => Triple.of_fact ?_
  rintro rfl
  -- the new snapshot and then the new stream are beside the old logs
  refine Triple.bind (q := fun _ app => app.disk.snapshot = some (rebuilt.snapshot ord) ∧
    app.disk.logs = app₀.disk.logs) (Triple.step ?_ fun _ _ => trivial) fun _ => ?_
  · rintro _ rfl
    exact ⟨rfl, rfl⟩
  refine Triple.bind (q := fun _ app => app.disk.snapshot = some (rebuilt.snapshot ord) ∧
    app.disk.idempotency = some (rebuilt.idempotencyMutations ord) ∧
    app.disk.logs = app₀.disk.logs) (Triple.step ?_ fun _ _ => trivial) fun _ => ?_
  · rintro app ⟨hs, hl⟩
    exact ⟨hs, rfl, hl⟩
  -- each logged mutation is in the snapshot, so the truncation empties the logs
  have hsame : rebuilt.watermark = leader.watermark := funext fun s => by
    rw [hrebuilt.watermark, hr.watermark]
  have hcovered : ∀ s, ∀ m ∈ app₀.disk.logs s, m.seq ≤ (rebuilt.snapshot ord).watermarks.getD s 0 :=
    fun s m hm => (h₀.seq_le hnb s m hm).trans (congrFun hsame s).ge
  have hlen : (rebuilt.snapshot ord).watermarks.length = rebuilt.shardCount :=
    rebuilt.watermarks_length
  refine Triple.bind (q := fun _ app => app.disk.snapshot = some (rebuilt.snapshot ord) ∧
    app.disk.idempotency = some (rebuilt.idempotencyMutations ord) ∧ ∀ s, app.disk.logs s = [])
    (Triple.of_get fun app₁ h₁ => ?_) fun _ => ?_
  · obtain ⟨hs, hi, hl⟩ := h₁
    refine (truncating_compactLogsToWatermarks hlen app₁).conseq (fun _ h => h) ?_ (fun _ h => h)
      fun _ _ => trivial
    rintro _ app ⟨ht, hcut⟩
    refine ⟨ht.snapshot.trans hs, ht.idempotency.trans hi, fun s => ?_⟩
    by_cases hsn : s < n
    · rw [hcut s (hrebuilt.shardCount ▸ hsn), hl, List.filter_eq_nil_iff]
      intro m hm
      rw [decide_eq_true_eq, Nat.not_lt]
      exact hcovered s m hm
    · obtain ⟨first, hd⟩ := h₀.disk
      refine List.eq_nil_of_subset_nil (List.Subset.trans (ht.logs_subset s) ?_)
      rw [hl, hd.logs, h₀.mem.valid.shardLog_eq_nil (hcount ▸ app₀.state.shardCount_pos) (by omega),
        List.drop_nil]
      exact List.Subset.refl _
  obtain ⟨st, hst⟩ := SourceOfTruth.exists_compactMutationHistory hlen fun s => Nat.le_refl _
  rw [hst]
  refine Triple.bind (q := fun st app => st.Retains n before ∧
    app.disk.snapshot = some (rebuilt.snapshot ord) ∧
    app.disk.idempotency = some (rebuilt.idempotencyMutations ord) ∧ ∀ s, app.disk.logs s = [])
    (Triple.lift (fun _ _ heq h => by
      cases heq
      exact ⟨hrebuilt.compactMutationHistory hst, h⟩) fun _ _ heq _ => by cases heq) fun st' => ?_
  refine Triple.step ?_ fun _ _ => trivial
  rintro app ⟨hret, hs, hi, hl⟩
  have hstream : ∀ m, m ∈ rebuilt.idempotencyMutations ord ↔ m ∈ before := fun m => by
    rw [SourceOfTruth.idempotencyMutations, mem_sortBy, rebuilt.opIndex_keyed.mem_values,
      hrebuilt.opIndex]
    exact and_iff_left rfl
  exact ⟨⟨hret, _, .of_snapshot hrebuilt.toHolds hs hi hstream hl⟩,
    rebuilt, ord, hrebuilt.toHolds, hs⟩

end Programs

end Globacl
