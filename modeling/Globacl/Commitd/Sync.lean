import Globacl.Commitd.Commit

/-!
# Catching up with the leader (`globacl-commitd/src/app/consensus.rs`, `propagation.rs`)

A follower pulls what it lacks from the leader: shard by shard the mutations above its watermark, or
a whole snapshot where the leader no longer has them. The publisher reads what is new from the
memory, sends it, and then moves its offsets.
-/

namespace Globacl

open Lib

/-- `install_snapshot_from_leader` with the snapshot and the idempotency stream that the leader
served, one after the other. -/
def installSnapshotFromLeader (ord : IterOrder) (snapshot : Snapshot)
    (idempotencyMutations : List Mutation) : Program Unit := do
  let app ← Prog.get
  Prog.lift snapshot.validate
  let rebuilt ← Prog.lift (SourceOfTruth.fromSnapshotAndMutations app.state.shardCount
    app.config.replication.clusterId snapshot idempotencyMutations [])
  let snapshot := rebuilt.snapshot ord
  persistLatestSnapshot snapshot
  persistIdempotencySnapshot (rebuilt.idempotencyMutations ord)
  compactLogsToWatermarks rebuilt.shardCount snapshot.watermarks
  let rebuilt ← Prog.lift (rebuilt.compactMutationHistory snapshot.watermarks)
  setState rebuilt

/-- `is_write_leader`. -/
def App.isWriteLeader (app : App) : Bool :=
  !app.config.replication.isClustered || decide (app.consensus.role = .leader)

/-- `current_leader_peer`. -/
def App.currentLeaderPeer (app : App) : Option String :=
  app.consensus.leaderId.filter fun leaderId => decide (leaderId ∈ app.config.replication.peers)

/-- What a leader answers to the requests of a follower. Its snapshot is read from the file. -/
structure Leader where
  state : SourceOfTruth
  snapshot : Snapshot

/-- `GET /v1/mutations`: nothing if the history is compacted. -/
def Leader.mutations (leader : Leader) (shardId fromSeq : Nat) : Option (List Mutation) :=
  match leader.state.mutationHistoryCompacted shardId fromSeq with
  | some _ => none
  | none => some (leader.state.mutationsForShard shardId fromSeq)

/-- The key `(committed_at_unix, shard_id, seq)` by which the publisher sorts. -/
def comparePublished (left right : Mutation) : Ordering :=
  (compare left.committedAtUnix right.committedAtUnix).then
    ((compare left.shard right.shard).then (compare left.seq right.seq))

/-- What `publish_committed_mutations` reads from the memory. -/
def App.unpublished (app : App) : List Mutation :=
  sortBy comparePublished ((List.range app.state.shardCount).flatMap fun shardId =>
    app.state.mutationsForShard shardId (app.lastPublished.getD shardId 0))

/-- The offsets after all these mutations were sent. -/
def nextPublished (lastPublished : List Nat) (mutations : List Mutation) : List Nat :=
  mutations.foldl
    (fun next m => next.set m.shard (max (next.getD m.shard 0) m.seq)) lastPublished

/-- The first half of `publish_committed_mutations`: the offsets after all that is new was sent, or
nothing if there is nothing to do. -/
def App.collectPublished (app : App) : Option (List Nat) :=
  if !app.config.publisher || !app.isWriteLeader || app.unpublished.isEmpty then none
  else some (nextPublished app.lastPublished app.unpublished)

/-- The second half: the new offsets are stored. -/
def finishPublish (offsets : List Nat) : Program Unit := do
  writeDisk fun d => { d with publisherOffsets := some offsets }
  Prog.step fun app => { app with lastPublished := offsets }

end Globacl
