import Globacl.Core.Faults
import Globacl.Core.Source
import Globacl.Lib.Crash

/-!
# The storage of a commit node (`globacl-commitd/src/app/storage.rs`, `bootstrap.rs`)

A commit node is its memory and its files. A file is modelled by the value that it decodes to, and
each write to a file (an append or a rename) is one atomic step of a program, so that a crash falls
between two of them. The signatures and manifests beside a snapshot are not read back by a start,
so they are left out; the clock stays out of the consensus state, since it only decides when an
election starts.

`loadSourceOfTruth` is what a start reads: the latest snapshot, the idempotency stream and the
shard logs, with the publisher's offsets if a publisher is configured.
-/

namespace Globacl

open Lib

/-- The files of a node. -/
structure Disk where
  /-- `shard_NNNN.glog`: the log of each shard. A missing file reads as an empty log. -/
  logs : Nat → List Mutation
  /-- `latest.gacl`. -/
  snapshot : Option Snapshot
  /-- `idempotency.glog`. -/
  idempotency : Option (List Mutation)
  /-- The delta bundles, which a start does not read. -/
  bundles : List Mutation
  /-- The archived snapshots, which a start does not read. -/
  archived : List Snapshot
  /-- The pending directory: one record for each slot. -/
  pending : HashMap (Nat × Nat) Mutation
  /-- `consensus.state`: the term, and the vote with `""` for none. -/
  consensus : Option (Nat × String)
  /-- `publisher_offsets.state`. -/
  publisherOffsets : Option (List Nat)

/-- The files before the first start. -/
def Disk.empty : Disk := ⟨fun _ => [], none, none, [], [], ∅, none, none⟩

inductive ConsensusRole where
  | follower
  | candidate
  | leader
  deriving DecidableEq, Repr

structure ConsensusState where
  currentTerm : Nat
  votedFor : Option String
  role : ConsensusRole
  leaderId : Option String
  deriving DecidableEq, Repr

structure ReplicationConfig where
  clusterId : String
  nodeId : String
  initialLeaderId : Option String
  /-- The node ids of all nodes, this one included. -/
  peers : List String
  quorum : Nat
  deriving DecidableEq, Repr

/-- The settings of a start. -/
structure Config where
  shardCount : Nat
  replication : ReplicationConfig
  minLogEntries : Nat
  compactOnStartup : Bool
  /-- Whether a publisher is configured. -/
  publisher : Bool

/-- A running node: `App` and its files. -/
structure App where
  config : Config
  state : SourceOfTruth
  consensus : ConsensusState
  lastPublished : List Nat
  disk : Disk

/-- A program of a node. -/
abbrev Program (α : Type) := Prog App GlobAclError α

/-- A write to a file. -/
def writeDisk (f : Disk → Disk) : Program Unit := .step fun app => { app with disk := f app.disk }

/-- A write to the memory behind the state lock. -/
def setState (st : SourceOfTruth) : Program Unit := .step fun app => { app with state := st }

/-! ## Writes -/

/-- `append_mutation_to_log`. -/
def appendMutationToLog (m : Mutation) : Program Unit :=
  writeDisk fun d => { d with logs := Function.update d.logs m.shard (d.logs m.shard ++ [m]) }

/-- `write_delta_bundle_file` of one mutation. -/
def writeDeltaBundleFile (m : Mutation) : Program Unit :=
  writeDisk fun d => { d with bundles := d.bundles ++ [m] }

/-- `persist_mutation`. -/
def persistMutation (m : Mutation) : Program Unit := do
  appendMutationToLog m
  writeDeltaBundleFile m

/-- `persist_latest_snapshot`. -/
def persistLatestSnapshot (snapshot : Snapshot) : Program Unit :=
  writeDisk fun d => { d with snapshot := some snapshot }

/-- `persist_archived_snapshot`. -/
def persistArchivedSnapshot (snapshot : Snapshot) : Program Unit :=
  writeDisk fun d => { d with archived := d.archived ++ [snapshot] }

/-- `persist_idempotency_snapshot`. -/
def persistIdempotencySnapshot (mutations : List Mutation) : Program Unit :=
  writeDisk fun d => { d with idempotency := some mutations }

/-- One turn of the loop of `compact_logs_to_watermarks`: the log of a shard is written again
without the mutations up to `compactedSeq`. -/
def writeShardLog (watermarks : List Nat) (shardId : Nat) : Program Unit :=
  writeDisk fun d =>
    { d with
      logs := Function.update d.logs shardId
        ((d.logs shardId).filter fun m => decide (m.seq > watermarks.getD shardId 0)) }

/-- `compact_logs_to_watermarks`. -/
def compactLogsToWatermarks (shardCount : Nat) (watermarks : List Nat) : Program Unit := do
  if watermarks.length ≠ shardCount then
    Prog.lift (.error (.invalidData
      s!"log compaction has {watermarks.length} watermarks for {shardCount} shards"))
  else Prog.forEach (writeShardLog watermarks) (List.range shardCount)

/-- `compaction_watermarks_for_snapshot`. -/
def compactionWatermarksForSnapshot (app : App) (snapshot : Snapshot) : List Nat :=
  (List.range snapshot.watermarks.length).map fun shardId =>
    let watermark := snapshot.watermarks.getD shardId 0
    let watermark :=
      if app.config.publisher then min watermark (app.lastPublished.getD shardId 0) else watermark
    max watermark (app.state.compactedWatermark shardId)

/-- `compact_mutation_logs_locked`. -/
def compactMutationLogsLocked (ord : IterOrder) : Program Unit := do
  let app ← Prog.get
  let snapshot := app.state.snapshot ord
  let compactionWatermarks := compactionWatermarksForSnapshot app snapshot
  persistLatestSnapshot snapshot
  persistIdempotencySnapshot (app.state.idempotencyMutations ord)
  compactLogsToWatermarks app.state.shardCount compactionWatermarks
  let st ← Prog.lift (app.state.compactMutationHistory compactionWatermarks)
  setState st

/-- `maybe_compact_mutation_logs`. -/
def maybeCompactMutationLogs (ord : IterOrder) : Program Unit := do
  let app ← Prog.get
  if app.config.minLogEntries = 0 ∨ app.state.mutations.length < app.config.minLogEntries then
    pure ()
  else compactMutationLogsLocked ord

/-- `compact_mutation_logs`. -/
def compactMutationLogs (ord : IterOrder) (force : Bool) : Program Unit := do
  let app ← Prog.get
  if !force ∧ (app.config.minLogEntries = 0 ∨
      app.state.mutations.length < app.config.minLogEntries) then
    pure ()
  else compactMutationLogsLocked ord

/-! ## Pending records -/

/-- The name of the pending record of a mutation (`pending_mutation_path`): its slot. -/
def Mutation.slot (m : Mutation) : Nat × Nat := (m.shard, m.seq)

/-- What `write_pending_mutation` does to the pending directory. -/
def insertPending (pending : HashMap (Nat × Nat) Mutation) (m : Mutation) :
    Result (HashMap (Nat × Nat) Mutation) :=
  match pending.lookup m.slot with
  | none => .ok (pending.insert m.slot m)
  | some existing =>
    if existing = m then .ok pending
    else if existing.epoch < m.epoch then .ok (pending.insert m.slot m)
    else if existing.epoch > m.epoch then
      .error (.invalidData
        s!"pending mutation at shard {m.shard} seq {m.seq} has newer epoch {existing.epoch} than incoming epoch {m.epoch}")
    else .error (.invalidData s!"pending mutation conflict at shard {m.shard} seq {m.seq}")

/-- `ensure_pending_mutation`. -/
def ensurePendingMutation (pending : HashMap (Nat × Nat) Mutation) (m : Mutation) : Result Unit :=
  match pending.lookup m.slot with
  | none => .error (.invalidData s!"pending mutation missing at shard {m.shard} seq {m.seq}")
  | some existing =>
    if existing ≠ m then
      .error (.invalidData
        s!"pending mutation at shard {m.shard} seq {m.seq} does not match commit payload")
    else .ok ()

/-- The key `(shard_id, seq, epoch)` by which `load_pending_mutations` sorts. -/
def comparePending (left right : Mutation) : Ordering :=
  (compare left.shard right.shard).then
    ((compare left.seq right.seq).then (compare left.epoch right.epoch))

/-- `load_pending_mutations`. -/
def loadPendingMutations (ord : IterOrder) (pending : HashMap (Nat × Nat) Mutation) :
    List Mutation :=
  sortBy comparePending (pending.values ord)

/-- `remove_pending_mutation`. -/
def removePendingMutation (m : Mutation) : Program Unit :=
  writeDisk fun d => { d with pending := d.pending.erase m.slot }

/-! ## Starting -/

/-- `load_all_logs`. -/
def loadAllLogs (disk : Disk) (shardCount : Nat) : List Mutation :=
  (List.range shardCount).flatMap disk.logs

/-- The first attempt of `load_source_of_truth` with a publisher: the logs alone, if they reach the
watermarks of the snapshot. -/
def replayCompleteLogs (shardCount : Nat) (clusterId : String) (snapshot : Snapshot)
    (logMutations : List Mutation) : Option SourceOfTruth :=
  if logMutations.isEmpty then none
  else
    match SourceOfTruth.fromMutations shardCount clusterId logMutations with
    | .ok replayed => if replayed.watermarks = snapshot.watermarks then some replayed else none
    | .error _ => none

/-- The filter of `load_source_of_truth` without a publisher: the mutations after the watermarks. A
shard without a watermark is out of bounds. -/
def tailMutations (watermarks : List Nat) : List Mutation → Result (List Mutation)
  | [] => .ok []
  | m :: ms =>
    match index watermarks m.shard, tailMutations watermarks ms with
    | .error err, _ => .error err
    | .ok _, .error err => .error err
    | .ok watermark, .ok tail => .ok (if m.seq > watermark then m :: tail else tail)

/-- Where each mutation has a watermark, the filter goes through. -/
theorem tailMutations_eq {watermarks : List Nat} {ms : List Mutation}
    (h : ∀ m ∈ ms, m.shard < watermarks.length) :
    tailMutations watermarks ms =
      .ok (ms.filter fun m => decide (m.seq > watermarks.getD m.shard 0)) := by
  induction ms with
  | nil => rfl
  | cons m ms ih =>
    rw [tailMutations, index_getD (h m List.mem_cons_self) 0,
      ih fun m hm => h m (List.mem_cons_of_mem _ hm), List.filter_cons]
    simp only [decide_eq_true_eq]

/-- A mutation without a watermark stops the filter. -/
theorem tailMutations_of_not {watermarks : List Nat} {ms : List Mutation}
    (h : ∃ m ∈ ms, ¬m.shard < watermarks.length) :
    tailMutations watermarks ms = .error indexOutOfBounds := by
  induction ms with
  | nil =>
    obtain ⟨m, hm, -⟩ := h
    cases hm
  | cons m ms ih =>
    rw [tailMutations]
    by_cases hm : m.shard < watermarks.length
    · obtain ⟨m', hm', hout⟩ := h
      rcases List.mem_cons.mp hm' with rfl | hm'
      · exact absurd hm hout
      · rw [index_getD hm 0, ih ⟨m', hm', hout⟩]
    · rw [index_of_length_le (Nat.le_of_not_lt hm)]

theorem tailMutations_ok {watermarks : List Nat} {ms tail : List Mutation}
    (h : tailMutations watermarks ms = .ok tail) :
    tail = ms.filter fun m => decide (m.seq > watermarks.getD m.shard 0) := by
  by_cases hall : ∀ m ∈ ms, m.shard < watermarks.length
  · rw [tailMutations_eq hall] at h
    cases h
    rfl
  · simp only [not_forall] at hall
    obtain ⟨m, hm, hout⟩ := hall
    rw [tailMutations_of_not ⟨m, hm, hout⟩] at h
    cases h

/-- `load_source_of_truth`. -/
def loadSourceOfTruth (disk : Disk) (shardCount : Nat) (clusterId : String)
    (publisherOffsets : Option (List Nat)) : Result SourceOfTruth :=
  let allLogMutations := loadAllLogs disk shardCount
  match disk.snapshot with
  | none => SourceOfTruth.fromMutations shardCount clusterId allLogMutations
  | some snapshot =>
    match snapshot.validate with
    | .error err => .error err
    | .ok () =>
      if snapshot.shardCount ≠ shardCount then
        .error (.invalidData
          s!"snapshot shard_count {snapshot.shardCount} does not match configured {shardCount}")
      else
        let idempotencyMutations :=
          match disk.idempotency with
          | some mutations => mutations ++ allLogMutations
          | none => allLogMutations
        match publisherOffsets with
        | some publisherOffsets =>
          match replayCompleteLogs shardCount clusterId snapshot allLogMutations with
          | some replayed => .ok replayed
          | none =>
            if publisherOffsets.length ≠ shardCount then
              .error (.invalidData
                s!"publisher offsets has {publisherOffsets.length} watermarks for {shardCount} shards")
            else
              let compactedWatermarks := List.zipWith min publisherOffsets snapshot.watermarks
              SourceOfTruth.fromSnapshotAndRetainedHistory shardCount clusterId snapshot
                idempotencyMutations allLogMutations compactedWatermarks
        | none =>
          match tailMutations snapshot.watermarks allLogMutations with
          | .error err => .error err
          | .ok tail =>
            SourceOfTruth.fromSnapshotAndMutations shardCount clusterId snapshot
              idempotencyMutations tail

/-- The operations that a loaded state is told of, besides those it applies. -/
def Disk.knownOperations (disk : Disk) (logged : List Mutation) : List Mutation :=
  match disk.idempotency with
  | some mutations => mutations ++ logged
  | none => logged

/-- The three ways to load a state with a snapshot. -/
theorem loadSourceOfTruth_ok {disk : Disk} {shardCount : Nat} {clusterId : String}
    {offsets : Option (List Nat)} {snapshot : Snapshot} {st : SourceOfTruth}
    (hsnap : disk.snapshot = some snapshot)
    (hl : loadSourceOfTruth disk shardCount clusterId offsets = .ok st) :
    snapshot.shardCount = shardCount ∧
      (offsets.isSome ∧
          replayCompleteLogs shardCount clusterId snapshot (loadAllLogs disk shardCount) = some st ∨
        (∃ offs, offsets = some offs ∧ offs.length = shardCount ∧
          SourceOfTruth.fromSnapshotAndRetainedHistory shardCount clusterId snapshot
            (disk.knownOperations (loadAllLogs disk shardCount)) (loadAllLogs disk shardCount)
            (List.zipWith min offs snapshot.watermarks) = .ok st) ∨
        offsets = none ∧ ∃ tail,
          tailMutations snapshot.watermarks (loadAllLogs disk shardCount) = .ok tail ∧
          SourceOfTruth.fromSnapshotAndMutations shardCount clusterId snapshot
            (disk.knownOperations (loadAllLogs disk shardCount)) tail = .ok st) := by
  unfold loadSourceOfTruth at hl
  rw [hsnap] at hl
  dsimp only at hl
  split at hl
  · cases hl
  split at hl
  · cases hl
  rename_i hcount
  refine ⟨not_not.mp hcount, ?_⟩
  split at hl
  · rename_i offs
    split at hl
    · rename_i hreplay
      cases hl
      exact Or.inl ⟨rfl, hreplay⟩
    · split at hl
      · cases hl
      rename_i hlen
      exact Or.inr (Or.inl ⟨offs, rfl, not_not.mp hlen, hl⟩)
  · split at hl
    · cases hl
    rename_i tail htail
    exact Or.inr (Or.inr ⟨rfl, tail, htail, hl⟩)

/-- `load_publisher_offsets`. -/
def loadPublisherOffsets (disk : Disk) (shardCount : Nat) : List Nat :=
  match disk.publisherOffsets with
  | none => List.replicate shardCount 0
  | some offsets => (List.range shardCount).map fun shardId => offsets.getD shardId 0

/-- `load_consensus_state`. -/
def loadConsensusState (disk : Disk) (replication : ReplicationConfig) : ConsensusState :=
  let (currentTerm, votedFor) :=
    match disk.consensus with
    | none => (0, none)
    | some (currentTerm, votedFor) =>
      (currentTerm, if votedFor = "" then none else some votedFor)
  let role : ConsensusRole := if replication.peers.length = 1 then .leader else .follower
  { currentTerm := max currentTerm 1
    votedFor
    role
    leaderId := if role = .leader then some replication.nodeId else replication.initialLeaderId }

/-- What `run` loads before its first write. -/
def boot (config : Config) (disk : Disk) : Result App :=
  let lastPublished := loadPublisherOffsets disk config.shardCount
  match loadSourceOfTruth disk config.shardCount config.replication.clusterId
      (if config.publisher then some lastPublished else none) with
  | .error err => .error err
  | .ok state =>
    .ok { config, state, consensus := loadConsensusState disk config.replication,
          lastPublished, disk }

/-- A program whose error is only reported. -/
def orElseReport (program : Program Unit) : Program Unit := fun app =>
  ⟨.ok (), (program app).final, (program app).points⟩

/-- The rest of `run` before requests are served: the snapshot is written, and the logs are
compacted unless that is switched off. -/
def finishStartup (ord : IterOrder) : Program Unit := do
  let app ← Prog.get
  persistLatestSnapshot (app.state.snapshot ord)
  if app.config.compactOnStartup then orElseReport (compactMutationLogs ord true)
  else pure ()

end Globacl
