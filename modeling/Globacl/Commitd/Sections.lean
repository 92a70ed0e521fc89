import Globacl.Commitd.Sync

/-!
# A commit node at the granularity of its locks (`globacl-commitd/src/app/commit.rs`, `consensus.rs`)

The threads of a node share its memory behind two locks, of the consensus state and of the source
of truth, and the pending directory behind none. A thread is modelled by what it does from one
lock section to the next. Each section is a program, and a run interleaves the sections of all
threads in any order.

A leader that commits holds the state lock during its prepare round (`Round`): the sections that
take the state lock wait for its end, the others do not.

* `Thread`: the threads that serve a message or a client, and the sync thread at an install.
* `Election`: what the consensus thread is at.
* `Process.act`: one section.
-/

namespace Globacl

open Lib Prog

/-- A message of a leader about a mutation. -/
inductive Replication where
  | prepare
  | commit (requirePending : Bool)
  | abort
  deriving DecidableEq

/-- A request of a client that commits mutations, with the clock that it sees. -/
inductive ClientRequest where
  | deny (now : Nat) (request : DenyRequest)
  | rule (now : Nat) (request : RuleRequest)
  | rollback (clock : Nat → Nat) (snapshot : Snapshot) (rollbackId : String)

/-- What a request has to commit. -/
def ClientRequest.plan (ord : IterOrder) (st : SourceOfTruth) :
    ClientRequest → Result (List CommitOutcome)
  | .deny now request => (st.prepareCommit now request).map fun outcome => [outcome]
  | .rule now request => (st.prepareRuleCommit now request).map fun outcome => [outcome]
  | .rollback clock snapshot rollbackId =>
    (st.restoreSnapshot clock ord snapshot rollbackId).map fun planned =>
      planned.mutations.map fun m => ⟨m, false⟩

/-- A thread between two sections. -/
inductive Thread where
  /-- `ensure_replication_leader` has passed. -/
  | replication (message : Replication) (m : Mutation)
  /-- `ensure_mutation_term` has passed. -/
  | checked (message : Replication) (m : Mutation)
  /-- `local_log_status` has read the memory. -/
  | voting (req : VoteRequest) (st : SourceOfTruth)
  /-- `local_log_status` has returned. -/
  | judging (req : VoteRequest) (status : LogStatus)
  /-- `ensure_write_authority` has passed. -/
  | client (request : ClientRequest) (term : Nat)
  /-- `install_snapshot_from_leader` has what it is going to write to the memory. -/
  | installing (snapshot : Snapshot) (rebuilt : SourceOfTruth)

/-- A prepare round under the state lock: its mutation, and what the request has yet to commit. -/
structure Round where
  outcome : CommitOutcome
  queue : List CommitOutcome
  /-- Whether the recovery of the leader runs it, not a client. -/
  recovery : Bool

/-- What the consensus thread is at. -/
inductive Election where
  | idle
  | electing (term : Nat)
  /-- It is leader, and has not yet read the pending directory. -/
  | won (term : Nat)
  /-- It was elected for a term, and `recover_pending_mutations_as_leader` has yet to look at these
  records. -/
  | recovering (elected term : Nat) (pending : List Mutation)

structure Process where
  app : App
  threads : List Thread
  round : Option Round
  election : Election

/-! ## The sections of a message -/

/-- The first section of a message about a mutation. -/
def receiveReplication (message : Replication) (m : Mutation) (leaderId : String) :
    Program Thread := do
  let app ← get
  lift (ensureSameCluster app.config.replication m)
  let cs ← lift (ensureReplicationLeader app.config.replication app.consensus m leaderId)
  setConsensus cs
  pure (.replication message m)

/-- The section of `ensure_mutation_term`. -/
def checkMutationTerm (message : Replication) (m : Mutation) : Program Thread := do
  let app ← get
  lift (ensureSameCluster app.config.replication m)
  let cs ← lift (ensureMutationTerm app.consensus m)
  if cs = app.consensus then pure () else setConsensus cs
  pure (.checked message m)

/-- `prepare_replicated_mutation` under the state lock. -/
def prepareLocked (m : Mutation) : Program Unit := do
  let app ← get
  if m.shard ≥ app.state.shardCount then
    lift (.error (.invalidData s!"shard {m.shard} is outside shard_count {app.state.shardCount}"))
  else if m.seq ≤ app.state.watermark m.shard then pure ()
  else if m.seq ≠ app.state.watermark m.shard + 1 then
    lift (.error (.gap m.shard (app.state.watermark m.shard + 1) m.seq))
  else do
    let pending ← lift (insertPending app.disk.pending m)
    writeDisk fun d => { d with pending }

/-- `commit_replicated_mutation` under the state lock. -/
def commitLocked (ord : IterOrder) (m : Mutation) (requirePending : Bool) :
    Program ApplyStatus := do
  let app ← get
  let alreadyAtOrPastSeq := decide (app.state.watermark m.shard ≥ m.seq)
  if requirePending ∧ !alreadyAtOrPastSeq then
    lift (ensurePendingMutation app.disk.pending m)
  else pure ()
  applyPreparedMutation ord m

/-- The handler of a commit runs its sections one after the other. -/
theorem commitReplicatedMutation_sections (ord : IterOrder) (m : Mutation) (requirePending : Bool)
    (app : App) :
    commitReplicatedMutation ord m requirePending app =
      (checkMutationTerm (.commit requirePending) m >>= fun _ =>
        commitLocked ord m requirePending) app := by
  unfold commitReplicatedMutation checkMutationTerm commitLocked
  rw [bind_assoc]
  refine bind_congr fun app' happ => ?_
  cases happ
  rw [bind_assoc]
  refine bind_congr fun _ _ => ?_
  rw [bind_assoc]
  refine bind_congr fun cs _ => ?_
  by_cases hcs : cs = app.consensus
  · rw [if_pos hcs, if_pos hcs]
    rfl
  · rw [if_neg hcs, if_neg hcs, bind_assoc]
    refine bind_congr fun _ _ => rfl

/-! ## The sections of a vote and of an install -/

/-- `handle_request_vote` until `local_log_status` has read the memory. -/
def readMemory (req : VoteRequest) : Program Thread := do
  let app ← get
  lift (checkVoteRequest app.config.replication req)
  pure (.voting req app.state)

/-- The rest of `local_log_status`: the pending directory is read without a lock. -/
def readPending (ord : IterOrder) (req : VoteRequest) (st : SourceOfTruth) : Program Thread := do
  let app ← get
  pure (.judging req
    (localLogStatus ord app.config.replication.clusterId st app.disk.pending))

/-- `handle_request_vote` under the consensus lock. -/
def judge (req : VoteRequest) (status : LogStatus) : Program VoteReply := do
  let app ← get
  let (cs, reply, persist) := handleRequestVote app.consensus status req
  if persist then setConsensus cs else step fun app => { app with consensus := cs }
  pure reply

/-- `handle_heartbeat`. -/
def receiveHeartbeat (hb : Heartbeat) : Program Unit := do
  let app ← get
  lift (checkHeartbeat app.config.replication hb)
  let (cs, accepted) := handleHeartbeat app.consensus hb
  if accepted then setConsensus cs else pure ()

/-- `install_snapshot_from_leader` until it takes the state lock for the last time. It changes files
only. -/
def rebuildFromLeader (ord : IterOrder) (snapshot : Snapshot)
    (idempotencyMutations : List Mutation) : Program Thread := do
  let app ← get
  lift snapshot.validate
  let rebuilt ← lift (SourceOfTruth.fromSnapshotAndMutations app.state.shardCount
    app.config.replication.clusterId snapshot idempotencyMutations [])
  let current := rebuilt.snapshot ord
  persistLatestSnapshot current
  persistIdempotencySnapshot (rebuilt.idempotencyMutations ord)
  compactLogsToWatermarks rebuilt.shardCount current.watermarks
  let rebuilt ← lift (rebuilt.compactMutationHistory current.watermarks)
  pure (.installing snapshot rebuilt)

/-- The install of a snapshot runs its two sections. -/
theorem installSnapshotFromLeader_sections (ord : IterOrder) (snapshot : Snapshot)
    (idempotencyMutations : List Mutation) (app : App) :
    installSnapshotFromLeader ord snapshot idempotencyMutations app =
      (rebuildFromLeader ord snapshot idempotencyMutations >>= fun
        | .installing _ rebuilt => setState rebuilt
        | _ => pure ()) app := by
  unfold installSnapshotFromLeader rebuildFromLeader
  rw [bind_assoc]
  refine bind_congr fun app' _ => ?_
  simp only [bind_assoc]
  rfl

/-! ## The sections of a leader -/

/-- The first section of a request of a client. -/
def receiveClient (request : ClientRequest) : Program Thread := do
  let app ← get
  let term ← lift (ensureWriteAuthority app.config.replication app.consensus)
  pure (.client request term)

/-- The next prepare round of what a request has to commit (`commit_prepared_outcome` up to
`prepare_on_quorum`). -/
def nextRound (app : App) (recovery : Bool) : List CommitOutcome → Result (Option Round)
  | [] => .ok none
  | outcome :: queue =>
    if outcome.duplicate then nextRound app recovery queue
    else
      match ensureLeaderTerm app outcome.mutation with
      | .error err => .error err
      | .ok () => .ok (some ⟨outcome, queue, recovery⟩)

/-- A request of a client takes the state lock and assigns the next sequence numbers. -/
def assign (ord : IterOrder) (request : ClientRequest) (term : Nat) : Program (Option Round) := do
  let app ← get
  setState (app.state.setEpoch term)
  let outcomes ← lift (request.plan ord (app.state.setEpoch term))
  lift (nextRound app false outcomes)

/-- A prepare round comes to its end (`commit_prepared_outcome` after `prepare_on_quorum`). -/
def finishRound (ord : IterOrder) (prepared : Result Unit) (round : Round) :
    Program (Option Round) := do
  lift prepared
  let app ← get
  lift (ensureLeaderTerm app round.outcome.mutation)
  let _ ← applyPreparedMutation ord round.outcome.mutation
  let app ← get
  lift (nextRound app round.recovery round.queue)

/-- `start_election` up to its requests. -/
def startElection : Program Election := do
  let app ← get
  setConsensus (becomeCandidate app.config.replication app.consensus)
  pure (.electing (app.consensus.currentTerm + 1))

/-- The end of `start_election` with a quorum of votes. -/
def winElection (term : Nat) : Program Election := do
  let app ← get
  match becomeLeader app.config.replication app.consensus term with
  | some cs => do
    setConsensus cs
    pure (.won term)
  | none => pure .idle

/-- The start of `recover_pending_mutations_as_leader`. -/
def loadPending (ord : IterOrder) (elected : Nat) : Program Election := do
  let app ← get
  let term ← lift (ensureWriteAuthority app.config.replication app.consensus)
  pure (.recovering elected term (loadPendingMutations ord app.disk.pending))

/-- One turn of the loop of `recover_pending_mutations_as_leader` over a record of the cluster. -/
def recoverRecord (term : Nat) (m : Mutation) : Program (Option Round) := do
  let app ← get
  if m.shard ≥ app.state.shardCount then
    lift (.error (.invalidData
      s!"pending mutation shard {m.shard} is outside shard_count {app.state.shardCount}"))
  else if m.seq ≤ app.state.watermark m.shard then do
    removePendingMutation m
    pure none
  else if m.seq ≠ app.state.watermark m.shard + 1 then
    lift (.error (.gap m.shard (app.state.watermark m.shard + 1) m.seq))
  else
    lift (nextRound app true [⟨{ m with commitId := { m.commitId with epoch := term } }, false⟩])

/-- `step_down_to_term` without a leader. -/
def stepDown (term : Nat) : Program Unit := do
  let app ← get
  setConsensus (stepDownToTerm app.consensus term none)

/-! ## Runs -/

/-- What happens next on a node. -/
inductive Section where
  | receiveReplication (message : Replication) (m : Mutation) (leaderId : String)
  | requestVote (req : VoteRequest)
  | heartbeat (hb : Heartbeat)
  | client (request : ClientRequest)
  | install (ord : IterOrder) (snapshot : Snapshot) (idempotencyMutations : List Mutation)
  /-- The thread with this number runs its next section. -/
  | thread (ord : IterOrder) (i : Nat)
  /-- The prepare round under the state lock ends. -/
  | endRound (ord : IterOrder) (prepared : Result Unit)
  /-- The consensus thread goes on, with a quorum of votes if it waits for them. -/
  | election (ord : IterOrder) (quorum : Bool)
  /-- A peer has answered with a higher term. -/
  | stepDown (term : Nat)

namespace Process

/-- A section that runs on a node. After an error there is nothing left to do for it. -/
def run {α : Type} (p : Process) (c : Program α) (onOk : Process → α → Process)
    (onError : Process → Process) : Process :=
  let p' := { p with app := (c p.app).final }
  match (c p.app).result with
  | .ok a => onOk p' a
  | .error _ => onError p'

def addThread (p : Process) (t : Thread) : Process := { p with threads := p.threads ++ [t] }

/-- The end of a recovery that failed. -/
def failRecovery (p : Process) (term : Nat) : Process :=
  { p with app := (Globacl.stepDown term p.app).final, election := .idle }

/-- The next section of a thread that has left the list of threads. -/
def actThread (ord : IterOrder) (p : Process) : Thread → Process
  | .replication .abort m => p.run (removePendingMutation m) (fun p _ => p) id
  | .replication message m => p.run (checkMutationTerm message m) addThread id
  | .checked .prepare m => p.run (prepareLocked m) (fun p _ => p) id
  | .checked (.commit requirePending) m =>
    p.run (commitLocked ord m requirePending) (fun p _ => p) id
  | .checked .abort _ => p
  | .voting req st => p.run (readPending ord req st) addThread id
  | .judging req status => p.run (judge req status) (fun p _ => p) id
  | .client request term => p.run (assign ord request term) (fun p round => { p with round }) id
  | .installing _ rebuilt => p.run (setState rebuilt) (fun p _ => p) id

end Process

/-- Whether the next section of a thread takes the state lock. -/
def Thread.locks : Thread → Bool
  | .checked _ _ | .client _ _ | .installing _ _ => true
  | .replication _ _ | .voting _ _ | .judging _ _ => false

namespace Process

/-- The next section of the consensus thread. -/
def actElection (ord : IterOrder) (quorum : Bool) (p : Process) : Election → Process
  | .idle =>
    -- `local_log_status` waits for the state lock
    if p.app.consensus.role = .leader ∨ p.round.isSome then p
    else p.run startElection (fun p election => { p with election }) id
  | .electing term =>
    if quorum then p.run (winElection term) (fun p election => { p with election }) id
    else { p with election := .idle }
  | .won term =>
    p.run (loadPending ord term) (fun p election => { p with election }) fun p =>
      p.failRecovery term
  | .recovering _ _ [] => { p with election := .idle }
  | .recovering elected term (m :: pending) =>
    if m.commitId.sourceRegion ≠ p.app.config.replication.clusterId then
      { p with election := .recovering elected term pending }
    else if p.round.isSome then p
    else
      { p with election := .recovering elected term pending }.run (recoverRecord term m)
        (fun p round => { p with round }) fun p => p.failRecovery elected

/-- The end of a round that failed: a recovery fails with it. -/
def failRound (round : Round) (p : Process) : Process :=
  match round.recovery, p.election with
  | true, .recovering elected _ _ => p.failRecovery elected
  | _, _ => p

/-- One section of one thread. -/
def act (p : Process) : Section → Process
  | .receiveReplication message m leaderId =>
    p.run (Globacl.receiveReplication message m leaderId) addThread id
  | .requestVote req => if p.round.isSome then p else p.run (readMemory req) addThread id
  | .heartbeat hb => p.run (receiveHeartbeat hb) (fun p _ => p) id
  | .client request => p.run (receiveClient request) addThread id
  | .install ord snapshot idempotencyMutations =>
    p.run (rebuildFromLeader ord snapshot idempotencyMutations) addThread id
  | .thread ord i =>
    match p.threads[i]? with
    | none => p
    | some t =>
      if t.locks ∧ p.round.isSome then p
      else { p with threads := p.threads.eraseIdx i }.actThread ord t
  | .endRound ord prepared =>
    match p.round with
    | none => p
    | some round =>
      { p with round := none }.run (finishRound ord prepared round)
        (fun p round => { p with round }) (failRound round)
  | .election ord quorum =>
    -- the consensus thread waits for the end of its own round
    if p.round.any Round.recovery then p else p.actElection ord quorum p.election
  | .stepDown term => { p with app := (Globacl.stepDown term p.app).final }

/-- A run of a node. -/
def acts (p : Process) (sections : List Section) : Process := sections.foldl act p

/-- A node that has just started: no thread has begun, and it does not lead. -/
structure Started (p : Process) : Prop where
  threads : p.threads = []
  round : p.round = none
  election : p.election = .idle
  role : p.app.consensus.role = .follower

end Process

end Globacl
