import Globacl.Commitd.Storage

/-!
# Terms, votes and roles (`globacl-commitd/src/app/consensus.rs`, `commit.rs`)

The functions that rewrite the consensus state of a node, each as a function of the state that the
consensus lock guards. Every one of them that changes the term or the vote writes
`consensus.state` before it releases the lock.
-/

namespace Globacl

open Lib

/-- `is_clustered`. -/
def ReplicationConfig.isClustered (cfg : ReplicationConfig) : Bool :=
  decide (cfg.peers.length > 1) || decide (cfg.quorum > 1)

/-- `remote_peers`. -/
def ReplicationConfig.remotePeers (cfg : ReplicationConfig) : List String :=
  cfg.peers.filter fun peer => peer ≠ cfg.nodeId

/-- The content of `consensus.state` (`persist_consensus_state`). -/
def ConsensusState.file (cs : ConsensusState) : Nat × String :=
  (cs.currentTerm, cs.votedFor.getD "")

/-- `ensure_write_authority`. -/
def ensureWriteAuthority (cfg : ReplicationConfig) (cs : ConsensusState) : Result Nat :=
  if cs.role = .leader then .ok cs.currentTerm
  else
    let leader := cs.leaderId.getD "unknown"
    .error (.invalidData s!"node {cfg.nodeId} is not the write leader; leader is {leader}")

/-- `ensure_same_cluster`. -/
def ensureSameCluster (cfg : ReplicationConfig) (m : Mutation) : Result Unit :=
  if m.commitId.sourceRegion = cfg.clusterId then .ok ()
  else
    .error (.invalidData
      s!"mutation cluster {m.commitId.sourceRegion} does not match local cluster {cfg.clusterId}")

/-- `ensure_mutation_term`. -/
def ensureMutationTerm (cs : ConsensusState) (m : Mutation) : Result ConsensusState :=
  if m.epoch < cs.currentTerm then
    .error (.invalidData
      s!"stale mutation epoch {m.epoch} is older than local term {cs.currentTerm}")
  else if m.epoch > cs.currentTerm then
    .ok { currentTerm := m.epoch, votedFor := none, role := .follower, leaderId := none }
  else .ok cs

/-- `ensure_replication_leader`. -/
def ensureReplicationLeader (cfg : ReplicationConfig) (cs : ConsensusState) (m : Mutation)
    (leaderId : String) : Result ConsensusState :=
  let leaderId := trim leaderId
  if leaderId = "" then .error (.invalidData "replication leader id is required")
  else if leaderId = cfg.nodeId then
    .error (.invalidData s!"replication leader {leaderId} is this node")
  else if leaderId ∉ cfg.peers then
    .error (.invalidData s!"unknown replication leader {leaderId}")
  else if m.epoch < cs.currentTerm then
    .error (.invalidData
      s!"stale mutation epoch {m.epoch} is older than local term {cs.currentTerm}")
  else if m.epoch = cs.currentTerm ∧ cs.leaderId.any (· ≠ leaderId) then
    let known := cs.leaderId.getD "unknown"
    .error (.invalidData
      s!"conflicting replication leader {leaderId}; known leader is {known}")
  else
    .ok
      { currentTerm := m.epoch
        votedFor := if m.epoch > cs.currentTerm then none else cs.votedFor
        role := .follower
        leaderId := some leaderId }

/-- `step_down_to_term`. -/
def stepDownToTerm (cs : ConsensusState) (term : Nat) (leaderId : Option String) : ConsensusState :=
  { currentTerm := max cs.currentTerm term
    votedFor := if term > cs.currentTerm then none else cs.votedFor
    role := .follower
    leaderId }

/-! ## Elections -/

/-- The body of `/internal/raft/request_vote`. -/
structure VoteRequest where
  clusterId : String
  term : Nat
  candidateId : String
  lastSeq : Nat
  logLen : Nat
  watermarks : Option (List Nat)
  deriving DecidableEq, Repr

structure VoteReply where
  term : Nat
  voteGranted : Bool
  deriving DecidableEq, Repr

/-- The body of `/internal/raft/heartbeat`. -/
structure Heartbeat where
  clusterId : String
  term : Nat
  leaderId : String
  deriving DecidableEq, Repr

/-- What `local_log_status` returns. -/
structure LogStatus where
  lastSeq : Nat
  logLen : Nat
  watermarks : List Nat
  deriving DecidableEq, Repr

/-- One turn of the loop of `local_log_status` over the pending records. -/
def addPending (clusterId : String) (acc : List Nat × Nat) (m : Mutation) : List Nat × Nat :=
  if m.commitId.sourceRegion ≠ clusterId then acc
  else
    match acc.1[m.shard]? with
    | some watermark =>
      if m.seq > watermark then (acc.1.set m.shard m.seq, acc.2 + 1) else acc
    | none => acc

/-- `local_log_status`. -/
def localLogStatus (ord : IterOrder) (clusterId : String) (st : SourceOfTruth)
    (pending : HashMap (Nat × Nat) Mutation) : LogStatus :=
  let (watermarks, logLen) :=
    (loadPendingMutations ord pending).foldl (addPending clusterId)
      (st.watermarks, st.mutations.length)
  { lastSeq := watermarks.foldl max 0, logLen, watermarks }

/-- `ensure_peer_cluster`, with the check of `required_json_field`. -/
def ensurePeerCluster (cfg : ReplicationConfig) (clusterId : String) : Result Unit :=
  if clusterId = "" then .error (.parse "missing required field cluster_id")
  else if clusterId = cfg.clusterId then .ok ()
  else
    .error (.invalidData
      s!"peer cluster {clusterId} does not match local cluster {cfg.clusterId}")

/-- `ensure_remote_peer_id`, with the check of `required_json_field` for the field. -/
def ensureRemotePeerId (cfg : ReplicationConfig) (field nodeId role : String) : Result Unit :=
  if nodeId = "" then .error (.parse s!"missing required field {field}")
  else if nodeId = cfg.nodeId then .error (.invalidData s!"{role} {nodeId} is this node")
  else if nodeId ∈ cfg.peers then .ok ()
  else .error (.invalidData s!"unknown {role} {nodeId}")

/-- The start of `start_election`: the node is a candidate of the next term and votes for itself. -/
def becomeCandidate (cfg : ReplicationConfig) (cs : ConsensusState) : ConsensusState :=
  { currentTerm := cs.currentTerm + 1, votedFor := some cfg.nodeId, role := .candidate,
    leaderId := none }

/-- The request that a candidate sends to every peer. -/
def voteRequest (cfg : ReplicationConfig) (term : Nat) (status : LogStatus) : VoteRequest :=
  { clusterId := cfg.clusterId, term, candidateId := cfg.nodeId, lastSeq := status.lastSeq,
    logLen := status.logLen, watermarks := some status.watermarks }

/-- The end of `start_election` with a quorum of votes for `term`. -/
def becomeLeader (cfg : ReplicationConfig) (cs : ConsensusState) (term : Nat) :
    Option ConsensusState :=
  if cs.currentTerm = term ∧ cs.role = .candidate then
    some { cs with role := .leader, leaderId := some cfg.nodeId }
  else none

/-- Whether the candidate's log is at least as far as the local one in every shard. Without
watermarks in the request, the last sequence numbers and the log lengths are compared. -/
def candidateUpToDate (req : VoteRequest) (status : LogStatus) : Bool :=
  match req.watermarks with
  | some watermarks =>
    watermarks.length == status.watermarks.length &&
      (watermarks.zip status.watermarks).all fun (candidate, loc) => decide (candidate ≥ loc)
  | none =>
    decide (req.lastSeq > status.lastSeq) ||
      (req.lastSeq == status.lastSeq && decide (req.logLen ≥ status.logLen))

/-- The state in which `handle_request_vote` judges a candidate: a higher term is adopted first. -/
def adoptTerm (cs : ConsensusState) (term : Nat) : ConsensusState :=
  if term > cs.currentTerm then
    { currentTerm := term, votedFor := none, role := .follower, leaderId := none }
  else cs

/-- Whether the vote is granted, in the state after a higher term was adopted. -/
def canVote (cs : ConsensusState) (status : LogStatus) (req : VoteRequest) : Bool :=
  req.term == cs.currentTerm && candidateUpToDate req status &&
    cs.leaderId.all (· == req.candidateId) && cs.votedFor.all (· == req.candidateId)

/-- The part of `handle_request_vote` under the consensus lock: the state, the reply, and whether
the state is written to its file. -/
def handleRequestVote (cs : ConsensusState) (status : LogStatus) (req : VoteRequest) :
    ConsensusState × VoteReply × Bool :=
  let cs := adoptTerm cs req.term
  if canVote cs status req then
    ({ cs with votedFor := some req.candidateId, role := .follower, leaderId := none },
      ⟨cs.currentTerm, true⟩, true)
  else (cs, ⟨cs.currentTerm, false⟩, decide (req.term ≥ cs.currentTerm))

/-- The checks of `handle_request_vote` before it takes a lock. -/
def checkVoteRequest (cfg : ReplicationConfig) (req : VoteRequest) : Result Unit := do
  ensurePeerCluster cfg req.clusterId
  ensureRemotePeerId cfg "candidate_id" req.candidateId "vote candidate"

/-- `handle_heartbeat` under the consensus lock: the state, which is written to its file if the
heartbeat is accepted, and whether it is. -/
def handleHeartbeat (cs : ConsensusState) (hb : Heartbeat) : ConsensusState × Bool :=
  let higherTerm := decide (hb.term > cs.currentTerm)
  let sameTerm := hb.term == cs.currentTerm
  let conflictingLeader := sameTerm && cs.leaderId.any (· != hb.leaderId)
  if higherTerm || (sameTerm && !conflictingLeader) then
    ({ currentTerm := hb.term
       votedFor := if higherTerm then none else cs.votedFor
       role := .follower
       leaderId := some hb.leaderId }, true)
  else (cs, false)

/-- The checks of `handle_heartbeat` before it takes the lock. -/
def checkHeartbeat (cfg : ReplicationConfig) (hb : Heartbeat) : Result Unit := do
  ensurePeerCluster cfg hb.clusterId
  ensureRemotePeerId cfg "leader_id" hb.leaderId "heartbeat leader"

end Globacl
