import Globacl.Commitd.Terms

/-!
# A cluster of commit nodes

The nodes of a cluster share one list of peers. A message that was sent may arrive at any time, more
than once or never, so the cluster keeps all messages that were ever sent (and all answers that
count towards a quorum), and a section of a node that starts with a message needs one of these. A
node may crash between two sections and starts again with its files.

* `Membership`: what the nodes share.
* `Cluster.offers`: what a section needs from the other nodes.
* `Cluster.act`: one event of a cluster; `Cluster.Starts` is how it begins.
-/

namespace Globacl

open Lib Prog

/-- What the nodes of a cluster share, with what the start of a node checks of it. A node that has no
peers takes its own id as it is. -/
structure Membership where
  clusterId : String
  peers : List String
  quorum : Nat
  nodup : peers.Nodup
  named : peers.length ≠ 1 → ∀ n ∈ peers, n ≠ "" ∧ trim n = n
  majority : peers.length < 2 * quorum

/-- A granted vote. -/
structure Vote where
  voter : String
  candidate : String
  term : Nat
  deriving DecidableEq

namespace Process

/-- The term for which a section starts an election. -/
def stands (p : Process) (e : Section) : Option Nat :=
  match p.election, (p.act e).election with
  | .idle, .electing term => some term
  | _, _ => none

/-- The prepare to which a section answers with success. -/
def answers (p : Process) : Section → Option Mutation
  | .thread _ i =>
    match p.threads[i]? with
    | some (.checked .prepare m) =>
      if p.round.isSome then none
      else
        match (prepareLocked m p.app).result with
        | .ok () => some m
        | .error _ => none
    | _ => none
  | _ => none

/-- What the end of a prepare round tells the peers: to commit, or to abort. -/
def concludes (p : Process) : Section → List (Replication × Mutation)
  | .endRound ord prepared =>
    match p.round, prepared with
    | none, _ => []
    | some round, .error _ => [(.abort, round.outcome.mutation)]
    | some round, .ok () =>
      let m := round.outcome.mutation
      match ensureWriteAuthority p.app.config.replication p.app.consensus with
      | .error _ => []
      | .ok term =>
        if m.epoch ≠ term then [(.abort, m)]
        else
          match (applyPreparedMutation ord m p.app).result with
          | .ok _ => [(.commit true, m)]
          | .error _ => []
  | _ => []

/-- All that a section sends about mutations: a round that it leaves open is a prepare. -/
def sends (p : Process) (e : Section) : List (Replication × Mutation) :=
  p.concludes e ++
    match (p.act e).round with
    | some round => [(.prepare, round.outcome.mutation)]
    | none => []

end Process

structure Cluster where
  nodes : String → Process
  requests : List VoteRequest
  /-- The votes granted so far, those of the candidates for themselves included. -/
  votes : List Vote
  heartbeats : List Heartbeat
  /-- The messages about mutations, with the leader that they name. -/
  replications : List (Replication × Mutation × String)
  /-- The nodes that have answered a prepare with success. -/
  prepared : List (String × Mutation)
  /-- The mutations that a node has fetched from the leader that it knew. -/
  fetched : List (String × Mutation × String)
  /-- The snapshots and the idempotency streams that were served. -/
  snapshots : List Snapshot
  streams : List (List Mutation)
  /-- Each term with a node that held the role of leader in it. -/
  leaders : List (Nat × String)
  /-- Each term with a leader of which a node has not heard in the term from itself: the configured
  one at a start, and the one from which a mutation of the term was fetched. -/
  assumed : List (Nat × String)

namespace Cluster

/-- What happens next in a cluster. -/
inductive Event where
  /-- A node runs a section. -/
  | run (n : String) (e : Section)
  /-- A candidate asks for votes, with the log status that it has read. -/
  | requestVotes (n : String) (status : LogStatus)
  /-- A leader sends its heartbeats. -/
  | sendHeartbeats (n : String)
  /-- The sync thread of a node fetches a mutation. -/
  | fetch (n : String) (m : Mutation)
  /-- A node serves its snapshot and its idempotency stream. -/
  | serve (n : String) (ord : IterOrder)
  /-- A node crashes and starts again with these files. -/
  | restart (n : String) (disk : Disk)

variable (mem : Membership)

/-- The votes for a candidate are a quorum. -/
def Won (c : Cluster) (candidate : String) (term : Nat) : Prop :=
  mem.quorum ≤ mem.peers.countP fun n => ⟨n, candidate, term⟩ ∈ c.votes

instance (c : Cluster) (candidate : String) (term : Nat) : Decidable (c.Won mem candidate term) :=
  inferInstanceAs (Decidable (_ ≤ _))

/-- The answers to a prepare are a quorum, with the leader itself. -/
def Prepared (c : Cluster) (leader : String) (m : Mutation) : Prop :=
  mem.quorum ≤ 1 + mem.peers.countP fun n => n ≠ leader ∧ (n, m) ∈ c.prepared

instance (c : Cluster) (leader : String) (m : Mutation) : Decidable (c.Prepared mem leader m) :=
  inferInstanceAs (Decidable (_ ≤ _))

/-- What a section of a node needs from the others. -/
def offers (c : Cluster) (n : String) : Section → Prop
  | .receiveReplication (.commit false) m leaderId => (n, m, leaderId) ∈ c.fetched
  | .receiveReplication message m leaderId => (message, m, leaderId) ∈ c.replications
  | .requestVote req => req ∈ c.requests
  | .heartbeat hb => hb ∈ c.heartbeats
  | .install _ snapshot ids => snapshot ∈ c.snapshots ∧ ids ∈ c.streams
  | .endRound _ (.ok ()) =>
    match (c.nodes n).round with
    | some round => c.Prepared mem n round.outcome.mutation
    | none => False
  | .election _ true =>
    match (c.nodes n).election with
    | .electing term => c.Won mem n term
    | _ => True
  | .endRound _ (.error _) | .election _ false | .client _ | .thread _ _ | .stepDown _ => True

instance (c : Cluster) (n : String) (e : Section) : Decidable (c.offers mem n e) := by
  unfold offers
  split
  all_goals first
    | infer_instance
    | (split <;> infer_instance)

/-- A node holds the role of leader in its term. -/
def noteLeader (c : Cluster) (n : String) : Cluster :=
  { c with
    leaders :=
      if (c.nodes n).app.consensus.role = .leader then
        ((c.nodes n).app.consensus.currentTerm, n) :: c.leaders
      else c.leaders }

/-- The leader that a section takes from a fetched mutation, with the term. -/
def fetchedLeader (p : Process) : Section → Option (Nat × String)
  | .receiveReplication (.commit false) m leaderId =>
    if (ensureReplicationLeader p.app.config.replication p.app.consensus m leaderId).isOk then
      some (m.epoch, trim leaderId)
    else none
  | _ => none

/-- A node runs a section, and its messages are sent. -/
def runSection (c : Cluster) (n : String) (e : Section) : Cluster :=
  let p := c.nodes n
  noteLeader
    { c with
      nodes := Function.update c.nodes n (p.act e)
      votes := ((p.grants e).map fun vote => ⟨n, vote.1.candidateId, vote.1.term⟩).toList ++
        ((p.stands e).map fun term => ⟨n, n, term⟩).toList ++ c.votes
      replications := (p.sends e).map (fun message => (message.1, message.2, n)) ++ c.replications
      prepared := ((p.answers e).map fun m => (n, m)).toList ++ c.prepared
      assumed := (fetchedLeader p e).toList ++ c.assumed } n

/-- A node has started again: no thread is left. -/
def started (c : Cluster) (n : String) (app : App) : Cluster :=
  noteLeader
    { c with
      nodes := Function.update c.nodes n ⟨app, [], none, .idle⟩
      assumed :=
        (app.consensus.leaderId.map fun leaderId => (app.consensus.currentTerm, leaderId)).toList ++
          c.assumed } n

/-- One event of a cluster. What cannot happen changes nothing. -/
def act (c : Cluster) : Event → Cluster
  | .run n e => if n ∈ mem.peers ∧ c.offers mem n e then c.runSection n e else c
  | .requestVotes n status =>
    match (c.nodes n).election with
    | .electing term =>
      { c with
        requests := voteRequest (c.nodes n).app.config.replication term status :: c.requests }
    | _ => c
  | .sendHeartbeats n =>
    if n ∈ mem.peers ∧ (c.nodes n).app.consensus.role = .leader then
      { c with
        heartbeats := ⟨mem.clusterId, (c.nodes n).app.consensus.currentTerm, n⟩ :: c.heartbeats }
    else c
  | .fetch n m =>
    match (c.nodes n).app.currentLeaderPeer with
    | some leaderId =>
      if m ∈ (c.nodes leaderId).app.state.mutations then
        { c with fetched := (n, m, leaderId) :: c.fetched }
      else c
    | none => c
  | .serve n ord =>
    { c with
      snapshots :=
        (c.nodes n).app.disk.snapshot.getD ((c.nodes n).app.state.snapshot ord) :: c.snapshots
      streams := (c.nodes n).app.state.idempotencyMutations ord :: c.streams }
  | .restart n disk =>
    -- whatever write the crash has interrupted, it was not that of the consensus state
    if n ∈ mem.peers ∧ disk.consensus = (c.nodes n).app.disk.consensus then
      match boot (c.nodes n).app.config disk with
      | .ok app => c.started n app
      | .error _ => c
    else c

/-- A run of a cluster. -/
def acts (c : Cluster) (events : List Event) : Cluster := events.foldl (act mem) c

/-- A node of the cluster that has just started. -/
structure StartsNode (n : String) (p : Process) : Prop where
  clusterId : p.app.config.replication.clusterId = mem.clusterId
  nodeId : p.app.config.replication.nodeId = n
  peers : p.app.config.replication.peers = mem.peers
  quorum : p.app.config.replication.quorum = mem.quorum
  boot : ∃ disk, Globacl.boot p.app.config disk = .ok p.app
  threads : p.threads = []
  round : p.round = none
  election : p.election = .idle

/-- A cluster whose nodes have just started, before any message. -/
structure Starts (c : Cluster) : Prop where
  nodes : ∀ n ∈ mem.peers, StartsNode mem n (c.nodes n)
  requests : c.requests = []
  votes : c.votes = []
  heartbeats : c.heartbeats = []
  replications : c.replications = []
  prepared : c.prepared = []
  fetched : c.fetched = []
  snapshots : c.snapshots = []
  streams : c.streams = []
  leaders : c.leaders = []
  assumed : ∀ n ∈ mem.peers, ∀ leaderId, (c.nodes n).app.consensus.leaderId = some leaderId →
    ((c.nodes n).app.consensus.currentTerm, leaderId) ∈ c.assumed

end Cluster

end Globacl
