import Globacl.Commitd.Acks
import Globacl.Commitd.Election
import Globacl.Control.Hop
import Globacl.Lib.Quorum

/-!
# Acks on a quorum (`globacl-commitd/src/app/propagation.rs`, `config.rs`)

The leader tells a relay that an ack is recorded once a quorum of the nodes has it. The others catch up
from the ack snapshots of their peers. Requests of any nodes overlap, a disk may take a part of a line
only, and a node may crash and start again from its log.

* `postToRemotePeersUntilQuorum`: how the answers of the peers are counted.
* `AckDisk`: what an append can leave. `Took`: what becomes of a store.
* `AckCluster.act`: one event of the stores of a cluster.
* `recorded_durable`: a recorded ack stays on a quorum, and reaches each node that reads a quorum.
-/

namespace Globacl

open Lib

/-! ## The answers of the peers -/

/-- What a `recv_timeout` of `post_to_remote_peers_until_quorum` returns. That no sender is left is the
end of a list of these. -/
inductive Arrival where
  | answer (nodeId : String) (reply : Result (HttpResponse (List UInt8)))
  | timeout

/-- The loop of `post_to_remote_peers_until_quorum`. -/
def collectAnswers (quorum : Nat) : List Arrival → Nat → Nat → List String → Nat × List String
  | [], _, replicated, failures => (replicated, failures)
  | arrival :: arrivals, pending, replicated, failures =>
    if pending = 0 ∨ quorum ≤ replicated then (replicated, failures)
    else
      match arrival with
      | .answer nodeId (.ok response) =>
        if response.statusCode = 200 then
          collectAnswers quorum arrivals (pending - 1) (replicated + 1) failures
        else
          let code := response.statusCode
          collectAnswers quorum arrivals (pending - 1) replicated
            (failures ++ [s!"{nodeId}:http_status:{code}"])
      | .answer nodeId (.error err) =>
        let text := err.display
        collectAnswers quorum arrivals (pending - 1) replicated (failures ++ [s!"{nodeId}:{text}"])
      | .timeout => (replicated, failures ++ [s!"timeout_waiting_for_{pending}_peer_responses"])

/-- `post_to_remote_peers_until_quorum`: how many nodes have answered with success, this one included,
and what has failed. -/
def postToRemotePeersUntilQuorum (cfg : ReplicationConfig) (arrivals : List Arrival) :
    Nat × List String :=
  if cfg.quorum ≤ 1 ∨ cfg.remotePeers = [] then (1, [])
  else collectAnswers cfg.quorum arrivals cfg.remotePeers.length 1 []

/-- The nodes that have answered with success. -/
def successes (arrivals : List Arrival) : List String :=
  arrivals.filterMap fun
    | .answer nodeId (.ok response) => if response.statusCode = 200 then some nodeId else none
    | _ => none

/-- The nodes that have answered. -/
def answerers (arrivals : List Arrival) : List String :=
  arrivals.filterMap fun
    | .answer nodeId _ => some nodeId
    | .timeout => none

theorem collectAnswers_le (quorum : Nat) (arrivals : List Arrival) (pending replicated : Nat)
    (failures : List String) :
    (collectAnswers quorum arrivals pending replicated failures).1 ≤
      replicated + (successes arrivals).length := by
  induction arrivals generalizing pending replicated failures with
  | nil => exact Nat.le_add_right _ _
  | cons arrival arrivals ih =>
    unfold collectAnswers
    by_cases hdone : pending = 0 ∨ quorum ≤ replicated
    · rw [if_pos hdone]
      exact Nat.le_add_right _ _
    · rw [if_neg hdone]
      rcases arrival with ⟨nodeId, err | response⟩ | _
      · exact ih _ _ _
      · by_cases hcode : response.statusCode = 200
        · have hlen : (successes (.answer nodeId (.ok response) :: arrivals)).length =
              (successes arrivals).length + 1 := by
            simp [successes, hcode]
          have hrest := ih (pending - 1) (replicated + 1) failures
          dsimp only
          rw [if_pos hcode]
          omega
        · have hsame : successes (.answer nodeId (.ok response) :: arrivals) =
              successes arrivals := by
            simp [successes, hcode]
          dsimp only
          rw [if_neg hcode, hsame]
          exact ih _ _ _
      · exact Nat.le_add_right _ _

theorem successes_sublist (arrivals : List Arrival) :
    (successes arrivals).Sublist (answerers arrivals) := by
  induction arrivals with
  | nil => exact .slnil
  | cons arrival arrivals ih =>
    rcases arrival with ⟨nodeId, err | response⟩ | _
    · exact ih.cons nodeId
    · by_cases hcode : response.statusCode = 200
      · have hsuccesses : successes (.answer nodeId (.ok response) :: arrivals) =
            nodeId :: successes arrivals := by
          simp [successes, hcode]
        rw [hsuccesses]
        exact ih.cons_cons nodeId
      · have hsuccesses : successes (.answer nodeId (.ok response) :: arrivals) =
            successes arrivals := by
          simp [successes, hcode]
        rw [hsuccesses]
        exact ih.cons nodeId
    · exact ih

/-- A quorum that was counted is one of nodes that have answered with success. -/
theorem postToRemotePeersUntilQuorum_le {cfg : ReplicationConfig} {arrivals : List Arrival}
    (hnodup : (answerers arrivals).Nodup)
    (hremote : ∀ nodeId ∈ successes arrivals, nodeId ∈ cfg.remotePeers) :
    (postToRemotePeersUntilQuorum cfg arrivals).1 ≤
      1 + cfg.peers.countP fun n => n ≠ cfg.nodeId ∧ n ∈ successes arrivals := by
  unfold postToRemotePeersUntilQuorum
  split
  · exact Nat.le_add_right _ _
  · refine (collectAnswers_le _ _ _ _ _).trans (Nat.add_le_add_left ?_ 1)
    refine length_le_countP (hnodup.sublist (successes_sublist arrivals)) fun n hn => ?_
    obtain ⟨hpeer, hself⟩ := List.mem_filter.mp (hremote n hn)
    exact ⟨hpeer, of_decide_eq_true hself, hn⟩

/-- `replicate_propagation_ack_on_quorum`. -/
def replicatePropagationAckOnQuorum (cfg : ReplicationConfig) (arrivals : List Arrival) :
    Result Unit :=
  if cfg.isClustered then
    let (replicated, failures) := postToRemotePeersUntilQuorum cfg arrivals
    let quorum := cfg.quorum
    let text := ",".intercalate failures
    if quorum ≤ replicated then .ok ()
    else
      .error (.invalidData
        s!"commitd ack quorum unavailable: replicated={replicated} quorum={quorum} failures={text}")
  else .ok ()

/-- `record_propagation_ack` until it asks the peers. -/
def beginPropagationAck (cfg : ReplicationConfig) (cs : ConsensusState) : Result Unit :=
  if cfg.isClustered then (ensureWriteAuthority cfg cs).map fun _ => () else .ok ()

/-- The rest of `record_propagation_ack`. -/
def finishPropagationAck (storage : AckStorage) (serde : SerdeJson) (cfg : ReplicationConfig)
    (store : AckStore) (ack : PropagationAck) (arrivals : List Arrival) : AckStore × Result Unit :=
  match replicatePropagationAckOnQuorum cfg arrivals with
  | .error err => (store, .error err)
  | .ok () =>
    let (store, applied) := applyPropagationAckToStore storage serde store ack
    (store, applied.map fun _ => ())

/-- The handler of `POST /internal/replication/ack`. -/
def receivePropagationAck (storage : AckStorage) (serde : SerdeJson) (clock : Clock)
    (store : AckStore) (body : List UInt8) : AckStore × Result Bool :=
  match parseJsonFields serde body >>= PropagationAck.fromJsonFields clock with
  | .error err => (store, .error err)
  | .ok ack => applyPropagationAckToStore storage serde store ack

/-! ## The snapshot of a store -/

/-- The order of `format_propagation_ack_log_snapshot`. -/
def compareAcks (left right : PropagationAck) : Ordering :=
  (compare left.relayId right.relayId).then
    ((compare left.agentId right.agentId).then (compare left.shardId right.shardId))

/-- The object with these acks. -/
def ackSnapshot (acks : List PropagationAck) : Json :=
  .object [("acks", .array (acks.map fun ack => .object ack.fields))]

/-- The acks of `format_propagation_ack_log_snapshot`. -/
def AckStore.sorted (ord : IterOrder) (store : AckStore) : List PropagationAck :=
  sortBy compareAcks (store.acks.values ord)

/-- `format_propagation_ack_log_snapshot`. -/
def formatPropagationAckLogSnapshot (serde : SerdeJson) (ord : IterOrder) (store : AckStore) :
    String :=
  serde.toString (ackSnapshot (store.sorted ord))

/-- The text of a snapshot of these acks is read as an array of their objects, each with its fields in
the order that the map of `serde_json` gives them. -/
def SerdeJson.RestoresAcks (serde : SerdeJson) (acks : List PropagationAck) : Prop :=
  ∃ values, serde.fromStr (serde.toString (ackSnapshot acks)) = .ok (.object [("acks", .array values)]) ∧
    List.Forall₂ (fun ack value => ∃ fields : List (String × Json), value = .object fields ∧
      fields.Perm ack.fields) acks values

/-! ## A disk that takes a part of a line -/

/-- What a disk does with a line that is appended to a file. -/
structure AckDisk where
  /-- How many bytes of the line are written, if the file is opened at all. -/
  takes : Option (List UInt8) → List UInt8 → Option Nat
  /-- Whether the file is synced then. -/
  syncs : Option (List UInt8) → List UInt8 → Bool

/-- The storage of the ack log on a disk. -/
def AckDisk.storage (disk : AckDisk) : AckStorage where
  append file line :=
    match disk.takes file line with
    | none => (file, .error (.io "permission denied"))
    | some size =>
      (some (file.getD [] ++ line.take size),
        if size < line.length then .error (.io "no space left on device")
        else if disk.syncs file line then .ok ()
        else .error (.io "input/output error"))

/-- The log has no line that was begun and not ended. -/
def AckStore.EndsLine (store : AckStore) : Prop := (store.log.getD []).getLast?.getD 10 = 10

instance decidableEndsLine (store : AckStore) : Decidable store.EndsLine :=
  inferInstanceAs (Decidable ((store.log.getD []).getLast?.getD 10 = 10))

/-- The store has the ack, or a later one of its key. -/
def AckStore.Has (store : AckStore) (ack : PropagationAck) : Prop :=
  ∃ held, store.acks.lookup ack.key = some held ∧ ack.seq ≤ held.seq

theorem AckStore.Has.onward {store store' : AckStore} {ack : PropagationAck} (h : store.Has ack)
    (honward : store.Onward store') : store'.Has ack := by
  obtain ⟨held, hheld, hle⟩ := h
  obtain ⟨held', hheld', hle'⟩ := honward ack.key held hheld
  exact ⟨held', hheld', hle.trans hle'⟩

/-- What an ack can make of a store: nothing, a part of its line in the log, the whole line, or the line
and the ack in memory. -/
inductive Took (serde : SerdeJson) (ack : PropagationAck) (store : AckStore) : AckStore → Prop
  | nothing : Took serde ack store store
  | part {size : Nat} (h : size < (utf8 (ackLine serde ack)).length) : Took serde ack store
      { store with log := some (store.log.getD [] ++ (utf8 (ackLine serde ack)).take size) }
  | line : Took serde ack store
      { store with log := some (store.log.getD [] ++ utf8 (ackLine serde ack)) }
  | kept : Took serde ack store (store.apply serde ack)

section Took

variable {serde : SerdeJson} {store : AckStore} {ack : PropagationAck}

theorem AckStore.has_apply : (store.apply serde ack).Has ack := by
  rcases store.apply_cases serde ack with ⟨hdrops, heq⟩ | ⟨-, heq⟩
  · rw [heq]
    obtain ⟨kept, hkept, hlt | rfl⟩ := KeepLatest.drops_iff.mp hdrops
    · exact ⟨kept, hkept, Nat.le_of_lt hlt⟩
    · exact ⟨kept, hkept, Nat.le_refl _⟩
  · rw [heq]
    exact ⟨ack, AList.lookup_insert _, Nat.le_refl _⟩

/-- On any disk, an ack that is applied without an error is kept. -/
theorem applyPropagationAckToStore_took (disk : AckDisk) :
    Took serde ack store (applyPropagationAckToStore disk.storage serde store ack).1 ∧
      ∀ changed, (applyPropagationAckToStore disk.storage serde store ack).2 = .ok changed →
        (applyPropagationAckToStore disk.storage serde store ack).1 = store.apply serde ack := by
  unfold applyPropagationAckToStore
  rcases store.apply_cases serde ack with ⟨hdrops, heq⟩ | ⟨hdrops, heq⟩
  · unfold KeepLatest.drops at hdrops
    rw [if_pos hdrops, heq]
    exact ⟨.nothing, fun _ _ => rfl⟩
  · unfold KeepLatest.drops at hdrops
    rw [if_neg (Bool.eq_false_iff.mp hdrops), appendPropagationAck, AckDisk.storage]
    dsimp only
    cases disk.takes store.log (utf8 (ackLine serde ack)) with
    | none => exact ⟨.nothing, fun _ h => (by cases h)⟩
    | some size =>
      dsimp only
      by_cases hsize : size < (utf8 (ackLine serde ack)).length
      · rw [if_pos hsize]
        exact ⟨.part hsize, fun _ h => (by cases h)⟩
      · rw [if_neg hsize, List.take_of_length_le (Nat.le_of_not_lt hsize)]
        cases disk.syncs store.log (utf8 (ackLine serde ack)) with
        | true =>
          rw [heq]
          exact ⟨heq.subst (motive := Took serde ack store) .kept, fun _ _ => rfl⟩
        | false => exact ⟨.line, fun _ h => (by cases h)⟩

end Took

/-! ## A cluster of stores -/

/-- The replication settings of a node of the cluster. -/
def Membership.config (mem : Membership) (n : String) : ReplicationConfig where
  clusterId := mem.clusterId
  nodeId := n
  initialLeaderId := none
  peers := mem.peers
  quorum := mem.quorum

/-- The ack stores of a cluster, with what its nodes have sent and answered. -/
structure AckCluster where
  stores : String → AckStore
  /-- The nodes whose last start failed. -/
  down : List String
  /-- The nodes whose log has been left within a line. -/
  cut : List String
  /-- The nodes that have started, or tried to, with such a log. -/
  lost : List String
  /-- The acks that nodes have begun to record. -/
  posted : List (String × PropagationAck)
  /-- The nodes that have answered an ack of another node with success. -/
  answered : List (String × PropagationAck)
  /-- The acks of which a relay was told that they are recorded, the first one first. -/
  recorded : List PropagationAck
  /-- The snapshots that nodes have served, with the number of acks recorded before. -/
  served : List (String × Nat × List UInt8)
  /-- The nodes that have read a snapshot to its end, with the node that has served it. -/
  read : List (String × String × Nat)

namespace AckCluster

/-- What happens next. A crash within a write is a write that fails, and a restart. -/
inductive Event where
  /-- A node begins to record an ack, in this consensus state. -/
  | post (n : String) (cs : ConsensusState) (ack : PropagationAck)
  /-- A node receives the ack of another one. -/
  | receive (n leaderId : String) (ack : PropagationAck) (clock : Clock) (disk : AckDisk)
  /-- The peers have answered, or not, and the record ends. -/
  | finish (n : String) (ack : PropagationAck) (arrivals : List Arrival) (disk : AckDisk)
  /-- A node serves its snapshot. -/
  | serve (n : String) (ord : IterOrder)
  /-- A node reads a snapshot that another one has served. -/
  | sync (n peer : String) (count : Nat) (body : List UInt8) (clock : Clock) (disk : AckDisk)
  /-- A node crashes, if it is up, and is started again. -/
  | restart (n : String) (clock : Clock)

/-- The arrivals are answers to an ack: one at most from each remote peer. -/
structure Answers (mem : Membership) (c : AckCluster) (n : String) (ack : PropagationAck)
    (arrivals : List Arrival) : Prop where
  nodup : (answerers arrivals).Nodup
  remote : ∀ peer ∈ successes arrivals, peer ∈ (mem.config n).remotePeers
  answered : ∀ peer ∈ successes arrivals, (peer, ack) ∈ c.answered

instance decidableAnswers (mem : Membership) (c : AckCluster) (n : String) (ack : PropagationAck)
    (arrivals : List Arrival) : Decidable (c.Answers mem n ack arrivals) :=
  decidable_of_iff ((answerers arrivals).Nodup ∧
      (∀ peer ∈ successes arrivals, peer ∈ (mem.config n).remotePeers) ∧
      ∀ peer ∈ successes arrivals, (peer, ack) ∈ c.answered)
    ⟨fun h => ⟨h.1, h.2.1, h.2.2⟩, fun h => ⟨h.nodup, h.remote, h.answered⟩⟩

/-- The node runs. -/
def Runs (mem : Membership) (c : AckCluster) (n : String) : Prop := n ∈ mem.peers ∧ n ∉ c.down

instance decidableRuns (mem : Membership) (c : AckCluster) (n : String) : Decidable (c.Runs mem n) :=
  inferInstanceAs (Decidable (n ∈ mem.peers ∧ n ∉ c.down))

/-- A node has written to its store. -/
def written (c : AckCluster) (n : String) (store : AckStore) : AckCluster :=
  { c with
    stores := Function.update c.stores n store
    cut := if store.EndsLine then c.cut else n :: c.cut }

variable (serde : SerdeJson) (mem : Membership)

/-- One event. What cannot happen changes nothing. -/
def act (c : AckCluster) : Event → AckCluster
  | .post n cs ack =>
    if c.Runs mem n ∧ (beginPropagationAck (mem.config n) cs).isOk then
      { c with posted := (n, ack) :: c.posted }
    else c
  | .receive n leaderId ack clock disk =>
    if c.Runs mem n ∧ n ≠ leaderId ∧ (leaderId, ack) ∈ c.posted then
      let (store, applied) := receivePropagationAck disk.storage serde clock (c.stores n)
        (utf8 (ack.toJsonBody serde))
      { c.written n store with
        answered := if applied.isOk then (n, ack) :: c.answered else c.answered }
    else c
  | .finish n ack arrivals disk =>
    if c.Runs mem n ∧ (n, ack) ∈ c.posted ∧ c.Answers mem n ack arrivals then
      let (store, finished) :=
        finishPropagationAck disk.storage serde (mem.config n) (c.stores n) ack arrivals
      { c.written n store with
        recorded := if finished.isOk then c.recorded ++ [ack] else c.recorded }
    else c
  | .serve n ord =>
    if c.Runs mem n then
      { c with
        served := (n, c.recorded.length,
          utf8 (formatPropagationAckLogSnapshot serde ord (c.stores n))) :: c.served }
    else c
  | .sync n peer count body clock disk =>
    if c.Runs mem n ∧ (peer, count, body) ∈ c.served then
      let (store, applied) :=
        applyPropagationAckLogSnapshot disk.storage serde clock (c.stores n) body
      { c.written n store with
        read := if applied.isOk then (n, peer, count) :: c.read else c.read }
    else c
  | .restart n clock =>
    let lost := if n ∈ c.cut then n :: c.lost else c.lost
    match loadPropagationAcks serde clock (c.stores n).log with
    | .ok acks =>
      { c with
        stores := Function.update c.stores n { c.stores n with acks }
        down := c.down.filter fun x => x ≠ n
        lost }
    | .error _ => { c with down := n :: c.down, lost }

/-- A run. -/
def acts (c : AckCluster) (events : List Event) : AckCluster := events.foldl (act serde mem) c

/-- A cluster before any ack. -/
def new : AckCluster where
  stores _ := .empty
  down := []
  cut := []
  lost := []
  posted := []
  answered := []
  recorded := []
  served := []
  read := []

/-- The node has the ack, in its memory and in what it would load after a crash. -/
def Keeps (c : AckCluster) (n : String) (ack : PropagationAck) : Prop :=
  (c.stores n).Has ack ∧ ∀ clock, ∃ acks,
    loadPropagationAcks serde clock (c.stores n).log = .ok acks ∧
      AckStore.Has { c.stores n with acks } ack

/-- A node has read a snapshot that a peer has served after an ack was recorded. -/
def ReadAfter (c : AckCluster) (n peer : String) (ack : PropagationAck) : Prop :=
  ∃ count, (n, peer, count) ∈ c.read ∧ ack ∈ c.recorded.take count

/-- The acks of a run: those that nodes begin to record, and what a start reads from a log that was left
within a line. -/
inductive Involved (events : List Event) (ack : PropagationAck) : Prop
  | posted {n : String} {cs : ConsensusState} (h : .post n cs ack ∈ events)
  | loaded {before : List Event} {n key : String} {clock : Clock}
      {acks : HashMap String PropagationAck} (h : before ++ [.restart n clock] <+: events)
      (hcut : n ∈ (new.acts serde mem before).cut)
      (hload : loadPropagationAcks serde clock ((new.acts serde mem before).stores n).log = .ok acks)
      (hack : acks.lookup key = some ack)

variable {serde mem} {allowed : PropagationAck → Prop} {c : AckCluster} {store store' : AckStore}

/-- What is assumed of `serde_json` on the acks of a run: it reads back their objects, and the snapshots
with one ack of a key. -/
structure Handles (serde : SerdeJson) (allowed : PropagationAck → Prop) : Prop where
  line : ∀ ack, allowed ack → serde.RestoresLine ack.fields ∧ ack.Fits
  snapshot : ∀ acks : List PropagationAck, (∀ ack ∈ acks, allowed ack) →
    (acks.map PropagationAck.key).Nodup → serde.RestoresAcks acks

/-- Distinct nodes of the cluster, as many as a quorum has. -/
structure IsQuorum (mem : Membership) (nodes : List String) : Prop where
  nodup : nodes.Nodup
  peers : ∀ n ∈ nodes, n ∈ mem.peers
  enough : mem.quorum ≤ nodes.length

theorem IsQuorum.meet {nodes nodes' : List String} (h : IsQuorum mem nodes)
    (h' : IsQuorum mem nodes') : ∃ n ∈ nodes, n ∈ nodes' := by
  have hcount : nodes.length ≤ mem.peers.countP (· ∈ nodes) :=
    length_le_countP h.nodup fun n hn => ⟨h.peers n hn, hn⟩
  have hcount' : nodes'.length ≤ mem.peers.countP (· ∈ nodes') :=
    length_le_countP h'.nodup fun n hn => ⟨h'.peers n hn, hn⟩
  have hmeet : mem.peers.length <
      mem.peers.countP (· ∈ nodes) + mem.peers.countP (· ∈ nodes') := by
    have := mem.majority
    have := h.enough
    have := h'.enough
    omega
  obtain ⟨n, -, hn, hn'⟩ := quorums_meet hmeet
  exact ⟨n, hn, hn'⟩

/-! ### One store -/

/-- The acks in memory are allowed, each under its key. -/
def Holds (allowed : PropagationAck → Prop) (store : AckStore) : Prop :=
  ∀ key held, store.acks.lookup key = some held → allowed held ∧ held.key = key

/-- A store whose log has the lines of these acks, each ended, among them those in memory. -/
def Genuine (serde : SerdeJson) (allowed : PropagationAck → Prop) (store : AckStore) : Prop :=
  ∃ journal, Wrote serde store.log journal ∧ (∀ ack ∈ journal, allowed ack) ∧
    ∀ key held, store.acks.lookup key = some held → held ∈ journal ∧ held.key = key

/-- A store goes on with acks that are allowed. It stays genuine unless its log ends within a line. -/
structure Moved (serde : SerdeJson) (allowed : PropagationAck → Prop) (store store' : AckStore) :
    Prop where
  onward : store.Onward store'
  holds : Holds allowed store → Holds allowed store'
  genuine : Genuine serde allowed store → store'.EndsLine → Genuine serde allowed store'

theorem moved_refl (store : AckStore) : Moved serde allowed store store :=
  ⟨.refl store, id, fun h _ => h⟩

/-- A step after one that left a genuine store genuine. -/
theorem Moved.after {store'' : AckStore} (h : Moved serde allowed store store')
    (hgenuine : Genuine serde allowed store → Genuine serde allowed store')
    (h' : Moved serde allowed store' store'') : Moved serde allowed store store'' where
  onward := h.onward.trans h'.onward
  holds := h'.holds ∘ h.holds
  genuine hg := h'.genuine (hgenuine hg)

/-- A line that has not come to its end. -/
theorem not_endsLine_part {ack : PropagationAck} (hline : serde.RestoresLine ack.fields)
    {bytes : List UInt8} {size : Nat} (hpos : 0 < size)
    (hsize : size < (utf8 (ackLine serde ack)).length) {acks : HashMap String PropagationAck} :
    ¬AckStore.EndsLine ⟨some (bytes ++ (utf8 (ackLine serde ack)).take size), acks⟩ := by
  have hbytes : utf8 (ackLine serde ack) = utf8 (ack.toJsonBody serde) ++ [10] := by
    rw [ackLine, utf8_append]
    rfl
  rw [hbytes, List.length_append, List.length_singleton] at hsize
  rw [hbytes, List.take_append_of_le_length (Nat.le_of_lt_succ hsize)]
  have hne : (utf8 (ack.toJsonBody serde)).take size ≠ [] := by
    rw [← List.length_pos_iff, List.length_take]
    omega
  intro hends
  have hlast : ((utf8 (ack.toJsonBody serde)).take size).getLast hne = 10 := by
    have : (bytes ++ (utf8 (ack.toJsonBody serde)).take size).getLast?.getD 10 = 10 := hends
    rwa [List.getLast?_append_of_ne_nil _ hne, List.getLast?_eq_getLast_of_ne_nil hne] at this
  -- the text of an ack has no end of a line in it
  have hmem : (10 : UInt8) ∈ utf8 (ack.toJsonBody serde) :=
    List.mem_of_mem_take (hlast ▸ List.getLast_mem hne)
  obtain ⟨c, hc, hcode, hlt⟩ := mem_of_mem_utf8 (by decide) hmem
  have hten : c = '\n' := by
    refine Char.toNat_inj.mp ?_
    have := congrArg UInt8.toNat hcode
    rw [Nat.toUInt8_eq, UInt8.toNat_ofNat'] at this
    exact (Nat.mod_eq_of_lt (by omega)).symm.trans this
  exact (toJsonBody_line hline).2.1 (hten ▸ hc)

/-- An ack moves the store, and if all of its line is written the store stays genuine. -/
theorem moved_apply {ack : PropagationAck} (hack : allowed ack) (store : AckStore) :
    Moved serde allowed store (store.apply serde ack) ∧
      (Genuine serde allowed store → Genuine serde allowed (store.apply serde ack)) := by
  have hgenuine : Genuine serde allowed store → Genuine serde allowed (store.apply serde ack) := by
    rintro ⟨journal, hwrote, hjournal, hheld⟩
    rcases store.apply_cases serde ack with ⟨-, heq⟩ | ⟨-, heq⟩
    · rw [heq]
      exact ⟨journal, hwrote, hjournal, hheld⟩
    · rw [heq]
      refine ⟨journal ++ [ack], hwrote.append ack, ?_, fun key held hlookup => ?_⟩
      · exact List.forall_mem_append.mpr ⟨hjournal, List.forall_mem_singleton.mpr hack⟩
      · rw [HashMap.lookup_insert_eq] at hlookup
        split at hlookup
        · cases hlookup
          exact ⟨List.mem_append_right _ (List.mem_singleton_self _), (‹key = ack.key›).symm⟩
        · obtain ⟨hmem, hkey⟩ := hheld key held hlookup
          exact ⟨List.mem_append_left _ hmem, hkey⟩
  refine ⟨⟨store.onward_apply serde ack, fun hholds key held hlookup => ?_, fun hg _ => hgenuine hg⟩,
    hgenuine⟩
  rw [AckStore.acks_apply] at hlookup
  rcases KeepLatest.eq_or_lookup_of_offer hlookup with ⟨rfl, rfl⟩ | hold
  · exact ⟨hack, rfl⟩
  · exact hholds key held hold

theorem moved_took (hserde : Handles serde allowed) {ack : PropagationAck} (hack : allowed ack)
    (h : Took serde ack store store') : Moved serde allowed store store' := by
  cases h with
  | nothing => exact moved_refl store
  | @part size hsize =>
    refine ⟨.refl store, id, fun hg hends => ?_⟩
    rcases Nat.eq_zero_or_pos size with rfl | hpos
    · obtain ⟨journal, hwrote, hrest⟩ := hg
      rw [List.take_zero, List.append_nil]
      exact ⟨journal, hwrote.getD, hrest⟩
    · exact absurd hends (not_endsLine_part (hserde.line ack hack).1 hpos hsize)
  | line =>
    refine ⟨.refl store, id, fun ⟨journal, hwrote, hjournal, hheld⟩ _ =>
      ⟨journal ++ [ack], hwrote.append ack, ?_, fun key held hlookup => ?_⟩⟩
    · exact List.forall_mem_append.mpr ⟨hjournal, List.forall_mem_singleton.mpr hack⟩
    · obtain ⟨hmem, hkey⟩ := hheld key held hlookup
      exact ⟨List.mem_append_left _ hmem, hkey⟩
  | kept => exact (moved_apply hack store).1

theorem Genuine.holds (h : Genuine serde allowed store) : Holds allowed store := by
  obtain ⟨journal, -, hjournal, hheld⟩ := h
  exact fun key held hlookup =>
    ⟨hjournal held (hheld key held hlookup).1, (hheld key held hlookup).2⟩

/-- A start from a genuine log loads what was in memory, or later acks. -/
theorem Genuine.loads (hserde : Handles serde allowed) (hstore : Genuine serde allowed store)
    (clock : Clock) : ∃ acks, loadPropagationAcks serde clock store.log = .ok acks ∧
      store.Onward { store with acks } ∧ Genuine serde allowed { store with acks } := by
  obtain ⟨journal, hwrote, hjournal, hheld⟩ := hstore
  have hlatest := (@KeepLatest.Latest.empty _ _ _ PropagationAck.key PropagationAck.seq).foldl_replay
    journal
  rw [List.nil_append] at hlatest
  refine ⟨_, load_log hwrote (fun ack hack => hserde.line ack (hjournal ack hack)) clock,
    fun key held hlookup => ?_, journal, hwrote, hjournal, hlatest.kept⟩
  obtain ⟨hmem, rfl⟩ := hheld key held hlookup
  exact hlatest.covers held hmem

/-- What a start loads is under its keys. -/
theorem keyed_of_load {clock : Clock} {log : Option (List UInt8)}
    {acks : HashMap String PropagationAck} (h : loadPropagationAcks serde clock log = .ok acks) :
    acks.Keyed PropagationAck.key := by
  have hlines : ∀ (texts : List String) (clock : Clock) (loaded : HashMap String PropagationAck),
      loaded.Keyed PropagationAck.key → loadLines serde clock texts loaded = .ok acks →
      acks.Keyed PropagationAck.key := by
    intro texts
    induction texts with
    | nil =>
      intro _ loaded hloaded h
      cases h
      exact hloaded
    | cons text texts ih =>
      intro clock loaded hloaded h
      simp only [loadLines, bind_eq_ok] at h
      obtain ⟨value, -, ack, -, h⟩ := h
      refine ih _ _ ?_ h
      split
      · exact hloaded.insert ack
      · exact hloaded
  unfold loadPropagationAcks at h
  split at h
  · cases h
    exact .empty _
  · split at h
    · cases h
    · exact hlines _ _ _ (.empty _) h

/-- A node that receives an ack goes on with it, and if it answers with success it has it. -/
theorem receivePropagationAck_moved (hserde : Handles serde allowed) {ack : PropagationAck}
    (hack : allowed ack) (clock : Clock) (disk : AckDisk) (store : AckStore) :
    Moved serde allowed store (receivePropagationAck disk.storage serde clock store
        (utf8 (ack.toJsonBody serde))).1 ∧
      ∀ changed, (receivePropagationAck disk.storage serde clock store
        (utf8 (ack.toJsonBody serde))).2 = .ok changed →
        (receivePropagationAck disk.storage serde clock store
          (utf8 (ack.toJsonBody serde))).1.Has ack := by
  obtain ⟨hline, hfits⟩ := hserde.line ack hack
  obtain ⟨form, hparse, hform⟩ := parseJsonFields_toString hline.toRestores ack.nodup_fields
  unfold receivePropagationAck PropagationAck.toJsonBody
  rw [hparse, ok_bind, PropagationAck.fromJsonFields_fields hfits hform]
  dsimp only
  obtain ⟨htook, hok⟩ := @applyPropagationAckToStore_took serde store ack disk
  exact ⟨moved_took hserde hack htook, fun changed h => hok changed h ▸ AckStore.has_apply⟩

/-- The body is the snapshot of these acks, with one of a key. -/
structure SnapshotOf (serde : SerdeJson) (allowed : PropagationAck → Prop) (body : List UInt8)
    (acks : List PropagationAck) : Prop where
  body : body = utf8 (serde.toString (ackSnapshot acks))
  allowed : ∀ ack ∈ acks, allowed ack
  keys : (acks.map PropagationAck.key).Nodup

/-- What a store serves: all that it has. -/
theorem Holds.snapshot (hstore : Holds allowed store) (ord : IterOrder) :
    SnapshotOf serde allowed (utf8 (formatPropagationAckLogSnapshot serde ord store))
        (store.sorted ord) ∧
      ∀ ack, store.Has ack → ∃ held ∈ store.sorted ord, held.key = ack.key ∧ ack.seq ≤ held.seq := by
  have hkeyed : store.acks.Keyed PropagationAck.key := fun key held hheld => (hstore key held hheld).2
  have hmem : ∀ held, held ∈ store.sorted ord ↔ store.acks.lookup held.key = some held :=
    fun held => mem_sortBy.trans hkeyed.mem_values
  refine ⟨⟨rfl, fun held hheld => ?_, ?_⟩, fun ack hack => ?_⟩
  · exact (hstore _ held ((hmem held).mp hheld)).1
  · exact ((sortBy_perm _ _).map _).nodup_iff.mpr (hkeyed.nodup_values ord)
  · obtain ⟨held, hheld, hle⟩ := hack
    have hkey := (hstore _ held hheld).2
    exact ⟨held, (hmem held).mpr (hkey ▸ hheld), hkey, hle⟩

/-- The values of a snapshot are parsed as its acks. -/
theorem parsedAcks_snapshot (hserde : Handles serde allowed) {acks : List PropagationAck}
    (hacks : ∀ ack ∈ acks, allowed ack) {values : List Json}
    (hvalues : List.Forall₂ (fun ack value => ∃ fields : List (String × Json),
      value = .object fields ∧ fields.Perm (PropagationAck.fields ack)) acks values)
    (clock : Clock) : parsedAcks serde clock values = acks := by
  induction hvalues generalizing clock with
  | nil => rfl
  | @cons ack value acks values hvalue _ ih =>
    obtain ⟨fields, rfl, hperm⟩ := hvalue
    have hfits := (hserde.line ack (hacks ack List.mem_cons_self)).2
    have hnodup : (fields.map Prod.fst).Nodup :=
      (hperm.map Prod.fst).nodup_iff.mpr ack.nodup_fields
    have hparse : parsePropagationAckJson serde clock (.object fields) = .ok ack := by
      have hform : ∀ key value, (key, value) ∈ ack.fields →
          (fieldsToForm serde fields).lookup key = some (jsonFieldToString serde value) :=
        fun key value hmem => lookup_fieldsToForm serde hnodup (hperm.mem_iff.mpr hmem)
      exact PropagationAck.fromJsonFields_fields hfits hform clock
    unfold parsedAcks
    rw [hparse]
    exact congrArg (ack :: ·) (ih (fun ack' h => hacks ack' (List.mem_cons_of_mem _ h)) clock.next)

/-- The acks of a snapshot are applied up to the first that fails, and if none fails the store has
all of them. -/
theorem applyAckValues_moved (hserde : Handles serde allowed) (disk : AckDisk) {values : List Json}
    {clock : Clock} (hallowed : ∀ ack ∈ parsedAcks serde clock values, allowed ack) (applied : Nat)
    (store : AckStore) :
    Moved serde allowed store (applyAckValues disk.storage serde clock values applied store).1 ∧
      ∀ count, (applyAckValues disk.storage serde clock values applied store).2 = .ok count →
        ∀ ack ∈ parsedAcks serde clock values,
          (applyAckValues disk.storage serde clock values applied store).1.Has ack := by
  induction values generalizing clock applied store with
  | nil => exact ⟨moved_refl store, fun _ _ ack hack => (by cases hack)⟩
  | cons value values ih =>
    unfold applyAckValues
    unfold parsedAcks at hallowed ⊢
    cases hparse : parsePropagationAckJson serde clock value with
    | error err => exact ⟨moved_refl store, fun _ h => (by cases h)⟩
    | ok first =>
      rw [hparse] at hallowed
      dsimp only at hallowed ⊢
      obtain ⟨hfirst, hrest⟩ := List.forall_mem_cons.mp hallowed
      obtain ⟨htook, hok⟩ := @applyPropagationAckToStore_took serde store first disk
      rcases happly : applyPropagationAckToStore disk.storage serde store first with
        ⟨store', err | changed⟩
      · rw [happly] at htook
        exact ⟨moved_took hserde hfirst htook, fun _ h => (by cases h)⟩
      · rw [happly] at hok
        obtain rfl : store' = store.apply serde first := hok changed rfl
        obtain ⟨hmoved, hgenuine⟩ := @moved_apply serde allowed first hfirst store
        obtain ⟨hmoved', hall⟩ := ih hrest (if changed then applied + 1 else applied)
          (store.apply serde first)
        refine ⟨hmoved.after hgenuine hmoved', fun count hcount => ?_⟩
        exact List.forall_mem_cons.mpr ⟨AckStore.has_apply.onward hmoved'.onward, hall count hcount⟩

/-- A node that reads a snapshot goes on with its acks, and if it reads all it has all. -/
theorem applyPropagationAckLogSnapshot_moved (hserde : Handles serde allowed) {body : List UInt8}
    {acks : List PropagationAck} (hbody : SnapshotOf serde allowed body acks) (clock : Clock)
    (disk : AckDisk) (store : AckStore) :
    Moved serde allowed store
        (applyPropagationAckLogSnapshot disk.storage serde clock store body).1 ∧
      ∀ count, (applyPropagationAckLogSnapshot disk.storage serde clock store body).2 = .ok count →
        ∀ ack ∈ acks,
          (applyPropagationAckLogSnapshot disk.storage serde clock store body).1.Has ack := by
  obtain ⟨values, hparse, hvalues⟩ := hserde.snapshot acks hbody.allowed hbody.keys
  have hvalue : parseJsonBody serde body = .ok (.object [("acks", .array values)]) := by
    unfold parseJsonBody
    rw [hbody.body, fromUtf8_utf8]
    dsimp only
    rw [hparse]
  have hget : ((Json.object [("acks", .array values)]).get "acks").bind Json.asArray =
      some values := rfl
  unfold applyPropagationAckLogSnapshot
  rw [hvalue]
  dsimp only
  rw [hget]
  dsimp only
  have hacks := parsedAcks_snapshot hserde hbody.allowed hvalues clock
  have happly := applyAckValues_moved hserde disk (hacks ▸ hbody.allowed) 0 store
  rwa [hacks] at happly

/-- A record that counts a quorum: the node itself and the peers that have answered. -/
theorem quorum_of_replicated {n : String} (hn : n ∈ mem.peers) {ack : PropagationAck}
    {arrivals : List Arrival} (harrivals : c.Answers mem n ack arrivals)
    (h : replicatePropagationAckOnQuorum (mem.config n) arrivals = .ok ()) :
    ∃ keepers, IsQuorum mem keepers ∧ ∀ k ∈ keepers, k = n ∨ (k, ack) ∈ c.answered := by
  let others := mem.peers.filter fun k => k ≠ n ∧ k ∈ successes arrivals
  have hothers : ∀ k ∈ others, k ∈ mem.peers ∧ k ≠ n ∧ k ∈ successes arrivals := fun k hk =>
    ⟨(List.mem_filter.mp hk).1, of_decide_eq_true (List.mem_filter.mp hk).2⟩
  refine ⟨n :: others, ⟨?_, ?_, ?_⟩, ?_⟩
  · exact List.nodup_cons.mpr ⟨fun hmem => (hothers n hmem).2.1 rfl, mem.nodup.filter _⟩
  · exact List.forall_mem_cons.mpr ⟨hn, fun k hk => (hothers k hk).1⟩
  · have hcount := postToRemotePeersUntilQuorum_le harrivals.nodup harrivals.remote
    rw [List.countP_eq_length_filter] at hcount
    have hlength : (n :: others).length = 1 + others.length := by
      rw [List.length_cons]
      omega
    rw [hlength]
    unfold replicatePropagationAckOnQuorum at h
    split at h
    · dsimp only at h
      split at h
      · rename_i hreached
        exact hreached.trans hcount
      · cases h
    · rename_i hsingle
      have hone : mem.quorum ≤ 1 := by
        by_contra hmany
        have hquorum : (mem.config n).quorum > 1 := Nat.lt_of_not_le hmany
        refine hsingle ?_
        unfold ReplicationConfig.isClustered
        rw [Bool.or_eq_true]
        exact Or.inr (decide_eq_true hquorum)
      omega
  · intro k hk
    rcases List.mem_cons.mp hk with rfl | hk
    · exact Or.inl rfl
    · exact Or.inr (harrivals.answered k (hothers k hk).2.2)

/-- The end of a record: the store goes on with the ack, and if the relay is told that it is recorded
the node has it, and so have the peers of a quorum. -/
theorem finishPropagationAck_moved (hserde : Handles serde allowed) {n : String} (hn : n ∈ mem.peers)
    {ack : PropagationAck} (hack : allowed ack) {arrivals : List Arrival}
    (harrivals : c.Answers mem n ack arrivals) (disk : AckDisk) (store : AckStore) :
    Moved serde allowed store
        (finishPropagationAck disk.storage serde (mem.config n) store ack arrivals).1 ∧
      ((finishPropagationAck disk.storage serde (mem.config n) store ack arrivals).2 = .ok () →
        (finishPropagationAck disk.storage serde (mem.config n) store ack arrivals).1.Has ack ∧
          ∃ keepers, IsQuorum mem keepers ∧ ∀ k ∈ keepers, k = n ∨ (k, ack) ∈ c.answered) := by
  unfold finishPropagationAck
  cases hquorum : replicatePropagationAckOnQuorum (mem.config n) arrivals with
  | error err => exact ⟨moved_refl store, fun h => (by cases h)⟩
  | ok _ =>
    dsimp only
    obtain ⟨htook, hok⟩ := @applyPropagationAckToStore_took serde store ack disk
    refine ⟨moved_took hserde hack htook, fun h => ⟨?_, quorum_of_replicated hn harrivals hquorum⟩⟩
    obtain ⟨changed, hchanged, -⟩ := map_eq_ok.mp h
    exact hok changed hchanged ▸ AckStore.has_apply

/-! ### Runs -/

/-- The ack with this number is kept by these nodes, is in what they have served since it was recorded,
and is in the stores of those that have read that. Nothing is said of nodes that are lost. -/
structure Kept (serde : SerdeJson) (allowed : PropagationAck → Prop) (c : AckCluster) (i : Nat)
    (ack : PropagationAck) (keepers : List String) : Prop where
  has : ∀ n ∈ keepers, n ∉ c.lost → (c.stores n).Has ack
  served : ∀ n ∈ keepers, n ∉ c.lost → ∀ count body, (n, count, body) ∈ c.served → i < count →
    ∃ acks, SnapshotOf serde allowed body acks ∧
      ∃ held ∈ acks, held.key = ack.key ∧ ack.seq ≤ held.seq
  read : ∀ n ∈ keepers, n ∉ c.lost → ∀ reader count, reader ∉ c.lost → (reader, n, count) ∈ c.read →
    i < count → (c.stores reader).Has ack

/-- What holds between two events. -/
structure Sound (serde : SerdeJson) (mem : Membership) (allowed : PropagationAck → Prop)
    (c : AckCluster) : Prop where
  posted : ∀ n ack, (n, ack) ∈ c.posted → allowed ack
  holds : ∀ n, Holds allowed (c.stores n)
  genuine : ∀ n, n ∉ c.cut → Genuine serde allowed (c.stores n)
  lost : ∀ n ∈ c.lost, n ∈ c.cut
  answered : ∀ n ack, (n, ack) ∈ c.answered → n ∉ c.lost → (c.stores n).Has ack
  served : ∀ n count body, (n, count, body) ∈ c.served → count ≤ c.recorded.length ∧
    ∃ acks, SnapshotOf serde allowed body acks
  read : ∀ reader n count, (reader, n, count) ∈ c.read → count ≤ c.recorded.length
  recorded : ∀ i ack, c.recorded[i]? = some ack →
    ∃ keepers, IsQuorum mem keepers ∧ Kept serde allowed c i ack keepers

theorem written_self (n : String) : (c.written n store).stores n = store :=
  Function.update_self ..

/-- A node whose log was never left within a line, and is not now. -/
theorem not_mem_cut_written {n x : String} (hx : x ∉ (c.written n store).cut) :
    x ∉ c.cut ∧ (x = n → store.EndsLine) := by
  replace hx : x ∉ if store.EndsLine then c.cut else n :: c.cut := hx
  split at hx
  · exact ⟨hx, fun _ => ‹store.EndsLine›⟩
  · exact ⟨fun h => hx (List.mem_cons_of_mem _ h), fun h => absurd (h ▸ List.mem_cons_self) hx⟩

/-- A store of the cluster goes on, and more logs may be left within a line. -/
theorem Sound.update (h : Sound serde mem allowed c) {n : String} {cut : List String}
    (honward : (c.stores n).Onward store) (hholds : Holds allowed store)
    (hcut : ∀ x, x ∉ cut → x ∉ c.cut) (hgenuine : n ∉ cut → Genuine serde allowed store) :
    Sound serde mem allowed { c with stores := Function.update c.stores n store, cut } := by
  have hon : ∀ x, (c.stores x).Onward (Function.update c.stores n store x) := fun x => by
    by_cases hx : x = n
    · rw [hx, Function.update_self]
      exact honward
    · rw [Function.update_of_ne hx]
      exact .refl _
  have hall : ∀ x, Holds allowed (Function.update c.stores n store x) := fun x => by
    by_cases hx : x = n
    · rw [hx, Function.update_self]
      exact hholds
    · rw [Function.update_of_ne hx]
      exact h.holds x
  have hlogs : ∀ x, x ∉ cut → Genuine serde allowed (Function.update c.stores n store x) :=
    fun x hx => by
      by_cases hn : x = n
      · subst hn
        rw [Function.update_self]
        exact hgenuine hx
      · rw [Function.update_of_ne hn]
        exact h.genuine x (hcut x hx)
  refine { h with
    holds := hall
    genuine := hlogs
    lost := fun x hx => by_contra fun hnot => hcut x hnot (h.lost x hx)
    answered := fun x ack hack hlost => (h.answered x ack hack hlost).onward (hon x)
    recorded := fun i ack hack => ?_ }
  obtain ⟨keepers, hquorum, hkept⟩ := h.recorded i ack hack
  exact ⟨keepers, hquorum, { hkept with
    has := fun x hx hlost => (hkept.has x hx hlost).onward (hon x)
    read := fun x hx hlost reader count hreader hread hlt =>
      (hkept.read x hx hlost reader count hreader hread hlt).onward (hon reader) }⟩

theorem Sound.written (h : Sound serde mem allowed c) {n : String}
    (hstore : Moved serde allowed (c.stores n) store) :
    Sound serde mem allowed (c.written n store) :=
  h.update hstore.onward (hstore.holds (h.holds n)) (fun _ hx => (not_mem_cut_written hx).1)
    fun hn => hstore.genuine (h.genuine n (not_mem_cut_written hn).1) ((not_mem_cut_written hn).2 rfl)

/-- Nothing is said of a node any more that starts with a log that was left within a line. -/
theorem Sound.lose (h : Sound serde mem allowed c) {n : String} (hcut : n ∈ c.cut)
    {stores : String → AckStore} {down : List String} (hother : ∀ x, x ≠ n → stores x = c.stores x)
    (hholds : Holds allowed (stores n)) :
    Sound serde mem allowed { c with stores, down, lost := n :: c.lost } := by
  have hkeep : ∀ {x}, x ∉ n :: c.lost →
      x ∉ c.lost ∧ ∀ {ack}, (c.stores x).Has ack → (stores x).Has ack := fun {x} hx =>
    ⟨fun hmem => hx (List.mem_cons_of_mem _ hmem), fun {_} hhas => by
      rwa [hother x fun heq => hx (heq ▸ List.mem_cons_self)]⟩
  have hall : ∀ x, Holds allowed (stores x) := fun x => by
    by_cases hx : x = n
    · rwa [hx]
    · rw [hother x hx]
      exact h.holds x
  have hlogs : ∀ x, x ∉ c.cut → Genuine serde allowed (stores x) := fun x hx => by
    rw [hother x fun heq => hx (heq ▸ hcut)]
    exact h.genuine x hx
  refine { h with
    holds := hall
    genuine := hlogs
    lost := List.forall_mem_cons.mpr ⟨hcut, h.lost⟩
    answered := fun x ack hack hlost => (hkeep hlost).2 (h.answered x ack hack (hkeep hlost).1)
    recorded := fun i ack hack => ?_ }
  obtain ⟨keepers, hquorum, hkept⟩ := h.recorded i ack hack
  exact ⟨keepers, hquorum, {
    has := fun x hx hlost => (hkeep hlost).2 (hkept.has x hx (hkeep hlost).1)
    served := fun x hx hlost => hkept.served x hx (hkeep hlost).1
    read := fun x hx hlost reader count hreader hread hlt => (hkeep hreader).2
      (hkept.read x hx (hkeep hlost).1 reader count (hkeep hreader).1 hread hlt) }⟩

/-- A node has begun to record an ack. -/
theorem Sound.post (h : Sound serde mem allowed c) {n : String} {cs : ConsensusState}
    {ack : PropagationAck} (hack : allowed ack) :
    Sound serde mem allowed (c.act serde mem (.post n cs ack)) := by
  unfold act
  dsimp only
  split
  · refine { h with
      posted := fun x other hposted => ?_
      recorded := fun i other hother => ?_ }
    · rcases List.mem_cons.mp hposted with heq | hold
      · cases heq
        exact hack
      · exact h.posted x other hold
    · obtain ⟨keepers, hquorum, hkept⟩ := h.recorded i other hother
      exact ⟨keepers, hquorum, { hkept with }⟩
  · exact h

/-- A node has served its snapshot. -/
theorem Sound.serve (h : Sound serde mem allowed c) (n : String) (ord : IterOrder) :
    Sound serde mem allowed (c.act serde mem (.serve n ord)) := by
  obtain ⟨hsnapshot, hall⟩ := @Holds.snapshot serde allowed (c.stores n) (h.holds n) ord
  unfold act
  dsimp only
  split
  · refine { h with
      served := fun x count body hserved => ?_
      recorded := fun i ack hack => ?_ }
    · rcases List.mem_cons.mp hserved with heq | hold
      · cases heq
        exact ⟨Nat.le_refl _, _, hsnapshot⟩
      · exact h.served x count body hold
    · obtain ⟨keepers, hquorum, hkept⟩ := h.recorded i ack hack
      refine ⟨keepers, hquorum,
        { hkept with served := fun x hx hlost count body hserved hlt => ?_ }⟩
      rcases List.mem_cons.mp hserved with heq | hold
      · cases heq
        exact ⟨_, hsnapshot, hall ack (hkept.has n hx hlost)⟩
      · exact hkept.served x hx hlost count body hold hlt
  · exact h

section Act

variable (hserde : Handles serde allowed) (h : Sound serde mem allowed c)

include hserde h

/-- A record has come to its end. -/
theorem Sound.finish {n : String} {ack : PropagationAck} (arrivals : List Arrival) (disk : AckDisk) :
    Sound serde mem allowed (c.act serde mem (.finish n ack arrivals disk)) := by
  unfold act
  dsimp only
  split
  · rename_i hposted
    obtain ⟨hn, hposted, harrivals⟩ := hposted
    obtain ⟨hmoved, hrecorded⟩ := finishPropagationAck_moved hserde hn.1 (h.posted n ack hposted)
      harrivals disk (c.stores n)
    generalize finishPropagationAck disk.storage serde (mem.config n) (c.stores n) ack arrivals =
      outcome at hmoved hrecorded ⊢
    obtain ⟨store, err | ⟨⟩⟩ := outcome
    · exact h.written hmoved
    · have hstores := h.written hmoved
      obtain ⟨hhas, keepers, hquorum, hkeepers⟩ := hrecorded rfl
      have hlen : (c.recorded ++ [ack]).length = c.recorded.length + 1 := by simp
      refine { hstores with
        served := fun x count body hserved => ?_
        read := fun reader x count hread => ?_
        recorded := fun i other hother => ?_ }
      · obtain ⟨hle, hbody⟩ := h.served x count body hserved
        exact ⟨hlen ▸ Nat.le_succ_of_le hle, hbody⟩
      · exact hlen ▸ Nat.le_succ_of_le (h.read reader x count hread)
      · by_cases hi : i < c.recorded.length
        · replace hother : (c.recorded ++ [ack])[i]? = some other := hother
          rw [List.getElem?_append_left hi] at hother
          obtain ⟨keepers, hquorum, hkept⟩ := hstores.recorded i other hother
          exact ⟨keepers, hquorum, { hkept with }⟩
        · -- this ack: nothing was served or read since
          replace hother : (c.recorded ++ [ack])[i]? = some other := hother
          rw [List.getElem?_append_right (Nat.le_of_not_lt hi), List.getElem?_singleton] at hother
          obtain ⟨-, heq⟩ := Option.ite_none_right_eq_some.mp hother
          cases heq
          refine ⟨keepers, hquorum, ⟨fun x hx hlost => ?_, fun x _ _ count body hserved hlt => ?_,
            fun x _ _ reader count _ hread hlt => ?_⟩⟩
          · rcases hkeepers x hx with rfl | hanswered
            · show ((c.written x store).stores x).Has ack
              rw [written_self]
              exact hhas
            · exact hstores.answered x ack hanswered hlost
          · exact absurd (h.served x count body hserved).1 (by omega)
          · exact absurd (h.read reader x count hread) (by omega)
  · exact h

/-- A node has received an ack. -/
theorem Sound.receive {n leaderId : String} {ack : PropagationAck} (clock : Clock) (disk : AckDisk) :
    Sound serde mem allowed (c.act serde mem (.receive n leaderId ack clock disk)) := by
  unfold act
  dsimp only
  split
  · rename_i hposted
    obtain ⟨hmoved, hhas⟩ := receivePropagationAck_moved hserde (h.posted leaderId ack hposted.2.2)
      clock disk (c.stores n)
    generalize receivePropagationAck disk.storage serde clock (c.stores n)
      (utf8 (ack.toJsonBody serde)) = answer at hmoved hhas ⊢
    obtain ⟨store, err | changed⟩ := answer
    · exact h.written hmoved
    · have hstores := h.written hmoved
      refine { hstores with
        answered := fun x other hanswered hlost => ?_
        recorded := fun i other hother => ?_ }
      · rcases List.mem_cons.mp hanswered with heq | hold
        · cases heq
          show ((c.written n store).stores n).Has ack
          rw [written_self]
          exact hhas changed rfl
        · exact hstores.answered x other hold hlost
      · obtain ⟨keepers, hquorum, hkept⟩ := hstores.recorded i other hother
        exact ⟨keepers, hquorum, { hkept with }⟩
  · exact h

/-- A node has read a snapshot. -/
theorem Sound.sync {n peer : String} {count : Nat} {body : List UInt8} (clock : Clock)
    (disk : AckDisk) : Sound serde mem allowed (c.act serde mem (.sync n peer count body clock disk)) := by
  unfold act
  dsimp only
  split
  · rename_i hserved
    obtain ⟨hle, acks, hbody⟩ := h.served peer count body hserved.2
    have happly := fun acks (hbody : SnapshotOf serde allowed body acks) =>
      applyPropagationAckLogSnapshot_moved hserde hbody clock disk (c.stores n)
    generalize applyPropagationAckLogSnapshot disk.storage serde clock (c.stores n) body =
      outcome at happly ⊢
    obtain ⟨store, err | applied⟩ := outcome
    · exact h.written (happly acks hbody).1
    · have hstores := h.written (happly acks hbody).1
      refine { hstores with
        read := fun reader x k hread => ?_
        recorded := fun i ack hack => ?_ }
      · rcases List.mem_cons.mp hread with heq | hold
        · cases heq
          exact hle
        · exact h.read reader x k hold
      · obtain ⟨keepers, hquorum, hkept⟩ := hstores.recorded i ack hack
        refine ⟨keepers, hquorum,
          { hkept with read := fun x hx hlost reader k hreader hread hlt => ?_ }⟩
        rcases List.mem_cons.mp hread with heq | hold
        · cases heq
          obtain ⟨acks, hbody, held, hheld, hkey, hseq⟩ :=
            hkept.served peer hx hlost count body hserved.2 hlt
          obtain ⟨kept, hlookup, hkeptle⟩ := (happly acks hbody).2 applied rfl held hheld
          show ((c.written n store).stores n).Has ack
          rw [written_self]
          exact ⟨kept, hkey ▸ hlookup, hseq.trans hkeptle⟩
        · exact hkept.read x hx hlost reader k hreader hold hlt
  · exact h

/-- A node is started again. What a start reads from a log that was left within a line is allowed. -/
theorem Sound.restart (n : String) (clock : Clock)
    (hallowed : n ∈ c.cut → ∀ acks, loadPropagationAcks serde clock (c.stores n).log = .ok acks →
      ∀ key ack, acks.lookup key = some ack → allowed ack) :
    Sound serde mem allowed (c.act serde mem (.restart n clock)) := by
  unfold act
  dsimp only
  by_cases hcut : n ∈ c.cut
  · rw [if_pos hcut]
    cases hload : loadPropagationAcks serde clock (c.stores n).log with
    | error err => exact h.lose hcut (fun _ _ => rfl) (h.holds n)
    | ok acks =>
      refine h.lose hcut (fun x hx => Function.update_of_ne hx ..) ?_
      rw [Function.update_self]
      exact fun key held hlookup =>
        ⟨hallowed hcut acks hload key held hlookup, keyed_of_load hload key held hlookup⟩
  · -- the log gives the memory back
    obtain ⟨acks, hload, honward, hgenuine⟩ := (h.genuine n hcut).loads hserde clock
    rw [if_neg hcut, hload]
    have hstores := @Sound.update serde mem allowed c { c.stores n with acks } h n c.cut honward
      hgenuine.holds (fun _ hx => hx) fun _ => hgenuine
    exact { hstores with
      recorded := fun i ack hack => by
        obtain ⟨keepers, hquorum, hkept⟩ := hstores.recorded i ack hack
        exact ⟨keepers, hquorum, { hkept with }⟩ }

end Act

/-- Each event keeps the invariant. -/
theorem Sound.act (hserde : Handles serde allowed) (h : Sound serde mem allowed c) (event : Event)
    (hposted : ∀ n cs ack, event = .post n cs ack → allowed ack)
    (hloaded : ∀ n clock, event = .restart n clock → n ∈ c.cut → ∀ acks,
      loadPropagationAcks serde clock (c.stores n).log = .ok acks →
      ∀ key ack, acks.lookup key = some ack → allowed ack) :
    Sound serde mem allowed (c.act serde mem event) := by
  cases event with
  | post n cs ack => exact h.post (hposted n cs ack rfl)
  | receive n leaderId ack clock disk => exact h.receive hserde clock disk
  | finish n ack arrivals disk => exact h.finish hserde arrivals disk
  | serve n ord => exact h.serve n ord
  | sync n peer count body clock disk => exact h.sync hserde clock disk
  | restart n clock => exact h.restart hserde n clock (hloaded n clock rfl)

theorem sound_new : Sound serde mem allowed new where
  posted n ack h := by cases h
  holds n key held h := by cases h
  genuine n _ := ⟨[], rfl, fun ack h => (by cases h), fun key held h => (by cases h)⟩
  lost n h := by cases h
  answered n ack h := by cases h
  served n count body h := by cases h
  read reader n count h := by cases h
  recorded i ack h := by cases h

theorem acts_append (before rest : List Event) :
    c.acts serde mem (before ++ rest) = (c.acts serde mem before).acts serde mem rest :=
  List.foldl_append

theorem sound_acts (events : List Event) (hserde : Handles serde (Involved serde mem events)) :
    Sound serde mem (Involved serde mem events) (new.acts serde mem events) := by
  have hrun : ∀ before, before <+: events →
      Sound serde mem (Involved serde mem events) (new.acts serde mem before) := by
    intro before
    induction before using List.reverseRecOn with
    | nil => exact fun _ => sound_new
    | append_singleton before event ih =>
      intro hprefix
      rw [acts_append]
      have hmem : event ∈ events := hprefix.subset (List.mem_append_right _ (List.mem_singleton_self _))
      refine (ih ((List.prefix_append _ _).trans hprefix)).act hserde event (fun n cs ack heq => ?_)
        fun n clock heq hcut acks hload key ack hack => ?_
      · exact .posted (heq ▸ hmem)
      · exact .loaded (heq ▸ hprefix) hcut hload hack
  exact hrun events (List.prefix_refl events)

/-- In every run of a cluster, whichever records overlap, whatever the disks do with a line and whenever
nodes crash: an ack that was recorded is kept by a quorum. Each of these nodes has it in memory unless it
was started from a log that was left within a line, and each whose log was never left so would load it.
A node that has read snapshots which the peers of a quorum have served since has it too, unless it or one
of them was started from such a log. -/
theorem recorded_durable (serde : SerdeJson) (mem : Membership) (events : List Event)
    (hserde : Handles serde (Involved serde mem events)) :
    ∀ ack ∈ (new.acts serde mem events).recorded,
      (∃ keepers, IsQuorum mem keepers ∧ ∀ n ∈ keepers,
        (n ∉ (new.acts serde mem events).lost → ((new.acts serde mem events).stores n).Has ack) ∧
        (n ∉ (new.acts serde mem events).cut → (new.acts serde mem events).Keeps serde n ack)) ∧
      ∀ n peers, IsQuorum mem peers → n ∉ (new.acts serde mem events).lost →
        (∀ peer ∈ peers, peer ∉ (new.acts serde mem events).lost ∧
          (peer = n ∨ (new.acts serde mem events).ReadAfter n peer ack)) →
        ((new.acts serde mem events).stores n).Has ack := by
  intro ack hack
  have h := @sound_acts serde mem events hserde
  -- the first time that the ack was recorded
  obtain ⟨keepers, hquorum, hkept⟩ := h.recorded _ ack (List.getElem?_idxOf hack)
  refine ⟨⟨keepers, hquorum, fun n hn => ⟨hkept.has n hn, fun hcut => ?_⟩⟩,
    fun n peers hpeers hlost hread => ?_⟩
  · have hhas := hkept.has n hn fun hlost => hcut (h.lost n hlost)
    refine ⟨hhas, fun clock => ?_⟩
    obtain ⟨acks, hload, honward, -⟩ := (h.genuine n hcut).loads hserde clock
    exact ⟨acks, hload, hhas.onward honward⟩
  · obtain ⟨peer, hpeer, hkeeper⟩ := hpeers.meet hquorum
    obtain ⟨hpeerlost, rfl | ⟨count, hread, htaken⟩⟩ := hread peer hpeer
    · exact hkept.has peer hkeeper hlost
    · exact hkept.read peer hkeeper hpeerlost n count hlost hread
        ((List.mem_take_iff_idxOf_lt hack).mp htaken)

/-! One of three nodes writes a part of the line when the leader asks it, and reads the snapshot of another
one later. The leader is started again. -/

namespace CutLine

/-- What `serde_json` does on the ack and on the snapshots with it or without. -/
def printer : SerdeJson where
  toString
    | .object [(_, .array [])] => "none"
    | .object [(_, .array _)] => "some"
    | value => (SerdeJson.only nodeAck.fields).toString value
  fromStr text :=
    if text = "none" then .ok (ackSnapshot [])
    else if text = "some" then .ok (ackSnapshot [nodeAck])
    else .ok (.object nodeAck.fields)

/-- A disk with room for the line. -/
def roomy : AckDisk := ⟨fun _ line => some line.length, fun _ _ => true⟩

/-- A disk with room for a few bytes. -/
def narrow : AckDisk := ⟨fun _ _ => some 5, fun _ _ => true⟩

def events : List Event :=
  [.post "node-1" ⟨2, some "node-1", .leader, some "node-1"⟩ nodeAck,
    .receive "node-2" "node-1" nodeAck (fun _ => 0) roomy,
    .receive "node-3" "node-1" nodeAck (fun _ => 0) narrow,
    .finish "node-1" nodeAck [.answer "node-3" (.ok ⟨500, []⟩), .answer "node-2" (.ok ⟨200, []⟩)] roomy,
    .restart "node-1" fun _ => 0, .serve "node-2" .given,
    .sync "node-3" "node-2" 1 (utf8 "some") (fun _ => 0) roomy]

/-- No node starts from a log that was left within a line. -/
theorem eq_of_involved {ack : PropagationAck}
    (h : Involved printer Cluster.ThreeNodes.shared events ack) : ack = nodeAck := by
  cases h with
  | posted h =>
    simp only [events, List.mem_cons, reduceCtorEq, List.not_mem_nil, or_false] at h
    cases h
    rfl
  | @loaded before n _ clock _ h hcut =>
    obtain ⟨rest, hrest⟩ := h
    rcases before with _ | ⟨e₁, _ | ⟨e₂, _ | ⟨e₃, _ | ⟨e₄, _ | ⟨e₅, _ | ⟨e₆, _ | ⟨e₇, before⟩⟩⟩⟩⟩⟩⟩
    all_goals simp [events] at hrest
    obtain ⟨rfl, rfl, rfl, rfl, ⟨rfl, -⟩, -⟩ := hrest
    exact absurd hcut (by decide +kernel)

theorem handles : Handles printer (Involved printer Cluster.ThreeNodes.shared events) := by
  have hparse : printer.fromStr (printer.toString (.object nodeAck.fields)) =
      .ok (.object nodeAck.fields) := by
    simp only [printer]
    rw [if_neg (by decide +kernel), if_neg (by decide +kernel)]
  have hline : printer.RestoresLine nodeAck.fields := {
    braces := ⟨_, rfl⟩
    parse := ⟨nodeAck.fields, hparse, .refl _⟩
    oneLine := by decide +kernel }
  refine ⟨fun ack hack => eq_of_involved hack ▸ ⟨hline, by constructor <;> decide⟩,
    fun acks hacks hkeys => ?_⟩
  have hsome : SerdeJson.RestoresAcks printer [nodeAck] :=
    ⟨_, rfl, .cons ⟨nodeAck.fields, rfl, .refl _⟩ .nil⟩
  rcases acks with _ | ⟨ack, _ | ⟨ack', acks⟩⟩
  · exact ⟨[], rfl, .nil⟩
  · exact eq_of_involved (hacks ack List.mem_cons_self) ▸ hsome
  · have hack := eq_of_involved (hacks ack List.mem_cons_self)
    have hack' := eq_of_involved (hacks ack' (List.mem_cons_of_mem _ List.mem_cons_self))
    rw [hack, hack'] at hkeys
    exact absurd hkeys (by simp)

/-- The state at the end. -/
def final : AckCluster := new.acts printer Cluster.ThreeNodes.shared events

/-- The ack is recorded once node-2 has it, before the snapshot of node-2 is served and read. -/
theorem recorded_and_read :
    nodeAck ∈ final.recorded.take 1 ∧ ("node-3", "node-2", 1) ∈ final.read ∧
      final.cut = ["node-3"] ∧ final.lost = [] := by
  decide +kernel

end CutLine

open CutLine in
theorem recorded_durable_cutLine :
    final.cut = ["node-3"] ∧ (final.stores "node-3").Has nodeAck ∧
      ∃ keepers, IsQuorum Cluster.ThreeNodes.shared keepers ∧ ∀ n ∈ keepers,
        (final.stores n).Has nodeAck ∧ (n ≠ "node-3" → final.Keeps printer n nodeAck) := by
  obtain ⟨hrecorded, hread, hcut, hlost⟩ := recorded_and_read
  have hnone : ∀ n, n ∉ final.lost := fun n => hlost ▸ List.not_mem_nil
  have hdurable := recorded_durable printer Cluster.ThreeNodes.shared events handles
  rw [show new.acts printer Cluster.ThreeNodes.shared events = final from rfl] at hdurable
  obtain ⟨⟨keepers, hquorum, hkeepers⟩, hreaders⟩ := hdurable nodeAck (List.mem_of_mem_take hrecorded)
  refine ⟨hcut, ?_, keepers, hquorum, fun n hn => ⟨(hkeepers n hn).1 (hnone n), fun hne => ?_⟩⟩
  · refine hreaders "node-3" ["node-2", "node-3"] ⟨by decide, by decide, by decide⟩ (hnone _)
      fun peer hpeer => ⟨hnone peer, ?_⟩
    rcases List.mem_cons.mp hpeer with rfl | hpeer
    · exact Or.inr ⟨1, hread, hrecorded⟩
    · exact Or.inl (List.mem_singleton.mp hpeer)
  · refine (hkeepers n hn).2 fun hmem => hne ?_
    rw [hcut] at hmem
    exact List.mem_singleton.mp hmem

end AckCluster

end Globacl
