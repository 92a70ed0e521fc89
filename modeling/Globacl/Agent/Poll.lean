import Globacl.Agent.Relay
import Globacl.Lib.Crash

/-!
# The polls of an agent (`globacl-agent/src/app/poll.rs`)

An agent polls its relay: shard by shard it applies the mutations above its own watermark, writes
the snapshot file, swaps the new state in and acknowledges it. A gap is repaired with a bundle of
mutations, or with a snapshot of all shards.

The source calls `repair_from_snapshot` in three places, each time as the last thing that a poll
does. Here a poll says that it comes to it (`Flow.repairFromSnapshot`), and `pollOnce` calls it.
-/

namespace Globacl

open Lib Prog

/-- `DELTA_COMPACT_THRESHOLD`. -/
def deltaCompactThreshold : Nat := 1024

namespace ActiveState

/-- The loop of `poll_once` over the mutations of a reply: how many of them were applied, and the
state after them. -/
def applyMutations (a : ActiveState) (applied : Nat) : List Mutation → Result (Nat × ActiveState)
  | [] => .ok (applied, a)
  | m :: mutations =>
    match a.applyMutation m with
    | .ok (.applied, a) => applyMutations a (applied + 1) mutations
    | .ok (.duplicateOrOld, a) => applyMutations a applied mutations
    | .error err => .error err

/-- The compaction of a large overlay. -/
def compactIfLarge (ord : IterOrder) (a : ActiveState) : Result ActiveState :=
  if a.deltaEntriesLen ≥ deltaCompactThreshold then a.compactDeltaOverlay ord else .ok a

end ActiveState

namespace Agent

/-- `AgentMetrics`. -/
structure AgentMetrics where
  lastSyncUnix : Nat
  lastSuccessfulPollUnix : Nat
  appliedMutations : Nat
  repairs : Nat
  bundleRepairs : Nat
  snapshotRepairs : Nat
  lastCanaryKey : String
  lastCanarySeq : Nat
  lastCanarySeenUnix : Nat

/-- `App` of the agent, with the snapshot file and the acknowledgements that were sent. -/
structure App where
  agentId : String
  state : ActiveState
  snapshotFile : Snapshot
  metrics : AgentMetrics
  acked : List PopAck

abbrev Program := Prog App GlobAclError

/-- How a poll goes on after a shard. -/
inductive Flow where
  | next
  | returned
  | repairFromSnapshot
  deriving DecidableEq

/-- `load_or_fetch_snapshot` (`snapshot.rs`): the snapshot file, as it is verified and read, or the
snapshot that is fetched if there is none. -/
def loadOrFetchSnapshot (relay : Relay) : Option (Result Snapshot) → Result Snapshot
  | some file => file
  | none => do
    let snapshot ← relay.fetchSnapshot
    relay.writeFile snapshot
    pure snapshot

/-- `build_app` (`bootstrap.rs`). -/
def buildApp (relay : Relay) (agentId : String) (file : Option (Result Snapshot)) : Result App := do
  let snapshot ← loadOrFetchSnapshot relay file
  let state ← ActiveState.fromSnapshot snapshot
  pure
    { agentId, state
      snapshotFile := snapshot
      metrics := ⟨relay.nowUnix, relay.nowUnix, 0, 0, 0, 0, "", 0, 0⟩
      acked := [] }

/-- `write_snapshot_file`: the new file replaces the old one, or an error leaves it. -/
def writeSnapshotFile (relay : Relay) (snapshot : Snapshot) : Program Unit := do
  lift (relay.writeFile snapshot)
  step fun app => { app with snapshotFile := snapshot }

/-- `swap_state`. -/
def swapState (next : ActiveState) : Program Unit :=
  step fun app => { app with state := next }

/-- A change of the metrics under their lock. -/
def updateMetrics (f : AgentMetrics → AgentMetrics) : Program Unit :=
  step fun app => { app with metrics := f app.metrics }

/-- `send_ack`. -/
def sendAck (relay : Relay) (shardId seq entries : Nat) : Program Unit := do
  let app ← get
  let ack : PopAck := ⟨app.agentId, shardId, seq, entries, relay.nowUnix⟩
  step fun app => { app with acked := app.acked ++ [ack] }
  let response ← lift (relay.ack ack)
  if response.statusCode ≠ 200 then
    lift (.error (.invalidData s!"relay returned status {response.statusCode} for ack"))

/-- `check_canary`. -/
def checkCanary (relay : Relay) : Program Unit := do
  let response ← lift relay.canary
  if response.statusCode ≠ 200 then pure ()
  else do
    let form ← lift response.body
    if form.status ≠ some "ok" then pure ()
    else
      match form.key with
      | none => pure ()
      | some key => do
        let app ← get
        if (app.state.lookup "globacl" "canary" key relay.nowUnix).isDenied then
          updateMetrics fun m =>
            { m with
              lastCanaryKey := key
              lastCanarySeq := form.seq
              lastCanarySeenUnix := relay.nowUnix }

/-- The acknowledgements of a new state: one for each shard that is not empty. -/
def ackTargets (state : ActiveState) : List (Nat × Nat × Nat) :=
  (state.watermarks.zipIdx.filter fun (seq, _) => decide (seq > 0)).map fun (seq, shardId) =>
    (shardId, seq, state.entriesLen)

/-- `repair_from_snapshot`. -/
def repairFromSnapshot (relay : Relay) : Program Unit := do
  let snapshot ← lift relay.fetchSnapshot
  writeSnapshotFile relay snapshot
  let state ← lift (ActiveState.fromSnapshot snapshot)
  swapState state
  forEach (fun (shardId, seq, entries) => sendAck relay shardId seq entries) (ackTargets state)
  updateMetrics fun m =>
    { m with
      lastSyncUnix := relay.nowUnix
      lastSuccessfulPollUnix := relay.nowUnix
      repairs := m.repairs + 1
      snapshotRepairs := m.snapshotRepairs + 1 }

/-- What `poll_once` and `repair_gap` do with a state that has new mutations. -/
def install (ord : IterOrder) (relay : Relay) (state : ActiveState) : Program Unit := do
  writeSnapshotFile relay (state.snapshot ord)
  swapState state

/-- The bundle of `repair_gap`, if the relay has one. -/
def repairWithBundle (ord : IterOrder) (relay : Relay) (shardId : Nat) (mutations : List Mutation) :
    Program Unit := do
  let current ← get
  let (_, state) ← lift (current.state.applyMutations 0 mutations)
  let state ← lift (state.compactIfLarge ord)
  install ord relay state
  sendAck relay shardId (state.watermark shardId) state.entriesLen
  updateMetrics fun m =>
    { m with
      lastSyncUnix := relay.nowUnix
      lastSuccessfulPollUnix := relay.nowUnix
      repairs := m.repairs + 1
      bundleRepairs := m.bundleRepairs + 1 }

/-- `repair_gap`. -/
def repairGap (ord : IterOrder) (relay : Relay) (shardId fromSeq toSeq : Nat) : Program Flow :=
  if toSeq ≥ fromSeq then do
    let bundle := relay.deltaBundle shardId fromSeq toSeq
    let response ← lift bundle.response
    if response.statusCode = 200 then do
      lift (verifyRemotePayloadSignature bundle.signature)
      let mutations ← lift response.body
      if mutations.isEmpty then pure .repairFromSnapshot
      else do
        repairWithBundle ord relay shardId mutations
        pure .returned
    else pure .repairFromSnapshot
  else pure .repairFromSnapshot

/-- What `poll_once` does with the mutations of a shard. -/
def applyPolled (ord : IterOrder) (relay : Relay) (shardId : Nat) (mutations : List Mutation) :
    Program Flow := do
  let current ← get
  match current.state.applyMutations 0 mutations with
  | .error (.gap shardId expectedSeq receivedSeq) =>
    repairGap ord relay shardId (expectedSeq - 1) (receivedSeq - 1)
  | .error err => lift (.error err)
  | .ok (applied, state) => do
    let state ← lift (state.compactIfLarge ord)
    install ord relay state
    updateMetrics fun m =>
      { m with
        lastSyncUnix := relay.nowUnix
        appliedMutations := m.appliedMutations + applied }
    sendAck relay shardId (state.watermark shardId) state.entriesLen
    pure .next

/-- One turn of the loop of `poll_once`. -/
def pollShard (ord : IterOrder) (relay : Relay) (remote : Option (List Nat)) (shardId : Nat) :
    Program Flow := do
  let app ← get
  let fromSeq := app.state.watermark shardId
  if (remote.any fun remote => remote.getD shardId fromSeq ≤ fromSeq) then pure .next
  else do
    let polled := relay.mutations shardId fromSeq
    let response ← lift polled.response
    if response.statusCode = 409 ∨ response.statusCode = 410 then pure .repairFromSnapshot
    else if response.statusCode ≠ 200 then
      let path := s!"/v1/mutations?shard={shardId}&from_seq={fromSeq}"
      lift (.error (.invalidData s!"relay returned status {response.statusCode} for {path}"))
    else do
      lift (verifyRemotePayloadSignature polled.signature)
      let mutations ← lift response.body
      if mutations.isEmpty then pure .next
      else applyPolled ord relay shardId mutations

/-- The loop of `poll_once`. -/
def pollShards (ord : IterOrder) (relay : Relay) (remote : Option (List Nat)) :
    List Nat → Program Flow
  | [] => pure .next
  | shardId :: shards => do
    match ← pollShard ord relay remote shardId with
    | .next => pollShards ord relay remote shards
    | flow => pure flow

/-- `poll_once` up to the end of its loop. -/
def pollUntilRepair (ord : IterOrder) (relay : Relay) : Program Flow := do
  let app ← get
  pollShards ord relay relay.fetchWatermarks.toOption (List.range app.state.shardCount)

/-- `poll_once`. -/
def pollOnce (ord : IterOrder) (relay : Relay) : Program Unit := do
  match ← pollUntilRepair ord relay with
  | .returned => pure ()
  | .repairFromSnapshot => repairFromSnapshot relay
  | .next => do
    checkCanary relay
    updateMetrics fun m => { m with lastSuccessfulPollUnix := relay.nowUnix }

end Agent

end Globacl
