import Globacl.Commitd.Catchup
import Globacl.Commitd.Crash

/-!
# A node with a publisher that starts again

A node commits for clients and for the leader, publishes, installs snapshots, and may be started
again between two programs with or without a publisher.

* `Event`, `NodeStep`: what may happen. `Event.Safe`: a mutation of the leader is the next one, and a
  snapshot is not older than the node, nor older than the stream of operations that comes with it.
* `Serving.settled`: what memory and files hold along a run of safe events.
* `published_recovers_iff`: a start with a publisher recovers the memory exactly if each log is
  complete, or each begins right behind the stored offset.
-/

namespace Globacl

open Lib Prog

/-- A node, and the offsets that its publisher will store when it has sent what it read. -/
structure Node where
  app : App
  publishing : Option (List Nat)

/-- What happens to a node. -/
inductive Event where
  /-- A request or a compaction. -/
  | work (c : Program Unit)
  /-- A mutation that the leader committed, as a message or pulled from it. -/
  | replicate (ord : IterOrder) (m : Mutation) (requirePending : Bool) (leaderId : Option String)
  | install (ord : IterOrder) (snapshot : Snapshot) (ids : List Mutation)
  | collect
  | publish
  | publishFailed
  /-- A vote, a heartbeat, or a prepared or aborted mutation. -/
  | consensus (cs : ConsensusState) (file : Nat × String) (pending : HashMap (Nat × Nat) Mutation)
  | start (ord : IterOrder) (config : Config)

/-- The program of a replicated mutation. -/
def replicateProgram (ord : IterOrder) (m : Mutation) (requirePending : Bool) :
    Option String → Program ApplyStatus
  | some leaderId => commitReplicatedMutationFromLeader ord m requirePending leaderId
  | none => commitReplicatedMutation ord m requirePending

/-- The node after a start that finds these files. -/
inductive Starts (n : Nat) (ord : IterOrder) (config : Config) (disk : Disk) : Node → Prop
  | intro {app : App} (hn : config.shardCount = n) (h : boot config disk = .ok app) :
      Starts n ord config disk ⟨(finishStartup ord app).final, none⟩

inductive NodeStep (n : Nat) : Node → Event → Node → Prop
  | work {node : Node} {c : Program Unit} (hw : Work .ready c) :
      NodeStep n node (.work c) { node with app := (c node.app).final }
  | replicate {node : Node} (ord : IterOrder) {m : Mutation} (requirePending : Bool)
      (leaderId : Option String) (hm : m.Routed n) :
      NodeStep n node (.replicate ord m requirePending leaderId)
        { node with app := (replicateProgram ord m requirePending leaderId node.app).final }
  | install {node : Node} (ord : IterOrder) {snapshot : Snapshot} {ids before after : List Mutation}
      (hs : Served n snapshot ids before after) :
      NodeStep n node (.install ord snapshot ids)
        { node with app := (installSnapshotFromLeader ord snapshot ids node.app).final }
  | collect {node : Node} : NodeStep n node .collect { node with publishing := node.app.collectPublished }
  | publish {node : Node} {offsets : List Nat} (h : node.publishing = some offsets) :
      NodeStep n node .publish ⟨(finishPublish offsets node.app).final, none⟩
  | publishFailed {node : Node} : NodeStep n node .publishFailed { node with publishing := none }
  | consensus {node : Node} (cs : ConsensusState) (file : Nat × String)
      (pending : HashMap (Nat × Nat) Mutation) :
      NodeStep n node (.consensus cs file pending) { node with app := { node.app with
        consensus := cs, disk := { node.app.disk with consensus := some file, pending } } }
  | start {node node' : Node} {ord : IterOrder} {config : Config}
      (h : Starts n ord config node.app.disk node') : NodeStep n node (.start ord config) node'

/-- A mutation of the leader is one that the node has, or the next one with a new operation id; a
snapshot is not behind the node, and the stream served after it has nothing that is not in it. -/
def Event.Safe (st : SourceOfTruth) : Event → Prop
  | .replicate _ m _ _ => m.seq ≤ st.watermark m.shard ∨
      m.seq = st.watermark m.shard + 1 ∧ m.opId ∉ st.opIndex
  | .install _ snapshot ids => NothingAbove snapshot ids ∧ NotBehind st snapshot
  | _ => True

/-- The nodes that a run of safe events reaches. -/
inductive Serving (n : Nat) : Node → Prop
  | first {ord : IterOrder} {config : Config} {node : Node}
      (h : Starts n ord config Disk.empty node) : Serving n node
  | step {node node' : Node} {e : Event} (h : Serving n node) (hs : NodeStep n node e node')
      (safe : e.Safe node.app.state) : Serving n node'

/-- A start with the stored offsets finds the source in memory. -/
def PublishedRecovers (n : Nat) (app : App) : Prop :=
  ∃ st, loadSourceOfTruth app.disk n app.config.replication.clusterId
      (some (loadPublisherOffsets app.disk n)) = .ok st ∧ st.Agrees app.state

/-! ## What a run keeps -/

section Runs

variable {n : Nat}

/-- Whatever a program did, it ended in one of the two ways of its triple. -/
theorem settled_final {p : App → Prop} {α : Type} {c : Program α} {r : App → Prop}
    (h : Triple p c (fun _ => Settled n) (Settled n) r) {app : App} (hp : p app) :
    Settled n (c app).final := by
  cases hc : (c app).result with
  | ok a => exact h.ok app a hp hc
  | error err => exact h.error app err hp hc

theorem loadPublisherOffsets_length (disk : Disk) (n : Nat) :
    (loadPublisherOffsets disk n).length = n := by
  unfold loadPublisherOffsets
  split
  · exact List.length_replicate
  · rw [List.length_map, List.length_range]

/-- A start, with or without a publisher, from files whose snapshot is current. -/
theorem holding_boot_current {config : Config} {disk : Disk} {app : App} (hpos : 0 < n)
    {history : List Mutation} {first : Nat → Nat} (hgood : GoodHistory n history)
    (hd : DiskHolds n history first disk)
    (hcurrent : ∀ snapshot, disk.snapshot = some snapshot →
      ∃ st ord, SourceOfTruth.Holds n history st ∧ snapshot = st.snapshot ord)
    (hn : config.shardCount = n) (hb : boot config disk = .ok app) :
    Holding n history history app := by
  cases hp : config.publisher with
  | false => exact holding_boot hd hgood hpos hn hp hb
  | true =>
    simp only [boot, hn, hp, if_true] at hb
    cases hl : loadSourceOfTruth disk n config.replication.clusterId
        (some (loadPublisherOffsets disk n)) with
    | error err => rw [hl] at hb; cases hb
    | ok st =>
      rw [hl] at hb
      cases hb
      refine ⟨?_, first, hd⟩
      cases hsnap : disk.snapshot with
      | none =>
        -- without a snapshot the offsets are not looked at
        obtain ⟨st', hst', hr⟩ := hd.load hpos hgood.valid hgood.distinctOps
          config.replication.clusterId
        simp only [loadSourceOfTruth, hsnap] at hl hst'
        cases hl.symm.trans hst'
        exact hr
      | some snapshot =>
        obtain ⟨st₀, ord, h₀, rfl⟩ := hcurrent snapshot hsnap
        exact ((hd.load_published h₀ hsnap hgood.distinctOps _
          (loadPublisherOffsets_length disk n)).2 st hl).1

theorem Starts.settled {ord : IterOrder} {config : Config} {disk : Disk} {node : Node}
    (h : Starts n ord config disk node) (hpos : 0 < n) {history : List Mutation}
    {first : Nat → Nat} (hgood : GoodHistory n history) (hd : DiskHolds n history first disk)
    (hcurrent : ∀ snapshot, disk.snapshot = some snapshot →
      ∃ st ord, SourceOfTruth.Holds n history st ∧ snapshot = st.snapshot ord) :
    Settled n node.app := by
  obtain ⟨hn, hb⟩ := h
  exact settled_final (settled_finishStartup ord)
    ⟨history, holding_boot_current hpos hgood hd hcurrent hn hb⟩

theorem Idle.current_snapshot {history : List Mutation} {app : App} (h : Idle n history app)
    (snapshot : Snapshot) (hs : app.disk.snapshot = some snapshot) :
    ∃ st ord, SourceOfTruth.Holds n history st ∧ snapshot = st.snapshot ord := by
  obtain ⟨st, ord, hst, heq⟩ := h.current
  cases heq.symm.trans hs
  exact ⟨st, ord, hst, rfl⟩

/-- What a safe event keeps. -/
theorem NodeStep.settled (hpos : 0 < n) {node node' : Node} {e : Event} (h : Settled n node.app)
    (hs : NodeStep n node e node') (safe : e.Safe node.app.state) : Settled n node'.app := by
  obtain ⟨history, hidle⟩ := h
  cases hs with
  | work hw => exact settled_final (hw.triple n) ⟨history, hidle⟩
  | replicate ord requirePending leaderId hm =>
    rename_i m
    have hm : m.seq ≤ node.app.state.watermark m.shard ∨ GoodHistory n (history ++ [m]) :=
      safe.imp_right fun ⟨hseq, hfresh⟩ => SourceOfTruth.Next.good hidle.mem.toRepresents
        ⟨by rw [hidle.mem.shardCount]; exact hm, hseq, hfresh⟩
    cases leaderId with
    | none => exact settled_final (settled_commitReplicatedMutation ord requirePending hm) ⟨rfl, hidle⟩
    | some leaderId =>
      exact settled_final (settled_commitReplicatedMutationFromLeader ord requirePending leaderId hm)
        ⟨rfl, hidle⟩
  | install ord hserved =>
    exact settled_final ((idle_installSnapshotFromLeader ord hserved safe.1 safe.2).conseq
      (fun _ h => h) (fun _ _ h => ⟨_, h⟩) (fun _ h => h.elim) fun _ h => h) ⟨rfl, hidle⟩
  | collect => exact ⟨history, hidle⟩
  | publish _ =>
    obtain ⟨first, hd⟩ := hidle.disk
    exact ⟨history, ⟨hidle.mem, first, hd.of_unread rfl rfl rfl⟩, hidle.current⟩
  | publishFailed => exact ⟨history, hidle⟩
  | consensus cs file pending =>
    exact ⟨history, (hidle.of_consensus cs).of_unread rfl rfl rfl⟩
  | start hstart =>
    obtain ⟨first, hd⟩ := hidle.disk
    exact hstart.settled hpos hidle.mem.good hd hidle.current_snapshot

theorem Serving.settled (hpos : 0 < n) {node : Node} (h : Serving n node) :
    Settled n node.app := by
  induction h with
  | first hstart =>
    exact @Starts.settled _ _ _ _ _ hstart hpos [] _ ⟨⟨by simp, by simp⟩, List.nodup_nil⟩
      (diskHolds_empty n) fun _ heq => by cases heq
  | step _ hs safe ih => exact hs.settled hpos ih safe

/-- After a run of safe events, a start with the stored offsets recovers the memory exactly if the
logs fit the offsets. -/
theorem published_recovers_iff (hpos : 0 < n) {node : Node} (h : Serving n node) :
    PublishedRecovers n node.app ↔
      LogsFit node.app.disk n node.app.state.watermark
        ((loadPublisherOffsets node.app.disk n).getD · 0) := by
  obtain ⟨history, hidle⟩ := h.settled hpos
  obtain ⟨first, hd⟩ := hidle.disk
  obtain ⟨st₀, ord, h₀, hsnap⟩ := hidle.current
  have hwm : node.app.state.watermark = fun s => (shardLog history s).length :=
    funext hidle.mem.watermark
  obtain ⟨hok, hload⟩ := hd.load_published h₀ hsnap hidle.mem.good.distinctOps
    node.app.config.replication.clusterId (loadPublisherOffsets_length node.app.disk n)
  rw [hwm]
  constructor
  · rintro ⟨st, hst, -⟩
    exact (hload st hst).2
  · intro hfit
    obtain ⟨st, hst⟩ := hok hfit
    exact ⟨st, hst, (hload st hst).1.agrees hidle.mem.toRepresents⟩

end Runs

/-! ## A publisher that goes on after a compaction

One shard, with a publisher from the first start on: a commit is published, the log is compacted up
to its offset, and a second commit is published. The log now begins in front of the offset. -/

namespace PublishedTwice

def config : Config where
  shardCount := 1
  replication := ⟨"cluster", "node-1", none, ["node-1"], 1⟩
  minLogEntries := 10000
  compactOnStartup := true
  publisher := true

def fresh : App where
  config := config
  state := SourceOfTruth.new 1 "cluster"
  consensus := ⟨1, none, .leader, some "node-1"⟩
  lastPublished := [0]
  disk := Disk.empty

def request (opId key : String) : DenyRequest :=
  { opId, tenantId := "acme", namespace' := "user", key, action := .deny, priority := 10,
    reasonCode := "manual", expiresAt := 0, createdBy := "operator", deliveryPriority := .p0 }

def peers : Peers := ⟨fun _ => .ok (), fun _ cs => cs⟩

def deny (opId key : String) : Program Unit := do
  let _ ← commitRequest .given peers 100 (request opId key)
  pure ()

/-- The node after a program. -/
def after (c : Program Unit) (app : App) : App := (c app).final

def started : App := after (finishStartup .given) fresh
def first : App := after (finishPublish [1]) (after (deny "op-1" "alice") started)
def compacted : App := after (compactMutationLogs .given true) first
def second : App := after (finishPublish [2]) (after (deny "op-2" "bob") compacted)

theorem serving_work {app : App} {c : Program Unit} (h : Serving 1 ⟨app, none⟩)
    (hw : Work .ready c) : Serving 1 ⟨after c app, none⟩ := h.step (.work hw) trivial

theorem serving_published {app : App} {offsets : List Nat} (h : Serving 1 ⟨app, none⟩)
    (hc : app.collectPublished = some offsets) :
    Serving 1 ⟨after (finishPublish offsets) app, none⟩ :=
  (h.step .collect trivial).step (.publish hc) trivial

theorem serving_first : Serving 1 ⟨first, none⟩ :=
  serving_published (serving_work (.first (@Starts.intro _ .given config _ _ rfl rfl))
    (.deny ..)) (by decide +kernel)

theorem serving_compacted : Serving 1 ⟨compacted, none⟩ := serving_work serving_first (.compact ..)

theorem collect_second :
    (after (deny "op-2" "bob") compacted).collectPublished = some [2] := by
  decide +kernel

theorem serving_denied : Serving 1 ⟨after (deny "op-2" "bob") compacted, none⟩ :=
  serving_work serving_compacted (.deny ..)

theorem serving_second : Serving 1 ⟨second, none⟩ := by
  unfold second
  exact serving_published serving_denied collect_second

theorem load_second :
    (loadSourceOfTruth second.disk 1 second.config.replication.clusterId
      (some (loadPublisherOffsets second.disk 1))).toBool = false := by
  decide +kernel

theorem fit_compacted : LogsFit compacted.disk 1 compacted.state.watermark
    ((loadPublisherOffsets compacted.disk 1).getD · 0) := by
  right
  decide +kernel

end PublishedTwice

/-- Right after the compaction the logs fit, so a start would recover the memory. -/
theorem published_recovers_iff_compacted : PublishedRecovers 1 PublishedTwice.compacted := by
  have h := published_recovers_iff Nat.one_pos PublishedTwice.serving_compacted
  dsimp only at h
  exact h.mpr PublishedTwice.fit_compacted

/-- When the offset moves on, no start with the publisher succeeds. -/
theorem published_unrecovered_publishedTwice :
    ∃ node, Serving 1 node ∧ ¬PublishedRecovers 1 node.app := by
  refine ⟨_, PublishedTwice.serving_second, ?_⟩
  rintro ⟨st, hst, -⟩
  have hfail := PublishedTwice.load_second
  generalize loadSourceOfTruth PublishedTwice.second.disk 1 _ _ = x at hfail hst
  subst hst
  cases hfail

end Globacl
