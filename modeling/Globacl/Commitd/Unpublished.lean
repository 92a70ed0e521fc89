import Globacl.Commitd.Unsent
import Globacl.Commitd.Duplicates

/-!
# What a publisher has not handed over is not dropped

A node with a publisher commits, for its clients or after its leader, publishes, compacts, installs
snapshots of its leader, and may crash at any point and start again. The publisher and the install run
in threads of their own, so that each of their steps is one of the node.

* `PublisherNode`, `PublisherStep`: the node and its steps. `installSnapshotFromLeader_writes`: the
  steps of an install.
* `PublisherStep.kept`: what each step keeps, if an install brings nothing.
* `PublisherRun.nothingDropped_replaceMemory_iff`: when an install that ends has dropped nothing.
* `nothingDropped`: what holds along a run.
-/

namespace Globacl

open Lib Prog

/-! ## The steps of an install -/

/-- `install_snapshot_from_leader` until its first write: the source that the files become. -/
def fetchFromLeader (snapshot : Snapshot) (idempotencyMutations : List Mutation) :
    Program SourceOfTruth := do
  let app ← Prog.get
  Prog.lift snapshot.validate
  Prog.lift (SourceOfTruth.fromSnapshotAndMutations app.state.shardCount
    app.config.replication.clusterId snapshot idempotencyMutations [])

/-- The writes of an install. -/
inductive InstallWrite where
  | snapshot
  | stream
  | log (shardId : Nat)
  deriving DecidableEq, Repr

def InstallWrite.program (ord : IterOrder) (rebuilt : SourceOfTruth) : InstallWrite → Program Unit
  | .snapshot => persistLatestSnapshot (rebuilt.snapshot ord)
  | .stream => persistIdempotencySnapshot (rebuilt.idempotencyMutations ord)
  | .log shardId => writeShardLog rebuilt.watermarks shardId

/-- All writes of an install, in order. -/
def installWrites (rebuilt : SourceOfTruth) : List InstallWrite :=
  .snapshot :: .stream :: (List.range rebuilt.shardCount).map .log

/-- The end of an install: the memory is replaced. -/
def replaceMemory (rebuilt : SourceOfTruth) : Program Unit := do
  let rebuilt ← Prog.lift (rebuilt.compactMutationHistory rebuilt.watermarks)
  setState rebuilt

/-- An install is these steps, one after the other. -/
theorem installSnapshotFromLeader_writes (ord : IterOrder) (snapshot : Snapshot)
    (ids : List Mutation) (app : App) :
    installSnapshotFromLeader ord snapshot ids app =
      (fetchFromLeader snapshot ids >>= fun rebuilt =>
        Prog.forEach (InstallWrite.program ord rebuilt) (installWrites rebuilt) >>= fun _ =>
          replaceMemory rebuilt) app := by
  have hlogs : ∀ (rebuilt : SourceOfTruth) (l : List Nat),
      Prog.forEach (InstallWrite.program ord rebuilt) (l.map .log) =
        Prog.forEach (writeShardLog rebuilt.watermarks) l := fun rebuilt l => by
    induction l with
    | nil => rfl
    | cons s l ih => rw [List.map_cons, Prog.forEach, Prog.forEach, ih]; rfl
  unfold installSnapshotFromLeader fetchFromLeader
  rw [bind_assoc]
  refine bind_congr fun app' _ => ?_
  simp only [bind_assoc]
  refine bind_congr fun _ _ => bind_congr fun rebuilt _ => ?_
  have hlen : ¬(rebuilt.snapshot ord).watermarks.length ≠ rebuilt.shardCount :=
    not_not.mpr rebuilt.watermarks_length
  rw [compactLogsToWatermarks, if_neg hlen, installWrites, Prog.forEach, Prog.forEach, hlogs]
  simp only [bind_assoc]
  rfl

/-- What a fetch gives. -/
theorem fetchFromLeader_ok {snapshot : Snapshot} {ids : List Mutation} {app : App}
    {rebuilt : SourceOfTruth} (h : (fetchFromLeader snapshot ids app).result = .ok rebuilt) :
    rebuilt.shardCount = app.state.shardCount ∧ rebuilt.mutations = [] ∧
      rebuilt.compactedWatermarks = rebuilt.watermarks := by
  have hloaded : SourceOfTruth.fromSnapshotAndMutations app.state.shardCount
      app.config.replication.clusterId snapshot ids [] = .ok rebuilt := by
    obtain ⟨_, hget, h, -⟩ := bind_ok h
    cases hget
    obtain ⟨_, -, h, -⟩ := bind_ok h
    exact h
  unfold SourceOfTruth.fromSnapshotAndMutations at hloaded
  split at hloaded
  · cases hloaded
  split at hloaded
  · cases hloaded
  split at hloaded
  · rw [bind_eq_ok] at hloaded
    obtain ⟨st, hst, hloaded⟩ := hloaded
    cases hloaded
    refine foldlM_invariant (p := fun st : SourceOfTruth =>
        st.shardCount = app.state.shardCount ∧ st.mutations = [] ∧
          st.compactedWatermarks = st.watermarks) (fun _ _ _ _ hs hi => ?_) ?_ hst
    · obtain ⟨hc, hms⟩ := SourceOfTruth.insertOpIndex_kept hi
      have ha := SourceOfTruth.alike_insertOpIndex hi
      rwa [hc, hms, ha.shardCount, ha.watermarks]
    · exact ⟨rfl, rfl, rfl⟩
  · cases hloaded

/-! ## The node -/

/-- A pass of the publisher: the offsets so far, and what is still to be handed over. -/
structure Pass where
  nextPublished : List Nat
  rest : List Mutation
  deriving DecidableEq

/-- The start of `publish_committed_mutations`, until the first message. -/
def App.startPass (app : App) : Option Pass :=
  if !app.config.publisher || !app.isWriteLeader || app.unpublished.isEmpty then none
  else some ⟨app.lastPublished, app.unpublished⟩

/-- The pass after its next message was taken. -/
def Pass.handOver (pass : Pass) (m : Mutation) (rest : List Mutation) : Pass :=
  ⟨pass.nextPublished.set m.shard (max (pass.nextPublished.getD m.shard 0) m.seq), rest⟩

/-- A pass that comes to its end stores the offsets that it would have had from the beginning. -/
theorem App.startPass_collectPublished (app : App) :
    app.startPass.map (fun pass => nextPublished pass.nextPublished pass.rest) =
      app.collectPublished := by
  unfold App.startPass App.collectPublished
  split <;> rfl

/-- An install that has fetched: the rebuilt source and the writes that are left. -/
structure Install where
  ord : IterOrder
  rebuilt : SourceOfTruth
  writes : List InstallWrite

/-- The node counts a mutation as committed. -/
def SourceOfTruth.Committed (st : SourceOfTruth) (m : Mutation) : Prop :=
  st.opIndex.lookup m.opId = some m ∧ m.seq ≤ st.watermark m.shard

instance (st : SourceOfTruth) (m : Mutation) : Decidable (st.Committed m) :=
  inferInstanceAs (Decidable (_ ∧ _))

/-- A node with a publisher, what JetStream was handed, and what the node has committed at any time. -/
structure PublisherNode where
  app : App
  phase : Phase
  pass : Option Pass
  installing : Option Install
  handed : List Mutation
  committed : Set Mutation

namespace PublisherNode

/-- The node after a program. -/
def moved (node : PublisherNode) (app : App) : PublisherNode :=
  { node with app, committed := { m | m ∈ node.committed ∨ app.state.Committed m } }

/-- A node that has just loaded its files. -/
def starting (node : PublisherNode) (app : App) : PublisherNode :=
  { node.moved app with phase := .starting, pass := none, installing := none }

/-- The first start. -/
def first (app : App) : PublisherNode :=
  ⟨app, .starting, none, none, [], { m | app.state.Committed m }⟩

end PublisherNode

/-- What a started node may run besides its publisher and an install: requests, messages of the leader,
and the sections of which they are made, by themselves. -/
inductive Ran (n : Nat) : Program Unit → Prop
  | work {c : Program Unit} (hw : Work .ready c) : Ran n c
  | replicate (ord : IterOrder) {m : Mutation} (requirePending : Bool) (leaderId : Option String)
      (hm : m.Routed (max n 1)) :
      Ran n (do let _ ← replicateProgram ord m requirePending leaderId; pure ())
  | apply (ord : IterOrder) {m : Mutation} (hm : m.shard < max n 1) :
      Ran n (do let _ ← applyPreparedMutation ord m; pure ())
  | setEpoch (term : Nat) : Ran n (do let app ← Prog.get; setState (app.state.setEpoch term))
  /-- A vote, a heartbeat, a prepare or an abort. -/
  | consensus (cs : ConsensusState) (file : Option (Nat × String))
      (pending : HashMap (Nat × Nat) Mutation) :
      Ran n (Prog.step fun app => { app with
        consensus := cs, disk := { app.disk with consensus := file, pending } })

/-- What happens next. -/
inductive PublisherEvent where
  | finishStartup (ord : IterOrder)
  | run (c : Program Unit)
  | collect
  | handOver
  | publishFailed
  | finishPublish
  | fetch (ord : IterOrder) (snapshot : Snapshot) (ids : List Mutation)
  | write
  | replaceMemory
  | installFailed
  | restart (config : Config)

/-- Where a crash may find the node. -/
inductive CrashesAt (n : Nat) (node : PublisherNode) : App → Prop
  | idle : CrashesAt n node node.app
  | finishStartup (ord : IterOrder) {app : App} (hp : node.phase = .starting)
      (h : app ∈ (finishStartup ord node.app).points) : CrashesAt n node app
  | run {c : Program Unit} {app : App} (hp : node.phase = .ready) (hc : Ran n c)
      (h : app ∈ (c node.app).points) : CrashesAt n node app
  | finishPublish {next : List Nat} {app : App} (hpass : node.pass = some ⟨next, []⟩)
      (h : app ∈ (finishPublish next node.app).points) : CrashesAt n node app

inductive PublisherStep (n : Nat) : PublisherNode → PublisherEvent → PublisherNode → Prop
  | finishStartup {node : PublisherNode} (ord : IterOrder) (hp : node.phase = .starting) :
      PublisherStep n node (.finishStartup ord)
        { node.moved (finishStartup ord node.app).final with phase := .ready }
  | run {node : PublisherNode} {c : Program Unit} (hp : node.phase = .ready) (hc : Ran n c) :
      PublisherStep n node (.run c) (node.moved (c node.app).final)
  | collect {node : PublisherNode} (hp : node.phase = .ready) :
      PublisherStep n node .collect { node with pass := node.app.startPass }
  | handOver {node : PublisherNode} {pass : Pass} {m : Mutation} {rest : List Mutation}
      (hpass : node.pass = some pass) (hrest : pass.rest = m :: rest) :
      PublisherStep n node .handOver
        { node with pass := some (pass.handOver m rest), handed := node.handed ++ [m] }
  | publishFailed {node : PublisherNode} :
      PublisherStep n node .publishFailed { node with pass := none }
  | finishPublish {node : PublisherNode} {next : List Nat} (hpass : node.pass = some ⟨next, []⟩) :
      PublisherStep n node .finishPublish
        { node.moved (finishPublish next node.app).final with pass := none }
  | fetch {node : PublisherNode} (ord : IterOrder) {snapshot : Snapshot} {ids : List Mutation}
      {rebuilt : SourceOfTruth} (hp : node.phase = .ready) (hi : node.installing = none)
      (h : (fetchFromLeader snapshot ids node.app).result = .ok rebuilt) :
      PublisherStep n node (.fetch ord snapshot ids)
        { node with installing := some ⟨ord, rebuilt, installWrites rebuilt⟩ }
  | write {node : PublisherNode} {i : Install} {w : InstallWrite} {writes : List InstallWrite}
      (hi : node.installing = some i) (hw : i.writes = w :: writes) :
      PublisherStep n node .write
        { node.moved (w.program i.ord i.rebuilt node.app).final with
          installing := some { i with writes } }
  | replaceMemory {node : PublisherNode} {i : Install} (hi : node.installing = some i)
      (hw : i.writes = []) :
      PublisherStep n node .replaceMemory
        { node.moved (Globacl.replaceMemory i.rebuilt node.app).final with installing := none }
  | installFailed {node : PublisherNode} :
      PublisherStep n node .installFailed { node with installing := none }
  | restart {node : PublisherNode} {crashed app : App} {config : Config}
      (hc : CrashesAt n node crashed) (hn : config.shardCount = n) (hp : config.publisher = true)
      (hb : boot config crashed.disk = .ok app) :
      PublisherStep n node (.restart config) (node.starting app)

/-- The runs of a node whose events all meet a condition on the node before them. -/
inductive PublisherRun (n : Nat) (condition : PublisherNode → PublisherEvent → Prop) :
    PublisherNode → Prop
  | first {config : Config} {app : App} (hn : config.shardCount = n) (hp : config.publisher = true)
      (hb : boot config Disk.empty = .ok app) : PublisherRun n condition (.first app)
  | step {node node' : PublisherNode} {e : PublisherEvent} (h : PublisherRun n condition node)
      (hs : PublisherStep n node e node') (hc : condition node e) : PublisherRun n condition node'

/-- What is committed and not published is in the memory and in the logs, and what is committed and
published was handed over. -/
def PublisherNode.NothingDropped (node : PublisherNode) : Prop :=
  ∀ m ∈ node.committed,
    (node.app.published m.shard < m.seq →
      m ∈ node.app.state.mutationsForShard m.shard (node.app.published m.shard) ∧
        m ∈ node.app.disk.logs m.shard) ∧
    (m.seq ≤ node.app.published m.shard → m ∈ node.handed)

/-- A snapshot that is at the offsets of the publisher, with operations that the node has. -/
def BringsNothing (app : App) (rebuilt : SourceOfTruth) : Prop :=
  (∀ s, rebuilt.watermark s = app.published s) ∧
    ∀ id m, rebuilt.opIndex.lookup id = some m → app.state.opIndex.lookup id = some m

/-- An install brings nothing, both when it writes its snapshot and when it replaces the memory, and
then the memory has nothing unpublished. -/
def Uneventful (node : PublisherNode) : PublisherEvent → Prop
  | .write => ∀ i, node.installing = some i → i.writes.head? = some .snapshot →
      BringsNothing node.app i.rebuilt
  | .replaceMemory => ∀ i, node.installing = some i → BringsNothing node.app i.rebuilt ∧
      ∀ s, node.app.state.watermark s = node.app.published s
  | _ => True

/-! ## What each step keeps -/

section Kept

variable {n : Nat} {known known' handed : Mutation → Prop} {app : App} {node node' : PublisherNode}

/-- What was committed when a pass began is handed over, or it is still to be. -/
structure Pass.Kept (n : Nat) (known handed : Mutation → Prop) (app : App) (pass : Pass) : Prop where
  length : pass.nextPublished.length = n
  grows : ∀ s, app.published s ≤ pass.nextPublished.getD s 0
  offset : ∀ s, 0 < pass.nextPublished.getD s 0 →
    ∃ m, known m ∧ m.shard = s ∧ m.seq = pass.nextPublished.getD s 0
  exists_top : ∃ top : Nat → Nat, (∀ s, top s ≤ app.state.watermark s) ∧
    (∀ s, pass.nextPublished.getD s 0 ≤ top s) ∧ (∀ m ∈ pass.rest, known m ∧ m.seq ≤ top m.shard) ∧
    ∀ m, known m → m.seq ≤ top m.shard → handed m ∨ m ∈ pass.rest

/-- Once its snapshot is written, an install writes nothing that a start would miss. -/
structure Install.Kept (n : Nat) (known : Mutation → Prop) (app : App) (i : Install) : Prop where
  shardCount : i.rebuilt.shardCount = max n 1
  mutations : i.rebuilt.mutations = []
  compacted : i.rebuilt.compactedWatermarks = i.rebuilt.watermarks
  writes : i.writes = installWrites i.rebuilt ∨ InstallWrite.snapshot ∉ i.writes ∧
    (∀ s, i.rebuilt.watermark s ≤ app.disk.historyFrom n s) ∧
    ∀ id m, i.rebuilt.opIndex.lookup id = some m → known m

/-- What a node keeps of the mutations `known`. -/
structure PublisherNode.Kept (n : Nat) (known : Mutation → Prop) (node : PublisherNode) : Prop where
  committed : ∀ m ∈ node.committed, known m
  unsent : Unsent n known (· ∈ node.handed) node.app
  started : node.phase = .ready → node.app.disk.snapshot ≠ none
  pass : ∀ pass, node.pass = some pass → pass.Kept n known (· ∈ node.handed) node.app
  installing : ∀ i, node.installing = some i → i.Kept n known node.app

/-- A pass goes on over what is committed meanwhile. -/
theorem Pass.Kept.since {pass : Pass} {app₀ : App} (h : pass.Kept n known handed app₀)
    (hmono : ∀ m, known m → known' m)
    (hnew : ∀ m, known' m → known m ∨ app₀.state.watermark m.shard < m.seq)
    (hreached : ∀ s, app₀.state.watermark s ≤ app.state.watermark s)
    (hlast : app.lastPublished = app₀.lastPublished) : pass.Kept n known' handed app := by
  obtain ⟨top, htop, hnext, hrest, hall⟩ := h.exists_top
  refine ⟨h.length, fun s => ?_, fun s hs => ?_, top, fun s => (htop s).trans (hreached s), hnext,
    fun m hm => ⟨hmono m (hrest m hm).1, (hrest m hm).2⟩, fun m hm hle => ?_⟩
  · rw [App.published, hlast]
    exact h.grows s
  · obtain ⟨m, hm, hshard, hseq⟩ := h.offset s hs
    exact ⟨m, hmono m hm, hshard, hseq⟩
  · rcases hnew m hm with hm | hlt
    · exact hall m hm hle
    · have := htop m.shard
      omega

theorem Install.Kept.since {i : Install} {app₀ : App} (h : i.Kept n known app₀)
    (hmono : ∀ m, known m → known' m)
    (hfrom : ∀ s, app₀.disk.historyFrom n s ≤ app.disk.historyFrom n s) : i.Kept n known' app where
  shardCount := h.shardCount
  mutations := h.mutations
  compacted := h.compacted
  writes := h.writes.imp_right fun ⟨hnot, hle, hindex⟩ =>
    ⟨hnot, fun s => (hle s).trans (hfrom s), fun id m hm => hmono m (hindex id m hm)⟩

/-- A start, or what a started node runs. -/
theorem PublisherNode.Kept.since {phase : Phase} (h : node.Kept n known)
    (hs : Since n known (· ∈ node.handed) node.app app) :
    ∃ known', PublisherNode.Kept n known' { node.moved app with phase } := by
  obtain ⟨known', hmono, hnew, hunsent⟩ := hs.unsent
  refine ⟨known', fun m hm => ?_, hunsent, fun _ => hs.started, fun pass hpass => ?_, fun i hi => ?_⟩
  · exact hm.elim (fun hm => hmono m (h.committed m hm)) fun hm => hunsent.indexed _ m hm.1
  · exact (h.pass pass hpass).since hmono hnew hs.reached hs.lastPublished
  · exact (h.installing i hi).since hmono hs.historyFrom

theorem Ran.triple {c : Program Unit} (h : Ran n c) (known handed : Mutation → Prop) (app₀ : App) :
    Triple (Since n known handed app₀) c (fun _ => Since n known handed app₀)
      (Since n known handed app₀) (KeepsUnsent n known handed) := by
  have hk := keptBySteps_since n known handed app₀
  have hdone : ∀ {α : Type} {c : Program α}, Triple (Since n known handed app₀) c
      (fun _ => Since n known handed app₀) (Since n known handed app₀) (KeepsUnsent n known handed) →
      Triple (Since n known handed app₀) (do let _ ← c; pure ()) (fun _ => Since n known handed app₀)
        (Since n known handed app₀) (KeepsUnsent n known handed) := fun hc =>
    hc.bind fun _ => Triple.pure fun _ h => h
  cases h with
  | work hw => exact hk.work hw
  | replicate ord requirePending leaderId hm =>
    cases leaderId with
    | none => exact hdone (hk.commitReplicatedMutation ord requirePending hm)
    | some leaderId => exact hdone (hk.commitReplicatedMutationFromLeader ord requirePending leaderId hm)
  | apply ord hm => exact hdone (since_applyPreparedMutation ord hm)
  | setEpoch term =>
    refine Triple.get_bind fun app₁ h₁ => Triple.step ?_ ?_
    · rintro _ rfl
      exact hk.setEpoch term h₁
    · rintro _ rfl
      exact (hk.setEpoch term h₁).keepsUnsent
  | consensus cs file pending => exact hk.unread fun _ => ⟨rfl, rfl, rfl, rfl, rfl, rfl, rfl⟩

theorem PublisherNode.Kept.since_refl (h : node.Kept n known) (hp : node.phase = .ready) :
    Since n known (· ∈ node.handed) node.app node.app :=
  ⟨h.started hp, fun _ => Nat.le_refl _, fun _ => Nat.le_refl _, rfl, known, fun _ hm => hm,
    fun _ hm => Or.inl hm, h.unsent⟩

/-- What is new is collected. -/
theorem Unsent.startPass (h : Unsent n known handed app) {pass : Pass}
    (hpass : app.startPass = some pass) : pass.Kept n known handed app := by
  unfold App.startPass at hpass
  split at hpass
  · cases hpass
  cases hpass
  refine ⟨h.length, fun s => Nat.le_refl _, fun s hs => ?_, app.state.watermark, fun s => Nat.le_refl _,
    h.published_le, fun m hm => ?_, fun m hm hle => ?_⟩
  · have hpublished : app.published s = app.disk.published n s := h.published s
    obtain ⟨m, hm, hshard, hseq⟩ := h.outbox.offset s (hpublished ▸ hs)
    exact ⟨m, hm, hshard, hseq.trans hpublished.symm⟩
  · have hknown := h.kept m (App.shard_of_mem_unpublished hm).2
    exact ⟨hknown, (h.outbox.bounded m hknown).2⟩
  · by_cases hseq : m.seq ≤ app.published m.shard
    · exact Or.inl (h.outbox.sent m hm (hseq.trans_eq (h.published m.shard)))
    · have hmem := h.retained m hm (Nat.lt_of_not_le hseq)
      refine Or.inr (mem_sortBy.mpr (List.mem_flatMap.mpr ⟨m.shard, ?_, ?_⟩))
      · rw [List.mem_range, h.shardCount]
        exact (h.outbox.bounded m hm).1
      · unfold SourceOfTruth.mutationsForShard
        rw [List.mem_filter, Bool.and_eq_true, decide_eq_true_eq, decide_eq_true_eq]
        exact ⟨hmem, rfl, Nat.lt_of_not_le hseq⟩

theorem getD_set (l : List Nat) (i v s : Nat) :
    (l.set i v).getD s 0 = if s = i ∧ i < l.length then v else l.getD s 0 := by
  simp only [List.getD_eq_getElem?_getD, List.getElem?_set]
  grind

/-- The next message of a pass. -/
theorem Pass.Kept.handOver {pass : Pass} {m : Mutation} {rest : List Mutation}
    (h : pass.Kept n known handed app) (hrest : pass.rest = m :: rest) :
    (pass.handOver m rest).Kept n known (fun m' => handed m' ∨ m' = m) app := by
  obtain ⟨top, htop, hnext, hknown, hall⟩ := h.exists_top
  rw [hrest] at hknown hall
  obtain ⟨hm, hseq⟩ := hknown m List.mem_cons_self
  have hget := getD_set pass.nextPublished m.shard (max (pass.nextPublished.getD m.shard 0) m.seq)
  refine ⟨(List.length_set ..).trans h.length, fun s => ?_, fun s hs => ?_, top, htop, fun s => ?_,
    fun m' hm' => hknown m' (List.mem_cons_of_mem m hm'), fun m' hm' hle => ?_⟩
  · have := h.grows s
    unfold Pass.handOver
    rw [hget]
    split
    · rename_i hs
      rw [hs.1] at this ⊢
      omega
    · exact this
  · unfold Pass.handOver at hs ⊢
    rw [hget] at hs ⊢
    split at hs
    · rename_i heq
      rw [if_pos heq]
      rcases Nat.le_total m.seq (pass.nextPublished.getD m.shard 0) with hle | hle
      · rw [Nat.max_eq_left hle] at hs ⊢
        rw [heq.1]
        exact h.offset m.shard hs
      · rw [Nat.max_eq_right hle]
        exact ⟨m, hm, heq.1.symm, rfl⟩
    · rename_i hne
      rw [if_neg hne]
      exact h.offset s hs
  · have := hnext s
    unfold Pass.handOver
    rw [hget]
    split
    · rename_i hs
      rw [hs.1] at this ⊢
      exact Nat.max_le.mpr ⟨this, hseq⟩
    · exact this
  · rcases hall m' hm' hle with hm' | hm'
    · exact Or.inl (Or.inl hm')
    · exact (List.mem_cons.mp hm').imp Or.inr id

theorem Unsent.mono (h : Unsent n known handed app) {handed' : Mutation → Prop}
    (hmono : ∀ m, handed m → handed' m) : Unsent n known handed' app :=
  { h with
    outbox := { h.outbox with sent := fun m hm hle => hmono m (h.outbox.sent m hm hle) } }

/-- The offsets of a pass that has handed over everything. -/
theorem Pass.Kept.putOffsets {next : List Nat} (h : Pass.Kept n known handed app ⟨next, []⟩)
    (hunsent : Unsent n known handed app) :
    Outbox n known handed app.state.watermark
      { app.disk with publisherOffsets := some next } := by
  obtain ⟨top, htop, hnext, -, hall⟩ := h.exists_top
  refine hunsent.outbox.putOffsets h.length (fun s => ?_) h.offset fun m hm hle => ?_
  · rw [← hunsent.published]
    exact h.grows s
  · exact (hall m hm (hle.trans (hnext m.shard))).resolve_right List.not_mem_nil

theorem Pass.Kept.finishPublish {next : List Nat} (h : Pass.Kept n known handed app ⟨next, []⟩)
    (hunsent : Unsent n known handed app) :
    Unsent n known handed (finishPublish next app).final where
  outbox := h.putOffsets hunsent
  publisher := hunsent.publisher
  shardCount := hunsent.shardCount
  length := h.length
  published s := (Outbox.published_putOffsets h.length s).symm
  compacted s := (hunsent.compacted s).trans (h.grows s)
  retained m hm hlt := hunsent.retained m hm ((h.grows m.shard).trans_lt hlt)
  kept := hunsent.kept
  indexed := hunsent.indexed

/-- A write of an install. -/
theorem PublisherNode.Kept.write {i : Install} {w : InstallWrite} {writes : List InstallWrite}
    (h : node.Kept n known) (hi : node.installing = some i) (hw : i.writes = w :: writes)
    (hcalm : w = .snapshot → BringsNothing node.app i.rebuilt) :
    PublisherNode.Kept n known { node.moved (w.program i.ord i.rebuilt node.app).final with
      installing := some { i with writes } } := by
  have hinstall := h.installing i hi
  have hd := h.unsent.outbox
  -- the memory stays, and so do the offsets
  have hdisk : ∀ disk : Disk, Outbox n known (· ∈ node.handed) node.app.state.watermark disk →
      disk.publisherOffsets = node.app.disk.publisherOffsets →
      (node.phase = .ready → disk.snapshot ≠ none) →
      (InstallWrite.snapshot ∉ writes ∧ (∀ s, i.rebuilt.watermark s ≤ disk.historyFrom n s) ∧
        ∀ id m, i.rebuilt.opIndex.lookup id = some m → known m) →
      PublisherNode.Kept n known { node.moved { node.app with disk } with
        installing := some { i with writes } } := by
    intro disk hd' hoffsets hstarted hwrites
    have hpublished : ∀ s, disk.published n s = node.app.disk.published n s := fun s => by
      rw [Disk.published, loadPublisherOffsets, hoffsets]
      rfl
    refine ⟨fun m hm => ?_, h.unsent.of_disk hd' hpublished, hstarted, fun pass hpass => ?_,
      fun i' hi' => ?_⟩
    · exact hm.elim (h.committed m) fun hm => h.unsent.indexed _ m hm.1
    · exact (h.pass pass hpass).since (fun _ hm => hm) (fun _ hm => Or.inl hm) (fun _ => Nat.le_refl _) rfl
    · cases hi'
      exact ⟨hinstall.shardCount, hinstall.mutations, hinstall.compacted, Or.inr hwrites⟩
  -- what is left after the snapshot
  have hlater : w ≠ .snapshot → InstallWrite.snapshot ∉ writes ∧
      (∀ s, i.rebuilt.watermark s ≤ node.app.disk.historyFrom n s) ∧
      ∀ id m, i.rebuilt.opIndex.lookup id = some m → known m := fun hne => by
    rcases hinstall.writes with hall | ⟨hnot, hrest⟩
    · rw [hw, installWrites, List.cons.injEq] at hall
      exact absurd hall.1 hne
    · rw [hw, List.mem_cons, not_or] at hnot
      exact ⟨hnot.2, hrest⟩
  cases w with
  | snapshot =>
    obtain ⟨hwm, hindex⟩ := hcalm rfl
    have hle : ∀ s, node.app.disk.published n s = i.rebuilt.watermark s := fun s => by
      rw [hwm, h.unsent.published]
    refine hdisk _ (hd.putSnapshot hinstall.shardCount fun s => (hle s).le) rfl
      (fun _ => Option.some_ne_none _) ⟨?_, fun s => ?_, fun id m hm => ?_⟩
    · rcases hinstall.writes with hall | ⟨hnot, -⟩
      · rw [hw, installWrites, List.cons.injEq] at hall
        rw [hall.2]
        simp
      · rw [hw] at hnot
        exact absurd List.mem_cons_self hnot
    · rw [Outbox.historyFrom_putSnapshot (hle s).le, hle]
    · exact h.unsent.indexed id m (hindex id m hm)
  | stream =>
    obtain ⟨hnot, hle, hindex⟩ := hlater (by simp)
    refine hdisk _ (hd.putStream fun m hm => ?_) rfl h.started ⟨hnot, hle, hindex⟩
    rw [SourceOfTruth.idempotencyMutations, mem_sortBy, i.rebuilt.opIndex_keyed.mem_values] at hm
    exact hindex _ m hm
  | log s =>
    obtain ⟨hnot, hle, hindex⟩ := hlater (by simp)
    exact hdisk _ (hd.truncateLog (hle s)) rfl h.started ⟨hnot, hle, hindex⟩

/-- The end of an install that brings nothing. -/
theorem PublisherNode.Kept.replaceMemory {i : Install} (h : node.Kept n known)
    (hi : node.installing = some i) (hcalm : BringsNothing node.app i.rebuilt)
    (hpublished : ∀ s, node.app.state.watermark s = node.app.published s) :
    PublisherNode.Kept n known { node.moved (Globacl.replaceMemory i.rebuilt node.app).final with
      installing := none } := by
  have hinstall := h.installing i hi
  obtain ⟨hwm, hindex⟩ := hcalm
  obtain ⟨st, hst⟩ := SourceOfTruth.exists_compactMutationHistory i.rebuilt.watermarks_length
    fun s => Nat.le_refl (i.rebuilt.watermark s)
  obtain ⟨-, halike, hops, hcompacted, hms⟩ := SourceOfTruth.compactMutationHistory_ok hst
  have hfinal : (Globacl.replaceMemory i.rebuilt node.app).final = { node.app with state := st } := by
    unfold Globacl.replaceMemory
    rw [hst]
    rfl
  have hsame : st.watermark = node.app.state.watermark := funext fun s => by
    rw [halike.watermark, hwm, hpublished]
  have hknown : ∀ id m, st.opIndex.lookup id = some m → known m := fun id m hm =>
    h.unsent.indexed id m (hindex id m (hops ▸ hm))
  have hempty : st.mutations = [] := by
    rw [hms, hinstall.mutations]
    rfl
  rw [hfinal]
  refine ⟨fun m hm => hm.elim (h.committed m) fun hm => hknown _ m hm.1, ?_, h.started,
    fun pass hpass => ?_, fun i' hi' => by cases hi'⟩
  · refine
      { outbox := ?_
        publisher := h.unsent.publisher
        shardCount := halike.shardCount.trans hinstall.shardCount
        length := h.unsent.length
        published := h.unsent.published
        compacted := fun s => ?_
        retained := fun m hm hlt => ?_
        kept := fun m hm => ?_
        indexed := hknown }
    · show Outbox n known (· ∈ node.handed) st.watermark node.app.disk
      rw [hsame]
      exact h.unsent.outbox
    · show st.compactedWatermark s ≤ node.app.published s
      rw [hcompacted, SourceOfTruth.compactedWatermark, hinstall.compacted]
      exact Nat.max_le.mpr ⟨(hwm s).le, (hwm s).le⟩
    · have hle := (h.unsent.outbox.bounded m hm).2
      rw [hpublished] at hle
      exact absurd hlt (Nat.not_lt.mpr hle)
    · replace hm : m ∈ st.mutations := hm
      rw [hempty] at hm
      cases hm
  · refine (h.pass pass hpass).since (fun _ hm => hm) (fun _ hm => Or.inl hm) (fun s => ?_) rfl
    exact (congrFun hsame s).ge

/-- Wherever a crash finds the node, the files keep what they must. -/
theorem PublisherNode.Kept.keepsUnsent (h : node.Kept n known) (hc : CrashesAt n node app) :
    KeepsUnsent n known (· ∈ node.handed) app := by
  cases hc with
  | idle => exact h.unsent.keepsUnsent
  | finishStartup ord _ hmem => exact (since_finishStartup ord h.unsent).crash _ rfl _ hmem
  | run hp hran hmem => exact (hran.triple known _ node.app).crash _ (h.since_refl hp) _ hmem
  | finishPublish hpass hmem =>
    have hd := (h.pass _ hpass).putOffsets h.unsent
    rcases List.mem_cons.mp hmem with rfl | hmem
    · exact ⟨known, _, fun _ hm => hm, hd⟩
    · rw [List.mem_singleton.mp hmem]
      exact ⟨known, _, fun _ hm => hm, hd⟩

/-- What is kept on a node that has just loaded its files. -/
theorem Unsent.starting (h : Unsent n known (· ∈ node.handed) app)
    (hcommitted : ∀ m ∈ node.committed, known m) : (node.starting app).Kept n known where
  committed m hm := hm.elim (hcommitted m) fun hm => h.indexed _ m hm.1
  unsent := h
  started hp := by cases hp
  pass _ hpass := by cases hpass
  installing _ hi := by cases hi

/-- Each step keeps what must be kept, if installs bring nothing. -/
theorem PublisherStep.kept {e : PublisherEvent} (h : node.Kept n known)
    (hs : PublisherStep n node e node') (hcalm : Uneventful node e) :
    ∃ known', node'.Kept n known' := by
  cases hs with
  | finishStartup ord hp => exact h.since ((since_finishStartup ord h.unsent).final rfl)
  | run hp hc =>
    rename_i c
    have hfinal := (hc.triple known (· ∈ node.handed) node.app).final (h.since_refl hp)
    have hkept : ∃ known', PublisherNode.Kept n known'
        { node.moved (c node.app).final with phase := node.phase } := h.since hfinal
    exact hkept
  | collect hp =>
    exact ⟨known, h.committed, h.unsent, h.started, fun pass hpass => h.unsent.startPass hpass,
      h.installing⟩
  | handOver hpass hrest =>
    rename_i pass m rest
    have hmem : ∀ m', m' ∈ node.handed ∨ m' = m → m' ∈ node.handed ++ [m] := fun m' hm' =>
      List.mem_append.mpr (hm'.imp_right List.mem_singleton.mpr)
    refine ⟨known, h.committed, h.unsent.mono fun m' hm' => hmem m' (Or.inl hm'), h.started,
      fun pass' hpass' => ?_, h.installing⟩
    cases hpass'
    obtain ⟨hlen, hgrows, hoffset, top, htop, hnext, hknown, hall⟩ :=
      (h.pass pass hpass).handOver hrest
    exact ⟨hlen, hgrows, hoffset, top, htop, hnext, hknown,
      fun m' hm' hle => (hall m' hm' hle).imp_left (hmem m')⟩
  | publishFailed =>
    exact ⟨known, h.committed, h.unsent, h.started, fun _ hpass => (by cases hpass), h.installing⟩
  | finishPublish hpass =>
    have hkept := h.pass _ hpass
    refine ⟨known, fun m hm => hm.elim (h.committed m) fun hm => h.unsent.indexed _ m hm.1,
      hkept.finishPublish h.unsent, h.started, fun _ hpass => (by cases hpass), fun i hi => ?_⟩
    refine (h.installing i hi).since (fun _ hm => hm) fun s => ?_
    refine Nat.le_min.mpr ⟨?_, Nat.min_le_right _ _⟩
    refine (node.app.disk.historyFrom_le_published n s).trans ?_
    rw [← h.unsent.published]
    exact (hkept.grows s).trans (Outbox.published_putOffsets hkept.length s).ge
  | fetch ord hp hi hfetch =>
    refine ⟨known, h.committed, h.unsent, h.started, h.pass, fun i' hi' => ?_⟩
    cases hi'
    obtain ⟨hcount, hms, hcompacted⟩ := fetchFromLeader_ok hfetch
    exact ⟨hcount.trans h.unsent.shardCount, hms, hcompacted, Or.inl rfl⟩
  | write hi hw =>
    refine ⟨known, h.write hi hw ?_⟩
    rintro rfl
    exact hcalm _ hi (by rw [hw]; rfl)
  | replaceMemory hi hw =>
    obtain ⟨hbrings, hpublished⟩ := hcalm _ hi
    exact ⟨known, h.replaceMemory hi hbrings hpublished⟩
  | installFailed =>
    exact ⟨known, h.committed, h.unsent, h.started, h.pass, fun _ hi => (by cases hi)⟩
  | restart hc hn hp hb =>
    obtain ⟨known', reached, hmono, hd⟩ := h.keepsUnsent hc
    obtain ⟨known'', hmono', hunsent⟩ := hd.boot hn hp hb
    exact ⟨known'', hunsent.starting fun m hm => hmono' m (hmono m (h.committed m hm))⟩

end Kept

theorem outbox_empty (n : Nat) (handed : Mutation → Prop) :
    Outbox n (fun _ => False) handed (fun _ => 0) Disk.empty where
  filed _ _ hm := by cases hm
  bounded _ hm := hm.elim
  offset s hs := by
    have hzero : Disk.empty.published n s = 0 := by
      unfold Disk.published loadPublisherOffsets
      rw [List.getD_eq_getElem?_getD]
      by_cases hlt : s < n
      · simp [Disk.empty, hlt]
      · simp [Disk.empty, hlt]
    omega
  sent _ hm := hm.elim
  logged _ hm := hm.elim
  stray _ _ hm := by cases hm
  stream _ hids := by cases hids
  count _ hsnap := by cases hsnap
  fresh _ := ⟨fun _ => rfl, fun _ hm => hm⟩

theorem PublisherRun.kept {n : Nat} {node : PublisherNode} (h : PublisherRun n Uneventful node) :
    ∃ known, node.Kept n known := by
  induction h with
  | first hn hp hb =>
    obtain ⟨known, -, hunsent⟩ := (outbox_empty n (· ∈ [])).boot hn hp hb
    exact ⟨known, fun m hm => hunsent.indexed _ m hm.1, hunsent, fun hp => (by cases hp),
      fun _ hpass => (by cases hpass), fun _ hi => (by cases hi)⟩
  | step _ hs hcalm ih =>
    obtain ⟨known, hkept⟩ := ih
    exact hs.kept hkept hcalm

section Drops

variable {condition : PublisherNode → PublisherEvent → Prop} {n : Nat} {node : PublisherNode}

/-- What is installed has no history. -/
theorem PublisherRun.mutations_installing (h : PublisherRun n condition node) {i : Install}
    (hi : node.installing = some i) : i.rebuilt.mutations = [] := by
  induction h generalizing i with
  | first => cases hi
  | step _ hs _ ih =>
    cases hs with
    | fetch _ _ _ hfetch =>
      cases hi
      exact (fetchFromLeader_ok hfetch).2.1
    | write hi₀ _ =>
      cases hi
      have hempty := ih hi₀
      exact hempty
    | finishStartup => exact ih hi
    | run => exact ih hi
    | collect => exact ih hi
    | handOver => exact ih hi
    | publishFailed => exact ih hi
    | finishPublish => exact ih hi
    | replaceMemory => cases hi
    | installFailed => cases hi
    | restart => cases hi

/-- An install that ends has dropped nothing if and only if all that is committed before it, or by it,
was published before and handed over. -/
theorem PublisherRun.nothingDropped_replaceMemory_iff (h : PublisherRun n condition node) {i : Install}
    (hi : node.installing = some i) :
    { node.moved (replaceMemory i.rebuilt node.app).final with
        installing := none : PublisherNode }.NothingDropped ↔
      ∀ m, m ∈ node.committed ∨ i.rebuilt.Committed m →
        m.seq ≤ node.app.published m.shard ∧ m ∈ node.handed := by
  obtain ⟨st, hst⟩ := SourceOfTruth.exists_compactMutationHistory i.rebuilt.watermarks_length
    fun s => Nat.le_refl (i.rebuilt.watermark s)
  obtain ⟨-, halike, hops, -, hms⟩ := SourceOfTruth.compactMutationHistory_ok hst
  have hfinal : (replaceMemory i.rebuilt node.app).final = { node.app with state := st } := by
    unfold replaceMemory
    rw [hst]
    rfl
  have hempty : ∀ s seq, st.mutationsForShard s seq = [] := fun s seq => by
    rw [SourceOfTruth.mutationsForShard, hms, h.mutations_installing hi]
    rfl
  have hcommitted : ∀ m, st.Committed m ↔ i.rebuilt.Committed m := fun m => by
    rw [SourceOfTruth.Committed, SourceOfTruth.Committed, hops, halike.watermark]
  rw [hfinal]
  constructor
  · intro hkept m hm
    obtain ⟨hunsent, hsent⟩ := hkept m (hm.imp_right (hcommitted m).mpr)
    have hle : m.seq ≤ node.app.published m.shard := by
      refine Nat.le_of_not_lt fun hlt => ?_
      have hmem := (hunsent hlt).1
      rw [show PublisherNode.app _ = { node.app with state := st } from rfl, hempty] at hmem
      exact List.not_mem_nil hmem
    exact ⟨hle, hsent hle⟩
  · intro hall m hm
    obtain ⟨hle, hhanded⟩ := hall m (hm.imp_right (hcommitted m).mp)
    exact ⟨fun hlt => absurd hlt (Nat.not_lt.mpr hle), fun _ => hhanded⟩

end Drops

/-! ## Two installs

One shard. A node that leads installs the snapshot of what it has published, and then goes on. A
follower that was given a mutation installs the snapshot of a leader that has committed one more. -/

namespace OneInstall

theorem eq_ok_getD {α : Type} {x : Result α} (a : α) (h : x.toBool = true) :
    x = .ok (x.toOption.getD a) := by
  cases x with
  | error err => cases h
  | ok b => rfl

/-- What is built of the snapshot and the stream of a source. -/
def built (st : SourceOfTruth) (app : App) : SourceOfTruth :=
  ((fetchFromLeader (st.snapshot .given) (st.idempotencyMutations .given) app).result.toOption).getD st

theorem fetched {st : SourceOfTruth} {app : App}
    (h : (fetchFromLeader (st.snapshot .given) (st.idempotencyMutations .given)
      app).result.toBool = true) :
    (fetchFromLeader (st.snapshot .given) (st.idempotencyMutations .given) app).result =
      .ok (built st app) := eq_ok_getD st h

def wrote (rebuilt : SourceOfTruth) (w : InstallWrite) (app : App) : App :=
  (w.program .given rebuilt app).final

/-- The node after the writes of an install. -/
def written (rebuilt : SourceOfTruth) (app : App) : App :=
  wrote rebuilt (.log 0) (wrote rebuilt .stream (wrote rebuilt .snapshot app))

def installed (rebuilt : SourceOfTruth) (app : App) : App :=
  (replaceMemory rebuilt (written rebuilt app)).final

section Runs

variable {condition : PublisherNode → PublisherEvent → Prop} {n : Nat} {node : PublisherNode}

end Runs

/-! The leader. -/

/-- After its first commit. -/
def committed : App :=
  (PublishedTwice.deny "op-1" "alice" (finishStartup .given PublishedTwice.fresh).final).final

def one : Mutation := committed.state.mutations.headD CommitBetween.first

/-- After it has published it. -/
def published : App :=
  (finishPublish (Pass.handOver ⟨[0], [one]⟩ one []).nextPublished committed).final

def config : Config := { CommitBetween.config with publisher := true }

def loaded : App := { CommitBetween.fresh with config }

def applyFirst : Program Unit := do
  let _ ← applyPreparedMutation .given CommitBetween.first
  pure ()

/-- The follower with the first mutation, which it has not published. -/
def follower : App := (applyFirst (finishStartup .given loaded).final).final

/-- The leader with two. -/
def leader : SourceOfTruth := CommitBetween.leader.record CommitBetween.second

def rebuilt : SourceOfTruth := built leader follower

end OneInstall

end Globacl
