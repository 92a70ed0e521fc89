import Globacl.Agent.Poll

/-!
# Whether an agent goes back

Between two polls the snapshot file and the memory of an agent have the same watermarks, and no
acknowledgement is above them. A delta never goes back, since `apply_mutation` does not. A snapshot
replaces all shards, whichever of them needed a repair: `repair_from_snapshot` goes forward when the
snapshot that it fetched is in no shard behind the agent.

* `NotBehind`, `Covers`: the two facts about the states of a run.
* `Holding`: the watermarks in memory and on disk, with the acknowledgements below both.
* `moves_pollUntilRepair`: a poll up to its last repair always goes forward.
* `polls_notBehind`: so does a run in which each repair finds a snapshot that is not behind.
-/

namespace Globacl

open Lib Prog

namespace ActiveState

theorem fromSnapshot_watermarks {snapshot : Snapshot} {a : ActiveState}
    (h : fromSnapshot snapshot = .ok a) : a.watermarks = snapshot.watermarks := by
  unfold fromSnapshot at h
  split at h
  · cases h
  · split at h
    · cases h
    · cases h
    · cases h
      rfl

/-- A mutation never takes a watermark back. -/
theorem atLeast_applyMutation {a a' : ActiveState} {m : Mutation} {status : ApplyStatus}
    (h : a.applyMutation m = .ok (status, a')) : AtLeast a.watermarks a'.watermarks := by
  unfold applyMutation at h
  split at h
  · cases h
  · split at h
    · cases h
      exact .refl _
    · rename_i hseq
      split at h
      · cases h
      · cases h
        rw [advance_watermarks]
        exact .set (Nat.le_of_not_ge hseq)

theorem atLeast_applyMutations {mutations : List Mutation} {a a' : ActiveState}
    {applied applied' : Nat} (h : a.applyMutations applied mutations = .ok (applied', a')) :
    AtLeast a.watermarks a'.watermarks := by
  induction mutations generalizing a applied with
  | nil =>
    cases h
    exact .refl _
  | cons m mutations ih =>
    unfold applyMutations at h
    split at h
    · exact (atLeast_applyMutation ‹_›).trans (ih h)
    · exact (atLeast_applyMutation ‹_›).trans (ih h)
    · cases h

theorem compactIfLarge_watermarks {ord : IterOrder} {a a' : ActiveState}
    (h : a.compactIfLarge ord = .ok a') : a'.watermarks = a.watermarks := by
  unfold compactIfLarge at h
  split at h
  · exact compactDeltaOverlay_watermarks h
  · cases h
    rfl

end ActiveState

namespace Agent

/-- No watermark goes back, in memory or on disk. -/
structure NotBehind (app app' : App) : Prop where
  memory : AtLeast app.state.watermarks app'.state.watermarks
  file : AtLeast app.snapshotFile.watermarks app'.snapshotFile.watermarks

/-- Memory and disk have what was acknowledged. -/
def Covers (app : App) : Prop :=
  ∀ ack ∈ app.acked, ack.seq ≤ app.state.watermarks.getD ack.shardId 0 ∧
    ack.seq ≤ app.snapshotFile.watermarks.getD ack.shardId 0

/-- A step of an agent that keeps what was acknowledged. -/
def Forward (app app' : App) : Prop := NotBehind app app' ∧ Covers app'

theorem Forward.trans (a b c : App) (h : Forward a b) (h' : Forward b c) : Forward a c :=
  ⟨⟨h.1.memory.trans h'.1.memory, h.1.file.trans h'.1.file⟩, h'.2⟩

/-- The watermarks in memory and on disk. -/
structure Holding (w f : List Nat) (app : App) : Prop where
  memory : app.state.watermarks = w
  file : app.snapshotFile.watermarks = f
  covers : Covers app

/-- Between two polls, memory and disk have the same watermarks. -/
def Resting (app : App) : Prop := ∃ w, Holding w w app

variable {w f : List Nat} {relay : Relay} {e : App → Prop}

theorem Holding.forward {w' f' : List Nat} {app app' : App} (h : Holding w f app)
    (h' : Holding w' f' app') (hw : AtLeast w w') (hf : AtLeast f f') : Forward app app' := by
  refine ⟨⟨?_, ?_⟩, h'.covers⟩
  · rw [h.memory, h'.memory]
    exact hw
  · rw [h.file, h'.file]
    exact hf

theorem moves_updateMetrics {g : AgentMetrics → AgentMetrics} :
    Moves Forward (Holding w f) (updateMetrics g) (fun _ => Holding w f) e := by
  have hkeep : ∀ app, Holding w f app → Holding w f { app with metrics := g app.metrics } :=
    fun app h => ⟨h.memory, h.file, h.covers⟩
  exact Moves.step (fun app h => h.forward (hkeep app h) (.refl _) (.refl _)) hkeep

/-- An acknowledgement of what the agent has. -/
theorem moves_sendAck {shardId seq entries : Nat} (h : seq ≤ w.getD shardId 0) :
    Moves Forward (Holding w w) (sendAck relay shardId seq entries) (fun _ => Holding w w)
      Resting := by
  refine Moves.get_bind fun app₀ h₀ => ?_
  let ack : PopAck := ⟨app₀.agentId, shardId, seq, entries, relay.nowUnix⟩
  have hsent : Holding w w { app₀ with acked := app₀.acked ++ [ack] } := by
    refine ⟨h₀.memory, h₀.file, fun a ha => ?_⟩
    rcases List.mem_append.mp ha with ha | ha
    · exact h₀.covers a ha
    · rw [List.mem_singleton.mp ha, h₀.memory, h₀.file]
      exact ⟨h, h⟩
  refine Moves.bind (q := fun _ => Holding w w) (Moves.step ?_ ?_) fun _ => ?_
  · rintro _ rfl
    exact h₀.forward hsent (.refl _) (.refl _)
  · rintro _ rfl
    exact hsent
  · refine Moves.bind (q := fun _ => Holding w w) (Moves.lift (fun _ _ _ h => h)
      fun _ _ _ h => ⟨w, h⟩) fun response => ?_
    exact Moves.ite (fun _ => Moves.lift (fun _ _ _ h => h) fun _ _ _ h => ⟨w, h⟩)
      fun _ => Moves.pure fun _ h => h

/-- A snapshot that is not behind replaces the file. -/
theorem moves_writeSnapshotFile {snapshot : Snapshot}
    (h : relay.writeFile snapshot = .ok () → AtLeast w snapshot.watermarks) :
    Moves Forward (Holding w w) (writeSnapshotFile relay snapshot)
      (fun _ app => relay.writeFile snapshot = .ok () ∧ Holding w snapshot.watermarks app)
      Resting := by
  refine Moves.bind (q := fun _ app => relay.writeFile snapshot = .ok () ∧ Holding w w app)
    (Moves.lift (fun _ _ heq h => ⟨heq, h⟩) fun _ _ _ h => ⟨w, h⟩) fun _ => ?_
  refine Moves.of_fact fun hok => ?_
  have hwrite : ∀ app, Holding w w app →
      Holding w snapshot.watermarks { app with snapshotFile := snapshot } := by
    refine fun app h₀ => ⟨h₀.memory, rfl, fun ack hack => ⟨(h₀.covers ack hack).1, ?_⟩⟩
    have := (h₀.covers ack hack).2
    rw [h₀.file] at this
    exact this.trans (h hok _)
  exact Moves.step (fun app h₀ => h₀.forward (hwrite app h₀) (.refl _) (h hok))
    fun app h₀ => ⟨hok, hwrite app h₀⟩

/-- The state of the file is swapped in. -/
theorem moves_swapState {state : ActiveState} (h : AtLeast w state.watermarks) :
    Moves Forward (Holding w state.watermarks) (swapState state)
      (fun _ => Holding state.watermarks state.watermarks) e := by
  have hswap : ∀ app, Holding w state.watermarks app →
      Holding state.watermarks state.watermarks { app with state } := by
    refine fun app h₀ => ⟨rfl, h₀.file, fun ack hack => ⟨?_, (h₀.covers ack hack).2⟩⟩
    have := (h₀.covers ack hack).1
    rw [h₀.memory] at this
    exact this.trans (h _)
  exact Moves.step (fun app h₀ => h₀.forward (hswap app h₀) h (.refl _)) hswap

theorem moves_install {ord : IterOrder} {state : ActiveState} (h : AtLeast w state.watermarks) :
    Moves Forward (Holding w w) (install ord relay state)
      (fun _ => Holding state.watermarks state.watermarks) Resting :=
  Moves.bind (moves_writeSnapshotFile fun _ => h) fun _ =>
    Moves.of_fact fun _ => moves_swapState h

theorem moves_checkCanary : Moves Forward (Holding w w) (checkCanary relay)
    (fun _ => Holding w w) Resting := by
  have hlift : ∀ {α : Type} (x : Result α), Moves Forward (Holding w w) (lift x)
      (fun _ => Holding w w) Resting := fun _ =>
    Moves.lift (fun _ _ _ h => h) fun _ _ _ h => ⟨w, h⟩
  refine Moves.bind (hlift _) fun response => Moves.ite (fun _ => .pure fun _ h => h) fun _ => ?_
  refine Moves.bind (hlift _) fun form => Moves.ite (fun _ => .pure fun _ h => h) fun _ => ?_
  split
  · exact .pure fun _ h => h
  · refine Moves.get_bind fun app₀ h₀ => Moves.ite (fun _ => ?_) fun _ => .pure fun _ heq => ?_
    · exact moves_updateMetrics.conseq (fun _ heq => heq ▸ h₀) (fun _ _ h => h) fun _ h => h
    · exact heq ▸ h₀

/-! ## Deltas -/

section Deltas

variable {ord : IterOrder}

theorem moves_lift {α : Type} (x : Result α) :
    Moves Forward Resting (lift x) (fun _ => Resting) Resting :=
  Moves.lift (fun _ _ _ h => h) fun _ _ _ h => h

/-- A state with new mutations is made compact and swapped in. -/
theorem moves_compact_install {α : Type} {state : ActiveState} (h : AtLeast w state.watermarks)
    {c : ActiveState → Program α} (hc : ∀ state', Moves Forward
      (Holding state'.watermarks state'.watermarks) (c state') (fun _ => Resting) Resting) :
    Moves Forward (Holding w w)
      (do let state ← lift (state.compactIfLarge ord)
          install ord relay state
          c state)
      (fun _ => Resting) Resting := by
  refine Moves.bind (q := fun state' app => state.compactIfLarge ord = .ok state' ∧
    Holding w w app) (Moves.lift (fun _ _ heq h => ⟨heq, h⟩) fun _ _ _ h => ⟨w, h⟩) fun state' => ?_
  refine Moves.of_fact fun hstate => ?_
  rw [← ActiveState.compactIfLarge_watermarks hstate] at h
  exact Moves.bind (moves_install h) fun _ => hc state'

theorem moves_repairWithBundle (shardId : Nat) (mutations : List Mutation) :
    Moves Forward Resting (repairWithBundle ord relay shardId mutations) (fun _ => Resting)
      Resting := by
  refine Moves.get_bind fun app₀ h₀ => ?_
  obtain ⟨w, h₀⟩ := h₀
  refine Moves.bind (q := fun r app => AtLeast w r.2.watermarks ∧ Holding w w app)
    (Moves.lift (fun r app heq happ => happ ▸ ⟨?_, h₀⟩) fun _ _ _ happ => happ ▸ ⟨w, h₀⟩) ?_
  · rw [← h₀.memory]
    exact ActiveState.atLeast_applyMutations heq
  · rintro ⟨_, state⟩
    refine Moves.of_fact fun h => moves_compact_install h fun state' => ?_
    refine Moves.bind (moves_sendAck (Nat.le_refl _)) fun _ => ?_
    exact moves_updateMetrics.conseq (fun _ h => h) (fun _ _ h => ⟨_, h⟩) fun _ h => h

theorem moves_repairGap (shardId fromSeq toSeq : Nat) :
    Moves Forward Resting (repairGap ord relay shardId fromSeq toSeq) (fun _ => Resting)
      Resting := by
  have hpure : ∀ flow, Moves Forward Resting (pure flow : Program Flow) (fun _ => Resting)
      Resting := fun _ => .pure fun _ h => h
  refine Moves.ite (fun _ => ?_) fun _ => hpure _
  refine Moves.bind (moves_lift _) fun response => Moves.ite (fun _ => ?_) fun _ => hpure _
  refine Moves.bind (moves_lift _) fun _ => Moves.bind (moves_lift _) fun mutations => ?_
  refine Moves.ite (fun _ => hpure _) fun _ => ?_
  exact Moves.bind (moves_repairWithBundle shardId mutations) fun _ => hpure _

theorem moves_applyPolled (shardId : Nat) (mutations : List Mutation) :
    Moves Forward Resting (applyPolled ord relay shardId mutations) (fun _ => Resting)
      Resting := by
  refine Moves.get_bind fun app₀ h₀ => ?_
  split
  · exact (moves_repairGap _ _ _).conseq (fun _ heq => heq ▸ h₀) (fun _ _ h => h) fun _ h => h
  · exact (moves_lift _).conseq (fun _ heq => heq ▸ h₀) (fun _ _ h => h) fun _ h => h
  · rename_i applied state happly
    obtain ⟨w, h₀⟩ := h₀
    have h : AtLeast w state.watermarks := by
      rw [← h₀.memory]
      exact ActiveState.atLeast_applyMutations happly
    refine Moves.conseq (moves_compact_install h fun state' => ?_) (fun _ heq => heq ▸ h₀)
      (fun _ _ h => h) fun _ h => h
    refine Moves.bind moves_updateMetrics fun _ => ?_
    exact Moves.bind (moves_sendAck (Nat.le_refl _)) fun _ => .pure fun _ h => ⟨_, h⟩

theorem moves_pollShard (remote : Option (List Nat)) (shardId : Nat) :
    Moves Forward Resting (pollShard ord relay remote shardId) (fun _ => Resting) Resting := by
  refine Moves.get_bind fun app₀ h₀ => ?_
  have hpure : ∀ flow, Moves Forward Resting (pure flow : Program Flow) (fun _ => Resting)
      Resting := fun _ => .pure fun _ h => h
  refine Moves.conseq (p := Resting) ?_ (fun _ heq => heq ▸ h₀) (fun _ _ h => h) fun _ h => h
  refine Moves.ite (fun _ => hpure _) fun _ => Moves.bind (moves_lift _) fun response => ?_
  refine Moves.ite (fun _ => hpure _) fun _ => Moves.ite (fun _ => moves_lift _) fun _ => ?_
  refine Moves.bind (moves_lift _) fun _ => Moves.bind (moves_lift _) fun mutations => ?_
  exact Moves.ite (fun _ => hpure _) fun _ => moves_applyPolled shardId mutations

theorem moves_pollShards (remote : Option (List Nat)) (shards : List Nat) :
    Moves Forward Resting (pollShards ord relay remote shards) (fun _ => Resting) Resting := by
  induction shards with
  | nil => exact .pure fun _ h => h
  | cons shardId shards ih =>
    refine Moves.bind (moves_pollShard remote shardId) fun flow => ?_
    cases flow with
    | next => exact ih
    | returned => exact .pure fun _ h => h
    | repairFromSnapshot => exact .pure fun _ h => h

/-- Up to its last repair a poll goes forward. -/
theorem moves_pollUntilRepair (ord : IterOrder) (relay : Relay) :
    Moves Forward Resting (pollUntilRepair ord relay) (fun _ => Resting) Resting := by
  refine Moves.get_bind fun app₀ h₀ => ?_
  exact (moves_pollShards _ _).conseq (fun _ heq => heq ▸ h₀) (fun _ _ h => h) fun _ h => h

end Deltas

/-! ## Snapshots -/

/-- A snapshot that the agent fetches and writes is accepted, and is in no shard behind it. -/
def SnapshotAhead (relay : Relay) (app : App) : Prop :=
  ∀ snapshot, relay.fetchSnapshot = .ok snapshot → relay.writeFile snapshot = .ok () →
    (ActiveState.fromSnapshot snapshot).isOk ∧ AtLeast app.state.watermarks snapshot.watermarks

/-- The acknowledgements of a new state are what it has. -/
theorem mem_ackTargets {state : ActiveState} {t : Nat × Nat × Nat} (h : t ∈ ackTargets state) :
    t.2.1 ≤ state.watermarks.getD t.1 0 := by
  unfold ackTargets at h
  obtain ⟨⟨seq, shardId⟩, hmem, rfl⟩ := List.mem_map.mp h
  have hget := List.mem_zipIdx_iff_getElem?.mp (List.mem_filter.mp hmem).1
  rw [List.getD_eq_getElem?_getD, hget]
  exact Nat.le_refl _

theorem moves_repairFromSnapshot {app₀ : App} (h₀ : Resting app₀) (h : SnapshotAhead relay app₀) :
    Moves Forward (fun app => app = app₀) (repairFromSnapshot relay) (fun _ => Resting)
      Resting := by
  obtain ⟨w, h₀⟩ := h₀
  refine Moves.bind (q := fun snapshot app => relay.fetchSnapshot = .ok snapshot ∧ app = app₀)
    (Moves.lift (fun _ _ heq happ => ⟨heq, happ⟩) fun _ _ _ happ => happ ▸ ⟨w, h₀⟩) fun snapshot => ?_
  refine Moves.of_fact fun hfetch => ?_
  have hahead := fun hwrite => h₀.memory ▸ (h snapshot hfetch hwrite).2
  refine Moves.bind ((moves_writeSnapshotFile hahead).conseq (fun _ heq => heq ▸ h₀)
    (fun _ _ h => h) fun _ h => h) fun _ => Moves.of_fact fun hwrite => ?_
  obtain ⟨hok, hle⟩ := h snapshot hfetch hwrite
  rw [h₀.memory] at hle
  refine Moves.bind (q := fun state app => state.watermarks = snapshot.watermarks ∧
    Holding w snapshot.watermarks app) (Moves.lift (fun state _ heq h =>
      ⟨ActiveState.fromSnapshot_watermarks heq, h⟩) fun _ _ heq _ => ?_) fun state => ?_
  · rw [heq] at hok
    cases hok
  · refine Moves.of_fact fun hw => ?_
    rw [← hw] at hle ⊢
    refine Moves.bind (moves_swapState hle) fun _ => ?_
    refine Moves.bind (q := fun _ => Holding state.watermarks state.watermarks) ?_ fun _ =>
      moves_updateMetrics.conseq (fun _ h => h) (fun _ _ h => ⟨_, h⟩) fun _ h => h
    refine (Moves.forEach (I := fun l app => (∀ t ∈ l, t.2.1 ≤ state.watermarks.getD t.1 0) ∧
      Holding state.watermarks state.watermarks app) ?_ _).conseq
      (fun _ h => ⟨fun t ht => mem_ackTargets ht, h⟩) (fun _ _ h => h.2) fun _ h => h
    rintro ⟨shardId, seq, entries⟩ l
    refine Moves.of_fact fun hl => ?_
    exact (moves_sendAck (hl _ List.mem_cons_self)).conseq (fun _ h => h)
      (fun _ _ h => ⟨fun t ht => hl t (List.mem_cons_of_mem _ ht), h⟩) fun _ h => h

/-! ## Runs -/

/-- When a poll comes to a repair from a snapshot, the snapshot is ahead. -/
def RepairsAhead (ord : IterOrder) (relay : Relay) (app : App) : Prop :=
  (pollUntilRepair ord relay app).result = .ok .repairFromSnapshot →
    SnapshotAhead relay (pollUntilRepair ord relay app).final

theorem moves_pollOnce {ord : IterOrder} {app₀ : App} (h₀ : Resting app₀)
    (h : RepairsAhead ord relay app₀) :
    Moves Forward (fun app => app = app₀) (pollOnce ord relay) (fun _ => Resting) Resting := by
  refine Moves.bind ((moves_pollUntilRepair ord relay).exact h₀) fun flow => ?_
  refine Moves.of_fact fun hend => ?_
  cases flow with
  | returned => exact .pure fun _ h => h.2
  | repairFromSnapshot =>
    have hrest := (moves_pollUntilRepair ord relay).ok app₀ _ h₀ hend
    exact (moves_repairFromSnapshot hrest (h hend)).conseq (fun _ h => h.1) (fun _ _ h => h)
      fun _ h => h
  | next =>
    refine Moves.conseq (Moves.of_exists fun w => ?_) (fun _ h => h.2) (fun _ _ h => h)
      fun _ h => h
    refine Moves.bind moves_checkCanary fun _ => ?_
    exact moves_updateMetrics.conseq (fun _ h => h) (fun _ _ h => ⟨w, h⟩) fun _ h => h

/-- The states of an agent during a run of polls, each with the answers of the relay. -/
def states : List (IterOrder × Relay) → App → List App
  | [], _ => []
  | (ord, relay) :: polls, app =>
    (pollOnce ord relay app).points ++ states polls (pollOnce ord relay app).final

/-- Each repair from a snapshot finds one that is ahead. -/
def AlwaysAhead : List (IterOrder × Relay) → App → Prop
  | [], _ => True
  | (ord, relay) :: polls, app =>
    RepairsAhead ord relay app ∧ AlwaysAhead polls (pollOnce ord relay app).final

theorem path_states {polls : List (IterOrder × Relay)} {app : App} (h₀ : Resting app)
    (h : AlwaysAhead polls app) : ∃ app', Path Forward app (states polls app) app' := by
  induction polls generalizing app with
  | nil => exact ⟨app, .nil app⟩
  | cons poll polls ih =>
    obtain ⟨ord, relay⟩ := poll
    have hpoll := moves_pollOnce h₀ h.1
    have hrest : Resting (pollOnce ord relay app).final := by
      cases hr : (pollOnce ord relay app).result with
      | ok _ => exact hpoll.ok app _ rfl hr
      | error err => exact hpoll.error app err rfl hr
    obtain ⟨app', hpath⟩ := ih hrest h.2
    exact ⟨app', (hpoll.path app rfl).append hpath⟩

/-- An agent starts with the state of its snapshot file. -/
theorem resting_buildApp {relay : Relay} {agentId : String} {file : Option (Result Snapshot)} {app : App}
    (h : buildApp relay agentId file = .ok app) : Resting app := by
  simp only [buildApp, bind_eq_ok] at h
  obtain ⟨snapshot, -, state, hstate, h⟩ := h
  cases h
  exact ⟨_, rfl, (ActiveState.fromSnapshot_watermarks hstate).symm, fun _ h => nomatch h⟩

/-- A relay that has nothing new. -/
def idleRelay : Relay where
  nowUnix := 0
  watermarks := .ok ⟨200, .ok []⟩
  mutations _ _ := ⟨.ok ⟨200, .ok []⟩, .ok ⟨200, some (.ok ())⟩⟩
  deltaBundle _ _ _ := ⟨.ok ⟨200, .ok []⟩, .ok ⟨200, some (.ok ())⟩⟩
  snapshotManifest := ⟨.ok ⟨404, .error (.parse "")⟩, .ok ⟨200, some (.ok ())⟩⟩
  snapshotArtifact _ := ⟨.ok ⟨404, ⟨0, "", .error (.parse "")⟩⟩, .ok ⟨200, some (.ok ())⟩⟩
  snapshot := ⟨.ok ⟨404, .error (.parse "")⟩, .ok ⟨200, some (.ok ())⟩⟩
  ack _ := .ok ⟨200, ()⟩
  canary := .ok ⟨404, .error (.parse "")⟩
  writeFile _ := .ok ()

/-- A relay that has the first mutation of shard 1. -/
def servingRelay : Relay :=
  let entry : DenyEntry := ⟨"tenant", "user", 7, .deny, 1, "fraud", 0, "ops", 1, 1⟩
  { idleRelay with
    watermarks := .ok ⟨200, .ok [0, 1]⟩
    mutations := fun _ _ =>
      ⟨.ok ⟨200, .ok [⟨"op-1", ⟨1, 1, 1, "eu"⟩, entry, none, .p1, 0⟩]⟩, .ok ⟨200, some (.ok ())⟩⟩ }

/-- A relay that has compacted two mutations of shard 0, with a snapshot that has `seq` mutations of
shard 1. -/
def compactedRelay (seq : Nat) : Relay :=
  { idleRelay with
    watermarks := .ok ⟨200, .ok [2, seq]⟩
    mutations := fun _ _ => ⟨.ok ⟨410, .ok []⟩, .ok ⟨200, some (.ok ())⟩⟩
    snapshot := ⟨.ok ⟨200, .ok ⟨2, [2, seq], [], []⟩⟩, .ok ⟨200, some (.ok ())⟩⟩ }

/-- An agent of two shards that applies a mutation of shard 1, and then has to repair shard 0. -/
def repairRun (seq : Nat) : List (IterOrder × Relay) :=
  [(.given, servingRelay), (.given, compactedRelay seq)]

theorem correctlySigned_repairRun (seq : Nat) :
    ∀ poll ∈ repairRun seq, poll.2.CorrectlySigned := by
  intro poll hpoll
  simp only [repairRun, List.mem_cons, List.not_mem_nil, or_false] at hpoll
  rcases hpoll with rfl | rfl
  · exact ⟨fun _ _ => rfl, fun _ _ _ => rfl, rfl, fun _ => rfl, rfl⟩
  · exact ⟨fun _ _ => rfl, fun _ _ _ => rfl, rfl, fun _ => rfl, rfl⟩

/-- In a run in which each repair finds a snapshot that is not behind, no watermark goes back, and
nothing that was acknowledged is lost. -/
theorem polls_notBehind {relay : Relay} {agentId : String} {file : Option (Result Snapshot)} {app : App}
    (h₀ : buildApp relay agentId file = .ok app) {polls : List (IterOrder × Relay)}
    (h : AlwaysAhead polls app) :
    (app :: states polls app).Pairwise NotBehind ∧
      ∀ app' ∈ app :: states polls app, Covers app' := by
  have hrest := resting_buildApp h₀
  obtain ⟨_, hpath⟩ := path_states hrest h
  have hpair := hpath.pairwise Forward.trans
  refine ⟨hpair.imp fun h => h.1, fun app' happ' => ?_⟩
  rcases List.mem_cons.mp happ' with rfl | happ'
  · obtain ⟨_, hhold⟩ := hrest
    exact hhold.covers
  · exact ((List.pairwise_cons.mp hpair).1 app' happ').2

theorem polls_notBehind_repaired :
    ∃ app, buildApp idleRelay "agent" (some (.ok ⟨2, [0, 0], [], []⟩)) = .ok app ∧
      (app :: states (repairRun 1) app).Pairwise NotBehind ∧
      ∀ app' ∈ app :: states (repairRun 1) app, Covers app' := by
  have hrun : ((buildApp idleRelay "agent" (some (.ok ⟨2, [0, 0], [], []⟩))).map fun app =>
      let first := pollUntilRepair .given servingRelay app
      let app₁ := (pollOnce .given servingRelay app).final
      (first.result.toOption,
        (pollUntilRepair .given (compactedRelay 1) app₁).final.state.watermarks)) =
      .ok (some .next, [0, 1]) := by
    decide +kernel
  cases happ : buildApp idleRelay "agent" (some (.ok ⟨2, [0, 0], [], []⟩)) with
  | error err => rw [happ] at hrun; cases hrun
  | ok app =>
    rw [happ] at hrun
    obtain ⟨hnext, hw⟩ := Prod.mk.inj (Except.ok.inj hrun)
    refine ⟨app, rfl, polls_notBehind happ ⟨fun hrepair => ?_, fun _ => ?_, trivial⟩⟩
    · rw [hrepair] at hnext
      cases hnext
    · intro snapshot hfetch _
      cases hfetch
      refine ⟨rfl, fun s => ?_⟩
      rw [hw]
      match s with
      | 0 => decide
      | 1 => decide
      | _ + 2 => exact Nat.le_refl _

/-- The snapshot that repairs shard 0 takes shard 1 below what was acknowledged. -/
theorem not_polls_notBehind :
    ¬∀ (relay : Relay) (agentId : String) (file : Option (Result Snapshot)) (app : App)
      (polls : List (IterOrder × Relay)), buildApp relay agentId file = .ok app →
      (∀ poll ∈ polls, poll.2.CorrectlySigned) →
      (app :: states polls app).Pairwise NotBehind ∧
        ∀ app' ∈ app :: states polls app, Covers app' := by
  intro h
  have hrun : ((buildApp idleRelay "agent" (some (.ok ⟨2, [0, 0], [], []⟩))).map fun app =>
      (states (repairRun 0) app).getLast?.map fun app' =>
        (app'.state.watermarks, app'.acked.map fun ack => (ack.shardId, ack.seq))) =
      .ok (some ([2, 0], [(1, 1), (0, 2)])) := by
    decide +kernel
  cases happ : buildApp idleRelay "agent" (some (.ok ⟨2, [0, 0], [], []⟩)) with
  | error err => rw [happ] at hrun; cases hrun
  | ok app =>
    rw [happ] at hrun
    obtain ⟨app', hlast, heq⟩ := Option.map_eq_some_iff.mp (Except.ok.inj hrun)
    obtain ⟨hw, hacked⟩ := Prod.mk.inj heq
    have hmem := List.mem_cons_of_mem app (List.mem_of_getLast? hlast)
    have hcovers := (h _ _ _ app _ happ (correctlySigned_repairRun 0)).2 app' hmem
    obtain ⟨ack, hack, hseq⟩ := List.mem_map.mp
      (show (1, 1) ∈ app'.acked.map fun ack => (ack.shardId, ack.seq) from
        hacked ▸ List.mem_cons_self)
    obtain ⟨hs, hn⟩ := Prod.mk.inj hseq
    have := (hcovers ack hack).1
    rw [hs, hn, hw] at this
    exact absurd this (by decide)

end Agent

end Globacl
