import Globacl.Commitd.Commit
import Globacl.Commitd.Manifest
import Globacl.Lib.Views

/-!
# The latest manifest of a node (`globacl-commitd/src/app/storage.rs`, `routes.rs`)

A node publishes each snapshot that it writes: the artifact, and a manifest that names it. The files
of the publication are modelled by the values that they decode to, beside the `App` that the programs
of `Globacl.Commitd.Commit` work on. The programs of this module are those, with their publications.

* `refines_program`: without their publications they are the programs of `App`.
* `latestManifest_iff`: along a run the latest manifest describes the source of truth if and only if
  every snapshot that is uploaded does.
-/

namespace Globacl

open Lib Prog

/-! ## Publications -/

/-- A node with what it publishes. -/
structure PublishingApp where
  app : App
  /-- `manifests/latest.manifest`. -/
  latest : Option PublishedManifest
  /-- The artifacts by their object names. -/
  artifacts : HashMap String Snapshot
  /-- What the clock will show when it is read again and again. -/
  clock : Nat → Nat

/-- The node without what it publishes. -/
def PublishingApp.view : View PublishingApp App where
  get s := s.app
  set app s := { s with app }
  get_set _ _ := rfl

namespace Publishing

abbrev Program (α : Type) := Prog PublishingApp GlobAclError α

/-- A program that publishes nothing. -/
abbrev onApp {α : Type} (c : Globacl.Program α) : Program α := PublishingApp.view.run c

section Programs

variable (sha : Sha256) (ord : IterOrder) (peers : Peers)

/-- `persist_snapshot_manifest`: the artifact is written, and then the manifest that names it. -/
def persistSnapshotManifest (snapshot : Snapshot) : Program Unit := do
  let s ← Prog.get
  let manifest := snapshot.manifest sha (s.clock 0) (encodeSnapshot snapshot)
  Prog.step fun s =>
    { s with
      artifacts := s.artifacts.insert manifest.artifactObject snapshot
      clock := fun i => s.clock (i + 1) }
  Prog.step fun s => { s with latest := some manifest }

/-- `persist_latest_snapshot`. -/
def persistLatestSnapshot (snapshot : Snapshot) : Program Unit := do
  onApp (Globacl.persistLatestSnapshot snapshot)
  persistSnapshotManifest sha snapshot

/-- `persist_archived_snapshot`. -/
def persistArchivedSnapshot (snapshot : Snapshot) : Program Unit := do
  onApp (Globacl.persistArchivedSnapshot snapshot)
  persistSnapshotManifest sha snapshot

/-- `compact_mutation_logs_locked`. -/
def compactMutationLogsLocked : Program Unit := do
  let s ← Prog.get
  let snapshot := s.app.state.snapshot ord
  let compactionWatermarks := compactionWatermarksForSnapshot s.app snapshot
  persistLatestSnapshot sha snapshot
  onApp (persistIdempotencySnapshot (s.app.state.idempotencyMutations ord))
  onApp (compactLogsToWatermarks s.app.state.shardCount compactionWatermarks)
  let st ← Prog.lift (s.app.state.compactMutationHistory compactionWatermarks)
  onApp (setState st)

/-- `maybe_compact_mutation_logs`. -/
def maybeCompactMutationLogs : Program Unit := do
  let s ← Prog.get
  if s.app.config.minLogEntries = 0 ∨ s.app.state.mutations.length < s.app.config.minLogEntries then
    pure ()
  else compactMutationLogsLocked sha ord

/-- `compact_mutation_logs`. -/
def compactMutationLogs (force : Bool) : Program Unit := do
  let s ← Prog.get
  if !force ∧ (s.app.config.minLogEntries = 0 ∨
      s.app.state.mutations.length < s.app.config.minLogEntries) then
    pure ()
  else compactMutationLogsLocked sha ord

/-- `apply_prepared_mutation`. -/
def applyPreparedMutation (m : Mutation) : Program ApplyStatus := do
  let s ← Prog.get
  let alreadyAtOrPastSeq := decide (s.app.state.watermark m.shard ≥ m.seq)
  if !alreadyAtOrPastSeq then onApp (persistMutation m) else pure ()
  let applied ← Prog.lift (s.app.state.applyReplicatedMutation m)
  onApp (setState applied.2)
  if applied.1 = .applied then do
    persistLatestSnapshot sha (applied.2.snapshot ord)
    persistArchivedSnapshot sha (applied.2.snapshot ord)
    maybeCompactMutationLogs sha ord
  else pure ()
  onApp (removePendingMutation m)
  pure applied.1

/-- `commit_prepared_outcome`. -/
def commitPreparedOutcome (outcome : CommitOutcome) : Program CommitOutcome := do
  if outcome.duplicate then pure outcome
  else do
    let s ← Prog.get
    Prog.lift (ensureLeaderTerm s.app outcome.mutation)
    onApp (prepareOnQuorum peers outcome.mutation)
    let s ← Prog.get
    Prog.lift (ensureLeaderTerm s.app outcome.mutation)
    let _ ← applyPreparedMutation sha ord outcome.mutation
    pure outcome

/-- `commit_request`, also of a canary. -/
def commitRequest (now : Nat) (request : DenyRequest) : Program CommitOutcome := do
  let s ← Prog.get
  let term ← Prog.lift (ensureWriteAuthority s.app.config.replication s.app.consensus)
  onApp (setState (s.app.state.setEpoch term))
  let outcome ← Prog.lift ((s.app.state.setEpoch term).prepareCommit now request)
  commitPreparedOutcome sha ord peers outcome

/-- `commit_rule_request`. -/
def commitRuleRequest (now : Nat) (request : RuleRequest) : Program CommitOutcome := do
  let s ← Prog.get
  let term ← Prog.lift (ensureWriteAuthority s.app.config.replication s.app.consensus)
  onApp (setState (s.app.state.setEpoch term))
  let outcome ← Prog.lift ((s.app.state.setEpoch term).prepareRuleCommit now request)
  commitPreparedOutcome sha ord peers outcome

/-- `POST /v1/rollback` with the snapshot that its file holds. -/
def rollbackRequest (clock : Nat → Nat) (snapshot : Snapshot) (rollbackId : String) : Program Unit := do
  let s ← Prog.get
  let term ← Prog.lift (ensureWriteAuthority s.app.config.replication s.app.consensus)
  onApp (setState (s.app.state.setEpoch term))
  let planned ← Prog.lift
    ((s.app.state.setEpoch term).restoreSnapshot clock ord snapshot rollbackId)
  Prog.forEach
    (fun m => do
      let _ ← commitPreparedOutcome sha ord peers ⟨m, false⟩
      pure ())
    planned.mutations
  let s ← Prog.get
  persistArchivedSnapshot sha (s.app.state.snapshot ord)

/-- `POST /v1/snapshot`: the snapshot is archived, and becomes the latest one that is published. -/
def uploadRequest (body : List UInt8) : Program Unit := do
  let snapshot ← Prog.lift (decodeSnapshot body)
  Prog.lift snapshot.validate
  persistArchivedSnapshot sha snapshot

/-- The rest of `run` before requests are served. -/
def finishStartup : Program Unit := do
  let s ← Prog.get
  persistLatestSnapshot sha (s.app.state.snapshot ord)
  if s.app.config.compactOnStartup then (compactMutationLogs sha ord true).reported
  else pure ()

end Programs

end Publishing

/-- What a node is asked to do, with what the environment adds to it. -/
inductive Operation where
  /-- A denial, or a canary. -/
  | deny (ord : IterOrder) (peers : Peers) (now : Nat) (request : DenyRequest)
  | rule (ord : IterOrder) (peers : Peers) (now : Nat) (request : RuleRequest)
  | rollback (ord : IterOrder) (peers : Peers) (clock : Nat → Nat) (snapshot : Snapshot)
      (rollbackId : String)
  | upload (body : List UInt8)
  | compact (ord : IterOrder) (force : Bool)

/-- The program of an operation. -/
def Operation.program (sha : Sha256) : Operation → Publishing.Program Unit
  | .deny ord peers now request => do
    let _ ← Publishing.commitRequest sha ord peers now request
    pure ()
  | .rule ord peers now request => do
    let _ ← Publishing.commitRuleRequest sha ord peers now request
    pure ()
  | .rollback ord peers clock snapshot rollbackId =>
    Publishing.rollbackRequest sha ord peers clock snapshot rollbackId
  | .upload body => Publishing.uploadRequest sha body
  | .compact ord force => Publishing.compactMutationLogs sha ord force

/-- The node after an operation. -/
def PublishingApp.act (sha : Sha256) (s : PublishingApp) (op : Operation) : PublishingApp :=
  (op.program sha s).final

/-- The node that a start serves requests with. -/
def PublishingApp.start (sha : Sha256) (ord : IterOrder) (app : App) (latest : Option PublishedManifest)
    (artifacts : HashMap String Snapshot) (clock : Nat → Nat) : PublishingApp :=
  (Publishing.finishStartup sha ord ⟨app, latest, artifacts, clock⟩).final

/-! ## Without the publications -/

section Refines

variable {sha : Sha256} {ord : IterOrder} {peers : Peers}

open Publishing (persistSnapshotManifest)

theorem PublishingApp.view_get (s : PublishingApp) : PublishingApp.view.get s = s.app := rfl

theorem refines_onApp {α : Type} (c : Program α) : PublishingApp.view.Refines (Publishing.onApp c) c :=
  .run c

theorem unseen_persistSnapshotManifest (snapshot : Snapshot) (s : PublishingApp) :
    (persistSnapshotManifest sha snapshot s).result = .ok () ∧
      PublishingApp.view.get (persistSnapshotManifest sha snapshot s).final = PublishingApp.view.get s :=
  ⟨rfl, rfl⟩

theorem refines_persistLatestSnapshot (snapshot : Snapshot) :
    PublishingApp.view.Refines (Publishing.persistLatestSnapshot sha snapshot)
      (persistLatestSnapshot snapshot) :=
  (View.Refines.run _).seq_unseen (unseen_persistSnapshotManifest snapshot)

theorem refines_persistArchivedSnapshot (snapshot : Snapshot) :
    PublishingApp.view.Refines (Publishing.persistArchivedSnapshot sha snapshot)
      (persistArchivedSnapshot snapshot) :=
  (View.Refines.run _).seq_unseen (unseen_persistSnapshotManifest snapshot)

theorem refines_compactMutationLogsLocked :
    PublishingApp.view.Refines (Publishing.compactMutationLogsLocked sha ord)
      (compactMutationLogsLocked ord) :=
  .get_bind fun _ => (refines_persistLatestSnapshot _).bind fun _ => (View.Refines.run _).bind fun _ =>
    (View.Refines.run _).bind fun _ => (View.Refines.lift _).bind fun _ => .run _

theorem refines_maybeCompactMutationLogs :
    PublishingApp.view.Refines (Publishing.maybeCompactMutationLogs sha ord)
      (maybeCompactMutationLogs ord) :=
  .get_bind fun _ => .ite (fun _ => .pure _) fun _ => refines_compactMutationLogsLocked

theorem refines_compactMutationLogs (force : Bool) :
    PublishingApp.view.Refines (Publishing.compactMutationLogs sha ord force)
      (compactMutationLogs ord force) :=
  .get_bind fun _ => .ite (fun _ => .pure _) fun _ => refines_compactMutationLogsLocked

theorem refines_applyPreparedMutation (m : Mutation) :
    PublishingApp.view.Refines (Publishing.applyPreparedMutation sha ord m)
      (applyPreparedMutation ord m) := by
  refine .get_bind fun s => ?_
  refine .ite (fun _ => (View.Refines.run _).bind fun _ => ?_) fun _ => ?_
  all_goals
    refine (View.Refines.lift _).bind ?_
    rintro ⟨status, st⟩
    refine (View.Refines.run _).bind fun _ => ?_
    refine .ite (fun _ => ?_) fun _ => (View.Refines.run _).bind fun _ => .pure _
    refine (refines_persistLatestSnapshot _).bind fun _ => (refines_persistArchivedSnapshot _).bind fun _ => ?_
    exact refines_maybeCompactMutationLogs.bind fun _ => (View.Refines.run _).bind fun _ => .pure _

theorem refines_commitPreparedOutcome (outcome : CommitOutcome) :
    PublishingApp.view.Refines (Publishing.commitPreparedOutcome sha ord peers outcome)
      (commitPreparedOutcome ord peers outcome) :=
  .ite (fun _ => .pure _) fun _ => .get_bind fun _ => (View.Refines.lift _).bind fun _ =>
    (View.Refines.run _).bind fun _ => .get_bind fun _ => (View.Refines.lift _).bind fun _ =>
    (refines_applyPreparedMutation _).bind fun _ => .pure _

theorem refines_commitRequest (now : Nat) (request : DenyRequest) :
    PublishingApp.view.Refines (Publishing.commitRequest sha ord peers now request)
      (commitRequest ord peers now request) := by
  refine .get_bind fun s => ?_
  rw [PublishingApp.view_get]
  refine (View.Refines.lift _).bind fun term => ?_
  refine (refines_onApp _).bind fun _ => ?_
  refine (View.Refines.lift _).bind fun outcome => ?_
  exact refines_commitPreparedOutcome outcome

theorem refines_commitRuleRequest (now : Nat) (request : RuleRequest) :
    PublishingApp.view.Refines (Publishing.commitRuleRequest sha ord peers now request)
      (commitRuleRequest ord peers now request) := by
  refine .get_bind fun s => ?_
  rw [PublishingApp.view_get]
  refine (View.Refines.lift _).bind fun term => ?_
  refine (refines_onApp _).bind fun _ => ?_
  refine (View.Refines.lift _).bind fun outcome => ?_
  exact refines_commitPreparedOutcome outcome

theorem refines_rollbackRequest (clock : Nat → Nat) (snapshot : Snapshot) (rollbackId : String) :
    PublishingApp.view.Refines (Publishing.rollbackRequest sha ord peers clock snapshot rollbackId)
      (rollbackRequest ord peers clock snapshot rollbackId) :=
  .get_bind fun _ => (View.Refines.lift _).bind fun _ => (View.Refines.run _).bind fun _ =>
    (View.Refines.lift _).bind fun _ =>
    (View.Refines.forEach (fun _ => (refines_commitPreparedOutcome _).bind fun _ => .pure _) _).bind
      fun _ => .get_bind fun _ => refines_persistArchivedSnapshot _

/-- What an operation does to `App`. -/
def Operation.appProgram : Operation → Program Unit
  | .deny ord peers now request => do
    let _ ← commitRequest ord peers now request
    pure ()
  | .rule ord peers now request => do
    let _ ← commitRuleRequest ord peers now request
    pure ()
  | .rollback ord peers clock snapshot rollbackId =>
    rollbackRequest ord peers clock snapshot rollbackId
  | .upload body => do
    let snapshot ← Prog.lift (decodeSnapshot body)
    Prog.lift snapshot.validate
    persistArchivedSnapshot snapshot
  | .compact ord force => compactMutationLogs ord force

/-- Without their publications the operations are the programs of `App`. -/
theorem refines_program (op : Operation) :
    PublishingApp.view.Refines (op.program sha) op.appProgram := by
  cases op with
  | deny ord peers now request => exact (refines_commitRequest now request).bind fun _ => .pure _
  | rule ord peers now request => exact (refines_commitRuleRequest now request).bind fun _ => .pure _
  | rollback ord peers clock snapshot rollbackId =>
    exact refines_rollbackRequest clock snapshot rollbackId
  | upload body =>
    exact (View.Refines.lift _).bind fun _ => (View.Refines.lift _).bind fun _ =>
      refines_persistArchivedSnapshot _
  | compact ord force => exact refines_compactMutationLogs force

end Refines

/-! ## What the latest manifest describes -/

/-- The snapshot has the watermarks, the entries and the rules of the state. -/
structure Snapshot.Describes (snapshot : Snapshot) (st : SourceOfTruth) : Prop where
  watermarks : snapshot.watermarks = st.watermarks
  entries : ∀ e, e ∈ snapshot.entries ↔ ∃ k, st.entries.lookup k = some e
  rules : ∀ r, r ∈ snapshot.rules ↔ ∃ k, st.rules.lookup k = some r

/-- The artifact that the latest manifest names is a snapshot of the source of truth. -/
def LatestDescribes (s : PublishingApp) : Prop :=
  ∃ manifest snapshot, s.latest = some manifest ∧
    s.artifacts.lookup manifest.artifactObject = some snapshot ∧ snapshot.Describes s.app.state

/-- The snapshot of an upload that is accepted describes the source of truth. -/
def Operation.Describes (s : PublishingApp) : Operation → Prop
  | .upload body => ∀ snapshot, decodeSnapshot body = .ok snapshot → snapshot.validate = .ok () →
      snapshot.Describes s.app.state
  | _ => True

section Latest

variable {sha : Sha256} {ord : IterOrder} {peers : Peers} {st st' : SourceOfTruth} {snapshot : Snapshot}

theorem describes_snapshot (st : SourceOfTruth) (ord : IterOrder) : (st.snapshot ord).Describes st where
  watermarks := rfl
  entries _ := HashMap.mem_values
  rules _ := HashMap.mem_values

theorem Snapshot.Describes.of_alike (h : snapshot.Describes st) (ha : SourceOfTruth.Alike st st') :
    snapshot.Describes st' where
  watermarks := h.watermarks.trans ha.watermarks.symm
  entries := by rw [ha.entries]; exact h.entries
  rules := by rw [ha.rules]; exact h.rules

/-- The memory is `st`, and the latest manifest describes it. -/
structure Publishes (st : SourceOfTruth) (s : PublishingApp) : Prop where
  state : s.app.state = st
  latest : LatestDescribes s

/-- A program that ends, one way or the other, with a latest manifest that describes its memory, if it
starts with one. -/
abbrev KeepsLatest {α : Type} (c : Publishing.Program α) : Prop :=
  Triple LatestDescribes c (fun _ => LatestDescribes) LatestDescribes fun _ => True

theorem LatestDescribes.of_app {s : PublishingApp} (h : LatestDescribes s) {app : App}
    (ha : SourceOfTruth.Alike s.app.state app.state) : LatestDescribes { s with app } := by
  obtain ⟨manifest, snapshot, hlatest, hartifact, hdescribes⟩ := h
  exact ⟨manifest, snapshot, hlatest, hartifact, hdescribes.of_alike ha⟩

/-- What is published last is what the latest manifest describes. -/
theorem persistSnapshotManifest_iff (s : PublishingApp) :
    LatestDescribes (Publishing.persistSnapshotManifest sha snapshot s).final ↔
      snapshot.Describes s.app.state := by
  constructor
  · rintro ⟨manifest, snapshot', hlatest, hartifact, hdescribes⟩
    cases hlatest
    rw [show (Publishing.persistSnapshotManifest sha snapshot s).final.artifacts = s.artifacts.insert _
      snapshot from rfl, HashMap.lookup_insert_eq, if_pos rfl] at hartifact
    cases hartifact
    exact hdescribes
  · intro hdescribes
    refine ⟨_, snapshot, rfl, ?_, hdescribes⟩
    exact AList.lookup_insert _

theorem publishes_persistSnapshotManifest (h : snapshot.Describes st) :
    Triple (fun s => s.app.state = st) (Publishing.persistSnapshotManifest sha snapshot)
      (fun _ => Publishes st) (fun _ => False) fun _ => True where
  ok s _ hs _ := ⟨hs, (persistSnapshotManifest_iff s).mpr (by rw [hs]; exact h)⟩
  error _ _ _ herr := by cases herr
  crash _ _ _ _ := trivial

theorem publishes_persistLatestSnapshot (h : snapshot.Describes st) :
    Triple (fun s => s.app.state = st) (Publishing.persistLatestSnapshot sha snapshot)
      (fun _ => Publishes st) (fun _ => False) fun _ => True :=
  Triple.bind (q := fun _ s => s.app.state = st) ⟨fun _ _ hs _ => hs, fun _ _ _ herr => (by cases herr),
    fun _ _ _ _ => trivial⟩ fun _ => publishes_persistSnapshotManifest h

theorem publishes_persistArchivedSnapshot (h : snapshot.Describes st) :
    Triple (fun s => s.app.state = st) (Publishing.persistArchivedSnapshot sha snapshot)
      (fun _ => Publishes st) (fun _ => False) fun _ => True :=
  Triple.bind (q := fun _ s => s.app.state = st) ⟨fun _ _ hs _ => hs, fun _ _ _ herr => (by cases herr),
    fun _ _ _ _ => trivial⟩ fun _ => publishes_persistSnapshotManifest h

/-- A program that leaves the memory alone. -/
theorem publishes_onApp (st : SourceOfTruth) {α : Type} {c : Program α}
    (hc : Respects (fun app app' : App => app'.state = app.state) c) :
    Triple (Publishes st) (Publishing.onApp c) (fun _ => Publishes st) (Publishes st) fun _ => True := by
  have hstate : ∀ s : PublishingApp, Publishes st s → Publishes st (Publishing.onApp c s).final := by
    intro s hs
    have hsame : (c s.app).final.state = s.app.state := hc.final (fun _ => rfl) s.app
    have ha : SourceOfTruth.Alike s.app.state (c s.app).final.state := by
      rw [hsame]
      exact .refl _
    exact ⟨hsame.trans hs.state, hs.latest.of_app ha⟩
  exact ⟨fun s _ hs _ => hstate s hs, fun s _ hs _ => hstate s hs, fun _ _ _ _ => trivial⟩

theorem sameState_writeDisk (f : Disk → Disk) :
    Respects (fun app app' : App => app'.state = app.state) (writeDisk f) :=
  .step fun _ _ h => h

/-- A write to the memory that changes nothing that a snapshot shows. -/
theorem publishes_setState (ha : SourceOfTruth.Alike st st') {e : PublishingApp → Prop} :
    Triple (Publishes st) (Publishing.onApp (setState st')) (fun _ => Publishes st') e fun _ => True where
  ok s _ hs _ := ⟨rfl, hs.latest.of_app (by rw [hs.state]; exact ha)⟩
  error _ _ _ herr := by cases herr
  crash _ _ _ _ := trivial

theorem keepsLatest_compactMutationLogsLocked :
    KeepsLatest (Publishing.compactMutationLogsLocked sha ord) := by
  refine Triple.get_bind fun s₀ _ => ?_
  refine Triple.bind (q := fun _ => Publishes s₀.app.state)
    ((publishes_persistLatestSnapshot (describes_snapshot _ ord)).conseq (fun _ h => by rw [h])
      (fun _ _ h => h) (fun _ h => h.elim) fun _ h => h) fun _ => ?_
  have hlogs : ∀ watermarks, Respects (fun app app' : App => app'.state = app.state)
      (compactLogsToWatermarks s₀.app.state.shardCount watermarks) := fun watermarks =>
    .ite (fun _ => .lift _) fun _ => .forEach (fun _ => sameState_writeDisk _) _
  have hkeep : ∀ {c : Program Unit}, Respects (fun app app' : App => app'.state = app.state) c →
      Triple (Publishes s₀.app.state) (Publishing.onApp c) (fun _ => Publishes s₀.app.state)
        LatestDescribes fun _ => True := fun hc =>
    (publishes_onApp _ hc).conseq (fun _ h => h) (fun _ _ h => h) (fun _ h => h.latest) fun _ h => h
  refine Triple.bind (hkeep (sameState_writeDisk _)) fun _ => ?_
  refine Triple.bind (hkeep (hlogs _)) fun _ => ?_
  refine Triple.bind (q := fun st s => SourceOfTruth.Alike s₀.app.state st ∧ Publishes s₀.app.state s)
    (Triple.lift (fun st _ hst h => ⟨(SourceOfTruth.compactMutationHistory_ok hst).2.1, h⟩)
      fun _ _ _ h => h.latest) fun st => ?_
  refine Triple.of_fact fun ha => ?_
  exact (publishes_setState ha).conseq (fun _ h => h) (fun _ _ h => h.latest) (fun _ h => h) fun _ h => h

theorem keepsLatest_maybeCompactMutationLogs :
    KeepsLatest (Publishing.maybeCompactMutationLogs sha ord) := by
  refine Triple.get_bind fun s₀ h₀ => Triple.ite (fun _ => Triple.pure ?_) fun _ => ?_
  · rintro _ rfl
    exact h₀
  · exact keepsLatest_compactMutationLogsLocked.conseq (fun _ h => by rw [h]; exact h₀) (fun _ _ h => h)
      (fun _ h => h) fun _ h => h

theorem keepsLatest_compactMutationLogs (force : Bool) :
    KeepsLatest (Publishing.compactMutationLogs sha ord force) := by
  refine Triple.get_bind fun s₀ h₀ => Triple.ite (fun _ => Triple.pure ?_) fun _ => ?_
  · rintro _ rfl
    exact h₀
  · exact keepsLatest_compactMutationLogsLocked.conseq (fun _ h => by rw [h]; exact h₀) (fun _ _ h => h)
      (fun _ h => h) fun _ h => h

theorem keepsLatest_onApp {α : Type} {c : Program α}
    (hc : Respects (fun app app' : App => app'.state = app.state) c) :
    KeepsLatest (Publishing.onApp c) := by
  refine Triple.of_get fun s₀ h₀ => ?_
  exact (publishes_onApp s₀.app.state hc).conseq (fun _ h => by rw [h]; exact ⟨rfl, h₀⟩)
    (fun _ _ h => h.latest) (fun _ h => h.latest) fun _ h => h

/-- A mutation that is applied is published before anything else happens. -/
theorem keepsLatest_applyPreparedMutation (m : Mutation) :
    KeepsLatest (Publishing.applyPreparedMutation sha ord m) := by
  refine Triple.get_bind fun s₀ h₀ => ?_
  have hpersist : Respects (fun app app' : App => app'.state = app.state) (persistMutation m) :=
    (sameState_writeDisk _).bind fun _ => sameState_writeDisk _
  have hremove : ∀ status : ApplyStatus, KeepsLatest
      (Publishing.onApp (removePendingMutation m) >>= fun _ => Pure.pure status) := fun status =>
    (keepsLatest_onApp (sameState_writeDisk _)).bind fun _ => Triple.pure fun _ h => h
  have hrest : Triple (Publishes s₀.app.state) (do
      let applied ← Prog.lift (s₀.app.state.applyReplicatedMutation m)
      Publishing.onApp (setState applied.2)
      if applied.1 = .applied then do
        Publishing.persistLatestSnapshot sha (applied.2.snapshot ord)
        Publishing.persistArchivedSnapshot sha (applied.2.snapshot ord)
        Publishing.maybeCompactMutationLogs sha ord
      else pure ()
      Publishing.onApp (removePendingMutation m)
      pure applied.1) (fun _ => LatestDescribes) LatestDescribes fun _ => True := by
    refine Triple.bind (q := fun applied s => s₀.app.state.applyReplicatedMutation m = .ok applied ∧
      Publishes s₀.app.state s) (Triple.lift (fun _ _ ha h => ⟨ha, h⟩) fun _ _ _ h => h.latest) ?_
    rintro ⟨status, st⟩
    refine Triple.of_fact fun ha => ?_
    obtain ⟨rfl, rfl⟩ | ⟨rfl, -, -, -, -⟩ := SourceOfTruth.applyReplicatedMutation_ok ha
    · refine Triple.bind (publishes_setState (.refl _)) fun _ => Triple.ite (fun h => by cases h) fun _ => ?_
      exact (hremove _).conseq (fun _ h => h.latest) (fun _ _ h => h) (fun _ h => h) fun _ h => h
    · refine Triple.bind (q := fun _ s => s.app.state = st) ⟨fun _ _ _ _ => rfl,
        fun _ _ _ herr => (by cases herr), fun _ _ _ _ => trivial⟩ fun _ => ?_
      refine Triple.ite (fun _ => ?_) fun h => absurd rfl h
      have hst := describes_snapshot st ord
      refine Triple.bind ((publishes_persistLatestSnapshot hst).conseq (fun _ h => h) (fun _ _ h => h)
        (fun _ h => h.elim) fun _ h => h) fun _ => ?_
      refine Triple.bind ((publishes_persistArchivedSnapshot hst).conseq (fun _ h => h.state)
        (fun _ _ h => h) (fun _ h => h.elim) fun _ h => h) fun _ => ?_
      refine Triple.bind (keepsLatest_maybeCompactMutationLogs.conseq (fun _ h => h.latest)
        (fun _ _ h => h) (fun _ h => h) fun _ h => h) fun _ => hremove _
  refine Triple.ite (fun _ => Triple.bind (q := fun _ => Publishes s₀.app.state) ?_ fun _ => hrest)
    fun _ => hrest.conseq (fun _ h => by rw [h]; exact ⟨rfl, h₀⟩) (fun _ _ h => h) (fun _ h => h)
      fun _ h => h
  exact (publishes_onApp s₀.app.state hpersist).conseq (fun _ h => by rw [h]; exact ⟨rfl, h₀⟩)
    (fun _ _ h => h) (fun _ h => h.latest) fun _ h => h

theorem keepsLatest_get_bind {α : Type} {f : PublishingApp → Publishing.Program α}
    (h : ∀ s, KeepsLatest (f s)) : KeepsLatest (Prog.get >>= f) :=
  Triple.get_bind fun s₀ h₀ => (h s₀).conseq (fun _ heq => by rw [heq]; exact h₀) (fun _ _ h => h)
    (fun _ h => h) fun _ h => h

theorem keepsLatest_lift {α : Type} (x : Result α) :
    KeepsLatest (Prog.lift x : Publishing.Program α) := Triple.lift (fun _ _ _ h => h) fun _ _ _ h => h

theorem keepsLatest_commitPreparedOutcome (outcome : CommitOutcome) :
    KeepsLatest (Publishing.commitPreparedOutcome sha ord peers outcome) := by
  have hprepare : Respects (fun app app' : App => app'.state = app.state)
      (prepareOnQuorum peers outcome.mutation) :=
    .get_bind fun _ => .ite (fun _ => .bind (.step fun _ _ h => h) fun _ => .lift _) fun _ => .pure _
  refine Triple.ite (fun _ => Triple.pure fun _ h => h) fun _ => ?_
  refine keepsLatest_get_bind fun s => (keepsLatest_lift _).bind fun _ => ?_
  refine (keepsLatest_onApp hprepare).bind fun _ => keepsLatest_get_bind fun s => ?_
  refine (keepsLatest_lift _).bind fun _ => ?_
  exact (keepsLatest_applyPreparedMutation _).bind fun _ => Triple.pure fun _ h => h

/-- The start of a request: the term is set in the memory that was read. -/
theorem keepsLatest_setEpoch {α : Type} {x : PublishingApp → Result Nat}
    {c : PublishingApp → Nat → Publishing.Program α} (hc : ∀ s term, KeepsLatest (c s term)) :
    KeepsLatest (Prog.get >>= fun s => Prog.lift (x s) >>= fun term =>
      Publishing.onApp (setState (s.app.state.setEpoch term)) >>= fun _ => c s term) := by
  refine Triple.get_bind fun s₀ h₀ => ?_
  refine Triple.bind (q := fun _ => Publishes s₀.app.state)
    (Triple.lift (fun _ _ _ h => by rw [h]; exact ⟨rfl, h₀⟩) fun _ _ _ h => by rw [h]; exact h₀) fun term => ?_
  have halike : SourceOfTruth.Alike s₀.app.state (s₀.app.state.setEpoch term) := ⟨rfl, rfl, rfl, rfl⟩
  refine Triple.bind (publishes_setState halike) fun _ => ?_
  exact (hc s₀ term).conseq (fun _ h => h.latest) (fun _ _ h => h) (fun _ h => h) fun _ h => h

theorem keepsLatest_commitRequest (now : Nat) (request : DenyRequest) :
    KeepsLatest (Publishing.commitRequest sha ord peers now request) :=
  keepsLatest_setEpoch fun _ _ => (keepsLatest_lift _).bind fun outcome =>
    keepsLatest_commitPreparedOutcome outcome

theorem keepsLatest_commitRuleRequest (now : Nat) (request : RuleRequest) :
    KeepsLatest (Publishing.commitRuleRequest sha ord peers now request) :=
  keepsLatest_setEpoch fun _ _ => (keepsLatest_lift _).bind fun outcome =>
    keepsLatest_commitPreparedOutcome outcome

theorem keepsLatest_rollbackRequest (clock : Nat → Nat) (snapshot : Snapshot) (rollbackId : String) :
    KeepsLatest (Publishing.rollbackRequest sha ord peers clock snapshot rollbackId) := by
  refine keepsLatest_setEpoch fun s term => (keepsLatest_lift _).bind fun planned => ?_
  refine Triple.bind (Triple.forEach (I := fun _ => LatestDescribes) (fun m _ =>
    (keepsLatest_commitPreparedOutcome ⟨m, false⟩).bind fun _ => Triple.pure fun _ h => h) _) fun _ => ?_
  refine Triple.get_bind fun s₀ _ => ?_
  exact (publishes_persistArchivedSnapshot (describes_snapshot s₀.app.state ord)).conseq
    (fun _ h => by rw [h]) (fun _ _ h => h.latest) (fun _ h => h.elim) fun _ h => h

/-- Every operation but an upload keeps what the latest manifest describes. -/
theorem keepsLatest_program (sha : Sha256) {op : Operation} (h : ∀ body, op ≠ .upload body) :
    KeepsLatest (op.program sha) := by
  cases op with
  | deny ord peers now request =>
    exact (keepsLatest_commitRequest now request).bind fun _ => Triple.pure fun _ h => h
  | rule ord peers now request =>
    exact (keepsLatest_commitRuleRequest now request).bind fun _ => Triple.pure fun _ h => h
  | rollback ord peers clock snapshot rollbackId =>
    exact keepsLatest_rollbackRequest clock snapshot rollbackId
  | upload body => exact absurd rfl (h body)
  | compact ord force => exact keepsLatest_compactMutationLogs force

/-- An upload keeps what the latest manifest describes if and only if it describes it. -/
theorem upload_iff {s : PublishingApp} (h : LatestDescribes s) (body : List UInt8) :
    LatestDescribes (s.act sha (.upload body)) ↔ Operation.Describes s (.upload body) := by
  show LatestDescribes ((Prog.lift (decodeSnapshot body) >>= fun snapshot =>
      Prog.lift snapshot.validate >>= fun _ => Publishing.persistArchivedSnapshot sha snapshot) s).final ↔
    ∀ snapshot, decodeSnapshot body = .ok snapshot → snapshot.validate = .ok () →
      snapshot.Describes s.app.state
  generalize decodeSnapshot body = decoded
  cases decoded with
  | error err => exact iff_of_true h fun _ heq => by cases heq
  | ok snapshot =>
    rw [lift_ok_bind_apply]
    simp only [Except.ok.injEq, forall_eq']
    cases snapshot.validate with
    | error err => exact iff_of_true h fun heq => by cases heq
    | ok u =>
      rw [lift_ok_bind_apply]
      simp only [true_imp_iff]
      exact persistSnapshotManifest_iff _

theorem PublishingApp.act_iff {s : PublishingApp} (h : LatestDescribes s) (op : Operation) :
    LatestDescribes (s.act sha op) ↔ op.Describes s := by
  have hkeep : ∀ op : Operation, (∀ body, op ≠ .upload body) → LatestDescribes (s.act sha op) := by
    intro op hop
    have hkeeps := keepsLatest_program sha hop
    unfold PublishingApp.act
    cases hc : (op.program sha s).result with
    | ok a => exact hkeeps.ok s a h hc
    | error err => exact hkeeps.error s err h hc
  cases op with
  | upload body => exact upload_iff h body
  | _ => exact iff_of_true (hkeep _ fun _ heq => by cases heq) trivial

/-- A start publishes what it loaded. -/
theorem latestDescribes_start (app : App) (latest : Option PublishedManifest)
    (artifacts : HashMap String Snapshot) (clock : Nat → Nat) :
    LatestDescribes (PublishingApp.start sha ord app latest artifacts clock) := by
  have hreport : KeepsLatest (Publishing.compactMutationLogs sha ord true).reported :=
    Triple.reported (keepsLatest_compactMutationLogs true)
  have hfinish : Triple (fun s => s.app = app) (Publishing.finishStartup sha ord)
      (fun _ => LatestDescribes) LatestDescribes fun _ => True := by
    refine Triple.get_bind fun s₀ _ => ?_
    refine Triple.bind ((publishes_persistLatestSnapshot (describes_snapshot s₀.app.state ord)).conseq
      (fun _ h => by rw [h]) (fun _ _ h => h.latest) (fun _ h => h.elim) fun _ h => h) fun _ => ?_
    exact Triple.ite (fun _ => hreport) fun _ => Triple.pure fun _ h => h
  unfold PublishingApp.start
  cases hc : (Publishing.finishStartup sha ord ⟨app, latest, artifacts, clock⟩).result with
  | ok a => exact hfinish.ok _ a rfl hc
  | error err => exact hfinish.error _ err rfl hc

end Latest

/-- From a start on, the latest manifest describes the source of truth after each operation if and only
if each snapshot that is uploaded describes it when it is uploaded. -/
theorem latestManifest_iff (sha : Sha256) (ord : IterOrder) (app : App) (latest : Option PublishedManifest)
    (artifacts : HashMap String Snapshot) (clock : Nat → Nat) (ops : List Operation) :
    let s := PublishingApp.start sha ord app latest artifacts clock
    LatestDescribes s ∧
      (Along (PublishingApp.act sha) (fun s op => LatestDescribes (s.act sha op)) s ops ↔
        Along (PublishingApp.act sha) Operation.Describes s ops) := by
  have hstart := @latestDescribes_start sha ord app latest artifacts clock
  refine ⟨hstart, fun h => ?_, fun h => ?_⟩
  · exact Along.of_invariant (I := LatestDescribes)
      (fun s op hs hop => ⟨hop, (PublishingApp.act_iff hs op).mp hop⟩) hstart h
  · exact Along.of_invariant (I := LatestDescribes) (fun s op hs hop =>
      ⟨(PublishingApp.act_iff hs op).mpr hop, (PublishingApp.act_iff hs op).mpr hop⟩) hstart h

/-! A node with one shard that has committed nothing, and to which a snapshot of another node is
uploaded. -/

namespace ForeignUpload

def config : Config where
  shardCount := 1
  replication := ⟨"cluster", "node-1", none, ["node-1"], 1⟩
  minLogEntries := 10000
  compactOnStartup := false
  publisher := false

def node : App where
  config := config
  state := SourceOfTruth.new 1 "cluster"
  consensus := ⟨1, none, .leader, some "node-1"⟩
  lastPublished := [0]
  disk := Disk.empty

def sha : Sha256 := ⟨fun _ => List.replicate 32 0, fun _ => rfl⟩

def uploaded : Snapshot := ⟨1, [5], [], []⟩

theorem boot_node : boot config Disk.empty = .ok node := rfl

theorem decode_uploaded : decodeSnapshot (encodeSnapshot uploaded) = .ok uploaded := by decide +kernel

end ForeignUpload

open ForeignUpload in
/-- The upload of a snapshot of another history is what the latest manifest describes then. -/
theorem not_latestManifest :
    ¬ ∀ (sha : Sha256) (ord : IterOrder) (config : Config) (disk : Disk) (app : App),
      boot config disk = .ok app → config.replication.peers.length = 1 →
      ∀ (latest : Option PublishedManifest) (artifacts : HashMap String Snapshot) (clock : Nat → Nat)
        (ops : List Operation),
      Along (PublishingApp.act sha) (fun s op => LatestDescribes (s.act sha op))
        (PublishingApp.start sha ord app latest artifacts clock) ops := by
  intro h
  have hrun := h sha .given config Disk.empty node boot_node rfl none ∅ (fun _ => 0)
    [.upload (encodeSnapshot uploaded)]
  have hdescribes := (upload_iff (latestDescribes_start node none ∅ fun _ => 0) _).mp hrun.1
  have hwatermarks := (hdescribes uploaded decode_uploaded rfl).watermarks
  cases hwatermarks

end Globacl
