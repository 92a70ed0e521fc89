import Globacl.Commitd.Recovery

/-!
# What the programs of a node keep

Each program of a node has a triple (`Prog.Triple`): between requests memory and files hold the
same history, and at every point between two writes the files hold the history of the memory, or
this history and the one mutation whose log append is done.

* `Idle`, `CrashPoint`: the two assertions.
* `idle_applyPreparedMutation_next`: the one place where the files run ahead of the memory.
* `settled_commitRequest`, `settled_rollbackRequest` and the others: the triples of the requests.
-/

namespace Globacl

open Lib Prog

/-- The memory holds a history, and the files hold another. -/
structure Holding (n : Nat) (history stored : List Mutation) (app : App) : Prop where
  mem : SourceOfTruth.Retains n history app.state
  disk : ∃ first, DiskHolds n stored first app.disk

/-- Between two requests, memory and files hold the same, and the latest snapshot is current. -/
structure Idle (n : Nat) (history : List Mutation) (app : App) : Prop
    extends Holding n history history app where
  current : ∃ st ord, SourceOfTruth.Holds n history st ∧ app.disk.snapshot = some (st.snapshot ord)

/-- A history that a source may come to represent. -/
structure GoodHistory (n : Nat) (history : List Mutation) : Prop where
  valid : ValidHistory n history
  nodup : (history.map Mutation.opId).Nodup

/-- The files hold the history of the memory, or one mutation more, which is in its log. -/
def CrashPoint (n : Nat) (app : App) : Prop :=
  ∃ history stored, Holding n history stored app ∧ GoodHistory n stored ∧
    (stored = history ∨ ∃ m, stored = history ++ [m] ∧ m ∈ app.disk.logs m.shard)

theorem GoodHistory.distinctOps {n : Nat} {history : List Mutation} (h : GoodHistory n history) :
    SourceOfTruth.DistinctOps history := fun _ hm _ hm' => List.inj_on_of_nodup_map h.nodup hm hm'

theorem GoodHistory.of_append {n : Nat} {history l : List Mutation}
    (h : GoodHistory n (history ++ l)) : GoodHistory n history where
  valid := h.valid.of_append
  nodup := by
    have := h.nodup
    rw [List.map_append, List.nodup_append] at this
    exact this.1

theorem orElseReport_triple {p e r : App → Prop} {c : Program Unit}
    (h : Triple p c (fun _ => e) e r) : Triple p (orElseReport c) (fun _ => e) e r where
  ok s _ hs _ := by
    cases hc : (c s).result with
    | ok a => exact h.ok s a hs hc
    | error err => exact h.error s err hs hc
  error s err hs heq := by cases heq
  crash s hs := h.crash s hs

theorem SourceOfTruth.Represents.good {n : Nat} {history : List Mutation} {st : SourceOfTruth}
    (h : st.Represents n history) : GoodHistory n history := ⟨h.valid, h.opIds_nodup⟩

section Programs

variable {n : Nat} {history : List Mutation} {app : App}

theorem Holding.crashPoint (h : Holding n history history app) : CrashPoint n app :=
  ⟨history, history, h, h.mem.toRepresents.good, Or.inl rfl⟩

/-! ## Compaction -/

theorem compactionWatermarksForSnapshot_le
    (h : ∀ s, app.state.compactedWatermark s ≤ app.state.watermark s) (ord : IterOrder) (s : Nat) :
    (compactionWatermarksForSnapshot app (app.state.snapshot ord)).getD s 0 ≤
      app.state.watermark s := by
  have hc := h s
  have hw : (app.state.snapshot ord).watermarks.getD s 0 = app.state.watermark s := rfl
  unfold compactionWatermarksForSnapshot
  rw [List.getD_eq_getElem?_getD, List.getElem?_map]
  by_cases hs : s < (app.state.snapshot ord).watermarks.length
  · rw [List.getElem?_range hs, Option.map_some, Option.getD_some, hw]
    dsimp only
    split <;> omega
  · rw [List.getElem?_eq_none (by rw [List.length_range]; omega)]
    exact Nat.zero_le _

theorem compactionWatermarksForSnapshot_length (app : App) (ord : IterOrder) :
    (compactionWatermarksForSnapshot app (app.state.snapshot ord)).length =
      app.state.shardCount := by
  rw [compactionWatermarksForSnapshot, List.length_map, List.length_range]
  exact app.state.watermarks_length

/-- A compaction succeeds and keeps what is held, whatever it truncates and wherever it stops. -/
theorem idle_compactMutationLogsLocked (ord : IterOrder) :
    Triple (Holding n history history) (compactMutationLogsLocked ord) (fun _ => Idle n history)
      (fun _ => False) (CrashPoint n) := by
  refine Triple.get_bind fun app₀ h₀ => ?_
  obtain ⟨hmem, first₀, hdisk⟩ := h₀
  -- the memory stays, the snapshot and then the stream are those of the memory
  let k₁ : App → Prop := fun app => app.state = app₀.state ∧
    (∃ first, DiskHolds n history first app.disk) ∧
    app.disk.snapshot = some (app₀.state.snapshot ord)
  let k₂ : App → Prop := fun app => k₁ app ∧
    app.disk.idempotency = some (app₀.state.idempotencyMutations ord)
  have hids : ∀ m, m ∈ app₀.state.idempotencyMutations ord ↔ m ∈ history := fun m => by
    rw [SourceOfTruth.idempotencyMutations, mem_sortBy, app₀.state.opIndex_keyed.mem_values,
      hmem.opIndex]
    exact and_iff_left rfl
  have hidle : ∀ app, k₁ app → Idle n history app := fun app ⟨hst, hd, hs⟩ =>
    ⟨⟨by rw [hst]; exact hmem, hd⟩, app₀.state, ord, hmem.toHolds, hs⟩
  have hcrash : ∀ app, k₁ app → CrashPoint n app := fun app h => (hidle app h).crashPoint
  refine Triple.bind (q := fun _ => k₁) (Triple.step ?_ ?_) fun _ => ?_
  · rintro _ rfl
    exact ⟨rfl, ⟨_, hdisk.putSnapshot hmem.toHolds ord⟩, rfl⟩
  · rintro _ rfl
    exact hcrash _ ⟨rfl, ⟨_, hdisk.putSnapshot hmem.toHolds ord⟩, rfl⟩
  have hstream : ∀ app, k₁ app → k₂ { app with disk := { app.disk with
      idempotency := some (app₀.state.idempotencyMutations ord) } } :=
    fun app ⟨hst, ⟨_, hd⟩, hs⟩ => ⟨⟨hst, ⟨_, hd.putStream hids⟩, hs⟩, rfl⟩
  refine Triple.bind (q := fun _ => k₂)
    (Triple.step hstream fun app h => hcrash _ (hstream app h).1) fun _ => ?_
  have htruncate : ∀ s app, k₂ app → k₂ { app with disk := { app.disk with
      logs := Function.update app.disk.logs s ((app.disk.logs s).filter fun m => decide (m.seq >
        (compactionWatermarksForSnapshot app₀ (app₀.state.snapshot ord)).getD s 0)) } } :=
    fun s app ⟨⟨hst, ⟨_, hd⟩, hs⟩, hi⟩ => ⟨⟨hst, ⟨_, hd.truncateLog hmem.valid hmem.toHolds hs hi hids
      ((compactionWatermarksForSnapshot_le hmem.compacted ord s).trans (hmem.watermark s).le)⟩, hs⟩,
      hi⟩
  have hlen := compactionWatermarksForSnapshot_length app₀ ord
  refine Triple.bind (q := fun _ => k₂) (Triple.ite (fun hne => absurd hlen hne) fun _ =>
    Triple.forEach (I := fun _ => k₂) (fun s _ => Triple.step (htruncate s)
      fun app h => hcrash _ (htruncate s app h).1) _) fun _ => ?_
  obtain ⟨st, hst⟩ := SourceOfTruth.exists_compactMutationHistory hlen fun s =>
    compactionWatermarksForSnapshot_le hmem.compacted ord s
  rw [hst]
  refine Triple.bind (q := fun st app => st.Retains n history ∧ k₁ app)
    (Triple.lift (fun _ app heq h => by cases heq; exact ⟨hmem.compactMutationHistory hst, h.1⟩)
      fun _ _ heq _ => by cases heq) fun st => ?_
  have hset : ∀ app, st.Retains n history ∧ k₁ app → Idle n history { app with state := st } :=
    fun app ⟨hr, h⟩ => ⟨⟨hr, (hidle app h).disk⟩, (hidle app h).current⟩
  exact Triple.step hset fun app h => (hset app h).crashPoint

theorem idle_maybeCompactMutationLogs (ord : IterOrder) :
    Triple (Idle n history) (maybeCompactMutationLogs ord) (fun _ => Idle n history)
      (fun _ => False) (CrashPoint n) := by
  refine Triple.get_bind fun app h => Triple.ite (fun _ => Triple.pure ?_) fun _ => ?_
  · rintro _ rfl
    exact h
  · refine (idle_compactMutationLogsLocked ord).conseq ?_ (fun _ _ h => h) (fun _ h => h)
      fun _ h => h
    rintro _ rfl
    exact h.toHolding

theorem idle_compactMutationLogs (ord : IterOrder) (force : Bool) :
    Triple (Idle n history) (compactMutationLogs ord force) (fun _ => Idle n history)
      (fun _ => False) (CrashPoint n) := by
  refine Triple.get_bind fun app h => Triple.ite (fun _ => Triple.pure ?_) fun _ => ?_
  · rintro _ rfl
    exact h
  · refine (idle_compactMutationLogsLocked ord).conseq ?_ (fun _ _ h => h) (fun _ h => h)
      fun _ h => h
    rintro _ rfl
    exact h.toHolding

/-! ## Commits -/

/-- A write to a file that a start does not read. -/
theorem Idle.of_unread (h : Idle n history app) {disk : Disk} (hl : disk.logs = app.disk.logs)
    (hs : disk.snapshot = app.disk.snapshot) (hi : disk.idempotency = app.disk.idempotency) :
    Idle n history { app with disk } where
  mem := h.mem
  disk := let ⟨_, hd⟩ := h.disk; ⟨_, hd.of_unread hl hs hi⟩
  current := by rw [hs]; exact h.current

theorem idle_writeDisk {e : App → Prop} {f : Disk → Disk} (hl : ∀ d, (f d).logs = d.logs)
    (hs : ∀ d, (f d).snapshot = d.snapshot) (hi : ∀ d, (f d).idempotency = d.idempotency) :
    Triple (Idle n history) (writeDisk f) (fun _ => Idle n history) e (CrashPoint n) :=
  Triple.step (fun _ h => h.of_unread (hl _) (hs _) (hi _))
    fun _ h => (h.of_unread (hl _) (hs _) (hi _)).crashPoint

/-- Applying the next mutation: between its log append and the end of its effect on the memory, the
files are one mutation ahead. -/
theorem idle_applyPreparedMutation_next (ord : IterOrder) {m : Mutation}
    (hgood : GoodHistory n (history ++ [m])) :
    Triple (Idle n history) (applyPreparedMutation ord m) (fun _ => Idle n (history ++ [m]))
      (fun _ => False) (CrashPoint n) := by
  refine Triple.get_bind fun app₀ h₀ => ?_
  have hnext := h₀.mem.toRepresents.next hgood.valid hgood.nodup
  have hnew : ¬app₀.state.watermark m.shard ≥ m.seq := by
    rw [hnext.seq]
    omega
  have hmem := h₀.mem.commits ⟨m, rfl, hnext, rfl⟩
  let ahead : App → Prop := fun app => app.state = app₀.state ∧
    m ∈ app.disk.logs m.shard ∧ ∃ first, DiskHolds n (history ++ [m]) first app.disk
  have hcrash : ∀ app, ahead app → CrashPoint n app := fun app ⟨hst, hm, hd⟩ =>
    ⟨history, history ++ [m], ⟨by rw [hst]; exact h₀.mem, hd⟩, hgood, Or.inr ⟨m, rfl, hm⟩⟩
  have hlog : Triple (fun app => app = app₀) (persistMutation m) (fun _ => ahead)
      (fun _ => False) (CrashPoint n) := by
    have happend : ∀ app, app = app₀ → ahead { app with disk := { app.disk with
        logs := Function.update app.disk.logs m.shard (app.disk.logs m.shard ++ [m]) } } := by
      rintro _ rfl
      obtain ⟨first, hd⟩ := h₀.disk
      refine ⟨rfl, ?_, first, hd.appendLog (validHistory_concat.mp hgood.valid).2.2⟩
      simp
    have hbundle : ∀ app, ahead app → ahead { app with disk := { app.disk with
        bundles := app.disk.bundles ++ [m] } } :=
      fun app ⟨hst, hm, first, hd⟩ => ⟨hst, hm, first, hd.of_unread rfl rfl rfl⟩
    exact Triple.bind (q := fun _ => ahead)
      (Triple.step happend fun app h => hcrash _ (happend app h))
      fun _ => Triple.step hbundle fun app h => hcrash _ (hbundle app h)
  refine Triple.ite (fun _ => hlog.bind fun _ => ?_) fun hn => absurd (by simpa using hnew) hn
  refine Triple.bind (q := fun r app => r = (.applied, app₀.state.record m) ∧ ahead app)
    (Triple.lift (fun r app heq h => ?_) fun app err heq h => ?_) ?_
  · rw [hnext.applyReplicatedMutation] at heq
    exact ⟨(Except.ok.inj heq).symm, h⟩
  · rw [hnext.applyReplicatedMutation] at heq
    cases heq
  rintro ⟨status, st⟩
  refine Triple.of_fact fun hr => ?_
  cases hr
  -- from here on the memory has the mutation too
  have hset : ∀ app, ahead app → Holding n (history ++ [m]) (history ++ [m])
      { app with state := app₀.state.record m } := fun app ⟨_, _, hd⟩ => ⟨hmem, hd⟩
  refine Triple.bind (q := fun _ app => app.state = app₀.state.record m ∧
      Holding n (history ++ [m]) (history ++ [m]) app)
    (Triple.step (fun app h => ⟨rfl, hset app h⟩) fun app h => (hset app h).crashPoint) fun _ => ?_
  have hsnap : ∀ app, app.state = app₀.state.record m ∧
      Holding n (history ++ [m]) (history ++ [m]) app → Idle n (history ++ [m])
      { app with disk := { app.disk with
        snapshot := some ((app₀.state.record m).snapshot ord) } } := by
    rintro app ⟨-, h, first, hd⟩
    exact ⟨⟨h, first, hd.putSnapshot hmem.toHolds ord⟩, _, ord, hmem.toHolds, rfl⟩
  refine Triple.ite (fun _ => ?_) fun hn => absurd rfl hn
  refine Triple.bind (q := fun _ => Idle n (history ++ [m]))
    (Triple.step hsnap fun app h => (hsnap app h).crashPoint) fun _ => ?_
  refine Triple.bind (idle_writeDisk (fun _ => rfl) (fun _ => rfl) fun _ => rfl) fun _ => ?_
  refine Triple.bind (idle_maybeCompactMutationLogs ord) fun _ => ?_
  exact Triple.bind (idle_writeDisk (fun _ => rfl) (fun _ => rfl) fun _ => rfl)
    fun _ => Triple.pure fun _ h => h

/-- What the node did not have to apply changes nothing. -/
theorem idle_applyPreparedMutation_old (ord : IterOrder) (m : Mutation) :
    Triple (fun app => m.seq ≤ app.state.watermark m.shard ∧ Idle n history app)
      (applyPreparedMutation ord m) (fun _ => Idle n history) (Idle n history) (CrashPoint n) := by
  refine Triple.get_bind fun app₀ ⟨hold, h₀⟩ => ?_
  have hsame : ∀ r, app₀.state.applyReplicatedMutation m = .ok r → r = (.duplicateOrOld, app₀.state) := by
    intro r heq
    unfold SourceOfTruth.applyReplicatedMutation at heq
    grind
  refine Triple.ite (fun hn => absurd hold (by simpa using hn)) fun _ => ?_
  refine Triple.bind (q := fun r app => r = (.duplicateOrOld, app₀.state) ∧ app = app₀)
    (Triple.lift (fun r app heq h => ⟨hsame r heq, h⟩) ?_) ?_
  · rintro _ _ _ rfl
    exact h₀
  rintro ⟨status, st⟩
  refine Triple.of_fact fun hr => ?_
  cases hr
  refine Triple.bind (q := fun _ => Idle n history) (Triple.step ?_ ?_) fun _ => ?_
  · rintro _ rfl
    exact h₀
  · rintro _ rfl
    exact h₀.crashPoint
  refine Triple.ite (fun heq => by cases heq) fun _ => ?_
  exact Triple.bind (idle_writeDisk (fun _ => rfl) (fun _ => rfl) fun _ => rfl)
    fun _ => Triple.pure fun _ h => h

/-- A change of the consensus state. -/
theorem Idle.of_consensus (h : Idle n history app) (cs : ConsensusState) :
    Idle n history { app with consensus := cs } := ⟨⟨h.mem, h.disk⟩, h.current⟩

/-- Between two requests, whatever was committed. -/
def Settled (n : Nat) (app : App) : Prop := ∃ history, Idle n history app

theorem idle_prepareOnQuorum (peers : Peers) (m : Mutation) :
    Triple (Idle n history) (prepareOnQuorum peers m) (fun _ => Idle n history) (Idle n history)
      (CrashPoint n) := by
  refine Triple.get_bind fun app₀ h₀ => Triple.ite (fun _ => ?_) fun _ => Triple.pure ?_
  · refine Triple.bind (q := fun _ => Idle n history) (Triple.step ?_ ?_) fun _ => ?_
    · rintro _ rfl
      exact h₀.of_consensus _
    · rintro _ rfl
      exact (h₀.of_consensus _).crashPoint
    · exact Triple.lift (fun _ _ _ h => h) fun _ _ _ h => h
  · rintro _ rfl
    exact h₀

/-- A commit of the next mutation appends it to the history, or fails. -/
theorem idle_commitPreparedOutcome (ord : IterOrder) (peers : Peers) {m : Mutation}
    (hgood : GoodHistory n (history ++ [m])) :
    Triple (Idle n history) (commitPreparedOutcome ord peers ⟨m, false⟩)
      (fun _ => Idle n (history ++ [m])) (Settled n) (CrashPoint n) := by
  have hsettled : ∀ {l : List Mutation} (app : App), Idle n l app → Settled n app :=
    fun app h => ⟨_, h⟩
  have hcheck : ∀ {f : Unit → Program CommitOutcome},
      Triple (Idle n history) (f ()) (fun _ => Idle n (history ++ [m])) (Settled n) (CrashPoint n) →
      Triple (Idle n history) (Prog.get >>= fun app => Prog.lift (ensureLeaderTerm app m) >>= f)
        (fun _ => Idle n (history ++ [m])) (Settled n) (CrashPoint n) := fun hf =>
    Triple.get_bind fun app h => Triple.bind (q := fun _ => Idle n history)
      (Triple.lift (fun _ _ _ heq => heq ▸ h) fun _ _ _ heq => hsettled _ (heq ▸ h)) fun _ => hf
  refine Triple.ite (fun h => by cases h) fun _ => ?_
  refine hcheck ?_
  refine Triple.bind (q := fun _ => Idle n history)
    ((idle_prepareOnQuorum peers m).conseq (fun _ h => h) (fun _ _ h => h) hsettled fun _ h => h)
    fun _ => ?_
  refine hcheck ?_
  refine Triple.bind (q := fun _ => Idle n (history ++ [m]))
    ((idle_applyPreparedMutation_next ord hgood).conseq (fun _ h => h) (fun _ _ h => h)
      (fun _ h => h.elim) fun _ h => h) fun _ => Triple.pure fun _ h => h

/-- A request ends between two requests. -/
theorem settled_commitPreparedOutcome (ord : IterOrder) (peers : Peers) {outcome : CommitOutcome}
    (hgood : outcome.duplicate = false → GoodHistory n (history ++ [outcome.mutation])) :
    Triple (Idle n history) (commitPreparedOutcome ord peers outcome) (fun _ => Settled n)
      (Settled n) (CrashPoint n) := by
  obtain ⟨m, duplicate⟩ := outcome
  cases duplicate with
  | true => exact Triple.pure fun _ h => ⟨_, h⟩
  | false =>
    exact (idle_commitPreparedOutcome ord peers (hgood rfl)).conseq (fun _ h => h)
      (fun _ _ h => ⟨_, h⟩) (fun _ h => h) fun _ h => h

/-! ## Requests -/

theorem Idle.setEpoch (h : Idle n history app) (epoch : Nat) :
    Idle n history { app with state := app.state.setEpoch epoch } :=
  ⟨⟨h.mem.setEpoch epoch, h.disk⟩, h.current⟩

/-- The common shape of a request: it reads the state, sets the term and goes on with what it
computes from the state. -/
theorem settled_withTerm {α : Type} {rest : App → Nat → Program α}
    (h : ∀ app₀ term history, Idle n history app₀ →
      Triple (Idle n history) (rest app₀ term) (fun _ => Settled n) (Settled n) (CrashPoint n)) :
    Triple (Settled n)
      (Prog.get >>= fun app => Prog.lift (ensureWriteAuthority app.config.replication app.consensus)
        >>= fun term => setState (app.state.setEpoch term) >>= fun _ => rest app term)
      (fun _ => Settled n) (Settled n) (CrashPoint n) := by
  refine Triple.of_exists fun history => Triple.get_bind fun app₀ h₀ => ?_
  refine Triple.bind (q := fun _ app => app = app₀)
    (Triple.lift (fun _ _ _ heq => heq) fun _ _ _ heq => ⟨history, heq ▸ h₀⟩) fun term => ?_
  refine Triple.bind (q := fun _ => Idle n history) (Triple.step ?_ ?_) fun _ => h _ term _ h₀
  · rintro _ rfl
    exact h₀.setEpoch term
  · rintro _ rfl
    exact (h₀.setEpoch term).crashPoint

theorem SourceOfTruth.Next.good {st : SourceOfTruth} {m : Mutation}
    (h : st.Represents n history) (hm : st.Next m) : GoodHistory n (history ++ [m]) :=
  (h.record hm).good

theorem settled_commitRequest (ord : IterOrder) (peers : Peers) (now : Nat)
    (request : DenyRequest) :
    Triple (Settled n) (commitRequest ord peers now request) (fun _ => Settled n) (Settled n)
      (CrashPoint n) := by
  refine settled_withTerm fun app₀ term history h₀ => ?_
  refine Triple.bind (q := fun outcome app => (outcome.duplicate = false →
      GoodHistory n (history ++ [outcome.mutation])) ∧ Idle n history app)
    (Triple.lift (fun outcome app heq h => ⟨fun hd => ?_, h⟩) fun app _ _ h => ⟨_, h⟩)
    fun outcome => Triple.of_fact (settled_commitPreparedOutcome ord peers)
  have := SourceOfTruth.prepareCommit_ok heq
  rw [hd] at this
  exact this.1.good (h₀.setEpoch term).mem.toRepresents

theorem settled_commitRuleRequest (ord : IterOrder) (peers : Peers) (now : Nat)
    (request : RuleRequest) :
    Triple (Settled n) (commitRuleRequest ord peers now request) (fun _ => Settled n) (Settled n)
      (CrashPoint n) := by
  refine settled_withTerm fun app₀ term history h₀ => ?_
  refine Triple.bind (q := fun outcome app => (outcome.duplicate = false →
      GoodHistory n (history ++ [outcome.mutation])) ∧ Idle n history app)
    (Triple.lift (fun outcome app heq h => ⟨fun hd => ?_, h⟩) fun app _ _ h => ⟨_, h⟩)
    fun outcome => Triple.of_fact (settled_commitPreparedOutcome ord peers)
  have := SourceOfTruth.prepareRuleCommit_ok heq
  rw [hd] at this
  exact this.1.good (h₀.setEpoch term).mem.toRepresents

/-- The mutations that a rollback planned are committed one after the other; each is the next one
when its turn comes. -/
theorem settled_rollbackRequest (ord : IterOrder) (peers : Peers) (clock : Nat → Nat)
    (snapshot : Snapshot) (rollbackId : String) :
    Triple (Settled n) (rollbackRequest ord peers clock snapshot rollbackId) (fun _ => Settled n)
      (Settled n) (CrashPoint n) := by
  refine settled_withTerm fun app₀ term history h₀ => ?_
  let planned : List Mutation → App → Prop := fun rest app =>
    ∃ done, GoodHistory n (done ++ rest) ∧ Idle n done app
  refine Triple.bind (q := fun r => planned r.mutations)
    (Triple.lift (fun r app heq h => ⟨history, ?_, h⟩) fun app _ _ h => ⟨_, h⟩) fun r => ?_
  · have hrun := SourceOfTruth.restoreSnapshot_run heq
    exact (hrun.invariant (I := SourceOfTruth.Retains n) (fun _ _ _ _ hr hs => hr.commits hs)
      (h₀.setEpoch term).mem).good
  refine Triple.bind (q := fun _ => planned []) ?_ fun _ => Triple.get_bind fun app₁ h₁ => ?_
  · refine Triple.forEach (I := planned) (fun m rest => Triple.of_exists fun done =>
      Triple.of_fact fun hgood => ?_) _
    rw [List.append_cons] at hgood
    exact Triple.bind (idle_commitPreparedOutcome ord peers hgood.of_append)
      fun _ => Triple.pure fun app h => ⟨_, hgood, h⟩
  · obtain ⟨done, -, h₁⟩ := h₁
    have harchive : Triple (Idle n done) (persistArchivedSnapshot (app₁.state.snapshot ord))
        (fun _ => Idle n done) (fun _ => False) (CrashPoint n) :=
      idle_writeDisk (fun _ => rfl) (fun _ => rfl) fun _ => rfl
    exact harchive.conseq (fun _ heq => heq ▸ h₁) (fun _ _ h => ⟨_, h⟩) (fun _ h => h.elim)
      fun _ h => h

theorem settled_compactMutationLogs (ord : IterOrder) (force : Bool) :
    Triple (Settled n) (compactMutationLogs ord force) (fun _ => Settled n) (Settled n)
      (CrashPoint n) :=
  Triple.of_exists fun _ => (idle_compactMutationLogs ord force).conseq (fun _ h => h)
    (fun _ _ h => ⟨_, h⟩) (fun _ h => h.elim) fun _ h => h

/-- A start writes a current snapshot, and its compaction may fail without harm. -/
theorem settled_finishStartup (ord : IterOrder) :
    Triple (fun app => ∃ history, Holding n history history app) (finishStartup ord)
      (fun _ => Settled n) (Settled n) (CrashPoint n) := by
  refine Triple.of_exists fun history => Triple.get_bind fun app₀ h₀ => ?_
  obtain ⟨hmem, first, hd⟩ := h₀
  have hsnap : ∀ app, app = app₀ → Idle n history { app with disk := { app.disk with
      snapshot := some (app₀.state.snapshot ord) } } := by
    rintro _ rfl
    exact ⟨⟨hmem, first, hd.putSnapshot hmem.toHolds ord⟩, _, ord, hmem.toHolds, rfl⟩
  refine Triple.bind (q := fun _ => Idle n history)
    (Triple.step hsnap fun app h => (hsnap app h).crashPoint) fun _ => ?_
  refine Triple.ite (fun _ => ?_) fun _ => Triple.pure fun _ h => ⟨_, h⟩
  exact orElseReport_triple ((idle_compactMutationLogs ord true).conseq (fun _ h => h)
    (fun _ _ h => ⟨_, h⟩) (fun _ h => h.elim) fun _ h => h)

end Programs

end Globacl
