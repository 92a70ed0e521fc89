import Globacl.Commitd.Crash

/-!
# What requests and messages are made of

The requests of clients and the messages of the leader apply mutations, compact the logs, take over
a term, and change what neither a start nor the publisher reads. What each of these steps keeps, they
keep.

* `KeptBySteps.work`: a request of a client, or a compaction.
* `KeptBySteps.commitReplicatedMutation`, `KeptBySteps.commitReplicatedMutationFromLeader`: a message
  of the leader, or what is pulled from it.
-/

namespace Globacl

open Lib Prog

/-- No point between the steps matters here. -/
abbrev Anywhere : App → Prop := fun _ => True

/-- What a start and the publisher read is the same. -/
structure SameStore (app app' : App) : Prop where
  config : app'.config = app.config
  state : app'.state = app.state
  lastPublished : app'.lastPublished = app.lastPublished
  logs : app'.disk.logs = app.disk.logs
  snapshot : app'.disk.snapshot = app.disk.snapshot
  idempotency : app'.disk.idempotency = app.disk.idempotency
  publisherOffsets : app'.disk.publisherOffsets = app.disk.publisherOffsets

/-- Each step keeps `F`, and `C` holds where a crash may find it. -/
structure KeptBySteps (n : Nat) (F C : App → Prop) : Prop where
  shardCount : ∀ {app}, F app → app.state.shardCount = n
  crash : ∀ {app}, F app → C app
  apply : ∀ ord {m : Mutation}, m.Routed n →
    Triple F (applyPreparedMutation ord m) (fun _ => F) F C
  compact : ∀ ord force, Triple F (compactMutationLogs ord force) (fun _ => F) F C
  setEpoch : ∀ term {app}, F app → F { app with state := app.state.setEpoch term }
  other : ∀ {app app'}, F app → SameStore app app' → F app'

namespace KeptBySteps

variable {n : Nat} {F C : App → Prop}

/-- A change of what neither a start nor the publisher reads. -/
theorem unread (h : KeptBySteps n F C) {f : App → App} (hf : ∀ app, SameStore app (f app)) :
    Triple F (Prog.step f : Program Unit) (fun _ => F) F C :=
  Triple.step (fun app hF => h.other hF (hf app)) fun app hF => h.crash (h.other hF (hf app))

/-- A program that goes on from the state it has read. -/
theorem get_bind {α : Type} {f : App → Program α}
    (hf : ∀ app, F app → Triple F (f app) (fun _ => F) F C) :
    Triple F (Prog.get >>= f) (fun _ => F) F C :=
  Triple.get_bind fun app hF => (hf app hF).conseq (fun _ heq => heq ▸ hF) (fun _ _ h => h)
    (fun _ h => h) fun _ h => h

theorem prepareOnQuorum (h : KeptBySteps n F C) (peers : Peers) (m : Mutation) :
    Triple F (prepareOnQuorum peers m) (fun _ => F) F C := by
  refine get_bind fun app _ => Triple.ite (fun _ => ?_) fun _ => Triple.pure fun _ hF => hF
  refine Triple.bind (h.unread fun _ => ⟨rfl, rfl, rfl, rfl, rfl, rfl, rfl⟩) fun _ => ?_
  exact Triple.lift (fun _ _ _ hF => hF) fun _ _ _ hF => hF

theorem commitPreparedOutcome (h : KeptBySteps n F C) (ord : IterOrder) (peers : Peers)
    {outcome : CommitOutcome} (hm : outcome.duplicate = false → outcome.mutation.Routed n) :
    Triple F (commitPreparedOutcome ord peers outcome) (fun _ => F) F C := by
  obtain ⟨m, duplicate⟩ := outcome
  cases duplicate with
  | true => exact Triple.pure fun _ hF => hF
  | false =>
    refine Triple.ite (fun htrue => by cases htrue) fun _ => ?_
    refine get_bind fun _ _ => triple_check (fun _ hF => hF) fun _ => ?_
    refine Triple.bind (h.prepareOnQuorum peers m) fun _ => ?_
    refine get_bind fun _ _ => triple_check (fun _ hF => hF) fun _ => ?_
    exact Triple.bind (h.apply ord (hm rfl)) fun _ => Triple.pure fun _ hF => hF

/-- The common start of the requests. -/
theorem withTerm (h : KeptBySteps n F C) {α : Type} {rest : App → Nat → Program α}
    (hrest : ∀ app term, F app → Triple F (rest app term) (fun _ => F) F C) :
    Triple F
      (Prog.get >>= fun app => Prog.lift (ensureWriteAuthority app.config.replication app.consensus)
        >>= fun term => setState (app.state.setEpoch term) >>= fun _ => rest app term)
      (fun _ => F) F C := by
  refine Triple.get_bind fun app hF => Triple.bind (q := fun _ app' => app' = app)
    (Triple.lift (fun _ _ _ heq => heq) fun _ _ _ heq => heq ▸ hF) fun term => ?_
  refine Triple.bind (q := fun _ => F) (Triple.step ?_ ?_) fun _ => hrest app term hF
  · rintro _ rfl
    exact h.setEpoch term hF
  · rintro _ rfl
    exact h.crash (h.setEpoch term hF)

/-- A request that prepares an outcome from the memory and commits it. -/
theorem commitPrepared (h : KeptBySteps n F C) (ord : IterOrder) (peers : Peers)
    {x : Result CommitOutcome}
    (hx : ∀ outcome, x = .ok outcome → outcome.duplicate = false → outcome.mutation.Routed n) :
    Triple F (Prog.lift x >>= Globacl.commitPreparedOutcome ord peers) (fun _ => F) F C :=
  Triple.bind (q := fun outcome app => (outcome.duplicate = false → outcome.mutation.Routed n) ∧ F app)
    (Triple.lift (fun outcome _ heq hF => ⟨hx outcome heq, hF⟩) fun _ _ _ hF => hF)
    fun _ => Triple.of_fact (h.commitPreparedOutcome ord peers)

theorem commitRequest (h : KeptBySteps n F C) (ord : IterOrder) (peers : Peers) (now : Nat)
    (request : DenyRequest) :
    Triple F (commitRequest ord peers now request) (fun _ => F) F C := by
  refine h.withTerm fun app term hF => h.commitPrepared ord peers fun outcome heq hd => ?_
  have hprepared := SourceOfTruth.prepareCommit_ok heq
  rw [hd] at hprepared
  exact h.shardCount hF ▸ hprepared.1.routed

theorem commitRuleRequest (h : KeptBySteps n F C) (ord : IterOrder) (peers : Peers) (now : Nat)
    (request : RuleRequest) :
    Triple F (commitRuleRequest ord peers now request) (fun _ => F) F C := by
  refine h.withTerm fun app term hF => h.commitPrepared ord peers fun outcome heq hd => ?_
  have hprepared := SourceOfTruth.prepareRuleCommit_ok heq
  rw [hd] at hprepared
  exact h.shardCount hF ▸ hprepared.1.routed

theorem rollbackRequest (h : KeptBySteps n F C) (ord : IterOrder) (peers : Peers)
    (clock : Nat → Nat) (snapshot : Snapshot) (rollbackId : String) :
    Triple F (rollbackRequest ord peers clock snapshot rollbackId) (fun _ => F) F C := by
  refine h.withTerm fun app term hF => ?_
  let planned : List Mutation → App → Prop := fun rest app => (∀ m ∈ rest, m.Routed n) ∧ F app
  refine Triple.bind (q := fun r => planned r.mutations)
    (Triple.lift (fun r app heq hF' => ⟨?_, hF'⟩) fun _ _ _ hF' => hF') fun r => ?_
  · -- each planned mutation was the next one of a copy of the state
    have hrun := (SourceOfTruth.restoreSnapshot_run heq).invariant (k := [])
      (I := fun ms (st : SourceOfTruth) => st.shardCount = n ∧ ∀ m ∈ ms, m.Routed n)
      (fun ms st l st' hI hs => by
        obtain ⟨m, rfl, hnext, rfl⟩ := hs
        refine ⟨hI.1, fun m' hm' => ?_⟩
        rcases List.mem_append.mp hm' with hm' | hm'
        · exact hI.2 m' hm'
        · rw [List.mem_singleton.mp hm', ← hI.1]
          exact hnext.routed) ⟨h.shardCount hF, fun m hm => by cases hm⟩
    exact hrun.2
  refine Triple.bind (q := fun _ => planned []) (Triple.forEach (I := planned)
    (fun m rest => Triple.of_fact fun hm => ?_) _) fun _ => ?_
  · refine Triple.bind (h.commitPreparedOutcome ord peers fun _ => hm m List.mem_cons_self)
      fun _ => Triple.pure fun app hF' => ⟨fun m' hm' => hm m' (List.mem_cons_of_mem _ hm'), hF'⟩
  · refine Triple.conseq (p := F) ?_ (fun _ hp => hp.2) (fun _ _ hq => hq) (fun _ he => he) fun _ hr => hr
    exact get_bind fun _ _ => h.unread fun _ => ⟨rfl, rfl, rfl, rfl, rfl, rfl, rfl⟩

/-- Every program of a node that has started. -/
theorem work (h : KeptBySteps n F C) {c : Program Unit} (hw : Work .ready c) :
    Triple F c (fun _ => F) F C := by
  cases hw with
  | deny ord peers now request =>
    exact (h.commitRequest ord peers now request).bind fun _ => Triple.pure fun _ hF => hF
  | rule ord peers now request =>
    exact (h.commitRuleRequest ord peers now request).bind fun _ => Triple.pure fun _ hF => hF
  | rollback ord peers clock snapshot rollbackId =>
    exact h.rollbackRequest ord peers clock snapshot rollbackId
  | compact ord force => exact h.compact ord force

theorem setConsensus (h : KeptBySteps n F C) (cs : ConsensusState) :
    Triple F (setConsensus cs) (fun _ => F) F C :=
  Triple.bind (h.unread fun _ => ⟨rfl, rfl, rfl, rfl, rfl, rfl, rfl⟩) fun _ =>
    h.unread fun _ => ⟨rfl, rfl, rfl, rfl, rfl, rfl, rfl⟩

theorem commitReplicatedMutation (h : KeptBySteps n F C) (ord : IterOrder) {m : Mutation}
    (requirePending : Bool) (hm : m.Routed n) :
    Triple F (commitReplicatedMutation ord m requirePending) (fun _ => F) F C :=
  triple_commitReplicatedMutation requirePending (fun _ hF => hF) h.setConsensus (h.apply ord hm)

theorem commitReplicatedMutationFromLeader (h : KeptBySteps n F C) (ord : IterOrder) {m : Mutation}
    (requirePending : Bool) (leaderId : String) (hm : m.Routed n) :
    Triple F (commitReplicatedMutationFromLeader ord m requirePending leaderId) (fun _ => F) F C :=
  triple_commitReplicatedMutationFromLeader requirePending leaderId (fun _ hF => hF) h.setConsensus
    (h.apply ord hm)

end KeptBySteps

end Globacl
