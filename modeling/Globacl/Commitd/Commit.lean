import Globacl.Commitd.Consensus

/-!
# Committing on a node (`globacl-commitd/src/app/commit.rs`, `routes.rs`)

What a request does to the memory and the files of the node that serves it. What the other nodes
and the other threads do in the meantime is an argument (`Peers`): the outcome of the prepare round
of a mutation, and what became of the consensus state during the round.
-/

namespace Globacl

open Lib Prog

/-- The environment of a node during its requests. -/
structure Peers where
  /-- The outcome of the prepare round of a mutation. -/
  prepared : Mutation → Result Unit
  /-- What other threads did to the consensus state during the round. -/
  meanwhile : Mutation → ConsensusState → ConsensusState

/-- `apply_prepared_mutation`. -/
def applyPreparedMutation (ord : IterOrder) (m : Mutation) : Program ApplyStatus := do
  let app ← Prog.get
  let alreadyAtOrPastSeq := decide (app.state.watermark m.shard ≥ m.seq)
  if !alreadyAtOrPastSeq then persistMutation m else pure ()
  let (status, st) ← Prog.lift (app.state.applyReplicatedMutation m)
  setState st
  if status = .applied then do
    persistLatestSnapshot (st.snapshot ord)
    persistArchivedSnapshot (st.snapshot ord)
    maybeCompactMutationLogs ord
  else pure ()
  removePendingMutation m
  pure status

/-- `apply_prepared_mutation` behind the log: what the memory says of the mutation. -/
def applyLogged (ord : IterOrder) (m : Mutation) (st : SourceOfTruth) : Program ApplyStatus := do
  let (status, st) ← Prog.lift (st.applyReplicatedMutation m)
  setState st
  if status = .applied then do
    persistLatestSnapshot (st.snapshot ord)
    persistArchivedSnapshot (st.snapshot ord)
    maybeCompactMutationLogs ord
  else pure ()
  removePendingMutation m
  pure status

/-- The log is written unless the watermark is past the mutation, and what holds then goes on. -/
theorem triple_applyPreparedMutation {ord : IterOrder} {m : Mutation} {p e r : App → Prop}
    {k : App → App → Prop} {q : ApplyStatus → App → Prop} (hstart : ∀ app₀, p app₀ → k app₀ app₀)
    (hpersist : ∀ app₀, p app₀ → Triple (k app₀) (persistMutation m) (fun _ => k app₀) e r)
    (happly : ∀ app₀, p app₀ → Triple (k app₀) (applyLogged ord m app₀.state) q e r) :
    Triple p (applyPreparedMutation ord m) q e r := by
  refine Triple.get_bind fun app₀ h₀ => ?_
  have hlogged := happly app₀ h₀
  refine Triple.conseq (p := k app₀) ?_ (fun _ heq => heq ▸ hstart app₀ h₀) (fun _ _ h => h)
    (fun _ h => h) fun _ h => h
  exact Triple.ite (fun _ => (hpersist app₀ h₀).bind fun _ => hlogged) fun _ => hlogged

/-- `prepare_on_quorum`. -/
def prepareOnQuorum (peers : Peers) (m : Mutation) : Program Unit := do
  let app ← Prog.get
  if app.config.replication.isClustered then do
    Prog.step fun app => { app with consensus := peers.meanwhile m app.consensus }
    Prog.lift (peers.prepared m)
  else pure ()

/-- The check of `commit_prepared_outcome`, before and after the prepare round, that the node leads
in the term of the mutation. -/
def ensureLeaderTerm (app : App) (m : Mutation) : Result Unit :=
  match ensureWriteAuthority app.config.replication app.consensus with
  | .error err => .error err
  | .ok term =>
    if m.epoch ≠ term then
      .error (.invalidData s!"mutation epoch {m.epoch} does not match current leader term {term}")
    else .ok ()

/-- `commit_prepared_outcome`. The messages to the peers at its end change nothing on the node. -/
def commitPreparedOutcome (ord : IterOrder) (peers : Peers) (outcome : CommitOutcome) :
    Program CommitOutcome := do
  if outcome.duplicate then pure outcome
  else do
    let app ← Prog.get
    Prog.lift (ensureLeaderTerm app outcome.mutation)
    prepareOnQuorum peers outcome.mutation
    let app ← Prog.get
    Prog.lift (ensureLeaderTerm app outcome.mutation)
    let _ ← applyPreparedMutation ord outcome.mutation
    pure outcome

/-- `commit_request`. -/
def commitRequest (ord : IterOrder) (peers : Peers) (now : Nat) (request : DenyRequest) :
    Program CommitOutcome := do
  let app ← Prog.get
  let term ← Prog.lift (ensureWriteAuthority app.config.replication app.consensus)
  setState (app.state.setEpoch term)
  let outcome ← Prog.lift ((app.state.setEpoch term).prepareCommit now request)
  commitPreparedOutcome ord peers outcome

/-- `commit_rule_request`. -/
def commitRuleRequest (ord : IterOrder) (peers : Peers) (now : Nat) (request : RuleRequest) :
    Program CommitOutcome := do
  let app ← Prog.get
  let term ← Prog.lift (ensureWriteAuthority app.config.replication app.consensus)
  setState (app.state.setEpoch term)
  let outcome ← Prog.lift ((app.state.setEpoch term).prepareRuleCommit now request)
  commitPreparedOutcome ord peers outcome

/-- `POST /v1/rollback` with the snapshot that its file holds. The mutations are planned on a copy
of the state and then committed one by one. -/
def rollbackRequest (ord : IterOrder) (peers : Peers) (clock : Nat → Nat) (snapshot : Snapshot)
    (rollbackId : String) : Program Unit := do
  let app ← Prog.get
  let term ← Prog.lift (ensureWriteAuthority app.config.replication app.consensus)
  setState (app.state.setEpoch term)
  let planned ← Prog.lift
    ((app.state.setEpoch term).restoreSnapshot clock ord snapshot rollbackId)
  Prog.forEach
    (fun m => do
      let _ ← commitPreparedOutcome ord peers ⟨m, false⟩
      pure ())
    planned.mutations
  let app ← Prog.get
  persistArchivedSnapshot (app.state.snapshot ord)

/-! ## Replicated mutations -/

/-- A change of the consensus state that is written to its file. -/
def setConsensus (cs : ConsensusState) : Program Unit := do
  Prog.step fun app => { app with consensus := cs }
  writeDisk fun d => { d with consensus := some cs.file }

/-- `commit_replicated_mutation`. -/
def commitReplicatedMutation (ord : IterOrder) (m : Mutation) (requirePending : Bool) :
    Program ApplyStatus := do
  let app ← Prog.get
  Prog.lift (ensureSameCluster app.config.replication m)
  let cs ← Prog.lift (ensureMutationTerm app.consensus m)
  if cs = app.consensus then pure () else setConsensus cs
  let alreadyAtOrPastSeq := decide (app.state.watermark m.shard ≥ m.seq)
  if requirePending ∧ !alreadyAtOrPastSeq then
    Prog.lift (ensurePendingMutation app.disk.pending m)
  else pure ()
  applyPreparedMutation ord m

/-- `commit_replicated_mutation_from_leader`. -/
def commitReplicatedMutationFromLeader (ord : IterOrder) (m : Mutation) (requirePending : Bool)
    (leaderId : String) : Program ApplyStatus := do
  let app ← Prog.get
  Prog.lift (ensureSameCluster app.config.replication m)
  let cs ← Prog.lift (ensureReplicationLeader app.config.replication app.consensus m leaderId)
  setConsensus cs
  commitReplicatedMutation ord m requirePending

section Replicated

variable {ord : IterOrder} {m : Mutation} {p e r : App → Prop} {q : ApplyStatus → App → Prop}

/-- A check before a program that starts as it would have without it. -/
theorem triple_check {α β : Type} {x : Result α} {f : α → Program β} {q : β → App → Prop}
    (he : ∀ app, p app → e app) (hf : ∀ a, Triple p (f a) q e r) :
    Triple p (Prog.lift x >>= f) q e r :=
  Triple.bind (q := fun _ => p) (Triple.lift (fun _ _ _ h => h) fun app _ _ h => he app h) hf

/-- A replicated mutation is checked, may change the consensus state, and is applied. -/
theorem triple_commitReplicatedMutation (requirePending : Bool) (he : ∀ app, p app → e app)
    (hconsensus : ∀ cs, Triple p (setConsensus cs) (fun _ => p) e r)
    (happly : Triple p (applyPreparedMutation ord m) q e r) :
    Triple p (commitReplicatedMutation ord m requirePending) q e r := by
  refine Triple.get_bind fun app₀ h₀ => ?_
  refine Triple.conseq (p := p) ?_ (fun _ heq => heq ▸ h₀) (fun _ _ h => h) (fun _ h => h)
    fun _ h => h
  refine triple_check he fun _ => triple_check he fun cs => ?_
  have hpending : Triple p (if requirePending = true ∧
        (!decide (app₀.state.watermark m.shard ≥ m.seq)) = true then do
        Prog.lift (ensurePendingMutation app₀.disk.pending m)
        applyPreparedMutation ord m
      else do
        pure ()
        applyPreparedMutation ord m) q e r :=
    Triple.ite (fun _ => triple_check he fun _ => happly) fun _ => happly
  exact Triple.ite (fun _ => hpending) fun _ => (hconsensus cs).bind fun _ => hpending

theorem triple_commitReplicatedMutationFromLeader (requirePending : Bool) (leaderId : String)
    (he : ∀ app, p app → e app) (hconsensus : ∀ cs, Triple p (setConsensus cs) (fun _ => p) e r)
    (happly : Triple p (applyPreparedMutation ord m) q e r) :
    Triple p (commitReplicatedMutationFromLeader ord m requirePending leaderId) q e r := by
  refine Triple.get_bind fun app₀ h₀ => ?_
  refine Triple.conseq (p := p) ?_ (fun _ heq => heq ▸ h₀) (fun _ _ h => h) (fun _ h => h)
    fun _ h => h
  exact triple_check he fun _ => triple_check he fun cs => (hconsensus cs).bind fun _ =>
    triple_commitReplicatedMutation requirePending he hconsensus happly

end Replicated

end Globacl
