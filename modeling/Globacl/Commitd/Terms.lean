import Globacl.Commitd.Watermarks

/-!
# What the sections of a node do to its consensus state

A section under the consensus lock either fails and changes nothing, or it replaces the consensus
state by what a function of `Consensus.lean` returns and writes it to `consensus.state`. Here each
of them gets its inversion lemma. A section under the state lock leaves the consensus state alone.

* `ensureReplicationLeader_ok` and the lemmas after it: what the functions return.
* `Process.Adopts`: the seven ways in which a section changes the consensus state.
* `Process.settles_act`: there is no other, and each is written to `consensus.state`.
* `Process.Rounds`, `Process.rounds_act`: the ways in which a section treats the round under the state
  lock.
-/

namespace Globacl

open Lib Prog

/-- The consensus state is replaced, in memory and in its file. -/
def App.withConsensus (app : App) (cs : ConsensusState) : App :=
  { app with consensus := cs, disk := { app.disk with consensus := some cs.file } }

section Sections

variable {ord : IterOrder} (app : App)

theorem receiveReplication_cases (message : Replication) (m : Mutation) (leaderId : String) :
    (∃ err, (receiveReplication message m leaderId app).result = .error err ∧
      (receiveReplication message m leaderId app).final = app) ∨
    ∃ cs, ensureReplicationLeader app.config.replication app.consensus m leaderId = .ok cs ∧
      (receiveReplication message m leaderId app).result = .ok (.replication message m) ∧
      (receiveReplication message m leaderId app).final = app.withConsensus cs := by
  unfold receiveReplication
  rw [get_bind_apply]
  cases ensureSameCluster app.config.replication m with
  | error err => exact Or.inl ⟨err, rfl, rfl⟩
  | ok _ =>
    rw [lift_ok_bind_apply]
    cases ensureReplicationLeader app.config.replication app.consensus m leaderId with
    | error err => exact Or.inl ⟨err, rfl, rfl⟩
    | ok cs => exact Or.inr ⟨cs, rfl, rfl, rfl⟩

theorem checkMutationTerm_cases (message : Replication) (m : Mutation) :
    (∃ err, (checkMutationTerm message m app).result = .error err ∧
      (checkMutationTerm message m app).final = app) ∨
    ∃ cs, ensureMutationTerm app.consensus m = .ok cs ∧
      (checkMutationTerm message m app).result = .ok (.checked message m) ∧
      (cs = app.consensus ∧ (checkMutationTerm message m app).final = app ∨
        (checkMutationTerm message m app).final = app.withConsensus cs) := by
  unfold checkMutationTerm
  rw [get_bind_apply]
  cases ensureSameCluster app.config.replication m with
  | error err => exact Or.inl ⟨err, rfl, rfl⟩
  | ok _ =>
    rw [lift_ok_bind_apply]
    cases ensureMutationTerm app.consensus m with
    | error err => exact Or.inl ⟨err, rfl, rfl⟩
    | ok cs =>
      refine Or.inr ⟨cs, rfl, ?_⟩
      rw [lift_ok_bind_apply]
      by_cases hsame : cs = app.consensus
      · rw [if_pos hsame]
        exact ⟨rfl, Or.inl ⟨hsame, rfl⟩⟩
      · rw [if_neg hsame]
        exact ⟨rfl, Or.inr rfl⟩

/-- Where the state is not written to its file, it is as before and the vote is refused. -/
theorem handleRequestVote_of_not_persist {cs : ConsensusState} {status : LogStatus}
    {req : VoteRequest} (h : (handleRequestVote cs status req).2.2 = false) :
    (handleRequestVote cs status req).1 = cs ∧
      (handleRequestVote cs status req).2.1.voteGranted = false := by
  unfold handleRequestVote at h ⊢
  dsimp only at h ⊢
  split at h
  · cases h
  · rename_i hvote
    rw [if_neg hvote]
    rw [decide_eq_false_iff_not] at h
    unfold adoptTerm at h ⊢
    split
    · rename_i hterm
      rw [if_pos hterm] at h
      exact absurd (le_refl _) h
    · exact ⟨rfl, rfl⟩

theorem judge_cases (req : VoteRequest) (status : LogStatus) :
    (judge req status app).result = .ok (handleRequestVote app.consensus status req).2.1 ∧
      ((handleRequestVote app.consensus status req).1 = app.consensus ∧
          (handleRequestVote app.consensus status req).2.1.voteGranted = false ∧
          (judge req status app).final = app ∨
        (judge req status app).final =
          app.withConsensus (handleRequestVote app.consensus status req).1) := by
  unfold judge
  rw [get_bind_apply]
  dsimp only
  by_cases hp : (handleRequestVote app.consensus status req).2.2
  · rw [if_pos hp]
    exact ⟨rfl, Or.inr rfl⟩
  · rw [if_neg hp]
    obtain ⟨hcs, hrefused⟩ := handleRequestVote_of_not_persist (eq_false_of_ne_true hp)
    refine ⟨rfl, Or.inl ⟨hcs, hrefused, ?_⟩⟩
    show { app with consensus := (handleRequestVote app.consensus status req).1 } = app
    rw [hcs]

theorem receiveHeartbeat_cases (hb : Heartbeat) :
    (receiveHeartbeat hb app).final = app ∨
    ∃ cs, checkHeartbeat app.config.replication hb = .ok () ∧
      handleHeartbeat app.consensus hb = (cs, true) ∧
      (receiveHeartbeat hb app).final = app.withConsensus cs := by
  unfold receiveHeartbeat
  rw [get_bind_apply]
  cases checkHeartbeat app.config.replication hb with
  | error err => exact Or.inl rfl
  | ok _ =>
    rw [lift_ok_bind_apply]
    dsimp only
    cases haccepted : (handleHeartbeat app.consensus hb).2 with
    | false => exact Or.inl rfl
    | true => exact Or.inr ⟨_, rfl, Prod.ext rfl haccepted, rfl⟩

theorem readMemory_final (req : VoteRequest) : (readMemory req app).final = app := by
  unfold readMemory
  rw [get_bind_apply]
  cases checkVoteRequest app.config.replication req with
  | error err => rfl
  | ok _ => rfl

theorem receiveClient_final (request : ClientRequest) : (receiveClient request app).final = app := by
  unfold receiveClient
  rw [get_bind_apply]
  cases ensureWriteAuthority app.config.replication app.consensus with
  | error err => rfl
  | ok _ => rfl

theorem loadPending_final (elected : Nat) : (loadPending ord elected app).final = app := by
  unfold loadPending
  rw [get_bind_apply]
  cases ensureWriteAuthority app.config.replication app.consensus with
  | error err => rfl
  | ok _ => rfl

theorem winElection_cases (term : Nat) :
    becomeLeader app.config.replication app.consensus term = none ∧
      (winElection term app).result = .ok .idle ∧ (winElection term app).final = app ∨
    ∃ cs, becomeLeader app.config.replication app.consensus term = some cs ∧
      (winElection term app).result = .ok (.won term) ∧
      (winElection term app).final = app.withConsensus cs := by
  unfold winElection
  rw [get_bind_apply]
  cases becomeLeader app.config.replication app.consensus term with
  | none => exact Or.inl ⟨rfl, rfl, rfl⟩
  | some cs => exact Or.inr ⟨cs, rfl, rfl, rfl⟩

end Sections

/-! ## Terms only grow -/

section Terms

variable {cfg : ReplicationConfig} {cs cs' : ConsensusState}

theorem ensureReplicationLeader_ok {m : Mutation} {leaderId : String}
    (h : ensureReplicationLeader cfg cs m leaderId = .ok cs') :
    trim leaderId ∈ cfg.peers ∧ trim leaderId ≠ cfg.nodeId ∧ cs.currentTerm ≤ m.epoch ∧
      (m.epoch = cs.currentTerm → ∀ known, cs.leaderId = some known → known = trim leaderId) ∧
      cs' = ⟨m.epoch, if m.epoch > cs.currentTerm then none else cs.votedFor, .follower,
        some (trim leaderId)⟩ := by
  unfold ensureReplicationLeader at h
  dsimp only at h
  split at h
  · cases h
  · split at h
    · cases h
    · split at h
      · cases h
      · split at h
        · cases h
        · split at h
          · cases h
          · rename_i hself hpeer hterm hconflict
            refine ⟨not_not.mp hpeer, hself, not_lt.mp hterm, fun heq known hl => ?_,
              (Except.ok.inj h).symm⟩
            rw [hl] at hconflict
            simpa [heq] using hconflict

theorem ensureMutationTerm_ok {m : Mutation} (h : ensureMutationTerm cs m = .ok cs') :
    cs.currentTerm ≤ m.epoch ∧ cs'.currentTerm = m.epoch ∧
      (cs' = cs ∨ cs.currentTerm < m.epoch ∧ cs' = ⟨m.epoch, none, .follower, none⟩) := by
  unfold ensureMutationTerm at h
  split at h
  · cases h
  · split at h
    · cases h
      exact ⟨by omega, rfl, Or.inr ⟨by omega, rfl⟩⟩
    · cases h
      exact ⟨by omega, by omega, Or.inl rfl⟩

theorem adoptTerm_le (cs : ConsensusState) (term : Nat) :
    cs.currentTerm ≤ (adoptTerm cs term).currentTerm ∧ term ≤ (adoptTerm cs term).currentTerm := by
  unfold adoptTerm
  split
  · exact ⟨by dsimp only; omega, le_refl _⟩
  · exact ⟨le_refl _, by omega⟩

theorem handleRequestVote_term (cs : ConsensusState) (status : LogStatus) (req : VoteRequest) :
    (handleRequestVote cs status req).1.currentTerm = (adoptTerm cs req.term).currentTerm := by
  unfold handleRequestVote
  dsimp only
  split <;> rfl

/-- A vote is granted in the term that the node is then in, which is the term of the request. -/
theorem handleRequestVote_granted {status : LogStatus} {req : VoteRequest}
    (h : (handleRequestVote cs status req).2.1.voteGranted = true) :
    (handleRequestVote cs status req).2.1.term = req.term ∧
      (handleRequestVote cs status req).1.currentTerm = req.term := by
  unfold handleRequestVote at h ⊢
  dsimp only at h ⊢
  split at h
  · rename_i hvote
    rw [if_pos hvote]
    have hterm : req.term = (adoptTerm cs req.term).currentTerm := by
      simp only [canVote, Bool.and_eq_true, beq_iff_eq] at hvote
      exact hvote.1.1.1
    exact ⟨hterm.symm, hterm.symm⟩
  · cases h

theorem handleHeartbeat_ok {hb : Heartbeat} (h : handleHeartbeat cs hb = (cs', true)) :
    cs.currentTerm ≤ hb.term ∧
      (hb.term = cs.currentTerm → ∀ known, cs.leaderId = some known → known = hb.leaderId) ∧
      cs' = ⟨hb.term, if hb.term > cs.currentTerm then none else cs.votedFor, .follower,
        some hb.leaderId⟩ := by
  unfold handleHeartbeat at h
  dsimp only at h
  split at h
  · rename_i haccept
    simp only [Bool.or_eq_true, decide_eq_true_eq, Bool.and_eq_true, beq_iff_eq,
      Bool.not_eq_true', Bool.and_eq_false_iff] at haccept
    refine ⟨by omega, fun heq known hl => ?_, ?_⟩
    · rcases haccept with hlt | ⟨-, hne | hany⟩
      · omega
      · rw [heq] at hne
        simp at hne
      · rw [hl] at hany
        simpa using hany
    · have h := (Prod.mk.inj h).1.symm
      simpa using h
  · cases h

end Terms

/-! ## A section of a node -/

namespace Process

/-- The last section of a thread. -/
theorem run_last {α : Type} (p : Process) (c : Program α) :
    p.run c (fun p _ => p) id = { p with app := (c p.app).final } := by
  unfold run
  cases (c p.app).result <;> rfl

/-- The vote that a section grants, and the log status by which it was judged. -/
def grants (p : Process) : Section → Option (VoteRequest × LogStatus)
  | .thread _ i =>
    match p.threads[i]? with
    | some (.judging req status) =>
      if (handleRequestVote p.app.consensus status req).2.1.voteGranted then some (req, status)
      else none
    | _ => none
  | _ => none

theorem grants_eq_some {p : Process} {e : Section} {req : VoteRequest} {status : LogStatus}
    (h : p.grants e = some (req, status)) :
    ∃ ord i, e = .thread ord i ∧ p.threads[i]? = some (.judging req status) ∧
      (handleRequestVote p.app.consensus status req).2.1.voteGranted = true := by
  cases e with
  | thread ord i =>
    unfold grants at h
    dsimp only at h
    split at h
    · rename_i hi
      split at h
      · rename_i hgranted
        cases h
        exact ⟨ord, i, rfl, hi, hgranted⟩
      · cases h
    · cases h
  | _ => cases h

theorem act_judging {p : Process} {ord : IterOrder} {i : Nat} {req : VoteRequest}
    {status : LogStatus} (hi : p.threads[i]? = some (.judging req status)) :
    p.act (.thread ord i) =
      { p with threads := p.threads.eraseIdx i, app := (judge req status p.app).final } := by
  unfold act
  simp only [hi, Thread.locks, Bool.false_eq_true, false_and, if_false]
  dsimp only [actThread]
  rw [run_last]

/-- A message by which a node hears of the leader of a term. -/
def Hears (p : Process) (term : Nat) (leaderId : String) : Section → Prop
  | .heartbeat hb =>
    checkHeartbeat p.app.config.replication hb = .ok () ∧ hb.term = term ∧ hb.leaderId = leaderId
  | .receiveReplication _ m from' =>
    (ensureReplicationLeader p.app.config.replication p.app.consensus m from').isOk ∧
      m.epoch = term ∧ trim from' = leaderId
  | _ => False

/-- The ways in which a section changes the consensus state. -/
inductive Adopts (p : Process) (e : Section) : ConsensusState → Prop
  | keep : Adopts p e p.app.consensus
  | stepDown (term : Nat) : Adopts p e (stepDownToTerm p.app.consensus term none)
  | newTerm (term : Nat) : p.app.consensus.currentTerm < term →
    Adopts p e ⟨term, none, .follower, none⟩
  | hears (term : Nat) (leaderId : String) : p.Hears term leaderId e →
    p.app.consensus.currentTerm ≤ term →
    (term = p.app.consensus.currentTerm →
      ∀ known, p.app.consensus.leaderId = some known → known = leaderId) →
    Adopts p e ⟨term, if term > p.app.consensus.currentTerm then none else p.app.consensus.votedFor,
      .follower, some leaderId⟩
  | votes (req : VoteRequest) (status : LogStatus) : p.grants e = some (req, status) →
    Adopts p e { adoptTerm p.app.consensus req.term with
      votedFor := some req.candidateId, role := .follower, leaderId := none }
  | candidate (ord : IterOrder) (quorum : Bool) : e = .election ord quorum → p.election = .idle →
    Adopts p e (becomeCandidate p.app.config.replication p.app.consensus)
  | leader (ord : IterOrder) (term : Nat) (cs : ConsensusState) : e = .election ord true →
    p.election = .electing term →
    becomeLeader p.app.config.replication p.app.consensus term = some cs → Adopts p e cs

/-- What a section leaves: the consensus state is changed in one of these ways, and is in its file
unless both are as before. -/
structure Settles (p : Process) (e : Section) (app : App) : Prop where
  config : app.config = p.app.config
  adopts : Adopts p e app.consensus
  file : app.consensus = p.app.consensus ∧ app.disk.consensus = p.app.disk.consensus ∨
    app.disk.consensus = some app.consensus.file

variable {p : Process} {e : Section}

theorem Settles.refl : Settles p e p.app := ⟨rfl, .keep, Or.inl ⟨rfl, rfl⟩⟩

theorem Settles.withConsensus {cs : ConsensusState} (h : Adopts p e cs) :
    Settles p e (p.app.withConsensus cs) := ⟨rfl, h, Or.inr rfl⟩

theorem Settles.of_onward {new : Mutation → Prop} {app : App} (h : Onward new p.app app) :
    Settles p e app :=
  ⟨h.config, h.consensus ▸ .keep, Or.inl ⟨h.consensus, h.file⟩⟩

theorem Settles.of_stores {m : Mutation} {app : App} (h : Stores m p.app app) :
    Settles p e app :=
  ⟨h.config, h.consensus ▸ .keep, Or.inl ⟨h.consensus, h.file⟩⟩

/-- The end of a recovery after a section that has left the consensus state alone. -/
theorem settles_failRecovery {p' : Process} (term : Nat) (hconfig : p'.app.config = p.app.config)
    (hcs : p'.app.consensus = p.app.consensus) : Settles p e (p'.failRecovery term).app := by
  refine ⟨hconfig, ?_, Or.inr rfl⟩
  show Adopts p e (stepDownToTerm p'.app.consensus term none)
  rw [hcs]
  exact .stepDown term

theorem settles_run {α : Type} {p' : Process} {c : Program α} {onOk : Process → α → Process}
    (hc : Settles p e (c p'.app).final) (hok : ∀ p' a, (onOk p' a).app = p'.app) :
    Settles p e (p'.run c onOk id).app := by
  unfold run
  cases (c p'.app).result with
  | ok a => rwa [hok]
  | error err => exact hc

theorem settles_receiveReplication {message : Replication} {m : Mutation} {leaderId : String} :
    Settles p (.receiveReplication message m leaderId)
      (Globacl.receiveReplication message m leaderId p.app).final := by
  obtain ⟨_, -, happ⟩ | ⟨cs, hcs, -, happ⟩ := receiveReplication_cases p.app message m leaderId
  · rw [happ]
    exact .refl
  · rw [happ]
    have hok : (ensureReplicationLeader p.app.config.replication p.app.consensus m
        leaderId).isOk := by
      rw [hcs]
      rfl
    obtain ⟨-, -, hterm, hleader, rfl⟩ := ensureReplicationLeader_ok hcs
    exact .withConsensus (.hears _ _ ⟨hok, rfl, rfl⟩ hterm hleader)

theorem settles_checkMutationTerm {message : Replication} {m : Mutation} :
    Settles p e (checkMutationTerm message m p.app).final := by
  obtain ⟨_, -, happ⟩ | ⟨cs, hcs, -, ⟨-, happ⟩ | happ⟩ := checkMutationTerm_cases p.app message m
  · rw [happ]
    exact .refl
  · rw [happ]
    exact .refl
  · rw [happ]
    obtain ⟨-, -, rfl | ⟨hlt, rfl⟩⟩ := ensureMutationTerm_ok hcs
    · exact .withConsensus .keep
    · exact .withConsensus (.newTerm _ hlt)

theorem settles_judge {ord : IterOrder} {i : Nat} {req : VoteRequest} {status : LogStatus}
    (hi : p.threads[i]? = some (.judging req status)) :
    Settles p (.thread ord i) (judge req status p.app).final := by
  have hadopts : Adopts p (.thread ord i) (handleRequestVote p.app.consensus status req).1 := by
    cases hvote : canVote (adoptTerm p.app.consensus req.term) status req with
    | true =>
      have hreply : handleRequestVote p.app.consensus status req =
          ({ adoptTerm p.app.consensus req.term with
              votedFor := some req.candidateId, role := .follower, leaderId := none },
            ⟨(adoptTerm p.app.consensus req.term).currentTerm, true⟩, true) := if_pos hvote
      rw [hreply]
      refine .votes req status ?_
      simp only [grants, hi, hreply, if_true]
    | false =>
      have hcs : (handleRequestVote p.app.consensus status req).1 =
          adoptTerm p.app.consensus req.term := by
        simp only [handleRequestVote, hvote, Bool.false_eq_true, if_false]
      rw [hcs]
      unfold adoptTerm
      split
      · exact .newTerm _ ‹_›
      · exact .keep
  obtain ⟨-, ⟨-, -, happ⟩ | happ⟩ := judge_cases p.app req status
  · rw [happ]
    exact .refl
  · rw [happ]
    exact .withConsensus hadopts

theorem settles_receiveHeartbeat {hb : Heartbeat} :
    Settles p (.heartbeat hb) (Globacl.receiveHeartbeat hb p.app).final := by
  obtain happ | ⟨cs, hcheck, haccept, happ⟩ := receiveHeartbeat_cases p.app hb
  · rw [happ]
    exact .refl
  · rw [happ]
    obtain ⟨hterm, hleader, rfl⟩ := handleHeartbeat_ok haccept
    exact .withConsensus (.hears _ _ ⟨hcheck, rfl, rfl⟩ hterm hleader)

/-- An install writes neither the consensus state nor its file. -/
theorem settles_rebuildFromLeader {ord : IterOrder} {snapshot : Snapshot} {ids : List Mutation} :
    Settles p e (rebuildFromLeader ord snapshot ids p.app).final := by
  have hwrite : ∀ {f : Disk → Disk}, (∀ d, (f d).consensus = d.consensus) →
      Respects (fun app app' : App => app'.config = app.config ∧ app'.consensus = app.consensus ∧
        app'.disk.consensus = app.disk.consensus) (writeDisk f) := fun hf =>
    .step fun _ _ h => ⟨h.1, h.2.1, (hf _).trans h.2.2⟩
  have hkeeps : Respects (fun app app' : App => app'.config = app.config ∧
      app'.consensus = app.consensus ∧ app'.disk.consensus = app.disk.consensus)
      (rebuildFromLeader ord snapshot ids) := by
    refine .get_bind fun _ => .bind (.lift _) fun _ => .bind (.lift _) fun rebuilt => ?_
    refine .bind (hwrite fun _ => by rfl) fun _ => .bind (hwrite fun _ => by rfl) fun _ => ?_
    refine .bind (.ite (fun _ => .lift _) fun _ => .forEach (fun _ => hwrite fun _ => by rfl) _)
      fun _ => ?_
    exact .bind (.lift _) fun _ => .pure _
  obtain ⟨hconfig, hcs, hfile⟩ := hkeeps.final (fun _ => ⟨rfl, rfl, rfl⟩) p.app
  exact ⟨hconfig, hcs ▸ .keep, Or.inl ⟨hcs, hfile⟩⟩

theorem settles_actThread {ord : IterOrder} {i : Nat} {t : Thread} (hi : p.threads[i]? = some t)
    {p' : Process} (happ : p'.app = p.app) :
    Settles p (.thread ord i) (p'.actThread ord t).app := by
  cases t with
  | replication message m =>
    cases message with
    | abort =>
      refine settles_run ?_ fun _ _ => rfl
      rw [happ]
      exact .of_onward ((@onward_removePendingMutation (fun _ => False) m).final .refl _)
    | prepare | commit =>
      refine settles_run ?_ fun _ _ => rfl
      rw [happ]
      exact settles_checkMutationTerm
  | checked message m =>
    cases message with
    | abort =>
      show Settles p (.thread ord i) p'.app
      rw [happ]
      exact .refl
    | prepare =>
      refine settles_run ?_ fun _ _ => rfl
      rw [happ]
      exact .of_stores (stores_prepareLocked.final (.refl m) _)
    | commit requirePending =>
      refine settles_run ?_ fun _ _ => rfl
      rw [happ]
      exact .of_onward ((onward_commitLocked requirePending).final .refl _)
  | voting req st =>
    refine settles_run ?_ fun _ _ => rfl
    rw [happ]
    exact .refl
  | judging req status =>
    refine settles_run ?_ fun _ _ => rfl
    rw [happ]
    exact settles_judge hi
  | client request term =>
    refine settles_run ?_ fun _ _ => rfl
    rw [happ]
    exact .of_onward ((onward_assign request term).final .refl _)
  | installing snapshot rebuilt =>
    refine settles_run ?_ fun _ _ => rfl
    rw [happ]
    exact ⟨rfl, .keep, Or.inl ⟨rfl, rfl⟩⟩

theorem settles_actElection (ord : IterOrder) (quorum : Bool) :
    Settles p (.election ord quorum) (p.actElection ord quorum p.election).app := by
  cases helection : p.election with
  | idle =>
    dsimp only [actElection]
    split
    · exact .refl
    · exact settles_run (.withConsensus (.candidate ord quorum rfl helection)) fun _ _ => rfl
  | electing term =>
    dsimp only [actElection]
    split
    · rename_i hquorum
      refine settles_run ?_ fun _ _ => rfl
      obtain ⟨-, -, happ⟩ | ⟨cs, hcs, -, happ⟩ := winElection_cases p.app term
      · rw [happ]
        exact .refl
      · rw [happ]
        exact .withConsensus (.leader ord term cs (by rw [hquorum]) helection hcs)
    · exact .refl
  | won term =>
    dsimp only [actElection]
    unfold run
    rw [loadPending_final]
    cases (loadPending ord term p.app).result with
    | ok a => exact .refl
    | error err => exact settles_failRecovery term rfl rfl
  | recovering elected term pending =>
    cases pending with
    | nil => exact .refl
    | cons m pending =>
      dsimp only [actElection]
      split
      · exact .refl
      · split
        · exact .refl
        · have h := (@onward_recoverRecord m term).final .refl p.app
          unfold run
          dsimp only
          cases (recoverRecord term m p.app).result with
          | ok a => exact .of_onward h
          | error err => exact settles_failRecovery elected h.config h.consensus

/-- A section changes the consensus state in one of the ways above, or leaves it as it is. -/
theorem settles_act (p : Process) (e : Section) : Settles p e (p.act e).app := by
  cases e with
  | receiveReplication message m leaderId =>
    exact settles_run settles_receiveReplication fun _ _ => rfl
  | requestVote req =>
    unfold act
    dsimp only
    split
    · exact .refl
    · refine settles_run ?_ fun _ _ => rfl
      rw [readMemory_final]
      exact .refl
  | heartbeat hb => exact settles_run settles_receiveHeartbeat fun _ _ => rfl
  | client request =>
    refine settles_run ?_ fun _ _ => rfl
    rw [receiveClient_final]
    exact .refl
  | install ord snapshot idempotencyMutations =>
    refine settles_run ?_ fun _ _ => rfl
    exact settles_rebuildFromLeader
  | thread ord i =>
    unfold act
    dsimp only
    split
    · exact .refl
    · rename_i t ht
      split
      · exact .refl
      · exact settles_actThread ht rfl
  | endRound ord prepared =>
    unfold act
    dsimp only
    split
    · exact .refl
    · rename_i round _
      have h := (@onward_finishRound ord prepared round).final .refl p.app
      unfold run
      dsimp only
      cases (finishRound ord prepared round p.app).result with
      | ok a => exact .of_onward h
      | error err =>
        dsimp only [failRound]
        split
        · exact settles_failRecovery _ h.config h.consensus
        · exact .of_onward h
  | election ord quorum =>
    unfold act
    dsimp only
    split
    · exact .refl
    · exact settles_actElection ord quorum
  | stepDown term => exact .withConsensus (.stepDown term)

/-! ## The two sections in which a node votes -/

/-- A granted vote is for the term of the request, and there was none for another candidate. -/
theorem act_of_grants {req : VoteRequest} {status : LogStatus}
    (h : p.grants e = some (req, status)) :
    (p.act e).app = p.app.withConsensus { adoptTerm p.app.consensus req.term with
        votedFor := some req.candidateId, role := .follower, leaderId := none } ∧
      req.term = (adoptTerm p.app.consensus req.term).currentTerm ∧
      ∀ voted, (adoptTerm p.app.consensus req.term).votedFor = some voted →
        voted = req.candidateId := by
  obtain ⟨ord, i, rfl, hi, hgranted⟩ := grants_eq_some h
  rw [act_judging hi]
  dsimp only
  cases hvote : canVote (adoptTerm p.app.consensus req.term) status req with
  | true =>
    have hreply : (handleRequestVote p.app.consensus status req).1 =
        { adoptTerm p.app.consensus req.term with
          votedFor := some req.candidateId, role := .follower, leaderId := none } := by
      simp only [handleRequestVote, hvote, if_true]
    simp only [canVote, Bool.and_eq_true, beq_iff_eq] at hvote
    obtain ⟨-, ⟨-, hrefused, -⟩ | happ⟩ := judge_cases p.app req status
    · rw [hgranted] at hrefused
      cases hrefused
    · rw [happ, hreply]
      refine ⟨rfl, hvote.1.1.1, fun voted hvoted => ?_⟩
      rw [hvoted] at hvote
      simpa using hvote.2
  | false =>
    simp only [handleRequestVote, hvote, Bool.false_eq_true, if_false] at hgranted

theorem run_election {α : Type} {p : Process} {c : Program α} {onOk : Process → α → Process}
    {onError : Process → Process} (hok : ∀ p' a, (onOk p' a).election = p'.election)
    (herror : ∀ p', (onError p').election = p'.election) :
    (p.run c onOk onError).election = p.election := by
  unfold run
  cases (c p.app).result with
  | ok a => exact hok _ a
  | error err => exact herror _

theorem actThread_election (ord : IterOrder) (p : Process) (t : Thread) :
    (p.actThread ord t).election = p.election := by
  cases t with
  | replication message m =>
    cases message <;> exact run_election (fun _ _ => rfl) fun _ => rfl
  | checked message m =>
    cases message with
    | abort => rfl
    | prepare | commit => exact run_election (fun _ _ => rfl) fun _ => rfl
  | _ => exact run_election (fun _ _ => rfl) fun _ => rfl

/-- Only the election thread itself goes on, but for a recovery that fails with its round. -/
theorem act_election_of_ne (he : ∀ ord quorum, e ≠ .election ord quorum) :
    (p.act e).election = p.election ∨ (p.act e).election = .idle := by
  cases e with
  | requestVote req =>
    unfold act
    dsimp only
    split
    · exact Or.inl rfl
    · exact Or.inl (run_election (fun _ _ => rfl) fun _ => rfl)
  | thread ord i =>
    unfold act
    dsimp only
    split
    · exact Or.inl rfl
    · split
      · exact Or.inl rfl
      · exact Or.inl (actThread_election _ _ _)
  | endRound ord prepared =>
    unfold act
    dsimp only
    split
    · exact Or.inl rfl
    · rename_i round _
      unfold run
      dsimp only
      cases (finishRound ord prepared round p.app).result with
      | ok a => exact Or.inl rfl
      | error err =>
        dsimp only [failRound]
        split
        · exact Or.inr rfl
        · exact Or.inl rfl
  | election ord quorum => exact absurd rfl (he ord quorum)
  | stepDown term => exact Or.inl rfl
  | _ => exact Or.inl (run_election (fun _ _ => rfl) fun _ => rfl)

/-- The election thread only comes to wait for votes when it starts an election. -/
theorem act_electing {term : Nat} (h : (p.act e).election = .electing term) :
    p.election = .electing term ∨ p.election = .idle ∧ (∃ ord quorum, e = .election ord quorum) ∧
      term = p.app.consensus.currentTerm + 1 ∧
      (p.act e).app =
        p.app.withConsensus (becomeCandidate p.app.config.replication p.app.consensus) := by
  by_cases he : ∀ ord quorum, e ≠ .election ord quorum
  · rcases act_election_of_ne he with heq | hidle
    · exact Or.inl (heq ▸ h)
    · rw [hidle] at h
      cases h
  · push Not at he
    obtain ⟨ord, quorum, rfl⟩ := he
    unfold act at h ⊢
    dsimp only at h ⊢
    split at h
    · exact Or.inl h
    · rename_i hround
      rw [if_neg hround]
      cases helection : p.election with
      | idle =>
        rw [helection] at h
        dsimp only [actElection] at h ⊢
        split at h
        · rw [helection] at h
          cases h
        · rename_i hrole
          rw [if_neg hrole]
          cases h
          exact Or.inr ⟨rfl, ⟨ord, quorum, rfl⟩, rfl, rfl⟩
      | electing term' =>
        rw [helection] at h
        dsimp only [actElection] at h
        split at h
        · unfold run at h
          obtain ⟨-, hresult, -⟩ | ⟨cs, -, hresult, -⟩ := winElection_cases p.app term'
          · rw [hresult] at h
            cases h
          · rw [hresult] at h
            cases h
        · cases h
      | won term' =>
        rw [helection] at h
        dsimp only [actElection] at h
        unfold run at h
        split at h
        · rename_i election hresult
          have hrecovering : ∃ term pending, election = .recovering term' term pending := by
            obtain ⟨_, ⟨⟩, hresult, -⟩ := bind_ok hresult
            obtain ⟨t, -, hresult, -⟩ := bind_ok hresult
            cases hresult
            exact ⟨_, _, rfl⟩
          obtain ⟨_, _, rfl⟩ := hrecovering
          cases h
        · cases h
      | recovering elected term' pending =>
        rw [helection] at h
        cases pending with
        | nil => cases h
        | cons m pending =>
          dsimp only [actElection] at h
          split at h
          · cases h
          · split at h
            · rw [helection] at h
              cases h
            · unfold run at h
              split at h
              · cases h
              · cases h

/-! ## Prepare rounds -/

theorem ensureLeaderTerm_ok {app : App} {m : Mutation} (h : ensureLeaderTerm app m = .ok ()) :
    app.consensus.role = .leader ∧ m.epoch = app.consensus.currentTerm := by
  unfold ensureLeaderTerm ensureWriteAuthority at h
  by_cases hrole : app.consensus.role = .leader
  · rw [if_pos hrole] at h
    dsimp only at h
    split at h
    · cases h
    · rename_i hepoch
      exact ⟨hrole, not_not.mp hepoch⟩
  · rw [if_neg hrole] at h
    cases h

theorem nextRound_ok {app : App} {recovery : Bool} {outcomes : List CommitOutcome} {round : Round}
    (h : nextRound app recovery outcomes = .ok (some round)) :
    app.consensus.role = .leader ∧ round.outcome.mutation.epoch = app.consensus.currentTerm ∧
      round.outcome ∈ outcomes ∧ round.recovery = recovery := by
  induction outcomes with
  | nil => cases h
  | cons outcome queue ih =>
    unfold nextRound at h
    split at h
    · obtain ⟨hrole, hepoch, hmem, hrec⟩ := ih h
      exact ⟨hrole, hepoch, List.mem_cons_of_mem _ hmem, hrec⟩
    · split at h
      · cases h
      · rename_i hterm
        cases h
        obtain ⟨hrole, hepoch⟩ := ensureLeaderTerm_ok hterm
        exact ⟨hrole, hepoch, List.mem_cons_self, rfl⟩

theorem assign_ok {ord : IterOrder} {request : ClientRequest} {term : Nat} {app : App}
    {next : Option Round} (h : (assign ord request term app).result = .ok next) :
    ∃ outcomes, request.plan ord (app.state.setEpoch term) = .ok outcomes ∧
      nextRound app false outcomes = .ok next := by
  obtain ⟨_, ⟨⟩, h, -⟩ := bind_ok h
  obtain ⟨_, -, h, -⟩ := bind_ok h
  obtain ⟨outcomes, hplan, h, -⟩ := bind_ok h
  exact ⟨outcomes, hplan, h⟩

theorem finishRound_ok {ord : IterOrder} {prepared : Result Unit} {round : Round} {app : App}
    {next : Option Round} (h : (finishRound ord prepared round app).result = .ok next) :
    ensureLeaderTerm app round.outcome.mutation = .ok () ∧
      (∃ status, (applyPreparedMutation ord round.outcome.mutation app).result = .ok status) ∧
      nextRound (applyPreparedMutation ord round.outcome.mutation app).final round.recovery
        round.queue = .ok next ∧
      (finishRound ord prepared round app).final =
        (applyPreparedMutation ord round.outcome.mutation app).final := by
  obtain ⟨_, -, h, hf⟩ := bind_ok h
  obtain ⟨_, ⟨⟩, h, hf₁⟩ := bind_ok h
  obtain ⟨_, hterm, h, hf₂⟩ := bind_ok h
  obtain ⟨status, happly, h, hf₃⟩ := bind_ok h
  unfold finishRound
  rw [hf, hf₁, hf₂, hf₃]
  exact ⟨hterm, ⟨status, happly⟩, h, rfl⟩

theorem recoverRecord_ok {term : Nat} {m : Mutation} {app : App} {round : Round}
    (h : (recoverRecord term m app).result = .ok (some round)) :
    nextRound app true [⟨{ m with commitId := { m.commitId with epoch := term } }, false⟩] =
      .ok (some round) := by
  unfold recoverRecord at h
  rw [get_bind_apply] at h
  split at h
  · cases h
  · split at h
    · obtain ⟨_, -, h, -⟩ := bind_ok h
      cases h
    · split at h
      · cases h
      · exact h

/-- A section that opens no round. -/
theorem run_round {α : Type} {p : Process} {c : Program α} {onOk : Process → α → Process}
    {onError : Process → Process} (hok : ∀ p' a, (onOk p' a).round = p'.round)
    (herror : ∀ p', (onError p').round = p'.round) : (p.run c onOk onError).round = p.round := by
  unfold run
  cases (c p.app).result with
  | ok a => exact hok _ a
  | error err => exact herror _

/-- Only a client opens a round. -/
theorem actThread_round (ord : IterOrder) (p : Process) {t : Thread}
    (ht : ∀ request term, t ≠ .client request term) : (p.actThread ord t).round = p.round := by
  cases t with
  | replication message m => cases message <;> exact run_round (fun _ _ => rfl) fun _ => rfl
  | checked message m =>
    cases message with
    | abort => rfl
    | prepare | commit => exact run_round (fun _ _ => rfl) fun _ => rfl
  | client request term => exact absurd rfl (ht request term)
  | _ => exact run_round (fun _ _ => rfl) fun _ => rfl

/-- What a section does to the round: it leaves it and the state alone, it finds no round and leaves
none, or it is one of the three that open a round. -/
inductive Rounds (p : Process) (e : Section) : Prop
  | quiet : (p.act e).app.state = p.app.state → (p.act e).round = p.round → Rounds p e
  | free : p.round = none → (p.act e).round = none → Rounds p e
  | assigned (ord : IterOrder) (request : ClientRequest) (term : Nat) (round : Round) :
      p.round = none → (p.act e).round = some round →
      (assign ord request term p.app).result = .ok (some round) →
      (p.act e).app = (assign ord request term p.app).final → Rounds p e
  | recovered (term : Nat) (m : Mutation) (round : Round) :
      p.round = none → (p.act e).round = some round →
      (recoverRecord term m p.app).result = .ok (some round) →
      (p.act e).app = (recoverRecord term m p.app).final → Rounds p e
  | ended (ord : IterOrder) (prepared : Result Unit) (last : Round) :
      e = .endRound ord prepared → p.round = some last → Rounds p e

/-- There is nothing else that a section does to the round. -/
theorem rounds_act (p : Process) (e : Section) : p.Rounds e := by
  -- a program that leaves the state alone, and one that runs when there is no round
  have hquiet : ∀ {α : Type} {p' : Process} {c : Program α} {onOk : Process → α → Process}
      {onError : Process → Process}, p.act e = p'.run c onOk onError → p'.app = p.app →
      p'.round = p.round → Respects SameLog c →
      (∀ p' a, (onOk p' a).app = p'.app ∧ (onOk p' a).round = p'.round) →
      (∀ p', (onError p').app.state = p'.app.state ∧ (onError p').round = p'.round) →
      p.Rounds e := by
    intro α p' c onOk onError hact happ hround hc hok herror
    refine .quiet ?_ (hact ▸ (run_round (fun p' a => (hok p' a).2) fun p' => (herror p').2).trans hround)
    rw [hact, ← happ]
    refine run_rel (R := fun app app' => app'.state = app.state) (fun _ _ _ h h' => Eq.trans h' h)
      (hc.final .refl p'.app).state (fun p' a => ?_) fun p' => (herror p').1
    rw [(hok p' a).1]
  have hfree : ∀ {α : Type} {p' : Process} {c : Program α} {onOk : Process → α → Process}
      {onError : Process → Process}, p.act e = p'.run c onOk onError → p.round = none →
      p'.round = p.round → (∀ p' a, (onOk p' a).round = p'.round) →
      (∀ p', (onError p').round = p'.round) → p.Rounds e :=
    fun hact hnone hround hok herror =>
      .free hnone (hact ▸ (run_round hok herror).trans (hround.trans hnone))
  have hsame : ∀ p' : Process, (id p').app.state = p'.app.state ∧ (id p').round = p'.round :=
    fun _ => ⟨rfl, rfl⟩
  have hnone : ¬p.round.isSome → p.round = none := Option.not_isSome_iff_eq_none.mp
  cases e with
  | receiveReplication message m leaderId =>
    exact hquiet rfl rfl rfl (sameLog_receiveReplication message leaderId) (fun _ _ => ⟨rfl, rfl⟩) hsame
  | heartbeat hb => exact hquiet rfl rfl rfl (sameLog_receiveHeartbeat hb) (fun _ _ => ⟨rfl, rfl⟩) hsame
  | client request =>
    exact hquiet rfl rfl rfl (sameLog_receiveClient request) (fun _ _ => ⟨rfl, rfl⟩) hsame
  | install ord snapshot ids =>
    exact hquiet rfl rfl rfl (sameLog_rebuildFromLeader _ _) (fun _ _ => ⟨rfl, rfl⟩) hsame
  | stepDown term => exact .quiet ((sameLog_stepDown term).final .refl p.app).state rfl
  | requestVote req =>
    by_cases hsome : p.round.isSome
    · have hact : p.act (.requestVote req) = p := if_pos hsome
      exact .quiet (by rw [hact]) (by rw [hact])
    · exact hfree (if_neg hsome) (hnone hsome) rfl (fun _ _ => rfl) fun _ => rfl
  | endRound ord prepared =>
    cases hround : p.round with
    | none =>
      have hact : p.act (.endRound ord prepared) = p := by unfold act; simp only [hround]
      exact .quiet (by rw [hact]) (by rw [hact])
    | some last => exact .ended ord prepared last rfl hround
  | thread ord i =>
    cases hi : p.threads[i]? with
    | none =>
      have hact : p.act (.thread ord i) = p := by unfold act; simp only [hi]
      exact .quiet (by rw [hact]) (by rw [hact])
    | some t =>
      by_cases hwaits : t.locks ∧ p.round.isSome
      · have hact : p.act (.thread ord i) = p := by unfold act; simp only [hi]; rw [if_pos hwaits]
        exact .quiet (by rw [hact]) (by rw [hact])
      have hact : p.act (.thread ord i) =
          { p with threads := p.threads.eraseIdx i }.actThread ord t := by
        unfold act
        simp only [hi]
        rw [if_neg hwaits]
      have hlocked : t.locks = true → p.round = none := fun hlocks => hnone fun h => hwaits ⟨hlocks, h⟩
      cases t with
      | replication message m =>
        cases message with
        | abort =>
          exact .quiet (by rw [hact]; rfl) (by rw [hact]; rfl)
        | prepare | commit =>
          exact hquiet hact rfl rfl (sameLog_checkMutationTerm _) (fun _ _ => ⟨rfl, rfl⟩) hsame
      | voting req st =>
        dsimp only [actThread] at hact
        exact hquiet hact rfl rfl (sameLog_readPending req st) (fun _ _ => ⟨rfl, rfl⟩) hsame
      | judging req status =>
        dsimp only [actThread] at hact
        exact hquiet hact rfl rfl (sameLog_judge req status) (fun _ _ => ⟨rfl, rfl⟩) hsame
      | checked message m =>
        exact .free (hlocked rfl)
          (hact ▸ (actThread_round ord _ fun _ _ ht => by cases ht).trans (hlocked rfl))
      | installing snapshot rebuilt =>
        exact .free (hlocked rfl)
          (hact ▸ (actThread_round ord _ fun _ _ ht => by cases ht).trans (hlocked rfl))
      | client request term =>
        dsimp only [actThread] at hact
        unfold run at hact
        dsimp only at hact
        cases hresult : (assign ord request term p.app).result with
        | error err =>
          rw [hresult] at hact
          exact .free (hlocked rfl) (hact ▸ hlocked rfl)
        | ok next =>
          rw [hresult] at hact
          cases next with
          | none => exact .free (hlocked rfl) (hact ▸ rfl)
          | some round =>
            exact .assigned ord request term round (hlocked rfl) (hact ▸ rfl) hresult (hact ▸ rfl)
  | election ord quorum =>
    by_cases hown : p.round.any Round.recovery
    · have hact : p.act (.election ord quorum) = p := if_pos hown
      exact .quiet (by rw [hact]) (by rw [hact])
    have hact : p.act (.election ord quorum) = p.actElection ord quorum p.election := if_neg hown
    cases helection : p.election with
    | idle =>
      rw [helection] at hact
      dsimp only [actElection] at hact
      split at hact
      · exact .quiet (by rw [hact]) (by rw [hact])
      · rename_i hidle
        exact hfree hact (hnone (not_or.mp hidle).2) rfl (fun _ _ => rfl) fun _ => rfl
    | electing term =>
      rw [helection] at hact
      dsimp only [actElection] at hact
      split at hact
      · exact hquiet hact rfl rfl (sameLog_winElection term) (fun _ _ => ⟨rfl, rfl⟩) hsame
      · exact .quiet (by rw [hact]) (by rw [hact])
    | won term =>
      rw [helection] at hact
      dsimp only [actElection] at hact
      exact hquiet hact rfl rfl (sameLog_loadPending term) (fun _ _ => ⟨rfl, rfl⟩)
        fun p' => ⟨((sameLog_stepDown term).final .refl p'.app).state, rfl⟩
    | recovering elected term pending =>
      rw [helection] at hact
      cases pending with
      | nil => exact .quiet (by rw [hact]; rfl) (by rw [hact]; rfl)
      | cons m pending =>
        dsimp only [actElection] at hact
        split at hact
        · exact .quiet (by rw [hact]) (by rw [hact])
        split at hact
        · exact .quiet (by rw [hact]) (by rw [hact])
        · rename_i hfreed
          unfold run at hact
          dsimp only at hact
          cases hresult : (recoverRecord term m p.app).result with
          | error err =>
            rw [hresult] at hact
            exact .free (hnone hfreed) (hact ▸ hnone hfreed)
          | ok next =>
            rw [hresult] at hact
            cases next with
            | none => exact .free (hnone hfreed) (hact ▸ rfl)
            | some round =>
              exact .recovered term m round (hnone hfreed) (hact ▸ rfl) hresult (hact ▸ rfl)

/-- A round that a section opens is of the leader, for a mutation of its term. -/
theorem act_round {round : Round} (h : (p.act e).round = some round) :
    p.round = some round ∨ p.app.consensus.role = .leader ∧
      round.outcome.mutation.epoch = p.app.consensus.currentTerm := by
  cases rounds_act p e with
  | quiet _ hkept => exact Or.inl (hkept ▸ h)
  | free _ hnone =>
    rw [hnone] at h
    cases h
  | assigned ord request term round' _ hopened hresult _ =>
    cases hopened.symm.trans h
    obtain ⟨outcomes, -, hnext⟩ := assign_ok hresult
    obtain ⟨hrole, hepoch, -⟩ := nextRound_ok hnext
    exact Or.inr ⟨hrole, hepoch⟩
  | recovered term m round' _ hopened hresult _ =>
    cases hopened.symm.trans h
    obtain ⟨hrole, hepoch, -⟩ := nextRound_ok (recoverRecord_ok hresult)
    exact Or.inr ⟨hrole, hepoch⟩
  | ended ord prepared last he hlast =>
    subst he
    unfold act at h
    simp only [hlast] at h
    unfold run at h
    dsimp only at h
    cases hresult : (finishRound ord prepared last p.app).result with
    | error err =>
      rw [hresult] at h
      dsimp only [failRound] at h
      split at h <;> cases h
    | ok next =>
      rw [hresult] at h
      obtain ⟨-, -, hnext, -⟩ := finishRound_ok hresult
      obtain rfl : next = some round := h
      obtain ⟨hrole, hepoch, -⟩ := nextRound_ok hnext
      have happly := (@onward_applyPreparedMutation ord last.outcome.mutation).final .refl p.app
      rw [happly.consensus] at hrole hepoch
      exact Or.inr ⟨hrole, hepoch⟩

end Process

end Globacl
