import Globacl.Commitd.Terms

/-!
# Votes against mutations of older terms

A vote promises that the node has no part in an older term from then on, and that the candidate
knows all that the node knows. The handlers take the two locks one after the other, so neither holds
by itself: a prepare may have passed `ensure_mutation_term` and store its record after the vote, and
a commit may come between the reading of the log status and the vote. It holds in every run in which
no such section comes between (`fenced`).

* `watermarks_localLogStatus`: the watermarks of a log status do not depend on the order in which
  the directory is read.
* `Voter`: a node with the terms of the votes that it has granted.
* `Fence`: the invariant. A handler that has passed `ensure_mutation_term` has an epoch that is not
  below a vote, and what a vote handler has read is what the node has.
-/

namespace Globacl

open Lib Prog

/-! ## The order of the pending directory -/

/-- One turn of the loop of `local_log_status`, for the watermarks alone. -/
def raiseWatermark (clusterId : String) (watermarks : List Nat) (m : Mutation) : List Nat :=
  if m.commitId.sourceRegion = clusterId then
    watermarks.modify m.shard (max · m.seq)
  else watermarks

theorem fst_addPending (clusterId : String) (acc : List Nat × Nat) (m : Mutation) :
    (addPending clusterId acc m).1 = raiseWatermark clusterId acc.1 m := by
  unfold addPending raiseWatermark
  by_cases hc : m.commitId.sourceRegion = clusterId
  · rw [if_neg (not_not.mpr hc), if_pos hc]
    refine List.ext_getElem? fun i => ?_
    rw [List.getElem?_modify]
    cases hw : acc.1[m.shard]? with
    | none =>
      by_cases hi : m.shard = i
      · subst hi
        simp [hw]
      · simp [hi]
    | some watermark =>
      obtain ⟨hlt, rfl⟩ := List.getElem?_eq_some_iff.mp hw
      dsimp only
      by_cases hi : m.shard = i
      · subst hi
        split
        · rename_i hraise
          simp [hlt, max_eq_right (le_of_lt hraise)]
        · rename_i hkeep
          simp [hlt, max_eq_left (not_lt.mp hkeep)]
      · split <;> simp [hi]
  · rw [if_pos hc, if_neg hc]

theorem raiseWatermark_comm (clusterId : String) (watermarks : List Nat) (a b : Mutation) :
    raiseWatermark clusterId (raiseWatermark clusterId watermarks a) b =
      raiseWatermark clusterId (raiseWatermark clusterId watermarks b) a := by
  unfold raiseWatermark
  by_cases ha : a.commitId.sourceRegion = clusterId <;>
    by_cases hb : b.commitId.sourceRegion = clusterId
  · simp only [ha, hb, if_true]
    refine List.ext_getElem? fun i => ?_
    simp only [List.getElem?_modify]
    cases watermarks[i]? with
    | none => rfl
    | some w =>
      by_cases hia : a.shard = i <;> by_cases hib : b.shard = i <;>
        simp [hia, hib, max_comm a.seq]
  all_goals simp [ha, hb]

theorem watermarks_localLogStatus (ord ord' : IterOrder) (clusterId : String) (st : SourceOfTruth)
    (pending : HashMap (Nat × Nat) Mutation) :
    (localLogStatus ord clusterId st pending).watermarks =
      (localLogStatus ord' clusterId st pending).watermarks := by
  have hfst : ∀ (l : List Mutation) (acc : List Nat × Nat),
      (l.foldl (addPending clusterId) acc).1 = l.foldl (raiseWatermark clusterId) acc.1 := by
    intro l
    induction l with
    | nil => exact fun _ => rfl
    | cons m l ih =>
      intro acc
      rw [List.foldl_cons, List.foldl_cons, ih, fst_addPending]
  have hperm : (loadPendingMutations ord pending).Perm (loadPendingMutations ord' pending) :=
    (sortBy_perm _ _).trans ((HashMap.values_perm ord ord' pending).trans (sortBy_perm _ _).symm)
  show ((loadPendingMutations ord pending).foldl (addPending clusterId) _).1 =
    ((loadPendingMutations ord' pending).foldl (addPending clusterId) _).1
  rw [hfst, hfst]
  exact hperm.foldl_eq' (fun a _ b _ w => raiseWatermark_comm clusterId w a b) _

/-! ## Votes of a node -/

namespace Process

/-- A section stores `m` in the pending directory, or applies it. -/
def Records (p : Process) (e : Section) (m : Mutation) : Prop :=
  (∃ slot, (p.act e).app.disk.pending.lookup slot = some m ∧
    p.app.disk.pending.lookup slot ≠ some m) ∨
  ∃ id, (p.act e).app.state.opIndex.lookup id = some m ∧ p.app.state.opIndex.lookup id ≠ some m

/-- What `local_log_status` returns at this moment. -/
def logStatus (ord : IterOrder) (p : Process) : LogStatus :=
  localLogStatus ord p.app.config.replication.clusterId p.app.state p.app.disk.pending

/-- The mutation with which a prepare or a commit takes the state lock. -/
def locksFor (p : Process) : Section → Option Mutation
  | .thread _ i =>
    match p.threads[i]? with
    | some (.checked _ m) => some m
    | _ => none
  | _ => none

end Process

/-- The sections of the handlers of votes, heartbeats, prepares and commits. -/
def Section.Handles : Section → Prop
  | .receiveReplication message _ _ => message ≠ .abort
  | .requestVote _ | .heartbeat _ | .thread _ _ => True
  | _ => False

/-- The threads of these handlers. -/
def Thread.Handles : Thread → Prop
  | .replication message _ | .checked message _ => message ≠ .abort
  | .voting _ _ | .judging _ _ => True
  | .client _ _ | .installing _ _ => False

/-- A vote handler that has read the memory and has not decided. -/
def Thread.votes : Thread → Bool
  | .voting _ _ | .judging _ _ => true
  | _ => false

/-- The mutation of a thread that has passed `ensure_mutation_term`. -/
def Thread.passed : Thread → Option Mutation
  | .checked _ m => some m
  | _ => none

/-- A node, with the terms in which it has granted a vote. -/
structure Voter where
  process : Process
  granted : List Nat

namespace Voter

def act (v : Voter) (e : Section) : Voter :=
  ⟨v.process.act e, ((v.process.grants e).map fun vote => vote.1.term).toList ++ v.granted⟩

/-- Nothing of a term below a vote is recorded, and a vote is judged by what the node then has. -/
structure Fenced (v : Voter) (e : Section) : Prop where
  records : ∀ m, v.process.Records e m → ∀ t ∈ v.granted, t ≤ m.epoch
  judged : ∀ req status, v.process.grants e = some (req, status) →
    ∀ ord, status.watermarks = (v.process.logStatus ord).watermarks

/-- No section comes between those of one handler that the vote needs to be together. -/
structure Undisturbed (v : Voter) (e : Section) : Prop where
  /-- No prepare or commit takes the state lock while a vote handler has read the log status and has
  not decided. -/
  locks : ∀ m, v.process.locksFor e = some m → ∀ t ∈ v.process.threads, t.votes = false
  /-- No vote is granted while a prepare or commit of a lower epoch has passed
  `ensure_mutation_term` and has not taken the state lock. -/
  grants : ∀ req status, v.process.grants e = some (req, status) →
    ∀ t ∈ v.process.threads, ∀ m, t.passed = some m → req.term ≤ m.epoch

instance (v : Voter) (e : Section) : Decidable (Undisturbed v e) :=
  decidable_of_iff
    ((∀ m ∈ v.process.locksFor e, ∀ t ∈ v.process.threads, t.votes = false) ∧
      ∀ vote ∈ v.process.grants e, ∀ t ∈ v.process.threads, ∀ m ∈ t.passed, vote.1.term ≤ m.epoch)
    ⟨fun h => ⟨h.1, fun req status hg => h.2 (req, status) hg⟩,
      fun h => ⟨h.locks, fun vote hg => h.grants vote.1 vote.2 hg⟩⟩

/-- What holds between two sections. -/
structure Fence (v : Voter) : Prop where
  free : v.process.round = none
  threads : ∀ t ∈ v.process.threads, t.Handles
  granted : ∀ t ∈ v.granted, t ≤ v.process.app.consensus.currentTerm
  checked : ∀ message m, .checked message m ∈ v.process.threads → ∀ t ∈ v.granted, t ≤ m.epoch
  voting : ∀ req st, .voting req st ∈ v.process.threads → st = v.process.app.state
  judging : ∀ req status, .judging req status ∈ v.process.threads →
    ∃ ord, status = v.process.logStatus ord

/-! ## A section that does not take the state lock -/

section Steps

variable {p : Process} {e : Section}

/-- The memory and the pending directory are the same, and the term does not go back. -/
structure Quiet (p p' : Process) : Prop extends SameLog p.app p'.app where
  term : p.app.consensus.currentTerm ≤ p'.app.consensus.currentTerm
  round : p'.round = p.round

theorem quiet_run {α : Type} {c : Program α} {onOk : Process → α → Process}
    (hlog : SameLog p.app (c p.app).final)
    (hterm : p.app.consensus.currentTerm ≤ (c p.app).final.consensus.currentTerm)
    (happ : ∀ p' a, (onOk p' a).app = p'.app) (hround : ∀ p' a, (onOk p' a).round = p'.round) :
    Quiet p (p.run c onOk id) := by
  unfold Process.run
  cases (c p.app).result with
  | error err => exact ⟨hlog, hterm, rfl⟩
  | ok a =>
    refine ⟨?_, ?_, hround _ a⟩
    · rwa [happ]
    · rwa [happ]

theorem quiet_receiveReplication (message : Replication) (m : Mutation) (leaderId : String) :
    Quiet p (p.run (receiveReplication message m leaderId) Process.addThread id) := by
  refine quiet_run ((sameLog_receiveReplication message leaderId).final .refl _) ?_
    (fun _ _ => rfl) fun _ _ => rfl
  obtain ⟨_, -, happ⟩ | ⟨cs, hcs, -, happ⟩ := receiveReplication_cases p.app message m leaderId
  · rw [happ]
  · rw [happ]
    obtain ⟨-, -, hterm, -, rfl⟩ := ensureReplicationLeader_ok hcs
    exact hterm

theorem quiet_checkMutationTerm (message : Replication) (m : Mutation) :
    Quiet p (p.run (checkMutationTerm message m) Process.addThread id) := by
  refine quiet_run ((sameLog_checkMutationTerm message).final .refl _) ?_
    (fun _ _ => rfl) fun _ _ => rfl
  obtain ⟨_, -, happ⟩ | ⟨cs, hcs, -, ⟨rfl, happ⟩ | happ⟩ :=
    checkMutationTerm_cases p.app message m
  · rw [happ]
  · rw [happ]
  · rw [happ]
    obtain ⟨hterm, heq, -⟩ := ensureMutationTerm_ok hcs
    exact hterm.trans_eq heq.symm

theorem quiet_readPending (ord : IterOrder) (req : VoteRequest) (st : SourceOfTruth) :
    Quiet p (p.run (readPending ord req st) Process.addThread id) :=
  quiet_run ((sameLog_readPending req st).final .refl _) (le_refl _) (fun _ _ => rfl)
    fun _ _ => rfl

theorem quiet_judge (req : VoteRequest) (status : LogStatus) :
    Quiet p (p.run (judge req status) (fun p _ => p) id) := by
  refine quiet_run ((sameLog_judge req status).final .refl _) ?_ (fun _ _ => rfl) fun _ _ => rfl
  obtain ⟨-, ⟨-, -, happ⟩ | happ⟩ := judge_cases p.app req status
  · rw [happ]
  · rw [happ]
    show _ ≤ (handleRequestVote p.app.consensus status req).1.currentTerm
    rw [handleRequestVote_term]
    exact (adoptTerm_le _ _).1

theorem quiet_receiveHeartbeat (hb : Heartbeat) :
    Quiet p (p.run (receiveHeartbeat hb) (fun p _ => p) id) := by
  refine quiet_run ((sameLog_receiveHeartbeat hb).final .refl _) ?_ (fun _ _ => rfl) fun _ _ => rfl
  obtain happ | ⟨cs, -, haccept, happ⟩ := receiveHeartbeat_cases p.app hb
  · rw [happ]
  · rw [happ]
    obtain ⟨hterm, -, rfl⟩ := handleHeartbeat_ok haccept
    exact hterm

/-- A handler's section under the consensus lock, or under none. -/
theorem quiet_act (hthreads : ∀ t ∈ p.threads, t.Handles) (he : e.Handles)
    (hlocks : p.locksFor e = none) : Quiet p (p.act e) := by
  have hrefl : Quiet p p := ⟨.refl _, le_refl _, rfl⟩
  cases e with
  | receiveReplication message m leaderId => exact quiet_receiveReplication message m leaderId
  | heartbeat hb => exact quiet_receiveHeartbeat hb
  | requestVote req =>
    unfold Process.act
    dsimp only
    split
    · exact hrefl
    · refine quiet_run ?_ ?_ (fun _ _ => rfl) fun _ _ => rfl
      · rw [readMemory_final]
        exact .refl _
      · rw [readMemory_final]
  | thread ord i =>
    unfold Process.act
    dsimp only
    split
    · exact hrefl
    · rename_i t ht
      split
      · exact hrefl
      · have hsub : ∀ {p' : Process}, Quiet { p with threads := p.threads.eraseIdx i } p' →
            Quiet p p' := fun h => ⟨h.toSameLog, h.term, h.round⟩
        have hhandles := hthreads t (List.mem_of_getElem? ht)
        cases t with
        | replication message m =>
          cases message with
          | abort => exact absurd rfl hhandles
          | prepare | commit => exact hsub (quiet_checkMutationTerm _ m)
        | checked message m => simp [Process.locksFor, ht] at hlocks
        | voting req st => exact hsub (quiet_readPending ord req st)
        | judging req status => exact hsub (quiet_judge req status)
        | client request term => exact hhandles.elim
        | installing snapshot rebuilt => exact hhandles.elim
  | _ => exact he.elim

/-! ## A section of a handler that takes the state lock -/

/-- A prepare or a commit of `m` records nothing else, and leaves the consensus state. -/
structure RecordsOnly (m : Mutation) (p p' : Process) : Prop where
  consensus : p'.app.consensus = p.app.consensus
  round : p'.round = p.round
  pending : ∀ slot m', p'.app.disk.pending.lookup slot = some m' →
    m' = m ∨ p.app.disk.pending.lookup slot = some m'
  opIndex : ∀ id m', p'.app.state.opIndex.lookup id = some m' →
    m' = m ∨ p.app.state.opIndex.lookup id = some m'

theorem recordsOnly_act (hfree : p.round = none) (hthreads : ∀ t ∈ p.threads, t.Handles)
    {m : Mutation} (hlocks : p.locksFor e = some m) : RecordsOnly m p (p.act e) := by
  cases e with
  | thread ord i =>
    unfold Process.locksFor at hlocks
    dsimp only at hlocks
    split at hlocks
    · rename_i message m' ht
      cases hlocks
      have hhandles := hthreads _ (List.mem_of_getElem? ht)
      unfold Process.act
      simp only [ht, hfree, Option.isSome_none, Bool.false_eq_true, and_false, if_false]
      cases message with
      | abort => exact absurd rfl hhandles
      | prepare =>
        have h := stores_prepareLocked.final (.refl m) p.app
        dsimp only [Process.actThread]
        rw [Process.run_last]
        exact ⟨h.consensus, hfree.symm, fun slot m' hm' => (h.pending slot m' hm').imp And.right id,
          fun id m' hm' => Or.inr (h.state ▸ hm')⟩
      | commit requirePending =>
        have h := (@onward_commitLocked ord m requirePending).final .refl p.app
        dsimp only [Process.actThread]
        rw [Process.run_last]
        exact ⟨h.consensus, hfree.symm, fun slot m' hm' => Or.inr (h.pending slot m' hm'), h.fresh⟩
    · cases hlocks
  | _ => cases hlocks

/-! ## Threads -/

/-- What a thread knows when a section leaves it. -/
structure Fresh (p : Process) (t : Thread) : Prop where
  handles : t.Handles
  checked : ∀ message m, t = .checked message m → p.app.consensus.currentTerm ≤ m.epoch
  voting : ∀ req st, t = .voting req st → st = p.app.state
  judging : ∀ req status, t = .judging req status → ∃ req st ord, .voting req st ∈ p.threads ∧
    status = localLogStatus ord p.app.config.replication.clusterId st p.app.disk.pending

theorem fresh_of_spawns (hthreads : ∀ t ∈ p.threads, t.Handles) (he : e.Handles)
    {c : Program Thread} {t : Thread} (hc : p.spawns e = some c) (ht : (c p.app).result = .ok t) :
    Fresh p t := by
  cases e with
  | receiveReplication message m leaderId =>
    cases hc
    obtain ⟨rfl, -⟩ := receiveReplication_ok ht
    exact ⟨he, fun _ _ h => (by cases h), fun _ _ h => (by cases h), fun _ _ h => (by cases h)⟩
  | requestVote req =>
    unfold Process.spawns at hc
    dsimp only at hc
    split at hc
    · cases hc
    · cases hc
      obtain rfl := readMemory_ok ht
      exact ⟨trivial, fun _ _ h => (by cases h), fun _ _ h => (Thread.voting.inj h).2.symm,
        fun _ _ h => (by cases h)⟩
  | thread ord i =>
    unfold Process.spawns at hc
    dsimp only at hc
    split at hc
    · cases hc
    · rename_i message m hmessage hi
      cases hc
      have hhandles := hthreads _ (List.mem_of_getElem? hi)
      obtain ⟨rfl, hterm⟩ := checkMutationTerm_ok ht
      refine ⟨hhandles, fun _ _ heq => ?_, fun _ _ h => (by cases h), fun _ _ h => (by cases h)⟩
      cases heq
      exact (ensureMutationTerm_ok hterm).1
    · rename_i req st hi
      cases hc
      obtain rfl := readPending_ok ht
      refine ⟨trivial, fun _ _ h => (by cases h), fun _ _ h => (by cases h), fun _ _ heq => ?_⟩
      cases heq
      exact ⟨req, st, ord, List.mem_of_getElem? hi, rfl⟩
    · cases hc
  | heartbeat hb => cases hc
  | _ => exact he.elim

/-- A vote is granted in the term in which the node then is. -/
theorem term_of_grants {req : VoteRequest} {status : LogStatus}
    (h : p.grants e = some (req, status)) :
    p.locksFor e = none ∧ p.spawns e = none ∧ .judging req status ∈ p.threads ∧
      req.term = (p.act e).app.consensus.currentTerm := by
  obtain ⟨ord, i, rfl, hi, hgranted⟩ := Process.grants_eq_some h
  refine ⟨by simp only [Process.locksFor, hi], by simp only [Process.spawns, hi],
    List.mem_of_getElem? hi, ?_⟩
  rw [Process.act_judging hi]
  have hterm := handleRequestVote_granted hgranted
  obtain ⟨-, ⟨-, hrefused, -⟩ | happ⟩ := judge_cases p.app req status
  · rw [hgranted] at hrefused
    cases hrefused
  · dsimp only
    rw [happ]
    exact hterm.2.symm

end Steps

/-! ## Runs -/

variable {v : Voter} {e : Section}

theorem granted_of_none (h : v.process.grants e = none) : (v.act e).granted = v.granted := by
  unfold act
  rw [h]
  rfl

theorem mem_granted {term : Nat} (h : term ∈ (v.act e).granted) :
    term ∈ v.granted ∨ ∃ req status, v.process.grants e = some (req, status) ∧ req.term = term := by
  rcases List.mem_append.mp h with h | h
  · rw [Option.mem_toList, Option.map_eq_some_iff] at h
    obtain ⟨⟨req, status⟩, hgrants, hterm⟩ := h
    exact Or.inr ⟨req, status, hgrants, hterm⟩
  · exact Or.inl h

theorem Quiet.logStatus {p p' : Process} (h : Quiet p p') (ord : IterOrder) :
    p'.logStatus ord = p.logStatus ord := by
  unfold Process.logStatus
  rw [h.config, h.state, h.pending]

/-- A section of a handler that takes the state lock. -/
theorem Fence.act_of_locks (h : Fence v) {m : Mutation} (hm : v.process.locksFor e = some m)
    (hu : Undisturbed v e) : Fence (v.act e) := by
  have hspawns : v.process.spawns e = none := by
    unfold Process.locksFor at hm
    split at hm
    · split at hm
      · rename_i hi
        simp only [Process.spawns, hi]
      · cases hm
    · cases hm
  have hgrants : v.process.grants e = none := by
    cases hg : v.process.grants e with
    | none => rfl
    | some vote =>
      rw [(term_of_grants hg).1] at hm
      cases hm
  have hold : ∀ t ∈ (v.process.act e).threads, t ∈ v.process.threads := by
    intro t ht
    rcases Process.mem_threads_act ht with ht | ⟨c, hc, -⟩
    · exact ht
    · rw [hspawns] at hc
      cases hc
  have honly := recordsOnly_act h.free h.threads hm
  refine ⟨honly.round.trans h.free, fun t ht => h.threads t (hold t ht), ?_, ?_, ?_, ?_⟩
  · rw [granted_of_none hgrants]
    show ∀ t ∈ v.granted, t ≤ (v.process.act e).app.consensus.currentTerm
    rw [honly.consensus]
    exact h.granted
  · rw [granted_of_none hgrants]
    exact fun message m ht => h.checked message m (hold _ ht)
  · intro req st ht
    cases hu.locks m hm _ (hold _ ht)
  · intro req status ht
    cases hu.locks m hm _ (hold _ ht)

/-- Another section of a handler. -/
theorem Fence.act_of_quiet (h : Fence v) (hm : v.process.locksFor e = none) (he : e.Handles)
    (hu : Undisturbed v e) : Fence (v.act e) := by
  have hquiet := quiet_act h.threads he hm
  have hnew : ∀ t ∈ (v.process.act e).threads, t ∈ v.process.threads ∨
      Fresh v.process t ∧ v.process.grants e = none := by
    intro t ht
    rcases Process.mem_threads_act ht with ht | ⟨c, hc, ht⟩
    · exact Or.inl ht
    · refine Or.inr ⟨fresh_of_spawns h.threads he hc ht, ?_⟩
      cases hg : v.process.grants e with
      | none => rfl
      | some vote =>
        rw [(term_of_grants hg).2.1] at hc
        cases hc
  refine ⟨hquiet.round.trans h.free, fun t ht => ?_, fun t ht => ?_, fun message m ht t hgrant => ?_,
    fun req st ht => ?_, fun req status ht => ?_⟩
  · exact (hnew t ht).elim (h.threads t) fun hfresh => hfresh.1.handles
  · rcases mem_granted ht with ht | ⟨req, status, hg, rfl⟩
    · exact (h.granted t ht).trans hquiet.term
    · exact (term_of_grants hg).2.2.2.le
  · rcases hnew _ ht with hin | ⟨hfresh, hnone⟩
    · rcases mem_granted hgrant with hgrant | ⟨req, status, hg, rfl⟩
      · exact h.checked message m hin t hgrant
      · exact hu.grants req status hg _ hin m rfl
    · rw [granted_of_none hnone] at hgrant
      exact (h.granted t hgrant).trans (hfresh.checked message m rfl)
  · show st = (v.process.act e).app.state
    rw [hquiet.state]
    exact (hnew _ ht).elim (h.voting req st) fun hfresh => hfresh.1.voting req st rfl
  · show ∃ ord, status = (v.process.act e).logStatus ord
    rcases hnew _ ht with hin | ⟨hfresh, -⟩
    · obtain ⟨ord, heq⟩ := h.judging req status hin
      exact ⟨ord, heq.trans (hquiet.logStatus ord).symm⟩
    · obtain ⟨req', st, ord, hin, rfl⟩ := hfresh.judging req status rfl
      refine ⟨ord, ?_⟩
      rw [hquiet.logStatus, h.voting req' st hin]
      rfl

/-- What the invariant says about the next section. -/
theorem Fence.next (h : Fence v) (he : e.Handles) : Fenced v e where
  records m hrecords := by
    cases hm : v.process.locksFor e with
    | none =>
      have hquiet := quiet_act h.threads he hm
      rcases hrecords with ⟨slot, hafter, hbefore⟩ | ⟨id, hafter, hbefore⟩
      · rw [hquiet.pending] at hafter
        exact absurd hafter hbefore
      · rw [hquiet.state] at hafter
        exact absurd hafter hbefore
    | some m' =>
      have honly := recordsOnly_act h.free h.threads hm
      have heq : m = m' := by
        rcases hrecords with ⟨slot, hafter, hbefore⟩ | ⟨id, hafter, hbefore⟩
        · exact (honly.pending slot m hafter).resolve_right hbefore
        · exact (honly.opIndex id m hafter).resolve_right hbefore
      subst heq
      unfold Process.locksFor at hm
      split at hm
      · split at hm
        · rename_i message _ hi
          cases hm
          exact h.checked message m (List.mem_of_getElem? hi)
        · cases hm
      · cases hm
  judged req status hg ord := by
    obtain ⟨-, -, hin, -⟩ := term_of_grants hg
    obtain ⟨ord', rfl⟩ := h.judging req status hin
    exact watermarks_localLogStatus ord' ord _ _ _

/-- In every run of the handlers in which none of them is disturbed, votes fence older terms. -/
theorem fenced {app : App} {granted : List Nat}
    (hgranted : ∀ t ∈ granted, t ≤ app.consensus.currentTerm) {election : Election} {sections : List Section} (he : ∀ e ∈ sections, e.Handles)
    (hu : Along act Undisturbed ⟨⟨app, [], none, election⟩, granted⟩ sections) :
    Along act Fenced ⟨⟨app, [], none, election⟩, granted⟩ sections := by
  refine Along.of_invariant (I := Fence) ?_ ?_ (along_and_forall hu he)
  · rintro v e h ⟨hu, he⟩
    refine ⟨?_, h.next he⟩
    cases hm : v.process.locksFor e with
    | none => exact h.act_of_quiet hm he hu
    | some m => exact h.act_of_locks hm hu
  · have hnone : ∀ {t : Thread}, t ∉ ([] : List Thread) := List.not_mem_nil
    exact ⟨rfl, fun _ h => absurd h hnone, hgranted, fun _ _ h => absurd h hnone,
      fun _ _ h => absurd h hnone, fun _ _ h => absurd h hnone⟩

/-! A follower in term 1. The leader of term 1 sends a mutation to prepare, and another node asks for
a vote in term 2. -/

namespace LatePrepare

def mutation : Mutation where
  opId := "op-1"
  commitId := ⟨1, 1, 1, "cluster"⟩
  entry :=
    { tenantId := "acme", namespace' := "user", keyHash := 3, action := .deny, priority := 10
      reasonCode := "manual", expiresAt := 0, createdBy := "operator", commitSeq := 1, shardId := 1 }
  rule := none
  deliveryPriority := .p0
  committedAtUnix := 100

def follower : App where
  config :=
    { shardCount := 2
      replication := ⟨"cluster", "node-2", some "node-1", ["node-1", "node-2", "node-3"], 2⟩
      minLogEntries := 10000
      compactOnStartup := true
      publisher := false }
  state := SourceOfTruth.new 2 "cluster"
  consensus := ⟨1, none, .follower, some "node-1"⟩
  lastPublished := [0, 0]
  disk := Disk.empty

def request : VoteRequest := ⟨"cluster", 2, "node-3", 0, 0, some [0, 0]⟩

/-- A vote is asked for and granted, by the last thread. -/
def vote (thread : Nat) : List Section :=
  [.requestVote request, .thread .given thread, .thread .given thread]

def prepare : List Section :=
  [.receiveReplication .prepare mutation "node-1", .thread .given 0]

/-- The record is stored before the vote. -/
def before : List Section := prepare ++ .thread .given 0 :: vote 0

/-- The record is stored after the vote. -/
def after : List Section := prepare ++ vote 1 ++ [.thread .given 0]

end LatePrepare

/-- The same handlers one after the other: the candidate is refused. -/
theorem fenced_before :
    Along act Fenced ⟨⟨LatePrepare.follower, [], none, .idle⟩, []⟩ LatePrepare.before :=
  fenced (fun _ h => absurd h List.not_mem_nil)
    (by simp [LatePrepare.before, LatePrepare.prepare, LatePrepare.vote, Section.Handles])
    (by decide +kernel)

theorem not_fenced :
    ¬∀ (app : App) (granted : List Nat) (election : Election) (sections : List Section),
      (∀ t ∈ granted, t ≤ app.consensus.currentTerm) → (∀ e ∈ sections, e.Handles) →
      Along act Fenced ⟨⟨app, [], none, election⟩, granted⟩ sections := by
  intro h
  have hfenced := h LatePrepare.follower [] .idle LatePrepare.after
    (fun _ h => absurd h List.not_mem_nil)
    (by simp [LatePrepare.after, LatePrepare.prepare, LatePrepare.vote, Section.Handles])
  have hlast := (along_append.mp hfenced).2.1.records LatePrepare.mutation (Or.inl ⟨(1, 1), ?_⟩) 2 ?_
  · exact absurd hlast (by decide)
  · decide +kernel
  · decide +kernel

end Voter

end Globacl
