import Globacl.Commitd.Election

/-!
# Which slots a new leader gives away

A new leader proposes again what it finds in its pending directory, and only then are these slots
past its watermarks. But it has the role of a leader before that, and the recovery takes the state
lock for each record anew, so a client may come first and get the slot of a record. A handler that
passed `ensure_mutation_term` while the node followed may come late, too.

* `Process.NeverReuses`: no slot is given away while a record holds it for another operation, and no
  record is discarded whose operation was not applied.
* `Process.Secluded`: what must not come between the sections of a recovery.
* `Process.Calm`: the same, with the pulls and installs that leave records of operations that were not
  applied in place of what a recovery finds (`along_secluded`).
* `Slots`: the invariant. `never_reuses`: the property holds in every run whose recoveries are
  secluded.
-/

namespace Globacl

open Lib Prog

/-! ## The records of a node -/

/-- The records of its own cluster in the pending directory of a node. -/
def App.ownPending (app : App) : List Mutation :=
  (HashMap.values .given app.disk.pending).filter fun m =>
    m.commitId.sourceRegion = app.config.replication.clusterId

/-- No record is above its watermark. -/
def App.Settled (app : App) : Prop :=
  ∀ m ∈ app.ownPending, m.seq ≤ app.state.watermark m.shard

/-- Each record up to its watermark is of an operation that was applied. -/
def App.Accounted (app : App) : Prop :=
  ∀ m ∈ app.ownPending, m.seq ≤ app.state.watermark m.shard → m.opId ∈ app.state.opIndex

instance (app : App) : Decidable app.Settled := inferInstanceAs (Decidable (∀ m ∈ _, _))

instance (app : App) : Decidable app.Accounted := inferInstanceAs (Decidable (∀ m ∈ _, _))

/-- No record is new, and of what the watermarks pass only `new` mutations are. -/
structure Clears (new : Mutation → Prop) (app app' : App) : Prop where
  config : app'.config = app.config
  watermarks : AtLeast app.state.watermarks app'.state.watermarks
  opIndex : ∀ id m, app.state.opIndex.lookup id = some m → app'.state.opIndex.lookup id = some m
  advance : ∀ shardId seq, app.state.watermark shardId < seq →
    seq ≤ app'.state.watermark shardId →
    ∃ m, new m ∧ m.slot = (shardId, seq) ∧ app'.state.opIndex.lookup m.opId = some m
  pending : ∀ slot m, app'.disk.pending.lookup slot = some m → app.disk.pending.lookup slot = some m

section Clears

variable {new : Mutation → Prop} {app app' : App} {m : Mutation}

theorem SameLog.clears (h : SameLog app app') : Clears new app app' where
  config := h.config
  watermarks := by rw [h.state]; exact .refl _
  opIndex id m hm := by rwa [h.state]
  advance shardId seq hlt hle := by
    rw [h.state] at hle
    omega
  pending slot m hm := by rwa [h.pending] at hm

theorem Onward.clears (h : Onward new app app') : Clears new app app' :=
  ⟨h.config, h.watermarks, h.opIndex, h.advance, h.pending⟩

theorem mem_ownPending :
    m ∈ app.ownPending ↔ (∃ slot, app.disk.pending.lookup slot = some m) ∧
      m.commitId.sourceRegion = app.config.replication.clusterId := by
  unfold App.ownPending
  rw [List.mem_filter, HashMap.mem_values, decide_eq_true_eq]

theorem Clears.ownPending (h : Clears new app app') (hm : m ∈ app'.ownPending) :
    m ∈ app.ownPending := by
  obtain ⟨⟨slot, hslot⟩, hown⟩ := mem_ownPending.mp hm
  rw [h.config] at hown
  exact mem_ownPending.mpr ⟨⟨slot, h.pending slot m hslot⟩, hown⟩

theorem Clears.settled (h : Clears new app app') (hs : app.Settled) : app'.Settled := fun m hm =>
  (hs m (h.ownPending hm)).trans (h.watermarks m.shard)

/-- A record that the watermarks pass is of the operation that is applied. -/
theorem Clears.accounted (h : Clears new app app') (ha : app.Accounted)
    (hnew : ∀ m held, new m → held ∈ app.ownPending → held.slot = m.slot →
      app.state.watermark m.shard < m.seq → held.opId = m.opId) : app'.Accounted := by
  intro held hheld hle
  have hbefore := h.ownPending hheld
  by_cases hpassed : held.seq ≤ app.state.watermark held.shard
  · obtain ⟨m, hm⟩ := HashMap.mem_iff_lookup.mp (ha held hbefore hpassed)
    exact HashMap.mem_iff_lookup.mpr ⟨m, h.opIndex _ _ hm⟩
  · obtain ⟨m, hm, hslot, hop⟩ := h.advance held.shard held.seq (not_le.mp hpassed) hle
    have hshard : m.shard = held.shard := congrArg Prod.fst hslot
    have hseq : m.seq = held.seq := congrArg Prod.snd hslot
    rw [hnew m held hm hbefore hslot.symm (by rw [hshard, hseq]; omega)]
    exact HashMap.mem_iff_lookup.mpr ⟨m, hop⟩

theorem Clears.keyed (h : Clears new app app')
    (hk : HashMap.Keyed Mutation.slot app.disk.pending) :
    HashMap.Keyed Mutation.slot app'.disk.pending := fun slot m hm => hk slot m (h.pending slot m hm)

end Clears

theorem Stores.keyed {m : Mutation} {app app' : App} (h : Stores m app app')
    (hk : HashMap.Keyed Mutation.slot app.disk.pending) :
    HashMap.Keyed Mutation.slot app'.disk.pending := by
  intro slot m' hm'
  rcases h.pending slot m' hm' with ⟨rfl, rfl⟩ | hold
  · rfl
  · exact hk slot m' hold

/-- A record that is stored is above its watermark. -/
theorem Stores.accounted {m : Mutation} {app app' : App} (h : Stores m app app')
    (ha : app.Accounted) : app'.Accounted := by
  intro held hheld hle
  rw [h.state] at hle ⊢
  obtain ⟨⟨slot, hslot⟩, hown⟩ := mem_ownPending.mp hheld
  rw [h.config] at hown
  rcases h.pending slot held hslot with ⟨-, rfl⟩ | hold
  · rcases h.above with hsame | hlt
    · rw [hsame] at hslot
      exact ha held (mem_ownPending.mpr ⟨⟨slot, hslot⟩, hown⟩) hle
    · omega
  · exact ha held (mem_ownPending.mpr ⟨⟨slot, hold⟩, hown⟩) hle

/-! ## The sections that touch records -/

section Programs

variable {ord : IterOrder} {m : Mutation} {app : App}

/-- What is applied has no record any more. -/
theorem applyPreparedMutation_pending {status : ApplyStatus}
    (h : (applyPreparedMutation ord m app).result = .ok status) :
    (applyPreparedMutation ord m app).final.disk.pending.lookup m.slot = none := by
  have hend : ∀ status : ApplyStatus, Triple (fun _ => True)
      (do removePendingMutation m; pure status)
      (fun _ app => app.disk.pending.lookup m.slot = none) (fun _ => True) fun _ => True :=
    fun status => Triple.bind (q := fun _ app => app.disk.pending.lookup m.slot = none)
      (Triple.step (fun app _ => AList.lookup_erase _ _) fun _ _ => trivial)
      fun _ => Triple.pure fun _ h => h
  have hremoved : Triple (fun _ => True) (applyPreparedMutation ord m)
      (fun _ app => app.disk.pending.lookup m.slot = none) (fun _ => True) fun _ => True := by
    refine triple_applyPreparedMutation (k := fun _ _ => True) (fun _ _ => trivial)
      (fun _ _ => .trivial _) fun app₀ _ => Triple.bind (.trivial _) fun r => ?_
    refine Triple.bind (.trivial _) fun _ => Triple.ite (fun _ => ?_) fun _ => hend r.1
    exact Triple.bind (.trivial _) fun _ => Triple.bind (.trivial _) fun _ =>
      Triple.bind (.trivial _) fun _ => hend r.1
  exact hremoved.ok app status trivial h

/-- What a recovery does with a record of its cluster. -/
theorem recoverRecord_cases (term : Nat) (m : Mutation) (app : App) :
    (∃ err, (recoverRecord term m app).result = .error err ∧
      (recoverRecord term m app).final = app) ∨
    m.seq ≤ app.state.watermark m.shard ∧ (recoverRecord term m app).result = .ok none ∧
      (recoverRecord term m app).final = (removePendingMutation m app).final ∨
    ∃ round, (recoverRecord term m app).result = .ok (some round) ∧
      (recoverRecord term m app).final = app ∧ app.consensus.role = .leader ∧
      round = ⟨⟨{ m with commitId := { m.commitId with epoch := term } }, false⟩, [], true⟩ := by
  unfold recoverRecord
  rw [get_bind_apply]
  split
  · exact Or.inl ⟨_, rfl, rfl⟩
  · split
    · exact Or.inr (Or.inl ⟨‹_›, rfl, rfl⟩)
    · split
      · exact Or.inl ⟨_, rfl, rfl⟩
      · unfold nextRound
        rw [if_neg Bool.false_ne_true]
        dsimp only
        cases hterm : ensureLeaderTerm app
            { m with commitId := { m.commitId with epoch := term } } with
        | error err => exact Or.inl ⟨err, rfl, rfl⟩
        | ok _ =>
          exact Or.inr (Or.inr ⟨_, rfl, rfl, (Process.ensureLeaderTerm_ok hterm).1, rfl⟩)

/-- A commit that needs a record, and is not late, finds its own. -/
theorem commitLocked_cases (ord : IterOrder) (m : Mutation) (app : App) :
    (commitLocked ord m true app).final = app ∨ m.seq ≤ app.state.watermark m.shard ∨
      app.disk.pending.lookup m.slot = some m := by
  by_cases hpast : m.seq ≤ app.state.watermark m.shard
  · exact Or.inr (Or.inl hpast)
  · unfold commitLocked
    rw [get_bind_apply]
    rw [if_pos (by simp [hpast])]
    cases hpending : ensurePendingMutation app.disk.pending m with
    | error err => exact Or.inl rfl
    | ok _ =>
      unfold ensurePendingMutation at hpending
      split at hpending
      · cases hpending
      · rename_i existing hexisting
        split at hpending
        · cases hpending
        · rename_i hsame
          rw [not_not] at hsame
          exact Or.inr (Or.inr (hsame ▸ hexisting))

end Programs

/-! ## The property and its condition -/

namespace Process

/-- `commit_request` or `commit_rule_request` of a leader assigns the slot of a mutation. -/
def Assigns (p : Process) (e : Section) (m : Mutation) : Prop :=
  ∃ ord i request term, e = .thread ord i ∧ p.threads[i]? = some (.client request term) ∧
    p.round = none ∧ p.app.consensus.role = .leader ∧
    match request with
    | .deny now request =>
      (p.app.state.setEpoch term).prepareCommit now request = .ok ⟨m, false⟩
    | .rule now request =>
      (p.app.state.setEpoch term).prepareRuleCommit now request = .ok ⟨m, false⟩
    | .rollback _ _ _ => False

/-- No slot is given away that a record holds for another operation, and the recovery discards no
record whose operation was not applied. -/
structure NeverReuses (p : Process) (e : Section) : Prop where
  assigns : ∀ m, p.Assigns e m → ∀ held ∈ p.app.ownPending, held.slot = m.slot →
    held.opId = m.opId
  discards : ∀ ord quorum, e = .election ord quorum → ∀ held ∈ p.app.ownPending,
    held ∉ (p.act e).app.ownPending → held.opId ∈ p.app.state.opIndex

/-- The thread that takes the state lock in a section. -/
def takesLock (p : Process) : Section → Option Thread
  | .thread _ i =>
    match p.threads[i]? with
    | some t => if t.locks ∧ p.round.isNone then some t else none
    | none => none
  | _ => none

end Process

/-- A leader is elected and the recovery has not ended. -/
def Election.recovers : Election → Bool
  | .won _ | .recovering _ _ _ => true
  | .idle | .electing _ => false

namespace Process

/-- A thread that may take the state lock of a node. -/
def Admits (p : Process) : Thread → Prop
  | .client _ _ =>
    p.election.recovers → p.app.consensus.role = .leader → p.app.Settled
  | .checked .prepare _ => p.app.consensus.role ≠ .leader
  | .checked (.commit false) _ => ¬p.election.recovers
  | .installing _ _ => p.app.consensus.role ≠ .leader ∧ ¬p.election.recovers
  | _ => True

/-- The section in which the recovery reads the pending directory. -/
def reads (p : Process) : Section → Bool
  | .election _ _ =>
    match p.election with
    | .won _ => true
    | _ => false
  | _ => false

/-- No client is served while the recovery has records to propose, and no handler that began while
the node followed comes late: a prepare to a leader, or what does not need a record during a
recovery. And the recovery begins with records up to the watermarks only of what was applied. -/
def Secluded (p : Process) (e : Section) : Prop :=
  (∀ t ∈ p.takesLock e, p.Admits t) ∧ (p.reads e → p.app.Accounted)

instance (p : Process) (t : Thread) : Decidable (p.Admits t) := by
  unfold Admits
  split <;> infer_instance

instance (p : Process) (e : Section) : Decidable (p.Secluded e) :=
  inferInstanceAs (Decidable ((∀ t ∈ _, _) ∧ _))

/-- What a node has pending, by what its consensus thread is at. -/
structure Slots (p : Process) : Prop where
  keyed : HashMap.Keyed Mutation.slot p.app.disk.pending
  electing : ∀ term, p.election = .electing term → p.app.consensus.role ≠ .leader
  idle : p.election = .idle → p.app.consensus.role = .leader → p.app.Settled
  client : ∀ round, p.round = some round → round.recovery = false → p.app.Settled
  recovery : ∀ round, p.round = some round → round.recovery = true →
    round.queue = [] ∧ (∃ elected term rest, p.election = .recovering elected term rest) ∧
    ∀ held ∈ p.app.ownPending, held.slot = round.outcome.mutation.slot →
      held.opId = round.outcome.mutation.opId
  accounted : ∀ elected term rest, p.election = .recovering elected term rest → p.app.Accounted
  /-- What the loop has yet to look at is as it was read, and nothing else is left. -/
  rest : ∀ elected term rest, p.election = .recovering elected term rest →
    p.app.consensus.role = .leader → ∀ held ∈ p.app.ownPending,
    (∀ m ∈ rest, held.slot = m.slot → held = m) ∧
      (held.seq ≤ p.app.state.watermark held.shard ∨ held ∈ rest ∨
        ∃ round, p.round = some round ∧ round.recovery = true ∧
          held.slot = round.outcome.mutation.slot)

variable {p : Process} {e : Section}

theorem Slots.eq_of_slot (h : Slots p) {held m : Mutation} (hheld : held ∈ p.app.ownPending)
    (hm : p.app.disk.pending.lookup m.slot = some m) (heq : held.slot = m.slot) : held = m := by
  obtain ⟨⟨slot, hslot⟩, -⟩ := mem_ownPending.mp hheld
  rw [← h.keyed slot held hslot, heq, hm] at hslot
  exact (Option.some.inj hslot).symm

/-! ## Sections that store no record -/

/-- Whatever else a section does, if the election and the round go on as before. -/
theorem Slots.of_clears (h : Slots p) {q : Process} {new : Mutation → Prop}
    (hlog : Clears new p.app q.app)
    (hnew : p.election.recovers → ∀ m held, new m → held ∈ p.app.ownPending → held.slot = m.slot →
      p.app.state.watermark m.shard < m.seq → held.opId = m.opId)
    (helection : q.election = p.election) (hround : q.round = p.round)
    (hrole : q.app.consensus.role = .leader → p.app.consensus.role = .leader) : Slots q where
  keyed := hlog.keyed h.keyed
  electing term hterm hleader := h.electing term (helection ▸ hterm) (hrole hleader)
  idle hidle hleader := hlog.settled (h.idle (helection ▸ hidle) (hrole hleader))
  client round hr hclient := hlog.settled (h.client round (hround ▸ hr) hclient)
  recovery round hr hrecovery := by
    obtain ⟨hqueue, hrecovering, hop⟩ := h.recovery round (hround ▸ hr) hrecovery
    exact ⟨hqueue, helection ▸ hrecovering, fun held hheld => hop held (hlog.ownPending hheld)⟩
  accounted elected term rest hrecovering := by
    rw [helection] at hrecovering
    exact hlog.accounted (h.accounted elected term rest hrecovering)
      (hnew (by rw [hrecovering]; rfl))
  rest elected term rest hrecovering hleader held hheld := by
    rw [helection] at hrecovering
    rw [hround]
    obtain ⟨hlist, hcover⟩ :=
      h.rest elected term rest hrecovering (hrole hleader) held (hlog.ownPending hheld)
    exact ⟨hlist, hcover.imp (fun hle => hle.trans (hlog.watermarks _)) id⟩

/-- A node that does not lead, with no round under way, and whose recovery is not under way. -/
theorem Slots.of_follower (hk : HashMap.Keyed Mutation.slot p.app.disk.pending)
    (hrole : p.app.consensus.role ≠ .leader) (hround : p.round = none)
    (haccounted : ∀ elected term rest, p.election = .recovering elected term rest →
      p.app.Accounted) : Slots p where
  keyed := hk
  electing _ _ := hrole
  idle _ hleader := absurd hleader hrole
  client round hr := by rw [hround] at hr; cases hr
  recovery round hr := by rw [hround] at hr; cases hr
  accounted := haccounted
  rest _ _ _ _ hleader := absurd hleader hrole

theorem Slots.of_started (h : p.Started) (hk : HashMap.Keyed Mutation.slot p.app.disk.pending) :
    Slots p := by
  refine Slots.of_follower hk ?_ h.round fun _ _ _ hrecovering => ?_
  · rw [h.role]
    exact nofun
  · rw [h.election] at hrecovering
    cases hrecovering

/-- The end of a recovery that failed. -/
theorem Slots.failRecovery (hk : HashMap.Keyed Mutation.slot p.app.disk.pending)
    (hround : ∀ round, p.round = some round → round.recovery = false ∧ p.app.Settled)
    (term : Nat) : Slots (p.failRecovery term) where
  keyed := hk
  electing _ helecting := by cases helecting
  idle _ hleader := by cases hleader
  client round hr _ := (hround round hr).2
  recovery round hr hrecovery := by
    rw [(hround round hr).1] at hrecovery
    cases hrecovery
  accounted _ _ _ hrecovering := by cases hrecovering
  rest _ _ _ hrecovering := by cases hrecovering

/-- Only the end of an election makes a node leader. -/
theorem leader_of_act (he : ∀ ord quorum, e ≠ .election ord quorum)
    (h : (p.act e).app.consensus.role = .leader) : p.app.consensus.role = .leader := by
  rcases (settles_act p e).adopts.leads h with hsame | ⟨ord, helection, -⟩
  · rwa [hsame] at h
  · exact absurd helection (he ord true)

/-- A section under the consensus lock that is not of the election. -/
theorem Slots.of_sameLog (h : Slots p) (hlog : SameLog p.app (p.act e).app)
    (he : ∀ ord quorum, e ≠ .election ord quorum) (helection : (p.act e).election = p.election)
    (hround : (p.act e).round = p.round) : Slots (p.act e) :=
  h.of_clears (@SameLog.clears (fun _ => False) _ _ hlog) (fun _ _ _ hm => hm.elim) helection hround
    (leader_of_act he)

/-! ## Threads -/

section Threads

variable {ord : IterOrder} {i : Nat} {t : Thread}

theorem act_thread (hi : p.threads[i]? = some t) (hfree : t.locks → p.round = none) :
    p.act (.thread ord i) = { p with threads := p.threads.eraseIdx i }.actThread ord t := by
  unfold act
  simp only [hi]
  rw [if_neg]
  rintro ⟨hlocks, hround⟩
  rw [hfree hlocks] at hround
  cases hround

/-- A client gets its slots. -/
theorem Slots.client_act {request : ClientRequest} {term : Nat} (h : Slots p)
    (hi : p.threads[i]? = some (.client request term)) (hfree : p.round = none)
    (hs : p.app.consensus.role = .leader → p.app.Settled) : Slots (p.act (.thread ord i)) := by
  rw [act_thread hi fun _ => hfree]
  dsimp only [actThread]
  have hlog := ((@onward_assign ord request term).final .refl p.app)
  unfold run
  dsimp only
  cases hresult : (assign ord request term p.app).result with
  | error err =>
    refine h.of_clears hlog.clears (fun _ _ _ hm => hm.elim) rfl rfl ?_
    show (assign ord request term p.app).final.consensus.role = .leader → _
    rw [hlog.consensus]
    exact id
  | ok next =>
    obtain ⟨outcomes, -, hnext⟩ := assign_ok hresult
    have hnew : ∀ round, next = some round → round.recovery = false ∧
        (assign ord request term p.app).final.Settled := by
      rintro round rfl
      obtain ⟨hrole, -, -, hrecovery⟩ := nextRound_ok hnext
      exact ⟨hrecovery, hlog.clears.settled (hs hrole)⟩
    have hold := h.of_clears (q := { p with app := (assign ord request term p.app).final })
      hlog.clears (fun _ _ _ hm => hm.elim) rfl rfl (by rw [hlog.consensus]; exact id)
    exact { hold with
      client := fun round hr _ => (hnew round hr).2
      recovery := fun round hr hrecovery => by
        rw [(hnew round hr).1] at hrecovery
        cases hrecovery
      rest := fun elected term rest hrecovering hleader held hheld => by
        obtain ⟨hlist, hcover⟩ := hold.rest elected term rest hrecovering hleader held hheld
        refine ⟨hlist, hcover.imp id fun hrest => hrest.imp id ?_⟩
        rintro ⟨round, hr, -⟩
        rw [hfree] at hr
        cases hr }

/-- A handler of a follower stores a record. -/
theorem Slots.prepare_act {m : Mutation} (h : Slots p)
    (hi : p.threads[i]? = some (.checked .prepare m)) (hfree : p.round = none)
    (hs : p.app.consensus.role ≠ .leader) : Slots (p.act (.thread ord i)) := by
  rw [act_thread hi fun _ => hfree]
  dsimp only [actThread]
  rw [run_last]
  have hstores := stores_prepareLocked.final (.refl m) p.app
  refine .of_follower (hstores.keyed h.keyed) ?_ hfree fun elected term rest hrecovering =>
    hstores.accounted (h.accounted elected term rest hrecovering)
  show (prepareLocked m p.app).final.consensus.role ≠ .leader
  rw [hstores.consensus]
  exact hs

/-- A handler applies a mutation, during a recovery only one that has a record. -/
theorem Slots.commit_act {m : Mutation} {requirePending : Bool} (h : Slots p)
    (hi : p.threads[i]? = some (.checked (.commit requirePending) m)) (hfree : p.round = none)
    (hs : requirePending = false → ¬p.election.recovers) : Slots (p.act (.thread ord i)) := by
  rw [act_thread hi fun _ => hfree]
  dsimp only [actThread]
  rw [run_last]
  have hlog := (@onward_commitLocked ord m requirePending).final .refl p.app
  have hrole : (commitLocked ord m requirePending p.app).final.consensus.role = .leader →
      p.app.consensus.role = .leader := by
    rw [hlog.consensus]
    exact id
  cases requirePending with
  | false =>
    exact h.of_clears hlog.clears (fun hrecovers => absurd hrecovers (hs rfl)) rfl rfl hrole
  | true =>
    rcases commitLocked_cases ord m p.app with hsame | hcase
    · rw [hsame]
      exact h.of_clears (@SameLog.clears (fun _ => False) _ _ (.refl p.app))
        (fun _ _ _ hm => hm.elim) rfl rfl id
    · refine h.of_clears hlog.clears ?_ rfl rfl hrole
      rintro - m' held rfl hheld hslot habove
      rcases hcase with hpast | hrecord
      · omega
      · rw [h.eq_of_slot hheld hrecord hslot]

/-- The next section of a thread. -/
theorem Slots.thread_act (h : Slots p) (hs : p.Secluded (.thread ord i)) :
    Slots (p.act (.thread ord i)) := by
  cases hi : p.threads[i]? with
  | none =>
    unfold act
    simp only [hi]
    exact h
  | some t =>
    by_cases hblocked : t.locks ∧ p.round.isSome
    · unfold act
      simp only [hi]
      rw [if_pos hblocked]
      exact h
    · have hfree : t.locks → p.round = none := fun hlocks =>
        Option.not_isSome_iff_eq_none.mp fun hround => hblocked ⟨hlocks, hround⟩
      have hadmits : t.locks → p.Admits t := by
        intro hlocks
        refine hs.1 t ?_
        unfold takesLock
        simp [hi, hlocks, hfree hlocks]
      have helection : (p.act (.thread ord i)).election = p.election := by
        rw [act_thread hi hfree, actThread_election]
      have hround : (∀ request term, t ≠ .client request term) →
          (p.act (.thread ord i)).round = p.round := by
        intro hclient
        rw [act_thread hi hfree, actThread_round ord _ hclient]
      have hquiet : SameLog p.app (p.act (.thread ord i)).app →
          (∀ request term, t ≠ .client request term) → Slots (p.act (.thread ord i)) :=
        fun hlog hclient => h.of_sameLog hlog (fun _ _ heq => by cases heq) helection (hround hclient)
      cases t with
      | replication message m =>
        cases message with
        | abort =>
          have hlog : Clears (fun _ => False) p.app (p.act (.thread ord i)).app := by
            rw [act_thread hi hfree]
            exact ((@onward_removePendingMutation (fun _ => False) m).final .refl p.app).clears
          exact h.of_clears hlog (fun _ _ _ hm => hm.elim) helection
            (hround fun _ _ heq => by cases heq) (leader_of_act fun _ _ heq => by cases heq)
        | prepare | commit =>
          refine hquiet ?_ fun _ _ heq => by cases heq
          rw [act_thread hi hfree]
          dsimp only [actThread]
          rw [run_addThread_app]
          exact (sameLog_checkMutationTerm _).final .refl _
      | checked message m =>
        cases message with
        | abort =>
          refine hquiet ?_ fun _ _ heq => by cases heq
          rw [act_thread hi hfree]
          exact .refl _
        | prepare => exact h.prepare_act hi (hfree rfl) (hadmits rfl)
        | commit requirePending =>
          refine h.commit_act hi (hfree rfl) ?_
          rintro rfl
          exact hadmits rfl
      | voting req st =>
        refine hquiet ?_ fun _ _ heq => by cases heq
        rw [act_thread hi hfree]
        exact .refl _
      | judging req status =>
        refine hquiet ?_ fun _ _ heq => by cases heq
        rw [act_thread hi hfree]
        dsimp only [actThread]
        rw [run_last]
        exact (sameLog_judge req status).final .refl _
      | client request term =>
        refine h.client_act hi (hfree rfl) fun hleader => ?_
        cases helection : p.election with
        | idle => exact h.idle helection hleader
        | electing term => exact absurd hleader (h.electing term helection)
        | won term => exact hadmits rfl (by rw [helection]; rfl) hleader
        | recovering elected term rest => exact hadmits rfl (by rw [helection]; rfl) hleader
      | installing snapshot rebuilt =>
        obtain ⟨hrole, hrecovers⟩ := hadmits rfl
        rw [act_thread hi hfree]
        refine .of_follower (p := actThread ord _ (.installing snapshot rebuilt)) h.keyed hrole
          (hfree rfl) fun elected term rest hrecovering => ?_
        replace hrecovering : p.election = .recovering elected term rest := hrecovering
        rw [hrecovering] at hrecovers
        exact absurd rfl hrecovers

end Threads

/-! ## Rounds -/

/-- A prepare round ends. -/
theorem Slots.endRound_act {ord : IterOrder} {prepared : Result Unit} (h : Slots p) :
    Slots (p.act (.endRound ord prepared)) := by
  unfold act
  dsimp only
  cases hround : p.round with
  | none => exact h
  | some round =>
    dsimp only
    have hlog := (@onward_finishRound ord prepared round).final .refl p.app
    have hrole : (finishRound ord prepared round p.app).final.consensus.role = .leader →
        p.app.consensus.role = .leader := by
      rw [hlog.consensus]
      exact id
    unfold run
    dsimp only
    cases hrecovery : round.recovery with
    | false =>
      have hsettled := h.client round hround hrecovery
      -- the state lock was held, so there is no record above the watermarks yet
      have hafter : ∀ next : Option Round, (∀ r, next = some r → r.recovery = false) →
          Slots { p with round := next, app := (finishRound ord prepared round p.app).final } := by
        intro next hnext
        have hold := h.of_clears
          (q := { p with app := (finishRound ord prepared round p.app).final })
          hlog.clears ?_ rfl rfl hrole
        · exact { hold with
            client := fun _ _ _ => hlog.clears.settled hsettled
            recovery := fun r hr hrec => by
              rw [hnext r hr] at hrec
              cases hrec
            rest := fun elected term rest hrecovering hleader held hheld => by
              refine ⟨(hold.rest elected term rest hrecovering hleader held hheld).1, Or.inl ?_⟩
              exact hlog.clears.settled hsettled held hheld }
        · rintro - m held rfl hheld hslot habove
          have hle := hsettled held hheld
          have hshard : held.shard = round.outcome.mutation.shard := congrArg Prod.fst hslot
          have hseq : held.seq = round.outcome.mutation.seq := congrArg Prod.snd hslot
          rw [hshard, hseq] at hle
          omega
      cases hresult : (finishRound ord prepared round p.app).result with
      | error err =>
        dsimp only [failRound]
        rw [hrecovery]
        exact hafter none fun _ hr => by cases hr
      | ok next =>
        refine hafter next fun r hr => ?_
        obtain ⟨-, -, hnext, -⟩ := finishRound_ok hresult
        rw [hr, hrecovery] at hnext
        exact (nextRound_ok hnext).2.2.2
    | true =>
      obtain ⟨hqueue, ⟨elected, term, rest, hrecovering⟩, hop⟩ := h.recovery round hround hrecovery
      cases hresult : (finishRound ord prepared round p.app).result with
      | error err =>
        dsimp only [failRound]
        rw [hrecovery, hrecovering]
        exact .failRecovery (hlog.clears.keyed h.keyed) (fun _ hr => by cases hr) elected
      | ok next =>
        obtain ⟨-, ⟨status, happly⟩, hnext, hfinal⟩ := finishRound_ok hresult
        rw [hqueue] at hnext
        cases hnext
        have hgone := applyPreparedMutation_pending happly
        rw [← hfinal] at hgone
        have hold := h.of_clears
          (q := { p with app := (finishRound ord prepared round p.app).final }) hlog.clears
          (fun _ m held hm hheld hslot _ => by
            subst hm
            exact hop held hheld hslot) rfl rfl hrole
        exact { hold with
          client := fun r hr => by cases hr
          recovery := fun r hr => by cases hr
          rest := fun elected term rest hrecovering hleader held hheld => by
            obtain ⟨hlist, hcover⟩ := hold.rest elected term rest hrecovering hleader held hheld
            refine ⟨hlist, hcover.imp id fun hrest => Or.inl (hrest.resolve_right ?_)⟩
            -- what the round proposed has no record any more
            rintro ⟨r, hr, -, hslot⟩
            replace hr : p.round = some r := hr
            rw [hround] at hr
            cases hr
            obtain ⟨⟨slot, hheld'⟩, -⟩ := mem_ownPending.mp hheld
            have hkey := hold.keyed slot held hheld'
            rw [← hkey, hslot] at hheld'
            exact absurd (hgone.symm.trans hheld') (by simp) }

/-! ## The election thread -/

section Election

variable {ord : IterOrder} {quorum : Bool}

/-- The recovery has looked at a record, which is gone or proposed. -/
theorem Slots.next {elected term : Nat} {m : Mutation} {rest : List Mutation} (h : Slots p)
    (helection : p.election = .recovering elected term (m :: rest))
    (hold : ∀ round, p.round = some round → round.recovery = false) {p' : Process}
    (hlog : Clears (fun _ => False) p.app p'.app)
    (hrole : p'.app.consensus.role = .leader → p.app.consensus.role = .leader)
    (helection' : p'.election = .recovering elected term rest)
    (hround : p'.round = p.round ∨ p.round = none ∧ ∃ round, p'.round = some round ∧
      round.recovery = true ∧ round.queue = [] ∧ ∀ held ∈ p'.app.ownPending,
        held.slot = round.outcome.mutation.slot → held.opId = round.outcome.mutation.opId)
    (hcover : m ∈ p'.app.ownPending → ∃ round, p'.round = some round ∧ round.recovery = true ∧
      m.slot = round.outcome.mutation.slot) : Slots p' where
  keyed := hlog.keyed h.keyed
  electing _ helecting := by rw [helection'] at helecting; cases helecting
  idle hidle := by rw [helection'] at hidle; cases hidle
  client round hr hclient := by
    rcases hround with hsame | ⟨-, round', hr', hrecovery, -⟩
    · exact hlog.settled (h.client round (hsame ▸ hr) hclient)
    · rw [hr] at hr'
      cases hr'
      rw [hclient] at hrecovery
      cases hrecovery
  recovery round hr hrecovery := by
    rcases hround with hsame | ⟨-, round', hr', -, hqueue, hop⟩
    · rw [hold round (hsame ▸ hr)] at hrecovery
      cases hrecovery
    · rw [hr] at hr'
      cases hr'
      exact ⟨hqueue, ⟨_, _, _, helection'⟩, hop⟩
  accounted _ _ _ _ := hlog.accounted (h.accounted _ _ _ helection) fun _ _ hm => hm.elim
  rest elected' term' rest' hrecovering hleader held hheld := by
    rw [helection'] at hrecovering
    cases hrecovering
    obtain ⟨hlist, hcovered⟩ :=
      h.rest _ _ _ helection (hrole hleader) held (hlog.ownPending hheld)
    refine ⟨fun m' hm' => hlist m' (List.mem_cons_of_mem m hm'), ?_⟩
    rcases hcovered with hle | hmem | ⟨round, hr, hrecovery, -⟩
    · exact Or.inl (hle.trans (hlog.watermarks held.shard))
    · rcases List.mem_cons.mp hmem with rfl | hmem
      · exact Or.inr (Or.inr (hcover hheld))
      · exact Or.inr (Or.inl hmem)
    · rw [hold round hr] at hrecovery
      cases hrecovery

/-- The recovery looks at a record of its cluster. -/
theorem Slots.recoverRecord_act {elected term : Nat} {m : Mutation} {rest : List Mutation}
    (h : Slots p) (helection : p.election = .recovering elected term (m :: rest))
    (hfree : p.round = none) :
    Slots ({ p with election := .recovering elected term rest }.run (recoverRecord term m)
      (fun p round => { p with round }) fun p => p.failRecovery elected) := by
  have hnone : ∀ round, p.round = some round → round.recovery = false := by
    intro round hr
    rw [hfree] at hr
    cases hr
  unfold run
  dsimp only
  obtain ⟨err, hresult, hfinal⟩ | ⟨-, hresult, hfinal⟩ | ⟨round, hresult, hfinal, hleader, rfl⟩ :=
    recoverRecord_cases term m p.app
  · rw [hresult, hfinal]
    refine .failRecovery h.keyed (fun round hr => ?_) elected
    replace hr : p.round = some round := hr
    rw [hfree] at hr
    cases hr
  · rw [hresult, hfinal]
    have hlog := ((@onward_removePendingMutation (fun _ => False) m).final .refl p.app).clears
    refine h.next helection hnone hlog id rfl (Or.inl hfree.symm) fun hm => ?_
    obtain ⟨⟨slot, hslot⟩, -⟩ := mem_ownPending.mp hm
    have hkey := hlog.keyed h.keyed slot m hslot
    rw [← hkey] at hslot
    exact absurd ((AList.lookup_erase _ _).symm.trans hslot) (by simp)
  · rw [hresult, hfinal]
    have hrest := h.rest _ _ _ helection hleader
    refine h.next helection hnone (SameLog.refl _).clears id rfl
      (Or.inr ⟨hfree, _, rfl, rfl, rfl, fun held hheld hslot => ?_⟩) fun _ => ⟨_, rfl, rfl, rfl⟩
    rw [(hrest held hheld).1 m List.mem_cons_self hslot]

/-- The recovery reads the pending directory. -/
theorem Slots.loadPending_act {elected : Nat} (h : Slots p) (helection : p.election = .won elected)
    (hs : p.app.Accounted) :
    Slots (p.run (loadPending ord elected) (fun p election => { p with election }) fun p =>
      p.failRecovery elected) := by
  have hround : ∀ round, p.round = some round → round.recovery = false ∧ p.app.Settled := by
    intro round hr
    cases hrecovery : round.recovery with
    | false => exact ⟨rfl, h.client round hr hrecovery⟩
    | true =>
      obtain ⟨-, ⟨_, _, _, hrecovering⟩, -⟩ := h.recovery round hr hrecovery
      rw [helection] at hrecovering
      cases hrecovering
  unfold run
  rw [loadPending_final]
  cases hresult : (loadPending ord elected p.app).result with
  | error err => exact .failRecovery h.keyed hround elected
  | ok election =>
    obtain ⟨_, ⟨⟩, hresult, -⟩ := bind_ok hresult
    obtain ⟨term, -, hresult, -⟩ := bind_ok hresult
    cases hresult
    exact
      { keyed := h.keyed
        electing := fun _ helecting => by cases helecting
        idle := fun hidle => by cases hidle
        client := h.client
        recovery := fun round hr hrecovery => by
          rw [(hround round hr).1] at hrecovery
          cases hrecovery
        accounted := fun _ _ _ _ => hs
        rest := fun elected' term' rest hrecovering _ held hheld => by
          cases hrecovering
          have hmem : ∀ m, m ∈ loadPendingMutations ord p.app.disk.pending ↔
              p.app.disk.pending.lookup m.slot = some m := fun m => by
            unfold loadPendingMutations
            rw [mem_sortBy, h.keyed.mem_values]
          refine ⟨fun m hm hslot => h.eq_of_slot hheld ((hmem m).mp hm) hslot, Or.inr (Or.inl ?_)⟩
          obtain ⟨⟨slot, hslot⟩, -⟩ := mem_ownPending.mp hheld
          have hkey := h.keyed slot held hslot
          rw [← hkey] at hslot
          exact (hmem held).mpr hslot }

/-- The election ends, with a quorum of votes or without. -/
theorem Slots.elected (h : Slots p) {term : Nat} (helection : p.election = .electing term)
    {p' : Process} (hlog : SameLog p.app p'.app) (hround : p'.round = p.round)
    (helection' : p'.election = .idle ∧ p'.app.consensus = p.app.consensus ∨
      ∃ term', p'.election = .won term') : Slots p' where
  keyed := (@SameLog.clears (fun _ => False) _ _ hlog).keyed h.keyed
  electing term' helecting := by
    rcases helection' with ⟨heq, -⟩ | ⟨_, heq⟩
    · rw [heq] at helecting
      cases helecting
    · rw [heq] at helecting
      cases helecting
  idle hidle hleader := by
    rcases helection' with ⟨-, hcs⟩ | ⟨_, heq⟩
    · rw [hcs] at hleader
      exact absurd hleader (h.electing term helection)
    · rw [heq] at hidle
      cases hidle
  client round hr hclient :=
    (@SameLog.clears (fun _ => False) _ _ hlog).settled (h.client round (hround ▸ hr) hclient)
  recovery round hr hrecovery := by
    obtain ⟨-, ⟨_, _, _, hrecovering⟩, -⟩ := h.recovery round (hround ▸ hr) hrecovery
    rw [helection] at hrecovering
    cases hrecovering
  accounted _ _ _ hrecovering := by
    rcases helection' with ⟨heq, -⟩ | ⟨_, heq⟩
    · rw [heq] at hrecovering
      cases hrecovering
    · rw [heq] at hrecovering
      cases hrecovering
  rest _ _ _ hrecovering := by
    rcases helection' with ⟨heq, -⟩ | ⟨_, heq⟩
    · rw [heq] at hrecovering
      cases hrecovering
    · rw [heq] at hrecovering
      cases hrecovering

/-- The consensus thread goes on. -/
theorem Slots.election_act (h : Slots p) (hs : p.Secluded (.election ord quorum)) :
    Slots (p.act (.election ord quorum)) := by
  unfold act
  dsimp only
  split
  · exact h
  · rename_i hwaits
    have hown : ∀ round, p.round = some round → round.recovery = false := by
      intro round hr
      rw [hr] at hwaits
      simpa using hwaits
    cases helection : p.election with
    | idle =>
      dsimp only [actElection]
      split
      · exact h
      · rename_i hfree
        rw [not_or] at hfree
        have hround : p.round = none := Option.not_isSome_iff_eq_none.mp hfree.2
        refine .of_follower h.keyed ?_ hround fun _ _ _ hrecovering => by cases hrecovering
        exact fun hleader => by cases hleader
    | electing term =>
      dsimp only [actElection]
      split
      · unfold run
        obtain ⟨-, hresult, hfinal⟩ | ⟨cs, -, hresult, hfinal⟩ := winElection_cases p.app term
        · rw [hresult, hfinal]
          exact h.elected helection (.refl _) rfl (Or.inl ⟨rfl, rfl⟩)
        · rw [hresult, hfinal]
          exact h.elected helection ⟨rfl, rfl, rfl⟩ rfl (Or.inr ⟨term, rfl⟩)
      · exact h.elected helection (.refl _) rfl (Or.inl ⟨rfl, rfl⟩)
    | won term =>
      refine h.loadPending_act helection (hs.2 ?_)
      simp only [reads, helection]
    | recovering elected term rest =>
      cases rest with
      | nil =>
        exact
          { keyed := h.keyed
            electing := fun _ helecting => by cases helecting
            idle := fun _ hleader held hheld => by
              rcases (h.rest _ _ _ helection hleader held hheld).2 with
                hle | hmem | ⟨round, hr, hrecovery, -⟩
              · exact hle
              · cases hmem
              · rw [hown round hr] at hrecovery
                cases hrecovery
            client := h.client
            recovery := fun round hr hrecovery => by
              rw [hown round hr] at hrecovery
              cases hrecovery
            accounted := fun _ _ _ hrecovering => by cases hrecovering
            rest := fun _ _ _ hrecovering => by cases hrecovering }
      | cons m rest =>
        dsimp only [actElection]
        split
        · rename_i hforeign
          refine h.next helection hown (SameLog.refl _).clears id rfl (Or.inl rfl) fun hm => ?_
          exact absurd (mem_ownPending.mp hm).2 hforeign
        · split
          · exact h
          · rename_i hfree
            exact h.recoverRecord_act helection (Option.not_isSome_iff_eq_none.mp hfree)

end Election

/-- Each section keeps the invariant. -/
theorem Slots.act (h : Slots p) (hs : p.Secluded e) : Slots (p.act e) := by
  cases e with
  | receiveReplication message m leaderId =>
    refine h.of_sameLog ?_ (fun _ _ heq => by cases heq) (run_election (fun _ _ => rfl) fun _ => rfl)
      (run_round (fun _ _ => rfl) fun _ => rfl)
    show SameLog p.app (p.run _ addThread id).app
    rw [run_addThread_app]
    exact (sameLog_receiveReplication message leaderId).final .refl _
  | requestVote req =>
    unfold Process.act
    dsimp only
    split
    · exact h
    · rename_i hround
      refine h.of_clears (@SameLog.clears (fun _ => False) _ _ ?_) (fun _ _ _ hm => hm.elim)
        (run_election (fun _ _ => rfl) fun _ => rfl) (run_round (fun _ _ => rfl) fun _ => rfl) ?_
      · rw [run_addThread_app]
        exact (sameLog_readMemory req).final .refl _
      · rw [run_addThread_app, readMemory_final]
        exact id
  | heartbeat hb =>
    refine h.of_sameLog ?_ (fun _ _ heq => by cases heq) (run_election (fun _ _ => rfl) fun _ => rfl)
      (run_round (fun _ _ => rfl) fun _ => rfl)
    show SameLog p.app (p.run _ (fun p _ => p) id).app
    rw [run_last]
    exact (sameLog_receiveHeartbeat hb).final .refl _
  | client request =>
    refine h.of_sameLog ?_ (fun _ _ heq => by cases heq) (run_election (fun _ _ => rfl) fun _ => rfl)
      (run_round (fun _ _ => rfl) fun _ => rfl)
    show SameLog p.app (p.run _ addThread id).app
    rw [run_addThread_app]
    exact (sameLog_receiveClient request).final .refl _
  | install ord snapshot ids =>
    refine h.of_sameLog ?_ (fun _ _ heq => by cases heq) (run_election (fun _ _ => rfl) fun _ => rfl)
      (run_round (fun _ _ => rfl) fun _ => rfl)
    show SameLog p.app (p.run _ addThread id).app
    rw [run_addThread_app]
    exact (sameLog_rebuildFromLeader snapshot ids).final .refl _
  | thread ord i => exact h.thread_act hs
  | endRound ord prepared => exact h.endRound_act
  | election ord quorum => exact h.election_act hs
  | stepDown term =>
    exact h.of_sameLog ((sameLog_stepDown term).final .refl p.app) (fun _ _ heq => by cases heq)
      rfl rfl

/-! ## Where records of other operations come from -/

/-- A pull passes no record of another operation, and an install none whose operation it does not
know. -/
def Passes (p : Process) : Thread → Prop
  | .checked (.commit false) m =>
    ∀ held ∈ p.app.ownPending, held.slot = m.slot → p.app.state.watermark m.shard < m.seq →
      held.opId = m.opId
  | .installing _ rebuilt =>
    ∀ held ∈ p.app.ownPending, held.seq ≤ rebuilt.watermark held.shard → held.opId ∈ rebuilt.opIndex
  | _ => True

/-- The state lock is taken by threads that are admitted and pass no record of another operation. -/
def Calm (p : Process) (e : Section) : Prop := ∀ t ∈ p.takesLock e, p.Admits t ∧ p.Passes t

theorem accounted_sameLog {app app' : App} (h : SameLog app app') (ha : app.Accounted) :
    app'.Accounted :=
  (@SameLog.clears (fun _ => False) _ _ h).accounted ha fun _ _ hm => hm.elim

/-- A section whose program leaves no such record, and what comes after it neither. -/
theorem accounted_run {α : Type} {p : Process} {c : Program α} {onOk : Process → α → Process}
    {onError : Process → Process} (hc : p.app.Accounted → (c p.app).final.Accounted)
    (hok : ∀ p' a, (onOk p' a).app = p'.app)
    (herror : ∀ p', p'.app.Accounted → (onError p').app.Accounted) :
    p.app.Accounted → (p.run c onOk onError).app.Accounted :=
  run_rel (R := fun app app' => app.Accounted → app'.Accounted) (fun _ _ _ h h' ha => h' (h ha)) hc
    (fun p' a => hok p' a ▸ id) herror

theorem accounted_failRecovery (p : Process) (term : Nat) (ha : p.app.Accounted) :
    (p.failRecovery term).app.Accounted :=
  accounted_sameLog ((sameLog_stepDown term).final .refl p.app) ha

/-- The next section of a thread leaves no such record. -/
theorem Slots.accounted_thread {ord : IterOrder} {i : Nat} (h : Slots p)
    (hc : p.Calm (.thread ord i)) (ha : p.app.Accounted) :
    (p.act (.thread ord i)).app.Accounted := by
  unfold Process.act
  dsimp only
  split
  · exact ha
  · rename_i t hi
    split
    · exact ha
    · rename_i hblocked
      -- of all threads, only those that take the state lock can pass a record
      have hlock : t.locks → p.Passes t := by
        intro hlocks
        refine (hc t ?_).2
        have hfree : p.round = none :=
          Option.not_isSome_iff_eq_none.mp fun hround => hblocked ⟨hlocks, hround⟩
        unfold takesLock
        simp [hi, hlocks, hfree]
      cases t with
      | replication message m =>
        cases message with
        | abort =>
          refine accounted_run (fun ha => ?_) (fun _ _ => rfl) (fun _ ha => ha) ha
          exact ((@onward_removePendingMutation (fun _ => False) m).final .refl p.app).clears.accounted
            ha fun _ _ hm => hm.elim
        | prepare | commit =>
          exact accounted_run (accounted_sameLog ((sameLog_checkMutationTerm _).final .refl p.app))
            (fun _ _ => rfl) (fun _ ha => ha) ha
      | checked message m =>
        cases message with
        | abort => exact ha
        | prepare =>
          exact accounted_run (fun ha => (stores_prepareLocked.final (.refl m) p.app).accounted ha)
            (fun _ _ => rfl) (fun _ ha => ha) ha
        | commit requirePending =>
          refine accounted_run (fun ha => ?_) (fun _ _ => rfl) (fun _ ha => ha) ha
          have hlog := (@onward_commitLocked ord m requirePending).final .refl p.app
          cases requirePending with
          | false =>
            refine hlog.clears.accounted ha ?_
            rintro m' held rfl hheld hslot habove
            exact hlock rfl held hheld hslot habove
          | true =>
            rcases commitLocked_cases ord m p.app with hsame | hcase
            · show (commitLocked ord m true p.app).final.Accounted
              rw [hsame]
              exact ha
            · refine hlog.clears.accounted ha ?_
              rintro m' held rfl hheld hslot habove
              rcases hcase with hpast | hrecord
              · omega
              · rw [h.eq_of_slot hheld hrecord hslot]
      | voting req st =>
        exact accounted_run (accounted_sameLog ((sameLog_readPending req st).final .refl p.app))
          (fun _ _ => rfl) (fun _ ha => ha) ha
      | judging req status =>
        exact accounted_run (accounted_sameLog ((sameLog_judge req status).final .refl p.app))
          (fun _ _ => rfl) (fun _ ha => ha) ha
      | client request term =>
        refine accounted_run (fun ha => ?_) (fun _ _ => rfl) (fun _ ha => ha) ha
        exact ((@onward_assign ord request term).final .refl p.app).clears.accounted ha
          fun _ _ hm => hm.elim
      | installing snapshot rebuilt => exact hlock rfl

/-- The end of a round leaves no such record. -/
theorem Slots.accounted_endRound {ord : IterOrder} {prepared : Result Unit} (h : Slots p)
    (ha : p.app.Accounted) : (p.act (.endRound ord prepared)).app.Accounted := by
  unfold Process.act
  dsimp only
  cases hround : p.round with
  | none => exact ha
  | some round =>
    refine accounted_run (p := { p with round := none }) (fun ha => ?_) (fun _ _ => rfl)
      (fun p' ha => ?_) ha
    · refine ((@onward_finishRound ord prepared round).final .refl p.app).clears.accounted ha ?_
      rintro m held rfl hheld hslot habove
      cases hrecovery : round.recovery with
      | true => exact (h.recovery round hround hrecovery).2.2 held hheld hslot
      | false =>
        have hle := h.client round hround hrecovery held hheld
        have hshard : held.shard = round.outcome.mutation.shard := congrArg Prod.fst hslot
        have hseq : held.seq = round.outcome.mutation.seq := congrArg Prod.snd hslot
        rw [hshard, hseq] at hle
        omega
    · unfold failRound
      split
      · exact accounted_failRecovery p' _ ha
      · exact ha

/-- The consensus thread leaves no such record. -/
theorem accounted_election {ord : IterOrder} {quorum : Bool} (ha : p.app.Accounted) :
    (p.act (.election ord quorum)).app.Accounted := by
  unfold act
  dsimp only
  split
  · exact ha
  · cases p.election with
    | idle =>
      dsimp only [actElection]
      split
      · exact ha
      · exact accounted_run (accounted_sameLog (sameLog_startElection.final .refl p.app))
          (fun _ _ => rfl) (fun _ ha => ha) ha
    | electing term =>
      dsimp only [actElection]
      split
      · exact accounted_run (accounted_sameLog ((sameLog_winElection term).final .refl p.app))
          (fun _ _ => rfl) (fun _ ha => ha) ha
      · exact ha
    | won term =>
      exact accounted_run (accounted_sameLog ((sameLog_loadPending term).final .refl p.app))
        (fun _ _ => rfl) (fun p' ha => accounted_failRecovery p' _ ha) ha
    | recovering elected term rest =>
      cases rest with
      | nil => exact ha
      | cons m rest =>
        dsimp only [actElection]
        split
        · exact ha
        · split
          · exact ha
          · refine accounted_run (p := { p with election := .recovering elected term rest })
              (fun ha => ?_) (fun _ _ => rfl) (fun p' ha => accounted_failRecovery p' _ ha) ha
            exact ((@onward_recoverRecord m term).final .refl p.app).clears.accounted ha
              fun _ _ hm => hm.elim

/-- A calm section leaves no record up to a watermark of an operation that was not applied. -/
theorem Slots.accounted_act (h : Slots p) (hc : p.Calm e) (ha : p.app.Accounted) :
    (p.act e).app.Accounted := by
  cases e with
  | receiveReplication message m leaderId =>
    exact accounted_run
      (accounted_sameLog ((sameLog_receiveReplication message leaderId).final .refl p.app))
      (fun _ _ => rfl) (fun _ ha => ha) ha
  | requestVote req =>
    unfold Process.act
    dsimp only
    split
    · exact ha
    · exact accounted_run (accounted_sameLog ((sameLog_readMemory req).final .refl p.app))
        (fun _ _ => rfl) (fun _ ha => ha) ha
  | heartbeat hb =>
    exact accounted_run (accounted_sameLog ((sameLog_receiveHeartbeat hb).final .refl p.app))
      (fun _ _ => rfl) (fun _ ha => ha) ha
  | client request =>
    exact accounted_run (accounted_sameLog ((sameLog_receiveClient request).final .refl p.app))
      (fun _ _ => rfl) (fun _ ha => ha) ha
  | install ord snapshot ids =>
    exact accounted_run (accounted_sameLog ((sameLog_rebuildFromLeader snapshot ids).final .refl p.app))
      (fun _ _ => rfl) (fun _ ha => ha) ha
  | thread ord i => exact h.accounted_thread hc ha
  | endRound ord prepared => exact h.accounted_endRound ha
  | election ord quorum => exact accounted_election ha
  | stepDown term => exact accounted_sameLog ((sameLog_stepDown term).final .refl p.app) ha

theorem Calm.secluded (hc : p.Calm e) (ha : p.app.Accounted) : p.Secluded e :=
  ⟨fun t ht => (hc t ht).1, fun _ => ha⟩

/-- A node that starts with records up to its watermarks only of what was applied finds no others
later, if no pull and no install leaves them. -/
theorem along_secluded (h : p.Started) (hk : HashMap.Keyed Mutation.slot p.app.disk.pending)
    (ha : p.app.Accounted) (sections : List Section) (hc : Along act Calm p sections) :
    Along act Secluded p sections := by
  refine Along.of_invariant (I := fun p => Slots p ∧ p.app.Accounted) ?_ ⟨.of_started h hk, ha⟩ hc
  exact fun p e ⟨h, ha⟩ hc => ⟨⟨h.act (hc.secluded ha), h.accounted_act hc ha⟩, hc.secluded ha⟩

/-! ## Runs -/

/-- A leader gives a slot away only when no record is above the watermarks. -/
theorem Slots.settled_of_assigns (h : Slots p) (hs : p.Secluded e) {m : Mutation}
    (ha : p.Assigns e m) : p.app.Settled ∧ m.seq = p.app.state.watermark m.shard + 1 := by
  obtain ⟨ord, i, request, term, rfl, hi, hfree, hleader, hassigned⟩ := ha
  have hlocks : p.takesLock (.thread ord i) = some (.client request term) := by
    unfold takesLock
    simp [hi, hfree, Thread.locks]
  have hadmits := hs.1 _ hlocks
  constructor
  · cases helection : p.election with
    | idle => exact h.idle helection hleader
    | electing term => exact absurd hleader (h.electing term helection)
    | won term => exact hadmits (by rw [helection]; rfl) hleader
    | recovering elected term rest => exact hadmits (by rw [helection]; rfl) hleader
  · cases request with
    | deny now request =>
      have hnext := SourceOfTruth.prepareCommit_ok hassigned
      rw [if_neg Bool.false_ne_true] at hnext
      exact hnext.1.seq
    | rule now request =>
      have hnext := SourceOfTruth.prepareRuleCommit_ok hassigned
      rw [if_neg Bool.false_ne_true] at hnext
      exact hnext.1.seq
    | rollback clock snapshot rollbackId => exact hassigned.elim

/-- Of all sections of the consensus thread, only the recovery of an old record removes one. -/
theorem pending_election (p : Process) (ord : IterOrder) (quorum : Bool) :
    (p.act (.election ord quorum)).app.disk.pending = p.app.disk.pending ∨
    ∃ elected term m rest, p.election = .recovering elected term (m :: rest) ∧
      m.seq ≤ p.app.state.watermark m.shard ∧
      (p.act (.election ord quorum)).app.disk.pending = p.app.disk.pending.erase m.slot := by
  unfold act
  dsimp only
  split
  · exact Or.inl rfl
  · cases helection : p.election with
    | idle =>
      dsimp only [actElection]
      split <;> exact Or.inl rfl
    | electing term =>
      dsimp only [actElection]
      split
      · unfold run
        obtain ⟨-, hresult, hfinal⟩ | ⟨cs, -, hresult, hfinal⟩ := winElection_cases p.app term
        · rw [hresult, hfinal]
          exact Or.inl rfl
        · rw [hresult, hfinal]
          exact Or.inl rfl
      · exact Or.inl rfl
    | won term =>
      dsimp only [actElection]
      unfold run
      rw [loadPending_final]
      cases (loadPending ord term p.app).result <;> exact Or.inl rfl
    | recovering elected term rest =>
      cases rest with
      | nil => exact Or.inl rfl
      | cons m rest =>
        dsimp only [actElection]
        split
        · exact Or.inl rfl
        · split
          · exact Or.inl rfl
          · unfold run
            dsimp only
            obtain ⟨err, hresult, hfinal⟩ | ⟨hle, hresult, hfinal⟩ | ⟨round, hresult, hfinal, -⟩ :=
              recoverRecord_cases term m p.app
            · rw [hresult, hfinal]
              exact Or.inl rfl
            · rw [hresult, hfinal]
              exact Or.inr ⟨elected, term, m, rest, rfl, hle, rfl⟩
            · rw [hresult, hfinal]
              exact Or.inl rfl

/-- What the invariant says about the next section. -/
theorem Slots.neverReuses (h : Slots p) (hs : p.Secluded e) : NeverReuses p e where
  assigns m ha held hheld hslot := by
    obtain ⟨hsettled, hseq⟩ := h.settled_of_assigns hs ha
    have hle := hsettled held hheld
    have hshard : held.shard = m.shard := congrArg Prod.fst hslot
    have hseq' : held.seq = m.seq := congrArg Prod.snd hslot
    rw [hshard, hseq'] at hle
    omega
  discards ord quorum he held hheld hgone := by
    subst he
    have hconfig := (settles_act p (.election ord quorum)).config
    obtain ⟨⟨slot, hslot⟩, hown⟩ := mem_ownPending.mp hheld
    rcases pending_election p ord quorum with hsame | ⟨_, _, m, _, helection, hle, herased⟩
    · exact absurd (mem_ownPending.mpr ⟨⟨slot, hsame ▸ hslot⟩, hconfig ▸ hown⟩) hgone
    · by_cases heq : slot = m.slot
      · have hkey := h.keyed slot held hslot
        have hshard : held.shard = m.shard := congrArg Prod.fst (hkey.trans heq)
        have hseq : held.seq = m.seq := congrArg Prod.snd (hkey.trans heq)
        refine h.accounted _ _ _ helection held hheld ?_
        rw [hshard, hseq]
        exact hle
      · refine absurd (mem_ownPending.mpr ⟨⟨slot, ?_⟩, hconfig ▸ hown⟩) hgone
        rw [herased, HashMap.lookup_erase_eq, if_neg heq]
        exact hslot

/-- In every run whose recoveries are secluded, no slot is given away that is still pending. -/
theorem never_reuses (h : p.Started) (hk : HashMap.Keyed Mutation.slot p.app.disk.pending)
    (sections : List Section) (hs : Along act Secluded p sections) :
    Along act NeverReuses p sections :=
  Along.of_invariant (I := Slots) (fun _ _ h hs => ⟨h.act hs, h.neverReuses hs⟩) (.of_started h hk) hs

/-! A follower has a record of an operation in slot `(0, 1)`, and is elected. -/

namespace EarlyClient

def record : Mutation where
  opId := "op-1"
  commitId := ⟨0, 1, 1, "cluster"⟩
  entry :=
    { tenantId := "acme", namespace' := "user", keyHash := stableKeyHash "acme" "user" "ann"
      action := .deny, priority := 10, reasonCode := "abuse", expiresAt := 0
      createdBy := "operator", commitSeq := 1, shardId := 0 }
  rule := none
  deliveryPriority := .p0
  committedAtUnix := 100

def request : DenyRequest :=
  { opId := "op-2", tenantId := "acme", namespace' := "user", key := "bob", action := .deny,
    priority := 10, reasonCode := "abuse", expiresAt := 0, createdBy := "operator",
    deliveryPriority := .p0 }

def follower : Process where
  app :=
    { config :=
        { shardCount := 1
          replication := ⟨"cluster", "node-2", some "node-1", ["node-1", "node-2", "node-3"], 2⟩
          minLogEntries := 10000
          compactOnStartup := true
          publisher := false }
      state := SourceOfTruth.new 1 "cluster"
      consensus := ⟨1, none, .follower, some "node-1"⟩
      lastPublished := [0]
      disk := { Disk.empty with pending := AList.insert record.slot record ∅ } }
  threads := []
  round := none
  election := .idle

theorem started : follower.Started := ⟨rfl, rfl, rfl, rfl⟩

theorem keyed : HashMap.Keyed Mutation.slot follower.app.disk.pending :=
  (HashMap.Keyed.empty Mutation.slot).insert record

/-- What the client is given. -/
def reused : Mutation where
  opId := "op-2"
  commitId := ⟨0, 1, 2, "cluster"⟩
  entry :=
    { tenantId := "acme", namespace' := "user", keyHash := stableKeyHash "acme" "user" "bob"
      action := .deny, priority := 10, reasonCode := "abuse", expiresAt := 0
      createdBy := "operator", commitSeq := 1, shardId := 0 }
  rule := none
  deliveryPriority := .p0
  committedAtUnix := 100

/-- The follower is elected, and a client asks it for a commit. -/
def elected : List Section :=
  [.election .given false, .election .given true, .client (.deny 100 request)]

/-- The recovery comes before the client. -/
def after : List Section :=
  elected ++ [.election .given false, .election .given false, .endRound .given (.ok ()),
    .election .given false, .thread .given 0]

/-- The client comes before the recovery. -/
def before : List Section := elected ++ [.thread .given 0]

end EarlyClient

theorem never_reuses_after :
    Along act NeverReuses EarlyClient.follower EarlyClient.after :=
  never_reuses EarlyClient.started EarlyClient.keyed EarlyClient.after (by decide +kernel)

theorem not_never_reuses :
    ¬∀ (p : Process) (sections : List Section), p.Started →
      HashMap.Keyed Mutation.slot p.app.disk.pending → Along act NeverReuses p sections := by
  intro h
  have hlast := (along_append.mp (h EarlyClient.follower EarlyClient.before EarlyClient.started
    EarlyClient.keyed)).2.1.assigns EarlyClient.reused
    ⟨.given, 0, .deny 100 EarlyClient.request, 2, rfl, rfl, rfl, by decide +kernel, by decide +kernel⟩
    EarlyClient.record (by decide +kernel) (by decide +kernel)
  exact absurd hlast (by decide +kernel)

end Process

end Globacl
