import Globacl.Core.Represents
import Globacl.Commitd.Sections

/-!
# What the sections of a node do

The sections fall in two kinds. Those that take the consensus lock, or none, keep the memory and the
pending directory (`SameLog`). Those that take the state lock keep the consensus state and go onward
(`Onward`): no watermark goes back, no operation is forgotten, and pending records only disappear,
but for the record that a prepare writes. An install is of neither kind: it writes the state that
was built from a snapshot which was fetched without the state lock, and in the meantime other
threads may have gone further.

* `onward_applyPreparedMutation`: the state lock section of every commit.
* `climbs_act`: a section that is not an install never lowers a watermark.
* `neverBack_iff`: so a run never lowers one exactly if each install finds its snapshot ahead.
-/

namespace Globacl

open Lib Prog

/-- The memory and the pending directory are the same. -/
structure SameLog (app app' : App) : Prop where
  config : app'.config = app.config
  state : app'.state = app.state
  pending : app'.disk.pending = app.disk.pending

/-- What a section under the state lock may do, which applies only `new` mutations. -/
structure Onward (new : Mutation → Prop) (app app' : App) : Prop where
  config : app'.config = app.config
  consensus : app'.consensus = app.consensus
  file : app'.disk.consensus = app.disk.consensus
  watermarks : AtLeast app.state.watermarks app'.state.watermarks
  opIndex : ∀ id m, app.state.opIndex.lookup id = some m → app'.state.opIndex.lookup id = some m
  fresh : ∀ id m, app'.state.opIndex.lookup id = some m →
    new m ∨ app.state.opIndex.lookup id = some m
  advance : ∀ shardId seq, app.state.watermark shardId < seq →
    seq ≤ app'.state.watermark shardId →
    ∃ m, new m ∧ m.slot = (shardId, seq) ∧ app'.state.opIndex.lookup m.opId = some m
  pending : ∀ slot m, app'.disk.pending.lookup slot = some m → app.disk.pending.lookup slot = some m

/-- What the section of a prepare may do: the record may be stored. -/
structure Stores (m : Mutation) (app app' : App) : Prop where
  config : app'.config = app.config
  consensus : app'.consensus = app.consensus
  file : app'.disk.consensus = app.disk.consensus
  state : app'.state = app.state
  pending : ∀ slot m', app'.disk.pending.lookup slot = some m' →
    slot = m.slot ∧ m' = m ∨ app.disk.pending.lookup slot = some m'
  above : app'.disk.pending = app.disk.pending ∨ app.state.watermark m.shard < m.seq

theorem SameLog.refl (app : App) : SameLog app app := ⟨rfl, rfl, rfl⟩

theorem Onward.refl {new : Mutation → Prop} (app : App) : Onward new app app :=
  ⟨rfl, rfl, rfl, .refl _, fun _ _ h => h, fun _ _ h => Or.inr h,
    fun _ _ hlt hle => absurd hle (not_le.mpr hlt), fun _ _ h => h⟩

theorem Stores.refl (m : Mutation) (app : App) : Stores m app app :=
  ⟨rfl, rfl, rfl, rfl, fun _ _ h => Or.inr h, Or.inl rfl⟩

section Programs

variable {ord : IterOrder} {m : Mutation}

/-! ## Sections of the consensus state -/

theorem sameLog_setConsensus (cs : ConsensusState) : Respects SameLog (setConsensus cs) :=
  Respects.bind (.step fun _ _ h => ⟨h.config, h.state, h.pending⟩) fun _ =>
    .step fun _ _ h => ⟨h.config, h.state, h.pending⟩

theorem sameLog_receiveReplication (message : Replication) (leaderId : String) :
    Respects SameLog (receiveReplication message m leaderId) :=
  .get_bind fun _ => .bind (.lift _) fun _ => .bind (.lift _) fun cs =>
    .bind (sameLog_setConsensus cs) fun _ => .pure _

theorem sameLog_checkMutationTerm (message : Replication) :
    Respects SameLog (checkMutationTerm message m) :=
  .get_bind fun _ => .bind (.lift _) fun _ => .bind (.lift _) fun cs =>
    .ite (fun _ => .bind (.pure _) fun _ => .pure _) fun _ =>
      .bind (sameLog_setConsensus cs) fun _ => .pure _

theorem sameLog_readMemory (req : VoteRequest) : Respects SameLog (readMemory req) :=
  .get_bind fun _ => .bind (.lift _) fun _ => .pure _

theorem sameLog_readPending (req : VoteRequest) (st : SourceOfTruth) :
    Respects SameLog (readPending ord req st) :=
  .get_bind fun _ => .pure _

theorem sameLog_judge (req : VoteRequest) (status : LogStatus) :
    Respects SameLog (judge req status) :=
  .get_bind fun _ => .ite (fun _ => .bind (sameLog_setConsensus _) fun _ => .pure _) fun _ =>
    .bind (.step fun _ _ h => ⟨h.config, h.state, h.pending⟩) fun _ => .pure _

theorem sameLog_receiveHeartbeat (hb : Heartbeat) : Respects SameLog (receiveHeartbeat hb) :=
  .get_bind fun _ => .bind (.lift _) fun _ =>
    .ite (fun _ => sameLog_setConsensus _) fun _ => .pure _

theorem sameLog_receiveClient (request : ClientRequest) :
    Respects SameLog (receiveClient request) :=
  .get_bind fun _ => .bind (.lift _) fun _ => .pure _

theorem sameLog_startElection : Respects SameLog startElection :=
  .get_bind fun _ => .bind (sameLog_setConsensus _) fun _ => .pure _

theorem sameLog_winElection (term : Nat) : Respects SameLog (winElection term) :=
  .get_bind fun app => by
    cases becomeLeader app.config.replication app.consensus term with
    | none => exact .pure _
    | some cs => exact .bind (sameLog_setConsensus cs) fun _ => .pure _

theorem sameLog_loadPending (elected : Nat) : Respects SameLog (loadPending ord elected) :=
  .get_bind fun _ => .bind (.lift _) fun _ => .pure _

theorem sameLog_stepDown (term : Nat) : Respects SameLog (stepDown term) :=
  .get_bind fun _ => sameLog_setConsensus _

/-- Until its last section, an install changes only files that no other section reads. -/
theorem sameLog_rebuildFromLeader (snapshot : Snapshot) (idempotencyMutations : List Mutation) :
    Respects SameLog (rebuildFromLeader ord snapshot idempotencyMutations) := by
  have hwrite : ∀ {f : Disk → Disk}, (∀ d, (f d).pending = d.pending) →
      Respects SameLog (writeDisk f) := fun hf =>
    .step fun _ _ h => ⟨h.config, h.state, (hf _).trans h.pending⟩
  refine .get_bind fun _ => .bind (.lift _) fun _ => .bind (.lift _) fun rebuilt => ?_
  refine .bind (hwrite fun _ => by rfl) fun _ => .bind (hwrite fun _ => by rfl) fun _ => ?_
  refine .bind (.ite (fun _ => .lift _) fun _ => .forEach (fun _ => hwrite fun _ => by rfl) _)
    fun _ => ?_
  exact .bind (.lift _) fun _ => .pure _

/-! ### What they leave of their threads -/

variable {app : App} {t : Thread}

theorem receiveReplication_ok {message : Replication} {leaderId : String}
    (h : (receiveReplication message m leaderId app).result = .ok t) :
    t = .replication message m ∧
      ensureReplicationLeader app.config.replication app.consensus m leaderId =
        .ok (receiveReplication message m leaderId app).final.consensus := by
  obtain ⟨_, ⟨⟩, h, hf⟩ := bind_ok h
  obtain ⟨_, _, h, hf₁⟩ := bind_ok h
  obtain ⟨cs, hcs, h, hf₂⟩ := bind_ok h
  unfold receiveReplication
  rw [hf, hf₁, hf₂]
  obtain ⟨_, _, h, hf₃⟩ := bind_ok h
  rw [hf₃]
  cases h
  exact ⟨rfl, hcs⟩

theorem checkMutationTerm_ok {message : Replication}
    (h : (checkMutationTerm message m app).result = .ok t) :
    t = .checked message m ∧
      ensureMutationTerm app.consensus m = .ok (checkMutationTerm message m app).final.consensus := by
  obtain ⟨_, ⟨⟩, h, hf⟩ := bind_ok h
  obtain ⟨_, _, h, hf₁⟩ := bind_ok h
  obtain ⟨cs, hcs, h, hf₂⟩ := bind_ok h
  unfold checkMutationTerm
  rw [hf, hf₁, hf₂]
  by_cases hsame : cs = app.consensus
  · rw [if_pos hsame] at h ⊢
    cases h
    exact ⟨rfl, hsame ▸ hcs⟩
  · rw [if_neg hsame] at h ⊢
    obtain ⟨_, _, h, hf₃⟩ := bind_ok h
    rw [hf₃]
    cases h
    exact ⟨rfl, hcs⟩

theorem readMemory_ok {req : VoteRequest} (h : (readMemory req app).result = .ok t) :
    t = .voting req app.state := by
  obtain ⟨_, ⟨⟩, h, -⟩ := bind_ok h
  obtain ⟨_, _, h, -⟩ := bind_ok h
  cases h
  rfl

theorem readPending_ok {req : VoteRequest} {st : SourceOfTruth}
    (h : (readPending ord req st app).result = .ok t) :
    t = .judging req
      (localLogStatus ord app.config.replication.clusterId st app.disk.pending) := by
  cases h
  rfl

theorem receiveClient_ok {request : ClientRequest}
    (h : (receiveClient request app).result = .ok t) :
    ∃ term, t = .client request term ∧
      ensureWriteAuthority app.config.replication app.consensus = .ok term := by
  obtain ⟨_, ⟨⟩, h, -⟩ := bind_ok h
  obtain ⟨term, hterm, h, -⟩ := bind_ok h
  cases h
  exact ⟨term, rfl, hterm⟩

/-! ## Sections of the memory -/

section Onward

variable {new : Mutation → Prop}

theorem onward_writeDisk {f : Disk → Disk} (hfile : ∀ d, (f d).consensus = d.consensus)
    (hf : ∀ d slot m, (f d).pending.lookup slot = some m → d.pending.lookup slot = some m) :
    Respects (Onward new) (writeDisk f) :=
  .step fun _ _ h => ⟨h.config, h.consensus, (hfile _).trans h.file, h.watermarks, h.opIndex,
    h.fresh, h.advance, fun slot m hm => h.pending slot m (hf _ slot m hm)⟩

/-- A write of another file. -/
theorem onward_writeFile {f : Disk → Disk}
    (hf : ∀ d, (f d).consensus = d.consensus ∧ (f d).pending = d.pending) :
    Respects (Onward new) (writeDisk f) :=
  onward_writeDisk (fun d => (hf d).1) fun d slot m hm => by rwa [(hf d).2] at hm

theorem onward_removePendingMutation (m : Mutation) :
    Respects (Onward new) (removePendingMutation m) := by
  refine onward_writeDisk (fun _ => rfl) fun d slot m' hm' => ?_
  rw [HashMap.lookup_erase_eq] at hm'
  split at hm'
  · cases hm'
  · exact hm'

/-- A new state that goes onward from the state that was read before. -/
theorem onward_setState {app₀ app₁ : App} {st : SourceOfTruth} (h₁ : Onward new app₀ app₁)
    (hw : AtLeast app₁.state.watermarks st.watermarks)
    (hid : ∀ id m, app₁.state.opIndex.lookup id = some m → st.opIndex.lookup id = some m)
    (hnew : ∀ id m, st.opIndex.lookup id = some m → new m ∨ app₁.state.opIndex.lookup id = some m)
    (hadvance : ∀ shardId seq, app₁.state.watermark shardId < seq → seq ≤ st.watermark shardId →
      ∃ m, new m ∧ m.slot = (shardId, seq) ∧ st.opIndex.lookup m.opId = some m) :
    Triple (Onward new app₀) (setState st) (fun _ => Onward new app₀) (Onward new app₀)
      (Onward new app₀) := by
  have hset : ∀ app, Onward new app₀ app → Onward new app₀ { app with state := st } := fun _ h =>
    { h with
      watermarks := h₁.watermarks.trans hw
      opIndex := fun id m hm => hid id m (h₁.opIndex id m hm)
      fresh := fun id m hm => (hnew id m hm).elim Or.inl (h₁.fresh id m)
      advance := fun shardId seq hlt hle => by
        by_cases hbefore : seq ≤ app₁.state.watermark shardId
        · obtain ⟨m, hm, hslot, hop⟩ := h₁.advance shardId seq hlt hbefore
          exact ⟨m, hm, hslot, hid _ _ hop⟩
        · exact hadvance shardId seq (not_le.mp hbefore) hle }
  exact Triple.step hset hset

theorem onward_compactMutationLogsLocked :
    Respects (Onward new) (compactMutationLogsLocked ord) := fun app₀ => by
  refine Triple.get_bind fun app₁ h₁ => ?_
  have hlogs : Respects (Onward new) (compactLogsToWatermarks app₁.state.shardCount
      (compactionWatermarksForSnapshot app₁ (app₁.state.snapshot ord))) :=
    .ite (fun _ => .lift _) fun _ => .forEach (fun _ => onward_writeFile fun _ => by exact ⟨rfl, rfl⟩) _
  refine Triple.conseq (p := Onward new app₀) ?_ (fun _ heq => heq ▸ h₁) (fun _ _ h => h)
    (fun _ h => h) fun _ h => h
  refine Triple.bind (onward_writeFile (fun _ => by exact ⟨rfl, rfl⟩) app₀) fun _ =>
    Triple.bind (onward_writeFile (fun _ => by exact ⟨rfl, rfl⟩) app₀) fun _ =>
      Triple.bind (hlogs app₀) fun _ => ?_
  refine Triple.bind (q := fun st app => (∃ w, app₁.state.compactMutationHistory w = .ok st) ∧
    Onward new app₀ app) (Triple.lift (fun st _ hst h => ⟨⟨_, hst⟩, h⟩) fun _ _ _ h => h)
    fun st => ?_
  refine Triple.of_fact fun ⟨w, hst⟩ => ?_
  obtain ⟨-, halike, hindex, -⟩ := SourceOfTruth.compactMutationHistory_ok hst
  refine onward_setState h₁ ?_ (fun id m hm => ?_) (fun id m hm => Or.inr ?_)
    fun shardId seq hlt hle => absurd hle ?_
  · rw [halike.watermarks]
    exact .refl _
  · rwa [hindex]
  · rwa [hindex] at hm
  · unfold SourceOfTruth.watermark at hlt ⊢
    rw [halike.watermarks]
    exact not_le.mpr hlt

end Onward

section Apply

variable {st st' : SourceOfTruth} {status : ApplyStatus}

theorem atLeast_applyReplicatedMutation (h : st.applyReplicatedMutation m = .ok (status, st')) :
    AtLeast st.watermarks st'.watermarks := by
  obtain ⟨-, rfl⟩ | ⟨-, -, -, hseq, rfl⟩ := SourceOfTruth.applyReplicatedMutation_ok h
  · exact .refl _
  · refine .set ?_
    unfold SourceOfTruth.watermark at hseq
    omega

/-- An operation that is known stays known. -/
theorem opIndex_applyReplicatedMutation (h : st.applyReplicatedMutation m = .ok (status, st'))
    (id : String) (m' : Mutation) (hm' : st.opIndex.lookup id = some m') :
    st'.opIndex.lookup id = some m' := by
  obtain ⟨-, rfl⟩ | ⟨-, hnone, -, -, rfl⟩ := SourceOfTruth.applyReplicatedMutation_ok h
  · exact hm'
  · show (st.opIndex.insert m.opId m).lookup id = some m'
    rw [HashMap.lookup_insert_eq, if_neg, hm']
    rintro rfl
    rw [hnone] at hm'
    cases hm'

theorem fresh_applyReplicatedMutation (h : st.applyReplicatedMutation m = .ok (status, st'))
    (id : String) (m' : Mutation) (hm' : st'.opIndex.lookup id = some m') :
    m' = m ∨ st.opIndex.lookup id = some m' := by
  obtain ⟨-, rfl⟩ | ⟨-, -, -, -, rfl⟩ := SourceOfTruth.applyReplicatedMutation_ok h
  · exact Or.inr hm'
  · replace hm' : (st.opIndex.insert m.opId m).lookup id = some m' := hm'
    rw [HashMap.lookup_insert_eq] at hm'
    split at hm'
    · exact Or.inl (Option.some.inj hm').symm
    · exact Or.inr hm'

/-- A watermark only moves over the mutation that is then known. -/
theorem advance_applyReplicatedMutation (h : st.applyReplicatedMutation m = .ok (status, st'))
    (shardId seq : Nat) (hlt : st.watermark shardId < seq) (hle : seq ≤ st'.watermark shardId) :
    ∃ m', m' = m ∧ m'.slot = (shardId, seq) ∧ st'.opIndex.lookup m'.opId = some m' := by
  obtain ⟨-, rfl⟩ | ⟨-, -, hshard, hseq, rfl⟩ := SourceOfTruth.applyReplicatedMutation_ok h
  · omega
  · rw [SourceOfTruth.record_watermark st hshard] at hle
    split at hle
    · rename_i hs
      subst hs
      have heq : m.seq = seq := by omega
      refine ⟨m, rfl, Prod.ext rfl heq, ?_⟩
      show (st.opIndex.insert m.opId m).lookup m.opId = some m
      rw [HashMap.lookup_insert_eq, if_pos rfl]
    · omega

end Apply

theorem onward_applyPreparedMutation :
    Respects (Onward (· = m)) (applyPreparedMutation ord m) := fun app₀ => by
  have hpersist : Respects (Onward (· = m)) (persistMutation m) :=
    (onward_writeFile fun _ => by exact ⟨rfl, rfl⟩).bind fun _ => onward_writeFile fun _ => by exact ⟨rfl, rfl⟩
  have hmaybe : Respects (Onward (· = m)) (maybeCompactMutationLogs ord) :=
    .get_bind fun _ => .ite (fun _ => .pure _) fun _ => onward_compactMutationLogsLocked
  have hend : ∀ status, Respects (Onward (· = m)) (do removePendingMutation m; pure status) :=
    fun status => (onward_removePendingMutation m).bind fun _ => .pure (status : ApplyStatus)
  refine triple_applyPreparedMutation (k := fun _ => Onward (· = m) app₀) (fun _ h => h)
    (fun _ _ => hpersist app₀) fun app₁ h₁ => ?_
  refine Triple.bind (q := fun r app => app₁.state.applyReplicatedMutation m = .ok r ∧
    Onward (· = m) app₀ app) (Triple.lift (fun r _ hr h => ⟨hr, h⟩) fun _ _ _ h => h) ?_
  rintro ⟨status, st⟩
  refine Triple.of_fact fun hst => ?_
  refine Triple.bind (onward_setState h₁ (atLeast_applyReplicatedMutation hst)
    (opIndex_applyReplicatedMutation hst) (fresh_applyReplicatedMutation hst)
    (advance_applyReplicatedMutation hst)) fun _ => ?_
  refine Triple.ite (fun _ => ?_) fun _ => hend status app₀
  refine Triple.bind (onward_writeFile (fun _ => by exact ⟨rfl, rfl⟩) app₀) fun _ =>
    Triple.bind (onward_writeFile (fun _ => by exact ⟨rfl, rfl⟩) app₀) fun _ => ?_
  exact Triple.bind (hmaybe app₀) fun _ => hend status app₀

theorem insertPending_ok {pending pending' : HashMap (Nat × Nat) Mutation}
    (h : insertPending pending m = .ok pending') {slot : Nat × Nat} {m' : Mutation}
    (hm' : pending'.lookup slot = some m') :
    slot = m.slot ∧ m' = m ∨ pending.lookup slot = some m' := by
  have hinsert : ∀ m', (pending.insert m.slot m).lookup slot = some m' →
      slot = m.slot ∧ m' = m ∨ pending.lookup slot = some m' := by
    intro m' hm'
    rw [HashMap.lookup_insert_eq] at hm'
    split at hm'
    · exact Or.inl ⟨‹_›, (Option.some.inj hm').symm⟩
    · exact Or.inr hm'
  unfold insertPending at h
  split at h
  · cases h
    exact hinsert m' hm'
  · split at h
    · cases h
      exact Or.inr hm'
    · split at h
      · cases h
        exact hinsert m' hm'
      · split at h <;> cases h

theorem stores_prepareLocked : Respects (Stores m) (prepareLocked m) := fun app₀ => by
  refine Triple.get_bind fun app₁ h₁ => ?_
  refine Triple.conseq (p := Stores m app₀) ?_ (fun _ heq => heq ▸ h₁) (fun _ _ h => h)
    (fun _ h => h) fun _ h => h
  refine Triple.ite (fun _ => Respects.lift _ app₀) fun _ =>
    Triple.ite (fun _ => Respects.pure _ app₀) fun habove =>
      Triple.ite (fun _ => Respects.lift _ app₀) fun _ => ?_
  rw [h₁.state, not_le] at habove
  refine Triple.bind (q := fun pending app => insertPending app₁.disk.pending m = .ok pending ∧
    Stores m app₀ app) (Triple.lift (fun _ _ hp h => ⟨hp, h⟩) fun _ _ _ h => h) fun pending => ?_
  refine Triple.of_fact fun hp => ?_
  have hset : ∀ app, Stores m app₀ app →
      Stores m app₀ { app with disk := { app.disk with pending } } := by
    refine fun app h => ⟨h.config, h.consensus, h.file, h.state, fun slot m' hm' => ?_,
      Or.inr habove⟩
    rcases insertPending_ok hp hm' with hnew | hold
    · exact Or.inl hnew
    · exact h₁.pending slot m' hold
  exact Triple.step hset hset

theorem onward_commitLocked (requirePending : Bool) :
    Respects (Onward (· = m)) (commitLocked ord m requirePending) :=
  .get_bind fun _ => .ite (fun _ => .bind (.lift _) fun _ => onward_applyPreparedMutation)
    fun _ => onward_applyPreparedMutation

theorem onward_assign (request : ClientRequest) (term : Nat) :
    Respects (Onward fun _ => False) (assign ord request term) := fun app₀ => by
  refine Triple.get_bind fun app₁ h₁ => ?_
  exact Triple.bind ((@onward_setState _ _ _ (app₁.state.setEpoch term) h₁ (.refl _)
    (fun _ _ hm => hm) (fun _ _ hm => Or.inr hm)
    fun _ _ hlt hle => absurd hle (not_le.mpr hlt)).conseq (fun _ heq => heq ▸ h₁) (fun _ _ h => h)
    (fun _ h => h) fun _ h => h) fun _ => Respects.bind (.lift _) (fun _ => .lift _) app₀

theorem onward_finishRound (prepared : Result Unit) (round : Round) :
    Respects (Onward (· = round.outcome.mutation)) (finishRound ord prepared round) :=
  .bind (.lift _) fun _ => .get_bind fun _ => .bind (.lift _) fun _ =>
    .bind onward_applyPreparedMutation fun _ => .get_bind fun _ => .lift _

theorem onward_recoverRecord (term : Nat) :
    Respects (Onward fun _ => False) (recoverRecord term m) :=
  .get_bind fun _ => .ite (fun _ => .lift _) fun _ =>
    .ite (fun _ => .bind (onward_removePendingMutation m) fun _ => .pure _) fun _ =>
      .ite (fun _ => .lift _) fun _ => .lift _

end Programs

/-! ## Steps of a node -/

/-- No watermark in memory is lower. -/
def Climbs (app app' : App) : Prop := AtLeast app.state.watermarks app'.state.watermarks

theorem SameLog.climbs {app app' : App} (h : SameLog app app') : Climbs app app' := by
  unfold Climbs
  rw [h.state]
  exact .refl _

theorem Onward.climbs {new : Mutation → Prop} {app app' : App} (h : Onward new app app') :
    Climbs app app' := h.watermarks

theorem Stores.climbs {m : Mutation} {app app' : App} (h : Stores m app app') : Climbs app app' := by
  unfold Climbs
  rw [h.state]
  exact .refl _

namespace Process

/-- A section is related to its start if its program and what comes after it are. -/
theorem run_rel {R : App → App → Prop} (htrans : ∀ a b c, R a b → R b c → R a c) {α : Type}
    {p : Process} {c : Program α} {onOk : Process → α → Process} {onError : Process → Process}
    (hc : R p.app (c p.app).final) (hok : ∀ p' a, R p'.app (onOk p' a).app)
    (herror : ∀ p', R p'.app (onError p').app) : R p.app (p.run c onOk onError).app := by
  unfold run
  cases (c p.app).result with
  | ok a => exact htrans _ _ _ hc (hok { p with app := (c p.app).final } a)
  | error err => exact htrans _ _ _ hc (herror { p with app := (c p.app).final })

/-- A section that leaves a thread. -/
theorem run_addThread_app (p : Process) (c : Program Thread) :
    (p.run c addThread id).app = (c p.app).final := by
  unfold run
  cases (c p.app).result <;> rfl

/-- A section whose program climbs, and what comes after it too. -/
theorem climbs_run {α : Type} {p : Process} {c : Program α} {onOk : Process → α → Process}
    {onError : Process → Process} (hc : Climbs p.app (c p.app).final)
    (hok : ∀ p' a, (onOk p' a).app = p'.app) (herror : ∀ p', Climbs p'.app (onError p').app) :
    Climbs p.app (p.run c onOk onError).app :=
  run_rel (R := Climbs) (fun _ _ _ h h' => h.trans h') hc (fun p' a => hok p' a ▸ .refl _) herror

/-- A section after which nothing happens on an error. -/
theorem climbs_run_id {α : Type} {p : Process} {c : Program α} {onOk : Process → α → Process}
    (hc : Climbs p.app (c p.app).final) (hok : ∀ p' a, (onOk p' a).app = p'.app) :
    Climbs p.app (p.run c onOk id).app :=
  climbs_run hc hok fun _ => .refl _

theorem climbs_failRecovery (p : Process) (term : Nat) :
    Climbs p.app (p.failRecovery term).app :=
  ((sameLog_stepDown term).final .refl p.app).climbs

theorem climbs_actThread (ord : IterOrder) (p : Process) (t : Thread)
    (ht : ∀ snapshot rebuilt, t ≠ .installing snapshot rebuilt) :
    Climbs p.app (p.actThread ord t).app := by
  cases t with
  | replication message m =>
    cases message with
    | abort =>
      exact climbs_run_id ((@onward_removePendingMutation (fun _ => False) m).final .refl _).climbs fun _ _ => rfl
    | prepare | commit =>
      exact climbs_run_id ((sameLog_checkMutationTerm _).final .refl _).climbs fun _ _ => rfl
  | checked message m =>
    cases message with
    | abort => exact .refl _
    | prepare => exact climbs_run_id (stores_prepareLocked.final (.refl m) _).climbs fun _ _ => rfl
    | commit requirePending =>
      exact climbs_run_id ((onward_commitLocked requirePending).final .refl _).climbs fun _ _ => rfl
  | voting req st =>
    exact climbs_run_id ((sameLog_readPending req st).final .refl _).climbs fun _ _ => rfl
  | judging req status =>
    exact climbs_run_id ((sameLog_judge req status).final .refl _).climbs fun _ _ => rfl
  | client request term =>
    exact climbs_run_id ((onward_assign request term).final .refl _).climbs fun _ _ => rfl
  | installing snapshot rebuilt => exact absurd rfl (ht snapshot rebuilt)

theorem climbs_actElection (ord : IterOrder) (quorum : Bool) (p : Process) (election : Election) :
    Climbs p.app (p.actElection ord quorum election).app := by
  cases election with
  | idle =>
    dsimp only [actElection]
    split
    · exact .refl _
    · exact climbs_run_id (sameLog_startElection.final .refl _).climbs fun _ _ => rfl
  | electing term =>
    dsimp only [actElection]
    split
    · exact climbs_run_id ((sameLog_winElection term).final .refl _).climbs fun _ _ => rfl
    · exact .refl _
  | won term =>
    exact climbs_run ((sameLog_loadPending term).final .refl _).climbs (fun _ _ => rfl)
      fun p => p.climbs_failRecovery term
  | recovering elected term pending =>
    cases pending with
    | nil => exact .refl _
    | cons m pending =>
      dsimp only [actElection]
      split
      · exact .refl _
      · split
        · exact .refl _
        · exact @climbs_run _ { p with election := .recovering elected term pending } _ _ _
            ((onward_recoverRecord term).final .refl _).climbs (fun _ _ => rfl)
            fun p => p.climbs_failRecovery elected

theorem climbs_failRound (round : Round) (p : Process) : Climbs p.app (p.failRound round).app := by
  unfold failRound
  split
  · exact p.climbs_failRecovery _
  · exact .refl _

/-- The section in which an install writes the memory, with the snapshot and the new state. -/
def installs (p : Process) : Section → Option (Snapshot × SourceOfTruth)
  | .thread _ i =>
    match p.threads[i]? with
    | some (.installing snapshot rebuilt) =>
      if p.round.isSome then none else some (snapshot, rebuilt)
    | _ => none
  | _ => none

/-- A section that does not install never lowers a watermark. -/
theorem climbs_act {p : Process} {e : Section} (h : p.installs e = none) :
    Climbs p.app (p.act e).app := by
  cases e with
  | receiveReplication message m leaderId =>
    exact climbs_run_id ((sameLog_receiveReplication message leaderId).final .refl _).climbs
      fun _ _ => rfl
  | requestVote req =>
    unfold act
    dsimp only
    split
    · exact .refl _
    · exact climbs_run_id ((sameLog_readMemory req).final .refl _).climbs fun _ _ => rfl
  | heartbeat hb =>
    exact climbs_run_id ((sameLog_receiveHeartbeat hb).final .refl _).climbs fun _ _ => rfl
  | client request =>
    exact climbs_run_id ((sameLog_receiveClient request).final .refl _).climbs fun _ _ => rfl
  | install ord snapshot idempotencyMutations =>
    exact climbs_run_id ((sameLog_rebuildFromLeader _ _).final .refl _).climbs fun _ _ => rfl
  | thread ord i =>
    unfold act
    dsimp only
    split
    · exact .refl _
    · rename_i t ht
      split
      · exact .refl _
      · rename_i hfree
        refine climbs_actThread ord { p with threads := p.threads.eraseIdx i } t ?_
        rintro snapshot rebuilt rfl
        simp only [Thread.locks, true_and] at hfree
        simp [installs, ht, hfree] at h
  | endRound ord prepared =>
    unfold act
    dsimp only
    split
    · exact .refl _
    · rename_i round _
      exact @climbs_run _ { p with round := none } _ _ _
        ((onward_finishRound prepared round).final .refl _).climbs (fun _ _ => rfl)
        fun p => p.climbs_failRound round
  | election ord quorum =>
    unfold act
    dsimp only
    split
    · exact .refl _
    · exact p.climbs_actElection ord quorum _
  | stepDown term => exact ((sameLog_stepDown term).final .refl p.app).climbs

/-! ## Threads -/

/-- The program of a section that starts a thread, or takes one to its next section. -/
def spawns (p : Process) : Section → Option (Program Thread)
  | .receiveReplication message m leaderId =>
    some (Globacl.receiveReplication message m leaderId)
  | .requestVote req => if p.round.isSome then none else some (readMemory req)
  | .client request => some (receiveClient request)
  | .install ord snapshot idempotencyMutations =>
    some (rebuildFromLeader ord snapshot idempotencyMutations)
  | .thread ord i =>
    match p.threads[i]? with
    | some (.replication .abort _) => none
    | some (.replication message m) => some (checkMutationTerm message m)
    | some (.voting req st) => some (readPending ord req st)
    | _ => none
  | _ => none

@[simp] theorem failRecovery_threads (p : Process) (term : Nat) :
    (p.failRecovery term).threads = p.threads := rfl

@[simp] theorem failRound_threads (round : Round) (p : Process) :
    (p.failRound round).threads = p.threads := by
  unfold failRound
  split <;> rfl

/-- A section that only changes what is not a thread. -/
theorem run_threads {α : Type} {p : Process} {c : Program α} {onOk : Process → α → Process}
    {onError : Process → Process} (hok : ∀ p' a, (onOk p' a).threads = p'.threads)
    (herror : ∀ p', (onError p').threads = p'.threads) :
    (p.run c onOk onError).threads = p.threads := by
  unfold run
  cases (c p.app).result with
  | ok a => exact hok _ a
  | error err => exact herror _

theorem mem_run_threads {α : Type} {p : Process} {c : Program α} {onOk : Process → α → Process}
    {onError : Process → Process} {t : Thread} (h : t ∈ (p.run c onOk onError).threads)
    (hok : ∀ p' a, (onOk p' a).threads = p'.threads)
    (herror : ∀ p', (onError p').threads = p'.threads) : t ∈ p.threads := by
  rwa [run_threads hok herror] at h

theorem mem_run_addThread {p : Process} {c : Program Thread} {t : Thread}
    (h : t ∈ (p.run c addThread id).threads) :
    t ∈ p.threads ∨ (c p.app).result = .ok t := by
  unfold run at h
  cases hc : (c p.app).result with
  | ok a =>
    rw [hc] at h
    rcases List.mem_append.mp h with h | h
    · exact Or.inl h
    · exact Or.inr (congrArg _ (List.mem_singleton.mp h).symm)
  | error err =>
    rw [hc] at h
    exact Or.inl h

theorem actElection_threads (ord : IterOrder) (quorum : Bool) (p : Process) (election : Election) :
    (p.actElection ord quorum election).threads = p.threads := by
  unfold actElection
  split
  · split
    · rfl
    · exact run_threads (fun _ _ => rfl) fun _ => rfl
  · split
    · exact run_threads (fun _ _ => rfl) fun _ => rfl
    · rfl
  · exact run_threads (fun _ _ => rfl) fun _ => rfl
  · rfl
  · split
    · rfl
    · split
      · rfl
      · exact run_threads (fun _ _ => rfl) fun _ => rfl

/-- A thread after a section was there before, or is what the section leaves of it. -/
theorem mem_threads_act {p : Process} {e : Section} {t : Thread} (h : t ∈ (p.act e).threads) :
    t ∈ p.threads ∨ ∃ c, p.spawns e = some c ∧ (c p.app).result = .ok t := by
  have hspawn : ∀ {p' : Process} {c : Program Thread}, t ∈ (p'.run c addThread id).threads →
      p'.app = p.app → (∀ t ∈ p'.threads, t ∈ p.threads) → p.spawns e = some c →
      t ∈ p.threads ∨ ∃ c, p.spawns e = some c ∧ (c p.app).result = .ok t := by
    intro p' c ht happ hsub hc
    rcases mem_run_addThread ht with ht | ht
    · exact Or.inl (hsub t ht)
    · exact Or.inr ⟨c, hc, happ ▸ ht⟩
  cases e with
  | receiveReplication message m leaderId => exact hspawn h rfl (fun _ h => h) rfl
  | client request => exact hspawn h rfl (fun _ h => h) rfl
  | install ord snapshot idempotencyMutations => exact hspawn h rfl (fun _ h => h) rfl
  | heartbeat hb =>
    exact Or.inl (mem_run_threads h (fun _ _ => rfl) fun _ => rfl)
  | stepDown term => exact Or.inl h
  | requestVote req =>
    unfold act at h
    dsimp only at h
    split at h
    · exact Or.inl h
    · rename_i hfree
      exact hspawn h rfl (fun _ h => h) (if_neg hfree)
  | endRound ord prepared =>
    unfold act at h
    dsimp only at h
    split at h
    · exact Or.inl h
    · exact Or.inl (mem_run_threads (p := { p with round := none }) h (fun _ _ => rfl)
        (failRound_threads _))
  | election ord quorum =>
    unfold act at h
    dsimp only at h
    split at h
    · exact Or.inl h
    · rw [actElection_threads] at h
      exact Or.inl h
  | thread ord i =>
    unfold act at h
    dsimp only at h
    split at h
    · exact Or.inl h
    · rename_i t' ht'
      split at h
      · exact Or.inl h
      · have hsub : ∀ t ∈ p.threads.eraseIdx i, t ∈ p.threads := fun _ h =>
          List.mem_of_mem_eraseIdx h
        have hkeep : ∀ {α : Type} {c : Program α} {onOk : Process → α → Process},
            t ∈ (run { p with threads := p.threads.eraseIdx i } c onOk id).threads →
            (∀ p' a, (onOk p' a).threads = p'.threads) → t ∈ p.threads := fun h hok =>
          hsub t (mem_run_threads h hok fun _ => rfl)
        cases t' with
        | replication message m =>
          cases message with
          | abort => exact Or.inl (hkeep h fun _ _ => rfl)
          | prepare | commit => exact hspawn h rfl hsub (by simp only [spawns, ht'])
        | checked message m =>
          cases message with
          | abort => exact Or.inl (hsub t h)
          | prepare | commit => exact Or.inl (hkeep h fun _ _ => rfl)
        | voting req st => exact hspawn h rfl hsub (by simp only [spawns, ht'])
        | judging req status => exact Or.inl (hkeep h fun _ _ => rfl)
        | client request term => exact Or.inl (hkeep h fun _ _ => rfl)
        | installing snapshot rebuilt => exact Or.inl (hkeep h fun _ _ => rfl)

/-! ## Installs -/

/-- A source that is built from a snapshot alone has the watermarks of the snapshot. -/
theorem fromSnapshotAndMutations_watermarks {shardCount : Nat} {sourceRegion : String}
    {snapshot : Snapshot} {ids : List Mutation} {st : SourceOfTruth}
    (h : SourceOfTruth.fromSnapshotAndMutations shardCount sourceRegion snapshot ids [] = .ok st) :
    st.watermarks = snapshot.watermarks := by
  unfold SourceOfTruth.fromSnapshotAndMutations at h
  split at h
  · cases h
  · split at h
    · cases h
    · split at h
      · rw [bind_eq_ok] at h
        obtain ⟨st₁, h₁, h⟩ := h
        cases h
        refine foldlM_invariant (p := fun st => st.watermarks = snapshot.watermarks) ?_ rfl h₁
        intro st st' m _ hst hm
        unfold SourceOfTruth.insertOpIndex at hm
        split at hm
        · split at hm
          · cases hm
            exact hst
          · cases hm
        · cases hm
          exact hst
      · cases h

/-- What an install is going to write has the watermarks of its snapshot. -/
def Built (t : Thread) : Prop :=
  ∀ snapshot rebuilt, t = .installing snapshot rebuilt → rebuilt.watermarks = snapshot.watermarks

theorem rebuildFromLeader_ok {ord : IterOrder} {snapshot : Snapshot} {ids : List Mutation}
    {app : App} {t : Thread} (h : (rebuildFromLeader ord snapshot ids app).result = .ok t) :
    ∃ rebuilt, t = .installing snapshot rebuilt ∧ rebuilt.watermarks = snapshot.watermarks := by
  have hbuilt : Triple (fun _ => True) (rebuildFromLeader ord snapshot ids)
      (fun t _ => ∃ rebuilt, t = .installing snapshot rebuilt ∧
        rebuilt.watermarks = snapshot.watermarks) (fun _ => True) fun _ => True := by
    refine Triple.get_bind fun app₀ _ => ?_
    refine Triple.conseq (p := fun _ => True) ?_ (fun _ _ => trivial) (fun _ _ h => h)
      (fun _ h => h) fun _ h => h
    refine Triple.bind (.trivial _) fun _ => ?_
    refine Triple.bind (q := fun st _ => st.watermarks = snapshot.watermarks ∧ True)
      (Triple.lift (fun st _ hst _ => ⟨fromSnapshotAndMutations_watermarks hst, trivial⟩)
        fun _ _ _ _ => trivial) fun rebuilt => Triple.of_fact fun hw => ?_
    refine Triple.bind (.trivial _) fun _ => Triple.bind (.trivial _) fun _ =>
      Triple.bind (.trivial _) fun _ => ?_
    refine Triple.bind (q := fun st _ => st.watermarks = snapshot.watermarks)
      (Triple.lift (fun st _ hst _ => ?_) fun _ _ _ _ => trivial) fun st => Triple.pure ?_
    · rw [(SourceOfTruth.compactMutationHistory_ok hst).2.1.watermarks, hw]
    · exact fun _ hst => ⟨st, rfl, hst⟩
  exact hbuilt.ok app t trivial h

/-- Every thread about to install has the watermarks of its snapshot. -/
theorem built_act {p : Process} (h : ∀ t ∈ p.threads, Built t) (e : Section) :
    ∀ t ∈ (p.act e).threads, Built t := by
  intro t ht
  rcases mem_threads_act ht with ht | ⟨c, hc, ht⟩
  · exact h t ht
  · rintro snapshot rebuilt rfl
    unfold spawns at hc
    split at hc
    · cases hc
      cases (receiveReplication_ok ht).1
    · split at hc
      · cases hc
      · cases hc
        cases readMemory_ok ht
    · cases hc
      obtain ⟨_, ⟨⟩, _⟩ := receiveClient_ok ht
    · cases hc
      obtain ⟨_, ⟨⟩, hw⟩ := rebuildFromLeader_ok ht
      exact hw
    · split at hc
      · cases hc
      · cases hc
        cases (checkMutationTerm_ok ht).1
      · cases hc
        cases readPending_ok ht
      · cases hc
    · cases hc

/-- No section lowers a watermark. -/
def NeverBack (p : Process) (e : Section) : Prop := Climbs p.app (p.act e).app

/-- An install writes a snapshot that is in no shard behind the node. -/
def InstallsAhead (p : Process) (e : Section) : Prop :=
  ∀ snapshot rebuilt, p.installs e = some (snapshot, rebuilt) →
    AtLeast p.app.state.watermarks snapshot.watermarks

theorem act_installs {p : Process} {e : Section} {snapshot : Snapshot} {rebuilt : SourceOfTruth}
    (h : p.installs e = some (snapshot, rebuilt)) :
    .installing snapshot rebuilt ∈ p.threads ∧ (p.act e).app.state = rebuilt := by
  cases e with
  | thread ord i =>
    unfold installs at h
    dsimp only at h
    split at h
    · rename_i ht
      split at h
      · cases h
      · rename_i hfree
        cases h
        refine ⟨List.mem_of_getElem? ht, ?_⟩
        unfold act
        simp only [ht, hfree]
        rfl
    · cases h
  | _ => cases h

theorem neverBack_iff_installsAhead {p : Process} (h : ∀ t ∈ p.threads, Built t) (e : Section) :
    NeverBack p e ↔ InstallsAhead p e := by
  unfold NeverBack InstallsAhead
  cases hi : p.installs e with
  | none =>
    refine iff_of_true (climbs_act hi) fun snapshot rebuilt h => ?_
    cases h
  | some installed =>
    obtain ⟨snapshot, rebuilt⟩ := installed
    obtain ⟨hmem, hstate⟩ := act_installs hi
    have hw := h _ hmem snapshot rebuilt rfl
    unfold Climbs
    rw [hstate, hw]
    constructor
    · rintro h snapshot' rebuilt' ⟨⟩
      exact h
    · intro h
      exact h snapshot rebuilt rfl

/-- In a run of a node no watermark ever goes back exactly if each install is ahead when it writes. -/
theorem neverBack_iff {p : Process} (h : p.Started) (sections : List Section) :
    Along act NeverBack p sections ↔ Along act InstallsAhead p sections :=
  along_iff (I := fun p => ∀ t ∈ p.threads, Built t) (fun _ e h => built_act h e)
    (fun _ e h => neverBack_iff_installsAhead h e) (by rw [h.threads]; exact fun _ h => nomatch h)

/-! Two shards. A follower without data fetches a snapshot when its leader has committed a mutation
of shard 0. The leader commits one of shard 1, and the follower applies it before it installs the
snapshot. -/

namespace LateInstall

def denial (opId : String) (shardId : Nat) (keyHash : UInt64) : Mutation where
  opId := opId
  commitId := ⟨shardId, 1, 1, "cluster"⟩
  entry :=
    { tenantId := "acme", namespace' := "user", keyHash, action := .deny, priority := 10
      reasonCode := "manual", expiresAt := 0, createdBy := "operator", commitSeq := 1, shardId }
  rule := none
  deliveryPriority := .p0
  committedAtUnix := 100

def first : Mutation := denial "op-1" 0 2
def second : Mutation := denial "op-2" 1 3

def leader : SourceOfTruth := (SourceOfTruth.new 2 "cluster").record first

theorem represents_leader : leader.Represents 2 [first] :=
  (SourceOfTruth.represents_new 2 "cluster").record
    ⟨⟨by decide +kernel, rfl, fun _ h => nomatch h⟩, rfl, by decide +kernel⟩

def follower : Process where
  app :=
    { config :=
        { shardCount := 2
          replication := ⟨"cluster", "node-2", some "node-1", ["node-1", "node-2", "node-3"], 2⟩
          minLogEntries := 10000
          compactOnStartup := true
          publisher := false }
      state := SourceOfTruth.new 2 "cluster"
      consensus := ⟨1, none, .follower, some "node-1"⟩
      lastPublished := [0, 0]
      disk := Disk.empty }
  threads := []
  round := none
  election := .idle

theorem started : follower.Started := ⟨rfl, rfl, rfl, rfl⟩

/-- The follower applies the mutation of shard 1. -/
def replicate (thread : Nat) : List Section :=
  [.receiveReplication .prepare second "node-1", .thread .given thread, .thread .given thread,
    .receiveReplication (.commit true) second "node-1", .thread .given thread,
    .thread .given thread]

/-- The install takes the state lock first. -/
def soon : List Section :=
  .install .given (leader.snapshot .given) [first] :: .thread .given 0 :: replicate 0

/-- The install waits for the state lock until the follower is ahead. -/
def early : List Section :=
  .install .given (leader.snapshot .given) [first] :: replicate 1

def late : List Section :=
  early ++ [.thread .given 0]

end LateInstall

/-- An install that is not interrupted. -/
theorem neverBack_iff_soon :
    Along act NeverBack LateInstall.follower LateInstall.soon ↔
      Along act InstallsAhead LateInstall.follower LateInstall.soon :=
  neverBack_iff LateInstall.started _

/-- A snapshot that the leader committed takes back what was applied since. -/
theorem not_neverBack :
    ¬∀ (n : Nat) (p : Process) (sections : List Section), p.Started →
      (∀ ord snapshot ids, .install ord snapshot ids ∈ sections → ∃ history st ord',
        SourceOfTruth.Represents n history st ∧ snapshot = st.snapshot ord') →
      Along act NeverBack p sections := by
  intro h
  have hback := h 2 LateInstall.follower LateInstall.late LateInstall.started ?_
  · have hlast := (along_append.mp hback).2.1 1
    have hbefore :
        (List.foldl act LateInstall.follower LateInstall.early).app.state.watermarks = [0, 1] := by
      decide +kernel
    have hafter :
        ((List.foldl act LateInstall.follower LateInstall.early).act
          (.thread .given 0)).app.state.watermarks = [1, 0] := by
      decide +kernel
    rw [hbefore, hafter] at hlast
    exact absurd hlast (by decide)
  · intro ord snapshot ids hmem
    simp only [LateInstall.late, LateInstall.early, LateInstall.replicate, List.cons_append,
      List.nil_append, List.mem_cons, Section.install.injEq, reduceCtorEq, List.not_mem_nil,
      or_false] at hmem
    obtain ⟨-, rfl, -⟩ := hmem
    exact ⟨_, _, .given, LateInstall.represents_leader, rfl⟩

end Process

end Globacl
