import Globacl.Commitd.Committed

/-!
# Commit ids

A leader numbers the mutations of a shard one after the other, and no other node commits in its term. So
a shard, a sequence number and a term name one committed mutation. There are two ways to lose this: a
leader whose watermarks go back, and a recovered record that the index of operations already holds, which
is then committed without being applied.

* `Memory`: what decides about the next mutation. `memory_applyPreparedMutation`: how a commit changes it.
* `Process.inOrder_act`: what a leader has yet to commit is numbered, from one section to the next.
* `commitIds_unique`: the mutations of a cluster.
-/

namespace Globacl

open Lib Prog

/-! ## Numbers -/

/-- What decides whether a mutation is next: the watermarks, and the operations that are known. -/
@[ext] structure Memory where
  watermark : Nat → Nat
  known : String → Prop

def SourceOfTruth.memory (st : SourceOfTruth) : Memory := ⟨st.watermark, fun id => id ∈ st.opIndex⟩

namespace Memory

def record (memory : Memory) (m : Mutation) : Memory where
  watermark := Function.update memory.watermark m.shard m.seq
  known id := id = m.opId ∨ memory.known id

/-- The mutations are new, and next in their shards, one after the other. -/
def Numbered (memory : Memory) : List Mutation → Prop
  | [] => True
  | m :: ms =>
    m.seq = memory.watermark m.shard + 1 ∧ ¬memory.known m.opId ∧ (memory.record m).Numbered ms

theorem numbered_concat {ms : List Mutation} {m : Mutation} {memory : Memory}
    (h : memory.Numbered ms) (hseq : m.seq = (ms.foldl record memory).watermark m.shard + 1)
    (hnew : ¬(ms.foldl record memory).known m.opId) : memory.Numbered (ms ++ [m]) := by
  induction ms generalizing memory with
  | nil => exact ⟨hseq, hnew, trivial⟩
  | cons first ms ih => exact ⟨h.1, h.2.1, ih h.2.2 hseq hnew⟩

end Memory

theorem SourceOfTruth.memory_record {st : SourceOfTruth} {m : Mutation} (h : m.shard < st.shardCount) :
    (st.record m).memory = st.memory.record m := by
  refine Memory.ext (funext fun s => ?_) (funext fun id => propext ?_)
  · show (st.record m).watermark s = Function.update st.watermark m.shard m.seq s
    rw [SourceOfTruth.record_watermark st h]
    by_cases hs : s = m.shard
    · rw [if_pos hs, hs, Function.update_self]
    · rw [if_neg hs, Function.update_of_ne hs]
  · show id ∈ st.opIndex.insert m.opId m ↔ id = m.opId ∨ id ∈ st.opIndex
    rw [HashMap.mem_iff_lookup, HashMap.mem_iff_lookup, HashMap.lookup_insert_eq]
    by_cases hid : id = m.opId
    · simp [hid]
    · simp [hid]

/-- Mutations that were committed one after the other are numbered. -/
theorem numbered_of_run {st st' : SourceOfTruth} {ms : List Mutation}
    (h : Run SourceOfTruth.Commits st ms st') : st.memory.Numbered ms := by
  have hrun := @Run.invariant _ _ SourceOfTruth.Commits
    (fun ms st' => st.memory.Numbered ms ∧ st'.memory = ms.foldl Memory.record st.memory) ?_
    [] ms st st' h ⟨trivial, rfl⟩
  · exact hrun.1
  · rintro ms st₁ _ st₂ ⟨hnumbered, hmemory⟩ ⟨m, rfl, hnext, rfl⟩
    refine ⟨Memory.numbered_concat hnumbered ?_ ?_, ?_⟩
    · rw [← hmemory]
      exact hnext.seq
    · rw [← hmemory]
      exact hnext.fresh
    · rw [SourceOfTruth.memory_record hnext.shard_lt, hmemory, List.foldl_append]
      rfl

/-- The mutations of the outcomes that are yet to be proposed. -/
def freshMutations (outcomes : List CommitOutcome) : List Mutation :=
  (outcomes.filter fun outcome => !outcome.duplicate).map CommitOutcome.mutation

/-- What a request has to commit is numbered. -/
theorem numbered_plan {request : ClientRequest} {ord : IterOrder} {st : SourceOfTruth}
    {outcomes : List CommitOutcome} (h : request.plan ord st = .ok outcomes) :
    st.memory.Numbered (freshMutations outcomes) := by
  have hone : ∀ outcome : CommitOutcome, (outcome.duplicate = false → st.Next outcome.mutation) →
      st.memory.Numbered (freshMutations [outcome]) := by
    intro outcome hnext
    cases hduplicate : outcome.duplicate with
    | true =>
      have hnil : freshMutations [outcome] = [] := by simp [freshMutations, hduplicate]
      rw [hnil]
      trivial
    | false =>
      have hsingle : freshMutations [outcome] = [outcome.mutation] := by simp [freshMutations, hduplicate]
      rw [hsingle]
      exact ⟨(hnext hduplicate).seq, (hnext hduplicate).fresh, trivial⟩
  cases request with
  | deny now request =>
    obtain ⟨outcome, hprepare, rfl⟩ := map_eq_ok.mp h
    refine hone outcome fun hduplicate => ?_
    have hnext := SourceOfTruth.prepareCommit_ok hprepare
    rw [hduplicate] at hnext
    exact hnext.1
  | rule now request =>
    obtain ⟨outcome, hprepare, rfl⟩ := map_eq_ok.mp h
    refine hone outcome fun hduplicate => ?_
    have hnext := SourceOfTruth.prepareRuleCommit_ok hprepare
    rw [hduplicate] at hnext
    exact hnext.1
  | rollback clock snapshot rollbackId =>
    obtain ⟨planned, hrestore, rfl⟩ := map_eq_ok.mp h
    have hall : freshMutations (planned.mutations.map fun m => ⟨m, false⟩) = planned.mutations := by
      unfold freshMutations
      rw [List.filter_eq_self.mpr (by simp), List.map_map]
      exact List.map_id _
    rw [hall]
    exact numbered_of_run (SourceOfTruth.restoreSnapshot_run hrestore)

theorem nextRound_fresh {app : App} {recovery : Bool} {outcomes : List CommitOutcome}
    {round : Round} (h : nextRound app recovery outcomes = .ok (some round)) :
    round.outcome.mutation :: freshMutations round.queue = freshMutations outcomes := by
  induction outcomes with
  | nil => cases h
  | cons outcome queue ih =>
    unfold nextRound at h
    cases hduplicate : outcome.duplicate with
    | true =>
      rw [if_pos hduplicate] at h
      have hskip : freshMutations (outcome :: queue) = freshMutations queue := by simp [freshMutations, hduplicate]
      rw [hskip]
      exact ih h
    | false =>
      rw [if_neg (by simp [hduplicate])] at h
      split at h
      · cases h
      · cases h
        simp [freshMutations, hduplicate]

/-! ## The memory of a node -/

/-- The memory is the same. -/
def SameMemory (app app' : App) : Prop := app'.state.memory = app.state.memory

theorem SameLog.sameMemory {app app' : App} (h : SameLog app app') : SameMemory app app' := by
  unfold SameMemory
  rw [h.state]

theorem Onward.sameMemory {app app' : App} (h : Onward (fun _ => False) app app') :
    SameMemory app app' := by
  refine Memory.ext (funext fun s => Nat.le_antisymm ?_ (h.watermarks s))
    (funext fun id => propext ⟨fun hid => ?_, fun hid => ?_⟩)
  · show app'.state.watermark s ≤ app.state.watermark s
    by_contra hlt
    obtain ⟨_, hnone, -⟩ := h.advance s _ (Nat.lt_of_not_le hlt) (Nat.le_refl _)
    exact hnone
  · obtain ⟨m, hm⟩ := HashMap.mem_iff_lookup.mp hid
    exact HashMap.mem_iff_lookup.mpr ⟨m, (h.fresh id m hm).resolve_left not_false⟩
  · obtain ⟨m, hm⟩ := HashMap.mem_iff_lookup.mp hid
    exact HashMap.mem_iff_lookup.mpr ⟨m, h.opIndex id m hm⟩

section Apply

variable {ord : IterOrder} {m : Mutation} {app : App}

/-- What a commit leaves in memory is what was applied: the files come after it. -/
theorem applyPreparedMutation_ok {status : ApplyStatus}
    (h : (applyPreparedMutation ord m app).result = .ok status) :
    ∃ status st, app.state.applyReplicatedMutation m = .ok (status, st) ∧
      (applyPreparedMutation ord m app).final.state.memory = st.memory := by
  -- a program that goes onward without a new mutation keeps the memory
  have hkeep : ∀ {α : Type} {c : Program α} (memory : Memory), Respects (Onward fun _ => False) c →
      Triple (fun app => app.state.memory = memory) c (fun _ app => app.state.memory = memory)
        (fun _ => True) fun _ => True := fun memory hc =>
    Triple.of_get fun app₁ h₁ => (hc app₁).conseq (fun _ heq => by rw [heq]; exact .refl _)
      (fun _ _ h => Eq.trans h.sameMemory h₁) (fun _ _ => trivial) fun _ _ => trivial
  have hmaybe : Respects (Onward fun _ => False) (maybeCompactMutationLogs ord) :=
    .get_bind fun _ => .ite (fun _ => .pure _) fun _ => onward_compactMutationLogsLocked
  have hend : ∀ status : ApplyStatus, Respects (Onward fun _ => False)
      (do removePendingMutation m; pure status : Program ApplyStatus) :=
    fun status => (onward_removePendingMutation m).bind fun _ => .pure status
  have hrun : Triple (fun app' => app' = app) (applyPreparedMutation ord m)
      (fun _ app' => ∃ status st, app.state.applyReplicatedMutation m = .ok (status, st) ∧
        app'.state.memory = st.memory) (fun _ => True) fun _ => True := by
    refine triple_applyPreparedMutation (k := fun _ _ => True) (fun _ _ => trivial)
      (fun _ _ => .trivial _) ?_
    intro app₀ heq
    rw [heq]
    refine Triple.bind (q := fun r _ => app.state.applyReplicatedMutation m = .ok r ∧ True)
      (Triple.lift (fun _ _ hr _ => ⟨hr, trivial⟩) fun _ _ _ _ => trivial) ?_
    rintro ⟨status, st⟩
    refine Triple.of_fact fun hst => ?_
    refine Triple.conseq (q := fun _ app' => app'.state.memory = st.memory) ?_ (fun _ h => h)
      (fun _ _ h => ⟨status, st, hst, h⟩) (fun _ h => h) fun _ h => h
    refine Triple.bind (q := fun _ app' => app'.state.memory = st.memory)
      (Triple.step (fun _ _ => rfl) fun _ _ => trivial) fun _ => ?_
    refine Triple.ite (fun _ => ?_) fun _ => hkeep _ (hend status)
    refine Triple.bind (hkeep _ (onward_writeFile fun _ => by exact ⟨rfl, rfl⟩)) fun _ =>
      Triple.bind (hkeep _ (onward_writeFile fun _ => by exact ⟨rfl, rfl⟩)) fun _ => ?_
    exact Triple.bind (hkeep _ hmaybe) fun _ => hkeep _ (hend status)
  exact hrun.ok app status rfl h

/-- A leader that commits the next mutation of a shard has it in memory then, unless the index says that
it had it before. -/
theorem memory_applyPreparedMutation {status : ApplyStatus}
    (h : (applyPreparedMutation ord m app).result = .ok status)
    (hseq : m.seq = app.state.memory.watermark m.shard + 1)
    (hnew : app.state.opIndex.lookup m.opId ≠ some m) :
    (applyPreparedMutation ord m app).final.state.memory = app.state.memory.record m := by
  obtain ⟨status, st, happly, hmemory⟩ := applyPreparedMutation_ok h
  rw [hmemory]
  rcases SourceOfTruth.applyReplicatedMutation_ok happly with ⟨rfl, -⟩ | ⟨-, -, hshard, -, rfl⟩
  · exfalso
    unfold SourceOfTruth.applyReplicatedMutation at happly
    split at happly
    · rename_i existing hexisting
      split at happly
      · rename_i hsame
        exact hnew (hexisting.trans (congrArg some hsame))
      · cases happly
    · split at happly
      · cases happly
      · rw [if_neg (by replace hseq : m.seq = app.state.watermark m.shard + 1 := hseq; omega)] at happly
        split at happly <;> cases happly
  · exact SourceOfTruth.memory_record hshard

end Apply

/-! ## Rounds -/

/-- What a round has yet to commit is numbered. A recovered record may be of an operation that is
known. -/
structure Round.Ordered (memory : Memory) (round : Round) : Prop where
  seq : round.outcome.mutation.seq = memory.watermark round.outcome.mutation.shard + 1
  new : round.recovery = false → ¬memory.known round.outcome.mutation.opId
  queue : (memory.record round.outcome.mutation).Numbered (freshMutations round.queue)

theorem Round.Ordered.of_numbered {app : App} {recovery : Bool} {outcomes : List CommitOutcome}
    {round : Round} {memory : Memory} (h : memory.Numbered (freshMutations outcomes))
    (hnext : nextRound app recovery outcomes = .ok (some round)) : round.Ordered memory := by
  rw [← nextRound_fresh hnext] at h
  exact ⟨h.1, fun _ => h.2.1, h.2.2⟩

/-- The first mutation of a request is next in its shard. -/
theorem assign_ordered {ord : IterOrder} {request : ClientRequest} {term : Nat} {app : App}
    {round : Round} (h : (assign ord request term app).result = .ok (some round)) :
    round.Ordered (assign ord request term app).final.state.memory := by
  obtain ⟨outcomes, hplan, hnext⟩ := Process.assign_ok h
  have hsame : (assign ord request term app).final.state.memory = app.state.memory :=
    ((onward_assign request term).final .refl app).sameMemory
  have hepoch : (app.state.setEpoch term).memory = app.state.memory := rfl
  rw [hsame, ← hepoch]
  exact .of_numbered (numbered_plan hplan) hnext

/-- A record that a recovery proposes again is next in its shard. -/
theorem recoverRecord_ordered {term : Nat} {m : Mutation} {app : App} {round : Round}
    (h : (recoverRecord term m app).result = .ok (some round)) :
    (recoverRecord term m app).final = app ∧ round.Ordered app.state.memory := by
  unfold recoverRecord at h ⊢
  rw [get_bind_apply] at h ⊢
  split at h
  · cases h
  · rename_i hshard
    rw [if_neg hshard]
    split at h
    · obtain ⟨_, -, h, -⟩ := bind_ok h
      cases h
    · rename_i hpast
      rw [if_neg hpast]
      split at h
      · cases h
      · rename_i hseq
        rw [if_neg hseq]
        obtain ⟨-, -, -, hrecovery⟩ := Process.nextRound_ok h
        have hround := nextRound_fresh h
        have hmutation : round.outcome.mutation =
            { m with commitId := { m.commitId with epoch := term } } := (List.cons.inj hround).1
        have hqueue : freshMutations round.queue = [] := (List.cons.inj hround).2
        refine ⟨rfl, ?_, fun hclient => ?_, ?_⟩
        · rw [hmutation]
          exact not_not.mp hseq
        · rw [hrecovery] at hclient
          cases hclient
        · rw [hqueue]
          trivial

namespace Process

variable {p : Process} {e : Section}

/-- The round under the state lock is next for the memory. -/
def InOrder (p : Process) : Prop := ∀ round, p.round = some round → round.Ordered p.app.state.memory

/-- The record of a recovery is not in the index when it is committed. -/
def RecoversNew (p : Process) : Section → Prop
  | .endRound _ (.ok ()) =>
    match p.round with
    | some round =>
      round.recovery = true →
        p.app.state.opIndex.lookup round.outcome.mutation.opId ≠ some round.outcome.mutation
    | none => True
  | _ => True

instance decidableRecoversNew (p : Process) : (e : Section) → Decidable (p.RecoversNew e)
  | .endRound _ (.ok ()) =>
    match hround : p.round with
    | some round =>
      decidable_of_iff (round.recovery = true →
          p.app.state.opIndex.lookup round.outcome.mutation.opId ≠ some round.outcome.mutation) <| by
        unfold RecoversNew
        rw [hround]
    | none => .isTrue <| by
        unfold RecoversNew
        rw [hround]
        trivial
  | .endRound _ (.error _) | .receiveReplication _ _ _ | .requestVote _ | .heartbeat _ | .client _
  | .install _ _ _ | .thread _ _ | .election _ _ | .stepDown _ => .isTrue trivial

/-- While a round holds the state lock, the other sections leave it and the memory alone. -/
theorem sameMemory_act (hround : p.round.isSome)
    (he : ∀ ord prepared, e ≠ .endRound ord prepared) :
    SameMemory p.app (p.act e).app ∧ (p.act e).round = p.round := by
  have hfree : p.round ≠ none := Option.isSome_iff_ne_none.mp hround
  cases rounds_act p e with
  | quiet hstate hkept => exact ⟨congrArg SourceOfTruth.memory hstate, hkept⟩
  | free hnone _ => exact absurd hnone hfree
  | assigned _ _ _ _ hnone => exact absurd hnone hfree
  | recovered _ _ _ hnone => exact absurd hnone hfree
  | ended ord prepared _ hend _ => exact absurd hend (he ord prepared)

/-- A round that a section opens is next for the memory. -/
theorem ordered_of_opened (hnone : p.round = none) {round : Round}
    (h : (p.act e).round = some round) : round.Ordered (p.act e).app.state.memory := by
  cases rounds_act p e with
  | quiet _ hkept =>
    rw [hkept, hnone] at h
    cases h
  | free _ hnone' =>
    rw [hnone'] at h
    cases h
  | assigned ord request term round' _ hopened hresult happ =>
    cases hopened.symm.trans h
    rw [happ]
    exact assign_ordered hresult
  | recovered term m round' _ hopened hresult happ =>
    cases hopened.symm.trans h
    obtain ⟨hfinal, hordered⟩ := recoverRecord_ordered hresult
    rw [happ, hfinal]
    exact hordered
  | ended ord prepared last _ hlast =>
    rw [hnone] at hlast
    cases hlast

/-- The end of a round that is committed, whatever comes next. -/
theorem finishRound_final {ord : IterOrder} {round : Round} {app : App} {status : ApplyStatus}
    (hleads : ensureLeaderTerm app round.outcome.mutation = .ok ())
    (happly : (applyPreparedMutation ord round.outcome.mutation app).result = .ok status) :
    (finishRound ord (.ok ()) round app).final =
      (applyPreparedMutation ord round.outcome.mutation app).final := by
  unfold finishRound
  rw [lift_ok_bind_apply, get_bind_apply, hleads, lift_ok_bind_apply, final_bind happly]
  rfl

/-- A mutation that is committed at the end of its round is in memory then. -/
theorem memory_of_ended {ord : IterOrder} {round : Round} {status : ApplyStatus} (h : p.InOrder)
    (hnew : p.RecoversNew (.endRound ord (.ok ()))) (hround : p.round = some round)
    (happly : (applyPreparedMutation ord round.outcome.mutation p.app).result = .ok status) :
    (applyPreparedMutation ord round.outcome.mutation p.app).final.state.memory =
      p.app.state.memory.record round.outcome.mutation := by
  have hordered := h round hround
  refine memory_applyPreparedMutation happly hordered.seq ?_
  cases hrecovery : round.recovery with
  | true =>
    unfold RecoversNew at hnew
    simp only [hround] at hnew
    exact hnew hrecovery
  | false => exact fun hknown => hordered.new hrecovery (HashMap.mem_iff_lookup.mpr ⟨_, hknown⟩)

/-- A round that comes after another one is next too. -/
theorem ordered_of_ended {ord : IterOrder} {prepared : Result Unit} {last round : Round}
    (h : p.InOrder) (hnew : p.RecoversNew (.endRound ord prepared)) (hlast : p.round = some last)
    (hround : (p.act (.endRound ord prepared)).round = some round) :
    round.Ordered (p.act (.endRound ord prepared)).app.state.memory := by
  unfold act at hround ⊢
  simp only [hlast] at hround ⊢
  unfold run at hround ⊢
  dsimp only at hround ⊢
  cases hresult : (finishRound ord prepared last p.app).result with
  | error err =>
    rw [hresult] at hround
    dsimp only [failRound] at hround
    split at hround <;> cases hround
  | ok next =>
    rw [hresult] at hround
    obtain rfl : next = some round := hround
    obtain ⟨-, ⟨status, happly⟩, hnext, hfinal⟩ := finishRound_ok hresult
    cases prepared with
    | error err => cases hresult
    | ok _ =>
      show round.Ordered (finishRound ord (.ok ()) last p.app).final.state.memory
      rw [hfinal, memory_of_ended h hnew hlast happly]
      exact .of_numbered (h last hlast).queue hnext

/-- What a node has yet to commit is numbered, from one section to the next. -/
theorem inOrder_act (h : p.InOrder) (hnew : p.RecoversNew e) : (p.act e).InOrder := by
  intro round hround
  by_cases hend : ∃ ord prepared, e = .endRound ord prepared
  · obtain ⟨ord, prepared, rfl⟩ := hend
    cases hlast : p.round with
    | none => exact ordered_of_opened hlast hround
    | some last => exact ordered_of_ended h hnew hlast hround
  · cases hlast : p.round with
    | none => exact ordered_of_opened hlast hround
    | some last =>
      have hsome : p.round.isSome := by rw [hlast]; rfl
      obtain ⟨hsame, hkept⟩ := sameMemory_act hsome fun ord prepared he => hend ⟨ord, prepared, he⟩
      rw [hsame]
      exact h round (hkept ▸ hround)

/-- A mutation that is committed is next before, and in memory after. -/
theorem memory_of_commit {m : Mutation} (h : p.InOrder) (hnew : p.RecoversNew e)
    (hsends : (.commit true, m) ∈ p.sends e) :
    m.seq = p.app.state.watermark m.shard + 1 ∧
      (p.act e).app.state.memory = p.app.state.memory.record m := by
  obtain ⟨ord, round, rfl, hround, rfl, hrole, hepoch, status, happly⟩ := commit_of_sends hsends
  have hleads : ensureLeaderTerm p.app round.outcome.mutation = .ok () := by
    unfold ensureLeaderTerm ensureWriteAuthority
    rw [if_pos hrole]
    exact if_neg (not_not.mpr hepoch)
  refine ⟨(h round hround).seq, ?_⟩
  rw [← memory_of_ended h hnew hround happly, ← finishRound_final hleads happly]
  unfold act
  simp only [hround]
  unfold run
  dsimp only
  split
  · rfl
  · unfold failRound
    split <;> rfl

/-- A section commits one mutation at most. -/
theorem commit_unique {m m' : Mutation} (h : (.commit true, m) ∈ p.sends e)
    (h' : (.commit true, m') ∈ p.sends e) : m = m' := by
  obtain ⟨ord, round, rfl, hround, rfl, -⟩ := commit_of_sends h
  obtain ⟨_, round', -, hround', rfl, -⟩ := commit_of_sends h'
  rw [hround] at hround'
  cases hround'
  rfl

/-- A node that waits for votes does not lead. -/
theorem not_leader_of_electing {term : Nat}
    (h : ∀ term, p.election = .electing term → p.app.consensus.role ≠ .leader)
    (helecting : (p.act e).election = .electing term) :
    (p.act e).app.consensus.role ≠ .leader := by
  rcases act_electing helecting with hold | ⟨-, -, -, happ⟩
  · intro hrole
    rcases (settles_act p e).adopts.leads hrole with hsame | ⟨ord, rfl, -⟩
    · exact h term hold (hsame ▸ hrole)
    · unfold act at helecting hrole
      dsimp only at helecting hrole
      split at helecting
      · rename_i hround
        rw [if_pos hround] at hrole
        exact h term hold hrole
      · rw [hold] at helecting
        dsimp only [actElection] at helecting
        rw [if_pos rfl] at helecting
        unfold run at helecting
        obtain ⟨-, hresult, -⟩ | ⟨cs, -, hresult, -⟩ := winElection_cases p.app term
        · rw [hresult] at helecting
          cases helecting
        · rw [hresult] at helecting
          cases helecting
  · rw [happ]
    exact fun hrole => by cases hrole

end Process

namespace Cluster

variable {mem : Membership} {c : Cluster} {n : String} {e : Section}

/-! ## The mutations of a cluster -/

/-- The watermarks of a leader do not go back, and no recovered record is in its index before it is
committed. -/
def KeepsNumbers (c : Cluster) : Event → Prop
  | .run n e =>
    ((c.nodes n).app.consensus.role = .leader → (c.nodes n).NeverBack e) ∧ (c.nodes n).RecoversNew e
  | _ => True

instance decidableNeverBack (p : Process) (e : Section) : Decidable (p.NeverBack e) :=
  decidable_of_iff (∀ s < p.app.state.watermarks.length,
      p.app.state.watermarks.getD s 0 ≤ (p.act e).app.state.watermarks.getD s 0) <| by
    refine ⟨fun h s => ?_, fun h s _ => h s⟩
    by_cases hs : s < p.app.state.watermarks.length
    · exact h s hs
    · rw [List.getD_eq_getElem?_getD, List.getElem?_eq_none (not_lt.mp hs)]
      exact Nat.zero_le _

instance decidableKeepsNumbers (c : Cluster) : (event : Event) → Decidable (c.KeepsNumbers event)
  | .run n e => inferInstanceAs (Decidable
      (((c.nodes n).app.consensus.role = .leader → (c.nodes n).NeverBack e) ∧
        (c.nodes n).RecoversNew e))
  | .requestVotes _ _ | .sendHeartbeats _ | .fetch _ _ | .serve _ _ | .restart _ _ => .isTrue trivial

/-- What was committed in a term was committed by its leader, which is past it. -/
structure Numbers (mem : Membership) (c : Cluster) : Prop where
  inOrder : ∀ n ∈ mem.peers, (c.nodes n).InOrder
  voted : ∀ n ∈ mem.peers, (c.nodes n).app.consensus.role = .leader →
    ⟨n, n, (c.nodes n).app.consensus.currentTerm⟩ ∈ c.votes
  sent : ∀ m x, (.commit true, m, x) ∈ c.replications → ⟨x, x, m.epoch⟩ ∈ c.votes
  waits : ∀ n ∈ mem.peers, ∀ term, (c.nodes n).election = .electing term →
    (c.nodes n).app.consensus.role ≠ .leader
  none : ∀ n ∈ mem.peers, ∀ term, (c.nodes n).election = .electing term →
    ∀ m, (.commit true, m, n) ∈ c.replications → m.epoch ≠ term
  passed : ∀ n ∈ mem.peers, (c.nodes n).app.consensus.role = .leader →
    ∀ m, (.commit true, m, n) ∈ c.replications → m.epoch = (c.nodes n).app.consensus.currentTerm →
      m.seq ≤ (c.nodes n).app.state.watermark m.shard
  unique : ∀ m m' x x', (.commit true, m, x) ∈ c.replications →
    (.commit true, m', x') ∈ c.replications → m.shard = m'.shard → m.seq = m'.seq →
      m.epoch = m'.epoch → m = m'

theorem commits_runSection {m : Mutation} {x : String}
    (h : (.commit true, m, x) ∈ (c.runSection n e).replications) :
    (.commit true, m, x) ∈ c.replications ∨ x = n ∧ (.commit true, m) ∈ (c.nodes n).sends e := by
  rcases List.mem_append.mp h with hnew | hold
  · obtain ⟨⟨message, m'⟩, hsends, heq⟩ := List.mem_map.mp hnew
    cases heq
    exact Or.inr ⟨rfl, hsends⟩
  · exact Or.inl hold

/-- A commit of this section is in the term of its leader, next before it, and passed after it. -/
theorem Numbers.new_commit (h : Numbers mem c) (hn : n ∈ mem.peers)
    (hnew : (c.nodes n).RecoversNew e) {m : Mutation}
    (hsends : (.commit true, m) ∈ (c.nodes n).sends e) :
    (c.nodes n).app.consensus.role = .leader ∧
      m.epoch = (c.nodes n).app.consensus.currentTerm ∧
      m.seq = (c.nodes n).app.state.watermark m.shard + 1 ∧
      ((c.nodes n).act e).app.state.watermark m.shard = m.seq := by
  obtain ⟨-, -, -, -, -, hrole, hepoch, -⟩ := Process.commit_of_sends hsends
  obtain ⟨hseq, hmemory⟩ := Process.memory_of_commit (h.inOrder n hn) hnew hsends
  refine ⟨hrole, hepoch, hseq, ?_⟩
  show ((c.nodes n).act e).app.state.memory.watermark m.shard = m.seq
  rw [hmemory]
  exact Function.update_self ..

/-- After a section that a leader has begun or ended as the leader. -/
theorem Numbers.voted_runSection (h : Numbers mem c) (hel : Elections mem c) (hn : n ∈ mem.peers)
    (hrole : ((c.nodes n).act e).app.consensus.role = .leader) :
    ⟨n, n, ((c.nodes n).act e).app.consensus.currentTerm⟩ ∈ c.votes := by
  rcases (Process.settles_act (c.nodes n) e).adopts.leads hrole with hsame | ⟨ord, -, helecting⟩
  · rw [hsame] at hrole ⊢
    exact h.voted n hn hrole
  · exact hel.electing n hn _ helecting

theorem Numbers.none_runSection (h : Numbers mem c) (hel : Elections mem c) (hn : n ∈ mem.peers)
    {term : Nat} {m : Mutation}
    (helecting : ((c.nodes n).act e).election = .electing term)
    (hsent : (.commit true, m, n) ∈ (c.runSection n e).replications) : m.epoch ≠ term := by
  rcases commits_runSection hsent with hold | ⟨-, hsends⟩
  · rcases Process.act_electing helecting with hwaits | ⟨-, -, hterm, -⟩
    · exact h.none n hn term hwaits m hold
    · have hbinds := hel.memory _ (h.sent m n hold)
      unfold Binds at hbinds
      dsimp only at hbinds
      omega
  · obtain ⟨ord, _, rfl, -, -, hrole, -⟩ := Process.commit_of_sends hsends
    rcases Process.act_electing helecting with hwaits | ⟨-, ⟨_, _, he⟩, -⟩
    · exact absurd hrole (h.waits n hn term hwaits)
    · cases he

theorem Numbers.passed_runSection (h : Numbers mem c) (hn : n ∈ mem.peers)
    (hkeeps : (c.nodes n).app.consensus.role = .leader → (c.nodes n).NeverBack e)
    (hnew : (c.nodes n).RecoversNew e) (hrole : ((c.nodes n).act e).app.consensus.role = .leader)
    {m : Mutation} (hsent : (.commit true, m, n) ∈ (c.runSection n e).replications)
    (hepoch : m.epoch = ((c.nodes n).act e).app.consensus.currentTerm) :
    m.seq ≤ ((c.nodes n).act e).app.state.watermark m.shard := by
  rcases commits_runSection hsent with hold | ⟨-, hsends⟩
  · rcases (Process.settles_act (c.nodes n) e).adopts.leads hrole with hsame | ⟨ord, -, helecting⟩
    · rw [hsame] at hrole hepoch
      exact (h.passed n hn hrole m hold hepoch).trans (hkeeps hrole m.shard)
    · exact absurd hepoch (h.none n hn _ helecting m hold)
  · exact (h.new_commit hn hnew hsends).2.2.2.ge

theorem Numbers.unique_runSection (h : Numbers mem c) (hel : Elections mem c)
    (hhints : Hints mem c) (hn : n ∈ mem.peers) (hnew : (c.nodes n).RecoversNew e)
    {m m' : Mutation} {x x' : String} (hsent : (.commit true, m, x) ∈ (c.runSection n e).replications)
    (hsent' : (.commit true, m', x') ∈ (c.runSection n e).replications) (hshard : m.shard = m'.shard)
    (hseq : m.seq = m'.seq) (hepoch : m.epoch = m'.epoch) : m = m' := by
  -- a new one is past all that were committed before in the term
  have hlater : ∀ {m m' : Mutation} {x' : String}, (.commit true, m) ∈ (c.nodes n).sends e →
      (.commit true, m', x') ∈ c.replications → m.shard = m'.shard → m.epoch = m'.epoch →
      m'.seq < m.seq := by
    intro m m' x' hsends hold hshard hepoch
    obtain ⟨hrole, hterm, hseq, -⟩ := h.new_commit hn hnew hsends
    have hwon := (hhints.replications _ m' x' hold).2
    rw [← hepoch, hterm] at hwon
    obtain rfl := hel.won_unique hwon (hel.leader n hn hrole)
    have hpassed := h.passed x' hn hrole m' hold (hepoch ▸ hterm)
    rw [hshard] at hseq
    omega
  rcases commits_runSection hsent with hold | ⟨-, hsends⟩
  · rcases commits_runSection hsent' with hold' | ⟨-, hsends'⟩
    · exact h.unique m m' x x' hold hold' hshard hseq hepoch
    · have := hlater hsends' hold hshard.symm hepoch.symm
      omega
  · rcases commits_runSection hsent' with hold' | ⟨-, hsends'⟩
    · have := hlater hsends hold' hshard hepoch
      omega
    · exact Process.commit_unique hsends hsends'

theorem Numbers.runSection (h : Numbers mem c) (hel : Elections mem c) (hhints : Hints mem c)
    (hn : n ∈ mem.peers)
    (hkeeps : (c.nodes n).app.consensus.role = .leader → (c.nodes n).NeverBack e)
    (hnew : (c.nodes n).RecoversNew e) : Numbers mem (c.runSection n e) where
  inOrder x hx := by
    by_cases hxn : x = n
    · rw [hxn, runSection_self]
      exact Process.inOrder_act (h.inOrder n hn) hnew
    · rw [runSection_of_ne hxn]
      exact h.inOrder x hx
  voted x hx hrole := by
    by_cases hxn : x = n
    · subst hxn
      rw [runSection_self] at hrole ⊢
      exact votes_runSection _ (h.voted_runSection hel hn hrole)
    · rw [runSection_of_ne hxn] at hrole ⊢
      exact votes_runSection _ (h.voted x hx hrole)
  sent m x hsent := by
    rcases commits_runSection hsent with hold | ⟨rfl, hsends⟩
    · exact votes_runSection _ (h.sent m x hold)
    · obtain ⟨hrole, hepoch, -⟩ := h.new_commit hn hnew hsends
      rw [hepoch]
      exact votes_runSection _ (h.voted x hn hrole)
  waits x hx term helecting := by
    by_cases hxn : x = n
    · subst hxn
      rw [runSection_self] at helecting ⊢
      exact Process.not_leader_of_electing (h.waits x hx) helecting
    · rw [runSection_of_ne hxn] at helecting ⊢
      exact h.waits x hx term helecting
  none x hx term helecting m hsent := by
    by_cases hxn : x = n
    · subst hxn
      rw [runSection_self] at helecting
      exact h.none_runSection hel hn helecting hsent
    · rw [runSection_of_ne hxn] at helecting
      rcases commits_runSection hsent with hold | ⟨heq, -⟩
      · exact h.none x hx term helecting m hold
      · exact absurd heq hxn
  passed x hx hrole m hsent hepoch := by
    by_cases hxn : x = n
    · subst hxn
      rw [runSection_self] at hrole hepoch ⊢
      exact h.passed_runSection hn hkeeps hnew hrole hsent hepoch
    · rw [runSection_of_ne hxn] at hrole hepoch ⊢
      rcases commits_runSection hsent with hold | ⟨heq, -⟩
      · exact h.passed x hx hrole m hold hepoch
      · exact absurd heq hxn
  unique m m' x x' hsent hsent' hshard hseq hepoch :=
    h.unique_runSection hel hhints hn hnew hsent hsent' hshard hseq hepoch

/-- A node that starts again does not lead, and has no round. -/
theorem Numbers.started (h : Numbers mem c) (hel : Elections mem c) (hn : n ∈ mem.peers) {disk : Disk}
    {app : App} (hboot : boot (c.nodes n).app.config disk = .ok app) :
    Numbers mem (c.started n app) := by
  have hfollows : app.consensus.role ≠ .leader := by
    intro hrole
    refine hel.many ?_
    rw [(boot_ok hboot).2.2] at hrole
    rw [← hel.peers n hn]
    exact (loadConsensusState_eq disk _).2.2 hrole
  refine ⟨fun x hx => ?_, fun x hx hrole => ?_, h.sent, fun x hx term helecting => ?_,
    fun x hx term helecting => ?_, fun x hx hrole => ?_, h.unique⟩
  · by_cases hxn : x = n
    · rw [hxn, started_self]
      exact fun _ hround => by cases hround
    · rw [started_of_ne hxn]
      exact h.inOrder x hx
  · by_cases hxn : x = n
    · rw [hxn, started_self] at hrole
      exact absurd hrole hfollows
    · rw [started_of_ne hxn] at hrole ⊢
      exact h.voted x hx hrole
  · by_cases hxn : x = n
    · rw [hxn, started_self] at helecting
      cases helecting
    · rw [started_of_ne hxn] at helecting ⊢
      exact h.waits x hx term helecting
  · by_cases hxn : x = n
    · rw [hxn, started_self] at helecting
      cases helecting
    · rw [started_of_ne hxn] at helecting
      exact h.none x hx term helecting
  · by_cases hxn : x = n
    · rw [hxn, started_self] at hrole
      exact absurd hrole hfollows
    · rw [started_of_ne hxn] at hrole ⊢
      exact h.passed x hx hrole

theorem Numbers.act (h : Numbers mem c) (hel : Elections mem c) (hhints : Hints mem c) {event : Event}
    (hkeeps : c.KeepsNumbers event) : Numbers mem (c.act mem event) := by
  cases event with
  | run n e =>
    unfold Cluster.act
    dsimp only
    split
    · rename_i hrun
      exact h.runSection hel hhints hrun.1 hkeeps.1 hkeeps.2
    · exact h
  | requestVotes n status =>
    unfold Cluster.act
    dsimp only
    split
    · exact { h with }
    · exact h
  | sendHeartbeats n =>
    unfold Cluster.act
    dsimp only
    split
    · exact { h with }
    · exact h
  | fetch n m =>
    unfold Cluster.act
    dsimp only
    split
    · split
      · exact { h with }
      · exact h
    · exact h
  | serve n ord => exact { h with }
  | restart n disk =>
    unfold Cluster.act
    dsimp only
    split
    · rename_i hcrash
      split
      · rename_i app hboot
        exact h.started hel hcrash.1 hboot
      · exact h
    · exact h

theorem Starts.numbers (h : c.Starts mem) (hmany : mem.peers.length ≠ 1) : Numbers mem c := by
  have hnone : ∀ {sent}, sent ∉ c.replications := fun {sent} hsent => by
    rw [h.replications] at hsent
    cases hsent
  have hwaits : ∀ n ∈ mem.peers, ∀ term, (c.nodes n).election ≠ .electing term := by
    intro n hn term helecting
    rw [(h.nodes n hn).election] at helecting
    cases helecting
  refine ⟨fun n hn round hround => ?_, fun n hn hrole => absurd ?_ hmany,
    fun _ _ hsent => absurd hsent hnone, fun n hn term helecting => absurd helecting (hwaits n hn term),
    fun n hn term helecting => absurd helecting (hwaits n hn term),
    fun _ _ _ _ hsent => absurd hsent hnone, fun _ _ _ _ hsent => absurd hsent hnone⟩
  · rw [(h.nodes n hn).round] at hround
    cases hround
  · obtain ⟨disk, hboot⟩ := (h.nodes n hn).boot
    rw [(boot_ok hboot).2.2] at hrole
    rw [← (h.nodes n hn).peers]
    exact (loadConsensusState_eq disk _).2.2 hrole

/-- In every run in which no leader's watermark goes back, and no recovered record is in its index
already: two committed mutations with one shard, sequence number and term are one, of one leader. -/
theorem commitIds_unique (h : c.Starts mem) (hmany : mem.peers.length ≠ 1) (events : List Event)
    (hkeeps : Along (Cluster.act mem) KeepsNumbers c events) {m m' : Mutation} {x x' : String}
    (hsent : (.commit true, m, x) ∈ (c.acts mem events).replications)
    (hsent' : (.commit true, m', x') ∈ (c.acts mem events).replications) (hshard : m.shard = m'.shard)
    (hseq : m.seq = m'.seq) (hepoch : m.epoch = m'.epoch) : m = m' ∧ x = x' := by
  obtain ⟨hel, hhints, hnumbers⟩ := Along.invariant
    (I := fun c => Elections mem c ∧ Hints mem c ∧ Numbers mem c)
    (fun c event hc hkeeps => ⟨hc.1.act event, hc.2.1.act hc.1 event, hc.2.2.act hc.1 hc.2.1 hkeeps⟩)
    ⟨h.elections hmany, hints_acts h hmany [], h.numbers hmany⟩ hkeeps
  refine ⟨hnumbers.unique m m' x x' hsent hsent' hshard hseq hepoch, ?_⟩
  have hwon := (hhints.replications _ m x hsent).2
  rw [hepoch] at hwon
  exact hel.won_unique hwon (hhints.replications _ m' x' hsent').2

/-! The first node is elected and commits two denials. -/

namespace ThreeNodes

open Process.EarlyClient

def secondRequest : DenyRequest := { request with opId := "op-3", key := "carol" }

def second : Mutation :=
  { reused with
    opId := "op-3"
    commitId := ⟨0, 2, 2, "cluster"⟩
    entry := { reused.entry with keyHash := stableKeyHash "acme" "user" "carol", commitSeq := 2 } }

/-- A client asks for a commit, and one peer answers. -/
def commits (request : DenyRequest) (m : Mutation) : List Event :=
  [.run "node-1" (.client (.deny 100 request)), .run "node-1" (.thread .given 0),
    .run "node-2" (.receiveReplication .prepare m "node-1"), .run "node-2" (.thread .given 0),
    .run "node-2" (.thread .given 0), .run "node-1" (.endRound .given (.ok ()))]

def twoCommits : List Event :=
  ThreeNodes.elected ++
    [.run "node-1" (.election .given false), .run "node-1" (.election .given false)] ++
    commits request reused ++
    [.run "node-2" (.receiveReplication (.commit true) reused "node-1"),
      .run "node-2" (.thread .given 0), .run "node-2" (.thread .given 0)] ++
    commits secondRequest second

end ThreeNodes

open ThreeNodes Process.EarlyClient in
theorem commitIds_unique_twoCommits :
    (.commit true, reused, "node-1") ∈ ((cluster none).acts shared twoCommits).replications ∧
      (.commit true, second, "node-1") ∈ ((cluster none).acts shared twoCommits).replications ∧
      ∀ m x, (.commit true, m, x) ∈ ((cluster none).acts shared twoCommits).replications →
        m.shard = 0 → m.seq = 2 → m.epoch = 2 → m = second ∧ x = "node-1" := by
  have hfirst : (.commit true, reused, "node-1") ∈
      ((cluster none).acts shared twoCommits).replications := by decide +kernel
  have hsecond : (.commit true, second, "node-1") ∈
      ((cluster none).acts shared twoCommits).replications := by decide +kernel
  exact ⟨hfirst, hsecond, fun m x hsent => commitIds_unique (starts none) (by decide) twoCommits
    (by decide +kernel) hsent hsecond⟩

end Cluster

end Globacl
