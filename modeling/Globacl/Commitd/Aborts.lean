import Globacl.Commitd.Sections

/-!
# What an abort removes (`globacl-commitd/src/app/commit.rs`, `storage.rs`)

A pending record is named by its slot, and a leader gives a slot away again after a prepare round
that failed. An abort is sent without waiting for an answer, so it may come after the prepare of the
next mutation of its slot. It passes the same checks of the term and the leader, and removes
whatever record has the name.

* `RemovesOnly`: no record but the mutation is gone from a pending directory.
* `abort_removesOnly_iff`: when this is so for an abort that is accepted.
* `Process.actThread_removesOnly_iff`: the same for its last section, whatever ran before it.
-/

namespace Globacl

open Lib Prog

/-- `prepare_replicated_mutation_from_leader`. -/
def prepareReplicatedMutationFromLeader (m : Mutation) (leaderId : String) : Program Unit := do
  let _ ← receiveReplication .prepare m leaderId
  let _ ← checkMutationTerm .prepare m
  prepareLocked m

/-- `abort_replicated_mutation_from_leader`. -/
def abortReplicatedMutationFromLeader (m : Mutation) (leaderId : String) : Program Unit := do
  let app ← get
  lift (ensureSameCluster app.config.replication m)
  let cs ← lift (ensureReplicationLeader app.config.replication app.consensus m leaderId)
  setConsensus cs
  removePendingMutation m

/-- Every record of the directory `before` that is not `m` is still there. -/
def RemovesOnly (m : Mutation) (before after : HashMap (Nat × Nat) Mutation) : Prop :=
  ∀ slot record, before.lookup slot = some record → record ≠ m → after.lookup slot = some record

section Abort

variable {m : Mutation} {leaderId : String} {app : App}

/-- To remove what has the name of `m` removes only `m` when nothing else has that name. -/
theorem removesOnly_erase_iff {pending : HashMap (Nat × Nat) Mutation} :
    RemovesOnly m pending (pending.erase m.slot) ↔
      ∀ record, pending.lookup m.slot = some record → record = m := by
  constructor
  · intro h record hrecord
    by_contra hne
    have hleft := h m.slot record hrecord hne
    rw [HashMap.lookup_erase_eq, if_pos rfl] at hleft
    cases hleft
  · intro h slot record hrecord hne
    rw [HashMap.lookup_erase_eq]
    split
    · subst_vars
      exact absurd (h record hrecord) hne
    · exact hrecord

/-- The handler of an abort runs its sections one after the other. -/
theorem abortReplicatedMutationFromLeader_sections (m : Mutation) (leaderId : String) (app : App) :
    abortReplicatedMutationFromLeader m leaderId app =
      (receiveReplication .abort m leaderId >>= fun _ => removePendingMutation m) app := by
  unfold abortReplicatedMutationFromLeader receiveReplication
  rw [bind_assoc]
  refine bind_congr fun app' happ => ?_
  rw [bind_assoc]
  refine bind_congr fun _ _ => ?_
  rw [bind_assoc]
  refine bind_congr fun _ _ => ?_
  rw [bind_assoc]
  rfl

/-- The first section leaves the pending directory alone. -/
theorem receiveReplication_pending (message : Replication) (m : Mutation) (leaderId : String)
    (app : App) :
    (receiveReplication message m leaderId app).final.disk.pending = app.disk.pending := by
  have hsame : Respects (fun app app' : App => app'.disk.pending = app.disk.pending)
      (receiveReplication message m leaderId) := by
    refine .get_bind fun _ => .bind (.lift _) fun _ => .bind (.lift _) fun _ => .bind ?_ fun _ =>
      .pure _
    exact .bind (.step fun _ _ h => h) fun _ => .step fun _ _ h => h
  exact hsame.final (fun _ => rfl) app

theorem abortReplicatedMutationFromLeader_pending
    (h : (abortReplicatedMutationFromLeader m leaderId app).result = .ok ()) :
    (abortReplicatedMutationFromLeader m leaderId app).final.disk.pending =
      app.disk.pending.erase m.slot := by
  rw [abortReplicatedMutationFromLeader_sections] at h ⊢
  obtain ⟨thread, -, -, hfinal⟩ := bind_ok h
  rw [hfinal, ← receiveReplication_pending .abort m leaderId app]
  rfl

/-- An accepted abort removes only its mutation exactly when no other record is in its slot. -/
theorem abort_removesOnly_iff
    (h : (abortReplicatedMutationFromLeader m leaderId app).result = .ok ()) :
    RemovesOnly m app.disk.pending
        (abortReplicatedMutationFromLeader m leaderId app).final.disk.pending ↔
      ∀ record, app.disk.pending.lookup m.slot = some record → record = m := by
  rw [abortReplicatedMutationFromLeader_pending h]
  exact removesOnly_erase_iff

/-- The last section of an abort finds the directory as the other threads left it. -/
theorem Process.actThread_removesOnly_iff (ord : IterOrder) (p : Process) :
    RemovesOnly m p.app.disk.pending
        (p.actThread ord (.replication .abort m)).app.disk.pending ↔
      ∀ record, p.app.disk.pending.lookup m.slot = some record → record = m :=
  removesOnly_erase_iff

end Abort

/-! A leader gives the first slot of a shard away twice in a term. A follower that got the second
prepare gets the abort of the first. -/

namespace LateAbort

def denial (opId : String) (keyHash : UInt64) : Mutation where
  opId := opId
  commitId := ⟨0, 1, 1, "cluster"⟩
  entry := ⟨"acme", "users", keyHash, .deny, 10, "abuse", 0, "ops", 1, 0⟩
  rule := none
  deliveryPriority := .p0
  committedAtUnix := 100

def aborted : Mutation := denial "op-1" 1

def prepared : Mutation := denial "op-2" 2

def fresh : App where
  config := ⟨1, ⟨"cluster", "n2", some "n1", ["n1", "n2", "n3"], 2⟩, 0, false, false⟩
  state := .new 1 "cluster"
  consensus := ⟨1, none, .follower, some "n1"⟩
  lastPublished := []
  disk := .empty

/-- The follower after the second prepare. -/
def follower : App := (prepareReplicatedMutationFromLeader prepared "n1" fresh).final

theorem accepts (m : Mutation) (h : m = aborted ∨ m = prepared) :
    (abortReplicatedMutationFromLeader m "n1" follower).result = .ok () := by
  rcases h with rfl | rfl <;> rfl

end LateAbort

open LateAbort in
theorem abort_removesOnly_iff_prepared :
    RemovesOnly prepared follower.disk.pending
      (abortReplicatedMutationFromLeader prepared "n1" follower).final.disk.pending := by
  refine (abort_removesOnly_iff (accepts prepared (Or.inr rfl))).mpr fun record h => ?_
  have hstored : follower.disk.pending.lookup prepared.slot = some prepared := rfl
  exact Option.some.inj (h.symm.trans hstored)

open LateAbort in
theorem not_abort_removesOnly :
    ¬∀ (m : Mutation) (leaderId : String) (app : App),
      (abortReplicatedMutationFromLeader m leaderId app).result = .ok () →
      RemovesOnly m app.disk.pending
        (abortReplicatedMutationFromLeader m leaderId app).final.disk.pending := by
  intro h
  have hstored : follower.disk.pending.lookup (0, 1) = some prepared := rfl
  have hleft := h aborted "n1" follower (accepts aborted (Or.inl rfl)) (0, 1) prepared hstored
    (by decide)
  have hgone : (abortReplicatedMutationFromLeader aborted "n1" follower).final.disk.pending.lookup
      (0, 1) = none := rfl
  rw [hgone] at hleft
  cases hleft

end Globacl
