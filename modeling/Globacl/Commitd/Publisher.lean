import Globacl.Commitd.Sync
import Globacl.Relay.Cache

/-!
# The publisher's order (`globacl-commitd/src/app/propagation.rs`)

The publisher of the write leader collects what is new in each shard, sorts it all by the time of
the commit, then the shard, then the sequence number, and hands it to JetStream. A relay takes the
mutations of a shard in the order of their numbers and reports a gap otherwise.

* `shardLog_unpublished_iff`: the sort keeps the order in a shard exactly if the times do not step
  back in it.
* `RelayCache.appliesAll_of`: a relay applies what is numbered from its watermarks.
* `emitsInOrder_iff`: when each shard is handed over in order and without a gap.
-/

namespace Globacl

open Lib

instance : Std.TransCmp comparePublished :=
  (inferInstance : Std.TransCmp (compareLex (compareOn Mutation.committedAtUnix)
    (compareLex (compareOn Mutation.shard) (compareOn Mutation.seq))))

/-- What `publish_committed_mutations` hands to JetStream, in order, if every message is taken. -/
def App.handed (app : App) : List Mutation :=
  if !app.config.publisher || !app.isWriteLeader then [] else app.unpublished

/-- The last number of a shard that was published. -/
def App.published (app : App) (shardId : Nat) : Nat := app.lastPublished.getD shardId 0

/-! ## What a relay applies -/

namespace RelayCache

/-- Each of the mutations is applied, one after the other. -/
def AppliesAll : RelayCache → List Mutation → Prop
  | _, [] => True
  | cache, m :: ms => ∃ cache', cache.apply m = .ok (true, cache') ∧ cache'.AppliesAll ms

/-- A relay applies what is numbered from its watermarks in each shard, in any order of shards. -/
theorem appliesAll_of {ms : List Mutation} {cache : RelayCache}
    (hshard : ∀ m ∈ ms, m.shard < cache.watermarks.length)
    (hseq : ∀ s, ∃ k, (shardLog ms s).map Mutation.seq = List.range' (cache.watermark s + 1) k) :
    cache.AppliesAll ms := by
  induction ms generalizing cache with
  | nil => trivial
  | cons m ms ih =>
    have hlt := hshard m List.mem_cons_self
    have hself : shardLog (m :: ms) m.shard = m :: shardLog ms m.shard :=
      List.filter_cons_of_pos (decide_eq_true rfl)
    obtain ⟨k, hk⟩ := hseq m.shard
    rw [hself, List.map_cons] at hk
    cases k with
    | zero => cases hk
    | succ k =>
      rw [List.range'_succ, List.cons.injEq] at hk
      refine ⟨cache.push m, ?_, ih (fun m' hm' => ?_) fun s => ?_⟩
      · unfold apply
        rw [if_neg (by omega), if_neg (by omega), if_neg (not_not.mpr hk.1)]
      · show m'.shard < (cache.watermarks.set m.shard m.seq).length
        rw [List.length_set]
        exact hshard m' (List.mem_cons_of_mem m hm')
      · rw [push_watermark hlt]
        by_cases hs : s = m.shard
        · subst hs
          rw [if_pos rfl, hk.1]
          exact ⟨k, hk.2⟩
        · rw [if_neg hs]
          have hother : shardLog (m :: ms) s = shardLog ms s :=
            List.filter_cons_of_neg (by simp [Ne.symm hs])
          rw [← hother]
          exact hseq s

end RelayCache

/-! ## What the publisher collects -/

section Collected

variable {app : App} {s : Nat}

/-- The segments of the shards one after the other, and what of them is of one shard. -/
theorem shardLog_flatMap_range {segments : Nat → List Mutation}
    (h : ∀ i, ∀ m ∈ segments i, m.shard = i) (n s : Nat) :
    shardLog ((List.range n).flatMap segments) s = if s < n then segments s else [] := by
  induction n with
  | zero => rfl
  | succ n ih =>
    rw [List.range_succ, List.flatMap_append, List.flatMap_singleton, shardLog, List.filter_append,
      ← shardLog, ih]
    by_cases hs : s = n
    · subst hs
      rw [if_neg (Nat.lt_irrefl s), if_pos (Nat.lt_succ_self s), List.nil_append,
        List.filter_eq_self.mpr fun m hm => decide_eq_true (h s m hm)]
    · have hnone : (segments n).filter (fun m => decide (m.shard = s)) = [] :=
        List.filter_eq_nil_iff.mpr fun m hm => by
          rw [h n m hm, decide_eq_true_eq]
          exact Ne.symm hs
      rw [hnone, List.append_nil]
      by_cases hlt : s < n
      · rw [if_pos hlt, if_pos (by omega)]
      · rw [if_neg hlt, if_neg (by omega)]

theorem shard_of_mem_mutationsForShard {st : SourceOfTruth} {shardId fromSeq : Nat} {m : Mutation}
    (h : m ∈ st.mutationsForShard shardId fromSeq) : m.shard = shardId ∧ m ∈ st.mutations := by
  unfold SourceOfTruth.mutationsForShard at h
  rw [List.mem_filter, Bool.and_eq_true, decide_eq_true_eq] at h
  exact ⟨h.2.1, h.1⟩

/-- What is new in a shard, as it stands before the sort. -/
theorem shardLog_collected (hs : s < app.state.shardCount) :
    shardLog ((List.range app.state.shardCount).flatMap fun shardId =>
      app.state.mutationsForShard shardId (app.lastPublished.getD shardId 0)) s =
        app.state.mutationsForShard s (app.published s) := by
  rw [shardLog_flatMap_range fun i m hm => (shard_of_mem_mutationsForShard hm).1, if_pos hs]
  rfl

theorem comparePublished_iff {a b : Mutation} (hshard : a.shard = b.shard) (hseq : a.seq < b.seq) :
    comparePublished a b ≠ .gt ↔ a.committedAtUnix ≤ b.committedAtUnix := by
  have hlt : compare a.seq b.seq = .lt := Nat.compare_eq_lt.mpr hseq
  have hthen : (compare a.shard b.shard).then (compare a.seq b.seq) = .lt := by
    rw [hshard, hlt, Nat.compare_eq_eq.mpr rfl]
    rfl
  unfold comparePublished
  rw [hthen]
  by_cases hle : a.committedAtUnix ≤ b.committedAtUnix
  · refine iff_of_true ?_ hle
    rcases Nat.lt_or_eq_of_le hle with h | h
    · rw [Nat.compare_eq_lt.mpr h]
      decide
    · rw [Nat.compare_eq_eq.mpr h]
      decide
  · refine iff_of_false ?_ hle
    rw [Nat.compare_eq_gt.mpr (Nat.lt_of_not_le hle)]
    decide

/-- The publisher keeps the order of a shard exactly if the times of what is new do not step back. -/
theorem shardLog_unpublished_iff (h : app.state.Contiguous) (hs : s < app.state.shardCount) :
    shardLog app.unpublished s = app.state.mutationsForShard s (app.published s) ↔
      (app.state.mutationsForShard s (app.published s)).Pairwise fun a b =>
        a.committedAtUnix ≤ b.committedAtUnix := by
  have hcollected := shardLog_collected hs
  have hascending : (app.state.mutationsForShard s (app.published s)).Pairwise fun a b =>
      a.seq < b.seq := by
    rw [← List.pairwise_map, h.map_seq_mutationsForShard]
    exact List.pairwise_lt_range'
  unfold shardLog at hcollected
  rw [shardLog, App.unpublished, ← hcollected, filter_sortBy_eq_iff, hcollected]
  constructor
  · intro hsorted
    refine (hsorted.and hascending).imp_of_mem fun ha hb hab => ?_
    have hshard := (shard_of_mem_mutationsForShard ha).1.trans
      (shard_of_mem_mutationsForShard hb).1.symm
    exact (comparePublished_iff hshard hab.2).mp hab.1
  · intro htimes
    refine (htimes.and hascending).imp_of_mem fun ha hb hab => ?_
    have hshard := (shard_of_mem_mutationsForShard ha).1.trans
      (shard_of_mem_mutationsForShard hb).1.symm
    exact (comparePublished_iff hshard hab.2).mpr hab.1

end Collected

/-! ## What a pass hands over -/

namespace App

/-- The cache of a relay has the shards of the source, and stands where the publisher does. -/
structure Matches (app : App) (cache : RelayCache) : Prop where
  shards : cache.watermarks.length = app.state.shardCount
  watermark : ∀ s < app.state.shardCount, cache.watermark s = app.published s

/-- Each shard is handed over once and in order, from what was published up to the watermark. A relay
that stands where the publisher does applies it all, in whatever order the shards come. -/
structure EmitsInOrder (app : App) : Prop where
  exact : ∀ s < app.state.shardCount, (shardLog app.handed s).map Mutation.seq =
    List.range' (app.published s + 1) (app.state.watermark s - app.published s)
  known : ∀ m ∈ app.handed, m ∈ app.state.mutations
  applied : ∀ cache, app.Matches cache → ∀ received : List Mutation,
    (∀ s, shardLog received s = shardLog app.handed s) → cache.AppliesAll received

/-- Nothing above what was published is compacted away, and the times of what is new in a shard do
not step back. -/
def Steady (app : App) : Prop :=
  ∀ s < app.state.shardCount, app.state.compactedWatermark s ≤ app.published s ∧
    (app.state.mutationsForShard s (app.published s)).Pairwise fun a b =>
      a.committedAtUnix ≤ b.committedAtUnix

instance (app : App) : Decidable app.Steady :=
  inferInstanceAs (Decidable (∀ s < app.state.shardCount, _ ∧ _))

variable {app : App}

theorem shard_of_mem_unpublished {m : Mutation} (h : m ∈ app.unpublished) :
    m.shard < app.state.shardCount ∧ m ∈ app.state.mutations := by
  rw [unpublished, mem_sortBy, List.mem_flatMap] at h
  obtain ⟨s, hs, hm⟩ := h
  obtain ⟨rfl, hmem⟩ := shard_of_mem_mutationsForShard hm
  exact ⟨List.mem_range.mp hs, hmem⟩

theorem Steady.emitsInOrder (hst : app.state.Contiguous) (hhanded : app.handed = app.unpublished)
    (h : app.Steady) : app.EmitsInOrder := by
  have hexact : ∀ s < app.state.shardCount, (shardLog app.handed s).map Mutation.seq =
      List.range' (app.published s + 1) (app.state.watermark s - app.published s) := by
    intro s hs
    obtain ⟨hcompacted, htimes⟩ := h s hs
    rw [hhanded, (shardLog_unpublished_iff hst hs).mpr htimes, hst.map_seq_mutationsForShard,
      Nat.max_eq_right hcompacted]
  refine ⟨hexact, fun m hm => ?_, fun cache hcache received hreceived => ?_⟩
  · rw [hhanded] at hm
    exact (shard_of_mem_unpublished hm).2
  · have hmem : ∀ m ∈ received, m.shard < app.state.shardCount := by
      intro m hm
      have hself : m ∈ shardLog received m.shard := mem_shardLog.mpr ⟨hm, rfl⟩
      rw [hreceived, hhanded] at hself
      exact (shard_of_mem_unpublished (mem_shardLog.mp hself).1).1
    refine RelayCache.appliesAll_of (fun m hm => ?_) fun s => ?_
    · rw [hcache.shards]
      exact hmem m hm
    · by_cases hs : s < app.state.shardCount
      · rw [hreceived, hcache.watermark s hs]
        exact ⟨_, hexact s hs⟩
      · refine ⟨0, ?_⟩
        have hnone : shardLog received s = [] := List.filter_eq_nil_iff.mpr fun m hm => by
          rw [decide_eq_true_eq]
          rintro rfl
          exact hs (hmem m hm)
        rw [hnone]
        rfl

theorem EmitsInOrder.steady (hst : app.state.Contiguous) (hhanded : app.handed = app.unpublished)
    (h : app.EmitsInOrder) : app.Steady := by
  intro s hs
  have hexact := h.exact s hs
  have hascending : ∀ {l : List Mutation} {a k : Nat}, l.map Mutation.seq = List.range' a k →
      l.Pairwise fun a b => a.seq < b.seq := fun hl => by
    rw [← List.pairwise_map, hl]
    exact List.pairwise_lt_range'
  have hnew := hst.map_seq_mutationsForShard s (app.published s)
  have hcollected := @shardLog_collected app s hs
  have hperm : (shardLog app.handed s).Perm (app.state.mutationsForShard s (app.published s)) := by
    rw [← hcollected, hhanded]
    exact (sortBy_perm _ _).filter _
  have hle := hst.compacted s
  constructor
  · -- the numbers that are compacted away are missing
    have hlen := (hperm.map Mutation.seq).length_eq
    rw [hexact, hnew, List.length_range', List.length_range'] at hlen
    omega
  · rw [← shardLog_unpublished_iff hst hs, ← hhanded]
    exact hperm.eq_of_pairwise (fun a b _ _ hab hba => absurd hab (by omega)) (hascending hexact)
      (hascending hnew)

end App

/-- The publisher of a write leader, in any reachable state and with any offsets, hands over each
shard in order and without a gap exactly if nothing above its offset is compacted away and the times
of what is new do not step back. -/
theorem emitsInOrder_iff {app : App} {st₀ : SourceOfTruth} (hb : SourceOfTruth.Built st₀)
    (hr : Relation.ReflTransGen SourceOfTruth.Call st₀ app.state)
    (hpublisher : app.config.publisher = true) (hleader : app.isWriteLeader = true) :
    app.EmitsInOrder ↔ app.Steady := by
  have hst := SourceOfTruth.contiguous_of_reachable hb hr
  have hhanded : app.handed = app.unpublished := by
    rw [App.handed, hpublisher, hleader]
    rfl
  exact ⟨fun h => h.steady hst hhanded, fun h => h.emitsInOrder hst hhanded⟩

/-! A single node with a publisher that commits two denials. -/

namespace TwoDenials

def committed (st : SourceOfTruth) (now : Nat) (opId : String) : SourceOfTruth :=
  st.after ((st.commit now (SourceOfTruth.denial opId)).map Prod.snd)

def source (first second : Nat) : SourceOfTruth :=
  committed (committed (SourceOfTruth.new 1 "local") first "op-1") second "op-2"

theorem call_committed (st : SourceOfTruth) (now : Nat) (opId : String) :
    SourceOfTruth.Call st (committed st now opId) :=
  .commit now (SourceOfTruth.denial opId)

def app (first second : Nat) : App where
  config :=
    { shardCount := 1, replication := ⟨"cluster", "node-1", none, ["node-1"], 1⟩,
      minLogEntries := 10000, compactOnStartup := true, publisher := true }
  state := source first second
  consensus := ⟨1, none, .leader, some "node-1"⟩
  lastPublished := [0]
  disk := Disk.empty

theorem reachable (first second : Nat) :
    Relation.ReflTransGen SourceOfTruth.Call (SourceOfTruth.new 1 "local")
      (app first second).state := by
  have hfirst := call_committed (SourceOfTruth.new 1 "local") first "op-1"
  have hsecond := call_committed (committed (SourceOfTruth.new 1 "local") first "op-1") second "op-2"
  simp only [app, source]
  exact (Relation.ReflTransGen.single hfirst).tail hsecond

end TwoDenials

theorem emitsInOrder_forward : (TwoDenials.app 100 110).EmitsInOrder := by
  have hsteady : (TwoDenials.app 100 110).Steady := by decide +kernel
  exact (emitsInOrder_iff (.new 1 "local") (TwoDenials.reachable 100 110) rfl rfl).mpr hsteady

/-- The clock steps back between the two commits: the second is handed over first, and the relay
reports a gap. -/
theorem not_emitsInOrder :
    (TwoDenials.app 100 90).handed.map (fun m => (m.shard, m.seq)) = [(0, 2), (0, 1)] ∧
      (TwoDenials.app 100 90).handed.head?.map (fun m =>
        ((RelayCache.new [0]).apply m).map fun r => r.2.watermarks) = some (.error (.gap 0 1 2)) ∧
      ¬(TwoDenials.app 100 90).EmitsInOrder := by
  have hhanded : (TwoDenials.app 100 90).handed.map (fun m => (m.shard, m.seq)) =
      [(0, 2), (0, 1)] := by decide +kernel
  refine ⟨hhanded, by decide +kernel, fun h => ?_⟩
  have hexact := h.exact 0 (by decide +kernel)
  exact absurd hexact (by decide +kernel)

end Globacl
