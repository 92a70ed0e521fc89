import Globacl.Core.Serving

/-!
# Rebuilding a live source (`globacl-core/src/lib/source.rs`)

The three loaders get the mutations of a live source in some order, with or without a snapshot of an
earlier moment and a stream of operations, and give back a source that answers as the live one does.

* `Writes`: the calls of the live source.
* `Rebuilds`: the same content, and the same served mutations above a floor.
* `Represents.rebuilds`: a source that has retained the history above its floor is such a source.
* `loaders_rebuild`: the main result.
-/

namespace Globacl

open Lib

namespace SourceOfTruth

/-- A call that writes to a source, and the mutations that it commits. -/
inductive Writes : SourceOfTruth → List Mutation → SourceOfTruth → Prop
  | commit {st st' : SourceOfTruth} {now : Nat} {request : DenyRequest} {outcome : CommitOutcome}
      (h : st.commit now request = .ok (outcome, st')) :
      Writes st (if outcome.duplicate then [] else [outcome.mutation]) st'
  | commitRule {st st' : SourceOfTruth} {now : Nat} {request : RuleRequest}
      {outcome : CommitOutcome} (h : st.commitRule now request = .ok (outcome, st')) :
      Writes st (if outcome.duplicate then [] else [outcome.mutation]) st'
  | restoreSnapshot {st : SourceOfTruth} {clock : Nat → Nat} {ord : IterOrder}
      {snapshot : Snapshot} {opPrefix : String} {r : Restore}
      (h : st.restoreSnapshot clock ord snapshot opPrefix = .ok r) : Writes st r.mutations r.st

theorem Writes.run {st st' : SourceOfTruth} {ms : List Mutation} (h : Writes st ms st') :
    Run Commits st ms st' := by
  cases h with
  | commit h => exact commit_run h
  | commitRule h => exact commitRule_run h
  | restoreSnapshot h => exact restoreSnapshot_run h

theorem run_of_writes {st st' : SourceOfTruth} {ms : List Mutation} (h : Run Writes st ms st') :
    Run Commits st ms st' := by
  induction h with
  | refl => exact .refl _
  | tail _ hw ih => exact ih.trans hw.run

/-- What was committed stands at the end of the list of mutations. -/
theorem mutations_of_run {st st' : SourceOfTruth} {ms : List Mutation} (h : Run Commits st ms st') :
    st'.mutations = st.mutations ++ ms := by
  induction h with
  | refl => exact (List.append_nil _).symm
  | tail _ hc ih =>
    obtain ⟨m, rfl, -, rfl⟩ := hc
    rw [record_mutations, ih, List.append_assoc]

/-- A source with the content of `st`, which serves of its mutations exactly those above the floor. -/
structure Rebuilds (st : SourceOfTruth) (floor : Nat → Nat) (rebuilt : SourceOfTruth) : Prop
    extends Agrees st rebuilt where
  compacted : ∀ s, rebuilt.compactedWatermark s = floor s
  served : ∀ s fromSeq, rebuilt.mutationsForShard s fromSeq =
    st.mutationsForShard s (max (floor s) fromSeq)

theorem Represents.rebuilds {n : Nat} {st rebuilt : SourceOfTruth} {floor : Nat → Nat}
    (h : Represents n st.mutations st) (hr : Retains n st.mutations rebuilt)
    (hfloor : ∀ s, rebuilt.compactedWatermark s = floor s) : Rebuilds st floor rebuilt where
  toAgrees := h.agrees hr.toRepresents
  compacted := hfloor
  served s fromSeq := by
    rw [mutationsForShard_eq, mutationsForShard_eq, hr.retained, hfloor, h.valid.filter_drop,
      h.valid.filter_seq]

/-- All three loaders rebuild a live source: from all its mutations, from a snapshot of an earlier
moment and the mutations since, and from such a snapshot and the mutations above any floor that is at
or below it. The mutations may come in any order, and the stream of operations may hold any
operations of the source besides those up to the snapshot. -/
theorem loaders_rebuild {shardCount : Nat} {sourceRegion : String} {before since : List Mutation}
    {st₀ st : SourceOfTruth} (h₀ : Run Writes (new shardCount sourceRegion) before st₀)
    (h : Run Writes st₀ since st) (region : String) :
    (∀ l : List Mutation, l.Perm st.mutations →
      ∃ rebuilt, fromMutations shardCount region l = .ok rebuilt ∧ Rebuilds st (fun _ => 0) rebuilt) ∧
    (∀ (ord : IterOrder) (ids l : List Mutation), before ⊆ ids → ids ⊆ st.mutations → l.Perm since →
      ∃ rebuilt, fromSnapshotAndMutations st.shardCount region (st₀.snapshot ord) ids l =
        .ok rebuilt ∧ Rebuilds st st₀.watermark rebuilt) ∧
    ∀ (ord : IterOrder) (ids l : List Mutation) (k : List Nat), before ⊆ ids → ids ⊆ st.mutations →
      k.length = st.shardCount → (∀ s, k.getD s 0 ≤ st₀.watermark s) →
      l.Perm (st.mutations.filter fun m => decide (m.seq > k.getD m.shard 0)) →
      ∃ rebuilt, fromSnapshotAndRetainedHistory st.shardCount region (st₀.snapshot ord) ids l k =
        .ok rebuilt ∧ Rebuilds st (k.getD · 0) rebuilt := by
  have hr₀ : Retains (max shardCount 1) before st₀ := by
    simpa using (retains_new shardCount sourceRegion).run (run_of_writes h₀)
  have hr : Retains (max shardCount 1) (before ++ since) st := hr₀.run (run_of_writes h)
  have hms : st.mutations = before ++ since := by
    rw [mutations_of_run (run_of_writes h), mutations_of_run (run_of_writes h₀)]
    rfl
  rw [← hms] at hr
  have hb : Behind before st.mutations := hms ▸ behind_append before since
  have hid : DistinctOps st.mutations := hr.opIndex.distinctOps
  refine ⟨fun l hl => ?_, fun ord ids l hbefore hids hl => ?_,
    fun ord ids l k hbefore hids hlen hk hl => ?_⟩
  · obtain ⟨rebuilt, hok, hfloor, hret⟩ := fromMutations_ok region hr.valid hid
      fun s => hl.filter _
    exact ⟨rebuilt, hok, hr.rebuilds hret hfloor⟩
  · obtain ⟨rebuilt, hok, hfloor, hret⟩ := @fromSnapshotAndMutations_ok _ region _ _ _ hr₀.toHolds
      ord hr.valid hid hb _ l hids
      (fun s => by rw [hms, shardLog_append, List.drop_left]; exact hl.filter _)
      fun m hm => by
        rw [hms, List.mem_append] at hm
        exact hm.imp (fun hm => hbefore hm) hl.mem_iff.mpr
    rw [hr.shardCount]
    exact ⟨rebuilt, hok, hr.rebuilds hret fun s => (hfloor s).trans (hr₀.watermark s).symm⟩
  · have hcut : ∀ s, (shardLog l s).Perm ((shardLog st.mutations s).drop (k.getD s 0)) := fun s => by
      rw [← hr.valid.filter_seq, ← shardLog_filter_seq st.mutations (k.getD · 0)]
      exact hl.filter _
    obtain ⟨rebuilt, hok, hfloor, hret⟩ := fromSnapshotAndRetainedHistory_ok region hr₀.toHolds ord
      hr.valid hid hb hids hcut
      (fun m hm => by
        by_cases hgt : m.seq > k.getD m.shard 0
        · exact Or.inr (hl.mem_iff.mpr (List.mem_filter.mpr ⟨hm, decide_eq_true hgt⟩))
        · -- what is at or below the floor is at or below the snapshot
          have hle := hk m.shard
          rw [hr₀.watermark] at hle
          exact Or.inl (hbefore (hb.mem hr.valid hm (by omega))))
      (fun s => (hk s).trans (hr₀.watermark s).le) (hlen.trans hr.shardCount) fun s => rfl
    rw [hr.shardCount]
    exact ⟨rebuilt, hok, hr.rebuilds hret hfloor⟩

/-- Two denials, and the source between them. -/
def twoDenials : Result (SourceOfTruth × SourceOfTruth) := do
  let (_, st₀) ← (new 1 "eu").commit 0 (denial "op-1")
  let (_, st) ← st₀.commit 0 (denial "op-2")
  pure (st₀, st)

theorem loaders_rebuild_twoDenials : ∃ st₀ st a b c : SourceOfTruth, st.watermark 0 = 2 ∧
    fromMutations 1 "us" st.mutations.reverse = .ok a ∧ Rebuilds st (fun _ => 0) a ∧
    fromSnapshotAndMutations st.shardCount "us" (st₀.snapshot .given) st.mutations.reverse
      (st.mutations.drop 1) = .ok b ∧ Rebuilds st st₀.watermark b ∧
    fromSnapshotAndRetainedHistory st.shardCount "us" (st₀.snapshot .given) st.mutations
      st.mutations.reverse [0] = .ok c ∧ Rebuilds st ([0].getD · 0) c := by
  have hrun : (twoDenials.map fun (st₀, st) => (st₀.mutations.length, st.shardCount, st.watermark 0,
      decide (st.mutations.filter (fun m => decide (m.seq > [0].getD m.shard 0)) = st.mutations))) =
      .ok (1, 1, 2, true) := by
    decide +kernel
  obtain ⟨⟨_, _⟩, hrun, hres⟩ := map_eq_ok.mp hrun
  simp only [twoDenials, bind_eq_ok] at hrun
  obtain ⟨⟨o₀, st₀⟩, h₀, ⟨o, st⟩, h, hrun⟩ := hrun
  cases hrun
  obtain ⟨hlen, hcount, hw, hall⟩ : st₀.mutations.length = 1 ∧ st.shardCount = 1 ∧
      st.watermark 0 = 2 ∧ decide _ = true := by simpa only [Prod.mk.injEq] using hres
  have hw₀ := Run.single (Writes.commit h₀)
  have hw₁ := Run.single (Writes.commit h)
  have hms₀ := mutations_of_run (run_of_writes hw₀)
  have hms := mutations_of_run (run_of_writes hw₁)
  have hsub := List.subset_append_left st₀.mutations (if o.duplicate then [] else [o.mutation])
  rw [← hms, hms₀] at hsub
  obtain ⟨hfrom, hsnap, hret⟩ := loaders_rebuild hw₀ hw₁ "us"
  obtain ⟨a, ha, hra⟩ := hfrom _ (List.reverse_perm _)
  obtain ⟨b, hb, hrb⟩ := hsnap .given st.mutations.reverse (st.mutations.drop 1)
    (fun m hm => List.mem_reverse.mpr (hsub hm)) (fun m hm => List.mem_reverse.mp hm)
    (.of_eq (by rw [hms, ← hlen, List.drop_left]))
  obtain ⟨c, hc, hrc⟩ := hret .given st.mutations st.mutations.reverse [0] hsub
    (fun _ hm => hm) hcount.symm
    (fun s => by cases s with
      | zero => exact Nat.zero_le _
      | succ s => exact Nat.zero_le _)
    (by rw [of_decide_eq_true hall]; exact List.reverse_perm _)
  exact ⟨st₀, st, a, b, c, hw, ha, hra, hb, hrb, hc, hrc⟩

end SourceOfTruth

end Globacl
