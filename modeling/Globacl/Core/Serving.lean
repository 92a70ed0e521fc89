import Globacl.Core.Loading

/-!
# The history that a source serves (`globacl-core/src/lib/source.rs`)

A source keeps the mutations of all shards in one list, from which compactions take away the oldest.
What it serves to a reader who is above the compacted watermark has no holes, whatever happened to the
source before. The sequence numbers here do not wrap (`LoadedSource.serves_iff` says what becomes of it
where they do).

* `Contiguous`: the invariant. `Contiguous.record` and the lemmas around it: what each operation and
  each loader makes of it.
* `Built`, `Call`: everything that a loader builds and calls change, whether they succeed or not.
* `contiguous_of_reachable`: the main result.
-/

namespace Globacl

open Lib

namespace SourceOfTruth

/-- The mutations of each shard carry the numbers from the compacted watermark to the watermark, in
order. -/
structure Contiguous (st : SourceOfTruth) : Prop where
  compacted : ∀ s, st.compactedWatermark s ≤ st.watermark s
  numbered : ∀ s, (shardLog st.mutations s).map Mutation.seq =
    List.range' (st.compactedWatermark s + 1) (st.watermark s - st.compactedWatermark s)

/-- What is above a number of a gapless range is a gapless range. -/
theorem filter_range' (c f k : Nat) : (List.range' (c + 1) k).filter (fun i => decide (i > f)) =
    List.range' (max c f + 1) (c + k - max c f) := by
  induction k with
  | zero =>
    rw [show c + 0 - max c f = 0 by omega]
    rfl
  | succ k ih =>
    rw [List.range'_1_concat, List.filter_append, ih, List.filter_singleton]
    by_cases hf : f < c + 1 + k
    · rw [decide_eq_true hf, show c + (k + 1) - max c f = c + k - max c f + 1 by omega,
        List.range'_1_concat, cond_true, show max c f + 1 + (c + k - max c f) = c + 1 + k by omega]
    · rw [decide_eq_false hf, show c + k - max c f = 0 by omega, show c + (k + 1) - max c f = 0 by omega]
      rfl

/-- A reader gets what is above its number in the log of the shard. -/
theorem mutationsForShard_eq (st : SourceOfTruth) (shardId fromSeq : Nat) :
    st.mutationsForShard shardId fromSeq =
      (shardLog st.mutations shardId).filter fun m => decide (m.seq > fromSeq) := by
  rw [mutationsForShard, shardLog, List.filter_filter]
  exact List.filter_congr fun m _ => Bool.and_comm _ _

section Contiguous

variable {st st' : SourceOfTruth} {m : Mutation}

/-- The next mutation of a shard at the end of the list. -/
theorem Contiguous.extend (h : Contiguous st) (hseq : m.seq = st.watermark m.shard + 1)
    (hw : ∀ s, st'.watermark s = if s = m.shard then m.seq else st.watermark s)
    (hc : st'.compactedWatermarks = st.compactedWatermarks)
    (hms : st'.mutations = st.mutations ++ [m]) : Contiguous st' := by
  have hcomp : ∀ s, st'.compactedWatermark s = st.compactedWatermark s := fun s => by
    rw [compactedWatermark, hc, compactedWatermark]
  refine ⟨fun s => ?_, fun s => ?_⟩
  · have := h.compacted s
    rw [hcomp, hw]
    split
    · subst_vars; omega
    · exact this
  · have hle := h.compacted s
    rw [hms, shardLog_concat, List.map_append, h.numbered, hcomp, hw]
    by_cases hs : s = m.shard
    · subst hs
      rw [if_pos rfl, if_pos rfl, hseq, show st.watermark m.shard + 1 - st.compactedWatermark m.shard =
        st.watermark m.shard - st.compactedWatermark m.shard + 1 by omega, List.range'_1_concat,
        List.map_singleton, hseq]
      congr 2
      omega
    · rw [if_neg (Ne.symm hs), if_neg hs]
      exact List.append_nil _

theorem Contiguous.of_alike (h : Contiguous st) (ha : Alike st st')
    (hc : st'.compactedWatermarks = st.compactedWatermarks) (hms : st'.mutations = st.mutations) :
    Contiguous st' := by
  have hcomp : ∀ s, st'.compactedWatermark s = st.compactedWatermark s := fun s => by
    rw [compactedWatermark, hc, compactedWatermark]
  refine ⟨fun s => ?_, fun s => ?_⟩
  · rw [hcomp, ha.watermark]
    exact h.compacted s
  · rw [hcomp, ha.watermark, hms]
    exact h.numbered s

theorem Contiguous.record (h : Contiguous st) (hn : st.Next m) : Contiguous (st.record m) :=
  h.extend hn.seq (record_watermark st hn.shard_lt) rfl rfl

theorem Contiguous.commits {ms : List Mutation} (h : Contiguous st) (hc : Commits st ms st') :
    Contiguous st' := by
  obtain ⟨m, -, hn, rfl⟩ := hc
  exact h.record hn

theorem Contiguous.applyReplicatedMutation {status : ApplyStatus} (h : Contiguous st)
    (hr : st.applyReplicatedMutation m = .ok (status, st')) : Contiguous st' := by
  unfold SourceOfTruth.applyReplicatedMutation at hr
  split at hr
  · split at hr
    · cases hr; exact h
    · cases hr
  split at hr
  · cases hr
  split at hr
  · split at hr
    · cases hr; exact h
    · cases hr
  split at hr
  · cases hr
  · rename_i st₁ hc
    cases hr
    obtain ⟨hlt, hseq, rfl⟩ := applyCommittedMutation_ok.mp hc
    exact h.extend hseq (advance_watermark st m hlt) rfl rfl

theorem insertOpIndex_kept (hi : st.insertOpIndex m = .ok st') :
    st'.compactedWatermarks = st.compactedWatermarks ∧ st'.mutations = st.mutations := by
  unfold insertOpIndex at hi
  split at hi
  · split at hi
    · cases hi; exact ⟨rfl, rfl⟩
    · cases hi
  · cases hi; exact ⟨rfl, rfl⟩

theorem applyLoadedMutation_spec (hl : st.applyLoadedMutation m = .ok st') :
    m.seq = st.watermark m.shard + 1 ∧ st'.shardCount = st.shardCount ∧
      (∀ s, st'.watermark s = if s = m.shard then m.seq else st.watermark s) ∧
      st'.compactedWatermarks = st.compactedWatermarks ∧ st'.mutations = st.mutations ++ [m] := by
  simp only [SourceOfTruth.applyLoadedMutation, bind_eq_ok] at hl
  obtain ⟨st₁, h₁, st₂, h₂, h₃⟩ := hl
  obtain ⟨hlt, hseq, rfl⟩ := applyCommittedMutation_ok.mp h₁
  cases h₃
  have ha := alike_insertOpIndex h₂
  have hkept := insertOpIndex_kept h₂
  refine ⟨hseq, ha.shardCount, fun s => ?_, hkept.1, congrArg (· ++ [m]) hkept.2⟩
  exact (ha.watermark s).trans (advance_watermark st m hlt s)

theorem Contiguous.applyLoadedMutation (h : Contiguous st)
    (hl : st.applyLoadedMutation m = .ok st') : Contiguous st' := by
  obtain ⟨hseq, -, hw, hc, hms⟩ := applyLoadedMutation_spec hl
  exact h.extend hseq hw hc hms

theorem Contiguous.compactMutationHistory {watermarks : List Nat} (h : Contiguous st)
    (hc : st.compactMutationHistory watermarks = .ok st') : Contiguous st' := by
  obtain ⟨hle, ha, -, hcomp, hms⟩ := compactMutationHistory_ok hc
  refine ⟨fun s => ?_, fun s => ?_⟩
  · rw [hcomp, ha.watermark]
    exact Nat.max_le.mpr ⟨h.compacted s, hle s⟩
  · have hcs := h.compacted s
    have hfilter : ∀ l : List Mutation, (l.filter fun m => decide (m.seq > watermarks.getD s 0)).map
        Mutation.seq = (l.map Mutation.seq).filter fun i => decide (i > watermarks.getD s 0) :=
      fun l => by rw [List.filter_map]; rfl
    rw [hms, shardLog_filter_seq st.mutations (watermarks.getD · 0), hfilter, h.numbered,
      filter_range', hcomp, ha.watermark]
    congr 1
    omega

theorem contiguous_new (shardCount : Nat) (sourceRegion : String) :
    Contiguous (new shardCount sourceRegion) where
  compacted s := Nat.le_refl _
  numbered s := by
    rw [show (new shardCount sourceRegion).watermark s - (new shardCount sourceRegion).compactedWatermark s
      = 0 from Nat.sub_self _]
    rfl

/-- A snapshot comes without mutations. -/
theorem contiguous_ofSnapshot {n : Nat} {sourceRegion : String} {snapshot : Snapshot} {hpos : 0 < n}
    {hlen : snapshot.watermarks.length = n} :
    Contiguous (ofSnapshot n sourceRegion snapshot snapshot.watermarks hpos hlen hlen) where
  compacted s := Nat.le_refl _
  numbered s := by
    rw [watermark, compactedWatermark, show (ofSnapshot n sourceRegion snapshot snapshot.watermarks hpos
      hlen hlen).watermarks = (ofSnapshot n sourceRegion snapshot snapshot.watermarks hpos hlen
        hlen).compactedWatermarks from rfl, Nat.sub_self]
    rfl

theorem Contiguous.foldlM_insertOpIndex {l : List Mutation} (h : Contiguous st)
    (hf : l.foldlM insertOpIndex st = .ok st') : Contiguous st' :=
  foldlM_invariant (p := Contiguous) (fun _ _ _ _ hs hi => hs.of_alike (alike_insertOpIndex hi)
    (insertOpIndex_kept hi).1 (insertOpIndex_kept hi).2) h hf

theorem Contiguous.foldlM_applyLoadedMutation {l : List Mutation} (h : Contiguous st)
    (hf : l.foldlM SourceOfTruth.applyLoadedMutation st = .ok st') : Contiguous st' :=
  foldlM_invariant (p := Contiguous) (fun _ _ _ _ hs hl => hs.applyLoadedMutation hl) h hf

/-- The state of the loop over retained mutations: the mutations so far carry the numbers from the
compacted watermark to the number that was seen last. -/
structure Retaining (n : Nat) (acc : SourceOfTruth × List Nat) : Prop where
  shardCount : acc.1.shardCount = n
  length : acc.2.length = n
  compacted : ∀ s, acc.1.compactedWatermark s ≤ acc.2.getD s 0
  reached : ∀ s, acc.2.getD s 0 ≤ acc.1.watermark s
  numbered : ∀ s, (shardLog acc.1.mutations s).map Mutation.seq =
    List.range' (acc.1.compactedWatermark s + 1) (acc.2.getD s 0 - acc.1.compactedWatermark s)

theorem Retaining.retainMutation {n : Nat} {acc acc' : SourceOfTruth × List Nat}
    (h : Retaining n acc) (hr : SourceOfTruth.retainMutation acc m = .ok acc') :
    Retaining n acc' := by
  obtain ⟨st, e⟩ := acc
  unfold SourceOfTruth.retainMutation at hr
  dsimp only at hr
  split at hr
  · cases hr
  rename_i hshard
  split at hr
  · cases hr
  rename_i hseq
  rw [not_not] at hseq
  have hcount := h.shardCount
  have hlen := h.length
  dsimp only at hcount hlen
  have hset := fun s => congrFun (getD_set_eq e (i := m.shard) (by omega) m.seq) s
  -- either way one mutation is pushed, and the watermark reaches it
  have hpush : ∀ {st₁ : SourceOfTruth}, st₁.shardCount = st.shardCount →
      st₁.compactedWatermarks = st.compactedWatermarks → st₁.mutations = st.mutations ++ [m] →
      (∀ s, st.watermark s ≤ st₁.watermark s) → m.seq ≤ st₁.watermark m.shard →
      Retaining n (st₁, e.set m.shard m.seq) := by
    intro st₁ hcount₁ hc hms hw hwm
    have hcomp : ∀ s, st₁.compactedWatermark s = st.compactedWatermark s := fun s => by
      rw [compactedWatermark, hc, compactedWatermark]
    refine ⟨hcount₁.trans hcount, (List.length_set ..).trans hlen, fun s => ?_, fun s => ?_, fun s => ?_⟩
    · have := h.compacted s
      dsimp only at this ⊢
      rw [hcomp, hset]
      by_cases hs : s = m.shard
      · subst hs; rw [Function.update_self]; omega
      · rw [Function.update_of_ne hs]; exact this
    · have := h.reached s
      dsimp only at this ⊢
      rw [hset]
      by_cases hs : s = m.shard
      · subst hs; rw [Function.update_self]; exact hwm
      · rw [Function.update_of_ne hs]; exact this.trans (hw s)
    · have hcs := h.compacted s
      have hnum := h.numbered s
      dsimp only at hcs hnum ⊢
      rw [hms, shardLog_concat, List.map_append, hnum, hcomp, hset]
      by_cases hs : s = m.shard
      · subst hs
        rw [if_pos rfl, Function.update_self, hseq, show e.getD m.shard 0 + 1 -
          st.compactedWatermark m.shard = e.getD m.shard 0 - st.compactedWatermark m.shard + 1 by omega,
          List.range'_1_concat, List.map_singleton, hseq]
        congr 2
        omega
      · rw [if_neg (Ne.symm hs), Function.update_of_ne hs]
        exact List.append_nil _
  split at hr
  · rename_i hle
    rw [bind_eq_ok] at hr
    obtain ⟨st₂, h₂, hr⟩ := hr
    cases hr
    have ha := alike_insertOpIndex h₂
    have hk := insertOpIndex_kept h₂
    exact hpush ha.shardCount hk.1 (congrArg (· ++ [m]) hk.2) (fun s => (ha.watermark s).ge)
      (hle.trans (ha.watermark m.shard).ge)
  · rw [bind_eq_ok] at hr
    obtain ⟨st₁, h₁, hr⟩ := hr
    cases hr
    obtain ⟨hnext, hcount₁, hw, hc, hms⟩ := applyLoadedMutation_spec h₁
    refine hpush hcount₁ hc hms (fun s => ?_) (by rw [hw, if_pos rfl])
    rw [hw]
    split
    · subst_vars; omega
    · exact Nat.le_refl _

/-- The floor of a source that was built with its retained history is the compacted watermarks. -/
theorem contiguous_fromSnapshotAndRetainedHistory {n : Nat} {sourceRegion : String}
    {snapshot : Snapshot} {ids retained : List Mutation} {compacted : List Nat}
    (h : fromSnapshotAndRetainedHistory n sourceRegion snapshot ids retained compacted = .ok st) :
    Contiguous st := by
  unfold fromSnapshotAndRetainedHistory at h
  split at h
  · cases h
  split at h
  · cases h
  split at h
  · cases h
  rename_i hlen
  split at h
  · cases h
  split at h
  · rename_i hfind hpos
    simp only [bind_eq_ok] at h
    obtain ⟨st₁, h₁, ⟨st₂, e⟩, h₂, u, hcheck, h⟩ := h
    cases h
    have ha := alike_foldlM_insertOpIndex h₁
    have hkept : st₁.compactedWatermarks = compacted ∧ st₁.mutations = [] :=
      foldlM_invariant (p := fun st : SourceOfTruth =>
          st.compactedWatermarks = compacted ∧ st.mutations = [])
        (fun _ _ _ _ hs hi => by
          obtain ⟨hc, hms⟩ := insertOpIndex_kept hi
          rwa [hc, hms]) ⟨rfl, rfl⟩ h₁
    have hstart : Retaining n (st₁, compacted) := by
      refine ⟨ha.shardCount, not_not.mp hlen, fun s => ?_, fun s => ?_, fun s => ?_⟩
      · show st₁.compactedWatermarks.getD s 0 ≤ _
        rw [hkept.1]
      · show _ ≤ st₁.watermark s
        rw [ha.watermark]
        show compacted.getD s 0 ≤ snapshot.watermarks.getD s 0
        by_cases hs : s < n
        · have := List.find?_eq_none.mp hfind s (List.mem_range.mpr hs)
          rw [decide_eq_true_eq] at this
          omega
        · rw [List.getD_eq_getElem?_getD, List.getElem?_eq_none (by omega)]
          exact Nat.zero_le _
      · show (shardLog st₁.mutations s).map Mutation.seq =
          List.range' _ (compacted.getD s 0 - st₁.compactedWatermarks.getD s 0)
        rw [hkept.1, hkept.2, Nat.sub_self]
        rfl
    have hend : Retaining n (st₂, e) :=
      foldlM_invariant (p := Retaining n) (fun _ _ _ _ hs hr => hs.retainMutation hr) hstart h₂
    have heq : ∀ s, e.getD s 0 = st₂.watermark s := fun s => by
      refine Nat.le_antisymm (hend.reached s) ?_
      have hlen : e.length = n := hend.length
      by_cases hs : s < e.length
      · exact checkReplayed_ok hcheck s hs
      · have hcount : st₂.shardCount = n := hend.shardCount
        rw [watermark, List.getD_eq_getElem?_getD, List.getElem?_eq_none
          (by rw [st₂.watermarks_length]; omega)]
        exact Nat.zero_le _
    refine ⟨fun s => (hend.compacted s).trans (heq s).le, fun s => ?_⟩
    rw [← heq]
    exact hend.numbered s
  · cases h

/-- What is served has the numbers above the floor and above the number of the reader. -/
theorem Contiguous.map_seq_mutationsForShard (h : Contiguous st) (shardId fromSeq : Nat) :
    (st.mutationsForShard shardId fromSeq).map Mutation.seq =
      List.range' (max (st.compactedWatermark shardId) fromSeq + 1)
        (st.watermark shardId - max (st.compactedWatermark shardId) fromSeq) := by
  have hmap : ((shardLog st.mutations shardId).filter fun m => decide (m.seq > fromSeq)).map
      Mutation.seq = ((shardLog st.mutations shardId).map Mutation.seq).filter
        fun i => decide (i > fromSeq) := by
    rw [List.filter_map]
    rfl
  have hle := h.compacted shardId
  rw [mutationsForShard_eq, hmap, h.numbered, filter_range']
  congr 1
  omega

end Contiguous

/-! ## What a load carries over from its mutations -/

section Carries

/-- A source that came from another one by taking in the mutations `ms`. -/
structure Carries (st₀ : SourceOfTruth) (ms : List Mutation) (st : SourceOfTruth) : Prop where
  shardCount : st.shardCount = st₀.shardCount
  compacted : st.compactedWatermarks = st₀.compactedWatermarks
  watermark : ∀ s, st₀.watermark s ≤ st.watermark s
  kept : ∀ m ∈ ms, m ∈ st.mutations ∧ m.seq ≤ st.watermark m.shard

variable {st₀ st st' : SourceOfTruth} {ms : List Mutation} {m : Mutation}

theorem Carries.refl (st : SourceOfTruth) : Carries st [] st :=
  ⟨rfl, rfl, fun _ => Nat.le_refl _, fun m hm => by cases hm⟩

theorem Carries.push (h : Carries st₀ ms st) (hcount : st'.shardCount = st.shardCount)
    (hc : st'.compactedWatermarks = st.compactedWatermarks)
    (hms : st'.mutations = st.mutations ++ [m]) (hw : ∀ s, st.watermark s ≤ st'.watermark s)
    (hm : m.seq ≤ st'.watermark m.shard) : Carries st₀ (ms ++ [m]) st' where
  shardCount := hcount.trans h.shardCount
  compacted := hc.trans h.compacted
  watermark s := (h.watermark s).trans (hw s)
  kept m' hm' := by
    rw [hms, List.mem_append]
    rcases List.mem_append.mp hm' with hm' | hm'
    · exact ⟨Or.inl (h.kept m' hm').1, (h.kept m' hm').2.trans (hw m'.shard)⟩
    · rw [List.mem_singleton.mp hm']
      exact ⟨Or.inr List.mem_cons_self, hm⟩

theorem Carries.applyLoadedMutation (h : Carries st₀ ms st)
    (hl : st.applyLoadedMutation m = .ok st') : Carries st₀ (ms ++ [m]) st' := by
  obtain ⟨hseq, hcount, hw, hc, hms⟩ := applyLoadedMutation_spec hl
  refine h.push hcount hc hms (fun s => ?_) (by rw [hw, if_pos rfl])
  rw [hw]
  split
  · subst_vars
    omega
  · exact Nat.le_refl _

theorem Carries.retainMutation {e e' : List Nat} (h : Carries st₀ ms st)
    (hr : SourceOfTruth.retainMutation (st, e) m = .ok (st', e')) : Carries st₀ (ms ++ [m]) st' := by
  unfold SourceOfTruth.retainMutation at hr
  dsimp only at hr
  split at hr
  · cases hr
  split at hr
  · cases hr
  split at hr
  · rename_i hle
    rw [bind_eq_ok] at hr
    obtain ⟨st₂, h₂, hr⟩ := hr
    cases hr
    have ha := alike_insertOpIndex h₂
    have hkept := insertOpIndex_kept h₂
    exact h.push ha.shardCount hkept.1 (congrArg (· ++ [m]) hkept.2)
      (fun s => (ha.watermark s).ge) (hle.trans (ha.watermark m.shard).ge)
  · rw [bind_eq_ok] at hr
    obtain ⟨st₁, h₁, hr⟩ := hr
    cases hr
    exact h.applyLoadedMutation h₁

end Carries

/-! ## Everything that happens to a source -/

/-- What a constructor returns, on any input that it accepts. -/
inductive Built : SourceOfTruth → Prop
  | new (shardCount : Nat) (sourceRegion : String) : Built (new shardCount sourceRegion)
  | fromMutations {shardCount : Nat} {sourceRegion : String} {mutations : List Mutation}
      {st : SourceOfTruth} (h : fromMutations shardCount sourceRegion mutations = .ok st) : Built st
  | fromSnapshotAndMutations {shardCount : Nat} {sourceRegion : String} {snapshot : Snapshot}
      {ids mutations : List Mutation} {st : SourceOfTruth}
      (h : fromSnapshotAndMutations shardCount sourceRegion snapshot ids mutations = .ok st) :
      Built st
  | fromSnapshotAndRetainedHistory {shardCount : Nat} {sourceRegion : String} {snapshot : Snapshot}
      {ids retained : List Mutation} {compacted : List Nat} {st : SourceOfTruth}
      (h : fromSnapshotAndRetainedHistory shardCount sourceRegion snapshot ids retained compacted =
        .ok st) : Built st

/-- The state after a call: each call checks before it changes anything, so a rejected one leaves the
state as it was. -/
def after (st : SourceOfTruth) : Result SourceOfTruth → SourceOfTruth
  | .ok st' => st'
  | .error _ => st

/-- A call on a source, accepted or rejected. -/
inductive Call (st : SourceOfTruth) : SourceOfTruth → Prop
  | commit (now : Nat) (request : DenyRequest) :
      Call st (st.after ((st.commit now request).map Prod.snd))
  | commitRule (now : Nat) (request : RuleRequest) :
      Call st (st.after ((st.commitRule now request).map Prod.snd))
  | applyReplicatedMutation (m : Mutation) :
      Call st (st.after ((st.applyReplicatedMutation m).map Prod.snd))
  | restoreSnapshot (clock : Nat → Nat) (ord : IterOrder) (snapshot : Snapshot)
      (opPrefix : String) :
      Call st (st.after ((st.restoreSnapshot clock ord snapshot opPrefix).map Restore.st))
  | compactMutationHistory (watermarks : List Nat) :
      Call st (st.after (st.compactMutationHistory watermarks))
  | setEpoch (epoch : Nat) : Call st (st.setEpoch epoch)

theorem Built.contiguous {st : SourceOfTruth} (h : Built st) : Contiguous st := by
  cases h with
  | new shardCount sourceRegion => exact contiguous_new shardCount sourceRegion
  | fromMutations h => exact (contiguous_new _ _).foldlM_applyLoadedMutation h
  | fromSnapshotAndMutations h =>
    unfold SourceOfTruth.fromSnapshotAndMutations at h
    split at h
    · cases h
    split at h
    · cases h
    split at h
    · rw [bind_eq_ok] at h
      obtain ⟨st₁, h₁, h⟩ := h
      exact (contiguous_ofSnapshot.foldlM_insertOpIndex h₁).foldlM_applyLoadedMutation h
    · cases h
  | fromSnapshotAndRetainedHistory h => exact contiguous_fromSnapshotAndRetainedHistory h

/-- What holds before a call holds after it if each accepted call preserves it. -/
theorem after_map {α : Type} {p : SourceOfTruth → Prop} {st : SourceOfTruth} {r : Result α}
    {f : α → SourceOfTruth} (hp : p st) (h : ∀ a, r = .ok a → p (f a)) :
    p (st.after (r.map f)) := by
  cases r with
  | error err => exact hp
  | ok a => exact h a rfl

theorem Contiguous.run {ms : List Mutation} {st st' : SourceOfTruth} (h : Contiguous st)
    (hr : Run Commits st ms st') : Contiguous st' :=
  Run.invariant (I := fun _ => Contiguous) (k := []) (fun _ _ _ _ hk hs => hk.commits hs) hr h

theorem Contiguous.call {st st' : SourceOfTruth} (h : Contiguous st) (hc : Call st st') :
    Contiguous st' := by
  cases hc with
  | commit now request => exact after_map h fun _ hr => h.run (commit_run hr)
  | commitRule now request => exact after_map h fun _ hr => h.run (commitRule_run hr)
  | applyReplicatedMutation m => exact after_map h fun _ hr => h.applyReplicatedMutation hr
  | restoreSnapshot clock ord snapshot opPrefix =>
    exact after_map h fun _ hr => h.run (restoreSnapshot_run hr)
  | compactMutationHistory watermarks =>
    cases hr : st.compactMutationHistory watermarks with
    | error err => exact h
    | ok st' => exact h.compactMutationHistory hr
  | setEpoch epoch => exact h.of_alike ⟨rfl, rfl, rfl, rfl⟩ rfl rfl

theorem contiguous_of_reachable {st₀ st : SourceOfTruth} (hb : Built st₀)
    (hr : Relation.ReflTransGen Call st₀ st) : Contiguous st := by
  induction hr with
  | refl => exact hb.contiguous
  | tail _ hcall ih => exact ih.call hcall

/-- A denial that an operator asks for, in the runs that are given as cases. -/
def denial (opId : String) : DenyRequest :=
  { opId, tenantId := "acme", namespace' := "user", key := opId, action := .deny, priority := 1,
    reasonCode := "abuse", expiresAt := 0, createdBy := "admin", deliveryPriority := .p0 }

end SourceOfTruth

end Globacl
