import Globacl.Commitd.Recovery

/-!
# What a source has indexed

A mutation that is found in the index of operations, or among the mutations in memory, counts as a
duplicate. `Known` bounds what is found there, through every operation and every loader; nothing is
asked of the mutations but that they are routed.

* `Known.applyReplicatedMutation`: a duplicate is a mutation that the source has applied.
* `Known.load`: a start knows what it loads, if the logs have nothing old that was not applied.
-/

namespace Globacl

open Lib

namespace SourceOfTruth

/-- The source holds the history `before`, and it has indexed and kept mutations of `known` only. -/
structure Known (n : Nat) (known : Mutation → Prop) (before : List Mutation)
    (st : SourceOfTruth) : Prop where
  holds : Holds n before st
  indexed : ∀ id m, st.opIndex.lookup id = some m → known m
  kept : ∀ m ∈ st.mutations, known m

section Known

variable {n : Nat} {before : List Mutation} {known known' : Mutation → Prop}
  {st st' : SourceOfTruth} {m : Mutation}

theorem Known.mono (h : Known n known before st) (hk : ∀ m, known m → known' m) :
    Known n known' before st where
  holds := h.holds
  indexed id m hm := hk m (h.indexed id m hm)
  kept m hm := hk m (h.kept m hm)

/-- Only the order in each shard matters. -/
theorem Known.congr {before' : List Mutation} (h : Known n (· ∈ before) before st)
    (hs : ∀ s, shardLog before' s = shardLog before s) : Known n (· ∈ before') before' st where
  holds := h.holds.congr hs
  indexed id m hm := (mem_of_shardLog_eq hs).mpr (h.indexed id m hm)
  kept m hm := (mem_of_shardLog_eq hs).mpr (h.kept m hm)

theorem Known.insertOpIndex (h : Known n known before st) (hm : known m)
    (hi : st.insertOpIndex m = .ok st') : Known n known before st' := by
  have ha := alike_insertOpIndex hi
  unfold SourceOfTruth.insertOpIndex at hi
  split at hi
  · split at hi
    · cases hi; exact h
    · cases hi
  · cases hi
    refine ⟨h.holds.of_alike ha, fun id m' hm' => ?_, h.kept⟩
    rw [indexOp, HashMap.lookup_insert_eq] at hm'
    split at hm'
    · cases hm'; exact hm
    · exact h.indexed id m' hm'

theorem Known.pushMutation (h : Known n known before st) (hm : known m) :
    Known n known before (st.pushMutation m) where
  holds := h.holds.of_alike ⟨rfl, rfl, rfl, rfl⟩
  indexed := h.indexed
  kept m' hm' := by
    rcases List.mem_append.mp hm' with hm' | hm'
    · exact h.kept m' hm'
    · rw [List.mem_singleton.mp hm']; exact hm

/-- What is committed extends the history that the source holds. -/
theorem Known.applyCommittedMutation (h : Known n known before st) (hm : m.Routed n)
    (hc : st.applyCommittedMutation m = .ok st') : Known n known (before ++ [m]) st' := by
  obtain ⟨hlt, hseq, rfl⟩ := applyCommittedMutation_ok.mp hc
  rw [h.holds.watermark] at hseq
  exact ⟨h.holds.advance (validHistory_concat.mpr ⟨h.holds.valid, hm, hseq⟩) hlt, h.indexed, h.kept⟩

theorem Known.applyLoadedMutation (h : Known n known before st) (hm : m.Routed n) (hk : known m)
    (hl : st.applyLoadedMutation m = .ok st') : Known n known (before ++ [m]) st' := by
  simp only [SourceOfTruth.applyLoadedMutation, bind_eq_ok] at hl
  obtain ⟨st₁, h₁, st₂, h₂, h₃⟩ := hl
  cases h₃
  exact ((h.applyCommittedMutation hm h₁).insertOpIndex hk h₂).pushMutation hk

/-- A replicated mutation is a duplicate of one that the source has, or it extends what the source
holds. -/
theorem Known.applyReplicatedMutation (h : Known n (· ∈ before) before st)
    {status : ApplyStatus} (hr : st.applyReplicatedMutation m = .ok (status, st')) :
    (status = .duplicateOrOld ∧ st' = st ∧ m ∈ before) ∨
      (status = .applied ∧ (m.Routed n → Known n (· ∈ before ++ [m]) (before ++ [m]) st')) := by
  unfold SourceOfTruth.applyReplicatedMutation at hr
  split at hr
  · rename_i existing hl
    split at hr
    · rename_i heq
      subst heq
      cases hr
      exact Or.inl ⟨rfl, rfl, h.indexed _ _ hl⟩
    · cases hr
  rename_i hnone
  split at hr
  · cases hr
  split at hr
  · split at hr
    · rename_i hany
      cases hr
      obtain ⟨existing, hmem, heq⟩ := List.any_eq_true.mp hany
      simp only [Bool.and_eq_true, decide_eq_true_eq] at heq
      rw [heq.2] at hmem
      exact Or.inl ⟨rfl, rfl, h.kept m hmem⟩
    · cases hr
  split at hr
  · cases hr
  · rename_i st₁ hc
    cases hr
    refine Or.inr ⟨rfl, fun hm => ?_⟩
    have hstep : Known n (· ∈ before ++ [m]) (before ++ [m]) st₁ :=
      (h.applyCommittedMutation hm hc).mono fun m' hm' => List.mem_append_left _ hm'
    have hself : m ∈ before ++ [m] := List.mem_append_right _ (List.mem_singleton_self m)
    refine Known.pushMutation ⟨hstep.holds.of_alike ⟨rfl, rfl, rfl, rfl⟩, fun id m' hm' => ?_,
      hstep.kept⟩ hself
    rw [indexOp, HashMap.lookup_insert_eq] at hm'
    split at hm'
    · cases hm'; exact hself
    · exact hstep.indexed id m' hm'

/-! ## Loading -/

theorem Known.foldlM_insertOpIndex {l : List Mutation} (h : Known n known before st)
    (hl : ∀ m ∈ l, known m) (hf : l.foldlM SourceOfTruth.insertOpIndex st = .ok st') :
    Known n known before st' :=
  foldlM_invariant (p := Known n known before)
    (fun _ _ m hm hs hi => hs.insertOpIndex (hl m hm) hi) h hf

/-- After a loop of loads, the source holds all that was loaded. -/
theorem Known.foldlM_applyLoadedMutation {l : List Mutation} :
    ∀ {before : List Mutation} {st : SourceOfTruth}, Known n known before st →
      (∀ m ∈ l, m.Routed n ∧ known m) →
      l.foldlM SourceOfTruth.applyLoadedMutation st = .ok st' →
      Known n known (before ++ l) st' := by
  induction l with
  | nil => intro before st h _ hf; cases hf; rwa [List.append_nil]
  | cons m l ih =>
    intro before st h hl hf
    rw [List.foldlM_cons, bind_eq_ok] at hf
    obtain ⟨st₁, h₁, hf⟩ := hf
    obtain ⟨hm, hk⟩ := hl m List.mem_cons_self
    rw [List.append_cons]
    exact ih (h.applyLoadedMutation hm hk h₁) (fun m' hm' => hl m' (List.mem_cons_of_mem _ hm')) hf

/-- After a loop over retained mutations, the source holds those of them that are above `w`: the loop
counts without gaps, and it began with each shard at `w` or behind it. -/
theorem Known.foldlM_retainMutation {w : Nat → Nat} {l : List Mutation} :
    ∀ {before : List Mutation} {st : SourceOfTruth} {e e' : List Nat}, Known n known before st →
      e.length = n → (∀ s, st.watermark s = max (w s) (e.getD s 0)) →
      (∀ m ∈ l, m.Routed n ∧ known m) → l.foldlM retainMutation (st, e) = .ok (st', e') →
      Known n known (before ++ l.filter fun m => decide (m.seq > w m.shard)) st' := by
  induction l with
  | nil => intro before st e e' h _ _ _ hf; cases hf; rwa [List.filter_nil, List.append_nil]
  | cons m l ih =>
    intro before st e e' h hlen hw hl hf
    rw [List.foldlM_cons, bind_eq_ok] at hf
    obtain ⟨⟨st₁, e₁⟩, h₁, hf⟩ := hf
    obtain ⟨hm, hk⟩ := hl m List.mem_cons_self
    have hrest := fun m' hm' => hl m' (List.mem_cons_of_mem m hm')
    unfold retainMutation at h₁
    dsimp only at h₁
    split at h₁
    · cases h₁
    rename_i hshard
    split at h₁
    · cases h₁
    rename_i hseq
    rw [not_not] at hseq
    have hwm := hw m.shard
    have hset := fun s => congrFun (getD_set_eq e (i := m.shard)
      (by rw [hlen, ← h.holds.shardCount]; omega) m.seq) s
    split at h₁
    · -- the snapshot has it
      rename_i hle
      rw [bind_eq_ok] at h₁
      obtain ⟨st₂, h₂, h₁⟩ := h₁
      cases h₁
      rw [List.filter_cons_of_neg (by rw [decide_eq_true_eq]; omega)]
      refine ih ((h.insertOpIndex hk h₂).pushMutation hk) (by rw [List.length_set]; exact hlen)
        (fun s => ?_) hrest hf
      have hsame : (st₂.pushMutation m).watermark s = st.watermark s :=
        (alike_insertOpIndex h₂).watermark s
      rw [hsame, hw, hset]
      by_cases hs : s = m.shard
      · subst hs; rw [Function.update_self]; omega
      · rw [Function.update_of_ne hs]
    · rename_i hgt
      rw [bind_eq_ok] at h₁
      obtain ⟨st₂, h₂, h₁⟩ := h₁
      cases h₁
      rw [List.filter_cons_of_pos (by rw [decide_eq_true_eq]; omega), List.append_cons]
      have hstep := h.applyLoadedMutation hm hk h₂
      refine ih hstep (by rw [List.length_set]; exact hlen) (fun s => ?_) hrest hf
      rw [hset, hstep.holds.watermark, shardLog_concat]
      have hbefore := h.holds.watermark s
      have hnum := (validHistory_concat.mp hstep.holds.valid).2.2
      have hws := hw s
      by_cases hs : s = m.shard
      · subst hs
        rw [Function.update_self, if_pos rfl, List.length_append, List.length_singleton]
        omega
      · rw [Function.update_of_ne hs, if_neg (Ne.symm hs), List.append_nil]
        omega

end Known

section Load

variable {n : Nat} {before : List Mutation} {known : Mutation → Prop} {st₀ st : SourceOfTruth}
  {ord : IterOrder} {sourceRegion : String}

theorem Known.new (shardCount : Nat) (hn : max shardCount 1 = n) (known : Mutation → Prop)
    (sourceRegion : String) : Known n known [] (new shardCount sourceRegion) where
  holds := hn ▸ holds_new shardCount sourceRegion
  indexed id m hm := by simp [SourceOfTruth.new] at hm
  kept m hm := by cases hm

theorem Known.ofSnapshot (h₀ : Holds n before st₀) {compacted : List Nat} (hpos : 0 < n)
    (hlen : (st₀.snapshot ord).watermarks.length = n) (hcomp : compacted.length = n) :
    Known n known before
      (ofSnapshot n sourceRegion (st₀.snapshot ord) compacted hpos hlen hcomp) where
  holds := h₀.ofSnapshot ord sourceRegion hpos hlen hcomp
  indexed id m hm := by simp [SourceOfTruth.ofSnapshot] at hm
  kept m hm := by cases hm

theorem Known.fromMutations {shardCount : Nat} (hn : max shardCount 1 = n) {l : List Mutation}
    (hl : ∀ m ∈ l, m.Routed n) (h : fromMutations shardCount sourceRegion l = .ok st) :
    Known n (· ∈ sortBy compareBySlot l) (sortBy compareBySlot l) st :=
  (Known.new shardCount hn (· ∈ sortBy compareBySlot l) sourceRegion).foldlM_applyLoadedMutation
    (fun m hm => ⟨hl m (mem_sortBy.mp hm), hm⟩) h

/-- What is above the snapshot is loaded, and what is not is in the snapshot. -/
theorem Known.fromSnapshotAndMutations (h₀ : Holds n before st₀) {ids tail : List Mutation}
    (htail : ∀ m ∈ tail, m.Routed n) (hids : ∀ m ∈ ids, m ∈ before ∨ m ∈ tail)
    (h : fromSnapshotAndMutations n sourceRegion (st₀.snapshot ord) ids tail = .ok st) :
    Known n (· ∈ before ++ sortBy compareBySlot tail)
      (before ++ sortBy compareBySlot tail) st := by
  unfold SourceOfTruth.fromSnapshotAndMutations at h
  split at h
  · cases h
  split at h
  · cases h
  split at h
  · simp only [bind_eq_ok] at h
    obtain ⟨st₁, h₁, h₂⟩ := h
    refine ((Known.ofSnapshot h₀ _ _ _).foldlM_insertOpIndex (fun m hm => ?_)
      h₁).foldlM_applyLoadedMutation (fun m hm => ⟨htail m (mem_sortBy.mp hm),
        List.mem_append_right _ hm⟩) h₂
    rw [List.mem_append, mem_sortBy]
    exact hids m hm
  · cases h

theorem Known.fromSnapshotAndRetainedHistory (h₀ : Holds n before st₀)
    {ids retained : List Mutation} {compacted : List Nat} (hret : ∀ m ∈ retained, m.Routed n)
    (hle : ∀ s, compacted.getD s 0 ≤ st₀.watermark s)
    (hids : ∀ m ∈ ids, m ∈ before ∨ m ∈ retained)
    (hold : ∀ m ∈ retained, m.seq ≤ st₀.watermark m.shard → m ∈ before)
    (h : fromSnapshotAndRetainedHistory n sourceRegion (st₀.snapshot ord) ids retained compacted =
      .ok st) :
    let tail := (sortBy compareBySlot retained).filter fun m =>
      decide (m.seq > st₀.watermark m.shard)
    Known n (· ∈ before ++ tail) (before ++ tail) st := by
  intro tail
  have hknown : ∀ m ∈ retained, m ∈ before ++ tail := fun m hm => by
    by_cases hm' : m.seq ≤ st₀.watermark m.shard
    · exact List.mem_append_left _ (hold m hm hm')
    · refine List.mem_append_right _ (List.mem_filter.mpr ⟨mem_sortBy.mpr hm, ?_⟩)
      rw [decide_eq_true_eq]
      omega
  unfold SourceOfTruth.fromSnapshotAndRetainedHistory at h
  split at h
  · cases h
  split at h
  · cases h
  split at h
  · cases h
  rename_i hlen
  split at h
  · cases h
  split at h
  · simp only [bind_eq_ok] at h
    obtain ⟨st₁, h₁, ⟨st₂, e⟩, h₂, -, -, h₃⟩ := h
    cases h₃
    have hknown₁ : Known n (· ∈ before ++ tail) before st₁ :=
      (Known.ofSnapshot h₀ _ _ _).foldlM_insertOpIndex
      (fun m hm => (hids m hm).elim (List.mem_append_left _) (hknown m)) h₁
    refine hknown₁.foldlM_retainMutation (not_not.mp hlen) (fun s => ?_)
      (fun m hm => ⟨hret m (mem_sortBy.mp hm), hknown m (mem_sortBy.mp hm)⟩) h₂
    rw [hknown₁.holds.watermark, ← h₀.watermark, max_eq_left (hle s)]
  · cases h

end Load

end SourceOfTruth

/-! ## Loading from files -/

/-- The logged mutations above the watermarks of the snapshot, in the order in which a start loads
them. -/
def Disk.tail (disk : Disk) (n : Nat) (watermark : Nat → Nat) : List Mutation :=
  sortBy SourceOfTruth.compareBySlot ((loadAllLogs disk n).filter fun m =>
    decide (m.seq > watermark m.shard))

/-- A start that succeeds has what the snapshot has and what was logged above it, if the logs have
nothing old that the snapshot has not. -/
theorem SourceOfTruth.Known.load {n shardCount : Nat} {before : List Mutation} {disk : Disk}
    {clusterId : String} {offsets : Option (List Nat)} {st₀ st : SourceOfTruth} {ord : IterOrder}
    (h₀ : SourceOfTruth.Holds n before st₀) (hsnap : disk.snapshot = some (st₀.snapshot ord))
    (hlogs : ∀ s, ∀ m ∈ disk.logs s, m.Routed n)
    (hstream : ∀ ids, disk.idempotency = some ids → ids ⊆ before)
    (hold : ∀ m ∈ loadAllLogs disk n, m.seq ≤ st₀.watermark m.shard → m ∈ before)
    (hl : loadSourceOfTruth disk shardCount clusterId offsets = .ok st) :
    SourceOfTruth.Known n (· ∈ before ++ disk.tail n st₀.watermark)
      (before ++ disk.tail n st₀.watermark) st := by
  have hrouted : ∀ m ∈ loadAllLogs disk n, m.Routed n := fun m hm => by
    obtain ⟨s, -, hm⟩ := List.mem_flatMap.mp hm
    exact hlogs s m hm
  have hids : ∀ m ∈ disk.knownOperations (loadAllLogs disk n),
      m ∈ before ∨ m ∈ loadAllLogs disk n := fun m hm => by
    unfold Disk.knownOperations at hm
    split at hm
    · rename_i ids hi
      exact (List.mem_append.mp hm).imp_left fun hm => hstream ids hi hm
    · exact Or.inr hm
  obtain ⟨hcount, hcases⟩ := loadSourceOfTruth_ok hsnap hl
  have hc : n = shardCount := h₀.shardCount.symm.trans hcount
  subst hc
  have hpos : 0 < n := h₀.shardCount ▸ st₀.shardCount_pos
  rcases hcases with ⟨-, hreplay⟩ | ⟨offsets, -, hlen, hl⟩ | ⟨-, tail, htail, hl⟩
  · obtain ⟨-, hok, hwm⟩ := replayCompleteLogs_eq_some.mp hreplay
    have hk := SourceOfTruth.Known.fromMutations (Nat.max_eq_left hpos) hrouted hok
    have hsame : ∀ s, (shardLog (sortBy SourceOfTruth.compareBySlot (loadAllLogs disk n)) s).length =
        st₀.watermark s := fun s => by
      rw [← hk.holds.watermark]
      exact congrArg (fun l : List Nat => l.getD s 0) hwm
    have hbelow : ∀ m ∈ loadAllLogs disk n, m.seq ≤ st₀.watermark m.shard := fun m hm => by
      have hget := hk.holds.valid.getElem?_seq (mem_sortBy.mpr hm)
      have hlt := (List.getElem?_eq_some_iff.mp hget).1
      rw [hsame] at hlt
      omega
    have htail : disk.tail n st₀.watermark = [] := by
      unfold Disk.tail
      rw [List.filter_eq_nil_iff.mpr fun m hm => by
        rw [decide_eq_true_eq]; exact Nat.not_lt.mpr (hbelow m hm)]
      rfl
    rw [htail, List.append_nil]
    -- the replay has nothing that the snapshot has not, and as much
    refine hk.congr fun s => (h₀.valid.shardLog_eq_of_subset hk.holds.valid (fun m hm => ?_)
      (fun s => by rw [hsame, h₀.watermark]) s).symm
    exact hold m (mem_sortBy.mp hm) (hbelow m (mem_sortBy.mp hm))
  · have hk := SourceOfTruth.Known.fromSnapshotAndRetainedHistory h₀ hrouted (fun s => ?_) hids
      hold hl
    · refine hk.congr fun s => ?_
      rw [shardLog_append, shardLog_append]
      congr 1
      have hv := hk.holds.valid.pairwise_seq s
      rw [shardLog_append] at hv
      exact shardLog_sortBy_of_perm (((sortBy_perm _ _).symm.filter _).filter _)
        (List.pairwise_append.mp hv).2.1
    · have hwlen : (st₀.snapshot ord).watermarks.length = n :=
        st₀.watermarks_length.trans h₀.shardCount
      rw [getD_zipWith_min (hlen.trans hwlen.symm)]
      exact Nat.min_le_right _ _
  · rw [tailMutations_ok htail] at hl
    refine SourceOfTruth.Known.fromSnapshotAndMutations h₀
      (fun m hm => hrouted m (List.mem_of_mem_filter hm)) (fun m hm => ?_) hl
    rcases hids m hm with hm | hm
    · exact Or.inl hm
    · by_cases hle : m.seq ≤ st₀.watermark m.shard
      · exact Or.inl (hold m hm hle)
      · refine Or.inr (List.mem_filter.mpr ⟨hm, ?_⟩)
        rw [decide_eq_true_eq]
        exact Nat.lt_of_not_le hle

end Globacl
