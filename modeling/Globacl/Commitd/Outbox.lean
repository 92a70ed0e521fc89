import Globacl.Commitd.Publisher
import Globacl.Commitd.Published
import Globacl.Commitd.Reads

/-!
# What a node keeps for its publisher (`globacl-commitd/src/app/storage.rs`, `propagation.rs`)

The publisher takes what is new from the memory, and a start with a publisher takes the history from
the logs, behind the stored offsets and behind the snapshot. What was not handed over must be in both.

* `Outbox`: what the files keep. `Outbox.putSnapshot` and the lemmas around it: each single write
  keeps it.
* `Unsent`: what the memory keeps besides. `Outbox.boot`: a start that succeeds finds it in the files.
-/

namespace Globacl

open Lib Prog

/-! ## The files -/

namespace Disk

/-- The number up to which the files say that a shard is published. -/
def published (disk : Disk) (n shardId : Nat) : Nat := (loadPublisherOffsets disk n).getD shardId 0

/-- The watermark of a shard in the latest snapshot. -/
def snapshotWatermark (disk : Disk) (shardId : Nat) : Nat :=
  match disk.snapshot with
  | some snapshot => snapshot.watermarks.getD shardId 0
  | none => 0

/-- The number behind which a start with a publisher takes the history of a shard from its log. -/
def historyFrom (disk : Disk) (n shardId : Nat) : Nat :=
  min (disk.published n shardId) (disk.snapshotWatermark shardId)

theorem historyFrom_le_published (disk : Disk) (n s : Nat) :
    disk.historyFrom n s ≤ disk.published n s := Nat.min_le_left _ _

end Disk

/-- What the files keep of the mutations `known`, which the node has committed up to the numbers
`reached`, if those in `handed` are handed over. -/
structure Outbox (n : Nat) (known handed : Mutation → Prop) (reached : Nat → Nat) (disk : Disk) :
    Prop where
  filed : ∀ s, ∀ m ∈ disk.logs s, m.shard = s ∧ s < max n 1
  bounded : ∀ m, known m → m.shard < max n 1 ∧ m.seq ≤ reached m.shard
  offset : ∀ s, 0 < disk.published n s → ∃ m, known m ∧ m.shard = s ∧ m.seq = disk.published n s
  sent : ∀ m, known m → m.seq ≤ disk.published n m.shard → handed m
  logged : ∀ m, known m → disk.historyFrom n m.shard < m.seq → m ∈ disk.logs m.shard
  /-- A record that was logged and not committed is beside the one that took its number. -/
  stray : ∀ s, ∀ m ∈ disk.logs s, m.seq ≤ reached s →
    known m ∨ ∃ m' ∈ disk.logs s, known m' ∧ m'.seq = m.seq ∧ m' ≠ m
  stream : ∀ ids, disk.idempotency = some ids → ∀ m ∈ ids, known m
  count : ∀ snapshot, disk.snapshot = some snapshot → snapshot.shardCount = max n 1
  fresh : disk.snapshot = none → (∀ s, disk.logs s = []) ∧ ∀ m, ¬known m

namespace Outbox

variable {n : Nat} {known handed : Mutation → Prop} {reached : Nat → Nat} {disk disk' : Disk}

theorem published_le (h : Outbox n known handed reached disk) (s : Nat) :
    disk.published n s ≤ reached s := by
  rcases Nat.eq_zero_or_pos (disk.published n s) with hzero | hpos
  · rw [hzero]
    exact Nat.zero_le _
  · obtain ⟨m, hm, rfl, hseq⟩ := h.offset s hpos
    rw [← hseq]
    exact (h.bounded m hm).2

/-- A write of a file that neither a start nor the publisher reads. -/
theorem congr (h : Outbox n known handed reached disk) (hlogs : disk'.logs = disk.logs)
    (hsnapshot : disk'.snapshot = disk.snapshot) (hids : disk'.idempotency = disk.idempotency)
    (hoffsets : disk'.publisherOffsets = disk.publisherOffsets) :
    Outbox n known handed reached disk' := by
  obtain ⟨logs, snapshot, idempotency, _, _, _, _, offsets⟩ := disk'
  dsimp only at hlogs hsnapshot hids hoffsets
  subst hlogs hsnapshot hids hoffsets
  exact ⟨h.filed, h.bounded, h.offset, h.sent, h.logged, h.stray, h.stream, h.count, h.fresh⟩

theorem historyFrom_putSnapshot {snapshot : Snapshot} {s : Nat}
    (hle : disk.published n s ≤ snapshot.watermarks.getD s 0) :
    { disk with snapshot := some snapshot }.historyFrom n s = disk.published n s :=
  Nat.min_eq_left hle

/-- A snapshot that is not behind the offsets. -/
theorem putSnapshot (h : Outbox n known handed reached disk) {snapshot : Snapshot}
    (hcount : snapshot.shardCount = max n 1)
    (hle : ∀ s, disk.published n s ≤ snapshot.watermarks.getD s 0) :
    Outbox n known handed reached { disk with snapshot := some snapshot } where
  filed := h.filed
  bounded := h.bounded
  offset := h.offset
  sent := h.sent
  logged m hm hlt := by
    rw [historyFrom_putSnapshot (hle m.shard)] at hlt
    exact h.logged m hm ((disk.historyFrom_le_published n m.shard).trans_lt hlt)
  stray := h.stray
  stream := h.stream
  count _ heq := by
    cases heq
    exact hcount
  fresh heq := by cases heq

theorem putStream (h : Outbox n known handed reached disk) {ids : List Mutation}
    (hids : ∀ m ∈ ids, known m) :
    Outbox n known handed reached { disk with idempotency := some ids } where
  filed := h.filed
  bounded := h.bounded
  offset := h.offset
  sent := h.sent
  logged := h.logged
  stray := h.stray
  stream _ heq := by
    cases heq
    exact hids
  count := h.count
  fresh := h.fresh

/-- A log is cut where a start no longer needs it. -/
theorem truncateLog (h : Outbox n known handed reached disk) {s seq : Nat}
    (hle : seq ≤ disk.historyFrom n s) :
    Outbox n known handed reached { disk with
      logs := Function.update disk.logs s ((disk.logs s).filter fun m => decide (m.seq > seq)) } := by
  have hmem : ∀ s' m, m ∈ Function.update disk.logs s
      ((disk.logs s).filter fun m => decide (m.seq > seq)) s' ↔
        m ∈ disk.logs s' ∧ (s' = s → seq < m.seq) := fun s' m => by
    by_cases hs : s' = s
    · subst hs
      rw [Function.update_self, List.mem_filter, decide_eq_true_eq]
      exact and_congr_right fun _ => ⟨fun hlt _ => hlt, fun hlt => hlt rfl⟩
    · rw [Function.update_of_ne hs]
      exact ⟨fun hm => ⟨hm, fun heq => absurd heq hs⟩, And.left⟩
  refine ⟨fun s' m hm => h.filed s' m ((hmem s' m).mp hm).1, h.bounded, h.offset, h.sent,
    fun m hm hlt => (hmem _ m).mpr ⟨h.logged m hm hlt, ?_⟩, fun s' m hm hseq => ?_, h.stream, h.count,
    fun heq => ⟨fun s' => List.eq_nil_of_subset_nil fun m hm => ?_, (h.fresh heq).2⟩⟩
  · rintro rfl
    exact hle.trans_lt hlt
  · obtain ⟨hlog, hgt⟩ := (hmem s' m).mp hm
    refine (h.stray s' m hlog hseq).imp_right fun ⟨m', hm', hknown, heq, hne⟩ => ?_
    exact ⟨m', (hmem s' m').mpr ⟨hm', fun hs => by rw [heq]; exact hgt hs⟩, hknown, heq, hne⟩
  · rw [← (h.fresh heq).1 s']
    exact ((hmem s' m).mp hm).1

/-- The record of a mutation that is not committed yet. -/
theorem appendLog (h : Outbox n known handed reached disk) (hstarted : disk.snapshot ≠ none)
    {m : Mutation} (hshard : m.shard < max n 1) (hlt : reached m.shard < m.seq) :
    Outbox n known handed reached { disk with
      logs := Function.update disk.logs m.shard (disk.logs m.shard ++ [m]) } := by
  have hmem : ∀ s m', m' ∈ Function.update disk.logs m.shard (disk.logs m.shard ++ [m]) s ↔
      m' ∈ disk.logs s ∨ m' = m ∧ s = m.shard := fun s m' => by
    by_cases hs : s = m.shard
    · subst hs
      rw [Function.update_self, List.mem_append, List.mem_singleton]
      exact or_congr_right ⟨fun heq => ⟨heq, rfl⟩, And.left⟩
    · rw [Function.update_of_ne hs]
      exact ⟨Or.inl, fun hm => hm.resolve_right fun ⟨_, heq⟩ => hs heq⟩
  refine ⟨fun s m' hm' => ?_, h.bounded, h.offset, h.sent,
    fun m' hm' hgt => (hmem _ m').mpr (Or.inl (h.logged m' hm' hgt)), fun s m' hm' hseq => ?_,
    h.stream, h.count, fun heq => absurd heq hstarted⟩
  · rcases (hmem s m').mp hm' with hm' | ⟨rfl, rfl⟩
    · exact h.filed s m' hm'
    · exact ⟨rfl, hshard⟩
  · rcases (hmem s m').mp hm' with hm' | ⟨rfl, rfl⟩
    · refine (h.stray s m' hm' hseq).imp_right fun ⟨m'', hm'', hknown, heq, hne⟩ => ?_
      exact ⟨m'', (hmem s m'').mpr (Or.inl hm''), hknown, heq, hne⟩
    · omega

/-- A mutation that is in its log is committed. -/
theorem commit (h : Outbox n known handed reached disk) {m : Mutation}
    (hlog : m ∈ disk.logs m.shard) (hseq : m.seq = reached m.shard + 1) :
    Outbox n (fun m' => known m' ∨ m' = m) handed (Function.update reached m.shard m.seq) disk := by
  have hgrow : ∀ s, reached s ≤ Function.update reached m.shard m.seq s := fun s => by
    by_cases hs : s = m.shard
    · subst hs
      rw [Function.update_self]
      omega
    · rw [Function.update_of_ne hs]
  have hpublished := h.published_le m.shard
  refine ⟨h.filed, fun m' hm' => ?_, fun s hs => ?_, fun m' hm' hle => ?_, fun m' hm' hlt => ?_,
    fun s m' hm' hle => ?_, fun ids hids m' hm' => Or.inl (h.stream ids hids m' hm'), h.count,
    fun heq => ?_⟩
  · rcases hm' with hm' | rfl
    · exact ⟨(h.bounded m' hm').1, (h.bounded m' hm').2.trans (hgrow _)⟩
    · rw [Function.update_self]
      exact ⟨(h.filed _ _ hlog).2, Nat.le_refl _⟩
  · obtain ⟨m', hm', hshard, heq⟩ := h.offset s hs
    exact ⟨m', Or.inl hm', hshard, heq⟩
  · rcases hm' with hm' | rfl
    · exact h.sent m' hm' hle
    · omega
  · rcases hm' with hm' | rfl
    · exact h.logged m' hm' hlt
    · exact hlog
  · -- the record of another mutation with this number stays beside it
    have hshard := (h.filed s m' hm').1
    by_cases hold : m'.seq ≤ reached s
    · exact (h.stray s m' hm' hold).imp Or.inl fun ⟨m'', hm'', hknown, heq, hne⟩ =>
        ⟨m'', hm'', Or.inl hknown, heq, hne⟩
    · by_cases hs : s = m.shard
      · subst hs
        rw [Function.update_self] at hle
        by_cases heq : m' = m
        · exact Or.inl (Or.inr heq)
        · exact Or.inr ⟨m, hlog, Or.inr rfl, by omega, Ne.symm heq⟩
      · rw [Function.update_of_ne hs] at hle
        exact absurd hle hold
  · rw [(h.fresh heq).1] at hlog
    cases hlog

theorem published_putOffsets {offsets : List Nat} (hlen : offsets.length = n) (s : Nat) :
    { disk with publisherOffsets := some offsets }.published n s = offsets.getD s 0 := by
  unfold Disk.published loadPublisherOffsets
  dsimp only
  rw [List.getD_eq_getElem?_getD, List.getElem?_map]
  by_cases hs : s < n
  · rw [List.getElem?_range hs]
    rfl
  · rw [List.getElem?_eq_none (by rw [List.length_range]; omega), List.getD_eq_getElem?_getD,
      List.getElem?_eq_none (by omega)]
    rfl

/-- The offsets move over what was handed over. -/
theorem putOffsets (h : Outbox n known handed reached disk) {offsets : List Nat}
    (hlen : offsets.length = n) (hgrow : ∀ s, disk.published n s ≤ offsets.getD s 0)
    (hoffset : ∀ s, 0 < offsets.getD s 0 → ∃ m, known m ∧ m.shard = s ∧ m.seq = offsets.getD s 0)
    (hsent : ∀ m, known m → m.seq ≤ offsets.getD m.shard 0 → handed m) :
    Outbox n known handed reached { disk with publisherOffsets := some offsets } := by
  have hpublished := fun s => @published_putOffsets n disk offsets hlen s
  refine ⟨h.filed, h.bounded, fun s hs => ?_, fun m hm hle => ?_, fun m hm hlt => ?_, h.stray, h.stream,
    h.count, h.fresh⟩
  · rw [hpublished] at hs ⊢
    exact hoffset s hs
  · rw [hpublished] at hle
    exact hsent m hm hle
  · refine h.logged m hm (Nat.lt_of_le_of_lt ?_ hlt)
    refine Nat.le_min.mpr ⟨?_, Nat.min_le_right _ _⟩
    rw [hpublished]
    exact (disk.historyFrom_le_published n m.shard).trans (hgrow m.shard)

end Outbox

/-! ## A start -/

namespace SourceOfTruth

/-- Everything that a loop of a loader was given is in the history that it builds, in the order in which
it came, and is indexed. -/
structure Loads (st : SourceOfTruth) (ids done : List Mutation) (st' : SourceOfTruth) : Prop where
  shardCount : st'.shardCount = st.shardCount
  compacted : st'.compactedWatermarks = st.compactedWatermarks
  mutations : st'.mutations = st.mutations ++ done
  indexes : Indexes (ids ++ done) st'.opIndex

section Loads

variable {st st' st'' : SourceOfTruth} {ids done : List Mutation} {m : Mutation}

theorem Loads.push (h : Loads st ids done st') (hi : st'.insertOpIndex m = .ok st'') :
    Loads st ids (done ++ [m]) (st''.pushMutation m) := by
  obtain ⟨hc, hms⟩ := insertOpIndex_kept hi
  refine ⟨(alike_insertOpIndex hi).shardCount.trans h.shardCount, hc.trans h.compacted, ?_, ?_⟩
  · show st''.mutations ++ [m] = st.mutations ++ (done ++ [m])
    rw [hms, h.mutations, List.append_assoc]
  · have hindex : Indexes (ids ++ done ++ [m]) st''.opIndex := h.indexes.insertOpIndex hi
    rw [← List.append_assoc]
    exact hindex

theorem Loads.applyLoadedMutation (h : Loads st ids done st')
    (hl : st'.applyLoadedMutation m = .ok st'') : Loads st ids (done ++ [m]) st'' := by
  simp only [SourceOfTruth.applyLoadedMutation, bind_eq_ok] at hl
  obtain ⟨st₁, h₁, st₂, h₂, h₃⟩ := hl
  obtain ⟨-, -, rfl⟩ := applyCommittedMutation_ok.mp h₁
  cases h₃
  have hadvanced : Loads st ids done (st'.advance m) :=
    ⟨h.shardCount, h.compacted, h.mutations, h.indexes⟩
  exact hadvanced.push h₂

theorem Loads.retainMutation {e e' : List Nat} (h : Loads st ids done st')
    (hr : SourceOfTruth.retainMutation (st', e) m = .ok (st'', e')) :
    Loads st ids (done ++ [m]) st'' := by
  unfold SourceOfTruth.retainMutation at hr
  dsimp only at hr
  split at hr
  · cases hr
  split at hr
  · cases hr
  split at hr
  · rw [bind_eq_ok] at hr
    obtain ⟨st₁, h₁, hr⟩ := hr
    cases hr
    exact h.push h₁
  · rw [bind_eq_ok] at hr
    obtain ⟨st₁, h₁, hr⟩ := hr
    cases hr
    exact h.applyLoadedMutation h₁

theorem loads_fromMutations {shardCount : Nat} {sourceRegion : String} {l : List Mutation}
    (h : fromMutations shardCount sourceRegion l = .ok st) :
    Loads (new shardCount sourceRegion) [] (sortBy compareBySlot l) st := by
  have hnew : Loads (new shardCount sourceRegion) [] [] (new shardCount sourceRegion) :=
    ⟨rfl, rfl, (List.append_nil _).symm, indexes_nil⟩
  exact foldlM_collects (fun _ _ _ _ hs hl => hs.applyLoadedMutation hl) hnew h

theorem loads_fromSnapshotAndRetainedHistory {n : Nat} {sourceRegion : String} {snapshot : Snapshot}
    {retained : List Mutation} {compacted : List Nat}
    (h : fromSnapshotAndRetainedHistory n sourceRegion snapshot ids retained compacted = .ok st) :
    snapshot.watermarks.length = n ∧ st.shardCount = n ∧ st.compactedWatermarks = compacted ∧
      st.mutations = sortBy compareBySlot retained ∧
      Indexes (ids ++ sortBy compareBySlot retained) st.opIndex := by
  unfold fromSnapshotAndRetainedHistory at h
  split at h
  · cases h
  split at h
  · cases h
  split at h
  · cases h
  split at h
  · cases h
  split at h
  · rename_i hpos
    simp only [bind_eq_ok] at h
    obtain ⟨st₁, h₁, ⟨st₂, e⟩, h₂, -, -, h₃⟩ := h
    cases h₃
    have hkept : st₁.shardCount = n ∧ st₁.compactedWatermarks = compacted ∧ st₁.mutations = [] :=
      foldlM_invariant (p := fun st : SourceOfTruth => st.shardCount = n ∧
          st.compactedWatermarks = compacted ∧ st.mutations = [])
        (fun _ _ _ _ hs hi => by
          obtain ⟨hc, hms⟩ := insertOpIndex_kept hi
          rwa [hc, hms, (alike_insertOpIndex hi).shardCount]) ⟨rfl, rfl, rfl⟩ h₁
    have hindex : Indexes ([] ++ ids) st₁.opIndex := Indexes.foldlM_insertOpIndex indexes_nil h₁
    have hstart : Loads st₁ ids [] st₁ :=
      ⟨rfl, rfl, (List.append_nil _).symm, by rwa [List.append_nil]⟩
    have hend : Loads st₁ ids ([] ++ sortBy compareBySlot retained) st₂ :=
      foldlM_collects (p := fun done (acc : SourceOfTruth × List Nat) => Loads st₁ ids done acc.1)
        (fun _ _ _ _ hs hr => hs.retainMutation hr) hstart h₂
    refine ⟨hpos.2, hend.shardCount.trans hkept.1, hend.compacted.trans hkept.2.1, ?_, hend.indexes⟩
    rw [hend.mutations, hkept.2.2]
    rfl
  · cases h

/-- In a gapless history, a shard has each number once. -/
theorem Contiguous.eq_of_seq (h : st.Contiguous) {m' : Mutation} (hm : m ∈ st.mutations)
    (hm' : m' ∈ st.mutations) (hshard : m'.shard = m.shard) (hseq : m'.seq = m.seq) : m' = m := by
  have hnodup : ((shardLog st.mutations m.shard).map Mutation.seq).Nodup := by
    rw [h.numbered]
    exact List.nodup_range'
  exact List.inj_on_of_nodup_map hnodup (mem_shardLog.mpr ⟨hm', hshard⟩) (mem_shardLog.mpr ⟨hm, rfl⟩)
    hseq

end Loads

end SourceOfTruth

/-- What a start with a publisher makes of files with a snapshot. -/
structure Disk.Rebuilds (disk : Disk) (n : Nat) (st : SourceOfTruth) : Prop where
  shardCount : st.shardCount = n
  contiguous : st.Contiguous
  compacted : ∀ s, st.compactedWatermark s ≤ disk.historyFrom n s
  reached : ∀ s, disk.historyFrom n s ≤ st.watermark s
  mutations : ∀ m, m ∈ st.mutations ↔ m ∈ loadAllLogs disk n
  indexed : ∀ id m, st.opIndex.lookup id = some m →
    m ∈ loadAllLogs disk n ∨ ∃ ids, disk.idempotency = some ids ∧ m ∈ ids

theorem Disk.rebuilds_of_load {disk : Disk} {n : Nat} {clusterId : String} {snapshot : Snapshot}
    {st : SourceOfTruth} (hsnap : disk.snapshot = some snapshot)
    (hcount : snapshot.shardCount = max n 1)
    (hl : loadSourceOfTruth disk n clusterId (some (loadPublisherOffsets disk n)) = .ok st) :
    disk.Rebuilds n st := by
  have hwm : ∀ s, disk.snapshotWatermark s = snapshot.watermarks.getD s 0 := fun s => by
    rw [Disk.snapshotWatermark, hsnap]
  obtain ⟨hn, hcases⟩ := loadSourceOfTruth_ok hsnap hl
  rw [hn] at hcount
  rcases hcases with ⟨-, hreplay⟩ | ⟨offsets, heq, hlen, hret⟩ | ⟨hnone, -⟩
  · -- the complete logs
    obtain ⟨-, hok, hreached⟩ := replayCompleteLogs_eq_some.mp hreplay
    have hloads := SourceOfTruth.loads_fromMutations hok
    have hcompacted : ∀ s, st.compactedWatermark s = 0 := fun s => by
      rw [SourceOfTruth.compactedWatermark, hloads.compacted]
      exact (SourceOfTruth.holds_new n clusterId).watermark s
    refine ⟨hloads.shardCount.trans hcount.symm,
      (SourceOfTruth.contiguous_new n clusterId).foldlM_applyLoadedMutation hok, fun s => ?_, fun s => ?_,
      fun m => ?_, fun id m hm => Or.inl ?_⟩
    · rw [hcompacted]
      exact Nat.zero_le _
    · refine (Nat.min_le_right _ _).trans ?_
      rw [hwm, SourceOfTruth.watermark, hreached]
    · rw [hloads.mutations]
      exact mem_sortBy
    · exact mem_sortBy.mp ((hloads.indexes id m).mp hm).1
  · -- the snapshot and the retained history
    cases heq
    obtain ⟨hwlen, hshards, hcompacted, hms, hindex⟩ := SourceOfTruth.loads_fromSnapshotAndRetainedHistory hret
    have hcontiguous := SourceOfTruth.contiguous_fromSnapshotAndRetainedHistory hret
    have hfrom : ∀ s, st.compactedWatermark s = disk.historyFrom n s := fun s => by
      rw [Disk.historyFrom, hwm, SourceOfTruth.compactedWatermark, hcompacted,
        getD_zipWith_min (hlen.trans hwlen.symm)]
      rfl
    refine ⟨hshards, hcontiguous, fun s => (hfrom s).le, fun s => ?_, fun m => ?_, fun id m hm => ?_⟩
    · rw [← hfrom]
      exact hcontiguous.compacted s
    · rw [hms]
      exact mem_sortBy
    · have hmem := ((hindex id m).mp hm).1
      rw [List.mem_append, mem_sortBy] at hmem
      rcases hmem with hmem | hmem
      · unfold Disk.knownOperations at hmem
        split at hmem
        · rename_i ids hids
          exact (List.mem_append.mp hmem).symm.imp_right fun hm => ⟨ids, hids, hm⟩
        · exact Or.inl hmem
      · exact Or.inl hmem
  · cases hnone

/-- What memory and files keep of the mutations `known`, which the node has committed, if those in
`handed` are handed over. -/
structure Unsent (n : Nat) (known handed : Mutation → Prop) (app : App) : Prop where
  outbox : Outbox n known handed app.state.watermark app.disk
  publisher : app.config.publisher = true
  shardCount : app.state.shardCount = max n 1
  length : app.lastPublished.length = n
  published : ∀ s, app.published s = app.disk.published n s
  compacted : ∀ s, app.state.compactedWatermark s ≤ app.published s
  retained : ∀ m, known m → app.published m.shard < m.seq → m ∈ app.state.mutations
  kept : ∀ m ∈ app.state.mutations, known m
  indexed : ∀ id m, app.state.opIndex.lookup id = some m → known m

section Start

variable {n : Nat} {known handed : Mutation → Prop} {reached : Nat → Nat} {disk : Disk}

theorem Outbox.mem_loadAllLogs (h : Outbox n known handed reached disk) (hn : n = max n 1)
    {m : Mutation} : m ∈ loadAllLogs disk n ↔ m ∈ disk.logs m.shard := by
  have hfiled : disk.Filed := fun s m hm => (h.filed s m hm).1
  rw [hfiled.mem_loadAllLogs, and_iff_right_iff_imp, hn]
  exact fun hm => (h.filed _ m hm).2

/-- A start that succeeds has all that was kept, and takes up what else was logged. -/
theorem Outbox.unsent_of_rebuilds (h : Outbox n known handed reached disk) {app : App}
    (hn : n = max n 1) (hst : disk.Rebuilds n app.state) (hdisk : app.disk = disk)
    (hp : app.config.publisher = true) (hlast : app.lastPublished = loadPublisherOffsets disk n) :
    Unsent n (fun m => known m ∨ m ∈ disk.logs m.shard) handed app := by
  subst hdisk
  have hlogs := fun m => @Outbox.mem_loadAllLogs _ _ _ _ _ h hn m
  have hms : ∀ m, m ∈ app.state.mutations ↔ m ∈ app.disk.logs m.shard := fun m =>
    (hst.mutations m).trans (hlogs m)
  have hpublished : ∀ s, app.published s = app.disk.published n s := fun s => by
    rw [App.published, hlast, Disk.published]
  -- a record that is not known is new: where it stands beside a known one, there is no start
  have hnew : ∀ m, m ∈ app.disk.logs m.shard → m.seq ≤ reached m.shard → known m := by
    intro m hm hle
    rcases h.stray m.shard m hm hle with hknown | ⟨m', hm', -, hseq, hne⟩
    · exact hknown
    · have hshard := (h.filed _ m' hm').1
      refine absurd (hst.contiguous.eq_of_seq ((hms m).mpr hm) ((hms m').mpr ?_) hshard hseq) hne
      rwa [hshard]
  have hle : ∀ m, known m ∨ m ∈ app.disk.logs m.shard → m.seq ≤ app.state.watermark m.shard := by
    intro m hm
    by_cases hfrom : app.disk.historyFrom n m.shard < m.seq
    · have hlog := hm.elim (fun hknown => h.logged m hknown hfrom) id
      exact hst.contiguous.seq_le (mem_shardLog.mpr ⟨(hms m).mpr hlog, rfl⟩)
    · exact (Nat.le_of_not_lt hfrom).trans (hst.reached m.shard)
  refine
    { outbox := ⟨h.filed, fun m hm => ⟨?_, hle m hm⟩, fun s hs => ?_, fun m hm hseq => ?_,
        fun m hm hlt => ?_, fun s m hm _ => Or.inl (Or.inr ?_),
        fun ids hids m hm => Or.inl (h.stream ids hids m hm), h.count, fun heq => ?_⟩
      publisher := hp
      shardCount := hst.shardCount.trans hn
      length := by rw [hlast, loadPublisherOffsets_length]
      published := hpublished
      compacted := fun s => ?_
      retained := fun m hm hlt => (hms m).mpr ?_
      kept := fun m hm => Or.inr ((hms m).mp hm)
      indexed := fun id m hm => ?_ }
  · exact hm.elim (fun hknown => (h.bounded m hknown).1) fun hlog => (h.filed _ m hlog).2
  · obtain ⟨m, hm, hshard, hseq⟩ := h.offset s hs
    exact ⟨m, Or.inl hm, hshard, hseq⟩
  · refine h.sent m (hm.elim id fun hlog => hnew m hlog ?_) hseq
    exact hseq.trans (h.published_le m.shard)
  · exact hm.elim (fun hknown => h.logged m hknown hlt) id
  · rw [(h.filed s m hm).1]
    exact hm
  · obtain ⟨hempty, hnone⟩ := h.fresh heq
    refine ⟨hempty, fun m hm => ?_⟩
    rcases hm with hm | hm
    · exact hnone m hm
    · rw [hempty] at hm
      cases hm
  · rw [hpublished]
    exact (hst.compacted s).trans (app.disk.historyFrom_le_published n s)
  · refine hm.elim (fun hknown => h.logged m hknown ?_) id
    rw [hpublished] at hlt
    exact (app.disk.historyFrom_le_published n m.shard).trans_lt hlt
  · rcases hst.indexed id m hm with hlog | ⟨ids, hids, hm⟩
    · exact Or.inr ((hlogs m).mp hlog)
    · exact Or.inl (h.stream ids hids m hm)

/-- A start with a publisher that succeeds has all that was kept. -/
theorem Outbox.boot (h : Outbox n known handed reached disk) {config : Config} {app : App}
    (hn : config.shardCount = n) (hp : config.publisher = true) (hb : boot config disk = .ok app) :
    ∃ known', (∀ m, known m → known' m) ∧ Unsent n known' handed app := by
  simp only [Globacl.boot, hn, hp, if_true] at hb
  cases hl : loadSourceOfTruth disk n config.replication.clusterId
      (some (loadPublisherOffsets disk n)) with
  | error err => rw [hl] at hb; cases hb
  | ok st =>
  rw [hl] at hb
  cases hb
  cases hsnap : disk.snapshot with
  | some snapshot =>
    have hcount := h.count snapshot hsnap
    have hn := (loadSourceOfTruth_ok hsnap hl).1.symm.trans hcount
    exact ⟨_, fun m hm => Or.inl hm,
      h.unsent_of_rebuilds hn (Disk.rebuilds_of_load hsnap hcount hl) rfl hp rfl⟩
  | none =>
    -- nothing is committed before the first snapshot
    obtain ⟨hempty, hnone⟩ := h.fresh hsnap
    have hlogs : loadAllLogs disk n = [] := by
      unfold loadAllLogs
      rw [List.flatMap_eq_nil_iff]
      exact fun s _ => hempty s
    have hst : st = SourceOfTruth.new n config.replication.clusterId := by
      unfold loadSourceOfTruth at hl
      rw [hsnap, hlogs] at hl
      cases hl
      rfl
    subst hst
    refine ⟨known, fun _ hm => hm, ?_⟩
    exact
      { outbox :=
          { h with
            bounded := fun m hm => absurd hm (hnone m)
            stray := fun s m hm => by rw [hempty] at hm; cases hm }
        publisher := hp
        shardCount := rfl
        length := loadPublisherOffsets_length disk n
        published := fun s => rfl
        compacted := fun s => by
          rw [SourceOfTruth.compactedWatermark]
          exact ((SourceOfTruth.holds_new n config.replication.clusterId).watermark s).le.trans
            (Nat.zero_le _)
        retained := fun m hm => absurd hm (hnone m)
        kept := fun m hm => by cases hm
        indexed := fun id m hm => by simp [SourceOfTruth.new] at hm }

end Start

end Globacl
