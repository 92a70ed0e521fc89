import Globacl.Commitd.Commit
import Globacl.Core.Loading

/-!
# What the files of a node hold

The files hold a history if each shard log is a suffix of the shard, the snapshot is one of a
prefix that reaches at least to where the logs begin, and the idempotency stream has at least the
operations that the logs no longer have. The three may be from different moments.

* `DiskHolds`: the files hold a history. `DiskHolds.appendLog` and the other lemmas of this form:
  each single write of a commit or a compaction keeps it.
* `DiskHolds.load`: without a publisher, a start rebuilds the source from such files.
-/

namespace Globacl

open Lib Prog

/-- The latest snapshot is one of a prefix of the history that reaches to where the logs begin. -/
structure SnapshotHolds (n : Nat) (history : List Mutation) (first : Nat → Nat)
    (snapshot : Snapshot) : Prop where
  exists_source : ∃ before st ord, SourceOfTruth.Holds n before st ∧ snapshot = st.snapshot ord ∧
    Behind before history ∧ ∀ s, first s ≤ (shardLog before s).length

/-- The stream names the operations of the history that the logs no longer have, and no others than
those of the history. -/
structure StreamHolds (history : List Mutation) (first : Nat → Nat) (ids : List Mutation) :
    Prop where
  sub : ids ⊆ history
  mem : ∀ m ∈ history, m.seq ≤ first m.shard → m ∈ ids

/-- The files hold the history, with logs that begin behind the number `first` of each shard. -/
structure DiskHolds (n : Nat) (history : List Mutation) (first : Nat → Nat) (disk : Disk) :
    Prop where
  logs : ∀ s, disk.logs s = (shardLog history s).drop (first s)
  snapshot : ∀ snapshot, disk.snapshot = some snapshot → SnapshotHolds n history first snapshot
  noSnapshot : disk.snapshot = none → ∀ s, first s = 0
  stream : ∀ ids, disk.idempotency = some ids → StreamHolds history first ids
  noStream : disk.idempotency = none → ∀ s, first s = 0

/-- Each record is in the log of its shard. -/
def Disk.Filed (disk : Disk) : Prop := ∀ s, ∀ m ∈ disk.logs s, m.shard = s

theorem Disk.Filed.shardLog_loadAllLogs {disk : Disk} (h : disk.Filed) (n s : Nat) :
    shardLog (loadAllLogs disk n) s = if s < n then disk.logs s else [] := by
  have hown : ∀ s', shardLog (disk.logs s') s = if s' = s then disk.logs s' else [] := fun s' => by
    split
    · subst_vars
      exact List.filter_eq_self.mpr fun m hm => by simp [h _ m hm]
    · refine List.filter_eq_nil_iff.mpr fun m hm => ?_
      rw [decide_eq_true_eq, h s' m hm]
      assumption
  unfold loadAllLogs
  induction n with
  | zero => rfl
  | succ n ih =>
    rw [List.range_succ, List.flatMap_append, shardLog_append, ih, List.flatMap_singleton, hown]
    grind

theorem Disk.Filed.mem_loadAllLogs {n : Nat} {disk : Disk} (h : disk.Filed) {m : Mutation} :
    m ∈ loadAllLogs disk n ↔ m.shard < n ∧ m ∈ disk.logs m.shard := by
  unfold loadAllLogs
  rw [List.mem_flatMap]
  constructor
  · rintro ⟨s, hs, hm⟩
    rw [h s m hm]
    exact ⟨List.mem_range.mp hs, hm⟩
  · exact fun ⟨hs, hm⟩ => ⟨_, List.mem_range.mpr hs, hm⟩

theorem DiskHolds.filed {n : Nat} {history : List Mutation} {first : Nat → Nat} {disk : Disk}
    (h : DiskHolds n history first disk) : disk.Filed := fun s m hm => by
  rw [h.logs] at hm
  exact (mem_shardLog.mp (List.mem_of_mem_drop hm)).2

/-- The logs of the files are all that a start reads of them. -/
theorem shardLog_loadAllLogs {n : Nat} {history : List Mutation} {first : Nat → Nat} {disk : Disk}
    (h : DiskHolds n history first disk) (hv : ValidHistory n history) (hn : 0 < n) (s : Nat) :
    shardLog (loadAllLogs disk n) s = (shardLog history s).drop (first s) := by
  rw [h.filed.shardLog_loadAllLogs]
  split
  · exact h.logs s
  · rw [hv.shardLog_eq_nil hn (by omega), List.drop_nil]

/-- The logs do not begin behind the end of the history. -/
theorem DiskHolds.first_le {n : Nat} {history : List Mutation} {first : Nat → Nat} {disk : Disk}
    (h : DiskHolds n history first disk) (s : Nat) : first s ≤ (shardLog history s).length := by
  cases hsnap : disk.snapshot with
  | none => rw [h.noSnapshot hsnap]; exact Nat.zero_le _
  | some snapshot =>
    obtain ⟨before, _, _, _, _, hb, hle⟩ := (h.snapshot snapshot hsnap).exists_source
    exact (hle s).trans (hb.length_le s)

/-! ## Writes -/

section Writes

variable {n : Nat} {history : List Mutation} {first : Nat → Nat} {disk : Disk}

/-- The log append of the next mutation. -/
theorem DiskHolds.appendLog (h : DiskHolds n history first disk) {m : Mutation}
    (hseq : m.seq = (shardLog history m.shard).length + 1) :
    DiskHolds n (history ++ [m]) first
      { disk with logs := Function.update disk.logs m.shard (disk.logs m.shard ++ [m]) } where
  logs s := by
    rw [shardLog_concat, List.drop_append_of_le_length (h.first_le s), ← h.logs]
    dsimp only
    by_cases hs : s = m.shard
    · subst hs
      rw [Function.update_self, if_pos rfl]
    · rw [Function.update_of_ne hs, if_neg (Ne.symm hs), List.append_nil]
  snapshot snap hsnap := by
    obtain ⟨before, st, ord, hst, heq, hb, hle⟩ := (h.snapshot snap hsnap).exists_source
    exact ⟨before, st, ord, hst, heq, hb.trans (behind_append history [m]), hle⟩
  noSnapshot := h.noSnapshot
  stream ids hids := by
    obtain ⟨hsub, hmem⟩ := h.stream ids hids
    refine ⟨fun m' hm' => List.mem_append_left _ (hsub hm'), fun m' hm' hle => ?_⟩
    rcases List.mem_append.mp hm' with hm' | hm'
    · exact hmem m' hm' hle
    · rw [List.mem_singleton] at hm'
      subst hm'
      have := h.first_le m'.shard
      omega
  noStream := h.noStream

/-- What a start does not read may change. -/
theorem DiskHolds.of_unread (h : DiskHolds n history first disk) {disk' : Disk}
    (hl : disk'.logs = disk.logs) (hs : disk'.snapshot = disk.snapshot)
    (hi : disk'.idempotency = disk.idempotency) : DiskHolds n history first disk' where
  logs := by rw [hl]; exact h.logs
  snapshot := by rw [hs]; exact h.snapshot
  noSnapshot := by rw [hs]; exact h.noSnapshot
  stream := by rw [hi]; exact h.stream
  noStream := by rw [hi]; exact h.noStream

/-- A new snapshot. -/
theorem DiskHolds.putSnapshot (h : DiskHolds n history first disk) {st : SourceOfTruth}
    (hst : SourceOfTruth.Holds n history st) (ord : IterOrder) :
    DiskHolds n history first { disk with snapshot := some (st.snapshot ord) } where
  logs := h.logs
  snapshot snap hsnap := by
    cases hsnap
    exact ⟨history, st, ord, hst, rfl, Behind.refl history, h.first_le⟩
  noSnapshot hnone := by cases hnone
  stream := h.stream
  noStream := h.noStream

/-- A new idempotency stream. -/
theorem DiskHolds.putStream (h : DiskHolds n history first disk) {ids : List Mutation}
    (hids : ∀ m, m ∈ ids ↔ m ∈ history) :
    DiskHolds n history first { disk with idempotency := some ids } where
  logs := h.logs
  snapshot := h.snapshot
  noSnapshot := h.noSnapshot
  stream ids' heq := by
    cases heq
    exact ⟨fun m hm => (hids m).mp hm, fun m hm _ => (hids m).mpr hm⟩
  noStream hnone := by cases hnone

/-- A truncated log, when the snapshot and the stream are those of the whole history. -/
theorem DiskHolds.truncateLog (h : DiskHolds n history first disk) (hv : ValidHistory n history)
    {st : SourceOfTruth} (hst : SourceOfTruth.Holds n history st) {ord : IterOrder}
    (hsnap : disk.snapshot = some (st.snapshot ord)) {ids : List Mutation}
    (hstream : disk.idempotency = some ids) (hids : ∀ m, m ∈ ids ↔ m ∈ history) {s k : Nat}
    (hk : k ≤ (shardLog history s).length) :
    DiskHolds n history (Function.update first s (max (first s) k))
      { disk with
        logs := Function.update disk.logs s
          ((disk.logs s).filter fun m => decide (m.seq > k)) } where
  logs s' := by
    dsimp only
    by_cases hs : s' = s
    · subst hs
      rw [Function.update_self, Function.update_self, h.logs, hv.filter_drop]
    · rw [Function.update_of_ne hs, Function.update_of_ne hs, h.logs]
  snapshot snap heq := by
    rw [hsnap] at heq
    cases heq
    refine ⟨history, st, ord, hst, rfl, Behind.refl history, fun s' => ?_⟩
    by_cases hs : s' = s
    · subst hs
      rw [Function.update_self]
      exact Nat.max_le.mpr ⟨h.first_le s', hk⟩
    · rw [Function.update_of_ne hs]
      exact h.first_le s'
  noSnapshot hnone := by rw [hsnap] at hnone; cases hnone
  stream ids' heq := by
    rw [hstream] at heq
    cases heq
    exact ⟨fun m hm => (hids m).mp hm, fun m hm _ => (hids m).mpr hm⟩
  noStream hnone := by rw [hstream] at hnone; cases hnone

/-- The files of a source beside logs with nothing in them. -/
theorem DiskHolds.of_snapshot {st : SourceOfTruth} (hst : SourceOfTruth.Holds n history st)
    {ord : IterOrder} (hsnap : disk.snapshot = some (st.snapshot ord)) {ids : List Mutation}
    (hstream : disk.idempotency = some ids) (hids : ∀ m, m ∈ ids ↔ m ∈ history)
    (hlogs : ∀ s, disk.logs s = []) :
    DiskHolds n history (fun s => (shardLog history s).length) disk where
  logs s := by rw [List.drop_length]; exact hlogs s
  snapshot snap heq := by
    cases hsnap.symm.trans heq
    exact ⟨history, st, ord, hst, rfl, Behind.refl history, fun _ => Nat.le_refl _⟩
  noSnapshot hnone := by cases hsnap.symm.trans hnone
  stream ids' heq := by
    cases hstream.symm.trans heq
    exact ⟨fun m hm => (hids m).mp hm, fun m hm _ => (hids m).mpr hm⟩
  noStream hnone := by cases hstream.symm.trans hnone

end Writes

/-! ## Truncation -/

/-- Some of the logs are truncated, and the other files are as in `disk`. -/
structure Truncating (watermark : Nat → Nat) (disk disk' : Disk) : Prop where
  snapshot : disk'.snapshot = disk.snapshot
  idempotency : disk'.idempotency = disk.idempotency
  logs : ∀ s, disk'.logs s = disk.logs s ∨
    disk'.logs s = (disk.logs s).filter fun m => decide (m.seq > watermark s)

section Truncation

variable {watermark : Nat → Nat} {disk disk' : Disk}

/-- Nothing above the watermark is lost. -/
theorem Truncating.tail (h : Truncating watermark disk disk') (s : Nat) :
    ((disk'.logs s).filter fun m => decide (m.seq > watermark s)) =
      (disk.logs s).filter fun m => decide (m.seq > watermark s) := by
  rcases h.logs s with heq | heq
  · rw [heq]
  · rw [heq, List.filter_filter]
    simp only [Bool.and_self]

theorem Truncating.logs_subset (h : Truncating watermark disk disk') (s : Nat) :
    disk'.logs s ⊆ disk.logs s := by
  rcases h.logs s with heq | heq
  · rw [heq]
    exact List.Subset.refl _
  · rw [heq]
    exact List.filter_subset_self _

/-- One turn of the loop truncates one more log. -/
theorem Truncating.step (h : Truncating watermark disk disk') (s : Nat) :
    Truncating watermark disk
      { disk' with
        logs := Function.update disk'.logs s
          ((disk'.logs s).filter fun m => decide (m.seq > watermark s)) } where
  snapshot := h.snapshot
  idempotency := h.idempotency
  logs s' := by
    dsimp only
    by_cases hs : s' = s
    · subst hs
      rw [Function.update_self]
      exact Or.inr (h.tail s')
    · rw [Function.update_of_ne hs]
      exact h.logs s'

/-- The loop succeeds; when it is done, the log of each shard is truncated, and wherever it stops,
some of them are. -/
theorem truncating_compactLogsToWatermarks {watermarks : List Nat} {shardCount : Nat}
    (hlen : watermarks.length = shardCount) (app₀ : App) :
    Triple (fun app => app = app₀) (compactLogsToWatermarks shardCount watermarks)
      (fun _ app => Truncating (fun s => watermarks.getD s 0) app₀.disk app.disk ∧
        ∀ s < shardCount, app.disk.logs s =
          (app₀.disk.logs s).filter fun m => decide (m.seq > watermarks.getD s 0))
      (fun _ => False)
      fun crashed => Truncating (fun s => watermarks.getD s 0) app₀.disk crashed.disk := by
  -- the logs of the shards in `rest` are still to be truncated
  let k : List Nat → App → Prop := fun rest app =>
    Truncating (fun s => watermarks.getD s 0) app₀.disk app.disk ∧
      ∀ s < shardCount, s ∉ rest → app.disk.logs s =
        (app₀.disk.logs s).filter fun m => decide (m.seq > watermarks.getD s 0)
  have hturn : ∀ s rest app, k (s :: rest) app → k rest { app with disk := { app.disk with
      logs := Function.update app.disk.logs s ((app.disk.logs s).filter fun m =>
        decide (m.seq > watermarks.getD s 0)) } } := by
    rintro s rest app ⟨ht, hdone⟩
    refine ⟨ht.step s, fun s' hs' hrest => ?_⟩
    dsimp only
    by_cases hs : s' = s
    · subst hs
      rw [Function.update_self]
      exact ht.tail s'
    · rw [Function.update_of_ne hs]
      exact hdone s' hs' (by simp [hs, hrest])
  refine Triple.ite (fun hne => absurd hlen hne) fun _ =>
    (Triple.forEach (I := k) (fun s rest => Triple.step (hturn s rest)
      fun app h => (hturn s rest app h).1) _).conseq ?_
      (fun _ _ h => ⟨h.1, fun s hs => h.2 s hs List.not_mem_nil⟩) (fun _ h => h) fun _ h => h
  rintro app rfl
  exact ⟨⟨rfl, rfl, fun _ => Or.inl rfl⟩,
    fun s hs hrest => absurd (List.mem_range.mpr hs) hrest⟩

end Truncation

/-! ## A start without a publisher -/

section Load

variable {n : Nat} {history : List Mutation} {first : Nat → Nat} {disk : Disk}

theorem mem_loadAllLogs (h : DiskHolds n history first disk) (hv : ValidHistory n history)
    (hn : 0 < n) (m : Mutation) :
    m ∈ loadAllLogs disk n ↔ m ∈ history ∧ first m.shard < m.seq := by
  have hself : m ∈ loadAllLogs disk n ↔ m ∈ shardLog (loadAllLogs disk n) m.shard := by
    simp [mem_shardLog]
  rw [hself, shardLog_loadAllLogs h hv hn, ← hv.filter_seq, List.mem_filter, mem_shardLog,
    decide_eq_true_eq]
  simp

/-- The stream and the logs together name exactly the operations of the history. -/
theorem DiskHolds.mem_operations (h : DiskHolds n history first disk)
    (hv : ValidHistory n history) (hn : 0 < n) (m : Mutation) :
    (m ∈ match disk.idempotency with
      | some mutations => mutations ++ loadAllLogs disk n
      | none => loadAllLogs disk n) ↔ m ∈ history := by
  have hlog := mem_loadAllLogs h hv hn m
  cases hi : disk.idempotency with
  | none =>
    dsimp only
    rw [hlog, h.noStream hi]
    refine and_iff_left_of_imp fun hm => ?_
    obtain ⟨i, hi⟩ := List.mem_iff_getElem?.mp (mem_shardLog.mpr ⟨hm, rfl⟩)
    rw [hv.numbered _ _ _ hi]
    omega
  | some ids =>
    have hs := h.stream ids hi
    dsimp only
    rw [List.mem_append, hlog]
    constructor
    · exact fun hm => hm.elim (fun hm => hs.sub hm) fun hm => hm.1
    · intro hm
      by_cases hle : m.seq ≤ first m.shard
      · exact Or.inl (hs.mem m hm hle)
      · exact Or.inr ⟨hm, by omega⟩

/-- Without a publisher, a start rebuilds the source from its files. -/
theorem DiskHolds.load (h : DiskHolds n history first disk) (hn : 0 < n)
    (hv : ValidHistory n history) (hid : SourceOfTruth.DistinctOps history) (clusterId : String) :
    ∃ st, loadSourceOfTruth disk n clusterId none = .ok st ∧
      SourceOfTruth.Retains n history st := by
  have hlogs := shardLog_loadAllLogs h hv hn
  unfold loadSourceOfTruth
  cases hsnap : disk.snapshot with
  | none =>
    have hmax : max n 1 = n := by omega
    obtain ⟨st, hst, -, hr⟩ := @SourceOfTruth.fromMutations_ok n clusterId
      history (loadAllLogs disk n) (by rwa [hmax]) hid fun s => .of_eq (by
        rw [hlogs, h.noSnapshot hsnap, List.drop_zero])
    exact ⟨st, hst, by rwa [hmax] at hr⟩
  | some snapshot =>
    obtain ⟨before, st₀, ord, h₀, rfl, hb, hle⟩ := (h.snapshot snapshot hsnap).exists_source
    have hcount : (st₀.snapshot ord).shardCount = n := h₀.shardCount
    dsimp only
    rw [h₀.validate_snapshot ord]
    dsimp only
    rw [if_neg (not_not.mpr hcount)]
    have hshard : ∀ m ∈ loadAllLogs disk n, m.shard < (st₀.snapshot ord).watermarks.length := by
      intro m hm
      obtain ⟨s, hs, hm⟩ := List.mem_flatMap.mp hm
      rw [h.logs] at hm
      rw [(mem_shardLog.mp (List.mem_of_mem_drop hm)).2]
      exact Nat.lt_of_lt_of_eq (List.mem_range.mp hs)
        (h₀.shardCount.symm.trans st₀.watermarks_length.symm)
    rw [tailMutations_eq hshard]
    have htail : ∀ s, shardLog ((loadAllLogs disk n).filter fun m =>
        decide (m.seq > (st₀.snapshot ord).watermarks.getD m.shard 0)) s =
        (shardLog history s).drop (shardLog before s).length := fun s => by
      have hwm : (st₀.snapshot ord).watermarks.getD s 0 = (shardLog before s).length :=
        h₀.watermark s
      rw [shardLog_filter_seq _ ((st₀.snapshot ord).watermarks.getD · 0), hlogs, hwm,
        hv.filter_drop, Nat.max_eq_right (hle s)]
    obtain ⟨st, hst, -, hr⟩ := SourceOfTruth.fromSnapshotAndMutations_ok clusterId h₀ ord hv hid hb
      (fun m hm => (h.mem_operations hv hn m).mp hm) (fun s => .of_eq (htail s))
      fun m hm => Or.inl ((h.mem_operations hv hn m).mpr hm)
    exact ⟨st, hst, hr⟩

/-! ## A start with a publisher -/

/-- Whether the logs begin where a start with a publisher expects them: all at the very beginning, or
each right behind the offset of its shard. -/
def LogsFit (disk : Disk) (n : Nat) (watermark offset : Nat → Nat) : Prop :=
  (∀ s < n, (disk.logs s).length = watermark s) ∨
    ∀ s < n, (disk.logs s).length = watermark s - offset s

theorem DiskHolds.logsFit_iff (h : DiskHolds n history first disk) (offset : Nat → Nat) :
    LogsFit disk n (fun s => (shardLog history s).length) offset ↔
      (∀ s < n, first s = 0) ∨ ∀ s < n, min (offset s) (shardLog history s).length = first s := by
  have hlen : ∀ s, (disk.logs s).length = (shardLog history s).length - first s := fun s => by
    rw [h.logs, List.length_drop]
  have hfull : ∀ s, (disk.logs s).length = (shardLog history s).length ↔ first s = 0 := fun s => by
    have := hlen s
    have := h.first_le s
    omega
  have hfit : ∀ s, (disk.logs s).length = (shardLog history s).length - offset s ↔
      min (offset s) (shardLog history s).length = first s := fun s => by
    have := hlen s
    have := h.first_le s
    omega
  unfold LogsFit
  simp only [hfull, hfit]

theorem replayCompleteLogs_eq_some {clusterId : String} {snapshot : Snapshot}
    {logs : List Mutation} {st : SourceOfTruth} :
    replayCompleteLogs n clusterId snapshot logs = some st ↔
      logs ≠ [] ∧ SourceOfTruth.fromMutations n clusterId logs = .ok st ∧
        st.watermarks = snapshot.watermarks := by
  unfold replayCompleteLogs
  cases logs with
  | nil => simp
  | cons m l =>
    simp only [List.isEmpty_cons, Bool.false_eq_true, if_false, ne_eq, reduceCtorEq,
      not_false_eq_true, true_and]
    cases SourceOfTruth.fromMutations n clusterId (m :: l) with
    | error err => simp
    | ok replayed =>
      simp only [Option.ite_none_right_eq_some, Option.some.injEq, Except.ok.injEq]
      constructor
      · rintro ⟨hw, rfl⟩
        exact ⟨rfl, hw⟩
      · rintro ⟨rfl, hw⟩
        exact ⟨hw, rfl⟩

/-- The logs alone reach the watermarks exactly if no log was ever truncated. -/
theorem DiskHolds.first_of_replay (h : DiskHolds n history first disk)
    {st₀ st : SourceOfTruth} (h₀ : st₀.Holds n history) {ord : IterOrder}
    (hid : SourceOfTruth.DistinctOps history) {clusterId : String}
    (hst : replayCompleteLogs n clusterId (st₀.snapshot ord) (loadAllLogs disk n) = some st) :
    (∀ s, first s = 0) ∧ st.Retains n history := by
  have hn : 0 < n := h₀.shardCount ▸ st₀.shardCount_pos
  have hmax : max n 1 = n := by omega
  have hlogs := shardLog_loadAllLogs h h₀.valid hn
  obtain ⟨-, hok, hwm⟩ := replayCompleteLogs_eq_some.mp hst
  have hfirst : ∀ s, first s = 0 := fun s => by
    -- the replay counts the logs, and they must reach the watermark
    have hcount := SourceOfTruth.foldlM_applyLoadedMutation_watermark hok s
    have hreach : st.watermark s = (shardLog history s).length :=
      (congrArg (fun l : List Nat => l.getD s 0) hwm).trans (h₀.watermark s)
    have hzero : (SourceOfTruth.new n clusterId).watermark s = 0 :=
      (SourceOfTruth.holds_new n clusterId).watermark s
    have hsort : shardLog (sortBy SourceOfTruth.compareBySlot (loadAllLogs disk n)) s =
        (shardLog history s).drop (first s) := by
      rw [shardLog_sortBy (by rw [hlogs]; exact (h₀.valid.pairwise_seq s).drop), hlogs]
    rw [hreach, hzero, hsort, List.length_drop] at hcount
    have := h.first_le s
    omega
  refine ⟨hfirst, ?_⟩
  obtain ⟨st', hst', -, hr⟩ := @SourceOfTruth.fromMutations_ok n clusterId
    history (loadAllLogs disk n) (by rw [hmax]; exact h₀.valid) hid fun s => .of_eq (by
      rw [hlogs, hfirst, List.drop_zero])
  rw [hok] at hst'
  cases hst'
  rwa [hmax] at hr

/-- With a publisher, a start succeeds exactly if the logs fit its offsets, and then it rebuilds the
source. -/
theorem DiskHolds.load_published (h : DiskHolds n history first disk)
    {st₀ : SourceOfTruth} (h₀ : st₀.Holds n history) {ord : IterOrder}
    (hsnap : disk.snapshot = some (st₀.snapshot ord)) (hid : SourceOfTruth.DistinctOps history)
    (clusterId : String) {offsets : List Nat} (hlen : offsets.length = n) :
    (LogsFit disk n (fun s => (shardLog history s).length) (offsets.getD · 0) →
      ∃ st, loadSourceOfTruth disk n clusterId (some offsets) = .ok st) ∧
    ∀ st, loadSourceOfTruth disk n clusterId (some offsets) = .ok st →
      st.Retains n history ∧
        LogsFit disk n (fun s => (shardLog history s).length) (offsets.getD · 0) := by
  have hn : 0 < n := h₀.shardCount ▸ st₀.shardCount_pos
  have hlogs := shardLog_loadAllLogs h h₀.valid hn
  have hcount : (st₀.snapshot ord).shardCount = n := h₀.shardCount
  have hwlen : (st₀.snapshot ord).watermarks.length = n := st₀.watermarks_length.trans h₀.shardCount
  let compacted := List.zipWith min offsets (st₀.snapshot ord).watermarks
  have hclen : compacted.length = n := by
    rw [List.length_zipWith, hlen, hwlen, Nat.min_self]
  have hcomp : ∀ s, compacted.getD s 0 = min (offsets.getD s 0) (shardLog history s).length :=
    fun s => by
      rw [getD_zipWith_min (hlen.trans hwlen.symm)]
      exact congrArg _ (h₀.watermark s)
  rw [h.logsFit_iff]
  unfold loadSourceOfTruth
  rw [hsnap]
  dsimp only
  rw [h₀.validate_snapshot ord]
  dsimp only
  rw [if_neg (not_not.mpr hcount)]
  cases hreplay : replayCompleteLogs n clusterId (st₀.snapshot ord) (loadAllLogs disk n) with
  | some st =>
    obtain ⟨hfirst, hr⟩ := h.first_of_replay h₀ hid hreplay
    refine ⟨fun _ => ⟨st, rfl⟩, fun st' heq => ?_⟩
    cases heq
    exact ⟨hr, Or.inl fun s _ => hfirst s⟩
  | none =>
    dsimp only
    rw [if_neg (not_not.mpr hlen)]
    have hout : ∀ s, n ≤ s → first s = 0 := fun s hs => by
      have := h.first_le s
      rw [h₀.valid.shardLog_eq_nil hn hs, List.length_nil] at this
      omega
    -- complete logs are replayed, unless there are none
    have hempty : (∀ s, first s = 0) → ∀ s, (shardLog history s).length = 0 := fun hz s => by
      have hmax : max n 1 = n := by omega
      obtain ⟨st, hst, -, hr⟩ := @SourceOfTruth.fromMutations_ok n clusterId
        history (loadAllLogs disk n) (by rw [hmax]; exact h₀.valid) hid fun s => .of_eq (by
          rw [hlogs, hz, List.drop_zero])
      rw [hmax] at hr
      by_cases hl : loadAllLogs disk n = []
      · have := hlogs s
        rw [hl, hz, List.drop_zero] at this
        rw [← this]
        rfl
      · rw [replayCompleteLogs_eq_some.mpr ⟨hl, hst, hr.watermarks_eq h₀⟩] at hreplay
        cases hreplay
    constructor
    · intro hfit
      have hall : ∀ s, compacted.getD s 0 = first s := fun s => by
        rw [hcomp]
        by_cases hs : s < n
        · rcases hfit with hz | hfit
          · have hzero : ∀ s, first s = 0 := fun s => by
              by_cases hs : s < n
              · exact hz s hs
              · exact hout s (by omega)
            rw [hempty hzero, hzero, Nat.min_zero]
          · exact hfit s hs
        · rw [hout s (by omega), h₀.valid.shardLog_eq_nil hn (by omega), List.length_nil,
            Nat.min_zero]
      obtain ⟨st, hst, -⟩ := SourceOfTruth.fromSnapshotAndRetainedHistory_ok clusterId h₀ ord h₀.valid
        hid (Behind.refl _) (fun m hm => (h.mem_operations h₀.valid hn m).mp hm)
        (fun s => .of_eq (hlogs s))
        (fun m hm => Or.inl ((h.mem_operations h₀.valid hn m).mpr hm)) h.first_le hclen hall
      exact ⟨st, hst⟩
    · intro st hst
      have hall := SourceOfTruth.eq_of_fromSnapshotAndRetainedHistory h₀ hst hlogs h.first_le
        fun s => (hcomp s).trans_le (Nat.min_le_right _ _)
      obtain ⟨st', hst', -, hr⟩ := SourceOfTruth.fromSnapshotAndRetainedHistory_ok clusterId h₀ ord
        h₀.valid hid (Behind.refl _) (fun m hm => (h.mem_operations h₀.valid hn m).mp hm)
        (fun s => .of_eq (hlogs s))
        (fun m hm => Or.inl ((h.mem_operations h₀.valid hn m).mpr hm)) h.first_le hclen hall
      cases hst.symm.trans hst'
      exact ⟨hr, Or.inr fun s _ => (hcomp s).symm.trans (hall s)⟩

end Load

end Globacl
