import Globacl.Commitd.Recovery
import Globacl.Commitd.Sync

/-!
# A crash during the install of a snapshot (`globacl-commitd/src/app/consensus.rs`)

`install_snapshot_from_leader` writes the snapshot of the leader, then the idempotency stream, then
each shard log without what the snapshot has. A start that finds the new snapshot beside the old
stream takes the watermarks of the leader, and knows only the operations that the follower had.

* `Disk.RecoversOps`: a start succeeds, and knows the operations up to its watermarks.
* `recoversOps_iff`: the files beside a snapshot for which this is so.
* `install_crashSafe_iff`: when it is so wherever the install may crash.
-/

namespace Globacl

open Lib Prog

/-- The operations that a start reads beside the snapshot. -/
def Disk.operations (disk : Disk) (n : Nat) : List Mutation :=
  match disk.idempotency with
  | some mutations => mutations ++ loadAllLogs disk n
  | none => loadAllLogs disk n

/-- The mutations of a log above `watermark` have the numbers right behind it, each once. -/
def GoesOn (watermark : Nat) (log : List Mutation) : Prop :=
  let tail := log.filter fun m => decide (m.seq > watermark)
  (tail.map Mutation.seq).Perm (List.range' (watermark + 1) tail.length)

/-- A start without a publisher succeeds, and its index has each operation, of those that the leader
committed and those in the logs, up to its watermarks. -/
def Disk.RecoversOps (committed : List Mutation) (n : Nat) (clusterId : String) (disk : Disk) :
    Prop :=
  ∃ st, loadSourceOfTruth disk n clusterId none = .ok st ∧
    ∀ m, m ∈ committed ∨ m ∈ loadAllLogs disk n → m.seq ≤ st.watermark m.shard →
      m.opId ∈ st.opIndex

/-- Wherever the program crashes, a start of the node as it is configured recovers the operations. -/
def CrashSafe (committed : List Mutation) (c : Program Unit) (app : App) : Prop :=
  ∀ crashed ∈ (c app).points,
    crashed.disk.RecoversOps committed app.config.shardCount app.config.replication.clusterId

/-! ## What a start reads -/

section Load

variable {n : Nat} {committed : List Mutation} {st₀ : SourceOfTruth} {disk : Disk}

theorem loadAllLogs_subset_operations : loadAllLogs disk n ⊆ disk.operations n := by
  unfold Disk.operations
  split
  · exact List.subset_append_right _ _
  · exact List.Subset.refl _

/-- The mutations that a start replays after the snapshot. -/
def tailOf (st₀ : SourceOfTruth) (disk : Disk) (n : Nat) : List Mutation :=
  (loadAllLogs disk n).filter fun m => decide (m.seq > st₀.watermark m.shard)

/-- A start refuses a snapshot of another number of shards. -/
theorem Disk.RecoversOps.shardCount {k : Nat} {clusterId : String}
    (h : disk.RecoversOps committed k clusterId) {snapshot : Snapshot}
    (hsnap : disk.snapshot = some snapshot) : snapshot.shardCount = k := by
  obtain ⟨st, hst, -⟩ := h
  unfold loadSourceOfTruth at hst
  rw [hsnap] at hst
  dsimp only at hst
  split at hst
  · cases hst
  · by_contra hne
    rw [if_pos hne] at hst
    cases hst

theorem tailOf_subset : tailOf st₀ disk n ⊆ disk.operations n := fun _ hm =>
  loadAllLogs_subset_operations (List.mem_of_mem_filter hm)

theorem loadSourceOfTruth_eq (h₀ : st₀.Holds n committed) {ord : IterOrder} (clusterId : String)
    (hsnap : disk.snapshot = some (st₀.snapshot ord)) (hfiled : disk.Filed) :
    loadSourceOfTruth disk n clusterId none =
      SourceOfTruth.fromSnapshotAndMutations n clusterId (st₀.snapshot ord) (disk.operations n)
        (tailOf st₀ disk n) := by
  have hcount : (st₀.snapshot ord).shardCount = n := h₀.shardCount
  have hshard : ∀ m ∈ loadAllLogs disk n, m.shard < (st₀.snapshot ord).watermarks.length :=
    fun m hm => (hfiled.mem_loadAllLogs.mp hm).1.trans_eq
      (h₀.shardCount.symm.trans st₀.watermarks_length.symm)
  unfold loadSourceOfTruth
  rw [hsnap]
  dsimp only
  rw [h₀.validate_snapshot ord]
  dsimp only
  rw [if_neg (not_not.mpr hcount), tailMutations_eq hshard]
  rfl

/-- The files beside a snapshot of what the leader committed: a start succeeds and knows the
operations exactly when no two operations have one id, the logs go on behind the snapshot, and each
operation of the snapshot is in the stream or in a log. -/
theorem recoversOps_iff (h₀ : st₀.Holds n committed) {ord : IterOrder} (clusterId : String)
    (hsnap : disk.snapshot = some (st₀.snapshot ord)) (hfiled : disk.Filed) :
    disk.RecoversOps committed n clusterId ↔
      (SourceOfTruth.DistinctOps (disk.operations n) ∧
        ∀ s < n, GoesOn (st₀.watermark s) (disk.logs s)) ∧
      ∀ m ∈ committed, ∃ m' ∈ disk.operations n, m'.opId = m.opId := by
  have htail : (∀ m ∈ tailOf st₀ disk n, m.shard < n) ∧
      (∀ s, ((shardLog (tailOf st₀ disk n) s).map Mutation.seq).Perm
        (List.range' (st₀.watermark s + 1) (shardLog (tailOf st₀ disk n) s).length)) ↔
      ∀ s < n, GoesOn (st₀.watermark s) (disk.logs s) := by
    have hlog : ∀ s, shardLog (tailOf st₀ disk n) s =
        if s < n then (disk.logs s).filter fun m => decide (m.seq > st₀.watermark s) else [] :=
      fun s => by
        rw [tailOf, shardLog_filter_seq, hfiled.shardLog_loadAllLogs]
        split
        · rfl
        · rfl
    have hshard : ∀ m ∈ tailOf st₀ disk n, m.shard < n := fun m hm =>
      (hfiled.mem_loadAllLogs.mp (List.mem_of_mem_filter hm)).1
    rw [and_iff_right hshard]
    refine forall_congr' fun s => ?_
    rw [hlog]
    by_cases hs : s < n
    · rw [if_pos hs]
      exact ⟨fun h _ => h, fun h => h hs⟩
    · rw [if_neg hs]
      exact iff_of_true (List.Perm.refl _) fun h => absurd h hs
  have hloads := SourceOfTruth.exists_fromSnapshotAndMutations_iff clusterId ord h₀
    (@tailOf_subset n st₀ disk)
  rw [htail, ← loadSourceOfTruth_eq h₀ clusterId hsnap hfiled] at hloads
  have hknown : ∀ st, loadSourceOfTruth disk n clusterId none = .ok st →
      SourceOfTruth.Indexes (disk.operations n) st.opIndex ∧
        ∀ s, st₀.watermark s ≤ st.watermark s := fun st hst =>
    SourceOfTruth.fromSnapshotAndMutations_loads h₀ tailOf_subset
      ((loadSourceOfTruth_eq h₀ clusterId hsnap hfiled).symm.trans hst)
  have hmem : ∀ {st : SourceOfTruth} {id : String},
      SourceOfTruth.Indexes (disk.operations n) st.opIndex →
      (id ∈ st.opIndex ↔ ∃ m ∈ disk.operations n, m.opId = id) := fun hi => by
    rw [HashMap.mem_iff_lookup]
    exact exists_congr fun m => hi _ m
  rw [← hloads]
  constructor
  · rintro ⟨st, hst, hops⟩
    obtain ⟨hi, hwm⟩ := hknown st hst
    refine ⟨⟨st, hst⟩, fun m hm => (hmem hi).mp (hops m (Or.inl hm) ?_)⟩
    have hin := (List.getElem?_eq_some_iff.mp (h₀.valid.getElem?_seq hm)).1
    have hle := hwm m.shard
    rw [h₀.watermark] at hle
    omega
  · rintro ⟨⟨st, hst⟩, hops⟩
    obtain ⟨hi, -⟩ := hknown st hst
    refine ⟨st, hst, fun m hm _ => (hmem hi).mpr ?_⟩
    rcases hm with hm | hm
    · exact hops m hm
    · exact ⟨m, loadAllLogs_subset_operations hm, rfl⟩

end Load

/-! ## Where the install may crash -/

section Install

variable {n : Nat} {committed : List Mutation} {leader rebuilt : SourceOfTruth} {app : App}
  {ord : IterOrder}

/-- `install_snapshot_from_leader` behind its first two writes. -/
def truncateLogs (ord : IterOrder) (rebuilt : SourceOfTruth) : Program Unit := do
  compactLogsToWatermarks rebuilt.shardCount (rebuilt.snapshot ord).watermarks
  let rebuilt ← Prog.lift (rebuilt.compactMutationHistory (rebuilt.snapshot ord).watermarks)
  setState rebuilt

/-- The files behind the first write. -/
def withSnapshot (ord : IterOrder) (rebuilt : SourceOfTruth) (app : App) : App :=
  { app with disk := { app.disk with snapshot := some (rebuilt.snapshot ord) } }

/-- The files behind the second write. -/
def withStream (ord : IterOrder) (rebuilt : SourceOfTruth) (app : App) : App :=
  { withSnapshot ord rebuilt app with
    disk :=
      { (withSnapshot ord rebuilt app).disk with
        idempotency := some (rebuilt.idempotencyMutations ord) } }

/-- The snapshot and the stream of a state that represents what the leader committed make a state
that represents the same. -/
theorem install_rebuilds (ord₁ ord₂ : IterOrder) (sourceRegion : String)
    (h : leader.Represents n committed) :
    ∃ rebuilt, SourceOfTruth.fromSnapshotAndMutations n sourceRegion (leader.snapshot ord₁)
        (leader.idempotencyMutations ord₂) [] = .ok rebuilt ∧
      rebuilt.Represents n committed := by
  have hids : ∀ m, m ∈ leader.idempotencyMutations ord₂ ↔ m ∈ committed := fun m => by
    rw [SourceOfTruth.idempotencyMutations, mem_sortBy, leader.opIndex_keyed.mem_values, h.opIndex]
    exact and_iff_left rfl
  obtain ⟨rebuilt, hok, -, hr⟩ := SourceOfTruth.fromSnapshotAndMutations_ok sourceRegion h.toHolds
    ord₁ h.valid h.opIndex.distinctOps (Behind.refl committed) (fun m hm => (hids m).mp hm)
    (fun s => .of_eq (by rw [List.drop_length, shardLog_nil])) fun m hm => Or.inl ((hids m).mpr hm)
  exact ⟨rebuilt, hok, hr.toRepresents⟩

theorem install_points (ord₁ ord₂ : IterOrder) (h : leader.Represents n committed)
    (hcount : app.state.shardCount = n) :
    ∃ rebuilt, rebuilt.Represents n committed ∧
      (installSnapshotFromLeader ord (leader.snapshot ord₁) (leader.idempotencyMutations ord₂)
        app).points = withSnapshot ord rebuilt app :: withStream ord rebuilt app ::
          (truncateLogs ord rebuilt (withStream ord rebuilt app)).points := by
  obtain ⟨rebuilt, hok, hr⟩ :=
    install_rebuilds ord₁ ord₂ app.config.replication.clusterId h
  refine ⟨rebuilt, hr, ?_⟩
  unfold installSnapshotFromLeader
  rw [get_bind_apply, h.validate_snapshot ord₁, lift_ok_bind_apply, hcount, hok, lift_ok_bind_apply]
  rfl

/-- A snapshot of another number of shards is not installed. -/
theorem install_points_of_ne (ord₁ ord₂ : IterOrder) (h : leader.Represents n committed)
    (hcount : app.state.shardCount ≠ n) :
    (installSnapshotFromLeader ord (leader.snapshot ord₁) (leader.idempotencyMutations ord₂)
      app).points = [] := by
  have hne : (leader.snapshot ord₁).shardCount ≠ app.state.shardCount := fun heq =>
    hcount (heq.symm.trans h.shardCount)
  unfold installSnapshotFromLeader
  rw [get_bind_apply, h.validate_snapshot ord₁, lift_ok_bind_apply]
  unfold SourceOfTruth.fromSnapshotAndMutations
  rw [if_pos hne, lift_error_bind_apply]

theorem truncating_points (ord : IterOrder) (rebuilt : SourceOfTruth) (app : App) :
    ∀ crashed ∈ (truncateLogs ord rebuilt app).points,
      Truncating rebuilt.watermark app.disk crashed.disk := by
  let k : App → Prop := fun app' => Truncating rebuilt.watermark app.disk app'.disk
  have hall : Triple (fun app' => app' = app) (truncateLogs ord rebuilt) (fun _ => k)
      (fun _ => True) k := by
    refine Triple.bind (q := fun _ => k)
      ((truncating_compactLogsToWatermarks rebuilt.watermarks_length app).conseq (fun _ h => h)
        (fun _ _ h => h.1) (fun _ h => h.elim) fun _ h => h) fun _ => ?_
    exact Triple.bind (q := fun _ => k) (Triple.lift (fun _ _ _ h => h) fun _ _ _ _ => trivial)
      fun _ => Triple.step (fun _ h => h) fun _ h => h
  exact hall.crash app rfl

/-- To truncate logs takes nothing that a start would replay. -/
theorem Truncating.goesOn_iff {watermark : Nat → Nat} {disk disk' : Disk}
    (h : Truncating watermark disk disk') (s : Nat) :
    GoesOn (watermark s) (disk'.logs s) ↔ GoesOn (watermark s) (disk.logs s) := by
  unfold GoesOn
  rw [h.tail]

theorem Truncating.loadAllLogs_subset {watermark : Nat → Nat} {disk disk' : Disk}
    (h : Truncating watermark disk disk') (n : Nat) : loadAllLogs disk' n ⊆ loadAllLogs disk n := by
  intro m hm
  obtain ⟨s, hs, hm⟩ := List.mem_flatMap.mp hm
  exact List.mem_flatMap.mpr ⟨s, hs, h.logs_subset s hm⟩

/-- What the leader committed and the logs of the follower have one meaning for each id exactly when
they do so by themselves and agree. -/
theorem distinctOps_append_iff {ids logs : List Mutation}
    (hids : SourceOfTruth.DistinctOps ids) (hlogs : SourceOfTruth.DistinctOps logs) :
    SourceOfTruth.DistinctOps (ids ++ logs) ↔ ∀ m ∈ ids, ∀ m' ∈ logs, m.opId = m'.opId → m = m' := by
  constructor
  · exact fun h m hm m' hm' =>
      h m (List.mem_append_left _ hm) m' (List.mem_append_right _ hm')
  · intro h m hm m' hm' hid
    rcases List.mem_append.mp hm with hm | hm <;> rcases List.mem_append.mp hm' with hm' | hm'
    · exact hids m hm m' hm' hid
    · exact h m hm m' hm' hid
    · exact (h m' hm' m hm hid.symm).symm
    · exact hlogs m hm m' hm' hid

/-- Behind the first write, the new snapshot is beside the old stream and the old logs. -/
theorem withSnapshot_recoversOps_iff (h : rebuilt.Represents n committed)
    (hfiled : app.disk.Filed) (clusterId : String) :
    (withSnapshot ord rebuilt app).disk.RecoversOps committed n clusterId ↔
      (SourceOfTruth.DistinctOps (app.disk.operations n) ∧
        ∀ s < n, GoesOn (rebuilt.watermark s) (app.disk.logs s)) ∧
      ∀ m ∈ committed, ∃ m' ∈ app.disk.operations n, m'.opId = m.opId :=
  @recoversOps_iff n committed rebuilt (withSnapshot ord rebuilt app).disk h.toHolds ord clusterId
    rfl hfiled

/-- Behind the second write and each later one, the stream has what the leader committed. -/
theorem truncating_recoversOps_iff (h : rebuilt.Represents n committed) (hfiled : app.disk.Filed)
    (clusterId : String) {disk : Disk}
    (ht : Truncating rebuilt.watermark (withStream ord rebuilt app).disk disk) :
    disk.RecoversOps committed n clusterId ↔
      SourceOfTruth.DistinctOps (rebuilt.idempotencyMutations ord ++ loadAllLogs disk n) ∧
        ∀ s < n, GoesOn (rebuilt.watermark s) (app.disk.logs s) := by
  have hops : disk.operations n = rebuilt.idempotencyMutations ord ++ loadAllLogs disk n := by
    unfold Disk.operations
    rw [ht.idempotency]
    rfl
  rw [@recoversOps_iff n committed rebuilt disk h.toHolds ord clusterId ht.snapshot
    (fun s m hm => hfiled s m (ht.logs_subset s hm)), hops]
  simp only [ht.goesOn_iff]
  refine and_iff_left fun m hm => ⟨m, List.mem_append_left _ ?_, rfl⟩
  rw [SourceOfTruth.idempotencyMutations, mem_sortBy, rebuilt.opIndex_keyed.mem_values, h.opIndex]
  exact ⟨hm, rfl⟩

/-- An install is safe against crashes exactly when the follower is configured with the shards that it
has, it already knows each operation that the leader committed, its files have no two mutations of
one operation, neither among themselves nor with the leader, and each log goes on behind the
snapshot. -/
theorem install_crashSafe_iff (ord ord₁ ord₂ : IterOrder) (h : leader.Represents n committed)
    (hfiled : app.disk.Filed) :
    CrashSafe committed (installSnapshotFromLeader ord (leader.snapshot ord₁)
        (leader.idempotencyMutations ord₂)) app ↔
      (app.state.shardCount = n → app.config.shardCount = n ∧
        (∀ m ∈ committed, ∃ m' ∈ app.disk.operations n, m'.opId = m.opId) ∧
        SourceOfTruth.DistinctOps (app.disk.operations n) ∧
        (∀ m ∈ committed, ∀ m' ∈ loadAllLogs app.disk n, m.opId = m'.opId → m = m') ∧
        ∀ s < n, GoesOn (leader.watermark s) (app.disk.logs s)) := by
  by_cases hcount : app.state.shardCount = n
  swap
  · refine iff_of_true (fun crashed hc => ?_) fun heq => absurd heq hcount
    rw [install_points_of_ne ord₁ ord₂ h hcount] at hc
    cases hc
  obtain ⟨rebuilt, hr, hpoints⟩ := @install_points n committed leader app ord ord₁ ord₂ h hcount
  have hwm : rebuilt.watermark = leader.watermark := funext fun s => by
    rw [hr.watermark, h.watermark]
  have hstream : ∀ m, m ∈ rebuilt.idempotencyMutations ord ↔ m ∈ committed := fun m => by
    rw [SourceOfTruth.idempotencyMutations, mem_sortBy, rebuilt.opIndex_keyed.mem_values, hr.opIndex]
    exact and_iff_left rfl
  have hids : SourceOfTruth.DistinctOps (rebuilt.idempotencyMutations ord) :=
    h.opIndex.distinctOps.mono fun m hm => (hstream m).mp hm
  have hfirst := @withSnapshot_recoversOps_iff n committed rebuilt app ord hr hfiled
    app.config.replication.clusterId
  have hlater := fun disk => @truncating_recoversOps_iff n committed rebuilt app ord hr hfiled
    app.config.replication.clusterId disk
  have hcross : SourceOfTruth.DistinctOps (app.disk.operations n) →
      (SourceOfTruth.DistinctOps (rebuilt.idempotencyMutations ord ++ loadAllLogs app.disk n) ↔
        ∀ m ∈ committed, ∀ m' ∈ loadAllLogs app.disk n, m.opId = m'.opId → m = m') := fun hd => by
    rw [distinctOps_append_iff hids (hd.mono loadAllLogs_subset_operations)]
    simp only [hstream]
  unfold CrashSafe
  rw [hpoints, ← hwm]
  constructor
  · intro hsafe _
    have hconfig : app.config.shardCount = n :=
      ((hsafe _ List.mem_cons_self).shardCount rfl).symm.trans hr.shardCount
    rw [hconfig] at hsafe
    obtain ⟨⟨hd, hgo⟩, hknown⟩ := hfirst.mp (hsafe _ List.mem_cons_self)
    have hsecond := (hlater _ ⟨rfl, rfl, fun _ => Or.inl rfl⟩).mp
      (hsafe (withStream ord rebuilt app) (by simp))
    exact ⟨hconfig, hknown, hd, (hcross hd).mp hsecond.1, hgo⟩
  · intro hcond crashed hcrashed
    obtain ⟨hconfig, hknown, hd, hagree, hgo⟩ := hcond hcount
    rw [hconfig]
    have hboth := (hcross hd).mpr hagree
    have htruncated : ∀ disk, Truncating rebuilt.watermark (withStream ord rebuilt app).disk disk →
        disk.RecoversOps committed n app.config.replication.clusterId := fun disk ht => by
      refine (hlater disk ht).mpr ⟨hboth.mono ?_, hgo⟩
      refine List.append_subset.mpr ⟨List.subset_append_left _ _, fun m hm => ?_⟩
      exact List.mem_append_right _ (ht.loadAllLogs_subset n hm)
    rcases List.mem_cons.mp hcrashed with rfl | hcrashed
    · exact hfirst.mpr ⟨⟨hd, hgo⟩, hknown⟩
    rcases List.mem_cons.mp hcrashed with rfl | hcrashed
    · exact htruncated _ ⟨rfl, rfl, fun _ => Or.inl rfl⟩
    · exact htruncated _ (truncating_points ord rebuilt _ crashed hcrashed)

end Install

/-! A leader that committed one mutation, a follower that has it, and one that does not. -/

namespace FirstCommit

def denial : Mutation where
  opId := "op-1"
  commitId := ⟨0, 1, 1, "cluster"⟩
  entry := ⟨"acme", "user", 1, .deny, 10, "manual", 0, "operator", 1, 0⟩
  rule := none
  deliveryPriority := .p0
  committedAtUnix := 100

def leader : SourceOfTruth := (SourceOfTruth.new 1 "cluster").record denial

theorem represents_leader : leader.Represents 1 [denial] :=
  (SourceOfTruth.represents_new 1 "cluster").record
    ⟨⟨by decide +kernel, rfl, fun _ h => by cases h⟩, rfl, by decide +kernel⟩

def fresh : App where
  config := ⟨1, ⟨"cluster", "n2", some "n1", ["n1", "n2", "n3"], 2⟩, 0, false, false⟩
  state := .new 1 "cluster"
  consensus := ⟨1, none, .follower, some "n1"⟩
  lastPublished := []
  disk := .empty

def caughtUp : App :=
  { fresh with
    state := leader
    disk := { Disk.empty with logs := fun s => if s = 0 then [denial] else [] } }

theorem filed_fresh : fresh.disk.Filed := fun _ _ h => by cases h

theorem filed_caughtUp : caughtUp.disk.Filed := by
  intro s m hm
  by_cases hs : s = 0
  · subst hs
    rw [List.mem_singleton.mp hm]
    rfl
  · have hnone : caughtUp.disk.logs s = [] := if_neg hs
    rw [hnone] at hm
    cases hm

end FirstCommit

open FirstCommit in
theorem install_crashSafe_iff_caughtUp :
    CrashSafe [denial] (installSnapshotFromLeader .given (leader.snapshot .given)
      (leader.idempotencyMutations .given)) caughtUp := by
  refine (install_crashSafe_iff .given .given .given represents_leader filed_caughtUp).mpr
    fun _ => ⟨rfl, fun m hm => ⟨m, hm, rfl⟩, ?_, ?_, ?_⟩
  · intro m hm m' hm' _
    rw [List.mem_singleton.mp hm, List.mem_singleton.mp hm']
  · intro m hm m' hm' _
    rw [List.mem_singleton.mp hm, List.mem_singleton.mp hm']
  · intro s hs
    obtain rfl : s = 0 := by omega
    exact List.Perm.refl _

open FirstCommit in
/-- After a crash between the snapshot and the stream, the follower does not know the operation. -/
theorem not_install_crashSafe :
    ¬∀ (ord ord₁ ord₂ : IterOrder) (n : Nat) (committed : List Mutation) (leader : SourceOfTruth)
      (app : App), leader.Represents n committed → app.disk.Filed →
      CrashSafe committed (installSnapshotFromLeader ord (leader.snapshot ord₁)
        (leader.idempotencyMutations ord₂)) app := by
  intro h
  have hsafe := h .given .given .given 1 [denial] leader fresh represents_leader filed_fresh
  obtain ⟨rebuilt, hr, hpoints⟩ :=
    @install_points 1 [denial] leader fresh .given .given .given represents_leader rfl
  have hcrash := hsafe (withSnapshot .given rebuilt fresh) (hpoints ▸ List.mem_cons_self)
  obtain ⟨-, hknown⟩ := (withSnapshot_recoversOps_iff hr filed_fresh "cluster").mp hcrash
  obtain ⟨m, hm, -⟩ := hknown denial (List.mem_singleton_self _)
  have hnone : fresh.disk.operations 1 = [] := rfl
  rw [hnone] at hm
  cases hm

end Globacl
