import Globacl.Commitd.Catchup
import Globacl.Commitd.Known
import Globacl.Commitd.Steps

/-!
# Duplicate detection hides nothing

A node that says of a mutation that it is a duplicate or old must have applied it.

* `Tracking`, `Sound`: what memory and files have is what the node applied.
* `Following`: the runs of a node, each with the mutations that the node has applied, in which an
  installed snapshot comes with a stream of operations that has nothing above it. The requests, the
  messages and the compactions are made of its steps (`keptBySteps_followed`).
* `nothingHidden`: along such a run nothing is hidden, and one more installation hides nothing exactly
  if it is one of these.
-/

namespace Globacl

open Lib Prog

/-- Memory and files have only what the node applied; a mutation in a log may have been rejected after
it was written. -/
structure Tracking (n : Nat) (before : List Mutation) (app : App) : Prop where
  mem : SourceOfTruth.Known n (· ∈ before) before app.state
  logs : ∀ s, ∀ m ∈ app.disk.logs s, m.Routed n
  stream : ∀ ids, app.disk.idempotency = some ids → ids ⊆ before

/-- Memory and files have only what the node applied, and the latest snapshot is current. -/
structure Sound (n : Nat) (before : List Mutation) (app : App) : Prop
    extends Tracking n before app where
  current : ∃ st ord, SourceOfTruth.Holds n before st ∧ app.disk.snapshot = some (st.snapshot ord)

/-- What the node has applied after it was given a mutation. -/
def grown (before : List Mutation) (st : SourceOfTruth) (m : Mutation) : List Mutation :=
  match st.applyReplicatedMutation m with
  | .ok (.applied, _) => before ++ [m]
  | _ => before

section Programs

variable {n : Nat} {before : List Mutation} {app : App}

theorem Sound.of_unread (h : Sound n before app) {app' : App} (hst : app'.state = app.state)
    (hl : app'.disk.logs = app.disk.logs) (hs : app'.disk.snapshot = app.disk.snapshot)
    (hi : app'.disk.idempotency = app.disk.idempotency) : Sound n before app' where
  mem := hst ▸ h.mem
  logs := hl ▸ h.logs
  stream := hi ▸ h.stream
  current := hs ▸ h.current

theorem Tracking.putSnapshot (h : Tracking n before app) (ord : IterOrder) :
    Sound n before { app with disk := { app.disk with
      snapshot := some (app.state.snapshot ord) } } :=
  ⟨⟨h.mem, h.logs, h.stream⟩, app.state, ord, h.mem.holds, rfl⟩

/-- To forget a part of the logs is all that the truncation loop does. -/
theorem truncate_compactLogsToWatermarks {k : App → Prop} {shardCount : Nat} {watermarks : List Nat}
    (hk : ∀ app logs, k app → (∀ s, logs s ⊆ app.disk.logs s) →
      k { app with disk := { app.disk with logs := logs } }) :
    Triple k (compactLogsToWatermarks shardCount watermarks) (fun _ => k)
      (fun app => watermarks.length ≠ shardCount ∧ k app) Anywhere := by
  refine Triple.ite (fun hne => ?_) fun _ => ?_
  · exact Triple.lift (fun _ _ heq => by cases heq) fun _ _ _ h => ⟨hne, h⟩
  refine Triple.forEach (I := fun _ => k) (fun s _ => Triple.step (fun app h => ?_)
    fun _ _ => trivial) _
  refine hk app _ h fun s' m hm => ?_
  by_cases hs : s' = s
  · subst hs
    rw [Function.update_self] at hm
    exact List.mem_of_mem_filter hm
  · rwa [Function.update_of_ne hs] at hm

/-- A compaction forgets only what it may. -/
theorem sound_compactMutationLogsLocked (ord : IterOrder) :
    Triple (Tracking n before) (compactMutationLogsLocked ord) (fun _ => Sound n before)
      (Sound n before) Anywhere := by
  refine Triple.get_bind fun app₀ h₀ => ?_
  let k : App → Prop := fun app => app.state = app₀.state ∧ Sound n before app
  refine Triple.bind (q := fun _ => k) (Triple.step ?_ fun _ _ => trivial) fun _ => ?_
  · rintro _ rfl
    exact ⟨rfl, h₀.putSnapshot ord⟩
  refine Triple.bind (q := fun _ => k) (Triple.step ?_ fun _ _ => trivial) fun _ => ?_
  · rintro app ⟨hst, h⟩
    refine ⟨hst, ⟨h.mem, h.logs, fun ids hids m hm => ?_⟩, h.current⟩
    cases hids
    rw [SourceOfTruth.idempotencyMutations, mem_sortBy, app₀.state.opIndex_keyed.mem_values] at hm
    exact h₀.mem.indexed _ m hm
  refine Triple.bind (q := fun _ => k) ((truncate_compactLogsToWatermarks (k := k) ?_).conseq
    (fun _ h => h) (fun _ _ h => h) (fun _ h => h.2.2) fun _ h => h) fun _ => ?_
  · rintro app logs ⟨hst, h⟩ hl
    exact ⟨hst, ⟨h.mem, fun s m hm => h.logs s m (hl s hm), h.stream⟩, h.current⟩
  refine Triple.bind (q := fun st app => SourceOfTruth.Known n (· ∈ before) before st ∧
    Sound n before app) (Triple.lift (fun st app heq h => ⟨?_, h.2⟩) fun _ _ _ h => h.2) fun st => ?_
  · obtain ⟨-, ha, hi, -, hms⟩ := SourceOfTruth.compactMutationHistory_ok heq
    refine ⟨h₀.mem.holds.of_alike ha, fun id m hm => ?_, fun m hm => ?_⟩
    · rw [hi] at hm
      exact h₀.mem.indexed id m hm
    · rw [hms] at hm
      exact h₀.mem.kept m (List.mem_of_mem_filter hm)
  · refine Triple.step ?_ fun _ _ => trivial
    rintro app ⟨hk, h⟩
    exact ⟨⟨hk, h.logs, h.stream⟩, h.current⟩

/-- A compaction, or nothing. -/
theorem sound_compactOrNot (ord : IterOrder) (skip : App → Prop) [DecidablePred skip] :
    Triple (Sound n before)
      (Prog.get >>= fun app => if skip app then pure () else compactMutationLogsLocked ord)
      (fun _ => Sound n before) (Sound n before) Anywhere := by
  refine Triple.get_bind fun app₀ h₀ => Triple.ite (fun _ => Triple.pure ?_) fun _ => ?_
  · rintro _ rfl
    exact h₀
  · exact (sound_compactMutationLogsLocked ord).conseq (fun _ heq => heq ▸ h₀.toTracking)
      (fun _ _ h => h) (fun _ h => h) fun _ h => h

theorem sound_maybeCompactMutationLogs (ord : IterOrder) :
    Triple (Sound n before) (maybeCompactMutationLogs ord) (fun _ => Sound n before)
      (Sound n before) Anywhere := sound_compactOrNot ord _

theorem sound_compactMutationLogs (ord : IterOrder) (force : Bool) :
    Triple (Sound n before) (compactMutationLogs ord force) (fun _ => Sound n before)
      (Sound n before) Anywhere := sound_compactOrNot ord _

theorem sound_writeDisk {f : Disk → Disk} (hl : ∀ d, (f d).logs = d.logs)
    (hs : ∀ d, (f d).snapshot = d.snapshot) (hi : ∀ d, (f d).idempotency = d.idempotency) :
    Triple (Sound n before) (writeDisk f) (fun _ => Sound n before) (Sound n before) Anywhere :=
  Triple.step (fun _ h => h.of_unread rfl (hl _) (hs _) (hi _)) fun _ _ => trivial

/-- A mutation is applied, or found to be there, or rejected; its log append may have been in vain. -/
theorem sound_applyPreparedMutation (ord : IterOrder) {m : Mutation} (hm : m.Routed n)
    {st : SourceOfTruth} :
    Triple (fun app => app.state = st ∧ Sound n before app) (applyPreparedMutation ord m)
      (fun _ => Sound n (grown before st m)) (Sound n (grown before st m)) Anywhere := by
  have hremove : ∀ {l : List Mutation}, Triple (Sound n l) (removePendingMutation m)
      (fun _ => Sound n l) (Sound n l) Anywhere :=
    sound_writeDisk (fun _ => rfl) (fun _ => rfl) fun _ => rfl
  let k : App → App → Prop := fun _ app => app.state = st ∧ Sound n before app
  refine triple_applyPreparedMutation (k := k) (fun _ h => h) (fun _ _ => ?_) ?_
  · refine Triple.bind (q := fun _ app => app.state = st ∧ Sound n before app)
      (Triple.step ?_ fun _ _ => trivial) fun _ => Triple.step ?_ fun _ _ => trivial
    · rintro app ⟨hst, h⟩
      refine ⟨hst, ⟨h.mem, fun s m' hm' => ?_, h.stream⟩, h.current⟩
      dsimp only at hm'
      by_cases hs : s = m.shard
      · subst hs
        rw [Function.update_self, List.mem_append, List.mem_singleton] at hm'
        rcases hm' with hm' | rfl
        · exact h.logs _ m' hm'
        · exact hm
      · rw [Function.update_of_ne hs] at hm'
        exact h.logs s m' hm'
    · rintro app ⟨hst, h⟩
      exact ⟨hst, h.of_unread rfl rfl rfl rfl⟩
  -- the answer of the memory decides how it goes on
  rintro app₀ ⟨rfl, h₀⟩
  refine Triple.bind (q := fun r app => app₀.state.applyReplicatedMutation m = .ok r ∧ k app₀ app)
    (Triple.lift (fun _ _ heq h => ⟨heq, h⟩) fun app err herr h => ?_) ?_
  · unfold grown
    rw [herr]
    exact h.2
  rintro ⟨status, st⟩
  refine Triple.of_fact fun hr => ?_
  unfold grown
  rcases h₀.mem.applyReplicatedMutation hr with ⟨rfl, rfl, -⟩ | ⟨rfl, happlied⟩
  · rw [hr]
    dsimp only
    refine Triple.bind (q := fun _ => Sound n before) (Triple.step ?_ fun _ _ => trivial) fun _ => ?_
    · rintro app ⟨hst, h⟩
      exact hst ▸ h
    refine Triple.ite (fun heq => by cases heq) fun _ => ?_
    exact Triple.bind hremove fun _ => Triple.pure fun _ h => h
  · rw [hr]
    dsimp only
    have hk := happlied hm
    refine Triple.bind (q := fun _ app => app.state = st ∧ Tracking n (before ++ [m]) app)
      (Triple.step ?_ fun _ _ => trivial) fun _ => ?_
    · rintro app ⟨-, h⟩
      exact ⟨rfl, hk, h.logs, fun ids hids m' hm' => List.mem_append_left _ (h.stream ids hids hm')⟩
    refine Triple.ite (fun _ => ?_) fun hn => absurd rfl hn
    refine Triple.bind (q := fun _ => Sound n (before ++ [m])) (Triple.step ?_ fun _ _ => trivial)
      fun _ => ?_
    · rintro app ⟨hst, ht⟩
      exact hst ▸ ht.putSnapshot ord
    refine Triple.bind (sound_writeDisk (fun _ => rfl) (fun _ => rfl) fun _ => rfl) fun _ => ?_
    refine Triple.bind (sound_maybeCompactMutationLogs ord) fun _ => ?_
    exact Triple.bind hremove fun _ => Triple.pure fun _ h => h

/-- A start writes a current snapshot. -/
theorem sound_finishStartup (ord : IterOrder) :
    Triple (Tracking n before) (finishStartup ord) (fun _ => Sound n before) (Sound n before)
      Anywhere := by
  refine Triple.get_bind fun app₀ h₀ => ?_
  refine Triple.bind (q := fun _ => Sound n before) (Triple.step ?_ fun _ _ => trivial) fun _ => ?_
  · rintro _ rfl
    exact h₀.putSnapshot ord
  exact Triple.ite (fun _ => orElseReport_triple (sound_compactMutationLogs ord true))
    fun _ => Triple.pure fun _ h => h

/-! ## Snapshots -/

/-- A served snapshot can always be rebuilt. -/
theorem Served.exists_rebuilt {snapshot : Snapshot} {ids before after : List Mutation}
    (hserved : Served n snapshot ids before after) (clusterId : String) :
    ∃ rebuilt, SourceOfTruth.fromSnapshotAndMutations n clusterId snapshot ids [] = .ok rebuilt ∧
      SourceOfTruth.Holds n before rebuilt ∧ SourceOfTruth.Indexes ids rebuilt.opIndex ∧
      rebuilt.mutations = [] := by
  obtain ⟨leader, ord, hr, rfl⟩ := hserved.snapshot_of
  have hpos : 0 < n := hr.shardCount ▸ leader.shardCount_pos
  have hcount : (leader.snapshot ord).shardCount = n := hr.shardCount
  have hlen : (leader.snapshot ord).watermarks.length = n :=
    leader.watermarks_length.trans hr.shardCount
  obtain ⟨opIndex, hk, hfold, hi⟩ := @SourceOfTruth.foldlM_insertOpIndex ids _
    (SourceOfTruth.ofSnapshot n clusterId (leader.snapshot ord) _ hpos hlen hlen)
    SourceOfTruth.indexes_nil (hserved.good.distinctOps.mono fun m hm => (hserved.stream m).mp hm)
  refine ⟨_, ?_, (hr.ofSnapshot ord clusterId hpos hlen hlen).of_alike
    (SourceOfTruth.alike_reindex _ hk), hi, rfl⟩
  unfold SourceOfTruth.fromSnapshotAndMutations
  rw [if_neg (not_not.mpr hcount), hr.validate_snapshot ord]
  dsimp only
  rw [dif_pos ⟨hpos, hlen⟩, hfold]
  rfl

/-- What an installation leaves: the snapshot, every operation of the stream, and no log that was not
there. -/
theorem installSnapshotFromLeader_state (ord : IterOrder) {snapshot : Snapshot}
    {ids before after : List Mutation} (hserved : Served n snapshot ids before after) :
    Triple (fun app => app.state.shardCount = n ∧ ∀ s, ∀ m ∈ app.disk.logs s, m.Routed n)
      (installSnapshotFromLeader ord snapshot ids)
      (fun _ app => SourceOfTruth.Holds n before app.state ∧
        SourceOfTruth.Indexes ids app.state.opIndex ∧ app.state.mutations = [] ∧
        (∃ st ord, SourceOfTruth.Holds n before st ∧ app.disk.snapshot = some (st.snapshot ord)) ∧
        (∀ l, app.disk.idempotency = some l → l ⊆ ids) ∧ ∀ s, ∀ m ∈ app.disk.logs s, m.Routed n)
      (fun _ => False) Anywhere := by
  refine Triple.get_bind fun app₀ h₀ => ?_
  obtain ⟨hcount, hlogs⟩ := h₀
  obtain ⟨leader, ord', hr, hsnap⟩ := hserved.snapshot_of
  obtain ⟨rebuilt, hok, hh, hi, hms⟩ := hserved.exists_rebuilt app₀.config.replication.clusterId
  rw [hsnap, hr.validate_snapshot ord', ← hsnap, hcount, hok]
  refine Triple.bind (q := fun _ app => app = app₀)
    (Triple.lift (fun _ _ _ heq => heq) fun _ _ herr _ => by cases herr) fun _ => ?_
  refine Triple.bind (q := fun r app => rebuilt = r ∧ app = app₀)
    (Triple.lift (fun _ _ heq h => ⟨Except.ok.inj heq, h⟩) fun _ _ herr _ => by cases herr)
    fun _ => Triple.of_fact ?_
  rintro rfl
  let k : App → Prop := fun app => app.disk.snapshot = some (rebuilt.snapshot ord) ∧
    ∀ s, ∀ m ∈ app.disk.logs s, m.Routed n
  refine Triple.bind (q := fun _ => k) (Triple.step ?_ fun _ _ => trivial) fun _ => ?_
  · rintro _ rfl
    exact ⟨rfl, hlogs⟩
  let k' : App → Prop := fun app => k app ∧ ∀ l, app.disk.idempotency = some l → l ⊆ ids
  refine Triple.bind (q := fun _ => k') (Triple.step (fun app h => ⟨h, fun l hl m hm => ?_⟩)
    fun _ _ => trivial) fun _ => ?_
  · cases hl
    rw [SourceOfTruth.idempotencyMutations, mem_sortBy, rebuilt.opIndex_keyed.mem_values, hi] at hm
    exact hm.1
  have hlen : (rebuilt.snapshot ord).watermarks.length = rebuilt.shardCount :=
    rebuilt.watermarks_length
  refine Triple.bind (q := fun _ => k') ((truncate_compactLogsToWatermarks (k := k') ?_).conseq
    (fun _ h => h) (fun _ _ h => h) (fun _ h => h.1 hlen) fun _ h => h) fun _ => ?_
  · rintro app logs ⟨⟨hs, hl⟩, hstream⟩ hsub
    exact ⟨⟨hs, fun s m hm => hl s m (hsub s hm)⟩, hstream⟩
  obtain ⟨st, hst⟩ := SourceOfTruth.exists_compactMutationHistory hlen fun s => Nat.le_refl _
  obtain ⟨-, ha, hindex, -, hkept⟩ := SourceOfTruth.compactMutationHistory_ok hst
  rw [hst]
  refine Triple.bind (q := fun r app => st = r ∧ k' app)
    (Triple.lift (fun _ _ heq h => ⟨Except.ok.inj heq, h⟩) fun _ _ herr _ => by cases herr)
    fun _ => Triple.of_fact ?_
  rintro rfl
  refine Triple.step ?_ fun _ _ => trivial
  rintro app ⟨⟨hs, hl⟩, hstream⟩
  refine ⟨hh.of_alike ha, ?_, ?_, ⟨rebuilt, ord, hh, hs⟩, hstream, hl⟩
  · rw [hindex]
    exact hi
  · rw [hkept, hms]
    rfl

end Programs

/-! ## Runs -/

/-- The runs of a node, with the mutations that the node has applied. A stream of operations that
comes with a snapshot has nothing above it, and the logs that a start finds have nothing old that was
not applied. -/
inductive Following (n : Nat) : List Mutation → App → Prop
  | start {ord : IterOrder} {config : Config} {app : App} (hn : max config.shardCount 1 = n)
      (hb : boot config Disk.empty = .ok app) : Following n [] (finishStartup ord app).final
  | restart {before : List Mutation} {app app' : App} {ord : IterOrder} {config : Config}
      (h : Following n before app) (hb : boot config app.disk = .ok app')
      (hold : ∀ m ∈ loadAllLogs app.disk n, m.seq ≤ app.state.watermark m.shard → m ∈ before) :
      Following n (before ++ app.disk.tail n app.state.watermark) (finishStartup ord app').final
  /-- A mutation is committed for a client, replicated by the leader or pulled from it. -/
  | apply {before : List Mutation} {app : App} (ord : IterOrder) {m : Mutation}
      (h : Following n before app) (hm : m.Routed n) :
      Following n (grown before app.state m) (applyPreparedMutation ord m app).final
  | install {before before' after ids : List Mutation} {app : App} {snapshot : Snapshot}
      (ord : IterOrder) (h : Following n before app) (hs : Served n snapshot ids before' after)
      (hna : NothingAbove snapshot ids) :
      Following n before' (installSnapshotFromLeader ord snapshot ids app).final
  | compact {before : List Mutation} {app : App} (ord : IterOrder) (force : Bool)
      (h : Following n before app) : Following n before (compactMutationLogs ord force app).final
  | setEpoch {before : List Mutation} {app : App} (epoch : Nat) (h : Following n before app) :
      Following n before { app with state := app.state.setEpoch epoch }
  /-- A vote, a heartbeat, a pending record, or new offsets of the publisher. -/
  | other {before : List Mutation} {app app' : App} (h : Following n before app)
      (hst : app'.state = app.state) (hl : app'.disk.logs = app.disk.logs)
      (hs : app'.disk.snapshot = app.disk.snapshot)
      (hi : app'.disk.idempotency = app.disk.idempotency) : Following n before app'

/-- A duplicate is a mutation that the node applied, and the next mutation of a leader who has all
that the node has is applied. -/
structure NothingHidden (n : Nat) (before : List Mutation) (st : SourceOfTruth) : Prop where
  holds : SourceOfTruth.Holds n before st
  indexed : ∀ id m, st.opIndex.lookup id = some m → m.seq ≤ st.watermark m.shard
  duplicate : ∀ m st', st.applyReplicatedMutation m = .ok (.duplicateOrOld, st') → m ∈ before
  catchUp : ∀ history, GoodHistory n history → Behind before history → ∀ m ∈ history,
    m.seq = st.watermark m.shard + 1 →
      ∃ st', st.applyReplicatedMutation m = .ok (.applied, st') ∧ st'.watermark m.shard = m.seq

section Runs

variable {n : Nat} {before : List Mutation} {app : App}

/-- However a program ends, its triple says where. -/
theorem sound_final {p : App → Prop} {α : Type} {c : Program α} {q e : App → Prop}
    (h : Triple p c (fun _ => q) e Anywhere) (he : ∀ app, e app → q app) (hp : p app) :
    q (c app).final := by
  cases hc : (c app).result with
  | ok a => exact h.ok app a hp hc
  | error err => exact he _ (h.error app err hp hc)

theorem sound_installSnapshotFromLeader (ord : IterOrder) {snapshot : Snapshot}
    {ids before' after : List Mutation} (h : Sound n before app)
    (hs : Served n snapshot ids before' after) (hna : NothingAbove snapshot ids) :
    Sound n before' (installSnapshotFromLeader ord snapshot ids app).final := by
  obtain ⟨hh, hi, hms, hcurrent, hstream, hlogs⟩ := sound_final
    (installSnapshotFromLeader_state ord hs) (fun _ h => h.elim) ⟨h.mem.holds.shardCount, h.logs⟩
  have hids := hs.stream_iff hna
  exact ⟨⟨⟨hh, fun id m hm => (hids m).mp ((hi id m).mp hm).1, fun m hm => by rw [hms] at hm; cases hm⟩,
    hlogs, fun l hl m hm => (hids m).mp (hstream l hl hm)⟩, hcurrent⟩

theorem tracking_start {config : Config} (hn : max config.shardCount 1 = n)
    (hb : boot config Disk.empty = .ok app) : Tracking n [] app := by
  have hempty : loadAllLogs Disk.empty config.shardCount = [] :=
    List.flatMap_eq_nil_iff.mpr fun _ _ => rfl
  unfold boot at hb
  dsimp only at hb
  split at hb
  · cases hb
  · rename_i st hl
    cases hb
    have hk := SourceOfTruth.Known.fromMutations hn (l := loadAllLogs Disk.empty config.shardCount)
      (fun m hm => by rw [hempty] at hm; cases hm) hl
    rw [hempty] at hk
    exact ⟨hk, fun s m hm => (by cases hm), fun ids hids => (by cases hids)⟩

theorem Sound.restart {config : Config} {app' : App} (h : Sound n before app)
    (hold : ∀ m ∈ loadAllLogs app.disk n, m.seq ≤ app.state.watermark m.shard → m ∈ before)
    (hb : boot config app.disk = .ok app') :
    Tracking n (before ++ app.disk.tail n app.state.watermark) app' := by
  obtain ⟨st₀, ord, h₀, hsnap⟩ := h.current
  have hwm : app.state.watermark = st₀.watermark := funext fun s => by
    rw [h.mem.holds.watermark, h₀.watermark]
  rw [hwm] at hold ⊢
  unfold boot at hb
  dsimp only at hb
  split at hb
  · cases hb
  · rename_i st hl
    cases hb
    exact ⟨.load h₀ hsnap h.logs h.stream hold hl, h.logs,
      fun ids hids m hm => List.mem_append_left _ (h.stream ids hids hm)⟩

theorem Following.sound (h : Following n before app) : Sound n before app := by
  induction h with
  | start hn hb => exact sound_final (sound_finishStartup _) (fun _ h => h) (tracking_start hn hb)
  | restart h hb hold ih =>
    exact sound_final (sound_finishStartup _) (fun _ h => h) (ih.restart hold hb)
  | apply ord h hm ih =>
    exact sound_final (sound_applyPreparedMutation ord hm) (fun _ h => h) ⟨rfl, ih⟩
  | install ord h hs hna ih => exact sound_installSnapshotFromLeader ord ih hs hna
  | compact ord force h ih =>
    exact sound_final (sound_compactMutationLogs ord force) (fun _ h => h) ih
  | setEpoch epoch h ih =>
    exact ⟨⟨⟨ih.mem.holds.of_alike ⟨rfl, rfl, rfl, rfl⟩, ih.mem.indexed, ih.mem.kept⟩, ih.logs,
      ih.stream⟩, ih.current⟩
  | other h hst hl hs hi ih => exact ih.of_unread hst hl hs hi

theorem Sound.hidesNothing (h : Sound n before app) : NothingHidden n before app.state where
  holds := h.mem.holds
  indexed id m hm := by
    have hlt := (List.getElem?_eq_some_iff.mp
      (h.mem.holds.valid.getElem?_seq (h.mem.indexed id m hm))).1
    rw [h.mem.holds.watermark]
    omega
  duplicate m st' hr := by
    rcases h.mem.applyReplicatedMutation hr with ⟨-, -, hm⟩ | ⟨hstatus, -⟩
    · exact hm
    · cases hstatus
  catchUp history hgood hb m hm hseq := by
    have hnew : m ∉ before := fun hmem => by
      have hlt := (List.getElem?_eq_some_iff.mp (h.mem.holds.valid.getElem?_seq hmem)).1
      rw [← h.mem.holds.watermark] at hlt
      omega
    have hnext : app.state.Next m := by
      refine ⟨h.mem.holds.shardCount ▸ hgood.valid.routed m hm, hseq, ?_⟩
      rw [HashMap.not_mem_iff_lookup, Option.eq_none_iff_forall_not_mem]
      intro m' hm'
      -- another mutation of the history has another operation id
      have heq := hgood.distinctOps m' (hb.subset (h.mem.indexed _ _ hm')) m hm
        (app.state.opIndex_keyed _ _ hm')
      exact hnew (heq ▸ h.mem.indexed _ _ hm')
    refine ⟨_, hnext.applyReplicatedMutation, ?_⟩
    rw [SourceOfTruth.record_watermark _ hnext.shard_lt, if_pos rfl]

/-- Along a run nothing is hidden, and an installation hides nothing exactly if nothing of the stream
is above the snapshot. -/
theorem nothingHidden (h : Following n before app) :
    NothingHidden n before app.state ∧
      ∀ ord snapshot ids before' after, Served n snapshot ids before' after →
        (NothingHidden n before' (installSnapshotFromLeader ord snapshot ids app).final.state ↔
          NothingAbove snapshot ids) := by
  refine ⟨h.sound.hidesNothing, fun ord snapshot ids before' after hs =>
    ⟨fun hnh m hm => ?_, fun hna => (h.install ord hs hna).sound.hidesNothing⟩⟩
  obtain ⟨hh, hi, -⟩ := sound_final (installSnapshotFromLeader_state ord hs) (fun _ h => h.elim)
    ⟨h.sound.mem.holds.shardCount, h.sound.logs⟩
  obtain ⟨leader, ord', hr, rfl⟩ := hs.snapshot_of
  have hle := hnh.indexed m.opId m ((hi m.opId m).mpr ⟨hm, rfl⟩)
  rw [hh.watermark, ← hr.watermark] at hle
  exact hle

end Runs

/-! ## A commit between two requests

One shard. A follower without data fetches the snapshot of a leader that has committed one mutation;
the leader commits a second one, and then serves the stream of operations, with both. -/

namespace CommitBetween

def denial (opId key : String) (seq : Nat) : Mutation where
  opId := opId
  commitId := ⟨0, seq, 1, "cluster"⟩
  entry :=
    { tenantId := "acme", namespace' := "user", keyHash := stableKeyHash "acme" "user" key
      action := .deny, priority := 10, reasonCode := "manual", expiresAt := 0
      createdBy := "operator", commitSeq := seq, shardId := 0 }
  rule := none
  deliveryPriority := .p0
  committedAtUnix := 100

def first : Mutation := denial "op-1" "alice" 1
def second : Mutation := denial "op-2" "bob" 2
def third : Mutation := denial "op-3" "carol" 3

theorem denial_routed (opId key : String) (seq : Nat) : (denial opId key seq).Routed 1 where
  shard := (Nat.lt_one_iff.mp (shardForHash_lt Nat.one_pos)).symm
  entry := rfl
  rule _ h := by cases h

def leader : SourceOfTruth := (SourceOfTruth.new 1 "cluster").record first

theorem represents_leader : leader.Represents 1 [first] :=
  (SourceOfTruth.represents_new 1 "cluster").record ⟨denial_routed .., rfl, by decide +kernel⟩

/-- What the leader served after its second commit. -/
theorem served : Served 1 (leader.snapshot .given) [first, second] [first] [first, second] where
  snapshot_of := ⟨leader, .given, represents_leader, rfl⟩
  good := (represents_leader.record ⟨denial_routed .., rfl, by decide +kernel⟩).good
  behind := behind_append [first] [second]
  stream _ := Iff.rfl

def config : Config where
  shardCount := 1
  replication := ⟨"cluster", "node-2", none, ["node-1", "node-2", "node-3"], 2⟩
  minLogEntries := 10000
  compactOnStartup := true
  publisher := false

def fresh : App where
  config := config
  state := SourceOfTruth.new 1 "cluster"
  consensus := ⟨1, none, .follower, none⟩
  lastPublished := [0]
  disk := Disk.empty

/-- The follower before it asks the leader. -/
def follower : App := (finishStartup .given fresh).final

theorem following : Following 1 [] follower :=
  @Following.start _ .given config _ rfl rfl

/-- The follower after it was given two mutations and compacted its logs. -/
def compacted : App :=
  let app := (applyPreparedMutation .given first follower).final
  let app := (applyPreparedMutation .given second app).final
  (compactMutationLogs .given true app).final

theorem followingCompacted : Following 1 [first, second] compacted := by
  have hgrown : grown (grown [] follower.state first)
      (applyPreparedMutation .given first follower).final.state second = [first, second] := by
    decide +kernel
  have hfirst : first.Routed 1 := denial_routed ..
  have hsecond : second.Routed 1 := denial_routed ..
  have h := (following.apply .given hfirst).apply .given hsecond
  rw [hgrown] at h
  exact h.compact .given true

/-- The follower after the installation. -/
def installed : App :=
  (installSnapshotFromLeader .given (leader.snapshot .given) [first, second] follower).final

/-- The second mutation counts as a duplicate, although the follower has not got it, and the third one
does not fit. -/
theorem answers : ((installed.state.applyReplicatedMutation second).map Prod.fst,
    (installed.state.applyReplicatedMutation third).toBool, installed.state.watermark 0) =
      (.ok .duplicateOrOld, false, 1) := by
  decide +kernel

end CommitBetween

/-- Nothing is hidden from a node that has applied two mutations and compacted them. -/
theorem nothingHidden_follower :
    NothingHidden 1 [CommitBetween.first, CommitBetween.second] CommitBetween.compacted.state ∧
      ∀ ord snapshot ids before' after, Served 1 snapshot ids before' after →
        (NothingHidden 1 before'
          (installSnapshotFromLeader ord snapshot ids CommitBetween.compacted).final.state ↔
            NothingAbove snapshot ids) :=
  nothingHidden CommitBetween.followingCompacted

/-- A leader that commits between the snapshot and the stream hides its commit from the follower. -/
theorem hidden_commitBetween :
    ∃ app ord snapshot ids before after, Following 1 [] app ∧
      Served 1 snapshot ids before after ∧
      ¬NothingHidden 1 before (installSnapshotFromLeader ord snapshot ids app).final.state := by
  refine ⟨_, .given, _, _, _, _, CommitBetween.following, CommitBetween.served, fun h => ?_⟩
  have hanswers := CommitBetween.answers
  simp only [Prod.mk.injEq] at hanswers
  obtain ⟨⟨status, st⟩, hst, rfl⟩ := map_eq_ok.mp hanswers.1
  have hmem : CommitBetween.second ∈ [CommitBetween.first] := h.duplicate _ _ hst
  exact absurd hmem (by decide +kernel)

/-! ## Requests and messages are made of these steps -/

/-- A state between two steps of a run. -/
def Followed (n : Nat) (app : App) : Prop := ∃ before, Following n before app

/-- What the steps of a run do, the requests of clients and the messages of the leader do. -/
theorem keptBySteps_followed (n : Nat) : KeptBySteps n (Followed n) Anywhere where
  shardCount := by
    rintro app ⟨before, h⟩
    exact h.sound.mem.holds.shardCount
  crash _ := trivial
  apply ord m hm := by
    have hstep : ∀ app, Followed n app → Followed n (applyPreparedMutation ord m app).final := by
      rintro app ⟨before, h⟩
      exact ⟨_, h.apply ord hm⟩
    exact ⟨fun app _ hp _ => hstep app hp, fun app _ hp _ => hstep app hp, fun _ _ _ _ => trivial⟩
  compact ord force := by
    have hstep : ∀ app, Followed n app → Followed n (compactMutationLogs ord force app).final := by
      rintro app ⟨before, h⟩
      exact ⟨before, h.compact ord force⟩
    exact ⟨fun app _ hp _ => hstep app hp, fun app _ hp _ => hstep app hp, fun _ _ _ _ => trivial⟩
  setEpoch term app := by
    rintro ⟨before, h⟩
    exact ⟨before, h.setEpoch term⟩
  other := by
    rintro app app' ⟨before, h⟩ hsame
    exact ⟨before, h.other hsame.state hsame.logs hsame.snapshot hsame.idempotency⟩

end Globacl
