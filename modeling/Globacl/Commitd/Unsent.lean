import Globacl.Commitd.Outbox
import Globacl.Commitd.Steps

/-!
# What commits and compactions keep for the publisher

A commit puts its mutation into the log before the memory has it, and a compaction cuts nothing that is
not published. Whatever is committed, `Unsent` holds again, of the old mutations and the new ones.

* `Since`: a node that has gone on by such programs. `KeepsUnsent`: where a crash finds it.
* `since_compactMutationLogsLocked`, `since_applyPreparedMutation`: the two programs that matter.
* `keptBySteps_since`: requests and messages are made of them. `since_finishStartup`: and so is a start.
-/

namespace Globacl

open Lib Prog

/-- A node that has gone on from `app₀` by commits and compactions: what is new is above its watermarks,
and it has published nothing. -/
structure Since (n : Nat) (known handed : Mutation → Prop) (app₀ app : App) : Prop where
  started : app.disk.snapshot ≠ none
  historyFrom : ∀ s, app₀.disk.historyFrom n s ≤ app.disk.historyFrom n s
  reached : ∀ s, app₀.state.watermark s ≤ app.state.watermark s
  lastPublished : app.lastPublished = app₀.lastPublished
  unsent : ∃ known', (∀ m, known m → known' m) ∧
    (∀ m, known' m → known m ∨ app₀.state.watermark m.shard < m.seq) ∧ Unsent n known' handed app

/-- What the files keep when a node crashes. -/
def KeepsUnsent (n : Nat) (known handed : Mutation → Prop) (app : App) : Prop :=
  ∃ known' reached, (∀ m, known m → known' m) ∧ Outbox n known' handed reached app.disk

section Steps

variable {n : Nat} {known known' handed : Mutation → Prop} {app₀ app : App}

theorem Unsent.keepsUnsent (h : Unsent n known handed app) : KeepsUnsent n known handed app :=
  ⟨known, _, fun _ hm => hm, h.outbox⟩

theorem Since.keepsUnsent (h : Since n known handed app₀ app) : KeepsUnsent n known handed app := by
  obtain ⟨known', hmono, -, hunsent⟩ := h.unsent
  exact ⟨known', _, hmono, hunsent.outbox⟩

/-- A write that changes nothing of what is in memory. -/
theorem Unsent.of_disk (h : Unsent n known handed app) {disk : Disk}
    (hd : Outbox n known handed app.state.watermark disk)
    (hoffsets : ∀ s, disk.published n s = app.disk.published n s) :
    Unsent n known handed { app with disk } where
  outbox := hd
  publisher := h.publisher
  shardCount := h.shardCount
  length := h.length
  published s := (h.published s).trans (hoffsets s).symm
  compacted := h.compacted
  retained := h.retained
  kept := h.kept
  indexed := h.indexed

theorem Unsent.published_le (h : Unsent n known handed app) (s : Nat) :
    app.published s ≤ app.state.watermark s := by
  rw [h.published]
  exact h.outbox.published_le s

theorem Unsent.putSnapshot (h : Unsent n known handed app) (ord : IterOrder) :
    Unsent n known handed { app with
      disk := { app.disk with snapshot := some (app.state.snapshot ord) } } :=
  h.of_disk (h.outbox.putSnapshot h.shardCount fun s => h.outbox.published_le s) fun _ => rfl

/-- After its own snapshot, a start takes the history behind the offsets. -/
theorem Unsent.historyFrom_putSnapshot (h : Unsent n known handed app) (ord : IterOrder) (s : Nat) :
    { app.disk with snapshot := some (app.state.snapshot ord) }.historyFrom n s =
      app.published s := by
  rw [h.published]
  exact Outbox.historyFrom_putSnapshot (h.outbox.published_le s)

theorem Since.putSnapshot (h : Since n known handed app₀ app) (ord : IterOrder) :
    Since n known handed app₀ { app with
      disk := { app.disk with snapshot := some (app.state.snapshot ord) } } := by
  obtain ⟨known', hmono, hnew, hunsent⟩ := h.unsent
  refine ⟨Option.some_ne_none _, fun s => ?_, h.reached, h.lastPublished, known', hmono, hnew,
    hunsent.putSnapshot ord⟩
  refine (h.historyFrom s).trans ?_
  show _ ≤ { app.disk with snapshot := some (app.state.snapshot ord) }.historyFrom n s
  rw [hunsent.historyFrom_putSnapshot, hunsent.published]
  exact app.disk.historyFrom_le_published n s

/-- What no start and no publisher reads. -/
theorem Since.other {app' : App} (h : Since n known handed app₀ app) (hsame : SameStore app app') :
    Since n known handed app₀ app' := by
  obtain ⟨known', hmono, hnew, hunsent⟩ := h.unsent
  obtain ⟨config, state, consensus, lastPublished, disk⟩ := app'
  obtain ⟨hconfig, hstate, hlast, hlogs, hsnapshot, hids, hoffsets⟩ := hsame
  dsimp only at hconfig hstate hlast hlogs hsnapshot hids hoffsets
  subst hconfig hstate hlast
  have hpublished : ∀ s, disk.published n s = app.disk.published n s := fun s => by
    rw [Disk.published, loadPublisherOffsets, hoffsets]
    rfl
  have hfrom : ∀ s, disk.historyFrom n s = app.disk.historyFrom n s := fun s => by
    rw [Disk.historyFrom, hpublished, Disk.snapshotWatermark, hsnapshot]
    rfl
  refine ⟨by rw [hsnapshot]; exact h.started, fun s => (h.historyFrom s).trans (hfrom s).ge, h.reached,
    h.lastPublished, known', hmono, hnew, ?_⟩
  have hd := hunsent.outbox.congr hlogs hsnapshot hids hoffsets
  exact
    { outbox := hd
      publisher := hunsent.publisher
      shardCount := hunsent.shardCount
      length := hunsent.length
      published := fun s => (hunsent.published s).trans (hpublished s).symm
      compacted := hunsent.compacted
      retained := hunsent.retained
      kept := hunsent.kept
      indexed := hunsent.indexed }

/-- A write to the files of a node that has gone on. -/
theorem Since.of_disk (h : Since n known handed app₀ app) {disk : Disk}
    (hd : ∀ known', Outbox n known' handed app.state.watermark app.disk →
      (∀ id m, app.state.opIndex.lookup id = some m → known' m) →
      Outbox n known' handed app.state.watermark disk)
    (hsnapshot : disk.snapshot = app.disk.snapshot)
    (hoffsets : disk.publisherOffsets = app.disk.publisherOffsets) :
    Since n known handed app₀ { app with disk } := by
  obtain ⟨known', hmono, hnew, hunsent⟩ := h.unsent
  have hpublished : ∀ s, disk.published n s = app.disk.published n s := fun s => by
    rw [Disk.published, loadPublisherOffsets, hoffsets]
    rfl
  refine ⟨by dsimp only; rw [hsnapshot]; exact h.started, fun s => ?_, h.reached, h.lastPublished, known',
    hmono, hnew, hunsent.of_disk (hd known' hunsent.outbox hunsent.indexed) hpublished⟩
  refine (h.historyFrom s).trans (le_of_eq ?_)
  rw [Disk.historyFrom, Disk.historyFrom, hpublished, Disk.snapshotWatermark, Disk.snapshotWatermark,
    hsnapshot]

/-- A compaction cuts nothing that is not published. -/
theorem Unsent.compactionWatermarks_le (h : Unsent n known handed app) (snapshot : Snapshot) (s : Nat) :
    (compactionWatermarksForSnapshot app snapshot).getD s 0 ≤ app.published s := by
  unfold compactionWatermarksForSnapshot
  rw [List.getD_eq_getElem?_getD, List.getElem?_map]
  by_cases hs : s < snapshot.watermarks.length
  · rw [List.getElem?_range hs, Option.map_some, Option.getD_some, h.publisher]
    dsimp only
    rw [if_pos rfl]
    exact Nat.max_le.mpr ⟨Nat.min_le_right _ _, h.compacted s⟩
  · rw [List.getElem?_eq_none (by rw [List.length_range]; omega)]
    exact Nat.zero_le _

theorem Since.compactMutationHistory (h : Since n known handed app₀ app) {watermarks : List Nat}
    {st : SourceOfTruth} (hle : ∀ s, watermarks.getD s 0 ≤ app.published s)
    (hc : app.state.compactMutationHistory watermarks = .ok st) :
    Since n known handed app₀ { app with state := st } := by
  obtain ⟨known', hmono, hnew, hunsent⟩ := h.unsent
  obtain ⟨-, halike, hindex, hcompacted, hms⟩ := SourceOfTruth.compactMutationHistory_ok hc
  have hwm : st.watermark = app.state.watermark := funext halike.watermark
  refine ⟨h.started, h.historyFrom, fun s => ?_, h.lastPublished, known', hmono, hnew, ?_⟩
  · show _ ≤ st.watermark s
    rw [hwm]
    exact h.reached s
  · refine
      { outbox := ?_
        publisher := hunsent.publisher
        shardCount := halike.shardCount.trans hunsent.shardCount
        length := hunsent.length
        published := hunsent.published
        compacted := fun s => ?_
        retained := fun m hm hlt => ?_
        kept := fun m hm => ?_
        indexed := fun id m hm => hunsent.indexed id m ?_ }
    · show Outbox n known' handed st.watermark app.disk
      rw [hwm]
      exact hunsent.outbox
    · show st.compactedWatermark s ≤ app.published s
      rw [hcompacted]
      exact Nat.max_le.mpr ⟨hunsent.compacted s, hle s⟩
    · show m ∈ st.mutations
      rw [hms, List.mem_filter, decide_eq_true_eq]
      exact ⟨hunsent.retained m hm hlt, (hle m.shard).trans_lt hlt⟩
    · replace hm : m ∈ st.mutations := hm
      rw [hms] at hm
      exact hunsent.kept m (List.mem_of_mem_filter hm)
    · rw [← hindex]
      exact hm

/-- A compaction keeps what is not published, wherever it stops. -/
theorem since_compactMutationLogsLocked (ord : IterOrder) :
    Triple (Since n known handed app₀) (compactMutationLogsLocked ord)
      (fun _ => Since n known handed app₀) (Since n known handed app₀) (KeepsUnsent n known handed) := by
  refine Triple.get_bind fun app₁ h₁ => ?_
  obtain ⟨known₁, -, -, hunsent₁⟩ := h₁.unsent
  have hle := hunsent₁.compactionWatermarks_le (app₁.state.snapshot ord)
  -- the memory stays, and the logs are needed behind the offsets only
  let k : App → Prop := fun app => Since n known handed app₀ app ∧ app.state = app₁.state ∧
    app.lastPublished = app₁.lastPublished ∧
    ∀ s, (compactionWatermarksForSnapshot app₁ (app₁.state.snapshot ord)).getD s 0 ≤
      app.disk.historyFrom n s
  have hcrash : ∀ app, k app → KeepsUnsent n known handed app := fun app h => h.1.keepsUnsent
  have hsnapshot : k { app₁ with
      disk := { app₁.disk with snapshot := some (app₁.state.snapshot ord) } } := by
    refine ⟨h₁.putSnapshot ord, rfl, rfl, fun s => ?_⟩
    rw [hunsent₁.historyFrom_putSnapshot]
    exact hle s
  refine Triple.bind (q := fun _ => k) (Triple.step ?_ ?_) fun _ => ?_
  · rintro _ rfl
    exact hsnapshot
  · rintro _ rfl
    exact hcrash _ hsnapshot
  have hstream : ∀ app, k app → k { app with disk := { app.disk with
      idempotency := some (app₁.state.idempotencyMutations ord) } } := by
    rintro app ⟨h, hst, hlast, hfrom⟩
    refine ⟨h.of_disk (fun known' hd hindex => hd.putStream fun m hm => ?_) rfl rfl, hst, hlast, hfrom⟩
    rw [SourceOfTruth.idempotencyMutations, mem_sortBy, app₁.state.opIndex_keyed.mem_values,
      ← hst] at hm
    exact hindex _ m hm
  refine Triple.bind (q := fun _ => k) (Triple.step hstream fun app h => hcrash _ (hstream app h))
    fun _ => ?_
  have htruncate : ∀ s app, k app → k { app with disk := { app.disk with
      logs := Function.update app.disk.logs s ((app.disk.logs s).filter fun m => decide (m.seq >
        (compactionWatermarksForSnapshot app₁ (app₁.state.snapshot ord)).getD s 0)) } } := by
    rintro s app ⟨h, hst, hlast, hfrom⟩
    exact ⟨h.of_disk (fun known' hd _ => hd.truncateLog (hfrom s)) rfl rfl, hst, hlast, hfrom⟩
  refine Triple.bind (q := fun _ => k) (Triple.ite
    (fun _ => Triple.lift (fun _ _ herr => by cases herr) fun _ _ _ h => h.1)
    fun _ => Triple.forEach (I := fun _ => k) (fun s _ => Triple.step (htruncate s)
      fun app h => hcrash _ (htruncate s app h)) _) fun _ => ?_
  have hmemory : ∀ st, app₁.state.compactMutationHistory
      (compactionWatermarksForSnapshot app₁ (app₁.state.snapshot ord)) = .ok st →
      ∀ app, k app → Since n known handed app₀ { app with state := st } := by
    rintro st hst app ⟨h, heq, hlast, -⟩
    refine h.compactMutationHistory (fun s => (hle s).trans (le_of_eq ?_)) (heq ▸ hst)
    rw [App.published, App.published, hlast]
  refine Triple.bind (q := fun st app => app₁.state.compactMutationHistory
    (compactionWatermarksForSnapshot app₁ (app₁.state.snapshot ord)) = .ok st ∧ k app)
    (Triple.lift (fun _ _ heq h => ⟨heq, h⟩) fun _ _ _ h => h.1) fun st => Triple.of_fact fun hst => ?_
  exact Triple.step (hmemory st hst) fun app h => (hmemory st hst app h).keepsUnsent

theorem since_compactMutationLogs (ord : IterOrder) (force : Bool) :
    Triple (Since n known handed app₀) (compactMutationLogs ord force)
      (fun _ => Since n known handed app₀) (Since n known handed app₀) (KeepsUnsent n known handed) :=
  KeptBySteps.get_bind fun _ _ => Triple.ite (fun _ => Triple.pure fun _ h => h) fun _ =>
    since_compactMutationLogsLocked ord

/-- The memory takes up a mutation that was logged. -/
theorem Since.record (h : Since n known handed app₀ app) {m : Mutation}
    (hlog : m ∈ app.disk.logs m.shard) (hseq : m.seq = app.state.watermark m.shard + 1) :
    Since n known handed app₀ { app with state := app.state.record m } := by
  obtain ⟨known', hmono, hnew, hunsent⟩ := h.unsent
  have hshard : m.shard < app.state.shardCount := by
    rw [hunsent.shardCount]
    exact (hunsent.outbox.filed _ m hlog).2
  have hwm : (app.state.record m).watermark =
      Function.update app.state.watermark m.shard m.seq := funext fun s => by
    rw [SourceOfTruth.record_watermark _ hshard, Function.update_apply]
  have hpublished := hunsent.published_le m.shard
  refine ⟨h.started, h.historyFrom, fun s => ?_, h.lastPublished, fun m' => known' m' ∨ m' = m,
    fun m' hm' => Or.inl (hmono m' hm'), fun m' hm' => ?_, ?_⟩
  · refine (h.reached s).trans ?_
    show _ ≤ (app.state.record m).watermark s
    rw [SourceOfTruth.record_watermark _ hshard]
    split
    · subst_vars
      omega
    · exact Nat.le_refl _
  · rcases hm' with hm' | rfl
    · exact hnew m' hm'
    · have := h.reached m'.shard
      exact Or.inr (by omega)
  · refine
      { outbox := ?_
        publisher := hunsent.publisher
        shardCount := hunsent.shardCount
        length := hunsent.length
        published := hunsent.published
        compacted := hunsent.compacted
        retained := fun m' hm' hlt => List.mem_append.mpr ?_
        kept := fun m' hm' => ?_
        indexed := fun id m' hm' => ?_ }
    · show Outbox n _ handed (app.state.record m).watermark app.disk
      rw [hwm]
      exact hunsent.outbox.commit hlog hseq
    · exact hm'.imp (fun hm' => hunsent.retained m' hm' hlt) fun heq => List.mem_singleton.mpr heq
    · exact (List.mem_append.mp hm').imp (hunsent.kept m') List.mem_singleton.mp
    · replace hm' : (app.state.opIndex.insert m.opId m).lookup id = some m' := hm'
      rw [HashMap.lookup_insert_eq] at hm'
      split at hm'
      · exact Or.inr (Option.some.inj hm').symm
      · exact Or.inl (hunsent.indexed id m' hm')

/-- A log append, before the memory is asked. -/
theorem Since.appendLog (h : Since n known handed app₀ app) {m : Mutation}
    (hshard : m.shard < max n 1) (hlt : app.state.watermark m.shard < m.seq) :
    Since n known handed app₀ { app with disk := { app.disk with
      logs := Function.update app.disk.logs m.shard (app.disk.logs m.shard ++ [m]) } } :=
  h.of_disk (fun _ hd _ => hd.appendLog h.started hshard hlt) rfl rfl

/-- Whatever the mutation is, what is not published is kept. -/
theorem since_applyPreparedMutation (ord : IterOrder) {m : Mutation} (hshard : m.shard < max n 1) :
    Triple (Since n known handed app₀) (applyPreparedMutation ord m)
      (fun _ => Since n known handed app₀) (Since n known handed app₀) (KeepsUnsent n known handed) := by
  have hunread : ∀ {f : App → App}, (∀ app, SameStore app (f app)) →
      Triple (Since n known handed app₀) (Prog.step f : Program Unit) (fun _ => Since n known handed app₀)
        (Since n known handed app₀) (KeepsUnsent n known handed) := fun hf =>
    Triple.step (fun app h => h.other (hf app)) fun app h => (h.other (hf app)).keepsUnsent
  refine Triple.get_bind fun app₁ h₁ => ?_
  -- what is not old is in its log when the memory is asked
  let k : App → Prop := fun app => app.state = app₁.state ∧ Since n known handed app₀ app ∧
    (app₁.state.watermark m.shard < m.seq → m ∈ app.disk.logs m.shard)
  have hlogged : Triple k (applyLogged ord m app₁.state) (fun _ => Since n known handed app₀)
      (Since n known handed app₀) (KeepsUnsent n known handed) := by
    refine Triple.bind (q := fun r app => app₁.state.applyReplicatedMutation m = .ok r ∧ k app)
      (Triple.lift (fun _ _ heq h => ⟨heq, h⟩) fun _ _ _ h => h.2.1) fun r => Triple.of_fact fun hr => ?_
    obtain ⟨status, st⟩ := r
    have hstate : ∀ app, k app → Since n known handed app₀ { app with state := st } := by
      rintro app ⟨hst, h, hlog⟩
      obtain ⟨-, rfl⟩ | ⟨-, -, -, hseq, rfl⟩ := SourceOfTruth.applyReplicatedMutation_ok hr
      · rw [← hst]
        exact h
      · rw [← hst] at hseq hlog ⊢
        exact h.record (hlog (by omega)) hseq
    have hremove : ∀ status : ApplyStatus, Triple (Since n known handed app₀)
        (do removePendingMutation m; pure status) (fun _ => Since n known handed app₀)
        (Since n known handed app₀) (KeepsUnsent n known handed) := fun status =>
      Triple.bind (q := fun _ => Since n known handed app₀)
        (hunread fun _ => ⟨rfl, rfl, rfl, rfl, rfl, rfl, rfl⟩) fun _ => Triple.pure fun _ h => h
    refine Triple.bind (q := fun _ app => app.state = st ∧ Since n known handed app₀ app)
      (Triple.step (fun app h => ⟨rfl, hstate app h⟩) fun app h => (hstate app h).keepsUnsent) fun _ => ?_
    refine Triple.ite (fun _ => ?_) fun _ => (hremove status).conseq (fun _ h => h.2)
      (fun _ _ h => h) (fun _ h => h) fun _ h => h
    have hsnapshot : ∀ app, app.state = st ∧ Since n known handed app₀ app →
        Since n known handed app₀ { app with
          disk := { app.disk with snapshot := some (st.snapshot ord) } } := by
      rintro app ⟨rfl, h⟩
      exact h.putSnapshot ord
    refine Triple.bind (q := fun _ => Since n known handed app₀)
      (Triple.step hsnapshot fun app h => (hsnapshot app h).keepsUnsent) fun _ => ?_
    refine Triple.bind (q := fun _ => Since n known handed app₀)
      (hunread fun _ => ⟨rfl, rfl, rfl, rfl, rfl, rfl, rfl⟩) fun _ => ?_
    have hcompact : Triple (Since n known handed app₀) (maybeCompactMutationLogs ord)
        (fun _ => Since n known handed app₀) (Since n known handed app₀) (KeepsUnsent n known handed) :=
      KeptBySteps.get_bind fun _ _ => Triple.ite (fun _ => Triple.pure fun _ h => h) fun _ =>
        since_compactMutationLogsLocked ord
    exact hcompact.bind fun _ => hremove status
  by_cases hold : app₁.state.watermark m.shard ≥ m.seq
  · rw [decide_eq_true hold]
    refine hlogged.conseq ?_ (fun _ _ h => h) (fun _ h => h) fun _ h => h
    rintro _ rfl
    exact ⟨rfl, h₁, fun hlt => by omega⟩
  · rw [decide_eq_false hold]
    have happend : k { app₁ with disk := { app₁.disk with
        logs := Function.update app₁.disk.logs m.shard (app₁.disk.logs m.shard ++ [m]) } } := by
      refine ⟨rfl, h₁.appendLog hshard (by omega), fun _ => ?_⟩
      dsimp only
      rw [Function.update_self]
      exact List.mem_append_right _ (List.mem_singleton_self m)
    have hbundle : ∀ app, k app →
        k { app with disk := { app.disk with bundles := app.disk.bundles ++ [m] } } :=
      fun app ⟨hst, h, hlog⟩ => ⟨hst, h.other ⟨rfl, rfl, rfl, rfl, rfl, rfl, rfl⟩, hlog⟩
    refine Triple.bind (q := fun _ => k) (Triple.bind (q := fun _ => k) (Triple.step ?_ ?_) fun _ =>
      Triple.step hbundle fun app h => (hbundle app h).2.1.keepsUnsent) fun _ => hlogged
    · rintro _ rfl
      exact happend
    · rintro _ rfl
      exact happend.2.1.keepsUnsent

/-- Requests and messages are made of these steps. -/
theorem keptBySteps_since (n : Nat) (known handed : Mutation → Prop) (app₀ : App) :
    KeptBySteps (max n 1) (Since n known handed app₀) (KeepsUnsent n known handed) where
  shardCount := by
    intro app h
    obtain ⟨_, -, -, hunsent⟩ := h.unsent
    exact hunsent.shardCount
  crash h := h.keepsUnsent
  apply ord m hm := by
    refine since_applyPreparedMutation ord ?_
    rw [hm.shard]
    exact shardForHash_lt (by omega)
  compact := since_compactMutationLogs
  setEpoch term app h := by
    obtain ⟨known', hmono, hnew, hunsent⟩ := h.unsent
    exact ⟨h.started, h.historyFrom, h.reached, h.lastPublished, known', hmono, hnew,
      ⟨hunsent.outbox, hunsent.publisher, hunsent.shardCount, hunsent.length, hunsent.published,
        hunsent.compacted, hunsent.retained, hunsent.kept, hunsent.indexed⟩⟩
  other h hsame := h.other hsame

/-- The rest of a start. -/
theorem since_finishStartup (ord : IterOrder) (h : Unsent n known handed app₀) :
    Triple (fun app => app = app₀) (finishStartup ord) (fun _ => Since n known handed app₀)
      (Since n known handed app₀) (KeepsUnsent n known handed) := by
  refine Triple.get_bind fun app happ => ?_
  subst happ
  have hsnapshot : Since n known handed app { app with
      disk := { app.disk with snapshot := some (app.state.snapshot ord) } } := by
    refine ⟨Option.some_ne_none _, fun s => ?_, fun _ => Nat.le_refl _, rfl, known, fun _ hm => hm,
      fun _ hm => Or.inl hm, h.putSnapshot ord⟩
    dsimp only
    rw [h.historyFrom_putSnapshot, h.published]
    exact app.disk.historyFrom_le_published n s
  refine Triple.bind (q := fun _ => Since n known handed app) (Triple.step ?_ ?_) fun _ => ?_
  · rintro _ rfl
    exact hsnapshot
  · rintro _ rfl
    exact hsnapshot.keepsUnsent
  exact Triple.ite (fun _ => orElseReport_triple (since_compactMutationLogs ord true))
    fun _ => Triple.pure fun _ h => h

end Steps

end Globacl
