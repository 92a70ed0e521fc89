import Globacl.Relay.Cache

/-!
# What a relay has acknowledged (`globacl-relay/src/app/sources.rs`)

A relay acknowledges a message to JetStream once its mutation is in the cache, and JetStream does not
deliver it again. A later repair of another gap may start the cache again from a snapshot, which may
be behind what was acknowledged.

* `grows_applyToCache`: without a snapshot, the watermarks of a cache only grow.
* `points_applyOrRepair_iff`: when a message leaves what was acknowledged covered.
* `acked_covered_iff`: when a run of `pull_once` does.
-/

namespace Globacl

open Lib Prog

/-- The source of a relay: its cache, and the mutations whose messages it acknowledged. -/
structure JetStreamSource where
  cache : RelayCache
  acked : List Mutation

/-- A message that JetStream delivers: what its payload decodes to and where to acknowledge it, with
the answers that the relay gets while it handles the message. -/
structure Delivery where
  payload : Result Mutation
  replyTo : Option String
  bootstrap : Bootstrap
  natsAck : Result Unit

namespace JetStreamSource

/-- One turn of the loop of `pull_once`. The counters of the status are left out. -/
def handle (d : Delivery) : Prog JetStreamSource GlobAclError Unit := do
  let m ← lift d.payload
  let _ ← zoom cache (fun source cache => { source with cache }) (applyOrRepair d.bootstrap m)
  if d.replyTo.isSome then do
    step fun source => { source with acked := m :: source.acked }
    lift d.natsAck
  else pure ()

/-- `pull_once`, with the answer of `nats_jetstream_pull`. -/
def pullOnce (messages : Result (List Delivery)) : Prog JetStreamSource GlobAclError Unit := do
  let messages ← lift messages
  forEach handle messages

/-- `jetstream_pull_loop`. An error is reported, and the loop goes on. -/
def jetstreamPullLoop (l : List (Result (List Delivery))) : Prog JetStreamSource GlobAclError Unit :=
  forEach (fun messages => (pullOnce messages).reported) l

/-- The cache has reached these mutations. -/
def Covers (acked : List Mutation) (cache : RelayCache) : Prop :=
  ∀ m ∈ acked, m.seq ≤ cache.watermark m.shard

/-- The cache has reached everything that was acknowledged. -/
def Covered (source : JetStreamSource) : Prop := Covers source.acked source.cache

instance (source : JetStreamSource) : Decidable source.Covered :=
  inferInstanceAs (Decidable (∀ m ∈ source.acked, _))

/-- The snapshot from which the cache starts again when it handles a message: there is a gap, there
is no bundle, and a snapshot is read. -/
def installed (source : JetStreamSource) (d : Delivery) : Option Snapshot :=
  match d.payload.toOption.map source.cache.apply with
  | some (.error (.gap shardId expectedSeq receivedSeq)) =>
    match d.bootstrap.deltaBundle shardId (expectedSeq - 1) receivedSeq with
    | .ok response =>
      if response.statusCode ≠ 200 then
        (okBody d.bootstrap.snapshot).bind Except.toOption
      else none
    | .error _ => none
  | _ => none

/-- The snapshot that a message makes the relay install is not behind what was acknowledged. -/
def CaughtUp (source : JetStreamSource) (d : Delivery) : Prop :=
  ∀ snapshot ∈ source.installed d, ∀ m ∈ source.acked,
    m.seq ≤ snapshot.watermarks.getD m.shard 0

instance (source : JetStreamSource) (d : Delivery) : Decidable (source.CaughtUp d) :=
  inferInstanceAs (Decidable (∀ snapshot ∈ source.installed d, ∀ m ∈ source.acked, _))

/-! ## One message -/

/-- The watermarks of a cache are at or above those of another. -/
def Grows (cache cache' : RelayCache) : Prop := ∀ s, cache.watermark s ≤ cache'.watermark s

theorem Grows.refl (cache : RelayCache) : Grows cache cache := fun _ => Nat.le_refl _

theorem Grows.trans {cache cache' cache'' : RelayCache} (h : Grows cache cache')
    (h' : Grows cache' cache'') : Grows cache cache'' := fun s => (h s).trans (h' s)

section Message

variable {cache : RelayCache} {m : Mutation} {bootstrap : Bootstrap}

theorem grows_apply {applied : Bool} {cache' : RelayCache} (h : cache.apply m = .ok (applied, cache')) :
    Grows cache cache' ∧ m.seq ≤ cache'.watermark m.shard := by
  unfold RelayCache.apply at h
  split at h
  · cases h
  rename_i hlt
  split at h
  · cases h
    exact ⟨.refl _, by assumption⟩
  split at h
  · cases h
  cases h
  refine ⟨fun s => ?_, ?_⟩
  · rw [RelayCache.push_watermark (by omega)]
    split
    · subst_vars
      omega
    · exact Nat.le_refl _
  · rw [RelayCache.push_watermark (by omega), if_pos rfl]

/-- A mutation leaves the watermarks at or above where they were, and at or above its number. -/
theorem triple_applyToCache (start : RelayCache) (m : Mutation) :
    Triple (Grows start) (applyToCache m)
      (fun _ cache => Grows start cache ∧ m.seq ≤ cache.watermark m.shard) (Grows start)
      (Grows start) := by
  refine Triple.get_bind fun cache hcache => ?_
  refine Triple.bind (q := fun x s => s = cache ∧ cache.apply m = .ok x)
    (Triple.lift (fun _ _ hx hs => ⟨hs, hx⟩) fun _ _ _ hs => hs ▸ hcache) fun ⟨applied, cache'⟩ => ?_
  refine Triple.bind (q := fun _ s => Grows start s ∧ m.seq ≤ s.watermark m.shard)
    (Triple.step ?_ ?_) fun _ => Triple.pure fun _ hs => hs
  · rintro s ⟨-, happly⟩
    exact ⟨hcache.trans (grows_apply happly).1, (grows_apply happly).2⟩
  · rintro s ⟨-, happly⟩
    exact hcache.trans (grows_apply happly).1

theorem grows_applyToCache (m : Mutation) : Respects Grows (applyToCache m) := fun start =>
  (triple_applyToCache start m).conseq (fun _ h => h) (fun _ _ h => h.1) (fun _ h => h) fun _ h => h

theorem grows_bundle (mutations : List Mutation) :
    Respects Grows (forEach (fun m => do let _ ← applyToCache m) mutations : Program Unit) :=
  .forEach (fun m => .bind (grows_applyToCache m) fun _ => .pure ()) mutations

theorem Covers.grows {acked : List Mutation} {cache' : RelayCache} (h : Covers acked cache)
    (hg : Grows cache cache') : Covers acked cache' := fun m hm => (h m hm).trans (hg m.shard)

/-- When the cache starts again from a snapshot. -/
theorem installed_eq_some_iff {source : JetStreamSource} {d : Delivery} {snapshot : Snapshot} :
    source.installed d = some snapshot ↔
      ∃ m shardId expectedSeq receivedSeq bundle response, d.payload = .ok m ∧
        source.cache.apply m = .error (.gap shardId expectedSeq receivedSeq) ∧
        d.bootstrap.deltaBundle shardId (expectedSeq - 1) receivedSeq = .ok bundle ∧
        bundle.statusCode ≠ 200 ∧ d.bootstrap.snapshot = .ok response ∧
        response.statusCode = 200 ∧ response.body = .ok snapshot := by
  constructor
  · intro h
    unfold installed at h
    split at h
    · rename_i shardId expectedSeq receivedSeq happly
      obtain ⟨m, hm, hgap⟩ := Option.map_eq_some_iff.mp happly
      have hpayload : d.payload = .ok m := by
        cases hp : d.payload with
        | error err => rw [hp] at hm; cases hm
        | ok m' => rw [hp] at hm; cases hm; rfl
      split at h
      · rename_i bundle hbundle
        split at h
        · rename_i hstatus
          obtain ⟨body, hbody, hsnapshot⟩ := Option.bind_eq_some_iff.mp h
          unfold okBody at hbody
          split at hbody
          · rename_i response hresponse
            split at hbody
            · rename_i hok
              cases hbody
              refine ⟨m, shardId, expectedSeq, receivedSeq, bundle, response, hpayload, hgap, hbundle,
                hstatus, hresponse, hok, ?_⟩
              cases hb : response.body with
              | error err => rw [hb] at hsnapshot; cases hsnapshot
              | ok snapshot' => rw [hb] at hsnapshot; cases hsnapshot; rfl
            · cases hbody
          · cases hbody
        · cases h
      · cases h
    · cases h
  · rintro ⟨m, shardId, expectedSeq, receivedSeq, bundle, response, hpayload, hgap, hbundle, hstatus,
      hresponse, hok, hbody⟩
    simp [installed, okBody, hpayload, hgap, hbundle, hstatus, hresponse, hok, hbody, Except.toOption]

/-- A repair leaves what was acknowledged covered, if the snapshot that it installs does. -/
theorem covers_repairGap {acked : List Mutation} (h : Covers acked cache)
    {shardId fromSeq toSeq : Nat}
    (hsnapshot : ∀ bundle response snapshot,
      bootstrap.deltaBundle shardId fromSeq toSeq = .ok bundle → bundle.statusCode ≠ 200 →
      bootstrap.snapshot = .ok response → response.statusCode = 200 →
      response.body = .ok snapshot → Covers acked (.new snapshot.watermarks)) :
    Triple (fun s => s = cache) (repairGap bootstrap shardId fromSeq toSeq)
      (fun _ => Covers acked) (Covers acked) (Covers acked) := by
  have hstart : ∀ s, s = cache → Covers acked s := fun s hs => hs ▸ h
  refine Triple.bind (q := fun bundle s =>
    bootstrap.deltaBundle shardId fromSeq toSeq = .ok bundle ∧ s = cache)
    (Triple.lift (fun _ _ hx hs => ⟨hx, hs⟩) fun s _ _ hs => hstart s hs)
    fun bundle => Triple.of_fact fun hbundle => ?_
  refine Triple.ite (fun hstatus => ?_) fun _ => ?_
  · refine Triple.bind (q := fun response s => bootstrap.snapshot = .ok response ∧ s = cache)
      (Triple.lift (fun _ _ hx hs => ⟨hx, hs⟩) fun s _ _ hs => hstart s hs)
      fun response => Triple.of_fact fun hresponse => ?_
    refine Triple.ite (fun _ => Triple.lift (fun _ _ hx _ => by cases hx) fun s _ _ hs => hstart s hs)
      fun hok => ?_
    refine Triple.bind (q := fun snapshot s => Covers acked (.new snapshot.watermarks) ∧ s = cache)
      (Triple.lift (fun snapshot _ hx hs => ⟨?_, hs⟩) fun s _ _ hs => hstart s hs)
      fun snapshot => Triple.step (fun _ hs => hs.1) fun _ hs => hs.1
    exact hsnapshot bundle response snapshot hbundle hstatus hresponse (not_not.mp hok) hx
  · refine Triple.bind (q := fun _ s => s = cache) (Triple.lift (fun _ _ _ hs => hs)
      fun s _ _ hs => hstart s hs) fun mutations => ?_
    exact (grows_bundle mutations cache).conseq (fun s hs => hs ▸ .refl cache)
      (fun _ _ hs => h.grows hs) (fun _ hs => h.grows hs) fun _ hs => h.grows hs

theorem covers_applyToCache {acked : List Mutation} (m : Mutation) :
    Triple (Covers acked) (applyToCache m)
      (fun _ cache => Covers acked cache ∧ m.seq ≤ cache.watermark m.shard) (Covers acked)
      (Covers acked) :=
  Triple.of_get fun start h => (triple_applyToCache start m).conseq (fun _ hs => hs ▸ .refl start)
    (fun _ _ hs => ⟨h.grows hs.1, hs.2⟩) (fun _ hs => h.grows hs) fun _ hs => h.grows hs

/-- A message leaves what was acknowledged covered, and is covered when it is acknowledged. -/
theorem covered_handle {source : JetStreamSource} {d : Delivery} (h : source.Covered)
    (hc : source.CaughtUp d) :
    Triple (fun s => s = source) (handle d) (fun _ => Covered) Covered Covered := by
  have hstart : ∀ s, s = source → s.Covered := fun s hs => hs ▸ h
  refine Triple.bind (q := fun m s => d.payload = .ok m ∧ s = source)
    (Triple.lift (fun _ _ hx hs => ⟨hx, hs⟩) fun s _ _ hs => hstart s hs)
    fun m => Triple.of_fact fun hpayload => ?_
  refine Triple.bind (q := fun _ s => s.Covered ∧ m.seq ≤ s.cache.watermark m.shard) ?_ fun _ => ?_
  · refine Triple.zoom fun s hs => ?_
    subst hs
    show Triple (fun cache => cache = s.cache) _ (fun _ cache => Covers s.acked cache ∧
      m.seq ≤ cache.watermark m.shard) (Covers s.acked) (Covers s.acked)
    refine Triple.get_bind fun cache hcache => ?_
    subst hcache
    split
    · rename_i shardId expectedSeq receivedSeq hgap
      refine (covers_repairGap h ?_).bind fun _ => covers_applyToCache m
      intro bundle response snapshot hbundle hstatus hresponse hok hbody
      exact hc snapshot (installed_eq_some_iff.mpr ⟨m, shardId, expectedSeq, receivedSeq, bundle,
        response, hpayload, hgap, hbundle, hstatus, hresponse, hok, hbody⟩)
    · exact (covers_applyToCache m).conseq (fun _ hs => hs ▸ h) (fun _ _ hs => hs) (fun _ hs => hs)
        fun _ hs => hs
  · refine Triple.ite (fun _ => ?_) fun _ => Triple.pure fun _ hs => hs.1
    have hack : ∀ s : JetStreamSource, s.Covered ∧ m.seq ≤ s.cache.watermark m.shard →
        Covered { s with acked := m :: s.acked } := by
      rintro s ⟨hs, hm⟩ m' hm'
      rcases List.mem_cons.mp hm' with rfl | hm'
      · exact hm
      · exact hs m' hm'
    exact (Triple.step (q := fun _ => Covered) hack hack).bind fun _ =>
      Triple.lift (fun _ _ _ hs => hs) fun _ _ _ hs => hs

/-- The snapshot that a message makes the relay install is one of the states of the cache. -/
theorem caughtUp_of_points {source : JetStreamSource} {d : Delivery}
    (h : ∀ t ∈ (handle d source).points, t.Covered) : source.CaughtUp d := by
  intro snapshot hsnapshot
  obtain ⟨m, shardId, expectedSeq, receivedSeq, bundle, response, hpayload, hgap, hbundle, hstatus,
    hresponse, hok, hbody⟩ := installed_eq_some_iff.mp hsnapshot
  have hzoom := (forall_points_bind.mp ((forall_points_bind.mp h).2 m hpayload)).1
  have hcache : ∀ cache ∈ (applyOrRepair d.bootstrap m source.cache).points,
      Covers source.acked cache := fun cache hmem =>
    hzoom { source with cache } (List.mem_map.mpr ⟨cache, hmem, rfl⟩)
  rw [applyOrRepair, get_bind_apply, hgap] at hcache
  have hrepair := (forall_points_bind.mp hcache).1
  rw [repairGap, hbundle, lift_ok_bind_apply, if_pos hstatus, rebuildCacheFromSnapshot, hresponse,
    lift_ok_bind_apply, if_neg (not_not.mpr hok), hbody, lift_ok_bind_apply] at hrepair
  exact hrepair _ (List.mem_singleton_self _)

end Message

/-! ## Runs -/

section Run

/-- The snapshots that the messages of one pull make the relay install are not behind. -/
def AllCaughtUp : List Delivery → JetStreamSource → Prop
  | [], _ => True
  | d :: ds, source => source.CaughtUp d ∧
    ∀ a, (handle d source).result = .ok a → AllCaughtUp ds (handle d source).final

/-- No pull makes the relay install a snapshot that is behind what it has acknowledged. -/
def NeverBehind : List (Result (List Delivery)) → JetStreamSource → Prop
  | [], _ => True
  | messages :: l, source => (∀ ds, messages = .ok ds → AllCaughtUp ds source) ∧
    NeverBehind l (pullOnce messages source).final

variable {source : JetStreamSource}

theorem forEach_handle_iff {ds : List Delivery} (h : source.Covered) :
    (∀ t ∈ (forEach handle ds source).points, t.Covered) ↔ AllCaughtUp ds source := by
  induction ds generalizing source with
  | nil => exact iff_of_true (fun t ht => by cases ht) trivial
  | cons d ds ih =>
    rw [forEach, forall_points_bind, AllCaughtUp]
    constructor
    · rintro ⟨hpoints, hrest⟩
      have hc := caughtUp_of_points hpoints
      exact ⟨hc, fun a ha => (ih ((covered_handle h hc).final rfl)).mp (hrest a ha)⟩
    · rintro ⟨hc, hrest⟩
      exact ⟨(covered_handle h hc).crash source rfl, fun a ha =>
        (ih ((covered_handle h hc).final rfl)).mpr (hrest a ha)⟩

theorem AllCaughtUp.final {ds : List Delivery} (h : source.Covered) (hds : AllCaughtUp ds source) :
    (forEach handle ds source).final.Covered := by
  induction ds generalizing source with
  | nil => exact h
  | cons d ds ih =>
    have hfinal := (covered_handle h hds.1).final rfl
    rw [forEach]
    cases hr : (handle d source).result with
    | error err =>
      simp only [Bind.bind, hr]
      exact hfinal
    | ok a =>
      simp only [Bind.bind, hr]
      exact ih hfinal (hds.2 a hr)

theorem pullOnce_iff {messages : Result (List Delivery)} (h : source.Covered) :
    (∀ t ∈ (pullOnce messages source).points, t.Covered) ↔
      ∀ ds, messages = .ok ds → AllCaughtUp ds source := by
  rw [pullOnce, forall_points_bind]
  constructor
  · intro hpoints ds hds
    exact (forEach_handle_iff h).mp (hpoints.2 ds hds)
  · intro hds
    exact ⟨fun t ht => (by cases ht), fun ds hok => (forEach_handle_iff h).mpr (hds ds hok)⟩

theorem covered_pullOnce {messages : Result (List Delivery)} (h : source.Covered)
    (hds : ∀ ds, messages = .ok ds → AllCaughtUp ds source) :
    (pullOnce messages source).final.Covered := by
  cases messages with
  | error err => exact h
  | ok ds => exact (hds ds rfl).final h

theorem jetstreamPullLoop_iff {l : List (Result (List Delivery))} (h : source.Covered) :
    (∀ t ∈ (jetstreamPullLoop l source).points, t.Covered) ↔ NeverBehind l source := by
  induction l generalizing source with
  | nil => exact iff_of_true (fun t ht => by cases ht) trivial
  | cons messages l ih =>
    rw [jetstreamPullLoop, forEach, forall_points_bind, NeverBehind, ← pullOnce_iff h]
    constructor
    · rintro ⟨hpoints, hrest⟩
      exact ⟨hpoints, (ih (covered_pullOnce h ((pullOnce_iff h).mp hpoints))).mp (hrest () rfl)⟩
    · rintro ⟨hpoints, hrest⟩
      exact ⟨hpoints, fun _ _ =>
        (ih (covered_pullOnce h ((pullOnce_iff h).mp hpoints))).mpr hrest⟩

/-- Over any run of `pull_once` from a start of the relay, whatever is delivered and answered, the
cache covers what was acknowledged in every state exactly if no repair installs a snapshot that is
behind it. -/
theorem acked_covered_iff (cache : RelayCache) (l : List (Result (List Delivery))) :
    (∀ t ∈ (jetstreamPullLoop l ⟨cache, []⟩).points, t.Covered) ↔ NeverBehind l ⟨cache, []⟩ :=
  jetstreamPullLoop_iff fun _ hm => by cases hm

end Run

/-! A relay of two shards acknowledges the first mutation of shard 0. The second of shard 1 arrives
before the first, there is no bundle, and the snapshot has only the first of shard 1. -/

namespace Lagging

/-- A source that commits in the shards 1, 0 and 1, with its state after the first commit. -/
def commits : Result (SourceOfTruth × List (CommitOutcome × SourceOfTruth)) := do
  let first ← (SourceOfTruth.new 2 "eu").commit 0 (SourceOfTruth.denial "op-2")
  let second ← first.2.commit 0 (SourceOfTruth.denial "op-1")
  let third ← second.2.commit 0 (SourceOfTruth.denial "op-4")
  pure (first.2, [first, second, third])

/-- The messages of the last two commits. The answers are those of the state `st`. -/
def deliveries (st : SourceOfTruth) (ms : List Mutation) : List Delivery :=
  (ms.drop 1).map fun m => ⟨.ok m, some "ack", Following.bootstrap st, .ok ()⟩

/-- The states of a relay that starts without any mutation. -/
def states (ds : List Delivery) : List JetStreamSource :=
  (jetstreamPullLoop [.ok ds] ⟨.new [0, 0], []⟩).points

end Lagging

/-- Every answer is that of a prefix of the history, and an acknowledged mutation is lost. -/
theorem not_acked_covered :
    ∃ history st, SourceOfTruth.Represents 2 history st ∧ ∃ deliveries : List Delivery,
      (∀ d ∈ deliveries, d.bootstrap.Honest 2 history ∧ ∃ m ∈ history, d.payload = .ok m) ∧
      ∃ t ∈ (jetstreamPullLoop [.ok deliveries] ⟨.new [0, 0], []⟩).points, ¬t.Covered := by
  have hrun : (Lagging.commits.map fun (st, commits) =>
      (commits.map fun c => c.1.duplicate,
        (Lagging.states (Lagging.deliveries st (commits.map fun c => c.1.mutation))).any
          fun t => !decide t.Covered)) = .ok ([false, false, false], true) := by
    decide +kernel
  obtain ⟨⟨st, commits⟩, hrun, hres⟩ := map_eq_ok.mp hrun
  simp only [Lagging.commits, bind_eq_ok] at hrun
  obtain ⟨⟨o₁, st₁⟩, h₁, ⟨o₂, st₂⟩, h₂, ⟨o₃, st₃⟩, h₃, hrun⟩ := hrun
  cases hrun
  simp only [List.map_cons, List.map_nil, Prod.mk.injEq, List.cons.injEq, and_true] at hres
  obtain ⟨⟨hd₁, hd₂, hd₃⟩, hlost⟩ := hres
  have hfirst := Run.single (SourceOfTruth.CommitStep.commit h₁)
  have hall := (hfirst.tail (SourceOfTruth.CommitStep.commit h₂)).tail
    (SourceOfTruth.CommitStep.commit h₃)
  have hst₁ := (SourceOfTruth.CommitRun.retains hfirst).toRepresents
  have hst := (SourceOfTruth.CommitRun.retains hall).toRepresents
  simp only [hd₁, hd₂, hd₃, Bool.false_eq_true, if_false] at hst hst₁
  obtain ⟨t, ht, hnot⟩ := List.any_eq_true.mp hlost
  refine ⟨_, _, hst, _, fun d hd => ?_, t, ht, by simpa using hnot⟩
  obtain ⟨m, hm, rfl⟩ := List.mem_map.mp hd
  exact ⟨Following.honest hst₁ (behind_append _ [o₂.mutation, o₃.mutation]), m,
    List.mem_of_mem_drop hm, rfl⟩

end JetStreamSource

end Globacl
