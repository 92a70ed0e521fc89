import Globacl.Agent.Relay
import Globacl.Core.Serving
import Globacl.Lib.Crash

/-!
# The cache of a relay (`globacl-relay/src/app/sources.rs`)

A relay on JetStream keeps, for each shard, the mutations above a base, in order. It starts from the
watermarks of a snapshot, applies what it receives, fetches a bundle from its bootstrap address when
there is a gap, and starts again from a snapshot when there is no bundle. What is below the base it
does not answer itself.

* `Follows`: the cache holds, of each shard of a history, what lies between its base and its
  watermark. The lemmas `triple_*` say that every operation keeps this, also one that fails.
* `cache_serves`: what the cache answers is exactly the source's part of the shard.
-/

namespace Globacl

open Lib Prog

structure RelayCache where
  baseWatermarks : List Nat
  watermarks : List Nat
  mutations : List (List Mutation)
  base_length : baseWatermarks.length = watermarks.length
  mutations_length : watermarks.length ≤ mutations.length

namespace RelayCache

/-- `self.base_watermarks[shard_id]`. -/
def base (cache : RelayCache) (shardId : Nat) : Nat := cache.baseWatermarks.getD shardId 0

/-- `self.watermarks[shard_id]`. -/
def watermark (cache : RelayCache) (shardId : Nat) : Nat := cache.watermarks.getD shardId 0

/-- `self.mutations[shard_id]`. -/
def cached (cache : RelayCache) (shardId : Nat) : List Mutation := cache.mutations.getD shardId []

/-- `RelayCache::new`. -/
def new (baseWatermarks : List Nat) : RelayCache where
  baseWatermarks := baseWatermarks
  watermarks := baseWatermarks
  mutations := List.replicate (max baseWatermarks.length 1) []
  base_length := rfl
  mutations_length := by
    rw [List.length_replicate]
    omega

/-- The error of the cache for a shard that it does not have. -/
def outside (cache : RelayCache) (shardId : Nat) : GlobAclError :=
  .invalidData s!"shard {shardId} is outside relay shard_count {cache.watermarks.length}"

/-- The cache with the next mutation of a shard. -/
def push (cache : RelayCache) (m : Mutation) : RelayCache :=
  { cache with
    watermarks := cache.watermarks.set m.shard m.seq
    mutations := cache.mutations.set m.shard (cache.cached m.shard ++ [m])
    base_length := by rw [List.length_set]; exact cache.base_length
    mutations_length := by rw [List.length_set, List.length_set]; exact cache.mutations_length }

/-- `apply`. -/
def apply (cache : RelayCache) (m : Mutation) : Result (Bool × RelayCache) :=
  if m.shard ≥ cache.watermarks.length then .error (cache.outside m.shard)
  else if m.seq ≤ cache.watermark m.shard then .ok (false, cache)
  else if m.seq ≠ cache.watermark m.shard + 1 then
    .error (.gap m.shard (cache.watermark m.shard + 1) m.seq)
  else .ok (true, cache.push m)

/-- `mutations_for_shard`. -/
def mutationsForShard (cache : RelayCache) (shardId fromSeq : Nat)
    (priorityFilter : Option DeliveryPriority) : Result (Option (List Mutation)) :=
  if shardId ≥ cache.watermarks.length then .error (cache.outside shardId)
  else if fromSeq < cache.base shardId then .ok none
  else
    .ok (some (((cache.cached shardId).filter fun m => decide (m.seq > fromSeq)).filter fun m =>
      priorityFilter.all fun priority => m.deliveryPriority = priority))

/-- `delta_bundle`. -/
def deltaBundle (cache : RelayCache) (shardId fromSeq toSeq : Nat) :
    Result (Option (List Mutation)) :=
  if shardId ≥ cache.watermarks.length then .error (cache.outside shardId)
  else if fromSeq < cache.base shardId then .ok none
  else
    let upper := min toSeq (cache.watermark shardId)
    let mutations := (cache.cached shardId).filter fun m =>
      decide (m.seq > fromSeq) && decide (m.seq ≤ upper)
    if upper > fromSeq ∧ mutations.length ≠ upper - fromSeq then .ok none
    else .ok (some mutations)

end RelayCache

/-! ## The operations of the relay -/

/-- The answers of the bootstrap address. A body is given as what the relay reads from it. -/
structure Bootstrap where
  deltaBundle : Nat → Nat → Nat → Result (HttpResponse (Result (List Mutation)))
  snapshot : Result (HttpResponse (Result Snapshot))
  watermarks : Result (HttpResponse (Result (List Nat)))

namespace JetStreamSource

/-- The body of an answer with the status 200. -/
def okBody {α : Type} (response : Result (HttpResponse α)) : Option α :=
  match response with
  | .ok response => if response.statusCode = 200 then some response.body else none
  | .error _ => none

/-- `DEFAULT_SHARD_COUNT`. -/
def defaultShardCount : Nat := 4096

/-- `bootstrap_cache` (`acks.rs`), with `GLOBACL_SHARD_COUNT` as it is parsed. -/
def bootstrapCache (bootstrap : Bootstrap) (shardCount : Option (Result Nat)) :
    Result RelayCache :=
  match okBody bootstrap.snapshot, okBody bootstrap.watermarks with
  | some body, _ => do
    let snapshot ← body
    pure (.new snapshot.watermarks)
  | none, some body => do
    let watermarks ← body
    pure (.new watermarks)
  | none, none => do
    let shardCount ← shardCount.getD (.ok defaultShardCount)
    pure (.new (List.replicate shardCount 0))

abbrev Program := Prog RelayCache GlobAclError

/-- `apply_to_cache`. -/
def applyToCache (m : Mutation) : Program Bool := do
  let cache ← get
  let (applied, cache) ← lift (cache.apply m)
  step fun _ => cache
  pure applied

/-- `rebuild_cache_from_snapshot`. -/
def rebuildCacheFromSnapshot (bootstrap : Bootstrap) : Program Unit := do
  let response ← lift bootstrap.snapshot
  if response.statusCode ≠ 200 then
    lift (.error (.invalidData
      s!"bootstrap returned status {response.statusCode} for snapshot repair"))
  else do
    let snapshot ← lift response.body
    step fun _ => .new snapshot.watermarks

/-- `repair_gap`. -/
def repairGap (bootstrap : Bootstrap) (shardId fromSeq toSeq : Nat) : Program Unit := do
  let response ← lift (bootstrap.deltaBundle shardId fromSeq toSeq)
  if response.statusCode ≠ 200 then rebuildCacheFromSnapshot bootstrap
  else do
    let mutations ← lift response.body
    forEach (fun m => do let _ ← applyToCache m) mutations

/-- `apply_or_repair`. -/
def applyOrRepair (bootstrap : Bootstrap) (m : Mutation) : Program Bool := do
  let cache ← get
  match cache.apply m with
  | .error (.gap shardId expectedSeq receivedSeq) => do
    repairGap bootstrap shardId (expectedSeq - 1) receivedSeq
    applyToCache m
  | _ => applyToCache m

end JetStreamSource

/-! ## What the cache holds -/

namespace RelayCache

/-- The cache holds, of each shard of the history, what lies between its base and its watermark. -/
structure Follows (history : List Mutation) (cache : RelayCache) : Prop where
  base_le : ∀ s, cache.base s ≤ cache.watermark s
  known : ∀ s, cache.watermark s ≤ (shardLog history s).length
  cached : ∀ s, cache.cached s =
    ((shardLog history s).take (cache.watermark s)).drop (cache.base s)

variable {n : Nat} {history : List Mutation} {cache cache' : RelayCache} {m : Mutation}

theorem follows_new {watermarks : List Nat}
    (h : ∀ s, watermarks.getD s 0 ≤ (shardLog history s).length) :
    Follows history (new watermarks) where
  base_le _ := Nat.le_refl _
  known := h
  cached s := by
    have hnil : (new watermarks).cached s = [] := by
      show (List.replicate _ []).getD s [] = []
      rw [List.getD_eq_getElem?_getD, List.getElem?_replicate]
      split <;> rfl
    rw [hnil, List.drop_eq_nil_of_le]
    exact (List.length_take_le _ _)

theorem apply_ok {applied : Bool} (h : cache.apply m = .ok (applied, cache')) :
    cache' = cache ∨ (m.shard < cache.watermarks.length ∧ m.seq = cache.watermark m.shard + 1 ∧
      cache' = cache.push m) := by
  unfold apply at h
  split at h
  · cases h
  · split at h
    · cases h; exact Or.inl rfl
    · split at h
      · cases h
      · cases h
        exact Or.inr ⟨by omega, by omega, rfl⟩

@[simp] theorem push_base (s : Nat) : (cache.push m).base s = cache.base s := rfl

theorem push_watermark (h : m.shard < cache.watermarks.length) (s : Nat) :
    (cache.push m).watermark s = if s = m.shard then m.seq else cache.watermark s := by
  show (cache.watermarks.set m.shard m.seq).getD s 0 = _
  rw [List.getD_eq_getElem?_getD]
  split
  · subst_vars
    rw [List.getElem?_set_self h]
    rfl
  · rw [List.getElem?_set_ne (Ne.symm ‹_›), ← List.getD_eq_getElem?_getD]
    rfl

theorem push_cached (h : m.shard < cache.watermarks.length) (s : Nat) :
    (cache.push m).cached s =
      if s = m.shard then cache.cached m.shard ++ [m] else cache.cached s := by
  have hlt : m.shard < cache.mutations.length := Nat.lt_of_lt_of_le h cache.mutations_length
  show (cache.mutations.set m.shard (cache.cached m.shard ++ [m])).getD s [] = _
  rw [List.getD_eq_getElem?_getD]
  split
  · subst_vars
    rw [List.getElem?_set_self hlt]
    rfl
  · rw [List.getElem?_set_ne (Ne.symm ‹_›), ← List.getD_eq_getElem?_getD]
    rfl

/-- The next mutation of a shard of the history extends what is cached. -/
theorem Follows.push (h : Follows history cache) (hv : ValidHistory n history) (hm : m ∈ history)
    (hlt : m.shard < cache.watermarks.length) (hseq : m.seq = cache.watermark m.shard + 1) :
    Follows history (cache.push m) := by
  have hget : (shardLog history m.shard)[cache.watermark m.shard]? = some m := by
    rw [← hv.getElem?_seq hm, hseq, Nat.add_sub_cancel]
  have hlen := (List.getElem?_eq_some_iff.mp hget).1
  refine ⟨fun s => ?_, fun s => ?_, fun s => ?_⟩
  · rw [push_base, push_watermark hlt]
    have := h.base_le s
    split
    · subst_vars; omega
    · exact this
  · rw [push_watermark hlt]
    split
    · subst_vars; omega
    · exact h.known s
  · rw [push_base, push_watermark hlt, push_cached hlt]
    split
    · subst_vars
      have hle : cache.base m.shard ≤
          ((shardLog history m.shard).take (cache.watermark m.shard)).length := by
        rw [List.length_take]
        have := h.base_le m.shard
        omega
      rw [hseq, List.take_add_one, hget, List.drop_append_of_le_length hle, h.cached]
      rfl
    · exact h.cached s

theorem Follows.apply {applied : Bool} (h : Follows history cache) (hv : ValidHistory n history)
    (hm : m ∈ history) (ha : cache.apply m = .ok (applied, cache')) : Follows history cache' := by
  rcases apply_ok ha with rfl | ⟨hlt, hseq, rfl⟩
  · exact h
  · exact h.push hv hm hlt hseq

end RelayCache

/-! ## The operations keep it -/

/-- The answers come from a source that has reached a prefix of the history: a bundle has mutations
of the history, and a snapshot and watermarks are those of a prefix. -/
structure Bootstrap.Honest (n : Nat) (history : List Mutation) (bootstrap : Bootstrap) : Prop where
  deltaBundle : ∀ shardId fromSeq toSeq response mutations,
    bootstrap.deltaBundle shardId fromSeq toSeq = .ok response →
    response.body = .ok mutations → mutations ⊆ history
  snapshot : ∀ response snapshot, bootstrap.snapshot = .ok response →
    response.body = .ok snapshot →
    ∃ before st ord, SourceOfTruth.Represents n before st ∧ Behind before history ∧
      snapshot = st.snapshot ord
  watermarks : ∀ response watermarks, bootstrap.watermarks = .ok response →
    response.body = .ok watermarks →
    ∃ before st, SourceOfTruth.Represents n before st ∧ Behind before history ∧
      watermarks = st.watermarks

namespace JetStreamSource

variable {n : Nat} {history : List Mutation} {bootstrap : Bootstrap}

/-- A program that leaves the cache a part of the history, wherever it stops. -/
abbrev Follows {α : Type} (history : List Mutation) (c : Program α) : Prop :=
  Triple (RelayCache.Follows history) c (fun _ => RelayCache.Follows history)
    (RelayCache.Follows history) (RelayCache.Follows history)

theorem follows_prefix {before : List Mutation} {st : SourceOfTruth}
    (hst : SourceOfTruth.Represents n before st) (h : Behind before history) :
    RelayCache.Follows history (.new st.watermarks) :=
  RelayCache.follows_new fun s => (hst.watermark s).le.trans (h.length_le s)

theorem follows_applyToCache (hv : ValidHistory n history) {m : Mutation} (hm : m ∈ history) :
    Follows history (applyToCache m) := by
  refine Triple.get_bind fun cache h => ?_
  refine Triple.bind (q := fun x s => RelayCache.Follows history x.2) ?_ fun ⟨applied, cache'⟩ => ?_
  · exact Triple.lift (fun x s hx _ => h.apply hv hm hx) fun s err _ hs => hs ▸ h
  · exact Triple.bind (q := fun _ => RelayCache.Follows history)
      (Triple.step (fun _ hs => hs) fun _ hs => hs) fun _ => Triple.pure fun _ hs => hs

theorem follows_rebuildCacheFromSnapshot (hb : bootstrap.Honest n history) :
    Follows history (rebuildCacheFromSnapshot bootstrap) := by
  refine Triple.bind (q := fun response s => bootstrap.snapshot = .ok response ∧
    RelayCache.Follows history s) (Triple.lift (fun _ _ hx hs => ⟨hx, hs⟩) fun _ _ _ hs => hs)
    fun response => Triple.of_fact fun hresponse => ?_
  refine Triple.ite (fun _ => Triple.lift (fun _ _ hx _ => by cases hx) fun _ _ _ hs => hs) fun _ => ?_
  refine Triple.bind (q := fun snapshot s => RelayCache.Follows history (.new snapshot.watermarks))
    (Triple.lift (fun snapshot _ hx _ => ?_) fun _ _ _ hs => hs)
    fun snapshot => Triple.step (fun _ hs => hs) fun _ hs => hs
  obtain ⟨before, st, ord, hst, hbehind, rfl⟩ := hb.snapshot response snapshot hresponse hx
  exact follows_prefix hst hbehind

theorem follows_repairGap (hv : ValidHistory n history) (hb : bootstrap.Honest n history)
    (shardId fromSeq toSeq : Nat) : Follows history (repairGap bootstrap shardId fromSeq toSeq) := by
  refine Triple.bind (q := fun response s =>
    bootstrap.deltaBundle shardId fromSeq toSeq = .ok response ∧ RelayCache.Follows history s)
    (Triple.lift (fun _ _ hx hs => ⟨hx, hs⟩) fun _ _ _ hs => hs)
    fun response => Triple.of_fact fun hresponse => ?_
  refine Triple.ite (fun _ => follows_rebuildCacheFromSnapshot hb) fun _ => ?_
  refine Triple.bind (q := fun mutations s => mutations ⊆ history ∧ RelayCache.Follows history s)
    (Triple.lift (fun mutations _ hx hs => ⟨hb.deltaBundle _ _ _ response mutations hresponse hx, hs⟩)
      fun _ _ _ hs => hs) fun mutations => ?_
  -- the loop, by what is left of the bundle
  refine (Triple.forEach (I := fun l s => l ⊆ history ∧ RelayCache.Follows history s)
    (fun m l => Triple.of_fact fun hsub => ?_) mutations).conseq (fun _ hs => hs) (fun _ _ hs => hs.2)
    (fun _ hs => hs) fun _ hs => hs
  exact (follows_applyToCache hv (hsub List.mem_cons_self)).bind fun _ => Triple.pure fun s hs =>
    ⟨fun x hx => hsub (List.mem_cons_of_mem _ hx), hs⟩

theorem follows_applyOrRepair (hv : ValidHistory n history) (hb : bootstrap.Honest n history)
    {m : Mutation} (hm : m ∈ history) : Follows history (applyOrRepair bootstrap m) := by
  refine Triple.get_bind fun cache h => ?_
  refine Triple.conseq (p := RelayCache.Follows history) ?_ (fun s hs => hs ▸ h) (fun _ _ hs => hs)
    (fun _ hs => hs) fun _ hs => hs
  split
  · exact (follows_repairGap hv hb _ _ _).bind fun _ => follows_applyToCache hv hm
  · exact follows_applyToCache hv hm

theorem follows_bootstrapCache {shardCount : Option (Result Nat)} {cache : RelayCache}
    (hb : bootstrap.Honest n history) (h : bootstrapCache bootstrap shardCount = .ok cache) :
    RelayCache.Follows history cache := by
  have hok : ∀ {α : Type} {r : Result (HttpResponse α)} {body : α}, okBody r = some body →
      ∃ response, r = .ok response ∧ response.body = body := by
    intro α r body h
    unfold okBody at h
    split at h
    · split at h
      · exact ⟨_, rfl, Option.some.inj h⟩
      · cases h
    · cases h
  unfold bootstrapCache at h
  split at h
  · rename_i body hbody
    obtain ⟨snapshot, hsnapshot, h⟩ := bind_eq_ok.mp h
    cases h
    obtain ⟨response, hresponse, hr⟩ := hok hbody
    obtain ⟨before, st, ord, hst, hbehind, rfl⟩ :=
      hb.snapshot response snapshot hresponse (hr.trans hsnapshot)
    exact follows_prefix hst hbehind
  · rename_i body _ hbody
    obtain ⟨watermarks, hwatermarks, h⟩ := bind_eq_ok.mp h
    cases h
    obtain ⟨response, hresponse, hr⟩ := hok hbody
    obtain ⟨before, st, hst, hbehind, rfl⟩ :=
      hb.watermarks response watermarks hresponse (hr.trans hwatermarks)
    exact follows_prefix hst hbehind
  · obtain ⟨shardCount, -, h⟩ := bind_eq_ok.mp h
    cases h
    refine RelayCache.follows_new fun s => ?_
    rw [List.getD_eq_getElem?_getD, List.getElem?_replicate]
    split <;> exact Nat.zero_le _

end JetStreamSource

/-! ## Runs -/

/-- A cache of a relay that follows a source: it is built by `bootstrap_cache`, and then receives
mutations of the history, repairs and starts again, in any order. A reader may find it between the
steps of an operation, and an operation may fail. -/
inductive RelayRun (n : Nat) (history : List Mutation) : RelayCache → Prop
  | bootstrap {bootstrap : Bootstrap} {shardCount : Option (Result Nat)} {cache : RelayCache}
      (hb : bootstrap.Honest n history)
      (h : JetStreamSource.bootstrapCache bootstrap shardCount = .ok cache) :
      RelayRun n history cache
  | apply {cache cache' : RelayCache} {m : Mutation} (hr : RelayRun n history cache)
      (hm : m ∈ history)
      (h : cache' = (JetStreamSource.applyToCache m cache).final) : RelayRun n history cache'
  | applyOrRepair {cache cache' : RelayCache} {bootstrap : Bootstrap} {m : Mutation}
      (hr : RelayRun n history cache) (hb : bootstrap.Honest n history) (hm : m ∈ history)
      (h : cache' ∈ (JetStreamSource.applyOrRepair bootstrap m cache).points ∨
        cache' = (JetStreamSource.applyOrRepair bootstrap m cache).final) : RelayRun n history cache'
  | repairGap {cache cache' : RelayCache} {bootstrap : Bootstrap} {shardId fromSeq toSeq : Nat}
      (hr : RelayRun n history cache) (hb : bootstrap.Honest n history)
      (h : cache' ∈ (JetStreamSource.repairGap bootstrap shardId fromSeq toSeq cache).points ∨
        cache' = (JetStreamSource.repairGap bootstrap shardId fromSeq toSeq cache).final) :
      RelayRun n history cache'
  | rebuild {cache cache' : RelayCache} {bootstrap : Bootstrap} (hr : RelayRun n history cache)
      (hb : bootstrap.Honest n history)
      (h : cache' = (JetStreamSource.rebuildCacheFromSnapshot bootstrap cache).final) :
      RelayRun n history cache'

namespace JetStreamSource

variable {α : Type} {history : List Mutation} {c : Program α} {cache cache' : RelayCache}

theorem Follows.final (hc : Follows history c) (h : RelayCache.Follows history cache) :
    RelayCache.Follows history (c cache).final := by
  cases hr : (c cache).result with
  | ok a => exact hc.ok _ _ h hr
  | error err => exact hc.error _ _ h hr

theorem Follows.reached (hc : Follows history c) (h : RelayCache.Follows history cache)
    (hp : cache' ∈ (c cache).points ∨ cache' = (c cache).final) :
    RelayCache.Follows history cache' := by
  rcases hp with hp | rfl
  · exact hc.crash _ h _ hp
  · exact hc.final h

end JetStreamSource

variable {n : Nat} {history : List Mutation} {cache : RelayCache}

theorem RelayRun.follows (hv : ValidHistory n history) (h : RelayRun n history cache) :
    cache.Follows history := by
  induction h with
  | bootstrap hb h => exact JetStreamSource.follows_bootstrapCache hb h
  | apply _ hm h ih => exact h ▸ (JetStreamSource.follows_applyToCache hv hm).final ih
  | applyOrRepair _ hb hm h ih => exact (JetStreamSource.follows_applyOrRepair hv hb hm).reached ih h
  | repairGap _ hb h ih => exact (JetStreamSource.follows_repairGap hv hb _ _ _).reached ih h
  | rebuild _ hb h ih => exact h ▸ (JetStreamSource.follows_rebuildCacheFromSnapshot hb).final ih

/-! ## What the cache answers -/

/-- The mutations of a shard of the history with a sequence number in `(fromSeq, toSeq]`. -/
def shardRange (history : List Mutation) (shardId fromSeq toSeq : Nat) : List Mutation :=
  (shardLog history shardId).filter fun m => decide (m.seq > fromSeq) && decide (m.seq ≤ toSeq)

/-- The numbers up to a bound are a prefix of the shard. -/
theorem filter_seq_le (hv : ValidHistory n history) (shardId k : Nat) :
    ((shardLog history shardId).filter fun m => decide (m.seq ≤ k)) =
      (shardLog history shardId).take k := by
  have htake : ((shardLog history shardId).take k).filter (fun m => decide (m.seq ≤ k)) =
      (shardLog history shardId).take k := List.filter_eq_self.mpr fun m hm => by
    obtain ⟨i, hi⟩ := List.mem_iff_getElem?.mp hm
    rw [List.getElem?_take] at hi
    split at hi
    · rw [decide_eq_true_eq, hv.numbered shardId i m hi]
      omega
    · cases hi
  have hdrop : ((shardLog history shardId).drop k).filter (fun m => decide (m.seq ≤ k)) = [] :=
    List.filter_eq_nil_iff.mpr fun m hm => by
      obtain ⟨i, hi⟩ := List.mem_iff_getElem?.mp hm
      rw [List.getElem?_drop] at hi
      rw [decide_eq_true_eq, hv.numbered shardId _ m hi]
      omega
  conv_lhs => rw [← List.take_append_drop k (shardLog history shardId)]
  rw [List.filter_append, htake, hdrop, List.append_nil]

theorem shardRange_eq (hv : ValidHistory n history) (shardId fromSeq toSeq : Nat) :
    shardRange history shardId fromSeq toSeq =
      ((shardLog history shardId).take toSeq).drop fromSeq := by
  have hself : shardLog ((shardLog history shardId).take toSeq) shardId =
      (shardLog history shardId).take toSeq :=
    List.filter_eq_self.mpr fun m hm => by
      rw [decide_eq_true_eq]
      exact (mem_shardLog.mp (List.mem_of_mem_take hm)).2
  have hdrop := (hv.take_shardLog shardId toSeq).filter_seq shardId fromSeq
  rw [hself] at hdrop
  rw [← hdrop, ← filter_seq_le hv, List.filter_filter]
  rfl

/-- The sequence numbers of a range are ascending, without gaps or repeats. -/
theorem map_seq_shardRange (hv : ValidHistory n history) {shardId fromSeq toSeq : Nat}
    (h : toSeq ≤ (shardLog history shardId).length) :
    (shardRange history shardId fromSeq toSeq).map Mutation.seq =
      List.range' (fromSeq + 1) (toSeq - fromSeq) := by
  rw [shardRange_eq hv]
  refine List.ext_getElem ?_ fun i hi hi' => ?_
  · rw [List.length_map, List.length_drop, List.length_take, List.length_range']
    omega
  · simp only [List.getElem_map, List.getElem_drop, List.getElem_take, List.getElem_range']
    rw [hv.numbered shardId (fromSeq + i) _ (List.getElem?_eq_getElem _)]
    omega

/-- The answer of a cache for a range: exactly the source's mutations, in ascending order. -/
structure Serves (history : List Mutation) (shardId fromSeq toSeq : Nat)
    (mutations : List Mutation) : Prop where
  exact : mutations = shardRange history shardId fromSeq toSeq
  ascending : mutations.map Mutation.seq = List.range' (fromSeq + 1) (toSeq - fromSeq)

/-- A range of what is cached is the range of the shard, up to the watermark. -/
theorem RelayCache.Follows.filter_cached (h : cache.Follows history) (hv : ValidHistory n history)
    {shardId fromSeq toSeq : Nat} (hfrom : cache.base shardId ≤ fromSeq) :
    ((cache.cached shardId).filter fun m => decide (m.seq > fromSeq) && decide (m.seq ≤ toSeq)) =
      shardRange history shardId fromSeq (min toSeq (cache.watermark shardId)) := by
  rw [h.cached, ← shardRange_eq hv, shardRange, shardRange, List.filter_filter]
  refine List.filter_congr fun m _ => ?_
  simp only [← Bool.decide_and, decide_eq_decide]
  omega

/-- What a cache answers itself is exactly the source's part of the shard: for `mutations_for_shard`
up to the watermark of the cache, for `delta_bundle` up to the end that was asked for or the
watermark. -/
theorem cache_serves {st : SourceOfTruth} (hst : SourceOfTruth.Represents n history st)
    (hr : RelayRun n history cache) (shardId fromSeq : Nat) :
    (∀ mutations, cache.mutationsForShard shardId fromSeq none = .ok (some mutations) →
      Serves history shardId fromSeq (cache.watermark shardId) mutations) ∧
    ∀ toSeq mutations, cache.deltaBundle shardId fromSeq toSeq = .ok (some mutations) →
      Serves history shardId fromSeq (min toSeq (cache.watermark shardId)) mutations := by
  have hv := hst.valid
  have h := hr.follows hv
  have hknown := h.known shardId
  constructor
  · intro mutations hm
    unfold RelayCache.mutationsForShard at hm
    split at hm
    · cases hm
    · split at hm
      · cases hm
      · rename_i hfrom
        cases hm
        have hall : ((cache.cached shardId).filter fun m => decide (m.seq > fromSeq)) =
            (cache.cached shardId).filter fun m =>
              decide (m.seq > fromSeq) && decide (m.seq ≤ cache.watermark shardId) := by
          refine List.filter_congr fun m hm => ?_
          rw [h.cached, ← shardRange_eq hv] at hm
          have hle := (List.mem_filter.mp hm).2
          rw [Bool.and_eq_true, decide_eq_true_eq, decide_eq_true_eq] at hle
          simp [hle.2]
        simp only [Option.all_none, List.filter_true]
        rw [hall, h.filter_cached hv (Nat.le_of_not_lt hfrom), Nat.min_self]
        exact ⟨rfl, map_seq_shardRange hv hknown⟩
  · intro toSeq mutations hm
    unfold RelayCache.deltaBundle at hm
    dsimp only at hm
    split at hm
    · cases hm
    · split at hm
      · cases hm
      · rename_i hfrom
        split at hm
        · cases hm
        · cases hm
          rw [h.filter_cached hv (Nat.le_of_not_lt hfrom), Nat.min_assoc, Nat.min_self]
          exact ⟨rfl, map_seq_shardRange hv (by omega)⟩

/-! A relay that starts from a snapshot of one denial and then receives a second one. -/

namespace Following

/-- A source that commits two denials, with its state after the first. -/
def source : Result (SourceOfTruth × (CommitOutcome × SourceOfTruth) × (CommitOutcome × SourceOfTruth)) :=
  do
    let first ← (SourceOfTruth.new 1 "eu").commit 0 (SourceOfTruth.denial "op-1")
    let second ← first.2.commit 0 (SourceOfTruth.denial "op-2")
    pure (first.2, first, second)

/-- The answers of a bootstrap address that has only a snapshot. -/
def bootstrap (st : SourceOfTruth) : Bootstrap where
  deltaBundle _ _ _ := .ok ⟨404, .error (.parse "")⟩
  snapshot := .ok ⟨200, .ok (st.snapshot .given)⟩
  watermarks := .ok ⟨404, .error (.parse "")⟩

theorem honest {n : Nat} {before history : List Mutation} {st : SourceOfTruth}
    (hst : SourceOfTruth.Represents n before st) (h : Behind before history) :
    (bootstrap st).Honest n history where
  deltaBundle _ _ _ response mutations hr hb := by
    cases hr
    cases hb
  snapshot response snapshot hr hb := by
    cases hr
    cases hb
    exact ⟨before, st, .given, hst, h, rfl⟩
  watermarks response watermarks hr hb := by
    cases hr
    cases hb

end Following

theorem cache_serves_following :
    ∃ history st cache, SourceOfTruth.Represents 1 history st ∧ RelayRun 1 history cache ∧
      cache.watermark 0 = 2 ∧
      (∃ mutations, cache.mutationsForShard 0 1 none = .ok (some mutations) ∧
        Serves history 0 1 (cache.watermark 0) mutations) ∧
      ∃ mutations, cache.deltaBundle 0 1 9 = .ok (some mutations) ∧
        Serves history 0 1 (min 9 (cache.watermark 0)) mutations := by
  have hrun : (Following.source.map fun (st₀, first, second) =>
      let cache := (JetStreamSource.applyToCache second.1.mutation (.new st₀.watermarks)).final
      (first.1.duplicate, second.1.duplicate, cache.watermark 0,
        (cache.mutationsForShard 0 1 none).toOption.join.isSome,
        (cache.deltaBundle 0 1 9).toOption.join.isSome)) = .ok (false, false, 2, true, true) := by
    decide +kernel
  obtain ⟨⟨st₀, ⟨o₀, st₁⟩, ⟨o, st⟩⟩, hrun, hres⟩ := map_eq_ok.mp hrun
  simp only [Following.source, bind_eq_ok] at hrun
  obtain ⟨⟨_, _⟩, h₀, ⟨_, _⟩, h₁, hrun⟩ := hrun
  cases hrun
  simp only [Prod.mk.injEq] at hres
  obtain ⟨-, hdup, hwm, hsome, hsome'⟩ := hres
  have hfirst := Run.single (SourceOfTruth.CommitStep.commit h₀)
  have hboth := hfirst.tail (SourceOfTruth.CommitStep.commit h₁)
  have hst₀ := (SourceOfTruth.CommitRun.retains hfirst).toRepresents
  have hst := (SourceOfTruth.CommitRun.retains hboth).toRepresents
  simp only [hdup, Bool.false_eq_true, if_false] at hst
  have hnew : ∀ st, JetStreamSource.bootstrapCache (Following.bootstrap st) none =
      .ok (.new st.watermarks) := fun _ => rfl
  have hcache : RelayRun 1 _ (JetStreamSource.applyToCache o.mutation (.new st₁.watermarks)).final :=
    .apply (.bootstrap (Following.honest hst₀ (behind_append _ [o.mutation])) (hnew st₁))
      (List.mem_append_right _ (List.mem_singleton_self _)) rfl
  have hserves := cache_serves hst hcache 0 1
  have hanswer : ∀ {r : Result (Option (List Mutation))}, r.toOption.join.isSome = true →
      ∃ mutations, r = .ok (some mutations) := by
    rintro (err | _ | mutations) h
    · cases h
    · cases h
    · exact ⟨mutations, rfl⟩
  obtain ⟨ms, hms⟩ := hanswer hsome
  obtain ⟨ms', hms'⟩ := hanswer hsome'
  exact ⟨_, _, _, hst, hcache, hwm, ⟨ms, hms, hserves.1 ms hms⟩, ⟨ms', hms', hserves.2 9 ms' hms'⟩⟩

end Globacl
