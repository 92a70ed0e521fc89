import Globacl.Edge.ActiveState

/-!
# An edge converges to the source

An edge starts from a snapshot of the source and receives mutations of the source's history in any
order, with repeats, and may fold its overlay at any time. At every moment it holds, in each
shard, what a prefix of the shard's log says; the length of the prefix is the shard's watermark.

* `EdgeAt`: what an edge holds, relative to a history. `EdgeStep.edgeAt`: every step keeps it.
* `lookup_converges`: a point lookup is the lookup of a source in which exactly the first
  mutations of the key's shard have been committed.
-/

namespace Globacl

open Lib

namespace ActiveState

/-- The edge holds, in each shard, what the first `watermark` mutations of the shard say. -/
structure EdgeAt (n : Nat) (history : List Mutation) (a : ActiveState) : Prop where
  shardCount : a.shardCount = n
  behind : ∀ s, a.watermark s ≤ (shardLog history s).length
  entry : ∀ key, a.entryAt key =
    entryAfter ((shardLog history (shardForHash key.keyHash n)).take
      (a.watermark (shardForHash key.keyHash n))) key
  rule : ∀ key, a.ruleAt key =
    ruleAfter ((shardLog history (shardForHash key.ruleHash n)).take
      (a.watermark (shardForHash key.ruleHash n))) key
  unique : a.ruleBase.Unique

/-- What a state built from a snapshot holds, if the snapshot has one value per key and no
deletions among its rules. -/
theorem fromSnapshot_ok {snapshot : Snapshot} {a : ActiveState}
    (h : fromSnapshot snapshot = .ok a) {e : AclKey → Option DenyEntry}
    {r : RuleKey → Option RuleEntry} (he : HashMap.Lists DenyEntry.aclKey snapshot.entries e)
    (hr : HashMap.Lists RuleEntry.ruleKey snapshot.rules r)
    (hdel : ∀ key rule, r key = some rule → rule.action ≠ .delete) :
    a.shardCount = snapshot.shardCount ∧ a.watermarks = snapshot.watermarks ∧
      (∀ key, a.entryAt key = e key) ∧ (∀ key, a.ruleAt key = r key) ∧ a.ruleBase.Unique := by
  obtain ⟨-, hbase, hrules, hn, hw, h1, h2, h3, h4⟩ := fromSnapshot_builds h
  obtain ⟨hu, hfind⟩ := CompiledRules.find_fromRules hrules hr hdel
  refine ⟨hn, hw, fun key => ?_, fun key => ?_, hu⟩
  · rw [entryAt, h1, h2, overlay_empty, ImmutableBase.find_fromEntries hbase he]
  · rw [ruleAt, h3, h4, overlay_empty, hfind]

/-- A compaction keeps what the state holds. -/
theorem compactDeltaOverlay_ok {ord : IterOrder} {a a' : ActiveState}
    (h : a.compactDeltaOverlay ord = .ok a') (hu : a.ruleBase.Unique)
    (hdel : ∀ key rule, a.ruleAt key = some rule → rule.action ≠ .delete) :
    a'.shardCount = a.shardCount ∧ a'.watermarks = a.watermarks ∧
      (∀ key, a'.entryAt key = a.entryAt key) ∧ (∀ key, a'.ruleAt key = a.ruleAt key) ∧
      a'.ruleBase.Unique := by
  rcases compactDeltaOverlay_cases h with ⟨rfl, -⟩ | ⟨base, ruleBase, hbase, hrules, rfl⟩
  · exact ⟨rfl, rfl, fun _ => rfl, fun _ => rfl, hu⟩
  · obtain ⟨hu', hfind⟩ := CompiledRules.find_fromRules hrules (lists_materializedRules ord hu) hdel
    refine ⟨rfl, rfl, fun key => ?_, fun key => ?_, hu'⟩
    · rw [rebased, entryAt, overlay_empty,
        ImmutableBase.find_fromEntries hbase (lists_materializedEntries ord a)]
    · rw [rebased, ruleAt, overlay_empty, hfind]

theorem applyMutation_ok {a a' : ActiveState} {m : Mutation} {status : ApplyStatus}
    (h : a.applyMutation m = .ok (status, a')) :
    a' = a ∨ (m.shard < a.shardCount ∧ m.seq = a.watermark m.shard + 1 ∧ a' = a.advance m) := by
  unfold applyMutation at h
  split at h
  · cases h
  · split at h
    · cases h; exact Or.inl rfl
    · split at h
      · cases h
      · cases h
        exact Or.inr ⟨by omega, by omega, rfl⟩

theorem watermark_advance {a : ActiveState} {m : Mutation} (h : m.shard < a.shardCount) (s : Nat) :
    (a.advance m).watermark s = if s = m.shard then m.seq else a.watermark s := by
  unfold watermark
  simp only [advance_watermarks, List.getD_eq_getElem?_getD]
  split
  · subst_vars
    rw [List.getElem?_set_self (by rw [a.watermarks_length]; exact h)]
    rfl
  · rw [List.getElem?_set_ne (Ne.symm ‹_›)]

variable {n : Nat} {history : List Mutation} {a a' : ActiveState}

/-- A state with the same watermarks that holds the same. -/
theorem EdgeAt.of_same (h : EdgeAt n history a)
    (hs : a'.shardCount = a.shardCount ∧ a'.watermarks = a.watermarks ∧
      (∀ key, a'.entryAt key = a.entryAt key) ∧ (∀ key, a'.ruleAt key = a.ruleAt key) ∧
      a'.ruleBase.Unique) : EdgeAt n history a' := by
  obtain ⟨hn, hw, he, hr, hu⟩ := hs
  have hwm : ∀ s, a'.watermark s = a.watermark s := fun s => by
    rw [ActiveState.watermark, hw, ActiveState.watermark]
  exact
    { shardCount := hn.trans h.shardCount
      behind := fun s => by rw [hwm]; exact h.behind s
      entry := fun key => by rw [he, hwm]; exact h.entry key
      rule := fun key => by rw [hr, hwm]; exact h.rule key
      unique := hu }

theorem EdgeAt.rule_ne_delete (h : EdgeAt n history a) (key : RuleKey) (rule : RuleEntry)
    (hr : a.ruleAt key = some rule) : rule.action ≠ .delete :=
  ruleAfter_ne_delete ((h.rule key).symm.trans hr)

/-- Applying the next mutation of a shard extends the prefix of this shard by one. -/
theorem EdgeAt.advance (h : EdgeAt n history a) (hv : ValidHistory n history) {m : Mutation}
    (hm : m ∈ history) (hlt : m.shard < a.shardCount) (hseq : m.seq = a.watermark m.shard + 1) :
    EdgeAt n history (a.advance m) := by
  have hget : (shardLog history m.shard)[a.watermark m.shard]? = some m := by
    rw [← hv.getElem?_seq hm, hseq, Nat.add_sub_cancel]
  have htake : (shardLog history m.shard).take m.seq =
      (shardLog history m.shard).take (a.watermark m.shard) ++ [m] := by
    rw [hseq, List.take_add_one, hget]
    rfl
  exact
    { shardCount := (advance_shardCount a m).trans h.shardCount
      behind := fun s => by
        rw [watermark_advance hlt]
        split
        · subst_vars
          have := (List.getElem?_eq_some_iff.mp hget).1
          omega
        · exact h.behind s
      entry := fun key => by
        rw [entryAt_advance, watermark_advance hlt]
        split
        · rename_i hs
          rw [hs, htake, entryAfter, valueAt_concat, h.entry key, hs]
          rfl
        · rename_i hs
          rw [writeAt_of_ne, h.entry key]
          intro v hw
          rw [← m.targetHash_of_entryWrite hw, ← (hv.routed m hm).shard] at hs
          exact hs rfl
      rule := fun key => by
        rw [ruleAt_advance, watermark_advance hlt]
        split
        · rename_i hs
          rw [hs, htake, ruleAfter, valueAt_concat, h.rule key, hs]
          rfl
        · rename_i hs
          rw [writeAt_of_ne, h.rule key]
          intro v hw
          rw [← m.targetHash_of_ruleWrite hw, ← (hv.routed m hm).shard] at hs
          exact hs rfl
      unique := by rw [advance_ruleBase]; exact h.unique }

/-- An edge that starts from a snapshot of the source is at the source's watermarks. -/
theorem edgeAt_fromSnapshot {st : SourceOfTruth} {before after : List Mutation} {ord : IterOrder}
    (hr : SourceOfTruth.Represents n before st)
    (h : fromSnapshot (st.snapshot ord) = .ok a) : EdgeAt n (before ++ after) a := by
  obtain ⟨hn, hw, he, hrule, hu⟩ := fromSnapshot_ok h (st.entries_keyed.lists ord)
    (st.rules_keyed.lists ord) fun key rule hk => by
      rw [hr.rules] at hk
      exact ruleAfter_ne_delete hk
  have hwm : ∀ s, a.watermark s = (shardLog before s).length := fun s => by
    rw [watermark, hw]
    exact hr.watermark s
  have htake : ∀ s, (shardLog (before ++ after) s).take (a.watermark s) = shardLog before s :=
    fun s => by rw [hwm, shardLog_append, List.take_left']; rfl
  exact
    { shardCount := hn.trans hr.shardCount
      behind := fun s => by rw [hwm, shardLog_append, List.length_append]; omega
      entry := fun key => by rw [htake, entryAfter_shardLog hr.valid.routed, he, hr.entries]
      rule := fun key => by rw [htake, ruleAfter_shardLog hr.valid.routed, hrule, hr.rules]
      unique := hu }

/-- A step of an edge that receives mutations of a history: a mutation is delivered, in or out of
sequence, the overlay is compacted, or the edge is loaded again from its own snapshot. -/
inductive EdgeStep (history : List Mutation) : ActiveState → ActiveState → Prop
  | deliver {a a' : ActiveState} {m : Mutation} {status : ApplyStatus} (hm : m ∈ history)
      (h : a.applyMutation m = .ok (status, a')) : EdgeStep history a a'
  | reject {a : ActiveState} {m : Mutation} {err : GlobAclError} (hm : m ∈ history)
      (h : a.applyMutation m = .error err) : EdgeStep history a a
  | compact {a a' : ActiveState} {ord : IterOrder} (h : a.compactDeltaOverlay ord = .ok a') :
      EdgeStep history a a'
  | reload {a a' : ActiveState} {ord : IterOrder} (h : fromSnapshot (a.snapshot ord) = .ok a') :
      EdgeStep history a a'

theorem EdgeStep.edgeAt (h : EdgeAt n history a) (hv : ValidHistory n history)
    (hs : EdgeStep history a a') : EdgeAt n history a' := by
  cases hs with
  | deliver hm hd =>
    rcases applyMutation_ok hd with rfl | ⟨hlt, hseq, rfl⟩
    · exact h
    · exact h.advance hv hm hlt hseq
  | reject hm hd => exact h
  | compact hc => exact h.of_same (compactDeltaOverlay_ok hc h.unique h.rule_ne_delete)
  | reload hl =>
    exact h.of_same (fromSnapshot_ok hl (lists_materializedEntries _ a)
      (lists_materializedRules _ h.unique) h.rule_ne_delete)

/-- An edge of a run: it started from a snapshot of the source after the mutations `before`, and
then took any steps on the source's history. -/
def EdgeRun (shardCount : Nat) (sourceRegion : String) (before after : List Mutation)
    (st : SourceOfTruth) (a : ActiveState) : Prop :=
  ∃ st₀ ord a₀, SourceOfTruth.CommitRun shardCount sourceRegion before st₀ ∧
    Run SourceOfTruth.CommitStep st₀ after st ∧ fromSnapshot (st₀.snapshot ord) = .ok a₀ ∧
    Relation.ReflTransGen (EdgeStep (before ++ after)) a₀ a

theorem EdgeRun.represents {shardCount : Nat} {sourceRegion : String}
    {before after : List Mutation} {st : SourceOfTruth}
    (h : EdgeRun shardCount sourceRegion before after st a) :
    SourceOfTruth.Represents (max shardCount 1) (before ++ after) st := by
  obtain ⟨st₀, _, _, h₀, h₁, -⟩ := h
  exact (SourceOfTruth.CommitRun.retains (h₀.trans h₁)).toRepresents

/-- At every moment the edge holds, in each shard, what a prefix of the shard's log says. -/
theorem EdgeRun.edgeAt {shardCount : Nat} {sourceRegion : String} {before after : List Mutation}
    {st : SourceOfTruth} (h : EdgeRun shardCount sourceRegion before after st a) :
    EdgeAt (max shardCount 1) (before ++ after) a := by
  have hv := h.represents.valid
  obtain ⟨st₀, ord, a₀, h₀, -, hsnap, hsteps⟩ := h
  induction hsteps with
  | refl => exact edgeAt_fromSnapshot (SourceOfTruth.CommitRun.retains h₀).toRepresents hsnap
  | tail _ hs ih => exact hs.edgeAt ih hv

end ActiveState

/-- Point lookups converge under any delivery order: at every moment of a run, a lookup on the
edge is the lookup on a source in which, for the key's shard, exactly the first `watermark`
mutations of the shard have been committed; and there is such a source. -/
theorem lookup_converges {shardCount : Nat} {sourceRegion : String} {before after : List Mutation}
    {st : SourceOfTruth} {a : ActiveState}
    (h : ActiveState.EdgeRun shardCount sourceRegion before after st a)
    (tenantId namespace' rawKey : String) (nowUnix : Nat) :
    let s := shardForHash (stableKeyHash tenantId namespace' rawKey) a.shardCount
    let first := (shardLog (before ++ after) s).take (a.watermark s)
    (∃ st', SourceOfTruth.replay shardCount sourceRegion first = .ok st') ∧
    ∀ committed st', (∀ m ∈ committed, m ∈ before ++ after) → shardLog committed s = first →
      SourceOfTruth.replay shardCount sourceRegion committed = .ok st' →
      a.lookup tenantId namespace' rawKey nowUnix = st'.lookup tenantId namespace' rawKey nowUnix := by
  intro s first
  have hrep := h.represents
  have hedge := h.edgeAt
  have hs : s = shardForHash (stableKeyHash tenantId namespace' rawKey) (max shardCount 1) := by
    rw [← hedge.shardCount]
  refine ⟨?_, fun committed st' hsub hfirst hst' => ?_⟩
  · have hv : ValidHistory (max shardCount 1) first := hrep.valid.take_shardLog s _
    have hid : (first.map Mutation.opId).Nodup := by
      have hnd : (before ++ after).map Mutation.opId |>.Nodup := hrep.opIds_nodup
      exact hnd.sublist (((List.take_sublist _ _).trans List.filter_sublist).map _)
    obtain ⟨st', hst', -⟩ := SourceOfTruth.exists_replay sourceRegion hv hid
    exact ⟨st', hst'⟩
  · rw [a.lookup_eq, SourceOfTruth.lookup, SourceOfTruth.replay_entries hst', hedge.entry]
    have hkey : (AclKey.fromRaw tenantId namespace' rawKey).keyHash =
        stableKeyHash tenantId namespace' rawKey := rfl
    rw [hkey, ← hs, ← entryAfter_shardLog (fun m hm => hrep.valid.routed m (hsub m hm)), hkey,
      ← hs, hfirst]

/-- A request to deny a user. -/
def userRequest (opId user : String) : DenyRequest :=
  { opId, tenantId := "acme", namespace' := "user", key := user, action := .deny, priority := 7,
    reasonCode := "fraud", expiresAt := 0, createdBy := "ops", deliveryPriority := .p0 }

/-- A user is denied, an edge takes a snapshot, and a second denial is delivered to it. -/
def deliveredDenial :
    Result (SourceOfTruth × ActiveState × (CommitOutcome × SourceOfTruth) ×
      (ApplyStatus × ActiveState)) := do
  let (_, st₀) ← (SourceOfTruth.new 2 "eu").commit 0 (userRequest "op-1" "ann")
  let a₀ ← ActiveState.fromSnapshot (st₀.snapshot .given)
  let committed ← st₀.commit 0 (userRequest "op-2" "bob")
  let delivered ← a₀.applyMutation committed.1.mutation
  pure (st₀, a₀, committed, delivered)

theorem deliveredDenial_run :
    ∃ before after st a, ActiveState.EdgeRun 2 "eu" before after st a ∧
      (a.lookup "acme" "user" "ann" 100).isDenied = true ∧
      (a.lookup "acme" "user" "bob" 100).isDenied = true := by
  have hrun : (deliveredDenial.map fun (_, _, (o, _), (_, a)) =>
      (o.duplicate, (a.lookup "acme" "user" "ann" 100).isDenied,
        (a.lookup "acme" "user" "bob" 100).isDenied)) = .ok (false, true, true) := by
    decide +kernel
  obtain ⟨⟨st₀, a₀, ⟨o, st⟩, ⟨status, a⟩⟩, hrun, hres⟩ := map_eq_ok.mp hrun
  simp only [deliveredDenial, bind_eq_ok] at hrun
  obtain ⟨⟨o₀, _⟩, h₀, _, hsnap, ⟨_, _⟩, hcommit, ⟨_, _⟩, happly, hrun⟩ := hrun
  cases hrun
  obtain ⟨hdup, hann, hbob⟩ : o.duplicate = false ∧ _ = true ∧ _ = true := by
    simpa only [Prod.mk.injEq] using hres
  have hstep := SourceOfTruth.CommitStep.commit hcommit
  refine ⟨_, _, _, _, ⟨_, .given, _, Run.single (.commit h₀), Run.single hstep, hsnap,
    .single (.deliver (m := o.mutation) ?_ happly)⟩, hann, hbob⟩
  simp [hdup]

theorem lookup_converges_deliveredDenial :
    ∃ before after st a, ActiveState.EdgeRun 2 "eu" before after st a ∧
      let s := shardForHash (stableKeyHash "acme" "user" "bob") a.shardCount
      let first := (shardLog (before ++ after) s).take (a.watermark s)
      (∃ st', SourceOfTruth.replay 2 "eu" first = .ok st') ∧
      ∀ committed st', (∀ m ∈ committed, m ∈ before ++ after) → shardLog committed s = first →
        SourceOfTruth.replay 2 "eu" committed = .ok st' →
        a.lookup "acme" "user" "bob" 100 = st'.lookup "acme" "user" "bob" 100 := by
  obtain ⟨before, after, st, a, h, -⟩ := deliveredDenial_run
  exact ⟨before, after, st, a, h, lookup_converges h "acme" "user" "bob" 100⟩

end Globacl
