import Globacl.Core.History
import Globacl.Core.Source
import Globacl.Lib.Runs
import Std.Data.String.ToNat

/-!
# What a source of truth represents

A source holds what a history says, and each call on it extends the history.

* `Holds`: the entries, the rules and the watermarks are those of a history. `Represents`: the index
  of operations has exactly its mutations too. `Retains`: the mutations above the compacted
  watermarks are still there.
* `CommitStep`: what a call on a source commits. `restoreSnapshot_run`: a restore is a sequence of
  single commits, each of a mutation that is next in its shard and has a new operation id.
* `CommitRun.retains`: after any run of calls, the source represents what was committed.
* `Holds.foldlM_applyLoadedMutation`: the loop of the loaders.
-/

namespace Globacl

open Lib

namespace SourceOfTruth

section Advance

variable (st : SourceOfTruth) (m : Mutation)

@[simp] theorem advance_shardCount : (st.advance m).shardCount = st.shardCount := rfl

@[simp] theorem advance_opIndex : (st.advance m).opIndex = st.opIndex := rfl

@[simp] theorem advance_mutations : (st.advance m).mutations = st.mutations := rfl

theorem advance_watermark (h : m.shard < st.shardCount) (s : Nat) :
    (st.advance m).watermark s = if s = m.shard then m.seq else st.watermark s := by
  unfold watermark
  simp only [advance, List.getD_eq_getElem?_getD]
  split
  · subst_vars
    rw [List.getElem?_set_self (by rw [st.watermarks_length]; exact h)]
    rfl
  · rw [List.getElem?_set_ne (Ne.symm ‹_›)]

theorem lookup_writeEntry (entries : HashMap AclKey DenyEntry) (m : Mutation) (key : AclKey) :
    (if m.rule.isSome then entries else applyEntry entries m.entry).lookup key =
      writeAt Mutation.entryWrite key (entries.lookup key) m := by
  unfold writeAt Mutation.entryWrite
  cases hr : m.rule with
  | some rule => rfl
  | none =>
    simp only [Option.isSome_none, Bool.false_eq_true, if_false]
    unfold applyEntry
    cases hact : m.entry.action <;> simp [HashMap.lookup_erase_eq, HashMap.lookup_insert_eq]

theorem lookup_writeRule (rules : HashMap RuleKey RuleEntry) (m : Mutation) (key : RuleKey) :
    (match m.rule with
      | some rule => applyRule rules rule
      | none => rules).lookup key = writeAt Mutation.ruleWrite key (rules.lookup key) m := by
  unfold writeAt Mutation.ruleWrite
  cases hr : m.rule with
  | none => rfl
  | some rule =>
    simp only [Option.map_some]
    unfold applyRule
    cases hact : rule.action <;> simp [HashMap.lookup_erase_eq, HashMap.lookup_insert_eq]

theorem advance_entries (key : AclKey) :
    (st.advance m).entries.lookup key =
      writeAt Mutation.entryWrite key (st.entries.lookup key) m := lookup_writeEntry st.entries m key

theorem advance_rules (key : RuleKey) :
    (st.advance m).rules.lookup key =
      writeAt Mutation.ruleWrite key (st.rules.lookup key) m := lookup_writeRule st.rules m key

end Advance

theorem applyCommittedMutation_ok {st st' : SourceOfTruth} {m : Mutation} :
    st.applyCommittedMutation m = .ok st' ↔
      m.shard < st.shardCount ∧ m.seq = st.watermark m.shard + 1 ∧ st' = st.advance m := by
  unfold applyCommittedMutation
  split
  · simp only [reduceCtorEq, false_iff, not_and]
    omega
  · split
    · simp only [reduceCtorEq, false_iff, not_and]
      intro _ h
      exact absurd h ‹_›
    · rename_i h1 h2
      simp only [Except.ok.injEq, not_not.mp h2, true_and]
      exact ⟨fun h => ⟨by omega, h.symm⟩, fun h => h.2.symm⟩

/-- The state after a mutation is applied, indexed and kept in the log. -/
def record (st : SourceOfTruth) (m : Mutation) : SourceOfTruth :=
  ((st.advance m).indexOp m).pushMutation m

/-- A mutation that a source may commit next: it is routed by hash, next in its shard, and its
operation id is new. -/
structure Next (st : SourceOfTruth) (m : Mutation) : Prop where
  routed : m.Routed st.shardCount
  seq : m.seq = st.watermark m.shard + 1
  fresh : m.opId ∉ st.opIndex

theorem Next.shard_lt {st : SourceOfTruth} {m : Mutation} (h : st.Next m) :
    m.shard < st.shardCount := by
  rw [h.routed.shard]
  exact shardForHash_lt st.shardCount_pos

theorem Next.applyCommittedMutation {st : SourceOfTruth} {m : Mutation} (h : st.Next m) :
    st.applyCommittedMutation m = .ok (st.advance m) :=
  applyCommittedMutation_ok.mpr ⟨h.shard_lt, h.seq, rfl⟩

theorem Next.applyReplicatedMutation {st : SourceOfTruth} {m : Mutation} (h : st.Next m) :
    st.applyReplicatedMutation m = .ok (.applied, st.record m) := by
  unfold SourceOfTruth.applyReplicatedMutation
  rw [HashMap.not_mem_iff_lookup.mp h.fresh]
  dsimp only
  rw [if_neg (by have := h.shard_lt; omega), if_neg (by have := h.seq; omega),
    h.applyCommittedMutation]
  rfl

/-- What `apply_replicated_mutation` returns: nothing changes, or the next mutation is recorded. -/
theorem applyReplicatedMutation_ok {st st' : SourceOfTruth} {m : Mutation} {status : ApplyStatus}
    (h : st.applyReplicatedMutation m = .ok (status, st')) :
    status = .duplicateOrOld ∧ st' = st ∨
      status = .applied ∧ st.opIndex.lookup m.opId = none ∧ m.shard < st.shardCount ∧
        m.seq = st.watermark m.shard + 1 ∧ st' = st.record m := by
  unfold applyReplicatedMutation at h
  split at h
  · split at h
    · cases h
      exact Or.inl ⟨rfl, rfl⟩
    · cases h
  · rename_i hnone
    split at h
    · cases h
    · split at h
      · split at h
        · cases h
          exact Or.inl ⟨rfl, rfl⟩
        · cases h
      · split at h
        · cases h
        · rename_i st₁ happly
          cases h
          obtain ⟨hshard, hseq, rfl⟩ := applyCommittedMutation_ok.mp happly
          exact Or.inr ⟨rfl, hnone, hshard, hseq, rfl⟩

/-- What `prepare_commit` returns: the indexed mutation of the operation id, or the next one. -/
theorem prepareCommit_ok {now : Nat} {st : SourceOfTruth} {request : DenyRequest}
    {outcome : CommitOutcome} (h : st.prepareCommit now request = .ok outcome) :
    if outcome.duplicate then st.opIndex.lookup request.opId = some outcome.mutation
    else st.Next outcome.mutation ∧ outcome.mutation.opId = request.opId := by
  unfold prepareCommit at h
  split at h
  · cases h
  · split at h
    · cases h
      assumption
    · cases h
      exact ⟨⟨⟨rfl, rfl, fun _ hr => by cases hr⟩, rfl, HashMap.not_mem_iff_lookup.mpr ‹_›⟩, rfl⟩

/-- What `prepare_rule_commit` returns. -/
theorem prepareRuleCommit_ok {now : Nat} {st : SourceOfTruth} {request : RuleRequest}
    {outcome : CommitOutcome} (h : st.prepareRuleCommit now request = .ok outcome) :
    if outcome.duplicate then st.opIndex.lookup request.opId = some outcome.mutation
    else st.Next outcome.mutation ∧ outcome.mutation.opId = request.opId := by
  unfold prepareRuleCommit at h
  split at h
  · cases h
  · split at h
    · cases h
      assumption
    · split at h
      · cases h
      · cases h
        exact ⟨⟨⟨rfl, rfl, fun _ hr => by cases hr; rfl⟩, rfl,
          HashMap.not_mem_iff_lookup.mpr ‹_›⟩, rfl⟩

theorem applyOutcome_ok {st st' : SourceOfTruth} {outcome outcome' : CommitOutcome}
    (hout : outcome.duplicate = false → st.Next outcome.mutation)
    (h : st.applyOutcome outcome = .ok (outcome', st')) :
    outcome' = outcome ∧ st' = if outcome.duplicate then st else st.record outcome.mutation := by
  unfold applyOutcome at h
  split at h
  · rename_i hd
    cases h
    exact ⟨rfl, (if_pos hd).symm⟩
  · rename_i hd
    rw [(hout (Bool.eq_false_iff.mpr hd)).applyReplicatedMutation] at h
    cases h
    exact ⟨rfl, (if_neg hd).symm⟩

/-! ## Operation ids of a restore -/

theorem restoreOpId_injective {opPrefix : String} {i j : Nat}
    (h : restoreOpId opPrefix i = restoreOpId opPrefix j) : i = j := by
  -- the number is read back from the padded digits
  have hread : ∀ k, Nat.ofDigitChars 10 (List.leftpad 6 '0' (toString k).toList) 0 = k := fun k => by
    rw [List.leftpad, Nat.ofDigitChars_append, Nat.ofDigitChars_replicate_zero, Nat.mul_zero,
      Nat.toString_eq_ofList_toDigits, String.toList_ofList, Nat.ofDigitChars_ten_toDigits]
  have hlist := congrArg String.toList h
  simp only [restoreOpId, String.toList_append, String.toList_ofList, List.append_cancel_left_eq]
    at hlist
  rw [← hread i, hlist, hread j]

theorem searchRestoreOpId_taken {opIndex : HashMap String Mutation} {opPrefix : String} :
    ∀ {fuel index}, searchRestoreOpId opIndex opPrefix fuel index ∈ opIndex →
      ∀ i ≤ fuel, restoreOpId opPrefix (index + i) ∈ opIndex := by
  intro fuel
  induction fuel with
  | zero =>
    intro index h i hi
    rw [Nat.le_zero.mp hi]
    exact h
  | succ fuel ih =>
    intro index h i hi
    unfold searchRestoreOpId at h
    split at h
    · rename_i htaken
      cases i with
      | zero => exact htaken
      | succ i =>
        have := ih h i (by omega)
        rwa [show index + 1 + i = index + (i + 1) by omega] at this
    · exact absurd h ‹_›

/-- A restore finds an operation id that is new: one index more than there are ids is enough. -/
theorem nextRestoreOpId_fresh (opIndex : HashMap String Mutation) (opPrefix : String)
    (startIndex : Nat) : nextRestoreOpId opIndex opPrefix startIndex ∉ opIndex := by
  intro h
  have htaken := searchRestoreOpId_taken h
  let ids := (List.range (opIndex.keys.length + 1)).map fun i =>
    restoreOpId opPrefix (startIndex + i)
  have hnd : ids.Nodup := List.nodup_range.map fun i j hij => by
    have := restoreOpId_injective hij
    omega
  have hsub : ids ⊆ opIndex.keys := fun id hid => by
    obtain ⟨i, hi, rfl⟩ := List.mem_map.mp hid
    exact htaken i (by rw [List.mem_range] at hi; omega)
  have hle := (List.subperm_of_subset hnd hsub).length_le
  simp only [ids, List.length_map, List.length_range] at hle
  omega

/-! ## Runs of commits -/

/-- One commit. -/
def Commits (st : SourceOfTruth) (ms : List Mutation) (st' : SourceOfTruth) : Prop :=
  ∃ m, ms = [m] ∧ st.Next m ∧ st' = st.record m

theorem commitDirect_ok {st st' : SourceOfTruth} {m m' : Mutation} (hn : st.Next m)
    (h : st.commitDirect m = .ok (m', st')) : Commits st [m'] st' := by
  unfold commitDirect at h
  rw [hn.applyCommittedMutation] at h
  cases h
  exact ⟨m, rfl, hn, rfl⟩

theorem commitEntryDirect_ok {now : Nat} {st st' : SourceOfTruth} {opId : String}
    {entry : DenyEntry} {m : Mutation} (hfresh : opId ∉ st.opIndex)
    (h : st.commitEntryDirect now opId entry = .ok (m, st')) : Commits st [m] st' := by
  refine commitDirect_ok ?_ h
  exact ⟨⟨rfl, rfl, fun _ hr => by cases hr⟩, rfl, hfresh⟩

theorem commitRuleDirect_ok {now : Nat} {st st' : SourceOfTruth} {opId : String}
    {rule : RuleEntry} {m : Mutation} (hfresh : opId ∉ st.opIndex)
    (h : st.commitRuleDirect now opId rule = .ok (m, st')) : Commits st [m] st' := by
  refine commitDirect_ok ?_ h
  exact ⟨⟨rfl, rfl, fun _ hr => by cases hr; rfl⟩, rfl, hfresh⟩

theorem Restore.commitEntry_ok {clock : Nat → Nat} {opPrefix : String} {r r' : Restore}
    {entry : DenyEntry} (h : r.commitEntry clock opPrefix entry = .ok r') :
    ∃ m, r'.mutations = r.mutations ++ [m] ∧ Commits r.st [m] r'.st := by
  unfold Restore.commitEntry at h
  rw [bind_eq_ok] at h
  obtain ⟨⟨m, st⟩, hc, h⟩ := h
  cases h
  exact ⟨m, rfl, commitEntryDirect_ok (nextRestoreOpId_fresh _ _ _) hc⟩

theorem Restore.commitRule_ok {clock : Nat → Nat} {opPrefix : String} {r r' : Restore}
    {rule : RuleEntry} (h : r.commitRule clock opPrefix rule = .ok r') :
    ∃ m, r'.mutations = r.mutations ++ [m] ∧ Commits r.st [m] r'.st := by
  unfold Restore.commitRule at h
  rw [bind_eq_ok] at h
  obtain ⟨⟨m, st⟩, hc, h⟩ := h
  cases h
  exact ⟨m, rfl, commitRuleDirect_ok (nextRestoreOpId_fresh _ _ _) hc⟩

/-- What each single commit of a restore preserves holds at its end. -/
theorem restoreSnapshot_invariant {clock : Nat → Nat} {ord : IterOrder} {st : SourceOfTruth}
    {snapshot : Snapshot} {opPrefix : String} {r : Restore} {p : Restore → Prop}
    (hentry : ∀ {r r' : Restore} {entry : DenyEntry}, p r →
      r.commitEntry clock opPrefix entry = .ok r' → p r')
    (hrule : ∀ {r r' : Restore} {rule : RuleEntry}, p r →
      r.commitRule clock opPrefix rule = .ok r' → p r')
    (hst : p ⟨st, []⟩) (h : st.restoreSnapshot clock ord snapshot opPrefix = .ok r) : p r := by
  unfold restoreSnapshot at h
  split at h
  · cases h
  simp only [bind_eq_ok] at h
  obtain ⟨-, -, r₁, h₁, r₂, h₂, r₃, h₃, h₄⟩ := h
  -- each loop leaves the state alone or commits once for an element
  have hp₁ : p r₁ := by
    refine foldlM_invariant (fun r r' entry _ hr hc => ?_) hst h₁
    split at hc
    · cases hc; exact hr
    · exact hentry hr hc
  have hp₂ : p r₂ := by
    refine foldlM_invariant (fun r r' entry _ hr hc => ?_) hp₁ h₂
    split at hc
    · split at hc
      · cases hc; exact hr
      · exact hentry hr hc
    · exact hentry hr hc
  have hp₃ : p r₃ := by
    refine foldlM_invariant (fun r r' rule _ hr hc => ?_) hp₂ h₃
    split at hc
    · cases hc; exact hr
    · exact hrule hr hc
  refine foldlM_invariant (p := p) (fun r r' rule _ hr hc => ?_) hp₃ h₄
  split at hc
  · split at hc
    · cases hc; exact hr
    · exact hrule hr hc
  · exact hrule hr hc

/-- A restore is a sequence of single commits. -/
theorem restoreSnapshot_run {clock : Nat → Nat} {ord : IterOrder} {st : SourceOfTruth}
    {snapshot : Snapshot} {opPrefix : String} {r : Restore}
    (h : st.restoreSnapshot clock ord snapshot opPrefix = .ok r) :
    Run Commits st r.mutations r.st := by
  refine restoreSnapshot_invariant (p := fun r => Run Commits st r.mutations r.st)
    (fun {r r' entry} hr hc => ?_) (fun {r r' rule} hr hc => ?_) (.refl st) h
  · obtain ⟨m, hm, hc⟩ := Restore.commitEntry_ok hc
    rw [hm]
    exact hr.tail hc
  · obtain ⟨m, hm, hc⟩ := Restore.commitRule_ok hc
    rw [hm]
    exact hr.tail hc

/-! ## What a source represents -/

/-- No two mutations have the same operation id. -/
def DistinctOps (ms : List Mutation) : Prop :=
  ∀ m ∈ ms, ∀ m' ∈ ms, m.opId = m'.opId → m = m'

theorem DistinctOps.mono {ms ms' : List Mutation} (h : DistinctOps ms) (hsub : ms' ⊆ ms) :
    DistinctOps ms' := fun m hm m' hm' => h m (hsub hm) m' (hsub hm')

/-- The index of operations holds exactly these mutations. -/
def Indexes (ms : List Mutation) (opIndex : HashMap String Mutation) : Prop :=
  ∀ id m, opIndex.lookup id = some m ↔ m ∈ ms ∧ m.opId = id

/-- The entries, the rules and the watermarks are what the history says. -/
structure Holds (n : Nat) (history : List Mutation) (st : SourceOfTruth) : Prop where
  shardCount : st.shardCount = n
  valid : ValidHistory n history
  watermark : ∀ s, st.watermark s = (shardLog history s).length
  entries : ∀ key, st.entries.lookup key = entryAfter history key
  rules : ∀ key, st.rules.lookup key = ruleAfter history key

/-- The source holds what the history says, and has indexed exactly its mutations. -/
structure Represents (n : Nat) (history : List Mutation) (st : SourceOfTruth) : Prop
    extends Holds n history st where
  opIndex : Indexes history st.opIndex

theorem holds_new (shardCount : Nat) (sourceRegion : String) :
    Holds (max shardCount 1) [] (new shardCount sourceRegion) where
  shardCount := rfl
  valid := ⟨by simp, by simp⟩
  watermark s := by
    simp only [watermark, new, List.getD_eq_getElem?_getD, List.getElem?_replicate]
    split <;> rfl
  entries _ := rfl
  rules _ := rfl

theorem indexes_nil : Indexes [] ∅ := fun id m => by simp

theorem represents_new (shardCount : Nat) (sourceRegion : String) :
    Represents (max shardCount 1) [] (new shardCount sourceRegion) :=
  ⟨holds_new shardCount sourceRegion, indexes_nil⟩

/-- Two states that differ in their operations, their terms and their retained mutations at most. -/
structure Alike (st st' : SourceOfTruth) : Prop where
  shardCount : st'.shardCount = st.shardCount
  watermarks : st'.watermarks = st.watermarks
  entries : st'.entries = st.entries
  rules : st'.rules = st.rules

theorem Alike.refl (st : SourceOfTruth) : Alike st st := ⟨rfl, rfl, rfl, rfl⟩

theorem Alike.trans {st st' st'' : SourceOfTruth} (h : Alike st st') (h' : Alike st' st'') :
    Alike st st'' :=
  ⟨h'.shardCount.trans h.shardCount, h'.watermarks.trans h.watermarks,
    h'.entries.trans h.entries, h'.rules.trans h.rules⟩

theorem Holds.of_alike {n : Nat} {history : List Mutation} {st st' : SourceOfTruth}
    (h : Holds n history st) (ha : Alike st st') : Holds n history st' where
  shardCount := ha.shardCount.trans h.shardCount
  valid := h.valid
  watermark s := by rw [SourceOfTruth.watermark, ha.watermarks]; exact h.watermark s
  entries key := by rw [ha.entries]; exact h.entries key
  rules key := by rw [ha.rules]; exact h.rules key

/-- The effect of the next mutation of a shard extends what the source holds. -/
theorem Holds.advance {n : Nat} {history : List Mutation} {st : SourceOfTruth} {m : Mutation}
    (h : Holds n history st) (hv : ValidHistory n (history ++ [m])) (hlt : m.shard < st.shardCount) :
    Holds n (history ++ [m]) (st.advance m) where
  shardCount := h.shardCount
  valid := hv
  watermark s := by
    rw [advance_watermark st m hlt, shardLog_concat]
    by_cases hs : m.shard = s
    · subst hs
      rw [if_pos rfl, if_pos rfl, (validHistory_concat.mp hv).2.2, List.length_append,
        List.length_singleton]
    · rw [if_neg (Ne.symm hs), if_neg hs, h.watermark, List.append_nil]
  entries key := by rw [advance_entries, h.entries, entryAfter, entryAfter, valueAt_concat]
  rules key := by rw [advance_rules, h.rules, ruleAfter, ruleAfter, valueAt_concat]

/-- Indexing a mutation with a new operation id. -/
theorem Indexes.insert {ms : List Mutation} {opIndex : HashMap String Mutation} {m : Mutation}
    (h : Indexes ms opIndex) (hfresh : m.opId ∉ opIndex) :
    Indexes (ms ++ [m]) (opIndex.insert m.opId m) := fun id m' => by
  rw [HashMap.lookup_insert_eq, List.mem_append, List.mem_singleton]
  split
  · subst_vars
    -- the id is new, so no earlier mutation has it
    have hnew : ∀ m', m' ∈ ms → m'.opId ≠ m.opId := fun m' hm' hid =>
      hfresh (HashMap.mem_iff_lookup.mpr ⟨m', (h _ _).mpr ⟨hm', hid⟩⟩)
    constructor
    · intro heq
      cases heq
      exact ⟨Or.inr rfl, rfl⟩
    · rintro ⟨hm' | rfl, hid⟩
      · exact absurd hid (hnew m' hm')
      · rfl
  · rename_i hne
    rw [h]
    refine and_congr_left fun hid => ⟨Or.inl, fun hm' => hm'.resolve_right ?_⟩
    rintro rfl
    exact hne hid.symm

theorem Indexes.distinctOps {ms : List Mutation} {opIndex : HashMap String Mutation}
    (h : Indexes ms opIndex) : DistinctOps ms := fun m hm m' hm' hid => by
  have h1 := (h m'.opId m).mpr ⟨hm, hid⟩
  rw [(h m'.opId m').mpr ⟨hm', rfl⟩] at h1
  exact (Option.some.inj h1).symm

@[simp] theorem record_shardCount (st : SourceOfTruth) (m : Mutation) :
    (st.record m).shardCount = st.shardCount := rfl

@[simp] theorem record_opIndex (st : SourceOfTruth) (m : Mutation) :
    (st.record m).opIndex = st.opIndex.insert m.opId m := rfl

@[simp] theorem record_mutations (st : SourceOfTruth) (m : Mutation) :
    (st.record m).mutations = st.mutations ++ [m] := rfl

@[simp] theorem record_compactedWatermark (st : SourceOfTruth) (m : Mutation) (s : Nat) :
    (st.record m).compactedWatermark s = st.compactedWatermark s := rfl

theorem record_watermark (st : SourceOfTruth) {m : Mutation} (h : m.shard < st.shardCount)
    (s : Nat) : (st.record m).watermark s = if s = m.shard then m.seq else st.watermark s :=
  advance_watermark st m h s

/-- A commit appends its mutation to what the source represents. -/
theorem Represents.record {n : Nat} {history : List Mutation} {st : SourceOfTruth} {m : Mutation}
    (h : Represents n history st) (hn : st.Next m) :
    Represents n (history ++ [m]) (st.record m) where
  toHolds := by
    have hv : ValidHistory n (history ++ [m]) := validHistory_concat.mpr
      ⟨h.valid, by rw [← h.shardCount]; exact hn.routed, by rw [← h.watermark]; exact hn.seq⟩
    exact (h.toHolds.advance hv hn.shard_lt).of_alike ⟨rfl, rfl, rfl, rfl⟩
  opIndex := h.opIndex.insert hn.fresh

/-- The operation ids of a history that a source represents are distinct. -/
theorem Represents.opIds_nodup {n : Nat} {history : List Mutation} {st : SourceOfTruth}
    (h : Represents n history st) : (history.map Mutation.opId).Nodup :=
  h.valid.nodup.map_on fun _ hm _ hm' hid => h.opIndex.distinctOps _ hm _ hm' hid

/-- What a source may commit next, in terms of the history that it represents. -/
theorem Represents.next {n : Nat} {history : List Mutation} {st : SourceOfTruth} {m : Mutation}
    (h : Represents n history st) (hv : ValidHistory n (history ++ [m]))
    (hid : ((history ++ [m]).map Mutation.opId).Nodup) : st.Next m := by
  obtain ⟨-, hrouted, hseq⟩ := validHistory_concat.mp hv
  rw [List.map_append, List.nodup_append] at hid
  exact
    { routed := by rw [h.shardCount]; exact hrouted
      seq := by rw [h.watermark]; exact hseq
      fresh := fun hmem => by
        obtain ⟨m', hm'⟩ := HashMap.mem_iff_lookup.mp hmem
        obtain ⟨hmem', hid'⟩ := (h.opIndex _ _).mp hm'
        exact hid.2.2 _ (List.mem_map_of_mem hmem') m.opId (by simp) hid' }

theorem Holds.watermarks_eq {n : Nat} {history : List Mutation} {st st' : SourceOfTruth}
    (h : Holds n history st) (h' : Holds n history st') : st.watermarks = st'.watermarks := by
  have hlen : st.watermarks.length = st'.watermarks.length := by
    rw [st.watermarks_length, st'.watermarks_length, h.shardCount, h'.shardCount]
  refine List.ext_getElem hlen fun s hs hs' => ?_
  have := (h.watermark s).trans (h'.watermark s).symm
  simpa [SourceOfTruth.watermark, hs, hs'] using this

/-- Two sources with the same content. -/
structure Agrees (st st' : SourceOfTruth) : Prop where
  watermarks : st.watermarks = st'.watermarks
  entries : st.entries.Same st'.entries
  rules : st.rules.Same st'.rules
  opIndex : st.opIndex.Same st'.opIndex

theorem Represents.agrees {n : Nat} {history : List Mutation} {st st' : SourceOfTruth}
    (h : Represents n history st) (h' : Represents n history st') : Agrees st st' where
  watermarks := h.watermarks_eq h'.toHolds
  entries key := (h.entries key).trans (h'.entries key).symm
  rules key := (h.rules key).trans (h'.rules key).symm
  opIndex id := Option.ext fun m => (h.opIndex id m).trans (h'.opIndex id m).symm

/-- What changes neither the shards, the entries, the rules nor the index of operations. -/
theorem Represents.of_alike {n : Nat} {history : List Mutation} {st st' : SourceOfTruth}
    (h : Represents n history st) (ha : Alike st st') (hi : st'.opIndex = st.opIndex) :
    Represents n history st' where
  toHolds := h.toHolds.of_alike ha
  opIndex := by rw [hi]; exact h.opIndex

/-- The source represents the history and has retained each mutation above its compacted
watermarks. -/
structure Retains (n : Nat) (history : List Mutation) (st : SourceOfTruth) : Prop
    extends Represents n history st where
  compacted : ∀ s, st.compactedWatermark s ≤ st.watermark s
  retained : ∀ s, shardLog st.mutations s = (shardLog history s).drop (st.compactedWatermark s)

theorem retains_new (shardCount : Nat) (sourceRegion : String) :
    Retains (max shardCount 1) [] (new shardCount sourceRegion) where
  toRepresents := represents_new shardCount sourceRegion
  compacted s := Nat.le_refl _
  retained s := by rw [shardLog_nil, List.drop_nil]; rfl

theorem Retains.commits {n : Nat} {history ms : List Mutation} {st st' : SourceOfTruth}
    (h : Retains n history st) (hc : Commits st ms st') : Retains n (history ++ ms) st' := by
  obtain ⟨m, rfl, hn, rfl⟩ := hc
  exact
    { toRepresents := h.record hn
      compacted := fun s => by
        have := h.compacted s
        rw [record_watermark st hn.shard_lt]
        split
        · subst_vars
          exact this.trans (by rw [hn.seq]; exact Nat.le_succ _)
        · exact this
      retained := fun s => by
        have := h.compacted s
        rw [h.watermark] at this
        rw [record_mutations, shardLog_append, h.retained, shardLog_append,
          record_compactedWatermark, List.drop_append_of_le_length this] }

theorem compactMutationHistory_ok {st st' : SourceOfTruth} {watermarks : List Nat}
    (h : st.compactMutationHistory watermarks = .ok st') :
    (∀ s, watermarks.getD s 0 ≤ st.watermark s) ∧ Alike st st' ∧ st'.opIndex = st.opIndex ∧
      (∀ s, st'.compactedWatermark s = max (st.compactedWatermark s) (watermarks.getD s 0)) ∧
      st'.mutations = st.mutations.filter fun m => decide (m.seq > watermarks.getD m.shard 0) := by
  unfold compactMutationHistory at h
  split at h
  · cases h
  split at h
  · cases h
  rename_i hlen hfind
  cases h
  refine ⟨fun s => ?_, ⟨rfl, rfl, rfl, rfl⟩, rfl, fun s => ?_, rfl⟩
  · by_cases hs : s < st.shardCount
    · have := List.find?_eq_none.mp hfind s (List.mem_range.mpr hs)
      rw [decide_eq_true_eq] at this
      omega
    · rw [List.getD_eq_getElem?_getD, List.getElem?_eq_none (by omega)]
      exact Nat.zero_le _
  · simp only [compactedWatermark, List.getD_eq_getElem?_getD, List.getElem?_map]
    by_cases hs : s < st.shardCount
    · rw [List.getElem?_range hs]
      rfl
    · rw [List.getElem?_eq_none (by rw [List.length_range]; omega),
        List.getElem?_eq_none (by rw [st.compacted_length]; omega),
        List.getElem?_eq_none (by omega)]
      rfl

theorem exists_compactMutationHistory {st : SourceOfTruth} {watermarks : List Nat}
    (hlen : watermarks.length = st.shardCount)
    (hle : ∀ s, watermarks.getD s 0 ≤ st.watermark s) :
    ∃ st', st.compactMutationHistory watermarks = .ok st' := by
  unfold SourceOfTruth.compactMutationHistory
  rw [if_neg (not_not.mpr hlen)]
  have hfind : (List.range st.shardCount).find? (fun shardId =>
      decide (watermarks.getD shardId 0 > st.watermark shardId)) = none :=
    List.find?_eq_none.mpr fun s _ => by
      have := hle s
      rw [decide_eq_true_eq]
      omega
  rw [hfind]
  exact ⟨_, rfl⟩

theorem Retains.compactMutationHistory {n : Nat} {history : List Mutation}
    {st st' : SourceOfTruth} {watermarks : List Nat} (h : Retains n history st)
    (hc : st.compactMutationHistory watermarks = .ok st') : Retains n history st' := by
  obtain ⟨hle, ha, hi, hcomp, hms⟩ := compactMutationHistory_ok hc
  exact
    { toRepresents := h.of_alike ha hi
      compacted := fun s => by
        rw [hcomp, SourceOfTruth.watermark, ha.watermarks]
        exact Nat.max_le.mpr ⟨h.compacted s, hle s⟩
      retained := fun s => by
        rw [hcomp, hms, ← h.valid.filter_drop, ← h.retained]
        exact shardLog_filter_seq st.mutations (watermarks.getD · 0) s }

/-- A call on a source and the mutations that it commits. -/
inductive CommitStep : SourceOfTruth → List Mutation → SourceOfTruth → Prop
  | commit {st st' : SourceOfTruth} {now : Nat} {request : DenyRequest} {outcome : CommitOutcome}
      (h : st.commit now request = .ok (outcome, st')) :
      CommitStep st (if outcome.duplicate then [] else [outcome.mutation]) st'
  | commitRule {st st' : SourceOfTruth} {now : Nat} {request : RuleRequest}
      {outcome : CommitOutcome} (h : st.commitRule now request = .ok (outcome, st')) :
      CommitStep st (if outcome.duplicate then [] else [outcome.mutation]) st'
  | restoreSnapshot {st : SourceOfTruth} {clock : Nat → Nat} {ord : IterOrder}
      {snapshot : Snapshot} {opPrefix : String} {r : Restore}
      (h : st.restoreSnapshot clock ord snapshot opPrefix = .ok r) :
      CommitStep st r.mutations r.st
  | setEpoch (st : SourceOfTruth) (epoch : Nat) : CommitStep st [] (st.setEpoch epoch)
  | compactMutationHistory {st st' : SourceOfTruth} {watermarks : List Nat}
      (h : st.compactMutationHistory watermarks = .ok st') : CommitStep st [] st'

theorem Retains.setEpoch {n : Nat} {history : List Mutation} {st : SourceOfTruth}
    (h : Retains n history st) (epoch : Nat) : Retains n history (st.setEpoch epoch) where
  toRepresents := h.of_alike ⟨rfl, rfl, rfl, rfl⟩ rfl
  compacted := h.compacted
  retained := h.retained

/-- A call that commits what was prepared records a new mutation, or changes nothing. -/
theorem applyOutcome_run {st st' : SourceOfTruth} {outcome outcome' : CommitOutcome}
    (hout : outcome.duplicate = false → st.Next outcome.mutation)
    (h : st.applyOutcome outcome = .ok (outcome', st')) :
    Run Commits st (if outcome'.duplicate then [] else [outcome'.mutation]) st' := by
  obtain ⟨rfl, rfl⟩ := applyOutcome_ok hout h
  cases hd : outcome'.duplicate with
  | true => exact .refl st
  | false => exact .single ⟨_, rfl, hout hd, rfl⟩

theorem commit_run {now : Nat} {st st' : SourceOfTruth} {request : DenyRequest}
    {outcome : CommitOutcome} (h : st.commit now request = .ok (outcome, st')) :
    Run Commits st (if outcome.duplicate then [] else [outcome.mutation]) st' := by
  rw [SourceOfTruth.commit, bind_eq_ok] at h
  obtain ⟨prepared, hp, h⟩ := h
  refine applyOutcome_run (fun hd => ?_) h
  have := prepareCommit_ok hp
  rw [hd] at this
  exact this.1

theorem commitRule_run {now : Nat} {st st' : SourceOfTruth} {request : RuleRequest}
    {outcome : CommitOutcome} (h : st.commitRule now request = .ok (outcome, st')) :
    Run Commits st (if outcome.duplicate then [] else [outcome.mutation]) st' := by
  rw [SourceOfTruth.commitRule, bind_eq_ok] at h
  obtain ⟨prepared, hp, h⟩ := h
  refine applyOutcome_run (fun hd => ?_) h
  have := prepareRuleCommit_ok hp
  rw [hd] at this
  exact this.1

theorem Retains.run {n : Nat} {history ms : List Mutation} {st st' : SourceOfTruth}
    (h : Retains n history st) (hr : Run Commits st ms st') : Retains n (history ++ ms) st' :=
  hr.invariant (fun _ _ _ _ hk hs => hk.commits hs) h

theorem Retains.commitStep {n : Nat} {history ms : List Mutation} {st st' : SourceOfTruth}
    (h : Retains n history st) (hc : CommitStep st ms st') :
    Retains n (history ++ ms) st' := by
  cases hc with
  | commit hc => exact h.run (commit_run hc)
  | commitRule hc => exact h.run (commitRule_run hc)
  | restoreSnapshot hc => exact h.run (restoreSnapshot_run hc)
  | setEpoch epoch => simpa using h.setEpoch epoch
  | compactMutationHistory hc => simpa using h.compactMutationHistory hc

/-- A run of calls on a source that started with `new`, and everything that it committed. -/
def CommitRun (shardCount : Nat) (sourceRegion : String) (history : List Mutation)
    (st : SourceOfTruth) : Prop :=
  Run CommitStep (new shardCount sourceRegion) history st

/-- After any run of calls, the source represents what was committed. -/
theorem CommitRun.retains {shardCount : Nat} {sourceRegion : String} {history : List Mutation}
    {st : SourceOfTruth} (h : CommitRun shardCount sourceRegion history st) :
    Retains (max shardCount 1) history st := by
  have := Run.invariant (I := Retains (max shardCount 1))
    (fun _ _ _ _ hr hs => hr.commitStep hs) h (retains_new shardCount sourceRegion)
  rwa [List.nil_append] at this

/-! ## Replaying a history -/

/-- The source in which the mutations were committed in this order. -/
def replay (shardCount : Nat) (sourceRegion : String) (history : List Mutation) :
    Result SourceOfTruth :=
  history.foldlM applyLoadedMutation (new shardCount sourceRegion)

theorem Next.applyLoadedMutation {st : SourceOfTruth} {m : Mutation} (h : st.Next m) :
    st.applyLoadedMutation m = .ok (st.record m) := by
  have hnone : (st.advance m).opIndex.lookup m.opId = none := HashMap.not_mem_iff_lookup.mp h.fresh
  simp only [SourceOfTruth.applyLoadedMutation, h.applyCommittedMutation, bind, Except.bind,
    insertOpIndex, hnone]
  rfl

theorem applyLoadedMutation_entries {st st' : SourceOfTruth} {m : Mutation}
    (h : st.applyLoadedMutation m = .ok st') (key : AclKey) :
    st'.entries.lookup key = writeAt Mutation.entryWrite key (st.entries.lookup key) m := by
  simp only [SourceOfTruth.applyLoadedMutation, bind_eq_ok] at h
  obtain ⟨st₁, h₁, st₂, h₂, h₃⟩ := h
  obtain ⟨-, -, rfl⟩ := applyCommittedMutation_ok.mp h₁
  cases h₃
  rw [← advance_entries]
  unfold insertOpIndex at h₂
  split at h₂
  · split at h₂
    · cases h₂; rfl
    · cases h₂
  · cases h₂; rfl

/-- The entries of a replayed source are what its history says. -/
theorem replay_entries {shardCount : Nat} {sourceRegion : String} {history : List Mutation}
    {st : SourceOfTruth} (h : replay shardCount sourceRegion history = .ok st) (key : AclKey) :
    st.entries.lookup key = entryAfter history key := by
  have hloop : ∀ (l : List Mutation) {st₀ : SourceOfTruth},
      l.foldlM applyLoadedMutation st₀ = .ok st →
      st.entries.lookup key = l.foldl (writeAt Mutation.entryWrite key) (st₀.entries.lookup key) := by
    intro l
    induction l with
    | nil => intro st₀ h; cases h; rfl
    | cons m l ih =>
      intro st₀ h
      rw [List.foldlM_cons, bind_eq_ok] at h
      obtain ⟨st₁, h₁, h⟩ := h
      rw [ih h, applyLoadedMutation_entries h₁, List.foldl_cons]
  exact hloop history h

/-- The state with another index of operations. -/
def reindex (st : SourceOfTruth) (opIndex : HashMap String Mutation)
    (h : HashMap.Keyed Mutation.opId opIndex) : SourceOfTruth :=
  { st with opIndex, opIndex_keyed := h }

theorem alike_reindex (st : SourceOfTruth) {opIndex : HashMap String Mutation}
    (h : HashMap.Keyed Mutation.opId opIndex) : Alike st (st.reindex opIndex h) :=
  ⟨rfl, rfl, rfl, rfl⟩

/-- A mutation is indexed if no other mutation has its operation id. -/
theorem insertOpIndex_ok {ms : List Mutation} {st : SourceOfTruth} {m : Mutation}
    (h : Indexes ms st.opIndex) (hid : DistinctOps (ms ++ [m])) :
    ∃ opIndex hk, st.insertOpIndex m = .ok (st.reindex opIndex hk) ∧
      Indexes (ms ++ [m]) opIndex := by
  unfold insertOpIndex
  cases hl : st.opIndex.lookup m.opId with
  | none =>
    exact ⟨_, st.opIndex_keyed.insert m, rfl, h.insert (HashMap.not_mem_iff_lookup.mpr hl)⟩
  | some existing =>
    obtain ⟨hmem, hop⟩ := (h _ _).mp hl
    have hself : existing = m :=
      hid _ (List.mem_append_left _ hmem) _ (List.mem_append_right _ (List.mem_singleton_self m)) hop
    subst hself
    refine ⟨_, st.opIndex_keyed, if_pos rfl, fun id m' => ?_⟩
    rw [h, List.mem_append, List.mem_singleton]
    refine and_congr_left fun _ => ⟨Or.inl, ?_⟩
    rintro (hm' | rfl)
    · exact hm'
    · exact hmem

theorem foldlM_insertOpIndex {l : List Mutation} :
    ∀ {ms : List Mutation} {st : SourceOfTruth}, Indexes ms st.opIndex →
      DistinctOps (ms ++ l) →
      ∃ opIndex hk, l.foldlM insertOpIndex st = .ok (st.reindex opIndex hk) ∧
        Indexes (ms ++ l) opIndex := by
  induction l with
  | nil => exact fun {ms st} h _ => ⟨_, st.opIndex_keyed, rfl, by rwa [List.append_nil]⟩
  | cons m l ih =>
    intro ms st h hid
    rw [List.append_cons] at hid
    obtain ⟨opIndex, hk, hm, h⟩ := insertOpIndex_ok h (hid.mono (List.subset_append_left _ l))
    obtain ⟨opIndex', hk', hl, h⟩ := @ih _ (st.reindex opIndex hk) h hid
    exact ⟨opIndex', hk', by rw [List.foldlM_cons, hm]; exact hl, by simpa using h⟩

/-- A loop of loads succeeds if the mutations extend the history that the state holds, and no two
have the same operation id. -/
theorem Holds.foldlM_applyLoadedMutation {n : Nat} {l : List Mutation} :
    ∀ {history ms : List Mutation} {st : SourceOfTruth}, Holds n history st →
      ValidHistory n (history ++ l) → Indexes ms st.opIndex →
      DistinctOps (ms ++ l) →
      ∃ st', l.foldlM applyLoadedMutation st = .ok st' ∧ Holds n (history ++ l) st' ∧
        Indexes (ms ++ l) st'.opIndex ∧ st'.compactedWatermarks = st.compactedWatermarks ∧
        st'.mutations = st.mutations ++ l := by
  induction l with
  | nil => exact fun {history ms st} h _ hi _ => ⟨st, rfl, by simpa using h, by simpa using hi, rfl,
      by simp⟩
  | cons m l ih =>
    intro history ms st h hv hi hid
    rw [List.append_cons] at hv hid
    have hv₁ : ValidHistory n (history ++ [m]) := hv.of_append
    obtain ⟨-, hrouted, hseq⟩ := validHistory_concat.mp hv₁
    have hlt : m.shard < st.shardCount := by
      rw [hrouted.shard, h.shardCount]
      exact shardForHash_lt (h.shardCount ▸ st.shardCount_pos)
    rw [← h.watermark] at hseq
    obtain ⟨opIndex, hk, hm, hi⟩ := @insertOpIndex_ok _ (st.advance m) m hi
      (hid.mono (List.subset_append_left _ l))
    have hload : st.applyLoadedMutation m =
        .ok (((st.advance m).reindex opIndex hk).pushMutation m) := by
      simp only [SourceOfTruth.applyLoadedMutation, applyCommittedMutation_ok.mpr ⟨hlt, hseq, rfl⟩,
        bind, Except.bind, hm]
      rfl
    obtain ⟨st', hst', h, hi, hc, hms⟩ :=
      @ih _ _ (((st.advance m).reindex opIndex hk).pushMutation m)
      ((h.advance hv₁ hlt).of_alike ⟨rfl, rfl, rfl, rfl⟩) hv hi hid
    refine ⟨st', by rw [List.foldlM_cons, hload]; exact hst', by simpa using h, by simpa using hi,
      hc, ?_⟩
    rw [hms]
    exact List.append_assoc ..

/-- A history with distinct operation ids can be replayed, and the source represents it. -/
theorem exists_replay {shardCount : Nat} (sourceRegion : String) {history : List Mutation}
    (hv : ValidHistory (max shardCount 1) history) (hid : (history.map Mutation.opId).Nodup) :
    ∃ st, replay shardCount sourceRegion history = .ok st ∧
      Represents (max shardCount 1) history st := by
  obtain ⟨st, hst, h, hi, -, -⟩ := (holds_new shardCount sourceRegion).foldlM_applyLoadedMutation
    hv indexes_nil fun m hm m' hm' => List.inj_on_of_nodup_map hid hm hm'
  exact ⟨st, hst, h, hi⟩

end SourceOfTruth

end Globacl
