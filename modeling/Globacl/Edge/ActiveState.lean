import Globacl.Core.Represents
import Globacl.Edge.Base
import Globacl.Edge.CompiledRules

/-!
# The state of an edge (`globacl-core/src/lib/active_state.rs`)

An immutable base of entries and rules with an overlay of later additions and removals. A
mutation goes into the overlay, and a compaction folds the overlay into a new base.

What the state holds under a key is the overlay on the base (`entryAt`, `ruleAt`). Every operation
is described by what it does to these two functions.

* `lookup_eq`: a point lookup reads `entryAt`.
* `entryAt_advance`, `ruleAt_advance`: an applied mutation is one write.
* `lists_materializedEntries`, `lists_materializedRules`: a compaction or a snapshot takes every
  held value and no other.
-/

namespace Globacl

open Lib

structure ActiveState where
  shardCount : Nat
  base : ImmutableBase
  deltaAdds : HashMap AclKey DenyEntry
  deltaRemoves : HashMap AclKey Nat
  ruleBase : CompiledRules
  deltaRuleAdds : HashMap RuleKey RuleEntry
  deltaRuleRemoves : HashMap RuleKey Nat
  watermarks : List Nat
  watermarks_length : watermarks.length = shardCount
  adds_keyed : HashMap.Keyed DenyEntry.aclKey deltaAdds
  ruleAdds_keyed : HashMap.Keyed RuleEntry.ruleKey deltaRuleAdds

namespace ActiveState

/-- `self.watermarks[shard_id]`. -/
def watermark (a : ActiveState) (shardId : Nat) : Nat := a.watermarks.getD shardId 0

theorem length_noWatermarks (shardCount : Nat) :
    (List.replicate (max shardCount 1) 0).length = max shardCount 1 := List.length_replicate

/-- `ActiveState::new`. -/
def new (shardCount : Nat) : Result ActiveState := do
  let base ← ImmutableBase.fromEntries []
  let ruleBase ← CompiledRules.fromRules []
  pure
    { shardCount := max shardCount 1
      base
      deltaAdds := ∅
      deltaRemoves := ∅
      ruleBase
      deltaRuleAdds := ∅
      deltaRuleRemoves := ∅
      watermarks := List.replicate (max shardCount 1) 0
      watermarks_length := length_noWatermarks shardCount
      adds_keyed := .empty _
      ruleAdds_keyed := .empty _ }

/-- `ActiveState::from_snapshot`. -/
def fromSnapshot (snapshot : Snapshot) : Result ActiveState :=
  match hv : snapshot.validate with
  | .error err => .error err
  | .ok () =>
    match ImmutableBase.fromEntries snapshot.entries, CompiledRules.fromRules snapshot.rules with
    | .error err, _ => .error err
    | .ok _, .error err => .error err
    | .ok base, .ok ruleBase =>
      .ok
        { shardCount := snapshot.shardCount
          base
          deltaAdds := ∅
          deltaRemoves := ∅
          ruleBase
          deltaRuleAdds := ∅
          deltaRuleRemoves := ∅
          watermarks := snapshot.watermarks
          watermarks_length := snapshot.validate_ok hv
          adds_keyed := .empty _
          ruleAdds_keyed := .empty _ }

/-- The effect of a mutation of a rule on the overlay. -/
def applyRule (a : ActiveState) (rule : RuleEntry) (seq : Nat) : ActiveState :=
  match rule.action with
  | .delete =>
    { a with
      deltaRuleAdds := a.deltaRuleAdds.erase rule.ruleKey
      deltaRuleRemoves := a.deltaRuleRemoves.insert rule.ruleKey seq
      ruleAdds_keyed := a.ruleAdds_keyed.erase _ }
  | .deny | .allowOverride =>
    { a with
      deltaRuleRemoves := a.deltaRuleRemoves.erase rule.ruleKey
      deltaRuleAdds := a.deltaRuleAdds.insert rule.ruleKey rule
      ruleAdds_keyed := a.ruleAdds_keyed.insert _ }

/-- The effect of a mutation of an entry on the overlay. -/
def applyEntry (a : ActiveState) (entry : DenyEntry) (seq : Nat) : ActiveState :=
  match entry.action with
  | .delete =>
    { a with
      deltaAdds := a.deltaAdds.erase entry.aclKey
      deltaRemoves := a.deltaRemoves.insert entry.aclKey seq
      adds_keyed := a.adds_keyed.erase _ }
  | .deny | .allowOverride =>
    { a with
      deltaRemoves := a.deltaRemoves.erase entry.aclKey
      deltaAdds := a.deltaAdds.insert entry.aclKey entry
      adds_keyed := a.adds_keyed.insert _ }

/-- `self.watermarks[shard_id] = seq`. -/
def setWatermark (a : ActiveState) (shardId seq : Nat) : ActiveState :=
  { a with
    watermarks := a.watermarks.set shardId seq
    watermarks_length := by rw [List.length_set]; exact a.watermarks_length }

/-- The state after a mutation that passed the checks of `apply_mutation`. -/
def advance (a : ActiveState) (m : Mutation) : ActiveState :=
  (match m.rule with
    | some rule => a.applyRule rule m.seq
    | none => a.applyEntry m.entry m.seq).setWatermark m.shard m.seq

/-- `apply_mutation`. -/
def applyMutation (a : ActiveState) (m : Mutation) : Result (ApplyStatus × ActiveState) :=
  if m.shard ≥ a.shardCount then
    .error (.invalidData s!"shard {m.shard} is outside shard_count {a.shardCount}")
  else if m.seq ≤ a.watermark m.shard then .ok (.duplicateOrOld, a)
  else if m.seq ≠ a.watermark m.shard + 1 then
    .error (.gap m.shard (a.watermark m.shard + 1) m.seq)
  else .ok (.applied, a.advance m)

/-- `lookup`. -/
def lookup (a : ActiveState) (tenantId namespace' rawKey : String) (nowUnix : Nat) : Decision :=
  let keyHash := stableKeyHash tenantId namespace' rawKey
  let base := a.base.decisionForParts tenantId namespace' keyHash nowUnix
  if !a.deltaAdds.entries.isEmpty || !a.deltaRemoves.entries.isEmpty then
    let key : AclKey := ⟨tenantId, namespace', keyHash⟩
    match a.deltaAdds.lookup key with
    | some entry => decisionForEntry (some entry) nowUnix
    | none => if key ∈ a.deltaRemoves then .allow else base
  else base

/-- `consider_delta_rules`. -/
def considerDeltaRules (ord : IterOrder) (a : ActiveState) (tenantId namespace' rawValue : String)
    (nowUnix : Nat) (best : RuleMatch) : RuleMatch :=
  (a.deltaRuleAdds.values ord).foldl
    (fun best rule =>
      if rule.tenantId = tenantId ∧ ruleMatchesNamespace rule namespace' rawValue then
        RuleMatch.consider nowUnix best rule
      else best)
    best

/-- The best rule of the two loops of `check`. Only the removals of the overlay are left out of
the base, not its additions. -/
def bestRule (ord : IterOrder) (a : ActiveState) (tenantId namespace' rawValue : String)
    (nowUnix : Nat) : RuleMatch :=
  a.ruleBase.considerMatches tenantId namespace' rawValue nowUnix a.deltaRuleRemoves
    (a.considerDeltaRules ord tenantId namespace' rawValue nowUnix none)

/-- `check`. -/
def check (ord : IterOrder) (a : ActiveState) (tenantId namespace' rawValue : String)
    (nowUnix : Nat) : Decision :=
  let point := a.lookup tenantId namespace' rawValue nowUnix
  if point.isDenied then point
  else (a.bestRule ord tenantId namespace' rawValue nowUnix).intoDecision

/-- `materialized_entries`. -/
def materializedEntries (ord : IterOrder) (a : ActiveState) : List DenyEntry :=
  (a.base.materializedEntries.filter fun entry =>
    decide (entry.aclKey ∉ a.deltaRemoves) && decide (entry.aclKey ∉ a.deltaAdds)) ++
    a.deltaAdds.values ord

/-- `materialized_rules`. -/
def materializedRules (ord : IterOrder) (a : ActiveState) : List RuleEntry :=
  ((a.ruleBase.allRules ord).filter fun rule =>
    decide (rule.ruleKey ∉ a.deltaRuleRemoves) && decide (rule.ruleKey ∉ a.deltaRuleAdds)) ++
    a.deltaRuleAdds.values ord

/-- `snapshot`. -/
def snapshot (ord : IterOrder) (a : ActiveState) : Snapshot :=
  ⟨a.shardCount, a.watermarks, a.materializedEntries ord, a.materializedRules ord⟩

/-- `entries_len`. -/
def entriesLen (a : ActiveState) : Nat :=
  let inBase := fun key : AclKey =>
    (a.base.lookupExactParts key.tenantId key.namespace' key.keyHash).isSome
  let removed := a.deltaRemoves.keys.filter fun key => inBase key && decide (key ∉ a.deltaAdds)
  let len := removed.foldl (fun len _ => len - 1) a.base.entries.length
  len + (a.deltaAdds.keys.filter fun key => !inBase key).length

/-- `delta_entries_len`. -/
def deltaEntriesLen (a : ActiveState) : Nat :=
  a.deltaAdds.entries.length + a.deltaRemoves.entries.length + a.deltaRuleAdds.entries.length +
    a.deltaRuleRemoves.entries.length

/-- `compact_delta_overlay`. -/
def compactDeltaOverlay (ord : IterOrder) (a : ActiveState) : Result ActiveState :=
  if a.deltaAdds.entries.isEmpty && a.deltaRemoves.entries.isEmpty &&
      a.deltaRuleAdds.entries.isEmpty && a.deltaRuleRemoves.entries.isEmpty then .ok a
  else do
    let base ← ImmutableBase.fromEntries (a.materializedEntries ord)
    let ruleBase ← CompiledRules.fromRules (a.materializedRules ord)
    pure
      { a with
        base
        ruleBase
        deltaAdds := ∅
        deltaRemoves := ∅
        deltaRuleAdds := ∅
        deltaRuleRemoves := ∅
        adds_keyed := .empty _
        ruleAdds_keyed := .empty _ }

/-- What a load builds. -/
theorem fromSnapshot_builds {snapshot : Snapshot} {a : ActiveState}
    (h : fromSnapshot snapshot = .ok a) :
    snapshot.validate = .ok () ∧ ImmutableBase.fromEntries snapshot.entries = .ok a.base ∧
      CompiledRules.fromRules snapshot.rules = .ok a.ruleBase ∧
      a.shardCount = snapshot.shardCount ∧ a.watermarks = snapshot.watermarks ∧
      a.deltaAdds = ∅ ∧ a.deltaRemoves = ∅ ∧ a.deltaRuleAdds = ∅ ∧ a.deltaRuleRemoves = ∅ := by
  unfold fromSnapshot at h
  split at h
  · cases h
  · rename_i hv
    split at h
    · cases h
    · cases h
    · rename_i base ruleBase hbase hrules
      cases h
      exact ⟨hv, hbase, hrules, rfl, rfl, rfl, rfl, rfl, rfl⟩

/-- The state with another base and without an overlay. -/
def rebased (a : ActiveState) (base : ImmutableBase) (ruleBase : CompiledRules) : ActiveState :=
  { a with
    base
    ruleBase
    deltaAdds := ∅
    deltaRemoves := ∅
    deltaRuleAdds := ∅
    deltaRuleRemoves := ∅
    adds_keyed := .empty _
    ruleAdds_keyed := .empty _ }

/-- A compaction has nothing to do, or it rebuilds the base from what the state holds. -/
theorem compactDeltaOverlay_cases {ord : IterOrder} {a a' : ActiveState}
    (h : a.compactDeltaOverlay ord = .ok a') :
    (a' = a ∧ a.deltaAdds = ∅ ∧ a.deltaRemoves = ∅ ∧ a.deltaRuleAdds = ∅ ∧
        a.deltaRuleRemoves = ∅) ∨
      ∃ base ruleBase, ImmutableBase.fromEntries (a.materializedEntries ord) = .ok base ∧
        CompiledRules.fromRules (a.materializedRules ord) = .ok ruleBase ∧
        a' = a.rebased base ruleBase := by
  unfold compactDeltaOverlay at h
  split at h
  · rename_i hempty
    cases h
    simp only [Bool.and_eq_true, List.isEmpty_iff] at hempty
    obtain ⟨⟨⟨h1, h2⟩, h3⟩, h4⟩ := hempty
    exact Or.inl ⟨rfl, AList.ext h1, AList.ext h2, AList.ext h3, AList.ext h4⟩
  · obtain ⟨base, hbase, h⟩ := bind_eq_ok.mp h
    obtain ⟨ruleBase, hrules, h⟩ := bind_eq_ok.mp h
    cases h
    exact Or.inr ⟨base, ruleBase, hbase, hrules, rfl⟩

theorem compactDeltaOverlay_watermarks {ord : IterOrder} {a a' : ActiveState}
    (h : a.compactDeltaOverlay ord = .ok a') : a'.watermarks = a.watermarks := by
  rcases compactDeltaOverlay_cases h with ⟨rfl, -⟩ | ⟨base, ruleBase, -, -, rfl⟩
  · rfl
  · rfl

/-! ## What the state holds -/

/-- The entry that the state holds under a key. -/
def entryAt (a : ActiveState) (key : AclKey) : Option DenyEntry :=
  overlay a.base.find a.deltaAdds a.deltaRemoves key

/-- The rule that the state holds under a key. -/
def ruleAt (a : ActiveState) (key : RuleKey) : Option RuleEntry :=
  overlay a.ruleBase.find a.deltaRuleAdds a.deltaRuleRemoves key

theorem overlay_decision (a : ActiveState) (key : AclKey) (nowUnix : Nat) :
    (match a.deltaAdds.lookup key with
      | some entry => decisionForEntry (some entry) nowUnix
      | none =>
        if key ∈ a.deltaRemoves then .allow else decisionForEntry (a.base.find key) nowUnix) =
      decisionForEntry (a.entryAt key) nowUnix := by
  unfold entryAt overlay
  cases a.deltaAdds.lookup key with
  | some entry => rfl
  | none =>
    dsimp only
    rw [apply_ite (decisionForEntry · nowUnix)]
    rfl

/-- A point lookup reads what the state holds. -/
theorem lookup_eq (a : ActiveState) (tenantId namespace' rawKey : String) (nowUnix : Nat) :
    a.lookup tenantId namespace' rawKey nowUnix =
      decisionForEntry (a.entryAt (.fromRaw tenantId namespace' rawKey)) nowUnix := by
  have hbase : a.base.decisionForParts tenantId namespace'
      (stableKeyHash tenantId namespace' rawKey) nowUnix =
      decisionForEntry (a.base.find (.fromRaw tenantId namespace' rawKey)) nowUnix :=
    a.base.decisionForParts_eq (.fromRaw tenantId namespace' rawKey) nowUnix
  unfold lookup
  simp only [hbase]
  split
  · exact a.overlay_decision (.fromRaw tenantId namespace' rawKey) nowUnix
  · rename_i hempty
    simp only [Bool.or_eq_true, Bool.not_eq_eq_eq_not, Bool.not_true, not_or,
      Bool.not_eq_false, List.isEmpty_iff] at hempty
    have h1 : a.deltaAdds = ∅ := AList.ext hempty.1
    have h2 : a.deltaRemoves = ∅ := AList.ext hempty.2
    simp only [entryAt, h1, h2, overlay_empty]

section Frames

variable (a : ActiveState) (rule : RuleEntry) (entry : DenyEntry) (seq shardId : Nat)

@[simp] theorem applyRule_shardCount : (a.applyRule rule seq).shardCount = a.shardCount := by
  unfold applyRule; split <;> rfl

@[simp] theorem applyRule_watermarks : (a.applyRule rule seq).watermarks = a.watermarks := by
  unfold applyRule; split <;> rfl

@[simp] theorem applyRule_ruleBase : (a.applyRule rule seq).ruleBase = a.ruleBase := by
  unfold applyRule; split <;> rfl

@[simp] theorem applyRule_entryAt (key : AclKey) :
    (a.applyRule rule seq).entryAt key = a.entryAt key := by
  unfold applyRule; split <;> rfl

theorem applyRule_ruleAt (key : RuleKey) :
    (a.applyRule rule seq).ruleAt key =
      if key = rule.ruleKey then (if rule.action = .delete then none else some rule)
      else a.ruleAt key := by
  unfold applyRule
  split <;> rename_i hact <;> rw [hact]
  · exact overlay_erase _ _
  · exact overlay_store _ _
  · exact overlay_store _ _

@[simp] theorem applyEntry_shardCount : (a.applyEntry entry seq).shardCount = a.shardCount := by
  unfold applyEntry; split <;> rfl

@[simp] theorem applyEntry_watermarks : (a.applyEntry entry seq).watermarks = a.watermarks := by
  unfold applyEntry; split <;> rfl

@[simp] theorem applyEntry_ruleBase : (a.applyEntry entry seq).ruleBase = a.ruleBase := by
  unfold applyEntry; split <;> rfl

@[simp] theorem applyEntry_ruleAt (key : RuleKey) :
    (a.applyEntry entry seq).ruleAt key = a.ruleAt key := by
  unfold applyEntry; split <;> rfl

theorem applyEntry_entryAt (key : AclKey) :
    (a.applyEntry entry seq).entryAt key =
      if key = entry.aclKey then (if entry.action = .delete then none else some entry)
      else a.entryAt key := by
  unfold applyEntry
  split <;> rename_i hact <;> rw [hact]
  · exact overlay_erase _ _
  · exact overlay_store _ _
  · exact overlay_store _ _

@[simp] theorem setWatermark_entryAt (key : AclKey) :
    (a.setWatermark shardId seq).entryAt key = a.entryAt key := rfl

@[simp] theorem setWatermark_ruleAt (key : RuleKey) :
    (a.setWatermark shardId seq).ruleAt key = a.ruleAt key := rfl

variable (m : Mutation)

@[simp] theorem advance_watermarks :
    (a.advance m).watermarks = a.watermarks.set m.shard m.seq := by
  cases h : m.rule <;> simp [advance, setWatermark, h]

@[simp] theorem advance_shardCount : (a.advance m).shardCount = a.shardCount := by
  cases h : m.rule <;> simp [advance, setWatermark, h]

@[simp] theorem advance_ruleBase : (a.advance m).ruleBase = a.ruleBase := by
  cases h : m.rule <;> simp [advance, setWatermark, h]

/-- An applied mutation is one write to the entries. -/
theorem entryAt_advance (key : AclKey) :
    (a.advance m).entryAt key = writeAt Mutation.entryWrite key (a.entryAt key) m := by
  cases h : m.rule <;> simp [advance, writeAt, Mutation.entryWrite, h, applyEntry_entryAt]

/-- An applied mutation is one write to the rules. -/
theorem ruleAt_advance (key : RuleKey) :
    (a.advance m).ruleAt key = writeAt Mutation.ruleWrite key (a.ruleAt key) m := by
  cases h : m.rule <;> simp [advance, writeAt, Mutation.ruleWrite, h, applyRule_ruleAt]

end Frames

/-- The values of an overlay: what is left of the base, and the additions. -/
theorem lists_overlay {κ α : Type} [DecidableEq κ] {key : α → κ} {baseList : List α}
    {base : κ → Option α} (hbase : HashMap.Lists key baseList base) {adds : HashMap κ α}
    (hadds : HashMap.Keyed key adds) (removes : HashMap κ Nat) (ord : IterOrder) :
    HashMap.Lists key
      ((baseList.filter fun a => decide (key a ∉ removes) && decide (key a ∉ adds)) ++
        adds.values ord)
      (overlay base adds removes) where
  keyed k a h := by
    unfold overlay at h
    split at h
    · rename_i hk
      cases h
      exact hadds k _ hk
    · split at h
      · cases h
      · exact hbase.keyed k a h
  mem a := by
    rw [List.mem_append, List.mem_filter, hadds.mem_values, hbase.mem]
    simp only [Bool.and_eq_true, decide_eq_true_eq]
    unfold overlay
    cases hk : adds.lookup (key a) with
    | some b =>
      have : key a ∈ adds := HashMap.mem_iff_lookup.mpr ⟨b, hk⟩
      simp [this]
    | none =>
      have : key a ∉ adds := HashMap.not_mem_iff_lookup.mpr hk
      by_cases hr : key a ∈ removes <;> simp [hr, this]

theorem lists_base (base : ImmutableBase) :
    HashMap.Lists DenyEntry.aclKey base.materializedEntries base.find where
  keyed _ _ h := (ImmutableBase.find_eq_some.mp h).2
  mem e := by rw [ImmutableBase.find_eq_some, and_iff_left rfl]

theorem lists_ruleBase {c : CompiledRules} (h : c.Unique) (ord : IterOrder) :
    HashMap.Lists RuleEntry.ruleKey (c.allRules ord) c.find where
  keyed _ _ hr := ((CompiledRules.find_eq_some h).mp hr).2
  mem r := by rw [CompiledRules.find_eq_some h, and_iff_left rfl, CompiledRules.mem_allRules]

theorem lists_materializedEntries (ord : IterOrder) (a : ActiveState) :
    HashMap.Lists DenyEntry.aclKey (a.materializedEntries ord) a.entryAt :=
  lists_overlay (lists_base a.base) a.adds_keyed a.deltaRemoves ord

theorem lists_materializedRules (ord : IterOrder) {a : ActiveState} (h : a.ruleBase.Unique) :
    HashMap.Lists RuleEntry.ruleKey (a.materializedRules ord) a.ruleAt :=
  lists_overlay (lists_ruleBase h ord) a.ruleAdds_keyed a.deltaRuleRemoves ord

end ActiveState

/-- Rules compiled from the values of a function of the key are that function, if it has no
deletions. -/
theorem CompiledRules.find_fromRules {rules : List RuleEntry} {c : CompiledRules}
    (h : CompiledRules.fromRules rules = .ok c) {f : RuleKey → Option RuleEntry}
    (hf : HashMap.Lists RuleEntry.ruleKey rules f)
    (hdel : ∀ k r, f k = some r → r.action ≠ .delete) :
    c.Unique ∧ ∀ k, c.find k = f k := by
  have hholds : ∀ r, c.Holds r ↔ r ∈ rules := fun r => by
    rw [holds_fromRules h, and_iff_left_iff_imp]
    exact fun hr => hdel _ r ((hf.mem r).mp hr)
  have hu : c.Unique := fun r r' hr hr' hk => hf.unique ((hholds r).mp hr) ((hholds r').mp hr') hk
  refine ⟨hu, fun k => Option.ext fun r => ?_⟩
  rw [find_eq_some hu, hholds, hf.mem]
  constructor
  · rintro ⟨hr, rfl⟩
    exact hr
  · intro hr
    have hk := hf.keyed k r hr
    exact ⟨by rwa [hk], hk⟩

end Globacl
