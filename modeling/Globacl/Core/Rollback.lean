import Globacl.Core.Calls
import Globacl.Lib.Reconcile

/-!
# Rolling back to a snapshot (`globacl-core/src/lib/source.rs`)

`restore_snapshot` brings a source to the content of a snapshot by commits that go forward: deletions
for what the snapshot does not have, and a commit of each entry and rule that differs. The entries and
the rules of a source are two stores in the sense of `Lib.Store`, so each pair of loops reconciles one
store and leaves the other alone.

* `entryStore`, `ruleStore`: the two stores.
* `restorePlan`, `restoreSnapshot_iff`: what a restore commits, in terms of the source before it.
* `changes`, `count_restorePlan`: how many commits a shard gets.
* `Reached.keyed`: every source has its values under their own keys.
* `RolledBack`, `restoreSnapshot_forward_iff`: the main result. A restore goes forward unless a number
  wraps.
-/

namespace Globacl

open Lib

/-- An entry up to the commit's shard and sequence number. -/
def DenyEntry.content (e : DenyEntry) : DenyEntry := { e with commitSeq := 0, shardId := 0 }

/-- A rule up to the commit's shard and sequence number. -/
def RuleEntry.content (r : RuleEntry) : RuleEntry := { r with commitSeq := 0, shardId := 0 }

theorem entrySemanticallyEqual_iff (e e' : DenyEntry) :
    entrySemanticallyEqual e e' = true ↔ e.content = e'.content := by
  simp [entrySemanticallyEqual, DenyEntry.content, and_assoc]

theorem ruleSemanticallyEqual_iff (r r' : RuleEntry) :
    ruleSemanticallyEqual r r' = true ↔ r.content = r'.content := by
  simp [ruleSemanticallyEqual, RuleEntry.content, and_assoc]

namespace LoadedSource

/-- What every source has that was reached by calls: a shard, and each value under its own key. -/
structure Keyed (st : LoadedSource) : Prop where
  shardCount_pos : 0 < st.shardCount
  entries : HashMap.Keyed DenyEntry.aclKey st.entries
  rules : HashMap.Keyed RuleEntry.ruleKey st.rules

theorem record_entries (st : LoadedSource) (m : Mutation) (key : AclKey) :
    (st.record m).entries.lookup key = writeAt Mutation.entryWrite key (st.entries.lookup key) m :=
  SourceOfTruth.lookup_writeEntry st.entries m key

theorem record_rules (st : LoadedSource) (m : Mutation) (key : RuleKey) :
    (st.record m).rules.lookup key = writeAt Mutation.ruleWrite key (st.rules.lookup key) m :=
  SourceOfTruth.lookup_writeRule st.rules m key

/-! ## The two stores -/

section Stores

variable (clock : Nat → Nat) (opPrefix : String)

/-- The entries of a source as a store. The rules are its frame. -/
def entryStore : Store GlobAclError Restore AclKey DenyEntry DenyEntry (HashMap RuleKey RuleEntry)
    where
  look r key := r.st.entries.lookup key
  key := DenyEntry.aclKey
  content := DenyEntry.content
  deletes e := e.action = .delete
  commit r e := r.commitEntry clock opPrefix e
  frame r := r.st.rules
  committed r e r' h := by
    obtain ⟨m, rfl, -, -, hrule, hentry⟩ := Restore.commitEntry_ok h
    have hkey : m.entry.aclKey = e.aclKey := by rw [hentry]; rfl
    have haction : m.entry.action = e.action := by rw [hentry]
    have hcontent : m.entry.content = e.content := by rw [hentry]; rfl
    have hwrite : m.entryWrite = some (e.aclKey, if e.action = .delete then none else some m.entry) := by
      rw [Mutation.entryWrite, hrule, hkey, haction]
      rfl
    refine ⟨?_, fun k hk => ?_, fun hd => ?_, fun hd => ?_⟩
    · show (match m.rule with
        | some rule => SourceOfTruth.applyRule r.st.rules rule
        | none => r.st.rules) = r.st.rules
      rw [hrule]
    · exact (record_entries r.st m k).trans (writeAt_of_ne fun v h => by
        rw [hwrite] at h
        cases h
        exact hk rfl)
    · rw [if_pos hd] at hwrite
      exact (record_entries r.st m e.aclKey).trans (writeAt_of_eq hwrite)
    · rw [if_neg hd] at hwrite
      rw [record_entries r.st m e.aclKey, writeAt_of_eq hwrite, Option.map_some, hcontent]

/-- The rules of a source as a store. The entries are its frame. -/
def ruleStore : Store GlobAclError Restore RuleKey RuleEntry RuleEntry (HashMap AclKey DenyEntry)
    where
  look r key := r.st.rules.lookup key
  key := RuleEntry.ruleKey
  content := RuleEntry.content
  deletes rule := rule.action = .delete
  commit r rule := r.commitRule clock opPrefix rule
  frame r := r.st.entries
  committed r rule r' h := by
    obtain ⟨m, rfl, -, -, hrule⟩ := Restore.commitRule_ok h
    have hwrite : m.ruleWrite = some (rule.ruleKey, if rule.action = .delete then none
        else some { rule with shardId := m.shard, commitSeq := m.seq }) := by
      rw [Mutation.ruleWrite, hrule, Option.map_some]
      rfl
    refine ⟨?_, fun k hk => ?_, fun hd => ?_, fun hd => ?_⟩
    · show (if m.rule.isSome then r.st.entries else _) = r.st.entries
      rw [hrule]
      rfl
    · exact (record_rules r.st m k).trans (writeAt_of_ne fun v h => by
        rw [hwrite] at h
        cases h
        exact hk rfl)
    · rw [if_pos hd] at hwrite
      exact (record_rules r.st m rule.ruleKey).trans (writeAt_of_eq hwrite)
    · rw [if_neg hd] at hwrite
      rw [record_rules r.st m rule.ruleKey, writeAt_of_eq hwrite, Option.map_some]
      rfl

/-- The deletion that a restore commits for an entry. -/
def deletion (entry : DenyEntry) : DenyEntry :=
  { entry with
    action := .delete, reasonCode := "rollback_delete", expiresAt := 0,
    createdBy := "globacl-rollback" }

def ruleDeletion (rule : RuleEntry) : RuleEntry :=
  { rule with
    action := .delete, reasonCode := "rollback_delete", expiresAt := 0,
    createdBy := "globacl-rollback" }

/-- The second loop of a restore over entries, as the model writes it. -/
theorem entryStore_write :
    (entryStore clock opPrefix).write entrySemanticallyEqual = fun r entry =>
      match r.st.entries.lookup entry.aclKey with
      | some current =>
        if entrySemanticallyEqual current entry then pure r else r.commitEntry clock opPrefix entry
      | none => r.commitEntry clock opPrefix entry := by
  funext r entry
  have hlook : (entryStore clock opPrefix).look r ((entryStore clock opPrefix).key entry) =
      r.st.entries.lookup entry.aclKey := rfl
  rw [Store.write, Store.has, hlook]
  cases r.st.entries.lookup entry.aclKey <;> rfl

theorem ruleStore_write :
    (ruleStore clock opPrefix).write ruleSemanticallyEqual = fun r rule =>
      match r.st.rules.lookup rule.ruleKey with
      | some current =>
        if ruleSemanticallyEqual current rule then pure r else r.commitRule clock opPrefix rule
      | none => r.commitRule clock opPrefix rule := by
  funext r rule
  have hlook : (ruleStore clock opPrefix).look r ((ruleStore clock opPrefix).key rule) =
      r.st.rules.lookup rule.ruleKey := rfl
  rw [Store.write, Store.has, hlook]
  cases r.st.rules.lookup rule.ruleKey <;> rfl

end Stores

/-! ## The commits of a restore -/

/-- The last entry of a snapshot under a key. -/
def targetEntry (target : Snapshot) (key : AclKey) : Option DenyEntry :=
  target.entries.reverse.find? fun e => e.aclKey = key

/-- The last rule of a snapshot under a key. -/
def targetRule (target : Snapshot) (key : RuleKey) : Option RuleEntry :=
  target.rules.reverse.find? fun rule => rule.ruleKey = key

/-- `target_entries`. -/
def targetEntries (target : Snapshot) : HashMap AclKey DenyEntry :=
  HashMap.collect DenyEntry.aclKey target.entries ∅

/-- `target_rules`. -/
def targetRules (target : Snapshot) : HashMap RuleKey RuleEntry :=
  HashMap.collect RuleEntry.ruleKey target.rules ∅

section Target

variable {target : Snapshot}

theorem lookup_targetEntries (key : AclKey) :
    (targetEntries target).lookup key = targetEntry target key := by
  rw [targetEntries, HashMap.lookup_collect_eq, AList.lookup_empty, Option.or_none, targetEntry]

theorem lookup_targetRules (key : RuleKey) :
    (targetRules target).lookup key = targetRule target key := by
  rw [targetRules, HashMap.lookup_collect_eq, AList.lookup_empty, Option.or_none, targetRule]

theorem targetEntry_mem {key : AclKey} {e : DenyEntry} (h : targetEntry target key = some e) :
    e ∈ target.entries ∧ e.aclKey = key :=
  ⟨List.mem_reverse.mp (List.mem_of_find?_eq_some h), of_decide_eq_true (List.find?_some h :)⟩

theorem targetRule_mem {key : RuleKey} {rule : RuleEntry} (h : targetRule target key = some rule) :
    rule ∈ target.rules ∧ rule.ruleKey = key :=
  ⟨List.mem_reverse.mp (List.mem_of_find?_eq_some h), of_decide_eq_true (List.find?_some h :)⟩

theorem targetEntries_keyed (target : Snapshot) :
    HashMap.Keyed DenyEntry.aclKey (targetEntries target) := (HashMap.Keyed.empty _).collect _

theorem targetRules_keyed (target : Snapshot) :
    HashMap.Keyed RuleEntry.ruleKey (targetRules target) := (HashMap.Keyed.empty _).collect _

end Target

section Plan

variable (clock : Nat → Nat) (ord : IterOrder) (target : Snapshot) (opPrefix : String)

/-- The loops over entries reconcile the entries with those of the snapshot. -/
theorem entryStore_target (r : Restore) (hk : HashMap.Keyed DenyEntry.aclKey r.st.entries) :
    (entryStore clock opPrefix).Target (· ∈ targetEntries target) deletion entrySemanticallyEqual
      (targetEntries target).lookup (sortBy compareEntriesByKey (r.st.entries.values ord))
      (sortBy compareEntriesByKey ((targetEntries target).values ord)) r where
  key_eq _ := rfl
  deletes_all _ := rfl
  same_iff := entrySemanticallyEqual_iff
  keep_iff _ := HashMap.mem_iff_lookup
  lists_current := (hk.lists ord).perm (sortBy_perm _ _)
  nodup_current := ((sortBy_perm _ _).map _).nodup_iff.mpr (hk.nodup_values ord)
  lists_wanted := ((targetEntries_keyed target).lists ord).perm (sortBy_perm _ _)
  nodup_wanted :=
    ((sortBy_perm _ _).map _).nodup_iff.mpr ((targetEntries_keyed target).nodup_values ord)

/-- The loops over rules reconcile the rules with those of the snapshot. -/
theorem ruleStore_target (r : Restore) (hk : HashMap.Keyed RuleEntry.ruleKey r.st.rules) :
    (ruleStore clock opPrefix).Target (· ∈ targetRules target) ruleDeletion ruleSemanticallyEqual
      (targetRules target).lookup (sortBy compareRulesByKey (r.st.rules.values ord))
      (sortBy compareRulesByKey ((targetRules target).values ord)) r where
  key_eq _ := rfl
  deletes_all _ := rfl
  same_iff := ruleSemanticallyEqual_iff
  keep_iff _ := HashMap.mem_iff_lookup
  lists_current := (hk.lists ord).perm (sortBy_perm _ _)
  nodup_current := ((sortBy_perm _ _).map _).nodup_iff.mpr (hk.nodup_values ord)
  lists_wanted := ((targetRules_keyed target).lists ord).perm (sortBy_perm _ _)
  nodup_wanted :=
    ((sortBy_perm _ _).map _).nodup_iff.mpr ((targetRules_keyed target).nodup_values ord)

/-- The entries that a restore commits. -/
def entryPlan (r : Restore) : List DenyEntry :=
  (entryStore clock opPrefix).plan (· ∈ targetEntries target) deletion entrySemanticallyEqual
    (sortBy compareEntriesByKey (r.st.entries.values ord))
    (sortBy compareEntriesByKey ((targetEntries target).values ord)) r

/-- The rules that a restore commits. -/
def rulePlan (r : Restore) : List RuleEntry :=
  (ruleStore clock opPrefix).plan (· ∈ targetRules target) ruleDeletion ruleSemanticallyEqual
    (sortBy compareRulesByKey (r.st.rules.values ord))
    (sortBy compareRulesByKey ((targetRules target).values ord)) r

/-- The plan of the rules depends only on the rules. -/
theorem rulePlan_congr {r r' : Restore} (h : r'.st.rules = r.st.rules) :
    rulePlan clock ord target opPrefix r' = rulePlan clock ord target opPrefix r := by
  have hlook : (ruleStore clock opPrefix).look r' = (ruleStore clock opPrefix).look r :=
    funext fun key => congrArg (fun rules : HashMap RuleKey RuleEntry => rules.lookup key) h
  have hhas : (ruleStore clock opPrefix).has ruleSemanticallyEqual r' =
      (ruleStore clock opPrefix).has ruleSemanticallyEqual r := by
    funext rule
    rw [Store.has, Store.has, hlook]
  rw [rulePlan, rulePlan, Store.plan, Store.plan, hhas, h]

end Plan

/-- A commit of a restore. -/
inductive Change where
  | entry (entry : DenyEntry)
  | rule (rule : RuleEntry)

/-- The hash that chooses the shard of the commit. -/
def Change.hash : Change → UInt64
  | .entry e => e.keyHash
  | .rule r => r.ruleHash

def Restore.commitChange (clock : Nat → Nat) (opPrefix : String) (r : Restore) :
    Change → Result Restore
  | .entry entry => r.commitEntry clock opPrefix entry
  | .rule rule => r.commitRule clock opPrefix rule

/-- Everything that a restore commits, known before the first commit. -/
def restorePlan (clock : Nat → Nat) (ord : IterOrder) (st : LoadedSource) (target : Snapshot)
    (opPrefix : String) : List Change :=
  (entryPlan clock ord target opPrefix ⟨st, []⟩).map .entry ++
    (rulePlan clock ord target opPrefix ⟨st, []⟩).map .rule

section Restore

variable {st : LoadedSource} {target : Snapshot} {clock : Nat → Nat} {ord : IterOrder}
  {opPrefix : String}

/-- The plan is committed in two parts. -/
theorem foldlM_restorePlan {r : Restore} :
    (restorePlan clock ord st target opPrefix).foldlM (Restore.commitChange clock opPrefix) ⟨st, []⟩ =
        .ok r ↔
      ∃ r₂, (entryPlan clock ord target opPrefix ⟨st, []⟩).foldlM (entryStore clock opPrefix).commit
          ⟨st, []⟩ = .ok r₂ ∧
        (rulePlan clock ord target opPrefix ⟨st, []⟩).foldlM (ruleStore clock opPrefix).commit r₂ =
          .ok r := by
  rw [restorePlan, List.foldlM_append, List.foldlM_map, bind_eq_ok]
  simp only [List.foldlM_map]
  rfl

/-- A restore of a snapshot that passes its checks commits the plan. -/
theorem restoreSnapshot_iff (hk : Keyed st) {r : Restore} :
    restoreSnapshot clock ord st target opPrefix = .ok r ↔
      target.shardCount = st.shardCount ∧ target.validate = .ok () ∧
        (restorePlan clock ord st target opPrefix).foldlM (Restore.commitChange clock opPrefix)
          ⟨st, []⟩ = .ok r := by
  have hentries := (entryStore_target clock ord target opPrefix ⟨st, []⟩ hk.entries).reconcile_eq
  have hrules : ∀ r₂ : Restore, r₂.st.rules = st.rules → _ := fun r₂ hr₂ =>
    (ruleStore_target clock ord target opPrefix r₂ (hr₂ ▸ hk.rules)).reconcile_eq
  rw [entryStore_write] at hentries
  rw [ruleStore_write] at hrules
  rw [foldlM_restorePlan]
  unfold restoreSnapshot
  by_cases hcount : target.shardCount ≠ st.shardCount
  · rw [if_pos hcount]
    exact iff_of_false (fun h => by cases h) fun h => hcount h.1
  rw [if_neg hcount, and_iff_right (not_not.mp hcount)]
  cases hv : target.validate with
  | error err => exact iff_of_false (fun h => by cases h) fun h => by cases h.1
  | ok u =>
    rw [ok_bind, and_iff_right rfl]
    constructor
    · intro h
      obtain ⟨r₁, h₁, h⟩ := bind_eq_ok.mp h
      obtain ⟨r₂, h₂, h⟩ := bind_eq_ok.mp h
      obtain ⟨r₃, h₃, h₄⟩ := bind_eq_ok.mp h
      have hplan := hentries.symm.trans (bind_eq_ok.mpr ⟨r₁, h₁, h₂⟩)
      have hframe : r₂.st.rules = st.rules := Store.frame_of_foldlM hplan
      refine ⟨r₂, hplan, ?_⟩
      rw [← rulePlan_congr clock ord target opPrefix hframe]
      exact (hrules r₂ hframe).symm.trans (bind_eq_ok.mpr ⟨r₃, h₃, h₄⟩)
    · rintro ⟨r₂, hplan, hrest⟩
      have hframe : r₂.st.rules = st.rules := Store.frame_of_foldlM hplan
      rw [← rulePlan_congr clock ord target opPrefix hframe] at hrest
      obtain ⟨r₁, h₁, h₂⟩ := bind_eq_ok.mp (hentries.trans hplan)
      obtain ⟨r₃, h₃, h₄⟩ := bind_eq_ok.mp ((hrules r₂ hframe).trans hrest)
      exact bind_eq_ok.mpr ⟨r₁, h₁, bind_eq_ok.mpr ⟨r₂, h₂, bind_eq_ok.mpr ⟨r₃, h₃, h₄⟩⟩⟩

theorem Restore.commitChange_ok {r r' : Restore} {x : Change}
    (h : r.commitChange clock opPrefix x = .ok r') :
    ∃ m : Mutation, r' = ⟨r.st.record m, r.mutations ++ [m]⟩ ∧ r.st.Next m ∧
      m.shard = shardForHash x.hash r.st.shardCount := by
  cases x with
  | entry entry =>
    obtain ⟨m, hr, hn, hshard, -⟩ := Restore.commitEntry_ok h
    exact ⟨m, hr, hn, hshard⟩
  | rule rule =>
    obtain ⟨m, hr, hn, hshard, -⟩ := Restore.commitRule_ok h
    exact ⟨m, hr, hn, hshard⟩

/-- The commits of a plan go to the shards of its hashes. -/
theorem foldlM_commitChange_ok {xs : List Change} {r r' : Restore}
    (h : xs.foldlM (Restore.commitChange clock opPrefix) r = .ok r') :
    ∃ ms, r'.mutations = r.mutations ++ ms ∧ Commits r.st ms r'.st ∧
      ms.map Mutation.shard = xs.map fun x => shardForHash x.hash r.st.shardCount := by
  induction xs generalizing r with
  | nil =>
    cases h
    exact ⟨[], (List.append_nil _).symm, .nil _, rfl⟩
  | cons x xs ih =>
    rw [List.foldlM_cons, bind_eq_ok] at h
    obtain ⟨r₁, h₁, h⟩ := h
    obtain ⟨m, rfl, hn, hshard⟩ := Restore.commitChange_ok h₁
    obtain ⟨ms, hms, hc, hshards⟩ := ih h
    refine ⟨m :: ms, ?_, .cons hn hc, ?_⟩
    · rw [hms, List.append_assoc]
      rfl
    · rw [List.map_cons, List.map_cons, hshard, hshards]
      rfl

theorem exists_foldlM_commitChange (clock : Nat → Nat) (opPrefix : String) {xs : List Change}
    {r : Restore} (hpos : 0 < r.st.shardCount)
    (hslot : ∀ x ∈ xs, shardForHash x.hash r.st.shardCount < r.st.watermarks.length) :
    ∃ r', xs.foldlM (Restore.commitChange clock opPrefix) r = .ok r' := by
  induction xs generalizing r with
  | nil => exact ⟨r, rfl⟩
  | cons x xs ih =>
    obtain ⟨r₁, h₁⟩ : ∃ r₁, r.commitChange clock opPrefix x = .ok r₁ := by
      cases x with
      | entry entry => exact Restore.exists_commitEntry _ _ hpos (hslot _ List.mem_cons_self)
      | rule rule => exact Restore.exists_commitRule _ _ hpos (hslot _ List.mem_cons_self)
    obtain ⟨m, rfl, -, -⟩ := Restore.commitChange_ok h₁
    obtain ⟨r', h'⟩ := @ih ⟨r.st.record m, r.mutations ++ [m]⟩ hpos fun y hy => by
      rw [length_watermarks_record]
      exact hslot y (List.mem_cons_of_mem _ hy)
    exact ⟨r', by rw [List.foldlM_cons, h₁]; exact h'⟩

/-- The keys of a shard at which a source and a snapshot differ, up to the commit's shard and number:
how many there are. -/
def changes (target : Snapshot) (st : LoadedSource) (s : Nat) : Nat :=
  ((st.entries.keys ++ target.entries.map DenyEntry.aclKey).dedup.filter fun key =>
    shardForHash key.keyHash st.shardCount = s ∧
      (st.entries.lookup key).map DenyEntry.content ≠
        (targetEntry target key).map DenyEntry.content).length +
  ((st.rules.keys ++ target.rules.map RuleEntry.ruleKey).dedup.filter fun key =>
    shardForHash key.ruleHash st.shardCount = s ∧
      (st.rules.lookup key).map RuleEntry.content ≠
        (targetRule target key).map RuleEntry.content).length

/-- A shard gets one commit for each of its changes. -/
theorem count_restorePlan (hk : Keyed st) (s : Nat) :
    ((restorePlan clock ord st target opPrefix).map fun x =>
      shardForHash x.hash st.shardCount).count s = st.changes target s := by
  have hentries := (entryStore_target clock ord target opPrefix ⟨st, []⟩ hk.entries).count_plan
    (st.entries.keys ++ target.entries.map DenyEntry.aclKey) (fun _ => HashMap.mem_keys_of_ne)
    (fun key => shardForHash key.keyHash st.shardCount) s
  have hrules := (ruleStore_target clock ord target opPrefix ⟨st, []⟩ hk.rules).count_plan
    (st.rules.keys ++ target.rules.map RuleEntry.ruleKey) (fun _ => HashMap.mem_keys_of_ne)
    (fun key => shardForHash key.ruleHash st.shardCount) s
  rw [restorePlan, List.map_append, List.count_append, changes, List.map_map, List.map_map]
  rw [List.map_map] at hentries hrules
  simp only [lookup_targetEntries, lookup_targetRules] at hentries hrules
  exact congrArg₂ (· + ·) hentries hrules

/-- What a restore commits. -/
theorem restoreSnapshot_commits (hk : Keyed st) {r : Restore}
    (h : restoreSnapshot clock ord st target opPrefix = .ok r) :
    Commits st r.mutations r.st ∧ ∀ s, (shardLog r.mutations s).length = st.changes target s := by
  obtain ⟨-, -, hplan⟩ := (restoreSnapshot_iff hk).mp h
  obtain ⟨ms, hms, hc, hshards⟩ := foldlM_commitChange_ok hplan
  rw [List.nil_append] at hms
  rw [hms]
  refine ⟨hc, fun s => ?_⟩
  rw [← count_restorePlan hk s, ← hshards, List.count_eq_countP, List.countP_map,
    List.countP_eq_length_filter]
  rfl

/-- A restore of a snapshot that passes its checks succeeds if and only if each shard that it changes
has a slot. -/
theorem exists_restoreSnapshot_iff (hk : Keyed st) (hcount : target.shardCount = st.shardCount)
    (hvalid : target.validate = .ok ()) :
    (∃ r, restoreSnapshot clock ord st target opPrefix = .ok r) ↔
      ∀ s, 0 < st.changes target s → s < st.watermarks.length := by
  constructor
  · rintro ⟨r, hr⟩ s hs
    obtain ⟨hc, hlen⟩ := restoreSnapshot_commits hk hr
    rw [← hlen] at hs
    obtain ⟨m, hm⟩ := List.exists_mem_of_length_pos hs
    obtain ⟨hmem, rfl⟩ := mem_shardLog.mp hm
    exact hc.slot m hmem
  · intro hslot
    obtain ⟨r, hr⟩ := @exists_foldlM_commitChange clock opPrefix
      (restorePlan clock ord st target opPrefix) ⟨st, []⟩ hk.shardCount_pos fun x hx => by
        refine hslot _ ?_
        rw [← @count_restorePlan st target clock ord opPrefix hk]
        exact List.count_pos_iff.mpr (List.mem_map.mpr ⟨x, hx, rfl⟩)
    exact ⟨r, (restoreSnapshot_iff hk).mpr ⟨hcount, hvalid, hr⟩⟩

/-! ## What a restore leaves -/

/-- A source has the content of a snapshot. -/
structure Matches (target : Snapshot) (st : LoadedSource) : Prop where
  entries : ∀ key, (st.entries.lookup key).map DenyEntry.content =
    (targetEntry target key).map DenyEntry.content
  rules : ∀ key, (st.rules.lookup key).map RuleEntry.content =
    (targetRule target key).map RuleEntry.content

/-- A snapshot that a source can be rolled back to: it passes its checks, and deletes nothing. -/
structure Restorable (target : Snapshot) (shardCount : Nat) : Prop where
  shardCount : target.shardCount = shardCount
  valid : target.validate = .ok ()
  entries : ∀ e ∈ target.entries, e.action ≠ .delete
  rules : ∀ rule ∈ target.rules, rule.action ≠ .delete

/-- After a restore the source has the content of the snapshot. -/
theorem matches_of_restoreSnapshot (hk : Keyed st) (ht : Restorable target st.shardCount)
    {r : Restore} (h : restoreSnapshot clock ord st target opPrefix = .ok r) :
    Matches target r.st := by
  obtain ⟨-, -, hplan⟩ := (restoreSnapshot_iff hk).mp h
  obtain ⟨r₂, hentries, hrules⟩ := foldlM_restorePlan.mp hplan
  have hframe : r₂.st.rules = st.rules := Store.frame_of_foldlM hentries
  have hframe' : r.st.entries = r₂.st.entries := Store.frame_of_foldlM hrules
  rw [← rulePlan_congr clock ord target opPrefix hframe] at hrules
  refine ⟨fun key => ?_, fun key => ?_⟩
  · rw [hframe', ← lookup_targetEntries]
    refine (entryStore_target clock ord target opPrefix ⟨st, []⟩ hk.entries).value_of_plan
      (fun e he => ?_) hentries key
    have hlook := (targetEntries_keyed target).mem_values.mp (mem_sortBy.mp he)
    rw [lookup_targetEntries] at hlook
    exact ht.entries e (targetEntry_mem hlook).1
  · rw [← lookup_targetRules]
    refine (ruleStore_target clock ord target opPrefix r₂ (hframe ▸ hk.rules)).value_of_plan
      (fun rule hrule => ?_) hrules key
    have hlook := (targetRules_keyed target).mem_values.mp (mem_sortBy.mp hrule)
    rw [lookup_targetRules] at hlook
    exact ht.rules rule (targetRule_mem hlook).1

/-- A source that has the content of the snapshot is left as it is. -/
theorem Matches.restoreSnapshot (hm : Matches target st) (hk : Keyed st)
    (ht : Restorable target st.shardCount) (clock : Nat → Nat) (ord : IterOrder)
    (opPrefix : String) : restoreSnapshot clock ord st target opPrefix = .ok ⟨st, []⟩ := by
  have hentries : entryPlan clock ord target opPrefix ⟨st, []⟩ = [] := by
    refine (List.map_eq_nil_iff (f := DenyEntry.aclKey)).mp
      (List.eq_nil_iff_forall_not_mem.mpr fun key hkey => ?_)
    refine (entryStore_target clock ord target opPrefix ⟨st, []⟩ hk.entries).mem_plan.mp hkey ?_
    rw [lookup_targetEntries]
    exact hm.entries key
  have hrules : rulePlan clock ord target opPrefix ⟨st, []⟩ = [] := by
    refine (List.map_eq_nil_iff (f := RuleEntry.ruleKey)).mp
      (List.eq_nil_iff_forall_not_mem.mpr fun key hkey => ?_)
    refine (ruleStore_target clock ord target opPrefix ⟨st, []⟩ hk.rules).mem_plan.mp hkey ?_
    rw [lookup_targetRules]
    exact hm.rules key
  refine (restoreSnapshot_iff hk).mpr ⟨ht.shardCount, ht.valid, ?_⟩
  rw [restorePlan, hentries, hrules]
  rfl

/-! ## Sources that were reached by calls -/

theorem Keyed.advance (hk : Keyed st) (m : Mutation) : Keyed (st.advance m) where
  shardCount_pos := hk.shardCount_pos
  entries := by
    show HashMap.Keyed _ (if m.rule.isSome then st.entries else SourceOfTruth.applyEntry _ _)
    split
    · exact hk.entries
    · exact SourceOfTruth.applyEntry_keyed hk.entries _
  rules := by
    show HashMap.Keyed _ (match m.rule with
      | some rule => SourceOfTruth.applyRule st.rules rule
      | none => st.rules)
    split
    · exact SourceOfTruth.applyRule_keyed hk.rules _
    · exact hk.rules

theorem Keyed.record (hk : Keyed st) (m : Mutation) : Keyed (st.record m) :=
  ⟨(hk.advance m).shardCount_pos, (hk.advance m).entries, (hk.advance m).rules⟩

theorem Keyed.commits (hk : Keyed st) {ms : List Mutation} {st' : LoadedSource}
    (h : Commits st ms st') : Keyed st' := by
  induction h with
  | nil st => exact hk
  | cons hn _ ih => exact ih (hk.record _)

theorem Constructed.keyed {n : Nat} (h : Constructed n st) : Keyed st :=
  h.keeps (fun _ m hk => hk.advance m)
    (fun _ _ hk => ⟨hk.shardCount_pos, hk.entries, hk.rules⟩)
    (fun _ _ hk => ⟨hk.shardCount_pos, hk.entries, hk.rules⟩)
    (fun _ => ⟨Nat.lt_of_lt_of_le Nat.zero_lt_one (Nat.le_max_right ..), .empty _, .empty _⟩)
    fun _ _ _ => ⟨Nat.lt_of_lt_of_le Nat.zero_lt_one (Nat.le_max_right ..),
      (HashMap.Keyed.empty _).collect _, (HashMap.Keyed.empty _).collect _⟩

theorem Keyed.call (hk : Keyed st) (c : Call) : Keyed (st.call c) := by
  rcases st.call_cases c with h | ⟨m, -, -, h⟩ | ⟨clock, ord, snapshot, opPrefix, r, -, hr, h⟩ |
    ⟨watermarks, h⟩ | ⟨epoch, h⟩
  · rwa [h]
  · rw [h]
    exact hk.record m
  · rw [h]
    exact hk.commits (restoreSnapshot_commits hk hr).1
  · obtain ⟨-, compacted, -, -, hst⟩ := compactMutationHistory_ok h
    rw [hst]
    exact ⟨hk.shardCount_pos, hk.entries, hk.rules⟩
  · rw [h]
    exact ⟨hk.shardCount_pos, hk.entries, hk.rules⟩

/-- A source that was constructed for some shard count and reached by calls, accepted or rejected. -/
def Reached (st : LoadedSource) : Prop :=
  ∃ n st₀, ∃ calls : List Call, Constructed n st₀ ∧ calls.foldl call st₀ = st

theorem Reached.keyed (h : Reached st) : Keyed st := by
  obtain ⟨n, st₀, calls, h₀, rfl⟩ := h
  exact foldl_invariant (fun _ c hk => hk.call c) h₀.keyed calls

/-- What a restore of `target` made of the source `st`: new mutations only, which a copy of `st` can
replay and which leave the content of the snapshot, so that a second restore has nothing to do. -/
structure RolledBack (target : Snapshot) (st : LoadedSource) (r : Restore) : Prop where
  hasContent : Matches target r.st
  watermark : ∀ s, r.st.watermark s = st.watermark s + (shardLog r.mutations s).length
  distinct : (r.mutations.map Mutation.opId).Nodup
  fresh : ∀ m ∈ r.mutations, m.opId ∉ st.opIndex
  replayed : r.mutations.foldlM (fun st m => (st.applyReplicatedMutation m).map Prod.snd) st = .ok r.st
  again : ∀ (clock : Nat → Nat) (ord : IterOrder) (opPrefix : String),
    LoadedSource.restoreSnapshot clock ord r.st target opPrefix = .ok ⟨r.st, []⟩

/-- A restore goes forward exactly when the watermark of each shard that it changes has room for its
changes. -/
theorem restoreSnapshot_forward_iff (h : Reached st) (ht : Restorable target st.shardCount)
    (clock : Nat → Nat) (ord : IterOrder) (opPrefix : String) :
    (∃ r, restoreSnapshot clock ord st target opPrefix = .ok r ∧ RolledBack target st r) ↔
      ∀ s, 0 < st.changes target s →
        ∃ w, st.watermarks[s]? = some w ∧ w + st.changes target s < 2 ^ 64 := by
  have hk := h.keyed
  have hget : ∀ {s w}, st.watermarks[s]? = some w → st.watermark s = w := fun {s w} hw => by
    rw [LoadedSource.watermark, List.getD_eq_getElem?_getD, hw, Option.getD_some]
  constructor
  · rintro ⟨r, hr, hback⟩ s hs
    obtain ⟨hc, hlen⟩ := restoreSnapshot_commits hk hr
    have hslot := (exists_restoreSnapshot_iff hk ht.shardCount ht.valid).mp ⟨r, hr⟩ s hs
    refine ⟨_, List.getElem?_eq_getElem hslot, ?_⟩
    rw [← hget (List.getElem?_eq_getElem hslot)]
    -- the watermark after the restore is a 64-bit number
    have hwrap := hc.watermark s
    rw [hback.watermark, hlen, iterate_wrappingSucc hs] at hwrap
    rw [hwrap]
    exact Nat.mod_lt _ (by decide)
  · intro hroom
    obtain ⟨r, hr⟩ := (@exists_restoreSnapshot_iff st target clock ord opPrefix hk ht.shardCount
      ht.valid).mpr fun s hs => by
        obtain ⟨w, hw, -⟩ := hroom s hs
        exact (List.getElem?_eq_some_iff.mp hw).1
    obtain ⟨hc, hlen⟩ := restoreSnapshot_commits hk hr
    have hlt : ∀ s, 0 < st.changes target s → st.watermark s + st.changes target s < 2 ^ 64 :=
      fun s hs => by
        obtain ⟨w, hw, hlt⟩ := hroom s hs
        rwa [hget hw]
    have hm := matches_of_restoreSnapshot hk ht hr
    refine ⟨r, hr, hm, fun s => ?_, hc.fresh.1, hc.fresh.2, hc.replayed fun m hmem => ?_,
      hm.restoreSnapshot (hk.commits hc) ?_⟩
    · rw [hc.watermark, hlen]
      rcases Nat.eq_zero_or_pos (st.changes target s) with hs | hs
      · rw [hs]
        rfl
      · exact iterate_wrappingSucc_of_lt (hlt s hs)
    · have hpos : 0 < (shardLog r.mutations m.shard).length :=
        List.length_pos_of_mem (mem_shardLog.mpr ⟨hmem, rfl⟩)
      rw [hlen] at hpos ⊢
      exact hlt _ hpos
    · rw [hc.kept.1]
      exact ht

/-- A shard that does not exist has no changes. -/
theorem changes_eq_zero (hpos : 0 < st.shardCount) {s : Nat} (hs : st.shardCount ≤ s) :
    st.changes target s = 0 := by
  have hne : ∀ hash, shardForHash hash st.shardCount ≠ s := fun hash heq => by
    have := @shardForHash_lt hash _ hpos
    omega
  simp [changes, hne]

end Restore

/-! A source that denies one user is rolled back to a snapshot in which another one is denied and a domain
is allowed. -/

namespace Older

def denied (user : String) : DenyEntry :=
  { tenantId := "acme", namespace' := "user", keyHash := stableKeyHash "acme" "user" user,
    action := .deny, priority := 1, reasonCode := "abuse", expiresAt := 0, createdBy := "admin",
    commitSeq := 1, shardId := 0 }

def allowed : RuleEntry :=
  { tenantId := "acme", kind := .domainSuffix, pattern := "example.org",
    ruleHash := stableKeyHash "acme" "domain_suffix" "example.org", action := .allowOverride,
    priority := 5, reasonCode := "partner", expiresAt := 0, createdBy := "admin", commitSeq := 2,
    shardId := 0, ipv4Network := 0, ipv4PrefixLen := 0, domainSuffix := "example.org" }

def snapshot : Snapshot := ⟨1, [2], [denied "bob"], [allowed]⟩

def denial : Mutation :=
  { opId := "op-1", commitId := ⟨0, 1, 1, "eu"⟩, entry := denied "ann", rule := none,
    deliveryPriority := .p0, committedAtUnix := 0 }

/-- The source after the denial of the user was replicated to it. -/
def source : LoadedSource := (new 1 "eu").call (.applyReplicatedMutation denial)

theorem reached : Reached source :=
  ⟨1, new 1 "eu", [.applyReplicatedMutation denial], .new "eu", rfl⟩

theorem restorable : Restorable snapshot source.shardCount where
  shardCount := by decide +kernel
  valid := rfl
  entries e he := by
    rw [List.mem_singleton.mp he]
    decide
  rules rule hr := by
    rw [List.mem_singleton.mp hr]
    decide

end Older

theorem restoreSnapshot_forward_iff_older :
    Older.source.changes Older.snapshot 0 = 3 ∧
    ∃ r, restoreSnapshot (fun _ => 9) .given Older.source Older.snapshot "rollback" = .ok r ∧
      RolledBack Older.snapshot Older.source r := by
  have hchanges : Older.source.changes Older.snapshot 0 = 3 := by decide +kernel
  refine ⟨hchanges, (restoreSnapshot_forward_iff Older.reached Older.restorable _ _ _).mpr
    fun s hs => ?_⟩
  have h0 : s = 0 := by
    by_contra hne
    rw [changes_eq_zero (by decide +kernel)
      ((show Older.source.shardCount = 1 by decide +kernel).trans_le (Nat.pos_of_ne_zero hne))] at hs
    exact Nat.lt_irrefl 0 hs
  subst h0
  exact ⟨1, by decide +kernel, by rw [hchanges]; decide⟩

/-! A snapshot at the largest number, with one denial, and a snapshot without it. -/

namespace LastNumber

def snapshot : Snapshot := ⟨1, [2 ^ 64 - 1], [Older.denied "ann"], []⟩

def source : LoadedSource := ofSnapshot 1 "eu" snapshot snapshot.watermarks

def empty : Snapshot := ⟨1, [0], [], []⟩

theorem reached : Reached source := by
  have h : fromSnapshotAndMutations 1 "eu" snapshot [] [] = .ok source := rfl
  exact ⟨1, source, [], .fromSnapshotAndMutations (by decide) h, rfl⟩

theorem restorable : Restorable empty source.shardCount :=
  ⟨rfl, rfl, fun _ h => absurd h List.not_mem_nil, fun _ h => absurd h List.not_mem_nil⟩

end LastNumber

open LastNumber in
/-- The deletion of the denial gets the number `0`, and the watermark falls to it. -/
theorem not_restoreSnapshot_forward :
    ¬∀ (st : LoadedSource) (target : Snapshot), Reached st → Restorable target st.shardCount →
      ∀ (clock : Nat → Nat) (ord : IterOrder) (opPrefix : String),
        ∃ r, restoreSnapshot clock ord st target opPrefix = .ok r ∧ RolledBack target st r := by
  intro h
  obtain ⟨r, hr, hback⟩ := h source empty reached restorable (fun _ => 0) .given "rollback"
  have hrun : (restoreSnapshot (fun _ => 0) .given source empty "rollback").map
      (fun r => r.st.watermark 0) = .ok 0 := by decide +kernel
  rw [hr] at hrun
  have hw := hback.watermark 0
  rw [show r.st.watermark 0 = 0 from Except.ok.inj hrun,
    show source.watermark 0 = 2 ^ 64 - 1 from rfl] at hw
  omega

end LoadedSource

end Globacl
