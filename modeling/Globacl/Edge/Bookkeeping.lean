import Globacl.Edge.Converge
import Globacl.Edge.Reload

/-!
# The bookkeeping of the overlay (`globacl-core/src/lib/active_state.rs`)

The overlay of an edge is two maps of additions and two of removals on the immutable base. A key is
never in the additions and in the removals, so the entries can be counted without being listed: the
base, less the removed keys that it has, and the added keys that it does not have.

* `ActiveState.Reachable`: a run of mutations and compactions.
* `ActiveState.Overlaid`: the invariant. `Overlaid.advance`, `Overlaid.compactDeltaOverlay`: a step.
* `materializedEntries_length`: the count.
* `overlay_exact_iff`: the bookkeeping is exact, and a compaction changes nothing that can be seen
  if it returns. It returns exactly if the added rules have buckets and each text gets an id.
-/

namespace Globacl

open Lib

namespace ActiveState

variable {a a' : ActiveState} {ord ord' : IterOrder}

/-! ## Runs -/

/-- A state of a run that starts with an empty state or with a snapshot. A rejected mutation leaves
the state. -/
inductive Reachable : ActiveState → Prop
  | new {shardCount : Nat} {a : ActiveState} (h : new shardCount = .ok a) : Reachable a
  | fromSnapshot {snapshot : Snapshot} {a : ActiveState} (h : fromSnapshot snapshot = .ok a) :
      Reachable a
  | apply {a a' : ActiveState} {m : Mutation} {status : ApplyStatus} (ha : Reachable a)
      (h : a.applyMutation m = .ok (status, a')) : Reachable a'
  | compact {a a' : ActiveState} {ord : IterOrder} (ha : Reachable a)
      (h : a.compactDeltaOverlay ord = .ok a') : Reachable a'

/-- The parts of a state that was reached: the base was built, and what is added is not removed. -/
structure Overlaid (a : ActiveState) : Prop where
  base : ∃ entries, ImmutableBase.fromEntries entries = .ok a.base
  ruleBase : ∃ rules, CompiledRules.fromRules rules = .ok a.ruleBase
  entries : Apart a.deltaAdds a.deltaRemoves
  rules : Apart a.deltaRuleAdds a.deltaRuleRemoves
  live : ∀ key rule, a.deltaRuleAdds.lookup key = some rule → rule.action ≠ .delete

/-- A state without an overlay. -/
theorem Overlaid.of_empty {entries : List DenyEntry} {rules : List RuleEntry}
    (hbase : ImmutableBase.fromEntries entries = .ok a.base)
    (hrules : CompiledRules.fromRules rules = .ok a.ruleBase) (hadds : a.deltaAdds = ∅)
    (hruleAdds : a.deltaRuleAdds = ∅) : a.Overlaid where
  base := ⟨entries, hbase⟩
  ruleBase := ⟨rules, hrules⟩
  entries := by rw [hadds]; exact apart_empty _
  rules := by rw [hruleAdds]; exact apart_empty _
  live := fun key rule hkey => by rw [hruleAdds, AList.lookup_empty] at hkey; cases hkey

theorem Overlaid.applyRule (h : a.Overlaid) (rule : RuleEntry) (seq : Nat) :
    (a.applyRule rule seq).Overlaid := by
  unfold ActiveState.applyRule
  split
  · refine ⟨h.base, h.ruleBase, h.entries, h.rules.erase _ _, fun key r hkey => ?_⟩
    dsimp only at hkey
    rw [HashMap.lookup_erase_eq] at hkey
    split at hkey
    · cases hkey
    · exact h.live key r hkey
  all_goals
    rename_i hact
    refine ⟨h.base, h.ruleBase, h.entries, h.rules.store _ _, fun key r hkey => ?_⟩
    dsimp only at hkey
    rw [HashMap.lookup_insert_eq] at hkey
    split at hkey
    · cases hkey
      rw [hact]
      decide
    · exact h.live key r hkey

theorem Overlaid.applyEntry (h : a.Overlaid) (entry : DenyEntry) (seq : Nat) :
    (a.applyEntry entry seq).Overlaid := by
  unfold ActiveState.applyEntry
  split
  · exact ⟨h.base, h.ruleBase, h.entries.erase _ _, h.rules, h.live⟩
  · exact ⟨h.base, h.ruleBase, h.entries.store _ _, h.rules, h.live⟩
  · exact ⟨h.base, h.ruleBase, h.entries.store _ _, h.rules, h.live⟩

/-- An applied mutation moves its key from one side of the overlay to the other. -/
theorem Overlaid.advance (h : a.Overlaid) (m : Mutation) : (a.advance m).Overlaid := by
  unfold ActiveState.advance setWatermark
  cases m.rule with
  | some rule =>
    have hrule := h.applyRule rule m.seq
    exact ⟨hrule.base, hrule.ruleBase, hrule.entries, hrule.rules, hrule.live⟩
  | none =>
    have hentry := h.applyEntry m.entry m.seq
    exact ⟨hentry.base, hentry.ruleBase, hentry.entries, hentry.rules, hentry.live⟩

theorem Overlaid.compactDeltaOverlay (h : a.Overlaid) (hc : a.compactDeltaOverlay ord = .ok a') :
    a'.Overlaid := by
  rcases compactDeltaOverlay_cases hc with ⟨rfl, -⟩ | ⟨base, ruleBase, hbase, hrules, rfl⟩
  · exact h
  · exact .of_empty hbase hrules rfl rfl

theorem Reachable.overlaid (h : Reachable a) : a.Overlaid := by
  induction h with
  | new hnew =>
    obtain ⟨base, hbase, hnew⟩ := bind_eq_ok.mp hnew
    obtain ⟨ruleBase, hrules, hnew⟩ := bind_eq_ok.mp hnew
    cases hnew
    exact .of_empty hbase hrules rfl rfl
  | fromSnapshot hload =>
    obtain ⟨-, hbase, hrules, -, -, hadds, -, hruleAdds, -⟩ := fromSnapshot_builds hload
    exact .of_empty hbase hrules hadds hruleAdds
  | apply _ happly ih =>
    rcases applyMutation_ok happly with rfl | ⟨-, -, rfl⟩
    · exact ih
    · exact ih.advance _
  | compact _ hc ih => exact ih.compactDeltaOverlay hc

/-! ## The count -/

/-- A loop of subtractions ends in one subtraction. -/
theorem foldl_sub_one {α : Type} (l : List α) (n : Nat) :
    l.foldl (fun len _ => len - 1) n = n - l.length := by
  induction l generalizing n with
  | nil => rfl
  | cons _ l ih =>
    rw [List.foldl_cons, ih, List.length_cons]
    omega

theorem isSome_lookupExactParts (base : ImmutableBase) (key : AclKey) :
    (base.lookupExactParts key.tenantId key.namespace' key.keyHash).isSome =
      decide (key ∈ base.materializedEntries.map DenyEntry.aclKey) := by
  rw [Bool.eq_iff_iff, decide_eq_true_eq, Option.isSome_iff_exists, List.mem_map]
  constructor
  · rintro ⟨c, hc⟩
    obtain ⟨hmem, hk⟩ := ImmutableBase.lookupExactParts_eq_some.mp hc
    exact ⟨c.toDenyEntry base.symbols, List.mem_map_of_mem hmem, hk⟩
  · rintro ⟨e, he, hk⟩
    obtain ⟨c, hmem, rfl⟩ := List.mem_map.mp he
    exact ⟨c, ImmutableBase.lookupExactParts_eq_some.mpr ⟨hmem, hk⟩⟩

/-- The loops of `entries_len` count the entries that are materialized. -/
theorem materializedEntries_length (ord : IterOrder) (a : ActiveState) :
    (a.materializedEntries ord).length = a.entriesLen := by
  have hcount := length_overlay a.base.nodup_materializedEntries a.deltaAdds a.deltaRemoves
  have hvalues : (a.deltaAdds.values ord).length = a.deltaAdds.keys.length := by
    rw [HashMap.values, (ord.perm _).length_eq, List.length_map, AList.keys, List.keys,
      List.length_map]
  have hbase : a.base.materializedEntries.length = a.base.entries.length := List.length_map _
  rw [List.filter_map, List.length_map, List.length_map, hbase] at hcount
  unfold entriesLen materializedEntries
  simp only [isSome_lookupExactParts, foldl_sub_one, List.length_append, hvalues, ← decide_not]
  exact hcount

/-- No key is materialized twice. -/
theorem nodup_materializedEntries (ord : IterOrder) (a : ActiveState) :
    ((a.materializedEntries ord).map DenyEntry.aclKey).Nodup := by
  unfold materializedEntries
  rw [List.map_append, List.nodup_append]
  refine ⟨(List.filter_sublist.map _).nodup a.base.nodup_materializedEntries,
    a.adds_keyed.nodup_values ord, fun key hkey key' hkey' heq => ?_⟩
  obtain ⟨e, he, rfl⟩ := List.mem_map.mp hkey
  obtain ⟨e', he', rfl⟩ := List.mem_map.mp hkey'
  have hadded : e'.aclKey ∈ a.deltaAdds :=
    HashMap.mem_iff_lookup.mpr ⟨e', a.adds_keyed.mem_values.mp he'⟩
  rw [List.mem_filter, Bool.and_eq_true, decide_eq_true_eq, decide_eq_true_eq] at he
  exact he.2.2 (heq ▸ hadded)

/-! ## Compaction -/

/-- The texts of the entries that the state holds. -/
def texts (a : ActiveState) : Finset String :=
  ((a.materializedEntries .given).flatMap DenyEntry.internedTexts).toFinset

/-- A compaction interns the texts of the state, whatever the order of the entries. -/
theorem textsOf_materializedEntries (ord : IterOrder) (a : ActiveState) :
    ImmutableBase.textsOf (a.materializedEntries ord) = a.texts := by
  have hlists := lists_materializedEntries ord a
  have hunique : UniqueKeys DenyEntry.aclKey (a.materializedEntries ord) :=
    fun _ he _ he' hk => hlists.unique he he' hk
  have hsort := sortBy_perm compareEntriesByKey (a.materializedEntries ord)
  ext text
  simp only [ImmutableBase.textsOf, texts, List.mem_toFinset, List.mem_flatMap,
    mem_dedup (hunique.perm hsort), hsort.mem_iff, hlists.mem,
    (lists_materializedEntries .given a).mem]

theorem Overlaid.texts_of_empty (h : a.Overlaid) (hadds : a.deltaAdds = ∅)
    (hremoves : a.deltaRemoves = ∅) : a.texts.card ≤ 2 ^ 32 := by
  obtain ⟨entries, hbase⟩ := h.base
  have hheld : ∀ e, e ∈ a.materializedEntries .given ↔
      e ∈ dedup (sortBy compareEntriesByKey entries) := fun e => by
    rw [(lists_materializedEntries .given a).mem, entryAt, hadds, hremoves, overlay_empty,
      ImmutableBase.find_eq_some, and_iff_left rfl,
      (ImmutableBase.materializedEntries_perm hbase).mem_iff]
  have htexts : a.texts = ImmutableBase.textsOf entries := by
    ext text
    simp only [texts, ImmutableBase.textsOf, List.mem_toFinset, List.mem_flatMap, hheld]
  rw [htexts]
  exact ImmutableBase.fromEntries_isOk_iff.mp ⟨_, hbase⟩

/-- No rule that the state holds is a deletion. -/
theorem Overlaid.materializedRules_live (h : a.Overlaid) (ord : IterOrder) :
    ∀ r ∈ a.materializedRules ord, r.action ≠ .delete := by
  intro r hr
  obtain ⟨rules, hrules⟩ := h.ruleBase
  rcases List.mem_append.mp hr with hr | hr
  · have hholds := CompiledRules.mem_allRules.mp (List.mem_filter.mp hr).1
    exact ((CompiledRules.holds_fromRules hrules).mp hholds).2
  · obtain ⟨key, hkey⟩ := HashMap.mem_values.mp hr
    exact h.live key r hkey

/-- The order of the iteration does not matter to how often a rule is materialized. -/
theorem Overlaid.materializedRules_perm (h : a.Overlaid) (ord ord' : IterOrder) :
    (a.materializedRules ord).Perm (a.materializedRules ord') := by
  obtain ⟨rules, hrules⟩ := h.ruleBase
  have hbase := (CompiledRules.allRules_fromRules ord hrules).trans
    (CompiledRules.allRules_fromRules ord' hrules).symm
  exact (hbase.filter _).append (HashMap.values_perm ord ord' _)

/-- A compaction returns exactly if the rules of the overlay have buckets and each text gets an
id. -/
theorem Overlaid.compactDeltaOverlay_isOk_iff (h : a.Overlaid) (ord : IterOrder) :
    (∃ a', a.compactDeltaOverlay ord = .ok a') ↔ a.Filed ∧ a.texts.card ≤ 2 ^ 32 := by
  constructor
  · rintro ⟨a', hc⟩
    rcases compactDeltaOverlay_cases hc with ⟨rfl, hadds, hremoves, hruleAdds, -⟩ |
      ⟨base, ruleBase, hbase, hrules, rfl⟩
    · refine ⟨fun key r hkey => ?_, h.texts_of_empty hadds hremoves⟩
      rw [hruleAdds, AList.lookup_empty] at hkey
      cases hkey
    · refine ⟨fun key r hkey => ?_, ?_⟩
      · rcases CompiledRules.fromRules_eq (a.materializedRules ord) with ⟨hbuckets, -⟩ | ⟨-, herr⟩
        · have hmem : r ∈ a.materializedRules ord :=
            List.mem_append_right _ (HashMap.mem_values.mpr ⟨key, hkey⟩)
          exact hbuckets r hmem (h.live key r hkey)
        · rw [hrules] at herr
          cases herr
      · rw [← textsOf_materializedEntries ord]
        exact ImmutableBase.fromEntries_isOk_iff.mp ⟨base, hbase⟩
  · rintro ⟨hfiled, htexts⟩
    rw [← textsOf_materializedEntries ord] at htexts
    obtain ⟨base, hbase⟩ := ImmutableBase.fromEntries_isOk_iff.mpr htexts
    unfold ActiveState.compactDeltaOverlay
    split
    · exact ⟨a, rfl⟩
    · rcases CompiledRules.fromRules_eq (a.materializedRules ord) with
        ⟨-, ruleBase, hrules⟩ | ⟨⟨r, hr, hbad⟩, -⟩
      · rw [hbase, hrules]
        exact ⟨_, rfl⟩
      · exact absurd (hfiled.materializedRules ord r hr) hbad

section Compacted

variable (h : a.Overlaid) (hc : a.compactDeltaOverlay ord = .ok a')

include hc in
theorem mem_materializedEntries_compact (ord₁ ord₂ : IterOrder) (e : DenyEntry) :
    e ∈ a'.materializedEntries ord₁ ↔ e ∈ a.materializedEntries ord₂ := by
  rw [(lists_materializedEntries ord₁ a').mem, (lists_materializedEntries ord₂ a).mem,
    compactDeltaOverlay_entryAt hc]

include hc in
theorem entriesLen_compact : a'.entriesLen = a.entriesLen := by
  have hnodup : (a.materializedEntries .given).Nodup :=
    (nodup_materializedEntries .given a).of_map _
  have hnodup' : (a'.materializedEntries .given).Nodup :=
    (nodup_materializedEntries .given a').of_map _
  rw [← materializedEntries_length .given, ← materializedEntries_length .given]
  exact ((List.perm_ext_iff_of_nodup hnodup' hnodup).mpr
    (mem_materializedEntries_compact hc .given .given)).length_eq

include hc in
theorem deltaEntriesLen_compact : a'.deltaEntriesLen = 0 := by
  rcases compactDeltaOverlay_cases hc with ⟨rfl, h1, h2, h3, h4⟩ | ⟨base, ruleBase, -, -, rfl⟩
  · simp [deltaEntriesLen, h1, h2, h3, h4]
  · simp [deltaEntriesLen, rebased]

include h hc in
/-- The rules are compiled anew, each as often as before. -/
theorem materializedRules_compact (ord₁ ord₂ : IterOrder) :
    (a'.materializedRules ord₁).Perm (a.materializedRules ord₂) := by
  rcases compactDeltaOverlay_cases hc with ⟨rfl, -⟩ | ⟨base, ruleBase, -, hrules, rfl⟩
  · exact h.materializedRules_perm ord₁ ord₂
  · have hall := CompiledRules.allRules_fromRules ord₁ hrules
    have hlive : (a.materializedRules ord).filter (fun r => r.action ≠ .delete) =
        a.materializedRules ord :=
      List.filter_eq_self.mpr fun r hr => decide_eq_true (h.materializedRules_live ord r hr)
    have hempty : (HashMap.values ord₁ (∅ : HashMap RuleKey RuleEntry)) = [] :=
      List.eq_nil_iff_forall_not_mem.mpr fun r hr => by
        obtain ⟨key, hkey⟩ := HashMap.mem_values.mp hr
        simp at hkey
    rw [hlive] at hall
    have hrebased : (a.rebased base ruleBase).materializedRules ord₁ = ruleBase.allRules ord₁ := by
      simp [materializedRules, rebased, hempty, AList.notMem_empty]
    rw [hrebased]
    exact hall.trans (h.materializedRules_perm ord ord₂)

end Compacted

/-- What the overlay says of itself is what a listing of the state says. -/
structure OverlayExact (a : ActiveState) : Prop where
  entries : ∀ key, ¬(key ∈ a.deltaAdds ∧ key ∈ a.deltaRemoves)
  rules : ∀ key, ¬(key ∈ a.deltaRuleAdds ∧ key ∈ a.deltaRuleRemoves)
  keys : ∀ ord, ((a.snapshot ord).entries.map DenyEntry.aclKey).Nodup
  count : ∀ ord, (a.snapshot ord).entries.length = a.entriesLen

/-- A compaction returns, and nothing but the size of the overlay has changed. -/
def CompactsExactly (a : ActiveState) : Prop :=
  ∀ ord, ∃ a', a.compactDeltaOverlay ord = .ok a' ∧
    (∀ ord₁ ord₂ e, e ∈ (a'.snapshot ord₁).entries ↔ e ∈ (a.snapshot ord₂).entries) ∧
    (∀ ord₁ ord₂, (a'.snapshot ord₁).rules.Perm (a.snapshot ord₂).rules) ∧
    a'.watermarks = a.watermarks ∧ a'.entriesLen = a.entriesLen ∧ a'.deltaEntriesLen = 0

end ActiveState

/-- In every state that a run reaches, the overlay keeps its books; and a compaction keeps all of
them exactly if the rules of the overlay have buckets and each text of the entries gets an id. -/
theorem overlay_exact_iff {a : ActiveState} (h : a.Reachable) :
    a.OverlayExact ∧ (a.CompactsExactly ↔ a.Filed ∧ a.texts.card ≤ 2 ^ 32) := by
  have hover := h.overlaid
  refine ⟨?_, fun hcompacts => ?_, fun hcond ord => ?_⟩
  · exact
      { entries := fun key hkey => hover.entries key hkey.1 hkey.2
        rules := fun key hkey => hover.rules key hkey.1 hkey.2
        keys := fun ord => ActiveState.nodup_materializedEntries ord a
        count := fun ord => ActiveState.materializedEntries_length ord a }
  · obtain ⟨a', hc, -⟩ := hcompacts .given
    exact (hover.compactDeltaOverlay_isOk_iff .given).mp ⟨a', hc⟩
  · obtain ⟨a', hc⟩ := (hover.compactDeltaOverlay_isOk_iff ord).mpr hcond
    exact ⟨a', hc, ActiveState.mem_materializedEntries_compact hc,
      ActiveState.materializedRules_compact hover hc, ActiveState.compactDeltaOverlay_watermarks hc,
      ActiveState.entriesLen_compact hc, ActiveState.deltaEntriesLen_compact hc⟩

open NetworkRules in
theorem overlay_exact_iff_networkRules : ∃ a₀ a, ActiveState.fromSnapshot (loaded 8) = .ok a₀ ∧
    a₀.applyMutation (changed 32) = .ok (.applied, a) ∧ a.OverlayExact ∧
    (a.CompactsExactly ↔ a.Filed ∧ a.texts.card ≤ 2 ^ 32) := by
  obtain ⟨a₀, hload⟩ : ∃ a₀, ActiveState.fromSnapshot (loaded 8) = .ok a₀ := ⟨_, rfl⟩
  obtain ⟨a, happly⟩ : ∃ a, a₀.applyMutation (changed 32) = .ok (.applied, a) := by
    cases hload
    exact ⟨_, rfl⟩
  exact ⟨a₀, a, hload, happly, overlay_exact_iff (.apply (.fromSnapshot hload) happly)⟩

open NetworkRules in
/-- A rule without a bucket is taken into the overlay, and the compaction panics. -/
theorem not_overlay_exact :
    ¬∀ a : ActiveState, a.Reachable → a.OverlayExact ∧ a.CompactsExactly := by
  intro h
  obtain ⟨a₀, hload⟩ : ∃ a₀, ActiveState.fromSnapshot (loaded 8) = .ok a₀ := ⟨_, rfl⟩
  obtain ⟨a, happly, hcompact⟩ : ∃ a, a₀.applyMutation (changed 33) = .ok (.applied, a) ∧
      a.compactDeltaOverlay .given = .error (.panicked "index out of bounds") := by
    cases hload
    exact ⟨_, rfl, rfl⟩
  obtain ⟨-, hexact⟩ := h a (.apply (.fromSnapshot hload) happly)
  obtain ⟨a', hreturns, -⟩ := hexact .given
  rw [hcompact] at hreturns
  cases hreturns

end Globacl
