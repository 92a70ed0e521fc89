import Globacl.Core.Loading
import Globacl.Edge.Exact
import Globacl.Edge.Faults

/-!
# Loading what an edge writes (`globacl-core/src/lib/active_state.rs`)

An edge writes its state as a snapshot and loads the snapshot after a restart. `apply_mutation` looks
at the shard of the commit id only. The record of the mutation names a shard of its own, which
`Snapshot::validate` checks when the snapshot of the state is loaded.

* `fromSnapshot_isOk_iff`: which snapshots are loaded.
* `ActiveState.Stores`: a property of what a state holds. `Stores.advance`,
  `Stores.compactDeltaOverlay`: a step keeps it if the new record has it.
* `fromSnapshot_snapshot`: a state that is written and loaded holds the same entries.
* `check_panics`, `exists_session_panics`: a rule without a bucket that is loaded or accepted makes the
  edge panic, in a check of its namespace and in a compaction.
-/

namespace Globacl

open Lib

/-! ## Which snapshots are loaded -/

namespace SymbolTable

variable {symbols symbols' : SymbolTable} {value : String} {id : Nat}

/-- Ids are `u32` numbers. -/
theorem intern_length (h : symbols.intern value = .ok (id, symbols'))
    (hlen : symbols.values.length ≤ 2 ^ 32) : symbols'.values.length ≤ 2 ^ 32 := by
  unfold intern at h
  split at h
  · cases h
    exact hlen
  · split at h
    · cases h
    · cases h
      rw [List.length_append, List.length_singleton]
      omega

end SymbolTable

theorem CompactDenyEntry.fromEntry_length {entry : DenyEntry} {symbols symbols' : SymbolTable}
    {c : CompactDenyEntry} (h : fromEntry entry symbols = .ok (c, symbols'))
    (hlen : symbols.values.length ≤ 2 ^ 32) : symbols'.values.length ≤ 2 ^ 32 := by
  simp only [fromEntry, bind_eq_ok] at h
  obtain ⟨_, h1, _, h2, _, h3, _, h4, h⟩ := h
  cases h
  have hlen₁ := SymbolTable.intern_length h1 hlen
  have hlen₂ := SymbolTable.intern_length h2 hlen₁
  have hlen₃ := SymbolTable.intern_length h3 hlen₂
  exact SymbolTable.intern_length h4 hlen₃

theorem compactEntries_length {entries : List DenyEntry} {symbols symbols' : SymbolTable}
    {cs : List CompactDenyEntry} (h : compactEntries entries symbols = .ok (cs, symbols'))
    (hlen : symbols.values.length ≤ 2 ^ 32) : symbols'.values.length ≤ 2 ^ 32 := by
  induction entries generalizing symbols cs with
  | nil =>
    cases h
    exact hlen
  | cons entry entries ih =>
    unfold compactEntries at h
    split at h
    · cases h
    · rename_i c symbols₁ hentry
      split at h
      · cases h
      · rename_i cs₁ symbols₂ hrest
        cases h
        exact ih hrest (CompactDenyEntry.fromEntry_length hentry hlen)

/-- The texts of an entry are in the table of its compact form. -/
theorem CompactDenyEntry.Encodes.mem_values {symbols : SymbolTable} {c : CompactDenyEntry}
    {e : DenyEntry} (h : c.Encodes symbols e) : ∀ text ∈ e.internedTexts, text ∈ symbols.values := by
  simp only [DenyEntry.internedTexts, List.forall_mem_cons]
  exact ⟨List.mem_of_getElem? h.tenantId, List.mem_of_getElem? h.ns,
    List.mem_of_getElem? h.reasonCode, List.mem_of_getElem? h.createdBy, by simp⟩

/-- A base can be built exactly if each text gets an id. -/
theorem ImmutableBase.fromEntries_isOk_iff {entries : List DenyEntry} :
    (∃ base, fromEntries entries = .ok base) ↔ (textsOf entries).card ≤ 2 ^ 32 := by
  refine ⟨?_, fromEntries_total⟩
  rintro ⟨base, h⟩
  unfold fromEntries at h
  split at h
  · cases h
  · rename_i cs symbols hcs
    obtain ⟨-, hencodes, hmap⟩ := compactEntries_ok hcs
    have hsub : textsOf entries ⊆ symbols.values.toFinset := by
      intro text htext
      obtain ⟨e, he, htext⟩ := List.mem_flatMap.mp (List.mem_toFinset.mp htext)
      rw [← hmap] at he
      obtain ⟨c, hc, rfl⟩ := List.mem_map.mp he
      obtain ⟨e, hce⟩ := hencodes c hc
      rw [hce.toDenyEntry] at htext
      exact List.mem_toFinset.mpr (hce.mem_values text htext)
    calc (textsOf entries).card ≤ symbols.values.toFinset.card := Finset.card_le_card hsub
      _ ≤ symbols.values.length := List.toFinset_card_le _
      _ ≤ 2 ^ 32 := compactEntries_length hcs (by decide)

/-- A snapshot passes its checks exactly if what it stores names shards that exist. -/
theorem Snapshot.validate_iff {s : Snapshot} :
    s.validate = .ok () ↔ s.watermarks.length = s.shardCount ∧
      (∀ e ∈ s.entries, e.shardId < s.shardCount) ∧ ∀ r ∈ s.rules, r.shardId < s.shardCount := by
  refine ⟨fun h => ?_, fun h => Snapshot.validate_of_shards h.1 h.2.1 h.2.2⟩
  have hlen := Snapshot.validate_ok h
  unfold Snapshot.validate at h
  rw [if_neg (not_not.mpr hlen)] at h
  obtain ⟨_, he, h⟩ := bind_eq_ok.mp h
  obtain ⟨_, hr, -⟩ := bind_eq_ok.mp h
  -- a check either goes on or reports the record
  refine ⟨hlen, fun e hmem => ?_, fun r hmem => ?_⟩
  · by_contra hge
    have := passes_of_forIn_checks (fun e r h => ?_) he e hmem
    · rw [if_pos (Nat.not_lt.mp hge)] at this
      cases this
    · split at h <;> cases h
      rfl
  · by_contra hge
    have := passes_of_forIn_checks (fun e r h => ?_) hr r hmem
    · rw [if_pos (Nat.not_lt.mp hge)] at this
      cases this
    · split at h <;> cases h
      rfl

/-- The records of the snapshot name shards that exist, each rule has a bucket, and each text gets
an id. -/
structure Snapshot.Loadable (s : Snapshot) : Prop where
  watermarks : s.watermarks.length = s.shardCount
  entries : ∀ e ∈ s.entries, e.shardId < s.shardCount
  rules : ∀ r ∈ s.rules, r.shardId < s.shardCount ∧ r.HasBucket
  texts : (ImmutableBase.textsOf s.entries).card ≤ 2 ^ 32

namespace ActiveState

/-- Exactly these snapshots are loaded. -/
theorem fromSnapshot_isOk_iff {snapshot : Snapshot} :
    (∃ a, fromSnapshot snapshot = .ok a) ↔ snapshot.Loadable := by
  constructor
  · rintro ⟨a, h⟩
    obtain ⟨hv, hbase, hrules, -⟩ := fromSnapshot_builds h
    obtain ⟨hlen, he, hr⟩ := Snapshot.validate_iff.mp hv
    refine ⟨hlen, he, fun r hmem => ⟨hr r hmem, ?_⟩, ImmutableBase.fromEntries_isOk_iff.mp ⟨_, hbase⟩⟩
    rcases CompiledRules.fromRules_eq snapshot.rules with ⟨hbuckets, -⟩ | ⟨-, herr⟩
    · exact hbuckets r hmem
    · rw [hrules] at herr
      cases herr
  · intro h
    have hv := Snapshot.validate_iff.mpr ⟨h.watermarks, h.entries, fun r hr => (h.rules r hr).1⟩
    obtain ⟨base, hbase⟩ := ImmutableBase.fromEntries_isOk_iff.mpr h.texts
    rcases CompiledRules.fromRules_eq snapshot.rules with ⟨-, c, hrules⟩ | ⟨⟨r, hr, hbad⟩, -⟩
    · unfold fromSnapshot
      split
      · rename_i err herr
        rw [hv] at herr
        cases herr
      · rw [hbase, hrules]
        exact ⟨_, rfl⟩
    · exact absurd (h.rules r hr).2 hbad

end ActiveState

/-! ## What a state stores -/

section Stores

variable (p : DenyEntry → Prop) (q : RuleEntry → Prop)

/-- Every entry that the state holds, and every rule of its base and of its overlay. -/
structure ActiveState.Stores (a : ActiveState) : Prop where
  entries : ∀ key e, a.entryAt key = some e → p e
  rules : ∀ r, a.ruleBase.Holds r → q r
  ruleAdds : ∀ key r, a.deltaRuleAdds.lookup key = some r → q r

/-- The record of a mutation, if it is one that the overlay keeps. -/
def Mutation.Stores (m : Mutation) : Prop :=
  match m.rule with
  | some rule => rule.action ≠ .delete → q rule
  | none => m.entry.action ≠ .delete → p m.entry

end Stores

namespace ActiveState

variable {p : DenyEntry → Prop} {q : RuleEntry → Prop} {a a' : ActiveState} {ord : IterOrder}

theorem Stores.mono {p' : DenyEntry → Prop} {q' : RuleEntry → Prop} (h : a.Stores p q)
    (hp : ∀ e, p e → p' e) (hq : ∀ r, q r → q' r) : a.Stores p' q' :=
  ⟨fun key e he => hp e (h.entries key e he), fun r hr => hq r (h.rules r hr),
    fun key r hr => hq r (h.ruleAdds key r hr)⟩

/-- A state that is built from records stores no others. -/
theorem Stores.of_fromSnapshot {s : Snapshot} (h : fromSnapshot s = .ok a)
    (hp : ∀ e ∈ s.entries, p e) (hq : ∀ r ∈ s.rules, r.HasBucket → q r) : a.Stores p q := by
  obtain ⟨-, -, hrules, -, -, -, -, hadds, -⟩ := fromSnapshot_builds h
  refine ⟨fun key e he => ?_, fun r hr => ?_, fun key r hr => ?_⟩
  · have hmem := (((fromSnapshot_holds h).1 key e).mp he).mem
    exact hp e (List.mem_filter.mp hmem).1
  · have hmem := ((CompiledRules.holds_fromRules hrules).mp hr).1
    refine hq r hmem fun _ hk => UInt8.le_iff_toNat_le.mpr ?_
    exact Nat.lt_succ_iff.mp (hr.prefixLen_lt hk)
  · rw [hadds] at hr
    simp at hr

/-- An applied mutation stores its record. -/
theorem Stores.advance (h : a.Stores p q) {m : Mutation} (hm : m.Stores p q) :
    (a.advance m).Stores p q := by
  refine ⟨fun key e he => ?_, fun r hr => ?_, fun key r hr => ?_⟩
  · rw [entryAt_advance] at he
    unfold Mutation.Stores at hm
    cases hrule : m.rule with
    | some rule =>
      simp only [writeAt, Mutation.entryWrite, hrule, Option.isSome_some, if_true] at he
      exact h.entries key e he
    | none =>
      simp only [writeAt, Mutation.entryWrite, hrule, Option.isSome_none, Bool.false_eq_true,
        if_false] at he hm
      by_cases hkey : key = m.entry.aclKey
      · by_cases hact : m.entry.action = .delete
        · simp [hkey, hact] at he
        · rw [if_pos hkey, if_neg hact] at he
          cases he
          exact hm hact
      · rw [if_neg hkey] at he
        exact h.entries key e he
  · rw [advance_ruleBase] at hr
    exact h.rules r hr
  · unfold Mutation.Stores at hm
    unfold ActiveState.advance setWatermark at hr
    cases hrule : m.rule with
    | none =>
      simp only [hrule, applyEntry] at hr
      split at hr <;> exact h.ruleAdds key r hr
    | some rule =>
      rw [hrule] at hm
      simp only [hrule, applyRule] at hr
      split at hr
      · rw [HashMap.lookup_erase_eq] at hr
        split at hr
        · cases hr
        · exact h.ruleAdds key r hr
      all_goals
        rename_i hact
        rw [HashMap.lookup_insert_eq] at hr
        split at hr
        · cases hr
          exact hm (by rw [hact]; decide)
        · exact h.ruleAdds key r hr

/-- The records that are written. -/
theorem Stores.snapshot (h : a.Stores p q) (ord : IterOrder) :
    (∀ e ∈ (a.snapshot ord).entries, p e) ∧ ∀ r ∈ (a.snapshot ord).rules, q r := by
  refine ⟨fun e he => ?_, fun r hr => ?_⟩
  · have hlook := ((lists_materializedEntries ord a).mem e).mp he
    exact h.entries _ e hlook
  · rcases List.mem_append.mp hr with hr | hr
    · exact h.rules r (CompiledRules.mem_allRules.mp (List.mem_filter.mp hr).1)
    · obtain ⟨key, hkey⟩ := HashMap.mem_values.mp hr
      exact h.ruleAdds key r hkey

/-- A compaction keeps the entries under their keys. -/
theorem compactDeltaOverlay_entryAt (h : a.compactDeltaOverlay ord = .ok a') (key : AclKey) :
    a'.entryAt key = a.entryAt key := by
  rcases compactDeltaOverlay_cases h with ⟨rfl, -⟩ | ⟨base, ruleBase, hbase, -, rfl⟩
  · rfl
  · rw [rebased, entryAt, overlay_empty]
    exact ImmutableBase.find_fromEntries hbase (lists_materializedEntries ord a) key

/-- A compaction stores what was stored. -/
theorem Stores.compactDeltaOverlay (h : a.Stores p q) (hc : a.compactDeltaOverlay ord = .ok a') :
    a'.Stores p q := by
  have hentries : ∀ key e, a'.entryAt key = some e → p e := fun key e he => by
    rw [compactDeltaOverlay_entryAt hc] at he
    exact h.entries key e he
  rcases compactDeltaOverlay_cases hc with ⟨rfl, -⟩ | ⟨base, ruleBase, -, hrules, rfl⟩
  · exact h
  · refine ⟨hentries, fun r hr => ?_, fun key r hr => by simp [rebased] at hr⟩
    exact (h.snapshot ord).2 r ((CompiledRules.holds_fromRules hrules).mp hr).1

/-! ## What is written -/

/-- A state whose records name its shards writes a snapshot that is loaded, if its texts get ids. -/
theorem Stores.loadable (h : a.Stores (fun e => e.shardId < a.shardCount)
      fun r => r.shardId < a.shardCount ∧ r.HasBucket)
    (htexts : (ImmutableBase.textsOf (a.materializedEntries ord)).card ≤ 2 ^ 32) :
    (a.snapshot ord).Loadable :=
  ⟨a.watermarks_length, (h.snapshot ord).1, (h.snapshot ord).2, htexts⟩

/-- A state that is written and loaded has the watermarks and the entries that it had. -/
theorem fromSnapshot_snapshot (h : fromSnapshot (a.snapshot ord) = .ok a') :
    a'.watermarks = a.watermarks ∧ ∀ key, a'.entryAt key = a.entryAt key := by
  obtain ⟨-, hbase, -, -, hw, hadds, hremoves, -⟩ := fromSnapshot_builds h
  refine ⟨hw, fun key => ?_⟩
  rw [entryAt, hadds, hremoves, overlay_empty]
  exact ImmutableBase.find_fromEntries hbase (lists_materializedEntries ord a) key

end ActiveState

/-! ## Rules without a bucket -/

namespace Checked

theorem maskIpv4_eq_error {prefixLen : UInt8} (h : ¬prefixLen ≤ 32) (value : UInt32) :
    maskIpv4 value prefixLen = .error subtractOverflow := by
  have hlt : ¬prefixLen.toNat ≤ 32 := fun hle => h (UInt8.le_iff_toNat_le.mpr hle)
  unfold maskIpv4
  rw [if_neg fun h0 => h (by rw [h0]; decide), subtract, if_neg hlt]
  rfl

/-- A rule is compared, or its prefix length is too large. -/
theorem ruleMatchesNamespace_cases (rule : RuleEntry) (namespace' rawValue : String) :
    (∃ b, ruleMatchesNamespace rule namespace' rawValue = .ok b) ∨
      ruleMatchesNamespace rule namespace' rawValue = .error subtractOverflow := by
  by_cases hbucket : rule.kind = .ipv4Cidr → rule.ipv4PrefixLen ≤ 32
  · exact Or.inl ⟨_, ruleMatchesNamespace_eq hbucket namespace' rawValue⟩
  obtain ⟨hk, hprefix⟩ := Classical.not_imp.mp hbucket
  unfold ruleMatchesNamespace
  by_cases hns : ruleKindForNamespace namespace' ≠ some rule.kind
  · exact Or.inl ⟨false, if_pos hns⟩
  · rw [if_neg hns, hk]
    dsimp only
    rw [caught_parseIpv4Addr, ok_bind]
    cases Globacl.parseIpv4Addr rawValue with
    | error err => exact Or.inl ⟨false, rfl⟩
    | ok ip =>
      refine Or.inr ?_
      dsimp only [Except.toOption]
      rw [maskIpv4_eq_error hprefix]
      rfl

/-- A loop that has but one error, and comes to an element that gives it, ends with it. -/
theorem foldlM_eq_error {σ α : Type} {f : σ → α → Result σ} {err : GlobAclError} {l : List α}
    (hl : ∀ s, ∀ a ∈ l, (∃ s', f s a = .ok s') ∨ f s a = .error err)
    (hbad : ∃ a ∈ l, ∀ s, f s a = .error err) (s : σ) : l.foldlM f s = .error err := by
  induction l generalizing s with
  | nil =>
    obtain ⟨_, ha, -⟩ := hbad
    cases ha
  | cons a l ih =>
    rw [List.foldlM_cons]
    rcases hl s a List.mem_cons_self with ⟨s', hs'⟩ | herr
    · rw [hs', ok_bind]
      obtain ⟨a', ha', hbad⟩ := hbad
      rcases List.mem_cons.mp ha' with rfl | ha'
      · rw [hbad] at hs'
        cases hs'
      · exact ih (fun s b hb => hl s b (List.mem_cons_of_mem _ hb)) ⟨a', ha', hbad⟩ s'
    · rw [herr]
      rfl

end Checked

section Panics

variable {a : ActiveState} {ord : IterOrder} {key : RuleKey} {r : RuleEntry}

/-- A rule without a bucket in the overlay: each check of an address of its tenant panics that no
entry answers. -/
theorem check_panics (hr : a.deltaRuleAdds.lookup key = some r) (hbad : ¬r.HasBucket)
    {namespace' value : String} {ip : UInt32} {nowUnix : Nat}
    (hns : ruleKindForNamespace namespace' = some .ipv4Cidr) (hip : parseIpv4Addr value = .ok ip)
    (hpoint : (a.lookup r.tenantId namespace' value nowUnix).isDenied = false) :
    Checked.check ord a r.tenantId namespace' value nowUnix = .error subtractOverflow := by
  obtain ⟨-, hbad⟩ := Classical.not_imp.mp hbad
  obtain ⟨hk, hprefix⟩ := Classical.not_imp.mp hbad
  have hmatch : Checked.ruleMatchesNamespace r namespace' value = .error subtractOverflow := by
    unfold Checked.ruleMatchesNamespace
    rw [if_neg (not_not.mpr (hns.trans (congrArg some hk.symm))), hk]
    dsimp only
    rw [Checked.caught_parseIpv4Addr, hip, ok_bind]
    dsimp only [Except.toOption]
    rw [Checked.maskIpv4_eq_error hprefix]
    rfl
  have hstep : ∀ best, ∀ rule ∈ a.deltaRuleAdds.values ord,
      (∃ best', Checked.considerDeltaRule r.tenantId namespace' value nowUnix best rule = .ok best') ∨
        Checked.considerDeltaRule r.tenantId namespace' value nowUnix best rule =
          .error subtractOverflow := by
    intro best rule _
    unfold Checked.considerDeltaRule
    split
    · rcases Checked.ruleMatchesNamespace_cases rule namespace' value with ⟨b, hb⟩ | herr
      · rw [hb, ok_bind]
        cases b
        · exact Or.inl ⟨best, rfl⟩
        · exact Or.inl ⟨_, rfl⟩
      · rw [herr]
        exact Or.inr rfl
    · exact Or.inl ⟨best, rfl⟩
  have hdelta : (a.deltaRuleAdds.values ord).foldlM
      (Checked.considerDeltaRule r.tenantId namespace' value nowUnix) none =
        .error subtractOverflow := by
    refine Checked.foldlM_eq_error hstep ⟨r, HashMap.mem_values.mpr ⟨key, hr⟩, fun best => ?_⟩ none
    unfold Checked.considerDeltaRule
    rw [if_pos rfl, hmatch]
    rfl
  unfold Checked.check
  rw [Checked.lookup_eq, ok_bind, hpoint, hdelta]
  rfl

/-- A rule without a bucket in the overlay: a compaction panics, if the texts get ids. -/
theorem compactDeltaOverlay_panics (hr : a.deltaRuleAdds.lookup key = some r) (hbad : ¬r.HasBucket)
    (htexts : (ImmutableBase.textsOf (a.materializedEntries ord)).card ≤ 2 ^ 32) :
    Checked.compactDeltaOverlay ord a = .error indexOutOfBounds := by
  have hmem : r ∈ a.deltaRuleAdds.values ord := HashMap.mem_values.mpr ⟨key, hr⟩
  have hnonempty : a.deltaRuleAdds.entries.isEmpty = false := by
    have hentry := AList.mem_lookup_iff.mp hr
    rw [List.isEmpty_eq_false_iff_exists_mem]
    exact ⟨_, hentry⟩
  obtain ⟨base, hbase⟩ := ImmutableBase.fromEntries_isOk_iff.mpr htexts
  rw [Checked.compactDeltaOverlay_eq]
  unfold ActiveState.compactDeltaOverlay
  rw [if_neg (by simp [hnonempty]), hbase, ok_bind]
  rcases CompiledRules.fromRules_eq (a.materializedRules ord) with ⟨hall, -⟩ | ⟨-, herr⟩
  · exact absurd (hall r (List.mem_append_right _ hmem)) hbad
  · rw [herr]
    rfl

/-- An applied rule is in the overlay, if it is not a deletion. -/
theorem ActiveState.lookup_advance {m : Mutation} (hr : m.rule = some r) (hact : r.action ≠ .delete) :
    (a.advance m).deltaRuleAdds.lookup r.ruleKey = some r := by
  unfold ActiveState.advance setWatermark
  simp only [hr, applyRule]
  split
  · exact absurd ‹_› hact
  · exact AList.lookup_insert _
  · exact AList.lookup_insert _

/-- From a state that stores some of the entries, an accepted rule without a bucket makes a compaction
panic. -/
theorem exists_run_panics (ord : IterOrder) {entries : List DenyEntry}
    (htexts : ((entries.flatMap DenyEntry.internedTexts).toFinset).card ≤ 2 ^ 32)
    {mutations : List Mutation} (hentries : ∀ m ∈ mutations, m.entry ∈ entries)
    (h : a.Stores (· ∈ entries) fun _ => True)
    (hbad : ∃ m ∈ accepted a.watermarks mutations, ∃ r ∈ m.rule, ¬r.HasBucket) :
    ∃ calls : List Call, calls.filterMap Call.mutation = mutations ∧
      calls.foldlM (Call.run ord) a = .error indexOutOfBounds := by
  induction mutations generalizing a with
  | nil =>
    obtain ⟨m, hm, -⟩ := hbad
    cases hm
  | cons m mutations ih =>
    obtain ⟨hentry, hentries⟩ := List.forall_mem_cons.mp hentries
    have hkept : (a.advance m).Stores (· ∈ entries) fun _ => True := by
      refine h.advance ?_
      unfold Mutation.Stores
      split
      · exact fun _ => trivial
      · exact fun _ => hentry
    -- the call that delivers the mutation, and then calls that panic
    have hcons : ∀ a', Call.run ord a (.applyMutation m) = .ok a' →
        (∃ calls : List Call, calls.filterMap Call.mutation = mutations ∧
          calls.foldlM (Call.run ord) a' = .error indexOutOfBounds) →
        ∃ calls : List Call, calls.filterMap Call.mutation = m :: mutations ∧
          calls.foldlM (Call.run ord) a = .error indexOutOfBounds := by
      rintro a' ha' ⟨calls, hcalls, hrun⟩
      refine ⟨.applyMutation m :: calls, congrArg (m :: ·) hcalls, ?_⟩
      rw [List.foldlM_cons, ha']
      exact hrun
    unfold accepted at hbad
    by_cases hnext : m.shard < a.watermarks.length ∧ m.seq = a.watermarks.getD m.shard 0 + 1
    · have hrun : Call.run ord a (.applyMutation m) = .ok (a.advance m) := by
        have hwatermark : a.watermark m.shard = a.watermarks.getD m.shard 0 := rfl
        simp only [Call.run, Checked.applyMutation_eq, ActiveState.applyMutation, hwatermark]
        rw [a.watermarks_length] at hnext
        rw [if_neg (by omega), if_neg (by omega), if_neg (by omega)]
        rfl
      rw [if_pos hnext] at hbad
      refine hcons _ hrun ?_
      by_cases hrule : ∃ r ∈ m.rule, ¬r.HasBucket
      · obtain ⟨r, hr, hbucket⟩ := hrule
        refine ⟨.compactDeltaOverlay :: mutations.map .applyMutation, ?_, ?_⟩
        · simp only [List.filterMap_cons, Call.mutation, List.filterMap_map]
          exact List.filterMap_some
        · have hlook := ActiveState.lookup_advance (a := a) hr (Classical.not_imp.mp hbucket).1
          rw [List.foldlM_cons, Call.run, compactDeltaOverlay_panics hlook hbucket ?_]
          · rfl
          · refine (Finset.card_le_card ((ImmutableBase.textsOf_subset _).trans ?_)).trans htexts
            intro text htext
            obtain ⟨e, he, htext⟩ := List.mem_flatMap.mp (List.mem_toFinset.mp htext)
            exact List.mem_toFinset.mpr
              (List.mem_flatMap.mpr ⟨e, (hkept.snapshot ord).1 e he, htext⟩)
      · refine ih hentries hkept ?_
        obtain ⟨m', hm', hbad⟩ := hbad
        rcases List.mem_cons.mp hm' with rfl | hm'
        · exact absurd hbad hrule
        · rw [ActiveState.advance_watermarks]
          exact ⟨m', hm', hbad⟩
    · rw [if_neg hnext] at hbad
      refine hcons a ?_ (ih hentries h hbad)
      have hwatermark : a.watermark m.shard = a.watermarks.getD m.shard 0 := rfl
      simp only [Call.run, Checked.applyMutation_eq, ActiveState.applyMutation, hwatermark]
      rw [a.watermarks_length] at hnext
      split
      · rfl
      · split
        · rfl
        · rw [if_pos (by omega)]
          rfl

/-- A rule without a bucket, loaded or accepted, makes some session of the mutations panic. -/
theorem exists_session_panics (ord : IterOrder) {snapshot : Snapshot} {mutations : List Mutation}
    (hv : snapshot.validate = .ok ())
    (htexts : (((snapshot.entries ++ mutations.map Mutation.entry).flatMap
      DenyEntry.internedTexts).toFinset).card ≤ 2 ^ 32)
    (hbad : ¬((∀ r ∈ snapshot.rules, r.HasBucket) ∧
      ∀ m ∈ accepted snapshot.watermarks mutations, ∀ r ∈ m.rule, r.HasBucket)) :
    ∃ calls : List Call, calls.filterMap Call.mutation = mutations ∧
      session ord snapshot calls = .error indexOutOfBounds := by
  have hbase : (ImmutableBase.textsOf snapshot.entries).card ≤ 2 ^ 32 := by
    refine (Finset.card_le_card ((ImmutableBase.textsOf_subset _).trans fun text htext => ?_)).trans
      htexts
    obtain ⟨e, he, htext⟩ := List.mem_flatMap.mp (List.mem_toFinset.mp htext)
    exact List.mem_toFinset.mpr (List.mem_flatMap.mpr ⟨e, List.mem_append_left _ he, htext⟩)
  by_cases hrules : ∀ r ∈ snapshot.rules, r.HasBucket
  · obtain ⟨hlen, hentries, hshards⟩ := Snapshot.validate_iff.mp hv
    obtain ⟨a, ha⟩ := ActiveState.fromSnapshot_isOk_iff.mpr
      ⟨hlen, hentries, fun r hr => ⟨hshards r hr, hrules r hr⟩, hbase⟩
    have haccepted : ∃ m ∈ accepted a.watermarks mutations, ∃ r ∈ m.rule, ¬r.HasBucket := by
      obtain ⟨-, -, -, -, hw, -⟩ := ActiveState.fromSnapshot_builds ha
      rw [hw]
      by_contra hnone
      refine hbad ⟨hrules, fun m hm r hr => ?_⟩
      by_contra hbucket
      exact hnone ⟨m, hm, r, hr, hbucket⟩
    obtain ⟨calls, hcalls, hrun⟩ := exists_run_panics ord htexts
      (fun m hm => List.mem_append_right _ (List.mem_map_of_mem hm))
      (.of_fromSnapshot ha (fun e he => List.mem_append_left _ he) fun _ _ _ => trivial) haccepted
    refine ⟨calls, hcalls, ?_⟩
    unfold session
    rw [Checked.fromSnapshot_eq, ha]
    exact hrun
  · refine ⟨mutations.map .applyMutation, ?_, ?_⟩
    · rw [List.filterMap_map]
      exact List.filterMap_some
    · obtain ⟨base, hbase⟩ := ImmutableBase.fromEntries_isOk_iff.mpr hbase
      unfold session Checked.fromSnapshot
      rw [hv, ok_bind, Checked.fromEntries_eq, hbase, ok_bind]
      rcases CompiledRules.fromRules_eq snapshot.rules with ⟨hall, -⟩ | ⟨-, herr⟩
      · exact absurd hall hrules
      · rw [herr]
        rfl

end Panics

end Globacl
