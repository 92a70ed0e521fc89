import Globacl.Core.Rules
import Globacl.Lib.HashMap
import Globacl.Lib.Runs
import Mathlib.Data.List.Perm.Basic

/-!
# Compiled rules (`globacl-core/src/lib/active_state.rs`)

The rules of a snapshot, filed in buckets: an IPv4 rule under its prefix length, tenant and
network, a domain rule under its tenant and suffix. A query reads only the buckets that its value
can fall into.

* `mem_candidates`: the buckets that a query reads hold exactly the rules that match it.
* `considerMatches_eq`: a query keeps the best of these rules that is not removed.
* `holds_fromRules`: the compiled rules are the given ones that are not deletions.
* `fromRules_eq`: compiling goes through unless a prefix length is out of bounds.
-/

namespace Globacl

open Lib

/-! ## Buckets -/

/-- The rules of a bucket; a missing bucket has none. -/
def bucket {κ : Type} [DecidableEq κ] (m : HashMap κ (List RuleEntry)) (key : κ) :
    List RuleEntry := (m.lookup key).getD []

/-- `m.entry(key).or_default().push(rule)`. -/
def pushBucket {κ : Type} [DecidableEq κ] (m : HashMap κ (List RuleEntry)) (key : κ)
    (rule : RuleEntry) : HashMap κ (List RuleEntry) := m.insert key (bucket m key ++ [rule])

theorem bucket_pushBucket {κ : Type} [DecidableEq κ] (m : HashMap κ (List RuleEntry)) (key : κ)
    (rule : RuleEntry) (key' : κ) :
    bucket (pushBucket m key rule) key' =
      if key' = key then bucket m key ++ [rule] else bucket m key' := by
  unfold bucket pushBucket
  rw [HashMap.lookup_insert_eq]
  split <;> rfl

theorem bucket_mapValues {κ : Type} [DecidableEq κ] (m : HashMap κ (List RuleEntry)) (key : κ) :
    (bucket (m.mapValues (sortBy compareRulesForMatch)) key).Perm (bucket m key) := by
  unfold bucket
  rw [HashMap.lookup_mapValues]
  cases m.lookup key with
  | none => exact .refl _
  | some l => exact sortBy_perm _ l

/-- The IPv4 bucket of a prefix length, a tenant and a network. -/
def ipv4Bucket (byPrefix : List (HashMap (String × UInt32) (List RuleEntry))) (prefixLen : Nat)
    (key : String × UInt32) : List RuleEntry := bucket (byPrefix.getD prefixLen ∅) key

theorem ipv4Bucket_of_empty {byPrefix : List (HashMap (String × UInt32) (List RuleEntry))}
    {prefixLen : Nat} (h : byPrefix.getD prefixLen ∅ = ∅) (key : String × UInt32) :
    ipv4Bucket byPrefix prefixLen key = [] := by
  rw [ipv4Bucket, h, bucket, AList.lookup_empty, Option.getD_none]

theorem ipv4Bucket_replicate (prefixLen : Nat) (key : String × UInt32) :
    ipv4Bucket (List.replicate 33 ∅) prefixLen key = [] := by
  apply ipv4Bucket_of_empty
  rw [List.getD_eq_getElem?_getD, List.getElem?_replicate]
  split <;> rfl

structure CompiledRules where
  ipv4ByPrefix : List (HashMap (String × UInt32) (List RuleEntry))
  domainSuffixes : HashMap (String × String) (List RuleEntry)
  /-- There is a map for each prefix length. -/
  prefixes : ipv4ByPrefix.length = 33
  ipv4_filed : ∀ prefixLen key, ∀ rule ∈ ipv4Bucket ipv4ByPrefix prefixLen key,
    rule.kind = .ipv4Cidr ∧ rule.ipv4PrefixLen.toNat = prefixLen ∧
      (rule.tenantId, rule.ipv4Network) = key
  domain_filed : ∀ key, ∀ rule ∈ bucket domainSuffixes key,
    rule.kind = .domainSuffix ∧ (rule.tenantId, rule.domainSuffix) = key

/-- The rule has a bucket: the prefix length of an IPv4 rule is at most `32`. A deletion needs none. -/
def RuleEntry.HasBucket (r : RuleEntry) : Prop :=
  r.action ≠ .delete → r.kind = .ipv4Cidr → r.ipv4PrefixLen ≤ 32

instance (r : RuleEntry) : Decidable r.HasBucket :=
  inferInstanceAs (Decidable (r.action ≠ .delete → r.kind = .ipv4Cidr → r.ipv4PrefixLen ≤ 32))

namespace CompiledRules

/-- The buckets of `from_rules` before the first rule. -/
def empty : CompiledRules where
  ipv4ByPrefix := List.replicate 33 ∅
  domainSuffixes := ∅
  prefixes := List.length_replicate
  ipv4_filed := fun prefixLen key rule h => by rw [ipv4Bucket_replicate] at h; cases h
  domain_filed := fun key rule h => by simp [bucket] at h

theorem ipv4Bucket_set {byPrefix : List (HashMap (String × UInt32) (List RuleEntry))} {i : Nat}
    (hi : i < byPrefix.length) (key : String × UInt32) (rule : RuleEntry) (prefixLen : Nat)
    (key' : String × UInt32) :
    ipv4Bucket (byPrefix.set i (pushBucket (byPrefix.getD i ∅) key rule)) prefixLen key' =
      if prefixLen = i ∧ key' = key then ipv4Bucket byPrefix i key ++ [rule]
      else ipv4Bucket byPrefix prefixLen key' := by
  unfold ipv4Bucket
  by_cases hp : prefixLen = i
  · subst hp
    simp only [List.getD_eq_getElem?_getD, List.getElem?_set_self hi, Option.getD_some,
      bucket_pushBucket, true_and]
  · simp only [List.getD_eq_getElem?_getD, List.getElem?_set_ne (Ne.symm hp), hp, false_and,
      if_false]

/-- A step of the loop of `from_rules` that files a rule. A prefix length above `32` is out of
bounds. -/
def addRule (c : CompiledRules) (rule : RuleEntry) : Result CompiledRules :=
  if rule.action = .delete then .ok c
  else
    match hk : rule.kind with
    | .ipv4Cidr =>
      if hi : rule.ipv4PrefixLen.toNat < c.ipv4ByPrefix.length then
        .ok { c with
          ipv4ByPrefix := c.ipv4ByPrefix.set rule.ipv4PrefixLen.toNat
            (pushBucket (c.ipv4ByPrefix.getD rule.ipv4PrefixLen.toNat ∅)
              (rule.tenantId, rule.ipv4Network) rule)
          prefixes := by rw [List.length_set]; exact c.prefixes
          ipv4_filed := fun prefixLen key r hr => by
            rw [ipv4Bucket_set hi] at hr
            split at hr
            · rename_i heq
              obtain ⟨rfl, rfl⟩ := heq
              rcases List.mem_append.mp hr with hr | hr
              · exact c.ipv4_filed _ _ r hr
              · rw [List.mem_singleton.mp hr]
                exact ⟨hk, rfl, rfl⟩
            · exact c.ipv4_filed _ _ r hr }
      else .error (.panicked "index out of bounds")
    | .domainSuffix =>
      .ok { c with
        domainSuffixes := pushBucket c.domainSuffixes (rule.tenantId, rule.domainSuffix) rule
        domain_filed := fun key r hr => by
          rw [bucket_pushBucket] at hr
          split at hr
          · rename_i heq
            subst heq
            rcases List.mem_append.mp hr with hr | hr
            · exact c.domain_filed _ r hr
            · rw [List.mem_singleton.mp hr]
              exact ⟨hk, rfl⟩
          · exact c.domain_filed _ r hr }

theorem ipv4Bucket_sorted (byPrefix : List (HashMap (String × UInt32) (List RuleEntry)))
    (prefixLen : Nat) (key : String × UInt32) :
    (ipv4Bucket (byPrefix.map (HashMap.mapValues (sortBy compareRulesForMatch))) prefixLen key).Perm
      (ipv4Bucket byPrefix prefixLen key) := by
  unfold ipv4Bucket
  rw [List.getD_eq_getElem?_getD, List.getElem?_map, List.getD_eq_getElem?_getD]
  cases byPrefix[prefixLen]? with
  | none => exact .refl _
  | some m => exact bucket_mapValues m key

/-- The loops of `from_rules` that sort the buckets. -/
def sortBuckets (c : CompiledRules) : CompiledRules where
  ipv4ByPrefix := c.ipv4ByPrefix.map (HashMap.mapValues (sortBy compareRulesForMatch))
  domainSuffixes := c.domainSuffixes.mapValues (sortBy compareRulesForMatch)
  prefixes := by rw [List.length_map]; exact c.prefixes
  ipv4_filed := fun prefixLen key r hr =>
    c.ipv4_filed prefixLen key r ((ipv4Bucket_sorted _ prefixLen key).mem_iff.mp hr)
  domain_filed := fun key r hr => c.domain_filed key r ((bucket_mapValues _ key).mem_iff.mp hr)

/-- `CompiledRules::from_rules`. -/
def fromRules (rules : List RuleEntry) : Result CompiledRules := do
  let compiled ← rules.foldlM addRule empty
  pure compiled.sortBuckets

/-- `all_rules`. -/
def allRules (ord : IterOrder) (c : CompiledRules) : List RuleEntry :=
  (c.ipv4ByPrefix.flatMap fun prefixBucket => (prefixBucket.values ord).flatten) ++
    (c.domainSuffixes.values ord).flatten

/-- The loop of `consider_matches` over one bucket. -/
def considerBucket (removed : HashMap RuleKey Nat) (nowUnix : Nat) (best : RuleMatch)
    (rules : List RuleEntry) : RuleMatch :=
  rules.foldl
    (fun best rule =>
      if rule.ruleKey ∉ removed then RuleMatch.consider nowUnix best rule else best)
    best

/-- `consider_matches`. -/
def considerMatches (c : CompiledRules) (tenantId namespace' rawValue : String) (nowUnix : Nat)
    (removed : HashMap RuleKey Nat) (best : RuleMatch) : RuleMatch :=
  match ruleKindForNamespace namespace' with
  | some .ipv4Cidr =>
    match parseIpv4Addr rawValue with
    | .ok ip =>
      (List.range 33).reverse.foldl
        (fun best prefixLen =>
          considerBucket removed nowUnix best
            (ipv4Bucket c.ipv4ByPrefix prefixLen (tenantId, maskIpv4 ip prefixLen.toUInt8)))
        best
    | .error _ => best
  | some .domainSuffix =>
    match canonicalizeDomain rawValue with
    | .ok domain =>
      (domainSuffixCandidates domain).foldl
        (fun best suffix =>
          considerBucket removed nowUnix best (bucket c.domainSuffixes (tenantId, suffix)))
        best
    | .error _ => best
  | none => best

/-! ## What a query reads -/

/-- The bucket that a rule belongs into. -/
def home (c : CompiledRules) (rule : RuleEntry) : List RuleEntry :=
  match rule.kind with
  | .ipv4Cidr => ipv4Bucket c.ipv4ByPrefix rule.ipv4PrefixLen.toNat (rule.tenantId, rule.ipv4Network)
  | .domainSuffix => bucket c.domainSuffixes (rule.tenantId, rule.domainSuffix)

/-- The rule is one of the compiled ones. -/
def Holds (c : CompiledRules) (rule : RuleEntry) : Prop := rule ∈ c.home rule

theorem mem_ipv4Bucket {c : CompiledRules} {rule : RuleEntry} {prefixLen : Nat}
    {key : String × UInt32} :
    rule ∈ ipv4Bucket c.ipv4ByPrefix prefixLen key ↔
      c.Holds rule ∧ rule.kind = .ipv4Cidr ∧ rule.ipv4PrefixLen.toNat = prefixLen ∧
        (rule.tenantId, rule.ipv4Network) = key := by
  constructor
  · intro h
    obtain ⟨hk, rfl, rfl⟩ := c.ipv4_filed _ _ _ h
    exact ⟨by simp only [Holds, home, hk]; exact h, hk, rfl, rfl⟩
  · rintro ⟨h, hk, rfl, rfl⟩
    simpa only [Holds, home, hk] using h

theorem mem_bucket {c : CompiledRules} {rule : RuleEntry} {key : String × String} :
    rule ∈ bucket c.domainSuffixes key ↔
      c.Holds rule ∧ rule.kind = .domainSuffix ∧ (rule.tenantId, rule.domainSuffix) = key := by
  constructor
  · intro h
    obtain ⟨hk, rfl⟩ := c.domain_filed _ _ h
    exact ⟨by simp only [Holds, home, hk]; exact h, hk, rfl⟩
  · rintro ⟨h, hk, rfl⟩
    simpa only [Holds, home, hk] using h

theorem Holds.prefixLen_lt {c : CompiledRules} {rule : RuleEntry} (h : c.Holds rule)
    (hk : rule.kind = .ipv4Cidr) : rule.ipv4PrefixLen.toNat < 33 := by
  by_contra hge
  have hnone : c.ipv4ByPrefix.getD rule.ipv4PrefixLen.toNat ∅ = ∅ := by
    rw [List.getD_eq_getElem?_getD, List.getElem?_eq_none (by rw [c.prefixes]; omega)]
    rfl
  simp only [Holds, home, hk, ipv4Bucket_of_empty hnone, List.not_mem_nil] at h

/-- The rules in the buckets that a query reads. -/
def candidates (c : CompiledRules) (tenantId namespace' rawValue : String) : List RuleEntry :=
  match ruleKindForNamespace namespace' with
  | some .ipv4Cidr =>
    match parseIpv4Addr rawValue with
    | .ok ip =>
      (List.range 33).reverse.flatMap fun prefixLen =>
        ipv4Bucket c.ipv4ByPrefix prefixLen (tenantId, maskIpv4 ip prefixLen.toUInt8)
    | .error _ => []
  | some .domainSuffix =>
    match canonicalizeDomain rawValue with
    | .ok domain =>
      (domainSuffixCandidates domain).flatMap fun suffix =>
        bucket c.domainSuffixes (tenantId, suffix)
    | .error _ => []
  | none => []

/-- The buckets that a query reads hold exactly the compiled rules that match it. -/
theorem mem_candidates {c : CompiledRules} {tenantId namespace' rawValue : String}
    {rule : RuleEntry} :
    rule ∈ c.candidates tenantId namespace' rawValue ↔
      c.Holds rule ∧ rule.tenantId = tenantId ∧
        ruleMatchesNamespace rule namespace' rawValue = true := by
  unfold candidates ruleMatchesNamespace
  cases hns : ruleKindForNamespace namespace' with
  | none => simp
  | some kind =>
    cases kind with
    | ipv4Cidr =>
      cases hk : rule.kind with
      | domainSuffix =>
        cases parseIpv4Addr rawValue with
        | error err => simp
        | ok ip => simp [mem_ipv4Bucket, hk]
      | ipv4Cidr =>
        cases parseIpv4Addr rawValue with
        | error err => simp
        | ok ip =>
          simp only [List.mem_flatMap, List.mem_reverse, List.mem_range, mem_ipv4Bucket, hk,
            Prod.mk.injEq, ne_eq, not_true_eq_false, if_false, beq_iff_eq, true_and]
          constructor
          · rintro ⟨p, -, hh, rfl, rfl, hnet⟩
            refine ⟨hh, rfl, ?_⟩
            rw [hnet]
            simp
          · rintro ⟨hh, rfl, hnet⟩
            refine ⟨_, hh.prefixLen_lt hk, hh, rfl, rfl, ?_⟩
            rw [← hnet]
            simp
    | domainSuffix =>
      cases hk : rule.kind with
      | ipv4Cidr =>
        cases canonicalizeDomain rawValue with
        | error err => simp
        | ok domain => simp [mem_bucket, hk]
      | domainSuffix =>
        cases canonicalizeDomain rawValue with
        | error err => simp
        | ok domain =>
          simp only [List.mem_flatMap, mem_bucket, hk, Prod.mk.injEq, ne_eq, not_true_eq_false,
            if_false, true_and, List.contains_iff_mem]
          constructor
          · rintro ⟨s, hs, hh, rfl, rfl⟩
            exact ⟨hh, rfl, hs⟩
          · rintro ⟨hh, rfl, hs⟩
            exact ⟨_, hs, hh, rfl, rfl⟩

/-- A query keeps the best of its candidates that are neither removed nor expired. -/
theorem considerMatches_eq (c : CompiledRules) (tenantId namespace' rawValue : String)
    (nowUnix : Nat) (removed : HashMap RuleKey Nat) (best : RuleMatch) :
    c.considerMatches tenantId namespace' rawValue nowUnix removed best =
      keepBest compareRulesForMatch
        (fun r => !decide (r.ruleKey ∉ removed) || r.isExpired nowUnix) best
        (c.candidates tenantId namespace' rawValue) := by
  have hbucket : ∀ best rules, considerBucket removed nowUnix best rules =
      keepBest compareRulesForMatch
        (fun r => !decide (r.ruleKey ∉ removed) || r.isExpired nowUnix) best rules := by
    intro best rules
    rw [← foldl_consider]
    simp only [considerBucket, decide_eq_true_eq]
  unfold considerMatches candidates
  simp only [hbucket]
  unfold keepBest
  split
  · split
    · rw [List.foldl_flatMap]
    · rfl
  · split
    · rw [List.foldl_flatMap]
    · rfl
  · rfl

theorem mem_flatten_values {κ : Type} [DecidableEq κ] {m : HashMap κ (List RuleEntry)}
    {ord : IterOrder} {rule : RuleEntry} :
    rule ∈ (m.values ord).flatten ↔ ∃ key, rule ∈ bucket m key := by
  simp only [List.mem_flatten, HashMap.mem_values, bucket]
  constructor
  · rintro ⟨l, ⟨key, hl⟩, hr⟩
    exact ⟨key, by rwa [hl]⟩
  · rintro ⟨key, hr⟩
    cases hl : m.lookup key with
    | none => simp [hl] at hr
    | some l => exact ⟨l, ⟨key, hl⟩, by simpa [hl] using hr⟩

theorem mem_allRules {c : CompiledRules} {ord : IterOrder} {rule : RuleEntry} :
    rule ∈ c.allRules ord ↔ c.Holds rule := by
  simp only [allRules, List.mem_append, List.mem_flatMap, mem_flatten_values]
  constructor
  · rintro (⟨m, hm, key, hr⟩ | ⟨key, hr⟩)
    · obtain ⟨i, hi⟩ := List.mem_iff_getElem?.mp hm
      have : rule ∈ ipv4Bucket c.ipv4ByPrefix i key := by
        simpa [ipv4Bucket, List.getD_eq_getElem?_getD, hi] using hr
      exact (mem_ipv4Bucket.mp this).1
    · exact (mem_bucket.mp hr).1
  · intro h
    cases hk : rule.kind with
    | ipv4Cidr =>
      have hlt : rule.ipv4PrefixLen.toNat < c.ipv4ByPrefix.length := by
        rw [c.prefixes]; exact h.prefixLen_lt hk
      refine Or.inl ⟨c.ipv4ByPrefix.getD rule.ipv4PrefixLen.toNat ∅, ?_, _,
        mem_ipv4Bucket.mpr ⟨h, hk, rfl, rfl⟩⟩
      rw [List.getD_eq_getElem?_getD, List.getElem?_eq_getElem hlt]
      exact List.getElem_mem hlt
    | domainSuffix => exact Or.inr ⟨_, mem_bucket.mpr ⟨h, hk, rfl⟩⟩

/-- The compiled rule with a key. -/
def find (c : CompiledRules) (key : RuleKey) : Option RuleEntry :=
  (c.allRules .given).find? fun rule => rule.ruleKey = key

/-- No two compiled rules have the same key. -/
def Unique (c : CompiledRules) : Prop :=
  ∀ r r', c.Holds r → c.Holds r' → r.ruleKey = r'.ruleKey → r = r'

theorem find_eq_some {c : CompiledRules} (h : c.Unique) {key : RuleKey} {rule : RuleEntry} :
    c.find key = some rule ↔ c.Holds rule ∧ rule.ruleKey = key := by
  constructor
  · intro hf
    exact ⟨mem_allRules.mp (List.mem_of_find?_eq_some hf), by simpa using List.find?_some hf⟩
  · rintro ⟨hh, rfl⟩
    cases hf : c.find rule.ruleKey with
    | none =>
      have := List.find?_eq_none.mp hf rule (mem_allRules.mpr hh)
      simp at this
    | some rule' =>
      have hh' := mem_allRules.mp (List.mem_of_find?_eq_some hf)
      have hk : rule'.ruleKey = rule.ruleKey := by simpa using List.find?_some hf
      rw [h rule' rule hh' hh hk]

/-! ## Compiling -/

/-- A step files the rule, or its prefix length is out of bounds. -/
theorem addRule_eq (c : CompiledRules) (rule : RuleEntry) :
    (rule.HasBucket ∧ ∃ c', c.addRule rule = .ok c') ∨
      (¬rule.HasBucket ∧ c.addRule rule = .error (.panicked "index out of bounds")) := by
  unfold addRule RuleEntry.HasBucket
  by_cases hdel : rule.action = .delete
  · exact Or.inl ⟨fun h => absurd hdel h, c, if_pos hdel⟩
  · rw [if_neg hdel]
    split
    · rename_i hk
      split
      · rename_i hi
        rw [c.prefixes] at hi
        exact Or.inl ⟨fun _ _ => UInt8.le_iff_toNat_le.mpr (Nat.lt_succ_iff.mp hi), _, rfl⟩
      · rename_i hi
        rw [c.prefixes] at hi
        exact Or.inr ⟨fun h => hi (Nat.lt_succ_iff.mpr (UInt8.le_iff_toNat_le.mp (h hdel hk))), rfl⟩
    · rename_i hk
      exact Or.inl ⟨fun _ h => absurd (hk.symm.trans h) (by decide), _, rfl⟩

/-- Compiling stops exactly at a rule without a bucket. -/
theorem fromRules_eq (rules : List RuleEntry) :
    ((∀ r ∈ rules, r.HasBucket) ∧ ∃ c, fromRules rules = .ok c) ∨
      ((∃ r ∈ rules, ¬r.HasBucket) ∧
        fromRules rules = .error (.panicked "index out of bounds")) := by
  have hloop : ∀ (l : List RuleEntry) (c : CompiledRules),
      ((∀ r ∈ l, r.HasBucket) ∧ ∃ c', l.foldlM addRule c = .ok c') ∨
        ((∃ r ∈ l, ¬r.HasBucket) ∧
          l.foldlM addRule c = .error (.panicked "index out of bounds")) := by
    intro l
    induction l with
    | nil => exact fun c => Or.inl ⟨fun _ h => (by cases h), c, rfl⟩
    | cons rule l ih =>
      intro c
      rw [List.foldlM_cons]
      rcases c.addRule_eq rule with ⟨hb, c₁, h1⟩ | ⟨hb, h1⟩
      · rw [h1]
        rcases ih c₁ with ⟨hall, c₂, h2⟩ | ⟨⟨r, hr, hbad⟩, h2⟩
        · exact Or.inl ⟨List.forall_mem_cons.mpr ⟨hb, hall⟩, c₂, h2⟩
        · exact Or.inr ⟨⟨r, List.mem_cons_of_mem _ hr, hbad⟩, h2⟩
      · rw [h1]
        exact Or.inr ⟨⟨rule, List.mem_cons_self, hb⟩, rfl⟩
  unfold fromRules
  rcases hloop rules empty with ⟨hall, c, h⟩ | ⟨hbad, h⟩
  · exact Or.inl ⟨hall, c.sortBuckets, by rw [h]; rfl⟩
  · exact Or.inr ⟨hbad, by rw [h]; rfl⟩

theorem holds_addRule {c c' : CompiledRules} {rule : RuleEntry} (h : c.addRule rule = .ok c')
    {r : RuleEntry} : c'.Holds r ↔ c.Holds r ∨ (r = rule ∧ r.action ≠ .delete) := by
  unfold addRule at h
  split at h
  · cases h
    rename_i hdel
    refine ⟨Or.inl, ?_⟩
    rintro (h | ⟨rfl, hne⟩)
    · exact h
    · exact absurd hdel hne
  · rename_i hdel
    have hadd : r = rule → r.action ≠ .delete := by rintro rfl; exact hdel
    rw [and_iff_left_of_imp hadd]
    split at h
    · rename_i hk
      split at h
      · rename_i hi
        cases h
        simp only [Holds, home]
        cases hrk : r.kind with
        | ipv4Cidr =>
          simp only [ipv4Bucket_set hi]
          split
          · rename_i heq
            obtain ⟨h1, h2⟩ := heq
            rw [← h1, ← h2, List.mem_append, List.mem_singleton]
          · rename_i hne
            refine ⟨Or.inl, fun h => h.resolve_right ?_⟩
            rintro rfl
            exact hne ⟨rfl, rfl⟩
        | domainSuffix =>
          refine ⟨Or.inl, fun h => h.resolve_right ?_⟩
          rintro rfl
          rw [hk] at hrk
          cases hrk
      · cases h
    · rename_i hk
      cases h
      simp only [Holds, home]
      cases hrk : r.kind with
      | domainSuffix =>
        simp only [bucket_pushBucket]
        split
        · rename_i heq
          rw [← heq, List.mem_append, List.mem_singleton]
        · rename_i hne
          refine ⟨Or.inl, fun h => h.resolve_right ?_⟩
          rintro rfl
          exact hne rfl
      | ipv4Cidr =>
        refine ⟨Or.inl, fun h => h.resolve_right ?_⟩
        rintro rfl
        rw [hk] at hrk
        cases hrk

theorem holds_sortBuckets {c : CompiledRules} {r : RuleEntry} :
    c.sortBuckets.Holds r ↔ c.Holds r := by
  unfold Holds home
  cases r.kind with
  | ipv4Cidr => exact (ipv4Bucket_sorted _ _ _).mem_iff
  | domainSuffix => exact (bucket_mapValues _ _).mem_iff

theorem not_holds_empty (r : RuleEntry) : ¬empty.Holds r := by
  unfold Holds home
  cases r.kind with
  | ipv4Cidr => simp only [empty, ipv4Bucket_replicate, List.not_mem_nil, not_false_eq_true]
  | domainSuffix => simp [empty, bucket]

/-- The compiled rules are the given ones that are not deletions. -/
theorem holds_fromRules {rules : List RuleEntry} {c : CompiledRules} (h : fromRules rules = .ok c)
    {r : RuleEntry} : c.Holds r ↔ r ∈ rules ∧ r.action ≠ .delete := by
  have hloop : ∀ (l : List RuleEntry) {c₀ c₁ : CompiledRules}, l.foldlM addRule c₀ = .ok c₁ →
      (c₁.Holds r ↔ c₀.Holds r ∨ (r ∈ l ∧ r.action ≠ .delete)) := by
    intro l
    induction l with
    | nil => intro c₀ c₁ h; cases h; simp
    | cons rule l ih =>
      intro c₀ c₁ h
      rw [List.foldlM_cons] at h
      cases h1 : c₀.addRule rule with
      | error err => rw [h1] at h; cases h
      | ok c₂ =>
        rw [h1] at h
        rw [ih h, holds_addRule h1, List.mem_cons, or_assoc, or_and_right]
  unfold fromRules at h
  cases h1 : rules.foldlM addRule empty with
  | error err => rw [h1] at h; cases h
  | ok c₁ =>
    rw [h1] at h
    cases h
    rw [holds_sortBuckets, hloop rules h1, or_iff_right (not_holds_empty r)]

/-! ## How often a rule is filed -/

variable (ord : IterOrder)

theorem flatten_values_pushBucket {κ : Type} [DecidableEq κ] (m : HashMap κ (List RuleEntry))
    (key : κ) (rule : RuleEntry) :
    ((pushBucket m key rule).values ord).flatten.Perm (rule :: (m.values ord).flatten) := by
  have hsame : HashMap.Same ((pushBucket m key rule).erase key) (m.erase key) := fun key' => by
    unfold pushBucket
    rw [HashMap.lookup_erase_eq, HashMap.lookup_erase_eq, HashMap.lookup_insert_eq]
    split <;> rfl
  have hrest := (hsame.values_perm ord).flatten
  have hpush := HashMap.flatten_values_perm (pushBucket m key rule) key ord
  have hbucket : ((pushBucket m key rule).lookup key).getD [] = bucket m key ++ [rule] := by
    rw [pushBucket, AList.lookup_insert, Option.getD_some]
  rw [hbucket, List.append_assoc] at hpush
  have hm : (bucket m key ++ (HashMap.values ord (m.erase key)).flatten).Perm
      (m.values ord).flatten :=
    (HashMap.flatten_values_perm m key ord).symm
  exact hpush.trans ((List.perm_middle).trans ((hrest.append_left _ |>.trans hm).cons rule))

theorem flatten_values_sorted {κ : Type} [DecidableEq κ] (m : HashMap κ (List RuleEntry)) :
    ((m.mapValues (sortBy compareRulesForMatch)).values ord).flatten.Perm
      (m.values ord).flatten := by
  have hvalues : ((m.mapValues (sortBy compareRulesForMatch)).values ord).Perm
      ((m.values ord).map (sortBy compareRulesForMatch)) := by
    unfold HashMap.values HashMap.mapValues
    rw [List.map_map]
    refine (ord.perm _).trans (List.Perm.trans ?_ ((ord.perm _).symm.map _))
    rw [List.map_map]
    rfl
  refine hvalues.flatten.trans ?_
  rw [← List.flatMap_def]
  exact (List.Perm.flatMap_left _ fun l _ => sortBy_perm _ l).trans (by simp)

theorem flatten_set_pushBucket {byPrefix : List (HashMap (String × UInt32) (List RuleEntry))}
    {i : Nat} (hi : i < byPrefix.length) (key : String × UInt32) (rule : RuleEntry) :
    ((byPrefix.set i (pushBucket (byPrefix.getD i ∅) key rule)).flatMap fun prefixBucket =>
        (prefixBucket.values ord).flatten).Perm
      (rule :: byPrefix.flatMap fun prefixBucket => (prefixBucket.values ord).flatten) := by
  have hget : byPrefix.getD i ∅ = byPrefix[i] := by
    rw [List.getD_eq_getElem?_getD, List.getElem?_eq_getElem hi, Option.getD_some]
  have hset := (List.set_perm_cons_eraseIdx hi (pushBucket byPrefix[i] key rule)).flatMap_right
    fun prefixBucket => (prefixBucket.values ord).flatten
  have hrest := (List.getElem_cons_eraseIdx_perm hi).flatMap_right
    fun prefixBucket => (prefixBucket.values ord).flatten
  rw [List.flatMap_cons] at hset hrest
  rw [hget]
  have hpush := flatten_values_pushBucket ord byPrefix[i] key rule
  exact hset.trans ((hpush.append_right _).trans (hrest.cons rule))

/-- A step files the rule once. -/
theorem allRules_addRule {c c' : CompiledRules} {rule : RuleEntry} (h : c.addRule rule = .ok c')
    (hdel : rule.action ≠ .delete) : (c'.allRules ord).Perm (rule :: c.allRules ord) := by
  unfold addRule at h
  rw [if_neg hdel] at h
  split at h
  · split at h
    · rename_i hi
      cases h
      exact (flatten_set_pushBucket ord hi (rule.tenantId, rule.ipv4Network) rule).append_right _
    · cases h
  · cases h
    have hpush := flatten_values_pushBucket ord c.domainSuffixes (rule.tenantId, rule.domainSuffix)
      rule
    exact (hpush.append_left _).trans List.perm_middle

theorem allRules_sortBuckets (c : CompiledRules) :
    (c.sortBuckets.allRules ord).Perm (c.allRules ord) := by
  refine List.Perm.append ?_ (flatten_values_sorted ord c.domainSuffixes)
  simp only [sortBuckets, List.flatMap_map]
  exact List.Perm.flatMap_left _ fun m _ => flatten_values_sorted ord m

/-- The compiled rules are the given ones that are not deletions, each as often as it is given. -/
theorem allRules_fromRules {rules : List RuleEntry} {c : CompiledRules}
    (h : fromRules rules = .ok c) :
    (c.allRules ord).Perm (rules.filter fun rule => rule.action ≠ .delete) := by
  obtain ⟨c₁, hfold, h⟩ := bind_eq_ok.mp h
  cases h
  refine (allRules_sortBuckets ord c₁).trans ?_
  have hempty : empty.allRules ord = [] :=
    List.eq_nil_iff_forall_not_mem.mpr fun r hr => not_holds_empty r (mem_allRules.mp hr)
  refine foldlM_collects (p := fun done c => (c.allRules ord).Perm
    (done.filter fun rule => rule.action ≠ .delete)) (fun done c c' rule hdone hadd => ?_)
    (by rw [hempty, List.filter_nil]) hfold
  rw [List.filter_append]
  by_cases hdel : rule.action = .delete
  · unfold addRule at hadd
    rw [if_pos hdel] at hadd
    cases hadd
    simpa [hdel] using hdone
  · have hstep := allRules_addRule ord hadd hdel
    simp only [hdel, List.filter_cons, ne_eq, not_false_eq_true, decide_true, if_true,
      List.filter_nil]
    exact hstep.trans ((hdone.cons rule).trans (List.perm_append_singleton rule _).symm)

end CompiledRules

end Globacl
