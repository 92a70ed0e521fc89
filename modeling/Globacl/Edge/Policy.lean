import Globacl.Core.Loading
import Globacl.Edge.Check

/-!
# One snapshot, two loaders

A snapshot is loaded by `SourceOfTruth::from_snapshot_and_mutations` and by
`ActiveState::from_snapshot`. Neither `Snapshot::validate` nor a loader refuses records with one
key, or rules that are deletions, and the two treat these differently: the source keeps the last
record of a key, the edge the newest entry of a key and every rule; the source keeps a rule that is
a deletion, the edge leaves it out.

* `ImmutableBase.find_fromEntries_iff`: the base holds the newest entry of each key.
* `onePolicy_iff`: the two loaders give one policy exactly for the snapshots of `OnePolicy`.
-/

namespace Globacl

open Lib

/-! ## The newest entry of a key -/

/-- The entry is the last of those with the highest sequence number in the list. -/
def IsNewest (l : List DenyEntry) (e : DenyEntry) : Prop :=
  ∃ before after, l = before ++ e :: after ∧ (∀ x ∈ before, x.commitSeq ≤ e.commitSeq) ∧
    ∀ x ∈ after, x.commitSeq < e.commitSeq

theorem not_isNewest_nil (e : DenyEntry) : ¬IsNewest [] e := by
  rintro ⟨before, after, h, -⟩
  exact absurd h (by simp)

theorem isNewest_cons {a e : DenyEntry} {l : List DenyEntry} :
    IsNewest (a :: l) e ↔
      (e = a ∧ ∀ x ∈ l, x.commitSeq < a.commitSeq) ∨ (a.commitSeq ≤ e.commitSeq ∧ IsNewest l e) := by
  constructor
  · rintro ⟨before, after, h, hle, hlt⟩
    cases before with
    | nil =>
      simp only [List.nil_append, List.cons.injEq] at h
      obtain ⟨rfl, rfl⟩ := h
      exact Or.inl ⟨rfl, hlt⟩
    | cons b before =>
      simp only [List.cons_append, List.cons.injEq] at h
      obtain ⟨rfl, rfl⟩ := h
      exact Or.inr ⟨hle _ List.mem_cons_self, before, after, rfl,
        fun x hx => hle x (List.mem_cons_of_mem _ hx), hlt⟩
  · rintro (⟨rfl, hlt⟩ | ⟨hae, before, after, rfl, hle, hlt⟩)
    · exact ⟨[], l, rfl, by simp, hlt⟩
    · refine ⟨a :: before, after, rfl, fun x hx => ?_, hlt⟩
      rcases List.mem_cons.mp hx with rfl | hx
      · exact hae
      · exact hle x hx

theorem isNewest_singleton {a e : DenyEntry} : IsNewest [a] e ↔ e = a := by
  simp [isNewest_cons, not_isNewest_nil]

theorem IsNewest.mem {l : List DenyEntry} {e : DenyEntry} (h : IsNewest l e) : e ∈ l := by
  obtain ⟨before, after, rfl, -⟩ := h
  simp

theorem exists_isNewest : ∀ {l : List DenyEntry}, l ≠ [] → ∃ e, IsNewest l e
  | [], h => absurd rfl h
  | [a], _ => ⟨a, isNewest_singleton.mpr rfl⟩
  | a :: b :: l, _ => by
    obtain ⟨e, he⟩ := exists_isNewest (List.cons_ne_nil b l)
    by_cases hae : a.commitSeq ≤ e.commitSeq
    · exact ⟨e, isNewest_cons.mpr (Or.inr ⟨hae, he⟩)⟩
    · refine ⟨a, isNewest_cons.mpr (Or.inl ⟨rfl, fun x hx => ?_⟩)⟩
      obtain ⟨before, after, hl, hle, hlt⟩ := he
      rw [hl, List.mem_append, List.mem_cons] at hx
      rcases hx with hx | rfl | hx
      · have := hle x hx
        omega
      · omega
      · have := hlt x hx
        omega

/-- Of two entries in a row, the deduplication drops the one that is not the newest. -/
theorem isNewest_cons_cons {a b e : DenyEntry} {l : List DenyEntry} :
    IsNewest (a :: b :: l) e ↔ IsNewest ((if b.commitSeq ≥ a.commitSeq then b else a) :: l) e := by
  simp only [isNewest_cons, List.forall_mem_cons]
  split
  · rename_i hab
    constructor
    · rintro (⟨rfl, hba, -⟩ | ⟨-, h⟩)
      · omega
      · exact h
    · rintro (⟨rfl, h⟩ | ⟨hbe, h⟩)
      · exact Or.inr ⟨hab, Or.inl ⟨rfl, h⟩⟩
      · exact Or.inr ⟨by omega, Or.inr ⟨hbe, h⟩⟩
  · rename_i hab
    constructor
    · rintro (⟨rfl, -, h⟩ | ⟨hae, ⟨rfl, -⟩ | ⟨-, h⟩⟩)
      · exact Or.inl ⟨rfl, h⟩
      · omega
      · exact Or.inr ⟨hae, h⟩
    · rintro (⟨rfl, h⟩ | ⟨hae, h⟩)
      · exact Or.inl ⟨rfl, by omega, h⟩
      · exact Or.inr ⟨hae, Or.inr ⟨by omega, h⟩⟩

/-- The records of a list with a key, in their order. -/
abbrev recordsOf {α κ : Type} [DecidableEq κ] (key : α → κ) (l : List α) (k : κ) : List α :=
  l.filter fun a => decide (key a = k)

/-- A stable sort by key keeps the order of the records of one key. -/
theorem recordsOf_sortBy (l : List DenyEntry) (k : AclKey) :
    recordsOf DenyEntry.aclKey (sortBy compareEntriesByKey l) k =
      recordsOf DenyEntry.aclKey l k := by
  have hpair : (recordsOf DenyEntry.aclKey l k).Pairwise fun a b =>
      compareEntriesByKey a b ≠ .gt := by
    refine List.pairwise_of_forall_mem_list fun a ha b hb => ?_
    have hka : a.aclKey = k := by simpa using (List.mem_filter.mp ha).2
    have hkb : b.aclKey = k := by simpa using (List.mem_filter.mp hb).2
    rw [compareEntriesByKey_eq.mpr (hka.trans hkb.symm)]
    decide
  have hsub : (recordsOf DenyEntry.aclKey l k).Sublist (sortBy compareEntriesByKey l) :=
    List.sublist_insertionSort hpair List.filter_sublist
  replace hsub := hsub.filter fun a => decide (a.aclKey = k)
  rw [List.filter_filter] at hsub
  simp only [Bool.and_self] at hsub
  exact (hsub.eq_of_length ((sortBy_perm _ l).filter _).length_eq.symm).symm

/-- The deduplication of sorted entries keeps exactly the newest entry of each key. -/
theorem mem_dedupFrom_iff {last e : DenyEntry} {l : List DenyEntry}
    (h : (last :: l).Pairwise fun a b => compareEntriesByKey a b ≠ .gt) :
    e ∈ dedupFrom last l ↔ IsNewest (recordsOf DenyEntry.aclKey (last :: l) e.aclKey) e := by
  induction l generalizing last with
  | nil =>
    rw [dedupFrom, List.mem_singleton]
    constructor
    · rintro rfl
      simp [recordsOf, isNewest_singleton]
    · intro hn
      simpa using (List.mem_filter.mp hn.mem).1
  | cons entry l ih =>
    obtain ⟨hlast, htail⟩ := List.pairwise_cons.mp h
    unfold dedupFrom
    split
    · rename_i hsame
      rw [sameEntryKey_iff] at hsame
      rw [ih (List.pairwise_cons.mpr ⟨fun b hb => ?_, (List.pairwise_cons.mp htail).2⟩)]
      · by_cases hk : last.aclKey = e.aclKey
        · have hk' : entry.aclKey = e.aclKey := hsame ▸ hk
          have hw : (if entry.commitSeq ≥ last.commitSeq then entry else last).aclKey =
              e.aclKey := by split <;> assumption
          simp only [recordsOf, List.filter_cons, hk, hk', hw, decide_true, if_true]
          rw [isNewest_cons_cons]
        · have hk' : ¬entry.aclKey = e.aclKey := hsame ▸ hk
          have hw : ¬(if entry.commitSeq ≥ last.commitSeq then entry else last).aclKey =
              e.aclKey := by split <;> assumption
          simp only [recordsOf, List.filter_cons, hk, hk', hw, decide_false]
          rfl
      · split
        · exact (List.pairwise_cons.mp htail).1 b hb
        · exact hlast b (List.mem_cons_of_mem _ hb)
    · rename_i hne
      -- the entries that follow have other keys than the last one
      have hother : ∀ x ∈ entry :: l, x.aclKey ≠ last.aclKey := fun x hx heq => by
        have hp := dedupFrom_pairwise h
        rw [dedupFrom, if_neg hne] at hp
        have hlt : compareEntriesByKey last entry = .lt := by
          have h1 := hlast entry List.mem_cons_self
          have h2 : compareEntriesByKey last entry ≠ .eq := fun h =>
            hne (sameEntryKey_iff.mpr (compareEntriesByKey_eq.mp h))
          cases hc : compareEntriesByKey last entry <;> simp_all
        have hlx : compareEntriesByKey last x = .lt := by
          rcases List.mem_cons.mp hx with rfl | hx
          · exact hlt
          · exact Std.TransCmp.lt_of_lt_of_isLE hlt
              (Ordering.isLE_iff_ne_gt.mpr ((List.pairwise_cons.mp htail).1 x hx))
        rw [compareEntriesByKey_eq.mpr heq.symm] at hlx
        cases hlx
      rw [List.mem_cons, ih htail]
      by_cases hk : last.aclKey = e.aclKey
      · have hnil : recordsOf DenyEntry.aclKey (entry :: l) e.aclKey = [] :=
          List.filter_eq_nil_iff.mpr fun x hx => by simpa [← hk] using hother x hx
        have hone : recordsOf DenyEntry.aclKey (last :: entry :: l) e.aclKey = [last] := by
          show List.filter _ (last :: entry :: l) = _
          rw [List.filter_cons, if_pos (by simpa using hk)]
          exact congrArg _ hnil
        rw [hnil, hone, isNewest_singleton, or_iff_left (not_isNewest_nil e)]
      · have hskip : recordsOf DenyEntry.aclKey (last :: entry :: l) e.aclKey =
            recordsOf DenyEntry.aclKey (entry :: l) e.aclKey :=
          List.filter_cons_of_neg (by simpa using hk)
        rw [hskip, or_iff_right]
        rintro rfl
        exact hk rfl

theorem mem_dedup_iff {l : List DenyEntry} {e : DenyEntry}
    (h : l.Pairwise fun a b => compareEntriesByKey a b ≠ .gt) :
    e ∈ dedup l ↔ IsNewest (recordsOf DenyEntry.aclKey l e.aclKey) e := by
  cases l with
  | nil => exact iff_of_false (by simp [dedup]) (not_isNewest_nil e)
  | cons a l => exact mem_dedupFrom_iff h

/-- The base of an edge holds the newest entry of each key. -/
theorem ImmutableBase.find_fromEntries_iff {entries : List DenyEntry} {base : ImmutableBase}
    (h : fromEntries entries = .ok base) {key : AclKey} {e : DenyEntry} :
    base.find key = some e ↔ IsNewest (recordsOf DenyEntry.aclKey entries key) e := by
  unfold fromEntries at h
  split at h
  · cases h
  · rename_i cs symbols hcs
    cases h
    have hmem : e ∈ dedup (sortBy compareEntriesByKey entries) ↔
        e ∈ cs.map fun c => c.toDenyEntry symbols := by rw [(compactEntries_ok hcs).2.2]
    rw [mem_dedup_iff (sortBy_pairwise _ _), recordsOf_sortBy] at hmem
    rw [find_eq_some]
    simp only [materializedEntries, List.mem_map, mem_sortBy] at hmem ⊢
    rw [← hmem]
    constructor
    · rintro ⟨hn, rfl⟩
      exact hn
    · intro hn
      have hk : e.aclKey = key := by simpa using (List.mem_filter.mp hn.mem).2
      exact ⟨by rwa [hk], hk⟩

/-! ## What the two loaders build -/

/-- What a lookup of the entry answers until it expires, with its expiry; nothing if it never
denies. -/
def DenyEntry.denial (e : DenyEntry) : Option (String × Nat × Nat × Nat × Nat) :=
  if e.action = .deny then some (e.reasonCode, e.priority, e.shardId, e.commitSeq, e.expiresAt)
  else none

theorem decisionForEntry_some (e : DenyEntry) (nowUnix : Nat) :
    decisionForEntry (some e) nowUnix =
      if e.action = .deny ∧ (e.expiresAt = 0 ∨ nowUnix < e.expiresAt) then
        .deny e.reasonCode e.priority ⟨e.shardId, e.commitSeq, 1, ""⟩
      else .allow := by
  have hexp : e.isExpired nowUnix = true ↔ ¬(e.expiresAt = 0 ∨ nowUnix < e.expiresAt) := by
    simp [DenyEntry.isExpired]
  unfold decisionForEntry
  dsimp only
  by_cases h : e.expiresAt = 0 ∨ nowUnix < e.expiresAt
  · rw [if_neg fun hx => hexp.mp hx h]
    cases hact : e.action <;> simp [h]
  · rw [if_pos (hexp.mpr h), if_neg fun hx => h hx.2]

/-- Two entries decide alike at every time exactly when they have the same denial. -/
theorem decisionForEntry_eq_iff {e e' : DenyEntry} :
    (∀ nowUnix, decisionForEntry (some e) nowUnix = decisionForEntry (some e') nowUnix) ↔
      e.denial = e'.denial := by
  unfold DenyEntry.denial
  constructor
  · intro h
    simp only [decisionForEntry_some] at h
    -- at the time 0 nothing has expired
    have h0 := h 0
    have hlive : ∀ n : Nat, n = 0 ∨ 0 < n := fun n => by omega
    simp only [hlive, and_true] at h0
    by_cases hd : e.action = .deny <;> by_cases hd' : e'.action = .deny
    · have hat := h e.expiresAt
      have hat' := h e'.expiresAt
      simp only [hd, hd', if_true, true_and, Decision.deny.injEq, CommitId.mk.injEq] at h0 hat hat'
      obtain ⟨hreason, hpriority, hshard, hseq, -⟩ := h0
      have hexp : e.expiresAt = e'.expiresAt := by
        by_contra hne
        rcases Nat.lt_or_gt_of_ne hne with hlt | hlt
        · -- the time of the earlier expiry, or of the only one
          by_cases hz : e.expiresAt = 0
          · simp [hz, show e'.expiresAt ≠ 0 by omega] at hat'
          · simp [hz, hlt] at hat
        · by_cases hz : e'.expiresAt = 0
          · simp [hz, show e.expiresAt ≠ 0 by omega] at hat
          · simp [hz, hlt] at hat'
      simp [hd, hd', hreason, hpriority, hshard, hseq, hexp]
    · simp [hd, hd'] at h0
    · simp [hd, hd'] at h0
    · simp [hd, hd']
  · intro h nowUnix
    simp only [decisionForEntry_some]
    split at h <;> split at h
    · rename_i hd hd'
      simp only [Option.some.injEq, Prod.mk.injEq] at h
      obtain ⟨hreason, hpriority, hshard, hseq, hexp⟩ := h
      simp only [hd, hd', hreason, hpriority, hshard, hseq, hexp]
    · cases h
    · cases h
    · rename_i hd hd'
      simp [hd, hd']

/-- A map built from a list of records holds the last record of each key. -/
theorem lookup_collect_getLast? {α κ : Type} [DecidableEq κ] (key : α → κ) (l : List α) (k : κ) :
    (HashMap.collect key l ∅).lookup k = (recordsOf key l k).getLast? := by
  rw [HashMap.lookup_collect_eq, AList.lookup_empty, Option.or_none, List.getLast?_eq_head?_reverse,
    ← List.filter_reverse, List.head?_filter]

/-- The source holds the last record of each key. -/
theorem SourceOfTruth.fromSnapshotAndMutations_nil {snapshot : Snapshot} {shardCount : Nat}
    {sourceRegion : String} {ids : List Mutation} {st : SourceOfTruth}
    (h : fromSnapshotAndMutations shardCount sourceRegion snapshot ids [] = .ok st) :
    (∀ k, st.entries.lookup k = (recordsOf DenyEntry.aclKey snapshot.entries k).getLast?) ∧
      ∀ k, st.rules.lookup k = (recordsOf RuleEntry.ruleKey snapshot.rules k).getLast? := by
  unfold fromSnapshotAndMutations at h
  split at h
  · cases h
  · split at h
    · cases h
    · split at h
      · obtain ⟨st₁, hids, hst⟩ := bind_eq_ok.mp h
        cases hst
        have ha := alike_foldlM_insertOpIndex hids
        rw [ha.entries, ha.rules]
        exact ⟨lookup_collect_getLast? _ _, lookup_collect_getLast? _ _⟩
      · cases h

/-- The edge holds the newest entry of each key, and every rule that is not a deletion. -/
theorem ActiveState.fromSnapshot_holds {snapshot : Snapshot} {a : ActiveState}
    (h : fromSnapshot snapshot = .ok a) :
    (∀ k e, a.entryAt k = some e ↔ IsNewest (recordsOf DenyEntry.aclKey snapshot.entries k) e) ∧
      ∀ (ord : IterOrder) (tenantId namespace' rawValue : String) (nowUnix : Nat),
        BestOf compareRulesForMatch
          (fun r => (r ∈ snapshot.rules ∧ r.action ≠ .delete) ∧
            r.Live tenantId namespace' rawValue nowUnix)
          (a.bestRule ord tenantId namespace' rawValue nowUnix) := by
  unfold fromSnapshot at h
  split at h
  · cases h
  · split at h
    · cases h
    · cases h
    · rename_i base ruleBase hbase hrules
      cases h
      refine ⟨fun k e => ?_, fun ord tenantId namespace' rawValue nowUnix => ?_⟩
      · rw [entryAt, overlay_empty, ImmutableBase.find_fromEntries_iff hbase]
      · have hnone : HashMap.values ord (∅ : HashMap RuleKey RuleEntry) = [] :=
          List.eq_nil_of_length_eq_zero (ord.perm _).length_eq
        simp only [bestRule, considerDeltaRules, hnone, List.foldl_nil,
          CompiledRules.considerMatches_eq]
        refine (bestOf_keepBest _).congr fun r => ?_
        rw [CompiledRules.mem_candidates, CompiledRules.holds_fromRules hrules]
        simp [RuleEntry.Live, AList.notMem_empty, and_assoc]

/-! ## The condition -/

/-- The strongest of the rules is a denial: no other has a higher priority. -/
def DeniedBy (p : RuleEntry → Prop) : Prop :=
  ∃ r, p r ∧ r.action = .deny ∧ ∀ r', p r' → r'.priority ≤ r.priority

/-- A rule that no other of the rules outranks is a denial if any of the strongest is. -/
theorem deniedBy_iff_of_top {p : RuleEntry → Prop} {top : RuleEntry} (htop : p top)
    (hmax : ∀ r, p r → ¬Outranks r top) : DeniedBy p ↔ top.action = .deny := by
  have hle : ∀ r, p r → r.priority ≤ top.priority := fun r hr => by
    have := hmax r hr
    unfold Outranks at this
    omega
  refine ⟨?_, fun hact => ⟨top, htop, hact, hle⟩⟩
  -- a denial of the highest priority is not outranked, so the top is as strong
  rintro ⟨r, hr, hact, hr_max⟩
  have hge := hr_max top htop
  have hle := hle r hr
  have hno := hmax r hr
  unfold Outranks at hno
  have hrank : actionRank r.action ≤ actionRank top.action := by omega
  rw [hact] at hrank
  cases hb : top.action with
  | deny => rfl
  | allowOverride => rw [hb] at hrank; exact absurd hrank (by decide)
  | delete => rw [hb] at hrank; exact absurd hrank (by decide)

theorem isDenied_iff_deniedBy {p : RuleEntry → Prop} {best : RuleMatch}
    (h : BestOf compareRulesForMatch p best) :
    best.intoDecision.isDenied = true ↔ DeniedBy p := by
  cases best with
  | none =>
    refine iff_of_false (by simp [RuleMatch.intoDecision, Decision.isDenied]) ?_
    rintro ⟨r, hr, -⟩
    exact h.not_candidate rfl r hr
  | some best =>
    have hbest := h.isBest best rfl
    rw [deniedBy_iff_of_top hbest.1 fun r hr => not_outranks_best hbest hr]
    unfold RuleMatch.intoDecision
    cases hact : best.action <;> simp [hact, Decision.isDenied]

/-- The strongest of some extra rules outranks every one of the common rules and turns what these
say into the contrary. -/
def Overturns (extra common : RuleEntry → Prop) : Prop :=
  ∃ r, extra r ∧ (∀ r', extra r' → ¬Outranks r' r) ∧ (∀ r', common r' → Outranks r r') ∧
    (r.action = .deny ↔ ¬DeniedBy common)

theorem not_overturns_of_empty {extra common : RuleEntry → Prop} (h : ∀ r, ¬extra r) :
    ¬Overturns extra common := by
  rintro ⟨r, hr, -⟩
  exact h r hr

/-- The extra rules change what the common ones say exactly if they overturn it. -/
theorem deniedBy_or_iff {extra common : RuleEntry → Prop} {best : RuleMatch}
    (h : BestOf compareRulesForMatch (fun r => common r ∨ extra r) best) :
    DeniedBy (fun r => common r ∨ extra r) ↔ (DeniedBy common ↔ ¬Overturns extra common) := by
  cases best with
  | none =>
    have hnone := h.not_candidate rfl
    have hno : ¬Overturns extra common := not_overturns_of_empty fun r hr => hnone r (Or.inr hr)
    have hall : ∀ q : RuleEntry → Prop, (∀ r, ¬q r) → ¬DeniedBy q := fun q hq ⟨r, hr, _⟩ => hq r hr
    have hcommon := hall common fun r hr => hnone r (Or.inl hr)
    simp [hall _ hnone, hcommon, hno]
  | some b =>
    have hbest := h.isBest b rfl
    have htop : ∀ r, common r ∨ extra r → ¬Outranks r b := fun r hr => not_outranks_best hbest hr
    rw [deniedBy_iff_of_top hbest.1 htop]
    by_cases hover : ∀ r, common r → Outranks b r
    · -- the best outranks the common rules, so it is an extra one
      have hextra : extra b := hbest.1.resolve_left fun hb => by
        have := hover b hb
        unfold Outranks at this
        omega
      have hoverturns : Overturns extra common ↔ (b.action = .deny ↔ ¬DeniedBy common) := by
        constructor
        · rintro ⟨r, hr, hmax, -, hact⟩
          have h1 := hmax b hextra
          have h2 := htop r (Or.inr hr)
          have hsame : r.action = b.action := by
            unfold Outranks at h1 h2
            exact actionRank_injective (by omega)
          rwa [hsame] at hact
        · exact fun hact => ⟨b, hextra, fun r hr => htop r (Or.inr hr), hover, hact⟩
      rw [hoverturns]
      tauto
    · -- a common rule is as strong as the best, and nothing overturns it
      push Not at hover
      obtain ⟨k, hk, hbk⟩ := hover
      have hkb := htop k (Or.inl hk)
      have hsame : k.action = b.action := by
        unfold Outranks at hbk hkb
        exact actionRank_injective (by omega)
      have hktop : ∀ r, common r → ¬Outranks r k := fun r hr => by
        have := htop r (Or.inl hr)
        unfold Outranks at *
        omega
      have hno : ¬Overturns extra common := by
        rintro ⟨r, hr, -, hout, -⟩
        have h1 := hout k hk
        have h2 := htop r (Or.inr hr)
        unfold Outranks at *
        omega
      rw [deniedBy_iff_of_top hk hktop, hsame]
      simp [hno]

namespace Snapshot

/-- The rule is the last one that the snapshot lists for its key. -/
def LastOfKey (s : Snapshot) (r : RuleEntry) : Prop :=
  (recordsOf RuleEntry.ruleKey s.rules r.ruleKey).getLast? = some r

theorem LastOfKey.mem {s : Snapshot} {r : RuleEntry} (h : s.LastOfKey r) : r ∈ s.rules :=
  (List.mem_filter.mp (List.mem_of_getLast? h)).1

/-- A rule that both loaders keep. -/
def Kept (s : Snapshot) (r : RuleEntry) : Prop := s.LastOfKey r ∧ r.action ≠ .delete

/-- A rule with a later record of its key: the edge keeps it as well. -/
def Superseded (s : Snapshot) (r : RuleEntry) : Prop :=
  r ∈ s.rules ∧ ¬s.LastOfKey r ∧ r.action ≠ .delete

/-- A deletion that is the last record of its key: the source keeps it as a rule. -/
def Removing (s : Snapshot) (r : RuleEntry) : Prop := s.LastOfKey r ∧ r.action = .delete

/-- What the edge keeps. -/
theorem mem_and_ne_delete_iff {s : Snapshot} {r : RuleEntry} :
    (r ∈ s.rules ∧ r.action ≠ .delete) ↔ s.Kept r ∨ s.Superseded r := by
  unfold Kept Superseded
  constructor
  · rintro ⟨hr, hact⟩
    by_cases hl : s.LastOfKey r
    · exact Or.inl ⟨hl, hact⟩
    · exact Or.inr ⟨hr, hl, hact⟩
  · rintro (⟨hl, hact⟩ | ⟨hr, -, hact⟩)
    · exact ⟨hl.mem, hact⟩
    · exact ⟨hr, hact⟩

/-- What the source keeps. -/
theorem lastOfKey_iff {s : Snapshot} {r : RuleEntry} :
    s.LastOfKey r ↔ s.Kept r ∨ s.Removing r := by
  unfold Kept Removing
  tauto

/-- The snapshots that both loaders read as one policy. The last entry of a key and the newest
deny alike. And for a value that the last entry does not deny, the superseded rules overturn the
kept ones exactly if the deletions do, of the rules that match the value. -/
structure OnePolicy (s : Snapshot) : Prop where
  entries : ∀ (tenantId namespace' rawKey : String) (last newest : DenyEntry),
    let records := recordsOf DenyEntry.aclKey s.entries (.fromRaw tenantId namespace' rawKey)
    records.getLast? = some last → IsNewest records newest → last.denial = newest.denial
  rules : ∀ (tenantId namespace' rawValue : String) (nowUnix : Nat),
    (∀ last, (recordsOf DenyEntry.aclKey s.entries
        (.fromRaw tenantId namespace' rawValue)).getLast? = some last →
      last.action = .deny → last.isExpired nowUnix = true) →
    let live := fun r : RuleEntry => r.Live tenantId namespace' rawValue nowUnix
    (Overturns (fun r => s.Superseded r ∧ live r) (fun r => s.Kept r ∧ live r) ↔
      Overturns (fun r => s.Removing r ∧ live r) (fun r => s.Kept r ∧ live r))

end Snapshot

theorem isDenied_decisionForEntry {entry : Option DenyEntry} {nowUnix : Nat} :
    (decisionForEntry entry nowUnix).isDenied = true ↔
      ∃ e, entry = some e ∧ e.action = .deny ∧ e.isExpired nowUnix = false := by
  cases entry with
  | none => simp [decisionForEntry, Decision.isDenied]
  | some e =>
    unfold decisionForEntry
    cases hexp : e.isExpired nowUnix <;> cases hact : e.action <;>
      simp [hexp, hact, Decision.isDenied]

/-- The source and the edge that are loaded from a snapshot answer every lookup alike and agree on
every check exactly if the snapshot is one policy. -/
theorem onePolicy_iff {snapshot : Snapshot} {sourceRegion : String} {ids : List Mutation}
    {st : SourceOfTruth} {a : ActiveState}
    (hst : SourceOfTruth.fromSnapshotAndMutations snapshot.shardCount sourceRegion snapshot ids [] =
      .ok st)
    (ha : ActiveState.fromSnapshot snapshot = .ok a) (ord ord' : IterOrder) :
    (∀ (tenantId namespace' value : String) (nowUnix : Nat),
      st.lookup tenantId namespace' value nowUnix = a.lookup tenantId namespace' value nowUnix ∧
        (st.check ord tenantId namespace' value nowUnix).isDenied =
          (a.check ord' tenantId namespace' value nowUnix).isDenied) ↔
      snapshot.OnePolicy := by
  obtain ⟨hentries, hrules⟩ := SourceOfTruth.fromSnapshotAndMutations_nil hst
  obtain ⟨hnewest, hbest⟩ := ActiveState.fromSnapshot_holds ha
  -- one key: the last record and the newest one, if there is any
  have hlookup : ∀ tenantId namespace' value : String,
      (∀ nowUnix, st.lookup tenantId namespace' value nowUnix =
        a.lookup tenantId namespace' value nowUnix) ↔
      ∀ last newest,
        let records := recordsOf DenyEntry.aclKey snapshot.entries (.fromRaw tenantId namespace' value)
        records.getLast? = some last → IsNewest records newest → last.denial = newest.denial := by
    intro tenantId namespace' value
    have hnew := hnewest (.fromRaw tenantId namespace' value)
    simp only [SourceOfTruth.lookup, hentries, a.lookup_eq]
    generalize recordsOf DenyEntry.aclKey snapshot.entries (.fromRaw tenantId namespace' value) =
      records at hnew
    cases hlast : records.getLast? with
    | none =>
      have hnil : records = [] := List.getLast?_eq_none_iff.mp hlast
      have hno : a.entryAt (.fromRaw tenantId namespace' value) = none := by
        refine Option.eq_none_iff_forall_ne_some.mpr fun e he => ?_
        exact not_isNewest_nil e (hnil ▸ (hnew e).mp he)
      rw [hno]
      exact iff_of_true (fun _ => rfl) fun last newest h => by cases h
    | some last =>
      obtain ⟨newest, hn⟩ := exists_isNewest (l := records) fun hnil => by
        rw [hnil] at hlast
        cases hlast
      rw [(hnew newest).mpr hn, decisionForEntry_eq_iff]
      refine ⟨fun h last' newest' hl hn' => ?_, fun h => h last newest rfl hn⟩
      cases hl
      have := ((hnew newest').mpr hn').symm.trans ((hnew newest).mpr hn)
      cases this
      exact h
  -- one query: with one point decision, the checks differ by the best rules alone
  have hcheck : ∀ (tenantId namespace' value : String) (nowUnix : Nat),
      st.lookup tenantId namespace' value nowUnix = a.lookup tenantId namespace' value nowUnix →
      ((st.check ord tenantId namespace' value nowUnix).isDenied =
          (a.check ord' tenantId namespace' value nowUnix).isDenied ↔
        ((∀ last, (recordsOf DenyEntry.aclKey snapshot.entries
            (.fromRaw tenantId namespace' value)).getLast? = some last →
          last.action = .deny → last.isExpired nowUnix = true) →
        (Overturns (fun r => snapshot.Superseded r ∧ r.Live tenantId namespace' value nowUnix)
            (fun r => snapshot.Kept r ∧ r.Live tenantId namespace' value nowUnix) ↔
          Overturns (fun r => snapshot.Removing r ∧ r.Live tenantId namespace' value nowUnix)
            fun r => snapshot.Kept r ∧ r.Live tenantId namespace' value nowUnix))) := by
    intro tenantId namespace' value nowUnix hpoint
    -- what each side keeps: the common rules and its own
    have hlast : ∀ r, st.rules.lookup r.ruleKey = some r ↔
        snapshot.Kept r ∨ snapshot.Removing r := fun r => by
      rw [hrules]
      exact Snapshot.lastOfKey_iff
    have hsource := (st.bestOf_bestRule ord tenantId namespace' value nowUnix).congr fun r =>
      (and_congr_left' (hlast r)).trans or_and_right
    have hedge := (hbest ord' tenantId namespace' value nowUnix).congr fun r =>
      (and_congr_left' Snapshot.mem_and_ne_delete_iff).trans or_and_right
    have hdenied : (st.lookup tenantId namespace' value nowUnix).isDenied = true ↔
        ∃ e, (recordsOf DenyEntry.aclKey snapshot.entries
            (.fromRaw tenantId namespace' value)).getLast? = some e ∧ e.action = .deny ∧
          e.isExpired nowUnix = false := by
      rw [SourceOfTruth.lookup, hentries, isDenied_decisionForEntry]
    unfold SourceOfTruth.check ActiveState.check
    rw [← hpoint]
    by_cases hd : (st.lookup tenantId namespace' value nowUnix).isDenied = true
    · simp only [hd, if_true, true_iff]
      intro hno
      obtain ⟨e, he, hact, hexp⟩ := hdenied.mp hd
      rw [hno e he hact] at hexp
      cases hexp
    · have hlive : ∀ last, (recordsOf DenyEntry.aclKey snapshot.entries
            (.fromRaw tenantId namespace' value)).getLast? = some last →
          last.action = .deny → last.isExpired nowUnix = true := fun last hl hact => by
        by_contra hexp
        exact hd (hdenied.mpr ⟨last, hl, hact, by simpa using hexp⟩)
      simp only [if_neg hd]
      rw [Bool.eq_iff_iff, isDenied_iff_deniedBy hsource, isDenied_iff_deniedBy hedge,
        deniedBy_or_iff hsource, deniedBy_or_iff hedge]
      refine Iff.trans ?_ ⟨fun h _ => h, fun h => h hlive⟩
      tauto
  constructor
  · exact fun h =>
      { entries := fun t n v => (hlookup t n v).mp fun now => (h t n v now).1
        rules := fun t n v now => (hcheck t n v now (h t n v now).1).mp (h t n v now).2 }
  · intro h t n v now
    have hl := (hlookup t n v).mpr (h.entries t n v) now
    exact ⟨hl, (hcheck t n v now hl).mpr (h.rules t n v now)⟩

/-- A snapshot with one record per key and no deletions among its rules is one policy. -/
theorem Snapshot.OnePolicy.of_lists {s : Snapshot} {e : AclKey → Option DenyEntry}
    {r : RuleKey → Option RuleEntry} (he : HashMap.Lists DenyEntry.aclKey s.entries e)
    (hr : HashMap.Lists RuleEntry.ruleKey s.rules r)
    (hdel : ∀ rule ∈ s.rules, rule.action ≠ .delete) : s.OnePolicy where
  entries tenantId namespace' rawKey last newest hl hn := by
    have hmem : ∀ x ∈ recordsOf DenyEntry.aclKey s.entries (.fromRaw tenantId namespace' rawKey),
        x ∈ s.entries ∧ x.aclKey = .fromRaw tenantId namespace' rawKey := fun x hx => by
      simpa using List.mem_filter.mp hx
    obtain ⟨h1, hk1⟩ := hmem last (List.mem_of_getLast? hl)
    obtain ⟨h2, hk2⟩ := hmem newest hn.mem
    rw [he.unique h1 h2 (hk1.trans hk2.symm)]
  rules tenantId namespace' rawValue nowUnix _ := by
    have hlast : ∀ x ∈ s.rules, s.LastOfKey x := fun x hx => by
      have hin : x ∈ recordsOf RuleEntry.ruleKey s.rules x.ruleKey :=
        List.mem_filter.mpr ⟨hx, by simp⟩
      unfold Snapshot.LastOfKey
      cases hl : (recordsOf RuleEntry.ruleKey s.rules x.ruleKey).getLast? with
      | none => rw [List.getLast?_eq_none_iff.mp hl] at hin; cases hin
      | some y =>
        obtain ⟨hy, hk⟩ := List.mem_filter.mp (List.mem_of_getLast? hl)
        rw [hr.unique hy hx (by simpa using hk)]
    refine iff_of_false (not_overturns_of_empty ?_) (not_overturns_of_empty ?_)
    · exact fun x hx => hx.1.2.1 (hlast x hx.1.1)
    · exact fun x hx => hdel x hx.1.1.mem hx.1.2

/-! ## A key that is listed twice -/

/-- An entry for a user. -/
def userEntry (action : Action) (commitSeq : Nat) : DenyEntry :=
  { tenantId := "acme", namespace' := "user", keyHash := stableKeyHash "acme" "user" "ann",
    action, priority := 7, reasonCode := "fraud", expiresAt := 0, createdBy := "ops", commitSeq,
    shardId := 0 }

/-- The allowance of a user is listed after the later denial of the user. -/
def relistedUser : Snapshot :=
  { shardCount := 1, watermarks := [2],
    entries := [userEntry .deny 2, userEntry .allowOverride 1], rules := [] }

theorem relistedUser_loaded :
    ∃ st a, SourceOfTruth.fromSnapshotAndMutations 1 "eu" relistedUser [] [] = .ok st ∧
      ActiveState.fromSnapshot relistedUser = .ok a ∧
      st.lookup "acme" "user" "ann" 100 = .allow ∧
      a.lookup "acme" "user" "ann" 100 = .deny "fraud" 7 ⟨0, 2, 1, ""⟩ := by
  have hst : ((SourceOfTruth.fromSnapshotAndMutations 1 "eu" relistedUser [] []).map fun st =>
      st.lookup "acme" "user" "ann" 100) = .ok .allow := by decide +kernel
  have ha : ((ActiveState.fromSnapshot relistedUser).map fun a =>
      a.lookup "acme" "user" "ann" 100) = .ok (.deny "fraud" 7 ⟨0, 2, 1, ""⟩) := by decide +kernel
  obtain ⟨st, hst, hl⟩ := map_eq_ok.mp hst
  obtain ⟨a, ha, hl'⟩ := map_eq_ok.mp ha
  exact ⟨st, a, hst, ha, hl, hl'⟩

/-- The edge denies the user and the source does not. -/
theorem not_onePolicy :
    ¬∀ (snapshot : Snapshot) (sourceRegion : String) (st : SourceOfTruth) (a : ActiveState)
      (ord ord' : IterOrder), snapshot.validate = .ok () → 1 ≤ snapshot.shardCount →
      (∀ r ∈ snapshot.rules, r.kind = .ipv4Cidr → r.ipv4PrefixLen.toNat ≤ 32) →
      SourceOfTruth.fromSnapshotAndMutations snapshot.shardCount sourceRegion snapshot [] [] =
        .ok st →
      ActiveState.fromSnapshot snapshot = .ok a →
      ∀ (tenantId namespace' value : String) (nowUnix : Nat),
        st.lookup tenantId namespace' value nowUnix = a.lookup tenantId namespace' value nowUnix ∧
          (st.check ord tenantId namespace' value nowUnix).isDenied =
            (a.check ord' tenantId namespace' value nowUnix).isDenied := by
  intro hall
  obtain ⟨st, a, hst, ha, hl, hl'⟩ := relistedUser_loaded
  have := (hall relistedUser "eu" st a .given .given rfl (by decide) (by simp [relistedUser]) hst ha
    "acme" "user" "ann" 100).1
  rw [hl, hl'] at this
  cases this

theorem onePolicy_iff_relistedUser :
    ∃ st a, SourceOfTruth.fromSnapshotAndMutations 1 "eu" relistedUser [] [] = .ok st ∧
      ActiveState.fromSnapshot relistedUser = .ok a ∧
      ((∀ (tenantId namespace' value : String) (nowUnix : Nat),
        st.lookup tenantId namespace' value nowUnix = a.lookup tenantId namespace' value nowUnix ∧
          (st.check .given tenantId namespace' value nowUnix).isDenied =
            (a.check .given tenantId namespace' value nowUnix).isDenied) ↔
        relistedUser.OnePolicy) := by
  obtain ⟨st, a, hst, ha, -⟩ := relistedUser_loaded
  exact ⟨st, a, hst, ha, onePolicy_iff hst ha .given .given⟩

end Globacl
