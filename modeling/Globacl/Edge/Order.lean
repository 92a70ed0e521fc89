import Globacl.Edge.Check

/-!
# The rule that wins a check (`globacl-core/src/lib/active_state.rs`, `rules.rs`)

The rules that match a query compete by priority, action and sequence number. A source goes through
all its rules, an edge reads the buckets of its compiled rules and goes through those of the overlay,
and both visit a hash map in an order of its own.

* `considerMatches_scan`: the buckets give what a scan of all the rules gives.
* `same_in_every_order_iff`: the decision is the same in every order unless two denials tie that
  differ in their reason or their shard. A sequence number orders the commits of one shard only, so
  rules of different shards can tie.
-/

namespace Globacl

open Lib

/-! ## Compiled rules and a scan -/

namespace CompiledRules

/-- The rule is one that a scan considers: it is not removed, matches the query and has not
expired. -/
def Considered (rules : List RuleEntry) (removed : HashMap RuleKey Nat)
    (tenantId namespace' rawValue : String) (nowUnix : Nat) (r : RuleEntry) : Prop :=
  r ∈ rules ∧ r.ruleKey ∉ removed ∧ r.Live tenantId namespace' rawValue nowUnix

/-- Rules that are both best have the same rank. -/
theorem rank_eq_of_isBest {p : RuleEntry → Prop} {r r' : RuleEntry}
    (h : IsBest compareRulesForMatch p r) (h' : IsBest compareRulesForMatch p r') :
    r.priority = r'.priority ∧ r.action = r'.action ∧ r.commitSeq = r'.commitSeq := by
  have heq := cmp_eq_of_ne_lt (h'.2 r h.1) (h.2 r' h'.1)
  simp only [compareRulesForMatch, Ordering.then_eq_eq, Nat.compare_eq_eq] at heq
  exact ⟨heq.1.symm, (actionRank_injective heq.2.1).symm, heq.2.2.symm⟩

/-- The buckets that a query reads give what a scan of the rules gives: nothing if no rule is
considered, and else a rule with the rank of the best. -/
theorem considerMatches_scan (rules : List RuleEntry)
    (hlen : ∀ r ∈ rules, r.kind = .ipv4Cidr → r.ipv4PrefixLen ≤ 32)
    (hdelete : ∀ r ∈ rules, r.action ≠ .delete) :
    ∃ c, fromRules rules = .ok c ∧
      ∀ removed tenantId namespace' rawValue nowUnix,
        let considered := Considered rules removed tenantId namespace' rawValue nowUnix
        let winner := c.considerMatches tenantId namespace' rawValue nowUnix removed none
        (winner.isSome = true ↔ ∃ r, considered r) ∧
          ∀ w, winner = some w → IsBest compareRulesForMatch considered w ∧
            ∀ r, IsBest compareRulesForMatch considered r →
              w.priority = r.priority ∧ w.action = r.action ∧ w.commitSeq = r.commitSeq := by
  rcases fromRules_eq rules with ⟨-, c, hc⟩ | ⟨⟨r, hr, hbad⟩, -⟩
  · refine ⟨c, hc, fun removed tenantId namespace' rawValue nowUnix => ?_⟩
    have hbest : BestOf compareRulesForMatch
        (Considered rules removed tenantId namespace' rawValue nowUnix)
        (c.considerMatches tenantId namespace' rawValue nowUnix removed none) := by
      rw [considerMatches_eq]
      refine (bestOf_keepBest _).congr fun r => ?_
      simp only [mem_candidates, holds_fromRules hc, Considered, RuleEntry.Live, Bool.or_eq_false_iff,
        Bool.not_eq_eq_eq_not, Bool.not_false, decide_eq_true_eq]
      constructor
      · rintro ⟨⟨⟨hr, -⟩, ht, hm⟩, hrem, he⟩
        exact ⟨hr, hrem, ht, hm, he⟩
      · rintro ⟨hr, hrem, ht, hm, he⟩
        exact ⟨⟨⟨hr, hdelete r hr⟩, ht, hm⟩, hrem, he⟩
    refine ⟨?_, fun w hw => ⟨hbest.isBest w hw, fun r hr => rank_eq_of_isBest (hbest.isBest w hw) hr⟩⟩
    cases hw : c.considerMatches tenantId namespace' rawValue nowUnix removed none with
    | none =>
      simp only [Option.isSome_none, Bool.false_eq_true, false_iff, not_exists]
      exact hbest.not_candidate hw
    | some w => exact iff_of_true rfl ⟨w, (hbest.isBest w hw).1⟩
  · exact absurd (fun _ => hlen r hr) hbad

namespace TwoRules

/-- A default route, and the suffix `com`. -/
def rules : List RuleEntry :=
  [⟨"t", .ipv4Cidr, "0.0.0.0/0", 1, .deny, 0, "", 0, "ops", 1, 0, 0, 0, ""⟩,
    ⟨"t", .domainSuffix, "com", 2, .deny, 0, "", 0, "ops", 2, 0, 0, 0, "com"⟩]

end TwoRules

theorem considerMatches_scan_twoRules :
    ∃ c, fromRules TwoRules.rules = .ok c ∧
      (c.considerMatches "t" "ip" "10.1.2.3" 0 ∅ none).isSome = true := by
  obtain ⟨c, hc, h⟩ := considerMatches_scan TwoRules.rules (by decide) (by decide)
  refine ⟨c, hc, (h ∅ "t" "ip" "10.1.2.3" 0).1.mpr ⟨TwoRules.rules.head (by decide), ?_⟩⟩
  exact ⟨List.head_mem _, by simp, by decide +kernel, by decide +kernel, by decide +kernel⟩

end CompiledRules

/-! ## The order of a hash map -/

/-- Two rules of equal rank decide alike unless they deny for different reasons or on different
shards. -/
theorem intoDecision_eq_iff {r r' : RuleEntry} (h : r.priority = r'.priority)
    (ha : r.action = r'.action) (hs : r.commitSeq = r'.commitSeq) :
    RuleMatch.intoDecision (some r) = RuleMatch.intoDecision (some r') ↔
      (r.action = .deny → r.reasonCode = r'.reasonCode ∧ r.shardId = r'.shardId) := by
  unfold RuleMatch.intoDecision
  dsimp only
  rw [← ha]
  cases r.action <;> simp [h, hs]

/-- Of the rules `p`, those of `q` decide alike when they are best. -/
def AgreeAtTop (p q : RuleEntry → Prop) : Prop :=
  ∀ r r', q r → q r' → IsBest compareRulesForMatch p r → IsBest compareRulesForMatch p r' →
    r.action = .deny → r.reasonCode = r'.reasonCode ∧ r.shardId = r'.shardId

/-- The rules of a source that match a query and have not expired. -/
def SourceOfTruth.Matching (st : SourceOfTruth) (tenantId namespace' rawValue : String)
    (nowUnix : Nat) (r : RuleEntry) : Prop :=
  st.rules.lookup r.ruleKey = some r ∧ r.Live tenantId namespace' rawValue nowUnix

/-- The rules of the overlay that match a query and have not expired. -/
def ActiveState.MatchingDelta (a : ActiveState) (tenantId namespace' rawValue : String)
    (nowUnix : Nat) (r : RuleEntry) : Prop :=
  a.deltaRuleAdds.lookup r.ruleKey = some r ∧ r.Live tenantId namespace' rawValue nowUnix

/-- The rules that an edge considers for a query. -/
def ActiveState.Matching (a : ActiveState) (tenantId namespace' rawValue : String)
    (nowUnix : Nat) (r : RuleEntry) : Prop :=
  a.MatchingDelta tenantId namespace' rawValue nowUnix r ∨
    (a.ruleBase.Holds r ∧ r.ruleKey ∉ a.deltaRuleRemoves ∧
      r.Live tenantId namespace' rawValue nowUnix)

/-- A loop over rules in some order that keeps the best of those that satisfy `p`, and then over
`after`: the decision is the same in every order exactly when the rules of the first loop that are
best of all agree. -/
theorem decision_order_iff {rules after : List RuleEntry} {skip skip' : RuleEntry → Bool}
    {p q : RuleEntry → Prop} (hq : ∀ r, q r ↔ r ∈ rules ∧ skip r = false)
    (hp : ∀ r, p r ↔ q r ∨ (r ∈ after ∧ skip' r = false)) :
    (∀ ord ord' : IterOrder,
        (RuleMatch.intoDecision (keepBest compareRulesForMatch skip'
          (keepBest compareRulesForMatch skip none (ord.order rules)) after)) =
        (RuleMatch.intoDecision (keepBest compareRulesForMatch skip'
          (keepBest compareRulesForMatch skip none (ord'.order rules)) after))) ↔
      AgreeAtTop p q := by
  rw [keepBest_order_iff RuleMatch.intoDecision]
  have hwin : ∀ r, MayWin compareRulesForMatch skip skip' rules after r ↔
      q r ∧ IsBest compareRulesForMatch p r := by
    intro r
    constructor
    · intro h
      have hqr : q r := (hq r).mpr ⟨h.mem, h.taken⟩
      refine ⟨hqr, (hp r).mpr (Or.inl hqr), fun a ha => ?_⟩
      rcases (hp a).mp ha with ha | ⟨ha, hs⟩
      · exact h.best a ((hq a).mp ha).1 ((hq a).mp ha).2
      · exact h.kept a ha hs
    · rintro ⟨hqr, hbest⟩
      exact
        { mem := ((hq r).mp hqr).1
          taken := ((hq r).mp hqr).2
          best := fun a ha hs => hbest.2 a ((hp a).mpr (Or.inl ((hq a).mpr ⟨ha, hs⟩)))
          kept := fun a ha hs => hbest.2 a ((hp a).mpr (Or.inr ⟨ha, hs⟩)) }
  constructor
  · intro h r r' hr hr' hbest hbest'
    obtain ⟨h1, h2, h3⟩ := CompiledRules.rank_eq_of_isBest hbest hbest'
    exact (intoDecision_eq_iff h1 h2 h3).mp
      (h r r' ((hwin r).mpr ⟨hr, hbest⟩) ((hwin r').mpr ⟨hr', hbest'⟩))
  · intro h r r' hr hr'
    obtain ⟨hqr, hbest⟩ := (hwin r).mp hr
    obtain ⟨hqr', hbest'⟩ := (hwin r').mp hr'
    obtain ⟨h1, h2, h3⟩ := CompiledRules.rank_eq_of_isBest hbest hbest'
    exact (intoDecision_eq_iff h1 h2 h3).mpr (h r r' hqr hqr' hbest hbest')

/-- A check that falls back on a decision in an order is the same in every order exactly when the
point lookup denies, or the decision is the same. -/
theorem check_order_iff_of_decision {point : Decision} {decision : IterOrder → Decision} :
    (∀ ord ord', (if point.isDenied then point else decision ord) =
        if point.isDenied then point else decision ord') ↔
      point.isDenied = true ∨ ∀ ord ord', decision ord = decision ord' := by
  cases hd : point.isDenied <;> simp

theorem SourceOfTruth.check_order_iff (st : SourceOfTruth) (tenantId namespace' rawValue : String)
    (nowUnix : Nat) :
    (∀ ord ord', st.check ord tenantId namespace' rawValue nowUnix =
        st.check ord' tenantId namespace' rawValue nowUnix) ↔
      (st.lookup tenantId namespace' rawValue nowUnix).isDenied = true ∨
        AgreeAtTop (st.Matching tenantId namespace' rawValue nowUnix)
          (st.Matching tenantId namespace' rawValue nowUnix) := by
  let matching : RuleEntry → Bool := fun r =>
    decide (r.tenantId = tenantId ∧ ruleMatchesNamespace r namespace' rawValue = true)
  have hfold : ∀ ord, st.bestRule ord tenantId namespace' rawValue nowUnix =
      keepBest compareRulesForMatch (fun r => !matching r || r.isExpired nowUnix) none
        (ord.order (st.rules.entries.map Sigma.snd)) := fun ord => by
    rw [← foldl_consider]
    simp only [bestRule, matching, decide_eq_true_eq, HashMap.values]
  have hq : ∀ r, st.Matching tenantId namespace' rawValue nowUnix r ↔
      r ∈ st.rules.entries.map Sigma.snd ∧ (!matching r || r.isExpired nowUnix) = false := by
    intro r
    simp only [Matching, RuleEntry.Live, st.rules_keyed.mem_entries, matching, Bool.or_eq_false_iff,
      Bool.not_eq_eq_eq_not, Bool.not_false, decide_eq_true_eq, and_assoc]
  unfold check
  simp only [hfold]
  rw [check_order_iff_of_decision]
  have hp : ∀ r, st.Matching tenantId namespace' rawValue nowUnix r ↔
      st.Matching tenantId namespace' rawValue nowUnix r ∨
        (r ∈ ([] : List RuleEntry) ∧ (fun _ => false) r = false) := fun r => by simp
  exact or_congr_right (decision_order_iff hq hp)

theorem ActiveState.check_order_iff (a : ActiveState) (tenantId namespace' rawValue : String)
    (nowUnix : Nat) :
    (∀ ord ord', a.check ord tenantId namespace' rawValue nowUnix =
        a.check ord' tenantId namespace' rawValue nowUnix) ↔
      (a.lookup tenantId namespace' rawValue nowUnix).isDenied = true ∨
        AgreeAtTop (a.Matching tenantId namespace' rawValue nowUnix)
          (a.MatchingDelta tenantId namespace' rawValue nowUnix) := by
  let matching : RuleEntry → Bool := fun r =>
    decide (r.tenantId = tenantId ∧ ruleMatchesNamespace r namespace' rawValue = true)
  have hfold : ∀ ord, a.bestRule ord tenantId namespace' rawValue nowUnix =
      keepBest compareRulesForMatch
        (fun r => !decide (r.ruleKey ∉ a.deltaRuleRemoves) || r.isExpired nowUnix)
        (keepBest compareRulesForMatch (fun r => !matching r || r.isExpired nowUnix) none
          (ord.order (a.deltaRuleAdds.entries.map Sigma.snd)))
        (a.ruleBase.candidates tenantId namespace' rawValue) := fun ord => by
    rw [bestRule, CompiledRules.considerMatches_eq, ← foldl_consider nowUnix matching]
    simp only [considerDeltaRules, matching, decide_eq_true_eq, HashMap.values]
  have hq : ∀ r, a.MatchingDelta tenantId namespace' rawValue nowUnix r ↔
      r ∈ a.deltaRuleAdds.entries.map Sigma.snd ∧
        (!matching r || r.isExpired nowUnix) = false := by
    intro r
    simp only [MatchingDelta, RuleEntry.Live, a.ruleAdds_keyed.mem_entries, matching, Bool.or_eq_false_iff,
      Bool.not_eq_eq_eq_not, Bool.not_false, decide_eq_true_eq, and_assoc]
  have hp : ∀ r, a.Matching tenantId namespace' rawValue nowUnix r ↔
      a.MatchingDelta tenantId namespace' rawValue nowUnix r ∨
        (r ∈ a.ruleBase.candidates tenantId namespace' rawValue ∧
          (!decide (r.ruleKey ∉ a.deltaRuleRemoves) || r.isExpired nowUnix) = false) := by
    intro r
    refine or_congr_right ?_
    simp only [CompiledRules.mem_candidates, RuleEntry.Live, Bool.or_eq_false_iff,
      Bool.not_eq_eq_eq_not, Bool.not_false, decide_eq_true_eq]
    constructor
    · rintro ⟨hh, hrem, ht, hm, he⟩
      exact ⟨⟨hh, ht, hm⟩, hrem, he⟩
    · rintro ⟨⟨hh, ht, hm⟩, hrem, he⟩
      exact ⟨hh, hrem, ht, hm, he⟩
  unfold check
  simp only [hfold]
  rw [check_order_iff_of_decision]
  exact or_congr_right (decision_order_iff hq hp)

/-- A check of a source, and one of an edge, gives the same decision in every order of its rules
exactly when the point lookup denies, or the best of the rules that match agree. -/
theorem same_in_every_order_iff (st : SourceOfTruth) (a : ActiveState)
    (tenantId namespace' rawValue : String) (nowUnix : Nat) :
    ((∀ ord ord', st.check ord tenantId namespace' rawValue nowUnix =
        st.check ord' tenantId namespace' rawValue nowUnix) ↔
      (st.lookup tenantId namespace' rawValue nowUnix).isDenied = true ∨
        AgreeAtTop (st.Matching tenantId namespace' rawValue nowUnix)
          (st.Matching tenantId namespace' rawValue nowUnix)) ∧
      ((∀ ord ord', a.check ord tenantId namespace' rawValue nowUnix =
          a.check ord' tenantId namespace' rawValue nowUnix) ↔
        (a.lookup tenantId namespace' rawValue nowUnix).isDenied = true ∨
          AgreeAtTop (a.Matching tenantId namespace' rawValue nowUnix)
            (a.MatchingDelta tenantId namespace' rawValue nowUnix)) :=
  ⟨st.check_order_iff tenantId namespace' rawValue nowUnix,
    a.check_order_iff tenantId namespace' rawValue nowUnix⟩

namespace TwoShards

/-- Two denials of domains that live on different shards, so that both get the number `1`. -/
def requests : List Request :=
  [.rule 0 ⟨"op1", "t", .domainSuffix, "com", .deny, 0, "com", 0, "ops", .p0⟩,
    .rule 0 ⟨"op2", "t", .domainSuffix, "a.com", .deny, 0, "a.com", 0, "ops", .p0⟩]

/-- The source after the two denials. -/
def source : SourceOfTruth := ((SourceOfTruth.new 2 "r").requests requests).2

end TwoShards

/-- Two denials of different shards: the order of the hash map decides which one is reported. -/
theorem not_same_in_every_order :
    ¬∀ (shardCount : Nat) (sourceRegion : String) (rs : List Request)
      (tenantId namespace' rawValue : String) (nowUnix : Nat) (ord ord' : IterOrder),
      ((SourceOfTruth.new shardCount sourceRegion).requests rs).2.check ord tenantId namespace'
          rawValue nowUnix =
        ((SourceOfTruth.new shardCount sourceRegion).requests rs).2.check ord' tenantId namespace'
          rawValue nowUnix := by
  intro h
  have heq : TwoShards.source.check .given "t" "domain" "a.com" 0 =
      TwoShards.source.check .backward "t" "domain" "a.com" 0 :=
    h 2 "r" TwoShards.requests "t" "domain" "a.com" 0 .given .backward
  revert heq
  decide +kernel

end Globacl
