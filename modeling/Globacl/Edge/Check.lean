import Globacl.Core.Decisions
import Globacl.Edge.Converge

/-!
# Rule checks on an edge

`ActiveState::check` considers the rules of the overlay, and then the rules of the base that are
not in `delta_rule_removes`. It does not leave out the rules of the base that `delta_rule_adds`
supersedes, as `lookup` does for entries and `materialized_rules` does for rules. Such a stale rule
still competes with its successor.

* `bestOf_bestRule`: an edge decides by the best of the current and the stale rules that match.
* `check_agrees_iff`: an edge at the source's watermarks agrees with the source exactly when no
  stale rule changes the verdict.
-/

namespace Globacl

open Lib

/-! ## Ranks and verdicts -/

/-- The priority of a denial; nothing for an allowance. -/
def Decision.denyPriority : Decision → Option Nat
  | .allow => none
  | .deny _ priority _ => some priority

/-- The rule `left` is preferred to `right` by priority and action, whatever their commits. -/
def Outranks (left right : RuleEntry) : Prop :=
  right.priority < left.priority ∨
    (right.priority = left.priority ∧ actionRank right.action < actionRank left.action)

theorem actionRank_injective {a b : Action} (h : actionRank a = actionRank b) : a = b := by
  cases a <;> cases b <;> first | rfl | exact absurd h (by decide)

theorem Outranks.compare_lt {left right : RuleEntry} (h : Outranks left right) :
    compareRulesForMatch left right = .lt := by
  unfold compareRulesForMatch
  rcases h with h | ⟨heq, h⟩
  · rw [Nat.compare_eq_lt.mpr h]
    rfl
  · rw [Nat.compare_eq_eq.mpr heq, Nat.compare_eq_lt.mpr h]
    rfl

/-- The best candidate is outranked by no candidate. -/
theorem not_outranks_best {p : RuleEntry → Prop} {best r : RuleEntry}
    (h : IsBest compareRulesForMatch p best) (hr : p r) : ¬Outranks r best :=
  fun ho => h.2 r hr ho.compare_lt

/-- The verdict of a rule. -/
def RuleEntry.verdict (r : RuleEntry) : Option Nat :=
  if r.action = .deny then some r.priority else none

theorem intoDecision_denyPriority (best : RuleMatch) :
    best.intoDecision.denyPriority = best.bind RuleEntry.verdict := by
  cases best with
  | none => rfl
  | some r =>
    unfold RuleMatch.intoDecision
    cases hact : r.action <;> simp [Decision.denyPriority, RuleEntry.verdict, hact]

/-- Rules that do not outrank each other have one verdict. -/
theorem verdict_eq {r r' : RuleEntry} (h : ¬Outranks r r') (h' : ¬Outranks r' r) :
    r.verdict = r'.verdict := by
  unfold Outranks at h h'
  have hp : r.priority = r'.priority := by omega
  have ha : r.action = r'.action := actionRank_injective (by omega)
  rw [RuleEntry.verdict, RuleEntry.verdict, hp, ha]

/-! ## Stale rules -/

namespace ActiveState

/-- A rule of the base that an addition of the overlay supersedes, and that `check` does not leave
out. -/
def Stale (a : ActiveState) (r : RuleEntry) : Prop :=
  a.ruleBase.Holds r ∧ r.ruleKey ∉ a.deltaRuleRemoves ∧ r.ruleKey ∈ a.deltaRuleAdds

/-- A stale rule that matches the query decides in the place of the current rules: it outranks all
of these, and it denies, or the strongest of these denies. -/
def StaleWins (a : ActiveState) (st : SourceOfTruth) (live : RuleEntry → Prop) : Prop :=
  ∃ stale, a.Stale stale ∧ live stale ∧
    (∀ r, st.rules.lookup r.ruleKey = some r → live r → Outranks stale r) ∧
    (∀ r, a.Stale r → live r → ¬Outranks r stale) ∧
    (stale.action = .deny ∨
      ∃ r, st.rules.lookup r.ruleKey = some r ∧ live r ∧ r.action = .deny ∧
        ∀ r', st.rules.lookup r'.ruleKey = some r' → live r' → ¬Outranks r' r)

/-- An edge decides by the best of the current and the stale rules. -/
theorem bestOf_bestRule {a : ActiveState} (hu : a.ruleBase.Unique) (ord : IterOrder)
    (tenantId namespace' rawValue : String) (nowUnix : Nat) :
    BestOf compareRulesForMatch
      (fun r => (a.ruleAt r.ruleKey = some r ∨ a.Stale r) ∧
        r.Live tenantId namespace' rawValue nowUnix)
      (a.bestRule ord tenantId namespace' rawValue nowUnix) := by
  have hdelta := foldl_consider nowUnix
    (fun r => decide (r.tenantId = tenantId ∧ ruleMatchesNamespace r namespace' rawValue = true))
    none (a.deltaRuleAdds.values ord)
  simp only [decide_eq_true_eq] at hdelta
  rw [bestRule, considerDeltaRules, hdelta, CompiledRules.considerMatches_eq]
  refine ((bestOf_keepBest _).keepBest _).congr fun r => ?_
  simp only [a.ruleAdds_keyed.mem_values, CompiledRules.mem_candidates, Bool.or_eq_false_iff,
    Bool.not_eq_eq_eq_not, Bool.not_false, decide_eq_true_eq, RuleEntry.Live, Stale]
  -- where the key of the rule stands in the overlay
  cases hadd : a.deltaRuleAdds.lookup r.ruleKey with
  | some r' =>
    have hmem : r.ruleKey ∈ a.deltaRuleAdds := HashMap.mem_iff_lookup.mpr ⟨r', hadd⟩
    rw [ruleAt, overlay_of_add hadd]
    simp only [hmem, and_true, or_and_right, and_assoc]
    refine or_congr_right ⟨?_, ?_⟩
    · rintro ⟨hh, ht, hm, hr, he⟩
      exact ⟨hh, hr, ht, hm, he⟩
    · rintro ⟨hh, hr, ht, hm, he⟩
      exact ⟨hh, ht, hm, hr, he⟩
  | none =>
    have hmem : r.ruleKey ∉ a.deltaRuleAdds := HashMap.not_mem_iff_lookup.mpr hadd
    by_cases hrem : r.ruleKey ∈ a.deltaRuleRemoves
    · rw [ruleAt, overlay_of_remove hadd hrem]
      simp [hmem, hrem]
    · rw [ruleAt, overlay_of_base hadd hrem, CompiledRules.find_eq_some hu]
      simp only [hmem, hrem, and_false, or_false, not_false_eq_true, true_and, reduceCtorEq,
        false_and, false_or, and_true, and_assoc]

end ActiveState

namespace ActiveState

variable {shardCount : Nat} {sourceRegion : String} {before after : List Mutation}
  {st : SourceOfTruth} {a : ActiveState}

/-- An edge at the source's watermarks holds the source's entries and rules. -/
theorem EdgeRun.holds_eq (h : EdgeRun shardCount sourceRegion before after st a)
    (hw : a.watermarks = st.watermarks) :
    (∀ key, a.entryAt key = st.entries.lookup key) ∧
      ∀ key, a.ruleAt key = st.rules.lookup key := by
  have hrep := h.represents
  have hedge := h.edgeAt
  have hall : ∀ s, (shardLog (before ++ after) s).take (a.watermark s) =
      shardLog (before ++ after) s := fun s => by
    have : a.watermark s = st.watermark s := by
      rw [watermark, hw, SourceOfTruth.watermark]
    rw [this, hrep.watermark, List.take_length]
  exact ⟨fun key => by rw [hedge.entry, hall, entryAfter_shardLog hrep.valid.routed, hrep.entries],
    fun key => by rw [hedge.rule, hall, ruleAfter_shardLog hrep.valid.routed, hrep.rules]⟩

/-- The verdicts of the best of all rules and of the best of the current rules. -/
theorem verdict_eq_iff {live : RuleEntry → Prop} {best best' : RuleMatch}
    (hedge : BestOf compareRulesForMatch
      (fun r => (st.rules.lookup r.ruleKey = some r ∨ a.Stale r) ∧ live r) best)
    (hsource : BestOf compareRulesForMatch
      (fun r => st.rules.lookup r.ruleKey = some r ∧ live r) best') :
    best.bind RuleEntry.verdict = best'.bind RuleEntry.verdict ↔ ¬a.StaleWins st live := by
  cases best with
  | none =>
    -- no rule matches at all
    have hnone := hedge.not_candidate rfl
    have hsource_none : best' = none := by
      cases best' with
      | none => rfl
      | some r =>
        obtain ⟨⟨hr, hrl⟩, -⟩ := hsource.isBest r rfl
        exact absurd ⟨Or.inl hr, hrl⟩ (hnone r)
    subst hsource_none
    refine ⟨?_, fun _ => rfl⟩
    rintro - ⟨stale, hs, hl, -⟩
    exact hnone stale ⟨Or.inr hs, hl⟩
  | some e =>
    have hedge := hedge.isBest e rfl
    obtain ⟨⟨he, hel⟩, -⟩ := id hedge
    by_cases hout : ∃ r, st.rules.lookup r.ruleKey = some r ∧ live r ∧ ¬Outranks e r
    · -- a current rule is as strong as the best, and so is the best current one
      obtain ⟨r, hr, hrl, hnout⟩ := hout
      cases best' with
      | none => exact absurd ⟨hr, hrl⟩ (hsource.not_candidate rfl r)
      | some s =>
        have hsource := hsource.isBest s rfl
        have h1 : ¬Outranks s e := not_outranks_best hedge ⟨Or.inl hsource.1.1, hsource.1.2⟩
        have h2 : ¬Outranks r s := not_outranks_best hsource ⟨hr, hrl⟩
        have hverdict : e.verdict = s.verdict := verdict_eq (by unfold Outranks at *; omega) h1
        refine ⟨?_, fun _ => hverdict⟩
        rintro - ⟨stale, hs, hl, hover, -⟩
        have h3 := hover r hr hrl
        have h4 : ¬Outranks stale e := not_outranks_best hedge ⟨Or.inr hs, hl⟩
        unfold Outranks at *
        omega
    · -- the best outranks every current rule, so it is stale
      have hover : ∀ r, st.rules.lookup r.ruleKey = some r → live r → Outranks e r :=
        fun r hr hrl => by
          by_contra hno
          exact hout ⟨r, hr, hrl, hno⟩
      have hstale : a.Stale e := he.resolve_left fun hcur => by
        have := hover e hcur hel
        unfold Outranks at this
        omega
      have htop : ∀ r, a.Stale r → live r → ¬Outranks r e :=
        fun r hr hrl => not_outranks_best hedge ⟨Or.inr hr, hrl⟩
      -- every winner has the action of the best
      have hwins : a.StaleWins st live ↔ e.action = .deny ∨
          ∃ r, st.rules.lookup r.ruleKey = some r ∧ live r ∧ r.action = .deny ∧
            ∀ r', st.rules.lookup r'.ruleKey = some r' → live r' → ¬Outranks r' r := by
        constructor
        · rintro ⟨stale, hs, hl, -, hmax, hact⟩
          have h1 := hmax e hstale hel
          have h2 := htop stale hs hl
          have : stale.action = e.action := by
            unfold Outranks at h1 h2
            exact actionRank_injective (by omega)
          rwa [this] at hact
        · exact fun hact => ⟨e, hstale, hel, hover, htop, hact⟩
      rw [hwins]
      cases best' with
      | none =>
        have hno : ¬∃ r, st.rules.lookup r.ruleKey = some r ∧ live r ∧ r.action = .deny ∧
            ∀ r', st.rules.lookup r'.ruleKey = some r' → live r' → ¬Outranks r' r := by
          rintro ⟨r, hr, hrl, -⟩
          exact hsource.not_candidate rfl r ⟨hr, hrl⟩
        by_cases hact : e.action = .deny <;> simp [RuleEntry.verdict, hact, hno]
      | some s =>
        have hsource := hsource.isBest s rfl
        have hes := hover s hsource.1.1 hsource.1.2
        have htop' : ∀ r, st.rules.lookup r.ruleKey = some r → live r → ¬Outranks r s :=
          fun r hr hrl => not_outranks_best hsource ⟨hr, hrl⟩
        have hdeny : (∃ r, st.rules.lookup r.ruleKey = some r ∧ live r ∧ r.action = .deny ∧
            ∀ r', st.rules.lookup r'.ruleKey = some r' → live r' → ¬Outranks r' r) ↔
            s.action = .deny := by
          constructor
          · rintro ⟨r, hr, hrl, hact, hmax⟩
            have h1 := hmax s hsource.1.1 hsource.1.2
            have h2 := htop' r hr hrl
            have : s.action = r.action := by
              unfold Outranks at h1 h2
              exact actionRank_injective (by omega)
            rw [this, hact]
          · exact fun hact => ⟨s, hsource.1.1, hsource.1.2, hact, htop'⟩
        rw [hdeny]
        simp only [Option.bind_some, RuleEntry.verdict]
        by_cases h1 : e.action = .deny <;> by_cases h2 : s.action = .deny <;> simp [h1, h2]
        -- both deny, so the stale rule is stronger by its priority
        unfold Outranks at hes
        rw [h1, h2] at hes
        omega

end ActiveState

/-- An edge whose watermarks are the source's agrees with the source on whether a check denies and
with which priority, exactly when the point lookup denies or no stale rule wins. -/
theorem check_agrees_iff {shardCount : Nat} {sourceRegion : String} {before after : List Mutation}
    {st : SourceOfTruth} {a : ActiveState}
    (h : ActiveState.EdgeRun shardCount sourceRegion before after st a)
    (hw : a.watermarks = st.watermarks) (ord ord' : IterOrder)
    (tenantId namespace' rawValue : String) (nowUnix : Nat) :
    (a.check ord tenantId namespace' rawValue nowUnix).denyPriority =
        (st.check ord' tenantId namespace' rawValue nowUnix).denyPriority ↔
      (st.lookup tenantId namespace' rawValue nowUnix).isDenied = true ∨
        ¬a.StaleWins st (RuleEntry.Live tenantId namespace' rawValue nowUnix) := by
  obtain ⟨hentry, hrule⟩ := h.holds_eq hw
  have hpoint : a.lookup tenantId namespace' rawValue nowUnix =
      st.lookup tenantId namespace' rawValue nowUnix := by
    rw [a.lookup_eq, hentry, SourceOfTruth.lookup]
  have hedge := ActiveState.bestOf_bestRule h.edgeAt.unique ord tenantId namespace' rawValue nowUnix
  simp only [hrule] at hedge
  have hsource := st.bestOf_bestRule ord' tenantId namespace' rawValue nowUnix
  by_cases hden : (st.lookup tenantId namespace' rawValue nowUnix).isDenied = true
  · have hden' : (a.lookup tenantId namespace' rawValue nowUnix).isDenied = true := hpoint ▸ hden
    rw [ActiveState.check, if_pos hden', SourceOfTruth.check, if_pos hden, hpoint]
    exact iff_of_true rfl (Or.inl hden)
  · have hden' : ¬(a.lookup tenantId namespace' rawValue nowUnix).isDenied = true := hpoint ▸ hden
    simp only [ActiveState.check, SourceOfTruth.check, if_neg hden, if_neg hden',
      intoDecision_denyPriority]
    rw [or_iff_right hden]
    exact ActiveState.verdict_eq_iff hedge hsource

/-! ## A pattern that is committed again -/

/-- A request for a rule on the network `10.0.0.0/8`. -/
def networkRequest (opId : String) (action : Action) (priority : Nat) : RuleRequest :=
  { opId, tenantId := "acme", kind := .ipv4Cidr, pattern := "10.0.0.0/8", action, priority,
    reasonCode := "abuse", expiresAt := 0, createdBy := "ops", deliveryPriority := .p0 }

/-- A network is denied, an edge takes a snapshot, and the same pattern is committed again as a
weaker allowance, which the edge applies. -/
def recommittedPattern :
    Result (SourceOfTruth × ActiveState × (CommitOutcome × SourceOfTruth) ×
      (ApplyStatus × ActiveState)) := do
  let (_, st₀) ← (SourceOfTruth.new 1 "eu").commitRule 0 (networkRequest "op-1" .deny 50)
  let a₀ ← ActiveState.fromSnapshot (st₀.snapshot .given)
  let committed ← st₀.commitRule 0 (networkRequest "op-2" .allowOverride 10)
  let applied ← a₀.applyMutation committed.1.mutation
  pure (st₀, a₀, committed, applied)

theorem recommittedPattern_run :
    ∃ before after st a, ActiveState.EdgeRun 1 "eu" before after st a ∧
      a.watermarks = st.watermarks ∧
      a.check .given "acme" "ip" "10.1.2.3" 100 = .deny "abuse" 50 ⟨0, 1, 1, ""⟩ ∧
      st.check .given "acme" "ip" "10.1.2.3" 100 = .allow := by
  have hrun : (recommittedPattern.map fun (_, _, (o, st), (_, a)) =>
      (o.duplicate, decide (a.watermarks = st.watermarks),
        a.check .given "acme" "ip" "10.1.2.3" 100, st.check .given "acme" "ip" "10.1.2.3" 100)) =
      .ok (false, true, .deny "abuse" 50 ⟨0, 1, 1, ""⟩, .allow) := by
    decide +kernel
  obtain ⟨⟨st₀, a₀, ⟨o, st⟩, ⟨status, a⟩⟩, hrun, hres⟩ := map_eq_ok.mp hrun
  simp only [recommittedPattern, bind_eq_ok] at hrun
  obtain ⟨⟨o₀, _⟩, h₀, _, hsnap, ⟨_, _⟩, hcommit, ⟨_, _⟩, happly, hrun⟩ := hrun
  cases hrun
  simp only [Prod.mk.injEq, decide_eq_true_eq] at hres
  obtain ⟨hdup, hw, hedge, hsource⟩ := hres
  have hstep := SourceOfTruth.CommitStep.commitRule hcommit
  refine ⟨_, _, _, _, ⟨_, .given, _, Run.single (.commitRule h₀), Run.single hstep, hsnap,
    .single (.deliver (m := o.mutation) ?_ happly)⟩, hw, hedge, hsource⟩
  simp [hdup]

/-- The edge still denies with the stale rule where the source allows. -/
theorem check_disagrees_recommittedPattern :
    ¬∀ (shardCount : Nat) (sourceRegion : String) (before after : List Mutation)
      (st : SourceOfTruth) (a : ActiveState),
      ActiveState.EdgeRun shardCount sourceRegion before after st a →
      a.watermarks = st.watermarks →
      ∀ (ord ord' : IterOrder) (tenantId namespace' rawValue : String) (nowUnix : Nat),
        (a.check ord tenantId namespace' rawValue nowUnix).denyPriority =
          (st.check ord' tenantId namespace' rawValue nowUnix).denyPriority := by
  intro hall
  obtain ⟨before, after, st, a, h, hw, hedge, hsource⟩ := recommittedPattern_run
  have := hall 1 "eu" before after st a h hw .given .given "acme" "ip" "10.1.2.3" 100
  rw [hedge, hsource] at this
  cases this

theorem check_agrees_iff_recommittedPattern :
    ∃ before after st a, ActiveState.EdgeRun 1 "eu" before after st a ∧
      ((a.check .given "acme" "ip" "10.1.2.3" 100).denyPriority =
          (st.check .given "acme" "ip" "10.1.2.3" 100).denyPriority ↔
        (st.lookup "acme" "ip" "10.1.2.3" 100).isDenied = true ∨
          ¬a.StaleWins st (RuleEntry.Live "acme" "ip" "10.1.2.3" 100)) := by
  obtain ⟨before, after, st, a, h, hw, -⟩ := recommittedPattern_run
  exact ⟨before, after, st, a, h, check_agrees_iff h hw .given .given "acme" "ip" "10.1.2.3" 100⟩

end Globacl
