import Globacl.Core.Represents

/-!
# The decisions of a source (`globacl-core/src/lib/source.rs`)

A source answers from the requests that it accepted: a point lookup from the latest one on the same key,
a check also from the latest versions of the rules that match the value.

* `SourceOfTruth.bestOf_bestRule`: a source decides by the best of its rules.
* `Logged`: the invariant between the accepted requests and the state. `Logged.request`: a step.
* `decides`: the main result.
-/

namespace Globacl

open Lib

/-- The rule matches the query and has not expired. -/
def RuleEntry.Live (tenantId namespace' rawValue : String) (nowUnix : Nat) (r : RuleEntry) : Prop :=
  r.tenantId = tenantId ∧ ruleMatchesNamespace r namespace' rawValue = true ∧
    r.isExpired nowUnix = false

/-- A source decides by the best of its rules. -/
theorem SourceOfTruth.bestOf_bestRule (st : SourceOfTruth) (ord : IterOrder)
    (tenantId namespace' rawValue : String) (nowUnix : Nat) :
    BestOf compareRulesForMatch
      (fun r => st.rules.lookup r.ruleKey = some r ∧ r.Live tenantId namespace' rawValue nowUnix)
      (st.bestRule ord tenantId namespace' rawValue nowUnix) := by
  have hfold := foldl_consider nowUnix
    (fun r => decide (r.tenantId = tenantId ∧ ruleMatchesNamespace r namespace' rawValue = true))
    none (st.rules.values ord)
  simp only [decide_eq_true_eq] at hfold
  rw [bestRule, hfold]
  refine (bestOf_keepBest _).congr fun r => ?_
  simp only [st.rules_keyed.mem_values, Bool.or_eq_false_iff, Bool.not_eq_eq_eq_not,
    Bool.not_false, decide_eq_true_eq, RuleEntry.Live, and_assoc]

/-! ## Requests -/

/-- A request to a source at the time `now`. -/
inductive Request where
  | point (now : Nat) (request : DenyRequest)
  | rule (now : Nat) (request : RuleRequest)

/-- A request that a source committed as new, and the commit id that it got. -/
inductive Accepted where
  | point (request : DenyRequest) (commitId : CommitId)
  | rule (request : RuleRequest) (commitId : CommitId)

/-- The key that a point request is about. -/
def DenyRequest.aclKey (request : DenyRequest) : AclKey :=
  AclKey.fromRaw request.tenantId request.namespace' request.key

/-- What a point request stores under its key. -/
def DenyRequest.entry (request : DenyRequest) (commitId : CommitId) : DenyEntry :=
  { tenantId := request.tenantId, namespace' := request.namespace',
    keyHash := request.aclKey.keyHash, action := request.action, priority := request.priority,
    reasonCode := request.reasonCode, expiresAt := request.expiresAt,
    createdBy := request.createdBy, commitSeq := commitId.seq, shardId := commitId.shardId }

/-- The version of a rule that a rule request stores, if its pattern can be compiled. -/
def RuleRequest.version (request : RuleRequest) (commitId : CommitId) : Option RuleEntry :=
  match compileRulePattern request.kind request.pattern with
  | .error _ => none
  | .ok compiled => some
      { tenantId := request.tenantId, kind := request.kind, pattern := compiled.canonicalPattern,
        ruleHash := stableKeyHash request.tenantId request.kind.asStr compiled.canonicalPattern,
        action := request.action, priority := request.priority, reasonCode := request.reasonCode,
        expiresAt := request.expiresAt, createdBy := request.createdBy, commitSeq := commitId.seq,
        shardId := commitId.shardId, ipv4Network := compiled.ipv4Network,
        ipv4PrefixLen := compiled.ipv4PrefixLen, domainSuffix := compiled.domainSuffix }

/-- The latest point request on a key. -/
def latestPoint (log : List Accepted) (key : AclKey) : Option (DenyRequest × CommitId) :=
  log.reverse.findSome? fun
    | .point request commitId => if request.aclKey = key then some (request, commitId) else none
    | .rule .. => none

/-- The latest version of a rule. -/
def latestRule (log : List Accepted) (key : RuleKey) : Option RuleEntry :=
  log.reverse.findSome? fun
    | .point .. => none
    | .rule request commitId => (request.version commitId).filter fun r => r.ruleKey = key

namespace SourceOfTruth

/-- A request, and what the source accepted of it: nothing if it is a duplicate or an error. -/
def request (st : SourceOfTruth) : Request → List Accepted × SourceOfTruth
  | .point now request =>
    match st.commit now request with
    | .ok (outcome, st') =>
      (if outcome.duplicate then [] else [.point request outcome.mutation.commitId], st')
    | .error _ => ([], st)
  | .rule now request =>
    match st.commitRule now request with
    | .ok (outcome, st') =>
      (if outcome.duplicate then [] else [.rule request outcome.mutation.commitId], st')
    | .error _ => ([], st)

/-- A sequence of requests, and what the source accepted of them in order. -/
def requests (st : SourceOfTruth) : List Request → List Accepted × SourceOfTruth
  | [] => ([], st)
  | r :: rs =>
    let (accepted, st') := st.request r
    let (rest, st'') := st'.requests rs
    (accepted ++ rest, st'')

/-- The entries and the rules are the latest ones that were accepted. -/
structure Logged (log : List Accepted) (st : SourceOfTruth) : Prop where
  entries : ∀ key, st.entries.lookup key = (latestPoint log key).bind fun (request, commitId) =>
    if request.action = .delete then none else some (request.entry commitId)
  rules : ∀ key, st.rules.lookup key = (latestRule log key).filter fun r => r.action ≠ .delete

section Logged

variable {log : List Accepted} {st st' : SourceOfTruth}

theorem logged_new (shardCount : Nat) (sourceRegion : String) :
    Logged [] (new shardCount sourceRegion) := ⟨fun _ => rfl, fun _ => rfl⟩

theorem latestPoint_concat (log : List Accepted) (a : Accepted) (key : AclKey) :
    latestPoint (log ++ [a]) key = (latestPoint [a] key).or (latestPoint log key) := by
  simp only [latestPoint, List.reverse_append, List.reverse_singleton, List.findSome?_append]

theorem latestRule_concat (log : List Accepted) (a : Accepted) (key : RuleKey) :
    latestRule (log ++ [a]) key = (latestRule [a] key).or (latestRule log key) := by
  simp only [latestRule, List.reverse_append, List.reverse_singleton, List.findSome?_append]

/-- What a new point request commits. -/
theorem prepareCommit_new {now : Nat} {request : DenyRequest} {outcome : CommitOutcome}
    (h : st.prepareCommit now request = .ok outcome) (hnew : outcome.duplicate = false) :
    outcome.mutation.rule = none ∧
      outcome.mutation.entry = request.entry outcome.mutation.commitId := by
  unfold prepareCommit at h
  split at h
  · cases h
  split at h
  · cases h; cases hnew
  · cases h; exact ⟨rfl, rfl⟩

/-- What a new rule request commits. -/
theorem prepareRuleCommit_new {now : Nat} {request : RuleRequest} {outcome : CommitOutcome}
    (h : st.prepareRuleCommit now request = .ok outcome) (hnew : outcome.duplicate = false) :
    ∃ rule, outcome.mutation.rule = some rule ∧
      request.version outcome.mutation.commitId = some rule := by
  unfold prepareRuleCommit at h
  split at h
  · cases h
  split at h
  · cases h; cases hnew
  split at h
  · cases h
  · rename_i compiled hc
    cases h
    exact ⟨_, rfl, by rw [RuleRequest.version, hc]⟩

/-- A point request that is not a duplicate records its entry. -/
theorem commit_ok {now : Nat} {request : DenyRequest} {outcome : CommitOutcome}
    (h : st.commit now request = .ok (outcome, st')) :
    (outcome.duplicate = true ∧ st' = st) ∨
      (outcome.duplicate = false ∧ st' = st.record outcome.mutation ∧
        outcome.mutation.entryWrite = some (request.aclKey,
          if request.action = .delete then none else some (request.entry outcome.mutation.commitId)) ∧
        outcome.mutation.ruleWrite = none) := by
  rw [SourceOfTruth.commit, bind_eq_ok] at h
  obtain ⟨prepared, hp, h⟩ := h
  obtain ⟨rfl, rfl⟩ := applyOutcome_ok (fun hd => by
    have := prepareCommit_ok hp
    rw [hd] at this
    exact this.1) h
  cases hd : outcome.duplicate with
  | true => exact Or.inl ⟨rfl, rfl⟩
  | false =>
    obtain ⟨hrule, hentry⟩ := prepareCommit_new hp hd
    refine Or.inr ⟨rfl, rfl, ?_, ?_⟩
    · rw [Mutation.entryWrite, hrule, hentry]
      rfl
    · rw [Mutation.ruleWrite, hrule]
      rfl

/-- A rule request that is not a duplicate records its version of the rule. -/
theorem commitRule_ok {now : Nat} {request : RuleRequest} {outcome : CommitOutcome}
    (h : st.commitRule now request = .ok (outcome, st')) :
    (outcome.duplicate = true ∧ st' = st) ∨
      (outcome.duplicate = false ∧ st' = st.record outcome.mutation ∧
        outcome.mutation.entryWrite = none ∧
        ∃ r, request.version outcome.mutation.commitId = some r ∧ outcome.mutation.ruleWrite =
          some (r.ruleKey, if r.action = .delete then none else some r)) := by
  rw [SourceOfTruth.commitRule, bind_eq_ok] at h
  obtain ⟨prepared, hp, h⟩ := h
  obtain ⟨rfl, rfl⟩ := applyOutcome_ok (fun hd => by
    have := prepareRuleCommit_ok hp
    rw [hd] at this
    exact this.1) h
  cases hd : outcome.duplicate with
  | true => exact Or.inl ⟨rfl, rfl⟩
  | false =>
    obtain ⟨r, hrule, hversion⟩ := prepareRuleCommit_new hp hd
    refine Or.inr ⟨rfl, rfl, ?_, r, hversion, ?_⟩
    · rw [Mutation.entryWrite, hrule]
      rfl
    · rw [Mutation.ruleWrite, hrule]
      rfl

theorem Logged.point (h : Logged log st) {m : Mutation} {request : DenyRequest}
    (hentry : m.entryWrite = some (request.aclKey,
      if request.action = .delete then none else some (request.entry m.commitId)))
    (hrule : m.ruleWrite = none) : Logged (log ++ [.point request m.commitId]) (st.record m) where
  entries key := by
    show (st.advance m).entries.lookup key = _
    rw [advance_entries, latestPoint_concat]
    by_cases hk : key = request.aclKey
    · subst hk
      rw [writeAt_of_eq hentry]
      simp [latestPoint]
    · rw [writeAt_of_ne fun v hv => hk (by rw [hentry] at hv; cases hv; rfl), h.entries]
      simp [latestPoint, Ne.symm hk]
  rules key := by
    show (st.advance m).rules.lookup key = _
    rw [advance_rules, latestRule_concat, writeAt_of_ne fun v hv => (by rw [hrule] at hv; cases hv),
      h.rules]
    simp [latestRule]

theorem Logged.rule (h : Logged log st) {m : Mutation} {request : RuleRequest} {r : RuleEntry}
    (hentry : m.entryWrite = none) (hversion : request.version m.commitId = some r)
    (hrule : m.ruleWrite = some (r.ruleKey, if r.action = .delete then none else some r)) :
    Logged (log ++ [.rule request m.commitId]) (st.record m) where
  entries key := by
    show (st.advance m).entries.lookup key = _
    rw [advance_entries, latestPoint_concat,
      writeAt_of_ne fun v hv => (by rw [hentry] at hv; cases hv), h.entries]
    simp [latestPoint]
  rules key := by
    show (st.advance m).rules.lookup key = _
    rw [advance_rules, latestRule_concat]
    by_cases hk : key = r.ruleKey
    · subst hk
      rw [writeAt_of_eq hrule]
      by_cases hd : r.action = .delete <;> simp [latestRule, hversion, Option.filter, hd]
    · rw [writeAt_of_ne fun v hv => hk (by rw [hrule] at hv; cases hv; rfl), h.rules]
      simp [latestRule, hversion, Option.filter, Ne.symm hk]

/-- A request, accepted or not, keeps the log and the state together. -/
theorem Logged.request (h : Logged log st) (r : Request) :
    Logged (log ++ (st.request r).1) (st.request r).2 := by
  have hsame : Logged (log ++ []) st := by rwa [List.append_nil]
  cases r with
  | point now request =>
    dsimp only [SourceOfTruth.request]
    cases hc : st.commit now request with
    | error err => exact hsame
    | ok result =>
      obtain ⟨outcome, st'⟩ := result
      rcases commit_ok hc with ⟨hd, rfl⟩ | ⟨hd, rfl, hentry, hrule⟩
      · dsimp only
        rw [if_pos hd]
        exact hsame
      · dsimp only
        rw [if_neg (by rw [hd]; exact Bool.false_ne_true)]
        exact h.point hentry hrule
  | rule now request =>
    dsimp only [SourceOfTruth.request]
    cases hc : st.commitRule now request with
    | error err => exact hsame
    | ok result =>
      obtain ⟨outcome, st'⟩ := result
      rcases commitRule_ok hc with ⟨hd, rfl⟩ | ⟨hd, rfl, hentry, r, hversion, hrule⟩
      · dsimp only
        rw [if_pos hd]
        exact hsame
      · dsimp only
        rw [if_neg (by rw [hd]; exact Bool.false_ne_true)]
        exact h.rule hentry hversion hrule

theorem Logged.requests (h : Logged log st) (rs : List Request) :
    Logged (log ++ (st.requests rs).1) (st.requests rs).2 := by
  induction rs generalizing log st with
  | nil => rwa [SourceOfTruth.requests, List.append_nil]
  | cons r rs ih =>
    have := ih (h.request r)
    rwa [List.append_assoc] at this

end Logged

end SourceOfTruth

/-! ## Decisions -/

/-- A version of a rule that decides about a value: the latest one of its rule, and neither a deletion
nor expired. -/
def Candidate (log : List Accepted) (tenantId namespace' rawValue : String) (nowUnix : Nat)
    (r : RuleEntry) : Prop :=
  latestRule log r.ruleKey = some r ∧ r.action ≠ .delete ∧ r.Live tenantId namespace' rawValue nowUnix

/-- The rule `r` goes before `r'`: by priority, then a denial before an override, then the later
number. -/
def Beats (r r' : RuleEntry) : Prop :=
  r'.priority < r.priority ∨ (r.priority = r'.priority ∧
    ((r.action = .deny ∧ r'.action = .allowOverride) ∨
      (r.action = r'.action ∧ r'.commitSeq < r.commitSeq)))

theorem compareRulesForMatch_eq_lt {r r' : RuleEntry} (h : r.action ≠ .delete)
    (h' : r'.action ≠ .delete) : compareRulesForMatch r r' = .lt ↔ Beats r r' := by
  unfold compareRulesForMatch Beats
  rw [Ordering.then_eq_lt, Ordering.then_eq_lt, Nat.compare_eq_lt, Nat.compare_eq_lt,
    Nat.compare_eq_lt, Nat.compare_eq_eq, Nat.compare_eq_eq]
  cases hr : r.action <;> cases hr' : r'.action <;> simp_all [actionRank] <;> omega

/-- The best rule that decides about a value is a denial. -/
def BestDenies (log : List Accepted) (tenantId namespace' rawValue : String) (nowUnix : Nat) : Prop :=
  ∃ r, Candidate log tenantId namespace' rawValue nowUnix r ∧ r.action = .deny ∧
    ∀ r', Candidate log tenantId namespace' rawValue nowUnix r' → ¬Beats r' r

namespace SourceOfTruth

section Logged

variable {log : List Accepted} {st : SourceOfTruth}

theorem Logged.lookup_eq (h : Logged log st) (tenantId namespace' rawKey : String) (nowUnix : Nat) :
    st.lookup tenantId namespace' rawKey nowUnix =
      match latestPoint log (AclKey.fromRaw tenantId namespace' rawKey) with
      | some (request, commitId) =>
        if request.action = .deny ∧ (request.expiresAt = 0 ∨ nowUnix < request.expiresAt) then
          .deny request.reasonCode request.priority ⟨commitId.shardId, commitId.seq, 1, ""⟩
        else .allow
      | none => .allow := by
  rw [lookup, h.entries]
  cases latestPoint log (AclKey.fromRaw tenantId namespace' rawKey) with
  | none => rfl
  | some found =>
    obtain ⟨request, commitId⟩ := found
    have hexpired : (request.entry commitId).isExpired nowUnix = true ↔
        ¬(request.expiresAt = 0 ∨ nowUnix < request.expiresAt) := by
      show (request.expiresAt != 0 && decide (request.expiresAt ≤ nowUnix)) = true ↔ _
      simp
    have haction : (request.entry commitId).action = request.action := rfl
    dsimp only [Option.bind_some]
    by_cases hd : request.action = .delete
    · rw [if_pos hd, if_neg (by rw [hd]; simp)]
      rfl
    · rw [if_neg hd, decisionForEntry]
      by_cases he : request.expiresAt = 0 ∨ nowUnix < request.expiresAt
      · rw [if_neg (fun hx => (hexpired.mp hx) he), haction]
        cases ha : request.action with
        | deny => rw [if_pos ⟨rfl, he⟩]; rfl
        | allowOverride => rw [if_neg (by simp)]
        | delete => exact absurd ha hd
      · rw [if_pos (hexpired.mpr he), if_neg fun h => he h.2]

/-- The rules of the state that match and live are the candidates of the log. -/
theorem Logged.candidate_iff (h : Logged log st) {tenantId namespace' rawValue : String}
    {nowUnix : Nat} {r : RuleEntry} :
    (st.rules.lookup r.ruleKey = some r ∧ r.Live tenantId namespace' rawValue nowUnix) ↔
      Candidate log tenantId namespace' rawValue nowUnix r := by
  rw [h.rules, Option.filter_eq_some_iff, decide_eq_true_eq, Candidate, and_assoc]

theorem Logged.bestDenies_iff (h : Logged log st) (ord : IterOrder)
    (tenantId namespace' rawValue : String) (nowUnix : Nat) :
    (st.bestRule ord tenantId namespace' rawValue nowUnix).intoDecision.isDenied = true ↔
      BestDenies log tenantId namespace' rawValue nowUnix := by
  have hbest := (st.bestOf_bestRule ord tenantId namespace' rawValue nowUnix).congr
    fun r => h.candidate_iff
  have hlt : ∀ r r', Candidate log tenantId namespace' rawValue nowUnix r →
      Candidate log tenantId namespace' rawValue nowUnix r' →
      (compareRulesForMatch r r' = .lt ↔ Beats r r') := fun r r' hr hr' =>
    compareRulesForMatch_eq_lt hr.2.1 hr'.2.1
  cases hb : st.bestRule ord tenantId namespace' rawValue nowUnix with
  | none =>
    refine iff_of_false (by simp [RuleMatch.intoDecision, Decision.isDenied]) ?_
    rintro ⟨r, hr, -⟩
    exact hbest.not_candidate hb r hr
  | some best =>
    obtain ⟨hc, htop⟩ := hbest.isBest best hb
    have hdenied : (RuleMatch.intoDecision (some best)).isDenied = true ↔ best.action = .deny := by
      unfold RuleMatch.intoDecision
      cases hact : best.action <;> simp [Decision.isDenied, hact]
    rw [hdenied]
    constructor
    · exact fun hact => ⟨best, hc, hact, fun r hr hbeat => htop r hr ((hlt r best hr hc).mpr hbeat)⟩
    · -- two rules that no candidate beats have the same action
      rintro ⟨r, hr, hact, hmax⟩
      have h1 := hmax best hc
      have h2 : ¬Beats r best := fun hbeat => htop r hr ((hlt r best hr hc).mpr hbeat)
      have hlive := hc.2.1
      unfold Beats at h1 h2
      cases hb : best.action with
      | deny => rfl
      | allowOverride =>
        rw [hact, hb] at h2
        simp only [and_true, true_or] at h2
        omega
      | delete => exact absurd hb hlive

end Logged

/-- A source decides a point by the latest accepted request on its key. It denies a check if it denies
the point, or if the best of the latest live rules that match the value is a denial. -/
theorem decides (shardCount : Nat) (sourceRegion : String) (rs : List Request) (ord : IterOrder)
    (tenantId namespace' rawValue : String) (nowUnix : Nat) :
    let (log, st) := (new shardCount sourceRegion).requests rs
    (st.lookup tenantId namespace' rawValue nowUnix =
      match latestPoint log (AclKey.fromRaw tenantId namespace' rawValue) with
      | some (request, commitId) =>
        if request.action = .deny ∧ (request.expiresAt = 0 ∨ nowUnix < request.expiresAt) then
          .deny request.reasonCode request.priority ⟨commitId.shardId, commitId.seq, 1, ""⟩
        else .allow
      | none => .allow) ∧
    ((st.check ord tenantId namespace' rawValue nowUnix).isDenied = true ↔
      (st.lookup tenantId namespace' rawValue nowUnix).isDenied = true ∨
        BestDenies log tenantId namespace' rawValue nowUnix) := by
  have h := (logged_new shardCount sourceRegion).requests rs
  rw [List.nil_append] at h
  refine ⟨h.lookup_eq tenantId namespace' rawValue nowUnix, ?_⟩
  rw [SourceOfTruth.check]
  split
  · rename_i hd
    exact iff_of_true hd (Or.inl hd)
  · rename_i hd
    rw [h.bestDenies_iff, or_iff_right hd]

end SourceOfTruth

end Globacl
