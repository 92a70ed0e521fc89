import Globacl.Edge.Bookkeeping
import Globacl.Edge.Check

/-!
# The commit that a denial names (`globacl-core/src/lib/{codec,active_state,source}.rs`)

A denial reports the commit that caused it. What a source and an edge store carries the shard and
the number of its mutation, but not the epoch: the three constructors of a denial
(`decision_for_entry`, `decision_for_parts`, `into_decision`) fill in `1`. So the commit is named as
it was made if it was made in the first term.

* `CommitStep.stamped`: what a call commits names its commit.
* `FedRun.stores`: everything that an edge stores was committed.
* `deny_names_commit`: a denial of a source or an edge names the commit that caused it, where
  denials are committed in the first term.
-/

namespace Globacl

open Lib

/-! ## What a mutation says -/

namespace Mutation

/-- The action of a mutation. -/
def action (m : Mutation) : Action :=
  match m.rule with
  | some rule => rule.action
  | none => m.entry.action

/-- The reason of a mutation. -/
def reasonCode (m : Mutation) : String :=
  match m.rule with
  | some rule => rule.reasonCode
  | none => m.entry.reasonCode

/-- The priority of a mutation. -/
def priority (m : Mutation) : Nat :=
  match m.rule with
  | some rule => rule.priority
  | none => m.entry.priority

/-- The rule of the mutation matches the value, or its key is the key of the value. -/
def Covers (m : Mutation) (tenantId namespace' rawValue : String) : Prop :=
  match m.rule with
  | some rule => rule.tenantId = tenantId ∧ ruleMatchesNamespace rule namespace' rawValue = true
  | none => m.entry.aclKey = .fromRaw tenantId namespace' rawValue

/-- What a mutation stores carries the number of its commit, and its commit id the epoch. -/
structure Stamped (epoch : Nat) (m : Mutation) : Prop where
  epoch : m.epoch = epoch
  entry : m.entry.commitSeq = m.seq
  rule : ∀ rule, m.rule = some rule → rule.commitSeq = m.seq

/-- The mutation is the one that a denial of the value reports, but for the epoch. -/
structure Causes (m : Mutation) (tenantId namespace' rawValue reasonCode : String) (priority : Nat)
    (commitId : CommitId) : Prop where
  shard : m.shard = commitId.shardId
  seq : m.seq = commitId.seq
  covers : m.Covers tenantId namespace' rawValue
  action : m.action = .deny
  reasonCode : m.reasonCode = reasonCode
  priority : m.priority = priority

end Mutation

namespace SourceOfTruth

/-! ## What a call commits -/

theorem prepareCommit_stamped {now : Nat} {st : SourceOfTruth} {request : DenyRequest}
    {outcome : CommitOutcome} (h : st.prepareCommit now request = .ok outcome)
    (hnew : outcome.duplicate = false) : outcome.mutation.Stamped st.epoch := by
  unfold prepareCommit at h
  split at h
  · cases h
  split at h
  · cases h
    cases hnew
  · cases h
    exact ⟨rfl, rfl, fun _ hr => by cases hr⟩

theorem prepareRuleCommit_stamped {now : Nat} {st : SourceOfTruth} {request : RuleRequest}
    {outcome : CommitOutcome} (h : st.prepareRuleCommit now request = .ok outcome)
    (hnew : outcome.duplicate = false) : outcome.mutation.Stamped st.epoch := by
  unfold prepareRuleCommit at h
  split at h
  · cases h
  split at h
  · cases h
    cases hnew
  split at h
  · cases h
  · cases h
    exact ⟨rfl, rfl, fun _ hr => by cases hr; rfl⟩

theorem applyOutcome_stamped {st st' : SourceOfTruth} {outcome outcome' : CommitOutcome}
    {epoch : Nat} (hout : outcome.duplicate = false → outcome.mutation.Stamped epoch)
    (h : st.applyOutcome outcome = .ok (outcome', st')) :
    ∀ m ∈ (if outcome'.duplicate then [] else [outcome'.mutation]), m.Stamped epoch := by
  have hsame : outcome' = outcome := by
    unfold applyOutcome at h
    split at h
    · cases h
      rfl
    · split at h
      · cases h
      · cases h
        rfl
  intro m hm
  rw [hsame] at hm
  split at hm
  · cases hm
  · rename_i hnew
    rw [List.mem_singleton.mp hm]
    exact hout (Bool.eq_false_of_not_eq_true hnew)

/-- A single commit is made in the epoch of the source and leaves it. -/
theorem commitDirect_epoch {st st' : SourceOfTruth} {m m' : Mutation}
    (h : st.commitDirect m = .ok (m', st')) : m' = m ∧ st'.epoch = st.epoch := by
  unfold commitDirect at h
  split at h
  · cases h
  · rename_i st₁ hc
    obtain ⟨-, -, rfl⟩ := applyCommittedMutation_ok.mp hc
    cases h
    exact ⟨rfl, rfl⟩

/-- What a restore commits is stamped with the epoch of the source. -/
theorem restoreSnapshot_stamped {clock : Nat → Nat} {ord : IterOrder} {st : SourceOfTruth}
    {snapshot : Snapshot} {opPrefix : String} {r : Restore}
    (h : st.restoreSnapshot clock ord snapshot opPrefix = .ok r) :
    ∀ m ∈ r.mutations, m.Stamped st.epoch := by
  let p : Restore → Prop := fun r =>
    r.st.epoch = st.epoch ∧ ∀ m ∈ r.mutations, m.Stamped st.epoch
  have hp : p r := by
    refine restoreSnapshot_invariant (p := p) (fun {r r' entry} hr hc => ?_)
      (fun {r r' rule} hr hc => ?_) ⟨rfl, fun _ hm => absurd hm List.not_mem_nil⟩ h
    · obtain ⟨⟨m, st'⟩, hdirect, hc⟩ := bind_eq_ok.mp hc
      obtain ⟨rfl, hepoch⟩ := commitDirect_epoch hdirect
      cases hc
      refine ⟨hepoch.trans hr.1, List.forall_mem_append.mpr ⟨hr.2, ?_⟩⟩
      rw [List.forall_mem_singleton]
      exact ⟨hr.1, rfl, fun _ hrule => by cases hrule⟩
    · obtain ⟨⟨m, st'⟩, hdirect, hc⟩ := bind_eq_ok.mp hc
      obtain ⟨rfl, hepoch⟩ := commitDirect_epoch hdirect
      cases hc
      refine ⟨hepoch.trans hr.1, List.forall_mem_append.mpr ⟨hr.2, ?_⟩⟩
      rw [List.forall_mem_singleton]
      exact ⟨hr.1, rfl, fun _ hrule => by cases hrule; rfl⟩
  exact hp.2

/-- What a call commits names its commit. -/
theorem CommitStep.stamped {st st' : SourceOfTruth} {ms : List Mutation}
    (h : CommitStep st ms st') : ∀ m ∈ ms, m.Stamped st.epoch := by
  cases h with
  | commit hc =>
    obtain ⟨outcome, hprepare, hc⟩ := bind_eq_ok.mp hc
    exact applyOutcome_stamped (prepareCommit_stamped hprepare) hc
  | commitRule hc =>
    obtain ⟨outcome, hprepare, hc⟩ := bind_eq_ok.mp hc
    exact applyOutcome_stamped (prepareRuleCommit_stamped hprepare) hc
  | restoreSnapshot hc => exact restoreSnapshot_stamped hc
  | setEpoch => exact fun _ hm => absurd hm List.not_mem_nil
  | compactMutationHistory => exact fun _ hm => absurd hm List.not_mem_nil

/-- A call that commits denials in the first term only. -/
def FirstTermStep (st : SourceOfTruth) (ms : List Mutation) (st' : SourceOfTruth) : Prop :=
  CommitStep st ms st' ∧ ∀ m ∈ ms, m.action = .deny → st.epoch = 1

end SourceOfTruth

/-! ## What is stored was committed -/

/-- The entry is the one of a mutation of the history. -/
def EntryFrom (history : List Mutation) (e : DenyEntry) : Prop :=
  ∃ m ∈ history, m.rule = none ∧ m.entry = e

/-- The rule is the one of a mutation of the history. -/
def RuleFrom (history : List Mutation) (r : RuleEntry) : Prop :=
  ∃ m ∈ history, m.rule = some r

theorem EntryFrom.append {history : List Mutation} {e : DenyEntry} (h : EntryFrom history e)
    (l : List Mutation) : EntryFrom (history ++ l) e := by
  obtain ⟨m, hm, he⟩ := h
  exact ⟨m, List.mem_append_left _ hm, he⟩

theorem RuleFrom.append {history : List Mutation} {r : RuleEntry} (h : RuleFrom history r)
    (l : List Mutation) : RuleFrom (history ++ l) r := by
  obtain ⟨m, hm, hr⟩ := h
  exact ⟨m, List.mem_append_left _ hm, hr⟩

theorem entryFrom_of_entryAfter {history : List Mutation} {key : AclKey} {e : DenyEntry}
    (h : entryAfter history key = some e) : EntryFrom history e := by
  obtain ⟨m, hm, hwrite⟩ := exists_of_valueAt h
  unfold Mutation.entryWrite at hwrite
  cases hrule : m.rule with
  | some rule => simp [hrule] at hwrite
  | none =>
    simp only [hrule, Option.isSome_none, Bool.false_eq_true, if_false, Option.some.injEq,
      Prod.mk.injEq] at hwrite
    obtain ⟨-, hentry⟩ := hwrite
    split at hentry
    · cases hentry
    · exact ⟨m, hm, hrule, Option.some.inj hentry⟩

theorem ruleFrom_of_ruleAfter {history : List Mutation} {key : RuleKey} {r : RuleEntry}
    (h : ruleAfter history key = some r) : RuleFrom history r := by
  obtain ⟨m, hm, hwrite⟩ := exists_of_valueAt h
  obtain ⟨rule, hrule, hwrite⟩ := Option.map_eq_some_iff.mp hwrite
  obtain ⟨-, hvalue⟩ := Prod.mk.injEq .. ▸ hwrite
  split at hvalue
  · cases hvalue
  · cases hvalue
    exact ⟨m, hm, hrule⟩

namespace SourceOfTruth

theorem Holds.snapshot_from {n : Nat} {history : List Mutation} {st : SourceOfTruth}
    (h : Holds n history st) (ord : IterOrder) :
    (∀ e ∈ (st.snapshot ord).entries, EntryFrom history e) ∧
      ∀ r ∈ (st.snapshot ord).rules, RuleFrom history r := by
  refine ⟨fun e he => ?_, fun r hr => ?_⟩
  · obtain ⟨key, hkey⟩ := HashMap.mem_values.mp he
    exact entryFrom_of_entryAfter ((h.entries key).symm.trans hkey)
  · obtain ⟨key, hkey⟩ := HashMap.mem_values.mp hr
    exact ruleFrom_of_ruleAfter ((h.rules key).symm.trans hkey)

end SourceOfTruth

namespace ActiveState

/-- A source that takes steps of a kind, and an edge that is fed with what it commits: the edge
starts from a snapshot of the source after the mutations `before`. -/
def FedRun (step : SourceOfTruth → List Mutation → SourceOfTruth → Prop) (shardCount : Nat)
    (sourceRegion : String) (before after : List Mutation) (st : SourceOfTruth)
    (a : ActiveState) : Prop :=
  ∃ st₀ ord a₀, Run step (.new shardCount sourceRegion) before st₀ ∧ Run step st₀ after st ∧
    fromSnapshot (st₀.snapshot ord) = .ok a₀ ∧
    Relation.ReflTransGen (EdgeStep (before ++ after)) a₀ a

variable {shardCount : Nat} {sourceRegion : String} {before after : List Mutation}
  {st : SourceOfTruth} {a a' : ActiveState}

theorem FedRun.edgeRun
    (h : FedRun SourceOfTruth.FirstTermStep shardCount sourceRegion before after st a) :
    EdgeRun shardCount sourceRegion before after st a := by
  obtain ⟨st₀, ord, a₀, h₀, h₁, hload, hsteps⟩ := h
  exact ⟨st₀, ord, a₀, h₀.mono fun _ _ _ hs => hs.1, h₁.mono fun _ _ _ hs => hs.1, hload, hsteps⟩

theorem Stores.ruleAt {p : DenyEntry → Prop} {q : RuleEntry → Prop} (h : a.Stores p q)
    {key : RuleKey} {r : RuleEntry} (hr : a.ruleAt key = some r) : q r := by
  unfold ActiveState.ruleAt overlay at hr
  split at hr
  · rename_i hadd
    cases hr
    exact h.ruleAdds key _ hadd
  · split at hr
    · cases hr
    · have hmem := List.mem_of_find?_eq_some hr
      exact h.rules r (CompiledRules.mem_allRules.mp hmem)

theorem EdgeStep.stores {history : List Mutation} (hs : EdgeStep history a a')
    (h : a.Stores (EntryFrom history) (RuleFrom history)) :
    a'.Stores (EntryFrom history) (RuleFrom history) := by
  cases hs with
  | @deliver _ m _ hm happly =>
    rcases applyMutation_ok happly with rfl | ⟨-, -, rfl⟩
    · exact h
    · refine h.advance ?_
      unfold Mutation.Stores
      cases hrule : m.rule with
      | some rule => exact fun _ => ⟨m, hm, hrule⟩
      | none => exact fun _ => ⟨m, hm, hrule, rfl⟩
  | reject => exact h
  | compact hc => exact h.compactDeltaOverlay hc
  | @reload _ ord hload =>
    obtain ⟨hentries, hrules⟩ := h.snapshot ord
    exact .of_fromSnapshot hload hentries fun r hr _ => hrules r hr

/-- Everything that an edge stores was committed. -/
theorem EdgeRun.stores (h : EdgeRun shardCount sourceRegion before after st a) :
    a.Stores (EntryFrom (before ++ after)) (RuleFrom (before ++ after)) := by
  obtain ⟨st₀, ord, a₀, h₀, -, hload, hsteps⟩ := h
  have hrep := (SourceOfTruth.CommitRun.retains h₀).toRepresents
  obtain ⟨hentries, hrules⟩ := hrep.snapshot_from ord
  induction hsteps with
  | refl =>
    exact .of_fromSnapshot hload (fun e he => (hentries e he).append after)
      fun r hr _ => (hrules r hr).append after
  | tail _ hs ih => exact hs.stores ih

end ActiveState

/-! ## Denials -/

/-- An answer of the source or of the edge to a query. -/
def Answers (st : SourceOfTruth) (a : ActiveState) (tenantId namespace' rawValue : String)
    (nowUnix : Nat) (d : Decision) : Prop :=
  st.lookup tenantId namespace' rawValue nowUnix = d ∨
    (∃ ord, st.check ord tenantId namespace' rawValue nowUnix = d) ∨
    a.lookup tenantId namespace' rawValue nowUnix = d ∨
    ∃ ord, a.check ord tenantId namespace' rawValue nowUnix = d

/-- A check denies the point, or decides by a rule. -/
theorem deny_cases {point d : Decision} {best : RuleMatch}
    (h : (if point.isDenied then point else best.intoDecision) = d) :
    point = d ∨ best.intoDecision = d := by
  split at h
  · exact Or.inl h
  · exact Or.inr h

section Denials

variable {history : List Mutation} {tenantId namespace' rawValue reasonCode : String}
  {nowUnix priority : Nat} {commitId : CommitId}

/-- A commit names itself in what it stores. -/
def Labelled (history : List Mutation) : Prop :=
  ∀ m ∈ history, (∃ n, m.Routed n) ∧ m.Stamped m.epoch

/-- The mutation behind a denial. It is in the history, and the denial reports it but for the
epoch. -/
def Explained (history : List Mutation) (tenantId namespace' rawValue reasonCode : String)
    (priority : Nat) (commitId : CommitId) : Prop :=
  commitId.epoch = 1 ∧
    ∃ m ∈ history, m.Causes tenantId namespace' rawValue reasonCode priority commitId

theorem EntryFrom.explains {e : DenyEntry} (h : EntryFrom history e) (hl : Labelled history)
    (hkey : e.aclKey = .fromRaw tenantId namespace' rawValue)
    (hd : decisionForEntry (some e) nowUnix = .deny reasonCode priority commitId) :
    Explained history tenantId namespace' rawValue reasonCode priority commitId := by
  obtain ⟨m, hm, hrule, rfl⟩ := h
  obtain ⟨⟨n, hrouted⟩, hstamped⟩ := hl m hm
  unfold decisionForEntry at hd
  dsimp only at hd
  split at hd
  · cases hd
  · split at hd
    · rename_i hact
      cases hd
      exact ⟨rfl, m, hm,
        { shard := hrouted.entry.symm
          seq := hstamped.entry.symm
          covers := by rw [Mutation.Covers, hrule]; exact hkey
          action := by rw [Mutation.action, hrule]; exact hact
          reasonCode := by rw [Mutation.reasonCode, hrule]
          priority := by rw [Mutation.priority, hrule] }⟩
    · cases hd
    · cases hd

theorem RuleFrom.explains {r : RuleEntry} (h : RuleFrom history r) (hl : Labelled history)
    (hlive : r.Live tenantId namespace' rawValue nowUnix)
    (hd : RuleMatch.intoDecision (some r) = .deny reasonCode priority commitId) :
    Explained history tenantId namespace' rawValue reasonCode priority commitId := by
  obtain ⟨m, hm, hrule⟩ := h
  obtain ⟨⟨n, hrouted⟩, hstamped⟩ := hl m hm
  unfold RuleMatch.intoDecision at hd
  dsimp only at hd
  split at hd
  · rename_i hact
    cases hd
    exact ⟨rfl, m, hm,
      { shard := (hrouted.rule r hrule).symm
        seq := (hstamped.rule r hrule).symm
        covers := by rw [Mutation.Covers, hrule]; exact ⟨hlive.1, hlive.2.1⟩
        action := by rw [Mutation.action, hrule]; exact hact
        reasonCode := by rw [Mutation.reasonCode, hrule]
        priority := by rw [Mutation.priority, hrule] }⟩
  · cases hd
  · cases hd

/-- A point is explained by what was found under its key. -/
theorem explained_point {found : Option DenyEntry} (hl : Labelled history)
    (hfound : ∀ e, found = some e → EntryFrom history e ∧
      e.aclKey = .fromRaw tenantId namespace' rawValue)
    (hd : decisionForEntry found nowUnix = .deny reasonCode priority commitId) :
    Explained history tenantId namespace' rawValue reasonCode priority commitId := by
  cases found with
  | none => cases hd
  | some e =>
    obtain ⟨hfrom, hkey⟩ := hfound e rfl
    exact hfrom.explains hl hkey hd

/-- A verdict of the rules is explained by the rule that won. -/
theorem explained_rule (nowUnix : Nat) {best : RuleMatch} (hl : Labelled history)
    (hbest : ∀ r, best = some r → RuleFrom history r ∧ r.Live tenantId namespace' rawValue nowUnix)
    (hd : best.intoDecision = .deny reasonCode priority commitId) :
    Explained history tenantId namespace' rawValue reasonCode priority commitId := by
  cases best with
  | none => cases hd
  | some r =>
    obtain ⟨hfrom, hlive⟩ := hbest r rfl
    exact hfrom.explains hl hlive hd

theorem SourceOfTruth.Holds.explains_lookup {n : Nat} {st : SourceOfTruth}
    (h : st.Holds n history) (hl : Labelled history)
    (hd : st.lookup tenantId namespace' rawValue nowUnix = .deny reasonCode priority commitId) :
    Explained history tenantId namespace' rawValue reasonCode priority commitId := by
  refine explained_point hl (fun e he => ⟨?_, st.entries_keyed _ e he⟩) hd
  exact entryFrom_of_entryAfter ((h.entries _).symm.trans he)

theorem SourceOfTruth.Holds.explains_check {n : Nat} {st : SourceOfTruth} {ord : IterOrder}
    (h : st.Holds n history) (hl : Labelled history)
    (hd : st.check ord tenantId namespace' rawValue nowUnix = .deny reasonCode priority commitId) :
    Explained history tenantId namespace' rawValue reasonCode priority commitId := by
  rcases deny_cases hd with hpoint | hrule
  · exact h.explains_lookup hl hpoint
  · have hbest := st.bestOf_bestRule ord tenantId namespace' rawValue nowUnix
    refine explained_rule nowUnix hl (fun r hr => ?_) hrule
    obtain ⟨⟨hkey, hlive⟩, -⟩ := hbest.isBest r hr
    exact ⟨ruleFrom_of_ruleAfter ((h.rules _).symm.trans hkey), hlive⟩

namespace ActiveState

variable {a : ActiveState}

theorem Stores.explains_lookup (h : a.Stores (EntryFrom history) (RuleFrom history))
    (hl : Labelled history)
    (hd : a.lookup tenantId namespace' rawValue nowUnix = .deny reasonCode priority commitId) :
    Explained history tenantId namespace' rawValue reasonCode priority commitId := by
  rw [lookup_eq] at hd
  exact explained_point hl (fun e he =>
    ⟨h.entries _ e he, (lists_materializedEntries .given a).keyed _ e he⟩) hd

theorem Stores.explains_check {ord : IterOrder}
    (h : a.Stores (EntryFrom history) (RuleFrom history)) (hu : a.ruleBase.Unique)
    (hl : Labelled history)
    (hd : a.check ord tenantId namespace' rawValue nowUnix = .deny reasonCode priority commitId) :
    Explained history tenantId namespace' rawValue reasonCode priority commitId := by
  rcases deny_cases hd with hpoint | hrule
  · exact h.explains_lookup hl hpoint
  · have hbest := bestOf_bestRule hu ord tenantId namespace' rawValue nowUnix
    refine explained_rule nowUnix hl (fun r hr => ?_) hrule
    obtain ⟨⟨hheld | hstale, hlive⟩, -⟩ := hbest.isBest r hr
    · exact ⟨h.ruleAt hheld, hlive⟩
    · exact ⟨h.rules r hstale.1, hlive⟩

/-- A denial of the source or of the edge reports a commit of the history, but for the epoch. -/
theorem EdgeRun.explains {shardCount : Nat} {sourceRegion : String} {before after : List Mutation}
    {st : SourceOfTruth} (h : EdgeRun shardCount sourceRegion before after st a)
    (hd : Answers st a tenantId namespace' rawValue nowUnix (.deny reasonCode priority commitId)) :
    Explained (before ++ after) tenantId namespace' rawValue reasonCode priority commitId := by
  have hrep := h.represents
  have hstamped : ∀ m ∈ before ++ after, m.Stamped m.epoch := by
    obtain ⟨st₀, -, -, h₀, h₁, -⟩ := h
    exact (h₀.trans h₁).forall_mem fun st ms st' hstep m hm => by
      have hm := hstep.stamped m hm
      rwa [hm.epoch]
  have hl : Labelled (before ++ after) := fun m hm => ⟨⟨_, hrep.valid.routed m hm⟩, hstamped m hm⟩
  rcases hd with hd | ⟨ord, hd⟩ | hd | ⟨ord, hd⟩
  · exact hrep.explains_lookup hl hd
  · exact hrep.explains_check hl hd
  · exact h.stores.explains_lookup hl hd
  · exact h.stores.explains_check h.edgeAt.unique hl hd

end ActiveState

end Denials

/-- A denial names the commit that caused it, where denials are committed in the first term. -/
theorem deny_names_commit {shardCount : Nat} {sourceRegion : String} {before after : List Mutation}
    {st : SourceOfTruth} {a : ActiveState}
    (h : ActiveState.FedRun SourceOfTruth.FirstTermStep shardCount sourceRegion before after st a)
    {tenantId namespace' rawValue reasonCode : String} {nowUnix priority : Nat}
    {commitId : CommitId}
    (hd : Answers st a tenantId namespace' rawValue nowUnix (.deny reasonCode priority commitId)) :
    ∃ m ∈ before ++ after, m.epoch = commitId.epoch ∧
      m.Causes tenantId namespace' rawValue reasonCode priority commitId := by
  obtain ⟨hepoch, m, hm, hcauses⟩ := h.edgeRun.explains hd
  refine ⟨m, hm, ?_, hcauses⟩
  obtain ⟨st₀, -, -, h₀, h₁, -⟩ := h
  have hterm : ∀ m ∈ before ++ after, m.action = .deny → m.epoch = 1 :=
    (h₀.trans h₁).forall_mem fun st ms st' hstep m hm hdeny => by
      rw [(hstep.1.stamped m hm).epoch]
      exact hstep.2 m hm hdeny
  rw [hepoch]
  exact hterm m hm hcauses.action

/-- An edge that starts empty is one that starts from an empty source. -/
theorem ActiveState.new_eq_fromSnapshot (shardCount : Nat) (sourceRegion : String)
    (ord : IterOrder) : ActiveState.new shardCount =
      fromSnapshot ((SourceOfTruth.new shardCount sourceRegion).snapshot ord) := by
  have hentries : ord.order ([] : List DenyEntry) = [] := (ord.perm []).eq_nil
  have hrules : ord.order ([] : List RuleEntry) = [] := (ord.perm []).eq_nil
  have hsnapshot : (SourceOfTruth.new shardCount sourceRegion).snapshot ord =
      ⟨max shardCount 1, List.replicate (max shardCount 1) 0, [], []⟩ := by
    unfold SourceOfTruth.snapshot HashMap.values
    exact Snapshot.mk.injEq .. ▸ ⟨rfl, rfl, hentries, hrules⟩
  rw [hsnapshot]
  unfold fromSnapshot
  split
  · rename_i err herr
    rw [Snapshot.validate_iff.mpr ⟨List.length_replicate, by simp, by simp⟩] at herr
    cases herr
  · rfl

/-- An edge takes the snapshot of an empty source. Then a user is denied in an epoch, and the denial
is delivered to the edge. -/
def denialInEpoch (epoch : Nat) :
    Result (ActiveState × (CommitOutcome × SourceOfTruth) × (ApplyStatus × ActiveState)) := do
  let st₀ := (SourceOfTruth.new 1 "eu").setEpoch epoch
  let a₀ ← ActiveState.fromSnapshot (st₀.snapshot .given)
  let committed ← st₀.commit 0 (userRequest "op-1" "ann")
  let delivered ← a₀.applyMutation committed.1.mutation
  pure (a₀, committed, delivered)

theorem denialInEpoch_fed {step : SourceOfTruth → List Mutation → SourceOfTruth → Prop}
    {epoch : Nat}
    (hstep : ∀ st ms st', SourceOfTruth.CommitStep st ms st' →
      (ms ≠ [] → st.epoch = max epoch 1) → step st ms st')
    {a₀ a : ActiveState} {o : CommitOutcome} {st : SourceOfTruth} {status : ApplyStatus}
    (h : denialInEpoch epoch = .ok (a₀, (o, st), (status, a))) (hnew : o.duplicate = false) :
    ActiveState.FedRun step 1 "eu" [] [o.mutation] st a := by
  simp only [denialInEpoch, bind_eq_ok] at h
  obtain ⟨_, hload, ⟨_, _⟩, hcommit, ⟨_, _⟩, happly, h⟩ := h
  cases h
  have hcall := SourceOfTruth.CommitStep.commit hcommit
  rw [if_neg (by simp [hnew])] at hcall
  refine ⟨_, .given, _, Run.single (hstep _ _ _ (.setEpoch _ epoch) fun hne => absurd rfl hne),
    Run.single (hstep _ _ _ hcall fun _ => rfl), hload, .single (.deliver ?_ happly)⟩
  exact List.mem_singleton_self _

theorem deny_names_commit_firstTerm : ∃ m st a,
    ActiveState.FedRun SourceOfTruth.FirstTermStep 1 "eu" [] [m] st a ∧
      ∃ m' ∈ [] ++ [m], m'.epoch = 1 ∧ m'.Causes "acme" "user" "ann" "fraud" 7 ⟨0, 1, 1, ""⟩ := by
  have hrun : ((denialInEpoch 1).map fun (_, (o, _), (_, a)) =>
      (o.duplicate, a.lookup "acme" "user" "ann" 100)) =
        .ok (false, .deny "fraud" 7 ⟨0, 1, 1, ""⟩) := by
    decide +kernel
  obtain ⟨⟨a₀, ⟨o, st⟩, ⟨status, a⟩⟩, hrun, hres⟩ := map_eq_ok.mp hrun
  obtain ⟨hnew, hdeny⟩ : o.duplicate = false ∧ _ = Decision.deny "fraud" 7 ⟨0, 1, 1, ""⟩ := by
    simpa only [Prod.mk.injEq] using hres
  have hfed := @denialInEpoch_fed SourceOfTruth.FirstTermStep _
    (fun st ms st' hcall hepoch => ⟨hcall, fun m hm _ => hepoch (List.ne_nil_of_mem hm)⟩)
    _ _ _ _ _ hrun hnew
  exact ⟨_, _, _, hfed, deny_names_commit hfed (.inr (.inr (.inl hdeny)))⟩

/-- In a later term, a denial reports an epoch in which nothing was committed. -/
theorem not_deny_names_commit :
    ¬∀ (shardCount : Nat) (sourceRegion : String) (before after : List Mutation)
      (st : SourceOfTruth) (a : ActiveState),
      ActiveState.EdgeRun shardCount sourceRegion before after st a →
      ∀ (tenantId namespace' rawValue reasonCode : String) (nowUnix priority : Nat)
        (commitId : CommitId),
        Answers st a tenantId namespace' rawValue nowUnix (.deny reasonCode priority commitId) →
        ∃ m ∈ before ++ after, m.epoch = commitId.epoch ∧
          m.Causes tenantId namespace' rawValue reasonCode priority commitId := by
  intro hall
  have hrun : ((denialInEpoch 2).map fun (_, (o, _), (_, a)) =>
      (o.duplicate, o.mutation.epoch, a.lookup "acme" "user" "ann" 100)) =
        .ok (false, 2, .deny "fraud" 7 ⟨0, 1, 1, ""⟩) := by
    decide +kernel
  obtain ⟨⟨a₀, ⟨o, st⟩, ⟨status, a⟩⟩, hrun, hres⟩ := map_eq_ok.mp hrun
  obtain ⟨hnew, htwo, hdeny⟩ : o.duplicate = false ∧ o.mutation.epoch = 2 ∧
      _ = Decision.deny "fraud" 7 ⟨0, 1, 1, ""⟩ := by simpa only [Prod.mk.injEq] using hres
  have hfed := denialInEpoch_fed (fun _ _ _ hcall _ => hcall) hrun hnew
  obtain ⟨m, hm, hepoch, -⟩ := hall 1 "eu" [] [o.mutation] st a hfed "acme" "user" "ann" "fraud" 100
    7 ⟨0, 1, 1, ""⟩ (.inr (.inr (.inl hdeny)))
  rw [List.mem_singleton.mp hm, htwo] at hepoch
  cases hepoch

end Globacl
