import Globacl.Agent.Forward

/-!
# Gap repairs (`globacl-agent/src/app/poll.rs`)

A poll that meets a gap asks for a bundle of the missing range, applies it to the current state and
returns. It comes to the snapshot repair if there is no bundle, or an empty one. The mutations
before the gap were applied to a copy of the state that is dropped, so the range may start above what
the current state needs.

* `applyMutations_watermarks`: whether the mutations of a list are accepted, from the watermarks.
* `repairWithBundle_ok_iff`: when the repair with a bundle ends without an error.
* `repairGap_recovers_iff`: when a repair closes the gap or comes to the snapshot.
-/

namespace Globacl

open Lib Prog

/-- The watermarks after the mutations, if each of them is old or the next one of its shard. -/
def watermarksAfter : List Nat → List Mutation → Option (List Nat)
  | watermarks, [] => some watermarks
  | watermarks, m :: mutations =>
    if m.shard ≥ watermarks.length then none
    else if m.seq ≤ watermarks.getD m.shard 0 then watermarksAfter watermarks mutations
    else if m.seq = watermarks.getD m.shard 0 + 1 then
      watermarksAfter (watermarks.set m.shard m.seq) mutations
    else none

namespace ActiveState

/-- The mutations are accepted exactly if they continue the watermarks. -/
theorem applyMutations_watermarks (a : ActiveState) (applied : Nat) (mutations : List Mutation) :
    (∃ watermarks, watermarksAfter a.watermarks mutations = some watermarks ∧
        ∃ applied' a', a.applyMutations applied mutations = .ok (applied', a') ∧
          a'.watermarks = watermarks) ∨
      watermarksAfter a.watermarks mutations = none ∧
        ∃ err, a.applyMutations applied mutations = .error err := by
  induction mutations generalizing a applied with
  | nil => exact Or.inl ⟨_, rfl, _, _, rfl, rfl⟩
  | cons m mutations ih =>
    rw [watermarksAfter, applyMutations, applyMutation, ← watermark, a.watermarks_length]
    by_cases hshard : m.shard ≥ a.shardCount
    · simp only [if_pos hshard]
      exact Or.inr ⟨trivial, _, rfl⟩
    · simp only [if_neg hshard]
      by_cases hold : m.seq ≤ a.watermark m.shard
      · simp only [if_pos hold]
        exact ih a applied
      · simp only [if_neg hold]
        by_cases hnext : m.seq = a.watermark m.shard + 1
        · have hadvance := ih (a.advance m) (applied + 1)
          rw [advance_watermarks] at hadvance
          simp only [hnext, ne_eq, not_true_eq_false, if_false, if_true] at hadvance ⊢
          exact hadvance
        · simp only [if_neg hnext, if_pos hnext]
          exact Or.inr ⟨trivial, _, rfl⟩

/-- A gap is above what is expected, in a shard of the state. -/
theorem applyMutations_gap {a : ActiveState} {applied : Nat} {mutations : List Mutation}
    {shardId expectedSeq receivedSeq : Nat}
    (h : a.applyMutations applied mutations = .error (.gap shardId expectedSeq receivedSeq)) :
    a.watermark shardId < expectedSeq ∧ expectedSeq < receivedSeq := by
  induction mutations generalizing a applied with
  | nil => cases h
  | cons m mutations ih =>
    unfold applyMutations at h
    split at h
    · rename_i a' happly
      obtain ⟨hle, hlt⟩ := ih h
      exact ⟨(atLeast_applyMutation happly shardId).trans_lt hle, hlt⟩
    · rename_i a' happly
      obtain ⟨hle, hlt⟩ := ih h
      exact ⟨(atLeast_applyMutation happly shardId).trans_lt hle, hlt⟩
    · rename_i err happly
      cases h
      unfold applyMutation at happly
      split at happly
      · cases happly
      · split at happly
        · cases happly
        · split at happly
          · rename_i hold hnext
            cases happly
            omega
          · cases happly

end ActiveState

namespace Agent

/-- `apply_mutation` reports the gap to a poll: in a list of mutations that come one after the other
from the current state. -/
def ReportedGap (app : App) (shardId fromSeq toSeq : Nat) : Prop :=
  ∃ polled expectedSeq receivedSeq,
    app.state.applyMutations 0 polled = .error (.gap shardId expectedSeq receivedSeq) ∧
      fromSeq = expectedSeq - 1 ∧ toSeq = receivedSeq - 1

/-- The repair ends without an error and with the range of the gap, or it performs the repair from a
snapshot. -/
def Recovers (ord : IterOrder) (relay : Relay) (app : App) (shardId fromSeq toSeq : Nat) : Prop :=
  (repairGap ord relay shardId fromSeq toSeq app).result = .ok .repairFromSnapshot ∨
    (repairGap ord relay shardId fromSeq toSeq app).result = .ok .returned ∧
      toSeq ≤ (repairGap ord relay shardId fromSeq toSeq app).final.state.watermark shardId

/-- Each mutation of the bundle is old or the next one of its shard for the current state, and they
take the shard to the end of the range. -/
def Closes (app : App) (shardId toSeq : Nat) (bundle : List Mutation) : Prop :=
  ∃ watermarks, watermarksAfter app.state.watermarks bundle = some watermarks ∧
    toSeq ≤ watermarks.getD shardId 0

/-- The state with the bundle is made compact, its file is written, and its acknowledgement is
taken. -/
def Installable (ord : IterOrder) (relay : Relay) (app : App) (shardId : Nat)
    (bundle : List Mutation) : Prop :=
  ∀ applied next, app.state.applyMutations 0 bundle = .ok (applied, next) →
    ∃ state, next.compactIfLarge ord = .ok state ∧ relay.writeFile (state.snapshot ord) = .ok () ∧
      relay.ack ⟨app.agentId, shardId, state.watermark shardId, state.entriesLen, relay.nowUnix⟩ =
        .ok ⟨200, ()⟩

section

variable {ord : IterOrder} {relay : Relay} {app : App} {shardId fromSeq toSeq : Nat}
  {bundle : List Mutation}

theorem ReportedGap.le (h : ReportedGap app shardId fromSeq toSeq) : fromSeq ≤ toSeq := by
  obtain ⟨polled, expectedSeq, receivedSeq, hgap, rfl, rfl⟩ := h
  have := (ActiveState.applyMutations_gap hgap).2
  omega

/-- An acknowledgement is sent, and taken if the relay answers `200`. -/
theorem sendAck_ok_iff (seq entries : Nat) :
    (sendAck relay shardId seq entries app).result = .ok () ↔
      relay.ack ⟨app.agentId, shardId, seq, entries, relay.nowUnix⟩ = .ok ⟨200, ()⟩ := by
  unfold sendAck
  rw [get_bind_apply]
  simp only [Bind.bind, step, lift]
  cases relay.ack ⟨app.agentId, shardId, seq, entries, relay.nowUnix⟩ with
  | error err => simp
  | ok response =>
    obtain ⟨statusCode, ⟨⟩⟩ := response
    by_cases hstatus : statusCode = 200
    · subst hstatus
      simp [Pure.pure]
    · simp [hstatus, lift]

theorem sendAck_final (seq entries : Nat) :
    (sendAck relay shardId seq entries app).final.state = app.state := by
  unfold sendAck
  rw [get_bind_apply]
  simp only [Bind.bind, step, lift]
  cases relay.ack ⟨app.agentId, shardId, seq, entries, relay.nowUnix⟩ with
  | error err => rfl
  | ok response =>
    dsimp only
    split <;> rfl

/-- The new state is there if its file is written. -/
theorem install_bind {α : Type} {state : ActiveState} (f : Unit → Program α) :
    (install ord relay state >>= f) app =
      match relay.writeFile (state.snapshot ord) with
      | .error err => ⟨.error err, app, []⟩
      | .ok () =>
        let written := { app with snapshotFile := state.snapshot ord }
        let rest := f () { written with state }
        ⟨rest.result, rest.final, written :: { written with state } :: rest.points⟩ := by
  simp only [install, writeSnapshotFile, swapState, Bind.bind, lift, step]
  cases relay.writeFile (state.snapshot ord) with
  | error err => rfl
  | ok _ => rfl

/-- The repair with a bundle ends without an error exactly if the bundle is accepted and the new
state is installed. -/
theorem repairWithBundle_ok_iff :
    (repairWithBundle ord relay shardId bundle app).result = .ok () ↔
      (∃ applied next, app.state.applyMutations 0 bundle = .ok (applied, next)) ∧
        Installable ord relay app shardId bundle := by
  unfold repairWithBundle Installable
  rw [get_bind_apply]
  cases happly : app.state.applyMutations 0 bundle with
  | error err => simp [Bind.bind, lift]
  | ok result =>
    obtain ⟨applied, next⟩ := result
    have hall : ∀ {P : ActiveState → Prop}, ((∃ applied' next',
        (.ok (applied, next) : Result (Nat × ActiveState)) = .ok (applied', next')) ∧
          ∀ applied' next',
            (.ok (applied, next) : Result (Nat × ActiveState)) = .ok (applied', next') → P next') ↔
        P next := by
      intro P
      constructor
      · exact fun h => h.2 applied next rfl
      · rintro h
        refine ⟨⟨applied, next, rfl⟩, fun _ _ heq => ?_⟩
        cases heq
        exact h
    rw [lift_ok_bind_apply, hall]
    dsimp only
    cases hcompact : next.compactIfLarge ord with
    | error err =>
      rw [lift_error_bind_apply]
      simp
    | ok state =>
      rw [lift_ok_bind_apply, install_bind]
      cases hwrite : relay.writeFile (state.snapshot ord) with
      | error err => simp [hwrite]
      | ok _ =>
        have hack := @sendAck_ok_iff relay
          { app with snapshotFile := state.snapshot ord, state } shardId (state.watermark shardId)
          state.entriesLen
        simp only [Except.ok.injEq, exists_eq_left', hwrite, true_and]
        rw [← hack]
        constructor
        · intro h
          obtain ⟨_, h, -⟩ := bind_ok h
          exact h
        · intro h
          exact (Runs.bind ⟨h, rfl⟩ (Runs.step _ _)).result

/-- What the repair with a bundle ends with. -/
theorem repairWithBundle_watermarks
    (h : (repairWithBundle ord relay shardId bundle app).result = .ok ()) :
    watermarksAfter app.state.watermarks bundle =
      some (repairWithBundle ord relay shardId bundle app).final.state.watermarks := by
  obtain ⟨⟨applied, next, happly⟩, hinstall⟩ := repairWithBundle_ok_iff.mp h
  obtain ⟨state, hcompact, hwrite, -⟩ := hinstall applied next happly
  have hstate : (repairWithBundle ord relay shardId bundle app).final.state = state := by
    unfold repairWithBundle at h ⊢
    rw [get_bind_apply, happly, lift_ok_bind_apply] at h ⊢
    dsimp only at h ⊢
    rw [hcompact, lift_ok_bind_apply, install_bind, hwrite] at h ⊢
    dsimp only at h ⊢
    obtain ⟨_, -, -, hfinal⟩ := bind_ok h
    rw [hfinal]
    exact sendAck_final _ _
  rcases app.state.applyMutations_watermarks 0 bundle with
    ⟨watermarks, hw, applied', next', happly', rfl⟩ | ⟨-, err, herr⟩
  · rw [happly] at happly'
    cases happly'
    rw [hw, hstate, ActiveState.compactIfLarge_watermarks hcompact]
  · rw [happly] at herr
    cases herr

/-- What a repair does with a bundle that is fetched and verified. -/
theorem repairGap_bundle (hle : fromSeq ≤ toSeq)
    (hresponse : (relay.deltaBundle shardId fromSeq toSeq).response = .ok ⟨200, .ok bundle⟩)
    (hverified : (relay.deltaBundle shardId fromSeq toSeq).Verified) :
    repairGap ord relay shardId fromSeq toSeq app =
      (if bundle.isEmpty then pure .repairFromSnapshot
      else do
        repairWithBundle ord relay shardId bundle
        pure .returned : Program Flow) app := by
  have hverify : verifyRemotePayloadSignature (relay.deltaBundle shardId fromSeq toSeq).signature =
      .ok () := by
    rw [show (relay.deltaBundle shardId fromSeq toSeq).signature = _ from hverified]
    rfl
  unfold repairGap
  rw [if_pos hle]
  rw [hresponse, lift_ok_bind_apply, if_pos rfl, hverify, lift_ok_bind_apply, lift_ok_bind_apply]

/-- A repair whose bundle is fetched and verified recovers exactly if the bundle is empty, or it
closes the gap for the current state and the new state is installed. -/
theorem repairGap_recovers_iff (ord : IterOrder) (relay : Relay) (app : App)
    (hgap : ReportedGap app shardId fromSeq toSeq)
    (hresponse : (relay.deltaBundle shardId fromSeq toSeq).response = .ok ⟨200, .ok bundle⟩)
    (hverified : (relay.deltaBundle shardId fromSeq toSeq).Verified) :
    Recovers ord relay app shardId fromSeq toSeq ↔
      bundle = [] ∨ Closes app shardId toSeq bundle ∧ Installable ord relay app shardId bundle := by
  unfold Recovers
  rw [repairGap_bundle hgap.le hresponse hverified]
  cases hbundle : bundle.isEmpty with
  | true =>
    rw [if_pos rfl]
    exact iff_of_true (Or.inl rfl) (Or.inl (List.isEmpty_iff.mp hbundle))
  | false =>
    have hne : bundle ≠ [] := by
      rintro rfl
      cases hbundle
    rw [if_neg (by decide)]
    constructor
    · rintro (h | ⟨h, hto⟩)
      · obtain ⟨_, -, h, -⟩ := bind_ok h
        cases h
      · obtain ⟨_, hok, -, hfinal⟩ := bind_ok h
        rw [hfinal] at hto
        have hinstall := (repairWithBundle_ok_iff.mp hok).2
        exact Or.inr ⟨⟨_, repairWithBundle_watermarks hok, hto⟩, hinstall⟩
    · rintro (h | ⟨⟨watermarks, hw, hto⟩, hinstall⟩)
      · exact absurd h hne
      · have hok : (repairWithBundle ord relay shardId bundle app).result = .ok () := by
          refine repairWithBundle_ok_iff.mpr ⟨?_, hinstall⟩
          rcases app.state.applyMutations_watermarks 0 bundle with
            ⟨_, -, applied, next, happly, -⟩ | ⟨hnone, -⟩
          · exact ⟨applied, next, happly⟩
          · rw [hw] at hnone
            cases hnone
        have hruns :
            Runs (repairWithBundle ord relay shardId bundle >>= fun _ => pure Flow.returned) app
              .returned _ :=
          Runs.bind ⟨hok, rfl⟩ (Runs.pure _ _)
        refine Or.inr ⟨hruns.result, ?_⟩
        rw [hruns.final]
        have hfinal := repairWithBundle_watermarks hok
        rw [hw] at hfinal
        cases hfinal
        exact hto

end

/-! An agent of one shard at the start of the history, which is sent the third mutation. -/

/-- A mutation of shard 0. -/
def shardMutation (seq : Nat) : Mutation :=
  let entry : DenyEntry := ⟨"tenant", "user", 7, .deny, 1, "fraud", 0, "ops", seq, 0⟩
  ⟨"op", ⟨0, seq, 1, "eu"⟩, entry, none, .p1, 0⟩

/-- A relay with a bundle of these mutations. -/
def bundleRelay (seqs : List Nat) : Relay :=
  { idleRelay with
    deltaBundle := fun _ _ _ =>
      ⟨.ok ⟨200, .ok (seqs.map shardMutation)⟩, .ok ⟨200, some (.ok ())⟩⟩ }

/-- What an agent reports at the third mutation. -/
def thirdMutation (app : App) : Option (Nat × Nat × Nat) :=
  match app.state.applyMutations 0 [shardMutation 3] with
  | .error (.gap shardId expectedSeq receivedSeq) => some (shardId, expectedSeq, receivedSeq)
  | _ => none

/-- Whether the first two mutations are made compact. -/
def compactsRange (app : App) : Bool :=
  match app.state.applyMutations 0 ([1, 2].map shardMutation) with
  | .ok (_, next) => (next.compactIfLarge .given).isOk
  | .error _ => false

/-- The agent at the start, and the gap that the third mutation is. -/
theorem exists_reportedGap :
    ∃ app, buildApp idleRelay "agent" (some (.ok ⟨1, [0], [], []⟩)) = .ok app ∧
      ReportedGap app 0 0 2 ∧ app.state.watermarks = [0] ∧ compactsRange app = true := by
  have hrun : ((buildApp idleRelay "agent" (some (.ok ⟨1, [0], [], []⟩))).map fun app =>
      (thirdMutation app, app.state.watermarks, compactsRange app)) =
      .ok (some (0, 1, 3), [0], true) := by
    decide +kernel
  cases happ : buildApp idleRelay "agent" (some (.ok ⟨1, [0], [], []⟩)) with
  | error err =>
    rw [happ] at hrun
    cases hrun
  | ok app =>
    rw [happ] at hrun
    obtain ⟨hgap, hrest⟩ := Prod.mk.inj (Except.ok.inj hrun)
    obtain ⟨hw, hcompact⟩ := Prod.mk.inj hrest
    refine ⟨app, rfl, ⟨[shardMutation 3], 1, 3, ?_, rfl, rfl⟩, hw, hcompact⟩
    unfold thirdMutation at hgap
    split at hgap
    · rename_i herr
      cases hgap
      exact herr
    · cases hgap

/-- The whole range closes the gap. -/
theorem repairGap_recovers_iff_range :
    ∃ app, ReportedGap app 0 0 2 ∧ Recovers .given (bundleRelay [1, 2]) app 0 0 2 := by
  obtain ⟨app, -, hgap, hw, hcompact⟩ := exists_reportedGap
  have hresponse : ((bundleRelay [1, 2]).deltaBundle 0 0 2).response =
      .ok ⟨200, .ok ([1, 2].map shardMutation)⟩ := rfl
  have hverified : ((bundleRelay [1, 2]).deltaBundle 0 0 2).Verified := rfl
  refine ⟨app, hgap, (repairGap_recovers_iff .given _ app hgap hresponse hverified).mpr
    (Or.inr ⟨⟨[2], ?_, ?_⟩, fun applied next happly => ?_⟩)⟩
  · rw [hw]
    decide
  · decide
  · unfold compactsRange at hcompact
    rw [happly] at hcompact
    dsimp only at hcompact
    cases hstate : next.compactIfLarge .given with
    | error err =>
      rw [hstate] at hcompact
      cases hcompact
    | ok state => exact ⟨state, rfl, rfl, rfl⟩

/-- A bundle that is short ends the repair with the gap still open, and one with a hole ends it with
the error of the bundle. -/
theorem not_repairGap_recovers :
    ∃ app, buildApp idleRelay "agent" (some (.ok ⟨1, [0], [], []⟩)) = .ok app ∧
      ReportedGap app 0 0 2 ∧
      (bundleRelay [1]).CorrectlySigned ∧ ¬Recovers .given (bundleRelay [1]) app 0 0 2 ∧
      (bundleRelay [2]).CorrectlySigned ∧ ¬Recovers .given (bundleRelay [2]) app 0 0 2 := by
  obtain ⟨app, happ, hgap, hw, -⟩ := exists_reportedGap
  have hsigned : ∀ seqs, (bundleRelay seqs).CorrectlySigned := fun seqs =>
    ⟨fun _ _ => rfl, fun _ _ _ => rfl, rfl, fun _ => rfl, rfl⟩
  have hopen : ∀ seqs, seqs ≠ [] → (∀ watermarks,
      watermarksAfter [0] (seqs.map shardMutation) = some watermarks → watermarks = [1]) →
      ¬Recovers .given (bundleRelay seqs) app 0 0 2 := by
    intro seqs hne hshort h
    unfold Recovers at h
    rw [repairGap_bundle hgap.le rfl ((hsigned seqs).deltaBundle 0 0 2)] at h
    rw [if_neg (by simpa using hne)] at h
    rcases h with h | ⟨h, hto⟩
    · obtain ⟨_, -, h, -⟩ := bind_ok h
      cases h
    · obtain ⟨_, hok, -, hfinal⟩ := bind_ok h
      have hend := repairWithBundle_watermarks hok
      rw [hw] at hend
      rw [hfinal] at hto
      have hto : 2 ≤ (repairWithBundle .given (bundleRelay seqs) 0 (seqs.map shardMutation)
          app).final.state.watermarks.getD 0 0 := hto
      rw [hshort _ hend] at hto
      exact absurd hto (by decide)
  refine ⟨app, happ, hgap, hsigned [1], hopen [1] (by decide) (by decide), hsigned [2],
    hopen [2] (by decide) (by decide)⟩

end Agent

end Globacl
