import Globacl.Core.Serving
import Globacl.Core.Codec
import Globacl.Commitd.Commit

/-!
# Reading the history while others write (`globacl-commitd/src/app/commit.rs`, `routes.rs`)

`GET /v1/mutations` and `GET /v1/delta_bundle` take the state lock twice: to see whether the history
is compacted above the number of the reader, and to read the mutations. In between, other threads
may commit and compact.

* `SourceOfTruth.Later`: what commits and compactions do to what a reader may see.
* `advances_program`: each of them goes to a later state.
* `serve_exact_iff`: when an answer is exact.
-/

namespace Globacl

open Lib Prog

namespace SourceOfTruth

/-- The history of the second state is the one of the first with more mutations at its end, less
what is compacted. -/
structure Later (st st' : SourceOfTruth) : Prop where
  contiguous : Contiguous st'
  watermark : ∀ s, st.watermark s ≤ st'.watermark s
  compacted : ∀ s, st.compactedWatermark s ≤ st'.compactedWatermark s
  log : ∀ s, ∃ new, shardLog st'.mutations s =
    (shardLog st.mutations s ++ new).filter fun m => decide (m.seq > st'.compactedWatermark s)

section Later

variable {st st' st'' : SourceOfTruth} {m : Mutation}

/-- What is retained is not compacted. -/
theorem Contiguous.seq_gt (h : Contiguous st) {s : Nat} (hm : m ∈ shardLog st.mutations s) :
    st.compactedWatermark s < m.seq := by
  have hseq : m.seq ∈ (shardLog st.mutations s).map Mutation.seq := List.mem_map_of_mem hm
  rw [h.numbered, List.mem_range'_1] at hseq
  omega

theorem Contiguous.seq_le (h : Contiguous st) {s : Nat} (hm : m ∈ shardLog st.mutations s) :
    m.seq ≤ st.watermark s := by
  have hseq : m.seq ∈ (shardLog st.mutations s).map Mutation.seq := List.mem_map_of_mem hm
  rw [h.numbered, List.mem_range'_1] at hseq
  have := h.compacted s
  omega

/-- The history keeps all that it had. -/
theorem Later.of_append {new : List Mutation} (h' : Contiguous st')
    (hw : ∀ s, st.watermark s ≤ st'.watermark s)
    (hc : st'.compactedWatermarks = st.compactedWatermarks)
    (hms : st'.mutations = st.mutations ++ new) : Later st st' := by
  refine ⟨h', hw, fun s => ?_, fun s => ⟨shardLog new s, ?_⟩⟩
  · rw [compactedWatermark, compactedWatermark, hc]
  · rw [← shardLog_append, ← hms]
    exact (List.filter_eq_self.mpr fun m hm => decide_eq_true (h'.seq_gt hm)).symm

theorem Later.refl (h : Contiguous st) : Later st st :=
  @Later.of_append _ _ [] h (fun _ => Nat.le_refl _) rfl (List.append_nil _).symm

theorem Later.trans (h : Later st st') (h' : Later st' st'') : Later st st'' := by
  refine ⟨h'.contiguous, fun s => (h.watermark s).trans (h'.watermark s),
    fun s => (h.compacted s).trans (h'.compacted s), fun s => ?_⟩
  obtain ⟨new, hnew⟩ := h.log s
  obtain ⟨new', hnew'⟩ := h'.log s
  have hle := h'.compacted s
  refine ⟨new ++ new', ?_⟩
  rw [hnew', hnew, ← List.append_assoc]
  conv_rhs => rw [List.filter_append]
  conv_lhs => rw [List.filter_append, List.filter_filter]
  congr 1
  refine List.filter_congr fun m _ => ?_
  rw [Bool.and_eq_left_iff_imp, decide_eq_true_eq, decide_eq_true_eq]
  omega

theorem later_applyReplicatedMutation {status : ApplyStatus} (h : Contiguous st)
    (hr : st.applyReplicatedMutation m = .ok (status, st')) : Later st st' := by
  have h' := h.applyReplicatedMutation hr
  obtain ⟨-, rfl⟩ | ⟨-, -, hshard, hseq, rfl⟩ := applyReplicatedMutation_ok hr
  · exact .refl h
  · refine .of_append h' (fun s => ?_) rfl rfl
    rw [record_watermark st hshard]
    split
    · subst_vars
      omega
    · exact Nat.le_refl _

theorem later_compactMutationHistory {watermarks : List Nat} (h : Contiguous st)
    (hc : st.compactMutationHistory watermarks = .ok st') : Later st st' := by
  have h' := h.compactMutationHistory hc
  obtain ⟨-, ha, -, hcomp, hms⟩ := compactMutationHistory_ok hc
  refine ⟨h', fun s => (ha.watermark s).ge, fun s => ?_, fun s => ⟨[], ?_⟩⟩
  · rw [hcomp]
    exact Nat.le_max_left _ _
  · rw [List.append_nil, hms, shardLog_filter_seq st.mutations (watermarks.getD · 0)]
    refine List.filter_congr fun m hm => ?_
    have := h.seq_gt hm
    rw [hcomp, decide_eq_decide]
    omega

theorem later_setEpoch (h : Contiguous st) (epoch : Nat) : Later st (st.setEpoch epoch) :=
  @Later.of_append _ _ [] (h.of_alike ⟨rfl, rfl, rfl, rfl⟩ rfl rfl) (fun _ => Nat.le_refl _) rfl
    (List.append_nil _).symm

end Later

end SourceOfTruth

/-! ## Writers -/

/-- What changes the memory of a node that serves requests. -/
inductive Write where
  | deny (ord : IterOrder) (peers : Peers) (now : Nat) (request : DenyRequest)
  | rule (ord : IterOrder) (peers : Peers) (now : Nat) (request : RuleRequest)
  | rollback (ord : IterOrder) (peers : Peers) (clock : Nat → Nat) (snapshot : Snapshot)
      (rollbackId : String)
  /-- A mutation that the leader committed. -/
  | replicate (ord : IterOrder) (m : Mutation) (requirePending : Bool)
  | compact (ord : IterOrder) (force : Bool)
  /-- The publisher moves its offsets, up to which a compaction may go. -/
  | publish (offsets : List Nat)

/-- The program of a write, which holds the state lock. -/
def Write.program : Write → Program Unit
  | .deny ord peers now request => do
    let _ ← commitRequest ord peers now request
    pure ()
  | .rule ord peers now request => do
    let _ ← commitRuleRequest ord peers now request
    pure ()
  | .rollback ord peers clock snapshot rollbackId =>
    rollbackRequest ord peers clock snapshot rollbackId
  | .replicate ord m requirePending => do
    let _ ← commitReplicatedMutation ord m requirePending
    pure ()
  | .compact ord force => compactMutationLogs ord force
  | .publish offsets => .step fun app => { app with lastPublished := offsets }

/-- The node after a write, which may have failed. -/
def App.write (app : App) (w : Write) : App := (w.program app).final

/-- The node after some writes. -/
def App.writes (app : App) (ws : List Write) : App := ws.foldl App.write app

/-- The memory goes to a later state. -/
def Advances (app app' : App) : Prop :=
  SourceOfTruth.Contiguous app.state → SourceOfTruth.Later app.state app'.state

section Advances

variable {ord : IterOrder} {m : Mutation}

theorem Advances.refl (app : App) : Advances app app := fun h => .refl h

theorem Advances.trans {app app' app'' : App} (h : Advances app app') (h' : Advances app' app'') :
    Advances app app'' := fun hc => (h hc).trans (h' (h hc).contiguous)

/-- A step that leaves the memory alone. -/
theorem advances_step {f : App → App} (hf : ∀ app, (f app).state = app.state) :
    Respects Advances (.step f : Program Unit) :=
  .step fun app₀ app h hc => by rw [hf]; exact h hc

theorem advances_writeDisk (f : Disk → Disk) : Respects Advances (writeDisk f) :=
  advances_step fun _ => rfl

theorem advances_setConsensus (cs : ConsensusState) : Respects Advances (setConsensus cs) :=
  .bind (advances_step fun _ => by rfl) fun _ => advances_writeDisk _

/-- A state that is later than the one that was read before. -/
theorem advances_setState {app₀ app₁ : App} {st : SourceOfTruth} (h₁ : Advances app₀ app₁)
    (hst : SourceOfTruth.Contiguous app₁.state → SourceOfTruth.Later app₁.state st) :
    Triple (Advances app₀) (setState st) (fun _ => Advances app₀) (Advances app₀)
      (Advances app₀) := by
  have hset : ∀ app : App, Advances app₀ { app with state := st } := fun _ hc =>
    (h₁ hc).trans (hst (h₁ hc).contiguous)
  exact Triple.step (fun app _ => hset app) fun app _ => hset app

/-- To read the memory and go on, with what was read so far. -/
theorem advances_get {α : Type} {app₀ : App} {f : App → Program α}
    (h : ∀ app₁, Advances app₀ app₁ → Triple (Advances app₀) (f app₁) (fun _ => Advances app₀)
      (Advances app₀) (Advances app₀)) :
    Triple (Advances app₀) (Prog.get >>= f) (fun _ => Advances app₀) (Advances app₀)
      (Advances app₀) :=
  Triple.get_bind fun app₁ h₁ => (h app₁ h₁).conseq (fun _ heq => heq ▸ h₁) (fun _ _ h => h)
    (fun _ h => h) fun _ h => h

theorem advances_compactMutationLogsLocked : Respects Advances (compactMutationLogsLocked ord) := by
  intro app₀
  refine advances_get fun app₁ h₁ => ?_
  refine Triple.bind (advances_writeDisk _ app₀) fun _ => Triple.bind (advances_writeDisk _ app₀)
    fun _ => Triple.bind (q := fun _ => Advances app₀) ?_ fun _ => ?_
  · exact Respects.ite (fun _ => .lift _) (fun _ => .forEach (fun _ => advances_writeDisk _) _) app₀
  · refine Triple.bind (q := fun st app => app₁.state.compactMutationHistory
      (compactionWatermarksForSnapshot app₁ (app₁.state.snapshot ord)) = .ok st ∧ Advances app₀ app)
      (Triple.lift (fun _ _ hst h => ⟨hst, h⟩) fun _ _ _ h => h) fun st => ?_
    refine Triple.of_fact fun hst => advances_setState h₁ fun hc => ?_
    exact SourceOfTruth.later_compactMutationHistory hc hst

theorem advances_maybeCompactMutationLogs : Respects Advances (maybeCompactMutationLogs ord) :=
  .get_bind fun _ => .ite (fun _ => .pure _) fun _ => advances_compactMutationLogsLocked

theorem advances_compactMutationLogs (force : Bool) :
    Respects Advances (compactMutationLogs ord force) :=
  .get_bind fun _ => .ite (fun _ => .pure _) fun _ => advances_compactMutationLogsLocked

theorem advances_applyPreparedMutation : Respects Advances (applyPreparedMutation ord m) := by
  intro app₀
  have hend : ∀ status, Respects Advances (do removePendingMutation m; pure status) :=
    fun status => (advances_writeDisk _).bind fun _ => .pure (status : ApplyStatus)
  have hpersist : Respects Advances (persistMutation m) :=
    (advances_writeDisk _).bind fun _ => advances_writeDisk _
  refine advances_get fun app₁ h₁ => ?_
  refine Triple.ite (fun _ => Triple.bind (hpersist app₀) fun _ => ?_) fun _ => ?_
  all_goals
    refine Triple.bind (q := fun r app => app₁.state.applyReplicatedMutation m = .ok r ∧
      Advances app₀ app) (Triple.lift (fun _ _ hr h => ⟨hr, h⟩) fun _ _ _ h => h) fun r => ?_
    refine Triple.of_fact fun hr => ?_
    refine Triple.bind (advances_setState h₁ fun hc => ?_) fun _ => ?_
    · exact @SourceOfTruth.later_applyReplicatedMutation _ _ _ r.1 hc hr
    · refine Triple.ite (fun _ => ?_) fun _ => hend r.1 app₀
      refine Triple.bind (advances_writeDisk _ app₀) fun _ => Triple.bind (advances_writeDisk _ app₀)
        fun _ => ?_
      exact Triple.bind (advances_maybeCompactMutationLogs app₀) fun _ => hend r.1 app₀

theorem advances_prepareOnQuorum (peers : Peers) : Respects Advances (prepareOnQuorum peers m) :=
  .get_bind fun _ => .ite (fun _ => .bind (advances_step fun _ => by rfl) fun _ => .lift _)
    fun _ => .pure _

theorem advances_commitPreparedOutcome (peers : Peers) (outcome : CommitOutcome) :
    Respects Advances (commitPreparedOutcome ord peers outcome) := by
  refine .ite (fun _ => .pure _) fun _ => .get_bind fun _ => .bind (.lift _) fun _ => ?_
  refine .bind (advances_prepareOnQuorum peers) fun _ => .get_bind fun _ => .bind (.lift _) fun _ => ?_
  exact .bind advances_applyPreparedMutation fun _ => .pure _

/-- The start of a request: the term is set in the memory that was read. -/
theorem advances_setEpoch {α : Type} {app₀ app₁ : App} {x : Result Nat} {c : Nat → Program α}
    (h₁ : Advances app₀ app₁) (hc : ∀ term, Respects Advances (c term)) :
    Triple (Advances app₀) (Prog.lift x >>= fun term => setState (app₁.state.setEpoch term) >>=
      fun _ => c term) (fun _ => Advances app₀) (Advances app₀) (Advances app₀) := by
  refine Triple.bind (q := fun _ => Advances app₀) (Respects.lift _ app₀) fun term => ?_
  exact Triple.bind (advances_setState h₁ fun hc => SourceOfTruth.later_setEpoch hc term)
    fun _ => hc term app₀

theorem advances_commitRequest (peers : Peers) (now : Nat) (request : DenyRequest) :
    Respects Advances (commitRequest ord peers now request) := fun _ =>
  advances_get fun _ h₁ => advances_setEpoch h₁ fun _ =>
    .bind (.lift _) fun outcome => advances_commitPreparedOutcome peers outcome

theorem advances_commitRuleRequest (peers : Peers) (now : Nat) (request : RuleRequest) :
    Respects Advances (commitRuleRequest ord peers now request) := fun _ =>
  advances_get fun _ h₁ => advances_setEpoch h₁ fun _ =>
    .bind (.lift _) fun outcome => advances_commitPreparedOutcome peers outcome

theorem advances_rollbackRequest (peers : Peers) (clock : Nat → Nat) (snapshot : Snapshot)
    (rollbackId : String) :
    Respects Advances (rollbackRequest ord peers clock snapshot rollbackId) := fun _ =>
  advances_get fun _ h₁ => advances_setEpoch h₁ fun _ => .bind (.lift _) fun _ =>
    .bind (.forEach (fun m => .bind (advances_commitPreparedOutcome peers ⟨m, false⟩) fun _ => .pure _) _)
      fun _ => .get_bind fun _ => advances_writeDisk _

theorem advances_commitReplicatedMutation (requirePending : Bool) :
    Respects Advances (commitReplicatedMutation ord m requirePending) := by
  refine .get_bind fun app => .bind (.lift _) fun _ => .bind (.lift _) fun cs => ?_
  refine .ite (fun _ => .bind (.pure _) fun _ => ?_) fun _ =>
    .bind (advances_setConsensus cs) fun _ => ?_
  all_goals
    exact .ite (fun _ => .bind (.lift _) fun _ => advances_applyPreparedMutation)
      fun _ => advances_applyPreparedMutation

/-- Every write goes to a later state. -/
theorem advances_program (w : Write) : Respects Advances w.program := by
  cases w with
  | deny ord peers now request => exact .bind (advances_commitRequest peers now request) fun _ => .pure _
  | rule ord peers now request =>
    exact .bind (advances_commitRuleRequest peers now request) fun _ => .pure _
  | rollback ord peers clock snapshot rollbackId =>
    exact advances_rollbackRequest peers clock snapshot rollbackId
  | replicate ord m requirePending =>
    exact .bind (advances_commitReplicatedMutation requirePending) fun _ => .pure _
  | compact ord force => exact advances_compactMutationLogs force
  | publish offsets => exact advances_step fun _ => by rfl

theorem advances_writes (app : App) (ws : List Write) : Advances app (app.writes ws) :=
  foldl_invariant (I := Advances app) (fun app₁ w h => h.trans ((advances_program w).final .refl app₁))
    (.refl app) ws

end Advances

/-- What a start loads was built from its files. -/
theorem built_of_boot {config : Config} {disk : Disk} {app : App} (h : boot config disk = .ok app) :
    SourceOfTruth.Built app.state := by
  have hload : ∀ {offsets : Option (List Nat)} {st : SourceOfTruth},
      loadSourceOfTruth disk config.shardCount config.replication.clusterId offsets = .ok st →
      SourceOfTruth.Built st := by
    intro offsets st hst
    unfold loadSourceOfTruth at hst
    dsimp only at hst
    split at hst
    · exact .fromMutations hst
    · split at hst
      · cases hst
      split at hst
      · cases hst
      split at hst
      · split at hst
        · -- the logs alone were enough
          rename_i hreplayed
          cases hst
          unfold replayCompleteLogs at hreplayed
          split at hreplayed
          · cases hreplayed
          split at hreplayed
          · rename_i hfrom
            split at hreplayed
            · cases hreplayed
              exact .fromMutations hfrom
            · cases hreplayed
          · cases hreplayed
        · split at hst
          · cases hst
          · exact .fromSnapshotAndRetainedHistory hst
      · split at hst
        · cases hst
        · exact .fromSnapshotAndMutations hst
  unfold boot at h
  dsimp only at h
  split at h
  · cases h
  · rename_i hst
    cases h
    exact hload hst

/-! ## Readers -/

/-- What a reader asks for. A `to_seq` that is not given is `u64::MAX`, which bounds nothing. -/
structure MutationsQuery where
  shardId : Nat
  fromSeq : Nat
  deliveryPriority : Option DeliveryPriority
  toSeq : Option Nat

/-- `compacted_seq_for_query`. -/
def compactedSeqForQuery (st : SourceOfTruth) (query : MutationsQuery) : Option Nat :=
  st.mutationHistoryCompacted query.shardId query.fromSeq

/-- `mutations_for_query`. -/
def mutationsForQuery (st : SourceOfTruth) (query : MutationsQuery) : List Mutation :=
  let mutations := st.mutationsForShard query.shardId query.fromSeq
  match query.deliveryPriority with
  | some priority => mutations.filter fun m => m.deliveryPriority = priority
  | none => mutations

/-- `delta_bundle_for_query`. -/
def deltaBundleForQuery (st : SourceOfTruth) (query : MutationsQuery) : List Mutation :=
  (st.mutationsForShard query.shardId query.fromSeq).filter fun m =>
    query.toSeq.all fun toSeq => m.seq ≤ toSeq

/-- The two endpoints, which differ in what they read. -/
inductive Endpoint where
  | mutations
  | deltaBundle

/-- The second section of a reader. -/
def Endpoint.collect : Endpoint → SourceOfTruth → MutationsQuery → List Mutation
  | .mutations => mutationsForQuery
  | .deltaBundle => deltaBundleForQuery

/-- The answer to a reader: `409` with the compacted number, or `200` with the stream of the
mutations. -/
inductive StreamAnswer where
  | compacted (compactedSeq : Nat)
  | stream (mutations : List Mutation)

/-- The body of `200`. -/
def streamBody (mutations : List Mutation) : List UInt8 := encodeMutationStream mutations

/-- `GET /v1/mutations` and `GET /v1/delta_bundle` of a node on which others write before the first
section of the request and between its two sections. -/
def App.serve (app : App) (endpoint : Endpoint) (query : MutationsQuery)
    (before between : List Write) : StreamAnswer :=
  match compactedSeqForQuery (app.writes before).state query with
  | some compactedSeq => .compacted compactedSeq
  | none => .stream (endpoint.collect (app.writes (before ++ between)).state query)

/-- The mutations of the shard with the numbers above `fromSeq` up to the watermark. -/
def SourceOfTruth.HoldsRange (st : SourceOfTruth) (shardId fromSeq : Nat) (mutations : List Mutation) :
    Prop :=
  mutations = (shardLog st.mutations shardId).filter (fun m => decide (m.seq > fromSeq)) ∧
    mutations.map Mutation.seq = List.range' (fromSeq + 1) (st.watermark shardId - fromSeq)

/-- A stream has exactly what was above the number of the reader at some moment of the request. -/
def App.ServesExactly (app : App) (endpoint : Endpoint) (query : MutationsQuery)
    (before between : List Write) : Prop :=
  ∀ mutations, app.serve endpoint query before between = .stream mutations →
    ∃ front, front <+: before ++ between ∧
      (app.writes front).state.HoldsRange query.shardId query.fromSeq mutations

section Readers

variable {st : SourceOfTruth} {query : MutationsQuery}

theorem collect_eq (st : SourceOfTruth) (endpoint : Endpoint) (hpriority : query.deliveryPriority = none)
    (hto : query.toSeq = none) :
    endpoint.collect st query = st.mutationsForShard query.shardId query.fromSeq := by
  cases endpoint with
  | mutations => simp only [Endpoint.collect, mutationsForQuery, hpriority]
  | deltaBundle => simp [Endpoint.collect, deltaBundleForQuery, hto]

namespace SourceOfTruth

/-- The history is compacted above a number if the floor is. -/
theorem mutationHistoryCompacted_eq_none {shardId fromSeq : Nat} :
    st.mutationHistoryCompacted shardId fromSeq = none ↔ st.compactedWatermark shardId ≤ fromSeq := by
  unfold mutationHistoryCompacted compactedWatermark
  rw [List.getD_eq_getElem?_getD]
  cases st.compactedWatermarks[shardId]? with
  | none => simp
  | some compactedSeq => simp

end SourceOfTruth

open SourceOfTruth in
/-- An answer is exact if and only if it is `409`, or the history is not compacted above the number
of the reader when it is read, or there was nothing to read at the start of the request, and what
was committed since then is compacted. -/
theorem servesExactly_iff {app : App} (hb : Built app.state) (past before between : List Write)
    (endpoint : Endpoint) (query : MutationsQuery) (hpriority : query.deliveryPriority = none)
    (hto : query.toSeq = none) :
    (app.writes past).ServesExactly endpoint query before between ↔
      compactedSeqForQuery ((app.writes past).writes before).state query ≠ none ∨
      compactedSeqForQuery ((app.writes past).writes (before ++ between)).state query = none ∨
      (app.writes past).state.watermark query.shardId ≤ query.fromSeq ∧
        ((app.writes past).writes (before ++ between)).state.compactedWatermark query.shardId =
          ((app.writes past).writes (before ++ between)).state.watermark query.shardId := by
  have hstart : Contiguous (app.writes past).state := (advances_writes app past hb.contiguous).contiguous
  generalize app.writes past = app₀ at *
  have hread := advances_writes app₀ (before ++ between) hstart
  have hseqs := hread.contiguous.map_seq_mutationsForShard query.shardId query.fromSeq
  unfold App.ServesExactly App.serve
  cases hchecked : compactedSeqForQuery (app₀.writes before).state query with
  | some compactedSeq => simp
  | none =>
    simp only [StreamAnswer.stream.injEq, forall_eq', ne_eq, not_true_eq_false, false_or]
    unfold compactedSeqForQuery
    rw [mutationHistoryCompacted_eq_none, collect_eq _ endpoint hpriority hto]
    constructor
    · rintro ⟨front, -, heq, hexact⟩
      have hfront := advances_writes app₀ front hstart
      have hle := hfront.watermark query.shardId
      rw [hseqs] at hexact
      by_cases hfloor : (app₀.writes (before ++ between)).state.compactedWatermark query.shardId ≤
          query.fromSeq
      · exact Or.inl hfloor
      · -- the numbers that are missing must be none
        have hcomp := hread.contiguous.compacted query.shardId
        rw [List.range'_inj] at hexact
        omega
    · rintro (hfloor | ⟨hbefore, hall⟩)
      · refine ⟨before ++ between, List.prefix_refl _, mutationsForShard_eq .., ?_⟩
        rw [hseqs, Nat.max_eq_right hfloor]
      · have hempty : (app₀.writes (before ++ between)).state.mutationsForShard query.shardId
            query.fromSeq = [] := by
          rw [← List.map_eq_nil_iff, hseqs, hall, List.range'_eq_nil_iff]
          omega
        refine ⟨[], List.nil_prefix, ?_, ?_⟩
        · rw [hempty, eq_comm, List.filter_eq_nil_iff]
          intro m hm
          have := hstart.seq_le hm
          rw [decide_eq_true_eq]
          omega
        · rw [hempty, eq_comm, List.map_nil, List.range'_eq_nil_iff]
          exact Nat.sub_eq_zero_of_le hbefore

end Readers

/-! A node that compacts with every second mutation: the second one comes while the first is read. -/

namespace RacedRead

def config : Config where
  shardCount := 1
  replication := ⟨"local", "n1", none, ["n1"], 1⟩
  minLogEntries := 2
  compactOnStartup := false
  publisher := false

def node : App := ⟨config, .new 1 "local", ⟨1, none, .leader, some "n1"⟩, [0], .empty⟩

def peers : Peers := ⟨fun _ => .ok (), fun _ cs => cs⟩

def deny (opId : String) : Write := .deny .given peers 100 (SourceOfTruth.denial opId)

def query : MutationsQuery := ⟨0, 0, none, none⟩

theorem built : SourceOfTruth.Built node.state := SourceOfTruth.Built.new 1 "local"

end RacedRead

open RacedRead in
theorem servesExactly_iff_racedRead :
    ¬ (node.writes [deny "op-1"]).ServesExactly .mutations query [] [deny "op-2"] := by
  rw [servesExactly_iff built [deny "op-1"] [] [deny "op-2"] .mutations query rfl rfl]
  decide +kernel

open RacedRead in
/-- A reader that passed the check of the floor gets nothing of what was committed. -/
theorem not_servesExactly :
    ¬ ∀ (app : App), SourceOfTruth.Built app.state → ∀ (past before between : List Write)
      (endpoint : Endpoint) (query : MutationsQuery), query.deliveryPriority = none →
      query.toSeq = none → (app.writes past).ServesExactly endpoint query before between := by
  intro h
  have hserved : (node.writes [deny "op-1"]).serve .mutations query [] [deny "op-2"] = .stream [] := by
    have hchecked : compactedSeqForQuery ((node.writes [deny "op-1"]).writes []).state query = none := by
      decide +kernel
    have hread : Endpoint.mutations.collect ((node.writes [deny "op-1"]).writes
        ([] ++ [deny "op-2"])).state query = [] := by
      decide +kernel
    unfold App.serve
    rw [hchecked]
    exact congrArg StreamAnswer.stream hread
  obtain ⟨front, -, -, hexact⟩ :=
    h node built [deny "op-1"] [] [deny "op-2"] .mutations query rfl rfl [] hserved
  have hstart : SourceOfTruth.Contiguous (node.writes [deny "op-1"]).state :=
    (advances_writes node _ (SourceOfTruth.contiguous_new 1 "local")).contiguous
  have hle := (advances_writes (node.writes [deny "op-1"]) front hstart).watermark 0
  have hone : (node.writes [deny "op-1"]).state.watermark 0 = 1 := by decide +kernel
  have hzero : ((node.writes [deny "op-1"]).writes front).state.watermark 0 - 0 = 0 :=
    List.range'_eq_nil_iff.mp hexact.symm
  omega

end Globacl
