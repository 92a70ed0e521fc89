import Globacl.Agent.Forward

/-!
# The operations of an agent (`globacl-agent/src/app/poll.rs`)

A poll, a gap repair and a snapshot repair, each with the answers of the relay during it. They
change the snapshot file and the state in memory in two ways only: with a delta that is applied,
written and swapped in, and with a snapshot that is fetched, written, loaded and swapped in.

* `Turn.run`: the program of an operation. `Op.AsksStream`, `Op.AsksBundle`: the mutations that it
  may ask for.
* `Replaces`: how a state comes after another one. `Turn.moves`: the states of an operation come one
  after the other in this way.
* `Keeps`: a property that every new pair of file and state has. `Turn.keeps`: then an operation
  keeps it, whether it succeeds or fails.
-/

namespace Globacl

open Lib Prog

namespace Agent

/-- The operations that a poll loop calls. -/
inductive Op where
  | pollOnce
  | repairGap (shardId fromSeq toSeq : Nat)
  | repairFromSnapshot

/-- An operation, with the answers of the relay during it. -/
structure Turn where
  ord : IterOrder
  relay : Relay
  op : Op

/-- The program of the operation. A gap repair that finds no bundle ends with the snapshot repair.
-/
def Turn.run (t : Turn) : Program Unit :=
  match t.op with
  | .pollOnce => pollOnce t.ord t.relay
  | .repairGap shardId fromSeq toSeq => do
    match ← repairGap t.ord t.relay shardId fromSeq toSeq with
    | .repairFromSnapshot => repairFromSnapshot t.relay
    | _ => pure ()
  | .repairFromSnapshot => repairFromSnapshot t.relay

/-- The streams that an operation on the state `start` asks for: a poll goes on from the watermark
of a shard, or from beyond it. -/
def Op.AsksStream (start : ActiveState) : Op → Nat → Nat → Prop
  | .pollOnce, shardId, fromSeq => shardId < start.shardCount ∧ start.watermark shardId ≤ fromSeq
  | .repairGap _ _ _, _, _ => False
  | .repairFromSnapshot, _, _ => False

/-- The bundles that an operation asks for. -/
def Op.AsksBundle (start : ActiveState) : Op → Nat → Nat → Nat → Prop
  | .pollOnce, shardId, fromSeq, toSeq =>
    shardId < start.shardCount ∧ start.watermark shardId ≤ fromSeq ∧ fromSeq ≤ toSeq
  | .repairGap s f t, shardId, fromSeq, toSeq => (shardId, fromSeq, toSeq) = (s, f, t) ∧ f ≤ t
  | .repairFromSnapshot, _, _, _ => False

end Agent

/-- The mutations are in an answer of the relay. -/
def Relay.Serves (relay : Relay) (mutations : List Mutation) : Prop :=
  (∃ shardId fromSeq response, (relay.mutations shardId fromSeq).response = .ok response ∧
    response.body = .ok mutations) ∨
  ∃ shardId fromSeq toSeq response,
    (relay.deltaBundle shardId fromSeq toSeq).response = .ok response ∧ response.body = .ok mutations

/-- An operation on the state `start` takes the mutations from an answer of the relay. -/
def Relay.Hands (relay : Relay) (op : Agent.Op) (start : ActiveState) (mutations : List Mutation) :
    Prop :=
  mutations ≠ [] ∧
    ((∃ shardId fromSeq, op.AsksStream start shardId fromSeq ∧
        (relay.mutations shardId fromSeq).Taken (.ok mutations)) ∨
      ∃ shardId fromSeq toSeq, op.AsksBundle start shardId fromSeq toSeq ∧
        (relay.deltaBundle shardId fromSeq toSeq).Taken (.ok mutations))

theorem Relay.Hands.serves {relay : Relay} {op : Agent.Op} {start : ActiveState}
    {mutations : List Mutation} (h : relay.Hands op start mutations) : relay.Serves mutations :=
  h.2.imp (fun ⟨shardId, fromSeq, _, h⟩ => ⟨shardId, fromSeq, _, h.1, rfl⟩)
    fun ⟨shardId, fromSeq, toSeq, _, h⟩ => ⟨shardId, fromSeq, toSeq, _, h.1, rfl⟩

namespace ActiveState

/-- A state with the same shards, none of them behind. -/
structure Extends (a a' : ActiveState) : Prop where
  shardCount : a'.shardCount = a.shardCount
  watermarks : AtLeast a.watermarks a'.watermarks

variable {a a' a'' : ActiveState}

theorem Extends.refl (a : ActiveState) : Extends a a := ⟨rfl, .refl _⟩

theorem Extends.trans (h : Extends a a') (h' : Extends a' a'') : Extends a a'' :=
  ⟨h'.shardCount.trans h.shardCount, h.watermarks.trans h'.watermarks⟩

theorem extends_applyMutation {m : Mutation} {status : ApplyStatus}
    (h : a.applyMutation m = .ok (status, a')) : Extends a a' := by
  refine ⟨?_, atLeast_applyMutation h⟩
  unfold applyMutation at h
  split at h
  · cases h
  · split at h
    · cases h
      rfl
    · split at h
      · cases h
      · cases h
        exact advance_shardCount _ _

theorem extends_applyMutations {mutations : List Mutation} {applied applied' : Nat}
    (h : a.applyMutations applied mutations = .ok (applied', a')) : Extends a a' := by
  induction mutations generalizing a applied with
  | nil =>
    cases h
    exact .refl _
  | cons m mutations ih =>
    unfold applyMutations at h
    split at h
    · exact (extends_applyMutation ‹_›).trans (ih h)
    · exact (extends_applyMutation ‹_›).trans (ih h)
    · cases h

theorem extends_compactIfLarge {ord : IterOrder} (h : a.compactIfLarge ord = .ok a') :
    Extends a a' := by
  have hsame := compactIfLarge_watermarks h
  exact ⟨by rw [← a'.watermarks_length, hsame, a.watermarks_length], hsame ▸ .refl _⟩

/-- A gap is behind what an extension of the state has of a shard. -/
theorem gap_applyMutations {mutations : List Mutation} {applied shardId expectedSeq receivedSeq : Nat}
    (h : a.applyMutations applied mutations = .error (.gap shardId expectedSeq receivedSeq)) :
    ∃ a', Extends a a' ∧ shardId < a'.shardCount ∧ expectedSeq = a'.watermark shardId + 1 := by
  induction mutations generalizing a applied with
  | nil => cases h
  | cons m mutations ih =>
    unfold applyMutations at h
    split at h
    · obtain ⟨a', hext, hgap⟩ := ih h
      exact ⟨a', (extends_applyMutation ‹_›).trans hext, hgap⟩
    · obtain ⟨a', hext, hgap⟩ := ih h
      exact ⟨a', (extends_applyMutation ‹_›).trans hext, hgap⟩
    · rename_i herr
      cases h
      unfold applyMutation at herr
      split at herr
      · cases herr
      · rename_i hshard
        split at herr
        · cases herr
        · split at herr
          · cases herr
            exact ⟨a, .refl a, not_le.mp hshard, rfl⟩
          · cases herr

end ActiveState

namespace Agent

/-- What a state is replaced with in an operation on the state `start`: the state itself, the one
with mutations that are taken, or that of a snapshot that is fetched. -/
inductive Replaces (t : Turn) (start : ActiveState) : ActiveState → ActiveState → Prop
  | kept (state : ActiveState) : Replaces t start state state
  | applied {state next state' : ActiveState} {mutations : List Mutation} {applied : Nat} :
      t.relay.Hands t.op start mutations →
      state.applyMutations 0 mutations = .ok (applied, next) →
      next.compactIfLarge t.ord = .ok state' → Replaces t start state state'
  | fetched {state state' : ActiveState} {snapshot : Snapshot} :
      t.relay.fetchSnapshot = .ok snapshot → ActiveState.fromSnapshot snapshot = .ok state' →
      Replaces t start state state'

/-- The state after a step replaces the one before it. -/
def Step (t : Turn) (start : ActiveState) (app app' : App) : Prop :=
  Replaces t start app.state app'.state

/-- The property `I` of the snapshot file and the state. -/
def At (I : Snapshot → ActiveState → Prop) (app : App) : Prop := I app.snapshotFile app.state

/-- Each new file with its state has the property: a delta that is written keeps `I`, and a snapshot
that is written is loaded with `J`. -/
structure Keeps (t : Turn) (start : ActiveState) (I J : Snapshot → ActiveState → Prop) :
    Prop where
  extending : ∀ {file state}, I file state → start.Extends state
  rests : ∀ {file state}, I file state → J file state
  applied : ∀ {file state mutations applied next state'}, t.relay.Hands t.op start mutations →
    I file state → state.applyMutations 0 mutations = .ok (applied, next) →
    next.compactIfLarge t.ord = .ok state' → t.relay.writeFile (state'.snapshot t.ord) = .ok () →
    I (state'.snapshot t.ord) state'
  fetched : ∀ {file state snapshot}, I file state → t.relay.fetchSnapshot = .ok snapshot →
    t.relay.writeFile snapshot = .ok () →
    ∃ state', ActiveState.fromSnapshot snapshot = .ok state' ∧ J snapshot state'

/-- The files and states that come after each other: a delta that is written keeps `I`, and a
snapshot that is written has `J`, with its own state if it can be loaded and else with the one
before it. -/
structure Installs (t : Turn) (start : ActiveState) (I J : Snapshot → ActiveState → Prop) :
    Prop where
  extending : ∀ {file state}, I file state → start.Extends state
  rests : ∀ {file state}, I file state → J file state
  applied : ∀ {file state mutations applied next state'}, t.relay.Hands t.op start mutations →
    I file state → state.applyMutations 0 mutations = .ok (applied, next) →
    next.compactIfLarge t.ord = .ok state' → t.relay.writeFile (state'.snapshot t.ord) = .ok () →
    I (state'.snapshot t.ord) state'
  refused : ∀ {file state snapshot err}, I file state → t.relay.fetchSnapshot = .ok snapshot →
    t.relay.writeFile snapshot = .ok () → ActiveState.fromSnapshot snapshot = .error err →
    J snapshot state
  loaded : ∀ {file state snapshot state'}, I file state → t.relay.fetchSnapshot = .ok snapshot →
    t.relay.writeFile snapshot = .ok () → ActiveState.fromSnapshot snapshot = .ok state' →
    J snapshot state'

theorem Keeps.installs {t : Turn} {start : ActiveState} {I J : Snapshot → ActiveState → Prop}
    (h : Keeps t start I J) : Installs t start I J where
  extending := h.extending
  rests := h.rests
  applied := h.applied
  refused hI hfetch hwrite herr := by
    obtain ⟨state', hstate, -⟩ := h.fetched hI hfetch hwrite
    rw [hstate] at herr
    cases herr
  loaded hI hfetch hwrite hload := by
    obtain ⟨state', hstate, hJ⟩ := h.fetched hI hfetch hwrite
    rw [hstate] at hload
    cases hload
    exact hJ

section Installs

variable {t : Turn} {start : ActiveState} {I J : Snapshot → ActiveState → Prop}

/-- A program that keeps `I`, or fails with `J`. -/
abbrev Keeping {α : Type} (t : Turn) (start : ActiveState) (I J : Snapshot → ActiveState → Prop)
    (c : Program α) : Prop :=
  Moves (Step t start) (At I) c (fun _ => At I) (At J)

theorem keeping_pure {α : Type} (a : α) : Keeping t start I J (pure a : Program α) :=
  Moves.pure fun _ h => h

theorem keeping_updateMetrics (g : AgentMetrics → AgentMetrics) :
    Keeping t start I J (updateMetrics g) :=
  Moves.step (fun _ _ => .kept _) fun _ h => h

section

variable (hrests : ∀ {file state}, I file state → J file state)

include hrests

theorem keeping_lift {α : Type} (x : Result α) : Keeping t start I J (lift x : Program α) :=
  Moves.lift (fun _ _ _ h => h) fun _ _ _ h => hrests h

theorem keeping_sendAck (shardId seq entries : Nat) :
    Keeping t start I J (sendAck t.relay shardId seq entries) := by
  refine Moves.get_bind fun app₀ h₀ => ?_
  refine Moves.bind (q := fun _ => At I) (Moves.step ?_ ?_) fun _ => ?_
  · exact fun _ _ => .kept _
  · rintro _ rfl
    exact h₀
  · refine (keeping_lift hrests _).bind fun response => ?_
    exact Moves.ite (fun _ => keeping_lift hrests _) fun _ => keeping_pure _

theorem keeping_checkCanary : Keeping t start I J (checkCanary t.relay) := by
  refine (keeping_lift hrests _).bind fun response => ?_
  refine Moves.ite (fun _ => keeping_pure _) fun _ => ?_
  refine (keeping_lift hrests _).bind fun form => Moves.ite (fun _ => keeping_pure _) fun _ => ?_
  split
  · exact keeping_pure _
  · refine Moves.get_bind fun app₀ h₀ => ?_
    refine Moves.conseq (p := At I) ?_ (fun _ heq => heq ▸ h₀) (fun _ _ h => h) fun _ h => h
    exact Moves.ite (fun _ => keeping_updateMetrics _) fun _ => keeping_pure _

end

/-- A program after `writeSnapshotFile`, from the states in which the write went through. -/
theorem keeping_write {α : Type} {snapshot : Snapshot} {p : App → Prop} {f : Unit → Program α}
    {q : α → App → Prop} (hp : ∀ app, p app → At J app)
    (hf : t.relay.writeFile snapshot = .ok () →
      Moves (Step t start)
        (fun app => ∃ app₀, p app₀ ∧ app = { app₀ with snapshotFile := snapshot }) (f ()) q (At J)) :
    Moves (Step t start) p (writeSnapshotFile t.relay snapshot >>= f) q (At J) := by
  refine Moves.bind (q := fun _ app => t.relay.writeFile snapshot = .ok () ∧
    ∃ app₀, p app₀ ∧ app = { app₀ with snapshotFile := snapshot }) ?_ fun _ => Moves.of_fact hf
  refine Moves.bind (q := fun _ app => t.relay.writeFile snapshot = .ok () ∧ p app)
    (Moves.lift (fun _ _ heq h => ⟨heq, h⟩) fun _ _ _ h => hp _ h) fun _ => ?_
  exact Moves.step (fun _ _ => .kept _) fun app h => ⟨h.1, app, h.2, rfl⟩

variable (h : Installs t start I J)

include h

/-- A state with new mutations is made compact and installed. -/
theorem Installs.compact_install {α : Type} {app₀ : App} {mutations : List Mutation} {applied : Nat}
    {next : ActiveState} {c : ActiveState → Program α} (h₀ : At I app₀)
    (hhands : t.relay.Hands t.op start mutations)
    (happly : app₀.state.applyMutations 0 mutations = .ok (applied, next))
    (hc : ∀ state', Keeping t start I J (c state')) :
    Moves (Step t start) (fun app => app = app₀)
      (do let state ← lift (next.compactIfLarge t.ord)
          install t.ord t.relay state
          c state)
      (fun _ => At I) (At J) := by
  refine Moves.bind (q := fun state' app => next.compactIfLarge t.ord = .ok state' ∧ app = app₀)
    (Moves.lift (fun _ _ heq happ => ⟨heq, happ⟩) fun _ _ _ happ => happ ▸ h.rests h₀) ?_
  refine fun state' => Moves.of_fact fun hcompact => ?_
  refine Moves.bind (q := fun _ => At I) ?_ fun _ => hc state'
  refine keeping_write (fun app happ => happ ▸ h.rests h₀) fun hwrite => Moves.step ?_ ?_
  · rintro _ ⟨_, rfl, rfl⟩
    exact .applied hhands happly hcompact
  · rintro _ ⟨_, rfl, rfl⟩
    exact h.applied hhands h₀ happly hcompact hwrite

theorem Installs.repairWithBundle {shardId : Nat} {mutations : List Mutation}
    (hhands : t.relay.Hands t.op start mutations) :
    Keeping t start I J (repairWithBundle t.ord t.relay shardId mutations) := by
  refine Moves.get_bind fun app₀ h₀ => ?_
  refine Moves.bind (q := fun r app => app₀.state.applyMutations 0 mutations = .ok r ∧ app = app₀)
    (Moves.lift (fun _ _ heq happ => ⟨heq, happ⟩) fun _ _ _ happ => happ ▸ h.rests h₀) ?_
  rintro ⟨applied, next⟩
  refine Moves.of_fact fun happly => h.compact_install h₀ hhands happly fun state' => ?_
  exact (keeping_sendAck h.rests _ _ _).bind fun _ => keeping_updateMetrics _

/-- What follows the check of a payload that was answered with a success. -/
theorem Installs.taken {α : Type} {payload : Signed (Result (List Mutation))}
    {response : HttpResponse (Result (List Mutation))} {c : List Mutation → Program α}
    (hresponse : payload.response = .ok response) (hstatus : response.statusCode = 200)
    (hc : ∀ mutations, payload.Taken (.ok mutations) → Keeping t start I J (c mutations)) :
    Keeping t start I J (do
      lift (verifyRemotePayloadSignature payload.signature)
      let mutations ← lift response.body
      c mutations) := by
  obtain ⟨statusCode, body⟩ := response
  obtain rfl : statusCode = 200 := hstatus
  refine Moves.bind (q := fun _ app => verifyRemotePayloadSignature payload.signature = .ok () ∧
    At I app) (Moves.lift (fun _ _ heq h => ⟨heq, h⟩) fun _ _ _ happ => h.rests happ) fun _ => ?_
  refine Moves.of_fact fun hverify => ?_
  refine Moves.bind (q := fun mutations app => body = .ok mutations ∧ At I app)
    (Moves.lift (fun _ _ heq h => ⟨heq, h⟩) fun _ _ _ happ => h.rests happ) fun mutations => ?_
  refine Moves.of_fact fun hbody => hc mutations ⟨?_, hverify⟩
  rw [hresponse, hbody]

theorem Installs.repairGap {shardId fromSeq toSeq : Nat}
    (hasks : fromSeq ≤ toSeq → t.op.AsksBundle start shardId fromSeq toSeq) :
    Keeping t start I J (repairGap t.ord t.relay shardId fromSeq toSeq) := by
  refine Moves.ite (fun hle => ?_) fun _ => keeping_pure _
  refine Moves.bind (q := fun response app =>
    (t.relay.deltaBundle shardId fromSeq toSeq).response = .ok response ∧ At I app)
    (Moves.lift (fun _ _ heq h => ⟨heq, h⟩) fun _ _ _ happ => h.rests happ) fun response => ?_
  refine Moves.of_fact fun hresponse => Moves.ite (fun hstatus => ?_) fun _ => keeping_pure _
  refine h.taken hresponse hstatus fun mutations htaken => ?_
  refine Moves.ite (fun _ => keeping_pure _) fun hempty => ?_
  refine (h.repairWithBundle ?_).bind fun _ => keeping_pure _
  exact ⟨fun hnil => hempty (by rw [hnil]; rfl), Or.inr ⟨shardId, fromSeq, toSeq, hasks hle, htaken⟩⟩

theorem Installs.applyPolled {shardId : Nat} {mutations : List Mutation} (hop : t.op = .pollOnce)
    (hhands : t.relay.Hands t.op start mutations) :
    Keeping t start I J (applyPolled t.ord t.relay shardId mutations) := by
  refine Moves.get_bind fun app₀ h₀ => ?_
  have hstart : ∀ app, app = app₀ → At I app := fun _ happ => happ ▸ h₀
  split
  · rename_i hgap
    refine (h.repairGap fun hle => ?_).conseq hstart (fun _ _ h => h) fun _ h => h
    obtain ⟨a, hext, hshard, rfl⟩ := ActiveState.gap_applyMutations hgap
    have hext := (h.extending h₀).trans hext
    rw [hop]
    exact ⟨hext.shardCount ▸ hshard, hext.watermarks _, hle⟩
  · exact (keeping_lift h.rests _).conseq hstart (fun _ _ h => h) fun _ h => h
  · refine h.compact_install h₀ hhands ‹_› fun state' => (keeping_updateMetrics _).bind fun _ => ?_
    exact (keeping_sendAck h.rests _ _ _).bind fun _ => keeping_pure _

theorem Installs.pollShard {shardId : Nat} (hop : t.op = .pollOnce)
    (hshard : shardId < start.shardCount) (remote : Option (List Nat)) :
    Keeping t start I J (pollShard t.ord t.relay remote shardId) := by
  refine Moves.get_bind fun app₀ h₀ => ?_
  refine Moves.conseq (p := At I) ?_ (fun _ heq => heq ▸ h₀) (fun _ _ h => h) fun _ h => h
  refine Moves.ite (fun _ => keeping_pure _) fun _ => ?_
  have hle := (h.extending h₀).watermarks shardId
  generalize hfrom : app₀.state.watermark shardId = fromSeq
  refine Moves.bind (q := fun response app =>
    (t.relay.mutations shardId fromSeq).response = .ok response ∧ At I app)
    (Moves.lift (fun _ _ heq h => ⟨heq, h⟩) fun _ _ _ happ => h.rests happ) fun response => ?_
  refine Moves.of_fact fun hresponse => Moves.ite (fun _ => keeping_pure _) fun _ => ?_
  refine Moves.ite (fun _ => keeping_lift h.rests _) fun hstatus => ?_
  refine h.taken hresponse (Decidable.not_not.mp hstatus) fun mutations htaken => ?_
  refine Moves.ite (fun _ => keeping_pure _) fun hempty => h.applyPolled hop ?_
  refine ⟨fun hnil => hempty (by rw [hnil]; rfl), Or.inl ⟨shardId, fromSeq, ?_, htaken⟩⟩
  rw [hop, ← hfrom]
  exact ⟨hshard, hle⟩

theorem Installs.pollShards {shards : List Nat} (hop : t.op = .pollOnce)
    (hshards : ∀ shardId ∈ shards, shardId < start.shardCount) (remote : Option (List Nat)) :
    Keeping t start I J (pollShards t.ord t.relay remote shards) := by
  induction shards with
  | nil => exact keeping_pure _
  | cons shardId shards ih =>
    obtain ⟨hshard, hshards⟩ := List.forall_mem_cons.mp hshards
    refine (h.pollShard hop hshard remote).bind fun flow => ?_
    cases flow with
    | next => exact ih hshards
    | returned => exact keeping_pure _
    | repairFromSnapshot => exact keeping_pure _

theorem Installs.pollUntilRepair (hop : t.op = .pollOnce) :
    Keeping t start I J (pollUntilRepair t.ord t.relay) := by
  refine Moves.get_bind fun app₀ h₀ => ?_
  refine (h.pollShards hop (fun shardId hshard => ?_) _).conseq (fun _ heq => heq ▸ h₀)
    (fun _ _ h => h) fun _ h => h
  rw [← (h.extending h₀).shardCount]
  exact List.mem_range.mp hshard

/-- A snapshot repair ends with `J`. -/
theorem Installs.repairFromSnapshot :
    Moves (Step t start) (At I) (repairFromSnapshot t.relay) (fun _ => At J) (At J) := by
  refine Moves.bind (q := fun snapshot app => t.relay.fetchSnapshot = .ok snapshot ∧ At I app)
    (Moves.lift (fun _ _ heq h => ⟨heq, h⟩) fun _ _ _ happ => h.rests happ) fun snapshot => ?_
  refine Moves.of_fact fun hfetch => keeping_write (fun app happ => h.rests happ) fun hwrite => ?_
  refine Moves.of_exists fun app₀ => Moves.of_fact fun h₀ => ?_
  refine Moves.bind (q := fun state app => ActiveState.fromSnapshot snapshot = .ok state ∧
    app.snapshotFile = snapshot) (Moves.lift ?_ ?_) ?_
  · rintro state _ hload rfl
    exact ⟨hload, rfl⟩
  · rintro _ err herr rfl
    exact h.refused h₀ hfetch hwrite herr
  · refine fun state => Moves.of_fact fun hload => ?_
    have hrefl : ∀ {file state}, J file state → J file state := fun h => h
    refine Moves.bind (q := fun _ => At J) (Moves.step ?_ ?_) fun _ => ?_
    · exact fun _ _ => .fetched hfetch hload
    · rintro app rfl
      exact h.loaded h₀ hfetch hwrite hload
    · refine Moves.bind (q := fun _ => At J) ?_ fun _ => keeping_updateMetrics _
      exact Moves.forEach (I := fun _ => At J) (fun _ _ => keeping_sendAck hrefl _ _ _) _

end Installs

/-- The states of an operation come one after the other. -/
theorem Turn.moves {t : Turn} {start : ActiveState} {I J : Snapshot → ActiveState → Prop}
    (h : Installs t start I J) :
    Moves (Step t start) (At I) t.run (fun _ => At J) (At J) := by
  have hdone : Moves (Step t start) (At I) (pure () : Program Unit) (fun _ => At J) (At J) :=
    Moves.pure fun _ happ => h.rests happ
  unfold Turn.run
  cases hop : t.op with
  | pollOnce =>
    refine (h.pollUntilRepair hop).bind fun flow => ?_
    cases flow with
    | returned => exact hdone
    | repairFromSnapshot => exact h.repairFromSnapshot
    | next =>
      refine (keeping_checkCanary h.rests).bind fun _ => ?_
      exact (keeping_updateMetrics _).conseq (fun _ h => h) (fun _ _ happ => h.rests happ)
        fun _ h => h
  | repairGap shardId fromSeq toSeq =>
    refine (h.repairGap fun hle => ?_).bind fun flow => ?_
    · rw [hop]
      exact ⟨rfl, hle⟩
    cases flow with
    | next => exact hdone
    | returned => exact hdone
    | repairFromSnapshot => exact h.repairFromSnapshot
  | repairFromSnapshot => exact h.repairFromSnapshot

/-- An operation keeps what each new file has. -/
theorem Turn.keeps {t : Turn} {start : ActiveState} {I J : Snapshot → ActiveState → Prop}
    (h : Keeps t start I J) :
    Triple (At I) t.run (fun _ => At J) (At J) fun _ => True :=
  (Turn.moves h.installs).triple

end Agent

end Globacl
