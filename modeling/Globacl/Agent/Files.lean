import Globacl.Agent.Gaps
import Globacl.Agent.Turns
import Globacl.Core.Truncated
import Globacl.Edge.Reload

/-!
# The snapshot file of an agent (`globacl-agent/src/app/snapshot.rs`, `poll.rs`)

An agent writes its snapshot file in three operations, and loads it when it starts. The file has a
detached signature if one was put beside it; the signature is verified at a start, and no operation
writes it. A snapshot of the relay is written before it is loaded, and on the legacy path nothing
checks it first. A mutation is applied whatever shard its record names.

* `Sound`: the file loads, and to what the agent has in memory. `Turn.sound`: an operation on records
  that can be loaded keeps it.
* `Files`, `Files.readSnapshotFile`, `Leaves`: the files of an agent, what a start reads, and what an
  operation leaves.
* `persists_loadable`: in a run on records that can be loaded, the file can be loaded at each return.
* `restart_resumes_iff`: when a restart from the file resumes where the agent was.
-/

namespace Globacl

open Lib Prog

/-! ## What an agent can load again -/

namespace ActiveState

/-- What holds of a state after the mutations, if each mutation that is applied keeps it. -/
theorem applyMutations_induct {P : ActiveState → Prop} {mutations : List Mutation}
    {a a' : ActiveState} {applied applied' : Nat}
    (h : a.applyMutations applied mutations = .ok (applied', a')) (h₀ : P a)
    (hstep : ∀ b, AtLeast a.watermarks b.watermarks → P b → ∀ m ∈ mutations,
      b.watermark m.shard < m.seq → P (b.advance m)) : P a' := by
  suffices hloop : ∀ (l : List Mutation) (b : ActiveState) (count : Nat), (∀ m ∈ l, m ∈ mutations) →
      AtLeast a.watermarks b.watermarks → P b → b.applyMutations count l = .ok (applied', a') →
      P a' from hloop mutations a applied (fun _ hm => hm) (.refl _) h₀ h
  intro l
  induction l with
  | nil =>
    intro b count _ _ hb h
    cases h
    exact hb
  | cons m l ih =>
    intro b count hmem hle hb h
    have htail : ∀ m' ∈ l, m' ∈ mutations := fun m' hm' => hmem m' (List.mem_cons_of_mem _ hm')
    unfold applyMutations at h
    split at h
    all_goals first | cases h | skip
    all_goals
      rename_i b' happly
      have hle' := hle.trans (atLeast_applyMutation happly)
      refine ih b' _ htail hle' ?_ h
      rcases applyMutation_ok happly with rfl | ⟨-, hseq, rfl⟩
      · exact hb
      · exact hstep b hle hb m (hmem m List.mem_cons_self) (by omega)

theorem Stores.compactIfLarge {p : DenyEntry → Prop} {q : RuleEntry → Prop} {a a' : ActiveState}
    {ord : IterOrder} (h : a.Stores p q) (hc : a.compactIfLarge ord = .ok a') : a'.Stores p q := by
  unfold ActiveState.compactIfLarge at hc
  split at hc
  · exact h.compactDeltaOverlay hc
  · cases hc
    exact h

end ActiveState

/-- An entry that an edge of `n` shards can write and load. -/
def DenyEntry.Kept (n : Nat) (e : DenyEntry) : Prop := e.Fits ∧ e.shardId < n

/-- A rule that an edge of `n` shards can write and load. -/
def RuleEntry.Kept (n : Nat) (r : RuleEntry) : Prop := r.Fits ∧ r.shardId < n ∧ r.HasBucket

/-- The record of the mutation can be loaded by an edge of `n` shards. -/
def Mutation.Loadable (n : Nat) (m : Mutation) : Prop :=
  m.Stores (fun e => e.shardId < n) fun r => r.shardId < n ∧ r.HasBucket

theorem Mutation.Loadable.kept {n : Nat} {m : Mutation} (h : m.Loadable n) (hfits : m.Fits) :
    m.Stores (DenyEntry.Kept n) (RuleEntry.Kept n) := by
  unfold Mutation.Loadable Mutation.Stores at *
  split
  · rename_i rule hrule
    rw [hrule] at h
    exact fun hact => ⟨hfits.rule rule hrule, h hact⟩
  · rename_i hrule
    rw [hrule] at h
    exact fun hact => ⟨hfits.entry, h hact⟩

/-- The snapshot is in an answer of the relay. -/
def Relay.ServesSnapshot (relay : Relay) (snapshot : Snapshot) : Prop :=
  (∃ response, relay.snapshot.response = .ok response ∧
    Agent.decodeSnapshot response.body = .ok snapshot) ∨
  ∃ object response, (relay.snapshotArtifact object).response = .ok response ∧
    Agent.decodeSnapshot response.body.decoded = .ok snapshot

theorem Relay.fetchSnapshot_serves {relay : Relay} {snapshot : Snapshot}
    (h : relay.fetchSnapshot = .ok snapshot) : relay.ServesSnapshot snapshot := by
  rcases Relay.fetchSnapshot_cases h with ⟨object, bytes, hresponse, -, hdecode⟩ |
    ⟨-, body, ⟨hresponse, -⟩, hdecode⟩
  · exact Or.inr ⟨object, _, hresponse, hdecode⟩
  · exact Or.inl ⟨_, hresponse, hdecode⟩

/-- The answers of a relay as the decoders of the source return them, and a disk to which only
snapshots are written that were in memory: a `Vec` has at most `isize::MAX` bytes. -/
structure Relay.Genuine (relay : Relay) : Prop where
  mutations : ∀ mutations, relay.Serves mutations →
    ∃ bytes, decodeMutationStream bytes = .ok mutations
  snapshot : ∀ snapshot, relay.ServesSnapshot snapshot → ∃ bytes, decodeSnapshot bytes = .ok snapshot
  inMemory : ∀ snapshot, relay.writeFile snapshot = .ok () →
    sizeOfDenyEntry * snapshot.entries.length ≤ isizeMax ∧
      sizeOfRuleEntry * snapshot.rules.length ≤ isizeMax

namespace Agent

/-- The agent can load what it stores in the operation: the records of the mutations that it takes
and that are new to it, and a snapshot of the relay that is written. No state that is written has too
many texts. -/
structure Turn.Wholesome (t : Turn) (app : App) : Prop where
  mutations : ∀ mutations, t.relay.Hands t.op app.state mutations → ∀ m ∈ mutations,
    app.state.watermark m.shard < m.seq → m.Loadable app.state.shardCount
  snapshot : ∀ snapshot, t.relay.fetchSnapshot = .ok snapshot →
    t.relay.writeFile snapshot = .ok () → snapshot.Loadable
  texts : ∀ state : ActiveState, app.state.Extends state →
    t.relay.writeFile (state.snapshot t.ord) = .ok () →
    (ImmutableBase.textsOf (state.snapshot t.ord).entries).card ≤ 2 ^ 32

/-- The file can be written and loaded, to what the agent has in memory. -/
structure Sound (file : Snapshot) (state : ActiveState) : Prop where
  stores : state.Stores (DenyEntry.Kept state.shardCount) (RuleEntry.Kept state.shardCount)
  shardCount : state.shardCount < 2 ^ 16
  watermarks : ∀ w ∈ state.watermarks, w < 2 ^ 64
  fits : file.Fits
  loadable : file.Loadable
  reloads : ∀ a, ActiveState.fromSnapshot file = .ok a →
    a.watermarks = state.watermarks ∧ ∀ key, a.entryAt key = state.entryAt key

theorem Sound.of_load {file : Snapshot} {state : ActiveState} (hfits : file.Fits)
    (h : ActiveState.fromSnapshot file = .ok state) : Sound file state := by
  have hload := ActiveState.fromSnapshot_isOk_iff.mp ⟨state, h⟩
  obtain ⟨-, -, -, hcount, hw, -⟩ := ActiveState.fromSnapshot_builds h
  refine ⟨.of_fromSnapshot h (fun e he => ?_) fun r hr hbucket => ?_, ?_, ?_, hfits, hload, ?_⟩
  · rw [hcount]
    exact ⟨hfits.entries e he, hload.entries e he⟩
  · rw [hcount]
    exact ⟨hfits.rules r hr, (hload.rules r hr).1, hbucket⟩
  · rw [hcount]
    exact hfits.shardCount
  · rw [hw]
    exact hfits.watermarks
  · intro a ha
    rw [h] at ha
    cases ha
    exact ⟨rfl, fun _ => rfl⟩

variable {relay : Relay} {ord : IterOrder}

/-- A state that is written. -/
theorem Sound.of_snapshot (hg : relay.Genuine) {state : ActiveState}
    (hstores : state.Stores (DenyEntry.Kept state.shardCount) (RuleEntry.Kept state.shardCount))
    (hcount : state.shardCount < 2 ^ 16) (hw : ∀ w ∈ state.watermarks, w < 2 ^ 64)
    (hwrite : relay.writeFile (state.snapshot ord) = .ok ())
    (htexts : (ImmutableBase.textsOf (state.snapshot ord).entries).card ≤ 2 ^ 32) :
    Sound (state.snapshot ord) state := by
  obtain ⟨hentries, hrules⟩ := hstores.snapshot ord
  obtain ⟨hvec, hvec'⟩ := hg.inMemory _ hwrite
  refine ⟨hstores, hcount, hw, ?_, ?_, fun a ha => ActiveState.fromSnapshot_snapshot ha⟩
  · exact ⟨hcount, hw, fun e he => (hentries e he).1, hvec, fun r hr => (hrules r hr).1, hvec'⟩
  · exact (hstores.mono (fun _ he => he.2) fun _ hr => hr.2).loadable htexts

/-- The records that the relay serves keep the file loadable. -/
theorem keeps_sound {t : Turn} {app₀ : App} (hg : t.relay.Genuine)
    (hw : t.Wholesome app₀) :
    Keeps t app₀.state (fun file state => Sound file state ∧ app₀.state.Extends state) Sound where
  extending h := h.2
  rests h := h.1
  applied := by
    intro file state mutations applied next state' hhands h happly hcompact hwrite
    obtain ⟨hsound, hcount, hle⟩ := h
    obtain ⟨bytes, hdecode⟩ := hg.mutations _ hhands.serves
    have hfits := decodeMutationStream_fits hdecode
    -- the mutations that are applied are new to the agent
    have hnext : next.Stores (DenyEntry.Kept app₀.state.shardCount)
        (RuleEntry.Kept app₀.state.shardCount) ∧ next.shardCount = app₀.state.shardCount ∧
        (∀ w ∈ next.watermarks, w < 2 ^ 64) ∧ AtLeast app₀.state.watermarks next.watermarks := by
      refine ⟨?_, ?_, ?_, hle.trans (ActiveState.atLeast_applyMutations happly)⟩
      · refine ActiveState.applyMutations_induct happly (hcount ▸ hsound.stores) ?_
        intro b hb hstores m hm hseq
        refine hstores.advance (Mutation.Loadable.kept (hw.mutations _ hhands m hm ?_) (hfits m hm))
        exact ((hle.trans hb) m.shard).trans_lt hseq
      · refine ActiveState.applyMutations_induct
          (P := fun b => b.shardCount = app₀.state.shardCount) happly hcount fun b _ hb m _ _ => ?_
        rw [ActiveState.advance_shardCount, hb]
      · refine ActiveState.applyMutations_induct (P := fun b => ∀ w ∈ b.watermarks, w < 2 ^ 64)
          happly hsound.watermarks fun b _ hb m hm _ => ?_
        rw [ActiveState.advance_watermarks]
        intro w hmem
        rcases List.mem_or_eq_of_mem_set hmem with hmem | rfl
        · exact hb w hmem
        · exact (hfits m hm).seq
    obtain ⟨hstores, hcount', hmarks, hle'⟩ := hnext
    have hsame := ActiveState.compactIfLarge_watermarks hcompact
    have hcount'' : state'.shardCount = app₀.state.shardCount := by
      rw [← hcount', ← state'.watermarks_length, ← next.watermarks_length, hsame]
    have hstores' := hstores.compactIfLarge hcompact
    rw [← hcount''] at hstores'
    have hext : app₀.state.Extends state' := ⟨hcount'', by rw [hsame]; exact hle'⟩
    refine ⟨Sound.of_snapshot hg hstores' ?_ (hsame ▸ hmarks) hwrite (hw.texts _ hext hwrite), hext⟩
    rw [hcount'', ← hcount]
    exact hsound.shardCount
  fetched := by
    intro file state snapshot _ hfetch hwrite
    obtain ⟨bytes, hdecode⟩ := hg.snapshot _ (Relay.fetchSnapshot_serves hfetch)
    obtain ⟨state', hstate⟩ := ActiveState.fromSnapshot_isOk_iff.mpr (hw.snapshot _ hfetch hwrite)
    exact ⟨state', hstate, Sound.of_load (decodeSnapshot_fits hdecode).1 hstate⟩

/-! ## Runs -/

/-- The operation is one in which the agent can load what it stores. -/
def Good (t : Turn) (app : App) : Prop := t.relay.Genuine ∧ t.Wholesome app

/-- After an operation the file loads again, whether the operation succeeded or not. -/
theorem Turn.sound {t : Turn} {app : App} (hgood : Good t app)
    (h : Sound app.snapshotFile app.state) :
    Sound (t.run app).final.snapshotFile (t.run app).final.state :=
  (Turn.keeps (keeps_sound hgood.1 hgood.2)).final ⟨h, .refl _⟩

/-- What an operation leaves in the file: the snapshot that it wrote last, or what was there. -/
def Leaves (app app' : App) (payload payload' : List UInt8) : Prop :=
  payload' = encodeSnapshot app'.snapshotFile ∨
    app'.snapshotFile = app.snapshotFile ∧ payload' = payload

/-- An agent and the bytes of its file after some operations. -/
inductive After (good : Turn → App → Prop) (app₀ : App) (payload₀ : List UInt8) :
    App → List UInt8 → Prop
  | start : After good app₀ payload₀ app₀ payload₀
  | turn {app : App} {payload payload' : List UInt8} (t : Turn) :
      After good app₀ payload₀ app payload → good t app →
      Leaves app (t.run app).final payload payload' →
      After good app₀ payload₀ (t.run app).final payload'

/-- The bytes are those of the file, and the file loads. -/
structure Stored (app : App) (payload : List UInt8) : Prop where
  sound : Sound app.snapshotFile app.state
  decodes : Globacl.decodeSnapshot payload = .ok app.snapshotFile

theorem After.stored {app₀ app : App} {payload₀ payload : List UInt8} (h₀ : Stored app₀ payload₀)
    (h : After Good app₀ payload₀ app payload) : Stored app payload := by
  induction h with
  | start => exact h₀
  | turn t _ hgood hleaves ih =>
    have hsound := Turn.sound hgood ih.sound
    rcases hleaves with rfl | ⟨hfile, rfl⟩
    · exact ⟨hsound, decodeSnapshot_encode hsound.fits hsound.loadable.watermarks⟩
    · exact ⟨hsound, by rw [hfile]; exact ih.decodes⟩

/-- The snapshot file of an agent and the signature beside it. -/
structure Files where
  payload : Option (List UInt8)
  signature : Option (List UInt8)

/-- `verify_local_snapshot`. -/
def Files.verifyLocalSnapshot (verify : List UInt8 → List UInt8 → Result Unit) (files : Files)
    (payload : List UInt8) : Result Unit :=
  match files.signature with
  | none => .ok ()
  | some signature => verify payload signature

/-- The branch of `load_or_fetch_snapshot` for a file: it is verified and read. -/
def Files.readSnapshotFile (verify : List UInt8 → List UInt8 → Result Unit) (files : Files) :
    Option (Result Snapshot) :=
  files.payload.map fun payload => do
    files.verifyLocalSnapshot verify payload
    Globacl.decodeSnapshot payload

/-- The files after `load_or_fetch_snapshot`: if there was none, the snapshot that was fetched. -/
def Files.afterLoad (relay : Relay) (files : Files) : Files :=
  match files.payload, relay.fetchSnapshot with
  | none, .ok snapshot =>
    match relay.writeFile snapshot with
    | .ok () => { files with payload := some (encodeSnapshot snapshot) }
    | .error _ => files
  | _, _ => files

/-- `decode_snapshot` and `ActiveState::from_snapshot` accept the file. -/
def Accepted (payload : List UInt8) : Prop :=
  ∃ snapshot a, Globacl.decodeSnapshot payload = .ok snapshot ∧
    ActiveState.fromSnapshot snapshot = .ok a

theorem Stored.accepted {app : App} {payload : List UInt8} (h : Stored app payload) :
    Accepted payload := by
  obtain ⟨a, ha⟩ := ActiveState.fromSnapshot_isOk_iff.mpr h.sound.loadable
  exact ⟨_, a, h.decodes, ha⟩

/-- A snapshot that was decoded and is written is accepted exactly if it can be loaded. -/
theorem accepted_encode_iff {s : Snapshot} {bytes : List UInt8}
    (h : Globacl.decodeSnapshot bytes = .ok s) : Accepted (encodeSnapshot s) ↔ s.Loadable := by
  obtain ⟨hfits, hlen⟩ := decodeSnapshot_fits h
  rw [← ActiveState.fromSnapshot_isOk_iff]
  unfold Accepted
  simp [decodeSnapshot_encode hfits hlen]

variable {verify : List UInt8 → List UInt8 → Result Unit} {agentId : String} {files : Files}

theorem Files.afterLoad_of_some {bytes : List UInt8} (h : files.payload = some bytes) :
    files.afterLoad relay = files := by
  unfold afterLoad
  rw [h]

/-- An agent that starts from a file has what the file says. -/
theorem stored_file {app : App} {payload : List UInt8}
    (h : buildApp relay agentId (files.readSnapshotFile verify) = .ok app)
    (hfile : files.payload = some payload) :
    Stored app payload ∧ files.verifyLocalSnapshot verify payload = .ok () := by
  simp only [buildApp, Files.readSnapshotFile, hfile, Option.map_some, loadOrFetchSnapshot,
    bind_eq_ok] at h
  obtain ⟨snapshot, ⟨_, hverify, hdecode⟩, state, hstate, h⟩ := h
  cases h
  exact ⟨⟨Sound.of_load (decodeSnapshot_fits hdecode).1 hstate, hdecode⟩, hverify⟩

/-- An agent that starts has what its file says. -/
theorem stored_buildApp {app : App} {payload : List UInt8} (hg : relay.Genuine)
    (h : buildApp relay agentId (files.readSnapshotFile verify) = .ok app)
    (hfile : (files.afterLoad relay).payload = some payload) : Stored app payload := by
  cases hpayload : files.payload with
  | some bytes =>
    rw [Files.afterLoad_of_some hpayload] at hfile
    exact (stored_file h hfile).1
  | none =>
    simp only [buildApp, Files.readSnapshotFile, hpayload, Option.map_none, loadOrFetchSnapshot,
      bind_eq_ok] at h
    obtain ⟨snapshot, ⟨_, hfetch, ⟨⟩, hwrite, hload⟩, state, hstate, h⟩ := h
    cases hload
    cases h
    simp only [Files.afterLoad, hpayload, hfetch, hwrite, Option.some.injEq] at hfile
    subst hfile
    obtain ⟨bytes, hdecode⟩ := hg.snapshot _ (Relay.fetchSnapshot_serves hfetch)
    obtain ⟨hfits, hlen⟩ := decodeSnapshot_fits hdecode
    exact ⟨Sound.of_load hfits hstate, decodeSnapshot_encode hfits hlen⟩

/-- A start leaves no file, the one that was there, or one that is accepted, exactly if a snapshot
that it fetches and writes can be loaded. While the agent runs on records that can be loaded, each
operation leaves a file that is accepted. -/
theorem persists_loadable (hg : relay.Genuine) :
    ((∀ bytes, (files.afterLoad relay).payload = some bytes →
        files.payload = some bytes ∨ Accepted bytes) ↔
      (files.payload = none → ∀ snapshot, relay.fetchSnapshot = .ok snapshot →
        relay.writeFile snapshot = .ok () → snapshot.Loadable)) ∧
    ∀ app₀ payload₀ app payload,
      buildApp relay agentId (files.readSnapshotFile verify) = .ok app₀ →
      (files.afterLoad relay).payload = some payload₀ → After Good app₀ payload₀ app payload →
      Accepted payload := by
  refine ⟨?_, fun app₀ payload₀ app payload hstart hfile hafter => ?_⟩
  · cases hpayload : files.payload with
    | some bytes =>
      rw [Files.afterLoad_of_some hpayload, hpayload]
      exact iff_of_true (fun _ h => Or.inl h) fun h => (by cases h)
    | none =>
      constructor
      · intro h _ snapshot hfetch hwrite
        obtain ⟨bytes, hdecode⟩ := hg.snapshot _ (Relay.fetchSnapshot_serves hfetch)
        have hfile : (files.afterLoad relay).payload = some (encodeSnapshot snapshot) := by
          simp only [Files.afterLoad, hpayload, hfetch, hwrite]
        exact (accepted_encode_iff hdecode).mp ((h _ hfile).resolve_left (by simp))
      · intro h bytes hfile
        simp only [Files.afterLoad, hpayload] at hfile
        split at hfile
        · rename_i snapshot _ hfetch
          split at hfile
          · rename_i hwrite
            cases hfile
            obtain ⟨bytes, hdecode⟩ := hg.snapshot _ (Relay.fetchSnapshot_serves hfetch)
            exact Or.inr ((accepted_encode_iff hdecode).mpr (h rfl snapshot hfetch hwrite))
          · rw [hpayload] at hfile
            cases hfile
        · rw [hpayload] at hfile
          cases hfile
  · exact (hafter.stored (stored_buildApp hg hstart hfile)).accepted

/-! ## Restarts -/

/-- A signature verifies for one payload only. -/
def ExactVerifier (verify : List UInt8 → List UInt8 → Result Unit) : Prop :=
  ∀ payload payload' signature, verify payload signature = .ok () →
    verify payload' signature = .ok () → payload = payload'

/-- A start from the files, with any relay or none, goes through and has the watermarks and the
lookups of the agent. -/
def Resumes (verify : List UInt8 → List UInt8 → Result Unit) (files : Files) (app : App) : Prop :=
  ∀ relay, ∃ snapshot a, loadOrFetchSnapshot relay (files.readSnapshotFile verify) = .ok snapshot ∧
    ActiveState.fromSnapshot snapshot = .ok a ∧ a.watermarks = app.state.watermarks ∧
    ∀ tenantId namespace' rawKey nowUnix,
      a.lookup tenantId namespace' rawKey nowUnix = app.state.lookup tenantId namespace' rawKey nowUnix

/-- A restart goes through only if the signature verifies. -/
theorem Resumes.verifies {app : App} {payload : List UInt8} (h : Resumes verify files app)
    (hfile : files.payload = some payload) : files.verifyLocalSnapshot verify payload = .ok () := by
  obtain ⟨snapshot, -, hload, -⟩ := h idleRelay
  simp only [Files.readSnapshotFile, hfile, Option.map_some, loadOrFetchSnapshot, bind_eq_ok] at hload
  obtain ⟨_, hverify, -⟩ := hload
  exact hverify

/-- From a file that loads, a restart resumes if the signature verifies. -/
theorem Stored.resumes {app : App} {payload : List UInt8} (h : Stored app payload)
    (hfile : files.payload = some payload)
    (hverify : files.verifyLocalSnapshot verify payload = .ok ()) : Resumes verify files app := by
  intro relay
  obtain ⟨a, ha⟩ := ActiveState.fromSnapshot_isOk_iff.mpr h.sound.loadable
  obtain ⟨hw, hentries⟩ := h.sound.reloads a ha
  refine ⟨app.snapshotFile, a, ?_, ha, hw, fun tenantId namespace' rawKey nowUnix => ?_⟩
  · simp only [Files.readSnapshotFile, hfile, Option.map_some, loadOrFetchSnapshot, bind_eq_ok]
    exact ⟨(), hverify, h.decodes⟩
  · rw [ActiveState.lookup_eq, ActiveState.lookup_eq, hentries]

/-- While an agent runs on records that can be loaded, a restart resumes where it is exactly if no
signature is beside the file, or the file still has the bytes that the agent started from. -/
theorem restart_resumes_iff {app₀ app : App} {payload₀ payload : List UInt8}
    (hexact : ExactVerifier verify)
    (hstart : buildApp relay agentId (files.readSnapshotFile verify) = .ok app₀)
    (hfile : files.payload = some payload₀) (hafter : After Good app₀ payload₀ app payload) :
    Resumes verify { files with payload := some payload } app ↔
      files.signature = none ∨ payload = payload₀ := by
  obtain ⟨hstored, hverify⟩ := stored_file hstart hfile
  have hend := hafter.stored hstored
  constructor
  · intro h
    have hverify' := h.verifies rfl
    unfold Files.verifyLocalSnapshot at hverify hverify'
    cases hsignature : files.signature with
    | none => exact Or.inl rfl
    | some signature =>
      rw [hsignature] at hverify hverify'
      exact Or.inr (hexact _ _ _ hverify' hverify)
  · intro h
    refine hend.resumes rfl ?_
    rcases h with hnone | rfl
    · unfold Files.verifyLocalSnapshot
      rw [hnone]
    · exact hverify

/-! An agent of one shard without mutations, and relays for it. -/

/-- A disk for snapshots of at most 1000 records. -/
def smallDisk (snapshot : Snapshot) : Result Unit :=
  if snapshot.entries.length + snapshot.rules.length ≤ 1000 then .ok ()
  else .error (.io "no space left on device")

/-- A relay with a stream of these mutations and this snapshot. -/
def fileRelay (seqs : List Nat) (snapshot : Snapshot) : Relay :=
  { idleRelay with
    watermarks := .error (.io "timed out")
    mutations := fun _ _ => ⟨.ok ⟨200, .ok (seqs.map shardMutation)⟩, .ok ⟨200, some (.ok ())⟩⟩
    snapshot := ⟨.ok ⟨200, .ok snapshot⟩, .ok ⟨200, some (.ok ())⟩⟩
    writeFile := smallDisk }

/-- A snapshot of one shard. -/
def emptyShard : Snapshot := ⟨1, [0], [], []⟩

/-- A snapshot of one shard with an entry that names another one. -/
def strayShard : Snapshot :=
  ⟨1, [1], [⟨"tenant", "user", 7, .deny, 1, "fraud", 0, "ops", 1, 1⟩], []⟩

theorem genuine_fileRelay {seqs : List Nat} {snapshot : Snapshot}
    (hseqs : decodeMutationStream (encodeMutationStream (seqs.map shardMutation)) =
      .ok (seqs.map shardMutation))
    (hsnapshot : Globacl.decodeSnapshot (encodeSnapshot snapshot) = .ok snapshot) :
    (fileRelay seqs snapshot).Genuine := by
  refine ⟨fun mutations h => ?_, fun s h => ?_, fun s h => ?_⟩
  · rcases h with ⟨_, _, response, hresponse, hbody⟩ | ⟨_, _, _, response, hresponse, hbody⟩
    · cases hresponse
      cases hbody
      exact ⟨_, hseqs⟩
    · cases hresponse
      cases hbody
      exact ⟨encodeMutationStream [], by decide +kernel⟩
  · rcases h with ⟨response, hresponse, hbody⟩ | ⟨_, response, hresponse, hbody⟩
    · cases hresponse
      obtain ⟨s', hs', hbody⟩ := bind_eq_ok.mp hbody
      cases hs'
      split at hbody
      · cases hbody
      · cases hbody
        exact ⟨_, hsnapshot⟩
    · cases hresponse
      cases hbody
  · have h : smallDisk s = .ok () := h
    unfold smallDisk at h
    split at h
    · simp only [sizeOfDenyEntry, sizeOfRuleEntry, isizeMax]
      omega
    · cases h

theorem wholesome_fileRelay {ord : IterOrder} {seqs : List Nat} {snapshot : Snapshot} {op : Op}
    {app : App} (hcount : 0 < app.state.shardCount) (hload : snapshot.Loadable) :
    Turn.Wholesome ⟨ord, fileRelay seqs snapshot, op⟩ app := by
  refine ⟨fun mutations h m hm _ => ?_, fun s hfetch _ => ?_, fun state _ h => ?_⟩
  · have hmem : m ∈ seqs.map shardMutation := by
      rcases h.serves with ⟨_, _, response, hresponse, hbody⟩ |
        ⟨_, _, _, response, hresponse, hbody⟩
      · cases hresponse
        cases hbody
        exact hm
      · cases hresponse
        cases hbody
        cases hm
    obtain ⟨seq, -, rfl⟩ := List.mem_map.mp hmem
    exact fun _ => hcount
  · rcases Relay.fetchSnapshot_serves hfetch with ⟨response, hresponse, hbody⟩ |
      ⟨_, response, hresponse, hbody⟩
    · cases hresponse
      obtain ⟨s', hs', hbody⟩ := bind_eq_ok.mp hbody
      cases hs'
      split at hbody
      · cases hbody
      · cases hbody
        exact hload
    · cases hresponse
      cases hbody
  · dsimp only at h ⊢
    generalize state.snapshot ord = s at h ⊢
    replace h : smallDisk s = .ok () := h
    unfold smallDisk at h
    split at h
    · calc (ImmutableBase.textsOf s.entries).card
          ≤ (s.entries.flatMap DenyEntry.internedTexts).toFinset.card :=
            Finset.card_le_card (ImmutableBase.textsOf_subset _)
        _ ≤ (s.entries.flatMap DenyEntry.internedTexts).length := List.toFinset_card_le _
        _ = s.entries.length * 4 := by simp [List.length_flatMap, DenyEntry.internedTexts]
        _ ≤ 2 ^ 32 := by omega
    · cases h

theorem loadable_emptyShard : emptyShard.Loadable :=
  ⟨rfl, fun _ h => (by cases h), fun _ h => (by cases h), by decide +kernel⟩

/-- An agent that fetches its first snapshot and polls once. -/
theorem persists_loadable_polled :
    ∃ app₀, buildApp (fileRelay [1] emptyShard) "agent"
        (Files.readSnapshotFile (fun _ _ => .ok ()) ⟨none, none⟩) = .ok app₀ ∧
      Accepted (encodeSnapshot
        ((⟨.given, fileRelay [1] emptyShard, .pollOnce⟩ : Turn).run app₀).final.snapshotFile) := by
  have hg : (fileRelay [1] emptyShard).Genuine :=
    genuine_fileRelay (by decide +kernel) (by decide +kernel)
  have hrun : (buildApp (fileRelay [1] emptyShard) "agent"
      (Files.readSnapshotFile (fun _ _ => .ok ()) ⟨none, none⟩)).map
        (fun app => app.state.shardCount) = .ok 1 := by
    decide +kernel
  cases happ : buildApp (fileRelay [1] emptyShard) "agent"
      (Files.readSnapshotFile (fun _ _ => .ok ()) ⟨none, none⟩) with
  | error err =>
    rw [happ] at hrun
    cases hrun
  | ok app₀ =>
    rw [happ] at hrun
    have hcount : app₀.state.shardCount = 1 := Except.ok.inj hrun
    have hgood : Good ⟨.given, fileRelay [1] emptyShard, .pollOnce⟩ app₀ :=
      ⟨hg, wholesome_fileRelay (by omega) loadable_emptyShard⟩
    exact ⟨app₀, rfl, (persists_loadable hg).2 app₀ (encodeSnapshot emptyShard) _ _ happ rfl
      (.turn _ .start hgood (Or.inl rfl))⟩

/-- A snapshot with an entry of a shard that does not exist is written before it is refused. -/
theorem not_persists_loadable :
    ¬∀ (verify : List UInt8 → List UInt8 → Result Unit) (relay : Relay) (agentId : String)
      (files : Files) (app₀ app : App) (payload₀ payload : List UInt8), relay.Genuine →
      buildApp relay agentId (files.readSnapshotFile verify) = .ok app₀ →
      (files.afterLoad relay).payload = some payload₀ →
      After (fun t _ => t.relay.Genuine) app₀ payload₀ app payload →
      payload = payload₀ ∨ Accepted payload := by
  intro h
  have hg : (fileRelay [] strayShard).Genuine :=
    genuine_fileRelay (by decide +kernel) (by decide +kernel)
  have hrun : (buildApp (fileRelay [] strayShard) "agent" (Files.readSnapshotFile
      (fun _ _ => .ok ()) ⟨some (encodeSnapshot emptyShard), none⟩)).map (fun app =>
        encodeSnapshot
          ((⟨.given, fileRelay [] strayShard, .repairFromSnapshot⟩ : Turn).run app).final.snapshotFile) =
      .ok (encodeSnapshot strayShard) := by
    decide +kernel
  cases happ : buildApp (fileRelay [] strayShard) "agent" (Files.readSnapshotFile
      (fun _ _ => .ok ()) ⟨some (encodeSnapshot emptyShard), none⟩) with
  | error err =>
    rw [happ] at hrun
    cases hrun
  | ok app₀ =>
    rw [happ] at hrun
    have hfile := Except.ok.inj hrun
    rcases h _ _ _ ⟨some (encodeSnapshot emptyShard), none⟩ app₀ _ _ (encodeSnapshot strayShard) hg
      happ rfl (.turn ⟨.given, fileRelay [] strayShard, .repairFromSnapshot⟩ .start hg
        (Or.inl hfile.symm)) with heq | haccepted
    · exact absurd heq (by decide +kernel)
    · have hload := (accepted_encode_iff (show Globacl.decodeSnapshot (encodeSnapshot strayShard) =
        .ok strayShard by decide +kernel)).mp haccepted
      exact absurd (hload.entries _ List.mem_cons_self) (by decide)

/-- A verifier for which the payload is its own signature. -/
def payloadVerifier (payload signature : List UInt8) : Result Unit :=
  if payload = signature then .ok () else .error (.invalidData "signature does not verify")

theorem exactVerifier_payload : ExactVerifier payloadVerifier := by
  intro payload payload' signature h h'
  unfold payloadVerifier at h h'
  split at h
  · split at h'
    · rename_i heq heq'
      exact heq.trans heq'.symm
    · cases h'
  · cases h

/-- An agent that polls once. -/
def pollTurn : Turn := ⟨.given, fileRelay [1] emptyShard, .pollOnce⟩

theorem genuine_pollTurn : pollTurn.relay.Genuine :=
  genuine_fileRelay (by decide +kernel) (by decide +kernel)

/-- What the poll of an agent that starts from the empty shard does, with any signature for it. -/
theorem run_pollTurn (signature : Option (List UInt8))
    (hsignature : ∀ bytes ∈ signature, bytes = encodeSnapshot emptyShard) :
    ∃ app₀, buildApp idleRelay "agent"
        (Files.readSnapshotFile payloadVerifier ⟨some (encodeSnapshot emptyShard), signature⟩) =
        .ok app₀ ∧
      app₀.state.shardCount = 1 ∧ (pollTurn.run app₀).result = .ok () ∧
      encodeSnapshot (pollTurn.run app₀).final.snapshotFile ≠ encodeSnapshot emptyShard := by
  have hread : Files.readSnapshotFile payloadVerifier
      ⟨some (encodeSnapshot emptyShard), signature⟩ =
      some (Globacl.decodeSnapshot (encodeSnapshot emptyShard)) := by
    unfold Files.readSnapshotFile Files.verifyLocalSnapshot
    cases signature with
    | none => rfl
    | some bytes =>
      obtain rfl := hsignature bytes rfl
      simp [payloadVerifier, bind, Except.bind]
  have hrun : (buildApp idleRelay "agent"
      (some (Globacl.decodeSnapshot (encodeSnapshot emptyShard)))).map (fun app =>
        (app.state.shardCount, (pollTurn.run app).result.isOk,
          decide (encodeSnapshot (pollTurn.run app).final.snapshotFile = encodeSnapshot emptyShard))) =
      .ok (1, true, false) := by
    decide +kernel
  rw [hread]
  cases happ : buildApp idleRelay "agent"
      (some (Globacl.decodeSnapshot (encodeSnapshot emptyShard))) with
  | error err =>
    rw [happ] at hrun
    cases hrun
  | ok app₀ =>
    rw [happ] at hrun
    obtain ⟨hcount, hrest⟩ := Prod.mk.inj (Except.ok.inj hrun)
    obtain ⟨hok, hne⟩ := Prod.mk.inj hrest
    refine ⟨app₀, rfl, hcount, ?_, of_decide_eq_false hne⟩
    cases hresult : (pollTurn.run app₀).result with
    | ok _ => rfl
    | error err =>
      rw [hresult] at hok
      cases hok

/-- Without a signature the restart resumes. -/
theorem restart_resumes_iff_polled :
    ∃ app₀, Resumes payloadVerifier
      ⟨some (encodeSnapshot (pollTurn.run app₀).final.snapshotFile), none⟩
      (pollTurn.run app₀).final := by
  obtain ⟨app₀, hstart, hcount, -⟩ := run_pollTurn none fun _ h => (by cases h)
  have hgood : Good pollTurn app₀ :=
    ⟨genuine_pollTurn, wholesome_fileRelay (by omega) loadable_emptyShard⟩
  exact ⟨app₀, (restart_resumes_iff exactVerifier_payload hstart rfl
    (.turn pollTurn .start hgood (Or.inl rfl))).mpr (Or.inl rfl)⟩

/-- A poll that succeeds leaves a file for which the signature does not verify. -/
theorem not_restart_resumes :
    ¬∀ (verify : List UInt8 → List UInt8 → Result Unit) (relay : Relay) (agentId : String)
      (files : Files) (app₀ app : App) (payload₀ payload : List UInt8), ExactVerifier verify →
      buildApp relay agentId (files.readSnapshotFile verify) = .ok app₀ →
      files.payload = some payload₀ →
      After (fun t app => t.relay.Genuine ∧ (t.run app).result = .ok ()) app₀ payload₀ app payload →
      Resumes verify { files with payload := some payload } app := by
  intro h
  obtain ⟨app₀, hstart, -, hok, hne⟩ := run_pollTurn (some (encodeSnapshot emptyShard)) (by simp)
  have hresumes := h payloadVerifier idleRelay "agent" _ app₀ _ _ _ exactVerifier_payload hstart rfl
    (.turn pollTurn .start ⟨genuine_pollTurn, hok⟩ (Or.inl rfl))
  have hverify := hresumes.verifies rfl
  simp only [Files.verifyLocalSnapshot, payloadVerifier] at hverify
  rw [if_neg hne] at hverify
  cases hverify

end Agent

end Globacl
