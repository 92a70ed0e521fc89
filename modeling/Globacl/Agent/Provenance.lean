import Globacl.Agent.Forward
import Globacl.Agent.Turns
import Globacl.Commitd.Publication
import Globacl.Core.Truncated

/-!
# Where the state of an agent comes from (`globacl-agent/src/app/snapshot.rs`, `poll.rs`)

A relay is any table of answers: an operation requests no path twice. The agent asks for the
signature of each payload with a second request. It insists on the signature of a manifest and of an
artifact, and does without one for a stream, a bundle and the legacy snapshot.

* `Wire.relay`: what an agent reads from the bytes of a relay.
* `Authentic`: a state is replaced with what verified bytes spell out.
* `Wire.Signs`: a relay withholds no signature of what an operation asks for.
* `authentic_run`: in a run against such relays, all states are authentic.
-/

namespace Globacl

open Lib Prog

/-- The answers of a relay to the `GET` requests of an operation. -/
structure Wire where
  get : String → Result (HttpResponse (List UInt8))

/-- The paths of a stream and of a bundle in `poll_once` and `repair_gap`, and of their signatures.
-/
def mutationsPath (shardId fromSeq : Nat) : String :=
  s!"/v1/mutations?shard={shardId}&from_seq={fromSeq}"

def mutationsSignaturePath (shardId fromSeq : Nat) : String :=
  s!"/v1/mutations.sig?shard={shardId}&from_seq={fromSeq}"

def deltaBundlePath (shardId fromSeq toSeq : Nat) : String :=
  s!"/v1/delta_bundle?shard={shardId}&from_seq={fromSeq}&to_seq={toSeq}"

def deltaBundleSignaturePath (shardId fromSeq toSeq : Nat) : String :=
  s!"/v1/delta_bundle.sig?shard={shardId}&from_seq={fromSeq}&to_seq={toSeq}"

namespace Wire

variable (ed : Ed25519) (serde : SerdeJson) (sha : Sha256) (verifier : SignatureVerifier)

/-- A payload and the reply to the request for its signature, as an agent looks at them. -/
def signed {α : Type} (w : Wire) (read : List UInt8 → α) (path signaturePath : String) :
    Signed α where
  response := do
    let response ← w.get path
    pure ⟨response.statusCode, read response.body⟩
  signature := do
    let payload ← w.get path
    let response ← w.get signaturePath
    pure ⟨response.statusCode, if response.body = [] then none
      else some (verifyPayloadSignatureWithVerifier ed serde verifier payload.body response.body)⟩

/-- What an agent reads from the answers. What it installs nothing of is taken from `base`. -/
def relay (w : Wire) (base : Relay) : Relay where
  __ := base
  mutations shardId fromSeq :=
    w.signed ed serde verifier decodeMutationStream (mutationsPath shardId fromSeq)
      (mutationsSignaturePath shardId fromSeq)
  deltaBundle shardId fromSeq toSeq :=
    w.signed ed serde verifier decodeMutationStream (deltaBundlePath shardId fromSeq toSeq)
      (deltaBundleSignaturePath shardId fromSeq toSeq)
  snapshotManifest :=
    w.signed ed serde verifier
      (fun body => (readSnapshotManifest serde body).map fun m => m.toSnapshotManifest)
      "/v1/snapshot_manifest" "/v1/snapshot_manifest.sig"
  snapshotArtifact object :=
    w.signed ed serde verifier (.ofBytes sha) s!"/v1/snapshot_artifact?object={object}"
      s!"/v1/snapshot_artifact.sig?object={object}"
  snapshot := w.signed ed serde verifier decodeSnapshot "/v1/snapshot" "/v1/snapshot.sig"

/-- The relay answered with these bytes, and with a signature that the verifier accepts for them. -/
def Verified (w : Wire) (bytes : List UInt8) : Prop :=
  ∃ path signaturePath signatureBody, w.get path = .ok ⟨200, bytes⟩ ∧
    w.get signaturePath = .ok ⟨200, signatureBody⟩ ∧
    verifyPayloadSignatureWithVerifier ed serde verifier bytes signatureBody = .ok ()

/-- The relay answers with these bytes, and to the request for their signature without one. -/
def Withholds (w : Wire) (path signaturePath : String) (bytes : List UInt8) : Prop :=
  w.get path = .ok ⟨200, bytes⟩ ∧
    ∃ response, w.get signaturePath = .ok response ∧
      (response.statusCode ≠ 200 ∨ response.body = [])

/-- The relay withholds no signature of a legacy snapshot that it makes the agent fall back to. -/
def SignsSnapshot (w : Wire) : Prop :=
  ∀ base err bytes snapshot,
    (w.relay ed serde sha verifier base).fetchSnapshotFromManifest = .error err →
    decodeSnapshot bytes = .ok snapshot → ¬w.Withholds "/v1/snapshot" "/v1/snapshot.sig" bytes

/-- The relay withholds no signature of the mutations that an operation on the state `start` asks for,
and none of such a snapshot. -/
structure Signs (w : Wire) (op : Agent.Op) (start : ActiveState) : Prop where
  mutations : ∀ shardId fromSeq bytes mutations, op.AsksStream start shardId fromSeq →
    decodeMutationStream bytes = .ok mutations → mutations ≠ [] →
    ¬w.Withholds (mutationsPath shardId fromSeq) (mutationsSignaturePath shardId fromSeq) bytes
  deltaBundle : ∀ shardId fromSeq toSeq bytes mutations, op.AsksBundle start shardId fromSeq toSeq →
    decodeMutationStream bytes = .ok mutations → mutations ≠ [] →
    ¬w.Withholds (deltaBundlePath shardId fromSeq toSeq)
      (deltaBundleSignaturePath shardId fromSeq toSeq) bytes
  snapshot : w.SignsSnapshot ed serde sha verifier

section Read

variable {ed : Ed25519} {serde : SerdeJson} {sha : Sha256} {verifier : SignatureVerifier} {w : Wire}
  {α : Type} {read : List UInt8 → α} {path signaturePath : String} {body : α}

theorem signed_response (h : (w.signed ed serde verifier read path signaturePath).response =
    .ok ⟨200, body⟩) : ∃ bytes, w.get path = .ok ⟨200, bytes⟩ ∧ read bytes = body := by
  obtain ⟨⟨statusCode, bytes⟩, hget, h⟩ := bind_eq_ok.mp h
  cases h
  exact ⟨bytes, hget, rfl⟩

theorem signed_signature {bytes : List UInt8} {response : HttpResponse (Option (Result Unit))}
    (hget : w.get path = .ok ⟨200, bytes⟩)
    (h : (w.signed ed serde verifier read path signaturePath).signature = .ok response) :
    ∃ reply, w.get signaturePath = .ok reply ∧ response.statusCode = reply.statusCode ∧
      response.body = if reply.body = [] then none
        else some (verifyPayloadSignatureWithVerifier ed serde verifier bytes reply.body) := by
  obtain ⟨payload, hpayload, h⟩ := bind_eq_ok.mp h
  obtain ⟨reply, hreply, h⟩ := bind_eq_ok.mp h
  rw [hget] at hpayload
  cases hpayload
  cases h
  exact ⟨reply, hreply, rfl, rfl⟩

/-- A payload with a signature that is insisted on is verified. -/
theorem verified_of_required (hresponse :
      (w.signed ed serde verifier read path signaturePath).response = .ok ⟨200, body⟩)
    (hverified : (w.signed ed serde verifier read path signaturePath).Verified) :
    ∃ bytes, w.Verified ed serde verifier bytes ∧ read bytes = body := by
  obtain ⟨bytes, hget, hread⟩ := signed_response hresponse
  obtain ⟨reply, hreply, hstatus, hbody⟩ := signed_signature hget hverified
  refine ⟨bytes, ⟨path, signaturePath, reply.body, hget, ?_, ?_⟩, hread⟩
  · rw [hreply, show reply = ⟨reply.statusCode, reply.body⟩ from rfl, ← hstatus]
  · split at hbody
    · cases hbody
    · exact (Option.some.inj hbody).symm

/-- A payload that is taken is verified, or its signature is withheld. -/
theorem verified_or_withheld (h : (w.signed ed serde verifier read path signaturePath).Taken body) :
    ∃ bytes, read bytes = body ∧
      (w.Verified ed serde verifier bytes ∨ w.Withholds path signaturePath bytes) := by
  obtain ⟨hresponse, hverify⟩ := h
  obtain ⟨bytes, hget, hread⟩ := signed_response hresponse
  obtain ⟨response, hsignature, hcases⟩ := verifyRemotePayloadSignature_ok_iff.mp hverify
  obtain ⟨reply, hreply, hstatus, hbody⟩ := signed_signature hget hsignature
  refine ⟨bytes, hread, ?_⟩
  by_cases hwithheld : reply.statusCode ≠ 200 ∨ reply.body = []
  · exact Or.inr ⟨hget, reply, hreply, hwithheld⟩
  · obtain ⟨hok, hne⟩ := not_or.mp hwithheld
    rw [Decidable.not_not] at hok
    rw [if_neg hne] at hbody
    refine Or.inl ⟨path, signaturePath, reply.body, hget, by rw [hreply, ← hok], ?_⟩
    rw [hstatus, hok, hbody] at hcases
    simpa using hcases

end Read

end Wire

namespace Agent

/-- A state is replaced with what bytes with the property `V` spell out, or kept. -/
inductive Authentic (V : List UInt8 → Prop) (ord : IterOrder) : ActiveState → ActiveState → Prop
  | kept (state : ActiveState) : Authentic V ord state state
  | applied {state next state' : ActiveState} {bytes : List UInt8} {mutations : List Mutation}
      {applied : Nat} : V bytes → decodeMutationStream bytes = .ok mutations →
      state.applyMutations 0 mutations = .ok (applied, next) →
      next.compactIfLarge ord = .ok state' → Authentic V ord state state'
  | installed {state state' : ActiveState} {bytes : List UInt8} {snapshot : Snapshot} : V bytes →
      Globacl.decodeSnapshot bytes = .ok snapshot → ActiveState.fromSnapshot snapshot = .ok state' →
      Authentic V ord state state'

/-- The first state is that of the snapshot file, or that of bytes with the property `V`. -/
def Started (V : List UInt8 → Prop) (file : Option (Result Snapshot)) (state : ActiveState) :
    Prop :=
  (∃ snapshot, file = some (.ok snapshot) ∧ ActiveState.fromSnapshot snapshot = .ok state) ∨
    ∃ bytes snapshot, V bytes ∧ Globacl.decodeSnapshot bytes = .ok snapshot ∧
      ActiveState.fromSnapshot snapshot = .ok state

/-- An operation and the relay that answers during it. -/
structure Contact where
  wire : Wire
  base : Relay
  ord : IterOrder
  op : Op

section Contacts

variable (ed : Ed25519) (serde : SerdeJson) (sha : Sha256) (verifier : SignatureVerifier)

def Contact.turn (c : Contact) : Turn := ⟨c.ord, c.wire.relay ed serde sha verifier c.base, c.op⟩

/-- The state of an agent after the operation. -/
def afterContact (app : App) (c : Contact) : App := ((c.turn ed serde sha verifier).run app).final

/-- The relay withholds no signature of what the operation asks for. -/
def SignsContact (app : App) (c : Contact) : Prop :=
  c.wire.Signs ed serde sha verifier c.op app.state

/-- The states of an agent during the operations. -/
def contactStates : List Contact → App → List App
  | [], _ => []
  | c :: contacts, app =>
    ((c.turn ed serde sha verifier).run app).points ++
      contactStates contacts (afterContact ed serde sha verifier app c)

end Contacts

section Run

variable {ed : Ed25519} {serde : SerdeJson} {sha : Sha256} {verifier : SignatureVerifier} {w : Wire}
  {base : Relay} {op : Op} {start : ActiveState}

theorem decodeSnapshot_ok {body : Result Snapshot} {snapshot : Snapshot}
    (h : decodeSnapshot body = .ok snapshot) : body = .ok snapshot := by
  obtain ⟨s, hbody, h⟩ := bind_eq_ok.mp h
  split at h
  · cases h
  · cases h
    exact hbody

/-- Mutations that are taken from a relay that signs were verified. -/
theorem hands_verified {mutations : List Mutation} (hsigns : w.Signs ed serde sha verifier op start)
    (h : (w.relay ed serde sha verifier base).Hands op start mutations) :
    ∃ bytes, w.Verified ed serde verifier bytes ∧ decodeMutationStream bytes = .ok mutations := by
  obtain ⟨hne, ⟨shardId, fromSeq, hasks, htaken⟩ | ⟨shardId, fromSeq, toSeq, hasks, htaken⟩⟩ := h
  · obtain ⟨bytes, hdecode, hverified | hwithheld⟩ := Wire.verified_or_withheld htaken
    · exact ⟨bytes, hverified, hdecode⟩
    · exact absurd hwithheld (hsigns.mutations _ _ _ _ hasks hdecode hne)
  · obtain ⟨bytes, hdecode, hverified | hwithheld⟩ := Wire.verified_or_withheld htaken
    · exact ⟨bytes, hverified, hdecode⟩
    · exact absurd hwithheld (hsigns.deltaBundle _ _ _ _ _ hasks hdecode hne)

/-- A snapshot that is fetched from a relay that signs was verified. -/
theorem fetchSnapshot_verified {snapshot : Snapshot} (hsigns : w.SignsSnapshot ed serde sha verifier)
    (h : (w.relay ed serde sha verifier base).fetchSnapshot = .ok snapshot) :
    ∃ bytes, w.Verified ed serde verifier bytes ∧ Globacl.decodeSnapshot bytes = .ok snapshot := by
  rcases Relay.fetchSnapshot_cases h with ⟨object, artifact, hresponse, hverified, hdecode⟩ |
    ⟨⟨err, hmanifest⟩, body, htaken, hdecode⟩
  · obtain ⟨bytes, hverified, rfl⟩ := Wire.verified_of_required hresponse hverified
    exact ⟨bytes, hverified, decodeSnapshot_ok hdecode⟩
  · obtain ⟨bytes, hread, hverified | hwithheld⟩ := Wire.verified_or_withheld htaken
    all_goals rw [decodeSnapshot_ok hdecode] at hread
    · exact ⟨bytes, hverified, hread⟩
    · exact absurd hwithheld (hsigns _ _ _ _ hmanifest hread)

/-- A relay that signs replaces a state with what it signed. -/
theorem Replaces.authentic {c : Contact} {state state' : ActiveState}
    (hsigns : c.wire.Signs ed serde sha verifier c.op start)
    (h : Replaces (c.turn ed serde sha verifier) start state state') :
    Authentic (c.wire.Verified ed serde verifier) c.ord state state' := by
  cases h with
  | kept => exact .kept _
  | applied hhands happly hcompact =>
    obtain ⟨bytes, hverified, hdecode⟩ := hands_verified hsigns hhands
    exact .applied hverified hdecode happly hcompact
  | fetched hfetch hload =>
    obtain ⟨bytes, hverified, hdecode⟩ := fetchSnapshot_verified hsigns.snapshot hfetch
    exact .installed hverified hdecode hload

theorem started_buildApp {agentId : String} {file : Option (Result Snapshot)} {app : App}
    (hsigns : w.SignsSnapshot ed serde sha verifier)
    (h : buildApp (w.relay ed serde sha verifier base) agentId file = .ok app) :
    Started (w.Verified ed serde verifier) file app.state := by
  obtain ⟨snapshot, hsnapshot, h⟩ := bind_eq_ok.mp h
  obtain ⟨state, hstate, h⟩ := bind_eq_ok.mp h
  cases h
  cases file with
  | some file =>
    obtain rfl : file = .ok snapshot := hsnapshot
    exact Or.inl ⟨snapshot, rfl, hstate⟩
  | none =>
    obtain ⟨fetched, hfetch, hsnapshot⟩ := bind_eq_ok.mp hsnapshot
    obtain ⟨_, -, hsnapshot⟩ := bind_eq_ok.mp hsnapshot
    cases hsnapshot
    obtain ⟨bytes, hverified, hdecode⟩ := fetchSnapshot_verified hsigns hfetch
    exact Or.inr ⟨bytes, _, hverified, hdecode, hstate⟩

/-- No operation asks more of its relay than that it answers. -/
theorem installs_any (t : Turn) (start : ActiveState) :
    Installs t start (fun _ state => start.Extends state) fun _ _ => True where
  extending h := h
  rests _ := trivial
  applied _ h happly hcompact _ := (h.trans (ActiveState.extends_applyMutations happly)).trans
    (ActiveState.extends_compactIfLarge hcompact)
  refused _ _ _ _ := trivial
  loaded _ _ _ _ := trivial

/-- In a run against relays that sign, each state is what bytes spell out that were verified in that
operation. -/
theorem path_contactStates {contacts : List Contact} {app : App}
    (hsigns : Along (afterContact ed serde sha verifier) (SignsContact ed serde sha verifier) app
      contacts) :
    ∃ last, Path (fun app app' => ∃ c ∈ contacts,
        Authentic (c.wire.Verified ed serde verifier) c.ord app.state app'.state)
      app (contactStates ed serde sha verifier contacts app) last := by
  induction contacts generalizing app with
  | nil => exact ⟨app, .nil app⟩
  | cons c contacts ih =>
    obtain ⟨hsign, hsigns⟩ := hsigns
    have hmoves := Turn.moves (installs_any (c.turn ed serde sha verifier) app.state)
    have hturn := hmoves.path app (.refl app.state)
    obtain ⟨last, hlast⟩ := ih hsigns
    refine ⟨last, (hturn.mono fun _ _ hstep => ?_).append (hlast.mono fun _ _ hstep => ?_)⟩
    · exact ⟨c, List.mem_cons_self, Replaces.authentic hsign hstep⟩
    · obtain ⟨c', hc', hstep⟩ := hstep
      exact ⟨c', List.mem_cons_of_mem _ hc', hstep⟩

/-- A run against relays that withhold no signature: the agent starts from its file or from bytes
that were verified, and goes on with bytes that were verified. -/
theorem authentic_run {start : Contact} {contacts : List Contact} {agentId : String}
    {file : Option (Result Snapshot)} {app : App}
    (hsign : start.wire.SignsSnapshot ed serde sha verifier)
    (hstart : buildApp (start.wire.relay ed serde sha verifier start.base) agentId file = .ok app)
    (hsigns : Along (afterContact ed serde sha verifier) (SignsContact ed serde sha verifier) app
      contacts) :
    Started (start.wire.Verified ed serde verifier) file app.state ∧
      ∃ last, Path (fun app app' => ∃ c ∈ contacts,
          Authentic (c.wire.Verified ed serde verifier) c.ord app.state app'.state)
        app (contactStates ed serde sha verifier contacts app) last :=
  ⟨started_buildApp hsign hstart, path_contactStates hsigns⟩

/-- An agent without a file starts from the legacy snapshot if the manifest cannot be fetched. -/
theorem buildApp_legacy {relay : Relay} {agentId : String} {err : GlobAclError}
    {snapshot : Snapshot} {state : ActiveState}
    (hmanifest : relay.fetchSnapshotFromManifest = .error err)
    (htaken : relay.snapshot.Taken (.ok snapshot))
    (hlen : snapshot.watermarks.length = snapshot.shardCount)
    (hwrite : relay.writeFile snapshot = .ok ())
    (hload : ActiveState.fromSnapshot snapshot = .ok state) :
    ∃ app, buildApp relay agentId none = .ok app ∧ app.state = state := by
  obtain ⟨hresponse, hverify⟩ := htaken
  have hfetch : relay.fetchSnapshot = .ok snapshot := by
    unfold Relay.fetchSnapshot
    rw [hmanifest]
    refine bind_eq_ok.mpr ⟨_, hresponse, ?_⟩
    dsimp only
    rw [if_neg (by decide), hverify]
    unfold decodeSnapshot
    rw [ok_bind, ok_bind, if_neg (not_not.mpr hlen)]
    rfl
  have hstart : buildApp relay agentId none = .ok
      { agentId, state, snapshotFile := snapshot
        metrics := ⟨relay.nowUnix, relay.nowUnix, 0, 0, 0, 0, "", 0, 0⟩, acked := [] } := by
    simp only [buildApp, loadOrFetchSnapshot, bind_eq_ok]
    exact ⟨snapshot, ⟨snapshot, hfetch, (), hwrite, rfl⟩, state, hload, rfl⟩
  exact ⟨_, hstart, rfl⟩

/-- A relay whose manifest cannot be fetched has any snapshot installed that it withholds the
signature of. -/
theorem buildApp_withheld {agentId : String} {err : GlobAclError} {bytes : List UInt8}
    {snapshot : Snapshot} {state : ActiveState}
    (hmanifest : (w.relay ed serde sha verifier base).fetchSnapshotFromManifest = .error err)
    (hwithholds : w.Withholds "/v1/snapshot" "/v1/snapshot.sig" bytes)
    (hdecode : Globacl.decodeSnapshot bytes = .ok snapshot)
    (hwrite : base.writeFile snapshot = .ok ())
    (hload : ActiveState.fromSnapshot snapshot = .ok state) :
    ∃ app, buildApp (w.relay ed serde sha verifier base) agentId none = .ok app ∧
      app.state = state := by
  obtain ⟨hget, reply, hreply, hwithheld⟩ := hwithholds
  have hsignature : (w.relay ed serde sha verifier base).snapshot.signature =
      .ok ⟨reply.statusCode, if reply.body = [] then none
        else some (verifyPayloadSignatureWithVerifier ed serde verifier bytes reply.body)⟩ :=
    bind_eq_ok.mpr ⟨_, hget, bind_eq_ok.mpr ⟨_, hreply, rfl⟩⟩
  refine buildApp_legacy hmanifest ⟨?_, ?_⟩ (decodeSnapshot_fits hdecode).2 hwrite hload
  · exact bind_eq_ok.mpr ⟨_, hget, by rw [hdecode]; rfl⟩
  · refine verifyRemotePayloadSignature_ok_iff.mpr ⟨_, hsignature, ?_⟩
    exact hwithheld.imp id fun hempty => Or.inl (if_pos hempty)

end Run

/-! An agent without a file whose relay has a snapshot but no manifest. -/

namespace ForgedSnapshot

open LateSignature

theorem length_digest (_ : List UInt8) : (List.replicate 32 (0 : UInt8)).length = 32 := rfl

def sha : Sha256 := ⟨fun _ => List.replicate 32 0, length_digest⟩

def snapshot : Snapshot :=
  ⟨1, [1], [⟨"tenant", "user", 7, .deny, 1, "forged", 0, "relay", 1, 0⟩], []⟩

def payload : List UInt8 := encodeSnapshot snapshot

theorem decodes : Globacl.decodeSnapshot payload = .ok snapshot := by decide +kernel

theorem loads : ∃ state, ActiveState.fromSnapshot snapshot = .ok state := by
  have hload : (ActiveState.fromSnapshot snapshot).isOk = true := by decide +kernel
  cases hstate : ActiveState.fromSnapshot snapshot with
  | ok state => exact ⟨state, rfl⟩
  | error err =>
    rw [hstate] at hload
    cases hload

/-- The relay has nothing else. -/
def forging : Wire :=
  ⟨fun path => if path = "/v1/snapshot" then .ok ⟨200, payload⟩ else .ok ⟨404, []⟩⟩

/-- The relay answers everything else with a signature, and the manifest not at all. -/
def signing (text : String) : Wire :=
  ⟨fun path => if path = "/v1/snapshot_manifest" then .error (.io "timed out")
    else .ok ⟨200, if path = "/v1/snapshot" then payload else utf8 text⟩⟩

/-- An operation without other answers than those of the relay. -/
def contact (w : Wire) : Contact := ⟨w, idleRelay, .given, .pollOnce⟩

/-- The signature of the snapshot. -/
theorem signature : ∃ text, text ≠ "" ∧ verifyPayloadSignatureWithVerifier curve (serde payload)
    verifier payload (utf8 text) = .ok () := by
  have hkeys : HonestKeys curve (serde payload) signer verifier key payload payload :=
    honest (iff_of_true rfl rfl)
  obtain ⟨signature, hsigns, hserde, hvalid⟩ := hkeys.signs
  obtain ⟨text, -, hne, hverify⟩ := verify_signPayload hkeys.trusts hsigns hserde hvalid
  refine ⟨text, hne, ?_⟩
  rw [hverify, decide_eq_true rfl]
  rfl

theorem not_withholds_signing {text path signaturePath : String} {bytes : List UInt8}
    (hne : text ≠ "") : ¬(signing text).Withholds path signaturePath bytes := by
  rintro ⟨-, response, hresponse, hwithheld⟩
  dsimp only [signing] at hresponse
  split at hresponse
  · cases hresponse
  · cases hresponse
    refine hwithheld.elim (fun h => h rfl) fun hempty => ?_
    dsimp only at hempty
    split at hempty
    · exact absurd hempty (by decide +kernel)
    · exact utf8_ne_nil hne hempty

theorem taken_signing {text : String} (hne : text ≠ "")
    (hverify : verifyPayloadSignatureWithVerifier curve (serde payload) verifier payload
      (utf8 text) = .ok ()) :
    ((signing text).relay curve (serde payload) sha verifier idleRelay).snapshot.Taken
      (.ok snapshot) := by
  have hsignature : ((signing text).relay curve (serde payload) sha verifier
      idleRelay).snapshot.signature = .ok ⟨200, some (.ok ())⟩ := by
    refine bind_eq_ok.mpr ⟨⟨200, payload⟩, rfl, bind_eq_ok.mpr ⟨⟨200, utf8 text⟩, rfl, ?_⟩⟩
    dsimp only
    rw [if_neg (utf8_ne_nil hne), hverify]
    rfl
  refine ⟨bind_eq_ok.mpr ⟨⟨200, payload⟩, rfl, ?_⟩, ?_⟩
  · dsimp only
    rw [decodes]
    rfl
  · exact verifyRemotePayloadSignature_ok_iff.mpr ⟨_, hsignature, Or.inr (Or.inr rfl)⟩

end ForgedSnapshot

open ForgedSnapshot LateSignature in
/-- An agent that starts from a snapshot with its signature, and polls. -/
theorem authentic_run_signed : ∃ text app,
    Started ((signing text).Verified curve (serde payload) verifier) none app.state ∧
      ∃ last, Path (fun app app' => ∃ c ∈ [contact (signing text)],
          Authentic (c.wire.Verified curve (serde payload) verifier) c.ord app.state app'.state)
        app (contactStates curve (serde payload) sha verifier [contact (signing text)] app) last := by
  obtain ⟨text, hne, hverify⟩ := signature
  have hsign : (signing text).SignsSnapshot curve (serde payload) sha verifier :=
    fun _ _ _ _ _ _ => not_withholds_signing hne
  have hsigns : ∀ op start, (signing text).Signs curve (serde payload) sha verifier op start :=
    fun _ _ => ⟨fun _ _ _ _ _ _ _ => not_withholds_signing hne,
      fun _ _ _ _ _ _ _ _ => not_withholds_signing hne, hsign⟩
  obtain ⟨state, hload⟩ := loads
  obtain ⟨app, hstart, -⟩ := @buildApp_legacy
    ((signing text).relay curve (serde payload) sha verifier idleRelay) "agent" _ _ _ rfl
    (taken_signing hne hverify) rfl rfl hload
  exact ⟨text, app, @authentic_run _ _ _ _ (contact (signing text)) [contact (signing text)] "agent"
    none app hsign hstart ⟨hsigns _ _, trivial⟩⟩

open ForgedSnapshot LateSignature in
/-- An agent starts from a snapshot for which no signature was asked. -/
theorem not_authentic_run :
    ¬∀ (ed : Ed25519) (serde : SerdeJson) (sha : Sha256) (verifier : SignatureVerifier)
      (start : Contact) (contacts : List Contact) (agentId : String)
      (file : Option (Result Snapshot)) (app : App),
      buildApp (start.wire.relay ed serde sha verifier start.base) agentId file = .ok app →
      Started (start.wire.Verified ed serde verifier) file app.state ∧
        ∃ last, Path (fun app app' => ∃ c ∈ contacts,
            Authentic (c.wire.Verified ed serde verifier) c.ord app.state app'.state)
          app (contactStates ed serde sha verifier contacts app) last := by
  intro h
  obtain ⟨state, hload⟩ := loads
  obtain ⟨app, hstart, -⟩ := @buildApp_withheld curve (.only []) sha verifier forging idleRelay
    "agent" _ payload snapshot state rfl ⟨rfl, ⟨404, []⟩, rfl, Or.inr rfl⟩ decodes rfl hload
  rcases (h curve (.only []) sha verifier (contact forging) [] "agent" none app hstart).1 with
    ⟨_, hfile, -⟩ | ⟨bytes, _, ⟨_, _, signatureBody, hpayload, hsignature, hverify⟩, -⟩
  · cases hfile
  · have hbody : ∀ {path bytes}, forging.get path = .ok ⟨200, bytes⟩ → bytes = payload := by
      intro path bytes hget
      dsimp only [forging] at hget
      split at hget
      · cases hget
        rfl
      · cases hget
    rw [hbody hpayload, hbody hsignature] at hverify
    have hrefused : (verifyPayloadSignatureWithVerifier curve (.only []) verifier payload
        payload).isOk = false := by
      decide +kernel
    rw [hverify] at hrefused
    cases hrefused

end Agent

end Globacl
