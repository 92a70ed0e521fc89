import Globacl.Agent.Relay
import Globacl.Commitd.Reads
import Globacl.Core.Signatures

/-!
# The signature of a stream (`globacl-agent/src/app/snapshot.rs`, `globacl-commitd/src/app/routes.rs`)

An agent fetches a stream of mutations with one request and its signature with another one. The
server signs what its history holds at the second request.

* `Later.mutationsForShard_iff`: which histories serve the same stream.
* `pollVerifies_iff`: when the signature that is fetched fits the stream that is fetched.
-/

namespace Globacl

open Lib

/-! ## Two reads -/

namespace SourceOfTruth

/-- Two states have the same numbers of a shard to serve above a number. -/
def SameRange (st st' : SourceOfTruth) (shardId fromSeq : Nat) : Prop :=
  st'.watermark shardId = st.watermark shardId ∧
      max (st'.compactedWatermark shardId) fromSeq = max (st.compactedWatermark shardId) fromSeq ∨
    st.watermark shardId ≤ max (st.compactedWatermark shardId) fromSeq ∧
      st'.watermark shardId ≤ max (st'.compactedWatermark shardId) fromSeq

section Later

variable {st st' : SourceOfTruth} {shardId fromSeq : Nat}

/-- The same numbers are served if and only if the same mutations are. -/
theorem Later.mutationsForShard_iff (hst : Contiguous st) (h : Later st st') :
    st'.mutationsForShard shardId fromSeq = st.mutationsForShard shardId fromSeq ↔
      SameRange st st' shardId fromSeq := by
  have hseqs := hst.map_seq_mutationsForShard shardId fromSeq
  have hseqs' := h.contiguous.map_seq_mutationsForShard shardId fromSeq
  unfold SameRange
  constructor
  · intro heq
    rw [heq, hseqs, List.range'_inj] at hseqs'
    omega
  · rintro (⟨hw, hmax⟩ | ⟨hempty, hempty'⟩)
    · -- what is new must be above the watermark, and there is nothing
      obtain ⟨new, hnew⟩ := h.log shardId
      obtain ⟨added, hsplit⟩ : ∃ added, st'.mutationsForShard shardId fromSeq =
          st.mutationsForShard shardId fromSeq ++ added := by
        refine ⟨(new.filter fun m => decide (m.seq > st'.compactedWatermark shardId)).filter
          fun m => decide (m.seq > fromSeq), ?_⟩
        rw [mutationsForShard_eq, hnew, List.filter_append, List.filter_append, mutationsForShard_eq]
        congr 1
        rw [List.filter_filter]
        refine List.filter_congr fun m hm => ?_
        have := hst.seq_gt hm
        rw [← Bool.decide_and, decide_eq_decide]
        omega
      have hlen := congrArg List.length hsplit
      rw [← List.length_map (f := Mutation.seq), hseqs', hw, hmax, ← hseqs, List.length_map,
        List.length_append] at hlen
      obtain rfl : added = [] := List.length_eq_zero_iff.mp (by omega)
      rw [hsplit, List.append_nil]
    · have hnil : ∀ {st : SourceOfTruth}, Contiguous st →
          st.watermark shardId ≤ max (st.compactedWatermark shardId) fromSeq →
          st.mutationsForShard shardId fromSeq = [] := by
        intro st hst hle
        rw [← List.map_eq_nil_iff, hst.map_seq_mutationsForShard, List.range'_eq_nil_iff]
        omega
      rw [hnil hst hempty, hnil h.contiguous hempty']

end Later

end SourceOfTruth

/-! ## The two requests -/

/-- The answer to a request for a signature. -/
inductive SignatureAnswer where
  | compacted (compactedSeq : Nat)
  | signature (body : Result String)

section Requests

variable (ed : Ed25519) (serde : SerdeJson)

/-- `GET /v1/mutations.sig`, with the writes of others before its first section and between its two
sections. -/
def App.serveSignature (app : App) (signer : SignatureSigner) (query : MutationsQuery)
    (before between : List Write) : SignatureAnswer :=
  match compactedSeqForQuery (app.writes before).state query with
  | some compactedSeq => .compacted compactedSeq
  | none =>
    .signature (signer.signPayload ed serde
      (streamBody (mutationsForQuery (app.writes (before ++ between)).state query)))

/-- The reply to a request for a signature as the agent looks at it. -/
def SignatureAnswer.response (verifier : SignatureVerifier) (payload : List UInt8) :
    SignatureAnswer → Result (HttpResponse (Option (Result Unit)))
  | .compacted _ => .ok ⟨409, some (.error (.invalidData "history_compacted"))⟩
  | .signature (.error err) => .error err
  | .signature (.ok body) =>
    .ok ⟨200, if body = "" then none
      else some (verifyPayloadSignatureWithVerifier ed serde verifier payload (utf8 body))⟩

/-- The requests of `poll_once` for a stream and its signature: if there is a stream, then the check
of the signature passes. -/
def App.PollVerifies (app : App) (signer : SignatureSigner) (verifier : SignatureVerifier)
    (query : MutationsQuery) (before between before' between' : List Write) : Prop :=
  ∀ mutations, app.serve .mutations query before between = .stream mutations →
    verifyRemotePayloadSignature (((app.writes (before ++ between)).serveSignature ed serde signer
      query before' between').response ed serde verifier (streamBody mutations)) = .ok ()

/-- The verifier trusts the signer, and accepts its signature of `signed` for this payload alone. -/
structure HonestKeys (signer : SignatureSigner) (verifier : SignatureVerifier)
    (publicKey payload signed : List UInt8) : Prop where
  trusts : verifier.Trusts signer publicKey
  signs : ∃ signature, signer.Signs ed signed signature ∧
    serde.Restores (signatureFields signer.keyId signer.keyVersion (hexEncode signature)) ∧
    ed.verifyStrict publicKey payload signature = .ok (decide (payload = signed))

end Requests

section Verify

variable {ed : Ed25519} {serde : SerdeJson} {signer : SignatureSigner} {verifier : SignatureVerifier}
  {publicKey : List UInt8}

/-- The check of a signature passes if the payload is the one that was signed, or there is no
signature. -/
theorem verify_response {payload : List UInt8} {app : App} {query : MutationsQuery}
    {before between : List Write}
    (hkeys : HonestKeys ed serde signer verifier publicKey payload
      (streamBody (mutationsForQuery (app.writes (before ++ between)).state query))) :
    verifyRemotePayloadSignature ((app.serveSignature ed serde signer query before between).response
        ed serde verifier payload) = .ok () ↔
      compactedSeqForQuery (app.writes before).state query ≠ none ∨
        payload = streamBody (mutationsForQuery (app.writes (before ++ between)).state query) := by
  obtain ⟨signature, hsigns, hserde, hvalid⟩ := hkeys.signs
  obtain ⟨text, htext, hne, hverify⟩ := verify_signPayload hkeys.trusts hsigns hserde hvalid
  unfold App.serveSignature
  cases compactedSeqForQuery (app.writes before).state query with
  | some compactedSeq => exact iff_of_true rfl (Or.inl (by simp))
  | none =>
    dsimp only
    rw [htext, SignatureAnswer.response, if_neg hne, hverify]
    simp only [ne_eq, not_true_eq_false, false_or]
    by_cases heq : payload = streamBody (mutationsForQuery (app.writes (before ++ between)).state query)
    · rw [decide_eq_true heq]
      exact iff_of_true rfl heq
    · rw [decide_eq_false heq]
      exact iff_of_false (fun h => (by cases h)) heq

/-- A stream that can be encoded. -/
structure StreamFits (mutations : List Mutation) : Prop where
  fits : ∀ m ∈ mutations, m.Fits
  short : ∀ m ∈ mutations, (encodeMutation m).length < 2 ^ 32
  count : sizeOfMutation * mutations.length ≤ isizeMax

/-- Different streams have different bytes. -/
theorem StreamFits.body_inj {mutations mutations' : List Mutation} (h : StreamFits mutations)
    (h' : StreamFits mutations') (heq : streamBody mutations = streamBody mutations') :
    mutations = mutations' := by
  have hdecode := decodeMutationStream_encode h.fits h.short h.count
  have hdecode' := decodeMutationStream_encode h'.fits h'.short h'.count
  unfold streamBody at heq
  rw [heq, hdecode'] at hdecode
  cases hdecode
  rfl

open SourceOfTruth in
/-- The signature fits the stream if one of the two requests is answered with `409`, or the history
has the same numbers to serve at both reads; and only then. -/
theorem pollVerifies_iff {app : App} (hb : Built app.state)
    (past before between before' between' : List Write) (query : MutationsQuery)
    (hpriority : query.deliveryPriority = none)
    (hkeys : HonestKeys ed serde signer verifier publicKey
      (streamBody (mutationsForQuery ((app.writes past).writes (before ++ between)).state query))
      (streamBody (mutationsForQuery (((app.writes past).writes (before ++ between)).writes
        (before' ++ between')).state query))) :
    let read := (app.writes past).writes (before ++ between)
    let signed := read.writes (before' ++ between')
    let condition := compactedSeqForQuery ((app.writes past).writes before).state query ≠ none ∨
      compactedSeqForQuery (read.writes before').state query ≠ none ∨
      read.state.SameRange signed.state query.shardId query.fromSeq
    (condition → (app.writes past).PollVerifies ed serde signer verifier query before between
      before' between') ∧
    (StreamFits (mutationsForQuery read.state query) →
      StreamFits (mutationsForQuery signed.state query) →
      (app.writes past).PollVerifies ed serde signer verifier query before between before' between' →
      condition) := by
  have hpast : Contiguous (app.writes past).state := (advances_writes app past hb.contiguous).contiguous
  generalize app.writes past = app₀ at *
  have hread := (advances_writes app₀ (before ++ between) hpast).contiguous
  generalize hread_eq : app₀.writes (before ++ between) = read at *
  have hlater := advances_writes read (before' ++ between') hread
  have hsame := @Later.mutationsForShard_iff _ _ query.shardId query.fromSeq hread hlater
  have hquery : ∀ st, mutationsForQuery st query = st.mutationsForShard query.shardId query.fromSeq :=
    fun st => by simp only [mutationsForQuery, hpriority]
  have hverify := verify_response hkeys
  dsimp only
  unfold App.PollVerifies App.serve
  rw [hread_eq]
  cases hchecked : compactedSeqForQuery (app₀.writes before).state query with
  | some compactedSeq => simp
  | none =>
    simp only [ne_eq, not_true_eq_false, false_or, StreamAnswer.stream.injEq, forall_eq']
    rw [show Endpoint.mutations.collect read.state query = mutationsForQuery read.state query from rfl,
      hverify, ← hsame]
    refine ⟨fun hcondition => hcondition.imp id fun heq => ?_, fun hfits hfits' hpoll =>
      hpoll.imp id fun heq => ?_⟩
    · rw [hquery, hquery, heq]
    · have hmutations := hfits.body_inj hfits' heq
      rw [hquery, hquery] at hmutations
      exact hmutations.symm

end Verify

/-! A node that commits between the two requests of a poll. The curve stands for one that tells the
two streams apart by their first 64 bytes. -/

namespace LateSignature

def node : App := { RacedRead.node with config := { RacedRead.config with minLogEntries := 0 } }

def query : MutationsQuery := ⟨0, 0, none, none⟩

def front (payload : List UInt8) : List UInt8 := (payload ++ List.replicate 64 0).take 64

def curve : Ed25519 where
  sign _ payload := front payload
  verifyStrict _ payload signature := .ok (decide (signature = front payload))
  length_sign _ payload := by
    rw [front, List.length_take, List.length_append, List.length_replicate]
    omega

def key : List UInt8 := List.replicate 32 7

def signer : SignatureSigner := ⟨"k1", 1, .ed25519PrivateKey (hexEncode key)⟩

def verifier : SignatureVerifier :=
  ⟨(∅ : HashMap String SignatureVerificationKey).insert "k1" ⟨"k1", 1, hexEncode key⟩, 1⟩

/-- The node at the first request, and at the second. -/
abbrev first : App := (node.writes [RacedRead.deny "op-1"]).writes ([] ++ [])

abbrev second : App := first.writes ([] ++ [RacedRead.deny "op-2"])

/-- The streams of the two requests. -/
abbrev fetched : List Mutation := mutationsForQuery first.state query

abbrev signed : List Mutation := mutationsForQuery second.state query

def serde (payload : List UInt8) : SerdeJson :=
  .only (signatureFields "k1" 1 (hexEncode (front payload)))

theorem built : SourceOfTruth.Built node.state := SourceOfTruth.Built.new 1 "local"

theorem honest {payload signed : List UInt8} (h : front signed = front payload ↔ payload = signed) :
    HonestKeys curve (serde signed) signer verifier key payload signed where
  trusts :=
    { keyId := by decide
      keyVersion := by decide
      minKeyVersion := by decide
      key := ⟨⟨"k1", 1, hexEncode key⟩, AList.lookup_insert _, decodeHexArray_hexEncode key _,
        Or.inr (Or.inr rfl)⟩ }
  signs := ⟨front signed, signs_privateKey rfl (decodeHexArray_hexEncode key _) _,
    SerdeJson.only_restores _, congrArg Except.ok (decide_eq_decide.mpr h)⟩

theorem front_ne : front (streamBody signed) ≠ front (streamBody fetched) := by decide +kernel

end LateSignature

open LateSignature in
theorem pollVerifies_iff_lateSignature :
    (node.writes [RacedRead.deny "op-1"]).PollVerifies curve (serde (streamBody fetched)) signer verifier
      query [] [] [] [] := by
  have hnone : ∀ app : App, app.writes ([] ++ []) = app := fun _ => rfl
  have hkeys : HonestKeys curve (serde (streamBody fetched)) signer verifier key (streamBody fetched)
      (streamBody (mutationsForQuery (first.writes ([] ++ [])).state query)) := by
    rw [hnone first]
    exact honest (iff_of_true rfl rfl)
  refine (pollVerifies_iff built [RacedRead.deny "op-1"] [] [] [] [] query rfl hkeys).1
    (Or.inr (Or.inr ?_))
  rw [hnone first]
  exact Or.inl ⟨rfl, rfl⟩

open LateSignature in
/-- A commit between the two requests makes the check fail. -/
theorem not_pollVerifies :
    ¬ ∀ (ed : Ed25519) (serde : SerdeJson) (signer : SignatureSigner) (verifier : SignatureVerifier)
      (publicKey : List UInt8) (app : App), SourceOfTruth.Built app.state →
      ∀ (past before between before' between' : List Write) (query : MutationsQuery),
      query.deliveryPriority = none →
      HonestKeys ed serde signer verifier publicKey
        (streamBody (mutationsForQuery ((app.writes past).writes (before ++ between)).state query))
        (streamBody (mutationsForQuery (((app.writes past).writes (before ++ between)).writes
          (before' ++ between')).state query)) →
      (app.writes past).PollVerifies ed serde signer verifier query before between before' between' := by
  intro h
  have hserved : (node.writes [RacedRead.deny "op-1"]).serve .mutations query [] [] = .stream fetched := by
    have hchecked : compactedSeqForQuery ((node.writes [RacedRead.deny "op-1"]).writes []).state query =
        none := by decide +kernel
    unfold App.serve
    rw [hchecked]
    exact congrArg StreamAnswer.stream (by rw [Endpoint.collect])
  have hkeys := honest (iff_of_false front_ne fun heq => front_ne (by rw [heq]))
  have hpoll := h curve (serde (streamBody signed)) signer verifier key node built [RacedRead.deny "op-1"] [] [] []
    [RacedRead.deny "op-2"] query rfl hkeys
  have hpoll := hpoll fetched hserved
  rcases (verify_response hkeys).mp hpoll with hcompacted | heq
  · exact hcompacted (by decide +kernel)
  · exact front_ne (by rw [heq])

end Globacl
