import Globacl.Core.Json
import Globacl.Core.Text
import Globacl.Lib.KeepLatest

/-!
# The store of propagation acks (`globacl-commitd/src/app/propagation.rs`, `http.rs`)

Agents acknowledge what they have applied, and the central store keeps the latest ack of each relay,
agent and shard: a map in memory, and a log with one JSON object on each line. A restart reads the
map from the log.

* `parsePropagationAckJson_toJson`: the object of an ack is read back as the ack.
* `load_log`: the log of the acks that were not dropped, replayed.
* `latestPerTriple_iff`: when the store has the latest ack of each relay, agent and shard.
* `ackLog_replays`: over any run, what a restart would load is what is in memory.
-/

namespace Globacl

open Lib

/-! ## Acks -/

/-- `PropagationAck`. -/
structure PropagationAck where
  relayId : String
  location : String
  agentId : String
  shardId : Nat
  seq : Nat
  entries : Nat
  appliedAtUnix : Nat
  relayReceivedAtUnix : Nat
  deriving DecidableEq, Repr

/-- The readings of `now_unix` in a call, in order. -/
abbrev Clock := Nat → UInt64

/-- The clock after the readings for one ack. -/
def Clock.next (clock : Clock) : Clock := fun i => clock (i + 2)

namespace PropagationAck

/-- `PropagationAck::key`. -/
def key (ack : PropagationAck) : String :=
  ack.relayId ++ ":" ++ ack.agentId ++ ":" ++ toString ack.shardId

/-- The relay, the agent and the shard that an ack is about. -/
def triple (ack : PropagationAck) : String × String × Nat := (ack.relayId, ack.agentId, ack.shardId)

theorem key_of_triple {a b : PropagationAck} (h : a.triple = b.triple) : a.key = b.key := by
  simp only [triple, Prod.mk.injEq] at h
  obtain ⟨hrelay, hagent, hshard⟩ := h
  rw [key, key, hrelay, hagent, hshard]

/-- What stands before and after the last separator. -/
theorem append_cons_inj_of_last {sep : Char} {before after before' after' : List Char}
    (hafter : sep ∉ after) (hafter' : sep ∉ after')
    (h : before ++ sep :: after = before' ++ sep :: after') :
    before = before' ∧ after = after' := by
  have hnil : ∀ {mid after after' : List Char}, sep ∉ after → sep :: after = mid ++ sep :: after' →
      mid = [] ∧ after = after' := by
    intro mid after after' hafter h
    cases mid with
    | nil => exact ⟨rfl, (List.cons.inj h).2⟩
    | cons c mid =>
      rw [List.cons_append] at h
      rw [(List.cons.inj h).2] at hafter
      exact absurd (by simp) hafter
  rcases List.append_eq_append_iff.mp h with ⟨mid, rfl, hmid⟩ | ⟨mid, rfl, hmid⟩
  · obtain ⟨rfl, rfl⟩ := hnil hafter hmid
    exact ⟨(List.append_nil before).symm, rfl⟩
  · obtain ⟨rfl, rfl⟩ := hnil hafter' hmid
    exact ⟨List.append_nil before', rfl⟩

theorem toString_inj {m n : Nat} (h : toString m = toString n) : m = n := by
  have hm : parseUnsigned (max m n) (toString m) = .ok m :=
    parseUnsigned_toString (Nat.le_max_left m n)
  have hn : parseUnsigned (max m n) (toString n) = .ok n :=
    parseUnsigned_toString (Nat.le_max_right m n)
  rw [h, hn] at hm
  cases hm
  rfl

/-- Agents without a colon in their ids are told apart by the keys. -/
theorem triple_of_key {a b : PropagationAck} (ha : ':' ∉ a.agentId.toList)
    (hb : ':' ∉ b.agentId.toList) (h : a.key = b.key) : a.triple = b.triple := by
  have hdigits : ∀ n : Nat, ':' ∉ (toString n).toList := by
    intro n hc
    exact absurd (isDigit_of_mem_toString hc) (by decide)
  have hlist : ∀ ack : PropagationAck, ack.key.toList =
      (ack.relayId.toList ++ ':' :: ack.agentId.toList) ++
        ':' :: (toString ack.shardId).toList := by
    intro ack
    simp [key]
  have hkey := congrArg String.toList h
  rw [hlist, hlist] at hkey
  obtain ⟨hids, hshard⟩ := append_cons_inj_of_last (hdigits _) (hdigits _) hkey
  obtain ⟨hrelay, hagent⟩ := append_cons_inj_of_last ha hb hids
  simp only [triple, Prod.mk.injEq]
  exact ⟨String.toList_inj.mp hrelay, String.toList_inj.mp hagent,
    toString_inj (String.toList_inj.mp hshard)⟩

/-- `PropagationAck::from_json_fields`. The two defaults are read from the clock first. -/
def fromJsonFields (clock : Clock) (form : Form) : Result PropagationAck := do
  let relayId ← required form "relay_id"
  let location ← required form "location"
  let agentId ← required form "agent_id"
  let shardId ← parseU16 ((form.lookup "shard_id").or (form.lookup "shard")) "shard_id"
  let seq ← parseU64 ((form.lookup "seq").or (form.lookup "watermark")) 0 "seq"
  let entries ← parseUsize (form.lookup "entries") 0 "entries"
  let appliedAtUnix ← parseU64 (form.lookup "applied_at_unix") (clock 0).toNat "applied_at_unix"
  let relayReceivedAtUnix ←
    parseU64 (form.lookup "relay_received_at_unix") (clock 1).toNat "relay_received_at_unix"
  pure ⟨relayId, location, agentId, shardId, seq, entries, appliedAtUnix, relayReceivedAtUnix⟩

/-- The fields of `propagation_ack_json`. -/
def fields (ack : PropagationAck) : List (String × Json) :=
  [("relay_id", .string ack.relayId), ("location", .string ack.location),
    ("agent_id", .string ack.agentId), ("shard_id", .ofNat ack.shardId), ("seq", .ofNat ack.seq),
    ("entries", .ofNat ack.entries), ("applied_at_unix", .ofNat ack.appliedAtUnix),
    ("relay_received_at_unix", .ofNat ack.relayReceivedAtUnix)]

/-- `PropagationAck::to_json_body`. -/
def toJsonBody (serde : SerdeJson) (ack : PropagationAck) : String :=
  serde.toString (.object ack.fields)

/-- The texts are not blank, and the numbers fit in their types. -/
structure Fits (ack : PropagationAck) : Prop where
  relayId : trim ack.relayId ≠ ""
  location : trim ack.location ≠ ""
  agentId : trim ack.agentId ≠ ""
  shardId : ack.shardId < 2 ^ 16
  seq : ack.seq < 2 ^ 64
  entries : ack.entries < 2 ^ 64
  appliedAtUnix : ack.appliedAtUnix < 2 ^ 64
  relayReceivedAtUnix : ack.relayReceivedAtUnix < 2 ^ 64

/-- Whatever is parsed fits. -/
theorem fromJsonFields_fits {clock : Clock} {form : Form} {ack : PropagationAck}
    (h : fromJsonFields clock form = .ok ack) : ack.Fits := by
  simp only [fromJsonFields, bind_eq_ok] at h
  obtain ⟨relayId, hrelay, location, hlocation, agentId, hagent, shardId, hshard, seq, hseq,
    entries, hentries, appliedAt, happlied, receivedAt, hreceived, hack⟩ := h
  cases hack
  exact {
    relayId := required_trim hrelay
    location := required_trim hlocation
    agentId := required_trim hagent
    shardId := parseU16_lt hshard
    seq := parseU64_lt (by decide) hseq
    entries := parseU64_lt (by decide) hentries
    appliedAtUnix := parseU64_lt (clock 0).toNat_lt happlied
    relayReceivedAtUnix := parseU64_lt (clock 1).toNat_lt hreceived }

/-- The texts of the fields are read back as the ack, whatever the clock says. -/
theorem fromJsonFields_fields {serde : SerdeJson} {ack : PropagationAck} (hfits : ack.Fits)
    {form : Form}
    (hform : ∀ key value, (key, value) ∈ ack.fields →
      form.lookup key = some (jsonFieldToString serde value))
    (clock : Clock) : fromJsonFields clock form = .ok ack := by
  have hrelay := hform "relay_id" (.string ack.relayId) (by simp [fields])
  have hlocation := hform "location" (.string ack.location) (by simp [fields])
  have hagent := hform "agent_id" (.string ack.agentId) (by simp [fields])
  have hshard := hform "shard_id" (.ofNat ack.shardId) (by simp [fields])
  have hseq := hform "seq" (.ofNat ack.seq) (by simp [fields])
  have hentries := hform "entries" (.ofNat ack.entries) (by simp [fields])
  have happlied := hform "applied_at_unix" (.ofNat ack.appliedAtUnix) (by simp [fields])
  have hreceived :=
    hform "relay_received_at_unix" (.ofNat ack.relayReceivedAtUnix) (by simp [fields])
  simp only [jsonFieldToString, Json.ofNat] at hshard hseq hentries happlied hreceived
  unfold fromJsonFields
  rw [required_of_lookup hrelay hfits.relayId, ok_bind, required_of_lookup hlocation hfits.location,
    ok_bind, required_of_lookup hagent hfits.agentId, ok_bind, hshard, Option.some_or,
    parseU16_toString hfits.shardId, ok_bind, hseq, Option.some_or, parseU64_toString hfits.seq,
    ok_bind, hentries, parseUsize, parseU64_toString hfits.entries, ok_bind, happlied,
    parseU64_toString hfits.appliedAtUnix, ok_bind, hreceived,
    parseU64_toString hfits.relayReceivedAtUnix, ok_bind]
  rfl

theorem nodup_fields (ack : PropagationAck) : (ack.fields.map Prod.fst).Nodup := by
  simp only [fields, List.map_cons, List.map_nil]
  decide

end PropagationAck

/-- `parse_propagation_ack_json`. -/
def parsePropagationAckJson (serde : SerdeJson) (clock : Clock) (value : Json) :
    Result PropagationAck := do
  let form ← jsonObjectToStringMap serde value
  PropagationAck.fromJsonFields clock form

/-- The object of an ack is read back as the ack. -/
theorem parsePropagationAckJson_toJson {serde : SerdeJson} {ack : PropagationAck}
    (hserde : serde.Restores ack.fields) (hfits : ack.Fits) (clock : Clock) :
    (parseJsonBody serde (utf8 (ack.toJsonBody serde)) >>= parsePropagationAckJson serde clock) =
      .ok ack := by
  obtain ⟨value, form, hbody, hmap, hform⟩ := parseJsonBody_toString hserde ack.nodup_fields
  unfold PropagationAck.toJsonBody parsePropagationAckJson
  rw [hbody, ok_bind, hmap, ok_bind]
  exact PropagationAck.fromJsonFields_fields hfits hform clock

/-! ## The log -/

/-- How the ack log answers an append: what the file is then, and the result. -/
structure AckStorage where
  append : Option (List UInt8) → List UInt8 → Option (List UInt8) × Result Unit

/-- No append fails. -/
def AckStorage.reliable : AckStorage := ⟨fun file bytes => (some (file.getD [] ++ bytes), .ok ())⟩

/-- The ack log, if there is one, and the acks in memory. -/
structure AckStore where
  log : Option (List UInt8)
  acks : HashMap String PropagationAck

/-- The line of an ack, with its end. -/
def ackLine (serde : SerdeJson) (ack : PropagationAck) : String := ack.toJsonBody serde ++ "\n"

/-- `append_propagation_ack`. -/
def appendPropagationAck (storage : AckStorage) (serde : SerdeJson) (log : Option (List UInt8))
    (ack : PropagationAck) : Option (List UInt8) × Result Unit :=
  storage.append log (utf8 (ackLine serde ack))

/-- `apply_propagation_ack_to_store`. -/
def applyPropagationAckToStore (storage : AckStorage) (serde : SerdeJson) (store : AckStore)
    (ack : PropagationAck) : AckStore × Result Bool :=
  if (store.acks.lookup ack.key).any fun existing =>
      decide (existing.seq > ack.seq ∨ existing = ack) then
    (store, .ok false)
  else
    match appendPropagationAck storage serde store.log ack with
    | (log, .error err) => ({ store with log }, .error err)
    | (log, .ok ()) => (⟨log, store.acks.insert ack.key ack⟩, .ok true)

/-- The loop of `load_propagation_acks`. -/
def loadLines (serde : SerdeJson) :
    Clock → List String → HashMap String PropagationAck → Result (HashMap String PropagationAck)
  | _, [], acks => .ok acks
  | clock, line :: lines, acks => do
    let value ← parseJsonBody serde (utf8 line)
    let ack ← parsePropagationAckJson serde clock value
    loadLines serde clock.next lines
      (if ((acks.lookup ack.key).map fun existing => decide (existing.seq ≤ ack.seq)).getD true then
        acks.insert ack.key ack
      else acks)

/-- `load_propagation_acks`. The text of the UTF-8 error is left out. -/
def loadPropagationAcks (serde : SerdeJson) (clock : Clock) (log : Option (List UInt8)) :
    Result (HashMap String PropagationAck) :=
  match log with
  | none => .ok ∅
  | some bytes =>
    match fromUtf8 bytes with
    | none => .error (.parse "ack log is not utf8")
    | some text => loadLines serde clock ((lines text).filter fun line => trim line ≠ "") ∅

/-- The loop of `apply_propagation_ack_log_snapshot`. -/
def applyAckValues (storage : AckStorage) (serde : SerdeJson) :
    Clock → List Json → Nat → AckStore → AckStore × Result Nat
  | _, [], applied, store => (store, .ok applied)
  | clock, value :: values, applied, store =>
    match parsePropagationAckJson serde clock value with
    | .error err => (store, .error err)
    | .ok ack =>
      match applyPropagationAckToStore storage serde store ack with
      | (store, .error err) => (store, .error err)
      | (store, .ok changed) =>
        applyAckValues storage serde clock.next values
          (if changed then applied + 1 else applied) store

/-- `apply_propagation_ack_log_snapshot`. -/
def applyPropagationAckLogSnapshot (storage : AckStorage) (serde : SerdeJson) (clock : Clock)
    (store : AckStore) (body : List UInt8) : AckStore × Result Nat :=
  match parseJsonBody serde body with
  | .error err => (store, .error err)
  | .ok value =>
    match (value.get "acks").bind Json.asArray with
    | none => (store, .error (.parse "ack snapshot missing acks array"))
    | some values => applyAckValues storage serde clock values 0 store

/-! ## What the log holds -/

/-- The object is also printed on one line. -/
structure SerdeJson.RestoresLine (serde : SerdeJson) (fields : List (String × Json)) : Prop extends
    serde.Restores fields where
  oneLine : '\n' ∉ (serde.toString (.object fields)).toList

/-- The acks are written as they are read back. -/
def Readable (serde : SerdeJson) (acks : List PropagationAck) : Prop :=
  ∀ ack ∈ acks, serde.RestoresLine ack.fields ∧ ack.Fits

/-- The text of the log with these acks. -/
def logText (serde : SerdeJson) (acks : List PropagationAck) : String :=
  String.ofList
    ((acks.map (PropagationAck.toJsonBody serde)).flatMap fun line => line.toList ++ ['\n'])

/-- The file has the lines of these acks. -/
def Wrote (serde : SerdeJson) (log : Option (List UInt8)) (acks : List PropagationAck) : Prop :=
  match log with
  | none => acks = []
  | some bytes => bytes = utf8 (logText serde acks)

theorem logText_append (serde : SerdeJson) (acks : List PropagationAck) (ack : PropagationAck) :
    logText serde (acks ++ [ack]) = logText serde acks ++ ackLine serde ack := by
  rw [String.ext_iff, logText, logText, ackLine]
  simp

/-- An empty file has no lines either. -/
theorem Wrote.getD {serde : SerdeJson} {log : Option (List UInt8)} {acks : List PropagationAck}
    (h : Wrote serde log acks) : Wrote serde (some (log.getD [])) acks := by
  cases log with
  | none =>
    rw [show acks = [] from h]
    rfl
  | some bytes => exact h

theorem Wrote.append {serde : SerdeJson} {log : Option (List UInt8)} {acks : List PropagationAck}
    (h : Wrote serde log acks) (ack : PropagationAck) :
    Wrote serde (some (log.getD [] ++ utf8 (ackLine serde ack))) (acks ++ [ack]) := by
  show log.getD [] ++ utf8 (ackLine serde ack) = utf8 (logText serde (acks ++ [ack]))
  rw [show log.getD [] = utf8 (logText serde acks) from h.getD, ← utf8_append, ← logText_append]

/-- A line of the log is not blank, and has no end of a line in it. -/
theorem toJsonBody_line {serde : SerdeJson} {ack : PropagationAck}
    (h : serde.RestoresLine ack.fields) :
    trim (ack.toJsonBody serde) ≠ "" ∧ '\n' ∉ (ack.toJsonBody serde).toList ∧
      (ack.toJsonBody serde).toList.getLast? ≠ some '\r' := by
  obtain ⟨text, htext⟩ := h.braces
  have hlist : (ack.toJsonBody serde).toList = '{' :: (text.toList ++ ['}']) := by
    rw [PropagationAck.toJsonBody, htext]
    simp
  refine ⟨?_, h.oneLine, ?_⟩
  · rw [trim_eq_self]
    · intro hnil
      rw [hnil] at hlist
      cases hlist
    · intro c hc
      rw [hlist] at hc
      cases hc
      decide
    · intro c hc
      rw [hlist, ← List.cons_append, List.getLast?_concat] at hc
      cases hc
      decide
  · rw [hlist, ← List.cons_append, List.getLast?_concat]
    decide

theorem loadLines_toJsonBody {serde : SerdeJson} {acks : List PropagationAck}
    (h : Readable serde acks) (clock : Clock) (loaded : HashMap String PropagationAck) :
    loadLines serde clock (acks.map (PropagationAck.toJsonBody serde)) loaded =
      .ok (acks.foldl (KeepLatest.replay PropagationAck.key PropagationAck.seq) loaded) := by
  induction acks generalizing clock loaded with
  | nil => rfl
  | cons ack acks ih =>
    obtain ⟨hline, hfits⟩ := h ack List.mem_cons_self
    have hparse := parsePropagationAckJson_toJson hline.toRestores hfits clock
    rw [List.map_cons, loadLines, ← bind_assoc, hparse, ok_bind,
      ih fun ack hack => h ack (List.mem_cons_of_mem _ hack)]
    rfl

/-- The log is replayed. -/
theorem load_log {serde : SerdeJson} {log : Option (List UInt8)} {acks : List PropagationAck}
    (hlog : Wrote serde log acks) (h : Readable serde acks) (clock : Clock) :
    loadPropagationAcks serde clock log =
      .ok (acks.foldl (KeepLatest.replay PropagationAck.key PropagationAck.seq) ∅) := by
  cases log with
  | none =>
    rw [show acks = [] from hlog]
    rfl
  | some bytes =>
    have hlines : lines (logText serde acks) = acks.map (PropagationAck.toJsonBody serde) := by
      refine lines_flatMap fun line hline => ?_
      obtain ⟨ack, hack, rfl⟩ := List.mem_map.mp hline
      exact (toJsonBody_line (h ack hack).1).2
    have hall : (acks.map (PropagationAck.toJsonBody serde)).filter (fun line => trim line ≠ "") =
        acks.map (PropagationAck.toJsonBody serde) := by
      refine List.filter_eq_self.mpr fun line hline => ?_
      obtain ⟨ack, hack, rfl⟩ := List.mem_map.mp hline
      exact decide_eq_true (toJsonBody_line (h ack hack).1).1
    rw [show bytes = utf8 (logText serde acks) from hlog]
    unfold loadPropagationAcks
    dsimp only
    rw [fromUtf8_utf8]
    dsimp only
    rw [hlines, hall]
    exact loadLines_toJsonBody h clock ∅

/-! ## One ack -/

section

variable (serde : SerdeJson) (store : AckStore) (ack : PropagationAck)

/-- The store after an ack whose append does not fail. -/
def AckStore.apply : AckStore := (applyPropagationAckToStore .reliable serde store ack).1

theorem applyPropagationAckToStore_reliable :
    ∃ changed, applyPropagationAckToStore .reliable serde store ack =
      (store.apply serde ack, .ok changed) := by
  unfold AckStore.apply applyPropagationAckToStore
  split
  · exact ⟨false, rfl⟩
  · exact ⟨true, rfl⟩

theorem AckStore.apply_cases :
    (KeepLatest.drops PropagationAck.key PropagationAck.seq store.acks ack = true ∧
        store.apply serde ack = store) ∨
      (KeepLatest.drops PropagationAck.key PropagationAck.seq store.acks ack = false ∧
        store.apply serde ack = ⟨some (store.log.getD [] ++ utf8 (ackLine serde ack)),
          store.acks.insert ack.key ack⟩) := by
  cases hdrops : KeepLatest.drops PropagationAck.key PropagationAck.seq store.acks ack with
  | true =>
    refine Or.inl ⟨rfl, ?_⟩
    unfold AckStore.apply applyPropagationAckToStore
    exact congrArg Prod.fst (if_pos hdrops)
  | false =>
    refine Or.inr ⟨rfl, ?_⟩
    unfold AckStore.apply applyPropagationAckToStore
    exact congrArg Prod.fst (if_neg (by rw [Bool.not_eq_true]; exact hdrops))

/-- In memory, the store keeps the latest acks. -/
theorem AckStore.acks_apply : (store.apply serde ack).acks =
    KeepLatest.offer PropagationAck.key PropagationAck.seq store.acks ack := by
  unfold KeepLatest.offer
  rcases store.apply_cases serde ack with ⟨hdrops, heq⟩ | ⟨hdrops, heq⟩
  · rw [heq, if_pos hdrops]
  · rw [heq, if_neg (by rw [hdrops]; decide)]

end

/-- The store after these acks. -/
def AckStore.feed (serde : SerdeJson) (store : AckStore) (acks : List PropagationAck) : AckStore :=
  acks.foldl (AckStore.apply serde) store

/-- A store with nothing in it, before its log is written. -/
def AckStore.empty : AckStore := ⟨none, ∅⟩

/-! ## The latest ack of each relay, agent and shard -/

/-- The store has, for each relay, agent and shard of the acks, an ack with their highest sequence
number, and it has nothing else. -/
structure LatestPerTriple (acks : List PropagationAck) (store : AckStore) : Prop where
  holds : ∀ triple, (∃ ack ∈ acks, ack.triple = triple) → ∃ key held,
    store.acks.lookup key = some held ∧ held.triple = triple ∧
      IsGreatest {seq | ∃ ack ∈ acks, ack.triple = triple ∧ ack.seq = seq} held.seq
  only : ∀ key held, store.acks.lookup key = some held → ∃ ack ∈ acks, ack.triple = held.triple

theorem latest_feed (serde : SerdeJson) (acks : List PropagationAck)
    {before : List PropagationAck} {store : AckStore}
    (h : KeepLatest.Latest PropagationAck.key PropagationAck.seq before store.acks) :
    KeepLatest.Latest PropagationAck.key PropagationAck.seq (before ++ acks)
      (store.feed serde acks).acks := by
  induction acks generalizing before store with
  | nil => rwa [List.append_nil]
  | cons ack acks ih =>
    have hack := h.offer ack
    rw [← AckStore.acks_apply serde] at hack
    have hrest := ih hack
    rwa [List.append_assoc, List.singleton_append] at hrest

/-- The store has the latest ack of each relay, agent and shard exactly if no two of them share a
key. -/
theorem latestPerTriple_iff (serde : SerdeJson) (acks : List PropagationAck) :
    LatestPerTriple acks (AckStore.empty.feed serde acks) ↔
      ∀ a ∈ acks, ∀ b ∈ acks, a.key = b.key → a.triple = b.triple := by
  have hlatest : KeepLatest.Latest PropagationAck.key PropagationAck.seq acks
      (AckStore.empty.feed serde acks).acks := by
    have hempty : KeepLatest.Latest PropagationAck.key PropagationAck.seq [] AckStore.empty.acks :=
      .empty
    exact latest_feed serde acks hempty
  constructor
  · intro h a ha b hb hkey
    obtain ⟨keyA, heldA, hheldA, htripleA, hgreatA⟩ := h.holds a.triple ⟨a, ha, rfl⟩
    obtain ⟨keyB, heldB, hheldB, htripleB, hgreatB⟩ := h.holds b.triple ⟨b, hb, rfl⟩
    -- both are held under the key that they share
    obtain rfl : keyA = keyB := by
      rw [← (hlatest.kept _ _ hheldA).2, ← (hlatest.kept _ _ hheldB).2,
        PropagationAck.key_of_triple htripleA, PropagationAck.key_of_triple htripleB, hkey]
    rw [hheldA] at hheldB
    cases hheldB
    rw [← htripleA, htripleB]
  · intro hkeys
    refine ⟨?_, fun key held hheld => ⟨held, (hlatest.kept key held hheld).1, rfl⟩⟩
    rintro _ ⟨ack, hack, rfl⟩
    obtain ⟨held, hheld, hle⟩ := hlatest.covers ack hack
    obtain ⟨hmem, hkey⟩ := hlatest.kept _ _ hheld
    have htriple := hkeys held hmem ack hack hkey
    refine ⟨ack.key, held, hheld, htriple, ⟨held, hmem, htriple, rfl⟩, ?_⟩
    rintro _ ⟨other, hother, hother', rfl⟩
    obtain ⟨held', hheld', hle'⟩ := hlatest.covers other hother
    rw [PropagationAck.key_of_triple hother', hheld] at hheld'
    cases hheld'
    exact hle'

/-- Two acks of different relays and agents under one key. -/
theorem not_latestPerTriple :
    ∃ acks : List PropagationAck, (∀ ack ∈ acks, ack.Fits) ∧
      ¬LatestPerTriple acks (AckStore.empty.feed (SerdeJson.only []) acks) := by
  refine
    ⟨[⟨"pop", "fra", "node:1", 0, 7, 1, 1, 1⟩, ⟨"pop:node", "fra", "1", 0, 9, 1, 1, 1⟩], ?_, ?_⟩
  · intro ack hack
    rcases List.mem_cons.mp hack with rfl | hack
    · constructor <;> decide
    · rw [List.mem_singleton.mp hack]
      constructor <;> decide
  · intro h
    obtain ⟨key, held, hheld, htriple, -⟩ :=
      h.holds ("pop", "node:1", 0) ⟨_, List.mem_cons_self, rfl⟩
    have hone : ∀ held ∈ (AckStore.empty.feed (SerdeJson.only [])
        [⟨"pop", "fra", "node:1", 0, 7, 1, 1, 1⟩,
          ⟨"pop:node", "fra", "1", 0, 9, 1, 1, 1⟩]).acks.entries.map Sigma.snd,
        held.triple = ("pop:node", "1", 0) := by
      decide +kernel
    rw [hone held (List.mem_map.mpr ⟨_, AList.mem_lookup_iff.mp hheld, rfl⟩)] at htriple
    exact absurd htriple (by decide)

/-! ## Runs -/

/-- The acks of a snapshot, up to the first that is not parsed. -/
def parsedAcks (serde : SerdeJson) : Clock → List Json → List PropagationAck
  | _, [] => []
  | clock, value :: values =>
    match parsePropagationAckJson serde clock value with
    | .error _ => []
    | .ok ack => ack :: parsedAcks serde clock.next values

/-- What happens to a store: an ack comes, a peer's snapshot is read, or the process restarts. -/
inductive AckStep where
  | single (ack : PropagationAck)
  | snapshot (clock : Clock) (body : List UInt8)
  | restart (clock : Clock)

namespace AckStep

/-- The store after a step. A restart whose log cannot be read does not happen. -/
def run (serde : SerdeJson) (store : AckStore) : AckStep → AckStore
  | .single ack => (applyPropagationAckToStore .reliable serde store ack).1
  | .snapshot clock body => (applyPropagationAckLogSnapshot .reliable serde clock store body).1
  | .restart clock =>
    match loadPropagationAcks serde clock store.log with
    | .ok acks => { store with acks }
    | .error _ => store

/-- The acks that a step applies, in order. -/
def acks (serde : SerdeJson) : AckStep → List PropagationAck
  | .single ack => [ack]
  | .snapshot clock body =>
    match parseJsonBody serde body with
    | .error _ => []
    | .ok value => parsedAcks serde clock (((value.get "acks").bind Json.asArray).getD [])
  | .restart _ => []

/-- The stores that a run goes through, also between the acks of a snapshot. -/
def stores (serde : SerdeJson) : AckStore → List AckStep → List AckStore
  | store, [] => [store]
  | store, step :: steps =>
    (step.acks serde).scanl (AckStore.apply serde) store ++
      stores serde (step.run serde store) steps

end AckStep

theorem applyAckValues_fst (serde : SerdeJson) (clock : Clock) (values : List Json) (applied : Nat)
    (store : AckStore) : (applyAckValues .reliable serde clock values applied store).1 =
      store.feed serde (parsedAcks serde clock values) := by
  induction values generalizing clock applied store with
  | nil => rfl
  | cons value values ih =>
    rw [applyAckValues, parsedAcks]
    cases parsePropagationAckJson serde clock value with
    | error err => rfl
    | ok ack =>
      dsimp only
      obtain ⟨changed, happly⟩ := applyPropagationAckToStore_reliable serde store ack
      rw [happly]
      dsimp only
      rw [ih]
      rfl

theorem applyPropagationAckLogSnapshot_fst (serde : SerdeJson) (clock : Clock) (store : AckStore)
    (body : List UInt8) : (applyPropagationAckLogSnapshot .reliable serde clock store body).1 =
      store.feed serde (AckStep.acks serde (.snapshot clock body)) := by
  simp only [applyPropagationAckLogSnapshot, AckStep.acks]
  cases parseJsonBody serde body with
  | error err => rfl
  | ok value =>
    dsimp only
    cases (value.get "acks").bind Json.asArray with
    | none => rfl
    | some values => exact applyAckValues_fst serde clock values 0 store

/-- What is in memory is what the log of some of the acks is replayed to, and it is the latest. -/
structure AckStore.Journaled (serde : SerdeJson) (received : List PropagationAck)
    (store : AckStore) : Prop where
  journal : ∃ journal, Wrote serde store.log journal ∧ (∀ ack ∈ journal, ack ∈ received) ∧
    (journal.foldl (KeepLatest.replay PropagationAck.key PropagationAck.seq) ∅).Same store.acks
  latest : KeepLatest.Latest PropagationAck.key PropagationAck.seq received store.acks

/-- The sequence number of each key is at least what it was. -/
def AckStore.Onward (store store' : AckStore) : Prop :=
  ∀ key held, store.acks.lookup key = some held →
    ∃ held', store'.acks.lookup key = some held' ∧ held.seq ≤ held'.seq

theorem AckStore.Onward.refl (store : AckStore) : store.Onward store :=
  fun _ held hheld => ⟨held, hheld, Nat.le_refl _⟩

theorem AckStore.Onward.trans {store store' store'' : AckStore} (h : store.Onward store')
    (h' : store'.Onward store'') : store.Onward store'' := by
  intro key held hheld
  obtain ⟨held', hheld', hle⟩ := h key held hheld
  obtain ⟨held'', hheld'', hle'⟩ := h' key held' hheld'
  exact ⟨held'', hheld'', hle.trans hle'⟩

theorem AckStore.onward_apply (serde : SerdeJson) (store : AckStore) (ack : PropagationAck) :
    store.Onward (store.apply serde ack) := by
  intro key held hheld
  rw [AckStore.acks_apply]
  exact KeepLatest.le_rank_offer ack hheld

section

variable {serde : SerdeJson} {received : List PropagationAck} {store : AckStore}

theorem AckStore.journaled_empty : AckStore.empty.Journaled serde [] where
  journal := ⟨[], rfl, fun _ h => h, .refl _⟩
  latest := .empty

/-- One ack. The log gets a line exactly if the ack is not dropped. -/
theorem AckStore.Journaled.apply (h : store.Journaled serde received) (ack : PropagationAck) :
    (store.apply serde ack).Journaled serde (received ++ [ack]) where
  journal := by
    obtain ⟨journal, hwrote, hmem, hsame⟩ := h.journal
    rcases store.apply_cases serde ack with ⟨-, heq⟩ | ⟨hdrops, heq⟩
    · rw [heq]
      exact ⟨journal, hwrote, fun ack' hack => List.mem_append_left _ (hmem ack' hack), hsame⟩
    · refine ⟨journal ++ [ack], ?_, ?_, ?_⟩
      · rw [heq]
        exact hwrote.append ack
      · intro ack' hack
        rcases List.mem_append.mp hack with hack | hack
        · exact List.mem_append_left _ (hmem ack' hack)
        · exact List.mem_append_right _ hack
      · rw [List.foldl_append, AckStore.acks_apply]
        exact (KeepLatest.replay_same hsame ack).trans (KeepLatest.offer_same_replay _ ack).symm
  latest := by
    rw [AckStore.acks_apply]
    exact h.latest.offer ack

theorem AckStore.Journaled.feed (h : store.Journaled serde received) (acks : List PropagationAck) :
    (store.feed serde acks).Journaled serde (received ++ acks) := by
  induction acks generalizing received store with
  | nil => rwa [List.append_nil]
  | cons ack acks ih =>
    have hrest := ih (h.apply ack)
    rwa [List.append_assoc, List.singleton_append] at hrest

/-- What a restart would load. -/
theorem AckStore.Journaled.loads (h : store.Journaled serde received)
    (hread : Readable serde received) (clock : Clock) :
    ∃ loaded, loadPropagationAcks serde clock store.log = .ok loaded ∧ loaded.Same store.acks := by
  obtain ⟨journal, hwrote, hmem, hsame⟩ := h.journal
  exact ⟨_, load_log hwrote (fun ack hack => hread ack (hmem ack hack)) clock, hsame⟩

/-- The stores between the acks of a step. -/
theorem AckStore.Journaled.scanl (h : store.Journaled serde received) {acks : List PropagationAck}
    (hread : Readable serde (received ++ acks)) :
    (∀ point ∈ acks.scanl (AckStore.apply serde) store,
        store.Onward point ∧ point.Onward (store.feed serde acks) ∧
          ∀ clock, ∃ loaded, loadPropagationAcks serde clock point.log = .ok loaded ∧
            loaded.Same point.acks) ∧
      (acks.scanl (AckStore.apply serde) store).Pairwise AckStore.Onward := by
  have hloads := h.loads fun ack hack => hread ack (List.mem_append_left _ hack)
  induction acks generalizing received store with
  | nil =>
    rw [List.scanl_nil]
    refine ⟨fun point hpoint => ?_, List.pairwise_singleton _ _⟩
    rw [List.mem_singleton.mp hpoint]
    exact ⟨.refl store, .refl store, hloads⟩
  | cons ack acks ih =>
    have hnext := h.apply ack
    rw [← List.singleton_append, ← List.append_assoc] at hread
    obtain ⟨hpoints, hpairwise⟩ := ih hnext hread
      (hnext.loads fun ack' hack => hread ack' (List.mem_append_left _ hack))
    have honward := store.onward_apply serde ack
    rw [List.scanl_cons]
    refine ⟨fun point hpoint => ?_, List.pairwise_cons.mpr ⟨fun point hpoint => ?_, hpairwise⟩⟩
    · rcases List.mem_cons.mp hpoint with rfl | hpoint
      · have hend := foldl_invariant (fun store' ack hstore =>
          AckStore.Onward.trans hstore (store'.onward_apply serde ack)) honward acks
        exact ⟨.refl _, hend, hloads⟩
      · obtain ⟨hto, hfrom, hload⟩ := hpoints point hpoint
        exact ⟨honward.trans hto, hfrom, hload⟩
    · exact honward.trans (hpoints point hpoint).1

/-- A step keeps the log and the memory together. -/
theorem AckStore.Journaled.run (h : store.Journaled serde received) (step : AckStep)
    (hread : Readable serde received) :
    (step.run serde store).Journaled serde (received ++ step.acks serde) ∧
      (store.feed serde (step.acks serde)).Onward (step.run serde store) := by
  cases step with
  | single ack => exact ⟨h.apply ack, .refl _⟩
  | snapshot clock body =>
    rw [AckStep.run, applyPropagationAckLogSnapshot_fst]
    exact ⟨h.feed _, .refl _⟩
  | restart clock =>
    obtain ⟨loaded, hload, hsame⟩ := h.loads hread clock
    obtain ⟨journal, hwrote, hmem, hjournal⟩ := h.journal
    rw [AckStep.run, hload, AckStep.acks, List.append_nil]
    refine ⟨⟨⟨journal, hwrote, hmem, hjournal.trans hsame.symm⟩, h.latest.same hsame.symm⟩, ?_⟩
    intro key held hheld
    exact ⟨held, (hsame key).trans hheld, Nat.le_refl _⟩

end

/-- The acks that the steps of a run apply, in order. -/
def receivedAcks (serde : SerdeJson) (steps : List AckStep) : List PropagationAck :=
  steps.flatMap (AckStep.acks serde)

/-- The store at the end of a run from a store with nothing in it. -/
def ackStoreAfter (serde : SerdeJson) (steps : List AckStep) : AckStore :=
  steps.foldl (AckStep.run serde) .empty

/-- What a run keeps: each store that it goes through can be loaded, and the stores go onward. -/
theorem AckStore.Journaled.stores {serde : SerdeJson} {steps : List AckStep}
    {received : List PropagationAck} {store : AckStore} (h : store.Journaled serde received)
    (hread : Readable serde (received ++ receivedAcks serde steps)) :
    (steps.foldl (AckStep.run serde) store).Journaled serde (received ++ receivedAcks serde steps) ∧
      (∀ point ∈ AckStep.stores serde store steps, store.Onward point ∧
        ∀ clock, ∃ loaded, loadPropagationAcks serde clock point.log = .ok loaded ∧
          loaded.Same point.acks) ∧
      (AckStep.stores serde store steps).Pairwise AckStore.Onward := by
  have hnow : Readable serde received := fun ack hack => hread ack (List.mem_append_left _ hack)
  induction steps generalizing received store with
  | nil =>
    rw [receivedAcks, List.flatMap_nil, List.append_nil, AckStep.stores]
    refine ⟨h, fun point hpoint => ?_, List.pairwise_singleton _ _⟩
    rw [List.mem_singleton.mp hpoint]
    exact ⟨.refl store, h.loads hnow⟩
  | cons step steps ih =>
    rw [receivedAcks, List.flatMap_cons, ← List.append_assoc] at hread ⊢
    have hstep : Readable serde (received ++ step.acks serde) := fun ack hack =>
      hread ack (List.mem_append_left _ hack)
    obtain ⟨hjournaled, hend⟩ := h.run step hnow
    obtain ⟨hwithin, hwithin'⟩ := h.scanl hstep
    obtain ⟨hfinal, hafter, hafter'⟩ := ih hjournaled hread hstep
    rw [AckStep.stores]
    have hcross : ∀ point ∈ (step.acks serde).scanl (AckStore.apply serde) store,
        ∀ point' ∈ AckStep.stores serde (step.run serde store) steps, point.Onward point' :=
      fun point hpoint point' hpoint' =>
        ((hwithin point hpoint).2.1.trans hend).trans (hafter point' hpoint').1
    refine ⟨hfinal, fun point hpoint => ?_, List.pairwise_append.mpr ⟨hwithin', hafter', hcross⟩⟩
    rcases List.mem_append.mp hpoint with hpoint | hpoint
    · exact ⟨(hwithin point hpoint).1, (hwithin point hpoint).2.2⟩
    · have hstart : store ∈ (step.acks serde).scanl (AckStore.apply serde) store := by
        cases step.acks serde <;> simp
      exact ⟨hcross store hstart point hpoint, (hafter point hpoint).2⟩

/-- Whatever is parsed can be read back. -/
theorem parsedAcks_fits {serde : SerdeJson} {clock : Clock} {values : List Json} :
    ∀ ack ∈ parsedAcks serde clock values, ack.Fits := by
  induction values generalizing clock with
  | nil => exact fun ack hack => (by cases hack)
  | cons value values ih =>
    intro ack hack
    rw [parsedAcks] at hack
    split at hack
    · cases hack
    · rename_i first hparse
      rcases List.mem_cons.mp hack with rfl | hack
      · obtain ⟨form, -, hform⟩ := bind_eq_ok.mp hparse
        exact PropagationAck.fromJsonFields_fits hform
      · exact ih ack hack

/-- Over a run of single acks, peers' snapshots and restarts, what a restart would load is always
what is in memory, the sequence number of a key does not go down, and it is the highest of those
that were received for the key, in whatever order. -/
theorem ackLog_replays (serde : SerdeJson) (steps : List AckStep)
    (hsingle : ∀ ack, .single ack ∈ steps → ack.Fits)
    (hserde : ∀ ack ∈ receivedAcks serde steps, serde.RestoresLine ack.fields) :
    (∀ store ∈ AckStep.stores serde .empty steps, ∀ clock,
        ∃ loaded, loadPropagationAcks serde clock store.log = .ok loaded ∧
          loaded.Same store.acks) ∧
      (AckStep.stores serde .empty steps).Pairwise AckStore.Onward ∧
      (∀ key held, (ackStoreAfter serde steps).acks.lookup key = some held →
        IsGreatest {seq | ∃ ack ∈ receivedAcks serde steps, ack.key = key ∧ ack.seq = seq}
          held.seq) ∧
      ∀ steps', (receivedAcks serde steps').Perm (receivedAcks serde steps) → ∀ key,
        ((ackStoreAfter serde steps').acks.lookup key).map PropagationAck.seq =
          ((ackStoreAfter serde steps).acks.lookup key).map PropagationAck.seq := by
  have hread : Readable serde (receivedAcks serde steps) := by
    intro ack hack
    refine ⟨hserde ack hack, ?_⟩
    obtain ⟨step, hstep, hack⟩ := List.mem_flatMap.mp hack
    cases step with
    | single ack' =>
      rw [List.mem_singleton.mp hack]
      exact hsingle ack' hstep
    | snapshot clock body =>
      simp only [AckStep.acks] at hack
      split at hack
      · cases hack
      · exact parsedAcks_fits ack hack
    | restart clock => cases hack
  have hrun : ∀ steps', (∀ ack ∈ receivedAcks serde steps', ack ∈ receivedAcks serde steps) →
      (ackStoreAfter serde steps').Journaled serde (receivedAcks serde steps') := by
    intro steps' hsub
    have hread' : Readable serde ([] ++ receivedAcks serde steps') := fun ack hack =>
      hread ack (hsub ack hack)
    exact (AckStore.journaled_empty.stores hread').1
  obtain ⟨hfinal, hpoints, hpairwise⟩ := AckStore.journaled_empty.stores hread
  refine ⟨fun point hpoint => (hpoints point hpoint).2, hpairwise, ?_, ?_⟩
  · exact fun key held hheld => hfinal.latest.isGreatest hheld
  · intro steps' hperm
    exact (hrun steps' fun ack => hperm.mem_iff.mp).latest.rank_eq hfinal.latest
      fun ack => hperm.mem_iff

/-- An ack of a node. -/
def nodeAck : PropagationAck := ⟨"pop", "fra", "node", 7, 42, 11, 1002, 1003⟩

/-! Two acks of a node: the first one comes, a peer's snapshot has a later one and the first one again, and
the process restarts. -/

namespace TwoAcks

def laterAck : PropagationAck := { nodeAck with seq := 43, entries := 12 }

/-- The sequence number in braces stands for the text of an ack. -/
def printer : SerdeJson where
  toString
    | .object fields =>
      match fields.lookup "seq" with
      | some (.number text) => "\x7b" ++ text ++ "\x7d"
      | _ => "\x7b\x7d"
    | _ => ""
  fromStr text :=
    if text = "snapshot" then
      .ok (.object [("acks", .array [.object laterAck.fields, .object nodeAck.fields])])
    else if text = "\x7b43\x7d" then .ok (.object laterAck.fields)
    else .ok (.object nodeAck.fields)

def steps : List AckStep :=
  [.single nodeAck, .snapshot (fun _ => 0) (utf8 "snapshot"), .restart fun _ => 0]

theorem received : receivedAcks printer steps = [nodeAck, laterAck, nodeAck] := by decide +kernel

theorem restoresLine {ack : PropagationAck} (h : ack ∈ receivedAcks printer steps) :
    printer.RestoresLine ack.fields := by
  rw [received] at h
  have hack : ack = nodeAck ∨ ack = laterAck := by simpa [or_comm, or_assoc] using h
  rcases hack with rfl | rfl
  · have hparse : printer.fromStr (printer.toString (.object nodeAck.fields)) =
        .ok (.object nodeAck.fields) := by
      simp only [printer]
      rw [if_neg (by decide +kernel), if_neg (by decide +kernel)]
    exact {
      braces := ⟨"42", by decide +kernel⟩
      parse := ⟨nodeAck.fields, hparse, .refl _⟩
      oneLine := by decide +kernel }
  · have hparse : printer.fromStr (printer.toString (.object laterAck.fields)) =
        .ok (.object laterAck.fields) := by
      simp only [printer]
      rw [if_neg (by decide +kernel), if_pos (by decide +kernel)]
    exact {
      braces := ⟨"43", by decide +kernel⟩
      parse := ⟨laterAck.fields, hparse, .refl _⟩
      oneLine := by decide +kernel }

end TwoAcks

open TwoAcks in
theorem ackLog_replays_twoAcks :
    (∀ store ∈ AckStep.stores printer .empty steps, ∀ clock,
        ∃ loaded, loadPropagationAcks printer clock store.log = .ok loaded ∧
          loaded.Same store.acks) ∧
      (AckStep.stores printer .empty steps).Pairwise AckStore.Onward ∧
      (∀ held, (ackStoreAfter printer steps).acks.lookup nodeAck.key = some held →
        IsGreatest {seq | ∃ ack ∈ [nodeAck, laterAck, nodeAck], ack.key = nodeAck.key ∧ ack.seq = seq}
          held.seq) ∧
      ∀ steps', (receivedAcks printer steps').Perm [nodeAck, laterAck, nodeAck] →
        ((ackStoreAfter printer steps').acks.lookup nodeAck.key).map PropagationAck.seq = some 43 := by
  have hfits : ∀ ack, .single ack ∈ steps → ack.Fits := fun ack hack => by
    have hack : ack = nodeAck := by simpa [steps] using hack
    rw [hack]
    constructor <;> decide
  obtain ⟨hloads, honward, hgreatest, hperm⟩ :=
    ackLog_replays printer steps hfits fun _ hack => restoresLine hack
  rw [received] at hgreatest hperm
  refine ⟨hloads, honward, hgreatest nodeAck.key, fun steps' h => ?_⟩
  rw [hperm steps' h]
  decide +kernel

end Globacl
