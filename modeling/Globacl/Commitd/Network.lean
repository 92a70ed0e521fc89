import Mathlib.Data.List.Forall2
import Globacl.Commitd.Election
import Globacl.Commitd.Wire

/-!
# A cluster whose nodes listen (`globacl-commitd/src/app/bootstrap.rs`, `routes.rs`)

In a `Cluster` a section that starts with a message needs a message that was sent. A node that listens
starts it with whatever arrives on a connection. Nobody but the nodes has the token, so that a message
with the token is one that a node has sent.

* `Cluster.listen`: a connection to a node, or an event that needs none.
* `Cluster.Guarded`: the messages with the token come from the nodes.
* `Cluster.listening_refines`: a run of listening nodes is a run of the cluster.
-/

namespace Globacl

open Lib

namespace Cluster

/-- What happens next at nodes that listen. -/
inductive Input where
  /-- All that arrives on a connection to a node. -/
  | connect (n : String) (reads : List (List UInt8))
  /-- An event within the nodes, the requests of clients included. -/
  | inner (event : Event)

section Listening

variable (mem : Membership) (serde : SerdeJson) (token : String)

/-- What the handling of a request does to the node. -/
def handle (c : Cluster) (n : String) : Handling → Cluster
  | .runs e => c.runSection n e
  | .adopts term _ =>
    let p := c.nodes n
    -- the file keeps the lower term
    { c with
      nodes := Function.update c.nodes n
        { p with app := { p.app with consensus := adoptTerm p.app.consensus term } } }
  | .refuses | .fails _ | .elsewhere => c

/-- One step of nodes that listen. -/
def listen (c : Cluster) : Input → Cluster
  | .connect n reads =>
    if n ∈ mem.peers then
      match readHttpRequest reads with
      | .error _ => c
      | .ok request =>
        c.handle n
          (handlePeerRequest serde (some token) (c.nodes n).app.config.replication request)
    else c
  | .inner event => c.act mem event

/-- A node of the cluster has sent the message. -/
def Said (c : Cluster) : PeerMessage → Prop
  | .requestVote req => req ∈ c.requests
  | .heartbeat hb => hb ∈ c.heartbeats
  | .prepare m leaderId => (.prepare, m, leaderId) ∈ c.replications
  | .commit m leaderId => (.commit true, m, leaderId) ∈ c.replications
  | .abort m leaderId => (.abort, m, leaderId) ∈ c.replications

/-- What arrives on a connection is a message of a node, in any chunks and possibly cut off. -/
structure Arrives (c : Cluster) (msg : PeerMessage) (reads : List (List UInt8)) : Prop where
  said : c.Said msg
  fits : msg.Fits
  restored : msg.Restored serde
  size : (msg.body serde).length < 2 ^ 64
  sent : ∃ (connect : String → Result Unit) (addr : String) (sent : List UInt8),
    (connect addr = .ok () → '\r' ∉ addr.toList ∧ '\n' ∉ addr.toList) ∧
      msg.sent serde connect addr (some token) = .ok sent ∧ reads.flatten <+: sent
  chunks : ∀ chunk ∈ reads, chunk ≠ []

/-- Whoever sends a message with the token is a node. -/
def Guarded (c : Cluster) : Input → Prop
  | .connect _ reads =>
    ∀ request, readHttpRequest reads = .ok request → request.CarriesMessage token →
      ∃ msg, Arrives serde token c msg reads
  | .inner _ => True

/-- The events of the cluster that a step of listening nodes stands for. -/
inductive Explains : Input → List Event → Prop
  | inner (event : Event) : Explains (.inner event) [event]
  | nothing (n : String) (reads : List (List UInt8)) : Explains (.connect n reads) []
  | message (n : String) (reads : List (List UInt8)) (msg : PeerMessage) :
    Explains (.connect n reads) [.run n msg.starts]

variable {mem serde token} {c : Cluster}

/-- A message that was sent is what its section needs from the others. -/
theorem Said.offers {msg : PeerMessage} (h : c.Said msg) (n : String) :
    c.offers mem n msg.starts := by
  cases msg <;> exact h

/-- A message of a node is an event of the cluster, or the peer does not accept it. -/
theorem handle_arrives (htoken : trim token = token) {n : String} (hn : n ∈ mem.peers)
    {msg : PeerMessage} {reads : List (List UInt8)} (h : Arrives serde token c msg reads)
    {request : HttpRequest} (hread : readHttpRequest reads = .ok request) :
    c.handle n (handlePeerRequest serde (some token) (c.nodes n).app.config.replication request) = c ∨
      c.handle n (handlePeerRequest serde (some token) (c.nodes n).app.config.replication request) =
        c.act mem (.run n msg.starts) := by
  obtain ⟨connect, addr, sent, hconnect, hsent, hreads⟩ := h.sent
  rw [handlePeerRequest_of_read hconnect htoken h.restored h.fits h.size hsent hreads h.chunks
    hread]
  cases msg.check (c.nodes n).app.config.replication with
  | error err => exact Or.inl rfl
  | ok =>
    right
    show c.runSection n msg.starts =
      if n ∈ mem.peers ∧ c.offers mem n msg.starts then c.runSection n msg.starts else c
    rw [if_pos ⟨hn, h.said.offers n⟩]

theorem listen_explained (htoken : trim token = token) {input : Input}
    (h : Guarded serde token c input) :
    ∃ events, Explains input events ∧ c.listen mem serde token input = c.acts mem events := by
  cases input with
  | inner event => exact ⟨[event], .inner event, rfl⟩
  | connect n reads =>
    by_cases hn : n ∈ mem.peers
    · cases hread : readHttpRequest reads with
      | error err =>
        have hlisten : c.listen mem serde token (.connect n reads) = c := by
          simp only [listen, if_pos hn, hread]
        exact ⟨[], .nothing n reads, hlisten⟩
      | ok request =>
        have hlisten : c.listen mem serde token (.connect n reads) = c.handle n
            (handlePeerRequest serde (some token) (c.nodes n).app.config.replication request) := by
          simp only [listen, if_pos hn, hread]
        rw [hlisten]
        by_cases hcarries : request.CarriesMessage token
        · obtain ⟨msg, harrives⟩ := h request hread hcarries
          rcases handle_arrives htoken hn harrives hread with hsame | hrun
          · exact ⟨[], .nothing n reads, hsame⟩
          · exact ⟨[.run n msg.starts], .message n reads msg, hrun⟩
        · -- without the token, or elsewhere, nothing is started
          refine ⟨[], .nothing n reads, ?_⟩
          rcases handlePeerRequest_quiet hcarries with ⟨err, hquiet⟩ | hquiet | hquiet <;>
            · rw [hquiet]
              rfl
    · have hlisten : c.listen mem serde token (.connect n reads) = c := by
        simp only [listen, if_neg hn]
      exact ⟨[], .nothing n reads, hlisten⟩

/-- Whatever arrives at nodes that listen, as long as nobody else has the token: they are left as by
a run of the cluster, in which each section that starts with a message is about a message that a node
has sent. -/
theorem listening_refines (htoken : trim token = token) {inputs : List Input}
    (h : Along (listen mem serde token) (Guarded serde token) c inputs) :
    ∃ events, List.Forall₂ Explains inputs events ∧
      inputs.foldl (listen mem serde token) c = c.acts mem events.flatten := by
  induction inputs generalizing c with
  | nil => exact ⟨[], .nil, rfl⟩
  | cons input inputs ih =>
    obtain ⟨hinput, hinputs⟩ := h
    obtain ⟨first, hfirst, hstep⟩ := @listen_explained mem serde token c htoken input hinput
    obtain ⟨rest, hrest, hrun⟩ := ih hinputs
    refine ⟨first :: rest, .cons hfirst hrest, ?_⟩
    have happend : c.acts mem (first :: rest).flatten = (c.acts mem first).acts mem rest.flatten := by
      rw [List.flatten_cons]
      exact List.foldl_append
    rw [List.foldl_cons, hrun, hstep, happend]

/-- The events within the nodes need no token. -/
theorem along_inner (events : List Event) :
    Along (listen mem serde token) (Guarded serde token) c (events.map .inner) := by
  induction events generalizing c with
  | nil => trivial
  | cons event events ih => exact ⟨trivial, ih⟩

end Listening

/-! A leader is elected, and one of the others reads its heartbeat in two chunks. -/

namespace OneHeartbeat

def addr : String := "10.0.0.3:7003"
def heartbeat : Heartbeat := ⟨ThreeNodes.shared.clusterId, 2, "node-1"⟩
def message : PeerMessage := .heartbeat heartbeat
def serde : SerdeJson := .only heartbeat.fields

def sent : List UInt8 :=
  utf8 (crlfText (postLines addr message.path (message.body serde).length
    (message.headers (some OnePrepare.token)) ++ [""])) ++ message.body serde

def reads : List (List UInt8) := [sent.take 100, sent.drop 100]

def before : List Event :=
  ThreeNodes.elect "node-1" 2 "node-2" ⟨0, 0, [0, 0]⟩ ++ [.sendHeartbeats "node-1"]

def inputs : List Input := before.map .inner ++ [.connect "node-3" reads]

theorem arrives : Arrives serde OnePrepare.token
    ((before.map .inner).foldl (listen ThreeNodes.shared serde OnePrepare.token)
      (ThreeNodes.cluster none)) message reads where
  said := by
    show heartbeat ∈ _
    decide +kernel
  fits := show 2 < 2 ^ 64 by decide
  restored := SerdeJson.only_restores heartbeat.fields
  size := by decide +kernel
  sent := ⟨TwoReads.connect, addr, sent, TwoReads.connect_oneLine addr, by decide +kernel,
    by decide +kernel⟩
  chunks := by decide +kernel

theorem guarded : Along (listen ThreeNodes.shared serde OnePrepare.token)
    (Guarded serde OnePrepare.token) (ThreeNodes.cluster none) inputs :=
  along_append.mpr ⟨along_inner before, fun _ _ _ => ⟨message, arrives⟩, trivial⟩

end OneHeartbeat

open OneHeartbeat in
theorem listening_refines_heartbeat :
    ∃ events, List.Forall₂ Explains inputs events ∧
      inputs.foldl (listen ThreeNodes.shared serde OnePrepare.token) (ThreeNodes.cluster none) =
        (ThreeNodes.cluster none).acts ThreeNodes.shared events.flatten :=
  listening_refines (by decide +kernel) guarded

end Cluster

end Globacl
