import Globacl.Core.Connections
import Globacl.Edge.ActiveState

/-!
# The decisions that an agent serves (`globacl-agent/src/app/routes.rs`)

An agent answers a point lookup and a check over HTTP with the decision as a JSON object
(`format_decision` in `globacl-core/src/lib/nats.rs`).
-/

namespace Globacl

open Lib

/-- The object of `format_decision`. -/
def decisionFields : Decision → List (String × Json)
  | .allow => [("decision", .string "allow")]
  | .deny reasonCode priority commitId =>
    [("decision", .string "deny"), ("reason_code", .string reasonCode),
      ("priority", .ofNat priority), ("shard_id", .ofNat commitId.shardId),
      ("seq", .ofNat commitId.seq), ("epoch", .ofNat commitId.epoch)]

/-- `format_decision`. -/
def formatDecision (serde : SerdeJson) (decision : Decision) : String :=
  serde.toString (.object (decisionFields decision))

/-- `required_query`. -/
def requiredQuery (query : Form) (key : String) : Result String :=
  match (query.lookup key).filter fun value => value ≠ "" with
  | some value => .ok value
  | none => .error (.parse s!"missing query parameter {key}")

section Routes

variable (serde : SerdeJson) (ord : IterOrder) (state : ActiveState) (nowUnix : Nat)

/-- `GET /v1/lookup`. -/
def getLookup (query : Form) : Result Reply := do
  let tenantId ← requiredQuery query "tenant_id"
  let namespace' ← requiredQuery query "namespace"
  let key ← requiredQuery query "key"
  let decision := state.lookup tenantId namespace' key nowUnix
  pure ⟨200, .json, utf8 (formatDecision serde decision)⟩

/-- `GET /v1/check`. -/
def getCheck (query : Form) : Result Reply := do
  let tenantId ← requiredQuery query "tenant_id"
  let namespace' ← requiredQuery query "namespace"
  let value ←
    match ((query.lookup "value").or (query.lookup "key")).filter fun value => value ≠ "" with
    | some value => .ok value
    | none => .error (.parse "missing query parameter value")
  let decision := state.check ord tenantId namespace' value nowUnix
  pure ⟨200, .json, utf8 (formatDecision serde decision)⟩

/-- `handle_connection` of an agent, once the request is read, with what it answers on its other
routes. -/
def agentService (others : HttpRequest → Result Reply) : Service Unit := fun request _ =>
  (do
    let (route, query) ← parseQueryPath request.path
    if request.method = "GET" ∧ route = "/v1/lookup" then getLookup serde state nowUnix query
    else if request.method = "GET" ∧ route = "/v1/check" then getCheck serde ord state nowUnix query
    else others request, ())

end Routes

/-! ## What a decision of an agent carries -/

/-- A decision of an edge: it does not know the epoch and the region of the commit. -/
structure Decision.OfEdge (decision : Decision) : Prop where
  commitId : ∀ reasonCode priority commitId, decision = .deny reasonCode priority commitId →
    commitId.epoch = 1 ∧ commitId.sourceRegion = ""

theorem ofEdge_allow : Decision.allow.OfEdge := ⟨fun _ _ _ h => by cases h⟩

theorem ofEdge_deny (reasonCode : String) (priority shardId seq : Nat) :
    (Decision.deny reasonCode priority ⟨shardId, seq, 1, ""⟩).OfEdge :=
  ⟨fun _ _ _ h => by cases h; exact ⟨rfl, rfl⟩⟩

theorem ofEdge_decisionForEntry (entry : Option DenyEntry) (nowUnix : Nat) :
    (decisionForEntry entry nowUnix).OfEdge := by
  unfold decisionForEntry
  split
  · exact ofEdge_allow
  · split
    · exact ofEdge_allow
    · split
      · exact ofEdge_deny _ _ _ _
      · exact ofEdge_allow
      · exact ofEdge_allow

theorem ofEdge_intoDecision (best : RuleMatch) : best.intoDecision.OfEdge := by
  unfold RuleMatch.intoDecision
  split
  · exact ofEdge_allow
  · split
    · exact ofEdge_deny _ _ _ _
    · exact ofEdge_allow
    · exact ofEdge_allow

theorem ActiveState.ofEdge_lookup (a : ActiveState) (tenantId namespace' rawKey : String)
    (nowUnix : Nat) : (a.lookup tenantId namespace' rawKey nowUnix).OfEdge := by
  rw [a.lookup_eq]
  exact ofEdge_decisionForEntry _ nowUnix

theorem ActiveState.ofEdge_check (ord : IterOrder) (a : ActiveState)
    (tenantId namespace' rawValue : String) (nowUnix : Nat) :
    (a.check ord tenantId namespace' rawValue nowUnix).OfEdge := by
  unfold check
  dsimp only
  split
  · exact a.ofEdge_lookup tenantId namespace' rawValue nowUnix
  · exact ofEdge_intoDecision _

end Globacl
