import Globacl.Commitd.Sections
import Globacl.Control.Hop

/-!
# What the nodes post to each other (`globacl-commitd/src/app/consensus.rs`, `config.rs`, `routes.rs`)

The nodes of a cluster are servers and clients of each other. A vote request and a heartbeat are JSON
objects, a mutation is sent in its own format, and each request has the token of the cluster in a
header. What a node reads comes in chunks of any size and may have been cut off on the way.

* `readHttpRequest_post_read`: what is read of a POST that was sent.
* `constantTimeEq_iff`: the token is compared as a whole.
* `peerMessage_delivered`: the section that a message starts on another node is about this message.
-/

namespace Globacl

open Lib

/-! ## What is read of a request -/

section Reads

variable {reads : List (List UInt8)}

/-- What is read of a POST, in full or cut off, is the POST. -/
theorem readHttpRequest_post_read {connect : String → Result Unit} {addr path : String}
    {headers : List (String × String)} {body sent : List UInt8} {request : HttpRequest}
    (hconnect : connect addr = .ok () → '\r' ∉ addr.toList ∧ '\n' ∉ addr.toList)
    (hpath : IsWord path) (hown : ∀ name ∈ headerNames headers, name ∉ ownNames)
    (hfit : body.length < 2 ^ 64)
    (hsent : httpPostWithHeaders connect addr path body headers = .ok sent)
    (hreads : reads.flatten <+: sent) (hchunks : ∀ chunk ∈ reads, chunk ≠ [])
    (h : readHttpRequest reads = .ok request) :
    request = ⟨"POST", path, readFields (postFields addr body.length headers) ∅, body⟩ := by
  obtain ⟨more, hall, hnonempty⟩ := exists_rest hreads hchunks
  have hmore := readHttpRequest_append h more
  rcases readHttpRequest_sentPost hconnect hpath hown hfit hsent hall hnonempty with
    hread | ⟨-, err, herr⟩
  · rw [hread] at hmore
    exact (Except.ok.inj hmore).symm
  · rw [herr] at hmore
    cases hmore

end Reads

/-! ## The token -/

def peerTokenHeader : String := "X-Globacl-Peer-Token"
def leaderIdHeader : String := "X-Globacl-Leader-Id"

/-- `constant_time_eq`. -/
def constantTimeEq (left right : List UInt8) : Bool :=
  (List.range (max left.length right.length)).foldl
    (fun diff index => diff ||| (left.getD index 0 ^^^ right.getD index 0).toNat)
    (left.length ^^^ right.length) == 0

/-- Nothing is set in a fold of `or` exactly if nothing was set in any of its parts. -/
theorem foldl_or_eq_zero {α : Type} (f : α → Nat) (l : List α) (n : Nat) :
    l.foldl (fun diff a => diff ||| f a) n = 0 ↔ n = 0 ∧ ∀ a ∈ l, f a = 0 := by
  induction l generalizing n with
  | nil => simp
  | cons a l ih =>
    rw [List.foldl_cons, ih, Nat.or_eq_zero_iff, and_assoc, List.forall_mem_cons]

theorem natXor_eq_zero (m n : Nat) : m ^^^ n = 0 ↔ m = n := by
  constructor
  · intro h
    apply Nat.eq_of_testBit_eq
    intro i
    have hbit := congrArg (fun k => k.testBit i) h
    simpa [Nat.testBit_xor] using hbit
  · rintro rfl
    exact Nat.xor_self m

theorem constantTimeEq_iff (left right : List UInt8) :
    constantTimeEq left right = true ↔ left = right := by
  unfold constantTimeEq
  rw [beq_iff_eq, foldl_or_eq_zero, natXor_eq_zero]
  constructor
  · rintro ⟨hlength, hbytes⟩
    refine List.ext_getElem hlength fun i hi hi' => ?_
    have hbyte := hbytes i (List.mem_range.mpr (lt_max_of_lt_left hi))
    rw [UInt8.toNat_xor, natXor_eq_zero, UInt8.toNat_inj] at hbyte
    rwa [List.getD_eq_getElem?_getD, List.getD_eq_getElem?_getD, List.getElem?_eq_getElem hi,
      List.getElem?_eq_getElem hi', Option.getD_some, Option.getD_some] at hbyte
  · rintro rfl
    exact ⟨rfl, fun i _ => by rw [UInt8.xor_self]; rfl⟩

/-- `require_peer_token`, whether the request is let through. -/
def requirePeerToken (peerToken : Option String) (request : HttpRequest) : Bool :=
  match peerToken with
  | none => true
  | some expected =>
    constantTimeEq (utf8 ((request.header peerTokenHeader).getD "")) (utf8 expected)

/-- A request is let through exactly with the token. -/
theorem requirePeerToken_iff {token : String} {request : HttpRequest} :
    requirePeerToken (some token) request = true ↔
      (request.header peerTokenHeader).getD "" = token := by
  unfold requirePeerToken
  rw [constantTimeEq_iff]
  refine ⟨fun h => ?_, fun h => by rw [h]⟩
  have htext := congrArg fromUtf8 h
  rw [fromUtf8_utf8, fromUtf8_utf8] at htext
  exact Option.some.inj htext

/-! ## The objects -/

/-- `parse_json_u64`. -/
def parseJsonU64 (form : Form) (key : String) (default : Nat) : Result Nat :=
  match form.lookup key with
  | none => .ok default
  | some value =>
    match parseUnsigned (2 ^ 64 - 1) value with
    | .ok n => .ok n
    | .error err => .error (.parse s!"invalid {key}: {err}")

/-- `Value::as_u64`. -/
def Json.asU64 : Json → Option Nat
  | .number text => (parseUnsigned (2 ^ 64 - 1) text).toOption
  | _ => none

/-- The loop of `vote_watermarks`. -/
def readWatermarks (values : List Json) : Result (List Nat) :=
  values.mapM fun value =>
    match value.asU64 with
    | some n => .ok n
    | none => .error (.parse "vote watermarks must contain unsigned integers")

/-- `vote_watermarks`. -/
def voteWatermarks (serde : SerdeJson) (form : Form) : Result (Option (List Nat)) :=
  match (form.lookup "watermarks").filter fun value => value ≠ "" with
  | none => .ok none
  | some raw => do
    let value ← parseJsonBody serde (utf8 raw)
    match value.asArray with
    | none => .error (.parse "vote watermarks must be a JSON array")
    | some values => do
      let watermarks ← readWatermarks values
      pure (some watermarks)

/-- `handle_request_vote` up to `local_log_status`: the request without its watermarks. -/
def readVoteRequest (cfg : ReplicationConfig) (form : Form) : Result VoteRequest := do
  let clusterId := (form.lookup "cluster_id").getD ""
  ensurePeerCluster cfg clusterId
  let term ← parseJsonU64 form "term" 0
  let candidateId := (form.lookup "candidate_id").getD ""
  ensureRemotePeerId cfg "candidate_id" candidateId "vote candidate"
  let lastSeq ← parseJsonU64 form "last_seq" 0
  let logLen ← parseJsonU64 form "log_len" 0
  pure { clusterId, term, candidateId, lastSeq, logLen, watermarks := none }

/-- `handle_heartbeat` up to its lock. -/
def readHeartbeat (cfg : ReplicationConfig) (form : Form) : Result Heartbeat := do
  let clusterId := (form.lookup "cluster_id").getD ""
  ensurePeerCluster cfg clusterId
  let term ← parseJsonU64 form "term" 0
  let leaderId := (form.lookup "leader_id").getD ""
  ensureRemotePeerId cfg "leader_id" leaderId "heartbeat leader"
  pure { clusterId, term, leaderId }

/-- The object that `start_election` sends. -/
def VoteRequest.fields (req : VoteRequest) : List (String × Json) :=
  [("cluster_id", .string req.clusterId), ("term", .ofNat req.term),
    ("candidate_id", .string req.candidateId), ("last_seq", .ofNat req.lastSeq),
    ("log_len", .ofNat req.logLen), ("watermarks", .array ((req.watermarks.getD []).map .ofNat))]

/-- The object that `send_heartbeats` sends. -/
def Heartbeat.fields (hb : Heartbeat) : List (String × Json) :=
  [("cluster_id", .string hb.clusterId), ("term", .ofNat hb.term), ("leader_id", .string hb.leaderId)]

/-- An array is printed in brackets, and its text is read as the array. -/
structure SerdeJson.RestoresArray (serde : SerdeJson) (values : List Json) : Prop where
  brackets : ∃ text, serde.toString (.array values) = "[" ++ text ++ "]"
  parse : serde.fromStr (serde.toString (.array values)) = .ok (.array values)

theorem parseJsonU64_of_lookup {form : Form} {key : String} {n : Nat}
    (h : form.lookup key = some (toString n)) (hn : n < 2 ^ 64) (default : Nat) :
    parseJsonU64 form key default = .ok n := by
  unfold parseJsonU64
  rw [h]
  dsimp only
  rw [parseUnsigned_toString (by omega)]

theorem readWatermarks_ofNat {watermarks : List Nat} (h : ∀ n ∈ watermarks, n < 2 ^ 64) :
    readWatermarks (watermarks.map .ofNat) = .ok watermarks := by
  induction watermarks with
  | nil => rfl
  | cons n watermarks ih =>
    have hn : (Json.ofNat n).asU64 = some n := by
      unfold Json.ofNat Json.asU64
      dsimp only
      rw [parseUnsigned_toString (by have := h n List.mem_cons_self; omega)]
      rfl
    have hrest := ih fun k hk => h k (List.mem_cons_of_mem _ hk)
    unfold readWatermarks at hrest ⊢
    rw [List.map_cons, List.mapM_cons, hn]
    dsimp only
    rw [ok_bind, hrest, ok_bind]
    rfl

/-! ## The requests -/

/-- What a node posts to a peer. -/
inductive PeerMessage where
  | requestVote (req : VoteRequest)
  | heartbeat (hb : Heartbeat)
  | prepare (m : Mutation) (leaderId : String)
  | commit (m : Mutation) (leaderId : String)
  | abort (m : Mutation) (leaderId : String)

/-- `peer_headers`. -/
def peerHeaders (peerToken : Option String) : List (String × String) :=
  (peerToken.map fun token => (peerTokenHeader, token)).toList

/-- `replication_header_values`. -/
def replicationHeaderValues (peerToken : Option String) (nodeId : String) : List (String × String) :=
  peerHeaders peerToken ++ [(leaderIdHeader, nodeId)]

namespace PeerMessage

def path : PeerMessage → String
  | requestVote _ => "/internal/raft/request_vote"
  | heartbeat _ => "/internal/raft/heartbeat"
  | prepare _ _ => "/internal/replication/prepare"
  | commit _ _ => "/internal/replication/commit"
  | abort _ _ => "/internal/replication/abort"

def body (serde : SerdeJson) : PeerMessage → List UInt8
  | requestVote req => utf8 (serde.toString (.object req.fields))
  | heartbeat hb => utf8 (serde.toString (.object hb.fields))
  | prepare m _ | commit m _ | abort m _ => encodeMutation m

def headers (peerToken : Option String) : PeerMessage → List (String × String)
  | requestVote _ | heartbeat _ => peerHeaders peerToken
  | prepare _ leaderId | commit _ leaderId | abort _ leaderId =>
    replicationHeaderValues peerToken leaderId

/-- The bytes of the message to a peer. -/
def sent (serde : SerdeJson) (connect : String → Result Unit) (addr : String)
    (peerToken : Option String) (msg : PeerMessage) : Result (List UInt8) :=
  httpPostWithHeaders connect addr msg.path (msg.body serde) (msg.headers peerToken)

/-- The section that the message is meant to start. -/
def starts : PeerMessage → Section
  | requestVote req => .requestVote req
  | heartbeat hb => .heartbeat hb
  | prepare m leaderId => .receiveReplication .prepare m leaderId
  | commit m leaderId => .receiveReplication (.commit true) m leaderId
  | abort m leaderId => .receiveReplication .abort m leaderId

/-- What a node checks of the message before it takes a lock. -/
def check (cfg : ReplicationConfig) : PeerMessage → Result Unit
  | requestVote req => checkVoteRequest cfg req
  | heartbeat hb => checkHeartbeat cfg hb
  | prepare _ _ | commit _ _ | abort _ _ => .ok ()

/-- The numbers have the width of the machine's, a candidate sends its watermarks, and a leader has no
white space around its name. -/
def Fits : PeerMessage → Prop
  | requestVote req =>
    (∃ watermarks, req.watermarks = some watermarks ∧ ∀ n ∈ watermarks, n < 2 ^ 64) ∧
      req.term < 2 ^ 64 ∧ req.lastSeq < 2 ^ 64 ∧ req.logLen < 2 ^ 64
  | heartbeat hb => hb.term < 2 ^ 64
  | prepare m leaderId | commit m leaderId | abort m leaderId => m.Fits ∧ trim leaderId = leaderId

/-- What is assumed of `serde_json` on the message. -/
def Restored (serde : SerdeJson) : PeerMessage → Prop
  | requestVote req =>
    serde.Restores req.fields ∧ serde.RestoresArray ((req.watermarks.getD []).map .ofNat)
  | heartbeat hb => serde.Restores hb.fields
  | prepare _ _ | commit _ _ | abort _ _ => True

end PeerMessage

/-- What the handler of a connection does with a request of a peer. -/
inductive Handling where
  /-- It answers that the token is not valid. -/
  | refuses
  | fails (err : GlobAclError)
  /-- The thread of the connection goes on with a section. -/
  | runs (e : Section)
  /-- The watermarks of a vote request are unreadable: a higher term stays adopted in the memory. -/
  | adopts (term : Nat) (err : GlobAclError)
  /-- The request is not for one of the modelled arms. -/
  | elsewhere

/-- `is_internal_route`. -/
def isInternalRoute (route : String) : Bool :=
  decide ("/internal/raft/".toList <+: route.toList) ||
    decide ("/internal/replication/".toList <+: route.toList)

/-- `required_replication_leader`. -/
def requiredReplicationLeader (request : HttpRequest) : Result String :=
  match request.header leaderIdHeader with
  | some leaderId => .ok leaderId
  | none => .error (.invalidData s!"missing {leaderIdHeader} header")

/-- `POST /internal/raft/request_vote`. -/
def handleVotePost (serde : SerdeJson) (cfg : ReplicationConfig) (request : HttpRequest) : Handling :=
  match parseJsonFields serde request.body with
  | .error err => .fails err
  | .ok form =>
    match readVoteRequest cfg form with
    | .error err => .fails err
    | .ok req =>
      match voteWatermarks serde form with
      | .error err => .adopts req.term err
      | .ok watermarks => .runs (.requestVote { req with watermarks })

/-- `POST /internal/raft/heartbeat`. -/
def handleHeartbeatPost (serde : SerdeJson) (cfg : ReplicationConfig) (request : HttpRequest) :
    Handling :=
  match parseJsonFields serde request.body with
  | .error err => .fails err
  | .ok form =>
    match readHeartbeat cfg form with
    | .error err => .fails err
    | .ok hb => .runs (.heartbeat hb)

/-- The posts about mutations. -/
def handleReplicationPost (message : Replication) (request : HttpRequest) : Handling :=
  match decodeMutation request.body with
  | .error err => .fails err
  | .ok m =>
    match requiredReplicationLeader request with
    | .error err => .fails err
    | .ok leaderId => .runs (.receiveReplication message m leaderId)

/-- The arms of `handle_connection` for the posts that start a section. -/
def handlePeerPost (serde : SerdeJson) (cfg : ReplicationConfig) (route : String)
    (request : HttpRequest) : Handling :=
  if route = "/internal/raft/request_vote" then handleVotePost serde cfg request
  else if route = "/internal/raft/heartbeat" then handleHeartbeatPost serde cfg request
  else if route = "/internal/replication/prepare" then handleReplicationPost .prepare request
  else if route = "/internal/replication/commit" then handleReplicationPost (.commit true) request
  else if route = "/internal/replication/abort" then handleReplicationPost .abort request
  else .elsewhere

/-- The routes of these arms. -/
def messageRoutes : List String :=
  ["/internal/raft/request_vote", "/internal/raft/heartbeat", "/internal/replication/prepare",
    "/internal/replication/commit", "/internal/replication/abort"]

/-- `handle_connection` for these posts, from the check of the token on. -/
def handlePeerRequest (serde : SerdeJson) (peerToken : Option String) (cfg : ReplicationConfig)
    (request : HttpRequest) : Handling :=
  match parseQueryPath request.path with
  | .error err => .fails err
  | .ok (route, _) =>
    if isInternalRoute route ∧ !requirePeerToken peerToken request then .refuses
    else if request.method ≠ "POST" then .elsewhere
    else handlePeerPost serde cfg route request

/-- The request is for a route of the messages, and it has the token. -/
structure HttpRequest.CarriesMessage (request : HttpRequest) (token : String) : Prop where
  post : request.method = "POST"
  routed : ∃ route params, parseQueryPath request.path = .ok (route, params) ∧
    route ∈ messageRoutes
  token : (request.header peerTokenHeader).getD "" = token

theorem handlePeerPost_elsewhere {serde : SerdeJson} {cfg : ReplicationConfig} {route : String}
    (h : route ∉ messageRoutes) (request : HttpRequest) :
    handlePeerPost serde cfg route request = .elsewhere := by
  simp only [messageRoutes, List.mem_cons, List.not_mem_nil, or_false, not_or] at h
  obtain ⟨hvote, hheartbeat, hprepare, hcommit, habort⟩ := h
  unfold handlePeerPost
  rw [if_neg hvote, if_neg hheartbeat, if_neg hprepare, if_neg hcommit, if_neg habort]

/-- Any other request starts no section and has no term adopted. -/
theorem handlePeerRequest_quiet {serde : SerdeJson} {token : String} {cfg : ReplicationConfig}
    {request : HttpRequest} (h : ¬ request.CarriesMessage token) :
    (∃ err, handlePeerRequest serde (some token) cfg request = .fails err) ∨
      handlePeerRequest serde (some token) cfg request = .refuses ∨
      handlePeerRequest serde (some token) cfg request = .elsewhere := by
  unfold handlePeerRequest
  cases hroute : parseQueryPath request.path with
  | error err => exact Or.inl ⟨err, rfl⟩
  | ok parsed =>
    obtain ⟨route, params⟩ := parsed
    dsimp only
    by_cases hrefused : isInternalRoute route ∧ !requirePeerToken (some token) request
    · rw [if_pos hrefused]
      exact Or.inr (Or.inl rfl)
    rw [if_neg hrefused]
    by_cases hpost : request.method = "POST"
    · rw [if_neg (not_not.mpr hpost)]
      have helse : route ∉ messageRoutes := by
        intro hmem
        refine h ⟨hpost, ⟨route, params, hroute, hmem⟩, requirePeerToken_iff.mp ?_⟩
        -- the routes of the messages are internal
        have hinternal : ∀ route ∈ messageRoutes, isInternalRoute route = true := by decide
        by_contra hno
        exact hrefused ⟨hinternal route hmem, by simp [Bool.eq_false_iff.mpr hno]⟩
      exact Or.inr (Or.inr (handlePeerPost_elsewhere helse request))
    · rw [if_pos hpost]
      exact Or.inr (Or.inr rfl)

/-! ## Delivery -/

theorem parseQueryPath_plain {path : String} (h : splitOnce '?' path = none) :
    parseQueryPath path = .ok (path, ∅) := by
  have hpairs : queryPairs "" = [] := by decide +kernel
  unfold parseQueryPath
  rw [h, Option.getD_none]
  dsimp only
  rw [hpairs]
  rfl

section Objects

variable {serde : SerdeJson} {cfg : ReplicationConfig}

/-- A vote request is read back, up to what the node checks of it. -/
theorem handleVotePost_fields {req : VoteRequest} {request : HttpRequest}
    (hbody : request.body = (PeerMessage.requestVote req).body serde)
    (hserde : (PeerMessage.requestVote req).Restored serde)
    (hfits : (PeerMessage.requestVote req).Fits) :
    handleVotePost serde cfg request =
      match checkVoteRequest cfg req with
      | .error err => .fails err
      | .ok () => .runs (.requestVote req) := by
  obtain ⟨hobject, harray⟩ := hserde
  obtain ⟨⟨watermarks, hwatermarks, hnumbers⟩, hterm, hlast, hlen⟩ := hfits
  obtain ⟨form, hform, hlookup⟩ := parseJsonFields_toString hobject
    (by simp [VoteRequest.fields])
  have hcluster : form.lookup "cluster_id" = some req.clusterId :=
    hlookup _ (.string req.clusterId) (by simp [VoteRequest.fields])
  have hcandidate : form.lookup "candidate_id" = some req.candidateId :=
    hlookup _ (.string req.candidateId) (by simp [VoteRequest.fields])
  have hterm' : form.lookup "term" = some (toString req.term) :=
    hlookup _ (.ofNat req.term) (by simp [VoteRequest.fields])
  have hlast' : form.lookup "last_seq" = some (toString req.lastSeq) :=
    hlookup _ (.ofNat req.lastSeq) (by simp [VoteRequest.fields])
  have hlen' : form.lookup "log_len" = some (toString req.logLen) :=
    hlookup _ (.ofNat req.logLen) (by simp [VoteRequest.fields])
  have harray' : form.lookup "watermarks" =
      some (serde.toString (.array ((req.watermarks.getD []).map .ofNat))) :=
    hlookup _ (.array ((req.watermarks.getD []).map .ofNat)) (by simp [VoteRequest.fields])
  have hread : voteWatermarks serde form = .ok (some watermarks) := by
    obtain ⟨text, htext⟩ := harray.brackets
    have hne : serde.toString (.array ((req.watermarks.getD []).map .ofNat)) ≠ "" := by
      rw [htext]
      intro heq
      simpa using congrArg String.toList heq
    unfold voteWatermarks parseJsonBody
    rw [harray', Option.filter_some, if_pos (decide_eq_true hne)]
    dsimp only
    rw [fromUtf8_utf8]
    dsimp only
    rw [harray.parse, ok_bind]
    dsimp only [Json.asArray]
    rw [hwatermarks, Option.getD_some, readWatermarks_ofNat hnumbers]
    rfl
  unfold handleVotePost
  rw [hbody]
  unfold PeerMessage.body
  rw [hform]
  dsimp only
  unfold readVoteRequest checkVoteRequest
  rw [hcluster, hcandidate, Option.getD_some, Option.getD_some,
    parseJsonU64_of_lookup hterm' hterm, parseJsonU64_of_lookup hlast' hlast,
    parseJsonU64_of_lookup hlen' hlen]
  dsimp only
  cases ensurePeerCluster cfg req.clusterId with
  | error err => rfl
  | ok =>
    cases ensureRemotePeerId cfg "candidate_id" req.candidateId "vote candidate" with
    | error err => rfl
    | ok =>
      show (match voteWatermarks serde form with
        | .error err => Handling.adopts req.term err
        | .ok watermarks => .runs (.requestVote _)) = _
      rw [hread, ← hwatermarks]
      rfl

/-- A heartbeat is read back, up to what the node checks of it. -/
theorem handleHeartbeatPost_fields {hb : Heartbeat} {request : HttpRequest}
    (hbody : request.body = (PeerMessage.heartbeat hb).body serde)
    (hserde : serde.Restores hb.fields) (hterm : hb.term < 2 ^ 64) :
    handleHeartbeatPost serde cfg request =
      match checkHeartbeat cfg hb with
      | .error err => .fails err
      | .ok () => .runs (.heartbeat hb) := by
  obtain ⟨form, hform, hlookup⟩ := parseJsonFields_toString hserde
    (by simp [Heartbeat.fields])
  have hcluster : form.lookup "cluster_id" = some hb.clusterId :=
    hlookup _ (.string hb.clusterId) (by simp [Heartbeat.fields])
  have hleader : form.lookup "leader_id" = some hb.leaderId :=
    hlookup _ (.string hb.leaderId) (by simp [Heartbeat.fields])
  have hterm' : form.lookup "term" = some (toString hb.term) :=
    hlookup _ (.ofNat hb.term) (by simp [Heartbeat.fields])
  unfold handleHeartbeatPost
  rw [hbody]
  unfold PeerMessage.body
  rw [hform]
  dsimp only
  unfold readHeartbeat checkHeartbeat
  rw [hcluster, hleader, Option.getD_some, Option.getD_some, parseJsonU64_of_lookup hterm' hterm]
  dsimp only
  cases ensurePeerCluster cfg hb.clusterId with
  | error err => rfl
  | ok =>
    cases ensureRemotePeerId cfg "leader_id" hb.leaderId "heartbeat leader" with
    | error err => rfl
    | ok => rfl

end Objects

section Delivery

variable {serde : SerdeJson} {token addr : String} {cfg : ReplicationConfig} {msg : PeerMessage}

/-- The names of the headers, as a node reads them. -/
theorem peerNames_eq :
    toAsciiLowercase (trim peerTokenHeader) = "x-globacl-peer-token" ∧
      toAsciiLowercase (trim leaderIdHeader) = "x-globacl-leader-id" ∧
      toAsciiLowercase peerTokenHeader = "x-globacl-peer-token" ∧
      toAsciiLowercase leaderIdHeader = "x-globacl-leader-id" := by
  decide +kernel

theorem PeerMessage.path_plain (msg : PeerMessage) :
    splitOnce '?' msg.path = none ∧ IsWord msg.path := by
  have hplain : ∀ path ∈ messageRoutes, splitOnce '?' path = none ∧ IsWord path := by
    decide +kernel
  refine hplain _ ?_
  cases msg <;> simp [PeerMessage.path, messageRoutes]

theorem headerNames_headers (msg : PeerMessage) (token : String) :
    headerNames (msg.headers (some token)) = ["x-globacl-peer-token"] ∨
      headerNames (msg.headers (some token)) = ["x-globacl-peer-token", "x-globacl-leader-id"] := by
  obtain ⟨htoken, hleader, -⟩ := peerNames_eq
  cases msg <;>
    simp [PeerMessage.headers, replicationHeaderValues, peerHeaders, headerNames, htoken, hleader]

theorem nodup_headers (msg : PeerMessage) (token : String) :
    (headerNames (msg.headers (some token))).Nodup := by
  rcases headerNames_headers msg token with h | h <;>
    · rw [h]
      decide

theorem own_headers (msg : PeerMessage) (token : String) :
    ∀ name ∈ headerNames (msg.headers (some token)), name ∉ ownNames := by
  rcases headerNames_headers msg token with h | h <;>
    · rw [h]
      decide

/-- The request as a node reads it. -/
def PeerMessage.request (serde : SerdeJson) (addr token : String) (msg : PeerMessage) : HttpRequest :=
  ⟨"POST", msg.path,
    readFields (postFields addr (msg.body serde).length (msg.headers (some token))) ∅,
    msg.body serde⟩

theorem PeerMessage.headers_request :
    (msg.request serde addr token).headers =
      readFields (postFields addr (msg.body serde).length (msg.headers (some token))) ∅ := by
  unfold PeerMessage.request
  dsimp only

/-- A header that the sender gives to the message. -/
theorem header_request {name lower value : String} (hname : toAsciiLowercase (trim name) = lower)
    (hname' : toAsciiLowercase name = lower) (hvalue : trim value = value)
    (hmem : (name, value) ∈ msg.headers (some token)) :
    (msg.request serde addr token).header name = some value := by
  have h := @lookup_readFields addr (msg.headers (some token)) (msg.body serde).length
    (nodup_headers msg token) (own_headers msg token) _ hmem
  dsimp only at h
  rw [hname, hvalue] at h
  unfold HttpRequest.header
  rw [hname', PeerMessage.headers_request, h]

theorem header_token (htoken : trim token = token) :
    (msg.request serde addr token).header peerTokenHeader = some token := by
  obtain ⟨hname, -, hname', -⟩ := peerNames_eq
  refine header_request hname hname' htoken ?_
  cases msg <;> simp [PeerMessage.headers, replicationHeaderValues, peerHeaders]

theorem header_leaderId {leaderId : String} (hleader : trim leaderId = leaderId)
    (hmem : (leaderIdHeader, leaderId) ∈ msg.headers (some token)) :
    requiredReplicationLeader (msg.request serde addr token) = .ok leaderId := by
  obtain ⟨-, hname, -, hname'⟩ := peerNames_eq
  have hheader := @header_request serde token addr msg _ _ _ hname hname' hleader hmem
  unfold requiredReplicationLeader
  generalize (msg.request serde addr token).header leaderIdHeader = found at hheader ⊢
  rw [hheader]

theorem handleReplicationPost_request {message : Replication} {m : Mutation} {leaderId : String}
    (hbody : msg.body serde = encodeMutation m) (hm : m.Fits) (hleader : trim leaderId = leaderId)
    (hmem : (leaderIdHeader, leaderId) ∈ msg.headers (some token)) :
    handleReplicationPost message (msg.request serde addr token) =
      .runs (.receiveReplication message m leaderId) := by
  have hdecode : decodeMutation (msg.request serde addr token).body = .ok m := by
    unfold PeerMessage.request
    rw [hbody, decodeMutation_encodeMutation hm]
  unfold handleReplicationPost
  rw [hdecode]
  dsimp only
  rw [header_leaderId hleader hmem]

theorem handlePeerPost_path (request : HttpRequest) :
    handlePeerPost serde cfg msg.path request =
      match msg with
      | .requestVote _ => handleVotePost serde cfg request
      | .heartbeat _ => handleHeartbeatPost serde cfg request
      | .prepare _ _ => handleReplicationPost .prepare request
      | .commit _ _ => handleReplicationPost (.commit true) request
      | .abort _ _ => handleReplicationPost .abort request := by
  unfold handlePeerPost
  cases msg <;> simp [PeerMessage.path]

/-- The arm of a message starts the section that the message is meant to start. -/
theorem handlePeerRequest_request (htoken : trim token = token) (hserde : msg.Restored serde)
    (hfits : msg.Fits) :
    handlePeerRequest serde (some token) cfg (msg.request serde addr token) =
      match msg.check cfg with
      | .error err => .fails err
      | .ok () => .runs msg.starts := by
  have hpath : parseQueryPath msg.path = .ok (msg.path, ∅) := parseQueryPath_plain msg.path_plain.1
  have hok : requirePeerToken (some token) (msg.request serde addr token) = true :=
    requirePeerToken_iff.mpr (by rw [header_token htoken, Option.getD_some])
  unfold handlePeerRequest
  rw [show (msg.request serde addr token).path = msg.path from rfl, hpath, hok]
  dsimp only
  rw [if_neg (fun h => by simp at h), show (msg.request serde addr token).method = "POST" from rfl,
    if_neg (not_not.mpr rfl), handlePeerPost_path]
  cases msg with
  | requestVote req => exact handleVotePost_fields rfl hserde hfits
  | heartbeat hb => exact handleHeartbeatPost_fields rfl hserde hfits
  | prepare m leaderId =>
    exact handleReplicationPost_request rfl hfits.1 hfits.2
      (by simp [PeerMessage.headers, replicationHeaderValues])
  | commit m leaderId =>
    exact handleReplicationPost_request rfl hfits.1 hfits.2
      (by simp [PeerMessage.headers, replicationHeaderValues])
  | abort m leaderId =>
    exact handleReplicationPost_request rfl hfits.1 hfits.2
      (by simp [PeerMessage.headers, replicationHeaderValues])

section Sent

variable {connect : String → Result Unit} {sent : List UInt8} {reads : List (List UInt8)}

/-- What is read of a message that was sent, in full or cut off, is handled as the message. -/
theorem handlePeerRequest_of_read
    (hconnect : connect addr = .ok () → '\r' ∉ addr.toList ∧ '\n' ∉ addr.toList)
    (htoken : trim token = token) (hserde : msg.Restored serde) (hfits : msg.Fits)
    (hbody : (msg.body serde).length < 2 ^ 64)
    (hsent : msg.sent serde connect addr (some token) = .ok sent)
    (hreads : reads.flatten <+: sent) (hchunks : ∀ chunk ∈ reads, chunk ≠ []) {request : HttpRequest}
    (h : readHttpRequest reads = .ok request) :
    handlePeerRequest serde (some token) cfg request =
      match msg.check cfg with
      | .error err => .fails err
      | .ok () => .runs msg.starts := by
  obtain rfl := readHttpRequest_post_read hconnect msg.path_plain.2 (own_headers msg token) hbody
    hsent hreads hchunks h
  exact handlePeerRequest_request htoken hserde hfits

/-- A message that a node sends to a peer, in any chunks and cut off anywhere, starts the section
about this very message on the peer, or is refused by the peer's checks of it, or is not read at
all. It is read if it arrives in full and is not too large. -/
theorem peerMessage_delivered
    (hconnect : connect addr = .ok () → '\r' ∉ addr.toList ∧ '\n' ∉ addr.toList)
    (htoken : trim token = token) (hserde : msg.Restored serde) (hfits : msg.Fits)
    (hbody : (msg.body serde).length < 2 ^ 64)
    (hsent : msg.sent serde connect addr (some token) = .ok sent)
    (hreads : reads.flatten <+: sent) (hchunks : ∀ chunk ∈ reads, chunk ≠ []) :
    (∀ request, readHttpRequest reads = .ok request →
      handlePeerRequest serde (some token) cfg request =
        match msg.check cfg with
        | .error err => .fails err
        | .ok () => .runs msg.starts) ∧
    (reads.flatten = sent → (msg.body serde).length ≤ maxHttpBodyBytes →
      sent.length ≤ 64 * 1024 + (msg.body serde).length →
      ∃ request, readHttpRequest reads = .ok request) := by
  constructor
  · intro request hread
    exact handlePeerRequest_of_read hconnect htoken hserde hfits hbody hsent hreads hchunks hread
  · intro hall hmax hhead
    rcases readHttpRequest_sentPost hconnect msg.path_plain.2 (own_headers msg token) hbody hsent hall
      hchunks with hread | ⟨hlarge | hlarge, -⟩
    · exact ⟨_, hread⟩
    · omega
    · omega

end Sent

end Delivery

/-! A prepare of the leader, which its peer reads in two chunks. -/

namespace OnePrepare

def addr : String := "10.0.0.2:7003"
def token : String := "secret"
def message : PeerMessage := .prepare domainMutation "node-1"

def follower : ReplicationConfig := ⟨"cluster", "node-2", none, ["node-1", "node-2", "node-3"], 2⟩

def sent : List UInt8 :=
  utf8 (crlfText (postLines addr message.path (encodeMutation domainMutation).length
    (message.headers (some token)) ++ [""])) ++ encodeMutation domainMutation

def reads : List (List UInt8) := [sent.take 100, sent.drop 100]

end OnePrepare

open OnePrepare in
theorem peerMessage_delivered_prepare : ∃ request, readHttpRequest reads = .ok request ∧
    handlePeerRequest (SerdeJson.only []) (some token) follower request =
      .runs (.receiveReplication .prepare domainMutation "node-1") := by
  obtain ⟨hhandled, hread⟩ := @peerMessage_delivered (SerdeJson.only []) token addr follower message
    TwoReads.connect sent reads (TwoReads.connect_oneLine addr) (by decide +kernel) trivial
    ⟨domainMutation_fits, by decide +kernel⟩ (by decide +kernel) (by decide +kernel)
    (by decide +kernel) (by decide +kernel)
  obtain ⟨request, hrequest⟩ := hread (by decide +kernel) (by decide +kernel) (by decide +kernel)
  exact ⟨request, hrequest, hhandled request hrequest⟩

end Globacl
