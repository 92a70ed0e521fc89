import Globacl.Control.Hop
import Globacl.Core.Forms

/-!
# The control gateway (`globacl-control/src/app/routes.rs`, `proxy.rs`)

The gateway is what the operators talk to. It checks the scope and the reach of a write, and sends it on
to the source of truth.

* `gateway_handled`: what the source of truth is asked for one request, and what the client gets.
* `gateway_run`: what any run of connections does to the source of truth.
-/

namespace Globacl

open Lib

/-- `App` of the gateway. -/
structure ControlApp where
  commitAddr : String
  auth : AuthConfig

namespace AuthFailure

/-- `AuthFailure::status_code`. -/
def statusCode : AuthFailure → UInt16
  | missingBearer | invalidBearer => 401
  | insufficientScope => 403

/-- `AuthFailure::reason`. -/
def reason : AuthFailure → String
  | missingBearer => "missing_bearer_token"
  | invalidBearer => "invalid_bearer_token"
  | insufficientScope => "insufficient_scope"

end AuthFailure

/-- `write_auth_failure_response`. -/
def writeAuthFailureResponse (serde : SerdeJson) (failure : AuthFailure) (requiredScope : String) :
    Reply :=
  writeJsonResponse serde failure.statusCode (.object
    [("status", .string "rejected"), ("reason", .string failure.reason),
      ("required_scope", .string requiredScope)])

/-- `content_type_for`. -/
def contentTypeFor (path : String) : ContentType :=
  let route := ((splitOnce '?' path).map Prod.fst).getD path
  if ["/v1/mutations", "/v1/snapshot", "/v1/snapshot_artifact", "/v1/delta_bundle"].contains route then
    .octetStream
  else .json

/-- The fields of the health of the source of truth that the gateway repeats. -/
def healthKeys : List String :=
  ["status", "role", "node_id", "cluster_id", "leader_id", "term", "voted_for", "write_authority",
    "quorum", "peer_count", "shard_count", "entries", "mutations", "jetstream_publisher",
    "max_published_seq", "central_ack_count", "last_publish_unix", "publish_errors",
    "last_peer_sync_unix", "sync_errors"]

/-- `control_health_ok`. -/
def controlHealthOk (serde : SerdeJson) (app : ControlApp) (commitdBody : List UInt8) : Json :=
  .object <|
    [("status", .string "ok"), ("role", .string "control"), ("commitd", .string "ok"),
      ("commit_addr", .string app.commitAddr)] ++
    match parseJsonBody serde commitdBody with
    | .ok (.object fields) =>
      healthKeys.filterMap fun key => ((Json.object fields).get key).map fun value =>
        ("commitd_" ++ key, value)
    | .ok _ => [("commitd_health_parse", .string "non_object")]
    | .error err => [("commitd_health_parse", .string err.display)]

section Gateway

variable {σ : Type} (serde : SerdeJson) (app : ControlApp) (link : Link) (commitd : Service σ)

/-- The source of truth, as the proxies of the gateway reach it. -/
def ControlApp.hop (app : ControlApp) (link : Link) : Hop :=
  ⟨link, app.commitAddr, "commitd_proxy_failed"⟩

/-- The answer to `GET /health`. -/
def healthReply : Result (HttpResponse (List UInt8)) → Reply
  | .ok response =>
    if response.statusCode = 200 then
      writeJsonResponse serde 200 (controlHealthOk serde app response.body)
    else
      writeJsonResponse serde 503 (.object
        [("status", .string "degraded"), ("role", .string "control"), ("commitd", .string "bad"),
          ("commit_addr", .string app.commitAddr),
          ("commit_status", .ofNat response.statusCode)])
  | .error err =>
    writeJsonResponse serde 503 (.object
      [("status", .string "degraded"), ("role", .string "control"),
        ("commitd", .string "unreachable"), ("commit_addr", .string app.commitAddr),
        ("error", .string err.display)])

def gatewayNotFound : Reply := writeJsonResponse serde 404 (.object [("error", .string "not_found")])

def overrideRequired : Reply :=
  writeJsonResponse serde 400 (.object
    [("status", .string "rejected"), ("reason", .string "blast_radius_override_required")])

/-- `require_scope` before a proxy: without the scope the request is refused. -/
def guarded (scope : String) (next : Service σ) : Service σ := fun request s =>
  match app.auth.requireScope request scope with
  | .error failure => (.ok (writeAuthFailureResponse serde failure scope), s)
  | .ok _ => next request s

/-- The check of the form of a write before it is sent on. `reaches` is the test of the blast radius. -/
def checked {α : Type} (fromJsonFields : Form → Result α) (reaches : α → Bool) (next : Service σ) :
    Service σ := fun request s =>
  match parseJsonFields serde request.body with
  | .error err => (.error err, s)
  | .ok form =>
    match fromJsonFields form with
    | .error err => (.error err, s)
    | .ok write =>
      if reaches write ∧ !blastRadiusOverrideEnabled form then (.ok (overrideRequired serde), s)
      else next request s

/-- The arms of `handle_connection` for a POST that is not internal. -/
def gatewayPost (proxyPost : Service σ) (route : String) : Service σ := fun request s =>
  if route = "/v1/deny" ∨ route = "/v1/mutation" then
    guarded serde app "acl:write"
      (checked serde DenyRequest.fromJsonFields denyRequiresBlastRadiusOverride proxyPost) request s
  else if route = "/v1/rule" then
    guarded serde app "acl:write"
      (checked serde RuleRequest.fromJsonFields ruleRequiresBlastRadiusOverride proxyPost) request s
  else if route = "/v1/canary" then guarded serde app "acl:write" proxyPost request s
  else if route = "/v1/snapshot" then guarded serde app "snapshot:write" proxyPost request s
  else if route = "/v1/rollback" then guarded serde app "admin:rollback" proxyPost request s
  else if route = "/v1/ack" then proxyPost request s
  else (.ok (gatewayNotFound serde), s)

/-- The arms of `handle_connection` for a GET that is not internal, but for the health and the
metrics. -/
def gatewayGet (proxyGet : Service σ) (route : String) : Service σ := fun request s =>
  if route = "/v1/audit" then guarded serde app "audit:read" proxyGet request s
  else proxyGet request s

/-- `handle_connection` of the gateway, once the request is read. -/
def gateway : Service σ := fun request s =>
  let proxyPost := (app.hop link).proxyPost serde commitd
  let proxyGet := (app.hop link).proxyGet serde (contentTypeFor request.path) commitd
  match parseQueryPath request.path with
  | .error err => (.error err, s)
  | .ok (route, _) =>
    if request.method = "GET" ∧ route = "/health" then
      let (response, s') :=
        sendHttp link commitd (httpGetWithHeaders link.connect app.commitAddr "/health" []) s
      (.ok (healthReply serde app response), s')
    else if request.method = "GET" ∧ route = "/metrics" then (.ok (gatewayNotFound serde), s)
    else if "/internal/".toList <+: route.toList then (.ok (gatewayNotFound serde), s)
    else if request.method = "POST" then gatewayPost serde app proxyPost route request s
    else if request.method = "GET" then gatewayGet serde app proxyGet route request s
    else (.error (.parse s!"unsupported control method {request.method}"), s)

end Gateway

/-! ## Who may ask what -/

/-- The routes of the writes. -/
def writeRoutes : List String :=
  ["/v1/deny", "/v1/mutation", "/v1/rule", "/v1/canary", "/v1/snapshot", "/v1/rollback", "/v1/ack"]

/-- The scope that a route needs. -/
def routeScope (method route : String) : Option String :=
  if method = "POST" then
    if route = "/v1/snapshot" then some "snapshot:write"
    else if route = "/v1/rollback" then some "admin:rollback"
    else if route = "/v1/ack" then none
    else some "acl:write"
  else if route = "/v1/audit" then some "audit:read"
  else none

section Permitted

variable {σ : Type} {serde : SerdeJson} {app : ControlApp} {link : Link} {commitd : Service σ}
  {request : HttpRequest} {s : σ}

/-- The form is that of a write, which does not reach too far, or has been approved. -/
def Approved {α : Type} (serde : SerdeJson) (fromJsonFields : Form → Result α) (reaches : α → Bool)
    (body : List UInt8) : Prop :=
  ∃ form write, parseJsonFields serde body = .ok form ∧ fromJsonFields form = .ok write ∧
    (reaches write = true → blastRadiusOverrideEnabled form = true)

/-- The request reads or writes what the operators may read or write, with the scope for it, and a write
has been approved if it has to be. -/
structure Permitted (serde : SerdeJson) (app : ControlApp) (request : HttpRequest) (route : String) :
    Prop where
  external : ¬ "/internal/".toList <+: route.toList
  routed : (request.method = "GET" ∧ route ≠ "/health" ∧ route ≠ "/metrics") ∨
    (request.method = "POST" ∧ route ∈ writeRoutes)
  scope : ∀ scope, routeScope request.method route = some scope →
    ∃ principal, app.auth.requireScope request scope = .ok principal
  deny : request.method = "POST" → route = "/v1/deny" ∨ route = "/v1/mutation" →
    Approved serde DenyRequest.fromJsonFields denyRequiresBlastRadiusOverride request.body
  rule : request.method = "POST" → route = "/v1/rule" →
    Approved serde RuleRequest.fromJsonFields ruleRequiresBlastRadiusOverride request.body

/-- The client is told that its request failed, or its connection is closed. -/
def Rejected (answer : Result Reply) : Prop := ∀ reply, answer = .ok reply → 400 ≤ reply.statusCode

theorem guarded_cases (scope : String) (next : Service σ) :
    ((∃ principal, app.auth.requireScope request scope = .ok principal) ∧
      guarded serde app scope next request s = next request s) ∨
    ((¬ ∃ principal, app.auth.requireScope request scope = .ok principal) ∧
      ∃ answer, guarded serde app scope next request s = (answer, s) ∧ Rejected answer) := by
  unfold guarded
  cases app.auth.requireScope request scope with
  | ok principal => exact Or.inl ⟨⟨principal, rfl⟩, rfl⟩
  | error failure =>
    refine Or.inr ⟨by rintro ⟨_, ⟨⟩⟩, _, rfl, ?_⟩
    intro reply hreply
    cases hreply
    show 400 ≤ failure.statusCode
    cases failure <;> decide

theorem checked_cases {α : Type} (fromJsonFields : Form → Result α) (reaches : α → Bool)
    (next : Service σ) :
    (Approved serde fromJsonFields reaches request.body ∧
      checked serde fromJsonFields reaches next request s = next request s) ∨
    (¬ Approved serde fromJsonFields reaches request.body ∧
      ∃ answer, checked serde fromJsonFields reaches next request s = (answer, s) ∧
        Rejected answer) := by
  have hclosed : ∀ err, Rejected (.error err) := fun err reply hreply => by cases hreply
  unfold checked Approved
  cases parseJsonFields serde request.body with
  | error err => exact Or.inr ⟨by rintro ⟨_, _, ⟨⟩, _⟩, _, rfl, hclosed err⟩
  | ok form =>
    dsimp only
    cases hwrite : fromJsonFields form with
    | error err =>
      refine Or.inr ⟨?_, _, rfl, hclosed err⟩
      rintro ⟨_, _, ⟨⟩, hok, -⟩
      rw [hwrite] at hok
      cases hok
    | ok write =>
      dsimp only
      by_cases hreach : reaches write ∧ !blastRadiusOverrideEnabled form
      · rw [if_pos hreach]
        refine Or.inr ⟨?_, _, rfl, ?_⟩
        · rintro ⟨_, _, ⟨⟩, hok, happroved⟩
          rw [hwrite] at hok
          cases hok
          rw [happroved hreach.1] at hreach
          exact absurd hreach.2 (by decide)
        · intro reply hreply
          cases hreply
          show (400 : UInt16) ≤ 400
          decide
      · rw [if_neg hreach]
        refine Or.inl ⟨⟨form, write, rfl, hwrite, fun hreaches => ?_⟩, rfl⟩
        cases hoverride : blastRadiusOverrideEnabled form with
        | true => rfl
        | false => exact absurd ⟨hreaches, by rw [hoverride]; rfl⟩ hreach

/-- The request that the gateway makes to learn the health of the source of truth. -/
def healthProbe : HttpRequest := ⟨"GET", "/health", ∅, []⟩

theorem healthProbe_sound : healthProbe.Sound where
  method := by decide
  path := by decide
  headers _ _ h := by cases h
  body := by decide

/-- What the gateway does with one request. -/
inductive Handled (serde : SerdeJson) (app : ControlApp) (link : Link) (commitd : Service σ)
    (request : HttpRequest) (s : σ) : Result Reply × σ → Prop
  /-- The request is not permitted: nothing is asked, and the client is told so. -/
  | rejected (answer : Result Reply) (hanswer : Rejected answer)
      (hnot : ∀ route params, parseQueryPath request.path = .ok (route, params) →
        ¬ Permitted serde app request route) :
      Handled serde app link commitd request s (answer, s)
  /-- The health is asked for, or the source of truth is not reached. The answer may be lost. -/
  | health (params : Form) (response : Result (HttpResponse (List UInt8))) (s' : σ)
      (hmethod : request.method = "GET")
      (hroute : parseQueryPath request.path = .ok ("/health", params))
      (hresponse : (s' = s ∧ ∃ err, response = .error err) ∨ (s' = (commitd healthProbe s).2 ∧
        (link.Whole → response = received (commitd healthProbe s).1))) :
      Handled serde app link commitd request s (.ok (healthReply serde app response), s')
  /-- The request is permitted, and a proxy handles it. -/
  | passed (route : String) (params : Form) (contentType : ContentType) (outcome : Result Reply × σ)
      (hroute : parseQueryPath request.path = .ok (route, params))
      (hpermitted : Permitted serde app request route)
      (hproxied : (app.hop link).Proxied serde contentType commitd request s outcome) :
      Handled serde app link commitd request s outcome

/-- The source of truth looks at no header but the authorization, unless it is a peer who asks. -/
def PlainOutside (commitd : Service σ) : Prop :=
  ∀ request route params, parseQueryPath request.path = .ok (route, params) →
    ¬ "/internal/".toList <+: route.toList → commitd.Plain request

theorem health_cases (hlink : link.Sound) (hplain : PlainOutside commitd) :
    ∃ response s',
      sendHttp link commitd (httpGetWithHeaders link.connect app.commitAddr "/health" []) s =
        (response, s') ∧
      ((s' = s ∧ ∃ err, response = .error err) ∨ (s' = (commitd healthProbe s).2 ∧
        (link.Whole → response = received (commitd healthProbe s).1))) := by
  have hsplit : splitOnce '?' "/health" = none := by decide +kernel
  have hpairs : queryPairs "" = [] := by decide +kernel
  have hroute : parseQueryPath healthProbe.path = .ok ("/health", ∅) := by
    unfold parseQueryPath healthProbe
    rw [hsplit, Option.getD_none]
    dsimp only
    rw [hpairs]
    rfl
  have hprobe := hplain healthProbe "/health" ∅ hroute (by decide)
  cases hsent : httpGetWithHeaders link.connect app.commitAddr "/health" [] with
  | error err => exact ⟨_, _, rfl, Or.inl ⟨rfl, err, rfl⟩⟩
  | ok sent =>
    rcases readHttpRequest_arrived (hlink.arrives sent) (hlink.chunks sent) fun reads =>
        readHttpRequest_proxyGet (hlink.oneLine app.commitAddr) healthProbe_sound rfl hsent with
      ⟨request', hread, hsame⟩ | ⟨-, err, herr⟩
    · obtain ⟨response, hresponse, -⟩ := @sendHttp_read σ link commitd request' s hlink sent hread
      refine ⟨response, _, hresponse, Or.inr ⟨by rw [hprobe request' hsame], fun hwhole => ?_⟩⟩
      rw [sendHttp_whole hwhole hread, hprobe request' hsame] at hresponse
      exact (Prod.mk.inj hresponse).1.symm
    · obtain ⟨err', hclosed⟩ := @sendHttp_error σ link commitd s hlink sent err herr
      exact ⟨_, _, hclosed, Or.inl ⟨rfl, err', rfl⟩⟩

section Routes

variable {route : String} {params : Form} {contentType : ContentType}

/-- A request that is permitted exactly if it has the scope, and then is handled by a proxy. -/
theorem guarded_handled {scope : String} {next : Service σ}
    (hroute : parseQueryPath request.path = .ok (route, params))
    (hscope : routeScope request.method route = some scope)
    (hnext : (∃ principal, app.auth.requireScope request scope = .ok principal) →
      Handled serde app link commitd request s (next request s)) :
    Handled serde app link commitd request s (guarded serde app scope next request s) := by
  rcases @guarded_cases σ serde app request s scope next with
    ⟨hok, heq⟩ | ⟨hno, answer, heq, hrejected⟩
  · rw [heq]
    exact hnext hok
  · rw [heq]
    refine .rejected answer hrejected fun route' params' hroute' h => hno ?_
    rw [hroute] at hroute'
    cases hroute'
    exact h.scope scope hscope

/-- A write whose form is checked, and which then is handled by a proxy. -/
theorem checked_handled {α : Type} {fromJsonFields : Form → Result α} {reaches : α → Bool}
    {next : Service σ} (hroute : parseQueryPath request.path = .ok (route, params))
    (happroved : Permitted serde app request route →
      Approved serde fromJsonFields reaches request.body)
    (hnext : Approved serde fromJsonFields reaches request.body →
      Handled serde app link commitd request s (next request s)) :
    Handled serde app link commitd request s (checked serde fromJsonFields reaches next request s) := by
  rcases @checked_cases σ serde request s α fromJsonFields reaches next with
    ⟨hok, heq⟩ | ⟨hno, answer, heq, hrejected⟩
  · rw [heq]
    exact hnext hok
  · rw [heq]
    refine .rejected answer hrejected fun route' params' hroute' h => hno ?_
    rw [hroute] at hroute'
    cases hroute'
    exact happroved h

end Routes

section Writes

variable {route : String} {params : Form}

theorem rejected_notFound : Rejected (.ok (gatewayNotFound serde)) := by
  intro reply hreply
  cases hreply
  show (400 : UInt16) ≤ 404
  decide

theorem rejected_error (err : GlobAclError) : Rejected (.error err) := fun reply hreply => by
  cases hreply

theorem gatewayPost_handled {proxyPost : Service σ}
    (hroute : parseQueryPath request.path = .ok (route, params))
    (hpost : request.method = "POST") (hinternal : ¬ "/internal/".toList <+: route.toList)
    (hproxy : Permitted serde app request route →
      Handled serde app link commitd request s (proxyPost request s)) :
    Handled serde app link commitd request s (gatewayPost serde app proxyPost route request s) := by
  -- A route with a scope of its own: the scope is there, and the form is approved.
  have hpermitted : ∀ {scope : String}, route ∈ writeRoutes →
      routeScope request.method route = some scope →
      (∃ principal, app.auth.requireScope request scope = .ok principal) →
      (route = "/v1/deny" ∨ route = "/v1/mutation" →
        Approved serde DenyRequest.fromJsonFields denyRequiresBlastRadiusOverride request.body) →
      (route = "/v1/rule" →
        Approved serde RuleRequest.fromJsonFields ruleRequiresBlastRadiusOverride request.body) →
      Permitted serde app request route := by
    intro scope hmem hscope hprincipal hdeny hrule
    refine ⟨hinternal, Or.inr ⟨hpost, hmem⟩, fun scope' hscope' => ?_, fun _ => hdeny, fun _ => hrule⟩
    rw [hscope] at hscope'
    cases hscope'
    exact hprincipal
  unfold gatewayPost
  by_cases hdeny : route = "/v1/deny" ∨ route = "/v1/mutation"
  · rw [if_pos hdeny]
    have hscope : routeScope request.method route = some "acl:write" := by
      rw [hpost]
      rcases hdeny with rfl | rfl <;> decide
    have hmem : route ∈ writeRoutes := by
      rcases hdeny with rfl | rfl <;> decide
    refine guarded_handled hroute hscope fun hprincipal => ?_
    refine checked_handled hroute (fun h => h.deny hpost hdeny) fun happroved => ?_
    refine hproxy (hpermitted hmem hscope hprincipal (fun _ => happroved) ?_)
    rintro rfl
    exact absurd hdeny (by decide)
  rw [if_neg hdeny]
  by_cases hrule : route = "/v1/rule"
  · rw [if_pos hrule]
    have hscope : routeScope request.method route = some "acl:write" := by
      rw [hpost, hrule]
      decide
    refine guarded_handled hroute hscope fun hprincipal => ?_
    refine checked_handled hroute (fun h => h.rule hpost hrule) fun happroved => ?_
    exact hproxy (hpermitted (by rw [hrule]; decide) hscope hprincipal (fun h => absurd h hdeny)
      fun _ => happroved)
  rw [if_neg hrule]
  have hother : ∀ {scope : String}, route ∈ writeRoutes →
      routeScope request.method route = some scope →
      Handled serde app link commitd request s (guarded serde app scope proxyPost request s) :=
    fun hmem hscope => guarded_handled hroute hscope fun hprincipal =>
      hproxy (hpermitted hmem hscope hprincipal (fun h => absurd h hdeny) fun h => absurd h hrule)
  by_cases hcanary : route = "/v1/canary"
  · rw [if_pos hcanary]
    exact hother (by rw [hcanary]; decide) (by rw [hpost, hcanary]; decide)
  rw [if_neg hcanary]
  by_cases hsnapshot : route = "/v1/snapshot"
  · rw [if_pos hsnapshot]
    exact hother (by rw [hsnapshot]; decide) (by rw [hpost, hsnapshot]; decide)
  rw [if_neg hsnapshot]
  by_cases hrollback : route = "/v1/rollback"
  · rw [if_pos hrollback]
    exact hother (by rw [hrollback]; decide) (by rw [hpost, hrollback]; decide)
  rw [if_neg hrollback]
  by_cases hack : route = "/v1/ack"
  · rw [if_pos hack]
    have hscope : routeScope request.method route = none := by
      rw [hpost, hack]
      decide
    refine hproxy ⟨hinternal, Or.inr ⟨hpost, by rw [hack]; decide⟩, fun scope h => ?_,
      fun _ h => absurd h hdeny, fun _ h => absurd h hrule⟩
    rw [hscope] at h
    cases h
  rw [if_neg hack]
  refine .rejected _ rejected_notFound fun route' params' hroute' h => ?_
  rw [hroute] at hroute'
  cases hroute'
  rcases h.routed with ⟨hget, -⟩ | ⟨-, hmem⟩
  · rw [hpost] at hget
    exact absurd hget (by decide)
  · simp only [writeRoutes, List.mem_cons, List.not_mem_nil, or_false] at hmem
    rcases hmem with h | h | h | h | h | h | h
    · exact hdeny (Or.inl h)
    · exact hdeny (Or.inr h)
    · exact hrule h
    · exact hcanary h
    · exact hsnapshot h
    · exact hrollback h
    · exact hack h

theorem gatewayGet_handled {proxyGet : Service σ}
    (hroute : parseQueryPath request.path = .ok (route, params))
    (hget : request.method = "GET") (hinternal : ¬ "/internal/".toList <+: route.toList)
    (hhealth : route ≠ "/health") (hmetrics : route ≠ "/metrics")
    (hproxy : Permitted serde app request route →
      Handled serde app link commitd request s (proxyGet request s)) :
    Handled serde app link commitd request s (gatewayGet serde app proxyGet route request s) := by
  have hpost : request.method ≠ "POST" := by
    rw [hget]
    decide
  have hpermitted : (∀ scope, routeScope request.method route = some scope →
      ∃ principal, app.auth.requireScope request scope = .ok principal) →
      Permitted serde app request route := fun hscope =>
    ⟨hinternal, Or.inl ⟨hget, hhealth, hmetrics⟩, hscope, fun h => absurd h hpost,
      fun h => absurd h hpost⟩
  unfold gatewayGet
  by_cases haudit : route = "/v1/audit"
  · rw [if_pos haudit]
    have hscope : routeScope request.method route = some "audit:read" := by
      rw [hget, haudit]
      decide
    refine guarded_handled hroute hscope fun hprincipal => hproxy (hpermitted fun scope h => ?_)
    rw [hscope] at h
    cases h
    exact hprincipal
  · rw [if_neg haudit]
    have hscope : routeScope request.method route = none := by
      unfold routeScope
      rw [if_neg hpost, if_neg haudit]
    refine hproxy (hpermitted fun scope h => ?_)
    rw [hscope] at h
    cases h

end Writes

/-- What the gateway does with any request. -/
theorem gateway_handled (hlink : link.Sound) (hplain : PlainOutside commitd)
    (hrequest : request.Sound) :
    Handled serde app link commitd request s (gateway serde app link commitd request s) := by
  unfold gateway
  dsimp only
  cases hroute : parseQueryPath request.path with
  | error err =>
    refine .rejected _ (rejected_error err) fun route params h => ?_
    rw [hroute] at h
    cases h
  | ok parsed =>
    obtain ⟨route, params⟩ := parsed
    have hnot : ∀ {answer : Result Reply}, Rejected answer → ¬ Permitted serde app request route →
        Handled serde app link commitd request s (answer, s) := by
      intro answer hanswer hno
      refine .rejected answer hanswer fun route' params' h => ?_
      rw [hroute] at h
      cases h
      exact hno
    dsimp only
    by_cases hhealth : request.method = "GET" ∧ route = "/health"
    · rw [if_pos hhealth]
      rw [hhealth.2] at hroute
      obtain ⟨response, s', heq, hcases⟩ := @health_cases σ app link commitd s hlink hplain
      rw [heq]
      exact .health params response s' hhealth.1 hroute hcases
    rw [if_neg hhealth]
    by_cases hmetrics : request.method = "GET" ∧ route = "/metrics"
    · rw [if_pos hmetrics]
      refine hnot rejected_notFound fun h => ?_
      rcases h.routed with ⟨-, -, hne⟩ | ⟨hpost, -⟩
      · exact hne hmetrics.2
      · rw [hmetrics.1] at hpost
        exact absurd hpost (by decide)
    rw [if_neg hmetrics]
    by_cases hinternal : "/internal/".toList <+: route.toList
    · rw [if_pos hinternal]
      exact hnot rejected_notFound fun h => h.external hinternal
    rw [if_neg hinternal]
    have hself := hplain request route params hroute hinternal
    by_cases hpost : request.method = "POST"
    · rw [if_pos hpost]
      exact gatewayPost_handled hroute hpost hinternal fun hpermitted =>
        .passed route params .json _ hroute hpermitted
          (proxyPost_proxied serde hlink hself hrequest hpost)
    rw [if_neg hpost]
    by_cases hget : request.method = "GET"
    · rw [if_pos hget]
      refine gatewayGet_handled hroute hget hinternal (fun h => hhealth ⟨hget, h⟩)
        (fun h => hmetrics ⟨hget, h⟩) fun hpermitted => ?_
      exact .passed route params _ _ hroute hpermitted
        (proxyGet_proxied serde _ hlink hself hrequest hget)
    · rw [if_neg hget]
      refine hnot (rejected_error _) fun h => ?_
      rcases h.routed with h | h
      · exact hget h.1
      · exact hpost h.1

/-! ## Runs -/

/-- The gateway over many connections of clients, each given by the connection that the gateway makes
for it and by the chunks that it reads. They stand in the order in which the source of truth handles what
it is asked for them. -/
def gatewayServeAll (serde : SerdeJson) (app : ControlApp) (commitd : Service σ)
    (connections : List (Link × List (List UInt8))) (s : σ) : σ :=
  connections.foldl (fun s c => ((gateway serde app c.1 commitd).serve c.2 s).2) s

/-- A service that is asked the requests, one after the other. -/
def Service.askAll (service : Service σ) (requests : List HttpRequest) (s : σ) : σ :=
  requests.foldl (fun s request => (service request s).2) s

/-- What the source of truth is asked for one connection of the gateway. -/
inductive Asked (serde : SerdeJson) (app : ControlApp) (c : Link × List (List UInt8)) :
    List HttpRequest → Prop
  /-- Nothing, unless a request was read that is permitted and passed on without a loss. -/
  | nothing (hnot : ∀ request route params, readHttpRequest c.2 = .ok request →
      parseQueryPath request.path = .ok (route, params) → Permitted serde app request route →
      ¬ (app.hop c.1).Passes request) : Asked serde app c []
  /-- The health, for a client who asks the gateway for its own. -/
  | health (request : HttpRequest) (params : Form) (hread : readHttpRequest c.2 = .ok request)
      (hmethod : request.method = "GET")
      (hroute : parseQueryPath request.path = .ok ("/health", params)) :
      Asked serde app c [healthProbe]
  /-- The request itself. -/
  | passed (request : HttpRequest) (route : String) (params : Form)
      (hread : readHttpRequest c.2 = .ok request)
      (hroute : parseQueryPath request.path = .ok (route, params))
      (hpermitted : Permitted serde app request route) : Asked serde app c [request]

theorem serve_state {service : Service σ} {reads : List (List UInt8)}
    (hread : readHttpRequest reads = .ok request) :
    (service.serve reads s).2 = (service request s).2 := by
  unfold Service.serve
  rw [hread]
  dsimp only
  rcases service request s with ⟨err | reply, s'⟩ <;> rfl

theorem gateway_asked (hlink : link.Sound) (hplain : PlainOutside commitd)
    (reads : List (List UInt8)) (s : σ) :
    ∃ asked, Asked serde app (link, reads) asked ∧
      ((gateway serde app link commitd).serve reads s).2 = commitd.askAll asked s := by
  cases hread : readHttpRequest reads with
  | error err =>
    refine ⟨[], .nothing fun request _ _ h => ?_, ?_⟩
    · rw [hread] at h
      cases h
    · unfold Service.serve
      rw [hread]
      rfl
  | ok request =>
    have hhandled := @gateway_handled σ serde app link commitd request s hlink hplain
      (readHttpRequest_sound hread)
    rw [serve_state hread]
    generalize gateway serde app link commitd request s = outcome at hhandled ⊢
    have hsame : ∀ request', readHttpRequest reads = .ok request' → request' = request := by
      intro request' h
      rw [hread] at h
      exact (Except.ok.inj h).symm
    cases hhandled with
    | rejected answer hanswer hnot =>
      refine ⟨[], .nothing fun request' route params h hroute hpermitted => ?_, rfl⟩
      obtain rfl := hsame request' h
      exact absurd hpermitted (hnot route params hroute)
    | health params response s' hmethod hroute hresponse =>
      rcases hresponse with ⟨rfl, -⟩ | ⟨rfl, -⟩
      · refine ⟨[], .nothing fun request' route params' h hroute' hpermitted => ?_, rfl⟩
        obtain rfl := hsame request' h
        rw [hroute] at hroute'
        cases hroute'
        rcases hpermitted.routed with ⟨-, hne, -⟩ | ⟨hpost, -⟩
        · exact absurd rfl hne
        · rw [hmethod] at hpost
          exact absurd hpost (by decide)
      · exact ⟨[healthProbe], .health request params hread hmethod hroute, rfl⟩
    | passed route params contentType outcome hroute hpermitted hproxied =>
      cases hproxied with
      | refused err hpass =>
        refine ⟨[], .nothing fun request' _ _ h _ _ => ?_, rfl⟩
        obtain rfl := hsame request' h
        exact hpass
      | lost _ _ => exact ⟨[request], .passed request route params hread hroute hpermitted, rfl⟩
      | begins _ _ _ _ _ => exact ⟨[request], .passed request route params hread hroute hpermitted, rfl⟩
      | asked => exact ⟨[request], .passed request route params hread hroute hpermitted, rfl⟩

/-- Whatever connections are made to the gateway, and whatever is lost on those that it makes, the source
of truth is left as if it had been asked for each of them nothing, the permitted request itself or its
health. -/
theorem gateway_run (serde : SerdeJson) (app : ControlApp) (commitd : Service σ)
    (hplain : PlainOutside commitd) (connections : List (Link × List (List UInt8)))
    (hlinks : ∀ c ∈ connections, c.1.Sound) (s : σ) :
    ∃ asked, List.Forall₂ (Asked serde app) connections asked ∧
      gatewayServeAll serde app commitd connections s = commitd.askAll asked.flatten s := by
  induction connections generalizing s with
  | nil => exact ⟨[], .nil, rfl⟩
  | cons c connections ih =>
    obtain ⟨first, hfirst, hstep⟩ :=
      @gateway_asked σ serde app c.1 commitd (hlinks c List.mem_cons_self) hplain c.2 s
    obtain ⟨rest, hrest, hrun⟩ := ih (fun c' hc' => hlinks c' (List.mem_cons_of_mem _ hc'))
      ((gateway serde app c.1 commitd).serve c.2 s).2
    refine ⟨first :: rest, .cons hfirst hrest, ?_⟩
    have happend : commitd.askAll (first :: rest).flatten s =
        commitd.askAll rest.flatten (commitd.askAll first s) := by
      rw [List.flatten_cons]
      exact List.foldl_append
    rw [happend, ← hstep, ← hrun]
    rfl

end Permitted

/-! Two canaries through a gateway that does not check tokens. The answer to the second one is lost. -/

namespace OpenGateway

def app : ControlApp := ⟨"127.0.0.1:7003", AuthConfig.disabled⟩

def canary : List (List UInt8) := [utf8 "POST /v1/canary HTTP/1.1\r\n\r\n"]

def connections : List (Link × List (List UInt8)) :=
  [(TwoHops.link, canary), (TwoHops.lossy, canary)]

theorem links_sound : ∀ c ∈ connections, c.1.Sound := fun c hc => by
  simp only [connections, List.mem_cons, List.not_mem_nil, or_false] at hc
  rcases hc with rfl | rfl
  · exact TwoHops.link_sound
  · exact TwoHops.lossy_sound

end OpenGateway

open OpenGateway in
theorem gateway_run_canary :
    ∃ asked, List.Forall₂ (Asked (SerdeJson.only []) app) connections asked ∧
      gatewayServeAll (SerdeJson.only []) app TwoHops.service connections 0 =
        TwoHops.service.askAll asked.flatten 0 :=
  gateway_run (SerdeJson.only []) app TwoHops.service
    (fun request _ _ _ _ => TwoHops.service_plain request) connections links_sound 0

end Globacl
