import Globacl.Core.Connections

/-!
# One hop of a proxied request (`globacl-control/src/app/proxy.rs`, `globacl-commitd/src/app/config.rs`)

A proxy reads a request, writes it again for another server, and writes the answer of that server for
its own client.

* `proxyGet_proxied`, `proxyPost_proxied`: what becomes of a request at one proxy.
* `proxyChain_once`: through any number of hops a server handles a write once, or at most once if
  something is lost on the way.
-/

namespace Globacl

open Lib

/-- `HttpRequest::authorization_forward_header`, as the list of headers that a proxy sends. -/
def HttpRequest.authorizationForwardHeader (request : HttpRequest) : List (String × String) :=
  ((request.header "authorization").map fun value => ("Authorization", value)).toList

/-! ## What a reader accepts -/

section Accepted

variable {reads : List (List UInt8)} {request : HttpRequest}

/-- The names and the values of headers are trimmed. -/
def Trimmed (headers : HashMap String String) : Prop :=
  ∀ name value, headers.lookup name = some value → trim value = value

theorem trimmed_readHeaderLine {state state' : HashMap String String × Nat} {line : String}
    (hstate : Trimmed state.1) (h : readHeaderLine state line = .ok state') : Trimmed state'.1 := by
  have hinsert : ∀ name value, Trimmed (state.1.insert name (trim value)) := by
    intro name value name' value' hlookup
    rw [HashMap.lookup_insert_eq] at hlookup
    split at hlookup
    · cases hlookup
      exact trim_trim value
    · exact hstate name' value' hlookup
  unfold readHeaderLine at h
  split at h
  · cases h
    exact hstate
  · dsimp only at h
    split at h
    · split at h
      · cases h
        exact hinsert _ _
      · cases h
    · cases h
      exact hinsert _ _

/-- A request that is read has a method and a path of one word each, trimmed headers and a body that
is not too large. -/
structure HttpRequest.Sound (request : HttpRequest) : Prop where
  method : IsWord request.method
  path : IsWord request.path
  headers : Trimmed request.headers
  body : request.body.length ≤ maxHttpBodyBytes

theorem readHttpRequest_sound (h : readHttpRequest reads = .ok request) : request.Sound := by
  unfold readHttpRequest at h
  obtain ⟨⟨buffer, headerEnd, reads'⟩, -, h⟩ := bind_eq_ok.mp h
  dsimp only at h
  split at h
  · cases h
  obtain ⟨⟨method, path, headers, contentLength⟩, hparse, h⟩ := bind_eq_ok.mp h
  dsimp only at h
  split at h
  · cases h
  rename_i hfit
  obtain ⟨all, -, h⟩ := bind_eq_ok.mp h
  cases h
  unfold parseHeaders at hparse
  split at hparse
  · cases hparse
  · split at hparse
    · cases hparse
    · cases hparse
    rename_i hwords
    obtain ⟨⟨headers', contentLength'⟩, hfold, hparse⟩ := bind_eq_ok.mp hparse
    cases hparse
    refine ⟨isWord_of_mem_splitWhitespace (hwords ▸ List.mem_cons_self),
      isWord_of_mem_splitWhitespace (hwords ▸ List.mem_cons_of_mem _ List.mem_cons_self), ?_, ?_⟩
    · have hempty : Trimmed (∅ : HashMap String String) := fun _ _ hlookup => by cases hlookup
      exact foldlM_invariant (p := fun state => Trimmed state.1)
        (fun _ _ _ _ hstate hline => trimmed_readHeaderLine hstate hline) hempty hfold
    · dsimp only
      rw [List.length_drop, List.length_take]
      omega

end Accepted

/-- The request that another server reads from a proxy. The body of a GET is not sent on. -/
structure SameRequest (request request' : HttpRequest) : Prop where
  method : request'.method = request.method
  path : request'.path = request.path
  authorization : request'.header "authorization" = request.header "authorization"
  body : request'.body = if request.method = "GET" then [] else request.body

/-- The service looks at nothing of the request that a proxy does not send on. -/
def Service.Plain {σ : Type} (service : Service σ) (request : HttpRequest) : Prop :=
  ∀ request', SameRequest request request' → service request' = service request

/-! ## What a proxy sends -/

section Headers

variable {request : HttpRequest} {addr : String}

/-- The names of the headers, as the other server reads them. -/
theorem ownNames_eq :
    toAsciiLowercase (trim "Host") = "host" ∧
      toAsciiLowercase (trim "Content-Type") = "content-type" ∧
      toAsciiLowercase (trim "Content-Length") = "content-length" ∧
      toAsciiLowercase (trim (trim "Authorization")) = "authorization" ∧
      toAsciiLowercase (trim "Connection") = "connection" ∧
      toAsciiLowercase "authorization" = "authorization" := by
  decide +kernel

theorem header_authorization (request : HttpRequest) :
    request.header "authorization" = request.headers.lookup "authorization" := by
  unfold HttpRequest.header
  rw [ownNames_eq.2.2.2.2.2]

/-- The other server reads the authorization of the request, among the headers of the proxy. -/
theorem lookup_authorization (hrequest : request.Sound) (before after : List (String × String))
    (hbefore : ∀ field ∈ before, toAsciiLowercase (trim field.1) ≠ "authorization")
    (hafter : ∀ field ∈ after, toAsciiLowercase (trim field.1) ≠ "authorization") :
    (readFields (before ++ request.authorizationForwardHeader.map trimmed ++ after) ∅).lookup
      "authorization" = request.header "authorization" := by
  have hskip : ∀ (fields : List (String × String)) (headers : HashMap String String),
      (∀ field ∈ fields, toAsciiLowercase (trim field.1) ≠ "authorization") →
      (readFields fields headers).lookup "authorization" = headers.lookup "authorization" := by
    intro fields
    induction fields with
    | nil => exact fun _ _ => rfl
    | cons field fields ih =>
      intro headers hfields
      have hstep := ih (headers.insert (toAsciiLowercase (trim field.1)) (trim field.2)) fun f hf =>
        hfields f (List.mem_cons_of_mem _ hf)
      rw [HashMap.lookup_insert_eq, if_neg (Ne.symm (hfields field List.mem_cons_self))] at hstep
      exact hstep
  have happend : ∀ (fields fields' : List (String × String)) (headers : HashMap String String),
      readFields (fields ++ fields') headers = readFields fields' (readFields fields headers) :=
    fun _ _ _ => List.foldl_append
  have hname := ownNames_eq.2.2.2.1
  rw [happend, happend, hskip _ _ hafter]
  unfold HttpRequest.authorizationForwardHeader
  cases hauth : request.header "authorization" with
  | none =>
    rw [Option.map_none, Option.toList_none, List.map_nil]
    exact hskip _ _ hbefore
  | some value =>
    have htrim : trim value = value := hrequest.headers _ _ hauth
    rw [Option.map_some, Option.toList_some, List.map_singleton]
    unfold trimmed readFields
    rw [List.foldl_cons, List.foldl_nil]
    dsimp only
    rw [hname, HashMap.lookup_insert_eq, if_pos rfl, htrim, htrim]

theorem closeName_ne : ∀ field ∈ [("Connection", "close")],
    toAsciiLowercase (trim field.1) ≠ "authorization" := by
  intro field hfield
  rw [List.mem_singleton.mp hfield, ownNames_eq.2.2.2.2.1]
  decide

theorem postNames_ne (addr length : String) :
    ∀ field ∈ [("Host", addr), ("Content-Type", "application/json"), ("Content-Length", length)],
      toAsciiLowercase (trim field.1) ≠ "authorization" := by
  obtain ⟨hhost, htype, hlength, -⟩ := ownNames_eq
  intro field hfield
  simp only [List.mem_cons, List.not_mem_nil, or_false] at hfield
  rcases hfield with rfl | rfl | rfl
  · rw [hhost]
    decide
  · rw [htype]
    decide
  · rw [hlength]
    decide

/-- What a proxy sends for a GET is read as the same request, unless the headers are too large. -/
theorem readHttpRequest_proxyGet {connect : String → Result Unit}
    (hconnect : connect addr = .ok () → '\r' ∉ addr.toList ∧ '\n' ∉ addr.toList)
    (hrequest : request.Sound) (hmethod : request.method = "GET") {sent : List UInt8}
    (hsent : httpGetWithHeaders connect addr request.path request.authorizationForwardHeader = .ok sent)
    {reads : List (List UInt8)} (hreads : reads.flatten = sent)
    (hchunks : ∀ chunk ∈ reads, chunk ≠ []) :
    (∃ request', readHttpRequest reads = .ok request' ∧ SameRequest request request') ∨
      (64 * 1024 < sent.length ∧ ∃ err, readHttpRequest reads = .error err) := by
  have hnames : ∀ field ∈ getFields addr request.authorizationForwardHeader,
      toAsciiLowercase field.1 ≠ "content-length" := by
    have hown : toAsciiLowercase "Host" ≠ "content-length" ∧
        toAsciiLowercase (trim "Authorization") ≠ "content-length" ∧
        toAsciiLowercase "Connection" ≠ "content-length" := by
      decide +kernel
    unfold getFields HttpRequest.authorizationForwardHeader
    cases request.header "authorization" <;> simp [trimmed, hown]
  rcases readHttpRequest_sentGet hconnect hrequest.path hnames hsent hreads hchunks with hread | hlarge
  · refine Or.inl ⟨_, hread, hmethod.symm, rfl, ?_, ?_⟩
    · refine (header_authorization _).trans ?_
      refine lookup_authorization hrequest [("Host", addr)] _ ?_ closeName_ne
      intro field hfield
      rw [List.mem_singleton.mp hfield, ownNames_eq.1]
      decide
    · rw [if_pos hmethod]
  · exact Or.inr hlarge

theorem lookup_postFields (hrequest : request.Sound) (addr : String) (bodyLength : Nat) :
    (readFields (postFields addr bodyLength request.authorizationForwardHeader) ∅).lookup
      "authorization" = request.header "authorization" := by
  unfold postFields
  generalize toString bodyLength = length
  exact lookup_authorization hrequest _ _ (postNames_ne addr length) closeName_ne

/-- What a proxy sends for a POST is read as the same request, unless the headers are too large. -/
theorem readHttpRequest_proxyPost {connect : String → Result Unit}
    (hconnect : connect addr = .ok () → '\r' ∉ addr.toList ∧ '\n' ∉ addr.toList)
    (hrequest : request.Sound) (hmethod : request.method = "POST") {sent : List UInt8}
    (hsent : httpPostWithHeaders connect addr request.path request.body
      request.authorizationForwardHeader = .ok sent)
    {reads : List (List UInt8)} (hreads : reads.flatten = sent)
    (hchunks : ∀ chunk ∈ reads, chunk ≠ []) :
    (∃ request', readHttpRequest reads = .ok request' ∧ SameRequest request request') ∨
      (64 * 1024 + request.body.length < sent.length ∧
        ∃ err, readHttpRequest reads = .error err) := by
  have hfit := hrequest.body
  have hown : ∀ name ∈ headerNames request.authorizationForwardHeader, name ∉ ownNames := by
    have hname : toAsciiLowercase (trim "Authorization") = "authorization" := by decide +kernel
    unfold headerNames HttpRequest.authorizationForwardHeader
    cases request.header "authorization" <;> simp [hname, ownNames]
  rcases readHttpRequest_sentPost hconnect hrequest.path hown
      (by unfold maxHttpBodyBytes at hfit; omega) hsent hreads hchunks with
    hread | ⟨hlarge, herr⟩
  · refine Or.inl ⟨_, hread, hmethod.symm, rfl, ?_, ?_⟩
    · rw [header_authorization]
      dsimp only
      exact lookup_postFields hrequest addr request.body.length
    · rw [if_neg (by rw [hmethod]; decide)]
  · exact Or.inr ⟨hlarge.resolve_right (Nat.not_lt.mpr hfit), herr⟩

end Headers

/-! ## A hop -/

section Hop

variable {σ : Type} {service : Service σ} {request : HttpRequest} {s : σ}

/-- `GlobAclError` as a text. A panic has none. -/
def GlobAclError.display : GlobAclError → String
  | .io err => s!"io error: {err}"
  | .parse message => s!"parse error: {message}"
  | .invalidData message => s!"invalid data: {message}"
  | .gap shardId expectedSeq receivedSeq =>
    s!"mutation gap on shard {shardId}: expected seq {expectedSeq}, got {receivedSeq}"
  | .panicked _ => ""

/-- `write_json_response`. -/
def writeJsonResponse (serde : SerdeJson) (statusCode : UInt16) (value : Json) : Reply :=
  ⟨statusCode, .json, utf8 (serde.toString value)⟩

/-- The answer of a proxy that got none: `write_proxy_error` of the gateway, and what the proxies to the
leader answer. -/
def writeProxyError (serde : SerdeJson) (reason : String) (err : GlobAclError) : Reply :=
  writeJsonResponse serde 503 (.object
    [("status", .string "unavailable"), ("reason", .string reason), ("error", .string err.display)])

/-- A server that a proxy has before it, and what the proxy names as the reason if it gets no answer. -/
structure Hop where
  link : Link
  addr : String
  reason : String

/-- `proxy_get` of the gateway, and `proxy_get_to_leader` with the address of the leader. -/
def Hop.proxyGet (serde : SerdeJson) (hop : Hop) (contentType : ContentType) (service : Service σ) :
    Service σ := fun request s =>
  match sendHttp hop.link service (httpGetWithHeaders hop.link.connect hop.addr request.path
      request.authorizationForwardHeader) s with
  | (.ok response, s') => (.ok ⟨response.statusCode.toUInt16, contentType, response.body⟩, s')
  | (.error err, s') => (.ok (writeProxyError serde hop.reason err), s')

/-- `proxy_post` of the gateway, and `proxy_write_to_leader` with the address of the leader. -/
def Hop.proxyPost (serde : SerdeJson) (hop : Hop) (service : Service σ) : Service σ := fun request s =>
  match sendHttp hop.link service (httpPostWithHeaders hop.link.connect hop.addr request.path
      request.body request.authorizationForwardHeader) s with
  | (.ok response, s') => (.ok ⟨response.statusCode.toUInt16, .json, response.body⟩, s')
  | (.error err, s') => (.ok (writeProxyError serde hop.reason err), s')

/-- The bytes that a proxy sends for a GET or a POST. -/
def Hop.sent (hop : Hop) (request : HttpRequest) : Result (List UInt8) :=
  if request.method = "GET" then
    httpGetWithHeaders hop.link.connect hop.addr request.path request.authorizationForwardHeader
  else
    httpPostWithHeaders hop.link.connect hop.addr request.path request.body
      request.authorizationForwardHeader

/-- The request gets through the hop: the server can be connected to, nothing is lost on the connection,
the authorization is on one line and the headers are not too large. -/
structure Hop.Passes (hop : Hop) (request : HttpRequest) : Prop where
  whole : hop.link.Whole
  sent : ∃ sent, hop.sent request = .ok sent ∧
    sent.length ≤ 64 * 1024 + if request.method = "GET" then 0 else request.body.length

/-- What a proxy answers with the answer of the server. -/
def relayed (serde : SerdeJson) (reason : String) (contentType : ContentType) : Result Reply → Reply
  | .ok reply => ⟨reply.statusCode, contentType, reply.body⟩
  | .error _ => writeProxyError serde reason (.parse "missing http response headers")

/-- What becomes of a request at a proxy. -/
inductive Hop.Proxied (serde : SerdeJson) (hop : Hop) (contentType : ContentType) (service : Service σ)
    (request : HttpRequest) (s : σ) : Result Reply × σ → Prop
  /-- The server is not asked, and the proxy says that it got no answer. -/
  | refused (err : GlobAclError) (hpass : ¬ hop.Passes request) :
    Proxied serde hop contentType service request s (.ok (writeProxyError serde hop.reason err), s)
  /-- The server is asked, and the proxy has lost its answer, or did not wait for it. -/
  | lost (err : GlobAclError) (hpass : ¬ hop.Passes request) :
    Proxied serde hop contentType service request s
      (.ok (writeProxyError serde hop.reason err), (service request s).2)
  /-- The server is asked, and the body of its answer is cut off. -/
  | begins (reply : Reply) (body : List UInt8) (hpass : ¬ hop.Passes request)
      (hreply : (service request s).1 = .ok reply) (hbody : body <+: reply.body) :
    Proxied serde hop contentType service request s
      (.ok ⟨reply.statusCode, contentType, body⟩, (service request s).2)
  /-- The server is asked, and what it answers is relayed. -/
  | asked : Proxied serde hop contentType service request s
      (.ok (relayed serde hop.reason contentType (service request s).1), (service request s).2)

theorem proxied_sendHttp {serde : SerdeJson} {hop : Hop} {contentType : ContentType}
    (hlink : hop.link.Sound) (hplain : service.Plain request) {sent : Result (List UInt8)}
    (hsent : hop.sent request = sent)
    (hread : ∀ bytes, sent = .ok bytes → ∀ reads : List (List UInt8), reads.flatten = bytes →
      (∀ chunk ∈ reads, chunk ≠ []) →
      (∃ request', readHttpRequest reads = .ok request' ∧ SameRequest request request') ∨
      (64 * 1024 + (if request.method = "GET" then 0 else request.body.length) < bytes.length ∧
        ∃ err, readHttpRequest reads = .error err)) :
    hop.Proxied serde contentType service request s
      (match sendHttp hop.link service sent s with
      | (.ok response, s') => (.ok ⟨response.statusCode.toUInt16, contentType, response.body⟩, s')
      | (.error err, s') => (.ok (writeProxyError serde hop.reason err), s')) := by
  cases sent with
  | error err =>
    refine .refused err fun hpass => ?_
    obtain ⟨bytes, hbytes, -⟩ := hpass.sent
    rw [hsent] at hbytes
    cases hbytes
  | ok bytes =>
    rcases readHttpRequest_arrived (hlink.arrives bytes) (hlink.chunks bytes) (hread bytes rfl) with
      ⟨request', hrequest', hsame⟩ | ⟨hlarge, err, herr⟩
    · by_cases hwhole : hop.link.Whole
      · rw [sendHttp_whole hwhole hrequest', hplain request' hsame]
        have hasked := @Hop.Proxied.asked σ serde hop contentType service request s
        generalize service request s = answer at hasked ⊢
        obtain ⟨err | reply, s'⟩ := answer
        · exact hasked
        · dsimp only [received]
          rw [Nat.toUInt16, UInt16.ofNat_toNat]
          exact hasked
      · have hpass : ¬ hop.Passes request := fun h => hwhole h.whole
        obtain ⟨response, hresponse, hcases⟩ :=
          @sendHttp_read σ hop.link service request' s hlink bytes hrequest'
        rw [hresponse]
        rw [hplain request' hsame] at hcases ⊢
        rcases hcases with ⟨err, rfl⟩ | ⟨reply, body, hreply, hbody, rfl⟩
        · exact .lost err hpass
        · dsimp only
          rw [Nat.toUInt16, UInt16.ofNat_toNat]
          exact .begins reply body hpass hreply hbody
    · obtain ⟨err, hclosed⟩ := @sendHttp_error σ hop.link service s hlink bytes err herr
      rw [hclosed]
      refine .refused err fun hpass => ?_
      obtain ⟨bytes', hbytes', hshort⟩ := hpass.sent
      rw [hsent] at hbytes'
      cases hbytes'
      rcases hlarge with hcut | hlarge
      · exact hcut (hpass.whole.flatten bytes)
      · omega

theorem proxyGet_proxied (serde : SerdeJson) {hop : Hop} (contentType : ContentType)
    (hlink : hop.link.Sound) (hplain : service.Plain request) (hrequest : request.Sound)
    (hmethod : request.method = "GET") :
    hop.Proxied serde contentType service request s
      (hop.proxyGet serde contentType service request s) := by
  refine proxied_sendHttp hlink hplain (if_pos hmethod) fun bytes hbytes reads hreads hchunks => ?_
  rw [if_pos hmethod]
  exact readHttpRequest_proxyGet (hlink.oneLine hop.addr) hrequest hmethod hbytes hreads hchunks

theorem proxyPost_proxied (serde : SerdeJson) {hop : Hop} (hlink : hop.link.Sound)
    (hplain : service.Plain request) (hrequest : request.Sound)
    (hmethod : request.method = "POST") :
    hop.Proxied serde .json service request s (hop.proxyPost serde service request s) := by
  have hget : request.method ≠ "GET" := by
    rw [hmethod]
    decide
  refine proxied_sendHttp hlink hplain (if_neg hget) fun bytes hbytes reads hreads hchunks => ?_
  rw [if_neg hget]
  exact readHttpRequest_proxyPost (hlink.oneLine hop.addr) hrequest hmethod hbytes hreads hchunks

theorem authorizationForwardHeader_congr {request' : HttpRequest} (h : SameRequest request request') :
    request'.authorizationForwardHeader = request.authorizationForwardHeader := by
  unfold HttpRequest.authorizationForwardHeader
  rw [h.authorization]

/-- A proxy itself looks at nothing that a proxy does not send on. -/
theorem proxyPost_plain (serde : SerdeJson) (hop : Hop) (service : Service σ)
    (hmethod : request.method = "POST") : (hop.proxyPost serde service).Plain request := by
  intro request' h
  have hbody := h.body
  rw [if_neg (by rw [hmethod]; decide)] at hbody
  funext s
  unfold Hop.proxyPost
  rw [authorizationForwardHeader_congr h, h.path, hbody]

/-! ## Many hops -/

/-- A service behind proxies, the first of which the client asks. -/
def proxyChain (serde : SerdeJson) (hops : List Hop) (service : Service σ) : Service σ :=
  hops.foldr (fun hop next => hop.proxyPost serde next) service

theorem proxyChain_plain (serde : SerdeJson) (hops : List Hop) (hplain : service.Plain request)
    (hmethod : request.method = "POST") : (proxyChain serde hops service).Plain request := by
  cases hops with
  | nil => exact hplain
  | cons hop hops => exact proxyPost_plain serde hop _ hmethod

/-- The answer is that of the service itself, or the service gave none and a proxy says so. -/
def Relays (serde : SerdeJson) (hops : List Hop) (answer answer' : Result Reply) : Prop :=
  match answer with
  | .ok reply => ∃ reply', answer' = .ok reply' ∧ reply'.statusCode = reply.statusCode ∧
      reply'.body = reply.body
  | .error err => (hops = [] ∧ answer' = .error err) ∨ ∃ hop ∈ hops,
      answer' = .ok (writeProxyError serde hop.reason (.parse "missing http response headers"))

theorem Relays.cons {serde : SerdeJson} {hop : Hop} {hops : List Hop} {answer answer' : Result Reply}
    (h : Relays serde hops answer answer') :
    Relays serde (hop :: hops) answer (.ok (relayed serde hop.reason .json answer')) := by
  cases answer with
  | ok reply =>
    obtain ⟨reply', rfl, hcode, hbody⟩ := h
    exact ⟨_, rfl, hcode, hbody⟩
  | error err =>
    right
    rcases h with ⟨rfl, rfl⟩ | ⟨hop', hmem, rfl⟩
    · exact ⟨hop, List.mem_cons_self, rfl⟩
    · exact ⟨hop', List.mem_cons_of_mem _ hmem, rfl⟩

/-- A part of a reply: its status, and how its body begins. -/
structure Reply.Begins (reply' reply : Reply) : Prop where
  statusCode : reply'.statusCode = reply.statusCode
  body : reply'.body <+: reply.body

theorem Reply.Begins.trans {reply₁ reply₂ reply₃ : Reply} (h : reply₁.Begins reply₂)
    (h' : reply₂.Begins reply₃) : reply₁.Begins reply₃ :=
  ⟨h.statusCode.trans h'.statusCode, h.body.trans h'.body⟩

/-- What the client gets where something is lost on the way: a refusal of a proxy, or the answer of the
service, which then was asked. Either may be cut off. -/
def Delivered (serde : SerdeJson) (hops : List Hop) (asked : Prop) (answer : Result Reply)
    (reply : Reply) : Prop :=
  (∃ hop ∈ hops, ∃ err, reply.Begins (writeProxyError serde hop.reason err)) ∨
    (asked ∧ ∃ reply', answer = .ok reply' ∧ reply.Begins reply')

theorem Delivered.cons {serde : SerdeJson} {hops : List Hop} {asked : Prop} {answer : Result Reply}
    {reply reply' : Reply} (hop : Hop) (h : Delivered serde hops asked answer reply)
    (hbegins : reply'.Begins reply) : Delivered serde (hop :: hops) asked answer reply' := by
  rcases h with ⟨hop', hmem, err, hreply⟩ | ⟨hasked, reply'', hanswer, hreply⟩
  · exact Or.inl ⟨hop', List.mem_cons_of_mem _ hmem, err, hbegins.trans hreply⟩
  · exact Or.inr ⟨hasked, reply'', hanswer, hbegins.trans hreply⟩

/-- What is relayed in full is delivered. -/
theorem Relays.delivered {serde : SerdeJson} {hops : List Hop} {answer : Result Reply} {reply : Reply}
    (h : Relays serde hops answer (.ok reply)) : Delivered serde hops True answer reply := by
  cases answer with
  | ok reply' =>
    obtain ⟨_, ⟨⟩, hcode, hbody⟩ := h
    exact Or.inr ⟨trivial, reply', rfl, hcode, hbody ▸ List.prefix_refl _⟩
  | error err =>
    rcases h with ⟨-, ⟨⟩⟩ | ⟨hop, hmem, heq⟩
    cases heq
    exact Or.inl ⟨hop, hmem, _, rfl, List.prefix_refl _⟩

/-- A POST through any number of proxies is executed once if every hop passes it on, and the client gets
the status and the body that the service answers, or a refusal if the service answers nothing. Wherever a
hop fails, it is executed once or not at all; the client gets the answer of the service only if it was
executed, and is told by a proxy otherwise that there was no answer. -/
theorem proxyChain_once (serde : SerdeJson) (hops : List Hop)
    (hlinks : ∀ hop ∈ hops, hop.link.Sound) (hplain : service.Plain request)
    (hrequest : request.Sound) (hmethod : request.method = "POST") (s : σ) :
    ((∀ hop ∈ hops, hop.Passes request) →
      (proxyChain serde hops service request s).2 = (service request s).2 ∧
        Relays serde hops (service request s).1 (proxyChain serde hops service request s).1) ∧
    ((∃ hop ∈ hops, ¬ hop.Passes request) →
      ((proxyChain serde hops service request s).2 = s ∨
        (proxyChain serde hops service request s).2 = (service request s).2) ∧
      ∃ reply, (proxyChain serde hops service request s).1 = .ok reply ∧
        Delivered serde hops
          ((proxyChain serde hops service request s).2 = (service request s).2)
          (service request s).1 reply) := by
  induction hops with
  | nil =>
    refine ⟨fun _ => ⟨rfl, ?_⟩, fun ⟨_, hmem, _⟩ => absurd hmem List.not_mem_nil⟩
    show Relays serde [] (service request s).1 (service request s).1
    cases (service request s).1 with
    | ok reply => exact ⟨reply, rfl, rfl, rfl⟩
    | error err => exact Or.inl ⟨rfl, rfl⟩
  | cons hop hops ih =>
    obtain ⟨hall, hfails⟩ := ih fun hop' hmem => hlinks hop' (List.mem_cons_of_mem _ hmem)
    have hproxied := @proxyPost_proxied σ (proxyChain serde hops service) request s serde hop
      (hlinks hop List.mem_cons_self) (proxyChain_plain serde hops hplain hmethod) hrequest hmethod
    have hchain : proxyChain serde (hop :: hops) service request s =
        hop.proxyPost serde (proxyChain serde hops service) request s := rfl
    rw [hchain]
    generalize hop.proxyPost serde (proxyChain serde hops service) request s = answer at hproxied ⊢
    have hstate : (proxyChain serde hops service request s).2 = s ∨
        (proxyChain serde hops service request s).2 = (service request s).2 := by
      by_cases hpasses : ∀ hop' ∈ hops, hop'.Passes request
      · exact Or.inr (hall hpasses).1
      · exact (hfails (by simpa using hpasses)).1
    -- what the other hops deliver
    have hrest : ∀ reply, (proxyChain serde hops service request s).1 = .ok reply →
        Delivered serde hops ((proxyChain serde hops service request s).2 = (service request s).2)
          (service request s).1 reply := by
      intro reply hreply
      by_cases hpasses : ∀ hop' ∈ hops, hop'.Passes request
      · obtain ⟨hasked, hrelays⟩ := hall hpasses
        rw [hreply] at hrelays
        rw [eq_true hasked]
        exact hrelays.delivered
      · obtain ⟨-, reply', hreply', hdelivered⟩ := hfails (by simpa using hpasses)
        rw [hreply] at hreply'
        cases hreply'
        exact hdelivered
    have hself : ∀ err, Reply.Begins (writeProxyError serde hop.reason err)
        (writeProxyError serde hop.reason err) := fun _ => ⟨rfl, List.prefix_refl _⟩
    have hnot : ¬ hop.Passes request → ¬ ∀ hop' ∈ hop :: hops, hop'.Passes request :=
      fun hpass h => hpass (h hop List.mem_cons_self)
    cases hproxied with
    | refused err hpass =>
      exact ⟨fun h => absurd h (hnot hpass), fun _ =>
        ⟨Or.inl rfl, _, rfl, Or.inl ⟨hop, List.mem_cons_self, err, hself err⟩⟩⟩
    | lost err hpass =>
      exact ⟨fun h => absurd h (hnot hpass), fun _ =>
        ⟨hstate, _, rfl, Or.inl ⟨hop, List.mem_cons_self, err, hself err⟩⟩⟩
    | begins reply body hpass hreply hbody =>
      exact ⟨fun h => absurd h (hnot hpass), fun _ =>
        ⟨hstate, _, rfl, (hrest reply hreply).cons hop ⟨rfl, hbody⟩⟩⟩
    | asked =>
      refine ⟨fun h => ?_, fun _ => ⟨hstate, _, rfl, ?_⟩⟩
      · obtain ⟨hasked, hrelays⟩ := hall fun hop' hmem => h hop' (List.mem_cons_of_mem _ hmem)
        exact ⟨hasked, hrelays.cons⟩
      · cases hanswer : (proxyChain serde hops service request s).1 with
        | ok reply => exact (hrest reply hanswer).cons hop ⟨rfl, List.prefix_refl _⟩
        | error err => exact Or.inl ⟨hop, List.mem_cons_self, _, hself _⟩

end Hop

/-! A write behind two proxies, on a service that counts what it is asked. The answer of the service may
be lost on the connection to it. -/

namespace TwoHops

def link : Link := ⟨TwoReads.connect, fun sent => [sent].filter (· ≠ []), .ok⟩

/-- A connection whose answers do not arrive in time. -/
def lossy : Link := { link with receive := fun _ => .error (.io "timed out") }

theorem link_flatten (sent : List UInt8) : (link.split sent).flatten = sent := by
  by_cases h : sent = []
  · rw [h]
    rfl
  · simp [link, h]

theorem link_chunks (sent : List UInt8) : ∀ chunk ∈ link.split sent, chunk ≠ [] := fun _ hchunk =>
  of_decide_eq_true (List.mem_filter.mp hchunk).2

theorem link_sound : link.Sound where
  oneLine := TwoReads.connect_oneLine
  arrives sent := by
    rw [link_flatten]
  chunks := link_chunks
  answers _ _ h := Except.ok.inj h ▸ List.prefix_refl _

theorem link_whole : link.Whole := ⟨link_flatten, fun _ => rfl⟩

theorem lossy_sound : lossy.Sound where
  oneLine := TwoReads.connect_oneLine
  arrives := link_sound.arrives
  chunks := link_chunks
  answers _ _ h := by cases h

theorem lossy_not_whole : ¬ lossy.Whole := fun h => by cases h.receive []

def hop (link : Link) : Hop := ⟨link, "127.0.0.1:7003", "commitd_proxy_failed"⟩

def service : Service Nat := fun request asked => (.ok ⟨200, .json, utf8 request.path⟩, asked + 1)

def request : HttpRequest :=
  ⟨"POST", "/v1/rule", (∅ : HashMap String String).insert "authorization" "Bearer t", headerTerminator⟩

theorem request_sound : request.Sound where
  method := by decide
  path := by decide
  headers name value h := by
    change ((∅ : HashMap String String).insert "authorization" "Bearer t").lookup name = some value at h
    rw [HashMap.lookup_insert_eq] at h
    split at h
    · cases h
      decide
    · cases h
  body := by decide

theorem service_plain (request : HttpRequest) : service.Plain request := by
  intro request' h
  funext asked
  unfold service
  rw [h.path]

end TwoHops

open TwoHops in
theorem proxyChain_once_twoHops :
    (proxyChain (SerdeJson.only []) [hop link, hop link] service request 0).2 = 1 ∧
    ((proxyChain (SerdeJson.only []) [hop link, hop lossy] service request 0).2 = 0 ∨
      (proxyChain (SerdeJson.only []) [hop link, hop lossy] service request 0).2 = 1) := by
  have hpasses : (hop link).Passes request := ⟨link_whole, _, rfl, by decide +kernel⟩
  have hsound : ∀ h ∈ [hop link, hop lossy], h.link.Sound := fun h hmem => by
    simp only [List.mem_cons, List.not_mem_nil, or_false] at hmem
    rcases hmem with rfl | rfl
    · exact link_sound
    · exact lossy_sound
  have hsame : ∀ h ∈ [hop link, hop link], h = hop link := fun h hmem => by
    simpa using hmem
  exact
    ⟨((proxyChain_once (SerdeJson.only []) [hop link, hop link]
        (fun h hmem => hsame h hmem ▸ link_sound) (service_plain request) request_sound rfl 0).1
          fun h hmem => hsame h hmem ▸ hpasses).1,
      ((proxyChain_once (SerdeJson.only []) [hop link, hop lossy] hsound (service_plain request)
        request_sound rfl 0).2 ⟨hop lossy, by simp, fun h => lossy_not_whole h.whole⟩).1⟩

end Globacl
