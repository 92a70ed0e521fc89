import Globacl.Agent.Routes
import Globacl.Core.Query
import Mathlib.Data.Bool.AllAny

/-!
# The proxy of the demo application (`globacl-demo-app/src/app/proxy.rs`)

The application asks for a decision either an agent over HTTP, or a state that it has embedded. An agent
does not read a request whose head is too large.

* `percentDecode_percentEncode`: the agent reads back every text that the application encodes.
* `decisionFromResponseBody_formatDecision`: the application reads back every decision of an agent.
* `resolveAclDecision_http`: both ways give the same decision, if the head of the request is not too
  large.
-/

namespace Globacl

open Lib

/-- An upper-case hex digit. -/
def hexUpper (nibble : UInt8) : Char :=
  if nibble < 10 then Char.ofNat (48 + nibble.toNat) else Char.ofNat (55 + nibble.toNat)

/-- The body of the loop of `percent_encode`. -/
def percentByte (byte : UInt8) : List Char :=
  let c := Char.ofNat byte.toNat
  if c.isAlphanum || c == '-' || c == '.' || c == '_' || c == '~' then [c]
  else ['%', hexUpper (byte >>> 4), hexUpper (byte &&& 0x0f)]

/-- `percent_encode`. -/
def percentEncode (value : String) : String := String.ofList ((utf8 value).flatMap percentByte)

/-- A number of a field, `0` if it is missing or no number. -/
def numberOr0 (bound : Nat) (value : Option String) : Nat :=
  match value with
  | some value => (parseUnsigned bound value).toOption.getD 0
  | none => 0

/-- `decision_from_response_body`. -/
def decisionFromResponseBody (serde : SerdeJson) (body : List UInt8) : Result Decision := do
  let form ← parseJsonFields serde body
  if form.lookup "decision" ≠ some "deny" then pure .allow
  else
    pure (.deny ((form.lookup "reason_code").getD "unspecified")
      (numberOr0 (2 ^ 32 - 1) (form.lookup "priority"))
      { shardId := numberOr0 (2 ^ 16 - 1) (form.lookup "shard_id")
        seq := numberOr0 (2 ^ 64 - 1) (form.lookup "seq")
        epoch := numberOr0 (2 ^ 64 - 1) (form.lookup "epoch")
        sourceRegion := "" })

/-- `LookupMode`: the address of an agent, with the connection to it, or a state with the time. -/
inductive LookupMode where
  | http (agentAddr : String) (link : Link) (agent : Service Unit)
  | embedded (ord : IterOrder) (agent : ActiveState) (nowUnix : Nat)

/-- The path that `resolve_acl_decision` asks an agent for. -/
def agentPath (tenantId namespace' value : String) (includeRules : Bool) : String :=
  if includeRules then
    "/v1/check?tenant_id=" ++ percentEncode tenantId ++ "&namespace=" ++
      percentEncode namespace' ++ "&value=" ++ percentEncode value
  else
    "/v1/lookup?tenant_id=" ++ percentEncode tenantId ++ "&namespace=" ++
      percentEncode namespace' ++ "&key=" ++ percentEncode value

/-- `resolve_acl_decision`. -/
def resolveAclDecision (serde : SerdeJson) (lookup : LookupMode)
    (tenantId namespace' value : String) (includeRules : Bool) : Result Decision :=
  match lookup with
  | .http agentAddr link agent => do
    let response ← (sendHttp link agent (httpGetWithHeaders link.connect agentAddr
      (agentPath tenantId namespace' value includeRules) []) ()).1
    if response.statusCode ≠ 200 then
      .error (.invalidData s!"agent returned status {response.statusCode}")
    else decisionFromResponseBody serde response.body
  | .embedded ord agent nowUnix =>
    if includeRules then .ok (agent.check ord tenantId namespace' value nowUnix)
    else .ok (agent.lookup tenantId namespace' value nowUnix)

/-! ## Encoding -/

/-- The byte of an ASCII character. -/
abbrev asciiByte (c : Char) : UInt8 := c.toNat.toUInt8

theorem percentByte_ascii : ∀ byte : UInt8, ∀ c ∈ percentByte byte,
    c.toNat < 128 ∧ c ≠ '&' ∧ c ≠ '=' ∧ c ≠ '?' ∧ isWhitespace c = false := by
  have hall : ∀ n < 256, ((percentByte (UInt8.ofNat n)).all fun c =>
      c.toNat < 128 ∧ c ≠ '&' ∧ c ≠ '=' ∧ c ≠ '?' ∧ isWhitespace c = false) = true := by
    decide +kernel
  intro byte
  have heq : byte = UInt8.ofNat byte.toNat := UInt8.ofNat_toNat.symm
  rw [heq]
  exact List.all_iff_forall_prop.mp (hall _ byte.toNat_lt)

/-- A byte is kept, or is written as a percent sign and two digits that are read as the byte. -/
theorem percentByte_cases : ∀ byte : UInt8,
    ((percentByte byte).map asciiByte = [byte] ∧ byte ≠ 43 ∧ byte ≠ 37) ∨
      ∃ high low, (percentByte byte).map asciiByte = [37, high, low] ∧
        isContinuation high = false ∧ fromStrRadix16 high low = some byte := by
  have hall : ∀ n : Fin 256,
      let byte := UInt8.ofNat n
      let high := asciiByte (hexUpper (byte >>> 4))
      let low := asciiByte (hexUpper (byte &&& 0x0f))
      ((percentByte byte).map asciiByte = [byte] ∧ byte ≠ 43 ∧ byte ≠ 37) ∨
        ((percentByte byte).map asciiByte = [37, high, low] ∧ isContinuation high = false ∧
          fromStrRadix16 high low = some byte) := by
    decide +kernel
  intro byte
  have heq : byte = UInt8.ofNat (⟨byte.toNat, byte.toNat_lt⟩ : Fin 256) := UInt8.ofNat_toNat.symm
  rw [heq]
  exact (hall _).imp_right fun h => ⟨_, _, h⟩

theorem not_isContinuation_asciiByte {c : Char} (h : c.toNat < 128) :
    isContinuation (asciiByte c) = false := by
  unfold isContinuation asciiByte
  rw [Bool.and_eq_false_iff]
  refine Or.inl (decide_eq_false ?_)
  rw [UInt8.not_le, UInt8.lt_iff_toNat_lt]
  simpa using Nat.lt_of_le_of_lt (Nat.mod_le _ _) h

theorem utf8_percentEncode (value : String) :
    utf8 (percentEncode value) = (utf8 value).flatMap fun byte => (percentByte byte).map asciiByte := by
  unfold percentEncode
  rw [utf8_ofList_ascii, List.map_flatMap]
  intro c hc
  obtain ⟨byte, -, hc⟩ := List.mem_flatMap.mp hc
  exact (percentByte_ascii byte c hc).1

/-- Encoded bytes are read back. -/
theorem percentDecodeBytes_flatMap (bytes : List UInt8) :
    percentDecodeBytes (bytes.flatMap fun byte => (percentByte byte).map asciiByte) = .ok bytes := by
  induction bytes with
  | nil => rfl
  | cons byte bytes ih =>
    -- what follows is ASCII, so a character starts there
    have hhead : ((bytes.flatMap fun byte => (percentByte byte).map asciiByte).head?.any
        isContinuation) = false := by
      cases hh : (bytes.flatMap fun byte => (percentByte byte).map asciiByte).head? with
      | none => rfl
      | some b =>
        obtain ⟨byte', -, hb⟩ := List.mem_flatMap.mp (List.mem_of_mem_head? hh)
        obtain ⟨c, hc, rfl⟩ := List.mem_map.mp hb
        exact not_isContinuation_asciiByte (percentByte_ascii byte' c hc).1
    rw [List.flatMap_cons]
    rcases percentByte_cases byte with ⟨hbyte, h43, h37⟩ | ⟨high, low, hbytes, hcont, hhex⟩
    · rw [hbyte, List.singleton_append, percentDecodeBytes_cons h43 h37, ih]
      rfl
    · rw [hbytes, List.cons_append, List.cons_append, List.cons_append, List.nil_append,
        percentDecodeBytes, if_neg (by decide), if_pos rfl, hcont, hhead]
      simp only [Bool.or_self, Bool.false_eq_true, if_false, hhex, ih]
      rfl

/-- The agent reads back every text that the application encodes. -/
theorem percentDecode_percentEncode (value : String) :
    percentDecode (percentEncode value) = .ok value := by
  unfold percentDecode
  rw [utf8_percentEncode, percentDecodeBytes_flatMap]
  show Except.ok (fromUtf8Lossy (utf8 value)) = _
  rw [fromUtf8Lossy, fromUtf8_utf8]

/-- Encoded text has none of the characters that a query is split at. -/
theorem not_mem_percentEncode {value : String} {c : Char} (hc : c = '&' ∨ c = '=' ∨ c = '?') :
    c ∉ (percentEncode value).toList := by
  rw [percentEncode, String.toList_ofList, List.mem_flatMap]
  rintro ⟨byte, -, hmem⟩
  obtain ⟨-, h1, h2, h3, -⟩ := percentByte_ascii byte c hmem
  rcases hc with h | h | h
  · exact h1 h
  · exact h2 h
  · exact h3 h

/-- A path with three encoded values is read as their map. -/
theorem parseQueryPath_encoded (route key₁ key₂ key₃ a b c : String)
    (hroute : '?' ∉ route.toList)
    (hkeys : ∀ key ∈ [key₁, key₂, key₃], '&' ∉ key.toList ∧ '=' ∉ key.toList ∧
      percentDecode key = .ok key) :
    parseQueryPath (route ++ String.singleton '?' ++
        (key₁ ++ String.singleton '=' ++ percentEncode a ++ String.singleton '&' ++
          (key₂ ++ String.singleton '=' ++ percentEncode b ++ String.singleton '&' ++
            (key₃ ++ String.singleton '=' ++ percentEncode c)))) =
      .ok (route, ((AList.insert key₁ a ∅).insert key₂ b).insert key₃ c) := by
  have hpair : ∀ key ∈ [key₁, key₂, key₃], ∀ value : String,
      '&' ∉ (key ++ String.singleton '=' ++ percentEncode value).toList ∧
        key ++ String.singleton '=' ++ percentEncode value ≠ "" ∧
        ∀ params, insertPair params (key ++ String.singleton '=' ++ percentEncode value) =
          .ok (params.insert key value) := by
    intro key hkey value
    obtain ⟨hamp, heq, hdecode⟩ := hkeys key hkey
    refine ⟨?_, fun h => ?_, fun params =>
      insertPair_append params heq hdecode (percentDecode_percentEncode value)⟩
    · simp only [String.toList_append, String.toList_singleton, List.mem_append,
        List.mem_singleton, not_or]
      exact ⟨⟨hamp, by decide⟩, not_mem_percentEncode (Or.inl rfl)⟩
    · have := congrArg String.toList h
      simp at this
  obtain ⟨h1, hne1, hins1⟩ := hpair key₁ (by simp) a
  obtain ⟨h2, hne2, hins2⟩ := hpair key₂ (by simp) b
  obtain ⟨h3, hne3, hins3⟩ := hpair key₃ (by simp) c
  unfold parseQueryPath
  rw [splitOnce_append _ hroute, Option.getD_some]
  dsimp only
  rw [queryPairs_append _ h1 hne1, queryPairs_append _ h2 hne2, queryPairs_singleton h3 hne3]
  simp only [List.foldlM_cons, List.foldlM_nil, hins1, hins2, hins3, ok_bind]
  rfl

/-! ## Decisions -/

/-- The numbers of a decision fit the types of its fields. -/
structure Decision.Fits (decision : Decision) : Prop where
  fits : ∀ reasonCode priority commitId, decision = .deny reasonCode priority commitId →
    priority < 2 ^ 32 ∧ commitId.shardId < 2 ^ 16 ∧ commitId.seq < 2 ^ 64

theorem numberOr0_toString {bound n : Nat} (h : n ≤ bound) :
    numberOr0 bound (some (toString n)) = n := by
  unfold numberOr0
  dsimp only
  rw [parseUnsigned_toString h]
  rfl

/-- The application reads back every decision of an agent. -/
theorem decisionFromResponseBody_formatDecision {serde : SerdeJson} {decision : Decision}
    (hserde : serde.Restores (decisionFields decision)) (hedge : decision.OfEdge)
    (hfits : decision.Fits) :
    decisionFromResponseBody serde (utf8 (formatDecision serde decision)) = .ok decision := by
  have hkeys : ((decisionFields decision).map Prod.fst).Nodup := by
    cases decision <;> simp only [decisionFields, List.map_cons, List.map_nil] <;> decide
  obtain ⟨form, hform, hlookup⟩ := parseJsonFields_toString hserde hkeys
  unfold decisionFromResponseBody formatDecision
  rw [hform, ok_bind]
  cases decision with
  | allow =>
    rw [hlookup "decision" (.string "allow") (by simp [decisionFields])]
    rfl
  | deny reasonCode priority commitId =>
    obtain ⟨shardId, seq, epoch, sourceRegion⟩ := commitId
    obtain ⟨hepoch, hregion⟩ := hedge.commitId _ _ _ rfl
    obtain ⟨hpriority, hshard, hseq⟩ := hfits.fits _ _ _ rfl
    dsimp only at hepoch hregion hshard hseq
    subst hepoch hregion
    rw [hlookup "decision" (.string "deny") (by simp [decisionFields]),
      hlookup "reason_code" (.string reasonCode) (by simp [decisionFields]),
      hlookup "priority" (.ofNat priority) (by simp [decisionFields]),
      hlookup "shard_id" (.ofNat shardId) (by simp [decisionFields]),
      hlookup "seq" (.ofNat seq) (by simp [decisionFields]),
      hlookup "epoch" (.ofNat 1) (by simp [decisionFields])]
    simp only [jsonFieldToString, Json.ofNat, ne_eq, not_true_eq_false, if_false, Option.getD_some]
    rw [numberOr0_toString (by omega), numberOr0_toString (by omega), numberOr0_toString (by omega),
      numberOr0_toString (by omega)]
    rfl

/-- The text that a path is put together from. -/
theorem path_eq (route key tenantId namespace' value : String) :
    route ++ "?tenant_id=" ++ tenantId ++ "&namespace=" ++ namespace' ++ ("&" ++ key ++ "=") ++ value =
      route ++ String.singleton '?' ++
        ("tenant_id" ++ String.singleton '=' ++ tenantId ++ String.singleton '&' ++
          ("namespace" ++ String.singleton '=' ++ namespace' ++ String.singleton '&' ++
            (key ++ String.singleton '=' ++ value))) := by
  have h1 : "?tenant_id=" = String.singleton '?' ++ "tenant_id" ++ String.singleton '=' := rfl
  have h2 : "&namespace=" = String.singleton '&' ++ "namespace" ++ String.singleton '=' := rfl
  have h3 : "&" = String.singleton '&' := rfl
  have h4 : "=" = String.singleton '=' := rfl
  rw [h1, h2, h3, h4]
  simp only [String.append_assoc]

theorem requiredQuery_of_lookup {query : Form} {key value : String}
    (h : query.lookup key = some value) (hne : value ≠ "") :
    requiredQuery query key = .ok value := by
  unfold requiredQuery
  rw [h, Option.filter_some, if_pos (decide_eq_true hne)]

/-- Three parameters with different names. -/
theorem lookup_params {key₁ key₂ key₃ : String} (h : key₁ ≠ key₂ ∧ key₁ ≠ key₃ ∧ key₂ ≠ key₃)
    (a b c : String) :
    (((AList.insert key₁ a ∅).insert key₂ b).insert key₃ c : Form).lookup key₁ = some a ∧
      (((AList.insert key₁ a ∅).insert key₂ b).insert key₃ c : Form).lookup key₂ = some b ∧
      (((AList.insert key₁ a ∅).insert key₂ b).insert key₃ c : Form).lookup key₃ = some c := by
  obtain ⟨h12, h13, h23⟩ := h
  simp only [HashMap.lookup_insert_eq, h12, h13, h23, if_true, if_false, and_self]

/-- The path of a request has no white space. -/
theorem isWord_agentPath (tenantId namespace' value : String) (includeRules : Bool) :
    IsWord (agentPath tenantId namespace' value includeRules) := by
  have hencoded : ∀ value : String, ∀ c ∈ (percentEncode value).toList, isWhitespace c = false := by
    intro value c hc
    rw [percentEncode, String.toList_ofList] at hc
    obtain ⟨byte, -, hc⟩ := List.mem_flatMap.mp hc
    exact (percentByte_ascii byte c hc).2.2.2.2
  have hplain : ∀ text ∈ ["/v1/check?tenant_id=", "/v1/lookup?tenant_id=", "&namespace=", "&value=",
      "&key="], ∀ c ∈ text.toList, isWhitespace c = false := by
    intro text htext c hc
    have hall : (["/v1/check?tenant_id=", "/v1/lookup?tenant_id=", "&namespace=", "&value=",
        "&key="].all fun text => text.toList.all fun c => !isWhitespace c) = true := by decide
    simpa using List.all_eq_true.mp (List.all_eq_true.mp hall text htext) c hc
  cases includeRules
  all_goals
    refine ⟨fun h => ?_, fun c hc => ?_⟩
    · have := congrArg String.toList h
      simp [agentPath] at this
    · simp only [agentPath, Bool.false_eq_true, if_true, if_false, String.toList_append,
        List.mem_append] at hc
      rcases hc with ((((hc | hc) | hc) | hc) | hc) | hc
      · exact hplain _ (by simp) c hc
      · exact hencoded _ c hc
      · exact hplain _ (by simp) c hc
      · exact hencoded _ c hc
      · exact hplain _ (by simp) c hc
      · exact hencoded _ c hc

section Served

variable (serde : SerdeJson) (ord : IterOrder) (state : ActiveState) (nowUnix : Nat)
  (others : HttpRequest → Result Reply) {request : HttpRequest} {tenantId namespace' value : String}

/-- What an agent answers to the request of the application. -/
theorem agentService_agentPath (htenant : tenantId ≠ "") (hnamespace : namespace' ≠ "")
    (hvalue : value ≠ "") (includeRules : Bool) (hmethod : request.method = "GET")
    (hpath : request.path = agentPath tenantId namespace' value includeRules) :
    agentService serde ord state nowUnix others request () =
      (.ok ⟨200, .json, utf8 (formatDecision serde
        (if includeRules then state.check ord tenantId namespace' value nowUnix
          else state.lookup tenantId namespace' value nowUnix))⟩, ()) := by
  unfold agentService
  rw [hpath, hmethod]
  cases includeRules with
  | false =>
    have hparse := parseQueryPath_encoded "/v1/lookup" "tenant_id" "namespace" "key" tenantId namespace'
      value (by decide) (by decide +kernel)
    rw [← path_eq] at hparse
    obtain ⟨h1, h2, h3⟩ :=
      @lookup_params "tenant_id" "namespace" "key" (by decide) tenantId namespace' value
    rw [agentPath, if_neg Bool.false_ne_true,
      show "/v1/lookup?tenant_id=" = "/v1/lookup" ++ "?tenant_id=" from rfl,
      show "&key=" = "&" ++ "key" ++ "=" from rfl, hparse, ok_bind]
    dsimp only
    rw [if_pos ⟨rfl, rfl⟩]
    unfold getLookup
    rw [requiredQuery_of_lookup h1 htenant, ok_bind, requiredQuery_of_lookup h2 hnamespace, ok_bind,
      requiredQuery_of_lookup h3 hvalue, ok_bind]
    rfl
  | true =>
    have hparse := parseQueryPath_encoded "/v1/check" "tenant_id" "namespace" "value" tenantId namespace'
      value (by decide) (by decide +kernel)
    rw [← path_eq] at hparse
    obtain ⟨h1, h2, h3⟩ :=
      @lookup_params "tenant_id" "namespace" "value" (by decide) tenantId namespace' value
    rw [agentPath, if_pos rfl,
      show "/v1/check?tenant_id=" = "/v1/check" ++ "?tenant_id=" from rfl,
      show "&value=" = "&" ++ "value" ++ "=" from rfl, hparse, ok_bind]
    dsimp only
    rw [if_neg (by decide), if_pos ⟨rfl, rfl⟩]
    unfold getCheck
    rw [requiredQuery_of_lookup h1 htenant, ok_bind, requiredQuery_of_lookup h2 hnamespace, ok_bind, h3,
      Option.some_or, Option.filter_some, if_pos (decide_eq_true hvalue)]
    rfl

end Served

/-- The head of the request that the application sends. -/
def agentHead (agentAddr path : String) : List UInt8 :=
  utf8 s!"GET {path} HTTP/1.1\r\nHost: {agentAddr}\r\nConnection: close\r\n\r\n"

theorem httpGetWithHeaders_nil {connect : String → Result Unit} {agentAddr : String}
    (h : connect agentAddr = .ok ()) (path : String) :
    httpGetWithHeaders connect agentAddr path [] = .ok (agentHead agentAddr path) := by
  have hextra : formatExtraHeaders [] = .ok "" := rfl
  unfold httpGetWithHeaders
  rw [hextra, ok_bind]
  dsimp only
  rw [h, ok_bind]
  refine congrArg (fun text => Except.ok (utf8 text)) (String.toList_inj.mp ?_)
  have hstring : ∀ text : String, toString text = text := fun _ => rfl
  simp [hstring]

/-- The application sends no body. -/
theorem getFields_contentLength (agentAddr : String) :
    ∀ field ∈ getFields agentAddr [], toAsciiLowercase field.1 ≠ "content-length" := by
  have hown : toAsciiLowercase "Host" ≠ "content-length" ∧
      toAsciiLowercase "Connection" ≠ "content-length" := by
    decide +kernel
  simp [getFields, hown]

section Http

variable (serde : SerdeJson) (ord : IterOrder) (state : ActiveState) (nowUnix : Nat)
  (others : HttpRequest → Result Reply) {link : Link} {agentAddr tenantId namespace' value : String}

/-- A head that is not too large reaches the agent, and its answer is read back. -/
theorem resolveAclDecision_small (hlink : link.Sound) (hwhole : link.Whole)
    (hconnect : link.connect agentAddr = .ok ()) (htenant : tenantId ≠ "") (hnamespace : namespace' ≠ "")
    (hvalue : value ≠ "") (includeRules : Bool) {decision : Decision}
    (hdecision : decision =
      if includeRules then state.check ord tenantId namespace' value nowUnix
      else state.lookup tenantId namespace' value nowUnix)
    (hserde : serde.Restores (decisionFields decision)) (hfits : decision.Fits)
    (hsmall : (agentHead agentAddr (agentPath tenantId namespace' value includeRules)).length ≤ 64 * 1024) :
    resolveAclDecision serde
      (.http agentAddr link (agentService serde ord state nowUnix others)) tenantId namespace' value
      includeRules = .ok decision := by
  have hsent := httpGetWithHeaders_nil hconnect (agentPath tenantId namespace' value includeRules)
  have hedge : decision.OfEdge := by
    rw [hdecision]
    split
    · exact state.ofEdge_check ..
    · exact state.ofEdge_lookup ..
  rcases readHttpRequest_sentGet (hlink.oneLine agentAddr)
      (isWord_agentPath tenantId namespace' value includeRules) (getFields_contentLength agentAddr) hsent
      (hwhole.flatten _) (hlink.chunks _) with hread | ⟨hlarge, -⟩
  · unfold resolveAclDecision
    dsimp only
    rw [hsent, sendHttp_whole hwhole hread,
      agentService_agentPath serde ord state nowUnix others htenant hnamespace hvalue includeRules rfl rfl,
      ← hdecision]
    exact decisionFromResponseBody_formatDecision hserde hedge hfits
  · exact absurd hsmall (Nat.not_le.mpr hlarge)

/-- A head that is too large is not read by the agent. -/
theorem resolveAclDecision_large (hlink : link.Sound) (hwhole : link.Whole)
    (hconnect : link.connect agentAddr = .ok ())
    (hchunks : ∀ sent, ∀ chunk ∈ link.split sent, chunk.length ≤ 4096) (includeRules : Bool)
    (hlarge : 64 * 1024 + 4096 <
      (agentHead agentAddr (agentPath tenantId namespace' value includeRules)).length) :
    ∃ err, resolveAclDecision serde
      (.http agentAddr link (agentService serde ord state nowUnix others)) tenantId namespace' value
      includeRules = .error err := by
  have hsent := httpGetWithHeaders_nil hconnect (agentPath tenantId namespace' value includeRules)
  obtain ⟨-, hsendable, hhead⟩ := httpGetWithHeaders_ok hsent
  have hreads : (link.split (agentHead agentAddr
      (agentPath tenantId namespace' value includeRules))).flatten <+: utf8 (crlfText (requestLines "GET"
        (agentPath tenantId namespace' value includeRules) (getFields agentAddr []) ++ [""])) ++ [] := by
    rw [hwhole.flatten, List.append_nil, ← hhead]
  obtain ⟨err, herr⟩ := readHttpRequest_large (by decide)
    (isWord_agentPath tenantId namespace' value includeRules)
    (getFields_oneLine hsendable (hlink.oneLine agentAddr hconnect)) hreads (hchunks _)
    (by rw [← hhead]; exact hlarge)
  obtain ⟨err', hclosed⟩ := @sendHttp_error Unit link (agentService serde ord state nowUnix others) ()
    hlink _ err herr
  refine ⟨err', ?_⟩
  unfold resolveAclDecision
  dsimp only
  rw [hsent, hclosed]
  rfl

end Http

/-- To ask an agent over HTTP gives the same decision as to ask its state, if the agent is reached, nothing
is lost on the connection, and the head of the request is not too large for the agent. If it is, there is no
decision. -/
theorem resolveAclDecision_http (serde : SerdeJson) (ord : IterOrder) (state : ActiveState)
    (nowUnix : Nat) (others : HttpRequest → Result Reply) {link : Link} (hlink : link.Sound)
    (hwhole : link.Whole) {agentAddr : String} (hconnect : link.connect agentAddr = .ok ())
    {tenantId namespace' value : String} (htenant : tenantId ≠ "")
    (hnamespace : namespace' ≠ "") (hvalue : value ≠ "") (includeRules : Bool) :
    let decision :=
      if includeRules then state.check ord tenantId namespace' value nowUnix
      else state.lookup tenantId namespace' value nowUnix
    let http := LookupMode.http agentAddr link (agentService serde ord state nowUnix others)
    let head := agentHead agentAddr (agentPath tenantId namespace' value includeRules)
    serde.Restores (decisionFields decision) → decision.Fits →
      resolveAclDecision serde (.embedded ord state nowUnix) tenantId namespace' value includeRules =
        .ok decision ∧
      (head.length ≤ 64 * 1024 →
        resolveAclDecision serde http tenantId namespace' value includeRules = .ok decision) ∧
      ((∀ sent, ∀ chunk ∈ link.split sent, chunk.length ≤ 4096) → 64 * 1024 + 4096 < head.length →
        ∃ err, resolveAclDecision serde http tenantId namespace' value includeRules = .error err) := by
  intro decision http head hserde hfits
  refine ⟨?_, ?_, ?_⟩
  · simp only [resolveAclDecision, decision]
    split <;> rfl
  · exact resolveAclDecision_small serde ord state nowUnix others hlink hwhole hconnect htenant hnamespace
      hvalue includeRules rfl hserde hfits
  · exact fun hchunks => resolveAclDecision_large serde ord state nowUnix others hlink hwhole hconnect
      hchunks includeRules

/-- A key with characters that a query is split at, and with one of two bytes. -/
def reservedKey : String := "a&b=c%2B+ é"

/-- A snapshot that denies the key. -/
def reservedSnapshot : Snapshot :=
  { shardCount := 1, watermarks := [1],
    entries := [{ tenantId := "acme", namespace' := "user",
                  keyHash := stableKeyHash "acme" "user" reservedKey, action := .deny, priority := 7,
                  reasonCode := "fraud", expiresAt := 0, createdBy := "ops", commitSeq := 1,
                  shardId := 0 }],
    rules := [] }

/-- A connection that loses nothing, read byte for byte. -/
def byteLink : Link := ⟨TwoReads.connect, fun sent => sent.map fun byte => [byte], .ok⟩

theorem byteLink_flatten (sent : List UInt8) : (byteLink.split sent).flatten = sent := by
  simp [byteLink, List.flatten_eq_flatMap, List.flatMap_map]

theorem byteLink_chunks (sent : List UInt8) : ∀ chunk ∈ byteLink.split sent, chunk.length = 1 := by
  intro chunk hchunk
  obtain ⟨byte, -, rfl⟩ := List.mem_map.mp hchunk
  rfl

theorem byteLink_whole : byteLink.Whole := ⟨byteLink_flatten, fun _ => rfl⟩

theorem byteLink_sound : byteLink.Sound where
  oneLine := TwoReads.connect_oneLine
  arrives sent := by
    rw [byteLink_flatten]
  chunks sent chunk hchunk hnil := by
    have := byteLink_chunks sent chunk hchunk
    rw [hnil] at this
    cases this
  answers _ _ h := Except.ok.inj h ▸ List.prefix_refl _

/-- The agent, with nothing on its other routes. -/
def reservedAgent (serde : SerdeJson) (state : ActiveState) : LookupMode :=
  .http "127.0.0.1:7000" byteLink
    (agentService serde .given state 100 fun _ => .error (.parse "not found"))

theorem resolveAclDecision_http_reserved :
    ∃ state, ActiveState.fromSnapshot reservedSnapshot = .ok state ∧
      let serde := SerdeJson.only (decisionFields (.deny "fraud" 7 ⟨0, 1, 1, ""⟩))
      resolveAclDecision serde (reservedAgent serde state) "acme" "user" reservedKey
          false = .ok (.deny "fraud" 7 ⟨0, 1, 1, ""⟩) ∧
        resolveAclDecision serde (.embedded .given state 100) "acme" "user" reservedKey false =
          .ok (.deny "fraud" 7 ⟨0, 1, 1, ""⟩) := by
  have hstate : ((ActiveState.fromSnapshot reservedSnapshot).map fun state =>
      state.lookup "acme" "user" reservedKey 100) = .ok (.deny "fraud" 7 ⟨0, 1, 1, ""⟩) := by
    decide +kernel
  obtain ⟨state, hstate, hlookup⟩ := map_eq_ok.mp hstate
  have h := @resolveAclDecision_http
    (SerdeJson.only (decisionFields (.deny "fraud" 7 ⟨0, 1, 1, ""⟩))) .given state 100
    (fun _ => .error (.parse "not found")) byteLink byteLink_sound byteLink_whole "127.0.0.1:7000"
    (by decide) "acme" "user" reservedKey (by decide) (by decide) (by decide) false
  simp only [Bool.false_eq_true, if_false] at h
  rw [hlookup] at h
  obtain ⟨hembedded, hhttp, -⟩ :=
    h (SerdeJson.only_restores _) ⟨fun _ _ _ heq => by cases heq; decide⟩
  exact ⟨state, hstate, hhttp (by decide +kernel), hembedded⟩

/-- A key of 80000 bytes. -/
def longKey : String := String.ofList (List.replicate 40000 'é')

theorem length_percentEncode (value : String) :
    (utf8 value).length ≤ (utf8 (percentEncode value)).length := by
  rw [utf8_percentEncode]
  induction utf8 value with
  | nil => exact Nat.le_refl _
  | cons byte bytes ih =>
    have hbyte : 1 ≤ ((percentByte byte).map asciiByte).length := by
      rcases percentByte_cases byte with ⟨hbyte, -⟩ | ⟨_, _, hbytes, -⟩
      · rw [hbyte]
        exact Nat.le_refl 1
      · rw [hbytes]
        exact Nat.le_add_left 1 2
    rw [List.flatMap_cons, List.length_append, List.length_cons, Nat.add_comm]
    exact Nat.add_le_add hbyte ih

theorem length_longKey : (utf8 longKey).length = 80000 := by
  have hchar : (String.utf8EncodeChar 'é').length = 2 := by decide
  unfold longKey
  rw [utf8_eq_flatMap, String.toList_ofList, List.length_flatMap, List.map_replicate, hchar,
    List.sum_replicate_nat]

/-- The agent does not read the request for a key that is too long, while the state decides. -/
theorem not_resolveAclDecision_http :
    ∃ state, ActiveState.fromSnapshot reservedSnapshot = .ok state ∧
      let serde := SerdeJson.only (decisionFields .allow)
      (∃ err, resolveAclDecision serde (reservedAgent serde state) "acme" "user" longKey false =
          .error err) ∧
        resolveAclDecision serde (.embedded .given state 100) "acme" "user" longKey false =
          .ok (state.lookup "acme" "user" longKey 100) := by
  have hstate : ((ActiveState.fromSnapshot reservedSnapshot).map fun _ => ()) = .ok () := by
    decide +kernel
  obtain ⟨state, hstate, -⟩ := map_eq_ok.mp hstate
  refine ⟨state, hstate, ?_, rfl⟩
  refine resolveAclDecision_large _ .given state 100 _ byteLink_sound byteLink_whole (by decide)
    (fun sent chunk hchunk => (byteLink_chunks sent chunk hchunk).le.trans (by decide)) false ?_
  have hkey := length_percentEncode longKey
  rw [length_longKey] at hkey
  have hstring : ∀ text : String, toString text = text := fun _ => rfl
  simp only [agentHead, agentPath, Bool.false_eq_true, if_false, hstring, utf8_append,
    List.length_append]
  omega

end Globacl
