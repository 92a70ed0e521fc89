import Globacl.Core.Words

/-!
# Connections (`globacl-core/src/lib/http.rs`, `nats.rs`)

A client opens a connection for each request, sends it and reads the answer up to the end of the
connection. A connection may fail at any place: what was sent may arrive in part or not at all, and so may
the answer.

* `readHttpRequest_cases`: a request of any method and any headers is read back, however it is split.
* `readHttpRequest_arrived`: the same of a request that may be cut off.
* `readHttpRequest_large`: a head that is too large is refused.
* `parseHttpResponse_write`, `parseHttpResponse_begins`: an answer is read back, in full or cut off.
-/

namespace Globacl

open Lib

/-- `http_get_with_headers` up to the bytes that it sends. -/
def httpGetWithHeaders (connect : String → Result Unit) (addr path : String)
    (headers : List (String × String)) : Result (List UInt8) := do
  let extraHeaders ← formatExtraHeaders headers
  let request := s!"GET {path} HTTP/1.1\r\nHost: {addr}\r\n{extraHeaders}Connection: close\r\n\r\n"
  connect addr
  pure (utf8 request)

/-- The content types of the answers. -/
inductive ContentType where
  | json
  | octetStream
  deriving DecidableEq

def ContentType.asStr : ContentType → String
  | json => "application/json"
  | octetStream => "application/octet-stream"

/-- What `write_http_response` is given. -/
structure Reply where
  statusCode : UInt16
  contentType : ContentType
  body : List UInt8
  deriving DecidableEq

/-- The reason of a status line. -/
def reasonPhrase (statusCode : UInt16) : String :=
  if statusCode = 200 then "OK"
  else if statusCode = 201 then "Created"
  else if statusCode = 400 then "Bad Request"
  else if statusCode = 401 then "Unauthorized"
  else if statusCode = 403 then "Forbidden"
  else if statusCode = 404 then "Not Found"
  else if statusCode = 409 then "Conflict"
  else if statusCode = 405 then "Method Not Allowed"
  else if statusCode = 502 then "Bad Gateway"
  else if statusCode = 503 then "Service Unavailable"
  else if statusCode = 500 then "Internal Server Error"
  else "OK"

/-- `write_http_response`. -/
def writeHttpResponse (reply : Reply) : List UInt8 :=
  utf8 (s!"HTTP/1.1 {reply.statusCode.toNat} {reasonPhrase reply.statusCode}\r\n" ++
    s!"Content-Type: {reply.contentType.asStr}\r\nContent-Length: {reply.body.length}\r\n" ++
    "Connection: close\r\n\r\n") ++ reply.body

/-- `parse_http_response`. The text of the UTF-8 error is left out. -/
def parseHttpResponse (bytes : List UInt8) : Result (HttpResponse (List UInt8)) :=
  match findSubslice headerTerminator bytes with
  | none => .error (.parse "missing http response headers")
  | some pos =>
    match fromUtf8 (bytes.take (pos + 4)) with
    | none => .error (.parse "response header is not utf8")
    | some header =>
      match lines header with
      | [] => .error (.parse "missing response status line")
      | statusLine :: _ =>
        match (splitWhitespace statusLine)[1]? with
        | none => .error (.parse "missing response status code")
        | some code =>
          match parseUnsigned (2 ^ 16 - 1) code with
          | .error err => .error (.parse s!"invalid status code: {err}")
          | .ok statusCode => .ok ⟨statusCode, bytes.drop (pos + 4)⟩

/-! ## Any request is read back -/

section Lines

variable {method path : String} {fields : List (String × String)} {body : List UInt8}

/-- The lines before the empty one. -/
def requestLines (method path : String) (fields : List (String × String)) : List String :=
  spaced [method, path, "HTTP/1.1"] :: fields.map fieldLine

/-- The length of the body that the headers announce. -/
def announced (n : Nat) (fields : List (String × String)) : Nat :=
  if fields.any fun field => toAsciiLowercase field.1 = "content-length" then n else 0

/-- The header can be written: it is on one line, and its name ends with the colon. -/
structure OneLine (field : String × String) : Prop where
  colon : ':' ∉ field.1.toList
  cr : '\r' ∉ (fieldLine field).toList
  lf : '\n' ∉ (fieldLine field).toList

theorem requestLine_oneLine (hmethod : IsWord method) (hpath : IsWord path) {c : Char}
    (hc : isWhitespace c = true) (hspace : c ≠ ' ') :
    c ∉ (spaced [method, path, "HTTP/1.1"]).toList := by
  have hversion : IsWord "HTTP/1.1" := by decide
  simp only [spaced, String.toList_append, List.mem_append, not_or]
  exact ⟨⟨hmethod.not_mem hc, by simpa using hspace⟩, ⟨hpath.not_mem hc, by simpa using hspace⟩,
    hversion.not_mem hc⟩

theorem parseHeaders_requestLines (hmethod : IsWord method) (hpath : IsWord path)
    (hfields : ∀ field ∈ fields, OneLine field) {n : Nat}
    (hlength : ∀ field ∈ fields, toAsciiLowercase field.1 = "content-length" →
      parseUnsigned (2 ^ 64 - 1) (trim field.2) = .ok n) :
    parseHeaders (crlfText (requestLines method path fields ++ [""])) =
      .ok (method, path, readFields fields ∅, announced n fields) := by
  have hlines : lines (crlfText (requestLines method path fields ++ [""])) =
      requestLines method path fields ++ [""] := by
    refine lines_flatMap_crlf fun line hline => ?_
    rcases List.mem_append.mp hline with hline | hline
    · rcases List.mem_cons.mp hline with rfl | hline
      · exact requestLine_oneLine hmethod hpath (by decide) (by decide)
      · obtain ⟨field, hfield, rfl⟩ := List.mem_map.mp hline
        exact (hfields field hfield).lf
    · rw [List.mem_singleton.mp hline]
      decide
  have hwords : splitWhitespace (spaced [method, path, "HTTP/1.1"]) = [method, path, "HTTP/1.1"] := by
    refine splitWhitespace_spaced fun word hword => ?_
    simp only [List.mem_cons, List.not_mem_nil, or_false] at hword
    rcases hword with rfl | rfl | rfl
    · exact hmethod
    · exact hpath
    · decide
  have hempty : ∀ state, readHeaderLine state "" = .ok state := fun _ => rfl
  unfold parseHeaders
  rw [hlines, requestLines, List.cons_append]
  dsimp only
  rw [hwords]
  dsimp only
  rw [List.foldlM_append, foldlM_readHeaderLine (fun field hfield => (hfields field hfield).colon) hlength,
    ok_bind, List.foldlM_cons, hempty, ok_bind, List.foldlM_nil]
  rfl

/-- The first loop ends with the headers in the buffer, or it finds that they are too large. -/
theorem readHeaders_cases {head : List UInt8} {reads : List (List UInt8)} {buffer : List UInt8}
    (hfind : findSubslice headerTerminator (head ++ body) = some (head.length - 4))
    (hlen : 4 ≤ head.length) (hreads : ∀ chunk ∈ reads, chunk ≠ [])
    (hall : buffer ++ reads.flatten = head ++ body) (hshort : buffer.length < head.length) :
    (∃ buffer' reads', readHeaders reads buffer = .ok (buffer', head.length, reads') ∧
      buffer' ++ reads'.flatten = head ++ body ∧ head.length ≤ buffer'.length ∧
      ∀ chunk ∈ reads', chunk ≠ []) ∨
    (64 * 1024 < head.length ∧ ∃ err, readHeaders reads buffer = .error err) := by
  by_cases hmax : head.length ≤ 64 * 1024
  · exact Or.inl (readHeaders_eq hfind hlen hmax hreads hall hshort)
  rw [Nat.not_le] at hmax
  induction reads generalizing buffer with
  | nil => exact Or.inr ⟨hmax, _, rfl⟩
  | cons chunk reads ih =>
    rw [List.flatten_cons, ← List.append_assoc] at hall
    have hchunk := hreads chunk List.mem_cons_self
    have hrest : ∀ chunk ∈ reads, chunk ≠ [] := fun c hc => hreads c (List.mem_cons_of_mem _ hc)
    have hbefore := findSubslice_append (by decide) (hall.symm ▸ hfind)
    rw [readHeaders, if_neg hchunk, hbefore]
    by_cases hread : head.length ≤ (buffer ++ chunk).length
    · rw [if_pos (by simp only [headerTerminator, List.length_cons, List.length_nil]; omega)]
      refine Or.inl ⟨buffer ++ chunk, reads, ?_, hall, hread, hrest⟩
      dsimp only
      rw [Nat.sub_add_cancel hlen]
    · rw [if_neg (by simp only [headerTerminator, List.length_cons, List.length_nil]; omega)]
      dsimp only
      by_cases hlarge : (buffer ++ chunk).length > 64 * 1024
      · rw [if_pos hlarge]
        exact Or.inr ⟨hmax, _, rfl⟩
      · rw [if_neg hlarge]
        exact ih hrest hall (by omega)

/-- Where the head of a request ends. -/
theorem findSubslice_requestLines (hmethod : IsWord method) (hpath : IsWord path)
    (hfields : ∀ field ∈ fields, OneLine field) (body : List UInt8) :
    findSubslice headerTerminator
        (utf8 (crlfText (requestLines method path fields ++ [""])) ++ body) =
      some ((utf8 (crlfText (requestLines method path fields ++ [""]))).length - 4) ∧
    4 ≤ (utf8 (crlfText (requestLines method path fields ++ [""]))).length := by
  have hlines : ∀ line ∈ requestLines method path fields,
      line.toList ≠ [] ∧ '\r' ∉ line.toList := by
    intro line hline
    rcases List.mem_cons.mp hline with rfl | hline
    · refine ⟨?_, requestLine_oneLine hmethod hpath (by decide) (by decide)⟩
      simp [spaced]
    · obtain ⟨field, hfield, rfl⟩ := List.mem_map.mp hline
      exact ⟨by simp [fieldLine], (hfields field hfield).cr⟩
  have hhead : utf8 (crlfText (requestLines method path fields ++ [""])) =
      ((requestLines method path fields).map utf8).flatMap (· ++ [13, 10]) ++ [13, 10] := by
    rw [utf8_crlfText, List.map_append, List.flatMap_append]
    rfl
  constructor
  · rw [hhead, List.append_assoc, List.length_append]
    refine findSubslice_lines (by simp [requestLines]) fun line hline => ?_
    obtain ⟨l, hl, rfl⟩ := List.mem_map.mp hline
    exact utf8_line (hlines l hl).1 (hlines l hl).2
  · rw [hhead, List.length_append, requestLines, List.map_cons, List.flatMap_cons,
      List.length_append, List.length_append]
    simp only [List.length_cons, List.length_nil]
    omega

/-- A request is read as it was written, whatever the lengths of the reads, unless its headers or its
body are too large. -/
theorem readHttpRequest_cases (hmethod : IsWord method) (hpath : IsWord path)
    (hfields : ∀ field ∈ fields, OneLine field)
    (hlength : ∀ field ∈ fields, toAsciiLowercase field.1 = "content-length" →
      parseUnsigned (2 ^ 64 - 1) (trim field.2) = .ok body.length)
    (hbody : announced body.length fields = body.length) {reads : List (List UInt8)}
    (hreads : reads.flatten = utf8 (crlfText (requestLines method path fields ++ [""])) ++ body)
    (hchunks : ∀ chunk ∈ reads, chunk ≠ []) :
    readHttpRequest reads = .ok ⟨method, path, readFields fields ∅, body⟩ ∨
      ((64 * 1024 < (utf8 (crlfText (requestLines method path fields ++ [""]))).length ∨
          maxHttpBodyBytes < body.length) ∧
        ∃ err, readHttpRequest reads = .error err) := by
  obtain ⟨hfind, hfour⟩ := findSubslice_requestLines hmethod hpath hfields body
  have hparse := parseHeaders_requestLines hmethod hpath hfields hlength
  generalize crlfText (requestLines method path fields ++ [""]) = text at *
  rcases readHeaders_cases hfind hfour hchunks ((List.nil_append _).trans hreads) (by
      rw [List.length_nil]
      omega) with ⟨buffer, reads', hloop, hall, hread, hchunks'⟩ | ⟨hlarge, err, hloop⟩
  · have htake : buffer.take (utf8 text).length = utf8 text := by
      have h := congrArg (List.take (utf8 text).length) hall
      rwa [List.take_append_of_le_length hread, List.take_left] at h
    have hrest := readBody_eq hchunks' hall
    rw [List.length_append] at hrest
    unfold readHttpRequest
    rw [hloop, ok_bind]
    dsimp only
    rw [htake, fromUtf8_utf8]
    dsimp only
    rw [hparse, ok_bind]
    dsimp only
    rw [hbody]
    by_cases hmax : body.length > maxHttpBodyBytes
    · right
      rw [if_pos hmax]
      exact ⟨Or.inr hmax, _, rfl⟩
    · left
      rw [if_neg hmax, hrest, ok_bind, ← List.length_append, List.take_length, List.drop_left]
      rfl
  · right
    refine ⟨Or.inl hlarge, err, ?_⟩
    unfold readHttpRequest
    rw [hloop, error_bind]

/-- A request whose body is not too large. -/
theorem readHttpRequest_lines (hmethod : IsWord method) (hpath : IsWord path)
    (hfields : ∀ field ∈ fields, OneLine field)
    (hlength : ∀ field ∈ fields, toAsciiLowercase field.1 = "content-length" →
      parseUnsigned (2 ^ 64 - 1) (trim field.2) = .ok body.length)
    (hbody : announced body.length fields = body.length) (hmax : body.length ≤ maxHttpBodyBytes)
    {reads : List (List UInt8)}
    (hreads : reads.flatten = utf8 (crlfText (requestLines method path fields ++ [""])) ++ body)
    (hchunks : ∀ chunk ∈ reads, chunk ≠ []) :
    readHttpRequest reads = .ok ⟨method, path, readFields fields ∅, body⟩ ∨
      (64 * 1024 < (utf8 (crlfText (requestLines method path fields ++ [""]))).length ∧
        ∃ err, readHttpRequest reads = .error err) := by
  rcases readHttpRequest_cases hmethod hpath hfields hlength hbody hreads hchunks with
    hread | ⟨hlarge, herr⟩
  · exact Or.inl hread
  · exact Or.inr ⟨hlarge.resolve_right (Nat.not_lt.mpr hmax), herr⟩

/-- The first loop refuses a head that is longer than what it keeps and one read. -/
theorem readHeaders_large {head sent : List UInt8} {reads : List (List UInt8)} {buffer : List UInt8}
    (hfind : findSubslice headerTerminator sent = some (head.length - 4))
    (hall : buffer ++ reads.flatten <+: sent) (hbuffer : buffer.length ≤ 64 * 1024)
    (hchunks : ∀ chunk ∈ reads, chunk.length ≤ 4096) (hlarge : 64 * 1024 + 4096 < head.length) :
    ∃ err, readHeaders reads buffer = .error err := by
  induction reads generalizing buffer with
  | nil => exact ⟨_, rfl⟩
  | cons chunk reads ih =>
    obtain ⟨rest, hrest⟩ := hall
    rw [List.flatten_cons, ← List.append_assoc] at hrest
    have hchunk := hchunks chunk List.mem_cons_self
    have hlength : (buffer ++ chunk).length = buffer.length + chunk.length := List.length_append
    have hwhole : findSubslice headerTerminator ((buffer ++ chunk) ++ (reads.flatten ++ rest)) =
        some (head.length - 4) := by
      rw [← List.append_assoc, hrest, hfind]
    have hbefore := findSubslice_append (by decide) hwhole
    rw [if_neg (by simp only [headerTerminator, List.length_cons, List.length_nil]; omega)] at hbefore
    rw [readHeaders]
    by_cases hempty : chunk = []
    · rw [if_pos hempty]
      exact ⟨_, rfl⟩
    rw [if_neg hempty, hbefore]
    dsimp only
    by_cases hfull : (buffer ++ chunk).length > 64 * 1024
    · rw [if_pos hfull]
      exact ⟨_, rfl⟩
    · rw [if_neg hfull]
      exact ih ⟨rest, hrest⟩ (Nat.le_of_not_lt hfull)
        (fun c hc => hchunks c (List.mem_cons_of_mem _ hc))

/-- A reader with the buffer of `read_http_request` refuses a head that is too large, however it is
split. -/
theorem readHttpRequest_large (hmethod : IsWord method) (hpath : IsWord path)
    (hfields : ∀ field ∈ fields, OneLine field) {reads : List (List UInt8)}
    (hreads : reads.flatten <+: utf8 (crlfText (requestLines method path fields ++ [""])) ++ body)
    (hchunks : ∀ chunk ∈ reads, chunk.length ≤ 4096)
    (hlarge : 64 * 1024 + 4096 < (utf8 (crlfText (requestLines method path fields ++ [""]))).length) :
    ∃ err, readHttpRequest reads = .error err := by
  have hfind := (findSubslice_requestLines hmethod hpath hfields body).1
  obtain ⟨err, herr⟩ := readHeaders_large hfind ((List.nil_append reads.flatten).symm ▸ hreads)
    (Nat.zero_le _) hchunks hlarge
  refine ⟨err, ?_⟩
  unfold readHttpRequest
  rw [herr]
  rfl

end Lines

/-! ## What is read of a request that is cut off -/

section Reads

variable {reads : List (List UInt8)}

theorem readHeaders_append {buffer buffer' : List UInt8} {pos : Nat} {rest : List (List UInt8)}
    (h : readHeaders reads buffer = .ok (buffer', pos, rest)) (more : List (List UInt8)) :
    readHeaders (reads ++ more) buffer = .ok (buffer', pos, rest ++ more) := by
  induction reads generalizing buffer with
  | nil => cases h
  | cons chunk reads ih =>
    rw [List.cons_append]
    unfold readHeaders at h ⊢
    split at h
    · cases h
    · rename_i hchunk
      rw [if_neg hchunk]
      split at h
      · cases h
        rfl
      · split at h
        · cases h
        · rename_i hlarge
          rw [if_neg hlarge]
          exact ih h

theorem readBody_append {n : Nat} {buffer buffer' : List UInt8}
    (h : readBody n reads buffer = .ok buffer') (more : List (List UInt8)) :
    readBody n (reads ++ more) buffer = .ok buffer' := by
  induction reads generalizing buffer with
  | nil =>
    unfold readBody at h ⊢
    split at h
    · cases h
    · rename_i hlen
      rw [if_neg hlen]
      exact h
  | cons chunk reads ih =>
    rw [List.cons_append]
    unfold readBody at h ⊢
    split at h
    · rename_i hlen
      rw [if_pos hlen]
      dsimp only at h ⊢
      split at h
      · cases h
      · rename_i hchunk
        rw [if_neg hchunk]
        exact ih h
    · rename_i hlen
      rw [if_neg hlen]
      exact h

/-- A request that has been read is not affected by what comes after it. -/
theorem readHttpRequest_append {request : HttpRequest} (h : readHttpRequest reads = .ok request)
    (more : List (List UInt8)) : readHttpRequest (reads ++ more) = .ok request := by
  unfold readHttpRequest at h ⊢
  obtain ⟨⟨buffer, pos, rest⟩, hheaders, h⟩ := bind_eq_ok.mp h
  rw [readHeaders_append hheaders more, ok_bind]
  dsimp only at h ⊢
  split at h
  · cases h
  · obtain ⟨⟨method, path, headers, contentLength⟩, hparse, h⟩ := bind_eq_ok.mp h
    dsimp only at h ⊢
    rw [hparse, ok_bind]
    dsimp only
    split at h
    · cases h
    · rename_i hmax
      rw [if_neg hmax]
      obtain ⟨body, hbody, h⟩ := bind_eq_ok.mp h
      rw [readBody_append hbody more, ok_bind]
      exact h

/-- Bytes that were cut off, and the rest of them. -/
theorem exists_rest {sent : List UInt8} (hreads : reads.flatten <+: sent)
    (hchunks : ∀ chunk ∈ reads, chunk ≠ []) :
    ∃ more : List (List UInt8), (reads ++ more).flatten = sent ∧
      ∀ chunk ∈ reads ++ more, chunk ≠ [] := by
  obtain ⟨rest, rfl⟩ := hreads
  by_cases hrest : rest = []
  · refine ⟨[], ?_, by rwa [List.append_nil]⟩
    rw [List.append_nil, hrest, List.append_nil]
  · refine ⟨[rest], by simp, fun chunk hchunk => ?_⟩
    rcases List.mem_append.mp hchunk with hchunk | hchunk
    · exact hchunks chunk hchunk
    · rw [List.mem_singleton.mp hchunk]
      exact hrest

/-- What is read of a request that arrives in part is what is read of the whole of it. -/
theorem readHttpRequest_arrived {sent : List UInt8} {p : HttpRequest → Prop} {q : Prop}
    (hreads : reads.flatten <+: sent) (hchunks : ∀ chunk ∈ reads, chunk ≠ [])
    (hwhole : ∀ reads' : List (List UInt8), reads'.flatten = sent → (∀ chunk ∈ reads', chunk ≠ []) →
      (∃ request, readHttpRequest reads' = .ok request ∧ p request) ∨
        (q ∧ ∃ err, readHttpRequest reads' = .error err)) :
    (∃ request, readHttpRequest reads = .ok request ∧ p request) ∨
      ((reads.flatten ≠ sent ∨ q) ∧ ∃ err, readHttpRequest reads = .error err) := by
  cases hread : readHttpRequest reads with
  | ok request =>
    obtain ⟨more, hall, hnonempty⟩ := exists_rest hreads hchunks
    have hmore := readHttpRequest_append hread more
    rcases hwhole _ hall hnonempty with ⟨request', hrequest', hp⟩ | ⟨-, err, herr⟩
    · rw [hmore] at hrequest'
      cases hrequest'
      exact Or.inl ⟨request, rfl, hp⟩
    · rw [hmore] at herr
      cases herr
  | error err =>
    refine Or.inr ⟨?_, err, rfl⟩
    by_cases hall : reads.flatten = sent
    · rcases hwhole reads hall hchunks with ⟨request, hrequest, -⟩ | ⟨hq, -⟩
      · rw [hread] at hrequest
        cases hrequest
      · exact Or.inr hq
    · exact Or.inl hall

end Reads

/-! ## An answer is read back -/

theorem reasonPhrase_not_mem (statusCode : UInt16) :
    '\r' ∉ (reasonPhrase statusCode).toList ∧ '\n' ∉ (reasonPhrase statusCode).toList := by
  unfold reasonPhrase
  repeat' split
  all_goals decide

/-- The lines of an answer before the empty one. -/
def responseLines (reply : Reply) : List String :=
  ["HTTP/1.1" ++ " " ++ (toString reply.statusCode.toNat ++ " " ++ reasonPhrase reply.statusCode),
    "Content-Type: " ++ reply.contentType.asStr,
    "Content-Length: " ++ toString reply.body.length, "Connection: close"]

theorem writeHttpResponse_eq (reply : Reply) :
    writeHttpResponse reply = utf8 (crlfText (responseLines reply ++ [""])) ++ reply.body := by
  have hstring : ∀ text : String, toString text = text := fun _ => rfl
  refine congrArg (fun text => utf8 text ++ reply.body) (String.toList_inj.mp ?_)
  simp [hstring, crlfText, responseLines]

/-- No digit of a number ends a line. -/
theorem toString_oneLine (n : Nat) :
    '\r' ∉ (toString n).toList ∧ '\n' ∉ (toString n).toList := by
  constructor
  · intro hmem
    have := isDigit_of_mem_toString hmem
    revert this
    decide
  · intro hmem
    have := isDigit_of_mem_toString hmem
    revert this
    decide

theorem responseLines_oneLine (reply : Reply) : ∀ line ∈ responseLines reply,
    line.toList ≠ [] ∧ '\r' ∉ line.toList ∧ '\n' ∉ line.toList := by
  have hcode := toString_oneLine reply.statusCode.toNat
  have hlength := toString_oneLine reply.body.length
  have hreason := reasonPhrase_not_mem reply.statusCode
  have htype : '\r' ∉ reply.contentType.asStr.toList ∧ '\n' ∉ reply.contentType.asStr.toList := by
    cases reply.contentType <;> decide
  intro line hline
  simp only [responseLines, List.mem_cons, List.not_mem_nil, or_false] at hline
  rcases hline with rfl | rfl | rfl | rfl
  · simp only [String.toList_append, List.mem_append, not_or]
    exact ⟨by simp, ⟨⟨by decide, by decide⟩, ⟨hcode.1, by decide⟩, hreason.1⟩,
      ⟨by decide, by decide⟩, ⟨hcode.2, by decide⟩, hreason.2⟩
  · simp [htype]
  · simp only [String.toList_append, List.mem_append, not_or]
    exact ⟨by simp, ⟨by decide, hlength.1⟩, by decide, hlength.2⟩
  · decide

/-- The head of an answer, and where it ends. -/
theorem findSubslice_responseLines (reply : Reply) (body : List UInt8) :
    findSubslice headerTerminator (utf8 (crlfText (responseLines reply ++ [""])) ++ body) =
      some ((utf8 (crlfText (responseLines reply ++ [""]))).length - 4) ∧
    4 ≤ (utf8 (crlfText (responseLines reply ++ [""]))).length := by
  have hone := responseLines_oneLine reply
  have hhead : utf8 (crlfText (responseLines reply ++ [""])) =
      ((responseLines reply).map utf8).flatMap (· ++ [13, 10]) ++ [13, 10] := by
    rw [utf8_crlfText, List.map_append, List.flatMap_append]
    rfl
  constructor
  · rw [hhead, List.append_assoc, List.length_append]
    refine findSubslice_lines (by simp [responseLines]) fun line hline => ?_
    obtain ⟨l, hl, rfl⟩ := List.mem_map.mp hline
    exact utf8_line (hone l hl).1 (hone l hl).2.1
  · rw [hhead, responseLines, List.map_cons, List.flatMap_cons]
    simp only [List.length_append, List.length_cons, List.length_nil]
    omega

/-- The status is read from the head, and the body is what comes after it. -/
theorem parseHttpResponse_head (reply : Reply) (body : List UInt8) :
    parseHttpResponse (utf8 (crlfText (responseLines reply ++ [""])) ++ body) =
      .ok ⟨reply.statusCode.toNat, body⟩ := by
  have hone := responseLines_oneLine reply
  obtain ⟨hfind, hlength⟩ := findSubslice_responseLines reply body
  have hlines : lines (crlfText (responseLines reply ++ [""])) = responseLines reply ++ [""] := by
    refine lines_flatMap_crlf fun line hline => ?_
    rcases List.mem_append.mp hline with hline | hline
    · exact (hone line hline).2.2
    · rw [List.mem_singleton.mp hline]
      decide
  have hcode : parseUnsigned (2 ^ 16 - 1) (toString reply.statusCode.toNat) =
      .ok reply.statusCode.toNat :=
    parseUnsigned_toString (Nat.le_sub_one_of_lt reply.statusCode.toNat_lt)
  unfold parseHttpResponse
  rw [hfind]
  generalize crlfText (responseLines reply ++ [""]) = text at *
  dsimp only
  rw [Nat.sub_add_cancel hlength, List.take_left, List.drop_left, fromUtf8_utf8]
  dsimp only
  rw [hlines, responseLines, List.cons_append]
  dsimp only
  rw [splitWhitespace_cons (by decide), splitWhitespace_cons (isWord_toString _)]
  simp only [List.getElem?_cons_succ, List.getElem?_cons_zero]
  rw [hcode]

/-- An answer is read as it was written. -/
theorem parseHttpResponse_write (reply : Reply) :
    parseHttpResponse (writeHttpResponse reply) = .ok ⟨reply.statusCode.toNat, reply.body⟩ := by
  rw [writeHttpResponse_eq, parseHttpResponse_head]

/-- An answer that is cut off is read as its status and a part of its body, or not at all. -/
theorem parseHttpResponse_begins {reply : Reply} {received : List UInt8}
    (h : received <+: writeHttpResponse reply) :
    (∃ body, body <+: reply.body ∧
      parseHttpResponse received = .ok ⟨reply.statusCode.toNat, body⟩) ∨
    parseHttpResponse received = .error (.parse "missing http response headers") := by
  rw [writeHttpResponse_eq] at h
  obtain ⟨hfind, hlength⟩ := findSubslice_responseLines reply reply.body
  by_cases hhead : (utf8 (crlfText (responseLines reply ++ [""]))).length ≤ received.length
  · obtain ⟨body, rfl⟩ := List.prefix_of_prefix_length_le (List.prefix_append _ _) h hhead
    exact Or.inl ⟨body, (List.prefix_append_right_inj _).mp h, parseHttpResponse_head reply body⟩
  · right
    obtain ⟨rest, hrest⟩ := h
    rw [← hrest] at hfind
    have hnone := findSubslice_append (by decide) hfind
    rw [if_neg (by simp only [headerTerminator, List.length_cons, List.length_nil]; omega)] at hnone
    unfold parseHttpResponse
    rw [hnone]

/-! ## Services -/

/-- A server: what it answers to a request that it has read, and the state that it is in then. After an
error it closes the connection. -/
abbrev Service (σ : Type) := HttpRequest → σ → Result Reply × σ

/-- What becomes of one connection to a server. -/
structure Link where
  /-- Whether an address is resolved and connected to. -/
  connect : String → Result Unit
  /-- The chunks that the server reads of what is sent. -/
  split : List UInt8 → List (List UInt8)
  /-- What the client gets of the answer: a write or a read of its own may fail or time out. -/
  receive : List UInt8 → Result (List UInt8)

/-- The connection behaves as the network does: an address that can be connected to is on one line, and
nothing arrives that was not sent. -/
structure Link.Sound (link : Link) : Prop where
  oneLine : ∀ addr, link.connect addr = .ok () → '\r' ∉ addr.toList ∧ '\n' ∉ addr.toList
  arrives : ∀ sent, (link.split sent).flatten <+: sent
  chunks : ∀ sent, ∀ chunk ∈ link.split sent, chunk ≠ []
  answers : ∀ answer received, link.receive answer = .ok received → received <+: answer

/-- Everything arrives, in time. -/
structure Link.Whole (link : Link) : Prop where
  flatten : ∀ sent, (link.split sent).flatten = sent
  receive : ∀ answer, link.receive answer = .ok answer

section Services

variable {σ : Type} {link : Link} {service : Service σ} {request : HttpRequest} {s : σ}

/-- One connection of a server: the bytes that it writes, from those that it reads. -/
def Service.serve (service : Service σ) (reads : List (List UInt8)) (s : σ) : List UInt8 × σ :=
  match readHttpRequest reads with
  | .error _ => ([], s)
  | .ok request =>
    match service request s with
    | (.ok reply, s') => (writeHttpResponse reply, s')
    | (.error _, s') => ([], s')

/-- `send_http`, where the request is built and the connection is made before. -/
def sendHttp (link : Link) (service : Service σ) (sent : Result (List UInt8)) (s : σ) :
    Result (HttpResponse (List UInt8)) × σ :=
  match sent with
  | .error err => (.error err, s)
  | .ok bytes =>
    let (answer, s') := service.serve (link.split bytes) s
    ((link.receive answer).bind parseHttpResponse, s')

/-- What a client gets for an answer that arrives. -/
def received : Result Reply → Result (HttpResponse (List UInt8))
  | .ok reply => .ok ⟨reply.statusCode.toNat, reply.body⟩
  | .error _ => .error (.parse "missing http response headers")

theorem sendHttp_whole (hwhole : link.Whole) {sent : List UInt8}
    (hread : readHttpRequest (link.split sent) = .ok request) :
    sendHttp link service (.ok sent) s =
      (received (service request s).1, (service request s).2) := by
  unfold sendHttp Service.serve
  dsimp only
  rw [hread, hwhole.receive]
  dsimp only
  rcases service request s with ⟨err | reply, s'⟩
  · rfl
  · dsimp only [Except.bind]
    rw [parseHttpResponse_write]
    rfl

/-- The server is asked once, and the client gets its answer, a part of it, or an error. -/
theorem sendHttp_read (hlink : link.Sound) {sent : List UInt8}
    (hread : readHttpRequest (link.split sent) = .ok request) :
    ∃ response, sendHttp link service (.ok sent) s = (response, (service request s).2) ∧
      ((∃ err, response = .error err) ∨
        ∃ reply body, (service request s).1 = .ok reply ∧ body <+: reply.body ∧
          response = .ok ⟨reply.statusCode.toNat, body⟩) := by
  unfold sendHttp Service.serve
  dsimp only
  rw [hread]
  dsimp only
  rcases service request s with ⟨err | reply, s'⟩
  · refine ⟨_, rfl, Or.inl ?_⟩
    cases hreceive : link.receive [] with
    | error err => exact ⟨err, rfl⟩
    | ok received =>
      rw [List.prefix_nil.mp (hlink.answers _ _ hreceive)]
      exact ⟨_, rfl⟩
  · refine ⟨_, rfl, ?_⟩
    dsimp only
    cases hreceive : link.receive (writeHttpResponse reply) with
    | error err => exact Or.inl ⟨err, rfl⟩
    | ok received =>
      rcases parseHttpResponse_begins (hlink.answers _ _ hreceive) with ⟨body, hbody, hparse⟩ | hparse
      · exact Or.inr ⟨reply, body, rfl, hbody, hparse⟩
      · exact Or.inl ⟨_, hparse⟩

/-- A server that cannot read the request is not asked. -/
theorem sendHttp_error (hlink : link.Sound) {sent : List UInt8} {err : GlobAclError}
    (hread : readHttpRequest (link.split sent) = .error err) :
    ∃ err, sendHttp link service (.ok sent) s = (.error err, s) := by
  unfold sendHttp Service.serve
  dsimp only
  rw [hread]
  dsimp only
  cases hreceive : link.receive [] with
  | error err => exact ⟨err, rfl⟩
  | ok received =>
    rw [List.prefix_nil.mp (hlink.answers _ _ hreceive)]
    exact ⟨_, rfl⟩

end Services

/-! ## What a client sends -/

/-- All headers that `http_get_with_headers` sends. -/
def getFields (addr : String) (headers : List (String × String)) : List (String × String) :=
  [("Host", addr)] ++ headers.map trimmed ++ [("Connection", "close")]

theorem httpGetWithHeaders_ok {connect : String → Result Unit} {addr path : String}
    {headers : List (String × String)} {sent : List UInt8}
    (h : httpGetWithHeaders connect addr path headers = .ok sent) :
    connect addr = .ok () ∧ (∀ header ∈ headers, Sendable header) ∧
      sent = utf8 (crlfText (requestLines "GET" path (getFields addr headers) ++ [""])) := by
  obtain ⟨extraHeaders, hextra, h⟩ := bind_eq_ok.mp h
  obtain ⟨rfl, hsendable⟩ := formatExtraHeaders_ok hextra
  obtain ⟨⟨⟩, hconnect, h⟩ := bind_eq_ok.mp h
  cases h
  refine ⟨hconnect, hsendable, ?_⟩
  have hstring : ∀ text : String, toString text = text := fun _ => rfl
  refine congrArg utf8 (String.toList_inj.mp ?_)
  simp [hstring, crlfText, requestLines, spaced, getFields, fieldLine]

theorem getFields_oneLine {addr : String} {headers : List (String × String)}
    (hsendable : ∀ header ∈ headers, Sendable header)
    (haddr : '\r' ∉ addr.toList ∧ '\n' ∉ addr.toList) :
    ∀ field ∈ getFields addr headers, OneLine field := by
  intro field hfield
  have hmem : field ∈ postFields addr 0 headers := by
    simp only [getFields, postFields, List.mem_append, List.mem_cons, List.not_mem_nil,
      or_false] at hfield ⊢
    tauto
  obtain ⟨hcolon, hcr, hlf⟩ := postFields_oneLine hsendable haddr field hmem
  exact ⟨hcolon, hcr, hlf⟩

/-- A GET that was sent is read back, unless its headers are too large. -/
theorem readHttpRequest_sentGet {connect : String → Result Unit} {addr path : String}
    {headers : List (String × String)}
    (hconnect : connect addr = .ok () → '\r' ∉ addr.toList ∧ '\n' ∉ addr.toList)
    (hpath : IsWord path)
    (hnames : ∀ field ∈ getFields addr headers, toAsciiLowercase field.1 ≠ "content-length")
    {sent : List UInt8} (hsent : httpGetWithHeaders connect addr path headers = .ok sent)
    {reads : List (List UInt8)} (hreads : reads.flatten = sent)
    (hchunks : ∀ chunk ∈ reads, chunk ≠ []) :
    readHttpRequest reads = .ok ⟨"GET", path, readFields (getFields addr headers) ∅, []⟩ ∨
      (64 * 1024 < sent.length ∧ ∃ err, readHttpRequest reads = .error err) := by
  obtain ⟨hok, hsendable, rfl⟩ := httpGetWithHeaders_ok hsent
  have hannounced : announced ([] : List UInt8).length (getFields addr headers) =
      ([] : List UInt8).length :=
    ite_self _
  exact readHttpRequest_lines (by decide) hpath (getFields_oneLine hsendable (hconnect hok))
    (fun field hfield hname => absurd hname (hnames field hfield)) hannounced (Nat.zero_le _)
    (hreads.trans (List.append_nil _).symm) hchunks

theorem postLines_eq (addr path : String) (bodyLength : Nat) (headers : List (String × String)) :
    postLines addr path bodyLength headers =
      requestLines "POST" path (postFields addr bodyLength headers) := by
  refine congrArg (· :: _) (String.toList_inj.mp ?_)
  simp [spaced]

section Posts

variable {addr path : String} {headers : List (String × String)} {body : List UInt8}

/-- No header but its own gives a POST a content length. -/
theorem contentLength_postFields (hown : ∀ name ∈ headerNames headers, name ∉ ownNames) {n : Nat}
    (hlen : n < 2 ^ 64) : ∀ field ∈ postFields addr n headers,
      toAsciiLowercase field.1 = "content-length" →
      parseUnsigned (2 ^ 64 - 1) (trim field.2) = .ok n := by
  intro field hfield hname
  simp only [postFields, List.mem_append, List.mem_cons, List.mem_map, List.not_mem_nil,
    or_false] at hfield
  have hother : toAsciiLowercase "Host" ≠ "content-length" ∧
      toAsciiLowercase "Content-Type" ≠ "content-length" ∧
      toAsciiLowercase "Connection" ≠ "content-length" := by decide +kernel
  rcases hfield with ((rfl | rfl | rfl) | ⟨header, hheader, rfl⟩) | rfl
  · exact absurd hname hother.1
  · exact absurd hname hother.2.1
  · rw [trim_toString, parseUnsigned_toString (by omega)]
  · exact absurd (by decide) (hown "content-length" (List.mem_map.mpr ⟨header, hheader, hname⟩))
  · exact absurd hname hother.2.2

theorem announced_postFields (n : Nat) : announced n (postFields addr n headers) = n := by
  have hname : toAsciiLowercase "Content-Length" = "content-length" := by decide +kernel
  exact if_pos (List.any_eq_true.mpr
    ⟨("Content-Length", toString n), by simp [postFields], decide_eq_true hname⟩)

/-- A POST that was sent is read back, unless its headers or its body are too large. -/
theorem readHttpRequest_sentPost {connect : String → Result Unit}
    (hconnect : connect addr = .ok () → '\r' ∉ addr.toList ∧ '\n' ∉ addr.toList)
    (hpath : IsWord path) (hown : ∀ name ∈ headerNames headers, name ∉ ownNames)
    (hfit : body.length < 2 ^ 64) {sent : List UInt8}
    (hsent : httpPostWithHeaders connect addr path body headers = .ok sent)
    {reads : List (List UInt8)} (hreads : reads.flatten = sent)
    (hchunks : ∀ chunk ∈ reads, chunk ≠ []) :
    readHttpRequest reads = .ok ⟨"POST", path, readFields (postFields addr body.length headers) ∅, body⟩ ∨
      ((64 * 1024 + body.length < sent.length ∨ maxHttpBodyBytes < body.length) ∧
        ∃ err, readHttpRequest reads = .error err) := by
  obtain ⟨hok, hsendable, rfl⟩ := httpPostWithHeaders_ok hsent
  rw [postLines_eq] at hreads ⊢
  have hone : ∀ field ∈ postFields addr body.length headers, OneLine field := fun field hfield =>
    let ⟨hcolon, hcr, hlf⟩ := postFields_oneLine hsendable (hconnect hok) field hfield
    ⟨hcolon, hcr, hlf⟩
  rcases @readHttpRequest_cases "POST" path (postFields addr body.length headers) body (by decide) hpath
      hone (contentLength_postFields hown hfit) (announced_postFields _) reads hreads hchunks with
    hread | ⟨hlarge, herr⟩
  · exact Or.inl hread
  · refine Or.inr ⟨hlarge.imp_left fun h => ?_, herr⟩
    rw [List.length_append]
    omega

end Posts

end Globacl
