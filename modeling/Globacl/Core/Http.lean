import Globacl.Core.Patterns
import Globacl.Core.Query
import Globacl.Core.Text
import Mathlib.Data.Bool.AllAny

/-!
# HTTP requests (`globacl-core/src/lib/http.rs`)

A request is written as one run of bytes and read from a stream, which returns the bytes in chunks
of any lengths. The reader looks for the end of the headers in what it has read so far, and then
waits for as many bytes as they announce.

* `findSubslice_eq_some`: the first place of a needle.
* `readHttpRequest_post`: what is sent is read back, however it is split.
-/

namespace Globacl

open Lib

structure HttpRequest where
  method : String
  path : String
  headers : HashMap String String
  body : List UInt8

/-- `HttpRequest::header`. -/
def HttpRequest.header (request : HttpRequest) (name : String) : Option String :=
  request.headers.lookup (toAsciiLowercase name)

/-- `HttpResponse`. -/
structure HttpResponse (α : Type) where
  statusCode : Nat
  body : α

/-- `str::strip_prefix`. -/
def stripPrefix (start value : String) : Option String :=
  if start.toList <+: value.toList then some (String.ofList (value.toList.drop start.length)) else none

/-- `HttpRequest::bearer_token`. -/
def HttpRequest.bearerToken (request : HttpRequest) : Option String :=
  (request.header "authorization").bind fun value =>
    (((stripPrefix "Bearer " (trim value)).or (stripPrefix "bearer " (trim value))).map trim).filter
      fun value => value ≠ ""

def maxHttpBodyBytes : Nat := 1024 * 1024

/-! ## Writing -/

/-- The body of the loop of `format_extra_headers`. -/
def pushHeader (out : String) (header : String × String) : Result String :=
  let (name, value) := header
  if '\r' ∈ name.toList ∨ '\n' ∈ name.toList ∨ ':' ∈ name.toList ∨
      '\r' ∈ value.toList ∨ '\n' ∈ value.toList then
    .error (.parse "invalid HTTP header name or value")
  else .ok (out ++ trim name ++ ": " ++ trim value ++ "\r\n")

/-- `format_extra_headers`. -/
def formatExtraHeaders (headers : List (String × String)) : Result String :=
  headers.foldlM pushHeader ""

/-- `http_post_with_headers` up to the bytes that it sends. `connect` stands for resolving an address
and connecting to it. -/
def httpPostWithHeaders (connect : String → Result Unit) (addr path : String) (body : List UInt8)
    (headers : List (String × String)) : Result (List UInt8) := do
  let extraHeaders ← formatExtraHeaders headers
  let request := s!"POST {path} HTTP/1.1\r\nHost: {addr}\r\nContent-Type: application/json\r\n" ++
    s!"Content-Length: {body.length}\r\n{extraHeaders}Connection: close\r\n\r\n"
  connect addr
  pure (utf8 request ++ body)

/-! ## Reading -/

/-- `find_subslice`. -/
def findSubslice (needle : List UInt8) : List UInt8 → Option Nat
  | [] => if needle = [] then some 0 else none
  | byte :: haystack =>
    if needle <+: byte :: haystack then some 0 else (findSubslice needle haystack).map (· + 1)

/-- The bytes `\r\n\r\n`. -/
def headerTerminator : List UInt8 := [13, 10, 13, 10]

/-- The first loop of `read_http_request`. The reads of the stream return the chunks one after the
other, and after them nothing; the loop ends with the buffer, the end of the headers in it and the
reads that are left. -/
def readHeaders :
    List (List UInt8) → List UInt8 → Result (List UInt8 × Nat × List (List UInt8))
  | [], _ => .error (.parse "connection closed before headers")
  | chunk :: reads, buffer =>
    if chunk = [] then .error (.parse "connection closed before headers")
    else
      match findSubslice headerTerminator (buffer ++ chunk) with
      | some pos => .ok (buffer ++ chunk, pos + 4, reads)
      | none =>
        if (buffer ++ chunk).length > 64 * 1024 then .error (.parse "http headers too large")
        else readHeaders reads (buffer ++ chunk)

/-- The second loop of `read_http_request`. -/
def readBody (targetLen : Nat) : List (List UInt8) → List UInt8 → Result (List UInt8)
  | reads, buffer =>
    if buffer.length < targetLen then
      match reads with
      | [] => .error (.parse "connection closed before body")
      | chunk :: reads =>
        if chunk = [] then .error (.parse "connection closed before body")
        else readBody targetLen reads (buffer ++ chunk)
    else .ok buffer

/-- `str::split_whitespace`. -/
def splitWhitespace (value : String) : List String :=
  ((value.toList.splitOnP isWhitespace).filter (· ≠ [])).map String.ofList

/-- The body of the loop over the lines of the headers: the headers and the content length so far. -/
def readHeaderLine (state : HashMap String String × Nat) (line : String) :
    Result (HashMap String String × Nat) :=
  match splitOnce ':' line with
  | none => .ok state
  | some (name, value) =>
    let headers := state.1.insert (toAsciiLowercase (trim name)) (trim value)
    if toAsciiLowercase name = "content-length" then
      match parseUnsigned (2 ^ 64 - 1) (trim value) with
      | .ok contentLength => .ok (headers, contentLength)
      | .error err => .error (.parse s!"invalid content-length: {err}")
    else .ok (headers, state.2)

/-- The text of the headers, as `read_http_request` reads it: the method, the path, the headers and
the content length. -/
def parseHeaders (text : String) : Result (String × String × HashMap String String × Nat) := do
  match lines text with
  | [] => throw (.parse "missing request line")
  | requestLine :: headerLines =>
    match splitWhitespace requestLine with
    | [] => throw (.parse "missing method")
    | [_] => throw (.parse "missing path")
    | method :: path :: _ =>
      let (headers, contentLength) ← headerLines.foldlM readHeaderLine (∅, 0)
      pure (method, path, headers, contentLength)

/-- `read_http_request`. The text of the UTF-8 error and the errors of the stream are left out. -/
def readHttpRequest (reads : List (List UInt8)) : Result HttpRequest := do
  let (buffer, headerEnd, reads) ← readHeaders reads []
  match fromUtf8 (buffer.take headerEnd) with
  | none => throw (.parse "http headers are not utf8")
  | some text =>
    let (method, path, headers, contentLength) ← parseHeaders text
    if contentLength > maxHttpBodyBytes then
      throw (.parse
        s!"http body too large: {contentLength} bytes exceeds {maxHttpBodyBytes}")
    let targetLen := headerEnd + contentLength
    let buffer ← readBody targetLen reads buffer
    pure { method, path, headers, body := (buffer.take targetLen).drop headerEnd }

/-! ## The first place of a needle -/

section Find

variable {needle haystack rest line : List UInt8} {pos : Nat}

theorem findSubslice_eq_some (hne : needle ≠ []) :
    findSubslice needle haystack = some pos ↔
      needle <+: haystack.drop pos ∧ ∀ i < pos, ¬ needle <+: haystack.drop i := by
  induction haystack generalizing pos with
  | nil => simp [findSubslice, hne]
  | cons byte haystack ih =>
    rw [findSubslice]
    by_cases hhere : needle <+: byte :: haystack
    · rw [if_pos hhere]
      constructor
      · rintro ⟨⟩
        exact ⟨hhere, fun i hi => absurd hi (Nat.not_lt_zero i)⟩
      · rintro ⟨-, hfirst⟩
        cases pos with
        | zero => rfl
        | succ pos => exact absurd hhere (hfirst 0 (Nat.succ_pos pos))
    · rw [if_neg hhere, Option.map_eq_some_iff]
      constructor
      · rintro ⟨pos, hpos, rfl⟩
        obtain ⟨hfound, hfirst⟩ := ih.mp hpos
        refine ⟨hfound, fun i hi => ?_⟩
        cases i with
        | zero => exact hhere
        | succ i => exact hfirst i (Nat.lt_of_succ_lt_succ hi)
      · rintro ⟨hfound, hfirst⟩
        cases pos with
        | zero => exact absurd hfound hhere
        | succ pos =>
          exact ⟨pos, ih.mpr ⟨hfound, fun i hi => hfirst (i + 1) (Nat.succ_lt_succ hi)⟩, rfl⟩

/-- A part from the front of the bytes has the needle in the same place, if it reaches that far. -/
theorem findSubslice_append (hne : needle ≠ [])
    (hfind : findSubslice needle (haystack ++ rest) = some pos) :
    findSubslice needle haystack =
      if pos + needle.length ≤ haystack.length then some pos else none := by
  obtain ⟨hfound, hfirst⟩ := (findSubslice_eq_some hne).mp hfind
  have hiff : ∀ i, i ≤ haystack.length → (needle <+: haystack.drop i ↔
      needle <+: (haystack ++ rest).drop i ∧ i + needle.length ≤ haystack.length) := by
    intro i hi
    rw [List.drop_append_of_le_length hi]
    constructor
    · intro h
      have hlen := h.length_le
      rw [List.length_drop] at hlen
      exact ⟨h.trans (List.prefix_append _ _), by omega⟩
    · rintro ⟨h, hlen⟩
      exact List.prefix_of_prefix_length_le h (List.prefix_append _ _) (by rw [List.length_drop]; omega)
  split
  · rename_i hlen
    rw [findSubslice_eq_some hne, hiff pos (by omega)]
    exact ⟨⟨hfound, hlen⟩, fun i hi h => hfirst i hi ((hiff i (by omega)).mp h).1⟩
  · rename_i hlen
    cases hfront : findSubslice needle haystack with
    | none => rfl
    | some i =>
      have hi := ((findSubslice_eq_some hne).mp hfront).1
      have hle : i ≤ haystack.length := by
        by_contra hlt
        rw [List.drop_eq_nil_of_le (by omega), List.prefix_nil] at hi
        exact hne hi
      obtain ⟨hi, hlen'⟩ := (hiff i hle).mp hi
      exact absurd hi (hfirst i (by omega))

/-- There is no end of the headers in a line, nor where the next line does not begin with a carriage
return. -/
theorem findSubslice_line (hline : 13 ∉ line) (hrest : rest.head? ≠ some 13) :
    findSubslice headerTerminator (line ++ 13 :: 10 :: rest) =
      (findSubslice headerTerminator rest).map (· + (line.length + 2)) := by
  induction line with
  | nil =>
    have hnot : ¬ headerTerminator <+: 13 :: 10 :: rest := by
      rintro ⟨t, ht⟩
      have heq := (List.cons.inj (List.cons.inj ht).2).2
      exact hrest (by rw [← heq]; rfl)
    have hnot' : ¬ headerTerminator <+: 10 :: rest := by
      rintro ⟨t, ht⟩
      cases (List.cons.inj ht).1
    rw [List.nil_append, findSubslice, if_neg hnot, findSubslice, if_neg hnot', Option.map_map]
    rfl
  | cons byte line ih =>
    rw [List.mem_cons, not_or] at hline
    have hnot : ¬ headerTerminator <+: byte :: (line ++ 13 :: 10 :: rest) := by
      rintro ⟨t, ht⟩
      exact hline.1 (List.cons.inj ht).1
    rw [List.cons_append, findSubslice, if_neg hnot, ih hline.2, Option.map_map]
    rfl

theorem findSubslice_lastLine (hline : 13 ∉ line) :
    findSubslice headerTerminator (line ++ 13 :: 10 :: 13 :: 10 :: rest) = some line.length := by
  induction line with
  | nil => exact if_pos ⟨rest, rfl⟩
  | cons byte line ih =>
    rw [List.mem_cons, not_or] at hline
    have hnot : ¬ headerTerminator <+: byte :: (line ++ 13 :: 10 :: 13 :: 10 :: rest) := by
      rintro ⟨t, ht⟩
      exact hline.1 (List.cons.inj ht).1
    rw [List.cons_append, findSubslice, if_neg hnot, ih hline.2]
    rfl

/-- The headers end after the last of their lines. -/
theorem findSubslice_lines {ls : List (List UInt8)} (hnil : ls ≠ [])
    (hls : ∀ line ∈ ls, line ≠ [] ∧ 13 ∉ line) :
    findSubslice headerTerminator (ls.flatMap (· ++ [13, 10]) ++ 13 :: 10 :: rest) =
      some ((ls.flatMap (· ++ [13, 10])).length - 2) := by
  induction ls with
  | nil => exact absurd rfl hnil
  | cons line ls ih =>
    obtain ⟨-, hline⟩ := hls line List.mem_cons_self
    cases ls with
    | nil =>
      rw [List.flatMap_cons, List.flatMap_nil, List.append_nil, List.append_assoc,
        List.length_append]
      exact findSubslice_lastLine hline
    | cons next ls =>
      obtain ⟨hnext, hnext'⟩ := hls next (List.mem_cons_of_mem _ List.mem_cons_self)
      obtain ⟨byte, next, rfl⟩ := List.exists_cons_of_ne_nil hnext
      have hhead : ((((byte :: next) :: ls).flatMap (· ++ [13, 10])) ++ 13 :: 10 :: rest).head? ≠
          some 13 := by
        rw [List.flatMap_cons, List.cons_append, List.cons_append, List.cons_append,
          List.head?_cons]
        exact fun h => hnext' (Option.some.inj h ▸ List.mem_cons_self)
      have hlen : 2 ≤ (((byte :: next) :: ls).flatMap (· ++ [13, 10])).length := by
        rw [List.flatMap_cons, List.length_append, List.length_append]
        simp only [List.length_cons]
        omega
      rw [List.flatMap_cons, List.append_assoc, List.append_assoc, List.cons_append,
        List.cons_append, List.nil_append, findSubslice_line hline hhead,
        ih (List.cons_ne_nil _ _) fun l hl => hls l (List.mem_cons_of_mem _ hl), Option.map_some]
      congr 1
      rw [List.length_append, List.length_append]
      simp only [List.length_cons, List.length_nil]
      omega

end Find

/-! ## The two loops -/

section Loops

variable {reads : List (List UInt8)} {buffer head body full : List UInt8}

/-- The first loop ends with the headers in the buffer, and has read nothing twice or not at all. -/
theorem readHeaders_eq (hfind : findSubslice headerTerminator (head ++ body) = some (head.length - 4))
    (hlen : 4 ≤ head.length) (hmax : head.length ≤ 64 * 1024)
    (hreads : ∀ chunk ∈ reads, chunk ≠ []) (hall : buffer ++ reads.flatten = head ++ body)
    (hshort : buffer.length < head.length) :
    ∃ buffer' reads', readHeaders reads buffer = .ok (buffer', head.length, reads') ∧
      buffer' ++ reads'.flatten = head ++ body ∧ head.length ≤ buffer'.length ∧
      ∀ chunk ∈ reads', chunk ≠ [] := by
  induction reads generalizing buffer with
  | nil =>
    have := congrArg List.length hall
    rw [List.flatten_nil, List.append_nil, List.length_append] at this
    omega
  | cons chunk reads ih =>
    rw [List.flatten_cons, ← List.append_assoc] at hall
    have hchunk := hreads chunk List.mem_cons_self
    have hrest : ∀ chunk ∈ reads, chunk ≠ [] := fun c hc => hreads c (List.mem_cons_of_mem _ hc)
    have hprefix := findSubslice_append (by decide) (hall.symm ▸ hfind)
    rw [readHeaders, if_neg hchunk, hprefix]
    by_cases hread : head.length ≤ (buffer ++ chunk).length
    · rw [if_pos (by simp only [headerTerminator, List.length_cons, List.length_nil]; omega)]
      refine ⟨buffer ++ chunk, reads, ?_, hall, hread, hrest⟩
      dsimp only
      rw [Nat.sub_add_cancel hlen]
    · rw [if_neg (by simp only [headerTerminator, List.length_cons, List.length_nil]; omega)]
      rw [if_neg (by omega)]
      exact ih hrest hall (by omega)

/-- The second loop ends with all that was sent in the buffer. -/
theorem readBody_eq (hreads : ∀ chunk ∈ reads, chunk ≠ []) (hall : buffer ++ reads.flatten = full) :
    readBody full.length reads buffer = .ok full := by
  induction reads generalizing buffer with
  | nil =>
    rw [List.flatten_nil, List.append_nil] at hall
    rw [readBody, hall, if_neg (Nat.lt_irrefl _)]
  | cons chunk reads ih =>
    have hchunk := hreads chunk List.mem_cons_self
    rw [List.flatten_cons, ← List.append_assoc] at hall
    rw [readBody]
    by_cases hlt : buffer.length < full.length
    · rw [if_pos hlt, if_neg hchunk]
      exact ih (fun c hc => hreads c (List.mem_cons_of_mem _ hc)) hall
    · have hpos := List.length_pos_iff.mpr hchunk
      have hlen := congrArg List.length hall
      rw [List.length_append, List.length_append] at hlen
      omega

end Loops

/-! ## Trimming -/

theorem trim_trim (value : String) : trim (trim value) = trim value := by
  have hbefore : (trim value).toList <+: value.toList.dropWhile isWhitespace := by
    rw [trim, String.toList_ofList]
    exact List.rdropWhile_prefix _ _
  refine trim_eq_self (fun c hc => ?_) ?_
  · have hhead : (value.toList.dropWhile isWhitespace).head? = some c := by
      obtain ⟨rest, hrest⟩ := hbefore
      rw [← hrest, List.head?_append, hc]
      rfl
    have hnot := List.head?_dropWhile_not isWhitespace value.toList
    rw [hhead] at hnot
    exact hnot
  · rw [trim, String.toList_ofList]
    apply trimEndMatches_eq_self.mp
    exact List.rdropWhile_idempotent _ _

theorem trim_space (value : String) : trim (" " ++ value) = trim value := by
  unfold trim
  rw [String.toList_append, show " ".toList = [' '] from rfl, List.singleton_append,
    List.dropWhile_cons_of_pos (by decide)]

/-! ## The lines of a request -/

def trimmed (header : String × String) : String × String := (trim header.1, trim header.2)

/-- A header as a line. -/
def fieldLine (field : String × String) : String := field.1 ++ ": " ++ field.2

/-- All headers that `http_post_with_headers` sends. -/
def postFields (addr : String) (bodyLength : Nat) (headers : List (String × String)) :
    List (String × String) :=
  [("Host", addr), ("Content-Type", "application/json"), ("Content-Length", toString bodyLength)] ++
    headers.map trimmed ++ [("Connection", "close")]

/-- The lines with their ends, as one text. -/
def crlfText (ls : List String) : String :=
  String.ofList (ls.flatMap fun line => line.toList ++ ['\r', '\n'])

theorem crlfText_append (ls ls' : List String) :
    crlfText (ls ++ ls') = crlfText ls ++ crlfText ls' := by
  unfold crlfText
  rw [List.flatMap_append, String.ofList_append]

theorem crlfText_singleton (line : String) : crlfText [line] = line ++ "\r\n" := by
  apply String.toList_inj.mp
  simp [crlfText]

/-- The header can be sent: it is on one line, and its name ends with the colon. -/
structure Sendable (header : String × String) : Prop where
  name_cr : '\r' ∉ header.1.toList
  name_lf : '\n' ∉ header.1.toList
  name_colon : ':' ∉ header.1.toList
  value_cr : '\r' ∉ header.2.toList
  value_lf : '\n' ∉ header.2.toList

theorem pushHeader_ok {out out' : String} {header : String × String}
    (h : pushHeader out header = .ok out') :
    out' = out ++ crlfText [fieldLine (trimmed header)] ∧ Sendable header := by
  obtain ⟨name, value⟩ := header
  unfold pushHeader at h
  dsimp only at h
  split at h
  · cases h
  · rename_i hok
    simp only [not_or] at hok
    obtain ⟨h₁, h₂, h₃, h₄, h₅⟩ := hok
    cases h
    refine ⟨?_, h₁, h₂, h₃, h₄, h₅⟩
    rw [crlfText_singleton, fieldLine, trimmed]
    simp only [String.append_assoc]

/-- The text of headers that can be sent. -/
def Formatted (headers : List (String × String)) (out : String) : Prop :=
  out = crlfText ((headers.map trimmed).map fieldLine) ∧ ∀ header ∈ headers, Sendable header

theorem formatExtraHeaders_ok {headers : List (String × String)} {out : String}
    (h : formatExtraHeaders headers = .ok out) : Formatted headers out := by
  have hstep : ∀ (done : List (String × String)) (s s' : String) header,
      Formatted done s → pushHeader s header = .ok s' → Formatted (done ++ [header]) s' := by
    rintro done s s' header ⟨rfl, hdone⟩ hpush
    obtain ⟨rfl, hheader⟩ := pushHeader_ok hpush
    refine ⟨?_, fun h hmem => ?_⟩
    · rw [List.map_append, List.map_append, crlfText_append]
      rfl
    · rcases List.mem_append.mp hmem with hmem | hmem
      · exact hdone h hmem
      · rw [List.mem_singleton.mp hmem]
        exact hheader
  have hnil : Formatted [] "" := ⟨rfl, fun _ hmem => absurd hmem List.not_mem_nil⟩
  exact foldlM_collects hstep hnil h

/-- The lines that `http_post_with_headers` sends before the body, without the empty one. -/
def postLines (addr path : String) (bodyLength : Nat) (headers : List (String × String)) :
    List String :=
  ("POST " ++ path ++ " HTTP/1.1") :: (postFields addr bodyLength headers).map fieldLine

theorem httpPostWithHeaders_ok {connect : String → Result Unit} {addr path : String}
    {body sent : List UInt8} {headers : List (String × String)}
    (h : httpPostWithHeaders connect addr path body headers = .ok sent) :
    connect addr = .ok () ∧ (∀ header ∈ headers, Sendable header) ∧
      sent = utf8 (crlfText (postLines addr path body.length headers ++ [""])) ++ body := by
  obtain ⟨extraHeaders, hextra, h⟩ := bind_eq_ok.mp h
  obtain ⟨rfl, hsendable⟩ := formatExtraHeaders_ok hextra
  obtain ⟨⟨⟩, hconnect, h⟩ := bind_eq_ok.mp h
  cases h
  refine ⟨hconnect, hsendable, ?_⟩
  have hstring : ∀ text : String, toString text = text := fun _ => rfl
  refine congrArg (fun text => utf8 text ++ body) (String.toList_inj.mp ?_)
  simp [hstring, crlfText, postLines, postFields, fieldLine]

/-! ## The lines are read back -/

theorem splitWhitespace_requestLine {path : String} (hne : path ≠ "")
    (hpath : ∀ c ∈ path.toList, isWhitespace c = false) :
    splitWhitespace ("POST " ++ path ++ " HTTP/1.1") = ["POST", path, "HTTP/1.1"] := by
  have hlist : ("POST " ++ path ++ " HTTP/1.1").toList =
      "POST".toList ++ ' ' :: (path.toList ++ ' ' :: "HTTP/1.1".toList) := by
    simp
  have hnil : path.toList ≠ [] := fun h => hne (String.toList_inj.mp h)
  unfold splitWhitespace
  rw [hlist, List.splitOnP_append_cons_of_forall_mem (List.all_iff_forall_prop.mp (by decide)) ' '
      (by decide),
    List.splitOnP_append_cons_of_forall_mem hpath ' ' (by decide),
    List.splitOnP_eq_singleton (List.all_iff_forall_prop.mp (by decide))]
  simp [hnil]

/-- A header is read as its name and its value, and a content length is taken. -/
theorem readHeaderLine_fieldLine {field : String × String} (hcolon : ':' ∉ field.1.toList)
    {n : Nat} (hlength : toAsciiLowercase field.1 = "content-length" →
      parseUnsigned (2 ^ 64 - 1) (trim field.2) = .ok n) (state : HashMap String String × Nat) :
    readHeaderLine state (fieldLine field) =
      .ok (state.1.insert (toAsciiLowercase (trim field.1)) (trim field.2),
        if toAsciiLowercase field.1 = "content-length" then n else state.2) := by
  have hline : fieldLine field = field.1 ++ String.singleton ':' ++ (" " ++ field.2) := by
    apply String.toList_inj.mp
    simp [fieldLine]
  unfold readHeaderLine
  rw [hline, splitOnce_append _ hcolon]
  dsimp only
  rw [trim_space]
  by_cases hname : toAsciiLowercase field.1 = "content-length"
  · rw [if_pos hname, if_pos hname, hlength hname]
  · rw [if_neg hname, if_neg hname]

/-- The headers that are read from lines. -/
def readFields (fields : List (String × String)) (headers : HashMap String String) :
    HashMap String String :=
  fields.foldl (fun headers field => headers.insert (toAsciiLowercase (trim field.1)) (trim field.2))
    headers

theorem foldlM_readHeaderLine {n : Nat} {fields : List (String × String)}
    (hcolon : ∀ field ∈ fields, ':' ∉ field.1.toList)
    (hlength : ∀ field ∈ fields, toAsciiLowercase field.1 = "content-length" →
      parseUnsigned (2 ^ 64 - 1) (trim field.2) = .ok n) (state : HashMap String String × Nat) :
    (fields.map fieldLine).foldlM readHeaderLine state =
      .ok (readFields fields state.1,
        if fields.any fun field => toAsciiLowercase field.1 = "content-length" then n
        else state.2) := by
  induction fields generalizing state with
  | nil => simp [readFields, pure, Except.pure]
  | cons field fields ih =>
    rw [List.map_cons, List.foldlM_cons, readHeaderLine_fieldLine (hcolon _ List.mem_cons_self)
      (hlength _ List.mem_cons_self), ok_bind, ih (fun f hf => hcolon f (List.mem_cons_of_mem _ hf))
      fun f hf => hlength f (List.mem_cons_of_mem _ hf)]
    rw [List.any_cons]
    by_cases hname : toAsciiLowercase field.1 = "content-length"
    · rw [if_pos hname, decide_eq_true hname, Bool.true_or, if_pos rfl, ite_self]
      rfl
    · rw [if_neg hname, decide_eq_false hname, Bool.false_or]
      rfl

section Post

variable {addr path : String} {headers : List (String × String)} {bodyLength : Nat}

/-- The names of the headers, as they are read. -/
def headerNames (headers : List (String × String)) : List String :=
  headers.map fun header => toAsciiLowercase (trim header.1)

/-- The names that `http_post_with_headers` sends by itself. -/
def ownNames : List String := ["host", "content-type", "content-length", "connection"]

theorem map_postFields :
    (postFields addr bodyLength headers).map (fun field => toAsciiLowercase (trim field.1)) =
      ["host", "content-type", "content-length"] ++ headerNames headers ++ ["connection"] := by
  have hown : toAsciiLowercase (trim "Host") = "host" ∧
      toAsciiLowercase (trim "Content-Type") = "content-type" ∧
      toAsciiLowercase (trim "Content-Length") = "content-length" ∧
      toAsciiLowercase (trim "Connection") = "connection" := by
    decide +kernel
  simp [postFields, headerNames, trimmed, Function.comp_def, trim_trim, hown]

theorem nodup_postFields (hnames : (headerNames headers).Nodup)
    (hown : ∀ name ∈ headerNames headers, name ∉ ownNames) :
    ((postFields addr bodyLength headers).map fun field => toAsciiLowercase (trim field.1)).Nodup := by
  rw [map_postFields, List.append_assoc, List.nodup_append]
  refine ⟨by decide, ?_, ?_⟩
  · rw [List.nodup_append]
    refine ⟨hnames, by decide, fun name hname name' hname' heq => ?_⟩
    rw [List.mem_singleton.mp hname'] at heq
    exact hown name hname (heq ▸ by decide)
  · intro name hname name' hname' heq
    subst heq
    rcases List.mem_append.mp hname' with hextra | hlast
    · exact hown name hextra (List.mem_of_mem_dropLast hname)
    · rw [List.mem_singleton.mp hlast] at hname
      exact absurd hname (by decide)

/-- Each header is found under its name. -/
theorem lookup_readFields (hnames : (headerNames headers).Nodup)
    (hown : ∀ name ∈ headerNames headers, name ∉ ownNames) {header : String × String}
    (hheader : header ∈ headers) :
    (readFields (postFields addr bodyLength headers) ∅).lookup (toAsciiLowercase (trim header.1)) =
      some (trim header.2) := by
  have hmem : trimmed header ∈ postFields addr bodyLength headers := by
    simp only [postFields, List.mem_append, List.mem_map]
    exact Or.inl (Or.inr ⟨header, hheader, rfl⟩)
  have hname : trim (trimmed header).1 = trim header.1 := trim_trim header.1
  have hvalue : trim (trimmed header).2 = trim header.2 := trim_trim header.2
  rw [← hname, ← hvalue]
  exact HashMap.lookup_foldl_insert_of_mem (fun field : String × String => trim field.2)
    (nodup_postFields hnames hown) hmem

/-- The headers of a request are lines, with a colon after the name. -/
theorem postFields_oneLine (hsendable : ∀ header ∈ headers, Sendable header)
    (haddr : '\r' ∉ addr.toList ∧ '\n' ∉ addr.toList) :
    ∀ field ∈ postFields addr bodyLength headers, ':' ∉ field.1.toList ∧
      '\r' ∉ (fieldLine field).toList ∧ '\n' ∉ (fieldLine field).toList := by
  have hline : ∀ {name value : String} {c : Char}, c ∉ name.toList → c ∉ value.toList → c ≠ ':' →
      c ≠ ' ' → c ∉ (fieldLine (name, value)).toList := by
    intro name value c h₁ h₂ hc hc'
    simp [fieldLine, hc, hc', h₁, h₂]
  have hdigits : ∀ c ∈ (toString bodyLength).toList, c.isDigit = true := fun c =>
    isDigit_of_mem_toString
  have hhost : ':' ∉ "Host".toList ∧ '\r' ∉ "Host".toList ∧ '\n' ∉ "Host".toList := by decide
  have hlength : ':' ∉ "Content-Length".toList ∧ '\r' ∉ "Content-Length".toList ∧
      '\n' ∉ "Content-Length".toList := by decide
  intro field hfield
  simp only [postFields, List.mem_append, List.mem_cons, List.mem_map, List.not_mem_nil,
    or_false] at hfield
  rcases hfield with ((rfl | rfl | rfl) | ⟨header, hheader, rfl⟩) | rfl
  · exact ⟨hhost.1, hline hhost.2.1 haddr.1 (by decide) (by decide),
      hline hhost.2.2 haddr.2 (by decide) (by decide)⟩
  · decide
  · refine ⟨hlength.1, hline hlength.2.1 (fun h => ?_) (by decide) (by decide),
      hline hlength.2.2 (fun h => ?_) (by decide) (by decide)⟩
    · exact absurd (hdigits _ h) (by decide)
    · exact absurd (hdigits _ h) (by decide)
  · have h := hsendable header hheader
    have hname := (trim_sublist header.1).subset
    have hvalue := (trim_sublist header.2).subset
    exact ⟨fun hc => h.name_colon (hname hc),
      hline (fun hc => h.name_cr (hname hc)) (fun hc => h.value_cr (hvalue hc)) (by decide) (by decide),
      hline (fun hc => h.name_lf (hname hc)) (fun hc => h.value_lf (hvalue hc)) (by decide) (by decide)⟩
  · decide

theorem postLines_oneLine (hpath : ∀ c ∈ path.toList, isWhitespace c = false)
    (hsendable : ∀ header ∈ headers, Sendable header)
    (haddr : '\r' ∉ addr.toList ∧ '\n' ∉ addr.toList) :
    ∀ line ∈ postLines addr path bodyLength headers,
      line.toList ≠ [] ∧ '\r' ∉ line.toList ∧ '\n' ∉ line.toList := by
  have hplain : ∀ c, isWhitespace c = true → c ∉ path.toList := by
    intro c hc hmem
    rw [hpath c hmem] at hc
    cases hc
  intro line hline
  rcases List.mem_cons.mp hline with rfl | hline
  · have hcr := hplain '\r' (by decide)
    have hlf := hplain '\n' (by decide)
    simp [hcr, hlf]
  · obtain ⟨field, hfield, rfl⟩ := List.mem_map.mp hline
    exact ⟨by simp [fieldLine], (postFields_oneLine hsendable haddr field hfield).2⟩

/-- The text of the headers is read as it was written. -/
theorem parseHeaders_postLines (hne : path ≠ "") (hpath : ∀ c ∈ path.toList, isWhitespace c = false)
    (hsendable : ∀ header ∈ headers, Sendable header)
    (haddr : '\r' ∉ addr.toList ∧ '\n' ∉ addr.toList)
    (hown : ∀ name ∈ headerNames headers, name ∉ ownNames) (hlen : bodyLength < 2 ^ 64) :
    parseHeaders (crlfText (postLines addr path bodyLength headers ++ [""])) =
      .ok ("POST", path, readFields (postFields addr bodyLength headers) ∅, bodyLength) := by
  have hlines : lines (crlfText (postLines addr path bodyLength headers ++ [""])) =
      postLines addr path bodyLength headers ++ [""] := by
    refine lines_flatMap_crlf fun line hline => ?_
    rcases List.mem_append.mp hline with hline | hline
    · exact (postLines_oneLine hpath hsendable haddr line hline).2.2
    · rw [List.mem_singleton.mp hline]
      decide
  have hcolon : ∀ field ∈ postFields addr bodyLength headers, ':' ∉ field.1.toList :=
    fun field hfield => (postFields_oneLine hsendable haddr field hfield).1
  have hlength : ∀ field ∈ postFields addr bodyLength headers,
      toAsciiLowercase field.1 = "content-length" →
      parseUnsigned (2 ^ 64 - 1) (trim field.2) = .ok bodyLength := by
    intro field hfield hname
    simp only [postFields, List.mem_append, List.mem_cons, List.mem_map, List.not_mem_nil,
      or_false] at hfield
    have hother : toAsciiLowercase "Host" ≠ "content-length" ∧
        toAsciiLowercase "Content-Type" ≠ "content-length" ∧
        toAsciiLowercase "Connection" ≠ "content-length" := by decide +kernel
    rcases hfield with ((rfl | rfl | rfl) | ⟨header, hheader, rfl⟩) | rfl
    · exact absurd hname hother.1
    · exact absurd hname hother.2.1
    · rw [trim_toString, parseUnsigned_toString (by omega)]
    · exact absurd (by decide) (hown "content-length" (List.mem_map.mpr ⟨header, hheader, hname⟩))
    · exact absurd hname hother.2.2
  have hany : ((postFields addr bodyLength headers).any fun field =>
      toAsciiLowercase field.1 = "content-length") = true := by
    have hname : toAsciiLowercase "Content-Length" = "content-length" := by decide +kernel
    exact List.any_eq_true.mpr ⟨("Content-Length", toString bodyLength), by simp [postFields],
      decide_eq_true hname⟩
  have hempty : ∀ state, readHeaderLine state "" = .ok state := fun _ => rfl
  unfold parseHeaders
  rw [hlines, postLines, List.cons_append]
  dsimp only
  rw [splitWhitespace_requestLine hne hpath]
  dsimp only
  rw [List.foldlM_append, foldlM_readHeaderLine hcolon hlength, ok_bind, hany, if_pos rfl,
    List.foldlM_cons, hempty, ok_bind, List.foldlM_nil]
  generalize readFields (postFields addr bodyLength headers) ∅ = fields
  rfl

end Post

/-! ## Bytes of lines -/

theorem utf8_crlfText (ls : List String) :
    utf8 (crlfText ls) = (ls.map utf8).flatMap (· ++ [13, 10]) := by
  induction ls with
  | nil => rfl
  | cons line ls ih =>
    rw [← List.singleton_append, crlfText_append, utf8_append, ih, crlfText_singleton, utf8_append]
    rfl

/-- The bytes of a line are some, and none of them is a carriage return. -/
theorem utf8_line {line : String} (hne : line.toList ≠ []) (hline : '\r' ∉ line.toList) :
    utf8 line ≠ [] ∧ 13 ∉ utf8 line := by
  constructor
  · intro h
    rw [utf8_eq_flatMap, List.flatMap_eq_nil_iff] at h
    obtain ⟨c, cs, hcs⟩ := List.exists_cons_of_ne_nil hne
    exact String.utf8EncodeChar_ne_nil (h c (hcs ▸ List.mem_cons_self))
  · intro h
    obtain ⟨c, hc, hcode, hlt⟩ := mem_of_mem_utf8 (by decide) h
    have hnat : c.toNat = 13 := by
      have := congrArg UInt8.toNat hcode
      rw [Nat.toUInt8, UInt8.toNat_ofNat', Nat.mod_eq_of_lt (by omega)] at this
      exact this
    have hcr : c = '\r' := Char.toNat_inj.mp hnat
    exact hline (hcr ▸ hc)

/-! ## The round trip -/

/-- What is sent is read back, whatever the lengths of the reads: the method, the path, the body and
each header under its name in lower case. An address that can be connected to is on one line. -/
theorem readHttpRequest_post (connect : String → Result Unit)
    (hconnect : ∀ addr, connect addr = .ok () → '\r' ∉ addr.toList ∧ '\n' ∉ addr.toList)
    (addr path : String) (body : List UInt8) (headers : List (String × String))
    (hne : path ≠ "") (hpath : ∀ c ∈ path.toList, isWhitespace c = false)
    (hnames : (headerNames headers).Nodup)
    (hown : ∀ name ∈ headerNames headers, name ∉ ownNames)
    (hbody : body.length ≤ maxHttpBodyBytes) (sent : List UInt8)
    (hsent : httpPostWithHeaders connect addr path body headers = .ok sent)
    (hsection : sent.length - body.length ≤ 64 * 1024) (reads : List (List UInt8))
    (hreads : reads.flatten = sent)
    (hlengths : ∀ chunk ∈ reads, 1 ≤ chunk.length ∧ chunk.length ≤ 4096) :
    ∃ request, readHttpRequest reads = .ok request ∧ request.method = "POST" ∧
      request.path = path ∧ request.body = body ∧
      ∀ header ∈ headers,
        request.headers.lookup (toAsciiLowercase (trim header.1)) = some (trim header.2) := by
  obtain ⟨hok, hsendable, rfl⟩ := httpPostWithHeaders_ok hsent
  have haddr := hconnect addr hok
  have hlines := @postLines_oneLine addr path headers body.length hpath hsendable haddr
  have hfit : ¬body.length > maxHttpBodyBytes := Nat.not_lt.mpr hbody
  have hlt : body.length < 2 ^ 64 := Nat.lt_of_le_of_lt hbody (by decide)
  -- The bytes of the headers, and where they end.
  have hhead : utf8 (crlfText (postLines addr path body.length headers ++ [""])) =
      ((postLines addr path body.length headers).map utf8).flatMap (· ++ [13, 10]) ++ [13, 10] := by
    rw [utf8_crlfText, List.map_append, List.flatMap_append]
    rfl
  have hfind : findSubslice headerTerminator
      (utf8 (crlfText (postLines addr path body.length headers ++ [""])) ++ body) =
      some ((utf8 (crlfText (postLines addr path body.length headers ++ [""]))).length - 4) := by
    rw [hhead, List.append_assoc, List.length_append]
    refine findSubslice_lines (by simp [postLines]) fun line hline => ?_
    obtain ⟨l, hl, rfl⟩ := List.mem_map.mp hline
    exact utf8_line (hlines l hl).1 (hlines l hl).2.1
  have hfour : 4 ≤ (utf8 (crlfText (postLines addr path body.length headers ++ [""]))).length := by
    rw [hhead, List.length_append, postLines, List.map_cons, List.flatMap_cons, List.length_append,
      List.length_append]
    simp only [List.length_cons, List.length_nil]
    omega
  have hparse := parseHeaders_postLines hne hpath hsendable haddr hown hlt
  generalize crlfText (postLines addr path body.length headers ++ [""]) = text at *
  have hchunks : ∀ chunk ∈ reads, chunk ≠ [] := fun chunk hchunk =>
    List.length_pos_iff.mp (hlengths chunk hchunk).1
  rw [List.length_append] at hsection
  obtain ⟨buffer, reads', hloop, hall, hread, hchunks'⟩ :=
    readHeaders_eq hfind hfour (by omega) hchunks ((List.nil_append _).trans hreads) (by
      rw [List.length_nil]
      omega)
  have htake : buffer.take (utf8 text).length = utf8 text := by
    have h := congrArg (List.take (utf8 text).length) hall
    rwa [List.take_append_of_le_length hread, List.take_left] at h
  have hrest := readBody_eq hchunks' hall
  rw [List.length_append] at hrest
  refine ⟨⟨"POST", path, readFields (postFields addr body.length headers) ∅, body⟩, ?_, rfl, rfl, rfl,
    fun header hheader => ?_⟩
  · unfold readHttpRequest
    rw [hloop, ok_bind]
    dsimp only
    rw [htake, fromUtf8_utf8]
    dsimp only
    rw [hparse, ok_bind]
    dsimp only
    rw [if_neg hfit, hrest, ok_bind, ← List.length_append, List.take_length, List.drop_left]
    rfl
  · dsimp only
    exact @lookup_readFields addr headers body.length hnames hown header hheader

/-! A request with a header, whose body is the end of headers itself, in reads of 100 bytes. -/

namespace TwoReads

def connect (addr : String) : Result Unit :=
  if '\r' ∈ addr.toList ∨ '\n' ∈ addr.toList then .error (.io "invalid socket address") else .ok ()

theorem connect_oneLine (addr : String) (h : connect addr = .ok ()) :
    '\r' ∉ addr.toList ∧ '\n' ∉ addr.toList := by
  unfold connect at h
  split at h
  · cases h
  · rename_i hline
    exact not_or.mp hline

def headers : List (String × String) := [("X-Op", " a ")]

def sent : List UInt8 :=
  utf8 (crlfText (postLines "127.0.0.1:7000" "/v1/acl/deny" 4 headers ++ [""])) ++ headerTerminator

def reads : List (List UInt8) := [sent.take 100, sent.drop 100]

end TwoReads

open TwoReads in
theorem readHttpRequest_post_twoReads :
    ∃ request, readHttpRequest reads = .ok request ∧ request.method = "POST" ∧
      request.path = "/v1/acl/deny" ∧ request.body = headerTerminator ∧
      ∀ header ∈ headers,
        request.headers.lookup (toAsciiLowercase (trim header.1)) = some (trim header.2) :=
  readHttpRequest_post connect connect_oneLine "127.0.0.1:7000" "/v1/acl/deny" headerTerminator
    headers (by decide) (List.all_iff_forall_prop.mp (by decide)) (by decide +kernel)
    (by decide +kernel) (by decide) sent
    (by decide +kernel) (by decide +kernel) reads (by decide +kernel) (by decide +kernel)

end Globacl
