import Globacl.Core.Words

/-!
# The NATS protocol (`globacl-core/src/lib/nats.rs`)

A client of NATS opens a connection for each request, writes its frames, and reads what the server
sends line by line; the line of a message says how many bytes follow it.

* `readOp_frames`: what a connection makes of the frames of a server, wherever they are cut off.
* `readMessagesFor_frames`: the messages that are read are those that were sent, up to the cut.
* `natsRequest_frames`, `natsJetstreamPull_frames`: the same of a whole request.
* `natsJetstreamPublish_frames`: a publication succeeds only if the server acknowledged it.
-/

namespace Globacl

open Lib

structure NatsMessage where
  subject : String
  replyTo : Option String
  payload : List UInt8
  status : Option Nat
  deriving DecidableEq

inductive NatsOp where
  | message (message : NatsMessage)
  | pong
  | ok
  deriving DecidableEq

/-- How a call of a connection fails. -/
inductive NatsError where
  /-- A read or a write timed out (`WouldBlock`, `TimedOut`). -/
  | timedOut
  | failed (err : GlobAclError)
  deriving DecidableEq

/-- What a connection has to do with. -/
structure NatsNetwork where
  /-- Resolves an address and connects to it. The bytes are those that arrive before the first read that
  fails. -/
  dial : String → Except NatsError (List UInt8)
  /-- How that read fails: it times out, or the connection is closed. -/
  silence : NatsError
  /-- A write, with everything that the connection has written after it. -/
  write : List UInt8 → Except NatsError Unit
  /-- The clock, from one reading to the next. -/
  now : Nat → Nat

structure NatsConnection where
  input : List UInt8
  written : List UInt8
  /-- How often the clock was read. -/
  readings : Nat

/-- `str::starts_with`. -/
def startsWith (start value : String) : Bool := decide (start.toList <+: value.toList)

/-- `str::contains`. -/
def containsText (needle value : String) : Bool := decide (needle.toList <:+: value.toList)

/-- `normalize_nats_addr`. -/
def normalizeNatsAddr (addr : String) : String :=
  String.ofList (((stripPrefix "nats://" (trim addr)).getD (trim addr)).toList.takeWhile (· ≠ '/'))

/-- The statuses of a server that has no message. -/
def NatsMessage.isEnd (message : NatsMessage) : Bool :=
  message.status ∈ [some 404, some 408, some 409, some 503]

/-- `parse_nats_header_status`. -/
def parseNatsHeaderStatus (headers : List UInt8) : Option Nat :=
  (fromUtf8 headers).bind fun text =>
    (lines text).head?.bind fun line =>
      (splitWhitespace line)[1]?.bind fun value => (parseUnsigned (2 ^ 16 - 1) value).toOption

namespace NatsConnection

variable (net : NatsNetwork)

/-! ## The connection -/

/-- `write_all`. -/
def writeAll (bytes : List UInt8) (c : NatsConnection) : Except NatsError NatsConnection := do
  net.write (c.written ++ bytes)
  pure { c with written := c.written ++ bytes }

/-- `read_exact`. -/
def readExact (n : Nat) (c : NatsConnection) : Except NatsError (List UInt8 × NatsConnection) :=
  if c.input.length < n then .error net.silence
  else .ok (c.input.take n, { c with input := c.input.drop n })

/-- The loop of `read_line`, with the line so far. -/
def readLineLoop : List UInt8 → List UInt8 → Except NatsError (String × List UInt8)
  | [], _ => .error net.silence
  | byte :: input, line =>
    if [13, 10] <:+ line ++ [byte] then
      match fromUtf8 ((line ++ [byte]).take ((line ++ [byte]).length - 2)) with
      | some line => .ok (line, input)
      | none => .error (.failed (.parse "NATS line is not utf8"))
    else if (line ++ [byte]).length > 64 * 1024 then
      .error (.failed (.parse "NATS protocol line too large"))
    else readLineLoop input (line ++ [byte])

def readLine (c : NatsConnection) : Except NatsError (String × NatsConnection) := do
  let (line, input) ← readLineLoop net c.input []
  pure (line, { c with input })

def readPayload (size : Nat) (c : NatsConnection) :
    Except NatsError (List UInt8 × NatsConnection) := do
  if size > isizeMax then throw (.failed (.panicked "capacity overflow"))
  let (payload, c) ← c.readExact net size
  let (crlf, c) ← c.readExact net 2
  if crlf ≠ [13, 10] then
    throw (.failed (.parse "NATS payload was not terminated by CRLF"))
  pure (payload, c)

/-- `parse::<usize>` of a part of a line. -/
def parseSize (what part : String) : Except NatsError Nat :=
  match parseUnsigned (2 ^ 64 - 1) part with
  | .ok n => .ok n
  | .error err => .error (.failed (.parse s!"invalid NATS {what}: {err}"))

/-- The subject, the reply subject and the size in the line of a message. -/
def msgParts (line : String) : Except NatsError (String × Option String × String) :=
  match splitWhitespace line with
  | [_, subject, _, size] => .ok (subject, none, size)
  | [_, subject, _, replyTo, size] => .ok (subject, some replyTo, size)
  | _ => .error (.failed (.parse s!"invalid NATS MSG line {debugStr line}"))

def readMsg (line : String) (c : NatsConnection) :
    Except NatsError (NatsMessage × NatsConnection) := do
  let (subject, replyTo, size) ← msgParts line
  let size ← parseSize "MSG size" size
  let (payload, c) ← c.readPayload net size
  pure ({ subject, replyTo, payload, status := none }, c)

/-- The same with headers: there are two sizes. -/
def hmsgParts (line : String) : Except NatsError (String × Option String × String × String) :=
  match splitWhitespace line with
  | [_, subject, _, headerLen, totalLen] => .ok (subject, none, headerLen, totalLen)
  | [_, subject, _, replyTo, headerLen, totalLen] =>
    .ok (subject, some replyTo, headerLen, totalLen)
  | _ => .error (.failed (.parse s!"invalid NATS HMSG line {debugStr line}"))

def readHmsg (line : String) (c : NatsConnection) :
    Except NatsError (NatsMessage × NatsConnection) := do
  let (subject, replyTo, headerLen, totalLen) ← hmsgParts line
  let headerLen ← parseSize "HMSG header size" headerLen
  let totalLen ← parseSize "HMSG total size" totalLen
  if headerLen > totalLen then
    throw (.failed
      (.parse s!"NATS HMSG header size {headerLen} exceeds total size {totalLen}"))
  let (bytes, c) ← c.readPayload net totalLen
  pure
    ({ subject, replyTo
       payload := bytes.drop headerLen
       status := parseNatsHeaderStatus (bytes.take headerLen) }, c)

/-- The body of the loop of `read_op`; there is no operation where the loop goes on. -/
def readOpStep (c : NatsConnection) : Except NatsError (Option NatsOp × NatsConnection) := do
  let (line, c) ← c.readLine net
  if line = "" ∨ startsWith "INFO " line then pure (none, c)
  else if line = "+OK" then pure (some .ok, c)
  else if line = "PING" then do
    let c ← c.writeAll net (utf8 "PONG\r\n")
    pure (none, c)
  else if line = "PONG" then pure (some .pong, c)
  else if startsWith "-ERR" line then throw (.failed (.invalidData s!"NATS error: {line}"))
  else if startsWith "MSG " line then do
    let (message, c) ← c.readMsg net line
    pure (some (.message message), c)
  else if startsWith "HMSG " line then do
    let (message, c) ← c.readHmsg net line
    pure (some (.message message), c)
  else throw (.failed (.parse s!"unsupported NATS protocol line {debugStr line}"))

/-! ## Every call takes something from the input -/

section Length

variable {net} {c c' : NatsConnection}

theorem readLineLoop_length {input rest line : List UInt8} {text : String}
    (h : readLineLoop net input line = .ok (text, rest)) : rest.length < input.length := by
  induction input generalizing line with
  | nil => cases h
  | cons byte input ih =>
    rw [readLineLoop] at h
    split at h
    · split at h
      · cases h
        exact Nat.lt_succ_self _
      · cases h
    · split at h
      · cases h
      · exact Nat.lt_succ_of_lt (ih h)

theorem readLine_length {line : String} (h : c.readLine net = .ok (line, c')) :
    c'.input.length < c.input.length := by
  obtain ⟨⟨text, rest⟩, hloop, hc⟩ := bind_eq_ok.mp h
  cases hc
  exact readLineLoop_length hloop

theorem writeAll_ok {bytes : List UInt8} (h : c.writeAll net bytes = .ok c') :
    net.write (c.written ++ bytes) = .ok () ∧ c' = { c with written := c.written ++ bytes } := by
  obtain ⟨u, hwrite, hc⟩ := bind_eq_ok.mp h
  cases hc
  exact ⟨hwrite, rfl⟩

theorem readExact_length {n : Nat} {bytes : List UInt8} (h : c.readExact net n = .ok (bytes, c')) :
    c'.input.length ≤ c.input.length := by
  unfold readExact at h
  split at h
  · cases h
  · cases h
    simp

theorem readPayload_length {size : Nat} {bytes : List UInt8}
    (h : c.readPayload net size = .ok (bytes, c')) : c'.input.length ≤ c.input.length := by
  unfold readPayload at h
  by_cases hsize : size > isizeMax
  · rw [if_pos hsize] at h
    cases h
  rw [if_neg hsize] at h
  dsimp only at h
  obtain ⟨⟨payload, c₁⟩, h₁, h⟩ := bind_eq_ok.mp h
  obtain ⟨⟨crlf, c₂⟩, h₂, h⟩ := bind_eq_ok.mp h
  dsimp only at h
  split at h
  · cases h
  · cases h
    exact (readExact_length h₂).trans (readExact_length h₁)

theorem readMsg_length {line : String} {message : NatsMessage}
    (h : c.readMsg net line = .ok (message, c')) : c'.input.length ≤ c.input.length := by
  obtain ⟨⟨subject, replyTo, size⟩, -, h⟩ := bind_eq_ok.mp h
  obtain ⟨n, -, h⟩ := bind_eq_ok.mp h
  obtain ⟨⟨payload, c₁⟩, hpayload, h⟩ := bind_eq_ok.mp h
  cases h
  exact readPayload_length hpayload

theorem readHmsg_length {line : String} {message : NatsMessage}
    (h : c.readHmsg net line = .ok (message, c')) : c'.input.length ≤ c.input.length := by
  obtain ⟨⟨subject, replyTo, headerLen, totalLen⟩, -, h⟩ := bind_eq_ok.mp h
  obtain ⟨n, -, h⟩ := bind_eq_ok.mp h
  obtain ⟨k, -, h⟩ := bind_eq_ok.mp h
  dsimp only at h
  split at h
  · cases h
  · obtain ⟨⟨bytes, c₁⟩, hpayload, h⟩ := bind_eq_ok.mp h
    cases h
    exact readPayload_length hpayload

theorem readOpStep_length {op : Option NatsOp} (h : c.readOpStep net = .ok (op, c')) :
    c'.input.length < c.input.length := by
  obtain ⟨⟨line, c₁⟩, hline, h⟩ := bind_eq_ok.mp h
  refine Nat.lt_of_le_of_lt ?_ (readLine_length hline)
  dsimp only at h
  split at h
  · cases h
    exact Nat.le_refl _
  split at h
  · cases h
    exact Nat.le_refl _
  split at h
  · obtain ⟨c₂, hwrite, h⟩ := bind_eq_ok.mp h
    cases h
    rw [(writeAll_ok hwrite).2]
  split at h
  · cases h
    exact Nat.le_refl _
  split at h
  · cases h
  split at h
  · obtain ⟨⟨message, c₂⟩, hmsg, h⟩ := bind_eq_ok.mp h
    cases h
    exact readMsg_length hmsg
  split at h
  · obtain ⟨⟨message, c₂⟩, hmsg, h⟩ := bind_eq_ok.mp h
    cases h
    exact readHmsg_length hmsg
  · cases h

end Length

/-! ## The loops -/

def readOp (c : NatsConnection) : Except NatsError (NatsOp × NatsConnection) :=
  match _h : c.readOpStep net with
  | .error err => .error err
  | .ok (some op, c') => .ok (op, c')
  | .ok (none, c') => c'.readOp
termination_by c.input.length
decreasing_by exact readOpStep_length _h

theorem readOp_length {net : NatsNetwork} {op : NatsOp} {c c' : NatsConnection}
    (h : c.readOp net = .ok (op, c')) : c'.input.length < c.input.length := by
  rw [readOp] at h
  split at h
  · cases h
  · rename_i hstep
    cases h
    exact readOpStep_length hstep
  · rename_i c₁ hstep
    have := readOpStep_length hstep
    exact (readOp_length h).trans this
termination_by c.input.length

/-- The loop of `read_message_for`. After a time-out nothing more is read from the connection. -/
def readMessageLoop (timeoutMs started : Nat) (c : NatsConnection) :
    Except NatsError (Option (NatsMessage × NatsConnection)) :=
  if net.now c.readings - started > timeoutMs then .ok none
  else
    match _h : readOp net { c with readings := c.readings + 1 } with
    | .error .timedOut => .ok none
    | .error (.failed err) => .error (.failed err)
    | .ok (.message message, c') => .ok (some (message, c'))
    | .ok (.pong, c') => c'.readMessageLoop timeoutMs started
    | .ok (.ok, c') => c'.readMessageLoop timeoutMs started
termination_by c.input.length
decreasing_by
  all_goals
    have hlt := readOp_length _h
    exact hlt

def readMessageFor (timeoutMs : Nat) (c : NatsConnection) :
    Except NatsError (Option (NatsMessage × NatsConnection)) :=
  readMessageLoop net (max timeoutMs 1) (net.now c.readings) { c with readings := c.readings + 1 }

/-- The loop of `read_messages_for`, with the number of messages that may still come. -/
def readMessagesLoop (timeoutMs started : Nat) :
    Nat → NatsConnection → Except NatsError (List NatsMessage)
  | 0, _ => .ok []
  | n + 1, c =>
    if net.now c.readings - started > timeoutMs then .ok []
    else
      match readMessageFor net timeoutMs { c with readings := c.readings + 1 } with
      | .error err => .error err
      | .ok none => .ok []
      | .ok (some (message, c')) =>
        if message.isEnd then .ok []
        else (readMessagesLoop timeoutMs started n c').map (message :: ·)

def readMessagesFor (maxMessages timeoutMs : Nat) (c : NatsConnection) :
    Except NatsError (List NatsMessage) :=
  readMessagesLoop net (max timeoutMs 1) (net.now c.readings) maxMessages
    { c with readings := c.readings + 1 }

/-! ## The requests of a client -/

def flush (c : NatsConnection) : Except NatsError NatsConnection := c.writeAll net (utf8 "PING\r\n")

/-- The loop of `connect`. -/
def awaitPong (c : NatsConnection) : Except NatsError NatsConnection :=
  match _h : c.readOp net with
  | .error err => .error err
  | .ok (.pong, c') => .ok c'
  | .ok (.ok, c') => c'.awaitPong
  | .ok (.message _, c') => c'.awaitPong
termination_by c.input.length
decreasing_by all_goals exact readOp_length _h

def connect (addr : String) : Except NatsError NatsConnection := do
  let input ← net.dial (normalizeNatsAddr addr)
  let (info, c) ← readLine net ⟨input, [], 0⟩
  if startsWith "INFO " info then do
    let c ← c.writeAll net (utf8
      ("CONNECT \x7b\"verbose\":false,\"pedantic\":false,\"name\":\"globacl\"\x7d\r\n" ++
        "PING\r\n"))
    let c ← c.flush net
    c.awaitPong net
  else throw (.failed (.parse s!"expected NATS INFO line, got {debugStr info}"))

def subscribe (subject : String) (sid : Nat) (c : NatsConnection) :
    Except NatsError NatsConnection := do
  let c ← c.writeAll net (utf8 s!"SUB {subject} {sid}\r\n")
  c.flush net

/-- `publish` and, with a reply subject, `publish_with_reply`. -/
def publish (subject : String) (replyTo : Option String) (payload : List UInt8)
    (c : NatsConnection) : Except NatsError NatsConnection := do
  let c ← c.writeAll net (utf8
    (match replyTo with
    | none => s!"PUB {subject} {payload.length}\r\n"
    | some reply => s!"PUB {subject} {reply} {payload.length}\r\n"))
  let c ← c.writeAll net payload
  c.writeAll net (utf8 "\r\n")

/-- The start of `nats_request` and of `nats_jetstream_publish`, up to the first read of an answer. -/
def ask (inbox addr subject : String) (payload : List UInt8) : Except NatsError NatsConnection := do
  let c ← connect net addr
  let c ← c.subscribe net inbox 1
  let c ← c.publish net subject (some inbox) payload
  c.flush net

end NatsConnection

section Requests

variable (net : NatsNetwork)

/-- `nats_request`. The inbox is `nats_inbox("req")`, from the process and the clock. -/
def natsRequest (inbox addr subject : String) (payload : List UInt8) (maxMessages timeoutMs : Nat) :
    Except NatsError (List NatsMessage) := do
  let c ← NatsConnection.ask net inbox addr subject payload
  c.readMessagesFor net (max maxMessages 1) timeoutMs

def natsJetstreamPull (inbox addr stream durable : String) (batch expiresMs : Nat) :
    Except NatsError (List NatsMessage) := do
  let expiresNs := max (min (expiresMs * 1000000) (2 ^ 64 - 1)) 1
  let messages ← natsRequest net inbox addr s!"$JS.API.CONSUMER.MSG.NEXT.{stream}.{durable}"
    (utf8 s!"\x7b\"batch\":{max batch 1},\"expires\":{expiresNs}\x7d") (max batch 1)
    (max (min (expiresMs + 1000) (2 ^ 64 - 1)) 2000)
  pure ((messages.filter fun message => !message.isEnd).filter fun message => message.payload ≠ [])

def natsJetstreamPublish (inbox addr subject : String) (payload : List UInt8) :
    Except NatsError Unit := do
  let c ← NatsConnection.ask net inbox addr subject payload
  match ← c.readMessageFor net 5000 with
  | none =>
    throw (.failed (.invalidData s!"timed out waiting for JetStream publish ack on {subject}"))
  | some (message, _) =>
    let ack := fromUtf8Lossy message.payload
    if containsText "\"error\"" ack then
      throw (.failed (.invalidData s!"JetStream publish ack returned error: {ack}"))
    else pure ()

def natsAck (addr ackSubject : String) : Except NatsError Unit := do
  let c ← NatsConnection.connect net addr
  let c ← c.publish net ackSubject none []
  let _ ← c.flush net
  pure ()

end Requests

/-! ## The frames of a server -/

/-- What a server sends. The headers of a message are lines of text under a status. -/
inductive NatsFrame where
  | info (text : String)
  | blank
  | ok
  | ping
  | pong
  | err (text : String)
  | msg (subject sid : String) (replyTo : Option String) (payload : List UInt8)
  | hmsg (subject sid : String) (replyTo : Option String) (status : Option (Nat × String))
      (fields : List String) (payload : List UInt8)
  deriving DecidableEq

namespace NatsFrame

def statusLine : Option (Nat × String) → String
  | none => "NATS/1.0"
  | some (code, description) => "NATS/1.0 " ++ toString code ++ " " ++ description

def headers (status : Option (Nat × String)) (fields : List String) : List UInt8 :=
  utf8 (crlfText (statusLine status :: fields ++ [""]))

def line : NatsFrame → String
  | info text => "INFO " ++ text
  | blank => ""
  | ok => "+OK"
  | ping => "PING"
  | pong => "PONG"
  | err text => "-ERR" ++ text
  | msg subject sid replyTo payload =>
    spaced (["MSG", subject, sid] ++ replyTo.toList ++ [toString payload.length])
  | hmsg subject sid replyTo status fields payload =>
    spaced (["HMSG", subject, sid] ++ replyTo.toList ++ [toString (headers status fields).length,
      toString ((headers status fields) ++ payload).length])

/-- What follows the line. -/
def content : NatsFrame → List UInt8
  | msg _ _ _ payload => payload ++ [13, 10]
  | hmsg _ _ _ status fields payload => headers status fields ++ payload ++ [13, 10]
  | _ => []

def bytes (f : NatsFrame) : List UInt8 := utf8 f.line ++ [13, 10] ++ f.content

/-- What the frame is to the client: an operation, none, or the end of the connection. -/
def op (f : NatsFrame) : Except NatsError (Option NatsOp) :=
  match f with
  | info _ => .ok none
  | blank => .ok none
  | ping => .ok none
  | ok => .ok (some .ok)
  | pong => .ok (some .pong)
  | err _ => .error (.failed (.invalidData s!"NATS error: {f.line}"))
  | msg subject _ replyTo payload => .ok (some (.message ⟨subject, replyTo, payload, none⟩))
  | hmsg subject _ replyTo status _ payload =>
    .ok (some (.message ⟨subject, replyTo, payload, status.map Prod.fst⟩))

def message (f : NatsFrame) : Option NatsMessage :=
  match f.op with
  | .ok (some (.message message)) => some message
  | _ => none

/-- The words of the line of a message. -/
def words : NatsFrame → List String
  | msg subject sid replyTo _ => [subject, sid] ++ replyTo.toList
  | hmsg subject sid replyTo _ _ _ => [subject, sid] ++ replyTo.toList
  | _ => []

def status : NatsFrame → Option (Nat × String)
  | hmsg _ _ _ status _ _ => status
  | _ => none

/-- A frame that a server may send: its line is one line that is not too long, its words are words, and
there is memory for its payload. -/
structure Sound (f : NatsFrame) : Prop where
  oneLine : '\r' ∉ f.line.toList
  short : (utf8 f.line).length < 64 * 1024
  words : ∀ word ∈ f.words, IsWord word
  status : ∀ s ∈ f.status, s.1 < 2 ^ 16 ∧ '\n' ∉ s.2.toList
  content : f.content.length ≤ isizeMax

end NatsFrame

/-! ## Lines -/

theorem crlf_suffix_concat {line : List UInt8} {byte : UInt8} :
    [13, 10] <:+ line ++ [byte] ↔ byte = 10 ∧ [13] <:+ line := by
  rw [← List.singleton_append, List.suffix_concat_iff]
  constructor
  · rintro (h | ⟨t, ht, hsuffix⟩)
    · cases h
    · obtain ⟨rfl, h⟩ := List.append_inj' ht rfl
      cases h
      exact ⟨rfl, hsuffix⟩
  · rintro ⟨rfl, h⟩
    exact Or.inr ⟨[13], rfl, h⟩

theorem not_mem_suffix {line : List UInt8} (h : 13 ∉ line) : ¬[13] <:+ line :=
  fun hsuffix => h (hsuffix.subset List.mem_cons_self)

section Lines

variable {net : NatsNetwork} {c : NatsConnection} {line : String} {bytes start rest missing : List UInt8}

theorem readLineLoop_line (hcr : 13 ∉ bytes) (hstart : 13 ∉ start) (hline : start ++ bytes = utf8 line)
    (hshort : (utf8 line).length < 64 * 1024) :
    NatsConnection.readLineLoop net (bytes ++ 13 :: 10 :: rest) start = .ok (line, rest) := by
  induction bytes generalizing start with
  | nil =>
    rw [List.append_nil] at hline
    have hlength : start.length < 64 * 1024 := hline ▸ hshort
    have hend : [13, 10] <:+ start ++ [13] ++ [10] := by simp
    have htake : (start ++ [13] ++ [10]).take ((start ++ [13] ++ [10]).length - 2) = start := by
      simp
    rw [List.nil_append, NatsConnection.readLineLoop, if_neg (fun h => by cases (crlf_suffix_concat.mp h).1),
      if_neg (by simp; omega), NatsConnection.readLineLoop, if_pos hend, htake, hline, fromUtf8_utf8]
  | cons byte bytes ih =>
    rw [List.mem_cons, not_or] at hcr
    have hlength : (start ++ byte :: bytes).length < 64 * 1024 := hline ▸ hshort
    rw [List.length_append, List.length_cons] at hlength
    rw [List.cons_append, NatsConnection.readLineLoop,
      if_neg fun h => not_mem_suffix hstart (crlf_suffix_concat.mp h).2, if_neg (by simp; omega)]
    refine ih hcr.2 ?_ (by rw [← hline, List.append_assoc, List.singleton_append])
    rw [List.mem_append, List.mem_singleton]
    exact not_or.mpr ⟨hstart, hcr.1⟩

/-- A line that is cut off is not read. -/
theorem readLineLoop_cut (hcr : 13 ∉ bytes) (hstart : 13 ∉ start)
    (hshort : start.length + bytes.length < 64 * 1024) (hne : missing ≠ []) {input : List UInt8}
    (hcut : input ++ missing = bytes ++ [13, 10]) :
    NatsConnection.readLineLoop net input start = .error net.silence := by
  induction input generalizing bytes start with
  | nil => rfl
  | cons byte input ih =>
    cases bytes with
    | nil =>
      -- only the carriage return has arrived
      obtain ⟨rfl, hrest⟩ := List.cons.inj hcut
      obtain rfl : input = [] := by
        cases input with
        | nil => rfl
        | cons byte' input =>
          have := (List.cons.inj hrest).2
          exact absurd (List.append_eq_nil_iff.mp this).2 hne
      rw [NatsConnection.readLineLoop, if_neg (fun h => by cases (crlf_suffix_concat.mp h).1),
        if_neg (by simp at hshort ⊢; omega), NatsConnection.readLineLoop]
    | cons b bytes =>
      obtain ⟨rfl, hrest⟩ := List.cons.inj hcut
      rw [List.mem_cons, not_or] at hcr
      rw [List.length_cons] at hshort
      rw [NatsConnection.readLineLoop,
        if_neg fun h => not_mem_suffix hstart (crlf_suffix_concat.mp h).2, if_neg (by simp; omega)]
      refine ih hcr.2 ?_ ?_ hrest
      · rw [List.mem_append, List.mem_singleton]
        exact not_or.mpr ⟨hstart, hcr.1⟩
      · rw [List.length_append, List.length_singleton]
        omega

theorem not_mem_utf8_line (h : '\r' ∉ line.toList) : 13 ∉ utf8 line := by
  by_cases hne : line.toList = []
  · rw [utf8_eq_flatMap, hne]
    exact List.not_mem_nil
  · exact (utf8_line hne h).2

theorem readLine_line (hcr : '\r' ∉ line.toList) (hshort : (utf8 line).length < 64 * 1024)
    (hc : c.input = utf8 line ++ [13, 10] ++ rest) :
    c.readLine net = .ok (line, { c with input := rest }) := by
  unfold NatsConnection.readLine
  rw [hc, List.append_assoc, List.cons_append, List.singleton_append,
    readLineLoop_line (not_mem_utf8_line hcr) List.not_mem_nil (List.nil_append _) hshort]
  rfl

theorem readLine_cut (hcr : '\r' ∉ line.toList) (hshort : (utf8 line).length < 64 * 1024)
    (hne : missing ≠ []) (hc : c.input ++ missing = utf8 line ++ [13, 10]) :
    c.readLine net = .error net.silence := by
  unfold NatsConnection.readLine
  rw [readLineLoop_cut (not_mem_utf8_line hcr) List.not_mem_nil
    (by rw [List.length_nil, Nat.zero_add]; exact hshort) hne hc]
  rfl

/-! ## Payloads -/

theorem readExact_append (hc : c.input = bytes ++ rest) :
    c.readExact net bytes.length = .ok (bytes, { c with input := rest }) := by
  unfold NatsConnection.readExact
  rw [hc, if_neg (by simp), List.take_left, List.drop_left]

theorem readPayload_append (hsize : bytes.length ≤ isizeMax)
    (hc : c.input = bytes ++ [13, 10] ++ rest) :
    c.readPayload net bytes.length = .ok (bytes, { c with input := rest }) := by
  rw [List.append_assoc] at hc
  unfold NatsConnection.readPayload
  rw [if_neg (Nat.not_lt.mpr hsize)]
  dsimp only
  rw [readExact_append hc, ok_bind]
  dsimp only
  rw [show (2 : Nat) = ([13, 10] : List UInt8).length from rfl, readExact_append rfl, ok_bind]
  rfl

theorem readPayload_cut {size : Nat} (hsize : size ≤ isizeMax) (hc : c.input.length < size + 2) :
    c.readPayload net size = .error net.silence := by
  unfold NatsConnection.readPayload
  rw [if_neg (Nat.not_lt.mpr hsize)]
  dsimp only
  by_cases hlt : c.input.length < size
  · rw [NatsConnection.readExact, if_pos hlt]
    rfl
  · have hrest : (c.input.drop size).length < 2 := by
      rw [List.length_drop]
      omega
    rw [NatsConnection.readExact, if_neg hlt, ok_bind]
    dsimp only
    rw [NatsConnection.readExact, if_pos hrest]
    rfl

/-! ## Sizes -/

theorem parseSize_toString (what : String) {n : Nat} (h : n < 2 ^ 64) :
    NatsConnection.parseSize what (toString n) = .ok n := by
  unfold NatsConnection.parseSize
  rw [parseUnsigned_toString (Nat.le_sub_one_of_lt h)]

end Lines

/-! ## Messages -/

section Messages

variable {net : NatsNetwork} {c : NatsConnection} {rest missing : List UInt8}

/-- The status of a message is that of its headers. -/
theorem parseNatsHeaderStatus_headers {status : Option (Nat × String)} (fields : List String)
    (h : ∀ s ∈ status, s.1 < 2 ^ 16 ∧ '\n' ∉ s.2.toList) :
    parseNatsHeaderStatus (NatsFrame.headers status fields) = status.map Prod.fst := by
  have hline : '\n' ∉ (NatsFrame.statusLine status).toList := by
    cases status with
    | none => decide
    | some s =>
      have hdigits : '\n' ∉ (toString s.1).toList := fun hc => by
        cases isDigit_of_mem_toString hc
      have := (h s rfl).2
      simp only [NatsFrame.statusLine, String.toList_append, List.mem_append, not_or]
      exact ⟨⟨⟨by decide, hdigits⟩, by decide⟩, this⟩
  unfold parseNatsHeaderStatus NatsFrame.headers
  rw [fromUtf8_utf8, Option.bind_some, List.cons_append, head?_lines_crlfText hline, Option.bind_some]
  have hversion : IsWord "NATS/1.0" := by decide
  cases status with
  | none =>
    rw [NatsFrame.statusLine, splitWhitespace_word hversion]
    rfl
  | some s =>
    obtain ⟨code, description⟩ := s
    have hassoc : NatsFrame.statusLine (some (code, description)) =
        "NATS/1.0" ++ " " ++ (toString code ++ " " ++ description) := by
      apply String.toList_inj.mp
      simp [NatsFrame.statusLine]
    rw [hassoc, splitWhitespace_cons hversion, splitWhitespace_cons (isWord_toString code)]
    simp only [List.getElem?_cons_succ, List.getElem?_cons_zero, Option.bind_some]
    rw [parseUnsigned_toString (Nat.le_sub_one_of_lt (h _ rfl).1)]
    rfl

variable {subject sid : String} {replyTo : Option String} {payload : List UInt8}

/-- The words of a line: those of the message between the verb and the sizes. -/
theorem splitWhitespace_line (verb : String) (sizes : List Nat)
    (hverb : IsWord verb) (hwords : ∀ word ∈ [subject, sid] ++ replyTo.toList, IsWord word) :
    splitWhitespace (spaced ([verb, subject, sid] ++ replyTo.toList ++ sizes.map toString)) =
      [verb, subject, sid] ++ replyTo.toList ++ sizes.map toString := by
  refine splitWhitespace_spaced fun word hword => ?_
  rcases List.mem_append.mp hword with hword | hword
  · rcases List.mem_cons.mp hword with rfl | hword
    · exact hverb
    · exact hwords word hword
  · obtain ⟨n, -, rfl⟩ := List.mem_map.mp hword
    exact isWord_toString n

theorem readMsg_line (hwords : ∀ word ∈ [subject, sid] ++ replyTo.toList, IsWord word) (hsize : payload.length ≤ isizeMax) :
    c.readMsg net (NatsFrame.msg subject sid replyTo payload).line =
      (c.readPayload net payload.length).map fun r => (⟨subject, replyTo, r.1, none⟩, r.2) := by
  have hsplit := splitWhitespace_line "MSG" [payload.length]
    (by decide) hwords
  have hlt : payload.length < 2 ^ 64 := by
    simp only [isizeMax] at hsize
    omega
  unfold NatsConnection.readMsg NatsConnection.msgParts NatsFrame.line
  simp only [List.map_cons, List.map_nil] at hsplit
  rw [hsplit]
  cases replyTo with
  | none =>
    simp only [Option.toList_none, List.append_nil, List.cons_append, List.nil_append, ok_bind]
    rw [parseSize_toString _ hlt, ok_bind]
    cases c.readPayload net payload.length <;> rfl
  | some reply =>
    simp only [Option.toList_some, List.cons_append, List.nil_append, ok_bind]
    rw [parseSize_toString _ hlt, ok_bind]
    cases c.readPayload net payload.length <;> rfl

theorem readHmsg_line {status : Option (Nat × String)} {fields : List String}
    (hwords : ∀ word ∈ [subject, sid] ++ replyTo.toList, IsWord word)
    (hsize : (NatsFrame.headers status fields ++ payload).length ≤ isizeMax) :
    c.readHmsg net (NatsFrame.hmsg subject sid replyTo status fields payload).line =
      (c.readPayload net (NatsFrame.headers status fields ++ payload).length).map fun r =>
        (⟨subject, replyTo, r.1.drop (NatsFrame.headers status fields).length,
          parseNatsHeaderStatus (r.1.take (NatsFrame.headers status fields).length)⟩, r.2) := by
  have hsplit := splitWhitespace_line "HMSG" [(NatsFrame.headers status fields).length,
      (NatsFrame.headers status fields ++ payload).length]
    (by decide) hwords
  have hle : (NatsFrame.headers status fields).length ≤
      (NatsFrame.headers status fields ++ payload).length := by
    rw [List.length_append]
    exact Nat.le_add_right _ _
  have hlt : (NatsFrame.headers status fields ++ payload).length < 2 ^ 64 := by
    simp only [isizeMax] at hsize
    omega
  unfold NatsConnection.readHmsg NatsConnection.hmsgParts NatsFrame.line
  simp only [List.map_cons, List.map_nil] at hsplit
  rw [hsplit]
  generalize NatsFrame.headers status fields = headers at *
  cases replyTo with
  | none =>
    simp only [Option.toList_none, List.append_nil, List.cons_append, List.nil_append, ok_bind]
    rw [parseSize_toString _ (Nat.lt_of_le_of_lt hle hlt), ok_bind, parseSize_toString _ hlt, ok_bind,
      if_neg (Nat.not_lt.mpr hle)]
    cases c.readPayload net (headers ++ payload).length <;> rfl
  | some reply =>
    simp only [Option.toList_some, List.cons_append, List.nil_append, ok_bind]
    rw [parseSize_toString _ (Nat.lt_of_le_of_lt hle hlt), ok_bind, parseSize_toString _ hlt, ok_bind,
      if_neg (Nat.not_lt.mpr hle)]
    cases c.readPayload net (headers ++ payload).length <;> rfl

end Messages

/-! ## One frame -/

section Frame

variable {net : NatsNetwork} {c c' : NatsConnection} {f : NatsFrame} {rest missing : List UInt8}

theorem startsWith_append (start rest : String) : startsWith start (start ++ rest) = true := by
  unfold startsWith
  rw [String.toList_append]
  exact decide_eq_true (List.prefix_append _ _)

theorem readOpStep_msg {tail : String} (h : c.readLine net = .ok ("MSG " ++ tail, c')) :
    c.readOpStep net =
      (c'.readMsg net ("MSG " ++ tail)).map fun r => (some (.message r.1), r.2) := by
  have hne : ∀ other : String, ¬"MSG ".toList <+: other.toList → "MSG " ++ tail ≠ other := by
    rintro other hother rfl
    exact hother (by rw [String.toList_append]; exact List.prefix_append _ _)
  unfold NatsConnection.readOpStep
  rw [h, ok_bind]
  dsimp only
  rw [if_neg (by simp [startsWith, hne]), if_neg (hne _ (by decide)), if_neg (hne _ (by decide)),
    if_neg (hne _ (by decide)), if_neg (by simp [startsWith]), if_pos (startsWith_append _ _)]
  cases c'.readMsg net ("MSG " ++ tail) <;> rfl

theorem readOpStep_hmsg {tail : String} (h : c.readLine net = .ok ("HMSG " ++ tail, c')) :
    c.readOpStep net =
      (c'.readHmsg net ("HMSG " ++ tail)).map fun r => (some (.message r.1), r.2) := by
  have hne : ∀ other : String, ¬"HMSG ".toList <+: other.toList → "HMSG " ++ tail ≠ other := by
    rintro other hother rfl
    exact hother (by rw [String.toList_append]; exact List.prefix_append _ _)
  unfold NatsConnection.readOpStep
  rw [h, ok_bind]
  dsimp only
  rw [if_neg (by simp [startsWith, hne]), if_neg (hne _ (by decide)), if_neg (hne _ (by decide)),
    if_neg (hne _ (by decide)), if_neg (by simp [startsWith]), if_neg (by simp [startsWith]),
    if_pos (startsWith_append _ _)]
  cases c'.readHmsg net ("HMSG " ++ tail) <;> rfl

/-- The line of a frame that is no message leaves nothing to read. -/
theorem readOpStep_line (hf : f.content = []) (h : c.readLine net = .ok (f.line, c')) :
    c.readOpStep net =
      if f = .ping then (c'.writeAll net (utf8 "PONG\r\n")).map fun c => (none, c)
      else f.op.map fun op => (op, c') := by
  unfold NatsConnection.readOpStep
  rw [h, ok_bind]
  dsimp only
  cases f with
  | info text =>
    rw [NatsFrame.line, if_pos (Or.inr (startsWith_append _ _)), if_neg (by simp)]
    rfl
  | blank => rfl
  | ok => rfl
  | ping =>
    rw [if_pos rfl]
    cases c'.writeAll net (utf8 "PONG\r\n") <;> rfl
  | pong => rfl
  | err text =>
    have hne : ∀ other : String, ¬"-ERR".toList <+: other.toList → "-ERR" ++ text ≠ other := by
      rintro other hother rfl
      exact hother (by rw [String.toList_append]; exact List.prefix_append _ _)
    rw [NatsFrame.line, if_neg (by simp [startsWith, hne]), if_neg (hne _ (by decide)),
      if_neg (hne _ (by decide)), if_neg (hne _ (by decide)), if_pos (startsWith_append _ _),
      if_neg (by simp)]
    rfl
  | msg subject sid replyTo payload => simp [NatsFrame.content] at hf
  | hmsg subject sid replyTo status fields payload => simp [NatsFrame.content] at hf

variable (net) in
/-- The line of a frame is read, or it is cut off. -/
theorem line_cases (hf : f.Sound) (hc : c.input ++ missing = f.bytes ++ rest) :
    (c.readLine net = .error net.silence ∧ missing ≠ []) ∨
    ∃ input, c.readLine net = .ok (f.line, { c with input }) ∧
      input ++ missing = f.content ++ rest := by
  rw [NatsFrame.bytes, List.append_assoc (utf8 f.line ++ [13, 10])] at hc
  rcases List.append_eq_append_iff.mp hc with ⟨cut, hline, hmissing⟩ | ⟨input, hinput, hrest⟩
  · by_cases hcut : cut = []
    · subst hcut
      rw [List.append_nil] at hline
      rw [List.nil_append] at hmissing
      exact Or.inr ⟨[], readLine_line hf.oneLine hf.short (by rw [List.append_nil, ← hline]),
        hmissing⟩
    · refine Or.inl ⟨readLine_cut hf.oneLine hf.short hcut hline.symm, fun hnil => ?_⟩
      rw [hnil] at hmissing
      exact hcut (List.append_eq_nil_iff.mp hmissing.symm).1
  · exact Or.inr ⟨input, readLine_line hf.oneLine hf.short hinput, hrest.symm⟩

variable (net) in
/-- A payload is read, or it is cut off. -/
theorem payload_cases (c : NatsConnection) {payload : List UInt8} (hsize : payload.length ≤ isizeMax)
    (hc : c.input ++ missing = payload ++ [13, 10] ++ rest) :
    (c.readPayload net payload.length = .error net.silence ∧ missing ≠ []) ∨
    ∃ input, c.readPayload net payload.length = .ok (payload, { c with input }) ∧
      input ++ missing = rest := by
  by_cases hshort : c.input.length < payload.length + 2
  · refine Or.inl ⟨readPayload_cut hsize hshort, ?_⟩
    rintro rfl
    have := congrArg List.length hc
    simp only [List.length_append, List.length_cons, List.length_nil] at this
    omega
  · obtain ⟨input, hinput, hrest⟩ : ∃ input, c.input = payload ++ [13, 10] ++ input ∧
        rest = input ++ missing := by
      rcases List.append_eq_append_iff.mp hc with ⟨cut, hcut, hmissing⟩ | h
      · have hlen := congrArg List.length hcut
        simp only [List.length_append, List.length_cons, List.length_nil] at hlen
        obtain rfl : cut = [] := List.length_eq_zero_iff.mp (by omega)
        exact ⟨[], by simpa using hcut.symm, by simpa using hmissing.symm⟩
      · exact h
    exact Or.inr ⟨input, readPayload_append hsize hinput, hrest.symm⟩

/-- What the next frame is to a connection, if it is not cut off: an operation, none or an error, and
one answer to a ping. -/
theorem readOpStep_frame (hf : f.Sound) (hc : c.input ++ missing = f.bytes ++ rest) :
    (c.readOpStep net = .error net.silence ∧ missing ≠ []) ∨
    ∃ input, input ++ missing = rest ∧ c.readOpStep net =
      if f = .ping then
        (NatsConnection.writeAll net (utf8 "PONG\r\n") { c with input }).map fun c => (none, c)
      else f.op.map fun op => (op, { c with input }) := by
  rcases line_cases net hf hc with ⟨hline, hmissing⟩ | ⟨input, hline, hinput⟩
  · refine Or.inl ⟨?_, hmissing⟩
    unfold NatsConnection.readOpStep
    rw [hline]
    rfl
  have hcontent := hf.content
  cases f with
  | msg subject sid replyTo payload =>
    have hsize : payload.length ≤ isizeMax := by
      rw [NatsFrame.content, List.length_append] at hcontent
      omega
    have hverb : (NatsFrame.msg subject sid replyTo payload).line = "MSG " ++
        spaced ([subject, sid] ++ replyTo.toList ++ [toString payload.length]) := rfl
    have hstep := readOpStep_msg (hverb ▸ hline)
    rw [← hverb, readMsg_line hf.words hsize] at hstep
    rcases payload_cases net { c with input } hsize hinput with ⟨hread, hmissing⟩ | ⟨input', hread, hrest⟩
    · exact Or.inl ⟨by rw [hstep, hread]; rfl, hmissing⟩
    · exact Or.inr ⟨input', hrest, by rw [hstep, hread]; rfl⟩
  | hmsg subject sid replyTo status fields payload =>
    have hsize : (NatsFrame.headers status fields ++ payload).length ≤ isizeMax := by
      rw [NatsFrame.content, List.length_append] at hcontent
      omega
    have hverb : (NatsFrame.hmsg subject sid replyTo status fields payload).line = "HMSG " ++
        spaced ([subject, sid] ++ replyTo.toList ++
          [toString (NatsFrame.headers status fields).length,
            toString (NatsFrame.headers status fields ++ payload).length]) := rfl
    have hstep := readOpStep_hmsg (hverb ▸ hline)
    rw [← hverb, readHmsg_line hf.words hsize] at hstep
    rcases payload_cases net { c with input } hsize hinput with ⟨hread, hmissing⟩ | ⟨input', hread, hrest⟩
    · exact Or.inl ⟨by rw [hstep, hread]; rfl, hmissing⟩
    · refine Or.inr ⟨input', hrest, ?_⟩
      rw [hstep, hread, if_neg (by simp)]
      simp only [Except.map, List.drop_left, List.take_left, NatsFrame.op]
      have hstatus : ∀ s ∈ status, s.1 < 2 ^ 16 ∧ '\n' ∉ s.2.toList := hf.status
      rw [parseNatsHeaderStatus_headers fields hstatus]
  | info text => exact Or.inr ⟨input, hinput, readOpStep_line rfl hline⟩
  | blank => exact Or.inr ⟨input, hinput, readOpStep_line rfl hline⟩
  | ok => exact Or.inr ⟨input, hinput, readOpStep_line rfl hline⟩
  | ping => exact Or.inr ⟨input, hinput, readOpStep_line rfl hline⟩
  | pong => exact Or.inr ⟨input, hinput, readOpStep_line rfl hline⟩
  | err text => exact Or.inr ⟨input, hinput, readOpStep_line rfl hline⟩

end Frame

/-! ## Many frames -/

/-- Every write succeeds, and a read that finds nothing times out: the server keeps the connection
open. -/
structure NatsNetwork.Open (net : NatsNetwork) : Prop where
  write : ∀ written, net.write written = .ok ()
  silence : net.silence = .timedOut

section Frames

variable {net : NatsNetwork} {c c' : NatsConnection} {frames : List NatsFrame} {missing : List UInt8}

theorem readOp_error {err : NatsError} (h : c.readOpStep net = .error err) :
    c.readOp net = .error err := by
  rw [NatsConnection.readOp]
  split
  · rename_i herr
    cases herr.symm.trans h
    rfl
  · rename_i hok
    cases hok.symm.trans h
  · rename_i hok
    cases hok.symm.trans h

theorem readOp_some {op : NatsOp} (h : c.readOpStep net = .ok (some op, c')) :
    c.readOp net = .ok (op, c') := by
  rw [NatsConnection.readOp]
  split
  · rename_i herr
    cases herr.symm.trans h
  · rename_i hok
    cases hok.symm.trans h
    rfl
  · rename_i hok
    cases hok.symm.trans h

theorem readOp_none (h : c.readOpStep net = .ok (none, c')) : c.readOp net = c'.readOp net := by
  conv_lhs => rw [NatsConnection.readOp]
  split
  · rename_i herr
    cases herr.symm.trans h
  · rename_i hok
    cases hok.symm.trans h
  · rename_i hok
    cases hok.symm.trans h
    rfl

variable (net) in
/-- A connection gets the operation of the first frame that has one, and no other, or the error of that
frame. It fails as well where the frames are cut off or have none, and where a ping cannot be
answered. -/
theorem readOp_frames (c : NatsConnection) (hs : ∀ f ∈ frames, f.Sound)
    (hc : c.input ++ missing = frames.flatMap NatsFrame.bytes) :
    (∃ err, c.readOp net = .error err ∧
      (net.Open → err = .timedOut ∧ (missing = [] → ∀ f ∈ frames, f.op = .ok none))) ∨
    ∃ skipped f rest, frames = skipped ++ f :: rest ∧ (∀ g ∈ skipped, g.op = .ok none) ∧
      ((∃ err, f.op = .error err ∧ c.readOp net = .error err) ∨
      ∃ op c', f.op = .ok (some op) ∧ c.readOp net = .ok (op, c') ∧
        c'.input ++ missing = rest.flatMap NatsFrame.bytes) := by
  induction frames generalizing c with
  | nil =>
    have hnil : c.input = [] := (List.append_eq_nil_iff.mp hc).1
    refine Or.inl ⟨net.silence, readOp_error ?_, fun hopen => ⟨hopen.silence, fun _ f hf => by cases hf⟩⟩
    unfold NatsConnection.readOpStep NatsConnection.readLine
    rw [hnil]
    rfl
  | cons f frames ih =>
    have hframes : ∀ g ∈ frames, g.Sound := fun g hg => hs g (List.mem_cons_of_mem _ hg)
    rw [List.flatMap_cons] at hc
    rcases readOpStep_frame (hs f List.mem_cons_self) hc with ⟨hstep, hmissing⟩ | ⟨input, hinput, hstep⟩
    · exact Or.inl ⟨net.silence, readOp_error hstep,
        fun hopen => ⟨hopen.silence, fun hnil => absurd hnil hmissing⟩⟩
    -- a frame without an operation is passed over
    have hskip : ∀ c₁ : NatsConnection, f.op = .ok none → c₁.input = input →
        c.readOpStep net = .ok (none, c₁) →
        (∃ err, c.readOp net = .error err ∧
          (net.Open → err = .timedOut ∧ (missing = [] → ∀ g ∈ f :: frames, g.op = .ok none))) ∨
        ∃ skipped g rest, f :: frames = skipped ++ g :: rest ∧ (∀ g ∈ skipped, g.op = .ok none) ∧
          ((∃ err, g.op = .error err ∧ c.readOp net = .error err) ∨
          ∃ op c', g.op = .ok (some op) ∧ c.readOp net = .ok (op, c') ∧
            c'.input ++ missing = rest.flatMap NatsFrame.bytes) := by
      intro c₁ hop hc₁ hstep
      rw [readOp_none hstep]
      rcases ih c₁ hframes (hc₁ ▸ hinput) with
        ⟨err, herr, hopen⟩ | ⟨skipped, g, rest, hsplit, hskipped, hread⟩
      · refine Or.inl ⟨err, herr, fun h => ⟨(hopen h).1, fun hnil g hg => ?_⟩⟩
        rcases List.mem_cons.mp hg with rfl | hg
        · exact hop
        · exact (hopen h).2 hnil g hg
      · refine Or.inr ⟨f :: skipped, g, rest, by rw [hsplit]; rfl, fun g hg => ?_, hread⟩
        rcases List.mem_cons.mp hg with rfl | hg
        · exact hop
        · exact hskipped g hg
    by_cases hping : f = .ping
    · rw [if_pos hping] at hstep
      cases hwrite : NatsConnection.writeAll net (utf8 "PONG\r\n") { c with input } with
      | error err =>
        rw [hwrite] at hstep
        refine Or.inl ⟨err, readOp_error hstep, fun hopen => ?_⟩
        rw [NatsConnection.writeAll, hopen.write] at hwrite
        cases hwrite
      | ok c₁ =>
        rw [hwrite] at hstep
        exact hskip c₁ (by rw [hping]; rfl) (by rw [(NatsConnection.writeAll_ok hwrite).2]) hstep
    · rw [if_neg hping] at hstep
      cases hop : f.op with
      | error err =>
        exact Or.inr ⟨[], f, frames, rfl, List.forall_mem_nil _, Or.inl ⟨err, hop,
          readOp_error (by rw [hstep, hop]; rfl)⟩⟩
      | ok op =>
        cases op with
        | none => exact hskip _ hop rfl (by rw [hstep, hop]; rfl)
        | some op =>
          exact Or.inr ⟨[], f, frames, rfl, List.forall_mem_nil _, Or.inr ⟨op, _, hop,
            readOp_some (by rw [hstep, hop]; rfl), hinput⟩⟩

/-- The messages among the frames. -/
abbrev messagesOf (frames : List NatsFrame) : List NatsMessage := frames.filterMap NatsFrame.message

/-- The frames before the first error. -/
def beforeError (frames : List NatsFrame) : List NatsFrame := frames.takeWhile fun f => f.op.isOk

theorem messagesOf_append (before rest : List NatsFrame) :
    messagesOf (before ++ rest) = messagesOf before ++ messagesOf rest := List.filterMap_append

theorem messagesOf_skipped {skipped : List NatsFrame} (h : ∀ g ∈ skipped, g.op = .ok none) :
    messagesOf skipped = [] :=
  List.filterMap_eq_nil_iff.mpr fun g hg => by rw [NatsFrame.message, h g hg]

theorem messagesOf_concat {skipped : List NatsFrame} {f : NatsFrame}
    (h : ∀ g ∈ skipped, g.op = .ok none) : messagesOf (skipped ++ [f]) = f.message.toList := by
  rw [messagesOf_append, messagesOf_skipped h, List.nil_append]
  cases hf : f.message with
  | none => exact List.filterMap_cons_none hf
  | some message => exact List.filterMap_cons_some hf

theorem beforeError_append {before : List NatsFrame} (h : ∀ f ∈ before, f.op.isOk)
    (rest : List NatsFrame) : beforeError (before ++ rest) = before ++ beforeError rest :=
  List.takeWhile_append_of_pos h

theorem isOk_of_skipped {skipped : List NatsFrame} (h : ∀ g ∈ skipped, g.op = .ok none) :
    ∀ g ∈ skipped, g.op.isOk := fun g hg => by rw [h g hg]; rfl

theorem beforeError_ne {f : NatsFrame} {err : NatsError} (hf : f ∈ frames) (herr : f.op = .error err) :
    beforeError frames ≠ frames := fun h => by
  have hok : f.op.isOk := List.mem_takeWhile_imp (p := fun f : NatsFrame => f.op.isOk) (h ▸ hf)
  rw [herr] at hok
  cases hok

/-- What a request waits for is among the frames: as many messages as it takes, or one that says that
there are no more. -/
def NatsFrame.Settled (maxMessages : Nat) (frames : List NatsFrame) : Prop :=
  maxMessages ≤ (messagesOf frames).length ∨ ∃ message ∈ messagesOf frames, message.isEnd

/-- No error comes before what a request waits for. -/
def NatsFrame.Answered (maxMessages : Nat) (frames : List NatsFrame) : Prop :=
  beforeError frames = frames ∨ NatsFrame.Settled maxMessages (beforeError frames)

theorem answered_append {before rest : List NatsFrame} {message : NatsMessage} {n : Nat}
    (hok : ∀ f ∈ before, f.op.isOk) (hmessage : messagesOf before = [message])
    (hend : ¬message.isEnd) : NatsFrame.Answered (n + 1) (before ++ rest) ↔ NatsFrame.Answered n rest := by
  unfold NatsFrame.Answered NatsFrame.Settled
  rw [beforeError_append hok, List.append_cancel_left_eq, messagesOf_append, hmessage]
  simp [hend]

/-- No two readings of the clock are further apart than this. -/
def NatsNetwork.Prompt (net : NatsNetwork) (timeoutMs : Nat) : Prop :=
  ∀ i j, net.now j - net.now i ≤ timeoutMs

/-- What `read_message_for` may return: nothing, an error, or the first message. -/
inductive Heard (net : NatsNetwork) (timeoutMs : Nat) (missing : List UInt8) (frames : List NatsFrame) :
    Except NatsError (Option (NatsMessage × NatsConnection)) → Prop
  | nothing (h : net.Open → net.Prompt timeoutMs → missing = [] →
        beforeError frames = frames ∧ messagesOf frames = []) :
      Heard net timeoutMs missing frames (.ok none)
  | error {err : NatsError}
      (h : net.Open → messagesOf (beforeError frames) = [] ∧ ∃ f ∈ frames, f.op = .error err) :
      Heard net timeoutMs missing frames (.error err)
  | message {before rest : List NatsFrame} {message : NatsMessage} {c : NatsConnection}
      (hsplit : frames = before ++ rest) (hok : ∀ f ∈ before, f.op.isOk)
      (h : messagesOf before = [message]) (hc : c.input ++ missing = rest.flatMap NatsFrame.bytes) :
      Heard net timeoutMs missing frames (.ok (some (message, c)))

/-- Frames that are no messages are passed over. -/
theorem Heard.skip {timeoutMs : Nat} {skipped rest : List NatsFrame}
    {result : Except NatsError (Option (NatsMessage × NatsConnection))}
    (h : Heard net timeoutMs missing rest result) (hok : ∀ f ∈ skipped, f.op.isOk)
    (hnil : messagesOf skipped = []) : Heard net timeoutMs missing (skipped ++ rest) result := by
  cases h with
  | nothing h =>
    refine .nothing fun hopen hprompt hmissing => ?_
    obtain ⟨hall, hnone⟩ := h hopen hprompt hmissing
    rw [beforeError_append hok, messagesOf_append, hall, hnil, hnone]
    exact ⟨rfl, rfl⟩
  | error h =>
    refine .error fun hopen => ?_
    obtain ⟨hnone, f, hf, herr⟩ := h hopen
    rw [beforeError_append hok, messagesOf_append, hnil, hnone]
    exact ⟨rfl, f, List.mem_append_right _ hf, herr⟩
  | @message before rest message c hsplit hbefore h hc =>
    refine .message (by rw [hsplit, ← List.append_assoc])
      (fun f hf => (List.mem_append.mp hf).elim (hok f) (hbefore f)) ?_ hc
    rw [messagesOf_append, hnil, h, List.nil_append]

theorem readMessageLoop_frames {frames : List NatsFrame} {timeoutMs started : Nat} (hstarted : ∃ i, started = net.now i)
    (c : NatsConnection) (hs : ∀ f ∈ frames, f.Sound)
    (hc : c.input ++ missing = frames.flatMap NatsFrame.bytes) :
    Heard net timeoutMs missing frames (c.readMessageLoop net timeoutMs started) := by
  rw [NatsConnection.readMessageLoop]
  split
  · rename_i hlate
    obtain ⟨i, rfl⟩ := hstarted
    exact .nothing fun _ hprompt _ => absurd (hprompt i c.readings) (Nat.not_le.mpr hlate)
  have hop := readOp_frames net { c with readings := c.readings + 1 } hs hc
  rcases hop with ⟨err, herr, hopen⟩ | ⟨skipped, f, rest, rfl, hskipped, hread⟩
  · split
    · rename_i heq
      cases herr.symm.trans heq
      refine .nothing fun hnet _ hnil => ?_
      have hnone := (hopen hnet).2 hnil
      exact ⟨List.takeWhile_eq_self_iff.mpr (isOk_of_skipped hnone), messagesOf_skipped hnone⟩
    · rename_i heq
      cases herr.symm.trans heq
      exact .error fun hnet => by cases (hopen hnet).1
    all_goals
      rename_i heq
      cases herr.symm.trans heq
  have hskip := isOk_of_skipped hskipped
  rcases hread with ⟨err, hf, herr⟩ | ⟨op, c', hf, hread, hrest⟩
  · -- the frame is an error, and what comes before it is no message
    have hnone : messagesOf (beforeError (skipped ++ f :: rest)) = [] := by
      rw [beforeError_append hskip, beforeError,
        List.takeWhile_cons_of_neg (by rw [hf]; exact Bool.false_ne_true), List.append_nil,
        messagesOf_skipped hskipped]
    have hmem : f ∈ skipped ++ f :: rest := List.mem_append_right _ List.mem_cons_self
    split
    · rename_i heq
      cases herr.symm.trans heq
      cases f with
      | err text => cases hf
      | _ => cases hf
    · rename_i heq
      cases herr.symm.trans heq
      exact .error fun _ => ⟨hnone, f, hmem, hf⟩
    all_goals
      rename_i heq
      cases herr.symm.trans heq
  · have hsplit : skipped ++ f :: rest = (skipped ++ [f]) ++ rest := by
      rw [List.append_assoc, List.singleton_append]
    have hok : ∀ g ∈ skipped ++ [f], g.op.isOk := fun g hg =>
      (List.mem_append.mp hg).elim (hskip g) fun hg => by rw [List.mem_singleton.mp hg, hf]; rfl
    have hmessages := messagesOf_concat (f := f) hskipped
    have hsub : ∀ g ∈ rest, g ∈ skipped ++ f :: rest := fun g hg =>
      List.mem_append_right _ (List.mem_cons_of_mem _ hg)
    have hlt := NatsConnection.readOp_length hread
    rw [NatsFrame.message, hf] at hmessages
    rw [hsplit]
    split
    · rename_i heq
      cases hread.symm.trans heq
    · rename_i heq
      cases hread.symm.trans heq
    · rename_i heq
      cases hread.symm.trans heq
      exact .message rfl hok hmessages hrest
    all_goals
      rename_i heq
      cases hread.symm.trans heq
      exact (readMessageLoop_frames hstarted c' (fun g hg => hs g (hsub g hg)) hrest).skip hok hmessages
termination_by c.input.length

end Frames

/-! ## The messages of a request -/

/-- The messages that a request is to return: those up to the first one that says that there are no
more. -/
def delivered (maxMessages : Nat) (frames : List NatsFrame) : List NatsMessage :=
  ((messagesOf frames).takeWhile fun message => !message.isEnd).take maxMessages

section Requests

variable {net : NatsNetwork} {missing : List UInt8} {timeoutMs maxMessages : Nat}

theorem NatsNetwork.Prompt.max (h : net.Prompt timeoutMs) : net.Prompt (max timeoutMs 1) :=
  fun i j => (h i j).trans (Nat.le_max_left _ _)

theorem readMessageFor_frames (net : NatsNetwork) (timeoutMs : Nat) {frames : List NatsFrame}
    (c : NatsConnection) (hs : ∀ f ∈ frames, f.Sound) (hc : c.input ++ missing = frames.flatMap NatsFrame.bytes) :
    Heard net (max timeoutMs 1) missing frames (c.readMessageFor net timeoutMs) :=
  readMessageLoop_frames ⟨_, rfl⟩ _ hs hc

theorem readMessagesLoop_frames {started : Nat} (hstarted : ∃ i, started = net.now i)
    {frames : List NatsFrame} (c : NatsConnection) (hs : ∀ f ∈ frames, f.Sound)
    (hc : c.input ++ missing = frames.flatMap NatsFrame.bytes) :
    (∀ messages, c.readMessagesLoop net timeoutMs started maxMessages = .ok messages →
      messages <+: delivered maxMessages frames) ∧
    (net.Open → net.Prompt timeoutMs → missing = [] →
      (NatsFrame.Answered maxMessages frames →
        c.readMessagesLoop net timeoutMs started maxMessages = .ok (delivered maxMessages frames)) ∧
      (¬NatsFrame.Answered maxMessages frames → ∃ f ∈ frames, ∃ err, f.op = .error err ∧
        c.readMessagesLoop net timeoutMs started maxMessages = .error err)) := by
  induction maxMessages generalizing frames c with
  | zero =>
    refine ⟨fun messages h => ?_, fun _ _ _ => ⟨fun _ => rfl, fun hnot => ?_⟩⟩
    · cases h
      exact List.nil_prefix
    · exact absurd (Or.inr (Or.inl (Nat.zero_le _))) hnot
  | succ n ih =>
    rw [NatsConnection.readMessagesLoop]
    by_cases hlate : net.now c.readings - started > timeoutMs
    · rw [if_pos hlate]
      refine ⟨fun messages h => ?_, fun _ hprompt _ => ?_⟩
      · cases h
        exact List.nil_prefix
      · obtain ⟨i, rfl⟩ := hstarted
        exact absurd (hprompt i c.readings) (Nat.not_le.mpr hlate)
    rw [if_neg hlate]
    have hheard := readMessageFor_frames net timeoutMs { c with readings := c.readings + 1 } hs hc
    generalize NatsConnection.readMessageFor net timeoutMs { c with readings := c.readings + 1 } = result
      at hheard
    cases hheard with
    | nothing h =>
      refine ⟨fun messages hok => ?_, fun hopen hprompt hnil => ?_⟩
      · cases hok
        exact List.nil_prefix
      · obtain ⟨hall, hnone⟩ := h hopen hprompt.max hnil
        rw [delivered, hnone]
        exact ⟨fun _ => rfl, fun hnot => absurd (Or.inl hall) hnot⟩
    | error h =>
      refine ⟨fun messages hok => (by cases hok), fun hopen _ _ => ?_⟩
      obtain ⟨hnone, f, hf, herr⟩ := h hopen
      refine ⟨fun hanswered => ?_, fun _ => ⟨f, hf, _, herr, rfl⟩⟩
      rcases hanswered with hall | hmany | ⟨message, hmessage, -⟩
      · exact absurd hall (beforeError_ne hf herr)
      · rw [hnone] at hmany
        exact absurd hmany (Nat.not_succ_le_zero n)
      · rw [hnone] at hmessage
        cases hmessage
    | @message before rest message c' hsplit hok hmessage hc' =>
      subst hsplit
      have hmessages : messagesOf (before ++ rest) = message :: messagesOf rest := by
        rw [messagesOf_append, hmessage, List.singleton_append]
      dsimp only
      by_cases hend : message.isEnd
      · have hnone : delivered (n + 1) (before ++ rest) = [] := by
          simp [delivered, hmessages, hend]
        have hanswered : NatsFrame.Answered (n + 1) (before ++ rest) := by
          refine Or.inr (Or.inr ⟨message, ?_, hend⟩)
          rw [beforeError_append hok, messagesOf_append, hmessage]
          exact List.mem_append_left _ (List.mem_singleton_self message)
        rw [if_pos hend, hnone]
        refine ⟨fun messages hok => ?_, fun _ _ _ => ⟨fun _ => rfl, fun hnot => absurd hanswered hnot⟩⟩
        cases hok
        exact List.nil_prefix
      · have hcons : delivered (n + 1) (before ++ rest) = message :: delivered n rest := by
          simp [delivered, hmessages, hend]
        obtain ⟨hbefore, hall⟩ := ih c' (fun f hf => hs f (List.mem_append_right _ hf)) hc'
        rw [if_neg hend, hcons, answered_append hok hmessage hend]
        refine ⟨fun messages hok => ?_, fun hopen hprompt hnil => ⟨fun hanswered => ?_, fun hnot => ?_⟩⟩
        · cases hloop : c'.readMessagesLoop net timeoutMs started n with
          | error err =>
            rw [hloop] at hok
            cases hok
          | ok messages' =>
            rw [hloop] at hok
            cases hok
            exact (List.prefix_cons_inj message).mpr (hbefore messages' hloop)
        · rw [(hall hopen hprompt hnil).1 hanswered]
          rfl
        · obtain ⟨f, hf, err, herr, hloop⟩ := (hall hopen hprompt hnil).2 hnot
          exact ⟨f, List.mem_append_right _ hf, err, herr, by rw [hloop]; rfl⟩

/-- The messages that a connection reads are those that were sent, in their order, and all of them if
nothing is missing and no error comes before them. -/
theorem readMessagesFor_frames {frames : List NatsFrame} (c : NatsConnection)
    (hs : ∀ f ∈ frames, f.Sound) (hc : c.input ++ missing = frames.flatMap NatsFrame.bytes) :
    (∀ messages, c.readMessagesFor net maxMessages timeoutMs = .ok messages →
      messages <+: delivered maxMessages frames) ∧
    (net.Open → net.Prompt timeoutMs → missing = [] →
      (NatsFrame.Answered maxMessages frames →
        c.readMessagesFor net maxMessages timeoutMs = .ok (delivered maxMessages frames)) ∧
      (¬NatsFrame.Answered maxMessages frames → ∃ f ∈ frames, ∃ err, f.op = .error err ∧
        c.readMessagesFor net maxMessages timeoutMs = .error err)) :=
  let ⟨hbefore, hall⟩ := readMessagesLoop_frames ⟨_, rfl⟩ { c with readings := c.readings + 1 } hs hc
  ⟨hbefore, fun hopen hprompt => hall hopen hprompt.max⟩

/-! ## A whole request -/

/-- The frames that a server sends, after its `INFO`, before and after it has answered the ping of
`connect`. What is missing of them has not arrived when a read fails. -/
structure NatsNetwork.Sends (net : NatsNetwork) (addr : String) (greeting frames : List NatsFrame)
    (missing : List UInt8) : Prop where
  sound : ∀ f ∈ frames, f.Sound
  arrives : ∃ input text, net.dial (normalizeNatsAddr addr) = .ok input ∧
    NatsFrame.pong ∉ greeting ∧ (∀ f ∈ NatsFrame.info text :: greeting, f.Sound) ∧
    input ++ missing =
      (NatsFrame.info text :: greeting ++ NatsFrame.pong :: frames).flatMap NatsFrame.bytes

theorem eq_pong_of_op {f : NatsFrame} (h : f.op = .ok (some .pong)) : f = .pong := by
  cases f with
  | pong => rfl
  | info _ => cases h
  | blank => cases h
  | ok => cases h
  | ping => cases h
  | err _ => cases h
  | msg _ _ _ _ => cases h
  | hmsg _ _ _ _ _ _ => cases h

theorem awaitPong_frames {greeting frames : List NatsFrame} (c : NatsConnection)
    (hs : ∀ f ∈ greeting ++ NatsFrame.pong :: frames, f.Sound) (hno : NatsFrame.pong ∉ greeting)
    (hc : c.input ++ missing = (greeting ++ NatsFrame.pong :: frames).flatMap NatsFrame.bytes) :
    (∃ err, c.awaitPong net = .error err ∧
      (net.Open → missing = [] → ∃ f ∈ greeting, f.op = .error err)) ∨
    ∃ c', c.awaitPong net = .ok c' ∧ (∀ f ∈ greeting, f.op.isOk) ∧
      c'.input ++ missing = frames.flatMap NatsFrame.bytes := by
  have hop : NatsFrame.pong.op = .ok (some .pong) := rfl
  rw [NatsConnection.awaitPong]
  rcases readOp_frames net c hs hc with
    ⟨err, herr, hopen⟩ | ⟨skipped, f, rest, hsplit, hskipped, hread⟩
  · refine Or.inl ⟨err, ?_, fun hnet hnil => ?_⟩
    · split
      · rename_i heq
        cases heq.symm.trans herr
        rfl
      all_goals
        rename_i heq
        cases herr.symm.trans heq
    · cases ((hopen hnet).2 hnil _ (List.mem_append_right _ List.mem_cons_self)).symm.trans hop
  have hskip := isOk_of_skipped hskipped
  -- either the frame is the pong, or it is of the greeting
  obtain ⟨rfl, rfl, rfl⟩ | ⟨greeting', rfl, rfl⟩ :
      (f = .pong ∧ greeting = skipped ∧ rest = frames) ∨
        ∃ greeting', rest = greeting' ++ NatsFrame.pong :: frames ∧
          greeting = skipped ++ f :: greeting' := by
    rcases List.append_eq_append_iff.mp hsplit with ⟨middle, hmiddle, htail⟩ | ⟨middle, hmiddle, htail⟩
    · cases middle with
      | nil =>
        obtain ⟨rfl, rfl⟩ := List.cons.inj htail
        exact Or.inl ⟨rfl, by rw [hmiddle, List.append_nil], rfl⟩
      | cons g middle =>
        obtain ⟨rfl, -⟩ := List.cons.inj htail
        cases (hskipped _ (hmiddle ▸ List.mem_append_right _ List.mem_cons_self)).symm.trans hop
    · cases middle with
      | nil =>
        obtain ⟨rfl, rfl⟩ := List.cons.inj htail
        exact Or.inl ⟨rfl, by rw [hmiddle, List.append_nil], rfl⟩
      | cons g middle =>
        obtain ⟨rfl, rfl⟩ := List.cons.inj htail
        exact Or.inr ⟨middle, rfl, hmiddle⟩
  · rcases hread with ⟨err, hf, -⟩ | ⟨op, c', hf, hread, hrest⟩
    · cases hf
    cases hf
    refine Or.inr ⟨c', ?_, hskip, hrest⟩
    split
    all_goals
      rename_i heq
      cases hread.symm.trans heq
    rfl
  have hmem : f ∈ skipped ++ f :: greeting' := List.mem_append_right _ List.mem_cons_self
  rcases hread with ⟨err, hf, herr⟩ | ⟨op, c', hf, hread, hrest⟩
  · refine Or.inl ⟨err, ?_, fun _ _ => ⟨f, hmem, hf⟩⟩
    split
    · rename_i heq
      cases heq.symm.trans herr
      rfl
    all_goals
      rename_i heq
      cases herr.symm.trans heq
  · have hlt := NatsConnection.readOp_length hread
    have hne : op ≠ .pong := by
      rintro rfl
      exact hno (eq_pong_of_op hf ▸ hmem)
    have ih := awaitPong_frames c'
      (fun g hg => hs g (hsplit ▸ List.mem_append_right _ (List.mem_cons_of_mem _ hg)))
      (fun hmem => hno (List.mem_append_right _ (List.mem_cons_of_mem _ hmem))) hrest
    have hgoal : (∃ err, c'.awaitPong net = .error err ∧
          (net.Open → missing = [] → ∃ g ∈ skipped ++ f :: greeting', g.op = .error err)) ∨
        ∃ c₁, c'.awaitPong net = .ok c₁ ∧ (∀ g ∈ skipped ++ f :: greeting', g.op.isOk) ∧
          c₁.input ++ missing = frames.flatMap NatsFrame.bytes := by
      rcases ih with ⟨err, herr, hfrom⟩ | ⟨c₁, hok, hgreeting, hinput⟩
      · refine Or.inl ⟨err, herr, fun hopen hnil => ?_⟩
        obtain ⟨g, hg, hgerr⟩ := hfrom hopen hnil
        exact ⟨g, List.mem_append_right _ (List.mem_cons_of_mem _ hg), hgerr⟩
      · refine Or.inr ⟨c₁, hok, fun g hg => ?_, hinput⟩
        rcases List.mem_append.mp hg with hg | hg
        · exact hskip g hg
        rcases List.mem_cons.mp hg with rfl | hg
        · rw [hf]
          rfl
        · exact hgreeting g hg
    split
    all_goals
      rename_i heq
      cases hread.symm.trans heq
    · exact absurd rfl hne
    · exact hgoal
    · exact hgoal
termination_by c.input.length

theorem writeAll_open (hopen : net.Open) (bytes : List UInt8) (c : NatsConnection) :
    c.writeAll net bytes = .ok { c with written := c.written ++ bytes } := by
  rw [NatsConnection.writeAll, hopen.write]
  rfl

theorem connect_frames {addr : String} {greeting frames : List NatsFrame}
    (h : net.Sends addr greeting frames missing) :
    (∀ c, NatsConnection.connect net addr = .ok c → (∀ f ∈ greeting, f.op.isOk) ∧
      c.input ++ missing = frames.flatMap NatsFrame.bytes) ∧
    (net.Open → missing = [] → (∃ c, NatsConnection.connect net addr = .ok c) ∨
      ∃ f ∈ greeting, ∃ err, f.op = .error err ∧ NatsConnection.connect net addr = .error err) := by
  obtain ⟨hsound, input, text, hdial, hno, hgreeting, hinput⟩ := h
  have hinfo := hgreeting _ List.mem_cons_self
  have hall : ∀ f ∈ greeting ++ NatsFrame.pong :: frames, f.Sound := by
    intro f hf
    rcases List.mem_append.mp hf with hf | hf
    · exact hgreeting f (List.mem_cons_of_mem _ hf)
    rcases List.mem_cons.mp hf with rfl | hf
    · exact ⟨by decide, by decide +kernel, List.forall_mem_nil _, fun _ h => (by cases h),
        Nat.zero_le _⟩
    · exact hsound f hf
  rw [List.cons_append, List.flatMap_cons] at hinput
  rcases line_cases net (c := ⟨input, [], 0⟩) hinfo hinput with
    ⟨hline, hmissing⟩ | ⟨input', hline, hrest⟩
  · unfold NatsConnection.connect
    rw [hdial, ok_bind, hline]
    exact ⟨fun c hc => (by cases hc), fun _ hnil => absurd hnil hmissing⟩
  have hstart : startsWith "INFO " (NatsFrame.info text).line = true := startsWith_append _ _
  unfold NatsConnection.connect
  rw [hdial, ok_bind, hline, ok_bind]
  dsimp only
  rw [if_pos hstart]
  constructor
  · intro c hc
    obtain ⟨c₁, h₁, hc⟩ := bind_eq_ok.mp hc
    obtain ⟨c₂, h₂, hc⟩ := bind_eq_ok.mp hc
    have hinput₂ : c₂.input = input' := by
      rw [(NatsConnection.writeAll_ok h₂).2, (NatsConnection.writeAll_ok h₁).2]
    rcases awaitPong_frames c₂ hall hno (hinput₂ ▸ hrest) with ⟨err, herr, -⟩ | ⟨c', hok, hread⟩
    · cases herr.symm.trans hc
    · cases hok.symm.trans hc
      exact hread
  · intro hopen hnil
    rw [writeAll_open hopen, ok_bind, NatsConnection.flush, writeAll_open hopen, ok_bind]
    rcases @awaitPong_frames net missing greeting frames ⟨input', _, 0⟩ hall hno hrest with
      ⟨err, herr, hfrom⟩ | ⟨c', hok, -⟩
    · obtain ⟨f, hf, hferr⟩ := hfrom hopen hnil
      exact Or.inr ⟨f, hf, err, hferr, herr⟩
    · exact Or.inl ⟨c', hok⟩

/-- Once a request is written, the frames of the server are what there is to read. -/
theorem ask_frames {addr : String} {greeting frames : List NatsFrame} (inbox subject : String)
    (payload : List UInt8) (h : net.Sends addr greeting frames missing) :
    (∀ c, NatsConnection.ask net inbox addr subject payload = .ok c →
      (∀ f ∈ greeting, f.op.isOk) ∧
      c.input ++ missing = frames.flatMap NatsFrame.bytes ∧ ∃ before, net.write (before ++
        utf8 s!"PUB {subject} {inbox} {payload.length}\r\n" ++ payload ++ utf8 "\r\n" ++
        utf8 "PING\r\n") = .ok ()) ∧
    (net.Open → missing = [] → (∃ c, NatsConnection.ask net inbox addr subject payload = .ok c) ∨
      ∃ f ∈ greeting, ∃ err, f.op = .error err ∧
        NatsConnection.ask net inbox addr subject payload = .error err) := by
  obtain ⟨hread, hconnects⟩ := connect_frames h
  unfold NatsConnection.ask
  constructor
  · intro c hc
    obtain ⟨c₁, h₁, hc⟩ := bind_eq_ok.mp hc
    obtain ⟨c₂, h₂, hc⟩ := bind_eq_ok.mp hc
    obtain ⟨c₃, h₃, hc⟩ := bind_eq_ok.mp hc
    obtain ⟨s₁, hs₁, h₂⟩ := bind_eq_ok.mp h₂
    obtain ⟨p₁, hp₁, h₃⟩ := bind_eq_ok.mp h₃
    obtain ⟨p₂, hp₂, h₃⟩ := bind_eq_ok.mp h₃
    obtain ⟨-, rfl⟩ := NatsConnection.writeAll_ok hs₁
    obtain ⟨-, rfl⟩ := NatsConnection.writeAll_ok h₂
    obtain ⟨-, rfl⟩ := NatsConnection.writeAll_ok hp₁
    obtain ⟨-, rfl⟩ := NatsConnection.writeAll_ok hp₂
    obtain ⟨-, rfl⟩ := NatsConnection.writeAll_ok h₃
    obtain ⟨hwrite, rfl⟩ := NatsConnection.writeAll_ok hc
    exact ⟨(hread c₁ h₁).1, (hread c₁ h₁).2, _, hwrite⟩
  · intro hopen hnil
    rcases hconnects hopen hnil with ⟨c₁, h₁⟩ | ⟨f, hf, err, hferr, herr⟩
    · rw [h₁]
      simp only [ok_bind, NatsConnection.subscribe, NatsConnection.publish, NatsConnection.flush,
        writeAll_open hopen]
      exact Or.inl ⟨_, rfl⟩
    · exact Or.inr ⟨f, hf, err, hferr, by rw [herr]; rfl⟩

end Requests

/-! A server that delivers one mutation, says that there are no more, and gives the connection up. -/

namespace Delivering

def text : String := "\x7b\"max_payload\":1048576\x7d"

def frames : List NatsFrame :=
  [.pong, .msg "inbox" "1" (some "$JS.ACK.1") (encodeMutation domainMutation), .ping,
    .hmsg "inbox" "1" none (some (404, "No Messages")) [] [], .err " 'Stale Connection'"]

/-- A server that acknowledges a publication. -/
def acknowledgment : List NatsFrame :=
  [.ok, .msg "inbox" "1" none (utf8 "\x7b\"stream\":\"GLOBACL\",\"seq\":1\x7d")]

def server (sent : List NatsFrame) : NatsNetwork where
  dial _ := .ok ((NatsFrame.info text :: .ok :: .pong :: sent).flatMap NatsFrame.bytes)
  silence := .timedOut
  write _ := .ok ()
  now _ := 0

theorem sound : ∀ f ∈ NatsFrame.info text :: frames ++ acknowledgment, f.Sound := by
  intro f hf
  simp only [frames, acknowledgment, List.cons_append, List.nil_append, List.mem_cons,
    List.not_mem_nil, or_false] at hf
  rcases hf with rfl | rfl | rfl | rfl | rfl | rfl | rfl | rfl
  all_goals
    exact ⟨by decide +kernel, by decide +kernel, by decide +kernel, by decide +kernel,
      by decide +kernel⟩

theorem sends {sent : List NatsFrame} (h : ∀ f ∈ sent, f.Sound) :
    (server sent).Sends "nats://127.0.0.1:4222" [.ok] sent [] where
  sound := h
  arrives := by
    refine ⟨_, text, rfl, by decide, fun f hf => sound f ?_, List.append_nil _⟩
    rcases List.mem_cons.mp hf with rfl | hf
    · exact List.mem_cons_self
    · exact List.mem_append_right _ (List.mem_cons.mpr (Or.inl (List.mem_singleton.mp hf)))

theorem sends_frames : (server frames).Sends "nats://127.0.0.1:4222" [.ok] frames [] :=
  sends fun f hf => sound f (List.mem_append_left _ (List.mem_cons_of_mem _ hf))

theorem opened (sent : List NatsFrame) : (server sent).Open := ⟨fun _ => rfl, rfl⟩

theorem prompt (sent : List NatsFrame) (timeoutMs : Nat) : (server sent).Prompt timeoutMs :=
  fun _ _ => Nat.zero_le _

theorem welcomed : ∀ f ∈ [NatsFrame.ok], f.op.isOk := fun f hf => by
  rw [List.mem_singleton.mp hf]
  rfl

/-- The error comes after what a request waits for. -/
theorem answered (maxMessages : Nat) : NatsFrame.Answered maxMessages frames :=
  Or.inr (Or.inr ⟨⟨"inbox", none, [], some 404⟩, List.mem_cons_of_mem _ List.mem_cons_self, rfl⟩)

end Delivering

section Requests

variable {net : NatsNetwork} {missing : List UInt8} {timeoutMs maxMessages : Nat}

/-- A request returns the messages that the server sends, in their order and up to the first one that
says that there are no more, wherever the connection breaks off; and all of them if it does not, unless
the server sends an error before them. -/
theorem natsRequest_frames (inbox addr subject : String) (payload : List UInt8)
    (maxMessages timeoutMs : Nat) (greeting frames : List NatsFrame)
    (h : net.Sends addr greeting frames missing) :
    (∀ messages, natsRequest net inbox addr subject payload maxMessages timeoutMs = .ok messages →
      messages <+: delivered (max maxMessages 1) frames) ∧
    (net.Open → net.Prompt timeoutMs → missing = [] →
      ((∀ f ∈ greeting, f.op.isOk) ∧ NatsFrame.Answered (max maxMessages 1) frames →
        natsRequest net inbox addr subject payload maxMessages timeoutMs =
          .ok (delivered (max maxMessages 1) frames)) ∧
      (¬((∀ f ∈ greeting, f.op.isOk) ∧ NatsFrame.Answered (max maxMessages 1) frames) →
        ∃ f ∈ greeting ++ frames, ∃ err, f.op = .error err ∧
          natsRequest net inbox addr subject payload maxMessages timeoutMs = .error err)) := by
  obtain ⟨hasked, hasks⟩ := ask_frames inbox subject payload h
  unfold natsRequest
  constructor
  · intro messages hmessages
    obtain ⟨c, hc, hmessages⟩ := bind_eq_ok.mp hmessages
    exact (readMessagesFor_frames c h.sound (hasked c hc).2.1).1 messages hmessages
  · intro hopen hprompt hnil
    rcases hasks hopen hnil with ⟨c, hc⟩ | ⟨f, hf, err, hferr, herr⟩
    · obtain ⟨hgreeting, hinput, -⟩ := hasked c hc
      obtain ⟨hall, hfails⟩ := (readMessagesFor_frames c h.sound hinput).2 hopen hprompt hnil
      rw [hc, ok_bind]
      refine ⟨fun hanswered => hall hanswered.2, fun hnot => ?_⟩
      obtain ⟨f, hf, err, herr⟩ := hfails fun hanswered => hnot ⟨hgreeting, hanswered⟩
      exact ⟨f, List.mem_append_right _ hf, err, herr⟩
    · refine ⟨fun hanswered => ?_, fun _ =>
        ⟨f, List.mem_append_left _ hf, err, hferr, by rw [herr]; rfl⟩⟩
      have := hanswered.1 f hf
      rw [hferr] at this
      cases this

open Delivering in
theorem natsRequest_frames_delivering :
    natsRequest (server frames) "inbox" "nats://127.0.0.1:4222"
        "$JS.API.CONSUMER.MSG.NEXT.GLOBACL.fra" [] 8 2000 =
      .ok [⟨"inbox", some "$JS.ACK.1", encodeMutation domainMutation, none⟩] :=
  ((natsRequest_frames "inbox" _ _ _ _ _ _ _ sends_frames).2 (opened _) (prompt _ _) rfl).1
    ⟨welcomed, answered _⟩

/-- A pull hands over the mutations that were published, each as it was, in the order of the server;
the first ones if the connection breaks off, and otherwise as many as the batch has, unless the server
sends an error before them. -/
theorem natsJetstreamPull_mutations (inbox addr stream durable : String) (batch expiresMs : Nat)
    (greeting frames : List NatsFrame) (h : net.Sends addr greeting frames missing) (ms : List Mutation)
    (hfits : ∀ m ∈ ms, m.Fits)
    (hms : ((messagesOf frames).takeWhile fun message => !message.isEnd).map NatsMessage.payload =
      ms.map encodeMutation) :
    (∀ messages, natsJetstreamPull net inbox addr stream durable batch expiresMs = .ok messages →
      (messages.map fun message => decodeMutation message.payload) <+: ms.map .ok) ∧
    (net.Open → net.Prompt 2000 → missing = [] →
      ((∀ f ∈ greeting, f.op.isOk) ∧ NatsFrame.Answered (max batch 1) frames →
        ∃ messages, natsJetstreamPull net inbox addr stream durable batch expiresMs = .ok messages ∧
          (messages.map fun message => decodeMutation message.payload) =
            (ms.take (max batch 1)).map .ok) ∧
      (¬((∀ f ∈ greeting, f.op.isOk) ∧ NatsFrame.Answered (max batch 1) frames) →
        ∃ f ∈ greeting ++ frames, ∃ err, f.op = .error err ∧
          natsJetstreamPull net inbox addr stream durable batch expiresMs = .error err)) := by
  have hpayloads : (delivered (max (max batch 1) 1) frames).map NatsMessage.payload =
      (ms.take (max batch 1)).map encodeMutation := by
    rw [delivered, List.map_take, hms, List.map_take, Nat.max_eq_left (Nat.le_max_right _ _)]
  have hdecoded : ((delivered (max (max batch 1) 1) frames).map fun message =>
      decodeMutation message.payload) = (ms.take (max batch 1)).map .ok := by
    have hdecode : (delivered (max (max batch 1) 1) frames).map (fun message =>
        decodeMutation message.payload) =
        ((delivered (max (max batch 1) 1) frames).map NatsMessage.payload).map decodeMutation := by
      rw [List.map_map]
      rfl
    rw [hdecode, hpayloads, List.map_map]
    exact List.map_congr_left fun m hm =>
      decodeMutation_encodeMutation (hfits m (List.mem_of_mem_take hm))
  -- the filters of the pull leave nothing out
  have hkept : ∀ message ∈ delivered (max (max batch 1) 1) frames,
      message.isEnd = false ∧ message.payload ≠ [] := by
    intro message hmessage
    constructor
    · have := List.mem_takeWhile_imp (List.mem_of_mem_take hmessage)
      simpa using this
    · intro hnil
      have hmem := List.mem_map_of_mem (f := fun message => decodeMutation message.payload) hmessage
      rw [hdecoded] at hmem
      obtain ⟨m, -, hm⟩ := List.mem_map.mp hmem
      rw [hnil] at hm
      cases hm
  have hfilter : ∀ messages : List NatsMessage,
      messages <+: delivered (max (max batch 1) 1) frames →
      ((messages.filter fun message => !message.isEnd).filter fun message =>
        message.payload ≠ []) = messages := by
    intro messages hbefore
    rw [List.filter_filter, List.filter_eq_self]
    intro message hmessage
    obtain ⟨hend, hpayload⟩ := hkept message (hbefore.subset hmessage)
    rw [hend, decide_eq_true hpayload]
    rfl
  have hrequest := fun subject body timeoutMs =>
    natsRequest_frames inbox addr subject body (max batch 1) timeoutMs greeting frames h
  unfold natsJetstreamPull
  constructor
  · intro messages hmessages
    obtain ⟨sent, hsent, hmessages⟩ := bind_eq_ok.mp hmessages
    have hsent := (hrequest _ _ _).1 sent hsent
    rw [hfilter sent hsent] at hmessages
    obtain rfl := Except.ok.inj hmessages
    have := hsent.map fun message => decodeMutation message.payload
    rw [hdecoded] at this
    exact this.trans ((List.take_prefix _ _).map _)
  · intro hopen hprompt hnil
    have hmax : max (max batch 1) 1 = max batch 1 := Nat.max_eq_left (Nat.le_max_right _ _)
    have hreturns := fun subject body =>
      (hrequest subject body (max (min (expiresMs + 1000) (2 ^ 64 - 1)) 2000)).2 hopen
        (fun i j => (hprompt i j).trans (Nat.le_max_right _ _)) hnil
    refine ⟨fun hanswered => ⟨_, ?_, hdecoded⟩, fun hnot => ?_⟩
    · dsimp only
      rw [(hreturns _ _).1 (hmax.symm ▸ hanswered), ok_bind, hfilter _ (List.prefix_refl _)]
      rfl
    · obtain ⟨f, hf, err, hferr, herr⟩ := (hreturns _ _).2 (hmax.symm ▸ hnot)
      exact ⟨f, hf, err, hferr, by dsimp only; rw [herr]; rfl⟩

open Delivering in
theorem natsJetstreamPull_mutations_delivering :
    ∃ messages,
      natsJetstreamPull (server frames) "inbox" "nats://127.0.0.1:4222" "GLOBACL" "fra" 8 1000 =
          .ok messages ∧
        (messages.map fun message => decodeMutation message.payload) = [.ok domainMutation] :=
  ((natsJetstreamPull_mutations "inbox" _ _ _ 8 _ _ _ sends_frames [domainMutation]
    (fun _ hm => List.mem_singleton.mp hm ▸ domainMutation_fits) rfl).2 (opened _) (prompt _ _) rfl).1
    ⟨welcomed, answered _⟩

/-- A publication that succeeds was written as a whole, and the first message that the server sends to
the client comes before any error and does not name one. -/
theorem natsJetstreamPublish_frames (inbox addr subject : String) (payload : List UInt8)
    (greeting frames : List NatsFrame) (h : net.Sends addr greeting frames missing) :
    (natsJetstreamPublish net inbox addr subject payload = .ok () →
      (∃ before, net.write (before ++ utf8 s!"PUB {subject} {inbox} {payload.length}\r\n" ++ payload ++
        utf8 "\r\n" ++ utf8 "PING\r\n") = .ok ()) ∧
      (∀ f ∈ greeting, f.op.isOk) ∧ ∃ message rest, messagesOf (beforeError frames) = message :: rest ∧
        containsText "\"error\"" (fromUtf8Lossy message.payload) = false) ∧
    (net.Open → net.Prompt 5000 → missing = [] →
      (natsJetstreamPublish net inbox addr subject payload = .ok () ↔
        (∀ f ∈ greeting, f.op.isOk) ∧ ∃ message rest,
          messagesOf (beforeError frames) = message :: rest ∧
          containsText "\"error\"" (fromUtf8Lossy message.payload) = false)) := by
  obtain ⟨hasked, hasks⟩ := ask_frames inbox subject payload h
  have hheard := fun c hc => readMessageFor_frames net 5000 c h.sound (hasked c hc).2.1
  have hfirst : ∀ {before rest : List NatsFrame} {message : NatsMessage}, frames = before ++ rest →
      (∀ f ∈ before, f.op.isOk) → messagesOf before = [message] →
      messagesOf (beforeError frames) = message :: messagesOf (beforeError rest) := by
    intro before rest message hsplit hok hmessage
    rw [hsplit, beforeError_append hok, messagesOf_append, hmessage, List.singleton_append]
  have hsafe : natsJetstreamPublish net inbox addr subject payload = .ok () →
      (∃ before, net.write (before ++ utf8 s!"PUB {subject} {inbox} {payload.length}\r\n" ++ payload ++
        utf8 "\r\n" ++ utf8 "PING\r\n") = .ok ()) ∧
      (∀ f ∈ greeting, f.op.isOk) ∧ ∃ message rest, messagesOf (beforeError frames) = message :: rest ∧
        containsText "\"error\"" (fromUtf8Lossy message.payload) = false := by
    intro hok
    unfold natsJetstreamPublish at hok
    obtain ⟨c, hc, hok⟩ := bind_eq_ok.mp hok
    obtain ⟨answer, hanswer, hok⟩ := bind_eq_ok.mp hok
    obtain ⟨hgreeting, -, hwritten⟩ := hasked c hc
    have hheard := hheard c hc
    rw [hanswer] at hheard
    refine ⟨hwritten, hgreeting, ?_⟩
    cases hheard with
    | nothing _ => cases hok
    | message hsplit hbefore hmessage _ =>
      refine ⟨_, _, hfirst hsplit hbefore hmessage, ?_⟩
      dsimp only at hok
      split at hok
      · cases hok
      · rename_i hno
        exact Bool.eq_false_of_not_eq_true hno
  refine ⟨hsafe, fun hopen hprompt hnil => ⟨fun hok => (hsafe hok).2, ?_⟩⟩
  rintro ⟨hgreeting, message, rest, hmessages, hno⟩
  rcases hasks hopen hnil with ⟨c, hc⟩ | ⟨f, hf, err, hferr, -⟩
  · have hheard := hheard c hc
    unfold natsJetstreamPublish
    rw [hc, ok_bind]
    generalize NatsConnection.readMessageFor net 5000 c = result at hheard
    cases hheard with
    | nothing h =>
      obtain ⟨hall, hnone⟩ := h hopen hprompt.max hnil
      rw [hall, hnone] at hmessages
      cases hmessages
    | error h => cases (h hopen).1.symm.trans hmessages
    | message hsplit hbefore hmessage _ =>
      cases (hfirst hsplit hbefore hmessage).symm.trans hmessages
      rw [ok_bind]
      dsimp only
      rw [hno]
      rfl
  · have hok := hgreeting f hf
    rw [hferr] at hok
    cases hok

open Delivering in
theorem natsJetstreamPublish_frames_acknowledged :
    natsJetstreamPublish (server acknowledgment) "inbox" "nats://127.0.0.1:4222" "globacl.0"
      (encodeMutation domainMutation) = .ok () :=
  ((natsJetstreamPublish_frames "inbox" _ _ _ _ _
      (sends fun f hf => sound f (List.mem_append_right _ hf))).2 (opened _) (prompt _ _) rfl).mpr
    ⟨welcomed, _, _, rfl, by decide +kernel⟩

end Requests

end Globacl
