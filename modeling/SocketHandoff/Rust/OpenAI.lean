import SocketHandoff.Rust.Reply

/-!
# The OpenAI backend of the Rust daemon

`backend/openai.rs`, behind a connection. reqwest comes in as what it makes of a request: whether
an `EventSource` can be built from it, and the items that stream gives once it is polled. Building
sends nothing, so an upstream that cannot be reached is found out in the loop, after the SSE head.
-/

namespace SocketHandoff.Rust

open Act

/-! ## Requests -/

/-- A message of a conversation, of the handoff or of the API. -/
structure ChatMessage where
  role : List UInt8
  content : List UInt8

/-- `HandoffData`. -/
structure HandoffData where
  userId : Option Int
  prompt : Option (List UInt8)
  messages : Option (List ChatMessage)
  model : Option (List UInt8)
  maxTokens : Option UInt32
  temperature : Option Float32
  system : Option (List UInt8)
  requestId : Option (List UInt8)
  testPattern : Option (List UInt8)

/-- `StreamRequest`. -/
structure StreamRequest where
  prompt : List UInt8
  messages : List ChatMessage
  model : Option (List UInt8)
  maxTokens : Option UInt32
  temperature : Option Float32
  system : Option (List UInt8)
  userId : Option Int
  requestId : List UInt8
  testPattern : Option (List UInt8)

/-- `StreamRequest::from_handoff`: a prompt or a conversation that is missing is empty, and a
missing request id is made of the number of the connection. A missing model stays missing, since the
backend has a default for it. -/
def StreamRequest.fromHandoff (data : HandoffData) (connId : Nat) : StreamRequest where
  prompt := data.prompt.getD []
  messages := data.messages.getD []
  model := data.model
  maxTokens := data.maxTokens
  temperature := data.temperature
  system := data.system
  userId := data.userId
  requestId := data.requestId.getD (ascii "conn-" ++ ascii (toString connId))
  testPattern := data.testPattern

/-- `ChatRequest`. -/
structure ChatRequest where
  model : List UInt8
  messages : List ChatMessage
  maxTokens : Option UInt32
  temperature : Option Float32
  stream : Bool

/-- A `RequestBuilder`. -/
structure HttpRequest where
  url : List UInt8
  headers : List (List UInt8 × List UInt8)
  json : ChatRequest

/-- `OpenAIBackend`. -/
structure OpenAIBackend where
  apiKey : List UInt8
  apiBase : List UInt8
  defaultModel : List UInt8

/-- The messages of the request: the conversation, or the system message and the prompt. -/
def chatMessages (request : StreamRequest) : List ChatMessage :=
  if request.messages ≠ [] then request.messages
  else
    (request.system.map (ChatMessage.mk (ascii "system"))).toList ++
      [⟨ascii "user", request.prompt⟩]

/-- What `OpenAIBackend::stream` builds. The model of the request comes before the default one; the
limit and the temperature are passed on as they are, missing or not, and a stream is always asked
for. -/
def OpenAIBackend.request (b : OpenAIBackend) (request : StreamRequest) : HttpRequest where
  url := b.apiBase ++ ascii "/chat/completions"
  headers :=
    [(ascii "Authorization", ascii "Bearer " ++ b.apiKey),
      (ascii "Content-Type", ascii "application/json")] ++
    (request.testPattern.map (Prod.mk (ascii "X-Test-Pattern"))).toList
  json :=
    { model := request.model.getD b.defaultModel
      messages := chatMessages request
      maxTokens := request.maxTokens
      temperature := request.temperature
      stream := true }

/-! ## Streams -/

/-- `ChunkChoice`, with the content of its `ChunkDelta`. -/
structure ChunkChoice where
  content : Option (List UInt8)
  finishReason : Option (List UInt8)

/-- An item of an `EventSource`. -/
inductive Item
  /-- `Event::Open`: the upstream has answered 200 with an event stream -/
  | open
  /-- `Event::Message`, with its data -/
  | message (data : List UInt8)
  /-- an error, with the chain of its causes -/
  | error (chain : List UInt8)
  /-- the end of the stream -/
  | none

/-- reqwest and serde, as the backend meets them. -/
structure Upstream where
  /-- why no `EventSource` can be built from a request -/
  eventsource : HttpRequest → Option (List UInt8)
  /-- what the `EventSource` gives once it is polled; after the last item it waits for ever -/
  items : HttpRequest → List Item
  /-- `serde_json::from_str::<ChatChunk>`, with its choices or the text of its error -/
  parse : List UInt8 → Except (List UInt8) (List ChunkChoice)

/-- `OpenAIBackend::stream`: the stream, which has not sent its request yet, or the error
`BackendError::Connection`. -/
def OpenAIBackend.stream (b : OpenAIBackend) (up : Upstream) (request : StreamRequest) :
    Except (List UInt8) HttpRequest :=
  match up.eventsource (b.request request) with
  | some chain => .error (ascii "Connection failed: " ++ chain)
  | none => .ok (b.request request)

/-- What `OpenAIChunkStream::next` makes of a parsed chunk. -/
def chunkOf : List ChunkChoice → Option StreamChunk
  | [] => none
  | choice :: _ =>
    let content := choice.content.getD []
    if content ≠ [] then some ⟨content, choice.finishReason.isSome⟩
    else if choice.finishReason.isSome then some ⟨[], true⟩
    else none

/-- What `OpenAIChunkStream::next` returns on an item, or nothing where it goes on. -/
def resultOf (up : Upstream) : Item → Option (Option (Except (List UInt8) StreamChunk))
  | .open => none
  | .message data =>
    if data = ascii "[DONE]" then some (some (.ok ⟨[], true⟩))
    else if data = [] then none
    else
      match up.parse data with
      | .ok choices => (chunkOf choices).map fun chunk => some (.ok chunk)
      | .error e => some (some (.error (ascii "Parse error: Failed to parse chunk: " ++ e)))
  | .error chain => some (some (.error (ascii "Stream error: " ++ chain)))
  | .none => some none

/-- `OpenAIChunkStream::next`: what it returns, and what is left of the stream. -/
def next (up : Upstream) : List Item →
    Option (Option (Except (List UInt8) StreamChunk) × List Item)
  | [] => none
  | item :: items =>
    match resultOf up item with
    | some result => some (result, items)
    | none => next up items

/-- What the calls of `OpenAIChunkStream::next` return, one after the other. -/
def results (up : Upstream) (items : List Item) :
    List (Option (Except (List UInt8) StreamChunk)) :=
  items.filterMap (resultOf up)

/-- What `select!` finds where the shutdown is signalled when so many results were taken. -/
def selects (results : List (Option (Except (List UInt8) StreamChunk))) :
    Option Nat → List Poll
  | none => results.map .next
  | some taken => (results.take taken).map .next ++ [.shutdown]

/-! ## An upstream that is unavailable -/

variable {ω : Env} {b : OpenAIBackend} {up : Upstream} {data : HandoffData} {connId : Nat}
  {signal : Option Nat}

/-- The request that a handoff leads to. -/
def OpenAIBackend.requestOf (b : OpenAIBackend) (data : HandoffData) (connId : Nat) :
    HttpRequest :=
  b.request (.fromHandoff data connId)

/-- What the connection sees of the creation of a stream. -/
def createdOf : Except (List UInt8) HttpRequest → Created
  | .ok _ => .stream
  | .error _ => .err

/-- A connection to the OpenAI backend. Its `stream` has no `await`: the timeout around it cannot
run out, and it cannot panic. -/
def Env.openAI (ω : Env) (b : OpenAIBackend) (up : Upstream) (data : HandoffData) (connId : Nat)
    (signal : Option Nat) : Env :=
  { ω with
    stream := createdOf (b.stream up (.fromHandoff data connId))
    polls := selects (results up (up.items (b.requestOf data connId))) signal }

theorem stream_openAI_some {chain : List UInt8}
    (h : up.eventsource (b.requestOf data connId) = some chain) :
    (ω.openAI b up data connId signal).stream = .err := by
  rw [OpenAIBackend.requestOf] at h
  simp only [Env.openAI, OpenAIBackend.stream, h, createdOf]

theorem stream_openAI_none (h : up.eventsource (b.requestOf data connId) = none) :
    (ω.openAI b up data connId signal).stream = .stream := by
  rw [OpenAIBackend.requestOf] at h
  simp only [Env.openAI, OpenAIBackend.stream, h, createdOf]

/-- The upstream fails before its first event: it refuses, or it answers with another status, or
not at all, or breaks off when it has answered. -/
def failsEarly : List Item → Bool
  | .open :: items => failsEarly items
  | .message _ :: _ => false
  | [] | .error _ :: _ | .none :: _ => true

/-- The client has got an HTTP error, and not the SSE head. An error event behind the head is none:
to whoever asked, the request has succeeded by then. -/
structure ErrorAnswer (bytes : List UInt8) : Prop where
  status : statusLine 502 <+: bytes ∨ statusLine 504 <+: bytes
  noHead : ¬ sseHeaders <+: bytes

/-- The tenth byte tells the SSE head from an error. -/
theorem tenth_of_begins {text bytes : List UInt8} {c : UInt8} (h : text <+: bytes)
    (hc : text[9]? = some c) : bytes[9]? = some c := by
  obtain ⟨rest, rfl⟩ := h
  rw [List.getElem?_append_left (List.getElem?_eq_some_iff.mp hc).1, hc]

theorem errorAnswer_502 (reason : List UInt8) : ErrorAnswer (formatErrorResponse 502 reason) := by
  have hstatus : statusLine 502 <+: formatErrorResponse 502 reason := by
    rw [formatErrorResponse, List.append_assoc, List.append_assoc, List.append_assoc]
    exact List.prefix_append _ _
  refine ⟨.inl hstatus, fun hhead => ?_⟩
  have h5 := tenth_of_begins (c := 53) hstatus (by decide +kernel)
  have h2 := tenth_of_begins (c := 50) hhead (by decide +kernel)
  rw [h5] at h2
  cases h2

theorem not_errorAnswer (rest : List UInt8) : ¬ ErrorAnswer (sseHeaders ++ rest) :=
  fun h => h.noHead (List.prefix_append _ _)

/-- An upstream that fails early gives no content. -/
theorem failsEarly_contents {items : List Item} (h : failsEarly items = true) :
    contentsOf (selects (results up items) signal) = [] := by
  have hfirst : results up items = [] ∨
      ∃ r rest, results up items = r :: rest ∧ (r = none ∨ ∃ e, r = some (.error e)) := by
    induction items with
    | nil => exact .inl rfl
    | cons item items ih =>
      cases item with
      | «open» => exact ih h
      | message data => cases h
      | error chain => exact .inr ⟨_, _, rfl, .inr ⟨_, rfl⟩⟩
      | none => exact .inr ⟨_, _, rfl, .inl rfl⟩
  rcases hfirst with hnil | ⟨r, rest, hcons, hr⟩
  · rw [hnil]
    cases signal <;> simp [selects, contentsOf]
  · rw [hcons]
    rcases signal with _ | _ | taken
    · rcases hr with rfl | ⟨e, rfl⟩ <;> rfl
    · rfl
    · rcases hr with rfl | ⟨e, rfl⟩ <;> rfl

/-- The backend changes nothing between the daemon and the client. -/
theorem serves_openAI (hω : ω.Serves) : (ω.openAI b up data connId signal).Serves :=
  ⟨hω.receiveHandoff, hω.setNodelay, hω.setNonblocking, hω.fromStd, hω.write⟩

/-- **An upstream that is unavailable** before its first event, for a client that takes everything:
the client gets an HTTP error exactly if there was no request to send at all. Otherwise it gets the
SSE head, with no content behind it. -/
theorem errorAnswer_iff (hω : ω.Serves)
    (hfail : failsEarly (up.items (b.requestOf data connId)) = true) :
    (ErrorAnswer (handle.final (ω.openAI b up data connId signal) .new).wire.bytes ↔
      up.eventsource (b.requestOf data connId) ≠ none) ∧
    (up.eventsource (b.requestOf data connId) = none → ∃ ending : Ending,
      (handle.final (ω.openAI b up data connId signal) .new).wire.bytes =
        sseHeaders ++ closing ending) := by
  rw [(serves_openAI hω).replies]
  cases he : up.eventsource (b.requestOf data connId) with
  | some chain =>
    have hanswer : (ω.openAI b up data connId signal).answer =
        formatErrorResponse 502 (ascii "Backend unavailable") := by
      rw [Env.answer, stream_openAI_some he]
    rw [hanswer]
    exact ⟨iff_of_true (errorAnswer_502 _) (by simp), by simp⟩
  | none =>
    have hanswer : (ω.openAI b up data connId signal).answer =
        sseHeaders ++ closing (endingOf (ω.openAI b up data connId signal).polls) := by
      have hframes : frames (ω.openAI b up data connId signal).polls = [] := by
        rw [frames, Env.openAI, failsEarly_contents hfail, List.flatMap_nil]
      rw [Env.answer, stream_openAI_none he]
      change sseHeaders ++ frames _ ++ _ = _
      rw [hframes, List.append_nil]
    rw [hanswer]
    exact ⟨iff_of_false (not_errorAnswer _) (by simp), fun _ => ⟨_, rfl⟩⟩

def emptyHandoff : HandoffData := ⟨none, none, none, none, none, none, none, none, none⟩

def localBackend : OpenAIBackend :=
  ⟨ascii "key", ascii "http://127.0.0.1:9/v1", ascii "gpt-4o-mini"⟩

/-- An upstream whose port is closed. -/
def closedPort : Upstream where
  eventsource _ := none
  items _ := [.error (ascii "error sending request -> Connection refused")]
  parse _ := .error []

theorem errorAnswer_iff_closedPort :
    (ErrorAnswer (handle.final (patient.openAI localBackend closedPort emptyHandoff 1 none)
        .new).wire.bytes ↔
      closedPort.eventsource (localBackend.requestOf emptyHandoff 1) ≠ none) ∧
    (closedPort.eventsource (localBackend.requestOf emptyHandoff 1) = none → ∃ ending : Ending,
      (handle.final (patient.openAI localBackend closedPort emptyHandoff 1 none) .new).wire.bytes =
        sseHeaders ++ closing ending) :=
  errorAnswer_iff serves_patient rfl

/-- A closed port is answered with the SSE head. -/
theorem closedPort_no_errorAnswer :
    failsEarly (closedPort.items (localBackend.requestOf emptyHandoff 1)) = true ∧
      ¬ ErrorAnswer
        (handle.final (patient.openAI localBackend closedPort emptyHandoff 1 none)
          .new).wire.bytes := by
  refine ⟨rfl, ?_⟩
  have hanswer : (patient.openAI localBackend closedPort emptyHandoff 1 none).answer =
      sseHeaders ++ closing (.error (ascii "Stream error: " ++
        ascii "error sending request -> Connection refused")) := by
    rw [Env.answer, stream_openAI_none rfl]
    change sseHeaders ++ [] ++ closing _ = _
    rw [List.append_nil]
    rfl
  rw [(serves_openAI serves_patient).replies, hanswer]
  exact not_errorAnswer _

end SocketHandoff.Rust
