import SocketHandoff.Uring.Context
import SocketHandoff.Lib.CText

/-!
# Server-sent events

`streaming.c`: the messages of the demo and of a stored response, and the frame around a
message.
-/

namespace SocketHandoff.Uring

/-- `SSE_HEADERS`. -/
def sseHeaders : List UInt8 :=
  ascii ("HTTP/1.1 200 OK\r\n" ++ "Content-Type: text/event-stream\r\n" ++
    "Cache-Control: no-cache\r\n" ++ "Connection: close\r\n" ++ "X-Accel-Buffering: no\r\n" ++
    "\r\n")

/-- `SSE_DONE`. -/
def sseDone : List UInt8 := ascii "data: [DONE]\n\n"

theorem length_sseHeaders : sseHeaders.length = 119 := by
  have h₁ : (ascii "HTTP/1.1 200 OK\r\n").length = 17 := length_ascii_ofList _
  have h₂ : (ascii "Content-Type: text/event-stream\r\n").length = 33 := length_ascii_ofList _
  have h₃ : (ascii "Cache-Control: no-cache\r\n").length = 25 := length_ascii_ofList _
  have h₄ : (ascii "Connection: close\r\n").length = 19 := length_ascii_ofList _
  have h₅ : (ascii "X-Accel-Buffering: no\r\n").length = 23 := length_ascii_ofList _
  have h₆ : (ascii "\r\n").length = 2 := length_ascii_ofList _
  simp only [sseHeaders, ascii_append, List.length_append, h₁, h₂, h₃, h₄, h₅, h₆]

theorem length_sseDone : sseDone.length = 14 := length_ascii_ofList _

theorem sseHeaders_ne_nil : sseHeaders ≠ [] := by
  apply List.ne_nil_of_length_pos
  rw [length_sseHeaders]
  exact Nat.succ_pos _

theorem sseDone_ne_nil : sseDone ≠ [] := by
  apply List.ne_nil_of_length_pos
  rw [length_sseDone]
  exact Nat.succ_pos _

/-- `demo_messages`: what the daemon sends when it has no upstream, with the strings of the source.
-/
def demoMessages : List (List UInt8) :=
  [ascii "This daemon uses io_uring for async I/O.",
    ascii "Single-threaded event loop with high concurrency.",
    ascii "Expected capacity: 100,000+ concurrent connections.",
    ascii "Memory per connection: ~68 KB (64KB handoff + 4KB write buffer).",
    ascii "The Apache worker was freed immediately after handoff.",
    ascii "Replace this mock backend with your LLM API integration.",
    ascii "io_uring provides true async I/O with kernel polling.",
    ascii "Zero-copy operations minimize memory bandwidth.",
    ascii "Multishot accept reduces syscall overhead.",
    ascii "This is pure C with no runtime overhead.",
    ascii "This is message 13 of 18.",
    ascii "This is message 14 of 18.",
    ascii "This is message 15 of 18.",
    ascii "This is message 16 of 18.",
    ascii "This is message 17 of 18.",
    ascii "[DONE-CONTENT]"]

/-- `LLM_CHUNK_TARGET_SIZE`. -/
def llmChunkTargetSize : Nat := 150

/-- What `snprintf` stores in a buffer of this size. -/
def snprintf (size : Nat) (text : List UInt8) : List UInt8 := text.take (size - 1)

/-- `truncate_prompt` with a buffer of 64 bytes. -/
def truncatePrompt (prompt : Option (List UInt8)) (maxLen : Nat) : List UInt8 :=
  match prompt with
  | none => ascii "(none)"
  | some prompt =>
    if prompt.length ≤ maxLen then prompt
    else snprintf 64 (prompt.take (min maxLen 60) ++ ascii "...")

/-- The last position up to `i` that holds a space or a line feed; 0 if there is none. -/
def wordBoundary (start : List UInt8) : Nat → Nat
  | 0 => 0
  | i + 1 =>
    if start[i + 1]? = some 32 ∨ start[i + 1]? = some 10 then i + 1 else wordBoundary start i

/-- The size of the next chunk of a stored response. -/
def llmChunkSize (start : List UInt8) (remaining : Nat) : Nat :=
  let chunkSize := min remaining llmChunkTargetSize
  if chunkSize < remaining ∧ 0 < wordBoundary start chunkSize then
    wordBoundary start chunkSize + 1
  else chunkSize

/-- The message of the demo at this index, if there are so many. -/
def demoMessage (data : HandoffData) (index : Nat) : Option (List UInt8) :=
  if index = 0 then
    some (snprintf 256
      (ascii "Hello from C io_uring daemon! Prompt: " ++ truncatePrompt data.prompt 50))
  else if index = 1 then some (snprintf 128 (ascii "User ID: " ++ ascii (toString data.userId)))
  else demoMessages[index - 2]?

/-- `stream_next_message`: the message, and the connection with its position moved on. -/
def streamNextMessage (c : Connection) : Option (List UInt8) × Connection :=
  if c.useLlmResponse then
    let remaining := c.handoffLen - c.llmResponsePos
    let start := c.handoffBytes.drop c.llmResponsePos
    if remaining = 0 then (none, c)
    else
      (some (cstring (start.take (llmChunkSize start remaining))),
        { c with
          llmResponsePos := c.llmResponsePos + llmChunkSize start remaining
          streamIndex := c.streamIndex + 1 })
  else
    match demoMessage c.data c.streamIndex with
    | some msg => (some msg, { c with streamIndex := c.streamIndex + 1 })
    | none => (none, c)

/-- Only the position moves on. -/
theorem streamNextMessage_moved (c : Connection) :
    ∃ index pos, (streamNextMessage c).2 =
      { c with
        streamIndex := index
        llmResponsePos := pos } := by
  simp only [streamNextMessage]
  split
  · split
    · exact ⟨_, _, rfl⟩
    · exact ⟨_, _, rfl⟩
  · cases demoMessage c.data c.streamIndex with
    | some msg => exact ⟨_, _, rfl⟩
    | none => exact ⟨_, _, rfl⟩

/-- Four hexadecimal digits. -/
def hex4 (c : UInt8) : List UInt8 :=
  let digit := fun n : Nat => if n < 10 then UInt8.ofNat (48 + n) else UInt8.ofNat (87 + n)
  [48, 48, digit (c.toNat / 16), digit (c.toNat % 16)]

/-- How a character stands in a JSON string. -/
def escapeChar (c : UInt8) : List UInt8 :=
  if c = 34 then [92, 34]
  else if c = 92 then [92, 92]
  else if c = 10 then [92, 110]
  else if c = 13 then [92, 114]
  else if c = 9 then [92, 116]
  else if c < 32 then [92, 117] ++ hex4 c
  else [c]

/-- The loop of `stream_format_sse` that escapes the content, with the space that is left. -/
def escapeContent : List UInt8 → (remaining : Nat) → List UInt8
  | [], _ => []
  | c :: rest, remaining =>
    if 6 < remaining then escapeChar c ++ escapeContent rest (remaining - (escapeChar c).length)
    else []

/-- `stream_format_sse` for a buffer of `buflen` bytes; `none` for -1. -/
def streamFormatSse (buflen : Nat) (content : List UInt8) : Option (List UInt8) :=
  let frame := ascii "data: \x7b\"content\":\"" ++ escapeContent (cstring content) 4095 ++
    ascii "\"\x7d\n\n"
  if frame.length < buflen then some frame else none

/-- A frame has text around its content. -/
theorem ne_nil_of_streamFormatSse {buflen : Nat} {content frame : List UInt8}
    (h : streamFormatSse buflen content = some frame) : frame ≠ [] := by
  simp only [streamFormatSse, Option.ite_none_right_eq_some, Option.some.injEq] at h
  obtain ⟨-, rfl⟩ := h
  intro h
  have hl := congrArg List.length h
  simp [ascii] at hl

/-- `stream_start`. -/
def streamStart (c : Connection) : Connection := { c with streamIndex := 0 }

end SocketHandoff.Uring
