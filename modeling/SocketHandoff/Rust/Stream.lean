import SocketHandoff.Rust.Writer

/-!
# A connection of the Rust daemon

`ConnectionHandler::handle` and `stream_to_client` of `connection.rs`, with the counters of
`metrics.rs` that a stream starts and ends. The environment is the handoff, the client's socket,
the backend, and what the loop's `select!` finds each time; any of these calls may panic, which
`handle` catches.
-/

namespace SocketHandoff.Rust

/-! ## Data -/

/-- The counters of `metrics.rs` that belong to a stream. -/
inductive Counter
  /-- `BENCH_STATS.total_started` -/
  | totalStarted
  /-- `BENCH_STATS.active_streams` -/
  | benchActive
  /-- `BENCH_STATS.total_completed` -/
  | totalCompleted
  /-- `BENCH_STATS.total_failed` -/
  | totalFailed
  /-- `BENCH_STATS.total_bytes` -/
  | totalBytes
  /-- `ACTIVE_STREAMS` -/
  | activeStreams
  deriving DecidableEq, Repr

/-- A `fetch_add`, or a `fetch_sub` as the addition of a negative number. -/
structure Op where
  counter : Counter
  amount : Int
  deriving DecidableEq, Repr

/-- The task of a connection: its client, and what it has done to the counters. -/
structure Task where
  wire : Wire
  ops : List Op
  deriving DecidableEq, Repr

def Task.new : Task := ⟨.new, []⟩

/-- How a call ends. -/
inductive Call
  | ok
  | err
  | panics
  deriving DecidableEq, Repr

/-- How the creation of the backend's stream ends. -/
inductive Created
  | stream
  | err
  /-- `backend_timeout` has run out -/
  | timeout
  | panics
  deriving DecidableEq, Repr

/-- `StreamChunk`. -/
structure StreamChunk where
  content : List UInt8
  done : Bool
  deriving DecidableEq, Repr

/-- What `select!` finds: the shutdown, or what `chunk_stream.next()` returns, with the text of
an error. -/
inductive Poll
  | shutdown
  | next (item : Option (Except (List UInt8) StreamChunk))
  | panics

/-- The surroundings of a connection. After the last of the `polls` nothing happens any more. -/
structure Env where
  /-- `is_benchmark_mode()`, which is set before the first connection -/
  benchmark : Bool
  receiveHandoff : Call
  setNodelay : Call
  setNonblocking : Call
  fromStd : Call
  stream : Created
  /-- what becomes of the nth write -/
  write : Nat → List UInt8 → Write
  polls : List Poll

/-- Why the code is left before its end. -/
inductive Exit
  /-- `ConnectionError::Handoff` -/
  | handoff
  /-- `ConnectionError::Stream` -/
  | stream
  /-- `ConnectionError::Backend` -/
  | backend
  | panic
  /-- not left: the loop waits in `select!` -/
  | pending
  deriving DecidableEq, Repr

abbrev Conn := Act Env Task

abbrev Handler := Act.Try Env Task Exit

/-! ## Counters -/

/-- `counter.fetch_add(n)`. -/
def fetchAdd (counter : Counter) (n : Int) : Conn Unit :=
  Act.modify fun s => { s with ops := s.ops ++ [⟨counter, n⟩] }

/-- `metrics::is_benchmark_mode()`. -/
def isBenchmarkMode : Conn Bool := Act.read Env.benchmark

/-- `bench_stream_start`. -/
def benchStreamStart : Conn Unit := do
  fetchAdd .totalStarted 1
  fetchAdd .benchActive 1

/-- `bench_stream_end`. -/
def benchStreamEnd (success : Bool) (bytes : Nat) : Conn Unit := do
  fetchAdd .benchActive (-1)
  if success then fetchAdd .totalCompleted 1 else fetchAdd .totalFailed 1
  fetchAdd .totalBytes bytes

/-- `record_stream_start`. -/
def recordStreamStart : Conn Unit := fetchAdd .activeStreams 1

/-- `record_stream_end`. -/
def recordStreamEnd : Conn Unit := fetchAdd .activeStreams (-1)

/-! ## Writing -/

/-- `write_with_timeout`. -/
def writeWithTimeout (data : List UInt8) : Conn Bool :=
  Act.ask fun ω _ s =>
    let answer := ω.write s.wire.writes.length data
    ((s.wire.write data answer).1, { s with wire := (s.wire.write data answer).2 })

def sendHeaders : Conn Bool := writeWithTimeout sseHeaders

def sendChunk (content : List UInt8) : Conn Bool := writeWithTimeout (formatSseChunk content)

def sendDone : Conn Bool := writeWithTimeout formatSseDone

def sendError (error : List UInt8) : Conn Bool := writeWithTimeout (formatSseError error)

/-- `send_error_response`. -/
def sendErrorResponse (status : Nat) (reason : List UInt8) : Conn Unit := do
  let _ ← writeWithTimeout (formatErrorResponse status reason)

/-! ## The connection -/

/-- A call with `?`: its error leaves the code. -/
def question (call : Env → Call) (error : Exit) : Handler Unit := do
  match ← (Act.read call : Conn Call) with
  | .ok => return ()
  | .err => throw error
  | .panics => throw .panic

/-- A call with `?` comes back only when it has succeeded. -/
theorem tries_question {ω : Env} {call : Env → Call} {error : Exit} {P : Task → Prop}
    {X : Exit → Task → Prop} (hX : call ω ≠ .ok → ∀ e s, P s → X e s) :
    Act.Tries ω P (question call error) (fun _ s => call ω = .ok ∧ P s) X := by
  refine Act.Tries.read_bind ?_
  cases hc : call ω with
  | ok => exact Act.Tries.pure _ fun s hs => ⟨rfl, hs⟩
  | err => exact Act.Tries.throw _ fun s hs => hX (by simp [hc]) _ s hs
  | panics => exact Act.Tries.throw _ fun s hs => hX (by simp [hc]) _ s hs

/-- A write with `?`. -/
def written (write : Conn Bool) (error : Exit) : Handler Unit := do
  if ← write then return () else throw error

/-- The loop of `stream_to_client`: whether the stream has completed normally, at the end of the
backend's stream or at a chunk that is marked as the last. The polls are what `select!` finds;
behind the last of them the task is still waiting, and never comes to what follows. -/
def streamLoop : List Poll → Handler Bool
  | [] => throw .pending
  | .panics :: _ => throw .panic
  | .shutdown :: _ => return false
  | .next none :: _ => return true
  | .next (some (.error e)) :: _ => do
    let _ ← sendError e
    return false
  | .next (some (.ok chunk)) :: polls => do
    -- the content first, as the last chunk may have some
    let sent ← if chunk.content = [] then (return true : Conn Bool) else sendChunk chunk.content
    if sent then
      if chunk.done then return true else streamLoop polls
    else return false

/-- The creation of the backend's stream, before any header is sent. -/
def createStream : Handler Unit := do
  match ← (Act.read Env.stream : Conn Created) with
  | .stream => return ()
  | .err =>
    sendErrorResponse 502 (ascii "Backend unavailable")
    throw .backend
  | .timeout =>
    sendErrorResponse 504 (ascii "Backend timeout")
    throw .backend
  | .panics => throw .panic

/-- The start of a stream in the counters. -/
def streamStart : Conn Unit := do
  if ← isBenchmarkMode then benchStreamStart else recordStreamStart

/-- The end of a stream in the counters. -/
def streamEnd (completedNormally : Bool) : Conn Unit := do
  if ← isBenchmarkMode then
    let s ← Act.get
    benchStreamEnd completedNormally s.wire.bytesWritten
  else recordStreamEnd

/-- What follows the loop. `writer.shutdown()` puts nothing on the wire, and its error is
dropped. -/
def finishStream (completedNormally : Bool) : Conn Unit := do
  if completedNormally then let _ ← sendDone
  streamEnd completedNormally

/-- `stream_to_client`. The backend's stream is created before the headers are written, so that an
error in creating it can still be answered with a status. -/
def streamToClient : Handler Unit := do
  streamStart
  question Env.setNodelay .stream
  question Env.setNonblocking .stream
  question Env.fromStd .stream
  createStream
  written sendHeaders .stream
  let polls ← (Act.read Env.polls : Conn (List Poll))
  let completedNormally ← streamLoop polls
  finishStream completedNormally

/-- `handle_inner`. -/
def handleInner : Handler Unit := do
  question Env.receiveHandoff .handoff
  streamToClient

/-- `ConnectionHandler::handle`: a panic ends here. -/
def handle : Conn (Except Exit Unit) := handleInner.run

end SocketHandoff.Rust
