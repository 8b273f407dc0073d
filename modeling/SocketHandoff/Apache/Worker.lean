import SocketHandoff.Lib.Act

/-!
# The Apache worker as the module sees it

One request, its connection and the calls `mod_socket_handoff.c` makes outside itself: the
clock, the socket calls, the few APR and httpd functions. Every such call is a question to an
oracle `Env`, so a run is determined by the request and the oracle, and a theorem about all
oracles covers every outcome of every call.

The worker keeps a `trace` of the calls that matter later: which daemon sockets were opened and
closed, which messages were sent on them, and from when to when the worker waited.
-/

namespace SocketHandoff.Apache

/-! ## Data -/

/-- The error numbers the module distinguishes. `EAGAIN` and `EWOULDBLOCK` are one number on
Linux; `EINTR` is missing because an interrupted `poll` is part of the answer to it. -/
inductive Errno
  | eagain | einval | einprogress | enoent | econnrefused | etimedout | epipe | emsgsize
  | enametoolong | eprototype
  | other (number : Nat)
  deriving DecidableEq, Repr

/-- A file descriptor of the worker process. -/
abbrev Fd := Nat

/-- A C string: its bytes up to the terminating NUL. -/
@[ext]
structure CStr where
  bytes : List UInt8
  /-- the terminator is not part of the text -/
  noNul : 0 ∉ bytes
  deriving DecidableEq

/-- `strlen`. -/
def CStr.strlen (s : CStr) : Nat := s.bytes.length

/-- Header names are compared without regard to case, so a table entry is filed under the
header it names. -/
inductive HeaderName
  /-- `X-Socket-Handoff` -/
  | handoff
  /-- `X-Handoff-Data` -/
  | handoffData
  | other (name : String)
  deriving DecidableEq, Repr

/-- An APR table. -/
abbrev Table := List (HeaderName × CStr)

/-- `apr_table_get`: the first entry of that name. -/
def aprTableGet (t : Table) (name : HeaderName) : Option CStr := t.lookup name

/-- A bucket of a brigade. -/
inductive Bucket
  /-- bytes the handler produced -/
  | heap (bytes : List UInt8)
  /-- text formatted by the module -/
  | transient (text : String)
  | flush
  | eos
  deriving DecidableEq, Repr

/-- A bucket brigade. -/
abbrev Brigade := List Bucket

/-- `request_rec`, as far as the module reads or writes it. -/
structure Request where
  /-- `r->main != NULL` -/
  subrequest : Bool
  protoNum : Nat
  headersOut : Table
  errHeadersOut : Table
  status : Nat
  statusLine : Option String
  contentType : Option String

/-- `conn_rec`: the socket of the core module and the flag that ends Apache's work on it. -/
structure Conn where
  /-- `apr_socket_t` the core module will close; `none` for a connection without one -/
  socket : Option Nat
  aborted : Bool

/-- `socket_handoff_config`. -/
structure Config where
  enabled : Bool
  enabledSet : Bool
  allowedSocketPrefix : Option CStr
  resolvedPrefix : Option CStr
  resolvedPrefixTruename : Option CStr
  connectTimeoutMs : Int
  connectTimeoutMsSet : Bool
  sendTimeoutMs : Int
  sendTimeoutMsSet : Bool
  maxRetries : Int
  maxRetriesSet : Bool

/-- The configurations the directive handlers let through: timeouts between 1 and 60000 ms, at
most ten retries. -/
structure Config.Admitted (conf : Config) : Prop where
  connect_pos : 1 ≤ conf.connectTimeoutMs
  connect_le : conf.connectTimeoutMs ≤ 60000
  send_pos : 1 ≤ conf.sendTimeoutMs
  send_le : conf.sendTimeoutMs ≤ 60000
  retries_nonneg : 0 ≤ conf.maxRetries
  retries_le : conf.maxRetries ≤ 10

/-! ## The environment -/

/-- How a `poll` loop over one descriptor comes to an end. -/
inductive PollResult
  | timeout
  /-- the descriptor is ready; `error` when `POLLERR`, `POLLHUP` or `POLLNVAL` is set -/
  | ready (error : Bool)
  | failed (e : Errno)
  deriving DecidableEq, Repr

/-- The answer to a `poll` that is restarted after `EINTR`. -/
structure PollAnswer where
  /-- microseconds waited in each round a signal cut short -/
  interrupted : List Nat
  /-- microseconds waited in the last round -/
  waited : Nat
  result : PollResult

/-- **The oracle.** Answers to the calls of the module, by the number of the question. -/
structure Env where
  /-- microseconds gone by before a call, a reading of the clock among them -/
  idle : Nat → Nat
  /-- the same for a call made after the remaining time was read and before the wait it is read
  for has begun -/
  lag : Nat → Nat
  socket : Nat → Except Errno Fd
  fcntl : Nat → Except Errno Nat
  connect : Nat → Except Errno Unit
  poll : Nat → PollAnswer
  /-- `SO_ERROR`, with `none` for 0 -/
  getsockopt : Nat → Except Errno (Option Errno)
  /-- number of bytes sent, for a message with this payload -/
  sendmsg : Nat → List UInt8 → Except Errno Nat
  /-- microseconds before `nanosleep` returns, early or not -/
  nanosleep : Nat → Nat
  aprSocketCreate : Nat → Option Nat
  /-- `apr_os_sock_get` reads a field of the socket -/
  aprOsSockGet : Nat → Option Fd
  /-- `apr_filepath_merge` with `APR_FILEPATH_NOTRELATIVE`, and `APR_FILEPATH_TRUENAME` if the
  flag is set -/
  aprFilepathMerge : Nat → Bool → CStr → Option CStr
  /-- what the next filter returns -/
  apPassBrigade : Nat → Int

/-- One wait of the worker, from `start` to `stop` on the clock. The first two fields say what
it was planned with: the code cuts a timeout to the time that remains, and it may read the clock
some time before the wait begins. -/
structure Wait where
  /-- the timeout before it is cut to the remaining time, in milliseconds -/
  askedMs : Int
  /-- the last clock reading before the wait -/
  reading : Int
  /-- the timeout of the call, in milliseconds -/
  timeoutMs : Int
  start : Int
  stop : Int

/-- The calls of a run that later modules talk about. -/
inductive Event
  | socket (sock : Fd)
  | connect (sock : Fd) (path : CStr)
  /-- one round of `poll` -/
  | poll (sock : Fd) (wait : Wait)
  | nanosleep (wait : Wait)
  | sendmsg (sock : Fd) (payload : List UInt8) (fd : Fd) (sent : Except Errno Nat)
  | close (sock : Fd)
  | dummySocket (socket : Nat)

/-- One call of the next output filter: the brigade and the request it finds. -/
structure Passed where
  brigade : Brigade
  request : Request

/-- The state of the worker. -/
structure World where
  /-- `apr_time_t`: microseconds -/
  now : Int
  /-- set when an operation of the timing code left its type -/
  overflow : Bool
  /-- what the last reading of the clock returned; only the trace shows it -/
  reading : Int
  /-- the timeout asked for by the code that prepares a wait; only the trace shows it -/
  askedMs : Int
  trace : List Event
  request : Request
  conn : Conn
  /-- the module's filter is in the chain of the request -/
  filter : Bool
  /-- what the filter below received, in order -/
  below : List Passed

/-- Code of the worker. -/
abbrev Worker := Act Env World

/-- Add a call to the trace. -/
def World.log (w : World) (e : Event) : World := { w with trace := w.trace ++ [e] }

/-- Let time go by. -/
def World.pass (w : World) (us : Nat) : World := { w with now := w.now + us }

@[simp] theorem World.log_now (w : World) (e : Event) : (w.log e).now = w.now := rfl
@[simp] theorem World.log_overflow (w : World) (e : Event) :
    (w.log e).overflow = w.overflow := rfl
@[simp] theorem World.log_reading (w : World) (e : Event) : (w.log e).reading = w.reading := rfl
@[simp] theorem World.log_askedMs (w : World) (e : Event) : (w.log e).askedMs = w.askedMs := rfl
@[simp] theorem World.log_trace (w : World) (e : Event) :
    (w.log e).trace = w.trace ++ [e] := rfl
@[simp] theorem World.log_request (w : World) (e : Event) : (w.log e).request = w.request := rfl
@[simp] theorem World.log_conn (w : World) (e : Event) : (w.log e).conn = w.conn := rfl
@[simp] theorem World.log_filter (w : World) (e : Event) : (w.log e).filter = w.filter := rfl
@[simp] theorem World.log_below (w : World) (e : Event) : (w.log e).below = w.below := rfl

@[simp] theorem World.pass_now (w : World) (d : Nat) : (w.pass d).now = w.now + d := rfl
@[simp] theorem World.pass_overflow (w : World) (d : Nat) :
    (w.pass d).overflow = w.overflow := rfl
@[simp] theorem World.pass_reading (w : World) (d : Nat) :
    (w.pass d).reading = w.reading := rfl
@[simp] theorem World.pass_askedMs (w : World) (d : Nat) :
    (w.pass d).askedMs = w.askedMs := rfl
@[simp] theorem World.pass_trace (w : World) (d : Nat) : (w.pass d).trace = w.trace := rfl
@[simp] theorem World.pass_request (w : World) (d : Nat) : (w.pass d).request = w.request := rfl
@[simp] theorem World.pass_conn (w : World) (d : Nat) : (w.pass d).conn = w.conn := rfl
@[simp] theorem World.pass_filter (w : World) (d : Nat) : (w.pass d).filter = w.filter := rfl
@[simp] theorem World.pass_below (w : World) (d : Nat) : (w.pass d).below = w.below := rfl

/-! ## The calls -/

/-- `apr_time_now`. -/
def aprTimeNow : Worker Int :=
  Act.ask fun ω n w =>
    (w.now + ω.idle n, { w.pass (ω.idle n) with reading := w.now + ω.idle n })

/-- Note the timeout that is about to be cut to the remaining time. The program has no such
call: the note only goes into the trace, for statements about how long a wait was meant to be. -/
def noteAsked (askedMs : Int) : Worker Unit := Act.modify fun w => { w with askedMs := askedMs }

/-- `socket(AF_UNIX, SOCK_SEQPACKET | …, 0)`. -/
def socketCall : Worker (Except Errno Fd) :=
  Act.ask fun ω n w =>
    match ω.socket n with
    | .ok sock => (.ok sock, (w.pass (ω.lag n)).log (.socket sock))
    | .error e => (.error e, w.pass (ω.lag n))

/-- `fcntl` on a daemon socket. -/
def fcntlCall : Worker (Except Errno Nat) :=
  Act.ask fun ω n w => (ω.fcntl n, w.pass (ω.lag n))

/-- `connect` on a non-blocking socket. -/
def connectCall (sock : Fd) (path : CStr) : Worker (Except Errno Unit) :=
  Act.ask fun ω n w => (ω.connect n, (w.pass (ω.lag n)).log (.connect sock path))

/-- `getsockopt(SOL_SOCKET, SO_ERROR)`. -/
def getsockoptCall : Worker (Except Errno (Option Errno)) :=
  Act.ask fun ω n w => (ω.getsockopt n, w.pass (ω.idle n))

/-- `close`; nothing looks at its result. -/
def closeCall (sock : Fd) : Worker Unit := Act.modify (·.log (.close sock))

/-- How long a `poll` with this timeout lasts when nothing ends it before `us`. A negative
timeout never expires. -/
def pollLasts (timeoutMs : Int) (us : Nat) : Int :=
  if timeoutMs < 0 then us else min (us : Int) (timeoutMs * 1000)

/-- One round of `poll`. -/
def World.pollRound (sock : Fd) (timeoutMs : Int) (w : World) (us : Nat) : World :=
  { w with
    now := w.now + pollLasts timeoutMs us
    trace := w.trace ++
      [.poll sock ⟨w.askedMs, w.reading, timeoutMs, w.now, w.now + pollLasts timeoutMs us⟩] }

/-- `do { ret = poll(&pfd, 1, timeout_ms); } while (ret < 0 && errno == EINTR);`

Every round starts over with the same timeout. -/
def pollCall (sock : Fd) (timeoutMs : Int) : Worker PollResult :=
  Act.ask fun ω n w =>
    ((ω.poll n).result,
      ((ω.poll n).interrupted.foldl (World.pollRound sock timeoutMs) (w.pass (ω.lag n))).pollRound
        sock timeoutMs (ω.poll n).waited)

/-- `nanosleep`; a signal ends it early and it is not restarted. -/
def nanosleepCall (delayMs : Int) : Worker Unit :=
  Act.ask fun ω n w =>
    ((), let slept := min (ω.nanosleep n : Int) (delayMs * 1000)
      let start := w.now + ω.lag n
      { w with
        now := start + slept
        trace := w.trace ++
          [.nanosleep ⟨w.askedMs, w.reading, delayMs, start, start + slept⟩] })

/-- `sendmsg` of a payload with one descriptor attached. -/
def sendmsgCall (sock : Fd) (payload : List UInt8) (fd : Fd) : Worker (Except Errno Nat) :=
  Act.ask fun ω n w =>
    (ω.sendmsg n payload,
      (w.pass (ω.idle n)).log (.sendmsg sock payload fd (ω.sendmsg n payload)))

/-- `apr_socket_create`. -/
def aprSocketCreate : Worker (Option Nat) :=
  Act.ask fun ω n w =>
    match ω.aprSocketCreate n with
    | some socket => (some socket, (w.pass (ω.idle n)).log (.dummySocket socket))
    | none => (none, w.pass (ω.idle n))

/-- `ap_get_conn_socket`. -/
def apGetConnSocket : Worker (Option Nat) := do return (← Act.get).conn.socket

/-- `apr_os_sock_get`. -/
def aprOsSockGet (socket : Nat) : Worker (Option Fd) :=
  Act.ask fun ω _ w => (ω.aprOsSockGet socket, w)

/-- `ap_set_core_module_config(c->conn_config, socket)`. -/
def apSetCoreModuleConfig (socket : Nat) : Worker Unit :=
  Act.modify fun w => { w with conn := { w.conn with socket := some socket } }

/-- `ap_remove_output_filter`: later brigades go directly to the next filter. -/
def apRemoveOutputFilter : Worker Unit := Act.modify fun w => { w with filter := false }

/-- `ap_pass_brigade(f->next, bb)`. -/
def apPassBrigade (bb : Brigade) : Worker Int :=
  Act.ask fun ω n w =>
    (ω.apPassBrigade n, { w with below := w.below ++ [⟨bb, w.request⟩] })

end SocketHandoff.Apache
