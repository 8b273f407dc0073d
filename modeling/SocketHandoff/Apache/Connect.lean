import SocketHandoff.Apache.Worker
import Mathlib.Algebra.Ring.Int.Defs

/-!
# Deadlines, connecting and sending the descriptor

The part of `mod_socket_handoff.c` that waits: the clock functions, `wait_for_write`,
`connect_to_socket` with its poll loop, `connect_with_retry` with its backoff, and
`send_fd_with_data`. Arithmetic goes through `i32` and `i64`, which note when a result does not
fit the C type.
-/

namespace SocketHandoff.Apache

/-! ## Arithmetic of the C types -/

/-- `INT_MAX` and `APR_INT32_MAX`. -/
def intMax : Int := 2147483647

/-- Note an overflow. -/
def noteOverflow : Worker Unit := Act.modify fun w => { w with overflow := true }

/-- The result of an `int` operation. -/
def i32 (x : Int) : Worker Int :=
  if -2147483648 ≤ x ∧ x ≤ 2147483647 then pure x
  else do
    noteOverflow
    return x.bmod 4294967296

/-- The result of an `apr_int64_t` or `apr_time_t` operation. -/
def i64 (x : Int) : Worker Int :=
  if -9223372036854775808 ≤ x ∧ x ≤ 9223372036854775807 then pure x
  else do
    noteOverflow
    return x.bmod 18446744073709551616

/-! ## Clock functions -/

/-- `RETRY_BASE_DELAY_MS`. -/
def retryBaseDelayMs : Int := 10

/-- `remaining_timeout_ms`: milliseconds until the deadline, 0 if it has passed. The clock is read
anew at each call, and what is left is cut to the range of an `int`, which is what `poll` takes. -/
def remainingTimeoutMs (deadline : Int) : Worker Int := do
  let now ← aprTimeNow
  if now ≥ deadline then
    return 0
  else
    let diff ← i64 (deadline - now)
    if diff.tdiv 1000 > intMax then
      return intMax
    else
      return diff.tdiv 1000

/-- The backoff part of `compute_handoff_deadline`. -/
def maxBackoffMs (maxRetries : Int) : Worker Int :=
  if maxRetries > 0 then do
    let safeRetries := if maxRetries > 30 then 30 else maxRetries
    let shifted ← i64 (2 ^ safeRetries.toNat)
    let factor ← i64 (shifted - 1)
    i64 (retryBaseDelayMs * factor)
  else
    return 0

/-- `compute_handoff_deadline`: time for every connect attempt, the send and the longest
backoff. -/
def computeHandoffDeadline (conf : Config) : Worker Int := do
  let backoffMs ← maxBackoffMs conf.maxRetries
  let attempts ← i32 (conf.maxRetries + 1)
  let connectMs ← i64 (attempts * conf.connectTimeoutMs)
  let connectAndSendMs ← i64 (connectMs + conf.sendTimeoutMs)
  let totalMs ← i64 (connectAndSendMs + backoffMs)
  let totalMs := if totalMs < 1 then 1 else totalMs
  let totalMs := if totalMs > intMax then intMax else totalMs
  let now ← aprTimeNow
  let total ← i64 (totalMs * 1000)
  i64 (now + total)

/-! ## Sending -/

/-- What `wait_for_write` returns: 1, 0 with `ETIMEDOUT`, or -1 with an error. -/
inductive WaitResult
  | ready
  | timedOut
  | failed (e : Errno)
  deriving DecidableEq, Repr

/-- `wait_for_write`. -/
def waitForWrite (sock : Fd) (timeoutMs : Int) : Worker WaitResult := do
  match ← pollCall sock timeoutMs with
  | .timeout => return .timedOut
  | .failed e => return .failed e
  | .ready true => return .failed .epipe
  | .ready false => return .ready

/-- The bytes `send_fd_with_data` puts into the message: at least one real byte has to go with
`SCM_RIGHTS`, so absent or empty data is sent as a single NUL. -/
def handoffPayload (data : Option CStr) (dataLen : Nat) : List UInt8 :=
  match data with
  | some text => if dataLen > 0 then text.bytes.take dataLen else [0]
  | none => [0]

/-- What `send_fd_with_data` makes of the result of `sendmsg`. The second component is
`*fd_was_sent`. -/
def afterSendmsg (data : Option CStr) (dataLen : Nat) :
    Except Errno Nat → Except Errno Unit × Bool
  | .error e => (.error (if e = .eagain then .etimedout else e), false)
  | .ok sent =>
    if data.isSome ∧ dataLen > 0 ∧ sent < dataLen then (.error .emsgsize, false)
    else (.ok (), true)

/-- `send_fd_with_data`: wait until the socket takes data, and send the descriptor and the data with
one `sendmsg`. The wait is the shorter of the configured timeout and what is left to the deadline.
The second component says whether the message has gone out whole, which is what decides who owns the
connection. -/
def sendFdWithData (unixSock fdToSend : Fd) (data : Option CStr) (dataLen : Nat)
    (timeoutMs deadline : Int) : Worker (Except Errno Unit × Bool) := do
  let remainingMs ← remainingTimeoutMs deadline
  if remainingMs ≤ 0 then
    return (.error .etimedout, false)
  else
    noteAsked timeoutMs
    match ← waitForWrite unixSock (if remainingMs < timeoutMs then remainingMs else timeoutMs) with
    | .timedOut => return (.error .etimedout, false)
    | .failed e => return (.error e, false)
    | .ready =>
      let sent ← sendmsgCall unixSock (handoffPayload data dataLen) fdToSend
      return afterSendmsg data dataLen sent

/-! ## Connecting -/

/-- `sizeof(addr.sun_path)`. -/
def sunPathSize : Nat := 108

/-- Close the socket of a failed attempt and report its error. -/
def giveUp (sock : Fd) (e : Errno) : Worker (Except Errno Fd) := do
  closeCall sock
  return .error e

/-- The fallback of `connect_to_socket` for a `socket()` without `SOCK_NONBLOCK`. -/
def setNonblocking : Worker (Except Errno Unit) := do
  match ← fcntlCall with
  | .error e => return .error e
  | .ok _ =>
    match ← fcntlCall with
    | .error e => return .error e
    | .ok _ =>
      let _ ← fcntlCall
      return .ok ()

/-- The poll loop of `connect_to_socket` and the checks behind it. That the socket is writable is no
answer: `SO_ERROR` tells whether the connection was made. A socket with an error is closed on every
way out, so that a retry begins with a new one. -/
def awaitConnected (sock : Fd) (connectTimeoutMs : Int) : Worker (Except Errno Fd) := do
  match ← pollCall sock connectTimeoutMs with
  | .timeout => giveUp sock .etimedout
  | .failed e => giveUp sock e
  | .ready true =>
    match ← getsockoptCall with
    | .ok (some e) => giveUp sock e
    | _ => giveUp sock .econnrefused
  | .ready false =>
    match ← getsockoptCall with
    | .error e => giveUp sock e
    | .ok (some e) => giveUp sock e
    | .ok none => return .ok sock

/-- `connect_to_socket` from the `connect()` call on. -/
def startConnect (sock : Fd) (socketPath : CStr) (connectTimeoutMs : Int) :
    Worker (Except Errno Fd) := do
  match ← connectCall sock socketPath with
  | .ok () => return .ok sock
  | .error e =>
    if e ≠ .einprogress then giveUp sock e
    else awaitConnected sock connectTimeoutMs

/-- `connect_to_socket` once it has a socket: a path that `sun_path` has no room for is refused
here, after `socket` and before `connect`. Where `SOCK_NONBLOCK` was not understood, the flag is set
by `fcntl` first. -/
def connectOn (sock : Fd) (sockNonblock : Bool) (socketPath : CStr) (connectTimeoutMs : Int) :
    Worker (Except Errno Fd) := do
  if socketPath.strlen ≥ sunPathSize then
    giveUp sock .enametoolong
  else if sockNonblock then
    startConnect sock socketPath connectTimeoutMs
  else
    match ← setNonblocking with
    | .error e => giveUp sock e
    | .ok () => startConnect sock socketPath connectTimeoutMs

/-- `connect_to_socket`: a connected non-blocking socket, or the error that decides on a
retry. -/
def connectToSocket (socketPath : CStr) (connectTimeoutMs : Int) :
    Worker (Except Errno Fd) := do
  match ← socketCall with
  | .ok sock => connectOn sock true socketPath connectTimeoutMs
  | .error e =>
    if e = .einval then
      match ← socketCall with
      | .ok sock => connectOn sock false socketPath connectTimeoutMs
      | .error e => return .error e
    else
      return .error e

/-- `is_transient_error`. -/
def isTransientError (err : Errno) : Bool := err = .enoent ∨ err = .econnrefused

/-- Fill in the `timespec` and sleep. -/
def sleepFor (delayMs : Int) : Worker Unit := do
  let _ ← i64 (delayMs.tmod 1000 * 1000000)
  nanosleepCall delayMs

/-- The backoff between two attempts; `false` when the deadline has passed. -/
def backOff (attempt deadline : Int) : Worker Bool := do
  let safeAttempt := if attempt > 20 then 20 else attempt
  let shifted ← i32 (2 ^ safeAttempt.toNat)
  let delayMs ← i32 (retryBaseDelayMs * shifted)
  let backoffRemaining ← remainingTimeoutMs deadline
  if backoffRemaining ≤ 0 then
    return false
  else
    noteAsked delayMs
    sleepFor (if delayMs > backoffRemaining then backoffRemaining else delayMs)
    return true

/-- The loop of `connect_with_retry`. `left` counts the attempts the loop condition
`attempt <= max_retries` still allows. -/
def connectLoop (socketPath : CStr) (connectTimeoutMs maxRetries deadline : Int) :
    (left : Nat) → (attempt : Int) → Worker (Option Fd)
  | 0, _ => return none
  | left + 1, attempt => do
    let remainingMs ← remainingTimeoutMs deadline
    if remainingMs ≤ 0 then
      return none
    else
      noteAsked connectTimeoutMs
      let attemptTimeout := if remainingMs < connectTimeoutMs then remainingMs else connectTimeoutMs
      match ← connectToSocket socketPath attemptTimeout with
      | .ok sock => return some sock
      | .error e =>
        if attempt ≥ maxRetries ∨ ¬ isTransientError e then
          return none
        else if ← backOff attempt deadline then
          let attempt ← i32 (attempt + 1)
          connectLoop socketPath connectTimeoutMs maxRetries deadline left attempt
        else
          return none

/-- `connect_with_retry`. -/
def connectWithRetry (socketPath : CStr) (connectTimeoutMs maxRetries deadline : Int) :
    Worker (Option Fd) :=
  connectLoop socketPath connectTimeoutMs maxRetries deadline (maxRetries + 1).toNat 0

end SocketHandoff.Apache
