import SocketHandoff.Lib.Act
import SocketHandoff.Go.Encode
import SocketHandoff.Go.Headers

/-!
# What a client of the Go daemon is sent

The parts of `streaming_daemon.go` that write to the connection of a client: error responses, the
head of a stream, which goes out with the first bytes of the backend, and the error event of a
stream that has begun. The connection is the environment: it takes some of the bytes it is passed
and may fail. A backend is any finite piece of code that writes to the connection, returns or
panics.
-/

namespace SocketHandoff.Go

open Http

/-! ## Errors -/

/-- The error numbers that `classifyError` knows. -/
inductive Errno
  | epipe
  | econnreset
  | etimedout
  | other
  deriving DecidableEq, Repr

/-- What `errors.Is` and `errors.AsType` find in an error; wrapping it changes none of it. -/
structure GoError where
  /-- `errClientDisconnected` -/
  clientDisconnected : Bool
  /-- `context.Canceled` -/
  canceled : Bool
  /-- `context.DeadlineExceeded` -/
  deadlineExceeded : Bool
  errno : Option Errno
  /-- a `net.Error`, with its `Timeout()` -/
  netError : Option Bool
  deriving DecidableEq, Repr

/-- An error in which nothing is found, such as `io.ErrShortWrite`. -/
def GoError.plain : GoError := ⟨false, false, false, none, none⟩

/-- The labels of `classifyError`. -/
inductive ErrorClass
  | clientDisconnected
  | canceled
  | timeout
  | network
  | other
  deriving DecidableEq, Repr

/-- `classifyError`, of an error that is not nil. An error of the client's connection carries a mark
and is told by it before the context and the numbers are asked. The numbers of the system calls do
not say whose connection it was, so that a reset of the upstream's counts as the client's. -/
def classifyError (err : GoError) : ErrorClass :=
  if err.clientDisconnected then .clientDisconnected
  else if err.canceled then .canceled
  else if err.deadlineExceeded then .timeout
  else if err.errno = some .epipe ∨ err.errno = some .econnreset then .clientDisconnected
  else if err.errno = some .etimedout then .timeout
  else
    match err.netError with
    | some true => .timeout
    | some false => .network
    | none => .other

/-! ## The connection -/

/-- Who passes bytes to the connection. -/
inductive Source
  /-- the head of a stream -/
  | head
  /-- the backend -/
  | content
  /-- an error response, from this byte on -/
  | response (offset : Nat)
  /-- the error event of a stream -/
  | event
  deriving DecidableEq, Repr

/-- A buffer that was passed to the connection, and how much of it was taken. -/
structure Passed where
  source : Source
  buf : List UInt8
  accepted : Nat
  deriving Repr

/-- The connection of a client and the `lazyHeaderConn` around it. -/
structure Wire where
  log : List Passed
  headersSent : Bool
  headerBytes : Nat
  /-- what the calls of `lazyHeaderConn.Write` have returned, in all -/
  returned : Nat

def Wire.start : Wire := ⟨[], false, 0, 0⟩

/-- The bytes the client is sent. -/
def Wire.received (s : Wire) : List UInt8 := s.log.flatMap fun e => e.buf.take e.accepted

/-- The answers of a connection to its `n`th call. -/
structure ClientEnv where
  write : Nat → List UInt8 → Nat × Option GoError
  /-- `writev`, where the connection has it -/
  writev : Nat → List UInt8 → List UInt8 → Option (Nat × Option GoError)
  setWriteDeadline : Nat → Option GoError

abbrev Respond := Act ClientEnv Wire

/-- `conn.Write`. -/
def connWrite (source : Source) (buf : List UInt8) : Respond (Nat × Option GoError) :=
  Act.ask fun ω n s =>
    let r := ω.write n buf
    let accepted := min r.1 buf.length
    ((accepted, r.2), { s with log := s.log ++ [⟨source, buf, accepted⟩] })

/-- `writev` of the head and the first bytes of a backend; `none` where there is no such call. -/
def connWritev (hdr p : List UInt8) : Respond (Option (Nat × Option GoError)) :=
  Act.ask fun ω n s =>
    match ω.writev n hdr p with
    | none => (none, s)
    | some r =>
      let accepted := min r.1 (hdr.length + p.length)
      (some (accepted, r.2), { s with
        log := s.log ++ [⟨.head, hdr, min accepted hdr.length⟩,
          ⟨.content, p, accepted - hdr.length⟩] })

/-- `conn.SetWriteDeadline`. -/
def setWriteDeadline : Respond (Option GoError) := Act.ask fun ω n s => (ω.setWriteDeadline n, s)

/-- `bufs.WriteTo(c.Conn)` for the two buffers. -/
def writeBuffers (hdr p : List UInt8) : Respond (Nat × Option GoError) := do
  match ← connWritev hdr p with
  | some r => return r
  | none =>
    let r ← connWrite .head hdr
    if r.2.isSome then return r
    else
      let r' ← connWrite .content p
      return (r.1 + r'.1, r'.2)

/-! ## Error responses -/

/-- The loop of `writeAll`; it ends at the latest when `fuel` bytes have been taken. -/
def writeAllFrom : (fuel written : Nat) → List UInt8 → Respond (Nat × Option GoError)
  | 0, written, _ => return (written, none)
  | fuel + 1, written, buf =>
    if buf = [] then return (written, none)
    else do
      let r ← connWrite (.response written) buf
      if r.2.isSome then return (written + r.1, r.2)
      else if r.1 = 0 then return (written, some .plain)
      else writeAllFrom fuel (written + r.1) (buf.drop r.1)

def writeAll (buf : List UInt8) : Respond (Nat × Option GoError) := writeAllFrom buf.length 0 buf

/-- The bytes of an error response. -/
def errorResponse (status body : List UInt8) (extraHeaders : List (List UInt8)) : List UInt8 :=
  ascii "HTTP/1.1 " ++ status ++ ascii "\r\nContent-Type: text/plain\r\nContent-Length: " ++
    ascii (toString body.length) ++ ascii "\r\nConnection: close\r\n" ++
    extraHeaders.flatMap (fun h => h ++ ascii "\r\n") ++ ascii "\r\n" ++ body

def writeErrorResponse (status body : List UInt8) (extraHeaders : List (List UInt8)) :
    Respond (Nat × Option GoError) := do
  let err ← setWriteDeadline
  if err.isSome then return (0, err)
  else writeAll (errorResponse status body extraHeaders)

/-! ## Streams -/

/-- The event of `SendSSEError`. -/
def sseErrorEvent (errMsg : List UInt8) : List UInt8 :=
  appendJSONEscaped (ascii "data: \x7b\"error\":\"") errMsg ++ ascii "\"\x7d\n\n"

def sendSSEError (errMsg : List UInt8) : Respond (Option GoError) := do
  let err ← setWriteDeadline
  if err.isSome then return err
  else
    let r ← connWrite .event (sseErrorEvent errMsg)
    return r.2

/-- `lazyHeaderConn.Write`; `hdr` is what `buildSSEHeaders` returns. The first call sends the head
and the bytes together, and answers with the number of the bytes alone, since a backend counts what
it has sent and knows nothing of the head. -/
def lazyWrite (hdr p : List UInt8) : Respond (Nat × Option GoError) := do
  let s ← Act.get
  if s.headersSent then
    let r ← connWrite .content p
    Act.modify fun s => { s with returned := s.returned + r.1 }
    return r
  else
    -- stays set even if the write fails part-way
    Act.modify fun s => { s with headersSent := true }
    let r ← writeBuffers hdr p
    let err := if r.2.isNone ∧ r.1 < hdr.length + p.length then some .plain else r.2
    let n := if hdr.length ≤ r.1 then r.1 - hdr.length else 0
    Act.modify fun s => { s with
      headerBytes := if hdr.length ≤ r.1 then hdr.length else r.1
      returned := s.returned + n }
    return (n, err)

/-- The code of a backend, with what it does after each answer of the connection. -/
inductive Backend
  /-- the number of bytes it says it has sent, and its error -/
  | ret (bodyBytes : Int) (err : Option GoError)
  | panic
  | setWriteDeadline (next : Option GoError → Backend)
  | write (p : List UInt8) (next : Nat × Option GoError → Backend)

/-- `Stream`; `none` if it panics. -/
def Backend.stream (hdr : List UInt8) : Backend → Respond (Option (Int × Option GoError))
  | .ret bodyBytes err => return some (bodyBytes, err)
  | .panic => return none
  | .setWriteDeadline next => do
    let err ← Go.setWriteDeadline
    (next err).stream hdr
  | .write p next => do
    let r ← lazyWrite hdr p
    (next r).stream hdr

/-- The status and the body for an error before the first byte. -/
def failureStatus (err : GoError) : List UInt8 × List UInt8 :=
  if err.deadlineExceeded then (ascii "504 Gateway Timeout", ascii "Upstream timeout\n")
  else if err.canceled then (ascii "503 Service Unavailable", ascii "Stream cancelled\n")
  else (ascii "502 Bad Gateway", ascii "Upstream error\n")

/-- The message for an error after it. -/
def failureMessage (err : GoError) : List UInt8 :=
  if err.deadlineExceeded then ascii "stream timed out"
  else if err.canceled then ascii "stream cancelled"
  else ascii "upstream error"

/-- What `streamToClientWithBytes` does about an error; returns what it adds to the total. -/
def answerFailure (err : GoError) : Respond Nat := do
  if classifyError err ≠ .clientDisconnected then
    let s ← Act.get
    if ¬ s.headersSent then
      let r ← writeErrorResponse (failureStatus err).1 (failureStatus err).2 []
      return r.1
    else
      let _ ← sendSSEError (failureMessage err)
      return 0
  else return 0

/-- `streamToClientWithBytes`; `none` if the backend panics. The backend counts the bytes of the
body. Those of the head are added here, and those of a response that is sent in place of the stream.
-/
def streamToClientWithBytes (hdr : List UInt8) (backend : Backend) :
    Respond (Option (Int × Option GoError)) := do
  match ← backend.stream hdr with
  | none => return none
  | some (bodyBytes, err) =>
    let s ← Act.get
    let totalBytes := s.headerBytes + bodyBytes
    match err with
    | none => return some (totalBytes, none)
    | some e =>
      let n ← answerFailure e
      return some (totalBytes + n, some e)

/-! ## Connections -/

/-- How a stage of `handleConnection` before the stream ends. -/
inductive Stage
  | ok
  | rejected
  | panicked
  deriving DecidableEq, Repr

/-- A handoff: whether its data can be parsed and its files are allowed, its response headers, and
what the backend does for it. -/
structure Request where
  parse : Stage
  resolveImages : Stage
  resolveAttachments : Stage
  responseHeaders : List Field
  backend : Backend

/-- What `buildSSEHeaders` returns; see `read_buildSSEHeaders`. -/
def Request.hdr (q : Request) : List UInt8 := (sseHead (q.responseHeaders.filter (Sendable ·))).bytes

/-- The panic handler of `handleConnection`; `lc` says whether there is a `lazyHeaderConn`. -/
def recovered (lc : Bool) : Respond Unit := do
  let s ← Act.get
  if lc ∧ s.headersSent then
    let _ ← sendSSEError (ascii "internal server error")
  else
    let _ ← writeErrorResponse (ascii "500 Internal Server Error") (ascii "Internal server error\n")
      []

def badRequest (body : List UInt8) : Respond Unit := do
  let _ ← writeErrorResponse (ascii "400 Bad Request") body []

/-- `handleConnection`, from where it has the connection of the client. The data is parsed and the
files are looked at before anything is sent, so that each refusal is a response of its own; a panic
is answered by what has been sent when it comes. -/
def handleConnection (q : Request) : Respond Unit :=
  match q.parse with
  | .rejected => badRequest (ascii "Malformed handoff data\n")
  | .panicked => recovered false
  | .ok =>
    match q.resolveImages with
    | .rejected => badRequest (ascii "Image path not allowed\n")
    | .panicked => recovered false
    | .ok =>
      match q.resolveAttachments with
      | .rejected => badRequest (ascii "Attachment not allowed\n")
      | .panicked => recovered false
      | .ok => do
        match ← streamToClientWithBytes q.hdr q.backend with
        | some _ => return ()
        | none => recovered true

/-- `rejectHandoff`, from where it has the connection of the client. -/
def rejectHandoff : Respond Unit := do
  let _ ← writeErrorResponse (ascii "503 Service Unavailable")
    (ascii "Service temporarily unavailable, please retry\n") [ascii "Retry-After: 1"]

/-! ## One head -/

/-- A stream: its head first, then the bytes of the backend and error events. -/
def Streamed (log : List Passed) : Prop :=
  ∃ e rest, log = e :: rest ∧ e.source = .head ∧
    ∀ x ∈ rest, x.source = .content ∨ x.source = .event

/-- An error response, from its first byte on. -/
def Refused (log : List Passed) : Prop :=
  ∃ e rest, log = e :: rest ∧ e.source = .response 0 ∧
    ∀ x ∈ rest, ∃ k, x.source = .response (k + 1)

/-- The bytes taken of what `lazyHeaderConn` passed on. -/
def lazyAccepted : List Passed → Nat
  | [] => 0
  | e :: rest =>
    (if e.source = .head ∨ e.source = .content then e.accepted else 0) + lazyAccepted rest

theorem lazyAccepted_append (log more : List Passed) :
    lazyAccepted (log ++ more) = lazyAccepted log + lazyAccepted more := by
  induction log with
  | nil => rw [List.nil_append, lazyAccepted, Nat.zero_add]
  | cons e log ih => rw [List.cons_append, lazyAccepted, lazyAccepted, ih, Nat.add_assoc]

theorem lazyAccepted_eq_zero {log : List Passed}
    (h : ∀ e ∈ log, e.source ≠ .head ∧ e.source ≠ .content) : lazyAccepted log = 0 := by
  induction log with
  | nil => rfl
  | cons e log ih =>
    obtain ⟨hhead, hcontent⟩ := h e List.mem_cons_self
    rw [lazyAccepted, ih fun x hx => h x (List.mem_cons_of_mem e hx),
      if_neg (by simp [hhead, hcontent])]

/-- What `lazyHeaderConn` has told is what the connection has taken. -/
def Balanced (s : Wire) : Prop := s.headerBytes + s.returned = lazyAccepted s.log

/-- While a backend runs: nothing has been passed to the connection before its head. The head is
written with the first bytes, so that an error that comes earlier can still have a status of its
own. -/
structure Streaming (s : Wire) : Prop where
  unsent : s.headersSent = false → s.log = []
  sent : s.headersSent = true → Streamed s.log
  balanced : Balanced s

/-- In the end: nothing, a stream or an error response. The three exclude each other by what was
passed to the connection, and not by what the client has got of it. -/
structure Settled (s : Wire) : Prop where
  log : s.log = [] ∨ Streamed s.log ∨ Refused s.log
  balanced : Balanced s

theorem Streaming.settled {s : Wire} (h : Streaming s) : Settled s := by
  refine ⟨?_, h.balanced⟩
  cases hsent : s.headersSent with
  | false => exact .inl (h.unsent hsent)
  | true => exact .inr (.inl (h.sent hsent))

theorem Streamed.append {log : List Passed} (h : Streamed log) {x : Passed}
    (hx : x.source = .content ∨ x.source = .event) : Streamed (log ++ [x]) := by
  obtain ⟨e, rest, rfl, he, hrest⟩ := h
  refine ⟨e, rest ++ [x], rfl, he, fun y hy => ?_⟩
  rcases List.mem_append.mp hy with hy | hy
  · exact hrest y hy
  · obtain rfl := List.mem_singleton.mp hy
    exact hx

variable {ω : ClientEnv}

/-- What `writeAll` adds to the log: parts of one response, each from where the last one ended. -/
theorem writeAllFrom_log (fuel written : Nat) (buf : List UInt8) (n : Nat) (s : Wire) :
    ∃ more, (writeAllFrom fuel written buf ω (n, s)).2.2 = { s with log := s.log ++ more } ∧
      (∀ e ∈ more.head?, e.source = .response written) ∧
      ∀ x ∈ more.tail, ∃ k, x.source = .response (k + 1) := by
  induction fuel generalizing written buf n s with
  | zero => exact ⟨[], by simp [writeAllFrom], by simp, by simp⟩
  | succ fuel ih =>
    rw [writeAllFrom]
    by_cases hbuf : buf = []
    · exact ⟨[], by simp [hbuf], by simp, by simp⟩
    obtain ⟨entry, hentry⟩ : ∃ entry : Passed, entry =
        ⟨.response written, buf, min (ω.write n buf).1 buf.length⟩ := ⟨_, rfl⟩
    have hsource : entry.source = .response written := by rw [hentry]
    rw [if_neg hbuf]
    by_cases herr : (ω.write n buf).2.isSome
    · exact ⟨[entry], by simp [connWrite, herr, hentry], by simp [hsource], by simp⟩
    by_cases hzero : min (ω.write n buf).1 buf.length = 0
    · exact ⟨[entry], by simp [connWrite, herr, hzero, hentry], by simp [hsource], by simp⟩
    obtain ⟨more, hrun, hhead, htail⟩ := ih (written + min (ω.write n buf).1 buf.length)
      (buf.drop (min (ω.write n buf).1 buf.length)) (n + 1) { s with log := s.log ++ [entry] }
    refine ⟨entry :: more, ?_, by simp [hsource], fun x hx => ?_⟩
    · simp [connWrite, herr, hzero, ← hentry, hrun]
    · cases more with
      | nil => cases hx
      | cons y more =>
        rcases List.mem_cons.mp hx with rfl | hx
        · obtain ⟨k, hk⟩ := Nat.exists_eq_add_one_of_ne_zero
            (show written + min (ω.write n buf).1 buf.length ≠ 0 by omega)
          exact ⟨k, hk ▸ hhead x rfl⟩
        · exact htail x hx

/-- An error response is given where nothing has been passed to the connection. -/
theorem writeErrorResponse_settled (status body : List UInt8) (extraHeaders : List (List UInt8)) :
    Act.Triple ω (fun s => Streaming s ∧ s.log = [])
      (writeErrorResponse status body extraHeaders) fun _ s => Settled s := by
  rintro n s ⟨hs, hlog⟩
  obtain ⟨more, hrun, hhead, htail⟩ := writeAllFrom_log (ω := ω)
    (errorResponse status body extraHeaders).length 0 (errorResponse status body extraHeaders)
    (n + 1) s
  by_cases herr : (ω.setWriteDeadline n).isSome
  · have hfinal : (writeErrorResponse status body extraHeaders ω (n, s)).2.2 = s := by
      simp [writeErrorResponse, setWriteDeadline, herr]
    rw [hfinal]
    exact hs.settled
  · have hfinal : (writeErrorResponse status body extraHeaders ω (n, s)).2.2 =
        { s with log := s.log ++ more } := by
      simp [writeErrorResponse, setWriteDeadline, herr, writeAll, hrun]
    rw [hfinal, hlog, List.nil_append]
    have hmore : more = [] ∨ Refused more := by
      cases more with
      | nil => exact .inl rfl
      | cons e more => exact .inr ⟨e, more, rfl, hhead e rfl, htail⟩
    refine ⟨hmore.imp_right .inr, ?_⟩
    have hzero : lazyAccepted more = 0 := by
      refine lazyAccepted_eq_zero fun e he => ?_
      rcases hmore with rfl | ⟨e', rest, rfl, he', hrest⟩
      · cases he
      · rcases List.mem_cons.mp he with rfl | he
        · simp [he']
        · obtain ⟨k, hk⟩ := hrest e he
          simp [hk]
    have hbal := hs.balanced
    rw [Balanced, hlog] at hbal
    exact hbal.trans hzero.symm

/-- An error event is sent where the head has been passed to the connection. -/
theorem sendSSEError_settled (errMsg : List UInt8) :
    Act.Triple ω (fun s => Streaming s ∧ s.headersSent = true) (sendSSEError errMsg)
      fun _ s => Settled s := by
  rintro n s ⟨hs, hsent⟩
  by_cases herr : (ω.setWriteDeadline n).isSome
  · have hfinal : (sendSSEError errMsg ω (n, s)).2.2 = s := by
      simp [sendSSEError, setWriteDeadline, herr]
    rw [hfinal]
    exact hs.settled
  · obtain ⟨k, hfinal⟩ : ∃ k, (sendSSEError errMsg ω (n, s)).2.2 =
        { s with log := s.log ++ [⟨.event, sseErrorEvent errMsg, k⟩] } :=
      ⟨_, by simp [sendSSEError, setWriteDeadline, connWrite, herr]; rfl⟩
    rw [hfinal]
    refine ⟨.inr (.inl ((hs.sent hsent).append (.inr rfl))), ?_⟩
    have hbal := hs.balanced
    simp only [Balanced, lazyAccepted_append, lazyAccepted] at hbal ⊢
    simpa using hbal

/-- What the two buffers add to an empty log, and how much of them is taken. -/
theorem writeBuffers_streamed (hdr p : List UInt8) (n : Nat) {s : Wire} (hlog : s.log = []) :
    ∃ more, (writeBuffers hdr p ω (n, s)).2.2 = { s with log := more } ∧ Streamed more ∧
      lazyAccepted more = (writeBuffers hdr p ω (n, s)).1.1 := by
  cases hwritev : ω.writev n hdr p with
  | some r =>
    refine ⟨_, by simp [writeBuffers, connWritev, hwritev, hlog]; exact ⟨rfl, rfl⟩,
      ⟨_, _, rfl, rfl, by simp⟩, ?_⟩
    simp [writeBuffers, connWritev, hwritev, lazyAccepted]
    omega
  | none =>
    by_cases herr : (ω.write (n + 1) hdr).2.isSome
    · refine ⟨_, by simp [writeBuffers, connWritev, connWrite, hwritev, hlog, herr]; exact ⟨rfl, rfl⟩,
        ⟨_, _, rfl, rfl, by simp⟩, ?_⟩
      simp [writeBuffers, connWritev, connWrite, hwritev, herr, lazyAccepted]
    · refine ⟨_, by simp [writeBuffers, connWritev, connWrite, hwritev, hlog, herr]; exact ⟨rfl, rfl⟩,
        ⟨_, _, rfl, rfl, by simp⟩, ?_⟩
      simp [writeBuffers, connWritev, connWrite, hwritev, herr, lazyAccepted]

/-- **A write of the backend**: the head is passed to the connection before its bytes, once. -/
theorem lazyWrite_streaming (hdr p : List UInt8) :
    Act.Triple ω Streaming (lazyWrite hdr p) fun _ s => Streaming s := by
  rintro n s hs
  cases hsent : s.headersSent with
  | true =>
    obtain ⟨k, hfinal⟩ : ∃ k, (lazyWrite hdr p ω (n, s)).2.2 =
        { s with log := s.log ++ [⟨.content, p, k⟩], returned := s.returned + k } :=
      ⟨_, by simp [lazyWrite, connWrite, hsent]; rfl⟩
    rw [hfinal]
    refine ⟨fun h => absurd (hsent.symm.trans h) (by simp),
      fun _ => (hs.sent hsent).append (.inl rfl), ?_⟩
    have hbal := hs.balanced
    simp only [Balanced, lazyAccepted_append, lazyAccepted] at hbal ⊢
    simp
    omega
  | false =>
    have hlog := hs.unsent hsent
    have hbal := hs.balanced
    rw [Balanced, hlog, lazyAccepted] at hbal
    -- what the two buffers add to the log, and how much of them is taken
    obtain ⟨more, hbuf, hmore, hsum⟩ := writeBuffers_streamed (ω := ω) hdr p n
      (s := { s with headersSent := true }) hlog
    obtain ⟨hb, r, hfinal, hb⟩ : ∃ hb r, (lazyWrite hdr p ω (n, s)).2.2 =
        { s with headersSent := true, log := more, headerBytes := hb, returned := r } ∧
        hb + r = lazyAccepted more := by
      refine ⟨_, _, by simp [lazyWrite, hsent, hbuf]; exact ⟨rfl, rfl⟩, ?_⟩
      rw [hsum]
      split <;> omega
    rw [hfinal]
    exact ⟨fun h => by simp at h, fun _ => hmore, hb⟩

theorem stream_streaming (hdr : List UInt8) (backend : Backend) :
    Act.Triple ω Streaming (backend.stream hdr) fun _ s => Streaming s := by
  induction backend with
  | ret bodyBytes err => exact .pure _ fun s hs => hs
  | panic => exact .pure _ fun s hs => hs
  | setWriteDeadline next ih =>
    rw [Backend.stream]
    exact .bind (.ask fun n s hs => hs) fun err => ih err
  | write p next ih =>
    rw [Backend.stream]
    exact .bind (lazyWrite_streaming hdr p) fun r => ih r

theorem answerFailure_settled (err : GoError) :
    Act.Triple ω Streaming (answerFailure err) fun _ s => Settled s := by
  refine .ite (fun _ => ?_) fun _ => .pure _ fun s hs => hs.settled
  refine .bind (Q := fun s t => s = t ∧ Streaming t) (.get fun s hs => ⟨rfl, hs⟩) fun s => ?_
  refine .ite (fun hunsent => ?_) fun hsent => ?_
  · refine .bind (.conseq (writeErrorResponse_settled _ _ _) ?_ fun _ _ h => h)
      fun r => .pure _ fun s hs => hs
    rintro t ⟨rfl, hs⟩
    exact ⟨hs, hs.unsent (eq_false_of_ne_true hunsent)⟩
  · refine .bind (.conseq (sendSSEError_settled _) ?_ fun _ _ h => h)
      fun r => .pure _ fun s hs => hs
    rintro t ⟨rfl, hs⟩
    exact ⟨hs, not_not.mp hsent⟩

theorem streamToClientWithBytes_settled (hdr : List UInt8) (backend : Backend) :
    Act.Triple ω Streaming (streamToClientWithBytes hdr backend)
      fun r s => Settled s ∧ (r = none → Streaming s) := by
  refine .bind (stream_streaming hdr backend) fun r => ?_
  match r with
  | none => exact .pure _ fun s hs => ⟨hs.settled, fun _ => hs⟩
  | some (bodyBytes, err) =>
    refine .bind (Q := fun _ t => Streaming t) (.get fun s hs => hs) fun s => ?_
    match err with
    | none => exact .pure _ fun s hs => ⟨hs.settled, by simp⟩
    | some e =>
      exact .bind (answerFailure_settled e) fun n => .pure _ fun s hs => ⟨hs, by simp⟩

theorem recovered_settled (lc : Bool) :
    Act.Triple ω (fun s => Streaming s ∧ (lc = false → s.headersSent = false)) (recovered lc)
      fun _ s => Settled s := by
  refine .bind (Q := fun s t => s = t ∧ Streaming t ∧ (lc = false → t.headersSent = false))
    (.get fun s hs => ⟨rfl, hs⟩) fun s => ?_
  refine .ite (fun hsent => ?_) fun hunsent => ?_
  · refine .bind (.conseq (sendSSEError_settled _) ?_ fun _ _ h => h)
      fun r => .pure _ fun s hs => hs
    rintro t ⟨rfl, hs, -⟩
    exact ⟨hs, hsent.2⟩
  · refine .bind (.conseq (writeErrorResponse_settled _ _ _) ?_ fun _ _ h => h)
      fun r => .pure _ fun s hs => hs
    rintro t ⟨rfl, hs, hlc⟩
    refine ⟨hs, hs.unsent ?_⟩
    cases hsent : s.headersSent with
    | false => rfl
    | true =>
      cases lc with
      | false => exact hsent.symm.trans (hlc rfl)
      | true => exact absurd ⟨rfl, hsent⟩ hunsent

theorem streaming_start : Streaming .start := ⟨fun _ => rfl, fun h => (by cases h), rfl⟩

theorem badRequest_settled (body : List UInt8) :
    Act.Triple ω (· = .start) (badRequest body) fun _ s => Settled s := by
  refine .bind (.conseq (writeErrorResponse_settled _ _ _) ?_ fun _ _ h => h)
    fun r => .pure _ fun s hs => hs
  rintro s rfl
  exact ⟨streaming_start, rfl⟩

theorem handleConnection_settled (q : Request) :
    Act.Triple ω (· = .start) (handleConnection q) fun _ s => Settled s := by
  have hearly : Act.Triple ω (· = .start) (recovered false) fun _ s => Settled s := by
    refine .conseq (recovered_settled false) ?_ fun _ _ h => h
    rintro s rfl
    exact ⟨streaming_start, fun _ => rfl⟩
  rw [handleConnection]
  split
  · exact badRequest_settled _
  · exact hearly
  · split
    · exact badRequest_settled _
    · exact hearly
    · split
      · exact badRequest_settled _
      · exact hearly
      · refine .bind (.conseq (streamToClientWithBytes_settled q.hdr q.backend) ?_ fun _ _ h => h)
          fun r => ?_
        · rintro s rfl
          exact streaming_start
        · match r with
          | some _ => exact .pure _ fun s hs => hs.1
          | none =>
            refine .conseq (recovered_settled true) ?_ fun _ _ h => h
            exact fun s hs => ⟨hs.2 rfl, by simp⟩

/-- A status line begins with this buffer. -/
def Passed.startsHead (e : Passed) : Bool := e.source = .head ∨ e.source = .response 0

theorem length_startsHead {log : List Passed} (h : log = [] ∨ Streamed log ∨ Refused log) :
    (log.filter Passed.startsHead).length ≤ 1 := by
  have hone : ∀ e rest, (∀ x ∈ rest, Passed.startsHead x = false) →
      ((e :: rest).filter Passed.startsHead).length ≤ 1 := by
    intro e rest hrest
    rw [List.filter_cons, List.filter_eq_nil_iff.mpr (by simpa using hrest)]
    split <;> simp
  rcases h with rfl | ⟨e, rest, rfl, -, hrest⟩ | ⟨e, rest, rfl, -, hrest⟩
  · simp
  · refine hone e rest fun x hx => ?_
    rcases hrest x hx with hx | hx <;> simp [Passed.startsHead, hx]
  · refine hone e rest fun x hx => ?_
    obtain ⟨k, hk⟩ := hrest x hx
    simp [Passed.startsHead, hk]

/-- **At most one head.** Whatever the handoff, the backend and the connection do, at most one status
line is begun on the connection, a stream and an error response are never both, and the bytes that
`lazyHeaderConn` tells of are those the connection has taken from it. -/
theorem handleConnection_one_head (ω : ClientEnv) (q : Request) :
    let s := (handleConnection q).final ω .start
    (s.log.filter Passed.startsHead).length ≤ 1 ∧
      ¬ ((∃ e ∈ s.log, e.source = .head) ∧ ∃ e ∈ s.log, ∃ k, e.source = .response k) ∧
      s.headerBytes + s.returned = lazyAccepted s.log := by
  have hsettled : Settled ((handleConnection q).final ω .start) :=
    (handleConnection_settled q).run rfl
  intro s
  refine ⟨length_startsHead hsettled.log, ?_, hsettled.balanced⟩
  rintro ⟨⟨x, hx, hhead⟩, y, hy, k, hresponse⟩
  rcases hsettled.log with hnil | ⟨e, rest, hlog, he, hrest⟩ | ⟨e, rest, hlog, he, hrest⟩
  · exact absurd (hnil ▸ hx) List.not_mem_nil
  · rw [show s.log = e :: rest from hlog] at hy
    rcases List.mem_cons.mp hy with rfl | hy
    · simp [he] at hresponse
    · rcases hrest y hy with h | h <;> simp [h] at hresponse
  · rw [show s.log = e :: rest from hlog] at hx
    rcases List.mem_cons.mp hx with rfl | hx
    · simp [he] at hhead
    · obtain ⟨j, hj⟩ := hrest x hx
      simp [hj] at hhead

end SocketHandoff.Go
