import SocketHandoff.Apache.Config
import SocketHandoff.Apache.Filter
import Mathlib.Logic.Basic

/-!
# One owner of the client connection

A run of `socket_handoff_output_filter` ends either with the descriptor delivered and Apache
off the connection, or with an error response and nothing delivered. The two ledgers that
decide this are folds over the trace: the daemon sockets still open, and the messages that were
delivered. `Holding` says what both are in the middle of a run; every function of the module
moves a `Holding` state to a `Holding` state.
-/

namespace SocketHandoff.Apache

open Act

/-! ## Ledgers -/

/-- What one call does to the daemon sockets that are open; `none` once a socket was closed
that was not open. -/
def trackSocket : Option (List Fd) → Event → Option (List Fd)
  | some open_, .socket sock => some (sock :: open_)
  | some open_, .close sock => if sock ∈ open_ then some (open_.erase sock) else none
  | ledger, _ => ledger

/-- The daemon sockets open after a trace. `some []` means that each one opened has been closed
exactly once. -/
def openSockets (trace : List Event) : Option (List Fd) := trace.foldl trackSocket (some [])

/-- The messages a call delivered: a `sendmsg` on a `SOCK_SEQPACKET` socket that does not fail
delivers its payload and the descriptor. -/
def delivered : Event → List (List UInt8 × Fd)
  | .sendmsg _ payload fd (.ok _) => [(payload, fd)]
  | _ => []

/-- The messages delivered in a trace, in order. -/
def deliveries (trace : List Event) : List (List UInt8 × Fd) := trace.flatMap delivered

/-- The dummy socket a call created, if it did. -/
def created : Event → List Nat
  | .dummySocket socket => [socket]
  | _ => []

/-- The dummy sockets created in a trace. -/
def dummies (trace : List Event) : List Nat := trace.flatMap created

@[simp] theorem openSockets_concat (trace : List Event) (e : Event) :
    openSockets (trace ++ [e]) = trackSocket (openSockets trace) e := by
  simp [openSockets]

@[simp] theorem deliveries_concat (trace : List Event) (e : Event) :
    deliveries (trace ++ [e]) = deliveries trace ++ delivered e := by
  simp [deliveries]

@[simp] theorem dummies_concat (trace : List Event) (e : Event) :
    dummies (trace ++ [e]) = dummies trace ++ created e := by
  simp [dummies]

/-- **The state in the middle of a run** that began in `w₀`: these daemon sockets are open, these
messages delivered, these dummy sockets created, and the request, the connection and the filter
chain are as in `w₀`. The lists are indices of the predicate, so that each call's lemma says what it
adds to them and keeps the rest. -/
structure Holding (w₀ : World) (socks : List Fd) (sent : List (List UInt8 × Fd))
    (dums : List Nat) (w : World) : Prop where
  sockets : openSockets w.trace = some socks
  sent : deliveries w.trace = sent
  dummies : dummies w.trace = dums
  request : w.request = w₀.request
  conn : w.conn = w₀.conn
  filter : w.filter = w₀.filter
  below : w.below = w₀.below

variable {ω : Env} {w₀ : World} {socks : List Fd} {sent : List (List UInt8 × Fd)}
  {dums : List Nat}

theorem Holding.pass {w : World} (h : Holding w₀ socks sent dums w) (us : Nat) :
    Holding w₀ socks sent dums (w.pass us) :=
  ⟨h.sockets, h.sent, h.dummies, h.request, h.conn, h.filter, h.below⟩

/-- A call that opens, closes, delivers and creates nothing changes no ledger. -/
theorem Holding.append {w w' : World} (h : Holding w₀ socks sent dums w) {e : Event}
    (ht : w'.trace = w.trace ++ [e]) (hr : w'.request = w.request) (hc : w'.conn = w.conn)
    (hf : w'.filter = w.filter) (hb : w'.below = w.below)
    (hsock : trackSocket (some socks) e = some socks := by rfl)
    (hsent : delivered e = [] := by rfl) (hdum : created e = [] := by rfl) :
    Holding w₀ socks sent dums w' where
  sockets := by rw [ht, openSockets_concat, h.sockets, hsock]
  sent := by rw [ht, deliveries_concat, h.sent, hsent, List.append_nil]
  dummies := by rw [ht, dummies_concat, h.dummies, hdum, List.append_nil]
  request := hr.trans h.request
  conn := hc.trans h.conn
  filter := hf.trans h.filter
  below := hb.trans h.below

/-! ## Waiting and arithmetic -/

theorem aprTimeNow_holding :
    Triple ω (Holding w₀ socks sent dums) aprTimeNow fun _ => Holding w₀ socks sent dums :=
  .ask fun _ _ h => ⟨h.sockets, h.sent, h.dummies, h.request, h.conn, h.filter, h.below⟩

theorem noteAsked_holding (askedMs : Int) :
    Triple ω (Holding w₀ socks sent dums) (noteAsked askedMs)
      fun _ => Holding w₀ socks sent dums :=
  .modify fun _ h => ⟨h.sockets, h.sent, h.dummies, h.request, h.conn, h.filter, h.below⟩

theorem noteOverflow_holding :
    Triple ω (Holding w₀ socks sent dums) noteOverflow fun _ => Holding w₀ socks sent dums :=
  .modify fun _ h => ⟨h.sockets, h.sent, h.dummies, h.request, h.conn, h.filter, h.below⟩

theorem i32_holding (x : Int) :
    Triple ω (Holding w₀ socks sent dums) (i32 x) fun _ => Holding w₀ socks sent dums := by
  refine .ite (fun _ => .pure _ fun _ h => h) fun _ => ?_
  exact .bind noteOverflow_holding fun _ => .pure _ fun _ h => h

theorem i64_holding (x : Int) :
    Triple ω (Holding w₀ socks sent dums) (i64 x) fun _ => Holding w₀ socks sent dums := by
  refine .ite (fun _ => .pure _ fun _ h => h) fun _ => ?_
  exact .bind noteOverflow_holding fun _ => .pure _ fun _ h => h

theorem pollRound_holding {w : World} (h : Holding w₀ socks sent dums w) (sock : Fd)
    (timeoutMs : Int) (us : Nat) :
    Holding w₀ socks sent dums (w.pollRound sock timeoutMs us) :=
  h.append rfl rfl rfl rfl rfl

theorem pollRounds_holding (sock : Fd) (timeoutMs : Int) (rounds : List Nat) :
    ∀ {w : World}, Holding w₀ socks sent dums w →
      Holding w₀ socks sent dums (rounds.foldl (World.pollRound sock timeoutMs) w) := by
  induction rounds with
  | nil => intro w h; exact h
  | cons us rest ih => intro w h; exact ih (pollRound_holding h sock timeoutMs us)

theorem pollCall_holding (sock : Fd) (timeoutMs : Int) :
    Triple ω (Holding w₀ socks sent dums) (pollCall sock timeoutMs)
      fun _ => Holding w₀ socks sent dums :=
  .ask fun _ _ h => pollRound_holding (pollRounds_holding _ _ _ (h.pass _)) _ _ _

theorem nanosleepCall_holding (delayMs : Int) :
    Triple ω (Holding w₀ socks sent dums) (nanosleepCall delayMs)
      fun _ => Holding w₀ socks sent dums :=
  .ask fun _ _ h => h.append rfl rfl rfl rfl rfl

theorem remainingTimeoutMs_holding (deadline : Int) :
    Triple ω (Holding w₀ socks sent dums) (remainingTimeoutMs deadline)
      fun _ => Holding w₀ socks sent dums := by
  refine .bind aprTimeNow_holding fun now => ?_
  refine .ite (fun _ => .pure _ fun _ h => h) fun _ => ?_
  refine .bind (i64_holding _) fun diff => ?_
  exact .ite (fun _ => .pure _ fun _ h => h) fun _ => .pure _ fun _ h => h

theorem maxBackoffMs_holding (maxRetries : Int) :
    Triple ω (Holding w₀ socks sent dums) (maxBackoffMs maxRetries)
      fun _ => Holding w₀ socks sent dums := by
  refine .ite (fun _ => ?_) fun _ => .pure _ fun _ h => h
  refine .bind (i64_holding _) fun shifted => ?_
  refine .bind (i64_holding _) fun factor => ?_
  exact i64_holding _

theorem computeHandoffDeadline_holding (conf : Config) :
    Triple ω (Holding w₀ socks sent dums) (computeHandoffDeadline conf)
      fun _ => Holding w₀ socks sent dums := by
  refine .bind (maxBackoffMs_holding _) fun backoffMs => ?_
  refine .bind (i32_holding _) fun attempts => ?_
  refine .bind (i64_holding _) fun connectMs => ?_
  refine .bind (i64_holding _) fun connectAndSendMs => ?_
  refine .bind (i64_holding _) fun totalMs => ?_
  refine .bind aprTimeNow_holding fun now => ?_
  refine .bind (i64_holding _) fun total => ?_
  exact i64_holding _

theorem backOff_holding (attempt deadline : Int) :
    Triple ω (Holding w₀ socks sent dums) (backOff attempt deadline)
      fun _ => Holding w₀ socks sent dums := by
  refine .bind (i32_holding _) fun shifted => ?_
  refine .bind (i32_holding _) fun delayMs => ?_
  refine .bind (remainingTimeoutMs_holding deadline) fun backoffRemaining => ?_
  refine .ite (fun _ => .pure _ fun _ h => h) fun _ => ?_
  refine .bind (noteAsked_holding delayMs) fun _ => ?_
  refine .bind ?_ fun _ => .pure _ fun _ h => h
  exact .bind (i64_holding _) fun _ => nanosleepCall_holding _

/-! ## Connecting and sending -/

/-- What a call that may leave a connected daemon socket leaves: that socket, or nothing. -/
def openedBy : Except Errno Fd → List Fd
  | .ok sock => [sock]
  | .error _ => []

theorem closeCall_holding (sock : Fd) :
    Triple ω (Holding w₀ (sock :: socks) sent dums) (closeCall sock)
      fun _ => Holding w₀ socks sent dums := by
  refine .modify fun w h => ?_
  constructor
  · simp [h.sockets, trackSocket]
  · simp [h.sent, delivered]
  · simp [h.dummies, created]
  · exact h.request
  · exact h.conn
  · exact h.filter
  · exact h.below

theorem giveUp_holding (sock : Fd) (e : Errno) :
    Triple ω (Holding w₀ (sock :: socks) sent dums) (giveUp sock e)
      fun res => Holding w₀ (openedBy res ++ socks) sent dums :=
  .bind (closeCall_holding sock) fun _ => .pure _ fun _ h => h

theorem fcntlCall_holding :
    Triple ω (Holding w₀ socks sent dums) fcntlCall fun _ => Holding w₀ socks sent dums :=
  .ask fun _ _ h => h.pass _

theorem getsockoptCall_holding :
    Triple ω (Holding w₀ socks sent dums) getsockoptCall fun _ => Holding w₀ socks sent dums :=
  .ask fun _ _ h => h.pass _

theorem connectCall_holding (sock : Fd) (path : CStr) :
    Triple ω (Holding w₀ socks sent dums) (connectCall sock path)
      fun _ => Holding w₀ socks sent dums :=
  .ask fun _ _ h => h.append rfl rfl rfl rfl rfl

theorem setNonblocking_holding :
    Triple ω (Holding w₀ socks sent dums) setNonblocking
      fun _ => Holding w₀ socks sent dums := by
  refine .bind fcntlCall_holding fun getfl => ?_
  cases getfl with
  | error e => exact .pure _ fun _ h => h
  | ok flags =>
    refine .bind fcntlCall_holding fun setfl => ?_
    cases setfl with
    | error e => exact .pure _ fun _ h => h
    | ok _ => exact .bind fcntlCall_holding fun _ => .pure _ fun _ h => h

theorem awaitConnected_holding (sock : Fd) (connectTimeoutMs : Int) :
    Triple ω (Holding w₀ (sock :: socks) sent dums) (awaitConnected sock connectTimeoutMs)
      fun res => Holding w₀ (openedBy res ++ socks) sent dums := by
  refine .bind (pollCall_holding sock connectTimeoutMs) fun polled => ?_
  match polled with
  | .timeout => exact giveUp_holding sock _
  | .failed e => exact giveUp_holding sock _
  | .ready true =>
    refine .bind getsockoptCall_holding fun soError => ?_
    match soError with
    | .ok (some e) => exact giveUp_holding sock _
    | .ok none => exact giveUp_holding sock _
    | .error e => exact giveUp_holding sock _
  | .ready false =>
    refine .bind getsockoptCall_holding fun soError => ?_
    match soError with
    | .error e => exact giveUp_holding sock _
    | .ok (some e) => exact giveUp_holding sock _
    | .ok none => exact .pure _ fun _ h => h

theorem startConnect_holding (sock : Fd) (socketPath : CStr) (connectTimeoutMs : Int) :
    Triple ω (Holding w₀ (sock :: socks) sent dums)
      (startConnect sock socketPath connectTimeoutMs)
      fun res => Holding w₀ (openedBy res ++ socks) sent dums := by
  refine .bind (connectCall_holding sock socketPath) fun connected => ?_
  cases connected with
  | ok _ => exact .pure _ fun _ h => h
  | error e =>
    exact .ite (fun _ => giveUp_holding sock e) fun _ => awaitConnected_holding sock _

theorem connectOn_holding (sock : Fd) (sockNonblock : Bool) (socketPath : CStr)
    (connectTimeoutMs : Int) :
    Triple ω (Holding w₀ (sock :: socks) sent dums)
      (connectOn sock sockNonblock socketPath connectTimeoutMs)
      fun res => Holding w₀ (openedBy res ++ socks) sent dums := by
  refine .ite (fun _ => giveUp_holding sock _) fun _ => ?_
  refine .ite (fun _ => startConnect_holding sock socketPath _) fun _ => ?_
  refine .bind setNonblocking_holding fun set => ?_
  cases set with
  | error e => exact giveUp_holding sock e
  | ok _ => exact startConnect_holding sock socketPath _

theorem socketCall_holding :
    Triple ω (Holding w₀ socks sent dums) socketCall
      fun res => Holding w₀ (openedBy res ++ socks) sent dums := by
  refine .ask fun n w h => ?_
  cases hsock : ω.socket n with
  | error e => exact h.pass _
  | ok sock =>
    constructor
    · simp [h.sockets, trackSocket, openedBy]
    · simp [h.sent, delivered]
    · simp [h.dummies, created]
    · exact h.request
    · exact h.conn
    · exact h.filter
    · exact h.below

/-- **`connect_to_socket`** leaves the socket it returns open and no other. Each of its failures
closes what it has opened, so that a retry adds nothing to what is held. -/
theorem connectToSocket_holding (socketPath : CStr) (connectTimeoutMs : Int) :
    Triple ω (Holding w₀ socks sent dums) (connectToSocket socketPath connectTimeoutMs)
      fun res => Holding w₀ (openedBy res ++ socks) sent dums := by
  refine .bind socketCall_holding fun res => ?_
  cases res with
  | ok sock => exact connectOn_holding sock true socketPath _
  | error e =>
    refine .ite (fun _ => ?_) fun _ => .pure _ fun _ h => h
    refine .bind socketCall_holding fun res => ?_
    cases res with
    | ok sock => exact connectOn_holding sock false socketPath _
    | error e => exact .pure _ fun _ h => h

/-- The retry loop leaves the socket it returns open and no other. The induction is on the
attempts left; a failed attempt has closed its socket, so the next one starts from the same
ledger. -/
theorem connectLoop_holding (socketPath : CStr) (connectTimeoutMs maxRetries deadline : Int)
    (left : Nat) : ∀ attempt : Int,
    Triple ω (Holding w₀ socks sent dums)
      (connectLoop socketPath connectTimeoutMs maxRetries deadline left attempt)
      fun res => Holding w₀ (res.toList ++ socks) sent dums := by
  induction left with
  | zero => intro attempt; exact .pure _ fun _ h => h
  | succ left ih =>
    intro attempt
    refine .bind (remainingTimeoutMs_holding deadline) fun remainingMs => ?_
    refine .ite (fun _ => .pure _ fun _ h => h) fun _ => ?_
    refine .bind (noteAsked_holding connectTimeoutMs) fun _ => ?_
    refine .bind (connectToSocket_holding socketPath _) fun res => ?_
    cases res with
    | ok sock => exact .pure _ fun _ h => h
    | error e =>
      refine .ite (fun _ => .pure _ fun _ h => h) fun _ => ?_
      refine .bind (backOff_holding attempt deadline) fun again => ?_
      refine .ite (fun _ => ?_) fun _ => .pure _ fun _ h => h
      exact .bind (i32_holding _) fun attempt => ih attempt

theorem waitForWrite_holding (sock : Fd) (timeoutMs : Int) :
    Triple ω (Holding w₀ socks sent dums) (waitForWrite sock timeoutMs)
      fun _ => Holding w₀ socks sent dums := by
  refine .bind (pollCall_holding sock timeoutMs) fun polled => ?_
  match polled with
  | .timeout => exact .pure _ fun _ h => h
  | .failed e => exact .pure _ fun _ h => h
  | .ready true => exact .pure _ fun _ h => h
  | .ready false => exact .pure _ fun _ h => h

/-- **`SOCK_SEQPACKET` sends are atomic**: a `sendmsg` that does not fail has sent the whole
payload. -/
def Env.AtomicSend (ω : Env) : Prop :=
  ∀ n payload sent, ω.sendmsg n payload = .ok sent → sent = payload.length

/-- The payload for some data is never shorter than the data. -/
theorem le_length_handoffPayload (data : Option CStr) :
    handoffDataLen data ≤ (handoffPayload data (handoffDataLen data)).length := by
  cases data with
  | none => exact Nat.zero_le _
  | some text =>
    by_cases hpos : 0 < text.bytes.length
    · simp [handoffPayload, handoffDataLen, CStr.strlen, hpos]
    · simp only [handoffDataLen, CStr.strlen]; omega

/-- The message a send leaves behind, by `*fd_was_sent`. -/
def sentBy (payload : List UInt8) (fd : Fd) (fdWasSent : Bool) : List (List UInt8 × Fd) :=
  if fdWasSent then [(payload, fd)] else []

theorem sendmsgCall_holding (sock : Fd) (payload : List UInt8) (fd : Fd) :
    Triple ω (Holding w₀ socks sent dums) (sendmsgCall sock payload fd)
      fun res w => (∃ n, res = ω.sendmsg n payload) ∧
        Holding w₀ socks (sent ++ sentBy payload fd res.isOk) dums w := by
  refine .ask fun n w h => ⟨⟨n, rfl⟩, ?_⟩
  constructor
  · simp [h.sockets, trackSocket]
  · cases hres : ω.sendmsg n payload <;>
      simp [h.sent, delivered, sentBy, Except.isOk, Except.toBool]
  · simp [h.dummies, created]
  · exact h.request
  · exact h.conn
  · exact h.filter
  · exact h.below

/-- **`send_fd_with_data`** delivers the message when it reports so in `*fd_was_sent`, and fails
when it does not report it; with atomic sends nothing is delivered then. -/
theorem sendFdWithData_holding (sock fd : Fd) (data : Option CStr) (timeoutMs deadline : Int) :
    Triple ω (Holding w₀ socks sent dums)
      (sendFdWithData sock fd data (handoffDataLen data) timeoutMs deadline)
      fun res w => ∃ sent', Holding w₀ socks sent' dums w ∧
        (res.2 = true →
          sent' = sent ++ [(handoffPayload data (handoffDataLen data), fd)]) ∧
        (res.2 = false → (∃ e, res.1 = .error e) ∧ (ω.AtomicSend → sent' = sent)) := by
  have unsent : ∀ (e : Errno) (w : World), Holding w₀ socks sent dums w →
      ∃ sent', Holding w₀ socks sent' dums w ∧
        ((false = true) → sent' = sent ++ [(handoffPayload data (handoffDataLen data), fd)]) ∧
        ((false = false) → (∃ e', (Except.error e : Except Errno Unit) = .error e') ∧
          (ω.AtomicSend → sent' = sent)) := by
    intro e w h
    exact ⟨sent, h, fun hf => absurd hf (by simp), fun _ => ⟨⟨e, rfl⟩, fun _ => rfl⟩⟩
  refine .bind (remainingTimeoutMs_holding deadline) fun remainingMs => ?_
  refine .ite (fun _ => .pure _ (unsent _)) fun _ => ?_
  refine .bind (noteAsked_holding timeoutMs) fun _ => ?_
  refine .bind (waitForWrite_holding sock _) fun waited => ?_
  match waited with
  | .timedOut => exact .pure _ (unsent _)
  | .failed e => exact .pure _ (unsent _)
  | .ready =>
    refine .bind (sendmsgCall_holding sock _ fd) fun res => .pure _ ?_
    rintro w ⟨⟨n, hres⟩, h⟩
    cases res with
    | error e =>
      refine ⟨_, h, fun hf => absurd hf (by simp [afterSendmsg]), fun _ => ⟨⟨_, rfl⟩, fun _ => ?_⟩⟩
      simp [sentBy, Except.isOk, Except.toBool]
    | ok k =>
      by_cases hshort : data.isSome ∧ handoffDataLen data > 0 ∧ k < handoffDataLen data
      · rw [afterSendmsg, if_pos hshort]
        refine ⟨_, h, fun hf => absurd hf (by simp), fun _ => ⟨⟨_, rfl⟩, fun hω => ?_⟩⟩
        -- an atomic send is never short
        have hk := hω n _ k hres.symm
        have hle := le_length_handoffPayload data
        omega
      · rw [afterSendmsg, if_neg hshort]
        refine ⟨_, h, fun _ => ?_, fun hf => absurd hf (by simp)⟩
        simp [sentBy, Except.isOk, Except.toBool]

/-! ## The filter -/

/-- **End state (a)**: the descriptor of the client socket and the data were delivered once, a
dummy socket stands in for the client socket, and Apache is off the connection. -/
structure HandedOff (ω : Env) (w₀ w : World) : Prop where
  delivered : ∃ socket fd, w₀.conn.socket = some socket ∧ ω.aprOsSockGet socket = some fd ∧
    let data := responseHeader w₀.request .handoffData
    deliveries w.trace = [(handoffPayload data (handoffDataLen data), fd)]
  swapped : ∃ dummy, dummies w.trace = [dummy] ∧ w.conn.socket = some dummy
  aborted : w.conn.aborted = true
  silent : w.below = w₀.below

/-- The statuses of an error response. -/
def errorStatuses : List Nat := [httpForbidden, httpInternalServerError, httpServiceUnavailable]

/-- The connection is as it was, and one error response went down the chain. That nothing was
delivered is not part of it, for a send that fails after it has delivered would not let the code
know. -/
structure Answered (w₀ w : World) : Prop where
  conn : w.conn = w₀.conn
  answer : ∃ r, w.below = w₀.below ++ [⟨[.transient (errorBody r.status), .eos], r⟩] ∧
    r.status ∈ errorStatuses ∧ r.headersOut = [] ∧ r.errHeadersOut = []

/-- **End state (b)**: nothing was delivered, the connection is as it was, and one error
response went down the chain. -/
structure Refused (w₀ w : World) : Prop extends Answered w₀ w where
  undelivered : deliveries w.trace = []

/-- The end states exclude each other: what went down the chain tells them apart. -/
theorem HandedOff.not_answered {w : World} (ha : HandedOff ω w₀ w) : ¬ Answered w₀ w := by
  intro hb
  obtain ⟨r, hr, _⟩ := hb.answer
  rw [ha.silent] at hr
  exact absurd hr (by simp)

/-- What `handOff` brings to the cleanup label: an error status with at most the noted daemon
socket open, or success with all of end state (a) in place. -/
def AtLabel (ω : Env) (w₀ : World) (l : Locals) (w : World) : Prop :=
  (l.status ∈ errorStatuses ∧
    ∃ sent dums, Holding w₀ l.daemonSock.toList sent dums w ∧ (ω.AtomicSend → sent = [])) ∨
  (l.status = 0 ∧ l.daemonSock = none ∧ openSockets w.trace = some [] ∧ HandedOff ω w₀ w)

/-- A jump to the label before any socket is open. -/
theorem AtLabel.of_holding {dums : List Nat} {status : Nat} {bb : Brigade}
    (hs : status ∈ errorStatuses) (w : World) (h : Holding w₀ [] [] dums w) :
    AtLabel ω w₀ ⟨status, none, bb⟩ w :=
  .inl ⟨hs, [], dums, h, fun _ => rfl⟩

/-- The commit: the daemon socket is closed, the dummy takes the client's place and the
connection is marked aborted. -/
theorem commit_handedOff (sock dummy : Nat) (bb : Brigade) {socket fd : Nat}
    {data : Option CStr} (hsocket : w₀.conn.socket = some socket) (hfd : ω.aprOsSockGet socket = some fd)
    (hdata : data = responseHeader w₀.request .handoffData) :
    Triple ω (Holding w₀ [sock] [(handoffPayload data (handoffDataLen data), fd)] [dummy])
      (do
        closeCall sock
        apSetCoreModuleConfig dummy
        setAborted
        return ⟨0, none, bb⟩)
      (AtLabel ω w₀) := by
  subst hdata
  refine .bind (closeCall_holding sock) fun _ => ?_
  rintro n w h
  refine .inr ⟨rfl, rfl, h.sockets, ?_⟩
  exact ⟨⟨socket, fd, hsocket, hfd, h.sent⟩, ⟨dummy, h.dummies, rfl⟩, rfl, h.below⟩

theorem connectAndSend_atLabel (conf : Config) (socketPath : CStr) {socket fd dummy : Nat}
    (data : Option CStr) (bb : Brigade) (hsocket : w₀.conn.socket = some socket)
    (hfd : ω.aprOsSockGet socket = some fd)
    (hdata : data = responseHeader w₀.request .handoffData) :
    Triple ω (Holding w₀ [] [] [dummy]) (connectAndSend conf socketPath data dummy fd bb)
      (AtLabel ω w₀) := by
  refine .bind (computeHandoffDeadline_holding conf) fun deadline => ?_
  refine .bind (connectLoop_holding socketPath _ _ _ _ 0) fun res => ?_
  cases res with
  | none => exact .pure _ (AtLabel.of_holding (by decide))
  | some sock =>
    refine .bind (sendFdWithData_holding sock fd data _ deadline) fun res => ?_
    obtain ⟨result, fdWasSent⟩ := res
    cases fdWasSent with
    | false =>
      rintro n w ⟨sent, h, _, hfail⟩
      obtain ⟨⟨e, rfl⟩, hsent⟩ := hfail rfl
      exact .inl ⟨by simp [errorStatuses], sent, _, h, hsent⟩
    | true =>
      have hcommit := commit_handedOff sock dummy bb hsocket hfd hdata
      cases result <;>
      · refine hcommit.conseq (fun w h => ?_) fun _ _ h => h
        obtain ⟨sent, h, hsent, _⟩ := h
        rw [hsent rfl] at h
        exact h

theorem aprSocketCreate_holding :
    Triple ω (Holding w₀ socks sent []) aprSocketCreate
      fun res => Holding w₀ socks sent res.toList := by
  refine .ask fun n w h => ?_
  cases hdummy : ω.aprSocketCreate n with
  | none => exact h.pass _
  | some dummy =>
    constructor
    · simp [h.sockets, trackSocket]
    · simp [h.sent, delivered]
    · simp [h.dummies, created]
    · exact h.request
    · exact h.conn
    · exact h.filter
    · exact h.below

theorem apGetConnSocket_holding :
    Triple ω (Holding w₀ socks sent dums) apGetConnSocket
      fun res w => res = w₀.conn.socket ∧ Holding w₀ socks sent dums w := by
  refine .bind (Q := fun w w' => w.conn = w₀.conn ∧ Holding w₀ socks sent dums w')
    (.get fun w h => ⟨h.conn, h⟩) fun w => .assume fun hc => .pure _ fun _ h => ⟨?_, h⟩
  rw [hc]

theorem aprOsSockGet_holding (socket : Nat) :
    Triple ω (Holding w₀ socks sent dums) (aprOsSockGet socket)
      fun res w => res = ω.aprOsSockGet socket ∧ Holding w₀ socks sent dums w :=
  .ask fun _ _ h => ⟨rfl, h⟩

/-- **`handOff`** reaches the cleanup label in one of two shapes, whatever fails on the way. -/
theorem handOff_atLabel (conf : Config) (socketPath : CStr) (bb : Brigade) :
    Triple ω (Holding w₀ [] [] []) (handOff conf socketPath bb) (AtLabel ω w₀) := by
  refine .bind (Q := fun w => fun w' => w.request = w₀.request ∧ Holding w₀ [] [] [] w')
    (.get fun w h => ⟨h.request, h⟩) fun w => .assume fun hr => ?_
  rw [hr]
  refine .ite (fun _ => .pure _ (AtLabel.of_holding (by decide))) fun _ => ?_
  refine .bind (Q := fun _ => Holding w₀ [] [] []) (.ask fun _ _ h => h) fun valid => ?_
  refine .ite (fun _ => .pure _ (AtLabel.of_holding (by decide))) fun _ => ?_
  refine .bind aprSocketCreate_holding fun dummySocket => ?_
  cases dummySocket with
  | none => exact .pure _ (AtLabel.of_holding (by decide))
  | some dummy =>
    refine .bind apGetConnSocket_holding fun clientSocket => ?_
    refine .assume fun hsocket => ?_
    cases clientSocket with
    | none => exact .pure _ (AtLabel.of_holding (by decide))
    | some socket =>
      refine .bind (aprOsSockGet_holding socket) fun clientFd => ?_
      refine .assume fun hfd => ?_
      cases clientFd with
      | none => exact .pure _ (AtLabel.of_holding (by decide))
      | some fd =>
        exact connectAndSend_atLabel conf socketPath _ _ hsocket.symm hfd.symm rfl

theorem closeDaemonSock_holding (daemonSock : Option Fd) :
    Triple ω (Holding w₀ daemonSock.toList sent dums) (closeDaemonSock daemonSock)
      fun _ => Holding w₀ [] sent dums := by
  cases daemonSock with
  | none => exact .pure _ fun _ h => h
  | some sock => exact closeCall_holding sock

/-- The cleanup label of a failed handoff: the socket left open is closed and the error
response passed on. -/
theorem cleanup_answered {l : Locals} (hs : l.status ∈ errorStatuses) :
    Triple ω (Holding w₀ l.daemonSock.toList sent dums) (cleanup l) fun _ w =>
      openSockets w.trace = some [] ∧ w.filter = false ∧ deliveries w.trace = sent ∧
        Answered w₀ w := by
  have hne : l.status ≠ 0 := by
    intro h0
    rw [h0] at hs
    exact absurd hs (by decide)
  refine .bind (closeDaemonSock_holding l.daemonSock) fun _ => ?_
  refine .bind (Q := fun _ w => Holding { w₀ with filter := false } [] sent dums w)
    (.modify fun w h => ⟨h.sockets, h.sent, h.dummies, h.request, h.conn, rfl, h.below⟩)
    fun _ => .ite (fun _ => ?_) fun hz => absurd hne hz
  intro n w h
  refine ⟨h.sockets, h.filter, h.sent, h.conn, w.request.failed l.status, ?_, hs, rfl, rfl⟩
  simp [passError, apPassBrigade, Request.failed, h.below]

/-- How a run of the filter may end: with the daemon sockets closed, with the filter out of the
chain, and in one of the two end states. That nothing was delivered where the client was answered
takes sends that deliver all or nothing. -/
structure Ended (ω : Env) (w₀ w : World) : Prop where
  sockets : openSockets w.trace = some []
  removed : w.filter = false
  owner : HandedOff ω w₀ w ∨ (Answered w₀ w ∧ (ω.AtomicSend → deliveries w.trace = []))

/-- The cleanup label turns either shape into its end state, closes the socket that was left
open and takes the filter out of the chain. -/
theorem cleanup_ended (l : Locals) :
    Triple ω (AtLabel ω w₀ l) (cleanup l) fun _ => Ended ω w₀ := by
  rintro n w (⟨hs, sent, dums, h, hsent⟩ | ⟨h0, hd, hsock, ha⟩)
  · obtain ⟨hsock, hfilter, hdel, hb⟩ := cleanup_answered hs n w h
    exact ⟨hsock, hfilter, .inr ⟨hb, fun hω => hdel.trans (hsent hω)⟩⟩
  · simp only [cleanup, closeDaemonSock, hd, h0, apRemoveOutputFilter]
    exact ⟨hsock, rfl, .inl ⟨ha.delivered, ha.swapped, ha.aborted, ha.silent⟩⟩

/-- A run of the filter on a request with the handoff header, from any question on. -/
theorem outputFilter_ended (conf : Config) (bb : Brigade) {w : World} (htrace : w.trace = [])
    (hheader : (responseHeader w.request .handoff).isSome) (n : Nat) :
    Ended ω w (socketHandoffOutputFilter conf bb ω (n, w)).2.2 := by
  obtain ⟨socketPath, hpath⟩ := Option.isSome_iff_exists.mp hheader
  have hstart : Holding w [] [] [] w :=
    ⟨by simp [htrace, openSockets], by simp [htrace, deliveries], by simp [htrace, dummies],
      rfl, rfl, rfl, rfl⟩
  have hrun : Triple ω (Holding w [] [] []) (handOff conf socketPath bb >>= cleanup)
      fun _ => Ended ω w := .bind (handOff_atLabel conf socketPath bb) cleanup_ended
  have hfilter : socketHandoffOutputFilter conf bb ω (n, w) =
      (handOff conf socketPath bb >>= cleanup) ω (n, w) := by
    simp [socketHandoffOutputFilter, hpath]
  rw [hfilter]
  exact hrun n w hstart

/-- **One owner.** Every run of the filter on a request with the handoff header ends in exactly
one of the two end states, with every daemon socket it opened closed exactly once and the filter
out of the chain. -/
theorem outputFilter_oneOwner (hω : ω.AtomicSend) (conf : Config) (bb : Brigade) (w : World)
    (htrace : w.trace = []) (hheader : (responseHeader w.request .handoff).isSome) :
    let w' := (socketHandoffOutputFilter conf bb).final ω w
    openSockets w'.trace = some [] ∧ w'.filter = false ∧
      Xor (HandedOff ω w w') (Refused w w') := by
  obtain ⟨hsock, hfilter, howner⟩ := outputFilter_ended (ω := ω) conf bb htrace hheader 0
  refine ⟨hsock, hfilter, ?_⟩
  rcases howner with ha | ⟨hb, hsent⟩
  · exact .inl ⟨ha, fun hr => ha.not_answered hr.toAnswered⟩
  · exact .inr ⟨⟨hb, hsent hω⟩, fun ha => ha.not_answered hb⟩

/-- A daemon that answers at once gets the connection: nothing is sent to the client, the
daemon has the descriptor and no socket to it is left. -/
theorem outputFilter_oneOwner_calm :
    let w' := (socketHandoffOutputFilter createServerConfig [.heap [104, 105], .eos]).final
      .calm (.start .php)
    openSockets w'.trace = some [] ∧ w'.filter = false ∧ HandedOff .calm (.start .php) w' := by
  intro w'
  obtain ⟨hsock, hfilter, howner⟩ := outputFilter_oneOwner
    (ω := .calm) (fun _ _ _ h => (Except.ok.inj h).symm) createServerConfig
    [.heap [104, 105], .eos] (.start .php) rfl rfl
  refine ⟨hsock, hfilter, ?_⟩
  rcases howner with ⟨hdone, _⟩ | ⟨hrefused, _⟩
  · exact hdone
  · obtain ⟨r, hanswer, _⟩ := hrefused.answer
    have hnone : w'.below = [] := rfl
    rw [hnone] at hanswer
    exact absurd hanswer (by simp)

end SocketHandoff.Apache
