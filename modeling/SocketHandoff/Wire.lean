import SocketHandoff.Apache.Ownership
import SocketHandoff.Go.ReceiveFd
import SocketHandoff.Rust.RecvFd
import SocketHandoff.Uring.Received

/-!
# From the module to a daemon

`connect_to_socket` and `send_fd_with_data` against the listener of each daemon that is shipped, and
what the daemon takes from the message. Of the kernel it is known that sockets of different types do
not connect, and that a message is received as it was sent as far as there is room for it.
-/

namespace SocketHandoff.Wire

open Apache Act

/-! ## The daemons -/

inductive Shipped
  | go
  | uring
  | rust
  deriving DecidableEq, Repr

inductive SocketType
  | stream
  | seqpacket
  deriving DecidableEq, Repr

/-- The type of the listening socket: `net.Listen("unixpacket", …)`,
`socket(AF_UNIX, SOCK_SEQPACKET | …)`, and `UnixListener::bind`. -/
def Shipped.socketType : Shipped → SocketType
  | .go | .uring => .seqpacket
  | .rust => .stream

/-- What is trimmed from both ends of the data by `bytes.Trim`, `handoff_parse_data` and
`parse_handoff_data`. -/
def Shipped.trims : Shipped → UInt8 → Bool
  | .go, c => c = 0
  | .uring, c => Uring.isBlank c
  | .rust, c => c = 0 ∨ c = 32 ∨ c = 9 ∨ c = 10 ∨ c = 12 ∨ c = 13

/-- `handoff_data` and its length. -/
def dataText (data : Option CStr) : List UInt8 := (data.map CStr.bytes).getD []

/-- The bytes are this data, or trimming leaves nothing of them where there is no data. -/
def Shipped.Reads (d : Shipped) (bytes : List UInt8) (data : Option CStr) : Prop :=
  if dataText data = [] then ∀ c ∈ bytes, d.trims c = true else bytes = dataText data

/-- `config.MaxHandoffDataSize`. -/
def maxHandoffDataSize : Nat := 131072

/-- `handoff_buffer_size` by default. -/
def handoffBufferSize : Nat := 65536

/-- `receiveFd` of the Go daemon returns the descriptor and the data, however the parsers of the
`syscall` package go about reading the one descriptor in the control buffer. -/
def GoObtains (payload : List UInt8) (fd : Nat) (data : Option CStr) : Prop :=
  ∀ (σ : Type) (parseSocketControlMessage : List UInt8 → Except String (List σ))
    (parseUnixRights : σ → Except String (List Int)) (control : List UInt8) (rights : σ),
    parseSocketControlMessage control = .ok [rights] → parseUnixRights rights = .ok [(fd : Int)] →
      ∀ (ω : Go.PoolEnv) (w₀ : Go.Receiver),
        let got := Message.recv ⟨payload, [fd]⟩ maxHandoffDataSize (Uring.controlFdRoom 256)
        let run := Go.receiveFd parseSocketControlMessage parseUnixRights maxHandoffDataSize
          (.unix none (.ok ⟨got.data, control, got.trunc, got.ctrunc⟩))
        ∃ ptr bytes, run.result ω w₀ = .ok ((fd : Int), ptr) ∧ Go.Owns ptr bytes (run.final ω w₀) ∧
          Shipped.go.Reads bytes data

/-- In every run of the io_uring daemon, the handler of a message has the descriptor, and goes on to
parse the data. -/
def UringObtains (payload : List UInt8) (fd : Nat) (data : Option CStr) : Prop :=
  ∀ (cfg : Uring.Config) (s : Uring.Daemon) (cqe : Uring.Cqe) (rest : List Uring.Cqe),
    (Uring.system cfg).Reachable s → s.pc = .events → s.cq = cqe :: rest → cqe.op = .recvFd →
      0 ≤ cqe.res → Uring.lastReceived s.trace cqe.connId = some ⟨payload, [fd]⟩ →
        Uring.handoffExtractFd (s.connections cqe.connId).recv = some fd ∧
          ∃ bytes, Shipped.uring.Reads bytes data ∧
            (s.connections cqe.connId).handoffBytes.take cqe.res.toNat = bytes ∧
              ∀ ω s', ω.soType fd = some .stream → Uring.step s (.event ω) = some s' →
                s.Parses cqe.connId bytes s'

/-- `receive_fd_blocking` of the Rust daemon would return them, once there is a message. -/
def RustObtains (payload : List UInt8) (fd : Nat) (data : Option CStr) : Prop :=
  ∀ (cmsgs : Rust.RecvMsg → Option (List Rust.ControlMessageOwned)) (validateSocket : Nat → Bool),
    (∀ msg, cmsgs msg = if msg.ctrunc then none else some msg.control) →
      validateSocket fd = true →
        let got := Message.recv ⟨payload, [fd]⟩ handoffBufferSize 1
        (Rust.receiveFdBlocking cmsgs validateSocket
          ⟨[.scmRights got.rights], got.trunc, got.ctrunc⟩).1 = .ok fd ∧
            Shipped.rust.Reads got.data data

/-- A daemon receives this payload and descriptor, in one receive, as the data. It is asked of every
descriptor number, because the kernel numbers it anew in the daemon. -/
def Shipped.Obtains : Shipped → (payload : List UInt8) → (fd : Nat) → Option CStr → Prop
  | .go => GoObtains
  | .uring => UringObtains
  | .rust => RustObtains

/-! ## The handoff -/

/-- The kernel grants every call, but a `connect` to a socket of another type. Failures of the calls
are left out here: whether the two sides agree is a question of what they say when they are heard.
-/
structure Grants (type : SocketType) (ω : Env) : Prop where
  socket : ∀ n, ∃ sock, ω.socket n = .ok sock
  connect : ∀ n, ω.connect n = if type = .seqpacket then .ok () else .error .eprototype
  poll : ∀ n, (ω.poll n).result = .ready false
  sendmsg : ∀ n payload, ω.sendmsg n payload = .ok payload.length

/-- `connect_to_socket`, and `send_fd_with_data` if it has connected. -/
def connectThenSend (socketPath : CStr) (clientFd : Fd) (data : Option CStr)
    (connectTimeoutMs sendTimeoutMs deadline : Int) : Worker (Except Errno Unit × Bool) := do
  match ← connectToSocket socketPath connectTimeoutMs with
  | .error e => return (.error e, false)
  | .ok sock => sendFdWithData sock clientFd data (handoffDataLen data) sendTimeoutMs deadline

/-- **The module and a daemon agree** on this data: unless the deadline passes, one message is sent,
and the daemon obtains from it the descriptor of the client, by whatever number it goes there, and
the data. -/
def Compatible (d : Shipped) (data : Option CStr) : Prop :=
  ∀ (ω : Env) (w : World) (socketPath : CStr) (clientFd : Fd)
    (connectTimeoutMs sendTimeoutMs deadline : Int),
    Grants d.socketType ω → socketPath.strlen < sunPathSize → w.trace = [] →
      let run := connectThenSend socketPath clientFd data connectTimeoutMs sendTimeoutMs deadline
      run.result ω w ≠ (.error .etimedout, false) →
        ∃ payload, deliveries (run.final ω w).trace = [(payload, clientFd)] ∧
          ∀ fd, d.Obtains payload fd data

/-! ## The sender -/

section Sender

variable {ω : Env} {type : SocketType} {socketPath : CStr} {data : Option CStr}
  {connectTimeoutMs : Int}

/-- Data that is absent or empty goes as a single NUL. -/
theorem handoffPayload_eq (data : Option CStr) : handoffPayload data (handoffDataLen data) =
    if dataText data = [] then [0] else dataText data := by
  cases data with
  | none => rfl
  | some text =>
    rw [handoffPayload.eq_def, dataText]
    simp only [Option.map_some, Option.getD_some, handoffDataLen, CStr.strlen,
      List.length_pos_iff_ne_nil, List.take_length, ite_not]

theorem length_dataText (data : Option CStr) :
    (dataText data).length = handoffDataLen data := by
  cases data <;> rfl

/-- Where it is granted, a connection is made. -/
theorem connectToSocket_granted (hg : Grants .seqpacket ω)
    (hpath : socketPath.strlen < sunPathSize) :
    Triple ω (fun _ => True) (connectToSocket socketPath connectTimeoutMs)
      fun res _ => ∃ sock, res = .ok sock := by
  intro n w _
  obtain ⟨sock, hsock⟩ := hg.socket n
  have hpath' : ¬ socketPath.strlen ≥ sunPathSize := Nat.not_le.mpr hpath
  refine ⟨sock, ?_⟩
  simp only [connectToSocket, socketCall, bind_run, ask_run, hsock, connectOn, if_neg hpath',
    if_true, startConnect, connectCall, hg.connect, pure_run]

/-- No connection is made between sockets of different types. -/
theorem connectToSocket_refused (hg : Grants .stream ω)
    (hpath : socketPath.strlen < sunPathSize) :
    Triple ω (fun _ => True) (connectToSocket socketPath connectTimeoutMs)
      fun res _ => res = .error .eprototype := by
  intro n w _
  obtain ⟨sock, hsock⟩ := hg.socket n
  have hpath' : ¬ socketPath.strlen ≥ sunPathSize := Nat.not_le.mpr hpath
  have hconnect : ω.connect (n + 1) = .error .eprototype := hg.connect (n + 1)
  simp only [connectToSocket, socketCall, bind_run, ask_run, hsock, connectOn, if_neg hpath',
    if_true, startConnect, connectCall, hconnect]
  rfl

theorem waitForWrite_granted (hg : Grants type ω) (sock : Fd) (timeoutMs : Int) :
    Triple ω (fun _ => True) (waitForWrite sock timeoutMs) fun res _ => res = .ready ∧ True := by
  intro n w _
  simp only [waitForWrite, pollCall, bind_run, ask_run, hg.poll]
  exact ⟨rfl, trivial⟩

/-- The message is sent unless the deadline has passed. -/
theorem sendFdWithData_granted (hg : Grants type ω) (sock fd : Fd) (data : Option CStr)
    (timeoutMs deadline : Int) :
    Triple ω (fun _ => True)
      (sendFdWithData sock fd data (handoffDataLen data) timeoutMs deadline)
      fun res _ => res = (.error .etimedout, false) ∨ res = (.ok (), true) := by
  refine .bind (Q := fun _ _ => True) (fun _ _ _ => trivial) fun remainingMs => ?_
  refine .ite (fun _ => .pure _ fun _ _ => .inl rfl) fun _ => ?_
  refine .bind (Q := fun _ _ => True) (fun _ _ _ => trivial) fun _ => ?_
  refine .bind (waitForWrite_granted hg sock _) fun waited => .assume fun hready => ?_
  rw [hready]
  refine .bind (Q := fun res _ => res = .ok (handoffPayload data (handoffDataLen data)).length ∧ True)
    (.ask fun n w _ => ⟨hg.sendmsg n _, trivial⟩) fun res => .assume fun hres => ?_
  rw [hres]
  refine .pure _ fun _ _ => .inr ?_
  have hle := le_length_handoffPayload data
  rw [afterSendmsg, if_neg (by omega)]

end Sender

/-! ## What arrives -/

section Arrives

variable {data : Option CStr} {fd : Nat}

/-- A payload that is received whole is read as the data. -/
theorem reads_payload (d : Shipped) (hnul : d.trims 0 = true) :
    d.Reads (handoffPayload data (handoffDataLen data)) data := by
  rw [Shipped.Reads, handoffPayload_eq]
  by_cases hnil : dataText data = []
  · rw [if_pos hnil, if_pos hnil]
    intro c hc
    rwa [List.mem_singleton.mp hc]
  · rw [if_neg hnil, if_neg hnil]

/-- The payload has room wherever the data and one byte have. -/
theorem length_handoffPayload_le {room : Nat} (hroom : 0 < room)
    (h : handoffDataLen data ≤ room) : (handoffPayload data (handoffDataLen data)).length ≤ room := by
  rw [handoffPayload_eq]
  split
  · exact hroom
  · rwa [length_dataText]

theorem goObtains (h : handoffDataLen data ≤ 65535) :
    GoObtains (handoffPayload data (handoffDataLen data)) fd data := by
  intro σ parse parseRights control rights hparse hrights ω w₀ got run
  have hlen : (handoffPayload data (handoffDataLen data)).length ≤ maxHandoffDataSize :=
    length_handoffPayload_le (by decide) (h.trans (by decide))
  have hdata : got.data = handoffPayload data (handoffDataLen data) := List.take_of_length_le hlen
  have htrunc : got.trunc = false := decide_eq_false (Nat.not_lt.mpr hlen)
  have hctrunc : got.ctrunc = false := rfl
  have hfds : [rights].flatMap (Go.rightsOf parseRights) = [(fd : Int)] := by
    rw [List.flatMap_singleton, Go.rightsOf, hrights]
  obtain ⟨ptr, hptr, howns⟩ := (@Go.receiveFd_ok σ parse parseRights maxHandoffDataSize ω w₀
    ⟨got.data, control, got.trunc, got.ctrunc⟩ rights [] fd [] htrunc hctrunc hparse hfds).run rfl
  refine ⟨ptr, _, hptr, howns, ?_⟩
  rw [hdata]
  exact reads_payload .go rfl

theorem uringObtains (h : handoffDataLen data ≤ Uring.handoffTier1Size) :
    UringObtains (handoffPayload data (handoffDataLen data)) fd data := by
  intro cfg s cqe rest hs hpc hcq hop hres hlast
  have hlen : (handoffPayload data (handoffDataLen data)).length ≤ Uring.handoffTier1Size :=
    length_handoffPayload_le (by decide) h
  have hmem : cqe ∈ (s.view.slots cqe.connId).comps := by
    simp [Uring.Daemon.slot, hcq, Uring.Cqe.slot?, hop]
  obtain ⟨m, hm, -, hfd⟩ :=
    (Uring.delivered_reachable hs cqe.connId).completion cqe hmem hop hres
  obtain ⟨m', hm', hbytes, hout⟩ := Uring.recvFd_outcome hs hpc hcq hop hres
  have hsame : m = ⟨handoffPayload data (handoffDataLen data), [fd]⟩ :=
    Option.some.inj (hm.symm.trans hlast)
  have hsame' : m' = ⟨handoffPayload data (handoffDataLen data), [fd]⟩ :=
    Option.some.inj (hm'.symm.trans hlast)
  subst hsame hsame'
  rw [List.take_of_length_le hlen] at hbytes hout
  refine ⟨hfd, _, reads_payload .uring rfl, hbytes, fun ω s' hso hstep => ?_⟩
  rcases hout ω s' hstep with ⟨-, hp⟩ | ⟨hnot, -⟩
  · exact hp
  · exact absurd ⟨fd, rfl, hso⟩ hnot

/-- The io_uring daemon obtains no more than the first tier of its buffer. -/
theorem length_le_of_uringObtains
    (h : UringObtains (handoffPayload data (handoffDataLen data)) 11 data) :
    handoffDataLen data ≤ Uring.handoffTier1Size := by
  obtain ⟨s, cqe, hs, hpc, hcq, hop, hres, hid, hlast⟩ :=
    Uring.exists_delivered ⟨handoffPayload data (handoffDataLen data), [11]⟩
  rw [← hid] at hlast
  obtain ⟨-, bytes, hreads, hbytes, -⟩ := h _ s cqe [] hs hpc hcq hop hres hlast
  obtain ⟨m, hm, hcut, -⟩ := Uring.recvFd_outcome hs hpc hcq hop hres
  obtain rfl := Option.some.inj (hm.symm.trans hlast)
  by_cases hnil : dataText data = []
  · rw [← length_dataText, hnil]
    exact Nat.zero_le _
  · rw [Shipped.Reads, if_neg hnil, ← hbytes, hcut] at hreads
    rw [← length_dataText, ← hreads, List.length_take]
    exact Nat.min_le_left _ _

end Arrives

/-! ## The module and the daemons -/

section Compatible

variable {ω : Env} {w : World} {socketPath : CStr} {clientFd : Fd} {data : Option CStr}
  {connectTimeoutMs sendTimeoutMs deadline : Int}

/-- A worker that has made no call yet. -/
theorem holding_start (hw : w.trace = []) : Holding w [] [] [] w := by
  constructor
  · rw [hw]
    rfl
  · rw [hw]
    rfl
  · rw [hw]
    rfl
  · rfl
  · rfl
  · rfl
  · rfl

/-- The message has been sent if the code says so, and only then. -/
theorem connectThenSend_sent (hatomic : ω.AtomicSend) (hw : w.trace = []) :
    let run := connectThenSend socketPath clientFd data connectTimeoutMs sendTimeoutMs deadline
    deliveries (run.final ω w).trace = if (run.result ω w).2 = true then
      [(handoffPayload data (handoffDataLen data), clientFd)] else [] := by
  have hledger : Triple ω (Holding w [] [] [])
      (connectThenSend socketPath clientFd data connectTimeoutMs sendTimeoutMs deadline)
      fun res w' => deliveries w'.trace = if res.2 = true then
        [(handoffPayload data (handoffDataLen data), clientFd)] else [] := by
    refine .bind (connectToSocket_holding socketPath _) fun res => ?_
    cases res with
    | error e => exact .pure _ fun _ h => h.sent
    | ok sock =>
      refine .conseq (sendFdWithData_holding sock clientFd data _ deadline) (fun _ h => h) ?_
      rintro ⟨result, fdWasSent⟩ w' ⟨sent, h, hsent, hunsent⟩
      cases fdWasSent with
      | true => exact h.sent.trans (hsent rfl)
      | false => exact h.sent.trans ((hunsent rfl).2 hatomic)
  exact hledger.run (holding_start hw)

theorem Grants.atomicSend {type : SocketType} (hg : Grants type ω) : ω.AtomicSend := by
  intro n payload sent hsent
  rw [hg.sendmsg] at hsent
  exact (Except.ok.inj hsent).symm

/-- **Between sockets of one type** the code connects and sends, unless the deadline passes. -/
theorem connectThenSend_granted (hg : Grants .seqpacket ω)
    (hpath : socketPath.strlen < sunPathSize) :
    Triple ω (fun _ => True)
      (connectThenSend socketPath clientFd data connectTimeoutMs sendTimeoutMs deadline)
      fun res _ => res = (.error .etimedout, false) ∨ res = (.ok (), true) := by
  refine .bind (connectToSocket_granted hg hpath) fun res => .exists fun sock => ?_
  rintro n w rfl
  exact sendFdWithData_granted hg sock clientFd data sendTimeoutMs deadline n w trivial

theorem connectThenSend_refused (hg : Grants .stream ω)
    (hpath : socketPath.strlen < sunPathSize) :
    Triple ω (fun _ => True)
      (connectThenSend socketPath clientFd data connectTimeoutMs sendTimeoutMs deadline)
      fun res _ => res = (.error .eprototype, false) := by
  refine .bind (connectToSocket_refused hg hpath) fun res => ?_
  rintro n w rfl
  rfl

/-- A daemon with a socket of the module's type is compatible with data that it obtains. -/
theorem compatible_of_obtains {d : Shipped} (htype : d.socketType = .seqpacket)
    (h : ∀ fd, d.Obtains (handoffPayload data (handoffDataLen data)) fd data) :
    Compatible d data := by
  intro ω w socketPath clientFd cT sT deadline hg hpath hw run hin
  rw [htype] at hg
  have hsent := @connectThenSend_sent ω w socketPath clientFd data cT sT deadline
    hg.atomicSend hw
  rcases (connectThenSend_granted hg hpath).run (s := w) trivial with hlate | hok
  · exact absurd hlate hin
  · refine ⟨_, hsent.trans ?_, h⟩
    rw [hok]
    rfl

/-- The kernel of a worker whose calls all succeed. -/
theorem grants_calm : Grants .seqpacket .calm where
  socket _ := ⟨9, rfl⟩
  connect _ := rfl
  poll _ := rfl
  sendmsg _ _ := rfl

/-- One on which the listening socket is of the other type. -/
def mismatched : Env := { Env.calm with connect := fun _ => .error .eprototype }

theorem grants_mismatched : Grants .stream mismatched where
  socket _ := ⟨9, rfl⟩
  connect _ := rfl
  poll _ := rfl
  sendmsg _ _ := rfl

theorem zero_notMem_daemonPath : (0 : UInt8) ∉ ([47, 114, 117, 110, 47, 97] : List UInt8) := by
  decide

/-- A short path. -/
def daemonPath : CStr := ⟨[47, 114, 117, 110, 47, 97], zero_notMem_daemonPath⟩

/-- A kernel that takes no time. -/
theorem connectThenSend_calm (data : Option CStr) :
    (connectThenSend daemonPath 5 data 1000 1000 5000000).result .calm (.start .php) =
      (.ok (), true) := by
  have hrun : (connectThenSend daemonPath 5 data 1000 1000 5000000).result .calm (.start .php) =
      afterSendmsg data (handoffDataLen data)
        (.ok (handoffPayload data (handoffDataLen data)).length) := rfl
  have hle := le_length_handoffPayload data
  rw [hrun, afterSendmsg, if_neg (by omega)]

/-- **The module agrees with a daemon exactly if** it is the Go daemon, or the io_uring daemon and
the data fits the first tier of its buffer. The Rust daemon listens on a stream socket, to which the
module's socket cannot be connected. -/
theorem compatible_iff (d : Shipped) (data : Option CStr) (h : handoffDataLen data ≤ 65535) :
    Compatible d data ↔
      d = .go ∨ d = .uring ∧ handoffDataLen data ≤ Uring.handoffTier1Size := by
  have hpath : daemonPath.strlen < sunPathSize := by decide
  cases d with
  | go => exact iff_of_true (compatible_of_obtains rfl fun fd => goObtains h) (.inl rfl)
  | uring =>
    constructor
    · intro hc
      have hok := connectThenSend_calm data
      have hin : (connectThenSend daemonPath 5 data 1000 1000 5000000).result .calm (.start .php) ≠
          (.error .etimedout, false) := by
        rw [hok]
        exact fun hlate => Bool.noConfusion (congrArg Prod.snd hlate)
      obtain ⟨payload, hsent, hobtains⟩ :=
        hc .calm (.start .php) daemonPath 5 1000 1000 5000000 grants_calm hpath rfl hin
      have hledger := @connectThenSend_sent .calm (.start .php) daemonPath 5 data 1000 1000 5000000
        grants_calm.atomicSend rfl
      simp only [hok, if_true] at hledger
      have hpayload := List.cons.inj (hsent.symm.trans hledger)
      rw [(Prod.mk.inj hpayload.1).1] at hobtains
      exact .inr ⟨rfl, length_le_of_uringObtains (hobtains 11)⟩
    · rintro (hgo | ⟨-, hfit⟩)
      · cases hgo
      · exact compatible_of_obtains rfl fun fd => uringObtains hfit
  | rust =>
    refine iff_of_false (fun hc => ?_) (by simp)
    have hrefused := (@connectThenSend_refused mismatched daemonPath 5 data 1000 1000 5000000
      grants_mismatched hpath).run (s := .start .php) trivial
    have hin : (connectThenSend daemonPath 5 data 1000 1000 5000000).result mismatched
        (.start .php) ≠ (.error .etimedout, false) := by
      rw [hrefused]
      decide
    obtain ⟨payload, hsent, -⟩ :=
      hc mismatched (.start .php) daemonPath 5 1000 1000 5000000 grants_mismatched hpath rfl hin
    have hledger := @connectThenSend_sent mismatched (.start .php) daemonPath 5 data 1000 1000
      5000000 grants_mismatched.atomicSend rfl
    simp only [hrefused, Bool.false_eq_true, if_false] at hledger
    rw [hledger] at hsent
    cases hsent

/-- No data reaches the Go daemon as no data. -/
theorem compatible_iff_empty : Compatible .go none :=
  (compatible_iff .go none (by decide)).mpr (.inl rfl)

end Compatible

end SocketHandoff.Wire
