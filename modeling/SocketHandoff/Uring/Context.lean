import SocketHandoff.Lib.Act
import SocketHandoff.Lib.Intrusive
import SocketHandoff.Lib.Seqpacket
import SocketHandoff.Uring.WriteBuffer

/-!
# The context of the io_uring daemon

The data of `daemon.h`, `connection.h`, `curl_manager.h` and `pool.h`: the connection slots with
their free list and dirty list, the two queues of the ring and what the kernel has in hand, the
requests of the curl manager and the thread pool. What lies outside the daemon (the kernel's
reading of the submission queue, `malloc`, libcurl) answers through an oracle `Env`.

`user_data` of a ring entry names an operation and a slot, nothing else. The model also counts
how often each slot has been freed, and writes that number into every entry of the slot: the
code never sees it, and it says which connection an entry was queued for.
-/

namespace SocketHandoff.Uring

/-! ## Constants of `daemon.h` -/

/-- `HANDOFF_TIER1_SIZE`. -/
def handoffTier1Size : Nat := 4096

/-- `HANDOFF_TIER2_SIZE`. -/
def handoffTier2Size : Nat := 16384

/-- `HANDOFF_TIER3_SIZE`. -/
def handoffTier3Size : Nat := 65536

/-- `MAX_HANDOFF_DATA_SIZE`. -/
def maxHandoffDataSize : Nat := handoffTier3Size

/-- `CONTROL_MSG_SIZE`. -/
def controlMsgSize : Nat := 256

/-- `DEFAULT_RING_SIZE`. -/
def defaultRingSize : Nat := 8192

/-- `DEFAULT_MAX_CONNECTIONS`. -/
def defaultMaxConnections : Nat := 10000

/-! ## Connections -/

/-- Index of a connection in `ctx->connections`. -/
abbrev ConnId := Nat

/-- A file descriptor of the daemon. -/
abbrev Fd := Nat

/-- A curl easy handle. -/
abbrev Easy := Nat

/-- `conn_state_t`. -/
inductive ConnState
  | unused | accepting | receivingFd | parsing | llmQueued | llmPending | curlPending
  | curlActive | streaming | streamed | closing
  deriving DecidableEq, Repr

/-- `handoff_data_t`, with the strings in place of pointers into the buffer. -/
structure HandoffData where
  userId : Int
  prompt : Option (List UInt8)
  model : Option (List UInt8)
  maxTokens : Int
  deriving DecidableEq, Repr

/-- `handoff_data_t` after `memset`. -/
def HandoffData.zero : HandoffData := ⟨0, none, none, 0⟩

/-- A control message. -/
inductive Cmsg
  /-- `SOL_SOCKET`, `SCM_RIGHTS` -/
  | rights (fds : List Fd)
  | other
  deriving DecidableEq, Repr

/-- `recv_ctx_t`: the message header of a slot with its `iovec` and control buffer. -/
structure RecvCtx where
  iovBase : Option Block
  iovLen : Nat
  controlLen : Nat
  /-- what the kernel wrote into the control buffer -/
  control : List Cmsg
  /-- `MSG_TRUNC` in `msg_flags` -/
  trunc : Bool
  /-- `MSG_CTRUNC` in `msg_flags` -/
  ctrunc : Bool
  deriving DecidableEq, Repr

/-- `connection_t`, and with it `recv_contexts[id]`. The two list links are kept in `Daemon`. -/
structure Connection where
  state : ConnState
  unixFd : Option Fd
  clientFd : Option Fd
  handoffBuf : Option Block
  /-- the contents of `handoff_buf` -/
  handoffBytes : List UInt8
  handoffLen : Nat
  handoffCap : Nat
  data : HandoffData
  streamIndex : Nat
  bytesSent : Nat
  useLlmResponse : Bool
  llmResponsePos : Nat
  /-- `write_buf` and its contents -/
  writeBuf : Option (Block × List UInt8)
  writeLen : Nat
  writeOffset : Nat
  asyncWriteBuf : Option WriteBuffer
  curlEasy : Option Easy
  /-- `sse_line_buf` with its length, and its capacity -/
  sseLine : Option (List UInt8 × Nat)
  onDirtyList : Bool
  recv : RecvCtx
  deriving DecidableEq, Repr

/-- A slot as `calloc` and `conn_pool_init` leave it. It has no handoff buffer yet; the first
connection in it brings one, and later ones find it there. -/
def Connection.initial : Connection where
  state := .unused
  unixFd := none
  clientFd := none
  handoffBuf := none
  handoffBytes := []
  handoffLen := 0
  handoffCap := 0
  data := .zero
  streamIndex := 0
  bytesSent := 0
  useLlmResponse := false
  llmResponsePos := 0
  writeBuf := none
  writeLen := 0
  writeOffset := 0
  asyncWriteBuf := none
  curlEasy := none
  sseLine := none
  onDirtyList := false
  recv := ⟨none, 0, 0, [], false, false⟩

/-! ## The ring -/

/-- `op_type_t`. -/
inductive Op
  | accept | recvFd | write | timeout | cancel | eventfd | curlPoll | curlTimeout | pollCancel
  deriving DecidableEq, Repr

/-- The bytes of a write. -/
inductive Buf
  /-- a string constant of the daemon -/
  | static
  /-- an allocated block, from an offset on -/
  | block (b : Block) (offset : Nat)
  deriving DecidableEq, Repr

/-- What a submission entry asks for. -/
inductive Request
  /-- multishot accept on the listener -/
  | accept
  /-- `recvmsg` with the message header of the slot -/
  | recvmsg (fd : Option Fd) (iovBase : Option Block) (iovLen : Nat)
  | write (fd : Option Fd) (buf : Buf) (len : Nat)
  /-- the timeout of the write before it, with the timeout spec of the slot -/
  | linkTimeout (ms : Nat)
  | readEventfd (fd : Fd)
  /-- multishot poll -/
  | pollAdd (fd : Fd) (mask : Nat)
  | cancelFd (fd : Fd)
  | timeout (ms : Nat)
  | timeoutRemove
  deriving DecidableEq, Repr

/-- The operation in the `user_data` of a request. Nothing else of the request comes back with its
completion, besides the number: it is by these two that the daemon has to know what has been
completed. -/
def Request.op : Request → Op
  | .accept => .accept
  | .recvmsg .. => .recvFd
  | .write .. => .write
  | .linkTimeout _ => .timeout
  | .readEventfd _ => .eventfd
  | .pollAdd .. => .curlPoll
  | .cancelFd _ => .pollCancel
  | .timeout _ => .curlTimeout
  | .timeoutRemove => .cancel

/-- A submission entry. A write always carries `IOSQE_IO_LINK`. -/
structure Sqe where
  request : Request
  /-- the lower half of `user_data`: a slot, a curl socket or a timer -/
  connId : Nat
  /-- of the slot, when the entry was queued -/
  gen : Nat
  deriving DecidableEq, Repr

/-- A completion entry. -/
structure Cqe where
  op : Op
  connId : Nat
  res : Int
  /-- `IORING_CQE_F_MORE` -/
  more : Bool
  gen : Nat
  deriving DecidableEq, Repr

/-- The slot an entry works for: its receive, its write or the timeout of its write. -/
def Sqe.slot? (r : Sqe) : Option ConnId :=
  match r.request with
  | .recvmsg .. | .write .. | .linkTimeout _ => some r.connId
  | _ => none

/-- The slot whose connection `process_cqe` looks up for a completion. -/
def Cqe.slot? (c : Cqe) : Option ConnId :=
  match c.op with
  | .recvFd | .write => some c.connId
  | _ => none

/-! ## libcurl and the curl manager -/

/-- A transfer libcurl has finished, with its message not yet read. -/
structure Finished where
  /-- `CURLcode`, 0 for `CURLE_OK` -/
  result : Nat
  httpCode : Nat
  deriving DecidableEq, Repr

/-- `curl_request_t`, with what libcurl knows about its easy handle. -/
structure CurlRequest where
  easy : Easy
  conn : ConnId
  postData : List UInt8
  headersSent : Bool
  chunkCount : Nat
  /-- a callback returned too little, so that libcurl aborts the transfer -/
  aborted : Bool
  finished : Option Finished
  deriving DecidableEq, Repr

/-- `curl_socket_info_t`. -/
structure SocketInfo where
  pollMask : Nat
  pollActive : Bool
  deriving DecidableEq, Repr

/-- `curl_manager_t` and the handles of its multi handle. -/
structure CurlManager where
  requests : List CurlRequest
  nextEasy : Easy
  sockets : Fd → SocketInfo
  socketsCapacity : Nat
  timerId : Nat
  timerActive : Bool

/-- What libcurl asks of `socket_callback`. -/
inductive CurlPoll
  | none | read | write | both | remove
  deriving DecidableEq, Repr

/-- The callbacks libcurl may make inside a call that changes its multi handle. -/
inductive CurlCallback
  | socket (fd : Fd) (what : CurlPoll)
  | timer (timeoutMs : Int)
  deriving DecidableEq, Repr

/-! ## The thread pool -/

/-- Where a worker thread is with its connection. -/
inductive Stage
  /-- in `backend_process` -/
  | processing
  /-- in `pool_add_completion` -/
  | processed
  /-- about to write to the eventfd -/
  | completed
  deriving DecidableEq, Repr

/-- `pool_ctx_t`. -/
structure Pool where
  queue : List ConnId
  working : List (ConnId × Stage)
  /-- the ring of completed connections, oldest first -/
  completions : List ConnId
  /-- the counter of the eventfd -/
  signals : Nat

/-- How often a slot waits for a worker, or is with one. -/
def Pool.queued (p : Pool) (i : ConnId) : Nat :=
  p.queue.count i + p.working.count (i, .processing)

/-- How often a slot has been processed without the main loop having fetched it. -/
def Pool.done (p : Pool) (i : ConnId) : Nat :=
  p.working.count (i, .processed) + p.completions.count i

/-! ## The daemon -/

/-- How responses are produced. -/
inductive Mode
  /-- `use_curl_multi` -/
  | curlMulti
  /-- `use_thread_pool` -/
  | threadPool
  /-- demo messages -/
  | direct
  deriving DecidableEq, Repr

/-- A JSON token type. -/
inductive TokenType
  | undefined | object | array | string | primitive
  deriving DecidableEq, Repr

/-- `jsmntok_t`. -/
structure Token where
  type : TokenType
  start : Nat
  stop : Nat
  size : Nat
  deriving DecidableEq, Repr

/-- What does not change while the daemon runs. -/
structure Config where
  mode : Mode
  maxConnections : Nat
  /-- entries of the submission queue -/
  entries : Nat
  writeTimeoutMs : Nat
  benchmarkMode : Bool
  /-- threads of the pool -/
  poolSize : Nat
  /-- descriptor of the pool's eventfd -/
  eventfd : Fd
  /-- `OPENAI_API_KEY` is set -/
  apiKey : Bool
  defaultModel : List UInt8
  /-- `json_parse`, which is `jsmn_parse` with `MAX_JSON_TOKENS` tokens -/
  jsonParse : List UInt8 → Option (List Token)

/-- Where the main loop is, between two of its steps. -/
inductive Pc
  /-- in `ring_wait_cqe` -/
  | wait
  /-- in the loop over the completions -/
  | events
  /-- in `curl_multi_socket_action`; `kick` when `curl_manager_start_request` called it -/
  | curl (kick : Bool)
  /-- in the loop of `curl_manager_check_completions` -/
  | completions
  /-- in the loop of `flush_streaming_connections`; `last` for the one that ends an iteration -/
  | flush (conn prev : Option ConnId) (last : Bool)
  /-- in the loop of `handle_eventfd` -/
  | eventfd
  deriving DecidableEq, Repr

/-- What the model notes about a run, for its theorems to refer to. -/
inductive Event
  /-- a peer's message has arrived for the receive of a slot -/
  | received (conn : ConnId) (m : Message)
  /-- `handoff_parse_data` is called with this text -/
  | parsed (conn : ConnId) (text : List UInt8)
  /-- a linked timeout was refused, and the connection is freed with its write queued -/
  | stranded (conn : ConnId)
  /-- `realloc` moved a buffer with a write in flight -/
  | moved (conn : ConnId)
  /-- `flush_streaming_connections` looks at a write buffer it has freed -/
  | readFreed (conn : ConnId)
  deriving DecidableEq, Repr

/-- `daemon_ctx_t` and the kernel's side of the ring. -/
structure Daemon where
  cfg : Config
  /-- entries the kernel has not read -/
  sq : List Sqe
  /-- entries the kernel works on -/
  inflight : List Sqe
  cq : List Cqe
  connections : ConnId → Connection
  freeList : Option ConnId
  /-- `next_free` -/
  nextFree : ConnId → Option ConnId
  activeConnections : Nat
  peakConnections : Nat
  /-- `dirty_head`, `dirty_tail` and `dirty_next` -/
  dirty : Queue ConnId
  curl : CurlManager
  pool : Pool
  shutdownRequested : Bool
  /-- the main event loop, as opposed to the loop that waits for connections at shutdown -/
  inMainLoop : Bool
  totalStarted : Nat
  totalCompleted : Nat
  totalFailed : Nat
  totalBytes : Nat
  pc : Pc
  /-- how often each slot has been freed -/
  gen : ConnId → Nat
  nextBlock : Block
  trace : List Event

/-! ## The environment -/

/-- What `realloc` does. -/
inductive Realloc
  | failed
  | inPlace
  | moved
  deriving DecidableEq, Repr

/-- A socket type, as `SO_TYPE` reports it. -/
inductive SockType
  | stream | seqpacket | dgram
  deriving DecidableEq, Repr

/-- **The oracle.** Answers by the number of the question, except for `soType`, which is a
property of the descriptor. -/
structure Env where
  /-- how many entries the kernel reads in `io_uring_submit` -/
  consumed : Nat → Nat
  malloc : Nat → Bool
  realloc : Nat → Realloc
  /-- `none` when `getsockopt` fails -/
  soType : Fd → Option SockType
  curlEasyInit : Nat → Bool
  curlMultiAddHandle : Nat → Bool
  /-- the callbacks inside such a call of libcurl -/
  callbacks : Nat → List CurlCallback
  /-- what freed memory reads as: `write_buffer_has_data` and `write_buffer_is_busy` -/
  freed : Nat → Bool × Bool

/-- Code of the main loop. -/
abbrev Loop := Act Env Daemon

/-- Put a connection into its slot. -/
def Daemon.setConn (s : Daemon) (i : ConnId) (c : Connection) : Daemon :=
  { s with connections := Function.update s.connections i c }

/-- The connection of a slot. -/
def connOf (i : ConnId) : Loop Connection := do return (← Act.get).connections i

/-- Change the connection of a slot. -/
def updateConn (i : ConnId) (f : Connection → Connection) : Loop Unit :=
  Act.modify fun s => s.setConn i (f (s.connections i))

/-- `conn_set_state`. -/
def connSetState (i : ConnId) (state : ConnState) : Loop Unit :=
  updateConn i fun c => { c with state := state }

/-- Note an event. -/
def note (e : Event) : Loop Unit := Act.modify fun s => { s with trace := s.trace ++ [e] }

/-- `malloc`. -/
def malloc : Loop (Option Block) :=
  Act.ask fun ω n s =>
    if ω.malloc n then (some s.nextBlock, { s with nextBlock := s.nextBlock + 1 }) else (none, s)

/-- `realloc` of a block. -/
def realloc (b : Block) : Loop (Option Block) :=
  Act.ask fun ω n s =>
    match ω.realloc n with
    | .failed => (none, s)
    | .inPlace => (some b, s)
    | .moved => (some s.nextBlock, { s with nextBlock := s.nextBlock + 1 })

/-- `if (ctx->benchmark_mode) atomic_fetch_add(&ctx->total_failed, 1)`. -/
def countFailed : Loop Unit :=
  Act.modify fun s =>
    if s.cfg.benchmarkMode then { s with totalFailed := s.totalFailed + 1 } else s

/-- The same for `total_completed` and `total_bytes`. -/
def countCompleted (i : ConnId) : Loop Unit :=
  Act.modify fun s =>
    if s.cfg.benchmarkMode then
      { s with
        totalCompleted := s.totalCompleted + 1
        totalBytes := s.totalBytes + (s.connections i).bytesSent }
    else s

end SocketHandoff.Uring
