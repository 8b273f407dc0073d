import SocketHandoff.Uring.CurlManager
import SocketHandoff.Uring.Handoff
import SocketHandoff.Lib.System

/-!
# The daemon

The handlers of `daemon.c`, its main loop and the worker threads of `pool.c`, as a system that
takes one step at a time. A handler runs as a whole, since the daemon has one thread for them;
the loops inside a handler (the callbacks of libcurl, its messages, the dirty list, the finished
connections of the pool) are steps of their own, between which only the kernel, the workers and
signals can move.
-/

namespace SocketHandoff.Uring

/-! ## Cleaning up and writing -/

/-- Cancel the curl request of a connection, if it has one. -/
def cancelActiveRequest (i : ConnId) : Loop Unit := do
  let s ← Act.get
  if s.cfg.mode = .curlMulti ∧ (s.connections i).curlEasy.isSome then
    curlManagerCancelRequest i
  else return ()

/-- `cleanup_connection`. -/
def cleanupConnection (i : ConnId) : Loop Unit := do
  cancelActiveRequest i
  daemonUnmarkConnectionDirty i
  connFree i

/-- Count a failure and clean up. -/
def failConnection (i : ConnId) : Loop Unit := do
  countFailed
  cleanupConnection i

/-- Submit a write with its timeout, and clean up when one of them finds no entry. The write that
found one stays in the queue when the timeout does not. -/
def submitOrCleanup (i : ConnId) (buf : Buf) (len : Nat) (refused : Loop Unit) : Loop Bool := do
  if ← ringSubmitWrite i buf len then
    if ← ringSubmitLinkedTimeout i then return true
    else
      countFailed
      note (.stranded i)
      cleanupConnection i
      return false
  else
    refused
    cleanupConnection i
    return false

/-- `start_streaming`. -/
def startStreaming (i : ConnId) : Loop Unit := do
  updateConn i fun c => { c with writeLen := sseHeaders.length, writeOffset := 0 }
  let _ ← submitOrCleanup i .static sseHeaders.length countFailed

/-- `start_async_write`: one write in flight at a time, of all that the buffer holds. That a write
is pending is marked behind the submission, unless that has cleaned the connection up. -/
def startAsyncWrite (i : ConnId) : Loop Unit := do
  match (← connOf i).asyncWriteBuf with
  | none => return ()
  | some wb =>
    if wb.hasData ∧ ¬ wb.writePending then
      if ← submitOrCleanup i (.block wb.buffer wb.tail) wb.size countFailed then
        updateConn i fun c => { c with asyncWriteBuf := some (wb.setPending true) }
        ringSubmit
      else return ()
    else return ()

/-! ## Accepting -/

/-- Submit the accept again, at most so many times. -/
def retryAccept : Nat → Loop Unit
  | 0 => return ()
  | n + 1 => do
    if ← ringSubmitAccept then return () else retryAccept n

/-- Count a connection that was accepted. -/
def countStarted : Loop Unit :=
  Act.modify fun s =>
    if s.cfg.benchmarkMode then { s with totalStarted := s.totalStarted + 1 } else s

/-- `handle_accept` with a new connection. -/
def acceptConnection (fd : Fd) : Loop Unit := do
  match ← connAlloc with
  | none => return ()
  | some i =>
    updateConn i fun c => { c with unixFd := some fd, state := .receivingFd }
    countStarted
    updateConn i fun c =>
      { c with recv := handoffPrepareMsghdr c.handoffBuf c.handoffCap controlMsgSize }
    if ← ringSubmitRecvmsg i then return () else cleanupConnection i

/-- Submit the accept again when it has come to its end. -/
def rearmAccept (more : Bool) : Loop Unit := do
  if more ∨ (← Act.get).shutdownRequested then return () else retryAccept 4

/-- `handle_accept`. -/
def handleAccept (res : Int) (more : Bool) : Loop Unit := do
  rearmAccept more
  if res < 0 then return () else acceptConnection res.toNat

/-! ## Receiving the descriptor -/

/-- Move to another step of the main loop. -/
def goto (pc : Pc) : Loop Unit := Act.modify fun s => { s with pc := pc }

/-- Change the pool. -/
def Daemon.setPool (s : Daemon) (pool : Pool) : Daemon := { s with pool := pool }

/-- `pool_submit`. -/
def poolSubmit (i : ConnId) : Loop Bool := do
  match ← malloc with
  | none => return false
  | some _ =>
    Act.modify fun s => s.setPool { s.pool with queue := s.pool.queue ++ [i] }
    return true

/-- The end of `handle_recv_fd`: hand the connection on, to libcurl, to the threads of the pool, or
to the messages of the daemon itself. Each of the three may refuse it, and then the connection is
counted as failed. -/
def startResponse (i : ConnId) : Loop Unit := do
  match (← Act.get).cfg.mode with
  | .curlMulti =>
    if ← curlManagerStartRequest i then goto (.curl true) else failConnection i
  | .threadPool =>
    connSetState i .llmQueued
    if ← poolSubmit i then return () else failConnection i
  | .direct =>
    updateConn i fun c => streamStart { c with state := .streaming }
    startStreaming i

/-- The part of `handle_recv_fd` that parses. -/
def parseHandoff (i : ConnId) : Loop Unit := do
  let s ← Act.get
  let c := s.connections i
  note (.parsed i (c.handoffBytes.take c.handoffLen))
  let (data, bytes) := handoffParseData s.cfg.jsonParse c.handoffBytes c.handoffLen
  updateConn i fun c => { c with state := .parsing, data := data, handoffBytes := bytes }

/-- `handle_recv_fd`. The length is what the completion says; that the message was cut is only in
the flags of the header, which are not looked at here. A descriptor that is no socket ends the
connection. -/
def handleRecvFd (i : ConnId) (res : Int) : Loop Unit := do
  if res < 0 then failConnection i
  else
    updateConn i fun c => { c with handoffLen := res.toNat }
    match handoffExtractFd (← connOf i).recv with
    | none => failConnection i
    | some fd =>
      updateConn i fun c => { c with clientFd := some fd, unixFd := none }
      if ← Act.ask fun ω _ s => (handoffValidateSocket ω fd, s) then
        parseHandoff i
        startResponse i
      else failConnection i

/-! ## Write completions -/

/-- `handle_async_write`: what was written leaves the buffer, and the write is no longer pending
before the next one is submitted. A connection that is closing ends when its buffer is empty. -/
def handleAsyncWrite (i : ConnId) (res : Int) : Loop Unit := do
  if res < 0 then failConnection i
  else
    updateConn i fun c =>
      { c with
        bytesSent := c.bytesSent + res.toNat
        asyncWriteBuf := c.asyncWriteBuf.map fun wb => (wb.consume res.toNat).setPending false }
    let c ← connOf i
    if c.asyncWriteBuf.any (·.hasData) then startAsyncWrite i
    else if c.state = .closing then
      countCompleted i
      cleanupConnection i
    else return ()

/-- The part of `handle_write` that sends the next message or the `[DONE]` marker. -/
def nextWrite (i : ConnId) : Loop Unit := do
  let (msg, moved) := streamNextMessage (← connOf i)
  updateConn i fun _ => moved
  match msg with
  | none =>
    updateConn i fun c =>
      { c with state := .closing, writeLen := sseDone.length, writeOffset := 0 }
    let _ ← submitOrCleanup i .static sseDone.length (countCompleted i)
  | some msg =>
    match ← malloc with
    | none => failConnection i
    | some block =>
      match streamFormatSse 4096 msg with
      | none => failConnection i
      | some frame =>
        updateConn i fun c =>
          { c with writeBuf := some (block, frame), writeLen := frame.length, writeOffset := 0 }
        let _ ← submitOrCleanup i (.block block 0) frame.length countFailed

/-- `handle_write`: a short write is continued where it ended, and a whole one is followed by the
next message. The headers and the marker have no buffer, so that a short write of these ends the
connection. -/
def handleWrite (i : ConnId) (res : Int) : Loop Unit := do
  if res < 0 then failConnection i
  else
    updateConn i fun c =>
      { c with
        bytesSent := c.bytesSent + res.toNat
        writeOffset := c.writeOffset + res.toNat }
    let c ← connOf i
    if c.writeOffset < c.writeLen then
      match c.writeBuf with
      | none => failConnection i
      | some (block, _) =>
        let _ ← submitOrCleanup i (.block block c.writeOffset) (c.writeLen - c.writeOffset)
          countFailed
    else
      updateConn i fun c => { c with writeLen := 0, writeOffset := 0, writeBuf := none }
      if c.state = .closing then
        countCompleted i
        cleanupConnection i
      else nextWrite i

/-! ## Completions -/

/-- `OP_RECV_FD` in `process_cqe`. -/
def processRecvFd (id : Nat) (res : Int) : Loop Unit := do
  match ← connGet id with
  | none => return ()
  | some i =>
    if (← connOf i).state = .receivingFd then handleRecvFd i res else return ()

/-- `OP_WRITE` in `process_cqe`. Which of the two handlers it is depends on the buffer the
connection has at that time and not on the write that was submitted; a connection in another state
ignores the completion. -/
def processWrite (id : Nat) (res : Int) : Loop Unit := do
  match ← connGet id with
  | none => return ()
  | some i =>
    let c ← connOf i
    if c.asyncWriteBuf.isSome then
      if c.state = .streaming ∨ c.state = .curlActive ∨ c.state = .closing then
        handleAsyncWrite i res
      else return ()
    else if c.state = .streaming ∨ c.state = .closing then handleWrite i res
    else return ()

/-- `process_cqe`, up to the loops that are steps of their own. -/
def processCqe (cqe : Cqe) : Loop Unit := do
  let curlMulti := (← Act.get).cfg.mode = .curlMulti
  match cqe.op with
  | .accept => handleAccept cqe.res cqe.more
  | .recvFd => processRecvFd cqe.connId cqe.res
  | .write => processWrite cqe.connId cqe.res
  | .timeout | .cancel | .pollCancel => return ()
  | .eventfd =>
    Act.modify fun s => s.setPool { s.pool with signals := 0 }
    goto .eventfd
  | .curlPoll => if curlMulti then goto (.curl false) else return ()
  | .curlTimeout =>
    if curlMulti then
      Act.modify fun s => { s with curl := { s.curl with timerActive := false } }
      goto (.curl false)
    else return ()

/-! ## Loops that are steps of their own -/

/-- The connection `handle_eventfd` has fetched from the pool. -/
def handleCompletion (i : ConnId) : Loop Unit := do
  match (← connOf i).state with
  | .streaming => startStreaming i
  | .streamed =>
    countCompleted i
    cleanupConnection i
  | .closing => failConnection i
  | _ => return ()

/-- The end of `handle_eventfd`: read the eventfd again. -/
def rearmEventfd : Loop Unit := do
  let s ← Act.get
  if s.cfg.mode = .threadPool ∧ ¬ s.shutdownRequested then
    let _ ← ringSubmitEventfdRead
    goto .events
  else goto .events

/-- What `flush_streaming_connections` reads of the write buffer it has looked at before: the
buffer may have been freed in between. -/
def rereadWriteBuf (i : ConnId) : Loop (Bool × Bool) := do
  match (← connOf i).asyncWriteBuf with
  | some wb => return (wb.hasData, wb.writePending)
  | none =>
    note (.readFreed i)
    Act.ask fun ω n s => (ω.freed n, s)

/-- `flush_streaming_connections` for one connection of the dirty list. The next link is read before
the connection is flushed. What is read afterwards, whether it still has data, may be read of a
buffer that the flush has freed (`rereadWriteBuf`). -/
def flushConnection (i : ConnId) (prev : Option ConnId) (last : Bool) : Loop Unit := do
  let s ← Act.get
  let next := s.dirty.next i
  let c := s.connections i
  if c.state = .streaming ∨ c.state = .curlActive ∨ c.state = .closing then
    match c.asyncWriteBuf with
    | none => goto (.flush next (some i) last)
    | some _ =>
      startAsyncWrite i
      let (hasData, busy) ← rereadWriteBuf i
      if ¬ hasData ∧ ¬ busy then
        unlinkDirty prev i next
        goto (.flush next prev last)
      else goto (.flush next (some i) last)
  else
    unlinkDirty prev i next
    goto (.flush next prev last)

/-- The end of an iteration of the main loop, or of the loop at shutdown. -/
def endIteration : Loop Unit := do
  ringSubmit
  Act.modify fun s =>
    { s with
      pc := .wait
      inMainLoop := s.inMainLoop && !s.shutdownRequested }

/-! ## Worker threads -/

/-- What the worker threads may do; `k` is a position in the list of those at work. -/
inductive WorkerMove
  /-- take a connection from the queue -/
  | take
  /-- `backend_process` returns, having counted what it sent itself -/
  | process (k : Nat) (result : Int) (bytesSent : Nat)
  /-- `pool_add_completion` stores the connection -/
  | complete (k : Nat)
  /-- the eventfd is written -/
  | signal (k : Nat)
  deriving DecidableEq, Repr

/-- The state a worker leaves the connection in. -/
def resultState (result : Int) : ConnState :=
  if result = 0 then .streaming else if 0 < result then .streamed else .closing

/-- A step of a worker thread. The ring of completions holds one connection less than it has
places. -/
def workerStep (s : Daemon) : WorkerMove → Option Daemon
  | .take =>
    match s.pool.queue with
    | i :: rest =>
      if s.pool.working.length < s.cfg.poolSize then
        some (s.setPool
          { s.pool with queue := rest, working := s.pool.working ++ [(i, .processing)] })
      else none
    | [] => none
  | .process k result bytesSent =>
    match s.pool.working[k]? with
    | some (i, .processing) =>
      let c := s.connections i
      some ((s.setConn i
        { c with
          state := resultState result
          bytesSent := if result = 0 then c.bytesSent else bytesSent
          streamIndex := if result = 0 then 0 else c.streamIndex
          useLlmResponse := false }).setPool
        { s.pool with working := s.pool.working.set k (i, .processed) })
    | _ => none
  | .complete k =>
    match s.pool.working[k]? with
    | some (i, .processed) =>
      if s.pool.completions.length + 1 < s.cfg.maxConnections then
        some (s.setPool
          { s.pool with
            working := s.pool.working.set k (i, .completed)
            completions := s.pool.completions ++ [i] })
      else none
    | _ => none
  | .signal k =>
    match s.pool.working[k]? with
    | some (_, .completed) =>
      some (s.setPool
        { s.pool with
          working := s.pool.working.eraseIdx k
          signals := s.pool.signals + 1 })
    | _ => none

/-! ## The system -/

/-- Who moves, and how the environment answers. -/
inductive Label
  | kernel (move : KernelMove)
  | worker (move : WorkerMove)
  /-- SIGINT or SIGTERM -/
  | signal
  /-- `ring_wait_cqe` finds a completion -/
  | woken
  /-- `ring_wait_cqe` times out or is interrupted; with `failed` it returns another error -/
  | noEvent (failed : Bool)
  /-- the next completion is processed -/
  | event (ω : Env)
  /-- no completion is left -/
  | eventsDone (ω : Env)
  /-- libcurl calls `write_callback` -/
  | curlWrite (easy : Easy) (chunk : List UInt8) (ω : Env)
  /-- libcurl calls `socket_callback` or `timer_callback` -/
  | curlCall (callback : CurlCallback) (ω : Env)
  /-- a transfer comes to its end -/
  | curlFinish (easy : Easy) (done : Finished)
  /-- `curl_multi_socket_action` returns -/
  | curlReturn
  /-- `curl_multi_info_read` returns the message of a handle -/
  | message (easy : Easy) (ω : Env)
  /-- it returns `NULL` -/
  | noMessage
  /-- the next connection of the dirty list -/
  | flushNext (ω : Env)
  | flushEnd (ω : Env)
  /-- the next connection the pool has completed -/
  | completion (ω : Env)
  | completionsDone (ω : Env)

/-- Run code of the main loop as one step. -/
def Daemon.exec (s : Daemon) (code : Loop Unit) (ω : Env) : Daemon := code.final ω s

/-- Take a completion off the completion queue. -/
def popCqe (rest : List Cqe) : Loop Unit := Act.modify fun s => { s with cq := rest }

/-- `write_callback` for a handle; libcurl aborts the transfer when it returns less than it was
given, which it cannot when it was given nothing. -/
def curlDeliver (req : CurlRequest) (chunk : List UInt8) : Loop Unit := do
  if ← writeCallback req chunk then return ()
  else if chunk = [] then return ()
  else
    Act.modify fun s => s.updateRequest req.easy fun req => { req with aborted := true }

/-- A step inside `curl_multi_socket_action`. libcurl calls back in any order and as often as it
likes, but not for a handle it has given up or finished; the daemon knows of no more than that. -/
def curlStep (s : Daemon) (kick : Bool) : Label → Option Daemon
  | .curlWrite easy chunk ω =>
    match s.curl.request? easy with
    | some req =>
      if req.aborted ∨ req.finished.isSome then none else some (s.exec (curlDeliver req chunk) ω)
    | none => none
  | .curlCall callback ω => some (s.exec (runCallbacks [callback]) ω)
  | .curlFinish easy done =>
    match s.curl.request? easy with
    | some req =>
      if req.finished.isSome ∨ (req.aborted ∧ done.result = 0) then none
      else some (s.updateRequest easy fun req => { req with finished := some done })
    | none => none
  | .curlReturn => some { s with pc := if kick then .events else .completions }
  | _ => none

/-- A step of the main loop. The thread is at one place at a time (`Pc`); a loop that handles one
thing after another is a place of its own, so that the kernel and the workers may move in between.
-/
def loopStep (s : Daemon) (label : Label) : Option Daemon :=
  match s.pc, label with
  | .wait, .woken => if s.cq = [] then none else some { s with pc := .events }
  | .wait, .noEvent failed =>
    some { s with inMainLoop := s.inMainLoop && !s.shutdownRequested && !failed }
  | .events, .event ω =>
    match s.cq with
    | cqe :: rest =>
      some (s.exec (do
        popCqe rest
        processCqe cqe) ω)
    | [] => none
  | .events, .eventsDone ω =>
    if s.cq ≠ [] then none
    else if s.cfg.mode = .curlMulti ∧ s.inMainLoop then
      some { s with pc := .flush s.dirty.head none true }
    else some (s.exec endIteration ω)
  | .curl kick, label => curlStep s kick label
  | .completions, .message easy ω =>
    match s.curl.request? easy with
    | some req =>
      match req.finished with
      | some done => some (s.exec (checkCompletion req done) ω)
      | none => none
    | none => none
  | .completions, .noMessage =>
    if s.curl.requests.any (·.finished.isSome) then none
    else some { s with pc := .flush s.dirty.head none false }
  | .flush (some i) prev last, .flushNext ω => some (s.exec (flushConnection i prev last) ω)
  | .flush none _ last, .flushEnd ω =>
    if last then some (s.exec endIteration ω) else some { s with pc := .events }
  | .eventfd, .completion ω =>
    match s.pool.completions with
    | i :: rest =>
      some ((s.setPool { s.pool with completions := rest }).exec (handleCompletion i) ω)
    | [] => none
  | .eventfd, .completionsDone ω =>
    if s.pool.completions = [] then some (s.exec rearmEventfd ω) else none
  | _, _ => none

/-- One step of the daemon and its surroundings. -/
def step (s : Daemon) : Label → Option Daemon
  | .kernel move => kernelStep s move
  | .worker move => workerStep s move
  | .signal => some { s with shutdownRequested := true }
  | label => loopStep s label

/-- The daemon when `daemon_run` has queued its first entries: the accept, and the read of the
eventfd where there are threads. All slots are free and nothing is allocated. -/
def Daemon.boot (cfg : Config) : Daemon where
  cfg := cfg
  sq := ⟨.accept, 0, 0⟩ :: if cfg.mode = .threadPool then [⟨.readEventfd cfg.eventfd, 0, 0⟩] else []
  inflight := []
  cq := []
  connections := fun _ => .initial
  freeList := if 0 < cfg.maxConnections then some 0 else none
  nextFree := freeLink cfg.maxConnections
  activeConnections := 0
  peakConnections := 0
  dirty := .empty
  curl :=
    { requests := []
      nextEasy := 0
      sockets := fun _ => ⟨0, false⟩
      socketsCapacity := 256
      timerId := 0
      timerActive := false }
  pool := ⟨[], [], [], 0⟩
  shutdownRequested := false
  inMainLoop := true
  totalStarted := 0
  totalCompleted := 0
  totalFailed := 0
  totalBytes := 0
  pc := .wait
  gen := fun _ => 0
  nextBlock := 0
  trace := []

/-- The daemon as a system. It starts to wait when it has submitted its first entries. -/
def system (cfg : Config) : System Daemon Label where
  init s := ∃ k, s = (Daemon.boot cfg).submit k
  step := step

end SocketHandoff.Uring
