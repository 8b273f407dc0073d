import SocketHandoff.Uring.Context

/-!
# The ring

The functions of `ring.c` that fill submission entries, and what the kernel does with them. The
kernel reads entries when it is told to submit (or by itself, with `SQPOLL`), works on what it
has read in any order and posts completions.

An entry that follows a write and carries a timeout belongs to that write: the kernel takes up
the two together, and the timeout ends with the write.
-/

namespace SocketHandoff.Uring

/-! ## Submission entries -/

/-- The kernel reads the first `k` entries of the submission queue. -/
def Daemon.submit (s : Daemon) (k : Nat) : Daemon :=
  { s with
    sq := s.sq.drop k
    inflight := s.inflight ++ s.sq.take k }

/-- `io_uring_submit`; what it does not get to stays in the queue. -/
def ioUringSubmit : Loop Unit := Act.ask fun ω n s => ((), s.submit (ω.consumed n))

/-- Whether `io_uring_get_sqe` finds an entry. -/
def ioUringGetSqe : Loop Bool := do
  let s ← Act.get
  return s.sq.length < s.cfg.entries

/-- `ring_get_sqe_flush`. -/
def ringGetSqeFlush : Loop Bool := do
  if ← ioUringGetSqe then
    return true
  else
    ioUringSubmit
    ioUringGetSqe

/-- Append an entry to the submission queue. -/
def Daemon.queue (s : Daemon) (r : Sqe) : Daemon := { s with sq := s.sq ++ [r] }

/-- Get an entry and fill it; `false` stands for `-EAGAIN`. -/
def fillSqe (getSqe : Loop Bool) (r : Sqe) : Loop Bool := do
  if ← getSqe then
    Act.modify fun s => s.queue r
    return true
  else
    return false

/-- `ring_submit_accept`. -/
def ringSubmitAccept : Loop Bool := fillSqe ioUringGetSqe ⟨.accept, 0, 0⟩

/-- `ring_submit_recvmsg` with the message header of the slot. -/
def ringSubmitRecvmsg (i : ConnId) : Loop Bool := do
  let s ← Act.get
  let c := s.connections i
  fillSqe ringGetSqeFlush ⟨.recvmsg c.unixFd c.recv.iovBase c.recv.iovLen, i, s.gen i⟩

/-- `ring_submit_write`. -/
def ringSubmitWrite (i : ConnId) (buf : Buf) (len : Nat) : Loop Bool := do
  let s ← Act.get
  fillSqe ringGetSqeFlush ⟨.write (s.connections i).clientFd buf len, i, s.gen i⟩

/-- `ring_submit_linked_timeout`. It does not flush: the timeout must follow its write. -/
def ringSubmitLinkedTimeout (i : ConnId) : Loop Bool := do
  let s ← Act.get
  fillSqe ioUringGetSqe ⟨.linkTimeout s.cfg.writeTimeoutMs, i, s.gen i⟩

/-- `ring_submit_eventfd_read`. -/
def ringSubmitEventfdRead : Loop Bool := do
  let s ← Act.get
  fillSqe ringGetSqeFlush ⟨.readEventfd s.cfg.eventfd, 0, 0⟩

/-- `ring_submit_poll_add`. -/
def ringSubmitPollAdd (sockfd : Fd) (mask : Nat) : Loop Bool :=
  fillSqe ringGetSqeFlush ⟨.pollAdd sockfd mask, sockfd, 0⟩

/-- `ring_submit_poll_cancel`. -/
def ringSubmitPollCancel (sockfd : Fd) : Loop Bool :=
  fillSqe ringGetSqeFlush ⟨.cancelFd sockfd, sockfd, 0⟩

/-- `ring_submit_curl_timeout`. -/
def ringSubmitCurlTimeout (timeoutMs timerId : Nat) : Loop Bool :=
  fillSqe ringGetSqeFlush ⟨.timeout timeoutMs, timerId, 0⟩

/-- `ring_cancel_curl_timeout`. -/
def ringCancelCurlTimeout (timerId : Nat) : Loop Bool :=
  fillSqe ringGetSqeFlush ⟨.timeoutRemove, timerId, 0⟩

/-- `ring_submit`. -/
def ringSubmit : Loop Unit := ioUringSubmit

/-! ## The kernel -/

/-- The completion of an entry. -/
def Sqe.cqe (r : Sqe) (res : Int) (more : Bool) : Cqe :=
  ⟨r.request.op, r.connId, res, more, r.gen⟩

/-- Whether `t` is the timeout of the write `w`. -/
def Sqe.isTimeoutOf (w t : Sqe) : Bool :=
  match t.request with
  | .linkTimeout _ => t.connId = w.connId ∧ t.gen = w.gen
  | _ => false

/-- Descriptors that fit a control buffer of so many bytes: a header of 16 bytes, then four for
each. -/
def controlFdRoom (controlLen : Nat) : Nat := (controlLen - 16) / 4

/-- The kernel writes a message into the buffer and the message header of a slot. -/
def Connection.receive (c : Connection) (got : Received) : Connection :=
  { c with
    handoffBytes := got.data ++ c.handoffBytes.drop got.data.length
    recv :=
      { c.recv with
        control := if got.rights = [] then [] else [.rights got.rights]
        trunc := got.trunc
        ctrunc := got.ctrunc } }

/-- An entry is done: it leaves the kernel and its completion is posted. -/
def Daemon.finish (s : Daemon) (r : Sqe) (res : Int) : Daemon :=
  { s with
    inflight := s.inflight.erase r
    cq := s.cq ++ [r.cqe res false] }

/-- A write is done, and with it its timeout. -/
def Daemon.finishWrite (s : Daemon) (w : Sqe) (res : Int) : Daemon :=
  { s with
    inflight := (s.inflight.erase w).filter fun t => !w.isTimeoutOf t
    cq := s.cq ++ w.cqe res false ::
      (s.inflight.filter w.isTimeoutOf).map fun t => t.cqe (-125) false }

/-- A message arrives for a receive. -/
def Daemon.deliver (s : Daemon) (r : Sqe) (iovLen : Nat) (m : Message) : Daemon :=
  let c := s.connections r.connId
  let got := m.recv iovLen (controlFdRoom c.recv.controlLen)
  { (s.setConn r.connId (c.receive got)).finish r got.data.length with
    trace := s.trace ++ [.received r.connId m] }

/-- What the kernel may do. -/
inductive KernelMove
  /-- the polling thread reads entries -/
  | read (k : Nat)
  /-- a message arrives for a receive -/
  | deliver (r : Sqe) (m : Message)
  /-- an entry posts a completion; with `more` a multishot entry stays -/
  | complete (r : Sqe) (res : Int) (more : Bool)
  deriving DecidableEq, Repr

/-- Complete an entry the kernel has in hand. A multishot entry stays if the kernel says there is
more. A receive succeeds only by a message (`deliver`), and a write is completed together with the
timeout that is linked to it. -/
def Daemon.complete (s : Daemon) (r : Sqe) (res : Int) (more : Bool) : Option Daemon :=
  match r.request with
  | .accept | .pollAdd .. =>
    some (if more then { s with cq := s.cq ++ [r.cqe res true] } else s.finish r res)
  | .recvmsg .. => if res < 0 then some (s.finish r res) else none
  | .write _ _ len =>
    -- the kernel has not read the timeout of this write: it does not have the write in hand yet
    if len < res ∨ s.sq.any r.isTimeoutOf then none else some (s.finishWrite r res)
  | .readEventfd _ =>
    if res < 0 then some (s.finish r res)
    else if s.pool.signals = 0 then none
    else some ({ s with pool := { s.pool with signals := 0 } }.finish r res)
  | .linkTimeout _ | .cancelFd _ | .timeout _ | .timeoutRemove => some (s.finish r res)

/-- A step of the kernel. -/
def kernelStep (s : Daemon) : KernelMove → Option Daemon
  | .read k => some (s.submit k)
  | .deliver r m =>
    match r.request with
    | .recvmsg _ _ iovLen => if r ∈ s.inflight then some (s.deliver r iovLen m) else none
    | _ => none
  | .complete r res more => if r ∈ s.inflight then s.complete r res more else none

end SocketHandoff.Uring
