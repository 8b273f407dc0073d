import SocketHandoff.Lib.Ancillary
import SocketHandoff.Uring.Handoff

/-!
# The descriptors of a connection

What `handle_recv_fd` and `conn_close_fds` do with the descriptors of a connection. Between the two
nothing else of the daemon closes or replaces them, so a connection is followed from its receive to
its end.
-/

namespace SocketHandoff.Uring

/-- `unix_fd` and `client_fd`, and the descriptors that have been closed. -/
structure Descriptors where
  unixFd : Option Fd
  clientFd : Option Fd
  closed : List Fd
  deriving DecidableEq, Repr

/-- `conn_close_fds`. -/
def connCloseFds (d : Descriptors) : Descriptors where
  unixFd := none
  clientFd := none
  closed := d.closed ++ d.unixFd.toList ++ d.clientFd.toList

/-- `handle_recv_fd` with a message, and whether the connection goes on. -/
def recvFd (validateSocket : Fd → Bool) (msg : RecvCtx) (d : Descriptors) : Descriptors × Bool :=
  match handoffExtractFd msg with
  | none => (connCloseFds d, false)
  | some fd =>
    let received : Descriptors :=
      { unixFd := none, clientFd := some fd, closed := d.closed ++ d.unixFd.toList }
    if validateSocket fd then (received, true) else (connCloseFds received, false)

/-- The connection when it is over: `conn_free` closes what is open. -/
def recvFdOver (validateSocket : Fd → Bool) (msg : RecvCtx) (d : Descriptors) : Descriptors :=
  let (d, goesOn) := recvFd validateSocket msg d
  if goesOn then connCloseFds d else d

/-- The message header behind the receive. -/
def RecvCtx.received (rctx : RecvCtx) (p : Ancillary) : RecvCtx :=
  { rctx with
    control := p.control.map .rights
    trunc := p.trunc
    ctrunc := p.ctrunc }

variable {p : Ancillary} {rctx : RecvCtx} {validateSocket : Fd → Bool}

/-- It is the first of all that were received. -/
theorem handoffExtractFd_received : handoffExtractFd (rctx.received p) = p.fds.head? := by
  have hne := p.nonempty
  rw [handoffExtractFd.eq_def, RecvCtx.received, Ancillary.fds]
  cases hcontrol : p.control with
  | nil => rfl
  | cons fds rest =>
    cases fds with
    | nil => exact absurd rfl (hne [] (hcontrol ▸ List.mem_cons_self))
    | cons fd fds => rfl

/-- **What is closed**: the socket of the connection, and the first descriptor. Any others that came
along stay open, for nobody knows of them. -/
theorem closed_recvFdOver (unixFd : Fd) :
    (recvFdOver validateSocket (rctx.received p) ⟨some unixFd, none, []⟩).closed =
      unixFd :: p.fds.head?.toList := by
  rw [recvFdOver, recvFd.eq_def, handoffExtractFd_received]
  cases p.fds.head? with
  | none => rfl
  | some fd =>
    dsimp only
    cases validateSocket fd <;> rfl

/-- All that is received is closed only if it is one descriptor at most. -/
theorem closedOnce_recvFdOver_iff {unixFd : Fd} (hunix : unixFd ∉ p.fds) :
    ClosedOnce p.fds (recvFdOver validateSocket (rctx.received p) ⟨some unixFd, none, []⟩).closed ↔
      p.fds.length ≤ 1 := by
  have hnodup : p.fds.Nodup := p.nodup
  have hothers : ∀ fd ∈ p.fds, fd ∉ [unixFd] := by
    intro fd hfd hmem
    obtain rfl := List.mem_singleton.mp hmem
    exact hunix hfd
  rw [closed_recvFdOver, ← List.singleton_append, closedOnce_append_left hothers]
  cases hfds : p.fds with
  | nil => simp [closedOnce_nil_iff]
  | cons fd rest =>
    rw [hfds] at hnodup
    simp [closedOnce_singleton_iff hnodup]

end SocketHandoff.Uring
