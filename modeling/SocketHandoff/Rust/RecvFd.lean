import SocketHandoff.Lib.Ancillary
import SocketHandoff.Uring.RecvFd

/-!
# The descriptors that the Rust daemon receives

`receive_fd_blocking`, with the descriptors that are closed when an `OwnedFd` is dropped. What the
iterator of the `nix` crate gives is a parameter. At the end, the receivers of both daemons are
compared with what they should do.
-/

namespace SocketHandoff.Rust

/-- A control message as `nix` gives it. -/
inductive ControlMessageOwned
  | scmRights (fds : List Nat)
  | other
  deriving DecidableEq, Repr

/-- What `recvmsg` of `nix` returns, without the data. -/
structure RecvMsg where
  control : List ControlMessageOwned
  trunc : Bool
  ctrunc : Bool
  deriving DecidableEq, Repr

/-- The errors behind the receive. -/
inductive ReceiveError
  | dataTruncated
  | controlMessageTruncated
  | noFileDescriptor
  | invalidSocketType
  deriving DecidableEq, Repr

/-- `received_fd`, and the descriptors that have been closed. -/
structure Owned where
  receivedFd : Option Nat
  closed : List Nat
  deriving DecidableEq, Repr

/-- The loop over the control messages. A descriptor that is replaced is dropped. -/
def takeRights : Owned → List ControlMessageOwned → Owned
  | o, [] => o
  | o, .scmRights (fd :: _) :: rest =>
    takeRights { receivedFd := some fd, closed := o.closed ++ o.receivedFd.toList } rest
  | o, .scmRights [] :: rest => takeRights o rest
  | o, .other :: rest => takeRights o rest

variable (cmsgs : RecvMsg → Option (List ControlMessageOwned)) (validateSocket : Nat → Bool)

/-- `received_fd` behind the loop, which is left out where the iterator is an error. -/
def extractFd (msg : RecvMsg) : Owned :=
  match cmsgs msg with
  | some control => takeRights ⟨none, []⟩ control
  | none => ⟨none, []⟩

/-- The rest of `receive_fd_blocking`: its result, and what it has closed by then. -/
def checkFd (msg : RecvMsg) (o : Owned) : Except ReceiveError Nat × List Nat :=
  if msg.trunc then (.error .dataTruncated, o.closed ++ o.receivedFd.toList)
  else if msg.ctrunc then (.error .controlMessageTruncated, o.closed ++ o.receivedFd.toList)
  else
    match o.receivedFd with
    | none => (.error .noFileDescriptor, o.closed)
    | some clientFd =>
      if validateSocket clientFd then (.ok clientFd, o.closed)
      else (.error .invalidSocketType, o.closed ++ [clientFd])

/-- `receive_fd_blocking` from `recvmsg` on. -/
def receiveFdBlocking (msg : RecvMsg) : Except ReceiveError Nat × List Nat :=
  checkFd validateSocket msg (extractFd cmsgs msg)

/-- The descriptors that are closed when the connection is over: its stream owns `client_fd`. -/
def closedOver : Except ReceiveError Nat × List Nat → List Nat
  | (.ok clientFd, closed) => closed ++ [clientFd]
  | (.error _, closed) => closed

/-- The messages of the control buffer. -/
def RecvMsg.received (p : Ancillary) : RecvMsg where
  control := p.control.map .scmRights
  trunc := p.trunc
  ctrunc := p.ctrunc

variable {cmsgs validateSocket} {p : Ancillary} {msg : RecvMsg}

/-- Whatever the result is, what has been taken is closed in the end. -/
theorem closedOver_checkFd (msg : RecvMsg) (o : Owned) :
    closedOver (checkFd validateSocket msg o) = o.closed ++ o.receivedFd.toList := by
  rw [checkFd.eq_def]
  by_cases htrunc : msg.trunc = true
  · rw [if_pos htrunc, closedOver]
  rw [if_neg htrunc]
  by_cases hctrunc : msg.ctrunc = true
  · rw [if_pos hctrunc, closedOver]
  rw [if_neg hctrunc]
  cases o.receivedFd with
  | none => simp [closedOver]
  | some clientFd =>
    by_cases hvalid : validateSocket clientFd = true
    · simp [hvalid, closedOver]
    · simp [hvalid, closedOver]

/-- A control buffer for one descriptor has room for one message, with two. -/
theorem control_of_fits (h : p.Fits (cmsgSpace 4)) : p.control = [] ∨ ∃ fds, p.control = [fds] := by
  have hne := p.nonempty
  rw [Ancillary.Fits] at h
  match hcontrol : p.control with
  | [] => exact .inl rfl
  | [fds] => exact .inr ⟨fds, rfl⟩
  | fds :: fds' :: rest =>
    rw [hcontrol] at h hne
    simp only [List.map_cons, List.sum_cons, cmsgSpace] at h
    omega

/-- One message: its first descriptor is taken. -/
theorem takeRights_one (fds : List Nat) :
    takeRights ⟨none, []⟩ [.scmRights fds] = ⟨fds.head?, []⟩ := by
  cases fds <;> rfl

/-- **What is closed** of a buffer for one descriptor: the first one, if nothing was cut off. -/
theorem closedOver_receive (hcmsgs : ∀ msg, cmsgs msg = if msg.ctrunc then none else some msg.control)
    (h : p.Fits (cmsgSpace 4)) :
    closedOver (receiveFdBlocking cmsgs validateSocket (.received p)) =
      if p.ctrunc then [] else p.fds.head?.toList := by
  have hctrunc : (RecvMsg.received p).ctrunc = p.ctrunc := rfl
  rw [receiveFdBlocking, closedOver_checkFd, extractFd.eq_def, hcmsgs, hctrunc]
  by_cases hc : p.ctrunc = true
  · rw [if_pos hc, if_pos hc]
    rfl
  rw [if_neg hc, if_neg hc, Ancillary.fds, RecvMsg.received]
  rcases control_of_fits h with hcontrol | ⟨fds, hcontrol⟩
  · rw [hcontrol]
    rfl
  · rw [hcontrol, List.map_singleton]
    dsimp only
    rw [takeRights_one, List.flatten_singleton, List.nil_append]

/-- All that is received is closed only if it is one descriptor at most, and nothing was cut off. -/
theorem closedOnce_receive_iff
    (hcmsgs : ∀ msg, cmsgs msg = if msg.ctrunc then none else some msg.control)
    (h : p.Fits (cmsgSpace 4)) :
    ClosedOnce p.fds (closedOver (receiveFdBlocking cmsgs validateSocket (.received p))) ↔
      p.fds.length ≤ 1 ∧ (p.ctrunc = true → p.fds = []) := by
  have hnodup : p.fds.Nodup := p.nodup
  rw [closedOver_receive hcmsgs h]
  by_cases hc : p.ctrunc = true
  · rw [if_pos hc, closedOnce_nil_iff]
    constructor
    · intro hnil
      exact ⟨by simp [hnil], fun _ => hnil⟩
    · exact fun ⟨_, hnil⟩ => hnil hc
  rw [if_neg hc]
  cases hfds : p.fds with
  | nil => simp [closedOnce_nil_iff]
  | cons fd rest =>
    rw [hfds] at hnodup
    simp [closedOnce_singleton_iff hnodup, hc]

/-! ## Both receivers -/

/-- Every descriptor that comes with a message is closed once by the time the connection is over, in
the io_uring daemon and in the Rust daemon, each with the control buffer that it has. -/
def Conserved (cmsgs : RecvMsg → Option (List ControlMessageOwned)) (validateSocket : Nat → Bool)
    (rctx : Uring.RecvCtx) (unixFd : Nat) (p : Ancillary) : Prop :=
  (p.Fits Uring.controlMsgSize → ClosedOnce p.fds
    (Uring.recvFdOver validateSocket (rctx.received p) ⟨some unixFd, none, []⟩).closed) ∧
  (p.Fits (cmsgSpace 4) → ClosedOnce p.fds
    (closedOver (receiveFdBlocking cmsgs validateSocket (.received p))))

/-- **Which descriptors are conserved**: those of a message with one at most, and by the Rust daemon
only if none is left behind in control data that was cut. The buffers have room for more than one,
since the kernel pads them, and only the first one is taken or closed. -/
theorem conserved_iff
    (hcmsgs : ∀ msg, cmsgs msg = if msg.ctrunc then none else some msg.control)
    (rctx : Uring.RecvCtx) {unixFd : Nat} (hunix : unixFd ∉ p.fds) :
    Conserved cmsgs validateSocket rctx unixFd p ↔
      (p.Fits Uring.controlMsgSize → p.fds.length ≤ 1) ∧
        (p.Fits (cmsgSpace 4) → p.fds.length ≤ 1 ∧ (p.ctrunc = true → p.fds = [])) := by
  refine and_congr (imp_congr_right fun _ => ?_) (imp_congr_right fun h => ?_)
  · exact Uring.closedOnce_recvFdOver_iff hunix
  · exact closedOnce_receive_iff hcmsgs h

/-- The iterator of `nix`. -/
def nixCmsgs (msg : RecvMsg) : Option (List ControlMessageOwned) :=
  if msg.ctrunc then none else some msg.control

/-- One descriptor is closed by both. -/
theorem conserved_iff_one :
    Conserved nixCmsgs (fun _ => true) Uring.Connection.initial.recv 5
      (Ancillary.one [7] false (by decide) (by decide)) :=
  (conserved_iff (fun _ => rfl) _ (by decide)).mpr ⟨fun _ => by decide, fun _ => by decide⟩

/-- Of two descriptors in one message, which fit into both buffers, the second stays open. -/
theorem not_conserved_two :
    ¬ ∀ (validateSocket : Nat → Bool) (rctx : Uring.RecvCtx) (unixFd : Nat) (p : Ancillary),
      unixFd ∉ p.fds → Conserved nixCmsgs validateSocket rctx unixFd p := by
  intro h
  let p : Ancillary := Ancillary.one [7, 8] false (by decide) (by decide)
  have hboth := h (fun _ => true) Uring.Connection.initial.recv 5 p (by decide)
  have hfits : p.Fits (cmsgSpace 4) := by
    change _ ≤ _
    decide
  exact absurd (hboth.2 hfits 8 (by decide)) (by decide)

end SocketHandoff.Rust
