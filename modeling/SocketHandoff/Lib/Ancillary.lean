import Mathlib.Algebra.Order.Ring.Nat
import Mathlib.Data.List.Nodup

/-!
# Descriptors that come with a message

What one `recvmsg` has put into the control buffer: messages of type `SCM_RIGHTS`, each with the
descriptors that are installed in the process by then.
-/

namespace SocketHandoff

/-- The messages of a control buffer. None of them is empty, and the kernel gives each descriptor a
number of its own. -/
structure Ancillary where
  control : List (List Nat)
  /-- `MSG_TRUNC` -/
  trunc : Bool
  /-- `MSG_CTRUNC` -/
  ctrunc : Bool
  nonempty : ∀ fds ∈ control, fds ≠ []
  nodup : control.flatten.Nodup

/-- `CMSG_SPACE`: a header of 16 bytes, and the data with its padding. -/
def cmsgSpace (len : Nat) : Nat := 16 + (len + 7) / 8 * 8

namespace Ancillary

variable (p : Ancillary)

/-- The descriptors that are installed. -/
def fds : List Nat := p.control.flatten

/-- The messages fit into a control buffer of so many bytes. -/
def Fits (room : Nat) : Prop := (p.control.map fun fds => cmsgSpace (4 * fds.length)).sum ≤ room

/-- Descriptors of one message. -/
def one (fds : List Nat) (ctrunc : Bool) (hne : fds ≠ []) (hnodup : fds.Nodup) :
    Ancillary where
  control := [fds]
  trunc := false
  ctrunc := ctrunc
  nonempty := fun fds' h => List.mem_singleton.mp h ▸ hne
  nodup := by rwa [List.flatten_singleton]

end Ancillary

/-- Each of these descriptors has been closed once. -/
def ClosedOnce (fds closed : List Nat) : Prop := ∀ fd ∈ fds, closed.count fd = 1

variable {fds closed rest : List Nat} {fd : Nat}

/-- Where one of them is closed, and no other, there is no other. -/
theorem closedOnce_singleton_iff (hnodup : (fd :: rest).Nodup) :
    ClosedOnce (fd :: rest) [fd] ↔ rest = [] := by
  constructor
  · intro h
    cases rest with
    | nil => rfl
    | cons fd' rest =>
      have hne : fd ≠ fd' := fun heq => (List.nodup_cons.mp hnodup).1 (heq ▸ List.mem_cons_self)
      have hone := h fd' (List.mem_cons_of_mem fd List.mem_cons_self)
      rw [List.count_singleton, beq_false_of_ne hne] at hone
      cases hone
  · rintro rfl fd' hfd'
    obtain rfl := List.mem_singleton.mp hfd'
    exact List.count_singleton_self

theorem closedOnce_nil_iff : ClosedOnce fds [] ↔ fds = [] := by
  constructor
  · intro h
    cases fds with
    | nil => rfl
    | cons fd fds => exact absurd (h fd List.mem_cons_self) (by simp)
  · rintro rfl fd hfd
    cases hfd

/-- Descriptors that were not received do not count. -/
theorem closedOnce_append_left {others : List Nat} (h : ∀ fd ∈ fds, fd ∉ others) :
    ClosedOnce fds (others ++ closed) ↔ ClosedOnce fds closed := by
  refine forall₂_congr fun fd hfd => ?_
  rw [List.count_append, List.count_eq_zero_of_not_mem (h fd hfd), Nat.zero_add]

end SocketHandoff
