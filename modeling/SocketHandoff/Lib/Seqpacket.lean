import Mathlib.Data.List.TakeDrop

/-!
# Receiving a message with descriptors

`recvmsg` on a socket that keeps message boundaries. One call takes one message: as many of its
bytes as the buffer has room for, as many of its descriptors as the control buffer has room for,
and two flags that say whether something was cut off.
-/

namespace SocketHandoff

/-- What a peer sends with one `sendmsg`. -/
structure Message where
  data : List UInt8
  /-- the descriptors attached with `SCM_RIGHTS`, as numbered in the receiving process -/
  fds : List Nat
  deriving DecidableEq, Repr

/-- What one `recvmsg` returns. -/
structure Received where
  data : List UInt8
  /-- the descriptors of the `SCM_RIGHTS` control message; it is absent when there are none -/
  rights : List Nat
  /-- `MSG_TRUNC` -/
  trunc : Bool
  /-- `MSG_CTRUNC` -/
  ctrunc : Bool
  deriving DecidableEq, Repr

/-- `recvmsg` with room for so many bytes and descriptors. -/
def Message.recv (m : Message) (room fdRoom : Nat) : Received where
  data := m.data.take room
  rights := m.fds.take fdRoom
  trunc := room < m.data.length
  ctrunc := fdRoom < m.fds.length

namespace Message

variable {m : Message} {room fdRoom : Nat}

@[simp] theorem recv_data : (m.recv room fdRoom).data = m.data.take room := rfl

@[simp] theorem recv_rights : (m.recv room fdRoom).rights = m.fds.take fdRoom := rfl

/-- With room for one descriptor at least, the first one always arrives. -/
theorem recv_rights_head (h : 0 < fdRoom) :
    (m.recv room fdRoom).rights.head? = m.fds.head? := by
  obtain ⟨k, rfl⟩ := Nat.exists_eq_succ_of_ne_zero (Nat.ne_of_gt h)
  cases hm : m.fds <;> simp [hm]

end Message

end SocketHandoff
