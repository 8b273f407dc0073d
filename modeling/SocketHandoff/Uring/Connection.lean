import SocketHandoff.Uring.Context

/-!
# Connection slots

`connection.c` and the dirty list of `daemon.c`. A slot is taken from the free list and put back
on it; its handoff buffer stays with it. A connection with unsent data is on the dirty list, from
where `flush_streaming_connections` picks it up.
-/

namespace SocketHandoff.Uring

/-! ## The pool -/

/-- `conn_pool_init`: all slots are free, the first one at the head. -/
def freeLink (maxConnections : Nat) (i : ConnId) : Option ConnId :=
  if i + 1 < maxConnections then some (i + 1) else none

/-- The free list of a new pool. -/
theorem linked_freeLink (n k len : Nat) (h : k + len = n) :
    Linked (freeLink n) (if k < n then some k else none) (List.range' k len) := by
  induction len generalizing k with
  | zero =>
    rw [if_neg (by omega)]
    exact Linked.nil_iff.mpr rfl
  | succ len ih =>
    rw [if_pos (by omega), List.range'_succ]
    exact ⟨rfl, ih (k + 1) (by omega)⟩

/-- Take the head off the free list. -/
def Daemon.popFree (s : Daemon) (i : ConnId) : Daemon :=
  { s with
    freeList := s.nextFree i
    nextFree := Function.update s.nextFree i none }

/-- Put a slot on the free list. -/
def Daemon.pushFree (s : Daemon) (i : ConnId) : Daemon :=
  { s with
    nextFree := Function.update s.nextFree i s.freeList
    freeList := some i }

/-- Give a slot its first handoff buffer; one it has already is used again as it is. -/
def ensureHandoffBuf (i : ConnId) : Loop Bool := do
  let c ← connOf i
  if c.handoffBuf.isSome then return true
  else
    match ← malloc with
    | none => return false
    | some block =>
      updateConn i fun c => { c with handoffBuf := some block, handoffCap := handoffTier1Size }
      return true

/-- One more connection is active. -/
def Daemon.addActive (s : Daemon) : Daemon :=
  { s with
    activeConnections := s.activeConnections + 1
    peakConnections := max s.peakConnections (s.activeConnections + 1) }

/-- `conn_alloc`: the head of the free list, if it has a handoff buffer or gets one; a slot that
gets none is put back. The count of active connections is raised only then. -/
def connAlloc : Loop (Option ConnId) := do
  match (← Act.get).freeList with
  | none => return none
  | some i =>
    Act.modify fun s => s.popFree i
    if ← ensureHandoffBuf i then
      Act.modify fun s => s.addActive
      return some i
    else
      Act.modify fun s => s.pushFree i
      return none

/-- `conn_grow_handoff_buf`: the next of the three sizes, up to 64 KiB. Nothing in the daemon calls
it, so that a buffer keeps its first size; it is here to show what the code provides for. -/
def connGrowHandoffBuf (i : ConnId) : Loop Bool := do
  let c ← connOf i
  if handoffTier3Size ≤ c.handoffCap then return false
  else
    match ← realloc (c.handoffBuf.getD 0) with
    | none => return false
    | some block =>
      updateConn i fun c =>
        { c with
          handoffBuf := some block
          handoffCap :=
            if c.handoffCap < handoffTier2Size then handoffTier2Size else handoffTier3Size }
      return true

/-- `conn_close_fds` and `conn_reset`: only the handoff buffer and the message header of the slot
outlive the connection. -/
def Connection.reset (c : Connection) : Connection :=
  { Connection.initial with
    handoffBuf := c.handoffBuf
    handoffBytes := c.handoffBytes
    handoffCap := c.handoffCap
    recv := c.recv }

/-- `conn_free`. -/
def connFree (i : ConnId) : Loop Unit :=
  Act.modify fun s =>
    { (s.setConn i (s.connections i).reset).pushFree i with
      activeConnections := s.activeConnections - 1
      gen := Function.update s.gen i (s.gen i + 1) }

/-- `conn_get`. -/
def connGet (id : Nat) : Loop (Option ConnId) := do
  return if id < (← Act.get).cfg.maxConnections then some id else none

/-! ## The dirty list -/

/-- `daemon_mark_connection_dirty`. -/
def daemonMarkConnectionDirty (i : ConnId) : Loop Unit := do
  let c ← connOf i
  if c.onDirtyList then return ()
  else
    updateConn i fun c => { c with onDirtyList := true }
    Act.modify fun s => { s with dirty := s.dirty.append i }

/-- Take a connection out of the dirty list, given its neighbours. -/
def unlinkDirty (prev : Option ConnId) (i : ConnId) (next : Option ConnId) : Loop Unit := do
  updateConn i fun c => { c with onDirtyList := false }
  Act.modify fun s => { s with dirty := s.dirty.unlink prev i next }

/-- `daemon_unmark_connection_dirty`. A connection the walk does not meet only loses its mark. -/
def daemonUnmarkConnectionDirty (i : ConnId) : Loop Unit := do
  let s ← Act.get
  if (s.connections i).onDirtyList then
    match predecessor s.dirty.next i (s.cfg.maxConnections + 1) none s.dirty.head with
    | some prev => unlinkDirty prev i (s.dirty.next i)
    | none =>
      updateConn i fun c => { c with onDirtyList := false }
      Act.modify fun s =>
        { s with dirty := { s.dirty with next := Function.update s.dirty.next i none } }
  else return ()

end SocketHandoff.Uring
