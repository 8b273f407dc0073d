import SocketHandoff.Uring.Daemon

/-!
# The daemon seen slot by slot

A `View` keeps of the daemon what its invariants talk about: for each slot its connection, the
entries and completions that name it, its curl request and its place in the thread pool, and
beside the slots the two lists. How far the kernel has read the submission queue, the polls and
timers of libcurl and the counters are forgotten, so most of what the daemon does leaves the view
as it is.

`Runs ω V m R` says that `m`, started in any daemon with view `V`, ends with a result and a view
in `R`. There is one rule for each function; the proofs about a handler apply them in the order
of its code.
-/

namespace SocketHandoff.Uring

/-- What there is of one slot. -/
@[ext]
structure Slot where
  conn : Connection
  gen : Nat
  /-- its entries, in flight or queued -/
  ops : List Sqe
  /-- its completions not yet processed -/
  comps : List Cqe
  requests : List CurlRequest
  /-- how often it is with the workers -/
  queued : Nat
  /-- how often the workers are done with it and the main loop has not fetched it -/
  done : Nat

/-- What the invariants see of the daemon. -/
@[ext]
structure View where
  cfg : Config
  pc : Pc
  slots : ConnId → Slot
  freeList : Option ConnId
  nextFree : ConnId → Option ConnId
  dirty : Queue ConnId
  nextEasy : Easy
  trace : List Event

/-- A slot of the daemon. -/
def Daemon.slot (s : Daemon) (i : ConnId) : Slot where
  conn := s.connections i
  gen := s.gen i
  ops := (s.inflight ++ s.sq).filter fun r => r.slot? = some i
  comps := s.cq.filter fun c => c.slot? = some i
  requests := s.curl.requests.filter fun req => req.conn = i
  queued := s.pool.queued i
  done := s.pool.done i

/-- The view of a daemon. -/
def Daemon.view (s : Daemon) : View where
  cfg := s.cfg
  pc := s.pc
  slots := s.slot
  freeList := s.freeList
  nextFree := s.nextFree
  dirty := s.dirty
  nextEasy := s.curl.nextEasy
  trace := s.trace

/-! ## Changes of a slot -/

namespace Slot

/-- Queue an entry. -/
def push (v : Slot) (r : Sqe) : Slot := { v with ops := v.ops ++ [r] }

/-- The entry of a receive. -/
def recvSqe (v : Slot) (i : ConnId) : Sqe :=
  ⟨.recvmsg v.conn.unixFd v.conn.recv.iovBase v.conn.recv.iovLen, i, v.gen⟩

/-- The entry of a write. -/
def writeSqe (v : Slot) (i : ConnId) (buf : Buf) (len : Nat) : Sqe :=
  ⟨.write v.conn.clientFd buf len, i, v.gen⟩

/-- The entry of its timeout. -/
def timeoutSqe (v : Slot) (cfg : Config) (i : ConnId) : Sqe :=
  ⟨.linkTimeout cfg.writeTimeoutMs, i, v.gen⟩

/-- Queue a write and its timeout. -/
def pair (v : Slot) (cfg : Config) (i : ConnId) (buf : Buf) (len : Nat) : Slot :=
  (v.push (v.writeSqe i buf len)).push (v.timeoutSqe cfg i)

end Slot

/-! ## Changes of a view -/

namespace View

/-- Replace a slot. -/
def set (V : View) (i : ConnId) (v : Slot) : View :=
  { V with slots := Function.update V.slots i v }

/-- Replace the connection of a slot. -/
def setConn (V : View) (i : ConnId) (c : Connection) : View :=
  V.set i { V.slots i with conn := c }

/-- Queue an entry for a slot. -/
def push (V : View) (i : ConnId) (r : Sqe) : View := V.set i ((V.slots i).push r)

/-- Note an event. -/
def note (V : View) (e : Event) : View := { V with trace := V.trace ++ [e] }

/-- Move to another step of the main loop. -/
def goto (V : View) (pc : Pc) : View := { V with pc := pc }

/-- Take a slot off the free list. -/
def popFree (V : View) (i : ConnId) : View :=
  { V with
    freeList := V.nextFree i
    nextFree := Function.update V.nextFree i none }

/-- Put a slot on the free list. -/
def pushFree (V : View) (i : ConnId) : View :=
  { V with
    nextFree := Function.update V.nextFree i V.freeList
    freeList := some i }

/-- Put a connection on the dirty list, unless it is there. -/
def mark (V : View) (i : ConnId) : View :=
  { V.setConn i { (V.slots i).conn with onDirtyList := true } with
    dirty := if (V.slots i).conn.onDirtyList then V.dirty else V.dirty.append i }

/-- Take a connection out of the dirty list, given its neighbours. -/
def unlink (V : View) (prev : Option ConnId) (i : ConnId) (next : Option ConnId) : View :=
  { V.setConn i { (V.slots i).conn with onDirtyList := false } with
    dirty := V.dirty.unlink prev i next }

/-- The dirty list without a connection, if it is marked. -/
def undirty (V : View) (i : ConnId) : Queue ConnId :=
  if (V.slots i).conn.onDirtyList then
    match predecessor V.dirty.next i (V.cfg.maxConnections + 1) none V.dirty.head with
    | some prev => V.dirty.unlink prev i (V.dirty.next i)
    | none => { V.dirty with next := Function.update V.dirty.next i none }
  else V.dirty

/-- Take a connection out of the dirty list wherever it is. -/
def unmark (V : View) (i : ConnId) : View :=
  { V.setConn i { (V.slots i).conn with onDirtyList := false } with dirty := V.undirty i }

/-- Forget the request of a handle. -/
def removeRequest (V : View) (easy : Easy) : View :=
  { V with
    slots := fun j =>
      { V.slots j with requests := (V.slots j).requests.filter (·.easy ≠ easy) } }

/-- Change the request of a handle. -/
def updateRequest (V : View) (easy : Easy) (f : CurlRequest → CurlRequest) : View :=
  { V with
    slots := fun j =>
      { V.slots j with
        requests := (V.slots j).requests.map fun req => if req.easy = easy then f req else req } }

/-- Add a request for a slot. -/
def addRequest (V : View) (req : CurlRequest) : View :=
  { V.set req.conn
      { V.slots req.conn with requests := (V.slots req.conn).requests ++ [req] } with
    nextEasy := V.nextEasy + 1 }

/-- Cancel the request of a connection. -/
def cancel (V : View) (i : ConnId) : View :=
  match (V.slots i).conn.curlEasy with
  | none => V
  | some easy =>
    let removed := V.removeRequest easy
    removed.setConn i { (removed.slots i).conn with curlEasy := none }

/-- Free a slot. -/
def free (V : View) (i : ConnId) : View :=
  (V.set i
    { V.slots i with conn := (V.slots i).conn.reset, gen := (V.slots i).gen + 1 }).pushFree i

/-- `cleanup_connection`. -/
def cleanup (V : View) (i : ConnId) : View :=
  ((if V.cfg.mode = .curlMulti then V.cancel i else V).unmark i).free i

/-- Note when `realloc` has moved a write buffer under a write. -/
def noteMoved (V : View) (i : ConnId) (wb grown : WriteBuffer) : View :=
  { V with
    trace := V.trace ++ if wb.writePending ∧ grown.buffer ≠ wb.buffer then [.moved i] else [] }

variable (V : View) {i j : ConnId}

@[simp] theorem set_set (v v' : Slot) : (V.set i v).set i v' = V.set i v' := by simp [set]

@[simp] theorem set_slots_self (v : Slot) : (V.set i v).slots i = v := by simp [set]

@[simp] theorem set_slots_of_ne (v : Slot) (h : j ≠ i) : (V.set i v).slots j = V.slots j :=
  Function.update_of_ne h ..

@[simp] theorem set_self (i : ConnId) : V.set i (V.slots i) = V := by simp [set]

@[simp] theorem set_cfg (v : Slot) : (V.set i v).cfg = V.cfg := rfl

@[simp] theorem popFree_slots (i : ConnId) : (V.popFree i).slots = V.slots := rfl
@[simp] theorem pushFree_slots (i : ConnId) : (V.pushFree i).slots = V.slots := rfl
@[simp] theorem note_slots (e : Event) : (V.note e).slots = V.slots := rfl
@[simp] theorem goto_slots (pc : Pc) : (V.goto pc).slots = V.slots := rfl

@[simp] theorem setConn_setConn (c c' : Connection) :
    (V.setConn i c).setConn i c' = V.setConn i c' := by
  simp [setConn]

@[simp] theorem setConn_conn (c : Connection) : ((V.setConn i c).slots i).conn = c := by
  simp [setConn]

@[simp] theorem noteMoved_slots (wb grown : WriteBuffer) :
    (V.noteMoved i wb grown).slots = V.slots := rfl

theorem setConn_slots_of_ne (c : Connection) (h : j ≠ i) : (V.setConn i c).slots j = V.slots j :=
  V.set_slots_of_ne _ h

@[simp] theorem mark_slots (i : ConnId) :
    (V.mark i).slots = (V.setConn i { (V.slots i).conn with onDirtyList := true }).slots := rfl

@[simp] theorem unlink_slots (prev next : Option ConnId) (i : ConnId) :
    (V.unlink prev i next).slots =
      (V.setConn i { (V.slots i).conn with onDirtyList := false }).slots := rfl

theorem mark_slots_self (i : ConnId) :
    (V.mark i).slots i =
      { V.slots i with conn := { (V.slots i).conn with onDirtyList := true } } :=
  V.set_slots_self _

/-- A slot that is put back at once has not left. -/
theorem popFree_pushFree (h : V.freeList = some i) : (V.popFree i).pushFree i = V := by
  cases V
  obtain rfl := h
  simp [popFree, pushFree]

@[simp] theorem setConn_self (i : ConnId) : V.setConn i (V.slots i).conn = V :=
  V.set_self i

end View

/-! ## What the state changes do to the view -/

section
variable (s : Daemon) {i : ConnId} {r : Sqe}

@[simp] theorem view_slots (i : ConnId) : s.view.slots i = s.slot i := rfl
@[simp] theorem slot_conn (i : ConnId) : (s.slot i).conn = s.connections i := rfl
@[simp] theorem slot_gen (i : ConnId) : (s.slot i).gen = s.gen i := rfl
@[simp] theorem view_cfg : s.view.cfg = s.cfg := rfl
@[simp] theorem view_pc : s.view.pc = s.pc := rfl
@[simp] theorem view_dirty : s.view.dirty = s.dirty := rfl
@[simp] theorem view_freeList : s.view.freeList = s.freeList := rfl
@[simp] theorem view_nextFree : s.view.nextFree = s.nextFree := rfl
@[simp] theorem view_nextEasy : s.view.nextEasy = s.curl.nextEasy := rfl
@[simp] theorem view_trace : s.view.trace = s.trace := rfl

/-- Reading entries moves them from the queue to the kernel. -/
@[simp] theorem view_submit (k : Nat) : (s.submit k).view = s.view := by
  have h : s.inflight ++ s.sq.take k ++ s.sq.drop k = s.inflight ++ s.sq := by
    rw [List.append_assoc, List.take_append_drop]
  simp only [Daemon.view, Daemon.submit, View.mk.injEq, true_and, and_true]
  funext i
  simp only [Daemon.slot, h]

theorem view_setConn (i : ConnId) (c : Connection) : (s.setConn i c).view = s.view.setConn i c := by
  simp only [Daemon.view, View.setConn, View.set, Daemon.setConn, View.mk.injEq, true_and, and_true]
  funext j
  by_cases hj : j = i
  · subst hj; simp [Daemon.slot]
  · simp [Daemon.slot, hj]

/-- An entry for a slot joins its entries. -/
theorem view_queue (h : r.slot? = some i) : (s.queue r).view = s.view.push i r := by
  simp only [Daemon.view, View.push, Slot.push, View.set, Daemon.queue, View.mk.injEq, true_and,
    and_true]
  funext j
  by_cases hj : j = i
  · subst hj; simp [Daemon.slot, h]
  · have hne : ¬ r.slot? = some j := by
      rw [h]; exact fun e => hj (Option.some.inj e).symm
    simp [Daemon.slot, hj, hne]

theorem view_addRequest (req : CurlRequest) : (s.addRequest req).view = s.view.addRequest req := by
  simp only [Daemon.view, View.addRequest, View.set, Daemon.addRequest, View.mk.injEq, true_and,
    and_true]
  funext j
  by_cases hj : j = req.conn
  · subst hj; simp [Daemon.slot]
  · simp [Daemon.slot, hj, Ne.symm hj]

theorem view_updateRequest (easy : Easy) {f : CurlRequest → CurlRequest}
    (hf : ∀ req, (f req).conn = req.conn) :
    (s.updateRequest easy f).view = s.view.updateRequest easy f := by
  simp only [Daemon.view, View.updateRequest, Daemon.updateRequest, CurlManager.updateRequest,
    View.mk.injEq, true_and, and_true]
  funext j
  have hconn : ∀ req : CurlRequest, (if req.easy = easy then f req else req).conn = req.conn := by
    intro req
    split
    · exact hf req
    · rfl
  simp only [Daemon.slot, List.filter_map, Function.comp_def, hconn]

/-- Putting a slot into the pool. -/
theorem view_setPool_queue :
    (s.setPool { s.pool with queue := s.pool.queue ++ [i] }).view =
      s.view.set i { s.slot i with queued := (s.slot i).queued + 1 } := by
  simp only [Daemon.view, View.set, Daemon.setPool, View.mk.injEq, true_and, and_true]
  funext j
  by_cases hj : j = i
  · subst hj
    simp [Daemon.slot, Pool.queued, Pool.done]
    omega
  · simp [Daemon.slot, Pool.queued, Pool.done, hj, Ne.symm hj]

/-- Taking a completion of a slot off the completion queue. -/
theorem view_pop {c : Cqe} {rest : List Cqe} (hs : s.cq = c :: rest) (hc : c.slot? = some i) :
    { s with cq := rest }.view =
      s.view.set i { s.slot i with comps := rest.filter fun c => c.slot? = some i } := by
  simp only [Daemon.view, View.set, View.mk.injEq, true_and, and_true]
  funext j
  by_cases hj : j = i
  · subst hj; simp [Daemon.slot]
  · have hne : ¬ c.slot? = some j := by
      rw [hc]; exact fun e => hj (Option.some.inj e).symm
    simp [Daemon.slot, hj, hs, hne]

/-- Taking a completion of no slot off the completion queue. -/
theorem view_pop_none {c : Cqe} {rest : List Cqe} (hs : s.cq = c :: rest) (hc : c.slot? = none) :
    { s with cq := rest }.view = s.view := by
  simp [Daemon.view, funext_iff, Daemon.slot, hs, hc]

/-- Fetching a connection the pool is done with. -/
theorem view_fetch {rest : List ConnId} (hs : s.pool.completions = i :: rest) :
    (s.setPool { s.pool with completions := rest }).view =
      s.view.set i { s.slot i with done := (s.slot i).done - 1 } := by
  simp only [Daemon.view, View.set, Daemon.setPool, View.mk.injEq, true_and, and_true]
  funext j
  by_cases hj : j = i
  · subst hj
    simp [Daemon.slot, Pool.queued, Pool.done, hs]
  · simp [Daemon.slot, Pool.queued, Pool.done, hj, hs, Ne.symm hj]

/-- An entry for no slot is not seen. -/
theorem view_queue_none (h : r.slot? = none) : (s.queue r).view = s.view := by
  simp [Daemon.view, Daemon.queue, funext_iff, Daemon.slot, h]

end

end SocketHandoff.Uring
