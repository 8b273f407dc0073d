import SocketHandoff.Lib.SlotPool
import SocketHandoff.Uring.CoreSteps
import SocketHandoff.Uring.Isolation

/-!
# The pool of connections

`conn_alloc`, `conn_free` and `cleanup_connection` keep the ledger of the pool: whatever happens
between their calls, a slot is either free or allocated. And this is all the daemon does to its
pool: each of its steps takes or frees a slot at most once, and frees only one that is allocated.
-/

namespace SocketHandoff.Uring

open Act (Unseen)

/-! ## Calls of the pool -/

/-- The pool of a daemon. -/
def Daemon.slotPool (s : Daemon) : SlotPool ConnId :=
  ⟨s.freeList, s.nextFree, s.activeConnections, s.peakConnections, s.gen⟩

/-- The same pool in another daemon. -/
def Daemon.withSlotPool (t : Daemon) (p : SlotPool ConnId) : Daemon :=
  { t with
    freeList := p.freeList
    nextFree := p.nextFree
    activeConnections := p.active
    peakConnections := p.peak
    gen := p.freed }

/-- A daemon, with the slots that `conn_alloc` has returned and that have not been freed since, and
how often it has returned each. -/
structure PoolState where
  daemon : Daemon
  allocated : List ConnId
  taken : ConnId → Nat

/-- The ledger of the pool. -/
def PoolState.ledger (p : PoolState) : Ledger ConnId :=
  ⟨p.daemon.slotPool, p.allocated, p.taken⟩

inductive PoolCall
  /-- `conn_alloc` -/
  | alloc (ω : Env)
  /-- `conn_free` -/
  | free (i : ConnId) (ω : Env)
  /-- `cleanup_connection` -/
  | cleanup (i : ConnId) (ω : Env)
  /-- anything else that happens to the daemon -/
  | other (t : Daemon)

/-- Calls of the pool; only an allocated slot is freed. What else happens to the daemon is one step,
which may do anything except to the free list, so that the rules of the pool do not depend on it. -/
def PoolState.call (p : PoolState) : PoolCall → Option PoolState
  | .alloc ω =>
    some <|
      match connAlloc.result ω p.daemon with
      | none => { p with daemon := connAlloc.final ω p.daemon }
      | some i =>
        { daemon := connAlloc.final ω p.daemon
          allocated := i :: p.allocated
          taken := Function.update p.taken i (p.taken i + 1) }
  | .free i ω =>
    if i ∈ p.allocated then
      some
        { p with
          daemon := (connFree i).final ω p.daemon
          allocated := p.allocated.erase i }
    else none
  | .cleanup i ω =>
    if i ∈ p.allocated then
      some
        { p with
          daemon := (cleanupConnection i).final ω p.daemon
          allocated := p.allocated.erase i }
    else none
  | .other t => some { p with daemon := t.withSlotPool p.daemon.slotPool }

/-- The pool as a system, from `conn_pool_init` on. -/
def poolSystem (cfg : Config) : System PoolState PoolCall where
  init p := p = ⟨Daemon.boot cfg, [], fun _ => 0⟩
  step := PoolState.call

/-- What is to hold of the pool at all times. -/
structure PoolState.Sound (maxConnections : Nat) (p : PoolState) (l : List ConnId) : Prop where
  /-- the free list: it ends, and no slot is on it twice -/
  linked : Linked p.daemon.nextFree p.daemon.freeList l
  nodup : l.Nodup
  bound : ∀ i, i ∈ l ∨ i ∈ p.allocated → i < maxConnections
  /-- a slot is either on it or allocated -/
  either : ∀ i, i < maxConnections → (i ∈ l ↔ i ∉ p.allocated)
  active : p.daemon.activeConnections = maxConnections - l.length
  /-- each allocation is freed at most once -/
  freed : ∀ i, p.taken i = p.daemon.gen i + if i ∈ p.allocated then 1 else 0

/-- What a call of `conn_alloc` does: it returns a slot that is not allocated, or `NULL`, which it
does when the free list is empty or the slot has no buffer and gets none. The slot is then back on
the list, as if nothing had happened. -/
structure PoolState.AllocSound (p : PoolState) (ω : Env) : Prop where
  fresh : ∀ i, connAlloc.result ω p.daemon = some i → i ∉ p.allocated
  none_iff : connAlloc.result ω p.daemon = none ↔ p.daemon.freeList = none ∨
    ∃ i, p.daemon.freeList = some i ∧ (p.daemon.connections i).handoffBuf = none ∧
      ω.malloc 0 = false
  unchanged : connAlloc.result ω p.daemon = none →
    (connAlloc.final ω p.daemon).slotPool = p.daemon.slotPool

/-! ## What the code does to the pool -/

section

variable {α : Type} {s s' : Daemon} {ω : Env} {i : ConnId}

theorem blind_slotPool : Blind Daemon.slotPool where
  submit _ _ := rfl
  queue _ _ _ := rfl
  block _ _ := rfl
  polls _ _ _ _ _ := rfl

/-- Code that leaves the pool alone. -/
abbrev Idle (m : Loop α) : Prop := Unseen Daemon.slotPool m

theorem idle_connOf (i : ConnId) : Idle (connOf i) := .bind .get fun _ => .pure _

theorem idle_updateConn (i : ConnId) (f : Connection → Connection) : Idle (updateConn i f) :=
  .modify fun _ => rfl

theorem idle_note (e : Event) : Idle (note e) := .modify fun _ => rfl

theorem idle_goto (pc : Pc) : Idle (goto pc) := .modify fun _ => rfl

theorem idle_countFailed : Idle countFailed := .modify fun s => by split <;> rfl

theorem idle_countCompleted (i : ConnId) : Idle (countCompleted i) :=
  .modify fun s => by split <;> rfl

theorem idle_countStarted : Idle countStarted := .modify fun s => by split <;> rfl

theorem idle_fillSqe {getSqe : Loop Bool} (hg : Idle getSqe) (r : Sqe) : Idle (fillSqe getSqe r) :=
  .bind hg fun _ => .ite (.bind (.modify fun _ => rfl) fun _ => .pure _) (.pure _)

theorem idle_ringSubmitRecvmsg (i : ConnId) : Idle (ringSubmitRecvmsg i) :=
  .bind .get fun _ => idle_fillSqe blind_slotPool.ringGetSqeFlush _

theorem idle_ringSubmitWrite (i : ConnId) (buf : Buf) (len : Nat) :
    Idle (ringSubmitWrite i buf len) :=
  .bind .get fun _ => idle_fillSqe blind_slotPool.ringGetSqeFlush _

theorem idle_ringSubmitLinkedTimeout (i : ConnId) : Idle (ringSubmitLinkedTimeout i) :=
  .bind .get fun _ => idle_fillSqe Blind.ioUringGetSqe _

theorem idle_unlinkDirty (prev : Option ConnId) (i : ConnId) (next : Option ConnId) :
    Idle (unlinkDirty prev i next) :=
  .bind (idle_updateConn _ _) fun _ => .modify fun _ => rfl

theorem idle_daemonMarkConnectionDirty (i : ConnId) : Idle (daemonMarkConnectionDirty i) := by
  refine .bind (idle_connOf i) fun c => .ite (.pure _) ?_
  exact .bind (idle_updateConn _ _) fun _ => .modify fun _ => rfl

theorem idle_daemonUnmarkConnectionDirty (i : ConnId) :
    Idle (daemonUnmarkConnectionDirty i) := by
  refine .bind .get fun s => .ite ?_ (.pure _)
  cases predecessor s.dirty.next i (s.cfg.maxConnections + 1) none s.dirty.head with
  | some prev => exact idle_unlinkDirty _ _ _
  | none => exact .bind (idle_updateConn _ _) fun _ => .modify fun _ => rfl

theorem idle_cancelActiveRequest (i : ConnId) : Idle (cancelActiveRequest i) := by
  refine .bind .get fun s => .ite (.bind (idle_connOf i) fun c => ?_) (.pure _)
  cases c.curlEasy with
  | none => exact .pure _
  | some easy =>
    refine .bind (.bind (.modify fun _ => rfl) fun _ => blind_slotPool.curlCallbacks) fun _ => ?_
    exact idle_updateConn _ _

/-! ### Responses -/

theorem idle_writeBufferAppend (i : ConnId) (wb : WriteBuffer) (data : List UInt8) :
    Idle (writeBufferAppend i wb data) := by
  refine .bind (blind_slotPool.realloc _) fun b => .bind (idle_updateConn _ _) fun _ => ?_
  exact .ite (.bind (idle_note _) fun _ => .pure _) (.pure _)

theorem idle_ensureWriteBuffer (i : ConnId) : Idle (ensureWriteBuffer i) := by
  refine .bind (idle_connOf i) fun c => ?_
  cases c.asyncWriteBuf with
  | some wb => exact .pure _
  | none =>
    refine .bind blind_slotPool.malloc fun b => ?_
    cases b with
    | none => exact .pure _
    | some b =>
      refine .bind blind_slotPool.malloc fun b => ?_
      cases b with
      | none => exact .pure _
      | some b => exact .bind (idle_updateConn _ _) fun _ => .pure _

theorem idle_queueForClient (i : ConnId) (data : List UInt8) : Idle (queueForClient i data) := by
  refine .bind (idle_ensureWriteBuffer i) fun wb => ?_
  cases wb with
  | none => exact .pure _
  | some wb =>
    refine .bind (idle_writeBufferAppend i wb data) fun r => ?_
    cases r with
    | ok => exact .bind (idle_daemonMarkConnectionDirty i) fun _ => .pure _
    | noMemory | full => exact .pure _

theorem idle_tryImmediateWrite (i : ConnId) : Idle (tryImmediateWrite i) := by
  refine .bind (idle_connOf i) fun c => ?_
  cases c.asyncWriteBuf with
  | none => exact .pure _
  | some wb =>
    refine .ite (.bind (idle_ringSubmitWrite _ _ _) fun _ => .ite ?_ (.pure _)) (.pure _)
    refine .bind (idle_ringSubmitLinkedTimeout i) fun _ => ?_
    exact .bind (idle_updateConn _ _) fun _ => blind_slotPool.ioUringSubmit

theorem idle_processSseLines (easy : Easy) (i : ConnId) (lines : List (List UInt8)) :
    Idle (processSseLines easy i lines) := by
  have hline : ∀ line, Idle (processSseLine easy i line) := by
    intro line
    refine .ite (.pure _) ?_
    cases streamFormatSse 8192 (sseContent line) with
    | none => exact .pure _
    | some frame =>
      refine .bind (idle_queueForClient i frame) fun _ => .ite ?_ (.pure _)
      refine .bind (idle_tryImmediateWrite i) fun _ => ?_
      exact .bind (.modify fun _ => rfl) fun _ => .pure _
  induction lines with
  | nil => exact .pure _
  | cons line rest ih => exact .bind (hline line) fun _ => .ite ih (.pure _)

theorem idle_growSseLine (i : ConnId) (len : Nat) (line : List UInt8 × Nat) :
    Idle (growSseLine i len line) := by
  refine .bind (idle_updateConn _ _) fun _ => .ite ?_ (.pure _)
  refine .bind (blind_slotPool.realloc 0) fun b => ?_
  cases b <;> exact .pure _

theorem idle_ensureSseLine (i : ConnId) (len : Nat) : Idle (ensureSseLine i len) := by
  refine .bind (idle_connOf i) fun c => ?_
  cases c.sseLine with
  | some line => exact idle_growSseLine i len line
  | none =>
    refine .bind blind_slotPool.malloc fun b => ?_
    cases b with
    | none => exact .pure _
    | some b => exact idle_growSseLine i len ([], 4096)

theorem idle_curlDeliver (req : CurlRequest) (chunk : List UInt8) :
    Idle (curlDeliver req chunk) := by
  have hreceive : Idle (receiveChunk req.easy req.conn chunk) := by
    refine .bind (idle_ensureSseLine _ _) fun line => ?_
    cases line with
    | none => exact .pure _
    | some line =>
      refine .bind (idle_updateConn _ _) fun _ => .bind (idle_processSseLines _ _ _) fun _ => ?_
      refine .ite (.bind (idle_updateConn _ _) fun _ => ?_) (.pure _)
      exact .bind (idle_tryImmediateWrite _) fun _ => .pure _
  have hheaders : Idle (sendHeaders req.easy req.conn) := by
    refine .bind (idle_queueForClient _ _) fun _ => .ite (.bind (.modify fun _ => rfl) fun _ => ?_)
      (.pure _)
    exact .bind (idle_updateConn _ _) fun _ => .bind (idle_tryImmediateWrite _) fun _ => .pure _
  have hwrite : Idle (writeCallback req chunk) := by
    refine .ite hreceive (.bind hheaders fun _ => .ite hreceive (.pure _))
  exact .bind hwrite fun _ => .ite (.pure _) (.ite (.pure _) (.modify fun _ => rfl))

theorem idle_checkCompletion (req : CurlRequest) (done : Finished) :
    Idle (checkCompletion req done) := by
  refine .bind (.bind (.modify fun _ => rfl) fun _ => blind_slotPool.curlCallbacks) fun _ =>
    .bind (.ite (.bind (idle_connOf _) fun c => ?_) (.pure _)) fun _ =>
      .bind (idle_updateConn _ _) fun _ => idle_updateConn _ _
  cases c.asyncWriteBuf with
  | none => exact .pure _
  | some wb =>
    refine .bind (idle_writeBufferAppend _ _ _) fun r => ?_
    cases r with
    | ok => exact idle_daemonMarkConnectionDirty _
    | noMemory | full => exact .pure _

/-! ### Code that frees a slot -/

/-- The code frees the slot, or leaves the pool alone. -/
def Frees (i : ConnId) (m : Loop α) : Prop :=
  ∀ ω st, (m ω st).2.2.slotPool = st.2.slotPool ∨
    (m ω st).2.2.slotPool = st.2.slotPool.free i

namespace Frees

variable {β : Type} {m m' : Loop α} {k : α → Loop β}

theorem idle (h : Idle m) : Frees i m := fun ω st => .inl (h ω st)

/-- First code that leaves the pool alone. -/
theorem after (h : Idle m) (hk : ∀ a, Frees i (k a)) : Frees i (m >>= k) := by
  intro ω st
  have hrest := hk (m ω st).1 ω (m ω st).2
  rwa [h ω st] at hrest

/-- Then code that leaves the pool alone. -/
theorem before (h : Frees i m) (hk : ∀ a, Idle (k a)) : Frees i (m >>= k) := by
  intro ω st
  have hrest := hk (m ω st).1 ω (m ω st).2
  exact (h ω st).imp hrest.trans hrest.trans

theorem ite {c : Prop} [Decidable c] (h : Frees i m) (h' : Frees i m') :
    Frees i (if c then m else m') := by
  split
  · exact h
  · exact h'

end Frees

theorem slotPool_connFree (i : ConnId) (ω : Env) (st : Nat × Daemon) :
    (connFree i ω st).2.2.slotPool = st.2.slotPool.free i := rfl

theorem slotPool_cleanupConnection (i : ConnId) (ω : Env) (st : Nat × Daemon) :
    (cleanupConnection i ω st).2.2.slotPool = st.2.slotPool.free i := by
  have hidle : Idle (do
      cancelActiveRequest i
      daemonUnmarkConnectionDirty i) :=
    .bind (idle_cancelActiveRequest i) fun _ => idle_daemonUnmarkConnectionDirty i
  exact (slotPool_connFree i ω _).trans (congrArg (SlotPool.free · i) (hidle ω st))

theorem frees_cleanupConnection (i : ConnId) : Frees i (cleanupConnection i) :=
  fun ω st => .inr (slotPool_cleanupConnection i ω st)

theorem frees_failConnection (i : ConnId) : Frees i (failConnection i) :=
  .after idle_countFailed fun _ => frees_cleanupConnection i

theorem frees_submitOrCleanup {buf : Buf} {len : Nat} {refused : Loop Unit}
    (hr : Idle refused) : Frees i (submitOrCleanup i buf len refused) := by
  refine .after (idle_ringSubmitWrite i buf len) fun _ => .ite ?_ ?_
  · refine .after (idle_ringSubmitLinkedTimeout i) fun _ => .ite (.idle (.pure _)) ?_
    refine .after idle_countFailed fun _ => .after (idle_note _) fun _ => ?_
    exact .before (frees_cleanupConnection i) fun _ => .pure _
  · exact .after hr fun _ => .before (frees_cleanupConnection i) fun _ => .pure _

theorem frees_startStreaming (i : ConnId) : Frees i (startStreaming i) :=
  .after (idle_updateConn _ _) fun _ => .before (frees_submitOrCleanup idle_countFailed) fun _ =>
    .pure _

theorem frees_startAsyncWrite (i : ConnId) : Frees i (startAsyncWrite i) := by
  refine .after (idle_connOf i) fun c => ?_
  cases c.asyncWriteBuf with
  | none => exact .idle (.pure _)
  | some wb =>
    refine .ite (.before (frees_submitOrCleanup idle_countFailed) fun _ => ?_) (.idle (.pure _))
    exact .ite (.bind (idle_updateConn _ _) fun _ => blind_slotPool.ioUringSubmit) (.pure _)

theorem idle_curlManagerStartRequest (i : ConnId) : Idle (curlManagerStartRequest i) := by
  have halloc : Idle startAllocations := by
    refine .bind blind_slotPool.malloc fun b => ?_
    cases b with
    | none => exact .pure _
    | some b =>
      refine .bind (.ask fun _ _ _ => rfl) fun _ => .ite (.bind blind_slotPool.malloc fun b => ?_)
        (.pure _)
      cases b with
      | none => exact .pure _
      | some b => exact .bind blind_slotPool.malloc fun _ => .pure _
  refine .bind .get fun s => .ite (.bind halloc fun _ => .ite ?_ (.pure _)) (.pure _)
  refine .bind (idle_updateConn _ _) fun _ => .bind (.ask fun _ _ _ => rfl) fun _ => .ite ?_ ?_
  · refine .bind (.modify fun _ => rfl) fun _ => ?_
    exact .bind blind_slotPool.curlCallbacks fun _ => .pure _
  · exact .bind (idle_updateConn _ _) fun _ => .pure _

theorem frees_startResponse (i : ConnId) : Frees i (startResponse i) := by
  refine .after .get fun s => ?_
  cases s.cfg.mode with
  | curlMulti =>
    refine .after (idle_curlManagerStartRequest i) fun _ => ?_
    exact .ite (.idle (idle_goto _)) (frees_failConnection i)
  | threadPool =>
    refine .after (idle_updateConn _ _) fun _ => .after (.bind blind_slotPool.malloc fun b => ?_)
      fun _ => .ite (.idle (.pure _)) (frees_failConnection i)
    cases b with
    | none => exact .pure _
    | some b => exact .bind (.modify fun _ => rfl) fun _ => .pure _
  | direct => exact .after (idle_updateConn _ _) fun _ => frees_startStreaming i

theorem frees_handleRecvFd (i : ConnId) (res : Int) : Frees i (handleRecvFd i res) := by
  refine .ite (frees_failConnection i) (.after (idle_updateConn _ _) fun _ => ?_)
  refine .after (idle_connOf i) fun c => ?_
  cases handoffExtractFd c.recv with
  | none => exact frees_failConnection i
  | some fd =>
    refine .after (idle_updateConn _ _) fun _ => .after (.ask fun _ _ _ => rfl) fun _ => ?_
    refine .ite (.after ?_ fun _ => frees_startResponse i) (frees_failConnection i)
    exact .bind .get fun s => .bind (idle_note _) fun _ => idle_updateConn _ _

theorem frees_handleAsyncWrite (i : ConnId) (res : Int) : Frees i (handleAsyncWrite i res) := by
  refine .ite (frees_failConnection i) (.after (idle_updateConn _ _) fun _ => ?_)
  refine .after (idle_connOf i) fun c => .ite (frees_startAsyncWrite i) (.ite ?_ (.idle (.pure _)))
  exact .after (idle_countCompleted i) fun _ => frees_cleanupConnection i

theorem frees_nextWrite (i : ConnId) : Frees i (nextWrite i) := by
  have hsubmit : ∀ {buf len} {refused : Loop Unit}, Idle refused →
      Frees i (do let _ ← submitOrCleanup i buf len refused) := fun hr =>
    .before (frees_submitOrCleanup hr) fun _ => .pure _
  refine .after (idle_connOf i) fun c => ?_
  cases streamNextMessage c with
  | mk msg moved =>
    refine .after (idle_updateConn _ _) fun _ => ?_
    cases msg with
    | none => exact .after (idle_updateConn _ _) fun _ => hsubmit (idle_countCompleted i)
    | some msg =>
      refine .after blind_slotPool.malloc fun block => ?_
      cases block with
      | none => exact frees_failConnection i
      | some block =>
        cases streamFormatSse 4096 msg with
        | none => exact frees_failConnection i
        | some frame => exact .after (idle_updateConn _ _) fun _ => hsubmit idle_countFailed

theorem frees_handleWrite (i : ConnId) (res : Int) : Frees i (handleWrite i res) := by
  refine .ite (frees_failConnection i) (.after (idle_updateConn _ _) fun _ => ?_)
  refine .after (idle_connOf i) fun c => .ite ?_ (.after (idle_updateConn _ _) fun _ => .ite ?_ ?_)
  · cases c.writeBuf with
    | none => exact frees_failConnection i
    | some bf => exact .before (frees_submitOrCleanup idle_countFailed) fun _ => .pure _
  · exact .after (idle_countCompleted i) fun _ => frees_cleanupConnection i
  · exact frees_nextWrite i

theorem frees_handleCompletion (i : ConnId) : Frees i (handleCompletion i) := by
  refine .after (idle_connOf i) fun c => ?_
  cases c.state with
  | streaming => exact frees_startStreaming i
  | streamed => exact .after (idle_countCompleted i) fun _ => frees_cleanupConnection i
  | closing => exact frees_failConnection i
  | _ => exact .idle (.pure _)

theorem frees_flushConnection (i : ConnId) (prev : Option ConnId) (last : Bool) :
    Frees i (flushConnection i prev last) := by
  have hreread : Idle (rereadWriteBuf i) := by
    refine .bind (idle_connOf i) fun c => ?_
    cases c.asyncWriteBuf with
    | some wb => exact .pure _
    | none => exact .bind (idle_note _) fun _ => .ask fun _ _ _ => rfl
  have hunlink : ∀ next, Idle (do
      unlinkDirty prev i next
      goto (.flush next prev last)) :=
    fun next => .bind (idle_unlinkDirty _ _ _) fun _ => idle_goto _
  refine .after .get fun s => .ite ?_ (.idle (hunlink _))
  simp only
  cases (s.connections i).asyncWriteBuf with
  | none => exact .idle (idle_goto _)
  | some wb =>
    refine .before (frees_startAsyncWrite i) fun _ => .bind hreread fun _ => ?_
    exact .ite (hunlink _) (idle_goto _)

/-! ### Code that takes a slot -/

/-- **What `conn_alloc` does.** Only the last of the three cases takes a slot; where the buffer
cannot be allocated, the slot is put back and the list is as it was. -/
theorem connAlloc_cases (ω : Env) (n : Nat) (s : Daemon) :
    (s.freeList = none ∧ (connAlloc ω (n, s)).1 = none ∧
        (connAlloc ω (n, s)).2.2.slotPool = s.slotPool) ∨
      ∃ i, s.freeList = some i ∧
        (((s.connections i).handoffBuf = none ∧ ω.malloc n = false ∧
            (connAlloc ω (n, s)).1 = none ∧ (connAlloc ω (n, s)).2.2.slotPool = s.slotPool) ∨
          ¬ ((s.connections i).handoffBuf = none ∧ ω.malloc n = false) ∧
            (connAlloc ω (n, s)).1 = some i ∧
            (connAlloc ω (n, s)).2.2.slotPool = s.slotPool.take i) := by
  cases hfree : s.freeList with
  | none => exact .inl ⟨rfl, by simp [connAlloc, hfree], by simp [connAlloc, hfree]⟩
  | some i =>
    refine .inr ⟨i, rfl, ?_⟩
    cases hbuf : (s.connections i).handoffBuf with
    | some b =>
      refine .inr ⟨by simp, ?_, ?_⟩
      · simp [connAlloc, hfree, ensureHandoffBuf, connOf, Daemon.popFree, hbuf]
      · simp [connAlloc, hfree, ensureHandoffBuf, connOf, Daemon.popFree, hbuf, Daemon.addActive,
          Daemon.slotPool, SlotPool.take]
    | none =>
      cases hmalloc : ω.malloc n with
      | true =>
        refine .inr ⟨by simp, ?_, ?_⟩
        · simp [connAlloc, hfree, ensureHandoffBuf, connOf, Daemon.popFree, hbuf, malloc, hmalloc,
            updateConn]
        · simp [connAlloc, hfree, ensureHandoffBuf, connOf, Daemon.popFree, hbuf, malloc, hmalloc,
            updateConn, Daemon.addActive, Daemon.setConn, Daemon.slotPool, SlotPool.take]
      | false =>
        refine .inl ⟨rfl, rfl, ?_, ?_⟩
        · simp [connAlloc, hfree, ensureHandoffBuf, connOf, Daemon.popFree, hbuf, malloc, hmalloc]
        · simp [connAlloc, hfree, ensureHandoffBuf, connOf, Daemon.popFree, hbuf, malloc, hmalloc,
            Daemon.pushFree, Daemon.slotPool]

/-- What a step may do to the pool. -/
inductive Pooled (s : Daemon) (p : SlotPool ConnId) : Prop
  | idle : p = s.slotPool → Pooled s p
  | freed (i : ConnId) : (s.connections i).state ≠ .unused → p = s.slotPool.free i → Pooled s p
  | taken (i : ConnId) : s.freeList = some i → p = s.slotPool.take i → Pooled s p
  | refused (i : ConnId) : s.freeList = some i → p = (s.slotPool.take i).free i → Pooled s p

theorem Pooled.of_idle {m : Loop Unit} (h : Idle m) : Pooled s (s.exec m ω).slotPool :=
  .idle (h ω (0, s))

theorem Pooled.of_frees {m : Loop Unit} (h : Frees i m) (hi : (s.connections i).state ≠ .unused) :
    Pooled s (s.exec m ω).slotPool := by
  rcases h ω (0, s) with h | h
  · exact .idle h
  · exact .freed i hi h

theorem idle_retryAccept (n : Nat) : Idle (retryAccept n) := by
  induction n with
  | zero => exact .pure _
  | succ n ih =>
    exact .bind (blind_slotPool.fillSqe Blind.ioUringGetSqe rfl) fun _ => .ite (.pure _) ih

/-- `handle_accept` takes a slot, and frees it again if its receive finds no entry. -/
theorem pooled_handleAccept (res : Int) (more : Bool) :
    Pooled s (s.exec (handleAccept res more) ω).slotPool := by
  have hrearm : Idle (rearmAccept more) :=
    .bind .get fun _ => .ite (.pure _) (idle_retryAccept 4)
  have hrest : ∀ (i : ConnId) (fd : Fd), Frees i (do
      updateConn i fun c => { c with unixFd := some fd, state := .receivingFd }
      countStarted
      updateConn i fun c =>
        { c with recv := handoffPrepareMsghdr c.handoffBuf c.handoffCap controlMsgSize }
      if ← ringSubmitRecvmsg i then return () else cleanupConnection i) := by
    intro i fd
    refine .after (idle_updateConn _ _) fun _ => .after idle_countStarted fun _ => ?_
    refine .after (idle_updateConn _ _) fun _ => .after (idle_ringSubmitRecvmsg i) fun _ => ?_
    exact .ite (.idle (.pure _)) (frees_cleanupConnection i)
  have hsame := hrearm ω (0, s)
  rw [Daemon.exec, Act.final, handleAccept, Act.bind_run]
  generalize rearmAccept more ω (0, s) = run at hsame
  obtain ⟨u, n, t⟩ := run
  have hfree : t.freeList = s.freeList := congrArg SlotPool.freeList hsame
  by_cases hres : res < 0
  · rw [if_pos hres]
    exact .idle hsame
  rw [if_neg hres, acceptConnection, Act.bind_run]
  rcases connAlloc_cases ω n t with ⟨-, hret, hpool⟩ | ⟨i, hi, ⟨-, -, hret, hpool⟩ | ⟨-, hret, hpool⟩⟩
  · rw [hret]
    exact .idle (hpool.trans hsame)
  · rw [hret]
    exact .idle (hpool.trans hsame)
  · rw [hret]
    rw [hfree] at hi
    have htaken := hpool.trans (congrArg (SlotPool.take · i) hsame)
    rcases hrest i res.toNat ω (connAlloc ω (n, t)).2 with h | h
    · exact .taken i hi (h.trans htaken)
    · exact .refused i hi (h.trans (congrArg (SlotPool.free · i) htaken))

theorem pooled_processRecvFd (id : Nat) (res : Int) :
    Pooled s (s.exec (processRecvFd id res) ω).slotPool := by
  by_cases hready : id < s.cfg.maxConnections ∧ (s.connections id).state = .receivingFd
  · have hrun : s.exec (processRecvFd id res) ω = s.exec (handleRecvFd id res) ω := by
      simp [Daemon.exec, Act.final, processRecvFd, connGet, connOf, hready]
    rw [hrun]
    exact .of_frees (frees_handleRecvFd id res) (by simp [hready.2])
  · have hrun : s.exec (processRecvFd id res) ω = s := by
      by_cases hid : id < s.cfg.maxConnections
      · simp [Daemon.exec, Act.final, processRecvFd, connGet, connOf, hid,
          show (s.connections id).state ≠ .receivingFd from fun h => hready ⟨hid, h⟩]
      · simp [Daemon.exec, Act.final, processRecvFd, connGet, hid]
    rw [hrun]
    exact .idle rfl

theorem pooled_processWrite (id : Nat) (res : Int) :
    Pooled s (s.exec (processWrite id res) ω).slotPool := by
  have hfrees : Frees id (processWrite id res) := by
    intro ω st
    by_cases hid : id < st.2.cfg.maxConnections
    · have hhandled : Frees id (do
          let c ← connOf id
          if c.asyncWriteBuf.isSome then
            if c.state = .streaming ∨ c.state = .curlActive ∨ c.state = .closing then
              handleAsyncWrite id res
            else return ()
          else if c.state = .streaming ∨ c.state = .closing then handleWrite id res
          else return ()) := by
        refine .after (idle_connOf id) fun c => .ite ?_ ?_
        · exact .ite (frees_handleAsyncWrite id res) (.idle (.pure _))
        · exact .ite (frees_handleWrite id res) (.idle (.pure _))
      simpa [processWrite, connGet, hid] using hhandled ω st
    · exact .inl (by simp [processWrite, connGet, hid])
  by_cases hstate : (s.connections id).state = .unused
  · -- an unused slot takes no write
    have hrun : s.exec (processWrite id res) ω = s := by
      by_cases hid : id < s.cfg.maxConnections
      · cases hbuf : (s.connections id).asyncWriteBuf <;>
          simp [Daemon.exec, Act.final, processWrite, connGet, connOf, hid, hstate, hbuf]
      · simp [Daemon.exec, Act.final, processWrite, connGet, hid]
    rw [hrun]
    exact .idle rfl
  · exact .of_frees hfrees hstate

/-- The step that processes a completion. -/
theorem pooled_event {cqe : Cqe} {rest : List Cqe} :
    Pooled s (s.exec (do
      popCqe rest
      processCqe cqe) ω).slotPool := by
  suffices h : ∀ t : Daemon, Pooled t (t.exec (processCqe cqe) ω).slotPool by
    rcases h { s with cq := rest } with h | ⟨i, hi, h⟩ | ⟨i, hi, h⟩ | ⟨i, hi, h⟩
    · exact .idle h
    · exact .freed i hi h
    · exact .taken i hi h
    · exact .refused i hi h
  intro t
  cases hop : cqe.op with
  | accept =>
    have hrun : t.exec (processCqe cqe) ω = t.exec (handleAccept cqe.res cqe.more) ω := by
      simp [Daemon.exec, Act.final, processCqe, hop]
    rw [hrun]
    exact pooled_handleAccept _ _
  | recvFd =>
    have hrun : t.exec (processCqe cqe) ω = t.exec (processRecvFd cqe.connId cqe.res) ω := by
      simp [Daemon.exec, Act.final, processCqe, hop]
    rw [hrun]
    exact pooled_processRecvFd _ _
  | write =>
    have hrun : t.exec (processCqe cqe) ω = t.exec (processWrite cqe.connId cqe.res) ω := by
      simp [Daemon.exec, Act.final, processCqe, hop]
    rw [hrun]
    exact pooled_processWrite _ _
  | _ =>
    refine .of_idle (.bind .get fun t => ?_)
    simp only [hop]
    first
    | exact .pure _
    | exact .bind (.modify fun _ => rfl) fun _ => idle_goto _
    | exact .ite (idle_goto _) (.pure _)
    | exact .ite (.bind (.modify fun _ => rfl) fun _ => idle_goto _) (.pure _)

theorem pooled_handleCompletion (i : ConnId) :
    Pooled s (s.exec (handleCompletion i) ω).slotPool := by
  by_cases hstate : (s.connections i).state = .unused
  · have hrun : s.exec (handleCompletion i) ω = s := by
      simp [Daemon.exec, Act.final, handleCompletion, connOf, hstate]
    rw [hrun]
    exact .idle rfl
  · exact .of_frees (frees_handleCompletion i) hstate

theorem pooled_flushConnection (i : ConnId) (prev : Option ConnId) (last : Bool) :
    Pooled s (s.exec (flushConnection i prev last) ω).slotPool := by
  by_cases hstate : (s.connections i).state = .unused
  · have hrun : s.exec (flushConnection i prev last) ω = s.exec (do
        unlinkDirty prev i (s.dirty.next i)
        goto (.flush (s.dirty.next i) prev last)) ω := by
      simp [Daemon.exec, Act.final, flushConnection, hstate]
    rw [hrun]
    exact .of_idle (.bind (idle_unlinkDirty _ _ _) fun _ => idle_goto _)
  · exact .of_frees (frees_flushConnection i prev last) hstate

/-! ### Steps of the daemon -/

theorem slotPool_kernel {move : KernelMove} (h : kernelStep s move = some s') :
    s'.slotPool = s.slotPool := by
  cases move with
  | read k =>
    obtain rfl := Option.some.inj h
    rfl
  | deliver r m =>
    simp only [kernelStep] at h
    split at h
    · obtain ⟨-, h⟩ := Option.ite_none_right_eq_some.mp h
      obtain rfl := Option.some.inj h
      rfl
    · cases h
  | complete r res more =>
    obtain ⟨-, h⟩ := Option.ite_none_right_eq_some.mp h
    simp only [Daemon.complete] at h
    split at h
    · obtain rfl := Option.some.inj h
      split <;> rfl
    · obtain rfl := Option.some.inj h
      split <;> rfl
    · obtain ⟨-, h⟩ := Option.ite_none_right_eq_some.mp h
      obtain rfl := Option.some.inj h
      rfl
    · obtain ⟨-, h⟩ := Option.ite_none_left_eq_some.mp h
      obtain rfl := Option.some.inj h
      rfl
    · split at h
      · obtain rfl := Option.some.inj h
        rfl
      · obtain ⟨-, h⟩ := Option.ite_none_left_eq_some.mp h
        obtain rfl := Option.some.inj h
        rfl
    all_goals
      obtain rfl := Option.some.inj h
      rfl

theorem slotPool_worker {move : WorkerMove} (h : workerStep s move = some s') :
    s'.slotPool = s.slotPool := by
  cases move with
  | take =>
    simp only [workerStep] at h
    split at h
    · obtain ⟨-, h⟩ := Option.ite_none_right_eq_some.mp h
      obtain rfl := Option.some.inj h
      rfl
    · cases h
  | process k result bytesSent =>
    simp only [workerStep] at h
    split at h
    · obtain rfl := Option.some.inj h
      rfl
    · cases h
  | complete k =>
    simp only [workerStep] at h
    split at h
    · obtain ⟨-, h⟩ := Option.ite_none_right_eq_some.mp h
      obtain rfl := Option.some.inj h
      rfl
    · cases h
  | signal k =>
    simp only [workerStep] at h
    split at h
    · obtain rfl := Option.some.inj h
      rfl
    · cases h

theorem idle_endIteration : Idle endIteration :=
  .bind blind_slotPool.ioUringSubmit fun _ => .modify fun _ => rfl

theorem pooled_curl {kick : Bool} {a : Label} (h : curlStep s kick a = some s') :
    Pooled s s'.slotPool := by
  simp only [curlStep] at h
  split at h
  · split at h
    · simp only [Option.ite_none_left_eq_some, Option.some.injEq] at h
      obtain ⟨-, rfl⟩ := h
      exact .of_idle (idle_curlDeliver _ _)
    · cases h
  · obtain rfl := Option.some.inj h
    exact .of_idle (blind_slotPool.runCallbacks _)
  · split at h
    · simp only [Option.ite_none_left_eq_some, Option.some.injEq] at h
      obtain ⟨-, rfl⟩ := h
      exact .idle rfl
    · cases h
  · obtain rfl := Option.some.inj h
    exact .idle rfl
  · cases h

/-- **A step takes or frees a slot at most once**, and frees no unused one. -/
theorem pooled_step {a : Label} (h : step s a = some s') : Pooled s s'.slotPool := by
  have hloop : ∀ {a : Label}, loopStep s a = some s' → Pooled s s'.slotPool := by
    intro a h
    simp only [loopStep] at h
    split at h
    · simp only [Option.ite_none_left_eq_some, Option.some.injEq] at h
      obtain ⟨-, rfl⟩ := h
      exact .idle rfl
    · obtain rfl := Option.some.inj h
      exact .idle rfl
    · -- the next completion
      split at h
      · obtain rfl := Option.some.inj h
        exact pooled_event
      · cases h
    · simp only [Option.ite_none_left_eq_some] at h
      obtain ⟨-, h⟩ := h
      split at h
      · obtain rfl := Option.some.inj h
        exact .idle rfl
      · obtain rfl := Option.some.inj h
        exact .of_idle idle_endIteration
    · exact pooled_curl h
    · -- a message of libcurl
      split at h
      · split at h
        · obtain rfl := Option.some.inj h
          exact .of_idle (idle_checkCompletion _ _)
        · cases h
      · cases h
    · simp only [Option.ite_none_left_eq_some, Option.some.injEq] at h
      obtain ⟨-, rfl⟩ := h
      exact .idle rfl
    · -- the next connection of the dirty list
      obtain rfl := Option.some.inj h
      exact pooled_flushConnection _ _ _
    · split at h
      · obtain rfl := Option.some.inj h
        exact .of_idle idle_endIteration
      · obtain rfl := Option.some.inj h
        exact .idle rfl
    · -- the next connection of the pool
      split at h
      · obtain rfl := Option.some.inj h
        rcases pooled_handleCompletion (s := s.setPool _) _ with h | ⟨i, hi, h⟩ | ⟨i, hi, h⟩ |
          ⟨i, hi, h⟩
        · exact .idle h
        · exact .freed i hi h
        · exact .taken i hi h
        · exact .refused i hi h
      · cases h
    · obtain ⟨-, h⟩ := Option.ite_none_right_eq_some.mp h
      obtain rfl := Option.some.inj h
      refine .of_idle (.bind .get fun t => .ite ?_ (idle_goto _))
      exact .bind (.bind .get fun _ => idle_fillSqe blind_slotPool.ringGetSqeFlush _) fun _ =>
        idle_goto _
    · cases h
  cases a with
  | kernel move => exact .idle (slotPool_kernel h)
  | worker move => exact .idle (slotPool_worker h)
  | signal =>
    obtain rfl := Option.some.inj h
    exact .idle rfl
  | _ => exact hloop h

end

/-! ## The ledger -/

section

variable {cfg : Config} {p q : PoolState} {l : List ConnId} {s s' : Daemon} {ω : Env} {i : ConnId}
  {allocated : List ConnId} {taken : ConnId → Nat}

/-- What a call does to the ledger. -/
inductive Entered (p q : PoolState) : Prop
  | none : q.ledger = p.ledger → Entered p q
  | take (i : ConnId) : p.daemon.freeList = some i → q.ledger = p.ledger.take i → Entered p q
  | free (i : ConnId) : i ∈ p.allocated → q.ledger = p.ledger.free i → Entered p q

theorem entered_call {call : PoolCall} (h : p.call call = some q) : Entered p q := by
  cases call with
  | alloc ω =>
    obtain rfl := Option.some.inj h
    rcases connAlloc_cases ω 0 p.daemon with ⟨-, hret, hpool⟩ | ⟨i, hi, ⟨-, -, hret, hpool⟩ |
      ⟨-, hret, hpool⟩⟩
    · refine .none ?_
      rw [Act.result, hret]
      exact congrArg (Ledger.mk · p.allocated p.taken) hpool
    · refine .none ?_
      rw [Act.result, hret]
      exact congrArg (Ledger.mk · p.allocated p.taken) hpool
    · refine .take i hi ?_
      rw [Act.result, hret]
      exact congrArg (Ledger.mk · (i :: p.allocated) _) hpool
  | free i ω =>
    obtain ⟨hi, h⟩ := Option.ite_none_right_eq_some.mp h
    obtain rfl := Option.some.inj h
    exact .free i hi rfl
  | cleanup i ω =>
    obtain ⟨hi, h⟩ := Option.ite_none_right_eq_some.mp h
    obtain rfl := Option.some.inj h
    refine .free i hi ?_
    exact congrArg (Ledger.mk · (p.allocated.erase i) p.taken) (slotPool_cleanupConnection i ω _)
  | other t =>
    obtain rfl := Option.some.inj h
    exact .none rfl

theorem Entered.sound (h : Entered p q) (hp : p.ledger.Sound (List.range n) l) :
    ∃ l', q.ledger.Sound (List.range n) l' := by
  rcases h with h | ⟨i, hi, h⟩ | ⟨i, hi, h⟩
  · exact ⟨l, h ▸ hp⟩
  · obtain ⟨-, rest, -, hrest⟩ := hp.take List.nodup_range hi
    exact ⟨rest, h ▸ hrest⟩
  · exact ⟨i :: l, h ▸ hp.free List.nodup_range hi⟩

/-- The peak never falls. -/
theorem Entered.peak (h : Entered p q) :
    p.daemon.peakConnections ≤ q.daemon.peakConnections := by
  change p.ledger.pool.peak ≤ q.ledger.pool.peak
  rcases h with h | ⟨i, -, h⟩ | ⟨i, -, h⟩
  · rw [h]
  · rw [h]
    exact Nat.le_max_left ..
  · rw [h]
    exact Nat.le_refl _

theorem ledger_reachable (h : (poolSystem cfg).Reachable p) :
    ∃ l, p.ledger.Sound (List.range cfg.maxConnections) l := by
  refine h.invariant (I := fun p => ∃ l, p.ledger.Sound (List.range cfg.maxConnections) l) ?_
    fun p a q ⟨l, hl⟩ _ hstep => (entered_call hstep).sound hl
  rintro p rfl
  refine ⟨List.range cfg.maxConnections, ?_, ?_, rfl, Nat.le_refl _, fun i => rfl⟩
  · have hlinked := linked_freeLink cfg.maxConnections 0 cfg.maxConnections (Nat.zero_add _)
    rwa [← List.range_eq_range'] at hlinked
  · simp [PoolState.ledger]

/-- What the ledger says. -/
theorem PoolState.Sound.of_ledger (h : p.ledger.Sound (List.range n) l) : p.Sound n l := by
  have hnodup := h.nodup List.nodup_range
  have hlength := h.active_add_length
  rw [List.length_range] at hlength
  refine ⟨h.linked, (List.nodup_append.mp hnodup).1, fun i hi => ?_, fun i hi => ?_, ?_, fun i => ?_⟩
  · exact List.mem_range.mp (h.split.mem_iff.mp (List.mem_append.mpr hi))
  · exact h.mem_iff List.nodup_range (List.mem_range.mpr hi)
  · exact Nat.eq_sub_of_add_eq hlength
  · have hcount : p.allocated.count i = if i ∈ p.allocated then 1 else 0 :=
      (List.nodup_append.mp hnodup).2.1.count
    rw [← hcount]
    exact h.taken i

theorem PoolState.AllocSound.of_ledger (h : p.ledger.Sound (List.range n) l) (ω : Env) :
    p.AllocSound ω := by
  have hcases := connAlloc_cases ω 0 p.daemon
  refine ⟨fun i hi => ?_, ⟨fun hnone => ?_, fun hnone => ?_⟩, fun hnone => ?_⟩
  · rcases hcases with ⟨-, hret, -⟩ | ⟨j, hj, ⟨-, -, hret, -⟩ | ⟨-, hret, -⟩⟩
    · cases hret.symm.trans hi
    · cases hret.symm.trans hi
    · obtain rfl := Option.some.inj (hret.symm.trans hi)
      exact (h.take List.nodup_range hj).1
  · rcases hcases with ⟨hfree, -⟩ | ⟨j, hj, ⟨hbuf, hmalloc, -⟩ | ⟨-, hret, -⟩⟩
    · exact .inl hfree
    · exact .inr ⟨j, hj, hbuf, hmalloc⟩
    · cases hret.symm.trans hnone
  · rcases hcases with ⟨-, hret, -⟩ | ⟨j, hj, ⟨-, -, hret, -⟩ | ⟨hnot, -⟩⟩
    · exact hret
    · exact hret
    · rcases hnone with hnone | ⟨i, hi, hfail⟩
      · cases hj.symm.trans hnone
      · obtain rfl := Option.some.inj (hj.symm.trans hi)
        exact absurd hfail hnot
  · rcases hcases with ⟨-, -, hpool⟩ | ⟨j, -, ⟨-, -, -, hpool⟩ | ⟨-, hret, -⟩⟩
    · exact hpool
    · exact hpool
    · cases hret.symm.trans hnone

/-! ## The daemon as a user of the pool -/

theorem withSlotPool_of_eq {r : SlotPool ConnId} (h : s.slotPool = r) : s.withSlotPool r = s := by
  subst h
  rfl

/-- A daemon that differs from one with the right pool elsewhere. -/
theorem reachable_other (h : (poolSystem cfg).Reachable ⟨s, allocated, taken⟩)
    (hpool : s'.slotPool = s.slotPool) : (poolSystem cfg).Reachable ⟨s', allocated, taken⟩ := by
  have hstep := h.step (a := .other s') trivial rfl
  rwa [withSlotPool_of_eq hpool] at hstep

theorem reachable_free (h : (poolSystem cfg).Reachable ⟨s, allocated, taken⟩)
    (hi : i ∈ allocated) (hpool : s'.slotPool = s.slotPool.free i) :
    (poolSystem cfg).Reachable ⟨s', allocated.erase i, taken⟩ := by
  have hcall : (poolSystem cfg).step ⟨s, allocated, taken⟩ (.free i .willing) =
      some ⟨(connFree i).final .willing s, allocated.erase i, taken⟩ := if_pos hi
  exact reachable_other (h.step trivial hcall) hpool

theorem reachable_take (h : (poolSystem cfg).Reachable ⟨s, allocated, taken⟩)
    (hi : s.freeList = some i) (hpool : s'.slotPool = s.slotPool.take i) :
    (poolSystem cfg).Reachable
      ⟨s', i :: allocated, Function.update taken i (taken i + 1)⟩ := by
  rcases connAlloc_cases .willing 0 s with ⟨hnone, -⟩ | ⟨j, hj, ⟨-, hmalloc, -⟩ | ⟨-, hret, hrun⟩⟩
  · cases hi.symm.trans hnone
  · cases hmalloc
  · obtain rfl := Option.some.inj (hi.symm.trans hj)
    have hcall : (poolSystem cfg).step ⟨s, allocated, taken⟩ (.alloc .willing) =
        some ⟨connAlloc.final .willing s, i :: allocated,
          Function.update taken i (taken i + 1)⟩ := by
      simp [poolSystem, PoolState.call, Act.result, hret]
    exact reachable_other (h.step trivial hcall) (hpool.trans hrun.symm)

/-- **The daemon uses its pool properly**: with the slots it holds, it is a state of the pool. -/
theorem poolSystem_of_reachable (h : (system cfg).Reachable s) :
    ∃ allocated taken, (poolSystem cfg).Reachable ⟨s, allocated, taken⟩ := by
  refine h.invariant_of (J := fun s => s.view.Base ∧ s.cfg = cfg)
    (I := fun s => ∃ allocated taken, (poolSystem cfg).Reachable ⟨s, allocated, taken⟩)
    (fun s hs => ⟨base_reachable hs, cfg_reachable hs⟩) ?_ ?_
  · rintro s ⟨k, rfl⟩
    exact ⟨[], fun _ => 0, reachable_other (.init rfl) rfl⟩
  · rintro s a s' ⟨hbase, hcfg⟩ ⟨allocated, taken, hp⟩ - hstep
    rcases pooled_step hstep with h | ⟨i, hi, h⟩ | ⟨i, hi, h⟩ | ⟨i, hi, h⟩
    · exact ⟨allocated, taken, reachable_other hp h⟩
    · -- a slot in use is not on the free list, so it is allocated
      obtain ⟨l, hl⟩ := ledger_reachable hp
      obtain ⟨l', hfree⟩ := hbase.free
      have hsame : l' = l := hl.unique hfree.linked
      have hbound : i < cfg.maxConnections := hcfg ▸ hbase.used i hi
      have hnot : i ∉ l := fun hil => hi (hfree.unused i (hsame ▸ hil)).2
      have hmem : i ∈ allocated := by
        by_contra hna
        exact hnot ((hl.mem_iff List.nodup_range (List.mem_range.mpr hbound)).mpr hna)
      exact ⟨_, _, reachable_free hp hmem h⟩
    · exact ⟨_, _, reachable_take hp hi h⟩
    · have htaken := @reachable_take _ _ (s'.withSlotPool (s.slotPool.take i)) _ _ _ hp hi rfl
      exact ⟨_, _, reachable_free htaken List.mem_cons_self h⟩

/-- **The pool is sound.** After `conn_pool_init` and any calls of `conn_alloc`, `conn_free` and
`cleanup_connection`, each for an allocated slot, every slot is either on the free list or
allocated, the counters tell how many are, and `conn_alloc` returns a slot that is not allocated.
And whatever the daemon does to its pool is a sequence of such calls. -/
theorem pool_sound (cfg : Config) :
    (∀ p, (poolSystem cfg).Reachable p →
      (∃ l, p.Sound cfg.maxConnections l) ∧ (∀ ω, p.AllocSound ω) ∧
        ∀ q, ((poolSystem cfg).startedAt p).Reachable q →
          p.daemon.activeConnections ≤ q.daemon.peakConnections) ∧
      ∀ s, (system cfg).Reachable s →
        ∃ allocated taken, (poolSystem cfg).Reachable ⟨s, allocated, taken⟩ := by
  refine ⟨fun p hp => ?_, fun s hs => poolSystem_of_reachable hs⟩
  obtain ⟨l, hl⟩ := ledger_reachable hp
  refine ⟨⟨l, .of_ledger hl⟩, fun ω => .of_ledger hl ω, fun q hq => ?_⟩
  refine hq.invariant (I := fun q => p.daemon.activeConnections ≤ q.daemon.peakConnections) ?_
    fun q a q' hq _ hstep => Nat.le_trans hq (entered_call hstep).peak
  rintro q rfl
  exact hl.peak

end

end SocketHandoff.Uring
