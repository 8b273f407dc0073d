import SocketHandoff.Uring.Runs

/-!
# What the handlers leave alone

The handlers of a connection work on its slot. The `Core` of the daemon is what lies beside the
slots: the completion queue, the entries for no slot, the workers and the sockets of libcurl. A
property of the core is kept by all the code that handles connections, with two exceptions: a
received descriptor may go to the workers, and freeing a connection may call libcurl, which calls
back. So a property is `Framed` when it is one of the core and the callbacks keep it, and then every
handler keeps it that hands nothing to the workers.
-/

namespace SocketHandoff.Uring

variable {α β : Type} {I : Daemon → Prop} {s : Daemon} {r : Sqe} {i : ConnId}

/-- The daemon beside its slots. -/
@[ext]
structure Core where
  cfg : Config
  /-- the entries for no slot, in flight or queued -/
  entries : List Sqe
  cq : List Cqe
  queue : List ConnId
  working : List (ConnId × Stage)
  completions : List ConnId
  signals : Nat
  sockets : Fd → SocketInfo
  timerId : Nat
  timerActive : Bool
  shutdownRequested : Bool
  inMainLoop : Bool
  pc : Pc

/-- The core of a daemon: what is left when everything that belongs to a slot is taken away. Code
that works on one connection leaves it as it is, but for the lines of the frame that name what it
may touch. -/
def Daemon.core (s : Daemon) : Core where
  cfg := s.cfg
  entries := (s.inflight ++ s.sq).filter fun r => r.slot? = none
  cq := s.cq
  queue := s.pool.queue
  working := s.pool.working
  completions := s.pool.completions
  signals := s.pool.signals
  sockets := s.curl.sockets
  timerId := s.curl.timerId
  timerActive := s.curl.timerActive
  shutdownRequested := s.shutdownRequested
  inMainLoop := s.inMainLoop
  pc := s.pc

@[simp] theorem core_submit (k : Nat) : (s.submit k).core = s.core := by
  have h : s.inflight ++ s.sq.take k ++ s.sq.drop k = s.inflight ++ s.sq := by
    rw [List.append_assoc, List.take_append_drop]
  simp only [Daemon.core, Daemon.submit, h]

theorem core_queue (h : r.slot? = some i) : (s.queue r).core = s.core := by
  simp [Daemon.core, Daemon.queue, h]

/-! ## Code that keeps a property -/

/-- The code keeps `I`, whatever the environment answers. -/
def Preserves (I : Daemon → Prop) (m : Loop α) : Prop := ∀ ω st, I st.2 → I (m ω st).2.2

namespace Preserves

theorem pure (a : α) : Preserves I (Pure.pure a : Loop α) := fun _ _ h => h

theorem bind {m : Loop α} {k : α → Loop β} (hm : Preserves I m) (hk : ∀ a, Preserves I (k a)) :
    Preserves I (m >>= k) := fun ω st h => hk _ ω _ (hm ω st h)

theorem get : Preserves I (Act.get : Loop Daemon) := fun _ _ h => h

theorem modify {f : Daemon → Daemon} (h : ∀ s, I s → I (f s)) :
    Preserves I (Act.modify f : Loop Unit) := fun _ st => h st.2

theorem ask {answer : Env → Nat → Daemon → α × Daemon}
    (h : ∀ ω n s, I s → I (answer ω n s).2) : Preserves I (Act.ask answer : Loop α) :=
  fun ω st => h ω st.1 st.2

theorem ite {c : Prop} [Decidable c] {m m' : Loop α} (h : c → Preserves I m)
    (h' : ¬ c → Preserves I m') : Preserves I (if c then m else m') := by
  by_cases hc : c
  · rw [if_pos hc]; exact h hc
  · rw [if_neg hc]; exact h' hc

/-- What a step of the main loop keeps. -/
theorem exec {m : Loop Unit} (h : Preserves I m) (hs : I s) (ω : Env) : I (s.exec m ω) :=
  h ω (0, s) hs

end Preserves

/-- A property of the core that the callbacks of libcurl keep. They may be called wherever libcurl
is, so that such a property can be carried past any call of it. -/
structure Framed (I : Daemon → Prop) : Prop where
  core : ∀ {s s' : Daemon}, s'.core = s.core → I s → I s'
  callbacks : Preserves I curlCallbacks

/-- A property that does not depend on where the main loop is. -/
def Anywhere (I : Daemon → Prop) : Prop := ∀ s pc, I s → I { s with pc := pc }

/-- A property that does not depend on what waits for the workers. -/
def AnyQueue (I : Daemon → Prop) : Prop :=
  ∀ s queue, I s → I (s.setPool { s.pool with queue := queue })

section
variable (F : Framed I)
include F

theorem Framed.modify {f : Daemon → Daemon} (h : ∀ s, (f s).core = s.core) :
    Preserves I (Act.modify f : Loop Unit) :=
  .modify fun s => F.core (h s)

theorem Framed.ask {answer : Env → Nat → Daemon → α × Daemon}
    (h : ∀ ω n s, (answer ω n s).2.core = s.core) : Preserves I (Act.ask answer : Loop α) :=
  .ask fun ω n s => F.core (h ω n s)

/-! ### Connections and memory -/

omit F in
theorem preserves_connOf (i : ConnId) : Preserves I (connOf i) := .bind .get fun _ => .pure _

theorem preserves_updateConn (i : ConnId) (f : Connection → Connection) :
    Preserves I (updateConn i f) := F.modify fun _ => rfl

theorem preserves_note (e : Event) : Preserves I (note e) := F.modify fun _ => rfl

theorem preserves_malloc : Preserves I malloc :=
  F.ask fun ω n s => by cases h : ω.malloc n <;> rfl

theorem preserves_realloc (b : Block) : Preserves I (realloc b) :=
  F.ask fun ω n s => by cases h : ω.realloc n <;> rfl

theorem preserves_countFailed : Preserves I countFailed := F.modify fun s => by split <;> rfl

theorem preserves_countCompleted (i : ConnId) : Preserves I (countCompleted i) :=
  F.modify fun s => by split <;> rfl

theorem preserves_countStarted : Preserves I countStarted := F.modify fun s => by split <;> rfl

/-! ### The ring -/

theorem preserves_ioUringSubmit : Preserves I ioUringSubmit :=
  F.ask fun ω n _ => core_submit (ω.consumed n)

omit F in
theorem preserves_ioUringGetSqe : Preserves I ioUringGetSqe := .bind .get fun _ => .pure _

theorem preserves_ringGetSqeFlush : Preserves I ringGetSqeFlush := by
  refine .bind (preserves_ioUringGetSqe) fun _ => .ite (fun _ => .pure _) fun _ => ?_
  exact .bind (preserves_ioUringSubmit F) fun _ => preserves_ioUringGetSqe

theorem preserves_fillSqe {getSqe : Loop Bool} (hg : Preserves I getSqe)
    (hr : r.slot? = some i) : Preserves I (fillSqe getSqe r) := by
  refine .bind hg fun _ => .ite (fun _ => ?_) fun _ => .pure _
  exact .bind (F.modify fun _ => core_queue hr) fun _ => .pure _

theorem preserves_ringSubmitRecvmsg (i : ConnId) : Preserves I (ringSubmitRecvmsg i) :=
  .bind .get fun _ => preserves_fillSqe F (preserves_ringGetSqeFlush F) rfl

theorem preserves_ringSubmitWrite (i : ConnId) (buf : Buf) (len : Nat) :
    Preserves I (ringSubmitWrite i buf len) :=
  .bind .get fun _ => preserves_fillSqe F (preserves_ringGetSqeFlush F) rfl

theorem preserves_ringSubmitLinkedTimeout (i : ConnId) : Preserves I (ringSubmitLinkedTimeout i) :=
  .bind .get fun _ => preserves_fillSqe F (preserves_ioUringGetSqe) rfl

/-! ### The lists -/

theorem preserves_unlinkDirty (prev : Option ConnId) (i : ConnId) (next : Option ConnId) :
    Preserves I (unlinkDirty prev i next) :=
  .bind (preserves_updateConn F _ _) fun _ => F.modify fun _ => rfl

theorem preserves_daemonMarkConnectionDirty (i : ConnId) :
    Preserves I (daemonMarkConnectionDirty i) := by
  refine .bind (preserves_connOf i) fun _ => .ite (fun _ => .pure _) fun _ => ?_
  exact .bind (preserves_updateConn F _ _) fun _ => F.modify fun _ => rfl

theorem preserves_daemonUnmarkConnectionDirty (i : ConnId) :
    Preserves I (daemonUnmarkConnectionDirty i) := by
  refine .bind .get fun s => .ite (fun _ => ?_) fun _ => .pure _
  cases predecessor s.dirty.next i (s.cfg.maxConnections + 1) none s.dirty.head with
  | some prev => exact preserves_unlinkDirty F _ _ _
  | none => exact .bind (preserves_updateConn F _ _) fun _ => F.modify fun _ => rfl

/-! ### Cleaning up and writing -/

theorem preserves_curlRemoveHandle (easy : Easy) : Preserves I (curlRemoveHandle easy) :=
  .bind (F.modify fun _ => rfl) fun _ => F.callbacks

theorem preserves_cleanupConnection (i : ConnId) : Preserves I (cleanupConnection i) := by
  refine .bind (.bind .get fun s => .ite (fun _ => ?_) fun _ => .pure _) fun _ =>
    .bind (preserves_daemonUnmarkConnectionDirty F i) fun _ => F.modify fun _ => rfl
  refine .bind (preserves_connOf i) fun c => ?_
  cases c.curlEasy with
  | none => exact .pure _
  | some easy =>
    exact .bind (preserves_curlRemoveHandle F easy) fun _ => preserves_updateConn F _ _

theorem preserves_failConnection (i : ConnId) : Preserves I (failConnection i) :=
  .bind (preserves_countFailed F) fun _ => preserves_cleanupConnection F i

theorem preserves_submitOrCleanup {i : ConnId} {buf : Buf} {len : Nat} {refused : Loop Unit}
    (hr : Preserves I refused) : Preserves I (submitOrCleanup i buf len refused) := by
  refine .bind (preserves_ringSubmitWrite F i buf len) fun _ => .ite (fun _ => ?_) fun _ => ?_
  · refine .bind (preserves_ringSubmitLinkedTimeout F i) fun _ => .ite (fun _ => .pure _) fun _ => ?_
    refine .bind (preserves_countFailed F) fun _ => .bind (preserves_note F _) fun _ => ?_
    exact .bind (preserves_cleanupConnection F i) fun _ => .pure _
  · exact .bind hr fun _ => .bind (preserves_cleanupConnection F i) fun _ => .pure _

theorem preserves_startStreaming (i : ConnId) : Preserves I (startStreaming i) := by
  refine .bind (preserves_updateConn F _ _) fun _ => ?_
  exact .bind (preserves_submitOrCleanup F (preserves_countFailed F)) fun _ => .pure _

theorem preserves_startAsyncWrite (i : ConnId) : Preserves I (startAsyncWrite i) := by
  refine .bind (preserves_connOf i) fun c => ?_
  cases c.asyncWriteBuf with
  | none => exact .pure _
  | some wb =>
    refine .ite (fun _ => ?_) fun _ => .pure _
    refine .bind (preserves_submitOrCleanup F (preserves_countFailed F)) fun _ =>
      .ite (fun _ => ?_) fun _ => .pure _
    exact .bind (preserves_updateConn F _ _) fun _ => preserves_ioUringSubmit F

/-! ### Accepting and receiving -/

theorem preserves_ensureHandoffBuf (i : ConnId) : Preserves I (ensureHandoffBuf i) := by
  refine .bind (preserves_connOf i) fun _ => .ite (fun _ => .pure _) fun _ => ?_
  refine .bind (preserves_malloc F) fun b => ?_
  cases b with
  | none => exact .pure _
  | some b => exact .bind (preserves_updateConn F _ _) fun _ => .pure _

theorem preserves_connAlloc : Preserves I connAlloc := by
  refine .bind .get fun s => ?_
  cases s.freeList with
  | none => exact .pure _
  | some i =>
    refine .bind (F.modify fun _ => rfl) fun _ => .bind (preserves_ensureHandoffBuf F i) fun _ => ?_
    exact .ite (fun _ => .bind (F.modify fun _ => rfl) fun _ => .pure _) fun _ =>
      .bind (F.modify fun _ => rfl) fun _ => .pure _

theorem preserves_acceptConnection (fd : Fd) : Preserves I (acceptConnection fd) := by
  refine .bind (preserves_connAlloc F) fun i => ?_
  cases i with
  | none => exact .pure _
  | some i =>
    refine .bind (preserves_updateConn F _ _) fun _ => .bind (preserves_countStarted F) fun _ => ?_
    refine .bind (preserves_updateConn F _ _) fun _ => .bind (preserves_ringSubmitRecvmsg F i) fun _ => ?_
    exact .ite (fun _ => .pure _) fun _ => preserves_cleanupConnection F i

theorem preserves_poolSubmit (hq : AnyQueue I) (i : ConnId) : Preserves I (poolSubmit i) := by
  refine .bind (preserves_malloc F) fun b => ?_
  cases b with
  | none => exact .pure _
  | some b => exact .bind (.modify fun s => hq s _) fun _ => .pure _

theorem preserves_curlManagerStartRequest (i : ConnId) :
    Preserves I (curlManagerStartRequest i) := by
  have hquiet : Preserves I startAllocations := by
    refine .bind (preserves_malloc F) fun b => ?_
    cases b with
    | none => exact .pure _
    | some b =>
      refine .bind (F.ask fun _ _ _ => rfl) fun _ => .ite (fun _ => ?_) fun _ => .pure _
      refine .bind (preserves_malloc F) fun b => ?_
      cases b with
      | none => exact .pure _
      | some b => exact .bind (preserves_malloc F) fun _ => .pure _
  refine .bind .get fun s => .ite (fun _ => ?_) fun _ => .pure _
  refine .bind hquiet fun _ => .ite (fun _ => ?_) fun _ => .pure _
  refine .bind (preserves_updateConn F _ _) fun _ => .bind (F.ask fun _ _ _ => rfl) fun _ => ?_
  refine .ite (fun _ => .bind (F.modify fun _ => rfl) fun _ => ?_) fun _ => ?_
  · exact .bind F.callbacks fun _ => .pure _
  · exact .bind (preserves_updateConn F _ _) fun _ => .pure _

theorem preserves_parseHandoff (i : ConnId) : Preserves I (parseHandoff i) :=
  .bind .get fun _ => .bind (preserves_note F _) fun _ => preserves_updateConn F _ _

omit F in
theorem preserves_goto (hpc : Anywhere I) (pc : Pc) : Preserves I (goto pc) :=
  .modify fun s => hpc s pc

variable (hpc : Anywhere I) (hq : AnyQueue I)
include hpc hq

theorem preserves_startResponse (i : ConnId) : Preserves I (startResponse i) := by
  refine .bind .get fun s => ?_
  cases s.cfg.mode with
  | curlMulti =>
    refine .bind (preserves_curlManagerStartRequest F i) fun _ => ?_
    exact .ite (fun _ => preserves_goto hpc _) fun _ => preserves_failConnection F i
  | threadPool =>
    refine .bind (preserves_updateConn F _ _) fun _ => .bind (preserves_poolSubmit F hq i) fun _ => ?_
    exact .ite (fun _ => .pure _) fun _ => preserves_failConnection F i
  | direct =>
    exact .bind (preserves_updateConn F _ _) fun _ => preserves_startStreaming F i

theorem preserves_handleRecvFd (i : ConnId) (res : Int) : Preserves I (handleRecvFd i res) := by
  refine .ite (fun _ => preserves_failConnection F i) fun _ => ?_
  refine .bind (preserves_updateConn F _ _) fun _ => .bind (preserves_connOf i) fun c => ?_
  cases handoffExtractFd c.recv with
  | none => exact preserves_failConnection F i
  | some fd =>
    refine .bind (preserves_updateConn F _ _) fun _ => .bind (F.ask fun _ _ _ => rfl) fun _ => ?_
    refine .ite (fun _ => ?_) fun _ => preserves_failConnection F i
    exact .bind (preserves_parseHandoff F i) fun _ => preserves_startResponse F hpc hq i

omit hpc hq

/-! ### Write completions -/

theorem preserves_handleAsyncWrite (i : ConnId) (res : Int) :
    Preserves I (handleAsyncWrite i res) := by
  refine .ite (fun _ => preserves_failConnection F i) fun _ => ?_
  refine .bind (preserves_updateConn F _ _) fun _ => .bind (preserves_connOf i) fun _ => ?_
  refine .ite (fun _ => preserves_startAsyncWrite F i) fun _ => .ite (fun _ => ?_) fun _ => .pure _
  exact .bind (preserves_countCompleted F i) fun _ => preserves_cleanupConnection F i

theorem preserves_nextWrite (i : ConnId) : Preserves I (nextWrite i) := by
  simp only [nextWrite]
  refine .bind (preserves_connOf i) fun c => .bind (preserves_updateConn F _ _) fun _ => ?_
  generalize (streamNextMessage c).1 = msg
  cases msg with
  | none =>
    refine .bind (preserves_updateConn F _ _) fun _ => ?_
    exact .bind (preserves_submitOrCleanup F (preserves_countCompleted F i)) fun _ => .pure _
  | some msg =>
    refine .bind (preserves_malloc F) fun b => ?_
    cases b with
    | none => exact preserves_failConnection F i
    | some b =>
      simp only
      cases streamFormatSse 4096 msg with
      | none => exact preserves_failConnection F i
      | some frame =>
        refine .bind (preserves_updateConn F _ _) fun _ => ?_
        exact .bind (preserves_submitOrCleanup F (preserves_countFailed F)) fun _ => .pure _

theorem preserves_handleWrite (i : ConnId) (res : Int) : Preserves I (handleWrite i res) := by
  refine .ite (fun _ => preserves_failConnection F i) fun _ => ?_
  refine .bind (preserves_updateConn F _ _) fun _ => .bind (preserves_connOf i) fun c => ?_
  refine .ite (fun _ => ?_) fun _ => ?_
  · cases c.writeBuf with
    | none => exact preserves_failConnection F i
    | some block =>
      exact .bind (preserves_submitOrCleanup F (preserves_countFailed F)) fun _ => .pure _
  · refine .bind (preserves_updateConn F _ _) fun _ => .ite (fun _ => ?_) fun _ =>
      preserves_nextWrite F i
    exact .bind (preserves_countCompleted F i) fun _ => preserves_cleanupConnection F i

omit F in
theorem preserves_connGet (id : Nat) : Preserves I (connGet id) := .bind .get fun _ => .pure _

theorem preserves_processWrite (id : Nat) (res : Int) : Preserves I (processWrite id res) := by
  refine .bind (preserves_connGet id) fun i => ?_
  cases i with
  | none => exact .pure _
  | some i =>
    refine .bind (preserves_connOf i) fun c => .ite (fun _ => ?_) fun _ => ?_
    · exact .ite (fun _ => preserves_handleAsyncWrite F i res) fun _ => .pure _
    · exact .ite (fun _ => preserves_handleWrite F i res) fun _ => .pure _

theorem preserves_processRecvFd (hpc : Anywhere I) (hq : AnyQueue I) (id : Nat) (res : Int) :
    Preserves I (processRecvFd id res) := by
  refine .bind (preserves_connGet id) fun i => ?_
  cases i with
  | none => exact .pure _
  | some i =>
    refine .bind (preserves_connOf i) fun c => ?_
    exact .ite (fun _ => preserves_handleRecvFd F hpc hq i res) fun _ => .pure _

theorem preserves_handleCompletion (i : ConnId) : Preserves I (handleCompletion i) := by
  refine .bind (preserves_connOf i) fun c => ?_
  cases c.state with
  | streaming => exact preserves_startStreaming F i
  | streamed =>
    exact .bind (preserves_countCompleted F i) fun _ => preserves_cleanupConnection F i
  | closing => exact preserves_failConnection F i
  | _ => exact .pure _

/-! ### Response data -/

theorem preserves_writeBufferAppend (i : ConnId) (wb : WriteBuffer) (data : List UInt8) :
    Preserves I (writeBufferAppend i wb data) := by
  refine .bind (preserves_realloc F _) fun b => .bind (preserves_updateConn F _ _) fun _ => ?_
  exact .ite (fun _ => .bind (preserves_note F _) fun _ => .pure _) fun _ => .pure _

theorem preserves_ensureWriteBuffer (i : ConnId) : Preserves I (ensureWriteBuffer i) := by
  refine .bind (preserves_connOf i) fun c => ?_
  cases c.asyncWriteBuf with
  | some wb => exact .pure _
  | none =>
    refine .bind (preserves_malloc F) fun b => ?_
    cases b with
    | none => exact .pure _
    | some b =>
      refine .bind (preserves_malloc F) fun b => ?_
      cases b with
      | none => exact .pure _
      | some b => exact .bind (preserves_updateConn F _ _) fun _ => .pure _

theorem preserves_queueForClient (i : ConnId) (data : List UInt8) :
    Preserves I (queueForClient i data) := by
  refine .bind (preserves_ensureWriteBuffer F i) fun wb => ?_
  cases wb with
  | none => exact .pure _
  | some wb =>
    refine .bind (preserves_writeBufferAppend F i wb data) fun r => ?_
    cases r with
    | ok => exact .bind (preserves_daemonMarkConnectionDirty F i) fun _ => .pure _
    | noMemory | full => exact .pure _

theorem preserves_tryImmediateWrite (i : ConnId) : Preserves I (tryImmediateWrite i) := by
  refine .bind (preserves_connOf i) fun c => ?_
  cases c.asyncWriteBuf with
  | none => exact .pure _
  | some wb =>
    refine .ite (fun _ => ?_) fun _ => .pure _
    refine .bind (preserves_ringSubmitWrite F _ _ _) fun _ => .ite (fun _ => ?_) fun _ => .pure _
    refine .bind (preserves_ringSubmitLinkedTimeout F i) fun _ => ?_
    exact .bind (preserves_updateConn F _ _) fun _ => preserves_ioUringSubmit F

theorem preserves_processSseLine (easy : Easy) (i : ConnId) (line : List UInt8) :
    Preserves I (processSseLine easy i line) := by
  refine .ite (fun _ => .pure _) fun _ => ?_
  cases streamFormatSse 8192 (sseContent line) with
  | none => exact .pure _
  | some frame =>
    refine .bind (preserves_queueForClient F i frame) fun _ => .ite (fun _ => ?_) fun _ => .pure _
    refine .bind (preserves_tryImmediateWrite F i) fun _ => ?_
    exact .bind (F.modify fun _ => rfl) fun _ => .pure _

theorem preserves_processSseLines (easy : Easy) (i : ConnId) (lines : List (List UInt8)) :
    Preserves I (processSseLines easy i lines) := by
  induction lines with
  | nil => exact .pure _
  | cons line rest ih =>
    exact .bind (preserves_processSseLine F easy i line) fun _ => .ite (fun _ => ih) fun _ => .pure _

theorem preserves_growSseLine (i : ConnId) (len : Nat) (line : List UInt8 × Nat) :
    Preserves I (growSseLine i len line) := by
  refine .bind (preserves_updateConn F _ _) fun _ => .ite (fun _ => ?_) fun _ => .pure _
  refine .bind (preserves_realloc F 0) fun b => ?_
  cases b <;> exact .pure _

theorem preserves_ensureSseLine (i : ConnId) (len : Nat) : Preserves I (ensureSseLine i len) := by
  refine .bind (preserves_connOf i) fun c => ?_
  cases c.sseLine with
  | some line => exact preserves_growSseLine F i len line
  | none =>
    refine .bind (preserves_malloc F) fun b => ?_
    cases b with
    | none => exact .pure _
    | some b => exact preserves_growSseLine F i len ([], 4096)

theorem preserves_sendHeaders (easy : Easy) (i : ConnId) : Preserves I (sendHeaders easy i) := by
  refine .bind (preserves_queueForClient F i _) fun _ => .ite (fun _ => ?_) fun _ => .pure _
  refine .bind (F.modify fun _ => rfl) fun _ => .bind (preserves_updateConn F _ _) fun _ => ?_
  exact .bind (preserves_tryImmediateWrite F i) fun _ => .pure _

theorem preserves_receiveChunk (easy : Easy) (i : ConnId) (chunk : List UInt8) :
    Preserves I (receiveChunk easy i chunk) := by
  refine .bind (preserves_ensureSseLine F i _) fun line => ?_
  cases line with
  | none => exact .pure _
  | some line =>
    refine .bind (preserves_updateConn F _ _) fun _ => ?_
    refine .bind (preserves_processSseLines F easy i _) fun _ => .ite (fun _ => ?_) fun _ => .pure _
    refine .bind (preserves_updateConn F _ _) fun _ => ?_
    exact .bind (preserves_tryImmediateWrite F i) fun _ => .pure _

theorem preserves_curlDeliver (req : CurlRequest) (chunk : List UInt8) :
    Preserves I (curlDeliver req chunk) := by
  have hwrite : Preserves I (writeCallback req chunk) := by
    refine .ite (fun _ => preserves_receiveChunk F _ _ _) fun _ => ?_
    refine .bind (preserves_sendHeaders F _ _) fun _ => ?_
    exact .ite (fun _ => preserves_receiveChunk F _ _ _) fun _ => .pure _
  refine .bind hwrite fun _ => .ite (fun _ => .pure _) fun _ => ?_
  exact .ite (fun _ => .pure _) fun _ => F.modify fun _ => rfl

theorem preserves_checkCompletion (req : CurlRequest) (done : Finished) :
    Preserves I (checkCompletion req done) := by
  refine .bind (preserves_curlRemoveHandle F _) fun _ => .bind ?_ fun _ =>
    .bind (preserves_updateConn F _ _) fun _ => preserves_updateConn F _ _
  refine .ite (fun _ => .bind (preserves_connOf _) fun c => ?_) fun _ => .pure _
  cases c.asyncWriteBuf with
  | none => exact .pure _
  | some wb =>
    refine .bind (preserves_writeBufferAppend F _ _ _) fun r => ?_
    cases r with
    | ok => exact preserves_daemonMarkConnectionDirty F _
    | noMemory | full => exact .pure _

/-! ### The dirty list and the end of an iteration -/

theorem preserves_flushConnection (hpc : Anywhere I) (i : ConnId) (prev : Option ConnId)
    (last : Bool) : Preserves I (flushConnection i prev last) := by
  have hreread : Preserves I (rereadWriteBuf i) := by
    refine .bind (preserves_connOf i) fun c => ?_
    cases c.asyncWriteBuf with
    | some wb => exact .pure _
    | none => exact .bind (preserves_note F _) fun _ => F.ask fun _ _ _ => rfl
  have hgoto := preserves_goto hpc
  refine .bind .get fun s => .ite (fun _ => ?_) fun _ => ?_
  · simp only
    cases (s.connections i).asyncWriteBuf with
    | none => exact hgoto _
    | some wb =>
      refine .bind (preserves_startAsyncWrite F i) fun _ => .bind hreread fun _ => ?_
      exact .ite (fun _ => .bind (preserves_unlinkDirty F _ _ _) fun _ => hgoto _) fun _ => hgoto _
  · exact .bind (preserves_unlinkDirty F _ _ _) fun _ => hgoto _

end

end SocketHandoff.Uring
