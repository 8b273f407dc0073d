import SocketHandoff.Lib.Act
import SocketHandoff.Lib.BufferPool

/-!
# Receiving a file descriptor

`receiveFd` of the Go daemon, with the arrays of its two pools and the file descriptors it closes.
The two parsers of the `syscall` package are parameters; a message that they return lies in the
control buffer, so that reading its rights is an access to that buffer.
-/

namespace SocketHandoff.Go

open BufferPool

inductive Pool
  | handoffBufPool
  | oobBufPool
  deriving DecidableEq, Repr

/-- What `ReadMsgUnix` reads, with the two flags that are looked at. -/
structure UnixMessage where
  data : List UInt8
  oob : List UInt8
  trunc : Bool
  ctrunc : Bool

/-- A connection, with what its two calls return. -/
inductive Conn
  | other
  | unix (setReadDeadline : Option String) (readMsgUnix : Except String UnixMessage)

structure Receiver where
  store : Store Pool
  /-- the file descriptors that have been closed -/
  closed : List Int

/-- The array that a pool gives out, if it has it; a pool may also make a new one. -/
structure PoolEnv where
  pooled : Nat → Nat

abbrev Receive := Act PoolEnv Receiver

def poolGet (p : Pool) (size : Nat) : Receive Nat :=
  Act.ask fun ω n w =>
    ((w.store.get p size (ω.pooled n)).1, { w with store := (w.store.get p size (ω.pooled n)).2 })

def poolPut (p : Pool) (ptr : Nat) : Receive Unit :=
  Act.modify fun w => { w with store := w.store.put p ptr }

def writeBuffer (p : Pool) (ptr : Nat) (bytes : List UInt8) : Receive Unit :=
  Act.modify fun w => { w with store := w.store.write p ptr bytes }

def readBuffer (p : Pool) (ptr : Nat) : Receive (List UInt8) :=
  Act.ask fun _ _ w => ((w.store.read p ptr).1, { w with store := (w.store.read p ptr).2 })

/-- `make` and `copy`. -/
def makeCopy (bytes : List UInt8) : Receive Nat :=
  Act.ask fun _ _ w => ((w.store.alloc .owned bytes).1,
    { w with store := (w.store.alloc .owned bytes).2 })

/-- `syscall.Close`. -/
def closeFd (fd : Int) : Receive Unit :=
  Act.modify fun w => { w with closed := w.closed ++ [fd] }

def closeFds : List Int → Receive Unit
  | [] => return ()
  | fd :: fds => do
    closeFd fd
    closeFds fds

section Parsers

/-! ## `receiveFd` -/

variable {σ : Type} (parseSocketControlMessage : List UInt8 → Except String (List σ))
  (parseUnixRights : σ → Except String (List Int)) (maxHandoffDataSize : Nat)

/-- `syscall.ParseUnixRights` of a message. -/
def readRights (oobPtr : Nat) (msg : σ) : Receive (Except String (List Int)) := do
  let _ ← readBuffer .oobBufPool oobPtr
  return parseUnixRights msg

def closeRights (oobPtr : Nat) : List σ → Receive Unit
  | [] => return ()
  | msg :: msgs => do
    match ← readRights parseUnixRights oobPtr msg with
    | .error _ => closeRights oobPtr msgs
    | .ok fds =>
      closeFds fds
      closeRights oobPtr msgs

def closeReceivedFDs (oobPtr : Nat) : Except String (List σ) → Receive Unit
  | .error _ => return ()
  | .ok msgs => closeRights parseUnixRights oobPtr msgs

/-- The loop that appends to `allFds`. -/
def collectFds (oobPtr : Nat) (allFds : List Int) : List σ → Receive (List Int)
  | [] => return allFds
  | msg :: msgs => do
    match ← readRights parseUnixRights oobPtr msg with
    | .error _ => collectFds oobPtr allFds msgs
    | .ok fds => collectFds oobPtr (allFds ++ fds) msgs

/-- An exit with an error, behind which both buffers are in their pools again. -/
def putBoth {α : Type} (bufPtr oobPtr : Nat) (r : α) : Receive α := do
  poolPut .handoffBufPool bufPtr
  poolPut .oobBufPool oobPtr
  return r

/-- What is done with a message that has been read. Every exit puts both buffers back, and one that
is an error closes the descriptors that it can find. The data is copied out before its buffer goes
back to the pool, where the next message is written over it. -/
def receiveMessage (bufPtr oobPtr : Nat) (msg : UnixMessage) :
    Receive (Except String (Int × Nat)) := do
  let oob ← readBuffer .oobBufPool oobPtr
  let msgs := parseSocketControlMessage (oob.take msg.oob.length)
  if msg.trunc then
    closeReceivedFDs parseUnixRights oobPtr msgs
    putBoth bufPtr oobPtr (.error
      s!"handoff data truncated (exceeded {maxHandoffDataSize} byte buffer); increase MaxHandoffDataSize")
  else if msg.ctrunc then
    closeReceivedFDs parseUnixRights oobPtr msgs
    putBoth bufPtr oobPtr (.error "control message truncated; fd may be corrupted")
  else
    match msgs with
    | .error parseErr =>
      putBoth bufPtr oobPtr (.error ("parse control message failed: " ++ parseErr))
    | .ok [] => putBoth bufPtr oobPtr (.error "no control messages received")
    | .ok (m :: msgs) =>
      match ← collectFds parseUnixRights oobPtr [] (m :: msgs) with
      | [] => putBoth bufPtr oobPtr (.error "no file descriptors received")
      | fd :: extraFds =>
        closeFds extraFds
        let buf ← readBuffer .handoffBufPool bufPtr
        let data ← makeCopy (buf.take msg.data.length)
        putBoth bufPtr oobPtr (.ok (fd, data))

/-- `receiveFd`: a deadline for the read, a buffer from each pool, and one read into them. The
buffers are taken behind the deadline, so that the two exits before them have nothing to put back.
What the kernel returns is written over what an earlier message has left there. -/
def receiveFd : Conn → Receive (Except String (Int × Nat))
  | .other => return .error "not a Unix connection"
  | .unix (some err) _ => return .error ("could not set read deadline: " ++ err)
  | .unix none readMsgUnix => do
    let bufPtr ← poolGet .handoffBufPool maxHandoffDataSize
    let oobPtr ← poolGet .oobBufPool 256
    match readMsgUnix with
    | .error err => putBoth bufPtr oobPtr (.error ("ReadMsgUnix failed: " ++ err))
    | .ok msg =>
      writeBuffer .handoffBufPool bufPtr msg.data
      writeBuffer .oobBufPool oobPtr msg.oob
      receiveMessage parseSocketControlMessage parseUnixRights maxHandoffDataSize bufPtr oobPtr msg

/-! ## What is received -/

/-- The file descriptors of a message; one that is no message of rights has none. -/
def rightsOf (msg : σ) : List Int :=
  match parseUnixRights msg with
  | .ok fds => fds
  | .error _ => []

/-- The file descriptors that have come with a message, where its control block is one. -/
def UnixMessage.fds (msg : UnixMessage) : List Int :=
  match parseSocketControlMessage msg.oob with
  | .ok msgs => msgs.flatMap (rightsOf parseUnixRights)
  | .error _ => []

def Conn.fds : Conn → List Int
  | .unix none (.ok msg) => msg.fds parseSocketControlMessage parseUnixRights
  | _ => []

/-- **What becomes of the file descriptors and of the buffers.** A descriptor is closed once or
returned, a buffer is put back once and not looked at behind that, and the data is in an array that
no pool knows. -/
inductive Conserved (conn : Conn) (w₀ : Receiver) :
    Except String (Int × Nat) → Receiver → Prop
  | failed {err : String} {w : Receiver} (since : w₀.store.Since [] w.store)
      (closed : w.closed = w₀.closed ++ conn.fds parseSocketControlMessage parseUnixRights) :
      Conserved conn w₀ (.error err) w
  | received {fd : Int} {extraFds : List Int} {data : Nat} {msg : UnixMessage} {w : Receiver}
      (since : w₀.store.Since [] w.store)
      (hfds : conn.fds parseSocketControlMessage parseUnixRights = fd :: extraFds)
      (closed : w.closed = w₀.closed ++ extraFds)
      (hmsg : conn = .unix none (.ok msg)) (new : w₀.store.place data = none)
      (place : w.store.place data = some .owned) (bytes : w.store.bytes data = some msg.data) :
      Conserved conn w₀ (.ok (fd, data)) w

end Parsers

/-! ## Both buffers are out -/

variable {σ : Type} {parseSocketControlMessage : List UInt8 → Except String (List σ)}
  {parseUnixRights : σ → Except String (List Int)} {maxHandoffDataSize : Nat} {ω : PoolEnv}
  {w₀ : Receiver} {bufPtr oobPtr : Nat} {done : List Int} {msg : UnixMessage}

/-- Both buffers have been taken, and these file descriptors have been closed. -/
structure Holding (w₀ : Receiver) (bufPtr oobPtr : Nat) (done : List Int) (w : Receiver) : Prop where
  since : w₀.store.Since [oobPtr, bufPtr] w.store
  buf : w₀.store.Borrowed .handoffBufPool bufPtr w.store
  oob : w₀.store.Borrowed .oobBufPool oobPtr w.store
  ne : bufPtr ≠ oobPtr
  closed : w.closed = w₀.closed ++ done

/-- And a message has been read into them. -/
structure Filled (w₀ : Receiver) (bufPtr oobPtr : Nat) (msg : UnixMessage) (done : List Int)
    (w : Receiver) : Prop extends Holding w₀ bufPtr oobPtr done w where
  data : ((w.store.bytes bufPtr).getD []).take msg.data.length = msg.data
  control : ((w.store.bytes oobPtr).getD []).take msg.oob.length = msg.oob

/-- Both are put back; what is said of the other arrays stays true. -/
theorem putBoth_holding {α : Type} {K : Store Pool → Prop}
    (hput : ∀ s p r, K s → K (s.put p r)) (r : α) :
    Act.Triple ω (fun w => Holding w₀ bufPtr oobPtr done w ∧ K w.store) (putBoth bufPtr oobPtr r)
      fun r' w => r' = r ∧ w₀.store.Since [] w.store ∧ w.closed = w₀.closed ++ done ∧
        K w.store := by
  refine .bind (Q := fun _ w => w₀.store.Since [oobPtr] w.store ∧
      w₀.store.Borrowed .oobBufPool oobPtr w.store ∧ w.closed = w₀.closed ++ done ∧ K w.store)
    (.modify fun w hw => ?_) fun _ => ?_
  · obtain ⟨hw, hk⟩ := hw
    refine ⟨hw.since.put hw.buf fun x hx => ?_, hw.oob.put _ hw.ne, hw.closed, hput _ _ _ hk⟩
    simpa [or_comm] using hx
  refine .bind (Q := fun _ w => w₀.store.Since [] w.store ∧ w.closed = w₀.closed ++ done ∧
      K w.store) (.modify fun w hw => ?_) fun _ => .pure _ fun w hw => ⟨rfl, hw⟩
  obtain ⟨hsince, hoob, hclosed, hk⟩ := hw
  refine ⟨hsince.put hoob fun x hx => ?_, hclosed, hput _ _ _ hk⟩
  exact .inl (List.mem_singleton.mp hx)

theorem closeFds_filled (fds : List Int) (done : List Int) :
    Act.Triple ω (Filled w₀ bufPtr oobPtr msg done) (closeFds fds)
      fun _ => Filled w₀ bufPtr oobPtr msg (done ++ fds) := by
  induction fds generalizing done with
  | nil =>
    refine .pure _ fun w hw => ?_
    rwa [List.append_nil]
  | cons fd fds ih =>
    refine .bind (Q := fun _ => Filled w₀ bufPtr oobPtr msg (done ++ [fd]))
      (.modify fun w hw => ?_) fun _ => ?_
    · refine ⟨⟨hw.since, hw.buf, hw.oob, hw.ne, ?_⟩, hw.data, hw.control⟩
      simp [hw.closed]
    · have h := ih (done ++ [fd])
      rwa [List.append_assoc] at h

theorem readBuffer_oob :
    Act.Triple ω (Filled w₀ bufPtr oobPtr msg done) (readBuffer .oobBufPool oobPtr)
      fun oob w => oob.take msg.oob.length = msg.oob ∧ Filled w₀ bufPtr oobPtr msg done w := by
  refine .ask fun n w hw => ?_
  rw [Store.read_borrowed hw.oob]
  exact ⟨hw.control, hw⟩

theorem readBuffer_handoff :
    Act.Triple ω (Filled w₀ bufPtr oobPtr msg done) (readBuffer .handoffBufPool bufPtr)
      fun buf w => buf.take msg.data.length = msg.data ∧ Filled w₀ bufPtr oobPtr msg done w := by
  refine .ask fun n w hw => ?_
  rw [Store.read_borrowed hw.buf]
  exact ⟨hw.data, hw⟩

theorem readRights_filled (m : σ) :
    Act.Triple ω (Filled w₀ bufPtr oobPtr msg done) (readRights parseUnixRights oobPtr m)
      fun r w => r = parseUnixRights m ∧ Filled w₀ bufPtr oobPtr msg done w :=
  .bind readBuffer_oob fun _ => .pure _ fun _ hw => ⟨rfl, hw.2⟩

/-- The copy is a new array. -/
theorem makeCopy_filled (bytes : List UInt8) :
    Act.Triple ω (Filled w₀ bufPtr oobPtr msg done) (makeCopy bytes)
      fun data w => w₀.store.place data = none ∧ Holding w₀ bufPtr oobPtr done w ∧
        w.store.place data = some .owned ∧ w.store.bytes data = some bytes := by
  refine .ask fun n w hw => ?_
  refine ⟨hw.since.new w.store.place_length, ⟨?_, hw.buf.alloc _ _, hw.oob.alloc _ _, hw.ne,
    hw.closed⟩, ?_, ?_⟩
  · exact hw.since.alloc _ _ (fun _ h => by cases h) fun _ h => h
  · rw [Store.place_alloc]
    exact if_pos rfl
  · rw [Store.bytes_alloc]
    exact if_pos rfl

/-- **The descriptors of the messages are closed**, on the way to an error. The induction is on the
messages; a message that does not parse has no descriptors. -/
theorem closeRights_filled (msgs : List σ) (done : List Int) :
    Act.Triple ω (Filled w₀ bufPtr oobPtr msg done) (closeRights parseUnixRights oobPtr msgs)
      fun _ => Filled w₀ bufPtr oobPtr msg (done ++ msgs.flatMap (rightsOf parseUnixRights)) := by
  induction msgs generalizing done with
  | nil =>
    refine .pure _ fun w hw => ?_
    rwa [List.flatMap_nil, List.append_nil]
  | cons m msgs ih =>
    refine .bind (readRights_filled m) fun r => .assume ?_
    rintro rfl
    rw [List.flatMap_cons, ← List.append_assoc]
    cases hm : parseUnixRights m with
    | error err =>
      have hrights : rightsOf parseUnixRights m = [] := by rw [rightsOf.eq_def, hm]
      rw [hrights, List.append_nil]
      exact ih done
    | ok fds =>
      have hrights : rightsOf parseUnixRights m = fds := by rw [rightsOf.eq_def, hm]
      rw [hrights]
      exact .bind (closeFds_filled fds done) fun _ => ih (done ++ fds)

theorem closeReceivedFDs_filled :
    Act.Triple ω (Filled w₀ bufPtr oobPtr msg [])
      (closeReceivedFDs parseUnixRights oobPtr (parseSocketControlMessage msg.oob))
      fun _ => Filled w₀ bufPtr oobPtr msg (msg.fds parseSocketControlMessage parseUnixRights) := by
  rw [UnixMessage.fds.eq_def]
  cases parseSocketControlMessage msg.oob with
  | error err => exact .pure _ fun w hw => hw
  | ok msgs => exact closeRights_filled msgs []

/-- **The descriptors of the messages are collected**, of all messages and in their order, and
nothing is closed by it. -/
theorem collectFds_filled (msgs : List σ) (allFds : List Int) :
    Act.Triple ω (Filled w₀ bufPtr oobPtr msg done)
      (collectFds parseUnixRights oobPtr allFds msgs)
      fun r w => r = allFds ++ msgs.flatMap (rightsOf parseUnixRights) ∧
        Filled w₀ bufPtr oobPtr msg done w := by
  induction msgs generalizing allFds with
  | nil =>
    refine .pure _ fun w hw => ⟨?_, hw⟩
    rw [List.flatMap_nil, List.append_nil]
  | cons m msgs ih =>
    refine .bind (readRights_filled m) fun r => .assume ?_
    rintro rfl
    rw [List.flatMap_cons, ← List.append_assoc]
    cases hm : parseUnixRights m with
    | error err =>
      have hrights : rightsOf parseUnixRights m = [] := by rw [rightsOf.eq_def, hm]
      rw [hrights, List.append_nil]
      exact ih allFds
    | ok fds =>
      have hrights : rightsOf parseUnixRights m = fds := by rw [rightsOf.eq_def, hm]
      rw [hrights]
      exact ih (allFds ++ fds)

/-! ## Every exit -/

/-- An exit with an error, once all that came has been closed. -/
theorem putBoth_failed (conn : Conn) (err : String)
    (hconn : conn.fds parseSocketControlMessage parseUnixRights = done) :
    Act.Triple ω (Holding w₀ bufPtr oobPtr done) (putBoth bufPtr oobPtr (.error err))
      (Conserved parseSocketControlMessage parseUnixRights conn w₀) := by
  refine .conseq (@putBoth_holding ω w₀ bufPtr oobPtr done _ (fun _ => True) (fun _ _ _ h => h) _)
    (fun _ hw => ⟨hw, trivial⟩) ?_
  rintro r w ⟨rfl, hsince, hclosed, -⟩
  exact .failed hsince (hconn ▸ hclosed)

theorem receiveMessage_filled :
    Act.Triple ω (Filled w₀ bufPtr oobPtr msg [])
      (receiveMessage parseSocketControlMessage parseUnixRights maxHandoffDataSize bufPtr oobPtr msg)
      (Conserved parseSocketControlMessage parseUnixRights (.unix none (.ok msg)) w₀) := by
  have hfailed : ∀ (done : List Int) (err : String),
      msg.fds parseSocketControlMessage parseUnixRights = done →
        Act.Triple ω (Filled w₀ bufPtr oobPtr msg done) (putBoth bufPtr oobPtr (.error err))
          (Conserved parseSocketControlMessage parseUnixRights (.unix none (.ok msg)) w₀) := by
    intro done err hdone
    exact .conseq (putBoth_failed (.unix none (.ok msg)) err hdone) (fun _ hw => hw.toHolding) fun _ _ h => h
  refine .bind readBuffer_oob fun oob => .assume fun hoob => ?_
  rw [hoob]
  refine .ite (fun _ => .bind closeReceivedFDs_filled fun _ => hfailed _ _ rfl) fun _ => ?_
  refine .ite (fun _ => .bind closeReceivedFDs_filled fun _ => hfailed _ _ rfl) fun _ => ?_
  cases hmsgs : parseSocketControlMessage msg.oob with
  | error parseErr =>
    refine hfailed [] _ ?_
    rw [UnixMessage.fds.eq_def, hmsgs]
  | ok msgs =>
    have hfds : msg.fds parseSocketControlMessage parseUnixRights =
        msgs.flatMap (rightsOf parseUnixRights) := by rw [UnixMessage.fds.eq_def, hmsgs]
    cases msgs with
    | nil => exact hfailed [] _ hfds
    | cons m msgs =>
      refine .bind (collectFds_filled _ []) fun allFds => .assume fun hall => ?_
      rw [List.nil_append, ← hfds] at hall
      cases allFds with
      | nil => exact hfailed [] _ hall.symm
      | cons fd extraFds =>
        refine .bind (closeFds_filled extraFds []) fun _ => ?_
        refine .bind readBuffer_handoff fun buf => .assume fun hbuf => ?_
        rw [hbuf]
        refine .bind (makeCopy_filled _) fun data => .assume fun hnew => ?_
        refine .conseq (putBoth_holding (K := fun s => s.place data = some .owned ∧
          s.bytes data = some msg.data) ?_ _) (fun w hw => hw) ?_
        · rintro s p r ⟨hplace, hbytes⟩
          exact ⟨Store.place_put_owned hplace, by rw [Store.bytes_put, hbytes]⟩
        · rintro r w ⟨rfl, hsince, hclosed, hplace, hbytes⟩
          exact .received hsince hall.symm hclosed rfl hnew hplace hbytes

theorem poolGet_first (p : Pool) (size : Nat) :
    Act.Triple ω (fun w => w = w₀) (poolGet p size)
      fun r w => w₀.store.Since [r] w.store ∧ w₀.store.Borrowed p r w.store ∧
        w.closed = w₀.closed := by
  refine .ask fun n w hw => ?_
  subst hw
  obtain ⟨hsince, hr, -⟩ := (Store.Since.refl w.store).get p size (ω.pooled n)
  exact ⟨hsince, hr, rfl⟩

/-- Both buffers are taken first. -/
theorem getBoth {α : Type} {Q : α → Receiver → Prop} {k : Nat → Nat → Receive α}
    (h : ∀ bufPtr oobPtr, Act.Triple ω (Holding w₀ bufPtr oobPtr []) (k bufPtr oobPtr) Q) :
    Act.Triple ω (fun w => w = w₀)
      (poolGet .handoffBufPool maxHandoffDataSize >>= fun bufPtr =>
        poolGet .oobBufPool 256 >>= fun oobPtr => k bufPtr oobPtr) Q := by
  refine .bind (poolGet_first _ _) fun bufPtr => ?_
  refine .bind (.ask fun n w hw => ?_) fun oobPtr => h bufPtr oobPtr
  obtain ⟨hsince, hbuf, hclosed⟩ := hw
  obtain ⟨hsince', hoob, htaken⟩ := hsince.get .oobBufPool 256 (ω.pooled n)
  obtain ⟨hne, hnow⟩ := htaken bufPtr _ hbuf.now
  exact ⟨hsince', ⟨hnow, hbuf.before⟩, hoob, hne, by rw [List.append_nil, ← hclosed]⟩

/-- Then a message is read into them. -/
theorem fillBoth {α : Type} {Q : α → Receiver → Prop} {k : Receive α}
    (h : Act.Triple ω (Filled w₀ bufPtr oobPtr msg []) k Q) :
    Act.Triple ω (Holding w₀ bufPtr oobPtr [])
      (writeBuffer .handoffBufPool bufPtr msg.data >>= fun _ =>
        writeBuffer .oobBufPool oobPtr msg.oob >>= fun _ => k) Q := by
  refine .bind (Q := fun _ w => Holding w₀ bufPtr oobPtr [] w ∧
    ((w.store.bytes bufPtr).getD []).take msg.data.length = msg.data) (.modify fun w hw => ?_)
    fun _ => ?_
  · refine ⟨⟨hw.since.write hw.buf _, hw.buf.write _ _ _, hw.oob.write _ _ _, hw.ne, hw.closed⟩, ?_⟩
    exact Store.take_write hw.buf.now
  refine .bind (.modify fun w hw => ?_) fun _ => h
  obtain ⟨hw, hdata⟩ := hw
  refine ⟨⟨hw.since.write hw.oob _, hw.buf.write _ _ _, hw.oob.write _ _ _, hw.ne, hw.closed⟩,
    ?_, Store.take_write hw.oob.now⟩
  rw [Store.bytes_write_ne (Ne.symm hw.ne), hdata]

theorem receiveFd_unix (readMsgUnix : Except String UnixMessage) :
    Act.Triple ω (fun w => w = w₀)
      (receiveFd parseSocketControlMessage parseUnixRights maxHandoffDataSize
        (.unix none readMsgUnix))
      (Conserved parseSocketControlMessage parseUnixRights (.unix none readMsgUnix) w₀) := by
  refine getBoth fun bufPtr oobPtr => ?_
  cases readMsgUnix with
  | error err => exact putBoth_failed _ _ rfl
  | ok msg => exact fillBoth receiveMessage_filled

theorem receiveFd_conserved (conn : Conn) :
    Act.Triple ω (fun w => w = w₀)
      (receiveFd parseSocketControlMessage parseUnixRights maxHandoffDataSize conn)
      (Conserved parseSocketControlMessage parseUnixRights conn w₀) := by
  have hnone : ∀ err : String, conn.fds parseSocketControlMessage parseUnixRights = [] →
      Act.Triple ω (fun w => w = w₀) (Pure.pure (.error err))
        (Conserved parseSocketControlMessage parseUnixRights conn w₀) := by
    refine fun err hfds => .pure _ fun w hw => ?_
    subst hw
    exact .failed (.refl _) (by rw [hfds, List.append_nil])
  rcases conn with _ | ⟨_ | err, readMsgUnix⟩
  · exact hnone _ rfl
  · exact receiveFd_unix readMsgUnix
  · exact hnone _ rfl

/-- **Descriptors and buffers are conserved.** Whatever comes of the calls, every descriptor that is
received is closed, but the first one if it is returned; both buffers are in their pools again, each
put there once and not looked at afterwards; and the data that is returned is an array of its own. -/
theorem receiveFd_conserves (conn : Conn) (ω : PoolEnv) (w₀ : Receiver) :
    let run := receiveFd parseSocketControlMessage parseUnixRights maxHandoffDataSize conn
    Conserved parseSocketControlMessage parseUnixRights conn w₀ (run.result ω w₀)
      (run.final ω w₀) :=
  (receiveFd_conserved conn).run rfl

/-! ## A message that is taken -/

/-- An array that is no pool's, with these bytes. -/
def Owns (data : Nat) (bytes : List UInt8) (w : Receiver) : Prop :=
  w.store.place data = some .owned ∧ w.store.bytes data = some bytes

section Taken

variable {m : σ} {msgs : List σ} {fd : Int} {extraFds : List Int}

theorem receiveMessage_ok (htrunc : msg.trunc = false) (hctrunc : msg.ctrunc = false)
    (hmsgs : parseSocketControlMessage msg.oob = .ok (m :: msgs))
    (hfds : (m :: msgs).flatMap (rightsOf parseUnixRights) = fd :: extraFds) :
    Act.Triple ω (Filled w₀ bufPtr oobPtr msg [])
      (receiveMessage parseSocketControlMessage parseUnixRights maxHandoffDataSize bufPtr oobPtr msg)
      fun r _ => ∃ data, r = .ok (fd, data) := by
  refine .bind readBuffer_oob fun oob => .assume fun hoob => ?_
  rw [hoob, htrunc, hctrunc, hmsgs]
  refine .ite (fun h => absurd h Bool.false_ne_true) fun _ => ?_
  refine .ite (fun h => absurd h Bool.false_ne_true) fun _ => ?_
  refine .bind (collectFds_filled _ []) fun allFds => .assume fun hall => ?_
  rw [List.nil_append, hfds] at hall
  rw [hall]
  refine .bind (closeFds_filled extraFds []) fun _ => ?_
  refine .bind readBuffer_handoff fun buf => .assume fun _ => ?_
  refine .bind (makeCopy_filled _) fun data => .assume fun _ => ?_
  refine .conseq (@putBoth_holding ω w₀ bufPtr oobPtr _ _ (fun _ => True) (fun _ _ _ h => h) _)
    (fun _ hw => ⟨hw.1, trivial⟩) ?_
  rintro r w ⟨rfl, -⟩
  exact ⟨data, rfl⟩

/-- **A message that is whole and brings a descriptor is received**: the first descriptor, and the
data in an array of its own. -/
theorem receiveFd_ok (htrunc : msg.trunc = false) (hctrunc : msg.ctrunc = false)
    (hmsgs : parseSocketControlMessage msg.oob = .ok (m :: msgs))
    (hfds : (m :: msgs).flatMap (rightsOf parseUnixRights) = fd :: extraFds) :
    Act.Triple ω (fun w => w = w₀)
      (receiveFd parseSocketControlMessage parseUnixRights maxHandoffDataSize
        (.unix none (.ok msg)))
      fun r w => ∃ data, r = .ok (fd, data) ∧ Owns data msg.data w := by
  have hok : Act.Triple ω (fun w => w = w₀)
      (receiveFd parseSocketControlMessage parseUnixRights maxHandoffDataSize
        (.unix none (.ok msg))) fun r _ => ∃ data, r = .ok (fd, data) :=
    getBoth fun _ _ => fillBoth (receiveMessage_ok htrunc hctrunc hmsgs hfds)
  intro n w hw
  obtain ⟨data, hdata⟩ := hok n w hw
  have hconserved := @receiveFd_unix σ parseSocketControlMessage parseUnixRights
    maxHandoffDataSize ω w₀ (.ok msg) n w hw
  rw [hdata] at hconserved
  refine ⟨data, hdata, ?_⟩
  generalize (receiveFd parseSocketControlMessage parseUnixRights maxHandoffDataSize
    (.unix none (.ok msg)) ω (n, w)).2.2 = w' at hconserved
  cases hconserved with
  | received _ _ _ hmsg _ hplace hbytes =>
    cases hmsg
    exact ⟨hplace, hbytes⟩

end Taken

/-! ## One connection after another -/

theorem Conserved.since {conn : Conn} {r : Except String (Int × Nat)} {w : Receiver}
    (h : Conserved parseSocketControlMessage parseUnixRights conn w₀ r w) :
    w₀.store.Since [] w.store := by
  cases h <;> assumption

/-- A call leaves the data of earlier calls as it is. -/
theorem receiveFd_owns (conn : Conn) (data : Nat) (bytes : List UInt8) :
    Act.Triple ω (Owns data bytes)
      (receiveFd parseSocketControlMessage parseUnixRights maxHandoffDataSize conn)
      fun _ => Owns data bytes := by
  rintro n w ⟨hplace, hbytes⟩
  have hsince := (@receiveFd_conserved σ parseSocketControlMessage parseUnixRights
    maxHandoffDataSize ω w conn n w rfl).since
  have hne : w.store.place data ≠ none := by
    rw [hplace]
    exact Option.some_ne_none _
  refine ⟨by rw [hsince.place_eq hne, hplace], ?_⟩
  rw [hsince.bytes data hne (fun p hp => ?_), hbytes]
  rw [hplace] at hp
  cases hp

variable (parseSocketControlMessage parseUnixRights maxHandoffDataSize) in
/-- The connections that are accepted, one after another. -/
def receiveAll : List Conn → Receive Unit
  | [] => return ()
  | conn :: conns => do
    let _ ← receiveFd parseSocketControlMessage parseUnixRights maxHandoffDataSize conn
    receiveAll conns

/-- **No connection gets to see the data of another**: what has been returned stays as it is. -/
theorem receiveAll_owns (conns : List Conn) (data : Nat) (bytes : List UInt8) :
    Act.Triple ω (Owns data bytes)
      (receiveAll parseSocketControlMessage parseUnixRights maxHandoffDataSize conns)
      fun _ => Owns data bytes := by
  induction conns with
  | nil => exact .pure _ fun w hw => hw
  | cons conn conns ih => exact .bind (receiveFd_owns conn data bytes) fun _ => ih

end SocketHandoff.Go
