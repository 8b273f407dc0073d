import SocketHandoff.Uring.Runs
import Mathlib.Logic.Relation

/-!
# The effects of the handlers

What a handler can do to the view is a chain of a few `Effect`s. The code of the handlers is
looked at once, for these; the invariants are checked against the effects.

A handler works on the connection of one slot, so its rules are about a view `V.set i v` and say
what `v` becomes.
-/

namespace SocketHandoff.Uring

/-! ## Effects -/

/-- A handler gives up on the connection in `v`. Without an entry for the timeout, the write it has
queued stays behind; this is the one way in which an entry outlives its connection. -/
inductive GiveUp (V : View) (i : ConnId) (v : Slot) : View → Prop
  | cleanup : GiveUp V i v ((V.set i v).cleanup i)
  | strand (buf : Buf) (len : Nat) :
      GiveUp V i v (((V.note (.stranded i)).set i (v.push (v.writeSqe i buf len))).cleanup i)

/-- What no handler changes before it gives up. -/
structure Connection.Kept (c c' : Connection) : Prop where
  handoffBuf : c'.handoffBuf = c.handoffBuf
  handoffCap : c'.handoffCap = c.handoffCap
  onDirtyList : c'.onDirtyList = c.onDirtyList
  curlEasy : c'.curlEasy = c.curlEasy ∨ c'.curlEasy = none

/-- What a handler that goes on leaves as it is, besides. -/
structure Connection.KeptOn (c c' : Connection) : Prop where
  handoffBuf : c'.handoffBuf = c.handoffBuf
  handoffCap : c'.handoffCap = c.handoffCap
  onDirtyList : c'.onDirtyList = c.onDirtyList
  asyncWriteBuf : c'.asyncWriteBuf = c.asyncWriteBuf

/-- The buffers of a connection. -/
def Buf.Owned (c : Connection) : Buf → Prop
  | .static => True
  | .block b _ =>
    c.writeBuf.map Prod.fst = some b ∨ c.asyncWriteBuf.map WriteBuffer.buffer = some b

/-- A connection with a handoff buffer, which is `b` if it had none. -/
def Connection.withHandoffBuf (c : Connection) (b : Block) : Connection :=
  match c.handoffBuf with
  | some _ => c
  | none => { c with handoffBuf := some b, handoffCap := handoffTier1Size }

/-- A connection that `handle_accept` has prepared for its receive. -/
def Connection.accepted (c : Connection) (b : Block) (fd : Fd) : Connection :=
  let c := c.withHandoffBuf b
  { c with
    unixFd := some fd
    state := .receivingFd
    recv := handoffPrepareMsghdr c.handoffBuf c.handoffCap controlMsgSize }

section
variable (c : Connection) (b : Block) (fd : Fd)

@[simp] theorem Connection.accepted_curlEasy : (c.accepted b fd).curlEasy = c.curlEasy := by
  simp only [accepted, withHandoffBuf]
  split <;> rfl

@[simp] theorem Connection.accepted_asyncWriteBuf :
    (c.accepted b fd).asyncWriteBuf = c.asyncWriteBuf := by
  simp only [accepted, withHandoffBuf]
  split <;> rfl

@[simp] theorem Connection.accepted_onDirtyList :
    (c.accepted b fd).onDirtyList = c.onDirtyList := by
  simp only [accepted, withHandoffBuf]
  split <;> rfl

@[simp] theorem Connection.accepted_state : (c.accepted b fd).state = .receivingFd := rfl

end

/-- The slot when `handle_accept` has taken it. -/
def Slot.accepted (v : Slot) (b : Block) (fd : Fd) : Slot :=
  { v with conn := v.conn.accepted b fd }

/-- The states in which `process_cqe` looks at a write. -/
def Connection.TakesWrite (c : Connection) : Prop :=
  c.state = .streaming ∨ (c.state = .curlActive ∧ c.asyncWriteBuf.isSome) ∨ c.state = .closing

/-- `process_cqe` has no use for a completion. -/
def View.Ignores (V : View) (i : ConnId) (cqe : Cqe) : Prop :=
  V.cfg.maxConnections ≤ i ∨
    (cqe.op = .recvFd ∧ (V.slots i).conn.state ≠ .receivingFd) ∨
    (cqe.op = .write ∧ ¬ (V.slots i).conn.TakesWrite)

/-- The next completion of a slot is of a receive, and `rest` are those behind it. -/
def Slot.Received (v : Slot) (rest : List Cqe) : Prop :=
  v.conn.state = .receivingFd ∧ ∃ cqe, v.comps = cqe :: rest ∧ cqe.op = .recvFd

/-- The next completion of a slot is of a write it takes. -/
def Slot.Written (v : Slot) (rest : List Cqe) : Prop :=
  v.conn.TakesWrite ∧ ∃ cqe, v.comps = cqe :: rest ∧ cqe.op = .write

/-- Data for the client is appended to the write buffer, with this result. -/
def WriteBuffer.Appends (wb : WriteBuffer) (r : Appended) (wb' : WriteBuffer) : Prop :=
  ∃ data block, data ≠ [] ∧ wb.append data block = (r, wb')

/-- A place of the main loop where it is neither waiting nor in the loop over the dirty list. -/
def Pc.Plain : Pc → Prop
  | .wait | .flush .. => False
  | _ => True

/-- The effects of the handlers. -/
inductive Effect (V : View) : View → Prop
  | went {pc : Pc} : pc.Plain → Effect V (V.goto pc)
  /-- a connection is accepted and its receive queued -/
  | accepted {i : ConnId} (b : Block) (fd : Fd) : V.freeList = some i →
      Effect V ((V.popFree i).set i
        (((V.slots i).accepted b fd).push (((V.slots i).accepted b fd).recvSqe i)))
  | acceptRefused {i : ConnId} (b : Block) (fd : Fd) : V.freeList = some i →
      Effect V (((V.popFree i).set i ((V.slots i).accepted b fd)).cleanup i)
  /-- a completion nobody has a use for -/
  | ignored {i : ConnId} {cqe : Cqe} {rest : List Cqe} : (V.slots i).comps = cqe :: rest →
      V.Ignores i cqe → Effect V (V.set i { V.slots i with comps := rest })
  /-- the text of a received message is parsed -/
  | parsed {i : ConnId} {cqe : Cqe} {rest : List Cqe} : (V.slots i).comps = cqe :: rest →
      cqe.op = .recvFd → (V.slots i).conn.state = .receivingFd → 0 ≤ cqe.res →
      Effect V (V.note (.parsed i ((V.slots i).conn.handoffBytes.take cqe.res.toNat)))
  | recvGaveUp {V' : View} {i : ConnId} {rest : List Cqe} {c' : Connection} :
      (V.slots i).Received rest → GiveUp V i { V.slots i with conn := c', comps := rest } V' →
      (V.slots i).conn.Kept c' → Effect V V'
  /-- a request is started for a received descriptor -/
  | curlStarted {rest : List Cqe} {c' : Connection} {req : CurlRequest} :
      V.cfg.mode = .curlMulti → (V.slots req.conn).Received rest →
      (V.slots req.conn).conn.KeptOn c' → c'.state = .curlPending →
      c'.curlEasy = some V.nextEasy → req.easy = V.nextEasy → req.headersSent = false →
      req.finished = none →
      Effect V ((V.set req.conn
        { V.slots req.conn with conn := c', comps := rest }).addRequest req)
  | poolQueued {i : ConnId} {rest : List Cqe} {c' : Connection} :
      V.cfg.mode = .threadPool → (V.slots i).Received rest → (V.slots i).conn.KeptOn c' →
      c'.curlEasy = (V.slots i).conn.curlEasy → c'.state = .llmQueued →
      Effect V (V.set i
        { V.slots i with conn := c', comps := rest, queued := (V.slots i).queued + 1 })
  | streamStarted {i : ConnId} {rest : List Cqe} {c' : Connection} (len : Nat) :
      V.cfg.mode = .direct → (V.slots i).Received rest → (V.slots i).conn.KeptOn c' →
      c'.curlEasy = (V.slots i).conn.curlEasy → c'.state = .streaming →
      Effect V (V.set i
        (Slot.pair { V.slots i with conn := c', comps := rest } V.cfg i .static len))
  /-- a write of the write buffer is done -/
  | written {i : ConnId} {rest : List Cqe} {wb : WriteBuffer} (n bytesSent : Nat) :
      (V.slots i).Written rest → (V.slots i).conn.asyncWriteBuf = some wb →
      ((wb.consume n).hasData = true ∨ (V.slots i).conn.state ≠ .closing) →
      Effect V (V.set i
        { V.slots i with
          conn :=
            { (V.slots i).conn with
              bytesSent := bytesSent
              asyncWriteBuf := some ((wb.consume n).setPending false) }
          comps := rest })
  | writtenGaveUp {V' : View} {i : ConnId} {rest : List Cqe} {c' : Connection} :
      (V.slots i).Written rest → GiveUp V i { V.slots i with conn := c', comps := rest } V' →
      (V.slots i).conn.Kept c' → c'.curlEasy = (V.slots i).conn.curlEasy → Effect V V'
  /-- a write of one message is done, and the next one, or the rest of it, is queued -/
  | nextQueued {i : ConnId} {rest : List Cqe} {c' : Connection} {buf : Buf} (len : Nat) :
      (V.slots i).Written rest → (V.slots i).conn.asyncWriteBuf = none →
      (V.slots i).conn.KeptOn c' → c'.curlEasy = (V.slots i).conn.curlEasy →
      (c'.state = .closing ∨ (V.slots i).conn.state = .streaming ∧ c'.state = .streaming) →
      buf.Owned c' →
      Effect V (V.set i
        (Slot.pair { V.slots i with conn := c', comps := rest } V.cfg i buf len))
  /-- a write of the write buffer is queued; `ts` is its timeout, if that found an entry -/
  | asyncQueued {i : ConnId} {wb : WriteBuffer} (ts : List Sqe) :
      (V.slots i).conn.asyncWriteBuf = some wb → wb.hasData = true → wb.writePending = false →
      (ts = [] ∨ ts = [(V.slots i).timeoutSqe V.cfg i]) →
      Effect V (V.set i
        { V.slots i with
          conn := { (V.slots i).conn with asyncWriteBuf := some (wb.setPending true) }
          ops :=
            (V.slots i).ops ++ [(V.slots i).writeSqe i (.block wb.buffer wb.tail) wb.size] ++ ts })
  | asyncGaveUp {V' : View} {i : ConnId} {wb : WriteBuffer} :
      (V.slots i).conn.asyncWriteBuf = some wb → wb.hasData = true → wb.writePending = false →
      GiveUp V i (V.slots i) V' → Effect V V'
  /-- the main loop fetches a connection from the pool -/
  | fetchedIgnored {i : ConnId} : 0 < (V.slots i).done →
      Effect V (V.set i { V.slots i with done := (V.slots i).done - 1 })
  | fetchedGaveUp {V' : View} {i : ConnId} {c' : Connection} : 0 < (V.slots i).done →
      ((V.slots i).conn.state = .streaming ∨ (V.slots i).conn.state = .streamed ∨
        (V.slots i).conn.state = .closing) →
      GiveUp V i { V.slots i with conn := c', done := (V.slots i).done - 1 } V' →
      (V.slots i).conn.Kept c' → c'.curlEasy = (V.slots i).conn.curlEasy → Effect V V'
  | fetchedStreaming {i : ConnId} {c' : Connection} (len : Nat) : 0 < (V.slots i).done →
      (V.slots i).conn.state = .streaming → (V.slots i).conn.KeptOn c' →
      c'.curlEasy = (V.slots i).conn.curlEasy → c'.state = .streaming →
      Effect V (V.set i
        (Slot.pair { V.slots i with conn := c', done := (V.slots i).done - 1 } V.cfg i .static len))
  /-- `write_callback` makes a write buffer -/
  | bufferMade {i : ConnId} (b : Block) : (V.slots i).requests ≠ [] →
      (V.slots i).conn.asyncWriteBuf = none →
      Effect V (V.setConn i
        { (V.slots i).conn with asyncWriteBuf := some (WriteBuffer.init b) })
  | appendFailed {i : ConnId} {wb wb' : WriteBuffer} {r : WriteBuffer.Appended} :
      (V.slots i).conn.asyncWriteBuf = some wb → wb.Appends r wb' → r ≠ .ok →
      Effect V ((V.setConn i
        { (V.slots i).conn with asyncWriteBuf := some wb' }).noteMoved i wb wb')
  /-- data of the response is appended -/
  | dataAppended {i : ConnId} {req : CurlRequest} {wb wb' : WriteBuffer} :
      req ∈ (V.slots i).requests → req.headersSent = true →
      (V.slots i).conn.asyncWriteBuf = some wb → wb.Appends .ok wb' →
      Effect V (((V.setConn i
        { (V.slots i).conn with asyncWriteBuf := some wb' }).noteMoved i wb wb').mark i)
  /-- the headers are appended -/
  | headersAppended {i : ConnId} {req : CurlRequest} {wb wb' : WriteBuffer} :
      req ∈ (V.slots i).requests → (V.slots i).conn.asyncWriteBuf = some wb →
      wb.Appends .ok wb' →
      Effect V
        (let W := (((V.setConn i { (V.slots i).conn with
            asyncWriteBuf := some wb' }).noteMoved i wb wb').mark i).updateRequest req.easy
          fun req => { req with headersSent := true }
        W.setConn i { (W.slots i).conn with state := .curlActive })
  | lineChanged {i : ConnId} (line : Option (List UInt8 × Nat)) :
      Effect V (V.setConn i { (V.slots i).conn with sseLine := line })
  | requestChanged (easy : Easy) {f : CurlRequest → CurlRequest} :
      (∀ req, (f req).easy = req.easy ∧ (f req).conn = req.conn ∧
        (f req).headersSent = req.headersSent) → Effect V (V.updateRequest easy f)

/-- Effects one after the other. -/
abbrev Effects : View → View → Prop := Relation.ReflTransGen Effect

end SocketHandoff.Uring
