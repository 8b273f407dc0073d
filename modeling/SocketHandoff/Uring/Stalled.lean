import SocketHandoff.Uring.Daemon

/-!
# A client that does not read

While the write of the headers waits for the client, libcurl may deliver any amount of response
data. Every token is appended to the write buffer behind the region of the write, so that after a
few hundred of them the buffer has to grow under it.
-/

namespace SocketHandoff.Uring

variable {s : Daemon} {wb : WriteBuffer} {n : Nat}

/-- Everything asked for is granted, `realloc` moves what it grows, and `io_uring_submit` takes all
entries. -/
def Env.moving : Env where
  consumed _ := defaultRingSize
  malloc _ := true
  realloc _ := .moved
  soType _ := some .stream
  curlEasyInit _ := true
  curlMultiAddHandle _ := true
  callbacks _ := []
  freed _ := (false, false)

/-! ## Tokens -/

/-- A line of the response, and the frame it becomes. -/
structure IsToken (text frame : List UInt8) : Prop where
  line : splitLines [] (text ++ [10]) = ([text], [])
  content : sseContent text ≠ []
  frame : streamFormatSse 8192 (sseContent text) = some frame
  short : text.length + 2 ≤ 4096

theorem IsToken.ne_nil {text frame : List UInt8} (h : IsToken text frame) : frame ≠ [] :=
  ne_nil_of_streamFormatSse h.frame

/-- A token of one letter. -/
def tokenText : List UInt8 := ascii "data: \x7b\"content\":\"x\"\x7d"

/-- Its frame. -/
def tokenFrame : List UInt8 := ascii "data: \x7b\"content\":\"x\"\x7d\n\n"

theorem length_tokenFrame : tokenFrame.length = 23 := by simp [tokenFrame, ascii]

theorem isToken : IsToken tokenText tokenFrame := by
  have hcontent : sseContent tokenText = [120] := by
    simp [tokenText, ascii, sseContent, strstr, copyContent]
  refine ⟨?_, by rw [hcontent]; exact List.cons_ne_nil _ _, ?_, ?_⟩
  · simp [tokenText, ascii, splitLines, chomp]
  · rw [hcontent]
    simp [streamFormatSse, tokenFrame, ascii, cstring, escapeContent, escapeChar]
  · simp [tokenText, ascii]

/-! ## A write that waits -/

/-- The buffer with more data, and with a write in flight. It moves when it has to grow. -/
structure WriteBuffer.Grown (wb : WriteBuffer) (data : List UInt8) (wb' : WriteBuffer) : Prop where
  bytes : wb'.bytes = wb.bytes ++ data
  tail : wb'.tail = wb.tail
  pending : wb'.writePending = true
  stays : wb.head + data.length ≤ wb.capacity →
    wb'.buffer = wb.buffer ∧ wb'.capacity = wb.capacity
  moves : wb.capacity < wb.head + data.length → wb'.buffer ≠ wb.buffer

theorem WriteBuffer.append_grown {data : List UInt8} {b : Block} (hp : wb.writePending = true)
    (hd : data ≠ []) (hsize : wb.head + data.length ≤ wb.capacity * 2)
    (hcap : wb.capacity * 2 ≤ writeBufferMaxSize) (hb : b ≠ wb.buffer) :
    ∃ wb', wb.append data (some b) = (.ok, wb') ∧ wb.Grown data wb' ∧
      (wb'.buffer = wb.buffer ∨ wb'.buffer = b) := by
  have hlen : 0 < data.length := List.length_pos_iff.mpr hd
  have hfull : ¬ writeBufferMaxSize < wb.size + data.length := by
    simp only [size]
    omega
  by_cases hfit : wb.head + data.length ≤ wb.capacity
  · have hroom : ¬ wb.capacity - wb.head < data.length := by omega
    refine ⟨{ wb with bytes := wb.bytes ++ data }, ?_, ⟨rfl, rfl, hp, fun _ => ⟨rfl, rfl⟩, ?_⟩,
      .inl rfl⟩
    · simp only [append, if_neg hfull, makeRoom, if_neg hroom]
    · intro hmove
      exact absurd hfit (Nat.not_le.mpr hmove)
  · have hroom : wb.capacity - wb.head < data.length := by omega
    have hnew : wb.capacityInFlight data.length = wb.capacity * 2 := by
      simp only [capacityInFlight, Nat.min_eq_left hcap]
      exact if_neg (Nat.not_lt.mpr hsize)
    refine ⟨{ wb with bytes := wb.bytes ++ data, buffer := b, capacity := wb.capacity * 2 }, ?_,
      ⟨rfl, rfl, hp, fun h => absurd h hfit, fun _ => hb⟩, .inr rfl⟩
    simp only [append, if_neg hfull, makeRoom, if_pos hroom, hp, if_true, grow, hnew,
      if_neg (Nat.not_lt.mpr hcap)]

/-- The connection of a request has the write buffer `wb` with a write in flight, and the request
goes on; `entries` are those the kernel has not finished, and `P` holds of the trace. It is what a
client that does not read leaves the daemon in, one token after the other. -/
structure Daemon.Stalled (s : Daemon) (P : List Event → Prop) (req : CurlRequest)
    (line : Option (List UInt8 × Nat)) (entries : List Sqe) (wb : WriteBuffer) : Prop where
  pc : ∃ kick, s.pc = .curl kick
  request : ∃ chunkCount,
    s.curl.request? req.easy = some { req with chunkCount := chunkCount }
  entries : s.inflight ++ s.sq = entries
  buffer : (s.connections req.conn).asyncWriteBuf = some wb
  pending : wb.writePending = true
  block : wb.buffer < s.nextBlock
  line : (s.connections req.conn).sseLine = line
  listed : (s.connections req.conn).onDirtyList = true
  trace : P s.trace

section
variable {P : List Event → Prop} {req : CurlRequest} {line : Option (List UInt8 × Nat)}
  {text frame : List UInt8} {entries : List Sqe}

open Act

theorem malloc_moving :
    malloc .moving (n, s) = (some s.nextBlock, (n + 1, { s with nextBlock := s.nextBlock + 1 })) :=
  rfl

/-- A change of the connection that keeps what waits. -/
theorem Daemon.Stalled.setConn {s : Daemon} {line' : Option (List UInt8 × Nat)} {c : Connection}
    (h : s.Stalled P req line entries wb) (hbuf : c.asyncWriteBuf = some wb)
    (hline : c.sseLine = line') (hlisted : c.onDirtyList = true) :
    (s.setConn req.conn c).Stalled P req line' entries wb := by
  have hc : (s.setConn req.conn c).connections req.conn = c := Function.update_self ..
  exact ⟨h.pc, h.request, h.entries, by rw [hc, hbuf], h.pending, h.block, by rw [hc, hline],
    by rw [hc, hlisted], h.trace⟩

theorem Daemon.Stalled.writeBufferAppend {data : List UInt8}
    (hP : ∀ trace, P trace → P (trace ++ [.moved req.conn])) (hd : data ≠ [])
    (hsize : wb.head + data.length ≤ wb.capacity * 2)
    (hcap : wb.capacity * 2 ≤ writeBufferMaxSize) :
    Triple .moving (fun t => t.Stalled P req line entries wb)
      (Uring.writeBufferAppend req.conn wb data)
      fun r t => r = .ok ∧ ∃ wb', wb.Grown data wb' ∧ t.Stalled P req line entries wb' := by
  intro n t ht
  have hlt := ht.block
  obtain ⟨wb', ha, hg, hb⟩ := WriteBuffer.append_grown (b := t.nextBlock) ht.pending hd hsize hcap
    (Nat.ne_of_gt hlt)
  have hblock : wb'.buffer < t.nextBlock + 1 := by
    rcases hb with hb | hb
    · rw [hb]
      exact Nat.lt_succ_of_lt hlt
    · rw [hb]
      exact Nat.lt_succ_self _
  have hconn : ∀ trace, P trace → ({ t.setConn req.conn
      { t.connections req.conn with asyncWriteBuf := some wb' } with
      nextBlock := t.nextBlock + 1
      trace := trace }).Stalled P req line entries wb' := by
    intro trace htrace
    refine ⟨ht.pc, ht.request, ht.entries, ?_, hg.pending, hblock, ?_, ?_, htrace⟩
    · simp [Daemon.setConn]
    · simpa [Daemon.setConn] using ht.line
    · simpa [Daemon.setConn] using ht.listed
  simp only [Uring.writeBufferAppend, realloc, Env.moving, bind_run, ask_run, ha, updateConn,
    modify_run]
  split
  · exact ⟨rfl, wb', hg, hconn _ (hP _ ht.trace)⟩
  · exact ⟨rfl, wb', hg, hconn _ ht.trace⟩

/-- With a write in flight no other is submitted. -/
theorem Daemon.Stalled.tryImmediateWrite (h : s.Stalled P req line entries wb) :
    Uring.tryImmediateWrite req.conn .moving (n, s) = ((), (n, s)) := by
  simp [Uring.tryImmediateWrite, connOf, h.buffer, h.pending]

theorem Daemon.Stalled.queueForClient {data : List UInt8}
    (hP : ∀ trace, P trace → P (trace ++ [.moved req.conn])) (hd : data ≠ [])
    (hsize : wb.head + data.length ≤ wb.capacity * 2)
    (hcap : wb.capacity * 2 ≤ writeBufferMaxSize) :
    Triple .moving (fun t => t.Stalled P req line entries wb) (Uring.queueForClient req.conn data)
      fun r t => r = true ∧ ∃ wb', wb.Grown data wb' ∧ t.Stalled P req line entries wb' := by
  intro n t ht
  have hbuf : ensureWriteBuffer req.conn .moving (n, t) = (some wb, (n, t)) := by
    simp [ensureWriteBuffer, connOf, ht.buffer]
  have happ := Daemon.Stalled.writeBufferAppend hP hd hsize hcap n t ht
  simp only [Uring.queueForClient, bind_run, hbuf]
  generalize Uring.writeBufferAppend req.conn wb data .moving (n, t) = res at happ ⊢
  obtain ⟨r, m, u⟩ := res
  obtain ⟨rfl, wb', hg, hu⟩ := happ
  have hlisted : (u.connections req.conn).onDirtyList = true := hu.listed
  have hmark : daemonMarkConnectionDirty req.conn .moving (m, u) = ((), (m, u)) := by
    simp [daemonMarkConnectionDirty, connOf, hlisted]
  simp only [bind_run, hmark]
  exact ⟨rfl, wb', hg, hu⟩

/-- A change of the request. -/
theorem Daemon.Stalled.updateRequest (h : s.Stalled P req line entries wb) :
    (s.updateRequest req.easy fun req =>
      { req with chunkCount := req.chunkCount + 1 }).Stalled P req line entries wb := by
  obtain ⟨chunkCount, hreq⟩ := h.request
  refine ⟨h.pc, ⟨chunkCount + 1, ?_⟩, h.entries, h.buffer, h.pending, h.block, h.line, h.listed,
    h.trace⟩
  rw [request?_updateRequest, hreq]
  · rfl
  · exact fun _ => rfl

theorem Daemon.Stalled.processSseLine (hP : ∀ trace, P trace → P (trace ++ [.moved req.conn]))
    (htok : IsToken text frame) (hsize : wb.head + frame.length ≤ wb.capacity * 2)
    (hcap : wb.capacity * 2 ≤ writeBufferMaxSize) :
    Triple .moving (fun t => t.Stalled P req line entries wb) (Uring.processSseLine req.easy req.conn text)
      fun r t => r = true ∧ ∃ wb', wb.Grown frame wb' ∧ t.Stalled P req line entries wb' := by
  intro n t ht
  have hq := Daemon.Stalled.queueForClient hP htok.ne_nil hsize hcap n t ht
  simp only [Uring.processSseLine, if_neg htok.content, htok.frame, bind_run]
  generalize Uring.queueForClient req.conn frame .moving (n, t) = res at hq ⊢
  obtain ⟨r, m, u⟩ := res
  obtain ⟨rfl, wb', hg, hu⟩ := hq
  simp only [if_true, bind_run, hu.tryImmediateWrite, modify_run, pure_run]
  exact ⟨trivial, wb', hg, hu.updateRequest⟩

/-- The line buffer gets other contents. -/
theorem Daemon.Stalled.updateLine (line' : Option (List UInt8 × Nat)) :
    Triple .moving (fun t => t.Stalled P req line entries wb)
      (updateConn req.conn fun c => { c with sseLine := line' })
      fun _ t => t.Stalled P req line' entries wb :=
  .modify fun _ h => h.setConn h.buffer rfl h.listed

/-- The line buffer is made now if there is none. -/
theorem Daemon.Stalled.ensureSseLine {len : Nat} (hline : line = none ∨ line = some ([], 4096))
    (hlen : len + 1 ≤ 4096) :
    Triple .moving (fun t => t.Stalled P req line entries wb) (Uring.ensureSseLine req.conn len)
      fun r t => r = some ([], 4096) ∧ t.Stalled P req (some ([], 4096)) entries wb := by
  intro n t ht
  have hfit : ¬ 4096 < ([] : List UInt8).length + len + 1 := by
    rw [List.length_nil, Nat.zero_add]
    exact Nat.not_lt.mpr hlen
  have hmade := ht.line
  rcases hline with rfl | rfl
  · have ht' : { t with nextBlock := t.nextBlock + 1 }.Stalled P req none entries wb :=
      ⟨ht.pc, ht.request, ht.entries, ht.buffer, ht.pending, Nat.lt_succ_of_lt ht.block, ht.line,
        ht.listed, ht.trace⟩
    simp only [Uring.ensureSseLine, connOf, bind_run, get_run, pure_run, hmade, malloc_moving,
      updateConn, modify_run, if_neg hfit]
    exact ⟨trivial, ht'.setConn ht'.buffer rfl ht'.listed⟩
  · simp only [Uring.ensureSseLine, connOf, bind_run, get_run, pure_run, hmade, updateConn,
      modify_run, if_neg hfit]
    exact ⟨trivial, ht.setConn ht.buffer rfl ht.listed⟩

theorem triple_tryImmediateWrite : Triple .moving (fun t => t.Stalled P req line entries wb)
    (Uring.tryImmediateWrite req.conn) fun _ t => t.Stalled P req line entries wb := by
  intro n t ht
  rw [ht.tryImmediateWrite]
  exact ht

/-- A line arrives as a chunk of its own. -/
theorem Daemon.Stalled.receiveChunk (hP : ∀ trace, P trace → P (trace ++ [.moved req.conn]))
    (htok : IsToken text frame) (hsize : wb.head + frame.length ≤ wb.capacity * 2)
    (hcap : wb.capacity * 2 ≤ writeBufferMaxSize) :
    Triple .moving (fun t => t.Stalled P req (some ([], 4096)) entries wb)
      (Uring.receiveChunk req.easy req.conn (text ++ [10]))
      fun r t => r = true ∧ ∃ wb', wb.Grown frame wb' ∧ t.Stalled P req (some ([], 4096)) entries wb' := by
  have hlen : (text ++ [10]).length + 1 ≤ 4096 := by
    have := htok.short
    simp only [List.length_append, List.length_singleton]
    omega
  have hlines : Triple .moving (fun t => t.Stalled P req (some (text ++ [10], 4096)) entries wb)
      (processSseLines req.easy req.conn [text])
      fun r t => r = true ∧ ∃ wb', wb.Grown frame wb' ∧
        t.Stalled P req (some (text ++ [10], 4096)) entries wb' := by
    refine (Daemon.Stalled.processSseLine hP htok hsize hcap).bind fun r => .assume ?_
    rintro rfl
    exact .pure true fun t ht => ⟨rfl, ht⟩
  refine (Daemon.Stalled.ensureSseLine (.inr rfl) hlen).bind fun r => .assume ?_
  rintro rfl
  simp only [List.nil_append, htok.line]
  refine (Daemon.Stalled.updateLine (some (text ++ [10], 4096))).bind fun _ => hlines.bind fun r =>
    .assume ?_
  rintro rfl
  refine .exists fun wb' => .assume fun hg => ?_
  refine (Daemon.Stalled.updateLine (some ([], 4096))).bind fun _ =>
    triple_tryImmediateWrite.bind fun _ => ?_
  exact .pure true fun t ht => ⟨rfl, wb', hg, ht⟩

/-- **One token** arrives while the write waits. -/
theorem Daemon.Stalled.step_token (h : s.Stalled P req (some ([], 4096)) entries wb)
    (hlive : req.headersSent = true ∧ req.aborted = false ∧ req.finished = none)
    (hP : ∀ trace, P trace → P (trace ++ [.moved req.conn]))
    (htok : IsToken text frame)
    (hsize : wb.head + frame.length ≤ wb.capacity * 2)
    (hcap : wb.capacity * 2 ≤ writeBufferMaxSize) :
    ∃ s' wb', step s (.curlWrite req.easy (text ++ [10]) .moving) = some s' ∧ wb.Grown frame wb' ∧
      s'.Stalled P req (some ([], 4096)) entries wb' := by
  obtain ⟨kick, hpc⟩ := h.pc
  obtain ⟨chunkCount, hreq⟩ := h.request
  obtain ⟨hsent, hab, hfin⟩ := hlive
  let req' : CurlRequest := { req with chunkCount := chunkCount }
  have hdeliver : Triple .moving (fun t => t.Stalled P req (some ([], 4096)) entries wb)
      (curlDeliver req' (text ++ [10]))
      fun _ t => ∃ wb', wb.Grown frame wb' ∧ t.Stalled P req (some ([], 4096)) entries wb' := by
    have hwrite : Triple .moving (fun t => t.Stalled P req (some ([], 4096)) entries wb)
        (writeCallback req' (text ++ [10]))
        fun r t => r = true ∧
          ∃ wb', wb.Grown frame wb' ∧ t.Stalled P req (some ([], 4096)) entries wb' := by
      refine .ite (fun _ => Daemon.Stalled.receiveChunk hP htok hsize hcap) fun hns => ?_
      exact absurd hsent hns
    refine hwrite.bind fun r => .assume ?_
    rintro rfl
    exact .pure () fun t ht => ht
  obtain ⟨wb', hg, ht⟩ := hdeliver.run h
  refine ⟨s.exec (curlDeliver req' (text ++ [10])) .moving, wb', ?_, hg, ht⟩
  simp [step, loopStep, hpc, curlStep, hreq, hab, hfin, req']

/-! ## The headers -/

/-- The buffer with the headers in it. -/
def headersBuffer (b : Block) : WriteBuffer := { WriteBuffer.init b with bytes := sseHeaders }

theorem append_sseHeaders (b : Block) (block : Option Block) :
    (WriteBuffer.init b).append sseHeaders block = (.ok, headersBuffer b) := by
  rw [WriteBuffer.append_sseHeaders, headersBuffer]

theorem head_headersBuffer (b : Block) : (headersBuffer b).head = 119 := by
  rw [WriteBuffer.head, headersBuffer, length_sseHeaders]

theorem hasData_headersBuffer (b : Block) : (headersBuffer b).hasData = true := by
  have htail : (headersBuffer b).tail = 0 := rfl
  rw [WriteBuffer.hasData_iff, head_headersBuffer, htail]
  exact Nat.succ_pos _

/-- A slot with a write buffer, and the ring as it was in `s`. -/
structure Daemon.Buffered (s t : Daemon) (i : ConnId) (wb : WriteBuffer) : Prop where
  pc : t.pc = s.pc
  requests : t.curl.requests = s.curl.requests
  ring : t.inflight = s.inflight ∧ t.sq = s.sq ∧ t.cfg = s.cfg ∧ t.gen = s.gen
  buffer : (t.connections i).asyncWriteBuf = some wb
  block : wb.buffer < t.nextBlock
  kept : (t.connections i).clientFd = (s.connections i).clientFd ∧
    (t.connections i).sseLine = (s.connections i).sseLine
  trace : t.trace = s.trace

variable {i : ConnId} {t : Daemon}

theorem Daemon.Buffered.setConn {c : Connection} {wb' : WriteBuffer} (h : s.Buffered t i wb)
    (hc : c = { t.connections i with asyncWriteBuf := some wb', onDirtyList := c.onDirtyList })
    (hb : wb'.buffer = wb.buffer) : s.Buffered (t.setConn i c) i wb' := by
  have hi : (t.setConn i c).connections i = c := Function.update_self ..
  refine ⟨h.pc, h.requests, h.ring, ?_, hb ▸ h.block, ?_, h.trace⟩
  · rw [hi, hc]
  · rw [hi, hc]
    exact h.kept

theorem triple_ensureWriteBuffer (hbuf : (s.connections i).asyncWriteBuf = none) :
    Triple .moving (fun t => t = s) (ensureWriteBuffer i) fun r t =>
      r = some (.init (s.nextBlock + 1)) ∧ s.Buffered t i (.init (s.nextBlock + 1)) := by
  rintro n t rfl
  simp only [ensureWriteBuffer, connOf, bind_run, get_run, pure_run, hbuf, malloc_moving,
    updateConn, modify_run]
  refine ⟨trivial, rfl, rfl, ⟨rfl, rfl, rfl, rfl⟩, ?_, Nat.lt_succ_self _, ?_, rfl⟩
  · simp [Daemon.setConn]
  · simp [Daemon.setConn]

/-- A text is appended to a buffer that no write reads. -/
theorem run_writeBufferAppend {wb wb' : WriteBuffer} {data : List UInt8}
    (happend : ∀ block, wb.append data block = (.ok, wb')) (hidle : wb.writePending = false) :
    Uring.writeBufferAppend i wb data .moving (n, t) =
      (.ok, (n + 1, Daemon.setConn { t with nextBlock := t.nextBlock + 1 } i
        { t.connections i with asyncWriteBuf := some wb' })) := by
  have hwrites : ¬ (wb.writePending = true ∧ wb'.buffer ≠ wb.buffer) := by simp [hidle]
  simp only [Uring.writeBufferAppend, bind_run, happend, updateConn, modify_run, if_neg hwrites]
  rfl

theorem triple_appendHeaders {b : Block} :
    Triple .moving (fun t => s.Buffered t i (.init b))
      (Uring.writeBufferAppend i (.init b) sseHeaders)
      fun r t => r = .ok ∧ s.Buffered t i (headersBuffer b) := by
  intro n t ht
  have ht' : s.Buffered { t with nextBlock := t.nextBlock + 1 } i (.init b) :=
    ⟨ht.pc, ht.requests, ht.ring, ht.buffer, Nat.lt_succ_of_lt ht.block, ht.kept, ht.trace⟩
  have hbuffer : (headersBuffer b).buffer = b := rfl
  have hinit : (WriteBuffer.init b).buffer = b := rfl
  rw [run_writeBufferAppend (append_sseHeaders b) rfl]
  exact ⟨rfl, ht'.setConn rfl (hbuffer.trans hinit.symm)⟩

theorem triple_mark : Triple .moving (fun t => s.Buffered t i wb) (daemonMarkConnectionDirty i)
    fun _ t => s.Buffered t i wb ∧ (t.connections i).onDirtyList = true := by
  refine .bind (R := fun _ t => s.Buffered t i wb ∧ (t.connections i).onDirtyList = true)
    (Q := fun c t => s.Buffered t i wb ∧ c = t.connections i) (fun _ _ h => ⟨h, rfl⟩) fun c => ?_
  refine .ite (fun hd => .pure () ?_) fun hd => .bind (.modify (Q := fun _ t =>
    s.Buffered t i wb ∧ (t.connections i).onDirtyList = true) ?_) fun _ => .modify ?_
  · rintro t ⟨ht, rfl⟩
    exact ⟨ht, hd⟩
  · rintro t ⟨ht, rfl⟩
    exact ⟨ht.setConn (by rw [← ht.buffer]) rfl, by simp [Daemon.setConn]⟩
  · rintro t ⟨ht, hl⟩
    exact ⟨⟨ht.pc, ht.requests, ht.ring, ht.buffer, ht.block, ht.kept, ht.trace⟩, hl⟩

/-- The headers are appended to a new buffer. -/
theorem triple_queueHeaders (hbuf : (s.connections i).asyncWriteBuf = none) :
    Triple .moving (fun t => t = s) (Uring.queueForClient i sseHeaders) fun r t =>
      r = true ∧ s.Buffered t i (headersBuffer (s.nextBlock + 1)) ∧
        (t.connections i).onDirtyList = true := by
  refine (triple_ensureWriteBuffer hbuf).bind fun r => .assume ?_
  rintro rfl
  refine triple_appendHeaders.bind fun r => .assume ?_
  rintro rfl
  exact triple_mark.bind fun _ => .pure true fun t ht => ⟨rfl, ht⟩

/-- The entry of the write of the headers. -/
def headersSqe (s : Daemon) (i : ConnId) : Sqe :=
  ⟨.write (s.connections i).clientFd (.block (s.nextBlock + 1) 0) 119, i, s.gen i⟩

/-- The entry of its timeout. -/
def headersTimeout (s : Daemon) (i : ConnId) : Sqe :=
  ⟨.linkTimeout s.cfg.writeTimeoutMs, i, s.gen i⟩

/-- The first write is submitted at once. -/
theorem run_tryHeaders {b : Block} (hs : s.sq.length + 2 ≤ s.cfg.entries)
    (hbuf : (s.connections i).asyncWriteBuf = some (headersBuffer b)) :
    Uring.tryImmediateWrite i .moving (n, s) =
      ((), (n + 1, (Daemon.setConn
        ((s.queue ⟨.write (s.connections i).clientFd (.block b 0) 119, i, s.gen i⟩).queue
          (headersTimeout s i)) i
        { s.connections i with
          asyncWriteBuf := some ((headersBuffer b).setPending true) }).submit defaultRingSize)) := by
  have h₁ : s.sq.length < s.cfg.entries := by omega
  have h₂ : s.sq.length + 1 < s.cfg.entries := by omega
  have hdata := hasData_headersBuffer b
  have hsize : (headersBuffer b).size = 119 := by
    rw [WriteBuffer.size, head_headersBuffer]
    rfl
  have hidle : (headersBuffer b).writePending = false := rfl
  have hblock : (headersBuffer b).buffer = b ∧ (headersBuffer b).tail = 0 := ⟨rfl, rfl⟩
  simp [Uring.tryImmediateWrite, connOf, hbuf, hdata, hsize, hidle, hblock, ringSubmitWrite,
    fillSqe, ringGetSqeFlush, ioUringGetSqe, h₁, h₂, ringSubmitLinkedTimeout, Daemon.queue,
    updateConn, ringSubmit, ioUringSubmit, Env.moving, Daemon.setConn, headersTimeout]

/-- **The headers** are sent when the first data arrives, and their write waits. -/
theorem triple_sendHeaders {kick : Bool} (hpc : s.pc = .curl kick)
    (hreq : s.curl.request? req.easy = some req)
    (hbuf : (s.connections req.conn).asyncWriteBuf = none)
    (hline : (s.connections req.conn).sseLine = none) (hroom : s.sq.length + 2 ≤ s.cfg.entries)
    (htrace : P s.trace) :
    Triple .moving (fun t => t = s) (sendHeaders req.easy req.conn) fun r t =>
      r = true ∧ t.Stalled P { req with headersSent := true } none
        (s.inflight ++ s.sq ++ [headersSqe s req.conn, headersTimeout s req.conn])
        ((headersBuffer (s.nextBlock + 1)).setPending true) := by
  refine (triple_queueHeaders hbuf).bind fun r => .assume ?_
  rintro rfl n t ⟨ht, hl⟩
  let f := fun r : CurlRequest => { r with headersSent := true }
  let u := (t.updateRequest req.easy f).setConn req.conn
    { t.connections req.conn with state := .curlActive }
  have hu : u.connections req.conn = { t.connections req.conn with state := .curlActive } :=
    Function.update_self ..
  have hrequ : u.curl.request? req.easy = some (f req) := by
    have hreqt : t.curl.request? req.easy = some req := by
      rw [CurlManager.request?, ht.requests]
      exact hreq
    rw [← Option.map_some, ← hreqt]
    exact request?_updateRequest t fun _ => rfl
  obtain ⟨hin, hsq, hcfg, hgen⟩ := ht.ring
  have hroomu : u.sq.length + 2 ≤ u.cfg.entries := by
    change t.sq.length + 2 ≤ t.cfg.entries
    rw [hsq, hcfg]
    exact hroom
  have hbufu : (u.connections req.conn).asyncWriteBuf =
      some (headersBuffer (s.nextBlock + 1)) := by
    rw [hu]
    exact ht.buffer
  have hrun := run_tryHeaders (n := n) hroomu hbufu
  simp only [if_true, bind_run, modify_run, connSetState, updateConn, pure_run]
  change True ∧ (Uring.tryImmediateWrite req.conn .moving (n, u)).2.2.Stalled _ _ _ _ _
  rw [hrun]
  refine ⟨trivial, ⟨kick, ht.pc.trans hpc⟩, ⟨req.chunkCount, hrequ⟩, ?_, ?_, rfl, ht.block,
    ?_, ?_, ?_⟩
  · have hfd : (u.connections req.conn).clientFd = (s.connections req.conn).clientFd := by
      rw [hu]
      exact ht.kept.1
    have hgenu : u.gen = s.gen := hgen
    have hcfgu : u.cfg = s.cfg := hcfg
    have hall : ∀ q : List Sqe, u.inflight ++ q.take defaultRingSize ++ q.drop defaultRingSize =
        s.inflight ++ q := by
      intro q
      rw [List.append_assoc, List.take_append_drop]
      exact congrArg (· ++ q) hin
    refine (hall _).trans ?_
    have hsqu : u.sq = s.sq := hsq
    simp only [headersSqe, headersTimeout, Daemon.queue, hfd, hgenu, hcfgu, hsqu, List.append_assoc]
    rfl
  · simp [Daemon.submit, Daemon.setConn]
  · simp [Daemon.submit, Daemon.setConn, hu, ht.kept.2, hline]
  · simp [Daemon.submit, Daemon.setConn, hu, hl]
  · change P t.trace
    rw [ht.trace]
    exact htrace

/-- An empty line carries nothing. -/
theorem triple_emptyLine (hline : line = none ∨ line = some ([], 4096)) :
    Triple .moving (fun t => t.Stalled P req line entries wb)
      (Uring.receiveChunk req.easy req.conn [10])
      fun r t => r = true ∧ t.Stalled P req (some ([], 4096)) entries wb := by
  have hsplit : splitLines [] [10] = ([[]], []) := by decide
  have hempty : sseContent [] = [] := by decide
  have hlines : Triple .moving (fun t => t.Stalled P req (some ([10], 4096)) entries wb)
      (processSseLines req.easy req.conn [[]])
      fun r t => r = true ∧ t.Stalled P req (some ([10], 4096)) entries wb := by
    simp only [processSseLines, Uring.processSseLine, if_pos hempty]
    exact .pure true fun t ht => ⟨rfl, ht⟩
  refine (Daemon.Stalled.ensureSseLine hline (by decide)).bind fun r => .assume ?_
  rintro rfl
  simp only [List.nil_append, hsplit]
  refine (Daemon.Stalled.updateLine (some ([10], 4096))).bind fun _ => hlines.bind fun r =>
    .assume ?_
  rintro rfl
  refine (Daemon.Stalled.updateLine (some ([], 4096))).bind fun _ =>
    triple_tryImmediateWrite.bind fun _ => ?_
  exact .pure true fun t ht => ⟨rfl, ht⟩

/-- The response begins with an empty line. -/
theorem step_headers {kick : Bool} (hpc : s.pc = .curl kick)
    (hreq : s.curl.request? req.easy = some req)
    (hlive : req.headersSent = false ∧ req.aborted = false ∧ req.finished = none)
    (hbuf : (s.connections req.conn).asyncWriteBuf = none)
    (hline : (s.connections req.conn).sseLine = none) (hroom : s.sq.length + 2 ≤ s.cfg.entries)
    (htrace : P s.trace) :
    ∃ s', step s (.curlWrite req.easy [10] .moving) = some s' ∧
      s'.Stalled P { req with headersSent := true } (some ([], 4096))
        (s.inflight ++ s.sq ++ [headersSqe s req.conn, headersTimeout s req.conn])
        ((headersBuffer (s.nextBlock + 1)).setPending true) := by
  obtain ⟨hsent, hab, hfin⟩ := hlive
  have hdeliver : Triple .moving (fun t => t = s) (curlDeliver req [10]) fun _ t =>
      t.Stalled P { req with headersSent := true } (some ([], 4096))
        (s.inflight ++ s.sq ++ [headersSqe s req.conn, headersTimeout s req.conn])
        ((headersBuffer (s.nextBlock + 1)).setPending true) := by
    have hwrite : Triple .moving (fun t => t = s) (writeCallback req [10]) fun r t =>
        r = true ∧ t.Stalled P { req with headersSent := true } (some ([], 4096))
          (s.inflight ++ s.sq ++ [headersSqe s req.conn, headersTimeout s req.conn])
          ((headersBuffer (s.nextBlock + 1)).setPending true) := by
      refine .ite (fun h => absurd h (by simp [hsent])) fun _ => ?_
      refine (triple_sendHeaders hpc hreq hbuf hline hroom htrace).bind fun r => .assume ?_
      rintro rfl
      exact @triple_emptyLine _ P { req with headersSent := true } _ _ (.inl rfl)
    refine hwrite.bind fun r => .assume ?_
    rintro rfl
    exact .pure () fun t ht => ht
  refine ⟨s.exec (curlDeliver req [10]) .moving, ?_, hdeliver.run rfl⟩
  simp [step, loopStep, hpc, curlStep, hreq, hab, hfin]

end

/-! ## Many tokens -/

/-- While the tokens fit, they are appended to the buffer where it is. -/
theorem run_tokens (cfg : Config) {req : CurlRequest} {entries : List Sqe} {text frame : List UInt8}
    (h : s.Stalled (fun _ => True) req (some ([], 4096)) entries wb)
    (hlive : req.headersSent = true ∧ req.aborted = false ∧ req.finished = none)
    (htok : IsToken text frame) (hcap : wb.capacity * 2 ≤ writeBufferMaxSize) (k : Nat)
    (hfit : wb.head + k * frame.length ≤ wb.capacity) :
    ∃ s' wb', (system cfg).run s
        (List.replicate k (.curlWrite req.easy (text ++ [10]) .moving)) = some s' ∧
      s'.Stalled (fun _ => True) req (some ([], 4096)) entries wb' ∧ wb'.buffer = wb.buffer ∧
      wb'.capacity = wb.capacity ∧ wb'.head = wb.head + k * frame.length := by
  induction k generalizing s wb with
  | zero => exact ⟨s, wb, rfl, h, rfl, rfl, by simp⟩
  | succ k ih =>
    have hone : wb.head + frame.length ≤ wb.capacity := by
      rw [Nat.succ_mul] at hfit
      omega
    obtain ⟨u, wb₁, hstep, hg, hu⟩ := h.step_token hlive (fun _ h => h) htok (by omega) hcap
    obtain ⟨hbuf, hcap₁⟩ := hg.stays hone
    have hhead : wb₁.head = wb.head + frame.length := by
      simp only [WriteBuffer.head, hg.bytes, List.length_append]
    obtain ⟨s', wb', hrun, hs', hbuf', hcap', hhead'⟩ := ih hu (by rw [hcap₁]; exact hcap) (by
      rw [hhead, hcap₁]
      rw [Nat.succ_mul] at hfit
      omega)
    refine ⟨s', wb', ?_, hs', hbuf'.trans hbuf, hcap'.trans hcap₁, ?_⟩
    · have hstep' : (system cfg).step s (.curlWrite req.easy (text ++ [10]) .moving) = some u :=
        hstep
      rw [List.replicate_succ, System.run_cons, hstep']
      exact hrun
    · rw [hhead', hhead, Nat.succ_mul]
      omega

/-- **The buffer grows under the write**: one token more than fit makes `realloc` move it. -/
theorem run_tokens_moved (cfg : Config) {req : CurlRequest} {entries : List Sqe}
    {text frame : List UInt8} (h : s.Stalled (fun _ => True) req (some ([], 4096)) entries wb)
    (hlive : req.headersSent = true ∧ req.aborted = false ∧ req.finished = none)
    (htok : IsToken text frame) (hcap : wb.capacity * 2 ≤ writeBufferMaxSize) (k : Nat)
    (hfit : wb.head + k * frame.length ≤ wb.capacity)
    (hfull : wb.capacity < wb.head + (k + 1) * frame.length)
    (hframe : frame.length ≤ wb.capacity) :
    ∃ s' wb', (system cfg).run s
        (List.replicate (k + 1) (.curlWrite req.easy (text ++ [10]) .moving)) = some s' ∧
      s'.Stalled (fun _ => True) req (some ([], 4096)) entries wb' ∧ wb'.buffer ≠ wb.buffer := by
  obtain ⟨t, wb₁, hrun, ht, hbuf, hcap₁, hhead⟩ := run_tokens cfg h hlive htok hcap k hfit
  rw [Nat.succ_mul] at hfull
  obtain ⟨s', wb', hstep, hg, hs'⟩ := ht.step_token hlive (fun _ h => h) htok
    (by rw [hhead, hcap₁]; omega) (by rw [hcap₁]; exact hcap)
  refine ⟨s', wb', ?_, hs', hbuf ▸ hg.moves (by rw [hhead, hcap₁]; omega)⟩
  rw [List.replicate_succ']
  refine System.run_append hrun ?_
  have hstep' : (system cfg).step t (.curlWrite req.easy (text ++ [10]) .moving) = some s' := hstep
  rw [System.run_cons, hstep', Option.bind_some, System.run_nil]

end SocketHandoff.Uring
