import SocketHandoff.Uring.Handlers

/-!
# Rules for the curl manager

The effects of `write_callback`, which libcurl calls for a request of the multi handle, and what
the loops over the messages of libcurl and over the dirty list do in one round.
-/

namespace SocketHandoff.Uring

variable {ω : Env} {V : View} {i : ConnId}

/-! ## Appending to the write buffer -/

/-- Effects that leave the requests of a slot as they are. -/
structure View.Progress (V : View) (i : ConnId) (V' : View) : Prop where
  effects : Effects V V'
  requests : (V'.slots i).requests = (V.slots i).requests

theorem View.Progress.refl : V.Progress i V := ⟨.refl, rfl⟩

/-- The view after `write_buffer_append` of a connection. -/
def View.appended (V : View) (i : ConnId) (wb wb' : WriteBuffer) : View :=
  (V.setConn i { (V.slots i).conn with asyncWriteBuf := some wb' }).noteMoved i wb wb'

theorem appended_slots_self (wb wb' : WriteBuffer) :
    (V.appended i wb wb').slots i =
      { V.slots i with conn := { (V.slots i).conn with asyncWriteBuf := some wb' } } := by
  simp [View.appended, View.setConn]

theorem Runs.ensureWriteBuffer {R : Option WriteBuffer → View → Prop}
    (hreq : (V.slots i).requests ≠ []) (hnone : R none V)
    (hsome : ∀ V' wb, V.Progress i V' → (V'.slots i).conn.asyncWriteBuf = some wb →
      R (some wb) V') :
    Runs ω V (ensureWriteBuffer i) R := by
  refine .bind (.connOf ?_)
  cases hwb : (V.slots i).conn.asyncWriteBuf with
  | some wb => exact .pure (hsome V wb .refl hwb)
  | none =>
    refine .bind (.quiet malloc_quiet fun block => ?_)
    cases block with
    | none => exact .pure hnone
    | some _ =>
      refine .bind (.quiet malloc_quiet fun block => ?_)
      cases block with
      | none => exact .pure hnone
      | some b =>
        refine .bind (.updateConn (.pure (hsome _ _ ⟨.single (.bufferMade b hreq hwb), ?_⟩ ?_)))
        · simp [View.setConn]
        · simp

theorem Runs.writeBufferAppend {R : WriteBuffer.Appended → View → Prop} {wb : WriteBuffer}
    {data : List UInt8}
    (h : ∀ block r wb', wb.append data block = (r, wb') → R r (V.appended i wb wb')) :
    Runs ω V (writeBufferAppend i wb data) R := by
  refine .bind (.quiet (realloc_quiet _) fun block => ?_)
  cases ha : wb.append data block with
  | mk r wb' =>
    have h' := h block r wb' ha
    refine .bind (.updateConn (.ite (fun hm => ?_) fun hm => ?_))
    · rw [View.appended, View.noteMoved, if_pos hm] at h'
      exact .bind (.note (.pure h'))
    · rw [View.appended, View.noteMoved, if_neg hm, List.append_nil] at h'
      exact .pure h'

/-- Data is appended to the write buffer and the connection is marked, or it could not be. -/
theorem Runs.queueForClient {R : Bool → View → Prop} {data : List UInt8}
    (hreq : (V.slots i).requests ≠ []) (hdata : data ≠ [])
    (hfailed : ∀ V', V.Progress i V' → R false V')
    (hqueued : ∀ V' wb wb', V.Progress i V' → (V'.slots i).conn.asyncWriteBuf = some wb →
      wb.Appends .ok wb' → R true ((V'.appended i wb wb').mark i)) :
    Runs ω V (queueForClient i data) R := by
  have hfail : ∀ {V' wb wb' r}, V.Progress i V' → (V'.slots i).conn.asyncWriteBuf = some wb →
      wb.Appends r wb' → r ≠ .ok → R false (V'.appended i wb wb') := by
    intro V' wb wb' r hp hwb ha hr
    refine hfailed _ ⟨hp.effects.tail (.appendFailed hwb ha hr), ?_⟩
    rw [appended_slots_self, hp.requests]
  refine .bind (.ensureWriteBuffer hreq (.pure (hfailed V .refl)) fun V' wb hp hwb => ?_)
  refine .bind (.writeBufferAppend fun block r wb' happend => ?_)
  have ha : wb.Appends r wb' := ⟨data, block, hdata, happend⟩
  cases r with
  | ok => exact .bind (.daemonMarkConnectionDirty (.pure (hqueued V' wb wb' hp hwb ha)))
  | noMemory => exact .pure (hfail hp hwb ha (by decide))
  | full => exact .pure (hfail hp hwb ha (by decide))

theorem Runs.tryImmediateWrite :
    Runs ω V (tryImmediateWrite i) fun _ V' => V.Progress i V' := by
  refine .bind (.connOf ?_)
  cases hwb : (V.slots i).conn.asyncWriteBuf with
  | none => exact .pure .refl
  | some wb =>
    refine .ite (fun hc => ?_) fun _ => .pure .refl
    have hp : wb.writePending = false := by simpa using hc.2
    have hqueued : ∀ ts, (ts = [] ∨ ts = [(V.slots i).timeoutSqe V.cfg i]) →
        ∀ V', V' = (V.set i { V.slots i with ops :=
          (V.slots i).ops ++ [(V.slots i).writeSqe i (.block wb.buffer wb.tail) wb.size] ++ ts }) →
        Runs ω V' (do
          Uring.updateConn i fun c => { c with asyncWriteBuf := some (wb.setPending true) }
          ringSubmit) fun _ V' => V.Progress i V' := by
      rintro ts hts V' rfl
      refine .bind (.updateConn_set (.quiet ioUringSubmit_quiet fun _ => ⟨?_, by simp⟩))
      exact .single (.asyncQueued ts hwb hc.1 hp hts)
    refine .bind (.ringSubmitWrite ?_ ?_)
    · refine .bind (.ringSubmitLinkedTimeout ?_ ?_)
      · refine hqueued _ (.inr rfl) _ ?_
        simp [View.push, Slot.push, Slot.timeoutSqe]
      · refine hqueued _ (.inl rfl) _ ?_
        simp [View.push, Slot.push]
    · exact .pure .refl

/-! ## `write_callback` -/

/-- The slot has a request whose headers are sent. -/
def View.Streams (V : View) (i : ConnId) : Prop :=
  ∃ req ∈ (V.slots i).requests, req.headersSent = true

theorem View.Streams.ne_nil (h : V.Streams i) : (V.slots i).requests ≠ [] := by
  obtain ⟨req, hreq, -⟩ := h
  exact List.ne_nil_of_mem hreq

theorem View.Progress.streams {V' : View} (h : V.Progress i V') (hs : V.Streams i) :
    V'.Streams i := by
  rwa [View.Streams, h.requests]

/-- A change of a request that keeps its flag keeps the streams. -/
theorem View.Streams.updateRequest {easy : Easy} {f : CurlRequest → CurlRequest}
    (h : V.Streams i) (hf : ∀ req, (f req).headersSent = req.headersSent) :
    (V.updateRequest easy f).Streams i := by
  obtain ⟨req, hreq, hh⟩ := h
  refine ⟨_, List.mem_map_of_mem hreq, ?_⟩
  split
  · rw [hf, hh]
  · exact hh

/-- `write_callback` is at work for a request whose headers are sent. -/
def View.Working (V : View) (i : ConnId) (V' : View) : Prop := Effects V V' ∧ V'.Streams i

theorem Runs.processSseLine {easy : Easy} {line : List UInt8} (hs : V.Streams i) :
    Runs ω V (processSseLine easy i line) fun _ V' => V.Working i V' := by
  refine .ite (fun _ => .pure ⟨.refl, hs⟩) fun _ => ?_
  cases hf : streamFormatSse 8192 (sseContent line) with
  | none => exact .pure ⟨.refl, hs⟩
  | some frame =>
    refine .bind (.queueForClient hs.ne_nil (ne_nil_of_streamFormatSse hf)
      (fun V' hp => .pure ⟨hp.effects, hp.streams hs⟩) fun V' wb wb' hp hwb ha => ?_)
    obtain ⟨req, hreq, hh⟩ := hp.streams hs
    have happ : Effects V ((V'.appended i wb wb').mark i) :=
      hp.effects.tail (.dataAppended hreq hh hwb ha)
    have hstreams : ((V'.appended i wb wb').mark i).Streams i := by
      refine ⟨req, ?_, hh⟩
      rwa [View.mark_slots_self, appended_slots_self]
    refine .bind (.conseq .tryImmediateWrite fun _ W hW => .bind ?_)
    refine .change (·.updateRequest easy _) (fun s => view_updateRequest s easy fun _ => rfl) ?_
    refine .pure ⟨(happ.trans hW.effects).tail (.requestChanged easy fun _ => ⟨rfl, rfl, rfl⟩), ?_⟩
    exact (hW.streams hstreams).updateRequest fun _ => rfl

theorem Runs.processSseLines {easy : Easy} (lines : List (List UInt8)) (hs : V.Streams i) :
    Runs ω V (processSseLines easy i lines) fun _ V' => V.Working i V' := by
  induction lines generalizing V with
  | nil => exact .pure ⟨.refl, hs⟩
  | cons line rest ih =>
    refine .bind (.conseq (.processSseLine hs) fun ok W hW => .ite (fun _ => ?_) fun _ => .pure hW)
    exact .conseq (ih hW.2) fun _ V' h => ⟨hW.1.trans h.1, h.2⟩

theorem Runs.lineChanged {R : Unit → View → Prop} {line : Option (List UInt8 × Nat)}
    (h : ∀ V', V.Progress i V' → R () V') :
    Runs ω V (Uring.updateConn i fun c => { c with sseLine := line }) R :=
  .updateConn (h _ ⟨.single (.lineChanged line), by simp [View.setConn]⟩)

theorem Runs.growSseLine {len : Nat} (line : List UInt8 × Nat) :
    Runs ω V (Uring.growSseLine i len line) fun _ V' => V.Progress i V' := by
  refine .bind (.lineChanged fun V' hp => .ite (fun _ => ?_) fun _ => .pure hp)
  refine .bind (.quiet (realloc_quiet 0) fun block => ?_)
  cases block with
  | none => exact .pure hp
  | some _ => exact .pure hp

theorem Runs.ensureSseLine {len : Nat} :
    Runs ω V (ensureSseLine i len) fun _ V' => V.Progress i V' := by
  refine .bind (.connOf ?_)
  cases (V.slots i).conn.sseLine with
  | some line => exact .growSseLine line
  | none =>
    refine .bind (.quiet malloc_quiet fun block => ?_)
    cases block with
    | none => exact .pure .refl
    | some _ => exact .growSseLine ([], 4096)

theorem Runs.receiveChunk {easy : Easy} {chunk : List UInt8} (hs : V.Streams i) :
    Runs ω V (receiveChunk easy i chunk) fun _ V' => V.Working i V' := by
  refine .bind (.conseq .ensureSseLine fun line W hW => ?_)
  cases line with
  | none => exact .pure ⟨hW.effects, hW.streams hs⟩
  | some line =>
    refine .bind (.lineChanged fun W₁ h₁ => ?_)
    have hs₁ : W₁.Streams i := h₁.streams (hW.streams hs)
    refine .bind (.conseq (.processSseLines _ hs₁) fun ok W₂ h₂ => ?_)
    have he₂ : Effects V W₂ := hW.effects.trans (h₁.effects.trans h₂.1)
    refine .ite (fun _ => .bind (.lineChanged fun W₃ h₃ => ?_)) fun _ => .pure ⟨he₂, h₂.2⟩
    refine .bind (.conseq .tryImmediateWrite fun _ W₄ h₄ => .pure ⟨?_, ?_⟩)
    · exact he₂.trans (h₃.effects.trans h₄.effects)
    · exact h₄.streams (h₃.streams h₂.2)

theorem Runs.sendHeaders {req : CurlRequest} (hreq : req ∈ (V.slots i).requests) :
    Runs ω V (sendHeaders req.easy i) fun ok V' => Effects V V' ∧ (ok = true → V'.Streams i) := by
  refine .bind (.queueForClient (List.ne_nil_of_mem hreq) sseHeaders_ne_nil
    (fun V' hp => .pure ⟨hp.effects, by simp⟩) fun V' wb wb' hp hwb ha => ?_)
  have hreq' : req ∈ (V'.slots i).requests := by rwa [hp.requests]
  have he := hp.effects.tail (.headersAppended hreq' hwb ha)
  refine .bind (.change (·.updateRequest req.easy _)
    (fun s => view_updateRequest s req.easy fun _ => rfl) (.bind (.updateConn ?_)))
  refine .bind (.conseq .tryImmediateWrite fun _ W hW => .pure ⟨he.trans hW.effects, fun _ => ?_⟩)
  refine hW.streams ⟨{ req with headersSent := true }, ?_, rfl⟩
  have hmem : req ∈ (((V'.appended i wb wb').mark i).slots i).requests := by
    rwa [View.mark_slots_self, appended_slots_self]
  have hm := List.mem_map_of_mem (f := fun r : CurlRequest =>
    if r.easy = req.easy then { r with headersSent := true } else r) hmem
  rw [if_pos rfl] at hm
  simpa [View.setConn, View.updateRequest] using hm

theorem Runs.writeCallback {req : CurlRequest} {chunk : List UInt8}
    (hreq : req ∈ (V.slots req.conn).requests) :
    Runs ω V (writeCallback req chunk) fun _ V' => Effects V V' := by
  refine .ite (fun hh => ?_) fun _ => ?_
  · exact .conseq (.receiveChunk ⟨req, hreq, hh⟩) fun _ _ h => h.1
  · refine .bind (.conseq (.sendHeaders hreq) fun ok W hW => .ite (fun hok => ?_) fun _ => ?_)
    · exact .conseq (.receiveChunk (hW.2 hok)) fun _ _ h => hW.1.trans h.1
    · exact .pure hW.1

theorem Runs.curlDeliver {req : CurlRequest} {chunk : List UInt8}
    (hreq : req ∈ (V.slots req.conn).requests) :
    Runs ω V (curlDeliver req chunk) fun _ V' => Effects V V' := by
  refine .bind (.conseq (.writeCallback hreq) fun ok W hW => .ite (fun _ => .pure hW) fun _ => ?_)
  refine .ite (fun _ => .pure hW) fun _ => ?_
  refine .change (·.updateRequest req.easy _)
    (fun s => view_updateRequest s req.easy fun _ => rfl) ?_
  exact hW.tail (.requestChanged _ fun _ => ⟨rfl, rfl, rfl⟩)

/-! ## Messages of libcurl -/

/-- A connection is told that its request has come to its end. -/
def View.close (V : View) (i : ConnId) : View :=
  V.setConn i { (V.slots i).conn with state := .closing, curlEasy := none }

/-- What a message does once its request is removed; `good` for a response that succeeded and whose
headers are sent. -/
inductive Ended (V : View) (i : ConnId) (good : Bool) : View → Prop
  /-- there is nothing to send, or nothing to send it with -/
  | silent : (good = true → (V.slots i).conn.asyncWriteBuf = none) → Ended V i good (V.close i)
  /-- the marker does not fit -/
  | refused {wb wb' : WriteBuffer} {block : Option Block} {r : WriteBuffer.Appended} :
      (V.slots i).conn.asyncWriteBuf = some wb → wb.append sseDone block = (r, wb') → r ≠ .ok →
      Ended V i good ((V.appended i wb wb').close i)
  /-- the marker is appended -/
  | marked {wb wb' : WriteBuffer} {block : Option Block} :
      (V.slots i).conn.asyncWriteBuf = some wb → wb.append sseDone block = (.ok, wb') →
      Ended V i good (((V.appended i wb wb').mark i).close i)

theorem Runs.endResponse {req : CurlRequest} {done : Finished} {R : Unit → View → Prop}
    (hsilent : ((req.success done && req.headersSent) = true →
      (V.slots req.conn).conn.asyncWriteBuf = none) → R () V)
    (hrefused : ∀ wb block r wb', (V.slots req.conn).conn.asyncWriteBuf = some wb →
      wb.append sseDone block = (r, wb') → r ≠ .ok → R () (V.appended req.conn wb wb'))
    (hmarked : ∀ wb block wb', (V.slots req.conn).conn.asyncWriteBuf = some wb →
      wb.append sseDone block = (.ok, wb') → R () ((V.appended req.conn wb wb').mark req.conn)) :
    Runs ω V (endResponse req done) R := by
  refine .ite (fun _ => .bind (.connOf ?_)) fun hc => .pure (hsilent fun h => ?_)
  · cases hwb : (V.slots req.conn).conn.asyncWriteBuf with
    | none => exact .pure (hsilent fun _ => hwb)
    | some wb =>
      refine .bind (.writeBufferAppend fun block r wb' ha => ?_)
      cases r with
      | ok => exact .daemonMarkConnectionDirty (hmarked wb block wb' hwb ha)
      | noMemory => exact .pure (hrefused wb block _ wb' hwb ha (by decide))
      | full => exact .pure (hrefused wb block _ wb' hwb ha (by decide))
  · exact absurd (by simpa using h) hc

theorem Runs.checkCompletion {req : CurlRequest} {done : Finished} :
    Runs ω V (checkCompletion req done) fun _ V' =>
      Ended (V.removeRequest req.easy) req.conn (req.success done && req.headersSent) V' := by
  refine .bind (.curlRemoveHandle (.bind ?_))
  have hclose : ∀ {W V' : View}, V' = W.close req.conn → ∀ {R : Unit → View → Prop}, R () V' →
      Runs ω W (do
        connSetState req.conn .closing
        Uring.updateConn req.conn fun c => { c with curlEasy := none }) R := by
    rintro W V' rfl R h
    refine .bind (.updateConn (.updateConn ?_))
    simpa [View.close] using h
  exact .endResponse (fun h => hclose rfl (.silent h)) (fun _ _ _ _ hwb ha hr =>
    hclose rfl (.refused hwb ha hr)) fun _ _ _ hwb ha => hclose rfl (.marked hwb ha)

/-! ## The dirty list -/

/-- A connection that was given up has no write buffer. -/
theorem GiveUp.asyncWriteBuf {v : Slot} {V' : View} (h : GiveUp V i v V') :
    (V'.slots i).conn.asyncWriteBuf = none := by
  cases h <;> simp [View.cleanup, View.free, Connection.reset, Connection.initial]

/-- What a round of `flush_streaming_connections` does with a connection, and where the loop goes
on. -/
inductive Flushed (V : View) (i : ConnId) (prev : Option ConnId) (last : Bool) : View → Prop
  /-- it has no write buffer, or one with a write in flight -/
  | passed : (∀ wb, (V.slots i).conn.asyncWriteBuf = some wb → wb.writePending = true) →
      Flushed V i prev last (V.goto (.flush (V.dirty.next i) (some i) last))
  | queued {W : View} {wb : WriteBuffer} : (V.slots i).conn.asyncWriteBuf = some wb →
      wb.hasData = true → wb.writePending = false →
      Effects V W → W.dirty = V.dirty →
      Flushed V i prev last (W.goto (.flush (V.dirty.next i) (some i) last))
  /-- it has nothing left to do here -/
  | dropped : ((V.slots i).conn.state ≠ .streaming ∧ (V.slots i).conn.state ≠ .curlActive ∧
        (V.slots i).conn.state ≠ .closing ∨
        ∃ wb, (V.slots i).conn.asyncWriteBuf = some wb ∧ wb.hasData = false ∧
          wb.writePending = false) →
      Flushed V i prev last
        ((V.unlink prev i (V.dirty.next i)).goto (.flush (V.dirty.next i) prev last))
  /-- its write is refused, and the loop goes on with memory that has been freed -/
  | gaveUp {W V' : View} {wb : WriteBuffer} : (V.slots i).conn.asyncWriteBuf = some wb →
      wb.hasData = true → wb.writePending = false → GiveUp V i (V.slots i) W →
      (V' = (W.note (.readFreed i)).goto (.flush (V.dirty.next i) (some i) last) ∨
        V' = ((W.note (.readFreed i)).unlink prev i (V.dirty.next i)).goto
          (.flush (V.dirty.next i) prev last)) →
      Flushed V i prev last V'

theorem Runs.flushConnection {prev : Option ConnId} {last : Bool} :
    Runs ω V (flushConnection i prev last) fun _ V' => Flushed V i prev last V' := by
  refine .get fun s hs => ?_
  have hc : s.connections i = (V.slots i).conn := by rw [← hs]; rfl
  have hdirty : s.dirty = V.dirty := congrArg View.dirty hs
  rw [hc, hdirty]
  refine .ite (fun hfit => ?_) fun hfit => ?_
  · cases hwb : (V.slots i).conn.asyncWriteBuf with
    | none => exact .goto (.passed (by simp [hwb]))
    | some wb =>
      refine .bind (.startAsyncWrite (fun hnone => ?_) (fun wb' hwb' hd hp => ?_)
        fun wb' W hwb' hd hp hg => ?_)
      · -- nothing is queued
        refine .bind (.bind (.connOf ?_))
        rw [hwb]
        refine .pure (.ite (fun hidle => ?_) fun hbusy => .goto (.passed ?_))
        · refine .bind (.unlinkDirty (.goto (.dropped (.inr ⟨wb, hwb, ?_, ?_⟩))))
          · simpa using hidle.1
          · simpa using hidle.2
        · rintro wb' hwb'
          obtain rfl := Option.some.inj (hwb.symm.trans hwb')
          cases hp : wb.writePending with
          | true => rfl
          | false =>
            refine absurd ⟨?_, by simp [hp]⟩ hbusy
            intro hd
            exact absurd (hnone wb hwb hd) (by simp [hp])
      · refine .bind (.bind (.connOf ?_))
        simp only [View.set_slots_self]
        refine .pure (.ite (fun hidle => ?_) fun _ => .goto ?_)
        · simp at hidle
        · exact .queued hwb' hd hp (.single (.asyncQueued _ hwb' hd hp (.inr rfl))) rfl
      · refine .bind (.bind (.connOf ?_))
        rw [hg.asyncWriteBuf]
        refine .bind (.note (.ask fun n t ht => ?_))
        rw [ht]
        refine .ite (fun _ => .bind (.unlinkDirty (.goto ?_))) fun _ => .goto ?_
        · exact .gaveUp hwb' hd hp hg (.inr rfl)
        · exact .gaveUp hwb' hd hp hg (.inl rfl)
  · simp only [not_or] at hfit
    exact .bind (.unlinkDirty (.goto (.dropped (.inl hfit))))

end SocketHandoff.Uring
