import SocketHandoff.Uring.Effects

/-!
# Rules for the handlers

For each handler the effects it can have, in the order in which `daemon.c` has them.
-/

namespace SocketHandoff.Uring

variable {ω : Env} {V : View} {i : ConnId} {v : Slot} {R : Unit → View → Prop}

/-! ## Code that works on one slot -/

theorem Runs.connOf_set {R : Connection → View → Prop} (h : R v.conn (V.set i v)) :
    Runs ω (V.set i v) (Uring.connOf i) R :=
  .connOf (by simpa using h)

theorem Runs.updateConn_set {f : Connection → Connection}
    (h : R () (V.set i { v with conn := f v.conn })) : Runs ω (V.set i v) (Uring.updateConn i f) R :=
  .updateConn (by simpa [View.setConn] using h)

theorem Runs.note_set {e : Event} (h : R () ((V.note e).set i v)) :
    Runs ω (V.set i v) (Uring.note e) R :=
  .note h

theorem Runs.get_set {α : Type} {R : α → View → Prop} {k : Daemon → Loop α}
    (h : ∀ s, s.view = V.set i v → s.connections i = v.conn → Runs ω (V.set i v) (k s) R) :
    Runs ω (V.set i v) (Act.get >>= k) R :=
  .get fun s hs => h s hs (by rw [← slot_conn, ← view_slots, hs, View.set_slots_self])

/-- A rule for the slot of a view is a rule for the view. -/
theorem Runs.of_set {α : Type} {R : α → View → Prop} {m : Loop α}
    (h : Runs ω (V.set i (V.slots i)) m R) : Runs ω V m R := by
  rwa [View.set_self] at h

/-! ## Cleaning up and writing -/

theorem Runs.connFree (h : R () (V.free i)) : Runs ω V (connFree i) R := by
  refine .modify (fun s hs => ?_) h
  subst hs
  have hc := view_setConn s i (s.connections i).reset
  simp only [Daemon.view, View.free, View.set, View.pushFree, View.setConn, Daemon.setConn,
    Daemon.pushFree, View.mk.injEq, true_and, and_true] at hc ⊢
  funext j
  by_cases hj : j = i
  · subst hj; simp [Daemon.slot]
  · simp [Daemon.slot, hj]

theorem Runs.curlRemoveHandle {easy : Easy} (h : R () (V.removeRequest easy)) :
    Runs ω V (curlRemoveHandle easy) R := by
  refine .bind (.modify (W := V.removeRequest easy) (fun s hs => ?_) ?_)
  · subst hs
    simp only [Daemon.view, Daemon.removeRequest, View.removeRequest, View.mk.injEq, true_and,
      and_true]
    funext j
    simp only [Daemon.slot, List.filter_filter, Bool.and_comm]
  · exact .quiet curlCallbacks_quiet fun _ => h

theorem Runs.curlManagerCancelRequest (h : R () (V.cancel i)) :
    Runs ω V (curlManagerCancelRequest i) R := by
  refine .bind (.connOf ?_)
  cases hc : (V.slots i).conn.curlEasy with
  | none =>
    rw [View.cancel, hc] at h
    exact .pure h
  | some easy =>
    rw [View.cancel, hc] at h
    exact .bind (.curlRemoveHandle (.updateConn h))

theorem Runs.cancelActiveRequest (h : R () (if V.cfg.mode = .curlMulti then V.cancel i else V)) :
    Runs ω V (cancelActiveRequest i) R := by
  refine .get fun s hs => ?_
  subst hs
  refine .ite (fun hc => ?_) fun hc => ?_
  · rw [if_pos (by exact hc.1)] at h
    exact .curlManagerCancelRequest h
  · refine .pure ?_
    split at h
    · -- there is nothing to cancel
      have hnone : (s.view.slots i).conn.curlEasy = none := by
        simpa [Option.isSome_iff_ne_none] using fun hs => hc ⟨by assumption, hs⟩
      have hn : s.view.cancel i = s.view := by rw [View.cancel, hnone]
      rwa [hn] at h
    · exact h

/-- `cleanup_connection`. -/
theorem Runs.cleanupConnection (h : R () (V.cleanup i)) : Runs ω V (cleanupConnection i) R :=
  .bind (.cancelActiveRequest (.bind (.daemonUnmarkConnectionDirty (.connFree h))))

theorem Runs.failConnection (h : R () (V.cleanup i)) : Runs ω V (failConnection i) R :=
  .bind (.quiet countFailed_quiet fun _ => .cleanupConnection h)

/-- A write with its timeout is queued, or the connection is given up. -/
theorem Runs.submitOrCleanup {R : Bool → View → Prop} {buf : Buf} {len : Nat} {refused : Loop Unit}
    (hq : Quiet refused) (hqueued : R true (V.set i (v.pair V.cfg i buf len)))
    (hgaveUp : ∀ V', GiveUp V i v V' → R false V') :
    Runs ω (V.set i v) (submitOrCleanup i buf len refused) R := by
  refine .bind (.ringSubmitWrite ?_ ?_)
  · simp only [View.push, View.set_set, View.set_slots_self]
    refine .bind (.ringSubmitLinkedTimeout ?_ ?_)
    · simp only [View.push, View.set_set, View.set_slots_self]
      exact .pure hqueued
    · refine .bind (.quiet countFailed_quiet fun _ => .bind (.note (.bind ?_)))
      exact .cleanupConnection (.pure (hgaveUp _ (.strand buf len)))
  · refine .bind (.quiet hq fun _ => .bind ?_)
    exact .cleanupConnection (.pure (hgaveUp _ .cleanup))

/-- A connection that starts to send a text of this length. -/
def Connection.sending (c : Connection) (len : Nat) : Connection :=
  { c with writeLen := len, writeOffset := 0 }

theorem Connection.KeptOn.kept {c c' : Connection} (h : c.KeptOn c')
    (he : c'.curlEasy = c.curlEasy) : c.Kept c' :=
  ⟨h.handoffBuf, h.handoffCap, h.onDirtyList, .inl he⟩

/-- How long the headers are does not matter for the view. -/
theorem Runs.startStreaming
    (hqueued : ∀ len, R () (V.set i (Slot.pair { v with conn := v.conn.sending len } V.cfg i
      .static len)))
    (hgaveUp : ∀ len V', GiveUp V i { v with conn := v.conn.sending len } V' → R () V') :
    Runs ω (V.set i v) (startStreaming i) R :=
  .bind (.updateConn_set (.bind (.submitOrCleanup countFailed_quiet (.pure (hqueued _))
    fun V' h => .pure (hgaveUp _ V' h))))

/-- A write of the waiting data is queued, unless there is none or one is in flight. -/
theorem Runs.startAsyncWrite
    (hnone : (∀ wb, (V.slots i).conn.asyncWriteBuf = some wb → wb.hasData = true →
      wb.writePending = true) → R () V)
    (hqueued : ∀ wb, (V.slots i).conn.asyncWriteBuf = some wb → wb.hasData = true →
      wb.writePending = false →
      R () (V.set i
        { V.slots i with
          conn := { (V.slots i).conn with asyncWriteBuf := some (wb.setPending true) }
          ops :=
            (V.slots i).ops ++ [(V.slots i).writeSqe i (.block wb.buffer wb.tail) wb.size] ++
              [(V.slots i).timeoutSqe V.cfg i] }))
    (hgaveUp : ∀ wb V', (V.slots i).conn.asyncWriteBuf = some wb → wb.hasData = true →
      wb.writePending = false → GiveUp V i (V.slots i) V' → R () V') :
    Runs ω V (startAsyncWrite i) R := by
  refine .bind (.connOf ?_)
  cases hwb : (V.slots i).conn.asyncWriteBuf with
  | none => exact .pure (hnone (by simp [hwb]))
  | some wb =>
    refine .ite (fun hc => ?_) fun hc => .pure (hnone ?_)
    · have hp : wb.writePending = false := by simpa using hc.2
      refine .of_set (.bind (.submitOrCleanup countFailed_quiet ?_ fun V' h => ?_))
      · refine .bind (.updateConn_set ?_)
        exact .quiet ioUringSubmit_quiet fun _ => hqueued wb hwb hc.1 hp
      · exact .pure (hgaveUp wb V' hwb hc.1 hp h)
    · rintro wb' hwb' hd
      obtain rfl : wb = wb' := Option.some.inj (hwb.symm.trans hwb')
      simpa [hd] using hc

theorem Runs.startAsyncWrite_effects :
    Runs ω V (Uring.startAsyncWrite i) fun _ V' => Effects V V' :=
  .startAsyncWrite (fun _ => .refl) (fun _ hwb hd hp => .single (.asyncQueued _ hwb hd hp (.inr rfl)))
    fun _ _ hwb hd hp h => .single (.asyncGaveUp hwb hd hp h)

/-! ## Accepting -/

theorem ringSubmitAccept_quiet : Quiet ringSubmitAccept := fillSqe_quiet ioUringGetSqe_quiet rfl

theorem retryAccept_quiet (n : Nat) : Quiet (retryAccept n) := by
  induction n with
  | zero => exact .pure _
  | succ n ih => exact .bind ringSubmitAccept_quiet fun _ => .ite (.pure _) ih

theorem rearmAccept_quiet (more : Bool) : Quiet (rearmAccept more) :=
  .bind .get fun _ => .ite (.pure _) (retryAccept_quiet 4)

/-- A slot is taken off the free list and has a handoff buffer, or nothing has changed. -/
theorem Runs.connAlloc {R : Option ConnId → View → Prop} (hnone : R none V)
    (hsome : ∀ i b, V.freeList = some i →
      R (some i) ((V.popFree i).setConn i ((V.slots i).conn.withHandoffBuf b))) :
    Runs ω V connAlloc R := by
  refine .get fun s hs => ?_
  subst hs
  have hfree : s.view.freeList = s.freeList := rfl
  cases hf : s.freeList with
  | none => exact .pure hnone
  | some i =>
    refine .bind (.modify (W := s.view.popFree i) (fun t ht => ?_) ?_)
    · rw [← ht]; rfl
    refine .bind (.bind (.connOf (.ite (fun hb => ?_) fun hb => ?_)))
    · refine .pure (.bind (.quiet (.modify fun _ => rfl) fun _ => .pure ?_))
      obtain ⟨b, hb⟩ := Option.isSome_iff_exists.mp hb
      have hkeep : (s.view.slots i).conn.withHandoffBuf b = ((s.view.popFree i).slots i).conn := by
        have hb' : (s.view.slots i).conn.handoffBuf = some b := hb
        simp only [Connection.withHandoffBuf, hb']
        rfl
      have h := hsome i b (hfree.trans hf)
      rwa [hkeep, View.setConn_self] at h
    · have hb' : (s.view.slots i).conn.handoffBuf = none := Option.not_isSome_iff_eq_none.mp hb
      refine .bind (.quiet malloc_quiet fun block => ?_)
      cases block with
      | none =>
        refine .pure (.bind (.modify (W := s.view) (fun t ht => ?_) (.pure hnone)))
        rw [← s.view.popFree_pushFree (hfree.trans hf), ← ht]
        rfl
      | some b =>
        refine .bind (.updateConn (.pure (.bind (.quiet (.modify fun _ => rfl) fun _ => .pure ?_))))
        have h := hsome i b (hfree.trans hf)
        rw [Connection.withHandoffBuf, hb'] at h
        exact h

theorem Runs.handleAccept {res : Int} {more : Bool} :
    Runs ω V (handleAccept res more) fun _ V' => Effects V V' := by
  refine .bind (.quiet (rearmAccept_quiet more) fun _ => .ite (fun _ => .pure .refl) fun _ => ?_)
  refine .bind (.connAlloc (.pure .refl) fun i b hi => ?_)
  refine .bind (.updateConn (.bind (.quiet countStarted_quiet fun _ => .bind (.updateConn ?_))))
  simp only [View.setConn_setConn, View.setConn_conn]
  refine .bind (.ringSubmitRecvmsg (.pure ?_) (.cleanupConnection ?_))
  · simp only [View.push, View.setConn, View.set_set, View.set_slots_self]
    exact .single (.accepted b res.toNat hi)
  · exact .single (.acceptRefused b res.toNat hi)

/-! ## Receiving the descriptor -/

theorem Runs.curlManagerStartRequest {R : Bool → View → Prop}
    (hstarted : ∀ req : CurlRequest, req.conn = i → req.easy = V.nextEasy →
      req.headersSent = false → req.finished = none →
      R true ((V.set i
        { v with
          conn := { v.conn with
            curlEasy := some V.nextEasy
            state := .curlPending } }).addRequest req))
    (hfailed : ∀ c', v.conn.Kept c' → R false (V.set i { v with conn := c' })) :
    Runs ω (V.set i v) (curlManagerStartRequest i) R := by
  have hkeep : R false (V.set i v) := hfailed v.conn ⟨rfl, rfl, rfl, .inl rfl⟩
  refine .get fun s hs => .ite (fun _ => ?_) fun _ => .pure hkeep
  refine .bind (.quiet startAllocations_quiet fun _ => .ite (fun _ => ?_) fun _ => .pure hkeep)
  have heasy : s.curl.nextEasy = V.nextEasy := congrArg View.nextEasy hs
  refine .bind (.updateConn_set (.bind (.quiet (.ask fun _ _ _ => rfl) fun _ => .ite ?_ ?_)))
  · intro _
    refine .bind (.change (·.addRequest _) (fun t => view_addRequest t _) ?_)
    refine .bind (.quiet curlCallbacks_quiet fun _ => .pure ?_)
    rw [heasy]
    exact hstarted _ rfl rfl rfl rfl
  · intro _
    exact .bind (.updateConn_set (.pure (hfailed _ ⟨rfl, rfl, rfl, .inr rfl⟩)))

theorem Runs.poolSubmit {R : Bool → View → Prop}
    (hqueued : R true (V.set i { v with queued := v.queued + 1 })) (hfailed : R false (V.set i v)) :
    Runs ω (V.set i v) (poolSubmit i) R := by
  refine .bind (.quiet malloc_quiet fun block => ?_)
  cases block with
  | none => exact .pure hfailed
  | some _ =>
    refine .bind (.modify (fun s hs => ?_) (.pure hqueued))
    have hv : s.slot i = v := by rw [← view_slots, hs, View.set_slots_self]
    rw [view_setPool_queue, hs, hv, View.set_set]

/-- How `handle_recv_fd` ends. -/
theorem Runs.startResponse
    (hcurl : ∀ (req : CurlRequest) (c' : Connection), V.cfg.mode = .curlMulti → req.conn = i →
      v.conn.KeptOn c' → c'.state = .curlPending → c'.curlEasy = some V.nextEasy →
      req.easy = V.nextEasy → req.headersSent = false → req.finished = none →
      R () (((V.set i { v with conn := c' }).addRequest req).goto (.curl true)))
    (hpool : ∀ c', V.cfg.mode = .threadPool → v.conn.KeptOn c' → c'.curlEasy = v.conn.curlEasy →
      c'.state = .llmQueued →
      R () (V.set i { v with conn := c', queued := v.queued + 1 }))
    (hdirect : ∀ c' len, V.cfg.mode = .direct → v.conn.KeptOn c' →
      c'.curlEasy = v.conn.curlEasy → c'.state = .streaming →
      R () (V.set i (Slot.pair { v with conn := c' } V.cfg i .static len)))
    (hgaveUp : ∀ c' V', GiveUp V i { v with conn := c' } V' → v.conn.Kept c' → R () V') :
    Runs ω (V.set i v) (startResponse i) R := by
  refine .get fun s hs => ?_
  have hmode : s.cfg.mode = V.cfg.mode := congrArg (fun W : View => W.cfg.mode) hs
  cases hm : s.cfg.mode with
  | curlMulti =>
    have hm' := hmode.symm.trans hm
    refine .bind (.curlManagerStartRequest (fun req hc he hh hf => ?_) fun c' hk => ?_)
    · exact .goto (hcurl req _ hm' hc ⟨rfl, rfl, rfl, rfl⟩ rfl rfl he hh hf)
    · exact .failConnection (hgaveUp c' _ .cleanup hk)
  | threadPool =>
    refine .bind (.updateConn_set (.bind (.poolSubmit (.pure ?_) (.failConnection ?_))))
    · exact hpool _ (hmode.symm.trans hm) ⟨rfl, rfl, rfl, rfl⟩ rfl rfl
    · exact hgaveUp _ _ .cleanup ⟨rfl, rfl, rfl, .inl rfl⟩
  | direct =>
    refine .bind (.updateConn_set (.startStreaming (fun len => ?_) fun len V' h => ?_))
    · exact hdirect _ _ (hmode.symm.trans hm) ⟨rfl, rfl, rfl, rfl⟩ rfl rfl
    · exact hgaveUp _ V' h ⟨rfl, rfl, rfl, .inl rfl⟩

/-- A received message is parsed when it brought the descriptor of a stream socket; else the
connection is given up. -/
theorem Runs.handleRecvFd {res : Int}
    (hparsed : ∀ c' fd, 0 ≤ res → handoffExtractFd v.conn.recv = some fd →
      ω.soType fd = some .stream → v.conn.KeptOn c' → c'.curlEasy = v.conn.curlEasy →
      Runs ω ((V.note (.parsed i (v.conn.handoffBytes.take res.toNat))).set i { v with conn := c' })
        (Uring.startResponse i) R)
    (hgaveUp : ∀ c', (∀ fd, 0 ≤ res → handoffExtractFd v.conn.recv = some fd →
        ω.soType fd ≠ some .stream) → v.conn.Kept c' →
      R () ((V.set i { v with conn := c' }).cleanup i)) :
    Runs ω (V.set i v) (handleRecvFd i res) R := by
  refine .ite (fun hres => ?_) fun hres => ?_
  · refine .failConnection (hgaveUp v.conn (fun fd h0 => ?_) ⟨rfl, rfl, rfl, .inl rfl⟩)
    exact absurd hres (Int.not_lt.mpr h0)
  refine .bind (.updateConn_set (.bind (.connOf_set ?_)))
  cases hfd : handoffExtractFd v.conn.recv with
  | none =>
    refine .failConnection (hgaveUp _ (fun fd _ h => ?_) ⟨rfl, rfl, rfl, .inl rfl⟩)
    rw [hfd] at h
    cases h
  | some fd =>
    refine .bind (.updateConn_set (.bind (.ask fun n s hs => ?_)))
    rw [hs]
    refine .ite (fun hstream => ?_) fun hstream => ?_
    · have hs' : ω.soType fd = some .stream := by
        simpa [handoffValidateSocket] using hstream
      refine .bind (.get_set fun s hs hc => ?_)
      rw [hc]
      refine .bind (.note_set (.updateConn_set ?_))
      exact hparsed _ fd (Int.not_lt.mp hres) hfd hs' ⟨rfl, rfl, rfl, rfl⟩ rfl
    · refine .failConnection (hgaveUp _ (fun fd' _ h => ?_) ⟨rfl, rfl, rfl, .inl rfl⟩)
      rw [hfd] at h
      obtain rfl := Option.some.inj h
      simpa [handoffValidateSocket] using hstream

/-! ## Write completions -/

theorem Runs.handleAsyncWrite {res : Int} {rest : List Cqe} {wb : WriteBuffer}
    (hv : (V.slots i).Written rest) (hwb : (V.slots i).conn.asyncWriteBuf = some wb) :
    Runs ω (V.set i { V.slots i with comps := rest }) (handleAsyncWrite i res)
      fun _ V' => Effects V V' := by
  refine .ite (fun _ => .failConnection ?_) fun _ => ?_
  · exact .single (.writtenGaveUp hv .cleanup ⟨rfl, rfl, rfl, .inl rfl⟩ rfl)
  refine .bind (.updateConn_set (.bind (.connOf_set ?_)))
  simp only [hwb, Option.map_some, Option.any_some, WriteBuffer.setPending_hasData]
  refine .ite (fun hd => ?_) fun hd => .ite (fun hc => ?_) fun hc => .pure ?_
  · -- more has arrived meanwhile, and is written from here
    have hw := Effect.written res.toNat ((V.slots i).conn.bytesSent + res.toNat) hv hwb (.inl hd)
    exact .conseq .startAsyncWrite_effects fun _ V' h => .head hw h
  · refine .bind (.quiet (countCompleted_quiet i) fun _ => .cleanupConnection ?_)
    exact .single (.writtenGaveUp hv .cleanup ⟨rfl, rfl, rfl, .inl rfl⟩ rfl)
  · exact .single (.written _ _ hv hwb (.inr hc))

/-- The next message, or the rest of one, is queued, or the connection is given up. -/
theorem Runs.submitNext {rest : List Cqe} {c' : Connection} {buf : Buf} {len : Nat}
    {refused : Loop Unit} (hq : Quiet refused) (hv : (V.slots i).Written rest)
    (hwb : (V.slots i).conn.asyncWriteBuf = none) (hk : (V.slots i).conn.KeptOn c')
    (he : c'.curlEasy = (V.slots i).conn.curlEasy)
    (hs : c'.state = .closing ∨ (V.slots i).conn.state = .streaming ∧ c'.state = .streaming)
    (hb : buf.Owned c') :
    Runs ω (V.set i { V.slots i with conn := c', comps := rest })
      (do let _ ← Uring.submitOrCleanup i buf len refused) fun _ V' => Effects V V' := by
  refine .bind (.submitOrCleanup hq (.pure ?_) fun V' h => .pure ?_)
  · exact .single (.nextQueued len hv hwb hk he hs hb)
  · exact .single (.writtenGaveUp hv h (hk.kept he) he)


theorem Runs.nextWrite {rest : List Cqe} {c : Connection} (hv : (V.slots i).Written rest)
    (hwb : (V.slots i).conn.asyncWriteBuf = none) (hk : (V.slots i).conn.KeptOn c)
    (he : c.curlEasy = (V.slots i).conn.curlEasy)
    (hs : (V.slots i).conn.state = .streaming ∧ c.state = .streaming) :
    Runs ω (V.set i { V.slots i with conn := c, comps := rest }) (nextWrite i)
      fun _ V' => Effects V V' := by
  refine .bind (.connOf_set ?_)
  obtain ⟨index, pos, hmoved⟩ := streamNextMessage_moved c
  cases hm : streamNextMessage c with
  | mk msg moved =>
    obtain rfl : moved = _ := (congrArg Prod.snd hm).symm.trans hmoved
    refine .bind (.updateConn_set ?_)
    cases msg with
    | none =>
      refine .bind (.updateConn_set ?_)
      exact .submitNext (countCompleted_quiet i) hv hwb
        ⟨hk.handoffBuf, hk.handoffCap, hk.onDirtyList, hk.asyncWriteBuf⟩ he (.inl rfl) trivial
    | some msg =>
      refine .bind (.quiet malloc_quiet fun block => ?_)
      cases block with
      | none =>
        refine .failConnection (.single (.writtenGaveUp hv .cleanup ?_ he))
        exact ⟨hk.handoffBuf, hk.handoffCap, hk.onDirtyList, .inl he⟩
      | some block =>
        cases streamFormatSse 4096 msg with
        | none =>
          refine .failConnection (.single (.writtenGaveUp hv .cleanup ?_ he))
          exact ⟨hk.handoffBuf, hk.handoffCap, hk.onDirtyList, .inl he⟩
        | some frame =>
          refine .bind (.updateConn_set ?_)
          exact .submitNext countFailed_quiet hv hwb
            ⟨hk.handoffBuf, hk.handoffCap, hk.onDirtyList, hk.asyncWriteBuf⟩ he (.inr hs)
            (.inl rfl)

theorem Runs.handleWrite {res : Int} {rest : List Cqe} (hv : (V.slots i).Written rest)
    (hwb : (V.slots i).conn.asyncWriteBuf = none) :
    Runs ω (V.set i { V.slots i with comps := rest }) (handleWrite i res)
      fun _ V' => Effects V V' := by
  have hstate : (V.slots i).conn.state = .closing ∨ (V.slots i).conn.state = .streaming := by
    rcases hv.1 with hs | ⟨-, hs⟩ | hs
    · exact .inr hs
    · rw [hwb] at hs; cases hs
    · exact .inl hs
  refine .ite (fun _ => .failConnection ?_) fun _ => ?_
  · exact .single (.writtenGaveUp hv .cleanup ⟨rfl, rfl, rfl, .inl rfl⟩ rfl)
  refine .bind (.updateConn_set (.bind (.connOf_set (.ite (fun _ => ?_) fun _ => ?_))))
  · -- a short write
    cases hw : (V.slots i).conn.writeBuf with
    | none =>
      refine .failConnection ?_
      exact .single (.writtenGaveUp hv .cleanup ⟨rfl, rfl, rfl, .inl rfl⟩ rfl)
    | some bf =>
      refine .submitNext countFailed_quiet hv hwb ⟨rfl, rfl, rfl, rfl⟩ rfl ?_ (.inl ?_)
      · exact hstate.imp id fun hs => ⟨hs, hs⟩
      · simp
  · refine .bind (.updateConn_set (.ite (fun _ => ?_) fun hc => ?_))
    · refine .bind (.quiet (countCompleted_quiet i) fun _ => .cleanupConnection ?_)
      exact .single (.writtenGaveUp hv .cleanup ⟨rfl, rfl, rfl, .inl rfl⟩ rfl)
    · have hs := hstate.resolve_left hc
      exact .nextWrite hv hwb ⟨rfl, rfl, rfl, rfl⟩ rfl ⟨hs, hs⟩

/-! ## Completions -/

theorem Runs.connGet {R : Option ConnId → View → Prop}
    (hsome : i < V.cfg.maxConnections → R (some i) V)
    (hnone : V.cfg.maxConnections ≤ i → R none V) : Runs ω V (connGet i) R := by
  refine .get fun s hs => ?_
  have hcfg : s.cfg.maxConnections = V.cfg.maxConnections :=
    congrArg (fun W : View => W.cfg.maxConnections) hs
  rw [hcfg]
  split
  · exact .pure (hsome (by assumption))
  · exact .pure (hnone (Nat.not_lt.mp (by assumption)))

theorem Runs.processRecvFd {res : Int} {rest : List Cqe} {cqe : Cqe}
    (hcomps : (V.slots i).comps = cqe :: rest) (hop : cqe.op = .recvFd) (hres : cqe.res = res) :
    Runs ω (V.set i { V.slots i with comps := rest }) (processRecvFd i res)
      fun _ V' => Effects V V' := by
  refine .bind (.connGet (fun _ => ?_) fun h => .pure (.single (.ignored hcomps (.inl h))))
  refine .bind (.connOf_set (.ite (fun hstate => ?_) fun hstate => ?_))
  · have hv : (V.slots i).Received rest := ⟨hstate, cqe, hcomps, hop⟩
    refine .handleRecvFd (fun c' fd h0 hfd hso hk he => ?_) fun c' _ hk =>
      .single (.recvGaveUp hv .cleanup hk)
    let W := V.note (.parsed i ((V.slots i).conn.handoffBytes.take res.toNat))
    have hparsed : Effect V W := by
      subst hres
      exact .parsed hcomps hop hstate h0
    suffices h : Runs ω (W.set i { W.slots i with conn := c', comps := rest })
        (Uring.startResponse i) fun _ V' => Effects W V' from
      .conseq h fun _ V' h => .head hparsed h
    have hkept : ∀ {c : Connection}, c'.KeptOn c → (V.slots i).conn.KeptOn c := fun h =>
      ⟨h.handoffBuf.trans hk.handoffBuf, h.handoffCap.trans hk.handoffCap,
        h.onDirtyList.trans hk.onDirtyList, h.asyncWriteBuf.trans hk.asyncWriteBuf⟩
    refine .startResponse (fun req c hm hc hk' hs he' hreq hh hf => ?_)
      (fun c hm hk' he' hs => ?_) (fun c len hm hk' he' hs => ?_) fun c V' h hk' => ?_
    · subst hc
      exact .tail (.single (.curlStarted hm hv (hkept hk') hs he' hreq hh hf)) (.went trivial)
    · exact .single (.poolQueued hm hv (hkept hk') (he'.trans he) hs)
    · exact .single (.streamStarted len hm hv (hkept hk') (he'.trans he) hs)
    · refine .single (.recvGaveUp hv h ⟨hk'.handoffBuf.trans hk.handoffBuf,
        hk'.handoffCap.trans hk.handoffCap, hk'.onDirtyList.trans hk.onDirtyList, ?_⟩)
      exact hk'.curlEasy.imp (·.trans he) id
  · exact .pure (.single (.ignored hcomps (.inr (.inl ⟨hop, hstate⟩))))

theorem Runs.processWrite {res : Int} {rest : List Cqe} {cqe : Cqe}
    (hcomps : (V.slots i).comps = cqe :: rest) (hop : cqe.op = .write) :
    Runs ω (V.set i { V.slots i with comps := rest }) (processWrite i res)
      fun _ V' => Effects V V' := by
  have hignored : ¬ (V.slots i).conn.TakesWrite →
      Effects V (V.set i { V.slots i with comps := rest }) :=
    fun h => .single (.ignored hcomps (.inr (.inr ⟨hop, h⟩)))
  refine .bind (.connGet (fun _ => ?_) fun h => .pure (.single (.ignored hcomps (.inl h))))
  refine .bind (.connOf_set (.ite (fun hwb => .ite (fun hs => ?_) fun hs => .pure (hignored ?_))
    fun hwb => .ite (fun hs => ?_) fun hs => .pure (hignored ?_)))
  · obtain ⟨wb, hwb'⟩ := Option.isSome_iff_exists.mp hwb
    refine .handleAsyncWrite ⟨?_, cqe, hcomps, hop⟩ hwb'
    exact hs.imp id (.imp (⟨·, hwb⟩) id)
  · exact fun h => hs (h.imp id (.imp And.left id))
  · refine .handleWrite ⟨?_, cqe, hcomps, hop⟩ (Option.not_isSome_iff_eq_none.mp hwb)
    exact hs.imp id .inr
  · rintro (h | ⟨-, h⟩ | h)
    · exact hs (.inl h)
    · exact hwb h
    · exact hs (.inr h)

/-- What a rule says of the step that runs the code. -/
theorem Runs.exec {s : Daemon} {m : Loop Unit} (h : Runs ω s.view m R) :
    R () (s.exec m ω).view :=
  h 0 s rfl

theorem Runs.processCqe_none {cqe : Cqe} (hc : cqe.slot? = none) :
    Runs ω V (processCqe cqe) fun _ V' => Effects V V' := by
  refine .get fun s _ => ?_
  cases hop : cqe.op with
  | accept => exact .handleAccept
  | recvFd => simp [Cqe.slot?, hop] at hc
  | write => simp [Cqe.slot?, hop] at hc
  | timeout => exact .pure .refl
  | cancel => exact .pure .refl
  | pollCancel => exact .pure .refl
  | eventfd =>
    refine .bind (.quiet (.modify fun _ => rfl) fun _ => .goto ?_)
    exact .single (.went trivial)
  | curlPoll => exact .ite (fun _ => .goto (.single (.went trivial))) fun _ => .pure .refl
  | curlTimeout =>
    refine .ite (fun _ => .bind (.quiet (.modify fun _ => rfl) fun _ => .goto ?_)) fun _ =>
      .pure .refl
    exact .single (.went trivial)

/-- The step that processes a completion. -/
theorem effects_event {s : Daemon} {cqe : Cqe} {rest : List Cqe} (hs : s.cq = cqe :: rest) :
    Effects s.view (s.exec (do
      popCqe rest
      processCqe cqe) ω).view := by
  change Effects s.view ({ s with cq := rest }.exec (processCqe cqe) ω).view
  have hcomps : ∀ {i}, cqe.slot? = some i →
      (s.view.slots i).comps = cqe :: rest.filter fun c => c.slot? = some i := by
    intro i hc
    simp [Daemon.slot, hs, hc]
  cases hop : cqe.op with
  | recvFd =>
    have hc : cqe.slot? = some cqe.connId := by simp [Cqe.slot?, hop]
    refine Runs.exec (R := fun _ V' => Effects s.view V') ?_
    rw [view_pop s hs hc]
    refine .get fun t _ => ?_
    simp only [hop]
    exact .processRecvFd (hcomps hc) hop rfl
  | write =>
    have hc : cqe.slot? = some cqe.connId := by simp [Cqe.slot?, hop]
    refine Runs.exec (R := fun _ V' => Effects s.view V') ?_
    rw [view_pop s hs hc]
    refine .get fun t _ => ?_
    simp only [hop]
    exact .processWrite (hcomps hc) hop
  | _ =>
    have hc : cqe.slot? = none := by simp [Cqe.slot?, hop]
    refine Runs.exec (R := fun _ V' => Effects s.view V') ?_
    rw [view_pop_none s hs hc]
    exact .processCqe_none hc

/-! ## The thread pool -/

theorem Runs.handleCompletion (hdone : 0 < (V.slots i).done) :
    Runs ω (V.set i { V.slots i with done := (V.slots i).done - 1 }) (handleCompletion i)
      fun _ V' => Effects V V' := by
  refine .bind (.connOf_set ?_)
  cases hstate : (V.slots i).conn.state with
  | streaming =>
    refine .startStreaming (fun len => .single ?_) fun len V' h => .single ?_
    · exact .fetchedStreaming _ hdone hstate ⟨rfl, rfl, rfl, rfl⟩ rfl hstate
    · exact .fetchedGaveUp hdone (.inl hstate) h ⟨rfl, rfl, rfl, .inl rfl⟩ rfl
  | streamed =>
    refine .bind (.quiet (countCompleted_quiet i) fun _ => .cleanupConnection (.single ?_))
    exact .fetchedGaveUp hdone (.inr (.inl hstate)) .cleanup ⟨rfl, rfl, rfl, .inl rfl⟩ rfl
  | closing =>
    refine .failConnection (.single ?_)
    exact .fetchedGaveUp hdone (.inr (.inr hstate)) .cleanup ⟨rfl, rfl, rfl, .inl rfl⟩ rfl
  | _ => exact .pure (.single (.fetchedIgnored hdone))

/-- The step that fetches a connection from the pool. -/
theorem effects_completion {s : Daemon} {rest : List ConnId}
    (hs : s.pool.completions = i :: rest) :
    Effects s.view
      ((s.setPool { s.pool with completions := rest }).exec (handleCompletion i) ω).view := by
  refine Runs.exec (R := fun _ V' => Effects s.view V') ?_
  rw [view_fetch s hs]
  refine .handleCompletion ?_
  simp only [view_slots, Daemon.slot, Pool.done, hs, List.count_cons_self]
  omega

theorem Runs.rearmEventfd : Runs ω V rearmEventfd fun _ V' => Effects V V' := by
  refine .get fun s _ => .ite (fun _ => ?_) fun _ => .goto (.single (.went trivial))
  refine .bind (.quiet (.bind .get fun _ => fillSqe_quiet ringGetSqeFlush_quiet rfl) fun _ => ?_)
  exact .goto (.single (.went trivial))

theorem Runs.endIteration (h : R () (V.goto .wait)) : Runs ω V endIteration R :=
  .bind (.quiet ioUringSubmit_quiet fun _ => .change (·.goto .wait) (fun _ => rfl) h)

end SocketHandoff.Uring
