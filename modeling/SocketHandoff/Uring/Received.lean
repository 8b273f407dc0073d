import SocketHandoff.Uring.Isolation

/-!
# What a receive brings

Every receive has room for the first tier of the handoff buffer, and its flags are not looked at.
So `handle_recv_fd` works on the message that arrived last for its slot when it fits there, and on
the first bytes of it when it does not.
-/

namespace SocketHandoff.Uring

variable {cfg : Config} {s s' : Daemon} {V V' W : View} {v v' : Slot} {i j : ConnId} {m : Message}
  {last last' : Option Message} {ω : Env}

/-! ## Messages -/

/-- The message that an event brings for a slot. -/
def Event.message? (i : ConnId) : Event → Option Message
  | .received j m => if j = i then some m else none
  | _ => none

/-- The message that arrived last for a slot. -/
def lastReceived (trace : List Event) (i : ConnId) : Option Message :=
  (trace.filterMap (Event.message? i)).getLast?

theorem lastReceived_append {trace : List Event} {e : Event} :
    lastReceived (trace ++ [e]) i = (e.message? i).or (lastReceived trace i) := by
  simp only [lastReceived, List.filterMap_append, List.getLast?_append]
  cases h : e.message? i <;> simp [h]

theorem lastReceived_noteMoved {wb wb' : WriteBuffer} :
    lastReceived (V.noteMoved j wb wb').trace i = lastReceived V.trace i := by
  simp only [View.noteMoved]
  split
  · exact lastReceived_append
  · rw [List.append_nil]

theorem GiveUp.lastReceived (h : GiveUp V j v V') :
    Uring.lastReceived V'.trace i = Uring.lastReceived V.trace i := by
  cases h with
  | cleanup => rw [View.cleanup_trace]; rfl
  | strand buf len =>
    rw [View.cleanup_trace]
    exact lastReceived_append

/-- No handler receives anything. -/
theorem Effect.lastReceived (h : Effect V V') :
    Uring.lastReceived V'.trace i = Uring.lastReceived V.trace i := by
  cases h with
  | acceptRefused => rw [View.cleanup_trace]; rfl
  | parsed => exact lastReceived_append
  | appendFailed | dataAppended | headersAppended => exact lastReceived_noteMoved
  | recvGaveUp _ hg | writtenGaveUp _ hg | asyncGaveUp _ _ _ hg | fetchedGaveUp _ _ hg =>
    exact hg.lastReceived
  | _ => rfl

/-! ## The buffer of a receive -/

/-- The connection holds the first `n` bytes and the first descriptor of a message. -/
structure Connection.Brought (c : Connection) (m : Message) (n : Nat) : Prop where
  bytes : c.handoffBytes.take n = m.data.take handoffTier1Size
  fd : handoffExtractFd c.recv = m.fds.head?

/-- What a slot has of the message that arrived last for it. The capacity is part of it, for nothing
ever changes it: what could grow the buffer is never called. -/
structure Slot.Delivered (v : Slot) (last : Option Message) : Prop where
  cap : v.conn.handoffBuf.isSome → v.conn.handoffCap = handoffTier1Size
  entry : ∀ r ∈ v.ops, r.request.op = .recvFd → v.conn.recv.controlLen = controlMsgSize ∧
    ∃ fd base, r.request = .recvmsg fd base handoffTier1Size
  completion : ∀ cqe ∈ v.comps, cqe.op = .recvFd → 0 ≤ cqe.res →
    ∃ m, last = some m ∧ v.conn.Brought m cqe.res.toNat

/-- **The invariant.** -/
def View.Delivered (V : View) : Prop := ∀ i, (V.slots i).Delivered (lastReceived V.trace i)

/-- A change of the slot that keeps its receive. -/
structure Slot.Receives (v v' : Slot) : Prop where
  handoffBuf : v'.conn.handoffBuf = v.conn.handoffBuf
  handoffCap : v'.conn.handoffCap = v.conn.handoffCap
  handoffBytes : v'.conn.handoffBytes = v.conn.handoffBytes
  recv : v'.conn.recv = v.conn.recv
  ops : ∀ r ∈ v'.ops, r.request.op = .recvFd → r ∈ v.ops
  comps : ∀ cqe ∈ v'.comps, cqe.op = .recvFd → cqe ∈ v.comps

theorem Slot.Receives.refl (v : Slot) : v.Receives v :=
  ⟨rfl, rfl, rfl, rfl, fun _ hr _ => hr, fun _ hc _ => hc⟩

theorem Slot.Delivered.congr (h : v.Delivered last) (hv : v.Receives v') : v'.Delivered last := by
  refine ⟨?_, fun r hr hop => ?_, fun cqe hc hop hres => ?_⟩
  · rw [hv.handoffBuf, hv.handoffCap]
    exact h.cap
  · rw [hv.recv]
    exact h.entry r (hv.ops r hr hop) hop
  · obtain ⟨m, hm, hb⟩ := h.completion cqe (hv.comps cqe hc hop) hop hres
    refine ⟨m, hm, ?_, ?_⟩
    · rw [hv.handoffBytes]
      exact hb.bytes
    · rw [hv.recv]
      exact hb.fd

theorem Slot.recvs_eq_zero : v.recvs = 0 ↔
    (∀ r ∈ v.ops, r.request.op ≠ .recvFd) ∧ ∀ cqe ∈ v.comps, cqe.op ≠ .recvFd := by
  simp only [Slot.recvs, Nat.add_eq_zero_iff, List.countP_eq_zero, decide_eq_true_eq, Ne]

/-- A slot that is not receiving keeps its buffer only. -/
theorem Slot.Base.delivered (hb : v.Base cfg) (hs : v.conn.state ≠ .receivingFd)
    (hcap : v.conn.handoffBuf.isSome → v.conn.handoffCap = handoffTier1Size) :
    v.Delivered last := by
  obtain ⟨hops, hcomps⟩ := Slot.recvs_eq_zero.mp (hb.recvs_of_ne hs)
  exact ⟨hcap, fun r hmem hop => absurd hop (hops r hmem),
    fun cqe hmem hop _ => absurd hop (hcomps cqe hmem)⟩

theorem View.Delivered.congr (h : V.Delivered)
    (hl : ∀ i, lastReceived V'.trace i = lastReceived V.trace i)
    (hv : ∀ i, (V.slots i).Receives (V'.slots i)) : V'.Delivered := by
  intro i
  rw [hl i]
  exact (h i).congr (hv i)

theorem View.Delivered.set (h : V.Delivered)
    (hv : v'.Delivered (lastReceived V.trace i)) : (V.set i v').Delivered := by
  intro j
  by_cases hj : j = i
  · subst hj
    rw [View.set_slots_self]
    exact hv
  · rw [View.set_slots_of_ne _ _ hj]
    exact h j

/-- A slot is replaced by one that keeps its receive. -/
theorem View.Delivered.keep (h : V.Delivered) (hv : (V.slots i).Receives v') :
    (V.set i v').Delivered := h.set ((h i).congr hv)

/-- A connection is freed; of the others only the requests change. -/
theorem View.Delivered.cleanup (h : V.Delivered) (hb : ((V.set i v).cleanup i).Base)
    (hcap : v.conn.handoffBuf.isSome → v.conn.handoffCap = handoffTier1Size) :
    ((V.set i v).cleanup i).Delivered := by
  intro j
  have hbj := hb.slots j
  obtain ⟨reqs, e, hj⟩ := View.cleanup_slots (V := V.set i v) i j
  rw [View.cleanup_trace, hj]
  rw [hj] at hbj
  by_cases hji : j = i
  · subst hji
    rw [if_pos rfl, View.set_slots_self] at hbj ⊢
    exact hbj.delivered (by simp [Connection.reset, Connection.initial]) hcap
  · rw [if_neg hji, View.set_slots_of_ne _ _ hji]
    exact (h j).congr ⟨rfl, rfl, rfl, rfl, fun _ hr _ => hr, fun _ hc _ => hc⟩

theorem View.Delivered.giveUp (h : V.Delivered) (hg : GiveUp V i v V') (hb : V'.Base)
    (hcap : v.conn.handoffBuf.isSome → v.conn.handoffCap = handoffTier1Size) : V'.Delivered := by
  cases hg with
  | cleanup => exact h.cleanup hb hcap
  | strand buf len =>
    have hn : (V.note (.stranded i)).Delivered :=
      h.congr (fun _ => lastReceived_append) fun _ => .refl _
    exact hn.cleanup hb hcap

/-! ## Every step keeps it -/

theorem Slot.Receives.of_conn {c' : Connection} (hbuf : c'.handoffBuf = v.conn.handoffBuf)
    (hcap : c'.handoffCap = v.conn.handoffCap) (hbytes : c'.handoffBytes = v.conn.handoffBytes)
    (hrecv : c'.recv = v.conn.recv) : v.Receives { v with conn := c' } :=
  ⟨hbuf, hcap, hbytes, hrecv, fun _ hr _ => hr, fun _ hc _ => hc⟩

theorem View.Delivered.setConn {c' : Connection} (h : V.Delivered)
    (hbuf : c'.handoffBuf = (V.slots i).conn.handoffBuf)
    (hcap : c'.handoffCap = (V.slots i).conn.handoffCap)
    (hbytes : c'.handoffBytes = (V.slots i).conn.handoffBytes)
    (hrecv : c'.recv = (V.slots i).conn.recv) : (V.setConn i c').Delivered :=
  h.keep (.of_conn hbuf hcap hbytes hrecv)

/-- Data is appended to a write buffer. -/
theorem View.Delivered.appended {wb wb' : WriteBuffer} (h : V.Delivered) :
    (V.appended i wb wb').Delivered := by
  let c' : Connection := { (V.slots i).conn with asyncWriteBuf := some wb' }
  have hset : (V.setConn i c').Delivered := h.setConn rfl rfl rfl rfl
  intro j
  rw [View.appended, lastReceived_noteMoved]
  exact hset j

theorem View.Delivered.mark (h : V.Delivered) (i : ConnId) : (V.mark i).Delivered :=
  h.setConn rfl rfl rfl rfl

theorem View.Delivered.updateRequest (h : V.Delivered) (easy : Easy)
    (f : CurlRequest → CurlRequest) : (V.updateRequest easy f).Delivered :=
  h.congr (fun _ => rfl) fun _ => ⟨rfl, rfl, rfl, rfl, fun _ hr _ => hr, fun _ hc _ => hc⟩

/-- A new connection has the first tier, whether its buffer is new or not. -/
theorem Slot.Delivered.accepted_cap (h : v.Delivered last) (b : Block) (fd : Fd) :
    (v.conn.accepted b fd).handoffCap = handoffTier1Size := by
  simp only [Connection.accepted, Connection.withHandoffBuf]
  split
  · rename_i hbuf
    exact h.cap (by rw [hbuf]; rfl)
  · rfl

/-- A receive is queued for a slot that was free. -/
theorem Slot.Delivered.accepted (h : v.Delivered last) (hr : v.recvs = 0) (b : Block) (fd : Fd) :
    ((v.accepted b fd).push ((v.accepted b fd).recvSqe i)).Delivered last := by
  obtain ⟨hops, hcomps⟩ := Slot.recvs_eq_zero.mp hr
  have hcap := h.accepted_cap b fd
  have hiov : (v.conn.accepted b fd).recv.iovLen = (v.conn.accepted b fd).handoffCap := rfl
  refine ⟨fun _ => hcap, fun r hmem hop => ⟨rfl, ?_⟩, fun cqe hmem hop => ?_⟩
  · rcases List.mem_append.mp hmem with hmem | hmem
    · exact absurd hop (hops r hmem)
    · obtain rfl := List.mem_singleton.mp hmem
      refine ⟨_, _, congrArg (Request.recvmsg _ _) (hiov.trans hcap)⟩
  · exact absurd hop (hcomps cqe hmem)

theorem View.Delivered.effect (h : V.Delivered) (hb : V.Base) (he : Effect V V') :
    V'.Delivered := by
  have hb' := hb.effect he
  -- a slot that has left the receive keeps its buffer
  have hleft : ∀ {i v'}, ((V.set i v').slots i).Base V'.cfg → v'.conn.state ≠ .receivingFd →
      v'.conn.handoffBuf = (V.slots i).conn.handoffBuf →
      v'.conn.handoffCap = (V.slots i).conn.handoffCap → (V.set i v').Delivered := by
    intro i v' hbi hs hbuf hcap
    rw [View.set_slots_self] at hbi
    refine h.set (hbi.delivered hs ?_)
    rw [hbuf, hcap]
    exact (h i).cap
  have hgaveUp : ∀ {i v} {c' : Connection}, GiveUp V i v V' → v.conn = c' →
      (V.slots i).conn.Kept c' → V'.Delivered := by
    rintro i v c' hg rfl hk
    refine h.giveUp hg (hb.effect he) ?_
    rw [hk.handoffBuf, hk.handoffCap]
    exact (h i).cap
  have hrest : ∀ {i rest} {cqe : Cqe} {c' : Connection}, (V.slots i).comps = cqe :: rest →
      c'.handoffBuf = (V.slots i).conn.handoffBuf → c'.handoffCap = (V.slots i).conn.handoffCap →
      c'.handoffBytes = (V.slots i).conn.handoffBytes → c'.recv = (V.slots i).conn.recv →
      (V.set i { V.slots i with conn := c', comps := rest }).Delivered := by
    intro i rest cqe c' hc hbuf hcap hbytes hrecv
    refine h.keep ⟨hbuf, hcap, hbytes, hrecv, fun _ hr _ => hr, fun c hmem _ => ?_⟩
    rw [hc]
    exact List.mem_cons_of_mem _ hmem
  cases he with
  | went => exact h
  | fetchedIgnored => exact h.keep ⟨rfl, rfl, rfl, rfl, fun _ hr _ => hr, fun _ hc _ => hc⟩
  | @accepted i b fd hf =>
    obtain ⟨-, hu⟩ := hb.held_popFree hf
    have hfree : (V.popFree i).Delivered := h
    refine hfree.set ((h i).accepted ?_ b fd)
    exact (hb.slots i).recvs_of_ne (by rw [hu]; decide)
  | @acceptRefused i b fd hf =>
    obtain ⟨-, hu⟩ := hb.held_popFree hf
    have hfree : (V.popFree i).Delivered := h
    exact hfree.cleanup hb' fun _ => (h i).accepted_cap b fd
  | @ignored i cqe rest hc hi => exact hrest hc rfl rfl rfl rfl
  | parsed => exact h.congr (fun _ => lastReceived_append) fun _ => .refl _
  | recvGaveUp hv hg hk | writtenGaveUp hv hg hk | fetchedGaveUp _ _ hg hk =>
    exact hgaveUp hg rfl hk
  | asyncGaveUp hwb hd hp hg => exact hgaveUp hg rfl ⟨rfl, rfl, rfl, .inl rfl⟩
  | @curlStarted rest c' req hm hv hk hs =>
    have hbi := hb'.slots req.conn
    simp only [View.addRequest, View.set_set, View.set_slots_self] at hbi ⊢
    refine h.set (hbi.delivered (by rw [hs]; decide) ?_)
    rw [hk.handoffBuf, hk.handoffCap]
    exact (h req.conn).cap
  | @poolQueued i rest c' hm hv hk he hs =>
    exact hleft (hb'.slots i) (by rw [hs]; decide) hk.handoffBuf hk.handoffCap
  | @streamStarted i rest c' len hm hv hk he hs =>
    refine hleft (hb'.slots i) ?_ hk.handoffBuf hk.handoffCap
    simp [Slot.pair, Slot.push, hs]
  | @nextQueued i rest c' buf len hv hwb hk he hs hbuf =>
    refine hleft (hb'.slots i) ?_ hk.handoffBuf hk.handoffCap
    rcases hs with hs | ⟨-, hs⟩ <;> simp [Slot.pair, Slot.push, hs]
  | @fetchedStreaming i c' len hd hs hk he hs' =>
    refine hleft (hb'.slots i) ?_ hk.handoffBuf hk.handoffCap
    simp [Slot.pair, Slot.push, hs']
  | @written i rest wb n bytesSent hv hwb hd =>
    obtain ⟨-, cqe, hc, -⟩ := hv
    exact hrest hc rfl rfl rfl rfl
  | @asyncQueued i wb ts hwb hd hp hts =>
    refine h.keep ⟨rfl, rfl, rfl, rfl, fun r hr hop => ?_, fun _ hc _ => hc⟩
    have hnot : ∀ t ∈ ts, t.request.op ≠ .recvFd := by
      rcases hts with rfl | rfl <;> simp [Slot.timeoutSqe, Request.op]
    rcases List.mem_append.mp hr with hr | hr
    · rcases List.mem_append.mp hr with hr | hr
      · exact hr
      · obtain rfl := List.mem_singleton.mp hr
        cases hop
    · exact absurd hop (hnot r hr)
  | bufferMade | lineChanged => exact h.setConn rfl rfl rfl rfl
  | appendFailed => exact h.appended
  | dataAppended => exact h.appended.mark _
  | headersAppended => exact ((h.appended.mark _).updateRequest _ _).setConn rfl rfl rfl rfl
  | requestChanged easy hf => exact h.updateRequest easy _

theorem handoffExtractFd_receive (c : Connection) (got : Received) :
    handoffExtractFd (c.receive got).recv = got.rights.head? := by
  cases h : got.rights <;> simp [handoffExtractFd, Connection.receive, h]

/-- A message is cut to the buffer when it arrives. -/
theorem Slot.Delivered.received {r : Sqe} {len : Nat} {fd : Option Fd} {base : Option Block}
    (h : v.Delivered last) (hr : r ∈ v.ops) (hone : v.recvs ≤ 1)
    (hreq : r.request = .recvmsg fd base len) :
    (let got := m.recv len (controlFdRoom v.conn.recv.controlLen)
    Slot.finish { v with conn := v.conn.receive got } i r got.data.length).Delivered (some m) := by
  have hop : r.request.op = .recvFd := by simp [hreq, Request.op]
  obtain ⟨hctl, fd', base', hreq'⟩ := h.entry r hr hop
  obtain ⟨-, -, rfl⟩ := Request.recvmsg.inj (hreq.symm.trans hreq')
  -- it was the only receive
  have hops := countP_erase_add (P := fun r => decide (r.request.op = .recvFd)) hr
  rw [hop, if_pos (by decide)] at hops
  simp only [Slot.recvs] at hone
  have hops' : (v.ops.erase r).countP (fun r => decide (r.request.op = .recvFd)) = 0 := by omega
  have hcomps : v.comps.countP (fun cqe => decide (cqe.op = .recvFd)) = 0 := by omega
  simp only [List.countP_eq_zero, decide_eq_true_eq] at hops' hcomps
  refine ⟨h.cap, fun t ht htop => absurd htop (hops' t ht), fun cqe hc hcop hres => ?_⟩
  rcases List.mem_append.mp hc with hc | hc
  · exact absurd hcop (hcomps cqe hc)
  · obtain rfl := List.mem_singleton.mp (List.mem_filter.mp hc).1
    have hroom : 0 < controlFdRoom v.conn.recv.controlLen := by
      rw [hctl]
      decide
    refine ⟨m, rfl, ?_, ?_⟩
    · simp only [Sqe.cqe, Slot.finish, Connection.receive, Int.toNat_natCast]
      simp
    · exact (handoffExtractFd_receive _ _).trans (Message.recv_rights_head hroom)

theorem View.Delivered.outside (h : V.Delivered) (hb : V.Base) (ho : Outside V V') :
    V'.Delivered := by
  cases ho with
  | same => exact h
  | @received i r fd base len m hr hi hreq =>
    intro j
    have htrace : ∀ v', lastReceived ((V.note (.received i m)).set i v').trace j =
        (Event.message? j (.received i m)).or (lastReceived V.trace j) :=
      fun _ => lastReceived_append
    rw [htrace]
    by_cases hj : j = i
    · subst hj
      have hone : (V.slots j).recvs ≤ 1 := by
        rw [(hb.slots j).recvs]
        split <;> decide
      rw [View.set_slots_self, Event.message?, if_pos rfl]
      exact (h j).received hr hone hreq
    · rw [View.set_slots_of_ne _ _ hj, Event.message?, if_neg (Ne.symm hj)]
      exact h j
  | @finished i r res hr hi hop =>
    -- a receive that fails brings nothing
    refine h.set ⟨(h i).cap, fun t ht => (h i).entry t (List.mem_of_mem_erase ht),
      fun c hc hcop hres => ?_⟩
    rcases List.mem_append.mp hc with hc | hc
    · exact (h i).completion c hc hcop hres
    · obtain rfl := List.mem_singleton.mp (List.mem_filter.mp hc).1
      rcases hop with ⟨-, hneg⟩ | hop
      · exact absurd hneg (Int.not_lt.mpr hres)
      · exact absurd hop (by rw [show r.request.op = .recvFd from hcop]; decide)
  | @wrote i w res hw hop =>
    refine h.keep ⟨rfl, rfl, rfl, rfl, fun t ht _ => ?_, fun c hc hcop => ?_⟩
    · exact List.mem_of_mem_erase (List.mem_filter.mp ht).1
    · rcases List.mem_append.mp hc with hc | hc
      · exact hc
      · obtain rfl := List.mem_singleton.mp hc
        exact absurd hop (by rw [show w.request.op = .recvFd from hcop]; decide)
  | @processed i c' hq hk he hs =>
    have hbi := (hb.outside (.processed hq hk he hs)).slots i
    rw [View.set_slots_self] at hbi
    refine h.set (hbi.delivered ?_ ?_)
    · rcases hs with hs | hs | hs <;> simp [hs]
    · rw [hk.handoffBuf, hk.handoffCap]
      exact (h i).cap

theorem View.Delivered.effects (h : V.Delivered) (hb : V.Base) (he : Effects V V') :
    V'.Delivered := by
  induction he with
  | refl => exact h
  | tail hes he ih => exact ih.effect (hb.effects hes) he

theorem View.Delivered.removeRequest (h : V.Delivered) (easy : Easy) :
    (V.removeRequest easy).Delivered :=
  h.congr (fun _ => rfl) fun _ => ⟨rfl, rfl, rfl, rfl, fun _ hr _ => hr, fun _ hc _ => hc⟩

theorem View.Delivered.ended {good : Bool} (h : V.Delivered) (he : Ended V i good V') :
    V'.Delivered := by
  have hclose : ∀ {W : View}, W.Delivered → (W.close i).Delivered :=
    fun hW => hW.setConn rfl rfl rfl rfl
  cases he with
  | silent => exact hclose h
  | refused => exact hclose h.appended
  | marked => exact hclose (h.appended.mark i)

theorem View.Delivered.unlink (h : V.Delivered) (prev next : Option ConnId) (i : ConnId) :
    (V.unlink prev i next).Delivered :=
  h.setConn rfl rfl rfl rfl

theorem View.Delivered.flushed {prev : Option ConnId} {last : Bool} (h : V.Delivered)
    (hb : V.Base) (hf : Flushed V i prev last V') : V'.Delivered := by
  cases hf with
  | passed => exact h
  | @queued W wb _ _ _ he =>
    have hW : W.Delivered := h.effects hb he
    exact hW
  | dropped => exact h.unlink prev (V.dirty.next i) i
  | @gaveUp W _ wb hwb hd hp hg hV =>
    have hW := h.effect hb (.asyncGaveUp hwb hd hp hg)
    have hn : (W.note (.readFreed i)).Delivered :=
      hW.congr (fun _ => lastReceived_append) fun _ => .refl _
    rcases hV with rfl | rfl
    · exact hn
    · exact hn.unlink prev (V.dirty.next i) i

/-- **The invariant holds in every state of every run.** -/
theorem delivered_reachable (h : (system cfg).Reachable s) : s.view.Delivered := by
  refine h.invariant_of (J := fun s => s.view.Base) (I := fun s => s.view.Delivered)
    (fun _ => base_reachable) ?_ ?_
  · rintro s ⟨k, rfl⟩ i
    rw [view_submit, view_slots, boot_slot]
    exact ⟨fun hbuf => Bool.noConfusion hbuf, fun r hr => absurd hr List.not_mem_nil,
      fun c hc => absurd hc List.not_mem_nil⟩
  · intro s a s' hb h _ hstep
    have hstepped := stepped hstep
    generalize s'.view = V' at hstepped
    cases hstepped with
    | outside ho => exact h.outside hb ho
    | effects _ he => exact h.effects hb he
    | goto | flushing => exact h
    | flushed _ hf => exact h.flushed hb hf
    | ended _ _ _ he => exact (h.removeRequest _).ended he

/-! ## Handling a receive -/

/-- A step parses a text, whatever it does afterwards. -/
def Daemon.Parses (s : Daemon) (i : ConnId) (text : List UInt8) (s' : Daemon) : Prop :=
  s.trace ++ [.parsed i text] <+: s'.trace

/-- A step parses nothing and frees the connection. -/
def Daemon.Rejects (s : Daemon) (i : ConnId) (s' : Daemon) : Prop :=
  s'.trace = s.trace ∧ s'.gen i = s.gen i + 1

theorem Daemon.Parses.unique {text text' : List UInt8} (h : s.Parses i text s')
    (h' : s.Parses i text' s') : text = text' := by
  have hlen : (s.trace ++ [Event.parsed i text]).length ≤
      (s.trace ++ [Event.parsed i text']).length := by
    simp
  have heq := (List.prefix_of_prefix_length_le h h' hlen).eq_of_length (by simp)
  simpa using heq

theorem Daemon.Parses.not_rejects {text : List UInt8} (h : s.Parses i text s') :
    ¬ s.Rejects i s' := by
  rintro ⟨ht, -⟩
  have hlen := h.length_le
  rw [ht, List.length_append, List.length_singleton] at hlen
  omega

/-- A message is handled as a whole: it is received in full unless it is too long, and then parsed
exactly as it was sent, or the connection is rejected. What is too long is what the daemon's own
limit says, and not what its buffer has room for. -/
structure Daemon.Whole (s : Daemon) (cqe : Cqe) (m : Message) (s' : Daemon) : Prop where
  full : m.data.length ≤ maxHandoffDataSize →
    (s.connections cqe.connId).handoffBytes.take cqe.res.toNat = m.data
  handled : s.Parses cqe.connId m.data s' ∨ s.Rejects cqe.connId s'

/-- A message is accepted when it brings the descriptor of a stream socket. -/
def Connection.Accepts (c : Connection) (ω : Env) : Prop :=
  ∃ fd, handoffExtractFd c.recv = some fd ∧ ω.soType fd = some .stream

theorem Runs.processRecvFd_outcome {res : Int} {rest : List Cqe}
    (hi : i < V.cfg.maxConnections) (hs : (V.slots i).conn.state = .receivingFd) (hres : 0 ≤ res) :
    Runs ω (V.set i { V.slots i with comps := rest }) (Uring.processRecvFd i res) fun _ V' =>
      ((V.slots i).conn.Accepts ω ∧
        V.trace ++ [.parsed i ((V.slots i).conn.handoffBytes.take res.toNat)] <+: V'.trace) ∨
      (¬ (V.slots i).conn.Accepts ω ∧ V'.trace = V.trace ∧
        (V'.slots i).gen = (V.slots i).gen + 1) := by
  refine .bind (.connGet (fun _ => ?_) fun h => absurd hi (Nat.not_lt.mpr h))
  refine .bind (.connOf_set (.ite (fun _ => ?_) fun h => absurd hs h))
  refine .handleRecvFd (fun c' fd _ hfd hso _ _ => ?_) fun c' hnot _ => .inr ⟨?_, ?_, ?_⟩
  · refine .conseq (.startResponse (R := fun _ V' =>
      V.trace ++ [.parsed i ((V.slots i).conn.handoffBytes.take res.toNat)] <+: V'.trace)
      (fun _ _ _ _ _ _ _ _ _ _ => List.prefix_refl _) (fun _ _ _ _ _ => List.prefix_refl _)
      (fun _ _ _ _ _ _ => List.prefix_refl _) fun _ V' h _ => h.trace) fun _ V' h => ?_
    exact .inl ⟨⟨fd, hfd, hso⟩, h⟩
  · rintro ⟨fd, hfd, hso⟩
    exact hnot fd hres hfd hso
  · rw [View.cleanup_trace]
    rfl
  · obtain ⟨reqs, e, hj⟩ := View.cleanup_slots
      (V := V.set i { V.slots i with conn := c', comps := rest }) i i
    rw [hj, if_pos rfl, View.set_slots_self]

/-- **What `handle_recv_fd` does** with a message: it parses the first 4096 bytes, or rejects the
connection. Which of the two is decided by the descriptor alone, and the rest of a longer message is
lost in both. -/
theorem recvFd_outcome {cqe : Cqe} {rest : List Cqe} (h : (system cfg).Reachable s)
    (hpc : s.pc = .events) (hcq : s.cq = cqe :: rest) (hop : cqe.op = .recvFd)
    (hres : 0 ≤ cqe.res) : ∃ m, lastReceived s.trace cqe.connId = some m ∧
      (s.connections cqe.connId).handoffBytes.take cqe.res.toNat =
        m.data.take handoffTier1Size ∧
      ∀ ω s', step s (.event ω) = some s' →
        ((∃ fd, m.fds.head? = some fd ∧ ω.soType fd = some .stream) ∧
          s.Parses cqe.connId (m.data.take handoffTier1Size) s') ∨
        ((¬ ∃ fd, m.fds.head? = some fd ∧ ω.soType fd = some .stream) ∧
          s.Rejects cqe.connId s') := by
  have hb := base_reachable h
  have hmem : cqe ∈ (s.view.slots cqe.connId).comps := by
    simp [Daemon.slot, hcq, Cqe.slot?, hop]
  obtain ⟨m, hlast, hbytes, hfd⟩ := (delivered_reachable h cqe.connId).completion cqe hmem hop hres
  refine ⟨m, hlast, hbytes, fun ω s' hstep => ?_⟩
  have hslot := hb.slots cqe.connId
  have hs : (s.connections cqe.connId).state = .receivingFd := by
    by_contra hne
    exact (Slot.recvs_eq_zero.mp (hslot.recvs_of_ne hne)).2 cqe hmem hop
  have hi : cqe.connId < s.cfg.maxConnections := hb.used _ (by
    rw [view_slots, slot_conn, hs]
    decide)
  have hexec : s' = { s with cq := rest }.exec (processCqe cqe) ω := by
    simp only [step, loopStep, hpc, hcq] at hstep
    exact (Option.some.inj hstep).symm
  subst hexec
  have hc : cqe.slot? = some cqe.connId := by simp [Cqe.slot?, hop]
  have hrun : Runs ω { s with cq := rest }.view (processCqe cqe) fun _ V' =>
      ((s.connections cqe.connId).Accepts ω ∧ s.trace ++ [.parsed cqe.connId
        ((s.connections cqe.connId).handoffBytes.take cqe.res.toNat)] <+: V'.trace) ∨
      (¬ (s.connections cqe.connId).Accepts ω ∧ V'.trace = s.trace ∧
        (V'.slots cqe.connId).gen = s.gen cqe.connId + 1) := by
    rw [view_pop s hcq hc]
    refine .get fun t _ => ?_
    simp only [hop]
    exact .processRecvFd_outcome (V := s.view) hi hs hres
  have hacc : (s.connections cqe.connId).Accepts ω ↔
      ∃ fd, m.fds.head? = some fd ∧ ω.soType fd = some .stream := by
    rw [← hfd]
    rfl
  rcases hrun.exec with ⟨ha, ht⟩ | ⟨ha, ht⟩
  · rw [show (s.connections cqe.connId).handoffBytes.take cqe.res.toNat = _ from hbytes] at ht
    exact .inl ⟨hacc.mp ha, ht⟩
  · exact .inr ⟨fun h => ha (hacc.mpr h), ht⟩

/-- **A message is handled as a whole exactly when** it fits into the first tier, or is too long
altogether and brings no descriptor of a stream socket. It holds in every state of every run: the
capacity of a buffer is that of the first tier at all times. -/
theorem recvFd_whole_iff {cqe : Cqe} {rest : List Cqe} (h : (system cfg).Reachable s)
    (hpc : s.pc = .events) (hcq : s.cq = cqe :: rest) (hop : cqe.op = .recvFd)
    (hres : 0 ≤ cqe.res) : ∃ m, lastReceived s.trace cqe.connId = some m ∧
      ∀ ω s', step s (.event ω) = some s' →
        (s.Whole cqe m s' ↔ m.data.length ≤ handoffTier1Size ∨
          maxHandoffDataSize < m.data.length ∧
            ∀ fd, m.fds.head? = some fd → ω.soType fd ≠ some .stream) := by
  obtain ⟨m, hlast, hbytes, hout⟩ := recvFd_outcome h hpc hcq hop hres
  refine ⟨m, hlast, fun ω s' hstep => ⟨fun hw => ?_, fun hm => ?_⟩⟩
  · by_cases hfit : m.data.length ≤ handoffTier1Size
    · exact .inl hfit
    have hcut : m.data.take handoffTier1Size ≠ m.data := by
      rwa [Ne, List.take_eq_self_iff]
    refine .inr ⟨Nat.not_le.mp fun hmax => hcut (hbytes.symm.trans (hw.full hmax)), ?_⟩
    intro fd hfd hso
    rcases hout ω s' hstep with ⟨-, hp⟩ | ⟨hnot, -⟩
    · -- the text that is parsed is a prefix of the message
      rcases hw.handled with hp' | hr
      · exact hcut (hp.unique hp')
      · exact hp.not_rejects hr
    · exact hnot ⟨fd, hfd, hso⟩
  · rcases hm with hfit | ⟨hlong, hnot⟩
    · have htake : m.data.take handoffTier1Size = m.data := List.take_of_length_le hfit
      rw [htake] at hbytes
      refine ⟨fun _ => hbytes, ?_⟩
      rcases hout ω s' hstep with ⟨-, hp⟩ | ⟨-, hr⟩
      · rw [htake] at hp
        exact .inl hp
      · exact .inr hr
    · refine ⟨fun hmax => absurd hmax (Nat.not_le.mpr hlong), ?_⟩
      rcases hout ω s' hstep with ⟨⟨fd, hfd, hso⟩, -⟩ | ⟨-, hr⟩
      · exact absurd hso (hnot fd hfd)
      · exact .inr hr

/-! ### Where it breaks -/

/-- A client arrives and its message is received. -/
def deliverOne (m : Message) : List Label :=
  acceptOne ++ [.kernel (.deliver ⟨.recvmsg (some 10) (some 0) 4096, 0, 0⟩ m), .woken]

/-- The daemon is about to handle a message. -/
theorem exists_delivered (m : Message) : ∃ s cqe, (system demoConfig).Reachable s ∧
    s.pc = .events ∧ s.cq = [cqe] ∧ cqe.op = .recvFd ∧ 0 ≤ cqe.res ∧ cqe.connId = 0 ∧
    lastReceived s.trace 0 = some m := by
  have hboot : (system demoConfig).Reachable ((Daemon.boot demoConfig).submit 1) := .init ⟨1, rfl⟩
  obtain ⟨s, hrun, hpc, hcq, htrace⟩ :
      ∃ s, (system demoConfig).run ((Daemon.boot demoConfig).submit 1) (deliverOne m) = some s ∧
        s.pc = .events ∧
        s.cq = [⟨.recvFd, 0, (m.recv 4096 (controlFdRoom controlMsgSize)).data.length, false, 0⟩] ∧
        s.trace = [.received 0 m] :=
    ⟨_, rfl, rfl, rfl, rfl⟩
  refine ⟨s, _, hboot.run _ hrun, hpc, hcq, rfl, Int.natCast_nonneg _, rfl, ?_⟩
  rw [htrace]
  rfl

/-- A message with a prompt. -/
def promptMessage : Message := ⟨ascii "\x7b\"prompt\":\"hi\"\x7d", [11]⟩

/-- It is handled as a whole, whatever the next step meets. -/
theorem recvFd_whole_iff_prompt : ∃ s cqe m, (system demoConfig).Reachable s ∧
    lastReceived s.trace cqe.connId = some m ∧ m = promptMessage ∧
    ∀ ω s', step s (.event ω) = some s' → s.Whole cqe m s' := by
  obtain ⟨s, cqe, hs, hpc, hcq, hop, hres, hid, hlast⟩ := exists_delivered promptMessage
  obtain ⟨m, hm, hiff⟩ := recvFd_whole_iff hs hpc hcq hop hres
  have hm' : m = promptMessage := by
    rw [hid, hlast] at hm
    exact (Option.some.inj hm).symm
  refine ⟨s, cqe, m, hs, hm, hm', fun ω s' hstep => (hiff ω s' hstep).mpr (.inl ?_)⟩
  rw [hm']
  decide

/-- **A message can be cut**: of one byte more than the first tier the daemon parses all but the last
byte, and streams a response. The buffer never grows to the second tier. -/
theorem not_recvFd_whole : ∃ s s' cqe m, (system demoConfig).Reachable s ∧ s.cq = [cqe] ∧
    lastReceived s.trace cqe.connId = some m ∧ m.data.length = handoffTier1Size + 1 ∧
    step s (.event .willing) = some s' ∧ s.Parses cqe.connId (m.data.take handoffTier1Size) s' ∧
    ¬ s.Whole cqe m s' := by
  obtain ⟨s, cqe, hs, hpc, hcq, hop, hres, hid, hlast⟩ :=
    exists_delivered ⟨List.replicate (handoffTier1Size + 1) 32, [11]⟩
  obtain ⟨m, hm, hbytes, hout⟩ := recvFd_outcome hs hpc hcq hop hres
  have hm' : m = ⟨List.replicate (handoffTier1Size + 1) 32, [11]⟩ := by
    rw [hid, hlast] at hm
    exact (Option.some.inj hm).symm
  have hlen : m.data.length = handoffTier1Size + 1 := by
    rw [hm', List.length_replicate]
  obtain ⟨s', hstep⟩ : ∃ s', step s (.event .willing) = some s' := by
    simp only [step, loopStep, hpc, hcq]
    exact ⟨_, rfl⟩
  have hfd : m.fds.head? = some 11 := by rw [hm']; rfl
  have hp : s.Parses cqe.connId (m.data.take handoffTier1Size) s' := by
    rcases hout .willing s' hstep with ⟨-, hp⟩ | ⟨hnot, -⟩
    · exact hp
    · exact absurd ⟨11, hfd, rfl⟩ hnot
  refine ⟨s, s', cqe, m, hs, hcq, hm, hlen, hstep, hp, fun hw => ?_⟩
  have hmax : m.data.length ≤ maxHandoffDataSize := by
    rw [hlen]
    decide
  have hcut := congrArg List.length (hbytes.symm.trans (hw.full hmax))
  rw [List.length_take, hlen] at hcut
  omega

end SocketHandoff.Uring
