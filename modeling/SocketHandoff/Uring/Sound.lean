import SocketHandoff.Uring.Base

/-!
# One thing at a time

`user_data` names a slot and not a connection, so nothing tells a completion of the connection
that was freed from one of the connection that took its slot. What keeps them apart is that a slot
has at most one thing outstanding at a time, and is freed only when it has nothing: `Slot.Sound`.

Two branches break this. Where a write finds an entry and its timeout does not, the connection is
freed with the write queued; and an append may make `realloc` move the buffer of a write in flight.
Both are noted in the trace, and a run is clean as long as it has taken neither.
-/

namespace SocketHandoff.Uring

variable {V V' W : View} {i j : ConnId} {v v' : Slot} {cfg : Config} {rest : List Cqe}
  {c c' : Connection} {wb wb' : WriteBuffer}

/-! ## Clean runs -/

/-- The branches after which an entry refers to something that is gone. -/
def Event.harmful : Event → Bool
  | .stranded _ | .moved _ => true
  | _ => false

/-- Neither has been taken so far. -/
def View.Clean (V : View) : Prop := ∀ e ∈ V.trace, e.harmful = false

theorem View.Clean.of_start (hc : V'.Clean) (h : V.trace <+: V'.trace) : V.Clean :=
  fun e he => hc e (h.subset he)

@[simp] theorem View.cancel_trace (i : ConnId) : (V.cancel i).trace = V.trace := by
  simp only [View.cancel]
  split <;> rfl

@[simp] theorem View.cancel_cfg (i : ConnId) : (V.cancel i).cfg = V.cfg := by
  simp only [View.cancel]
  split <;> rfl

@[simp] theorem View.cleanup_cfg (i : ConnId) : (V.cleanup i).cfg = V.cfg := by
  simp only [View.cleanup, View.free, View.pushFree, View.set, View.unmark, View.setConn]
  split
  · exact View.cancel_cfg i
  · rfl

@[simp] theorem View.cleanup_trace (i : ConnId) : (V.cleanup i).trace = V.trace := by
  simp only [View.cleanup, View.free, View.pushFree, View.set, View.unmark, View.setConn]
  split
  · exact View.cancel_trace i
  · rfl

/-- In a clean run a handler that gives up leaves nothing queued. -/
theorem GiveUp.of_clean (h : GiveUp V i v V') (hc : V'.Clean) : V' = (V.set i v).cleanup i := by
  cases h with
  | cleanup => rfl
  | strand buf len =>
    have hmem : Event.stranded i ∈
        (((V.note (.stranded i)).set i (v.push (v.writeSqe i buf len))).cleanup i).trace := by
      simp [View.note, View.set]
    cases hc _ hmem

theorem GiveUp.trace (h : GiveUp V i v V') : V.trace <+: V'.trace := by
  cases h with
  | cleanup => simp [View.set]
  | strand buf len => simp [View.note, View.set]

/-- The trace of a run only grows. -/
theorem Effect.trace (h : Effect V V') : V.trace <+: V'.trace := by
  cases h with
  | acceptRefused => simp [View.set, View.popFree]
  | parsed | appendFailed | dataAppended | headersAppended =>
    exact List.prefix_append ..
  | recvGaveUp _ hg | writtenGaveUp _ hg | asyncGaveUp _ _ _ hg | fetchedGaveUp _ _ hg =>
    exact hg.trace
  | _ => exact List.prefix_refl _

theorem effects_trace (h : Effects V V') : V.trace <+: V'.trace := by
  induction h with
  | refl => exact List.prefix_refl _
  | tail _ he ih => exact ih.trans he.trace

theorem GiveUp.cfg_eq (h : GiveUp V i v V') : V'.cfg = V.cfg := by
  cases h with
  | cleanup => exact View.cleanup_cfg i
  | strand buf len => exact View.cleanup_cfg i

theorem Effect.cfg_eq (h : Effect V V') : V'.cfg = V.cfg := by
  cases h with
  | acceptRefused => exact View.cleanup_cfg _
  | recvGaveUp _ hg | writtenGaveUp _ hg | asyncGaveUp _ _ _ hg | fetchedGaveUp _ _ hg =>
    exact hg.cfg_eq
  | _ => rfl

theorem effects_cfg (h : Effects V V') : V'.cfg = V.cfg := by
  induction h with
  | refl => rfl
  | tail _ he ih => exact he.cfg_eq.trans ih

theorem Outside.trace (h : Outside V V') : V.trace <+: V'.trace := by
  cases h with
  | received => exact List.prefix_append ..
  | _ => exact List.prefix_refl _

theorem Ended.trace {good : Bool} (h : Ended V i good V') : V.trace <+: V'.trace := by
  cases h with
  | silent => exact List.prefix_refl _
  | refused | marked => exact List.prefix_append ..

theorem Flushed.trace {prev : Option ConnId} {last : Bool} (h : Flushed V i prev last V') :
    V.trace <+: V'.trace := by
  cases h with
  | passed | dropped => exact List.prefix_refl _
  | @queued W wb _ _ _ he =>
    have hW : V.trace <+: W.trace := effects_trace he
    exact hW
  | gaveUp _ _ _ hg hV =>
    have hnote : ∀ {U : View}, V.trace <+: U.trace → V.trace <+: (U.note (.readFreed i)).trace :=
      fun h => h.trans (List.prefix_append ..)
    rcases hV with rfl | rfl <;> exact hnote hg.trace

theorem Stepped.trace {s : Daemon} {a : Label} (h : Stepped s a V') : s.view.trace <+: V'.trace := by
  cases h with
  | outside ho => exact ho.trace
  | effects _ he => exact effects_trace he
  | goto | flushing => exact List.prefix_refl _
  | flushed _ hf => exact hf.trace
  | ended _ _ _ he => exact Ended.trace (V := s.view.removeRequest _) he

/-! ## One thing at a time -/

/-- What a slot has outstanding. -/
structure Slot.Holds (v : Slot) (ops : List Sqe) (comps : List Cqe) (queued done : Nat) : Prop where
  ops : v.ops = ops
  comps : v.comps = comps
  queued : v.queued = queued
  done : v.done = done

/-- Nothing. -/
abbrev Slot.Idle (v : Slot) : Prop := v.Holds [] [] 0 0

/-- A connection with a write buffer has a write of it in flight. -/
structure Connection.Waits (c : Connection) (mode : Mode) : Prop where
  used : c.state ≠ .unused
  pending : mode = .curlMulti → ∃ wb, c.asyncWriteBuf = some wb ∧ wb.writePending = true

/-- A write reads a buffer of its connection, and if that is the write buffer, bytes that wait in
it. -/
structure Connection.Writes (c : Connection) (mode : Mode) (buf : Buf) (len : Nat) : Prop where
  used : c.state ≠ .unused
  owned : buf.Owned c
  region : mode = .curlMulti → ∃ wb, c.asyncWriteBuf = some wb ∧ wb.writePending = true ∧
    buf = .block wb.buffer wb.tail ∧ wb.tail + len ≤ wb.head

/-- **The invariant of a slot.** It has one receive, one write or one place in the pool outstanding,
of the connection that is in it, or nothing. The cases exclude each other, so that a completion that
arrives says in which of them the slot was. -/
inductive Slot.Sound (cfg : Config) (i : ConnId) (v : Slot) : Prop
  | idle : v.Idle → Slot.Sound cfg i v
  | receiving : v.Holds [v.recvSqe i] [] 0 0 → v.conn.state = .receivingFd →
      v.conn.recv.iovBase = v.conn.handoffBuf → Slot.Sound cfg i v
  | received (cqe : Cqe) : v.Holds [] [cqe] 0 0 → cqe.op = .recvFd → cqe.gen = v.gen →
      v.conn.state = .receivingFd → Slot.Sound cfg i v
  | writing (buf : Buf) (len : Nat) (ts : List Sqe) :
      v.Holds (v.writeSqe i buf len :: ts) [] 0 0 → (ts = [] ∨ ts = [v.timeoutSqe cfg i]) →
      v.conn.Writes cfg.mode buf len → Slot.Sound cfg i v
  | written (cqe : Cqe) : v.Holds [] [cqe] 0 0 → cqe.op = .write → cqe.gen = v.gen →
      v.conn.Waits cfg.mode → Slot.Sound cfg i v
  | queued : v.Holds [] [] 1 0 → cfg.mode = .threadPool → v.conn.state ≠ .unused →
      Slot.Sound cfg i v
  | done : v.Holds [] [] 0 1 → cfg.mode = .threadPool → v.conn.state ≠ .unused →
      Slot.Sound cfg i v

/-- The same of all slots. -/
def View.Sound (V : View) : Prop := ∀ i, (V.slots i).Sound V.cfg i

theorem Connection.Writes.waits {mode : Mode} {buf : Buf} {len : Nat}
    (h : c.Writes mode buf len) : c.Waits mode :=
  ⟨h.used, fun hm => let ⟨wb, hwb, hp, _⟩ := h.region hm; ⟨wb, hwb, hp⟩⟩

/-! ### What a slot in a given situation has outstanding -/

namespace Slot.Sound

theorem of_unused (h : v.Sound cfg i) (hu : v.conn.state = .unused) : v.Idle := by
  cases h with
  | idle h => exact h
  | receiving _ hs | received _ _ _ _ hs => rw [hu] at hs; cases hs
  | writing _ _ _ _ _ hw => exact absurd hu hw.used
  | written _ _ _ _ hw => exact absurd hu hw.used
  | queued _ _ hs | done _ _ hs => exact absurd hu hs

/-- Once its completion is taken, nothing is outstanding. -/
theorem of_comps (h : v.Sound cfg i) {cqe : Cqe} (hc : v.comps = cqe :: rest) :
    v.Holds [] [cqe] 0 0 ∧ rest = [] := by
  cases h with
  | idle h | receiving h | writing _ _ _ h | queued h | done h =>
    have := h.comps.symm.trans hc
    cases this
  | received c h | written c h =>
    obtain ⟨rfl, rfl⟩ := List.cons.inj (h.comps.symm.trans hc)
    exact ⟨h, rfl⟩

theorem of_written (h : v.Sound cfg i) (hv : v.Written rest) : v.conn.Waits cfg.mode := by
  obtain ⟨-, cqe, hc, hop⟩ := hv
  cases h with
  | idle h | receiving h | writing _ _ _ h | queued h | done h =>
    have := h.comps.symm.trans hc
    cases this
  | received c h hop' =>
    obtain ⟨rfl, -⟩ := List.cons.inj (h.comps.symm.trans hc)
    rw [hop] at hop'
    cases hop'
  | written c h _ _ hw => exact hw

theorem of_done (h : v.Sound cfg i) (hd : 0 < v.done) :
    v.Holds [] [] 0 1 ∧ cfg.mode = .threadPool ∧ v.conn.state ≠ .unused := by
  cases h with
  | idle h | receiving h | received _ h | writing _ _ _ h | written _ h | queued h =>
    exact absurd h.done (Nat.ne_of_gt hd)
  | done h hm hs => exact ⟨h, hm, hs⟩

theorem of_queued (h : v.Sound cfg i) (hd : 0 < v.queued) :
    v.Holds [] [] 1 0 ∧ cfg.mode = .threadPool ∧ v.conn.state ≠ .unused := by
  cases h with
  | idle h | receiving h | received _ h | writing _ _ _ h | written _ h | done h =>
    exact absurd h.queued (Nat.ne_of_gt hd)
  | queued h hm hs => exact ⟨h, hm, hs⟩

/-- With a write buffer in curl mode, either its write is in flight or nothing is. -/
theorem of_buffer (h : v.Sound cfg i) (hb : v.Base cfg) (hwb : v.conn.asyncWriteBuf = some wb)
    (hp : wb.writePending = false) : v.Idle := by
  obtain ⟨hm, hs⟩ := hb.buffer (by rw [hwb]; rfl)
  have hne : v.conn.state ≠ .receivingFd := by rcases hs with hs | hs | hs <;> simp [hs]
  have hbusy : ¬ v.conn.Waits cfg.mode := by
    rintro ⟨-, hpend⟩
    obtain ⟨wb', hwb', hp'⟩ := hpend hm
    obtain rfl := Option.some.inj (hwb.symm.trans hwb')
    rw [hp] at hp'
    cases hp'
  cases h with
  | idle h => exact h
  | receiving _ hs' | received _ _ _ _ hs' => exact absurd hs' hne
  | writing _ _ _ _ _ hw => exact absurd hw.waits hbusy
  | written _ _ _ _ hw => exact absurd hw hbusy
  | queued _ hm' | done _ hm' => rw [hm] at hm'; cases hm'

/-- A connection with a request and no write buffer has nothing outstanding. -/
theorem of_request (h : v.Sound cfg i) (hb : v.Base cfg) (hr : v.requests ≠ [])
    (hwb : v.conn.asyncWriteBuf = none) : v.Idle := by
  obtain ⟨hm, hs⟩ := hb.state_of_request hr
  have hne : v.conn.state ≠ .receivingFd := by rcases hs with hs | hs <;> simp [hs]
  have hbusy : ¬ v.conn.Waits cfg.mode := by
    rintro ⟨-, hpend⟩
    obtain ⟨wb', hwb', -⟩ := hpend hm
    rw [hwb] at hwb'
    cases hwb'
  cases h with
  | idle h => exact h
  | receiving _ hs' | received _ _ _ _ hs' => exact absurd hs' hne
  | writing _ _ _ _ _ hw => exact absurd hw.waits hbusy
  | written _ _ _ _ hw => exact absurd hw hbusy
  | queued _ hm' | done _ hm' => rw [hm] at hm'; cases hm'

end Slot.Sound

/-! ## Changes the invariant does not see -/

/-- Two connections that differ in nothing an entry refers to. -/
structure Connection.Steady (c c' : Connection) : Prop where
  state : c'.state = c.state ∨ c.state ≠ .receivingFd ∧ c'.state ≠ .unused
  unixFd : c'.unixFd = c.unixFd
  clientFd : c'.clientFd = c.clientFd
  recv : c'.recv = c.recv
  handoffBuf : c'.handoffBuf = c.handoffBuf
  writeBuf : c'.writeBuf = c.writeBuf
  asyncWriteBuf : c'.asyncWriteBuf = c.asyncWriteBuf

/-- Two slots that have the same outstanding. -/
structure Slot.Steady (v v' : Slot) : Prop where
  conn : v.conn.Steady v'.conn
  gen : v'.gen = v.gen
  ops : v'.ops = v.ops
  comps : v'.comps = v.comps
  queued : v'.queued = v.queued
  done : v'.done = v.done

theorem Connection.Steady.refl (c : Connection) : c.Steady c :=
  ⟨.inl rfl, rfl, rfl, rfl, rfl, rfl, rfl⟩

theorem Slot.Steady.refl (v : Slot) : v.Steady v := ⟨.refl _, rfl, rfl, rfl, rfl, rfl⟩

theorem Connection.Steady.used (h : c.Steady c') (hu : c.state ≠ .unused) : c'.state ≠ .unused := by
  rcases h.state with hs | ⟨-, hs⟩
  · rwa [hs]
  · exact hs

theorem Connection.Steady.receiving (h : c.Steady c') (hr : c.state = .receivingFd) :
    c'.state = .receivingFd := by
  rcases h.state with hs | ⟨hs, -⟩
  · rwa [hs]
  · exact absurd hr hs

theorem Connection.Steady.waits {mode : Mode} (h : c.Steady c') (hw : c.Waits mode) :
    c'.Waits mode :=
  ⟨h.used hw.used, by rw [h.asyncWriteBuf]; exact hw.pending⟩

theorem Connection.Steady.writes {mode : Mode} {buf : Buf} {len : Nat} (h : c.Steady c')
    (hw : c.Writes mode buf len) : c'.Writes mode buf len := by
  refine ⟨h.used hw.used, ?_, by rw [h.asyncWriteBuf]; exact hw.region⟩
  have := hw.owned
  cases buf with
  | static => trivial
  | block b offset => rwa [Buf.Owned, h.writeBuf, h.asyncWriteBuf]

theorem Slot.Steady.holds {ops : List Sqe} {comps : List Cqe} {queued done : Nat}
    (h : v.Steady v') (hv : v.Holds ops comps queued done) : v'.Holds ops comps queued done :=
  ⟨h.ops.trans hv.ops, h.comps.trans hv.comps, h.queued.trans hv.queued, h.done.trans hv.done⟩

theorem Slot.Sound.steady (h : v.Sound cfg i) (hv : v.Steady v') : v'.Sound cfg i := by
  cases h with
  | idle h => exact .idle (hv.holds h)
  | receiving h hs hb =>
    refine .receiving ?_ (hv.conn.receiving hs) ?_
    · have hr : v'.recvSqe i = v.recvSqe i := by
        simp only [Slot.recvSqe, hv.conn.unixFd, hv.conn.recv, hv.gen]
      exact hr ▸ hv.holds h
    · rw [hv.conn.recv, hv.conn.handoffBuf, hb]
  | received cqe h hop hg hs =>
    exact .received cqe (hv.holds h) hop (hg.trans hv.gen.symm) (hv.conn.receiving hs)
  | writing buf len ts h hts hw =>
    refine .writing buf len ts ?_ ?_ (hv.conn.writes hw)
    · have hr : v'.writeSqe i buf len = v.writeSqe i buf len := by
        simp only [Slot.writeSqe, hv.conn.clientFd, hv.gen]
      exact hr ▸ hv.holds h
    · simpa only [Slot.timeoutSqe, hv.gen] using hts
  | written cqe h hop hg hw =>
    exact .written cqe (hv.holds h) hop (hg.trans hv.gen.symm) (hv.conn.waits hw)
  | queued h hm hs => exact .queued (hv.holds h) hm (hv.conn.used hs)
  | done h hm hs => exact .done (hv.holds h) hm (hv.conn.used hs)

theorem View.Sound.steady (h : V.Sound) (hcfg : V'.cfg = V.cfg)
    (hv : ∀ j, (V.slots j).Steady (V'.slots j)) : V'.Sound := by
  intro j
  rw [hcfg]
  exact (h j).steady (hv j)

theorem View.Sound.set (h : V.Sound) (hv : v'.Sound V.cfg i) : (V.set i v').Sound := by
  intro j
  by_cases hj : j = i
  · subst hj
    rwa [View.set_slots_self]
  · rw [View.set_slots_of_ne _ _ hj]
    exact h j

theorem View.Sound.setConn (h : V.Sound) (hc : (V.slots i).conn.Steady c') :
    (V.setConn i c').Sound :=
  h.set ((h i).steady ⟨hc, rfl, rfl, rfl, rfl, rfl⟩)

theorem View.Sound.mark (h : V.Sound) (i : ConnId) : (V.mark i).Sound := by
  have hc : (V.slots i).conn.Steady { (V.slots i).conn with onDirtyList := true } :=
    ⟨.inl rfl, rfl, rfl, rfl, rfl, rfl, rfl⟩
  exact (h.setConn hc).steady rfl fun _ => .refl _

theorem View.Sound.unlink (h : V.Sound) (prev next : Option ConnId) (i : ConnId) :
    (V.unlink prev i next).Sound := by
  have hc : (V.slots i).conn.Steady { (V.slots i).conn with onDirtyList := false } :=
    ⟨.inl rfl, rfl, rfl, rfl, rfl, rfl, rfl⟩
  exact (h.setConn hc).steady rfl fun _ => .refl _

/-- The requests are not looked at. -/
theorem View.Sound.requests (h : V.Sound) (hcfg : V'.cfg = V.cfg)
    (hv : ∀ j, ∃ reqs, V'.slots j = { V.slots j with requests := reqs }) : V'.Sound := by
  refine h.steady hcfg fun j => ?_
  obtain ⟨reqs, hj⟩ := hv j
  rw [hj]
  exact ⟨.refl _, rfl, rfl, rfl, rfl, rfl⟩

/-! ## Freeing a slot -/

theorem View.cancel_slots (i j : ConnId) : ∃ reqs e,
    (V.cancel i).slots j = { V.slots j with
      requests := reqs
      conn := { (V.slots j).conn with curlEasy := e } } := by
  simp only [View.cancel]
  split
  · exact ⟨(V.slots j).requests, (V.slots j).conn.curlEasy, rfl⟩
  · by_cases hj : j = i
    · subst hj
      exact ⟨_, none, View.set_slots_self _ _⟩
    · exact ⟨_, (V.slots j).conn.curlEasy, View.set_slots_of_ne _ _ hj⟩

/-- What `cleanup_connection` leaves of the slots: the freed one is unused, and of the others only
the requests may differ. -/
theorem View.cleanup_slots (i j : ConnId) : ∃ reqs e,
    (V.cleanup i).slots j =
      if j = i then
        { V.slots i with
          conn := (V.slots i).conn.reset
          gen := (V.slots i).gen + 1
          requests := reqs }
      else
        { V.slots j with
          requests := reqs
          conn := { (V.slots j).conn with curlEasy := e } } := by
  let U := if V.cfg.mode = .curlMulti then V.cancel i else V
  have hU : ∃ reqs e, U.slots j = { V.slots j with
      requests := reqs
      conn := { (V.slots j).conn with curlEasy := e } } := by
    simp only [U]
    split
    · exact View.cancel_slots i j
    · exact ⟨(V.slots j).requests, (V.slots j).conn.curlEasy, rfl⟩
  obtain ⟨reqs, e, hj⟩ := hU
  refine ⟨reqs, e, ?_⟩
  change ((U.unmark i).free i).slots j = _
  by_cases hji : j = i
  · subst hji
    rw [if_pos rfl]
    simp [View.free, View.unmark, View.setConn, View.set, View.pushFree, hj, Connection.reset]
  · rw [if_neg hji]
    simp [View.free, View.unmark, View.setConn, View.set, View.pushFree, hji, hj]

/-- Freeing a slot with nothing outstanding. -/
theorem View.Sound.cleanup (h : V.Sound) (hv : v'.Idle) : ((V.set i v').cleanup i).Sound := by
  intro j
  obtain ⟨reqs, e, hj⟩ := View.cleanup_slots (V := V.set i v') i j
  rw [hj, View.cleanup_cfg, View.set_cfg]
  by_cases hji : j = i
  · rw [if_pos hji, View.set_slots_self]
    exact .idle ⟨hv.ops, hv.comps, hv.queued, hv.done⟩
  · rw [if_neg hji, View.set_slots_of_ne _ _ hji]
    exact (h j).steady ⟨⟨.inl rfl, rfl, rfl, rfl, rfl, rfl, rfl⟩, rfl, rfl, rfl, rfl, rfl⟩

/-- A handler that gives up, in a clean run. -/
theorem View.Sound.giveUp (h : V.Sound) (hg : GiveUp V i v' V') (hc : V'.Clean) (hv : v'.Idle) :
    V'.Sound := by
  rw [hg.of_clean hc]
  exact h.cleanup hv

/-! ## Entries and completions come and go -/

theorem Slot.Holds.take {ops : List Sqe} {comps : List Cqe} {queued done : Nat} {cqe : Cqe}
    (h : v.Holds ops (cqe :: comps) queued done) (c' : Connection) :
    Slot.Holds { v with conn := c', comps := comps } ops comps queued done :=
  ⟨h.ops, rfl, h.queued, h.done⟩

/-- A slot whose completion a handler has taken. -/
theorem Slot.Sound.idle_of_comps (h : v.Sound cfg i) {cqe : Cqe} (hc : v.comps = cqe :: rest)
    (c' : Connection) : Slot.Idle { v with conn := c', comps := rest } := by
  obtain ⟨hv, rfl⟩ := h.of_comps hc
  exact hv.take c'

theorem Slot.Sound.idle_of_received (h : v.Sound cfg i) (hv : v.Received rest) (c' : Connection) :
    Slot.Idle { v with conn := c', comps := rest } := by
  obtain ⟨-, cqe, hc, -⟩ := hv
  exact h.idle_of_comps hc c'

theorem Slot.Sound.idle_of_written (h : v.Sound cfg i) (hv : v.Written rest) (c' : Connection) :
    Slot.Idle { v with conn := c', comps := rest } := by
  obtain ⟨-, cqe, hc, -⟩ := hv
  exact h.idle_of_comps hc c'

/-- A write is queued with its timeout. -/
theorem Slot.Idle.pair {buf : Buf} {len : Nat} (h : v.Idle) (hw : v.conn.Writes cfg.mode buf len) :
    (v.pair cfg i buf len).Sound cfg i := by
  refine .writing buf len [v.timeoutSqe cfg i] ⟨?_, h.comps, h.queued, h.done⟩ (.inr rfl) hw
  change v.ops ++ [v.writeSqe i buf len] ++ [v.timeoutSqe cfg i] = _
  rw [h.ops]
  rfl

/-- A write of a connection that has no write buffer. -/
theorem Connection.Writes.direct {mode : Mode} {buf : Buf} {len : Nat} (hm : mode ≠ .curlMulti)
    (hs : c.state = .streaming ∨ c.state = .closing) (hb : buf.Owned c) :
    c.Writes mode buf len := by
  refine ⟨?_, hb, fun h => absurd h hm⟩
  rcases hs with hs | hs <;> simp [hs]

/-- A write of the write buffer is queued. -/
theorem Slot.Idle.async {ts : List Sqe} (h : v.Idle) (hs : v.conn.state ≠ .unused)
    (hd : wb.hasData = true)
    (hts : ts = [] ∨ ts = [v.timeoutSqe cfg i]) :
    Slot.Sound cfg i
      { v with
        conn := { v.conn with asyncWriteBuf := some (wb.setPending true) }
        ops := v.ops ++ [v.writeSqe i (.block wb.buffer wb.tail) wb.size] ++ ts } := by
  have htail := WriteBuffer.hasData_iff.mp hd
  refine .writing (.block wb.buffer wb.tail) wb.size ts ⟨?_, h.comps, h.queued, h.done⟩ hts
    ⟨hs, .inr rfl, fun _ => ⟨_, rfl, rfl, rfl, ?_⟩⟩
  · change v.ops ++ [v.writeSqe i _ wb.size] ++ ts = _
    rw [h.ops]
    rfl
  · change wb.tail + (wb.head - wb.tail) ≤ wb.head
    omega

/-! ## Appending -/

/-- **An append under a write in flight** leaves the bytes of the write where they are. -/
theorem WriteBuffer.append_inFlight {data : List UInt8} {block : Option Block}
    {r : WriteBuffer.Appended} (ha : wb.append data block = (r, wb')) (hp : wb.writePending = true) :
    wb'.tail = wb.tail ∧ wb.bytes <+: wb'.bytes := by
  have hroom : ∀ {len r₁ wb₁}, wb.makeRoom len block = (r₁, wb₁) →
      wb₁.tail = wb.tail ∧ wb₁.bytes = wb.bytes := by
    intro len r₁ wb₁ hm
    simp only [WriteBuffer.makeRoom, hp, if_true] at hm
    split at hm
    · obtain ⟨hb, ht, -, -⟩ := WriteBuffer.grow_cases hm
      exact ⟨ht, hb⟩
    · cases hm
      exact ⟨rfl, rfl⟩
  simp only [WriteBuffer.append] at ha
  split at ha
  · cases ha
    exact ⟨rfl, List.prefix_refl _⟩
  · cases hm : wb.makeRoom data.length block with
    | mk r₁ wb₁ =>
      obtain ⟨ht, hb⟩ := hroom hm
      rw [hm] at ha
      cases r₁ <;> cases ha
      · exact ⟨ht, hb ▸ List.prefix_append ..⟩
      · exact ⟨ht, hb ▸ List.prefix_refl _⟩
      · exact ⟨ht, hb ▸ List.prefix_refl _⟩

/-- A buffer whose write in flight reads it, before and after an append that does not move it. -/
theorem Connection.Writes.appended {mode : Mode} {buf : Buf} {len : Nat} {data : List UInt8}
    {block : Option Block} {r : WriteBuffer.Appended} (h : c.Writes mode buf len)
    (hm : mode = .curlMulti) (hwb : c.asyncWriteBuf = some wb)
    (ha : wb.append data block = (r, wb')) (hkeep : wb.writePending = true → wb'.buffer = wb.buffer) :
    Connection.Writes { c with asyncWriteBuf := some wb' } mode buf len := by
  obtain ⟨wb₁, hwb₁, hp, rfl, hlen⟩ := h.region hm
  obtain rfl := Option.some.inj (hwb.symm.trans hwb₁)
  obtain ⟨ht, hb⟩ := WriteBuffer.append_inFlight ha hp
  have hp' := (WriteBuffer.append_pending ha).trans hp
  refine ⟨h.used, .inr (by rw [← hkeep hp]; rfl), fun _ => ⟨wb', rfl, hp', ?_, ?_⟩⟩
  · rw [hkeep hp, ht]
  · rw [ht]
    exact hlen.trans hb.length_le

/-- Appending to a write buffer, in a clean run. -/
theorem View.Sound.appended {data : List UInt8} {block : Option Block} {r : WriteBuffer.Appended}
    (h : V.Sound) (hb : V.Base) (hwb : (V.slots i).conn.asyncWriteBuf = some wb)
    (ha : wb.append data block = (r, wb')) (hc : (V.appended i wb wb').Clean) :
    (V.appended i wb wb').Sound := by
  have hkeep : wb.writePending = true → wb'.buffer = wb.buffer := by
    intro hp
    by_contra hne
    have hmem : Event.moved i ∈ (V.appended i wb wb').trace := by
      simp [View.appended, View.noteMoved, hp, hne]
    cases hc _ hmem
  obtain ⟨hm, hstate⟩ := (hb.slots i).buffer (by rw [hwb]; rfl)
  have hset : (V.setConn i { (V.slots i).conn with asyncWriteBuf := some wb' }).Sound := by
    refine View.Sound.set h ?_
    have hwaits : (V.slots i).conn.Waits V.cfg.mode →
        Connection.Waits { (V.slots i).conn with asyncWriteBuf := some wb' } V.cfg.mode := by
      rintro ⟨hu, hpend⟩
      obtain ⟨wb₁, hwb₁, hp⟩ := hpend hm
      obtain rfl := Option.some.inj (hwb.symm.trans hwb₁)
      exact ⟨hu, fun _ => ⟨wb', rfl, (WriteBuffer.append_pending ha).trans hp⟩⟩
    cases h i with
    | idle hv => exact .idle ⟨hv.ops, hv.comps, hv.queued, hv.done⟩
    | receiving _ hs | received _ _ _ _ hs => rcases hstate with h' | h' | h' <;> simp [hs] at h'
    | writing buf len ts hv hts hw =>
      exact .writing buf len ts ⟨hv.ops, hv.comps, hv.queued, hv.done⟩ hts
        (hw.appended hm hwb ha hkeep)
    | written cqe hv hop hg hw =>
      exact .written cqe ⟨hv.ops, hv.comps, hv.queued, hv.done⟩ hop hg (hwaits hw)
    | queued _ hm' | done _ hm' => rw [hm] at hm'; cases hm'
  exact hset.steady rfl fun _ => .refl _

/-! ## The effects keep the invariant -/

theorem View.Sound.effect (h : V.Sound) (hb : V.Base) (he : Effect V V') (hc : V'.Clean) :
    V'.Sound := by
  cases he with
  | went | parsed => exact h.steady rfl fun _ => .refl _
  | @accepted i b fd hf =>
    have hidle := (h i).of_unused (hb.held_popFree hf).2
    have hpop : (V.popFree i).Sound := h.steady rfl fun _ => .refl _
    refine hpop.set (.receiving ⟨?_, hidle.comps, hidle.queued, hidle.done⟩ rfl rfl)
    change (V.slots i).ops ++ [_] = _
    rw [hidle.ops]
    rfl
  | @acceptRefused i b fd hf =>
    have hidle := (h i).of_unused (hb.held_popFree hf).2
    have hpop : (V.popFree i).Sound := h.steady rfl fun _ => .refl _
    exact hpop.cleanup ⟨hidle.ops, hidle.comps, hidle.queued, hidle.done⟩
  | @ignored i cqe rest hcomps hi =>
    exact h.set (.idle ((h i).idle_of_comps hcomps (V.slots i).conn))
  | recvGaveUp hv hg hk => exact h.giveUp hg hc ((h _).idle_of_received hv _)
  | @curlStarted rest c' req hm hv hk hs he hreq hh hf =>
    have hset := h.set (i := req.conn) (.idle ((h req.conn).idle_of_received hv c'))
    refine View.Sound.requests hset rfl fun j => ?_
    by_cases hj : j = req.conn
    · subst hj
      exact ⟨(V.slots req.conn).requests ++ [req], by simp [View.addRequest, View.set]⟩
    · exact ⟨(V.slots j).requests, by simp [View.addRequest, View.set, hj]⟩
  | @poolQueued i rest c' hm hv hk he hs =>
    have hidle := (h i).idle_of_received hv c'
    have hq : (V.slots i).queued = 0 := hidle.queued
    refine h.set (.queued ⟨hidle.ops, hidle.comps, ?_, hidle.done⟩ hm ?_)
    · simp [hq]
    · simp [hs]
  | @streamStarted i rest c' len hm hv hk he hs =>
    exact h.set (((h i).idle_of_received hv c').pair
      (.direct (by rw [hm]; decide) (.inl hs) trivial))
  | written n bytesSent hv hwb hd => exact h.set (.idle ((h _).idle_of_written hv _))
  | writtenGaveUp hv hg hk he => exact h.giveUp hg hc ((h _).idle_of_written hv _)
  | @nextQueued i rest c' buf len hv hwb hk he hs hbuf =>
    have hm : V.cfg.mode ≠ .curlMulti := by
      intro hm
      obtain ⟨wb, hwb', -⟩ := ((h i).of_written hv).pending hm
      rw [hwb] at hwb'
      cases hwb'
    refine h.set (((h i).idle_of_written hv c').pair (.direct hm ?_ hbuf))
    exact hs.elim .inr fun hs => .inl hs.2
  | @asyncQueued i wb ts hwb hd hp hts =>
    have hidle := (h i).of_buffer (hb.slots i) hwb hp
    have hs := ((hb.slots i).buffer (by rw [hwb]; rfl)).2
    refine h.set (hidle.async ?_ hd hts)
    rcases hs with hs | hs | hs <;> simp [hs]
  | asyncGaveUp hwb hd hp hg => exact h.giveUp hg hc ((h _).of_buffer (hb.slots _) hwb hp)
  | @fetchedIgnored i hd =>
    obtain ⟨hv, -⟩ := (h i).of_done hd
    exact h.set (.idle ⟨hv.ops, hv.comps, hv.queued, by simp [hv.done]⟩)
  | @fetchedGaveUp _ i c' hd hs hg hk he =>
    obtain ⟨hv, -⟩ := (h i).of_done hd
    exact h.giveUp hg hc ⟨hv.ops, hv.comps, hv.queued, by simp [hv.done]⟩
  | @fetchedStreaming i c' len hd hs hk he hs' =>
    obtain ⟨hv, hm, -⟩ := (h i).of_done hd
    have hidle : Slot.Idle { V.slots i with conn := c', done := (V.slots i).done - 1 } :=
      ⟨hv.ops, hv.comps, hv.queued, by simp [hv.done]⟩
    exact h.set (hidle.pair (.direct (by rw [hm]; decide) (.inl hs') trivial))
  | @bufferMade i b hreq hwb =>
    have hidle := (h i).of_request (hb.slots i) hreq hwb
    exact h.set (.idle ⟨hidle.ops, hidle.comps, hidle.queued, hidle.done⟩)
  | appendFailed hwb ha hr =>
    obtain ⟨data, block, -, ha⟩ := ha
    exact h.appended hb hwb ha hc
  | dataAppended hreq hh hwb ha =>
    obtain ⟨data, block, -, ha⟩ := ha
    exact (h.appended hb hwb ha hc).mark _
  | @headersAppended i req wb wb' hreq hwb ha =>
    obtain ⟨data, block, -, ha⟩ := ha
    have hmarked := (h.appended hb hwb ha hc).mark i
    have hsent : (((V.appended i wb wb').mark i).updateRequest req.easy
        fun req => { req with headersSent := true }).Sound :=
      hmarked.requests rfl fun j => ⟨_, rfl⟩
    refine hsent.setConn ⟨.inr ⟨?_, by simp⟩, rfl, rfl, rfl, rfl, rfl, rfl⟩
    have hs := ((hb.slots i).buffer (by rw [hwb]; rfl)).2
    have hstate : (((V.appended i wb wb').mark i).slots i).conn.state = (V.slots i).conn.state := by
      simp [View.appended]
    change (((V.appended i wb wb').mark i).slots i).conn.state ≠ _
    rw [hstate]
    rcases hs with hs | hs | hs <;> simp [hs]
  | lineChanged line => exact h.setConn ⟨.inl rfl, rfl, rfl, rfl, rfl, rfl, rfl⟩
  | requestChanged easy hf => exact h.requests rfl fun j => ⟨_, rfl⟩

theorem View.Sound.effects (h : V.Sound) (hb : V.Base) (he : Effects V V') (hc : V'.Clean) :
    V'.Sound := by
  induction he with
  | refl => exact h
  | tail hes he ih => exact (ih (hc.of_start he.trace)).effect (hb.effects hes) he hc

/-! ## All steps keep the invariant -/

/-- The completion of an entry of a slot, where it names the slot. -/
theorem filter_cqe {r : Sqe} {res : Int} (hi : r.connId = i)
    (hop : r.request.op = .recvFd ∨ r.request.op = .write) :
    [r.cqe res false].filter (fun c => c.slot? = some i) = [r.cqe res false] := by
  rcases hop with hop | hop <;> simp [Cqe.slot?, Sqe.cqe, hop, hi]

theorem filter_cqe_timeout {r : Sqe} {res : Int} (hop : r.request.op = .timeout) :
    [r.cqe res false].filter (fun c => c.slot? = some i) = [] := by
  simp [Cqe.slot?, Sqe.cqe, hop]

@[simp] theorem Slot.recvSqe_op (v : Slot) (i : ConnId) : (v.recvSqe i).request.op = .recvFd := rfl

@[simp] theorem Slot.writeSqe_op (v : Slot) (i : ConnId) (buf : Buf) (len : Nat) :
    (v.writeSqe i buf len).request.op = .write := rfl

@[simp] theorem Slot.timeoutSqe_op (v : Slot) (cfg : Config) (i : ConnId) :
    (v.timeoutSqe cfg i).request.op = .timeout := rfl

/-- An entry of a slot in a certain situation is the one the slot has outstanding. -/
theorem Slot.Sound.of_op (h : v.Sound cfg i) {r : Sqe} (hr : r ∈ v.ops) :
    (r = v.recvSqe i ∧ v.Holds [v.recvSqe i] [] 0 0 ∧ v.conn.state = .receivingFd) ∨
    (∃ buf len ts, (r = v.writeSqe i buf len ∨ ts = [v.timeoutSqe cfg i] ∧ r = v.timeoutSqe cfg i) ∧
      v.Holds (v.writeSqe i buf len :: ts) [] 0 0 ∧ (ts = [] ∨ ts = [v.timeoutSqe cfg i]) ∧
      v.conn.Writes cfg.mode buf len) := by
  cases h with
  | idle h | received _ h | written _ h | queued h | done h => rw [h.ops] at hr; cases hr
  | receiving h hs =>
    rw [h.ops] at hr
    exact .inl ⟨List.mem_singleton.mp hr, h, hs⟩
  | writing buf len ts h hts hw =>
    rw [h.ops] at hr
    refine .inr ⟨buf, len, ts, ?_, h, hts, hw⟩
    rcases List.mem_cons.mp hr with hr | hr
    · exact .inl hr
    · rcases hts with rfl | rfl
      · cases hr
      · exact .inr ⟨rfl, List.mem_singleton.mp hr⟩

/-- A receive that is done. -/
theorem Slot.Sound.finish_recv (h : v.Sound cfg i) {r : Sqe} {res : Int} (hr : r ∈ v.ops)
    (hop : r.request.op = .recvFd) {c' : Connection} (hc : c'.state = v.conn.state) :
    (Slot.finish { v with conn := c' } i r res).Sound cfg i := by
  rcases h.of_op hr with ⟨rfl, hv, hs⟩ | ⟨buf, len, ts, rfl | ⟨-, rfl⟩, -⟩
  · refine .received ((v.recvSqe i).cqe res false) ⟨?_, ?_, hv.queued, hv.done⟩ rfl rfl
      (hc.trans hs)
    · change v.ops.erase _ = _
      rw [hv.ops, List.erase_cons_head]
    · change v.comps ++ _ = _
      rw [hv.comps, filter_cqe (i := i) rfl (.inl hop)]
      rfl
  · cases hop
  · cases hop

/-- The timeout of a write that is done by itself. -/
theorem Slot.Sound.finish_timeout (h : v.Sound cfg i) {r : Sqe} {res : Int} (hr : r ∈ v.ops)
    (hop : r.request.op = .timeout) : (v.finish i r res).Sound cfg i := by
  rcases h.of_op hr with ⟨rfl, -⟩ | ⟨buf, len, ts, rfl | ⟨rfl, rfl⟩, hv, -, hw⟩
  · cases hop
  · cases hop
  · refine .writing buf len [] ⟨?_, ?_, hv.queued, hv.done⟩ (.inl rfl) hw
    · change v.ops.erase _ = _
      have hne : v.writeSqe i buf len ≠ v.timeoutSqe cfg i := by
        simp [Slot.writeSqe, Slot.timeoutSqe]
      rw [hv.ops, List.erase_cons_tail (by simpa using hne), List.erase_cons_head]
      rfl
    · change v.comps ++ _ = _
      rw [hv.comps, filter_cqe_timeout hop]
      rfl

/-- A write that is done takes its timeout with it. -/
theorem Slot.Sound.finishWrite (h : v.Sound cfg i) {w : Sqe} {res : Int} (hr : w ∈ v.ops)
    (hop : w.request.op = .write) : (v.finishWrite w res).Sound cfg i := by
  rcases h.of_op hr with ⟨rfl, -⟩ | ⟨buf, len, ts, rfl | ⟨-, rfl⟩, hv, hts, hw⟩
  · cases hop
  · refine .written ((v.writeSqe i buf len).cqe res false) ⟨?_, ?_, hv.queued, hv.done⟩ rfl rfl
      hw.waits
    · change (v.ops.erase _).filter _ = _
      rw [hv.ops, List.erase_cons_head]
      rcases hts with rfl | rfl
      · rfl
      · simp [Sqe.isTimeoutOf, Slot.timeoutSqe, Slot.writeSqe]
    · change v.comps ++ _ = _
      rw [hv.comps]
      rfl
  · cases hop

theorem View.Sound.outside (h : V.Sound) (ho : Outside V V') : V'.Sound := by
  cases ho with
  | same => exact h
  | @received i r fd base len m hr hi hreq =>
    have hnote : (V.note (.received i m)).Sound := h.steady rfl fun _ => .refl _
    exact hnote.set ((h i).finish_recv hr (by simp [hreq, Request.op]) rfl)
  | @finished i r res hr hi hop =>
    rcases hop with ⟨hop, -⟩ | hop
    · exact h.set ((h i).finish_recv hr hop (Eq.refl (V.slots i).conn.state))
    · exact h.set ((h i).finish_timeout hr hop)
  | @wrote i w res hr hop => exact h.set ((h i).finishWrite hr hop)
  | @processed i c' hq hk he hs =>
    obtain ⟨hv, hm, -⟩ := (h i).of_queued hq
    refine h.set (.done ⟨hv.ops, hv.comps, by simp [hv.queued], by simp [hv.done]⟩ hm ?_)
    rcases hs with hs | hs | hs <;> simp [hs]

theorem View.Sound.ended {req : CurlRequest} {good : Bool} (h : V.Sound) (hb : V.Base)
    (hreq : req ∈ (V.slots req.conn).requests)
    (he : Ended (V.removeRequest req.easy) req.conn good V') (hc : V'.Clean) : V'.Sound := by
  let U := V.removeRequest req.easy
  have hU : U.Sound := h.requests rfl fun j => ⟨_, rfl⟩
  have hne : (U.slots req.conn).conn.state ≠ .receivingFd := by
    have := ((hb.slots req.conn).state_of_request (List.ne_nil_of_mem hreq)).2
    change (V.slots req.conn).conn.state ≠ _
    rcases this with hs | hs <;> simp [hs]
  have hclose : ∀ {W : View}, W.Sound → (W.slots req.conn).conn.state ≠ .receivingFd →
      (W.close req.conn).Sound :=
    fun hW hs => hW.setConn ⟨.inr ⟨hs, by simp⟩, rfl, rfl, rfl, rfl, rfl, rfl⟩
  have happ : ∀ {wb wb' block r}, (U.slots req.conn).conn.asyncWriteBuf = some wb →
      wb.append sseDone block = (r, wb') → (V.appended req.conn wb wb').Clean →
      (U.appended req.conn wb wb').Sound := by
    intro wb wb' block r hwb ha hc
    have hV : (V.appended req.conn wb wb').Sound := h.appended hb hwb ha hc
    refine hV.requests rfl fun j => ?_
    by_cases hj : j = req.conn
    · subst hj
      exact ⟨_, by simp [View.appended, View.setConn, U, View.removeRequest]; rfl⟩
    · exact ⟨_, by simp [View.appended, View.setConn, U, View.removeRequest, View.set, hj]; rfl⟩
  cases he with
  | silent _ => exact hclose hU hne
  | @refused wb wb' block r hwb ha hr =>
    refine hclose (happ hwb ha hc) ?_
    simpa [View.appended, U] using hne
  | @marked wb wb' block hwb ha =>
    refine hclose ((happ hwb ha hc).mark _) ?_
    simpa [View.appended, U] using hne

theorem View.Sound.flushed {prev : Option ConnId} {last : Bool} (h : V.Sound) (hb : V.Base)
    (hf : Flushed V i prev last V') (hc : V'.Clean) : V'.Sound := by
  have hgoto : ∀ {W : View} (pc : Pc), W.Sound → (W.goto pc).Sound :=
    fun _ hW => hW.steady rfl fun _ => .refl _
  cases hf with
  | passed _ => exact hgoto _ h
  | queued hwb hd hp he _ => exact hgoto _ (h.effects hb he hc)
  | dropped _ => exact hgoto _ (h.unlink _ _ _)
  | @gaveUp W _ wb hwb hd hp hg hV =>
    have hidle := (h i).of_buffer (hb.slots i) hwb hp
    have hWc : W.Clean := by
      rcases hV with rfl | rfl
      · exact hc.of_start (List.prefix_append W.trace _)
      · exact hc.of_start (List.prefix_append W.trace _)
    have hW : (W.note (.readFreed i)).Sound :=
      (h.giveUp hg hWc hidle).steady rfl fun _ => .refl _
    rcases hV with rfl | rfl
    · exact hgoto _ hW
    · exact hgoto _ (hW.unlink _ _ _)

/-- **Every step of a clean run keeps the invariant.** The weaker invariant of all runs is used
along with it, for what does not depend on the run being clean. -/
theorem View.Sound.stepped {s : Daemon} {a : Label} (h : s.view.Sound) (hb : s.view.Base)
    (hs : Stepped s a V') (hc : V'.Clean) : V'.Sound := by
  cases hs with
  | outside ho => exact h.outside ho
  | effects _ he => exact h.effects hb he hc
  | goto | flushing => exact h.steady rfl fun _ => .refl _
  | flushed _ hf => exact h.flushed hb hf hc
  | ended _ hreq _ he => exact h.ended hb (mem_of_request? hreq).1 he hc

theorem sound_boot (cfg : Config) : (Daemon.boot cfg).view.Sound := by
  intro i
  rw [view_slots, boot_slot]
  exact .idle ⟨rfl, rfl, rfl, rfl⟩

/-- A step that takes neither branch. The trace of the state it leads to tells, for both branches
leave a note there, which the code does not read. -/
def Harmless (s : Daemon) (a : Label) : Prop := ∀ s', step s a = some s' → s'.view.Clean

/-- **The invariant holds in every state of a clean run**, by the rule of the invariant; that the
run is clean is a condition on its steps and not on the states it reaches. -/
theorem sound_reachable {cfg : Config} {s : Daemon} (h : (system cfg).ReachableIf Harmless s) :
    s.view.Sound := by
  refine h.invariant_of (J := fun s => s.view.Base) (I := fun s => s.view.Sound)
    (fun s hs => base_reachable (hs.mono fun _ _ _ => trivial)) (fun s hs => ?_)
    fun s a s' hb hs hc hstep => hs.stepped hb (stepped hstep) (hc s' hstep)
  obtain ⟨k, rfl⟩ := hs
  rw [view_submit]
  exact sound_boot cfg

end SocketHandoff.Uring
