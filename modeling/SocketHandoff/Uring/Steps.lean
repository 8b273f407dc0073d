import SocketHandoff.Uring.Callbacks

/-!
# The steps of the daemon

Every step of the system changes the view in one of a few ways: it is a move of the kernel or of a
worker, a chain of effects of a handler, a message of libcurl, or a round of the loop over the
dirty list.
-/

namespace SocketHandoff.Uring

variable {V : View} {i : ConnId} {s s' : Daemon} {r : Sqe}

/-! ## The kernel and the workers -/

/-- An entry of a slot is done. -/
def Slot.finish (v : Slot) (i : ConnId) (r : Sqe) (res : Int) : Slot :=
  { v with
    ops := v.ops.erase r
    comps := v.comps ++ [r.cqe res false].filter fun c => c.slot? = some i }

/-- A write of a slot is done, and its timeouts with it. -/
def Slot.finishWrite (v : Slot) (w : Sqe) (res : Int) : Slot :=
  { v with
    ops := (v.ops.erase w).filter fun t => !w.isTimeoutOf t
    comps := v.comps ++ [w.cqe res false] }

/-- What happens outside the main loop. -/
inductive Outside (V : View) : View → Prop
  | same : Outside V V
  /-- a message arrives -/
  | received {i : ConnId} {r : Sqe} {fd : Option Fd} {iovBase : Option Block} {iovLen : Nat}
      (m : Message) : r ∈ (V.slots i).ops → r.connId = i →
      r.request = .recvmsg fd iovBase iovLen →
      Outside V ((V.note (.received i m)).set i
        (let got := m.recv iovLen (controlFdRoom (V.slots i).conn.recv.controlLen)
        Slot.finish { V.slots i with conn := (V.slots i).conn.receive got } i r got.data.length))
  /-- a receive fails, or a timeout ends -/
  | finished {i : ConnId} {r : Sqe} {res : Int} : r ∈ (V.slots i).ops → r.connId = i →
      (r.request.op = .recvFd ∧ res < 0 ∨ r.request.op = .timeout) →
      Outside V (V.set i ((V.slots i).finish i r res))
  | wrote {i : ConnId} {w : Sqe} {res : Int} : w ∈ (V.slots i).ops → w.request.op = .write →
      Outside V (V.set i ((V.slots i).finishWrite w res))
  /-- a worker is done with a connection -/
  | processed {i : ConnId} {c' : Connection} : 0 < (V.slots i).queued →
      (V.slots i).conn.KeptOn c' → c'.curlEasy = (V.slots i).conn.curlEasy →
      (c'.state = .streaming ∨ c'.state = .streamed ∨ c'.state = .closing) →
      Outside V (V.set i
        { V.slots i with
          conn := c'
          queued := (V.slots i).queued - 1
          done := (V.slots i).done + 1 })

theorem Sqe.connId_of_slot? (h : r.slot? = some i) : r.connId = i := by
  simp only [Sqe.slot?] at h
  split at h <;> simp_all

/-- The completion of an entry for one slot is for no other. -/
theorem Sqe.slot?_cqe {res : Int} {more : Bool} {j : ConnId} (h : r.slot? = some i)
    (hj : (r.cqe res more).slot? = some j) : j = i := by
  have hid := Sqe.connId_of_slot? h
  simp only [Cqe.slot?, Sqe.cqe] at hj
  split at hj <;> simp_all

theorem Sqe.slot?_cqe_none {res : Int} {more : Bool} (h : r.slot? = none) :
    (r.cqe res more).slot? = none := by
  cases hr : r.request <;> simp_all [Sqe.slot?, Sqe.cqe, Cqe.slot?, Request.op]

theorem mem_slot_ops (h : r ∈ s.inflight) (hi : r.slot? = some i) : r ∈ (s.slot i).ops := by
  simp [Daemon.slot, h, hi]

/-- What is left of the entries when one in flight is done. -/
theorem filter_erase_append {P : Sqe → Bool} (h : r ∈ s.inflight) :
    (s.inflight.erase r ++ s.sq).filter P = ((s.inflight ++ s.sq).filter P).erase r := by
  rw [← List.erase_append_left _ h, List.erase_filter]

theorem view_finish {res : Int} (h : r ∈ s.inflight) (hi : r.slot? = some i) :
    (s.finish r res).view = s.view.set i ((s.slot i).finish i r res) := by
  simp only [Daemon.view, View.set, Daemon.finish, View.mk.injEq, true_and, and_true]
  funext j
  have hops : ((s.inflight.erase r ++ s.sq).filter fun t => t.slot? = some j) =
      (s.slot j).ops.erase r := filter_erase_append h
  by_cases hj : j = i
  · subst hj
    simp [Daemon.slot, Slot.finish, hops]
  · have hr : r ∉ (s.slot j).ops := by
      simp only [Daemon.slot, List.mem_filter, hi, decide_eq_true_eq, Option.some.injEq, not_and]
      exact fun _ e => hj e.symm
    have hc : ¬ (r.cqe res false).slot? = some j := fun e => hj (Sqe.slot?_cqe hi e)
    rw [List.erase_of_not_mem hr] at hops
    simp [Daemon.slot, hops, hj, hc]

theorem view_finish_none {res : Int} (h : r ∈ s.inflight) (hi : r.slot? = none) :
    (s.finish r res).view = s.view := by
  simp only [Daemon.view, Daemon.finish, View.mk.injEq, true_and, and_true]
  funext j
  have hops : ((s.inflight.erase r ++ s.sq).filter fun t => t.slot? = some j) =
      (s.slot j).ops.erase r := filter_erase_append h
  have hr : r ∉ (s.slot j).ops := by
    simp [Daemon.slot, hi]
  rw [List.erase_of_not_mem hr] at hops
  simp [Daemon.slot, hops, Sqe.slot?_cqe_none hi]

/-- A timeout belongs to the slot of its write. -/
theorem slot?_of_isTimeoutOf {w t : Sqe} (h : w.isTimeoutOf t = true) :
    t.slot? = some w.connId ∧ t.request.op = .timeout := by
  simp only [Sqe.isTimeoutOf] at h
  split at h
  · rename_i ms ht
    simp only [Bool.decide_and, Bool.and_eq_true, decide_eq_true_eq] at h
    simp [Sqe.slot?, ht, h.1, Request.op]
  · cases h

theorem view_finishWrite {w : Sqe} {res : Int} (h : w ∈ s.inflight) (hi : w.slot? = some i)
    (hop : w.request.op = .write) (hsq : ¬ s.sq.any w.isTimeoutOf = true) :
    (s.finishWrite w res).view = s.view.set i ((s.slot i).finishWrite w res) := by
  simp only [Daemon.view, View.set, Daemon.finishWrite, View.mk.injEq, true_and, and_true]
  funext j
  have hid := Sqe.connId_of_slot? hi
  have hsq' : s.sq.filter (fun t => !w.isTimeoutOf t) = s.sq := by
    refine List.filter_eq_self.mpr fun t ht => ?_
    simpa using fun e => hsq (List.any_eq_true.mpr ⟨t, ht, e⟩)
  -- the timeouts that leave with the write are in flight, and their completions are for no slot
  have hops : (((s.inflight.erase w).filter fun t => !w.isTimeoutOf t) ++ s.sq).filter
      (fun t => t.slot? = some j) =
      ((s.slot j).ops.erase w).filter fun t => !w.isTimeoutOf t := by
    conv_lhs => rw [← hsq', ← List.filter_append, List.filter_comm, filter_erase_append h]
    rfl
  have hcomps : (w.cqe res false ::
      (s.inflight.filter w.isTimeoutOf).map fun t => t.cqe (-125) false).filter
        (fun c => c.slot? = some j) = if j = i then [w.cqe res false] else [] := by
    have hnil : ((s.inflight.filter w.isTimeoutOf).map fun t => t.cqe (-125) false).filter
        (fun c => c.slot? = some j) = [] := by
      refine List.filter_eq_nil_iff.mpr fun c hc => ?_
      obtain ⟨t, ht, rfl⟩ := List.mem_map.mp hc
      have hop := (slot?_of_isTimeoutOf (List.mem_filter.mp ht).2).2
      simp [Cqe.slot?, Sqe.cqe, hop]
    have hw : (w.cqe res false).slot? = some i := by simp [Cqe.slot?, Sqe.cqe, hop, hid]
    rw [List.filter_cons, hnil, hw]
    by_cases hj : j = i
    · simp [hj]
    · simp [hj, Ne.symm hj]
  by_cases hj : j = i
  · subst hj
    rw [if_pos rfl] at hcomps
    simp only [Daemon.slot, Slot.finishWrite, List.filter_append, hcomps, hops,
      Function.update_self]
  · have hw : w ∉ (s.slot j).ops := by
      simp only [Daemon.slot, List.mem_filter, hi, decide_eq_true_eq, Option.some.injEq, not_and]
      exact fun _ e => hj e.symm
    have hkeep : ((s.slot j).ops.filter fun t => !w.isTimeoutOf t) = (s.slot j).ops := by
      refine List.filter_eq_self.mpr fun t ht => ?_
      have ht' : t.slot? = some j := by simpa [Daemon.slot] using (List.mem_filter.mp ht).2
      rw [Bool.not_eq_true', Bool.eq_false_iff]
      intro e
      have := (slot?_of_isTimeoutOf e).1
      rw [ht', hid] at this
      exact hj (Option.some.inj this)
    rw [if_neg hj] at hcomps
    rw [List.erase_of_not_mem hw, hkeep] at hops
    rw [Function.update_of_ne hj]
    simp only [Daemon.slot, List.filter_append, hcomps, hops, List.append_nil]

/-- A completion for no slot is not seen. -/
theorem view_post_none {c : Cqe} (hc : c.slot? = none) :
    { s with cq := s.cq ++ [c] }.view = s.view := by
  simp [Daemon.view, funext_iff, Daemon.slot, hc]

theorem view_deliver {iovLen : Nat} {m : Message} (h : r ∈ s.inflight) (hi : r.slot? = some i) :
    (s.deliver r iovLen m).view = (s.view.note (.received i m)).set i
      (let got := m.recv iovLen (controlFdRoom (s.slot i).conn.recv.controlLen)
      Slot.finish { s.slot i with conn := (s.slot i).conn.receive got } i r got.data.length) := by
  obtain rfl := Sqe.connId_of_slot? hi
  let got := m.recv iovLen (controlFdRoom (s.connections r.connId).recv.controlLen)
  let c' := (s.connections r.connId).receive got
  have hslot : (s.setConn r.connId c').slot r.connId = { s.slot r.connId with conn := c' } := by
    rw [← view_slots, view_setConn]
    exact View.set_slots_self _ _
  have hview : (s.deliver r iovLen m).view =
      ((s.setConn r.connId c').finish r got.data.length).view.note (.received r.connId m) := rfl
  rw [hview, view_finish (s := s.setConn r.connId c') h hi, view_setConn, hslot, View.setConn,
    View.set_set]
  rfl

/-- **What the kernel can do.** -/
theorem outside_kernel {move : KernelMove} (h : kernelStep s move = some s') :
    Outside s.view s'.view := by
  cases move with
  | read k =>
    obtain rfl := Option.some.inj h
    rw [view_submit]
    exact .same
  | deliver r m =>
    simp only [kernelStep] at h
    split at h
    · rename_i fd base iovLen hr
      obtain ⟨hmem, h⟩ := Option.ite_none_right_eq_some.mp h
      obtain rfl := Option.some.inj h
      have hi : r.slot? = some r.connId := by simp [Sqe.slot?, hr]
      rw [view_deliver hmem hi]
      exact .received m (mem_slot_ops hmem hi) rfl hr
    · cases h
  | complete r res more =>
    obtain ⟨hmem, h⟩ := Option.ite_none_right_eq_some.mp h
    have hnone : r.slot? = none → ∀ t : Daemon, t.view = s.view → t.inflight = s.inflight →
        Outside s.view (t.finish r res).view := by
      intro hi t ht hinflight
      rw [view_finish_none (hinflight ▸ hmem) hi, ht]
      exact .same
    have hpost : r.slot? = none →
        Outside s.view { s with cq := s.cq ++ [r.cqe res true] }.view := by
      intro hi
      rw [view_post_none (Sqe.slot?_cqe_none hi)]
      exact .same
    cases hr : r.request with
    | accept =>
      have hi : r.slot? = none := by simp [Sqe.slot?, hr]
      simp only [Daemon.complete, hr, Option.some.injEq] at h
      split at h
      · exact h ▸ hpost hi
      · exact h ▸ hnone hi s rfl rfl
    | pollAdd fd mask =>
      have hi : r.slot? = none := by simp [Sqe.slot?, hr]
      simp only [Daemon.complete, hr, Option.some.injEq] at h
      split at h
      · exact h ▸ hpost hi
      · exact h ▸ hnone hi s rfl rfl
    | recvmsg fd base len =>
      have hi : r.slot? = some r.connId := by simp [Sqe.slot?, hr]
      simp only [Daemon.complete, hr] at h
      obtain ⟨hres, h⟩ := Option.ite_none_right_eq_some.mp h
      obtain rfl := Option.some.inj h
      rw [view_finish hmem hi]
      exact .finished (mem_slot_ops hmem hi) rfl (.inl ⟨by simp [hr, Request.op], hres⟩)
    | write fd buf len =>
      have hi : r.slot? = some r.connId := by simp [Sqe.slot?, hr]
      simp only [Daemon.complete, hr, Option.ite_none_left_eq_some, not_or] at h
      obtain ⟨⟨-, hsq⟩, h⟩ := h
      obtain rfl := Option.some.inj h
      have hop : r.request.op = .write := by simp [hr, Request.op]
      rw [view_finishWrite hmem hi hop hsq]
      exact .wrote (mem_slot_ops hmem hi) hop
    | linkTimeout ms =>
      have hi : r.slot? = some r.connId := by simp [Sqe.slot?, hr]
      simp only [Daemon.complete, hr, Option.some.injEq] at h
      rw [← h, view_finish hmem hi]
      exact .finished (mem_slot_ops hmem hi) rfl (.inr (by simp [hr, Request.op]))
    | readEventfd fd =>
      have hi : r.slot? = none := by simp [Sqe.slot?, hr]
      simp only [Daemon.complete, hr] at h
      split at h
      · exact Option.some.inj h ▸ hnone hi s rfl rfl
      · simp only [Option.ite_none_left_eq_some, Option.some.injEq] at h
        exact h.2 ▸ hnone hi { s with pool := { s.pool with signals := 0 } } rfl rfl
    | cancelFd fd | timeout ms | timeoutRemove =>
      have hi : r.slot? = none := by simp [Sqe.slot?, hr]
      simp only [Daemon.complete, hr, Option.some.injEq] at h
      exact h ▸ hnone hi s rfl rfl

/-- A change of the pool that keeps what is where. -/
theorem view_setPool {p : Pool} (hq : ∀ j, p.queued j = s.pool.queued j)
    (hd : ∀ j, p.done j = s.pool.done j) : (s.setPool p).view = s.view := by
  simp [Daemon.view, Daemon.setPool, funext_iff, Daemon.slot, hq, hd]

/-- A place in a list, with what is before and behind it. -/
theorem exists_split {α : Type} {l : List α} {k : Nat} {a : α} (h : l[k]? = some a) :
    ∃ p q, l = p ++ a :: q ∧ (∀ b, l.set k b = p ++ b :: q) ∧ l.eraseIdx k = p ++ q := by
  obtain ⟨hk, rfl⟩ := List.getElem?_eq_some_iff.mp h
  refine ⟨l.take k, l.drop (k + 1), ?_, fun b => ?_, List.eraseIdx_eq_take_drop_succ l k⟩
  · rw [List.cons_getElem_drop_succ, List.take_append_drop]
  · rw [List.set_eq_take_append_cons_drop, if_pos hk]

/-- A worker is done with a connection. -/
theorem view_process {c' : Connection} {p q : List (ConnId × Stage)}
    (hl : s.pool.working = p ++ (i, .processing) :: q) :
    ((s.setConn i c').setPool { s.pool with working := p ++ (i, .processed) :: q }).view =
      s.view.set i
        { s.slot i with
          conn := c'
          queued := (s.slot i).queued - 1
          done := (s.slot i).done + 1 } := by
  simp only [Daemon.view, View.set, Daemon.setPool, Daemon.setConn, View.mk.injEq, true_and,
    and_true]
  funext j
  by_cases hj : j = i
  · subst hj
    simp only [Daemon.slot, Pool.queued, Pool.done, hl, Function.update_self, List.count_append,
      List.count_cons, Slot.mk.injEq, true_and]
    simp
    omega
  · have hne : ∀ st, ¬ ((i, st) : ConnId × Stage) = (j, st) := fun st e => hj (Prod.mk.inj e).1.symm
    simp [Daemon.slot, Pool.queued, Pool.done, hl, hj, hne]

/-- **What a worker can do.** -/
theorem outside_worker {move : WorkerMove} (h : workerStep s move = some s') :
    Outside s.view s'.view := by
  cases move with
  | take =>
    simp only [workerStep] at h
    split at h
    · rename_i i rest hq
      obtain ⟨-, h⟩ := Option.ite_none_right_eq_some.mp h
      obtain rfl := Option.some.inj h
      rw [view_setPool]
      · exact .same
      · intro j
        simp only [Pool.queued, hq, List.count_append, List.count_cons, List.count_nil]
        by_cases hj : i = j <;> simp [hj]; omega
      · intro j
        simp [Pool.done]
    · cases h
  | process k result bytesSent =>
    simp only [workerStep] at h
    split at h
    · rename_i i hk
      obtain ⟨p, q, hl, hset, -⟩ := exists_split hk
      rw [hset] at h
      obtain rfl := Option.some.inj h
      have hqueued : 0 < s.pool.queued i := by
        simp only [Pool.queued, hl, List.count_append, List.count_cons_self]
        omega
      rw [view_process hl]
      refine .processed hqueued ⟨rfl, rfl, rfl, rfl⟩ rfl ?_
      simp only [resultState]
      split
      · exact .inl rfl
      · split
        · exact .inr (.inl rfl)
        · exact .inr (.inr rfl)
    · cases h
  | complete k =>
    simp only [workerStep] at h
    split at h
    · rename_i i hk
      obtain ⟨p, q, hl, hset, -⟩ := exists_split hk
      obtain ⟨-, h⟩ := Option.ite_none_right_eq_some.mp h
      rw [hset] at h
      obtain rfl := Option.some.inj h
      rw [view_setPool]
      · exact .same
      · intro j
        simp [Pool.queued, hl]
      · intro j
        simp only [Pool.done, hl, List.count_append, List.count_cons, List.count_nil]
        by_cases hj : i = j <;> simp [hj]; omega
    · cases h
  | signal k =>
    simp only [workerStep] at h
    split at h
    · rename_i i hk
      obtain ⟨p, q, hl, -, herase⟩ := exists_split hk
      rw [herase] at h
      obtain rfl := Option.some.inj h
      rw [view_setPool]
      · exact .same
      · intro j
        simp [Pool.queued, hl]
      · intro j
        simp [Pool.done, hl]
    · cases h

/-! ## All steps -/

/-- What a step with this label does to the view. -/
inductive Stepped (s : Daemon) : Label → View → Prop
  | outside {a : Label} {V' : View} : Outside s.view V' → Stepped s a V'
  | effects {a : Label} {V' : View} : s.pc.Plain → Effects s.view V' → Stepped s a V'
  | goto {a : Label} {pc : Pc} : (∀ conn prev last, pc ≠ .flush conn prev last) →
      Stepped s a (s.view.goto pc)
  /-- the loop over the dirty list begins -/
  | flushing {a : Label} (last : Bool) : Stepped s a (s.view.goto (.flush s.dirty.head none last))
  | flushed {ω : Env} {i : ConnId} {prev : Option ConnId} {last : Bool} {V' : View} :
      s.pc = .flush (some i) prev last → Flushed s.view i prev last V' →
      Stepped s (.flushNext ω) V'
  | ended {ω : Env} {easy : Easy} {req : CurlRequest} {done : Finished} {V' : View} :
      s.pc = .completions → s.curl.request? easy = some req → req.finished = some done →
      Ended (s.view.removeRequest req.easy) req.conn (req.success done && req.headersSent) V' →
      Stepped s (.message easy ω) V'

/-- The request of a handle is one of its slot. -/
theorem mem_of_request? {easy : Easy} {req : CurlRequest} (h : s.curl.request? easy = some req) :
    req ∈ (s.view.slots req.conn).requests ∧ req.easy = easy := by
  have hmem := List.mem_of_find?_eq_some h
  have heasy : req.easy = easy := by simpa using List.find?_some h
  simp [Daemon.slot, hmem, heasy]

theorem Stepped.of_runs {a : Label} {m : Loop Unit} {ω : Env} (hpc : s.pc.Plain)
    (h : Runs ω s.view m fun _ V' => Effects s.view V') : Stepped s a (s.exec m ω).view :=
  .effects hpc h.exec

theorem stepped_curl {kick : Bool} {a : Label} (hpc : s.pc = .curl kick)
    (h : curlStep s kick a = some s') : Stepped s a s'.view := by
  have hplain : s.pc.Plain := by rw [hpc]; trivial
  simp only [curlStep] at h
  split at h
  · rename_i easy chunk ω
    split at h
    · rename_i req hreq
      simp only [Option.ite_none_left_eq_some, Option.some.injEq] at h
      obtain ⟨-, rfl⟩ := h
      exact .of_runs hplain (.curlDeliver (mem_of_request? hreq).1)
    · cases h
  · obtain rfl := Option.some.inj h
    exact .of_runs hplain (.quiet (runCallbacks_quiet _) fun _ => .refl)
  · rename_i easy done
    split at h
    · simp only [Option.ite_none_left_eq_some, Option.some.injEq] at h
      obtain ⟨-, rfl⟩ := h
      have hview := view_updateRequest s easy (f := fun req => { req with finished := some done })
        fun _ => rfl
      rw [hview]
      exact .effects hplain (.single (.requestChanged easy fun _ => ⟨rfl, rfl, rfl⟩))
    · cases h
  · obtain rfl := Option.some.inj h
    refine .goto fun conn prev last => ?_
    split <;> simp
  · cases h

/-- **What a step of the main loop can do.** It is here that the code of the loop is unfolded, and
nowhere else: the invariants are proved over the constructors of `Stepped`. -/
theorem stepped_loop {a : Label} (h : loopStep s a = some s') : Stepped s a s'.view := by
  have hgoto : ∀ {p : Pc}, (∀ conn prev last, p ≠ .flush conn prev last) →
      ∀ {t : Daemon}, t.view = s.view.goto p → Stepped s a t.view :=
    fun hpc _ ht => ht ▸ .goto hpc
  have hend : ∀ ω, (s.exec endIteration ω).view = s.view.goto .wait := fun ω =>
    Runs.exec (R := fun _ V' => V' = s.view.goto .wait) (.endIteration rfl)
  simp only [loopStep] at h
  split at h
  · -- a completion has arrived
    simp only [Option.ite_none_left_eq_some, Option.some.injEq] at h
    obtain ⟨-, rfl⟩ := h
    exact hgoto (p := .events) (by simp) rfl
  · obtain rfl := Option.some.inj h
    exact .outside .same
  · -- the next completion
    rename_i hpc
    split at h
    · rename_i cqe rest hcq
      obtain rfl := Option.some.inj h
      exact .effects (by rw [hpc]; trivial) (effects_event hcq)
    · cases h
  · -- no completion is left
    simp only [Option.ite_none_left_eq_some] at h
    obtain ⟨-, h⟩ := h
    split at h
    · obtain rfl := Option.some.inj h
      exact .flushing true
    · obtain rfl := Option.some.inj h
      exact hgoto (by simp) (hend _)
  · rename_i hpc
    exact stepped_curl hpc h
  · -- a message of libcurl
    rename_i easy ω hpc
    split at h
    · rename_i req hreq
      split at h
      · rename_i done hdone
        obtain rfl := Option.some.inj h
        exact .ended hpc hreq hdone Runs.checkCompletion.exec
      · cases h
    · cases h
  · -- no message is left
    simp only [Option.ite_none_left_eq_some, Option.some.injEq] at h
    obtain ⟨-, rfl⟩ := h
    exact .flushing false
  · -- the next connection of the dirty list
    rename_i hpc
    obtain rfl := Option.some.inj h
    exact .flushed hpc Runs.flushConnection.exec
  · split at h
    · obtain rfl := Option.some.inj h
      exact hgoto (by simp) (hend _)
    · obtain rfl := Option.some.inj h
      exact hgoto (p := .events) (by simp) rfl
  · -- the next connection of the pool
    rename_i hpc
    split at h
    · rename_i i rest hcompletions
      obtain rfl := Option.some.inj h
      exact .effects (by rw [hpc]; trivial) (effects_completion hcompletions)
    · cases h
  · rename_i hpc
    obtain ⟨-, h⟩ := Option.ite_none_right_eq_some.mp h
    obtain rfl := Option.some.inj h
    exact .of_runs (by rw [hpc]; trivial) .rearmEventfd
  · cases h

/-- **What a step can do**, of the kernel, of a worker and of the main loop. Everything that holds
along the runs is proved by cases on this. -/
theorem stepped {a : Label} (h : step s a = some s') : Stepped s a s'.view := by
  cases a with
  | kernel move => exact .outside (outside_kernel h)
  | worker move => exact .outside (outside_worker h)
  | signal =>
    obtain rfl := Option.some.inj h
    exact .outside .same
  | _ => exact stepped_loop h

end SocketHandoff.Uring
