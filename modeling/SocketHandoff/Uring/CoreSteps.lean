import SocketHandoff.Uring.Frame
import SocketHandoff.Uring.Steps

/-!
# The steps of the main loop, seen from the core

What a step of the main loop does beside the slots. The callbacks of libcurl queue polls,
cancellations and timers and keep the books about them (`Core.Called`); the rest is done by a few
steps: a completion is taken, the accept or the read of the eventfd is submitted again, a
connection is fetched from the pool.
-/

namespace SocketHandoff.Uring

variable {α : Type} {s s' : Daemon} {c c' c'' : Core} {ω : Env}

/-! ## Callbacks -/

/-- Entries that the callbacks of libcurl queue. -/
def Request.isCurl : Request → Bool
  | .pollAdd .. | .cancelFd _ | .timeout _ | .timeoutRemove => true
  | _ => false

/-- Nothing but the callbacks of libcurl has changed the core, apart from where the main loop
is. -/
structure Core.Called (c c' : Core) : Prop where
  cfg : c'.cfg = c.cfg
  entries : ∃ rs, c'.entries = c.entries ++ rs ∧ ∀ r ∈ rs, r.request.isCurl = true
  cq : c'.cq = c.cq
  queue : c'.queue = c.queue
  working : c'.working = c.working
  completions : c'.completions = c.completions
  signals : c'.signals = c.signals
  shutdownRequested : c'.shutdownRequested = c.shutdownRequested

/-- Changes of what the relation does not look at. -/
theorem Core.Called.of_pc (c : Core) (pc : Pc) (main : Bool) (sockets : Fd → SocketInfo)
    (timerId : Nat) (timerActive : Bool) : c.Called { c with
      pc := pc
      inMainLoop := main
      sockets := sockets
      timerId := timerId
      timerActive := timerActive } :=
  ⟨rfl, ⟨[], (List.append_nil _).symm, by simp⟩, rfl, rfl, rfl, rfl, rfl, rfl⟩

theorem Core.Called.refl (c : Core) : c.Called c := .of_pc c _ _ _ _ _

theorem Core.Called.trans (h : c.Called c') (h' : c'.Called c'') : c.Called c'' := by
  obtain ⟨rs, hrs, hcurl⟩ := h.entries
  obtain ⟨rs', hrs', hcurl'⟩ := h'.entries
  refine ⟨h'.cfg.trans h.cfg, ⟨rs ++ rs', by rw [hrs', hrs, List.append_assoc], ?_⟩,
    h'.cq.trans h.cq, h'.queue.trans h.queue, h'.working.trans h.working, h'.completions.trans h.completions,
    h'.signals.trans h.signals, h'.shutdownRequested.trans h.shutdownRequested⟩
  intro r hr
  rcases List.mem_append.mp hr with hr | hr
  · exact hcurl r hr
  · exact hcurl' r hr

theorem slot?_of_isCurl {r : Sqe} (h : r.request.isCurl = true) : r.slot? = none := by
  cases hr : r.request <;> simp_all [Request.isCurl, Sqe.slot?]

/-- An entry for no slot joins the entries of the core. -/
theorem core_queue_none {r : Sqe} (h : r.slot? = none) :
    (s.queue r).core = { s.core with entries := s.core.entries ++ [r] } := by
  simp [Daemon.core, Daemon.queue, h]

section
variable (c)

/-- The property of a state that nothing but callbacks has happened since `c`. -/
abbrev SinceCalled (t : Daemon) : Prop := c.Called t.core

variable {c}

theorem called_modify {f : Daemon → Daemon} (hf : ∀ t : Daemon, t.core.Called (f t).core) :
    Preserves (SinceCalled c) (Act.modify f : Loop Unit) :=
  .modify fun t h => h.trans (hf t)

theorem called_ask {answer : Env → Nat → Daemon → α × Daemon}
    (h : ∀ ω n t, (answer ω n t).2.core = t.core) :
    Preserves (SinceCalled c) (Act.ask answer : Loop α) :=
  .ask fun ω n t ht => by rw [SinceCalled, h ω n t]; exact ht

theorem called_submit : Preserves (SinceCalled c) ioUringSubmit :=
  called_ask fun ω n _ => core_submit (ω.consumed n)

theorem called_fillSqe {r : Sqe} (hr : r.request.isCurl = true) :
    Preserves (SinceCalled c) (fillSqe ringGetSqeFlush r) := by
  have hroom : Preserves (SinceCalled c) ringGetSqeFlush := by
    refine .bind preserves_ioUringGetSqe fun _ => .ite (fun _ => .pure _) fun _ => ?_
    exact .bind called_submit fun _ => preserves_ioUringGetSqe
  refine .bind hroom fun _ => .ite (fun _ => .bind (called_modify fun t => ?_) fun _ => .pure _)
    fun _ => .pure _
  rw [core_queue_none (slot?_of_isCurl hr)]
  exact ⟨rfl, ⟨[r], rfl, by simpa using hr⟩, rfl, rfl, rfl, rfl, rfl, rfl⟩

/-- Changes of what the curl manager keeps. -/
theorem called_curl (f : Daemon → CurlManager) :
    Preserves (SinceCalled c) (Act.modify fun t => { t with curl := f t } : Loop Unit) :=
  called_modify fun t => .of_pc t.core _ _ _ _ _

theorem called_socketCallback (fd : Fd) (what : CurlPoll) :
    Preserves (SinceCalled c) (socketCallback fd what) := by
  have hcapacity : Preserves (SinceCalled c) (ensureSocketCapacity fd) := by
    refine .bind .get fun _ => .ite (fun _ => .pure _) fun _ => ?_
    refine .bind (called_ask fun ω n t => by cases h : ω.realloc n <;> rfl) fun b => ?_
    cases b with
    | none => exact .pure _
    | some b => exact .bind (called_curl _) fun _ => .pure _
  refine .bind hcapacity fun _ => .ite (fun _ => ?_) fun _ => .pure _
  refine .bind (.bind .get fun _ => .ite (fun _ => ?_) fun _ => .pure _) fun _ => ?_
  · exact .bind (called_fillSqe rfl) fun _ => called_curl _
  refine .bind (.ite (fun _ => .bind (called_fillSqe rfl) fun _ => ?_) fun _ => .pure _) fun _ => ?_
  · exact .ite (fun _ => .bind (called_curl _) fun _ => called_submit) fun _ => called_submit
  · exact .ite (fun _ => called_curl _) fun _ => .pure _

theorem called_timerCallback (timeoutMs : Int) :
    Preserves (SinceCalled c) (timerCallback timeoutMs) := by
  refine .bind (.bind .get fun _ => .ite (fun _ => ?_) fun _ => .pure _) fun _ => ?_
  · exact .bind (called_fillSqe rfl) fun _ => called_curl _
  refine .ite (fun _ => .pure _) fun _ => .bind .get fun _ => .bind (called_curl _) fun _ => ?_
  refine .bind (called_fillSqe rfl) fun _ => ?_
  exact .ite (fun _ => .bind (called_curl _) fun _ => called_submit) fun _ => called_submit

theorem called_runCallbacks (callbacks : List CurlCallback) :
    Preserves (SinceCalled c) (runCallbacks callbacks) := by
  induction callbacks with
  | nil => exact .pure _
  | cons callback rest ih =>
    cases callback with
    | socket fd what => exact .bind (called_socketCallback fd what) fun _ => ih
    | timer timeoutMs => exact .bind (called_timerCallback timeoutMs) fun _ => ih

theorem framed_called : Framed (SinceCalled c) where
  core h hI := by rw [SinceCalled, h]; exact hI
  callbacks := .bind (called_ask fun _ _ _ => rfl) called_runCallbacks

theorem anywhere_called : Anywhere (SinceCalled c) := fun t _ h => h.trans (.of_pc t.core _ _ _ _ _)

/-- The same, except that a connection may have gone to the workers. -/
theorem framed_called_queue : Framed fun t => ∃ queue, SinceCalled { c with queue := queue } t where
  core := by
    rintro t t' h ⟨queue, hI⟩
    exact ⟨queue, framed_called.core h hI⟩
  callbacks := by
    rintro ω st ⟨queue, hI⟩
    exact ⟨queue, framed_called.callbacks ω st hI⟩

/-- The same while the main loop does not move on. -/
theorem framed_called_at (pc : Pc) : Framed fun t => c.Called t.core ∧ t.pc = pc where
  core := by
    rintro t t' h ⟨hI, hpc⟩
    exact ⟨h ▸ hI, (congrArg Core.pc h).trans hpc⟩
  callbacks := by
    rintro ω st ⟨hI, hpc⟩
    refine ⟨framed_called.callbacks ω st hI, ?_⟩
    exact (congrArg View.pc (curlCallbacks_quiet ω st)).trans hpc

end

/-! ## The kernel and the workers -/

/-- What a step of the kernel does to the core: it posts completions. -/
inductive Posted (s : Daemon) : Core → Prop
  /-- for a slot -/
  | slot (cqes : List Cqe) :
      (∀ cqe ∈ cqes, cqe.op = .recvFd ∨ cqe.op = .write ∨ cqe.op = .timeout) →
      Posted s { s.core with cq := s.cq ++ cqes }
  /-- for an accept or a poll that goes on -/
  | more {r : Sqe} (res : Int) : r ∈ s.core.entries →
      (r.request.op = .accept ∨ r.request.op = .curlPoll) →
      Posted s { s.core with cq := s.cq ++ [r.cqe res true] }
  /-- for an entry that is done -/
  | last {r : Sqe} (res : Int) (signals : Nat) : r ∈ s.core.entries →
      (signals = s.pool.signals ∨ r.request.op = .eventfd) →
      Posted s { s.core with
        entries := s.core.entries.erase r
        cq := s.cq ++ [r.cqe res false]
        signals := signals }

theorem mem_entries {r : Sqe} (h : r ∈ s.inflight) (hr : r.slot? = none) : r ∈ s.core.entries := by
  simp [Daemon.core, h, hr]

/-- The entries for no slot, when one of a slot is done. -/
theorem core_finish_slot {r : Sqe} {res : Int} (h : r ∈ s.inflight) (hr : r.slot?.isSome) :
    (s.finish r res).core = { s.core with cq := s.cq ++ [r.cqe res false] } := by
  have hmem : r ∉ s.core.entries := by
    simp only [Daemon.core, List.mem_filter, decide_eq_true_eq, not_and]
    intro _ e
    rw [e] at hr
    cases hr
  have hentries : (s.inflight.erase r ++ s.sq).filter (fun t => t.slot? = none) =
      s.core.entries := (filter_erase_append h).trans (List.erase_of_not_mem hmem)
  simp only [Daemon.core, Daemon.finish, hentries]

theorem core_finish {r : Sqe} {res : Int} (h : r ∈ s.inflight) :
    (s.finish r res).core = { s.core with
      entries := s.core.entries.erase r
      cq := s.cq ++ [r.cqe res false] } := by
  have hentries : (s.inflight.erase r ++ s.sq).filter (fun t => t.slot? = none) =
      s.core.entries.erase r := filter_erase_append h
  simp only [Daemon.core, Daemon.finish, hentries]

/-- A write takes its timeouts with it, which are entries of its slot. -/
theorem core_finishWrite {w : Sqe} {res : Int} (h : w ∈ s.inflight) (hw : w.slot?.isSome) :
    (s.finishWrite w res).core = { s.core with
      cq := s.cq ++ w.cqe res false ::
        (s.inflight.filter w.isTimeoutOf).map fun t => t.cqe (-125) false } := by
  have hkeep : ∀ l : List Sqe, (l.filter fun t => !w.isTimeoutOf t).filter (fun t => t.slot? = none) =
      l.filter fun t => t.slot? = none := by
    intro l
    rw [List.filter_filter]
    refine List.filter_congr fun t _ => ?_
    by_cases ht : w.isTimeoutOf t = true
    · simp [(slot?_of_isTimeoutOf ht).1]
    · simp [ht]
  have hentries : (((s.inflight.erase w).filter fun t => !w.isTimeoutOf t) ++ s.sq).filter
      (fun t => t.slot? = none) = s.core.entries := by
    have hdone : (s.finish w res).core.entries = s.core.entries := by
      rw [core_finish_slot h hw]
    rw [List.filter_append, hkeep, ← List.filter_append]
    exact hdone
  simp only [Daemon.core, Daemon.finishWrite, hentries]

/-- **What a step of the kernel does to the core.** -/
theorem posted_kernel {move : KernelMove} (h : kernelStep s move = some s') :
    s'.core = s.core ∨ Posted s s'.core := by
  cases move with
  | read k =>
    obtain rfl := Option.some.inj h
    exact .inl (core_submit k)
  | deliver r m =>
    simp only [kernelStep] at h
    split at h
    · rename_i iovLen hr
      obtain ⟨hmem, h⟩ := Option.ite_none_right_eq_some.mp h
      obtain rfl := Option.some.inj h
      obtain ⟨c', res, hd⟩ : ∃ c' res, (s.deliver r iovLen m).core =
          ((s.setConn r.connId c').finish r res).core := ⟨_, _, rfl⟩
      rw [hd, core_finish_slot (s := s.setConn r.connId c') hmem (by simp [Sqe.slot?, hr])]
      exact .inr (.slot [r.cqe res false] (by simp [Sqe.cqe, hr, Request.op]))
    · cases h
  | complete r res more =>
    obtain ⟨hmem, h⟩ := Option.ite_none_right_eq_some.mp h
    have hlast : r.slot? = none → ∀ signals, (signals = s.pool.signals ∨ r.request.op = .eventfd) →
        Posted s { (s.finish r res).core with signals := signals } := by
      intro hi signals hsignals
      rw [core_finish hmem]
      exact .last res signals (mem_entries hmem hi) hsignals
    cases hr : r.request with
    | accept | pollAdd =>
      have hi : r.slot? = none := by simp [Sqe.slot?, hr]
      simp only [Daemon.complete, hr, Option.some.injEq] at h
      split at h
      · exact h ▸ .inr (.more res (mem_entries hmem hi) (by simp [hr, Request.op]))
      · exact h ▸ .inr (hlast hi _ (.inl rfl))
    | recvmsg fd base len =>
      simp only [Daemon.complete, hr] at h
      obtain ⟨-, h⟩ := Option.ite_none_right_eq_some.mp h
      obtain rfl := Option.some.inj h
      rw [core_finish_slot hmem (by simp [Sqe.slot?, hr])]
      exact .inr (.slot _ (by simp [Sqe.cqe, hr, Request.op]))
    | write fd buf len =>
      simp only [Daemon.complete, hr, Option.ite_none_left_eq_some] at h
      obtain rfl := Option.some.inj h.2
      rw [core_finishWrite hmem (by simp [Sqe.slot?, hr])]
      refine .inr (.slot _ fun cqe hc => ?_)
      rcases List.mem_cons.mp hc with rfl | hc
      · simp [Sqe.cqe, hr, Request.op]
      · obtain ⟨t, ht, rfl⟩ := List.mem_map.mp hc
        exact .inr (.inr (slot?_of_isTimeoutOf (List.mem_filter.mp ht).2).2)
    | linkTimeout ms =>
      simp only [Daemon.complete, hr, Option.some.injEq] at h
      rw [← h, core_finish_slot hmem (by simp [Sqe.slot?, hr])]
      exact .inr (.slot _ (by simp [Sqe.cqe, hr, Request.op]))
    | readEventfd fd =>
      have hi : r.slot? = none := by simp [Sqe.slot?, hr]
      simp only [Daemon.complete, hr] at h
      split at h
      · exact Option.some.inj h ▸ .inr (hlast hi _ (.inl rfl))
      · simp only [Option.ite_none_left_eq_some, Option.some.injEq] at h
        exact h.2 ▸ .inr (hlast hi 0 (.inr (by simp [hr, Request.op])))
    | cancelFd fd | timeout ms | timeoutRemove =>
      have hi : r.slot? = none := by simp [Sqe.slot?, hr]
      simp only [Daemon.complete, hr, Option.some.injEq] at h
      exact h ▸ .inr (hlast hi _ (.inl rfl))

/-- A worker only changes the pool. -/
theorem core_worker {move : WorkerMove} (h : workerStep s move = some s') :
    s'.core = { s.core with
      queue := s'.pool.queue
      working := s'.pool.working
      completions := s'.pool.completions
      signals := s'.pool.signals } := by
  cases move with
  | take =>
    simp only [workerStep] at h
    split at h
    · obtain ⟨-, h⟩ := Option.ite_none_right_eq_some.mp h
      obtain rfl := Option.some.inj h
      rfl
    · cases h
  | complete k =>
    simp only [workerStep] at h
    split at h
    · obtain ⟨-, h⟩ := Option.ite_none_right_eq_some.mp h
      obtain rfl := Option.some.inj h
      rfl
    · cases h
  | process k | signal k =>
    simp only [workerStep] at h
    split at h
    · obtain rfl := Option.some.inj h
      rfl
    · cases h

/-! ## The steps -/

/-- Whether `ring_get_sqe_flush` finds an entry as the first thing a step asks for. -/
def Daemon.Room (s : Daemon) (ω : Env) : Prop :=
  s.sq.length < s.cfg.entries ∨ (s.submit (ω.consumed 0)).sq.length < s.cfg.entries

instance (s : Daemon) (ω : Env) : Decidable (s.Room ω) :=
  inferInstanceAs (Decidable (_ ∨ _))

/-- The accept that takes the place of one that has come to its end, if it finds an entry.
`ring_submit_accept` does not flush the queue. -/
def Daemon.nextAccept (s : Daemon) (more : Bool) : List Sqe :=
  if more = true ∨ s.shutdownRequested = true then []
  else if s.sq.length < s.cfg.entries then [⟨.accept, 0, 0⟩] else []

/-- The next read of the eventfd, if it is asked for and finds an entry. -/
def Daemon.nextRead (s : Daemon) (ω : Env) : List Sqe :=
  if s.cfg.mode = .threadPool ∧ s.shutdownRequested = false ∧ s.Room ω then
    [⟨.readEventfd s.cfg.eventfd, 0, 0⟩]
  else []

/-- The completion of a receive that has received something. -/
def Cqe.Message (cqe : Cqe) : Prop := cqe.op = .recvFd ∧ 0 ≤ cqe.res

instance (cqe : Cqe) : Decidable cqe.Message := inferInstanceAs (Decidable (_ ∧ _))

/-- What a step of the main loop does to the core. -/
inductive Looped (s : Daemon) : Label → Core → Prop
  | called {a : Label} {c' : Core} : s.pc ≠ .eventfd → s.core.Called c' → Looped s a c'
  /-- a completion that is neither of the accept nor of the eventfd, and brings no message -/
  | taken {ω : Env} {cqe : Cqe} {rest : List Cqe} {c' : Core} : s.pc = .events →
      s.cq = cqe :: rest → cqe.op ≠ .accept → cqe.op ≠ .eventfd → ¬ cqe.Message →
      Core.Called { s.core with cq := rest } c' → Looped s (.event ω) c'
  /-- a message has been received -/
  | received {ω : Env} {cqe : Cqe} {rest : List Cqe} {queue : List ConnId} {c' : Core} :
      s.pc = .events → s.cq = cqe :: rest → cqe.Message →
      Core.Called
        { s.core with
          cq := rest
          queue := queue } c' → Looped s (.event ω) c'
  /-- a completion of the accept -/
  | accepted {ω : Env} {cqe : Cqe} {rest : List Cqe} {c' : Core} : s.pc = .events →
      s.cq = cqe :: rest → cqe.op = .accept →
      Core.Called { s.core with
        cq := rest
        entries := s.core.entries ++ s.nextAccept cqe.more } c' → Looped s (.event ω) c'
  /-- a completion of the eventfd -/
  | awoken {ω : Env} {cqe : Cqe} {rest : List Cqe} : s.pc = .events → s.cq = cqe :: rest →
      cqe.op = .eventfd →
      Looped s (.event ω) { s.core with
        cq := rest
        signals := 0
        pc := .eventfd }
  /-- a connection is fetched from the pool -/
  | fetched {ω : Env} {i : ConnId} {rest : List ConnId} {c' : Core} : s.pc = .eventfd →
      s.pool.completions = i :: rest → Core.Called { s.core with completions := rest } c' →
      c'.pc = .eventfd → Looped s (.completion ω) c'
  /-- none is left there -/
  | rearmed {ω : Env} : s.pc = .eventfd → s.pool.completions = [] →
      Looped s (.completionsDone ω) { s.core with
        entries := s.core.entries ++ s.nextRead ω
        pc := .events }

/-- Code that handles connections, as one step. -/
theorem called_exec {m : Loop Unit} (h : ∀ c, Preserves (SinceCalled c) m) (ω : Env) :
    s.core.Called (s.exec m ω).core :=
  (h s.core).exec (.refl _) ω

/-- Taking a completion and handling it. -/
theorem called_event {rest : List Cqe} {m : Loop Unit}
    (h : ∀ c, Preserves (SinceCalled c) m) (ω : Env) :
    Core.Called { s.core with cq := rest } (s.exec (do
      popCqe rest
      m) ω).core :=
  h _ ω (0, { s with cq := rest }) (.refl _)

theorem core_retryAccept (n : Nat) (st : Nat × Daemon) :
    (retryAccept (n + 1) ω st).2.2.core = { st.2.core with
      entries := st.2.core.entries ++
        if st.2.sq.length < st.2.cfg.entries then [⟨.accept, 0, 0⟩] else [] } := by
  by_cases hroom : st.2.sq.length < st.2.cfg.entries
  · simp only [retryAccept, ringSubmitAccept, fillSqe, ioUringGetSqe]
    simp [hroom, core_queue_none (r := ⟨.accept, 0, 0⟩) rfl]
  · have hsame : ∀ n, (retryAccept n ω st).2.2 = st.2 := by
      intro n
      induction n with
      | zero => rfl
      | succ n ih =>
        simp only [retryAccept, ringSubmitAccept, fillSqe, ioUringGetSqe]
        simpa [hroom] using ih
    rw [hsame, if_neg hroom, List.append_nil]

/-- What `handle_accept` does first. -/
theorem core_rearmAccept (more : Bool) (st : Nat × Daemon) :
    (rearmAccept more ω st).2.2.core = { st.2.core with
      entries := st.2.core.entries ++ st.2.nextAccept more } := by
  have hrun : rearmAccept more ω st =
      (if more = true ∨ st.2.shutdownRequested = true then return () else retryAccept 4 :
        Loop Unit) ω st := rfl
  rw [hrun, Daemon.nextAccept]
  by_cases h : more = true ∨ st.2.shutdownRequested = true
  · rw [if_pos h, if_pos h, List.append_nil]
    rfl
  · rw [if_neg h, if_neg h]
    exact core_retryAccept 3 st

theorem called_handleAccept (cqe : Cqe) (rest : List Cqe) :
    Core.Called { s.core with
        cq := rest
        entries := s.core.entries ++ s.nextAccept cqe.more }
      (s.exec (do
        popCqe rest
        handleAccept cqe.res cqe.more) ω).core := by
  have hrest : ∀ c, Preserves (SinceCalled c)
      (if cqe.res < 0 then return () else acceptConnection cqe.res.toNat) :=
    fun c => .ite (fun _ => .pure _) fun _ => preserves_acceptConnection framed_called _
  have hcore := core_rearmAccept (ω := ω) cqe.more (0, { s with cq := rest })
  refine hrest _ ω (rearmAccept cqe.more ω (0, { s with cq := rest })).2 ?_
  rw [SinceCalled, hcore]
  exact .refl _

/-- What `ring_submit_eventfd_read` does first. -/
theorem core_ringSubmitEventfdRead (n : Nat) (h : n = 0) :
    (ringSubmitEventfdRead ω (n, s)).2.2.core = { s.core with
      entries := s.core.entries ++
        if s.Room ω then [⟨.readEventfd s.cfg.eventfd, 0, 0⟩] else [] } := by
  subst h
  have hentry : ∀ t : Daemon, (t.queue ⟨.readEventfd s.cfg.eventfd, 0, 0⟩).core =
      { t.core with entries := t.core.entries ++ [⟨.readEventfd s.cfg.eventfd, 0, 0⟩] } :=
    fun t => core_queue_none rfl
  simp only [ringSubmitEventfdRead, fillSqe, ringGetSqeFlush, ioUringGetSqe, ioUringSubmit,
    Act.bind_run, Act.get_run]
  by_cases hroom : s.sq.length < s.cfg.entries
  · have hr : s.Room ω := .inl hroom
    simp [hroom, hr, hentry]
  · by_cases hflush : (s.submit (ω.consumed 0)).sq.length < s.cfg.entries
    · have hr : s.Room ω := .inr hflush
      have hflush' : (s.submit (ω.consumed 0)).sq.length < (s.submit (ω.consumed 0)).cfg.entries :=
        hflush
      simp [hroom, hflush', hr, hentry]
    · have hr : ¬ s.Room ω := by
        rintro (h | h)
        · exact hroom h
        · exact hflush h
      have hflush' : ¬ (s.submit (ω.consumed 0)).sq.length < (s.submit (ω.consumed 0)).cfg.entries :=
        hflush
      simp [hroom, hflush', hr]

/-- What `handle_eventfd` does last. -/
theorem core_rearmEventfd : (s.exec rearmEventfd ω).core = { s.core with
    entries := s.core.entries ++ s.nextRead ω
    pc := .events } := by
  have hrun : (s.exec rearmEventfd ω).core =
      ((if s.cfg.mode = .threadPool ∧ ¬ s.shutdownRequested = true then do
          let _ ← ringSubmitEventfdRead
          goto .events
        else goto .events : Loop Unit) ω (0, s)).2.2.core := rfl
  rw [hrun]
  by_cases hm : s.cfg.mode = .threadPool ∧ ¬ s.shutdownRequested = true
  · have hcore : _ = { (ringSubmitEventfdRead ω (0, s)).2.2.core with pc := Pc.events } := rfl
    rw [if_pos hm]
    refine Eq.trans hcore ?_
    rw [core_ringSubmitEventfdRead 0 rfl, Daemon.nextRead]
    by_cases hr : s.Room ω
    · rw [if_pos hr, if_pos ⟨hm.1, by simpa using hm.2, hr⟩]
    · rw [if_neg hr, if_neg fun h => hr h.2.2]
  · have hnone : s.nextRead ω = [] := by
      rw [Daemon.nextRead, if_neg fun h => hm ⟨h.1, by simpa using h.2.1⟩]
    rw [if_neg hm, hnone, List.append_nil]
    rfl

theorem called_processRecvFd (id : Nat) (res : Int) :
    Preserves (fun t => ∃ queue, SinceCalled { c with queue := queue } t) (processRecvFd id res) := by
  refine preserves_processRecvFd framed_called_queue ?_ ?_ id res
  · rintro t pc ⟨queue, h⟩
    exact ⟨queue, anywhere_called t pc h⟩
  · rintro t queue ⟨_, h⟩
    exact ⟨queue, ⟨h.cfg, h.entries, h.cq, rfl, h.working, h.completions, h.signals,
      h.shutdownRequested⟩⟩

/-- A receive that has failed hands nothing on. -/
theorem called_recvFailed {res : Int} (hres : res < 0) (id : Nat) :
    Preserves (SinceCalled c) (processRecvFd id res) := by
  have hfail : ∀ i, handleRecvFd i res = failConnection i := fun i => if_pos hres
  refine .bind (preserves_connGet id) fun i => ?_
  cases i with
  | none => exact .pure _
  | some i =>
    refine .bind (preserves_connOf i) fun _ => .ite (fun _ => ?_) fun _ => .pure _
    rw [hfail]
    exact preserves_failConnection framed_called i

/-- A completion that is neither of the accept nor of the eventfd, and brings no message. -/
theorem called_processCqe {cqe : Cqe} (ha : cqe.op ≠ .accept) (he : cqe.op ≠ .eventfd)
    (hm : ¬ cqe.Message) : Preserves (SinceCalled c) (processCqe cqe) := by
  have hgoto : ∀ pc, Preserves (SinceCalled c) (goto pc) := preserves_goto anywhere_called
  refine .bind .get fun s => ?_
  cases hop : cqe.op with
  | accept => exact absurd hop ha
  | eventfd => exact absurd hop he
  | recvFd => exact called_recvFailed (Int.not_le.mp fun hres => hm ⟨hop, hres⟩) _
  | write => exact preserves_processWrite framed_called _ _
  | timeout | cancel | pollCancel => exact .pure _
  | curlPoll => exact .ite (fun _ => hgoto _) fun _ => .pure _
  | curlTimeout =>
    exact .ite (fun _ => .bind (called_curl _) fun _ => hgoto _) fun _ => .pure _

theorem looped_event {cqe : Cqe} {rest : List Cqe} (hpc : s.pc = .events)
    (hcq : s.cq = cqe :: rest) :
    Looped s (.event ω) (s.exec (do
      popCqe rest
      processCqe cqe) ω).core := by
  obtain ⟨op, id, res, more, gen⟩ := cqe
  by_cases ha : op = .accept
  · subst ha
    exact .accepted hpc hcq rfl (called_handleAccept ⟨.accept, id, res, more, gen⟩ rest)
  by_cases he : op = .eventfd
  · subst he
    exact .awoken hpc hcq rfl
  by_cases hm : Cqe.Message ⟨op, id, res, more, gen⟩
  · obtain rfl : op = .recvFd := hm.1
    obtain ⟨queue, hc⟩ := called_processRecvFd (c := { s.core with cq := rest }) id res ω
      (0, { s with cq := rest }) ⟨_, .refl _⟩
    exact .received hpc hcq hm hc
  · exact .taken hpc hcq ha he hm (called_event (fun _ => called_processCqe ha he hm) ω)

theorem called_curlStep {kick : Bool} {a : Label} (h : curlStep s kick a = some s') :
    s.core.Called s'.core := by
  simp only [curlStep] at h
  split at h
  · split at h
    · simp only [Option.ite_none_left_eq_some, Option.some.injEq] at h
      obtain ⟨-, rfl⟩ := h
      exact called_exec (fun _ => preserves_curlDeliver framed_called _ _) _
    · cases h
  · obtain rfl := Option.some.inj h
    exact called_exec (fun _ => called_runCallbacks _) _
  · split at h
    · simp only [Option.ite_none_left_eq_some, Option.some.injEq] at h
      obtain ⟨-, rfl⟩ := h
      exact .refl _
    · cases h
  · obtain rfl := Option.some.inj h
    exact .of_pc s.core _ _ _ _ _
  · cases h

theorem called_endIteration (ω : Env) : s.core.Called (s.exec endIteration ω).core := by
  refine called_exec (fun c => .bind called_submit fun _ => .modify fun t ht => ?_) ω
  exact ht.trans (.of_pc t.core _ _ _ _ _)

/-- **What a step of the main loop does to the core.** The results about what belongs to no
connection rest on these cases. -/
theorem looped_loop {a : Label} (h : loopStep s a = some s') : Looped s a s'.core := by
  have hcalled : ∀ {p : Pc} {c' : Core}, s.pc = p → p ≠ .eventfd → s.core.Called c' →
      Looped s a c' := fun hpc hne hc => .called (by rwa [hpc]) hc
  simp only [loopStep] at h
  split at h
  · -- a completion has arrived
    rename_i hpc
    simp only [Option.ite_none_left_eq_some, Option.some.injEq] at h
    obtain ⟨-, rfl⟩ := h
    exact hcalled hpc (by simp) (.of_pc s.core _ _ _ _ _)
  · rename_i hpc
    obtain rfl := Option.some.inj h
    exact hcalled hpc (by simp) (.of_pc s.core _ _ _ _ _)
  · -- the next completion
    rename_i hpc
    split at h
    · rename_i hcq
      obtain rfl := Option.some.inj h
      exact looped_event hpc hcq
    · cases h
  · -- no completion is left
    rename_i hpc
    simp only [Option.ite_none_left_eq_some] at h
    obtain ⟨-, h⟩ := h
    split at h
    · obtain rfl := Option.some.inj h
      exact hcalled hpc (by simp) (.of_pc s.core _ _ _ _ _)
    · obtain rfl := Option.some.inj h
      exact hcalled hpc (by simp) (called_endIteration _)
  · rename_i hpc
    exact hcalled hpc (by simp) (called_curlStep h)
  · -- a message of libcurl
    rename_i hpc
    split at h
    · split at h
      · obtain rfl := Option.some.inj h
        exact hcalled hpc (by simp)
          (called_exec (fun _ => preserves_checkCompletion framed_called _ _) _)
      · cases h
    · cases h
  · rename_i hpc
    simp only [Option.ite_none_left_eq_some, Option.some.injEq] at h
    obtain ⟨-, rfl⟩ := h
    exact hcalled hpc (by simp) (.of_pc s.core _ _ _ _ _)
  · -- the next connection of the dirty list
    rename_i hpc
    obtain rfl := Option.some.inj h
    exact hcalled hpc (by simp)
      (called_exec (fun _ => preserves_flushConnection framed_called anywhere_called _ _ _) _)
  · rename_i hpc
    split at h
    · obtain rfl := Option.some.inj h
      exact hcalled hpc (by simp) (called_endIteration _)
    · obtain rfl := Option.some.inj h
      exact hcalled hpc (by simp) (.of_pc s.core _ _ _ _ _)
  · -- the next connection of the pool
    rename_i hpc
    split at h
    · rename_i i rest hcompletions
      obtain rfl := Option.some.inj h
      have hrun := (preserves_handleCompletion (framed_called_at
        (c := { s.core with completions := rest }) .eventfd) i).exec
        (s := s.setPool { s.pool with completions := rest }) ⟨.refl _, hpc⟩ ‹Env›
      exact .fetched hpc hcompletions hrun.1 hrun.2
    · cases h
  · -- none is left there
    rename_i hpc
    obtain ⟨hnone, h⟩ := Option.ite_none_right_eq_some.mp h
    obtain rfl := Option.some.inj h
    rw [core_rearmEventfd]
    exact .rearmed hpc hnone
  · cases h

/-! ## The configuration -/

theorem Posted.cfg (h : Posted s c') : c'.cfg = s.cfg := by
  cases h <;> rfl

theorem Looped.cfg {a : Label} (h : Looped s a c') : c'.cfg = s.cfg := by
  cases h with
  | called _ hc | taken _ _ _ _ _ hc | received _ _ _ hc | accepted _ _ _ hc | fetched _ _ hc =>
    exact hc.cfg
  | awoken | rearmed => rfl

/-- The configuration does not change. -/
theorem cfg_step {a : Label} (h : step s a = some s') : s'.cfg = s.cfg := by
  cases a with
  | kernel move =>
    rcases posted_kernel h with hc | hc
    · exact congrArg Core.cfg hc
    · exact Posted.cfg hc
  | worker move => exact congrArg Core.cfg (core_worker h)
  | signal =>
    obtain rfl := Option.some.inj h
    rfl
  | _ => exact Looped.cfg (looped_loop h)

theorem cfg_reachable {cfg : Config} {C : Daemon → Label → Prop}
    (h : (system cfg).ReachableIf C s) : s.cfg = cfg := by
  refine h.invariant (I := fun s => s.cfg = cfg) ?_ fun t a t' ht _ hstep =>
    (cfg_step hstep).trans ht
  rintro t ⟨k, rfl⟩
  rfl

end SocketHandoff.Uring
