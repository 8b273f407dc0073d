import SocketHandoff.Uring.Isolation
import SocketHandoff.Uring.CoreSteps

/-!
# Waking up the main loop

A worker that is done with a connection stores it in the ring of completions and writes to the
eventfd; the main loop reads the eventfd through the ring, empties the ring of completions and asks
for the next read. As long as the read is asked for, no completion is left waiting.

It is asked for again only when no shutdown has been requested and an entry is found for it, and
the ring of completions holds one connection less than it has places.
-/

namespace SocketHandoff.Uring

variable {s s' : Daemon} {c' : Core} {cfg : Config} {a : Label}

/-! ## What waits for whom -/

/-- A connection is queued, being processed or in the ring of completions. -/
def Pool.Busy (p : Pool) : Prop :=
  p.queue ≠ [] ∨ (∃ w ∈ p.working, w.2 ≠ .completed) ∨ p.completions ≠ []

/-- The eventfd read is queued or in flight, or its completion is about to be handled. -/
def Daemon.Listening (s : Daemon) : Prop :=
  (∃ r ∈ s.inflight ++ s.sq, r.request = .readEventfd s.cfg.eventfd) ∨
    (∃ cqe ∈ s.cq, cqe.op = .eventfd) ∨ s.pc = .eventfd

/-- The same of a core. -/
def Core.Listening (c : Core) : Prop :=
  (∃ r ∈ c.entries, r.request = .readEventfd c.cfg.eventfd) ∨
    (∃ cqe ∈ c.cq, cqe.op = .eventfd) ∨ c.pc = .eventfd

theorem listening_core : s.core.Listening ↔ s.Listening := by
  have hentries : (∃ r ∈ s.core.entries, r.request = .readEventfd s.cfg.eventfd) ↔
      ∃ r ∈ s.inflight ++ s.sq, r.request = .readEventfd s.cfg.eventfd := by
    constructor
    · rintro ⟨r, hr, hreq⟩
      exact ⟨r, List.mem_of_mem_filter hr, hreq⟩
    · rintro ⟨r, hr, hreq⟩
      exact ⟨r, List.mem_filter.mpr ⟨hr, by simp [Sqe.slot?, hreq]⟩, hreq⟩
  exact or_congr_left hentries

/-- The condition on a step: while connections are with the pool, the loop over its completions ends
before a shutdown and finds an entry for the next read, and none is handed to the pool once the read
is no longer asked for. It is on the state before the step, since the read is asked for in one place
only, behind that loop. -/
def Rearms (s : Daemon) : Label → Prop
  | .completionsDone ω => s.pool.Busy → s.shutdownRequested = false ∧ s.Room ω
  | .event _ => (∃ cqe rest, s.cq = cqe :: rest ∧ cqe.Message) → s.Listening
  | _ => True

/-! ## One step -/

/-- What the kernel posts does not get lost. -/
theorem Core.Listening.posted (h : s.core.Listening) (hp : Posted s c') : c'.Listening := by
  cases hp with
  | slot cqes | more res =>
    rcases h with h | ⟨cqe, hc, hop⟩ | h
    · exact .inl h
    · exact .inr (.inl ⟨cqe, List.mem_append_left _ hc, hop⟩)
    · exact .inr (.inr h)
  | @last r res signals hr =>
    rcases h with ⟨t, ht, hreq⟩ | ⟨cqe, hc, hop⟩ | h
    · by_cases htr : t = r
      · -- it is the read that is done
        subst htr
        refine .inr (.inl ⟨t.cqe res false, List.mem_append_right _ (List.mem_singleton.mpr rfl), ?_⟩)
        simp [Sqe.cqe, hreq, Request.op]
      · exact .inl ⟨t, (List.mem_erase_of_ne htr).mpr ht, hreq⟩
    · exact .inr (.inl ⟨cqe, List.mem_append_left _ hc, hop⟩)
    · exact .inr (.inr h)

/-- Callbacks of libcurl leave the read alone. -/
theorem Core.Listening.called {c : Core} (h : c.Listening) (hpc : c.pc ≠ .eventfd)
    (hc : c.Called c') : c'.Listening := by
  obtain ⟨rs, hrs, -⟩ := hc.entries
  rcases h with ⟨r, hr, hreq⟩ | ⟨cqe, hq, hop⟩ | h
  · exact .inl ⟨r, hrs ▸ List.mem_append_left _ hr, by rw [hc.cfg, hreq]⟩
  · exact .inr (.inl ⟨cqe, hc.cq ▸ hq, hop⟩)
  · exact absurd h hpc

/-- Taking another completion off the queue. -/
theorem Core.Listening.taken {cqe : Cqe} {rest : List Cqe} {queue : List ConnId}
    {entries : List Sqe} (h : s.core.Listening) (hpc : s.pc = .events) (hcq : s.cq = cqe :: rest)
    (hop : cqe.op ≠ .eventfd) (hsub : s.core.entries ⊆ entries) (hc : Core.Called
      { s.core with
        cq := rest
        queue := queue
        entries := entries } c') : c'.Listening := by
  have hne : s.core.pc ≠ .eventfd := by
    change s.pc ≠ .eventfd
    rw [hpc]
    exact fun h => nomatch h
  have hl : Core.Listening
      { s.core with
        cq := rest
        queue := queue
        entries := entries } := by
    rcases h with ⟨r, hr, hreq⟩ | ⟨d, hd, hdop⟩ | h
    · exact .inl ⟨r, hsub hr, hreq⟩
    · have hd' : d ∈ cqe :: rest := hcq ▸ hd
      rcases List.mem_cons.mp hd' with rfl | hd'
      · exact absurd hdop hop
      · exact .inr (.inl ⟨d, hd', hdop⟩)
    · exact absurd h hne
  exact hl.called hne hc

/-- A step of a worker leaves no more with the pool than it found. -/
theorem Pool.Busy.worker {move : WorkerMove} (h : workerStep s move = some s')
    (hb : s'.pool.Busy) : s.pool.Busy := by
  have hat : ∀ {k : Nat} {i : ConnId} {stage : Stage}, s.pool.working[k]? = some (i, stage) →
      stage ≠ .completed → s.pool.Busy := fun hk hs =>
    .inr (.inl ⟨_, List.mem_of_getElem? hk, hs⟩)
  cases move with
  | take =>
    simp only [workerStep] at h
    split at h
    · rename_i hq
      exact .inl (by simp [hq])
    · cases h
  | process k =>
    simp only [workerStep] at h
    split at h
    · rename_i hk
      exact hat hk (by simp)
    · cases h
  | complete k =>
    simp only [workerStep] at h
    split at h
    · rename_i hk
      exact hat hk (by simp)
    · cases h
  | signal k =>
    simp only [workerStep] at h
    split at h
    · obtain rfl := Option.some.inj h
      rcases hb with hb | ⟨w, hw, hs⟩ | hb
      · exact .inl hb
      · exact .inr (.inl ⟨w, List.mem_of_mem_eraseIdx hw, hs⟩)
      · exact .inr (.inr hb)
    · cases h

/-- The connections with the pool, in terms of the core. -/
def Core.Busy (c : Core) : Prop :=
  c.queue ≠ [] ∨ (∃ w ∈ c.working, w.2 ≠ .completed) ∨ c.completions ≠ []

theorem Core.Busy.called {c : Core} (hc : c.Called c') (hb : c'.Busy) : c.Busy := by
  rwa [Core.Busy, hc.queue, hc.working, hc.completions] at hb

/-- **A step keeps the read asked for**, while connections are with the pool. The one step that
could end it is the read's own completion, behind which the daemon asks again, if an entry is left.
-/
theorem listening_step (hm : s.cfg.mode = .threadPool) (h : s.pool.Busy → s.Listening)
    (hc : Rearms s a) (hstep : step s a = some s') : s'.pool.Busy → s'.Listening := by
  have hcore : s.core.Busy → s.core.Listening := fun hb => listening_core.mpr (h hb)
  have hloop : ∀ {c' : Core}, Looped s a c' → c'.Busy → c'.Listening := by
    intro c' hl hb
    cases hl with
    | called hpc hcalled => exact (hcore (Core.Busy.called hcalled hb)).called hpc hcalled
    | taken hpc hcq _ hop _ hcalled =>
      have hb' := Core.Busy.called hcalled hb
      exact (hcore hb').taken hpc hcq hop (List.Subset.refl _) hcalled
    | @received ω cqe rest _ _ hpc hcq hmsg hcalled =>
      have hop : cqe.op ≠ .eventfd := by rw [hmsg.1]; exact fun h => nomatch h
      have hl : s.Listening := hc ⟨cqe, rest, hcq, hmsg⟩
      exact (listening_core.mpr hl).taken hpc hcq hop (List.Subset.refl _) hcalled
    | @accepted ω cqe rest _ hpc hcq hop hcalled =>
      have hne : cqe.op ≠ .eventfd := by rw [hop]; exact fun h => nomatch h
      have hb' := Core.Busy.called hcalled hb
      exact (hcore hb').taken hpc hcq hne (List.subset_append_left ..) hcalled
    | awoken => exact .inr (.inr rfl)
    | fetched _ _ _ hpc => exact .inr (.inr hpc)
    | @rearmed ω _ _ =>
      obtain ⟨hsd, hroom⟩ := hc hb
      refine .inl ⟨⟨.readEventfd s.cfg.eventfd, 0, 0⟩, List.mem_append_right _ ?_, rfl⟩
      rw [Daemon.nextRead, if_pos ⟨hm, hsd, hroom⟩]
      exact List.mem_singleton.mpr rfl
  intro hb
  cases a with
  | kernel move =>
    rcases posted_kernel hstep with he | hp
    · have hb' : s.core.Busy := he ▸ (show s'.core.Busy from hb)
      exact listening_core.mp (he ▸ hcore hb')
    · have hb' : s.core.Busy := by
        have hb' : s'.core.Busy := hb
        revert hb'
        generalize s'.core = c' at hp
        cases hp <;> exact id
      exact listening_core.mp ((hcore hb').posted hp)
  | worker move =>
    have hl := hcore (hb.worker hstep)
    rw [← listening_core, core_worker hstep]
    exact hl
  | signal =>
    obtain rfl := Option.some.inj hstep
    exact h hb
  | _ => exact listening_core.mp (hloop (looped_loop hstep) hb)

/-! ## All runs -/

/-- A worker finds a place for a connection in an empty ring of completions, unless the ring has
only one. -/
theorem complete_isSome_iff {k : Nat} {i : ConnId} (hk : s.pool.working[k]? = some (i, .processed))
    (hnone : s.pool.completions = []) :
    (step s (.worker (.complete k))).isSome ↔ 2 ≤ s.cfg.maxConnections := by
  simp only [step, workerStep, hk, hnone, List.length_nil]
  by_cases h : 0 + 1 < s.cfg.maxConnections
  · simp only [if_pos h, Option.isSome_some, true_iff]
    exact h
  · simp only [if_neg h, Option.isSome_none, Bool.false_eq_true, false_iff]
    exact h

/-- **No completion is stranded** in a run in which the read is asked for again whenever it has to
be: while a connection is with the pool the main loop is going to be woken up, and in the ring of
completions the main loop has emptied, of two places or more, a worker can store its connection. -/
theorem listening_of_rearms (hm : cfg.mode = .threadPool)
    (h : (system cfg).ReachableIf Rearms s) :
    (s.pool.Busy → s.Listening) ∧
      (s.pool.completions = [] → ∀ i k, s.pool.working[k]? = some (i, .processed) →
        ((step s (.worker (.complete k))).isSome ↔ 2 ≤ cfg.maxConnections)) := by
  have hcfg : ∀ {t : Daemon}, (system cfg).ReachableIf Rearms t → t.cfg = cfg := cfg_reachable
  refine ⟨h.invariant_of (J := fun t => t.cfg = cfg) (I := fun t => t.pool.Busy → t.Listening)
    (fun t ht => hcfg ht) ?_ fun t b t' ht hl hc hstep => ?_, fun hnone i k hk => ?_⟩
  · rintro t ⟨k, rfl⟩ -
    have hentry : (⟨.readEventfd cfg.eventfd, 0, 0⟩ : Sqe) ∈ (Daemon.boot cfg).core.entries := by
      simp [Daemon.core, Daemon.boot, hm, Sqe.slot?]
    rw [← listening_core, core_submit]
    exact .inl ⟨_, hentry, rfl⟩
  · exact listening_step (ht ▸ hm) hl hc hstep
  · rw [complete_isSome_iff hk hnone, hcfg h]

/-! ### Where it breaks -/

/-- A daemon with two workers. -/
def poolConfig (maxConnections : Nat) : Config :=
  { demoConfig with
    mode := .threadPool
    maxConnections := maxConnections
    poolSize := 2 }

/-- A descriptor arrives for a slot, and its connection is handed to the pool. -/
def receiveOne (i : ConnId) (unixFd fd : Fd) : List Label :=
  [.kernel (.deliver ⟨.recvmsg (some unixFd) (some i) 4096, i, 0⟩ ⟨[], [fd]⟩), .woken,
    .event .willing, .eventsDone .willing]

/-- A connection is handed to the pool while the read of the eventfd is in flight. -/
theorem listening_of_rearms_received :
    ∃ s, (system (poolConfig 2)).ReachableIf Rearms s ∧ s.pool.Busy ∧
      (s.pool.Busy → s.Listening) ∧
      (s.pool.completions = [] → ∀ i k, s.pool.working[k]? = some (i, .processed) →
        ((step s (.worker (.complete k))).isSome ↔ 2 ≤ (poolConfig 2).maxConnections)) := by
  have hboot : (system (poolConfig 2)).ReachableIf Rearms ((Daemon.boot (poolConfig 2)).submit 2) :=
    .init ⟨2, rfl⟩
  have haccept := (((hboot.step (a := acceptOne[0]) trivial rfl).step (a := acceptOne[1])
    trivial rfl).step (a := acceptOne[2]) (by
      rintro ⟨cqe, rest, hcq, hop, -⟩
      cases hcq
      cases hop) rfl).step (a := acceptOne[3]) trivial rfl
  have hreceive := ((haccept.step (a := (receiveOne 0 10 11)[0]) trivial rfl).step
    (a := (receiveOne 0 10 11)[1]) trivial rfl).step (a := (receiveOne 0 10 11)[2])
    (fun _ => .inl ⟨⟨.readEventfd 0, 0, 0⟩, List.mem_cons_of_mem _ (List.mem_cons_self ..), rfl⟩) rfl
  exact ⟨_, hreceive, .inl (List.cons_ne_nil _ _), listening_of_rearms rfl hreceive⟩

/-- **The main loop can stop listening**, in two ways. When a shutdown is requested while two
connections are with the pool, the completion of the first wakes the main loop for the last time. And
with a single connection the ring of completions has no place at all, so that the worker waits
forever. -/
theorem not_listening_of_shutdown :
    (∃ s, (system (poolConfig 2)).Reachable s ∧ s.pool.Busy ∧ ¬ s.Listening) ∧
      ∃ s, (system (poolConfig 1)).Reachable s ∧ s.pool.completions = [] ∧
        s.pool.working[0]? = some (0, .processed) ∧ step s (.worker (.complete 0)) = none := by
  constructor
  · have hboot : (system (poolConfig 2)).Reachable ((Daemon.boot (poolConfig 2)).submit 2) :=
      .init ⟨2, rfl⟩
    let labels : List Label := acceptOne ++ acceptOne ++ receiveOne 0 10 11 ++ receiveOne 1 10 12 ++
      [.worker .take, .worker (.process 0 1 100), .worker (.complete 0), .worker (.signal 0),
        .kernel (.complete ⟨.readEventfd 0, 0, 0⟩ 8 false), .signal, .woken, .event .willing,
        .completion .willing, .completionsDone .willing]
    obtain ⟨s, hrun, hentries, hcq, hpc, hqueue⟩ : ∃ s, (system (poolConfig 2)).run
        ((Daemon.boot (poolConfig 2)).submit 2) labels = some s ∧
        s.inflight ++ s.sq = [acceptSqe] ∧ s.cq = [] ∧ s.pc = .events ∧ s.pool.queue = [1] :=
      ⟨_, rfl, rfl, rfl, rfl, rfl⟩
    refine ⟨s, hboot.run _ hrun, .inl (by simp [hqueue]), ?_⟩
    rintro (⟨r, hr, hreq⟩ | ⟨cqe, hc, -⟩ | h)
    · rw [hentries, List.mem_singleton] at hr
      subst hr
      cases hreq
    · rw [hcq] at hc
      cases hc
    · rw [hpc] at h
      cases h
  · have hboot : (system (poolConfig 1)).Reachable ((Daemon.boot (poolConfig 1)).submit 2) :=
      .init ⟨2, rfl⟩
    let labels : List Label := acceptOne ++ receiveOne 0 10 11 ++
      [.worker .take, .worker (.process 0 1 100)]
    obtain ⟨s, hrun, hnone, hworking, hfull⟩ : ∃ s, (system (poolConfig 1)).run
        ((Daemon.boot (poolConfig 1)).submit 2) labels = some s ∧ s.pool.completions = [] ∧
        s.pool.working[0]? = some (0, .processed) ∧ step s (.worker (.complete 0)) = none :=
      ⟨_, rfl, rfl, rfl, rfl⟩
    exact ⟨s, hboot.run _ hrun, hnone, hworking, hfull⟩

end SocketHandoff.Uring
