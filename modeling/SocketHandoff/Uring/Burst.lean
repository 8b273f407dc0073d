import SocketHandoff.Uring.Daemon

/-!
# Bursts of connections

A multishot accept posts one completion for each connection, and the loop over the completions
queues a receive for each of them without submitting anything in between. A burst of connections
therefore fills the submission queue, entry by entry, and whatever is handled after it in the same
iteration finds no room.
-/

namespace SocketHandoff.Uring

variable {s : Daemon} {i : ConnId} {k : Nat} {fd : Fd} {rest : List Cqe} {l : List ConnId} {ω : Env}

/-- The accept of the daemon. -/
def acceptSqe : Sqe := ⟨.accept, 0, 0⟩

/-- The completion for one connection, behind which the accept stays armed. -/
def acceptedCqe (fd : Fd) : Cqe := ⟨.accept, 0, fd, true, 0⟩

/-- The kernel accepts one connection after another. -/
theorem run_accepts (cfg : Config) (h : acceptSqe ∈ s.inflight) (k : Nat) :
    (system cfg).run s (List.replicate k (.kernel (.complete acceptSqe fd true))) =
      some { s with cq := s.cq ++ List.replicate k (acceptedCqe fd) } := by
  induction k generalizing s with
  | zero => simp
  | succ k ih =>
    have hstep : (system cfg).step s (.kernel (.complete acceptSqe fd true)) =
        some { s with cq := s.cq ++ [acceptedCqe fd] } := by
      simp only [system, step, kernelStep, if_pos h]
      rfl
    rw [List.replicate_succ, System.run_cons, hstep, Option.bind_some, ih (by exact h)]
    simp [List.replicate_succ]

/-- What the handlers of a burst leave as it is. -/
structure Daemon.Unmoved (s s' : Daemon) : Prop where
  cfg : s'.cfg = s.cfg
  pc : s'.pc = s.pc
  inflight : s'.inflight = s.inflight
  gen : s'.gen = s.gen
  shutdownRequested : s'.shutdownRequested = s.shutdownRequested

/-- **One connection**: a slot leaves the free list, and its receive joins the queue. -/
theorem step_accepted (hω : ∀ n, ω.malloc n = true) (hpc : s.pc = .events)
    (hcq : s.cq = acceptedCqe fd :: rest) (hroom : s.sq.length < s.cfg.entries)
    (hfree : s.freeList = some i) (hbuf : (s.connections i).handoffBuf = none)
    (hquiet : s.cfg.benchmarkMode = false) :
    ∃ s', step s (.event ω) = some s' ∧ s.Unmoved s' ∧ s'.cq = rest ∧
      s'.sq.length = s.sq.length + 1 ∧ s'.freeList = s.nextFree i ∧
      s'.nextFree = Function.update s.nextFree i none ∧
      ∀ j, j ≠ i → s'.connections j = s.connections j := by
  refine ⟨s.exec (do
    popCqe rest
    processCqe (acceptedCqe fd)) ω, ?_, ?_⟩
  · simp only [step, loopStep, hpc, hcq]
  · have hfd : ¬ ((fd : Int) < 0) := by omega
    simp only [acceptedCqe, Daemon.exec, Act.final, popCqe, processCqe, handleAccept, rearmAccept,
      Act.bind_run, Act.get_run, Act.modify_run, Act.pure_run, hfd, true_or, if_true, if_false]
    simp [acceptConnection, connAlloc, ensureHandoffBuf, connOf, malloc, updateConn, countStarted,
      ringSubmitRecvmsg, ringGetSqeFlush, fillSqe, ioUringGetSqe, Daemon.popFree, Daemon.setConn,
      Daemon.addActive, Daemon.queue, hfree, hbuf, hω, hroom, hquiet]
    refine ⟨⟨rfl, rfl, rfl, rfl, rfl⟩, fun j hj => ?_⟩
    simp [hj]

/-- **A burst** of `k` connections takes `k` entries, as long as there are so many, and so many
slots. -/
theorem run_burst (cfg : Config) (hω : ∀ n, ω.malloc n = true) (hpc : s.pc = .events)
    (hcq : s.cq = List.replicate k (acceptedCqe fd) ++ rest)
    (hroom : s.sq.length + k ≤ s.cfg.entries) (hfree : Linked s.nextFree s.freeList l)
    (hnodup : l.Nodup) (hk : k ≤ l.length) (hbuf : ∀ i ∈ l, (s.connections i).handoffBuf = none)
    (hquiet : s.cfg.benchmarkMode = false) :
    ∃ s', (system cfg).run s (List.replicate k (.event ω)) = some s' ∧ s.Unmoved s' ∧
      s'.cq = rest ∧ s'.sq.length = s.sq.length + k ∧
      ∀ j ∉ l, s'.connections j = s.connections j := by
  induction k generalizing s l with
  | zero => exact ⟨s, rfl, ⟨rfl, rfl, rfl, rfl, rfl⟩, hcq, rfl, fun _ _ => rfl⟩
  | succ k ih =>
    cases l with
    | nil => cases hk
    | cons i l =>
      obtain ⟨hhead, htail⟩ := hfree
      obtain ⟨hi, hl⟩ := List.nodup_cons.mp hnodup
      rw [List.replicate_succ] at hcq
      obtain ⟨t, hstep, hu, htcq, hsq, hfl, hnf, hconn⟩ :=
        step_accepted hω hpc hcq (by omega) hhead (hbuf i (List.mem_cons_self ..)) hquiet
      have hlinked : Linked t.nextFree t.freeList l := by
        rw [hfl, hnf]
        exact htail.congr fun b hb => Function.update_of_ne (ne_of_mem_of_not_mem hb hi) ..
      obtain ⟨s', hrun, hu', hcq', hsq', hconn'⟩ :=
        ih (hu.pc.trans hpc) htcq (by rw [hsq, hu.cfg]; omega) hlinked hl
          (Nat.le_of_succ_le_succ hk) (fun j hj => by
            rw [hconn j (ne_of_mem_of_not_mem hj hi)]
            exact hbuf j (List.mem_cons_of_mem _ hj)) (hu.cfg ▸ hquiet)
      refine ⟨s', ?_, ⟨hu'.cfg.trans hu.cfg, hu'.pc.trans hu.pc, hu'.inflight.trans hu.inflight,
        hu'.gen.trans hu.gen, hu'.shutdownRequested.trans hu.shutdownRequested⟩, hcq', by omega,
        fun j hj => ?_⟩
      · rw [List.replicate_succ, System.run_cons]
        change (step s (.event ω)).bind _ = _
        rw [hstep]
        exact hrun
      · obtain ⟨hji, hjl⟩ := not_or.mp fun h => hj (List.mem_cons.mpr h)
        rw [hconn' j hjl, hconn j hji]

end SocketHandoff.Uring
