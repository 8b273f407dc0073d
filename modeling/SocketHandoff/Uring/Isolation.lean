import SocketHandoff.Uring.Burst
import SocketHandoff.Uring.Sound

/-!
# Isolation of the connections

In a clean run every entry and every completion that names a slot is of the connection in it. The
run that is not clean starts with a burst: it leaves one entry in the submission queue, which a
write takes, so that its timeout finds none.
-/

namespace SocketHandoff.Uring

variable {i : ConnId} {v : Slot} {cfg : Config} {rest : List Cqe}

/-- An entry refers to what the connection in its slot has now: its descriptors, a buffer of it,
its message header, and the timeout the daemon uses. -/
def Sqe.Current (cfg : Config) (c : Connection) (r : Sqe) : Prop :=
  match r.request with
  | .recvmsg fd iovBase iovLen =>
    fd = c.unixFd ∧ iovBase = c.recv.iovBase ∧ iovLen = c.recv.iovLen ∧ iovBase = c.handoffBuf
  | .write fd buf _ => fd = c.clientFd ∧ buf.Owned c
  | .linkTimeout ms => ms = cfg.writeTimeoutMs
  | _ => True

/-- **Isolation.** Every entry and every completion that names a slot is of the connection that is
in it, and an entry refers to nothing else. A slot is handed out again, so that its number alone
does not tell one connection from the next: the generation does, which the daemon does not have. -/
structure Daemon.Isolated (s : Daemon) : Prop where
  entries : ∀ r ∈ s.sq ++ s.inflight, ∀ i, r.slot? = some i →
    r.gen = s.gen i ∧ (s.connections i).state ≠ .unused ∧ r.Current s.cfg (s.connections i)
  completions : ∀ c ∈ s.cq, ∀ i, c.slot? = some i →
    c.gen = s.gen i ∧ (s.connections i).state ≠ .unused

theorem Slot.Sound.entry (h : v.Sound cfg i) {r : Sqe} (hr : r ∈ v.ops) :
    r.gen = v.gen ∧ v.conn.state ≠ .unused ∧ r.Current cfg v.conn := by
  cases h with
  | idle h | received _ h | written _ h | queued h | done h => rw [h.ops] at hr; cases hr
  | receiving h hs hb =>
    rw [h.ops] at hr
    obtain rfl := List.mem_singleton.mp hr
    exact ⟨rfl, by simp [hs], rfl, rfl, rfl, hb⟩
  | writing buf len ts h hts hw =>
    rw [h.ops] at hr
    rcases List.mem_cons.mp hr with rfl | hr
    · exact ⟨rfl, hw.used, rfl, hw.owned⟩
    · rcases hts with rfl | rfl
      · cases hr
      · obtain rfl := List.mem_singleton.mp hr
        exact ⟨rfl, hw.used, rfl⟩

theorem Slot.Sound.completion (h : v.Sound cfg i) {cqe : Cqe} (hc : cqe ∈ v.comps) :
    cqe.gen = v.gen ∧ v.conn.state ≠ .unused := by
  cases h with
  | idle h | receiving h | writing _ _ _ h | queued h | done h => rw [h.comps] at hc; cases hc
  | received c h _ hg hs =>
    rw [h.comps] at hc
    obtain rfl := List.mem_singleton.mp hc
    exact ⟨hg, by simp [hs]⟩
  | written c h _ hg hw =>
    rw [h.comps] at hc
    obtain rfl := List.mem_singleton.mp hc
    exact ⟨hg, hw.used⟩

/-- **Clean runs isolate their connections**, in every state: what the kernel still has to do for a
slot, and what it has done, is for the connection that is in it now. The two branches that are
excluded are the ones in which an entry, or a block of memory, is left to the kernel by a connection
that is gone. -/
theorem isolated_of_harmless {cfg : Config} {s : Daemon}
    (h : (system cfg).ReachableIf Harmless s) : s.Isolated := by
  have hs := sound_reachable h
  refine ⟨fun r hr i hi => ?_, fun c hc i hi => ?_⟩
  · have hmem : r ∈ (s.slot i).ops := by
      have hr' := List.mem_append.mp hr
      simp [Daemon.slot, hi, hr'.symm]
    exact (hs i).entry hmem
  · have hmem : c ∈ (s.slot i).comps := by simp [Daemon.slot, hi, hc]
    exact (hs i).completion hmem

/-! ### Where it breaks -/

/-- A run that ends clean was clean all along. -/
theorem reachableIf_harmless {s : Daemon} (h : (system cfg).Reachable s) (hc : s.view.Clean) :
    (system cfg).ReachableIf Harmless s := by
  induction h with
  | init h0 => exact .init h0
  | @step s s' a hr _ hs ih =>
    refine (ih (hc.of_start (stepped hs).trace)).step (fun t ht => ?_) hs
    obtain rfl := Option.some.inj ((show step s a = some s' from hs).symm.trans ht)
    exact hc

/-- The demo with the defaults of `daemon.h`: no upstream and no threads, so that a run is easily
written down. -/
def demoConfig : Config where
  mode := .direct
  maxConnections := defaultMaxConnections
  entries := defaultRingSize
  writeTimeoutMs := 30000
  benchmarkMode := false
  poolSize := 0
  eventfd := 0
  apiKey := false
  defaultModel := []
  jsonParse := fun _ => none

/-- Everything asked for is granted, and `io_uring_submit` takes all entries. -/
def Env.willing : Env where
  consumed _ := defaultRingSize
  malloc _ := true
  realloc _ := .inPlace
  soType _ := some .stream
  curlEasyInit _ := true
  curlMultiAddHandle _ := true
  callbacks _ := []
  freed _ := (false, false)

/-- A connection is accepted, and its receive submitted. -/
def acceptOne : List Label :=
  [.kernel (.complete acceptSqe 10 true), .woken, .event .willing, .eventsDone .willing]

/-- Its receive is in flight. -/
theorem isolated_of_harmless_accepted :
    ∃ s, (system demoConfig).run ((Daemon.boot demoConfig).submit 1) acceptOne = some s ∧
      (s.slot 0).ops.length = 1 ∧ s.Isolated := by
  have hboot : (system demoConfig).Reachable ((Daemon.boot demoConfig).submit 1) := .init ⟨1, rfl⟩
  refine ⟨_, rfl, rfl, isolated_of_harmless (reachableIf_harmless (hboot.run acceptOne rfl) ?_)⟩
  intro e he
  cases he

/-- Freeing a connection with its write queued: the timeout has found no entry. -/
theorem submitOrCleanup_strand {s : Daemon} {ω : Env} {n : Nat} {buf : Buf} {len : Nat}
    {refused : Loop Unit} (hroom : s.sq.length + 1 = s.cfg.entries) (hm : s.cfg.mode = .direct)
    (hb : s.cfg.benchmarkMode = false) (hd : (s.connections i).onDirtyList = false) :
    let t := (submitOrCleanup i buf len refused ω (n, s)).2.2
    ∃ r ∈ t.sq, r.slot? = some i ∧ r.gen = s.gen i ∧ t.gen i = s.gen i + 1 := by
  have hwrite : s.sq.length < s.cfg.entries := by omega
  have htimeout : ¬ s.sq.length + 1 < s.cfg.entries := by omega
  refine ⟨⟨.write (s.connections i).clientFd buf len, i, s.gen i⟩, ?_⟩
  simp [submitOrCleanup, ringSubmitWrite, ringSubmitLinkedTimeout, fillSqe, ringGetSqeFlush,
    ioUringGetSqe, hwrite, htimeout, Daemon.queue, countFailed, note, cleanupConnection,
    cancelActiveRequest, hm, hb, hd, daemonUnmarkConnectionDirty, connFree, Daemon.pushFree,
    Daemon.setConn, Sqe.slot?]

/-- A descriptor that arrives when one entry is left. -/
theorem recvFd_strand {s : Daemon} {ω : Env} {fd : Fd} {cqe : Cqe}
    (hcqe : cqe = ⟨.recvFd, i, 0, false, 0⟩) (hroom : s.sq.length + 1 = s.cfg.entries)
    (hm : s.cfg.mode = .direct) (hb : s.cfg.benchmarkMode = false)
    (hmax : i < s.cfg.maxConnections) (hs : (s.connections i).state = .receivingFd)
    (hrights : (s.connections i).recv.control = [.rights [fd]])
    (hsock : ω.soType fd = some .stream) (hd : (s.connections i).onDirtyList = false) :
    let t := s.exec (do
      popCqe rest
      processCqe cqe) ω
    ∃ r ∈ t.sq, r.slot? = some i ∧ r.gen = s.gen i ∧ t.gen i = s.gen i + 1 := by
  subst hcqe
  simp only [Daemon.exec, Act.final]
  simp [popCqe, processCqe, processRecvFd, connGet, hmax, connOf, hs, handleRecvFd, updateConn,
    Daemon.setConn, handoffExtractFd, hrights, handoffValidateSocket, hsock, parseHandoff,
    startResponse, hm, note, startStreaming]
  refine submitOrCleanup_strand hroom hm hb ?_
  simpa [streamStart] using hd

/-- **A slot can be handed out under an operation**, with the default sizes of the ring and the pool.
8191 connections arrive in a burst, and behind them the descriptor of an earlier one. Its receive is
handled when a single entry is left: the write of the headers takes it, the timeout finds none, and
`start_streaming` frees the connection with the write still queued, for a slot that is free for the
next client. -/
theorem not_isolated_of_burst : ∃ s, (system demoConfig).Reachable s ∧ ¬ s.Isolated := by
  let recv : Sqe := ⟨.recvmsg (some 10) (some 0) 4096, 0, 0⟩
  obtain ⟨n, hn, hn'⟩ : ∃ n, n + 1 = demoConfig.entries ∧ n ≤ 9999 := ⟨8191, rfl, by decide⟩
  obtain ⟨s₁, h₁, hin, hcq, hsq, hcfg, hfree, hnext, ⟨hstate, hlist, hctl⟩, hfresh, hgen, hpc⟩ :
      ∃ s, (system demoConfig).run ((Daemon.boot demoConfig).submit 1) acceptOne = some s ∧
        s.inflight = [acceptSqe, recv] ∧ s.cq = [] ∧ s.sq = [] ∧ s.cfg = demoConfig ∧
        s.freeList = some 1 ∧
        s.nextFree = Function.update (freeLink defaultMaxConnections) 0 none ∧
        ((s.connections 0).state = .receivingFd ∧ (s.connections 0).onDirtyList = false ∧
          (s.connections 0).recv.controlLen = controlMsgSize) ∧
        (∀ j, j ≠ 0 → s.connections j = .initial) ∧ s.gen 0 = 0 ∧ s.pc = .wait := by
    refine ⟨_, rfl, rfl, rfl, rfl, rfl, rfl, rfl, ⟨rfl, rfl, rfl⟩, fun j hj => ?_, rfl, rfl⟩
    obtain ⟨k, rfl⟩ := Nat.exists_eq_succ_of_ne_zero hj
    rfl
  -- the burst arrives, and behind it the descriptor for the first connection
  let accepts : List Label := List.replicate n (.kernel (.complete acceptSqe 12 true))
  let s₂ : Daemon := { s₁ with cq := s₁.cq ++ List.replicate n (acceptedCqe 12) }
  have h₂ : (system demoConfig).run s₁ accepts = some s₂ :=
    run_accepts _ (by simp [hin]) n
  let s₃ : Daemon := { s₂.deliver recv 4096 ⟨[], [11]⟩ with pc := .events }
  have h₃ : (system demoConfig).run s₂ [.kernel (.deliver recv ⟨[], [11]⟩), .woken] = some s₃ := by
    have hmem : recv ∈ s₂.inflight := by simp [s₂, hin]
    have hne : (s₂.deliver recv 4096 ⟨[], [11]⟩).cq ≠ [] := by simp [Daemon.deliver, Daemon.finish]
    have hwait : (s₂.deliver recv 4096 ⟨[], [11]⟩).pc = .wait := hpc
    simp only [System.run_cons, system, step, kernelStep, recv, if_pos hmem, Option.bind_some,
      loopStep, hwait, if_neg hne, System.run_nil, s₃]
  have hconn₃ : ∀ j, j ≠ 0 → s₃.connections j = .initial := by
    intro j hj
    simp [s₃, s₂, Daemon.deliver, Daemon.finish, Daemon.setConn, recv, hj, hfresh j hj]
  have hlinked : Linked s₃.nextFree s₃.freeList (List.range' 1 9999) := by
    change Linked s₁.nextFree s₁.freeList _
    rw [hnext, hfree]
    refine (linked_freeLink defaultMaxConnections 1 9999 rfl).congr fun j hj => ?_
    have hpos := (List.mem_range'_1.mp hj).1
    exact Function.update_of_ne (Nat.ne_of_gt hpos) ..
  have hzero : (0 : ConnId) ∉ List.range' 1 9999 := by
    intro h
    have := (List.mem_range'_1.mp h).1
    omega
  have hcq₃ : s₃.cq = List.replicate n (acceptedCqe 12) ++ [⟨.recvFd, 0, 0, false, 0⟩] := by
    simp [s₃, s₂, hcq, Daemon.deliver, Daemon.finish, Daemon.setConn, recv, Sqe.cqe, Request.op]
  have hroom₃ : s₃.sq.length + n ≤ s₃.cfg.entries := by
    change s₁.sq.length + n ≤ s₁.cfg.entries
    rw [hsq, hcfg, List.length_nil, Nat.zero_add]
    exact (Nat.le_succ n).trans (Nat.le_of_eq hn)
  have hlen : n ≤ (List.range' 1 9999).length := by simpa using hn'
  have hbuf₃ : ∀ j ∈ List.range' 1 9999, (s₃.connections j).handoffBuf = none := by
    intro j hj
    rw [hconn₃ j (ne_of_mem_of_not_mem hj hzero)]
    rfl
  have hquiet₃ : s₃.cfg.benchmarkMode = false := by
    change s₁.cfg.benchmarkMode = false
    rw [hcfg]
    rfl
  obtain ⟨s₄, h₄, hu, hcq₄, hsq₄, hconn₄⟩ := run_burst (ω := .willing) demoConfig (fun _ => rfl) rfl
    hcq₃ hroom₃ hlinked List.nodup_range' hlen hbuf₃ hquiet₃
  -- its receive is handled last
  have hcfg₄ : s₄.cfg = demoConfig := hu.cfg.trans hcfg
  have h0 : s₄.connections 0 = (s₁.connections 0).receive
      ((⟨[], [11]⟩ : Message).recv 4096 (controlFdRoom (s₁.connections 0).recv.controlLen)) := by
    rw [hconn₄ 0 hzero]
    exact Function.update_self 0 _ s₂.connections
  have hroom₄ : s₄.sq.length + 1 = s₄.cfg.entries := by
    rw [hsq₄, hcfg₄]
    change s₁.sq.length + n + 1 = _
    rw [hsq, List.length_nil, Nat.zero_add]
    exact hn
  have hrights : (s₄.connections 0).recv.control = [.rights [11]] := by
    rw [h0, hctl]
    rfl
  obtain ⟨r, hr, hslot, hrgen, hgen₄⟩ : ∃ r ∈ (s₄.exec (do
      popCqe []
      processCqe ⟨.recvFd, 0, 0, false, 0⟩) .willing).sq, r.slot? = some 0 ∧ r.gen = s₄.gen 0 ∧
      (s₄.exec (do
        popCqe []
        processCqe ⟨.recvFd, 0, 0, false, 0⟩) .willing).gen 0 = s₄.gen 0 + 1 :=
    recvFd_strand rfl hroom₄ (by rw [hcfg₄]; rfl) (by rw [hcfg₄]; rfl) (by rw [hcfg₄]; decide)
      (by rw [h0]; exact hstate) hrights rfl (by rw [h0]; exact hlist)
  have h₅ : (system demoConfig).run s₄ [.event .willing] = some (s₄.exec (do
      popCqe []
      processCqe ⟨.recvFd, 0, 0, false, 0⟩) .willing) := by
    have hpc₄ : s₄.pc = .events := hu.pc
    simp only [System.run_cons, system, step, loopStep, hpc₄, hcq₄, Option.bind_some,
      System.run_nil]
  have hboot : (system demoConfig).Reachable ((Daemon.boot demoConfig).submit 1) := .init ⟨1, rfl⟩
  refine ⟨_, hboot.run _ (System.run_append h₁ (System.run_append h₂ (System.run_append h₃
    (System.run_append h₄ h₅)))), fun hiso => ?_⟩
  have hgen₅ := (hiso.entries r (List.mem_append_left _ hr) 0 hslot).1
  rw [hrgen, hgen₄] at hgen₅
  exact absurd hgen₅ (Nat.ne_of_lt (Nat.lt_succ_self _))

end SocketHandoff.Uring
