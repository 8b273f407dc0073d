import SocketHandoff.Lib.System

/-!
# Shutdown of the Go daemon

The accept loop, the handler goroutines and the shutdown sequence of `main` in
`streaming_daemon.go`. Three parties move on their own: peers that complete `connect` and
`sendmsg` and so join the kernel queue of the listener, the accept loop with the goroutines it
starts in `connWg`, and the goroutine of `main`, which waits for the signal, closes the listener
and drains.

A handoff is a number. Its client has been answered once the goroutine that took it finishes:
`rejectHandoff` answers with 503, `handleConnection` serves.
-/

namespace SocketHandoff.Go

/-! ## Data -/

/-- Where the accept loop is. -/
inductive AcceptLoop
  /-- in `listener.Accept` -/
  | accepting
  /-- sleeping after an accept error -/
  | errorSleep
  /-- a connection has been accepted, the context not yet checked -/
  | accepted (h : Nat)
  /-- the context was not cancelled; about to take a slot of the semaphore -/
  | checked (h : Nat)
  /-- the limit was reached; backing off -/
  | backingOff
  /-- the loop has returned and `acceptDone` is closed -/
  | done
  deriving DecidableEq, Repr

/-- What a goroutine of `connWg` is about to do. -/
inductive Job
  /-- `rejectHandoff` -/
  | reject
  /-- the second look at the context -/
  | recheck
  /-- `rejectHandoff` while a slot of the semaphore is held -/
  | rejectHolding
  /-- `safeHandleConnection` -/
  | handle
  deriving DecidableEq, Repr

/-- Whether the goroutine holds a slot of `connSemaphore`. -/
def Job.holdsSlot : Job → Bool
  | .reject => false
  | .recheck | .rejectHolding | .handle => true

/-- Where `main` is. -/
inductive Main
  /-- at `<-ctx.Done()` -/
  | serving
  /-- the listener is closed; at `<-acceptDone` -/
  | awaitAccept
  /-- waiting for `connWg`, at most `ShutdownTimeout` -/
  | draining
  /-- `drainCancel` has been called; waiting at most `DrainCancelGrace` -/
  | cancelling
  | exited
  deriving DecidableEq, Repr

/-- The daemon and the kernel queue of its listener. -/
structure Daemon where
  maxConnections : Nat
  /-- `ctx` is cancelled -/
  cancelled : Bool
  /-- connections waiting to be accepted, each with its message -/
  queue : List Nat
  /-- number of the next handoff -/
  next : Nat
  loop : AcceptLoop
  /-- slots of `connSemaphore` that are taken -/
  slots : Nat
  connWg : List (Nat × Job)
  main : Main
  answered : List Nat
  /-- the handoffs that were in the kernel queue when the context was cancelled -/
  owed : List Nat
  deriving DecidableEq, Repr

/-- The daemon when it starts to listen: nothing is queued, nobody has been answered and nothing is
owed. What is owed is recorded at the signal, from the kernel's queue of that moment, and no step
reads it. -/
def Daemon.start (maxConnections : Nat) : Daemon where
  maxConnections := maxConnections
  cancelled := false
  queue := []
  next := 0
  loop := .accepting
  slots := 0
  connWg := []
  main := .serving
  answered := []
  owed := []

/-! ## Steps -/

/-- Who moves, and how. -/
inductive Label
  /-- a peer has completed `connect` and `sendmsg` -/
  | arrive
  /-- `listener.Accept` returns a connection -/
  | accept
  /-- `listener.Accept` returns an error -/
  | acceptError
  | wake
  /-- the accept loop looks at the context -/
  | check
  /-- the accept loop tries to take a slot -/
  | acquire
  /-- the backoff of 10 ms is over -/
  | backoffOver
  /-- the backoff ends because the context is cancelled -/
  | backoffCancelled
  /-- a goroutine looks at the context again -/
  | recheck (i : Nat)
  /-- a goroutine of `connWg` finishes -/
  | finish (i : Nat)
  /-- SIGTERM or SIGINT -/
  | signal
  /-- `listener.Close()` -/
  | closeListener
  /-- `main` sees `acceptDone` -/
  | acceptDone
  /-- `main` sees `done`: `connWg.Wait` has returned -/
  | drained
  /-- `ShutdownTimeout` runs out -/
  | drainTimeout
  /-- `DrainCancelGrace` runs out -/
  | graceTimeout
  /-- another signal, with the default handling restored -/
  | secondSignal
  deriving DecidableEq, Repr

/-- The accept loop with a connection it has just accepted. -/
def Daemon.check (d : Daemon) (h : Nat) : Daemon :=
  if d.cancelled then { d with connWg := d.connWg ++ [(h, .reject)], loop := .done }
  else { d with loop := .checked h }

/-- The accept loop at the semaphore. -/
def Daemon.acquire (d : Daemon) (h : Nat) : Daemon :=
  if d.slots < d.maxConnections then
    { d with
      slots := d.slots + 1
      connWg := d.connWg ++ [(h, .recheck)]
      loop := .accepting }
  else { d with connWg := d.connWg ++ [(h, .reject)], loop := .backingOff }

@[simp, grind =] theorem check_main (d : Daemon) (h : Nat) : (d.check h).main = d.main := by
  simp only [Daemon.check]
  split <;> rfl

@[simp, grind =] theorem check_queue (d : Daemon) (h : Nat) : (d.check h).queue = d.queue := by
  simp only [Daemon.check]
  split <;> rfl

@[simp, grind =] theorem acquire_main (d : Daemon) (h : Nat) : (d.acquire h).main = d.main := by
  simp only [Daemon.acquire]
  split <;> rfl

@[simp, grind =] theorem acquire_queue (d : Daemon) (h : Nat) :
    (d.acquire h).queue = d.queue := by
  simp only [Daemon.acquire]
  split <;> rfl

/-- The goroutine of a handoff with a slot. -/
def Daemon.recheck (d : Daemon) (i h : Nat) : Daemon :=
  { d with connWg := d.connWg.set i (h, if d.cancelled then .rejectHolding else .handle) }

/-- A goroutine finishes and its client has been answered. -/
def Daemon.finish (d : Daemon) (i h : Nat) (job : Job) : Daemon :=
  { d with
    connWg := d.connWg.eraseIdx i
    slots := if job.holdsSlot then d.slots - 1 else d.slots
    answered := d.answered ++ [h] }

/-- One step while the process lives. The queue of the kernel is part of the state, since a peer
whose handoff lies in it has done all of its part. Closing the listener empties the queue without a
word to those in it, which is why it matters what comes first after the signal. -/
def stepAlive (d : Daemon) : Label → Option Daemon
  | .arrive =>
    -- a closed listener refuses connections
    if d.main = .serving then
      some { d with queue := d.queue ++ [d.next], next := d.next + 1 }
    else none
  | .accept =>
    match d.loop, d.queue with
    | .accepting, h :: rest => some { d with queue := rest, loop := .accepted h }
    | _, _ => none
  | .acceptError =>
    if d.loop = .accepting then
      some { d with loop := if d.cancelled then .done else .errorSleep }
    else none
  | .wake => if d.loop = .errorSleep then some { d with loop := .accepting } else none
  | .check =>
    match d.loop with
    | .accepted h => some (d.check h)
    | _ => none
  | .acquire =>
    match d.loop with
    | .checked h => some (d.acquire h)
    | _ => none
  | .backoffOver => if d.loop = .backingOff then some { d with loop := .accepting } else none
  | .backoffCancelled =>
    if d.loop = .backingOff ∧ d.cancelled then some { d with loop := .done } else none
  | .recheck i =>
    match d.connWg[i]? with
    | some (h, .recheck) => some (d.recheck i h)
    | _ => none
  | .finish i =>
    match d.connWg[i]? with
    | some (h, job) => if job = .recheck then none else some (d.finish i h job)
    | none => none
  | .signal => if d.cancelled then none else some { d with cancelled := true, owed := d.queue }
  | .closeListener =>
    -- the kernel discards what is left in the queue
    if d.main = .serving ∧ d.cancelled then
      some { d with queue := [], main := .awaitAccept }
    else none
  | .acceptDone =>
    if d.main = .awaitAccept ∧ d.loop = .done then some { d with main := .draining } else none
  | .drained =>
    if (d.main = .draining ∨ d.main = .cancelling) ∧ d.connWg = [] then
      some { d with main := .exited }
    else none
  | .drainTimeout => if d.main = .draining then some { d with main := .cancelling } else none
  | .graceTimeout => if d.main = .cancelling then some { d with main := .exited } else none
  | .secondSignal => if d.cancelled then some { d with main := .exited } else none

/-- One step of the daemon; nothing moves once the process has exited. -/
def step (d : Daemon) (label : Label) : Option Daemon :=
  if d.main = .exited then none else stepAlive d label

/-- The daemon as a system. -/
def system (maxConnections : Nat) : System Daemon Label where
  init d := d = .start maxConnections
  step := step

/-! ## Nobody is left unanswered -/

/-- **The promise of the README**: when the process has exited, every handoff that was queued
when shutdown began has been answered. -/
def Daemon.AllAnswered (d : Daemon) : Prop :=
  d.main = .exited → ∀ h ∈ d.owed, h ∈ d.answered

instance (d : Daemon) : Decidable d.AllAnswered :=
  inferInstanceAs (Decidable (d.main = .exited → ∀ h ∈ d.owed, h ∈ d.answered))

/-- **The condition on a step**: the listener is closed only when no handoff that was queued at
the start of the shutdown is in the queue any more, and as long as one of them is unanswered neither
the grace period runs out nor does another signal come. A process that leaves because `connWg` is
done needs no condition. -/
def Orderly (d : Daemon) (label : Label) : Prop :=
  (label = .closeListener → ∀ h ∈ d.owed, h ∉ d.queue) ∧
    (label = .graceTimeout ∨ label = .secondSignal → ∀ h ∈ d.owed, h ∈ d.answered)

/-- The handoff the accept loop has in hand. -/
def AcceptLoop.holds : AcceptLoop → List Nat
  | .accepted h | .checked h => [h]
  | .accepting | .errorSleep | .backingOff | .done => []

/-- The handoffs that are answered or somewhere on the way to it. -/
def Daemon.accounted (d : Daemon) : List Nat :=
  d.answered ++ d.connWg.map Prod.fst ++ d.loop.holds ++ d.queue

/-! ## What a step does -/

variable {d d' : Daemon} {label : Label} {h : Nat}

/-- The steps of a living process, with what they need and what they leave. -/
inductive Moves (d : Daemon) : Label → Daemon → Prop
  | arrive : d.main = .serving →
      Moves d .arrive { d with queue := d.queue ++ [d.next], next := d.next + 1 }
  | accept (h : Nat) (rest : List Nat) : d.loop = .accepting → d.queue = h :: rest →
      Moves d .accept { d with queue := rest, loop := .accepted h }
  | acceptError : d.loop = .accepting →
      Moves d .acceptError { d with loop := if d.cancelled then .done else .errorSleep }
  | wake : d.loop = .errorSleep → Moves d .wake { d with loop := .accepting }
  | check (h : Nat) : d.loop = .accepted h → Moves d .check (d.check h)
  | acquire (h : Nat) : d.loop = .checked h → Moves d .acquire (d.acquire h)
  | backoffOver : d.loop = .backingOff → Moves d .backoffOver { d with loop := .accepting }
  | backoffCancelled : d.loop = .backingOff →
      Moves d .backoffCancelled { d with loop := .done }
  | recheck (i h : Nat) : d.connWg[i]? = some (h, .recheck) →
      Moves d (.recheck i) (d.recheck i h)
  | finish (i h : Nat) (job : Job) : d.connWg[i]? = some (h, job) →
      Moves d (.finish i) (d.finish i h job)
  | signal : Moves d .signal { d with cancelled := true, owed := d.queue }
  | closeListener : Moves d .closeListener { d with queue := [], main := .awaitAccept }
  | acceptDone : d.main = .awaitAccept → d.loop = .done →
      Moves d .acceptDone { d with main := .draining }
  | drained : d.main = .draining ∨ d.main = .cancelling → d.connWg = [] →
      Moves d .drained { d with main := .exited }
  | drainTimeout : d.main = .draining → Moves d .drainTimeout { d with main := .cancelling }
  | graceTimeout : Moves d .graceTimeout { d with main := .exited }
  | secondSignal : Moves d .secondSignal { d with main := .exited }

theorem mem_accounted : h ∈ d.accounted ↔
    h ∈ d.answered ∨ (∃ job, (h, job) ∈ d.connWg) ∨ h ∈ d.loop.holds ∨ h ∈ d.queue := by
  simp [Daemon.accounted]

/-- A goroutine that leaves `connWg` takes only its own handoff with it. -/
theorem mem_eraseIdx_or {wg : List (Nat × Job)} {i k : Nat} {job job' : Job}
    (hi : wg[i]? = some (k, job)) (hmem : (h, job') ∈ wg) :
    h = k ∨ (h, job') ∈ wg.eraseIdx i := by
  obtain ⟨n, hn⟩ := List.mem_iff_getElem?.mp hmem
  by_cases hni : n = i
  · subst hni
    rw [hi] at hn
    exact .inl (congrArg Prod.fst (Option.some.inj hn)).symm
  · exact .inr (List.mem_eraseIdx_iff_getElem?.mpr ⟨n, hni, hn⟩)

/-- A goroutine that moves on keeps its handoff in `connWg`. -/
theorem exists_mem_set {wg : List (Nat × Job)} {i k : Nat} {job job' : Job} (new : Job)
    (hi : wg[i]? = some (k, job)) (hmem : (h, job') ∈ wg) :
    ∃ job'', (h, job'') ∈ wg.set i (k, new) := by
  have hlt := (List.getElem?_eq_some_iff.mp hi).1
  obtain ⟨n, hn⟩ := List.mem_iff_getElem?.mp hmem
  by_cases hni : n = i
  · subst hni
    rw [hi] at hn
    obtain rfl : k = h := congrArg Prod.fst (Option.some.inj hn)
    exact ⟨new, List.mem_set hlt _⟩
  · refine ⟨job', List.mem_iff_getElem?.mpr ⟨n, ?_⟩⟩
    rw [List.getElem?_set_ne (Ne.symm hni), hn]

/-- **Only closing the listener loses a handoff**: whatever else happens, one that is answered
or on the way stays so. -/
theorem accounted_step (hne : label ≠ .closeListener) (hm : Moves d label d') {k : Nat}
    (hk : k ∈ d.accounted) : k ∈ d'.accounted := by
  rw [mem_accounted] at hk ⊢
  cases hm with
  | closeListener => exact absurd rfl hne
  | arrive => 
    simp only [List.mem_append]
    grind
  | accept h rest hl hq =>
    simp only [hl, hq, AcceptLoop.holds, List.mem_cons] at hk ⊢
    grind
  | acceptError hl =>
    by_cases hc : d.cancelled <;> simpa [hl, hc, AcceptLoop.holds] using hk
  | wake hl | backoffOver hl | backoffCancelled hl => simpa [hl, AcceptLoop.holds] using hk
  | check h hl =>
    by_cases hc : d.cancelled
    · simp only [Daemon.check, if_pos hc, hl, AcceptLoop.holds, List.mem_append,
        List.mem_singleton, Prod.mk.injEq, exists_or] at hk ⊢
      grind
    · simpa [Daemon.check, if_neg hc, hl, AcceptLoop.holds] using hk
  | acquire h hl =>
    by_cases hs : d.slots < d.maxConnections <;>
    · simp only [Daemon.acquire, hs, if_true, if_false, hl, AcceptLoop.holds, List.mem_append,
        List.mem_singleton, Prod.mk.injEq, exists_or] at hk ⊢
      grind
  | recheck i h hi =>
    rcases hk with ha | ⟨job, hwg⟩ | hrest
    · exact .inl ha
    · exact .inr (.inl (exists_mem_set _ hi hwg))
    · exact .inr (.inr hrest)
  | finish i h job hi =>
    rcases hk with ha | ⟨job', hwg⟩ | hrest
    · exact .inl (List.mem_append_left _ ha)
    · rcases mem_eraseIdx_or hi hwg with rfl | hleft
      · exact .inl (List.mem_append_right _ (List.mem_singleton_self _))
      · exact .inr (.inl ⟨job', hleft⟩)
    · exact .inr (.inr hrest)
  | signal | acceptDone | drained | drainTimeout | graceTimeout | secondSignal => exact hk

/-- **The invariant of an orderly run**: an owed handoff is accounted for, `main` gets to draining
only when the queue and the loop have nothing left, and it exits only when all is answered. -/
structure Kept (d : Daemon) : Prop where
  owed : ∀ h ∈ d.owed, h ∈ d.accounted
  closed : d.main = .awaitAccept ∨ d.main = .draining ∨ d.main = .cancelling → d.queue = []
  loopDone : d.main = .draining ∨ d.main = .cancelling → d.loop = .done
  answered : d.AllAnswered

/-- While it drains, an owed handoff is answered or in the hands of a goroutine. -/
theorem Kept.drained (hk : Kept d) (hmain : d.main = .draining ∨ d.main = .cancelling)
    (hwg : d.connWg = []) : ∀ h ∈ d.owed, h ∈ d.answered := by
  intro h hmem
  rcases mem_accounted.mp (hk.owed h hmem) with ha | ⟨job, hj⟩ | hl | hq
  · exact ha
  · rw [hwg] at hj
    cases hj
  · rw [hk.loopDone hmain] at hl
    cases hl
  · rw [hk.closed (.inr hmain)] at hq
    cases hq

end SocketHandoff.Go
