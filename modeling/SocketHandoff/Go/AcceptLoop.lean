import SocketHandoff.Lib.System
import Mathlib.Data.List.Count

/-!
# The accounts of the Go daemon's accept loop

The accept loop of `main` in `streaming_daemon.go`, the goroutines it starts in `connWg` and the
drain of `main`, one operation on shared state at a time: taking a slot of `connSemaphore`, adding
to `activeConns`, starting a goroutine, giving the slot back, subtracting from `activeConns` and
`connWg.Done` are steps of their own, and any other party may move between two of them.

An accepted connection is a number. The lists `passed`, `taken` and `released` record what has
been done with each, and nothing the code does depends on them.
-/

namespace SocketHandoff.Go.AcceptLoop

/-! ## Data -/

/-- Where the accept loop is. -/
inductive Loop
  /-- in `listener.Accept` -/
  | accepting
  /-- `Accept` has failed; about to look at the context -/
  | failed
  | errorSleep
  /-- about to look at the context -/
  | accepted (conn : Nat)
  /-- about to start the goroutine that rejects, and return -/
  | shuttingDown (conn : Nat)
  /-- about to try the semaphore -/
  | checked (conn : Nat)
  /-- a slot is taken, `activeConns` not yet raised -/
  | slotTaken (conn : Nat)
  /-- about to start the goroutine that handles -/
  | counted (conn : Nat)
  /-- the limit is reached; about to start the goroutine that rejects -/
  | full (conn : Nat)
  | backingOff
  /-- about to close `acceptDone` -/
  | returning
  | done
  deriving DecidableEq, Repr

/-- Where a goroutine of `connWg` is. -/
inductive Goroutine
  /-- about to call `rejectHandoff`, without a slot -/
  | toReject
  /-- in `rejectHandoff`, without a slot -/
  | rejecting
  /-- about to look at the context again -/
  | recheck
  /-- in `rejectHandoff`, with a slot -/
  | rejectHolding
  /-- in `safeHandleConnection` -/
  | handling
  /-- in the deferred function, about to receive from `connSemaphore` -/
  | leaving (panicked : Bool)
  /-- the slot is given back, `activeConns` not yet lowered -/
  | released (panicked : Bool)
  /-- about to leave `connWg`, or to take the process with it -/
  | ending (panicked : Bool)
  deriving DecidableEq, Repr

/-- The functions an accepted connection is passed to. -/
inductive Handler
  | rejectHandoff
  | safeHandleConnection
  deriving DecidableEq, Repr

/-- Where `main` is. -/
inductive Main
  /-- at `<-ctx.Done()` -/
  | serving
  /-- the listener is closed; at `<-acceptDone` -/
  | awaitAccept
  /-- waiting for `connWg`, at most `ShutdownTimeout` -/
  | draining
  /-- waiting at most `DrainCancelGrace` more -/
  | cancelling
  | exited
  deriving DecidableEq, Repr

/-- The state that the parties share, where each of them is, and the records. -/
structure Daemon where
  /-- the capacity of `connSemaphore` -/
  maxConnections : Nat
  cancelled : Bool
  loop : Loop
  /-- elements in `connSemaphore` -/
  slots : Nat
  activeConns : Int
  connWg : List (Nat × Goroutine)
  main : Main
  /-- `connWg.Wait` has been called -/
  waitBegun : Bool
  /-- number of the next connection -/
  next : Nat
  passed : List (Nat × Handler)
  /-- the connections a slot was acquired for -/
  taken : List Nat
  /-- the connections whose slot was given back -/
  released : List Nat
  deriving DecidableEq, Repr

/-- The daemon when the accept loop starts: the semaphore is empty, `main` serves, and nobody has
been accepted. The lists record what has been passed on, taken and given back; they are not in the
code, and no step reads them. -/
def Daemon.start (maxConnections : Nat) : Daemon where
  maxConnections := maxConnections
  cancelled := false
  loop := .accepting
  slots := 0
  activeConns := 0
  connWg := []
  main := .serving
  waitBegun := false
  next := 0
  passed := []
  taken := []
  released := []

/-! ## Steps -/

/-- Who moves, and how. -/
inductive Label
  /-- `listener.Accept` returns a connection -/
  | accept
  /-- `listener.Accept` returns an error -/
  | acceptError
  /-- the accept loop goes on -/
  | loop
  /-- the backoff of 10 ms is over -/
  | backoffOver
  /-- a goroutine goes on; what it is in returns or panics -/
  | goroutine (i : Nat) (panics : Bool)
  /-- SIGTERM or SIGINT -/
  | signal
  /-- `listener.Close()` -/
  | closeListener
  /-- `main` sees `acceptDone` -/
  | acceptDone
  /-- `connWg.Wait` is called -/
  | beginWait
  /-- `main` sees `done`: `connWg.Wait` has returned -/
  | drained
  /-- `ShutdownTimeout` runs out -/
  | drainTimeout
  /-- `DrainCancelGrace` runs out -/
  | graceTimeout
  /-- another signal, with the default handling restored -/
  | secondSignal
  deriving DecidableEq, Repr

/-- `connWg.Go`. -/
def Daemon.go (d : Daemon) (conn : Nat) (g : Goroutine) (loop : Loop) : Daemon :=
  { d with connWg := d.connWg ++ [(conn, g)], loop := loop }

/-- The next step of the accept loop. Each step is one operation that another thread can see: the
check of the context, the send on the semaphore, the counter, and the start of the goroutine. The
send never blocks, because the code selects it with a default, which is the branch of a full
semaphore. -/
def Daemon.loopStep (d : Daemon) : Option Daemon :=
  match d.loop with
  | .accepting | .done => none
  | .failed => some { d with loop := if d.cancelled then .returning else .errorSleep }
  | .errorSleep => some { d with loop := .accepting }
  | .accepted conn => some { d with loop := if d.cancelled then .shuttingDown conn else .checked conn }
  | .shuttingDown conn => some (d.go conn .toReject .returning)
  | .checked conn =>
    if d.slots < d.maxConnections then
      some { d with slots := d.slots + 1, taken := d.taken ++ [conn], loop := .slotTaken conn }
    else some { d with loop := .full conn }
  | .slotTaken conn => some { d with activeConns := d.activeConns + 1, loop := .counted conn }
  | .counted conn => some (d.go conn .recheck .accepting)
  | .full conn => some (d.go conn .toReject .backingOff)
  | .backingOff => if d.cancelled then some { d with loop := .returning } else none
  | .returning => some { d with loop := .done }

/-- The connection is passed to `handler` by its goroutine. -/
def Daemon.pass (d : Daemon) (i conn : Nat) (handler : Handler) (g : Goroutine) : Daemon :=
  { d with connWg := d.connWg.set i (conn, g), passed := d.passed ++ [(conn, handler)] }

/-- A goroutine moves on. -/
def Daemon.become (d : Daemon) (i conn : Nat) (g : Goroutine) : Daemon :=
  { d with connWg := d.connWg.set i (conn, g) }

/-- The next step of a goroutine, which may panic where it runs a handler. The deferred functions
run in both cases, so that the slot is given back and the counter lowered before a panic that nobody
recovers takes the process with it. -/
def Daemon.goroutineStep (d : Daemon) (i conn : Nat) (panics : Bool) :
    Goroutine → Option Daemon
  | .toReject => some (d.pass i conn .rejectHandoff .rejecting)
  | .rejecting => some (d.become i conn (.ending panics))
  | .recheck =>
    if d.cancelled then some (d.pass i conn .rejectHandoff .rejectHolding)
    else some (d.pass i conn .safeHandleConnection .handling)
  | .rejectHolding => some (d.become i conn (.leaving panics))
  -- `safeHandleConnection` recovers from a panic of the handler
  | .handling => some (d.become i conn (.leaving false))
  | .leaving panicked =>
    -- a receive from an empty channel blocks
    if d.slots = 0 then none
    else
      some { d.become i conn (.released panicked) with
        slots := d.slots - 1
        released := d.released ++ [conn] }
  | .released panicked =>
    some { d.become i conn (.ending panicked) with activeConns := d.activeConns - 1 }
  | .ending panicked =>
    if panicked then some { d with main := .exited }
    else some { d with connWg := d.connWg.eraseIdx i }

/-- One step while the process lives: of the accept loop, of a goroutine, of `main`, or of the world
outside. A label says who moves and what the world answers, so that a list of labels is an
interleaving, and a step that its party cannot make has no result. -/
def stepAlive (d : Daemon) : Label → Option Daemon
  | .accept =>
    -- a closed listener has no connections
    if d.loop = .accepting ∧ d.main = .serving then
      some { d with loop := .accepted d.next, next := d.next + 1 }
    else none
  | .acceptError => if d.loop = .accepting then some { d with loop := .failed } else none
  | .loop => d.loopStep
  | .backoffOver => if d.loop = .backingOff then some { d with loop := .accepting } else none
  | .goroutine i panics => d.connWg[i]?.bind fun e => d.goroutineStep i e.1 panics e.2
  | .signal => some { d with cancelled := true }
  | .closeListener =>
    if d.main = .serving ∧ d.cancelled then some { d with main := .awaitAccept } else none
  | .acceptDone =>
    if d.main = .awaitAccept ∧ d.loop = .done then some { d with main := .draining } else none
  | .beginWait =>
    if d.main = .draining ∨ d.main = .cancelling then some { d with waitBegun := true } else none
  | .drained =>
    if (d.main = .draining ∨ d.main = .cancelling) ∧ d.waitBegun ∧ d.connWg = [] then
      some { d with main := .exited }
    else none
  | .drainTimeout => if d.main = .draining then some { d with main := .cancelling } else none
  | .graceTimeout => if d.main = .cancelling then some { d with main := .exited } else none
  | .secondSignal => if d.cancelled then some { d with main := .exited } else none

/-- One step of the daemon; nothing moves once the process has exited. -/
def step (d : Daemon) (label : Label) : Option Daemon :=
  if d.main = .exited then none else stepAlive d label

/-- The daemon as a system. -/
def system (maxConnections : Nat) : System Daemon Label where
  init d := d = .start maxConnections
  step := step

/-! ## Accounts -/

/-- The connection the accept loop still has to start a goroutine for. -/
def Loop.holds : Loop → List Nat
  | .accepted conn | .shuttingDown conn | .checked conn | .slotTaken conn | .counted conn
  | .full conn => [conn]
  | _ => []

/-- The connection the accept loop holds a slot for. -/
def Loop.holdsSlot : Loop → List Nat
  | .slotTaken conn | .counted conn => [conn]
  | _ => []

/-- The connection that may get a slot. -/
def Loop.beforeSlot : Loop → List Nat
  | .accepted conn | .checked conn => [conn]
  | _ => []

/-- Neither `rejectHandoff` nor `safeHandleConnection` has been called. -/
def Goroutine.undecided : Goroutine → Bool
  | .toReject | .recheck => true
  | _ => false

def Goroutine.holdsSlot : Goroutine → Bool
  | .recheck | .rejectHolding | .handling | .leaving _ => true
  | _ => false

/-- Between the receive from `connSemaphore` and the update of `activeConns`. -/
def Goroutine.between : Goroutine → Bool
  | .released _ => true
  | _ => false

/-- The connections of the goroutines that are where `p` says. -/
def conns (p : Goroutine → Bool) (wg : List (Nat × Goroutine)) : List Nat :=
  (wg.filter (p ·.2)).map Prod.fst

/-- The connections that are accepted and not passed to a handler yet. -/
def Daemon.pending (d : Daemon) : List Nat := d.loop.holds ++ conns Goroutine.undecided d.connWg

/-- The connections whose slot is held. -/
def Daemon.holders (d : Daemon) : List Nat := d.loop.holdsSlot ++ conns Goroutine.holdsSlot d.connWg

/-- The goroutines inside `safeHandleConnection`. -/
def Daemon.inside (d : Daemon) : Nat := (conns (· = .handling) d.connWg).length

/-- The accept loop is between taking a slot and counting it. -/
def Loop.between : Loop → Nat
  | .slotTaken _ => 1
  | _ => 0

/-- The parties that have done one of the two updates and not the other. -/
def Daemon.between (d : Daemon) : Nat × Nat :=
  (d.loop.between, (conns Goroutine.between d.connWg).length)

/-- The next step calls `connWg.Go`. -/
def Loop.AtGo : Loop → Prop
  | .shuttingDown _ | .counted _ | .full _ => True
  | _ => False

/-- **The accounts of the accept loop.** The code keeps them in a semaphore, a gauge and a wait
group, which are changed one after the other; so the gauge is held to the slots only where nobody is
between the two. -/
structure Balanced (maxConnections : Nat) (d : Daemon) : Prop where
  limit : d.inside ≤ maxConnections
  /-- a connection that is not pending was passed to one handler, once -/
  passed : ∀ conn < d.next, (d.passed.map Prod.fst).count conn + d.pending.count conn = 1
  /-- a slot is acquired at most once for a connection, and given back once or still held -/
  slots : ∀ conn, d.taken.count conn ≤ 1 ∧
    d.taken.count conn = d.released.count conn + d.holders.count conn
  held : d.slots = d.holders.length
  active : d.between = (0, 0) → d.activeConns = d.slots
  /-- no `connWg.Go` after `connWg.Wait` has begun -/
  wait : d.waitBegun = true → ¬ d.loop.AtGo

/-! ## What a step does -/

variable {maxConnections : Nat} {d d' : Daemon} {label : Label} {conn : Nat}

/-- **The invariant.** The accounts may differ between two steps of the loop or of a handler, and
where they do it says which difference it is; so the balance that holds of each state comes out of
it by cases on where everybody is. -/
structure Inv (maxConnections : Nat) (d : Daemon) : Prop where
  capacity : d.maxConnections = maxConnections
  limit : d.slots ≤ maxConnections
  passed : ∀ conn, (d.passed.map Prod.fst).count conn + d.pending.count conn =
    if conn < d.next then 1 else 0
  slots : ∀ conn, d.taken.count conn = d.released.count conn + d.holders.count conn
  once : ∀ conn, d.taken.count conn + d.loop.beforeSlot.count conn ≤
    if conn < d.next then 1 else 0
  held : d.slots = d.holders.length
  active : d.activeConns + d.between.1 = d.slots + d.between.2
  stage : d.main = .draining ∨ d.main = .cancelling ∨ d.waitBegun = true → d.loop = .done

theorem inv_start : Inv maxConnections (.start maxConnections) := by
  constructor <;> simp [Daemon.start, Daemon.pending, Daemon.holders, Daemon.between, Loop.holds,
    Loop.holdsSlot, Loop.beforeSlot, Loop.between, conns]

/-! ### The goroutines of `connWg` -/

theorem conns_append (p : Goroutine → Bool) (wg wg' : List (Nat × Goroutine)) :
    conns p (wg ++ wg') = conns p wg ++ conns p wg' := by
  rw [conns, List.filter_append, List.map_append, conns, conns]

theorem conns_cons (p : Goroutine → Bool) (conn : Nat) (g : Goroutine)
    (wg : List (Nat × Goroutine)) :
    conns p ((conn, g) :: wg) = (if p g then [conn] else []) ++ conns p wg := by
  cases h : p g <;> simp [conns, h]

theorem conns_singleton (p : Goroutine → Bool) (conn : Nat) (g : Goroutine) :
    conns p [(conn, g)] = if p g then [conn] else [] := by
  rw [conns_cons]
  exact List.append_nil _

/-- A goroutine that moves on or ends changes its own place only. -/
theorem conns_perm (p : Goroutine → Bool) {wg : List (Nat × Goroutine)} {i : Nat} {g : Goroutine}
    (h : wg[i]? = some (conn, g)) : ∃ rest,
      (conns p wg).Perm ((if p g then [conn] else []) ++ rest) ∧
        (∀ g', (conns p (wg.set i (conn, g'))).Perm ((if p g' then [conn] else []) ++ rest)) ∧
          (conns p (wg.eraseIdx i)).Perm rest := by
  obtain ⟨hi, hget⟩ := List.getElem?_eq_some_iff.mp h
  have hsplit : wg = wg.take i ++ (conn, g) :: wg.drop (i + 1) := by
    rw [← hget, List.getElem_cons_drop, List.take_append_drop]
  have hown : ∀ g', (conns p (wg.take i ++ (conn, g') :: wg.drop (i + 1))).Perm
      ((if p g' then [conn] else []) ++ conns p (wg.take i ++ wg.drop (i + 1))) := by
    intro g'
    rw [conns_append, conns_cons, conns_append]
    exact List.perm_append_comm_assoc _ _ _
  refine ⟨conns p (wg.take i ++ wg.drop (i + 1)), ?_, fun g' => ?_, ?_⟩
  · have hwg := hown g
    rwa [← hsplit] at hwg
  · rw [List.set_eq_take_cons_drop (conn, g') hi]
    exact hown g'
  · rw [List.eraseIdx_eq_take_drop_succ]

/-- What `p` does not tell apart it does not see change. -/
theorem conns_set_perm {p : Goroutine → Bool} {wg : List (Nat × Goroutine)} {i : Nat}
    {g g' : Goroutine} (h : wg[i]? = some (conn, g)) (hp : p g' = p g) :
    (conns p (wg.set i (conn, g'))).Perm (conns p wg) := by
  obtain ⟨rest, hold, hset, -⟩ := conns_perm p h
  have hnew := hset g'
  rw [hp] at hnew
  exact hnew.trans hold.symm

/-! ### The accept loop -/

/-- The accept loop goes on with the same connection in hand, if any. -/
theorem Inv.setLoop {loop : Loop} (h : Inv maxConnections d) (hdone : d.loop ≠ .done)
    (hholds : loop.holds = d.loop.holds) (hslot : loop.holdsSlot = d.loop.holdsSlot)
    (hbefore : loop.beforeSlot = d.loop.beforeSlot ∨ loop.beforeSlot = [])
    (hbetween : loop.between = d.loop.between) : Inv maxConnections { d with loop := loop } where
  capacity := h.capacity
  limit := h.limit
  passed := by simpa only [Daemon.pending, hholds] using h.passed
  slots := by simpa only [Daemon.holders, hslot] using h.slots
  once conn := by
    have honce := h.once conn
    rcases hbefore with hb | hb <;> simp only [hb, List.count_nil] <;> omega
  held := by simpa only [Daemon.holders, hslot] using h.held
  active := by simpa only [Daemon.between, hbetween] using h.active
  stage hmain := absurd (h.stage hmain) hdone

/-- `connWg.Go` hands the connection, and the slot if there is one, to the goroutine. -/
theorem Inv.go {g : Goroutine} {loop : Loop} (h : Inv maxConnections d)
    (hholds : d.loop.holds = [conn]) (hslot : d.loop.holdsSlot = if g.holdsSlot then [conn] else [])
    (hg : g.undecided = true) (hloop : loop.holds = [] ∧ loop.beforeSlot = [])
    (hbetween : d.loop.between = 0 ∧ loop.between = 0) :
    Inv maxConnections (d.go conn g loop) := by
  have hdone : d.loop ≠ .done := fun hd => by rw [hd] at hholds; cases hholds
  have hloopSlot : loop.holdsSlot = [] := by
    cases loop with
    | slotTaken c => exact absurd hloop.1 (List.cons_ne_nil _ _)
    | counted c => exact absurd hloop.1 (List.cons_ne_nil _ _)
    | _ => rfl
  have hout : g.between = false := by cases g <;> first | rfl | cases hg
  have hholders : ∀ c, (d.go conn g loop).holders.count c = d.holders.count c := by
    intro c
    simp only [Daemon.go, Daemon.holders, hslot, hloopSlot, conns_append, conns_singleton,
      List.count_append, List.nil_append]
    omega
  refine ⟨h.capacity, h.limit, fun c => ?_, fun c => ?_, fun c => ?_, ?_, ?_, fun hmain => ?_⟩
  · refine Eq.trans ?_ (h.passed c)
    simp only [Daemon.go, Daemon.pending, hholds, hloop.1, conns_append, conns_singleton, if_pos hg,
      List.count_append, List.nil_append]
    omega
  · rw [hholders c]
    exact h.slots c
  · refine Nat.le_trans ?_ (h.once c)
    simp only [Daemon.go, hloop.2, List.count_nil]
    omega
  · have hlen := h.held
    simp only [Daemon.holders, hslot, List.length_append] at hlen
    simp only [Daemon.go, Daemon.holders, hloopSlot, conns_append, conns_singleton,
      List.length_append, List.nil_append]
    omega
  · have hact := h.active
    simp only [Daemon.between, hbetween.1] at hact
    simpa only [Daemon.go, Daemon.between, hbetween.2, conns_append, conns_singleton, hout,
      Bool.false_eq_true, if_false, List.append_nil] using hact
  · exact absurd (h.stage hmain) hdone

/-- `listener.Accept` returns a connection nobody has seen. -/
theorem Inv.accept (h : Inv maxConnections d) (hl : d.loop = .accepting) :
    Inv maxConnections { d with loop := .accepted d.next, next := d.next + 1 } := by
  have hdone : d.loop ≠ .done := fun hd => by rw [hl] at hd; cases hd
  refine ⟨h.capacity, h.limit, fun c => ?_, ?_, fun c => ?_, ?_, ?_, fun hm => ?_⟩
  · have hp := h.passed c
    simp only [Daemon.pending, hl, Loop.holds, List.count_append, List.count_nil,
      List.count_singleton, beq_iff_eq] at hp ⊢
    split_ifs at hp ⊢ <;> omega
  · simpa only [Daemon.holders, hl, Loop.holdsSlot] using h.slots
  · have honce := h.once c
    simp only [hl, Loop.beforeSlot, List.count_nil, List.count_singleton, beq_iff_eq] at honce ⊢
    split_ifs at honce ⊢ <;> omega
  · simpa only [Daemon.holders, hl, Loop.holdsSlot] using h.held
  · simpa only [Daemon.between, hl, Loop.between] using h.active
  · exact absurd (h.stage hm) hdone

/-- The loop takes a slot for the connection in its hand. -/
theorem Inv.take (h : Inv maxConnections d) (hl : d.loop = .checked conn)
    (hroom : d.slots < d.maxConnections) :
    Inv maxConnections { d with
      slots := d.slots + 1
      taken := d.taken ++ [conn]
      loop := .slotTaken conn } := by
  have hdone : d.loop ≠ .done := fun hd => by rw [hl] at hd; cases hd
  have hcap := h.capacity
  refine ⟨hcap, ?_, ?_, fun c => ?_, fun c => ?_, ?_, ?_, fun hm => absurd (h.stage hm) hdone⟩
  · change d.slots + 1 ≤ maxConnections
    omega
  · simpa only [Daemon.pending, hl, Loop.holds] using h.passed
  · have hslots := h.slots c
    simp only [Daemon.holders, hl, Loop.holdsSlot, List.count_append, List.count_nil] at hslots ⊢
    omega
  · have honce := h.once c
    simp only [hl, Loop.beforeSlot, List.count_append, List.count_nil] at honce ⊢
    exact honce
  · have hlen := h.held
    simp only [Daemon.holders, hl, Loop.holdsSlot, List.length_append, List.length_nil,
      List.length_singleton] at hlen ⊢
    omega
  · have hact := h.active
    simp only [Daemon.between, hl, Loop.between] at hact ⊢
    push_cast
    omega

/-- The loop counts the slot it has taken. -/
theorem Inv.count (h : Inv maxConnections d) (hl : d.loop = .slotTaken conn) :
    Inv maxConnections { d with activeConns := d.activeConns + 1, loop := .counted conn } := by
  have hdone : d.loop ≠ .done := fun hd => by rw [hl] at hd; cases hd
  refine ⟨h.capacity, h.limit, ?_, ?_, ?_, ?_, ?_, fun hm => absurd (h.stage hm) hdone⟩
  · simpa only [Daemon.pending, hl, Loop.holds] using h.passed
  · simpa only [Daemon.holders, hl, Loop.holdsSlot] using h.slots
  · simpa only [hl, Loop.beforeSlot] using h.once
  · simpa only [Daemon.holders, hl, Loop.holdsSlot] using h.held
  · have hact := h.active
    simp only [Daemon.between, hl, Loop.between] at hact ⊢
    push_cast at hact ⊢
    omega

/-- A step of the accept loop keeps the invariant. -/
theorem Inv.loopStep (h : Inv maxConnections d) (hs : d.loopStep = some d') :
    Inv maxConnections d' := by
  simp only [Daemon.loopStep] at hs
  cases hl : d.loop with
  | accepting | done => simp [hl] at hs
  | failed =>
    simp only [hl, Option.some.injEq] at hs
    subst hs
    by_cases hc : d.cancelled = true
    · rw [if_pos hc]
      exact h.setLoop (by simp [hl]) (by simp [hl, Loop.holds]) (by simp [hl, Loop.holdsSlot])
        (.inr rfl) (by simp [hl, Loop.between])
    · rw [if_neg hc]
      exact h.setLoop (by simp [hl]) (by simp [hl, Loop.holds]) (by simp [hl, Loop.holdsSlot])
        (.inr rfl) (by simp [hl, Loop.between])
  | errorSleep =>
    simp only [hl, Option.some.injEq] at hs
    subst hs
    exact h.setLoop (by simp [hl]) (by simp [hl, Loop.holds]) (by simp [hl, Loop.holdsSlot])
      (.inr rfl) (by simp [hl, Loop.between])
  | accepted conn =>
    simp only [hl, Option.some.injEq] at hs
    subst hs
    by_cases hc : d.cancelled = true
    · rw [if_pos hc]
      exact h.setLoop (by simp [hl]) (by simp [hl, Loop.holds]) (by simp [hl, Loop.holdsSlot])
        (.inr rfl) (by simp [hl, Loop.between])
    · rw [if_neg hc]
      exact h.setLoop (by simp [hl]) (by simp [hl, Loop.holds]) (by simp [hl, Loop.holdsSlot])
        (.inl (by simp [hl, Loop.beforeSlot])) (by simp [hl, Loop.between])
  | checked conn =>
    simp only [hl] at hs
    split at hs
    · next hroom => exact Option.some.inj hs ▸ h.take hl hroom
    · obtain rfl := Option.some.inj hs
      exact h.setLoop (by simp [hl]) (by simp [hl, Loop.holds]) (by simp [hl, Loop.holdsSlot])
        (.inr rfl) (by simp [hl, Loop.between])
  | slotTaken conn =>
    simp only [hl, Option.some.injEq] at hs
    exact hs ▸ h.count hl
  | shuttingDown conn | counted conn | full conn =>
    simp only [hl, Option.some.injEq] at hs
    exact hs ▸ h.go (by simp [hl, Loop.holds]) (by simp [hl, Loop.holdsSlot, Goroutine.holdsSlot])
      rfl ⟨rfl, rfl⟩ ⟨by simp [hl, Loop.between], rfl⟩
  | backingOff =>
    simp only [hl, Option.ite_none_right_eq_some, Option.some.injEq] at hs
    exact hs.2 ▸ h.setLoop (by simp [hl]) (by simp [hl, Loop.holds]) (by simp [hl, Loop.holdsSlot])
      (.inr rfl) (by simp [hl, Loop.between])
  | returning =>
    simp only [hl, Option.some.injEq] at hs
    exact hs ▸ h.setLoop (by simp [hl]) (by simp [hl, Loop.holds]) (by simp [hl, Loop.holdsSlot])
      (.inr rfl) (by simp [hl, Loop.between])

/-! ### The goroutines -/

/-- A goroutine goes on and neither its handler nor the accounts change. -/
theorem Inv.become {i : Nat} {g g' : Goroutine} (h : Inv maxConnections d)
    (hi : d.connWg[i]? = some (conn, g)) (hundecided : g'.undecided = g.undecided)
    (hslot : g'.holdsSlot = g.holdsSlot) (hbetween : g'.between = g.between) :
    Inv maxConnections (d.become i conn g') := by
  have hpending : (d.become i conn g').pending.Perm d.pending :=
    (conns_set_perm hi hundecided).append_left _
  have hholders : (d.become i conn g').holders.Perm d.holders := (conns_set_perm hi hslot).append_left _
  refine ⟨h.capacity, h.limit, fun c => ?_, fun c => ?_, h.once, ?_, ?_, h.stage⟩
  · rw [hpending.count_eq]
    exact h.passed c
  · rw [hholders.count_eq]
    exact h.slots c
  · rw [hholders.length_eq]
    exact h.held
  · simp only [Daemon.become, Daemon.between, (conns_set_perm hi hbetween).length_eq]
    exact h.active

/-- A goroutine passes its connection to a handler. -/
theorem Inv.pass {i : Nat} {g g' : Goroutine} {handler : Handler} (h : Inv maxConnections d)
    (hi : d.connWg[i]? = some (conn, g)) (hg : g.undecided = true) (hg' : g'.undecided = false)
    (hslot : g'.holdsSlot = g.holdsSlot) (hbetween : g'.between = false ∧ g.between = false) :
    Inv maxConnections (d.pass i conn handler g') := by
  have hholders : (d.pass i conn handler g').holders.Perm d.holders :=
    (conns_set_perm hi hslot).append_left _
  obtain ⟨rest, hold, hset, -⟩ := conns_perm Goroutine.undecided hi
  refine ⟨h.capacity, h.limit, fun c => ?_, fun c => ?_, h.once, ?_, ?_, h.stage⟩
  · refine Eq.trans ?_ (h.passed c)
    have hnew := (hset g').count_eq c
    have hwas := hold.count_eq c
    simp only [hg, hg', if_true, Bool.false_eq_true, if_false, List.count_append,
      List.nil_append] at hnew hwas
    simp only [Daemon.pass, Daemon.pending, List.map_append, List.map_cons, List.map_nil,
      List.count_append, hnew, hwas]
    omega
  · rw [hholders.count_eq]
    exact h.slots c
  · rw [hholders.length_eq]
    exact h.held
  · have hout := (conns_set_perm hi (hbetween.1.trans hbetween.2.symm)).length_eq
    simp only [Daemon.pass, Daemon.between, hout]
    exact h.active

/-- A goroutine gives its slot back. -/
theorem Inv.release {i : Nat} {panicked : Bool} (h : Inv maxConnections d)
    (hi : d.connWg[i]? = some (conn, .leaving panicked)) (hpos : d.slots ≠ 0) :
    Inv maxConnections { d.become i conn (.released panicked) with
      slots := d.slots - 1
      released := d.released ++ [conn] } := by
  obtain ⟨_, hundecided, hundecidedSet, -⟩ := conns_perm Goroutine.undecided hi
  obtain ⟨_, hholds, hholdsSet, -⟩ := conns_perm Goroutine.holdsSlot hi
  obtain ⟨_, hbetween, hbetweenSet, -⟩ := conns_perm Goroutine.between hi
  have hundecidedSet := hundecidedSet (.released panicked)
  have hholdsSet := hholdsSet (.released panicked)
  have hbetweenSet := hbetweenSet (.released panicked)
  simp only [Goroutine.undecided, Goroutine.holdsSlot, Goroutine.between, if_true,
    Bool.false_eq_true, if_false, List.nil_append] at *
  refine ⟨h.capacity, Nat.le_trans (Nat.sub_le _ _) h.limit, fun c => ?_, fun c => ?_, h.once,
    ?_, ?_, h.stage⟩
  · refine Eq.trans ?_ (h.passed c)
    simp only [Daemon.become, Daemon.pending, List.count_append, hundecidedSet.count_eq,
      hundecided.count_eq]
  · refine Eq.trans (h.slots c) ?_
    simp only [Daemon.become, Daemon.holders, List.count_append, hholdsSet.count_eq,
      hholds.count_eq]
    omega
  · have hheld := h.held
    simp only [Daemon.holders, List.length_append, hholds.length_eq, List.length_singleton] at hheld
    simp only [Daemon.become, Daemon.holders, List.length_append, hholdsSet.length_eq]
    omega
  · have hact := h.active
    simp only [Daemon.between, hbetween.length_eq] at hact
    simp only [Daemon.become, Daemon.between, hbetweenSet.length_eq, List.length_append,
      List.length_singleton]
    omega

/-- A goroutine lowers `activeConns`. -/
theorem Inv.lower {i : Nat} {panicked : Bool} (h : Inv maxConnections d)
    (hi : d.connWg[i]? = some (conn, .released panicked)) :
    Inv maxConnections { d.become i conn (.ending panicked) with
      activeConns := d.activeConns - 1 } := by
  obtain ⟨_, hundecided, hundecidedSet, -⟩ := conns_perm Goroutine.undecided hi
  obtain ⟨_, hholds, hholdsSet, -⟩ := conns_perm Goroutine.holdsSlot hi
  obtain ⟨_, hbetween, hbetweenSet, -⟩ := conns_perm Goroutine.between hi
  have hundecidedSet := hundecidedSet (.ending panicked)
  have hholdsSet := hholdsSet (.ending panicked)
  have hbetweenSet := hbetweenSet (.ending panicked)
  simp only [Goroutine.undecided, Goroutine.holdsSlot, Goroutine.between, if_true,
    Bool.false_eq_true, if_false, List.nil_append] at *
  refine ⟨h.capacity, h.limit, fun c => ?_, fun c => ?_, h.once, ?_, ?_, h.stage⟩
  · refine Eq.trans ?_ (h.passed c)
    simp only [Daemon.become, Daemon.pending, List.count_append, hundecidedSet.count_eq,
      hundecided.count_eq]
  · refine Eq.trans (h.slots c) ?_
    simp only [Daemon.become, Daemon.holders, List.count_append, hholdsSet.count_eq,
      hholds.count_eq]
  · refine Eq.trans h.held ?_
    simp only [Daemon.become, Daemon.holders, List.length_append, hholdsSet.length_eq,
      hholds.length_eq]
  · have hact := h.active
    simp only [Daemon.between, hbetween.length_eq, List.length_append,
      List.length_singleton] at hact
    simp only [Daemon.become, Daemon.between, hbetweenSet.length_eq]
    omega

/-- A goroutine leaves `connWg`. -/
theorem Inv.leave {i : Nat} {panicked : Bool} (h : Inv maxConnections d)
    (hi : d.connWg[i]? = some (conn, .ending panicked)) :
    Inv maxConnections { d with connWg := d.connWg.eraseIdx i } := by
  have hsame : ∀ p : Goroutine → Bool, p (.ending panicked) = false →
      (conns p (d.connWg.eraseIdx i)).Perm (conns p d.connWg) := by
    intro p hp
    obtain ⟨rest, hold, -, herase⟩ := conns_perm p hi
    simp only [hp, Bool.false_eq_true, if_false, List.nil_append] at hold
    exact herase.trans hold.symm
  refine ⟨h.capacity, h.limit, fun c => ?_, fun c => ?_, h.once, ?_, ?_, h.stage⟩
  · refine Eq.trans ?_ (h.passed c)
    simp only [Daemon.pending, List.count_append, (hsame Goroutine.undecided rfl).count_eq]
  · refine Eq.trans (h.slots c) ?_
    simp only [Daemon.holders, List.count_append, (hsame Goroutine.holdsSlot rfl).count_eq]
  · refine Eq.trans h.held ?_
    simp only [Daemon.holders, List.length_append, (hsame Goroutine.holdsSlot rfl).length_eq]
  · have hact := h.active
    simp only [Daemon.between, (hsame Goroutine.between rfl).length_eq] at hact ⊢
    exact hact

/-- `main` moves on, which only the stage of the drain depends on. -/
theorem Inv.setMain {main : Main} {waitBegun : Bool} (h : Inv maxConnections d)
    (hstage : main = .draining ∨ main = .cancelling ∨ waitBegun = true → d.loop = .done) :
    Inv maxConnections { d with main := main, waitBegun := waitBegun } :=
  ⟨h.capacity, h.limit, h.passed, h.slots, h.once, h.held, h.active, hstage⟩

/-- A step of a goroutine keeps the invariant. -/
theorem Inv.goroutineStep {i : Nat} {panics : Bool} {g : Goroutine} (h : Inv maxConnections d)
    (hi : d.connWg[i]? = some (conn, g)) (hs : d.goroutineStep i conn panics g = some d') :
    Inv maxConnections d' := by
  cases g with
  | toReject => exact Option.some.inj hs ▸ h.pass hi rfl rfl rfl ⟨rfl, rfl⟩
  | rejecting => exact Option.some.inj hs ▸ h.become hi rfl rfl rfl
  | recheck =>
    simp only [Daemon.goroutineStep] at hs
    split at hs
    · exact Option.some.inj hs ▸ h.pass hi rfl rfl rfl ⟨rfl, rfl⟩
    · exact Option.some.inj hs ▸ h.pass hi rfl rfl rfl ⟨rfl, rfl⟩
  | rejectHolding | handling => exact Option.some.inj hs ▸ h.become hi rfl rfl rfl
  | leaving panicked =>
    simp only [Daemon.goroutineStep, Option.ite_none_left_eq_some, Option.some.injEq] at hs
    exact hs.2 ▸ h.release hi hs.1
  | released panicked => exact Option.some.inj hs ▸ h.lower hi
  | ending panicked =>
    simp only [Daemon.goroutineStep] at hs
    split at hs
    · obtain rfl := Option.some.inj hs
      refine h.setMain fun hm => h.stage ?_
      exact .inr (.inr (by simpa using hm))
    · exact Option.some.inj hs ▸ h.leave hi

/-- **Every step keeps the invariant.** The cases are the labels, and where the accept loop or a
goroutine moves, the places it can be at. -/
theorem inv_step (h : Inv maxConnections d) (hs : step d label = some d') :
    Inv maxConnections d' := by
  simp only [step, Option.ite_none_left_eq_some] at hs
  obtain ⟨-, hs⟩ := hs
  cases label with
  | accept =>
    simp only [stepAlive, Option.ite_none_right_eq_some, Option.some.injEq] at hs
    exact hs.2 ▸ h.accept hs.1.1
  | acceptError =>
    simp only [stepAlive, Option.ite_none_right_eq_some, Option.some.injEq] at hs
    obtain ⟨hl, rfl⟩ := hs
    exact h.setLoop (by simp [hl]) (by simp [hl, Loop.holds]) (by simp [hl, Loop.holdsSlot])
      (.inr rfl) (by simp [hl, Loop.between])
  | loop => exact h.loopStep hs
  | backoffOver =>
    simp only [stepAlive, Option.ite_none_right_eq_some, Option.some.injEq] at hs
    obtain ⟨hl, rfl⟩ := hs
    exact h.setLoop (by simp [hl]) (by simp [hl, Loop.holds]) (by simp [hl, Loop.holdsSlot])
      (.inr rfl) (by simp [hl, Loop.between])
  | goroutine i panics =>
    obtain ⟨⟨conn, g⟩, hi, hs⟩ := Option.bind_eq_some_iff.mp hs
    exact h.goroutineStep hi hs
  | signal =>
    obtain rfl := Option.some.inj hs
    exact ⟨h.capacity, h.limit, h.passed, h.slots, h.once, h.held, h.active, h.stage⟩
  | closeListener =>
    simp only [stepAlive, Option.ite_none_right_eq_some, Option.some.injEq] at hs
    obtain ⟨-, rfl⟩ := hs
    refine h.setMain fun hm => h.stage ?_
    exact .inr (.inr (by simpa using hm))
  | acceptDone =>
    simp only [stepAlive, Option.ite_none_right_eq_some, Option.some.injEq] at hs
    obtain ⟨⟨-, hl⟩, rfl⟩ := hs
    exact h.setMain fun _ => hl
  | beginWait =>
    simp only [stepAlive, Option.ite_none_right_eq_some, Option.some.injEq] at hs
    obtain ⟨hm, rfl⟩ := hs
    exact h.setMain fun _ => h.stage (hm.imp_right .inl)
  | drained =>
    simp only [stepAlive, Option.ite_none_right_eq_some, Option.some.injEq] at hs
    obtain ⟨⟨-, hw, -⟩, rfl⟩ := hs
    exact h.setMain fun _ => h.stage (.inr (.inr hw))
  | drainTimeout =>
    simp only [stepAlive, Option.ite_none_right_eq_some, Option.some.injEq] at hs
    obtain ⟨hm, rfl⟩ := hs
    exact h.setMain fun _ => h.stage (.inl hm)
  | graceTimeout =>
    simp only [stepAlive, Option.ite_none_right_eq_some, Option.some.injEq] at hs
    obtain ⟨hm, rfl⟩ := hs
    exact h.setMain fun _ => h.stage (.inr (.inl hm))
  | secondSignal =>
    simp only [stepAlive, Option.ite_none_right_eq_some, Option.some.injEq] at hs
    obtain ⟨-, rfl⟩ := hs
    refine h.setMain fun hm => h.stage ?_
    exact .inr (.inr (by simpa using hm))

theorem inv_reachable (h : (system maxConnections).Reachable d) : Inv maxConnections d :=
  h.invariant (fun _ h0 => h0 ▸ inv_start) fun _ _ _ ih _ hs => inv_step ih hs

/-- The invariant implies the accounts. -/
theorem Inv.balanced (h : Inv maxConnections d) : Balanced maxConnections d where
  limit := by
    have hsub : d.inside ≤ (conns Goroutine.holdsSlot d.connWg).length := by
      rw [Daemon.inside, conns, conns, List.length_map, List.length_map,
        ← List.countP_eq_length_filter, ← List.countP_eq_length_filter]
      refine List.countP_mono_left fun e _ he => ?_
      have hin : e.2 = .handling := by simpa using he
      rw [hin]
      rfl
    have hheld := h.held
    have hlimit := h.limit
    simp only [Daemon.holders, List.length_append] at hheld
    omega
  passed conn hlt := by rw [h.passed conn, if_pos hlt]
  slots conn := by
    have honce := h.once conn
    refine ⟨?_, h.slots conn⟩
    split at honce <;> omega
  held := h.held
  active hb := by
    have hact := h.active
    rw [hb] at hact
    simpa using hact
  wait hw := by
    rw [h.stage (.inr (.inr hw))]
    exact id

/-! ## Nothing gets stuck -/

theorem mem_conns {p : Goroutine → Bool} {wg : List (Nat × Goroutine)} :
    conn ∈ conns p wg ↔ ∃ g, (conn, g) ∈ wg ∧ p g = true := by
  simp [conns]

/-- The steps until the loop has started the goroutine of the connection in its hand. -/
def Loop.distance : Loop → Nat
  | .accepted _ => 4
  | .checked _ => 3
  | .slotTaken _ => 2
  | .shuttingDown _ | .counted _ | .full _ => 1
  | _ => 0

/-- The steps until the goroutine has given its slot back. -/
def Goroutine.distance : Goroutine → Nat
  | .recheck => 3
  | .rejectHolding | .handling => 2
  | .leaving _ => 1
  | _ => 0

/-- The connection is still in the hand of the accept loop, or a goroutine that has yet to pass it
to a handler has it; its slot, if `slot` says there is one, goes with it. -/
def Daemon.Carries (d : Daemon) (conn : Nat) (slot : Prop) : Prop :=
  (conn ∈ d.loop.holds ∧ (slot → conn ∈ d.loop.holdsSlot)) ∨
    ∃ g, (conn, g) ∈ d.connWg ∧ g.undecided = true ∧ (slot → g.holdsSlot = true)

/-- The accept loop gets nearer to the `connWg.Go` for the connection in its hand. -/
theorem loopStep_nearer {slot : Prop} (hl : conn ∈ d.loop.holds)
    (hslot : slot → conn ∈ d.loop.holdsSlot) : ∃ d', d.loopStep = some d' ∧ d'.main = d.main ∧
      d'.Carries conn slot ∧ d'.loop.distance < d.loop.distance := by
  simp only [Daemon.loopStep]
  cases h : d.loop with
  | accepted c =>
    rw [h] at hl hslot
    have hno : ¬ slot := fun hs => absurd (hslot hs) List.not_mem_nil
    by_cases hc : d.cancelled = true
    · simp only [if_pos hc]
      exact ⟨_, rfl, rfl, .inl ⟨hl, fun hs => absurd hs hno⟩, by simp [Loop.distance]⟩
    · simp only [if_neg hc]
      exact ⟨_, rfl, rfl, .inl ⟨hl, fun hs => absurd hs hno⟩, by simp [Loop.distance]⟩
  | checked c =>
    rw [h] at hl hslot
    have hno : ¬ slot := fun hs => absurd (hslot hs) List.not_mem_nil
    by_cases hroom : d.slots < d.maxConnections
    · simp only [if_pos hroom]
      exact ⟨_, rfl, rfl, .inl ⟨hl, fun hs => absurd hs hno⟩, by simp [Loop.distance]⟩
    · simp only [if_neg hroom]
      exact ⟨_, rfl, rfl, .inl ⟨hl, fun hs => absurd hs hno⟩, by simp [Loop.distance]⟩
  | slotTaken c =>
    rw [h] at hl
    exact ⟨_, rfl, rfl, .inl ⟨hl, fun _ => hl⟩, by simp [Loop.distance]⟩
  | counted c =>
    rw [h] at hl
    obtain rfl := List.mem_singleton.mp hl
    exact ⟨_, rfl, rfl, .inr ⟨.recheck, List.mem_concat_self, rfl, fun _ => rfl⟩, by simp [Loop.distance, Daemon.go]⟩
  | shuttingDown c | full c =>
    rw [h] at hl hslot
    obtain rfl := List.mem_singleton.mp hl
    exact ⟨_, rfl, rfl, .inr ⟨.toReject, List.mem_concat_self, rfl,
      fun hs => absurd (hslot hs) List.not_mem_nil⟩, by simp [Loop.distance, Daemon.go]⟩
  | _ =>
    rw [h] at hl
    exact absurd hl List.not_mem_nil

variable (maxConnections) in
/-- A connection in the hand of the accept loop gets a goroutine. -/
theorem loop_hands_over {slot : Prop} (halive : d.main ≠ .exited) (h : d.Carries conn slot) :
    ∃ d', (system maxConnections).Leads d d' ∧ d'.main ≠ .exited ∧
      ∃ g, (conn, g) ∈ d'.connWg ∧ g.undecided = true ∧ (slot → g.holdsSlot = true) := by
  -- the loop alone moves, each step one nearer to `connWg.Go`
  have hstep : ∀ e : Daemon, e.main ≠ .exited ∧ e.Carries conn slot →
      (∃ g, (conn, g) ∈ e.connWg ∧ g.undecided = true ∧ (slot → g.holdsSlot = true)) ∨
        ∃ label e', (system maxConnections).step e label = some e' ∧
          (e'.main ≠ .exited ∧ e'.Carries conn slot) ∧ e'.loop.distance < e.loop.distance := by
    rintro e ⟨he, ⟨hholds, hslot⟩ | hdone⟩
    · obtain ⟨e', hs, hmain, hcarries, hlt⟩ := loopStep_nearer hholds hslot
      have hs' : (system maxConnections).step e .loop = some e' := (if_neg he).trans hs
      exact .inr ⟨.loop, e', hs', ⟨hmain ▸ he, hcarries⟩, hlt⟩
    · exact .inl hdone
  obtain ⟨d', hleads, ⟨halive', -⟩, hg⟩ :=
    System.Leads.of_measure (fun e : Daemon => e.loop.distance) hstep ⟨halive, h⟩
  exact ⟨d', hleads, halive', hg⟩

variable (maxConnections) in
theorem step_goroutine {i : Nat} {g : Goroutine} (halive : d.main ≠ .exited)
    (hi : d.connWg[i]? = some (conn, g)) :
    (system maxConnections).step d (.goroutine i false) = d.goroutineStep i conn false g := by
  change (if d.main = .exited then none else d.connWg[i]?.bind _) = _
  rw [if_neg halive, hi]
  rfl

/-- A goroutine that has not passed its connection to a handler does so with its next step. -/
theorem goroutine_passes {g : Goroutine} (halive : d.main ≠ .exited) (hg : (conn, g) ∈ d.connWg)
    (hu : g.undecided = true) :
    ∃ d', (system maxConnections).Leads d d' ∧ conn ∈ d'.passed.map Prod.fst := by
  obtain ⟨i, hi⟩ := List.getElem?_of_mem hg
  have hstep := step_goroutine maxConnections halive hi
  have hpass : ∃ handler g', d.goroutineStep i conn false g = some (d.pass i conn handler g') := by
    cases g with
    | toReject => exact ⟨_, _, rfl⟩
    | recheck =>
      simp only [Daemon.goroutineStep]
      split
      · exact ⟨_, _, rfl⟩
      · exact ⟨_, _, rfl⟩
    | _ => cases hu
  obtain ⟨handler, g', hpass⟩ := hpass
  exact ⟨_, .head (hstep.trans hpass) (.refl _), by simp [Daemon.pass]⟩

/-- **A pending connection can always be passed on**, by steps of its own goroutine or of the accept
loop alone. That it is passed on at most once is the invariant; this is the other half. -/
theorem pending_passes (halive : d.main ≠ .exited) (h : conn ∈ d.pending) :
    ∃ d', (system maxConnections).Leads d d' ∧ conn ∈ d'.passed.map Prod.fst := by
  have hcarries : d.Carries conn False := by
    rcases List.mem_append.mp h with hloop | hwg
    · exact .inl ⟨hloop, False.elim⟩
    · obtain ⟨g, hg, hu⟩ := mem_conns.mp hwg
      exact .inr ⟨g, hg, hu, False.elim⟩
  obtain ⟨e, hleads, he, g, hg, hu, -⟩ := loop_hands_over maxConnections halive hcarries
  obtain ⟨d', hpasses, hpassed⟩ := goroutine_passes he hg hu
  exact ⟨d', hleads.trans hpasses, hpassed⟩

/-- A goroutine with a slot gets nearer to giving it back. -/
theorem goroutineStep_nearer {i : Nat} {g : Goroutine} (hi : d.connWg[i]? = some (conn, g))
    (hslot : g.holdsSlot = true) (hpos : d.slots ≠ 0) :
    ∃ d', d.goroutineStep i conn false g = some d' ∧ d'.main = d.main ∧
      (conn ∈ d'.released ∨ ∃ g', (conn, g') ∈ d'.connWg ∧ g'.holdsSlot = true ∧
        g'.distance < g.distance) := by
  have hin : ∀ g', (conn, g') ∈ d.connWg.set i (conn, g') := fun g' =>
    List.mem_set (List.getElem?_eq_some_iff.mp hi).1 _
  cases g with
  | recheck =>
    simp only [Daemon.goroutineStep]
    split
    · exact ⟨_, rfl, rfl, .inr ⟨_, hin _, rfl, by decide⟩⟩
    · exact ⟨_, rfl, rfl, .inr ⟨_, hin _, rfl, by decide⟩⟩
  | rejectHolding | handling => exact ⟨_, rfl, rfl, .inr ⟨.leaving false, hin _, rfl, by decide⟩⟩
  | leaving panicked =>
    exact ⟨_, if_neg hpos, rfl, .inl List.mem_concat_self⟩
  | _ => cases hslot

theorem goroutine_releases {g : Goroutine} (hinv : Inv maxConnections d) (halive : d.main ≠ .exited)
    (hg : (conn, g) ∈ d.connWg) (hslot : g.holdsSlot = true) :
    ∃ d', (system maxConnections).Leads d d' ∧ conn ∈ d'.released := by
  induction h : g.distance using Nat.strongRecOn generalizing d g with
  | ind n ih =>
    obtain ⟨i, hi⟩ := List.getElem?_of_mem hg
    -- the goroutine's own slot is in the channel, so the receive does not block
    have hpos : d.slots ≠ 0 := by
      have hmem : conn ∈ d.holders := List.mem_append_right _ (mem_conns.mpr ⟨g, hg, hslot⟩)
      rw [hinv.held]
      exact Nat.pos_iff_ne_zero.mp (List.length_pos_of_mem hmem)
    obtain ⟨e, hs, hmain, hnear⟩ := goroutineStep_nearer hi hslot hpos
    have hstep := (step_goroutine maxConnections halive hi).trans hs
    rcases hnear with hreleased | ⟨g', hg', hslot', hlt⟩
    · exact ⟨e, .head hstep (.refl e), hreleased⟩
    · obtain ⟨d', hleads, hreleased⟩ :=
        ih g'.distance (h ▸ hlt) (inv_step hinv hstep) (hmain ▸ halive) hg' hslot' rfl
      exact ⟨d', .head hstep hleads, hreleased⟩

/-- **A slot that is held can always be given back.** The receive from the semaphore cannot block,
since the holder itself is one of those that have sent to it, which the invariant counts. -/
theorem holder_releases (hr : (system maxConnections).Reachable d) (halive : d.main ≠ .exited)
    (h : conn ∈ d.holders) :
    ∃ d', (system maxConnections).Leads d d' ∧ conn ∈ d'.released := by
  rcases List.mem_append.mp h with hloop | hwg
  · have hholds : conn ∈ d.loop.holds := by
      cases hl : d.loop with
      | slotTaken c | counted c => rwa [hl] at hloop
      | _ =>
        rw [hl] at hloop
        exact absurd hloop List.not_mem_nil
    have hcarries : d.Carries conn True := .inl ⟨hholds, fun _ => hloop⟩
    obtain ⟨e, hleads, he, g, hg, -, hslot⟩ := loop_hands_over maxConnections halive hcarries
    obtain ⟨d', hreleases, hreleased⟩ :=
      goroutine_releases (inv_reachable (hleads.reachable hr)) he hg (hslot trivial)
    exact ⟨d', hleads.trans hreleases, hreleased⟩
  · obtain ⟨g, hg, hslot⟩ := mem_conns.mp hwg
    exact goroutine_releases (inv_reachable hr) halive hg hslot

/-! ## The protocol -/

/-- **The accept loop keeps its accounts** in every state of every run: the limit on the
goroutines inside `safeHandleConnection` holds, a connection is passed to one handler and a slot
given back once, `activeConns` counts the slots that are held, and `connWg.Go` is not called after
`connWg.Wait`. While the process lives, a connection that has not been passed on can be, and a
slot that has not been given back can be. -/
theorem balanced_reachable {d : Daemon} (h : (system maxConnections).Reachable d) :
    Balanced maxConnections d ∧ (d.main ≠ .exited →
      (∀ conn ∈ d.pending, ∃ d', (system maxConnections).Leads d d' ∧
        conn ∈ d'.passed.map Prod.fst) ∧
      ∀ conn ∈ d.holders, ∃ d', (system maxConnections).Leads d d' ∧ conn ∈ d'.released) :=
  ⟨(inv_reachable h).balanced, fun halive =>
    ⟨fun _ => pending_passes halive, fun _ => holder_releases h halive⟩⟩

/-- A limit of one, two connections, and a handler that panics. -/
def oneSlot : List Label :=
  [.accept, .loop, .loop, .loop, .loop, .accept, .loop, .loop, .loop, .goroutine 0 false,
    .goroutine 1 false, .goroutine 0 true, .goroutine 0 false]

/-- One slot, and the loop at its beginning. -/
theorem balanced_oneSlot : ∃ d, (system 1).run (.start 1) oneSlot = some d ∧
    d.passed = [(0, .safeHandleConnection), (1, .rejectHandoff)] ∧ d.released = [0] ∧
      Balanced 1 d := by
  obtain ⟨d, hrun, hpassed, hreleased⟩ : ∃ d, (system 1).run (.start 1) oneSlot = some d ∧
      d.passed = [(0, .safeHandleConnection), (1, .rejectHandoff)] ∧ d.released = [0] :=
    ⟨_, rfl, rfl, rfl⟩
  have hstart : (system 1).Reachable (.start 1) := .init rfl
  exact ⟨d, hrun, hpassed, hreleased, (balanced_reachable (hstart.run _ hrun)).1⟩

end SocketHandoff.Go.AcceptLoop
