import SocketHandoff.Lib.System

/-!
# The shutdown coordinator of the Rust daemon

`ShutdownCoordinator` of `shutdown.rs`, one atomic operation at a time: tasks that register a
connection and drop its guard, tasks in `wait_for_drain`, stream loops that subscribe and wait in
`select!`, and the task that signals the shutdown.

Two things of tokio come in. A `Notified` future is woken by the calls of `notify_waiters` made
after its creation: it holds the number of the calls made before and is ready once that number has
changed. A `watch::Receiver` holds the version it has seen; `changed` is ready while that is not
the version of the channel, and a clone has seen what the cloned one has.
-/

namespace SocketHandoff.Rust.Drain

/-! ## Data -/

/-- Where a task in `wait_for_drain` is. -/
inductive Waiter
  /-- at the head of the loop -/
  | start
  /-- `notified()` has been called after `calls` calls of `notify_waiters` -/
  | created (calls : Nat)
  /-- the count was not 0; at `notified.await` -/
  | sleeping (calls : Nat)
  | returned
  /-- its timeout has dropped it -/
  | dropped
  deriving DecidableEq, Repr

/-- Where a stream loop is. -/
inductive Stream
  /-- before `select!`, with the version its receiver has seen -/
  | streaming (seen : Nat)
  /-- `changed()` has been taken: the loop has been left for the shutdown -/
  | shutdown
  deriving DecidableEq, Repr

/-- `ShutdownInner` and the tasks around it. -/
structure Coordinator where
  /-- version of the `watch` channel -/
  version : Nat
  /-- value of the `watch` channel -/
  value : Bool
  /-- the version `shutdown_rx` has seen -/
  seen : Nat
  /-- `active_connections` -/
  active : Nat
  nextConnId : Nat
  /-- the calls of `notify_waiters` so far -/
  notifyCalls : Nat
  /-- connections whose id is given out and which are not counted yet -/
  registering : List Nat
  /-- connections whose guard is counted -/
  guards : List Nat
  /-- tasks that have counted down to 0 and not called `notify_waiters` yet -/
  notifying : Nat
  waiters : List Waiter
  streams : List Stream
  deriving DecidableEq, Repr

/-- `ShutdownCoordinator::new`: the channel holds `false` in its version 0, and every receiver that
is cloned later begins with the version `shutdown_rx` has seen. The ids of connections begin with 1.
-/
def Coordinator.new : Coordinator where
  version := 0
  value := false
  seen := 0
  active := 0
  nextConnId := 1
  notifyCalls := 0
  registering := []
  guards := []
  notifying := 0
  waiters := []
  streams := []

/-! ## Steps -/

/-- Who moves, and how. -/
inductive Label
  /-- `register_connection`: the id is given out -/
  | fetchId
  /-- `register_connection`: the connection is counted -/
  | countIn (i : Nat)
  /-- `ConnectionGuard::drop`: the connection is counted out -/
  | countOut (i : Nat)
  /-- `drain_notify.notify_waiters()` -/
  | notifyWaiters
  /-- a task calls `wait_for_drain` -/
  | waitForDrain
  /-- a task in `wait_for_drain` goes on -/
  | waiter (k : Nat)
  /-- the timeout around `wait_for_drain` runs out -/
  | timeout (k : Nat)
  /-- `shutdown` -/
  | shutdown
  /-- a stream loop subscribes -/
  | subscribe
  /-- a stream loop is polled in `select!`, with a chunk there or not -/
  | select (k : Nat) (chunk : Bool)
  deriving DecidableEq, Repr

/-- `fetch_update` of `unregister_connection`, and what the task has to do next. -/
def Coordinator.unregister (c : Coordinator) : Coordinator :=
  if c.active = 0 then c
  else
    { c with
      active := c.active - 1
      notifying := if c.active - 1 = 0 then c.notifying + 1 else c.notifying }

/-- The next step of a task in `wait_for_drain`. -/
def Waiter.next (c : Coordinator) : Waiter → Option Waiter
  | .start => some (.created c.notifyCalls)
  | .created calls => some (if c.active = 0 then .returned else .sleeping calls)
  | .sleeping calls => if calls = c.notifyCalls then none else some .start
  | .returned | .dropped => none

/-- A stream loop in its `select!`, which is biased: the shutdown comes first. -/
def Stream.next (c : Coordinator) (chunk : Bool) : Stream → Option Stream
  | .streaming seen =>
    if seen ≠ c.version then some .shutdown
    else if chunk then some (.streaming seen)
    else none
  | .shutdown => none

/-- One step, which is one atomic operation of one task, as their order decides whether a wake-up is
lost. A waiter remembers how many calls of `notify_waiters` there were when it called `notified`: a
later call wakes it, also if it comes before the waiter sleeps. -/
def step (c : Coordinator) : Label → Option Coordinator
  | .fetchId => some { c with
      nextConnId := c.nextConnId + 1
      registering := c.registering ++ [c.nextConnId] }
  | .countIn i =>
    match c.registering[i]? with
    | some id => some { c with
        active := c.active + 1
        registering := c.registering.eraseIdx i
        guards := c.guards ++ [id] }
    | none => none
  | .countOut i =>
    if i < c.guards.length then some { c.unregister with guards := c.guards.eraseIdx i } else none
  | .notifyWaiters =>
    if c.notifying = 0 then none
    else some { c with notifying := c.notifying - 1, notifyCalls := c.notifyCalls + 1 }
  | .waitForDrain => some { c with waiters := c.waiters ++ [.start] }
  | .waiter k =>
    (c.waiters[k]?.bind (Waiter.next c)).map fun w => { c with waiters := c.waiters.set k w }
  | .timeout k =>
    match c.waiters[k]? with
    | some (.created _) | some (.sleeping _) => some { c with waiters := c.waiters.set k .dropped }
    | _ => none
  | .shutdown => some { c with version := c.version + 1, value := true }
  | .subscribe => some { c with streams := c.streams ++ [.streaming c.seen] }
  | .select k chunk =>
    (c.streams[k]?.bind (Stream.next c chunk)).map fun t => { c with streams := c.streams.set k t }

/-- The coordinator as a system. -/
def system : System Coordinator Label where
  init c := c = .new
  step := step

/-! ## What a step does -/

variable {c c' : Coordinator} {label : Label}

/-- The steps, with what they need and what they leave. -/
inductive Moves (c : Coordinator) : Label → Coordinator → Prop
  | fetchId : Moves c .fetchId { c with
      nextConnId := c.nextConnId + 1
      registering := c.registering ++ [c.nextConnId] }
  | countIn (i id : Nat) : c.registering[i]? = some id →
      Moves c (.countIn i) { c with
        active := c.active + 1
        registering := c.registering.eraseIdx i
        guards := c.guards ++ [id] }
  | countOut (i : Nat) : i < c.guards.length →
      Moves c (.countOut i) { c.unregister with guards := c.guards.eraseIdx i }
  | notifyWaiters : c.notifying ≠ 0 →
      Moves c .notifyWaiters { c with
        notifying := c.notifying - 1
        notifyCalls := c.notifyCalls + 1 }
  | waitForDrain : Moves c .waitForDrain { c with waiters := c.waiters ++ [.start] }
  | waiter (k : Nat) (w w' : Waiter) : c.waiters[k]? = some w → w.next c = some w' →
      Moves c (.waiter k) { c with waiters := c.waiters.set k w' }
  | timeout (k : Nat) : Moves c (.timeout k) { c with waiters := c.waiters.set k .dropped }
  | shutdown : Moves c .shutdown { c with version := c.version + 1, value := true }
  | subscribe : Moves c .subscribe { c with streams := c.streams ++ [.streaming c.seen] }
  | select (k : Nat) (chunk : Bool) (t t' : Stream) : c.streams[k]? = some t →
      t.next c chunk = some t' →
      Moves c (.select k chunk) { c with streams := c.streams.set k t' }

/-- Inversion of `step`. -/
theorem step_moves (h : step c label = some c') : Moves c label c' := by
  cases label with
  | fetchId => exact Option.some.inj h ▸ .fetchId
  | countIn i =>
    simp only [step] at h
    split at h
    · next id hi => exact Option.some.inj h ▸ .countIn i id hi
    · cases h
  | countOut i =>
    simp only [step, Option.ite_none_right_eq_some, Option.some.injEq] at h
    exact h.2 ▸ .countOut i h.1
  | notifyWaiters =>
    simp only [step, Option.ite_none_left_eq_some, Option.some.injEq] at h
    exact h.2 ▸ .notifyWaiters h.1
  | waitForDrain => exact Option.some.inj h ▸ .waitForDrain
  | waiter k =>
    obtain ⟨w', hw', rfl⟩ := Option.map_eq_some_iff.mp h
    obtain ⟨w, hw, hnext⟩ := Option.bind_eq_some_iff.mp hw'
    exact .waiter k w w' hw hnext
  | timeout k =>
    simp only [step] at h
    split at h
    · exact Option.some.inj h ▸ .timeout k
    · exact Option.some.inj h ▸ .timeout k
    · cases h
  | shutdown => exact Option.some.inj h ▸ .shutdown
  | subscribe => exact Option.some.inj h ▸ .subscribe
  | select k chunk =>
    obtain ⟨t', ht', rfl⟩ := Option.map_eq_some_iff.mp h
    obtain ⟨t, ht, hnext⟩ := Option.bind_eq_some_iff.mp ht'
    exact .select k chunk t t' ht hnext

/-- A guard that is counted out while the count is right lowers it by one. -/
theorem unregister_of_pos (hpos : 0 < c.active) : c.unregister =
    { c with
      active := c.active - 1
      notifying := if c.active - 1 = 0 then c.notifying + 1 else c.notifying } :=
  if_neg (Nat.pos_iff_ne_zero.mp hpos)

/-! ## The invariant -/

/-- A waiter that holds the present number of calls is not ready, and none holds a later one. -/
def Waiter.Kept (c : Coordinator) : Waiter → Prop
  | .created calls => calls ≤ c.notifyCalls
  | .sleeping calls =>
    calls ≤ c.notifyCalls ∧ (calls = c.notifyCalls → c.active = 0 → 0 < c.notifying)
  | .start | .returned | .dropped => True

/-- A stream has seen what it was subscribed with, and has not left the loop for nothing. -/
def Stream.Kept (c : Coordinator) : Stream → Prop
  | .streaming seen => seen = 0
  | .shutdown => c.value = true

/-- **The invariant.** A sleeping waiter that nobody is about to wake has a guard to wait for. That
is why no wake-up is lost: the one that takes the count to 0 comes after the waiter has registered,
or the waiter finds the count at 0. -/
structure Inv (c : Coordinator) : Prop where
  active : c.active = c.guards.length
  waiters : ∀ w ∈ c.waiters, w.Kept c
  streams : ∀ t ∈ c.streams, t.Kept c
  seen : c.seen = 0
  version : c.value = true ↔ c.version ≠ 0

theorem inv_new : Inv .new := by
  constructor <;> simp [Coordinator.new]

/-- What the waiters of a step's outcome have to be checked for. -/
theorem Waiter.Kept.mono {w : Waiter} (h : w.Kept c) (hcalls : c'.notifyCalls = c.notifyCalls)
    (hwake : c'.active = 0 → c.active = 0 ∧ c.notifying ≤ c'.notifying ∨ 0 < c'.notifying) :
    w.Kept c' := by
  cases w with
  | created calls =>
    change calls ≤ c'.notifyCalls
    exact hcalls ▸ h
  | sleeping calls =>
    refine ⟨hcalls ▸ h.1, fun heq hzero => ?_⟩
    rcases hwake hzero with ⟨hwas, hle⟩ | hpos
    · exact Nat.lt_of_lt_of_le (h.2 (heq.trans hcalls) hwas) hle
    · exact hpos
  | start | returned | dropped => trivial

/-- The next place of a waiter is right. -/
theorem Waiter.Kept.next {w w' : Waiter} (h : w.Kept c) (hn : w.next c = some w') : w'.Kept c := by
  cases w with
  | start => exact Option.some.inj hn ▸ Nat.le_refl _
  | created calls =>
    simp only [Waiter.next, Option.some.injEq] at hn
    split at hn
    · exact hn ▸ trivial
    · next hne => exact hn ▸ ⟨h, fun _ hzero => absurd hzero hne⟩
  | sleeping calls =>
    simp only [Waiter.next, Option.ite_none_left_eq_some, Option.some.injEq] at hn
    exact hn.2 ▸ trivial
  | returned | dropped => cases hn

theorem Stream.Kept.next {chunk : Bool} {t t' : Stream} (hv : c.value = true ↔ c.version ≠ 0)
    (h : t.Kept c) (hn : t.next c chunk = some t') : t'.Kept c := by
  cases t with
  | streaming seen =>
    simp only [Stream.next] at hn
    split at hn
    · next hne =>
      have hseen : seen = 0 := h
      exact Option.some.inj hn ▸ hv.mpr fun hz => hne (hseen.trans hz.symm)
    · simp only [Option.ite_none_right_eq_some, Option.some.injEq] at hn
      exact hn.2 ▸ h
  | shutdown => cases hn

/-- **Every step keeps the invariant.** The part that matters is that of the waiters: one that
sleeps has a task that is still to notify it, if the count is 0. -/
theorem inv_step (h : Inv c) (hs : step c label = some c') : Inv c' := by
  obtain ⟨hactive, hwaiters, hstreams, hseen, hversion⟩ := h
  cases step_moves hs with
  | fetchId => exact ⟨hactive, hwaiters, hstreams, hseen, hversion⟩
  | countIn i id hi =>
    refine ⟨?_, fun w hw => (hwaiters w hw).mono rfl fun hz => ?_, hstreams, hseen, hversion⟩
    · simp [hactive]
    · cases hz
  | countOut i hi =>
    have hpos : 0 < c.active := hactive ▸ Nat.zero_lt_of_lt hi
    rw [unregister_of_pos hpos]
    refine ⟨?_, fun w hw => (hwaiters w hw).mono rfl fun hz => ?_, hstreams, hseen, hversion⟩
    · change c.active - 1 = _
      rw [List.length_eraseIdx_of_lt hi, hactive]
    · -- the count has reached 0, and this task is the one to notify
      have hz : c.active - 1 = 0 := hz
      refine .inr ?_
      change 0 < if c.active - 1 = 0 then c.notifying + 1 else c.notifying
      rw [if_pos hz]
      exact Nat.succ_pos _
  | notifyWaiters hne =>
    refine ⟨hactive, fun w hw => ?_, hstreams, hseen, hversion⟩
    have hw := hwaiters w hw
    cases w with
    | created calls => exact Nat.le_succ_of_le hw
    | sleeping calls =>
      refine ⟨Nat.le_succ_of_le hw.1, fun heq => ?_⟩
      -- the future was created before this call
      have heq : calls = c.notifyCalls + 1 := heq
      have hle := hw.1
      omega
    | start | returned | dropped => trivial
  | waitForDrain =>
    refine ⟨hactive, fun w hw => ?_, hstreams, hseen, hversion⟩
    rcases List.mem_append.mp hw with hw | hw
    · exact (hwaiters w hw).mono rfl fun hz => .inl ⟨hz, Nat.le_refl _⟩
    · obtain rfl := List.mem_singleton.mp hw
      trivial
  | waiter k w w' hk hn =>
    refine ⟨hactive, fun v hv => ?_, hstreams, hseen, hversion⟩
    rcases List.mem_or_eq_of_mem_set hv with hv | rfl
    · exact (hwaiters v hv).mono rfl fun hz => .inl ⟨hz, Nat.le_refl _⟩
    · exact ((hwaiters w (List.mem_of_getElem? hk)).next hn).mono rfl
        fun hz => .inl ⟨hz, Nat.le_refl _⟩
  | timeout k =>
    refine ⟨hactive, fun v hv => ?_, hstreams, hseen, hversion⟩
    rcases List.mem_or_eq_of_mem_set hv with hv | rfl
    · exact (hwaiters v hv).mono rfl fun hz => .inl ⟨hz, Nat.le_refl _⟩
    · trivial
  | shutdown =>
    refine ⟨hactive, hwaiters, fun t ht => ?_, hseen, by simp⟩
    have ht := hstreams t ht
    cases t with
    | streaming seen => exact ht
    | shutdown => rfl
  | subscribe =>
    refine ⟨hactive, hwaiters, fun t ht => ?_, hseen, hversion⟩
    rcases List.mem_append.mp ht with ht | ht
    · exact hstreams t ht
    · obtain rfl := List.mem_singleton.mp ht
      exact hseen
  | select k chunk t t' hk hn =>
    refine ⟨hactive, hwaiters, fun u hu => ?_, hseen, hversion⟩
    rcases List.mem_or_eq_of_mem_set hu with hu | rfl
    · exact hstreams u hu
    · exact (hstreams t (List.mem_of_getElem? hk)).next hversion hn

theorem inv_reachable (h : system.Reachable c) : Inv c :=
  h.invariant (fun _ h0 => h0 ▸ inv_new) fun _ _ _ ih _ hs => inv_step ih hs

/-! ## What it is for -/

/-- In `wait_for_drain`. -/
def Waiter.Waiting : Waiter → Prop
  | .start | .created _ | .sleeping _ => True
  | .returned | .dropped => False

/-- Somebody can move who brings the waiter on: the waiter, or a task that will wake it. -/
def Coordinator.Awake (c : Coordinator) (k : Nat) : Prop :=
  (step c (.waiter k)).isSome ∨ (step c .notifyWaiters).isSome

/-- **The coordinator's promises** for the next step of anybody. They are about steps, because what
a waiter must not do is to return while a guard is left. -/
structure Coordinator.Exact (c : Coordinator) : Prop where
  /-- the count is that of the live guards -/
  counted : c.active = c.guards.length
  /-- a guard that is dropped finds a count above 0 -/
  positive : ∀ i c', step c (.countOut i) = some c' → c'.active + 1 = c.active
  /-- a task returns from `wait_for_drain` only when the count is 0 -/
  returns : ∀ (label : Label) (c' : Coordinator) (k : Nat), step c label = some c' → c'.waiters[k]? = some .returned →
    c.waiters[k]? = some .returned ∨ c.active = 0
  /-- once the shutdown is signalled, a stream that is polled leaves its loop for it -/
  observed : c.value = true → ∀ k seen chunk, c.streams[k]? = some (.streaming seen) →
    ∃ c', step c (.select k chunk) = some c' ∧ c'.streams[k]? = some .shutdown
  /-- and no stream leaves it before -/
  signalled : .shutdown ∈ c.streams → c.value = true

/-- A step does not register a connection. As long as connections are accepted the count may leave 0
again, and nothing could be promised about waiting for it. -/
def NoRegistration (_ : Coordinator) (label : Label) : Prop := ∀ i, label ≠ .countIn i

theorem returns_step (hs : step c label = some c') {k : Nat}
    (hk : c'.waiters[k]? = some .returned) :
    c.waiters[k]? = some .returned ∨ c.active = 0 := by
  cases step_moves hs with
  | fetchId | countIn _ _ _ | notifyWaiters _ | shutdown | subscribe | select _ _ _ _ _ _ =>
    exact .inl hk
  | countOut i hi =>
    refine .inl ?_
    have hsame : c.unregister.waiters = c.waiters := by
      rw [Coordinator.unregister]
      split <;> rfl
    exact hsame ▸ hk
  | waitForDrain =>
    rw [List.getElem?_append] at hk
    split at hk
    · exact .inl hk
    · rw [List.getElem?_singleton] at hk
      split at hk <;> cases hk
  | timeout j =>
    rw [List.getElem?_set] at hk
    split at hk
    · split at hk <;> cases hk
    · exact .inl hk
  | waiter j w w' hj hn =>
    rw [List.getElem?_set] at hk
    split at hk
    · split at hk
      · obtain rfl := Option.some.inj hk
        cases w with
        | created calls =>
          simp only [Waiter.next, Option.some.injEq] at hn
          split at hn
          · exact .inr ‹_›
          · cases hn
        | sleeping calls =>
          simp only [Waiter.next, Option.ite_none_left_eq_some] at hn
          cases hn.2
        | start | returned | dropped => cases hn
      · cases hk
    · exact .inl hk

/-- The promises follow from the invariant. -/
theorem Inv.exact (h : Inv c) : c.Exact where
  counted := h.active
  positive i c' hs := by
    simp only [step, Option.ite_none_right_eq_some, Option.some.injEq] at hs
    obtain ⟨hi, rfl⟩ := hs
    have hpos : 0 < c.active := h.active ▸ Nat.zero_lt_of_lt hi
    rw [unregister_of_pos hpos]
    exact Nat.sub_add_cancel hpos
  returns _ _ _ hs hk := returns_step hs hk
  observed hv k seen chunk hk := by
    have hseen : seen = 0 := h.streams _ (List.mem_of_getElem? hk)
    have hne : seen ≠ c.version := hseen ▸ (h.version.mp hv).symm
    have hnext : (Stream.streaming seen).next c chunk = some .shutdown := if_pos hne
    refine ⟨{ c with streams := c.streams.set k .shutdown }, ?_, ?_⟩
    · simp only [step, hk, Option.bind_some, hnext, Option.map_some]
    · simp [(List.getElem?_eq_some_iff.mp hk).1]
  signalled hmem := h.streams _ hmem

/-- Without a registration the count stays 0. -/
theorem active_step (h : Inv c) (hzero : c.active = 0) (hno : NoRegistration c label)
    (hs : step c label = some c') : c'.active = 0 := by
  cases step_moves hs with
  | countIn i id hi => exact absurd rfl (hno i)
  | countOut i hi =>
    have hlen := h.active
    omega
  | _ => exact hzero

/-- While the count is 0 nobody in `wait_for_drain` is left asleep. -/
theorem awake_of_zero (h : Inv c) (hzero : c.active = 0) {k : Nat} {w : Waiter}
    (hk : c.waiters[k]? = some w) (hw : w.Waiting) : c.Awake k := by
  have hstep : ∀ w', w.next c = some w' → c.Awake k := fun w' hn =>
    .inl (by simp [step, hk, hn])
  cases w with
  | start => exact hstep _ rfl
  | created calls => exact hstep _ rfl
  | sleeping calls =>
    by_cases hcalls : calls = c.notifyCalls
    · have hpos := (h.waiters _ (List.mem_of_getElem? hk)).2 hcalls hzero
      exact .inr (by simp [step, Nat.pos_iff_ne_zero.mp hpos])
    · exact hstep _ (if_neg hcalls)
  | returned | dropped => exact absurd hw id

/-- The steps a waiter has before it when the count stays 0. -/
def Waiter.distance : Waiter → Nat
  | .sleeping _ => 3
  | .start => 2
  | .created _ => 1
  | .returned | .dropped => 0

/-- The steps until a waiter returns: calls of `notify_waiters` that are due come first. -/
def Coordinator.distance (c : Coordinator) (k : Nat) : Nat :=
  c.notifying + ((c.waiters[k]?).map Waiter.distance).getD 0

/-- The waiter in `wait_for_drain` or back from it, with the count at 0. -/
def Coordinator.Draining (c : Coordinator) (k : Nat) : Prop :=
  Inv c ∧ c.active = 0 ∧ ∃ w, c.waiters[k]? = some w ∧ (w.Waiting ∨ w = .returned)

/-- A waiter that has not returned gets nearer to it. -/
theorem returns_nearer {k : Nat} (h : c.Draining k) : c.waiters[k]? = some .returned ∨
    ∃ label c', system.step c label = some c' ∧ c'.Draining k ∧ c'.distance k < c.distance k := by
  obtain ⟨hinv, hzero, w, hk, hw | rfl⟩ := h
  · refine .inr ?_
    by_cases hno : c.notifying = 0
    · -- nobody is about to notify, so it is awake
      have hlt := (List.getElem?_eq_some_iff.mp hk).1
      have hown : ∀ w', w.next c = some w' → (w'.Waiting ∨ w' = .returned) →
          w'.distance < w.distance → ∃ label c', system.step c label = some c' ∧ c'.Draining k ∧
            c'.distance k < c.distance k := by
        intro w' hn hw' hnear
        have hs : step c (.waiter k) = some { c with waiters := c.waiters.set k w' } := by
          simp [step, hk, hn]
        have hget : (c.waiters.set k w')[k]? = some w' := by simp [hlt]
        refine ⟨.waiter k, _, hs, ⟨inv_step hinv hs, hzero, w', hget, hw'⟩, ?_⟩
        simp only [Coordinator.distance, hget, hk, Option.map_some, Option.getD_some]
        omega
      cases w with
      | start => exact hown _ rfl (.inl trivial) (Nat.lt_succ_self _)
      | created calls =>
        exact hown .returned (by simp [Waiter.next, hzero]) (.inr rfl) (Nat.lt_succ_self _)
      | sleeping calls =>
        have hcalls : calls ≠ c.notifyCalls := fun heq => by
          have hpos := (hinv.waiters _ (List.mem_of_getElem? hk)).2 heq hzero
          omega
        exact hown .start (if_neg hcalls) (.inl trivial) (Nat.lt_succ_self _)
      | returned | dropped => exact absurd hw id
    · have hs : step c .notifyWaiters = some { c with
          notifying := c.notifying - 1
          notifyCalls := c.notifyCalls + 1 } := if_neg hno
      refine ⟨.notifyWaiters, _, hs, ⟨inv_step hinv hs, hzero, w, hk, .inl hw⟩, ?_⟩
      simp only [Coordinator.distance]
      omega
  · exact .inl hk

/-- **A waiter returns once the count is 0.** -/
theorem returns_of_zero (h : Inv c) (hzero : c.active = 0) {k : Nat} {w : Waiter}
    (hk : c.waiters[k]? = some w) (hw : w.Waiting) :
    ∃ c', system.Leads c c' ∧ c'.waiters[k]? = some .returned := by
  obtain ⟨c', hleads, -, hret⟩ := System.Leads.of_measure (fun e : Coordinator => e.distance k)
    (fun _ => returns_nearer) (s := c) ⟨h, hzero, w, hk, .inl hw⟩
  exact ⟨c', hleads, hret⟩

/-- **The drain is exact.** In every run the count is that of the live guards, `wait_for_drain`
returns only when it is 0, and every stream observes the shutdown. From the moment at which the
count is 0, as long as no connection is registered, no task in `wait_for_drain` is left asleep and
each can return. -/
theorem drain_exact {c : Coordinator} (h : system.Reachable c) : c.Exact ∧
    (c.active = 0 → ∀ c', (system.startedAt c).ReachableIf NoRegistration c' →
      c'.active = 0 ∧ ∀ (k : Nat) (w : Waiter), c'.waiters[k]? = some w → w.Waiting →
        c'.Awake k ∧ ∃ e, system.Leads c' e ∧ e.waiters[k]? = some .returned) := by
  refine ⟨(inv_reachable h).exact, fun hzero c' hc' => ?_⟩
  have hinv : Inv c' ∧ c'.active = 0 := by
    refine hc'.invariant (I := fun e => Inv e ∧ e.active = 0) ?_ ?_
    · rintro _ rfl
      exact ⟨inv_reachable h, hzero⟩
    · rintro e label e' ⟨he, hz⟩ hno hs
      exact ⟨inv_step he hs, active_step he hz hno hs⟩
  exact ⟨hinv.2, fun k w hk hw =>
    ⟨awake_of_zero hinv.1 hinv.2 hk hw, returns_of_zero hinv.1 hinv.2 hk hw⟩⟩

/-- A connection is registered, a task waits for it, and the guard is dropped while it waits. -/
def oneConnection : List Label :=
  [.fetchId, .countIn 0, .subscribe, .shutdown, .waitForDrain, .waiter 0, .waiter 0, .countOut 0]

/-- One connection, which has been registered. -/
theorem drain_exact_oneConnection : ∃ c, system.run .new oneConnection = some c ∧
    c.waiters = [.sleeping 0] ∧ c.active = 0 ∧ c.Exact ∧ c.Awake 0 := by
  obtain ⟨c, hrun, hwaiters, hzero⟩ : ∃ c, system.run .new oneConnection = some c ∧
      c.waiters = [.sleeping 0] ∧ c.active = 0 := ⟨_, rfl, rfl, rfl⟩
  have hstart : system.Reachable .new := .init rfl
  obtain ⟨hexact, hlater⟩ := drain_exact (hstart.run _ hrun)
  have hk : c.waiters[0]? = some (.sleeping 0) := by rw [hwaiters]; rfl
  exact ⟨c, hrun, hwaiters, hzero, hexact, ((hlater hzero c (.init rfl)).2 0 _ hk trivial).1⟩

end SocketHandoff.Rust.Drain
