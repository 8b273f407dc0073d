import SocketHandoff.Lib.System
import Mathlib.Data.Finset.Card

/-!
# The accept loop of the Swoole daemon

A timer of `streaming_daemon.php` accepts what is pending, and starts a coroutine for each
connection, which runs at once until it suspends itself or comes to its end. The limit is looked at
before the loop only, and a coroutine is entered in the registry when `Coroutine::create` returns.
-/

namespace SocketHandoff.Swoole.Accept

/-! ## Data -/

/-- The variables of the loop, and the coroutines. -/
structure State where
  running : Bool
  activeConnections : Int
  connId : Nat
  /-- the keys of `$activeCoroutines` -/
  activeCoroutines : Finset Nat
  /-- the coroutines of the handlers that have not finished -/
  handlers : Finset Nat
  /-- the coroutine ids below it have been in use -/
  nextCid : Nat

/-- How the coroutine of a handler comes out of `Coroutine::create`. -/
inductive Birth
  | suspends
  | finishes
  /-- there is no coroutine, and `create` returns `false` -/
  | fails
  deriving DecidableEq, Repr

/-- A pending connection, with the ids that other coroutines take before its own does. -/
structure Pending where
  others : Nat
  birth : Birth
  deriving DecidableEq, Repr

/-- Before the first tick. -/
def State.boot : State := ⟨true, 0, 0, ∅, ∅, 1⟩

/-! ## Steps -/

/-- A coroutine begins. -/
def State.begin (s : State) (cid : Nat) : State :=
  { s with handlers := insert cid s.handlers, nextCid := cid + 1 }

/-- `finally`, and the end of the coroutine. -/
def State.finish (s : State) (cid : Nat) : State :=
  { s with
    activeConnections := s.activeConnections - 1
    activeCoroutines := s.activeCoroutines.erase cid
    handlers := s.handlers.erase cid }

/-- `$activeCoroutines[$cid] = true`. -/
def State.enter (s : State) (cid : Nat) : State :=
  { s with activeCoroutines := insert cid s.activeCoroutines }

/-- What the loop does with a connection. -/
def State.accept (s : State) (p : Pending) : State :=
  let cid := s.nextCid + p.others
  let s := { s with connId := s.connId + 1, activeConnections := s.activeConnections + 1 }
  match p.birth with
  | .suspends => (s.begin cid).enter cid
  | .finishes => ((s.begin cid).finish cid).enter cid
  | .fails => s

/-- The callback of the timer, with the connections that are pending. -/
def State.tick (maxConnections : Nat) (s : State) (pending : List Pending) : State :=
  if s.running = false then s
  else if s.activeConnections ≥ maxConnections then s
  else pending.foldl State.accept s

inductive Label
  | tick (pending : List Pending)
  /-- a handler goes on, until it suspends itself again or has finished -/
  | resume (cid : Nat) (finished : Bool)
  /-- a signal -/
  | stop

def step (maxConnections : Nat) (s : State) : Label → Option State
  | .tick pending => some (s.tick maxConnections pending)
  | .resume cid finished =>
    if cid ∈ s.handlers then some (if finished then s.finish cid else s) else none
  | .stop => some { s with running := false }

/-- The loop with its handlers. -/
def system (maxConnections : Nat) : System State Label where
  init s := s = .boot
  step := step maxConnections

/-! ## The statement -/

/-- **The law.** The counter is the number of handlers that have not finished, and within the limit;
the registry has these and no others. The registry is what a shutdown cancels, so that a handler
that is missing there would be left behind. -/
structure State.Lawful (maxConnections : Nat) (s : State) : Prop where
  counted : s.activeConnections = s.handlers.card
  limited : s.activeConnections ≤ maxConnections
  registered : s.activeCoroutines = s.handlers

/-- If the callback accepts, what is pending fits into the limit, and each handler suspends itself
before it finishes. The callback takes all that is pending while the counter is only looked at
before it, and a handler that ends at once is registered after its end. -/
def State.Orderly (maxConnections : Nat) (s : State) : Label → Prop
  | .tick pending => s.running = true → s.activeConnections < maxConnections →
    s.activeConnections + pending.length ≤ maxConnections ∧ ∀ p ∈ pending, p.birth = .suspends
  | .resume _ _ | .stop => True

/-! ## The loop -/

variable {maxConnections : Nat} {s s' : State}

/-- The ids of the handlers and of the registry have been in use, so that the id of the next
coroutine is that of none. -/
structure State.Used (s : State) : Prop where
  handlers : ∀ cid ∈ s.handlers, cid < s.nextCid
  registry : ∀ cid ∈ s.activeCoroutines, cid < s.nextCid

/-- The registry has a handler that has finished. -/
def State.Stale (s : State) : Prop := ∃ cid ∈ s.activeCoroutines, cid ∉ s.handlers

theorem State.Lawful.not_stale (h : s.Lawful maxConnections) : ¬ s.Stale := by
  rintro ⟨cid, hin, hout⟩
  rw [h.registered] at hin
  exact hout hin

theorem used_accept (h : s.Used) (p : Pending) : (s.accept p).Used := by
  have hlt : ∀ cid, cid < s.nextCid → cid < s.nextCid + p.others + 1 := by
    intro cid hcid
    omega
  cases hbirth : p.birth with
  | suspends =>
    simp only [State.accept, hbirth, State.begin, State.enter]
    constructor
    · intro cid hcid
      rcases Finset.mem_insert.mp hcid with rfl | hcid
      · exact Nat.lt_succ_self _
      · exact hlt cid (h.handlers cid hcid)
    · intro cid hcid
      rcases Finset.mem_insert.mp hcid with rfl | hcid
      · exact Nat.lt_succ_self _
      · exact hlt cid (h.registry cid hcid)
  | finishes =>
    simp only [State.accept, hbirth, State.begin, State.finish, State.enter]
    constructor
    · intro cid hcid
      rcases Finset.mem_insert.mp (Finset.mem_of_mem_erase hcid) with rfl | hcid
      · exact Nat.lt_succ_self _
      · exact hlt cid (h.handlers cid hcid)
    · intro cid hcid
      rcases Finset.mem_insert.mp hcid with rfl | hcid
      · exact Nat.lt_succ_self _
      · exact hlt cid (h.registry cid (Finset.mem_of_mem_erase hcid))
  | fails =>
    simp only [State.accept, hbirth]
    exact ⟨h.handlers, h.registry⟩

theorem used_finish (h : s.Used) (cid : Nat) : (s.finish cid).Used :=
  ⟨fun c hc => h.handlers c (Finset.mem_of_mem_erase hc),
    fun c hc => h.registry c (Finset.mem_of_mem_erase hc)⟩

/-- The id of a new coroutine is not in use. -/
theorem State.Used.fresh (h : s.Used) (others : Nat) :
    s.nextCid + others ∉ s.handlers ∧ s.nextCid + others ∉ s.activeCoroutines := by
  constructor
  · intro hmem
    have hlt := h.handlers _ hmem
    omega
  · intro hmem
    have hlt := h.registry _ hmem
    omega

/-! ## Handlers that finish at once -/

/-- A stale entry stays: no new coroutine has its id. -/
theorem stale_accept (h : s.Used) (hs : s.Stale) (p : Pending) : (s.accept p).Stale := by
  obtain ⟨cid, hin, hout⟩ := hs
  have hne : cid ≠ s.nextCid + p.others := by
    rintro rfl
    exact (h.fresh p.others).2 hin
  refine ⟨cid, ?_, ?_⟩
  · cases hbirth : p.birth <;>
      simp [State.accept, hbirth, State.begin, State.finish, State.enter, hin, hne]
  · cases hbirth : p.birth <;>
      simp [State.accept, hbirth, State.begin, State.finish, State.enter, hout, hne]

/-- The entry of a handler that finishes at once is made when it is gone. -/
theorem stale_of_finishes (s : State) {p : Pending} (hp : p.birth = .finishes) :
    (s.accept p).Stale := by
  refine ⟨s.nextCid + p.others, ?_, ?_⟩
  · simp [State.accept, hp, State.enter]
  · simp [State.accept, hp, State.begin, State.finish, State.enter]

theorem used_foldl (h : s.Used) (pending : List Pending) : (pending.foldl State.accept s).Used := by
  induction pending generalizing s with
  | nil => exact h
  | cons p pending ih => exact ih (used_accept h p)

theorem stale_foldl (h : s.Used) {pending : List Pending}
    (hs : s.Stale ∨ ∃ p ∈ pending, p.birth = .finishes) :
    (pending.foldl State.accept s).Stale := by
  induction pending generalizing s with
  | nil =>
    rcases hs with hs | ⟨p, hp, -⟩
    · exact hs
    · cases hp
  | cons p pending ih =>
    refine ih (used_accept h p) ?_
    rcases hs with hs | ⟨q, hq, hfinishes⟩
    · exact .inl (stale_accept h hs p)
    · rcases List.mem_cons.mp hq with rfl | hq
      · exact .inl (stale_of_finishes s hfinishes)
      · exact .inr ⟨q, hq, hfinishes⟩

/-! ## Handlers that do not -/

/-- The handlers among these that suspend themselves. -/
def suspended (pending : List Pending) : List Pending :=
  pending.filter (·.birth = .suspends)

/-- What the loop counts, and what there is of it. -/
theorem foldl_counted (h : s.Used) {pending : List Pending}
    (hnone : ∀ p ∈ pending, p.birth ≠ .finishes) :
    (pending.foldl State.accept s).activeConnections = s.activeConnections + pending.length ∧
      (pending.foldl State.accept s).handlers.card =
        s.handlers.card + (suspended pending).length ∧
      (s.activeCoroutines = s.handlers →
        (pending.foldl State.accept s).activeCoroutines =
          (pending.foldl State.accept s).handlers) := by
  induction pending generalizing s with
  | nil => simp [suspended]
  | cons p pending ih =>
    obtain ⟨hcount, hcard, hregistry⟩ :=
      ih (used_accept h p) fun q hq => hnone q (List.mem_cons_of_mem p hq)
    rw [List.foldl_cons, hcount, hcard, List.length_cons]
    have hfresh := (h.fresh p.others).1
    cases hbirth : p.birth with
    | suspends =>
      have hsuspended : suspended (p :: pending) = p :: suspended pending := by
        simp [suspended, hbirth]
      have haccept : s.accept p = { s with
          connId := s.connId + 1
          activeConnections := s.activeConnections + 1
          handlers := insert (s.nextCid + p.others) s.handlers
          nextCid := s.nextCid + p.others + 1
          activeCoroutines := insert (s.nextCid + p.others) s.activeCoroutines } := by
        simp only [State.accept, hbirth, State.begin, State.enter]
      rw [haccept] at hregistry ⊢
      rw [hsuspended, List.length_cons]
      refine ⟨by push_cast; omega, ?_, fun heq =>
        hregistry (congrArg (insert (s.nextCid + p.others)) heq)⟩
      simp only [Finset.card_insert_of_notMem hfresh]
      omega
    | finishes => exact absurd hbirth (hnone p List.mem_cons_self)
    | fails =>
      have hsuspended : suspended (p :: pending) = suspended pending := by
        simp [suspended, hbirth]
      have haccept : s.accept p = { s with
          connId := s.connId + 1
          activeConnections := s.activeConnections + 1 } := by
        simp only [State.accept, hbirth]
      rw [haccept] at hregistry ⊢
      rw [hsuspended]
      exact ⟨by push_cast; omega, rfl, hregistry⟩

/-! ## The law -/

/-- **A tick** keeps the law exactly where it is orderly. -/
theorem lawful_tick (h : s.Used) (hs : s.Lawful maxConnections) (pending : List Pending) :
    (s.tick maxConnections pending).Lawful maxConnections ↔
      s.Orderly maxConnections (.tick pending) := by
  rw [State.tick, State.Orderly]
  by_cases hrunning : s.running = false
  · rw [if_pos hrunning]
    refine iff_of_true hs fun hr => ?_
    rw [hrunning] at hr
    cases hr
  · rw [if_neg hrunning]
    by_cases hfull : s.activeConnections ≥ maxConnections
    · rw [if_pos hfull]
      exact iff_of_true hs fun _ hlt => absurd hlt (Int.not_lt.mpr hfull)
    · rw [if_neg hfull]
      have hlt := Int.lt_of_not_ge hfull
      constructor
      · intro hlawful _ _
        have hnone : ∀ p ∈ pending, p.birth ≠ .finishes := by
          intro p hp hfinishes
          exact hlawful.not_stale (stale_foldl h (.inr ⟨p, hp, hfinishes⟩))
        obtain ⟨hcount, hcard, -⟩ := foldl_counted h hnone
        have hcounted := hlawful.counted
        have hlimited := hlawful.limited
        rw [hcount] at hcounted hlimited
        refine ⟨hlimited, ?_⟩
        -- each of them is among the handlers
        rw [hcard, hs.counted] at hcounted
        have hall : (suspended pending).length = pending.length := by
          push_cast at hcounted
          omega
        intro p hp
        exact of_decide_eq_true (List.length_filter_eq_length_iff.mp hall p hp)
      · intro horderly
        obtain ⟨hlimited, hall⟩ := horderly (by simpa using hrunning) hlt
        have hnone : ∀ p ∈ pending, p.birth ≠ .finishes := by
          intro p hp hfinishes
          rw [hall p hp] at hfinishes
          cases hfinishes
        obtain ⟨hcount, hcard, hregistry⟩ := foldl_counted h hnone
        have hsuspended : (suspended pending).length = pending.length :=
          List.length_filter_eq_length_iff.mpr fun p hp => decide_eq_true (hall p hp)
        refine ⟨?_, ?_, hregistry hs.registered⟩
        · rw [hcount, hcard, hs.counted, hsuspended]
          push_cast
          rfl
        · rw [hcount]
          exact hlimited

theorem lawful_finish (hs : s.Lawful maxConnections) {cid : Nat} (hcid : cid ∈ s.handlers) :
    (s.finish cid).Lawful maxConnections := by
  have hpos : 0 < s.handlers.card := Finset.card_pos.mpr ⟨cid, hcid⟩
  have hcounted := hs.counted
  have hlimited := hs.limited
  refine ⟨?_, ?_, congrArg (Finset.erase · cid) hs.registered⟩
  · simp only [State.finish, Finset.card_erase_of_mem hcid]
    omega
  · simp only [State.finish]
    omega

/-- **Every step** keeps the law exactly where it is orderly. Both directions are stated for one
step, and the run in which all steps are orderly follows by induction. -/
theorem lawful_step (h : s.Used) (hs : s.Lawful maxConnections) {a : Label}
    (ha : step maxConnections s a = some s') :
    s'.Lawful maxConnections ↔ s.Orderly maxConnections a := by
  cases a with
  | tick pending =>
    obtain rfl := Option.some.inj ha
    exact lawful_tick h hs pending
  | resume cid finished =>
    obtain ⟨hcid, ha⟩ := Option.ite_none_right_eq_some.mp ha
    obtain rfl := Option.some.inj ha
    refine iff_of_true ?_ trivial
    cases finished with
    | false => exact hs
    | true => exact lawful_finish hs hcid
  | stop =>
    obtain rfl := Option.some.inj ha
    exact iff_of_true ⟨hs.counted, hs.limited, hs.registered⟩ trivial

theorem used_step (h : s.Used) {a : Label} (ha : step maxConnections s a = some s') : s'.Used := by
  cases a with
  | tick pending =>
    obtain rfl := Option.some.inj ha
    rw [State.tick]
    split
    · exact h
    · split
      · exact h
      · exact used_foldl h pending
  | resume cid finished =>
    obtain ⟨-, ha⟩ := Option.ite_none_right_eq_some.mp ha
    obtain rfl := Option.some.inj ha
    cases finished with
    | false => exact h
    | true => exact used_finish h cid
  | stop =>
    obtain rfl := Option.some.inj ha
    exact ⟨h.handlers, h.registry⟩

/-- **The limit and the registry.** The law holds along every run whose steps are orderly, and the
first step that is not breaks it: by a counter above the limit, or by a handler in the registry that
has finished before it was entered there. -/
theorem accept_lawful_iff
    (h : (system maxConnections).ReachableIf (State.Orderly maxConnections) s) :
    s.Lawful maxConnections ∧ ∀ a s', (system maxConnections).step s a = some s' →
      (s'.Lawful maxConnections ↔ s.Orderly maxConnections a) := by
  have hboth : s.Used ∧ s.Lawful maxConnections := by
    refine h.invariant (I := fun s => s.Used ∧ s.Lawful maxConnections) ?_ ?_
    · rintro s rfl
      refine ⟨⟨by simp [State.boot], by simp [State.boot]⟩, rfl, ?_, rfl⟩
      exact Int.natCast_nonneg maxConnections
    · intro s a s' hI hC hs
      exact ⟨used_step hI.1 hs, (lawful_step hI.1 hI.2 hs).mpr hC⟩
  exact ⟨hboth.2, fun a s' hs => lawful_step hboth.1 hboth.2 hs⟩

/-- One connection, whose handler suspends itself and then finishes. -/
theorem accept_lawful_iff_one : ∃ s, (system 1).run .boot [.tick [⟨0, .suspends⟩], .resume 1 true] =
    some s ∧ s.connId = 1 ∧ s.Lawful 1 := by
  have hinit : (system 1).ReachableIf (State.Orderly 1) .boot := .init rfl
  have horderly : State.boot.Orderly 1 (.tick [⟨0, .suspends⟩]) :=
    fun _ _ => ⟨Int.le_refl 1, by simp⟩
  have haccepted : (system 1).ReachableIf (State.Orderly 1) ⟨true, 1, 1, {1}, {1}, 2⟩ :=
    hinit.step horderly rfl
  have hfinished : (system 1).ReachableIf (State.Orderly 1) ⟨true, 0, 1, ∅, ∅, 2⟩ :=
    haccepted.step (a := .resume 1 true) trivial rfl
  exact ⟨_, rfl, rfl, (accept_lawful_iff hfinished).1⟩

/-- **A burst**: two connections are pending, and one is allowed. -/
theorem accept_overrun : ¬ ∀ s, (system 1).Reachable s → s.Lawful 1 := by
  intro h
  have hrun : (system 1).run .boot [.tick [⟨0, .suspends⟩, ⟨0, .suspends⟩]] =
      some ⟨true, 2, 2, {2, 1}, {2, 1}, 3⟩ := rfl
  have hreach : (system 1).Reachable ⟨true, 2, 2, {2, 1}, {2, 1}, 3⟩ :=
    System.Reachable.run (.init rfl) _ hrun
  exact absurd (h _ hreach).limited (by decide)

/-- The handler of a connection without a descriptor finishes at once, and its id stays in the
registry. -/
theorem accept_retained : ∃ s, (system 1).Reachable s ∧ s.activeCoroutines = {1} ∧
    s.handlers = ∅ := by
  have hrun : (system 1).run .boot [.tick [⟨0, .finishes⟩]] =
      some ⟨true, 0, 1, {1}, ∅, 2⟩ := rfl
  exact ⟨_, System.Reachable.run (.init rfl) _ hrun, rfl, rfl⟩

end SocketHandoff.Swoole.Accept
