import SocketHandoff.Rust.Listener
import Mathlib.Tactic.Linarith

/-!
# The connection limit of the Rust daemon

The semaphore's accounts are right: the permits it has left and those that are held add up to
`max_connections`. So the limit holds exactly as far as a running handler task holds a permit,
which it does when the `async move` block captures the whole connection and does not when it
captures the two fields it mentions.
-/

namespace SocketHandoff.Rust

variable {edition : Edition} {maxConnections : Nat} {d d' : Daemon} {label : Label}

/-! ## Dropping fields -/

@[simp] theorem dropAll_nil : d.dropAll [] = d := rfl

theorem dropAll_cons (f : Field) (fields : List Field) :
    d.dropAll (f :: fields) = (d.drop f).dropAll fields := rfl

@[simp] theorem dropAll_tasks (fields : List Field) : (d.dropAll fields).tasks = d.tasks := by
  induction fields generalizing d with
  | nil => rfl
  | cons f rest ih => rw [dropAll_cons, ih]; cases f <;> rfl

@[simp] theorem dropAll_loop (fields : List Field) : (d.dropAll fields).loop = d.loop := by
  induction fields generalizing d with
  | nil => rfl
  | cons f rest ih => rw [dropAll_cons, ih]; cases f <;> rfl

@[simp] theorem dropAll_shutdown (fields : List Field) :
    (d.dropAll fields).shutdown = d.shutdown := by
  induction fields generalizing d with
  | nil => rfl
  | cons f rest ih => rw [dropAll_cons, ih]; cases f <;> rfl

/-- Every permit that is dropped goes back to the semaphore. -/
@[simp] theorem dropAll_available (fields : List Field) :
    (d.dropAll fields).available = d.available + fields.count .permit := by
  induction fields generalizing d with
  | nil => rfl
  | cons f rest ih =>
    rw [dropAll_cons, ih]
    cases f <;> simp [Daemon.drop]
    omega

/-! ## The accounts of the semaphore -/

/-- The permits the accept loop holds. -/
def Loop.permits : Loop → Nat
  | .matched => acceptedFields.count .permit
  | .spawned rest => rest.count .permit
  | .accepting | .accepted | .terminated => 0

/-- Capturing splits the permits of a connection between the task and the match arm. -/
theorem count_captured_add_leftBehind (edition : Edition) :
    (captured edition).count .permit + (leftBehind edition).count .permit =
      acceptedFields.count .permit := by
  cases edition <;> decide

/-- **The accounts**: permits left, permits in the accept loop and permits held by handler tasks add
up to the limit. A running task need not hold one, and that is the gap between these accounts and
the limit. -/
structure Accounted (edition : Edition) (maxConnections : Nat) (d : Daemon) : Prop where
  tasks : ∀ t ∈ d.tasks, t = captured edition
  permits : d.available + d.loop.permits + d.running * (captured edition).count .permit =
    maxConnections

theorem accounted_start : Accounted edition maxConnections (.start maxConnections) :=
  ⟨by simp [Daemon.start], by simp [Daemon.start, Daemon.running, Loop.permits]⟩

/-- What a step does, by its label. -/
inductive Moves (edition : Edition) (d : Daemon) : Label → Daemon → Prop
  | accept : d.loop = .accepting → Moves edition d .accept { d with loop := .accepted }
  | acceptError : Moves edition d .acceptError d
  | reject : d.loop = .accepted → Moves edition d .tryAcquire { d with loop := .accepting }
  | acquire : d.loop = .accepted → 0 < d.available →
      Moves edition d .tryAcquire
        { d with available := d.available - 1, active := d.active + 1, loop := .matched }
  | spawn : d.loop = .matched →
      Moves edition d .spawn
        { d with tasks := d.tasks ++ [captured edition], loop := .spawned (leftBehind edition) }
  | armEnd (rest : List Field) : d.loop = .spawned rest →
      Moves edition d .armEnd ({ d with loop := .accepting }.dropAll rest)
  | finish (task : Nat) (fields : List Field) : d.tasks[task]? = some fields →
      Moves edition d (.finish task) ({ d with tasks := d.tasks.eraseIdx task }.dropAll fields)
  | signal : Moves edition d .signal { d with shutdown := true }
  | seeShutdown : d.loop = .accepting → Moves edition d .seeShutdown { d with loop := .terminated }

/-- Inversion of `step`. -/
theorem step_moves (h : step edition d label = some d') : Moves edition d label d' := by
  cases label with
  | accept =>
    simp only [step, Option.ite_none_right_eq_some, Option.some.injEq] at h
    exact h.2 ▸ .accept h.1.1
  | acceptError =>
    simp only [step, Option.ite_none_right_eq_some, Option.some.injEq] at h
    exact h.2 ▸ .acceptError
  | tryAcquire =>
    simp only [step, Option.ite_none_right_eq_some] at h
    obtain ⟨hl, h⟩ := h
    by_cases hz : d.available = 0
    · rw [if_pos hz] at h
      exact Option.some.inj h ▸ .reject hl
    · rw [if_neg hz] at h
      exact Option.some.inj h ▸ .acquire hl (Nat.pos_of_ne_zero hz)
  | spawn =>
    simp only [step, Option.ite_none_right_eq_some, Option.some.injEq] at h
    exact h.2 ▸ .spawn h.1
  | armEnd =>
    simp only [step] at h
    split at h
    · next rest hl => exact Option.some.inj h ▸ .armEnd rest hl
    · cases h
  | finish task =>
    simp only [step] at h
    split at h
    · next fields hf => exact Option.some.inj h ▸ .finish task fields hf
    · cases h
  | signal => exact Option.some.inj h ▸ .signal
  | seeShutdown =>
    simp only [step, Option.ite_none_right_eq_some, Option.some.injEq] at h
    exact h.2 ▸ .seeShutdown h.1.1

/-- A step keeps the accounts. -/
theorem accounted_step (h : Accounted edition maxConnections d)
    (hs : step edition d label = some d') : Accounted edition maxConnections d' := by
  obtain ⟨ht, hp⟩ := h
  have hsplit := count_captured_add_leftBehind edition
  simp only [Daemon.running] at hp
  cases step_moves hs with
  | accept hl => exact ⟨ht, by simpa [hl, Loop.permits, Daemon.running] using hp⟩
  | acceptError => exact ⟨ht, hp⟩
  | reject hl => exact ⟨ht, by simpa [hl, Loop.permits, Daemon.running] using hp⟩
  | acquire hl hpos =>
    refine ⟨ht, ?_⟩
    have hone : acceptedFields.count .permit = 1 := by decide
    simp only [hl, Loop.permits, Daemon.running] at hp ⊢
    omega
  | spawn hl =>
    refine ⟨fun t hmem => ?_, ?_⟩
    · rcases List.mem_append.mp hmem with hold | hnew
      · exact ht t hold
      · exact List.mem_singleton.mp hnew
    · simp only [hl, Loop.permits, Daemon.running, List.length_append, List.length_singleton,
        Nat.add_mul, Nat.one_mul] at hp ⊢
      omega
  | armEnd rest hl =>
    refine ⟨by simpa using ht, ?_⟩
    simp only [hl, Loop.permits, Daemon.running, dropAll_available, dropAll_loop,
      dropAll_tasks] at hp ⊢
    omega
  | finish task fields hf =>
    have hlt := (List.getElem?_eq_some_iff.mp hf).1
    have hfields := ht fields (List.mem_of_getElem? hf)
    refine ⟨fun t hmem => ?_, ?_⟩
    · rw [dropAll_tasks] at hmem
      exact ht t (List.mem_of_mem_eraseIdx hmem)
    · obtain ⟨k, hk⟩ : ∃ k, d.tasks.length = k + 1 := ⟨d.tasks.length - 1, by omega⟩
      have hlen : (d.tasks.eraseIdx task).length = k := by
        rw [List.length_eraseIdx_of_lt hlt, hk, Nat.add_sub_cancel]
      rw [hk, Nat.add_mul, Nat.one_mul] at hp
      simp only [Daemon.running, dropAll_available, dropAll_loop, dropAll_tasks, hlen, hfields]
      omega
  | signal => exact ⟨ht, hp⟩
  | seeShutdown hl => exact ⟨ht, by simpa [hl, Loop.permits, Daemon.running] using hp⟩

/-- **The semaphore's accounts are right in every reachable state**, in both editions of the block:
the permits that are out and those that are left make up the limit. What differs is who holds a
permit while a connection runs. -/
theorem accounted_reachable (h : (system edition maxConnections).Reachable d) :
    Accounted edition maxConnections d :=
  h.invariant (fun _ h0 => h0 ▸ accounted_start) fun _ _ _ ih _ hs => accounted_step ih hs

/-- **Where the block captures the permit, the limit holds.** -/
theorem running_le_of_captured (hcap : Field.permit ∈ captured edition)
    (h : (system edition maxConnections).Reachable d) : d.running ≤ maxConnections := by
  have hp := (accounted_reachable h).permits
  have hone : 1 ≤ (captured edition).count .permit := List.one_le_count_iff.mpr hcap
  nlinarith

/-! ## The limit as the program is built -/

/-- Without any permit no task is ever spawned. -/
theorem running_eq_zero (h : (system edition 0).Reachable d) : d.running = 0 := by
  refine h.invariant_of (I := fun d => d.running = 0) (fun _ => accounted_reachable)
    (fun _ h0 => by rw [h0]; rfl) ?_
  intro d label d' hacc ih _ hs
  have hp := hacc.permits
  have hnil : d.tasks = [] := List.length_eq_zero_iff.mp ih
  cases step_moves hs with
  | spawn hl =>
    have hone : acceptedFields.count .permit = 1 := by decide
    simp only [hl, Loop.permits] at hp
    omega
  | finish task fields hf => simp [hnil] at hf
  | armEnd rest hl => simpa [Daemon.running] using ih
  | accept | acceptError | reject | acquire | signal | seeShutdown => exact ih

/-- The permit of a connection is back in the semaphore when its match arm ends, so the next one
gets through: any number of tasks can run. -/
theorem reachable_running (hpos : 0 < maxConnections) (n : Nat) :
    (system packageEdition maxConnections).Reachable
      { Daemon.start maxConnections with active := n, tasks := List.replicate n mentioned } := by
  induction n with
  | zero => exact .init rfl
  | succ n ih =>
    refine ih.run [.accept, .tryAcquire, .spawn, .armEnd] ?_
    have hne : maxConnections ≠ 0 := by omega
    simp [System.run, system, step, Daemon.start, hne, captured, Daemon.dropAll,
      List.replicate_succ', Daemon.drop, leftBehind, acceptedFields, mentioned, packageEdition]
    omega

/-- The limit holds where the running tasks hold their permits, and where there is none to be had. -/
theorem limit_iff_captured (edition : Edition) (maxConnections : Nat) :
    (∀ d, (system edition maxConnections).Reachable d → d.running ≤ maxConnections) ↔
      maxConnections = 0 ∨ Field.permit ∈ captured edition := by
  constructor
  · intro h
    by_contra hnot
    obtain ⟨hne, hcap⟩ := not_or.mp hnot
    cases edition with
    | e2018 => exact hcap (by decide)
    | e2021 =>
      have hd := h _ (reachable_running (Nat.pos_of_ne_zero hne) (maxConnections + 1))
      simp only [Daemon.running, List.length_replicate] at hd
      omega
  · rintro (rfl | hcap) d hd
    · exact Nat.le_of_eq (running_eq_zero hd)
    · exact running_le_of_captured hcap hd

/-- **The limit, exactly.** `max_connections` bounds the running tasks in all runs if it is 0, when
no connection is ever served, or if the `async move` block captures the permit, so that a task that
runs holds one. The block of this edition does not, and for it nothing but 0 is a limit. -/
theorem limit_iff (maxConnections : Nat) :
    ((∀ d, (system packageEdition maxConnections).Reachable d → d.running ≤ maxConnections) ↔
      maxConnections = 0) ∧
    ∀ edition, (∀ d, (system edition maxConnections).Reachable d → d.running ≤ maxConnections) ↔
      maxConnections = 0 ∨ Field.permit ∈ captured edition := by
  refine ⟨(limit_iff_captured packageEdition maxConnections).trans ?_, fun edition =>
    limit_iff_captured edition maxConnections⟩
  have hleft : Field.permit ∉ captured packageEdition := by decide
  exact or_iff_left hleft

/-- With a limit of one connection two handlers run at once. -/
theorem limit_exceeded :
    ¬ ∀ d, (system packageEdition 1).Reachable d → d.running ≤ 1 := by
  intro h
  have hd := h _ (reachable_running (Nat.succ_pos 0) 2)
  exact absurd hd (by decide)

end SocketHandoff.Rust
