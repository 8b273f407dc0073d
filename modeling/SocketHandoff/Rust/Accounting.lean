import SocketHandoff.Lib.System
import SocketHandoff.Rust.Stream

/-!
# The stream counters of the Rust daemon

`stream_to_client` counts a stream in at its top and counts it out at its bottom. What is left
early in between (by `?`, by a `return`, by a panic that `handle` catches) is never counted out:
the counters balance exactly when no connection has left that way.
-/

namespace SocketHandoff.Rust

open Act

/-! ## One connection -/

/-- What the start of a stream does to the counters. -/
def startOps (benchmark : Bool) : List Op :=
  if benchmark then [⟨.totalStarted, 1⟩, ⟨.benchActive, 1⟩] else [⟨.activeStreams, 1⟩]

/-- What the end of a stream does to the counters. -/
def endOps (benchmark success : Bool) (bytes : Nat) : List Op :=
  if benchmark then
    [⟨.benchActive, -1⟩, ⟨if success then .totalCompleted else .totalFailed, 1⟩,
      ⟨.totalBytes, bytes⟩]
  else [⟨.activeStreams, -1⟩]

/-- Every start is followed by exactly one end. -/
def Matched (benchmark : Bool) (ops : List Op) : Prop :=
  ops = [] ∨ ∃ success bytes, ops = startOps benchmark ++ endOps benchmark success bytes

/-- Whether the loop comes to a `select!` that panics, when `n` writes were made before. -/
def Env.loopPanics (ω : Env) : Nat → List Poll → Bool
  | _, .panics :: _ => true
  | n, .next (some (.ok chunk)) :: polls =>
    if chunk.content = [] then !chunk.done && ω.loopPanics n polls
    else
      decide (ω.write n (formatSseChunk chunk.content) = .all) && !chunk.done &&
        ω.loopPanics (n + 1) polls
  | _, _ => false

/-- **The paths with an end.** There is no handoff, or everything goes well up to the header, and
the loop is not left by a panic. -/
def Env.Ends (ω : Env) : Prop :=
  ω.receiveHandoff ≠ .ok ∨
    ω.setNodelay = .ok ∧ ω.setNonblocking = .ok ∧ ω.fromStd = .ok ∧ ω.stream = .stream ∧
      ω.write 0 sseHeaders = .all ∧ ω.loopPanics 1 ω.polls = false

instance (ω : Env) : Decidable ω.Ends := inferInstanceAs (Decidable (_ ∨ _))

/-- The connection does not wait for its backend for ever. -/
def Env.finished (ω : Env) : Bool :=
  match handle.result ω .new with
  | .error e => e ≠ .pending
  | .ok () => true

variable {ω : Env} {ops : List Op} {n : Nat}

/-- What the counters and the number of the writes say of a task. -/
def Booked (n : Nat) (ops : List Op) (s : Task) : Prop := s.wire.writes.length = n ∧ s.ops = ops

theorem booked_write (data : List UInt8) :
    Triple ω (Booked n ops) (writeWithTimeout data) fun ok s =>
      ok = decide (ω.write n data = .all) ∧ Booked (n + 1) ops s := by
  refine Triple.ask fun _ s hs => ?_
  obtain ⟨rfl, rfl⟩ := hs
  cases hanswer : ω.write s.wire.writes.length data with
  | all => exact ⟨by simp [Wire.write], by simp [Booked, Wire.write]⟩
  | cut taken => exact ⟨by simp [Wire.write], by simp [Booked, Wire.write]⟩

theorem booked_fetchAdd (counter : Counter) (amount : Int) :
    Triple ω (Booked n ops) (fetchAdd counter amount) fun _ =>
      Booked n (ops ++ [⟨counter, amount⟩]) :=
  Triple.modify fun _ hs => ⟨hs.1, congrArg (· ++ _) hs.2⟩

theorem booked_streamStart :
    Triple ω (Booked n ops) streamStart fun _ => Booked n (ops ++ startOps ω.benchmark) := by
  refine Triple.read_bind ?_
  rw [startOps]
  cases ω.benchmark with
  | false => exact booked_fetchAdd _ _
  | true =>
    refine Triple.bind (booked_fetchAdd _ _) fun _ => ?_
    refine Triple.conseq (booked_fetchAdd _ _) (fun _ => id) fun _ s hs => ?_
    rw [List.append_assoc] at hs
    exact hs

theorem booked_streamEnd (success : Bool) :
    Triple ω (fun s => s.ops = ops) (streamEnd success) fun _ s =>
      ∃ bytes, s.ops = ops ++ endOps ω.benchmark success bytes := by
  refine Triple.read_bind ?_
  simp only [endOps]
  cases ω.benchmark with
  | false =>
    intro m s hs
    subst hs
    exact ⟨0, rfl⟩
  | true =>
    intro m s hs
    subst hs
    refine ⟨s.wire.bytesWritten, ?_⟩
    cases success with
    | false => simp [benchStreamEnd, fetchAdd]
    | true => simp [benchStreamEnd, fetchAdd]

theorem booked_finishStream (success : Bool) :
    Triple ω (fun s => s.ops = ops) (finishStream success) fun _ s =>
      ∃ bytes, s.ops = ops ++ endOps ω.benchmark success bytes := by
  cases success with
  | false => exact booked_streamEnd false
  | true => exact Triple.bind (Triple.ask fun _ _ hs => hs) fun _ => booked_streamEnd true

/-- What the loop does when it has written a chunk, or has not. -/
theorem booked_afterChunk {chunk : StreamChunk} {polls : List Poll} (ok : Bool)
    (ih : Tries ω (Booked n ops) (streamLoop polls)
      (fun _ s => ω.loopPanics n polls = false ∧ s.ops = ops)
      fun e s => e ≠ .pending → ω.loopPanics n polls = true ∧ s.ops = ops) :
    Tries ω (Booked n ops)
      (if ok = true then if chunk.done = true then pure true else streamLoop polls else pure false)
      (fun _ s => (ok && !chunk.done && ω.loopPanics n polls) = false ∧ s.ops = ops)
      fun e s => e ≠ .pending → (ok && !chunk.done && ω.loopPanics n polls) = true ∧ s.ops = ops := by
  cases ok with
  | false => exact Tries.pure _ fun s hs => ⟨rfl, hs.2⟩
  | true =>
    cases chunk.done with
    | false => exact ih
    | true => exact Tries.pure _ fun s hs => ⟨rfl, hs.2⟩

/-- **The loop** touches no counter, and panics where the polls say so. What is left of the loop for
the accounts is thus which of its exits is taken. -/
theorem booked_streamLoop (polls : List Poll) (n : Nat) :
    Tries ω (Booked n ops) (streamLoop polls)
      (fun _ s => ω.loopPanics n polls = false ∧ s.ops = ops)
      fun e s => e ≠ .pending → ω.loopPanics n polls = true ∧ s.ops = ops := by
  induction polls generalizing n with
  | nil => exact Tries.throw _ fun s hs h => absurd rfl h
  | cons poll polls ih =>
    rcases poll with _ | (_ | e | chunk) | _
    · exact Tries.pure _ fun s hs => ⟨rfl, hs.2⟩
    · exact Tries.pure _ fun s hs => ⟨rfl, hs.2⟩
    · exact Tries.bind (Tries.lift (booked_write _)) fun ok => Tries.pure _ fun s hs => ⟨rfl, hs.2.2⟩
    · rw [Env.loopPanics]
      refine Tries.ite (fun hc => ?_) fun hc => ?_
      · rw [if_pos hc]
        exact Tries.pure_bind (booked_afterChunk true (ih n))
      · rw [if_neg hc]
        refine Tries.bind (Tries.lift (booked_write _)) fun ok => Tries.assume fun hok => ?_
        rw [← hok]
        exact booked_afterChunk ok (ih (n + 1))
    · exact Tries.throw _ fun s hs _ => ⟨rfl, hs.2⟩

theorem booked_errorResponse (status : Nat) (reason : List UInt8) :
    Triple ω (Booked n ops) (sendErrorResponse status reason) fun _ s => s.ops = ops :=
  Triple.bind (booked_write _) fun _ => Triple.pure () fun _ hs => hs.2.2

theorem booked_createStream :
    Tries ω (Booked 0 ops) createStream (fun _ s => ω.stream = .stream ∧ Booked 0 ops s)
      fun _ s => ω.stream ≠ .stream ∧ s.ops = ops := by
  refine Tries.read_bind ?_
  cases ω.stream with
  | stream => exact Tries.pure _ fun s hs => ⟨rfl, hs⟩
  | err =>
    refine Tries.bind (Tries.lift (booked_errorResponse _ _)) fun _ => ?_
    exact Tries.throw _ fun s hs => ⟨by simp, hs⟩
  | timeout =>
    refine Tries.bind (Tries.lift (booked_errorResponse _ _)) fun _ => ?_
    exact Tries.throw _ fun s hs => ⟨by simp, hs⟩
  | panics => exact Tries.throw _ fun s hs => ⟨by simp, hs.2⟩

theorem booked_sendHeaders :
    Tries ω (Booked 0 ops) (written sendHeaders .stream)
      (fun _ s => ω.write 0 sseHeaders = .all ∧ Booked 1 ops s)
      fun _ s => ω.write 0 sseHeaders ≠ .all ∧ s.ops = ops := by
  refine Tries.bind (Tries.lift (booked_write _)) fun ok => Tries.assume fun hok => ?_
  cases ok with
  | false => exact Tries.throw _ fun s hs => ⟨of_decide_eq_false hok.symm, hs.2⟩
  | true => exact Tries.pure _ fun s hs => ⟨of_decide_eq_true hok.symm, hs⟩

/-- What the counters have seen of a connection: all of a stream, or its start only. -/
def Outcome (ω : Env) (s : Task) : Prop :=
  ω.Ends ∧ Matched ω.benchmark s.ops ∨ ¬ ω.Ends ∧ s.ops = startOps ω.benchmark

theorem outcome_streamToClient (hhandoff : ω.receiveHandoff = .ok) :
    Tries ω (Booked 0 []) streamToClient (fun _ => Outcome ω)
      fun e s => e ≠ .pending → Outcome ω s := by
  refine Tries.bind (Tries.lift booked_streamStart) fun _ => ?_
  refine Tries.bind (tries_question fun hf _ s hs _ => .inr ⟨?_, hs.2⟩) fun _ =>
    Tries.assume fun hnodelay => ?_
  · simp [Env.Ends, hhandoff, hf]
  refine Tries.bind (tries_question fun hf _ s hs _ => .inr ⟨?_, hs.2⟩) fun _ =>
    Tries.assume fun hnonblocking => ?_
  · simp [Env.Ends, hhandoff, hf]
  refine Tries.bind (tries_question fun hf _ s hs _ => .inr ⟨?_, hs.2⟩) fun _ =>
    Tries.assume fun hfromStd => ?_
  · simp [Env.Ends, hhandoff, hf]
  refine Tries.bind (booked_createStream.conseq (fun _ => id) (fun _ _ => id)
    fun _ s hs _ => .inr ⟨?_, hs.2⟩) fun _ => Tries.assume fun hstream => ?_
  · simp [Env.Ends, hhandoff, hs.1]
  refine Tries.bind (booked_sendHeaders.conseq (fun _ => id) (fun _ _ => id)
    fun _ s hs _ => .inr ⟨?_, hs.2⟩) fun _ => Tries.assume fun hheaders => ?_
  · simp [Env.Ends, hhandoff, hs.1]
  refine Tries.read_bind ?_
  refine Tries.bind ((booked_streamLoop ω.polls 1).conseq (fun _ => id) (fun _ _ => id)
    fun _ s hs he => .inr ⟨?_, (hs he).2⟩) fun completed => Tries.assume fun hloop => ?_
  · simp [Env.Ends, hhandoff, (hs he).1]
  have hends : ω.Ends := .inr ⟨hnodelay, hnonblocking, hfromStd, hstream, hheaders, hloop⟩
  exact Tries.lift ((booked_finishStream completed).conseq (fun _ => id)
    fun _ s ⟨bytes, hs⟩ => .inl ⟨hends, .inr ⟨completed, bytes, hs⟩⟩)

/-- **One connection**, once it is over, has been counted out or has not. -/
theorem outcome_handle (hω : ω.finished = true) : Outcome ω (handle.final ω .new) := by
  have htries : Tries ω (Booked 0 []) handleInner (fun _ => Outcome ω)
      fun e s => e ≠ .pending → Outcome ω s := by
    refine Tries.bind (tries_question fun hf _ s hs _ => .inl ⟨.inl hf, .inl hs.2⟩) fun _ =>
      Tries.assume outcome_streamToClient
  have hrun := Triple.run htries (s := .new) ⟨rfl, rfl⟩
  rw [Env.finished, handle] at hω
  rcases hresult : handleInner.run.result ω .new with e | a
  · rw [hresult] at hrun hω
    exact hrun (of_decide_eq_true hω)
  · rw [hresult] at hrun
    exact hrun

theorem startOps_not_matched (benchmark : Bool) : ¬ Matched benchmark (startOps benchmark) := by
  rintro (h | ⟨success, bytes, h⟩)
  · cases benchmark <;> cases h
  · cases benchmark <;> cases h

/-! ## The daemon -/

namespace Accounting

/-- A connection that is being handled, with what it has still to do to the counters. -/
structure Handled where
  env : Env
  ops : List Op

/-- The counters, and the connections around them. -/
structure Daemon where
  counters : Counter → Int
  handled : List Handled
  /-- the connections so far -/
  accepted : List Env

/-- What happens next. -/
inductive Label
  /-- a connection is spawned -/
  | accept (ω : Env)
  /-- a connection comes to its next counter -/
  | fetch (i : Nat)
  /-- `handle` returns -/
  | finish (i : Nat)

/-- `counter.fetch_add(n)` on the counters of the process. -/
def Daemon.fetch (d : Daemon) (op : Op) : Counter → Int := fun c =>
  d.counters c + if op.counter = c then op.amount else 0

/-- Connections whose tasks are interleaved in any order, one atomic operation at a time. -/
def daemon (benchmark : Bool) : System Daemon Label where
  init d := d = ⟨fun _ => 0, [], []⟩
  step d
    | .accept ω =>
      if ω.benchmark = benchmark then
        some { d with
          handled := d.handled ++ [⟨ω, (handle.final ω .new).ops⟩]
          accepted := d.accepted ++ [ω] }
      else none
    | .fetch i =>
      match d.handled[i]? with
      | some ⟨ω, op :: ops⟩ => some { d with
          counters := d.fetch op
          handled := d.handled.set i ⟨ω, ops⟩ }
      | _ => none
    | .finish i =>
      match d.handled[i]? with
      | some ⟨ω, []⟩ =>
        if ω.finished then some { d with handled := d.handled.eraseIdx i } else none
      | _ => none

/-- What the counters should say when no connection is being handled. -/
def Balanced (d : Daemon) : Prop :=
  d.counters .benchActive = 0 ∧ d.counters .activeStreams = 0 ∧
    d.counters .totalStarted = d.counters .totalCompleted + d.counters .totalFailed

/-! ## What is booked -/

/-- What operations add to a counter. -/
def total (c : Counter) : List Op → Int
  | [] => 0
  | op :: ops => (if op.counter = c then op.amount else 0) + total c ops

/-- What connections add to a counter in all. -/
def booked (c : Counter) : List Env → Int
  | [] => 0
  | ω :: ωs => total c (handle.final ω .new).ops + booked c ωs

/-- What connections have still to add to a counter. -/
def owed (c : Counter) : List Handled → Int
  | [] => 0
  | h :: hs => total c h.ops + owed c hs

variable {c : Counter} {op : Op} {ops : List Op} {h : Handled} {hs : List Handled} {i : Nat}

theorem booked_append (l : List Env) (ω : Env) :
    booked c (l ++ [ω]) = booked c l + total c (handle.final ω .new).ops := by
  induction l with
  | nil => exact Int.add_comm _ _
  | cons ω' l ih => rw [List.cons_append, booked, ih, booked, Int.add_assoc]

theorem owed_append (hs : List Handled) (h : Handled) :
    owed c (hs ++ [h]) = owed c hs + total c h.ops := by
  induction hs with
  | nil => exact Int.add_comm _ _
  | cons h' hs ih => rw [List.cons_append, owed, ih, owed, Int.add_assoc]

/-- Where one connection goes on, its part changes. -/
theorem owed_set (hi : hs[i]? = some h) (h' : Handled) :
    owed c (hs.set i h') + total c h.ops = owed c hs + total c h'.ops := by
  induction hs generalizing i with
  | nil => cases hi
  | cons h₀ hs ih =>
    cases i with
    | zero =>
      obtain rfl : h₀ = h := Option.some.inj hi
      rw [List.set_cons_zero, owed, owed]
      omega
    | succ i =>
      have hrest := ih hi
      rw [List.set_cons_succ, owed, owed]
      omega

/-- A connection that leaves takes its part with it. -/
theorem owed_eraseIdx (hi : hs[i]? = some h) :
    owed c (hs.eraseIdx i) + total c h.ops = owed c hs := by
  induction hs generalizing i with
  | nil => cases hi
  | cons h₀ hs ih =>
    cases i with
    | zero =>
      obtain rfl : h₀ = h := Option.some.inj hi
      rw [List.eraseIdx_cons_zero, owed]
      omega
    | succ i =>
      have hrest := ih hi
      rw [List.eraseIdx_cons_succ, owed, owed]
      omega

/-- **The books.** The counters and what is still owed make up what is booked; a connection that is
no longer handled has come to its end. The sum is over all connections there have been, so that no
order of their steps comes into it. -/
structure Books (d : Daemon) : Prop where
  add : ∀ c, d.counters c + owed c d.handled = booked c d.accepted
  settled : ∀ ω ∈ d.accepted, ω.finished = true ∨ ∃ h ∈ d.handled, h.env = ω

variable {benchmark : Bool} {d d' : Daemon} {label : Label}

/-- **What a step can do.** -/
theorem step_cases (hstep : (daemon benchmark).step d label = some d') :
    (∃ ω, ω.benchmark = benchmark ∧
      d' = { d with
        handled := d.handled ++ [⟨ω, (handle.final ω .new).ops⟩]
        accepted := d.accepted ++ [ω] }) ∨
    (∃ i ω op ops, d.handled[i]? = some ⟨ω, op :: ops⟩ ∧
      d' = { d with
        counters := d.fetch op
        handled := d.handled.set i ⟨ω, ops⟩ }) ∨
    (∃ i ω, d.handled[i]? = some ⟨ω, []⟩ ∧ ω.finished = true ∧
      d' = { d with handled := d.handled.eraseIdx i }) := by
  cases label with
  | accept ω =>
    simp only [daemon] at hstep
    split at hstep
    · rename_i hb
      exact .inl ⟨ω, hb, (Option.some.inj hstep).symm⟩
    · cases hstep
  | fetch i =>
    simp only [daemon] at hstep
    split at hstep
    · rename_i ω op ops hi
      exact .inr (.inl ⟨i, ω, op, ops, hi, (Option.some.inj hstep).symm⟩)
    · cases hstep
  | finish i =>
    simp only [daemon] at hstep
    split at hstep
    · rename_i ω hi
      split at hstep
      · rename_i hω
        exact .inr (.inr ⟨i, ω, hi, hω, (Option.some.inj hstep).symm⟩)
      · cases hstep
    · cases hstep

theorem Books.step (hd : Books d) (hstep : (daemon benchmark).step d label = some d') :
    Books d' := by
  obtain ⟨ω, -, rfl⟩ | ⟨i, ω, op, ops, hi, rfl⟩ | ⟨i, ω, hi, hω, rfl⟩ := step_cases hstep
  · refine ⟨fun c => ?_, fun ω' hω' => ?_⟩
    · have hadd := hd.add c
      have howed := owed_append (c := c) d.handled ⟨ω, (handle.final ω .new).ops⟩
      change d.counters c + owed c (d.handled ++ [_]) = booked c (d.accepted ++ [ω])
      rw [howed, booked_append, ← hadd, Int.add_assoc]
    · rcases List.mem_append.mp hω' with hω' | hω'
      · refine (hd.settled ω' hω').imp_right fun ⟨h, hh, henv⟩ => ?_
        exact ⟨h, List.mem_append_left _ hh, henv⟩
      · obtain rfl := List.mem_singleton.mp hω'
        exact .inr ⟨_, List.mem_append_right _ (List.mem_singleton_self _), rfl⟩
  · refine ⟨fun c => ?_, fun ω' hω' => ?_⟩
    · have hadd := hd.add c
      have hset := owed_set (c := c) hi ⟨ω, ops⟩
      change owed c _ + ((if op.counter = c then op.amount else 0) + total c ops) =
        owed c _ + total c ops at hset
      change d.fetch op c + owed c (d.handled.set i ⟨ω, ops⟩) = booked c d.accepted
      rw [Daemon.fetch]
      omega
    · refine (hd.settled ω' hω').imp_right fun ⟨h, hh, henv⟩ => ?_
      -- the connection that has moved is still the same
      obtain ⟨j, hj⟩ := List.mem_iff_getElem?.mp hh
      by_cases hij : i = j
      · subst hij
        rw [hi] at hj
        obtain rfl := Option.some.inj hj
        refine ⟨⟨ω, ops⟩, List.mem_of_getElem? (i := i) ?_, henv⟩
        exact List.getElem?_set_self (List.getElem?_eq_some_iff.mp hi).1
      · refine ⟨h, List.mem_of_getElem? (i := j) ?_, henv⟩
        rw [List.getElem?_set_ne hij, hj]
  · refine ⟨fun c => ?_, fun ω' hω' => ?_⟩
    · have hadd := hd.add c
      have herase := owed_eraseIdx (c := c) hi
      rw [total] at herase
      change d.counters c + owed c (d.handled.eraseIdx i) = booked c d.accepted
      omega
    · rcases hd.settled ω' hω' with hover | ⟨h, hh, henv⟩
      · exact .inl hover
      obtain ⟨j, hj⟩ := List.mem_iff_getElem?.mp hh
      by_cases hij : i = j
      · subst hij
        rw [hi] at hj
        obtain rfl := Option.some.inj hj
        exact .inl (henv ▸ hω)
      · exact .inr ⟨h, (List.mem_eraseIdx_iff_getElem?).mpr ⟨j, Ne.symm hij, hj⟩, henv⟩

theorem books (hd : (daemon benchmark).Reachable d) : Books d :=
  hd.invariant (fun d hinit => by
    obtain rfl : d = _ := hinit
    exact ⟨fun _ => rfl, fun ω hω => absurd hω List.not_mem_nil⟩)
    fun _ _ _ hI _ hstep => hI.step hstep

/-! ## The balance -/

/-- What is matched adds nothing. -/
theorem total_matched (hops : Matched benchmark ops) :
    total .benchActive ops = 0 ∧ total .activeStreams ops = 0 ∧
      total .totalStarted ops = total .totalCompleted ops + total .totalFailed ops := by
  rcases hops with rfl | ⟨success, bytes, rfl⟩
  · exact ⟨rfl, rfl, rfl⟩
  · cases benchmark <;> cases success <;> simp [startOps, endOps, total]

/-- A start alone leaves one stream active. -/
theorem total_startOps (benchmark : Bool) :
    total .benchActive (startOps benchmark) + total .activeStreams (startOps benchmark) = 1 := by
  cases benchmark <;> rfl

/-- The streams that are active for ever are those of the connections without an end. -/
theorem booked_active (l : List Env) (hl : ∀ ω ∈ l, ω.finished = true) :
    booked .benchActive l + booked .activeStreams l = (l.filter (¬ ·.Ends)).length := by
  induction l with
  | nil => rfl
  | cons ω l ih =>
    have hrest := ih fun ω' hω' => hl ω' (List.mem_cons_of_mem _ hω')
    rw [booked, booked]
    rcases outcome_handle (hl ω List.mem_cons_self) with ⟨hends, hops⟩ | ⟨hends, hops⟩
    · obtain ⟨hbench, hactive, -⟩ := total_matched hops
      rw [List.filter_cons_of_neg (by simpa using hends)]
      omega
    · have hone := total_startOps ω.benchmark
      rw [List.filter_cons_of_pos (by simpa using hends), List.length_cons, hops]
      omega

/-- Connections with an end leave nothing behind. -/
theorem booked_ends (l : List Env) (hl : ∀ ω ∈ l, ω.finished = true) (hends : ∀ ω ∈ l, ω.Ends) :
    booked .benchActive l = 0 ∧ booked .activeStreams l = 0 ∧
      booked .totalStarted l = booked .totalCompleted l + booked .totalFailed l := by
  induction l with
  | nil => exact ⟨rfl, rfl, rfl⟩
  | cons ω l ih =>
    obtain ⟨hbench, hactive, htotal⟩ := ih (fun ω' hω' => hl ω' (List.mem_cons_of_mem _ hω'))
      fun ω' hω' => hends ω' (List.mem_cons_of_mem _ hω')
    rcases outcome_handle (hl ω List.mem_cons_self) with ⟨-, hops⟩ | ⟨hnot, -⟩
    · obtain ⟨hbench', hactive', htotal'⟩ := total_matched hops
      simp only [booked]
      omega
    · exact absurd (hends ω List.mem_cons_self) hnot

/-- The counters of a daemon that handles no connection are what is booked. -/
theorem Books.quiet (hd : Books d) (hquiet : d.handled = []) (c : Counter) :
    d.counters c = booked c d.accepted := by
  have hadd := hd.add c
  rw [hquiet, owed, Int.add_zero] at hadd
  exact hadd

/-- **When the accounts balance.** A connection that is over has been counted out exactly if
nothing has made it leave early, and the counters of a daemon that handles no connection balance
exactly if none has left that way. -/
theorem balanced_iff_ends (benchmark : Bool) :
    (∀ ω : Env, ω.finished = true →
      (Matched ω.benchmark (handle.final ω .new).ops ↔ ω.Ends)) ∧
    ∀ d, (daemon benchmark).Reachable d → d.handled = [] →
      (Balanced d ↔ ∀ ω ∈ d.accepted, ω.Ends) := by
  refine ⟨fun ω hω => ?_, fun d hd hquiet => ?_⟩
  · rcases outcome_handle hω with ⟨hends, hops⟩ | ⟨hends, hops⟩
    · exact iff_of_true hops hends
    · rw [hops]
      exact iff_of_false (startOps_not_matched _) hends
  · have hbooks := books hd
    have hover : ∀ ω ∈ d.accepted, ω.finished = true := by
      intro ω hω
      rcases hbooks.settled ω hω with hover | ⟨h, hh, -⟩
      · exact hover
      · rw [hquiet] at hh
        cases hh
    rw [Balanced, hbooks.quiet hquiet, hbooks.quiet hquiet, hbooks.quiet hquiet,
      hbooks.quiet hquiet, hbooks.quiet hquiet]
    refine ⟨fun ⟨hbench, hactive, _⟩ ω hω => ?_, booked_ends _ hover⟩
    have hcount := booked_active d.accepted hover
    have hnone : d.accepted.filter (¬ ·.Ends) = [] := List.eq_nil_of_length_eq_zero (by omega)
    by_contra hends
    have hmem : ω ∈ d.accepted.filter (¬ ·.Ends) := List.mem_filter.mpr ⟨hω, by simpa using hends⟩
    rw [hnone] at hmem
    cases hmem

/-- A connection to a backend that refuses, with a client that takes everything. -/
def refused : Env where
  benchmark := true
  receiveHandoff := .ok
  setNodelay := .ok
  setNonblocking := .ok
  fromStd := .ok
  stream := .err
  write _ _ := .all
  polls := []

/-- After one connection to a backend that refuses, a stream is active for ever. -/
theorem refused_leaks : ∃ d, (daemon true).Reachable d ∧ d.handled = [] ∧ d.accepted = [refused] ∧
    d.counters .benchActive = 1 := by
  have hrun : ∃ d, (daemon true).run ⟨fun _ => 0, [], []⟩
      [.accept refused, .fetch 0, .fetch 0, .finish 0] = some d ∧ d.handled = [] ∧
      d.accepted = [refused] ∧ d.counters .benchActive = 1 := ⟨_, rfl, rfl, rfl, rfl⟩
  obtain ⟨d, hd, hquiet, haccepted, hactive⟩ := hrun
  exact ⟨d, System.Reachable.run (.init rfl) _ hd, hquiet, haccepted, hactive⟩

theorem balanced_iff_ends_refused :
    (Matched true (handle.final refused .new).ops ↔ refused.Ends) ∧
    ∃ d, (daemon true).Reachable d ∧ d.handled = [] ∧
      (Balanced d ↔ ∀ ω ∈ d.accepted, ω.Ends) := by
  refine ⟨(balanced_iff_ends true).1 refused rfl, ?_⟩
  obtain ⟨d, hd, hquiet, -, -⟩ := refused_leaks
  exact ⟨d, hd, hquiet, (balanced_iff_ends true).2 d hd hquiet⟩

/-- The counters of a daemon that handles no connection need not balance. -/
theorem refused_unbalanced :
    ¬ ∀ d, (daemon true).Reachable d → d.handled = [] → Balanced d := by
  intro hall
  obtain ⟨d, hd, hquiet, -, hactive⟩ := refused_leaks
  obtain ⟨hbench, -, -⟩ := hall d hd hquiet
  rw [hactive] at hbench
  cases hbench

end Accounting

end SocketHandoff.Rust
