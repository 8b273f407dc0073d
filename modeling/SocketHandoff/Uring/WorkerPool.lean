import Mathlib.Data.List.Count
import SocketHandoff.Lib.RingBuffer
import SocketHandoff.Lib.System
import SocketHandoff.Uring.Context

/-!
# The thread pool

The work queue, the worker threads and the ring of completions of `pool.c`, one critical section a
step. Every connection that is submitted gets a number that is not stored anywhere, so that it can be
told from an earlier submission of the same connection.
-/

namespace SocketHandoff.Uring

/-! ## The pool -/

/-- A connection that was submitted. -/
structure Job where
  conn : ConnId
  number : Nat
  deriving DecidableEq, Repr

/-- `pool_ctx_t`. A work item is a block, with its link in the queue and its connection in `work`. -/
structure PoolCtx where
  queue : Queue Block
  work : Block → Job
  shutdown : Bool
  completions : RingBuffer Job
  eventfd : Nat

/-- Where a worker thread is. -/
inductive Worker
  /-- it is about to take the lock of the queue -/
  | ready
  /-- in `pthread_cond_wait` -/
  | waiting
  /-- with an item that is no longer in the queue -/
  | dequeued (block : Block)
  /-- in `backend_process` -/
  | processing (job : Job)
  /-- it is about to take the lock of the completions -/
  | completing (job : Job)
  /-- it is about to write to the eventfd -/
  | signalling
  | exited
  deriving DecidableEq, Repr

/-- The pool with its threads, the blocks in use, and what has happened to the jobs so far: which
worker has processed which one, which ones have been put into the ring and which ones
`pool_get_completion` has returned. -/
structure PoolThreads where
  ctx : PoolCtx
  workers : List Worker
  blocks : List Block
  submitted : List Job
  processed : List (Nat × Job)
  completed : List Job
  returned : List Job

inductive PoolMove
  /-- `pool_submit`, when `malloc` has returned this block; the signal wakes a worker that waits -/
  | submit (conn : ConnId) (block : Block) (woken : Option Nat)
  /-- a worker takes the lock of the queue -/
  | enter (k : Nat)
  /-- `pthread_cond_wait` returns -/
  | wake (k : Nat)
  /-- a worker reads its item and frees it -/
  | take (k : Nat)
  /-- `backend_process` returns -/
  | process (k : Nat)
  /-- a worker takes the lock of the completions -/
  | addCompletion (k : Nat)
  /-- a worker writes to the eventfd -/
  | signal (k : Nat)
  /-- `pool_get_completion` -/
  | getCompletion
  /-- `pool_shutdown` -/
  | shutdown
  deriving DecidableEq, Repr

namespace PoolThreads

def setWorker (s : PoolThreads) (k : Nat) (w : Worker) : PoolThreads :=
  { s with workers := s.workers.set k w }

/-- The critical section of `pool_submit`. -/
def submit (s : PoolThreads) (conn : ConnId) (block : Block) : PoolThreads :=
  let job : Job := ⟨conn, s.submitted.length⟩
  { s with
    ctx :=
      { s.ctx with
        queue := s.ctx.queue.append block
        work := Function.update s.ctx.work block job }
    blocks := block :: s.blocks
    submitted := s.submitted ++ [job] }

/-- The critical section of `worker_thread`, up to where it waits, leaves or has an item. -/
def enter (s : PoolThreads) (k : Nat) : PoolThreads :=
  match s.ctx.queue.head with
  | none => s.setWorker k (if s.ctx.shutdown then .exited else .waiting)
  | some block =>
    { s.setWorker k (.dequeued block) with ctx := { s.ctx with queue := s.ctx.queue.pop } }

/-- The critical section of `pool_add_completion`: while the ring is full nothing happens in it. -/
def addCompletion (s : PoolThreads) (k : Nat) (job : Job) : PoolThreads :=
  if s.ctx.completions.Full then s
  else
    { s.setWorker k .signalling with
      ctx := { s.ctx with completions := s.ctx.completions.push job }
      completed := s.completed ++ [job] }

/-- `pool_get_completion`. -/
def getCompletion (s : PoolThreads) : PoolThreads :=
  { s with
    ctx := { s.ctx with completions := s.ctx.completions.pop }
    returned := s.returned ++ s.ctx.completions.first.toList }

def move (s : PoolThreads) : PoolMove → Option PoolThreads
  | .submit conn block woken =>
    if block ∈ s.blocks then none
    else
      match woken with
      | none => if .waiting ∈ s.workers then none else some (s.submit conn block)
      | some k =>
        if s.workers[k]? = some .waiting then some ((s.submit conn block).setWorker k .ready)
        else none
  | .enter k => if s.workers[k]? = some .ready then some (s.enter k) else none
  | .wake k => if s.workers[k]? = some .waiting then some (s.setWorker k .ready) else none
  | .take k =>
    match s.workers[k]? with
    | some (.dequeued block) =>
      some { s.setWorker k (.processing (s.ctx.work block)) with blocks := s.blocks.erase block }
    | _ => none
  | .process k =>
    match s.workers[k]? with
    | some (.processing job) =>
      some { s.setWorker k (.completing job) with processed := s.processed ++ [(k, job)] }
    | _ => none
  | .addCompletion k =>
    match s.workers[k]? with
    | some (.completing job) => some (s.addCompletion k job)
    | _ => none
  | .signal k =>
    if s.workers[k]? = some .signalling then
      some { s.setWorker k .ready with ctx := { s.ctx with eventfd := s.ctx.eventfd + 1 } }
    else none
  | .getCompletion => some s.getCompletion
  | .shutdown =>
    some
      { s with
        ctx := { s.ctx with shutdown := true }
        workers := s.workers.map fun w => if w = .waiting then .ready else w }

end PoolThreads

/-- The pool when `pool_init` has started its threads: none of them has looked at the queue yet. The
lists behind the threads record what was submitted, processed, completed and returned, and no step
reads them. -/
def PoolThreads.start (maxConnections threads : Nat) : PoolThreads where
  ctx :=
    { queue := .empty
      work := fun _ => ⟨0, 0⟩
      shutdown := false
      completions := ⟨fun _ => none, 0, 0, maxConnections⟩
      eventfd := 0 }
  workers := List.replicate threads .ready
  blocks := []
  submitted := []
  processed := []
  completed := []
  returned := []

/-- The pool as a system. -/
def poolThreads (maxConnections threads : Nat) : System PoolThreads PoolMove where
  init s := s = .start maxConnections threads
  step := PoolThreads.move

/-! ## What is to hold -/

/-- The job in the hands of a worker. -/
def Worker.held (work : Block → Job) : Worker → List Job
  | .dequeued block => [work block]
  | .processing job | .completing job => [job]
  | _ => []

/-- **Every job is in one place**: in the queue, in the hands of a worker, in the ring or returned.
Each one in the ring has been processed, by one worker and once, and they are returned in the order
in which they were put there. Jobs are told apart by their numbers, for a connection may be
submitted again. -/
structure PoolThreads.Delivered (s : PoolThreads) : Prop where
  distinct : s.submitted.Nodup
  places : ∃ items unread, s.ctx.queue.Holds items ∧ s.ctx.completions.Holds unread ∧
    (items.map s.ctx.work ++ s.workers.flatMap (Worker.held s.ctx.work) ++ unread ++
      s.returned).Perm s.submitted ∧ s.returned ++ unread = s.completed
  processed : ∀ job ∈ s.completed, ∃! k, (k, job) ∈ s.processed
  once : s.processed.Nodup

/-- The entries of the ring that have not been read stay as they are. -/
def PoolThreads.Keeps (s s' : PoolThreads) : Prop :=
  ∀ unread, s.ctx.completions.Holds unread → ∀ j < unread.length,
    s'.ctx.completions.slots ((s.ctx.completions.head + j) % s.ctx.completions.size) =
      s.ctx.completions.slots ((s.ctx.completions.head + j) % s.ctx.completions.size)

/-- A worker has left its loop. -/
def PoolThreads.Leaves (s s' : PoolThreads) (k : Nat) : Prop :=
  s.workers[k]? ≠ some .exited ∧ s'.workers[k]? = some .exited

/-- Anything but a new submission. -/
def PoolMove.Inside : PoolMove → Prop
  | .submit .. => False
  | _ => True

/-- How many steps a worker is away from the head of its loop, and its job from being returned. -/
def Worker.weight : Worker → Nat
  | .dequeued _ => 5
  | .processing _ => 4
  | .completing _ => 3
  | .signalling => 1
  | .ready | .waiting | .exited => 0

/-- How much is left to do, in steps of the workers and of the main loop. -/
def PoolThreads.weight (s : PoolThreads) : Nat :=
  6 * (s.submitted.length - s.completed.length -
      (s.workers.flatMap (Worker.held s.ctx.work)).length) +
    (s.workers.map Worker.weight).sum + (s.completed.length - s.returned.length)

/-! ## Lists with one entry changed -/

section

variable {α β : Type} {l : List α} {k : Nat} {a : α}

theorem perm_flatMap_set (f : α → List β) (h : l[k]? = some a) (b : α) :
    (f a ++ (l.set k b).flatMap f).Perm (f b ++ l.flatMap f) := by
  induction l generalizing k with
  | nil => cases h
  | cons c l ih =>
    cases k with
    | zero =>
      obtain rfl := Option.some.inj h
      simp only [List.set_cons_zero, List.flatMap_cons]
      exact List.perm_append_comm_assoc ..
    | succ k =>
      simp only [List.set_cons_succ, List.flatMap_cons]
      refine (List.perm_append_comm_assoc ..).trans ?_
      refine ((ih h).append_left (f c)).trans ?_
      exact List.perm_append_comm_assoc ..

theorem perm_flatMap_set_of_eq (f : α → List β) (h : l[k]? = some a) (b : α) (hf : f b = f a) :
    ((l.set k b).flatMap f).Perm (l.flatMap f) := by
  have hperm := perm_flatMap_set f h b
  rw [hf] at hperm
  exact (List.perm_append_left_iff _).mp hperm

theorem sum_map_set (f : α → Nat) (h : l[k]? = some a) (b : α) :
    f a + ((l.set k b).map f).sum = f b + (l.map f).sum := by
  induction l generalizing k with
  | nil => cases h
  | cons c l ih =>
    cases k with
    | zero =>
      obtain rfl := Option.some.inj h
      simp only [List.set_cons_zero, List.map_cons, List.sum_cons]
      omega
    | succ k =>
      have htail := ih (k := k) h
      simp only [List.set_cons_succ, List.map_cons, List.sum_cons]
      omega

theorem mem_set_self (h : l[k]? = some a) (b : α) : b ∈ l.set k b :=
  List.mem_set (List.getElem?_eq_some_iff.mp h).1 b

end

/-! ## The invariant -/

/-- The item in the hands of a worker. -/
def Worker.items : Worker → List Block
  | .dequeued block => [block]
  | _ => []

/-- The job in the hands of a worker that has processed it. -/
def Worker.done : Worker → List Job
  | .completing job => [job]
  | _ => []

/-- A worker that will look at the queue without being woken. -/
def Worker.Awake (w : Worker) : Prop := w ≠ .waiting ∧ w ≠ .exited

/-- **The invariant**, with what is in the queue and in the ring. -/
structure PoolThreads.Inv (s : PoolThreads) (items : List Block) (unread : List Job) : Prop where
  queue : s.ctx.queue.Holds items
  ring : s.ctx.completions.Holds unread
  order : s.returned ++ unread = s.completed
  blocks : (items ++ s.workers.flatMap Worker.items).Perm s.blocks
  distinct : s.blocks.Nodup
  jobs : (items.map s.ctx.work ++ s.workers.flatMap (Worker.held s.ctx.work) ++
    s.completed).Perm s.submitted
  numbers : s.submitted.map Job.number = List.range s.submitted.length
  processed : (s.processed.map Prod.snd).Perm (s.workers.flatMap Worker.done ++ s.completed)
  awake : items ≠ [] → (∃ w ∈ s.workers, w.Awake) ∨ ∀ w ∈ s.workers, w = .exited
  left : .exited ∈ s.workers → s.ctx.shutdown = true

namespace PoolThreads

variable {s s' : PoolThreads} {items : List Block} {unread : List Job} {k : Nat} {w w' : Worker}
  {block : Block} {job : Job}

variable (w') in
/-- A worker that is awake has been put in the place of another one. -/
theorem Inv.awake_set (h : s.Inv items unread) (hk : s.workers[k]? = some w) (hw' : w'.Awake) :
    (∃ v ∈ s.workers.set k w', v.Awake) ∧
      (.exited ∈ s.workers.set k w' → s.ctx.shutdown = true) := by
  refine ⟨⟨w', mem_set_self hk w', hw'⟩, fun hmem => ?_⟩
  rcases List.mem_or_eq_of_mem_set hmem with hmem | heq
  · exact h.left hmem
  · exact absurd heq.symm hw'.2

variable (w') in
/-- A worker moves on with what it has. It may fall asleep or leave when the queue is empty. -/
theorem Inv.setWorker (h : s.Inv items unread) (hk : s.workers[k]? = some w)
    (hw' : w'.Awake ∨ items = [] ∧ (w' = .exited → s.ctx.shutdown = true))
    (hitems : w'.items = w.items) (hheld : w'.held s.ctx.work = w.held s.ctx.work)
    (hdone : w'.done = w.done) : (s.setWorker k w').Inv items unread := by
  refine ⟨h.queue, h.ring, h.order, ?_, h.distinct, ?_, h.numbers, ?_, fun hne => ?_, fun hmem => ?_⟩
  · exact ((perm_flatMap_set_of_eq _ hk w' hitems).append_left _).trans h.blocks
  · exact (((perm_flatMap_set_of_eq _ hk w' hheld).append_left _).append_right _).trans h.jobs
  · exact h.processed.trans ((perm_flatMap_set_of_eq _ hk w' hdone).symm.append_right _)
  · rcases hw' with hw' | ⟨hnil, -⟩
    · exact .inl (h.awake_set _ hk hw').1
    · exact absurd hnil hne
  · rcases hw' with hw' | ⟨-, hexit⟩
    · exact (h.awake_set _ hk hw').2 hmem
    · rcases List.mem_or_eq_of_mem_set hmem with hmem | heq
      · exact h.left hmem
      · exact hexit heq.symm

/-! ### Submitting -/

theorem Inv.submit (h : s.Inv items unread) (hblock : block ∉ s.blocks) (conn : ConnId)
    (hawake : (∃ w ∈ s.workers, w.Awake) ∨ ∀ w ∈ s.workers, w = .exited) :
    (s.submit conn block).Inv (items ++ [block]) unread := by
  have hin : block ∉ items ++ s.workers.flatMap Worker.items :=
    fun hmem => hblock (h.blocks.mem_iff.mp hmem)
  obtain ⟨hitems, hworkers⟩ := not_or.mp fun hor => hin (List.mem_append.mpr hor)
  -- the new item is not one of those that are there
  have hmap : items.map (Function.update s.ctx.work block ⟨conn, s.submitted.length⟩) =
      items.map s.ctx.work :=
    List.map_congr_left fun b hb => Function.update_of_ne (ne_of_mem_of_not_mem hb hitems) ..
  have hheld : ∀ w ∈ s.workers,
      w.held (Function.update s.ctx.work block ⟨conn, s.submitted.length⟩) =
        w.held s.ctx.work := by
    intro w hw
    cases w with
    | dequeued b =>
      have hne : b ≠ block := by
        rintro rfl
        exact hworkers (List.mem_flatMap.mpr ⟨_, hw, List.mem_singleton_self _⟩)
      simp [Worker.held, hne]
    | _ => rfl
  refine ⟨h.queue.append hitems, h.ring, h.order, ?_, ?_, ?_, ?_, h.processed, fun _ => hawake,
    h.left⟩
  · rw [List.append_assoc, List.singleton_append]
    exact List.perm_middle.trans (h.blocks.cons block)
  · exact List.nodup_cons.mpr ⟨hblock, h.distinct⟩
  · have hflat : s.workers.flatMap
        (Worker.held (Function.update s.ctx.work block ⟨conn, s.submitted.length⟩)) =
          s.workers.flatMap (Worker.held s.ctx.work) := List.flatMap_congr hheld
    have hnew : (items ++ [block]).map
        (Function.update s.ctx.work block ⟨conn, s.submitted.length⟩) =
          items.map s.ctx.work ++ [⟨conn, s.submitted.length⟩] := by
      rw [List.map_append, hmap]
      simp
    simp only [PoolThreads.submit]
    rw [hnew, hflat]
    refine List.perm_iff_count.mpr fun x => ?_
    have hcount := h.jobs.count_eq x
    simp only [List.count_append] at hcount ⊢
    omega
  · simp only [PoolThreads.submit, List.map_append, h.numbers, List.length_append,
      List.length_singleton, List.range_succ]
    rfl

/-! ### The steps of a worker -/

/-- A worker that finds the queue empty waits or leaves. -/
theorem Inv.enter_nil (h : s.Inv [] unread) (hk : s.workers[k]? = some .ready) :
    (s.enter k).Inv [] unread := by
  have hhead : s.ctx.queue.head = none := h.queue.linked
  simp only [PoolThreads.enter, hhead]
  split
  · rename_i hshut
    exact h.setWorker _ hk (.inr ⟨rfl, fun _ => hshut⟩) rfl rfl rfl
  · exact h.setWorker _ hk (.inr ⟨rfl, by simp⟩) rfl rfl rfl

/-- A worker takes the first item off the queue. -/
theorem Inv.enter_cons (h : s.Inv (block :: items) unread) (hk : s.workers[k]? = some .ready) :
    (s.enter k).Inv items unread := by
  obtain ⟨hhead, hpop⟩ := h.queue.pop
  obtain ⟨hawake, hleft⟩ := h.awake_set (.dequeued block) hk ⟨by simp, by simp⟩
  simp only [PoolThreads.enter, hhead]
  refine ⟨hpop, h.ring, h.order, ?_, h.distinct, ?_, h.numbers, ?_, fun _ => .inl hawake, hleft⟩
  · refine List.perm_iff_count.mpr fun x => ?_
    have hset := (perm_flatMap_set Worker.items hk (.dequeued block)).count_eq x
    have hcount := h.blocks.count_eq x
    simp only [Worker.items, List.count_append, List.count_cons, List.count_nil] at hset hcount
    simp only [PoolThreads.setWorker, List.count_append]
    omega
  · refine List.perm_iff_count.mpr fun x => ?_
    have hset :=
      (perm_flatMap_set (Worker.held s.ctx.work) hk (.dequeued block)).count_eq x
    have hcount := h.jobs.count_eq x
    simp only [Worker.held, List.map_cons, List.count_append, List.count_cons, List.count_nil]
      at hset hcount
    simp only [PoolThreads.setWorker, List.count_append]
    omega
  · have hsame := perm_flatMap_set_of_eq Worker.done hk (.dequeued block) rfl
    exact h.processed.trans (hsame.symm.append_right _)

/-- A worker frees its item and begins with the job. -/
theorem Inv.take (h : s.Inv items unread) (hk : s.workers[k]? = some (.dequeued block)) :
    PoolThreads.Inv
      { s.setWorker k (.processing (s.ctx.work block)) with blocks := s.blocks.erase block }
      items unread := by
  obtain ⟨hawake, hleft⟩ :=
    h.awake_set (.processing (s.ctx.work block)) hk ⟨by simp, by simp⟩
  refine ⟨h.queue, h.ring, h.order, ?_, h.distinct.erase block, ?_, h.numbers, ?_,
    fun _ => .inl hawake, hleft⟩
  · refine List.perm_iff_count.mpr fun x => ?_
    have hset :=
      (perm_flatMap_set Worker.items hk (.processing (s.ctx.work block))).count_eq x
    have hcount := h.blocks.count_eq x
    simp only [Worker.items, List.count_append, List.count_cons, List.count_nil] at hset hcount
    simp only [PoolThreads.setWorker, List.count_append, List.count_erase]
    omega
  · have hsame := perm_flatMap_set_of_eq (Worker.held s.ctx.work) hk
      (.processing (s.ctx.work block)) rfl
    exact ((hsame.append_left _).append_right _).trans h.jobs
  · have hsame := perm_flatMap_set_of_eq Worker.done hk (.processing (s.ctx.work block)) rfl
    exact h.processed.trans (hsame.symm.append_right _)

theorem Inv.process (h : s.Inv items unread) (hk : s.workers[k]? = some (.processing job)) :
    PoolThreads.Inv
      { s.setWorker k (.completing job) with processed := s.processed ++ [(k, job)] }
      items unread := by
  obtain ⟨hawake, hleft⟩ := h.awake_set (.completing job) hk ⟨by simp, by simp⟩
  refine ⟨h.queue, h.ring, h.order, ?_, h.distinct, ?_, h.numbers, ?_, fun _ => .inl hawake, hleft⟩
  · have hsame := perm_flatMap_set_of_eq Worker.items hk (.completing job) rfl
    exact (hsame.append_left items).trans h.blocks
  · have hsame := perm_flatMap_set_of_eq (Worker.held s.ctx.work) hk (.completing job) rfl
    exact ((hsame.append_left _).append_right _).trans h.jobs
  · refine List.perm_iff_count.mpr fun x => ?_
    have hset := (perm_flatMap_set Worker.done hk (.completing job)).count_eq x
    have hcount := h.processed.count_eq x
    simp only [Worker.done, List.count_append, List.count_cons, List.count_nil] at hset hcount
    simp only [PoolThreads.setWorker, List.map_append, List.map_cons, List.map_nil,
      List.count_append, List.count_cons, List.count_nil]
    omega

/-- A worker that finds a place puts its job into the ring. -/
theorem Inv.addCompletion (h : s.Inv items unread) (hk : s.workers[k]? = some (.completing job))
    (hfull : ¬ s.ctx.completions.Full) :
    (s.addCompletion k job).Inv items (unread ++ [job]) := by
  obtain ⟨hawake, hleft⟩ := h.awake_set .signalling hk ⟨by simp, by simp⟩
  rw [PoolThreads.addCompletion, if_neg hfull]
  refine ⟨h.queue, h.ring.push hfull, ?_, ?_, h.distinct, ?_, h.numbers, ?_, fun _ => .inl hawake,
    hleft⟩
  · change s.returned ++ (unread ++ [job]) = s.completed ++ [job]
    rw [← List.append_assoc, h.order]
  · have hsame := perm_flatMap_set_of_eq Worker.items hk .signalling rfl
    exact (hsame.append_left items).trans h.blocks
  · refine List.perm_iff_count.mpr fun x => ?_
    have hset := (perm_flatMap_set (Worker.held s.ctx.work) hk .signalling).count_eq x
    have hcount := h.jobs.count_eq x
    simp only [Worker.held, List.count_append, List.count_cons, List.count_nil] at hset hcount
    simp only [PoolThreads.setWorker, List.count_append, List.count_cons, List.count_nil]
    omega
  · refine List.perm_iff_count.mpr fun x => ?_
    have hset := (perm_flatMap_set Worker.done hk .signalling).count_eq x
    have hcount := h.processed.count_eq x
    simp only [Worker.done, List.count_append, List.count_cons, List.count_nil] at hset hcount
    simp only [PoolThreads.setWorker, List.count_append, List.count_cons, List.count_nil]
    omega

/-! ### The main loop -/

theorem Inv.getCompletion_nil (h : s.Inv items []) : s.getCompletion = s := by
  obtain ⟨hfirst, hpop⟩ := h.ring.pop_nil
  rw [PoolThreads.getCompletion, hfirst, hpop]
  simp

theorem Inv.getCompletion_cons (h : s.Inv items (job :: unread)) :
    s.getCompletion.Inv items unread ∧ s.getCompletion.returned = s.returned ++ [job] := by
  obtain ⟨hfirst, hpop⟩ := h.ring.pop
  have hreturned : s.getCompletion.returned = s.returned ++ [job] := by
    rw [PoolThreads.getCompletion, hfirst]
    rfl
  refine ⟨⟨h.queue, hpop, ?_, h.blocks, h.distinct, h.jobs, h.numbers, h.processed, h.awake,
    h.left⟩, hreturned⟩
  rw [hreturned, List.append_assoc]
  exact h.order

theorem Inv.shutdown (h : s.Inv items unread) :
    PoolThreads.Inv
      { s with
        ctx := { s.ctx with shutdown := true }
        workers := s.workers.map fun w => if w = .waiting then .ready else w }
      items unread := by
  have hsame : ∀ {β : Type} (f : Worker → List β), f .ready = f .waiting →
      (s.workers.map fun w => if w = .waiting then .ready else w).flatMap f =
        s.workers.flatMap f := by
    intro β f hf
    rw [List.flatMap_map]
    refine List.flatMap_congr fun w _ => ?_
    split
    · rename_i hw
      rw [hw, hf]
    · rfl
  refine ⟨h.queue, h.ring, h.order, ?_, h.distinct, ?_, h.numbers, ?_, fun hne => ?_, fun _ => rfl⟩
  · exact (hsame Worker.items rfl).symm ▸ h.blocks
  · exact (hsame (Worker.held s.ctx.work) rfl).symm ▸ h.jobs
  · exact (hsame Worker.done rfl).symm ▸ h.processed
  · rcases h.awake hne with ⟨w, hw, hawake⟩ | hall
    · refine .inl ⟨w, List.mem_map.mpr ⟨w, hw, if_neg hawake.1⟩, hawake⟩
    · refine .inr fun w hw => ?_
      obtain ⟨v, hv, rfl⟩ := List.mem_map.mp hw
      rw [hall v hv, if_neg (by simp)]

/-! ## All steps -/

/-- What a step can be. -/
inductive Moved (s : PoolThreads) : PoolMove → PoolThreads → Prop
  | submit {conn : ConnId} {block : Block} : block ∉ s.blocks → .waiting ∉ s.workers →
      Moved s (.submit conn block none) (s.submit conn block)
  | submitWoken {conn : ConnId} {block : Block} {k : Nat} : block ∉ s.blocks →
      s.workers[k]? = some .waiting →
      Moved s (.submit conn block (some k)) ((s.submit conn block).setWorker k .ready)
  | enter {k : Nat} : s.workers[k]? = some .ready → Moved s (.enter k) (s.enter k)
  | wake {k : Nat} : s.workers[k]? = some .waiting → Moved s (.wake k) (s.setWorker k .ready)
  | take {k : Nat} {block : Block} : s.workers[k]? = some (.dequeued block) →
      Moved s (.take k)
        { s.setWorker k (.processing (s.ctx.work block)) with blocks := s.blocks.erase block }
  | process {k : Nat} {job : Job} : s.workers[k]? = some (.processing job) →
      Moved s (.process k)
        { s.setWorker k (.completing job) with processed := s.processed ++ [(k, job)] }
  | full {k : Nat} {job : Job} : s.workers[k]? = some (.completing job) →
      s.ctx.completions.Full → Moved s (.addCompletion k) s
  | addCompletion {k : Nat} {job : Job} : s.workers[k]? = some (.completing job) →
      ¬ s.ctx.completions.Full → Moved s (.addCompletion k) (s.addCompletion k job)
  | signal {k : Nat} : s.workers[k]? = some .signalling →
      Moved s (.signal k)
        { s.setWorker k .ready with ctx := { s.ctx with eventfd := s.ctx.eventfd + 1 } }
  | getCompletion : Moved s .getCompletion s.getCompletion
  | shutdown : Moved s .shutdown
      { s with
        ctx := { s.ctx with shutdown := true }
        workers := s.workers.map fun w => if w = .waiting then .ready else w }

theorem moved {a : PoolMove} (hmove : s.move a = some s') : Moved s a s' := by
  cases a with
  | submit conn block woken =>
    obtain ⟨hblock, hmove⟩ := Option.ite_none_left_eq_some.mp hmove
    cases woken with
    | none =>
      obtain ⟨hnone, hmove⟩ := Option.ite_none_left_eq_some.mp hmove
      obtain rfl := Option.some.inj hmove
      exact .submit hblock hnone
    | some k =>
      obtain ⟨hk, hmove⟩ := Option.ite_none_right_eq_some.mp hmove
      obtain rfl := Option.some.inj hmove
      exact .submitWoken hblock hk
  | enter k =>
    obtain ⟨hk, hmove⟩ := Option.ite_none_right_eq_some.mp hmove
    obtain rfl := Option.some.inj hmove
    exact .enter hk
  | wake k =>
    obtain ⟨hk, hmove⟩ := Option.ite_none_right_eq_some.mp hmove
    obtain rfl := Option.some.inj hmove
    exact .wake hk
  | take k =>
    simp only [PoolThreads.move] at hmove
    split at hmove
    · rename_i hk
      obtain rfl := Option.some.inj hmove
      exact .take hk
    · cases hmove
  | process k =>
    simp only [PoolThreads.move] at hmove
    split at hmove
    · rename_i hk
      obtain rfl := Option.some.inj hmove
      exact .process hk
    · cases hmove
  | addCompletion k =>
    simp only [PoolThreads.move] at hmove
    split at hmove
    · rename_i job hk
      obtain rfl := Option.some.inj hmove
      by_cases hfull : s.ctx.completions.Full
      · rw [PoolThreads.addCompletion, if_pos hfull]
        exact .full hk hfull
      · exact .addCompletion hk hfull
    · cases hmove
  | signal k =>
    obtain ⟨hk, hmove⟩ := Option.ite_none_right_eq_some.mp hmove
    obtain rfl := Option.some.inj hmove
    exact .signal hk
  | getCompletion =>
    obtain rfl := Option.some.inj hmove
    exact .getCompletion
  | shutdown =>
    obtain rfl := Option.some.inj hmove
    exact .shutdown

/-- **A step keeps the invariant**, for what is queued and what is unread after it. The cases are
those of what a step can do; a step of one thread leaves the places of the others alone. -/
theorem Inv.moved {a : PoolMove} (h : s.Inv items unread) (hmoved : Moved s a s') :
    ∃ items' unread', s'.Inv items' unread' := by
  have hready : Worker.ready.Awake := ⟨by simp, by simp⟩
  cases hmoved with
  | submit hblock hnone =>
    refine ⟨_, _, h.submit hblock _ ?_⟩
    by_cases hall : ∀ w ∈ s.workers, w = .exited
    · exact .inr hall
    · push Not at hall
      obtain ⟨w, hw, hne⟩ := hall
      exact .inl ⟨w, hw, fun heq => hnone (heq ▸ hw), hne⟩
  | submitWoken hblock hk =>
    have hwoken := h.setWorker _ hk (.inl hready) rfl rfl rfl
    exact ⟨_, _, hwoken.submit hblock _ (.inl (h.awake_set _ hk hready).1)⟩
  | enter hk =>
    cases items with
    | nil => exact ⟨_, _, h.enter_nil hk⟩
    | cons block items => exact ⟨_, _, h.enter_cons hk⟩
  | wake hk => exact ⟨_, _, h.setWorker _ hk (.inl hready) rfl rfl rfl⟩
  | take hk => exact ⟨_, _, h.take hk⟩
  | process hk => exact ⟨_, _, h.process hk⟩
  | full => exact ⟨_, _, h⟩
  | addCompletion hk hfull => exact ⟨_, _, h.addCompletion hk hfull⟩
  | signal hk =>
    have hset := h.setWorker _ hk (.inl hready) rfl rfl rfl
    exact ⟨_, _, hset.queue, hset.ring, hset.order, hset.blocks, hset.distinct, hset.jobs,
      hset.numbers, hset.processed, hset.awake, hset.left⟩
  | getCompletion =>
    cases unread with
    | nil =>
      rw [h.getCompletion_nil]
      exact ⟨_, _, h⟩
    | cons job unread => exact ⟨_, _, h.getCompletion_cons.1⟩
  | shutdown => exact ⟨_, _, h.shutdown⟩

theorem inv_start {maxConnections : Nat} (hmax : 0 < maxConnections) (threads : Nat) :
    (start maxConnections threads).Inv [] [] := by
  have hnone : ∀ {β : Type} (f : Worker → List β), f .ready = [] →
      (start maxConnections threads).workers.flatMap f = [] := by
    intro β f hf
    refine List.flatMap_eq_nil_iff.mpr fun w hw => ?_
    rw [List.eq_of_mem_replicate hw, hf]
  refine ⟨Queue.holds_empty, RingBuffer.holds_new hmax _, rfl, ?_, List.nodup_nil, ?_, rfl, ?_,
    fun hne => absurd rfl hne, fun hmem => ?_⟩
  · rw [hnone Worker.items rfl]
    exact .refl _
  · rw [hnone _ rfl]
    exact .refl _
  · rw [hnone Worker.done rfl]
    exact .refl _
  · cases List.eq_of_mem_replicate hmem

theorem inv_reachable {maxConnections threads : Nat} (hmax : 0 < maxConnections)
    (h : (poolThreads maxConnections threads).Reachable s) : ∃ items unread, s.Inv items unread := by
  refine h.invariant (I := fun s => ∃ items unread, s.Inv items unread) ?_
    fun s a s' ⟨items, unread, hs⟩ _ hmove => hs.moved (PoolThreads.moved hmove)
  rintro s rfl
  exact ⟨[], [], inv_start hmax threads⟩

theorem size_reachable {maxConnections threads : Nat}
    (h : (poolThreads maxConnections threads).Reachable s) :
    s.ctx.completions.size = maxConnections := by
  refine h.invariant (I := fun s => s.ctx.completions.size = maxConnections) ?_
    fun s a s' hs _ hmove => Eq.trans ?_ hs
  · rintro s rfl
    rfl
  · cases PoolThreads.moved hmove with
    | enter =>
      rw [PoolThreads.enter]
      split <;> rfl
    | addCompletion =>
      rw [PoolThreads.addCompletion]
      split <;> rfl
    | getCompletion =>
      simp only [PoolThreads.getCompletion, RingBuffer.pop]
      split <;> rfl
    | _ => rfl

/-- **Nothing is overwritten** before it is read: the places of the ring that hold entries hold the
same ones after the step. -/
theorem keeps_moved {a : PoolMove} (hmoved : Moved s a s') : s.Keeps s' := by
  intro unread hunread j hj
  cases hmoved with
  | enter =>
    rw [PoolThreads.enter]
    split <;> rfl
  | addCompletion _ hfull =>
    rw [PoolThreads.addCompletion, if_neg hfull]
    exact Function.update_of_ne (hunread.tail_ne hj) ..
  | getCompletion =>
    simp only [PoolThreads.getCompletion, RingBuffer.pop]
    split <;> rfl
  | _ => rfl

/-- **A worker leaves** only when a shutdown is requested and the queue is empty. -/
theorem leaves_moved {a : PoolMove} (hmoved : Moved s a s') (hleaves : s.Leaves s' k) :
    s.ctx.shutdown = true ∧ s.ctx.queue.head = none := by
  obtain ⟨hbefore, hafter⟩ := hleaves
  have hset : ∀ {j w'}, (s.workers.set j w')[k]? = some .exited → w' = .exited := by
    intro j w' h
    rw [List.getElem?_set] at h
    split at h
    · split at h
      · exact Option.some.inj h
      · cases h
    · exact absurd h hbefore
  cases hmoved with
  | submit | full | getCompletion => exact absurd hafter hbefore
  | submitWoken | wake | take | process | signal => cases hset hafter
  | enter =>
    cases hhead : s.ctx.queue.head with
    | some block =>
      simp only [PoolThreads.enter, hhead] at hafter
      cases hset hafter
    | none =>
      simp only [PoolThreads.enter, hhead] at hafter
      have hexit := hset hafter
      split at hexit
      · exact ⟨‹_›, rfl⟩
      · cases hexit
  | addCompletion _ hfull =>
    rw [PoolThreads.addCompletion, if_neg hfull] at hafter
    cases hset hafter
  | shutdown =>
    rw [List.getElem?_map] at hafter
    obtain ⟨w, hw, heq⟩ := Option.map_eq_some_iff.mp hafter
    split at heq
    · cases heq
    · exact absurd (heq ▸ hw) hbefore

/-! ## What follows -/

theorem Inv.nodup_submitted (h : s.Inv items unread) : s.submitted.Nodup := by
  refine List.Nodup.of_map Job.number ?_
  rw [h.numbers]
  exact List.nodup_range

/-- What a worker has processed it has in its hands. -/
theorem count_done_le (work : Block → Job) (workers : List Worker) (job : Job) :
    (workers.flatMap Worker.done).count job ≤ (workers.flatMap (Worker.held work)).count job := by
  induction workers with
  | nil => exact Nat.le_refl _
  | cons w workers ih =>
    have hw : w.done.count job ≤ (w.held work).count job := by
      cases w <;> simp [Worker.done, Worker.held]
    simp only [List.flatMap_cons, List.count_append]
    omega

theorem Inv.nodup_processed (h : s.Inv items unread) : (s.processed.map Prod.snd).Nodup := by
  refine List.nodup_iff_count_le_one.mpr fun job => ?_
  have hdone := count_done_le s.ctx.work s.workers job
  have hprocessed := h.processed.count_eq job
  have hjobs := h.jobs.count_eq job
  have hone := List.nodup_iff_count_le_one.mp h.nodup_submitted job
  simp only [List.count_append] at hprocessed hjobs
  omega

theorem Inv.delivered (h : s.Inv items unread) : s.Delivered := by
  refine ⟨h.nodup_submitted, ⟨items, unread, h.queue, h.ring, ?_, h.order⟩, fun job hjob => ?_,
    h.nodup_processed.of_map⟩
  · refine List.perm_iff_count.mpr fun x => ?_
    have hjobs := h.jobs.count_eq x
    rw [← h.order] at hjobs
    simp only [List.count_append] at hjobs ⊢
    omega
  · have hmem := h.processed.mem_iff.mpr (List.mem_append_right _ hjob)
    obtain ⟨⟨k, job'⟩, hk, rfl⟩ := List.mem_map.mp hmem
    refine ⟨k, hk, fun j hj => ?_⟩
    exact congrArg Prod.fst (List.inj_on_of_nodup_map h.nodup_processed hj hk rfl)

/-- The weight in terms of what is in the queue and in the ring. -/
theorem Inv.weight_eq (h : s.Inv items unread) :
    s.weight = 6 * items.length + (s.workers.map Worker.weight).sum + unread.length := by
  have hjobs := h.jobs.length_eq
  have horder := congrArg List.length h.order
  simp only [List.length_append, List.length_map] at hjobs horder
  rw [PoolThreads.weight]
  omega

variable (w') in
/-- A step in which one worker moves on. -/
theorem Inv.weight_set {items' : List Block} {unread' : List Job} (h : s.Inv items unread)
    (h' : s'.Inv items' unread') (hk : s.workers[k]? = some w)
    (hset : s'.workers = s.workers.set k w') :
    s'.weight + w.weight + (6 * items.length + unread.length) =
      s.weight + w'.weight + (6 * items'.length + unread'.length) := by
  have hsum := sum_map_set Worker.weight hk w'
  rw [h.weight_eq, h'.weight_eq, hset]
  omega

theorem Inv.weight_enter_nil (h : s.Inv [] unread) (hk : s.workers[k]? = some .ready) :
    (s.enter k).weight = s.weight := by
  have hhead : s.ctx.queue.head = none := h.queue.linked
  have hset := h.weight_set (if s.ctx.shutdown then .exited else .waiting) (h.enter_nil hk) hk
    (by rw [PoolThreads.enter, hhead]; rfl)
  have hnone : (if s.ctx.shutdown then Worker.exited else Worker.waiting).weight = 0 := by
    split <;> rfl
  rw [hnone, Worker.weight] at hset
  omega

theorem Inv.weight_enter_cons (h : s.Inv (block :: items) unread)
    (hk : s.workers[k]? = some .ready) : (s.enter k).weight + 1 = s.weight := by
  have hset := h.weight_set (.dequeued block) (h.enter_cons hk) hk
    (by rw [PoolThreads.enter, h.queue.pop.1]; rfl)
  simp only [Worker.weight, List.length_cons] at hset
  omega

theorem Inv.weight_take (h : s.Inv items unread) (hk : s.workers[k]? = some (.dequeued block)) :
    PoolThreads.weight
      { s.setWorker k (.processing (s.ctx.work block)) with blocks := s.blocks.erase block } + 1 =
        s.weight := by
  have hset := h.weight_set (.processing (s.ctx.work block)) (h.take hk) hk rfl
  dsimp only [Worker.weight] at hset ⊢
  omega

theorem Inv.weight_process (h : s.Inv items unread)
    (hk : s.workers[k]? = some (.processing job)) :
    PoolThreads.weight
      { s.setWorker k (.completing job) with processed := s.processed ++ [(k, job)] } + 1 =
        s.weight := by
  have hset := h.weight_set (.completing job) (h.process hk) hk rfl
  dsimp only [Worker.weight] at hset ⊢
  omega

theorem Inv.weight_addCompletion (h : s.Inv items unread)
    (hk : s.workers[k]? = some (.completing job)) (hfull : ¬ s.ctx.completions.Full) :
    (s.addCompletion k job).weight + 1 = s.weight := by
  have hset := h.weight_set .signalling (h.addCompletion hk hfull) hk
    (by rw [PoolThreads.addCompletion, if_neg hfull]; rfl)
  simp only [Worker.weight, List.length_append, List.length_singleton] at hset
  omega

theorem weight_signal (hk : s.workers[k]? = some .signalling) :
    PoolThreads.weight
      { s.setWorker k .ready with ctx := { s.ctx with eventfd := s.ctx.eventfd + 1 } } + 1 =
        s.weight := by
  have hsum := sum_map_set Worker.weight hk .ready
  have hheld := (perm_flatMap_set_of_eq (Worker.held s.ctx.work) hk .ready rfl).length_eq
  simp only [Worker.weight] at hsum
  simp only [PoolThreads.weight, PoolThreads.setWorker, hheld]
  omega

theorem Inv.weight_getCompletion (h : s.Inv items (job :: unread)) :
    s.getCompletion.weight + 1 = s.weight := by
  rw [h.weight_eq, h.getCompletion_cons.1.weight_eq, List.length_cons]
  rfl

/-- **No step raises the weight**, apart from a new submission. The weight counts the steps that the
jobs at hand still need, so that there are only so many of them. -/
theorem Inv.weight_le {a : PoolMove} (h : s.Inv items unread) (hmoved : Moved s a s')
    (ha : a.Inside) : s'.weight ≤ s.weight := by
  cases hmoved with
  | submit | submitWoken => exact ha.elim
  | enter hk =>
    cases items with
    | nil => exact Nat.le_of_eq (h.weight_enter_nil hk)
    | cons block items => exact Nat.le_of_succ_le (Nat.le_of_eq (h.weight_enter_cons hk))
  | wake hk =>
    have hwoken := h.setWorker .ready hk (.inl ⟨by simp, by simp⟩) rfl rfl rfl
    have hset := h.weight_set _ hwoken hk rfl
    simp only [Worker.weight] at hset
    omega
  | take hk => exact Nat.le_of_succ_le (Nat.le_of_eq (h.weight_take hk))
  | process hk => exact Nat.le_of_succ_le (Nat.le_of_eq (h.weight_process hk))
  | full => exact Nat.le_refl _
  | addCompletion hk hfull =>
    exact Nat.le_of_succ_le (Nat.le_of_eq (h.weight_addCompletion hk hfull))
  | signal hk => exact Nat.le_of_succ_le (Nat.le_of_eq (weight_signal hk))
  | getCompletion =>
    cases unread with
    | nil => rw [h.getCompletion_nil]
    | cons job unread => exact Nat.le_of_succ_le (Nat.le_of_eq h.weight_getCompletion)
  | shutdown =>
    rw [h.weight_eq, h.shutdown.weight_eq, List.map_map]
    have hsame : Worker.weight ∘ (fun w => if w = .waiting then .ready else w) = Worker.weight := by
      funext w
      cases w <;> rfl
    rw [hsame]

/-- **There is something to do** as long as a job has not been returned and a worker is there. -/
theorem Inv.progress (h : s.Inv items unread) (hsize : 2 ≤ s.ctx.completions.size)
    (hpending : s.returned.length < s.submitted.length) (hworker : ∃ w ∈ s.workers, w ≠ .exited) :
    ∃ a s', PoolMove.Inside a ∧ s.move a = some s' ∧ s'.weight < s.weight := by
  cases unread with
  | cons job unread =>
    exact ⟨.getCompletion, _, trivial, rfl, Nat.lt_of_succ_le (Nat.le_of_eq h.weight_getCompletion)⟩
  | nil =>
    have hroom : ¬ s.ctx.completions.Full := fun hfull => by
      have := h.ring.full_iff.mp hfull
      simp only [List.length_nil] at this
      omega
    by_cases hbusy : ∃ w ∈ s.workers, w ≠ .ready ∧ w ≠ .waiting ∧ w ≠ .exited
    · -- a worker with a job, or one that has to signal, can go on
      obtain ⟨w, hw, hready, hwaiting, hexited⟩ := hbusy
      obtain ⟨k, hk⟩ := List.getElem?_of_mem hw
      cases w with
      | ready => exact absurd rfl hready
      | waiting => exact absurd rfl hwaiting
      | exited => exact absurd rfl hexited
      | dequeued block =>
        exact ⟨.take k, _, trivial, by simp only [PoolThreads.move, hk],
          Nat.lt_of_succ_le (Nat.le_of_eq (h.weight_take hk))⟩
      | processing job =>
        exact ⟨.process k, _, trivial, by simp only [PoolThreads.move, hk],
          Nat.lt_of_succ_le (Nat.le_of_eq (h.weight_process hk))⟩
      | completing job =>
        exact ⟨.addCompletion k, _, trivial, by simp only [PoolThreads.move, hk],
          Nat.lt_of_succ_le (Nat.le_of_eq (h.weight_addCompletion hk hroom))⟩
      | signalling =>
        exact ⟨.signal k, _, trivial, if_pos hk,
          Nat.lt_of_succ_le (Nat.le_of_eq (weight_signal hk))⟩
    · -- the others have nothing in their hands, so the job is in the queue
      push Not at hbusy
      have hheld : s.workers.flatMap (Worker.held s.ctx.work) = [] := by
        refine List.flatMap_eq_nil_iff.mpr fun w hw => ?_
        have hw := hbusy w hw
        cases w with
        | ready | waiting | exited => rfl
        | _ => exact absurd (hw (by simp) (by simp)) (by simp)
      cases items with
      | nil =>
        have hjobs := h.jobs.length_eq
        have horder := congrArg List.length h.order
        simp only [hheld, List.map_nil, List.nil_append, List.append_nil] at hjobs horder
        omega
      | cons block items =>
        rcases h.awake (by simp) with ⟨w, hw, hwaiting, hexited⟩ | hall
        · obtain ⟨k, hk⟩ := List.getElem?_of_mem hw
          have hready : w = .ready := by
            by_contra hne
            exact hexited (hbusy w hw hne hwaiting)
          subst hready
          exact ⟨.enter k, _, trivial, if_pos hk,
            Nat.lt_of_succ_le (Nat.le_of_eq (h.weight_enter_cons hk))⟩
        · obtain ⟨w, hw, hne⟩ := hworker
          exact absurd (hall w hw) hne

end PoolThreads

/-- **The pool delivers** every job once, in the order in which the workers have put them into the
ring. No unread entry of the ring is overwritten, a worker leaves only when a shutdown is requested
and the queue is empty, and nothing gets stuck: as long as a job has not been returned and a worker
is left, a step is possible that brings the end nearer, and no other one sets it back. -/
theorem pool_delivers {maxConnections threads : Nat} (hmax : 2 ≤ maxConnections) {s : PoolThreads}
    (h : (poolThreads maxConnections threads).Reachable s) :
    s.Delivered ∧
      (∀ a s', s.move a = some s' → s.Keeps s' ∧
        (∀ k, s.Leaves s' k → s.ctx.shutdown = true ∧ s.ctx.queue.head = none) ∧
          (a.Inside → s'.weight ≤ s.weight)) ∧
      (s.returned.length < s.submitted.length → (∃ w ∈ s.workers, w ≠ .exited) →
        ∃ a s', PoolMove.Inside a ∧ s.move a = some s' ∧ s'.weight < s.weight) := by
  obtain ⟨items, unread, hinv⟩ := PoolThreads.inv_reachable (by omega) h
  refine ⟨hinv.delivered, fun a s' hmove => ?_, hinv.progress ?_⟩
  · have hmoved := PoolThreads.moved hmove
    exact ⟨PoolThreads.keeps_moved hmoved, fun k => PoolThreads.leaves_moved hmoved,
      hinv.weight_le hmoved⟩
  · rwa [PoolThreads.size_reachable h]

/-- Two connections on their way through the pool; the second worker is done first. -/
def twoJobs : List PoolMove :=
  [.submit 5 0 none, .submit 6 1 none, .enter 0, .enter 1, .take 0, .take 1, .process 0, .process 1,
    .addCompletion 1, .addCompletion 0, .signal 1, .getCompletion, .getCompletion]

/-- They are returned in the order in which the workers are done. -/
theorem pool_delivers_two : ∃ s, (poolThreads 3 2).run (.start 3 2) twoJobs = some s ∧
    s.submitted = [⟨5, 0⟩, ⟨6, 1⟩] ∧ s.returned = [⟨6, 1⟩, ⟨5, 0⟩] ∧ s.Delivered := by
  obtain ⟨s, hrun, hsubmitted, hreturned⟩ : ∃ s, (poolThreads 3 2).run (.start 3 2) twoJobs = some s ∧
      s.submitted = [⟨5, 0⟩, ⟨6, 1⟩] ∧ s.returned = [⟨6, 1⟩, ⟨5, 0⟩] := ⟨_, rfl, rfl, rfl⟩
  have hstart : (poolThreads 3 2).Reachable (.start 3 2) := .init rfl
  have hdelivered := (pool_delivers (by decide) (hstart.run _ hrun)).1
  exact ⟨s, hrun, hsubmitted, hreturned, hdelivered⟩

end SocketHandoff.Uring
