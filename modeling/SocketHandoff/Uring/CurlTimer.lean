import SocketHandoff.Uring.Region

/-!
# The timer of libcurl

`timer_callback` keeps one timeout in the ring for libcurl: it cancels the one that is running and
submits another. A cancellation is a request to the kernel, so the completion of a cancelled timer
arrives when the next one may be running, as `-ECANCELED`, or as an expiry where the cancellation
came too late. The number of the timer comes back with the completion. The code that handles it
looks neither at the number nor at the result.

The runs below are those of the code that works on timers, with anything else the daemon does in
between. Beside the daemon they keep a list of the timers whose completions are to come.
-/

namespace SocketHandoff.Uring

open Act (Through Unseen)

/-! ## Timers -/

/-- A timeout that has been submitted and whose completion has not arrived. -/
structure Timer where
  id : Nat
  /-- its removal has been submitted -/
  cancelled : Bool
  deriving DecidableEq, Repr

/-- The numbers of the timers that have neither expired nor been cancelled. -/
def running (timers : List Timer) : List Nat := (timers.filter fun t => !t.cancelled).map Timer.id

/-- The timers with this number are cancelled. -/
def cancelTimers (id : Nat) (timers : List Timer) : List Timer :=
  timers.map fun t => if t.id = id then { t with cancelled := true } else t

/-- The timers when an entry has been submitted. -/
def submitTimer (timers : List Timer) (r : Sqe) : List Timer :=
  match r.request with
  | .timeout _ => timers ++ [⟨r.connId, false⟩]
  | .timeoutRemove => cancelTimers r.connId timers
  | _ => timers

/-- The entries the daemon has submitted and the kernel has not completed. -/
def Daemon.entries (s : Daemon) : List Sqe := s.inflight ++ s.sq

/-- A completion of a timer, with the daemon before and after it was handled. -/
structure Arrival where
  timer : Timer
  res : Int
  before : Daemon
  after : Daemon

/-- The daemon and its timers. -/
structure Clock where
  daemon : Daemon
  timers : List Timer
  arrivals : List Arrival

/-- What happens to the timers. -/
inductive TimerEvent
  /-- libcurl calls `timer_callback` -/
  | callback (timeoutMs : Int) (ω : Env)
  /-- the completion of the `k`-th timer arrives -/
  | arrive (k : Nat) (res : Int) (ω : Env)
  /-- anything that the daemon does besides -/
  | elsewhere (daemon : Daemon)

/-- A timer expires with `-ETIME`; it may end with `-ECANCELED` when it has been cancelled. -/
def Timer.MayEnd (t : Timer) (res : Int) : Prop := res = -62 ∨ res = -125 ∧ t.cancelled = true

instance (t : Timer) (res : Int) : Decidable (t.MayEnd res) :=
  inferInstanceAs (Decidable (_ ∨ _))

/-- The completion of a timer. -/
def Timer.cqe (t : Timer) (res : Int) : Cqe := ⟨.curlTimeout, t.id, res, false, 0⟩

/-- One event. What `timer_callback` submits is what it appends to the entries. -/
def Clock.step (s : Clock) : TimerEvent → Option Clock
  | .callback timeoutMs ω =>
    let daemon := s.daemon.exec (timerCallback timeoutMs) ω
    let submitted := daemon.entries.drop s.daemon.entries.length
    some { s with daemon := daemon, timers := submitted.foldl submitTimer s.timers }
  | .arrive k res ω =>
    match s.timers[k]? with
    | some t =>
      if s.daemon.pc = .events ∧ t.MayEnd res then
        let after := s.daemon.exec (processCqe (t.cqe res)) ω
        some
          { daemon := after
            timers := s.timers.eraseIdx k
            arrivals := s.arrivals ++ [⟨t, res, s.daemon, after⟩] }
      else none
    | none => none
  | .elsewhere daemon =>
    if daemon.cfg.mode = s.daemon.cfg.mode ∧ daemon.curl.timerId = s.daemon.curl.timerId ∧
        daemon.curl.timerActive = s.daemon.curl.timerActive then
      some { s with daemon := daemon }
    else none

/-- The timers of a daemon that uses libcurl. -/
def timerSystem : System Clock TimerEvent where
  init s := ∃ cfg, cfg.mode = .curlMulti ∧ s = ⟨Daemon.boot cfg, [], []⟩
  step := Clock.step

/-! ## The law -/

/-- The completion is the expiry of the timer that is running. -/
def Arrival.Own (a : Arrival) : Prop :=
  a.res = -62 ∧ a.timer.cancelled = false ∧
    a.before.curl.timerActive = true ∧ a.timer.id = a.before.curl.timerId

/-- `curl_multi_socket_action` is called for the completion. -/
def Arrival.RunsAction (a : Arrival) : Prop := a.after.pc = .curl false

/-- `timer_active` holds exactly when one timer is running, with the number `timer_id`. -/
def Clock.AtMostOne (s : Clock) : Prop :=
  running s.timers = if s.daemon.curl.timerActive then [s.daemon.curl.timerId] else []

/-- **The law of the timer.** At most one is running; the action of libcurl runs on the expiry of
that timer, and no other completion changes anything. What a completion belongs to is remembered
beside the daemon, which has no number in its completions that would tell one timer from another. -/
structure Clock.Lawful (s : Clock) : Prop where
  atMostOne : s.AtMostOne
  own : ∀ a ∈ s.arrivals, a.RunsAction → a.Own
  others : ∀ a ∈ s.arrivals, ¬ a.Own → a.after = a.before

/-- Whether `ring_get_sqe_flush` finds an entry, when the kernel reads `k` entries where it is
asked to. -/
def Daemon.HasRoom (s : Daemon) (k : Nat) : Prop :=
  s.sq.length < s.cfg.entries ∨ (s.sq.drop k).length < s.cfg.entries

instance (s : Daemon) (k : Nat) : Decidable (s.HasRoom k) := inferInstanceAs (Decidable (_ ∨ _))

/-- **The condition.** A running timer can be cancelled, and the completions that arrive are those
of timers that have expired and have not been cancelled. Both are about entries and completions:
what `timer_callback` and the handler do with them is left to the code. -/
def Clock.Undisturbed (s : Clock) : TimerEvent → Prop
  | .callback _ ω => s.daemon.curl.timerActive = true → s.daemon.HasRoom (ω.consumed 0)
  | .arrive k res _ => ∀ t, s.timers[k]? = some t → t.cancelled = false ∧ res = -62
  | .elsewhere _ => True

/-! ## The code -/

/-- What the timers see of the daemon. -/
structure TimerView where
  mode : Mode
  timerId : Nat
  timerActive : Bool
  entries : List Sqe

/-- The view of a daemon. -/
def Daemon.timerView (s : Daemon) : TimerView where
  mode := s.cfg.mode
  timerId := s.curl.timerId
  timerActive := s.curl.timerActive
  entries := s.entries

/-- An entry is submitted. -/
def TimerView.push (v : TimerView) (r : Sqe) : TimerView := { v with entries := v.entries ++ [r] }

variable {ω : Env} {v : TimerView}

theorem timerView_submit (s : Daemon) (k : Nat) : (s.submit k).timerView = s.timerView := by
  have h : (s.submit k).entries = s.entries := by
    rw [Daemon.entries, Daemon.submit, List.append_assoc, List.take_append_drop]
    rfl
  rw [Daemon.timerView, h]
  rfl

theorem timerView_queue (s : Daemon) (r : Sqe) : (s.queue r).timerView = s.timerView.push r := by
  have h : (s.queue r).entries = s.entries ++ [r] := by
    rw [Daemon.entries, Daemon.queue, ← List.append_assoc]
    rfl
  rw [Daemon.timerView, h]
  rfl

theorem ioUringSubmit_timerView : Unseen Daemon.timerView ioUringSubmit :=
  .ask fun ω n s => timerView_submit s (ω.consumed n)

theorem ringGetSqeFlush_timerView : Unseen Daemon.timerView ringGetSqeFlush := by
  refine .bind (.bind .get fun _ => .pure _) fun _ => .ite (.pure _) ?_
  exact .bind ioUringSubmit_timerView fun _ => .bind .get fun _ => .pure _

/-- `ring_get_sqe_flush` finds an entry when there is room. -/
theorem ringGetSqeFlush_result (n : Nat) (s : Daemon) :
    (ringGetSqeFlush ω (n, s)).1 = decide (s.HasRoom (ω.consumed n)) := by
  by_cases h : s.sq.length < s.cfg.entries
  · have hroom : s.HasRoom (ω.consumed n) := .inl h
    simp [ringGetSqeFlush, ioUringGetSqe, h, hroom]
  · have hroom : s.HasRoom (ω.consumed n) ↔ (s.sq.drop (ω.consumed n)).length < s.cfg.entries :=
      or_iff_right h
    simp only [ringGetSqeFlush, ioUringGetSqe, h, hroom, Act.bind_run, Act.get_run, Act.pure_run,
      decide_false, Bool.false_eq_true, if_false, ioUringSubmit, Act.ask_run]
    rfl

/-- An entry is submitted when there is room. -/
theorem fillSqe_timerView (n : Nat) (s : Daemon) (r : Sqe) :
    (fillSqe ringGetSqeFlush r ω (n, s)).2.2.timerView =
      if s.HasRoom (ω.consumed n) then s.timerView.push r else s.timerView := by
  have hresult := ringGetSqeFlush_result (ω := ω) n s
  have hview := ringGetSqeFlush_timerView ω (n, s)
  by_cases hroom : s.HasRoom (ω.consumed n)
  · rw [decide_eq_true hroom] at hresult
    rw [if_pos hroom, fillSqe, Act.bind_run, hresult, if_pos rfl, Act.bind_run, Act.modify_run,
      Act.pure_run, timerView_queue, hview]
  · rw [decide_eq_false hroom] at hresult
    rw [if_neg hroom, fillSqe, Act.bind_run, hresult, if_neg Bool.false_ne_true, Act.pure_run,
      hview]

/-- An entry is submitted, or there is no room. -/
theorem through_fillTimer {T : Bool → TimerView → Prop} {r : Sqe} (hqueued : T true (v.push r))
    (hrefused : T false v) :
    Through ω Daemon.timerView v (fillSqe ringGetSqeFlush r) T := by
  refine .bind (.unseen ringGetSqeFlush_timerView fun ok => .ite (fun _ => ?_) fun _ => ?_)
  · exact .bind (.modify (·.push r) (timerView_queue · r) (.pure hqueued))
  · exact .pure hrefused

/-- What `timer_callback` submits first. -/
def removal (s : Daemon) (ω : Env) : List Sqe :=
  if s.curl.timerActive = true ∧ s.HasRoom (ω.consumed 0) then
    [⟨.timeoutRemove, s.curl.timerId, 0⟩]
  else []

/-- After it no timer is active. -/
theorem timerCancel_timerView (s : Daemon) (ω : Env) :
    (timerCancel ω (0, s)).2.2.timerView =
      { s.timerView with
        timerActive := false
        entries := s.entries ++ removal s ω } := by
  by_cases hactive : s.curl.timerActive = true
  · have hfill := fillSqe_timerView (ω := ω) 0 s ⟨.timeoutRemove, s.curl.timerId, 0⟩
    rw [timerCancel, Act.bind_run, Act.get_run, if_pos hactive, Act.bind_run, Act.modify_run]
    have hoff : ∀ t : Daemon, Daemon.timerView { t with curl := { t.curl with timerActive := false } }
        = { t.timerView with timerActive := false } := fun _ => rfl
    rw [hoff, ringCancelCurlTimeout, hfill, removal]
    by_cases hroom : s.HasRoom (ω.consumed 0)
    · rw [if_pos hroom, if_pos ⟨hactive, hroom⟩]
      rfl
    · rw [if_neg hroom, if_neg fun h => hroom h.2, List.append_nil]
      rfl
  · rw [timerCancel, Act.bind_run, Act.get_run, if_neg hactive, Act.pure_run, removal,
      if_neg fun h => hactive h.1, List.append_nil]
    rw [Bool.not_eq_true] at hactive
    rw [← hactive]
    rfl

/-- What `timer_callback` leaves: nothing more, or a timer with its number. -/
inductive Armed (v : TimerView) : TimerView → Prop
  | idle (id : Nat) : Armed v { v with timerId := id, timerActive := false }
  | armed (id ms : Nat) : Armed v
      { v with
        timerId := id
        timerActive := true
        entries := v.entries ++ [⟨.timeout ms, id, 0⟩] }

/-- **`timer_callback`** cancels the timer that is running, and may arm another. It may fail to do
either, if there is no entry left; both are among the cases. -/
theorem timerCallback_timerView (s : Daemon) (timeoutMs : Int) (ω : Env) :
    Armed { s.timerView with entries := s.entries ++ removal s ω }
      (s.exec (timerCallback timeoutMs) ω).timerView := by
  have hcancel := timerCancel_timerView s ω
  rw [Daemon.exec, Act.final, timerCallback, Act.bind_run]
  generalize (timerCancel ω (0, s)).2 = st at hcancel ⊢
  obtain ⟨n, t⟩ := st
  refine (?_ : Through ω Daemon.timerView _ _ fun _ => Armed _) n t hcancel
  refine .ite (fun _ => ?_) (fun _ => ?_)
  · exact .pure (.idle s.curl.timerId)
  · refine .get fun t _ => ?_
    refine .bind (.modify (fun w => { w with timerId := nextTimerId t.curl.timerId })
      (fun _ => rfl) ?_)
    refine .bind (through_fillTimer ?_ ?_)
    · refine .bind (.modify (fun w => { w with timerActive := true }) (fun _ => rfl) ?_)
      exact .unseen ioUringSubmit_timerView fun _ => .armed _ _
    · exact .unseen ioUringSubmit_timerView fun _ => .idle _

/-- **The completion of a timer** is handled without a look at its number and its result. -/
theorem processCqe_timer {s : Daemon} (hmode : s.cfg.mode = .curlMulti) (t : Timer) (res : Int)
    (ω : Env) :
    s.exec (processCqe (t.cqe res)) ω =
      { s with
        curl := { s.curl with timerActive := false }
        pc := .curl false } := by
  simp [Daemon.exec, Act.final, processCqe, Timer.cqe, hmode, goto]

/-! ## Timers and entries -/

@[simp] theorem running_cancelTimers (id : Nat) (timers : List Timer) :
    running (cancelTimers id timers) = (running timers).filter (· ≠ id) := by
  induction timers with
  | nil => rfl
  | cons t rest ih =>
    simp only [running, cancelTimers, List.map_cons, List.filter_cons] at ih ⊢
    by_cases hid : t.id = id
    · cases hc : t.cancelled <;> simp [hid, ih]
    · cases hc : t.cancelled <;> simp [hid, hc, ih]

@[simp] theorem running_append (timers timers' : List Timer) :
    running (timers ++ timers') = running timers ++ running timers' := by
  simp [running]

@[simp] theorem running_singleton (id : Nat) : running [⟨id, false⟩] = [id] := rfl

/-- Where at most one timer is running, none is after the removal, if there is one. -/
theorem running_removal {s : Clock} (h : s.AtMostOne) (ω : Env) :
    running ((removal s.daemon ω).foldl submitTimer s.timers) = [] ↔
      (s.daemon.curl.timerActive = true → s.daemon.HasRoom (ω.consumed 0)) := by
  rw [Clock.AtMostOne] at h
  by_cases hactive : s.daemon.curl.timerActive = true
  · rw [if_pos hactive] at h
    by_cases hroom : s.daemon.HasRoom (ω.consumed 0)
    · simp [removal, hactive, hroom, submitTimer, h]
    · simp [removal, hactive, hroom, h]
  · rw [if_neg hactive] at h
    simp [removal, hactive, h]

/-- **After `timer_callback`** at most one timer is running, if the old one could be cancelled. -/
theorem atMostOne_callback {s : Clock} (h : s.AtMostOne) (timeoutMs : Int) (ω : Env) {s' : Clock}
    (hs : s.step (.callback timeoutMs ω) = some s') :
    s'.AtMostOne ↔ (s.daemon.curl.timerActive = true → s.daemon.HasRoom (ω.consumed 0)) := by
  rw [← running_removal h ω]
  cases Option.some.inj hs
  have harmed := timerCallback_timerView s.daemon timeoutMs ω
  rw [Clock.AtMostOne]
  generalize s.daemon.exec (timerCallback timeoutMs) ω = d at harmed ⊢
  generalize hview : d.timerView = w at harmed
  have hentries : d.entries = w.entries := congrArg TimerView.entries hview
  have hid : d.curl.timerId = w.timerId := congrArg TimerView.timerId hview
  have hactive : d.curl.timerActive = w.timerActive := congrArg TimerView.timerActive hview
  rw [hentries, hid, hactive]
  cases harmed with
  | idle id => simp
  | armed id ms =>
    rw [List.append_assoc, List.drop_left, List.foldl_append]
    simp [submitTimer]

/-- A timer that is not running leaves the others running; the one that is leaves none. -/
theorem running_eraseIdx {timers : List Timer} {k : Nat} {t : Timer} (hk : timers[k]? = some t) :
    running timers = running (timers.take k) ++ running [t] ++ running (timers.drop (k + 1)) ∧
      running (timers.eraseIdx k) = running (timers.take k) ++ running (timers.drop (k + 1)) := by
  obtain ⟨hlt, ht⟩ := List.getElem?_eq_some_iff.mp hk
  constructor
  · conv_lhs => rw [← List.take_append_drop k timers, List.drop_eq_getElem_cons hlt, ht]
    rw [List.append_cons, running_append, running_append]
  · rw [List.eraseIdx_eq_take_drop_succ, running_append]

/-- What a completion does, whichever it is. -/
theorem step_arrive {s s' : Clock} {k : Nat} {res : Int}
    (hmode : s.daemon.cfg.mode = .curlMulti) (hs : s.step (.arrive k res ω) = some s') :
    ∃ t, s.timers[k]? = some t ∧ s.daemon.pc = .events ∧ t.MayEnd res ∧
      s'.timers = s.timers.eraseIdx k ∧ s'.daemon.cfg = s.daemon.cfg ∧
      s'.daemon.curl.timerActive = false ∧ s'.daemon.pc = .curl false ∧
      s'.arrivals = s.arrivals ++ [⟨t, res, s.daemon, s'.daemon⟩] := by
  simp only [Clock.step] at hs
  cases hk : s.timers[k]? with
  | none => simp [hk] at hs
  | some t =>
    simp only [hk] at hs
    split at hs
    · next hif =>
      have hafter := processCqe_timer hmode t res ω
      cases Option.some.inj hs
      refine ⟨t, rfl, hif.1, hif.2, rfl, ?_, ?_, ?_, rfl⟩ <;> rw [hafter]
    · cases hs

/-- **After a completion** the law holds if it was the expiry of a timer that is running. -/
theorem lawful_arrive {s s' : Clock} {k : Nat} {res : Int} (h : s.Lawful)
    (hmode : s.daemon.cfg.mode = .curlMulti) (hs : s.step (.arrive k res ω) = some s') :
    s'.Lawful ↔ s.Undisturbed (.arrive k res ω) := by
  obtain ⟨t, hk, hpc, -, htimers, -, hoff, hpc', harrivals⟩ := step_arrive hmode hs
  have hnew : (⟨t, res, s.daemon, s'.daemon⟩ : Arrival) ∈ s'.arrivals := by
    rw [harrivals]
    exact List.mem_concat_self
  constructor
  · intro h' u hu
    obtain rfl : t = u := Option.some.inj (hk.symm.trans hu)
    obtain ⟨hres, hlive, -⟩ := h'.own _ hnew hpc'
    exact ⟨hlive, hres⟩
  · intro hquiet
    obtain ⟨hlive, hres⟩ := hquiet t hk
    obtain ⟨hall, herase⟩ := running_eraseIdx hk
    have hone : running [t] = [t.id] := by simp [running, hlive]
    have hat := h.atMostOne
    rw [Clock.AtMostOne, hall, hone] at hat
    -- the timer is the one that is running, and the only one
    have hactive : s.daemon.curl.timerActive = true := by
      by_contra hne
      rw [if_neg hne] at hat
      simp at hat
    rw [if_pos hactive, List.append_assoc, List.append_eq_singleton_iff] at hat
    obtain ⟨htake, hid, hdrop⟩ : running (s.timers.take k) = [] ∧ t.id = s.daemon.curl.timerId ∧
        running (s.timers.drop (k + 1)) = [] := by
      rcases hat with ⟨htake, hrest⟩ | ⟨-, hrest⟩
      · obtain ⟨hid, hdrop⟩ := List.cons_eq_cons.mp hrest
        exact ⟨htake, hid, hdrop⟩
      · simp at hrest
    have hown : Arrival.Own ⟨t, res, s.daemon, s'.daemon⟩ := ⟨hres, hlive, hactive, hid⟩
    refine ⟨?_, ?_, ?_⟩
    · rw [Clock.AtMostOne, htimers, herase, htake, hdrop, hoff]
      rfl
    · intro a ha hruns
      rw [harrivals, List.mem_append, List.mem_singleton] at ha
      rcases ha with ha | rfl
      · exact h.own a ha hruns
      · exact hown
    · intro a ha hother
      rw [harrivals, List.mem_append, List.mem_singleton] at ha
      rcases ha with ha | rfl
      · exact h.others a ha hother
      · exact absurd hown hother

/-- The law after a step that handles no completion. -/
theorem lawful_iff_atMostOne {s s' : Clock} (h : s.Lawful) (harrivals : s'.arrivals = s.arrivals) :
    s'.Lawful ↔ s'.AtMostOne :=
  ⟨Clock.Lawful.atMostOne, fun hat => ⟨hat, harrivals ▸ h.own, harrivals ▸ h.others⟩⟩

/-! ## Runs -/

/-- Every step leaves the daemon one that uses libcurl. -/
theorem mode_step {s s' : Clock} {e : TimerEvent} (hmode : s.daemon.cfg.mode = .curlMulti)
    (hs : s.step e = some s') : s'.daemon.cfg.mode = .curlMulti := by
  cases e with
  | callback timeoutMs ω =>
    cases Option.some.inj hs
    have harmed := timerCallback_timerView s.daemon timeoutMs ω
    generalize hview : (s.daemon.exec (timerCallback timeoutMs) ω).timerView = w at harmed
    have hsame : w.mode = s.daemon.cfg.mode := by cases harmed <;> rfl
    exact (congrArg TimerView.mode hview).trans (hsame.trans hmode)
  | arrive k res ω =>
    obtain ⟨t, -, -, -, -, hcfg, -⟩ := step_arrive hmode hs
    rw [hcfg, hmode]
  | elsewhere daemon =>
    simp only [Clock.step] at hs
    split at hs
    · next hif =>
      cases Option.some.inj hs
      exact hif.1.trans hmode
    · cases hs

/-- **One step** keeps the law exactly when it is undisturbed. The law is about timers that the
daemon does not know of any more, which is why they are kept as ghosts beside it. -/
theorem lawful_step {s s' : Clock} {e : TimerEvent} (h : s.Lawful)
    (hmode : s.daemon.cfg.mode = .curlMulti) (hs : s.step e = some s') :
    s'.Lawful ↔ s.Undisturbed e := by
  cases e with
  | callback timeoutMs ω =>
    have harrivals : s'.arrivals = s.arrivals := by
      cases Option.some.inj hs
      rfl
    rw [lawful_iff_atMostOne h harrivals]
    exact atMostOne_callback h.atMostOne timeoutMs ω hs
  | arrive k res ω => exact lawful_arrive h hmode hs
  | elsewhere daemon =>
    simp only [Clock.step] at hs
    split at hs
    · next hif =>
      obtain ⟨-, hid, hactive⟩ := hif
      cases Option.some.inj hs
      have harrivals : Clock.arrivals ⟨daemon, s.timers, s.arrivals⟩ = s.arrivals := rfl
      refine iff_of_true ((lawful_iff_atMostOne h harrivals).mpr ?_) trivial
      rw [Clock.AtMostOne, hid, hactive]
      exact h.atMostOne
    · cases hs

/-- Before anything has happened. -/
theorem lawful_init {s : Clock} (h : timerSystem.init s) :
    s.Lawful ∧ s.daemon.cfg.mode = .curlMulti := by
  obtain ⟨cfg, hmode, rfl⟩ := h
  refine ⟨⟨rfl, ?_, ?_⟩, hmode⟩ <;> intro a ha <;> cases ha

/-- The runs whose steps are undisturbed. -/
abbrev Clock.Orderly (s : Clock) : Prop := timerSystem.ReachableIf Clock.Undisturbed s

theorem orderly_lawful {s : Clock} (h : s.Orderly) :
    s.Lawful ∧ s.daemon.cfg.mode = .curlMulti :=
  h.invariant (fun _ => lawful_init) fun _ _ _ hI hC hs =>
    ⟨(lawful_step hI.1 hI.2 hs).mpr hC, mode_step hI.2 hs⟩

/-- **One timer, and its own expiry.** The law holds along every run whose steps are undisturbed,
and the first step that is not breaks it: either a timer is left running beside the next one, or the
completion of another is taken for its expiry. -/
theorem timer_lawful_iff {s : Clock} (h : s.Orderly) :
    s.Lawful ∧ ∀ e s', timerSystem.step s e = some s' → (s'.Lawful ↔ s.Undisturbed e) := by
  obtain ⟨hlawful, hmode⟩ := orderly_lawful h
  exact ⟨hlawful, fun _ _ hs => lawful_step hlawful hmode hs⟩

/-- The daemon when libcurl has asked for a timeout of 100 ms. -/
def asked : Daemon := (Daemon.boot curlConfig).exec (timerCallback 100) .willing

/-- It takes up the next completion. -/
def awake : Daemon := { asked with pc := .events }

/-- The completion is that of the timer. -/
def expired : Daemon := awake.exec (processCqe (Timer.cqe ⟨1, false⟩ (-62))) .willing

/-- libcurl asks for a timeout of 100 ms, which expires, and then for one of 200 ms: the expiry runs
the action, and the second timer is the only one. -/
theorem timer_lawful_iff_second : ∃ s : Clock, s.Orderly ∧ s.timers = [⟨2, false⟩] ∧
    (∃ a, s.arrivals = [a] ∧ a.RunsAction ∧ a.Own) ∧ s.Lawful := by
  have hinit : Clock.Orderly ⟨Daemon.boot curlConfig, [], []⟩ := .init ⟨curlConfig, rfl, rfl⟩
  have hasked : Clock.Orderly ⟨asked, [⟨1, false⟩], []⟩ :=
    hinit.step (a := .callback 100 .willing) (fun hactive => Bool.noConfusion hactive) rfl
  have hawake : Clock.Orderly ⟨awake, [⟨1, false⟩], []⟩ :=
    hasked.step (a := .elsewhere awake) trivial rfl
  have hown : Clock.Undisturbed ⟨awake, [⟨1, false⟩], []⟩ (.arrive 0 (-62) .willing) := by
    intro t ht
    obtain rfl := Option.some.inj ht
    exact ⟨rfl, rfl⟩
  have hexpired : Clock.Orderly ⟨expired, [], [⟨⟨1, false⟩, -62, awake, expired⟩]⟩ :=
    hawake.step (a := .arrive 0 (-62) .willing) hown rfl
  have hoff : expired.curl.timerActive = false := rfl
  have hagain := hexpired.step (a := TimerEvent.callback 200 .willing)
    (fun hactive => absurd (hoff.symm.trans hactive) Bool.false_ne_true) rfl
  have hlawful := (timer_lawful_iff hagain).1
  refine ⟨_, hagain, rfl, ⟨_, rfl, rfl, ?_⟩, hlawful⟩
  exact hlawful.own _ List.mem_cons_self rfl

/-- The daemon takes up the next completion. -/
def Clock.resume (s : Clock) : TimerEvent := .elsewhere { s.daemon with pc := .events }

/-- **A timer can be forgotten**: libcurl asks for 100 ms and then for 200 ms, and the completion of
the first timer, which has been cancelled, leaves the second without `timer_active`. -/
theorem timer_lost : ∃ s, timerSystem.Reachable s ∧ s.timers = [⟨2, false⟩] ∧
    s.daemon.curl.timerActive = false ∧ ¬ s.Lawful := by
  have hinit : timerSystem.init ⟨Daemon.boot curlConfig, [], []⟩ := ⟨curlConfig, rfl, rfl⟩
  obtain ⟨s, hs, htimers, hmode⟩ : ∃ s, timerSystem.run ⟨Daemon.boot curlConfig, [], []⟩
      [.callback 100 .willing, .callback 200 .willing] = some s ∧
        s.timers = [⟨1, true⟩, ⟨2, false⟩] ∧ s.daemon.cfg.mode = .curlMulti := ⟨_, rfl, rfl, rfl⟩
  obtain ⟨t, ht, htimers', hmode', hpc⟩ : ∃ t, timerSystem.step s s.resume = some t ∧
      t.timers = s.timers ∧ t.daemon.cfg.mode = .curlMulti ∧ t.daemon.pc = .events := by
    refine ⟨_, if_pos ⟨rfl, rfl, rfl⟩, rfl, hmode, rfl⟩
  have hk : t.timers[0]? = some ⟨1, true⟩ := by rw [htimers', htimers]; rfl
  obtain ⟨u, hu⟩ : ∃ u, timerSystem.step t (.arrive 0 (-125) .willing) = some u := by
    simp only [timerSystem, Clock.step, hk]
    exact ⟨_, if_pos ⟨hpc, .inr ⟨rfl, rfl⟩⟩⟩
  obtain ⟨-, -, -, -, hrest, -, hoff, -⟩ := step_arrive hmode' hu
  have hleft : u.timers = [⟨2, false⟩] := by rw [hrest, htimers', htimers]; rfl
  have hreach : timerSystem.Reachable s := System.Reachable.run (.init hinit) _ hs
  refine ⟨u, (hreach.step trivial ht).step trivial hu, hleft, hoff, fun hlawful => ?_⟩
  have hat := hlawful.atMostOne
  rw [Clock.AtMostOne, hleft, hoff] at hat
  cases hat

end SocketHandoff.Uring
