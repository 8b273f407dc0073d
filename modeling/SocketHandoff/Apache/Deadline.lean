import SocketHandoff.Apache.Config
import SocketHandoff.Apache.Filter
import Mathlib.Algebra.Order.Ring.Int
import Mathlib.Tactic.Linarith

/-!
# The deadline of a handoff

How long `connect_with_retry` and `send_fd_with_data` may hold the worker. `OnTime` is the
invariant of a run with a fixed deadline: the number of connects, the absence of overflow, and
with which timeout every wait so far was begun. The timeout of a wait is cut to what was left when
the clock was read, so the wait is over in time if it begins soon enough after that reading. A
poll that a signal interrupts begins again, with its full timeout, and may then begin too late.
-/

namespace SocketHandoff.Apache

open Act

/-! ## The arithmetic -/

variable {ω : Env}

/-- An `int` operation whose result fits returns it. -/
theorem i32_eq {x : Int} (h : -2147483648 ≤ x ∧ x ≤ 2147483647) : i32 x = pure x := if_pos h

/-- An `apr_int64_t` operation whose result fits returns it. -/
theorem i64_eq {x : Int} (h : -9223372036854775808 ≤ x ∧ x ≤ 9223372036854775807) :
    i64 x = pure x := if_pos h

/-- The longest backoff of a configuration, in milliseconds. -/
def backoffMs (maxRetries : Int) : Int := retryBaseDelayMs * (2 ^ maxRetries.toNat - 1)

/-- The time `compute_handoff_deadline` grants, in milliseconds. -/
def budgetMs (conf : Config) : Int :=
  (conf.maxRetries + 1) * conf.connectTimeoutMs + conf.sendTimeoutMs + backoffMs conf.maxRetries

/-- The longest budget of an admitted configuration. -/
def maxBudgetMs : Int := 730230

theorem two_pow_bounds {k : Int} {m : Nat} (hk : k ≤ m) :
    (1 : Int) ≤ 2 ^ k.toNat ∧ (2 : Int) ^ k.toNat ≤ 2 ^ m :=
  ⟨one_le_pow₀ (by decide), pow_le_pow_right₀ (by decide) (by omega)⟩

theorem backoffMs_bounds {conf : Config} (h : conf.Admitted) :
    0 ≤ backoffMs conf.maxRetries ∧ backoffMs conf.maxRetries ≤ 10230 := by
  obtain ⟨hlo, hhi⟩ := two_pow_bounds (k := conf.maxRetries) (m := 10) h.retries_le
  simp only [backoffMs, retryBaseDelayMs]
  omega

theorem connectMs_bounds {conf : Config} (h : conf.Admitted) :
    0 ≤ (conf.maxRetries + 1) * conf.connectTimeoutMs ∧
      (conf.maxRetries + 1) * conf.connectTimeoutMs ≤ 660000 := by
  have hr := h.retries_nonneg
  have hr' := h.retries_le
  have hc := h.connect_pos
  have hc' := h.connect_le
  constructor <;> nlinarith

theorem budgetMs_bounds {conf : Config} (h : conf.Admitted) :
    1 ≤ budgetMs conf ∧ budgetMs conf ≤ maxBudgetMs := by
  have hb := backoffMs_bounds h
  have hc := connectMs_bounds h
  have hs := h.send_pos
  have hs' := h.send_le
  simp only [budgetMs, maxBudgetMs]
  omega

theorem maxBackoffMs_eq {conf : Config} (h : conf.Admitted) :
    maxBackoffMs conf.maxRetries = pure (backoffMs conf.maxRetries) := by
  have hb := backoffMs_bounds h
  obtain ⟨hlo, hhi⟩ := two_pow_bounds (k := conf.maxRetries) (m := 10) h.retries_le
  have hr := h.retries_le
  rw [maxBackoffMs]
  by_cases hpos : conf.maxRetries > 0
  · have hsafe : ¬ conf.maxRetries > 30 := by omega
    simp only [if_pos hpos, if_neg hsafe]
    rw [i64_eq (x := 2 ^ conf.maxRetries.toNat) (by omega), pure_bind,
      i64_eq (x := _ - 1) (by omega), pure_bind]
    exact i64_eq (by simp only [backoffMs] at hb; omega)
  · have hzero : conf.maxRetries = 0 := by have := h.retries_nonneg; omega
    rw [if_neg hpos, hzero]
    rfl

/-- **The deadline** is a clock reading plus the budget. No step of the computation leaves its
integer type for a configuration that is admitted, so that what is left of the function is one sum.
-/
theorem computeHandoffDeadline_eq {conf : Config} (h : conf.Admitted) :
    computeHandoffDeadline conf =
      (do let now ← aprTimeNow; i64 (now + budgetMs conf * 1000)) := by
  have hb := backoffMs_bounds h
  have hc := connectMs_bounds h
  have hr := h.retries_nonneg
  have hr' := h.retries_le
  have hs := h.send_pos
  have hs' := h.send_le
  obtain ⟨htotal, htotal'⟩ := budgetMs_bounds h
  simp only [maxBudgetMs] at htotal'
  rw [computeHandoffDeadline, maxBackoffMs_eq h, pure_bind, i32_eq (by omega), pure_bind,
    i64_eq (by omega), pure_bind, i64_eq (by omega), pure_bind,
    i64_eq (x := _ + _ + backoffMs _) (by omega), pure_bind]
  change (do
    let now ← aprTimeNow
    let total ← i64 ((if (if budgetMs conf < 1 then 1 else budgetMs conf) > intMax then intMax
      else if budgetMs conf < 1 then 1 else budgetMs conf) * 1000)
    i64 (now + total)) = _
  have hlow : (if budgetMs conf < 1 then 1 else budgetMs conf) = budgetMs conf :=
    if_neg (by omega)
  rw [hlow, if_neg (by simp only [intMax]; omega), i64_eq (x := budgetMs conf * 1000) (by omega)]
  rfl

/-! ## The invariant -/

/-- The wait of a call, if it is one. -/
def Event.wait? : Event → Option Wait
  | .poll _ wait => some wait
  | .nanosleep wait => some wait
  | _ => none

/-- The waits of a run, in order; each round of a poll that is restarted is one of them. -/
def waits (trace : List Event) : List Wait := trace.filterMap Event.wait?

/-- A call of `connect`. -/
def Event.isConnect : Event → Bool
  | .connect _ _ => true
  | _ => false

/-- The number of connects in a trace. -/
def connects (trace : List Event) : Nat := trace.countP Event.isConnect

/-- A timeout cut to the whole milliseconds that a reading of the clock leaves to the
deadline. -/
def cutMs (D reading askedMs : Int) : Int :=
  if askedMs * 1000 ≤ D - reading then askedMs else (D - reading) / 1000

/-- **The slack of a wait**: what the reading leaves to the deadline beyond the timeout, in
microseconds. Where the timeout was cut it is the part of a millisecond the cut rounds off. -/
def Wait.slack (D : Int) (wait : Wait) : Int :=
  if wait.askedMs * 1000 ≤ D - wait.reading then D - wait.reading - wait.askedMs * 1000
  else (D - wait.reading) % 1000

/-- **The condition on a wait**: the time between the reading of the clock and the start of the
wait is within the slack. It is made up of the delays on the way to the call and of the rounds
that signals cut short. -/
def Wait.Punctual (D : Int) (wait : Wait) : Prop := wait.start - wait.reading ≤ wait.slack D

instance (D : Int) : DecidablePred (Wait.Punctual D) :=
  fun wait => inferInstanceAs (Decidable (wait.start - wait.reading ≤ wait.slack D))

/-- What holds of every wait: its timeout is the one asked for, cut to the reading, and it is not
longer than its timeout. The clock is read before the wait is entered, so this alone does not bound
the end of a wait: what passes in between is not in the timeout. -/
structure Wait.Planned (D : Int) (wait : Wait) : Prop where
  cut : wait.timeoutMs = cutMs D wait.reading wait.askedMs
  lasts : wait.stop ≤ wait.start + wait.timeoutMs * 1000

/-- **The invariant of a run with deadline `D`** that has made at most `c` connects. The count is a
parameter, so that a call that may connect once leads from `c` to `c + 1`, and the retry loop adds
up its attempts; `near` keeps the difference to the deadline within 64 bits. -/
structure OnTime (D : Int) (c : Nat) (w : World) : Prop where
  planned : ∀ wait ∈ waits w.trace, wait.Planned D
  connects : Apache.connects w.trace ≤ c
  fits : w.overflow = false
  near : D - w.now ≤ 9223372036854775807

/-- The same for a worker that is about to wait for `ms` milliseconds. -/
structure Before (D : Int) (c : Nat) (ms : Int) (w : World) : Prop extends OnTime D c w where
  nonneg : 0 ≤ ms
  cut : ms = cutMs D w.reading w.askedMs

variable {D : Int} {c : Nat} {ms : Int}

/-- The timeout and the slack make up what the reading leaves. -/
theorem cutMs_add_slack (D : Int) (wait : Wait) :
    cutMs D wait.reading wait.askedMs * 1000 + wait.slack D = D - wait.reading := by
  rw [cutMs, Wait.slack]
  split_ifs <;> omega

/-- **A wait that begins within the slack ends in time.** A planned wait takes its timeout from what
is left to the deadline at a reading of the clock; what has gone by between that reading and its
last round has to fit into what the timeout leaves over. -/
theorem Wait.Planned.stop_le {wait : Wait} (h : wait.Planned D) (hp : wait.Punctual D) :
    wait.stop ≤ D := by
  have hlasts := h.lasts
  have hsum := cutMs_add_slack D wait
  rw [h.cut] at hlasts
  rw [Wait.Punctual] at hp
  omega

/-- A wait that lasts as long as its timeout ends in time only if it begins within the slack, so
that the condition asks for no more than it has to where nobody answers. -/
theorem Wait.Planned.punctual_iff {wait : Wait} (h : wait.Planned D)
    (hwhole : wait.stop = wait.start + wait.timeoutMs * 1000) :
    wait.stop ≤ D ↔ wait.Punctual D := by
  have hsum := cutMs_add_slack D wait
  rw [hwhole, h.cut, Wait.Punctual]
  omega

theorem OnTime.mono {w : World} (h : OnTime D c w) {c' : Nat} (hc : c ≤ c') : OnTime D c' w :=
  ⟨h.planned, h.connects.trans hc, h.fits, h.near⟩

theorem OnTime.pass {w : World} (h : OnTime D c w) (us : Nat) : OnTime D c (w.pass us) :=
  ⟨h.planned, h.connects, h.fits, by have := h.near; simp only [World.pass_now]; omega⟩

/-- One more call that keeps to its timeout, if it is a wait, keeps the invariant. -/
theorem OnTime.append {w w' : World} (h : OnTime D c w) {e : Event} {k : Nat}
    (ht : w'.trace = w.trace ++ [e]) (ho : w'.overflow = w.overflow) (hn : w.now ≤ w'.now)
    (hw : ∀ wait ∈ e.wait?, wait.Planned D) (hc : (if e.isConnect then 1 else 0) ≤ k) :
    OnTime D (c + k) w' where
  planned wait hwait := by
    rw [waits, ht, List.filterMap_append, List.mem_append] at hwait
    rcases hwait with hold | hnew
    · exact h.planned wait hold
    · exact hw wait (by simpa using hnew)
  connects := by
    have := h.connects
    simp only [Apache.connects, ht, List.countP_append, List.countP_singleton] at this ⊢
    omega
  fits := ho.trans h.fits
  near := by have := h.near; omega

theorem Before.pass {w : World} (h : Before D c ms w) (us : Nat) : Before D c ms (w.pass us) :=
  ⟨h.toOnTime.pass us, h.nonneg, h.cut⟩

/-! ## Each function in turn -/

/-- What `remaining_timeout_ms` returns when the clock shows `now`. -/
def leftMs (D now : Int) : Int :=
  if now ≥ D then 0 else if (D - now) / 1000 > intMax then intMax else (D - now) / 1000

/-- **`remaining_timeout_ms`** returns what its reading of the clock leaves, and the reading is
recorded: the waits behind it are measured from there and not from when they begin. -/
theorem remainingTimeoutMs_onTime :
    Triple ω (OnTime D c) (remainingTimeoutMs D) fun ms w =>
      ms = leftMs D w.reading ∧ OnTime D c w := by
  refine .bind (Q := fun now w => D - now ≤ 9223372036854775807 ∧ now = w.reading ∧ OnTime D c w)
    (.ask fun n w h => ⟨(h.pass _).near, rfl, ?_⟩) fun now => .assume fun hnear => ?_
  · obtain ⟨hplanned, hconnects, hfits, hclock⟩ := h.pass (ω.idle n)
    exact ⟨hplanned, hconnects, hfits, hclock⟩
  refine .ite (fun hpast => .pure _ fun w h => ⟨?_, h.2⟩) fun hlt => ?_
  · rw [← h.1, leftMs, if_pos hpast]
  rw [i64_eq (by omega), pure_bind, Int.tdiv_eq_ediv_of_nonneg (by omega)]
  refine .ite (fun hbig => .pure _ fun w h => ⟨?_, h.2⟩)
    fun hsmall => .pure _ fun w h => ⟨?_, h.2⟩
  · rw [← h.1, leftMs, if_neg hlt, if_pos hbig]
  · rw [← h.1, leftMs, if_neg hlt, if_neg hsmall]

/-- Cutting a timeout to what `remaining_timeout_ms` returned. -/
theorem leftMs_cut {now askedMs : Int} (hleft : ¬ leftMs D now ≤ 0) (hasked : askedMs ≤ intMax) :
    (if leftMs D now < askedMs then leftMs D now else askedMs) = cutMs D now askedMs := by
  rw [leftMs] at hleft ⊢
  rw [cutMs]
  split_ifs at hleft ⊢ <;> omega

/-- The code that prepares a wait notes the timeout it asks for and cuts it. -/
theorem noteAsked_before {askedMs remaining : Int} (hnonneg : 0 ≤ askedMs)
    (hasked : askedMs ≤ intMax) (hleft : ¬ remaining ≤ 0) :
    Triple ω (fun w => remaining = leftMs D w.reading ∧ OnTime D c w) (noteAsked askedMs)
      fun _ => Before D c (if remaining < askedMs then remaining else askedMs) := by
  refine .modify fun w h => ?_
  obtain ⟨rfl, hplanned, hconnects, hfits, hnear⟩ := h
  refine ⟨⟨hplanned, hconnects, hfits, hnear⟩, ?_, leftMs_cut hleft hasked⟩
  split_ifs <;> omega

theorem pollLasts_nonneg (us : Nat) (hms : 0 ≤ ms) : 0 ≤ pollLasts ms us := by
  rw [pollLasts]
  split_ifs <;> omega

theorem pollLasts_le (us : Nat) (hms : 0 ≤ ms) : pollLasts ms us ≤ ms * 1000 := by
  rw [pollLasts, if_neg (by omega)]
  exact min_le_right _ _

/-- A round of a poll keeps to the timeout of the poll, and the next round starts with the same
reading of the clock. -/
theorem pollRound_before {w : World} {sock : Fd} {us : Nat} (h : Before D c ms w) :
    Before D c ms (w.pollRound sock ms us) := by
  have hlo := pollLasts_nonneg us h.nonneg
  have hhi := pollLasts_le us h.nonneg
  refine ⟨h.append (k := 0) rfl rfl ?_ ?_ (le_refl 0), h.nonneg, h.cut⟩
  · change w.now ≤ w.now + pollLasts ms us
    omega
  · intro wait hwait
    obtain rfl := Option.some.inj hwait
    exact ⟨h.cut, Int.add_le_add_left hhi _⟩

theorem pollRounds_before {sock : Fd} (rounds : List Nat) :
    ∀ {w : World}, Before D c ms w →
      Before D c ms (rounds.foldl (World.pollRound sock ms) w) := by
  induction rounds with
  | nil => intro w h; exact h
  | cons us rest ih =>
    intro w h
    exact ih (pollRound_before h)

/-- No round of a poll is longer than its timeout. -/
theorem pollCall_onTime (sock : Fd) :
    Triple ω (Before D c ms) (pollCall sock ms) fun _ => OnTime D c :=
  .ask fun n _ h => (pollRound_before (pollRounds_before _ (h.pass (ω.lag n)))).toOnTime

theorem nanosleepCall_onTime :
    Triple ω (Before D c ms) (nanosleepCall ms) fun _ => OnTime D c := by
  refine .ask fun n w h => ?_
  have hms := h.nonneg
  refine h.append (k := 0) rfl rfl ?_ ?_ (le_refl 0)
  · dsimp only
    omega
  · intro wait hwait
    obtain rfl := Option.some.inj hwait
    exact ⟨h.cut, Int.add_le_add_left (min_le_right _ _) _⟩

theorem closeCall_onTime (sock : Fd) :
    Triple ω (OnTime D c) (closeCall sock) fun _ => OnTime D c :=
  .modify fun _ h => h.append (k := 0) rfl rfl (le_refl _) (by simp [Event.wait?]) (le_refl 0)

theorem giveUp_onTime (sock : Fd) (e : Errno) :
    Triple ω (OnTime D c) (giveUp sock e) fun _ => OnTime D c :=
  .bind (closeCall_onTime sock) fun _ => .pure _ fun _ h => h

theorem getsockoptCall_onTime :
    Triple ω (OnTime D c) getsockoptCall fun _ => OnTime D c :=
  .ask fun _ _ h => h.pass _

theorem fcntlCall_before :
    Triple ω (Before D c ms) fcntlCall fun _ => Before D c ms :=
  .ask fun _ _ h => h.pass _

theorem setNonblocking_before :
    Triple ω (Before D c ms) setNonblocking fun _ => Before D c ms := by
  refine .bind fcntlCall_before fun getfl => ?_
  cases getfl with
  | error e => exact .pure _ fun _ h => h
  | ok flags =>
    refine .bind fcntlCall_before fun setfl => ?_
    cases setfl with
    | error e => exact .pure _ fun _ h => h
    | ok _ => exact .bind fcntlCall_before fun _ => .pure _ fun _ h => h

theorem awaitConnected_onTime (sock : Fd) :
    Triple ω (Before D c ms) (awaitConnected sock ms) fun _ => OnTime D c := by
  refine .bind (pollCall_onTime sock) fun polled => ?_
  match polled with
  | .timeout => exact giveUp_onTime sock _
  | .failed e => exact giveUp_onTime sock _
  | .ready true =>
    refine .bind getsockoptCall_onTime fun soError => ?_
    match soError with
    | .ok (some e) => exact giveUp_onTime sock _
    | .ok none => exact giveUp_onTime sock _
    | .error e => exact giveUp_onTime sock _
  | .ready false =>
    refine .bind getsockoptCall_onTime fun soError => ?_
    match soError with
    | .error e => exact giveUp_onTime sock _
    | .ok (some e) => exact giveUp_onTime sock _
    | .ok none => exact .pure _ fun _ h => h

theorem connectCall_before (sock : Fd) (path : CStr) :
    Triple ω (Before D c ms) (connectCall sock path) fun _ => Before D (c + 1) ms := by
  refine .ask fun n w h => ?_
  have hpass := h.pass (ω.lag n)
  exact ⟨hpass.append rfl rfl (le_refl _) (by simp [Event.wait?]) (le_refl 1), h.nonneg, h.cut⟩

theorem startConnect_onTime (sock : Fd) (socketPath : CStr) :
    Triple ω (Before D c ms) (startConnect sock socketPath ms)
      fun _ => OnTime D (c + 1) := by
  refine .bind (connectCall_before sock socketPath) fun connected => ?_
  cases connected with
  | ok _ => exact .pure _ fun _ h => h.toOnTime
  | error e =>
    refine .ite (fun _ => ?_) fun _ => awaitConnected_onTime sock
    exact (giveUp_onTime sock e).conseq (fun _ h => h.toOnTime) fun _ _ h => h

theorem connectOn_onTime (sock : Fd) (sockNonblock : Bool) (socketPath : CStr) :
    Triple ω (Before D c ms) (connectOn sock sockNonblock socketPath ms)
      fun _ => OnTime D (c + 1) := by
  have refuse : ∀ e, Triple ω (Before D c ms) (giveUp sock e) fun _ => OnTime D (c + 1) :=
    fun e => (giveUp_onTime sock e).conseq (fun _ h => h.toOnTime)
      fun _ _ h => h.mono (Nat.le_succ c)
  refine .ite (fun _ => refuse _) fun _ => ?_
  refine .ite (fun _ => startConnect_onTime sock socketPath) fun _ => ?_
  refine .bind setNonblocking_before fun set => ?_
  cases set with
  | error e => exact refuse e
  | ok _ => exact startConnect_onTime sock socketPath

theorem socketCall_before :
    Triple ω (Before D c ms) socketCall fun _ => Before D c ms := by
  refine .ask fun n w h => ?_
  have hpass := h.pass (ω.lag n)
  cases hsock : ω.socket n with
  | error e => exact hpass
  | ok sock =>
    exact ⟨hpass.append (k := 0) rfl rfl (le_refl _) (by simp [Event.wait?]) (le_refl 0), h.nonneg,
      h.cut⟩

/-- **`connect_to_socket`** makes at most one connect and its wait ends in time. That there is one
connect for each attempt is what bounds the number of all of them by the retries. -/
theorem connectToSocket_onTime (socketPath : CStr) :
    Triple ω (Before D c ms) (connectToSocket socketPath ms)
      fun _ => OnTime D (c + 1) := by
  have refuse : ∀ e : Errno, Triple ω (Before D c ms)
      (pure (.error e) : Worker (Except Errno Fd)) fun _ => OnTime D (c + 1) :=
    fun e => .pure _ fun _ h => h.mono (Nat.le_succ c)
  refine .bind socketCall_before fun res => ?_
  cases res with
  | ok sock => exact connectOn_onTime sock true socketPath
  | error e =>
    refine .ite (fun _ => ?_) fun _ => refuse e
    refine .bind socketCall_before fun res => ?_
    cases res with
    | ok sock => exact connectOn_onTime sock false socketPath
    | error e => exact refuse e

theorem sleepFor_onTime :
    Triple ω (Before D c ms) (sleepFor ms) fun _ => OnTime D c := by
  intro n w h
  have hms := h.nonneg
  rw [sleepFor, Int.tmod_eq_emod_of_nonneg hms, i64_eq (by omega), pure_bind]
  exact nanosleepCall_onTime n w h

/-- The backoff sleeps no longer than the remaining time. -/
theorem backOff_onTime {attempt : Int} :
    Triple ω (OnTime D c) (backOff attempt D) fun _ => OnTime D c := by
  obtain ⟨hlo, hhi⟩ := two_pow_bounds (k := if attempt > 20 then 20 else attempt) (m := 20)
    (by split_ifs <;> omega)
  have hdelay : 0 ≤ retryBaseDelayMs * 2 ^ (if attempt > 20 then 20 else attempt).toNat ∧
      retryBaseDelayMs * 2 ^ (if attempt > 20 then 20 else attempt).toNat ≤ 10485760 := by
    simp only [retryBaseDelayMs]
    omega
  rw [backOff, i32_eq (x := 2 ^ (if attempt > 20 then 20 else attempt).toNat) (by omega),
    pure_bind, i32_eq (by omega), pure_bind]
  generalize retryBaseDelayMs * 2 ^ (if attempt > 20 then 20 else attempt).toNat = delay at hdelay ⊢
  refine .bind remainingTimeoutMs_onTime fun remaining => ?_
  refine .ite (fun _ => .pure _ fun w h => h.2) fun hr => ?_
  refine .bind (noteAsked_before hdelay.1 (by simp only [intMax]; omega) hr) fun _ => ?_
  exact .bind sleepFor_onTime fun _ => .pure _ fun _ h => h

/-- **The retry loop** makes at most one connect for each attempt left. The induction is on the
attempts left; `attempt` only matters for the type it is counted in. -/
theorem connectLoop_onTime (socketPath : CStr) {connectTimeoutMs maxRetries : Int}
    (ht : 0 ≤ connectTimeoutMs) (ht' : connectTimeoutMs ≤ intMax) (hr : maxRetries ≤ 10)
    (left : Nat) :
    ∀ {c : Nat} {attempt : Int}, 0 ≤ attempt → attempt + left = maxRetries + 1 →
      Triple ω (OnTime D c)
        (connectLoop socketPath connectTimeoutMs maxRetries D left attempt)
        fun _ => OnTime D (c + left) := by
  induction left with
  | zero => intro c attempt _ _; exact .pure _ fun _ h => h
  | succ left ih =>
    intro c attempt ha hleft
    refine .bind remainingTimeoutMs_onTime fun remaining => ?_
    refine .ite (fun _ => .pure _ fun w h => h.2.mono (by omega)) fun hrem => ?_
    refine .bind (noteAsked_before ht ht' hrem) fun _ => ?_
    refine .bind (connectToSocket_onTime socketPath) fun res => ?_
    cases res with
    | ok sock => exact .pure _ fun _ h => h.mono (by omega)
    | error e =>
      refine .ite (fun _ => .pure _ fun _ h => h.mono (by omega)) fun _ => ?_
      refine .bind backOff_onTime fun again => ?_
      refine .ite (fun _ => ?_) fun _ => .pure _ fun _ h => h.mono (by omega)
      rw [i32_eq (by omega), pure_bind]
      exact (ih (c := c + 1) (show 0 ≤ attempt + 1 by omega) (by omega)).conseq
        (fun _ h => h) fun _ _ h => h.mono (by omega)

theorem waitForWrite_onTime (sock : Fd) :
    Triple ω (Before D c ms) (waitForWrite sock ms) fun _ => OnTime D c := by
  refine .bind (pollCall_onTime sock) fun polled => ?_
  match polled with
  | .timeout => exact .pure _ fun _ h => h
  | .failed e => exact .pure _ fun _ h => h
  | .ready true => exact .pure _ fun _ h => h
  | .ready false => exact .pure _ fun _ h => h

theorem sendmsgCall_onTime (sock : Fd) (payload : List UInt8) (fd : Fd) :
    Triple ω (OnTime D c) (sendmsgCall sock payload fd) fun _ => OnTime D c :=
  .ask fun n _ h =>
    (h.pass (ω.idle n)).append (k := 0) rfl rfl (le_refl _) (by simp [Event.wait?]) (le_refl 0)

theorem sendFdWithData_onTime (sock fd : Fd) (data : Option CStr) (dataLen : Nat)
    {timeoutMs : Int} (ht : 0 ≤ timeoutMs) (ht' : timeoutMs ≤ intMax) :
    Triple ω (OnTime D c) (sendFdWithData sock fd data dataLen timeoutMs D)
      fun _ => OnTime D c := by
  refine .bind remainingTimeoutMs_onTime fun remaining => ?_
  refine .ite (fun _ => .pure _ fun w h => h.2) fun hrem => ?_
  refine .bind (noteAsked_before ht ht' hrem) fun _ => ?_
  refine .bind (waitForWrite_onTime sock) fun waited => ?_
  match waited with
  | .timedOut => exact .pure _ fun _ h => h
  | .failed e => exact .pure _ fun _ h => h
  | .ready => exact .bind (sendmsgCall_onTime sock _ fd) fun _ => .pure _ fun _ h => h

theorem commit_onTime (sock : Fd) (dummySocket : Nat) (bb : Brigade) :
    Triple ω (OnTime D c)
      (do
        closeCall sock
        apSetCoreModuleConfig dummySocket
        setAborted
        return (⟨0, none, bb⟩ : Locals))
      fun _ => OnTime D c :=
  .bind (closeCall_onTime sock) fun _ _ _ h => ⟨h.planned, h.connects, h.fits, h.near⟩

/-- `connect_with_retry` followed by `send_fd_with_data`. -/
theorem connectThenSend_onTime {conf : Config} (h : conf.Admitted) (socketPath : CStr)
    (data : Option CStr) (dummySocket fd : Nat) (bb : Brigade) :
    Triple ω (OnTime D 0) (connectThenSend conf socketPath data dummySocket fd bb D)
      fun _ => OnTime D (conf.maxRetries + 1).toNat := by
  have hr := h.retries_nonneg
  have hc := h.connect_pos
  have hs := h.send_pos
  have hc' : conf.connectTimeoutMs ≤ intMax := h.connect_le.trans (by decide)
  have hs' : conf.sendTimeoutMs ≤ intMax := h.send_le.trans (by decide)
  refine .bind (connectLoop_onTime (c := 0) socketPath (by omega) hc' h.retries_le
    (conf.maxRetries + 1).toNat (le_refl 0) (by omega)) fun res => ?_
  rw [Nat.zero_add]
  cases res with
  | none => exact .pure _ fun _ h => h
  | some sock =>
    refine .bind (sendFdWithData_onTime sock fd data _ (by omega) hs') fun res => ?_
    obtain ⟨result, fdWasSent⟩ := res
    cases fdWasSent with
    | false =>
      cases result with
      | error e => exact .pure _ fun _ h => h
      | ok _ => exact commit_onTime sock dummySocket bb
    | true => cases result <;> exact commit_onTime sock dummySocket bb

/-- **Connects, timeouts and arithmetic are bounded in every run.** This half needs nothing of the
environment but a clock that is not near the end of its type; only that the waits end in time
depends on the condition. -/
theorem connectAndSend_onTime {conf : Config} (h : conf.Admitted) (socketPath : CStr)
    (data : Option CStr) (dummySocket fd : Nat) (bb : Brigade) {w : World}
    (htrace : w.trace = []) (hfits : w.overflow = false)
    (hlo : -9223372036854775808 ≤ w.now)
    (hhi : w.now + ω.idle 0 + budgetMs conf * 1000 ≤ 9223372036854775807) :
    OnTime (w.now + ω.idle 0 + budgetMs conf * 1000) (conf.maxRetries + 1).toNat
      ((connectAndSend conf socketPath data dummySocket fd bb).final ω w) := by
  have hbudget := budgetMs_bounds h
  have hstart : OnTime (w.now + ω.idle 0 + budgetMs conf * 1000) 0
      { w.pass (ω.idle 0) with reading := w.now + ω.idle 0 } := by
    simp only [maxBudgetMs] at hbudget
    refine ⟨?_, ?_, hfits, ?_⟩
    · simp [waits, htrace]
    · simp [Apache.connects, htrace]
    · simp only [World.pass_now]
      omega
  have hrun := connectThenSend_onTime (ω := ω) h socketPath data dummySocket fd bb 1 _ hstart
  simp only [Act.final, connectAndSend, computeHandoffDeadline_eq h, bind_run, aprTimeNow, ask_run]
  rw [i64_eq (by omega)]
  exact hrun

/-! ## How long the worker is held -/

/-- **The worker is held no longer than the deadline**: at most `max_retries + 1` connects, every
wait over by the deadline, and no overflow in the arithmetic of the timeouts. Waits are listed in
the trace, since the code keeps no record of them. -/
structure HeldNoLonger (conf : Config) (deadline : Int) (w : World) : Prop where
  connects : (Apache.connects w.trace : Int) ≤ conf.maxRetries + 1
  waits : ∀ wait ∈ Apache.waits w.trace, wait.stop ≤ deadline
  fits : w.overflow = false

/-- **In every run whose waits begin within their slack** the worker is held no longer than the
deadline. The number of connects and the absence of overflow do not need that, see
`connectAndSend_onTime`; and a wait that nothing ends early is over in time only if it began
within the slack. -/
theorem connectAndSend_heldNoLonger {conf : Config} (h : conf.Admitted)
    (socketPath : CStr) (data : Option CStr) (dummySocket fd : Nat) (bb : Brigade) (w : World)
    (htrace : w.trace = []) (hfits : w.overflow = false)
    (hlo : -9223372036854775808 ≤ w.now)
    (hhi : w.now + ω.idle 0 + budgetMs conf * 1000 ≤ 9223372036854775807) :
    ((∀ wait ∈ waits ((connectAndSend conf socketPath data dummySocket fd bb).final ω w).trace,
        wait.Punctual ((computeHandoffDeadline conf).result ω w)) →
      HeldNoLonger conf ((computeHandoffDeadline conf).result ω w)
        ((connectAndSend conf socketPath data dummySocket fd bb).final ω w)) ∧
    ∀ wait ∈ waits ((connectAndSend conf socketPath data dummySocket fd bb).final ω w).trace,
      wait.stop = wait.start + wait.timeoutMs * 1000 →
        (wait.stop ≤ (computeHandoffDeadline conf).result ω w ↔
          wait.Punctual ((computeHandoffDeadline conf).result ω w)) := by
  have hbudget := budgetMs_bounds h
  have hD : (computeHandoffDeadline conf).result ω w =
      w.now + ω.idle 0 + budgetMs conf * 1000 := by
    simp only [Act.result, computeHandoffDeadline_eq h, bind_run, aprTimeNow, ask_run]
    rw [i64_eq (by omega)]
    rfl
  have hrun := connectAndSend_onTime (ω := ω) h socketPath data dummySocket fd bb htrace hfits
    hlo hhi
  have hr := h.retries_nonneg
  have hc := hrun.connects
  rw [hD]
  refine ⟨fun hp => ⟨by omega, fun wait hwait => ?_, hrun.fits⟩, fun wait hwait hwhole => ?_⟩
  · exact (hrun.planned wait hwait).stop_le (hp wait hwait)
  · exact (hrun.planned wait hwait).punctual_iff hwhole

/-- An environment in which a daemon is slow to accept, and signals interrupt each poll of the
worker after these times. A millisecond goes by before each call. -/
def Env.interrupted (rounds : List Nat) : Env :=
  { Env.calm with
    lag := fun _ => 1000
    connect := fun _ => .error .einprogress
    poll := fun _ => ⟨rounds, 100000, .ready false⟩ }

/-- The defaults, and two signals early in each poll: the time they cost is within the slack. -/
theorem connectAndSend_heldNoLonger_early :
    HeldNoLonger createServerConfig
      ((computeHandoffDeadline createServerConfig).result (.interrupted [20000, 30000])
        (.start .php))
      ((connectAndSend createServerConfig runPrefix none 2 5 []).final
        (.interrupted [20000, 30000]) (.start .php)) :=
  (connectAndSend_heldNoLonger createServerConfig_admitted runPrefix none 2 5 [] _ rfl rfl
    (by decide) (by decide)).1 (by decide)

/-- An environment in which five signals arrive, each late in a poll. -/
def Env.signalled : Env := .interrupted [100000, 100000, 100000, 100000, 100000]

/-- Signals late in the wait make it last past the deadline. -/
theorem signalled_not_heldNoLonger :
    ¬ HeldNoLonger createServerConfig
      ((computeHandoffDeadline createServerConfig).result .signalled (.start .php))
      ((connectAndSend createServerConfig runPrefix none 2 5 []).final .signalled
        (.start .php)) := by
  intro h
  have hw := h.waits
  revert hw
  decide

end SocketHandoff.Apache
