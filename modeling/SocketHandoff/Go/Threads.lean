import SocketHandoff.Go.Proxy
import SocketHandoff.Lib.System

/-!
# Threads that are created when they are missed

The requests of `doLangGraphRun` and `ensureThreadExists` of `backends/langgraph.go`, made by any
number of handlers at once. A handler whose thread is not found creates it and asks once more; by
then another handler may have created the thread, and anybody may have deleted it.
-/

namespace SocketHandoff.Go.Threads

/-! ## The requests of a handler -/

/-- The status of a response. -/
def statusOf : Post → Option Nat
  | .failed _ => none
  | .response status _ => some status

/-- The statuses that `ensureThreadExists` takes for success: created, returned, or in conflict with
one that exists. -/
def IsCreated (post : Post) : Prop :=
  statusOf post = some 200 ∨ statusOf post = some 201 ∨ statusOf post = some 409

/-- `ensureThreadExists`, when its request has had this response. -/
def ensureThreadExists : Post → Option GoError
  | .failed err => some err
  | .response status _ =>
    if status = 200 ∨ status = 201 ∨ status = 409 then none else some .plain

/-- What `doLangGraphRun` makes of the last response to a request for a run. -/
def lastResponse : Post → Except GoError Upstream
  | .failed err => .error err
  | .response status body => if status = 200 then .ok body else .error .plain

/-- The request that `doLangGraphRun` waits for, or what it has returned. -/
inductive Phase
  | first
  | ensure
  | again
  | returned (result : Except GoError Upstream)

/-- What it does when the response is there. -/
def Phase.next (threadID : Bool) : Phase → Post → Phase
  | .first, post =>
    if statusOf post = some 404 ∧ threadID then .ensure else .returned (lastResponse post)
  | .ensure, post =>
    match ensureThreadExists post with
    | some err => .returned (.error err)
    | none => .again
  | .again, post => .returned (lastResponse post)
  | .returned result, _ => .returned result

/-- The phase in which these responses leave `doLangGraphRun`. The function is one piece in the
source; here each of its requests is a step, so that those of other handlers may come in between. -/
inductive Replied (threadID : Bool) : List Post → Phase → Prop
  | first : Replied threadID [] .first
  | ensure {post : Post} :
      statusOf post = some 404 → threadID = true → Replied threadID [post] .ensure
  | again {post created : Post} : statusOf post = some 404 → threadID = true →
      ensureThreadExists created = none → Replied threadID [post, created] .again
  | returned (post created again : Post) {n : Nat} : n = 0 ∨ threadID = true →
      Replied threadID ([post, created, again].take (n + 1))
        (.returned (doLangGraphRun threadID post (ensureThreadExists created) again))

/-! ## Handlers and the upstream -/

section Served

variable {Handler Thread : Type}

/-- A request: for a run, in a thread or in none, or for a thread. -/
inductive Call (Thread : Type)
  | run (thread : Option Thread)
  | create (thread : Thread)

/-- The run that is started when a request is carried out. -/
def Call.runs : Call Thread → List (Option Thread)
  | .run thread => [thread]
  | .create _ => []

/-- The request that is made in a phase. -/
def Phase.call (thread : Option Thread) : Phase → Option (Call Thread)
  | .first | .again => some (.run thread)
  | .ensure => thread.map .create
  | .returned _ => none

/-- The handlers, each with the responses it has had, and what the upstream keeps. -/
structure State (Handler Thread : Type) where
  phase : Handler → Phase
  replies : Handler → List Post
  threads : Thread → Bool
  /-- the runs that were started, with the handler that asked for each -/
  runs : List (Handler × Option Thread)

inductive Label (Handler Thread : Type)
  /-- the request of a handler is carried out or not, and this response is read -/
  | answer (h : Handler) (carried : Bool) (post : Post)
  /-- somebody deletes a thread -/
  | delete (thread : Thread)

variable [DecidableEq Handler] [DecidableEq Thread]

/-- What a request does when it is carried out. -/
def State.carryOut (s : State Handler Thread) (h : Handler) : Call Thread → State Handler Thread
  | .run thread => { s with runs := s.runs ++ [(h, thread)] }
  | .create thread => { s with threads := Function.update s.threads thread true }

/-- What the handler does with the response. -/
def State.receive (s : State Handler Thread) (thread : Option Thread) (h : Handler) (post : Post) :
    State Handler Thread :=
  { s with
    phase := Function.update s.phase h ((s.phase h).next thread.isSome post)
    replies := Function.update s.replies h (s.replies h ++ [post]) }

/-- One step, where `threadOf` is the thread that each handoff names. -/
def step (threadOf : Handler → Option Thread) (s : State Handler Thread) :
    Label Handler Thread → Option (State Handler Thread)
  | .answer h carried post =>
    ((s.phase h).call (threadOf h)).map fun call =>
      (if carried then s.carryOut h call else s).receive (threadOf h) h post
  | .delete thread => some { s with threads := Function.update s.threads thread false }

/-- The handlers before their first request, and any threads. -/
def system (threadOf : Handler → Option Thread) : System (State Handler Thread) (Label Handler Thread)
    where
  init s := (∀ h, s.phase h = .first) ∧ (∀ h, s.replies h = []) ∧ s.runs = []
  step := step threadOf

/-- The thread exists, or none is named. -/
def State.Exists (s : State Handler Thread) (thread : Option Thread) : Prop :=
  ∀ t, thread = some t → s.threads t = true

/-- What is known of a request: a run is started only in a thread that exists, and then the response,
if it arrives, is not that the thread is missing; a response of 200 means that the run is started.
A thread exists when its request is answered so. -/
def Honest (s : State Handler Thread) (carried : Bool) (post : Post) : Call Thread → Prop
  | .run thread =>
    (carried = true → s.Exists thread ∧ statusOf post ≠ some 404) ∧
      (statusOf post = some 200 → carried = true)
  | .create thread => IsCreated post → carried = true ∨ s.threads thread = true

/-- The upstream is honest, whatever is lost, refused or deleted. -/
def IsHonest (threadOf : Handler → Option Thread) (s : State Handler Thread) :
    Label Handler Thread → Prop
  | .answer h carried post => ∀ call, (s.phase h).call (threadOf h) = some call →
      Honest s carried post call
  | .delete _ => True

/-- What an upstream answers that is up: it runs what it has the thread for, and answers 404 where
it has not; and asked to create a thread it says that it is there, having created it if it was not.
-/
def Serves (s : State Handler Thread) (carried : Bool) (post : Post) : Call Thread → Prop
  | .run thread =>
    (s.Exists thread → statusOf post = some 200 ∧ carried = true) ∧
      (¬ s.Exists thread → statusOf post = some 404 ∧ carried = false)
  | .create thread => IsCreated post ∧ (carried = true ∨ s.threads thread = true)

/-- The upstream is up, and no thread is deleted between its creation by a handler and the run that
the handler asks for then. -/
def IsUp (threadOf : Handler → Option Thread) (s : State Handler Thread) :
    Label Handler Thread → Prop
  | .answer h carried post => ∀ call, (s.phase h).call (threadOf h) = some call →
      Serves s carried post call
  | .delete thread => ∀ h, threadOf h = some thread → s.phase h ≠ .again

/-- The runs that a handler has started. -/
def State.runsOf (s : State Handler Thread) (h : Handler) : List (Option Thread) :=
  (s.runs.filter fun run => run.1 = h).map Prod.snd

/-- What has been done for a handler. It counts the runs that were started, which is more than what
the handler has heard of: a response may be lost. -/
structure Handled (thread : Option Thread) (phase : Phase) (replies : List Post)
    (runs : List (Option Thread)) : Prop where
  replied : Replied thread.isSome replies phase
  once : runs = [] ∨ runs = [thread]
  pending : (∀ result, phase ≠ .returned result) → runs = []
  started : ∀ body, phase = .returned (.ok body) → runs = [thread]

/-- Every handler has had what it asked for. -/
def AllHandled (threadOf : Handler → Option Thread) (s : State Handler Thread) : Prop :=
  ∀ h, Handled (threadOf h) (s.phase h) (s.replies h) (s.runsOf h)

end Served

/-! ## `doLangGraphRun` one request at a time -/

section Requests

variable {threadID : Bool} {replies : List Post} {phase : Phase} {post created again : Post}

/-- The response to the only request. -/
theorem doLangGraphRun_last (h : ¬ (statusOf post = some 404 ∧ threadID = true))
    (ensured : Option GoError) :
    doLangGraphRun threadID post ensured again = lastResponse post := by
  cases post with
  | failed err => rfl
  | response status body =>
    by_cases hstatus : status = 404
    · subst hstatus
      have hno : threadID = false := by
        cases threadID with
        | false => rfl
        | true => exact absurd ⟨rfl, rfl⟩ h
      rw [doLangGraphRun.eq_def, hno]
      rfl
    · have hrun : ∀ status body, status ≠ 404 →
          doLangGraphRun threadID (.response status body) ensured again =
            lastResponse (.response status body) := by
        intro status body hne
        rw [doLangGraphRun.eq_def]
        split
        · rename_i heq
          cases heq
          exact absurd rfl hne
        · rfl
      exact hrun status body hstatus

/-- A thread that could not be created. -/
theorem doLangGraphRun_notCreated (h : statusOf post = some 404) (err : GoError) :
    doLangGraphRun true post (some err) again = .error err := by
  cases post with
  | failed err => cases h
  | response status body =>
    cases h
    rfl

/-- The response to the request that is made once more. -/
theorem doLangGraphRun_again (h : statusOf post = some 404) :
    doLangGraphRun true post none again = lastResponse again := by
  cases post with
  | failed err => cases h
  | response status body =>
    cases h
    rfl

/-- **The step lemma of a handler**: its phases and responses are those of `doLangGraphRun`. Each
response that it is given is put behind those before, and its phase is what the function would have
come to with them. -/
theorem Replied.next (h : Replied threadID replies phase)
    (hwait : ∀ result, phase ≠ .returned result) (post : Post) :
    Replied threadID (replies ++ [post]) (phase.next threadID post) := by
  cases h with
  | first =>
    rw [Phase.next, List.nil_append]
    by_cases hmissing : statusOf post = some 404 ∧ threadID = true
    · rw [if_pos hmissing]
      exact .ensure hmissing.1 hmissing.2
    · rw [if_neg hmissing, ← @doLangGraphRun_last threadID post post hmissing none]
      exact .returned post (.response 200 (.done .canceled)) post (n := 0) (.inl rfl)
  | @ensure first hmissing hid =>
    subst hid
    rw [Phase.next, List.singleton_append]
    cases hcreated : ensureThreadExists post with
    | some err =>
      have herr := @doLangGraphRun_notCreated first post hmissing err
      rw [← hcreated] at herr
      dsimp only
      rw [← herr]
      exact .returned first post post (n := 1) (.inr rfl)
    | none => exact .again hmissing rfl hcreated
  | @again first created hmissing hid hcreated =>
    subst hid
    rw [Phase.next, ← doLangGraphRun_again hmissing, ← hcreated]
    exact .returned first created post (n := 2) (.inr rfl)
  | returned => exact absurd rfl (hwait _)

/-- Two requests for a run and one for its thread at most, and one only for a run in no thread. -/
theorem Replied.length_le (h : Replied threadID replies phase) :
    replies.length ≤ if threadID then 3 else 1 := by
  cases h with
  | first => exact Nat.zero_le _
  | ensure _ hid =>
    rw [hid, if_pos rfl]
    exact Nat.le_add_left 1 2
  | again _ hid =>
    rw [hid, if_pos rfl]
    exact Nat.le_add_left 2 1
  | returned post created again hn =>
    rw [List.length_take]
    split
    · exact Nat.min_le_right _ _
    · rename_i hid
      obtain rfl := hn.resolve_right hid
      exact Nat.min_le_left _ _

/-- A run is asked for in a phase that waits for its response. -/
theorem Phase.call_pending {Thread : Type} {thread : Option Thread} {call : Call Thread}
    (h : phase.call thread = some call) (result : Except GoError Upstream) :
    phase ≠ .returned result := by
  rintro rfl
  cases h

/-- What is returned as a run is a response of 200. -/
theorem lastResponse_ok {body : Upstream} (h : lastResponse post = .ok body) :
    statusOf post = some 200 := by
  cases post with
  | failed err => cases h
  | response status body' =>
    rw [lastResponse] at h
    split at h
    · rename_i hstatus
      rw [statusOf, hstatus]
    · cases h

/-- A request whose response ends `doLangGraphRun` well is one for a run. -/
theorem next_ok {Thread : Type} {thread : Option Thread} {call : Call Thread}
    (h : phase.call thread = some call) {body : Upstream}
    (hnext : phase.next thread.isSome post = .returned (.ok body)) :
    call = .run thread ∧ statusOf post = some 200 := by
  cases phase with
  | first =>
    cases h
    rw [Phase.next] at hnext
    split at hnext
    · cases hnext
    · exact ⟨rfl, lastResponse_ok (Phase.returned.inj hnext)⟩
  | ensure =>
    rw [Phase.next] at hnext
    split at hnext <;> cases hnext
  | again =>
    cases h
    exact ⟨rfl, lastResponse_ok (Phase.returned.inj hnext)⟩
  | returned result => cases h

/-- A request for a run that is carried out is the last one. -/
theorem next_run_returned {Thread : Type} {thread t : Option Thread}
    (h : phase.call thread = some (.run t)) (hstatus : statusOf post ≠ some 404) :
    t = thread ∧ ∃ result, phase.next thread.isSome post = .returned result := by
  cases phase with
  | first =>
    cases h
    rw [Phase.next, if_neg fun hmissing => hstatus hmissing.1]
    exact ⟨rfl, _, rfl⟩
  | ensure =>
    obtain ⟨_, -, heq⟩ := Option.map_eq_some_iff.mp h
    cases heq
  | again =>
    cases h
    exact ⟨rfl, _, rfl⟩
  | returned result => cases h

end Requests

/-! ## Every run of the system -/

section Runs

variable {Handler Thread : Type} [DecidableEq Handler] [DecidableEq Thread]
  {threadOf : Handler → Option Thread} {s s' : State Handler Thread} {h : Handler}

omit [DecidableEq Thread] in
@[simp] theorem runsOf_receive (s : State Handler Thread) (thread : Option Thread) (h h' : Handler)
    (post : Post) : (s.receive thread h post).runsOf h' = s.runsOf h' := rfl

/-- What a handler has started, after a request is carried out or not. -/
theorem runsOf_carryOut (s : State Handler Thread) (h h' : Handler) (carried : Bool)
    (call : Call Thread) :
    (if carried then s.carryOut h call else s).runsOf h' =
      if carried = true ∧ h' = h then s.runsOf h' ++ call.runs else s.runsOf h' := by
  cases carried with
  | false => rfl
  | true =>
    cases call with
    | create thread =>
      rw [if_pos rfl, Call.runs, List.append_nil, ite_self]
      rfl
    | run thread =>
      simp only [if_true, State.carryOut, State.runsOf, List.filter_append, List.map_append,
        true_and, Call.runs]
      by_cases hh : h' = h
      · subst hh
        simp
      · have hne : ¬ h = h' := fun heq => hh heq.symm
        simp [hh, hne]

omit [DecidableEq Handler] in
theorem phase_carryOut (s : State Handler Thread) (h : Handler) (carried : Bool)
    (call : Call Thread) : (if carried then s.carryOut h call else s).phase = s.phase := by
  cases carried <;> cases call <;> rfl

omit [DecidableEq Handler] in
theorem replies_carryOut (s : State Handler Thread) (h : Handler) (carried : Bool)
    (call : Call Thread) : (if carried then s.carryOut h call else s).replies = s.replies := by
  cases carried <;> cases call <;> rfl

/-- A step is the deletion of a thread, or a handler has its response. -/
theorem step_cases {a : Label Handler Thread} (hs : step threadOf s a = some s') :
    (∃ thread, a = .delete thread ∧
      s' = { s with threads := Function.update s.threads thread false }) ∨
    ∃ h carried post call, a = .answer h carried post ∧
      (s.phase h).call (threadOf h) = some call ∧
      s' = (if carried then s.carryOut h call else s).receive (threadOf h) h post := by
  cases a with
  | delete thread => exact .inl ⟨thread, rfl, (Option.some.inj hs).symm⟩
  | answer h carried post =>
    obtain ⟨call, hcall, heq⟩ := Option.map_eq_some_iff.mp hs
    exact .inr ⟨h, carried, post, call, rfl, hcall, heq.symm⟩

omit [DecidableEq Handler] [DecidableEq Thread] in
/-- **The step lemma**: an honest response leaves a handler with what it asked for. -/
theorem Handled.answer {thread : Option Thread} {phase : Phase} {replies : List Post}
    {runs : List (Option Thread)} {call : Call Thread} {carried : Bool} {post : Post}
    (hh : Handled thread phase replies runs) (hcall : phase.call thread = some call)
    (hhonest : Honest s carried post call) :
    Handled thread (phase.next thread.isSome post) (replies ++ [post])
      (if carried then runs ++ call.runs else runs) := by
  have hpending := Phase.call_pending hcall
  have hnone := hh.pending hpending
  have hreplied := hh.replied.next hpending post
  cases call with
  | create t =>
    have hruns : (if carried then runs ++ (Call.create t).runs else runs) = [] := by
      rw [Call.runs, List.append_nil, ite_self, hnone]
    rw [hruns]
    refine ⟨hreplied, .inl rfl, fun _ => rfl, fun body hbody => ?_⟩
    cases (next_ok hcall hbody).1
  | run t =>
    cases carried with
    | true =>
      obtain ⟨rfl, result, hresult⟩ := next_run_returned hcall (hhonest.1 rfl).2
      have hruns : (if true then runs ++ (Call.run t).runs else runs) = [t] := by
        rw [if_pos rfl, Call.runs, hnone, List.nil_append]
      rw [hruns]
      exact ⟨hreplied, .inr rfl, fun hwait => absurd hresult (hwait result), fun _ _ => rfl⟩
    | false =>
      have hruns : (if false then runs ++ (Call.run t).runs else runs) = [] := by
        rw [if_neg Bool.false_ne_true, hnone]
      rw [hruns]
      refine ⟨hreplied, .inl rfl, fun _ => rfl, fun body hbody => ?_⟩
      have hcarried := hhonest.2 (next_ok hcall hbody).2
      cases hcarried

/-- Whatever is lost, refused or deleted, **every handler has what it asked for**: it starts its run
once at most, and that in its own thread; it has started it when it returns a stream, and has not
before it returns; and it has returned what `doLangGraphRun` does. -/
theorem allHandled_reachable (hr : (system threadOf).ReachableIf (IsHonest threadOf) s) :
    AllHandled threadOf s := by
  apply hr.invariant
  · rintro s ⟨hphase, hreplies, hruns⟩ h
    have hnone : s.runsOf h = [] := by
      rw [State.runsOf, hruns]
      rfl
    rw [hphase, hreplies, hnone]
    exact ⟨.first, .inl rfl, fun _ => rfl, fun _ hbody => by cases hbody⟩
  · intro s a s' hall hhonest hstep
    rcases step_cases hstep with ⟨thread, rfl, rfl⟩ | ⟨h, carried, post, call, rfl, hcall, rfl⟩
    · exact hall
    · intro h'
      rw [runsOf_receive, runsOf_carryOut]
      by_cases hh : h' = h
      · subst hh
        have hnext := (hall h').answer hcall (hhonest call hcall)
        simp only [State.receive, phase_carryOut, replies_carryOut, Function.update_self, and_true]
        exact hnext
      · have hother : ¬ (carried = true ∧ h' = h) := fun hc => hh hc.2
        rw [if_neg hother]
        simp only [State.receive, phase_carryOut, replies_carryOut, Function.update_of_ne hh]
        exact hall h'

/-- What holds of a handler while the upstream is up. -/
structure Granted (s : State Handler Thread) (thread : Option Thread) (phase : Phase) : Prop where
  again : phase = .again → s.Exists thread
  ok : ∀ err, phase ≠ .returned (.error err)

omit [DecidableEq Handler] [DecidableEq Thread] in
theorem granted_ensure {thread : Option Thread} : Granted s thread .ensure where
  again h := by cases h
  ok err h := by cases h

omit [DecidableEq Handler] [DecidableEq Thread] in
theorem granted_ok {thread : Option Thread} (body : Upstream) :
    Granted s thread (.returned (.ok body)) where
  again h := by cases h
  ok err h := by cases h

omit [DecidableEq Handler] [DecidableEq Thread] in
/-- A response of 200 is a stream. -/
theorem lastResponse_of_ok {post : Post} (h : statusOf post = some 200) :
    ∃ body, lastResponse post = .ok body := by
  cases post with
  | failed err => cases h
  | response status body =>
    cases h
    exact ⟨body, rfl⟩

omit [DecidableEq Handler] [DecidableEq Thread] in
/-- A thread that is there, or could be created, is taken for created. -/
theorem ensureThreadExists_created {post : Post} (h : IsCreated post) :
    ensureThreadExists post = none := by
  cases post with
  | failed err =>
    rcases h with h | h | h <;> cases h
  | response status body =>
    have hstatus : status = 200 ∨ status = 201 ∨ status = 409 := by
      rcases h with h | h | h
      · exact .inl (Option.some.inj h)
      · exact .inr (.inl (Option.some.inj h))
      · exact .inr (.inr (Option.some.inj h))
    rw [ensureThreadExists, if_pos hstatus]

omit [DecidableEq Handler] in
/-- Carrying a request out takes no thread away. -/
theorem exists_carryOut {thread : Option Thread} (hex : s.Exists thread) (h : Handler)
    (carried : Bool) (call : Call Thread) :
    (if carried then s.carryOut h call else s).Exists thread := by
  intro t ht
  cases carried with
  | false => exact hex t ht
  | true =>
    cases call with
    | run => exact hex t ht
    | create t' =>
      by_cases htt : t = t'
      · subst htt
        exact Function.update_self ..
      · exact (Function.update_of_ne htt ..).trans (hex t ht)

omit [DecidableEq Handler] in
/-- **The step lemma** while the upstream is up. -/
theorem Granted.answer {thread : Option Thread} {phase : Phase} {call : Call Thread}
    {carried : Bool} {post : Post} (hg : Granted s thread phase)
    (hcall : phase.call thread = some call) (hserves : Serves s carried post call) :
    Granted (if carried then s.carryOut h call else s) thread
      (phase.next thread.isSome post) := by
  cases phase with
  | first =>
    obtain rfl := Option.some.inj hcall
    by_cases hex : s.Exists thread
    · obtain ⟨hstatus, -⟩ := hserves.1 hex
      obtain ⟨body, hbody⟩ := lastResponse_of_ok hstatus
      have hfound : ¬ (statusOf post = some 404 ∧ thread.isSome = true) := by
        rw [hstatus]
        exact fun h => absurd h.1 (by decide)
      rw [Phase.next, if_neg hfound, hbody]
      exact granted_ok body
    · obtain ⟨hstatus, -⟩ := hserves.2 hex
      have hsome : thread.isSome = true := by
        cases thread with
        | some t => rfl
        | none => exact absurd (fun t ht => by cases ht) hex
      have hmissing : statusOf post = some 404 ∧ thread.isSome = true := ⟨hstatus, hsome⟩
      rw [Phase.next, if_pos hmissing]
      exact granted_ensure
  | ensure =>
    obtain ⟨t, rfl, rfl⟩ := Option.map_eq_some_iff.mp hcall
    obtain ⟨hcreated, hthere⟩ := hserves
    rw [Phase.next, ensureThreadExists_created hcreated]
    constructor
    · intro _ t' ht'
      obtain rfl := Option.some.inj ht'
      cases carried with
      | true => exact Function.update_self ..
      | false => exact hthere.resolve_left Bool.false_ne_true
    · intro err herr
      cases herr
  | again =>
    obtain rfl := Option.some.inj hcall
    obtain ⟨hstatus, -⟩ := hserves.1 (hg.again rfl)
    obtain ⟨body, hbody⟩ := lastResponse_of_ok hstatus
    rw [Phase.next, hbody]
    exact granted_ok body
  | returned result => cases hcall

/-- **No handler fails** while the upstream is up, in whatever order the handlers of one thread miss
it, create it, find that it exists and ask for their runs. -/
theorem granted_reachable (hr : (system threadOf).ReachableIf (IsUp threadOf) s) (h : Handler) :
    Granted s (threadOf h) (s.phase h) := by
  revert h
  apply hr.invariant
  · rintro s ⟨hphase, -, -⟩ h
    rw [hphase]
    constructor
    · intro hagain
      cases hagain
    · intro err herr
      cases herr
  · intro s a s' hall hup hstep h'
    rcases step_cases hstep with ⟨thread, rfl, rfl⟩ | ⟨h, carried, post, call, rfl, hcall, rfl⟩
    · refine ⟨fun hagain t ht => ?_, (hall h').ok⟩
      have hne : t ≠ thread := by
        rintro rfl
        exact hup h' ht hagain
      exact (Function.update_of_ne hne ..).trans ((hall h').again hagain t ht)
    · by_cases hh : h' = h
      · subst hh
        have hnext : Granted (if carried then s.carryOut h' call else s) (threadOf h') _ :=
          (hall h').answer hcall (hup call hcall)
        simp only [State.receive, phase_carryOut, replies_carryOut, Function.update_self]
        exact ⟨hnext.again, hnext.ok⟩
      · simp only [State.receive, phase_carryOut, replies_carryOut, Function.update_of_ne hh]
        exact ⟨fun hagain => exists_carryOut ((hall h').again hagain) h carried call, (hall h').ok⟩

omit [DecidableEq Handler] [DecidableEq Thread] in
/-- An upstream that is up is honest. -/
theorem IsUp.isHonest {a : Label Handler Thread} (hup : IsUp threadOf s a) :
    IsHonest threadOf s a := by
  cases a with
  | delete => trivial
  | answer h carried post =>
    intro call hcall
    have hserves := hup call hcall
    cases call with
    | create t => exact fun _ => hserves.2
    | run t =>
      by_cases hex : s.Exists t
      · obtain ⟨hstatus, hcarried⟩ := hserves.1 hex
        refine ⟨fun _ => ⟨hex, ?_⟩, fun _ => hcarried⟩
        rw [hstatus]
        decide
      · obtain ⟨hstatus, hcarried⟩ := hserves.2 hex
        refine ⟨fun h => ?_, fun h => ?_⟩
        · rw [hcarried] at h
          cases h
        · rw [hstatus] at h
          cases h

/-- **A handoff is run once at most**, and in its own thread, whatever is lost, refused or deleted
between its requests and those of others. The handler makes three requests at most, or one for a run
in no thread, returns what `doLangGraphRun` returns for the responses, and has started its run when
that is a stream. -/
theorem handoff_run_once (hr : (system threadOf).ReachableIf (IsHonest threadOf) s) (h : Handler) :
    (s.runsOf h = [] ∨ s.runsOf h = [threadOf h]) ∧
      (s.replies h).length ≤ (if (threadOf h).isSome then 3 else 1) ∧
      ∀ result, s.phase h = .returned result →
        (∃ post created again n, s.replies h = [post, created, again].take (n + 1) ∧
          result = doLangGraphRun (threadOf h).isSome post (ensureThreadExists created) again) ∧
        ∀ body, result = .ok body → s.runsOf h = [threadOf h] := by
  have hh := allHandled_reachable hr h
  refine ⟨hh.once, hh.replied.length_le, fun result hresult => ⟨?_, ?_⟩⟩
  · have hreplied := hh.replied
    rw [hresult] at hreplied
    generalize s.replies h = replies at hreplied ⊢
    cases hreplied with
    | returned post created again => exact ⟨post, created, again, _, rfl, rfl⟩
  · rintro body rfl
    exact hh.started body hresult

/-- **Every handoff is run once** while the upstream is up, in whatever order the handlers of one
thread miss it, create it or find that another has, and ask again. -/
theorem handoff_run (hr : (system threadOf).ReachableIf (IsUp threadOf) s) (h : Handler)
    (result : Except GoError Upstream) (hreturned : s.phase h = .returned result) :
    (∃ body, result = .ok body) ∧ s.runsOf h = [threadOf h] := by
  have hok := (granted_reachable hr h).ok
  have hh := allHandled_reachable (hr.mono fun _ _ => IsUp.isHonest) h
  cases result with
  | error err => exact absurd hreturned (hok err)
  | ok body => exact ⟨⟨body, rfl⟩, hh.started body hreturned⟩

/-- A handler has its response. -/
theorem up_answer (hr : (system threadOf).ReachableIf (IsUp threadOf) s) (h : Handler)
    (carried : Bool) (post : Post) {call : Call Thread}
    (hcall : (s.phase h).call (threadOf h) = some call)
    (hserves : Serves s carried post call) :
    (system threadOf).ReachableIf (IsUp threadOf)
      ((if carried then s.carryOut h call else s).receive (threadOf h) h post) := by
  refine hr.step (a := .answer h carried post) ?_ ?_
  · intro call' hcall'
    obtain rfl := Option.some.inj (hcall.symm.trans hcall')
    exact hserves
  · exact congrArg (Option.map _) hcall

end Runs

/-! ## Two handlers of one thread -/

section Race

/-- No response to read. -/
def answered (status : Nat) : Post := .response status (.last [] .eof none)

def threadOf (_ : Bool) : Option Unit := some ()

/-- Nobody has asked yet, and the thread does not exist. -/
def unasked : State Bool Unit := ⟨fun _ => .first, fun _ => [], fun _ => false, []⟩

/-- Both have missed the thread. -/
def missed : State Bool Unit :=
  (unasked.receive (threadOf false) false (answered 404)).receive (threadOf true) true (answered 404)

/-- One of them has created it, and the other has found that it exists. -/
def created : State Bool Unit :=
  ((missed.carryOut false (.create ())).receive (threadOf false) false (answered 201)).receive
    (threadOf true) true (answered 409)

/-- And one has its run. -/
def streaming : State Bool Unit :=
  (created.carryOut true (.run (some ()))).receive (threadOf true) true (answered 200)

theorem up_streaming : (system threadOf).ReachableIf (IsUp threadOf) streaming := by
  have hserves : ∀ s : State Bool Unit, s.threads () = false →
      Serves s false (answered 404) (.run (some ())) := by
    intro s hs
    refine ⟨fun hex => ?_, fun _ => ⟨rfl, rfl⟩⟩
    have hthere := hex () rfl
    rw [hs] at hthere
    cases hthere
  have h₀ : (system threadOf).ReachableIf (IsUp threadOf) unasked :=
    .init ⟨fun _ => rfl, fun _ => rfl, rfl⟩
  have h₁ := up_answer h₀ false false (answered 404) rfl (hserves _ rfl)
  have h₂ := up_answer h₁ true false (answered 404) rfl (hserves _ rfl)
  have h₃ := up_answer h₂ false true (answered 201) rfl ⟨.inr (.inl rfl), .inl rfl⟩
  have h₄ := up_answer h₃ true false (answered 409) rfl ⟨.inr (.inr rfl), .inr rfl⟩
  have hrun : Serves created true (answered 200) (.run (some ())) :=
    ⟨fun _ => ⟨rfl, rfl⟩, fun hno => absurd (fun _ _ => rfl) hno⟩
  exact up_answer h₄ true true (answered 200) rfl hrun

theorem handoff_run_once_raced : streaming.runsOf true = [] ∨ streaming.runsOf true = [some ()] :=
  (handoff_run_once (up_streaming.mono fun _ _ => IsUp.isHonest) true).1

theorem handoff_run_raced : streaming.runsOf true = [some ()] :=
  (handoff_run up_streaming true _ rfl).2

end Race

end SocketHandoff.Go.Threads
