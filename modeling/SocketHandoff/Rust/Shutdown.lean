import SocketHandoff.Lib.System
import SocketHandoff.Rust.OpenAI

/-!
# A stream that is shut down

The `select!` of `stream_to_client` with the signal and the results of the backend around it, in
any order. It is biased: once the shutdown is signalled it is what `select!` finds, whether or not
a chunk is there. So the client gets the frames of the chunks that were taken before, and the
marker `[DONE]` only if these were all.
-/

namespace SocketHandoff.Rust.Shutdown

/-- What `chunk_stream.next()` returns. -/
abbrev Result := Option (Except (List UInt8) StreamChunk)

/-- A stream in its loop. -/
structure Stream where
  /-- the value of the `watch` channel -/
  signalled : Bool
  /-- what the backend has still to give -/
  later : List Result
  /-- what it has given, and the loop has not taken -/
  ready : List Result
  /-- what the loop has taken -/
  taken : List Result
  /-- the loop was left for the shutdown -/
  shutdown : Bool

/-- What `select!` has found so far. -/
def Stream.polls (s : Stream) : List Poll :=
  s.taken.map .next ++ if s.shutdown then [.shutdown] else []

/-- The loop has been left. -/
def Stream.over (s : Stream) : Bool := endingOf s.polls ≠ .none

inductive Label
  /-- the send on the watch channel, with which the task that waits for SIGTERM and SIGINT passes
  the signal on: what `select!` polls is this channel, and not the arrival of the signal -/
  | signal
  /-- the backend gives its next result -/
  | arrive
  /-- the loop comes to `select!` -/
  | select
  deriving DecidableEq, Repr

/-- `select!`, where it is ready. -/
def Stream.select (s : Stream) : Option Stream :=
  if s.signalled then some { s with shutdown := true }
  else
    match s.ready with
    | [] => none
    | result :: ready => some { s with
        taken := s.taken ++ [result]
        ready := ready }

/-- A stream whose backend gives these results, one at a time. What it has given is ready until the
loop comes to `select!`. That is biased: where the channel has changed, the loop is left, whatever
is ready. -/
def stream (results : List Result) : System Stream Label where
  init s := s = ⟨false, results, [], [], false⟩
  step s
    | .signal => some { s with signalled := true }
    | .arrive =>
      match s.later with
      | [] => none
      | result :: later => some { s with
          ready := s.ready ++ [result]
          later := later }
    | .select => if s.over then none else s.select

variable {results : List Result} {s s' : Stream} {label : Label}

/-- **What a step can do.** -/
theorem step_cases (h : (stream results).step s label = some s') :
    (label = .signal ∧ s' = { s with signalled := true }) ∨
    (∃ result later, label = .arrive ∧ s.later = result :: later ∧
      s' = { s with ready := s.ready ++ [result], later := later }) ∨
    (label = .select ∧ s.over = false ∧ s.signalled = true ∧ s' = { s with shutdown := true }) ∨
    (∃ result ready, label = .select ∧ s.over = false ∧ s.signalled = false ∧
      s.ready = result :: ready ∧
      s' = { s with taken := s.taken ++ [result], ready := ready }) := by
  cases label with
  | signal => exact .inl ⟨rfl, (Option.some.inj h).symm⟩
  | arrive =>
    simp only [stream] at h
    split at h
    · cases h
    · rename_i result later hlater
      exact .inr (.inl ⟨result, later, rfl, hlater, (Option.some.inj h).symm⟩)
  | select =>
    simp only [stream, Stream.select] at h
    split at h
    · cases h
    · rename_i hover
      split at h
      · rename_i hsignal
        exact .inr (.inr (.inl ⟨rfl, by simpa using hover, hsignal, (Option.some.inj h).symm⟩))
      · rename_i hsignal
        split at h
        · cases h
        · rename_i result ready hready
          exact .inr (.inr (.inr ⟨result, ready, rfl, by simpa using hover, by simpa using hsignal,
            hready, (Option.some.inj h).symm⟩))

/-- A loop that goes on has taken no end. -/
theorem ending_of_not_over (h : s.over = false) : endingOf (s.taken.map .next) = .none := by
  have hpolls : endingOf s.polls = .none := by simpa [Stream.over] using h
  rw [Stream.polls, endingOf_append] at hpolls
  split at hpolls
  · assumption
  · exact hpolls

/-- Nothing of the backend is lost, and a loop left for the shutdown has seen no end. -/
structure Inv (results : List Result) (s : Stream) : Prop where
  kept : s.taken ++ s.ready ++ s.later = results
  shutdown : s.shutdown = true → s.signalled = true ∧ endingOf (s.taken.map .next) = .none

theorem inv_step (hs : Inv results s) (hstep : (stream results).step s label = some s') :
    Inv results s' := by
  obtain ⟨-, rfl⟩ | ⟨result, later, -, hlater, rfl⟩ | ⟨-, hover, hsignal, rfl⟩ |
    ⟨result, ready, -, hover, hsignal, hready, rfl⟩ := step_cases hstep
  · exact ⟨hs.kept, fun h => ⟨rfl, (hs.shutdown h).2⟩⟩
  · refine ⟨?_, hs.shutdown⟩
    rw [← hs.kept, hlater]
    simp
  · have hend := ending_of_not_over hover
    exact ⟨hs.kept, fun _ => ⟨hsignal, hend⟩⟩
  · refine ⟨?_, fun h => ?_⟩
    · rw [← hs.kept, hready]
      simp
    · obtain ⟨hsig, -⟩ := hs.shutdown h
      rw [hsig] at hsignal
      cases hsignal

theorem inv_reachable (h : (stream results).Reachable s) : Inv results s :=
  h.invariant (fun s hs => by
    obtain rfl : s = _ := hs
    exact ⟨rfl, by simp⟩) fun _ _ _ hI _ hstep => inv_step hI hstep

/-! ## What the client gets -/

/-- What the client of a stream has got. -/
def Stream.bytes (s : Stream) (ω : Env) : List UInt8 :=
  (handle.final { ω with stream := .stream, polls := s.polls } .new).wire.bytes

variable {ω : Env}

theorem bytes_eq (hω : ω.Serves) (hs : Inv results s) :
    s.bytes ω = sseHeaders ++ frames (s.taken.map .next) ++
      closing (endingOf (s.taken.map .next)) := by
  have hserves : Env.Serves { ω with stream := .stream, polls := s.polls } :=
    ⟨hω.receiveHandoff, hω.setNodelay, hω.setNonblocking, hω.fromStd, hω.write⟩
  rw [Stream.bytes, hserves.replies]
  change sseHeaders ++ frames s.polls ++ closing (endingOf s.polls) = _
  cases hshutdown : s.shutdown with
  | false =>
    have hpolls : s.polls = s.taken.map .next := by
      rw [Stream.polls, hshutdown]
      exact List.append_nil _
    rw [hpolls]
  | true =>
    have hpolls : s.polls = s.taken.map .next ++ [.shutdown] := by
      rw [Stream.polls, hshutdown]
      rfl
    have hend := (hs.shutdown hshutdown).2
    rw [hpolls, frames_append, endingOf_append, if_pos hend, if_pos hend, hend]
    change sseHeaders ++ (_ ++ []) ++ [] = _ ++ []
    rw [List.append_nil, List.append_nil, List.append_nil]

variable (results) in
/-- After the signal the loop takes nothing more. -/
theorem taken_step (hsignal : s.signalled = true)
    (hstep : (stream results).step s label = some s') :
    s'.signalled = true ∧ s'.taken = s.taken := by
  obtain ⟨-, rfl⟩ | ⟨result, later, -, -, rfl⟩ | ⟨-, -, -, rfl⟩ | ⟨result, ready, -, -, hno, -, rfl⟩ :=
    step_cases hstep
  · exact ⟨rfl, rfl⟩
  · exact ⟨hsignal, rfl⟩
  · exact ⟨hsignal, rfl⟩
  · rw [hsignal] at hno
    cases hno

theorem taken_run (hsignal : s.signalled = true)
    (h : ((stream results).startedAt s).Reachable s') : s'.taken = s.taken := by
  have hboth : s'.signalled = true ∧ s'.taken = s.taken := by
    refine h.invariant (I := fun t => t.signalled = true ∧ t.taken = s.taken) ?_ ?_
    · rintro _ rfl
      exact ⟨hsignal, rfl⟩
    · rintro t label t' ⟨hsig, htaken⟩ - hstep
      obtain ⟨hsig', htaken'⟩ := taken_step results hsig hstep
      exact ⟨hsig', htaken'.trans htaken⟩
  exact hboth.2

/-- What is left of the backend's results comes after what was taken. -/
theorem Inv.split (hs : Inv results s) :
    results.map Poll.next = s.taken.map .next ++ (s.ready ++ s.later).map .next := by
  rw [← List.map_append, ← List.append_assoc, hs.kept]

/-- A loop that was left for the shutdown has left out the end of the stream. -/
theorem cut_of_shutdown (hω : ω.Serves) (hs : Inv results s) (hshutdown : s.shutdown = true) :
    s.bytes ω ≠ sseHeaders ++ frames (results.map .next) ++ formatSseDone := by
  have hend := (hs.shutdown hshutdown).2
  intro heq
  have hlength := congrArg List.length heq
  have hdone : formatSseDone.length = 14 := by decide +kernel
  rw [bytes_eq hω hs, hend, hs.split, frames_append, if_pos hend] at hlength
  simp only [closing, List.length_append, List.length_nil] at hlength
  omega

/-- A loop that was left otherwise has taken the end of the stream. -/
theorem whole_of_over (hω : ω.Serves) (hs : Inv results s) (hover : s.over = true)
    (hshutdown : s.shutdown = false) (hcomplete : endingOf (results.map .next) = .completed) :
    s.bytes ω = sseHeaders ++ frames (results.map .next) ++ formatSseDone := by
  have hend : endingOf (s.taken.map .next) ≠ .none := by
    rw [Stream.over, Stream.polls, hshutdown] at hover
    simpa using hover
  rw [hs.split, endingOf_append, if_neg hend] at hcomplete
  rw [bytes_eq hω hs, hs.split, frames_append, if_neg hend, List.append_nil, hcomplete]
  rfl

/-- **What a shutdown does to a stream**, for every order of its chunks and the signal, and a
client that takes everything. The client has the frames of the chunks the loop has taken, and the
marker exactly if the last of these was the end. After the signal no chunk is taken any more, and
the next `select!` leaves the loop. So the client of a backend that completes gets all of it
exactly if the loop came to the end before it came to the signal. -/
theorem shutdown_cuts (results : List Result) (ω : Env) (hω : ω.Serves) (s : Stream)
    (h : (stream results).Reachable s) :
    s.taken <+: results ∧
    s.bytes ω = sseHeaders ++ frames (s.taken.map .next) ++
      closing (endingOf (s.taken.map .next)) ∧
    (s.signalled = true →
      (∀ s', ((stream results).startedAt s).Reachable s' → s'.taken = s.taken) ∧
      (s.over = false → ∃ s', (stream results).step s .select = some s' ∧ s'.shutdown = true)) ∧
    (s.over = true → endingOf (results.map .next) = .completed →
      (s.bytes ω = sseHeaders ++ frames (results.map .next) ++ formatSseDone ↔
        s.shutdown = false)) := by
  have hs := inv_reachable h
  refine ⟨?_, bytes_eq hω hs, fun hsignal => ⟨fun s' => taken_run hsignal, fun hover => ?_⟩,
    fun hover hcomplete => ?_⟩
  · rw [← hs.kept, List.append_assoc]
    exact List.prefix_append _ _
  · refine ⟨{ s with shutdown := true }, ?_, rfl⟩
    simp [stream, Stream.select, hover, hsignal]
  · refine ⟨fun heq => ?_, fun hshutdown => ?_⟩
    · by_contra hcut
      exact cut_of_shutdown hω hs (by simpa using hcut) heq
    · exact whole_of_over hω hs hover hshutdown hcomplete

/-- A backend with two chunks, the second of which is the last. -/
def twoChunks : List Result := [some (.ok ⟨ascii "a", false⟩), some (.ok ⟨ascii "b", true⟩)]

/-- The signal comes when both chunks are there and one of them is taken. -/
def cutShort : List Label := [.arrive, .select, .arrive, .signal, .select]

theorem reachable_cutShort : ∃ s, (stream twoChunks).Reachable s ∧ s.over = true ∧
    s.shutdown = true := by
  have hrun : ∃ s, (stream twoChunks).run ⟨false, twoChunks, [], [], false⟩ cutShort = some s ∧
      s.over = true ∧ s.shutdown = true := ⟨_, rfl, rfl, rfl⟩
  obtain ⟨s, hs, hover, hshutdown⟩ := hrun
  exact ⟨s, System.Reachable.run (.init rfl) _ hs, hover, hshutdown⟩

theorem shutdown_cuts_cutShort : ∃ s, (stream twoChunks).Reachable s ∧ s.shutdown = true ∧
    s.taken <+: twoChunks ∧
    (s.bytes patient = sseHeaders ++ frames (twoChunks.map .next) ++ formatSseDone ↔
      s.shutdown = false) := by
  obtain ⟨s, hs, hover, hshutdown⟩ := reachable_cutShort
  obtain ⟨htaken, -, -, hiff⟩ := shutdown_cuts twoChunks patient serves_patient s hs
  exact ⟨s, hs, hshutdown, htaken, hiff hover rfl⟩

/-- Not every client of a backend that completes gets all of it when the daemon is shut down. -/
theorem not_all_received : ¬ ∀ s, (stream twoChunks).Reachable s → s.over = true →
    s.bytes patient = sseHeaders ++ frames (twoChunks.map .next) ++ formatSseDone := by
  intro hall
  obtain ⟨s, hs, hover, hshutdown⟩ := reachable_cutShort
  exact cut_of_shutdown serves_patient (inv_reachable hs) hshutdown (hall s hs hover)

end SocketHandoff.Rust.Shutdown
