import SocketHandoff.Lib.System
import Mathlib.Logic.Function.Basic

/-!
# The dispatch of an HTTP/2 connection of the Swoole daemon

`MultiplexedHttp2Conn` of `streaming_daemon.php`: one coroutine that reads responses and puts them
into the channels of the streams, and the coroutines of the streams that send, register, read and
unregister. Coroutines are left at suspension points only, of which a push to a channel with room
is none; a push to a full channel waits for room, or for the channel to be closed.

What the three tables hold for a stream is one record: `pendingResponses[$id]`, the channel, and
whether `streamChannels[$id]` is set, which is in the list of its keys.
-/

namespace SocketHandoff.Swoole.Dispatch

/-! ## Data -/

/-- A response of `recv`. -/
structure Response where
  streamId : Nat
  data : List UInt8
  deriving DecidableEq, Repr

/-- Where the coroutine of a stream is. -/
inductive Phase
  /-- the id is not used yet -/
  | unsent
  /-- handed to `send`, which has not returned -/
  | sent
  /-- in `registerStream`, at the push of the first of these responses -/
  | flushing (rest : List Response)
  /-- between `registerStream` and `unregisterStream` -/
  | registered
  | unregistered
  /-- `send` has returned `false` or thrown; such a stream is never registered -/
  | failed
  deriving DecidableEq, Repr

/-- A stream, with what the tables of its connection hold for it. -/
structure Stream where
  phase : Phase
  /-- `pendingResponses[$id]`, which is not set where it would be empty -/
  pending : List Response
  /-- what is in the channel; `none` is the `false` of a reader that ends -/
  items : List (Option Response)
  /-- the responses popped from the channel so far -/
  taken : List Response
  /-- the responses that have arrived between `send` and `unregisterStream` -/
  arrived : List Response
  deriving DecidableEq, Repr

/-- Where the reader coroutine is. -/
inductive Reader
  /-- at `recv` -/
  | recv
  /-- at the push of a response to a full channel -/
  | pushing (r : Response)
  /-- after its loop, with the channels that are still to be told -/
  | ending (ids : List Nat)
  | ended
  deriving DecidableEq, Repr

/-- `MultiplexedHttp2Conn`, and the coroutines around it. -/
structure Conn where
  running : Bool
  connected : Bool
  reader : Reader
  /-- the keys of `streamChannels` -/
  channels : List Nat
  /-- the id of the next stream -/
  nextId : Nat
  streams : Nat → Stream

/-- The capacity of a channel. -/
def capacity : Nat := 32

/-- A connection whose reader has been started. -/
def Conn.new : Conn where
  running := true
  connected := true
  reader := .recv
  channels := []
  nextId := 1
  streams _ := ⟨.unsent, [], [], [], []⟩

/-- Change what is held for a stream. -/
def Conn.update (s : Conn) (id : Nat) (t : Stream) : Conn :=
  { s with streams := Function.update s.streams id t }

/-! ## Steps -/

/-- Who moves, and how. -/
inductive Label
  /-- a stream is handed to `send` -/
  | send
  /-- `send` returns, and the stream is registered -/
  | register (id : Nat)
  /-- `send` returns `false`, and the connection is marked as failed; or it has `thrown`, and
  nothing is done -/
  | fail (id : Nat) (thrown : Bool)
  /-- the stream in `registerStream` goes on -/
  | flush (id : Nat)
  /-- a stream pops from its channel -/
  | pop (id : Nat)
  /-- a stream unregisters -/
  | unregister (id : Nat)
  /-- the reader receives a response -/
  | recv (r : Response)
  /-- the reader leaves its loop -/
  | leave
  /-- the reader goes on from a push -/
  | push
  /-- the upstream closes the connection -/
  | disconnect
  /-- `close`, with `stopReader` -/
  | close
  deriving DecidableEq, Repr

/-- Between `send` and `unregisterStream`. -/
def Phase.open : Phase → Bool
  | .sent | .flushing _ | .registered => true
  | .unsent | .unregistered | .failed => false

/-- A response that arrives for a stream is one of its responses while the stream is open. -/
def Stream.arrive (t : Stream) (r : Response) : Stream :=
  if t.phase.open then { t with arrived := t.arrived ++ [r] } else t

/-- The flush of `registerStream`, when so much of the early responses is left. -/
def Stream.flushed (t : Stream) (rest : List Response) : Stream :=
  if rest = [] then { t with phase := .registered, pending := [] }
  else { t with phase := .flushing rest }

/-- `registerStream`, up to a push that has to wait: a channel of its own, and the early responses
in it. -/
def Stream.register (t : Stream) : Stream :=
  { t with items := (t.pending.take capacity).map some }.flushed (t.pending.drop capacity)

/-- What the reader does with a response: into the channel of its stream, where it may have to
wait, or else among the early ones. -/
def Conn.dispatch (s : Conn) (r : Response) : Conn :=
  let t := (s.streams r.streamId).arrive r
  if r.streamId ∈ s.channels then
    if t.items.length < capacity then s.update r.streamId { t with items := t.items ++ [some r] }
    else { s.update r.streamId t with reader := .pushing r }
  else s.update r.streamId { t with pending := t.pending ++ [r] }

/-- The reader goes on from a push: when there is room, or with nothing done when the channel has
been closed. -/
def Conn.push (s : Conn) : Option Conn :=
  match s.reader with
  | .pushing r =>
    let t := s.streams r.streamId
    if r.streamId ∈ s.channels then
      if t.items.length < capacity then
        some { s.update r.streamId { t with items := t.items ++ [some r] } with reader := .recv }
      else none
    else some { s with reader := .recv }
  | .ending (id :: ids) =>
    let t := s.streams id
    if id ∈ s.channels then
      if t.items.length < capacity then
        some { s.update id { t with items := t.items ++ [none] } with reader := .ending ids }
      else none
    else some { s with reader := .ending ids }
  | .ending [] => some { s with reader := .ended, running := false }
  | .recv | .ended => none

/-- The reader after `Coroutine::cancel`: what it waits for fails. -/
def Conn.cancelled (s : Conn) : Reader :=
  match s.reader with
  | .recv | .pushing _ => .ending s.channels
  | .ending ids => .ending ids.tail
  | .ended => .ended

/-- `close`, with `stopReader`. -/
def Conn.closed (s : Conn) : Conn :=
  { s with
    running := false
    connected := false
    reader := s.cancelled }

/-- The end of a stream whose `send` fails: `markFailed` closes the connection, and the handler of
an exception leaves it as it is, because it has no stream id yet. -/
def Conn.fail (s : Conn) (id : Nat) (thrown : Bool) : Conn :=
  let s' := s.update id { s.streams id with phase := .failed }
  if thrown then s' else s'.closed

/-- One step. A coroutine is interrupted only where it waits, so that a step is what happens between
two places of that kind: `send`, a push to a full channel, a pop, and the reader's `recv`. A
response may thus come while the stream it is for has not been told its own id. -/
def step (s : Conn) : Label → Option Conn
  | .send => some { s.update s.nextId { s.streams s.nextId with phase := .sent } with
      nextId := s.nextId + 2 }
  | .register id =>
    if (s.streams id).phase = .sent then
      some { s.update id (s.streams id).register with channels := s.channels ++ [id] }
    else none
  | .fail id thrown => if (s.streams id).phase = .sent then some (s.fail id thrown) else none
  | .flush id =>
    match (s.streams id).phase with
    | .flushing (r :: rest) =>
      let t := s.streams id
      if t.items.length < capacity then
        some (s.update id ({ t with items := t.items ++ [some r] }.flushed rest))
      else none
    | _ => none
  | .pop id =>
    let t := s.streams id
    match t.phase, t.items with
    | .registered, item :: items => some (s.update id { t with
        items := items
        taken := t.taken ++ item.toList })
    | _, _ => none
  | .unregister id =>
    if (s.streams id).phase = .registered then
      some { s.update id { s.streams id with phase := .unregistered } with
        channels := s.channels.erase id }
    else none
  | .recv r =>
    if s.reader = .recv ∧ s.running ∧ s.connected then some (s.dispatch r) else none
  | .leave =>
    if s.reader = .recv ∧ ¬ (s.running ∧ s.connected) then
      some { s with reader := .ending s.channels }
    else none
  | .push => s.push
  | .disconnect => some { s with connected := false }
  | .close => some s.closed

/-- The connection as a system. -/
def conn : System Conn Label where
  init s := s = .new
  step := step

/-- The steps, with what they need and what they leave. One constructor a label, with its guards
among the arguments, so that an invariant is proved by cases and never unfolds the step. -/
inductive Moves (s : Conn) : Label → Conn → Prop
  | send : Moves s .send { s.update s.nextId { s.streams s.nextId with phase := .sent } with
      nextId := s.nextId + 2 }
  | register (id : Nat) : (s.streams id).phase = .sent →
      Moves s (.register id) { s.update id (s.streams id).register with
        channels := s.channels ++ [id] }
  | fail (id : Nat) (thrown : Bool) : (s.streams id).phase = .sent →
      Moves s (.fail id thrown) (s.fail id thrown)
  | flush (id : Nat) (rest : List Response) (t : Stream) :
      (s.streams id).phase = .flushing rest → Moves s (.flush id) (s.update id t)
  | pop (id : Nat) (item : Option Response) (items : List (Option Response)) :
      (s.streams id).phase = .registered → (s.streams id).items = item :: items →
      Moves s (.pop id) (s.update id { s.streams id with
        items := items
        taken := (s.streams id).taken ++ item.toList })
  | unregister (id : Nat) : (s.streams id).phase = .registered →
      Moves s (.unregister id) { s.update id { s.streams id with phase := .unregistered } with
        channels := s.channels.erase id }
  | recv (r : Response) : s.reader = .recv → Moves s (.recv r) (s.dispatch r)
  | leave : s.reader = .recv → Moves s .leave { s with reader := .ending s.channels }
  | push (s' : Conn) : s.push = some s' → Moves s .push s'
  | disconnect : Moves s .disconnect { s with connected := false }
  | close : Moves s .close s.closed

/-- Inversion of `step`. -/
theorem step_moves {s s' : Conn} {label : Label} (h : step s label = some s') :
    Moves s label s' := by
  cases label with
  | send => exact Option.some.inj h ▸ .send
  | register id =>
    simp only [step, Option.ite_none_right_eq_some, Option.some.injEq] at h
    exact h.2 ▸ .register id h.1
  | fail id thrown =>
    simp only [step, Option.ite_none_right_eq_some, Option.some.injEq] at h
    exact h.2 ▸ .fail id thrown h.1
  | flush id =>
    simp only [step] at h
    split at h
    · rename_i r rest hphase
      simp only [Option.ite_none_right_eq_some, Option.some.injEq] at h
      exact h.2 ▸ .flush id _ _ hphase
    · cases h
  | pop id =>
    simp only [step] at h
    split at h
    · rename_i item items hphase hitems
      exact Option.some.inj h ▸ .pop id item items hphase hitems
    · cases h
  | unregister id =>
    simp only [step, Option.ite_none_right_eq_some, Option.some.injEq] at h
    exact h.2 ▸ .unregister id h.1
  | recv r =>
    simp only [step, Option.ite_none_right_eq_some, Option.some.injEq] at h
    exact h.2 ▸ .recv r h.1.1
  | leave =>
    simp only [step, Option.ite_none_right_eq_some, Option.some.injEq] at h
    exact h.2 ▸ .leave h.1.1
  | push => exact .push s' h
  | disconnect => exact Option.some.inj h ▸ .disconnect
  | close => exact Option.some.inj h ▸ .close

end SocketHandoff.Swoole.Dispatch
