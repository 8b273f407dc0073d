import SocketHandoff.Lib.System
import Mathlib.Algebra.Order.Ring.Nat

/-!
# The HTTP/2 pool of the Swoole daemon

`Http2Pool` of `streaming_daemon.php` and the coroutines of `streamFromOpenAIHttp2` around it. A
coroutine is only left at a suspension point: in `acquire` while the lock is held by another or
`connect` is waited for, in `send`, and while its stream is read. So `acquire` looks for capacity
before a `send` that may take long, and the stream counts only when that `send` has returned.
-/

namespace SocketHandoff.Swoole

/-! ## Data -/

structure Config where
  poolSize : Nat
  maxStreamsPerConn : Nat

/-- What the pool sees of a `MultiplexedHttp2Conn`. -/
structure Conn where
  /-- `$this->client->connected` -/
  connected : Bool
  activeStreams : Nat
  deriving DecidableEq, Repr

/-- Where a call of `streamFromOpenAIHttp2` is. -/
inductive Request
  /-- before `acquire`, or at its lock -/
  | waiting
  /-- in `acquire`, at `connect` -/
  | connecting
  /-- at `send` on a connection -/
  | sending (i : Nat)
  /-- between `registerStream` and `unregisterStream` -/
  | registered (i : Nat)
  /-- `acquire` has returned `[null, -1]`: the pool is exhausted -/
  | refused
  /-- `acquire` has returned `[null, -1]`: the connection could not be opened -/
  | unconnected
  | over
  deriving DecidableEq, Repr

/-- `Http2Pool`, and the calls around it. -/
structure Pool where
  lock : Bool
  connections : List Conn
  requests : List Request
  deriving DecidableEq, Repr

def Pool.new : Pool := ⟨false, [], []⟩

/-! ## Steps -/

/-- `hasCapacity`. -/
def Conn.hasCapacity (cfg : Config) (c : Conn) : Bool :=
  c.activeStreams < cfg.maxStreamsPerConn && c.connected

/-- The counter in `registerStream`. -/
def Conn.registerStream (c : Conn) : Conn := { c with activeStreams := c.activeStreams + 1 }

/-- The counter in `unregisterStream`. -/
def Conn.unregisterStream (c : Conn) : Conn :=
  { c with activeStreams := if c.activeStreams > 0 then c.activeStreams - 1 else c.activeStreams }

/-- `close`, or the end of the connection. -/
def Conn.close (c : Conn) : Conn := { c with connected := false }

/-- How `send` ends. -/
inductive Sent
  | streamId
  | false
  | throws
  deriving DecidableEq, Repr

/-- Who moves, and how. -/
inductive Label
  /-- `streamFromOpenAIHttp2` is called -/
  | call
  /-- a call comes to the lock of `acquire`, and goes on to its next suspension -/
  | acquire (t : Nat)
  /-- `connect` returns -/
  | connect (t : Nat) (ok : Bool)
  /-- `send` returns -/
  | send (t : Nat) (sent : Sent)
  /-- a call unregisters its stream -/
  | unregister (t : Nat)
  /-- the upstream closes a connection -/
  | disconnect (i : Nat)
  deriving DecidableEq, Repr

/-- The first connection with capacity. -/
def Pool.find (cfg : Config) (s : Pool) : Option Nat :=
  s.connections.findIdx? (Conn.hasCapacity cfg)

/-- Where `acquire` leads with the lock: to a `send`, to `connect`, or to `[null, -1]`. -/
def Pool.acquire (cfg : Config) (s : Pool) : Request :=
  match s.find cfg with
  | some i => .sending i
  | none => if s.connections.length < cfg.poolSize then .connecting else .refused

/-- One step. `acquire` runs to its end without a suspension, unless it has to connect: then it
keeps the lock. A call counts among the active streams only when its `send` has returned, and other
calls come to the lock in between. -/
def step (cfg : Config) (s : Pool) : Label → Option Pool
  | .call => some { s with requests := s.requests ++ [.waiting] }
  | .acquire t =>
    if s.requests[t]? = some .waiting ∧ s.lock = false then
      some { s with
        -- the lock is kept while `connect` is waited for
        lock := s.acquire cfg = .connecting
        requests := s.requests.set t (s.acquire cfg) }
    else none
  | .connect t ok =>
    if s.requests[t]? = some .connecting then
      if ok then
        some { s with
          lock := false
          connections := s.connections ++ [⟨true, 0⟩]
          requests := s.requests.set t (.sending s.connections.length) }
      else some { s with lock := false, requests := s.requests.set t .unconnected }
    else none
  | .send t sent =>
    match s.requests[t]? with
    | some (.sending i) =>
      match sent with
      | .streamId => some { s with
          connections := s.connections.modify i Conn.registerStream
          requests := s.requests.set t (.registered i) }
      | .false => some { s with
          -- `markFailed`
          connections := s.connections.modify i Conn.close
          requests := s.requests.set t .over }
      | .throws => some { s with requests := s.requests.set t .over }
    | _ => none
  | .unregister t =>
    match s.requests[t]? with
    | some (.registered i) => some { s with
        connections := s.connections.modify i Conn.unregisterStream
        requests := s.requests.set t .over }
    | _ => none
  | .disconnect i => some { s with connections := s.connections.modify i Conn.close }

/-- The pool as a system. -/
def pool (cfg : Config) : System Pool Label where
  init s := s = .new
  step := step cfg

/-! ## What a step does -/

variable {cfg : Config} {s s' : Pool} {label : Label}

/-- The steps, with what they need and what they leave. The guards of `acquire` are kept, for what a
call has seen in the pool is what its refusal is judged by. -/
inductive Moves (cfg : Config) (s : Pool) : Label → Pool → Prop
  | call : Moves cfg s .call { s with requests := s.requests ++ [.waiting] }
  | acquire (t : Nat) : s.requests[t]? = some .waiting → s.lock = false →
      Moves cfg s (.acquire t) { s with
        lock := s.acquire cfg = .connecting
        requests := s.requests.set t (s.acquire cfg) }
  | connected (t : Nat) : s.requests[t]? = some .connecting →
      Moves cfg s (.connect t true) { s with
        lock := false
        connections := s.connections ++ [⟨true, 0⟩]
        requests := s.requests.set t (.sending s.connections.length) }
  | unconnected (t : Nat) : s.requests[t]? = some .connecting →
      Moves cfg s (.connect t false) { s with
        lock := false
        requests := s.requests.set t .unconnected }
  | sent (t i : Nat) : s.requests[t]? = some (.sending i) →
      Moves cfg s (.send t .streamId) { s with
        connections := s.connections.modify i Conn.registerStream
        requests := s.requests.set t (.registered i) }
  | failed (t i : Nat) : s.requests[t]? = some (.sending i) →
      Moves cfg s (.send t .false) { s with
        connections := s.connections.modify i Conn.close
        requests := s.requests.set t .over }
  | threw (t i : Nat) : s.requests[t]? = some (.sending i) →
      Moves cfg s (.send t .throws) { s with requests := s.requests.set t .over }
  | unregister (t i : Nat) : s.requests[t]? = some (.registered i) →
      Moves cfg s (.unregister t) { s with
        connections := s.connections.modify i Conn.unregisterStream
        requests := s.requests.set t .over }
  | disconnect (i : Nat) : Moves cfg s (.disconnect i) { s with
      connections := s.connections.modify i Conn.close }

/-- Inversion of `step`. -/
theorem step_moves (h : step cfg s label = some s') : Moves cfg s label s' := by
  cases label with
  | call => exact Option.some.inj h ▸ .call
  | acquire t =>
    simp only [step, Option.ite_none_right_eq_some, Option.some.injEq] at h
    exact h.2 ▸ .acquire t h.1.1 h.1.2
  | connect t ok =>
    simp only [step, Option.ite_none_right_eq_some] at h
    obtain ⟨ht, h⟩ := h
    cases ok with
    | true => exact Option.some.inj h ▸ .connected t ht
    | false => exact Option.some.inj h ▸ .unconnected t ht
  | send t sent =>
    simp only [step] at h
    split at h
    · rename_i i ht
      cases sent with
      | streamId => exact Option.some.inj h ▸ .sent t i ht
      | «false» => exact Option.some.inj h ▸ .failed t i ht
      | throws => exact Option.some.inj h ▸ .threw t i ht
    · cases h
  | unregister t =>
    simp only [step] at h
    split at h
    · rename_i i ht
      exact Option.some.inj h ▸ .unregister t i ht
    · cases h
  | disconnect i => exact Option.some.inj h ▸ .disconnect i

end SocketHandoff.Swoole
