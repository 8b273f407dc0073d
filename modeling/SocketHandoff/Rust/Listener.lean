import SocketHandoff.Lib.System

/-!
# The accept loop of the Rust daemon

`UnixSocketListener::accept`, the loop of `main` and the handler tasks it spawns. An accepted
connection carries a permit of the listener's semaphore, and the limit on connections rests on
who holds that permit: `AcceptedConnection` has four fields, the `async move` block of the loop
takes those it mentions, and the rest is dropped at the end of the match arm.
-/

namespace SocketHandoff.Rust

/-! ## Data -/

/-- The fields of `AcceptedConnection`. -/
inductive Field
  | stream
  | permit
  | guard
  | config
  deriving DecidableEq, Repr

/-- The fields of a fresh `AcceptedConnection`, in the order of their declaration. -/
def acceptedFields : List Field := [.stream, .permit, .guard, .config]

/-- The edition decides what an `async move` block captures. -/
inductive Edition
  | e2018
  | e2021
  deriving DecidableEq, Repr

/-- `package.edition` of `Cargo.toml`. -/
def packageEdition : Edition := .e2021

/-- The field paths of `conn` in `handler.handle(conn.stream, conn.guard).await`. -/
def mentioned : List Field := [.stream, .guard]

/-- What the block captures of `conn`: before edition 2021 the whole variable, since then the
paths it mentions. -/
def captured : Edition → List Field
  | .e2018 => acceptedFields
  | .e2021 => mentioned

/-- What stays behind in the match arm and is dropped at its end. -/
def leftBehind (edition : Edition) : List Field :=
  acceptedFields.filter fun f => f ∉ captured edition

/-- Where the accept loop is. -/
inductive Loop
  /-- waiting in `listener.accept().await` -/
  | accepting
  /-- a stream has been accepted, no permit yet -/
  | accepted
  /-- `accept` has returned `Some(conn)` -/
  | matched
  /-- the task is spawned; these fields are still in the match arm -/
  | spawned (rest : List Field)
  | terminated
  deriving DecidableEq, Repr

/-- The daemon: the semaphore, the shutdown coordinator, the accept loop, and for each handler
task that is spawned and not finished the fields it owns. -/
structure Daemon where
  /-- permits left in `connection_semaphore` -/
  available : Nat
  /-- `active_connections` of the coordinator -/
  active : Nat
  shutdown : Bool
  loop : Loop
  tasks : List (List Field)
  deriving DecidableEq, Repr

/-- `Semaphore::new(config.max_connections)` and the rest of the start. -/
def Daemon.start (maxConnections : Nat) : Daemon where
  available := maxConnections
  active := 0
  shutdown := false
  loop := .accepting
  tasks := []

/-- Dropping a field: a permit goes back to the semaphore, a guard leaves the count. -/
def Daemon.drop (d : Daemon) : Field → Daemon
  | .stream => d
  | .permit => { d with available := d.available + 1 }
  | .guard => { d with active := d.active - 1 }
  | .config => d

/-- Drop several fields. -/
def Daemon.dropAll (d : Daemon) (fields : List Field) : Daemon := fields.foldl Daemon.drop d

/-! ## Steps -/

/-- Who moves, and how. -/
inductive Label
  /-- the listener accepts a stream -/
  | accept
  /-- `listener.accept()` fails; the loop sleeps and tries again -/
  | acceptError
  /-- `try_acquire_owned` -/
  | tryAcquire
  /-- `tokio::spawn` -/
  | spawn
  /-- the match arm ends -/
  | armEnd
  /-- a handler task finishes -/
  | finish (task : Nat)
  /-- a signal arrives -/
  | signal
  /-- the loop sees the shutdown signal -/
  | seeShutdown
  deriving DecidableEq, Repr

/-- One step of the daemon, for an edition of the language. -/
def step (edition : Edition) (d : Daemon) : Label → Option Daemon
  | .accept =>
    -- the `select!` is biased: a shutdown that has been signalled comes first
    if d.loop = .accepting ∧ ¬ d.shutdown then some { d with loop := .accepted } else none
  | .acceptError => if d.loop = .accepting then some d else none
  | .tryAcquire =>
    if d.loop = .accepted then
      if d.available = 0 then
        -- at capacity: the stream is dropped and the loop goes on
        some { d with loop := .accepting }
      else
        some { d with available := d.available - 1, active := d.active + 1, loop := .matched }
    else none
  | .spawn =>
    if d.loop = .matched then
      some { d with tasks := d.tasks ++ [captured edition], loop := .spawned (leftBehind edition) }
    else none
  | .armEnd =>
    match d.loop with
    | .spawned rest => some ({ d with loop := .accepting }.dropAll rest)
    | _ => none
  | .finish task =>
    match d.tasks[task]? with
    | some fields => some ({ d with tasks := d.tasks.eraseIdx task }.dropAll fields)
    | none => none
  | .signal => some { d with shutdown := true }
  | .seeShutdown =>
    if d.loop = .accepting ∧ d.shutdown then some { d with loop := .terminated } else none

/-- The daemon as a system. -/
def system (edition : Edition) (maxConnections : Nat) : System Daemon Label where
  init d := d = .start maxConnections
  step := step edition

/-- The handler tasks spawned and not finished. -/
def Daemon.running (d : Daemon) : Nat := d.tasks.length

end SocketHandoff.Rust
