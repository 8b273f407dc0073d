import SocketHandoff.Wire
import SocketHandoff.Lib.System

/-!
# One path, many daemons

How the daemons come to listen at a path and leave it: `main` of the Go daemon from `os.Lstat` on and
after the signal, `server_check_stale_socket`, `server_create_listener` and `server_close_listener`
of the io_uring daemon with `daemon_cleanup`, and `bind` and `drop` of the Rust listener. Any number
of processes of any of the three is launched, signalled and killed, and every system call is a step.
-/

namespace SocketHandoff.Takeover

open Wire

/-! ## The calls -/

/-- What is found at the path. -/
inductive Entry (D : Type)
  | missing
  /-- a file that is not a socket -/
  | other
  | socket (owner : D)
  deriving DecidableEq

/-- What a process does next. -/
inductive Pc
  | absent
  /-- `os.Lstat`, `stat`, `socket_path.exists()` -/
  | stat
  /-- the probe -/
  | connect
  /-- removal of a stale socket -/
  | unlinkStale
  | bind
  | listen
  /-- `set_socket_permissions`, which only the Rust daemon insists on -/
  | chmod
  /-- removal of a socket that was bound in vain -/
  | removeBound
  /-- `server_close_listener` after a start that failed -/
  | abort
  | serving
  /-- after the signal: `listener.Close()`, or `unlink` once the listener is closed -/
  | closing
  | draining
  /-- `remove_file` of `drop` -/
  | dropping
  | gone
  deriving DecidableEq, Repr

/-- A system call, as far as the path is concerned. -/
inductive Call
  | stat
  | connect
  | unlink
  | bind
  /-- one that neither depends on the entry nor changes it -/
  | plain
  deriving DecidableEq, Repr

inductive Result
  | ok
  /-- `ECONNREFUSED` -/
  | refused
  /-- `ENOENT` -/
  | missing
  /-- any other error -/
  | failed
  deriving DecidableEq, Repr

/-- The call a process makes next. The same place in the life of a process is another call in each
of the three daemons; `none` where the process is not launched, waits for a signal, or is no more.
-/
def Pc.call (kind : Shipped) : Pc → Option Call
  | .stat => some .stat
  | .connect => some .connect
  | .bind => some .bind
  | .listen | .chmod => some .plain
  | .unlinkStale | .removeBound | .abort | .closing | .dropping => some .unlink
  | .draining =>
    match kind with
    | .go => some .unlink
    | .uring => some .plain
    | .rust => some .stat
  | .absent | .serving | .gone => none

/-- A start that is given up: the io_uring daemon cleans up. -/
def refuse (kind : Shipped) : Pc := if kind = .uring then .abort else .gone

/-- What it does after the call, where `isSocket` says what `stat` has found. -/
def Pc.next (kind : Shipped) (isSocket : Bool) : Pc → Result → Pc
  | .stat, .ok => if isSocket then .connect else refuse kind
  | .stat, .missing => .bind
  -- the other two go on, and leave the error to `bind`
  | .stat, _ => if kind = .uring then .abort else .bind
  | .connect, .refused => .unlinkStale
  | .connect, .missing =>
    match kind with
    | .go => .bind
    | .uring => .abort
    | .rust => .unlinkStale
  | .connect, _ => refuse kind
  -- the result of `unlink` is not looked at
  | .unlinkStale, .failed => if kind = .uring then .bind else .gone
  | .unlinkStale, _ => .bind
  | .bind, .ok => .listen
  | .bind, _ => refuse kind
  | .listen, .ok => if kind = .rust then .chmod else .serving
  | .listen, _ => if kind = .uring then .removeBound else .gone
  | .chmod, .ok => .serving
  | .chmod, _ => .removeBound
  | .removeBound, _ => refuse kind
  | .closing, _ => if kind = .go then .draining else .gone
  | .draining, result =>
    match kind with
    | .go => .gone
    | .uring => .closing
    | .rust => if result = .ok ∧ isSocket then .dropping else .gone
  | .abort, _ | .dropping, _ => .gone
  | pc, _ => pc

/-- A process that has its socket open and listens. -/
def Pc.listens (kind : Shipped) : Pc → Bool
  | .chmod | .serving | .dropping => true
  | .closing => kind = .go
  | .draining => kind ≠ .go
  | _ => false

/-- A process that is being launched. -/
def Pc.isStarting : Pc → Bool
  | .stat | .connect | .unlinkStale | .bind | .listen | .chmod | .removeBound | .abort => true
  | _ => false

/-- A process that is going to remove whatever is at the path, whether it is its own or not. -/
def Pc.isLeaving (kind : Shipped) : Pc → Bool
  | .closing => true
  | .draining => kind ≠ .rust
  | _ => false

/-! ## The processes -/

section Processes

variable {D : Type} [DecidableEq D]

structure State (D : Type) where
  entry : Entry D
  pc : D → Pc

inductive Label (D : Type)
  | launch (d : D)
  | advance (d : D) (result : Result)
  /-- `SIGTERM`, to a process that serves -/
  | signal (d : D)
  /-- `SIGKILL`, or a crash -/
  | kill (d : D)

variable (kind : D → Shipped)

/-- The process has its socket open and listens. One that has been told to stop may still do so: the
Go daemon closes its listener before it drains, the others behind it. -/
def State.Listens (s : State D) (d : D) : Prop := (s.pc d).listens (kind d) = true

/-- The type of the socket at the path, if somebody listens there. -/
def State.listener (s : State D) : Option SocketType :=
  match s.entry with
  | .socket e => if (s.pc e).listens (kind e) then some (kind e).socketType else none
  | _ => none

def Entry.isSocket : Entry D → Bool
  | .socket _ => true
  | _ => false

/-- What a call of a process leaves at the path; `none` for a result it cannot have. -/
def State.after (s : State D) (d : D) : Call → Result → Option (Entry D)
  | .stat, .ok => if s.entry = .missing then none else some s.entry
  | .connect, .ok => if s.listener kind = some (kind d).socketType then some s.entry else none
  | .connect, .refused =>
    if s.entry = .missing ∨ (s.listener kind).isSome then none else some s.entry
  | .unlink, .ok => if s.entry = .missing then none else some .missing
  | .bind, .ok => if s.entry = .missing then some (.socket d) else none
  | .plain, .ok => some s.entry
  | .stat, .missing | .connect, .missing | .unlink, .missing =>
    if s.entry = .missing then some .missing else none
  | _, .failed => some s.entry
  | _, _ => none

/-- One step, with one system call of one process in it. What lies at the path may change between
two calls of a process, and this is all that the processes know of each other. -/
def step (s : State D) : Label D → Option (State D)
  | .launch d => if s.pc d = .absent then some { s with pc := Function.update s.pc d .stat } else none
  | .advance d result => do
    let call ← (s.pc d).call (kind d)
    let entry ← s.after kind d call result
    return {
      entry
      pc := Function.update s.pc d ((s.pc d).next (kind d) s.entry.isSocket result) }
  | .signal d =>
    if s.pc d = .serving then
      some { s with
        pc := Function.update s.pc d (if kind d = .go then .closing else .draining) }
    else none
  | .kill d =>
    if s.pc d = .absent then none else some { s with pc := Function.update s.pc d .gone }

/-- No process is launched yet; anything may be at the path. -/
def system : System (State D) (Label D) where
  init s := ∀ d, s.pc d = .absent
  step := step kind

/-- **How the daemons are to be run**: a process is launched only when no other is on its way in or
out, a Rust daemon on its way out apart, and an io_uring daemon only when nobody listens; and no Go
or io_uring daemon is told to stop while a process is being launched. -/
def Orderly (s : State D) : Label D → Prop
  | .launch d =>
    (∀ e, (s.pc e).isStarting = false) ∧ (∀ e, (s.pc e).isLeaving (kind e) = false) ∧
      (kind d = .uring → ∀ e, ¬ s.Listens kind e)
  | .signal d => kind d ≠ .rust → ∀ e, (s.pc e).isStarting = false
  | .advance _ _ | .kill _ => True

/-- What holds of the processes then. Beside the property itself, `own`, it says who may be on the
way in or out at one time, for a process that is about to remove a path must not find another's
there. -/
structure Settled (s : State D) : Prop where
  own : ∀ e, s.Listens kind e → s.entry = .socket e
  one : ∀ d e, (s.pc d).isStarting = true → (s.pc e).isStarting = true → d = e
  apart : ∀ d e, (s.pc d).isStarting = true → (s.pc e).isLeaving (kind e) = false
  alone : ∀ d e, kind d = .uring → (s.pc d).isStarting = true → ¬ s.Listens kind e
  vacant : ∀ d e, s.pc d = .unlinkStale ∨ s.pc d = .removeBound → ¬ s.Listens kind e
  bound : ∀ d, s.pc d = .listen → s.entry = .socket d
  abort : ∀ d, s.pc d = .abort → kind d = .uring
  last : ∀ d e, (s.pc d).isLeaving (kind d) = true → s.Listens kind e → e = d

end Processes

/-! ## One step -/

section Step

variable {D : Type} {kind : D → Shipped} {s s' : State D} {d e : D}

/-- Whoever listens at the path is found there. -/
theorem Settled.listener (hs : Settled kind s) (he : s.Listens kind e) :
    s.listener kind = some (kind e).socketType := by
  have hlistens : (s.pc e).listens (kind e) = true := he
  rw [State.listener, hs.own e he]
  simp only [hlistens, if_true]

/-- Only one listens. -/
theorem Settled.unique (hs : Settled kind s) (hd : s.Listens kind d) (he : s.Listens kind e) :
    e = d := by
  have heq := (hs.own d hd).symm.trans (hs.own e he)
  cases heq
  rfl

/-- What a process may come to, and what it may leave at the path. -/
structure Moves (kind : D → Shipped) (s : State D) (d : D) (entry : Entry D) (pc : Pc) : Prop where
  starting : pc.isStarting = true → (s.pc d).isStarting = true
  leaving : pc.isLeaving (kind d) = true → (s.pc d).isLeaving (kind d) = true
  opens : pc.listens (kind d) = true → s.Listens kind d ∨ (s.pc d).isStarting = true
  own : pc.listens (kind d) = true → entry = .socket d
  others : ∀ e, e ≠ d → s.Listens kind e → entry = .socket e
  alone : kind d = .uring → pc.isStarting = true → pc.listens (kind d) = false
  vacant : pc = .unlinkStale ∨ pc = .removeBound → ∀ e, e ≠ d → ¬ s.Listens kind e
  bound : pc = .listen → entry = .socket d
  othersBound : ∀ e, e ≠ d → s.pc e = .listen → entry = .socket e
  abort : pc = .abort → kind d = .uring

variable [DecidableEq D] {entry : Entry D} {pc : Pc}

/-- Who listens after a move. -/
theorem listens_update (h : State.Listens kind ⟨entry, Function.update s.pc d pc⟩ e) :
    e = d ∧ pc.listens (kind d) = true ∨ e ≠ d ∧ s.Listens kind e := by
  by_cases he : e = d
  · subst he
    refine .inl ⟨rfl, ?_⟩
    dsimp only [State.Listens] at h
    rwa [Function.update_self] at h
  · refine .inr ⟨he, ?_⟩
    dsimp only [State.Listens] at h
    rwa [Function.update_of_ne he] at h

theorem Moves.isStarting (h : Moves kind s d entry pc)
    (he : (Function.update s.pc d pc e).isStarting = true) : (s.pc e).isStarting = true := by
  by_cases hed : e = d
  · subst hed
    rw [Function.update_self] at he
    exact h.starting he
  · rwa [Function.update_of_ne hed] at he

theorem Moves.isLeaving (h : Moves kind s d entry pc)
    (he : (Function.update s.pc d pc e).isLeaving (kind e) = true) :
    (s.pc e).isLeaving (kind e) = true := by
  by_cases hed : e = d
  · subst hed
    rw [Function.update_self] at he
    exact h.leaving he
  · rwa [Function.update_of_ne hed] at he

/-- Where a process moves so, all stays settled. -/
theorem Settled.moves (hs : Settled kind s) (h : Moves kind s d entry pc) :
    Settled kind ⟨entry, Function.update s.pc d pc⟩ where
  own e he := by
    rcases listens_update he with ⟨rfl, hpc⟩ | ⟨hne, hl⟩
    · exact h.own hpc
    · exact h.others e hne hl
  one x y hx hy := hs.one x y (h.isStarting hx) (h.isStarting hy)
  apart x y hx := by
    apply Bool.eq_false_iff.mpr
    intro hy
    have hfalse := hs.apart x y (h.isStarting hx)
    rw [h.isLeaving hy] at hfalse
    cases hfalse
  alone x y hk hx hy := by
    rcases listens_update hy with ⟨rfl, hpc⟩ | ⟨-, hl⟩
    · by_cases hxd : x = y
      · subst hxd
        dsimp only at hx
        rw [Function.update_self] at hx
        rw [h.alone hk hx] at hpc
        cases hpc
      · rcases h.opens hpc with hl | hst
        · exact hs.alone x y hk (h.isStarting hx) hl
        · exact hxd (hs.one x y (h.isStarting hx) hst)
    · exact hs.alone x y hk (h.isStarting hx) hl
  vacant x y hx hy := by
    by_cases hxd : x = d
    · subst hxd
      dsimp only at hx
      rw [Function.update_self] at hx
      rcases listens_update hy with ⟨rfl, hpc⟩ | ⟨hne, hl⟩
      · rcases hx with rfl | rfl <;> cases hpc
      · exact h.vacant hx y hne hl
    · dsimp only at hx
      rw [Function.update_of_ne hxd] at hx
      rcases listens_update hy with ⟨rfl, hpc⟩ | ⟨-, hl⟩
      · rcases h.opens hpc with hl | hst
        · exact hs.vacant x y hx hl
        · refine hxd (hs.one x y ?_ hst)
          rcases hx with hx | hx <;> rw [hx] <;> rfl
      · exact hs.vacant x y hx hl
  bound x hx := by
    by_cases hxd : x = d
    · subst hxd
      dsimp only at hx
      rw [Function.update_self] at hx
      exact h.bound hx
    · dsimp only at hx
      rw [Function.update_of_ne hxd] at hx
      exact h.othersBound x hxd hx
  abort x hx := by
    by_cases hxd : x = d
    · subst hxd
      dsimp only at hx
      rw [Function.update_self] at hx
      exact h.abort hx
    · dsimp only at hx
      rw [Function.update_of_ne hxd] at hx
      exact hs.abort x hx
  last x y hx hy := by
    have hleaving := h.isLeaving hx
    rcases listens_update hy with ⟨rfl, hpc⟩ | ⟨-, hl⟩
    · rcases h.opens hpc with hl | hst
      · exact hs.last x y hleaving hl
      · rw [hs.apart y x hst] at hleaving
        cases hleaving
    · exact hs.last x y hleaving hl

omit [DecidableEq D] in
/-- What a process leaves at the path is that of every other that is there: if one listens, or has
bound its socket and is about to, that socket is at the path. Two such processes cannot be, which is
for the order of the launches to see to. -/
structure Keeps (kind : D → Shipped) (s : State D) (d : D) (entry : Entry D) : Prop where
  others : ∀ e, e ≠ d → s.Listens kind e → entry = .socket e
  othersBound : ∀ e, e ≠ d → s.pc e = .listen → entry = .socket e

omit [DecidableEq D] in
theorem Settled.keeps (hs : Settled kind s) : Keeps kind s d s.entry :=
  ⟨fun e _ => hs.own e, fun e _ => hs.bound e⟩

omit [DecidableEq D] in
/-- While a process is being launched no other is about to listen. -/
theorem Settled.keeps_starting (hs : Settled kind s) (hd : (s.pc d).isStarting = true)
    (hnone : ∀ e, e ≠ d → ¬ s.Listens kind e) : Keeps kind s d entry := by
  refine ⟨fun e hne he => absurd he (hnone e hne), fun e hne he => ?_⟩
  refine absurd (hs.one e d ?_ hd) hne
  rw [he]
  rfl

omit [DecidableEq D] in
/-- Nor while one is going to remove what is at the path. -/
theorem Settled.keeps_leaving (hs : Settled kind s) (hd : (s.pc d).isLeaving (kind d) = true) :
    Keeps kind s d entry := by
  refine ⟨fun e hne he => absurd (hs.last d e hd he) hne, fun e _ he => ?_⟩
  have hstarting : (s.pc e).isStarting = true := by
    rw [he]
    rfl
  rw [hs.apart e d hstarting] at hd
  cases hd

omit [DecidableEq D] in
/-- Nor while one listens. -/
theorem Settled.keeps_listens (hs : Settled kind s) (hd : s.Listens kind d) :
    Keeps kind s d entry := by
  refine ⟨fun e hne he => absurd (hs.unique hd he) hne, fun e hne he => ?_⟩
  have heq := (hs.own d hd).symm.trans (hs.bound e he)
  cases heq
  exact absurd rfl hne

omit [DecidableEq D] in
/-- A process that is being launched and does not listen yet. -/
theorem Keeps.moves (hk : Keeps kind s d entry) (hd : (s.pc d).isStarting = true)
    (hl : pc.listens (kind d) = false) (hleaving : pc.isLeaving (kind d) = false)
    (hvacant : pc = .unlinkStale ∨ pc = .removeBound → ∀ e, e ≠ d → ¬ s.Listens kind e)
    (hbound : pc = .listen → entry = .socket d) (habort : pc = .abort → kind d = .uring) :
    Moves kind s d entry pc where
  starting _ := hd
  leaving h := by
    rw [hleaving] at h
    cases h
  opens h := by
    rw [hl] at h
    cases h
  own h := by
    rw [hl] at h
    cases h
  others := hk.others
  alone _ _ := hl
  vacant := hvacant
  bound := hbound
  othersBound := hk.othersBound
  abort := habort

omit [DecidableEq D] in
/-- A process on its way out. -/
theorem Keeps.moves_out (hk : Keeps kind s d entry) (hstarting : pc.isStarting = false)
    (hleaving : pc.isLeaving (kind d) = true → (s.pc d).isLeaving (kind d) = true)
    (hopens : pc.listens (kind d) = true → s.Listens kind d ∧ entry = .socket d) :
    Moves kind s d entry pc where
  starting h := by
    rw [hstarting] at h
    cases h
  leaving := hleaving
  opens h := .inl (hopens h).1
  own h := (hopens h).2
  others := hk.others
  alone _ h := by
    rw [hstarting] at h
    cases h
  vacant h := by
    rcases h with rfl | rfl <;> cases hstarting
  bound h := by
    subst h
    cases hstarting
  othersBound := hk.othersBound
  abort h := by
    subst h
    cases hstarting

omit [DecidableEq D] in
theorem Keeps.moves_refuse (hk : Keeps kind s d entry) (hd : (s.pc d).isStarting = true) :
    Moves kind s d entry (refuse (kind d)) := by
  rw [refuse]
  split
  · rename_i huring
    apply hk.moves hd rfl rfl
    · rintro (h | h) <;> cases h
    · intro h
      cases h
    · exact fun _ => huring
  · apply hk.moves hd rfl rfl
    · rintro (h | h) <;> cases h
    · intro h
      cases h
    · intro h
      cases h

omit [DecidableEq D] in
/-- Nobody listens at a path with nothing there. -/
theorem Settled.vacant_of_missing (hs : Settled kind s) (h : s.entry = .missing) (e : D) :
    ¬ s.Listens kind e := by
  intro he
  have heq := h.symm.trans (hs.own e he)
  cases heq

omit [DecidableEq D] in
theorem Settled.vacant_of_listener (hs : Settled kind s) (h : s.listener kind = none) (e : D) :
    ¬ s.Listens kind e := by
  intro he
  have heq := h.symm.trans (hs.listener he)
  cases heq

/-- Looking at the path changes nothing. -/
theorem after_stat {result : Result} (h : s.after kind d .stat result = some entry) :
    entry = s.entry := by
  cases result with
  | ok =>
    obtain ⟨-, heq⟩ := Option.ite_none_left_eq_some.mp h
    exact (Option.some.inj heq).symm
  | missing =>
    obtain ⟨hmissing, heq⟩ := Option.ite_none_right_eq_some.mp h
    exact (Option.some.inj heq).symm.trans hmissing.symm
  | failed => exact (Option.some.inj h).symm
  | refused => cases h

/-- Nor does the probe; it is refused only where nobody listens. -/
theorem after_connect {result : Result} (h : s.after kind d .connect result = some entry) :
    entry = s.entry ∧ (result = .refused → s.listener kind = none) ∧
      (result = .missing → s.entry = .missing) := by
  cases result with
  | ok =>
    obtain ⟨-, heq⟩ := Option.ite_none_right_eq_some.mp h
    exact ⟨(Option.some.inj heq).symm, fun h => absurd h (by decide),
      fun h => absurd h (by decide)⟩
  | refused =>
    obtain ⟨hno, heq⟩ := Option.ite_none_left_eq_some.mp h
    refine ⟨(Option.some.inj heq).symm, fun _ => ?_, fun h => absurd h (by decide)⟩
    exact Option.not_isSome_iff_eq_none.mp fun hsome => hno (.inr hsome)
  | missing =>
    obtain ⟨hmissing, heq⟩ := Option.ite_none_right_eq_some.mp h
    exact ⟨(Option.some.inj heq).symm.trans hmissing.symm, fun h => absurd h (by decide),
      fun _ => hmissing⟩
  | failed =>
    exact ⟨(Option.some.inj h).symm, fun h => absurd h (by decide), fun h => absurd h (by decide)⟩

theorem after_bind {result : Result} (h : s.after kind d .bind result = some entry) :
    result = .ok ∧ s.entry = .missing ∧ entry = .socket d ∨ result ≠ .ok ∧ entry = s.entry := by
  cases result with
  | ok =>
    obtain ⟨hmissing, heq⟩ := Option.ite_none_right_eq_some.mp h
    exact .inl ⟨rfl, hmissing, (Option.some.inj heq).symm⟩
  | failed => exact .inr ⟨by decide, (Option.some.inj h).symm⟩
  | refused => cases h
  | missing => cases h

theorem after_plain {result : Result} (h : s.after kind d .plain result = some entry) :
    entry = s.entry := by
  cases result with
  | ok => exact (Option.some.inj h).symm
  | failed => exact (Option.some.inj h).symm
  | refused => cases h
  | missing => cases h

omit [DecidableEq D] in
/-- A start that goes on to a call of this kind, and is given up by no error. -/
theorem Keeps.moves_on (hk : Keeps kind s d entry) (hd : (s.pc d).isStarting = true)
    (hpc : pc = .connect ∨ pc = .bind) : Moves kind s d entry pc := by
  rcases hpc with rfl | rfl
  · apply hk.moves hd rfl rfl
    · rintro (h | h) <;> cases h
    · intro h
      cases h
    · intro h
      cases h
  · apply hk.moves hd rfl rfl
    · rintro (h | h) <;> cases h
    · intro h
      cases h
    · intro h
      cases h

section Cases

variable (hs : Settled kind s) {result : Result} {isSocket : Bool}

include hs

theorem Settled.stat (hpc : s.pc d = .stat) (h : s.after kind d .stat result = some entry) :
    Moves kind s d entry (Pc.next (kind d) isSocket .stat result) := by
  have hd : (s.pc d).isStarting = true := by
    rw [hpc]
    rfl
  obtain rfl := after_stat h
  have hk : Keeps kind s d s.entry := hs.keeps
  cases result with
  | ok =>
    cases isSocket with
    | true => exact hk.moves_on hd (.inl rfl)
    | false => exact hk.moves_refuse hd
  | missing => exact hk.moves_on hd (.inr rfl)
  | refused => cases h
  | failed =>
    rw [Pc.next]
    · split
      · rename_i huring
        have hrefuse := hk.moves_refuse hd
        rwa [refuse, if_pos huring] at hrefuse
      · exact hk.moves_on hd (.inr rfl)
    · exact fun h => by cases h
    · exact fun h => by cases h

theorem Settled.connect (hpc : s.pc d = .connect) (h : s.after kind d .connect result = some entry) :
    Moves kind s d entry (Pc.next (kind d) isSocket .connect result) := by
  have hd : (s.pc d).isStarting = true := by
    rw [hpc]
    rfl
  obtain ⟨rfl, hrefused, hmissing⟩ := after_connect h
  have hk : Keeps kind s d s.entry := hs.keeps
  have hstale : (∀ e, ¬ s.Listens kind e) → Moves kind s d s.entry .unlinkStale := by
    intro hnone
    apply hk.moves hd rfl rfl fun _ e _ => hnone e
    · intro h
      cases h
    · intro h
      cases h
  cases result with
  | ok => exact hk.moves_refuse hd
  | refused => exact hstale (hs.vacant_of_listener (hrefused rfl))
  | missing =>
    have hrefuse := hk.moves_refuse hd
    cases hkind : kind d with
    | go => exact hk.moves_on hd (.inr rfl)
    | uring =>
      rw [hkind] at hrefuse
      exact hrefuse
    | rust => exact hstale (hs.vacant_of_missing (hmissing rfl))
  | failed => exact hk.moves_refuse hd

omit [DecidableEq D] in
theorem Settled.unlinkStale (hpc : s.pc d = .unlinkStale) :
    Moves kind s d entry (Pc.next (kind d) isSocket .unlinkStale result) := by
  have hd : (s.pc d).isStarting = true := by
    rw [hpc]
    rfl
  have hk : Keeps kind s d entry := hs.keeps_starting hd fun e _ => hs.vacant d e (.inl hpc)
  have hbind := hk.moves_on hd (.inr rfl)
  have hrefuse := hk.moves_refuse hd
  cases result with
  | failed =>
    rw [Pc.next]
    split
    · exact hbind
    · rename_i huring
      rwa [refuse, if_neg huring] at hrefuse
  | ok => exact hbind
  | refused => exact hbind
  | missing => exact hbind

theorem Settled.bind (hpc : s.pc d = .bind) (h : s.after kind d .bind result = some entry) :
    Moves kind s d entry (Pc.next (kind d) isSocket .bind result) := by
  have hd : (s.pc d).isStarting = true := by
    rw [hpc]
    rfl
  rcases after_bind h with ⟨rfl, hmissing, rfl⟩ | ⟨hne, rfl⟩
  · have hk : Keeps kind s d (.socket d) :=
      hs.keeps_starting hd fun e _ => hs.vacant_of_missing hmissing e
    apply hk.moves hd rfl rfl
    · rintro (h | h) <;> cases h
    · exact fun _ => rfl
    · intro h
      cases h
  · have hk : Keeps kind s d s.entry := hs.keeps
    cases result with
    | ok => exact absurd rfl hne
    | refused => exact hk.moves_refuse hd
    | missing => exact hk.moves_refuse hd
    | failed => exact hk.moves_refuse hd

theorem Settled.listen (hpc : s.pc d = .listen) (h : s.after kind d .plain result = some entry) :
    Moves kind s d entry (Pc.next (kind d) isSocket .listen result) := by
  have hd : (s.pc d).isStarting = true := by
    rw [hpc]
    rfl
  obtain rfl := after_plain h
  have hk : Keeps kind s d s.entry := hs.keeps
  have hown : s.entry = .socket d := hs.bound d hpc
  -- its own socket is at the path, so nobody else listens
  have hnone : ∀ e, e ≠ d → ¬ s.Listens kind e := by
    intro e hne he
    have heq := hown.symm.trans (hs.own e he)
    cases heq
    exact hne rfl
  have hopen : ∀ pc : Pc, pc = .chmod ∧ kind d = .rust ∨ pc = .serving →
      Moves kind s d s.entry pc := by
    intro pc hpc'
    have hquiet : ∀ pc' : Pc, pc' ≠ .chmod → pc' ≠ .serving → pc ≠ pc' := by
      rintro pc' h₁ h₂ rfl
      rcases hpc' with ⟨h, -⟩ | h
      · exact h₁ h
      · exact h₂ h
    constructor
    · exact fun _ => hd
    · intro h
      rcases hpc' with ⟨rfl, -⟩ | rfl <;> cases h
    · exact fun _ => .inr hd
    · exact fun _ => hown
    · exact hk.others
    · intro huring h
      rcases hpc' with ⟨rfl, hrust⟩ | rfl
      · rw [huring] at hrust
        cases hrust
      · cases h
    · exact fun _ e hne => hnone e hne
    · intro h
      exact absurd h (hquiet .listen (by decide) (by decide))
    · exact hk.othersBound
    · intro h
      exact absurd h (hquiet .abort (by decide) (by decide))
  have hgive : result ≠ .ok → Moves kind s d s.entry (if kind d = .uring then .removeBound else .gone) := by
    intro _
    split
    · apply hk.moves hd rfl rfl
      · exact fun _ e hne => hnone e hne
      · intro h
        cases h
      · intro h
        cases h
    · rename_i huring
      have hrefuse := hk.moves_refuse hd
      rwa [refuse, if_neg huring] at hrefuse
  cases result with
  | ok =>
    rw [Pc.next]
    split
    · rename_i hrust
      exact hopen _ (.inl ⟨rfl, hrust⟩)
    · exact hopen _ (.inr rfl)
  | refused => exact hgive (by decide)
  | missing => exact hgive (by decide)
  | failed => exact hgive (by decide)

theorem Settled.chmod (hpc : s.pc d = .chmod) (h : s.after kind d .plain result = some entry) :
    Moves kind s d entry (Pc.next (kind d) isSocket .chmod result) := by
  have hd : (s.pc d).isStarting = true := by
    rw [hpc]
    rfl
  have hl : s.Listens kind d := by
    rw [State.Listens, hpc]
    rfl
  obtain rfl := after_plain h
  have hk : Keeps kind s d s.entry := hs.keeps
  have hgive : Moves kind s d s.entry .removeBound := by
    apply hk.moves hd rfl rfl
    · exact fun _ e hne he => hne (hs.unique hl he)
    · intro h
      cases h
    · intro h
      cases h
  cases result with
  | ok => exact hk.moves_out rfl (fun h => by cases h) fun _ => ⟨hl, hs.own d hl⟩
  | refused => exact hgive
  | missing => exact hgive
  | failed => exact hgive

omit [DecidableEq D] in
theorem Settled.removeBound (hpc : s.pc d = .removeBound) :
    Moves kind s d entry (Pc.next (kind d) isSocket .removeBound result) := by
  have hd : (s.pc d).isStarting = true := by
    rw [hpc]
    rfl
  have hk : Keeps kind s d entry := hs.keeps_starting hd fun e _ => hs.vacant d e (.inr hpc)
  cases result <;> exact hk.moves_refuse hd

omit [DecidableEq D] in
theorem Settled.aborting (hpc : s.pc d = .abort) : Moves kind s d entry .gone := by
  have hd : (s.pc d).isStarting = true := by
    rw [hpc]
    rfl
  have hk : Keeps kind s d entry :=
    hs.keeps_starting hd fun e _ => hs.alone d e (hs.abort d hpc) hd
  exact hk.moves_out rfl (fun h => by cases h) fun h => by cases h

omit [DecidableEq D] in
theorem Settled.closing (hpc : s.pc d = .closing) :
    Moves kind s d entry (Pc.next (kind d) isSocket .closing result) := by
  have hd : (s.pc d).isLeaving (kind d) = true := by
    rw [hpc]
    rfl
  have hk : Keeps kind s d entry := hs.keeps_leaving hd
  rw [Pc.next]
  split
  · rename_i hgo
    refine hk.moves_out rfl (fun _ => hd) fun h => ?_
    rw [hgo] at h
    cases h
  · exact hk.moves_out rfl (fun h => by cases h) fun h => by cases h

theorem Settled.draining (hpc : s.pc d = .draining) {call : Call}
    (hcall : Pc.call (kind d) .draining = some call)
    (h : s.after kind d call result = some entry) :
    Moves kind s d entry (Pc.next (kind d) s.entry.isSocket .draining result) := by
  have hd : kind d ≠ .rust → (s.pc d).isLeaving (kind d) = true := by
    intro hne
    rw [hpc]
    exact decide_eq_true hne
  have hgone : Keeps kind s d entry → Moves kind s d entry .gone :=
    fun hk => hk.moves_out rfl (fun h => by cases h) fun h => by cases h
  cases hkind : kind d with
  | go =>
    have hleaving : (s.pc d).isLeaving (kind d) = true := hd (by rw [hkind]; decide)
    exact hgone (hs.keeps_leaving hleaving)
  | uring =>
    have hleaving : (s.pc d).isLeaving (kind d) = true := hd (by rw [hkind]; decide)
    have hk : Keeps kind s d entry := hs.keeps_leaving hleaving
    have hclosing : Moves kind s d entry .closing := by
      refine hk.moves_out rfl (fun _ => hleaving) fun h => ?_
      rw [hkind] at h
      cases h
    exact hclosing
  | rust =>
    have hl : s.Listens kind d := by
      rw [State.Listens, hpc, hkind]
      rfl
    rw [hkind] at hcall
    cases hcall
    obtain rfl := after_stat h
    have hk : Keeps kind s d s.entry := hs.keeps
    have hnext : Pc.next .rust s.entry.isSocket .draining result =
        if result = .ok ∧ s.entry.isSocket = true then .dropping else .gone := rfl
    rw [hnext]
    split
    · exact hk.moves_out rfl (fun h => by cases h) fun _ => ⟨hl, hs.own d hl⟩
    · exact hgone hk

omit [DecidableEq D] in
theorem Settled.dropping (hpc : s.pc d = .dropping) : Moves kind s d entry .gone := by
  have hl : s.Listens kind d := by
    rw [State.Listens, hpc]
    rfl
  have hk : Keeps kind s d entry := hs.keeps_listens hl
  exact hk.moves_out rfl (fun h => by cases h) fun h => by cases h

/-- **What a process may come to**, whatever its next call results in: it takes away no path of
another that listens. -/
theorem Settled.advance {call : Call} (hcall : (s.pc d).call (kind d) = some call)
    (h : s.after kind d call result = some entry) :
    Moves kind s d entry ((s.pc d).next (kind d) s.entry.isSocket result) := by
  cases hpc : s.pc d with
  | absent =>
    rw [hpc] at hcall
    cases hcall
  | serving =>
    rw [hpc] at hcall
    cases hcall
  | gone =>
    rw [hpc] at hcall
    cases hcall
  | stat =>
    rw [hpc] at hcall
    cases hcall
    exact hs.stat hpc h
  | connect =>
    rw [hpc] at hcall
    cases hcall
    exact hs.connect hpc h
  | unlinkStale => exact hs.unlinkStale hpc
  | bind =>
    rw [hpc] at hcall
    cases hcall
    exact hs.bind hpc h
  | listen =>
    rw [hpc] at hcall
    cases hcall
    exact hs.listen hpc h
  | chmod =>
    rw [hpc] at hcall
    cases hcall
    exact hs.chmod hpc h
  | removeBound => exact hs.removeBound hpc
  | abort => exact hs.aborting hpc
  | closing => exact hs.closing hpc
  | draining =>
    rw [hpc] at hcall
    exact hs.draining hpc hcall h
  | dropping => exact hs.dropping hpc

end Cases

/-- A step is one of the four. -/
theorem step_cases {a : Label D} (h : step kind s a = some s') :
    (∃ d, a = .launch d ∧ s.pc d = .absent ∧
      s' = ⟨s.entry, Function.update s.pc d .stat⟩) ∨
    (∃ d result call entry, a = .advance d result ∧ (s.pc d).call (kind d) = some call ∧
      s.after kind d call result = some entry ∧
      s' = ⟨entry, Function.update s.pc d ((s.pc d).next (kind d) s.entry.isSocket result)⟩) ∨
    (∃ d, a = .signal d ∧ s.pc d = .serving ∧
      s' = ⟨s.entry, Function.update s.pc d (if kind d = .go then .closing else .draining)⟩) ∨
    ∃ d, a = .kill d ∧ s' = ⟨s.entry, Function.update s.pc d .gone⟩ := by
  cases a with
  | launch d =>
    obtain ⟨habsent, heq⟩ := Option.ite_none_right_eq_some.mp h
    exact .inl ⟨d, rfl, habsent, (Option.some.inj heq).symm⟩
  | advance d result =>
    obtain ⟨call, hcall, hrest⟩ := Option.bind_eq_some_iff.mp h
    obtain ⟨entry, hentry, heq⟩ := Option.bind_eq_some_iff.mp hrest
    exact .inr (.inl ⟨d, result, call, entry, rfl, hcall, hentry, (Option.some.inj heq).symm⟩)
  | signal d =>
    obtain ⟨hserving, heq⟩ := Option.ite_none_right_eq_some.mp h
    exact .inr (.inr (.inl ⟨d, rfl, hserving, (Option.some.inj heq).symm⟩))
  | kill d =>
    obtain ⟨-, heq⟩ := Option.ite_none_left_eq_some.mp h
    exact .inr (.inr (.inr ⟨d, rfl, (Option.some.inj heq).symm⟩))

/-- A process is launched while no other is on its way. -/
theorem Settled.launch (hs : Settled kind s) (ho : Orderly kind s (.launch d)) :
    Settled kind ⟨s.entry, Function.update s.pc d .stat⟩ := by
  obtain ⟨hstarting, hleaving, halone⟩ := ho
  have hlistens : ∀ e, State.Listens kind ⟨s.entry, Function.update s.pc d .stat⟩ e →
      s.Listens kind e := by
    intro e he
    rcases listens_update he with ⟨-, hstat⟩ | ⟨-, hl⟩
    · cases hstat
    · exact hl
  have hfirst : ∀ e, (Function.update s.pc d .stat e).isStarting = true → e = d := by
    intro e he
    by_contra hne
    rw [Function.update_of_ne hne, hstarting e] at he
    cases he
  have hstays : ∀ e, (Function.update s.pc d .stat e).isLeaving (kind e) = false := by
    intro e
    by_cases hne : e = d
    · subst hne
      rw [Function.update_self]
      rfl
    · rw [Function.update_of_ne hne]
      exact hleaving e
  -- no process has come further than `stat`
  have hquiet : ∀ e pc, pc.isStarting = true → pc ≠ .stat →
      Function.update s.pc d .stat e ≠ pc := by
    rintro e pc hpc hne rfl
    obtain rfl := hfirst e hpc
    exact hne (Function.update_self ..)
  constructor
  · exact fun e he => hs.own e (hlistens e he)
  · exact fun x y hx hy => (hfirst x hx).trans (hfirst y hy).symm
  · exact fun x y _ => hstays y
  · intro x y hk hx hy
    obtain rfl := hfirst x hx
    exact halone hk y (hlistens y hy)
  · rintro x y (hx | hx) _
    · exact hquiet x _ (by decide) (by decide) hx
    · exact hquiet x _ (by decide) (by decide) hx
  · exact fun x hx => absurd hx (hquiet x _ (by decide) (by decide))
  · exact fun x hx => absurd hx (hquiet x _ (by decide) (by decide))
  · intro x y hx _
    have hfalse := hstays x
    rw [show (Function.update s.pc d .stat x).isLeaving (kind x) = true from hx] at hfalse
    cases hfalse

/-- A process is told to stop. -/
theorem Settled.signal (hs : Settled kind s) (hserving : s.pc d = .serving)
    (ho : Orderly kind s (.signal d)) :
    Settled kind ⟨s.entry, Function.update s.pc d (if kind d = .go then .closing else .draining)⟩ := by
  have hl : s.Listens kind d := by
    rw [State.Listens, hserving]
    rfl
  have hlistens : ∀ e, State.Listens kind ⟨s.entry,
      Function.update s.pc d (if kind d = .go then .closing else .draining)⟩ e →
        s.Listens kind e := by
    intro e he
    rcases listens_update he with ⟨rfl, -⟩ | ⟨-, he⟩
    · exact hl
    · exact he
  have hother : ∀ e pc, pc ≠ .closing → pc ≠ .draining →
      Function.update s.pc d (if kind d = .go then .closing else .draining) e = pc →
        e ≠ d ∧ s.pc e = pc := by
    rintro e pc hc hd rfl
    have hne : e ≠ d := by
      rintro rfl
      rw [Function.update_self] at hc hd
      by_cases hgo : kind e = .go
      · exact hc (if_pos hgo)
      · exact hd (if_neg hgo)
    exact ⟨hne, (Function.update_of_ne hne ..).symm⟩
  have hstarting : ∀ e, (Function.update s.pc d (if kind d = .go then .closing else .draining)
      e).isStarting = true → (s.pc e).isStarting = true := by
    intro e he
    obtain ⟨-, heq⟩ := hother e _ (by rintro h; rw [h] at he; cases he)
      (by rintro h; rw [h] at he; cases he) rfl
    rw [heq]
    exact he
  constructor
  · exact fun e he => hs.own e (hlistens e he)
  · exact fun x y hx hy => hs.one x y (hstarting x hx) (hstarting y hy)
  · intro x y hx
    by_cases hy : y = d
    · subst hy
      by_cases hrust : kind y = .rust
      · dsimp only
        rw [Function.update_self, hrust]
        rfl
      · have hfalse := ho hrust x
        rw [hstarting x hx] at hfalse
        cases hfalse
    · dsimp only
      rw [Function.update_of_ne hy]
      exact hs.apart x y (hstarting x hx)
  · exact fun x y hk hx hy => hs.alone x y hk (hstarting x hx) (hlistens y hy)
  · rintro x y (hx | hx) hy
    · exact hs.vacant x y (.inl (hother x _ (by decide) (by decide) hx).2) (hlistens y hy)
    · exact hs.vacant x y (.inr (hother x _ (by decide) (by decide) hx).2) (hlistens y hy)
  · exact fun x hx => hs.bound x (hother x _ (by decide) (by decide) hx).2
  · exact fun x hx => hs.abort x (hother x _ (by decide) (by decide) hx).2
  · intro x y hx hy
    by_cases hxd : x = d
    · subst hxd
      exact hs.unique hl (hlistens y hy)
    · dsimp only at hx
      rw [Function.update_of_ne hxd] at hx
      exact hs.last x y hx (hlistens y hy)

/-- **The step lemma**: in an orderly step what is settled remains so. The cases are the calls, and
most of them change neither the path nor who listens. -/
theorem Settled.step {a : Label D} (hs : Settled kind s) (ho : Orderly kind s a)
    (h : step kind s a = some s') : Settled kind s' := by
  rcases step_cases h with ⟨d, rfl, -, rfl⟩ | ⟨d, result, call, entry, rfl, hcall, hafter, rfl⟩ |
    ⟨d, rfl, hserving, rfl⟩ | ⟨d, rfl, rfl⟩
  · exact hs.launch ho
  · exact hs.moves (hs.advance hcall hafter)
  · exact hs.signal hserving ho
  · have hk : Keeps kind s d s.entry := hs.keeps
    exact hs.moves (hk.moves_out rfl (fun h => by cases h) fun h => by cases h)

end Step

/-! ## Every run -/

section Runs

variable {D : Type} [DecidableEq D] {kind : D → Shipped} {s : State D}

end Runs

/-! ## Out of order -/

section Disorder

variable {D : Type} [DecidableEq D] {kind : D → Shipped} {s : State D} {d e : D}

theorem step_launch (h : s.pc d = .absent) :
    step kind s (.launch d) = some ⟨s.entry, Function.update s.pc d .stat⟩ := if_pos h

theorem step_advance {call : Call} {result : Result} {entry : Entry D}
    (hcall : (s.pc d).call (kind d) = some call)
    (hafter : s.after kind d call result = some entry) :
    step kind s (.advance d result) =
      some ⟨entry, Function.update s.pc d ((s.pc d).next (kind d) s.entry.isSocket result)⟩ := by
  rw [step, hcall, Option.bind_eq_bind, Option.bind_some, hafter]
  rfl

theorem leads_step {t u : State D} {a : Label D} (h : step kind s a = some t)
    (hl : (system kind).Leads t u) : (system kind).Leads s u := by
  have hstep : (system kind).step s a = some t := h
  exact .head hstep hl

/-- What `d` has come to, and nobody else. -/
structure Reached (s s' : State D) (d : D) (entry : Entry D) (pc : Pc) : Prop where
  entry : s'.entry = entry
  pc : s'.pc d = pc
  others : ∀ e, e ≠ d → s'.pc e = s.pc e

/-- One more call of `d`. -/
theorem Reached.advance {s₀ : State D} {call : Call} {entry : Entry D} {pc : Pc}
    (h : Reached s₀ s d entry pc) (kind : D → Shipped) (result : Result) (entry' : Entry D) (pc' : Pc)
    (hcall : pc.call (kind d) = some call) (hafter : s.after kind d call result = some entry')
    (hnext : pc.next (kind d) entry.isSocket result = pc') :
    ∃ s', step kind s (.advance d result) = some s' ∧ Reached s₀ s' d entry' pc' := by
  rw [← h.pc] at hcall hnext
  rw [← h.entry] at hnext
  refine ⟨_, step_advance hcall hafter, rfl, ?_, fun e he => ?_⟩
  · exact (Function.update_self ..).trans hnext
  · exact (Function.update_of_ne he ..).trans (h.others e he)

/-- A launch. -/
theorem reached_launch (kind : D → Shipped) (h : s.pc d = .absent) :
    ∃ s', step kind s (.launch d) = some s' ∧ Reached s s' d s.entry .stat :=
  ⟨_, step_launch h, rfl, Function.update_self .., fun _ he => Function.update_of_ne he ..⟩

omit [DecidableEq D] in
/-- The calls of `d` change nothing for whoever listens. -/
theorem Reached.listener {s₀ : State D} {entry : Entry D} {pc : Pc} (h : Reached s₀ s d entry pc)
    (he : s₀.Listens kind e) (hne : e ≠ d) (hown : entry = .socket e) :
    s.listener kind = some (kind e).socketType := by
  have hlistens : (s.pc e).listens (kind e) = true := by
    rw [h.others e hne]
    exact he
  rw [State.listener, h.entry, hown]
  simp only [hlistens, if_true]

/-- **An io_uring daemon that refuses to start** takes the path from the one that listens, however
its probe of that comes out: `daemon_cleanup` removes what it finds there. -/
theorem refused_launch_leads (huring : kind d = .uring) (habsent : s.pc d = .absent)
    (he : s.Listens kind e) (hown : s.entry = .socket e) :
    ∃ s₁ s', step kind s (.launch d) = some s₁ ∧ (system kind).Leads s₁ s' ∧
      s'.Listens kind e ∧ s'.entry = .missing := by
  have hne : e ≠ d := by
    rintro rfl
    rw [State.Listens, habsent] at he
    cases he
  have hthere : s.entry ≠ .missing := by
    rw [hown]
    exact fun h => by cases h
  obtain ⟨s₁, h₁, hr₁⟩ := reached_launch kind habsent
  obtain ⟨s₂, h₂, hr₂⟩ := hr₁.advance kind .ok s.entry .connect rfl
    (by rw [State.after, hr₁.entry, if_neg hthere]) (by rw [hown]; rfl)
  -- the probe connects, or fails where the types of the sockets differ
  obtain ⟨probe, hafter, hrefused⟩ : ∃ probe, s₂.after kind d .connect probe = some s.entry ∧
      Pc.next (kind d) s.entry.isSocket .connect probe = .abort := by
    by_cases htype : (kind e).socketType = (kind d).socketType
    · refine ⟨.ok, ?_, by rw [huring]; rfl⟩
      rw [State.after, hr₂.listener he hne hown, htype, if_pos rfl, hr₂.entry]
    · refine ⟨.failed, ?_, by rw [huring]; rfl⟩
      exact congrArg some hr₂.entry
  obtain ⟨s₃, h₃, hr₃⟩ := hr₂.advance kind probe s.entry .abort rfl hafter hrefused
  obtain ⟨s₄, h₄, hr₄⟩ := hr₃.advance kind .ok .missing .gone rfl
    (by rw [State.after, hr₃.entry, if_neg hthere]) rfl
  refine ⟨s₁, s₄, h₁, ?_, ?_, hr₄.entry⟩
  · exact leads_step h₂ (leads_step h₃ (leads_step h₄ (.refl s₄)))
  · rw [State.Listens, hr₄.others e hne]
    exact he

/-- **A daemon that is started while a Go daemon drains** serves at the path, and loses it when the
other is done: its last `os.Remove` takes what it finds there. -/
theorem drained_leads (hgo : kind e = .go) (hdraining : s.pc e = .draining)
    (habsent : s.pc d = .absent) (hfree : s.entry = .missing) :
    ∃ s₁ s', step kind s (.launch d) = some s₁ ∧ (system kind).Leads s₁ s' ∧
      s'.Listens kind d ∧ s'.entry = .missing := by
  have hne : e ≠ d := by
    rintro rfl
    rw [hdraining] at habsent
    cases habsent
  obtain ⟨s₁, h₁, hr₁⟩ := reached_launch kind habsent
  obtain ⟨s₂, h₂, hr₂⟩ := hr₁.advance kind .missing .missing .bind rfl
    (by rw [State.after, hr₁.entry, if_pos hfree]) rfl
  obtain ⟨s₃, h₃, hr₃⟩ := hr₂.advance kind .ok (.socket d) .listen rfl
    (by rw [State.after, hr₂.entry, if_pos rfl]) rfl
  obtain ⟨s₄, h₄, hr₄⟩ := hr₃.advance kind .ok (.socket d)
    (if kind d = .rust then .chmod else .serving) rfl (congrArg some hr₃.entry) rfl
  -- a Rust daemon listens before its last call
  have hlistens : s₄.Listens kind d := by
    rw [State.Listens, hr₄.pc]
    split <;> rfl
  have hpc : s₄.pc e = .draining := (hr₄.others e hne).trans hdraining
  have hcall : (s₄.pc e).call (kind e) = some .unlink := by
    rw [hpc, hgo]
    rfl
  have hremoved : s₄.after kind e .unlink .ok = some .missing := by
    rw [State.after, hr₄.entry, if_neg fun h => by cases h]
  have hremoves := step_advance hcall hremoved
  refine ⟨s₁, _, h₁, leads_step h₂ (leads_step h₃ (leads_step h₄ (leads_step hremoves (.refl _)))),
    ?_, rfl⟩
  rw [State.Listens] at hlistens ⊢
  exact (congrArg (Pc.listens (kind d)) (Function.update_of_ne hne.symm ..)).trans hlistens

/-- **A launch out of order can take the path from a daemon that listens**: that of an io_uring
daemon beside any that listens, or of any daemon while a Go daemon drains. -/
theorem launch_out_of_order (habsent : s.pc d = .absent)
    (h : kind d = .uring ∧ (∃ e, s.Listens kind e ∧ s.entry = .socket e) ∨
      (∃ e, kind e = .go ∧ s.pc e = .draining) ∧ s.entry = .missing) :
    ¬ Orderly kind s (.launch d) ∧ ∃ s₁ s' e, step kind s (.launch d) = some s₁ ∧
      (system kind).Leads s₁ s' ∧ s'.Listens kind e ∧ s'.entry = .missing := by
  rcases h with ⟨huring, e, he, hown⟩ | ⟨⟨e, hgo, hdraining⟩, hfree⟩
  · obtain ⟨s₁, s', hlaunch, hleads, hlistens, hentry⟩ :=
      refused_launch_leads huring habsent he hown
    exact ⟨fun ho => ho.2.2 huring e he, s₁, s', e, hlaunch, hleads, hlistens, hentry⟩
  · obtain ⟨s₁, s', hlaunch, hleads, hlistens, hentry⟩ := drained_leads hgo hdraining habsent hfree
    refine ⟨fun ho => ?_, s₁, s', d, hlaunch, hleads, hlistens, hentry⟩
    have hleaving := ho.2.1 e
    rw [hdraining, hgo] at hleaving
    cases hleaving

/-- A Go daemon, and an io_uring daemon to be launched. -/
def mixed (d : Bool) : Shipped := if d then .uring else .go

/-- The first serves. -/
def besideServing : State Bool := ⟨.socket false, fun d => if d then .absent else .serving⟩

theorem launch_out_of_order_beside : ∃ s₁ s' e,
    step mixed besideServing (.launch true) = some s₁ ∧ (system mixed).Leads s₁ s' ∧
      s'.Listens mixed e ∧ s'.entry = .missing :=
  (@launch_out_of_order Bool _ mixed besideServing true rfl (.inl ⟨rfl, false, rfl, rfl⟩)).2

end Disorder

end SocketHandoff.Takeover
