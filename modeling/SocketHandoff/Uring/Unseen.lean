import SocketHandoff.Uring.CurlManager

/-!
# Code that works behind the scenes

Most of what the daemon does to its ring, its allocator and the sockets and timers of libcurl is
of no interest to a projection of its state that is about connections. `Blind π` says that `π` does
not show these parts, and the lemmas below that it then does not show the code that works on them.
-/

namespace SocketHandoff.Uring

open Act (Unseen)

/-- A projection that shows neither the ring, apart from the entries for a slot, nor the blocks and
the sockets and timers of libcurl. For such a projection a whole group of functions need not be
looked at. -/
structure Blind {V : Type} (π : Daemon → V) : Prop where
  submit : ∀ s k, π (s.submit k) = π s
  queue : ∀ s (r : Sqe), r.slot? = none → π (s.queue r) = π s
  block : ∀ s b, π { s with nextBlock := b } = π s
  polls : ∀ s sockets capacity timerId active,
    π { s with
        curl :=
          { s.curl with
            sockets := sockets
            socketsCapacity := capacity
            timerId := timerId
            timerActive := active } } = π s

namespace Blind

variable {V : Type} {π : Daemon → V}

/-! ## The ring and the allocator -/

theorem ioUringSubmit (h : Blind π) : Unseen π ioUringSubmit :=
  .ask fun ω n s => h.submit s (ω.consumed n)

theorem ioUringGetSqe : Unseen π ioUringGetSqe := .bind .get fun _ => .pure _

theorem ringGetSqeFlush (h : Blind π) : Unseen π ringGetSqeFlush := by
  refine .bind ioUringGetSqe fun _ => .ite (.pure _) ?_
  exact .bind h.ioUringSubmit fun _ => ioUringGetSqe

/-- An entry for no slot is not seen. -/
theorem fillSqe (h : Blind π) {getSqe : Loop Bool} {r : Sqe} (hg : Unseen π getSqe)
    (hr : r.slot? = none) : Unseen π (fillSqe getSqe r) := by
  refine .bind hg fun _ => .ite (.bind (.modify fun s => ?_) fun _ => .pure _) (.pure _)
  exact h.queue s r hr

theorem malloc (h : Blind π) : Unseen π malloc :=
  .ask fun ω n s => by
    cases ω.malloc n with
    | true => exact h.block s _
    | false => rfl

theorem realloc (h : Blind π) (b : Block) : Unseen π (realloc b) :=
  .ask fun ω n s => by
    cases ω.realloc n with
    | failed => rfl
    | inPlace => rfl
    | moved => exact h.block s _

/-! ## Callbacks of libcurl -/

theorem updateSocket (h : Blind π) (fd : Fd) (info : SocketInfo) : Unseen π (updateSocket fd info) :=
  .modify fun s => h.polls s _ _ _ _

theorem ensureSocketCapacity (h : Blind π) (fd : Fd) : Unseen π (ensureSocketCapacity fd) := by
  refine .bind .get fun _ => .ite (.pure _) (.bind (h.realloc 0) fun b => ?_)
  cases b with
  | none => exact .pure _
  | some b => exact .bind (.modify fun s => h.polls s _ _ _ _) fun _ => .pure _

theorem socketCancel (h : Blind π) (fd : Fd) (what : CurlPoll) : Unseen π (socketCancel fd what) := by
  refine .bind .get fun s => .ite ?_ (.pure _)
  exact .bind (h.fillSqe h.ringGetSqeFlush rfl) fun _ => h.updateSocket _ _

theorem socketPoll (h : Blind π) (fd : Fd) (what : CurlPoll) : Unseen π (socketPoll fd what) := by
  refine .ite (.bind (h.fillSqe h.ringGetSqeFlush rfl) fun _ => ?_) (.pure _)
  exact .ite (.bind (h.updateSocket _ _) fun _ => h.ioUringSubmit) h.ioUringSubmit

theorem socketCallback (h : Blind π) (fd : Fd) (what : CurlPoll) :
    Unseen π (socketCallback fd what) := by
  refine .bind (h.ensureSocketCapacity fd) fun _ => .ite ?_ (.pure _)
  refine .bind (h.socketCancel fd what) fun _ => .bind (h.socketPoll fd what) fun _ => ?_
  exact .ite (h.updateSocket _ _) (.pure _)

theorem timerCancel (h : Blind π) : Unseen π timerCancel := by
  refine .bind .get fun s => .ite ?_ (.pure _)
  exact .bind (h.fillSqe h.ringGetSqeFlush rfl) fun _ => .modify fun s => h.polls s _ _ _ _

theorem timerCallback (h : Blind π) (timeoutMs : Int) : Unseen π (timerCallback timeoutMs) := by
  refine .bind h.timerCancel fun _ => .ite (.pure _) (.bind .get fun s => ?_)
  refine .bind (.modify fun s => h.polls s _ _ _ _) fun _ => ?_
  refine .bind (h.fillSqe h.ringGetSqeFlush rfl) fun _ => ?_
  refine .ite (.bind (.modify fun s => ?_) fun _ => h.ioUringSubmit) h.ioUringSubmit
  exact h.polls s _ _ _ _

theorem runCallbacks (h : Blind π) (callbacks : List CurlCallback) :
    Unseen π (runCallbacks callbacks) := by
  induction callbacks with
  | nil => exact .pure _
  | cons callback rest ih =>
    cases callback with
    | socket fd what => exact .bind (h.socketCallback fd what) fun _ => ih
    | timer timeoutMs => exact .bind (h.timerCallback timeoutMs) fun _ => ih

theorem curlCallbacks (h : Blind π) : Unseen π curlCallbacks :=
  .bind (.ask fun _ _ _ => rfl) h.runCallbacks

end Blind

end SocketHandoff.Uring
