import SocketHandoff.Uring.Unseen
import SocketHandoff.Uring.View

/-!
# Rules for the code of the daemon

First the code that leaves the view as it is, which is most of what is done to the ring and
everything the socket and timer callbacks of libcurl do. Then one rule for each function that
changes the view. The rule of a function with several outcomes has a premise for each.
-/

namespace SocketHandoff.Uring

variable {α β : Type} {ω : Env} {V : View} {i : ConnId} {R : α → View → Prop}

/-! ## Code that leaves the view as it is -/

/-- The view after the code is the view before it. Most of the daemon is quiet in this sense, and
the invariants are about the view. -/
def Quiet (m : Loop α) : Prop := ∀ ω st, (m ω st).2.2.view = st.2.view

theorem Quiet.pure (a : α) : Quiet (Pure.pure a : Loop α) := fun _ _ => rfl

theorem Quiet.bind {m : Loop α} {k : α → Loop β} (hm : Quiet m) (hk : ∀ a, Quiet (k a)) :
    Quiet (m >>= k) := fun ω st => (hk _ ω _).trans (hm ω st)

theorem Quiet.get : Quiet (Act.get : Loop Daemon) := fun _ _ => rfl

theorem Quiet.modify {f : Daemon → Daemon} (h : ∀ s, (f s).view = s.view) :
    Quiet (Act.modify f : Loop Unit) := fun _ st => h st.2

theorem Quiet.ask {answer : Env → Nat → Daemon → α × Daemon}
    (h : ∀ ω n s, (answer ω n s).2.view = s.view) : Quiet (Act.ask answer : Loop α) :=
  fun ω st => h ω st.1 st.2

theorem Quiet.ite {c : Prop} [Decidable c] {m m' : Loop α} (h : Quiet m) (h' : Quiet m') :
    Quiet (if c then m else m') := by
  split
  · exact h
  · exact h'

theorem blind_view : Blind Daemon.view where
  submit s k := view_submit s k
  queue s _ hr := view_queue_none s hr
  block _ _ := rfl
  polls _ _ _ _ _ := rfl

theorem ioUringSubmit_quiet : Quiet ioUringSubmit := blind_view.ioUringSubmit

theorem ioUringGetSqe_quiet : Quiet ioUringGetSqe := Blind.ioUringGetSqe

theorem ringGetSqeFlush_quiet : Quiet ringGetSqeFlush := blind_view.ringGetSqeFlush

theorem fillSqe_quiet {getSqe : Loop Bool} {r : Sqe} (hg : Quiet getSqe) (hr : r.slot? = none) :
    Quiet (fillSqe getSqe r) := blind_view.fillSqe hg hr

theorem malloc_quiet : Quiet malloc := blind_view.malloc

theorem realloc_quiet (b : Block) : Quiet (realloc b) := blind_view.realloc b

theorem runCallbacks_quiet (callbacks : List CurlCallback) : Quiet (runCallbacks callbacks) :=
  blind_view.runCallbacks callbacks

theorem curlCallbacks_quiet : Quiet curlCallbacks := blind_view.curlCallbacks

theorem countFailed_quiet : Quiet countFailed := .modify fun s => by split <;> rfl

theorem countCompleted_quiet (i : ConnId) : Quiet (countCompleted i) :=
  .modify fun s => by split <;> rfl

theorem countStarted_quiet : Quiet countStarted := .modify fun s => by split <;> rfl

theorem startAllocations_quiet : Quiet startAllocations := by
  refine .bind malloc_quiet fun b => ?_
  cases b with
  | none => exact .pure _
  | some b =>
    refine .bind (.ask fun _ _ _ => rfl) fun _ => .ite (.bind malloc_quiet fun b => ?_) (.pure _)
    cases b with
    | none => exact .pure _
    | some b => exact .bind malloc_quiet fun _ => .pure _

/-! ## Rules -/

/-- From the view `V`, the code ends with a result and a view in `R`. -/
def Runs (ω : Env) (V : View) (m : Loop α) (R : α → View → Prop) : Prop :=
  Act.Triple ω (fun s => s.view = V) m fun a s => R a s.view

namespace Runs

theorem pure {a : α} (h : R a V) : Runs ω V (Pure.pure a) R :=
  Act.Triple.pure a fun _ hs => hs ▸ h

/-- What runs after `m` starts in the view that `m` leaves. -/
theorem bind {m : Loop β} {k : β → Loop α} (h : Runs ω V m fun b V' => Runs ω V' (k b) R) :
    Runs ω V (m >>= k) R :=
  fun n s hs => h n s hs _ _ rfl

theorem conseq {m : Loop α} {Q : α → View → Prop} (h : Runs ω V m Q)
    (hQ : ∀ a V', Q a V' → R a V') : Runs ω V m R :=
  Act.Triple.conseq h (fun _ hs => hs) fun _ _ => hQ _ _

theorem quiet {m : Loop α} (hm : Quiet m) (h : ∀ a, R a V) : Runs ω V m R :=
  fun n s hs => by
    have hv : (m ω (n, s)).2.2.view = V := (hm ω (n, s)).trans hs
    change R (m ω (n, s)).1 (m ω (n, s)).2.2.view
    exact hv ▸ h (m ω (n, s)).1

theorem ite {c : Prop} [Decidable c] {m m' : Loop α} (ht : c → Runs ω V m R)
    (hf : ¬ c → Runs ω V m' R) : Runs ω V (if c then m else m') R :=
  Act.Triple.ite ht hf

/-- Code that starts by reading the state reads one with the view `V`. -/
theorem get {k : Daemon → Loop α} (h : ∀ s, s.view = V → Runs ω V (k s) R) :
    Runs ω V (Act.get >>= k) R :=
  fun n s hs => h s hs n s hs

theorem modify {R : Unit → View → Prop} {f : Daemon → Daemon} {W : View}
    (hf : ∀ s, s.view = V → (f s).view = W) (h : R () W) : Runs ω V (Act.modify f) R :=
  Act.Triple.modify fun s hs => by rw [hf s hs]; exact h

/-- A change of the daemon that is the change `F` of its view. -/
theorem change {R : Unit → View → Prop} {f : Daemon → Daemon} (F : View → View)
    (hf : ∀ s, (f s).view = F s.view) (h : R () (F V)) : Runs ω V (Act.modify f) R :=
  modify (fun s hs => by rw [hf s, hs]) h

theorem ask {answer : Env → Nat → Daemon → α × Daemon}
    (h : ∀ n s, s.view = V → R (answer ω n s).1 (answer ω n s).2.view) :
    Runs ω V (Act.ask answer) R :=
  Act.Triple.ask h

theorem connOf {R : Connection → View → Prop} (h : R (V.slots i).conn V) :
    Runs ω V (connOf i) R :=
  get fun s hs => pure (by subst hs; exact h)

theorem updateConn {R : Unit → View → Prop} {f : Connection → Connection}
    (h : R () (V.setConn i (f (V.slots i).conn))) : Runs ω V (updateConn i f) R :=
  modify (fun s hs => by subst hs; exact view_setConn s i _) h

theorem note {R : Unit → View → Prop} {e : Event} (h : R () (V.note e)) : Runs ω V (note e) R :=
  modify (fun s hs => by subst hs; rfl) h

theorem goto {R : Unit → View → Prop} {pc : Pc} (h : R () (V.goto pc)) : Runs ω V (goto pc) R :=
  modify (fun s hs => by subst hs; rfl) h

theorem modifyDirty {R : Unit → View → Prop} (f : Queue ConnId → Queue ConnId)
    (h : R () { V with dirty := f V.dirty }) :
    Runs ω V (Act.modify fun s => { s with dirty := f s.dirty }) R :=
  modify (fun s hs => by subst hs; rfl) h

end Runs

/-! ## Entries -/

/-- An entry for a slot is queued, or there is no room. -/
theorem Runs.fillSqe {R : Bool → View → Prop} {getSqe : Loop Bool} {r : Sqe}
    (hg : Quiet getSqe) (hr : r.slot? = some i) (hqueued : R true (V.push i r))
    (hrefused : R false V) : Runs ω V (fillSqe getSqe r) R := by
  refine .bind (.quiet hg fun ok => .ite (fun _ => ?_) fun _ => .pure hrefused)
  exact .bind (.modify (fun s hs => by subst hs; exact view_queue s hr) (.pure hqueued))

theorem Runs.ringSubmitRecvmsg {R : Bool → View → Prop}
    (hqueued : R true (V.push i ((V.slots i).recvSqe i))) (hrefused : R false V) :
    Runs ω V (ringSubmitRecvmsg i) R :=
  .get fun s hs => by
    subst hs
    exact .fillSqe ringGetSqeFlush_quiet rfl hqueued hrefused

theorem Runs.ringSubmitWrite {R : Bool → View → Prop} {buf : Buf} {len : Nat}
    (hqueued : R true (V.push i ((V.slots i).writeSqe i buf len))) (hrefused : R false V) :
    Runs ω V (ringSubmitWrite i buf len) R :=
  .get fun s hs => by
    subst hs
    exact .fillSqe ringGetSqeFlush_quiet rfl hqueued hrefused

theorem Runs.ringSubmitLinkedTimeout {R : Bool → View → Prop}
    (hqueued : R true (V.push i ((V.slots i).timeoutSqe V.cfg i))) (hrefused : R false V) :
    Runs ω V (ringSubmitLinkedTimeout i) R :=
  .get fun s hs => by
    subst hs
    exact .fillSqe ioUringGetSqe_quiet rfl hqueued hrefused

/-! ## The lists -/

theorem Runs.unlinkDirty {R : Unit → View → Prop} {prev next : Option ConnId}
    (h : R () (V.unlink prev i next)) : Runs ω V (unlinkDirty prev i next) R := by
  refine .bind (.updateConn ?_)
  exact .modifyDirty (fun q => q.unlink prev i next) h

theorem Runs.daemonMarkConnectionDirty {R : Unit → View → Prop} (h : R () (V.mark i)) :
    Runs ω V (daemonMarkConnectionDirty i) R := by
  refine .bind (.connOf (.ite (fun hd => .pure ?_) fun hd => ?_))
  · have hkeep : V.mark i = V := by
      have hc : { (V.slots i).conn with onDirtyList := true } = (V.slots i).conn := by
        rw [← hd]
      simp only [View.mark, if_pos hd, hc, View.setConn_self]
    rwa [hkeep] at h
  · refine .bind (.updateConn ?_)
    rw [View.mark, if_neg hd] at h
    exact .modifyDirty (fun q => q.append i) h

theorem Runs.daemonUnmarkConnectionDirty {R : Unit → View → Prop} (h : R () (V.unmark i)) :
    Runs ω V (daemonUnmarkConnectionDirty i) R := by
  refine .get fun s hs => ?_
  subst hs
  refine .ite (fun hd => ?_) fun hd => .pure ?_
  · rw [View.unmark, View.undirty, if_pos (by exact hd)] at h
    simp only [view_dirty, view_cfg] at h
    cases hp : predecessor s.dirty.next i (s.cfg.maxConnections + 1) none s.dirty.head with
    | some prev =>
      rw [hp] at h
      exact .unlinkDirty h
    | none =>
      rw [hp] at h
      refine .bind (.updateConn ?_)
      exact .modifyDirty (fun q => { q with next := Function.update q.next i none }) h
  · have hkeep : s.view.unmark i = s.view := by
      have hf : (s.view.slots i).conn.onDirtyList = false := by simpa using hd
      have hc : { (s.view.slots i).conn with onDirtyList := false } = (s.view.slots i).conn := by
        rw [← hf]
      simp only [View.unmark, View.undirty, hf, hc, View.setConn_self]
      rfl
    rwa [hkeep] at h

end SocketHandoff.Uring
