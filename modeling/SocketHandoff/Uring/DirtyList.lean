import SocketHandoff.Uring.Region

/-!
# The dirty list

`daemon_mark_connection_dirty`, `daemon_unmark_connection_dirty`, `cleanup_connection` and
`flush_streaming_connections` in any order. The loop of `flush_streaming_connections` keeps the
node before the current one in a variable of its own, while `start_async_write` may clean up the
current connection, which unlinks it and frees its write buffer. The loop then reads the buffer.
-/

namespace SocketHandoff.Uring

/-! ## Runs of the calls -/

/-- A daemon, with the connections that the present loop of `flush_streaming_connections` (or the
last one) has visited. -/
structure DirtyRun where
  daemon : Daemon
  visited : List ConnId

inductive DirtyCall
  /-- `daemon_mark_connection_dirty` for an allocated connection -/
  | mark (i : ConnId) (ω : Env)
  /-- `daemon_unmark_connection_dirty` -/
  | unmark (i : ConnId) (ω : Env)
  /-- `cleanup_connection` for an allocated connection -/
  | cleanup (i : ConnId) (ω : Env)
  /-- `flush_streaming_connections` begins -/
  | flushBegin (last : Bool)
  /-- one round of its loop -/
  | flushNext (ω : Env)
  /-- it returns -/
  | flushEnd
  /-- anything else that happens to the daemon -/
  | other (t : Daemon)

/-- Whether the main loop is in `flush_streaming_connections`. -/
def Pc.flushing : Pc → Bool
  | .flush .. => true
  | _ => false

/-- The daemon `t` with the dirty list of `s`, where the main loop is in `s`. -/
def Daemon.withDirty (t s : Daemon) : Daemon :=
  { t with
    cfg := s.cfg
    connections := fun i => if i < s.cfg.maxConnections then t.connections i else s.connections i
    dirty := s.dirty
    pc := s.pc
    trace := s.trace }

/-- Nothing else changes `on_dirty_list`, or frees a connection that is on the list. -/
def Daemon.KeepsDirty (s t : Daemon) : Prop :=
  ∀ i < s.cfg.maxConnections,
    (t.connections i).onDirtyList = (s.connections i).onDirtyList ∧
      ((s.connections i).onDirtyList = true → (t.connections i).state ≠ .unused)

instance (s t : Daemon) : Decidable (s.KeepsDirty t) :=
  inferInstanceAs (Decidable (∀ i < s.cfg.maxConnections, _ ∧ (_ → _ ≠ _)))

/-- One call, or one round of the loop. A call is made only for a slot it may be made for, and not
while the list is walked; a connection may be cleaned up in a round of the loop all the same.
Everything else that the daemon does, and which leaves the list as it is, is one step of its own. -/
def DirtyRun.step (s : DirtyRun) : DirtyCall → Option DirtyRun
  | .mark i ω =>
    if ¬ s.daemon.pc.flushing ∧ i < s.daemon.cfg.maxConnections ∧
        (s.daemon.connections i).state ≠ .unused then
      some { s with daemon := s.daemon.exec (daemonMarkConnectionDirty i) ω }
    else none
  | .unmark i ω =>
    if ¬ s.daemon.pc.flushing then
      some { s with daemon := s.daemon.exec (daemonUnmarkConnectionDirty i) ω }
    else none
  | .cleanup i ω =>
    if ¬ s.daemon.pc.flushing ∧ (s.daemon.connections i).state ≠ .unused then
      some { s with daemon := s.daemon.exec (cleanupConnection i) ω }
    else none
  | .flushBegin last =>
    if ¬ s.daemon.pc.flushing then
      some ⟨{ s.daemon with pc := .flush s.daemon.dirty.head none last }, []⟩
    else none
  | .flushNext ω =>
    match s.daemon.pc with
    | .flush (some i) prev last =>
      some ⟨s.daemon.exec (flushConnection i prev last) ω, s.visited ++ [i]⟩
    | _ => none
  | .flushEnd =>
    match s.daemon.pc with
    | .flush none _ _ => some { s with daemon := { s.daemon with pc := .events } }
    | _ => none
  | .other t =>
    if s.daemon.KeepsDirty t then some { s with daemon := t.withDirty s.daemon } else none

/-- The calls as a system, from `conn_pool_init` on. -/
def dirtySystem : System DirtyRun DirtyCall where
  init s := ∃ cfg, s = ⟨Daemon.boot cfg, []⟩
  step := DirtyRun.step

/-! ## Integrity -/

/-- **Integrity of the dirty list**: it ends, no connection is on it twice, `dirty_tail` is its last
node, a connection is on it exactly when it is marked, and those on it are allocated. -/
def Daemon.DirtyIntegrity (s : Daemon) : Prop :=
  ∃ l, s.dirty.Holds l ∧ (∀ i, i ∈ l ↔ (s.connections i).onDirtyList = true) ∧
    ∀ i ∈ l, (s.connections i).state ≠ .unused

/-- What is to hold at all times: the links, the flags and the tail agree, and the loop over the
list goes past each connection once and past none that it has given up. -/
structure DirtyRun.Lawful (s : DirtyRun) : Prop where
  integrity : s.daemon.DirtyIntegrity
  /-- the loop visits no connection twice -/
  once : s.visited.Nodup
  /-- and reads no write buffer it has freed -/
  alive : ∀ i, .readFreed i ∉ s.daemon.trace

/-- The submission queue when an entry has been asked for, the kernel reading `k` entries if there
is none. -/
def Daemon.flushed (s : Daemon) (k : Nat) : Daemon :=
  if s.sq.length < s.cfg.entries then s else s.submit k

/-- There are entries for a write and its timeout. -/
def Daemon.HasRoomForTwo (s : Daemon) (k : Nat) : Prop :=
  (s.flushed k).sq.length + 1 < s.cfg.entries

instance (s : Daemon) (k : Nat) : Decidable (s.HasRoomForTwo k) := inferInstanceAs (Decidable (_ < _))

/-- The connection has data waiting and no write in flight. -/
def Connection.CanWrite (c : Connection) : Prop :=
  ∃ wb, c.asyncWriteBuf = some wb ∧ wb.hasData = true ∧ wb.writePending = false

/-- `flush_streaming_connections` submits a write for the connection. -/
def Connection.Sends (c : Connection) : Prop :=
  (c.state = .streaming ∨ c.state = .curlActive ∨ c.state = .closing) ∧ c.CanWrite

/-- **The condition**: the writes that the loop submits find their entries. Where one does not,
`start_async_write` gives the connection up under the loop, which then reads the buffer of a
connection that is free. -/
def DirtyRun.Granted (s : DirtyRun) : DirtyCall → Prop
  | .flushNext ω => ∀ i prev last, s.daemon.pc = .flush (some i) prev last →
      (s.daemon.connections i).Sends → s.daemon.HasRoomForTwo (ω.consumed 0)
  | _ => True

/-! ## What the calls do to the list -/

/-- The dirty list of a view holds the connections `l`. -/
structure View.Dirty (V : View) (l : List ConnId) : Prop where
  list : V.dirty.Holds l
  marks : ∀ i, i ∈ l ↔ (V.slots i).conn.onDirtyList = true
  allocated : ∀ i ∈ l, (V.slots i).conn.state ≠ .unused
  bound : ∀ i ∈ l, i < V.cfg.maxConnections

variable {ω : Env} {V W : View} {i j : ConnId} {l : List ConnId}

/-- What does not touch the list, nor the marks, nor frees a connection on the list. -/
theorem View.Dirty.congr (h : V.Dirty l) (hdirty : W.dirty = V.dirty) (hcfg : W.cfg = V.cfg)
    (hmarks : ∀ j, (W.slots j).conn.onDirtyList = (V.slots j).conn.onDirtyList)
    (hstate : ∀ j ∈ l, (W.slots j).conn.state ≠ .unused) : W.Dirty l := by
  refine ⟨hdirty ▸ h.list, fun j => ?_, hstate, hcfg ▸ h.bound⟩
  rw [hmarks j]
  exact h.marks j

/-- A connection changes, but not its mark. -/
theorem View.Dirty.set {v : Slot} (h : V.Dirty l)
    (hmark : v.conn.onDirtyList = (V.slots i).conn.onDirtyList)
    (hstate : i ∈ l → v.conn.state ≠ .unused) : (V.set i v).Dirty l := by
  refine h.congr rfl rfl (fun j => ?_) fun j hj => ?_
  · by_cases hji : j = i
    · rw [hji, View.set_slots_self, hmark]
    · rw [View.set_slots_of_ne _ _ hji]
  · by_cases hji : j = i
    · subst hji
      rw [View.set_slots_self]
      exact hstate hj
    · rw [View.set_slots_of_ne _ _ hji]
      exact h.allocated j hj

/-! The calls work on one connection. -/

theorem View.mark_slots_of_ne (h : j ≠ i) : (V.mark i).slots j = V.slots j :=
  View.setConn_slots_of_ne _ _ h

theorem View.unlink_slots_of_ne {prev next : Option ConnId} (h : j ≠ i) :
    (V.unlink prev i next).slots j = V.slots j :=
  View.setConn_slots_of_ne _ _ h

theorem View.unmark_slots_of_ne (h : j ≠ i) : (V.unmark i).slots j = V.slots j :=
  View.setConn_slots_of_ne _ _ h

theorem View.free_slots_of_ne (h : j ≠ i) : (V.free i).slots j = V.slots j :=
  View.set_slots_of_ne _ _ h

/-- A connection that is not on the list has no mark. -/
theorem View.Dirty.mark_eq_false (h : V.Dirty l) (hi : i ∉ l) :
    (V.slots i).conn.onDirtyList = false :=
  Bool.eq_false_iff.mpr fun hmark => hi ((h.marks i).mpr hmark)

/-- Connections without repetition are no more than there are slots. -/
theorem View.Dirty.length_le (h : V.Dirty l) : l.length ≤ V.cfg.maxConnections := by
  have hsub : l ⊆ List.range V.cfg.maxConnections := fun j hj => List.mem_range.mpr (h.bound j hj)
  simpa using h.list.nodup.length_le_of_subset hsub

/-- **Marking** an allocated connection. -/
theorem View.Dirty.mark (h : V.Dirty l) (hi : i < V.cfg.maxConnections)
    (hstate : (V.slots i).conn.state ≠ .unused) : ∃ l', (V.mark i).Dirty l' := by
  have hstate' : ∀ j, j = i ∨ j ∈ l → ((V.mark i).slots j).conn.state ≠ .unused := by
    intro j hj
    by_cases hji : j = i
    · rw [hji, View.mark_slots_self]
      exact hstate
    · rw [View.mark_slots_of_ne hji]
      exact h.allocated j (hj.resolve_left hji)
  by_cases hmark : (V.slots i).conn.onDirtyList = true
  · refine ⟨l, h.congr (if_pos hmark) rfl (fun j => ?_) fun j hj => hstate' j (.inr hj)⟩
    by_cases hji : j = i
    · rw [hji, View.mark_slots_self, hmark]
    · rw [View.mark_slots_of_ne hji]
  · have hnew : i ∉ l := fun hil => hmark ((h.marks i).mp hil)
    have hdirty : (V.mark i).dirty = V.dirty.append i := if_neg hmark
    refine ⟨l ++ [i], hdirty ▸ h.list.append hnew, fun j => ?_, fun j hj => ?_, fun j hj => ?_⟩
    · by_cases hji : j = i
      · rw [hji, View.mark_slots_self]
        simp
      · rw [View.mark_slots_of_ne hji, ← h.marks j]
        simp [hji]
    · rw [List.mem_append, List.mem_singleton] at hj
      exact hstate' j hj.symm
    · rw [List.mem_append, List.mem_singleton] at hj
      rcases hj with hj | rfl
      · exact h.bound j hj
      · exact hi

/-- **Unlinking** a connection, given its predecessor. -/
theorem View.Dirty.unlink {p r : List ConnId} (h : V.Dirty (p ++ i :: r)) :
    (V.unlink p.getLast? i (V.dirty.next i)).Dirty (p ++ r) ∧ i ∉ p ++ r := by
  have hnew : i ∉ p ++ r := (List.nodup_cons.mp (List.nodup_middle.mp h.list.nodup)).1
  have hmem : ∀ j, j ≠ i → (j ∈ p ++ r ↔ j ∈ p ++ i :: r) := by
    intro j hji
    simp [hji]
  have hold : ∀ j ∈ p ++ r, j ∈ p ++ i :: r := fun j hj =>
    (hmem j (ne_of_mem_of_not_mem hj hnew)).mp hj
  refine ⟨⟨h.list.unlink, fun j => ?_, fun j hj => ?_, fun j hj => h.bound j (hold j hj)⟩, hnew⟩
  · by_cases hji : j = i
    · subst hji
      simpa [View.unlink, View.setConn] using hnew
    · rw [View.unlink_slots_of_ne hji, ← h.marks j]
      exact hmem j hji
  · rw [View.unlink_slots_of_ne (ne_of_mem_of_not_mem hj hnew)]
    exact h.allocated j (hold j hj)

/-- **Unmarking** takes a connection out wherever it is. -/
theorem View.Dirty.unmark (h : V.Dirty l) (i : ConnId) :
    ∃ l', (V.unmark i).Dirty l' ∧ i ∉ l' := by
  by_cases hmark : (V.slots i).conn.onDirtyList = true
  · obtain ⟨p, r, rfl⟩ := List.append_of_mem ((h.marks i).mpr hmark)
    have hle := h.length_le
    rw [List.length_append] at hle
    -- the walk of `daemon_unmark_connection_dirty` meets the connection
    have hfound := h.list.predecessor (Nat.lt_succ_of_le (Nat.le_trans (Nat.le_add_right _ _) hle))
    have hsame : V.unmark i = V.unlink p.getLast? i (V.dirty.next i) := by
      rw [View.unmark, View.undirty, if_pos hmark, hfound]
      rfl
    exact ⟨p ++ r, hsame ▸ h.unlink⟩
  · have hnew : i ∉ l := fun hil => hmark ((h.marks i).mp hil)
    refine ⟨l, h.congr (if_neg hmark) rfl (fun j => ?_) fun j hj => ?_, hnew⟩
    · by_cases hji : j = i
      · subst hji
        simpa [View.unmark, View.setConn] using hmark
      · rw [View.unmark_slots_of_ne hji]
    · rw [View.unmark_slots_of_ne (ne_of_mem_of_not_mem hj hnew)]
      exact h.allocated j hj

/-- **Freeing** a connection that is not on the list. -/
theorem View.Dirty.free (h : V.Dirty l) (hi : i ∉ l) : (V.free i).Dirty l := by
  refine h.congr rfl rfl (fun j => ?_) fun j hj => ?_
  · by_cases hji : j = i
    · rw [hji, h.mark_eq_false hi]
      simp [View.free, View.pushFree, View.set, Connection.reset, Connection.initial]
    · rw [View.free_slots_of_ne hji]
  · rw [View.free_slots_of_ne (ne_of_mem_of_not_mem hj hi)]
    exact h.allocated j hj

/-- Cleaning up does not move the main loop. -/
theorem View.cleanup_pc (i : ConnId) : (V.cleanup i).pc = V.pc := by
  have hcancel : (V.cancel i).pc = V.pc := by
    rw [View.cancel]
    split <;> rfl
  simp only [View.cleanup, View.free, View.pushFree, View.set, View.unmark, View.setConn]
  split
  · exact hcancel
  · rfl

/-- Cancelling a request changes no mark. -/
theorem View.Dirty.cancel (h : V.Dirty l) (i : ConnId) : (V.cancel i).Dirty l := by
  cases hc : (V.slots i).conn.curlEasy with
  | none => rwa [View.cancel, hc]
  | some easy =>
    rw [View.cancel, hc]
    have hremoved : (V.removeRequest easy).Dirty l := h.congr rfl rfl (fun _ => rfl) h.allocated
    exact hremoved.set rfl fun hi => hremoved.allocated i hi

/-- **Cleaning up** a connection takes it out before it is freed, so that the list never leads to a
free slot. It is the order of the two that the list depends on. -/
theorem View.Dirty.cleanup (h : V.Dirty l) (i : ConnId) : ∃ l', (V.cleanup i).Dirty l' := by
  have hcancel : (if V.cfg.mode = .curlMulti then V.cancel i else V).Dirty l := by
    split
    · exact h.cancel i
    · exact h
  obtain ⟨l', hunmark, hi⟩ := hcancel.unmark i
  exact ⟨l', hunmark.free hi⟩

/-! ## A round of the loop -/

/-- `ring_get_sqe_flush`, with what it leaves. -/
theorem ringGetSqeFlush_run (n : Nat) (s : Daemon) :
    (ringGetSqeFlush ω (n, s)).1 =
        decide ((s.flushed (ω.consumed n)).sq.length < s.cfg.entries) ∧
      (ringGetSqeFlush ω (n, s)).2.2 = s.flushed (ω.consumed n) := by
  by_cases hroom : s.sq.length < s.cfg.entries
  · have hsame : s.flushed (ω.consumed n) = s := if_pos hroom
    rw [hsame]
    simp [ringGetSqeFlush, ioUringGetSqe, hroom]
  · have hsubmit : s.flushed (ω.consumed n) = s.submit (ω.consumed n) := if_neg hroom
    rw [hsubmit]
    simp only [ringGetSqeFlush, ioUringGetSqe, hroom, Act.bind_run, Act.get_run, Act.pure_run,
      decide_false, Bool.false_eq_true, if_false, ioUringSubmit, Act.ask_run]
    exact ⟨rfl, trivial⟩

/-- **A write with its timeout** is submitted when there are entries for both. -/
theorem submitOrCleanup_result (buf : Buf) (len : Nat) (refused : Loop Unit) (n : Nat) (s : Daemon) :
    (submitOrCleanup i buf len refused ω (n, s)).1 =
      decide (s.HasRoomForTwo (ω.consumed n)) := by
  obtain ⟨hresult, hstate⟩ := ringGetSqeFlush_run (ω := ω) n s
  have hcfg : (s.flushed (ω.consumed n)).cfg = s.cfg := by
    rw [Daemon.flushed]
    split <;> rfl
  rw [submitOrCleanup, Act.bind_run, ringSubmitWrite, Act.bind_run, Act.get_run, fillSqe,
    Act.bind_run, hresult]
  generalize (ringGetSqeFlush ω (n, s)).2 = st at hstate ⊢
  obtain ⟨m, t⟩ := st
  simp only at hstate
  subst hstate
  by_cases hone : (s.flushed (ω.consumed n)).sq.length < s.cfg.entries
  · rw [decide_eq_true hone, if_pos rfl, Act.bind_run, Act.modify_run, Act.pure_run, if_pos rfl,
      Act.bind_run, ringSubmitLinkedTimeout, Act.bind_run, Act.get_run, fillSqe, Act.bind_run,
      ioUringGetSqe, Act.bind_run, Act.get_run, Act.pure_run]
    simp only [Daemon.queue, hcfg, List.length_append, List.length_singleton]
    by_cases htwo : (s.flushed (ω.consumed n)).sq.length + 1 < s.cfg.entries
    · have hroom : s.HasRoomForTwo (ω.consumed n) := htwo
      rw [decide_eq_true htwo, if_pos rfl, decide_eq_true hroom]
      rfl
    · have hroom : ¬ s.HasRoomForTwo (ω.consumed n) := htwo
      rw [decide_eq_false htwo, if_neg Bool.false_ne_true, decide_eq_false hroom]
      rfl
  · have hroom : ¬ s.HasRoomForTwo (ω.consumed n) := fun h => hone (Nat.lt_of_succ_lt h)
    rw [decide_eq_false hone, if_neg Bool.false_ne_true, decide_eq_false hroom]
    rfl

/-- Without data waiting `start_async_write` does nothing. -/
theorem startAsyncWrite_idle {n : Nat} {s : Daemon} (h : ¬ (s.connections i).CanWrite) :
    (startAsyncWrite i ω (n, s)).2 = (n, s) := by
  rw [startAsyncWrite, Act.bind_run, connOf, Act.bind_run, Act.get_run, Act.pure_run]
  cases hwb : (s.connections i).asyncWriteBuf with
  | none => rfl
  | some wb =>
    have hidle : ¬ (wb.hasData = true ∧ ¬ wb.writePending = true) := fun hw =>
      h ⟨wb, hwb, hw.1, (Bool.not_eq_true _).mp hw.2⟩
    simp only [if_neg hidle, Act.pure_run]

/-- What `submit_or_cleanup` returns says what it has done. -/
theorem submitOrCleanup_view (buf : Buf) (len : Nat) {s : Daemon} :
    Runs ω s.view (submitOrCleanup i buf len countFailed) fun ok V' =>
      (ok = true → V' = s.view.set i ((s.slot i).pair s.cfg i buf len)) ∧
        (ok = false → GiveUp s.view i (s.slot i) V') := by
  refine .of_set (.submitOrCleanup countFailed_quiet ⟨fun _ => rfl, fun h => ?_⟩ fun V' hV' =>
    ⟨fun h => ?_, fun _ => hV'⟩)
  · cases h
  · cases h

/-- **`start_async_write`** with data waiting: the write is submitted where there are entries, and
the connection is given up where there are not. -/
theorem startAsyncWrite_canWrite {n : Nat} {s : Daemon} (h : (s.connections i).CanWrite) :
    (s.HasRoomForTwo (ω.consumed n) → ∃ v : Slot,
      v.conn = { (s.connections i) with
        asyncWriteBuf := (s.connections i).asyncWriteBuf.map (·.setPending true) } ∧
        (startAsyncWrite i ω (n, s)).2.2.view = s.view.set i v) ∧
    (¬ s.HasRoomForTwo (ω.consumed n) →
      GiveUp s.view i (s.slot i) (startAsyncWrite i ω (n, s)).2.2.view) := by
  obtain ⟨wb, hwb, hdata, hfree⟩ := h
  have hw : wb.hasData = true ∧ ¬ wb.writePending = true := ⟨hdata, by simp [hfree]⟩
  have hresult := submitOrCleanup_result (ω := ω) (i := i) (.block wb.buffer wb.tail) wb.size
    countFailed n s
  have hview := submitOrCleanup_view (ω := ω) (i := i) (.block wb.buffer wb.tail) wb.size n s rfl
  rw [startAsyncWrite, Act.bind_run, connOf, Act.bind_run, Act.get_run, Act.pure_run]
  simp only [hwb, if_pos hw]
  rw [Act.bind_run]
  generalize submitOrCleanup i (.block wb.buffer wb.tail) wb.size countFailed ω (n, s) = out
    at hresult hview ⊢
  obtain ⟨ok, m, t⟩ := out
  simp only at hresult hview ⊢
  constructor
  · intro hroom
    rw [decide_eq_true hroom] at hresult
    subst hresult
    let v := (s.slot i).pair s.cfg i (.block wb.buffer wb.tail) wb.size
    have hrest : Runs ω (s.view.set i v) (do
        updateConn i fun c => { c with asyncWriteBuf := some (wb.setPending true) }
        ringSubmit) fun _ V' => V' = s.view.set i
          { v with conn := { v.conn with asyncWriteBuf := some (wb.setPending true) } } :=
      .bind (.updateConn_set (.quiet ioUringSubmit_quiet fun _ => rfl))
    exact ⟨_, rfl, hrest m t (hview.1 rfl)⟩
  · intro hroom
    rw [decide_eq_false hroom] at hresult
    subst hresult
    exact hview.2 rfl

/-- What a round of the loop leaves: the connection stays on the list or is taken out, and the loop
goes on behind it. -/
inductive FlushRound (V : View) (i : ConnId) (prev : Option ConnId) (last : Bool) : View → Prop
  | kept (v : Slot) : v.conn.onDirtyList = (V.slots i).conn.onDirtyList →
      v.conn.state = (V.slots i).conn.state →
      FlushRound V i prev last ((V.set i v).goto (.flush (V.dirty.next i) (some i) last))
  | dropped : FlushRound V i prev last
      ((V.unlink prev i (V.dirty.next i)).goto (.flush (V.dirty.next i) prev last))

/-- The rest of a round, when the connection has a write buffer. -/
theorem flushRest_runs (prev next : Option ConnId) (last : Bool) {wb : WriteBuffer}
    (hwb : (W.slots i).conn.asyncWriteBuf = some wb) :
    Runs ω W (do
      let (hasData, busy) ← rereadWriteBuf i
      if ¬ hasData ∧ ¬ busy then
        unlinkDirty prev i next
        goto (.flush next prev last)
      else goto (.flush next (some i) last)) fun _ V' =>
      V' = if wb.hasData = false ∧ wb.writePending = false then
        (W.unlink prev i next).goto (.flush next prev last)
      else W.goto (.flush next (some i) last) := by
  refine .bind (.bind (.connOf ?_))
  rw [hwb]
  refine .pure (.ite (fun hidle => ?_) fun hbusy => .goto ?_)
  · refine .bind (.unlinkDirty (.goto ?_))
    rw [if_pos (by simpa using hidle)]
  · rw [if_neg (by simpa using hbusy)]

/-- The rest of a round, when the connection has lost its write buffer. -/
theorem flushRest_freed (prev next : Option ConnId) (last : Bool)
    (hwb : (W.slots i).conn.asyncWriteBuf = none) :
    Runs ω W (do
      let (hasData, busy) ← rereadWriteBuf i
      if ¬ hasData ∧ ¬ busy then
        unlinkDirty prev i next
        goto (.flush next prev last)
      else goto (.flush next (some i) last)) fun _ V' => .readFreed i ∈ V'.trace := by
  refine .bind (.bind (.connOf ?_))
  rw [hwb]
  refine .bind (.note (.ask fun n t ht => ?_))
  rw [ht]
  have hnoted : .readFreed i ∈ (W.note (.readFreed i)).trace := List.mem_concat_self
  exact .ite (fun _ => .bind (.unlinkDirty (.goto hnoted))) fun _ => .goto hnoted

/-- **A round** in which the write is not refused: the connection stays on the list, or is taken out
because it has nothing left to send. That it is not cleaned up is what the room for two entries
provides. -/
theorem flushConnection_round (prev : Option ConnId) (last : Bool) {s : Daemon}
    (h : (s.connections i).Sends → s.HasRoomForTwo (ω.consumed 0)) :
    FlushRound s.view i prev last (s.exec (flushConnection i prev last) ω).view := by
  have hkept : FlushRound s.view i prev last
      (s.view.goto (.flush (s.dirty.next i) (some i) last)) := by
    have hsame : FlushRound s.view i prev last
        ((s.view.set i (s.view.slots i)).goto (.flush (s.dirty.next i) (some i) last)) :=
      .kept _ rfl rfl
    rwa [View.set_self] at hsame
  rw [Daemon.exec, Act.final, flushConnection, Act.bind_run, Act.get_run]
  by_cases hstate : (s.connections i).state = .streaming ∨ (s.connections i).state = .curlActive ∨
      (s.connections i).state = .closing
  · simp only [if_pos hstate]
    cases hwb : (s.connections i).asyncWriteBuf with
    | none => exact hkept
    | some wb =>
      simp only
      rw [Act.bind_run]
      by_cases hwaits : (s.connections i).CanWrite
      · obtain ⟨v, hv, hview⟩ := (startAsyncWrite_canWrite hwaits).1 (h ⟨hstate, hwaits⟩)
        have hbuf : ((s.view.set i v).slots i).conn.asyncWriteBuf = some (wb.setPending true) := by
          rw [View.set_slots_self, hv, hwb]
          rfl
        have hrest := flushRest_runs (ω := ω) prev (s.dirty.next i) last hbuf
          (startAsyncWrite i ω (0, s)).2.1 (startAsyncWrite i ω (0, s)).2.2 hview
        rw [if_neg fun hidle => Bool.noConfusion hidle.2] at hrest
        exact hrest ▸ .kept v (by rw [hv]; rfl) (by rw [hv]; rfl)
      · rw [startAsyncWrite_idle hwaits]
        have hbuf : (s.view.slots i).conn.asyncWriteBuf = some wb := hwb
        have hrest := flushRest_runs (ω := ω) prev (s.dirty.next i) last hbuf 0 s rfl
        split at hrest
        · exact hrest ▸ .dropped
        · exact hrest ▸ hkept
  · simp only [if_neg hstate]
    have hrest : Runs ω s.view (do
        unlinkDirty prev i (s.dirty.next i)
        goto (.flush (s.dirty.next i) prev last)) fun _ V' =>
          FlushRound s.view i prev last V' := .bind (.unlinkDirty (.goto .dropped))
    exact hrest 0 s rfl

/-- **A round** in which the write is refused: the loop reads a write buffer that was freed. -/
theorem flushConnection_refused (prev : Option ConnId) (last : Bool) {s : Daemon}
    (h : (s.connections i).Sends) (hroom : ¬ s.HasRoomForTwo (ω.consumed 0)) :
    .readFreed i ∈ (s.exec (flushConnection i prev last) ω).trace := by
  obtain ⟨hstate, hwaits⟩ := h
  have hgave := (startAsyncWrite_canWrite (ω := ω) (n := 0) hwaits).2 hroom
  obtain ⟨wb, hwb, -, -⟩ := hwaits
  rw [Daemon.exec, Act.final, flushConnection, Act.bind_run, Act.get_run]
  simp only [if_pos hstate, hwb]
  rw [Act.bind_run]
  exact flushRest_freed (ω := ω) prev (s.dirty.next i) last hgave.asyncWriteBuf
    (startAsyncWrite i ω (0, s)).2.1 (startAsyncWrite i ω (0, s)).2.2 rfl

/-! ## The invariant -/

/-- The loop of `flush_streaming_connections` is between the connections it has left on the list and
those it has not visited. -/
structure FlushLoop (l visited : List ConnId) (conn prev : Option ConnId) : Prop where
  split : ∃ done rest, l = done ++ rest ∧ prev = done.getLast? ∧ conn = rest.head? ∧
    ∀ i ∈ rest, i ∉ visited

/-- **The invariant**: the list holds the connections `l`, and the loop has a place in it. The list
is an argument, so that a step says what it makes of it. -/
structure DirtyRun.Good (s : DirtyRun) (l : List ConnId) : Prop where
  dirty : s.daemon.view.Dirty l
  once : s.visited.Nodup
  alive : ∀ i, .readFreed i ∉ s.daemon.trace
  loop : ∀ conn prev last, s.daemon.pc = .flush conn prev last → FlushLoop l s.visited conn prev

variable {s s' : DirtyRun}

theorem DirtyRun.Good.lawful (h : s.Good l) : s.Lawful :=
  ⟨⟨l, h.dirty.list, h.dirty.marks, h.dirty.allocated⟩, h.once, h.alive⟩

/-- A call outside the loop. -/
theorem DirtyRun.Good.call {m : Loop Unit} (h : s.Good l) (hout : ¬ s.daemon.pc.flushing = true)
    (hm : Runs ω s.daemon.view m fun _ V' => V' = W) (hpc : W.pc = s.daemon.pc)
    (htrace : W.trace = s.daemon.trace) (hdirty : ∃ l', W.Dirty l') :
    ∃ l', DirtyRun.Good { s with daemon := s.daemon.exec m ω } l' := by
  have hview : (s.daemon.exec m ω).view = W := hm 0 s.daemon rfl
  have htrace' : (s.daemon.exec m ω).trace = s.daemon.trace :=
    (congrArg View.trace hview).trans htrace
  have hpc' : (s.daemon.exec m ω).pc = s.daemon.pc := (congrArg View.pc hview).trans hpc
  obtain ⟨l', hl'⟩ := hdirty
  refine ⟨l', hview ▸ hl', h.once, fun i => htrace' ▸ h.alive i, fun conn prev last hflush => ?_⟩
  have hsame : s.daemon.pc = .flush conn prev last := hpc'.symm.trans hflush
  exact absurd (by rw [hsame]; rfl) hout

/-- The loop **begins** at the head of the list. -/
theorem DirtyRun.Good.flushBegin (h : s.Good l) (last : Bool) :
    DirtyRun.Good ⟨{ s.daemon with pc := .flush s.daemon.dirty.head none last }, []⟩ l := by
  refine ⟨h.dirty.congr rfl rfl (fun _ => rfl) h.dirty.allocated, List.nodup_nil, h.alive, ?_⟩
  intro conn prev last' hpc
  cases hpc
  exact ⟨[], l, rfl, rfl, h.dirty.list.linked.head_eq, fun i _ => List.not_mem_nil⟩

theorem View.Dirty.goto (h : V.Dirty l) (pc : Pc) : (V.goto pc).Dirty l :=
  h.congr rfl rfl (fun _ => rfl) h.allocated

/-- **A round** of the loop in which the write is not refused. -/
theorem DirtyRun.Good.flushNext {prev : Option ConnId} {last : Bool} (h : s.Good l)
    (hpc : s.daemon.pc = .flush (some i) prev last)
    (hroom : (s.daemon.connections i).Sends → s.daemon.HasRoomForTwo (ω.consumed 0)) :
    ∃ l', DirtyRun.Good ⟨s.daemon.exec (flushConnection i prev last) ω, s.visited ++ [i]⟩ l' := by
  obtain ⟨⟨done, rest, rfl, rfl, hconn, hnew⟩⟩ := h.loop _ _ _ hpc
  cases rest with
  | nil => cases hconn
  | cons j rest =>
    obtain rfl : i = j := Option.some.inj hconn
    have hi : i ∉ done ++ rest := (List.nodup_cons.mp (List.nodup_middle.mp h.dirty.list.nodup)).1
    have hnext : s.daemon.dirty.next i = rest.head? := h.dirty.list.linked.tail_of_append.head_eq
    have honce : (s.visited ++ [i]).Nodup :=
      List.nodup_append.mpr ⟨h.once, List.nodup_singleton i, fun a ha b hb hab =>
        hnew i List.mem_cons_self (List.mem_singleton.mp hb ▸ hab ▸ ha)⟩
    have hleft : ∀ j ∈ rest, j ∉ s.visited ++ [i] := by
      intro j hj hmem
      rcases List.mem_append.mp hmem with hmem | hmem
      · exact hnew j (List.mem_cons_of_mem i hj) hmem
      · exact hi (List.mem_singleton.mp hmem ▸ List.mem_append_right done hj)
    have hround := flushConnection_round done.getLast? last hroom
    generalize s.daemon.exec (flushConnection i done.getLast? last) ω = d at hround ⊢
    generalize hW : d.view = W at hround
    have hpc' : d.pc = W.pc := congrArg View.pc hW
    have htrace : d.trace = W.trace := congrArg View.trace hW
    cases hround with
    | kept v hmark hstate =>
      refine ⟨done ++ i :: rest, ?_, honce, fun j => htrace ▸ h.alive j, fun conn prev last' hf => ?_⟩
      · have hset := h.dirty.set (v := v) hmark fun hil => hstate ▸ h.dirty.allocated i hil
        exact hW ▸ hset.goto _
      · cases hpc'.symm.trans hf
        refine ⟨done ++ [i], rest, ?_, ?_, hnext, hleft⟩
        · rw [List.append_assoc, List.singleton_append]
        · rw [List.getLast?_concat]
    | dropped =>
      refine ⟨done ++ rest, ?_, honce, fun j => htrace ▸ h.alive j, fun conn prev last' hf => ?_⟩
      · exact hW ▸ h.dirty.unlink.1.goto _
      · cases hpc'.symm.trans hf
        exact ⟨done, rest, rfl, rfl, hnext, hleft⟩

/-- A change elsewhere. -/
theorem DirtyRun.Good.other {t : Daemon} (h : s.Good l) (hkeeps : s.daemon.KeepsDirty t) :
    DirtyRun.Good { s with daemon := t.withDirty s.daemon } l := by
  have hconn : ∀ j, (t.withDirty s.daemon).connections j =
      if j < s.daemon.cfg.maxConnections then t.connections j else s.daemon.connections j :=
    fun _ => rfl
  refine ⟨h.dirty.congr rfl rfl (fun j => ?_) fun j hj => ?_, h.once, h.alive, h.loop⟩
  · rw [view_slots, slot_conn, view_slots, slot_conn, hconn]
    split
    · next hlt => exact (hkeeps j hlt).1
    · rfl
  · have hj' : j < s.daemon.cfg.maxConnections := h.dirty.bound j hj
    rw [view_slots, slot_conn, hconn, if_pos hj']
    exact (hkeeps j (h.dirty.bound j hj)).2 ((h.dirty.marks j).mp hj)

/-- The loop **ends**. -/
theorem DirtyRun.Good.flushEnd (h : s.Good l) :
    DirtyRun.Good { s with daemon := { s.daemon with pc := .events } } l :=
  ⟨h.dirty.congr rfl rfl (fun _ => rfl) h.dirty.allocated, h.once, h.alive, fun _ _ _ hpc => by
    cases hpc⟩

/-- **One step** keeps the invariant when it meets the condition, and breaks the law when it does
not. -/
theorem good_step {c : DirtyCall} (h : s.Good l) (hs : s.step c = some s') :
    (s.Granted c → ∃ l', s'.Good l') ∧ (¬ s.Granted c → ¬ s'.Lawful) := by
  cases c with
  | mark i ω =>
    obtain ⟨⟨hout, hi, hstate⟩, hs'⟩ := Option.ite_none_right_eq_some.mp hs
    cases hs'
    exact ⟨fun _ => h.call hout (.daemonMarkConnectionDirty rfl) rfl rfl (h.dirty.mark hi hstate),
      fun hn => absurd trivial hn⟩
  | unmark i ω =>
    obtain ⟨hout, hs'⟩ := Option.ite_none_right_eq_some.mp hs
    cases hs'
    obtain ⟨l', hl', -⟩ := h.dirty.unmark i
    exact ⟨fun _ => h.call hout (.daemonUnmarkConnectionDirty rfl) rfl rfl ⟨l', hl'⟩,
      fun hn => absurd trivial hn⟩
  | cleanup i ω =>
    obtain ⟨⟨hout, hstate⟩, hs'⟩ := Option.ite_none_right_eq_some.mp hs
    cases hs'
    exact ⟨fun _ => h.call hout (.cleanupConnection rfl) (View.cleanup_pc i) (View.cleanup_trace i)
      (h.dirty.cleanup i), fun hn => absurd trivial hn⟩
  | flushBegin last =>
    obtain ⟨hout, hs'⟩ := Option.ite_none_right_eq_some.mp hs
    cases hs'
    exact ⟨fun _ => ⟨l, h.flushBegin last⟩, fun hn => absurd trivial hn⟩
  | flushNext ω =>
    simp only [DirtyRun.step] at hs
    split at hs
    · next i prev last hpc =>
      cases hs
      refine ⟨fun hg => h.flushNext hpc (hg i prev last hpc), fun hn hlawful => ?_⟩
      simp only [DirtyRun.Granted, not_forall] at hn
      obtain ⟨j, prev', last', hpc', hsends, hroom⟩ := hn
      cases hpc.symm.trans hpc'
      exact hlawful.alive i (flushConnection_refused prev last hsends hroom)
    · cases hs
  | flushEnd =>
    simp only [DirtyRun.step] at hs
    split at hs
    · cases hs
      exact ⟨fun _ => ⟨l, h.flushEnd⟩, fun hn => absurd trivial hn⟩
    · cases hs
  | other t =>
    obtain ⟨hkeeps, hs'⟩ := Option.ite_none_right_eq_some.mp hs
    cases hs'
    exact ⟨fun _ => ⟨l, h.other hkeeps⟩, fun hn => absurd trivial hn⟩

/-- The runs in which the loop finds the entries for its writes. -/
abbrev DirtyRun.Orderly (s : DirtyRun) : Prop := dirtySystem.ReachableIf DirtyRun.Granted s

theorem DirtyRun.Orderly.good (h : s.Orderly) : ∃ l, s.Good l := by
  refine h.invariant (I := fun s => ∃ l, s.Good l) (fun s hs => ?_) fun s c s' hI hC hs => ?_
  · obtain ⟨cfg, rfl⟩ := hs
    refine ⟨[], ⟨Queue.holds_empty, fun i => ?_, fun i hi => ?_, fun i hi => ?_⟩, ?_, ?_, ?_⟩
    · exact iff_of_false List.not_mem_nil Bool.false_ne_true
    · exact absurd hi List.not_mem_nil
    · exact absurd hi List.not_mem_nil
    · exact List.nodup_nil
    · exact fun i => List.not_mem_nil
    · intro conn prev last hpc
      cases hpc
  · obtain ⟨l, hl⟩ := hI
    exact (good_step hl hs).1 hC

/-- **Integrity of the dirty list.** Along every run whose loops find the entries for their writes,
the list is in order, no loop visits a connection twice or reads a write buffer that was freed; and
the first write that is refused breaks this. -/
theorem dirty_lawful_iff (h : s.Orderly) :
    s.Lawful ∧ ∀ c s', dirtySystem.step s c = some s' → (s'.Lawful ↔ s.Granted c) := by
  obtain ⟨l, hl⟩ := h.good
  refine ⟨hl.lawful, fun c s' hs => ⟨fun hlawful => ?_, fun hg => ?_⟩⟩
  · by_contra hn
    exact (good_step hl hs).2 hn hlawful
  · obtain ⟨l', hl'⟩ := (good_step hl hs).1 hg
    exact hl'.lawful

/-! ### Where it breaks -/

/-- A connection with the headers of its response waiting. -/
def sendingConn : Connection :=
  { Connection.initial with
    state := .streaming
    asyncWriteBuf := some (headersBuffer 0) }

/-- A daemon with this connection, and a submission queue that is full. -/
def crowded : Daemon :=
  { Daemon.boot curlConfig with
    connections := Function.update (fun _ => Connection.initial) 0 sendingConn
    sq := List.replicate defaultRingSize ⟨.accept, 0, 0⟩ }

/-- Everything is granted, but `io_uring_submit` takes no entry. -/
def Env.stuck : Env := { Env.willing with consumed := fun _ => 0 }

/-- The connection is allocated, marked, and the loop begins. -/
theorem exists_crowded : ∃ s : DirtyRun, s.Orderly ∧ s.daemon.pc = .flush (some 0) none true ∧
    (s.daemon.connections 0).Sends ∧ ¬ s.daemon.HasRoomForTwo 0 := by
  have hinit : DirtyRun.Orderly ⟨Daemon.boot curlConfig, []⟩ := .init ⟨curlConfig, rfl⟩
  have hkeeps : (Daemon.boot curlConfig).KeepsDirty crowded := by
    intro i _
    refine ⟨?_, fun hmark => Bool.noConfusion hmark⟩
    by_cases hi : i = 0
    · subst hi
      rfl
    · have hsame : crowded.connections i = Connection.initial := by simp [crowded, hi]
      rw [hsame]
      rfl
  have hother : dirtySystem.step ⟨Daemon.boot curlConfig, []⟩ (.other crowded) =
      some ⟨crowded.withDirty (Daemon.boot curlConfig), []⟩ := by
    simp only [dirtySystem, DirtyRun.step]
    rw [if_pos hkeeps]
  obtain ⟨s, hmark, hpc, hhead, hstate, hwb, hsq, hcfg⟩ : ∃ s : DirtyRun,
      dirtySystem.step ⟨crowded.withDirty (Daemon.boot curlConfig), []⟩ (.mark 0 .stuck) = some s ∧
        s.daemon.pc = .wait ∧ s.daemon.dirty.head = some 0 ∧
        (s.daemon.connections 0).state = .streaming ∧
        (s.daemon.connections 0).asyncWriteBuf = some (headersBuffer 0) ∧
        s.daemon.sq = crowded.sq ∧ s.daemon.cfg = curlConfig :=
    ⟨_, rfl, rfl, rfl, rfl, rfl, rfl, rfl⟩
  have hout : ¬ s.daemon.pc.flushing = true := by
    rw [hpc]
    exact Bool.false_ne_true
  have hbegin : dirtySystem.step s (.flushBegin true) =
      some ⟨{ s.daemon with pc := .flush s.daemon.dirty.head none true }, []⟩ := by
    simp only [dirtySystem, DirtyRun.step]
    rw [if_pos hout]
  have hdata := hasData_headersBuffer 0
  have hallocated := hinit.step (a := DirtyCall.other crowded) trivial hother
  have hmarked := hallocated.step (a := DirtyCall.mark 0 .stuck) trivial hmark
  have hbegun := hmarked.step (a := DirtyCall.flushBegin true) trivial hbegin
  refine ⟨_, hbegun, by rw [hhead], ⟨.inl hstate, _, hwb, hdata, rfl⟩, ?_⟩
  have hlength : s.daemon.sq.length = s.daemon.cfg.entries := by
    rw [hsq, hcfg]
    exact List.length_replicate
  simp [Daemon.HasRoomForTwo, Daemon.flushed, Daemon.submit, hlength]

/-- A daemon with two connections that have the headers of their responses waiting. -/
def twoSending : Daemon :=
  { Daemon.boot curlConfig with
    connections := fun i =>
      if i < 2 then { sendingConn with asyncWriteBuf := some (headersBuffer i) }
      else Connection.initial }

/-- Both have been marked, and a loop of `flush_streaming_connections` begins. -/
def twoMarked : Daemon :=
  let marked := ((twoSending.withDirty (Daemon.boot curlConfig)).exec
    (daemonMarkConnectionDirty 0) .willing).exec (daemonMarkConnectionDirty 1) .willing
  { marked with pc := .flush marked.dirty.head none true }

/-- It has visited the first one. -/
def firstVisited : Daemon := twoMarked.exec (flushConnection 0 none true) .willing

/-- It has visited both. -/
def bothVisited : Daemon := firstVisited.exec (flushConnection 1 (some 0) true) .willing

/-- The loop ends: it has visited each connection once. -/
theorem dirty_lawful_iff_two : ∃ s : DirtyRun, s.Orderly ∧ s.visited = [0, 1] ∧
    s.daemon.pc = .events ∧ s.Lawful := by
  have hinit : DirtyRun.Orderly ⟨Daemon.boot curlConfig, []⟩ := .init ⟨curlConfig, rfl⟩
  have hkeeps : (Daemon.boot curlConfig).KeepsDirty twoSending := by
    intro i _
    refine ⟨?_, fun hmark => Bool.noConfusion hmark⟩
    rw [twoSending]
    dsimp only
    split <;> rfl
  have hother : dirtySystem.step ⟨Daemon.boot curlConfig, []⟩ (.other twoSending) =
      some ⟨twoSending.withDirty (Daemon.boot curlConfig), []⟩ := by
    simp only [dirtySystem, DirtyRun.step]
    rw [if_pos hkeeps]
  have hallocated := hinit.step (a := DirtyCall.other twoSending) trivial hother
  have hbegun : DirtyRun.Orderly ⟨twoMarked, []⟩ :=
    ((hallocated.step (a := DirtyCall.mark 0 .willing) trivial rfl).step
      (a := DirtyCall.mark 1 .willing) trivial rfl).step (a := .flushBegin true) trivial rfl
  have hpc : twoMarked.pc = .flush (some 0) none true := by decide +kernel
  have hpc₁ : firstVisited.pc = .flush (some 1) (some 0) true := by decide +kernel
  have hpc₂ : bothVisited.pc = .flush none (some 1) true := by decide +kernel
  have hroom : twoMarked.HasRoomForTwo (Env.willing.consumed 0) := by decide +kernel
  have hroom₁ : firstVisited.HasRoomForTwo (Env.willing.consumed 0) := by decide +kernel
  have hgranted : DirtyRun.Granted ⟨twoMarked, []⟩ (.flushNext .willing) := by
    intro i prev last _ _
    exact hroom
  have hgranted₁ : DirtyRun.Granted ⟨firstVisited, [0]⟩ (.flushNext .willing) := by
    intro i prev last _ _
    dsimp only
    exact hroom₁
  have hfirst : DirtyRun.Orderly ⟨firstVisited, [0]⟩ :=
    hbegun.step (a := .flushNext .willing) hgranted
      (by simp only [dirtySystem, DirtyRun.step, hpc, List.nil_append, firstVisited])
  have hsecond : DirtyRun.Orderly ⟨bothVisited, [0, 1]⟩ :=
    hfirst.step (a := .flushNext .willing) hgranted₁
      (by simp only [dirtySystem, DirtyRun.step, hpc₁, List.singleton_append, bothVisited])
  have hended : DirtyRun.Orderly ⟨{ bothVisited with pc := .events }, [0, 1]⟩ :=
    hsecond.step (a := .flushEnd) trivial (by simp only [dirtySystem, DirtyRun.step, hpc₂])
  exact ⟨_, hended, rfl, rfl, (dirty_lawful_iff hended).1⟩

/-- **The loop can read a buffer that is gone**: the write finds no entry, the connection is cleaned
up in the middle of the loop, and the loop reads its write buffer. -/
theorem dirty_reads_freed : ∃ s : DirtyRun, dirtySystem.Reachable s ∧
    .readFreed 0 ∈ s.daemon.trace ∧ ¬ s.Lawful := by
  obtain ⟨s, hs, hpc, hsends, hroom⟩ := exists_crowded
  have hread := flushConnection_refused (ω := .stuck) none true hsends hroom
  have hstep : dirtySystem.step s (.flushNext .stuck) =
      some ⟨s.daemon.exec (flushConnection 0 none true) .stuck, s.visited ++ [0]⟩ := by
    simp only [dirtySystem, DirtyRun.step, hpc]
  exact ⟨_, (hs.mono fun _ _ _ => trivial).step trivial hstep, hread, fun h => h.alive 0 hread⟩

end SocketHandoff.Uring
