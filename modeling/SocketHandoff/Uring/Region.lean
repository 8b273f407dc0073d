import SocketHandoff.Uring.Isolation
import SocketHandoff.Uring.CoreSteps
import SocketHandoff.Uring.Stalled

/-!
# What a write in flight reads

In curl mode a write is handed a region of the write buffer of its connection, and the kernel may
read it at any time until the write is done. Meanwhile response data is appended to the buffer,
which may make it grow. In a clean run the region stays in its block, and its bytes are those that
were handed over, until the completion of the write is handled.
-/

namespace SocketHandoff.Uring

variable {V V' : View} {i j : ConnId} {v v' : Slot} {c c' c'' : Connection} {cfg : Config}
  {s s' : Daemon} {a : Label} {wb wb' : WriteBuffer} {rest : List Cqe}

/-! ## Regions -/

/-- The connection owns block `b`, and from `offset` on it holds these bytes. -/
def Connection.Region (c : Connection) (b : Block) (offset : Nat) (data : List UInt8) : Prop :=
  ∃ wb, c.asyncWriteBuf = some wb ∧ wb.buffer = b ∧ wb.writePending = true ∧
    (wb.bytes.drop offset).take data.length = data

/-- A write buffer with a write in flight stays, and so do its bytes. -/
def Connection.Keeps (c c' : Connection) : Prop :=
  ∀ wb, c.asyncWriteBuf = some wb → wb.writePending = true →
    ∃ wb', c'.asyncWriteBuf = some wb' ∧ wb'.buffer = wb.buffer ∧ wb'.writePending = true ∧
      wb.bytes <+: wb'.bytes

theorem Connection.Keeps.of_eq (h : c'.asyncWriteBuf = c.asyncWriteBuf) : c.Keeps c' :=
  fun wb hwb hp => ⟨wb, h.trans hwb, rfl, hp, List.prefix_refl _⟩

theorem Connection.Keeps.trans (h : c.Keeps c') (h' : c'.Keeps c'') : c.Keeps c'' := by
  intro wb hwb hp
  obtain ⟨wb', hwb', hb', hp', hl'⟩ := h wb hwb hp
  obtain ⟨wb'', hwb'', hb'', hp'', hl''⟩ := h' wb' hwb' hp'
  exact ⟨wb'', hwb'', hb''.trans hb', hp'', hl'.trans hl''⟩

/-- Bytes that lie in a prefix of a list lie in the list. -/
theorem region_of_prefix {l l' data : List UInt8} {n : Nat} (h : l <+: l')
    (hd : (l.drop n).take data.length = data) : (l'.drop n).take data.length = data := by
  obtain ⟨t, rfl⟩ := h
  have hlen : data.length ≤ (l.drop n).length := by
    rw [← hd, List.length_take]
    exact Nat.min_le_right _ _
  by_cases hn : n ≤ l.length
  · rw [List.drop_append_of_le_length hn, List.take_append_of_le_length hlen, hd]
  · have hnil : data = [] := by
      rw [List.drop_eq_nil_of_le (Nat.le_of_not_le hn), List.length_nil] at hlen
      exact List.eq_nil_of_length_eq_zero (Nat.le_zero.mp hlen)
    simp [hnil]

/-- What is kept of a write buffer is the region of its write. -/
theorem Connection.Region.keeps {b : Block} {offset : Nat} {data : List UInt8}
    (h : c.Region b offset data) (hk : c.Keeps c') : c'.Region b offset data := by
  obtain ⟨wb, hwb, hb, hp, hd⟩ := h
  obtain ⟨wb', hwb', hb', hp', hl⟩ := hk wb hwb hp
  exact ⟨wb', hwb', hb'.trans hb, hp', region_of_prefix hl hd⟩

/-- An append that does not move the buffer keeps it. -/
theorem Connection.Keeps.appended {data : List UInt8} {block : Option Block}
    {r : WriteBuffer.Appended} (hwb : c.asyncWriteBuf = some wb)
    (ha : wb.append data block = (r, wb'))
    (hkeep : wb.writePending = true → wb'.buffer = wb.buffer)
    (hc : c'.asyncWriteBuf = some wb') : c.Keeps c' := by
  intro wb₁ hwb₁ hp
  obtain rfl := Option.some.inj (hwb.symm.trans hwb₁)
  obtain ⟨-, hl⟩ := WriteBuffer.append_inFlight ha hp
  exact ⟨wb', hc, hkeep hp, (WriteBuffer.append_pending ha).trans hp, hl⟩

/-! ## Busy slots -/

/-- A write of the slot is queued, in flight, or done and not yet handled. -/
def Slot.Busy (v : Slot) : Prop :=
  (∃ r ∈ v.ops, r.request.op = .write) ∨ ∃ cqe ∈ v.comps, cqe.op = .write

/-- A step that leaves the slot as busy as it was, with its write buffer. What it appends to the
buffer does not matter: the region of the write lies before it. -/
structure Slot.Calm (v v' : Slot) : Prop where
  ops : v'.ops = v.ops
  comps : v'.comps = v.comps
  conn : v.conn.Keeps v'.conn

theorem Slot.Calm.refl (v : Slot) : v.Calm v := ⟨rfl, rfl, .of_eq rfl⟩

theorem Slot.Calm.busy (h : v.Calm v') (hb : v.Busy) : v'.Busy := by
  rwa [Slot.Busy, h.ops, h.comps]

theorem Slot.Idle.not_busy (h : v.Idle) : ¬ v.Busy := by
  rintro (⟨r, hr, -⟩ | ⟨cqe, hc, -⟩)
  · rw [h.ops] at hr
    cases hr
  · rw [h.comps] at hc
    cases hc

theorem Slot.Received.not_busy (h : v.Sound cfg i) (hv : v.Received rest) : ¬ v.Busy := by
  obtain ⟨-, cqe, hc, hop⟩ := hv
  obtain ⟨hh, -⟩ := h.of_comps hc
  rintro (⟨r, hr, -⟩ | ⟨d, hd, hdop⟩)
  · rw [hh.ops] at hr
    cases hr
  · rw [hh.comps] at hd
    obtain rfl := List.mem_singleton.mp hd
    rw [hop] at hdop
    cases hdop

/-- The last completion of a slot has been taken. -/
def Slot.Taken (v v' : Slot) : Prop := v.comps ≠ [] ∧ v'.comps = []

theorem Slot.Sound.taken_of_comps (h : v.Sound cfg i) {cqe : Cqe} (hc : v.comps = cqe :: rest)
    (hv : v'.comps = rest) : v.Taken v' := by
  obtain ⟨-, rfl⟩ := h.of_comps hc
  exact ⟨by rw [hc]; exact List.cons_ne_nil _ _, hv⟩

/-! ## One effect -/

theorem View.calm_set (h : j = i → (V.slots i).Calm v') : (V.slots j).Calm ((V.set i v').slots j) := by
  by_cases hj : j = i
  · subst hj
    rw [View.set_slots_self]
    exact h rfl
  · rw [View.set_slots_of_ne _ _ hj]
    exact .refl _

theorem View.calm_cleanup (hj : j ≠ i) : (V.slots j).Calm (((V.set i v').cleanup i).slots j) := by
  obtain ⟨reqs, e, h⟩ := View.cleanup_slots (V := V.set i v') i j
  rw [if_neg hj, View.set_slots_of_ne _ _ hj] at h
  rw [h]
  exact ⟨rfl, rfl, .of_eq rfl⟩

/-- What a handler that gives up does to a busy slot. -/
theorem GiveUp.calm (hg : GiveUp V i v' V') (hc : V'.Clean) (hne : j ≠ i) :
    (V.slots j).Calm (V'.slots j) := by
  rw [hg.of_clean hc]
  exact View.calm_cleanup hne

theorem GiveUp.comps (hg : GiveUp V i v' V') (hc : V'.Clean) : (V'.slots i).comps = v'.comps := by
  obtain ⟨reqs, e, h⟩ := View.cleanup_slots (V := V.set i v') i i
  rw [if_pos rfl, View.set_slots_self] at h
  rw [hg.of_clean hc, h]

/-- In a clean run an append does not move a buffer with a write in flight. -/
theorem View.Clean.kept (hc : (V.appended i wb wb').Clean) (hp : wb.writePending = true) :
    wb'.buffer = wb.buffer := by
  by_contra hne
  have hmem : Event.moved i ∈ (V.appended i wb wb').trace := by
    simp [View.appended, View.noteMoved, hp, hne]
  cases hc _ hmem

theorem View.calm_appended {data : List UInt8} {block : Option Block} {r : WriteBuffer.Appended}
    (hwb : (V.slots i).conn.asyncWriteBuf = some wb) (ha : wb.append data block = (r, wb'))
    (hc : (V.appended i wb wb').Clean) : (V.slots j).Calm ((V.appended i wb wb').slots j) :=
  View.calm_set fun _ => ⟨rfl, rfl, .appended hwb ha hc.kept rfl⟩

theorem View.calm_mark : (V.slots j).Calm ((V.mark i).slots j) :=
  View.calm_set fun _ => ⟨rfl, rfl, .of_eq rfl⟩

theorem Slot.Calm.trans {v'' : Slot} (h : v.Calm v') (h' : v'.Calm v'') : v.Calm v'' :=
  ⟨h'.ops.trans h.ops, h'.comps.trans h.comps, h.conn.trans h'.conn⟩

/-! ### Completions are only taken -/

theorem View.comps_set (h : v'.comps <:+ (V.slots i).comps) :
    ((V.set i v').slots j).comps <:+ (V.slots j).comps := by
  by_cases hj : j = i
  · subst hj
    rwa [View.set_slots_self]
  · simp [View.set_slots_of_ne _ _ hj]

theorem View.comps_cleanup (h : v'.comps <:+ (V.slots i).comps) :
    (((V.set i v').cleanup i).slots j).comps <:+ (V.slots j).comps := by
  have hset : ((V.set i v').slots j).comps <:+ (V.slots j).comps := View.comps_set h
  obtain ⟨reqs, e, hj⟩ := View.cleanup_slots (V := V.set i v') i j
  rw [hj]
  by_cases hji : j = i
  · subst hji
    rw [if_pos rfl]
    exact hset
  · rw [if_neg hji]
    exact hset

theorem GiveUp.comps_suffix (hg : GiveUp V i v' V') (h : v'.comps <:+ (V.slots i).comps) :
    (V'.slots j).comps <:+ (V.slots j).comps := by
  cases hg with
  | cleanup => exact View.comps_cleanup h
  | strand buf len => exact View.comps_cleanup (V := V.note (.stranded i)) h

theorem Slot.Received.suffix (h : v.Received rest) : rest <:+ v.comps := by
  obtain ⟨-, cqe, hc, -⟩ := h
  rw [hc]
  exact List.suffix_cons cqe rest

theorem Slot.Written.suffix (h : v.Written rest) : rest <:+ v.comps := by
  obtain ⟨-, cqe, hc, -⟩ := h
  rw [hc]
  exact List.suffix_cons cqe rest

/-- No effect adds a completion. -/
theorem Effect.comps (he : Effect V V') : (V'.slots j).comps <:+ (V.slots j).comps := by
  cases he with
  | went | parsed | requestChanged => exact List.suffix_refl _
  | @accepted i => exact View.comps_set (V := V.popFree i) (List.suffix_refl _)
  | @acceptRefused i => exact View.comps_cleanup (V := V.popFree i) (List.suffix_refl _)
  | ignored hc => exact View.comps_set (by rw [hc]; exact List.suffix_cons ..)
  | recvGaveUp hv hg => exact hg.comps_suffix hv.suffix
  | @curlStarted rest c' req _ hv =>
    have hset : ((V.set req.conn { V.slots req.conn with conn := c', comps := rest }).slots j).comps
        <:+ (V.slots j).comps := View.comps_set hv.suffix
    exact List.IsSuffix.trans (View.comps_set (List.suffix_refl _)) hset
  | poolQueued _ hv | streamStarted _ _ hv => exact View.comps_set hv.suffix
  | written _ _ hv => exact View.comps_set hv.suffix
  | writtenGaveUp hv hg => exact hg.comps_suffix hv.suffix
  | nextQueued _ hv => exact View.comps_set hv.suffix
  | asyncGaveUp _ _ _ hg | fetchedGaveUp _ _ hg => exact hg.comps_suffix (List.suffix_refl _)
  | asyncQueued | fetchedIgnored | fetchedStreaming | bufferMade | lineChanged | appendFailed =>
    exact View.comps_set (List.suffix_refl _)
  | @dataAppended i req wb wb' =>
    have happ : ((V.appended i wb wb').slots j).comps <:+ (V.slots j).comps :=
      View.comps_set (List.suffix_refl _)
    exact List.IsSuffix.trans (View.comps_set (List.suffix_refl _)) happ
  | @headersAppended i req wb wb' =>
    have happ : ((V.appended i wb wb').slots j).comps <:+ (V.slots j).comps :=
      View.comps_set (List.suffix_refl _)
    have hmark : (((V.appended i wb wb').mark i).slots j).comps <:+ (V.slots j).comps :=
      List.IsSuffix.trans (View.comps_set (List.suffix_refl _)) happ
    exact List.IsSuffix.trans (View.comps_set (List.suffix_refl _)) hmark

/-! ### Busy slots are left alone -/

/-- **An effect on a busy slot** keeps its write buffer, unless it takes its completion. -/
theorem Effect.calm (h : V.Sound) (hb : V.Base) (hm : V.cfg.mode = .curlMulti)
    (he : Effect V V') (hc : V'.Clean) (hbusy : (V.slots j).Busy) :
    (V.slots j).Calm (V'.slots j) ∨ (V.slots j).Taken (V'.slots j) := by
  have hidle : (V.slots j).Idle → False := fun hi => hi.not_busy hbusy
  have hreceived : ∀ {rest}, (V.slots j).Received rest → False :=
    fun hv => hv.not_busy (h j) hbusy
  have hdone : 0 < (V.slots j).done → False := by
    intro hd
    have hm' := ((h j).of_done hd).2.1
    rw [hm] at hm'
    cases hm'
  have hfree : ∀ {i}, V.freeList = some i → j ≠ i := by
    rintro i hf rfl
    exact hidle ((h j).of_unused (hb.held_popFree hf).2)
  have hpending : ∀ {i wb}, (V.slots i).conn.asyncWriteBuf = some wb → wb.writePending = false →
      j ≠ i := by
    rintro i wb hwb hp rfl
    exact hidle ((h j).of_buffer (hb.slots j) hwb hp)
  cases he with
  | went | parsed => exact .inl (.refl _)
  | requestChanged => exact .inl ⟨rfl, rfl, .of_eq rfl⟩
  | @accepted i b fd hf =>
    exact .inl (View.calm_set (V := V.popFree i) fun hj => absurd hj (hfree hf))
  | @acceptRefused i b fd hf => exact .inl (View.calm_cleanup (V := V.popFree i) (hfree hf))
  | @ignored i cqe rest hcomps hi =>
    by_cases hj : j = i
    · subst hj
      refine .inr ((h j).taken_of_comps hcomps ?_)
      rw [View.set_slots_self]
    · exact .inl (View.calm_set fun hj' => absurd hj' hj)
  | @recvGaveUp _ i rest c' hv hg hk =>
    refine .inl (hg.calm hc ?_)
    rintro rfl
    exact hreceived hv
  | @curlStarted rest c' req _ hv =>
    have hj : j ≠ req.conn := by
      rintro rfl
      exact hreceived hv
    have hset : (V.slots j).Calm
        ((V.set req.conn { V.slots req.conn with conn := c', comps := rest }).slots j) :=
      View.calm_set fun hj' => absurd hj' hj
    exact .inl (hset.trans (View.calm_set fun hj' => absurd hj' hj))
  | poolQueued _ hv | streamStarted _ _ hv =>
    refine .inl (View.calm_set ?_)
    rintro rfl
    exact (hreceived hv).elim
  | @written i rest wb n bytesSent hv =>
    by_cases hj : j = i
    · subst hj
      obtain ⟨-, cqe, hcomps, -⟩ := hv
      refine .inr ((h j).taken_of_comps hcomps ?_)
      rw [View.set_slots_self]
    · exact .inl (View.calm_set fun hj' => absurd hj' hj)
  | @writtenGaveUp _ i rest c' hv hg =>
    by_cases hj : j = i
    · subst hj
      obtain ⟨-, cqe, hcomps, -⟩ := hv
      exact .inr ((h j).taken_of_comps hcomps (hg.comps hc))
    · exact .inl (hg.calm hc hj)
  | @nextQueued i rest c' buf len hv =>
    by_cases hj : j = i
    · subst hj
      obtain ⟨-, cqe, hcomps, -⟩ := hv
      refine .inr ((h j).taken_of_comps hcomps ?_)
      rw [View.set_slots_self]
      rfl
    · exact .inl (View.calm_set fun hj' => absurd hj' hj)
  | asyncQueued ts hwb hd hp => exact .inl (View.calm_set fun hj => absurd hj (hpending hwb hp))
  | asyncGaveUp hwb hd hp hg => exact .inl (hg.calm hc (hpending hwb hp))
  | fetchedIgnored hd | fetchedStreaming _ hd =>
    refine .inl (View.calm_set ?_)
    rintro rfl
    exact (hdone hd).elim
  | fetchedGaveUp hd _ hg =>
    refine .inl (hg.calm hc ?_)
    rintro rfl
    exact hdone hd
  | bufferMade b hr hwb =>
    refine .inl (View.calm_set ?_)
    rintro rfl
    exact (hidle ((h j).of_request (hb.slots j) hr hwb)).elim
  | appendFailed hwb ha =>
    obtain ⟨data, block, -, ha⟩ := ha
    exact .inl (View.calm_appended hwb ha hc)
  | dataAppended _ _ hwb ha =>
    obtain ⟨data, block, -, ha⟩ := ha
    exact .inl ((View.calm_appended hwb ha hc).trans View.calm_mark)
  | @headersAppended i req wb wb' _ hwb ha =>
    obtain ⟨data, block, -, ha⟩ := ha
    have hmark : (V.slots j).Calm (((V.appended i wb wb').mark i).slots j) :=
      (View.calm_appended hwb ha hc).trans View.calm_mark
    have hsent : (V.slots j).Calm ((((V.appended i wb wb').mark i).updateRequest req.easy
        fun req => { req with headersSent := true }).slots j) := hmark.trans ⟨rfl, rfl, .of_eq rfl⟩
    exact .inl (hsent.trans (View.calm_set fun _ => ⟨rfl, rfl, .of_eq rfl⟩))
  | lineChanged line => exact .inl (View.calm_set fun _ => ⟨rfl, rfl, .of_eq rfl⟩)

/-- A chain of effects that does not take its completion. -/
theorem effects_calm (h : V.Sound) (hb : V.Base) (hm : V.cfg.mode = .curlMulti)
    (he : Effects V V') (hc : V'.Clean) (hbusy : (V.slots j).Busy)
    (hcomps : (V'.slots j).comps = (V.slots j).comps) : (V.slots j).Calm (V'.slots j) := by
  have hchain : (V.slots j).Calm (V'.slots j) ∨ (V.slots j).Taken (V'.slots j) := by
    clear hcomps
    induction he with
    | refl => exact .inl (.refl _)
    | @tail W W' hes he ih =>
      have hcW : W.Clean := hc.of_start he.trace
      rcases ih hcW with hcalm | ⟨hne, hnil⟩
      · have hcfg : W.cfg = V.cfg := effects_cfg hes
        rcases he.calm (h.effects hb hes hcW) (hb.effects hes) (hcfg ▸ hm) hc
          (hcalm.busy hbusy) with hcalm' | ⟨hne, hnil⟩
        · exact .inl (hcalm.trans hcalm')
        · exact .inr ⟨hcalm.comps ▸ hne, hnil⟩
      · exact .inr ⟨hne, List.suffix_nil.mp (hnil ▸ he.comps)⟩
  rcases hchain with hcalm | ⟨hne, hnil⟩
  · exact hcalm
  · exact absurd (hcomps.symm.trans hnil) hne

/-! ## One step -/

/-- The step handles the completion of a write of the slot. -/
def Handles (i : ConnId) (s : Daemon) (a : Label) : Prop :=
  ∃ ω cqe rest, a = .event ω ∧ s.pc = .events ∧ s.cq = cqe :: rest ∧ cqe.op = .write ∧
    cqe.connId = i

/-- The completions of a busy slot stay, unless the one of its write is handled. -/
theorem Slot.Sound.comps_pop {cqe : Cqe} (h : (s.slot j).Sound s.cfg j) (hbusy : (s.slot j).Busy)
    (hcq : s.cq = cqe :: rest) (hh : ¬ (cqe.op = .write ∧ cqe.connId = j)) :
    (rest.filter fun d => d.slot? = some j) = (s.slot j).comps := by
  by_cases hslot : cqe.slot? = some j
  · have hcomps : (s.slot j).comps = cqe :: rest.filter fun d => d.slot? = some j := by
      simp [Daemon.slot, hcq, hslot]
    obtain ⟨hv, -⟩ := h.of_comps hcomps
    have hid : cqe.connId = j := by
      simp only [Cqe.slot?] at hslot
      split at hslot <;> simp_all
    rcases hbusy with ⟨r, hr, -⟩ | ⟨d, hd, hop⟩
    · rw [hv.ops] at hr
      cases hr
    · rw [hv.comps] at hd
      obtain rfl := List.mem_singleton.mp hd
      exact absurd ⟨hop, hid⟩ hh
  · simp [Daemon.slot, hcq, hslot]

/-- The main loop takes no other completion of a busy slot. -/
theorem comps_loop (h : (s.slot j).Sound s.cfg j) (hbusy : (s.slot j).Busy)
    (hl : Looped s a s'.core) (hh : ¬ Handles j s a) : (s'.slot j).comps = (s.slot j).comps := by
  have hof : ∀ {cq : List Cqe}, s'.cq = cq →
      (s'.slot j).comps = cq.filter fun d => d.slot? = some j := by
    rintro cq rfl
    rfl
  have hpop : ∀ {ω cqe rest}, a = .event ω → s.pc = .events → s.cq = cqe :: rest →
      s'.cq = rest → (s'.slot j).comps = (s.slot j).comps := by
    intro ω cqe rest ha hpc hcq hrest
    rw [hof hrest]
    refine h.comps_pop hbusy hcq fun hw => hh ?_
    exact ⟨ω, cqe, rest, ha, hpc, hcq, hw.1, hw.2⟩
  generalize hc : s'.core = c' at hl
  have hcq' : s'.cq = c'.cq := congrArg Core.cq hc
  cases hl with
  | called _ hcalled | fetched _ _ hcalled => exact hof (hcq'.trans hcalled.cq)
  | taken hpc hcq _ _ _ hcalled | received hpc hcq _ hcalled | accepted hpc hcq _ hcalled =>
    exact hpop rfl hpc hcq (hcq'.trans hcalled.cq)
  | awoken hpc hcq => exact hpop rfl hpc hcq hcq'
  | rearmed => exact hof hcq'

/-- What happens outside the main loop leaves a busy slot busy, with its write buffer. -/
theorem Outside.calm (h : V.Sound) (hm : V.cfg.mode = .curlMulti) (ho : Outside V V')
    (hbusy : (V.slots j).Busy) : (V.slots j).conn.Keeps (V'.slots j).conn ∧ (V'.slots j).Busy := by
  have hset : ∀ {W : View} {i v'}, W.slots = V.slots →
      (j = i → (V.slots i).conn.Keeps v'.conn ∧ v'.Busy) →
      (V.slots j).conn.Keeps ((W.set i v').slots j).conn ∧ ((W.set i v').slots j).Busy := by
    intro W i v' hW hv
    by_cases hj : j = i
    · subst hj
      rw [View.set_slots_self]
      exact hv rfl
    · rw [View.set_slots_of_ne _ _ hj, hW]
      exact ⟨.of_eq rfl, hbusy⟩
  have hrecv : ∀ {r : Sqe}, r ∈ (V.slots j).ops → r.request.op = .recvFd → False := by
    intro r hr hop
    rcases (h j).of_op hr with ⟨-, hv, -⟩ | ⟨buf, len, ts, rfl | ⟨-, rfl⟩, -⟩
    · rcases hbusy with ⟨t, ht, htop⟩ | ⟨cqe, hc, -⟩
      · rw [hv.ops] at ht
        obtain rfl := List.mem_singleton.mp ht
        cases htop
      · rw [hv.comps] at hc
        cases hc
    · cases hop
    · cases hop
  cases ho with
  | same => exact ⟨.of_eq rfl, hbusy⟩
  | @received i r fd base len m hr hi hreq =>
    refine hset (W := V.note (.received i m)) rfl ?_
    rintro rfl
    exact (hrecv hr (by simp [hreq, Request.op])).elim
  | @finished i r res hr hi hop =>
    refine hset rfl ?_
    rintro rfl
    rcases hop with ⟨hop, -⟩ | hop
    · exact (hrecv hr hop).elim
    · -- the timeout of the write ends by itself
      refine ⟨.of_eq rfl, ?_⟩
      rcases hbusy with ⟨w, hw, hwop⟩ | ⟨cqe, hc, hcop⟩
      · have hne : w ≠ r := by
          rintro rfl
          rw [hop] at hwop
          cases hwop
        exact .inl ⟨w, (List.mem_erase_of_ne hne).mpr hw, hwop⟩
      · exact .inr ⟨cqe, List.mem_append_left _ hc, hcop⟩
  | @wrote i w res hw hop =>
    refine hset rfl fun _ => ⟨.of_eq rfl, .inr ⟨w.cqe res false, ?_, hop⟩⟩
    exact List.mem_append_right _ (List.mem_singleton.mpr rfl)
  | @processed i c' hq =>
    refine hset rfl ?_
    rintro rfl
    have hm' := ((h j).of_queued hq).2.1
    rw [hm] at hm'
    cases hm'

theorem View.calm_unlink (prev next : Option ConnId) (i : ConnId) :
    (V.slots j).Calm ((V.unlink prev i next).slots j) :=
  View.calm_set fun _ => ⟨rfl, rfl, .of_eq rfl⟩

/-- A round of the loop over the dirty list. -/
theorem Flushed.calm {prev : Option ConnId} {last : Bool} (h : V.Sound) (hb : V.Base)
    (hm : V.cfg.mode = .curlMulti) (hf : Flushed V i prev last V') (hc : V'.Clean)
    (hbusy : (V.slots j).Busy) (hcomps : (V'.slots j).comps = (V.slots j).comps) :
    (V.slots j).Calm (V'.slots j) := by
  cases hf with
  | passed => exact .refl _
  | @queued W wb _ _ _ he =>
    have hcalm : (V.slots j).Calm (W.slots j) := effects_calm h hb hm he hc hbusy hcomps
    exact hcalm
  | dropped => exact View.calm_unlink prev (V.dirty.next i) i
  | @gaveUp W _ wb hwb hd hp hg hV =>
    have hj : j ≠ i := by
      rintro rfl
      exact ((h j).of_buffer (hb.slots j) hwb hp).not_busy hbusy
    have hWc : W.Clean := by
      rcases hV with rfl | rfl
      · exact hc.of_start (List.prefix_append W.trace _)
      · exact hc.of_start (List.prefix_append W.trace _)
    have hW : (V.slots j).Calm ((W.note (.readFreed i)).slots j) := hg.calm hWc hj
    rcases hV with rfl | rfl
    · exact hW
    · exact hW.trans (View.calm_unlink prev (V.dirty.next i) i)

/-- The message of a transfer that has come to its end. -/
theorem Ended.calm {good : Bool} (he : Ended V i good V') (hc : V'.Clean) :
    (V.slots j).Calm (V'.slots j) := by
  have hclose : ∀ {W : View}, (W.slots j).Calm ((W.close i).slots j) :=
    View.calm_set fun _ => ⟨rfl, rfl, .of_eq rfl⟩
  cases he with
  | silent => exact hclose
  | refused hwb ha => exact (View.calm_appended hwb ha hc).trans hclose
  | marked hwb ha => exact ((View.calm_appended hwb ha hc).trans View.calm_mark).trans hclose

/-- **A step leaves a busy slot busy, with its write buffer**, unless it handles the completion of
its write. -/
theorem keeps_step (h : s.view.Sound) (hb : s.view.Base) (hm : s.cfg.mode = .curlMulti)
    (hstep : step s a = some s') (hc : s'.view.Clean) (hh : ¬ Handles j s a)
    (hbusy : (s.slot j).Busy) :
    (s.slot j).conn.Keeps (s'.slot j).conn ∧ (s'.slot j).Busy := by
  have hloop : loopStep s a = some s' →
      (s.slot j).conn.Keeps (s'.slot j).conn ∧ (s'.slot j).Busy := by
    intro hstep
    have hcomps : (s'.view.slots j).comps = (s.slot j).comps :=
      comps_loop (h j) hbusy (looped_loop hstep) hh
    have hstepped := stepped_loop hstep
    have hof : (s.view.slots j).Calm (s'.view.slots j) →
        (s.slot j).conn.Keeps (s'.slot j).conn ∧ (s'.slot j).Busy :=
      fun hcalm => ⟨hcalm.conn, hcalm.busy hbusy⟩
    generalize hV : s'.view = V' at *
    cases hstepped with
    | outside ho =>
      have := Outside.calm h hm ho hbusy
      rw [← hV] at this
      exact this
    | effects _ he => exact hof (effects_calm h hb hm he hc hbusy hcomps)
    | goto | flushing => exact hof (.refl _)
    | flushed _ hf => exact hof (hf.calm h hb hm hc hbusy hcomps)
    | @ended ω easy req done _ _ _ _ he =>
      have hremoved : (s.view.slots j).Calm ((s.view.removeRequest req.easy).slots j) :=
        ⟨rfl, rfl, .of_eq rfl⟩
      exact hof (hremoved.trans (he.calm hc))
  cases a with
  | kernel move => exact Outside.calm h hm (outside_kernel hstep) hbusy
  | worker move => exact Outside.calm h hm (outside_worker hstep) hbusy
  | signal =>
    obtain rfl := Option.some.inj hstep
    exact ⟨.of_eq rfl, hbusy⟩
  | _ => exact hloop hstep

/-! ## All runs -/

/-- A write of the daemon in curl mode, and the bytes it reads. -/
theorem region_of_write (hm : cfg.mode = .curlMulti) (h : (system cfg).ReachableIf Harmless s)
    {r : Sqe} (hr : r ∈ s.inflight ++ s.sq) {fd : Option Fd} {buf : Buf} {len : Nat}
    (hreq : r.request = .write fd buf len) :
    (s.slot r.connId).Busy ∧ ∃ b offset data, buf = .block b offset ∧ data.length = len ∧
      (s.connections r.connId).Region b offset data := by
  have hmem : r ∈ (s.slot r.connId).ops := by
    have hr' := List.mem_append.mp hr
    simp [Daemon.slot, Sqe.slot?, hreq, hr']
  refine ⟨.inl ⟨r, hmem, by simp [hreq, Request.op]⟩, ?_⟩
  have hmode : s.view.cfg.mode = .curlMulti := (congrArg Config.mode (cfg_reachable h)).trans hm
  rcases (sound_reachable h r.connId).of_op hmem with ⟨hr, -⟩ | ⟨buf', len', ts, hr, hv, -, hw⟩
  · rw [hr] at hreq
    cases hreq
  · rcases hr with hr | ⟨-, hr⟩
    · obtain ⟨wb, hwb, hp, hbuf, hlen⟩ := hw.region hmode
      have hreq' : r.request = .write (s.connections r.connId).clientFd buf' len' :=
        congrArg Sqe.request hr
      obtain ⟨-, rfl, rfl⟩ := Request.write.inj (hreq.symm.trans hreq')
      have htake : ((wb.bytes.drop wb.tail).take len).length = len := by
        have hhead : wb.head = wb.bytes.length := rfl
        rw [List.length_take, List.length_drop]
        omega
      refine ⟨wb.buffer, wb.tail, (wb.bytes.drop wb.tail).take len, hbuf, htake, wb, hwb, rfl, hp, ?_⟩
      rw [htake]
    · rw [hr] at hreq
      cases hreq

/-- **The region of a write is stable** in clean runs. In curl mode a write that is queued or in
flight reads a region of the write buffer of its connection; whatever happens until its completion
is handled, the connection keeps the block of the region, and the region its bytes. -/
theorem region_stable (hm : cfg.mode = .curlMulti) (h : (system cfg).ReachableIf Harmless s)
    {r : Sqe} (hr : r ∈ s.inflight ++ s.sq) {fd : Option Fd} {buf : Buf} {len : Nat}
    (hreq : r.request = .write fd buf len)
    (hrun : ((system cfg).startedAt s).ReachableIf
      (fun t a => Harmless t a ∧ ¬ Handles r.connId t a) s') :
    ∃ b offset data, buf = .block b offset ∧ data.length = len ∧
      (s.connections r.connId).Region b offset data ∧
      (s'.connections r.connId).Region b offset data := by
  obtain ⟨hbusy, b, offset, data, hbuf, hlen, hregion⟩ := region_of_write hm h hr hreq
  have hinv := hrun.invariant
    (I := fun t => (system cfg).ReachableIf Harmless t ∧ (t.slot r.connId).Busy ∧
      (t.connections r.connId).Region b offset data) ?_ ?_
  · exact ⟨b, offset, data, hbuf, hlen, hregion, hinv.2.2⟩
  · rintro t rfl
    exact ⟨h, hbusy, hregion⟩
  · rintro t a t' ⟨ht, hbt, hrt⟩ ⟨hc, hh⟩ hstep
    obtain ⟨hk, hbt'⟩ := keeps_step (sound_reachable ht)
      (base_reachable (ht.mono fun _ _ _ => trivial)) (by rw [cfg_reachable ht, hm]) hstep
      (hc t' hstep) hh hbt
    exact ⟨ht.step hc hstep, hbt', hrt.keeps hk⟩

/-! ### Where it breaks -/

/-- A daemon that asks an API. -/
def curlConfig : Config :=
  { demoConfig with
    mode := .curlMulti
    apiKey := true }

/-- A client arrives, its descriptor is received, and the request for it starts. -/
def requestOne : List Label :=
  acceptOne ++ [.flushEnd .willing,
    .kernel (.deliver ⟨.recvmsg (some 10) (some 0) 4096, 0, 0⟩ ⟨[], [11]⟩), .woken, .event .willing]

/-- The events of this run. -/
def requestTrace : List Event := [.received 0 ⟨[], [11]⟩, .parsed 0 []]

/-- The response begins, and the headers are written to a client that does not read. -/
theorem exists_stalled : ∃ s req fd entries, (system curlConfig).Reachable s ∧
    req.conn = 0 ∧ (req.headersSent = true ∧ req.aborted = false ∧ req.finished = none) ∧
    s.Stalled (fun trace => trace = requestTrace) req (some ([], 4096)) entries
      ((headersBuffer 5).setPending true) ∧
    ⟨.write fd (.block 5 0) 119, 0, 0⟩ ∈ entries := by
  have hboot : (system curlConfig).Reachable ((Daemon.boot curlConfig).submit 1) := .init ⟨1, rfl⟩
  have hreaches : ((system curlConfig).run ((Daemon.boot curlConfig).submit 1) requestOne).any
      (fun s => (s.curl.request? 0).any fun (req : CurlRequest) => decide (s.pc = .curl true ∧
        s.sq.length + 2 ≤ s.cfg.entries ∧ (req.easy = 0 ∧ req.conn = 0 ∧
          req.headersSent = false ∧ req.aborted = false ∧ req.finished = none) ∧
        ((s.connections 0).asyncWriteBuf = none ∧ (s.connections 0).sseLine = none) ∧
        s.trace = requestTrace ∧ s.nextBlock = 4 ∧ s.gen 0 = 0)) = true := by
    decide +kernel
  obtain ⟨s, hrun, hreaches⟩ := (Option.any_eq_true _ _).mp hreaches
  obtain ⟨req, hreq, hreaches⟩ := (Option.any_eq_true _ _).mp hreaches
  obtain ⟨hpc, hroom, ⟨heasy, hconn, hlive⟩, ⟨hbuf, hline⟩, htrace, hblock, hgen⟩ :=
    of_decide_eq_true hreaches
  rw [← heasy] at hreq
  rw [← hconn] at hbuf hline hgen
  obtain ⟨s', hstep, hs'⟩ := step_headers (P := fun trace => trace = requestTrace) hpc hreq hlive hbuf
    hline hroom htrace
  rw [hblock] at hs'
  have hstep' : (system curlConfig).step s (.curlWrite req.easy [10] .moving) = some s' := hstep
  refine ⟨s', { req with headersSent := true }, (s.connections req.conn).clientFd, _,
    (hboot.run _ hrun).step trivial hstep', hconn, ⟨rfl, hlive.2⟩, hs', ?_⟩
  refine List.mem_append_right _ (List.mem_cons.mpr (.inl ?_))
  rw [headersSqe, hblock, hgen, hconn]

/-- libcurl returns while the write of the headers is in flight. -/
theorem region_stable_stalled : ∃ s s' r, (system curlConfig).ReachableIf Harmless s ∧
    step s .curlReturn = some s' ∧ r ∈ s.inflight ++ s.sq ∧
    ∃ b offset data, Buf.block 5 0 = .block b offset ∧ data.length = 119 ∧
      (s.connections r.connId).Region b offset data ∧
      (s'.connections r.connId).Region b offset data := by
  obtain ⟨s, req, fd, entries, hs, -, -, hst, hmem⟩ := exists_stalled
  have hclean : s.view.Clean := by
    intro e he
    rw [show s.view.trace = requestTrace from hst.trace] at he
    rcases List.mem_cons.mp he with rfl | he
    · rfl
    · rw [List.mem_singleton.mp he]
      rfl
  obtain ⟨kick, hpc⟩ := hst.pc
  let s' : Daemon := { s with pc := if kick then .events else .completions }
  have hstep : ((system curlConfig).startedAt s).step s .curlReturn = some s' := by
    change step s .curlReturn = some s'
    simp [step, loopStep, hpc, curlStep, s']
  have hreach := reachableIf_harmless hs hclean
  have hr := hst.entries ▸ hmem
  refine ⟨s, s', _, hreach, hstep, hr, region_stable rfl hreach hr rfl
    (.step (.init rfl) ⟨?_, ?_⟩ hstep)⟩
  · intro t ht
    have hs' : s' = t := Option.some.inj (hstep.symm.trans ht)
    exact hs' ▸ hclean
  · rintro ⟨ω, cqe, rest, hevent, -⟩
    cases hevent

/-- **A write can lose its bytes**: the response goes on while the client does not read, the write
buffer fills, and `realloc` moves it under the write of the headers. -/
theorem not_region_stable : ∃ s s' r fd b len, (system curlConfig).Reachable s ∧
    r ∈ s.inflight ++ s.sq ∧ r.request = .write fd (.block b 0) len ∧
    ((system curlConfig).startedAt s).ReachableIf (fun t a => ¬ Handles r.connId t a) s' ∧
    r ∈ s'.inflight ++ s'.sq ∧ ∀ data, ¬ (s'.connections r.connId).Region b 0 data := by
  obtain ⟨s, req, fd, entries, hs, hconn, hlive, hst, hmem⟩ := exists_stalled
  have hany : s.Stalled (fun _ => True) req (some ([], 4096)) entries
      ((headersBuffer 5).setPending true) :=
    ⟨hst.pc, hst.request, hst.entries, hst.buffer, hst.pending, hst.block, hst.line, hst.listed,
      trivial⟩
  have hhead : ((headersBuffer 5).setPending true).head = 119 := by
    rw [WriteBuffer.setPending, ← head_headersBuffer 5, WriteBuffer.head, WriteBuffer.head]
  have hcap : ((headersBuffer 5).setPending true).capacity = 8192 := rfl
  have hroom : ((headersBuffer 5).setPending true).capacity * 2 ≤ writeBufferMaxSize := by
    rw [hcap]
    decide
  obtain ⟨s', wb, hrun, hs', hbuf⟩ := run_tokens_moved curlConfig hany hlive isToken
    hroom 351 (by rw [hhead, hcap, length_tokenFrame])
    (by rw [hhead, hcap, length_tokenFrame]; omega) (by rw [hcap, length_tokenFrame]; omega)
  refine ⟨s, s', _, fd, 5, 119, hs, hst.entries ▸ hmem, rfl, ?_, hs'.entries ▸ hmem, ?_⟩
  · refine System.ReachableIf.run (.init rfl) ?_ ((System.run_startedAt s s _).trans hrun)
    intro a ha t hh
    obtain ⟨ω, -, -, hevent, -⟩ := hh
    rw [List.eq_of_mem_replicate ha] at hevent
    cases hevent
  · rintro data ⟨wb', hwb', hb, -⟩
    have hbuffer : (s'.connections 0).asyncWriteBuf = some wb := hconn ▸ hs'.buffer
    have hsame : wb = wb' := Option.some.inj (hbuffer.symm.trans hwb')
    subst hsame
    exact hbuf hb
end SocketHandoff.Uring
