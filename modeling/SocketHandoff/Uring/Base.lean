import SocketHandoff.Uring.Steps

/-!
# What holds in every state

Facts about the slots that no order of completions breaks: a slot has a receive outstanding
exactly in the state for it, a request exactly when it has a handle, a place with the workers
exactly when it waits for them, and the free list holds unused slots only.

`View.Held` is the situation in which a handler works: these facts, with the slot in hand not on
the free list.
-/

namespace SocketHandoff.Uring

variable {V W V' : View} {i j : ConnId} {v v' : Slot}

/-! ## The invariant -/

/-- Receives of a slot, with those completed but not processed. -/
def Slot.recvs (v : Slot) : Nat :=
  v.ops.countP (·.request.op = .recvFd) + v.comps.countP (·.op = .recvFd)

/-- What holds of a slot by itself: what is outstanding for it is told by its state. So two
operations for one connection would have to be in two states, and the buffers of a response are
there in the states only in which a response can be. -/
structure Slot.Base (cfg : Config) (v : Slot) : Prop where
  recvs : v.recvs = if v.conn.state = .receivingFd then 1 else 0
  queued : v.queued = if v.conn.state = .llmQueued then 1 else 0
  easies : v.requests.map (·.easy) = v.conn.curlEasy.toList
  easy : v.conn.curlEasy.isSome →
    cfg.mode = .curlMulti ∧ (v.conn.state = .curlPending ∨ v.conn.state = .curlActive)
  buffer : v.conn.asyncWriteBuf.isSome → cfg.mode = .curlMulti ∧
    (v.conn.state = .curlPending ∨ v.conn.state = .curlActive ∨ v.conn.state = .closing)

/-- What holds of the slots together. A handle of libcurl names one slot, and the next handle is a
new one, because the requests are looked up by it. -/
structure View.Slots (V : View) : Prop where
  slots : ∀ i, (V.slots i).Base V.cfg
  used : ∀ i, (V.slots i).conn.state ≠ .unused → i < V.cfg.maxConnections
  handles : ∀ i j e, (V.slots i).conn.curlEasy = some e → (V.slots j).conn.curlEasy = some e →
    i = j
  fresh : ∀ i e, (V.slots i).conn.curlEasy = some e → e < V.nextEasy

/-- The free list holds the slots `l`, which are unused. -/
structure View.Free (V : View) (l : List ConnId) : Prop where
  linked : Linked V.nextFree V.freeList l
  nodup : l.Nodup
  unused : ∀ i ∈ l, i < V.cfg.maxConnections ∧ (V.slots i).conn.state = .unused

/-- **The invariant.** -/
structure View.Base (V : View) : Prop extends V.Slots where
  free : ∃ l, V.Free l

/-- The same while a handler has a slot in hand. -/
structure View.Held (V : View) (i : ConnId) : Prop extends V.Slots where
  bound : i < V.cfg.maxConnections
  free : ∃ l, V.Free l ∧ i ∉ l

/-! ## Changes that the invariant does not see -/

/-- Two slots that differ in nothing the invariant looks at. -/
structure Slot.Alike (v v' : Slot) : Prop where
  recvs : v'.recvs = v.recvs
  queued : v'.queued = v.queued
  easies : v'.requests.map (·.easy) = v.requests.map (·.easy)
  state : v'.conn.state = v.conn.state
  curlEasy : v'.conn.curlEasy = v.conn.curlEasy
  buffer : v'.conn.asyncWriteBuf.isSome = v.conn.asyncWriteBuf.isSome

theorem Slot.Alike.refl (v : Slot) : v.Alike v := ⟨rfl, rfl, rfl, rfl, rfl, rfl⟩

theorem Slot.Alike.trans {v'' : Slot} (h : v.Alike v') (h' : v'.Alike v'') : v.Alike v'' :=
  ⟨h'.recvs.trans h.recvs, h'.queued.trans h.queued, h'.easies.trans h.easies,
    h'.state.trans h.state, h'.curlEasy.trans h.curlEasy, h'.buffer.trans h.buffer⟩

theorem Slot.Base.congr {cfg : Config} (h : v.Base cfg) (ha : v.Alike v') : v'.Base cfg := by
  constructor
  · rw [ha.recvs, ha.state, h.recvs]
  · rw [ha.queued, ha.state, h.queued]
  · rw [ha.easies, ha.curlEasy, h.easies]
  · rw [ha.curlEasy, ha.state]
    exact h.easy
  · rw [ha.buffer, ha.state]
    exact h.buffer

/-- Two views that differ in nothing the invariant looks at. -/
structure View.Alike (V V' : View) : Prop where
  cfg : V'.cfg = V.cfg
  freeList : V'.freeList = V.freeList
  nextFree : V'.nextFree = V.nextFree
  nextEasy : V'.nextEasy = V.nextEasy
  slots : ∀ i, (V.slots i).Alike (V'.slots i)

theorem View.Base.congr (h : V.Base) (ha : V.Alike V') : V'.Base := by
  obtain ⟨l, hl⟩ := h.free
  refine ⟨⟨fun i => ?_, fun i => ?_, fun i j e => ?_, fun i e => ?_⟩, l, ?_, hl.nodup, fun i hi => ?_⟩
  · rw [ha.cfg]
    exact (h.slots i).congr (ha.slots i)
  · rw [ha.cfg, (ha.slots i).state]
    exact h.used i
  · rw [(ha.slots i).curlEasy, (ha.slots j).curlEasy]
    exact h.handles i j e
  · rw [(ha.slots i).curlEasy, ha.nextEasy]
    exact h.fresh i e
  · rw [ha.nextFree, ha.freeList]
    exact hl.linked
  · rw [ha.cfg, (ha.slots i).state]
    exact hl.unused i hi

/-- Replacing a slot by one that is alike. -/
theorem View.Alike.set (ha : (V.slots i).Alike v') : V.Alike (V.set i v') := by
  refine ⟨rfl, rfl, rfl, rfl, fun j => ?_⟩
  by_cases hj : j = i
  · subst hj
    rwa [View.set_slots_self]
  · rw [View.set_slots_of_ne _ _ hj]
    exact .refl _

theorem View.Alike.trans {V'' : View} (h : V.Alike V') (h' : V'.Alike V'') : V.Alike V'' :=
  ⟨h'.cfg.trans h.cfg, h'.freeList.trans h.freeList, h'.nextFree.trans h.nextFree,
    h'.nextEasy.trans h.nextEasy, fun i => (h.slots i).trans (h'.slots i)⟩

/-- Going elsewhere and noting something. -/
theorem View.Alike.goto (pc : Pc) : V.Alike (V.goto pc) := ⟨rfl, rfl, rfl, rfl, fun _ => .refl _⟩

theorem View.Alike.note (e : Event) : V.Alike (V.note e) := ⟨rfl, rfl, rfl, rfl, fun _ => .refl _⟩

theorem View.Alike.mark (i : ConnId) : V.Alike (V.mark i) :=
  have h : V.Alike (V.setConn i { (V.slots i).conn with onDirtyList := true }) :=
    .set ⟨rfl, rfl, rfl, rfl, rfl, rfl⟩
  ⟨rfl, rfl, rfl, rfl, h.slots⟩

theorem View.Alike.unlink (prev : Option ConnId) (i : ConnId) (next : Option ConnId) :
    V.Alike (V.unlink prev i next) :=
  have h : V.Alike (V.setConn i { (V.slots i).conn with onDirtyList := false }) :=
    .set ⟨rfl, rfl, rfl, rfl, rfl, rfl⟩
  ⟨rfl, rfl, rfl, rfl, h.slots⟩

/-- A write buffer that is there stays there. -/
theorem View.Alike.appended {wb wb' : WriteBuffer} (h : (V.slots i).conn.asyncWriteBuf = some wb) :
    V.Alike (V.appended i wb wb') :=
  have h : V.Alike (V.setConn i { (V.slots i).conn with asyncWriteBuf := some wb' }) :=
    .set ⟨rfl, rfl, rfl, rfl, rfl, by rw [h]; rfl⟩
  ⟨rfl, rfl, rfl, rfl, h.slots⟩

theorem View.Alike.updateRequest {easy : Easy} {f : CurlRequest → CurlRequest}
    (hf : ∀ req, (f req).easy = req.easy) : V.Alike (V.updateRequest easy f) := by
  refine ⟨rfl, rfl, rfl, rfl, fun i => ⟨rfl, rfl, ?_, rfl, rfl, rfl⟩⟩
  rw [View.updateRequest, List.map_map]
  refine List.map_congr_left fun req _ => ?_
  simp only [Function.comp_apply]
  split
  · exact hf req
  · rfl

/-! ## Taking a slot in hand and letting it go -/

theorem View.Base.held (h : V.Base) (hi : (V.slots i).conn.state ≠ .unused) : V.Held i := by
  obtain ⟨l, hl⟩ := h.free
  exact ⟨h.toSlots, h.used i hi, l, hl, fun hil => hi (hl.unused i hil).2⟩

/-- The slot at the head of the free list is taken off it. -/
theorem View.Base.held_popFree (h : V.Base) (hi : V.freeList = some i) :
    (V.popFree i).Held i ∧ (V.slots i).conn.state = .unused := by
  obtain ⟨l, hl⟩ := h.free
  have hlinked := hl.linked
  rw [hi] at hlinked
  obtain ⟨rest, rfl, hrest⟩ := hlinked.of_some
  have hmem := hl.unused i (List.mem_cons_self ..)
  obtain ⟨hni, hd⟩ := List.nodup_cons.mp hl.nodup
  refine ⟨⟨⟨h.slots, h.used, h.handles, h.fresh⟩, hmem.1, rest, ⟨?_, hd, fun j hj => ?_⟩, hni⟩,
    hmem.2⟩
  · exact hrest.congr fun b hb => Function.update_of_ne (ne_of_mem_of_not_mem hb hni) ..
  · exact hl.unused j (List.mem_cons_of_mem _ hj)

/-- A slot is replaced by one that has the same handle or none. -/
theorem View.Slots.set (h : V.Slots) (hi : i < V.cfg.maxConnections) (hv : v'.Base V.cfg)
    (he : v'.conn.curlEasy = (V.slots i).conn.curlEasy ∨ v'.conn.curlEasy = none) :
    (V.set i v').Slots := by
  have heasy : ∀ {j e}, ((V.set i v').slots j).conn.curlEasy = some e →
      (V.slots j).conn.curlEasy = some e := by
    intro j e hje
    by_cases hj : j = i
    · subst hj
      rw [View.set_slots_self] at hje
      rcases he with he | he
      · rwa [he] at hje
      · rw [he] at hje; cases hje
    · rwa [View.set_slots_of_ne _ _ hj] at hje
  refine ⟨fun j => ?_, fun j hju => ?_, fun j k e hj hk => ?_, fun j e hj => ?_⟩
  · by_cases hj : j = i
    · subst hj
      rwa [View.set_slots_self]
    · rw [View.set_slots_of_ne _ _ hj]
      exact h.slots j
  · by_cases hj : j = i
    · exact hj ▸ hi
    · rw [View.set_slots_of_ne _ _ hj] at hju
      exact h.used j hju
  · exact h.handles j k e (heasy hj) (heasy hk)
  · exact h.fresh j e (heasy hj)

theorem View.Free.set {l : List ConnId} (h : V.Free l) (hi : i ∉ l) : (V.set i v').Free l := by
  refine ⟨h.linked, h.nodup, fun j hj => ?_⟩
  rw [View.set_slots_of_ne _ _ (ne_of_mem_of_not_mem hj hi)]
  exact h.unused j hj

/-- The handler goes on with the slot. -/
theorem View.Held.set (h : V.Held i) (hv : v'.Base V.cfg)
    (he : v'.conn.curlEasy = (V.slots i).conn.curlEasy ∨ v'.conn.curlEasy = none) :
    (V.set i v').Base := by
  obtain ⟨l, hl, hil⟩ := h.free
  exact ⟨h.toSlots.set h.bound hv he, l, hl.set hil⟩

/-! ### Freeing a slot -/

/-- A slot that has been freed. -/
def Slot.freed (v : Slot) : Slot :=
  { v with conn := v.conn.reset, gen := v.gen + 1, requests := [] }

/-- The requests of a slot have its handle, and no other slot has one with it. -/
structure View.Owns (V : View) (i : ConnId) : Prop where
  own : ∀ req ∈ (V.slots i).requests, (V.slots i).conn.curlEasy = some req.easy
  others : ∀ j, j ≠ i → ∀ req ∈ (V.slots j).requests, (V.slots i).conn.curlEasy ≠ some req.easy
  mode : (V.slots i).conn.curlEasy.isSome → V.cfg.mode = .curlMulti

/-- Cancelling its request, a slot loses its handle; the other slots keep theirs. -/
theorem View.Owns.cancel (h : V.Owns i) :
    (if V.cfg.mode = .curlMulti then V.cancel i else V) = V.set i
      { V.slots i with
        conn := { (V.slots i).conn with curlEasy := none }
        requests := [] } := by
  cases he : (V.slots i).conn.curlEasy with
  | none =>
    have hreq : (V.slots i).requests = [] := by
      refine List.eq_nil_iff_forall_not_mem.mpr fun req hreq => ?_
      have := h.own req hreq
      rw [he] at this
      cases this
    have hc : V.cancel i = V := by rw [View.cancel, he]
    have hself : ({ V.slots i with
        conn := { (V.slots i).conn with curlEasy := none }, requests := [] } : Slot) = V.slots i := by
      rw [← hreq, ← he]
    rw [hc, hself, View.set_self, ite_self]
  | some e =>
    rw [if_pos (h.mode (by simp [he])), View.cancel, he]
    simp only [View.removeRequest, View.setConn, View.set, View.mk.injEq, true_and, and_true]
    funext j
    by_cases hj : j = i
    · subst hj
      have hnil : (V.slots j).requests.filter (fun req => decide (req.easy ≠ e)) = [] := by
        refine List.filter_eq_nil_iff.mpr fun req hreq => ?_
        have := h.own req hreq
        rw [he] at this
        simp [Option.some.inj this]
      simp only [Function.update_self, hnil]
    · have hkeep : (V.slots j).requests.filter (fun req => decide (req.easy ≠ e)) =
          (V.slots j).requests := by
        refine List.filter_eq_self.mpr fun req hreq => ?_
        have := h.others j hj req hreq
        rw [he] at this
        simpa using fun e' => this (by rw [e'])
      simp only [Function.update_of_ne hj, hkeep]

/-- **What `cleanup_connection` does**, all in one: to the slot, to the free list and to the dirty
list. Every way in which a connection ends comes down to this equation. -/
theorem View.Owns.cleanup (h : V.Owns i) :
    V.cleanup i =
      { V.set i (V.slots i).freed with
        freeList := some i
        nextFree := Function.update V.nextFree i V.freeList
        dirty := V.undirty i } := by
  rw [View.cleanup, h.cancel]
  simp only [View.unmark, View.undirty, View.free, View.setConn, View.set, View.pushFree,
    Function.update_self, Function.update_idem, Slot.freed, Connection.reset]

/-- What a slot that is given up has to have left behind: nothing that is outstanding for it, with
the requests of libcurl as they were, for these are cancelled by the cleanup itself. -/
structure Slot.GivenUp (v v' : Slot) : Prop where
  recvs : v'.recvs = 0
  queued : v'.queued = 0
  requests : v'.requests = v.requests
  curlEasy : v'.conn.curlEasy = v.conn.curlEasy

/-- A request belongs to the slot with its handle. -/
theorem View.Slots.curlEasy_of_mem {req : CurlRequest} (h : V.Slots)
    (hreq : req ∈ (V.slots j).requests) : (V.slots j).conn.curlEasy = some req.easy := by
  have hmap : req.easy ∈ (V.slots j).requests.map (·.easy) := List.mem_map_of_mem hreq
  rw [(h.slots j).easies] at hmap
  simpa using hmap

theorem View.Slots.owns (h : V.Slots) (hv : (V.slots i).GivenUp v') : (V.set i v').Owns i := by
  refine ⟨fun req hreq => ?_, fun j hj req hreq => ?_, fun he => ?_⟩
  · rw [View.set_slots_self] at hreq ⊢
    rw [hv.curlEasy]
    exact h.curlEasy_of_mem (hv.requests ▸ hreq)
  · rw [View.set_slots_of_ne _ _ hj] at hreq
    rw [View.set_slots_self, hv.curlEasy]
    exact fun he => hj (h.handles j i req.easy (h.curlEasy_of_mem hreq) he)
  · rw [View.set_slots_self, hv.curlEasy] at he
    exact ((h.slots i).easy he).1

/-- A freed slot is back on the free list. -/
theorem View.Held.cleanup (h : V.Held i) (hv : (V.slots i).GivenUp v') :
    ((V.set i v').cleanup i).Base := by
  obtain ⟨l, hl, hil⟩ := h.free
  have hbase : v'.freed.Base V.cfg :=
    ⟨hv.recvs, hv.queued, rfl, (fun he => by cases he), (fun hb => by cases hb)⟩
  have hset : (V.set i v'.freed).Slots := h.toSlots.set h.bound hbase (.inr rfl)
  rw [(h.toSlots.owns hv).cleanup, View.set_set, View.set_slots_self]
  refine ⟨⟨hset.slots, hset.used, hset.handles, hset.fresh⟩, i :: l,
    hl.linked.push hil, List.nodup_cons.mpr ⟨hil, hl.nodup⟩, fun j hj => ?_⟩
  rcases List.mem_cons.mp hj with rfl | hj
  · refine ⟨h.bound, ?_⟩
    change ((V.set j _).slots j).conn.state = _
    rw [View.set_slots_self]
    rfl
  · exact (hl.set hil).unused j hj

/-! ## The effects keep the invariant -/

section
variable {rest : List Cqe} {cfg : Config}

theorem Slot.recvs_push (r : Sqe) (hr : r.request.op ≠ .recvFd) : (v.push r).recvs = v.recvs := by
  simp [Slot.recvs, Slot.push, hr]

@[simp] theorem Slot.recvs_pair (buf : Buf) (len : Nat) :
    (v.pair cfg i buf len).recvs = v.recvs := by
  rw [Slot.pair, Slot.recvs_push _ (by simp [Slot.timeoutSqe, Request.op]),
    Slot.recvs_push _ (by simp [Slot.writeSqe, Request.op])]

theorem Slot.Base.recvs_of_received (h : v.Base cfg) (hv : v.Received rest) {c' : Connection} :
    Slot.recvs { v with conn := c', comps := rest } = 0 := by
  obtain ⟨hs, cqe, hc, hop⟩ := hv
  have := h.recvs
  simp only [Slot.recvs, hs, if_true, hc, List.countP_cons, hop, decide_true] at this ⊢
  omega

theorem Slot.Base.recvs_of_ne (h : v.Base cfg) (hs : v.conn.state ≠ .receivingFd) : v.recvs = 0 := by
  rw [h.recvs, if_neg hs]

theorem Slot.Base.queued_of_ne (h : v.Base cfg) (hs : v.conn.state ≠ .llmQueued) : v.queued = 0 := by
  rw [h.queued, if_neg hs]

/-- A completion that is not of a receive does not count. -/
theorem Slot.recvs_take {cqe : Cqe} (hc : v.comps = cqe :: rest) (hop : cqe.op ≠ .recvFd)
    {c' : Connection} : Slot.recvs { v with conn := c', comps := rest } = v.recvs := by
  simp [Slot.recvs, hc, hop]

/-- Outside the two states for a request there is none. -/
theorem Slot.Base.curlEasy_none (h : v.Base cfg)
    (hs : v.conn.state ≠ .curlPending ∧ v.conn.state ≠ .curlActive) : v.conn.curlEasy = none := by
  rw [← Option.not_isSome_iff_eq_none]
  intro he
  rcases (h.easy he).2 with h' | h'
  · exact hs.1 h'
  · exact hs.2 h'

theorem Slot.Base.requests_nil (h : v.Base cfg) (he : v.conn.curlEasy = none) :
    v.requests = [] := by
  have := h.easies
  rw [he] at this
  simpa using this

/-- A slot with a request waits for its response. -/
theorem Slot.Base.state_of_request (h : v.Base cfg) (hr : v.requests ≠ []) :
    cfg.mode = .curlMulti ∧ (v.conn.state = .curlPending ∨ v.conn.state = .curlActive) := by
  refine h.easy ?_
  rw [Option.isSome_iff_ne_none]
  exact fun he => hr (h.requests_nil he)

theorem Slot.Base.buffer_none (h : v.Base cfg)
    (hs : v.conn.state ≠ .curlPending ∧ v.conn.state ≠ .curlActive ∧ v.conn.state ≠ .closing) :
    v.conn.asyncWriteBuf = none := by
  rw [← Option.not_isSome_iff_eq_none]
  intro hb
  rcases (h.buffer hb).2 with h' | h' | h'
  · exact hs.1 h'
  · exact hs.2.1 h'
  · exact hs.2.2 h'

end

/-- A handler that gives up frees the slot. -/
theorem View.Held.giveUp {v₁ : Slot} (h : V.Held i) (hv : (V.slots i).GivenUp v₁)
    (hg : GiveUp V i v₁ V') : V'.Base := by
  cases hg with
  | cleanup => exact h.cleanup hv
  | strand buf len =>
    refine View.Held.cleanup (V := V.note _)
      ⟨⟨h.slots, h.used, h.handles, h.fresh⟩, h.bound, ?_⟩ ⟨?_, hv.queued, hv.requests, hv.curlEasy⟩
    · obtain ⟨l, hl, hil⟩ := h.free
      exact ⟨l, ⟨hl.linked, hl.nodup, hl.unused⟩, hil⟩
    · rw [Slot.recvs_push _ (by simp [Slot.writeSqe, Request.op])]
      exact hv.recvs

/-- A slot gets the next handle. -/
theorem View.Base.start (h : V.Base) (hu : (V.slots i).conn.state ≠ .unused)
    (hv : v'.Base V.cfg) (he : v'.conn.curlEasy = some V.nextEasy) :
    ({ V.set i v' with nextEasy := V.nextEasy + 1 } : View).Base := by
  have hheld := h.held hu
  obtain ⟨l, hl, hil⟩ := hheld.free
  have heasy : ∀ j e, ((V.set i v').slots j).conn.curlEasy = some e →
      j = i ∧ e = V.nextEasy ∨ j ≠ i ∧ (V.slots j).conn.curlEasy = some e := by
    intro j e hje
    by_cases hj : j = i
    · subst hj
      rw [View.set_slots_self, he] at hje
      exact .inl ⟨rfl, (Option.some.inj hje).symm⟩
    · rw [View.set_slots_of_ne _ _ hj] at hje
      exact .inr ⟨hj, hje⟩
  have hfree : (V.set i v').Free l := hl.set hil
  refine ⟨⟨fun j => ?_, fun j hj => ?_, fun j k e hj hk => ?_, fun j e hj => ?_⟩, l,
    hfree.linked, hfree.nodup, hfree.unused⟩
  · by_cases hj : j = i
    · subst hj
      change ((V.set j v').slots j).Base V.cfg
      rwa [View.set_slots_self]
    · change ((V.set i v').slots j).Base V.cfg
      rw [View.set_slots_of_ne _ _ hj]
      exact h.slots j
  · by_cases hji : j = i
    · exact hji ▸ hheld.bound
    · change ((V.set i v').slots j).conn.state ≠ _ at hj
      rw [View.set_slots_of_ne _ _ hji] at hj
      exact h.used j hj
  · rcases heasy j e hj with ⟨hji, rfl⟩ | ⟨-, hje⟩ <;>
      rcases heasy k _ hk with ⟨hki, hke⟩ | ⟨-, hke⟩
    · rw [hji, hki]
    · exact absurd (h.fresh k _ hke) (Nat.lt_irrefl _)
    · exact absurd (h.fresh j e hje) (by rw [hke]; exact Nat.lt_irrefl _)
    · exact h.handles j k e hje hke
  · rcases heasy j e hj with ⟨-, rfl⟩ | ⟨-, hje⟩
    · exact Nat.lt_succ_self _
    · exact Nat.lt_succ_of_lt (h.fresh j e hje)

theorem Connection.TakesWrite.state {c : Connection} (h : c.TakesWrite) :
    c.state = .streaming ∨ c.state = .curlActive ∨ c.state = .closing :=
  h.imp id (.imp And.left id)

/-- A slot in one of the states of a response is in use, and nobody else is at work on it. -/
theorem Slot.Base.responding {cfg : Config} (h : v.Base cfg)
    (hs : v.conn.state = .curlPending ∨ v.conn.state = .streaming ∨ v.conn.state = .streamed ∨
      v.conn.state = .curlActive ∨ v.conn.state = .closing) :
    v.conn.state ≠ .unused ∧ v.recvs = 0 ∧ v.queued = 0 := by
  refine ⟨?_, h.recvs_of_ne ?_, h.queued_of_ne ?_⟩ <;>
    rcases hs with hs | hs | hs | hs | hs <;> simp [hs]

theorem View.Base.effect (h : V.Base) (he : Effect V V') : V'.Base := by
  cases he with
  | went => exact h.congr (.goto _)
  | @accepted i b fd hf =>
    obtain ⟨hheld, hu⟩ := h.held_popFree hf
    have hb := h.slots i
    have hr := hb.recvs_of_ne (by rw [hu]; decide)
    have hq := hb.queued_of_ne (by rw [hu]; decide)
    have he := hb.curlEasy_none (by rw [hu]; decide)
    have hw := hb.buffer_none (by rw [hu]; decide)
    refine hheld.set ⟨?_, ?_, ?_, ?_, ?_⟩ (.inl (by simp [Slot.push, Slot.accepted]))
    · simp only [Slot.recvs, Nat.add_eq_zero_iff] at hr
      simp only [Slot.recvs, Slot.push, Slot.accepted, List.countP_append, hr.1, hr.2]
      rfl
    · simpa [Slot.push, Slot.accepted] using hq
    · simpa [Slot.push, Slot.accepted] using hb.easies
    · simp [Slot.push, Slot.accepted, he]
    · simp [Slot.push, Slot.accepted, hw]
  | @acceptRefused i b fd hf =>
    obtain ⟨hheld, hu⟩ := h.held_popFree hf
    have hb := h.slots i
    refine hheld.cleanup ⟨?_, ?_, rfl, ?_⟩
    · exact hb.recvs_of_ne (by rw [hu]; decide)
    · exact hb.queued_of_ne (by rw [hu]; decide)
    · simp [Slot.accepted]
  | @ignored i cqe rest hc hi =>
    have hop : cqe.op ≠ .recvFd := by
      intro hop
      have hr : (V.slots i).recvs ≠ 0 := by
        simp [Slot.recvs, hc, hop]
      rcases hi with hi | ⟨-, hi⟩ | ⟨hi, -⟩
      · refine absurd (h.used i fun hs => hr ?_) (Nat.not_lt.mpr hi)
        exact (h.slots i).recvs_of_ne (by rw [hs]; decide)
      · exact hr ((h.slots i).recvs_of_ne hi)
      · rw [hop] at hi; cases hi
    exact h.congr (.set ⟨Slot.recvs_take hc hop, rfl, rfl, rfl, rfl, rfl⟩)
  | parsed hc hop hs hres => exact h.congr (.note _)
  | @recvGaveUp _ i rest c' hv hg hk =>
    have hb := h.slots i
    have hs := hv.1
    refine (h.held (by rw [hs]; decide)).giveUp ⟨hb.recvs_of_received hv, ?_, rfl, ?_⟩ hg
    · exact hb.queued_of_ne (by rw [hs]; decide)
    · have hnone := hb.curlEasy_none (by rw [hs]; decide)
      exact hk.curlEasy.elim id fun he => he.trans hnone.symm
  | @curlStarted rest c' req hm hv hk hs he hreq hh hf =>
    have hb := h.slots req.conn
    have hnone := hb.curlEasy_none (by rw [hv.1]; decide)
    have hq := hb.queued_of_ne (by rw [hv.1]; decide)
    have hw := hb.buffer_none (by rw [hv.1]; decide)
    have hr : Slot.recvs { V.slots req.conn with conn := c', comps := rest } = 0 :=
      hb.recvs_of_received hv
    simp only [View.addRequest, View.set_set, View.set_slots_self]
    refine h.start (by rw [hv.1]; decide) ⟨?_, ?_, ?_, fun _ => ⟨hm, .inl hs⟩, ?_⟩ he
    · simpa [Slot.recvs, hs] using hr
    · simp [hs, hq]
    · simp [hb.requests_nil hnone, he, hreq]
    · simp [hk.asyncWriteBuf, hw]
  | @poolQueued i rest c' hm hv hk he hs =>
    have hb := h.slots i
    have hq := hb.queued_of_ne (by rw [hv.1]; decide)
    have hnone := hb.curlEasy_none (by rw [hv.1]; decide)
    have hw := hb.buffer_none (by rw [hv.1]; decide)
    refine (h.held (by rw [hv.1]; decide)).set ⟨?_, ?_, ?_, ?_, ?_⟩ (.inl he)
    · have hr : Slot.recvs { V.slots i with conn := c', comps := rest } = 0 :=
        hb.recvs_of_received hv
      simpa [Slot.recvs, hs] using hr
    · simp [hs, hq]
    · exact hb.easies.trans (by rw [he])
    · simp [he, hnone]
    · simp [hk.asyncWriteBuf, hw]
  | @streamStarted i rest c' len hm hv hk he hs =>
    have hb := h.slots i
    have hq := hb.queued_of_ne (by rw [hv.1]; decide)
    have hnone := hb.curlEasy_none (by rw [hv.1]; decide)
    have hw := hb.buffer_none (by rw [hv.1]; decide)
    refine (h.held (by rw [hv.1]; decide)).set ⟨?_, ?_, ?_, ?_, ?_⟩ (.inl he)
    · rw [Slot.recvs_pair, hb.recvs_of_received hv]
      simp [Slot.pair, Slot.push, hs]
    · simpa [Slot.pair, Slot.push, hs] using hq
    · exact hb.easies.trans (by rw [← he]; rfl)
    · simp [Slot.pair, Slot.push, he, hnone]
    · simp [Slot.pair, Slot.push, hk.asyncWriteBuf, hw]
  | @written i rest wb n bytesSent hv hwb hd =>
    obtain ⟨-, cqe, hc, hop⟩ := hv
    refine h.congr (.set ⟨Slot.recvs_take hc (by simp [hop]), rfl, rfl, rfl, rfl, ?_⟩)
    simp [hwb]
  | @writtenGaveUp _ i rest c' hv hg hk he =>
    obtain ⟨htakes, cqe, hc, hop⟩ := hv
    obtain ⟨hu, hr, hq⟩ := (h.slots i).responding (.inr (htakes.state.imp id .inr))
    have hgiven : (V.slots i).GivenUp { V.slots i with conn := c', comps := rest } :=
      ⟨(Slot.recvs_take hc (by simp [hop])).trans hr, hq, rfl, he⟩
    exact (h.held hu).giveUp hgiven hg
  | @nextQueued i rest c' buf len hv hwb hk he hs hbuf =>
    have hb := h.slots i
    obtain ⟨htakes, cqe, hc, hop⟩ := hv
    obtain ⟨hu, hr, hq⟩ := hb.responding (.inr (htakes.state.imp id .inr))
    have hnone : (V.slots i).conn.curlEasy = none := by
      refine hb.curlEasy_none ?_
      rcases htakes with h' | ⟨-, h'⟩ | h'
      · simp [h']
      · rw [hwb] at h'; cases h'
      · simp [h']
    have hne : c'.state ≠ .receivingFd ∧ c'.state ≠ .llmQueued := by
      rcases hs with hs | ⟨-, hs⟩ <;> simp [hs]
    refine (h.held hu).set ⟨?_, ?_, ?_, ?_, ?_⟩ (.inl he)
    · rw [Slot.recvs_pair, Slot.recvs_take hc (by simp [hop]), hr]
      simp [Slot.pair, Slot.push, hne.1]
    · simpa [Slot.pair, Slot.push, hne.2] using hq
    · exact hb.easies.trans (by rw [← he]; rfl)
    · simp [Slot.pair, Slot.push, he, hnone]
    · simp [Slot.pair, Slot.push, hk.asyncWriteBuf, hwb]
  | @asyncQueued i wb ts hwb hd hp hts =>
    refine h.congr (.set ⟨?_, rfl, rfl, rfl, rfl, ?_⟩)
    · rcases hts with rfl | rfl <;>
        simp [Slot.recvs, Slot.writeSqe, Slot.timeoutSqe, Request.op]
    · simp [hwb]
  | @asyncGaveUp _ i wb hwb hd hp hg =>
    have hs := ((h.slots i).buffer (by simp [hwb])).2
    obtain ⟨hu, hr, hq⟩ := (h.slots i).responding (hs.imp id (.inr ∘ .inr))
    exact (h.held hu).giveUp ⟨hr, hq, rfl, rfl⟩ hg
  | fetchedIgnored hdone => exact h.congr (.set ⟨rfl, rfl, rfl, rfl, rfl, rfl⟩)
  | @fetchedGaveUp _ i c' hdone hs hg hk he =>
    obtain ⟨hu, hr, hq⟩ := (h.slots i).responding (.inr (hs.imp id (.imp id .inr)))
    have hgiven : (V.slots i).GivenUp
        { V.slots i with conn := c', done := (V.slots i).done - 1 } := ⟨hr, hq, rfl, he⟩
    exact (h.held hu).giveUp hgiven hg
  | @fetchedStreaming i c' len hdone hs hk he hs' =>
    refine h.congr (.set ⟨Slot.recvs_pair _ _, rfl, rfl, hs'.trans hs.symm, he, ?_⟩)
    exact congrArg Option.isSome hk.asyncWriteBuf
  | @bufferMade i b hreq hwb =>
    have hb := h.slots i
    have hstate := hb.state_of_request hreq
    refine (h.held ?_).set ⟨hb.recvs, hb.queued, hb.easies, hb.easy, fun _ => ?_⟩ (.inl rfl)
    · rcases hstate.2 with hs | hs <;> rw [hs] <;> decide
    · exact ⟨hstate.1, hstate.2.imp id .inl⟩
  | appendFailed hwb ha hr => exact h.congr (.appended hwb)
  | dataAppended hreq hh hwb ha => exact h.congr (.trans (.appended hwb) (.mark _))
  | @headersAppended i req wb wb' hreq hwb ha =>
    let X := ((V.appended i wb wb').mark i).updateRequest req.easy
      fun req => { req with headersSent := true }
    have hX : V.Alike X := .trans (.trans (.appended hwb) (.mark i)) (.updateRequest fun _ => rfl)
    have hbX := h.congr hX
    have hb := hbX.slots i
    have hstate := (h.slots i).state_of_request (List.ne_nil_of_mem hreq)
    have hs := (hX.slots i).state
    obtain ⟨hu, hr, hq⟩ := hb.responding (by
      rw [hs]
      exact hstate.2.imp id fun h' => .inr (.inr (.inl h')))
    refine (hbX.held hu).set ⟨?_, ?_, hb.easies, ?_, ?_⟩ (.inl rfl)
    · exact hr.trans (by simp)
    · exact hq.trans (by simp)
    · exact fun he => ⟨(hb.easy he).1, .inr rfl⟩
    · exact fun hw => ⟨(hb.buffer hw).1, .inr (.inl rfl)⟩
  | lineChanged line => exact h.congr (.set ⟨rfl, rfl, rfl, rfl, rfl, rfl⟩)
  | requestChanged easy hf => exact h.congr (.updateRequest fun req => (hf req).1)

/-! ## All steps keep the invariant -/

/-- An element of a list counts before it is erased, and not afterwards. -/
theorem countP_erase_add {α : Type} [DecidableEq α] {P : α → Bool} {l : List α} {a : α}
    (h : a ∈ l) : (l.erase a).countP P + (if P a then 1 else 0) = l.countP P := by
  rw [(List.perm_cons_erase h).countP_eq, List.countP_cons]

/-- A receive that is done still counts, as a completion. -/
theorem Slot.recvs_finish {r : Sqe} {res : Int} (h : r ∈ v.ops) (hi : r.connId = i)
    (hop : r.request.op = .recvFd ∨ r.request.op = .timeout) :
    (v.finish i r res).recvs = v.recvs := by
  have hops := countP_erase_add (P := fun r => decide (r.request.op = .recvFd)) h
  rcases hop with hop | hop
  · have hf : [r.cqe res false].filter (fun c => c.slot? = some i) = [r.cqe res false] := by
      simp [Cqe.slot?, Sqe.cqe, hop, hi]
    have hc : (r.cqe res false).op = .recvFd := hop
    rw [hop, if_pos (by decide)] at hops
    simp only [Slot.recvs, Slot.finish, hf, List.countP_append, List.countP_cons, List.countP_nil,
      hc, decide_true, if_true]
    omega
  · have hf : [r.cqe res false].filter (fun c => c.slot? = some i) = [] := by
      simp [Cqe.slot?, Sqe.cqe, hop]
    rw [hop, if_neg (by decide)] at hops
    simp only [Slot.recvs, Slot.finish, hf, List.append_nil]
    omega

theorem Slot.recvs_finishWrite {w : Sqe} {res : Int} (h : w ∈ v.ops)
    (hop : w.request.op = .write) : (v.finishWrite w res).recvs = v.recvs := by
  have hops := countP_erase_add (P := fun r => decide (r.request.op = .recvFd)) h
  rw [hop, if_neg (by decide)] at hops
  have hfilter : ((v.ops.erase w).filter fun t => !w.isTimeoutOf t).countP
      (fun r => decide (r.request.op = .recvFd)) =
      (v.ops.erase w).countP fun r => decide (r.request.op = .recvFd) := by
    rw [List.countP_filter]
    refine List.countP_congr fun t _ => ?_
    cases ht : w.isTimeoutOf t with
    | false => simp
    | true => simp [(slot?_of_isTimeoutOf ht).2]
  have hc : (w.cqe res false).op = .write := hop
  simp only [Slot.recvs, Slot.finishWrite, hfilter, List.countP_append, List.countP_cons,
    List.countP_nil, hc]
  rw [if_neg (by decide)]
  omega

theorem View.Base.outside (h : V.Base) (ho : Outside V V') : V'.Base := by
  cases ho with
  | same => exact h
  | @received i r fd base len m hr hi hreq =>
    have hn : (V.note (.received i m)).Base := h.congr (.note _)
    refine hn.congr (.set ⟨?_, rfl, rfl, rfl, rfl, rfl⟩)
    exact Slot.recvs_finish (v := { V.slots i with conn := _ }) hr hi
      (.inl (by simp [hreq, Request.op]))
  | finished hr hi hop =>
    exact h.congr (.set ⟨Slot.recvs_finish hr hi (hop.imp And.left id), rfl, rfl, rfl, rfl, rfl⟩)
  | wrote hw hop =>
    exact h.congr (.set ⟨Slot.recvs_finishWrite hw hop, rfl, rfl, rfl, rfl, rfl⟩)
  | @processed i c' hq hk he hs =>
    have hb := h.slots i
    have hstate : (V.slots i).conn.state = .llmQueued := by
      by_contra hne
      exact absurd (hb.queued_of_ne hne) (Nat.ne_of_gt hq)
    have hone : (V.slots i).queued = 1 := by rw [hb.queued, if_pos hstate]
    have hnone := hb.curlEasy_none (by rw [hstate]; decide)
    have hw := hb.buffer_none (by rw [hstate]; decide)
    have hne : c'.state ≠ .receivingFd ∧ c'.state ≠ .llmQueued := by
      rcases hs with hs | hs | hs <;> simp [hs]
    refine (h.held (by rw [hstate]; decide)).set ⟨?_, ?_, ?_, ?_, ?_⟩ (.inl he)
    · rw [if_neg hne.1]
      exact hb.recvs_of_ne (by rw [hstate]; decide)
    · simp [hne.2, hone]
    · rw [he]
      exact hb.easies
    · simp [he, hnone]
    · simp [hk.asyncWriteBuf, hw]

/-- Removing the request of a slot leaves the other slots theirs. -/
theorem View.Slots.removeRequest {req : CurlRequest} (h : V.Slots)
    (hreq : req ∈ (V.slots i).requests) :
    V.removeRequest req.easy = V.set i { V.slots i with requests := [] } := by
  have he := h.curlEasy_of_mem hreq
  simp only [View.removeRequest, View.set, View.mk.injEq, true_and, and_true]
  funext j
  by_cases hj : j = i
  · subst hj
    have hnil : (V.slots j).requests.filter (fun r => decide (r.easy ≠ req.easy)) = [] := by
      refine List.filter_eq_nil_iff.mpr fun r hr => ?_
      have := (h.curlEasy_of_mem hr).symm.trans he
      simpa using this
    simp only [Function.update_self, hnil]
  · have hkeep : (V.slots j).requests.filter (fun r => decide (r.easy ≠ req.easy)) =
        (V.slots j).requests := by
      refine List.filter_eq_self.mpr fun r hr => ?_
      have hrj := h.curlEasy_of_mem hr
      have hne : r.easy ≠ req.easy := fun e => hj (h.handles j i req.easy (hrj.trans (by rw [e])) he)
      simpa using hne
    simp only [Function.update_of_ne hj, hkeep]

/-- What a message leaves of a slot, in all three cases. -/
theorem Ended.eq {good : Bool} (h : Ended V i good V') :
    ∃ buf onList, buf.isSome = (V.slots i).conn.asyncWriteBuf.isSome ∧
      V'.slots = (V.setConn i
        { (V.slots i).conn with
          state := .closing
          curlEasy := none
          asyncWriteBuf := buf
          onDirtyList := onList }).slots ∧
      V'.cfg = V.cfg ∧ V'.freeList = V.freeList ∧ V'.nextFree = V.nextFree ∧
      V'.nextEasy = V.nextEasy := by
  cases h with
  | silent _ => exact ⟨_, _, rfl, rfl, rfl, rfl, rfl, rfl⟩
  | @refused wb wb' block r hwb ha hr =>
    refine ⟨some wb', (V.slots i).conn.onDirtyList, by simp [hwb], ?_, rfl, rfl, rfl, rfl⟩
    simp only [View.close, View.appended, View.setConn, View.set, View.noteMoved,
      Function.update_idem, Function.update_self]
  | @marked wb wb' block hwb ha =>
    refine ⟨some wb', true, by simp [hwb], ?_, rfl, rfl, rfl, rfl⟩
    simp only [View.close, View.appended, View.mark, View.setConn, View.set, View.noteMoved,
      Function.update_idem, Function.update_self]

theorem View.Base.ended {req : CurlRequest} {good : Bool} (h : V.Base)
    (hreq : req ∈ (V.slots req.conn).requests)
    (he : Ended (V.removeRequest req.easy) req.conn good V') : V'.Base := by
  rw [h.removeRequest hreq] at he
  obtain ⟨buf, onList, hbuf, hslots, hcfg, hfree, hnext, heasy⟩ := he.eq
  have hstate := (h.slots req.conn).state_of_request (List.ne_nil_of_mem hreq)
  have hb := h.slots req.conn
  obtain ⟨hu, hr, hq⟩ := hb.responding (hstate.2.imp id fun h' => .inr (.inr (.inl h')))
  have hset : (V.set req.conn
      { V.slots req.conn with
        conn := { (V.slots req.conn).conn with
          state := .closing
          curlEasy := none
          asyncWriteBuf := buf
          onDirtyList := onList }
        requests := [] }).Base :=
    (h.held hu).set ⟨hr, hq, rfl, (fun he => by cases he), fun _ => ⟨hstate.1, .inr (.inr rfl)⟩⟩
      (.inr rfl)
  refine hset.congr ⟨hcfg, hfree, hnext, heasy, fun j => ?_⟩
  rw [hslots]
  simp only [View.setConn, View.set_set, View.set_slots_self]
  exact .refl _

theorem View.Base.effects (h : V.Base) (he : Effects V V') : V'.Base := by
  induction he with
  | refl => exact h
  | tail _ he ih => exact ih.effect he

theorem View.Base.flushed {prev : Option ConnId} {last : Bool} (h : V.Base)
    (hf : Flushed V i prev last V') : V'.Base := by
  cases hf with
  | passed _ => exact h.congr (.goto _)
  | queued hwb hd hp he _ => exact (h.effects he).congr (.goto _)
  | dropped _ => exact h.congr (.trans (.unlink _ _ _) (.goto _))
  | gaveUp hwb hd hp hg hV =>
    have hb := h.effect (.asyncGaveUp hwb hd hp hg)
    rcases hV with rfl | rfl
    · exact hb.congr (.trans (.note _) (.goto _))
    · exact hb.congr (.trans (.note _) (.trans (.unlink _ _ _) (.goto _)))

/-- **Every step keeps the invariant.** What a step can do is said once (`Stepped`), so that the
cases here are its constructors and not the branches of the daemon's code. -/
theorem View.Base.stepped {s : Daemon} {a : Label} (h : s.view.Base) (hs : Stepped s a V') :
    V'.Base := by
  cases hs with
  | outside ho => exact h.outside ho
  | effects _ he => exact h.effects he
  | goto _ => exact h.congr (.goto _)
  | flushing last => exact h.congr (.goto _)
  | flushed _ hf => exact h.flushed hf
  | ended _ hreq _ he => exact h.ended (mem_of_request? hreq).1 he

theorem boot_slot (cfg : Config) (i : ConnId) :
    (Daemon.boot cfg).slot i = ⟨.initial, 0, [], [], [], 0, 0⟩ := by
  simp only [Daemon.slot, Daemon.boot, Pool.queued, Pool.done, Slot.mk.injEq]
  refine ⟨trivial, trivial, ?_, rfl, rfl, rfl, rfl⟩
  split <;> simp [Sqe.slot?]

theorem base_boot (cfg : Config) : (Daemon.boot cfg).view.Base := by
  refine ⟨⟨fun i => ?_, fun i hi => ?_, fun i j e he => ?_, fun i e he => ?_⟩,
    List.range' 0 cfg.maxConnections, ?_, List.nodup_range', fun i hi => ?_⟩
  · rw [view_slots, boot_slot]
    exact ⟨rfl, rfl, rfl, (fun he => by cases he), fun hb => by cases hb⟩
  · rw [view_slots, boot_slot] at hi
    exact absurd rfl hi
  · rw [view_slots, boot_slot] at he
    cases he
  · rw [view_slots, boot_slot] at he
    cases he
  · exact linked_freeLink cfg.maxConnections 0 cfg.maxConnections (Nat.zero_add _)
  · rw [view_slots, boot_slot]
    have := List.mem_range'_1.mp hi
    exact ⟨by simpa [Daemon.boot] using this.2, rfl⟩

/-- **The invariant holds in every state of every run**, with no condition on the steps: it is what
remains true also where a slot is freed too early. -/
theorem base_reachable {cfg : Config} {s : Daemon} (h : (system cfg).Reachable s) :
    s.view.Base := by
  refine h.invariant (I := fun s => s.view.Base) (fun s hs => ?_) fun s a s' hs _ hstep =>
    hs.stepped (stepped hstep)
  obtain ⟨k, rfl⟩ := hs
  rw [view_submit]
  exact base_boot cfg

end SocketHandoff.Uring
