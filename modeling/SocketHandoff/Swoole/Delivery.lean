import SocketHandoff.Swoole.Dispatch
import Mathlib.Data.List.Nodup
import Mathlib.Data.List.ReduceOption

/-!
# What the dispatch of the Swoole daemon delivers

As long as responses come for open streams, no more of them are early than a channel holds, none
for a stream whose `send` fails, and nobody leaves while the reader waits to put a response into a
channel, every response is put into the channel of its stream, once and in order. Each of these conditions is needed: the step that
does not meet it loses a response or keeps one that nobody will fetch.
-/

namespace SocketHandoff.Swoole.Dispatch

/-! ## Delivery -/

/-- The responses that were put into the channel of a stream. -/
def Stream.put (t : Stream) : List Response := t.taken ++ t.items.reduceOption

/-- The response for a stream that the reader holds. -/
def Conn.inHand (s : Conn) (id : Nat) : List Response :=
  match s.reader with
  | .pushing r => if r.streamId = id then [r] else []
  | _ => []

/-- The responses of a stream that wait for their channel. -/
def Stream.waiting (t : Stream) (hand : List Response) : List Response :=
  match t.phase with
  | .sent => t.pending
  | .flushing _ | .registered => hand
  | .unsent | .unregistered | .failed => []

/-- **The promises of the dispatch.** What has arrived for a stream while it was open has been put
into its channel, in order, or waits for it; after its end nothing waits. A channel holds no
response of another stream. And there are early responses only for a stream that is at `send`. -/
structure Dispatched (s : Conn) : Prop where
  order : ∀ id, (s.streams id).put ++ (s.streams id).waiting (s.inHand id) = (s.streams id).arrived
  own : ∀ id, ∀ r ∈ (s.streams id).put, r.streamId = id
  pending : ∀ id, (s.streams id).pending ≠ [] → (s.streams id).phase = .sent

/-- A step that the dispatch can cope with: responses come for open streams only, no more are
early than a channel holds, and none for a stream whose `send` fails, because only `registerStream`
fetches them; and no stream leaves, and the connection is not closed, while the reader waits to put
a response into a channel. -/
def Orderly (s : Conn) : Label → Prop
  | .recv r => (s.streams r.streamId).phase.open = true
  | .register id => (s.streams id).pending.length ≤ capacity
  | .fail id thrown => (s.streams id).pending = [] ∧ (thrown = false → ∀ j, s.inHand j = [])
  | .unregister id => s.inHand id = []
  | .close => ∀ id, s.inHand id = []
  | _ => True

/-- What is kept for each stream. -/
structure Stream.Ok (id : Nat) (hand : List Response) (listed : Prop) (t : Stream) : Prop where
  order : t.put ++ t.waiting hand = t.arrived
  own : ∀ r ∈ t.arrived, r.streamId = id
  pending : t.pending ≠ [] → t.phase = .sent
  listed : listed ↔ t.phase = .registered
  flat : ∀ rest, t.phase ≠ .flushing rest
  early : t.phase = .unsent ∨ t.phase = .sent → t.items = [] ∧ t.taken = []
  hand : hand ≠ [] → t.phase = .registered

/-- **The invariant.** Each stream keeps its own books, for the channels share nothing but the
reader; what this holds while it waits for a place is the one response that is in no list. -/
structure Inv (s : Conn) : Prop where
  ok : ∀ id, (s.streams id).Ok id (s.inHand id) (id ∈ s.channels)
  nodup : s.channels.Nodup
  fresh : ∀ id, s.nextId ≤ id → (s.streams id).phase = .unsent

variable {s s' : Conn} {t : Stream} {id : Nat} {label : Label} {r : Response}

theorem inv_new : Inv .new where
  ok id := by constructor <;> simp [Conn.new, Stream.put, Stream.waiting, Conn.inHand]
  nodup := List.nodup_nil
  fresh _ _ := rfl

theorem Inv.dispatched (h : Inv s) : Dispatched s where
  order id := (h.ok id).order
  own id r hr := by
    refine (h.ok id).own r ?_
    rw [← (h.ok id).order]
    exact List.mem_append_left _ hr
  pending id := (h.ok id).pending

@[simp] theorem update_self (s : Conn) (id : Nat) (t : Stream) : (s.update id t).streams id = t := by
  simp [Conn.update]

theorem update_ne (s : Conn) (t : Stream) {j : Nat} (hj : j ≠ id) :
    (s.update id t).streams j = s.streams j := by
  simp [Conn.update, hj]

/-- A step that concerns one stream. -/
theorem Inv.change (h : Inv s) (id : Nat) (hstreams : ∀ j, j ≠ id → s'.streams j = s.streams j)
    (hhand : ∀ j, j ≠ id → s'.inHand j = s.inHand j)
    (hlisted : ∀ j, j ≠ id → (j ∈ s'.channels ↔ j ∈ s.channels))
    (hok : (s'.streams id).Ok id (s'.inHand id) (id ∈ s'.channels))
    (hnodup : s'.channels.Nodup)
    (hfresh : ∀ j, s'.nextId ≤ j → (s'.streams j).phase = .unsent) : Inv s' := by
  refine ⟨fun j => ?_, hnodup, hfresh⟩
  by_cases hj : j = id
  · subst hj
    exact hok
  · have hold := h.ok j
    rw [hstreams j hj, hhand j hj]
    exact { hold with listed := (hlisted j hj).trans hold.listed }

/-- A change of the reader that leaves it without a response, where it had none. -/
theorem inHand_nil {s : Conn} (h : ∀ r, s.reader ≠ .pushing r) (id : Nat) : s.inHand id = [] := by
  rw [Conn.inHand]
  split
  · exact absurd ‹_› (h _)
  · rfl

theorem inHand_update (s : Conn) (i : Nat) (t : Stream) (id : Nat) :
    (s.update i t).inHand id = s.inHand id := rfl

/-- An open stream that is not at `send` is registered. -/
theorem Inv.open_cases (h : Inv s) (hopen : (s.streams id).phase.open = true) :
    (s.streams id).phase = .sent ∧ id ∉ s.channels ∨
      (s.streams id).phase = .registered ∧ id ∈ s.channels := by
  have hok := h.ok id
  cases hphase : (s.streams id).phase with
  | sent => exact .inl ⟨rfl, fun hmem => by simp [hok.listed.mp hmem] at hphase⟩
  | flushing rest => exact absurd hphase (hok.flat rest)
  | registered => exact .inr ⟨rfl, hok.listed.mpr hphase⟩
  | unsent | unregistered | failed =>
    rw [hphase] at hopen
    cases hopen

/-- What is open is not new. -/
theorem Inv.not_fresh (h : Inv s) {j : Nat} (hphase : (s.streams id).phase ≠ .unsent)
    (hj : s.nextId ≤ j) : j ≠ id := by
  rintro rfl
  exact hphase (h.fresh j hj)

/-! ## What each step keeps -/

/-- A stream that is neither at `send` nor registered has nothing early, and nothing that the
reader holds. -/
theorem Stream.Ok.idle {hand : List Response} {listed : Prop} (h : t.Ok id hand listed)
    (hsent : t.phase ≠ .sent) (hreg : t.phase ≠ .registered) :
    t.pending = [] ∧ hand = [] ∧ ¬ listed ∧ t.put = t.arrived := by
  have hwaiting : t.waiting hand = [] := by
    rw [Stream.waiting]
    split
    · exact absurd ‹_› hsent
    · exact absurd ‹_› (h.flat _)
    · exact absurd ‹_› hreg
    all_goals rfl
  refine ⟨?_, ?_, fun hl => hreg (h.listed.mp hl), ?_⟩
  · by_contra hne
    exact hsent (h.pending hne)
  · by_contra hne
    exact hreg (h.hand hne)
  · rw [← h.order, hwaiting, List.append_nil]

theorem Inv.send (h : Inv s) : Inv { s.update s.nextId { s.streams s.nextId with phase := .sent } with
    nextId := s.nextId + 2 } := by
  have hphase := h.fresh s.nextId (Nat.le_refl _)
  have hok := h.ok s.nextId
  obtain ⟨hpending, hhand, hlisted, hput⟩ := hok.idle (by simp [hphase]) (by simp [hphase])
  have hearly := hok.early (.inl hphase)
  refine h.change s.nextId (fun j hj => update_ne _ _ hj) (fun _ _ => rfl) (fun _ _ => Iff.rfl) ?_
    h.nodup fun j hj => ?_
  · rw [update_self]
    refine ⟨?_, hok.own, fun _ => rfl, ⟨fun hl => absurd hl hlisted, fun hp => by cases hp⟩,
      fun _ => by simp, fun _ => hearly, fun hne => absurd hhand hne⟩
    change (s.streams s.nextId).put ++ (s.streams s.nextId).pending = _
    rw [hpending, List.append_nil, hput]
  · have hne : j ≠ s.nextId := by
      rintro rfl
      exact absurd hj (by simp)
    rw [update_ne _ _ hne]
    exact h.fresh j (Nat.le_trans (Nat.le_add_right _ 2) hj)

theorem Inv.register (h : Inv s) (hphase : (s.streams id).phase = .sent)
    (hfit : (s.streams id).pending.length ≤ capacity) :
    Inv { s.update id (s.streams id).register with channels := s.channels ++ [id] } := by
  have hok := h.ok id
  have hnew : id ∉ s.channels := fun hmem => by simp [hok.listed.mp hmem] at hphase
  have hhand : s.inHand id = [] := by
    by_contra hne
    simp [hok.hand hne] at hphase
  -- all of the early responses fit into the channel
  have hregister : (s.streams id).register = { s.streams id with
      phase := .registered
      pending := []
      items := (s.streams id).pending.map some } := by
    rw [Stream.register, List.drop_eq_nil_of_le hfit, List.take_of_length_le hfit]
    rfl
  refine h.change id (fun j hj => update_ne _ _ hj) (fun _ _ => rfl) (fun j hj => ?_) ?_ ?_
    fun j hj => ?_
  · simp [hj]
  · rw [update_self, hregister]
    refine ⟨?_, hok.own, fun hne => absurd rfl hne, iff_of_true (by simp) rfl, fun _ => by simp,
      fun hp => by simp at hp, fun _ => rfl⟩
    have horder := hok.order
    rw [Stream.waiting, hphase] at horder
    obtain ⟨hitems, htaken⟩ := hok.early (.inr hphase)
    rw [Stream.put, hitems, htaken] at horder
    have hput : ((s.streams id).pending.map some).reduceOption = (s.streams id).pending := by
      rw [List.reduceOption, List.filterMap_map]
      exact List.filterMap_some
    change (s.streams id).taken ++ ((s.streams id).pending.map some).reduceOption ++ s.inHand id = _
    rw [hput, htaken, hhand, List.append_nil]
    exact horder
  · exact List.nodup_append_comm.mp (List.nodup_cons.mpr ⟨hnew, h.nodup⟩)
  · rw [update_ne _ _ (h.not_fresh (by simp [hphase]) hj)]
    exact h.fresh j hj

theorem Inv.pop (h : Inv s) {item : Option Response} {items : List (Option Response)}
    (hphase : (s.streams id).phase = .registered) (hitems : (s.streams id).items = item :: items) :
    Inv (s.update id { s.streams id with
      items := items
      taken := (s.streams id).taken ++ item.toList }) := by
  have hok := h.ok id
  refine h.change id (fun j hj => update_ne _ _ hj) (fun _ _ => rfl) (fun _ _ => Iff.rfl) ?_
    h.nodup fun j hj => ?_
  · rw [update_self]
    refine { hok with order := ?_, early := fun hp => ?_ }
    · have hput : ((s.streams id).taken ++ item.toList) ++ items.reduceOption =
          (s.streams id).put := by
        rw [Stream.put, hitems]
        cases item <;> simp
      have horder := hok.order
      rw [← hput] at horder
      exact horder
    · rcases hp with hp | hp <;> exact absurd (hphase.symm.trans hp) (by simp)
  · rw [update_ne _ _ (h.not_fresh (by simp [hphase]) hj)]
    exact h.fresh j hj

theorem Inv.unregister (h : Inv s) (hphase : (s.streams id).phase = .registered)
    (hhand : s.inHand id = []) :
    Inv { s.update id { s.streams id with phase := .unregistered } with
      channels := s.channels.erase id } := by
  have hok := h.ok id
  have hpending : (s.streams id).pending = [] := by
    by_contra hne
    simp [hok.pending hne] at hphase
  refine h.change id (fun j hj => update_ne _ _ hj) (fun _ _ => rfl)
    (fun j hj => List.mem_erase_of_ne hj) ?_ (h.nodup.erase id) fun j hj => ?_
  · rw [update_self]
    refine ⟨?_, hok.own, fun hne => absurd hpending hne, ?_, fun _ => by simp,
      fun hp => by simp at hp, fun hne => absurd hhand hne⟩
    · have horder := hok.order
      rw [Stream.waiting, hphase] at horder
      change (s.streams id).put ++ s.inHand id = _ at horder
      rw [hhand] at horder
      exact horder
    · exact iff_of_false (h.nodup.not_mem_erase) (by simp)
  · rw [update_ne _ _ (h.not_fresh (by simp [hphase]) hj)]
    exact h.fresh j hj

/-- A response that arrives for an open stream. -/
theorem Stream.arrive_open (h : t.phase.open = true) :
    t.arrive r = { t with arrived := t.arrived ++ [r] } :=
  if_pos h

/-- A response that goes into the channel of its stream, at once or from the reader's hand. -/
theorem Stream.Ok.enters {hand arrived : List Response} {listed : Prop} (h : t.Ok id hand listed)
    (hphase : t.phase = .registered) (harrived : t.put ++ [r] = arrived)
    (hown : ∀ r' ∈ arrived, r'.streamId = id) :
    Stream.Ok id [] listed { t with items := t.items ++ [some r], arrived := arrived } := by
  refine ⟨?_, hown, h.pending, h.listed, h.flat, fun hp => ?_, fun hne => absurd rfl hne⟩
  · rw [Stream.waiting]
    simp only [hphase, List.append_nil]
    rw [← harrived, Stream.put, Stream.put, List.reduceOption_append, ← List.append_assoc]
    rfl
  · rcases hp with hp | hp <;> exact absurd (hphase.symm.trans hp) (by simp)

/-- What has arrived is the stream's own, with a response for it too. -/
theorem Stream.Ok.own_concat {hand : List Response} {listed : Prop}
    (h : t.Ok r.streamId hand listed) : ∀ r' ∈ t.arrived ++ [r], r'.streamId = r.streamId := by
  intro r' hr'
  rcases List.mem_append.mp hr' with hr' | hr'
  · exact h.own r' hr'
  · obtain rfl := List.mem_singleton.mp hr'
    rfl

theorem Inv.recv (h : Inv s) (hreader : s.reader = .recv)
    (hopen : (s.streams r.streamId).phase.open = true) : Inv (s.dispatch r) := by
  have hok := h.ok r.streamId
  have hnone : ∀ id, s.inHand id = [] := inHand_nil (by simp [hreader])
  have hfresh : ∀ t : Stream, ∀ j, s.nextId ≤ j →
      ((s.update r.streamId t).streams j).phase = .unsent := by
    intro t j hj
    have hne : j ≠ r.streamId := by
      refine h.not_fresh (fun hunsent => ?_) hj
      rw [hunsent] at hopen
      cases hopen
    rw [update_ne _ _ hne]
    exact h.fresh j hj
  rcases h.open_cases hopen with ⟨hphase, hnot⟩ | ⟨hphase, hlisted⟩
  · have hdispatch : s.dispatch r = s.update r.streamId { s.streams r.streamId with
        arrived := (s.streams r.streamId).arrived ++ [r]
        pending := (s.streams r.streamId).pending ++ [r] } := by
      simp only [Conn.dispatch, Stream.arrive_open hopen, if_neg hnot]
    rw [hdispatch]
    refine h.change r.streamId (fun j hj => update_ne _ _ hj) (fun _ _ => rfl) (fun _ _ => Iff.rfl)
      ?_ h.nodup (hfresh _)
    rw [update_self]
    refine ⟨?_, hok.own_concat, fun _ => hphase, hok.listed, hok.flat, hok.early, hok.hand⟩
    have horder := hok.order
    rw [Stream.waiting, hphase] at horder
    rw [Stream.waiting]
    simp only [hphase]
    change (s.streams r.streamId).put ++ (_ ++ [r]) = _ ++ [r]
    rw [← horder, List.append_assoc]
  · have horder := hok.order
    rw [Stream.waiting, hphase] at horder
    simp only [hnone, List.append_nil] at horder
    by_cases hroom : (s.streams r.streamId).items.length < capacity
    · have hdispatch : s.dispatch r = s.update r.streamId { s.streams r.streamId with
          items := (s.streams r.streamId).items ++ [some r]
          arrived := (s.streams r.streamId).arrived ++ [r] } := by
        simp only [Conn.dispatch, Stream.arrive_open hopen, if_pos hlisted, if_pos hroom]
      rw [hdispatch]
      refine h.change r.streamId (fun j hj => update_ne _ _ hj) (fun _ _ => rfl)
        (fun _ _ => Iff.rfl) ?_ h.nodup (hfresh _)
      rw [update_self, inHand_update, hnone]
      exact hok.enters hphase (by rw [horder]) hok.own_concat
    · -- the channel is full: the reader waits with the response in its hand
      have hdispatch : s.dispatch r = { s.update r.streamId { s.streams r.streamId with
          arrived := (s.streams r.streamId).arrived ++ [r] } with reader := .pushing r } := by
        simp only [Conn.dispatch, Stream.arrive_open hopen, if_pos hlisted, if_neg hroom]
      rw [hdispatch]
      refine h.change r.streamId (fun j hj => update_ne _ _ hj) (fun j hj => ?_)
        (fun _ _ => Iff.rfl) ?_ h.nodup (hfresh _)
      · rw [hnone]
        exact if_neg (Ne.symm hj)
      · have hhand : Conn.inHand { s.update r.streamId { s.streams r.streamId with
            arrived := (s.streams r.streamId).arrived ++ [r] } with reader := .pushing r }
            r.streamId = [r] := if_pos rfl
        rw [hhand, update_self]
        refine ⟨?_, hok.own_concat, hok.pending, hok.listed, hok.flat, hok.early, fun _ => hphase⟩
        rw [Stream.waiting]
        simp only [hphase]
        change (s.streams r.streamId).put ++ [r] = _ ++ [r]
        rw [horder]

/-- A step of the reader that touches no table. -/
theorem Inv.quiet (h : Inv s) (hstreams : s'.streams = s.streams)
    (hchannels : s'.channels = s.channels) (hnext : s'.nextId = s.nextId)
    (hhand : ∀ id, s'.inHand id = s.inHand id) : Inv s' := by
  refine ⟨fun id => ?_, hchannels ▸ h.nodup, fun id hid => ?_⟩
  · rw [hstreams, hhand, hchannels]
    exact h.ok id
  · rw [hstreams]
    exact h.fresh id (hnext ▸ hid)

theorem Inv.push (h : Inv s) (hpush : s.push = some s') : Inv s' := by
  rw [Conn.push] at hpush
  split at hpush
  · rename_i r hreader
    have hok := h.ok r.streamId
    have hhand : s.inHand r.streamId = [r] := by
      rw [Conn.inHand, hreader]
      exact if_pos rfl
    have hphase : (s.streams r.streamId).phase = .registered := hok.hand (by simp [hhand])
    rw [if_pos (hok.listed.mpr hphase)] at hpush
    simp only [Option.ite_none_right_eq_some, Option.some.injEq] at hpush
    obtain ⟨-, rfl⟩ := hpush
    refine h.change r.streamId (fun j hj => update_ne _ _ hj) (fun j hj => ?_)
      (fun _ _ => Iff.rfl) ?_ h.nodup fun j hj => ?_
    · rw [Conn.inHand, Conn.inHand, hreader]
      exact (if_neg (Ne.symm hj)).symm
    · rw [update_self]
      have horder := hok.order
      rw [Stream.waiting, hphase] at horder
      simp only [hhand] at horder
      exact hok.enters hphase horder hok.own
    · rw [update_ne _ _ (h.not_fresh (by simp [hphase]) hj)]
      exact h.fresh j hj
  · rename_i id ids hreader
    have hok := h.ok id
    have hnone : ∀ j, s.inHand j = [] := inHand_nil (by simp [hreader])
    split at hpush
    · rename_i hlisted
      have hphase := hok.listed.mp hlisted
      simp only [Option.ite_none_right_eq_some, Option.some.injEq] at hpush
      obtain ⟨-, rfl⟩ := hpush
      refine h.change id (fun j hj => update_ne _ _ hj) (fun j hj => (hnone j).symm)
        (fun _ _ => Iff.rfl) ?_ h.nodup fun j hj => ?_
      · rw [update_self]
        refine ⟨?_, hok.own, hok.pending, hok.listed, hok.flat, fun hp => ?_,
          fun hne => absurd rfl hne⟩
        · -- the `false` of a reader that ends is no response
          have hput : ((s.streams id).items ++ [none]).reduceOption =
              (s.streams id).items.reduceOption := by
            rw [List.reduceOption_append, List.reduceOption_cons_of_none]
            exact List.append_nil _
          have horder := hok.order
          rw [hnone, Stream.put, ← hput] at horder
          exact horder
        · rcases hp with hp | hp <;> exact absurd (hphase.symm.trans hp) (by simp)
      · rw [update_ne _ _ (h.not_fresh (by simp [hphase]) hj)]
        exact h.fresh j hj
    · obtain rfl := Option.some.inj hpush
      exact h.quiet rfl rfl rfl fun j => (hnone j).symm
  · rename_i hreader
    obtain rfl := Option.some.inj hpush
    exact h.quiet rfl rfl rfl fun j => by rw [Conn.inHand, Conn.inHand, hreader]
  · cases hpush
  · cases hpush

theorem inHand_closed (s : Conn) (id : Nat) : s.closed.inHand id = [] := by
  refine inHand_nil (fun r => ?_) id
  change s.cancelled ≠ _
  rw [Conn.cancelled]
  split <;> simp

/-- Closing a connection whose reader holds nothing. -/
theorem Inv.closed (h : Inv s) (hhand : ∀ id, s.inHand id = []) : Inv s.closed :=
  h.quiet rfl rfl rfl fun id => (inHand_closed s id).trans (hhand id).symm

/-- A stream whose `send` fails before anything has come for it leaves nothing behind. -/
theorem Inv.fail (h : Inv s) {thrown : Bool} (hphase : (s.streams id).phase = .sent)
    (hpending : (s.streams id).pending = []) (hhand : thrown = false → ∀ j, s.inHand j = []) :
    Inv (s.fail id thrown) := by
  have hok := h.ok id
  have hnone : s.inHand id = [] := by
    by_contra hne
    simp [hok.hand hne] at hphase
  have hfailed : Inv (s.update id { s.streams id with phase := .failed }) := by
    refine h.change id (fun j hj => update_ne _ _ hj) (fun _ _ => rfl) (fun _ _ => Iff.rfl) ?_
      h.nodup fun j hj => ?_
    · rw [update_self]
      refine ⟨?_, hok.own, fun hne => absurd hpending hne, ?_, fun _ => by simp,
        fun hp => by simp at hp, fun hne => absurd hnone hne⟩
      · have horder := hok.order
        rw [Stream.waiting, hphase] at horder
        simp only [hpending] at horder
        exact horder
      · refine iff_of_false (fun hl => ?_) (by simp)
        simp [hok.listed.mp hl] at hphase
    · rw [update_ne _ _ (h.not_fresh (by simp [hphase]) hj)]
      exact h.fresh j hj
  rw [Conn.fail]
  cases thrown with
  | true => exact hfailed
  | false => exact hfailed.closed (hhand rfl)

/-- **A step that the dispatch can cope with keeps the invariant.** For every stream, what has
arrived is what was taken, what is in the channel, what the reader has in hand and what is still to
be flushed, in this order. -/
theorem inv_step (h : Inv s) (ho : Orderly s label) (hstep : step s label = some s') : Inv s' := by
  cases step_moves hstep with
  | send => exact h.send
  | register id hphase => exact h.register hphase ho
  | fail id thrown hphase => exact h.fail hphase ho.1 ho.2
  | flush id rest t hphase => exact absurd hphase ((h.ok id).flat rest)
  | pop id item items hphase hitems => exact h.pop hphase hitems
  | unregister id hphase => exact h.unregister hphase ho
  | recv r hreader => exact h.recv hreader ho
  | leave hreader =>
    exact h.quiet rfl rfl rfl fun id => (inHand_nil (by simp [hreader]) id).symm
  | push _ hpush => exact h.push hpush
  | disconnect => exact h.quiet rfl rfl rfl fun _ => rfl
  | close => exact h.closed ho

theorem inv_reachable (h : conn.ReachableIf Orderly s) : Inv s :=
  h.invariant (fun s hs => by
    obtain rfl : s = _ := hs
    exact inv_new) fun _ _ _ hI ho hstep => inv_step hI ho hstep

/-! ## What breaks it -/

/-- A response for a stream that is not open stays among the early ones. -/
theorem Inv.late (h : Inv s) (hopen : (s.streams r.streamId).phase.open = false) :
    ¬ Dispatched (s.dispatch r) := by
  intro hd
  have hnot : r.streamId ∉ s.channels := fun hmem => by
    rw [(h.ok r.streamId).listed.mp hmem] at hopen
    cases hopen
  have hdispatch : s.dispatch r = s.update r.streamId { s.streams r.streamId with
      pending := (s.streams r.streamId).pending ++ [r] } := by
    simp only [Conn.dispatch, Stream.arrive, hopen, if_neg hnot]
    rfl
  have hsent := hd.pending r.streamId
  rw [hdispatch, update_self] at hsent
  have hphase : (s.streams r.streamId).phase = .sent := hsent (by simp)
  rw [hphase] at hopen
  cases hopen

/-- More early responses than a channel holds leave the stream in `registerStream`. -/
theorem not_dispatched_register (hfit : ¬ (s.streams id).pending.length ≤ capacity) :
    ¬ Dispatched { s.update id (s.streams id).register with channels := s.channels ++ [id] } := by
  intro hd
  have hrest : (s.streams id).pending.drop capacity ≠ [] := by
    intro hnil
    exact hfit (List.drop_eq_nil_iff.mp hnil)
  have hregister : (s.streams id).register = { s.streams id with
      phase := .flushing ((s.streams id).pending.drop capacity)
      items := ((s.streams id).pending.take capacity).map some } := by
    rw [Stream.register, Stream.flushed, if_neg hrest]
  have hsent := hd.pending id
  change ((s.update id (s.streams id).register).streams id).pending ≠ [] →
    ((s.update id (s.streams id).register).streams id).phase = .sent at hsent
  rw [update_self, hregister] at hsent
  have hne : (s.streams id).pending ≠ [] := by
    intro hnil
    rw [hnil] at hfit
    exact hfit (Nat.zero_le _)
  cases hsent hne

/-- A response that the reader holds is lost when its stream leaves. -/
theorem Inv.lost (h : Inv s) (hphase : (s.streams id).phase = .registered)
    (hhand : s.inHand id ≠ []) :
    ¬ Dispatched { s.update id { s.streams id with phase := .unregistered } with
      channels := s.channels.erase id } := by
  intro hd
  have horder := (h.ok id).order
  have hlate := hd.order id
  change ((s.update id { s.streams id with phase := .unregistered }).streams id).put ++
    ((s.update id { s.streams id with phase := .unregistered }).streams id).waiting _ =
      ((s.update id { s.streams id with phase := .unregistered }).streams id).arrived at hlate
  rw [update_self] at hlate
  rw [Stream.waiting, hphase] at horder
  change (s.streams id).put ++ [] = (s.streams id).arrived at hlate
  rw [← horder] at hlate
  exact hhand (List.append_cancel_left hlate).symm

/-- A response that the reader holds is lost when the connection is closed. -/
theorem Inv.dropped (h : Inv s) (hhand : s.inHand id ≠ [])
    (hkept : s'.streams id = s.streams id) (hclosed : s'.inHand id = []) : ¬ Dispatched s' := by
  intro hd
  have hphase := (h.ok id).hand hhand
  have horder := (h.ok id).order
  have hlate := hd.order id
  rw [hclosed, hkept, Stream.waiting] at hlate
  rw [Stream.waiting] at horder
  simp only [hphase] at hlate horder
  rw [← horder] at hlate
  exact hhand (List.append_cancel_left hlate).symm

/-- A response that has come for a stream whose `send` fails is kept for ever, and one that the
reader holds for another stream is lost with the connection. -/
theorem Inv.fail_orderly (h : Inv s) {thrown : Bool} (hphase : (s.streams id).phase = .sent)
    (hd : Dispatched (s.fail id thrown)) :
    (s.streams id).pending = [] ∧ (thrown = false → ∀ j, s.inHand j = []) := by
  have hstreams : (s.fail id thrown).streams =
      (s.update id { s.streams id with phase := .failed }).streams := by
    rw [Conn.fail]
    cases thrown <;> rfl
  constructor
  · by_contra hne
    have hsent := hd.pending id
    rw [hstreams, update_self] at hsent
    cases hsent hne
  · rintro rfl j
    by_contra hhand
    have hj : j ≠ id := by
      rintro rfl
      exact absurd ((h.ok j).hand hhand) (by simp [hphase])
    have hkept : (s.fail id false).streams j = s.streams j := by rw [hstreams, update_ne _ _ hj]
    exact h.dropped hhand hkept (inHand_closed _ j) hd

/-- **Step by step**: the promises are kept exactly if the dispatch can cope with the step. -/
theorem dispatched_step_iff (h : Inv s) (hstep : step s label = some s') :
    Dispatched s' ↔ Orderly s label := by
  refine ⟨fun hd => ?_, fun ho => (inv_step h ho hstep).dispatched⟩
  cases step_moves hstep with
  | register id hphase =>
    by_contra hfit
    exact not_dispatched_register hfit hd
  | unregister id hphase =>
    by_contra hhand
    exact h.lost hphase hhand hd
  | recv r hreader =>
    by_contra hopen
    exact h.late (by simpa [Orderly] using hopen) hd
  | close =>
    intro id
    by_contra hhand
    have hkept : s.closed.streams id = s.streams id := rfl
    exact h.dropped hhand hkept (inHand_closed s id) hd
  | fail id thrown hphase => exact h.fail_orderly hphase hd
  | send | flush _ _ _ _ | pop _ _ _ _ _ | leave _ | push _ _ | disconnect => trivial

/-- The reader that waits with a response can go on, or the stream of the response can pop. -/
theorem Inv.goes_on (h : Inv s) (hreader : s.reader = .pushing r) :
    (step s .push).isSome ∨ (step s (.pop r.streamId)).isSome := by
  have hok := h.ok r.streamId
  have hhand : s.inHand r.streamId ≠ [] := by
    rw [Conn.inHand, hreader]
    simp
  have hphase := hok.hand hhand
  have hlisted := hok.listed.mpr hphase
  by_cases hroom : (s.streams r.streamId).items.length < capacity
  · exact .inl (by simp [step, Conn.push, hreader, hlisted, hroom])
  · refine .inr ?_
    cases hitems : (s.streams r.streamId).items with
    | nil =>
      rw [hitems] at hroom
      exact absurd (by decide) hroom
    | cons item items => simp [step, hphase, hitems]

/-- **When the dispatch keeps its promises.** In a run whose steps it can cope with, in every state:
what has arrived for a stream between its `send` and its `unregisterStream` is in its channel, in
order and once, or waits for a place that its stream can make; no channel has a response of another
stream; and early responses are kept only for a stream at `send`. The first step it cannot cope
with breaks them. -/
theorem dispatched_iff_orderly (s : Conn) (h : conn.ReachableIf Orderly s) :
    (Dispatched s ∧ ∀ r, s.reader = .pushing r →
      (conn.step s .push).isSome ∨ (conn.step s (.pop r.streamId)).isSome) ∧
    ∀ label s', conn.step s label = some s' → (Dispatched s' ↔ Orderly s label) :=
  ⟨⟨(inv_reachable h).dispatched, fun _ hr => (inv_reachable h).goes_on hr⟩,
    fun _ _ hstep => dispatched_step_iff (inv_reachable h) hstep⟩

/-- The data of a last event. -/
def lastEvent : List UInt8 := [100, 97, 116, 97, 58, 32, 91, 68, 79, 78, 69, 93, 10, 10]

/-- An ordinary stream: its coroutine leaves on `data: [DONE]`. -/
theorem ordinary : ∃ s, conn.ReachableIf Orderly s ∧ s.reader = .recv ∧ s.running = true ∧
    s.connected = true ∧ (s.streams 1).phase = .unregistered := by
  have hinit : conn.ReachableIf Orderly .new := .init rfl
  have hsend := hinit.step (a := Label.send) trivial rfl
  have hrecv := hsend.step (a := Label.recv ⟨1, lastEvent⟩) rfl rfl
  have hregister := hrecv.step (a := Label.register 1) (Nat.le_of_ble_eq_true rfl) rfl
  have hpop := hregister.step (a := Label.pop 1) trivial rfl
  have hleft := hpop.step (a := Label.unregister 1) rfl rfl
  exact ⟨_, hleft, rfl, rfl, rfl, rfl⟩

/-- The frame that ends the stream comes after its coroutine has left. -/
theorem step_late {s : Conn} (hreader : s.reader = .recv) (hrunning : s.running = true)
    (hconnected : s.connected = true) : conn.step s (.recv ⟨1, []⟩) = some (s.dispatch ⟨1, []⟩) :=
  if_pos ⟨hreader, hrunning, hconnected⟩

theorem dispatched_iff_orderly_late : ∃ s s', conn.ReachableIf Orderly s ∧
    conn.step s (.recv ⟨1, []⟩) = some s' ∧ Dispatched s ∧
    (Dispatched s' ↔ Orderly s (.recv ⟨1, []⟩)) := by
  obtain ⟨s, hs, hreader, hrunning, hconnected, -⟩ := ordinary
  obtain ⟨hall, hiff⟩ := dispatched_iff_orderly s hs
  have hstep := step_late hreader hrunning hconnected
  exact ⟨s, _, hs, hstep, hall.1, hiff _ _ hstep⟩

/-- After an ordinary stream its last frame is kept for ever. -/
theorem not_dispatched : ¬ ∀ s, conn.Reachable s → Dispatched s := by
  intro hall
  obtain ⟨s, hs, hreader, hrunning, hconnected, hphase⟩ := ordinary
  have hreach : conn.Reachable s := hs.mono fun _ _ _ => trivial
  have hstep := step_late hreader hrunning hconnected
  refine (inv_reachable hs).late (r := ⟨1, []⟩) ?_ (hall _ (hreach.step trivial hstep))
  rw [hphase]
  rfl

end SocketHandoff.Swoole.Dispatch
