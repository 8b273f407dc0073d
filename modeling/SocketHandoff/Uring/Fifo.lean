import SocketHandoff.Lib.Fifo
import SocketHandoff.Lib.System
import SocketHandoff.Uring.WriteBuffer

/-!
# The write buffer is a queue

However its calls follow one another and whatever the allocator answers, a write buffer behaves
like the queue of the bytes between `tail` and `head`: compacting and growing move them and change
none, and a failed append leaves them alone.
-/

namespace SocketHandoff.Uring

namespace WriteBuffer

variable {wb wb' : WriteBuffer} {data : List UInt8} {len newCap n : Nat} {realloc : Option Block}
  {r : Appended}

/-- The bytes that wait. -/
def pending (wb : WriteBuffer) : List UInt8 := wb.bytes.drop wb.tail

/-- What `write_buffer_get_next` shows of the buffer. -/
def exposed (wb : WriteBuffer) : List UInt8 :=
  match wb.getNext with
  | none => []
  | some (_, offset, len) => (wb.bytes.drop offset).take len

/-- The positions of a buffer are in order. -/
structure Ordered (wb : WriteBuffer) : Prop where
  tail : wb.tail ≤ wb.head
  head : wb.head ≤ wb.capacity
  capacity : wb.capacity ≤ writeBufferMaxSize

theorem length_pending : wb.pending.length = wb.size := List.length_drop ..

/-- **What is shown is what waits**: the pointer and the size that are handed to the kernel cover
the bytes that are not sent yet, and no others. -/
theorem exposed_eq : wb.exposed = wb.pending := by
  have hlen : wb.pending.length = wb.size := length_pending
  simp only [exposed, getNext]
  by_cases hsize : wb.size = 0
  · rw [if_pos hsize]
    exact (List.eq_nil_of_length_eq_zero (hlen.trans hsize)).symm
  · rw [if_neg hsize]
    exact List.take_of_length_le (Nat.le_of_eq hlen)

/-! ## Appending -/

theorem Ordered.compact (h : wb.Ordered) : wb.compact.Ordered := by
  have hsize : wb.compact.head = wb.size := List.length_drop ..
  refine ⟨Nat.zero_le _, ?_, h.capacity⟩
  rw [hsize]
  exact Nat.le_trans (Nat.sub_le _ _) h.head

/-- Growing keeps the positions in order, as long as it does not shrink the buffer. -/
theorem Ordered.grow (h : wb.Ordered) (hcap : wb.head ≤ newCap)
    (hg : wb.grow newCap realloc = (r, wb')) :
    wb'.Ordered ∧ (r = .ok → wb'.capacity = newCap) := by
  simp only [WriteBuffer.grow] at hg
  split at hg
  · cases hg
    exact ⟨h, by simp⟩
  · rename_i hmax
    cases realloc <;> cases hg
    · exact ⟨h, by simp⟩
    · exact ⟨⟨h.tail, hcap, by simpa using hmax⟩, fun _ => rfl⟩

/-- The capacity asked for while a write is in flight is enough. -/
theorem le_capacityInFlight : wb.head + len ≤ wb.capacityInFlight len := by
  simp only [capacityInFlight]
  split <;> omega

/-- **Making room** makes it, when it says so: by moving the bytes to the front of their block, or
by a larger block. -/
theorem Ordered.makeRoom (h : wb.Ordered) (hm : wb.makeRoom len realloc = (r, wb')) :
    wb'.Ordered ∧ (r = .ok → wb'.head + len ≤ wb'.capacity) := by
  simp only [WriteBuffer.makeRoom] at hm
  split at hm
  · split at hm
    · -- a write is in flight: the bytes stay where they are
      have hlen : wb.head + len ≤ wb.capacityInFlight len := le_capacityInFlight
      obtain ⟨ho, hcap⟩ := h.grow (by omega) hm
      refine ⟨ho, fun hr => ?_⟩
      rw [hcap hr, WriteBuffer.head, (grow_cases hm).1]
      exact hlen
    · have hsize : wb.compact.head = wb.size := List.length_drop ..
      split at hm
      · have hlen : wb.size + len ≤ wb.capacityCompacted len := Nat.le_max_right ..
        obtain ⟨ho, hcap⟩ := h.compact.grow (by omega) hm
        refine ⟨ho, fun hr => ?_⟩
        rw [hcap hr, WriteBuffer.head, (grow_cases hm).1]
        exact Nat.le_trans (Nat.add_le_add_right (Nat.le_of_eq hsize) len) hlen
      · cases hm
        refine ⟨h.compact, fun _ => ?_⟩
        rw [hsize]
        exact Nat.le_of_not_lt ‹_›
  · cases hm
    have := h.head
    exact ⟨h, fun _ => by omega⟩

/-- What `write_buffer_append` does: the data waits behind the other bytes, or nothing of what
waits is different. -/
theorem Ordered.append (h : wb.Ordered) (ha : wb.append data realloc = (r, wb')) :
    wb'.Ordered ∧ wb'.pending = if r = .ok then wb.pending ++ data else wb.pending := by
  simp only [WriteBuffer.append] at ha
  split at ha
  · cases ha
    exact ⟨h, rfl⟩
  · cases hm : wb.makeRoom data.length realloc with
    | mk r₁ wb₁ =>
      obtain ⟨ho, hroom⟩ := h.makeRoom hm
      have hp : wb₁.pending = wb.pending := (makeRoom_cases hm).2.2.1
      rw [hm] at ha
      cases r₁ with
      | ok =>
        cases ha
        have htail := ho.tail
        refine ⟨⟨?_, ?_, ho.capacity⟩, ?_⟩
        · simp only [WriteBuffer.head, List.length_append] at htail ⊢
          omega
        · simpa only [WriteBuffer.head, List.length_append] using hroom rfl
        · rw [if_pos rfl, ← hp]
          exact List.drop_append_of_le_length htail
      | noMemory | full => cases ha; exact ⟨ho, hp⟩

/-! ## Consuming -/

/-- What `write_buffer_consume` does: the first bytes are gone. -/
theorem Ordered.consume (h : wb.Ordered) (n : Nat) :
    (wb.consume n).Ordered ∧ (wb.consume n).pending = wb.pending.drop n := by
  have htail := h.tail
  have hhead := h.head
  have hlen : wb.pending.length = _ := length_pending
  simp only [WriteBuffer.consume]
  split
  · rename_i hall
    refine ⟨⟨Nat.le_refl _, Nat.zero_le _, h.capacity⟩, (List.drop_eq_nil_of_le ?_).symm⟩
    simp only [size] at hall hlen
    omega
  · rename_i hsome
    simp only [size] at hsome
    refine ⟨⟨?_, hhead, h.capacity⟩, ?_⟩
    · simp only [size, WriteBuffer.head] at htail ⊢
      omega
    · have hn : min n (wb.head - wb.tail) = n := by omega
      simp only [pending, size, hn, List.drop_drop]

theorem Ordered.setPending (h : wb.Ordered) (p : Bool) : (wb.setPending p).Ordered :=
  ⟨h.tail, h.head, h.capacity⟩

theorem ordered_initSized {capacity : Nat} (hcap : capacity ≤ writeBufferMaxSize)
    (h : initSized capacity realloc = some wb) : wb.Ordered ∧ wb.pending = [] := by
  obtain ⟨b, rfl, rfl⟩ := Option.map_eq_some_iff.mp h
  exact ⟨⟨Nat.le_refl _, Nat.zero_le _, hcap⟩, rfl⟩

end WriteBuffer

/-! ## Sequences of calls -/

/-- A call of `write_buffer.h`, with what `realloc` returns if it is called. -/
inductive BufferCall
  | append (data : List UInt8) (realloc : Option Block)
  | getNext
  | setPending (pending : Bool)
  | consume (n : Nat)
  deriving DecidableEq, Repr

/-- A buffer in use. -/
structure Usage where
  wb : WriteBuffer
  /-- the data of the appends that returned 0 -/
  appended : List UInt8
  /-- the bytes consumed, as they were shown -/
  consumed : List UInt8

/-- What a user does to the buffer. It never consumes more than waits. -/
def Usage.step (u : Usage) : BufferCall → Option Usage
  | .append data realloc =>
    match u.wb.append data realloc with
    | (.ok, wb) => some { u with wb := wb, appended := u.appended ++ data }
    | (_, wb) => some { u with wb := wb }
  | .getNext => some u
  | .setPending pending => some { u with wb := u.wb.setPending pending }
  | .consume n =>
    if n ≤ u.wb.size then
      some { u with wb := u.wb.consume n, consumed := u.consumed ++ u.wb.exposed.take n }
    else none

/-- Write buffers of any capacity up to the maximum, in any use. -/
def bufferSystem : System Usage BufferCall where
  init u := u.appended = [] ∧ u.consumed = [] ∧
    ∃ capacity ≤ writeBufferMaxSize, ∃ malloc, WriteBuffer.initSized capacity malloc = some u.wb
  step := Usage.step

/-- The queue a buffer in use stands for. -/
def Usage.fifo (u : Usage) : Fifo UInt8 := ⟨u.appended, u.wb.pending, u.consumed⟩

/-- A call is one of the operations of a queue, or nothing. -/
theorem Usage.step_fifo {u u' : Usage} {call : BufferCall} (h : u.wb.Ordered)
    (hs : u.step call = some u') : u'.wb.Ordered ∧
      ((∃ data, u'.fifo = u.fifo.enter data) ∨ (∃ n, u'.fifo = u.fifo.leave n) ∨
        u'.fifo = u.fifo) := by
  cases call with
  | append data realloc =>
    simp only [step] at hs
    cases ha : u.wb.append data realloc with
    | mk r wb =>
      obtain ⟨ho, hp⟩ := h.append ha
      rw [ha] at hs
      cases r with
      | ok =>
        obtain rfl := Option.some.inj hs
        refine ⟨ho, .inl ⟨data, ?_⟩⟩
        simp only [fifo, Fifo.enter, hp, if_true]
      | noMemory | full =>
        obtain rfl := Option.some.inj hs
        refine ⟨ho, .inr (.inr ?_)⟩
        simp [fifo, hp]
  | getNext =>
    obtain rfl := Option.some.inj hs
    exact ⟨h, .inr (.inr rfl)⟩
  | setPending pending =>
    obtain rfl := Option.some.inj hs
    exact ⟨h.setPending pending, .inr (.inr rfl)⟩
  | consume n =>
    obtain ⟨-, hs⟩ := Option.ite_none_right_eq_some.mp hs
    obtain rfl := Option.some.inj hs
    obtain ⟨ho, hp⟩ := h.consume n
    refine ⟨ho, .inr (.inl ⟨n, ?_⟩)⟩
    simp only [fifo, Fifo.leave, hp, WriteBuffer.exposed_eq]

/-- In every use the positions are in order, and so are the bytes. -/
theorem Usage.reachable_inOrder {u : Usage} (h : bufferSystem.Reachable u) :
    u.wb.Ordered ∧ u.fifo.InOrder := by
  refine h.invariant (I := fun u => u.wb.Ordered ∧ u.fifo.InOrder) ?_ ?_
  · rintro u ⟨happ, hcons, capacity, hcap, malloc, hinit⟩
    obtain ⟨ho, hp⟩ := WriteBuffer.ordered_initSized hcap hinit
    refine ⟨ho, ?_⟩
    have hfresh : u.fifo = .fresh := by rw [fifo, happ, hcons, hp]; rfl
    exact hfresh ▸ Fifo.inOrder_fresh
  · rintro u call u' ⟨ho, hio⟩ - hs
    obtain ⟨ho', ⟨data, hf⟩ | ⟨n, hf⟩ | hf⟩ := step_fifo ho hs
    · exact ⟨ho', hf ▸ hio.enter data⟩
    · exact ⟨ho', hf ▸ hio.leave n⟩
    · exact ⟨ho', hf ▸ hio⟩

/-- **The write buffer is first in, first out**, for every sequence of calls: the bytes consumed
and the bytes that wait are those appended, `write_buffer_get_next` shows the ones that wait, and
an append that fails changes none of them. -/
theorem writeBuffer_fifo {u : Usage} (h : bufferSystem.Reachable u) :
    u.consumed ++ u.wb.pending = u.appended ∧
    u.wb.exposed = u.wb.pending ∧
    (∀ data realloc r wb', u.wb.append data realloc = (r, wb') → r ≠ .ok →
      wb'.pending = u.wb.pending) ∧
    u.wb.tail ≤ u.wb.head ∧ u.wb.head ≤ u.wb.capacity ∧ u.wb.capacity ≤ writeBufferMaxSize := by
  obtain ⟨ho, hio⟩ := Usage.reachable_inOrder h
  refine ⟨hio, WriteBuffer.exposed_eq, fun data realloc r wb' ha hr => ?_, ho.tail, ho.head,
    ho.capacity⟩
  rw [(ho.append ha).2, if_neg hr]

/-- A buffer of two bytes that grows under a write in flight and is then written in part. -/
theorem writeBuffer_fifo_grown :
    ∃ u, bufferSystem.Reachable u ∧ u.consumed = [1] ∧ u.wb.pending = [2, 3] ∧
      u.consumed ++ u.wb.pending = u.appended := by
  let u₀ : Usage := ⟨{ WriteBuffer.init 0 with capacity := 2 }, [], []⟩
  have h₀ : bufferSystem.Reachable u₀ := .init ⟨rfl, rfl, 2, by decide, some 0, rfl⟩
  have h := h₀.run [.append [1, 2] none, .setPending true, .append [3] (some 1), .consume 1] rfl
  exact ⟨_, h, rfl, rfl, (writeBuffer_fifo h).1⟩

end SocketHandoff.Uring
