import Mathlib.Data.Nat.ModEq
import Mathlib.Logic.Function.Basic

/-!
# Ring buffers

An array with an index to read from and one to write to, of which one place always stays empty: equal
indices mean that there is nothing to read. `Holds` says what a buffer holds, from the oldest entry on.
-/

namespace SocketHandoff

structure RingBuffer (α : Type) where
  slots : Nat → Option α
  head : Nat
  tail : Nat
  size : Nat

namespace RingBuffer

variable {α : Type}

/-- The index after an index. -/
def after (r : RingBuffer α) (i : Nat) : Nat := (i + 1) % r.size

/-- There is no place to write to. One place stays empty, or a full ring would look like an empty
one. -/
def Full (r : RingBuffer α) : Prop := r.after r.tail = r.head

instance (r : RingBuffer α) : Decidable r.Full := inferInstanceAs (Decidable (_ = _))

def push (r : RingBuffer α) (a : α) : RingBuffer α :=
  { r with
    slots := Function.update r.slots r.tail (some a)
    tail := r.after r.tail }

/-- What is read next; a place that was never written to reads as nothing. -/
def first (r : RingBuffer α) : Option α := if r.head = r.tail then none else r.slots r.head

def pop (r : RingBuffer α) : RingBuffer α :=
  if r.head = r.tail then r else { r with head := r.after r.head }

structure Holds (r : RingBuffer α) (l : List α) : Prop where
  head : r.head < r.size
  length : l.length < r.size
  tail : r.tail = (r.head + l.length) % r.size
  slots : ∀ j a, l[j]? = some a → r.slots ((r.head + j) % r.size) = some a

variable {r : RingBuffer α} {l : List α} {a : α}

theorem add_mod_inj {n h i j : Nat} (hi : i < n) (hj : j < n) (heq : (h + i) % n = (h + j) % n) :
    i = j :=
  Nat.ModEq.eq_of_lt_of_lt (Nat.ModEq.add_left_cancel' h heq) hi hj

theorem Holds.pos (h : r.Holds l) : 0 < r.size := Nat.lt_of_le_of_lt (Nat.zero_le _) h.head

theorem holds_new {n : Nat} (hn : 0 < n) (slots : Nat → Option α) :
    (⟨slots, 0, 0, n⟩ : RingBuffer α).Holds [] :=
  ⟨hn, hn, by simp, by simp⟩

/-- The place that is written to has nothing unread. -/
theorem Holds.tail_ne (h : r.Holds l) {j : Nat} (hj : j < l.length) :
    (r.head + j) % r.size ≠ r.tail := by
  rw [h.tail]
  intro heq
  have := add_mod_inj (Nat.lt_trans hj h.length) h.length heq
  omega

theorem Holds.head_eq (h : r.Holds l) : r.head = (r.head + 0) % r.size := by
  rw [Nat.add_zero, Nat.mod_eq_of_lt h.head]

/-- Equal indices mean that it is empty. -/
theorem Holds.empty_iff (h : r.Holds l) : r.head = r.tail ↔ l = [] := by
  constructor
  · intro heq
    rw [h.tail] at heq
    have := add_mod_inj h.pos h.length (h.head_eq.symm.trans heq)
    exact List.length_eq_zero_iff.mp this.symm
  · rintro rfl
    rw [h.tail, List.length_nil, Nat.add_zero, Nat.mod_eq_of_lt h.head]

theorem Holds.after_tail (h : r.Holds l) : r.after r.tail = (r.head + (l.length + 1)) % r.size := by
  rw [after, h.tail, Nat.mod_add_mod, Nat.add_assoc]

/-- It is full when one place is left. -/
theorem Holds.full_iff (h : r.Holds l) : r.Full ↔ l.length + 1 = r.size := by
  rw [Full, h.after_tail]
  constructor
  · intro heq
    by_contra hne
    have hlt : l.length + 1 < r.size := Nat.lt_of_le_of_ne h.length hne
    have := add_mod_inj hlt h.pos (heq.trans h.head_eq)
    omega
  · intro hfull
    rw [hfull, Nat.add_mod_right, Nat.mod_eq_of_lt h.head]

/-- **Writing** an entry puts it last, unless the buffer is full. One place stays empty, so that a
full buffer differs from one that holds nothing. -/
theorem Holds.push (h : r.Holds l) (hfull : ¬ r.Full) : (r.push a).Holds (l ++ [a]) := by
  have hroom : l.length + 1 < r.size :=
    Nat.lt_of_le_of_ne h.length fun heq => hfull (h.full_iff.mpr heq)
  refine ⟨h.head, ?_, ?_, fun j b hj => ?_⟩
  · rw [List.length_append, List.length_singleton]
    exact hroom
  · rw [List.length_append, List.length_singleton]
    exact h.after_tail
  · change Function.update r.slots r.tail (some a) ((r.head + j) % r.size) = some b
    by_cases hlast : j < l.length
    · rw [Function.update_of_ne (h.tail_ne hlast)]
      rw [List.getElem?_append_left hlast] at hj
      exact h.slots j b hj
    · obtain rfl : j = l.length := by
        have hbound := (List.getElem?_eq_some_iff.mp hj).1
        rw [List.length_append, List.length_singleton] at hbound
        omega
      rw [← h.tail, Function.update_self]
      simpa using hj

/-- **Reading** takes the oldest entry. -/
theorem Holds.pop (h : r.Holds (a :: l)) : r.first = some a ∧ r.pop.Holds l := by
  have hne : r.head ≠ r.tail := fun heq => by simpa using h.empty_iff.mp heq
  have hlength : l.length + 1 < r.size := h.length
  have hnext : ∀ k, (r.after r.head + k) % r.size = (r.head + (k + 1)) % r.size := by
    intro k
    rw [after, Nat.mod_add_mod, Nat.add_assoc, Nat.add_comm 1 k]
  refine ⟨?_, ?_⟩
  · rw [first, if_neg hne, h.head_eq]
    exact h.slots 0 a rfl
  · rw [RingBuffer.pop, if_neg hne]
    refine ⟨Nat.mod_lt _ h.pos, Nat.lt_of_succ_lt hlength, ?_, fun j b hj => ?_⟩
    · change r.tail = (r.after r.head + l.length) % r.size
      rw [hnext]
      exact h.tail
    · change r.slots ((r.after r.head + j) % r.size) = some b
      rw [hnext]
      exact h.slots (j + 1) b hj

theorem Holds.pop_nil (h : r.Holds []) : r.first = none ∧ r.pop = r := by
  have heq := h.empty_iff.mpr rfl
  exact ⟨if_pos heq, if_pos heq⟩

end RingBuffer

end SocketHandoff
