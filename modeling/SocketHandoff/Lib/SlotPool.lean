import Mathlib.Data.List.Perm.Basic
import Mathlib.Data.List.Nodup
import SocketHandoff.Lib.Intrusive

/-!
# Pools of slots

A fixed set of slots with an intrusive free list, a counter of the slots in use and the highest
value it has had. A `Ledger` is such a pool with the slots that are in use and, for each slot, how
often it has been taken; `Sound` says that the pool is what the ledger says, and taking the head of
the free list or freeing a slot that is in use keeps it so.
-/

namespace SocketHandoff

variable {α : Type}

/-- A pool. How often a slot has been freed is not stored anywhere. -/
@[ext]
structure SlotPool (α : Type) where
  freeList : Option α
  nextFree : α → Option α
  active : Nat
  peak : Nat
  freed : α → Nat

namespace SlotPool

variable [DecidableEq α]

/-- Take the head off the free list and count it. -/
def take (p : SlotPool α) (a : α) : SlotPool α :=
  { p with
    freeList := p.nextFree a
    nextFree := Function.update p.nextFree a none
    active := p.active + 1
    peak := max p.peak (p.active + 1) }

/-- Put a slot on the free list. -/
def free (p : SlotPool α) (a : α) : SlotPool α :=
  { p with
    freeList := some a
    nextFree := Function.update p.nextFree a p.freeList
    active := p.active - 1
    freed := Function.update p.freed a (p.freed a + 1) }

end SlotPool

/-- A pool and what has been done with it. -/
structure Ledger (α : Type) where
  pool : SlotPool α
  /-- taken and not freed since -/
  allocated : List α
  taken : α → Nat

namespace Ledger

/-- The ledger of the slots `all`, with the free slots `l`. -/
structure Sound (all l : List α) (p : Ledger α) [DecidableEq α] : Prop where
  linked : Linked p.pool.nextFree p.pool.freeList l
  split : (l ++ p.allocated).Perm all
  active : p.pool.active = p.allocated.length
  peak : p.pool.active ≤ p.pool.peak
  taken : ∀ a, p.taken a = p.pool.freed a + p.allocated.count a

variable [DecidableEq α] {all l : List α} {p q : Ledger α} {a : α}

/-- Take the head of the free list. -/
def take (p : Ledger α) (a : α) : Ledger α :=
  ⟨p.pool.take a, a :: p.allocated, Function.update p.taken a (p.taken a + 1)⟩

/-- Free a slot that is in use. -/
def free (p : Ledger α) (a : α) : Ledger α := ⟨p.pool.free a, p.allocated.erase a, p.taken⟩

namespace Sound

/-- No slot is twice in the free list or in use, or both. -/
theorem nodup (h : p.Sound all l) (hall : all.Nodup) : (l ++ p.allocated).Nodup :=
  h.split.nodup_iff.mpr hall

/-- **Every slot is either free or in use.** -/
theorem mem_iff (h : p.Sound all l) (hall : all.Nodup) (ha : a ∈ all) :
    a ∈ l ↔ a ∉ p.allocated := by
  have hnodup := List.nodup_append.mp (h.nodup hall)
  refine ⟨fun hl hm => hnodup.2.2 a hl a hm rfl, fun hm => ?_⟩
  exact (List.mem_append.mp (h.split.mem_iff.mpr ha)).resolve_right hm

theorem active_add_length (h : p.Sound all l) : p.pool.active + l.length = all.length := by
  have hlength := h.split.length_eq
  rw [List.length_append] at hlength
  rw [h.active]
  omega

/-- The free slots are determined by the links. -/
theorem unique {l' : List α} (h : p.Sound all l) (hl : Linked p.pool.nextFree p.pool.freeList l') :
    l' = l :=
  hl.unique h.linked

/-- **Taking** a slot: it is not in use. -/
theorem take (h : p.Sound all l) (hall : all.Nodup) (ha : p.pool.freeList = some a) :
    a ∉ p.allocated ∧ ∃ rest, l = a :: rest ∧ (p.take a).Sound all rest := by
  have hnodup := h.nodup hall
  have hlinked := h.linked
  rw [ha] at hlinked
  obtain ⟨rest, rfl, -⟩ := hlinked.of_some
  have hfree : a ∉ rest ++ p.allocated := (List.nodup_cons.mp hnodup).1
  have hrest : a ∉ rest := fun hr => hfree (List.mem_append_left _ hr)
  have hused : a ∉ p.allocated := fun hm => hfree (List.mem_append_right _ hm)
  refine ⟨hused, rest, rfl, hlinked.pop hrest none, ?_, ?_, ?_, fun b => ?_⟩
  · exact List.perm_middle.trans h.split
  · simp [Ledger.take, SlotPool.take, h.active]
  · exact Nat.le_max_right ..
  · by_cases hb : b = a
    · subst hb
      simp [Ledger.take, SlotPool.take, h.taken]
      omega
    · simp [Ledger.take, SlotPool.take, hb, Ne.symm hb, h.taken]

/-- **Freeing** a slot that is in use. -/
theorem free (h : p.Sound all l) (hall : all.Nodup) (ha : a ∈ p.allocated) :
    (p.free a).Sound all (a :: l) := by
  have hnodup := h.nodup hall
  have hl : a ∉ l := fun hl => (List.nodup_append.mp hnodup).2.2 a hl a ha rfl
  refine ⟨h.linked.push hl, ?_, ?_, ?_, fun b => ?_⟩
  · have hback : (a :: l ++ p.allocated.erase a).Perm (l ++ p.allocated) :=
      List.perm_middle.symm.trans ((List.perm_cons_erase ha).symm.append_left l)
    exact hback.trans h.split
  · simp [Ledger.free, SlotPool.free, h.active, List.length_erase_of_mem ha]
  · exact Nat.le_trans (Nat.sub_le ..) h.peak
  · by_cases hb : b = a
    · subst hb
      have hcount : 0 < p.allocated.count b := List.count_pos_iff.mpr ha
      simp [Ledger.free, SlotPool.free, h.taken]
      omega
    · simp [Ledger.free, SlotPool.free, hb, h.taken, List.count_erase_of_ne hb]

end Sound

end Ledger

end SocketHandoff
