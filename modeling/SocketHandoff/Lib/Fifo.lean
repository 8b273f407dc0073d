import Mathlib.Tactic.Basic

/-!
# First in, first out

A queue seen from outside: what has been put in, what waits and what has been taken out. It is in
order when nothing is lost, doubled or overtaken on the way through.
-/

namespace SocketHandoff

/-- The history of a queue with its present contents. -/
structure Fifo (α : Type) where
  entered : List α
  waiting : List α
  left : List α

namespace Fifo

variable {α : Type} (q : Fifo α)

/-- An empty queue nobody has used. -/
def fresh : Fifo α := ⟨[], [], []⟩

/-- Put `xs` in at the end. -/
def enter (xs : List α) : Fifo α :=
  { q with
    entered := q.entered ++ xs
    waiting := q.waiting ++ xs }

/-- Take the first `n` out. -/
def leave (n : Nat) : Fifo α :=
  { q with
    waiting := q.waiting.drop n
    left := q.left ++ q.waiting.take n }

/-- What has left and what waits is what has entered, in this order. Nothing is said of when it
leaves. -/
def InOrder : Prop := q.left ++ q.waiting = q.entered

variable {q}

theorem inOrder_fresh : (fresh : Fifo α).InOrder := rfl

theorem InOrder.enter (h : q.InOrder) (xs : List α) : (q.enter xs).InOrder := by
  rw [InOrder, Fifo.enter, ← List.append_assoc, h]

theorem InOrder.leave (h : q.InOrder) (n : Nat) : (q.leave n).InOrder := by
  rw [InOrder, Fifo.leave, List.append_assoc, List.take_append_drop, h]

end Fifo

end SocketHandoff
