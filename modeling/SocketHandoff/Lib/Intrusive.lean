import Mathlib.Data.List.Induction
import Mathlib.Data.List.Nodup
import Mathlib.Logic.Function.Basic

/-!
# Intrusive linked lists

A list whose nodes hold the link to the next node themselves: the links are one function
`next : α → Option α`, and `Linked next head l` says that following them from `head` visits the
nodes `l` and ends. A stack needs no more; a `Queue` also keeps its last node, so that a node is
appended without a walk.

The operations change single links, so each lemma says what list the links spell afterwards.
-/

namespace SocketHandoff

variable {α : Type}

/-- Following the links from `head` visits exactly `l`. The links are a function on all nodes, of
which most are on no list. -/
def Linked (next : α → Option α) : Option α → List α → Prop
  | head, [] => head = none
  | head, a :: l => head = some a ∧ Linked next (next a) l

namespace Linked

variable {next next' : α → Option α} {head : Option α} {a : α} {l l' : List α}

@[simp] theorem nil_iff : Linked next head [] ↔ head = none := Iff.rfl

@[simp] theorem cons_iff :
    Linked next head (a :: l) ↔ head = some a ∧ Linked next (next a) l := Iff.rfl

/-- The links determine the list. -/
theorem unique (h : Linked next head l) (h' : Linked next head l') : l = l' := by
  induction l generalizing head l' with
  | nil =>
    cases l' with
    | nil => rfl
    | cons b l' => exact absurd (h.symm.trans h'.1) (by simp)
  | cons a l ih =>
    cases l' with
    | nil => exact absurd (h.1.symm.trans h') (by simp)
    | cons b l' =>
      obtain rfl := Option.some.inj (h.1.symm.trans h'.1)
      rw [ih h.2 h'.2]

/-- Links of nodes outside the list do not matter. -/
theorem congr (h : Linked next head l) (hn : ∀ b ∈ l, next' b = next b) :
    Linked next' head l := by
  induction l generalizing head with
  | nil => exact h
  | cons a l ih =>
    refine ⟨h.1, ?_⟩
    rw [hn a (List.mem_cons_self ..)]
    exact ih h.2 fun b hb => hn b (List.mem_cons_of_mem _ hb)

/-- A list that is not empty starts at its head. -/
theorem of_some (h : Linked next (some a) l) : ∃ rest, l = a :: rest ∧ Linked next (next a) rest := by
  cases l with
  | nil => cases h
  | cons b rest =>
    obtain rfl := Option.some.inj h.1
    exact ⟨rest, rfl, h.2⟩

/-- The head is the first node. -/
theorem head_eq (h : Linked next head l) : head = l.head? := by
  cases l with
  | nil => exact h
  | cons a l => exact h.1

/-- What comes after a node in the middle is linked from it. -/
theorem tail_of_append {p : List α} (h : Linked next head (p ++ a :: l)) :
    Linked next (next a) l := by
  induction p generalizing head with
  | nil => exact h.2
  | cons b p ih => exact ih h.2

variable [DecidableEq α]

/-- **Push** a node on a stack. -/
theorem push (h : Linked next head l) (ha : a ∉ l) :
    Linked (Function.update next a head) (some a) (a :: l) := by
  refine ⟨rfl, ?_⟩
  rw [Function.update_self]
  exact h.congr fun b hb => Function.update_of_ne (ne_of_mem_of_not_mem hb ha) ..

/-- The link of a node that was **popped** can be cleared. -/
theorem pop (h : Linked next head (a :: l)) (ha : a ∉ l) (v : Option α) :
    Linked (Function.update next a v) (next a) l :=
  h.2.congr fun _ hb => Function.update_of_ne (ne_of_mem_of_not_mem hb ha) ..

/-- Link a new last node behind the present one. -/
theorem append {p : List α} {t : α} (h : Linked next head (p ++ [t])) (ht : t ∉ p)
    (ha : a ∉ p ++ [t]) (hn : next a = none) :
    Linked (Function.update next t (some a)) head (p ++ [t] ++ [a]) := by
  induction p generalizing head with
  | nil =>
    have hne : a ≠ t := fun e => ha (by simp [e])
    exact ⟨h.1, by simp, by simp [Function.update_of_ne hne, hn]⟩
  | cons b p ih =>
    simp only [List.cons_append, List.mem_cons, not_or] at ht ha
    refine ⟨h.1, ?_⟩
    rw [Function.update_of_ne (Ne.symm ht.1)]
    exact ih h.2 ht.2 ha.2

/-- Take a node out by changing the link of the node before it. -/
theorem unlink {p q : List α} {t : α} (h : Linked next head (p ++ [t] ++ a :: q))
    (hd : (p ++ [t] ++ a :: q).Nodup) :
    Linked (Function.update next t (next a)) head (p ++ [t] ++ q) := by
  induction p generalizing head with
  | nil =>
    simp only [List.nil_append, List.singleton_append, List.nodup_cons, List.mem_cons,
      not_or] at hd
    refine ⟨h.1, ?_⟩
    rw [Function.update_self]
    exact h.2.2.congr fun b hb => Function.update_of_ne (ne_of_mem_of_not_mem hb hd.1.2) ..
  | cons b p ih =>
    simp only [List.cons_append, List.nodup_cons] at hd
    have hb : b ≠ t := fun e => hd.1 (by simp [e])
    refine ⟨h.1, ?_⟩
    rw [Function.update_of_ne hb]
    exact ih h.2 hd.2

end Linked

/-! ## Looking for a node -/

/-- Walk along the links until `a` and return the node before it. The fuel bounds the number of
nodes looked at. -/
def predecessor [DecidableEq α] (next : α → Option α) (a : α) :
    Nat → (prev curr : Option α) → Option (Option α)
  | 0, _, _ => none
  | _ + 1, _, none => none
  | fuel + 1, prev, some c =>
    if c = a then some prev else predecessor next a fuel (some c) (next c)

section
variable [DecidableEq α] {next : α → Option α} {head : Option α} {a : α}

/-- The walk finds a node of the list when there is fuel for what comes before it. -/
theorem predecessor_append {p q : List α} {fuel : Nat} {prev : Option α}
    (h : Linked next head (p ++ a :: q)) (ha : a ∉ p) (hf : p.length < fuel) :
    predecessor next a fuel prev head = some (p.getLast?.or prev) := by
  induction p generalizing head fuel prev with
  | nil =>
    obtain ⟨fuel, rfl⟩ := Nat.exists_eq_succ_of_ne_zero (Nat.ne_of_gt hf)
    obtain ⟨rfl, -⟩ := h
    simp [predecessor]
  | cons b p ih =>
    obtain ⟨fuel, rfl⟩ := Nat.exists_eq_succ_of_ne_zero (Nat.ne_of_gt (Nat.zero_lt_of_lt hf))
    obtain ⟨rfl, hl⟩ := h
    simp only [List.mem_cons, not_or] at ha
    have hb : b ≠ a := Ne.symm ha.1
    have hf' : p.length < fuel := Nat.lt_of_succ_lt_succ hf
    rw [predecessor, if_neg hb, ih hl ha.2 hf']
    rw [List.getLast?_cons]
    cases p.getLast? <;> rfl

end

/-! ## Queues -/

/-- An intrusive list with its first and its last node. -/
structure Queue (α : Type) where
  head : Option α
  tail : Option α
  next : α → Option α

namespace Queue

/-- The queue of no nodes. -/
def empty : Queue α := ⟨none, none, fun _ => none⟩

/-- Take out the first node, if there is one. -/
def pop (q : Queue α) : Queue α :=
  match q.head with
  | none => q
  | some a =>
    { q with
      head := q.next a
      tail := if q.next a = none then none else q.tail }

section
variable [DecidableEq α]

/-- Append a node that is not in the queue. -/
def append (q : Queue α) (a : α) : Queue α :=
  match q.tail with
  | some t =>
    { q with tail := some a, next := Function.update (Function.update q.next a none) t (some a) }
  | none => { head := some a, tail := some a, next := Function.update q.next a none }

/-- Take out the node `a` that `prev` links to and that links to `after`. -/
def unlink (q : Queue α) (prev : Option α) (a : α) (after : Option α) : Queue α :=
  let linked : Queue α :=
    match prev with
    | some p => { q with next := Function.update q.next p after }
    | none => { q with head := after }
  { linked with
    tail := if some a = q.tail then prev else q.tail
    next := Function.update linked.next a none }

end

/-- The queue holds the nodes `l`, in this order. -/
structure Holds (q : Queue α) (l : List α) : Prop where
  linked : Linked q.next q.head l
  nodup : l.Nodup
  tail : q.tail = l.getLast?

variable {q : Queue α} {a : α} {l : List α}

theorem holds_empty : (empty : Queue α).Holds [] := ⟨rfl, List.nodup_nil, rfl⟩

/-- A queue holds one list only. -/
theorem Holds.unique {l' : List α} (h : q.Holds l) (h' : q.Holds l') : l = l' :=
  h.linked.unique h'.linked

/-- **Popping** the first node leaves the others. -/
theorem Holds.pop (h : q.Holds (a :: l)) : q.head = some a ∧ q.pop.Holds l := by
  obtain ⟨hhead, hrest⟩ := h.linked
  refine ⟨hhead, ?_⟩
  simp only [Queue.pop, hhead]
  refine ⟨hrest, (List.nodup_cons.mp h.nodup).2, ?_⟩
  cases l with
  | nil => exact if_pos hrest
  | cons b l =>
    rw [if_neg (by simp [hrest.1]), h.tail, List.getLast?_cons_cons]

variable [DecidableEq α]

/-- **Appending** puts the node at the end. -/
theorem Holds.append (h : q.Holds l) (ha : a ∉ l) : (q.append a).Holds (l ++ [a]) := by
  have hcleared : Linked (Function.update q.next a none) q.head l :=
    h.linked.congr fun b hb => Function.update_of_ne (ne_of_mem_of_not_mem hb ha) ..
  have hnodup : (l ++ [a]).Nodup := by
    rw [List.nodup_append]
    exact ⟨h.nodup, List.nodup_singleton a, by simp; exact fun b hb e => ha (e ▸ hb)⟩
  cases l using List.reverseRecOn with
  | nil =>
    have ht : q.tail = none := h.tail
    refine ⟨?_, hnodup, ?_⟩ <;> simp [Queue.append, ht]
  | append_singleton p t =>
    have ht : q.tail = some t := by simpa using h.tail
    have htp : t ∉ p := fun hp =>
      (List.nodup_append.mp h.nodup).2.2 t hp t (List.mem_singleton_self t) rfl
    refine ⟨?_, hnodup, ?_⟩
    · simp only [Queue.append, ht]
      exact hcleared.append htp ha (Function.update_self ..)
    · simp [Queue.append, ht]

/-- **Unlinking** a node, given its predecessor, leaves the others. The predecessor is `none` for
the first node, where it is the head that has to be moved. -/
theorem Holds.unlink {p r : List α} (h : q.Holds (p ++ a :: r)) :
    (q.unlink p.getLast? a (q.next a)).Holds (p ++ r) := by
  have hd := h.nodup
  have hsub : (p ++ r).Nodup :=
    hd.sublist (List.Sublist.append_left (List.sublist_cons_self a r) p)
  have ha : a ∉ p ++ r := by
    have := (List.nodup_middle.mp hd)
    exact (List.nodup_cons.mp this).1
  have htail : (if some a = q.tail then p.getLast? else q.tail) = (p ++ r).getLast? := by
    rw [h.tail]
    cases r using List.reverseRecOn with
    | nil => simp
    | append_singleton r t =>
      have hne : a ≠ t := fun e => ha (by simp [e])
      have hlast : (p ++ a :: (r ++ [t])).getLast? = some t := by
        rw [← List.cons_append, ← List.append_assoc, List.getLast?_concat]
      rw [hlast, if_neg (by simpa using hne), ← List.append_assoc, List.getLast?_concat]
  refine ⟨?_, hsub, htail⟩
  cases p using List.reverseRecOn with
  | nil =>
    have hl : Linked q.next (q.next a) r := h.linked.2
    exact hl.congr fun b hb =>
      Function.update_of_ne (ne_of_mem_of_not_mem (List.mem_append_right [] hb) ha) ..
  | append_singleton p t =>
    have hl : Linked (Function.update q.next t (q.next a)) q.head (p ++ [t] ++ r) :=
      h.linked.unlink hd
    simp only [Queue.unlink, List.getLast?_concat]
    exact hl.congr fun b hb => Function.update_of_ne (ne_of_mem_of_not_mem hb ha) ..

/-- The node before `a`, as a walk from the head finds it. -/
theorem Holds.predecessor {p r : List α} {fuel : Nat} (h : q.Holds (p ++ a :: r))
    (hf : p.length < fuel) :
    SocketHandoff.predecessor q.next a fuel none q.head = some p.getLast? := by
  have ha : a ∉ p := fun hp =>
    (List.nodup_append.mp h.nodup).2.2 a hp a (List.mem_cons_self ..) rfl
  rw [predecessor_append h.linked ha hf, Option.or_none]

end Queue

end SocketHandoff
