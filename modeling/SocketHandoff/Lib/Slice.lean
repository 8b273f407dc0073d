import Mathlib.Data.List.Basic
import Mathlib.Logic.Function.Basic

/-!
# Slices of shared arrays

A slice is a window on an array, with a capacity that may reach behind it. `append` writes into the
array as far as the capacity goes, and into a new array otherwise, so two slices may see each
other's changes. `Owned n` is a slice on an array that is not among the first `n`; appending to one
leaves these as they are.
-/

namespace SocketHandoff

/-- A window on an array. -/
structure Slice where
  array : Nat
  start : Nat
  len : Nat
  cap : Nat
  deriving DecidableEq, Repr

/-- The arrays of a program; those from `next` on are not in use. -/
structure Arrays (α : Type) where
  content : Nat → List α
  next : Nat

namespace Arrays

variable {α : Type}

/-- What a slice shows. -/
def read (m : Arrays α) (s : Slice) : List α := ((m.content s.array).drop s.start).take s.len

/-- The elements of a list from `i` on replaced. -/
def overwrite (l : List α) (i : Nat) (xs : List α) : List α :=
  l.take i ++ xs ++ l.drop (i + xs.length)

/-- An array that is not in use yet gets this content. -/
def add (m : Arrays α) (l : List α) : Arrays α where
  content := Function.update m.content m.next l
  next := m.next + 1

section
variable [Inhabited α]

/-- An empty slice with this capacity. -/
def make (m : Arrays α) (cap : Nat) : Slice × Arrays α :=
  (⟨m.next, 0, 0, cap⟩, m.add (List.replicate cap default))

/-- Append to a slice. A new array has `spare` elements more than it needs. -/
def append (spare : Nat) (m : Arrays α) (s : Slice) (xs : List α) : Slice × Arrays α :=
  if s.len + xs.length ≤ s.cap then
    ({ s with len := s.len + xs.length },
      { m with
        content := Function.update m.content s.array
          (overwrite (m.content s.array) (s.start + s.len) xs) })
  else
    (⟨m.next, 0, s.len + xs.length, s.len + xs.length + spare⟩,
      m.add (m.read s ++ xs ++ List.replicate spare default))

end

/-- The slice is a window on its array. Two slices may be windows on the same one, and an append to
the one may show in the other. -/
structure Valid (m : Arrays α) (s : Slice) : Prop where
  inUse : s.array < m.next
  len_le : s.len ≤ s.cap
  cap_le : s.start + s.cap ≤ (m.content s.array).length

/-- The slice is on an array of its own, the first `n` arrays belonging to others. -/
structure Owned (n : Nat) (m : Arrays α) (s : Slice) : Prop extends m.Valid s where
  own : n ≤ s.array

/-- The first `n` arrays have not changed. -/
def Same (n : Nat) (m m' : Arrays α) : Prop := ∀ a < n, m'.content a = m.content a

variable {n : Nat} {m m' m'' : Arrays α} {s : Slice}

theorem Same.refl (n : Nat) (m : Arrays α) : Same n m m := fun _ _ => rfl

theorem Same.trans (h : Same n m m') (h' : Same n m' m'') : Same n m m'' :=
  fun a ha => (h' a ha).trans (h a ha)

/-- A slice on one of these arrays shows the same. -/
theorem Same.read (h : Same n m m') (hs : s.array < n) : m'.read s = m.read s := by
  rw [Arrays.read, h _ hs]
  rfl

theorem Valid.length_read (h : m.Valid s) : (m.read s).length = s.len := by
  have hlen := h.len_le
  have hcap := h.cap_le
  rw [Arrays.read, List.length_take, List.length_drop]
  omega

/-- An array of its own, and the slice that shows all of it. -/
theorem valid_whole (l : List α) :
    (⟨fun _ => l, 1⟩ : Arrays α).Valid ⟨0, 0, l.length, l.length⟩ ∧
      (⟨fun _ => l, 1⟩ : Arrays α).read ⟨0, 0, l.length, l.length⟩ = l := by
  refine ⟨⟨Nat.one_pos, Nat.le_refl _, Nat.le_of_eq (Nat.zero_add _)⟩, ?_⟩
  rw [Arrays.read, List.drop_zero, List.take_length]

section
variable [Inhabited α]

/-- A new slice is empty and has an array of its own. -/
theorem owned_make (h : n ≤ m.next) (cap : Nat) :
    Owned n (m.make cap).2 (m.make cap).1 ∧ Same n m (m.make cap).2 ∧
      (m.make cap).2.read (m.make cap).1 = [] := by
  refine ⟨⟨⟨?_, Nat.zero_le _, ?_⟩, h⟩, fun a ha => ?_, List.take_zero⟩
  · exact Nat.lt_succ_self _
  · simp [make, add]
  · exact Function.update_of_ne (by omega) _ _

/-- **Appending** adds the elements to what the slice shows. -/
theorem Owned.append (h : Owned n m s) (spare : Nat) (xs : List α) :
    Owned n (m.append spare s xs).2 (m.append spare s xs).1 ∧ Same n m (m.append spare s xs).2 ∧
      (m.append spare s xs).2.read (m.append spare s xs).1 = m.read s ++ xs := by
  have huse := h.inUse
  have hlen := h.len_le
  have hcap := h.cap_le
  have hown := h.own
  by_cases hroom : s.len + xs.length ≤ s.cap
  · have hbefore : s.start + s.len ≤ (m.content s.array).length := by omega
    rw [Arrays.append, if_pos hroom]
    refine ⟨⟨⟨huse, hroom, ?_⟩, hown⟩, fun a ha => ?_, ?_⟩
    · simp only [Function.update_self, overwrite, List.length_append, List.length_take,
        List.length_drop]
      omega
    · exact Function.update_of_ne (by omega) _ _
    · simp only [Arrays.read, Function.update_self, overwrite]
      rw [List.append_assoc, List.drop_append_of_le_length (by rw [List.length_take]; omega),
        List.drop_take, Nat.add_sub_cancel_left]
      have hshown : ((m.content s.array).drop s.start |>.take s.len).length = s.len :=
        h.length_read
      rw [List.take_append, hshown, Nat.add_sub_cancel_left,
        List.take_of_length_le (by omega), List.take_append_of_le_length (Nat.le_refl _),
        List.take_length]
  · rw [Arrays.append, if_neg hroom]
    have hlength := h.length_read
    refine ⟨⟨⟨Nat.lt_succ_self _, Nat.le_add_right _ _, ?_⟩, ?_⟩, fun a ha => ?_, ?_⟩
    · simp only [add, Function.update_self, List.length_append, List.length_replicate, hlength]
      omega
    · exact Nat.le_of_lt (Nat.lt_of_le_of_lt hown huse)
    · exact Function.update_of_ne (by omega) _ _
    · simp only [Arrays.read, add, Function.update_self, List.drop_zero]
      change ((m.read s ++ xs) ++ _).take (s.len + xs.length) = m.read s ++ xs
      have hread : (m.read s ++ xs).length = s.len + xs.length := by
        rw [List.length_append, hlength]
      rw [List.take_append_of_le_length (Nat.le_of_eq hread.symm),
        List.take_of_length_le (Nat.le_of_eq hread)]

end

end Arrays

end SocketHandoff
