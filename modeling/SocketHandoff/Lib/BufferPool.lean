import Mathlib.Tactic.Basic

/-!
# Pools of buffers

Arrays that are taken out of pools and put back. Each array is in one place: in a pool, taken out of
one, or with the rest of the program. An access to an array that is in a pool, and a second `put`,
are misuses that the store keeps record of.
-/

namespace SocketHandoff

namespace BufferPool

variable {π : Type}

/-- Where an array is. -/
inductive Place (π : Type)
  | pooled (p : π)
  /-- out of the pool `p`, and not put back -/
  | taken (p : π)
  | owned
  deriving DecidableEq, Repr

structure Cell (π : Type) where
  place : Place π
  bytes : List UInt8
  deriving DecidableEq, Repr

/-- The arrays, by their addresses. -/
structure Store (π : Type) where
  cells : List (Cell π)
  misused : Bool
  deriving DecidableEq, Repr

namespace Store

def place (s : Store π) (r : Nat) : Option (Place π) := s.cells[r]?.map Cell.place

def bytes (s : Store π) (r : Nat) : Option (List UInt8) := s.cells[r]?.map Cell.bytes

/-- A new array. -/
def alloc (s : Store π) (place : Place π) (bytes : List UInt8) : Nat × Store π :=
  (s.cells.length, { s with cells := s.cells ++ [⟨place, bytes⟩] })

def setPlace (s : Store π) (r : Nat) (place : Place π) : Store π :=
  { s with cells := s.cells.modify r fun c => { c with place } }

variable [DecidableEq π]

/-- The array `r` of the pool, or a new one. -/
def get (s : Store π) (p : π) (size : Nat) (r : Nat) : Nat × Store π :=
  if s.place r = some (.pooled p) then (r, s.setPlace r (.taken p))
  else s.alloc (.taken p) (List.replicate size 0)

def put (s : Store π) (p : π) (r : Nat) : Store π :=
  if s.place r = some (.taken p) then s.setPlace r (.pooled p) else { s with misused := true }

/-- What the first bytes of an array become; it has to be taken. -/
def write (s : Store π) (p : π) (r : Nat) (bytes : List UInt8) : Store π :=
  if s.place r = some (.taken p) then
    { s with cells := s.cells.modify r fun c =>
        { c with bytes := bytes ++ c.bytes.drop bytes.length } }
  else { s with misused := true }

/-- What is in an array; it has to be taken. -/
def read (s : Store π) (p : π) (r : Nat) : List UInt8 × Store π :=
  if s.place r = some (.taken p) then ((s.bytes r).getD [], s) else ([], { s with misused := true })

/-! ## Where an array is after an operation -/

omit [DecidableEq π] in
theorem place_setPlace (s : Store π) (r x : Nat) (q : Place π) :
    (s.setPlace r q).place x = if r = x then (s.place x).map fun _ => q else s.place x := by
  simp only [place, setPlace, List.getElem?_modify]
  split
  · cases s.cells[x]? <;> rfl
  · rw [id_map']

omit [DecidableEq π] in
@[simp] theorem bytes_setPlace (s : Store π) (r x : Nat) (q : Place π) :
    (s.setPlace r q).bytes x = s.bytes x := by
  simp only [bytes, setPlace, List.getElem?_modify]
  split
  · cases s.cells[x]? <;> rfl
  · rw [id_map']

omit [DecidableEq π] in
theorem place_alloc (s : Store π) (q : Place π) (b : List UInt8) (x : Nat) :
    (s.alloc q b).2.place x = if x = s.cells.length then some q else s.place x := by
  simp only [place, alloc, List.getElem?_append]
  split
  · rename_i hlt
    rw [if_neg (by omega)]
  · rename_i hlt
    by_cases heq : x = s.cells.length
    · simp [heq]
    · rw [if_neg heq, List.getElem?_eq_none (by simp; omega), List.getElem?_eq_none (by omega)]

omit [DecidableEq π] in
theorem bytes_alloc (s : Store π) (q : Place π) (b : List UInt8) (x : Nat) :
    (s.alloc q b).2.bytes x = if x = s.cells.length then some b else s.bytes x := by
  simp only [bytes, alloc, List.getElem?_append]
  split
  · rename_i hlt
    rw [if_neg (by omega)]
  · rename_i hlt
    by_cases heq : x = s.cells.length
    · simp [heq]
    · rw [if_neg heq, List.getElem?_eq_none (by simp; omega), List.getElem?_eq_none (by omega)]

omit [DecidableEq π] in
theorem place_length (s : Store π) : s.place s.cells.length = none := by
  rw [place, List.getElem?_eq_none (Nat.le_refl _)]
  rfl

variable {s₀ s : Store π} {p q : π} {r x : Nat} {out out' : List Nat} {b : List UInt8}

@[simp] theorem place_write : (s.write p r b).place x = s.place x := by
  rw [write]
  split
  · simp only [place, List.getElem?_modify]
    split
    · cases s.cells[x]? <;> rfl
    · rw [id_map']
  · rfl

theorem bytes_write_ne (h : r ≠ x) : (s.write p r b).bytes x = s.bytes x := by
  rw [write]
  split
  · simp only [bytes, List.getElem?_modify, if_neg h, id_map']
  · rfl

/-- What has been written is there. -/
theorem take_write (h : s.place r = some (.taken p)) :
    (((s.write p r b).bytes r).getD []).take b.length = b := by
  rw [write, if_pos h]
  obtain ⟨c, hc, -⟩ := Option.map_eq_some_iff.mp h
  simp [bytes, hc]

/-! ## What a piece of code does with the pools -/

/-- An array stays where it is, or is taken out of its pool; a new one may be anywhere. -/
inductive Moved : Option (Place π) → Option (Place π) → Prop
  | same {place : Option (Place π)} : Moved place place
  | taken {p : π} : Moved (some (.pooled p)) (some (.taken p))
  | new {place : Option (Place π)} : Moved none place

/-- **What has been done since `s₀`**: nothing was misused, the arrays of others are as they were,
and only those of `out` have been taken and not put back. It composes, so that the pieces of a
function are looked at one by one. -/
structure Since (s₀ : Store π) (out : List Nat) (s : Store π) : Prop where
  misused : s.misused = s₀.misused
  moved : ∀ r, Moved (s₀.place r) (s.place r)
  bytes : ∀ r, s₀.place r ≠ none → (∀ p, s₀.place r ≠ some (.pooled p)) → s.bytes r = s₀.bytes r
  out : ∀ r p, s.place r = some (.taken p) → s₀.place r = some (.taken p) ∨ r ∈ out

/-- An array that has been taken out of the pool since `s₀`. -/
structure Borrowed (s₀ : Store π) (p : π) (r : Nat) (s : Store π) : Prop where
  now : s.place r = some (.taken p)
  before : s₀.place r = none ∨ s₀.place r = some (.pooled p)

omit [DecidableEq π] in
theorem Since.refl (s : Store π) : Since s [] s :=
  ⟨rfl, fun _ => .same, fun _ _ _ => rfl, fun _ _ h => .inl h⟩

omit [DecidableEq π] in
/-- A new address has been new before. -/
theorem Since.new (h : Since s₀ out s) (hr : s.place r = none) : s₀.place r = none := by
  have hm := h.moved r
  rw [hr] at hm
  generalize s₀.place r = place at hm
  cases hm <;> rfl

omit [DecidableEq π] in
theorem Since.alloc (h : Since s₀ out s) (place : Place π) (b : List UInt8)
    (hout : ∀ p, place = .taken p → s.cells.length ∈ out') (hsub : ∀ r ∈ out, r ∈ out') :
    Since s₀ out' (s.alloc place b).2 := by
  have hnew := h.new s.place_length
  refine ⟨h.misused, fun r => ?_, fun r hr hp => ?_, fun r p hr => ?_⟩
  · rw [place_alloc]
    split
    · rename_i heq
      rw [heq, hnew]
      exact .new
    · exact h.moved r
  · have hne : r ≠ s.cells.length := by
      rintro rfl
      exact hr hnew
    rw [bytes_alloc, if_neg hne]
    exact h.bytes r hr hp
  · rw [place_alloc] at hr
    split at hr
    · rename_i heq
      rw [heq]
      exact .inr (hout p (Option.some.inj hr))
    · exact (h.out r p hr).imp_right (hsub r)

/-- **`get`**: the array was not taken before. -/
theorem Since.get (h : Since s₀ out s) (p : π) (size : Nat) (c : Nat) :
    Since s₀ ((s.get p size c).1 :: out) (s.get p size c).2 ∧
      Borrowed s₀ p (s.get p size c).1 (s.get p size c).2 ∧
      ∀ x q, s.place x = some (.taken q) →
        x ≠ (s.get p size c).1 ∧ (s.get p size c).2.place x = some (.taken q) := by
  rw [Store.get]
  split
  · rename_i hc
    have hbefore : s₀.place c = none ∨ s₀.place c = some (.pooled p) := by
      have hm := h.moved c
      rw [hc] at hm
      generalize hplace : s₀.place c = place at hm
      cases hm with
      | same => exact .inr rfl
      | new => exact .inl rfl
    have hplace : ∀ x, c ≠ x → (s.setPlace c (.taken p)).place x = s.place x := fun x hx => by
      rw [place_setPlace, if_neg hx]
    have hself : (s.setPlace c (.taken p)).place c = some (.taken p) := by
      rw [place_setPlace, if_pos rfl, hc]
      rfl
    refine ⟨⟨h.misused, fun r => ?_, fun r hr hp => ?_, fun r q hr => ?_⟩, ⟨hself, hbefore⟩, ?_⟩
    · by_cases hr : c = r
      · subst hr
        rw [hself]
        rcases hbefore with hb | hb <;> rw [hb]
        · exact .new
        · exact .taken
      · rw [hplace r hr]
        exact h.moved r
    · rw [bytes_setPlace]
      exact h.bytes r hr hp
    · by_cases hcr : c = r
      · exact .inr (hcr ▸ List.mem_cons_self)
      · rw [hplace r hcr] at hr
        exact (h.out r q hr).imp_right (List.mem_cons_of_mem c)
    · intro x q hx
      have hne : x ≠ c := by
        rintro rfl
        rw [hc] at hx
        cases hx
      exact ⟨hne, by rw [hplace x hne.symm, hx]⟩
  · refine ⟨h.alloc _ _ (fun _ _ => List.mem_cons_self) fun r => List.mem_cons_of_mem _,
      ⟨?_, .inl (h.new s.place_length)⟩, ?_⟩
    · rw [place_alloc]
      exact if_pos rfl
    · intro x q hx
      have hne : x ≠ s.cells.length := by
        rintro rfl
        rw [s.place_length] at hx
        cases hx
      refine ⟨hne, ?_⟩
      rw [place_alloc, if_neg hne, hx]

/-- **`put`** of what has been taken. -/
theorem Since.put (h : Since s₀ out s) (hr : Borrowed s₀ p r s)
    (hsub : ∀ x ∈ out, x = r ∨ x ∈ out') : Since s₀ out' (s.put p r) := by
  have hself : (s.setPlace r (.pooled p)).place r = some (.pooled p) := by
    rw [place_setPlace, if_pos rfl, hr.now]
    rfl
  have hplace : ∀ x, r ≠ x → (s.setPlace r (.pooled p)).place x = s.place x := fun x hx => by
    rw [place_setPlace, if_neg hx]
  rw [Store.put, if_pos hr.now]
  refine ⟨h.misused, fun x => ?_, fun x hx hp => ?_, fun x q hx => ?_⟩
  · by_cases hrx : r = x
    · subst hrx
      rw [hself]
      rcases hr.before with hb | hb <;> rw [hb]
      · exact .new
      · exact .same
    · rw [hplace x hrx]
      exact h.moved x
  · rw [bytes_setPlace]
    exact h.bytes x hx hp
  · by_cases hrx : r = x
    · subst hrx
      rw [hself] at hx
      cases hx
    · rw [hplace x hrx] at hx
      exact (h.out x q hx).imp_right fun hmem => (hsub x hmem).resolve_left (Ne.symm hrx)

theorem Borrowed.put (h : Borrowed s₀ q x s) (p : π) (hne : r ≠ x) :
    Borrowed s₀ q x (s.put p r) := by
  refine ⟨?_, h.before⟩
  rw [Store.put]
  split
  · rw [place_setPlace, if_neg hne, h.now]
  · exact h.now

theorem Since.write (h : Since s₀ out s) (hr : Borrowed s₀ p r s) (b : List UInt8) :
    Since s₀ out (s.write p r b) := by
  refine ⟨?_, fun x => ?_, fun x hx hp => ?_, fun x q hx => ?_⟩
  · rw [Store.write, if_pos hr.now]
    exact h.misused
  · rw [place_write]
    exact h.moved x
  · -- what is written to has been in the pool, or is new
    have hne : r ≠ x := by
      rintro rfl
      rcases hr.before with hb | hb
      · exact hx hb
      · exact hp p hb
    rw [bytes_write_ne hne]
    exact h.bytes x hx hp
  · rw [place_write] at hx
    exact h.out x q hx

theorem Borrowed.write (h : Borrowed s₀ q x s) (p : π) (r : Nat) (b : List UInt8) :
    Borrowed s₀ q x (s.write p r b) := ⟨by rw [place_write, h.now], h.before⟩

@[simp] theorem bytes_put : (s.put p r).bytes x = s.bytes x := by
  rw [Store.put]
  split
  · rw [bytes_setPlace]
  · rfl

/-- What is not in the pools is not put into one. -/
theorem place_put_owned (h : s.place x = some .owned) : (s.put p r).place x = some .owned := by
  rw [Store.put]
  split
  · rename_i hr
    have hne : r ≠ x := by
      rintro rfl
      rw [h] at hr
      cases hr
    rw [place_setPlace, if_neg hne, h]
  · exact h

omit [DecidableEq π] in
theorem Borrowed.alloc (h : Borrowed s₀ q x s) (place : Place π) (b : List UInt8) :
    Borrowed s₀ q x (s.alloc place b).2 := by
  have hne : x ≠ s.cells.length := by
    rintro rfl
    have hnow := h.now
    rw [s.place_length] at hnow
    cases hnow
  exact ⟨by rw [place_alloc, if_neg hne, h.now], h.before⟩

omit [DecidableEq π] in
/-- **Nothing is left out**: every array that was there is where it was. Whoever takes buffers and
puts them all back is, to the others, as if nothing had happened. -/
theorem Since.place_eq (h : Since s₀ [] s) (hr : s₀.place r ≠ none) : s.place r = s₀.place r := by
  have hm := h.moved r
  generalize hb : s₀.place r = before at hm hr
  generalize hn : s.place r = now at hm
  cases hm with
  | same => rfl
  | new => exact absurd rfl hr
  | @taken p =>
    rcases h.out r p hn with ht | hmem
    · rw [hb] at ht
      cases ht
    · cases hmem

theorem read_borrowed (h : Borrowed s₀ p r s) : s.read p r = ((s.bytes r).getD [], s) :=
  if_pos h.now

end Store
end BufferPool
end SocketHandoff
