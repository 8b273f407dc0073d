import Mathlib.Algebra.Order.Ring.Nat

/-!
# The write buffer of a connection

`write_buffer.c`: a linear buffer whose bytes between `tail` and `head` wait to be written. An
append that does not fit at the end compacts the buffer, or makes `realloc` grow it, which is all
it may do while a write is in flight.
-/

namespace SocketHandoff.Uring

/-- A block of memory. Every allocation has a number of its own, so a block that was freed or
moved away from is never one that is in use. -/
abbrev Block := Nat

/-- `WRITE_BUFFER_DEFAULT_SIZE`. -/
def writeBufferDefaultSize : Nat := 8 * 1024

/-- `WRITE_BUFFER_MAX_SIZE`. -/
def writeBufferMaxSize : Nat := 1024 * 1024

/-- `write_buffer_t`. -/
structure WriteBuffer where
  buffer : Block
  capacity : Nat
  /-- the bytes before `head` -/
  bytes : List UInt8
  tail : Nat
  bytesWritten : Nat
  writePending : Bool
  deriving DecidableEq, Repr

namespace WriteBuffer

/-- The write position. -/
def head (wb : WriteBuffer) : Nat := wb.bytes.length

/-- `write_buffer_size`. -/
def size (wb : WriteBuffer) : Nat := wb.head - wb.tail

/-- `write_buffer_has_data`. -/
def hasData (wb : WriteBuffer) : Bool := wb.tail < wb.head

/-- `write_buffer_init` with the block `malloc` returned. -/
def init (buffer : Block) : WriteBuffer where
  buffer := buffer
  capacity := writeBufferDefaultSize
  bytes := []
  tail := 0
  bytesWritten := 0
  writePending := false

/-- `write_buffer_init_sized`, given what `malloc` returns. -/
def initSized (capacity : Nat) (malloc : Option Block) : Option WriteBuffer :=
  malloc.map fun buffer => { init buffer with capacity := capacity }

/-- `write_buffer_get_next`: the block, the offset and the length of what is to be written next. -/
def getNext (wb : WriteBuffer) : Option (Block × Nat × Nat) :=
  if wb.size = 0 then none else some (wb.buffer, wb.tail, wb.size)

/-- `write_buffer_set_pending`. -/
def setPending (wb : WriteBuffer) (pending : Bool) : WriteBuffer :=
  { wb with writePending := pending }

/-- `write_buffer_consume`. -/
def consume (wb : WriteBuffer) (n : Nat) : WriteBuffer :=
  let n := min n wb.size
  if wb.tail + n = wb.head then
    { wb with bytes := [], tail := 0, bytesWritten := wb.bytesWritten + n }
  else { wb with tail := wb.tail + n, bytesWritten := wb.bytesWritten + n }

/-- What `write_buffer_append` returns: 0, -1 or -2. -/
inductive Appended
  | ok
  | noMemory
  | full
  deriving DecidableEq, Repr

/-- The capacity asked of `realloc` while a write is in flight. -/
def capacityInFlight (wb : WriteBuffer) (len : Nat) : Nat :=
  let newCap := min (wb.capacity * 2) writeBufferMaxSize
  if newCap < wb.head + len then wb.head + len + writeBufferDefaultSize else newCap

/-- The capacity asked of `realloc` for a compacted buffer. -/
def capacityCompacted (wb : WriteBuffer) (len : Nat) : Nat :=
  max (wb.capacity * 2) (wb.size + len)

/-- Move the waiting bytes to the start. -/
def compact (wb : WriteBuffer) : WriteBuffer :=
  { wb with bytes := wb.bytes.drop wb.tail, tail := 0 }

/-- Grow to `newCap`, given what `realloc` returns. -/
def grow (wb : WriteBuffer) (newCap : Nat) (realloc : Option Block) : Appended × WriteBuffer :=
  if writeBufferMaxSize < newCap then (.full, wb)
  else
    match realloc with
    | none => (.noMemory, wb)
    | some buffer => (.ok, { wb with buffer := buffer, capacity := newCap })

/-- Make room for `len` bytes at the end. -/
def makeRoom (wb : WriteBuffer) (len : Nat) (realloc : Option Block) : Appended × WriteBuffer :=
  if wb.capacity - wb.head < len then
    if wb.writePending then wb.grow (wb.capacityInFlight len) realloc
    else if wb.capacity < wb.size + len then
      wb.compact.grow (wb.capacityCompacted len) realloc
    else (.ok, wb.compact)
  else (.ok, wb)

/-- `write_buffer_append`, given what a `realloc` of the buffer returns. -/
def append (wb : WriteBuffer) (data : List UInt8) (realloc : Option Block) :
    Appended × WriteBuffer :=
  if writeBufferMaxSize < wb.size + data.length then (.full, wb)
  else
    match wb.makeRoom data.length realloc with
    | (.ok, roomy) => (.ok, { roomy with bytes := roomy.bytes ++ data })
    | failed => failed

/-! ## What appending and consuming do to the flags -/

variable {wb wb' : WriteBuffer} {data : List UInt8} {len newCap n : Nat} {realloc : Option Block}
  {r : Appended}

theorem hasData_iff : wb.hasData = true ↔ wb.tail < wb.head := by simp [hasData]

@[simp] theorem init_hasData (b : Block) : (init b).hasData = false := rfl
@[simp] theorem init_writePending (b : Block) : (init b).writePending = false := rfl
@[simp] theorem setPending_hasData (p : Bool) : (wb.setPending p).hasData = wb.hasData := rfl
@[simp] theorem setPending_writePending (p : Bool) : (wb.setPending p).writePending = p := rfl
@[simp] theorem setPending_buffer (p : Bool) : (wb.setPending p).buffer = wb.buffer := rfl

@[simp] theorem compact_writePending : wb.compact.writePending = wb.writePending := rfl
@[simp] theorem compact_buffer : wb.compact.buffer = wb.buffer := rfl

theorem hasData_congr (hb : wb'.bytes = wb.bytes) (ht : wb'.tail = wb.tail) :
    wb'.hasData = wb.hasData := by
  rw [Bool.eq_iff_iff, hasData_iff, hasData_iff, head, head, hb, ht]

@[simp] theorem compact_hasData : wb.compact.hasData = wb.hasData := by
  rw [Bool.eq_iff_iff, hasData_iff, hasData_iff]
  simp only [compact, head, List.length_drop]
  omega

@[simp] theorem consume_buffer : (wb.consume n).buffer = wb.buffer := by
  simp only [consume]
  split <;> rfl

/-- What `grow` leaves: the bytes are those it was given. -/
theorem grow_cases (h : wb.grow newCap realloc = (r, wb')) :
    wb'.bytes = wb.bytes ∧ wb'.tail = wb.tail ∧ wb'.writePending = wb.writePending ∧
      (r ≠ .ok → wb' = wb) := by
  simp only [grow] at h
  split at h
  · cases h; simp
  · cases realloc <;> cases h <;> simp

/-- Making room moves bytes and never drops one that waits. -/
theorem makeRoom_cases (h : wb.makeRoom len realloc = (r, wb')) :
    wb'.hasData = wb.hasData ∧ wb'.writePending = wb.writePending ∧
      wb'.bytes.drop wb'.tail = wb.bytes.drop wb.tail ∧ (wb.tail ≤ wb.head → wb'.tail ≤ wb'.head) := by
  simp only [makeRoom] at h
  split at h
  · split at h
    · obtain ⟨hb, ht, hp, -⟩ := grow_cases h
      exact ⟨hasData_congr hb ht, hp, by rw [hb, ht], by simp [head, hb, ht]⟩
    · split at h
      · obtain ⟨hb, ht, hp, -⟩ := grow_cases h
        refine ⟨(hasData_congr hb ht).trans compact_hasData, hp, ?_, ?_⟩
        · rw [hb, ht]; rfl
        · intro _; rw [ht]; exact Nat.zero_le _
      · cases h
        exact ⟨compact_hasData, rfl, rfl, fun _ => Nat.zero_le _⟩
  · cases h
    exact ⟨rfl, rfl, rfl, id⟩

/-- **A buffer with a write in flight is not compacted**: its block changes only when `realloc`
moves it. -/
theorem append_pending (h : wb.append data realloc = (r, wb')) :
    wb'.writePending = wb.writePending := by
  simp only [append] at h
  split at h
  · cases h; rfl
  · cases hm : wb.makeRoom data.length realloc with
    | mk r₁ wb₁ =>
      have hp := (makeRoom_cases hm).2.1
      rw [hm] at h
      cases r₁ <;> cases h <;> exact hp

/-! ## The bytes that wait -/

/-- The bytes that wait to be written. -/
def unsent (wb : WriteBuffer) : List UInt8 := wb.bytes.drop wb.tail

/-- A buffer in which nothing is out of place. Its capacity has been doubled a few times, which is
how a buffer of the daemon grows: other capacities exist for buffers that are initialised with a
size of their own. -/
structure Sound (wb : WriteBuffer) : Prop where
  ordered : wb.tail ≤ wb.head
  within : wb.head ≤ wb.capacity
  doubled : ∃ k ≤ 7, wb.capacity = writeBufferDefaultSize * 2 ^ k

theorem Sound.capacity_bounds (h : wb.Sound) :
    writeBufferDefaultSize ≤ wb.capacity ∧ wb.capacity ≤ writeBufferMaxSize := by
  obtain ⟨k, hk, hcap⟩ := h.doubled
  have hpow : 2 ^ k ≤ 2 ^ 7 := Nat.pow_le_pow_right (by decide) hk
  rw [hcap]
  exact ⟨Nat.le_mul_of_pos_right _ (Nat.two_pow_pos k), Nat.mul_le_mul_left _ hpow⟩

theorem Sound.length_unsent_le (h : wb.Sound) : wb.unsent.length ≤ writeBufferMaxSize := by
  have hhead : wb.bytes.length ≤ wb.capacity := h.within
  have hmax := h.capacity_bounds.2
  rw [unsent, List.length_drop]
  omega

/-- Doubling leads from one capacity to the next, or past the largest one. -/
theorem Sound.double (h : wb.Sound) : wb.capacity = writeBufferMaxSize ∨
    wb.capacity * 2 ≤ writeBufferMaxSize ∧
      ∃ k ≤ 7, wb.capacity * 2 = writeBufferDefaultSize * 2 ^ k := by
  obtain ⟨k, hk, hcap⟩ := h.doubled
  by_cases h7 : k = 7
  · exact .inl (by rw [hcap, h7]; rfl)
  · have hnext : wb.capacity * 2 = writeBufferDefaultSize * 2 ^ (k + 1) := by
      rw [hcap, Nat.pow_succ, Nat.mul_assoc]
    have hpow : 2 ^ (k + 1) ≤ 2 ^ 7 := Nat.pow_le_pow_right (by decide) (by omega)
    refine .inr ⟨?_, k + 1, by omega, hnext⟩
    rw [hnext]
    exact Nat.mul_le_mul_left _ hpow

theorem sound_init (b : Block) : (init b).Sound :=
  ⟨Nat.le_refl 0, Nat.zero_le _, 0, by decide, rfl⟩

@[simp] theorem unsent_init (b : Block) : (init b).unsent = [] := rfl

@[simp] theorem unsent_setPending (p : Bool) : (wb.setPending p).unsent = wb.unsent := rfl

theorem Sound.setPending (h : wb.Sound) (p : Bool) : (wb.setPending p).Sound := ⟨h.1, h.2, h.3⟩

theorem Sound.consume (h : wb.Sound) (n : Nat) : (wb.consume n).Sound := by
  have ht := h.ordered
  simp only [WriteBuffer.consume]
  split
  · exact ⟨Nat.le_refl 0, Nat.zero_le _, h.doubled⟩
  · refine ⟨?_, h.within, h.doubled⟩
    simp only [size, head] at ht ⊢
    omega

/-- What making room for a short text does. -/
theorem Sound.makeRoom (h : wb.Sound) (hlen : len ≤ writeBufferDefaultSize)
    (hm : wb.makeRoom len realloc = (r, wb')) :
    wb'.Sound ∧ (r = .ok → wb'.head + len ≤ wb'.capacity) ∧ (wb.tail = 0 → wb'.tail = 0) := by
  have ht := h.ordered
  have hh := h.within
  obtain ⟨hlow, hhigh⟩ := h.capacity_bounds
  have hsize : wb.compact.head = wb.size := by simp [compact, head, size]
  have hcompact : wb.compact.Sound :=
    ⟨Nat.zero_le _, by rw [hsize]; simp only [compact, size]; omega, h.doubled⟩
  simp only [WriteBuffer.makeRoom] at hm
  split at hm
  · split at hm
    · -- a write is in flight
      simp only [grow] at hm
      split at hm
      · cases hm
        exact ⟨h, fun hr => absurd hr (by decide), id⟩
      · cases realloc with
        | none =>
          cases hm
          exact ⟨h, fun hr => absurd hr (by decide), id⟩
        | some b =>
          cases hm
          have hcap : ∃ k ≤ 7, wb.capacityInFlight len = writeBufferDefaultSize * 2 ^ k := by
            rename_i hmax
            simp only [capacityInFlight] at hmax ⊢
            rcases h.double with hfull | ⟨hle, hk⟩
            · rw [hfull] at hmax ⊢
              split
              · rw [if_pos (by assumption)] at hmax
                omega
              · exact ⟨7, by decide, rfl⟩
            · rw [Nat.min_eq_left hle]
              rwa [if_neg (by omega)]
          have hroom : wb.head + len ≤ wb.capacityInFlight len := by
            simp only [capacityInFlight]
            split <;> omega
          exact ⟨⟨ht, Nat.le_trans (Nat.le_add_right _ _) hroom, hcap⟩, fun _ => hroom, id⟩
    · split at hm
      · simp only [grow] at hm
        split at hm
        · cases hm
          exact ⟨hcompact, fun hr => absurd hr (by decide), fun _ => rfl⟩
        · cases realloc with
          | none =>
            cases hm
            exact ⟨hcompact, fun hr => absurd hr (by decide), fun _ => rfl⟩
          | some b =>
            cases hm
            rename_i hneed hmax
            have hdouble : wb.size + len ≤ wb.capacity * 2 := by
              simp only [size]
              omega
            have hnew : wb.capacityCompacted len = wb.capacity * 2 := by
              rw [capacityCompacted, Nat.max_eq_left hdouble]
            have hcap : ∃ k ≤ 7, wb.capacityCompacted len = writeBufferDefaultSize * 2 ^ k := by
              rw [hnew] at hmax ⊢
              rcases h.double with hfull | ⟨-, hk⟩
              · omega
              · exact hk
            have hroom : wb.compact.head + len ≤ wb.capacityCompacted len := by
              rw [hsize, hnew]
              exact hdouble
            exact ⟨⟨Nat.zero_le _, Nat.le_trans (Nat.le_add_right _ _) hroom, hcap⟩,
              fun _ => hroom, fun _ => rfl⟩
      · cases hm
        refine ⟨hcompact, fun _ => ?_, fun _ => rfl⟩
        rw [hsize]
        simp only [compact]
        omega
  · cases hm
    exact ⟨h, fun _ => by omega, id⟩

/-- **Appending.** What was waiting still waits, and with success the data waits behind it. -/
theorem Sound.append (h : wb.Sound) (hlen : data.length ≤ writeBufferDefaultSize)
    (ha : wb.append data realloc = (r, wb')) :
    wb'.Sound ∧ wb'.unsent = (if r = .ok then wb.unsent ++ data else wb.unsent) ∧
      (wb.tail = 0 → wb'.tail = 0) := by
  simp only [WriteBuffer.append] at ha
  split at ha
  · cases ha
    exact ⟨h, rfl, id⟩
  · cases hm : wb.makeRoom data.length realloc with
    | mk r₁ wb₁ =>
      obtain ⟨hs, hroom, hzero⟩ := h.makeRoom hlen hm
      have hkept : wb₁.unsent = wb.unsent := (makeRoom_cases hm).2.2.1
      rw [hm] at ha
      cases r₁ with
      | ok =>
        cases ha
        refine ⟨⟨?_, ?_, hs.doubled⟩, ?_, hzero⟩
        · have := hs.ordered
          simp only [head, List.length_append] at this ⊢
          omega
        · simpa [head] using hroom rfl
        · rw [if_pos rfl, ← hkept, unsent, unsent, List.drop_append_of_le_length hs.ordered]
      | noMemory =>
        cases ha
        exact ⟨hs, by rw [if_neg (by decide), hkept], hzero⟩
      | full =>
        cases ha
        exact ⟨hs, by rw [if_neg (by decide), hkept], hzero⟩

/-- A text that fits behind the others is appended. -/
theorem append_room (h : wb.Sound) (hroom : wb.head + data.length ≤ wb.capacity) :
    wb.append data realloc = (.ok, { wb with bytes := wb.bytes ++ data }) := by
  have hhigh := h.capacity_bounds.2
  have hsize : wb.size ≤ wb.head := Nat.sub_le _ _
  rw [WriteBuffer.append, if_neg (by omega), WriteBuffer.makeRoom, if_neg (by omega)]

/-- **Room.** While nothing has been consumed and no allocation fails, the buffer takes its maximum
size. -/
theorem Sound.append_fits (h : wb.Sound) (hlen : data.length ≤ writeBufferDefaultSize)
    (hzero : wb.tail = 0) (hfit : wb.unsent.length + data.length ≤ writeBufferMaxSize)
    (b : Block) : (wb.append data (some b)).1 = .ok := by
  have hh := h.within
  obtain ⟨hlow, hhigh⟩ := h.capacity_bounds
  have hsize : wb.size = wb.head := by simp [size, hzero]
  have hunsent : wb.unsent.length = wb.head := by simp [unsent, hzero, head]
  rw [hunsent] at hfit
  rw [WriteBuffer.append, if_neg (by omega)]
  have hroom : (wb.makeRoom data.length (some b)).1 = .ok := by
    simp only [WriteBuffer.makeRoom, hsize]
    split
    · split
      · have hmax : wb.capacityInFlight data.length ≤ writeBufferMaxSize := by
          simp only [capacityInFlight]
          rcases h.double with hfull | ⟨hle, -⟩
          · rw [hfull, if_neg (by omega)]
            exact Nat.min_le_right _ _
          · rw [if_neg (by omega)]
            exact Nat.min_le_right _ _
        rw [grow, if_neg (by omega)]
      · rw [if_pos (by omega)]
        have hmax : wb.capacityCompacted data.length ≤ writeBufferMaxSize := by
          rw [capacityCompacted, hsize]
          rcases h.double with hfull | ⟨hle, -⟩
          · omega
          · omega
        rw [grow, if_neg (by omega)]
    · rfl
  cases hm : wb.makeRoom data.length (some b) with
  | mk r₁ wb₁ =>
    rw [hm] at hroom
    cases hroom
    rfl

end WriteBuffer

end SocketHandoff.Uring
