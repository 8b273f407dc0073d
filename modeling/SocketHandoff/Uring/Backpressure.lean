import SocketHandoff.Uring.Fifo

/-!
# When `write_buffer_append` says that the buffer is full

With no write in flight a buffer that is too small doubles its capacity. In flight the doubled
capacity is cut to the maximum; here it is not, so a buffer of more than half the maximum does not
grow at all, and the append is refused although the bytes would fit below the limit. A buffer whose
appends are short keeps a capacity that doubling leads to the maximum, and none is refused too
early.
-/

namespace SocketHandoff.Uring

namespace WriteBuffer

variable {wb : WriteBuffer} {data : List UInt8} {len : Nat}

/-- **Backpressure exactly at the limit**, when allocation succeeds: -2 if what waits and the data
exceed the maximum, 0 otherwise. -/
def ReportsExactly (wb : WriteBuffer) (data : List UInt8) (realloc : Block) : Prop :=
  (wb.append data (some realloc)).1 =
    if writeBufferMaxSize < wb.size + data.length then .full else .ok

/-- **The condition**: the limit is exceeded, or the bytes fit into the buffer as it is, or it can
be doubled. -/
def CanGrow (wb : WriteBuffer) (len : Nat) : Prop :=
  writeBufferMaxSize < wb.size + len ∨ wb.size + len ≤ wb.capacity ∨
    wb.capacity * 2 ≤ writeBufferMaxSize

/-- What is said of an append is said of the room for it. -/
theorem append_fst (hfit : wb.size + data.length ≤ writeBufferMaxSize) (realloc : Option Block) :
    (wb.append data realloc).1 = (wb.makeRoom data.length realloc).1 := by
  rw [WriteBuffer.append, if_neg (Nat.not_lt_of_le hfit)]
  cases hm : wb.makeRoom data.length realloc with
  | mk r wb₁ =>
    cases r with
    | ok => rfl
    | noMemory => rfl
    | full => rfl

/-- **Making room with no write in flight** succeeds if the bytes fit or the doubled capacity is
allowed. -/
theorem makeRoom_idle_fst (ho : wb.Ordered) (hidle : wb.writePending = false)
    (hfit : wb.size + len ≤ writeBufferMaxSize) (b : Block) :
    (wb.makeRoom len (some b)).1 =
      if wb.size + len ≤ wb.capacity ∨ wb.capacity * 2 ≤ writeBufferMaxSize then .ok
      else .full := by
  have htail := ho.tail
  have hhead := ho.head
  have hsize : wb.size ≤ wb.head := Nat.sub_le _ _
  rw [WriteBuffer.makeRoom, hidle]
  by_cases hend : wb.capacity - wb.head < len
  · rw [if_pos hend, if_neg Bool.false_ne_true]
    by_cases hsmall : wb.capacity < wb.size + len
    · rw [if_pos hsmall, grow, capacityCompacted]
      by_cases hdouble : wb.capacity * 2 ≤ writeBufferMaxSize
      · rw [if_neg (by omega), if_pos (.inr hdouble)]
      · rw [if_pos (by omega), if_neg (by omega)]
    · rw [if_neg hsmall, if_pos (.inl (Nat.le_of_not_lt hsmall))]
  · rw [if_neg hend, if_pos (.inl (by omega))]

/-- A buffer in order reports exactly under the condition. -/
theorem Ordered.reportsExactly_iff (ho : wb.Ordered) (hidle : wb.writePending = false)
    (data : List UInt8) (b : Block) : wb.ReportsExactly data b ↔ wb.CanGrow data.length := by
  rw [ReportsExactly, CanGrow]
  by_cases hfit : wb.size + data.length ≤ writeBufferMaxSize
  · rw [if_neg (Nat.not_lt_of_le hfit), append_fst hfit, makeRoom_idle_fst ho hidle hfit]
    by_cases hroom : wb.size + data.length ≤ wb.capacity ∨
        wb.capacity * 2 ≤ writeBufferMaxSize
    · rw [if_pos hroom]
      exact ⟨fun _ => .inr hroom, fun _ => rfl⟩
    · rw [if_neg hroom]
      refine ⟨fun h => absurd h (by decide), fun h => ?_⟩
      exact absurd (h.resolve_left (Nat.not_lt_of_le hfit)) hroom
  · have hover := Nat.lt_of_not_le hfit
    rw [if_pos hover, WriteBuffer.append, if_pos hover]
    exact ⟨fun _ => .inl hover, fun _ => rfl⟩

/-- A buffer that started with the default size and has only been doubled since can always
grow. -/
theorem Sound.canGrow (h : wb.Sound) (len : Nat) : wb.CanGrow len := by
  have hhead := h.within
  have hsize : wb.size ≤ wb.head := Nat.sub_le _ _
  rcases h.double with hfull | ⟨hdouble, -⟩
  · by_cases hover : writeBufferMaxSize < wb.size + len
    · exact .inl hover
    · exact .inr (.inl (by omega))
  · exact .inr (.inr hdouble)

end WriteBuffer

/-- **Backpressure is reported exactly at the limit if and only if the buffer can grow**, for every
buffer in use and every append with no write in flight. With none in flight the doubled capacity is
not cut to the limit, and a capacity that was not doubled from the default may step over it. -/
theorem writeBufferAppend_exact_iff {u : Usage} (h : bufferSystem.Reachable u)
    (hidle : u.wb.writePending = false) (data : List UInt8) (b : Block) :
    u.wb.ReportsExactly data b ↔ u.wb.CanGrow data.length := by
  obtain ⟨ho, -⟩ := Usage.reachable_inOrder h
  exact ho.reportsExactly_iff hidle data b

/-! ## The buffers of the daemon -/

/-- Write buffers that begin as `write_buffer_init` leaves them. -/
def daemonBuffers : System Usage BufferCall where
  init u := ∃ b, u = ⟨WriteBuffer.init b, [], []⟩
  step := Usage.step

/-- A call of the daemon. What it appends is the headers, a frame or a marker, and the buffer on the
stack in which a frame is formatted has 8192 bytes. -/
def Short (_ : Usage) : BufferCall → Prop
  | .append data _ => data.length ≤ writeBufferDefaultSize
  | _ => True

/-- Such a call keeps the capacity one of those that doubling leads to. -/
theorem sound_step {u u' : Usage} {call : BufferCall} (h : u.wb.Sound) (hshort : Short u call)
    (hs : u.step call = some u') : u'.wb.Sound := by
  cases call with
  | append data realloc =>
    simp only [Usage.step] at hs
    cases ha : u.wb.append data realloc with
    | mk r wb =>
      have hsound := (h.append hshort ha).1
      rw [ha] at hs
      cases r with
      | ok | noMemory | full =>
        obtain rfl := Option.some.inj hs
        exact hsound
  | getNext =>
    obtain rfl := Option.some.inj hs
    exact h
  | setPending pending =>
    obtain rfl := Option.some.inj hs
    exact h.setPending pending
  | consume n =>
    obtain ⟨-, hs⟩ := Option.ite_none_right_eq_some.mp hs
    obtain rfl := Option.some.inj hs
    exact h.consume n

/-- **The daemon's own buffers report exactly at the limit**: the branch that does not clamp the
doubled capacity is harmless where the capacity began at the default and no append is longer. -/
theorem reportsExactly_of_short {u : Usage} (h : daemonBuffers.ReachableIf Short u)
    (hidle : u.wb.writePending = false) (data : List UInt8) (b : Block) :
    u.wb.ReportsExactly data b := by
  have hsound : u.wb.Sound := by
    refine h.invariant (I := fun u => u.wb.Sound) ?_ fun _ _ _ ih hc hs => sound_step ih hc hs
    rintro u ⟨b, rfl⟩
    exact WriteBuffer.sound_init b
  have ho : u.wb.Ordered := ⟨hsound.ordered, hsound.within, hsound.capacity_bounds.2⟩
  exact (ho.reportsExactly_iff hidle data b).mpr (hsound.canGrow data.length)

/-! ## Buffers of any size -/

/-- A buffer of the default size that has taken this many bytes at once. -/
def filled (n : Nat) : Usage where
  wb := { WriteBuffer.init 1 with capacity := n, bytes := List.replicate n 0 }
  appended := List.replicate n 0
  consumed := []

/-- It is reachable: one append makes the buffer as large as its data. -/
theorem reachable_filled {n : Nat} (hlow : writeBufferDefaultSize * 2 ≤ n)
    (hhigh : n ≤ writeBufferMaxSize) : bufferSystem.Reachable (filled n) := by
  have h₀ : bufferSystem.Reachable ⟨WriteBuffer.init 0, [], []⟩ :=
    .init ⟨rfl, rfl, writeBufferDefaultSize, by decide, some 0, rfl⟩
  have hpos : 0 < writeBufferDefaultSize := by decide
  have hsize : (WriteBuffer.init 0).size = 0 := rfl
  have hcap : (WriteBuffer.init 0).capacity = writeBufferDefaultSize := rfl
  have hnew : (WriteBuffer.init 0).capacityCompacted n = n := by
    rw [WriteBuffer.capacityCompacted, hsize, hcap]
    omega
  have hroom : (WriteBuffer.init 0).makeRoom n (some 1) =
      (.ok, { WriteBuffer.init 1 with capacity := n }) := by
    have hhead : (WriteBuffer.init 0).head = 0 := rfl
    rw [WriteBuffer.makeRoom, if_pos (by rw [hcap, hhead]; omega), if_neg (by decide),
      if_pos (by rw [hcap, hsize]; omega), hnew, WriteBuffer.grow, if_neg (by omega)]
    rfl
  have happend : (WriteBuffer.init 0).append (List.replicate n 0) (some 1) =
      (.ok, (filled n).wb) := by
    rw [WriteBuffer.append, List.length_replicate, if_neg (by rw [hsize]; omega), hroom]
    rfl
  refine h₀.step (a := .append (List.replicate n 0) (some 1)) trivial ?_
  rw [show bufferSystem.step = Usage.step from rfl]
  simp only [Usage.step, happend, List.nil_append]
  rfl

/-- Whether it can grow. -/
theorem canGrow_filled (n len : Nat) : (filled n).wb.CanGrow len ↔
    writeBufferMaxSize < n + len ∨ n + len ≤ n ∨ n * 2 ≤ writeBufferMaxSize := by
  have hsize : (filled n).wb.size = n := List.length_replicate
  rw [WriteBuffer.CanGrow, hsize]
  rfl

/-- A buffer that took 16 KiB has room for one byte more, and says so. -/
theorem writeBufferAppend_exact_iff_filled :
    (filled (16 * 1024)).wb.ReportsExactly [1] 2 := by
  have hreach : bufferSystem.Reachable (filled (16 * 1024)) :=
    reachable_filled (by decide) (by decide)
  rw [writeBufferAppend_exact_iff hreach rfl, canGrow_filled]
  decide

/-- A buffer that took 600 KiB refuses 100 KiB more, though the limit is 1 MiB. -/
theorem writeBufferAppend_refuses_early :
    ¬ ∀ u, bufferSystem.Reachable u → u.wb.writePending = false → ∀ data b,
      u.wb.ReportsExactly data b := by
  intro hall
  have hreach : bufferSystem.Reachable (filled (600 * 1024)) :=
    reachable_filled (by decide) (by decide)
  have hexact := hall _ hreach rfl (List.replicate (100 * 1024) 0) 2
  obtain ⟨ho, -⟩ := Usage.reachable_inOrder hreach
  rw [ho.reportsExactly_iff rfl, List.length_replicate, canGrow_filled] at hexact
  exact absurd hexact (by decide)

end SocketHandoff.Uring
