import Mathlib.Data.List.TakeWhile
import Mathlib.Algebra.Order.Ring.Nat

/-!
# Lines out of a buffer

`bufio.Scanner` of Go with `ScanLines`. Reads fill a buffer behind what has not been taken out of it
yet; where there is no room the bytes are moved to its start, or it grows, up to a limit. However
the reads cut the stream, the lines that come out are those of the stream, unless one does not fit.
-/

namespace SocketHandoff.Scan

variable {ε : Type}

/-! ## The reads -/

/-- What the reads of a stream return: some bytes each, and the last an error, too, which is `none`
at the end of the file. -/
inductive Source (ε : Type)
  | more (bytes : List UInt8) (rest : Source ε)
  | last (bytes : List UInt8) (err : Option ε)

/-- The stream. -/
def Source.bytes : Source ε → List UInt8
  | .more bytes rest => bytes ++ rest.bytes
  | .last bytes _ => bytes

/-- How it ends. -/
def Source.err : Source ε → Option ε
  | .more _ rest => rest.err
  | .last _ err => err

/-- One read into so much room: the bytes, whether the error comes with them, and what is left. -/
def Source.read (room : Nat) : Source ε → List UInt8 × Bool × Source ε
  | .more bytes rest =>
    if bytes.length ≤ room then (bytes, false, rest)
    else (bytes.take room, false, .more (bytes.drop room) rest)
  | .last bytes err =>
    if bytes.length ≤ room then (bytes, true, .last [] err)
    else (bytes.take room, false, .last (bytes.drop room) err)

theorem Source.read_bytes (room : Nat) (src : Source ε) :
    (src.read room).1 ++ (src.read room).2.2.bytes = src.bytes := by
  cases src with
  | more bytes rest =>
    rw [Source.read]
    split
    · rfl
    · rw [Source.bytes, Source.bytes, ← List.append_assoc, List.take_append_drop]
  | last bytes err =>
    rw [Source.read]
    split
    · exact List.append_nil bytes
    · exact List.take_append_drop room bytes

theorem Source.read_err (room : Nat) (src : Source ε) : (src.read room).2.2.err = src.err := by
  cases src with
  | more bytes rest =>
    rw [Source.read]
    split <;> rfl
  | last bytes err =>
    rw [Source.read]
    split <;> rfl

theorem Source.length_read_le (room : Nat) (src : Source ε) : (src.read room).1.length ≤ room := by
  cases src with
  | more bytes rest =>
    rw [Source.read]
    split
    · assumption
    · exact List.length_take_le ..
  | last bytes err =>
    rw [Source.read]
    split
    · assumption
    · exact List.length_take_le ..

/-- The error comes with the last bytes. -/
theorem Source.read_ended {room : Nat} {src : Source ε} (h : (src.read room).2.1 = true) :
    (src.read room).2.2.bytes = [] := by
  cases src with
  | more bytes rest =>
    rw [Source.read] at h
    split at h <;> cases h
  | last bytes err =>
    rw [Source.read] at h ⊢
    split at h
    · rename_i hle
      rw [if_pos hle]
      rfl
    · cases h

/-- How far a stream is from its end. -/
def Source.weight : Source ε → Nat
  | .more bytes rest => 2 * bytes.length + 1 + rest.weight
  | .last bytes _ => 2 * bytes.length

/-- A read goes on in the stream. -/
theorem Source.weight_read {room : Nat} (hroom : 0 < room) (src : Source ε) :
    (src.read room).2.2.weight + (src.read room).1.length + (!(src.read room).2.1).toNat <
      src.weight + 1 := by
  cases src with
  | more bytes rest =>
    rw [Source.read]
    split
    · simp only [Source.weight, Bool.not_false, Bool.toNat_true]
      omega
    · simp only [Source.weight, List.length_drop, List.length_take, Bool.not_false,
        Bool.toNat_true]
      omega
  | last bytes err =>
    rw [Source.read]
    split
    · simp only [Source.weight, List.length_nil, Bool.not_true, Bool.toNat_false]
      omega
    · simp only [Source.weight, List.length_drop, List.length_take, Bool.not_false,
        Bool.toNat_true]
      omega

/-! ## The scanner -/

/-- `bufio.Scanner`. -/
structure Scanner (ε : Type) where
  start : Nat
  /-- `s.buf[s.start:s.end]` -/
  held : List UInt8
  /-- `len(s.buf)` -/
  size : Nat
  /-- `s.err != nil` -/
  ended : Bool
  source : Source ε
  fits : start + held.length ≤ size
  drained : ended = true → source.bytes = []

/-- A scanner with a buffer of this size. -/
def Scanner.new (size : Nat) (source : Source ε) : Scanner ε where
  start := 0
  held := []
  size := size
  ended := false
  source := source
  fits := by simp
  drained h := by cases h

/-- `dropCR`. -/
def dropCR (line : List UInt8) : List UInt8 :=
  if line.getLast? = some 13 then line.dropLast else line

/-- Take so many bytes out of the buffer. Only the start moves: what was taken still stands in front
of it, and its room is not used again before the rest is moved to the front. -/
def Scanner.advance (s : Scanner ε) (n : Nat) (h : n ≤ s.held.length) : Scanner ε where
  start := s.start + n
  held := s.held.drop n
  size := s.size
  ended := s.ended
  source := s.source
  fits := by
    have hfits := s.fits
    rw [List.length_drop]
    omega
  drained := s.drained

/-- What stands before the first line feed. -/
def lineOf (held : List UInt8) : List UInt8 := held.takeWhile (· ≠ 10)

/-- `ScanLines`, on what is held: a line, and the scanner behind it. -/
def Scanner.split (s : Scanner ε) : Option (List UInt8 × Scanner ε) :=
  if h : (lineOf s.held).length < s.held.length then
    some (dropCR (lineOf s.held), s.advance ((lineOf s.held).length + 1) h)
  else if s.ended = true ∧ s.held ≠ [] then
    some (dropCR s.held, s.advance s.held.length le_rfl)
  else none

/-- Move what is held to the start of the buffer. -/
def Scanner.toFront (s : Scanner ε) : Scanner ε :=
  { s with
    start := 0
    fits := by
      have hfits := s.fits
      omega }

/-- This is done where there is much empty space in front of it, or none behind it. -/
def Scanner.shift (s : Scanner ε) : Scanner ε :=
  if 0 < s.start ∧ (s.start + s.held.length = s.size ∨ s.size / 2 < s.start) then s.toFront else s

/-- The size of the buffer after one that is full. -/
def newSize (maxTokenSize size : Nat) : Nat :=
  min (if size = 0 then 4096 else size * 2) maxTokenSize

theorem lt_newSize {maxTokenSize size : Nat} (h : size < maxTokenSize) :
    size < newSize maxTokenSize size := by
  rw [newSize]
  split <;> omega

/-- Make room behind what is held, unless the buffer is full and at its limit. -/
def Scanner.grow (s : Scanner ε) (maxTokenSize : Nat) : Option (Scanner ε) :=
  if s.start + s.held.length = s.size then
    if h : s.size < maxTokenSize then
      some { s.toFront with
        size := newSize maxTokenSize s.size
        fits := s.toFront.fits.trans (lt_newSize h).le }
    else none
  else some s

/-- One read, into the room behind what is held. A source may give its last bytes and its end in one
call, and then the scanner has both at once. -/
def Scanner.fill (s : Scanner ε) : Scanner ε where
  start := s.start
  held := s.held ++ (s.source.read (s.size - (s.start + s.held.length))).1
  size := s.size
  ended := (s.source.read (s.size - (s.start + s.held.length))).2.1
  source := (s.source.read (s.size - (s.start + s.held.length))).2.2
  fits := by
    have hfits := s.fits
    have hread := s.source.length_read_le (s.size - (s.start + s.held.length))
    rw [List.length_append]
    omega
  drained := Source.read_ended

/-- How a scan ends. -/
inductive End (ε : Type)
  | done (err : Option ε)
  /-- `ErrTooLong` -/
  | tooLong
  deriving DecidableEq

inductive Outcome (ε : Type)
  | token (line : List UInt8) (s : Scanner ε)
  | again (s : Scanner ε)
  | stop (how : End ε)

/-- One turn of the loop of `Scan`. -/
def Scanner.step (maxTokenSize : Nat) (s : Scanner ε) : Outcome ε :=
  match s.split with
  | some (line, s') => .token line s'
  | none =>
    if s.ended then .stop (.done s.source.err)
    else
      match s.shift.grow maxTokenSize with
      | none => .stop .tooLong
      | some s' => .again s'.fill

/-- How far a scan is from its end. -/
def Scanner.measure (s : Scanner ε) : Nat :=
  s.source.weight + s.held.length + (!s.ended).toNat

theorem Scanner.split_token {s s' : Scanner ε} {line : List UInt8}
    (h : s.split = some (line, s')) : s'.source = s.source ∧ s'.ended = s.ended ∧
      s'.held.length < s.held.length := by
  rw [Scanner.split] at h
  split at h
  · rename_i hlt
    obtain ⟨-, rfl⟩ := Prod.mk.inj (Option.some.inj h)
    refine ⟨rfl, rfl, ?_⟩
    rw [Scanner.advance, List.length_drop]
    omega
  · split at h
    · rename_i hend
      obtain ⟨-, rfl⟩ := Prod.mk.inj (Option.some.inj h)
      refine ⟨rfl, rfl, ?_⟩
      simp only [Scanner.advance, List.drop_length, List.length_nil]
      exact List.length_pos_iff.mpr hend.2
    · cases h

theorem Scanner.shift_same (s : Scanner ε) : s.shift.held = s.held ∧ s.shift.size = s.size ∧
    s.shift.ended = s.ended ∧ s.shift.source = s.source := by
  rw [Scanner.shift]
  split <;> exact ⟨rfl, rfl, rfl, rfl⟩

/-- There is room after that. -/
theorem Scanner.grow_some {s s' : Scanner ε} {maxTokenSize : Nat}
    (h : s.grow maxTokenSize = some s') : s'.held = s.held ∧ s'.ended = s.ended ∧
      s'.source = s.source ∧ s'.start + s'.held.length < s'.size := by
  have hfits := s.fits
  rw [Scanner.grow] at h
  split at h
  · rename_i hfull
    split at h
    · rename_i hlt
      obtain rfl := Option.some.inj h
      refine ⟨rfl, rfl, rfl, ?_⟩
      have hnew := lt_newSize hlt
      simp only [Scanner.toFront]
      omega
    · cases h
  · rename_i hroom
    obtain rfl := Option.some.inj h
    exact ⟨rfl, rfl, rfl, by omega⟩

theorem Scanner.measure_token {s s' : Scanner ε} {maxTokenSize : Nat} {line : List UInt8}
    (h : s.step maxTokenSize = .token line s') : s'.measure < s.measure := by
  rw [Scanner.step] at h
  split at h
  · rename_i hsplit
    cases h
    obtain ⟨hsource, hended, hlt⟩ := Scanner.split_token hsplit
    rw [Scanner.measure, Scanner.measure, hsource, hended]
    omega
  · split at h
    · cases h
    · split at h <;> cases h

theorem Scanner.measure_again {s s' : Scanner ε} {maxTokenSize : Nat}
    (h : s.step maxTokenSize = .again s') : s'.measure < s.measure := by
  rw [Scanner.step] at h
  split at h
  · cases h
  · split at h
    · cases h
    · rename_i hended
      split at h
      · cases h
      · rename_i s₁ hgrow
        cases h
        obtain ⟨hheld, hended', hsource, hroom⟩ := Scanner.grow_some hgrow
        obtain ⟨hheld', -, -, hsource'⟩ := s.shift_same
        have hpos : 0 < s₁.size - (s₁.start + s₁.held.length) := by omega
        have hweight := Source.weight_read hpos s₁.source
        have hsame : s₁.source.weight = s.source.weight := by rw [hsource, hsource']
        have hlength : s₁.held.length = s.held.length := by rw [hheld, hheld']
        rw [Scanner.measure, Scanner.measure, Bool.eq_false_iff.mpr hended]
        simp only [Scanner.fill, List.length_append, Bool.not_false, Bool.toNat_true]
        omega

/-! ## The lines of a stream -/

/-- The lines of a stream: what follows the last line feed is one only if there is anything. -/
def linesOf (bytes : List UInt8) : List (List UInt8) :=
  ((bytes.splitOn 10).dropLast ++ [(bytes.splitOn 10).getLastD []].filter (· ≠ [])).map dropCR

section Lines

variable {line rest : List UInt8}

theorem linesOf_line (h : 10 ∉ line) : linesOf (line ++ 10 :: rest) = dropCR line :: linesOf rest := by
  have hne := List.splitOn_ne_nil 10 rest
  obtain ⟨first, others, hsplit⟩ := List.exists_cons_of_ne_nil hne
  rw [linesOf, linesOf, List.splitOn_append_cons_self_of_not_mem h, hsplit]
  rfl

theorem linesOf_unterminated (h : 10 ∉ line) (hne : line ≠ []) : linesOf line = [dropCR line] := by
  rw [linesOf, List.splitOn_eq_singleton h]
  simp [hne]

@[simp] theorem linesOf_nil : linesOf [] = [] := rfl

theorem dropCR_eq (h : 13 ∉ line) : dropCR line = line := by
  rw [dropCR, if_neg]
  intro hlast
  exact h (List.mem_of_getLast? hlast)

/-- What stands before the first line feed, and the rest. -/
theorem lineOf_cases (held : List UInt8) : 10 ∉ lineOf held ∧
    ((lineOf held).length < held.length →
      held = lineOf held ++ 10 :: held.drop ((lineOf held).length + 1)) ∧
    (¬ (lineOf held).length < held.length → 10 ∉ held) := by
  induction held with
  | nil => exact ⟨by simp [lineOf], fun h => absurd h (by simp), fun _ => by simp⟩
  | cons b held ih =>
    by_cases hb : b = 10
    · subst hb
      have hline : lineOf (10 :: held) = [] := rfl
      rw [hline]
      exact ⟨List.not_mem_nil, fun _ => rfl, fun h => absurd (Nat.succ_pos _) h⟩
    · have hline : lineOf (b :: held) = b :: lineOf held := by
        rw [lineOf, List.takeWhile_cons_of_pos (by simpa using hb)]
        rfl
      obtain ⟨hmem, hlt, hge⟩ := ih
      rw [hline]
      refine ⟨?_, fun h => ?_, fun h => ?_⟩
      · intro hmem'
        obtain rfl | hmem' := List.mem_cons.mp hmem'
        · exact hb rfl
        · exact hmem hmem'
      · exact congrArg (b :: ·) (hlt (Nat.lt_of_succ_lt_succ h))
      · intro hmem'
        obtain rfl | hmem' := List.mem_cons.mp hmem'
        · exact hb rfl
        · exact hge (fun hlt' => h (Nat.succ_lt_succ hlt')) hmem'

/-- It is the first of the lines. -/
theorem lineOf_mem (held : List UInt8) : lineOf held ∈ held.splitOn 10 := by
  obtain ⟨hmem, hlt, hge⟩ := lineOf_cases held
  by_cases h : (lineOf held).length < held.length
  · have hsplit := List.splitOn_append_cons_self_of_not_mem hmem (held.drop ((lineOf held).length + 1))
    rw [← hlt h] at hsplit
    rw [hsplit]
    exact List.mem_cons_self
  · have hline : lineOf held = held := by
      rw [lineOf, List.takeWhile_eq_self_iff]
      intro b hb
      simpa using ne_of_mem_of_not_mem hb (hge h)
    rw [hline, List.splitOn_eq_singleton (hge h)]
    exact List.mem_singleton_self held

/-- What follows bytes without a line feed is the same line. -/
theorem length_le_lineOf {held : List UInt8} (h : 10 ∉ held) (more : List UInt8) :
    held.length ≤ (lineOf (held ++ more)).length := by
  have hall : ∀ b ∈ held, decide (b ≠ 10) = true := by
    intro b hb
    simpa using ne_of_mem_of_not_mem hb h
  rw [lineOf, List.takeWhile_append_of_pos hall, List.length_append]
  exact Nat.le_add_right ..

end Lines

/-- What a scanner has not taken out yet. -/
def Scanner.rest (s : Scanner ε) : List UInt8 := s.held ++ s.source.bytes

section Run

variable {s s' : Scanner ε} {maxTokenSize : Nat}

/-- A line is taken from the front of the rest. -/
theorem Scanner.step_token {line : List UInt8} (h : s.step maxTokenSize = .token line s') :
    s'.source.err = s.source.err ∧ ∃ raw, line = dropCR raw ∧ 10 ∉ raw ∧
      (s.rest = raw ++ 10 :: s'.rest ∨ s.rest = raw ∧ raw ≠ [] ∧ s'.rest = []) := by
  obtain ⟨hmem, hlt, hge⟩ := lineOf_cases s.held
  rw [Scanner.step] at h
  split at h
  · rename_i hsplit
    cases h
    rw [Scanner.split] at hsplit
    split at hsplit
    · rename_i hline
      obtain ⟨rfl, rfl⟩ := Prod.mk.inj (Option.some.inj hsplit)
      refine ⟨rfl, lineOf s.held, rfl, hmem, .inl ?_⟩
      have hrest : s.rest = (lineOf s.held ++ 10 :: s.held.drop ((lineOf s.held).length + 1)) ++
          s.source.bytes := congrArg (· ++ s.source.bytes) (hlt hline)
      rw [hrest, List.append_assoc]
      rfl
    · rename_i hline
      split at hsplit
      · rename_i hend
        obtain ⟨rfl, rfl⟩ := Prod.mk.inj (Option.some.inj hsplit)
        have hdrained := s.drained hend.1
        refine ⟨rfl, s.held, rfl, hge hline, .inr ⟨?_, hend.2, ?_⟩⟩
        · rw [Scanner.rest, hdrained, List.append_nil]
        · simp only [Scanner.rest, Scanner.advance, List.drop_length, hdrained, List.append_nil]
      · cases hsplit
  · split at h
    · cases h
    · split at h <;> cases h

theorem Scanner.linesOf_token {line : List UInt8} (h : s.step maxTokenSize = .token line s') :
    linesOf s.rest = line :: linesOf s'.rest := by
  obtain ⟨-, raw, rfl, hraw, hrest | ⟨hrest, hne, hrest'⟩⟩ := Scanner.step_token h
  · rw [hrest, linesOf_line hraw]
  · rw [hrest, linesOf_unterminated hraw hne, hrest']
    rfl

/-- All lines have room in a buffer of this size. -/
def Short (maxTokenSize : Nat) (bytes : List UInt8) : Prop :=
  ∀ raw ∈ bytes.splitOn 10, raw.length < maxTokenSize

theorem Scanner.short_token {line : List UInt8} (h : s.step maxTokenSize = .token line s')
    (hshort : Short maxTokenSize s.rest) : Short maxTokenSize s'.rest := by
  obtain ⟨-, raw, -, hraw, hrest | ⟨hrest, -, hrest'⟩⟩ := Scanner.step_token h
  · rw [hrest, Short, List.splitOn_append_cons_self_of_not_mem hraw] at hshort
    exact fun line hline => hshort line (List.mem_cons_of_mem raw hline)
  · rw [hrest, Short, List.splitOn_eq_singleton hraw] at hshort
    rw [hrest']
    intro line hline
    obtain rfl : line = [] := by simpa using hline
    exact (Nat.zero_le _).trans_lt (hshort raw (List.mem_singleton_self raw))

/-- A read leaves the rest. -/
theorem Scanner.step_again (h : s.step maxTokenSize = .again s') :
    s'.source.err = s.source.err ∧ s'.rest = s.rest := by
  rw [Scanner.step] at h
  split at h
  · cases h
  · split at h
    · cases h
    · split at h
      · cases h
      · rename_i s₁ hgrow
        cases h
        obtain ⟨hheld, -, hsource, -⟩ := Scanner.grow_some hgrow
        obtain ⟨hheld', -, -, hsource'⟩ := s.shift_same
        refine ⟨?_, ?_⟩
        · rw [← hsource', ← hsource]
          exact Source.read_err _ _
        · rw [Scanner.rest, Scanner.rest, ← hheld', ← hheld, ← hsource', ← hsource,
            ← Source.read_bytes (s₁.size - (s₁.start + s₁.held.length)) s₁.source,
            ← List.append_assoc]
          rfl

/-- A buffer that is full is so from its start. -/
theorem Scanner.grow_none (h : s.shift.grow maxTokenSize = none) :
    maxTokenSize ≤ s.held.length := by
  obtain ⟨hheld, hsize, -, -⟩ := s.shift_same
  rw [Scanner.grow] at h
  split at h
  · rename_i hfull
    split at h
    · cases h
    · rename_i hlimit
      have hstart : s.shift.start = 0 := by
        rw [Scanner.shift] at hfull ⊢
        split
        · rfl
        · rename_i hshift
          rw [if_neg hshift] at hfull
          omega
      rw [hstart, hheld, hsize] at hfull
      rw [hsize] at hlimit
      omega
  · cases h

/-- It stops at the end, with nothing left, or before a line that fills the buffer. -/
theorem Scanner.step_stop {how : End ε} (h : s.step maxTokenSize = .stop how) :
    how = .done s.source.err ∧ s.rest = [] ∨
      how = .tooLong ∧ ∃ raw ∈ s.rest.splitOn 10, maxTokenSize ≤ raw.length := by
  obtain ⟨-, -, hge⟩ := lineOf_cases s.held
  rw [Scanner.step] at h
  split at h
  · cases h
  · rename_i hsplit
    rw [Scanner.split] at hsplit
    split at hsplit
    · cases hsplit
    · rename_i hline
      split at hsplit
      · cases hsplit
      · rename_i hheld
        split at h
        · rename_i hended
          cases h
          have hnil : s.held = [] := by
            apply Classical.byContradiction
            intro hne
            exact hheld ⟨hended, hne⟩
          exact .inl ⟨rfl, by rw [Scanner.rest, hnil, s.drained hended]; rfl⟩
        · split at h
          · rename_i hgrow
            cases h
            refine .inr ⟨rfl, lineOf s.rest, lineOf_mem s.rest, ?_⟩
            apply (Scanner.grow_none hgrow).trans
            exact length_le_lineOf (hge hline) s.source.bytes
          · cases h

end Run

end SocketHandoff.Scan
