import Mathlib.Algebra.Order.Ring.Nat

/-!
# JSON strings

What the text between the quotes of a JSON string stands for, as UTF-8. The escapes of a text are
read first, into bytes and UTF-16 code units; the code units are encoded afterwards, two of them
together where they are a surrogate pair.
-/

namespace SocketHandoff.Json

/-- A piece of a string: a byte of the text, or the code unit of an escape. -/
inductive Piece
  | byte (b : UInt8)
  | code (u : Nat)
  deriving DecidableEq, Repr

/-- The value of a hexadecimal digit. -/
def hexValue (c : UInt8) : Option Nat :=
  if 48 ≤ c ∧ c ≤ 57 then some (c.toNat - 48)
  else if 65 ≤ c ∧ c ≤ 70 then some (c.toNat - 55)
  else if 97 ≤ c ∧ c ≤ 102 then some (c.toNat - 87)
  else none

/-- The code unit of four hexadecimal digits. -/
def hexUnit (a b c d : UInt8) : Option Nat := do
  return (((← hexValue a) * 16 + (← hexValue b)) * 16 + (← hexValue c)) * 16 + (← hexValue d)

/-- The byte of an escape of one letter. -/
def escaped (c : UInt8) : Option UInt8 :=
  if c = 34 ∨ c = 92 ∨ c = 47 then some c
  else if c = 98 then some 8
  else if c = 102 then some 12
  else if c = 110 then some 10
  else if c = 114 then some 13
  else if c = 116 then some 9
  else none

/-- The pieces of a text; `none` for one that a string cannot have. -/
def pieces : List UInt8 → Option (List Piece)
  | [] => some []
  | 92 :: 117 :: a :: b :: c :: d :: rest => do
    return .code (← hexUnit a b c d) :: (← pieces rest)
  | 92 :: c :: rest => do return .byte (← escaped c) :: (← pieces rest)
  | c :: rest => if c = 34 ∨ c = 92 ∨ c < 32 then none else (.byte c :: ·) <$> pieces rest

/-- The UTF-8 bytes of a code point. -/
def encode (u : Nat) : List UInt8 :=
  if u < 128 then [.ofNat u]
  else if u < 2048 then [.ofNat (192 + u / 64), .ofNat (128 + u % 64)]
  else if u < 65536 then
    [.ofNat (224 + u / 4096), .ofNat (128 + u / 64 % 64), .ofNat (128 + u % 64)]
  else
    [.ofNat (240 + u / 262144), .ofNat (128 + u / 4096 % 64), .ofNat (128 + u / 64 % 64),
      .ofNat (128 + u % 64)]

/-- A high surrogate and a low one behind it. -/
def isPair (hi lo : Nat) : Bool := 0xD800 ≤ hi ∧ hi < 0xDC00 ∧ 0xDC00 ≤ lo ∧ lo < 0xE000

/-- The bytes of the pieces. A surrogate that stands alone is encoded like any code point. -/
def joined : List Piece → List UInt8
  | [] => []
  | .byte b :: rest => b :: joined rest
  | .code hi :: .code lo :: rest =>
    if isPair hi lo then
      encode (0x10000 + (hi - 0xD800) * 0x400 + (lo - 0xDC00)) ++ joined rest
    else encode hi ++ joined (.code lo :: rest)
  | .code u :: rest => encode u ++ joined rest

/-- Half of a surrogate pair. -/
def isSurrogate (u : Nat) : Bool := 0xD800 ≤ u ∧ u < 0xE000

/-- The UTF-8 bytes of a code unit by itself: U+FFFD stands for a surrogate. -/
def encodeUnit (u : Nat) : List UInt8 := encode (if isSurrogate u then 0xFFFD else u)

/-- The bytes of the pieces, which are UTF-8 also where a surrogate stands alone. -/
def replaced : List Piece → List UInt8
  | [] => []
  | .byte b :: rest => b :: replaced rest
  | .code hi :: .code lo :: rest =>
    if isPair hi lo then
      encode (0x10000 + (hi - 0xD800) * 0x400 + (lo - 0xDC00)) ++ replaced rest
    else encodeUnit hi ++ replaced (.code lo :: rest)
  | .code u :: rest => encodeUnit u ++ replaced rest

attribute [grind =] pieces joined replaced

/-- What the text of a string stands for. -/
def decode (text : List UInt8) : Option (List UInt8) := joined <$> pieces text

/-- What the text of a string stands for, with a surrogate that stands alone replaced. -/
def decodeReplacing (text : List UInt8) : Option (List UInt8) := replaced <$> pieces text

/-! ## The pieces of a text, one at a time -/

/-- A text has these pieces. -/
inductive Pieced : List UInt8 → List Piece → Prop
  | nil : Pieced [] []
  | unit {a b c d : UInt8} {u : Nat} {rest : List UInt8} {ps : List Piece} :
      hexUnit a b c d = some u → Pieced rest ps →
      Pieced (92 :: 117 :: a :: b :: c :: d :: rest) (.code u :: ps)
  | escaped {c e : UInt8} {rest : List UInt8} {ps : List Piece} :
      escaped c = some e → Pieced rest ps → Pieced (92 :: c :: rest) (.byte e :: ps)
  | byte {c : UInt8} {rest : List UInt8} {ps : List Piece} :
      c ≠ 34 ∧ c ≠ 92 ∧ ¬ c < 32 → Pieced rest ps → Pieced (c :: rest) (.byte c :: ps)

/-- `u` is the one letter that is read with digits behind it. -/
theorem ne_u_of_escaped {c e : UInt8} (h : escaped c = some e) : c ≠ 117 := by
  rintro rfl
  simp [escaped] at h

theorem pieces_escaped {c e : UInt8} (h : escaped c = some e) (rest : List UInt8) :
    pieces (92 :: c :: rest) = (.byte e :: ·) <$> pieces rest := by
  rw [pieces.eq_3 c rest (fun _ _ _ _ _ hu => absurd hu (ne_u_of_escaped h)), h]
  cases pieces rest <;> rfl

theorem pieced_of_pieces {text : List UInt8} {ps : List Piece} (h : pieces text = some ps) :
    Pieced text ps := by
  fun_induction pieces text generalizing ps with
  | case1 =>
    obtain rfl := Option.some.inj h
    exact .nil
  | case2 a b c d rest ih =>
    obtain ⟨u, hu, hrest⟩ := Option.bind_eq_some_iff.mp h
    obtain ⟨qs, hqs, hps⟩ := Option.bind_eq_some_iff.mp hrest
    obtain rfl := Option.some.inj hps
    exact .unit hu (ih hqs)
  | case3 c rest hne ih =>
    obtain ⟨e, he, hrest⟩ := Option.bind_eq_some_iff.mp h
    obtain ⟨qs, hqs, hps⟩ := Option.bind_eq_some_iff.mp hrest
    obtain rfl := Option.some.inj hps
    exact .escaped he (ih hqs)
  | case4 => cases h
  | case5 c rest hne hne' hc ih =>
    obtain ⟨qs, hqs, hps⟩ := Option.map_eq_some_iff.mp h
    subst hps
    refine .byte ⟨fun e => hc (.inl e), fun e => hc (.inr (.inl e)), fun e => hc (.inr (.inr e))⟩ ?_
    exact ih hqs

/-! ## Texts without escapes -/

/-- A text without a quote, a backslash and control characters. -/
def Plain (text : List UInt8) : Prop := ∀ c ∈ text, c ≠ 34 ∧ c ≠ 92 ∧ ¬ c < 32

instance (text : List UInt8) : Decidable (Plain text) := List.decidableBAll _ text

theorem pieces_cons {c : UInt8} {text : List UInt8} (h : c ≠ 34 ∧ c ≠ 92 ∧ ¬ c < 32) :
    pieces (c :: text) = (.byte c :: ·) <$> pieces text := by
  obtain ⟨hq, hb, hc⟩ := h
  rw [pieces.eq_def]
  split
  · contradiction
  · rename_i heq; exact absurd (List.cons.inj heq).1 hb
  · rename_i heq; exact absurd (List.cons.inj heq).1 hb
  · rename_i heq
    obtain ⟨rfl, rfl⟩ := List.cons.inj heq
    rw [if_neg (by simp [hq, hb, hc])]

theorem pieces_plain {text : List UInt8} (h : Plain text) :
    pieces text = some (text.map .byte) := by
  induction text with
  | nil => rfl
  | cons c text ih =>
    rw [pieces_cons (h c List.mem_cons_self), ih fun d hd => h d (List.mem_cons_of_mem c hd)]
    rfl

theorem joined_bytes (text : List UInt8) : joined (text.map .byte) = text := by
  induction text with
  | nil => rfl
  | cons c text ih => rw [List.map_cons, joined, ih]

/-- **A plain text stands for itself.** -/
theorem decode_plain {text : List UInt8} (h : Plain text) : decode text = some text := by
  simp only [decode, pieces_plain h, Option.map_eq_map, Option.map_some, joined_bytes]

/-- A text without backslashes is plain, if it is the text of a string at all. -/
theorem plain_of_decode {text : List UInt8} (hb : (92 : UInt8) ∉ text)
    (hd : (decode text).isSome) : Plain text := by
  induction text with
  | nil => exact fun c hc => absurd hc List.not_mem_nil
  | cons c text ih =>
    have hc : c ≠ 92 := fun e => hb (e ▸ List.mem_cons_self)
    have hb' : (92 : UInt8) ∉ text := fun e => hb (List.mem_cons_of_mem c e)
    simp only [decode, Option.map_eq_map, Option.isSome_map] at hd ih
    by_cases hq : c ≠ 34 ∧ c ≠ 92 ∧ ¬ c < 32
    · rw [pieces_cons hq, Option.map_eq_map, Option.isSome_map] at hd
      rintro d hmem
      rcases List.mem_cons.mp hmem with rfl | hmem
      · exact hq
      · exact ih hb' hd d hmem
    · rw [pieces.eq_def] at hd
      split at hd
      · contradiction
      · rename_i heq; exact absurd (List.cons.inj heq).1 hc
      · rename_i heq; exact absurd (List.cons.inj heq).1 hc
      · rename_i heq
        obtain ⟨rfl, rfl⟩ := List.cons.inj heq
        have hbad : c = 34 ∨ c = 92 ∨ c < 32 := by
          by_cases h34 : c = 34
          · exact .inl h34
          · by_cases hlt : c < 32
            · exact .inr (.inr hlt)
            · exact absurd ⟨h34, hc, hlt⟩ hq
        rw [if_pos hbad] at hd
        cases hd

theorem Pieced.pieces {text : List UInt8} {ps : List Piece} (h : Pieced text ps) :
    pieces text = some ps := by
  induction h with
  | nil => rfl
  | unit hu _ ih => rw [Json.pieces, hu, ih]; rfl
  | escaped he _ ih => rw [pieces_escaped he, ih]; rfl
  | byte hc _ ih => rw [pieces_cons hc, ih]; rfl

/-! ## Texts piece by piece -/

/-- A part of a text stands for these bytes, whatever follows it. -/
def Spells (part bytes : List UInt8) : Prop :=
  ∀ rest, decode (part ++ rest) = (bytes ++ ·) <$> decode rest

theorem spells_nil : Spells [] [] := fun rest => by
  rw [List.nil_append]
  cases decode rest <;> rfl

theorem Spells.append {part part' bytes bytes' : List UInt8} (h : Spells part bytes)
    (h' : Spells part' bytes') : Spells (part ++ part') (bytes ++ bytes') := fun rest => by
  rw [List.append_assoc, h, h']
  cases decode rest with
  | none => rfl
  | some tail => simp [List.append_assoc]

/-- **The text of pieces** is decoded to what the pieces stand for. -/
theorem Spells.decode {part bytes : List UInt8} (h : Spells part bytes) :
    decode part = some bytes := by
  have hd := h []
  rw [List.append_nil] at hd
  rw [hd]
  simp [Json.decode, pieces, joined]

theorem spells_flatMap {f : UInt8 → List UInt8} (h : ∀ c, Spells (f c) [c]) (s : List UInt8) :
    Spells (s.flatMap f) s := by
  induction s with
  | nil => exact spells_nil
  | cons c s ih => exact (h c).append ih

theorem spells_byte {c : UInt8} (h : c ≠ 34 ∧ c ≠ 92 ∧ ¬ c < 32) : Spells [c] [c] := fun rest => by
  rw [List.singleton_append, decode, pieces_cons h, decode]
  cases pieces rest <;> rfl

/-- A plain text spells itself. -/
theorem spells_plain {text : List UInt8} (h : Plain text) : Spells text text := by
  induction text with
  | nil => exact spells_nil
  | cons c text ih =>
    exact (spells_byte (h c List.mem_cons_self)).append
      (ih fun d hd => h d (List.mem_cons_of_mem c hd))

theorem spells_escaped {c b : UInt8} (h : escaped c = some b) : Spells [92, c] [b] := fun rest => by
  simp only [decode, List.cons_append, List.nil_append, pieces_escaped h]
  cases pieces rest <;> rfl

/-- A code unit that is no high surrogate is encoded by itself, whatever follows it. -/
theorem replaced_unit {u : Nat} (hu : u < 0xD800 ∨ 0xDC00 ≤ u) (ps : List Piece) :
    replaced (.code u :: ps) = encodeUnit u ++ replaced ps := by
  rcases ps with _ | ⟨_ | lo, ps⟩
  · rw [replaced.eq_4 u [] (by simp), replaced]
  · rw [replaced.eq_4 u _ (by simp)]
  · have hp : isPair u lo = false := by
      simp only [isPair, decide_eq_false_iff_not]
      omega
    rw [replaced, hp, if_neg Bool.false_ne_true]

/-- So is one before a piece that is no low surrogate. -/
theorem replaced_alone {u : Nat} {ps : List Piece}
    (h : ∀ lo rest, ps = .code lo :: rest → isPair u lo = false) :
    replaced (.code u :: ps) = encodeUnit u ++ replaced ps := by
  rcases ps with _ | ⟨_ | lo, ps⟩
  · rw [replaced.eq_4 u [] (by simp), replaced]
  · rw [replaced.eq_4 u _ (by simp)]
  · rw [replaced, h lo ps rfl, if_neg Bool.false_ne_true]

/-- A code unit that is no surrogate is encoded by itself. -/
theorem joined_unit {u : Nat} (hu : u < 0xD800) (ps : List Piece) :
    joined (.code u :: ps) = encode u ++ joined ps := by
  rcases ps with _ | ⟨_ | lo, ps⟩
  · rw [joined.eq_4 u [] (by simp), joined]
  · rw [joined.eq_4 u _ (by simp)]
  · have hp : isPair u lo = false := by simp [isPair]; omega
    rw [joined, hp]
    rfl

/-- A code unit that is no high surrogate stands for itself. -/
theorem spells_unit {a b c d : UInt8} {u : Nat} (h : hexUnit a b c d = some u) (hu : u < 0xD800) :
    Spells [92, 117, a, b, c, d] (encode u) := fun rest => by
  simp only [decode, List.cons_append, List.nil_append, pieces, h]
  cases pieces rest with
  | none => rfl
  | some ps => simp [joined_unit hu]

/-! ## Texts with escapes -/

/-- A bound for the bytes of a piece. -/
def Piece.size : Piece → Nat
  | .byte _ => 1
  | .code _ => 4

theorem length_encode (u : Nat) : (encode u).length ≤ 4 := by
  simp only [encode]
  split
  · simp
  · split
    · simp
    · split <;> simp

theorem length_joined (ps : List Piece) : (joined ps).length ≤ (ps.map Piece.size).sum := by
  fun_induction joined ps with
  | case1 => simp
  | case2 b rest ih =>
    simp only [List.length_cons, List.map_cons, List.sum_cons, Piece.size]
    omega
  | case3 hi lo rest hp ih =>
    have h := length_encode (0x10000 + (hi - 0xD800) * 0x400 + (lo - 0xDC00))
    simp only [List.length_append, List.map_cons, List.sum_cons, Piece.size]
    omega
  | case4 hi lo rest hp ih =>
    have h := length_encode hi
    simp only [List.length_append, List.map_cons, List.sum_cons, Piece.size] at ih ⊢
    omega
  | case5 u rest hne ih =>
    have h := length_encode u
    simp only [List.length_append, List.map_cons, List.sum_cons, Piece.size]
    omega

theorem size_pieces {text : List UInt8} {ps : List Piece} (h : pieces text = some ps) :
    (ps.map Piece.size).sum ≤ text.length ∧
      ((92 : UInt8) ∈ text → (ps.map Piece.size).sum < text.length) := by
  have hp := pieced_of_pieces h
  clear h
  induction hp with
  | nil => simp
  | unit hu hrest ih =>
    have hle := ih.1
    simp only [List.map_cons, List.sum_cons, List.length_cons, Piece.size]
    omega
  | escaped he hrest ih =>
    have hle := ih.1
    simp only [List.map_cons, List.sum_cons, List.length_cons, Piece.size]
    omega
  | byte hc hrest ih =>
    obtain ⟨hle, hlt⟩ := ih
    simp only [List.map_cons, List.sum_cons, List.length_cons, Piece.size]
    refine ⟨by omega, fun hmem => ?_⟩
    rcases List.mem_cons.mp hmem with rfl | hmem
    · exact absurd rfl hc.2.1
    · have := hlt hmem
      omega

/-- **A text with a backslash is longer** than what it stands for. -/
theorem length_decode {text bytes : List UInt8} (h : decode text = some bytes)
    (hb : (92 : UInt8) ∈ text) : bytes.length < text.length := by
  obtain ⟨ps, hps, rfl⟩ := Option.map_eq_some_iff.mp h
  exact Nat.lt_of_le_of_lt (length_joined ps) ((size_pieces hps).2 hb)

example : decode [92, 117, 48, 48, 101, 57, 92, 110] = some [195, 169, 10] := by decide

end SocketHandoff.Json
