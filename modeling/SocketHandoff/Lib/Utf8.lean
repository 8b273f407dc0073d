import SocketHandoff.Lib.CText
import SocketHandoff.Lib.JsonString

/-!
# UTF-8

The bytes of a text are the encodings of its characters. A byte string is valid when it is the bytes
of some text; a prefix of it is valid exactly where it is cut between two characters, which the byte
behind the cut tells. A decoder takes one byte that begins no character for the replacement
character.
-/

namespace SocketHandoff.Utf8

/-- The bytes of a text. -/
def bytes (text : List Char) : List UInt8 := text.flatMap String.utf8EncodeChar

/-- The byte string is the bytes of a text. -/
def Valid (s : List UInt8) : Prop := ∃ text, bytes text = s

/-- A byte of a character that is not its first one. -/
def isContinuation (b : UInt8) : Bool := 128 ≤ b ∧ b < 192

/-- A cut before the byte at `k` does not fall inside a character: the byte there, if there is one,
does not continue a character. -/
def Boundary (s : List UInt8) (k : Nat) : Prop := ∀ b, s[k]? = some b → isContinuation b = false

instance (s : List UInt8) (k : Nat) : Decidable (Boundary s k) :=
  decidable_of_iff (s[k]?.all (!isContinuation ·) = true) (by
    cases hb : s[k]? with
    | none => simp [Boundary, hb]
    | some b => simp [Boundary, hb])

/-- U+FFFD -/
def replacement : Char := '\uFFFD'

/-- The character at the front of a byte string. -/
def front (s : List UInt8) : Option Char := s.toByteArray.utf8DecodeChar? 0

/-- At most `n` characters of a byte string. -/
def decodeUpTo : Nat → List UInt8 → List Char
  | _, [] => []
  | 0, _ :: _ => []
  | n + 1, b :: rest =>
    match front (b :: rest) with
    | some c => c :: decodeUpTo n ((b :: rest).drop c.utf8Size)
    | none => replacement :: decodeUpTo n rest

/-- The characters of a byte string. -/
def decode (s : List UInt8) : List Char := decodeUpTo s.length s

/-! ## The encoding of a character -/

variable {c d : Char} {s t : List UInt8} {text : List Char}

theorem bytes_cons (c : Char) (text : List Char) :
    bytes (c :: text) = String.utf8EncodeChar c ++ bytes text := rfl

theorem bytes_append (text text' : List Char) :
    bytes (text ++ text') = bytes text ++ bytes text' := List.flatMap_append

theorem front_encode (c : Char) (s : List UInt8) : front (String.utf8EncodeChar c ++ s) = some c := by
  rw [front, List.toByteArray_append]
  exact ByteArray.utf8DecodeChar?_utf8EncodeChar_append

/-- The decoder finds a character where its encoding is. -/
theorem of_front (h : front s = some c) : s = String.utf8EncodeChar c ++ s.drop c.utf8Size := by
  obtain ⟨l, hl⟩ := ByteArray.exists_of_utf8DecodeChar?_eq_some h
  have hs : s = String.utf8EncodeChar c ++ l.data.toList := by
    have hdata := congrArg (fun b : ByteArray => b.data.toList) hl
    simpa using hdata
  rw [hs, ← String.length_utf8EncodeChar c, List.drop_left]

/-- Encodings are read in one way. -/
theorem encode_inj (h : String.utf8EncodeChar c ++ s = String.utf8EncodeChar d ++ t) :
    c = d ∧ s = t := by
  have hfront : some c = some d := by rw [← front_encode c s, h, front_encode]
  obtain rfl := Option.some.inj hfront
  exact ⟨rfl, List.append_cancel_left h⟩

theorem isContinuation_ofNat {n : Nat} (h : n < 256) :
    isContinuation (UInt8.ofNat n) = (128 ≤ n ∧ n < 192 : Bool) := by
  have hn : (UInt8.ofNat n).toNat = n := by
    rw [UInt8.toNat_ofNat', Nat.mod_eq_of_lt h]
  simp [isContinuation, UInt8.le_iff_toNat_le, UInt8.lt_iff_toNat_lt, hn]

theorem isContinuation_tail (n : Nat) : isContinuation (UInt8.ofNat (n % 64 + 128)) = true := by
  rw [isContinuation_ofNat (by omega)]
  exact decide_eq_true ⟨by omega, by omega⟩

theorem isContinuation_lead {n : Nat} (h : n < 128 ∨ 192 ≤ n) (h' : n < 256) :
    isContinuation (UInt8.ofNat n) = false := by
  rw [isContinuation_ofNat h']
  exact decide_eq_false fun hn => by omega

theorem toNat_lt (c : Char) : c.toNat < 1114112 := by
  obtain h | h := c.valid
  · exact h.trans (by decide)
  · exact h.2

/-- A byte of an encoding is not ASCII, or the character is. -/
theorem mem_encode {b : UInt8} (h : b ∈ String.utf8EncodeChar c) :
    128 ≤ b.toNat ∨ b.toNat = c.toNat := by
  have hval : c.val.toNat = c.toNat := rfl
  have hvalid := toNat_lt c
  simp only [String.utf8EncodeChar, hval] at h
  split at h
  · obtain rfl := List.mem_singleton.mp h
    rw [UInt8.toNat_ofNat']
    omega
  · split at h
    · simp only [List.mem_cons, List.not_mem_nil, or_false] at h
      rcases h with rfl | rfl
      all_goals rw [UInt8.toNat_ofNat']; omega
    · split at h
      · simp only [List.mem_cons, List.not_mem_nil, or_false] at h
        rcases h with rfl | rfl | rfl
        all_goals rw [UInt8.toNat_ofNat']; omega
      · simp only [List.mem_cons, List.not_mem_nil, or_false] at h
        rcases h with rfl | rfl | rfl | rfl
        all_goals rw [UInt8.toNat_ofNat']; omega

/-- The encoding of a code point that is a character. -/
theorem encode_toNat (c : Char) : Json.encode c.toNat = String.utf8EncodeChar c := by
  have hlt := toNat_lt c
  have hval : c.val.toNat = c.toNat := rfl
  have hlast (n : Nat) : n % 64 + 128 = 128 + n % 64 := Nat.add_comm ..
  simp only [Json.encode, String.utf8EncodeChar, hval, hlast]
  by_cases h1 : c.toNat < 128
  · have h1' : c.toNat ≤ 127 := by omega
    rw [if_pos h1, if_pos h1']
  have h1' : ¬ c.toNat ≤ 127 := by omega
  rw [if_neg h1, if_neg h1']
  by_cases h2 : c.toNat < 2048
  · have h2' : c.toNat ≤ 2047 := by omega
    have hlead : c.toNat / 64 % 32 + 192 = 192 + c.toNat / 64 := by omega
    rw [if_pos h2, if_pos h2', hlead]
  have h2' : ¬ c.toNat ≤ 2047 := by omega
  rw [if_neg h2, if_neg h2']
  by_cases h3 : c.toNat < 65536
  · have h3' : c.toNat ≤ 65535 := by omega
    have hlead : c.toNat / 4096 % 16 + 224 = 224 + c.toNat / 4096 := by omega
    rw [if_pos h3, if_pos h3', hlead]
  · have h3' : ¬ c.toNat ≤ 65535 := by omega
    have hlead : c.toNat / 262144 % 8 + 240 = 240 + c.toNat / 262144 := by omega
    rw [if_neg h3, if_neg h3', hlead]

/-- The first byte of an encoding is no continuation, and the others are. -/
theorem encode_cons (c : Char) : ∃ b rest, String.utf8EncodeChar c = b :: rest ∧
    isContinuation b = false ∧ ∀ x ∈ rest, isContinuation x = true := by
  simp only [String.utf8EncodeChar]
  split
  · exact ⟨_, [], rfl, isContinuation_lead (by omega) (by omega), List.forall_mem_nil _⟩
  · split
    · refine ⟨_, _, rfl, isContinuation_lead (by omega) (by omega), ?_⟩
      simp only [List.forall_mem_cons]
      exact ⟨isContinuation_tail _, List.forall_mem_nil _⟩
    · split
      · refine ⟨_, _, rfl, isContinuation_lead (by omega) (by omega), ?_⟩
        simp only [List.forall_mem_cons]
        exact ⟨isContinuation_tail _, isContinuation_tail _, List.forall_mem_nil _⟩
      · refine ⟨_, _, rfl, isContinuation_lead (by omega) (by omega), ?_⟩
        simp only [List.forall_mem_cons]
        exact ⟨isContinuation_tail _, isContinuation_tail _, isContinuation_tail _,
          List.forall_mem_nil _⟩

/-! ## Decoding -/

theorem decodeUpTo_bytes (text : List Char) {n : Nat} (h : (bytes text).length ≤ n) :
    decodeUpTo n (bytes text) = text := by
  induction text generalizing n with
  | nil => cases n <;> rfl
  | cons c text ih =>
    obtain ⟨b, rest, hc, -, -⟩ := encode_cons c
    have hfront := front_encode c (bytes text)
    have hdrop : (String.utf8EncodeChar c ++ bytes text).drop c.utf8Size = bytes text := by
      rw [← String.length_utf8EncodeChar c, List.drop_left]
    rw [bytes_cons, hc, List.cons_append] at h ⊢
    rw [hc, List.cons_append] at hfront hdrop
    rw [List.length_cons, List.length_append] at h
    cases n with
    | zero => omega
    | succ n =>
      rw [decodeUpTo, hfront]
      simp only [hdrop]
      rw [ih (by omega)]

/-- **Decoding** finds the characters of a text. -/
theorem decode_bytes (text : List Char) : decode (bytes text) = text :=
  decodeUpTo_bytes text (Nat.le_refl _)

theorem bytes_decodeUpTo {n : Nat} (hn : s.length ≤ n) (h : replacement ∉ decodeUpTo n s) :
    bytes (decodeUpTo n s) = s := by
  induction n generalizing s with
  | zero =>
    obtain rfl := List.eq_nil_of_length_eq_zero (Nat.le_zero.mp hn)
    rfl
  | succ n ih =>
    cases s with
    | nil => rfl
    | cons b rest =>
      rw [decodeUpTo] at h ⊢
      cases hfront : front (b :: rest) with
      | none =>
        rw [hfront] at h
        exact absurd List.mem_cons_self h
      | some c =>
        rw [hfront] at h
        have hsize := c.utf8Size_pos
        have hrest : ((b :: rest).drop c.utf8Size).length ≤ n := by
          rw [List.length_drop]
          omega
        simp only
        rw [bytes_cons, ih hrest (fun hm => h (List.mem_cons_of_mem _ hm)), ← of_front hfront]

/-- A byte string without a replacement character is what its characters are encoded as. -/
theorem bytes_decode (h : replacement ∉ decode s) : bytes (decode s) = s :=
  bytes_decodeUpTo (Nat.le_refl _) h

/-! ## Prefixes -/

theorem Valid.append (hs : Valid s) (ht : Valid t) : Valid (s ++ t) := by
  obtain ⟨text, rfl⟩ := hs
  obtain ⟨text', rfl⟩ := ht
  exact ⟨text ++ text', bytes_append text text'⟩

theorem valid_encode_append : Valid (String.utf8EncodeChar c ++ s) ↔ Valid s := by
  constructor
  · rintro ⟨text, htext⟩
    cases text with
    | nil =>
      obtain ⟨b, rest, hc, -, -⟩ := encode_cons c
      rw [hc] at htext
      cases htext
    | cons d text =>
      rw [bytes_cons] at htext
      exact ⟨text, (encode_inj htext).2⟩
  · rintro ⟨text, rfl⟩
    exact ⟨c :: text, rfl⟩

/-- A part of an encoding is no text. -/
theorem not_valid_take_encode {k : Nat} (hpos : 0 < k) (hk : k < (String.utf8EncodeChar c).length) :
    ¬ Valid ((String.utf8EncodeChar c).take k) := by
  rintro ⟨text, htext⟩
  have hlen := congrArg List.length htext
  rw [List.length_take, Nat.min_eq_left (Nat.le_of_lt hk)] at hlen
  cases text with
  | nil =>
    have hzero : 0 = k := hlen
    omega
  | cons d text =>
    have hsplit : String.utf8EncodeChar d ++ (bytes text ++ (String.utf8EncodeChar c).drop k) =
        String.utf8EncodeChar c ++ [] := by
      rw [← List.append_assoc, ← bytes_cons, htext, List.take_append_drop, List.append_nil]
    obtain ⟨rfl, hnil⟩ := encode_inj hsplit
    have hdrop := congrArg List.length hnil
    rw [List.length_append, List.length_drop, List.length_nil] at hdrop
    omega

/-- **A prefix of a text** is valid exactly where no character is cut. -/
theorem valid_take_iff (hs : Valid s) {k : Nat} : Valid (s.take k) ↔ Boundary s k := by
  obtain ⟨text, rfl⟩ := hs
  induction text generalizing k with
  | nil =>
    have hnil : (bytes []).take k = bytes [] := List.take_nil
    rw [hnil]
    exact ⟨fun _ b hb => absurd hb (by simp [bytes]), fun _ => ⟨[], rfl⟩⟩
  | cons c text ih =>
    rw [bytes_cons]
    by_cases hk : k < (String.utf8EncodeChar c).length
    · obtain ⟨b, rest, hc, hb, hrest⟩ := encode_cons c
      rw [List.take_append_of_le_length (Nat.le_of_lt hk), Boundary,
        List.getElem?_append_left hk]
      cases k with
      | zero =>
        -- before the character
        rw [hc]
        simpa [hb] using ⟨[], rfl⟩
      | succ k =>
        -- inside it
        refine ⟨fun hvalid => absurd hvalid (not_valid_take_encode (Nat.succ_pos k) hk), fun h => ?_⟩
        have hmem := h _ (List.getElem?_eq_getElem hk)
        simp only [hc, List.getElem_cons_succ] at hmem
        rw [hrest _ (List.getElem_mem _)] at hmem
        cases hmem
    · have hle := Nat.le_of_not_lt hk
      rw [List.take_append, List.take_of_length_le hle, valid_encode_append, ih, Boundary, Boundary,
        List.getElem?_append_right hle]

/-- What is before a byte that begins a character. -/
theorem Valid.left {b : UInt8} (h : Valid (s ++ b :: t)) (hb : isContinuation b = false) : Valid s := by
  have hboundary : Boundary (s ++ b :: t) s.length := by
    intro x hx
    rw [List.getElem?_append_right (Nat.le_refl _), Nat.sub_self, List.getElem?_cons_zero] at hx
    rwa [← Option.some.inj hx]
  have hvalid := (valid_take_iff h).mpr hboundary
  rwa [List.take_left] at hvalid

theorem Valid.boundary_zero (hs : Valid s) : Boundary s 0 :=
  (valid_take_iff hs).mp ⟨[], List.take_zero.symm⟩

end SocketHandoff.Utf8
