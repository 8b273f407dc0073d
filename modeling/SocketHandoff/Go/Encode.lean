import SocketHandoff.Lib.Json
import Mathlib.Data.List.Forall2
import Mathlib.Tactic.NormNum
import Mathlib.Algebra.Order.Field.Rat

/-!
# JSON texts of the Go daemon

What `backends/sse.go` and `backends/langgraph.go` append to a body for a string and for a value of
type `any`, with the functions of `strconv` and `encoding/json` they use.
-/

namespace SocketHandoff.Go

open Json

/-! ## Strings -/

/-- `hexDigits[n]`. -/
def hexDigit (n : UInt8) : UInt8 := if n < 10 then 48 + n else 87 + n

/-- What `appendJSONEscaped` appends for a byte. -/
def escapedByte (c : UInt8) : List UInt8 :=
  if c = 92 ∨ c = 34 then [92, c]
  else if c = 10 then [92, 110]
  else if c = 13 then [92, 114]
  else if c = 9 then [92, 116]
  else if c < 32 then [92, 117, 48, 48, hexDigit (c >>> 4), hexDigit (c &&& 15)]
  else [c]

/-- `appendJSONEscaped`. -/
def appendJSONEscaped (buf : List UInt8) : List UInt8 → List UInt8
  | [] => buf
  | c :: s => appendJSONEscaped (buf ++ escapedByte c) s

/-- What `json.Marshal` writes for a byte below 128, and for one of a longer character. -/
def marshalByte (c : UInt8) : List UInt8 :=
  if c = 92 ∨ c = 34 then [92, c]
  else if c = 8 then [92, 98]
  else if c = 12 then [92, 102]
  else if c = 10 then [92, 110]
  else if c = 13 then [92, 114]
  else if c = 9 then [92, 116]
  else if c < 32 ∨ c = 60 ∨ c = 62 ∨ c = 38 then
    [92, 117, 48, 48, hexDigit (c >>> 4), hexDigit (c &&& 15)]
  else [c]

/-- The text between the quotes that `json.Marshal` writes for a string of valid UTF-8; the
characters U+2028 and U+2029 are escaped. -/
def marshalText : List UInt8 → List UInt8
  | [] => []
  | 0xE2 :: 0x80 :: 0xA8 :: s => ascii "\\u2028" ++ marshalText s
  | 0xE2 :: 0x80 :: 0xA9 :: s => ascii "\\u2029" ++ marshalText s
  | c :: s => marshalByte c ++ marshalText s

theorem appendJSONEscaped_eq (buf s : List UInt8) :
    appendJSONEscaped buf s = buf ++ s.flatMap escapedByte := by
  induction s generalizing buf with
  | nil => simp [appendJSONEscaped]
  | cons c s ih => rw [appendJSONEscaped, ih, List.append_assoc, List.flatMap_cons]

/-- No control character is left in what is appended. -/
theorem not_control_of_mem_escapedByte (c : UInt8) : ∀ d ∈ escapedByte c, ¬ d < 32 := by
  have hall := forall_byte (P := fun c => (escapedByte c).all (fun d => ¬ d < 32) = true)
    (by decide +kernel) c
  exact fun d hd => of_decide_eq_true (List.all_eq_true.mp hall d hd)

theorem not_control_of_mem_escaped {s : List UInt8} {d : UInt8} (hd : d ∈ s.flatMap escapedByte) :
    ¬ d < 32 := by
  obtain ⟨c, -, hmem⟩ := List.mem_flatMap.mp hd
  exact not_control_of_mem_escapedByte c d hmem

/-- A text around an escaped string has no line end if there is none in what is put around it. -/
theorem unbroken_escaped {front back : List UInt8} (hfront : ∀ c ∈ front, ¬ c < 32)
    (hback : ∀ c ∈ back, ¬ c < 32) (s : List UInt8) :
    ∀ c ∈ appendJSONEscaped front s ++ back, c ≠ 10 ∧ c ≠ 13 := by
  intro c hc
  have hplain : ¬ c < 32 := by
    rw [appendJSONEscaped_eq] at hc
    rcases List.mem_append.mp hc with hc | hc
    · rcases List.mem_append.mp hc with hc | hc
      · exact hfront c hc
      · exact not_control_of_mem_escaped hc
    · exact hback c hc
  refine ⟨?_, ?_⟩ <;> rintro rfl <;> exact hplain (by decide)

/-- The two digits of a byte are read as the byte. -/
theorem hexUnit_hexDigit : ∀ c : UInt8, c < 128 →
    hexUnit 48 48 (hexDigit (c >>> 4)) (hexDigit (c &&& 15)) = some c.toNat ∧
      encode c.toNat = [c] := forall_byte (by decide +kernel)

theorem spells_hex {c : UInt8} (h : c < 128) :
    Spells [92, 117, 48, 48, hexDigit (c >>> 4), hexDigit (c &&& 15)] [c] := by
  obtain ⟨hunit, henc⟩ := hexUnit_hexDigit c h
  have hs := spells_unit hunit (Nat.lt_trans c.toNat_lt (by decide))
  rwa [henc] at hs

theorem spells_escapedByte (c : UInt8) : Spells (escapedByte c) [c] := by
  rw [escapedByte]
  split
  · rename_i h
    rcases h with rfl | rfl <;> exact spells_escaped rfl
  split
  · rename_i h; subst h; exact spells_escaped rfl
  split
  · rename_i h; subst h; exact spells_escaped rfl
  split
  · rename_i h; subst h; exact spells_escaped rfl
  split
  · rename_i h; exact spells_hex (UInt8.lt_trans h (by decide))
  · rename_i h _ _ _ hc
    exact spells_byte ⟨fun e => h (.inr e), fun e => h (.inl e), hc⟩

theorem spells_marshalByte (c : UInt8) : Spells (marshalByte c) [c] := by
  rw [marshalByte]
  split
  · rename_i h
    rcases h with rfl | rfl <;> exact spells_escaped rfl
  split
  · rename_i h; subst h; exact spells_escaped rfl
  split
  · rename_i h; subst h; exact spells_escaped rfl
  split
  · rename_i h; subst h; exact spells_escaped rfl
  split
  · rename_i h; subst h; exact spells_escaped rfl
  split
  · rename_i h; subst h; exact spells_escaped rfl
  split
  · rename_i h
    refine spells_hex ?_
    rcases h with h | rfl | rfl | rfl
    · exact UInt8.lt_trans h (by decide)
    all_goals decide
  · rename_i h _ _ _ _ _ hc
    exact spells_byte ⟨fun e => h (.inr e), fun e => h (.inl e), fun e => hc (.inl e)⟩

/-- **The escaped text decodes to the string.** The escapes are written a byte at a time and decoded
a piece at a time; this is by induction on the bytes, each of which is one piece. -/
theorem decode_escaped (s : List UInt8) : decode (s.flatMap escapedByte) = some s :=
  (spells_flatMap spells_escapedByte s).decode

theorem spells_marshalText (s : List UInt8) : Spells (marshalText s) s := by
  fun_induction marshalText s with
  | case1 => exact spells_nil
  | case2 s ih =>
    have h : Spells (ascii "\\u2028") [0xE2, 0x80, 0xA8] :=
      spells_unit (u := 0x2028) rfl (by decide)
    exact h.append ih
  | case3 s ih =>
    have h : Spells (ascii "\\u2029") [0xE2, 0x80, 0xA9] :=
      spells_unit (u := 0x2029) rfl (by decide)
    exact h.append ih
  | case4 c s h h' ih => exact (spells_marshalByte c).append ih

/-- A string as `appendJSONEscaped` writes it between quotes. -/
def quoted (s : List UInt8) : List UInt8 := 34 :: (s.flatMap escapedByte ++ [34])

theorem reads_quoted (s : List UInt8) : Reads (quoted s) (.string s) :=
  reads_string (decode_escaped s)

/-! ## Numbers -/

/-- A finite `float64` as `strconv` formats it: by the shortest decimal that is read back as it.
The decimal point is before digit `dp`. -/
structure Decimal where
  neg : Bool
  d : List UInt8
  dp : Int
  digits : ∀ c ∈ d, isDigit c
  head : d.head? ≠ some 48
  zero : d = [] → dp = 0

/-- The number the decimal stands for. -/
def Decimal.value (f : Decimal) : ℚ := numberValue f.neg f.d (f.dp - f.d.length)

def minus (neg : Bool) : List UInt8 := if neg then [45] else []

/-- The exponent of `%e`. -/
def Decimal.exp (f : Decimal) : Int := if f.d = [] then 0 else f.dp - 1

/-- `fmtE` with all digits; `pad` is put before an exponent of one digit. -/
def fmtE (pad : List UInt8) (f : Decimal) : List UInt8 :=
  minus f.neg ++ [f.d.headD 48] ++ (if 1 < f.d.length then 46 :: f.d.tail else []) ++
    [101, if f.exp < 0 then 45 else 43] ++ (if f.exp.natAbs < 10 then pad else []) ++
      ascii (toString f.exp.natAbs)

/-- `fmtF` with all digits. -/
def fmtF (f : Decimal) : List UInt8 :=
  minus f.neg ++
    (if 0 < f.dp then f.d.take f.dp.toNat ++ List.replicate (f.dp.toNat - f.d.length) 48
      else [48]) ++
    (if 0 < f.d.length - f.dp then
      46 :: (List.replicate (-f.dp).toNat 48 ++ f.d.drop f.dp.toNat)
    else [])

/-- `strconv.AppendFloat` with format `g` and precision -1. -/
def appendFloat (buf : List UInt8) (f : Decimal) : List UInt8 :=
  if f.dp - 1 < -4 ∨ 6 ≤ f.dp - 1 then buf ++ fmtE [48] f else buf ++ fmtF f

/-- What `json.Marshal` writes for a `float64`; an exponent such as `e-09` is shortened to `e-9`. -/
def marshalFloat (f : Decimal) : List UInt8 :=
  if f.d ≠ [] ∧ (f.dp - 1 < -6 ∨ 21 ≤ f.dp - 1) then fmtE [] f else fmtF f

theorem numberValue_zeros (neg : Bool) (digits : List UInt8) (n : Nat) (e : Int) :
    numberValue neg (digits ++ List.replicate n 48) e = numberValue neg digits (e + n) := by
  simp only [numberValue, digitsValue_append, digitsValue_zeros, List.length_replicate]
  rw [zpow_add₀ (by norm_num)]
  push_cast
  rw [zpow_natCast]
  ring

theorem numberValue_leading (neg : Bool) (digits : List UInt8) (n : Nat) (e : Int) :
    numberValue neg (List.replicate n 48 ++ digits) e = numberValue neg digits e := by
  simp [numberValue, digitsValue_append, digitsValue_zeros]

/-- A decimal without digits is zero. -/
theorem Decimal.value_nil {f : Decimal} (h : f.d = []) : f.value = 0 := by
  simp [Decimal.value, numberValue, h, digitsValue]

theorem exponentValue_padded (pad : Nat) (e : Int) :
    exponentValue (some (e < 0, List.replicate pad 48 ++ ascii (toString e.natAbs))) = e := by
  rw [exponentValue, digitsValue_append, digitsValue_zeros, digitsValue_toString]
  by_cases h : e < 0
  · simp only [h, decide_true, if_true]
    omega
  · simp only [h, decide_false]
    simp
    omega

/-- **`%e` is read exactly.** -/
theorem reads_fmtE (pad : Nat) (f : Decimal) :
    Reads (fmtE (List.replicate pad 48) f) (.number f.value) := by
  obtain ⟨zeros, hzeros⟩ : ∃ n, (if f.exp.natAbs < 10 then List.replicate pad (48 : UInt8) else []) =
      List.replicate n 48 := by
    split
    · exact ⟨pad, rfl⟩
    · exact ⟨0, rfl⟩
  let numeral : Numeral := ⟨f.neg, [f.d.headD 48], f.d.tail,
    some (f.exp < 0, List.replicate zeros 48 ++ ascii (toString f.exp.natAbs))⟩
  have hvalid : numeral.Valid := by
    refine ⟨?_, fun c hc => f.digits c (List.mem_of_mem_tail hc), ?_, by simp [numeral], ?_⟩
    · intro c hc
      obtain rfl := List.mem_singleton.mp hc
      cases hd : f.d with
      | nil => decide
      | cons c d => exact f.digits c (by simp [hd])
    · rintro e he
      obtain rfl := Option.some.inj he
      refine ⟨List.append_ne_nil_of_right_ne_nil _ (toString_ne_nil _), fun c hc => ?_⟩
      rcases List.mem_append.mp hc with hc | hc
      · rw [List.eq_of_mem_replicate hc]
        decide
      · exact isDigit_toString _ c hc
    · intro h
      simpa [numeral] using h
  have hrender : numeral.render = fmtE (List.replicate pad 48) f := by
    have htail : (if 1 < f.d.length then 46 :: f.d.tail else []) =
        (if f.d.tail = [] then [] else 46 :: f.d.tail) := by
      cases hd : f.d with
      | nil => rfl
      | cons c d => cases d <;> simp
    rw [fmtE, hzeros, htail]
    simp [numeral, Numeral.render, minus, exponentText]
  have hvalue : numeral.value = f.value := by
    rw [Numeral.value, exponentValue_padded]
    cases hd : f.d with
    | nil => simp [numeral, hd, Decimal.value_nil hd, numberValue, digitsValue]
    | cons c d =>
      simp only [numeral, Decimal.value, hd, Decimal.exp]
      congr 1
      simp
      omega
  rw [← hrender, ← hvalue]
  exact reads_number hvalid

theorem Decimal.ne_nil {f : Decimal} (h : f.dp ≠ 0) : f.d ≠ [] := fun hd => h (f.zero hd)

/-- The digits of `%f` before the point. -/
def Decimal.int (f : Decimal) : List UInt8 :=
  if 0 < f.dp then f.d.take f.dp.toNat ++ List.replicate (f.dp.toNat - f.d.length) 48 else [48]

/-- The digits of `%f` behind the point. -/
def Decimal.frac (f : Decimal) : List UInt8 :=
  if 0 < f.d.length - f.dp then List.replicate (-f.dp).toNat 48 ++ f.d.drop f.dp.toNat else []

theorem fmtF_eq (f : Decimal) : fmtF f = Numeral.render ⟨f.neg, f.int, f.frac, none⟩ := by
  have hfrac : (if 0 < f.d.length - f.dp then
      46 :: (List.replicate (-f.dp).toNat 48 ++ f.d.drop f.dp.toNat) else []) =
        if f.frac = [] then [] else 46 :: f.frac := by
    by_cases h : 0 < f.d.length - f.dp
    · have hne : List.replicate (-f.dp).toNat 48 ++ f.d.drop f.dp.toNat ≠ [] := by
        intro e
        have hlen := congrArg List.length e
        simp at hlen
        omega
      rw [Decimal.frac, if_pos h, if_pos h, if_neg hne]
    · rw [Decimal.frac, if_neg h, if_neg h, if_pos rfl]
  rw [fmtF, hfrac]
  simp [Numeral.render, Decimal.int, minus, exponentText]

theorem Decimal.valid (f : Decimal) : Numeral.Valid ⟨f.neg, f.int, f.frac, none⟩ := by
  have hzeros : ∀ n, ∀ c ∈ List.replicate n (48 : UInt8), isDigit c := by
    intro n c hc
    rw [List.eq_of_mem_replicate hc]
    decide
  refine ⟨fun c hc => ?_, fun c hc => ?_, by simp, ?_, fun h => ?_⟩
  · by_cases hdp : 0 < f.dp
    · rw [Decimal.int, if_pos hdp] at hc
      rcases List.mem_append.mp hc with hc | hc
      · exact f.digits c (List.mem_of_mem_take hc)
      · exact hzeros _ c hc
    · rw [Decimal.int, if_neg hdp] at hc
      obtain rfl := List.mem_singleton.mp hc
      decide
  · by_cases hdp : 0 < f.d.length - f.dp
    · rw [Decimal.frac, if_pos hdp] at hc
      rcases List.mem_append.mp hc with hc | hc
      · exact hzeros _ c hc
      · exact f.digits c (List.mem_of_mem_drop hc)
    · rw [Decimal.frac, if_neg hdp] at hc
      exact absurd hc List.not_mem_nil
  · by_cases hdp : 0 < f.dp
    · have hne := f.ne_nil (by omega)
      rw [Decimal.int, if_pos hdp]
      refine List.append_ne_nil_of_left_ne_nil ?_ _
      simp [hne]
      omega
    · simp [Decimal.int, hdp]
  · by_cases hdp : 0 < f.dp
    · -- the first digit of a decimal is not 0
      have hne := f.ne_nil (by omega)
      obtain ⟨c, d, hd⟩ := List.exists_cons_of_ne_nil hne
      have hhead := f.head
      simp only [Decimal.int, if_pos hdp, hd] at h hhead
      obtain ⟨n, hn⟩ := Nat.exists_eq_succ_of_ne_zero (show f.dp.toNat ≠ 0 by omega)
      rw [hn, List.take_succ_cons] at h
      exact absurd h hhead
    · rw [Decimal.int, if_neg hdp]

theorem Decimal.value_eq (f : Decimal) : Numeral.value ⟨f.neg, f.int, f.frac, none⟩ = f.value := by
  simp only [Numeral.value, exponentValue, Decimal.value]
  rcases Int.lt_or_le 0 f.dp with hdp | hdp
  · have hint : f.int = f.d.take f.dp.toNat ++ List.replicate (f.dp.toNat - f.d.length) 48 :=
      if_pos hdp
    by_cases hlen : 0 < f.d.length - f.dp
    · have hfrac : f.frac = f.d.drop f.dp.toNat := by
        rw [Decimal.frac, if_pos hlen, Int.toNat_of_nonpos (by omega)]
        rfl
      have hpad : f.dp.toNat - f.d.length = 0 := by omega
      rw [hint, hfrac, hpad, List.replicate_zero, List.append_nil, List.take_append_drop]
      congr 1
      rw [List.length_drop]
      omega
    · have hfrac : f.frac = [] := if_neg hlen
      rw [hint, hfrac, List.append_nil, List.take_of_length_le (by omega), numberValue_zeros]
      congr 1
      simp
      omega
  · have hint : f.int = [48] := if_neg (by omega)
    by_cases hd : f.d = []
    · have hfrac : f.frac = [] := by simp [Decimal.frac, hd, f.zero hd]
      simp [hint, hfrac, hd, numberValue, digitsValue]
    · have hpos := List.length_pos_iff.mpr hd
      have hfrac : f.frac = List.replicate (-f.dp).toNat 48 ++ f.d := by
        rw [Decimal.frac, if_pos (by omega), Int.toNat_of_nonpos hdp, List.drop_zero]
      rw [hint, hfrac, show ([48] : List UInt8) = List.replicate 1 48 from rfl,
        numberValue_leading, numberValue_leading]
      congr 1
      rw [List.length_append, List.length_replicate]
      omega

/-- **`%f` is read exactly.** -/
theorem reads_fmtF (f : Decimal) : Reads (fmtF f) (.number f.value) := by
  rw [fmtF_eq, ← f.value_eq]
  exact reads_number f.valid

theorem reads_marshalFloat (f : Decimal) : Reads (marshalFloat f) (.number f.value) := by
  rw [marshalFloat]
  split
  · exact reads_fmtE 0 f
  · exact reads_fmtF f

/-! ## Values -/

/-- A value of type `any`, as `json.Unmarshal` makes one, or an integer. The names of a map are in
any order. -/
inductive Any
  | nil
  | bool (b : Bool)
  | int (n : Int)
  | float (f : Decimal)
  | string (s : List UInt8)
  | slice (elems : List Any)
  | map (entries : List (List UInt8 × Any))

/-- The order of `sort.Strings` on the names of entries. -/
def nameLE {α : Type} (a b : List UInt8 × α) : Bool := decide (a.1 ≤ b.1)

mutual

/-- The JSON value of a value; the members of an object are in the order of their names. -/
def Any.value : Any → Value
  | .nil => .null
  | .bool b => .bool b
  | .int n => .number n
  | .float f => .number f.value
  | .string s => .string s
  | .slice elems => .array (Any.values elems)
  | .map entries => .object ((Any.members entries).mergeSort nameLE)

def Any.values : List Any → List Value
  | [] => []
  | v :: rest => v.value :: Any.values rest

def Any.members : List (List UInt8 × Any) → List (List UInt8 × Value)
  | [] => []
  | (name, v) :: rest => (name, v.value) :: Any.members rest

end

mutual

/-- `json.Marshal` of a value that `json.Unmarshal` has returned or that the daemon has built. A map
is written in the order of its names, so that the order in which it is gone through does not matter.
-/
def marshal : Any → List UInt8
  | .nil => ascii "null"
  | .bool b => if b then ascii "true" else ascii "false"
  | .int n => ascii (toString n)
  | .float f => marshalFloat f
  | .string s => 34 :: (marshalText s ++ [34])
  | .slice elems => 91 :: (List.intercalate [44] (marshalElems elems) ++ [93])
  | .map entries =>
    123 :: (List.intercalate [44] (((marshalEntries entries).mergeSort nameLE).map fun e =>
      34 :: (marshalText e.1 ++ 34 :: 58 :: e.2)) ++ [125])

def marshalElems : List Any → List (List UInt8)
  | [] => []
  | v :: rest => marshal v :: marshalElems rest

def marshalEntries : List (List UInt8 × Any) → List (List UInt8 × List UInt8)
  | [] => []
  | (name, v) :: rest => (name, marshal v) :: marshalEntries rest

end

/-- `appendJSONValue`. -/
def appendJSONValue (buf : List UInt8) : Any → List UInt8
  | .string s => appendJSONEscaped (buf ++ [34]) s ++ [34]
  | .int n => buf ++ ascii (toString n)
  | .float f => appendFloat buf f
  | .bool b => if b then buf ++ ascii "true" else buf ++ ascii "false"
  | .nil => buf ++ ascii "null"
  | .slice elems => buf ++ marshal (.slice elems)
  | .map entries => buf ++ marshal (.map entries)

theorem members_eq (entries : List (List UInt8 × Any)) :
    Any.members entries = entries.map fun e => (e.1, e.2.value) := by
  induction entries with
  | nil => rfl
  | cons e entries ih => rw [Any.members, ih, List.map_cons]

theorem marshalEntries_eq (entries : List (List UInt8 × Any)) :
    marshalEntries entries = entries.map fun e => (e.1, marshal e.2) := by
  induction entries with
  | nil => rfl
  | cons e entries ih => rw [marshalEntries, ih, List.map_cons]

/-- Entries are sorted by their names, whatever they hold. -/
theorem mergeSort_map {α β : Type} (f : α → β) (entries : List (List UInt8 × α)) :
    (entries.map fun e => (e.1, f e.2)).mergeSort nameLE =
      (entries.mergeSort nameLE).map fun e => (e.1, f e.2) := by
  rw [List.map_mergeSort]
  intro a _ b _
  rfl

mutual

/-- **`json.Marshal` writes the value.** The induction is on the value, with the lists of elements
and entries along with it; the members of an object come in the order of their names on both sides.
-/
theorem reads_marshal (v : Any) : Reads (marshal v) v.value := by
  cases v with
  | nil => exact reads_null
  | bool b => cases b <;> [exact reads_false; exact reads_true]
  | int n => exact reads_int n
  | float f => exact reads_marshalFloat f
  | string s => exact reads_string (spells_marshalText s).decode
  | slice elems =>
    rw [marshal, Any.value]
    exact reads_array (reads_marshalElems elems)
  | map entries =>
    rw [marshal, Any.value, marshalEntries_eq, members_eq, mergeSort_map, mergeSort_map,
      List.map_map]
    apply reads_object
    rw [List.forall₂_map_left_iff, List.forall₂_map_right_iff, List.forall₂_same]
    intro e he
    have he : e ∈ entries := List.mem_mergeSort.mp he
    exact ⟨_, _, rfl, (spells_marshalText e.1).decode, reads_marshalEntries entries e he⟩

theorem reads_marshalElems (elems : List Any) :
    List.Forall₂ Reads (marshalElems elems) (Any.values elems) := by
  cases elems with
  | nil => exact .nil
  | cons v rest => exact .cons (reads_marshal v) (reads_marshalElems rest)

theorem reads_marshalEntries (entries : List (List UInt8 × Any)) :
    ∀ e ∈ entries, Reads (marshal e.2) e.2.value := by
  cases entries with
  | nil => exact fun e he => absurd he List.not_mem_nil
  | cons e rest =>
    obtain ⟨name, v⟩ := e
    intro e he
    rcases List.mem_cons.mp he with rfl | he
    · exact reads_marshal v
    · exact reads_marshalEntries rest e he

end

/-- The text of a value within a body. -/
def valueText : Any → List UInt8
  | .string s => quoted s
  | .float f => if f.dp - 1 < -4 ∨ 6 ≤ f.dp - 1 then fmtE [48] f else fmtF f
  | v => marshal v

theorem appendJSONValue_eq (buf : List UInt8) (v : Any) :
    appendJSONValue buf v = buf ++ valueText v := by
  cases v with
  | string s => simp [appendJSONValue, appendJSONEscaped_eq, valueText, quoted]
  | float f =>
    rw [appendJSONValue, appendFloat, valueText]
    split <;> rfl
  | bool b => cases b <;> simp [appendJSONValue, valueText, marshal]
  | nil => simp [appendJSONValue, valueText, marshal]
  | int n => simp [appendJSONValue, valueText, marshal]
  | slice elems => simp [appendJSONValue, valueText]
  | map entries => simp [appendJSONValue, valueText]

/-- **`appendJSONValue` appends the value.** -/
theorem reads_valueText (v : Any) : Reads (valueText v) v.value := by
  cases v with
  | string s => exact reads_quoted s
  | float f =>
    rw [valueText]
    split
    · exact reads_fmtE 1 f
    · exact reads_fmtF f
  | _ => exact reads_marshal _

mutual

/-- No map has two entries of one name. A Go map cannot have them, and the list that stands for it
here could. -/
def Any.Distinct : Any → Prop
  | .slice elems => Any.DistinctElems elems
  | .map entries => (entries.map Prod.fst).Nodup ∧ Any.DistinctEntries entries
  | _ => True

def Any.DistinctElems : List Any → Prop
  | [] => True
  | v :: rest => v.Distinct ∧ Any.DistinctElems rest

def Any.DistinctEntries : List (List UInt8 × Any) → Prop
  | [] => True
  | (_, v) :: rest => v.Distinct ∧ Any.DistinctEntries rest

end

/-- An entry is found by its name. -/
theorem lookup_of_nodup {α : Type} {entries : List (List UInt8 × α)}
    (h : (entries.map Prod.fst).Nodup) {e : List UInt8 × α} (he : e ∈ entries) :
    entries.lookup e.1 = some e.2 := by
  obtain ⟨before, behind, rfl⟩ := List.append_of_mem he
  refine List.lookup_eq_some_iff.mpr ⟨before, behind, rfl, fun p hp => ?_⟩
  rw [List.map_append, List.map_cons, List.nodup_append] at h
  exact bne_iff_ne.mpr fun heq =>
    h.2.2 p.1 (List.mem_map_of_mem hp) e.1 List.mem_cons_self heq.symm

theorem names_mergeSort {α : Type} {entries : List (List UInt8 × α)}
    (h : (entries.map Prod.fst).Nodup) : ((entries.mergeSort nameLE).map Prod.fst).Nodup :=
  (((List.mergeSort_perm entries nameLE).map Prod.fst).nodup_iff).mpr h

mutual

theorem distinct_value (v : Any) (h : v.Distinct) : v.value.Distinct := by
  cases v with
  | slice elems => exact distinct_values elems h
  | map entries =>
    obtain ⟨hnames, hentries⟩ := h
    rw [Any.value, Value.Distinct, distinctMembers_iff]
    refine ⟨names_mergeSort ?_, fun m hm => ?_⟩
    · rw [members_eq, List.map_map]
      exact hnames
    · exact distinct_members entries hentries m (List.mem_mergeSort.mp hm)
  | _ => trivial

theorem distinct_values (elems : List Any) (h : Any.DistinctElems elems) :
    DistinctElems (Any.values elems) := by
  cases elems with
  | nil => trivial
  | cons v rest => exact ⟨distinct_value v h.1, distinct_values rest h.2⟩

theorem distinct_members (entries : List (List UInt8 × Any)) (h : Any.DistinctEntries entries) :
    ∀ m ∈ Any.members entries, m.2.Distinct := by
  cases entries with
  | nil => exact fun m hm => absurd hm List.not_mem_nil
  | cons e rest =>
    obtain ⟨name, v⟩ := e
    intro m hm
    rcases List.mem_cons.mp hm with rfl | hm
    · exact distinct_value v h.1
    · exact distinct_members rest h.2 m hm

end

end SocketHandoff.Go
