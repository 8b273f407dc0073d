import SocketHandoff.Lib.CText
import SocketHandoff.Lib.JsonString
import Mathlib.Data.Rat.Defs
import Mathlib.Data.List.DropRight
import Mathlib.Algebra.Field.Rat
import Mathlib.Tactic.Ring

/-!
# JSON texts

A reader of JSON texts, which returns the value of a text and refuses one that is not JSON, and the
rules by which a text that is put together from the texts of parts is read as the value put
together from the values of the parts. A number is read exactly, as a rational.
-/

namespace SocketHandoff.Json

/-- A JSON value. The strings are in UTF-8, the members of an object in the order of the text. -/
inductive Value
  | null
  | bool (b : Bool)
  | number (q : ℚ)
  | string (s : List UInt8)
  | array (elems : List Value)
  | object (members : List (List UInt8 × Value))

/-! ## The reader -/

/-- Insignificant white space. -/
def isWhite (c : UInt8) : Bool := c = 32 ∨ c = 9 ∨ c = 10 ∨ c = 13

def skip (text : List UInt8) : List UInt8 := text.dropWhile isWhite

/-- The text of a string up to its closing quote, and what follows the quote. -/
def readString : List UInt8 → Option (List UInt8 × List UInt8)
  | [] => none
  | 34 :: rest => some ([], rest)
  | 92 :: c :: rest => do
    let (text, rest) ← readString rest
    return (92 :: c :: text, rest)
  | c :: rest => do
    let (text, rest) ← readString rest
    return (c :: text, rest)

/-- The sign of a number. -/
def readSign (text : List UInt8) : Bool × List UInt8 :=
  if text.head? = some 45 then (true, text.tail) else (false, text)

/-- The digits behind the point, if there is one. -/
def readFraction (text : List UInt8) : Option (List UInt8 × List UInt8) :=
  if text.head? = some 46 then
    let digits := text.tail.takeWhile isDigit
    if digits = [] then none else some (digits, text.tail.dropWhile isDigit)
  else some ([], text)

/-- The exponent, if there is one. -/
def readExponent (text : List UInt8) : Option (Int × List UInt8) :=
  if text.head? = some 101 ∨ text.head? = some 69 then
    let negative := text.tail.head? = some 45
    let unsigned := if negative ∨ text.tail.head? = some 43 then text.tail.tail else text.tail
    let digits := unsigned.takeWhile isDigit
    if digits = [] then none
    else some (if negative then -digitsValue digits else digitsValue digits,
      unsigned.dropWhile isDigit)
  else some (0, text)

/-- What the parts of a number stand for. -/
def numberValue (negative : Bool) (digits : List UInt8) (exponent : Int) : ℚ :=
  (if negative then -1 else 1) * (digitsValue digits : ℚ) * (10 : ℚ) ^ exponent

/-- A number. Its first digit is 0 only if it has no second one before the point. -/
def readNumber (text : List UInt8) : Option (ℚ × List UInt8) := do
  let (negative, text) := readSign text
  let int := text.takeWhile isDigit
  if int = [] ∨ (int.head? = some 48 ∧ int ≠ [48]) then none
  else
    let (frac, text) ← readFraction (text.dropWhile isDigit)
    let (exponent, text) ← readExponent text
    return (numberValue negative (int ++ frac) (exponent - frac.length), text)

mutual

/-- The value at the start of a text, and what follows it. -/
def parseValue : (fuel : Nat) → List UInt8 → Option (Value × List UInt8)
  | 0, _ => none
  | fuel + 1, text =>
    match skip text with
    | 34 :: text => do
      let (body, text) ← readString text
      let s ← decode body
      return (.string s, text)
    | 91 :: text =>
      match skip text with
      | 93 :: text => some (.array [], text)
      | text => do
        let (elems, text) ← parseElems fuel text
        return (.array elems, text)
    | 123 :: text =>
      match skip text with
      | 125 :: text => some (.object [], text)
      | text => do
        let (members, text) ← parseMembers fuel text
        return (.object members, text)
    | 110 :: 117 :: 108 :: 108 :: text => some (.null, text)
    | 116 :: 114 :: 117 :: 101 :: text => some (.bool true, text)
    | 102 :: 97 :: 108 :: 115 :: 101 :: text => some (.bool false, text)
    | text => do
      let (q, text) ← readNumber text
      return (.number q, text)

/-- The elements of an array, with the bracket that ends it. -/
def parseElems : (fuel : Nat) → List UInt8 → Option (List Value × List UInt8)
  | 0, _ => none
  | fuel + 1, text => do
    let (v, text) ← parseValue fuel text
    match skip text with
    | 44 :: text => do
      let (vs, text) ← parseElems fuel text
      return (v :: vs, text)
    | 93 :: text => return ([v], text)
    | _ => none

/-- The members of an object, with the brace that ends it. -/
def parseMembers : (fuel : Nat) → List UInt8 → Option (List (List UInt8 × Value) × List UInt8)
  | 0, _ => none
  | fuel + 1, text =>
    match skip text with
    | 34 :: text => do
      let (body, text) ← readString text
      let name ← decode body
      match skip text with
      | 58 :: text => do
        let (v, text) ← parseValue fuel text
        match skip text with
        | 44 :: text => do
          let (ms, text) ← parseMembers fuel text
          return ((name, v) :: ms, text)
        | 125 :: text => return ([(name, v)], text)
        | _ => none
      | _ => none
    | _ => none

end

attribute [grind =] parseValue parseElems parseMembers

/-- The value of a text. -/
def parse (text : List UInt8) : Option Value := do
  let (v, rest) ← parseValue text.length text
  if skip rest = [] then some v else none

/-! ## Texts of values -/

/-- What may follow a value within an array or an object, or nothing. A number has no end of its
own, and would go on with a digit behind it. -/
def Stops (rest : List UInt8) : Prop := ∀ c ∈ rest.head?, c = 44 ∨ c = 93 ∨ c = 125

@[simp] theorem stops_nil : Stops [] := by simp [Stops]

@[simp] theorem stops_cons {c : UInt8} {rest : List UInt8} :
    Stops (c :: rest) ↔ c = 44 ∨ c = 93 ∨ c = 125 := by
  simp [Stops]

/-- A text is read as a value, whatever follows it. -/
def Reads (text : List UInt8) (v : Value) : Prop :=
  ∀ fuel rest, text.length ≤ fuel → Stops rest → parseValue fuel (text ++ rest) = some (v, rest)

section Rules

variable {text rest : List UInt8} {v : Value} {fuel : Nat}

theorem Reads.length_pos (h : Reads text v) : 0 < text.length := by
  rcases Nat.eq_zero_or_pos text.length with h0 | hpos
  · have hparse := h 0 [] (Nat.le_of_eq h0) stops_nil
    simp [parseValue] at hparse
  · exact hpos

/-- The whole text. -/
theorem Reads.parse (h : Reads text v) : parse text = some v := by
  have hparse := h text.length [] (Nat.le_refl _) stops_nil
  rw [List.append_nil] at hparse
  simp [Json.parse, hparse, skip]

theorem skip_skip (text : List UInt8) : skip (skip text) = skip text := by
  exact List.dropWhile_idempotent _ _

theorem parseValue_skip : parseValue fuel (skip text) = parseValue fuel text := by
  cases fuel with
  | zero => rw [parseValue, parseValue]
  | succ fuel => rw [parseValue, parseValue, skip_skip]

theorem reads_null : Reads (ascii "null") .null := by
  rintro (_ | fuel) rest hfuel hrest
  · simp [ascii] at hfuel
  · simp [parseValue, skip, isWhite, ascii]

theorem reads_true : Reads (ascii "true") (.bool true) := by
  rintro (_ | fuel) rest hfuel hrest
  · simp [ascii] at hfuel
  · simp [parseValue, skip, isWhite, ascii]

theorem reads_false : Reads (ascii "false") (.bool false) := by
  rintro (_ | fuel) rest hfuel hrest
  · simp [ascii] at hfuel
  · simp [parseValue, skip, isWhite, ascii]

/-! ### Strings -/

theorem hexValue_plain : ∀ c : UInt8, (hexValue c).isSome → c ≠ 34 ∧ c ≠ 92 :=
  forall_byte (by decide +kernel)

theorem readString_cons {c : UInt8} (h34 : c ≠ 34) (h92 : c ≠ 92) :
    readString (c :: text) = (readString text).map fun p => (c :: p.1, p.2) := by
  rw [readString.eq_4 c text (fun h => h34 h) (fun _ _ h => absurd h h92)]
  cases readString text <;> rfl

/-- The quote that ends a string is the first one that is not escaped. -/
theorem readString_quote {ps : List Piece} (h : pieces text = some ps) :
    readString (text ++ 34 :: rest) = some (text, rest) := by
  fun_induction pieces text generalizing ps with
  | case1 => rw [List.nil_append, readString]
  | case2 a b c d text ih =>
    obtain ⟨u, hu, htext⟩ := Option.bind_eq_some_iff.mp h
    obtain ⟨qs, hqs, -⟩ := Option.bind_eq_some_iff.mp htext
    obtain ⟨x, hx, y, hy, z, hz, w, hw⟩ : ∃ x, hexValue a = some x ∧ ∃ y, hexValue b = some y ∧
        ∃ z, hexValue c = some z ∧ ∃ w, hexValue d = some w := by
      simp only [hexUnit, Option.bind_eq_bind, Option.bind_eq_some_iff] at hu
      obtain ⟨x, hx, y, hy, z, hz, w, hw, -⟩ := hu
      exact ⟨x, hx, y, hy, z, hz, w, hw⟩
    -- the digits of the escape are neither quotes nor backslashes
    obtain ⟨ha, ha'⟩ := hexValue_plain a (by simp [hx])
    obtain ⟨hb, hb'⟩ := hexValue_plain b (by simp [hy])
    obtain ⟨hc, hc'⟩ := hexValue_plain c (by simp [hz])
    obtain ⟨hd, hd'⟩ := hexValue_plain d (by simp [hw])
    simp only [List.cons_append, readString, readString_cons ha ha', readString_cons hb hb',
      readString_cons hc hc', readString_cons hd hd', ih hqs]
    rfl
  | case3 c text hne ih =>
    obtain ⟨u, hu, htext⟩ := Option.bind_eq_some_iff.mp h
    obtain ⟨qs, hqs, -⟩ := Option.bind_eq_some_iff.mp htext
    simp only [List.cons_append, readString, ih hqs]
    rfl
  | case4 => cases h
  | case5 c text hne hne' hc ih =>
    obtain ⟨qs, hqs, -⟩ := Option.map_eq_some_iff.mp h
    have h34 : c ≠ 34 := fun e => hc (.inl e)
    have h92 : c ≠ 92 := fun e => hc (.inr (.inl e))
    rw [List.cons_append, readString_cons h34 h92, ih hqs]
    rfl

/-- **A string has one end only**, whatever is made of its pieces: where a text is read up to a quote
in two ways, it is the same quote. -/
theorem pieces_end {α β : Type} {f : List Piece → α} {g : List Piece → β} {x : α} {y : β}
    {body body' tail tail' : List UInt8} (hx : f <$> pieces body = some x)
    (hy : g <$> pieces body' = some y) (h : body ++ 34 :: tail = body' ++ 34 :: tail') :
    body = body' ∧ tail = tail' := by
  obtain ⟨ps, hps, -⟩ := Option.map_eq_some_iff.mp hx
  obtain ⟨ps', hps', -⟩ := Option.map_eq_some_iff.mp hy
  have hread : readString (body ++ 34 :: tail) = some (body, tail) := readString_quote hps
  rw [h, readString_quote hps'] at hread
  obtain ⟨hbody, htail⟩ := Prod.mk.inj (Option.some.inj hread)
  exact ⟨hbody.symm, htail.symm⟩

theorem reads_string {s : List UInt8} (h : decode text = some s) :
    Reads (34 :: (text ++ [34])) (.string s) := by
  obtain ⟨ps, hps, -⟩ := Option.map_eq_some_iff.mp h
  rintro (_ | fuel) rest hfuel hrest
  · simp at hfuel
  · simp [parseValue, skip, isWhite, readString_quote hps, h]

/-! ### Numbers -/

/-- The parts of the text of a number. -/
structure Numeral where
  negative : Bool
  int : List UInt8
  /-- the digits behind the point; there is none if they are empty -/
  frac : List UInt8
  /-- whether the exponent is negative, and its digits -/
  exponent : Option (Bool × List UInt8)

/-- The text of the exponent. -/
def exponentText : Option (Bool × List UInt8) → List UInt8
  | none => []
  | some (negative, digits) => 101 :: (if negative then 45 else 43) :: digits

def exponentValue : Option (Bool × List UInt8) → Int
  | none => 0
  | some (negative, digits) => if negative then -digitsValue digits else digitsValue digits

def Numeral.render (n : Numeral) : List UInt8 :=
  (if n.negative then [45] else []) ++ (n.int ++ ((if n.frac = [] then [] else 46 :: n.frac) ++
    exponentText n.exponent))

def Numeral.value (n : Numeral) : ℚ :=
  numberValue n.negative (n.int ++ n.frac) (exponentValue n.exponent - n.frac.length)

/-- The parts are as JSON has them. -/
structure Numeral.Valid (n : Numeral) : Prop where
  int : ∀ c ∈ n.int, isDigit c
  frac : ∀ c ∈ n.frac, isDigit c
  exponent : ∀ e ∈ n.exponent, e.2 ≠ [] ∧ ∀ c ∈ e.2, isDigit c
  ne_nil : n.int ≠ []
  zero : n.int.head? = some 48 → n.int = [48]

/-- No digit, point or letter of a number is next. -/
def Ends (rest : List UInt8) : Prop :=
  ∀ c ∈ rest.head?, isDigit c = false ∧ c ≠ 46 ∧ c ≠ 101 ∧ c ≠ 69

theorem Stops.ends (h : Stops rest) : Ends rest := by
  intro c hc
  rcases h c hc with rfl | rfl | rfl <;> decide

theorem digits_append {digits : List UInt8} (hd : ∀ c ∈ digits, isDigit c)
    (hrest : ∀ c ∈ rest.head?, isDigit c = false) :
    (digits ++ rest).takeWhile isDigit = digits ∧ (digits ++ rest).dropWhile isDigit = rest := by
  rw [List.takeWhile_append_of_pos hd, List.dropWhile_append_of_pos hd]
  cases rest with
  | nil => simp
  | cons c rest =>
    have hc : isDigit c = false := hrest c (by simp)
    simp [hc]

theorem readExponent_text {e : Option (Bool × List UInt8)}
    (he : ∀ p ∈ e, p.2 ≠ [] ∧ ∀ c ∈ p.2, isDigit c) (hrest : Ends rest) :
    readExponent (exponentText e ++ rest) = some (exponentValue e, rest) := by
  cases e with
  | none =>
    have hne : ¬ (rest.head? = some 101 ∨ rest.head? = some 69) := by
      rintro (h | h)
      · exact (hrest _ h).2.2.1 rfl
      · exact (hrest _ h).2.2.2 rfl
    simp [exponentText, exponentValue, readExponent, hne]
  | some p =>
    obtain ⟨negative, digits⟩ := p
    obtain ⟨hne, hd⟩ := he _ rfl
    obtain ⟨htake, hdrop⟩ := digits_append hd fun c hc => (hrest c hc).1
    cases negative <;>
      simp [exponentText, exponentValue, readExponent, htake, hdrop, hne]

theorem readFraction_text {frac : List UInt8} (hf : ∀ c ∈ frac, isDigit c)
    (hrest : ∀ c ∈ rest.head?, isDigit c = false ∧ c ≠ 46) :
    readFraction ((if frac = [] then [] else 46 :: frac) ++ rest) = some (frac, rest) := by
  by_cases h : frac = []
  · have hne : rest.head? ≠ some 46 := fun e => (hrest _ e).2 rfl
    simp [h, readFraction, hne]
  · obtain ⟨htake, hdrop⟩ := digits_append hf fun c hc => (hrest c hc).1
    simp [h, readFraction, htake, hdrop]

/-- What follows the fraction is no digit. -/
theorem head_exponentText {e : Option (Bool × List UInt8)} (hrest : Ends rest) :
    ∀ c ∈ (exponentText e ++ rest).head?, isDigit c = false ∧ c ≠ 46 := by
  cases e with
  | none => exact fun c hc => ⟨(hrest c hc).1, (hrest c hc).2.1⟩
  | some p =>
    intro c hc
    obtain rfl : 101 = c := by simpa [exponentText] using hc
    decide

/-- What follows the digits before the point is no digit. -/
theorem head_fraction (frac : List UInt8) (e : Option (Bool × List UInt8)) (hrest : Ends rest) :
    ∀ c ∈ (((if frac = [] then [] else 46 :: frac) ++ exponentText e) ++ rest).head?,
      isDigit c = false := by
  intro c hc
  by_cases h : frac = []
  · rw [if_pos h, List.nil_append] at hc
    exact (head_exponentText hrest c hc).1
  · obtain rfl : 46 = c := by simpa [h] using hc
    decide

theorem readNumber_text {n : Numeral} (hn : n.Valid) (hrest : Ends rest) :
    readNumber (n.render ++ rest) = some (n.value, rest) := by
  obtain ⟨htake, hdrop⟩ := digits_append hn.int (head_fraction n.frac n.exponent
    hrest)
  have hfrac := readFraction_text hn.frac (head_exponentText (e := n.exponent) hrest)
  have hexp := readExponent_text hn.exponent hrest
  obtain ⟨c, int, hint⟩ := List.exists_cons_of_ne_nil hn.ne_nil
  -- the sign is read first; without one, the first digit is no minus
  have hsign : readSign (n.render ++ rest) = (n.negative, n.int ++
      (((if n.frac = [] then [] else 46 :: n.frac) ++ exponentText n.exponent) ++ rest)) := by
    have hc : c ≠ 45 := by
      rintro rfl
      exact absurd (hn.int 45 (by simp [hint])) (by decide)
    cases hneg : n.negative <;> simp [Numeral.render, readSign, hneg, hint, hc]
  have hok : ¬ (n.int = [] ∨ n.int.head? = some 48 ∧ n.int ≠ [48]) := by
    rintro (h | ⟨h, hne⟩)
    · exact hn.ne_nil h
    · exact hne (hn.zero h)
  rw [List.append_assoc] at hsign htake hdrop
  simp [readNumber, hsign, htake, hdrop, hok, hfrac, hexp, Numeral.value]

theorem parseValue_number {c : UInt8} (hc : c = 45 ∨ isDigit c = true) :
    parseValue (fuel + 1) (c :: text) =
      (readNumber (c :: text)).map fun p => (.number p.1, p.2) := by
  have hne : ∀ c : UInt8, c = 45 ∨ isDigit c = true → isWhite c = false ∧ c ≠ 34 ∧ c ≠ 91 ∧
      c ≠ 123 ∧ c ≠ 110 ∧ c ≠ 116 ∧ c ≠ 102 := forall_byte (by decide +kernel)
  obtain ⟨hwhite, h34, h91, h123, h110, h116, h102⟩ := hne c hc
  have hskip : skip (c :: text) = c :: text := by simp [skip, hwhite]
  rw [parseValue, hskip]
  split <;> rename_i heq
  all_goals first
    | exact absurd (List.cons.inj heq).1 (by assumption)
    | skip
  cases readNumber (c :: text) <;> rfl

theorem reads_number {n : Numeral} (hn : n.Valid) : Reads n.render (.number n.value) := by
  have hhead : ∃ c t, n.render = c :: t ∧ (c = 45 ∨ isDigit c = true) := by
    obtain ⟨c, int, hint⟩ := List.exists_cons_of_ne_nil hn.ne_nil
    cases hneg : n.negative
    · exact ⟨c, _, by simp [Numeral.render, hneg, hint]; rfl, .inr (hn.int c (by simp [hint]))⟩
    · exact ⟨45, _, by simp [Numeral.render, hneg]; rfl, .inl rfl⟩
  obtain ⟨c, t, ht, hc⟩ := hhead
  rintro (_ | fuel) rest hfuel hrest
  · simp [ht] at hfuel
  · have hread := readNumber_text hn hrest.ends
    rw [ht, List.cons_append] at hread ⊢
    rw [parseValue_number hc, hread]
    rfl

/-! ### Digits -/

theorem digitsValue_foldl (n : Int) (digits : List UInt8) :
    digits.foldl (fun (n : Int) c => n * 10 + (c.toNat - 48 : Nat)) n =
      n * 10 ^ digits.length + digitsValue digits := by
  induction digits generalizing n with
  | nil => simp [digitsValue]
  | cons c digits ih =>
    rw [digitsValue, List.foldl_cons, List.foldl_cons, ih, ih (0 * 10 + _), List.length_cons]
    ring

theorem digitsValue_append (a b : List UInt8) :
    digitsValue (a ++ b) = digitsValue a * 10 ^ b.length + digitsValue b := by
  rw [digitsValue, List.foldl_append, digitsValue_foldl]
  rfl

theorem digitsValue_zeros (n : Nat) : digitsValue (List.replicate n 48) = 0 := by
  induction n with
  | zero => rfl
  | succ n ih =>
    rw [List.replicate_succ', digitsValue_append, ih]
    rfl

theorem digit_bounds {c : Char} (h : c.isDigit) : 48 ≤ c.toNat ∧ c.toNat ≤ 57 := by
  simp only [Char.isDigit, Bool.and_eq_true, decide_eq_true_eq, ge_iff_le] at h
  exact ⟨UInt32.le_iff_toNat_le.mp h.1, UInt32.le_iff_toNat_le.mp h.2⟩

theorem isDigit_toString (n : Nat) : ∀ c ∈ ascii (toString n), isDigit c := by
  intro c hc
  rw [ascii, Nat.toString_eq_repr, Nat.toList_repr] at hc
  obtain ⟨d, hd, rfl⟩ := List.mem_map.mp hc
  obtain ⟨hlo, hhi⟩ := digit_bounds (Nat.isDigit_of_mem_toDigits (by decide) (by decide) hd)
  simp only [isDigit, decide_eq_true_eq, UInt8.le_iff_toNat_le, UInt8.toNat_ofNat']
  rw [Nat.mod_eq_of_lt (by omega)]
  exact ⟨hlo, hhi⟩

theorem toString_ne_nil (n : Nat) : ascii (toString n) ≠ [] := by
  rw [ascii, Nat.toString_eq_repr, Nat.toList_repr]
  simp [Nat.toDigits_ne_nil]

theorem head_toDigits (n : Nat) : (Nat.toDigits 10 n).head? = some '0' → n = 0 := by
  induction n using Nat.strongRecOn with
  | _ n ih =>
    intro h
    rcases Nat.lt_or_ge n 10 with hlt | hge
    · rw [Nat.toDigits_of_lt_base hlt] at h
      simpa using h
    · rw [Nat.toDigits_of_base_le (by decide) hge,
        List.head?_append_of_ne_nil _ Nat.toDigits_ne_nil] at h
      have := ih (n / 10) (by omega) h
      omega

/-- Only the number 0 begins with that digit. -/
theorem head_toString (n : Nat) (h : (ascii (toString n)).head? = some 48) :
    ascii (toString n) = [48] := by
  have hdigit := fun c => Nat.isDigit_of_mem_toDigits (b := 10) (n := n) (c := c) (by decide)
    (by decide)
  have hhead := head_toDigits n
  rw [ascii, Nat.toString_eq_repr, Nat.toList_repr, List.head?_map] at h
  obtain ⟨c, hc, h48⟩ := Option.map_eq_some_iff.mp h
  obtain ⟨hlo, hhi⟩ := digit_bounds (hdigit c (List.mem_of_mem_head? hc))
  have hc48 : c.toNat = 48 := by
    have := congrArg UInt8.toNat h48
    rw [UInt8.toNat_ofNat', Nat.mod_eq_of_lt (by omega)] at this
    exact this
  obtain rfl : c = '0' := Char.ext (UInt32.toNat_inj.mp hc48)
  rw [hhead hc]
  rfl

/-- The digits of a number. -/
theorem digitsValue_toString (n : Nat) : digitsValue (ascii (toString n)) = n := by
  have hof := Nat.ofDigitChars_ten_toDigits (n := n)
  rw [Nat.ofDigitChars_eq_foldl] at hof
  have hdigit : ∀ c ∈ Nat.toDigits 10 n, c.isDigit :=
    fun c hc => Nat.isDigit_of_mem_toDigits (by decide) (by decide) hc
  rw [ascii, digitsValue, Nat.toString_eq_repr, Nat.toList_repr]
  generalize Nat.toDigits 10 n = digits at hof hdigit
  rw [← hof]
  -- both are the same sum, of bytes here and of characters there
  suffices h : ∀ (m : Nat), List.foldl (fun (n : Int) c => n * 10 + (c.toNat - 48 : Nat)) m
      (digits.map fun c => UInt8.ofNat c.toNat) =
        (digits.foldl (fun m c => 10 * m + (c.toNat - '0'.toNat)) m : Nat) from h 0
  clear hof
  induction digits with
  | nil => exact fun m => rfl
  | cons c digits ih =>
    intro m
    have hc : (UInt8.ofNat c.toNat).toNat = c.toNat := by
      have h := (digit_bounds (hdigit c List.mem_cons_self)).2
      rw [UInt8.toNat_ofNat', Nat.mod_eq_of_lt (by omega)]
    have hstep : (m : Int) * 10 + ((UInt8.ofNat c.toNat).toNat - 48 : Nat) =
        ((10 * m + (c.toNat - '0'.toNat) : Nat) : Int) := by
      rw [hc]
      push_cast
      ring_nf
    rw [List.map_cons, List.foldl_cons, hstep, List.foldl_cons]
    exact ih (fun d hd => hdigit d (List.mem_cons_of_mem c hd)) _

/-- A whole number. -/
theorem reads_int (n : Int) : Reads (ascii (toString n)) (.number n) := by
  let numeral : Numeral := ⟨n < 0, ascii (toString n.natAbs), [], none⟩
  have hvalid : numeral.Valid := by
    refine ⟨isDigit_toString _, by simp [numeral], by simp [numeral], toString_ne_nil _,
      head_toString _⟩
  have hrender : numeral.render = ascii (toString n) := by
    rw [Int.toString_eq_repr, Int.repr_eq_if]
    by_cases h : n < 0
    · have habs : n.natAbs = (-n).toNat := by omega
      rw [if_neg (by omega)]
      simp [numeral, Numeral.render, h, exponentText, ascii, habs]
    · have habs : n.natAbs = n.toNat := by omega
      rw [if_pos (by omega)]
      simp [numeral, Numeral.render, h, exponentText, ascii, habs]
  have hvalue : numeral.value = n := by
    have hdigits : digitsValue (ascii n.natAbs.repr) = n.natAbs := by
      rw [← Nat.toString_eq_repr, digitsValue_toString]
    by_cases h : n < 0
    · have habs : (n.natAbs : Int) = -n := by omega
      simp [numeral, Numeral.value, numberValue, exponentValue, hdigits, habs, h]
    · have habs : (n.natAbs : Int) = n := by omega
      simp [numeral, Numeral.value, numberValue, exponentValue, hdigits, habs, h]
  rw [← hrender, ← hvalue]
  exact reads_number hvalid

/-! ### Arrays and objects -/

/-- A value does not begin with a bracket that ends an array. -/
theorem Reads.skip_ne (h : Reads text v) (hrest : Stops rest) (tail : List UInt8) :
    skip (text ++ rest) ≠ 93 :: tail := by
  intro heq
  have hparse := h _ _ (Nat.le_refl _) hrest
  rw [← parseValue_skip, heq] at hparse
  cases hlen : text.length with
  | zero => exact absurd h.length_pos (by omega)
  | succ n =>
    rw [hlen, parseValue] at hparse
    simp [skip, isWhite, readNumber, readSign, isDigit] at hparse

theorem parseElems_texts {t : List UInt8} {texts : List (List UInt8)} {w : Value}
    {values : List Value} (ht : Reads t w) (h : List.Forall₂ Reads texts values)
    (hfuel : (List.intercalate [44] (t :: texts)).length < fuel) :
    parseElems fuel (List.intercalate [44] (t :: texts) ++ 93 :: rest) =
      some (w :: values, rest) := by
  induction h generalizing t w fuel with
  | nil =>
    obtain _ | fuel := fuel
    · exact absurd hfuel (Nat.not_lt_zero _)
    · rw [List.intercalate_singleton] at hfuel ⊢
      simp [parseElems, ht fuel (93 :: rest) (by omega) (by simp), skip, isWhite]
  | @cons t' w' texts values ht' h ih =>
    obtain _ | fuel := fuel
    · exact absurd hfuel (Nat.not_lt_zero _)
    · rw [List.intercalate_cons_cons] at hfuel ⊢
      simp only [List.length_append, List.length_cons, List.length_nil] at hfuel
      have hhead := ht fuel (44 :: (List.intercalate [44] (t' :: texts) ++ 93 :: rest)) (by omega)
        (by simp)
      have htail := @ih fuel _ _ ht' (by omega)
      simp [parseElems, hhead, skip, isWhite, htail]

theorem parseElems_skip : parseElems fuel (skip text) = parseElems fuel text := by
  cases fuel with
  | zero => rw [parseElems, parseElems]
  | succ fuel => rw [parseElems, parseElems, parseValue_skip]

/-- What comes behind an element stops it. -/
theorem intercalate_append (t : List UInt8) (texts : List (List UInt8)) (rest : List UInt8)
    (hrest : Stops rest) :
    ∃ tail, List.intercalate [44] (t :: texts) ++ rest = t ++ tail ∧ Stops tail := by
  cases texts with
  | nil => exact ⟨rest, by rw [List.intercalate_singleton], hrest⟩
  | cons t' texts =>
    refine ⟨44 :: (List.intercalate [44] (t' :: texts) ++ rest), ?_, by simp⟩
    simp [List.intercalate_cons_cons]

/-- One more text behind the others. -/
theorem intercalate_concat (texts : List (List UInt8)) (t : List UInt8) :
    List.intercalate [44] (texts ++ [t]) =
      (if texts = [] then [] else List.intercalate [44] texts ++ [44]) ++ t := by
  induction texts with
  | nil => simp
  | cons t' texts ih =>
    cases texts with
    | nil => simp [List.intercalate_cons_cons]
    | cons t'' texts =>
      simp only [List.cons_append, List.intercalate_cons_cons, reduceCtorEq, if_false] at ih ⊢
      rw [ih]
      simp

theorem intercalate_flatMap (t : List UInt8) (texts : List (List UInt8)) :
    List.intercalate [44] (t :: texts) = t ++ texts.flatMap fun t => 44 :: t := by
  induction texts generalizing t with
  | nil => simp
  | cons t' texts ih => simp [List.intercalate_cons_cons, ih]

/-- A loop that puts a comma before each text but the first. -/
theorem foldl_intercalate {α : Type} (step : List UInt8 → α → Nat → List UInt8)
    (text : α → Nat → List UInt8)
    (h : ∀ buf x i, step buf x i = (if 0 < i then buf ++ [44] else buf) ++ text x i)
    (xs : List α) (buf : List UInt8) :
    xs.zipIdx.foldl (fun buf p => step buf p.1 p.2) buf =
      buf ++ List.intercalate [44] (xs.zipIdx.map fun p => text p.1 p.2) := by
  have hrest : ∀ (xs : List α) (k : Nat) (buf : List UInt8), 0 < k →
      (xs.zipIdx k).foldl (fun buf p => step buf p.1 p.2) buf =
        buf ++ ((xs.zipIdx k).map fun p => text p.1 p.2).flatMap fun t => 44 :: t := by
    intro xs
    induction xs with
    | nil => simp
    | cons x xs ih =>
      intro k buf hk
      rw [List.zipIdx_cons, List.foldl_cons, ih (k + 1) _ (by omega), h, if_pos hk]
      simp
  cases xs with
  | nil => simp
  | cons x xs =>
    rw [List.zipIdx_cons, List.foldl_cons, hrest xs _ _ (by omega), h, if_neg (by omega),
      List.map_cons, intercalate_flatMap, List.append_assoc]

/-- **An array** of the texts of its elements. -/
theorem reads_array {texts : List (List UInt8)} {values : List Value}
    (h : List.Forall₂ Reads texts values) :
    Reads (91 :: (List.intercalate [44] texts ++ [93])) (.array values) := by
  rintro (_ | fuel) rest hfuel hrest
  · simp at hfuel
  · rcases h with _ | ⟨ht, h⟩
    · simp [parseValue, skip, isWhite]
    · rename_i t w texts values
      simp only [List.length_cons, List.length_append, List.length_nil] at hfuel
      have helems := @parseElems_texts rest fuel _ _ _ _ ht h (by omega)
      obtain ⟨tail, htail, hstops⟩ := intercalate_append t texts (93 :: rest) (by simp)
      have hne := ht.skip_ne hstops
      rw [← htail] at hne
      have hopen : skip (91 :: (List.intercalate [44] (t :: texts) ++ 93 :: rest)) =
          91 :: (List.intercalate [44] (t :: texts) ++ 93 :: rest) := by simp [skip, isWhite]
      rw [List.cons_append, List.append_assoc, List.singleton_append, parseValue, hopen]
      simp only
      rw [parseElems_skip, helems]
      rfl

/-- The text of a member. -/
def ReadsMember (text : List UInt8) (m : List UInt8 × Value) : Prop :=
  ∃ name body, text = 34 :: (name ++ 34 :: 58 :: body) ∧ decode name = some m.1 ∧ Reads body m.2

theorem parseMembers_texts {t : List UInt8} {texts : List (List UInt8)} {m : List UInt8 × Value}
    {members : List (List UInt8 × Value)} (ht : ReadsMember t m)
    (h : List.Forall₂ ReadsMember texts members)
    (hfuel : (List.intercalate [44] (t :: texts)).length < fuel) :
    parseMembers fuel (List.intercalate [44] (t :: texts) ++ 125 :: rest) =
      some (m :: members, rest) := by
  induction h generalizing t m fuel with
  | nil =>
    obtain ⟨name, body, rfl, hname, hbody⟩ := ht
    obtain ⟨ps, hps, -⟩ := Option.map_eq_some_iff.mp hname
    obtain _ | fuel := fuel
    · exact absurd hfuel (Nat.not_lt_zero _)
    · rw [List.intercalate_singleton] at hfuel ⊢
      simp only [List.length_cons, List.length_append] at hfuel
      have hvalue := hbody fuel (125 :: rest) (by omega) (by simp)
      simp [parseMembers, skip, isWhite, readString_quote hps, hname, hvalue]
  | @cons t' m' texts members ht' h ih =>
    obtain ⟨name, body, rfl, hname, hbody⟩ := ht
    obtain ⟨ps, hps, -⟩ := Option.map_eq_some_iff.mp hname
    obtain _ | fuel := fuel
    · exact absurd hfuel (Nat.not_lt_zero _)
    · rw [List.intercalate_cons_cons] at hfuel ⊢
      simp only [List.length_append, List.length_cons, List.length_nil] at hfuel
      have hvalue := hbody fuel (44 :: (List.intercalate [44] (t' :: texts) ++ 125 :: rest))
        (by omega) (by simp)
      have htail := @ih fuel _ _ ht' (by omega)
      simp [parseMembers, skip, isWhite, readString_quote hps, hname, hvalue, htail]

/-- **An object** of the texts of its members. -/
theorem reads_object {texts : List (List UInt8)} {members : List (List UInt8 × Value)}
    (h : List.Forall₂ ReadsMember texts members) :
    Reads (123 :: (List.intercalate [44] texts ++ [125])) (.object members) := by
  rintro (_ | fuel) rest hfuel hrest
  · simp at hfuel
  · rcases h with _ | ⟨ht, h⟩
    · simp [parseValue, skip, isWhite]
    · rename_i t m texts members
      simp only [List.length_cons, List.length_append, List.length_nil] at hfuel
      have hmembers := @parseMembers_texts rest fuel _ _ _ _ ht h (by omega)
      -- the text goes on with the quote of the first name
      obtain ⟨name, body, rfl, -⟩ := ht
      obtain ⟨tail, htail, -⟩ := intercalate_append (34 :: (name ++ 34 :: 58 :: body)) texts
        (125 :: rest) (by simp)
      rw [List.cons_append] at htail
      rw [List.cons_append, List.append_assoc, List.singleton_append]
      rw [htail] at hmembers ⊢
      simp only [List.append_assoc, List.cons_append] at hmembers
      simp [parseValue, skip, isWhite, hmembers]

end Rules

/-! ## Members -/

/-- The first member with a name. -/
def Value.get? (name : List UInt8) : Value → Option Value
  | .object members => members.lookup name
  | _ => none

mutual

/-- No object has two members of one name. With such members a text is still JSON, but readers
differ in what they make of it. -/
def Value.Distinct : Value → Prop
  | .array elems => DistinctElems elems
  | .object members => (members.map Prod.fst).Nodup ∧ DistinctMembers members
  | _ => True

def DistinctElems : List Value → Prop
  | [] => True
  | v :: rest => v.Distinct ∧ DistinctElems rest

def DistinctMembers : List (List UInt8 × Value) → Prop
  | [] => True
  | (_, v) :: rest => v.Distinct ∧ DistinctMembers rest

end

theorem distinctElems_iff {elems : List Value} :
    DistinctElems elems ↔ ∀ v ∈ elems, v.Distinct := by
  induction elems with
  | nil => simp [DistinctElems]
  | cons v rest ih => simp [DistinctElems, ih]

theorem distinctMembers_iff {members : List (List UInt8 × Value)} :
    DistinctMembers members ↔ ∀ m ∈ members, m.2.Distinct := by
  induction members with
  | nil => simp [DistinctMembers]
  | cons m rest ih => simp [DistinctMembers, ih]

mutual

/-- The value with every name rewritten. -/
def Value.mapNames (f : List UInt8 → List UInt8) : Value → Value
  | .array elems => .array (mapNamesElems f elems)
  | .object members => .object (mapNamesMembers f members)
  | v => v

def mapNamesElems (f : List UInt8 → List UInt8) : List Value → List Value
  | [] => []
  | v :: rest => v.mapNames f :: mapNamesElems f rest

def mapNamesMembers (f : List UInt8 → List UInt8) :
    List (List UInt8 × Value) → List (List UInt8 × Value)
  | [] => []
  | (name, v) :: rest => (f name, v.mapNames f) :: mapNamesMembers f rest

end

theorem mapNamesElems_eq (f : List UInt8 → List UInt8) (elems : List Value) :
    mapNamesElems f elems = elems.map fun v => v.mapNames f := by
  induction elems with
  | nil => rfl
  | cons v rest ih => rw [mapNamesElems, ih, List.map_cons]

theorem mapNamesMembers_eq (f : List UInt8 → List UInt8) (members : List (List UInt8 × Value)) :
    mapNamesMembers f members = members.map fun m => (f m.1, m.2.mapNames f) := by
  induction members with
  | nil => rfl
  | cons m rest ih => rw [mapNamesMembers, ih, List.map_cons]

section Distinct

variable {f : List UInt8 → List UInt8}

theorem distinct_names {members : List (List UInt8 × Value)}
    (h : ((Value.object members).mapNames f).Distinct) :
    (members.map fun m => f m.1).Nodup := by
  have hnames := h.1
  rwa [mapNamesMembers_eq, List.map_map] at hnames

theorem distinct_member {v w : Value} {name : List UInt8} (h : (v.mapNames f).Distinct)
    (hget : v.get? name = some w) : (w.mapNames f).Distinct := by
  cases v with
  | object members =>
    have hmembers := distinctMembers_iff.mp h.2
    obtain ⟨before, behind, rfl, -⟩ := List.lookup_eq_some_iff.mp hget
    refine hmembers (f name, w.mapNames f) ?_
    rw [mapNamesMembers_eq]
    exact List.mem_map_of_mem (f := fun m => (f m.1, m.2.mapNames f)) (a := (name, w)) (by simp)
  | _ => cases hget

theorem distinct_elem {elems : List Value} {w : Value}
    (h : ((Value.array elems).mapNames f).Distinct) (hw : w ∈ elems) : (w.mapNames f).Distinct := by
  have helems := distinctElems_iff.mp h
  apply helems
  rw [mapNamesElems_eq]
  exact List.mem_map_of_mem hw

end Distinct

end SocketHandoff.Json
