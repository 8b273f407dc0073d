import Mathlib.Tactic.Basic

/-!
# Text in C

Byte strings as the C library reads them: up to a NUL, and numbers at their start.
-/

namespace SocketHandoff

/-- The bytes of a string constant. -/
def ascii (text : String) : List UInt8 := text.toList.map fun c => UInt8.ofNat c.toNat

/-- The kernel takes a constant for `String.ofList` of its characters. -/
theorem ascii_ofList (chars : List Char) :
    ascii (String.ofList chars) = chars.map fun c => UInt8.ofNat c.toNat := by
  rw [ascii, String.toList_ofList]

theorem length_ascii_ofList (chars : List Char) :
    (ascii (String.ofList chars)).length = chars.length := by
  rw [ascii_ofList, List.length_map]

theorem ascii_append (text text' : String) : ascii (text ++ text') = ascii text ++ ascii text' := by
  rw [ascii, String.toList_append, List.map_append]
  rfl

theorem forall_mem_ascii {P : UInt8 → Prop} [DecidablePred P] (chars : List Char)
    (h : (chars.all fun c => P (UInt8.ofNat c.toNat)) = true) :
    ∀ c ∈ ascii (String.ofList chars), P c := by
  intro c hc
  rw [ascii_ofList, List.mem_map] at hc
  obtain ⟨d, hd, rfl⟩ := hc
  exact of_decide_eq_true (List.all_eq_true.mp h d hd)

/-- What holds of all 256 bytes holds of a byte. -/
theorem forall_byte {P : UInt8 → Prop} (h : ∀ n < 256, P (UInt8.ofNat n)) (c : UInt8) : P c := by
  have hc := h c.toNat c.toNat_lt
  rwa [UInt8.ofNat_toNat] at hc

/-- What a `char *` into these bytes points to: everything before the first NUL. -/
def cstring (bytes : List UInt8) : List UInt8 := bytes.takeWhile (· ≠ 0)

/-- `isspace` of the C locale. -/
def isSpace (c : UInt8) : Bool := c = 32 ∨ (9 ≤ c ∧ c ≤ 13)

/-- `isdigit`. -/
def isDigit (c : UInt8) : Bool := 48 ≤ c ∧ c ≤ 57

/-- The number a list of digits stands for. -/
def digitsValue (digits : List UInt8) : Int :=
  digits.foldl (fun n c => n * 10 + (c.toNat - 48 : Nat)) 0

/-- What `strtol(arg, &endptr, 10)` finds. -/
structure Strtol where
  value : Int
  /-- the text from `endptr` on -/
  rest : List UInt8
  /-- `errno == ERANGE` -/
  erange : Bool

/-- `strtol(arg, &endptr, 10)`: white space, an optional sign, digits; `none` when there are no
digits and `endptr == arg`. -/
def strtol (arg : List UInt8) : Option Strtol :=
  let body := arg.dropWhile isSpace
  let negative := body.head? = some 45
  let unsigned := if negative ∨ body.head? = some 43 then body.tail else body
  let digits := unsigned.takeWhile isDigit
  if digits = [] then none
  else
    let value := if negative then -digitsValue digits else digitsValue digits
    some {
      value := max (-9223372036854775808) (min value 9223372036854775807)
      rest := unsigned.dropWhile isDigit
      erange := value < -9223372036854775808 ∨ 9223372036854775807 < value }

end SocketHandoff
