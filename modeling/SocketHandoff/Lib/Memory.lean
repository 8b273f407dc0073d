import SocketHandoff.Lib.CText
import Mathlib.Data.List.Basic
import Mathlib.Data.List.TakeWhile

/-!
# Arrays of C with checked accesses

An array is the list of its bytes. Every access is checked: one outside the array, or a subtraction
that would wrap around, is a fault. Code that is proved to run without a fault stays within its
arrays, and no byte outside them has a part in its result.
-/

namespace SocketHandoff

/-- What a C program must not do. -/
inductive Fault
  /-- reads a byte outside an array -/
  | read
  /-- writes a byte outside an array -/
  | write
  /-- takes more from an unsigned number than it is -/
  | wrap
  deriving DecidableEq, Repr

/-- Code with checked accesses. -/
abbrev Checked := Except Fault

/-! ## Accesses -/

/-- `a[i]`. -/
def load (a : List UInt8) (i : Nat) : Checked UInt8 :=
  match a[i]? with
  | some c => .ok c
  | none => .error .read

/-- The `n` bytes from `a + i` on. -/
def loadBytes (a : List UInt8) (i n : Nat) : Checked (List UInt8) :=
  if i + n ≤ a.length then .ok ((a.drop i).take n) else .error .read

/-- The string at `a + i`, up to its NUL. -/
def loadString (a : List UInt8) (i : Nat) : Checked (List UInt8) :=
  if 0 ∈ a.drop i then .ok (cstring (a.drop i)) else .error .read

/-- The bytes of an array from `i` on replaced. -/
def overwritten (a : List UInt8) (i : Nat) (bytes : List UInt8) : List UInt8 :=
  a.take i ++ bytes ++ a.drop (i + bytes.length)

/-- `memcpy(a + i, bytes, n)`. -/
def store (a : List UInt8) (i : Nat) (bytes : List UInt8) : Checked (List UInt8) :=
  if i + bytes.length ≤ a.length then .ok (overwritten a i bytes) else .error .write

/-- `n - k` of an unsigned type. -/
def minus (n k : Nat) : Checked Nat := if k ≤ n then .ok (n - k) else .error .wrap

/-- `snprintf(a + i, size, …)` of this text: what fits, and a NUL. -/
def snprintfAt (a : List UInt8) (i size : Nat) (text : List UInt8) : Checked (List UInt8) :=
  if size = 0 then .ok a else store a i (text.take (size - 1) ++ [0])

/-- The first `c` in a string, as an index into it. -/
def strchrIn (c : UInt8) : List UInt8 → Checked (Option Nat)
  | [] => .error .read
  | d :: rest =>
    if d = c then .ok (some 0)
    else if d = 0 then .ok none
    else do
      let found ← strchrIn c rest
      return found.map (· + 1)

/-- `strchr(a + i, c)`, as an index into the array. -/
def strchr (a : List UInt8) (i : Nat) (c : UInt8) : Checked (Option Nat) := do
  let found ← strchrIn c (a.drop i)
  return found.map (i + ·)

/-! ## When there is no fault -/

variable {a : List UInt8} {i : Nat} {bytes : List UInt8}

theorem load_ok (h : i < a.length) : load a i = .ok a[i] := by
  rw [load, List.getElem?_eq_getElem h]

theorem loadBytes_ok {n : Nat} (h : i + n ≤ a.length) :
    loadBytes a i n = .ok ((a.drop i).take n) := if_pos h

/-- The code runs to its end without a fault. Accesses are checked in the model, where the source
would read or write outside of an array. -/
def Faultless {α : Type} (m : Checked α) : Prop := ∃ r, m = .ok r

namespace Faultless

variable {α β : Type}

theorem pure (r : α) : Faultless (Pure.pure r) := ⟨r, rfl⟩

theorem bind {m : Checked β} {k : β → Checked α} (hm : Faultless m) (hk : ∀ r, Faultless (k r)) :
    Faultless (m >>= k) := by
  obtain ⟨r, rfl⟩ := hm
  exact hk r

theorem ite {c : Prop} [Decidable c] {m m' : Checked α} (ht : c → Faultless m)
    (hf : ¬ c → Faultless m') : Faultless (if c then m else m') := by
  by_cases h : c
  · rw [if_pos h]
    exact ht h
  · rw [if_neg h]
    exact hf h

theorem load (h : i < a.length) : Faultless (load a i) := ⟨_, load_ok h⟩

theorem loadBytes {n : Nat} (h : i + n ≤ a.length) : Faultless (loadBytes a i n) :=
  ⟨_, loadBytes_ok h⟩

end Faultless

/-- What is seen behind the first bytes. -/
theorem drop_behind (front : List UInt8) {rest : List UInt8} (h : a.drop i = front ++ rest) :
    a.drop (i + front.length) = rest := by
  rw [← List.drop_drop, h, List.drop_left]

theorem load_behind (front : List UInt8) {c : UInt8} {rest : List UInt8}
    (h : a.drop i = front ++ c :: rest) : load a (i + front.length) = .ok c := by
  have hc : a[i + front.length]? = some c := by
    rw [← List.getElem?_drop, h, List.getElem?_append_right (Nat.le_refl _), Nat.sub_self,
      List.getElem?_cons_zero]
  rw [load, hc]

theorem loadBytes_behind (front : List UInt8) {rest : List UInt8} (hne : bytes ≠ [])
    (h : a.drop i = front ++ (bytes ++ rest)) :
    loadBytes a (i + front.length) bytes.length = .ok bytes := by
  have hlen := congrArg List.length h
  have hpos := List.length_pos_iff.mpr hne
  rw [List.length_drop, List.length_append, List.length_append] at hlen
  rw [loadBytes, if_pos (by omega), drop_behind front h, List.take_left]

theorem store_ok (h : i + bytes.length ≤ a.length) :
    store a i bytes = .ok (overwritten a i bytes) := if_pos h

theorem minus_ok {n k : Nat} (h : k ≤ n) : minus n k = .ok (n - k) := if_pos h

theorem length_overwritten (h : i + bytes.length ≤ a.length) :
    (overwritten a i bytes).length = a.length := by
  rw [overwritten, List.length_append, List.length_append, List.length_take, List.length_drop]
  omega

/-- What is in front of the bytes and the bytes themselves. -/
theorem take_overwritten (h : i + bytes.length ≤ a.length) :
    (overwritten a i bytes).take (i + bytes.length) = a.take i ++ bytes := by
  have hlen : (a.take i ++ bytes).length = i + bytes.length := by
    rw [List.length_append, List.length_take]
    omega
  rw [overwritten, ← hlen, List.take_left]

/-- The bytes in front of a place are not changed by what is written there. -/
theorem take_overwritten_of_le {n : Nat} (hn : n ≤ i) (h : i ≤ a.length) :
    (overwritten a i bytes).take n = a.take n := by
  rw [overwritten, List.append_assoc,
    List.take_append_of_le_length (by rw [List.length_take]; omega), List.take_take]
  congr 1
  omega

/-- A part of an array replaced by one of the same length. -/
theorem overwritten_append {front old new back : List UInt8} (h : new.length = old.length) :
    overwritten (front ++ old ++ back) front.length new = front ++ new ++ back := by
  have htake : (front ++ old ++ back).take front.length = front := by
    rw [List.append_assoc, List.take_left]
  rw [overwritten, htake, h, ← List.length_append, List.drop_left]

/-- What is seen from a place in front of the bytes that are replaced. -/
theorem drop_overwritten_of_le {n : Nat} (hn : n ≤ i) (h : i ≤ a.length) :
    (overwritten a i bytes).drop n = overwritten (a.drop n) (i - n) bytes := by
  rw [overwritten, overwritten, List.append_assoc, List.append_assoc,
    List.drop_append_of_le_length (by rw [List.length_take]; omega), List.drop_take, List.drop_drop]
  congr 3
  omega

/-! ## Strings -/

/-- A character that is in the string is found where it comes first. -/
theorem strchrIn_some {c : UInt8} {text rest : List UInt8} (hc : c ∉ text) (hnul : 0 ∉ text) :
    strchrIn c (text ++ c :: rest) = .ok (some text.length) := by
  induction text with
  | nil => rw [List.nil_append, strchrIn, if_pos rfl]; rfl
  | cons d text ih =>
    have hdc : d ≠ c := fun heq => hc (heq ▸ List.mem_cons_self)
    have hd0 : d ≠ 0 := fun heq => hnul (heq ▸ List.mem_cons_self)
    rw [List.cons_append, strchrIn, if_neg hdc, if_neg hd0,
      ih (fun hm => hc (List.mem_cons_of_mem d hm)) fun hm => hnul (List.mem_cons_of_mem d hm)]
    rfl

/-- One that is not in it is looked for up to the NUL. -/
theorem strchrIn_none {c : UInt8} {text rest : List UInt8} (hc : c ∉ text) (hc0 : c ≠ 0)
    (hnul : 0 ∉ text) : strchrIn c (text ++ 0 :: rest) = .ok none := by
  induction text with
  | nil => rw [List.nil_append, strchrIn, if_neg (Ne.symm hc0), if_pos rfl]
  | cons d text ih =>
    have hdc : d ≠ c := fun heq => hc (heq ▸ List.mem_cons_self)
    have hd0 : d ≠ 0 := fun heq => hnul (heq ▸ List.mem_cons_self)
    rw [List.cons_append, strchrIn, if_neg hdc, if_neg hd0,
      ih (fun hm => hc (List.mem_cons_of_mem d hm)) fun hm => hnul (List.mem_cons_of_mem d hm)]
    rfl

/-- What is behind a NUL is no part of a string. -/
theorem cstring_append_nul (text rest : List UInt8) :
    cstring (text ++ 0 :: rest) = cstring text := by
  rw [cstring, cstring]
  induction text with
  | nil => simp
  | cons c text ih =>
    rw [List.cons_append, List.takeWhile_cons, List.takeWhile_cons, ih]

/-- A text without a NUL is a string as it is. -/
theorem cstring_of_notMem {text : List UInt8} (h : 0 ∉ text) : cstring text = text := by
  rw [cstring, List.takeWhile_eq_self_iff]
  intro c hc
  have hne : c ≠ 0 := fun heq => h (heq ▸ hc)
  simpa using hne

/-- A text with its NUL behind it is read as a string. -/
theorem loadString_ok {text rest : List UInt8} (hnul : 0 ∉ text)
    (h : a.drop i = text ++ 0 :: rest) : loadString a i = .ok text := by
  rw [loadString, h, if_pos (by simp), cstring_append_nul, cstring_of_notMem hnul]

/-- **Frame**: a string that ends in the first part of an array is read from the whole. -/
theorem loadString_append {text : List UInt8} (h : loadString a i = .ok text) (b : List UInt8) :
    loadString (a ++ b) i = .ok text := by
  rw [loadString] at h
  split at h
  · rename_i hnul
    obtain ⟨front, back, hsplit⟩ := List.append_of_mem hnul
    have hi : i ≤ a.length := by
      by_contra hlt
      rw [List.drop_of_length_le (by omega)] at hnul
      cases hnul
    rw [loadString, List.drop_append_of_le_length hi, if_pos (List.mem_append_left _ hnul), ← h,
      hsplit, List.append_assoc, List.cons_append, cstring_append_nul, cstring_append_nul]
  · cases h

end SocketHandoff
