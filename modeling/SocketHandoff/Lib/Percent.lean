import SocketHandoff.Lib.CText
import SocketHandoff.Lib.JsonString

/-!
# Paths of URLs

Percent-encoding: the bytes that may stand for themselves, and `%` with two hexadecimal digits for
every other. A path is read as its segments, of which `.` and `..` are not names.
-/

namespace SocketHandoff.Percent

/-- A hexadecimal digit. -/
def upperHex (n : UInt8) : UInt8 := if n < 10 then 48 + n else 55 + n

/-- A byte as it is written, where `keep` says which bytes stand for themselves. -/
def escapeByte (keep : UInt8 → Bool) (c : UInt8) : List UInt8 :=
  if keep c then [c] else [37, upperHex (c / 16), upperHex (c % 16)]

/-- A text as it is written. -/
def escape (keep : UInt8 → Bool) (text : List UInt8) : List UInt8 := text.flatMap (escapeByte keep)

/-- What it is read as. -/
def unescape : List UInt8 → Option (List UInt8)
  | [] => some []
  | 37 :: a :: b :: rest => do
    return .ofNat (16 * (← Json.hexValue a) + (← Json.hexValue b)) :: (← unescape rest)
  | c :: rest => if c = 37 then none else (c :: ·) <$> unescape rest

/-- The segments between the slashes, without those that are `.`, and without those that a `..`
takes back. -/
def removeDots (taken : List (List UInt8)) : List (List UInt8) → List (List UInt8)
  | [] => taken
  | segment :: rest =>
    if segment = [46] then removeDots taken rest
    else if segment = [46, 46] then removeDots taken.dropLast rest
    else removeDots (taken ++ [segment]) rest

/-- A segment that is a name. -/
def IsName (segment : List UInt8) : Prop := segment ≠ [46] ∧ segment ≠ [46, 46]

section Escape

variable {keep : UInt8 → Bool} {text : List UInt8}

@[simp] theorem escape_nil : escape keep [] = [] := rfl

theorem escape_cons (c : UInt8) (text : List UInt8) :
    escape keep (c :: text) = escapeByte keep c ++ escape keep text := List.flatMap_cons

/-- The two digits of a byte are read as it. -/
theorem hexValue_upperHex : ∀ c : UInt8, ∃ hi lo, Json.hexValue (upperHex (c / 16)) = some hi ∧
    Json.hexValue (upperHex (c % 16)) = some lo ∧ UInt8.ofNat (16 * hi + lo) = c := by
  apply forall_byte
  intro n hn
  have hdigits : ∀ n < 256,
      (Json.hexValue (upperHex (UInt8.ofNat n / 16))).bind (fun hi =>
        (Json.hexValue (upperHex (UInt8.ofNat n % 16))).map fun lo =>
          UInt8.ofNat (16 * hi + lo)) = some (UInt8.ofNat n) := by
    decide +kernel
  obtain ⟨hi, hhi, hrest⟩ := Option.bind_eq_some_iff.mp (hdigits n hn)
  obtain ⟨lo, hlo, heq⟩ := Option.map_eq_some_iff.mp hrest
  exact ⟨hi, lo, hhi, hlo, heq⟩

/-- A byte other than `%` stands for itself. -/
theorem unescape_cons {c : UInt8} (h : c ≠ 37) (rest : List UInt8) :
    unescape (c :: rest) = (c :: ·) <$> unescape rest := by
  rw [unescape.eq_def]
  split
  · contradiction
  · rename_i heq
    exact absurd (List.cons.inj heq).1 h
  · rename_i heq
    obtain ⟨rfl, rfl⟩ := List.cons.inj heq
    rw [if_neg h]

/-- **A text is read back** as it was written, if `%` never stands for itself. -/
theorem unescape_escape (hkeep : keep 37 = false) (text : List UInt8) :
    unescape (escape keep text) = some text := by
  induction text with
  | nil => rfl
  | cons c text ih =>
    rw [escape_cons, escapeByte]
    by_cases hc : keep c = true
    · have hne : c ≠ 37 := by
        rintro rfl
        rw [hkeep] at hc
        cases hc
      rw [if_pos hc, List.singleton_append, unescape_cons hne, ih]
      rfl
    · obtain ⟨hi, lo, hhi, hlo, heq⟩ := hexValue_upperHex c
      rw [if_neg hc]
      simp only [List.cons_append, List.nil_append, unescape, hhi, hlo, ih, bind, Option.bind, pure,
        heq]

theorem escape_injective (hkeep : keep 37 = false) : Function.Injective (escape keep) := by
  intro s t h
  have hs := unescape_escape hkeep s
  rw [h, unescape_escape hkeep t] at hs
  exact (Option.some.inj hs).symm

/-- A digit of either half of a byte. -/
def IsUpperHex (c : UInt8) : Prop := (48 ≤ c ∧ c ≤ 57) ∨ (65 ≤ c ∧ c ≤ 70)

instance (c : UInt8) : Decidable (IsUpperHex c) := inferInstanceAs (Decidable (_ ∨ _))

theorem isUpperHex_upperHex :
    ∀ c : UInt8, IsUpperHex (upperHex (c / 16)) ∧ IsUpperHex (upperHex (c % 16)) :=
  forall_byte (by decide +kernel)

/-- What is written are bytes that stand for themselves, `%`, and digits. -/
theorem mem_escape {c : UInt8} (h : c ∈ escape keep text) :
    keep c = true ∨ c = 37 ∨ IsUpperHex c := by
  obtain ⟨d, -, hd⟩ := List.mem_flatMap.mp h
  rw [escapeByte] at hd
  split at hd
  · rename_i hkeep
    rw [List.mem_singleton] at hd
    exact .inl (hd ▸ hkeep)
  · obtain ⟨hhi, hlo⟩ := isUpperHex_upperHex d
    simp only [List.mem_cons, List.not_mem_nil, or_false] at hd
    rcases hd with rfl | rfl | rfl
    · exact .inr (.inl rfl)
    · exact .inr (.inr hhi)
    · exact .inr (.inr hlo)

/-- A text of bytes that stand for themselves is written as it is. -/
theorem escape_kept (h : ∀ c ∈ text, keep c = true) : escape keep text = text := by
  induction text with
  | nil => rfl
  | cons c text ih =>
    rw [escape_cons, escapeByte, if_pos (h c List.mem_cons_self), List.singleton_append,
      ih fun c hc => h c (List.mem_cons_of_mem _ hc)]

/-- A text is written as a name if and only if it is one, where `.` stands for itself. -/
theorem isName_escape (hkeep : keep 37 = false) (hdot : keep 46 = true) :
    IsName (escape keep text) ↔ IsName text := by
  have hone : escape keep [46] = [46] := escape_kept (by simp [hdot])
  have htwo : escape keep [46, 46] = [46, 46] := escape_kept (by simp [hdot])
  have hinj := escape_injective hkeep
  constructor
  · rintro ⟨h₁, h₂⟩
    refine ⟨fun h => h₁ ?_, fun h => h₂ ?_⟩
    · rw [h, hone]
    · rw [h, htwo]
  · rintro ⟨h₁, h₂⟩
    exact ⟨fun h => h₁ (hinj (h.trans hone.symm)), fun h => h₂ (hinj (h.trans htwo.symm))⟩

end Escape

section Dots

variable {taken segments : List (List UInt8)}

theorem removeDots_append (taken segments rest : List (List UInt8)) :
    removeDots taken (segments ++ rest) = removeDots (removeDots taken segments) rest := by
  induction segments generalizing taken with
  | nil => rfl
  | cons segment segments ih =>
    simp only [List.cons_append, removeDots]
    split
    · exact ih _
    · split
      · exact ih _
      · exact ih _

/-- Names stay. -/
theorem removeDots_names (h : ∀ segment ∈ segments, IsName segment) :
    removeDots taken segments = taken ++ segments := by
  induction segments generalizing taken with
  | nil => rw [removeDots, List.append_nil]
  | cons segment segments ih =>
    obtain ⟨h₁, h₂⟩ := h segment List.mem_cons_self
    rw [removeDots, if_neg h₁, if_neg h₂, ih fun s hs => h s (List.mem_cons_of_mem _ hs),
      List.append_assoc, List.singleton_append]

end Dots

end SocketHandoff.Percent
