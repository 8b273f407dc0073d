import SocketHandoff.Lib.Memory
import SocketHandoff.Lib.Utf8
import SocketHandoff.Uring.Streaming

/-!
# Previews of the prompt

The mock backends repeat the beginning of the prompt: the Rust daemon in `MockBackend::stream`, the Go
daemon with `truncate`, the io_uring daemon with `truncate_prompt`. All of them cut it behind 50
bytes, wherever that is; only Go goes back to the beginning of a character.
-/

namespace SocketHandoff

/-! ## The Rust daemon -/

/-- `&s[..n]`, or a panic where there is no character boundary at `n`. -/
def Rust.sliceTo (s : List UInt8) (n : Nat) : Option (List UInt8) :=
  if n ≤ s.length ∧ Utf8.Boundary s n then some (s.take n) else none

/-- `prompt_preview` of `MockBackend::stream`. -/
def Rust.promptPreview (prompt : List UInt8) : Option (List UInt8) :=
  if prompt.length > 50 then (Rust.sliceTo prompt 50).map (· ++ ascii "...") else some prompt

/-! ## The Go daemon -/

/-- `utf8.RuneStart`. -/
def Go.runeStart (b : UInt8) : Bool := b &&& 0xC0 ≠ 0x80

/-- The loop of `truncate`, from `n` on down. -/
def Go.truncateFrom (s : List UInt8) : Nat → Checked Nat
  | 0 => return 0
  | n + 1 => do
    if n + 1 < s.length then
      if Go.runeStart (← load s (n + 1)) then return n + 1 else Go.truncateFrom s n
    else return n + 1

/-- `truncate`. -/
def Go.truncate (s : List UInt8) (n : Nat) : Checked (List UInt8) := do
  if s.length ≤ n then return s
  else
    let n ← Go.truncateFrom s n
    return (← loadBytes s 0 n) ++ ascii "..."

/-! ## The io_uring daemon -/

/-- `truncate_prompt` in memory: the string that the result points to. The prompt is in `mem`, and
`truncated` is what the 64 bytes of the static buffer hold. -/
def Uring.truncatePromptIn (mem truncated : List UInt8) (prompt : Option Nat) (maxLen : Nat) :
    Checked (List UInt8) :=
  match prompt with
  | none => return ascii "(none)"
  | some prompt => do
    let text ← loadString mem prompt
    if text.length ≤ maxLen then return text
    else
      let maxLen := if maxLen > 64 - 4 then 64 - 4 else maxLen
      -- `"%.*s..."`
      let truncated ← snprintfAt truncated 0 64 (text.take maxLen ++ ascii "...")
      loadString truncated 0

/-! ## The statement -/

/-- The preview is text: the prompt, or at most 50 bytes from its front, and three dots. Of anything
else Rust would make a panic, and the others bytes that are no text. -/
structure IsPreview (prompt preview : List UInt8) : Prop where
  valid : Utf8.Valid preview
  cut : preview = prompt ∨ ∃ k ≤ 50, preview = prompt.take k ++ ascii "..."

/-- The three previews of a prompt, wherever the C string is in memory. -/
structure PreviewsSound (prompt : List UInt8) : Prop where
  rust : ∃ preview, Rust.promptPreview prompt = some preview ∧ IsPreview prompt preview
  go : ∃ preview, Go.truncate prompt 50 = .ok preview ∧ IsPreview prompt preview
  uring : ∀ mem p truncated, loadString mem p = .ok prompt → truncated.length = 64 →
    ∃ preview, Uring.truncatePromptIn mem truncated (some p) 50 = .ok preview ∧
      IsPreview prompt preview

/-! ## Cuts -/

section
variable {prompt : List UInt8}

theorem isPreview_self (h : Utf8.Valid prompt) : IsPreview prompt prompt := ⟨h, .inl rfl⟩

/-- **A cut** with dots is a preview exactly where it does not fall inside a character. -/
theorem isPreview_take_iff (h : Utf8.Valid prompt) {k : Nat} (hk : k ≤ 50) :
    IsPreview prompt (prompt.take k ++ ascii "...") ↔ Utf8.Boundary prompt k := by
  have hdots : ascii "..." = 46 :: [46, 46] := rfl
  rw [← Utf8.valid_take_iff h]
  constructor
  · rintro ⟨hvalid, -⟩
    rw [hdots] at hvalid
    exact hvalid.left rfl
  · intro hvalid
    exact ⟨hvalid.append ⟨['.', '.', '.'], rfl⟩, .inr ⟨k, hk, rfl⟩⟩

/-- Where the prompt is not cut there is nothing to fall into. -/
theorem boundary_of_short (h : prompt.length ≤ 50) : Utf8.Boundary prompt 50 := by
  intro b hb
  rw [List.getElem?_eq_none h] at hb
  cases hb

/-! ## The previews -/

theorem Rust.promptPreview_iff (h : Utf8.Valid prompt) :
    (∃ preview, Rust.promptPreview prompt = some preview ∧ IsPreview prompt preview) ↔
      Utf8.Boundary prompt 50 := by
  rw [Rust.promptPreview]
  by_cases hlong : prompt.length > 50
  · rw [if_pos hlong, Rust.sliceTo]
    by_cases hboundary : Utf8.Boundary prompt 50
    · rw [if_pos ⟨Nat.le_of_lt hlong, hboundary⟩]
      exact iff_of_true ⟨_, rfl, (isPreview_take_iff h (Nat.le_refl 50)).mpr hboundary⟩ hboundary
    · -- the slice panics
      rw [if_neg fun hn => hboundary hn.2]
      refine iff_of_false ?_ hboundary
      rintro ⟨preview, hnone, -⟩
      cases hnone
  · rw [if_neg hlong]
    exact iff_of_true ⟨prompt, rfl, isPreview_self h⟩ (boundary_of_short (Nat.le_of_not_lt hlong))

theorem Go.runeStart_eq (b : UInt8) : Go.runeStart b = !Utf8.isContinuation b := by
  have hall : ∀ n < 256, Go.runeStart (.ofNat n) = !Utf8.isContinuation (.ofNat n) := by
    decide +kernel
  exact forall_byte (P := fun b => Go.runeStart b = !Utf8.isContinuation b) hall b

/-- The loop goes back to the beginning of a character. -/
theorem Go.truncateFrom_spec (h : Utf8.Valid prompt) {n : Nat} (hn : n < prompt.length) :
    ∃ k ≤ n, Go.truncateFrom prompt n = .ok k ∧ Utf8.Boundary prompt k := by
  induction n with
  | zero => exact ⟨0, Nat.le_refl 0, rfl, h.boundary_zero⟩
  | succ n ih =>
    rw [Go.truncateFrom, if_pos hn, load_ok hn]
    simp only [bind, Except.bind]
    by_cases hstart : Go.runeStart prompt[n + 1] = true
    · refine ⟨n + 1, Nat.le_refl _, if_pos hstart, fun b hb => ?_⟩
      rw [List.getElem?_eq_getElem hn] at hb
      rw [Go.runeStart_eq, Option.some.inj hb] at hstart
      simpa using hstart
    · obtain ⟨k, hk, hloop, hboundary⟩ := ih (Nat.lt_of_succ_lt hn)
      exact ⟨k, Nat.le_succ_of_le hk, (if_neg hstart).trans hloop, hboundary⟩

/-- **Go** never cuts a character. -/
theorem Go.truncate_sound (h : Utf8.Valid prompt) :
    ∃ preview, Go.truncate prompt 50 = .ok preview ∧ IsPreview prompt preview := by
  rw [Go.truncate]
  by_cases hlen : prompt.length ≤ 50
  · exact ⟨prompt, if_pos hlen, isPreview_self h⟩
  · obtain ⟨k, hk, hloop, hboundary⟩ := Go.truncateFrom_spec h (Nat.lt_of_not_le hlen)
    have hload : loadBytes prompt 0 k = .ok (prompt.take k) := by
      rw [loadBytes_ok (by omega), List.drop_zero]
    refine ⟨prompt.take k ++ ascii "...", ?_, (isPreview_take_iff h hk).mpr hboundary⟩
    rw [if_neg hlen, hloop]
    simp only [bind, Except.bind, hload]
    rfl

theorem loadString_spec {mem text : List UInt8} {p : Nat} (h : loadString mem p = .ok text) :
    0 ∉ text := by
  rw [loadString] at h
  split at h
  · cases h
    intro hmem
    have hne := List.all_eq_true.mp List.all_takeWhile 0 hmem
    exact absurd rfl (of_decide_eq_true hne)
  · cases h

/-- **`truncate_prompt`** stays within its buffer, whatever was in it, and points to what it should. -/
theorem Uring.truncatePromptIn_eq {mem truncated : List UInt8} {p : Nat}
    (h : loadString mem p = .ok prompt) (hbuf : truncated.length = 64) (maxLen : Nat) :
    Uring.truncatePromptIn mem truncated (some p) maxLen =
      .ok (Uring.truncatePrompt (some prompt) maxLen) := by
  simp only [Uring.truncatePromptIn, Uring.truncatePrompt, h, bind, Except.bind]
  by_cases hlen : prompt.length ≤ maxLen
  · rw [if_pos hlen, if_pos hlen]
    rfl
  · have hclamp : (if maxLen > 64 - 4 then 64 - 4 else maxLen) = min maxLen 60 := by
      split <;> omega
    rw [if_neg hlen, if_neg hlen, hclamp]
    have hdots : (ascii "...").length = 3 := rfl
    have hnul : 0 ∉ prompt.take (min maxLen 60) ++ ascii "..." := by
      intro hmem
      rcases List.mem_append.mp hmem with hmem | hmem
      · exact loadString_spec h (List.mem_of_mem_take hmem)
      · exact absurd hmem (by decide)
    have hlength : (prompt.take (min maxLen 60) ++ ascii "...").length ≤ 63 := by
      rw [List.length_append, List.length_take, hdots]
      omega
    generalize prompt.take (min maxLen 60) ++ ascii "..." = text at hnul hlength ⊢
    have hfits : text.take 63 = text := List.take_of_length_le hlength
    have hstore : snprintfAt truncated 0 64 text =
        .ok (text ++ 0 :: truncated.drop (text.length + 1)) := by
      have hroom : 0 + (text ++ [0]).length ≤ truncated.length := by
        rw [List.length_append, List.length_singleton]
        omega
      rw [snprintfAt, if_neg (by decide), hfits, store_ok hroom, overwritten, List.take_zero,
        List.length_append, List.length_singleton]
      simp
    rw [hstore, Uring.snprintf, hfits]
    exact loadString_ok hnul List.drop_zero

/-- What is left of a prompt. -/
theorem Uring.truncatePrompt_eq (prompt : List UInt8) :
    Uring.truncatePrompt (some prompt) 50 =
      if prompt.length ≤ 50 then prompt else prompt.take 50 ++ ascii "..." := by
  have hfits : (prompt.take 50 ++ ascii "...").length ≤ 63 := by
    have hdots : (ascii "...").length = 3 := rfl
    rw [List.length_append, List.length_take, hdots]
    omega
  rw [Uring.truncatePrompt]
  split
  · rfl
  · exact List.take_of_length_le hfits

/-- **The previews** are computed, and are text, exactly where no character of the prompt lies
across its fiftieth byte. The Go daemon steps back to the beginning of the character; the io_uring
daemon cuts at the byte, and the Rust daemon slices there, which is a panic. -/
theorem Rust.previewsSound_iff (h : Utf8.Valid prompt) :
    PreviewsSound prompt ↔ Utf8.Boundary prompt 50 := by
  constructor
  · intro hsound
    exact (Rust.promptPreview_iff h).mp hsound.rust
  · intro hboundary
    refine ⟨(Rust.promptPreview_iff h).mpr hboundary, Go.truncate_sound h, ?_⟩
    intro mem p truncated hload hbuf
    refine ⟨_, Uring.truncatePromptIn_eq hload hbuf 50, ?_⟩
    rw [Uring.truncatePrompt_eq]
    by_cases hlen : prompt.length ≤ 50
    · rw [if_pos hlen]
      exact isPreview_self h
    · rw [if_neg hlen]
      exact (isPreview_take_iff h (Nat.le_refl 50)).mpr hboundary

end

/-- 49 letters and an e with an accent. -/
def accented : List UInt8 := List.replicate 49 97 ++ [0xC3, 0xA9]

theorem accented_valid : Utf8.Valid accented := ⟨List.replicate 49 'a' ++ ['\u00E9'], by decide⟩

/-- 48 letters, an e with an accent, which ends at the fiftieth byte, and three letters more. -/
def accentedWhole : List UInt8 := List.replicate 48 97 ++ [0xC3, 0xA9, 97, 97, 97]

theorem accentedWhole_valid : Utf8.Valid accentedWhole :=
  ⟨List.replicate 48 'a' ++ ['\u00E9', 'a', 'a', 'a'], by decide⟩

/-- It is cut, and the previews are text. -/
theorem Rust.previewsSound_iff_accentedWhole :
    50 < accentedWhole.length ∧ PreviewsSound accentedWhole :=
  ⟨by decide, (Rust.previewsSound_iff accentedWhole_valid).mpr (by decide)⟩

/-- For `accented` the Rust daemon panics. -/
theorem Rust.accented_not_sound : ¬ ∀ prompt, Utf8.Valid prompt → PreviewsSound prompt := by
  intro h
  obtain ⟨preview, hnone, -⟩ := (h accented accented_valid).rust
  have hpanic : Rust.promptPreview accented = none := by decide
  rw [hpanic] at hnone
  cases hnone

/-- The io_uring daemon sends half a character. -/
theorem Uring.accented_cut (truncated : List UInt8) (h : truncated.length = 64) :
    ∃ preview, Uring.truncatePromptIn (accented ++ [0]) truncated (some 0) 50 = .ok preview ∧
      ¬ Utf8.Valid preview := by
  have hload : loadString (accented ++ [0]) 0 = .ok accented := rfl
  refine ⟨_, Uring.truncatePromptIn_eq hload h 50, fun hvalid => ?_⟩
  have hcut : IsPreview accented (accented.take 50 ++ ascii "...") :=
    ⟨hvalid, .inr ⟨50, Nat.le_refl 50, rfl⟩⟩
  exact absurd ((isPreview_take_iff accented_valid (Nat.le_refl 50)).mp hcut) (by decide)

end SocketHandoff
