import SocketHandoff.Uring.FormatSse
import SocketHandoff.Uring.Relay
import SocketHandoff.Uring.Backend
import SocketHandoff.Lib.JsonFlat
import SocketHandoff.Lib.JsonLex

/-!
# The content of a line

What `process_sse_line` takes for the content of a chunk is the string behind the first
`"content":"` of the line, read without the escapes `\b`, `\f` and `\u`, and cut where the buffer of
`stream_format_sse` ends. Here is when that is the content of `choices[0].delta`: where that string
is at the place of this member, has none of the three escapes and is short enough. What else is
relayed right is so by coincidence, because another string spells the same.
-/

namespace SocketHandoff.Uring

/-! ## Chunks -/

/-- The first element of an array. -/
def firstElem : Json.Value → Option Json.Value
  | .array (first :: _) => some first
  | _ => none

def stringValue : Json.Value → Option (List UInt8)
  | .string s => some s
  | _ => none

/-- `choices[0].delta.content`, if it is a string. -/
def chunkContent (v : Json.Value) : Option (List UInt8) :=
  ((((v.get? (ascii "choices")).bind firstElem).bind (Json.Value.get? (ascii "delta"))).bind
    (Json.Value.get? (ascii "content"))).bind stringValue

/-- The content of the chunk that a text is. -/
def textContent (text : List UInt8) : Option (List UInt8) := (Json.parse text).bind chunkContent

/-- A frame as its reader decodes it. -/
def Decodes (frame content : List UInt8) : Prop :=
  ∃ json v, frame = ascii "data: " ++ (json ++ [10, 10]) ∧ Json.parse json = some v ∧
    v.get? (ascii "content") = some (.string content)

/-- The frames stand for this content, and there is none for a chunk without content. -/
def Relayed (frames : List (List UInt8)) : Option (List UInt8) → Prop
  | some s => ∃ decoded, List.Forall₂ Decodes frames decoded ∧ decoded.flatten = s
  | none => frames = []

/-! ## The string that is found -/

/-- What a text spells for a reader that knows `\n`, `\r` and `\t` and takes any other letter behind
a backslash for itself. -/
inductive Spelled : List UInt8 → List UInt8 → Prop
  | nil : Spelled [] []
  | byte {c : UInt8} {rest s : List UInt8} (hq : c ≠ 34) (hb : c ≠ 92) (h : Spelled rest s) :
      Spelled (c :: rest) (c :: s)
  | escaped {c : UInt8} {rest s : List UInt8} (h : Spelled rest s) :
      Spelled (92 :: c :: rest) (unescapeChar c :: s)

variable {body s t text rest : List UInt8} {remaining : Nat}

theorem unescapeChar_ne_zero {c : UInt8} (h : c ≠ 0) : unescapeChar c ≠ 0 := by
  rw [unescapeChar]
  split
  · decide
  split
  · decide
  split
  · decide
  · exact h

/-- A text spells one thing only. -/
theorem Spelled.unique (h : Spelled body t) (h' : Spelled body s) : t = s := by
  induction h generalizing s with
  | nil =>
    cases h'
    rfl
  | byte _ hb _ ih =>
    cases h' with
    | byte _ _ h' => rw [ih h']
    | escaped _ => exact absurd rfl hb
  | escaped _ ih =>
    cases h' with
    | byte _ hb _ => exact absurd rfl hb
    | escaped h' => rw [ih h']

/-- Every text of a string spells something to that reader. -/
theorem exists_spelled {ps : List Json.Piece} (h : Json.Pieced body ps) (h0 : (0 : UInt8) ∉ body) :
    ∃ t, Spelled body t ∧ (0 : UInt8) ∉ t := by
  induction h with
  | nil => exact ⟨[], .nil, List.not_mem_nil⟩
  | @unit a b c d u rest ps hu _ ih =>
    simp only [List.mem_cons, not_or] at h0
    obtain ⟨-, -, ha, hb, hc, hd, hrest⟩ := h0
    obtain ⟨t, ht, ht0⟩ := ih hrest
    have hplain := Json.plain_of_hexUnit hu
    simp only [List.forall_mem_cons] at hplain
    obtain ⟨hpa, hpb, hpc, hpd, -⟩ := hplain
    refine ⟨_, .escaped (.byte hpa.1 hpa.2 (.byte hpb.1 hpb.2 (.byte hpc.1 hpc.2
      (.byte hpd.1 hpd.2 ht)))), ?_⟩
    simp only [List.mem_cons, not_or]
    exact ⟨by decide, ha, hb, hc, hd, ht0⟩
  | @escaped c e rest ps _ _ ih =>
    simp only [List.mem_cons, not_or] at h0
    obtain ⟨t, ht, ht0⟩ := ih h0.2.2
    refine ⟨_, .escaped ht, ?_⟩
    simp only [List.mem_cons, not_or]
    exact ⟨(unescapeChar_ne_zero (Ne.symm h0.2.1)).symm, ht0⟩
  | @byte c rest ps hc _ ih =>
    simp only [List.mem_cons, not_or] at h0
    obtain ⟨t, ht, ht0⟩ := ih h0.2
    refine ⟨_, .byte hc.1 hc.2.1 ht, ?_⟩
    simp only [List.mem_cons, not_or]
    exact ⟨h0.1, ht0⟩

theorem copyContent_zero (text : List UInt8) : copyContent text 0 = [] := by
  rcases text with _ | ⟨c, _ | ⟨d, rest⟩⟩ <;> rfl

/-- The loop of `process_sse_line` copies what the text spells, as far as there is room. -/
theorem copyContent_spelled (h : Spelled body t) (tail : List UInt8) (room : Nat) :
    copyContent (body ++ 34 :: tail) room = t.take room := by
  induction h generalizing room with
  | nil =>
    cases room with
    | zero => exact copyContent_zero _
    | succ room => cases tail <;> rfl
  | @byte c rest s hq hb h ih =>
    cases room with
    | zero => exact copyContent_zero _
    | succ room =>
      obtain ⟨d, more, hmore⟩ : ∃ d more, rest ++ 34 :: tail = d :: more := by
        cases rest with
        | nil => exact ⟨34, tail, rfl⟩
        | cons d rest => exact ⟨d, rest ++ 34 :: tail, rfl⟩
      have hcopy := ih room
      rw [List.cons_append, hmore, copyContent, if_neg hq, if_neg hb, ← hmore, hcopy,
        List.take_succ_cons]
  | @escaped c rest s h ih =>
    cases room with
    | zero => exact copyContent_zero _
    | succ room =>
      rw [List.cons_append, List.cons_append, copyContent, if_neg (by decide), if_pos rfl, ih,
        List.take_succ_cons]

/-- The part of a text that a buffer has room for: its last character is begun with more than six
bytes left, and so would be no other. -/
structure CutAt (t : List UInt8) (remaining : Nat) (s : List UInt8) : Prop where
  start : s <+: t
  room : s ≠ [] → (s.dropLast.flatMap escapeChar).length + 6 < remaining
  full : s = t ∨ remaining ≤ (s.flatMap escapeChar).length + 6

theorem cutAt_cons {c : UInt8} (hroom : 6 < remaining) :
    CutAt (c :: t) remaining (c :: s) ↔ CutAt t (remaining - (escapeChar c).length) s := by
  have hle := length_escapeChar_le c
  have hlast : ((c :: s).dropLast.flatMap escapeChar).length =
      if s = [] then 0 else (escapeChar c).length + (s.dropLast.flatMap escapeChar).length := by
    cases s with
    | nil => rfl
    | cons d s => rw [List.dropLast_cons_cons, List.flatMap_cons, List.length_append]; rfl
  constructor
  · rintro ⟨hstart, hr, hfull⟩
    refine ⟨(List.cons_prefix_cons.mp hstart).2, fun hne => ?_, ?_⟩
    · have h := hr (List.cons_ne_nil c s)
      rw [hlast, if_neg hne] at h
      omega
    · rcases hfull with hsame | hfull
      · exact .inl (List.cons.inj hsame).2
      · rw [List.flatMap_cons, List.length_append] at hfull
        omega
  · rintro ⟨hstart, hr, hfull⟩
    refine ⟨List.cons_prefix_cons.mpr ⟨rfl, hstart⟩, fun _ => ?_, ?_⟩
    · rw [hlast]
      split
      · omega
      · rename_i hne
        have h := hr hne
        omega
    · rcases hfull with rfl | hfull
      · exact .inl rfl
      · rw [List.flatMap_cons, List.length_append]
        omega

/-- What `stream_format_sse` escapes. -/
theorem escapeContent_cutAt : escapeContent t remaining = s.flatMap escapeChar ↔
    CutAt t remaining s := by
  induction t generalizing remaining s with
  | nil =>
    rw [escapeContent]
    constructor
    · intro h
      obtain rfl : [] = s := flatMap_escapeChar_inj h
      exact ⟨List.prefix_rfl, fun hne => absurd rfl hne, .inl rfl⟩
    · rintro ⟨hstart, -, -⟩
      rw [List.prefix_nil.mp hstart]
      rfl
  | cons c t ih =>
    rw [escapeContent]
    by_cases hroom : 6 < remaining
    · rw [if_pos hroom]
      cases s with
      | nil =>
        have hpos := length_escapeChar_pos c
        constructor
        · intro h
          have hlen := congrArg List.length h
          rw [List.length_append, List.flatMap_nil, List.length_nil] at hlen
          omega
        · rintro ⟨-, -, hfull⟩
          rcases hfull with hfull | hfull
          · cases hfull
          · rw [List.flatMap_nil, List.length_nil] at hfull
            omega
      | cons d s =>
        by_cases hcd : d = c
        · subst hcd
          rw [List.flatMap_cons, List.append_cancel_left_eq, ih, cutAt_cons hroom]
        · obtain ⟨decoded, -, heq⟩ :=
            exists_escapeContent_eq t (remaining - (escapeChar c).length)
          rw [heq, ← List.flatMap_cons]
          constructor
          · intro h
            exact absurd (List.cons.inj (flatMap_escapeChar_inj h)).1.symm hcd
          · rintro ⟨hstart, -, -⟩
            exact absurd (List.cons_prefix_cons.mp hstart).1 hcd
    · rw [if_neg hroom]
      constructor
      · intro h
        obtain rfl : [] = s := flatMap_escapeChar_inj h
        exact ⟨List.nil_prefix, fun hne => absurd rfl hne, .inr (by omega)⟩
      · rintro ⟨-, hr, -⟩
        cases s with
        | nil => rfl
        | cons d s =>
          have h := hr (List.cons_ne_nil d s)
          omega

/-! ## What a string spells -/

theorem Spelled.byte_inv {c : UInt8} (h : Spelled (c :: rest) t) (hb : c ≠ 92) :
    ∃ s, t = c :: s ∧ Spelled rest s := by
  cases h with
  | byte _ _ h => exact ⟨_, rfl, h⟩
  | escaped _ => exact absurd rfl hb

theorem Spelled.escaped_inv {c : UInt8} (h : Spelled (92 :: c :: rest) t) :
    ∃ s, t = unescapeChar c :: s ∧ Spelled rest s := by
  cases h with
  | byte _ hb _ => exact absurd rfl hb
  | escaped h => exact ⟨_, rfl, h⟩

/-- Of an escape with four digits the letters are left. -/
theorem Spelled.unit_inv {a b c d : UInt8} {u : Nat} (hu : Json.hexUnit a b c d = some u)
    (h : Spelled (92 :: 117 :: a :: b :: c :: d :: rest) t) :
    ∃ s, t = 117 :: a :: b :: c :: d :: s ∧ Spelled rest s := by
  have hplain := Json.plain_of_hexUnit hu
  simp only [List.forall_mem_cons] at hplain
  obtain ⟨hpa, hpb, hpc, hpd, -⟩ := hplain
  obtain ⟨s₁, rfl, h₁⟩ := h.escaped_inv
  obtain ⟨s₂, rfl, h₂⟩ := h₁.byte_inv hpa.2
  obtain ⟨s₃, rfl, h₃⟩ := h₂.byte_inv hpb.2
  obtain ⟨s₄, rfl, h₄⟩ := h₃.byte_inv hpc.2
  obtain ⟨s₅, rfl, h₅⟩ := h₄.byte_inv hpd.2
  exact ⟨s₅, rfl, h₅⟩

/-- A piece that this reader knows: no code unit, and neither `\b` nor `\f`. -/
def commonPiece : Json.Piece → Bool
  | .byte b => b ≠ 8 ∧ b ≠ 12
  | .code _ => false

/-- An escape of one letter. -/
theorem unescapeChar_eq_iff (c e : UInt8) (h : Json.escaped c = some e) :
    unescapeChar c = e ↔ e ≠ 8 ∧ e ≠ 12 := by
  have hall := forall_byte (P := fun c =>
    ((Json.escaped c).all fun e => decide (unescapeChar c = e ↔ e ≠ 8 ∧ e ≠ 12)) = true)
    (by decide +kernel) c
  rw [h] at hall
  exact of_decide_eq_true hall

/-- What is read is at least as long as what the string stands for. -/
theorem Spelled.size_le {ps : List Json.Piece} (ht : Spelled body t) (h : Json.Pieced body ps) :
    (ps.map Json.Piece.size).sum ≤ t.length := by
  induction h generalizing t with
  | nil => exact Nat.zero_le _
  | @unit a b c d u rest ps hu _ ih =>
    obtain ⟨s, rfl, hs⟩ := ht.unit_inv hu
    have hle := ih hs
    simp only [List.map_cons, List.sum_cons, List.length_cons, Json.Piece.size]
    omega
  | escaped _ _ ih =>
    obtain ⟨s, rfl, hs⟩ := ht.escaped_inv
    have hle := ih hs
    simp only [List.map_cons, List.sum_cons, List.length_cons, Json.Piece.size]
    omega
  | byte hc _ ih =>
    obtain ⟨s, rfl, hs⟩ := ht.byte_inv hc.2.1
    have hle := ih hs
    simp only [List.map_cons, List.sum_cons, List.length_cons, Json.Piece.size]
    omega

/-- **The string is read as JSON has it** exactly where it has no `\b`, `\f` or `\u`. -/
theorem Spelled.joined_iff {ps : List Json.Piece} (ht : Spelled body t)
    (h : Json.Pieced body ps) : t = Json.joined ps ↔ ∀ p ∈ ps, commonPiece p = true := by
  induction h generalizing t with
  | nil =>
    cases ht
    exact ⟨fun _ p hp => absurd hp List.not_mem_nil, fun _ => rfl⟩
  | @unit a b c d u rest ps hu hrest ih =>
    obtain ⟨s, rfl, hs⟩ := ht.unit_inv hu
    have hle := hs.size_le hrest
    have hjoined := Json.length_joined (.code u :: ps)
    constructor
    · intro heq
      have hlen := congrArg List.length heq
      simp only [List.map_cons, List.sum_cons, List.length_cons, Json.Piece.size] at hjoined hlen
      omega
    · intro hall
      exact absurd (hall _ List.mem_cons_self) Bool.false_ne_true
  | @escaped c e rest ps he _ ih =>
    obtain ⟨s, rfl, hs⟩ := ht.escaped_inv
    rw [Json.joined, List.cons.injEq, unescapeChar_eq_iff c e he, ih hs, List.forall_mem_cons,
      commonPiece, decide_eq_true_iff]
  | @byte c rest ps hc _ ih =>
    obtain ⟨s, rfl, hs⟩ := ht.byte_inv hc.2.1
    have hcommon : c ≠ 8 ∧ c ≠ 12 :=
      ⟨fun h8 => hc.2.2 (h8 ▸ by decide), fun h12 => hc.2.2 (h12 ▸ by decide)⟩
    rw [Json.joined, List.cons.injEq, ih hs, List.forall_mem_cons, commonPiece, decide_eq_true_iff]
    exact ⟨fun hall => ⟨hcommon, hall.2⟩, fun hall => ⟨rfl, hall.2⟩⟩

/-! ## The line -/

theorem strstr_split {pat : List UInt8} (h : strstr pat text = some rest) :
    ∃ front, text = front ++ (pat ++ rest) := by
  have hhere : ∀ {text : List UInt8}, pat.isPrefixOf text = true →
      text = pat ++ text.drop pat.length := by
    intro text hpat
    obtain ⟨tail, rfl⟩ := List.isPrefixOf_iff_prefix.mp hpat
    rw [List.drop_left]
  induction text with
  | nil =>
    rw [strstr] at h
    split at h
    · rename_i hpat
      exact ⟨[], by rw [← Option.some.inj h, List.nil_append, ← hhere hpat]⟩
    · cases h
  | cons c text ih =>
    rw [strstr] at h
    split at h
    · rename_i hpat
      exact ⟨[], by rw [← Option.some.inj h, List.nil_append, ← hhere hpat]⟩
    · obtain ⟨front, hfront⟩ := ih h
      exact ⟨c :: front, by rw [hfront, List.cons_append]⟩

/-- What stands behind the first `"content":"` of a line, where a space follows its `data:`. -/
def contentFieldOf : List UInt8 → Option (List UInt8)
  | 32 :: json => strstr (ascii "\"content\":\"") json
  | _ => none

/-- In a JSON text, a string begins behind the field. -/
theorem string_of_contentFieldOf {v : Json.Value} (h : Json.parse text = some v)
    (hfield : contentFieldOf text = some rest) :
    ∃ body s tail, rest = body ++ 34 :: tail ∧ Json.decode body = some s := by
  obtain ⟨json, rfl, hjson⟩ : ∃ json, text = 32 :: json ∧
      strstr (ascii "\"content\":\"") json = some rest := by
    rw [contentFieldOf.eq_def] at hfield
    split at hfield
    · exact ⟨_, rfl, hfield⟩
    · cases hfield
  obtain ⟨front, hfront⟩ := strstr_split hjson
  have hlexed := Json.lexed_of_parse h
  rw [hfront] at hlexed
  exact @Json.Lexed.behind_name 99 (ascii "ontent") (32 :: front) rest rfl (by decide) hlexed

/-- The content of a line that is a JSON text. -/
theorem sseContent_data {v : Json.Value} (h : Json.parse text = some v) :
    sseContent (ascii "data:" ++ text) =
      ((contentFieldOf text).map (copyContent · 4095)).getD [] := by
  have hdone : ¬ (ascii "data: [DONE]").isPrefixOf (ascii "data:" ++ text) = true := by
    intro hstart
    obtain ⟨tail, htail⟩ := List.isPrefixOf_iff_prefix.mp hstart
    have htext : text = 32 :: 91 :: 68 :: (ascii "ONE]" ++ tail) :=
      (@List.append_cancel_left _ (ascii "data:") _ _ htail).symm
    have hlexed := Json.lexed_of_parse h
    rw [htext] at hlexed
    have hD := (((hlexed.byte_inv (by decide)).2.byte_inv (by decide)).2.byte_inv (by decide)).1
    exact absurd hD (by decide)
  by_cases hspace : ∃ json, text = 32 :: json
  · obtain ⟨json, rfl⟩ := hspace
    have hdata : (ascii "data: ").isPrefixOf (ascii "data:" ++ 32 :: json) = true :=
      List.isPrefixOf_iff_prefix.mpr ⟨json, rfl⟩
    have hdrop : (ascii "data:" ++ 32 :: json).drop 6 = json := rfl
    rw [sseContent, if_pos ⟨hdata, hdone⟩, hdrop, contentFieldOf]
    cases strstr (ascii "\"content\":\"") json with
    | none => rfl
    | some rest => rfl
  · have hdata : ¬ (ascii "data: ").isPrefixOf (ascii "data:" ++ text) = true := by
      intro hstart
      obtain ⟨tail, htail⟩ := List.isPrefixOf_iff_prefix.mp hstart
      exact hspace ⟨tail, (@List.append_cancel_left _ (ascii "data:") _ _ htail).symm⟩
    have hnone : contentFieldOf text = none := by
      rw [contentFieldOf.eq_def]
      split
      · rename_i json
        exact absurd ⟨json, rfl⟩ hspace
      · rfl
    rw [sseContent, if_neg fun hand => hdata hand.1, hnone]
    rfl

/-! ## The frame -/

/-- A frame is read back as what it was made of, and as nothing else. -/
theorem decodes_iff {decoded content : List UInt8} :
    Decodes (sseFrameOf (decoded.flatMap escapeChar)) content ↔ content = decoded := by
  have htext : Json.Text (.object [(ascii "content", .string decoded)])
      (ascii "\x7b\"content\":\"" ++ decoded.flatMap escapeChar ++ ascii "\"\x7d") := by
    have hdecode := (Json.spells_flatMap spells_escapeChar decoded).decode
    have hmember : Json.MemberText (ascii "content", .string decoded)
        (34 :: (ascii "content" ++ 34 :: ([] ++ 58 :: ([] ++
          (34 :: (decoded.flatMap escapeChar ++ [34])))))) :=
      .mk (by decide) Json.white_nil Json.white_nil (.string hdecode)
    have hobject := Json.Text.object Json.white_nil (.one hmember) Json.white_nil
    simpa [ascii] using hobject
  have hframe : sseFrameOf (decoded.flatMap escapeChar) = ascii "data: " ++
      ((ascii "\x7b\"content\":\"" ++ decoded.flatMap escapeChar ++ ascii "\"\x7d") ++
        [10, 10]) := by
    simp [sseFrameOf, ascii]
  constructor
  · rintro ⟨json, v, heq, hparse, hget⟩
    rw [hframe, List.append_cancel_left_eq, List.append_cancel_right_eq] at heq
    rw [← heq, htext.parse] at hparse
    rw [← Option.some.inj hparse] at hget
    have hsame : some (Json.Value.string decoded) = some (.string content) := hget
    simpa using hsame.symm
  · rintro rfl
    exact ⟨_, _, hframe, htext.parse, rfl⟩

/-- The array of `process_sse_line` is no tighter than that of `stream_format_sse`. -/
theorem escapeContent_take {room : Nat} (h : remaining ≤ room) :
    escapeContent (t.take room) remaining = escapeContent t remaining := by
  induction t generalizing room remaining with
  | nil => rw [List.take_nil]
  | cons c t ih =>
    cases room with
    | zero =>
      rw [List.take_zero, escapeContent, escapeContent, if_neg (by omega)]
    | succ room =>
      have hpos := length_escapeChar_pos c
      have hrest := @ih (remaining - (escapeChar c).length) room (by omega)
      rw [List.take_succ_cons, escapeContent, escapeContent, hrest]

/-- The frame of a line whose field spells a text. -/
theorem contentFrames_data {v : Json.Value} {tail : List UInt8} (h : Json.parse text = some v)
    (hfield : contentFieldOf text = some (body ++ 34 :: tail)) (ht : Spelled body t)
    (h0 : (0 : UInt8) ∉ t) :
    Backend.contentFrames [ascii "data:" ++ text] =
      if t = [] then [] else [sseFrameOf (escapeContent t 4095)] := by
  have hcontent : sseContent (ascii "data:" ++ text) = t.take 4095 := by
    rw [sseContent_data h, hfield, Option.map_some, Option.getD_some, copyContent_spelled ht]
  have hempty : sseContent (ascii "data:" ++ text) = [] ↔ t = [] := by
    rw [hcontent, List.take_eq_nil_iff]
    exact or_iff_right (by decide)
  have hstring : cstring (t.take 4095) = t.take 4095 := by
    refine List.takeWhile_eq_self_iff.mpr fun c hc => ?_
    have hne : c ≠ 0 := fun hzero => h0 (hzero ▸ List.mem_of_mem_take hc)
    exact decide_eq_true hne
  rw [Backend.contentFrames_cons]
  by_cases hnil : t = []
  · rw [if_pos hnil, sseFrame, if_pos (hempty.mpr hnil), if_pos rfl]
    rfl
  · have hne := mt hempty.mp hnil
    obtain ⟨frame, hframe, -⟩ := streamFormatSse_fits (sseContent (ascii "data:" ++ text))
    have hform : frame = sseFrameOf (escapeContent t 4095) := by
      have hf := hframe
      simp only [streamFormatSse, Option.ite_none_right_eq_some, Option.some.injEq] at hf
      rw [← hf.2, hcontent, hstring, escapeContent_take (Nat.le_refl 4095)]
      rfl
    rw [if_neg hnil, if_neg (sseFrame_ne_nil hne), sseFrame_eq hne hframe, hform]
    rfl

theorem contentFrames_none {v : Json.Value} (h : Json.parse text = some v)
    (hfield : contentFieldOf text = none) :
    Backend.contentFrames [ascii "data:" ++ text] = [] := by
  have hcontent : sseContent (ascii "data:" ++ text) = [] := by
    rw [sseContent_data h, hfield]
    rfl
  rw [Backend.contentFrames_cons, sseFrame, if_pos hcontent, if_pos rfl]
  rfl

/-! ## Chunks that are relayed -/

section Relayed

variable {content : Option (List UInt8)} {frame : List UInt8}

theorem relayed_nil : Relayed [] content ↔ content.getD [] = [] := by
  cases content with
  | none => exact ⟨fun _ => rfl, fun _ => rfl⟩
  | some s =>
    constructor
    · rintro ⟨decoded, hall, hs⟩
      cases hall
      exact hs.symm
    · intro hs
      exact ⟨[], .nil, hs.symm⟩

theorem relayed_singleton : Relayed [frame] content ↔ ∃ s, content = some s ∧ Decodes frame s := by
  cases content with
  | none =>
    constructor
    · intro h
      exact absurd h (List.cons_ne_nil _ _)
    · rintro ⟨s, hs, -⟩
      cases hs
  | some s =>
    constructor
    · rintro ⟨decoded, hall, hs⟩
      cases hall with
      | cons hd htail =>
        cases htail
        rw [List.flatten_singleton] at hs
        exact ⟨_, rfl, hs ▸ hd⟩
    · rintro ⟨s', hs, hd⟩
      obtain rfl := Option.some.inj hs
      exact ⟨[s], .cons hd .nil, List.flatten_singleton⟩

/-- What a text brings to the client, as far as there is room for it. -/
def Brings (t : List UInt8) : Option (List UInt8) → Prop
  | some s => CutAt t 4095 s
  | none => t = []

/-- **The string at this place is the content of the chunk**: the first `"content":"` of the line
ends there, and whatever string stands there, it is `choices[0].delta.content`. -/
structure OwnContent (text front body tail : List UInt8) : Prop where
  split : text = front ++ 34 :: (body ++ 34 :: tail)
  first : contentFieldOf text = some (body ++ 34 :: tail)
  place : Json.Carries Json.decode textContent front tail

/-- A string without `\b`, `\f` and `\u`. -/
def PlainlyWritten (body : List UInt8) : Prop :=
  ∀ ps, Json.pieces body = some ps → ∀ p ∈ ps, commonPiece p = true

/-- **The condition on a chunk.** -/
inductive Relayable (text : List UInt8) (content : Option (List UInt8)) : Prop
  /-- nothing is found, and the chunk has no content, or an empty one -/
  | absent (h : contentFieldOf text = none) (hcontent : content.getD [] = [])
  /-- the content itself is found; it uses the common escapes only, and the last character is
  begun before the buffer of `stream_format_sse` is full -/
  | own {front body tail s : List UInt8} (place : OwnContent text front body tail)
      (string : Json.decode body = some s) (plain : PlainlyWritten body)
      (room : (s.dropLast.flatMap escapeChar).length ≤ 4088)
  /-- another string is found, or one with a rare escape, and what is copied of it happens to be
  the content -/
  | coincidence {body tail s t : List UInt8} (first : contentFieldOf text = some (body ++ 34 :: tail))
      (string : Json.decode body = some s)
      (other : ¬ ((∃ front, OwnContent text front body tail) ∧ PlainlyWritten body))
      (spells : Spelled body t) (same : Brings t content)

theorem brings_nil : Brings [] content ↔ content.getD [] = [] := by
  cases content with
  | none => exact ⟨fun _ => rfl, fun _ => rfl⟩
  | some s =>
    constructor
    · intro h
      exact List.prefix_nil.mp h.start
    · intro hs
      have hnil : s = [] := hs
      exact ⟨hnil ▸ List.prefix_rfl, fun hne => absurd hnil hne, .inl hnil⟩

/-- One frame for the whole text. -/
theorem relayed_frame (hne : t ≠ []) :
    Relayed [sseFrameOf (escapeContent t 4095)] content ↔ Brings t content := by
  obtain ⟨decoded, -, heq⟩ := exists_escapeContent_eq t 4095
  rw [relayed_singleton]
  cases content with
  | none =>
    constructor
    · rintro ⟨s, hs, -⟩
      cases hs
    · intro h
      exact absurd h hne
  | some s =>
    have hdecodes : Decodes (sseFrameOf (escapeContent t 4095)) s ↔ CutAt t 4095 s := by
      rw [← escapeContent_cutAt, heq, decodes_iff]
      exact ⟨fun h => by rw [h], fun h => (flatMap_escapeChar_inj h).symm⟩
    constructor
    · rintro ⟨s', hs, hd⟩
      obtain rfl := Option.some.inj hs
      exact hdecodes.mp hd
    · intro h
      exact ⟨s, rfl, hdecodes.mpr h⟩

/-- The frames are what `process_sse_line` queues for a line, if it does not fail: in the write
buffer of the connection, or on a worker thread by writing them. -/
structure Queues (line : List UInt8) (frames : List (List UInt8)) : Prop where
  queued : ∀ (ω : Env) (easy : Easy) (i : ConnId) (r : Relay), r.Sound →
    Relays ω easy i r (processSseLine easy i line) fun ok r' =>
      ok = true → r.Adds frames.flatten r'
  written : ∀ (ω : Backend.WorkerEnv) (w : Backend.Worker),
    Act.Triple ω (· = w) (Backend.processSseLine line) fun ok w' =>
      ok = true → w.Wrote frames w'

theorem queues_contentFrames (line : List UInt8) :
    Queues line (Backend.contentFrames [line]) := by
  have hflat : (Backend.contentFrames [line]).flatten = sseFrame line := by
    rw [← Backend.sseFrames_eq, sseFrames_cons, sseFrames_nil, List.append_nil]
  constructor
  · intro ω easy i r hr
    refine .conseq (Relays.processSseLine hr) fun ok r' h hok => ?_
    rw [if_pos hok] at h
    rw [hflat]
    exact h
  · intro ω w
    exact .conseq (Backend.processSseLine_spec line) (fun _ hw => hw) fun _ _ h => h.2.2

variable {v : Json.Value}

/-- A text that is the content itself is brought whole if its last character is begun with more
than six bytes left. -/
theorem brings_self : Brings t (some t) ↔ (t.dropLast.flatMap escapeChar).length ≤ 4088 := by
  constructor
  · intro h
    by_cases hnil : t = []
    · rw [hnil]
      exact Nat.zero_le _
    · have hroom := h.room hnil
      omega
  · intro h
    exact ⟨List.prefix_rfl, fun _ => by omega, .inl rfl⟩

/-- **A plainly written string** at the place of the content is relayed if it is short enough. -/
theorem brings_own {front tail : List UInt8} (hv : Json.parse text = some v)
    (place : OwnContent text front body tail) (hs : Json.decode body = some s)
    (plain : PlainlyWritten body) (ht : Spelled body t) :
    Brings t (chunkContent v) ↔ (s.dropLast.flatMap escapeChar).length ≤ 4088 := by
  have hcontent := place.place body s hs
  rw [← place.split, textContent, hv, Option.bind_some] at hcontent
  obtain ⟨ps, hps, hjoined⟩ := Option.map_eq_some_iff.mp hs
  have hsame : t = s := by
    rw [← hjoined]
    exact (ht.joined_iff (Json.pieced_of_pieces hps)).mpr (plain ps hps)
  rw [hcontent, hsame]
  exact brings_self

/-- **A chunk is relayed as it says exactly when it meets the condition.** The scanner finds a text
in the line, and not a member in an object: what it finds has to be the content, spelled as the
scanner reads it, and short enough for its buffer. -/
theorem relayed_iff (h : Json.parse text = some v) :
    Queues (ascii "data:" ++ text) (Backend.contentFrames [ascii "data:" ++ text]) ∧
      (Relayed (Backend.contentFrames [ascii "data:" ++ text]) (chunkContent v) ↔
        Relayable text (chunkContent v)) := by
  refine ⟨queues_contentFrames _, ?_⟩
  cases hfield : contentFieldOf text with
  | none =>
    rw [contentFrames_none h hfield, relayed_nil]
    constructor
    · exact .absent hfield
    · intro hcond
      cases hcond with
      | absent _ hcontent => exact hcontent
      | own place => exact absurd (hfield.symm.trans place.first) (by simp)
      | coincidence first => exact absurd (hfield.symm.trans first) (by simp)
  | some rest =>
    obtain ⟨body, s, tail, rfl, hs⟩ := string_of_contentFieldOf h hfield
    obtain ⟨ps, hps⟩ := Json.pieced_of_decode hs
    obtain ⟨t, ht, h0⟩ := exists_spelled hps (Json.nul_not_mem_of_decode hs)
    have hsides : Relayed (Backend.contentFrames [ascii "data:" ++ text]) (chunkContent v) ↔
        Brings t (chunkContent v) := by
      rw [contentFrames_data h hfield ht h0]
      by_cases hnil : t = []
      · rw [if_pos hnil, relayed_nil, hnil, brings_nil]
      · rw [if_neg hnil, relayed_frame hnil]
    rw [hsides]
    constructor
    · intro hbrings
      by_cases hown : (∃ front, OwnContent text front body tail) ∧ PlainlyWritten body
      · obtain ⟨⟨front, place⟩, plain⟩ := hown
        exact .own place hs plain ((brings_own h place hs plain ht).mp hbrings)
      · exact .coincidence hfield hs hown ht hbrings
    · intro hcond
      cases hcond with
      | absent hnone => exact absurd (hfield.symm.trans hnone) (by simp)
      | own place string plain room =>
        obtain ⟨rfl, rfl⟩ := Json.pieces_end hs string
          (Option.some.inj (hfield.symm.trans place.first))
        exact (brings_own h place string plain ht).mpr room
      | coincidence first string _ spells same =>
        obtain ⟨rfl, rfl⟩ := Json.pieces_end hs string
          (Option.some.inj (hfield.symm.trans first))
        rwa [ht.unique spells]

/-! ## A chunk as the service writes it -/

/-- What stands before the quote of the content, behind the space. -/
def plainFront : List UInt8 :=
  ascii " \x7b\"choices\":[\x7b\"delta\":\x7b\"role\":\"assistant\",\"content\":"

def plainTail : List UInt8 := ascii "\x7d\x7d]\x7d"

/-- A chunk with this text of a content. -/
def plainChunk (body : List UInt8) : List UInt8 := plainFront ++ 34 :: (body ++ 34 :: plainTail)

/-- A member without white space around the colon. -/
theorem memberText_ascii {name : String} {value : Json.Value} {core : List UInt8}
    (hname : Json.decode (ascii name) = some (ascii name)) (h : Json.Text value core) :
    Json.MemberText (ascii name, value) (34 :: (ascii name ++ 34 :: 58 :: core)) :=
  .mk hname Json.white_nil Json.white_nil h

/-- The content of such a chunk is what its text stands for. -/
theorem plainChunk_carries : Json.Carries Json.decode textContent plainFront plainTail := by
  intro body s hs
  have hrole : Json.Text (.string (ascii "assistant")) (34 :: (ascii "assistant" ++ [34])) :=
    .string (by decide)
  have hdelta := Json.Text.object Json.white_nil
    (.more (@memberText_ascii "role" _ _ (by decide) hrole) Json.white_nil Json.white_nil
      (.one (@memberText_ascii "content" _ _ (by decide) (.string hs)))) Json.white_nil
  have hchoice := Json.Text.object Json.white_nil
    (.one (@memberText_ascii "delta" _ _ (by decide) hdelta)) Json.white_nil
  have hchoices := Json.Text.array Json.white_nil (.one hchoice) Json.white_nil
  have hchunk := Json.Text.object Json.white_nil
    (.one (@memberText_ascii "choices" _ _ (by decide) hchoices)) Json.white_nil
  refine Option.bind_eq_some_iff.mpr ⟨_, Json.parse_iff.mpr ⟨[32], _, [],
    List.forall_mem_singleton.mpr (by decide), Json.white_nil, ?_, hchunk⟩, rfl⟩
  simp [plainFront, plainTail, ascii]

/-- The text of a content of two letters and an escape. -/
def plainBody : List UInt8 := ascii "hi\\n"

theorem relayed_iff_plain :
    Relayed (Backend.contentFrames [ascii "data:" ++ plainChunk plainBody])
      (some (ascii "hi\n")) := by
  have hbody : Json.decode plainBody = some (ascii "hi\n") := by decide
  obtain ⟨v, hparse, hcontent⟩ := Option.bind_eq_some_iff.mp (plainChunk_carries _ _ hbody)
  have place : OwnContent (plainChunk plainBody) plainFront plainBody plainTail :=
    ⟨rfl, by decide +kernel, plainChunk_carries⟩
  have plain : PlainlyWritten plainBody := by
    intro ps hps
    have hpieces : Json.pieces plainBody = some [.byte 104, .byte 105, .byte 10] := by decide
    obtain rfl := Option.some.inj (hpieces.symm.trans hps)
    simp [commonPiece]
  rw [← hcontent]
  exact (relayed_iff hparse).2.mpr (.own place hbody plain (by decide))

/-- A chunk with a space behind the name of its content. -/
def spacedChunk : List UInt8 :=
  ascii " \x7b\"choices\":[\x7b\"delta\":\x7b\"content\": \"hi\"\x7d\x7d]\x7d"

/-- **Such a chunk is lost**: its content is `hi`, and nothing is queued. -/
theorem not_relayed_spaced :
    ¬ ∀ text v, Json.parse text = some v →
      Relayed (Backend.contentFrames [ascii "data:" ++ text]) (chunkContent v) := by
  intro hall
  have hread : (Json.parse spacedChunk).bind chunkContent = some (ascii "hi") := by decide +kernel
  obtain ⟨v, hparse, hcontent⟩ := Option.bind_eq_some_iff.mp hread
  have hframes : Backend.contentFrames [ascii "data:" ++ spacedChunk] = [] := by decide +kernel
  have h := hall _ _ hparse
  rw [hframes, relayed_nil, hcontent] at h
  exact absurd h (by decide)

end Relayed

end SocketHandoff.Uring
