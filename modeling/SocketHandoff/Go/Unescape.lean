import SocketHandoff.Lib.CText
import SocketHandoff.Lib.JsonString
import SocketHandoff.Lib.Memory

/-!
# Unescaping a string

`unescapeJSON` of `backends/openai.go`, with every index into the slice checked. It goes from left
to right and looks ahead only behind a high surrogate.
-/

namespace SocketHandoff.Go

open Json

/-! ## `unescapeJSON` -/

/-- `strconv.ParseUint(s, 16, 32)`. -/
def parseHex (s : List UInt8) : Option Nat := do
  let n ← s.foldlM (fun n c => do return n * 16 + (← hexValue c)) 0
  if s ≠ [] ∧ n < 4294967296 then some n else none

/-- `utf8.RuneError`. -/
def runeError : Nat := 0xFFFD

/-- The bytes that `utf8.EncodeRune` writes. -/
def encodeRune (r : Nat) : List UInt8 :=
  encode (if isSurrogate r ∨ 0x10FFFF < r then runeError else r)

/-- The low surrogate of an escape behind the one whose `u` is at `i`, if there is one. -/
def lowSurrogate (b : List UInt8) (i : Nat) : Checked (Option Nat) := do
  if i + 10 < b.length then
    if (← load b (i + 5)) = 92 then
      if (← load b (i + 6)) = 117 then
        let loHex ← loadBytes b (i + 7) 4
        return (parseHex loHex).filter fun lo => 0xDC00 ≤ lo ∧ lo ≤ 0xDFFF
      else return none
    else return none
  else return none

/-- An escape whose `u` is at `i`: how far `i` moves, and what is appended. -/
def unescapeUnit (b : List UInt8) (i : Nat) : Checked (Nat × List UInt8) := do
  if b.length ≤ i + 4 then return (0, [])
  else
    match parseHex (← loadBytes b (i + 1) 4) with
    | none => return (0, [])
    | some codepoint =>
      if 0xD800 ≤ codepoint ∧ codepoint ≤ 0xDBFF then
        match ← lowSurrogate b i with
        | some lo => return (10, encodeRune (0x10000 + (codepoint - 0xD800) * 0x400 + (lo - 0xDC00)))
        | none => return (4, encodeRune runeError)
      else if 0xDC00 ≤ codepoint ∧ codepoint ≤ 0xDFFF then return (4, encodeRune runeError)
      else return (4, encodeRune codepoint)

/-- The `switch` on the byte behind a backslash, which is at `i`. -/
def unescapeEscape (b : List UInt8) (i : Nat) : Checked (Nat × List UInt8) := do
  let c ← load b i
  if c = 110 then return (0, [10])
  else if c = 114 then return (0, [13])
  else if c = 116 then return (0, [9])
  else if c = 98 then return (0, [8])
  else if c = 102 then return (0, [12])
  else if c = 34 ∨ c = 92 ∨ c = 47 then return (0, [c])
  else if c = 117 then unescapeUnit b i
  else return (0, [c])

/-- The loop, at `i` and with `result` appended. -/
def unescapeLoop (b : List UInt8) (i : Nat) (result : List UInt8) : Checked (List UInt8) := do
  if i < b.length then
    let c ← load b i
    if c = 92 ∧ i + 1 < b.length then
      let (moved, appended) ← unescapeEscape b (i + 1)
      unescapeLoop b (i + 1 + moved + 1) (result ++ appended)
    else unescapeLoop b (i + 1) (result ++ [c])
  else return result
termination_by b.length - i

/-- `unescapeJSON`. -/
def unescapeJSON (b : List UInt8) : Checked (List UInt8) :=
  if 92 ∈ b then unescapeLoop b 0 [] else .ok b

/-! ## No index is outside the slice -/

variable {b : List UInt8} {i : Nat} {result : List UInt8}

theorem faultless_lowSurrogate (b : List UInt8) (i : Nat) : Faultless (lowSurrogate b i) := by
  refine .ite (fun h => ?_) fun _ => .pure _
  refine .bind (.load (by omega)) fun _ => .ite (fun _ => ?_) fun _ => .pure _
  refine .bind (.load (by omega)) fun _ => .ite (fun _ => ?_) fun _ => .pure _
  exact .bind (.loadBytes (by omega)) fun _ => .pure _

theorem faultless_unescapeUnit (b : List UInt8) (i : Nat) : Faultless (unescapeUnit b i) := by
  refine .ite (fun _ => .pure _) fun h => .bind (.loadBytes (by omega)) fun hexStr => ?_
  cases parseHex hexStr with
  | none => exact .pure _
  | some codepoint =>
    refine .ite (fun _ => .bind (faultless_lowSurrogate b i) fun lo => ?_) fun _ =>
      .ite (fun _ => .pure _) fun _ => .pure _
    cases lo <;> exact .pure _

theorem faultless_unescapeEscape (h : i < b.length) : Faultless (unescapeEscape b i) := by
  refine .bind (.load h) fun c => ?_
  refine .ite (fun _ => .pure _) fun _ => .ite (fun _ => .pure _) fun _ => ?_
  refine .ite (fun _ => .pure _) fun _ => .ite (fun _ => .pure _) fun _ => ?_
  refine .ite (fun _ => .pure _) fun _ => .ite (fun _ => .pure _) fun _ => ?_
  exact .ite (fun _ => faultless_unescapeUnit b i) fun _ => .pure _

/-- **No index is outside the slice**, wherever the loop is. -/
theorem faultless_unescapeLoop (b : List UInt8) (i : Nat) (result : List UInt8) :
    Faultless (unescapeLoop b i result) := by
  rw [unescapeLoop]
  refine .ite (fun hi => .bind (.load hi) fun c => ?_) fun _ => .pure _
  refine .ite (fun hc => ?_) fun _ => faultless_unescapeLoop b (i + 1) _
  refine .bind (faultless_unescapeEscape hc.2) fun r => ?_
  exact faultless_unescapeLoop b (i + 1 + r.1 + 1) _
termination_by b.length - i

theorem faultless_unescapeJSON (b : List UInt8) : Faultless (unescapeJSON b) :=
  .ite (fun _ => faultless_unescapeLoop b 0 []) fun _ => ⟨b, rfl⟩

/-! ## The value of a string -/

theorem hexValue_lt {c : UInt8} {n : Nat} (h : hexValue c = some n) : n < 16 := by
  have hall := forall_byte (P := fun c => (hexValue c).all (· < 16) = true) (by decide +kernel) c
  rw [h] at hall
  exact of_decide_eq_true hall

/-- Four digits are a code unit, and no number of more than sixteen bits. -/
theorem parseHex_four (a b c d : UInt8) : parseHex [a, b, c, d] = hexUnit a b c d := by
  simp only [parseHex, hexUnit, List.foldlM_cons, List.foldlM_nil, Option.bind_eq_bind,
    Option.pure_def]
  cases ha : hexValue a with
  | none => rfl
  | some ka =>
  cases hb : hexValue b with
  | none => rfl
  | some kb =>
  cases hc : hexValue c with
  | none => rfl
  | some kc =>
  cases hd : hexValue d with
  | none => rfl
  | some kd =>
    have := hexValue_lt ha
    have := hexValue_lt hb
    have := hexValue_lt hc
    have := hexValue_lt hd
    simp only [Option.bind_some]
    rw [if_pos ⟨List.cons_ne_nil _ _, by omega⟩]
    simp

theorem hexUnit_lt {a b c d : UInt8} {u : Nat} (h : hexUnit a b c d = some u) : u < 65536 := by
  simp only [hexUnit, Option.bind_eq_bind, Option.bind_eq_some_iff, Option.pure_def] at h
  obtain ⟨ka, ha, kb, hb, kc, hc, kd, hd, hu⟩ := h
  have := hexValue_lt ha
  have := hexValue_lt hb
  have := hexValue_lt hc
  have := hexValue_lt hd
  have := Option.some.inj hu
  omega

/-- The low surrogate at the head of some pieces. -/
def lowOf : List Piece → Option Nat
  | .code lo :: _ => if 0xDC00 ≤ lo ∧ lo ≤ 0xDFFF then some lo else none
  | _ => none

/-- **The look-ahead** finds the low surrogate that comes next, and nothing else. -/
theorem lowSurrogate_eq {a₁ a₂ a₃ a₄ : UInt8} {rest : List UInt8} {ps : List Piece}
    (hd : b.drop i = 117 :: a₁ :: a₂ :: a₃ :: a₄ :: rest) (hp : Pieced rest ps) :
    lowSurrogate b i = .ok (lowOf ps) := by
  have hlen := congrArg List.length hd
  rw [List.length_drop] at hlen
  rw [lowSurrogate]
  cases hp with
  | nil =>
    simp only [List.length_cons, List.length_nil] at hlen
    rw [if_neg (by omega)]
    rfl
  | @unit e f g h lo rest ps hlo hp =>
    have h5 : load b (i + 5) = .ok 92 := load_behind [117, a₁, a₂, a₃, a₄] hd
    have h6 : load b (i + 6) = .ok 117 := load_behind [117, a₁, a₂, a₃, a₄, 92] hd
    have h7 : loadBytes b (i + 7) 4 = .ok [e, f, g, h] :=
      @loadBytes_behind b i [e, f, g, h] [117, a₁, a₂, a₃, a₄, 92, 117] rest (List.cons_ne_nil _ _) hd
    simp only [List.length_cons] at hlen
    rw [if_pos (by omega), h5, h6, h7, lowOf]
    change Except.ok ((parseHex [e, f, g, h]).filter _) = _
    rw [parseHex_four, hlo]
    rw [Option.filter]
    by_cases hlow : 0xDC00 ≤ lo ∧ lo ≤ 0xDFFF
    · rw [if_pos hlow, if_pos (decide_eq_true hlow)]
    · rw [if_neg hlow, if_neg (by simpa using hlow)]
  | @escaped c e rest ps he hp =>
    have h5 : load b (i + 5) = .ok 92 := load_behind [117, a₁, a₂, a₃, a₄] hd
    have h6 : load b (i + 6) = .ok c := load_behind [117, a₁, a₂, a₃, a₄, 92] hd
    rw [h5, h6]
    split
    · change (if c = 117 then _ else _) = _
      rw [if_neg (ne_u_of_escaped he)]
      rfl
    · rfl
  | @byte c rest ps hc hp =>
    have h5 : load b (i + 5) = .ok c := load_behind [117, a₁, a₂, a₃, a₄] hd
    rw [h5]
    split
    · change (if c = 92 then _ else _) = _
      rw [if_neg hc.2.1]
      rfl
    · rfl

/-- What is made of a code unit, with the low surrogate behind it. -/
def unitMeans (u : Nat) (low : Option Nat) : Nat × List UInt8 :=
  if 0xD800 ≤ u ∧ u ≤ 0xDBFF then
    match low with
    | some lo => (10, encode (0x10000 + (u - 0xD800) * 0x400 + (lo - 0xDC00)))
    | none => (4, encodeUnit u)
  else (4, encodeUnit u)

theorem lowOf_lt {ps : List Piece} {lo : Nat} (h : lowOf ps = some lo) :
    ∃ rest, ps = .code lo :: rest ∧ 0xDC00 ≤ lo ∧ lo ≤ 0xDFFF := by
  cases ps with
  | nil => cases h
  | cons p rest =>
    cases p with
    | byte c => cases h
    | code u =>
      obtain ⟨hlow, heq⟩ := Option.ite_none_right_eq_some.mp h
      obtain rfl := Option.some.inj heq
      exact ⟨rest, rfl, hlow⟩

theorem encodeRune_unit {u : Nat} (hu : u < 65536) : encodeRune u = encodeUnit u := by
  rw [encodeRune, encodeUnit]
  by_cases h : isSurrogate u
  · rw [if_pos (.inl h), if_pos h, runeError]
  · have hsmall : ¬ (isSurrogate u = true ∨ 0x10FFFF < u) := by
      rintro (hs | hlarge)
      · exact h hs
      · omega
    rw [if_neg hsmall, if_neg h]

theorem encodeRune_error {u : Nat} (hu : isSurrogate u = true) :
    encodeRune runeError = encodeUnit u := by
  rw [encodeUnit, if_pos hu, encodeRune, runeError]
  rfl

/-- **An escape with digits** is read as what its code unit means. -/
theorem unescapeUnit_eq {a₁ a₂ a₃ a₄ : UInt8} {u : Nat} {rest : List UInt8} {ps : List Piece}
    (hd : b.drop i = 117 :: a₁ :: a₂ :: a₃ :: a₄ :: rest) (hu : hexUnit a₁ a₂ a₃ a₄ = some u)
    (hp : Pieced rest ps) : unescapeUnit b i = .ok (unitMeans u (lowOf ps)) := by
  have hlen := congrArg List.length hd
  rw [List.length_drop] at hlen
  simp only [List.length_cons] at hlen
  have hlt := hexUnit_lt hu
  have hdigits : loadBytes b (i + 1) 4 = .ok [a₁, a₂, a₃, a₄] :=
    @loadBytes_behind b i [a₁, a₂, a₃, a₄] [117] rest (List.cons_ne_nil _ _) hd
  rw [unescapeUnit, if_neg (by omega), unitMeans.eq_def]
  simp only [hdigits, bind, Except.bind, pure, Except.pure, parseHex_four, hu]
  by_cases hhigh : 0xD800 ≤ u ∧ u ≤ 0xDBFF
  · rw [if_pos hhigh, if_pos hhigh, lowSurrogate_eq hd hp]
    cases hlow : lowOf ps with
    | none => rw [encodeRune_error (u := u) (decide_eq_true (by omega))]
    | some lo =>
      obtain ⟨-, -, hlo⟩ := lowOf_lt hlow
      have hrune : encodeRune (0x10000 + (u - 0xD800) * 0x400 + (lo - 0xDC00)) =
          encode (0x10000 + (u - 0xD800) * 0x400 + (lo - 0xDC00)) := by
        rw [encodeRune, if_neg]
        simp only [isSurrogate, decide_eq_true_eq]
        omega
      simp only [hrune]
  · rw [if_neg hhigh, if_neg hhigh]
    by_cases hlow : 0xDC00 ≤ u ∧ u ≤ 0xDFFF
    · rw [if_pos hlow, encodeRune_error (u := u) (decide_eq_true (by omega))]
    · rw [if_neg hlow, encodeRune_unit hlt]

/-- A byte escaped by one letter. -/
theorem unescapeEscape_letter {c e : UInt8} {rest : List UInt8} (hd : b.drop i = c :: rest)
    (he : escaped c = some e) : unescapeEscape b i = .ok (0, [e]) := by
  have hc : load b i = .ok c := load_behind [] hd
  have hu := ne_u_of_escaped he
  rw [unescapeEscape, hc]
  simp only [bind, Except.bind, pure, Except.pure]
  rw [escaped] at he
  grind

theorem unescapeEscape_unit {rest : List UInt8} (hd : b.drop i = 117 :: rest) :
    unescapeEscape b i = unescapeUnit b i := by
  have hc : load b i = .ok 117 := load_behind [] hd
  rw [unescapeEscape, hc]
  simp only [bind, Except.bind]
  rfl

/-- One turn of the loop at a backslash. -/
theorem unescapeLoop_escape {c : UInt8} {rest appended : List UInt8} {moved : Nat}
    (hd : b.drop i = 92 :: c :: rest) (he : unescapeEscape b (i + 1) = .ok (moved, appended)) :
    unescapeLoop b i result = unescapeLoop b (i + 1 + moved + 1) (result ++ appended) := by
  have hlen := congrArg List.length hd
  rw [List.length_drop] at hlen
  simp only [List.length_cons] at hlen
  have hc : load b i = .ok 92 := load_behind [] hd
  rw [unescapeLoop, if_pos (by omega), hc]
  simp only [bind, Except.bind]
  rw [if_pos ⟨trivial, by omega⟩, he]

/-- One turn at another byte. -/
theorem unescapeLoop_byte {c : UInt8} {rest : List UInt8} (hd : b.drop i = c :: rest)
    (hc : c ≠ 92) : unescapeLoop b i result = unescapeLoop b (i + 1) (result ++ [c]) := by
  have hlen := congrArg List.length hd
  rw [List.length_drop] at hlen
  simp only [List.length_cons] at hlen
  have hload : load b i = .ok c := load_behind [] hd
  rw [unescapeLoop, if_pos (by omega), hload]
  simp only [bind, Except.bind]
  rw [if_neg fun h => hc h.1]

/-- **The loop** appends what the rest of the text stands for. The induction is on the pieces of the
rest, and a pair of surrogates is one piece, which the loop takes in one round. -/
theorem unescapeLoop_pieced {text : List UInt8} {ps : List Piece} (hp : Pieced text ps)
    (hd : b.drop i = text) : unescapeLoop b i result = .ok (result ++ replaced ps) := by
  -- a pair takes two pieces at once
  induction hn : ps.length using Nat.strongRecOn generalizing text ps i result with
  | _ n ih =>
  subst hn
  cases hp with
  | nil =>
    have hi : ¬ i < b.length := by
      rw [Nat.not_lt]
      exact List.drop_eq_nil_iff.mp hd
    rw [unescapeLoop, if_neg hi, replaced, List.append_nil]
    rfl
  | @unit a₁ a₂ a₃ a₄ u rest ps hu hp =>
    have hd₁ : b.drop (i + 1) = 117 :: a₁ :: a₂ :: a₃ :: a₄ :: rest := drop_behind [92] hd
    have hd₂ : b.drop (i + 1 + 4 + 1) = rest := drop_behind [92, 117, a₁, a₂, a₃, a₄] hd
    have hstep := (unescapeEscape_unit hd₁).trans (unescapeUnit_eq hd₁ hu hp)
    have halone : (∀ lo qs, ps = .code lo :: qs → isPair u lo = false) →
        unitMeans u (lowOf ps) = (4, encodeUnit u) →
        unescapeLoop b i result = .ok (result ++ replaced (.code u :: ps)) := by
      intro hno hmeans
      rw [hmeans] at hstep
      rw [unescapeLoop_escape hd hstep, ih _ (Nat.lt_succ_self _) hp hd₂ rfl, replaced_alone hno,
        List.append_assoc]
    by_cases hhigh : 0xD800 ≤ u ∧ u ≤ 0xDBFF
    · cases hlow : lowOf ps with
      | none =>
        refine halone ?_ (by rw [hlow, unitMeans.eq_def, if_pos hhigh])
        rintro lo qs rfl
        have hno : ¬ (0xDC00 ≤ lo ∧ lo ≤ 0xDFFF) := by
          intro hyes
          rw [lowOf, if_pos hyes] at hlow
          cases hlow
        simp only [isPair, decide_eq_false_iff_not]
        omega
      | some lo =>
        obtain ⟨qs, rfl, hlo⟩ := lowOf_lt hlow
        have hpair : isPair u lo = true := by
          simp only [isPair, decide_eq_true_eq]
          omega
        cases hp with
        | @unit e f g h _ rest qs hlo' hp =>
          have hd₃ : b.drop (i + 1 + 10 + 1) = rest :=
            drop_behind [92, 117, a₁, a₂, a₃, a₄, 92, 117, e, f, g, h] hd
          rw [hlow, unitMeans.eq_def, if_pos hhigh] at hstep
          rw [unescapeLoop_escape hd hstep, ih _ (by simp only [List.length_cons]; omega) hp hd₃ rfl,
            replaced, hpair, if_pos rfl, List.append_assoc]
    · refine halone (fun lo qs _ => ?_) (by rw [unitMeans.eq_def, if_neg hhigh])
      simp only [isPair, decide_eq_false_iff_not]
      omega
  | @escaped c e rest ps he hp =>
    have hd₁ : b.drop (i + 1) = c :: rest := drop_behind [92] hd
    have hd₂ : b.drop (i + 1 + 0 + 1) = rest := drop_behind [92, c] hd
    rw [unescapeLoop_escape hd (unescapeEscape_letter hd₁ he), ih _ (Nat.lt_succ_self _) hp hd₂ rfl,
      replaced, List.append_assoc, List.singleton_append]
  | @byte c rest ps hc hp =>
    have hd₁ : b.drop (i + 1) = rest := drop_behind [c] hd
    rw [unescapeLoop_byte hd hc.2.1, ih _ (Nat.lt_succ_self _) hp hd₁ rfl, replaced,
      List.append_assoc, List.singleton_append]

/-- A text without backslashes stands for itself. -/
theorem replaced_of_notMem {text : List UInt8} {ps : List Piece} (hp : Pieced text ps)
    (h : (92 : UInt8) ∉ text) : replaced ps = text := by
  induction hp with
  | nil => rfl
  | unit _ _ _ => exact absurd List.mem_cons_self h
  | escaped _ _ _ => exact absurd List.mem_cons_self h
  | byte hc hp ih => rw [replaced, ih fun hm => h (List.mem_cons_of_mem _ hm)]

/-- **The value** of the text between the quotes of a string. -/
theorem unescapeJSON_pieced {text : List UInt8} {ps : List Piece} (hp : Pieced text ps) :
    unescapeJSON text = .ok (replaced ps) := by
  rw [unescapeJSON]
  by_cases h : (92 : UInt8) ∈ text
  · rw [if_pos h, unescapeLoop_pieced hp List.drop_zero, List.nil_append]
  · rw [if_neg h, replaced_of_notMem hp h]

/-- **`unescapeJSON` decodes strings**: it ends on every text, without an index outside of it, and
on the text of a string it returns its value. A surrogate that stands alone becomes U+FFFD, and the
look-ahead for its other half never goes past the end. -/
theorem unescapeJSON_decodes (b : List UInt8) :
    (∃ r, unescapeJSON b = .ok r) ∧
      ∀ value, decodeReplacing b = some value → unescapeJSON b = .ok value := by
  refine ⟨faultless_unescapeJSON b, ?_⟩
  intro value h
  obtain ⟨ps, hps, rfl⟩ := Option.map_eq_some_iff.mp h
  exact unescapeJSON_pieced (pieced_of_pieces hps)

/-- A pair, and a high surrogate that stands alone. -/
theorem unescapeJSON_decodes_emoji :
    unescapeJSON (ascii "\\ud83d\\ude00\\ud83dA\\n") =
      .ok [240, 159, 152, 128, 239, 191, 189, 65, 10] :=
  (unescapeJSON_decodes _).2 _ (by decide +kernel)

end SocketHandoff.Go
