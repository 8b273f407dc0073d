import SocketHandoff.Uring.TopLevel
import SocketHandoff.Lib.JsonFlat

/-!
# `jsmn_parse`

`jsmn.h`, which is built without `JSMN_STRICT` and without `JSMN_PARENT_LINKS`. The tokens of a flat
object are those of its names and values, in their order, or there is no room for them.
-/

namespace SocketHandoff.Uring.Jsmn

/-! ## The parser -/

/-- `jsmntok_t` while the parser runs, with `none` for an end of -1. -/
structure Tok where
  type : TokenType
  start : Nat
  stop : Option Nat
  size : Nat
  deriving DecidableEq, Repr

/-- `jsmn_parser` and the tokens: `toknext` is their number, and `none` is a `toksuper` of -1. The
position is kept by the loop. -/
structure Parser where
  tokens : List Tok
  toksuper : Option Nat

/-- An object or an array whose end is not reached. -/
def Tok.isOpen (t : Tok) : Bool := t.stop.isNone

def Tok.isContainer (t : Tok) : Bool := t.type = .array ∨ t.type = .object

/-- The last index of a token with a property. -/
def lastIndex (p : Tok → Bool) : List Tok → Option Nat
  | [] => none
  | t :: rest =>
    match lastIndex p rest with
    | some i => some (i + 1)
    | none => if p t then some 0 else none

/-- `tokens[parser->toksuper].size++`, if there is one. -/
def Parser.child (s : Parser) : Parser :=
  match s.toksuper with
  | some i => { s with tokens := s.tokens.modify i fun t => { t with size := t.size + 1 } }
  | none => s

/-- `jsmn_alloc_token` and `jsmn_fill_token`, with the token counted as a child; `none` for
`JSMN_ERROR_NOMEM`. -/
def Parser.put (numTokens : Nat) (tok : Tok) (s : Parser) : Option Parser :=
  if s.tokens.length < numTokens then
    some ({ s with tokens := s.tokens ++ [tok] }).child
  else none

/-- An opening bracket. -/
def Parser.opening (numTokens : Nat) (type : TokenType) (pos : Nat) (s : Parser) : Option Parser :=
  (s.put numTokens ⟨type, pos, none, 0⟩).map fun s => { s with toksuper := some (s.tokens.length - 1) }

/-- A closing bracket; `none` for one that fits no opening one. -/
def Parser.closing (type : TokenType) (pos : Nat) (s : Parser) : Option Parser :=
  match lastIndex Tok.isOpen s.tokens with
  | none => none
  | some i =>
    if (s.tokens[i]?).map Tok.type = some type then
      let tokens := s.tokens.modify i fun t => { t with stop := some (pos + 1) }
      some ⟨tokens, lastIndex Tok.isOpen (tokens.take (i + 1))⟩
    else none

/-- A comma. -/
def Parser.comma (s : Parser) : Parser :=
  match s.toksuper with
  | none => s
  | some j =>
    if (s.tokens[j]?).any Tok.isContainer then s
    else
      match lastIndex (fun t => t.isContainer && t.isOpen) s.tokens with
      | some i => { s with toksuper := some i }
      | none => s

/-- A colon. -/
def Parser.colon (s : Parser) : Parser :=
  { s with toksuper := if s.tokens = [] then none else some (s.tokens.length - 1) }

/-- A digit of `\u`. -/
def isHex (c : UInt8) : Bool := (48 ≤ c ∧ c ≤ 57) ∨ (65 ≤ c ∧ c ≤ 70) ∨ (97 ≤ c ∧ c ≤ 102)

/-- A letter behind a backslash. -/
def isEscape (c : UInt8) : Bool :=
  c = 34 ∨ c = 47 ∨ c = 92 ∨ c = 98 ∨ c = 102 ∨ c = 114 ∨ c = 110 ∨ c = 116

/-- The loop of `jsmn_parse_string` from behind the first quote: how far the last one is; `none` for
an error. -/
def stringLength : List UInt8 → Option Nat
  | [] => none
  | 92 :: 117 :: a :: b :: c :: d :: rest =>
    if isHex a ∧ isHex b ∧ isHex c ∧ isHex d then (· + 6) <$> stringLength rest else none
  | 92 :: e :: rest => if isEscape e then (· + 2) <$> stringLength rest else none
  | c :: rest =>
    if c = 0 then none else if c = 34 then some 0 else (· + 1) <$> stringLength rest

/-- What ends a primitive. -/
def isDelimiter (c : UInt8) : Bool :=
  c = 9 ∨ c = 13 ∨ c = 10 ∨ c = 32 ∨ c = 44 ∨ c = 93 ∨ c = 125

/-- The loop of `jsmn_parse_primitive`. A byte from 128 on is a negative `char`. -/
def primitiveLength : List UInt8 → Option Nat
  | [] => some 0
  | c :: rest =>
    if c = 0 ∨ isDelimiter c then some 0
    else if c < 32 ∨ 127 ≤ c then none
    else (· + 1) <$> primitiveLength rest

/-- One round of the loop of `jsmn_parse`, at the byte `c`, with the number of bytes behind it that
are read with it. -/
def Parser.step (numTokens pos : Nat) (c : UInt8) (rest : List UInt8) (s : Parser) :
    Option (Parser × Nat) :=
  if c = 123 ∨ c = 91 then
    (s.opening numTokens (if c = 123 then .object else .array) pos).map (·, 0)
  else if c = 125 ∨ c = 93 then
    (s.closing (if c = 125 then .object else .array) pos).map (·, 0)
  else if c = 34 then do
    let n ← stringLength rest
    let s ← s.put numTokens ⟨.string, pos + 1, some (pos + 1 + n), 0⟩
    return (s, n + 1)
  else if c = 9 ∨ c = 13 ∨ c = 10 ∨ c = 32 then some (s, 0)
  else if c = 58 then some (s.colon, 0)
  else if c = 44 then some (s.comma, 0)
  else do
    let n ← primitiveLength (c :: rest)
    let s ← s.put numTokens ⟨.primitive, pos, some (pos + n), 0⟩
    return (s, n - 1)

/-- The loop of `jsmn_parse`, where `skip` bytes are read already. It ends at a NUL. -/
def Parser.loop (numTokens : Nat) : List UInt8 → (pos skip : Nat) → Parser → Option Parser
  | [], _, _, s => some s
  | _ :: rest, pos, skip + 1, s => Parser.loop numTokens rest (pos + 1) skip s
  | c :: rest, pos, 0, s =>
    if c = 0 then some s
    else
      match s.step numTokens pos c rest with
      | some (s, skip) => Parser.loop numTokens rest (pos + 1) skip s
      | none => none

/-- The tokens of a text; `none` for an error. -/
def parse (numTokens : Nat) (json : List UInt8) : Option (List Token) :=
  match Parser.loop numTokens json 0 0 ⟨[], none⟩ with
  | some s =>
    if s.tokens.any Tok.isOpen then none
    else some (s.tokens.map fun t => ⟨t.type, t.start, t.stop.getD 0, t.size⟩)
  | none => none

end Jsmn

/-- `MAX_JSON_TOKENS`. -/
def maxJsonTokens : Nat := 32

/-- `json_parse`, as `handoff_parse_data` calls it. -/
def jsonParse (json : List UInt8) : Option (List Token) := Jsmn.parse maxJsonTokens json

namespace Jsmn

/-! ## Strings and literals -/

variable {numTokens pos : Nat} {c : UInt8} {body text rest : List UInt8} {s : Parser}
  {root : Tok} {toks : List Tok}

theorem isHex_of_hexValue : ∀ c : UInt8, (Json.hexValue c).isSome = true → isHex c = true :=
  forall_byte (by decide +kernel)

theorem isHex_of_hexUnit {a b c d : UInt8} {u : Nat} (h : Json.hexUnit a b c d = some u) :
    isHex a = true ∧ isHex b = true ∧ isHex c = true ∧ isHex d = true := by
  simp only [Json.hexUnit, Option.bind_eq_bind, Option.bind_eq_some_iff] at h
  obtain ⟨_, ha, _, hb, _, hc, _, hd, -⟩ := h
  refine ⟨?_, ?_, ?_, ?_⟩
  · exact isHex_of_hexValue a (by rw [ha]; rfl)
  · exact isHex_of_hexValue b (by rw [hb]; rfl)
  · exact isHex_of_hexValue c (by rw [hc]; rfl)
  · exact isHex_of_hexValue d (by rw [hd]; rfl)

theorem isEscape_of_escaped : ∀ c : UInt8, (Json.escaped c).isSome = true → isEscape c = true :=
  forall_byte (by decide +kernel)

theorem stringLength_escape {e : UInt8} (h : isEscape e = true) (rest : List UInt8) :
    stringLength (92 :: e :: rest) = (· + 2) <$> stringLength rest := by
  have hu : e ≠ 117 := by
    rintro rfl
    exact absurd h (by decide)
  rw [stringLength.eq_3 e rest fun _ _ _ _ _ he => absurd he hu, if_pos h]

theorem stringLength_byte (h : c ≠ 34 ∧ c ≠ 92 ∧ ¬ c < 32) (rest : List UInt8) :
    stringLength (c :: rest) = (· + 1) <$> stringLength rest := by
  obtain ⟨hq, hb, hc⟩ := h
  have h0 : c ≠ 0 := by
    rintro rfl
    exact absurd (by decide) hc
  rw [stringLength.eq_def]
  split
  · contradiction
  · rename_i heq; exact absurd (List.cons.inj heq).1 hb
  · rename_i heq; exact absurd (List.cons.inj heq).1 hb
  · rename_i heq
    obtain ⟨rfl, rfl⟩ := List.cons.inj heq
    rw [if_neg h0, if_neg hq]

/-- `jsmn_parse_string` takes a JSON string as a whole. -/
theorem stringLength_pieced {ps : List Json.Piece} (h : Json.Pieced body ps)
    (rest : List UInt8) : stringLength (body ++ 34 :: rest) = some body.length := by
  induction h with
  | nil => rw [List.nil_append, stringLength.eq_def]; rfl
  | unit hu _ ih =>
    simp only [List.cons_append, List.length_cons]
    rw [stringLength, if_pos (isHex_of_hexUnit hu), ih]
    rfl
  | escaped he _ ih =>
    simp only [List.cons_append, List.length_cons]
    rw [stringLength_escape (isEscape_of_escaped _ (by rw [he]; rfl)), ih]
    rfl
  | byte hc _ ih =>
    simp only [List.cons_append, List.length_cons]
    rw [stringLength_byte hc, ih]
    rfl

/-- The bytes that `jsmn_parse` takes for the start of a primitive. -/
def isPrimitiveByte (c : UInt8) : Bool :=
  ¬ isDelimiter c ∧ 32 ≤ c ∧ c < 127 ∧ c ≠ 123 ∧ c ≠ 91 ∧ c ≠ 34 ∧ c ≠ 58

theorem primitive_of_literal : ∀ c : UInt8, Json.isLiteralByte c = true →
    isPrimitiveByte c = true := forall_byte (by decide +kernel)

/-- `jsmn_parse_primitive` takes a literal as a whole. -/
theorem primitiveLength_literal (h : ∀ c ∈ text, isPrimitiveByte c = true)
    (hc : isDelimiter c = true) (rest : List UInt8) :
    primitiveLength (text ++ c :: rest) = some text.length := by
  induction text with
  | nil => rw [List.nil_append, primitiveLength, if_pos (.inr hc)]; rfl
  | cons d text ih =>
    have hd := h d List.mem_cons_self
    simp only [isPrimitiveByte, decide_eq_true_eq] at hd
    obtain ⟨hdelim, hle, hlt, -⟩ := hd
    have h0 : d ≠ 0 := by
      rintro rfl
      exact absurd hle (by decide)
    rw [List.cons_append, primitiveLength, if_neg (fun h => h.elim h0 hdelim), if_neg,
      ih fun c hc => h c (List.mem_cons_of_mem _ hc)]
    · rfl
    · rintro (hlt' | hle')
      · exact absurd hle (UInt8.not_le.mpr hlt')
      · exact absurd hle' (UInt8.not_le.mpr hlt)

/-! ## The loop over a flat object -/

theorem loop_skip (text rest : List UInt8) : s.loop numTokens (text ++ rest) pos text.length =
    s.loop numTokens rest (pos + text.length) 0 := by
  induction text generalizing pos with
  | nil => rfl
  | cons c text ih =>
    rw [List.cons_append, List.length_cons, Parser.loop, ih, Nat.add_right_comm, Nat.add_assoc]

theorem loop_white (h : Json.White text) (rest : List UInt8) :
    s.loop numTokens (text ++ rest) pos 0 = s.loop numTokens rest (pos + text.length) 0 := by
  induction text generalizing pos with
  | nil => rfl
  | cons c text ih =>
    have hc : c = 32 ∨ c = 9 ∨ c = 10 ∨ c = 13 := by
      simpa [Json.isWhite] using h c List.mem_cons_self
    have hstep : s.step numTokens pos c (text ++ rest) = some (s, 0) := by
      rcases hc with rfl | rfl | rfl | rfl <;> rfl
    have h0 : c ≠ 0 := by
      rcases hc with rfl | rfl | rfl | rfl <;> decide
    rw [List.cons_append, Parser.loop, if_neg h0, hstep]
    simp only
    rw [ih fun d hd => h d (List.mem_cons_of_mem c hd), List.length_cons, Nat.add_right_comm,
      Nat.add_assoc]

theorem loop_string (h : (Json.decode body).isSome) (rest : List UInt8) :
    s.loop numTokens (34 :: (body ++ 34 :: rest)) pos 0 =
      (s.put numTokens ⟨.string, pos + 1, some (pos + 1 + body.length), 0⟩).bind fun s =>
        s.loop numTokens rest (pos + body.length + 2) 0 := by
  obtain ⟨bytes, hbytes⟩ := Option.isSome_iff_exists.mp h
  obtain ⟨ps, hps, -⟩ := Option.map_eq_some_iff.mp hbytes
  rw [Parser.loop, if_neg (by decide), Parser.step, if_neg (by decide), if_neg (by decide),
    if_pos rfl, stringLength_pieced (Json.pieced_of_pieces hps)]
  simp only [Option.bind_eq_bind, Option.bind_some]
  cases s.put numTokens ⟨.string, pos + 1, some (pos + 1 + body.length), 0⟩ with
  | none => rfl
  | some s =>
    have hskip : s.loop numTokens ((body ++ [34]) ++ rest) (pos + 1) (body ++ [34]).length = _ :=
      loop_skip (body ++ [34]) rest
    rw [List.append_assoc, List.length_append] at hskip
    simp only [Option.bind_some]
    refine hskip.trans ?_
    congr 1
    simp only [List.length_singleton]
    omega

theorem loop_literal (h : ∀ c ∈ text, isPrimitiveByte c = true) (hne : text ≠ [])
    (hc : isDelimiter c = true) (rest : List UInt8) :
    s.loop numTokens (text ++ c :: rest) pos 0 =
      (s.put numTokens ⟨.primitive, pos, some (pos + text.length), 0⟩).bind fun s =>
        s.loop numTokens (c :: rest) (pos + text.length) 0 := by
  obtain ⟨d, text, rfl⟩ := List.exists_cons_of_ne_nil hne
  have hd := h d List.mem_cons_self
  have hlength := primitiveLength_literal h hc rest
  simp only [isPrimitiveByte, isDelimiter, decide_eq_true_eq, not_or] at hd
  obtain ⟨⟨h9, h13, h10, h32, h44, h93, h125⟩, hle, -, h123, h91, h34, h58⟩ := hd
  have h0 : d ≠ 0 := by
    rintro rfl
    exact absurd hle (by decide)
  rw [List.cons_append] at hlength ⊢
  rw [Parser.loop, if_neg h0, Parser.step, if_neg (fun h => h.elim h123 h91),
    if_neg (fun h => h.elim h125 h93), if_neg h34, if_neg (by simp [h9, h13, h10, h32]),
    if_neg h58, if_neg h44, hlength]
  simp only [Option.bind_eq_bind, Option.bind_some]
  cases s.put numTokens ⟨.primitive, pos, some (pos + (d :: text).length), 0⟩ with
  | none => rfl
  | some s =>
    simp only [Option.bind_some]
    refine (loop_skip text (c :: rest)).trans ?_
    congr 1
    simp only [List.length_cons]
    omega

/-- Where the name of a member is, when the member is written from `pos` on. -/
def nameSpan (pos : Nat) (m : Json.Written) : Span where
  start := pos + m.before.length + 1
  stop := pos + m.before.length + 1 + m.name.length

/-- Where its value is. -/
def valuePos (pos : Nat) (m : Json.Written) : Nat :=
  pos + m.before.length + m.name.length + m.beforeColon.length + m.afterColon.length + 3

/-- The value that is written from `pos` on. -/
def scalarNode (pos : Nat) : Json.Scalar → Node
  | .string body => .string ⟨pos + 1, pos + 1 + body.length⟩
  | .literal text => .primitive ⟨pos, pos + text.length⟩

/-- The members that are written from `pos` on. -/
def locate : (pos : Nat) → List Json.Written → List (Span × Node)
  | _, [] => []
  | pos, m :: rest =>
    (nameSpan pos m, scalarNode (valuePos pos m) m.value) :: locate (pos + m.text.length + 1) rest

theorem length_locate (written : List Json.Written) : (locate pos written).length =
    written.length := by
  induction written generalizing pos with
  | nil => rfl
  | cons m written ih => rw [locate, List.length_cons, ih, List.length_cons]

/-- A token whose end is reached. -/
def closed (t : Token) : Tok := ⟨t.type, t.start, some t.stop, t.size⟩

/-! ## Members -/

theorem lastIndex_none {p : Tok → Bool} {toks : List Tok} (h : ∀ t ∈ toks, p t = false) :
    lastIndex p toks = none := by
  induction toks with
  | nil => rfl
  | cons t toks ih =>
    rw [lastIndex, ih fun u hu => h u (List.mem_cons_of_mem t hu)]
    simp only
    rw [if_neg (by rw [h t List.mem_cons_self]; exact Bool.false_ne_true)]

/-- The root is the last one with a property that no other token has. -/
theorem lastIndex_root {p : Tok → Bool} (hroot : p root = true) (h : ∀ t ∈ toks, p t = false) :
    lastIndex p (root :: toks) = some 0 := by
  rw [lastIndex, lastIndex_none h]
  simp only
  rw [if_pos hroot]

/-- A scalar inside the object itself. -/
theorem put_root (tok : Tok) (root : Tok) (toks : List Tok) :
    Parser.put numTokens tok ⟨root :: toks, some 0⟩ =
      if toks.length + 1 < numTokens then
        some ⟨{ root with size := root.size + 1 } :: (toks ++ [tok]), some 0⟩
      else none := rfl

/-- A scalar behind a name. -/
theorem put_name (tok name : Tok) (root : Tok) (toks : List Tok) :
    Parser.put numTokens tok ⟨root :: (toks ++ [name]), some (toks.length + 1)⟩ =
      if toks.length + 2 < numTokens then
        some ⟨root :: (toks ++ [{ name with size := name.size + 1 }, tok]), some (toks.length + 1)⟩
      else none := by
  have hmodify : (toks ++ [name, tok]).modify toks.length
      (fun t => { t with size := t.size + 1 }) =
        toks ++ [{ name with size := name.size + 1 }, tok] := by
    rw [List.modify_eq_take_drop, List.take_left, List.drop_left]
    rfl
  simp only [Parser.put, Parser.child, List.length_cons, List.length_append, List.length_nil,
    List.modify_succ_cons, List.cons_append, List.append_assoc, List.nil_append, hmodify]

theorem scalar_bytes {v : Json.Value} {value : Json.Scalar} (h : value.Reads v)
    (hc : isDelimiter c = true) (rest : List UInt8) :
    s.loop numTokens (value.text ++ c :: rest) pos 0 =
      (s.put numTokens (closed (scalarNode pos value).head)).bind fun s =>
        s.loop numTokens (c :: rest) (pos + value.text.length) 0 := by
  cases h with
  | @string _ body h =>
    have htext : (Json.Scalar.string body).text ++ c :: rest = 34 :: (body ++ 34 :: c :: rest) := by
      simp [Json.Scalar.text]
    have hlen : (Json.Scalar.string body).text.length = body.length + 2 := by
      simp [Json.Scalar.text]
    rw [htext, hlen, loop_string (by rw [h]; rfl)]
    rfl
  | literal h =>
    obtain ⟨hne, hbytes⟩ := Json.literal_bytes h
    exact loop_literal (fun c hc => primitive_of_literal c (hbytes c hc)) hne hc rest

/-- A literal may end before white space, too. -/
theorem delimiter_behind {after : List UInt8} (h : Json.White after) (hc : isDelimiter c = true)
    (rest : List UInt8) : ∃ d tail, after ++ c :: rest = d :: tail ∧ isDelimiter d = true := by
  cases after with
  | nil => exact ⟨c, rest, rfl, hc⟩
  | cons d after =>
    refine ⟨d, after ++ c :: rest, rfl, ?_⟩
    have hd : d = 32 ∨ d = 9 ∨ d = 10 ∨ d = 13 := by
      simpa [Json.isWhite] using h d List.mem_cons_self
    rcases hd with rfl | rfl | rfl | rfl <;> rfl

/-- **A member of the object** takes two tokens. -/
theorem loop_member {m : Json.Written} {member : List UInt8 × Json.Value} (hm : m.Reads member)
    (hc : isDelimiter c = true) (rest : List UInt8) :
    Parser.loop numTokens (m.text ++ c :: rest) pos 0 ⟨root :: toks, some 0⟩ =
      if toks.length + 2 < numTokens then
        Parser.loop numTokens (c :: rest) (pos + m.text.length) 0
          ⟨{ root with size := root.size + 1 } ::
            (toks ++ [closed ((nameSpan pos m).token .string 1),
              closed (scalarNode (valuePos pos m) m.value).head]), some (toks.length + 1)⟩
      else none := by
  have htext : m.text ++ c :: rest = m.before ++ (34 :: (m.name ++ 34 :: (m.beforeColon ++
      58 :: (m.afterColon ++ (m.value.text ++ (m.after ++ c :: rest)))))) := by
    simp [Json.Written.text]
  have hlen : pos + m.text.length = valuePos pos m + m.value.text.length + m.after.length := by
    simp only [Json.Written.text, valuePos, List.length_append, List.length_cons]
    omega
  obtain ⟨d, tail, hafter, hd⟩ := delimiter_behind hm.after hc rest
  rw [htext, loop_white hm.before, loop_string (by rw [hm.name]; rfl), put_root]
  by_cases hname : toks.length + 1 < numTokens
  · rw [if_pos hname, Option.bind_some, loop_white hm.beforeColon]
    -- the colon
    rw [Parser.loop, if_neg (by decide)]
    have hcolon : ∀ (s : Parser) (p : Nat) (tail : List UInt8),
        s.step numTokens p 58 tail = some (s.colon, 0) := fun _ _ _ => rfl
    rw [hcolon]
    simp only
    rw [loop_white hm.afterColon, hafter, scalar_bytes hm.value hd, ← hafter]
    have hsuper : Parser.colon ⟨{ root with size := root.size + 1 } ::
        (toks ++ [⟨.string, pos + m.before.length + 1,
          some (pos + m.before.length + 1 + m.name.length), 0⟩]), some 0⟩ =
        ⟨{ root with size := root.size + 1 } ::
        (toks ++ [⟨.string, pos + m.before.length + 1,
          some (pos + m.before.length + 1 + m.name.length), 0⟩]), some (toks.length + 1)⟩ := by
      simp [Parser.colon]
    have hpos : pos + m.before.length + m.name.length + 2 + m.beforeColon.length + 1 +
        m.afterColon.length = valuePos pos m := by
      rw [valuePos]
      omega
    rw [hsuper, hpos, put_name]
    by_cases hvalue : toks.length + 2 < numTokens
    · rw [if_pos hvalue, if_pos hvalue, Option.bind_some, loop_white hm.after, hlen]
      rfl
    · rw [if_neg hvalue, if_neg hvalue]
      rfl
  · rw [if_neg hname, if_neg (by omega)]
    rfl

/-! ## Flat objects -/

theorem scalarNode_tokens (value : Json.Scalar) :
    (scalarNode pos value).tokens = [(scalarNode pos value).head] := by
  cases value <;> rw [scalarNode, Node.tokens] <;> rfl

theorem closed_pair (hclosed : ∀ t ∈ toks, t.isOpen = false) (name value : Token) :
    ∀ t ∈ toks ++ [closed name, closed value], t.isOpen = false := by
  intro t ht
  rcases List.mem_append.mp ht with ht | ht
  · exact hclosed t ht
  · rcases List.mem_pair.mp ht with rfl | rfl <;> rfl

/-- A comma leads back to the object. -/
theorem loop_comma (htype : root.type = .object) (hopen : root.isOpen = true)
    (hclosed : ∀ t ∈ toks, t.isOpen = false) (name : Span) (value : Token) (rest : List UInt8) :
    Parser.loop numTokens (44 :: rest) pos 0
      ⟨root :: (toks ++ [closed (name.token .string 1), closed value]), some (toks.length + 1)⟩ =
    Parser.loop numTokens rest (pos + 1) 0
      ⟨root :: (toks ++ [closed (name.token .string 1), closed value]), some 0⟩ := by
  have hstep : ∀ s : Parser, s.step numTokens pos 44 rest = some (s.comma, 0) := fun _ => rfl
  have hname : (root :: (toks ++ [closed (name.token .string 1), closed value]))[toks.length + 1]? =
      some (closed (name.token .string 1)) := by
    simp
  have hlast : lastIndex (fun t => t.isContainer && t.isOpen)
      (root :: (toks ++ [closed (name.token .string 1), closed value])) = some 0 := by
    apply lastIndex_root
    · rw [hopen, Bool.and_true, Tok.isContainer, htype]
      rfl
    · intro t ht
      rw [closed_pair hclosed _ _ t ht, Bool.and_false]
  have hstring : (some (closed (name.token .string 1))).any Tok.isContainer = false := rfl
  rw [Parser.loop, if_neg (by decide), hstep]
  simp only [Parser.comma, hname, hlast, hstring]
  rfl

/-- The brace ends the object. -/
theorem loop_brace (htype : root.type = .object) (hopen : root.isOpen = true)
    (hclosed : ∀ t ∈ toks, t.isOpen = false) (super : Option Nat) :
    Parser.loop numTokens [125] pos 0 ⟨root :: toks, super⟩ =
      some ⟨{ root with stop := some (pos + 1) } :: toks, none⟩ := by
  have hstep : ∀ s : Parser, s.step numTokens pos 125 [] = (s.closing .object pos).map (·, 0) :=
    fun _ => rfl
  have hclosing : Parser.closing .object pos ⟨root :: toks, super⟩ =
      some ⟨{ root with stop := some (pos + 1) } :: toks, none⟩ := by
    have hfirst : ((root :: toks)[0]?).map Tok.type = some .object := congrArg some htype
    simp only [Parser.closing, lastIndex_root hopen hclosed, hfirst, if_true]
    rfl
  rw [Parser.loop, if_neg (by decide), hstep, hclosing]
  rfl

/-- **The members of a flat object**, up to its brace. -/
theorem loop_members {m : Json.Written} {written : List Json.Written}
    {members : List (List UInt8 × Json.Value)}
    (h : List.Forall₂ Json.Written.Reads (m :: written) members) (htype : root.type = .object)
    (hopen : root.isOpen = true) (hclosed : ∀ t ∈ toks, t.isOpen = false) :
    Parser.loop numTokens (Json.flatMembers (m :: written) ++ [125]) pos 0 ⟨root :: toks, some 0⟩ =
      if toks.length + 2 * (written.length + 1) < numTokens then
        some ⟨{ root with
            stop := some (pos + (Json.flatMembers (m :: written)).length + 1)
            size := root.size + (written.length + 1) } ::
          (toks ++ (memberTokens (locate pos (m :: written))).map closed), none⟩
      else none := by
  induction written generalizing m members root toks pos with
  | nil =>
    obtain ⟨member, _, hm, -, rfl⟩ := List.forall₂_cons_left_iff.mp h
    rw [Json.flatMembers, loop_member hm rfl]
    by_cases hroom : toks.length + 2 < numTokens
    · rw [if_pos hroom, if_pos (by simpa using hroom),
        loop_brace (by exact htype) (by exact hopen) (closed_pair hclosed _ _)]
      simp [locate, memberTokens, scalarNode_tokens]
    · rw [if_neg hroom, if_neg (by simpa using hroom)]
  | cons m' written ih =>
    obtain ⟨member, members, hm, hrest, rfl⟩ := List.forall₂_cons_left_iff.mp h
    have htext : Json.flatMembers (m :: m' :: written) ++ [125] =
        m.text ++ 44 :: (Json.flatMembers (m' :: written) ++ [125]) := by
      rw [Json.flatMembers, List.append_assoc, List.cons_append]
    rw [htext, loop_member hm rfl]
    by_cases hroom : toks.length + 2 < numTokens
    · rw [if_pos hroom, loop_comma (by exact htype) (by exact hopen) hclosed,
        ih hrest (by exact htype) (by exact hopen) (closed_pair hclosed _ _)]
      have hmembers : memberTokens (locate pos (m :: m' :: written)) =
          (nameSpan pos m).token .string 1 :: (scalarNode (valuePos pos m) m.value).head ::
            memberTokens (locate (pos + m.text.length + 1) (m' :: written)) := by
        rw [locate, memberTokens, scalarNode_tokens]
        rfl
      have hstop : pos + (Json.flatMembers (m :: m' :: written)).length + 1 =
          pos + m.text.length + 1 + (Json.flatMembers (m' :: written)).length + 1 := by
        rw [Json.flatMembers, List.length_append, List.length_cons]
        omega
      have hsize : root.size + 1 + (written.length + 1) =
          root.size + ((m' :: written).length + 1) := by
        rw [List.length_cons]
        omega
      rw [hmembers, hstop, ← hsize, List.length_append]
      by_cases hall : toks.length + 2 * ((m' :: written).length + 1) < numTokens
      · rw [if_pos hall, if_pos (by simp only [List.length_cons, List.length_nil] at hall ⊢; omega)]
        simp
      · rw [if_neg hall, if_neg (by simp only [List.length_cons, List.length_nil] at hall ⊢; omega)]
    · rw [if_neg hroom, if_neg (by rw [List.length_cons]; omega)]

/-- **`jsmn_parse` on a flat object**: a token for the object, each name and each value, if there
are so many. -/
theorem parse_flat {written : List Json.Written} {members : List (List UInt8 × Json.Value)}
    (h : List.Forall₂ Json.Written.Reads written members) (hne : written ≠ []) :
    parse numTokens (Json.flatText written) =
      if 2 * written.length < numTokens then
        some (Node.object ⟨0, (Json.flatText written).length⟩ (locate 1 written)).tokens
      else none := by
  obtain ⟨m, written, rfl⟩ := List.exists_cons_of_ne_nil hne
  have hstep : ∀ rest, Parser.step numTokens 0 123 rest ⟨[], none⟩ =
      (Parser.opening numTokens .object 0 ⟨[], none⟩).map (·, 0) := fun _ => rfl
  rw [parse, Json.flatText, Parser.loop, if_neg (by decide), hstep]
  by_cases hroom : 0 < numTokens
  · have hopening : Parser.opening numTokens .object 0 ⟨[], none⟩ =
        some ⟨[⟨.object, 0, none, 0⟩], some 0⟩ := by
      simp only [Parser.opening, Parser.put]
      rw [if_pos (by simpa using hroom)]
      rfl
    rw [hopening, Option.map_some]
    simp only
    rw [loop_members h rfl rfl (by simp)]
    simp only [List.length_nil, Nat.zero_add, List.nil_append]
    by_cases hall : 2 * (written.length + 1) < numTokens
    · have hclosed : ∀ tokens : List Token, (tokens.map closed).any Tok.isOpen = false := by
        intro tokens
        rw [List.any_map]
        exact List.any_eq_false.mpr fun _ _ => Bool.false_ne_true
      have hback : ∀ tokens : List Token, (tokens.map closed).map
          (fun t => (⟨t.type, t.start, t.stop.getD 0, t.size⟩ : Token)) = tokens := by
        intro tokens
        rw [List.map_map]
        exact List.map_id tokens
      have hstop : (123 :: (Json.flatMembers (m :: written) ++ [125])).length =
          1 + (Json.flatMembers (m :: written)).length + 1 := by
        rw [List.length_cons, List.length_append, List.length_singleton]
        omega
      rw [if_pos hall, if_pos (by simpa using hall), Node.tokens, length_locate, hstop]
      simp only [List.any_cons, hclosed, List.map_cons, hback]
      rfl
    · rw [if_neg hall, if_neg (by simpa using hall)]
  · have hopening : Parser.opening numTokens .object 0 ⟨[], none⟩ = none := by
      simp only [Parser.opening, Parser.put]
      rw [if_neg (by simpa using hroom)]
      rfl
    rw [hopening, if_neg (by omega)]
    rfl

/-! ## The tokens lie in the text -/

/-- The range of a token so far: it begins before `pos`, and a string ends at a quote. A container
has no end yet while the parser is inside it. -/
structure Tok.Inside (json : List UInt8) (pos : Nat) (t : Tok) : Prop where
  start : t.start ≤ pos
  stop : ∀ e ∈ t.stop, t.start ≤ e ∧ e ≤ json.length ∧ (t.type = .string → json[e]? = some 34)
  string : t.type = .string → t.stop.isSome

variable {json front : List UInt8} {s' : Parser}

theorem Tok.Inside.later {t : Tok} (h : t.Inside json pos) : t.Inside json (pos + 1) :=
  { h with start := Nat.le_succ_of_le h.start }

theorem forall_mem_modify {P : Tok → Prop} {f : Tok → Tok} {tokens : List Tok} {i : Nat}
    (h : ∀ t ∈ tokens, P t) (hf : ∀ t, tokens[i]? = some t → P (f t)) :
    ∀ t ∈ tokens.modify i f, P t := by
  intro t ht
  obtain ⟨j, hj⟩ := List.mem_iff_getElem?.mp ht
  rw [List.getElem?_modify] at hj
  obtain ⟨u, hget, rfl⟩ := Option.map_eq_some_iff.mp hj
  split
  · rename_i hij
    exact hf u (hij ▸ hget)
  · exact h u (List.mem_of_getElem? hget)

/-- Counting a child changes no range. -/
theorem inside_child (h : ∀ t ∈ s.tokens, t.Inside json pos) :
    ∀ t ∈ s.child.tokens, t.Inside json pos := by
  rw [Parser.child]
  cases s.toksuper with
  | none => exact h
  | some i =>
    refine forall_mem_modify h fun t ht => ?_
    have hin := h t (List.mem_of_getElem? ht)
    exact ⟨hin.start, hin.stop, hin.string⟩

theorem inside_put {tok : Tok} (h : ∀ t ∈ s.tokens, t.Inside json pos)
    (htok : tok.Inside json pos) (hput : s.put numTokens tok = some s') :
    ∀ t ∈ s'.tokens, t.Inside json pos := by
  rw [Parser.put] at hput
  split at hput
  · obtain rfl := Option.some.inj hput
    refine inside_child fun t ht => ?_
    rcases List.mem_append.mp ht with ht | ht
    · exact h t ht
    · rw [List.mem_singleton.mp ht]
      exact htok
  · cases hput

theorem inside_closing {type : TokenType} (hpos : pos < json.length) (htype : type ≠ .string)
    (h : ∀ t ∈ s.tokens, t.Inside json pos) (hclosing : s.closing type pos = some s') :
    ∀ t ∈ s'.tokens, t.Inside json pos := by
  rw [Parser.closing] at hclosing
  split at hclosing
  · cases hclosing
  · rename_i i hi
    split at hclosing
    · rename_i hsame
      obtain rfl := Option.some.inj hclosing
      refine forall_mem_modify h fun t ht => ?_
      have hin := h t (List.mem_of_getElem? ht)
      rw [ht, Option.map_some, Option.some.injEq] at hsame
      refine ⟨hin.start, ?_, fun hs => absurd (hsame.symm.trans hs) htype⟩
      rintro e he
      obtain rfl := Option.some.inj he
      exact ⟨Nat.le_succ_of_le hin.start, hpos, fun hs => absurd (hsame.symm.trans hs) htype⟩
    · cases hclosing

theorem stringLength_quote {n : Nat} (h : stringLength rest = some n) : rest[n]? = some 34 := by
  fun_induction stringLength rest generalizing n with
  | case1 => cases h
  | case2 a b c d rest hhex ih =>
    obtain ⟨m, hm, rfl⟩ := Option.map_eq_some_iff.mp h
    simpa using ih hm
  | case3 => cases h
  | case4 e rest hne he ih =>
    obtain ⟨m, hm, rfl⟩ := Option.map_eq_some_iff.mp h
    simpa using ih hm
  | case5 => cases h
  | case6 => cases h
  | case7 rest hne hne' h0 =>
    obtain rfl := Option.some.inj h
    rfl
  | case8 c rest hne hne' h0 hq ih =>
    obtain ⟨m, hm, rfl⟩ := Option.map_eq_some_iff.mp h
    simpa using ih hm

theorem primitiveLength_le {n : Nat} (h : primitiveLength rest = some n) : n ≤ rest.length := by
  induction rest generalizing n with
  | nil =>
    obtain rfl := Option.some.inj h
    exact Nat.le_refl _
  | cons c rest ih =>
    rw [primitiveLength] at h
    split at h
    · obtain rfl := Option.some.inj h
      exact Nat.zero_le _
    · split at h
      · cases h
      · obtain ⟨m, hm, rfl⟩ := Option.map_eq_some_iff.mp h
        exact Nat.succ_le_succ (ih hm)

/-- One round keeps the ranges in the text. -/
theorem inside_step {skip : Nat} (hjson : json = front ++ c :: rest) (hpos : pos = front.length)
    (h : ∀ t ∈ s.tokens, t.Inside json pos)
    (hstep : s.step numTokens pos c rest = some (s', skip)) :
    ∀ t ∈ s'.tokens, t.Inside json (pos + 1) := by
  have hlen : json.length = pos + rest.length + 1 := by
    rw [hjson, hpos, List.length_append, List.length_cons]
    omega
  have hlater : ∀ t ∈ s.tokens, t.Inside json (pos + 1) := fun t ht => (h t ht).later
  have hkind : ∀ a b : TokenType, a ≠ .string → b ≠ .string → ∀ p : Prop, ∀ [Decidable p],
      (if p then a else b) ≠ .string := by
    intro a b ha hb p _
    split
    · exact ha
    · exact hb
  rw [Parser.step] at hstep
  split at hstep
  · -- an opening bracket
    obtain ⟨u, hopening, hpair⟩ := Option.map_eq_some_iff.mp hstep
    obtain ⟨w, hput, rfl⟩ := Option.map_eq_some_iff.mp hopening
    obtain ⟨rfl, -⟩ := Prod.mk.inj hpair
    have hin : ∀ t ∈ w.tokens, t.Inside json (pos + 1) := by
      refine inside_put hlater ⟨Nat.le_succ pos, fun e he => ?_, fun hs => ?_⟩ hput
      · cases he
      · exact absurd hs (hkind _ _ (by decide) (by decide) _)
    exact hin
  split at hstep
  · -- a closing bracket
    obtain ⟨u, hclosing, hpair⟩ := Option.map_eq_some_iff.mp hstep
    obtain ⟨rfl, -⟩ := Prod.mk.inj hpair
    exact fun t ht => (inside_closing (by omega) (hkind _ _ (by decide) (by decide) _) h hclosing
      t ht).later
  split at hstep
  · -- a string
    obtain ⟨n, hn, hstep⟩ := Option.bind_eq_some_iff.mp hstep
    obtain ⟨u, hput, hpair⟩ := Option.bind_eq_some_iff.mp hstep
    obtain ⟨rfl, -⟩ := Prod.mk.inj (Option.some.inj hpair)
    have hquote := stringLength_quote hn
    have hlt : n < rest.length := (List.getElem?_eq_some_iff.mp hquote).1
    refine inside_put hlater ⟨Nat.le_refl _, fun e he => ?_, fun _ => rfl⟩ hput
    obtain rfl := Option.some.inj he
    refine ⟨Nat.le_add_right _ _, by omega, fun _ => ?_⟩
    rw [hjson, List.getElem?_append_right (by omega),
      show pos + 1 + n - front.length = n + 1 by omega, List.getElem?_cons_succ]
    exact hquote
  split at hstep
  · obtain ⟨rfl, -⟩ := Prod.mk.inj (Option.some.inj hstep)
    exact hlater
  split at hstep
  · obtain ⟨rfl, -⟩ := Prod.mk.inj (Option.some.inj hstep)
    exact hlater
  split at hstep
  · obtain ⟨rfl, -⟩ := Prod.mk.inj (Option.some.inj hstep)
    have hcomma : s.comma.tokens = s.tokens := by
      rw [Parser.comma]
      split
      · rfl
      · split
        · rfl
        · split <;> rfl
    rw [hcomma]
    exact hlater
  · -- a primitive
    obtain ⟨n, hn, hstep⟩ := Option.bind_eq_some_iff.mp hstep
    obtain ⟨u, hput, hpair⟩ := Option.bind_eq_some_iff.mp hstep
    obtain ⟨rfl, -⟩ := Prod.mk.inj (Option.some.inj hpair)
    have hle := primitiveLength_le hn
    rw [List.length_cons] at hle
    have hkind : TokenType.primitive ≠ .string := by decide
    refine inside_put hlater ⟨Nat.le_succ pos, fun e he => ?_, fun hs => absurd hs hkind⟩ hput
    obtain rfl := Option.some.inj he
    exact ⟨Nat.le_add_right _ _, by omega, fun hs => absurd hs hkind⟩

/-- The loop keeps the ranges in the text. -/
theorem inside_loop {skip : Nat} (hjson : json = front ++ rest) (hpos : pos = front.length)
    (h : ∀ t ∈ s.tokens, t.Inside json pos)
    (hloop : s.loop numTokens rest pos skip = some s') :
    ∀ t ∈ s'.tokens, t.Inside json json.length := by
  induction rest generalizing front pos skip s with
  | nil =>
    obtain rfl := Option.some.inj hloop
    rw [hpos] at h
    rw [hjson, List.append_nil]
    rwa [hjson, List.append_nil] at h
  | cons c rest ih =>
    have hbehind : json = (front ++ [c]) ++ rest := by
      rw [hjson, List.append_assoc]
      rfl
    have hlength : pos + 1 = (front ++ [c]).length := by
      rw [hpos, List.length_append, List.length_singleton]
    have hle : pos ≤ json.length := by
      rw [hjson, hpos, List.length_append]
      exact Nat.le_add_right _ _
    cases skip with
    | succ skip => exact ih hbehind hlength (fun t ht => (h t ht).later) hloop
    | zero =>
      rw [Parser.loop] at hloop
      split at hloop
      · obtain rfl := Option.some.inj hloop
        exact fun t ht => { h t ht with start := (h t ht).start.trans hle }
      · cases hstep : s.step numTokens pos c rest with
        | none =>
          rw [hstep] at hloop
          cases hloop
        | some p =>
          rw [hstep] at hloop
          exact ih hbehind hlength (inside_step hjson hpos h hstep) hloop

/-- **Every token lies in the text**, and a string ends at a quote. This is what the rest of the
daemon relies on of `jsmn`, and it is proved of the parser itself. -/
theorem parse_inside {tokens : List Token} (h : parse numTokens json = some tokens) :
    ∀ tok ∈ tokens, tok.start ≤ tok.stop ∧ tok.stop ≤ json.length ∧
      (tok.type = .string → json[tok.stop]? = some 34) := by
  rw [parse] at h
  cases hloop : Parser.loop numTokens json 0 0 ⟨[], none⟩ with
  | none =>
    rw [hloop] at h
    cases h
  | some s =>
    rw [hloop] at h
    simp only at h
    split at h
    · cases h
    · rename_i hclosed
      obtain rfl := Option.some.inj h
      intro tok htok
      obtain ⟨t, ht, rfl⟩ := List.mem_map.mp htok
      have hempty : ∀ u ∈ ([] : List Tok), u.Inside json 0 := fun _ hu => absurd hu List.not_mem_nil
      have hin := inside_loop (List.nil_append json).symm rfl hempty hloop t ht
      cases hstop : t.stop with
      | none =>
        refine absurd (List.any_eq_true.mpr ⟨t, ht, ?_⟩) hclosed
        rw [Tok.isOpen, hstop]
        rfl
      | some e => exact hin.stop e hstop

end SocketHandoff.Uring.Jsmn
