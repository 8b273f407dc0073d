import SocketHandoff.Lib.JsonText
import SocketHandoff.Go.Encode

/-!
# Compacting

What `encoding/json` writes for a raw message: the text without its white space, and with the
characters of HTML escaped. Its value is that of the text.
-/

namespace SocketHandoff.Go

open Json

/-- What `appendCompact` writes for a byte within a string. -/
def htmlByte (c : UInt8) : List UInt8 :=
  if c = 60 ∨ c = 62 ∨ c = 38 then [92, 117, 48, 48, hexDigit (c >>> 4), hexDigit (c &&& 15)]
  else [c]

/-- `appendCompact`, which escapes the characters of HTML in the strings and leaves out the white
space between them. -/
def compactText : (inString : Bool) → List UInt8 → List UInt8
  | _, [] => []
  | false, c :: src => if isWhite c then compactText false src else c :: compactText (c = 34) src
  | true, 92 :: c :: src => 92 :: c :: compactText true src
  | true, 0xE2 :: 0x80 :: 0xA8 :: src => ascii "\\u2028" ++ compactText true src
  | true, 0xE2 :: 0x80 :: 0xA9 :: src => ascii "\\u2029" ++ compactText true src
  | true, c :: src => htmlByte c ++ compactText (c ≠ 34) src

/-- What becomes of the text between the quotes of a string. -/
def htmlText : List UInt8 → List UInt8
  | [] => []
  | 92 :: c :: text => 92 :: c :: htmlText text
  | 0xE2 :: 0x80 :: 0xA8 :: text => ascii "\\u2028" ++ htmlText text
  | 0xE2 :: 0x80 :: 0xA9 :: text => ascii "\\u2029" ++ htmlText text
  | c :: text => htmlByte c ++ htmlText text

attribute [grind =] compactText htmlText

/-! ## Strings -/

theorem readString_cons_iff {c : UInt8} {text body rest : List UInt8} (h34 : c ≠ 34)
    (h92 : c ≠ 92) :
    readString (c :: text) = some (c :: body, rest) ↔ readString text = some (body, rest) := by
  rw [readString_cons h34 h92]
  constructor
  · intro h
    obtain ⟨p, hp, heq⟩ := Option.map_eq_some_iff.mp h
    obtain ⟨hbody, rfl⟩ := Prod.mk.inj heq
    obtain rfl := (List.cons.inj hbody).2
    exact hp
  · intro h
    rw [h]
    rfl

/-- The string ends where it ended. -/
theorem compactText_string {body rest : List UInt8}
    (h : readString (body ++ 34 :: rest) = some (body, rest)) :
    compactText true (body ++ 34 :: rest) = htmlText body ++ 34 :: compactText false rest := by
  fun_induction htmlText body with
  | case1 => simp [compactText, htmlByte]
  | case2 c text ih =>
    have htext : readString (text ++ 34 :: rest) = some (text, rest) := by
      simp only [List.cons_append, readString] at h
      obtain ⟨p, hp, heq⟩ := Option.bind_eq_some_iff.mp h
      obtain ⟨hbody, rfl⟩ := Prod.mk.inj (Option.some.inj heq)
      obtain rfl := (List.cons.inj (List.cons.inj hbody).2).2
      exact hp
    simp only [List.cons_append, compactText, ih htext]
  | case3 text ih =>
    simp only [List.cons_append] at h
    rw [readString_cons_iff (by decide) (by decide), readString_cons_iff (by decide) (by decide),
      readString_cons_iff (by decide) (by decide)] at h
    simp only [List.cons_append, compactText, ih h, List.append_assoc]
  | case4 text ih =>
    simp only [List.cons_append] at h
    rw [readString_cons_iff (by decide) (by decide), readString_cons_iff (by decide) (by decide),
      readString_cons_iff (by decide) (by decide)] at h
    simp only [List.cons_append, compactText, ih h, List.append_assoc]
  | case5 c text hescape h2028 h2029 ih =>
    rw [List.cons_append] at h ⊢
    have h34 : c ≠ 34 := by
      rintro rfl
      rw [readString] at h
      cases h
    have h92 : c ≠ 92 := by
      rintro rfl
      cases text with
      | nil =>
        simp only [List.nil_append, readString] at h
        obtain ⟨p, hp, heq⟩ := Option.bind_eq_some_iff.mp h
        cases heq
      | cons d text => exact hescape d text rfl rfl
    rw [readString_cons_iff h34 h92] at h
    -- the three bytes of a character are not cut by the quote
    have hwhole : ∀ d src, d ≠ 34 → text ++ 34 :: rest = 128 :: d :: src →
        ∃ text', text = 128 :: d :: text' := by
      rintro d src hd heq
      rcases text with _ | ⟨a, _ | ⟨b, text⟩⟩
      · cases heq
      · exact absurd (List.cons.inj (List.cons.inj heq).2).1.symm hd
      · obtain ⟨ha, htail⟩ := List.cons.inj heq
        obtain ⟨hb, -⟩ := List.cons.inj htail
        exact ⟨text, by rw [ha, hb]⟩
    rw [compactText.eq_6]
    · have hin : decide (c ≠ 34) = true := by simp [h34]
      rw [hin, ih h, List.append_assoc]
    · exact fun d src hc => absurd hc h92
    · rintro src hc heq
      obtain ⟨text', htext'⟩ := hwhole 168 src (by decide) heq
      exact h2028 text' hc htext'
    · rintro src hc heq
      obtain ⟨text', htext'⟩ := hwhole 169 src (by decide) heq
      exact h2029 text' hc htext'

/-- Pieces that stand for the same, whatever is before them. -/
def SamePieces (ps qs : List Piece) : Prop :=
  joined ps = joined qs ∧ ∀ u, joined (.code u :: ps) = joined (.code u :: qs)

theorem SamePieces.refl (ps : List Piece) : SamePieces ps ps := ⟨rfl, fun _ => rfl⟩

theorem joined_code_byte (u : Nat) (b : UInt8) (ps : List Piece) :
    joined (.code u :: .byte b :: ps) = encode u ++ b :: joined ps := by
  rw [joined.eq_4 u _ (by simp), joined]

theorem joined_code_unit {v : Nat} (hv : v < 0xD800) (u : Nat) (ps : List Piece) :
    joined (.code u :: .code v :: ps) = encode u ++ (encode v ++ joined ps) := by
  have hpair : isPair u v = false := by
    simp [isPair]
    omega
  rw [joined, hpair, joined_unit hv]
  rfl

theorem SamePieces.byte {ps qs : List Piece} (h : SamePieces ps qs) (b : UInt8) :
    SamePieces (.byte b :: ps) (.byte b :: qs) := by
  refine ⟨?_, fun u => ?_⟩
  · rw [joined, joined, h.1]
  · rw [joined_code_byte, joined_code_byte, h.1]

theorem SamePieces.code {ps qs : List Piece} (h : SamePieces ps qs) (u : Nat) :
    SamePieces (.code u :: ps) (.code u :: qs) := by
  refine ⟨h.2 u, fun hi => ?_⟩
  rw [joined, joined, h.1, h.2 u]

/-- Bytes may be written as the escape of their character. -/
theorem SamePieces.unit {ps qs : List Piece} {v : Nat} {b : UInt8} (hv : v < 0xD800)
    (h : encode v ++ joined qs = b :: joined ps) : SamePieces (.code v :: qs) (.byte b :: ps) := by
  refine ⟨?_, fun u => ?_⟩
  · rw [joined_unit hv, joined, h]
  · rw [joined_code_unit hv, joined_code_byte, h]

theorem hexValue_html : ∀ c : UInt8, (hexValue c).isSome →
    c ≠ 92 ∧ c ≠ 0xE2 ∧ c ≠ 60 ∧ c ≠ 62 ∧ c ≠ 38 := forall_byte (by decide +kernel)

theorem htmlText_cons {c : UInt8} {text : List UInt8}
    (h : c ≠ 92 ∧ c ≠ 0xE2 ∧ c ≠ 60 ∧ c ≠ 62 ∧ c ≠ 38) :
    htmlText (c :: text) = c :: htmlText text := by
  obtain ⟨h92, hE2, h60, h62, h38⟩ := h
  rw [htmlText.eq_5 c text (fun _ _ hc => absurd hc h92) (fun _ hc => absurd hc hE2)
    (fun _ hc => absurd hc hE2)]
  simp [htmlByte, h60, h62, h38]

/-- A line separator, or a paragraph separator, is written as an escape. -/
theorem pieces_separator {a b c d e : UInt8} {v : Nat} {text : List UInt8} {ps : List Piece}
    (hunit : hexUnit a b c d = some v) (hv : v < 0xD800) (hencode : encode v = [0xE2, 0x80, e])
    (he : e = 0xA8 ∨ e = 0xA9)
    (ih : ∃ qs, pieces (htmlText (0x80 :: e :: text)) = some qs ∧ SamePieces qs ps) :
    ∃ qs, pieces (92 :: 117 :: a :: b :: c :: d :: htmlText text) = some qs ∧
      SamePieces qs (.byte 0xE2 :: ps) := by
  obtain ⟨qs, hqs, hsame⟩ := ih
  have hhtml : htmlText (0x80 :: e :: text) = 0x80 :: e :: htmlText text := by
    rcases he with rfl | rfl <;> rw [htmlText_cons (by decide), htmlText_cons (by decide)]
  have hplain : e ≠ 34 ∧ e ≠ 92 ∧ ¬ e < 32 := by
    rcases he with rfl | rfl <;> decide
  rw [hhtml, pieces_cons (by decide), pieces_cons hplain] at hqs
  obtain ⟨qs', hqs', rfl⟩ := Option.map_eq_some_iff.mp hqs
  obtain ⟨qs'', hqs'', rfl⟩ := Option.map_eq_some_iff.mp hqs'
  refine ⟨.code v :: qs'', by simp [pieces, hunit, hqs''], .unit hv ?_⟩
  rw [← hsame.1, joined, joined, hencode]
  rfl

/-- **Escaping leaves the value of a string as it is**: `<`, `>` and `&` are written as `\u`
escapes, and read back as themselves. -/
theorem pieces_htmlText {text : List UInt8} {ps : List Piece} (h : pieces text = some ps) :
    ∃ qs, pieces (htmlText text) = some qs ∧ SamePieces qs ps := by
  fun_induction pieces text generalizing ps with
  | case1 =>
    obtain rfl := Option.some.inj h
    exact ⟨[], rfl, .refl []⟩
  | case2 a b c d text ih =>
    obtain ⟨u, hu, htext⟩ := Option.bind_eq_some_iff.mp h
    obtain ⟨ps', hps', heq⟩ := Option.bind_eq_some_iff.mp htext
    obtain rfl := Option.some.inj heq
    obtain ⟨qs, hqs, hsame⟩ := ih hps'
    obtain ⟨ha, hb, hc, hd⟩ : (hexValue a).isSome ∧ (hexValue b).isSome ∧ (hexValue c).isSome ∧
        (hexValue d).isSome := by
      simp only [hexUnit, Option.bind_eq_bind, Option.bind_eq_some_iff] at hu
      obtain ⟨x, hx, y, hy, z, hz, w, hw, -⟩ := hu
      simp [hx, hy, hz, hw]
    -- the digits are not escaped
    have hdigits : htmlText (92 :: 117 :: a :: b :: c :: d :: text) =
        92 :: 117 :: a :: b :: c :: d :: htmlText text := by
      rw [htmlText, htmlText_cons (hexValue_html a ha), htmlText_cons (hexValue_html b hb),
        htmlText_cons (hexValue_html c hc), htmlText_cons (hexValue_html d hd)]
    refine ⟨.code u :: qs, ?_, hsame.code u⟩
    simp [hdigits, pieces, hu, hqs]
  | case3 c text hne ih =>
    obtain ⟨b, hb, htext⟩ := Option.bind_eq_some_iff.mp h
    obtain ⟨ps', hps', heq⟩ := Option.bind_eq_some_iff.mp htext
    obtain rfl := Option.some.inj heq
    obtain ⟨qs, hqs, hsame⟩ := ih hps'
    have hu : c ≠ 117 := by
      rintro rfl
      simp [escaped] at hb
    refine ⟨.byte b :: qs, ?_, hsame.byte b⟩
    rw [htmlText, pieces.eq_3 c _ (fun _ _ _ _ _ e => absurd e hu), hb, hqs]
    rfl
  | case4 => cases h
  | case5 c text hne hne' hc ih =>
    obtain ⟨ps', hps', rfl⟩ := Option.map_eq_some_iff.mp h
    have hplain : c ≠ 34 ∧ c ≠ 92 ∧ ¬ c < 32 :=
      ⟨fun e => hc (.inl e), fun e => hc (.inr (.inl e)), fun e => hc (.inr (.inr e))⟩
    by_cases h2028 : c = 0xE2 ∧ ∃ text', text = 0x80 :: 0xA8 :: text'
    · obtain ⟨rfl, text', rfl⟩ := h2028
      exact pieces_separator (v := 0x2028) rfl (by decide) rfl (.inl rfl) (ih hps')
    by_cases h2029 : c = 0xE2 ∧ ∃ text', text = 0x80 :: 0xA9 :: text'
    · obtain ⟨rfl, text', rfl⟩ := h2029
      exact pieces_separator (v := 0x2029) rfl (by decide) rfl (.inr rfl) (ih hps')
    obtain ⟨qs, hqs, hsame⟩ := ih hps'
    rw [htmlText.eq_5 c text (fun _ _ he => absurd he hplain.2.1)
      (fun text' hE2 htext => h2028 ⟨hE2, text', htext⟩)
      (fun text' hE2 htext => h2029 ⟨hE2, text', htext⟩), htmlByte]
    split
    · rename_i hhtml
      have hlt : c < 128 := by
        rcases hhtml with rfl | rfl | rfl <;> decide
      obtain ⟨hunit, hencode⟩ := hexUnit_hexDigit c hlt
      refine ⟨.code c.toNat :: qs, ?_, .unit (Nat.lt_trans c.toNat_lt (by decide)) ?_⟩
      · simp [pieces, hunit, hqs]
      · rw [hencode, hsame.1]
        rfl
    · refine ⟨.byte c :: qs, ?_, hsame.byte c⟩
      rw [List.singleton_append, pieces_cons hplain, hqs]
      rfl

theorem decode_htmlText {body s : List UInt8} (h : decode body = some s) :
    decode (htmlText body) = some s := by
  obtain ⟨ps, hps, rfl⟩ := Option.map_eq_some_iff.mp h
  obtain ⟨qs, hqs, hsame⟩ := pieces_htmlText hps
  rw [decode, hqs, ← hsame.1]
  rfl

/-! ## Values -/

theorem compactText_white {white : List UInt8} (h : White white) (rest : List UInt8) :
    compactText false (white ++ rest) = compactText false rest := by
  induction white with
  | nil => rfl
  | cons c white ih =>
    have hc : isWhite c = true := h c List.mem_cons_self
    rw [List.cons_append, compactText, if_pos hc, ih fun d hd => h d (List.mem_cons_of_mem c hd)]

theorem compactText_plain {text rest : List UInt8} (h : ∀ c ∈ text, isWhite c = false ∧ c ≠ 34) :
    compactText false (text ++ rest) = text ++ compactText false rest := by
  induction text with
  | nil => rfl
  | cons c text ih =>
    obtain ⟨hwhite, h34⟩ := h c List.mem_cons_self
    rw [List.cons_append, compactText, if_neg (by simp [hwhite]),
      decide_eq_false h34, ih fun d hd => h d (List.mem_cons_of_mem c hd), List.cons_append]

theorem compactText_cons {c : UInt8} {rest : List UInt8} (h : isWhite c = false ∧ c ≠ 34) :
    compactText false (c :: rest) = c :: compactText false rest := by
  rw [compactText, if_neg (by simp [h.1]), decide_eq_false h.2]

theorem compactText_quoted {body s : List UInt8} (h : decode body = some s) (rest : List UInt8) :
    compactText false (34 :: (body ++ 34 :: rest)) =
      34 :: (htmlText body ++ 34 :: compactText false rest) := by
  obtain ⟨ps, hps, -⟩ := Option.map_eq_some_iff.mp h
  have hquote : isWhite 34 = false := rfl
  rw [compactText, hquote, if_neg Bool.false_ne_true, decide_eq_true rfl,
    compactText_string (readString_quote hps)]

/-- A text is compacted to a text that is read as its value, whatever follows it. -/
def Compacts (text : List UInt8) (v : Value) : Prop :=
  ∃ t, Reads t v ∧ ∀ rest, compactText false (text ++ rest) = t ++ compactText false rest

theorem numberByte_plain : ∀ c : UInt8, isNumberByte c = true → isWhite c = false ∧ c ≠ 34 :=
  forall_byte (by decide +kernel)

theorem reads_numberText {q : ℚ} {text : List UInt8} (h : NumberText q text) :
    Reads text (.number q) := by
  obtain ⟨c, tail, rfl, hc⟩ := h.head
  rintro (_ | fuel) rest hfuel hrest
  · simp at hfuel
  · have hread := h.reads rest hrest.ends
    rw [List.cons_append] at hread ⊢
    rw [parseValue_number hc, hread]
    rfl

mutual

theorem compacts_text {v : Value} {text : List UInt8} (h : Text v text) : Compacts text v := by
  cases h with
  | null => exact ⟨_, reads_null, fun rest => compactText_plain (by decide +kernel)⟩
  | true => exact ⟨_, reads_true, fun rest => compactText_plain (by decide +kernel)⟩
  | false => exact ⟨_, reads_false, fun rest => compactText_plain (by decide +kernel)⟩
  | string h =>
    refine ⟨_, reads_string (decode_htmlText h), fun rest => ?_⟩
    rw [List.cons_append, List.append_assoc, List.singleton_append, compactText_quoted h]
    simp
  | number h =>
    exact ⟨_, reads_numberText h,
      fun rest => compactText_plain fun c hc => numberByte_plain c (h.bytes c hc)⟩
  | noElems hwhite =>
    refine ⟨_, reads_array .nil, fun rest => ?_⟩
    rw [List.cons_append, List.append_assoc, compactText_cons (by decide),
      compactText_white hwhite, List.singleton_append, compactText_cons (by decide)]
    simp
  | array hwhite helems hwhite' =>
    obtain ⟨texts, htexts, hcompact⟩ := compacts_elems helems
    refine ⟨_, reads_array htexts, fun rest => ?_⟩
    simp only [List.cons_append, List.append_assoc, List.nil_append]
    rw [compactText_cons (by decide), compactText_white hwhite, hcompact,
      compactText_white hwhite', compactText_cons (by decide)]
  | noMembers hwhite =>
    refine ⟨_, reads_object .nil, fun rest => ?_⟩
    rw [List.cons_append, List.append_assoc, compactText_cons (by decide),
      compactText_white hwhite, List.singleton_append, compactText_cons (by decide)]
    simp
  | object hwhite hmembers hwhite' =>
    obtain ⟨texts, htexts, hcompact⟩ := compacts_members hmembers
    refine ⟨_, reads_object htexts, fun rest => ?_⟩
    simp only [List.cons_append, List.append_assoc, List.nil_append]
    rw [compactText_cons (by decide), compactText_white hwhite, hcompact,
      compactText_white hwhite', compactText_cons (by decide)]

theorem compacts_elems {elems : List Value} {inner : List UInt8} (h : ElemsText elems inner) :
    ∃ texts, List.Forall₂ Reads texts elems ∧ ∀ rest, compactText false (inner ++ rest) =
      List.intercalate [44] texts ++ compactText false rest := by
  cases h with
  | one h =>
    obtain ⟨t, ht, hcompact⟩ := compacts_text h
    exact ⟨[t], .cons ht .nil, fun rest => by rw [hcompact, List.intercalate_singleton]⟩
  | more h hwhite hwhite' hrest =>
    obtain ⟨t, ht, hcompact⟩ := compacts_text h
    obtain ⟨texts, htexts, hcompacts⟩ := compacts_elems hrest
    refine ⟨t :: texts, .cons ht htexts, fun rest => ?_⟩
    simp only [List.append_assoc, List.cons_append]
    rw [hcompact, compactText_white hwhite, compactText_cons (by decide),
      compactText_white hwhite', hcompacts]
    rcases texts with _ | ⟨t', texts⟩
    · cases htexts
      cases hrest
    · rw [List.intercalate_cons_cons]
      simp

theorem compacts_members {members : List (List UInt8 × Value)} {inner : List UInt8}
    (h : MembersText members inner) :
    ∃ texts, List.Forall₂ ReadsMember texts members ∧ ∀ rest, compactText false (inner ++ rest) =
      List.intercalate [44] texts ++ compactText false rest := by
  cases h with
  | one h =>
    obtain ⟨t, ht, hcompact⟩ := compacts_member h
    exact ⟨[t], .cons ht .nil, fun rest => by rw [hcompact, List.intercalate_singleton]⟩
  | more h hwhite hwhite' hrest =>
    obtain ⟨t, ht, hcompact⟩ := compacts_member h
    obtain ⟨texts, htexts, hcompacts⟩ := compacts_members hrest
    refine ⟨t :: texts, .cons ht htexts, fun rest => ?_⟩
    simp only [List.append_assoc, List.cons_append]
    rw [hcompact, compactText_white hwhite, compactText_cons (by decide),
      compactText_white hwhite', hcompacts]
    rcases texts with _ | ⟨t', texts⟩
    · cases htexts
      cases hrest
    · rw [List.intercalate_cons_cons]
      simp

theorem compacts_member {m : List UInt8 × Value} {text : List UInt8} (h : MemberText m text) :
    ∃ t, ReadsMember t m ∧ ∀ rest, compactText false (text ++ rest) =
      t ++ compactText false rest := by
  cases h with
  | mk hname hwhite hwhite' h =>
    obtain ⟨t, ht, hcompact⟩ := compacts_text h
    refine ⟨_, ⟨_, t, rfl, decode_htmlText hname, ht⟩, fun rest => ?_⟩
    simp only [List.append_assoc, List.cons_append]
    rw [compactText_quoted hname, compactText_white hwhite, compactText_cons (by decide),
      compactText_white hwhite', hcompact]

end

theorem reads_compact_parse {v : Value} {text : List UInt8} (h : parse text = some v) :
    Reads (compactText false text) v := by
  obtain ⟨white, core, white', hwhite, hwhite', rfl, hcore⟩ := parse_text h
  obtain ⟨t, ht, hcompact⟩ := compacts_text hcore
  have hnil := compactText_white hwhite' []
  rw [List.append_nil, compactText] at hnil
  rwa [compactText_white hwhite, hcompact, hnil, List.append_nil]

end SocketHandoff.Go
