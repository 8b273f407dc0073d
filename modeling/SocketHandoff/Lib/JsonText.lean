import SocketHandoff.Lib.Json

/-!
# The texts of a JSON value

The grammar of JSON with its white space, and that the reader accepts the texts of the grammar only:
what `parseValue` takes off the front of a text is white space and a text of the value it returns.
-/

namespace SocketHandoff.Json

/-- White space. -/
def White (text : List UInt8) : Prop := ∀ c ∈ text, isWhite c = true

/-- The characters of a number. -/
def isNumberByte (c : UInt8) : Bool :=
  isDigit c ∨ c = 43 ∨ c = 45 ∨ c = 46 ∨ c = 69 ∨ c = 101

/-- A text that is read as a number wherever a number may end behind it. -/
structure NumberText (q : ℚ) (text : List UInt8) : Prop where
  reads : ∀ rest, Ends rest → readNumber (text ++ rest) = some (q, rest)
  bytes : ∀ c ∈ text, isNumberByte c = true
  head : ∃ c tail, text = c :: tail ∧ (c = 45 ∨ isDigit c = true)

mutual

/-- A text of a value, without white space around it. -/
inductive Text : Value → List UInt8 → Prop
  | null : Text .null (ascii "null")
  | true : Text (.bool true) (ascii "true")
  | false : Text (.bool false) (ascii "false")
  | string {s body : List UInt8} (h : decode body = some s) :
      Text (.string s) (34 :: (body ++ [34]))
  | number {q : ℚ} {text : List UInt8} (h : NumberText q text) : Text (.number q) text
  | noElems {white : List UInt8} (h : White white) : Text (.array []) (91 :: (white ++ [93]))
  | array {elems : List Value} {white inner white' : List UInt8} (h : White white)
      (helems : ElemsText elems inner) (h' : White white') :
      Text (.array elems) (91 :: (white ++ (inner ++ (white' ++ [93]))))
  | noMembers {white : List UInt8} (h : White white) : Text (.object []) (123 :: (white ++ [125]))
  | object {members : List (List UInt8 × Value)} {white inner white' : List UInt8} (h : White white)
      (hmembers : MembersText members inner) (h' : White white') :
      Text (.object members) (123 :: (white ++ (inner ++ (white' ++ [125]))))

/-- A text of the elements of an array, from the first to the last. -/
inductive ElemsText : List Value → List UInt8 → Prop
  | one {v : Value} {text : List UInt8} (h : Text v text) : ElemsText [v] text
  | more {v : Value} {elems : List Value} {text white white' rest : List UInt8} (h : Text v text)
      (hwhite : White white) (hwhite' : White white') (hrest : ElemsText elems rest) :
      ElemsText (v :: elems) (text ++ (white ++ 44 :: (white' ++ rest)))

/-- A text of the members of an object. -/
inductive MembersText : List (List UInt8 × Value) → List UInt8 → Prop
  | one {m : List UInt8 × Value} {text : List UInt8} (h : MemberText m text) :
      MembersText [m] text
  | more {m : List UInt8 × Value} {members : List (List UInt8 × Value)}
      {text white white' rest : List UInt8} (h : MemberText m text) (hwhite : White white)
      (hwhite' : White white') (hrest : MembersText members rest) :
      MembersText (m :: members) (text ++ (white ++ 44 :: (white' ++ rest)))

/-- A text of a member. -/
inductive MemberText : List UInt8 × Value → List UInt8 → Prop
  | mk {name body : List UInt8} {v : Value} {white white' text : List UInt8}
      (hname : decode body = some name) (hwhite : White white) (hwhite' : White white')
      (h : Text v text) :
      MemberText (name, v) (34 :: (body ++ 34 :: (white ++ 58 :: (white' ++ text))))

end

/-! ## What the reader takes off a text -/

section Reader

variable {text rest : List UInt8} {v : Value} {fuel : Nat}

theorem white_nil : White [] := fun _ hc => absurd hc List.not_mem_nil

/-- The white space at the front. -/
theorem skip_split (text : List UInt8) : ∃ white, White white ∧ text = white ++ skip text :=
  ⟨text.takeWhile isWhite, fun _ hc => List.mem_takeWhile_imp hc,
    List.takeWhile_append_dropWhile.symm⟩

theorem readString_split {body : List UInt8} (h : readString text = some (body, rest)) :
    text = body ++ 34 :: rest := by
  fun_induction readString text generalizing body with
  | case1 => cases h
  | case2 text =>
    obtain ⟨rfl, rfl⟩ := Prod.mk.inj (Option.some.inj h)
    rfl
  | case3 c text ih =>
    obtain ⟨p, hp, heq⟩ := Option.bind_eq_some_iff.mp h
    obtain ⟨rfl, rfl⟩ := Prod.mk.inj (Option.some.inj heq)
    rw [ih hp]
    rfl
  | case4 c text hquote hescape ih =>
    obtain ⟨p, hp, heq⟩ := Option.bind_eq_some_iff.mp h
    obtain ⟨rfl, rfl⟩ := Prod.mk.inj (Option.some.inj heq)
    rw [ih hp]
    rfl

/-! ### Numbers -/

theorem readSign_split {negative : Bool} (h : readSign text = (negative, rest)) :
    text = (if negative then [45] else []) ++ rest := by
  rw [readSign] at h
  split at h
  · rename_i hhead
    obtain ⟨rfl, rfl⟩ := Prod.mk.inj h
    obtain ⟨tail, rfl⟩ := List.head?_eq_some_iff.mp hhead
    rfl
  · obtain ⟨rfl, rfl⟩ := Prod.mk.inj h
    rfl

theorem mem_takeWhile_digit {c : UInt8} (h : c ∈ text.takeWhile isDigit) : isDigit c = true :=
  List.mem_takeWhile_imp h

theorem readFraction_split {frac : List UInt8} (h : readFraction text = some (frac, rest)) :
    text = (if frac = [] then [] else 46 :: frac) ++ rest ∧ ∀ c ∈ frac, isDigit c = true := by
  rw [readFraction] at h
  by_cases hhead : text.head? = some 46
  · obtain ⟨tail, rfl⟩ := List.head?_eq_some_iff.mp hhead
    rw [if_pos hhead] at h
    by_cases hne : tail.takeWhile isDigit = []
    · simp [hne] at h
    · simp [hne] at h
      obtain ⟨rfl, rfl⟩ := h
      rw [if_neg hne, List.cons_append, List.takeWhile_append_dropWhile]
      exact ⟨rfl, fun _ hc => mem_takeWhile_digit hc⟩
  · rw [if_neg hhead] at h
    obtain ⟨rfl, rfl⟩ := Prod.mk.inj (Option.some.inj h)
    exact ⟨rfl, fun _ hc => absurd hc List.not_mem_nil⟩

/-- What stands between the letter of an exponent and its digits. -/
def ExponentSign (sign : List UInt8) (negative : Bool) (unsigned : List UInt8) : Prop :=
  (sign = [45] ∧ negative = true) ∨ (sign = [43] ∧ negative = false) ∨
    (sign = [] ∧ negative = false ∧ unsigned.head? ≠ some 45 ∧ unsigned.head? ≠ some 43)

theorem exponentSign_split (tail : List UInt8) :
    ∃ sign negative unsigned, tail = sign ++ unsigned ∧ ExponentSign sign negative unsigned := by
  by_cases h45 : tail.head? = some 45
  · obtain ⟨unsigned, rfl⟩ := List.head?_eq_some_iff.mp h45
    exact ⟨[45], true, unsigned, rfl, .inl ⟨rfl, rfl⟩⟩
  · by_cases h43 : tail.head? = some 43
    · obtain ⟨unsigned, rfl⟩ := List.head?_eq_some_iff.mp h43
      exact ⟨[43], false, unsigned, rfl, .inr (.inl ⟨rfl, rfl⟩)⟩
    · exact ⟨[], false, tail, rfl, .inr (.inr ⟨rfl, rfl, h45, h43⟩)⟩

theorem readExponent_sign {c : UInt8} (hc : c = 101 ∨ c = 69) {sign unsigned : List UInt8}
    {negative : Bool} (h : ExponentSign sign negative unsigned) :
    readExponent (c :: (sign ++ unsigned)) =
      if unsigned.takeWhile isDigit = [] then none
      else some (if negative then -digitsValue (unsigned.takeWhile isDigit)
        else digitsValue (unsigned.takeWhile isDigit), unsigned.dropWhile isDigit) := by
  have hhead : (c :: (sign ++ unsigned)).head? = some 101 ∨
      (c :: (sign ++ unsigned)).head? = some 69 := by simpa using hc
  rw [readExponent, if_pos hhead]
  rcases h with ⟨rfl, rfl⟩ | ⟨rfl, rfl⟩ | ⟨rfl, rfl, h45, h43⟩
  · simp
  · simp
  · simp [h45, h43]

/-- The text of an exponent is read alike before everything that does not go on with it. -/
theorem readExponent_split {e : Int} (h : readExponent text = some (e, rest)) :
    ∃ exponent, text = exponent ++ rest ∧ (∀ c ∈ exponent, isNumberByte c = true) ∧
      (∀ c ∈ exponent.head?, c = 101 ∨ c = 69) ∧
      ∀ rest', Ends rest' → readExponent (exponent ++ rest') = some (e, rest') := by
  by_cases hhead : text.head? = some 101 ∨ text.head? = some 69
  · obtain ⟨c, tail, rfl, hc⟩ : ∃ c tail, text = c :: tail ∧ (c = 101 ∨ c = 69) := by
      rcases hhead with hhead | hhead
      · obtain ⟨tail, rfl⟩ := List.head?_eq_some_iff.mp hhead
        exact ⟨_, _, rfl, .inl rfl⟩
      · obtain ⟨tail, rfl⟩ := List.head?_eq_some_iff.mp hhead
        exact ⟨_, _, rfl, .inr rfl⟩
    obtain ⟨sign, negative, unsigned, rfl, hsign⟩ := exponentSign_split tail
    rw [readExponent_sign hc hsign] at h
    by_cases hne : unsigned.takeWhile isDigit = []
    · simp [hne] at h
    rw [if_neg hne] at h
    obtain ⟨rfl, rfl⟩ := Prod.mk.inj (Option.some.inj h)
    refine ⟨c :: (sign ++ unsigned.takeWhile isDigit), ?_, ?_, by simpa using hc, ?_⟩
    · rw [List.cons_append, List.append_assoc, List.takeWhile_append_dropWhile]
    · intro d hd
      rcases List.mem_cons.mp hd with rfl | hd
      · rcases hc with rfl | rfl <;> decide
      rcases List.mem_append.mp hd with hd | hd
      · rcases hsign with ⟨rfl, -⟩ | ⟨rfl, -⟩ | ⟨rfl, -⟩
        · obtain rfl := List.mem_singleton.mp hd
          decide
        · obtain rfl := List.mem_singleton.mp hd
          decide
        · exact absurd hd List.not_mem_nil
      · simp [isNumberByte, mem_takeWhile_digit hd]
    · intro rest' hrest'
      have hdigit : ∀ d ∈ unsigned.takeWhile isDigit, isDigit d = true :=
        fun _ hd => mem_takeWhile_digit hd
      obtain ⟨htake, hdrop⟩ := digits_append hdigit fun d hd => (hrest' d hd).1
      -- the sign is the same, since the digits behind it are
      have hsign' : ExponentSign sign negative (unsigned.takeWhile isDigit ++ rest') := by
        rcases hsign with hsign | hsign | ⟨rfl, rfl, -, -⟩
        · exact .inl hsign
        · exact .inr (.inl hsign)
        · obtain ⟨d, digits, hdigits⟩ := List.exists_cons_of_ne_nil hne
          have hd : isDigit d = true := hdigit d (by simp [hdigits])
          refine .inr (.inr ⟨rfl, rfl, ?_, ?_⟩)
          · rw [hdigits]
            rintro heq
            obtain rfl : d = 45 := by simpa using heq
            exact absurd hd (by decide)
          · rw [hdigits]
            rintro heq
            obtain rfl : d = 43 := by simpa using heq
            exact absurd hd (by decide)
      rw [List.cons_append, List.append_assoc, readExponent_sign hc hsign', htake, hdrop,
        if_neg hne]
  · rw [readExponent, if_neg hhead] at h
    obtain ⟨rfl, rfl⟩ := Prod.mk.inj (Option.some.inj h)
    refine ⟨[], rfl, by simp, by simp, fun rest' hrest' => ?_⟩
    have hne : ¬ (rest'.head? = some 101 ∨ rest'.head? = some 69) := by
      rintro (h | h)
      · exact (hrest' _ h).2.2.1 rfl
      · exact (hrest' _ h).2.2.2 rfl
    rw [List.nil_append, readExponent, if_neg hne]

/-- **A number** is read from a text of it. -/
theorem readNumber_split {q : ℚ} (h : readNumber text = some (q, rest)) :
    ∃ number, text = number ++ rest ∧ NumberText q number := by
  obtain ⟨negative, unsigned, hsign⟩ : ∃ negative unsigned, readSign text = (negative, unsigned) :=
    ⟨_, _, rfl⟩
  simp only [readNumber, hsign] at h
  by_cases hok : unsigned.takeWhile isDigit = [] ∨
      ((unsigned.takeWhile isDigit).head? = some 48 ∧ unsigned.takeWhile isDigit ≠ [48])
  · rw [if_pos hok] at h
    cases h
  rw [if_neg hok] at h
  obtain ⟨⟨frac, text'⟩, hfrac, h⟩ := Option.bind_eq_some_iff.mp h
  obtain ⟨⟨e, rest'⟩, hexp, h⟩ := Option.bind_eq_some_iff.mp h
  obtain ⟨rfl, rfl⟩ := Prod.mk.inj (Option.some.inj h)
  have htext := readSign_split hsign
  obtain ⟨hunsigned, hfracDigits⟩ := readFraction_split hfrac
  obtain ⟨exponent, rfl, hbytes, hletter, hread⟩ := readExponent_split hexp
  obtain ⟨int, hint⟩ : ∃ int, unsigned.takeWhile isDigit = int := ⟨_, rfl⟩
  have hdigits : ∀ c ∈ int, isDigit c = true := fun _ hc => mem_takeWhile_digit (hint ▸ hc)
  rw [hint] at hok ⊢
  have hne : int ≠ [] := fun h => hok (.inl h)
  obtain ⟨d, digits, rfl⟩ := List.exists_cons_of_ne_nil hne
  have hd : isDigit d = true := hdigits d List.mem_cons_self
  have hsplit : unsigned =
      d :: digits ++ ((if frac = [] then [] else 46 :: frac) ++ (exponent ++ rest')) := by
    rw [← hunsigned, ← hint, List.takeWhile_append_dropWhile]
  refine ⟨(if negative then [45] else []) ++
    (d :: digits ++ ((if frac = [] then [] else 46 :: frac) ++ exponent)), ?_, ?_, ?_, ?_⟩
  · rw [htext, hsplit]
    simp
  · intro rest hrest
    -- what follows the digits before the point, and the fraction, is as it was
    have hexpHead : ∀ c ∈ (exponent ++ rest).head?, isDigit c = false ∧ c ≠ 46 := by
      cases exponent with
      | nil => exact fun c hc => ⟨(hrest c hc).1, (hrest c hc).2.1⟩
      | cons c exponent =>
        intro c' hc'
        obtain rfl : c = c' := by simpa using hc'
        rcases hletter c rfl with rfl | rfl <;> decide
    have hfracHead : ∀ c ∈ ((if frac = [] then [] else 46 :: frac) ++ (exponent ++ rest)).head?,
        isDigit c = false := by
      intro c hc
      by_cases hf : frac = []
      · rw [if_pos hf, List.nil_append] at hc
        exact (hexpHead c hc).1
      · obtain rfl : 46 = c := by simpa [hf] using hc
        decide
    have hsign' : readSign ((if negative then [45] else []) ++
        (d :: digits ++ ((if frac = [] then [] else 46 :: frac) ++ (exponent ++ rest)))) =
          (negative, d :: digits ++ ((if frac = [] then [] else 46 :: frac) ++
            (exponent ++ rest))) := by
      cases negative with
      | true => simp [readSign]
      | false =>
        have hd45 : d ≠ 45 := by
          rintro rfl
          exact absurd hd (by decide)
        simp [readSign, hd45]
    obtain ⟨htake, hdrop⟩ := digits_append hdigits hfracHead
    have hfrac' := readFraction_text hfracDigits hexpHead
    simp only [List.append_assoc]
    rw [readNumber, hsign']
    simp only [htake, hdrop, if_neg hok, hfrac', hread rest hrest, Option.bind_eq_bind,
      Option.bind_some, Option.pure_def]
  · intro c hc
    rcases List.mem_append.mp hc with hc | hc
    · cases negative with
      | true =>
        obtain rfl := List.mem_singleton.mp hc
        decide
      | false => exact absurd hc List.not_mem_nil
    rcases List.mem_append.mp hc with hc | hc
    · simp [isNumberByte, hdigits c hc]
    rcases List.mem_append.mp hc with hc | hc
    · by_cases hf : frac = []
      · rw [if_pos hf] at hc
        exact absurd hc List.not_mem_nil
      · rw [if_neg hf] at hc
        rcases List.mem_cons.mp hc with rfl | hc
        · decide
        · simp [isNumberByte, hfracDigits c hc]
    · exact hbytes c hc
  · cases negative with
    | true => exact ⟨45, _, rfl, .inl rfl⟩
    | false => exact ⟨d, _, rfl, .inr hd⟩

/-! ### Values -/

/-- What `parseValue` takes off. -/
def SplitsValue (fuel : Nat) : Prop :=
  ∀ {text : List UInt8} {v : Value} {rest : List UInt8}, parseValue fuel text = some (v, rest) →
    ∃ white core, White white ∧ text = white ++ (core ++ rest) ∧ Text v core

/-- What `parseElems` takes off, up to the bracket. -/
def SplitsElems (fuel : Nat) : Prop :=
  ∀ {text : List UInt8} {elems : List Value} {rest : List UInt8},
    parseElems fuel text = some (elems, rest) →
    ∃ white inner white', White white ∧ White white' ∧
      text = white ++ (inner ++ (white' ++ 93 :: rest)) ∧ ElemsText elems inner

/-- What `parseMembers` takes off, up to the brace. -/
def SplitsMembers (fuel : Nat) : Prop :=
  ∀ {text : List UInt8} {members : List (List UInt8 × Value)} {rest : List UInt8},
    parseMembers fuel text = some (members, rest) →
    ∃ white inner white', White white ∧ White white' ∧
      text = white ++ (inner ++ (white' ++ 125 :: rest)) ∧ MembersText members inner

theorem White.append {a b : List UInt8} (ha : White a) (hb : White b) : White (a ++ b) := by
  intro c hc
  rcases List.mem_append.mp hc with hc | hc
  · exact ha c hc
  · exact hb c hc

theorem splitsValue_succ (helems : SplitsElems fuel) (hmembers : SplitsMembers fuel) :
    SplitsValue (fuel + 1) := by
  intro text v rest h
  obtain ⟨white, hwhite, htext⟩ := skip_split text
  -- it remains to find the text of the value at the front of what is left
  suffices hcore : ∃ core, skip text = core ++ rest ∧ Text v core by
    obtain ⟨core, hskip, hv⟩ := hcore
    exact ⟨white, core, hwhite, by rw [← hskip, ← htext], hv⟩
  rw [parseValue] at h
  split at h
  · rename_i tail heq
    obtain ⟨⟨body, tail'⟩, hbody, h⟩ := Option.bind_eq_some_iff.mp h
    obtain ⟨s, hs, h⟩ := Option.bind_eq_some_iff.mp h
    obtain ⟨rfl, rfl⟩ := Prod.mk.inj (Option.some.inj h)
    refine ⟨_, ?_, .string hs⟩
    rw [heq, readString_split hbody]
    simp
  · rename_i tail heq
    obtain ⟨white', hwhite', htail⟩ := skip_split tail
    split at h
    · rename_i tail' heq'
      obtain ⟨rfl, rfl⟩ := Prod.mk.inj (Option.some.inj h)
      refine ⟨_, ?_, .noElems hwhite'⟩
      rw [heq, htail, heq']
      simp
    · obtain ⟨⟨elems, tail'⟩, hparse, h⟩ := Option.bind_eq_some_iff.mp h
      obtain ⟨rfl, rfl⟩ := Prod.mk.inj (Option.some.inj h)
      obtain ⟨front, inner, back, hfront, hback, hsplit, hinner⟩ := helems hparse
      refine ⟨_, ?_, .array (hwhite'.append hfront) hinner hback⟩
      rw [heq, htail, hsplit]
      simp
  · rename_i tail heq
    obtain ⟨white', hwhite', htail⟩ := skip_split tail
    split at h
    · rename_i tail' heq'
      obtain ⟨rfl, rfl⟩ := Prod.mk.inj (Option.some.inj h)
      refine ⟨_, ?_, .noMembers hwhite'⟩
      rw [heq, htail, heq']
      simp
    · obtain ⟨⟨members, tail'⟩, hparse, h⟩ := Option.bind_eq_some_iff.mp h
      obtain ⟨rfl, rfl⟩ := Prod.mk.inj (Option.some.inj h)
      obtain ⟨front, inner, back, hfront, hback, hsplit, hinner⟩ := hmembers hparse
      refine ⟨_, ?_, .object (hwhite'.append hfront) hinner hback⟩
      rw [heq, htail, hsplit]
      simp
  · rename_i heq
    obtain ⟨rfl, rfl⟩ := Prod.mk.inj (Option.some.inj h)
    exact ⟨_, heq, .null⟩
  · rename_i heq
    obtain ⟨rfl, rfl⟩ := Prod.mk.inj (Option.some.inj h)
    exact ⟨_, heq, .true⟩
  · rename_i heq
    obtain ⟨rfl, rfl⟩ := Prod.mk.inj (Option.some.inj h)
    exact ⟨_, heq, .false⟩
  · obtain ⟨⟨q, tail⟩, hq, h⟩ := Option.bind_eq_some_iff.mp h
    obtain ⟨rfl, rfl⟩ := Prod.mk.inj (Option.some.inj h)
    obtain ⟨number, hsplit, hnumber⟩ := readNumber_split hq
    exact ⟨number, hsplit, .number hnumber⟩

theorem splitsElems_succ (hvalue : SplitsValue fuel) (helems : SplitsElems fuel) :
    SplitsElems (fuel + 1) := by
  intro text elems rest h
  rw [parseElems] at h
  obtain ⟨⟨v, tail⟩, hv, h⟩ := Option.bind_eq_some_iff.mp h
  obtain ⟨white, core, hwhite, htext, hcore⟩ := hvalue hv
  obtain ⟨white', hwhite', htail⟩ := skip_split tail
  simp only at h
  split at h
  · rename_i tail' heq
    obtain ⟨⟨elems', tail''⟩, hparse, h⟩ := Option.bind_eq_some_iff.mp h
    obtain ⟨rfl, rfl⟩ := Prod.mk.inj (Option.some.inj h)
    obtain ⟨front, inner, back, hfront, hback, hsplit, hinner⟩ := helems hparse
    refine ⟨white, _, back, hwhite, hback, ?_, .more hcore hwhite' hfront hinner⟩
    rw [htext, htail, heq, hsplit]
    simp
  · rename_i tail' heq
    obtain ⟨rfl, rfl⟩ := Prod.mk.inj (Option.some.inj h)
    refine ⟨white, core, white', hwhite, hwhite', ?_, .one hcore⟩
    rw [htext, ← heq, ← htail]
  · cases h

theorem splitsMembers_succ (hvalue : SplitsValue fuel) (hmembers : SplitsMembers fuel) :
    SplitsMembers (fuel + 1) := by
  intro text members rest h
  obtain ⟨white, hwhite, htext⟩ := skip_split text
  rw [parseMembers] at h
  split at h
  · rename_i tail heq
    obtain ⟨⟨body, tail₁⟩, hbody, h⟩ := Option.bind_eq_some_iff.mp h
    obtain ⟨name, hname, h⟩ := Option.bind_eq_some_iff.mp h
    obtain ⟨white₁, hwhite₁, htail₁⟩ := skip_split tail₁
    split at h
    · rename_i tail₂ heq₂
      obtain ⟨⟨v, tail₃⟩, hv, h⟩ := Option.bind_eq_some_iff.mp h
      obtain ⟨white₂, core, hwhite₂, htext₂, hcore⟩ := hvalue hv
      obtain ⟨white₃, hwhite₃, htail₃⟩ := skip_split tail₃
      have hmember := MemberText.mk hname hwhite₁ hwhite₂ hcore
      rw [readString_split hbody] at heq
      rw [heq₂] at htail₁
      simp only at h
      split at h
      · rename_i tail₄ heq₄
        obtain ⟨⟨members', tail₅⟩, hparse, h⟩ := Option.bind_eq_some_iff.mp h
        obtain ⟨rfl, rfl⟩ := Prod.mk.inj (Option.some.inj h)
        obtain ⟨front, inner, back, hfront, hback, hsplit, hinner⟩ := hmembers hparse
        refine ⟨white, _, back, hwhite, hback, ?_, .more hmember hwhite₃ hfront hinner⟩
        rw [htext, heq, htail₁, htext₂, htail₃, heq₄, hsplit]
        simp
      · rename_i tail₄ heq₄
        obtain ⟨rfl, rfl⟩ := Prod.mk.inj (Option.some.inj h)
        refine ⟨white, _, white₃, hwhite, hwhite₃, ?_, .one hmember⟩
        rw [htext, heq, htail₁, htext₂, htail₃, heq₄]
        simp
      · cases h
    · cases h
  · cases h

theorem splits (fuel : Nat) : SplitsValue fuel ∧ SplitsElems fuel ∧ SplitsMembers fuel := by
  induction fuel with
  | zero =>
    refine ⟨fun h => ?_, fun h => ?_, fun h => ?_⟩
    · cases h
    · cases h
    · cases h
  | succ fuel ih =>
    obtain ⟨hvalue, helems, hmembers⟩ := ih
    exact ⟨splitsValue_succ helems hmembers, splitsElems_succ hvalue helems,
      splitsMembers_succ hvalue hmembers⟩

/-- **The reader accepts the texts of values only.** -/
theorem parse_text (h : parse text = some v) :
    ∃ white core white', White white ∧ White white' ∧ text = white ++ (core ++ white') ∧
      Text v core := by
  obtain ⟨⟨v', rest⟩, hparse, h⟩ := Option.bind_eq_some_iff.mp h
  obtain ⟨white, core, hwhite, htext, hcore⟩ := (splits _).1 hparse
  obtain ⟨white', hwhite', hrest⟩ := skip_split rest
  simp only at h
  split at h
  · rename_i hskip
    obtain rfl := Option.some.inj h
    rw [hskip, List.append_nil] at hrest
    exact ⟨white, core, rest, hwhite, hrest ▸ hwhite', htext, hcore⟩
  · cases h

end Reader

/-! ## What the reader accepts -/

/-- A text is read as a value wherever a number would end behind it. -/
def Accepts (text : List UInt8) (v : Value) : Prop :=
  ∀ fuel rest, text.length ≤ fuel → Ends rest → parseValue fuel (text ++ rest) = some (v, rest)

theorem white_plain : ∀ c : UInt8, isWhite c = true →
    isDigit c = false ∧ c ≠ 46 ∧ c ≠ 101 ∧ c ≠ 69 := forall_byte (by decide +kernel)

/-- A number ends before white space, a comma, a colon or a bracket. -/
theorem ends_white {white rest : List UInt8} {c : UInt8} (h : White white)
    (hc : isDigit c = false ∧ c ≠ 46 ∧ c ≠ 101 ∧ c ≠ 69) : Ends (white ++ c :: rest) := by
  intro d hd
  cases white with
  | nil =>
    obtain rfl := Option.some.inj hd
    exact hc
  | cons e white =>
    obtain rfl := Option.some.inj hd
    exact white_plain _ (h _ List.mem_cons_self)

theorem skip_white {white rest : List UInt8} (h : White white) :
    skip (white ++ rest) = skip rest :=
  List.dropWhile_append_of_pos h

theorem skip_cons {c : UInt8} {rest : List UInt8} (h : isWhite c = false) :
    skip (c :: rest) = c :: rest := by
  rw [skip, List.dropWhile_cons, if_neg (by simp [h])]

theorem number_opens : ∀ c : UInt8, c = 45 ∨ isDigit c = true → isWhite c = false ∧ c ≠ 93 :=
  forall_byte (by decide +kernel)

/-- The first character of a text. -/
theorem opens_text {v : Value} {text : List UInt8} (h : Text v text) :
    ∃ c tail, text = c :: tail ∧ isWhite c = false ∧ c ≠ 93 := by
  cases h with
  | number h =>
    obtain ⟨c, tail, htext, hc⟩ := h.head
    exact ⟨c, tail, htext, number_opens c hc⟩
  | _ => exact ⟨_, _, rfl, by decide⟩

theorem opens_elems {elems : List Value} {inner : List UInt8} (h : ElemsText elems inner) :
    ∃ c tail, inner = c :: tail ∧ isWhite c = false ∧ c ≠ 93 := by
  cases h with
  | one h => exact opens_text h
  | more h hwhite hwhite' hrest =>
    obtain ⟨c, tail, rfl, hc⟩ := opens_text h
    exact ⟨c, _, rfl, hc⟩

theorem opens_members {members : List (List UInt8 × Value)} {inner : List UInt8}
    (h : MembersText members inner) : ∃ tail, inner = 34 :: tail := by
  cases h with
  | one h =>
    cases h
    exact ⟨_, rfl⟩
  | more h hwhite hwhite' hrest =>
    cases h
    exact ⟨_, rfl⟩

theorem parseMembers_skip {text : List UInt8} {fuel : Nat} :
    parseMembers fuel (skip text) = parseMembers fuel text := by
  cases fuel with
  | zero => rw [parseMembers, parseMembers]
  | succ fuel => rw [parseMembers, parseMembers, skip_skip]

mutual

theorem accepts_text {v : Value} {text : List UInt8} (h : Text v text) : Accepts text v := by
  rintro (_ | fuel) rest hfuel hrest
  · obtain ⟨c, tail, rfl, -⟩ := opens_text h
    simp at hfuel
  cases h with
  | null => simp [parseValue, skip, isWhite, ascii]
  | true => simp [parseValue, skip, isWhite, ascii]
  | false => simp [parseValue, skip, isWhite, ascii]
  | string h =>
    obtain ⟨ps, hps, -⟩ := Option.map_eq_some_iff.mp h
    simp [parseValue, skip, isWhite, readString_quote hps, h]
  | number h =>
    obtain ⟨c, tail, rfl, hc⟩ := h.head
    have hread := h.reads rest hrest
    rw [List.cons_append] at hread ⊢
    rw [parseValue_number hc, hread]
    rfl
  | noElems hwhite =>
    rw [List.cons_append, List.append_assoc, parseValue, skip_cons (by decide)]
    simp only
    rw [skip_white hwhite, List.singleton_append, skip_cons (by decide)]
    rfl
  | array hwhite helems hwhite' =>
    simp only [List.length_cons, List.length_append, List.length_nil] at hfuel
    have hparse := accepts_elems helems fuel rest hwhite' (by omega)
    obtain ⟨c, tail, hinner, hc, hne⟩ := opens_elems helems
    simp only [List.cons_append, List.append_assoc, List.nil_append]
    rw [parseValue, skip_cons (by decide)]
    simp only
    rw [skip_white hwhite]
    rw [hinner, List.cons_append] at hparse ⊢
    rw [skip_cons hc]
    split
    · rename_i heq
      exact absurd (List.cons.inj heq).1 hne
    · rw [hparse]
      rfl
  | noMembers hwhite =>
    rw [List.cons_append, List.append_assoc, parseValue, skip_cons (by decide)]
    simp only
    rw [skip_white hwhite, List.singleton_append, skip_cons (by decide)]
    rfl
  | object hwhite hmembers hwhite' =>
    simp only [List.length_cons, List.length_append, List.length_nil] at hfuel
    have hparse := accepts_members hmembers fuel rest hwhite' (by omega)
    obtain ⟨tail, hinner⟩ := opens_members hmembers
    simp only [List.cons_append, List.append_assoc, List.nil_append]
    rw [parseValue, skip_cons (by decide)]
    simp only
    rw [skip_white hwhite]
    rw [hinner, List.cons_append] at hparse ⊢
    rw [skip_cons (by decide)]
    split
    · rename_i heq
      exact absurd (List.cons.inj heq).1 (by decide)
    · rw [hparse]
      rfl

theorem accepts_elems {elems : List Value} {inner : List UInt8} (h : ElemsText elems inner)
    (fuel : Nat) (rest : List UInt8) {white : List UInt8} (hwhite : White white)
    (hfuel : inner.length < fuel) :
    parseElems fuel (inner ++ (white ++ 93 :: rest)) = some (elems, rest) := by
  obtain _ | fuel := fuel
  · exact absurd hfuel (Nat.not_lt_zero _)
  cases h with
  | one h =>
    have hvalue := accepts_text h fuel (white ++ 93 :: rest) (by omega)
      (ends_white hwhite (by decide))
    rw [parseElems, hvalue]
    simp only [Option.bind_eq_bind, Option.bind_some]
    rw [skip_white hwhite, skip_cons (by decide)]
    rfl
  | more h hwhite₁ hwhite₂ hrest =>
    simp only [List.length_append, List.length_cons] at hfuel
    have helems := accepts_elems hrest fuel rest hwhite (by omega)
    obtain ⟨c, tail, hopen, -⟩ := opens_text h
    simp only [List.append_assoc, List.cons_append]
    rw [parseElems, accepts_text h fuel _ (by omega) (ends_white hwhite₁ (by decide))]
    simp only [Option.bind_eq_bind, Option.bind_some]
    rw [skip_white hwhite₁, skip_cons (by decide)]
    simp only
    rw [← parseElems_skip, skip_white hwhite₂, parseElems_skip, helems]
    rfl

theorem accepts_members {members : List (List UInt8 × Value)} {inner : List UInt8}
    (h : MembersText members inner) (fuel : Nat) (rest : List UInt8) {white : List UInt8}
    (hwhite : White white) (hfuel : inner.length < fuel) :
    parseMembers fuel (inner ++ (white ++ 125 :: rest)) = some (members, rest) := by
  obtain _ | fuel := fuel
  · exact absurd hfuel (Nat.not_lt_zero _)
  cases h with
  | one h =>
    rw [accepts_member h fuel rest (.inr rfl) hwhite (by omega)]
    rfl
  | more h hwhite₁ hwhite₂ hrest =>
    simp only [List.length_append, List.length_cons] at hfuel
    have hmembers := accepts_members hrest fuel rest hwhite (by omega)
    simp only [List.append_assoc, List.cons_append]
    rw [accepts_member h fuel _ (.inl rfl) hwhite₁ (by omega), if_pos rfl, ← parseMembers_skip,
      skip_white hwhite₂, parseMembers_skip, hmembers]
    rfl

/-- A member, and what comes behind it. -/
theorem accepts_member {m : List UInt8 × Value} {text : List UInt8} (h : MemberText m text)
    (fuel : Nat) (rest : List UInt8) {c : UInt8} (hc : c = 44 ∨ c = 125) {white : List UInt8}
    (hwhite : White white) (hfuel : text.length ≤ fuel) :
    parseMembers (fuel + 1) (text ++ (white ++ c :: rest)) =
      if c = 44 then (parseMembers fuel rest).map fun p => (m :: p.1, p.2)
      else some ([m], rest) := by
  cases h with
  | mk hname hwhite₁ hwhite₂ h =>
    simp only [List.length_append, List.length_cons] at hfuel
    obtain ⟨ps, hps, -⟩ := Option.map_eq_some_iff.mp hname
    have hends : Ends (white ++ c :: rest) := by
      apply ends_white hwhite
      rcases hc with rfl | rfl <;> decide
    simp only [List.append_assoc, List.cons_append]
    rw [parseMembers, skip_cons (by decide)]
    simp only [readString_quote hps, hname, Option.bind_eq_bind, Option.bind_some]
    rw [skip_white hwhite₁, skip_cons (by decide)]
    simp only
    rw [← parseValue_skip, skip_white hwhite₂, parseValue_skip,
      accepts_text h fuel _ (by omega) hends]
    simp only [Option.bind_some]
    rw [skip_white hwhite]
    rcases hc with rfl | rfl
    · rw [skip_cons (by decide), if_pos rfl]
      cases hparse : parseMembers fuel rest <;> simp [hparse]
    · rw [skip_cons (by decide), if_neg (by decide)]
      rfl

end

/-- **The reader accepts the grammar, and nothing else.** The reader is what can be computed and the
grammar what can be reasoned about by induction; results about the one are carried to the other by
this. -/
theorem parse_iff {text : List UInt8} {v : Value} : parse text = some v ↔
    ∃ white core white', White white ∧ White white' ∧ text = white ++ (core ++ white') ∧
      Text v core := by
  constructor
  · exact parse_text
  · rintro ⟨white, core, white', hwhite, hwhite', rfl, hcore⟩
    have hends : Ends white' := by
      intro c hc
      exact white_plain c (hwhite' c (List.mem_of_mem_head? hc))
    have hskip : skip white' = [] := List.dropWhile_eq_nil_iff.mpr hwhite'
    have hparse := accepts_text hcore (white ++ (core ++ white')).length white'
      (by simp only [List.length_append]; omega) hends
    rw [← parseValue_skip, ← skip_white hwhite, parseValue_skip] at hparse
    rw [parse, hparse]
    simp only [Option.bind_eq_bind, Option.bind_some]
    rw [if_pos hskip]

theorem Text.parse {v : Value} {text : List UInt8} (h : Text v text) : parse text = some v := by
  refine parse_iff.mpr ⟨[], text, [], white_nil, white_nil, ?_, h⟩
  rw [List.append_nil, List.nil_append]

/-- The end of an object is the end of its text: no text of another one goes on behind it. -/
theorem text_object_end {members members' : List (List UInt8 × Value)} {text rest : List UInt8}
    (h : Text (.object members) text) (h' : Text (.object members') (text ++ rest))
    (hne : members ≠ []) (hne' : members' ≠ []) : rest = [] := by
  cases h with
  | noMembers => exact absurd rfl hne
  | @object _ white inner white' hwhite hmembers hwhite' =>
    obtain ⟨back, hback⟩ : ∃ back, back = 123 :: (white ++ (inner ++ (white' ++ [125]))) ++ rest :=
      ⟨_, rfl⟩
    rw [← hback] at h'
    cases h' with
    | noMembers => exact absurd rfl hne'
    | @object _ front inner' front' hfront hmembers' hfront' =>
      simp only [List.cons_append, List.append_assoc, List.nil_append] at hback
      obtain ⟨-, hsame⟩ := List.cons.inj hback
      -- both are read from the same text
      have hread := accepts_members hmembers (inner.length + inner'.length + 1) rest hwhite' (by omega)
      have hread' := accepts_members hmembers' (inner.length + inner'.length + 1) [] hfront' (by omega)
      rw [← parseMembers_skip, ← skip_white hwhite, ← hsame, skip_white hfront,
        parseMembers_skip, hread'] at hread
      exact (congrArg Prod.snd (Option.some.inj hread)).symm

/-! ## Lists of elements -/

theorem elemsText_append {a b : List Value} {s t : List UInt8} (ha : ElemsText a s)
    (hb : ElemsText b t) : ElemsText (a ++ b) (s ++ 44 :: t) := by
  cases ha with
  | one h => exact .more h white_nil white_nil hb
  | more h hwhite hwhite' hrest =>
    have happend := elemsText_append hrest hb
    have hmore := ElemsText.more h hwhite hwhite' happend
    rw [List.cons_append]
    convert hmore using 1
    simp

/-- Lists of elements with commas between them. -/
theorem elemsText_intercalate {elemss : List (List Value)} {texts : List (List UInt8)}
    (h : List.Forall₂ ElemsText elemss texts) (hne : texts ≠ []) :
    ElemsText elemss.flatten (List.intercalate [44] texts) := by
  induction h with
  | nil => exact absurd rfl hne
  | @cons elems text elemss texts helems hs ih =>
    rcases hs with _ | ⟨hnext, hrest⟩
    · simpa using helems
    · rw [List.flatten_cons, List.intercalate_cons_cons, List.append_assoc]
      exact elemsText_append helems (ih (by simp))

/-- A text that is read whatever follows it has no white space behind it. -/
theorem Reads.text {text : List UInt8} {v : Value} (h : Reads text v)
    (hhead : ∀ c ∈ text.head?, isWhite c = false) : Text v text := by
  have hparse := h text.length [] (Nat.le_refl _) stops_nil
  obtain ⟨white, core, hwhite, hsplit, hcore⟩ := (splits _).1 hparse
  rw [List.append_nil, List.append_nil] at hsplit
  cases white with
  | nil => rwa [hsplit]
  | cons c white =>
    have hc : isWhite c = true := hwhite c List.mem_cons_self
    rw [hhead c (by simp [hsplit])] at hc
    cases hc

/-! ### Their ends -/

/-- A text that begins and ends with characters that are no white space. -/
def Solid (text : List UInt8) : Prop :=
  (∃ c, text.head? = some c ∧ isSpace c = false) ∧ ∃ c, text.getLast? = some c ∧ isSpace c = false

theorem solid_between {c d : UInt8} (hc : isSpace c = false) (hd : isSpace d = false)
    (mid : List UInt8) : Solid (c :: (mid ++ [d])) := by
  refine ⟨⟨c, rfl, hc⟩, d, ?_, hd⟩
  rw [← List.cons_append, List.getLast?_concat]

theorem Solid.append {s t : List UInt8} (hs : Solid s) (ht : Solid t) (mid : List UInt8) :
    Solid (s ++ (mid ++ t)) := by
  obtain ⟨⟨c, hc, hcs⟩, -⟩ := hs
  obtain ⟨-, d, hd, hds⟩ := ht
  refine ⟨⟨c, ?_, hcs⟩, d, ?_, hds⟩
  · rw [List.head?_append, hc]
    rfl
  · rw [List.getLast?_append, List.getLast?_append, hd]
    rfl

theorem solid_bytes {text : List UInt8} (hne : text ≠ [])
    (h : ∀ c ∈ text, isSpace c = false) : Solid text := by
  refine ⟨⟨_, List.head?_eq_some_head hne, h _ (List.head_mem hne)⟩, _,
    List.getLast?_eq_some_getLast hne, h _ (List.getLast_mem hne)⟩

theorem numberByte_solid : ∀ c : UInt8, isNumberByte c = true → isSpace c = false :=
  forall_byte (by decide +kernel)

theorem Text.solid {v : Value} {text : List UInt8} (h : Text v text) : Solid text := by
  cases h with
  | null => exact solid_bytes (by simp [ascii]) (by decide +kernel)
  | true => exact solid_bytes (by simp [ascii]) (by decide +kernel)
  | false => exact solid_bytes (by simp [ascii]) (by decide +kernel)
  | string h => exact solid_between rfl rfl _
  | number h =>
    obtain ⟨c, tail, htext, -⟩ := h.head
    exact solid_bytes (by simp [htext]) fun c hc => numberByte_solid c (h.bytes c hc)
  | noElems h => exact solid_between rfl rfl _
  | array h helems h' =>
    simp only [← List.append_assoc]
    exact solid_between rfl rfl _
  | noMembers h => exact solid_between rfl rfl _
  | object h hmembers h' =>
    simp only [← List.append_assoc]
    exact solid_between rfl rfl _

theorem solid_elems {elems : List Value} {inner : List UInt8} (h : ElemsText elems inner) :
    Solid inner := by
  cases h with
  | one h => exact h.solid
  | @more v elems text white white' rest h hwhite hwhite' hrest =>
    have hsolid := h.solid.append (solid_elems hrest) (white ++ 44 :: white')
    simpa using hsolid

/-! ## The place of a field -/

/-- The place between `front` and `tail` is that of a field: whatever string is written there, in a
way that `reads` accepts, the field is what it stands for. A reader that finds its field by its
text alone has found the right one exactly if it stands at such a place. -/
def Carries (reads field : List UInt8 → Option (List UInt8)) (front tail : List UInt8) : Prop :=
  ∀ body s, reads body = some s → field (front ++ 34 :: (body ++ 34 :: tail)) = some s

end SocketHandoff.Json
