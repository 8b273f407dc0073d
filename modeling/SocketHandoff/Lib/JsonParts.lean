import SocketHandoff.Lib.JsonText

/-!
# The parts of a JSON text

The elements of an array and the members of an object as they are written: a reader that follows
`parse`, and leaves the texts of the values as they are.
-/

namespace SocketHandoff.Json

/-- The value at the start of a text as it is written, and what follows it. -/
def rawValue (fuel : Nat) (text : List UInt8) : Option (List UInt8 × List UInt8) := do
  let (_, rest) ← parseValue fuel (skip text)
  return ((skip text).take ((skip text).length - rest.length), rest)

/-- The elements of an array, with the bracket that ends it. -/
def rawElems : (fuel : Nat) → List UInt8 → Option (List (List UInt8) × List UInt8)
  | 0, _ => none
  | fuel + 1, text => do
    let (raw, text) ← rawValue fuel text
    match skip text with
    | 44 :: text => do
      let (raws, text) ← rawElems fuel text
      return (raw :: raws, text)
    | 93 :: text => return ([raw], text)
    | _ => none

/-- The names and values of an object, with the brace that ends it. -/
def rawMembers : (fuel : Nat) → List UInt8 → Option (List (List UInt8 × List UInt8) × List UInt8)
  | 0, _ => none
  | fuel + 1, text =>
    match skip text with
    | 34 :: text => do
      let (body, text) ← readString text
      let name ← decode body
      match skip text with
      | 58 :: text => do
        let (raw, text) ← rawValue fuel text
        match skip text with
        | 44 :: text => do
          let (raws, text) ← rawMembers fuel text
          return ((name, raw) :: raws, text)
        | 125 :: text => return ([(name, raw)], text)
        | _ => none
      | _ => none
    | _ => none

/-- The elements of the array that a text is. -/
def arrayParts (text : List UInt8) : Option (List (List UInt8)) :=
  match skip text with
  | 91 :: inner =>
    match skip inner with
    | 93 :: _ => some []
    | inner => (rawElems (text.length - 1) inner).map Prod.fst
  | _ => none

/-- The members of the object that a text is. -/
def objectParts (text : List UInt8) : Option (List (List UInt8 × List UInt8)) :=
  match skip text with
  | 123 :: inner =>
    match skip inner with
    | 125 :: _ => some []
    | inner => (rawMembers (text.length - 1) inner).map Prod.fst
  | _ => none

section Parts

variable {text rest : List UInt8} {v : Value} {fuel : Nat}

theorem White.of_skip {white : List UInt8} (h : White white) (hskip : skip text = white ++ rest) :
    white = [] := by
  cases white with
  | nil => rfl
  | cons c white =>
    have hidem := skip_skip text
    have hc : isWhite c = true := h c List.mem_cons_self
    have hlen := congrArg List.length hidem
    rw [hskip] at hlen
    have hle := (List.dropWhile_suffix (l := white ++ rest) isWhite).length_le
    simp only [skip, List.cons_append, List.dropWhile_cons, hc, if_true, List.length_cons] at hlen
    omega

/-- Behind the white space stands a text of the value that is read. -/
theorem skip_of_parse (h : parseValue fuel text = some (v, rest)) :
    ∃ core, skip text = core ++ rest ∧ Text v core := by
  rw [← parseValue_skip] at h
  obtain ⟨white, core, hwhite, hsplit, hcore⟩ := (splits fuel).1 h
  obtain rfl := hwhite.of_skip hsplit
  exact ⟨core, hsplit, hcore⟩

/-- A part is a text of the value that is read there. -/
theorem rawValue_of_parse (h : parseValue fuel text = some (v, rest)) :
    ∃ raw, rawValue fuel text = some (raw, rest) ∧ Text v raw := by
  obtain ⟨core, hsplit, hcore⟩ := skip_of_parse h
  refine ⟨core, ?_, hcore⟩
  have htake : (skip text).take ((skip text).length - rest.length) = core := by
    rw [hsplit, List.length_append, Nat.add_sub_cancel, List.take_left]
  rw [← parseValue_skip] at h
  simp [rawValue, h, htake]

theorem rawElems_of_parse {elems : List Value} (h : parseElems fuel text = some (elems, rest)) :
    ∃ raws, rawElems fuel text = some (raws, rest) ∧ List.Forall₂ Text elems raws := by
  induction fuel generalizing text elems with
  | zero => cases h
  | succ fuel ih =>
    rw [parseElems] at h
    obtain ⟨⟨v, tail⟩, hv, h⟩ := Option.bind_eq_some_iff.mp h
    obtain ⟨raw, hraw, htext⟩ := rawValue_of_parse hv
    simp only at h
    split at h
    · rename_i tail' heq
      obtain ⟨⟨elems', tail''⟩, hparse, h⟩ := Option.bind_eq_some_iff.mp h
      obtain ⟨rfl, rfl⟩ := Prod.mk.inj (Option.some.inj h)
      obtain ⟨raws, hraws, htexts⟩ := ih hparse
      exact ⟨raw :: raws, by simp [rawElems, hraw, heq, hraws], .cons htext htexts⟩
    · rename_i tail' heq
      obtain ⟨rfl, rfl⟩ := Prod.mk.inj (Option.some.inj h)
      exact ⟨[raw], by simp [rawElems, hraw, heq], .cons htext .nil⟩
    · cases h

/-- A member with the text of its value. -/
def MemberParts (m : List UInt8 × Value) (part : List UInt8 × List UInt8) : Prop :=
  part.1 = m.1 ∧ Text m.2 part.2

theorem rawMembers_of_parse {members : List (List UInt8 × Value)}
    (h : parseMembers fuel text = some (members, rest)) :
    ∃ raws, rawMembers fuel text = some (raws, rest) ∧ List.Forall₂ MemberParts members raws := by
  induction fuel generalizing text members with
  | zero => cases h
  | succ fuel ih =>
    rw [parseMembers] at h
    split at h
    · rename_i tail heq
      obtain ⟨⟨body, tail₁⟩, hbody, h⟩ := Option.bind_eq_some_iff.mp h
      obtain ⟨name, hname, h⟩ := Option.bind_eq_some_iff.mp h
      split at h
      · rename_i tail₂ heq₂
        obtain ⟨⟨v, tail₃⟩, hv, h⟩ := Option.bind_eq_some_iff.mp h
        obtain ⟨raw, hraw, htext⟩ := rawValue_of_parse hv
        have hmember : MemberParts (name, v) (name, raw) := ⟨rfl, htext⟩
        simp only at h
        split at h
        · rename_i tail₄ heq₄
          obtain ⟨⟨members', tail₅⟩, hparse, h⟩ := Option.bind_eq_some_iff.mp h
          obtain ⟨rfl, rfl⟩ := Prod.mk.inj (Option.some.inj h)
          obtain ⟨raws, hraws, hmembers⟩ := ih hparse
          refine ⟨(name, raw) :: raws, ?_, .cons hmember hmembers⟩
          simp [rawMembers, heq, hbody, hname, heq₂, hraw, heq₄, hraws]
        · rename_i tail₄ heq₄
          obtain ⟨rfl, rfl⟩ := Prod.mk.inj (Option.some.inj h)
          refine ⟨[(name, raw)], ?_, .cons hmember .nil⟩
          simp [rawMembers, heq, hbody, hname, heq₂, hraw, heq₄]
        · cases h
      · cases h
    · cases h

theorem parseValue_of_parse (h : parse text = some v) :
    ∃ fuel rest, text.length = fuel + 1 ∧ parseValue (fuel + 1) text = some (v, rest) := by
  obtain ⟨⟨v', rest⟩, hparse, h⟩ := Option.bind_eq_some_iff.mp h
  simp only at h
  split at h
  · obtain rfl := Option.some.inj h
    cases hlen : text.length with
    | zero =>
      rw [hlen] at hparse
      cases hparse
    | succ fuel => exact ⟨fuel, rest, rfl, hlen ▸ hparse⟩
  · cases h

/-- **The elements of an array** are texts of their values. -/
theorem arrayParts_of_parse {elems : List Value} (h : parse text = some (.array elems)) :
    ∃ raws, arrayParts text = some raws ∧ List.Forall₂ Text elems raws := by
  obtain ⟨fuel, rest, hlen, hparse⟩ := parseValue_of_parse h
  obtain ⟨core, hskip, hcore⟩ := skip_of_parse hparse
  obtain ⟨inner, heq⟩ : ∃ inner, skip text = 91 :: inner := by
    cases hcore <;> exact ⟨_, hskip⟩
  simp only [parseValue, heq] at hparse
  split at hparse
  · rename_i tail heq'
    obtain ⟨hnil, rfl⟩ := Prod.mk.inj (Option.some.inj hparse)
    obtain rfl : [] = elems := Value.array.inj hnil
    exact ⟨[], by simp [arrayParts, heq, heq'], .nil⟩
  · obtain ⟨⟨elems', tail⟩, helems, hparse⟩ := Option.bind_eq_some_iff.mp hparse
    obtain ⟨helems', rfl⟩ := Prod.mk.inj (Option.some.inj hparse)
    obtain rfl : elems' = elems := Value.array.inj helems'
    obtain ⟨raws, hraws, htexts⟩ := rawElems_of_parse helems
    refine ⟨raws, ?_, htexts⟩
    simp only [arrayParts, heq, hlen, Nat.add_sub_cancel]
    rw [hraws]
    rfl

/-- **The members of an object** are texts of their names and values. -/
theorem objectParts_of_parse {members : List (List UInt8 × Value)}
    (h : parse text = some (.object members)) :
    ∃ raws, objectParts text = some raws ∧ List.Forall₂ MemberParts members raws := by
  obtain ⟨fuel, rest, hlen, hparse⟩ := parseValue_of_parse h
  obtain ⟨core, hskip, hcore⟩ := skip_of_parse hparse
  obtain ⟨inner, heq⟩ : ∃ inner, skip text = 123 :: inner := by
    cases hcore <;> exact ⟨_, hskip⟩
  simp only [parseValue, heq] at hparse
  split at hparse
  · rename_i tail heq'
    obtain ⟨hnil, rfl⟩ := Prod.mk.inj (Option.some.inj hparse)
    obtain rfl : [] = members := Value.object.inj hnil
    exact ⟨[], by simp [objectParts, heq, heq'], .nil⟩
  · obtain ⟨⟨members', tail⟩, hmembers, hparse⟩ := Option.bind_eq_some_iff.mp hparse
    obtain ⟨hmembers', rfl⟩ := Prod.mk.inj (Option.some.inj hparse)
    obtain rfl : members' = members := Value.object.inj hmembers'
    obtain ⟨raws, hraws, htexts⟩ := rawMembers_of_parse hmembers
    refine ⟨raws, ?_, htexts⟩
    simp only [objectParts, heq, hlen, Nat.add_sub_cancel]
    rw [hraws]
    rfl

/-! ## Parts of a text that is known -/

theorem skip_text {core : List UInt8} (h : Text v core) (rest : List UInt8) :
    skip (core ++ rest) = core ++ rest := by
  obtain ⟨c, tail, rfl, hc, -⟩ := opens_text h
  exact skip_cons hc

theorem ends_cons {c : UInt8} (h : (!isDigit c && c != 46 && c != 101 && c != 69) = true) :
    Ends (c :: rest) := by
  intro d hd
  obtain rfl := Option.some.inj hd
  simpa [and_assoc] using h

/-- A value is the part of its text. -/
theorem rawValue_text {core : List UInt8} (h : Text v core) (hfuel : core.length ≤ fuel)
    (hends : Ends rest) : rawValue fuel (core ++ rest) = some (core, rest) := by
  simp [rawValue, skip_text h, accepts_text h fuel rest hfuel hends]

/-- **The part of an array of one element.** -/
theorem arrayParts_one {core : List UInt8} (h : Text v core) :
    arrayParts (91 :: (core ++ [93])) = some [core] := by
  obtain ⟨c, tail, hcore, hc, hclose⟩ := opens_text h
  have hinner : skip (core ++ [93]) = c :: (tail ++ [93]) := by
    rw [skip_text h, hcore, List.cons_append]
  have hraw : rawElems (core ++ [93]).length (c :: (tail ++ [93])) = some ([core], []) := by
    have hvalue : rawValue core.length (core ++ [93]) = some (core, [93]) :=
      rawValue_text h (Nat.le_refl _) (ends_cons rfl)
    rw [hcore] at hvalue
    rw [List.length_append, List.length_singleton, rawElems, hcore]
    simp only [List.cons_append] at hvalue ⊢
    rw [hvalue]
    rfl
  have hopen : skip (91 :: (core ++ [93])) = 91 :: (core ++ [93]) := skip_cons rfl
  rw [arrayParts, hopen]
  simp only [hinner]
  split
  · rename_i heq
    exact absurd (List.cons.inj heq).1 hclose
  · rw [List.length_cons, Nat.add_sub_cancel, hraw]
    rfl

/-- **The part of an object of one member.** -/
theorem objectParts_one {name body core : List UInt8} (hname : decode body = some name)
    (h : Text v core) :
    objectParts (123 :: (34 :: (body ++ 34 :: 58 :: core) ++ [125])) = some [(name, core)] := by
  obtain ⟨ps, hps, -⟩ := Option.map_eq_some_iff.mp hname
  have hvalue : rawValue (body ++ 34 :: 58 :: core ++ [125]).length (core ++ [125]) =
      some (core, [125]) := rawValue_text h (by simp; omega) (ends_cons rfl)
  have hquote : skip (34 :: (body ++ 34 :: 58 :: core) ++ [125]) =
      34 :: (body ++ 34 :: (58 :: (core ++ [125]))) := by
    rw [List.cons_append, skip_cons rfl, List.append_assoc]
    rfl
  have hraw : rawMembers (34 :: (body ++ 34 :: 58 :: core) ++ [125]).length
      (34 :: (body ++ 34 :: (58 :: (core ++ [125])))) = some ([(name, core)], []) := by
    have hopen : skip (34 :: (body ++ 34 :: (58 :: (core ++ [125])))) =
        34 :: (body ++ 34 :: (58 :: (core ++ [125]))) := skip_cons rfl
    have hcolon : skip (58 :: (core ++ [125])) = 58 :: (core ++ [125]) := skip_cons rfl
    rw [List.cons_append, List.length_cons, rawMembers, hopen]
    simp only [readString_quote hps, Option.bind_eq_bind, Option.bind_some, hname, hcolon, hvalue]
    rfl
  have hopen : skip (123 :: (34 :: (body ++ 34 :: 58 :: core) ++ [125])) =
      123 :: (34 :: (body ++ 34 :: 58 :: core) ++ [125]) := skip_cons rfl
  rw [objectParts, hopen]
  simp only [hquote, List.length_cons, Nat.add_sub_cancel]
  exact congrArg (Option.map Prod.fst) hraw

end Parts

end SocketHandoff.Json
