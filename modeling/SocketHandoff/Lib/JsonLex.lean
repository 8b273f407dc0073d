import SocketHandoff.Lib.JsonText

/-!
# Strings in a JSON text

A JSON text as a scanner sees it: strings, and single characters between them. What looks like a
name in quotes with a colon and a quote behind it is not always the name of a member, but that last
quote does always open a string.
-/

namespace SocketHandoff.Json

/-- The characters that stand outside of strings. -/
def isOutside (c : UInt8) : Bool :=
  isWhite c || isNumberByte c || (ascii "[]\x7b\x7d,:nulltruefalse").contains c

/-- A text of strings and of characters outside of them. It is coarser than the grammar, and enough
to tell whether a quote begins a string or ends one. -/
inductive Lexed : List UInt8 → Prop
  | nil : Lexed []
  | byte {c : UInt8} {rest : List UInt8} (hc : isOutside c = true) (h : Lexed rest) :
      Lexed (c :: rest)
  | string {body s rest : List UInt8} (hbody : decode body = some s) (h : Lexed rest) :
      Lexed (34 :: (body ++ 34 :: rest))

theorem Lexed.bytes {text rest : List UInt8} (htext : ∀ c ∈ text, isOutside c = true)
    (h : Lexed rest) : Lexed (text ++ rest) := by
  induction text with
  | nil => exact h
  | cons c text ih =>
    exact .byte (htext c List.mem_cons_self) (ih fun d hd => htext d (List.mem_cons_of_mem c hd))

theorem Lexed.white {white rest : List UInt8} (hwhite : White white) (h : Lexed rest) :
    Lexed (white ++ rest) :=
  h.bytes fun c hc => by rw [isOutside, hwhite c hc]; rfl

/-! ## JSON texts are such texts -/

mutual

theorem lexed_text {v : Value} {text rest : List UInt8} (h : Text v text) (hrest : Lexed rest) :
    Lexed (text ++ rest) := by
  cases h with
  | null => exact hrest.bytes (forall_mem_ascii (P := (isOutside · = true)) _ rfl)
  | true => exact hrest.bytes (forall_mem_ascii (P := (isOutside · = true)) _ rfl)
  | false => exact hrest.bytes (forall_mem_ascii (P := (isOutside · = true)) _ rfl)
  | string hs =>
    rw [List.cons_append, List.append_assoc]
    exact .string hs hrest
  | number hn =>
    refine hrest.bytes fun c hc => ?_
    rw [isOutside, hn.bytes c hc, Bool.or_true]
    rfl
  | noElems hwhite =>
    rw [List.cons_append, List.append_assoc]
    exact .byte rfl (.white hwhite (.byte rfl hrest))
  | array hwhite helems hwhite' =>
    simp only [List.cons_append, List.append_assoc]
    exact .byte rfl (.white hwhite (lexed_elems helems (.white hwhite' (.byte rfl hrest))))
  | noMembers hwhite =>
    rw [List.cons_append, List.append_assoc]
    exact .byte rfl (.white hwhite (.byte rfl hrest))
  | object hwhite hmembers hwhite' =>
    simp only [List.cons_append, List.append_assoc]
    exact .byte rfl (.white hwhite (lexed_members hmembers (.white hwhite' (.byte rfl hrest))))

theorem lexed_elems {elems : List Value} {inner rest : List UInt8} (h : ElemsText elems inner)
    (hrest : Lexed rest) : Lexed (inner ++ rest) := by
  cases h with
  | one hv => exact lexed_text hv hrest
  | more hv hwhite hwhite' helems =>
    simp only [List.append_assoc, List.cons_append]
    refine lexed_text hv (.white hwhite (.byte rfl ?_))
    exact .white hwhite' (lexed_elems helems hrest)

theorem lexed_members {members : List (List UInt8 × Value)} {inner rest : List UInt8}
    (h : MembersText members inner) (hrest : Lexed rest) : Lexed (inner ++ rest) := by
  cases h with
  | one hm => exact lexed_member hm hrest
  | more hm hwhite hwhite' hmembers =>
    simp only [List.append_assoc, List.cons_append]
    refine lexed_member hm (.white hwhite (.byte rfl ?_))
    exact .white hwhite' (lexed_members hmembers hrest)

theorem lexed_member {m : List UInt8 × Value} {text rest : List UInt8} (h : MemberText m text)
    (hrest : Lexed rest) : Lexed (text ++ rest) := by
  cases h with
  | mk hname hwhite hwhite' hv =>
    simp only [List.cons_append, List.append_assoc]
    refine .string hname (.white hwhite (.byte rfl ?_))
    exact .white hwhite' (lexed_text hv hrest)

end

theorem lexed_of_parse {text : List UInt8} {v : Value} (h : parse text = some v) : Lexed text := by
  obtain ⟨white, core, white', hwhite, hwhite', rfl, hcore⟩ := parse_text h
  refine .white hwhite (lexed_text hcore ?_)
  rw [← List.append_nil white']
  exact .white hwhite' .nil

/-! ## A name, a colon and a quote -/

theorem pieced_of_decode {body s : List UInt8} (h : decode body = some s) :
    ∃ ps, Pieced body ps := by
  obtain ⟨ps, hps, -⟩ := Option.map_eq_some_iff.mp h
  exact ⟨ps, pieced_of_pieces hps⟩

/-- The digits of an escape are neither quotes nor backslashes. -/
theorem plain_of_hexUnit {a b c d : UInt8} {u : Nat} (h : hexUnit a b c d = some u) :
    ∀ e ∈ [a, b, c, d], e ≠ 34 ∧ e ≠ 92 := by
  simp only [hexUnit, Option.bind_eq_bind, Option.bind_eq_some_iff] at h
  obtain ⟨x, hx, y, hy, z, hz, w, hw, -⟩ := h
  simp only [List.forall_mem_cons, List.not_mem_nil, false_implies, implies_true, and_true]
  exact ⟨hexValue_plain a (by simp [hx]), hexValue_plain b (by simp [hy]),
    hexValue_plain c (by simp [hz]), hexValue_plain d (by simp [hw])⟩

/-- A quote in the text of a string is escaped: what is behind it is again such a text. -/
theorem Pieced.behind_quote {front rest : List UInt8} {ps : List Piece}
    (h : Pieced (front ++ 34 :: rest) ps) : ∃ qs, Pieced rest qs := by
  generalize htext : front ++ 34 :: rest = text at h
  induction h generalizing front with
  | nil => simp at htext
  | @unit a b c d u text ps hu htail ih =>
    have hdigits := plain_of_hexUnit hu
    simp only [List.forall_mem_cons] at hdigits
    obtain ⟨⟨ha, -⟩, ⟨hb, -⟩, ⟨hc, -⟩, ⟨hd, -⟩, -⟩ := hdigits
    rcases front with _ | ⟨_, _ | ⟨_, _ | ⟨_, _ | ⟨_, _ | ⟨_, _ | ⟨_, front⟩⟩⟩⟩⟩⟩
    · simp at htext
    · simp at htext
    · simp [Ne.symm ha] at htext
    · simp [Ne.symm hb] at htext
    · simp [Ne.symm hc] at htext
    · simp [Ne.symm hd] at htext
    · simp only [List.cons_append, List.cons.injEq] at htext
      exact ih htext.2.2.2.2.2.2
  | @escaped c e text ps he htail ih =>
    rcases front with _ | ⟨_, _ | ⟨_, front⟩⟩
    · simp at htext
    · simp only [List.cons_append, List.nil_append, List.cons.injEq] at htext
      exact ⟨ps, htext.2.2 ▸ htail⟩
    · simp only [List.cons_append, List.cons.injEq] at htext
      exact ih htext.2.2
  | @byte c text ps hc htail ih =>
    cases front with
    | nil => exact absurd (List.cons.inj htext).1.symm hc.1
    | cons f front => exact ih (List.cons.inj htext).2

/-- The string that ends with the next quote. -/
theorem Pieced.eq_of_plain {body rest name rest' : List UInt8} {ps : List Piece}
    (h : Pieced body ps) (hname : Plain name) (heq : body ++ 34 :: rest = name ++ 34 :: rest') :
    body = name ∧ rest = rest' := by
  have hbody : readString (body ++ 34 :: rest) = some (body, rest) := readString_quote h.pieces
  rw [heq, readString_quote (pieces_plain hname)] at hbody
  obtain ⟨rfl, rfl⟩ := Prod.mk.inj (Option.some.inj hbody)
  exact ⟨rfl, rfl⟩

theorem Lexed.string_inv {rest : List UInt8} (h : Lexed (34 :: rest)) :
    ∃ body s tail, rest = body ++ 34 :: tail ∧ decode body = some s ∧ Lexed tail := by
  generalize htext : 34 :: rest = text at h
  cases h with
  | nil => cases htext
  | byte hc _ =>
    obtain ⟨rfl, -⟩ := List.cons.inj htext
    exact absurd hc (by decide)
  | string hbody htail => exact ⟨_, _, _, (List.cons.inj htext).2, hbody, htail⟩

theorem Lexed.byte_inv {c : UInt8} {rest : List UInt8} (h : Lexed (c :: rest)) (hc : c ≠ 34) :
    isOutside c = true ∧ Lexed rest := by
  generalize htext : c :: rest = text at h
  cases h with
  | nil => cases htext
  | byte hc htail =>
    obtain ⟨rfl, rfl⟩ := List.cons.inj htext
    exact ⟨hc, htail⟩
  | string _ _ => exact absurd (List.cons.inj htext).1 hc

/-- **What stands behind a name, a colon and a quote** is the text of a string with its end, wherever
in the text the name stands. -/
theorem Lexed.behind_name {c : UInt8} {name front rest : List UInt8} (hc : isOutside c = false)
    (hname : Plain (c :: name)) (h : Lexed (front ++ 34 :: (c :: name ++ 34 :: 58 :: 34 :: rest))) :
    ∃ body s tail, rest = body ++ 34 :: tail ∧ decode body = some s := by
  -- the quote behind the name ends a string
  have hends : ∀ {body tail : List UInt8} {ps : List Piece}, Pieced body ps → Lexed tail →
      body ++ 34 :: tail = c :: name ++ 34 :: 58 :: 34 :: rest →
        ∃ body s tail, rest = body ++ 34 :: tail ∧ decode body = some s := by
    intro body tail ps hbody htail heq
    obtain ⟨-, rfl⟩ := hbody.eq_of_plain hname heq
    obtain ⟨body, s, tail, hrest, hs, -⟩ := (htail.byte_inv (by decide)).2.string_inv
    exact ⟨body, s, tail, hrest, hs⟩
  generalize htext : front ++ 34 :: (c :: name ++ 34 :: 58 :: 34 :: rest) = text at h
  induction h generalizing front with
  | nil => simp at htext
  | @byte d text hd htail ih =>
    cases front with
    | nil =>
      obtain ⟨rfl, -⟩ := List.cons.inj htext
      exact absurd hd (by decide)
    | cons f front => exact ih (List.cons.inj htext).2
  | @string body s tail hbody htail ih =>
    obtain ⟨ps, hps⟩ := pieced_of_decode hbody
    cases front with
    | nil => exact hends hps htail (List.cons.inj htext).2.symm
    | cons f front =>
      rcases List.append_eq_append_iff.mp (List.cons.inj htext).2 with
        ⟨mid, rfl, hmid⟩ | ⟨mid, rfl, hmid⟩
      · -- the name stands in the string, or the quote before it ends the string
        cases mid with
        | nil =>
          obtain ⟨-, rfl⟩ := List.cons.inj hmid
          have := (htail.byte_inv (hname c List.mem_cons_self).1).1
          rw [hc] at this
          cases this
        | cons m mid =>
          obtain rfl := (List.cons.inj hmid).1
          obtain ⟨qs, hqs⟩ := hps.behind_quote
          exact hends hqs htail (List.cons.inj hmid.symm).2
      · cases mid with
        | nil =>
          obtain ⟨-, rfl⟩ := List.cons.inj hmid
          have := (htail.byte_inv (hname c List.mem_cons_self).1).1
          rw [hc] at this
          cases this
        | cons m mid => exact ih (List.cons.inj hmid).2.symm

end SocketHandoff.Json
