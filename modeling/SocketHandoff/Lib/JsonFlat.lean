import SocketHandoff.Lib.JsonText
import Mathlib.Data.List.Forall2

/-!
# Flat objects

An object whose values are no arrays and no objects, as it is written: its members in their order,
each with the white space around its parts. The reader accepts such a text as the object it stands
for, and every text of such an object is of this form.
-/

namespace SocketHandoff.Json

/-- Neither an array nor an object. -/
def Value.isScalar : Value → Bool
  | .array _ | .object _ => false
  | _ => true

/-- A scalar as it is written: a string without its quotes, or another literal. -/
inductive Scalar
  | string (body : List UInt8)
  | literal (text : List UInt8)
  deriving DecidableEq

def Scalar.text : Scalar → List UInt8
  | string body => 34 :: (body ++ [34])
  | literal text => text

/-- A literal that is no string. -/
inductive Literal : Value → List UInt8 → Prop
  | null : Literal .null (ascii "null")
  | true : Literal (.bool true) (ascii "true")
  | false : Literal (.bool false) (ascii "false")
  | number {q : ℚ} {text : List UInt8} (h : NumberText q text) : Literal (.number q) text

/-- What a scalar stands for. -/
inductive Scalar.Reads : Scalar → Value → Prop
  | string {s body : List UInt8} (h : decode body = some s) : Reads (.string body) (.string s)
  | literal {v : Value} {text : List UInt8} (h : Literal v text) : Reads (.literal text) v

/-- A member as it is written. -/
structure Written where
  before : List UInt8
  name : List UInt8
  beforeColon : List UInt8
  afterColon : List UInt8
  value : Scalar
  after : List UInt8

def Written.text (m : Written) : List UInt8 :=
  m.before ++ (34 :: (m.name ++ 34 :: (m.beforeColon ++ 58 :: (m.afterColon ++
    (m.value.text ++ m.after)))))

/-- What a member stands for. -/
structure Written.Reads (m : Written) (member : List UInt8 × Value) : Prop where
  before : White m.before
  name : decode m.name = some member.1
  beforeColon : White m.beforeColon
  afterColon : White m.afterColon
  value : m.value.Reads member.2
  after : White m.after

/-- The members, with commas between them. -/
def flatMembers : List Written → List UInt8
  | [] => []
  | [m] => m.text
  | m :: m' :: rest => m.text ++ 44 :: flatMembers (m' :: rest)

def flatText (written : List Written) : List UInt8 := 123 :: (flatMembers written ++ [125])

section Flat

variable {v : Value} {text inner : List UInt8} {members : List (List UInt8 × Value)}
  {written : List Written}

theorem Literal.toText (h : Literal v text) : Text v text := by
  cases h with
  | null => exact .null
  | true => exact .true
  | false => exact .false
  | number h => exact .number h

/-- A text of a scalar, as it is written. -/
theorem exists_scalar (h : Text v text) (hv : v.isScalar = true) :
    ∃ s : Scalar, s.Reads v ∧ s.text = text := by
  cases h with
  | null => exact ⟨.literal _, .literal .null, rfl⟩
  | true => exact ⟨.literal _, .literal .true, rfl⟩
  | false => exact ⟨.literal _, .literal .false, rfl⟩
  | string h => exact ⟨.string _, .string h, rfl⟩
  | number h => exact ⟨.literal _, .literal (.number h), rfl⟩
  | noElems | array | noMembers | object => cases hv

/-- A text of a member, as it is written between white space. -/
theorem exists_member {member : List UInt8 × Value} (h : MemberText member text)
    (hv : member.2.isScalar = true) {white white' : List UInt8} (hwhite : White white)
    (hwhite' : White white') :
    ∃ m : Written, m.Reads member ∧ m.text = white ++ (text ++ white') := by
  cases h with
  | mk hname hbefore hafter h =>
    obtain ⟨s, hs, rfl⟩ := exists_scalar h hv
    refine ⟨⟨white, _, _, _, s, white'⟩, ⟨hwhite, hname, hbefore, hafter, hs, hwhite'⟩, ?_⟩
    simp [Written.text]

/-- **Every text of a flat object** is written in this way. -/
theorem exists_flatMembers (h : MembersText members inner)
    (hv : ∀ m ∈ members, m.2.isScalar = true) {white white' : List UInt8} (hwhite : White white)
    (hwhite' : White white') :
    ∃ m rest, List.Forall₂ Written.Reads (m :: rest) members ∧
      flatMembers (m :: rest) = white ++ (inner ++ white') := by
  induction members generalizing inner white with
  | nil => cases h
  | cons member members ih =>
    have hmember := hv member List.mem_cons_self
    cases h with
    | one h =>
      obtain ⟨m, hm, htext⟩ := exists_member h hmember hwhite hwhite'
      exact ⟨m, [], .cons hm .nil, htext⟩
    | more h hbefore hafter hrest =>
      obtain ⟨m, hm, htext⟩ := exists_member h hmember hwhite hbefore
      obtain ⟨m', rest, hreads, hrest⟩ :=
        ih hrest (fun m hm => hv m (List.mem_cons_of_mem _ hm)) hafter
      refine ⟨m, m' :: rest, .cons hm hreads, ?_⟩
      rw [flatMembers, htext, hrest]
      simp

theorem exists_flatText (h : Text (.object members) text) (hne : members ≠ [])
    (hv : ∀ m ∈ members, m.2.isScalar = true) :
    ∃ written, List.Forall₂ Written.Reads written members ∧ flatText written = text := by
  cases h with
  | noMembers => exact absurd rfl hne
  | object hwhite hmembers hwhite' =>
    obtain ⟨m, rest, hreads, htext⟩ := exists_flatMembers hmembers hv hwhite hwhite'
    refine ⟨m :: rest, hreads, ?_⟩
    rw [flatText, htext]
    simp

theorem Scalar.Reads.toText {value : Scalar} (h : value.Reads v) : Text v value.text := by
  cases h with
  | string h => exact .string h
  | literal h => exact h.toText

/-- What is written between the outer white space of a member is a text of it. -/
theorem Written.Reads.split {m : Written} {member : List UInt8 × Value} (h : m.Reads member) :
    ∃ core, MemberText member core ∧ m.text = m.before ++ (core ++ m.after) := by
  refine ⟨_, .mk h.name h.beforeColon h.afterColon h.value.toText, ?_⟩
  simp [Written.text]

theorem membersText_flat {m : Written} (h : List.Forall₂ Written.Reads (m :: written) members) :
    ∃ inner white, MembersText members inner ∧ White white ∧
      flatMembers (m :: written) = m.before ++ (inner ++ white) := by
  induction written generalizing m members with
  | nil =>
    obtain ⟨member, _, hm, hrest, rfl⟩ := List.forall₂_cons_left_iff.mp h
    obtain rfl := List.forall₂_nil_left_iff.mp hrest
    obtain ⟨core, hcore, htext⟩ := hm.split
    exact ⟨core, m.after, .one hcore, hm.after, htext⟩
  | cons m' written ih =>
    obtain ⟨member, members, hm, hrest, rfl⟩ := List.forall₂_cons_left_iff.mp h
    obtain ⟨core, hcore, htext⟩ := hm.split
    obtain ⟨inner, white, hinner, hwhite, hmembers⟩ := ih hrest
    have hbefore : White m'.before := by
      obtain ⟨_, _, hm', -, -⟩ := List.forall₂_cons_left_iff.mp hrest
      exact hm'.before
    refine ⟨_, white, .more hcore hm.after hbefore hinner, hwhite, ?_⟩
    rw [flatMembers, htext, hmembers]
    simp

/-- **A flat object** is read as what its members stand for. -/
theorem parse_flatText (h : List.Forall₂ Written.Reads written members) :
    parse (flatText written) = some (.object members) := by
  cases written with
  | nil =>
    obtain rfl := List.forall₂_nil_left_iff.mp h
    exact (Text.noMembers white_nil).parse
  | cons m written =>
    obtain ⟨inner, white, hinner, hwhite, hmembers⟩ := membersText_flat h
    obtain ⟨_, _, hm, -, -⟩ := List.forall₂_cons_left_iff.mp h
    have htext := Text.object hm.before hinner hwhite
    rw [flatText, hmembers]
    simpa using htext.parse

/-! ## The bytes of a flat object -/

theorem not_control_of_escape : ∀ c : UInt8,
    ((hexValue c).isSome = true → 32 ≤ c) ∧ ((escaped c).isSome = true → 32 ≤ c) :=
  forall_byte (by decide +kernel)

/-- The text of a string has no control characters. -/
theorem not_control_of_decode {body s : List UInt8} (h : decode body = some s) :
    ∀ c ∈ body, 32 ≤ c := by
  obtain ⟨ps, hps, -⟩ := Option.map_eq_some_iff.mp h
  have hpieced := pieced_of_pieces hps
  clear h hps
  induction hpieced with
  | nil => simp
  | @unit a b c d u rest ps hu _ ih =>
    simp only [hexUnit, Option.bind_eq_bind, Option.bind_eq_some_iff] at hu
    obtain ⟨_, ha, _, hb, _, hc, _, hd, -⟩ := hu
    have hhex : ∀ {e n}, hexValue e = some n → 32 ≤ e :=
      fun h => (not_control_of_escape _).1 (by rw [h]; rfl)
    simpa [hhex ha, hhex hb, hhex hc, hhex hd] using ih
  | @escaped c e rest ps he _ ih =>
    simpa [(not_control_of_escape c).2 (by rw [he]; rfl)] using ih
  | byte hc _ ih => simpa [UInt8.not_lt.mp hc.2.2] using ih

/-- The characters of literals. -/
def isLiteralByte (c : UInt8) : Bool :=
  isNumberByte c || (ascii "nulltruefalse").contains c

theorem literal_bytes (h : Literal v text) : text ≠ [] ∧ ∀ c ∈ text, isLiteralByte c = true := by
  cases h with
  | null => exact ⟨by decide, forall_mem_ascii (P := (isLiteralByte · = true)) _ rfl⟩
  | true => exact ⟨by decide, forall_mem_ascii (P := (isLiteralByte · = true)) _ rfl⟩
  | false => exact ⟨by decide, forall_mem_ascii (P := (isLiteralByte · = true)) _ rfl⟩
  | number h =>
    obtain ⟨c, tail, rfl, -⟩ := h.head
    refine ⟨List.cons_ne_nil _ _, fun c hc => ?_⟩
    rw [isLiteralByte, h.bytes c hc, Bool.true_or]

theorem nul_not_mem_of_decode {body s : List UInt8} (h : decode body = some s) :
    (0 : UInt8) ∉ body :=
  fun h0 => absurd (not_control_of_decode h 0 h0) (by decide)

theorem nul_not_mem_white (h : White text) : (0 : UInt8) ∉ text :=
  fun h0 => absurd (h 0 h0) (by decide)

theorem Scalar.Reads.nul_not_mem {value : Scalar} (h : value.Reads v) : (0 : UInt8) ∉ value.text := by
  cases h with
  | string h =>
    simpa [Scalar.text] using nul_not_mem_of_decode h
  | literal h => exact fun h0 => absurd ((literal_bytes h).2 0 h0) (by decide)

theorem Written.Reads.nul_not_mem {m : Written} {member : List UInt8 × Value}
    (h : m.Reads member) : (0 : UInt8) ∉ m.text := by
  simp [Written.text, nul_not_mem_of_decode h.name, h.value.nul_not_mem, nul_not_mem_white h.before,
    nul_not_mem_white h.beforeColon, nul_not_mem_white h.afterColon, nul_not_mem_white h.after]

theorem nul_not_mem_flatText (h : List.Forall₂ Written.Reads written members) :
    (0 : UInt8) ∉ flatText written := by
  have hmembers : (0 : UInt8) ∉ flatMembers written := by
    induction h with
    | nil => exact List.not_mem_nil
    | @cons m member written members hm hrest ih =>
      cases written with
      | nil => exact hm.nul_not_mem
      | cons m' written =>
        rw [flatMembers, List.mem_append, List.mem_cons, not_or, not_or]
        exact ⟨hm.nul_not_mem, by decide, ih⟩
  simp [flatText, hmembers]

/-! ## Members by their names -/

/-- The value of the first member whose name is spelled like this. -/
def spelled (written : List Written) (name : List UInt8) : Option Scalar :=
  (written.find? fun m => m.name = name).map Written.value

end Flat

end SocketHandoff.Json
